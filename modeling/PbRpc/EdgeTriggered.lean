import Mathlib.Data.Finset.Basic

/-!
# Edge-triggered readiness

A source of events has a *level*, the events that hold of it now, and an
observer that has registered an interest in some of them. Where readiness is
level-triggered the observer is told what holds for as long as it holds.
Where it is edge-triggered, a report becomes due when an event of interest
happens, or when the interest is registered and such an event holds already;
once the report is fetched nothing is due until one of the two happens
again.

A report shows every event of interest that holds, and not only the one that
made it due. So nothing is lost before the report is fetched
(`Source.Owes`), and from there on it is the observer who may lose it.
-/

namespace EdgeTriggered

variable {ε : Type*} [DecidableEq ε]

/-- **A source of events**, and whether a report of it is due. -/
structure Source (ε : Type*) where
  level : Finset ε
  due : Bool := false

namespace Source

/-- The interest is registered, for the first time or anew. -/
def register (s : Source ε) (interest : Finset ε) : Source ε :=
  { s with due := s.due || decide (s.level ∩ interest).Nonempty }

/-- Events happen. -/
def happen (s : Source ε) (interest events : Finset ε) : Source ε where
  level := s.level ∪ events
  due := s.due || decide (events ∩ interest).Nonempty

/-- An event holds no longer. -/
def subside (s : Source ε) (event : ε) : Source ε := { s with level := s.level.erase event }

/-- What a report shows. -/
def report (s : Source ε) (interest : Finset ε) : Finset ε := s.level ∩ interest

/-- The report is fetched, or the interest is given up. -/
def clear (s : Source ε) : Source ε := { s with due := false }

/-- **An event is not lost**: if it holds and is of interest, a report is
due. -/
def Owes (s : Source ε) (interest : Finset ε) (event : ε) : Prop :=
  event ∈ s.level → event ∈ interest → s.due = true

variable {s : Source ε} {interest events : Finset ε} {event other : ε}

omit [DecidableEq ε] in
theorem owes_of_due (h : s.due = true) : s.Owes interest event := fun _ _ => h

omit [DecidableEq ε] in
theorem owes_of_not_mem (h : event ∉ interest) : s.Owes interest event := fun _ hmem =>
  absurd hmem h

/-- Whatever was lost before, registering makes up for it. -/
theorem owes_register : (s.register interest).Owes interest event := by
  intro hlevel hinterest
  have hmem : event ∈ s.level ∩ interest := Finset.mem_inter.mpr ⟨hlevel, hinterest⟩
  show (s.due || decide (s.level ∩ interest).Nonempty) = true
  rw [decide_eq_true ⟨event, hmem⟩, Bool.or_true]

theorem Owes.happen (h : s.Owes interest event) :
    (s.happen interest events).Owes interest event := by
  intro hlevel hinterest
  show (s.due || decide (events ∩ interest).Nonempty) = true
  rcases Finset.mem_union.mp hlevel with hlevel | hevent
  · rw [h hlevel hinterest, Bool.true_or]
  · have hmem : event ∈ events ∩ interest := Finset.mem_inter.mpr ⟨hevent, hinterest⟩
    rw [decide_eq_true ⟨event, hmem⟩, Bool.or_true]

theorem owes_subside : (s.subside event).Owes interest event := fun hlevel =>
  absurd hlevel (Finset.notMem_erase event s.level)

theorem Owes.subside (h : s.Owes interest event) : (s.subside other).Owes interest event :=
  fun hlevel => h (Finset.mem_of_mem_erase hlevel)

/-- An event that holds and is of interest is in the report. -/
theorem mem_report : event ∈ s.report interest ↔ event ∈ s.level ∧ event ∈ interest :=
  Finset.mem_inter

end Source

end EdgeTriggered
