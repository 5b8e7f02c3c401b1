import Mathlib.Logic.Relation

/-!
# Runs of a labelled system

A system of threads and messages is given by what each of its atomic steps
does: a function of the state and of a label that names the step, undefined
where the step cannot be taken. A *run* is any sequence of steps, so that
a law of all runs is a law of all interleavings.

Some laws hold only of the runs whose steps meet a condition, and the
condition may look at the state the step is taken in. `Runs` therefore has
it as a parameter. Other laws assume something of what has happened in the
run up to the state they speak of; when this can only become harder as the
run goes on, it may be assumed of every state before (`Runs.invariant_of`).

`execute` runs a list of labels, which is how a particular run is given.
-/

namespace Transition

variable {σ ℓ : Type*} {step : σ → ℓ → Option σ} {ok : σ → ℓ → Prop} {s s' s'' : σ}

/-- One step, under a condition. -/
def Moves (step : σ → ℓ → Option σ) (ok : σ → ℓ → Prop) (s s' : σ) : Prop :=
  ∃ l, ok s l ∧ step s l = some s'

/-- **The runs** from one state to another whose steps all meet a
condition. -/
def Runs (step : σ → ℓ → Option σ) (ok : σ → ℓ → Prop) : σ → σ → Prop :=
  Relation.ReflTransGen (Moves step ok)

/-- The condition that every step meets. -/
def anyStep (_ : σ) (_ : ℓ) : Prop := True

namespace Runs

theorem refl (s : σ) : Runs step ok s s := Relation.ReflTransGen.refl

theorem trans (h : Runs step ok s s') (h' : Runs step ok s' s'') : Runs step ok s s'' :=
  Relation.ReflTransGen.trans h h'

theorem tail {l : ℓ} (h : Runs step ok s s') (hok : ok s' l) (hs : step s' l = some s'') :
    Runs step ok s s'' :=
  Relation.ReflTransGen.tail h ⟨l, hok, hs⟩

/-- A run under a condition is a run. -/
theorem forget (h : Runs step ok s s') : Runs step anyStep s s' := by
  induction h with
  | refl => exact refl s
  | tail _ hm ih =>
    obtain ⟨l, _, hs⟩ := hm
    exact ih.tail trivial hs

/-- **The invariant rule.** -/
theorem invariant {I : σ → Prop} (hstep : ∀ s l s', I s → ok s l → step s l = some s' → I s')
    (h : Runs step ok s s') (hI : I s) : I s' := by
  induction h with
  | refl => exact hI
  | tail _ hm ih =>
    obtain ⟨l, hok, hs⟩ := hm
    exact hstep _ l _ ih hok hs

/-- **The invariant rule under a hypothesis on the whole run**, where the
hypothesis on a state includes the one on the state before. -/
theorem invariant_under {I H : σ → Prop} (hback : ∀ s l s', step s l = some s' → H s' → H s)
    (hstep : ∀ s l s', I s → ok s l → H s' → step s l = some s' → I s')
    (h : Runs step ok s s') (hI : I s) (hH : H s') : I s' := by
  induction h with
  | refl => exact hI
  | tail _ hm ih =>
    obtain ⟨l, hok, hs⟩ := hm
    exact hstep _ l _ (ih (hback _ l _ hs hH)) hok hH hs

/-- The rule, where the condition on the steps does not matter. -/
theorem invariant_of {I H : σ → Prop} (hback : ∀ s l s', step s l = some s' → H s' → H s)
    (hstep : ∀ s l s', I s → H s' → step s l = some s' → I s')
    (h : Runs step ok s s') (hI : I s) (hH : H s') : I s' :=
  h.invariant_under hback (fun s l s' hI _ => hstep s l s' hI) hI hH

/-- The hypothesis, on the state the run started from. -/
theorem back {H : σ → Prop} (hback : ∀ s l s', step s l = some s' → H s' → H s)
    (h : Runs step ok s s') (hH : H s') : H s := by
  induction h with
  | refl => exact hH
  | tail _ hm ih =>
    obtain ⟨l, _, hs⟩ := hm
    exact ih (hback _ l _ hs hH)

end Runs

/-- The state after a list of steps. -/
def execute (step : σ → ℓ → Option σ) : σ → List ℓ → Option σ
  | s, [] => some s
  | s, l :: ls => (step s l).bind (fun s => execute step s ls)

/-- A list of steps that can be executed is a run under what all of them
meet. -/
theorem runs_of_execute_of {ls : List ℓ} (hok : ∀ l ∈ ls, ∀ s, ok s l)
    (h : execute step s ls = some s') : Runs step ok s s' := by
  induction ls generalizing s with
  | nil =>
    obtain rfl : s = s' := Option.some.inj h
    exact Runs.refl s
  | cons l ls ih =>
    obtain ⟨hl, hls⟩ := List.forall_mem_cons.mp hok
    obtain ⟨s₁, hs, h⟩ := Option.bind_eq_some_iff.mp h
    exact ((Runs.refl s).tail (hl s) hs).trans (ih hls h)

/-- A run that is executed reaches a state of which a test says something. -/
theorem exists_of_execute_of (ls : List ℓ) (hok : ∀ l ∈ ls, ∀ s, ok s l) {p : σ → Bool}
    (h : (execute step s ls).any p = true) : ∃ s', Runs step ok s s' ∧ p s' = true := by
  obtain ⟨s', hs, hp⟩ := (Option.any_eq_true _ _).mp h
  exact ⟨s', runs_of_execute_of hok hs, hp⟩

theorem exists_of_execute (ls : List ℓ) {p : σ → Bool} (h : (execute step s ls).any p = true) :
    ∃ s', Runs step anyStep s s' ∧ p s' = true :=
  exists_of_execute_of ls (fun _ _ _ => trivial) h

/-- The steps that meet a condition, as a system of their own. -/
def restrict (step : σ → ℓ → Option σ) (ok : σ → ℓ → Prop) [∀ s l, Decidable (ok s l)] (s : σ)
    (l : ℓ) : Option σ :=
  if ok s l then step s l else none

theorem runs_of_restrict [∀ s l, Decidable (ok s l)]
    (h : Runs (restrict step ok) anyStep s s') : Runs step ok s s' := by
  induction h with
  | refl => exact Runs.refl s
  | tail _ hm ih =>
    obtain ⟨l, _, hs⟩ := hm
    rw [restrict] at hs
    split at hs
    · exact ih.tail (by assumption) hs
    · cases hs

end Transition
