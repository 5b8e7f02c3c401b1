import PbRpc.ThreadPool

/-!
# Waking the workers

`stop` sets `stop_` and then wakes the workers that are asleep, so that each
of them finds the predicate true and leaves. It does both without the mutex.
A worker that has found the predicate false before `stop_` was set, and that
is not asleep yet when `notify_all` is performed, is not woken. It falls
asleep afterwards, nobody is left to wake it, and `join` waits for it
(`not_awake`, `oversleeps`). `addtask` cannot do this to a worker, because it
changes the queue with the mutex, which such a worker still holds.

It does not happen in any other way: if no worker is between the predicate
and its sleep when `notify_all` is performed, none sleeps from then on
(`awake`).
-/

namespace PbRpc

open Transition

namespace WorkerPhase

/-- Asleep, or about to fall asleep. -/
def dozing : WorkerPhase → Bool
  | drowsy | asleep => true
  | _ => false

end WorkerPhase

namespace ThreadPool

variable {ι κ : Type} [Fintype ι] [DecidableEq ι] [DecidableEq κ] {s s' : ThreadPool ι κ}

/-- **No worker sleeps through `stop`**: once `stop_` is set and `notify_all`
has been performed, none is asleep or about to fall asleep. -/
def Awake (s : ThreadPool ι κ) : Prop :=
  s.stop_ = true → s.stopping ≠ .stopping → ∀ i, (s.workers i).dozing = false

omit [DecidableEq ι] [DecidableEq κ] in
instance (s : ThreadPool ι κ) : Decidable s.Awake :=
  inferInstanceAs (Decidable (_ → _ → ∀ i, (s.workers i).dozing = false))

/-- The condition on the steps of a run: when `notify_all` is performed, no
worker has found the predicate false without being asleep yet. -/
def notifiesAsleep (s : ThreadPool ι κ) : PoolStep ι κ → Prop
  | .notify_all => ∀ i, s.workers i ≠ .drowsy
  | _ => True

omit [DecidableEq ι] [DecidableEq κ] in
instance (s : ThreadPool ι κ) (l : PoolStep ι κ) : Decidable (s.notifiesAsleep l) :=
  match l with
  | .notify_all => inferInstanceAs (Decidable (∀ i, s.workers i ≠ .drowsy))
  | .addtask _ | .notify_one _ _ | .test _ | .lock _ | .predicate _ | .sleep _ | .spurious _
  | .take _ | .finish _ | .stop | .check | .set | .join => .isTrue trivial

/-! ## What a step does to the sleepers -/

omit [Fintype ι] [DecidableEq κ] in
/-- A worker that moves to a phase in which it does not doze. -/
theorem dozing_move {i : ι} {phase : WorkerPhase} (hphase : phase.dozing = false)
    (h : ∀ j, (s.workers j).dozing = false) : ∀ j, ((s.move i phase).workers j).dozing = false := by
  intro j
  show (Function.update s.workers i phase j).dozing = false
  by_cases hj : j = i
  · rw [hj, Function.update_self]
    exact hphase
  · rw [Function.update_of_ne hj]
    exact h j

omit [DecidableEq ι] [DecidableEq κ] [Fintype ι] in
/-- What `notify_all` leaves asleep: those that are not asleep yet. -/
theorem dozing_notify_all :
    (∀ i, (if s.workers i = .asleep then WorkerPhase.woken else s.workers i).dozing = false)
      ↔ ∀ i, s.workers i ≠ .drowsy := by
  refine forall_congr' fun i => ?_
  cases s.workers i <;> simp [WorkerPhase.dozing]

/-- **With `stop_` set no worker falls asleep**: the predicate is true. -/
theorem dozing_step (hstop : s.stop_ = true) (h : ∀ i, (s.workers i).dozing = false)
    {l : PoolStep ι κ} (hs : s.step l = some s') : ∀ i, (s'.workers i).dozing = false := by
  cases step_cases hs with
  | addtask c => exact h
  | notify_none hc => exact h
  | notify_one hc hi => exact dozing_move (s := s) rfl h
  | test hi => exact dozing_move (by split <;> rfl) h
  | lock hi => exact dozing_move (s := s) rfl h
  | predicate hi =>
    refine dozing_move ?_ h
    rw [if_pos (.inl hstop)]
    rfl
  | @sleep i hi =>
    have hi' := h i
    rw [hi] at hi'
    cases hi'
  | spurious hi => exact dozing_move rfl h
  | exit hi => exact dozing_move (s := s) rfl h
  | pop hi hqueue => exact dozing_move (s := s) rfl h
  | finish hi => exact dozing_move (s := s) rfl h
  | stop hphase => exact h
  | stopped hphase hset => exact h
  | unstopped hphase hset => exact h
  | set hphase => exact h
  | notify_all hphase =>
    refine dozing_notify_all.mpr fun i hi => ?_
    have hi' := h i
    rw [hi] at hi'
    cases hi'
  | join hphase hexited => exact h

/-- **A step that meets the condition wakes everybody, or keeps everybody
awake.** -/
theorem Awake.step (h : s.Awake) {l : PoolStep ι κ} (hok : s.notifiesAsleep l)
    (hs : s.step l = some s') : s'.Awake := by
  cases step_cases hs with
  | set hphase => exact fun _ hne => absurd rfl hne
  | notify_all hphase => exact fun _ _ => dozing_notify_all.mpr hok
  | stopped hphase hset => exact fun _ _ => h hset (by rw [hphase]; exact StopPhase.noConfusion)
  | unstopped hphase hset => exact fun hset' => absurd (hset'.symm.trans hset) Bool.noConfusion
  | stop hphase =>
    exact fun hset _ => h hset (by rw [hphase]; exact StopPhase.noConfusion)
  | join hphase hexited =>
    exact fun hset _ => h hset (by rw [hphase]; exact StopPhase.noConfusion)
  | addtask _ | notify_none _ | notify_one _ _ | test _ | lock _ _ | predicate _ | sleep _
  | spurious _ | exit _ _ _ | pop _ _ | finish _ =>
    -- `stop` does nothing
    exact fun hset hne => dozing_step (s := s) hset (h hset hne) hs

/-! ## Whole runs -/

/-- **Nobody sleeps through `stop`** in a run in which no worker is about to
fall asleep when `notify_all` is performed; and when one is, it does. -/
theorem awake (hruns : Runs step anyStep {} s) :
    (Runs step notifiesAsleep {} s → s.Awake) ∧
      ∀ s', s.step .notify_all = some s' → (s'.Awake ↔ s.notifiesAsleep .notify_all) := by
  constructor
  · intro h
    exact h.invariant (I := Awake) (fun _ _ _ h hok hs => h.step hok hs)
      (fun hset => Bool.noConfusion hset)
  · intro s' hs
    cases step_cases hs with
    | notify_all hphase =>
      have hset : s.stop_ = true := (Inv.of_runs hruns).set (.inl hphase)
      refine ⟨fun h => dozing_notify_all.mp (h hset StopPhase.noConfusion), fun h _ _ => ?_⟩
      exact dozing_notify_all.mpr h

/-- A worker that is asleep when `stop` is called, and one that is at the
test of its loop. -/
theorem awake_twoWorkers :
    ∃ s : ThreadPool Bool Unit, s.stop_ = true ∧ s.stopping = .joining ∧ s.workers true = .woken ∧
      s.Awake := by
  obtain ⟨s, hruns, h⟩ : ∃ s : ThreadPool Bool Unit,
      Runs (restrict step notifiesAsleep) anyStep {} s ∧
        decide (s.stop_ = true ∧ s.stopping = .joining ∧ s.workers true = .woken) = true :=
    exists_of_execute
      [.test true, .lock true, .predicate true, .sleep true, .stop, .check, .set, .notify_all,
        .test false] (by decide)
  have hruns : Runs step notifiesAsleep {} s := runs_of_restrict hruns
  obtain ⟨hset, hphase, hworker⟩ := of_decide_eq_true h
  exact ⟨s, hset, hphase, hworker, (awake hruns.forget).1 hruns⟩

/-- **A worker sleeps through `stop`** when it has found the predicate false
before `stop_` is set and falls asleep after `notify_all`. -/
theorem not_awake :
    ¬ ∀ (ι κ : Type) [Fintype ι] [DecidableEq ι] [DecidableEq κ] (s : ThreadPool ι κ),
      Runs step anyStep {} s → s.Awake := by
  intro hall
  obtain ⟨s, hruns, h⟩ : ∃ s : ThreadPool Unit Unit, Runs step anyStep {} s ∧
      decide (s.stop_ = true ∧ s.stopping = .joining ∧ s.workers () = .asleep) = true :=
    exists_of_execute
      [.test (), .lock (), .predicate (), .stop, .check, .set, .notify_all, .sleep ()] (by decide)
  obtain ⟨hset, hphase, hworker⟩ := of_decide_eq_true h
  have hawake := hall Unit Unit s hruns hset (by rw [hphase]; exact StopPhase.noConfusion) ()
  rw [hworker] at hawake
  cases hawake

/-- The steps that wake nobody. -/
def WakesNobody : PoolStep ι κ → Prop
  | .notify_one _ wakes => wakes = none
  | .spurious _ => False
  | _ => True

/-- **And `join` waits for it for ever**: a worker that dozes while `stop`
joins goes on dozing, as long as nobody adds a task that wakes it, and `stop`
does not return. -/
theorem oversleeps {i : ι} (hphase : s.stopping = .joining) (hi : (s.workers i).dozing = true)
    (hruns : Runs step (fun _ l => WakesNobody l) s s') :
    s'.stopping = .joining ∧ (s'.workers i).dozing = true := by
  refine hruns.invariant (I := fun s => s.stopping = .joining ∧ (s.workers i).dozing = true) ?_
    ⟨hphase, hi⟩
  rintro s l s' ⟨hphase, hi⟩ hl hs
  have hother : ∀ {j : ι} {phase : WorkerPhase}, (s.workers j).dozing = false →
      ((s.move j phase).workers i).dozing = true := by
    intro j phase hj
    show (Function.update s.workers j phase i).dozing = true
    rw [Function.update_of_ne]
    · exact hi
    · rintro rfl
      rw [hi] at hj
      cases hj
  cases step_cases hs with
  | addtask c => exact ⟨hphase, hi⟩
  | notify_none hc => exact ⟨hphase, hi⟩
  | notify_one hc hj => cases hl
  | test hj => exact ⟨hphase, hother (by rw [hj]; rfl)⟩
  | lock hj => exact ⟨hphase, hother (by rcases hj with hj | hj <;> rw [hj] <;> rfl)⟩
  | predicate hj => exact ⟨hphase, hother (by rw [hj]; rfl)⟩
  | @sleep j hj =>
    refine ⟨hphase, ?_⟩
    show (Function.update s.workers j .asleep i).dozing = true
    by_cases hij : i = j
    · rw [hij, Function.update_self]
      rfl
    · rw [Function.update_of_ne hij]
      exact hi
  | spurious hj => exact hl.elim
  | exit hj => exact ⟨hphase, hother (by rw [hj]; rfl)⟩
  | pop hj hqueue => exact ⟨hphase, hother (by rw [hj]; rfl)⟩
  | finish hj => exact ⟨hphase, hother (by rw [hj]; rfl)⟩
  | stop hphase' => rw [hphase] at hphase'; cases hphase'
  | stopped hphase' hset => rw [hphase] at hphase'; cases hphase'
  | unstopped hphase' hset => rw [hphase] at hphase'; cases hphase'
  | set hphase' => rw [hphase] at hphase'; cases hphase'
  | notify_all hphase' => rw [hphase] at hphase'; cases hphase'
  | join hphase' hexited =>
    rw [hexited i] at hi
    cases hi

end ThreadPool

end PbRpc
