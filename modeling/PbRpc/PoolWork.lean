import PbRpc.ThreadPool
import PbRpc.TcpServer

/-!
# Tasks that wait for a worker

A task is queued with the mutex, and a worker that has found the queue empty
keeps the mutex until it is asleep. So `notify_one` comes after every worker
that has not seen the task is asleep, and wakes one of them if there is one.
As long as the pool is not stopped no task waits while a worker sleeps: when
no thread can go on by itself, the queue is empty or every worker has a task
(`queue_or_running`).

The event loops are tasks too. They are added first, one for each I/O thread,
and they do not return. The workers are as many as the I/O threads and the
work threads together. In the server every loop therefore gets a worker. The
client adds the loop of its heartbeats before the others, so that without work
threads the last of its I/O loops never runs (`loopsBegin`).
-/

namespace PbRpc

open Transition

namespace WorkerPhase

/-- With the mutex. -/
def holding : WorkerPhase → Bool
  | waiting | drowsy | leaving => true
  | _ => false

/-- On its way to look at the queue, or to pop a task. -/
def looking : WorkerPhase → Bool
  | testing | locking | waiting | woken | leaving => true
  | _ => false

end WorkerPhase

namespace ThreadPool

variable {ι κ : Type} [Fintype ι] [DecidableEq ι] [Fintype κ] [DecidableEq κ]
  {s s' : ThreadPool ι κ} {l : PoolStep ι κ} {i : ι} {phase : WorkerPhase}

/-- The steps that a worker or a thread in `addtask` takes by itself. A task
may go on for ever, and a worker need not wake for no reason. -/
def Internal : PoolStep ι κ → Prop
  | .notify_one _ _ | .test _ | .lock _ | .predicate _ | .sleep _ | .take _ => True
  | _ => False

/-- **No thread can go on by itself.** -/
def Settled (s : ThreadPool ι κ) : Prop := ∀ l : PoolStep ι κ, Internal l → s.step l = none

/-! ## The mutex -/

/-- **Who has the mutex.** -/
def Locked (s : ThreadPool ι κ) : Prop :=
  ∀ i, s.mutex_ = some i ↔ (s.workers i).holding = true

omit [Fintype ι] [Fintype κ] [DecidableEq κ] in
/-- A worker moves between phases that are alike. -/
theorem Locked.move (h : s.Locked) (hsame : phase.holding = (s.workers i).holding) :
    (s.move i phase).Locked := by
  intro j
  show s.mutex_ = some j ↔ (Function.update s.workers i phase j).holding = true
  by_cases hj : j = i
  · rw [hj, Function.update_self, hsame]
    exact h i
  · rw [Function.update_of_ne hj]
    exact h j

omit [Fintype ι] [Fintype κ] [DecidableEq κ] in
/-- A worker takes the mutex. -/
theorem Locked.take (h : s.Locked) (hfree : s.mutex_ = none) (hto : phase.holding = true) :
    Locked { s.move i phase with mutex_ := some i } := by
  intro j
  show some i = some j ↔ (Function.update s.workers i phase j).holding = true
  by_cases hj : j = i
  · rw [hj, Function.update_self]
    exact ⟨fun _ => hto, fun _ => rfl⟩
  · rw [Function.update_of_ne hj]
    refine ⟨fun heq => absurd (Option.some.inj heq).symm hj, fun hholding => ?_⟩
    have hmutex := (h j).mpr hholding
    rw [hfree] at hmutex
    cases hmutex

omit [Fintype ι] [Fintype κ] [DecidableEq κ] in
/-- The worker that has the mutex lets go of it. -/
theorem Locked.release (h : s.Locked) (hfrom : (s.workers i).holding = true)
    (hto : phase.holding = false) : Locked { s.move i phase with mutex_ := none } := by
  intro j
  show none = some j ↔ (Function.update s.workers i phase j).holding = true
  constructor
  · exact fun heq => nomatch heq
  intro hholding
  by_cases hj : j = i
  · rw [hj, Function.update_self, hto] at hholding
    cases hholding
  · rw [Function.update_of_ne hj] at hholding
    have hmutex := (h i).mpr hfrom
    rw [(h j).mpr hholding] at hmutex
    exact absurd (Option.some.inj hmutex) hj

omit [Fintype κ] in
theorem Locked.step (h : s.Locked) (hs : s.step l = some s') : s'.Locked := by
  cases step_cases hs with
  | addtask c | notify_none hc | stop hphase | stopped hphase hstop | unstopped hphase hstop
  | set hphase | join hphase hexited => exact h
  | notify_one hc hi => exact Locked.move (s := s) h (by rw [hi]; rfl)
  | test hi => exact h.move (by rw [hi]; split <;> rfl)
  | lock hi hfree => exact h.take hfree rfl
  | predicate hi => exact h.move (by rw [hi]; split <;> rfl)
  | sleep hi | exit hi hstop hqueue => exact h.release (by rw [hi]; rfl) rfl
  | pop hi hqueue => exact Locked.release (s := s) h (by rw [hi]; rfl) rfl
  | spurious hi => exact h.move (by rw [hi]; rfl)
  | finish hi => exact Locked.move (s := s) h (by rw [hi]; rfl)
  | notify_all hphase =>
    intro i
    show s.mutex_ = some i ↔ (if s.workers i = .asleep then WorkerPhase.woken
      else s.workers i).holding = true
    rw [h i]
    split
    case isTrue hi => rw [hi]; rfl
    case isFalse => rfl

/-! ## Enough workers are awake -/

/-- The threads that have queued a task and not notified anybody. -/
def notifying (s : ThreadPool ι κ) : ℕ := Census.count Option.isSome s.callers

/-- The workers that will look at the queue. -/
def lookers (s : ThreadPool ι κ) : ℕ := Census.count WorkerPhase.looking s.workers

/-- **What a sleeping worker may rely on**: for every task that is queued
somebody is to be woken, or is awake. -/
structure Attended (s : ThreadPool ι κ) : Prop where
  drowsy : ∀ i, s.workers i = .drowsy → s.taskqueue_ = []
  leaving : ∀ i, s.workers i = .leaving → s.taskqueue_ ≠ []
  enough : ∀ i, s.workers i = .asleep → s.taskqueue_.length ≤ s.notifying + s.lookers
  present : ∀ i, s.workers i ≠ .exited

omit [Fintype κ] [DecidableEq κ] in
theorem lookers_move (hsame : phase.looking = (s.workers i).looking) :
    (s.move i phase).lookers = s.lookers :=
  Census.count_update_eq hsame

omit [Fintype κ] [DecidableEq κ] in
theorem lookers_move_up (hfrom : (s.workers i).looking = false) (hto : phase.looking = true) :
    (s.move i phase).lookers = s.lookers + 1 :=
  Census.count_update_enter hfrom hto

omit [Fintype κ] [DecidableEq κ] in
theorem lookers_move_down (hfrom : (s.workers i).looking = true) (hto : phase.looking = false) :
    (s.move i phase).lookers + 1 = s.lookers :=
  Census.count_update_leave hfrom hto

omit [Fintype ι] in
/-- After a move of a worker to another phase, the workers in a phase are others. -/
theorem of_update_eq {f : ι → WorkerPhase} {j : ι} {p : WorkerPhase}
    (h : Function.update f i phase j = p) (hp : phase ≠ p) : j ≠ i ∧ f j = p := by
  by_cases hj : j = i
  · rw [hj, Function.update_self] at h
    exact absurd h hp
  · rw [Function.update_of_ne hj] at h
    exact ⟨hj, h⟩

omit [DecidableEq κ] in
/-- **A worker moves**, to where it neither sleeps nor looks at the queue, or to
where it may look. -/
theorem Attended.move (h : s.Attended) (hdrowsy : phase ≠ .drowsy) (hleaving : phase ≠ .leaving)
    (hasleep : phase ≠ .asleep) (hexited : phase ≠ .exited)
    (hlookers : s.lookers ≤ (s.move i phase).lookers) : (s.move i phase).Attended where
  drowsy j hj := h.drowsy j (of_update_eq hj hdrowsy).2
  leaving j hj := h.leaving j (of_update_eq hj hleaving).2
  enough j hj :=
    (h.enough j (of_update_eq hj hasleep).2).trans (Nat.add_le_add_left hlookers _)
  present j hj := h.present j (of_update_eq hj hexited).2

omit [Fintype ι] [DecidableEq ι] [Fintype κ] [DecidableEq κ] in
/-- Only one worker has the mutex. -/
theorem Locked.unique (h : s.Locked) {j : ι} (hi : (s.workers i).holding = true)
    (hj : (s.workers j).holding = true) : j = i := by
  have hmutex := (h j).mpr hj
  rw [(h i).mpr hi] at hmutex
  exact (Option.some.inj hmutex).symm

/-- A task is queued while nobody has the mutex. -/
theorem Attended.addtask {c : κ} (h : s.Attended) (hlocked : s.Locked)
    (hs : s.step (.addtask c) = some s') : s'.Attended := by
  rw [step] at hs
  split at hs
  case isFalse => cases hs
  case isTrue hfree =>
    obtain rfl := Option.some.inj hs
    have hnotifying : Census.count Option.isSome (Function.update s.callers c (some s.pushed))
        = s.notifying + 1 :=
      Census.count_update_enter (by rw [hfree.1]; rfl) rfl
    refine ⟨fun j hj => ?_, fun j _ => ?_, fun j hj => ?_, h.present⟩
    · have hmutex := (hlocked j).mpr (by rw [show s.workers j = .drowsy from hj]; rfl)
      rw [hfree.2] at hmutex
      cases hmutex
    · exact List.append_ne_nil_of_right_ne_nil _ (List.cons_ne_nil _ _)
    · show (s.taskqueue_ ++ [s.pushed]).length
        ≤ Census.count Option.isSome (Function.update s.callers c (some s.pushed)) + s.lookers
      rw [hnotifying, List.length_append, List.length_singleton, Nat.add_right_comm]
      exact Nat.add_le_add_right (h.enough j hj) 1

/-- `notify_one` wakes a worker if there is one asleep. -/
theorem Attended.notify_one {c : κ} {wakes : Option ι} (h : s.Attended)
    (hs : s.step (.notify_one c wakes) = some s') : s'.Attended := by
  have hnotifying : ∀ task, s.callers c = some task →
      Census.count Option.isSome (Function.update s.callers c none) + 1 = s.notifying :=
    fun task hc => Census.count_update_leave (by rw [hc]; rfl) rfl
  cases wakes with
  | none =>
    rw [step] at hs
    split at hs
    case h_1 => cases hs
    case h_2 task hc =>
      obtain ⟨hawake, hs⟩ := Option.ite_none_right_eq_some.mp hs
      obtain rfl := Option.some.inj hs
      exact ⟨h.drowsy, h.leaving, fun j hj => absurd hj (hawake j), h.present⟩
  | some i =>
    cases step_cases hs with
    | @notify_one _ task _ hc hi =>
      have hlookers : (s.move i .woken).lookers = s.lookers + 1 :=
        lookers_move_up (by rw [hi]; rfl) rfl
      refine ⟨fun j hj => h.drowsy j (of_update_eq hj WorkerPhase.noConfusion).2,
        fun j hj => h.leaving j (of_update_eq hj WorkerPhase.noConfusion).2, fun j hj => ?_,
        fun j hj => h.present j (of_update_eq hj WorkerPhase.noConfusion).2⟩
      show s.taskqueue_.length ≤ Census.count Option.isSome (Function.update s.callers c none)
        + (s.move i .woken).lookers
      rw [hlookers, Nat.add_comm s.lookers, ← Nat.add_assoc, hnotifying task hc]
      exact h.enough j (of_update_eq hj WorkerPhase.noConfusion).2

omit [DecidableEq κ] in
/-- What a worker finds in the queue. -/
theorem Attended.predicate (h : s.Attended) (hstop : s.stop_ = false)
    (hi : s.workers i = .waiting) :
    (s.move i (if s.stop_ = true ∨ s.taskqueue_ ≠ [] then .leaving else .drowsy)).Attended := by
  by_cases hqueue : s.taskqueue_ = []
  · rw [if_neg (by rw [hstop, hqueue]; simp)]
    refine ⟨fun _ _ => hqueue, fun j hj => h.leaving j (of_update_eq hj nofun).2, fun j _ => ?_,
      fun j hj => h.present j (of_update_eq hj nofun).2⟩
    show s.taskqueue_.length ≤ _
    rw [hqueue]
    exact Nat.zero_le _
  · rw [if_pos (.inr hqueue)]
    refine ⟨fun j hj => h.drowsy j (of_update_eq hj nofun).2, fun _ _ => hqueue, fun j hj => ?_,
      fun j hj => h.present j (of_update_eq hj nofun).2⟩
    rw [lookers_move (by rw [hi]; rfl)]
    exact h.enough j (of_update_eq hj nofun).2

omit [DecidableEq κ] in
/-- A worker falls asleep with nothing queued. -/
theorem Attended.sleep (h : s.Attended) (hi : s.workers i = .drowsy) :
    Attended { s.move i .asleep with mutex_ := none } := by
  refine ⟨fun _ _ => h.drowsy i hi, fun j hj => h.leaving j (of_update_eq hj nofun).2,
    fun j _ => ?_, fun j hj => h.present j (of_update_eq hj nofun).2⟩
  show s.taskqueue_.length ≤ _
  rw [h.drowsy i hi]
  exact Nat.zero_le _

omit [DecidableEq κ] in
/-- A worker pops a task, and nobody else is at the queue. -/
theorem Attended.pop (h : s.Attended) (hlocked : s.Locked) (hi : s.workers i = .leaving)
    {task : ℕ} {taskqueue_ : List ℕ} (hqueue : s.taskqueue_ = task :: taskqueue_) :
    Attended { s.move i (.running task) with
      mutex_ := none, taskqueue_ := taskqueue_, begun := s.begun ++ [task] } := by
  have halone : ∀ j, (s.workers j).holding = true → j = i := fun j hj =>
    hlocked.unique (by rw [hi]; rfl) hj
  have hlookers : (s.move i (.running task)).lookers + 1 = s.lookers :=
    lookers_move_down (by rw [hi]; rfl) rfl
  refine ⟨fun j hj => ?_, fun j hj => ?_, fun j hj => ?_,
    fun j hj => h.present j (of_update_eq hj nofun).2⟩
  · obtain ⟨hne, hj⟩ := of_update_eq hj nofun
    exact absurd (halone j (by rw [hj]; rfl)) hne
  · obtain ⟨hne, hj⟩ := of_update_eq hj nofun
    exact absurd (halone j (by rw [hj]; rfl)) hne
  · have henough := h.enough j (of_update_eq hj nofun).2
    rw [hqueue, List.length_cons, ← hlookers, ← Nat.add_assoc] at henough
    exact Nat.le_of_succ_le_succ henough

/-- **Every step keeps the sleepers right**, until the pool is stopped. -/
theorem Attended.step (h : s.Attended) (hinv : s.Inv) (hlocked : s.Locked)
    (hstop : s.stop_ = false) (hs : s.step l = some s') : s'.Attended := by
  cases step_cases hs with
  | addtask c => exact h.addtask hlocked hs
  | notify_none hc | notify_one hc hi => exact h.notify_one hs
  | @test i hi =>
    rw [hstop]
    exact h.move nofun nofun nofun nofun (lookers_move (by rw [hi]; rfl)).ge
  | @lock i hi hfree =>
    have hmove : (s.move i .waiting).Attended := h.move nofun nofun nofun nofun
      (lookers_move (by rcases hi with hi | hi <;> rw [hi] <;> rfl)).ge
    exact ⟨hmove.drowsy, hmove.leaving, hmove.enough, hmove.present⟩
  | predicate hi => exact h.predicate hstop hi
  | sleep hi => exact h.sleep hi
  | spurious hi =>
    refine h.move nofun nofun nofun nofun ?_
    rw [lookers_move_up (by rw [hi]; rfl) rfl]
    exact Nat.le_succ _
  | exit hi hset hqueue =>
    rw [hstop] at hset
    cases hset
  | pop hi hqueue => exact h.pop hlocked hi hqueue
  | @finish i task hi =>
    have hmove : (s.move i .testing).Attended := by
      refine h.move nofun nofun nofun nofun ?_
      rw [lookers_move_up (by rw [hi]; rfl) rfl]
      exact Nat.le_succ _
    exact ⟨hmove.drowsy, hmove.leaving, hmove.enough, hmove.present⟩
  | stop hphase | stopped hphase hstop | unstopped hphase hstop | set hphase | join hphase hexited =>
    exact ⟨h.drowsy, h.leaving, h.enough, h.present⟩
  | notify_all hphase =>
    have hset := hinv.set (.inl hphase)
    rw [hstop] at hset
    cases hset

/-! ## No task waits while a worker sleeps -/

/-- **What a run keeps until the pool is stopped.** -/
structure Working (s : ThreadPool ι κ) : Prop where
  inv : s.Inv
  locked : s.Locked
  attended : s.stop_ = false → s.Attended

theorem Working.step (h : s.Working) (hs : s.step l = some s') : s'.Working where
  inv := h.inv.step hs
  locked := h.locked.step hs
  attended hstop := by
    have hstop : s.stop_ = false := eq_false_of_ne_true fun hset =>
      Bool.false_ne_true (hstop.symm.trans (stop_step hs hset))
    exact (h.attended hstop).step h.inv h.locked hstop hs

omit [DecidableEq ι] [DecidableEq κ] in
theorem Working.init : Working ({} : ThreadPool ι κ) where
  inv := .init
  locked _ := ⟨nofun, nofun⟩
  attended _ := ⟨nofun, nofun, nofun, nofun⟩

theorem Working.of_runs {ok : ThreadPool ι κ → PoolStep ι κ → Prop}
    (hruns : Runs ThreadPool.step ok {} s) : s.Working :=
  hruns.invariant (fun _ _ _ h _ hs => h.step hs) .init

/-- When no thread can go on, none has the mutex. -/
theorem Working.free (h : s.Working) (hstop : s.stop_ = false) (hsettled : s.Settled) :
    s.mutex_ = none := by
  cases hmutex : s.mutex_ with
  | none => rfl
  | some i =>
    exfalso
    have hholding := (h.locked i).mp hmutex
    cases hi : s.workers i with
    | waiting =>
      have hnone : s.step (.predicate i) = none := hsettled _ trivial
      rw [ThreadPool.step, if_pos hi] at hnone
      cases hnone
    | drowsy =>
      have hnone : s.step (.sleep i) = none := hsettled _ trivial
      rw [ThreadPool.step, if_pos hi] at hnone
      cases hnone
    | leaving =>
      have hnone : s.step (.take i) = none := hsettled _ trivial
      rw [ThreadPool.step, if_pos hi, if_neg (by rw [hstop]; simp)] at hnone
      obtain ⟨task, taskqueue_, hqueue⟩ :=
        List.exists_cons_of_ne_nil ((h.attended hstop).leaving i hi)
      rw [hqueue] at hnone
      cases hnone
    | testing | locking | asleep | woken | running task | exited =>
      rw [hi] at hholding
      cases hholding

/-- **Where the workers are when no thread can go on.** -/
theorem Working.settled (h : s.Working) (hstop : s.stop_ = false) (hsettled : s.Settled) (i : ι) :
    s.workers i = .asleep ∨ (s.workers i).isRunning = true := by
  have hfree := h.free hstop hsettled
  cases hi : s.workers i with
  | asleep => exact .inl rfl
  | running task => exact .inr rfl
  | testing =>
    have hnone : s.step (.test i) = none := hsettled _ trivial
    rw [ThreadPool.step, if_pos hi] at hnone
    cases hnone
  | locking =>
    have hnone : s.step (.lock i) = none := hsettled _ trivial
    rw [ThreadPool.step, if_pos ⟨.inl hi, hfree⟩] at hnone
    cases hnone
  | woken =>
    have hnone : s.step (.lock i) = none := hsettled _ trivial
    rw [ThreadPool.step, if_pos ⟨.inr hi, hfree⟩] at hnone
    cases hnone
  | waiting | drowsy | leaving =>
    have hmutex := (h.locked i).mpr (by rw [hi]; rfl)
    rw [hfree] at hmutex
    cases hmutex
  | exited => exact absurd hi ((h.attended hstop).present i)

omit [Fintype κ] in
/-- A pool in which nobody is about to do anything. -/
theorem settled_of (hcallers : ∀ c, s.callers c = none)
    (hworkers : ∀ i, s.workers i = .asleep ∨ (s.workers i).isRunning = true) : s.Settled := by
  intro l hl
  cases l with
  | notify_one c wakes => rw [ThreadPool.step, hcallers c]
  | test i | lock i | predicate i | sleep i | take i =>
    rcases hworkers i with hi | hi
    · simp [ThreadPool.step, hi]
    · cases hphase : s.workers i with
      | running task => simp [ThreadPool.step, hphase]
      | _ => rw [hphase] at hi; cases hi
  | _ => exact hl.elim

omit [Fintype κ] in
/-- And every `addtask` has returned. -/
theorem Settled.callers (hsettled : s.Settled) (c : κ) : s.callers c = none := by
  cases hc : s.callers c with
  | none => rfl
  | some task =>
    exfalso
    by_cases hasleep : ∃ i, s.workers i = .asleep
    · obtain ⟨i, hi⟩ := hasleep
      have hnone : s.step (.notify_one c (some i)) = none := hsettled _ trivial
      simp [step, hc, hi] at hnone
    · have hnone : s.step (.notify_one c none) = none := hsettled _ trivial
      simp [step, hc, not_exists.mp hasleep] at hnone

/-- **No task waits while a worker sleeps.** -/
theorem Working.queue_or_running (h : s.Working) (hstop : s.stop_ = false)
    (hsettled : s.Settled) : s.taskqueue_ = [] ∨ ∀ i, (s.workers i).isRunning = true := by
  have hworkers := h.settled hstop hsettled
  by_cases hall : ∀ i, (s.workers i).isRunning = true
  · exact .inr hall
  · obtain ⟨i, hi⟩ := not_forall.mp hall
    have henough := (h.attended hstop).enough i ((hworkers i).resolve_right hi)
    have hnotifying : s.notifying = 0 := Census.count_eq_zero fun c => by
      rw [hsettled.callers c]
      rfl
    have hlookers : s.lookers = 0 := Census.count_eq_zero fun j => by
      rcases hworkers j with hj | hj
      · rw [hj]
        rfl
      · cases hphase : s.workers j with
        | running task => rfl
        | _ => rw [hphase] at hj; cases hj
    rw [hnotifying, hlookers] at henough
    exact .inl (List.eq_nil_of_length_eq_zero (Nat.le_zero.mp henough))

/-! ## The loops -/

/-- The condition on the steps of a run: the first tasks do not return. -/
def loopsRun (m : ℕ) (s : ThreadPool ι κ) : PoolStep ι κ → Prop
  | .finish i => ∀ k < m, s.workers i ≠ .running k
  | _ => True

/-- **Where the loops are**: those that have begun each have a worker, and no
two workers have one task. -/
structure Loops (m : ℕ) (s : ThreadPool ι κ) : Prop where
  inv : s.Inv
  run : ∀ k < m, k ∈ s.begun → ∃ i, s.workers i = .running k
  single : ∀ i j task, s.workers i = .running task → s.workers j = .running task → i = j

variable {m : ℕ}

omit [Fintype κ] in
/-- A worker moves that has no task, or one that may return. -/
theorem Loops.move (h : s.Loops m) (hs : s.step l = some s')
    (hworkers : s'.workers = Function.update s.workers i phase) (hbegun : s'.begun = s.begun)
    (hfrom : ∀ k < m, s.workers i ≠ .running k) (hto : phase.isRunning = false) : s'.Loops m := by
  have hother : ∀ j task, s'.workers j = .running task → s.workers j = .running task := by
    intro j task hj
    rw [hworkers] at hj
    refine (of_update_eq hj ?_).2
    rintro rfl
    cases hto
  refine ⟨h.inv.step hs, fun k hk hbegun' => ?_, fun j j' task hj hj' => ?_⟩
  · obtain ⟨j, hj⟩ := h.run k hk (hbegun ▸ hbegun')
    refine ⟨j, ?_⟩
    rw [hworkers, Function.update_of_ne, hj]
    rintro rfl
    exact hfrom k hk hj
  · exact h.single j j' task (hother j task hj) (hother j' task hj')

omit [Fintype κ] in
theorem Loops.pop (h : s.Loops m) (hs : s.step (.take i) = some s') (hi : s.workers i = .leaving)
    {task : ℕ} (htask : task ∉ s.begun)
    (hworkers : s'.workers = Function.update s.workers i (.running task))
    (hbegun : s'.begun = s.begun ++ [task]) : s'.Loops m := by
  have hself : s'.workers i = .running task := by rw [hworkers, Function.update_self]
  have hother : ∀ j, j ≠ i → s'.workers j = s.workers j := fun j hj => by
    rw [hworkers, Function.update_of_ne hj]
  refine ⟨h.inv.step hs, fun k hk hmem => ?_, fun j j' t hj hj' => ?_⟩
  · rw [hbegun, List.mem_append, List.mem_singleton] at hmem
    rcases hmem with hmem | rfl
    · obtain ⟨j, hj⟩ := h.run k hk hmem
      refine ⟨j, (hother j ?_).trans hj⟩
      rintro rfl
      rw [hi] at hj
      cases hj
    · exact ⟨i, hself⟩
  · -- a task that has begun is not popped again
    have hfresh : ∀ j, j ≠ i → s'.workers j ≠ .running task := fun j hj heq =>
      htask (h.inv.running j task ((hother j hj).symm.trans heq))
    by_cases hji : j = i
    · by_cases hji' : j' = i
      · exact hji.trans hji'.symm
      · rw [hji, hself] at hj
        obtain rfl := WorkerPhase.running.inj hj
        exact absurd hj' (hfresh j' hji')
    · by_cases hji' : j' = i
      · rw [hji', hself] at hj'
        obtain rfl := WorkerPhase.running.inj hj'
        exact absurd hj (hfresh j hji)
      · exact h.single j j' t ((hother j hji).symm.trans hj) ((hother j' hji').symm.trans hj')

omit [Fintype κ] in
theorem Loops.step (h : s.Loops m) (hok : loopsRun m s l) (hs : s.step l = some s') :
    s'.Loops m := by
  cases step_cases hs with
  | addtask c | notify_none hc | stop hphase | stopped hphase hstop | unstopped hphase hstop
  | set hphase | join hphase hexited => exact ⟨h.inv.step hs, h.run, h.single⟩
  | notify_one hc hi => exact h.move hs rfl rfl (fun k _ hk => nomatch hi.symm.trans hk) rfl
  | test hi => exact h.move hs rfl rfl (fun k _ hk => nomatch hi.symm.trans hk) (by split <;> rfl)
  | lock hi hfree =>
    refine h.move hs rfl rfl (fun k _ hk => ?_) rfl
    rcases hi with hi | hi
    · exact nomatch hi.symm.trans hk
    · exact nomatch hi.symm.trans hk
  | predicate hi =>
    exact h.move hs rfl rfl (fun k _ hk => nomatch hi.symm.trans hk) (by split <;> rfl)
  | sleep hi => exact h.move hs rfl rfl (fun k _ hk => nomatch hi.symm.trans hk) rfl
  | spurious hi => exact h.move hs rfl rfl (fun k _ hk => nomatch hi.symm.trans hk) rfl
  | exit hi hstop hqueue => exact h.move hs rfl rfl (fun k _ hk => nomatch hi.symm.trans hk) rfl
  | finish hi => exact h.move hs rfl rfl hok rfl
  | @pop i task taskqueue_ hi hqueue =>
    refine h.pop hs hi (fun hmem => ?_) rfl rfl
    have hnodup : (s.begun ++ s.taskqueue_).Nodup := h.inv.order ▸ List.nodup_range
    exact (List.nodup_append.mp hnodup).2.2 task hmem task (by rw [hqueue]; exact List.mem_cons_self)
      rfl
  | notify_all hphase =>
    have hsame : ∀ i task, (if s.workers i = .asleep then WorkerPhase.woken else s.workers i)
        = .running task ↔ s.workers i = .running task := by
      intro i task
      split
      case isTrue hi => rw [hi]; exact ⟨nofun, nofun⟩
      case isFalse => rfl
    refine ⟨h.inv.step hs, fun k hk hbegun => ?_, fun i j task hi hj => ?_⟩
    · obtain ⟨i, hi⟩ := h.run k hk hbegun
      exact ⟨i, (hsame i k).mpr hi⟩
    · exact h.single i j task ((hsame i task).mp hi) ((hsame j task).mp hj)

omit [DecidableEq ι] [Fintype κ] [DecidableEq κ] in
/-- **A loop that has begun has a worker**, and so have those before it. -/
theorem Loops.lt_card {k : ℕ} (h : s.Loops m) (hk : k < m) (hbegun : k ∈ s.begun) :
    k < Fintype.card ι := by
  have hrun : ∀ j : Fin (k + 1), ∃ i, s.workers i = .running j := fun j => by
    have hj : (j : ℕ) ≤ k := Nat.le_of_lt_succ j.isLt
    exact h.run j (lt_of_le_of_lt hj hk)
      (h.inv.mem_begun_iff.mpr (lt_of_le_of_lt hj (h.inv.mem_begun_iff.mp hbegun)))
  choose f hf using hrun
  have hinj : Function.Injective f := fun a b hab => by
    have ha := hf a
    rw [hab, hf b] at ha
    exact Fin.ext (WorkerPhase.running.inj ha).symm
  have hcard := Fintype.card_le_of_injective f hinj
  rwa [Fintype.card_fin] at hcard

omit [DecidableEq ι] [Fintype κ] [DecidableEq κ] in
/-- When every worker has a task, as many have begun. -/
theorem Loops.card_le (h : s.Loops m) (hall : ∀ i, (s.workers i).isRunning = true) :
    Fintype.card ι ≤ s.begun.length := by
  have hrun : ∀ i, ∃ task : Fin s.begun.length, s.workers i = .running task := fun i => by
    have hi := hall i
    cases hphase : s.workers i with
    | running task =>
      exact ⟨⟨task, h.inv.mem_begun_iff.mp (h.inv.running i task hphase)⟩, rfl⟩
    | _ => rw [hphase] at hi; cases hi
  choose f hf using hrun
  have hinj : Function.Injective f := fun i j hij => h.single i j _ (hf i) (hij ▸ hf j)
  have hcard := Fintype.card_le_of_injective f hinj
  rwa [Fintype.card_fin] at hcard

omit [Fintype κ] in
theorem Loops.of_runs (hruns : Runs ThreadPool.step (loopsRun m) {} s) : s.Loops m :=
  hruns.invariant (fun _ _ _ h hok hs => h.step hok hs) ⟨.init, nofun, nofun⟩

/-! ## Whole runs -/

/-- **No task waits while a worker sleeps**, in any run. -/
theorem queueOrRunning (hruns : Runs step anyStep {} s) (hstop : s.stop_ = false)
    (hsettled : s.Settled) : s.taskqueue_ = [] ∨ ∀ i, (s.workers i).isRunning = true :=
  (Working.of_runs hruns).queue_or_running hstop hsettled

/-- Two workers that sleep, and a task that wakes one of them. -/
theorem queueOrRunning_oneTask :
    ∃ s : ThreadPool Bool Unit, s.workers true = .running 0 ∧ s.workers false = .asleep ∧
      (s.taskqueue_ = [] ∨ ∀ i, (s.workers i).isRunning = true) := by
  obtain ⟨s, hruns, h⟩ : ∃ s : ThreadPool Bool Unit, Runs step anyStep {} s ∧
      decide (s.stop_ = false ∧ s.callers () = none ∧ s.workers true = .running 0 ∧
        s.workers false = .asleep) = true :=
    exists_of_execute
      [.test true, .lock true, .predicate true, .sleep true, .test false, .lock false,
        .predicate false, .sleep false, .addtask (), .notify_one () (some true), .lock true,
        .predicate true, .take true] (by decide)
  obtain ⟨hstop, hcallers, htrue, hfalse⟩ := of_decide_eq_true h
  refine ⟨s, htrue, hfalse, queueOrRunning hruns hstop (settled_of (fun _ => hcallers) fun i => ?_)⟩
  cases i with
  | true => exact .inr (by rw [htrue]; rfl)
  | false => exact .inl hfalse

end ThreadPool

/-- `CConfig::load` adds the threads up. -/
def TcpServerConfig.ThreadNum_ (cfg : TcpServerConfig) : ℕ := cfg.ioThread_ + cfg.workThread_

namespace ThreadPool

variable {κ : Type} [Fintype κ] [DecidableEq κ]

/-- **Which loops begin**: the first `m` tasks are loops, and all of them are
run if there are as many threads. The server has one for each I/O thread; the
client has one more. -/
theorem loopsBegin (cfg : TcpServerConfig) {m : ℕ} {s : ThreadPool (Fin cfg.ThreadNum_) κ}
    (hruns : Runs step (loopsRun m) {} s) (hstop : s.stop_ = false) (hsettled : s.Settled)
    (hpushed : m ≤ s.pushed) :
    (∀ k < m, k ∈ s.begun ↔ k < cfg.ThreadNum_) ∧
      (m = cfg.ioThread_ → ∀ k < m, k ∈ s.begun) ∧
      (m = cfg.ioThread_ + 1 → ((∀ k < m, k ∈ s.begun) ↔ 0 < cfg.workThread_)) := by
  have h := Loops.of_runs hruns
  have hbegun : ∀ k < m, k ∈ s.begun ↔ k < cfg.ThreadNum_ := by
    intro k hk
    constructor
    · intro hbegun
      have hlt := h.lt_card hk hbegun
      rwa [Fintype.card_fin] at hlt
    · intro hlt
      rw [h.inv.mem_begun_iff]
      rcases (Working.of_runs hruns).queue_or_running hstop hsettled with hqueue | hall
      · rw [h.inv.length_begun hqueue]
        exact lt_of_lt_of_le hk hpushed
      · have hle := h.card_le hall
        rw [Fintype.card_fin] at hle
        exact lt_of_lt_of_le hlt hle
  refine ⟨hbegun, ?_, ?_⟩
  · rintro rfl k hk
    exact (hbegun k hk).mpr (Nat.lt_add_right _ hk)
  · rintro rfl
    constructor
    · intro hall
      have hlt := (hbegun _ (Nat.lt_succ_self _)).mp (hall _ (Nat.lt_succ_self _))
      rw [TcpServerConfig.ThreadNum_] at hlt
      omega
    · intro hwork k hk
      refine (hbegun k hk).mpr ?_
      rw [TcpServerConfig.ThreadNum_]
      omega

/-- The workers of a client with one thread of each kind, until they run the
loops. -/
def clientStart : List (PoolStep (Fin (TcpServerConfig.ThreadNum_ ⟨1, 1⟩)) Unit) :=
  let heartbeat : Fin (TcpServerConfig.ThreadNum_ ⟨1, 1⟩) := ⟨0, by decide⟩
  let io : Fin (TcpServerConfig.ThreadNum_ ⟨1, 1⟩) := ⟨1, by decide⟩
  [.addtask (), .notify_one () none, .addtask (), .notify_one () none, .test heartbeat,
    .lock heartbeat, .predicate heartbeat, .take heartbeat, .test io, .lock io, .predicate io,
    .take io]

theorem loopsBegin_client :
    ∃ s : ThreadPool (Fin (TcpServerConfig.ThreadNum_ ⟨1, 1⟩)) Unit,
      s.pushed = 2 ∧ ∀ k < 2, k ∈ s.begun := by
  obtain ⟨s, hruns, h⟩ : ∃ s : ThreadPool (Fin (TcpServerConfig.ThreadNum_ ⟨1, 1⟩)) Unit,
      Runs step (loopsRun 2) {} s ∧ decide (s.stop_ = false ∧ s.callers () = none ∧ s.pushed = 2 ∧
        ∀ i, (s.workers i).isRunning = true) = true :=
    exists_of_execute_of clientStart (by simp [clientStart, loopsRun]) (by decide)
  obtain ⟨hstop, hcallers, hpushed, hrunning⟩ := of_decide_eq_true h
  have hsettled : s.Settled := settled_of (fun _ => hcallers) fun i => .inr (hrunning i)
  exact ⟨s, hpushed,
    ((loopsBegin ⟨1, 1⟩ hruns hstop hsettled hpushed.ge).2.2 rfl).mpr Nat.one_pos⟩

end ThreadPool

end PbRpc
