import PbRpc.Census
import PbRpc.Transition

/-!
# The thread pool

A worker of the pool waits on a condition variable for a task, pops it, and
runs it; `stop` sets `stop_`, wakes the workers and joins them. A worker
looks at `stop_` in three places. The one that decides is the first: it goes
round its loop only while `stop_` is not set, so that whoever comes back to
it afterwards leaves, whatever is still queued. From then on each worker that
is past that test pops one task more and no second one.

So every task that is queued when `stop_` is set is popped if there are at
least as many workers past the test as tasks up to it, and only then
(`Staffed`). No task is run twice, and tasks are popped in the order in which
they were added; `tasksRun` puts the two together, and `ran_iff` says that
the condition is exact.

The mutex and the condition variable are modelled step by step: a worker
holds the mutex while it looks at the queue, lets go of it as it falls
asleep, and takes it again when it is woken, which may also happen for no
reason.
-/

namespace PbRpc

open Transition

/-- **Where a worker is.** -/
inductive WorkerPhase where
  /-- At the test of the loop. -/
  | testing
  /-- Past it, and in need of the mutex. -/
  | locking
  /-- At the predicate of `wait`, with the mutex. -/
  | waiting
  /-- The predicate was false, and the worker still has the mutex. -/
  | drowsy
  | asleep
  /-- Woken, and in need of the mutex. -/
  | woken
  /-- Out of `wait`, with the mutex. -/
  | leaving
  | running (task : ℕ)
  | exited
deriving DecidableEq, Repr

namespace WorkerPhase

/-- Past the test of the loop, and without a task. -/
def ready : WorkerPhase → Bool
  | testing | running _ | exited => false
  | _ => true

def isRunning : WorkerPhase → Bool
  | running _ => true
  | _ => false

end WorkerPhase

/-- Where the thread that calls `stop` is. -/
inductive StopPhase where
  /-- Not in `stop`. -/
  | outside
  | called
  /-- `stop_` was not set. -/
  | checked
  /-- `stop_` is set, and `notify_all` is next. -/
  | stopping
  | joining
deriving DecidableEq, Repr

/-- **A thread pool** with workers `ι`, and the threads `κ` that add tasks.
A task is known by the number of tasks that were added before it. -/
structure ThreadPool (ι κ : Type) where
  taskqueue_ : List ℕ := []
  mutex_ : Option ι := none
  stop_ : Bool := false
  workers : ι → WorkerPhase := fun _ => .testing
  /-- The tasks that were pushed. -/
  pushed : ℕ := 0
  /-- What a thread in `addtask` has pushed. -/
  callers : κ → Option ℕ := fun _ => none
  /-- The tasks whose `addtask` has returned. -/
  returned : List ℕ := []
  /-- The tasks that were called, in order. -/
  begun : List ℕ := []
  /-- The tasks that have returned. -/
  ran : List ℕ := []
  stopping : StopPhase := .outside
  /-- What had been returned when `stop` was called. -/
  promised : List ℕ := []

/-- **The atomic steps.** -/
inductive PoolStep (ι κ : Type) where
  /-- `addtask` up to `notify_one`. -/
  | addtask (c : κ)
  /-- `notify_one`, which wakes some worker that is asleep, if there is one. -/
  | notify_one (c : κ) (wakes : Option ι)
  | test (i : ι)
  | lock (i : ι)
  | predicate (i : ι)
  | sleep (i : ι)
  /-- A worker wakes for no reason. -/
  | spurious (i : ι)
  /-- The test for the end, and otherwise the pop. -/
  | take (i : ι)
  /-- The task returns. -/
  | finish (i : ι)
  /-- `stop` is called. -/
  | stop
  | check
  | set
  | notify_all
  | join

namespace ThreadPool

variable {ι κ : Type}

section Steps

variable [Fintype ι] [DecidableEq ι] [DecidableEq κ]

def move (s : ThreadPool ι κ) (i : ι) (phase : WorkerPhase) : ThreadPool ι κ :=
  { s with workers := Function.update s.workers i phase }

/-- `addtask` returns. -/
def returns (s : ThreadPool ι κ) (c : κ) (task : ℕ) : ThreadPool ι κ :=
  { s with callers := Function.update s.callers c none, returned := s.returned ++ [task] }

/-- **One step.** -/
def step (s : ThreadPool ι κ) : PoolStep ι κ → Option (ThreadPool ι κ)
  | .addtask c =>
    if s.callers c = none ∧ s.mutex_ = none then
      some { s with
        taskqueue_ := s.taskqueue_ ++ [s.pushed]
        pushed := s.pushed + 1
        callers := Function.update s.callers c (some s.pushed) }
    else none
  | .notify_one c wakes =>
    match s.callers c with
    | none => none
    | some task =>
      match wakes with
      | none => if ∀ i, s.workers i ≠ .asleep then some (s.returns c task) else none
      | some i =>
        if s.workers i = .asleep then some ((s.move i .woken).returns c task) else none
  | .test i =>
    if s.workers i = .testing then some (s.move i (if s.stop_ then .exited else .locking)) else none
  | .lock i =>
    if (s.workers i = .locking ∨ s.workers i = .woken) ∧ s.mutex_ = none then
      some { s.move i .waiting with mutex_ := some i }
    else none
  | .predicate i =>
    if s.workers i = .waiting then
      some (s.move i (if s.stop_ = true ∨ s.taskqueue_ ≠ [] then .leaving else .drowsy))
    else none
  | .sleep i =>
    if s.workers i = .drowsy then some { s.move i .asleep with mutex_ := none } else none
  | .spurious i => if s.workers i = .asleep then some (s.move i .woken) else none
  | .take i =>
    if s.workers i = .leaving then
      if s.stop_ = true ∧ s.taskqueue_ = [] then some { s.move i .exited with mutex_ := none }
      else
        match s.taskqueue_ with
        | [] => none
        | task :: taskqueue_ =>
          some { s.move i (.running task) with
            mutex_ := none, taskqueue_ := taskqueue_, begun := s.begun ++ [task] }
    else none
  | .finish i =>
    match s.workers i with
    | .running task => some { s.move i .testing with ran := s.ran ++ [task] }
    | _ => none
  | .stop =>
    if s.stopping = .outside then some { s with stopping := .called, promised := s.returned }
    else none
  | .check =>
    if s.stopping = .called then
      some { s with stopping := if s.stop_ then .outside else .checked }
    else none
  | .set =>
    if s.stopping = .checked then some { s with stop_ := true, stopping := .stopping } else none
  | .notify_all =>
    if s.stopping = .stopping then
      some { s with
        workers := fun i => if s.workers i = .asleep then .woken else s.workers i
        stopping := .joining }
    else none
  | .join =>
    if s.stopping = .joining ∧ ∀ i, s.workers i = .exited then
      some { s with stopping := .outside }
    else none

/-- The workers that will pop one task more. -/
def readyWorkers (s : ThreadPool ι κ) : ℕ := Census.count WorkerPhase.ready s.workers

/-- How many tasks will have been popped, if there are as many: those that
have been, and one for each worker past the test. -/
def capacity (s : ThreadPool ι κ) : ℕ := s.begun.length + s.readyWorkers

/-- **There is a worker for every task that was promised**: it has been
popped, or fewer tasks are ahead of it in the queue than there are workers to
pop one. -/
def Staffed (s : ThreadPool ι κ) : Prop := ∀ task ∈ s.promised, task < s.capacity

instance (s : ThreadPool ι κ) : Decidable s.Staffed :=
  inferInstanceAs (Decidable (∀ task ∈ s.promised, task < s.capacity))

/-- The condition on the steps of a run: the pool is staffed when `stop_` is
set, and when `stop` finds that it was set before. -/
def stopsStaffed (s : ThreadPool ι κ) : PoolStep ι κ → Prop
  | .set => s.Staffed
  | .check => s.stop_ = true → s.Staffed
  | _ => True

instance (s : ThreadPool ι κ) (l : PoolStep ι κ) : Decidable (s.stopsStaffed l) :=
  match l with
  | .set => inferInstanceAs (Decidable s.Staffed)
  | .check => inferInstanceAs (Decidable (s.stop_ = true → s.Staffed))
  | .addtask _ | .notify_one _ _ | .test _ | .lock _ | .predicate _ | .sleep _ | .spurious _
  | .take _ | .finish _ | .stop | .notify_all | .join => .isTrue trivial

/-- **What `stop` promises** once it has returned: every task whose `addtask`
had returned when it was called has been run, once. -/
def KeepsPromise (s : ThreadPool ι κ) : Prop :=
  s.stopping = .outside → ∀ task ∈ s.promised, task ∈ s.ran ∧ s.begun.count task = 1

/-! ## What a step can do -/

/-- **The steps, branch by branch.** -/
inductive StepCases (s : ThreadPool ι κ) : PoolStep ι κ → ThreadPool ι κ → Prop
  | addtask (c : κ) : StepCases s (.addtask c) { s with
      taskqueue_ := s.taskqueue_ ++ [s.pushed]
      pushed := s.pushed + 1
      callers := Function.update s.callers c (some s.pushed) }
  | notify_none {c : κ} {task : ℕ} (hc : s.callers c = some task) :
    StepCases s (.notify_one c none) (s.returns c task)
  | notify_one {c : κ} {task : ℕ} {i : ι} (hc : s.callers c = some task)
    (hi : s.workers i = .asleep) :
    StepCases s (.notify_one c (some i)) ((s.move i .woken).returns c task)
  | test {i : ι} (hi : s.workers i = .testing) :
    StepCases s (.test i) (s.move i (if s.stop_ then .exited else .locking))
  | lock {i : ι} (hi : s.workers i = .locking ∨ s.workers i = .woken) (hfree : s.mutex_ = none) :
    StepCases s (.lock i) { s.move i .waiting with mutex_ := some i }
  | predicate {i : ι} (hi : s.workers i = .waiting) :
    StepCases s (.predicate i)
      (s.move i (if s.stop_ = true ∨ s.taskqueue_ ≠ [] then .leaving else .drowsy))
  | sleep {i : ι} (hi : s.workers i = .drowsy) :
    StepCases s (.sleep i) { s.move i .asleep with mutex_ := none }
  | spurious {i : ι} (hi : s.workers i = .asleep) : StepCases s (.spurious i) (s.move i .woken)
  | exit {i : ι} (hi : s.workers i = .leaving) (hstop : s.stop_ = true)
    (hqueue : s.taskqueue_ = []) :
    StepCases s (.take i) { s.move i .exited with mutex_ := none }
  | pop {i : ι} {task : ℕ} {taskqueue_ : List ℕ} (hi : s.workers i = .leaving)
    (hqueue : s.taskqueue_ = task :: taskqueue_) :
    StepCases s (.take i) { s.move i (.running task) with
      mutex_ := none, taskqueue_ := taskqueue_, begun := s.begun ++ [task] }
  | finish {i : ι} {task : ℕ} (hi : s.workers i = .running task) :
    StepCases s (.finish i) { s.move i .testing with ran := s.ran ++ [task] }
  | stop (hphase : s.stopping = .outside) :
    StepCases s .stop { s with stopping := .called, promised := s.returned }
  | stopped (hphase : s.stopping = .called) (hstop : s.stop_ = true) :
    StepCases s .check { s with stopping := .outside }
  | unstopped (hphase : s.stopping = .called) (hstop : s.stop_ = false) :
    StepCases s .check { s with stopping := .checked }
  | set (hphase : s.stopping = .checked) :
    StepCases s .set { s with stop_ := true, stopping := .stopping }
  | notify_all (hphase : s.stopping = .stopping) :
    StepCases s .notify_all { s with
      workers := fun i => if s.workers i = .asleep then .woken else s.workers i
      stopping := .joining }
  | join (hphase : s.stopping = .joining) (hexited : ∀ i, s.workers i = .exited) :
    StepCases s .join { s with stopping := .outside }

theorem step_cases {s s' : ThreadPool ι κ} {l : PoolStep ι κ} (hs : s.step l = some s') :
    StepCases s l s' := by
  cases l with
  | notify_one c wakes =>
    rw [step] at hs
    split at hs
    case h_1 => cases hs
    case h_2 task hc =>
      split at hs <;> split at hs
      · obtain rfl := Option.some.inj hs
        exact .notify_none hc
      · cases hs
      · obtain rfl := Option.some.inj hs
        exact .notify_one hc ‹_›
      · cases hs
  | take i =>
    rw [step] at hs
    split at hs
    case isFalse => cases hs
    case isTrue hi =>
      split at hs
      case isTrue hexit =>
        obtain rfl := Option.some.inj hs
        exact .exit hi hexit.1 hexit.2
      case isFalse =>
        split at hs
        case h_1 => cases hs
        case h_2 task taskqueue_ hqueue =>
          obtain rfl := Option.some.inj hs
          exact .pop hi hqueue
  | finish i =>
    rw [step] at hs
    split at hs
    case h_2 => cases hs
    case h_1 task hi =>
      obtain rfl := Option.some.inj hs
      exact .finish hi
  | check =>
    rw [step] at hs
    split at hs
    case isFalse => cases hs
    case isTrue hphase =>
      obtain rfl := Option.some.inj hs
      split
      case isTrue hstop => exact .stopped hphase hstop
      case isFalse hstop => exact .unstopped hphase (eq_false_of_ne_true hstop)
  | addtask c | test i | lock i | predicate i | sleep i | spurious i | stop | set | notify_all
  | join =>
    -- one branch that can be taken
    rw [step] at hs
    split at hs
    case isFalse => cases hs
    case isTrue h =>
      obtain rfl := Option.some.inj hs
      first
        | exact .addtask c
        | exact .test h
        | exact .lock h.1 h.2
        | exact .predicate h
        | exact .sleep h
        | exact .spurious h
        | exact .stop h
        | exact .set h
        | exact .notify_all h
        | exact .join h.1 h.2

end Steps

/-! ## What a run keeps -/

/-- **The account of the tasks**, and of the workers that have exited. -/
structure Inv (s : ThreadPool ι κ) : Prop where
  /-- Every task that was pushed is popped or queued, in order. -/
  order : s.begun ++ s.taskqueue_ = List.range s.pushed
  begun : ∀ task ∈ s.begun, task ∈ s.ran ∨ ∃ i, s.workers i = .running task
  running : ∀ i task, s.workers i = .running task → task ∈ s.begun
  ran : ∀ task ∈ s.ran, task ∈ s.begun
  callers : ∀ c task, s.callers c = some task → task < s.pushed
  returned : ∀ task ∈ s.returned, task < s.pushed
  promised : ∀ task ∈ s.promised, task < s.pushed
  unset : s.stopping = .checked → s.stop_ = false
  set : s.stopping = .stopping ∨ s.stopping = .joining → s.stop_ = true
  exited : s.stop_ = true → s.stopping = .outside ∨ s.stopping = .called →
    ∀ i, s.workers i = .exited

variable {s s' : ThreadPool ι κ}

/-- A worker that has no task moves, and still has none. -/
theorem Inv.move [DecidableEq ι] (h : s.Inv) {i : ι} {phase : WorkerPhase}
    (hexited : s.workers i ≠ .exited) (hfrom : (s.workers i).isRunning = false)
    (hto : phase.isRunning = false) : (s.move i phase).Inv := by
  have hsame : ∀ j task, Function.update s.workers i phase j = .running task
      ↔ s.workers j = .running task := by
    intro j task
    by_cases hji : j = i
    · subst hji
      rw [Function.update_self]
      constructor
      · rintro rfl
        cases hto
      · intro hj
        rw [hj] at hfrom
        cases hfrom
    · rw [Function.update_of_ne hji]
  exact { h with
    begun := fun task htask =>
      (h.begun task htask).imp_right (fun ⟨j, hj⟩ => ⟨j, (hsame j task).mpr hj⟩)
    running := fun j task hj => h.running j task ((hsame j task).mp hj)
    exited := fun hstop hphase => absurd (h.exited hstop hphase i) hexited }

/-- `addtask` returns. -/
theorem Inv.returns [DecidableEq κ] (h : s.Inv) {c : κ} {task : ℕ} (hc : s.callers c = some task) :
    (s.returns c task).Inv := by
  refine { h with
    callers := fun d t hd => ?_
    returned := fun t ht => ?_ }
  · have hd : Function.update s.callers c none d = some t := hd
    by_cases hdc : d = c
    · rw [hdc, Function.update_self] at hd
      cases hd
    · rw [Function.update_of_ne hdc] at hd
      exact h.callers d t hd
  · rcases List.mem_append.mp ht with ht | ht
    · exact h.returned t ht
    · rw [List.mem_singleton.mp ht]
      exact h.callers c task hc

theorem Inv.addtask [DecidableEq κ] (h : s.Inv) (c : κ) :
    Inv { s with
      taskqueue_ := s.taskqueue_ ++ [s.pushed]
      pushed := s.pushed + 1
      callers := Function.update s.callers c (some s.pushed) } where
  order := by
    show s.begun ++ (s.taskqueue_ ++ [s.pushed]) = List.range (s.pushed + 1)
    rw [← List.append_assoc, h.order, List.range_succ]
  begun := h.begun
  running := h.running
  ran := h.ran
  callers := by
    intro d task hd
    show task < s.pushed + 1
    have hd : Function.update s.callers c (some s.pushed) d = some task := hd
    by_cases hdc : d = c
    · rw [hdc, Function.update_self] at hd
      exact Nat.lt_succ_of_le (Nat.le_of_eq (Option.some.inj hd).symm)
    · rw [Function.update_of_ne hdc] at hd
      exact Nat.lt_succ_of_lt (h.callers d task hd)
  returned task htask := Nat.lt_succ_of_lt (h.returned task htask)
  promised task htask := Nat.lt_succ_of_lt (h.promised task htask)
  unset := h.unset
  set := h.set
  exited := h.exited

/-- A worker pops a task. -/
theorem Inv.take [DecidableEq ι] (h : s.Inv) {i : ι} (hi : s.workers i = .leaving) {task : ℕ}
    {taskqueue_ : List ℕ} (hqueue : s.taskqueue_ = task :: taskqueue_) :
    Inv { s.move i (.running task) with
      mutex_ := none, taskqueue_ := taskqueue_, begun := s.begun ++ [task] } := by
  have hself : Function.update s.workers i (.running task) i = .running task :=
    Function.update_self ..
  refine { h with
    order := ?_
    begun := fun t ht => ?_
    running := fun j t hj => ?_
    ran := fun t ht => List.mem_append_left _ (h.ran t ht)
    exited := fun hstop hphase => ?_ }
  · show (s.begun ++ [task]) ++ taskqueue_ = List.range s.pushed
    rw [← h.order, hqueue, List.append_assoc]
    rfl
  · show t ∈ s.ran ∨ ∃ j, Function.update s.workers i (.running task) j = .running t
    rcases List.mem_append.mp ht with ht | ht
    · refine (h.begun t ht).imp_right ?_
      rintro ⟨j, hj⟩
      refine ⟨j, ?_⟩
      rwa [Function.update_of_ne (by rintro rfl; rw [hi] at hj; cases hj)]
    · rw [List.mem_singleton.mp ht]
      exact .inr ⟨i, hself⟩
  · show t ∈ s.begun ++ [task]
    have hj : Function.update s.workers i (.running task) j = .running t := hj
    by_cases hji : j = i
    · rw [hji, hself] at hj
      exact List.mem_append_right _ (List.mem_singleton.mpr (WorkerPhase.running.inj hj).symm)
    · rw [Function.update_of_ne hji] at hj
      exact List.mem_append_left _ (h.running j t hj)
  · have hexited := h.exited hstop hphase i
    rw [hi] at hexited
    cases hexited

/-- A task returns. -/
theorem Inv.finish [DecidableEq ι] (h : s.Inv) {i : ι} {task : ℕ}
    (hi : s.workers i = .running task) :
    Inv { s.move i .testing with ran := s.ran ++ [task] } := by
  refine { h with
    begun := fun t ht => ?_
    running := fun j t hj => ?_
    ran := fun t ht => ?_
    exited := fun hstop hphase => ?_ }
  · show t ∈ s.ran ++ [task] ∨ ∃ j, Function.update s.workers i .testing j = .running t
    rcases h.begun t ht with hran | ⟨j, hj⟩
    · exact .inl (List.mem_append_left _ hran)
    · by_cases hji : j = i
      · subst hji
        obtain rfl : task = t := WorkerPhase.running.inj (hi.symm.trans hj)
        exact .inl (List.mem_append_right _ List.mem_cons_self)
      · refine .inr ⟨j, ?_⟩
        rw [Function.update_of_ne hji, hj]
  · have hj : Function.update s.workers i .testing j = .running t := hj
    by_cases hji : j = i
    · rw [hji, Function.update_self] at hj
      cases hj
    · rw [Function.update_of_ne hji] at hj
      exact h.running j t hj
  · rcases List.mem_append.mp ht with ht | ht
    · exact h.ran t ht
    · rw [List.mem_singleton.mp ht]
      exact h.running i task hi
  · have hexited := h.exited hstop hphase i
    rw [hi] at hexited
    cases hexited

theorem Inv.notify_all (h : s.Inv) (hphase : s.stopping = .stopping) :
    Inv { s with
      workers := fun i => if s.workers i = .asleep then .woken else s.workers i
      stopping := .joining } := by
  have hsame : ∀ i task, (if s.workers i = .asleep then .woken else s.workers i) = .running task
      ↔ s.workers i = .running task := by
    intro i task
    split
    case isTrue hi => rw [hi]; exact ⟨nofun, nofun⟩
    case isFalse => rfl
  exact { h with
    begun := fun t ht => (h.begun t ht).imp_right (fun ⟨i, hi⟩ => ⟨i, (hsame i t).mpr hi⟩)
    running := fun i t hi => h.running i t ((hsame i t).mp hi)
    unset := nofun
    set := fun _ => h.set (.inl hphase)
    exited := by rintro - (hphase | hphase) <;> cases hphase }

theorem Inv.init : Inv ({} : ThreadPool ι κ) where
  order := rfl
  begun _ ht := (List.not_mem_nil ht).elim
  running _ _ hi := by cases hi
  ran _ ht := (List.not_mem_nil ht).elim
  callers _ _ hc := by cases hc
  returned _ ht := (List.not_mem_nil ht).elim
  promised _ ht := (List.not_mem_nil ht).elim
  unset := nofun
  set := by rintro (hphase | hphase) <;> cases hphase
  exited := nofun

/-- **No task is called twice.** -/
theorem Inv.nodup_begun (h : s.Inv) : s.begun.Nodup := by
  have hnodup : (s.begun ++ s.taskqueue_).Nodup := h.order ▸ List.nodup_range
  exact (List.nodup_append.mp hnodup).1

/-- The tasks that were called are the first that were pushed. -/
theorem Inv.mem_begun_iff (h : s.Inv) {task : ℕ} :
    task ∈ s.begun ↔ task < s.begun.length := by
  have hget : ∀ n (hn : n < s.begun.length), s.begun[n] = n := by
    intro n hn
    have hget? : (s.begun ++ s.taskqueue_)[n]? = some s.begun[n] := by
      rw [List.getElem?_append_left hn, List.getElem?_eq_getElem hn]
    rw [h.order] at hget?
    obtain ⟨hlt, heq⟩ := List.getElem?_eq_some_iff.mp hget?
    rw [← heq, List.getElem_range]
  constructor
  · intro hmem
    obtain ⟨n, hn, heq⟩ := List.getElem_of_mem hmem
    rw [hget n hn] at heq
    exact heq ▸ hn
  · intro hlt
    exact hget task hlt ▸ List.getElem_mem hlt

/-- With nothing queued, every task has been called. -/
theorem Inv.length_begun (h : s.Inv) (hqueue : s.taskqueue_ = []) : s.begun.length = s.pushed := by
  have hlength := congrArg List.length h.order
  rwa [hqueue, List.append_nil, List.length_range] at hlength

section Steps

variable [Fintype ι] [DecidableEq ι] [DecidableEq κ]

/-- **Any step keeps the account.** -/
theorem Inv.step (h : s.Inv) {l : PoolStep ι κ} (hs : s.step l = some s') : s'.Inv := by
  cases step_cases hs with
  | addtask c => exact h.addtask c
  | notify_none hc => exact h.returns hc
  | notify_one hc hi => exact (h.move (by rw [hi]; nofun) (by rw [hi]; rfl) rfl).returns hc
  | test hi => exact h.move (by rw [hi]; nofun) (by rw [hi]; rfl) (by split <;> rfl)
  | @lock i hi =>
    have hmove : (s.move i .waiting).Inv := by
      rcases hi with hi | hi <;> exact h.move (by rw [hi]; nofun) (by rw [hi]; rfl) rfl
    exact { hmove with }
  | predicate hi => exact h.move (by rw [hi]; nofun) (by rw [hi]; rfl) (by split <;> rfl)
  | sleep hi => exact { h.move (by rw [hi]; nofun) (by rw [hi]; rfl) rfl with }
  | spurious hi => exact h.move (by rw [hi]; nofun) (by rw [hi]; rfl) rfl
  | exit hi => exact { h.move (by rw [hi]; nofun) (by rw [hi]; rfl) rfl with }
  | pop hi hqueue => exact h.take hi hqueue
  | finish hi => exact h.finish hi
  | stop hphase =>
    exact { h with
      promised := h.returned
      unset := nofun
      set := by rintro (hphase | hphase) <;> cases hphase
      exited := fun hstop _ => h.exited hstop (.inl hphase) }
  | stopped hphase hstop =>
    exact { h with
      unset := nofun
      set := by rintro (hphase | hphase) <;> cases hphase
      exited := fun _ _ => h.exited hstop (.inr hphase) }
  | unstopped hphase hstop =>
    exact { h with
      unset := fun _ => hstop
      set := by rintro (hphase | hphase) <;> cases hphase
      exited := by rintro - (hphase | hphase) <;> cases hphase }
  | set hphase =>
    exact { h with
      unset := nofun
      set := fun _ => rfl
      exited := by rintro - (hphase | hphase) <;> cases hphase }
  | notify_all hphase => exact h.notify_all hphase
  | join hphase hexited =>
    exact { h with
      unset := nofun
      set := by rintro (hphase | hphase) <;> cases hphase
      exited := fun _ _ => hexited }

theorem Inv.of_runs {ok : ThreadPool ι κ → PoolStep ι κ → Prop} (hruns : Runs ThreadPool.step ok {} s) :
    s.Inv :=
  hruns.invariant (fun _ _ _ h _ hs => Inv.step h hs) Inv.init

/-! ## The workers that are past the test -/

omit [DecidableEq κ] in
/-- A worker moves between phases that count alike. -/
theorem capacity_move {i : ι} {phase : WorkerPhase} (hbegun : s'.begun = s.begun)
    (hworkers : s'.workers = Function.update s.workers i phase)
    (h : phase.ready = (s.workers i).ready) : s'.capacity = s.capacity := by
  rw [capacity, capacity, readyWorkers, readyWorkers, hbegun, hworkers, Census.count_update_eq h]

/-- **What a step does to the number of tasks that will be popped.** It goes
up only while `stop_` is not set, and down only when nothing is queued. -/
theorem capacity_step {l : PoolStep ι κ} (hs : s.step l = some s') :
    s'.capacity = s.capacity
      ∨ (s.stop_ = false ∧ s.capacity ≤ s'.capacity)
      ∨ (s'.taskqueue_ = [] ∧ s'.capacity ≤ s.capacity) := by
  cases step_cases hs with
  | addtask c => exact .inl rfl
  | notify_none hc => exact .inl rfl
  | notify_one hc hi => exact .inl (capacity_move rfl rfl (by rw [hi]; rfl))
  | @test i hi =>
    cases hstop : s.stop_ with
    | true => exact .inl (capacity_move rfl rfl (by rw [hi]; rfl))
    | false =>
      refine .inr (.inl ⟨rfl, ?_⟩)
      have hcount : Census.count WorkerPhase.ready (Function.update s.workers i .locking)
          = s.readyWorkers + 1 :=
        Census.count_update_enter (by rw [hi]; rfl) rfl
      show s.begun.length + s.readyWorkers
        ≤ s.begun.length + Census.count WorkerPhase.ready (Function.update s.workers i .locking)
      rw [hcount]
      exact Nat.add_le_add_left (Nat.le_succ _) _
  | lock hi =>
    rcases hi with hi | hi <;> exact .inl (capacity_move rfl rfl (by rw [hi]; rfl))
  | predicate hi => exact .inl (capacity_move rfl rfl (by rw [hi]; split <;> rfl))
  | sleep hi => exact .inl (capacity_move rfl rfl (by rw [hi]; rfl))
  | spurious hi => exact .inl (capacity_move rfl rfl (by rw [hi]; rfl))
  | @exit i hi hstop hqueue =>
    refine .inr (.inr ⟨hqueue, ?_⟩)
    have hcount : Census.count WorkerPhase.ready (Function.update s.workers i .exited) + 1
        = s.readyWorkers :=
      Census.count_update_leave (by rw [hi]; rfl) rfl
    show s.begun.length + Census.count WorkerPhase.ready (Function.update s.workers i .exited)
      ≤ s.begun.length + s.readyWorkers
    rw [← hcount]
    exact Nat.add_le_add_left (Nat.le_succ _) _
  | @pop i task taskqueue_ hi hqueue =>
    -- one task more has been called, and one worker fewer is ready
    have hcount : Census.count WorkerPhase.ready (Function.update s.workers i (.running task)) + 1
        = s.readyWorkers :=
      Census.count_update_leave (by rw [hi]; rfl) rfl
    refine .inl ?_
    show (s.begun ++ [task]).length
        + Census.count WorkerPhase.ready (Function.update s.workers i (.running task))
      = s.begun.length + s.readyWorkers
    rw [← hcount, List.length_append, List.length_singleton, Nat.add_assoc, Nat.add_comm 1]
  | finish hi => exact .inl (capacity_move rfl rfl (by rw [hi]; rfl))
  | stop hphase => exact .inl rfl
  | stopped hphase hstop => exact .inl rfl
  | unstopped hphase hstop => exact .inl rfl
  | set hphase => exact .inl rfl
  | notify_all hphase =>
    refine .inl (congrArg (s.begun.length + ·) (Census.count_congr fun i => ?_))
    show (if s.workers i = .asleep then WorkerPhase.woken else s.workers i).ready = _
    split
    case isTrue hi => rw [hi]; rfl
    case isFalse => rfl
  | join hphase hexited => exact .inl rfl

/-- What was promised stays, until `stop` is called again. -/
theorem promised_step {l : PoolStep ι κ} (hs : s.step l = some s') (hl : l ≠ .stop) :
    s'.promised = s.promised := by
  cases step_cases hs with
  | stop hphase => exact absurd rfl hl
  | _ => rfl

/-- What has returned has returned. -/
theorem ran_step {l : PoolStep ι κ} (hs : s.step l = some s') {task : ℕ} (h : task ∈ s.ran) :
    task ∈ s'.ran := by
  cases step_cases hs with
  | finish hi => exact List.mem_append_left _ h
  | _ => exact h

/-- `stop_` stays set. -/
theorem stop_step {l : PoolStep ι κ} (hs : s.step l = some s') (h : s.stop_ = true) :
    s'.stop_ = true := by
  cases step_cases hs with
  | set hphase => rfl
  | _ => exact h

/-- **A staffed pool stays staffed.** -/
theorem Inv.staffed_step (h : s.Inv) {l : PoolStep ι κ} (hs : s.step l = some s')
    (hl : l ≠ .stop) (hstaffed : s.Staffed) : s'.Staffed := by
  intro task htask
  have hlt : task < s.capacity := hstaffed task (promised_step hs hl ▸ htask)
  rcases capacity_step hs with heq | ⟨-, hle⟩ | ⟨hqueue, -⟩
  · exact heq ▸ hlt
  · exact Nat.lt_of_lt_of_le hlt hle
  · -- everything that was pushed has been called
    have h' := h.step hs
    have hpushed := h'.promised task htask
    rw [← h'.length_begun hqueue] at hpushed
    exact Nat.lt_add_right _ hpushed

omit [DecidableEq ι] [DecidableEq κ] in
/-- **When every worker has exited**, the tasks that have been run are those
there was room for. -/
theorem Inv.mem_ran_iff (h : s.Inv) (hexited : ∀ i, s.workers i = .exited) {task : ℕ} :
    task ∈ s.ran ↔ task < s.capacity := by
  have hcapacity : s.capacity = s.begun.length := by
    have hcount : s.readyWorkers = 0 :=
      Census.count_eq_zero fun i => by rw [hexited i]; rfl
    rw [capacity, hcount, Nat.add_zero]
  rw [hcapacity, ← h.mem_begun_iff]
  refine ⟨h.ran task, fun hbegun => (h.begun task hbegun).resolve_right ?_⟩
  rintro ⟨i, hi⟩
  rw [hexited i] at hi
  cases hi

/-! ## What `stop` keeps of its promise -/

/-- **Under the condition**: once `stop_` is set the pool is staffed, and
once `stop` has returned the tasks have been run. -/
structure Kept (s : ThreadPool ι κ) : Prop where
  staffed : s.stopping = .stopping ∨ s.stopping = .joining → s.Staffed
  ran : s.stopping = .outside → ∀ task ∈ s.promised, task ∈ s.ran

/-- A step that is not one of `stop`'s. -/
theorem Kept.step_of_eq (h : s.Kept) (hinv : s.Inv) {l : PoolStep ι κ} (hs : s.step l = some s')
    (hl : l ≠ .stop) (heq : s'.stopping = s.stopping) : s'.Kept where
  staffed hphase := hinv.staffed_step hs hl (h.staffed (heq ▸ hphase))
  ran hphase task htask :=
    ran_step hs (h.ran (heq ▸ hphase) task (promised_step hs hl ▸ htask))

theorem Kept.step (h : s.Kept) (hinv : s.Inv) {l : PoolStep ι κ} (hok : s.stopsStaffed l)
    (hs : s.step l = some s') : s'.Kept := by
  cases step_cases hs with
  | stop hphase => exact ⟨(by rintro (hphase | hphase) <;> cases hphase), nofun⟩
  | stopped hphase hstop =>
    -- `stop` returns at once: the workers have exited, and nothing is left
    refine ⟨(by rintro (hphase | hphase) <;> cases hphase), fun _ task htask => ?_⟩
    exact (hinv.mem_ran_iff (hinv.exited hstop (.inr hphase))).mpr (hok hstop task htask)
  | unstopped hphase hstop => exact ⟨(by rintro (hphase | hphase) <;> cases hphase), nofun⟩
  | set hphase => exact ⟨fun _ => hinv.staffed_step hs nofun hok, nofun⟩
  | notify_all hphase => exact ⟨fun _ => hinv.staffed_step hs nofun (h.staffed (.inl hphase)), nofun⟩
  | join hphase hexited =>
    refine ⟨(by rintro (hphase | hphase) <;> cases hphase), fun _ task htask => ?_⟩
    exact (hinv.mem_ran_iff hexited).mpr (h.staffed (.inr hphase) task htask)
  | _ => exact h.step_of_eq hinv hs nofun rfl

/-- **Tasks are run at most once, and those that were promised are run**,
in every run in which the pool is staffed when it is stopped. -/
theorem tasksRun (hruns : Runs step anyStep {} s) :
    s.begun.Nodup ∧ (Runs step stopsStaffed {} s → s.KeepsPromise) := by
  refine ⟨(Inv.of_runs hruns).nodup_begun, fun hstaffed hphase task htask => ?_⟩
  have hkept : s.Inv ∧ s.Kept := by
    refine hstaffed.invariant (I := fun s => s.Inv ∧ s.Kept) (fun _ _ _ h hok hs => ?_)
      ⟨Inv.init, (by rintro (hphase | hphase) <;> cases hphase),
        fun _ _ ht => (List.not_mem_nil ht).elim⟩
    exact ⟨h.1.step hs, h.2.step h.1 hok hs⟩
  have hran := hkept.2.ran hphase task htask
  exact ⟨hran, List.count_eq_one_of_mem hkept.1.nodup_begun (hkept.1.ran task hran)⟩

/-- Two workers past the test, and two tasks. -/
theorem tasksRun_twoWorkers :
    ∃ s : ThreadPool Bool Unit, s.stopping = .outside ∧ s.promised = [0, 1] ∧ s.ran = [1, 0] ∧
      s.begun.Nodup ∧ s.KeepsPromise := by
  obtain ⟨s, hruns, h⟩ : ∃ s : ThreadPool Bool Unit,
      Runs (restrict step stopsStaffed) anyStep {} s ∧
        decide (s.stopping = .outside ∧ s.promised = [0, 1] ∧ s.ran = [1, 0]) = true :=
    exists_of_execute
      [.test true, .test false, .addtask (), .notify_one () none, .addtask (),
        .notify_one () none, .stop, .check, .lock true, .predicate true, .set, .take true,
        .lock false, .predicate false, .take false, .notify_all, .finish false, .finish true,
        .test false, .test true, .join] (by decide)
  have hstaffed : Runs step stopsStaffed {} s := runs_of_restrict hruns
  obtain ⟨hphase, hpromised, hran⟩ := of_decide_eq_true h
  obtain ⟨hnodup, hkeeps⟩ := tasksRun hstaffed.forget
  exact ⟨s, hphase, hpromised, hran, hnodup, hkeeps hstaffed⟩

/-- **A task is left in the queue** when the only worker is still on its way
to the test of its loop. -/
theorem not_keepsPromise :
    ¬ ∀ (ι κ : Type) [Fintype ι] [Nonempty ι] [DecidableEq ι] [DecidableEq κ]
      (s : ThreadPool ι κ), Runs step anyStep {} s → s.begun.Nodup ∧ s.KeepsPromise := by
  intro hall
  obtain ⟨s, hruns, h⟩ : ∃ s : ThreadPool Unit Unit, Runs step anyStep {} s ∧
      decide (s.stopping = .outside ∧ s.promised = [0] ∧ s.ran = []) = true :=
    exists_of_execute
      [.addtask (), .notify_one () none, .stop, .check, .set, .notify_all, .test (), .join]
      (by decide)
  obtain ⟨hphase, hpromised, hran⟩ := of_decide_eq_true h
  have hkept := ((hall Unit Unit s hruns).2 hphase 0 (by rw [hpromised]; decide)).1
  rw [hran] at hkept
  exact List.not_mem_nil hkept

/-- **The condition is exact.** Once `stop_` has been set, and `stop` has
returned, the tasks have been run if the pool was staffed, and only then. -/
theorem ran_iff (hruns : Runs step anyStep {} s) (hset : s.step .set = some s')
    {s'' : ThreadPool ι κ} (hrest : Runs step (fun _ l => l ≠ .stop) s' s'')
    (hphase : s''.stopping = .outside) :
    (∀ task ∈ s''.promised, task ∈ s''.ran) ↔ s.Staffed := by
  have hinv : s.Inv := Inv.of_runs hruns
  have hrun : s''.Inv ∧ s''.stop_ = true ∧ s''.promised = s.promised ∧ s''.capacity ≤ s.capacity
      ∧ (s.Staffed → s''.Staffed) := by
    refine hrest.invariant (I := fun s'' => s''.Inv ∧ s''.stop_ = true ∧ s''.promised = s.promised
      ∧ s''.capacity ≤ s.capacity ∧ (s.Staffed → s''.Staffed)) ?_ ?_
    · rintro t l t' ⟨ht, hstop, hpromised, hcapacity, hstaffed⟩ hl hs
      have hle : t'.capacity ≤ t.capacity := by
        rcases capacity_step hs with heq | ⟨hunset, -⟩ | ⟨-, hle⟩
        · exact Nat.le_of_eq heq
        · rw [hstop] at hunset
          cases hunset
        · exact hle
      exact ⟨ht.step hs, stop_step hs hstop, (promised_step hs hl).trans hpromised,
        Nat.le_trans hle hcapacity, fun h => ht.staffed_step hs hl (hstaffed h)⟩
    · have hphase : s'.promised = s.promised := promised_step hset nofun
      cases step_cases hset
      exact ⟨hinv.step hset, rfl, rfl, Nat.le_refl _, fun h => hinv.staffed_step hset nofun h⟩
  obtain ⟨hinv'', hstop, hpromised, hcapacity, hstaffed⟩ := hrun
  have hexited := hinv''.exited hstop (.inl hphase)
  constructor
  · intro hran task htask
    have hlt := (hinv''.mem_ran_iff hexited).mp (hran task (hpromised ▸ htask))
    exact Nat.lt_of_lt_of_le hlt hcapacity
  · intro h task htask
    exact (hinv''.mem_ran_iff hexited).mpr (hstaffed h task htask)

end Steps

end ThreadPool

end PbRpc
