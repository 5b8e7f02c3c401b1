import Mathlib.Data.Nat.Basic
import Mathlib.Order.Basic
import PbRpc.Transition

/-!
# The task queue of an event loop

A thread that has something for the thread of an event loop to do pushes a
task and writes to the loop's eventfd; the loop is woken by the eventfd, reads
it, and runs the tasks that are queued. One read takes back any number of
writes, a task may be pushed between a read and the drain after it, and a
write may come long after its push. No task is left behind by this
(`EventLoop.noLostTask`). What makes it so is the order on both sides: the
write comes after the push, and the drain comes after the read.

The lock on the queue is held for a push and for a whole drain. A push is
therefore one step, and so is a drain: while the tasks run nothing is pushed.
-/

namespace PbRpc

open Transition

/-- Where a thread is in `queueInLoop`. -/
inductive QueuePhase where
  /-- Not in it. -/
  | ready
  /-- The task is pushed, and `wakeup` is next. -/
  | pushed
deriving DecidableEq, Repr

/-- Where the thread of the loop is. -/
inductive LoopPhase where
  /-- Not in `handleWakeup`. -/
  | polling
  /-- The eventfd is read, and the lock is next. -/
  | woken
  /-- `run` has returned. -/
  | stopped
deriving DecidableEq, Repr

/-- **An event loop** and the threads `ι` that queue tasks for it. -/
structure EventLoop (ι Task : Type) where
  taskqueue_ : List Task := []
  /-- The counter of the eventfd. -/
  wakeupFd_ : ℕ := 0
  stop_ : Bool := false
  phase : LoopPhase := .polling
  threads : ι → QueuePhase := fun _ => .ready
  /-- The tasks that were pushed. -/
  pushed : List Task := []
  /-- The tasks that were run. -/
  ran : List Task := []

/-- **The atomic steps.** -/
inductive LoopStep (ι Task : Type) where
  /-- `queueInLoop` up to `wakeup`. -/
  | push (t : ι) (fn : Task)
  /-- `wakeup` at the end of `queueInLoop`. -/
  | wakeup (t : ι)
  /-- `stop`, of any thread. -/
  | stop
  /-- `handleWakeup` up to the lock. -/
  | read
  /-- The rest of `handleWakeup`. -/
  | drain
  /-- The loop of `run` is left. -/
  | leave

namespace EventLoop

variable {ι Task : Type}

/-- The largest value of the counter of an eventfd. -/
def eventfdMax : ℕ := 18446744073709551614

/-- A `write` of 1 to the eventfd, which fails when the counter is at its
largest. -/
def wakeup (s : EventLoop ι Task) : EventLoop ι Task :=
  { s with wakeupFd_ := if s.wakeupFd_ < eventfdMax then s.wakeupFd_ + 1 else s.wakeupFd_ }

/-- The `read` of the eventfd, which fails when the counter is zero and takes
all of it otherwise. -/
def readWakeup (s : EventLoop ι Task) : EventLoop ι Task :=
  if s.wakeupFd_ = 0 then s else { s with wakeupFd_ := 0, phase := .woken }

variable [DecidableEq ι]

/-- **One step.** -/
def step (s : EventLoop ι Task) : LoopStep ι Task → Option (EventLoop ι Task)
  | .push t fn =>
    if s.threads t = .ready then
      some { s with
        taskqueue_ := s.taskqueue_ ++ [fn]
        threads := Function.update s.threads t .pushed
        pushed := s.pushed ++ [fn] }
    else none
  | .wakeup t =>
    if s.threads t = .pushed then
      some { s with threads := Function.update s.threads t .ready }.wakeup
    else none
  | .stop => some { s with stop_ := true }.wakeup
  | .read => if s.phase = .polling then some s.readWakeup else none
  | .drain =>
    if s.phase = .woken then
      some { s with taskqueue_ := [], phase := .polling, ran := s.ran ++ s.taskqueue_ }
    else none
  | .leave => if s.phase = .polling ∧ s.stop_ then some { s with phase := .stopped } else none

/-- **No task is lost, repeated or overtaken**: the tasks that have run are
those that were pushed first, in the order of the pushes, and the others are
queued; and while one is queued the eventfd is readable, or a thread is about
to write to it, or the loop is about to drain the queue. -/
structure NoLostTask (s : EventLoop ι Task) : Prop where
  in_order : s.ran ++ s.taskqueue_ = s.pushed
  wakeup : s.taskqueue_ ≠ [] →
    0 < s.wakeupFd_ ∨ (∃ t, s.threads t = .pushed) ∨ s.phase = .woken

omit [DecidableEq ι] in
/-- After a write the eventfd is readable. -/
theorem wakeupFd_wakeup_pos (s : EventLoop ι Task) : 0 < s.wakeup.wakeupFd_ := by
  show 0 < if s.wakeupFd_ < eventfdMax then s.wakeupFd_ + 1 else s.wakeupFd_
  split
  · exact Nat.succ_pos _
  · rename_i hmax
    exact lt_of_lt_of_le (show 0 < eventfdMax by decide) (not_lt.mp hmax)

/-- **Every step keeps the queue watched.** -/
theorem NoLostTask.step {s s' : EventLoop ι Task} {l : LoopStep ι Task} (h : NoLostTask s)
    (hs : s.step l = some s') : NoLostTask s' := by
  cases l with
  | push t fn =>
    rw [EventLoop.step] at hs
    obtain ⟨-, hs⟩ := Option.ite_none_right_eq_some.mp hs
    obtain rfl := Option.some.inj hs
    refine ⟨?_, fun _ => .inr (.inl ⟨t, Function.update_self ..⟩)⟩
    show s.ran ++ (s.taskqueue_ ++ [fn]) = s.pushed ++ [fn]
    rw [← List.append_assoc, h.in_order]
  | wakeup t =>
    rw [EventLoop.step] at hs
    obtain ⟨-, hs⟩ := Option.ite_none_right_eq_some.mp hs
    obtain rfl := Option.some.inj hs
    exact ⟨h.in_order, fun _ => .inl (wakeupFd_wakeup_pos _)⟩
  | stop =>
    obtain rfl := Option.some.inj hs
    exact ⟨h.in_order, fun _ => .inl (wakeupFd_wakeup_pos _)⟩
  | read =>
    rw [EventLoop.step] at hs
    obtain ⟨-, hs⟩ := Option.ite_none_right_eq_some.mp hs
    obtain rfl := Option.some.inj hs
    rw [readWakeup]
    split
    · exact h
    · exact ⟨h.in_order, fun _ => .inr (.inr rfl)⟩
  | drain =>
    rw [EventLoop.step] at hs
    obtain ⟨-, hs⟩ := Option.ite_none_right_eq_some.mp hs
    obtain rfl := Option.some.inj hs
    exact ⟨(List.append_nil _).trans h.in_order, fun hne => absurd rfl hne⟩
  | leave =>
    rw [EventLoop.step] at hs
    obtain ⟨hpolling, hs⟩ := Option.ite_none_right_eq_some.mp hs
    obtain rfl := Option.some.inj hs
    refine ⟨h.in_order, fun hne => ?_⟩
    refine (h.wakeup hne).imp_right (fun hor => .inl (hor.resolve_right fun hwoken => ?_))
    rw [hpolling.1] at hwoken
    cases hwoken

/-- **No task is left behind**, whatever the threads do. -/
theorem noLostTask {s : EventLoop ι Task} (hruns : Runs step anyStep {} s) : NoLostTask s :=
  hruns.invariant (fun _ _ _ h _ hs => h.step hs) ⟨rfl, fun hne => absurd rfl hne⟩

/-- A task that is pushed between the read and the drain runs with the one
before it, and its own write wakes the loop for nothing. -/
theorem noLostTask_latePush :
    ∃ s : EventLoop Bool ℕ, NoLostTask s ∧ s.ran = [0, 1] ∧ s.taskqueue_ = [2] ∧
      s.wakeupFd_ = 2 := by
  obtain ⟨s, hruns, h⟩ : ∃ s : EventLoop Bool ℕ, Runs step anyStep {} s ∧
      decide (s.ran = [0, 1] ∧ s.taskqueue_ = [2] ∧ s.wakeupFd_ = 2) = true :=
    exists_of_execute
      [.push true 0, .wakeup true, .read, .push false 1, .drain, .wakeup false, .push true 2,
        .wakeup true] (by decide)
  exact ⟨s, noLostTask hruns, of_decide_eq_true h⟩

end EventLoop

end PbRpc
