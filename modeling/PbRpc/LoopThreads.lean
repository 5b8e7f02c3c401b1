import Mathlib.Data.List.Nodup
import PbRpc.Transition

/-!
# The thread of a connection

`regSend` and `sendMessage` work on one output buffer, `onMessage` on the input
buffer, and no lock guards either. They race unless they are in one thread, as
a comment at `regSend` says. What has to see to this is `runInLoop`. A worker
that has responses calls `send`, and `regSend` is queued for the loop of the
connection unless the worker is the loop's own thread, which `isLoopThread`
tells from the id that the loop has stored.

Loops are tasks of the pool, as batches are, so that any worker may be the
thread of any loop. The id is stored when `run` begins, and until then it is
whatever was in the memory, perhaps the id of a worker. Nobody asks for it so
early: a batch of a connection comes from `onMessage`, which its loop has
called. And no two workers run one loop, because each was added once. So
whoever works on the buffers of a connection is the thread that its loop has
stored. Without workers for the batches this thread is in `onMessage` and in
`regSend` at once, the second called from the first, but these work on one
buffer each: no buffer is worked on twice (`oneThread`).
-/

namespace PbRpc

open Transition

/-- The buffers of a `Connection`. -/
inductive ConnectionBuffer where
  | inputbuffer_
  | outputbuffer_
deriving DecidableEq

/-- **A function that a thread is in.** -/
inductive LoopFrame (L C : Type) where
  /-- `EventLoop::run`, between two handlers. -/
  | run (loop : L)
  | handleWakeup (loop : L)
  /-- `onMessage`, with whether `HandleMessage` has been called. -/
  | onMessage (conn : C) (handled : Bool)
  /-- `TcpServer::OnMassage`, with whether `send` has been called. -/
  | OnMassage (conn : C) (sent : Bool)
  | regSend (conn : C)
  | sendMessage (conn : C)
deriving DecidableEq

/-- A task of the pool. -/
inductive PoolTask (L C : Type) where
  | run (loop : L)
  | OnMassage (conn : C)
deriving DecidableEq

/-- **The threads of the pool**, with the loops and the connections that they
work on. The innermost function of a thread comes first, and its callers
behind it. -/
structure LoopThreads (T L C : Type) where
  taskqueue_ : List (PoolTask L C)
  threadId_ : L → T
  stack : T → List (LoopFrame L C) := fun _ => []
  /-- The connections of the `regSend` tasks of each loop. -/
  pending : L → List C := fun _ => []
  stop_ : L → Bool := fun _ => false

/-- Which loop a connection has, and how many threads there are for the
batches. -/
structure LoopSetting (L C : Type) where
  loop_ : C → L
  workThread_ : ℕ

/-- **The steps of the threads.** -/
inductive LoopThreadsStep (T L C : Type) where
  /-- A thread without a task pops one. -/
  | take (t : T)
  /-- A connection is readable, and its read callback is called. -/
  | readable (t : T) (conn : C)
  | writable (t : T) (conn : C)
  /-- `onMessage` has decoded a batch. -/
  | HandleMessage (t : T)
  | send (t : T)
  /-- The eventfd of a loop is readable. -/
  | wakeup (t : T)
  /-- `handleWakeup` pops a task and calls it. -/
  | drain (t : T)
  /-- The innermost function returns. -/
  | leave (t : T)
  | stop (loop : L)
  /-- `run` returns. -/
  | finish (t : T)

namespace LoopFrame

variable {L C : Type}

/-- The loop that a function belongs to. -/
def loop (set : LoopSetting L C) : LoopFrame L C → L
  | run loop | handleWakeup loop => loop
  | onMessage conn _ | OnMassage conn _ | regSend conn | sendMessage conn => set.loop_ conn

/-- **Works on a buffer** of the connection. -/
def works [DecidableEq C] (buffer : ConnectionBuffer) (conn : C) : LoopFrame L C → Bool
  | onMessage c _ => buffer == .inputbuffer_ && c == conn
  | regSend c | sendMessage c => buffer == .outputbuffer_ && c == conn
  | _ => false

theorem loop_of_works [DecidableEq C] {set : LoopSetting L C} {buffer : ConnectionBuffer}
    {conn : C} {frame : LoopFrame L C} (h : frame.works buffer conn = true) :
    frame.loop set = set.loop_ conn ∧ ∀ c sent, frame ≠ .OnMassage c sent := by
  cases frame with
  | run _ | handleWakeup _ | OnMassage _ _ => simp [works] at h
  | onMessage c _ | regSend c | sendMessage c =>
    simp only [works, Bool.and_eq_true, beq_iff_eq] at h
    exact ⟨congrArg set.loop_ h.2, fun _ _ => by simp⟩

end LoopFrame

namespace LoopThreads

variable {T L C : Type} [DecidableEq T] [DecidableEq L] [DecidableEq C] {set : LoopSetting L C}
  {s s' : LoopThreads T L C} {t : T} {loop : L} {conn : C} {frames : List (LoopFrame L C)}

/-- The pool with its loops, before the threads begin. -/
def start (loops : List L) (threadId_ : L → T) : LoopThreads T L C :=
  { taskqueue_ := loops.map .run, threadId_ := threadId_ }

def setStack (s : LoopThreads T L C) (t : T) (frames : List (LoopFrame L C)) :
    LoopThreads T L C :=
  { s with stack := Function.update s.stack t frames }

def isLoopThread (s : LoopThreads T L C) (loop : L) (t : T) : Prop := s.threadId_ loop = t

instance (s : LoopThreads T L C) (loop : L) (t : T) : Decidable (s.isLoopThread loop t) :=
  inferInstanceAs (Decidable (_ = _))

/-- **One step.** -/
def step (set : LoopSetting L C) (s : LoopThreads T L C) :
    LoopThreadsStep T L C → Option (LoopThreads T L C)
  | .take t =>
    match s.stack t, s.taskqueue_ with
    | [], .run loop :: taskqueue_ =>
      some { s.setStack t [.run loop] with
        taskqueue_ := taskqueue_, threadId_ := Function.update s.threadId_ loop t }
    | [], .OnMassage conn :: taskqueue_ =>
      some { s.setStack t [.OnMassage conn false] with taskqueue_ := taskqueue_ }
    | _, _ => none
  | .readable t conn =>
    if s.stack t = [.run (set.loop_ conn)] then
      some (s.setStack t [.onMessage conn false, .run (set.loop_ conn)])
    else none
  | .writable t conn =>
    if s.stack t = [.run (set.loop_ conn)] then
      some (s.setStack t [.sendMessage conn, .run (set.loop_ conn)])
    else none
  | .HandleMessage t =>
    match s.stack t with
    | .onMessage conn false :: frames =>
      if set.workThread_ = 0 then
        some (s.setStack t (.OnMassage conn false :: .onMessage conn true :: frames))
      else
        some { s.setStack t (.onMessage conn true :: frames) with
          taskqueue_ := s.taskqueue_ ++ [.OnMassage conn] }
    | _ => none
  | .send t =>
    match s.stack t with
    | .OnMassage conn false :: frames =>
      if s.isLoopThread (set.loop_ conn) t then
        some (s.setStack t (.regSend conn :: .OnMassage conn true :: frames))
      else
        some { s.setStack t (.OnMassage conn true :: frames) with
          pending := Function.update s.pending (set.loop_ conn)
            (s.pending (set.loop_ conn) ++ [conn]) }
    | _ => none
  | .wakeup t =>
    match s.stack t with
    | [.run loop] => some (s.setStack t [.handleWakeup loop, .run loop])
    | _ => none
  | .drain t =>
    match s.stack t with
    | .handleWakeup loop :: frames =>
      match s.pending loop with
      | [] => none
      | conn :: conns =>
        some { s.setStack t (.regSend conn :: .handleWakeup loop :: frames) with
          pending := Function.update s.pending loop conns }
    | _ => none
  | .leave t =>
    match s.stack t with
    | [] | .run _ :: _ => none
    | _ :: frames => some (s.setStack t frames)
  | .stop loop => some { s with stop_ := Function.update s.stop_ loop true }
  | .finish t =>
    match s.stack t with
    | [.run loop] => if s.stop_ loop then some (s.setStack t []) else none
    | _ => none

/-! ## Where a thread can be -/

/-- **The functions that a thread may be in**, and what the loop has stored. A
worker that has run a loop is still known to it. -/
inductive Stack (set : LoopSetting L C) (threadId_ : L → T) (t : T) :
    List (LoopFrame L C) → Prop where
  | idle : Stack set threadId_ t []
  | batch (conn : C) (sent : Bool) : Stack set threadId_ t [.OnMassage conn sent]
  | replies (conn : C) (h : threadId_ (set.loop_ conn) = t) :
    Stack set threadId_ t [.regSend conn, .OnMassage conn true]
  | run (loop : L) (h : threadId_ loop = t) : Stack set threadId_ t [.run loop]
  | wakeup (loop : L) (h : threadId_ loop = t) :
    Stack set threadId_ t [.handleWakeup loop, .run loop]
  | drain (conn : C) (h : threadId_ (set.loop_ conn) = t) : Stack set threadId_ t
    [.regSend conn, .handleWakeup (set.loop_ conn), .run (set.loop_ conn)]
  | readable (conn : C) (handled : Bool) (h : threadId_ (set.loop_ conn) = t) :
    Stack set threadId_ t [.onMessage conn handled, .run (set.loop_ conn)]
  | inline (conn : C) (sent : Bool) (h : threadId_ (set.loop_ conn) = t) : Stack set threadId_ t
    [.OnMassage conn sent, .onMessage conn true, .run (set.loop_ conn)]
  | inlineReplies (conn : C) (h : threadId_ (set.loop_ conn) = t) : Stack set threadId_ t
    [.regSend conn, .OnMassage conn true, .onMessage conn true, .run (set.loop_ conn)]
  | writable (conn : C) (h : threadId_ (set.loop_ conn) = t) :
    Stack set threadId_ t [.sendMessage conn, .run (set.loop_ conn)]

omit [DecidableEq T] [DecidableEq L] [DecidableEq C] in
/-- What other loops have stored does not matter. -/
theorem Stack.congr {threadId_ threadId_' : L → T} (h : Stack set threadId_ t frames)
    (heq : ∀ frame ∈ frames, threadId_' (frame.loop set) = threadId_ (frame.loop set)) :
    Stack set threadId_' t frames := by
  cases h with
  | idle => exact .idle
  | batch conn sent => exact .batch conn sent
  | replies conn h => exact .replies conn ((heq _ (List.mem_cons_self ..)).trans h)
  | run loop h => exact .run loop ((heq _ (List.mem_cons_self ..)).trans h)
  | wakeup loop h => exact .wakeup loop ((heq _ (List.mem_cons_self ..)).trans h)
  | drain conn h => exact .drain conn ((heq _ (List.mem_cons_self ..)).trans h)
  | readable conn handled h =>
    exact .readable conn handled ((heq _ (List.mem_cons_self ..)).trans h)
  | inline conn sent h => exact .inline conn sent ((heq _ (List.mem_cons_self ..)).trans h)
  | inlineReplies conn h => exact .inlineReplies conn ((heq _ (List.mem_cons_self ..)).trans h)
  | writable conn h => exact .writable conn ((heq _ (List.mem_cons_self ..)).trans h)

omit [DecidableEq T] [DecidableEq L] [DecidableEq C] in
/-- **A thread that is not in a batch is known to the loop.** -/
theorem Stack.known {threadId_ : L → T} (h : Stack set threadId_ t frames) :
    ∀ frame ∈ frames,
      (∃ conn sent, frame = .OnMassage conn sent) ∨ threadId_ (frame.loop set) = t := by
  cases h with
  | idle => simp
  | batch c sent =>
    intro frame hframe
    exact .inl ⟨c, sent, List.mem_singleton.mp hframe⟩
  | replies c h | run loop h | wakeup loop h | drain c h | readable c _ h | inline c _ h
  | inlineReplies c h | writable c h => simp [LoopFrame.loop, h]

omit [DecidableEq T] [DecidableEq L] in
/-- **A thread works on each buffer once.** In `regSend` it may be in
`onMessage` as well. -/
theorem Stack.countP_works {threadId_ : L → T} (h : Stack set threadId_ t frames)
    (buffer : ConnectionBuffer) (conn : C) :
    frames.countP (LoopFrame.works buffer conn) ≤ 1 := by
  have hone : ∀ (p : Prop) [Decidable p], (if p then 1 else 0) ≤ 1 := fun p _ => by
    split <;> simp
  cases h with
  | idle => simp
  | batch c _ | run loop h | wakeup loop h => simp [LoopFrame.works]
  | replies c h | drain c h | readable c _ h | inline c _ h | writable c h =>
    simpa [LoopFrame.works, List.countP_cons] using hone _
  | inlineReplies c h =>
    cases buffer with
    | inputbuffer_ => simpa [LoopFrame.works, List.countP_cons] using hone _
    | outputbuffer_ => simpa [LoopFrame.works, List.countP_cons] using hone _

/-! ## What every run keeps -/

/-- **What is always true**: each thread is where it can be, the tasks of a loop
are of its connections, and a loop that is still queued has not been heard
of. -/
structure Inv (set : LoopSetting L C) (s : LoopThreads T L C) : Prop where
  stack : ∀ t, Stack set s.threadId_ t (s.stack t)
  pending : ∀ loop, ∀ conn ∈ s.pending loop, set.loop_ conn = loop
  once : ∀ loop, s.taskqueue_.count (.run loop) ≤ 1
  unused : ∀ loop, .run loop ∈ s.taskqueue_ →
    (∀ t, ∀ frame ∈ s.stack t, frame.loop set ≠ loop) ∧
      ∀ conn, .OnMassage conn ∈ s.taskqueue_ → set.loop_ conn ≠ loop

/-- **A thread goes on.** -/
theorem Inv.setStack (h : s.Inv set) (hstack : Stack set s.threadId_ t frames)
    (hloop : ∀ loop, .run loop ∈ s.taskqueue_ → ∀ frame ∈ frames, frame.loop set ≠ loop) :
    (s.setStack t frames).Inv set := by
  refine ⟨fun t' => ?_, h.pending, h.once, fun loop hqueued => ⟨fun t' frame hframe => ?_,
    (h.unused loop hqueued).2⟩⟩
  · show Stack set s.threadId_ t' (Function.update s.stack t frames t')
    by_cases ht : t' = t
    · rw [ht, Function.update_self]
      exact hstack
    · rw [Function.update_of_ne ht]
      exact h.stack t'
  · have hframe : frame ∈ Function.update s.stack t frames t' := hframe
    by_cases ht : t' = t
    · rw [ht, Function.update_self] at hframe
      exact hloop loop hqueued frame hframe
    · rw [Function.update_of_ne ht] at hframe
      exact (h.unused loop hqueued).1 t' frame hframe

/-- In functions of the same loop. -/
theorem Inv.goesOn (h : s.Inv set) (hstack : Stack set s.threadId_ t frames)
    (hloop : ∀ frame ∈ frames, ∃ frame' ∈ s.stack t, frame'.loop set = frame.loop set) :
    (s.setStack t frames).Inv set := by
  refine h.setStack hstack fun loop hqueued frame hframe => ?_
  obtain ⟨frame', hframe', heq⟩ := hloop frame hframe
  rw [← heq]
  exact (h.unused loop hqueued).1 t frame' hframe'

omit [DecidableEq T] in
/-- A batch is queued by a loop, which has begun. -/
theorem Inv.addtask (h : s.Inv set)
    (hconn : ∀ loop, .run loop ∈ s.taskqueue_ → set.loop_ conn ≠ loop) :
    Inv set { s with taskqueue_ := s.taskqueue_ ++ [.OnMassage conn] } := by
  have hrun : ∀ loop, PoolTask.run loop ∈ s.taskqueue_ ++ [PoolTask.OnMassage conn] →
      PoolTask.run loop ∈ s.taskqueue_ := by
    intro loop hmem
    rcases List.mem_append.mp hmem with hmem | hmem
    · exact hmem
    · cases List.mem_singleton.mp hmem
  refine ⟨h.stack, h.pending, fun loop => ?_, fun loop hqueued =>
    ⟨(h.unused loop (hrun loop hqueued)).1, fun c hc => ?_⟩⟩
  · show (s.taskqueue_ ++ [PoolTask.OnMassage conn]).count (PoolTask.run loop) ≤ 1
    rw [List.count_append, List.count_singleton, if_neg (by simp)]
    exact h.once loop
  · rcases List.mem_append.mp hc with hc | hc
    · exact (h.unused loop (hrun loop hqueued)).2 c hc
    · obtain rfl := PoolTask.OnMassage.inj (List.mem_singleton.mp hc)
      exact hconn loop (hrun loop hqueued)

omit [DecidableEq T] in
/-- A `regSend` is queued for the loop of its connection, or taken. -/
theorem Inv.setPending (h : s.Inv set) {conns : List C}
    (hconns : ∀ conn ∈ conns, set.loop_ conn = loop) :
    Inv set { s with pending := Function.update s.pending loop conns } := by
  refine ⟨h.stack, fun loop' conn hconn => ?_, h.once, h.unused⟩
  have hconn : conn ∈ Function.update s.pending loop conns loop' := hconn
  by_cases hloop : loop' = loop
  · rw [hloop, Function.update_self] at hconn
    exact (hconns conn hconn).trans hloop.symm
  · rw [Function.update_of_ne hloop] at hconn
    exact h.pending loop' conn hconn

omit [DecidableEq T] in
/-- A task is popped. -/
theorem Inv.pop (h : s.Inv set) {task : PoolTask L C} {taskqueue_ : List (PoolTask L C)}
    (hqueue : s.taskqueue_ = task :: taskqueue_) : Inv set { s with taskqueue_ := taskqueue_ } := by
  have hmem : ∀ task ∈ taskqueue_, task ∈ s.taskqueue_ := fun task htask => by
    rw [hqueue]
    exact List.mem_cons_of_mem _ htask
  refine ⟨h.stack, h.pending, fun loop => ?_, fun loop hqueued => ⟨(h.unused loop
    (hmem _ hqueued)).1, fun c hc => (h.unused loop (hmem _ hqueued)).2 c (hmem _ hc)⟩⟩
  have honce := h.once loop
  rw [hqueue] at honce
  exact Nat.le_trans List.count_le_count_cons honce

/-- **A thread begins to run a loop**, of which nobody has heard. -/
theorem Inv.takeLoop (h : s.Inv set) {taskqueue_ : List (PoolTask L C)}
    (hqueue : s.taskqueue_ = .run loop :: taskqueue_) :
    Inv set { s.setStack t [.run loop] with
      taskqueue_ := taskqueue_, threadId_ := Function.update s.threadId_ loop t } := by
  have hpop := h.pop hqueue
  have hunused := h.unused loop (by rw [hqueue]; exact List.mem_cons_self)
  have hother : ∀ loop', .run loop' ∈ taskqueue_ → loop ≠ loop' := by
    rintro loop' hqueued rfl
    have honce := h.once loop
    rw [hqueue, List.count_cons_self] at honce
    have hpos := List.count_pos_iff.mpr hqueued
    omega
  refine ⟨fun t' => ?_, hpop.pending, hpop.once, fun loop' hqueued => ⟨fun t' frame hframe => ?_,
    (hpop.unused loop' hqueued).2⟩⟩
  · show Stack set (Function.update s.threadId_ loop t) t'
      (Function.update s.stack t [.run loop] t')
    by_cases ht : t' = t
    · rw [ht, Function.update_self]
      exact .run loop (Function.update_self ..)
    · rw [Function.update_of_ne ht]
      exact (h.stack t').congr fun frame hframe =>
        Function.update_of_ne (hunused.1 t' frame hframe) _ _
  · have hframe : frame ∈ Function.update s.stack t [.run loop] t' := hframe
    by_cases ht : t' = t
    · rw [ht, Function.update_self] at hframe
      rw [List.mem_singleton.mp hframe]
      exact hother loop' hqueued
    · rw [Function.update_of_ne ht] at hframe
      exact (hpop.unused loop' hqueued).1 t' frame hframe

/-- **Every step keeps the threads apart.** -/
theorem Inv.step (h : s.Inv set) {l : LoopThreadsStep T L C} (hs : s.step set l = some s') :
    s'.Inv set := by
  cases l with
  | take t =>
    rw [LoopThreads.step] at hs
    split at hs
    case h_1 loop taskqueue_ hidle hqueue =>
      obtain rfl := Option.some.inj hs
      exact h.takeLoop hqueue
    case h_2 conn taskqueue_ hidle hqueue =>
      obtain rfl := Option.some.inj hs
      refine (h.pop hqueue).setStack (.batch conn false) fun loop hqueued frame hframe => ?_
      rw [List.mem_singleton.mp hframe]
      refine (h.unused loop ?_).2 conn (by rw [hqueue]; exact List.mem_cons_self)
      rw [hqueue]
      exact List.mem_cons_of_mem _ hqueued
    case h_3 => cases hs
  | readable t conn =>
    obtain ⟨hstack, hs⟩ := Option.ite_none_right_eq_some.mp hs
    obtain rfl := Option.some.inj hs
    have hrun := h.stack t
    rw [hstack] at hrun
    cases hrun with
    | run _ hid => exact h.goesOn (.readable conn false hid) (by simp [hstack, LoopFrame.loop])
  | writable t conn =>
    obtain ⟨hstack, hs⟩ := Option.ite_none_right_eq_some.mp hs
    obtain rfl := Option.some.inj hs
    have hrun := h.stack t
    rw [hstack] at hrun
    cases hrun with
    | run _ hid => exact h.goesOn (.writable conn hid) (by simp [hstack, LoopFrame.loop])
  | HandleMessage t =>
    rw [LoopThreads.step] at hs
    split at hs
    case h_2 => cases hs
    case h_1 conn frames hstack =>
      have hread := h.stack t
      rw [hstack] at hread
      cases hread with
      | readable _ _ hid =>
        split at hs
        case isTrue =>
          obtain rfl := Option.some.inj hs
          exact h.goesOn (.inline conn false hid) (by simp [hstack, LoopFrame.loop])
        case isFalse =>
          obtain rfl := Option.some.inj hs
          have hhandled : (s.setStack t [.onMessage conn true, .run (set.loop_ conn)]).Inv set :=
            h.goesOn (.readable conn true hid) (by simp [hstack, LoopFrame.loop])
          refine hhandled.addtask fun loop hqueued => ?_
          exact (h.unused loop hqueued).1 t (.onMessage conn false)
            (by rw [hstack]; exact List.mem_cons_self)
  | send t =>
    rw [LoopThreads.step] at hs
    split at hs
    case h_2 => cases hs
    case h_1 conn frames hstack =>
      have hbatch := h.stack t
      rw [hstack] at hbatch
      split at hs
      case isTrue hid =>
        obtain rfl := Option.some.inj hs
        cases hbatch with
        | batch _ _ => exact h.goesOn (.replies conn hid) (by simp [hstack, LoopFrame.loop])
        | inline _ _ _ =>
          exact h.goesOn (.inlineReplies conn hid) (by simp [hstack, LoopFrame.loop])
      case isFalse hid =>
        obtain rfl := Option.some.inj hs
        cases hbatch with
        | inline _ _ hself => exact absurd hself hid
        | batch _ _ =>
          have hsent : (s.setStack t [.OnMassage conn true]).Inv set :=
            h.goesOn (.batch conn true) (by simp [hstack, LoopFrame.loop])
          refine hsent.setPending fun c hc => ?_
          rcases List.mem_append.mp hc with hc | hc
          · exact h.pending _ c hc
          · rw [List.mem_singleton.mp hc]
  | wakeup t =>
    rw [LoopThreads.step] at hs
    split at hs
    case h_2 => cases hs
    case h_1 loop hstack =>
      obtain rfl := Option.some.inj hs
      have hrun := h.stack t
      rw [hstack] at hrun
      cases hrun with
      | run _ hid => exact h.goesOn (.wakeup loop hid) (by simp [hstack, LoopFrame.loop])
  | drain t =>
    rw [LoopThreads.step] at hs
    split at hs
    case h_2 => cases hs
    case h_1 loop frames hstack =>
      split at hs
      case h_1 => cases hs
      case h_2 conn conns hpending =>
        obtain rfl := Option.some.inj hs
        have hloop : ∀ c ∈ conn :: conns, set.loop_ c = loop := fun c hc =>
          h.pending loop c (by rw [hpending]; exact hc)
        obtain rfl := hloop conn List.mem_cons_self
        have hdrain := h.stack t
        rw [hstack] at hdrain
        cases hdrain with
        | wakeup _ hid =>
          have hcall : (s.setStack t [.regSend conn, .handleWakeup (set.loop_ conn),
              .run (set.loop_ conn)]).Inv set :=
            h.goesOn (.drain conn hid) (by simp [hstack, LoopFrame.loop])
          exact hcall.setPending fun c hc => hloop c (List.mem_cons_of_mem _ hc)
  | leave t =>
    rw [LoopThreads.step] at hs
    split at hs
    case h_1 => cases hs
    case h_2 => cases hs
    case h_3 frame frames hrun hstack =>
      obtain rfl := Option.some.inj hs
      have hleaves := h.stack t
      rw [hstack] at hleaves
      have hloop : ∀ frame' ∈ frames, ∃ frame'' ∈ s.stack t, frame''.loop set = frame'.loop set :=
        fun frame' hframe' => ⟨frame', by rw [hstack]; exact List.mem_cons_of_mem _ hframe', rfl⟩
      cases hleaves with
      | run loop hid => exact absurd rfl (hrun loop)
      | batch conn sent => exact h.goesOn .idle hloop
      | replies conn hid => exact h.goesOn (.batch conn true) hloop
      | wakeup loop hid => exact h.goesOn (.run loop hid) hloop
      | drain conn hid => exact h.goesOn (.wakeup _ hid) hloop
      | readable conn handled hid => exact h.goesOn (.run _ hid) hloop
      | inline conn sent hid => exact h.goesOn (.readable conn true hid) hloop
      | inlineReplies conn hid => exact h.goesOn (.inline conn true hid) hloop
      | writable conn hid => exact h.goesOn (.run _ hid) hloop
  | stop loop =>
    obtain rfl := Option.some.inj hs
    exact ⟨h.stack, h.pending, h.once, h.unused⟩
  | finish t =>
    rw [LoopThreads.step] at hs
    split at hs
    case h_2 => cases hs
    case h_1 loop hstack =>
      obtain ⟨-, hs⟩ := Option.ite_none_right_eq_some.mp hs
      obtain rfl := Option.some.inj hs
      exact h.goesOn .idle (by simp)

omit [DecidableEq T] in
theorem Inv.start {loops : List L} (hloops : loops.Nodup) (threadId_ : L → T) :
    (start loops threadId_ : LoopThreads T L C).Inv set where
  stack _ := .idle
  pending _ _ hconn := (List.not_mem_nil hconn).elim
  once loop := by
    have hinj : Function.Injective (PoolTask.run : L → PoolTask L C) := fun _ _ h =>
      PoolTask.run.inj h
    exact List.nodup_iff_count_le_one.mp (hloops.map hinj) _
  unused loop _ := by
    refine ⟨fun _ _ hframe => (List.not_mem_nil hframe).elim, fun conn hconn => ?_⟩
    obtain ⟨loop, -, hloop⟩ := List.mem_map.mp hconn
    cases hloop

/-- **Whoever works on a buffer of a connection** is the thread that its loop
has stored, and works on it once. -/
theorem oneThread {loops : List L} (hloops : loops.Nodup) {threadId_ : L → T}
    (hruns : Runs (step set) anyStep (start loops threadId_) s) (buffer : ConnectionBuffer)
    (conn : C) :
    (∀ t, ∀ frame ∈ s.stack t, frame.works buffer conn = true →
        s.threadId_ (set.loop_ conn) = t) ∧
      ∀ t, (s.stack t).countP (LoopFrame.works buffer conn) ≤ 1 := by
  have h : s.Inv set := hruns.invariant (fun _ _ _ h _ hs => h.step hs) (.start hloops threadId_)
  refine ⟨fun t frame hframe hworks => ?_, fun t => (h.stack t).countP_works buffer conn⟩
  obtain ⟨hloop, hbatch⟩ := LoopFrame.loop_of_works hworks
  rcases (h.stack t).known frame hframe with ⟨c, sent, heq⟩ | hknown
  · exact absurd heq (hbatch c sent)
  · rw [← hloop, hknown]

/-- Without workers for the batches, the thread of the loop has all functions
on its stack. -/
example :
    (execute (step ⟨fun _ => (), 0⟩) (start [()] fun _ => true)
      [.take false, .readable false (), .HandleMessage false, .send false]).any (fun s =>
        decide (s.stack false = [.regSend (), .OnMassage () true, .onMessage () true, .run ()])) =
      true := by
  decide

/-- The worker `true` gives the responses of a batch to the loop, which is run by
`false`. -/
theorem oneThread_batch :
    ∃ s : LoopThreads Bool Unit Unit,
      s.stack false = [.regSend (), .handleWakeup (), .run ()] ∧
      s.stack true = [.OnMassage () true] ∧
      ∀ t, ∀ frame ∈ s.stack t, frame.works .outputbuffer_ () = true → s.threadId_ () = t := by
  obtain ⟨s, hruns, h⟩ : ∃ s : LoopThreads Bool Unit Unit,
      Runs (step ⟨fun _ => (), 1⟩) anyStep (start [()] fun _ => true) s ∧
        decide (s.stack false = [.regSend (), .handleWakeup (), .run ()] ∧
          s.stack true = [.OnMassage () true]) = true :=
    exists_of_execute
      [.take false, .readable false (), .HandleMessage false, .leave false, .take true, .send true,
        .wakeup false, .drain false] (by decide)
  obtain ⟨hfalse, htrue⟩ := of_decide_eq_true h
  exact ⟨s, hfalse, htrue, (oneThread (List.nodup_singleton ()) hruns .outputbuffer_ ()).1⟩

end LoopThreads

end PbRpc
