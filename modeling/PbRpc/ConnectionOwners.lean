import PbRpc.TcpServer

/-!
# Who keeps a connection

`conns_` is keyed by descriptors, which the kernel gives out again. The map
is right nevertheless: a descriptor that is given out belongs to nobody, so
that `newConnection` finds nothing under it, and a handler that erases by
descriptor erases its own connection, since the connection exists while the
handler runs and no other has its descriptor (`TcpServer.conns_mapped`).

The queues of the loops are another matter. A `regSend` task is a raw
pointer, and a worker that has queued it may be the last to know the
connection: when the peer closes before the loop gets to its queue, the
handler erases the entry, the worker lets go of its batch, and the handler
returns to a loop whose queue names a connection that is gone
(`TcpServer.not_tasksAlive`). That is the only way
(`TcpServer.tasksAlive_iff`): whoever lets go of a connection last must not
leave a task of it behind.
-/

namespace PbRpc

open Transition

namespace TcpServer

variable {cfg : TcpServerConfig} {s s' : TcpServer} {conn c : ℕ}

/-! ## The map -/

/-- **What the map says of a connection.** -/
structure Mapped (s : TcpServer) : Prop where
  /-- An entry is under the descriptor of its connection, and no handler of
  the connection has come as far as to erase it. -/
  entry : ∀ fd conn, s.conns_.lookup fd = some conn → (s.connection conn).fd = fd ∧
    ((s.connection conn).disConnect = true →
      ∃ handler ∈ s.handlers, handler.conn = conn ∧ handler.erased = false)
  /-- A connection that `newConnection` has put into the map, and of which no
  handler has begun, is there. -/
  listed : ∀ conn < s.made, s.accepting ≠ some (conn, .made) →
    (s.connection conn).disConnect = false →
    s.conns_.lookup (s.connection conn).fd = some conn

/-- **What a step may do to the map**: `newConnection` overwrites nothing,
and a handler removes its own connection. -/
def KeepsEntries (s s' : TcpServer) : TcpServerStep → Prop
  | .newConnection => ∀ fd conn, s.conns_.lookup fd = some conn → s'.conns_.lookup fd = some conn
  | .erase handler => ∀ fd conn, conn ≠ handler.conn → s.conns_.lookup fd = some conn →
    s'.conns_.lookup fd = some conn
  | _ => s'.conns_ = s.conns_

theorem mapped_of_inv (h : Inv s) : Mapped s where
  entry fd conn hlookup := ⟨h.entry_fd fd conn hlookup, h.entry_open fd conn hlookup⟩
  listed := h.listed

theorem conns_regSend (s : TcpServer) (conn : ℕ) : (s.regSend conn).conns_ = s.conns_ := by
  obtain ⟨connection, heq⟩ := s.regSend_eq conn
  rw [heq]

/-- **Every step keeps the entries of others.** -/
theorem keepsEntries_step (h : Inv s) {l : TcpServerStep} (hs : step cfg s l = some s') :
    KeepsEntries s s' l := by
  cases steps_of_step hs with
  | newConnection haccepting =>
    intro fd c hc
    refine (AList.lookup_insert_ne ?_).trans hc
    rintro rfl
    rw [h.lookup_of_made haccepting] at hc
    cases hc
  | @erase handler hmem hnot =>
    intro fd c hc hlookup
    refine (AList.lookup_erase_ne ?_).trans hlookup
    rintro rfl
    rw [(h.handler_open handler hmem).2 hnot] at hlookup
    exact hc (Option.some.inj hlookup).symm
  | handledInline _ => exact s.conns_regSend _
  | @handleWakeup loop =>
    obtain ⟨connection, heq⟩ := s.foldl_regSend_eq (s.taskqueue_ loop)
    show ((s.taskqueue_ loop).foldl regSend s).conns_ = s.conns_
    rw [heq]
  | accept _ _ | enableReading _ | accepted _ | handedOver _ | closeCallback _ | errorCallback _
  | handled _ _ | send _ | queueInLoop _ | finish _ => rfl

/-- **The map holds the connections that are up**, and nobody writes over or
removes the entry of another. -/
theorem conns_mapped (hrun : Runs (step cfg) anyStep {} s) :
    Mapped s ∧ ∀ l s', step cfg s l = some s' → KeepsEntries s s' l :=
  ⟨mapped_of_inv (inv_of_runs hrun), fun _ _ hs => keepsEntries_step (inv_of_runs hrun) hs⟩

/-- A connection with descriptor 5 is made, registered, and has sent
requests. -/
def opened : List TcpServerStep :=
  [.accept 5, .newConnection, .enableReading, .accepted, .onMessage 0]

/-- The close handler of the connection, until it returns. -/
def closed : List TcpServerStep :=
  [.closeCallback 0, .erase { conn := 0, kind := .close }]

/-- The descriptor of a connection comes back once its worker has let go of
it, and belongs to another connection. -/
theorem conns_mapped_reused :
    ∃ s, (Mapped s ∧ ∀ l s', step ⟨1, 1⟩ s l = some s' → KeepsEntries s s' l) ∧
      s.conns_.lookup 5 = some 1 ∧ s.made = 2 := by
  obtain ⟨s, hrun, h⟩ : ∃ s, Runs (step ⟨1, 1⟩) anyStep {} s ∧
      decide (s.conns_.lookup 5 = some 1 ∧ s.made = 2) = true :=
    exists_of_execute
      (opened ++ closed ++ [.handled { conn := 0, kind := .close, erased := true },
        .send { conn := 0 }, .finish { conn := 0, phase := .sent }, .accept 5, .newConnection])
      (by decide +kernel)
  exact ⟨s, conns_mapped hrun, of_decide_eq_true h⟩

/-! ## The queues -/

/-- **The queued tasks name connections that exist.** -/
def TasksAlive (s : TcpServer) : Prop := ∀ loop, ∀ conn ∈ s.taskqueue_ loop, conn ∈ s.holders

/-- The connection that a step lets go of. -/
def letsGo (s : TcpServer) : TcpServerStep → Option ℕ
  | .accepted => s.accepting.map Prod.fst
  | .handled handler => some handler.conn
  | .finish batch => some batch.conn
  | _ => none

/-- **Who lets go of a connection last leaves no task of it behind.** -/
def GoesLast (s : TcpServer) (l : TcpServerStep) : Prop :=
  ∀ conn ∈ s.letsGo l, s.holders.count conn = 1 →
    conn ∉ s.taskqueue_ (s.connection conn).loop_

instance (s : TcpServer) (l : TcpServerStep) : Decidable (GoesLast s l) :=
  inferInstanceAs (Decidable (∀ conn ∈ s.letsGo l, _))

/-- A step after which nobody has let go of anything. -/
theorem TasksAlive.mono (h : TasksAlive s) (hholders : ∀ c ∈ s.holders, c ∈ s'.holders)
    (htasks : ∀ loop, ∀ c ∈ s'.taskqueue_ loop, c ∈ s.taskqueue_ loop ∨ c ∈ s.holders) :
    TasksAlive s' := by
  intro loop c hc
  rcases htasks loop c hc with hc | hc
  · exact hholders c (h loop c hc)
  · exact hholders c hc

/-- **A step that lets go of a connection.** -/
theorem tasksAlive_letsGo (h : Inv s) (halive : TasksAlive s)
    (hholders : s.holders.Perm (conn :: s'.holders)) (htasks : s'.taskqueue_ = s.taskqueue_) :
    TasksAlive s' ↔ (s.holders.count conn = 1 →
      conn ∉ s.taskqueue_ (s.connection conn).loop_) := by
  have hcount : s.holders.count conn = s'.holders.count conn + 1 := by
    rw [hholders.count_eq, List.count_cons_self]
  constructor
  · intro halive' hlast hmem
    rw [← htasks] at hmem
    have hpos := List.count_pos_iff.mpr (halive' _ conn hmem)
    omega
  · intro hlast loop c hc
    rw [htasks] at hc
    rcases List.mem_cons.mp (hholders.mem_iff.mp (halive loop c hc)) with rfl | hmem
    · refine List.count_pos_iff.mp (Nat.pos_of_ne_zero fun hzero => ?_)
      refine hlast (by rw [hcount, hzero]) ?_
      rw [(h.taskqueue_loop loop c hc).2]
      exact hc
    · exact hmem

/-- A worker that goes on holds the connection it held. -/
theorem mem_holders_batch {batch : Batch} {phase : BatchPhase} (hmem : batch ∈ s.batches)
    (hc : c ∈ s.holders) {taskqueue_ : ℕ → List ℕ} :
    c ∈ holders { s with
      batches := { batch with phase := phase } :: s.batches.erase batch
      taskqueue_ := taskqueue_ } := by
  have hperm := (List.perm_cons_erase hmem).map Batch.conn
  exact (((hperm.append_left _).append_right _).append_right _).mem_iff.mp hc

theorem goesLast_iff {l : TcpServerStep} (hletsGo : s.letsGo l = some conn) : GoesLast s l ↔
    (s.holders.count conn = 1 → conn ∉ s.taskqueue_ (s.connection conn).loop_) := by
  rw [GoesLast, hletsGo]
  exact ⟨fun h => h conn rfl, fun h _ hconn => Option.some.inj hconn ▸ h⟩

/-- A step that lets go of nothing. -/
theorem TasksAlive.iff_goesLast (h : TasksAlive s') {l : TcpServerStep}
    (hletsGo : s.letsGo l = none) : TasksAlive s' ↔ GoesLast s l := by
  refine iff_of_true h fun conn hconn => ?_
  rw [hletsGo] at hconn
  cases hconn

/-- **Every step leaves the tasks alive, or lets go last.** -/
theorem tasksAlive_step (h : Inv s) (halive : TasksAlive s) {l : TcpServerStep}
    (hs : step cfg s l = some s') : TasksAlive s' ↔ GoesLast s l := by
  have hkeep := keepsEntries_step h hs
  cases steps_of_step hs with
  | accept hnone _ =>
    refine TasksAlive.iff_goesLast ?_ rfl
    refine halive.mono ?_ fun _ _ => .inl
    refine holders_subset (fun _ _ hc => mem_holders_of_entry hc)
      (fun _ hmem => mem_holders_of_batch hmem)
      (fun _ hmem => mem_holders_of_handler hmem) fun c phase hc => ?_
    rw [hnone] at hc
    cases hc
  | newConnection haccepting =>
    refine TasksAlive.iff_goesLast ?_ rfl
    refine halive.mono ?_ fun _ _ => .inl
    refine holders_subset (fun fd c hc => mem_holders_of_entry (hkeep fd c hc))
      (fun _ hmem => mem_holders_of_batch hmem)
      (fun _ hmem => mem_holders_of_handler hmem) fun c phase hc => ?_
    rw [haccepting] at hc
    obtain ⟨rfl, -⟩ := Prod.mk.inj (Option.some.inj hc)
    exact mem_holders_of_accepting rfl
  | enableReading haccepting =>
    refine TasksAlive.iff_goesLast ?_ rfl
    refine halive.mono ?_ fun _ _ => .inl
    refine holders_subset (fun _ _ hc => mem_holders_of_entry hc)
      (fun _ hmem => mem_holders_of_batch hmem)
      (fun _ hmem => mem_holders_of_handler hmem) fun c phase hc => ?_
    rw [haccepting] at hc
    obtain ⟨rfl, -⟩ := Prod.mk.inj (Option.some.inj hc)
    exact mem_holders_of_accepting rfl
  | @accepted conn haccepting =>
    rw [goesLast_iff (by rw [letsGo, haccepting]; rfl)]
    refine tasksAlive_letsGo h halive ?_ rfl
    rw [holders, holders, haccepting]
    exact List.perm_append_comm.trans (by simp)
  | @handledInline conn _ =>
    refine TasksAlive.iff_goesLast ?_ rfl
    obtain ⟨connection, heq⟩ := s.regSend_eq conn
    rw [heq]
    exact halive
  | handedOver _ =>
    refine TasksAlive.iff_goesLast ?_ rfl
    refine halive.mono ?_ fun _ _ => .inl
    exact holders_subset (fun _ _ hc => mem_holders_of_entry hc)
      (fun _ hmem => mem_holders_of_batch (List.mem_cons_of_mem _ hmem))
      (fun _ hmem => mem_holders_of_handler hmem) fun _ _ hc => mem_holders_of_accepting hc
  | closeCallback _ | errorCallback _ =>
    refine TasksAlive.iff_goesLast ?_ rfl
    refine halive.mono ?_ fun _ _ => .inl
    exact holders_subset (fun _ _ hc => mem_holders_of_entry hc)
      (fun _ hmem => mem_holders_of_batch hmem)
      (fun _ hmem => mem_holders_of_handler (List.mem_cons_of_mem _ hmem))
      fun _ _ hc => mem_holders_of_accepting hc
  | @erase handler hmem hnot =>
    refine TasksAlive.iff_goesLast ?_ rfl
    refine halive.mono ?_ fun _ _ => .inl
    -- the handler itself holds the connection
    have hself : handler.conn ∈ holders { s.eraseConnection handler.conn with
        handlers := { handler with erased := true } :: s.handlers.erase handler } :=
      mem_holders.mpr (.inr (.inr (.inl ⟨_, List.mem_cons_self .., rfl⟩)))
    refine holders_subset (fun fd c hc => ?_) (fun _ hmem => mem_holders_of_batch hmem)
      (fun handler' hmem' => ?_) fun _ _ hc => mem_holders_of_accepting hc
    · by_cases hconn : c = handler.conn
      · rw [hconn]
        exact hself
      · exact mem_holders_of_entry (hkeep fd c hconn hc)
    · by_cases hhandler : handler' = handler
      · rw [hhandler]
        exact hself
      · refine mem_holders_of_handler (List.mem_cons_of_mem _ ?_)
        exact (List.mem_erase_of_ne hhandler).mpr hmem'
  | @handled handler hmem _ =>
    rw [goesLast_iff rfl]
    refine tasksAlive_letsGo h halive ?_ rfl
    have hperm := (List.perm_cons_erase hmem).map Handler.conn
    rw [holders, holders]
    exact ((hperm.append_left _).append_right _).trans (List.perm_middle.append_right _)
  | send hmem =>
    refine TasksAlive.iff_goesLast ?_ rfl
    exact halive.mono (fun c hc => mem_holders_batch hmem hc) fun _ _ => .inl
  | @queueInLoop batch hmem =>
    refine TasksAlive.iff_goesLast ?_ rfl
    refine halive.mono (fun c hc => mem_holders_batch hmem hc) fun loop c hc => ?_
    rcases mem_pushed hc with hc | ⟨-, rfl⟩
    · exact .inl hc
    · exact .inr (mem_holders_of_batch hmem)
  | @finish batch hmem =>
    rw [goesLast_iff rfl]
    refine tasksAlive_letsGo h halive ?_ rfl
    have hperm := (List.perm_cons_erase hmem).map Batch.conn
    rw [holders, holders]
    exact (((hperm.append_left _).append_right _).append_right _).trans
      ((List.perm_middle.append_right _).append_right _)
  | @handleWakeup loop =>
    refine TasksAlive.iff_goesLast ?_ rfl
    obtain ⟨connection, heq⟩ := s.foldl_regSend_eq (s.taskqueue_ loop)
    rw [heq]
    exact halive.mono (fun _ => id) fun _ _ hc => .inl (mem_drained hc)

/-- **The tasks of the loops name connections that exist**, in every run in
which whoever lets go of a connection last leaves no task of it behind, and
in no other. -/
theorem tasksAlive_iff (hrun : Runs (step cfg) GoesLast {} s) :
    TasksAlive s ∧ ∀ l s', step cfg s l = some s' → (TasksAlive s' ↔ GoesLast s l) := by
  have h : Inv s ∧ TasksAlive s := by
    refine hrun.invariant (I := fun s => Inv s ∧ TasksAlive s)
      (fun s l s' h hlast hs => ⟨h.1.step hs, (tasksAlive_step h.1 h.2 hs).mpr hlast⟩)
      ⟨inv_init, fun loop c hc => absurd hc List.not_mem_nil⟩
  exact ⟨h.2, fun l s' hs => tasksAlive_step h.1 h.2 hs⟩

/-- The worker of the connection has queued its responses. -/
def answered : List TcpServerStep :=
  [.send { conn := 0 }, .queueInLoop { conn := 0, phase := .sending }]

/-- The worker lets go of its batch and the handler returns. -/
def released : List TcpServerStep :=
  [.finish { conn := 0, phase := .sent }, .handled { conn := 0, kind := .close, erased := true }]

/-- The loop gets to its queue before the peer closes. -/
theorem tasksAlive_drained :
    ∃ s, TasksAlive s ∧ s.holders = [] ∧ s.made = 1 := by
  obtain ⟨s, hruns, h⟩ : ∃ s, Runs (restrict (step ⟨1, 1⟩) GoesLast) anyStep {} s ∧
      decide (s.holders = [] ∧ s.made = 1) = true :=
    exists_of_execute (opened ++ answered ++ [.handleWakeup 0] ++ closed ++ released)
      (by decide +kernel)
  exact ⟨s, (tasksAlive_iff (runs_of_restrict hruns)).1, of_decide_eq_true h⟩

/-- The peer closes before the loop gets to its queue. -/
theorem not_tasksAlive : ∃ s, Runs (step ⟨1, 1⟩) anyStep {} s ∧ ¬ TasksAlive s := by
  obtain ⟨s, hruns, h⟩ : ∃ s, Runs (step ⟨1, 1⟩) anyStep {} s ∧
      decide (0 ∈ s.taskqueue_ 0 ∧ s.holders = []) = true :=
    exists_of_execute (opened ++ answered ++ closed ++ released) (by decide +kernel)
  obtain ⟨htask, hholders⟩ := of_decide_eq_true h
  refine ⟨s, hruns, fun halive => ?_⟩
  have hmem := halive 0 0 htask
  rw [hholders] at hmem
  cases hmem

end TcpServer

end PbRpc
