import Mathlib.Data.List.AList
import PbRpc.Transition

/-!
# The server and its connections

A server keeps its connections in `conns_`, under their descriptors. It is
not the only one to keep them. A connection is an object that exists as long
as anybody holds an `spConnection` to it: the map, `newConnection` until it
returns, an event callback of the loop's thread while it runs, and a batch
of requests until the worker that has run it lets go of it. The destructor
of the connection closes the descriptor, and then the kernel may give it to
another one.

What a loop's queue holds is not an `spConnection`. `send` binds `regSend`
to `this`, and `queueInLoop` keeps the binding until the loop's thread gets
to it.

The threads are the one of `newConnection`, one for each event loop, which
runs one callback at a time, and the workers, one batch each. A close or
error handler is taken apart where it lets other threads see what it has
done: it sets `disConnect` and takes the channel from epoll, erases the
entry under the lock, and returns.
-/

namespace PbRpc

open Transition

/-- **A connection of the server**, as far as it decides who may touch
it. -/
structure ServerConnection where
  fd : ℕ := 0
  /-- The event loop it belongs to. -/
  loop_ : ℕ := 0
  disConnect : Bool := false
  inepoll_ : Bool := false
deriving DecidableEq, Repr

/-- Where `newConnection` is. -/
inductive AcceptPhase where
  /-- The connection is made. -/
  | made
  /-- It is in `conns_`. -/
  | listed
  /-- It is registered for reading. -/
  | reading
deriving DecidableEq, Repr

/-- Which handler of a connection it is. -/
inductive HandlerKind where
  | close
  | error
deriving DecidableEq, Repr

/-- A handler that runs. -/
structure Handler where
  conn : ℕ
  kind : HandlerKind
  /-- The entry of the connection is erased. -/
  erased : Bool := false
deriving DecidableEq, Repr

/-- Where the worker with a batch is. -/
inductive BatchPhase where
  /-- `send` has not been called. -/
  | requests
  /-- `send` has found the connection up. -/
  | sending
  /-- `send` has returned. -/
  | sent
deriving DecidableEq, Repr

/-- **A batch of requests**, with the connection they came from. -/
structure Batch where
  conn : ℕ
  phase : BatchPhase := .requests
deriving DecidableEq, Repr

/-- **The server.** Connections have numbers, in the order they were
made. -/
structure TcpServer where
  /-- How many connections were made. -/
  made : ℕ := 0
  connection : ℕ → ServerConnection := fun _ => {}
  conns_ : AList (fun _ : ℕ => ℕ) := ∅
  /-- The connection that `newConnection` holds. -/
  accepting : Option (ℕ × AcceptPhase) := none
  handlers : List Handler := []
  batches : List Batch := []
  /-- The connections of the `regSend` tasks of each loop. -/
  taskqueue_ : ℕ → List ℕ := fun _ => []

/-- The steps of the threads. -/
inductive TcpServerStep where
  /-- `accept` returns a descriptor, and the connection is made. -/
  | accept (fd : ℕ)
  /-- The part of `newConnection` that holds the lock. -/
  | newConnection
  | enableReading
  /-- `newConnection` returns. -/
  | accepted
  /-- Requests of a connection are handed to `HandleMessage`. -/
  | onMessage (conn : ℕ)
  | closeCallback (conn : ℕ)
  | errorCallback (conn : ℕ)
  /-- `closeconnection` or `errorconnection`, under the lock. -/
  | erase (handler : Handler)
  /-- A handler returns. -/
  | handled (handler : Handler)
  /-- `send` looks at `disConnect`. -/
  | send (batch : Batch)
  | queueInLoop (batch : Batch)
  /-- The worker lets go of a batch. -/
  | finish (batch : Batch)
  /-- A loop drains its queue. -/
  | handleWakeup (loop : ℕ)
deriving DecidableEq, Repr

/-- How many threads the server was given. -/
structure TcpServerConfig where
  ioThread_ : ℕ
  workThread_ : ℕ

/-- The loop of a descriptor. -/
def TcpServerConfig.getEventLoop (cfg : TcpServerConfig) (fd : ℕ) : ℕ := fd % cfg.ioThread_

namespace TcpServer

/-- Write to a connection. -/
def modify (s : TcpServer) (conn : ℕ) (f : ServerConnection → ServerConnection) : TcpServer :=
  { s with connection := Function.update s.connection conn (f (s.connection conn)) }

/-- **Who holds an `spConnection`**: the connection of each holder. -/
def holders (s : TcpServer) : List ℕ :=
  s.conns_.entries.map (fun entry => entry.2) ++ s.batches.map Batch.conn
    ++ s.handlers.map Handler.conn ++ (s.accepting.map Prod.fst).toList

/-- No callback of the loop is running. -/
def idle (s : TcpServer) (loop : ℕ) : Prop :=
  ∀ handler ∈ s.handlers, (s.connection handler.conn).loop_ ≠ loop

instance (s : TcpServer) (loop : ℕ) : Decidable (s.idle loop) :=
  inferInstanceAs (Decidable (∀ handler ∈ s.handlers, _))

/-- Events of the connection are delivered, and its loop's thread is free. -/
def delivers (s : TcpServer) (conn : ℕ) : Prop :=
  (s.connection conn).inepoll_ = true ∧ s.idle (s.connection conn).loop_

instance (s : TcpServer) (conn : ℕ) : Decidable (s.delivers conn) :=
  inferInstanceAs (Decidable (_ ∧ _))

/-- `closeCallback` and `errorCallback`, until they call the handler of the
server. -/
def disconnect (s : TcpServer) (conn : ℕ) (kind : HandlerKind) : TcpServer :=
  { s.modify conn (fun c => { c with disConnect := true, inepoll_ := false }) with
    handlers := { conn := conn, kind := kind } :: s.handlers }

/-- `conns_.erase(conn->getFd())`. -/
def eraseConnection (s : TcpServer) (conn : ℕ) : TcpServer :=
  { s with conns_ := s.conns_.erase (s.connection conn).fd }

def closeconnection (s : TcpServer) (conn : ℕ) : TcpServer := s.eraseConnection conn

def errorconnection (s : TcpServer) (conn : ℕ) : TcpServer := s.eraseConnection conn

/-- What a handler calls. -/
def runHandler (s : TcpServer) (handler : Handler) : TcpServer :=
  match handler.kind with
  | .close => s.closeconnection handler.conn
  | .error => s.errorconnection handler.conn

theorem runHandler_eq (s : TcpServer) (handler : Handler) :
    s.runHandler handler = s.eraseConnection handler.conn := by
  rw [runHandler]
  split <;> rfl

/-- `regSend`: the channel is registered, for writing. -/
def regSend (s : TcpServer) (conn : ℕ) : TcpServer :=
  if (s.connection conn).disConnect then s
  else s.modify conn (fun c => { c with inepoll_ := true })

/-- **One step.** The kernel does not return a descriptor that a connection
still has. A task is a call on a connection, which has to exist. -/
def step (cfg : TcpServerConfig) (s : TcpServer) : TcpServerStep → Option TcpServer
  | .accept fd =>
    if s.accepting = none ∧ ∀ conn ∈ s.holders, (s.connection conn).fd ≠ fd then
      some { s with
        made := s.made + 1
        connection := Function.update s.connection s.made
          { fd := fd, loop_ := cfg.getEventLoop fd }
        accepting := some (s.made, .made) }
    else none
  | .newConnection =>
    match s.accepting with
    | some (conn, .made) =>
      some { s with
        conns_ := s.conns_.insert (s.connection conn).fd conn
        accepting := some (conn, .listed) }
    | _ => none
  | .enableReading =>
    match s.accepting with
    | some (conn, .listed) =>
      some { s.modify conn (fun c => { c with inepoll_ := true }) with
        accepting := some (conn, .reading) }
    | _ => none
  | .accepted =>
    match s.accepting with
    | some (_, .reading) => some { s with accepting := none }
    | _ => none
  | .onMessage conn =>
    if s.delivers conn then
      if cfg.workThread_ = 0 then some (s.regSend conn)
      else some { s with batches := { conn := conn } :: s.batches }
    else none
  | .closeCallback conn => if s.delivers conn then some (s.disconnect conn .close) else none
  | .errorCallback conn => if s.delivers conn then some (s.disconnect conn .error) else none
  | .erase handler =>
    if handler ∈ s.handlers ∧ handler.erased = false then
      some { s.runHandler handler with
        handlers := { handler with erased := true } :: s.handlers.erase handler }
    else none
  | .handled handler =>
    if handler ∈ s.handlers ∧ handler.erased = true then
      some { s with handlers := s.handlers.erase handler }
    else none
  | .send batch =>
    if batch ∈ s.batches ∧ batch.phase = .requests then
      let phase := if (s.connection batch.conn).disConnect then BatchPhase.sent else .sending
      some { s with batches := { batch with phase := phase } :: s.batches.erase batch }
    else none
  | .queueInLoop batch =>
    if batch ∈ s.batches ∧ batch.phase = .sending then
      let loop := (s.connection batch.conn).loop_
      some { s with
        batches := { batch with phase := .sent } :: s.batches.erase batch
        taskqueue_ := Function.update s.taskqueue_ loop (s.taskqueue_ loop ++ [batch.conn]) }
    else none
  | .finish batch =>
    if batch ∈ s.batches ∧ batch.phase = .sent then
      some { s with batches := s.batches.erase batch }
    else none
  | .handleWakeup loop =>
    if s.idle loop ∧ ∀ conn ∈ s.taskqueue_ loop, conn ∈ s.holders then
      some { (s.taskqueue_ loop).foldl regSend s with
        taskqueue_ := Function.update s.taskqueue_ loop [] }
    else none

/-- **What a step does**, one constructor for each way it can go. -/
inductive Steps (cfg : TcpServerConfig) (s : TcpServer) : TcpServerStep → TcpServer → Prop
  | accept {fd : ℕ} (hnone : s.accepting = none)
      (hfd : ∀ conn ∈ s.holders, (s.connection conn).fd ≠ fd) :
      Steps cfg s (.accept fd) { s with
        made := s.made + 1
        connection := Function.update s.connection s.made
          { fd := fd, loop_ := cfg.getEventLoop fd }
        accepting := some (s.made, .made) }
  | newConnection {conn : ℕ} (haccepting : s.accepting = some (conn, .made)) :
      Steps cfg s .newConnection { s with
        conns_ := s.conns_.insert (s.connection conn).fd conn
        accepting := some (conn, .listed) }
  | enableReading {conn : ℕ} (haccepting : s.accepting = some (conn, .listed)) :
      Steps cfg s .enableReading { s.modify conn (fun c => { c with inepoll_ := true }) with
        accepting := some (conn, .reading) }
  | accepted {conn : ℕ} (haccepting : s.accepting = some (conn, .reading)) :
      Steps cfg s .accepted { s with accepting := none }
  | handledInline {conn : ℕ} (hdelivers : s.delivers conn) :
      Steps cfg s (.onMessage conn) (s.regSend conn)
  | handedOver {conn : ℕ} (hdelivers : s.delivers conn) :
      Steps cfg s (.onMessage conn) { s with batches := { conn := conn } :: s.batches }
  | closeCallback {conn : ℕ} (hdelivers : s.delivers conn) :
      Steps cfg s (.closeCallback conn) (s.disconnect conn .close)
  | errorCallback {conn : ℕ} (hdelivers : s.delivers conn) :
      Steps cfg s (.errorCallback conn) (s.disconnect conn .error)
  | erase {handler : Handler} (hmem : handler ∈ s.handlers) (hnot : handler.erased = false) :
      Steps cfg s (.erase handler) { s.eraseConnection handler.conn with
        handlers := { handler with erased := true } :: s.handlers.erase handler }
  | handled {handler : Handler} (hmem : handler ∈ s.handlers) (herased : handler.erased = true) :
      Steps cfg s (.handled handler) { s with handlers := s.handlers.erase handler }
  | send {batch : Batch} {phase : BatchPhase} (hmem : batch ∈ s.batches) :
      Steps cfg s (.send batch) { s with
        batches := { batch with phase := phase } :: s.batches.erase batch }
  | queueInLoop {batch : Batch} (hmem : batch ∈ s.batches) :
      Steps cfg s (.queueInLoop batch) { s with
        batches := { batch with phase := .sent } :: s.batches.erase batch
        taskqueue_ := Function.update s.taskqueue_ (s.connection batch.conn).loop_
          (s.taskqueue_ (s.connection batch.conn).loop_ ++ [batch.conn]) }
  | finish {batch : Batch} (hmem : batch ∈ s.batches) :
      Steps cfg s (.finish batch) { s with batches := s.batches.erase batch }
  | handleWakeup {loop : ℕ} :
      Steps cfg s (.handleWakeup loop) { (s.taskqueue_ loop).foldl regSend s with
        taskqueue_ := Function.update s.taskqueue_ loop [] }

theorem steps_of_step {cfg : TcpServerConfig} {s s' : TcpServer} {l : TcpServerStep}
    (hs : step cfg s l = some s') : Steps cfg s l s' := by
  cases l with
  | accept fd =>
    obtain ⟨hfree, hs⟩ := Option.ite_none_right_eq_some.mp hs
    obtain rfl := Option.some.inj hs
    exact .accept hfree.1 hfree.2
  | newConnection =>
    rw [step] at hs
    split at hs
    · obtain rfl := Option.some.inj hs
      exact .newConnection (by assumption)
    · cases hs
  | enableReading =>
    rw [step] at hs
    split at hs
    · obtain rfl := Option.some.inj hs
      exact .enableReading (by assumption)
    · cases hs
  | accepted =>
    rw [step] at hs
    split at hs
    · obtain rfl := Option.some.inj hs
      exact .accepted (by assumption)
    · cases hs
  | onMessage conn =>
    obtain ⟨hdelivers, hs⟩ := Option.ite_none_right_eq_some.mp hs
    split at hs
    · obtain rfl := Option.some.inj hs
      exact .handledInline hdelivers
    · obtain rfl := Option.some.inj hs
      exact .handedOver hdelivers
  | closeCallback conn =>
    obtain ⟨hdelivers, hs⟩ := Option.ite_none_right_eq_some.mp hs
    obtain rfl := Option.some.inj hs
    exact .closeCallback hdelivers
  | errorCallback conn =>
    obtain ⟨hdelivers, hs⟩ := Option.ite_none_right_eq_some.mp hs
    obtain rfl := Option.some.inj hs
    exact .errorCallback hdelivers
  | erase handler =>
    obtain ⟨hmem, hs⟩ := Option.ite_none_right_eq_some.mp hs
    obtain rfl := Option.some.inj hs
    rw [runHandler_eq]
    exact .erase hmem.1 hmem.2
  | handled handler =>
    obtain ⟨hmem, hs⟩ := Option.ite_none_right_eq_some.mp hs
    obtain rfl := Option.some.inj hs
    exact .handled hmem.1 hmem.2
  | send batch =>
    obtain ⟨hmem, hs⟩ := Option.ite_none_right_eq_some.mp hs
    obtain rfl := Option.some.inj hs
    exact .send hmem.1
  | queueInLoop batch =>
    obtain ⟨hmem, hs⟩ := Option.ite_none_right_eq_some.mp hs
    obtain rfl := Option.some.inj hs
    exact .queueInLoop hmem.1
  | finish batch =>
    obtain ⟨hmem, hs⟩ := Option.ite_none_right_eq_some.mp hs
    obtain rfl := Option.some.inj hs
    exact .finish hmem.1
  | handleWakeup loop =>
    obtain ⟨-, hs⟩ := Option.ite_none_right_eq_some.mp hs
    obtain rfl := Option.some.inj hs
    exact .handleWakeup

variable {s : TcpServer} {conn c : ℕ}

theorem mem_holders :
    c ∈ s.holders ↔ (∃ fd, s.conns_.lookup fd = some c) ∨ (∃ batch ∈ s.batches, batch.conn = c) ∨
      (∃ handler ∈ s.handlers, handler.conn = c) ∨ ∃ phase, s.accepting = some (c, phase) := by
  have hentries : c ∈ s.conns_.entries.map (fun entry => entry.2)
      ↔ ∃ fd, s.conns_.lookup fd = some c := by
    rw [List.mem_map]
    constructor
    · rintro ⟨⟨fd, c'⟩, hmem, rfl⟩
      exact ⟨fd, AList.mem_lookup_iff.mpr hmem⟩
    · rintro ⟨fd, hlookup⟩
      exact ⟨⟨fd, c⟩, AList.mem_lookup_iff.mp hlookup, rfl⟩
  have haccepting : c ∈ (s.accepting.map Prod.fst).toList ↔
      ∃ phase, s.accepting = some (c, phase) := by
    simp
  rw [holders, List.mem_append, List.mem_append, List.mem_append, hentries, haccepting,
    List.mem_map, List.mem_map, or_assoc, or_assoc]

theorem mem_holders_of_entry {fd : ℕ} (h : s.conns_.lookup fd = some c) : c ∈ s.holders :=
  mem_holders.mpr (.inl ⟨fd, h⟩)

theorem mem_holders_of_batch {batch : Batch} (h : batch ∈ s.batches) :
    batch.conn ∈ s.holders :=
  mem_holders.mpr (.inr (.inl ⟨batch, h, rfl⟩))

theorem mem_holders_of_handler {handler : Handler} (h : handler ∈ s.handlers) :
    handler.conn ∈ s.holders :=
  mem_holders.mpr (.inr (.inr (.inl ⟨handler, h, rfl⟩)))

theorem mem_holders_of_accepting {phase : AcceptPhase} (h : s.accepting = some (c, phase)) :
    c ∈ s.holders :=
  mem_holders.mpr (.inr (.inr (.inr ⟨phase, h⟩)))

/-- **Every holder of one state holds in another**, kind by kind. -/
theorem holders_subset {s s' : TcpServer}
    (hconns : ∀ fd c, s.conns_.lookup fd = some c → c ∈ s'.holders)
    (hbatches : ∀ batch ∈ s.batches, batch.conn ∈ s'.holders)
    (hhandlers : ∀ handler ∈ s.handlers, handler.conn ∈ s'.holders)
    (haccepting : ∀ c phase, s.accepting = some (c, phase) → c ∈ s'.holders) :
    ∀ c ∈ s.holders, c ∈ s'.holders := by
  intro c hc
  rcases mem_holders.mp hc with ⟨fd, hentry⟩ | ⟨batch, hmem, rfl⟩ | ⟨handler, hmem, rfl⟩ |
    ⟨phase, hphase⟩
  · exact hconns fd c hentry
  · exact hbatches batch hmem
  · exact hhandlers handler hmem
  · exact haccepting c phase hphase

@[simp] theorem connection_modify_self (s : TcpServer) (conn : ℕ)
    (f : ServerConnection → ServerConnection) :
    (s.modify conn f).connection conn = f (s.connection conn) :=
  Function.update_self ..

theorem connection_modify_of_ne (s : TcpServer) (h : c ≠ conn)
    (f : ServerConnection → ServerConnection) :
    (s.modify conn f).connection c = s.connection c :=
  Function.update_of_ne h ..

/-- A connection keeps its descriptor and its loop. -/
theorem fd_modify (s : TcpServer) {f : ServerConnection → ServerConnection}
    (hf : ∀ c, (f c).fd = c.fd) (c : ℕ) :
    ((s.modify conn f).connection c).fd = (s.connection c).fd := by
  by_cases hc : c = conn
  · rw [hc, connection_modify_self, hf]
  · rw [connection_modify_of_ne s hc]

theorem loop_modify (s : TcpServer) {f : ServerConnection → ServerConnection}
    (hf : ∀ c, (f c).loop_ = c.loop_) (c : ℕ) :
    ((s.modify conn f).connection c).loop_ = (s.connection c).loop_ := by
  by_cases hc : c = conn
  · rw [hc, connection_modify_self, hf]
  · rw [connection_modify_of_ne s hc]

/-! ## What is always true -/

/-- **What is always true of the server.** -/
structure Inv (s : TcpServer) : Prop where
  /-- An entry is a connection under its own descriptor, -/
  entry_fd : ∀ fd c, s.conns_.lookup fd = some c → (s.connection c).fd = fd
  /-- which is connected, or about to be erased. -/
  entry_open : ∀ fd c, s.conns_.lookup fd = some c → (s.connection c).disConnect = true →
    ∃ handler ∈ s.handlers, handler.conn = c ∧ handler.erased = false
  listed : ∀ c < s.made, s.accepting ≠ some (c, .made) → (s.connection c).disConnect = false →
    s.conns_.lookup (s.connection c).fd = some c
  unlisted : ∀ c, s.accepting = some (c, .made) → ∀ fd, s.conns_.lookup fd ≠ some c
  holders_lt : ∀ c ∈ s.holders, c < s.made
  /-- A task is in the queue of its connection's loop. -/
  taskqueue_loop : ∀ loop, ∀ c ∈ s.taskqueue_ loop, c < s.made ∧ (s.connection c).loop_ = loop
  /-- Connections that exist have different descriptors. -/
  fd_inj : ∀ c ∈ s.holders, ∀ c' ∈ s.holders, (s.connection c).fd = (s.connection c').fd → c = c'
  /-- A connection that is not registered yet is known to nobody else. -/
  early : ∀ c phase, s.accepting = some (c, phase) → phase ≠ .reading →
    (s.connection c).disConnect = false ∧ (s.connection c).inepoll_ = false ∧
      (∀ batch ∈ s.batches, batch.conn ≠ c) ∧ ∀ loop, c ∉ s.taskqueue_ loop
  registered : ∀ c, (s.connection c).inepoll_ = true →
    c < s.made ∧ (s.connection c).disConnect = false
  handler_open : ∀ handler ∈ s.handlers, (s.connection handler.conn).disConnect = true ∧
    (handler.erased = false →
      s.conns_.lookup (s.connection handler.conn).fd = some handler.conn)
  handlers_nodup : (s.handlers.map Handler.conn).Nodup

theorem inv_init : Inv {} where
  entry_fd fd c h := (by cases h)
  entry_open fd c h := (by cases h)
  listed c h := absurd h (Nat.not_lt_zero c)
  unlisted c h := (by cases h)
  holders_lt c h := absurd h List.not_mem_nil
  taskqueue_loop loop c h := absurd h List.not_mem_nil
  fd_inj c h := absurd h List.not_mem_nil
  early c phase h := (by cases h)
  registered c h := absurd h Bool.false_ne_true
  handler_open handler h := absurd h List.not_mem_nil
  handlers_nodup := List.nodup_nil

/-- A connection that is registered for reading is in the map. -/
theorem Inv.lookup_of_registered (h : Inv s) (hreg : (s.connection c).inepoll_ = true) :
    s.conns_.lookup (s.connection c).fd = some c := by
  obtain ⟨hlt, hopen⟩ := h.registered c hreg
  refine h.listed c hlt (fun hmade => ?_) hopen
  have hearly := (h.early c _ hmade AcceptPhase.noConfusion).2.1
  rw [hreg] at hearly
  cases hearly

theorem Inv.mem_holders_of_registered (h : Inv s) (hreg : (s.connection c).inepoll_ = true) :
    c ∈ s.holders :=
  mem_holders_of_entry (h.lookup_of_registered hreg)

/-- **A connection is made**, under a descriptor that no other one has. -/
theorem Inv.accept (h : Inv s) {fd : ℕ} (loop : ℕ) (haccepting : s.accepting = none)
    (hfd : ∀ conn ∈ s.holders, (s.connection conn).fd ≠ fd) :
    Inv { s with
      made := s.made + 1
      connection := Function.update s.connection s.made { fd := fd, loop_ := loop }
      accepting := some (s.made, .made) } := by
  generalize hs' : ({ s with
      made := s.made + 1
      connection := Function.update s.connection s.made { fd := fd, loop_ := loop }
      accepting := some (s.made, .made) } : TcpServer) = s'
  have hnew : s'.connection s.made = { fd := fd, loop_ := loop } := by
    rw [← hs']
    exact Function.update_self ..
  have hold : ∀ c, c ≠ s.made → s'.connection c = s.connection c := by
    intro c hc
    rw [← hs']
    exact Function.update_of_ne hc ..
  have hholders : ∀ c, c ∈ s'.holders ↔ c ∈ s.holders ∨ c = s.made := by
    intro c
    rw [mem_holders, mem_holders, ← hs', haccepting]
    simp [eq_comm, or_assoc]
  have hne : ∀ c ∈ s.holders, c ≠ s.made := fun c hc => Nat.ne_of_lt (h.holders_lt c hc)
  have hmem : ∀ {fd c}, s.conns_.lookup fd = some c → c ∈ s.holders := mem_holders_of_entry
  have hhandler : ∀ handler ∈ s.handlers, handler.conn ≠ s.made := fun handler hhandler =>
    hne _ (mem_holders_of_handler hhandler)
  have hlookup : s'.conns_ = s.conns_ := by rw [← hs']
  have hhandlers : s'.handlers = s.handlers := by rw [← hs']
  have hmade : s'.made = s.made + 1 := by rw [← hs']
  have haccepting' : s'.accepting = some (s.made, .made) := by rw [← hs']
  have htasks : s'.taskqueue_ = s.taskqueue_ := by rw [← hs']
  have hbatches : s'.batches = s.batches := by rw [← hs']
  clear hs'
  refine ⟨fun fd c hc => ?_, fun fd c hc hopen => ?_, fun c hc hphase hopen => ?_,
    fun c hc fd => ?_, fun c hc => ?_, fun loop c hc => ?_, fun c hc c' hc' heq => ?_,
    fun c phase hc _ => ?_, fun c hc => ?_, fun handler hc => ?_, ?_⟩
  · rw [hlookup] at hc
    rw [hold c (hne c (hmem hc))]
    exact h.entry_fd fd c hc
  · rw [hlookup] at hc
    rw [hold c (hne c (hmem hc))] at hopen
    rw [hhandlers]
    exact h.entry_open fd c hc hopen
  · have hc' : c ≠ s.made := by
      rintro rfl
      exact hphase haccepting'
    rw [hold c hc'] at hopen ⊢
    rw [hlookup]
    refine h.listed c (by omega) (fun heq => ?_) hopen
    rw [haccepting] at heq
    cases heq
  · rw [haccepting'] at hc
    obtain ⟨rfl, -⟩ := Prod.mk.inj (Option.some.inj hc)
    rw [hlookup]
    exact fun hc' => hne _ (hmem hc') rfl
  · rw [hmade]
    rcases (hholders c).mp hc with hc | rfl
    · exact Nat.lt_succ_of_lt (h.holders_lt c hc)
    · exact Nat.lt_succ_self _
  · rw [htasks] at hc
    obtain ⟨hlt, hloop⟩ := h.taskqueue_loop loop c hc
    rw [hmade, hold c (Nat.ne_of_lt hlt)]
    exact ⟨Nat.lt_succ_of_lt hlt, hloop⟩
  · rcases (hholders c).mp hc with hc | rfl <;> rcases (hholders c').mp hc' with hc' | rfl
    · rw [hold c (hne c hc), hold c' (hne c' hc')] at heq
      exact h.fd_inj c hc c' hc' heq
    · rw [hold c (hne c hc), hnew] at heq
      exact absurd heq (hfd c hc)
    · rw [hold c' (hne c' hc'), hnew] at heq
      exact absurd heq.symm (hfd c' hc')
    · rfl
  · rw [haccepting'] at hc
    obtain ⟨rfl, -⟩ := Prod.mk.inj (Option.some.inj hc)
    rw [hnew, hbatches, htasks]
    refine ⟨rfl, rfl, fun batch hbatch => ?_, fun loop hmem => ?_⟩
    · exact hne _ (mem_holders_of_batch hbatch)
    · exact Nat.ne_of_lt (h.taskqueue_loop loop _ hmem).1 rfl
  · have hc' : c ≠ s.made := by
      rintro rfl
      rw [hnew] at hc
      cases hc
    rw [hold c hc'] at hc ⊢
    rw [hmade]
    exact ⟨Nat.lt_succ_of_lt (h.registered c hc).1, (h.registered c hc).2⟩
  · rw [hhandlers] at hc
    rw [hold _ (hhandler handler hc), hlookup]
    exact h.handler_open handler hc
  · rw [hhandlers]
    exact h.handlers_nodup

/-- Nothing is under the descriptor of a connection that is about to be put
into the map. -/
theorem Inv.lookup_of_made (h : Inv s) (haccepting : s.accepting = some (conn, .made)) :
    s.conns_.lookup (s.connection conn).fd = none := by
  cases hlookup : s.conns_.lookup (s.connection conn).fd with
  | none => rfl
  | some c =>
    obtain rfl := h.fd_inj c (mem_holders_of_entry hlookup) conn
      (mem_holders_of_accepting haccepting) (h.entry_fd _ _ hlookup)
    exact absurd hlookup (h.unlisted c haccepting _)

/-- **A connection is put into the map.** -/
theorem Inv.newConnection (h : Inv s) (haccepting : s.accepting = some (conn, .made)) :
    Inv { s with
      conns_ := s.conns_.insert (s.connection conn).fd conn
      accepting := some (conn, .listed) } := by
  have hnone := h.lookup_of_made haccepting
  have hconn : conn ∈ s.holders := mem_holders_of_accepting haccepting
  have hlookup : ∀ {fd c}, (s.conns_.insert (s.connection conn).fd conn).lookup fd = some c →
      s.conns_.lookup fd = some c ∨ fd = (s.connection conn).fd ∧ c = conn := by
    intro fd c hc
    by_cases hfd : fd = (s.connection conn).fd
    · rw [hfd, AList.lookup_insert] at hc
      exact .inr ⟨hfd, (Option.some.inj hc).symm⟩
    · rw [AList.lookup_insert_ne hfd] at hc
      exact .inl hc
  have hkeep : ∀ {fd c}, s.conns_.lookup fd = some c →
      (s.conns_.insert (s.connection conn).fd conn).lookup fd = some c := by
    intro fd c hc
    rw [AList.lookup_insert_ne, hc]
    rintro rfl
    rw [hnone] at hc
    cases hc
  have hholders : ∀ c, c ∈ holders { s with
      conns_ := s.conns_.insert (s.connection conn).fd conn
      accepting := some (conn, .listed) } → c ∈ s.holders := by
    refine holders_subset (fun fd c hc => ?_) (fun _ hmem => mem_holders_of_batch hmem)
      (fun _ hmem => mem_holders_of_handler hmem) fun c phase hc => ?_
    · rcases hlookup hc with hc | ⟨-, rfl⟩
      · exact mem_holders_of_entry hc
      · exact hconn
    · obtain ⟨rfl, -⟩ := Prod.mk.inj (Option.some.inj hc)
      exact hconn
  have hearly := h.early conn _ haccepting AcceptPhase.noConfusion
  exact { h with
    entry_fd := fun fd c hc => by
      rcases hlookup hc with hc | ⟨rfl, rfl⟩
      · exact h.entry_fd fd c hc
      · rfl
    entry_open := fun fd c hc hopen => by
      rcases hlookup hc with hc | ⟨rfl, rfl⟩
      · exact h.entry_open fd c hc hopen
      · exact absurd (hearly.1.symm.trans hopen) Bool.false_ne_true
    listed := fun c hc _ hopen => by
      by_cases hconn : c = conn
      · subst hconn
        exact AList.lookup_insert ..
      · refine hkeep (h.listed c hc (fun heq => hconn ?_) hopen)
        rw [haccepting] at heq
        exact (Prod.mk.inj (Option.some.inj heq)).1.symm
    unlisted := fun c hc => by
      obtain ⟨-, hphase⟩ := Prod.mk.inj (Option.some.inj hc)
      cases hphase
    holders_lt := fun c hc => h.holders_lt c (hholders c hc)
    fd_inj := fun c hc c' hc' => h.fd_inj c (hholders c hc) c' (hholders c' hc')
    early := fun c phase hc _ => by
      obtain ⟨rfl, -⟩ := Prod.mk.inj (Option.some.inj hc)
      exact hearly
    handler_open := fun handler hmem =>
      ⟨(h.handler_open handler hmem).1, fun herased =>
        hkeep ((h.handler_open handler hmem).2 herased)⟩ }

/-- Nothing but the registration of a connection changes. -/
theorem Inv.register (h : Inv s) (hlt : conn < s.made)
    (hopen : (s.connection conn).disConnect = false)
    (hreading : ∀ phase, s.accepting = some (conn, phase) → phase = .reading) :
    Inv (s.modify conn (fun c => { c with inepoll_ := true })) := by
  have hfd : ∀ c, ((s.modify conn (fun c => { c with inepoll_ := true })).connection c).fd
      = (s.connection c).fd := fd_modify s fun _ => rfl
  have hdis : ∀ c, ((s.modify conn (fun c => { c with inepoll_ := true })).connection c).disConnect
      = (s.connection c).disConnect := by
    intro c
    by_cases hc : c = conn
    · rw [hc, connection_modify_self]
    · rw [connection_modify_of_ne s hc]
  have hloop : ∀ c, ((s.modify conn (fun c => { c with inepoll_ := true })).connection c).loop_
      = (s.connection c).loop_ := loop_modify s fun _ => rfl
  refine ⟨fun fd c hc => ?_, fun fd c hc ho => ?_, fun c hc hphase ho => ?_, h.unlisted,
    h.holders_lt, fun loop c hc => ?_, fun c hc c' hc' heq => ?_, fun c phase hc hphase => ?_,
    fun c hc => ?_, fun handler hc => ?_, h.handlers_nodup⟩
  · rw [hfd]
    exact h.entry_fd fd c hc
  · rw [hdis] at ho
    exact h.entry_open fd c hc ho
  · rw [hdis] at ho
    rw [hfd]
    exact h.listed c hc hphase ho
  · rw [hloop]
    exact h.taskqueue_loop loop c hc
  · rw [hfd, hfd] at heq
    exact h.fd_inj c hc c' hc' heq
  · have hne : c ≠ conn := by
      rintro rfl
      exact hphase (hreading phase hc)
    rw [connection_modify_of_ne s hne]
    exact h.early c phase hc hphase
  · rw [hdis]
    by_cases hc' : c = conn
    · rw [hc']
      exact ⟨hlt, hopen⟩
    · rw [connection_modify_of_ne s hc'] at hc
      exact h.registered c hc
  · rw [hdis, hfd]
    exact h.handler_open handler hc

/-- **`newConnection` goes on** with a connection that is in `conns_`, or
returns. -/
theorem Inv.toReading (h : Inv s) {phase : AcceptPhase}
    (haccepting : s.accepting = some (conn, phase)) (hphase : phase ≠ .made)
    {accepting : Option (ℕ × AcceptPhase)} (hnext : ∀ c ∈ accepting, c = (conn, .reading)) :
    Inv { s with accepting := accepting } := by
  have hholders : ∀ c, c ∈ holders { s with accepting := accepting } → c ∈ s.holders := by
    refine holders_subset (fun _ _ hc => mem_holders_of_entry hc)
      (fun _ hmem => mem_holders_of_batch hmem)
      (fun _ hmem => mem_holders_of_handler hmem) fun c phase' hc => ?_
    obtain ⟨rfl, -⟩ := Prod.mk.inj (hnext _ hc)
    exact mem_holders_of_accepting haccepting
  exact { h with
    listed := fun c hc _ hopen => h.listed c hc (fun heq => by
      rw [haccepting] at heq
      exact hphase (Prod.mk.inj (Option.some.inj heq)).2) hopen
    unlisted := fun c hc => absurd (Prod.mk.inj (hnext _ hc)).2 AcceptPhase.noConfusion
    holders_lt := fun c hc => h.holders_lt c (hholders c hc)
    fd_inj := fun c hc c' hc' => h.fd_inj c (hholders c hc) c' (hholders c' hc')
    early := fun c phase' hc hphase' => absurd (Prod.mk.inj (hnext _ hc)).2 hphase' }

/-- **A connection is registered for reading.** -/
theorem Inv.enableReading (h : Inv s) (haccepting : s.accepting = some (conn, .listed)) :
    Inv { s.modify conn (fun c => { c with inepoll_ := true }) with
      accepting := some (conn, .reading) } := by
  have hlt := h.holders_lt conn (mem_holders_of_accepting haccepting)
  have hearly := h.early conn _ haccepting AcceptPhase.noConfusion
  have hreading : Inv { s with accepting := some (conn, .reading) } :=
    h.toReading haccepting AcceptPhase.noConfusion fun _ hc => (Option.some.inj hc).symm
  refine hreading.register hlt hearly.1 fun phase hphase => ?_
  exact (Prod.mk.inj (Option.some.inj hphase)).2.symm

/-- **`newConnection` returns.** -/
theorem Inv.accepted (h : Inv s) (haccepting : s.accepting = some (conn, .reading)) :
    Inv { s with accepting := none } := by
  refine h.toReading haccepting AcceptPhase.noConfusion fun _ hc => ?_
  cases hc

/-- **A handler begins.** -/
theorem Inv.disconnect (h : Inv s) (hreg : (s.connection conn).inepoll_ = true)
    (kind : HandlerKind) : Inv (s.disconnect conn kind) := by
  obtain ⟨hlt, hopen⟩ := h.registered conn hreg
  have hlookup := h.lookup_of_registered hreg
  have hconn := h.mem_holders_of_registered hreg
  have hnew : ∀ handler ∈ s.handlers, handler.conn ≠ conn := by
    rintro handler hmem rfl
    rw [(h.handler_open handler hmem).1] at hopen
    cases hopen
  have hfd : ∀ c, ((s.disconnect conn kind).connection c).fd = (s.connection c).fd :=
    fd_modify s (f := fun c => { c with disConnect := true, inepoll_ := false }) fun _ => rfl
  have hself : (s.disconnect conn kind).connection conn
      = { s.connection conn with disConnect := true, inepoll_ := false } :=
    connection_modify_self s conn fun c => { c with disConnect := true, inepoll_ := false }
  have hother : ∀ c, c ≠ conn → (s.disconnect conn kind).connection c = s.connection c :=
    fun c hc => connection_modify_of_ne s hc
      fun c => { c with disConnect := true, inepoll_ := false }
  have hholders : ∀ c, c ∈ (s.disconnect conn kind).holders → c ∈ s.holders := by
    refine holders_subset (fun _ _ hc => mem_holders_of_entry hc)
      (fun _ hmem => mem_holders_of_batch hmem)
      (fun handler hmem => ?_) fun _ _ hc => mem_holders_of_accepting hc
    rcases List.mem_cons.mp hmem with rfl | hmem
    · exact hconn
    · exact mem_holders_of_handler hmem
  have hloop : ∀ c, ((s.disconnect conn kind).connection c).loop_ = (s.connection c).loop_ :=
    loop_modify s (f := fun c => { c with disConnect := true, inepoll_ := false }) fun _ => rfl
  refine ⟨fun fd c hc => ?_, fun fd c hc ho => ?_, fun c hc hphase ho => ?_, h.unlisted,
    fun c hc => h.holders_lt c (hholders c hc),
    fun loop c hc => (hloop c).symm ▸ h.taskqueue_loop loop c hc,
    fun c hc c' hc' heq => ?_, fun c phase hc hphase => ?_, fun c hc => ?_,
    fun handler hmem => ?_, ?_⟩
  · rw [hfd]
    exact h.entry_fd fd c hc
  · by_cases hc' : c = conn
    · exact ⟨_, List.mem_cons_self .., hc'.symm, rfl⟩
    · rw [hother c hc'] at ho
      obtain ⟨handler, hmem, hhandler⟩ := h.entry_open fd c hc ho
      exact ⟨handler, List.mem_cons_of_mem _ hmem, hhandler⟩
  · have hc' : c ≠ conn := by
      rintro rfl
      rw [hself] at ho
      cases ho
    rw [hother c hc'] at ho ⊢
    exact h.listed c hc hphase ho
  · rw [hfd, hfd] at heq
    exact h.fd_inj c (hholders c hc) c' (hholders c' hc') heq
  · have hearly := h.early c phase hc hphase
    have hc' : c ≠ conn := by
      rintro rfl
      rw [hearly.2.1] at hreg
      cases hreg
    rw [hother c hc']
    exact hearly
  · have hc' : c ≠ conn := by
      rintro rfl
      rw [hself] at hc
      cases hc
    rw [hother c hc'] at hc ⊢
    exact h.registered c hc
  · rcases List.mem_cons.mp hmem with rfl | hmem
    · exact ⟨congrArg ServerConnection.disConnect hself, fun _ => (hfd conn).symm ▸ hlookup⟩
    · rw [hother _ (hnew handler hmem)]
      exact h.handler_open handler hmem
  · refine List.nodup_cons.mpr ⟨fun hmem => ?_, h.handlers_nodup⟩
    obtain ⟨handler, hmem, heq⟩ := List.mem_map.mp hmem
    exact hnew handler hmem heq

/-- **The entry of a connection is erased.** -/
theorem Inv.erase (h : Inv s) {handler : Handler} (hmem : handler ∈ s.handlers)
    (hnot : handler.erased = false) :
    Inv { s.eraseConnection handler.conn with
      handlers := { handler with erased := true } :: s.handlers.erase handler } := by
  have hself := (h.handler_open handler hmem).2 hnot
  have hlookup : ∀ {fd c}, (s.eraseConnection handler.conn).conns_.lookup fd = some c →
      s.conns_.lookup fd = some c ∧ c ≠ handler.conn := by
    intro fd c hc
    have hfd : fd ≠ (s.connection handler.conn).fd := by
      rintro rfl
      exact absurd (hc.symm.trans (AList.lookup_erase _ _)) (fun h => (by cases h))
    have hold : s.conns_.lookup fd = some c := (AList.lookup_erase_ne hfd).symm.trans hc
    refine ⟨hold, ?_⟩
    rintro rfl
    exact hfd (h.entry_fd _ _ hold).symm
  have hkeep : ∀ {fd c}, s.conns_.lookup fd = some c → c ≠ handler.conn →
      (s.eraseConnection handler.conn).conns_.lookup fd = some c := by
    intro fd c hc hne
    refine (AList.lookup_erase_ne ?_).trans hc
    rintro rfl
    rw [hself] at hc
    exact hne (Option.some.inj hc).symm
  have hmap : ({ handler with erased := true } :: s.handlers.erase handler).map Handler.conn
      = (handler :: s.handlers.erase handler).map Handler.conn := rfl
  have hperm : s.handlers.Perm (handler :: s.handlers.erase handler) := List.perm_cons_erase hmem
  have hholders : ∀ c, c ∈ holders { s.eraseConnection handler.conn with
      handlers := { handler with erased := true } :: s.handlers.erase handler } →
      c ∈ s.holders := by
    refine holders_subset (fun _ _ hc => mem_holders_of_entry (hlookup hc).1)
      (fun _ hmem => mem_holders_of_batch hmem) (fun handler' hmem' => ?_)
      fun _ _ hc => mem_holders_of_accepting hc
    rcases List.mem_cons.mp hmem' with rfl | hmem'
    · exact (mem_holders_of_handler hmem : handler.conn ∈ s.holders)
    · exact mem_holders_of_handler (List.mem_of_mem_erase hmem')
  refine ⟨fun fd c hc => h.entry_fd fd c (hlookup hc).1, fun fd c hc ho => ?_,
    fun c hc hphase ho => ?_, fun c hc fd hc' => h.unlisted c hc fd (hlookup hc').1,
    fun c hc => h.holders_lt c (hholders c hc), h.taskqueue_loop,
    fun c hc c' hc' => h.fd_inj c (hholders c hc) c' (hholders c' hc'), h.early, h.registered,
    fun handler' hmem' => ?_, ?_⟩
  · obtain ⟨hold, hne⟩ := hlookup hc
    obtain ⟨handler', hmem', hconn, herased⟩ := h.entry_open fd c hold ho
    refine ⟨handler', List.mem_cons_of_mem _ ((List.mem_erase_of_ne ?_).mpr hmem'), hconn, herased⟩
    rintro rfl
    exact hne hconn.symm
  · refine hkeep (h.listed c hc hphase ho) ?_
    rintro rfl
    exact absurd ((h.handler_open handler hmem).1.symm.trans ho) Bool.noConfusion
  · rcases List.mem_cons.mp hmem' with rfl | hmem'
    · exact ⟨(h.handler_open handler hmem).1, fun herased => (by cases herased)⟩
    · have hold := List.mem_of_mem_erase hmem'
      refine ⟨(h.handler_open handler' hold).1, fun herased =>
        hkeep ((h.handler_open handler' hold).2 herased) fun hconn => ?_⟩
      have hnodup := (hperm.map Handler.conn).nodup_iff.mp h.handlers_nodup
      exact (List.nodup_cons.mp hnodup).1 (List.mem_map.mpr ⟨handler', hmem', hconn⟩)
  · show (List.map Handler.conn ({ handler with erased := true } :: _)).Nodup
    rw [hmap]
    exact (hperm.map Handler.conn).nodup_iff.mp h.handlers_nodup

/-- **A handler returns.** -/
theorem Inv.handled (h : Inv s) {handler : Handler} (herased : handler.erased = true) :
    Inv { s with handlers := s.handlers.erase handler } := by
  have hholders : ∀ c, c ∈ holders { s with handlers := s.handlers.erase handler } →
      c ∈ s.holders :=
    holders_subset (fun _ _ hc => mem_holders_of_entry hc) (fun _ hmem => mem_holders_of_batch hmem)
      (fun _ hmem => mem_holders_of_handler (List.mem_of_mem_erase hmem))
      fun _ _ hc => mem_holders_of_accepting hc
  exact { h with
    entry_open := fun fd c hc ho => by
      obtain ⟨handler', hmem, hconn, hnot⟩ := h.entry_open fd c hc ho
      refine ⟨handler', (List.mem_erase_of_ne ?_).mpr hmem, hconn, hnot⟩
      rintro rfl
      rw [herased] at hnot
      cases hnot
    holders_lt := fun c hc => h.holders_lt c (hholders c hc)
    fd_inj := fun c hc c' hc' => h.fd_inj c (hholders c hc) c' (hholders c' hc')
    handler_open := fun handler' hmem => h.handler_open handler' (List.mem_of_mem_erase hmem)
    handlers_nodup := h.handlers_nodup.sublist
      ((List.erase_sublist (a := handler) (l := s.handlers)).map Handler.conn) }

/-- A worker that goes on has the batch it had. -/
theorem exists_batch {batch batch' : Batch} {phase : BatchPhase} (hmem : batch ∈ s.batches)
    (hmem' : batch' ∈ { batch with phase := phase } :: s.batches.erase batch) :
    ∃ batch ∈ s.batches, batch.conn = batch'.conn := by
  rcases List.mem_cons.mp hmem' with rfl | hmem'
  · exact ⟨batch, hmem, rfl⟩
  · exact ⟨batch', List.mem_of_mem_erase hmem', rfl⟩

/-- What is in a queue once a task was pushed. -/
theorem mem_pushed {taskqueue_ : ℕ → List ℕ} {loop loop' : ℕ}
    (h : c ∈ Function.update taskqueue_ loop (taskqueue_ loop ++ [conn]) loop') :
    c ∈ taskqueue_ loop' ∨ loop' = loop ∧ c = conn := by
  by_cases hloop : loop' = loop
  · subst hloop
    rw [Function.update_self] at h
    rcases List.mem_append.mp h with h | h
    · exact .inl h
    · exact .inr ⟨rfl, List.mem_singleton.mp h⟩
  · rw [Function.update_of_ne hloop] at h
    exact .inl h

/-- What is in a queue once one was drained. -/
theorem mem_drained {taskqueue_ : ℕ → List ℕ} {loop loop' : ℕ}
    (h : c ∈ Function.update taskqueue_ loop [] loop') : c ∈ taskqueue_ loop' := by
  by_cases hloop : loop' = loop
  · subst hloop
    rw [Function.update_self] at h
    cases h
  · rwa [Function.update_of_ne hloop] at h

/-- **The workers and the queues** of connections that were registered. -/
theorem Inv.of_batches (h : Inv s) {batches : List Batch} {taskqueue_ : ℕ → List ℕ}
    (hbatches : ∀ batch ∈ batches, (∃ batch' ∈ s.batches, batch'.conn = batch.conn) ∨
      (s.connection batch.conn).inepoll_ = true)
    (htasks : ∀ loop, ∀ c ∈ taskqueue_ loop, c ∈ s.taskqueue_ loop ∨
      (∃ batch ∈ s.batches, batch.conn = c) ∧ (s.connection c).loop_ = loop) :
    Inv { s with batches := batches, taskqueue_ := taskqueue_ } := by
  have hholders : ∀ c, c ∈ holders { s with batches := batches, taskqueue_ := taskqueue_ } →
      c ∈ s.holders := by
    refine holders_subset (fun _ _ hc => mem_holders_of_entry hc) (fun batch hmem => ?_)
      (fun _ hmem => mem_holders_of_handler hmem) fun _ _ hc => mem_holders_of_accepting hc
    rcases hbatches batch hmem with ⟨batch', hmem', heq⟩ | hreg
    · exact heq ▸ mem_holders_of_batch hmem'
    · exact h.mem_holders_of_registered hreg
  exact { h with
    holders_lt := fun c hc => h.holders_lt c (hholders c hc)
    taskqueue_loop := fun loop c hc => by
      rcases htasks loop c hc with hc | ⟨⟨batch, hmem, rfl⟩, hloop⟩
      · exact h.taskqueue_loop loop c hc
      · exact ⟨h.holders_lt _ (mem_holders_of_batch hmem), hloop⟩
    fd_inj := fun c hc c' hc' => h.fd_inj c (hholders c hc) c' (hholders c' hc')
    early := fun c phase hc hphase => by
      obtain ⟨hopen, hreg, hnobatch, hnotask⟩ := h.early c phase hc hphase
      refine ⟨hopen, hreg, fun batch hmem hconn => ?_, fun loop hmem => ?_⟩
      · rcases hbatches batch hmem with ⟨batch', hmem', heq⟩ | hreg'
        · exact hnobatch batch' hmem' (heq.trans hconn)
        · exact absurd (hreg.symm.trans (hconn ▸ hreg')) Bool.noConfusion
      · rcases htasks loop c hmem with hmem | ⟨⟨batch, hmem, hconn⟩, -⟩
        · exact hnotask loop hmem
        · exact hnobatch batch hmem hconn }

theorem Inv.regSend (h : Inv s) (hlt : conn < s.made)
    (hreading : ∀ phase, s.accepting = some (conn, phase) → phase = .reading) :
    Inv (s.regSend conn) := by
  rw [TcpServer.regSend]
  split
  · exact h
  · exact h.register hlt (Bool.not_eq_true _ ▸ ‹¬ _›) hreading

/-- What `regSend` leaves alone. -/
theorem regSend_eq (s : TcpServer) (conn : ℕ) :
    ∃ connection, s.regSend conn = { s with connection := connection } := by
  rw [regSend]
  split
  · exact ⟨s.connection, rfl⟩
  · exact ⟨_, rfl⟩

theorem foldl_regSend_eq (s : TcpServer) (tasks : List ℕ) :
    ∃ connection, tasks.foldl TcpServer.regSend s = { s with connection := connection } := by
  induction tasks generalizing s with
  | nil => exact ⟨s.connection, rfl⟩
  | cons conn tasks ih =>
    obtain ⟨connection, hconn⟩ := s.regSend_eq conn
    obtain ⟨connection', hrest⟩ := ih (s.regSend conn)
    refine ⟨connection', ?_⟩
    rw [List.foldl_cons, hrest, hconn]

theorem Inv.foldl_regSend (h : Inv s) (tasks : List ℕ)
    (htasks : ∀ c ∈ tasks, c < s.made ∧
      ∀ phase, s.accepting = some (c, phase) → phase = .reading) :
    Inv (tasks.foldl TcpServer.regSend s) := by
  induction tasks generalizing s with
  | nil => exact h
  | cons conn tasks ih =>
    obtain ⟨hlt, hreading⟩ := htasks conn (List.mem_cons_self ..)
    obtain ⟨connection, hconn⟩ := s.regSend_eq conn
    refine ih (h.regSend hlt hreading) fun c hc => ?_
    rw [hconn]
    exact htasks c (List.mem_cons_of_mem _ hc)

/-- **A loop drains its queue.** -/
theorem Inv.handleWakeup (h : Inv s) (loop : ℕ) :
    Inv { (s.taskqueue_ loop).foldl TcpServer.regSend s with
      taskqueue_ := Function.update s.taskqueue_ loop [] } := by
  have hdrained : Inv ((s.taskqueue_ loop).foldl TcpServer.regSend s) := by
    refine h.foldl_regSend _ fun c hc => ⟨(h.taskqueue_loop loop c hc).1, fun phase hphase => ?_⟩
    by_contra hne
    exact (h.early c phase hphase hne).2.2.2 loop hc
  obtain ⟨connection, heq⟩ := s.foldl_regSend_eq (s.taskqueue_ loop)
  refine hdrained.of_batches (fun batch hmem => .inl ⟨batch, hmem, rfl⟩) fun loop' c hc => .inl ?_
  rw [heq]
  exact mem_drained hc

/-- **Every step keeps the server in order.** -/
theorem Inv.step (h : Inv s) {cfg : TcpServerConfig} {l : TcpServerStep} {s' : TcpServer}
    (hs : TcpServer.step cfg s l = some s') : Inv s' := by
  cases steps_of_step hs with
  | accept hnone hfd => exact h.accept _ hnone hfd
  | newConnection haccepting => exact h.newConnection haccepting
  | enableReading haccepting => exact h.enableReading haccepting
  | accepted haccepting => exact h.accepted haccepting
  | @handledInline conn hdelivers =>
    refine h.regSend (h.registered conn hdelivers.1).1 fun phase hphase => ?_
    by_contra hne
    exact absurd ((h.early conn phase hphase hne).2.1.symm.trans hdelivers.1) Bool.noConfusion
  | @handedOver conn hdelivers =>
    refine h.of_batches (fun batch hmem => ?_) fun _ _ => .inl
    rcases List.mem_cons.mp hmem with rfl | hmem
    · exact .inr hdelivers.1
    · exact .inl ⟨batch, hmem, rfl⟩
  | closeCallback hdelivers => exact h.disconnect hdelivers.1 .close
  | errorCallback hdelivers => exact h.disconnect hdelivers.1 .error
  | erase hmem hnot => exact h.erase hmem hnot
  | handled _ herased => exact h.handled herased
  | send hmem =>
    exact h.of_batches (fun _ hmem' => .inl (exists_batch hmem hmem')) fun _ _ => .inl
  | @queueInLoop batch hmem =>
    refine h.of_batches (fun _ hmem' => .inl (exists_batch hmem hmem')) fun loop c hc => ?_
    rcases mem_pushed hc with hc | ⟨rfl, rfl⟩
    · exact .inl hc
    · exact .inr ⟨⟨batch, hmem, rfl⟩, rfl⟩
  | finish _ =>
    exact h.of_batches (fun batch hmem => .inl ⟨batch, List.mem_of_mem_erase hmem, rfl⟩)
      fun _ _ => .inl
  | handleWakeup => exact h.handleWakeup _

/-- **The server is always in order.** -/
theorem inv_of_runs {cfg : TcpServerConfig} {ok : TcpServer → TcpServerStep → Prop}
    (hrun : Runs (step cfg) ok {} s) : Inv s :=
  hrun.invariant (fun _ _ _ h _ hs => h.step hs) inv_init

end TcpServer

end PbRpc
