import PbRpc.Connection
import PbRpc.DecodeStream
import PbRpc.RpcDispatcher
import PbRpc.Transition

/-!
# A client and a server

The two ends of a connection, with everything that runs between a request
and its reply: the threads of the client that push requests, the two loops,
the workers of the server with their batches, and the tasks by which a
worker hands its responses to the loop. Each atomic step of a thread is a
step of the system, so that its runs are all the interleavings, with all
the ways the reads can cut the two streams and the writes fall short.

Requests arrive in the order in which they were sent and no other order is
kept: batches are finished in any order, and so replies are written in any
order. What holds is an account of every message. A request is queued, or
sent with its callback registered; then on its way, or in a batch, or
answered. A response is queued or written, and what the client has read are
the frames of the first of those that were written. `Inv` is this account,
and `repliesMatch` what follows for the callbacks.
-/

namespace PbRpc

open TinyPBCoder TinyPBProtocol Transition
open Framing (Spells)
open Connection (entryOf)
open scoped List

variable {K Message : Type}

/-- How the two programs are built and configured. -/
structure Setting where
  ov : Overflow
  /-- The number of worker threads of the server. -/
  workThread_ : ℕ
  /-- The address of the client, as the server sees it. -/
  peer : InterAddress

/-- **The two ends of a connection**, and what the server has in hand. -/
structure ConnectionPair (K : Type) where
  client : Endpoint K := { conn := { type_ := .ConnectionByClient } }
  server : Endpoint K :=
    { conn :=
        { type_ := .ConnectionByServer
          connectChannel_ := Channel.enableReading {} } }
  /-- The batches of requests that wait for a worker or are with one. -/
  pool : List (List TinyPBProtocol) := []
  /-- The tasks of the server's loop: responses for `regSend`. -/
  taskqueue_ : List (List TinyPBProtocol) := []
  /-- The calls of `dispatch`: the requests and the responses. -/
  answered : List (TinyPBProtocol × TinyPBProtocol) := []
  /-- The responses that `regSend` has encoded. -/
  replied : List TinyPBProtocol := []

/-- **The atomic steps.** The services a request meets when it is dispatched
may be different ones each time. -/
inductive PairStep (K Message : Type) where
  | push (message : TinyPBProtocol) (done : K)
  | enable
  | client (step : IoStep)
  | server (step : IoStep)
  | clientRead (n : ℕ)
  | serverRead (n : ℕ)
  | clientParse
  | serverParse (services : ℕ → RpcDispatcher Message)
  | finish (i : ℕ) (services : ℕ → RpcDispatcher Message)
  | regSend

/-- **`OnMassage`**, up to `send`: the responses to a batch. -/
def OnMassage (peer : InterAddress) :
    List TinyPBProtocol → (ℕ → RpcDispatcher Message) → List TinyPBProtocol
  | [], _ => []
  | request :: request_pkgs, services =>
    (services 0).dispatch peer request {} :: OnMassage peer request_pkgs (fun j => services (j + 1))

namespace ConnectionPair

/-- `regSend` on the server's loop. -/
def regSend (s : ConnectionPair K) (respond_pkgs : List TinyPBProtocol) : ConnectionPair K :=
  { s with
    server := { s.server with conn := s.server.conn.regSend respond_pkgs }
    replied := s.replied ++ (if s.server.conn.disConnect then [] else respond_pkgs) }

/-- `send` on a worker's thread. -/
def queueInLoop (s : ConnectionPair K) (respond_pkgs : List TinyPBProtocol) :
    ConnectionPair K :=
  if s.server.conn.disConnect then s else { s with taskqueue_ := s.taskqueue_ ++ [respond_pkgs] }

/-- The requests of a batch and the responses to them. -/
def answer (s : ConnectionPair K) (request_pkgs respond_pkgs : List TinyPBProtocol) :
    ConnectionPair K :=
  { s with answered := s.answered ++ request_pkgs.zip respond_pkgs }

/-- `HandleMessage`: without workers the loop itself answers. -/
def HandleMessage (set : Setting) (s : ConnectionPair K) (request_pkgs : List TinyPBProtocol)
    (services : ℕ → RpcDispatcher Message) : ConnectionPair K :=
  if set.workThread_ = 0 then
    let respond_pkgs := OnMassage set.peer request_pkgs services
    (s.answer request_pkgs respond_pkgs).regSend respond_pkgs
  else { s with pool := s.pool ++ [request_pkgs] }

/-- **One step of the system.** -/
def step (set : Setting) (s : ConnectionPair K) : PairStep K Message → Option (ConnectionPair K)
  | .push message done => some { s with client := s.client.push message done }
  | .enable => s.client.enable.map (fun e => { s with client := e })
  | .client step => (s.client.io step).map (fun e => { s with client := e })
  | .server step => (s.server.io step).map (fun e => { s with server := e })
  | .clientRead n =>
    (s.client.onMessage s.server n).map (fun ends => { s with client := ends.1, server := ends.2 })
  | .serverRead n =>
    (s.server.onMessage s.client n).map (fun ends => { s with server := ends.1, client := ends.2 })
  | .clientParse =>
    if s.client.phase = .idle ∧ s.client.conn.connectChannel_.registeredIn then
      match s.client.conn.decodeInput set.ov with
      | .error _ => none
      | .ok (result, conn) => some
        { s with client := { s.client with
            conn := (conn.handleReplies result).1
            invoked := s.client.invoked ++ (conn.handleReplies result).2 } }
    else none
  | .serverParse services =>
    if s.server.phase = .idle ∧ s.server.conn.connectChannel_.registeredIn then
      match s.server.conn.decodeInput set.ov with
      | .error _ => none
      | .ok (request_pkgs, conn) => some
        (HandleMessage set { s with server := { s.server with conn := conn } } request_pkgs services)
    else none
  | .finish i services =>
    match s.pool[i]? with
    | none => none
    | some request_pkgs =>
      let respond_pkgs := OnMassage set.peer request_pkgs services
      some (({ s with pool := s.pool.eraseIdx i }.answer request_pkgs respond_pkgs).queueInLoop
        respond_pkgs)
  | .regSend =>
    match s.taskqueue_ with
    | [] => none
    | respond_pkgs :: taskqueue_ =>
      if s.server.phase = .idle then
        some ({ s with taskqueue_ := taskqueue_ }.regSend respond_pkgs)
      else none

/-- The states that some run leads to. -/
def Reachable (Message : Type) (set : Setting) (s : ConnectionPair K) : Prop :=
  Runs (fun s (l : PairStep K Message) => s.step set l) anyStep {} s

/-- **What is assumed of the messages of a run**: the ids of the requests are
not empty and pairwise distinct, and the length of every frame is an
`int`. -/
structure Exchange (s : ConnectionPair K) : Prop where
  distinct : (s.client.pushed.map (fun e => e.1.msg_id_)).Nodup
  requests : ∀ e ∈ s.client.pushed, Sendable e.1
  responses : ∀ e ∈ s.answered, frameLength e.2 ≤ 2147483647

instance (s : ConnectionPair K) : Decidable (Exchange s) :=
  decidable_of_iff ((s.client.pushed.map (fun e => e.1.msg_id_)).Nodup ∧
      (∀ e ∈ s.client.pushed, Sendable e.1) ∧ ∀ e ∈ s.answered, frameLength e.2 ≤ 2147483647)
    ⟨fun h => ⟨h.1, h.2.1, h.2.2⟩, fun h => ⟨h.distinct, h.requests, h.responses⟩⟩

/-- **Replies reach the callers**: a callback runs at most once for its id,
with the one response that `dispatch` gave to the request with that id. What
the client has read are frames of responses, and where the frame of one has
arrived its callback has been registered, which means that it waits in the
table or has run. -/
structure RepliesMatch (Message : Type) (set : Setting) (s : ConnectionPair K) : Prop where
  once : (s.client.invoked.map Invocation.msg_id).Nodup
  answered_once : (s.answered.map (fun e => e.1.msg_id_)).Nodup
  own_response : ∀ i ∈ s.client.invoked, ∃ request response,
    (request, i.done) ∈ s.client.pushed ∧ request.msg_id_ = i.msg_id ∧
    (received request, response) ∈ s.answered ∧ i.message = received response ∧
    ∃ services : RpcDispatcher Message,
      response = services.dispatch set.peer (received request) {}
  read : s.client.received <+: s.replied.flatMap wire
  registered : ∀ arrived rest, s.replied = arrived ++ rest →
    arrived.flatMap wire <+: s.client.received → ∀ response ∈ arrived, ∃ request done,
      (request, done) ∈ s.client.pushed ∧ request.msg_id_ = response.msg_id_ ∧
      (s.client.conn.read_dones_.lookup response.msg_id_ = some done ∨
        ∃ i ∈ s.client.invoked, i.msg_id = response.msg_id_ ∧ i.done = done)

/-! ## What the steps do -/

section Cases

variable {set : Setting} {s s' : ConnectionPair K}
  {services : ℕ → RpcDispatcher Message}

theorem clientParse_cases (hs : s.step set (.clientParse : PairStep K Message) = some s') :
    (s.client.phase = .idle ∧ s.client.conn.connectChannel_.registeredIn) ∧
      ∃ result conn, s.client.conn.decodeInput set.ov = .ok (result, conn) ∧
        s' = { s with client := { s.client with
          conn := (conn.handleReplies result).1
          invoked := s.client.invoked ++ (conn.handleReplies result).2 } } := by
  obtain ⟨hmay, hs⟩ := Option.ite_none_right_eq_some.mp hs
  refine ⟨hmay, ?_⟩
  split at hs
  case h_1 => cases hs
  case h_2 hd => exact ⟨_, _, hd, (Option.some.inj hs).symm⟩

theorem serverParse_cases (hs : s.step set (.serverParse services) = some s') :
    (s.server.phase = .idle ∧ s.server.conn.connectChannel_.registeredIn) ∧
      ∃ request_pkgs conn, s.server.conn.decodeInput set.ov = .ok (request_pkgs, conn) ∧
        s' = HandleMessage set { s with server := { s.server with conn := conn } } request_pkgs
          services := by
  obtain ⟨hmay, hs⟩ := Option.ite_none_right_eq_some.mp hs
  refine ⟨hmay, ?_⟩
  split at hs
  case h_1 => cases hs
  case h_2 hd => exact ⟨_, _, hd, (Option.some.inj hs).symm⟩

theorem finish_cases {i : ℕ} (hs : s.step set (.finish i services) = some s') :
    ∃ request_pkgs, s.pool[i]? = some request_pkgs ∧
      s' = ({ s with pool := s.pool.eraseIdx i }.answer request_pkgs
        (OnMassage set.peer request_pkgs services)).queueInLoop
          (OnMassage set.peer request_pkgs services) := by
  rw [step] at hs
  split at hs
  case h_1 => cases hs
  case h_2 hi => exact ⟨_, hi, (Option.some.inj hs).symm⟩

theorem regSend_cases (hs : s.step set (.regSend : PairStep K Message) = some s') :
    s.server.phase = .idle ∧ ∃ respond_pkgs taskqueue_,
      s.taskqueue_ = respond_pkgs :: taskqueue_ ∧
        s' = { s with taskqueue_ := taskqueue_ }.regSend respond_pkgs := by
  rw [step] at hs
  split at hs
  case h_1 => cases hs
  case h_2 htasks =>
    obtain ⟨hidle, hs⟩ := Option.ite_none_right_eq_some.mp hs
    exact ⟨hidle, _, _, htasks, (Option.some.inj hs).symm⟩

end Cases

/-! ## Messages on their way -/

/-- **The bytes between a buffer and what is still to come carry
messages.** -/
structure Carries (input : Buffer) (outgoing : Bytes) (ms : List TinyPBProtocol) : Prop where
  readIndex_le : input.readIndex_ ≤ 2147483647
  spells : Spells PB_START wire ms (input.readable ++ outgoing)

namespace Carries

variable {input : Buffer} {outgoing data : Bytes} {ms : List TinyPBProtocol}

theorem send (h : Carries input outgoing ms) (new : List TinyPBProtocol) :
    Carries input (outgoing ++ new.flatMap wire) (ms ++ new) := by
  refine ⟨h.readIndex_le, ?_⟩
  rw [← List.append_assoc]
  exact h.spells.append (.flatMap new)

theorem read (h : Carries input (data ++ outgoing) ms) :
    Carries (input.readFd data) outgoing ms := by
  refine ⟨le_trans (input.readIndex_readFd_le data) h.readIndex_le, ?_⟩
  rw [Buffer.readable_readFd, List.append_assoc]
  exact h.spells

/-- **Decoding takes the first messages.** -/
theorem decode {ov : Overflow} {result : List TinyPBProtocol} {input' : Buffer}
    (h : Carries input outgoing ms) (hs : ∀ m ∈ ms, Sendable m)
    (hd : TinyPBCoder.decode ov input = .ok (result, input')) :
    ∃ got ms', result = got.map received ∧ ms = got ++ ms' ∧ Carries input' outgoing ms' := by
  rcases decode_spells ov h.readIndex_le hs h.spells with
    ⟨got, ms', b', hok, hms, hread, hspells, -⟩ | ⟨⟨e, herr⟩, -⟩
  · obtain ⟨rfl, rfl⟩ := Prod.mk.inj (Except.ok.inj (hd.symm.trans hok))
    exact ⟨got, ms', rfl, hms, hread, hspells⟩
  · rw [herr] at hd
    cases hd

end Carries

/-! ## The account of the callbacks -/

/-- **The callbacks of a client**: what was pushed has been sent or is
queued, and each request that was sent has its callback in the table or has
had it run. -/
structure Registers (e : Endpoint K) : Prop where
  pushed : e.pushed = e.sent ++ e.conn.write_dones_
  dones : (e.conn.pending ++ e.invoked.map Invocation.entry).Perm (e.sent.map entryOf)

namespace Registers

variable {e e' : Endpoint K}

theorem frame (h : Registers e) (hf : Endpoint.Frame e e') : Registers e' := by
  refine ⟨?_, ?_⟩
  · rw [hf.pushed, hf.sent, hf.write_dones_]
    exact h.pushed
  · rw [hf.invoked, hf.sent, Connection.pending, hf.read_dones_]
    exact h.dones

theorem push (h : Registers e) (message : TinyPBProtocol) (done : K) :
    Registers (e.push message done) := by
  refine ⟨?_, h.dones⟩
  show e.pushed ++ _ = e.sent ++ (e.conn.write_dones_ ++ _)
  rw [h.pushed, List.append_assoc]

/-- The ids of the callbacks that wait, that have run and that are still to
come. -/
theorem ids (h : Registers e) :
    (e.conn.pending.map Prod.fst ++ e.invoked.map Invocation.msg_id
      ++ e.conn.write_dones_.map (fun e => e.1.msg_id_)).Perm
      (e.pushed.map (fun e => e.1.msg_id_)) := by
  have hids := h.dones.map Prod.fst
  rw [List.map_append, List.map_map, List.map_map] at hids
  rw [h.pushed, List.map_append]
  exact hids.append_right _

theorem take (h : Registers e) (hx : (e.pushed.map (fun e => e.1.msg_id_)).Nodup)
    (ht : Endpoint.Take e e') : Registers e' := by
  have hnew : (e.conn.pending.map Prod.fst
      ++ e.conn.write_dones_.map (fun e => e.1.msg_id_)).Nodup :=
    (h.ids.nodup_iff.mpr hx).sublist ((List.sublist_append_left _ _).append_right _)
  obtain ⟨read, channel, htake⟩ := e.conn.takeWriteDones_eq
  rw [ht.eq]
  refine ⟨?_, ?_⟩
  · show e.pushed = (e.sent ++ e.conn.write_dones_) ++ e.conn.takeWriteDones.write_dones_
    rw [htake, h.pushed, List.append_nil]
  · show (e.conn.takeWriteDones.pending ++ e.invoked.map Invocation.entry).Perm
      ((e.sent ++ e.conn.write_dones_).map entryOf)
    rw [List.map_append]
    calc e.conn.takeWriteDones.pending ++ e.invoked.map Invocation.entry
      _ ~ (e.conn.pending ++ e.conn.write_dones_.map entryOf)
          ++ e.invoked.map Invocation.entry :=
        (e.conn.pending_takeWriteDones hnew).append_right _
      _ ~ (e.conn.pending ++ e.invoked.map Invocation.entry)
          ++ e.conn.write_dones_.map entryOf := by
        rw [List.append_assoc, List.append_assoc]
        exact List.perm_append_comm.append_left _
      _ ~ e.sent.map entryOf ++ e.conn.write_dones_.map entryOf := h.dones.append_right _

/-- Replies have their callbacks run. -/
theorem replies (h : Registers e) {conn : Connection K} {b : Buffer}
    (hconn : conn = { e.conn with inputbuffer_ := b }) (result : List TinyPBProtocol) :
    Registers { e with
      conn := (conn.handleReplies result).1
      invoked := e.invoked ++ (conn.handleReplies result).2 } := by
  obtain ⟨read, hread, hperm, -⟩ := conn.handleReplies_spec result
  have hpending : conn.pending = e.conn.pending := by rw [hconn]; rfl
  have hwrite : (conn.handleReplies result).1.write_dones_ = e.conn.write_dones_ := by
    rw [hread, hconn]
  refine ⟨h.pushed.trans (by rw [hwrite]), ?_⟩
  show (conn.handleReplies result).1.pending
    ++ (e.invoked ++ (conn.handleReplies result).2).map Invocation.entry ~ _
  rw [List.map_append]
  calc (conn.handleReplies result).1.pending
        ++ (e.invoked.map Invocation.entry
          ++ (conn.handleReplies result).2.map Invocation.entry)
    _ ~ ((conn.handleReplies result).1.pending
        ++ (conn.handleReplies result).2.map Invocation.entry)
        ++ e.invoked.map Invocation.entry := by
      rw [List.append_assoc]
      exact List.perm_append_comm.append_left _
    _ ~ conn.pending ++ e.invoked.map Invocation.entry := hperm.symm.append_right _
    _ ~ e.sent.map entryOf := by
      rw [hpending]
      exact h.dones

end Registers

/-! ## The account of the messages -/

/-- **The requests**: of those that were sent the server has parsed some,
and others are on their way or not encoded yet; those it has parsed are
answered, or with the workers, or in hand. -/
def Requests (s : ConnectionPair K) (held : List TinyPBProtocol) : Prop :=
  ∃ parsed ahead, s.client.sent.map Prod.fst = parsed ++ ahead ++ s.client.phase.messages ∧
    Carries s.server.conn.inputbuffer_ s.client.outgoing ahead ∧
    s.answered.map Prod.fst ++ (s.pool.flatten ++ held) ~ parsed.map received

/-- **The responses**: those that are queued or written are answers of
`dispatch`, and of those that were written the first are delivered and the
others on their way. -/
structure Responses (Message : Type) (set : Setting) (s : ConnectionPair K) : Prop where
  answered : ∀ e ∈ s.answered, ∃ services : RpcDispatcher Message,
    e.2 = services.dispatch set.peer e.1 {}
  owed : ∀ response ∈ s.replied ++ s.taskqueue_.flatten, ∃ request,
    (request, response) ∈ s.answered
  stream : ∃ delivered ahead, s.replied = delivered ++ ahead ∧
    Carries s.client.conn.inputbuffer_ s.server.outgoing ahead ∧
    ∀ i ∈ s.client.invoked, ∃ response ∈ delivered,
      i.message = received response ∧ i.msg_id = response.msg_id_
  received : s.client.received ++ s.server.outgoing = s.replied.flatMap wire

/-- **The account of every message.** -/
structure Inv (Message : Type) (set : Setting) (s : ConnectionPair K) : Prop where
  server_type : s.server.conn.type_ = .ConnectionByServer
  server_phase : s.server.phase.messages = []
  registers : Registers s.client
  requests : Requests s []
  responses : Responses Message set s

variable {set : Setting} {s s' : ConnectionPair K}

theorem inv_init : Inv Message set ({} : ConnectionPair K) where
  server_type := rfl
  server_phase := rfl
  registers := ⟨rfl, List.Perm.refl _⟩
  requests := ⟨[], [], rfl, ⟨Nat.zero_le _, .nil⟩, List.Perm.refl _⟩
  responses :=
    { answered := fun _ h => nomatch h
      owed := fun _ h => nomatch h
      stream := ⟨[], [], rfl, ⟨Nat.zero_le _, .nil⟩, fun _ h => nomatch h⟩
      received := rfl }

/-- What the responses depend on at the client: its input, and what became
of it. -/
theorem Responses.of_client (h : Responses Message set s) {e : Endpoint K}
    (hinput : e.conn.inputbuffer_ = s.client.conn.inputbuffer_)
    (hreceived : e.received = s.client.received) (hinvoked : e.invoked = s.client.invoked) :
    Responses Message set { s with client := e } where
  answered := h.answered
  owed := h.owed
  stream := by
    show ∃ delivered ahead, _ ∧ Carries e.conn.inputbuffer_ _ _ ∧ ∀ i ∈ e.invoked, _
    rw [hinput, hinvoked]
    exact h.stream
  received := by
    show e.received ++ _ = _
    rw [hreceived]
    exact h.received

namespace Inv

/-- A request that was answered is one that was sent. -/
theorem request_of_answered (h : Inv Message set s) {request response : TinyPBProtocol}
    (he : (request, response) ∈ s.answered) :
    ∃ e ∈ s.client.sent, request = received e.1 := by
  obtain ⟨parsed, ahead, hsent, -, hperm⟩ := h.requests
  have hmem : request ∈ parsed.map received :=
    hperm.subset (List.mem_append_left _ (List.mem_map_of_mem he))
  obtain ⟨m, hm, rfl⟩ := List.mem_map.mp hmem
  have hm' : m ∈ s.client.sent.map Prod.fst := by
    rw [hsent]
    exact List.mem_append_left _ (List.mem_append_left _ hm)
  obtain ⟨e, hsent, rfl⟩ := List.mem_map.mp hm'
  exact ⟨e, hsent, rfl⟩

theorem pushed_of_sent (h : Inv Message set s) {e : TinyPBProtocol × K}
    (he : e ∈ s.client.sent) : e ∈ s.client.pushed := by
  rw [h.registers.pushed]
  exact List.mem_append_left _ he

/-- **What was written fits**, as what was answered does. -/
theorem sendable_replied (h : Inv Message set s) (hx : Exchange s) :
    ∀ response ∈ s.replied, Sendable response := by
  intro response hr
  obtain ⟨request, he⟩ := h.responses.owed response (List.mem_append_left _ hr)
  obtain ⟨services, hdispatch⟩ := h.responses.answered _ he
  obtain ⟨e, hsent, rfl⟩ := h.request_of_answered he
  refine ⟨?_, hx.responses _ he⟩
  rw [show response = services.dispatch set.peer (received e.1) {} from hdispatch,
    RpcDispatcher.msg_id_dispatch]
  exact (hx.requests e (h.pushed_of_sent hsent)).msg_id_ne

/-- **The client's thread moves bytes.** -/
theorem client_flow (h : Inv Message set s) {e : Endpoint K} {ms : List TinyPBProtocol}
    (hm : s.client.phase.messages = ms ++ e.phase.messages) (hf : Endpoint.Flow s.client ms e) :
    Inv Message set { s with client := e } where
  server_type := h.server_type
  server_phase := h.server_phase
  registers := h.registers.frame hf.frame
  requests := by
    obtain ⟨parsed, ahead, hsent, hcarries, hperm⟩ := h.requests
    refine ⟨parsed, ahead ++ ms, ?_, ?_, hperm⟩
    · show e.sent.map Prod.fst = _
      rw [hf.frame.sent, hsent, hm]
      simp only [List.append_assoc]
    · show Carries _ e.outgoing _
      rw [hf.outgoing]
      exact hcarries.send ms
  responses := h.responses.of_client hf.frame.inputbuffer_ hf.frame.received hf.frame.invoked

/-- **The queued requests are taken.** -/
theorem client_take (h : Inv Message set s) (hx : Exchange s) {e : Endpoint K}
    (ht : Endpoint.Take s.client e) : Inv Message set { s with client := e } := by
  have hregisters := h.registers.take hx.distinct ht
  obtain ⟨read, channel, htake⟩ := s.client.conn.takeWriteDones_eq
  have heq := ht.eq
  rw [htake] at heq
  subst heq
  refine ⟨h.server_type, h.server_phase, hregisters, ?_, h.responses.of_client rfl rfl rfl⟩
  obtain ⟨parsed, ahead, hsent, hcarries, hperm⟩ := h.requests
  rw [ht.idle] at hsent
  refine ⟨parsed, ahead, ?_, hcarries, hperm⟩
  show (s.client.sent ++ s.client.conn.write_dones_).map Prod.fst
    = parsed ++ ahead ++ s.client.conn.write_dones_.map Prod.fst
  rw [List.map_append, hsent]
  simp only [SendPhase.messages, List.append_nil]

theorem push (h : Inv Message set s) (message : TinyPBProtocol) (done : K) :
    Inv Message set { s with client := s.client.push message done } :=
  ⟨h.server_type, h.server_phase, h.registers.push message done, h.requests,
    h.responses.of_client rfl rfl rfl⟩

end Inv

/-- **The server's thread moves bytes**, of responses that it owes. -/
theorem Responses.server_flow (h : Responses Message set s) {e : Endpoint K}
    {ms replied : List TinyPBProtocol} (hf : Endpoint.Flow s.server ms e)
    (howed : ∀ response ∈ ms, ∃ request, (request, response) ∈ s.answered)
    (hreplied : replied = s.replied ++ ms) :
    Responses Message set { s with server := e, replied := replied } := by
  subst hreplied
  obtain ⟨delivered, ahead, hreplied, hcarries, hinvoked⟩ := h.stream
  refine ⟨h.answered, ?_, ⟨delivered, ahead ++ ms, ?_, ?_, hinvoked⟩, ?_⟩
  · intro response hr
    rw [List.mem_append, List.mem_append] at hr
    rcases hr with (hr | hr) | hr
    · exact h.owed response (List.mem_append_left _ hr)
    · exact howed response hr
    · exact h.owed response (List.mem_append_right _ hr)
  · show s.replied ++ ms = _
    rw [hreplied, List.append_assoc]
  · show Carries _ e.outgoing _
    rw [hf.outgoing]
    exact hcarries.send ms
  · show _ ++ e.outgoing = (s.replied ++ ms).flatMap wire
    rw [hf.outgoing, ← List.append_assoc, h.received, List.flatMap_append]

theorem Requests.server_flow {held ms replied : List TinyPBProtocol} (h : Requests s held)
    {e : Endpoint K} (hf : Endpoint.Flow s.server ms e) :
    Requests { s with server := e, replied := replied } held := by
  obtain ⟨parsed, ahead, hsent, hcarries, hperm⟩ := h
  refine ⟨parsed, ahead, hsent, ?_, hperm⟩
  show Carries e.conn.inputbuffer_ _ _
  rw [hf.frame.inputbuffer_]
  exact hcarries

/-- What is on the way after a read, with what was read before it. -/
theorem outgoing_eq_take (e : Endpoint K) (n : ℕ) :
    e.outgoing = e.socket.take n ++ { e with socket := e.socket.drop n }.outgoing := by
  rw [Endpoint.outgoing, Endpoint.outgoing, ← List.append_assoc, List.take_append_drop]

namespace Inv

theorem clientRead (h : Inv Message set s) {n : ℕ} {client server : Endpoint K}
    (hread : s.client.onMessage s.server n = some (client, server)) :
    Inv Message set { s with client := client, server := server } := by
  obtain ⟨rfl, rfl⟩ := Endpoint.onMessage_eq_some hread
  obtain ⟨delivered, ahead, hreplied, hcarries, hinvoked⟩ := h.responses.stream
  have hout := outgoing_eq_take s.server n
  rw [hout] at hcarries
  refine ⟨h.server_type, h.server_phase, ⟨h.registers.pushed, h.registers.dones⟩, h.requests,
    ⟨h.responses.answered, h.responses.owed, ⟨delivered, ahead, hreplied, hcarries.read, hinvoked⟩,
      ?_⟩⟩
  have hreceived := h.responses.received
  rw [hout, ← List.append_assoc] at hreceived
  exact hreceived

theorem serverRead (h : Inv Message set s) {n : ℕ} {client server : Endpoint K}
    (hread : s.server.onMessage s.client n = some (server, client)) :
    Inv Message set { s with client := client, server := server } := by
  obtain ⟨rfl, rfl⟩ := Endpoint.onMessage_eq_some hread
  obtain ⟨parsed, ahead, hsent, hcarries, hperm⟩ := h.requests
  rw [outgoing_eq_take s.client n] at hcarries
  exact ⟨h.server_type, h.server_phase, ⟨h.registers.pushed, h.registers.dones⟩,
    ⟨parsed, ahead, hsent, hcarries.read, hperm⟩,
    ⟨h.responses.answered, h.responses.owed, h.responses.stream, h.responses.received⟩⟩

/-- **The client parses**: the callbacks of the responses that have arrived
run. -/
theorem clientParse (h : Inv Message set s) (hx : Exchange s) {result : List TinyPBProtocol}
    {conn : Connection K} (hd : s.client.conn.decodeInput set.ov = .ok (result, conn)) :
    Inv Message set { s with client := { s.client with
      conn := (conn.handleReplies result).1
      invoked := s.client.invoked ++ (conn.handleReplies result).2 } } := by
  obtain ⟨b, hb, hconn⟩ := Connection.decodeInput_eq_ok hd
  obtain ⟨delivered, ahead, hreplied, hcarries, hinvoked⟩ := h.responses.stream
  have hsendable : ∀ m ∈ ahead, Sendable m := by
    intro m hm
    refine h.sendable_replied hx m ?_
    rw [hreplied]
    exact List.mem_append_right _ hm
  obtain ⟨got, ahead', hresult, rfl, hcarries'⟩ := hcarries.decode hsendable hb
  obtain ⟨read, hread, -, hcalls⟩ := conn.handleReplies_spec result
  refine ⟨h.server_type, h.server_phase, h.registers.replies hconn result, ?_,
    ⟨h.responses.answered, h.responses.owed,
      ⟨delivered ++ got, ahead', ?_, ?_, ?_⟩, h.responses.received⟩⟩
  · -- the other direction sees nothing of it
    obtain ⟨parsed, ahead, hsent, hcarries, hperm⟩ := h.requests
    refine ⟨parsed, ahead, hsent, ?_, hperm⟩
    show Carries _ (s.client.socket ++ (conn.handleReplies result).1.outputbuffer_.readable) _
    rw [hread, hconn]
    exact hcarries
  · rw [List.append_assoc]
    exact hreplied
  · show Carries (conn.handleReplies result).1.inputbuffer_ _ _
    rw [hread, hconn]
    exact hcarries'
  · intro i hi
    rcases List.mem_append.mp hi with hi | hi
    · obtain ⟨response, hr, hi⟩ := hinvoked i hi
      exact ⟨response, List.mem_append_left _ hr, hi⟩
    · obtain ⟨hmessage, hid⟩ := hcalls i hi
      rw [hresult] at hmessage
      obtain ⟨response, hr, heq⟩ := List.mem_map.mp hmessage
      refine ⟨response, List.mem_append_right _ hr, heq.symm, ?_⟩
      rw [hid, ← heq]
      rfl

end Inv

/-! ## What the server does with a batch -/

@[simp] theorem length_OnMassage (peer : InterAddress) (request_pkgs : List TinyPBProtocol)
    (services : ℕ → RpcDispatcher Message) :
    (OnMassage peer request_pkgs services).length = request_pkgs.length := by
  induction request_pkgs generalizing services with
  | nil => rfl
  | cons request request_pkgs ih => exact congrArg (· + 1) (ih _)

/-- Each response is what `dispatch` gave to its request. -/
theorem dispatch_of_mem_OnMassage (peer : InterAddress) {request_pkgs : List TinyPBProtocol}
    {services : ℕ → RpcDispatcher Message} {e : TinyPBProtocol × TinyPBProtocol}
    (h : e ∈ request_pkgs.zip (OnMassage peer request_pkgs services)) :
    ∃ services : RpcDispatcher Message, e.2 = services.dispatch peer e.1 {} := by
  induction request_pkgs generalizing services with
  | nil => cases h
  | cons request request_pkgs ih =>
    rcases List.mem_cons.mp h with rfl | h
    · exact ⟨services 0, rfl⟩
    · exact ih h

theorem Requests.answer {held : List TinyPBProtocol} (h : Requests s held) (peer : InterAddress)
    (services : ℕ → RpcDispatcher Message) :
    Requests (s.answer held (OnMassage peer held services)) [] := by
  obtain ⟨parsed, ahead, hsent, hcarries, hperm⟩ := h
  refine ⟨parsed, ahead, hsent, hcarries, ?_⟩
  show (s.answered ++ _).map Prod.fst ++ (s.pool.flatten ++ []) ~ _
  rw [List.map_append, List.map_fst_zip (length_OnMassage ..).ge, List.append_nil,
    List.append_assoc]
  exact (List.perm_append_comm.append_left _).trans hperm

theorem Responses.answer (h : Responses Message set s) (request_pkgs : List TinyPBProtocol)
    (services : ℕ → RpcDispatcher Message) :
    Responses Message set
        (s.answer request_pkgs (OnMassage set.peer request_pkgs services)) ∧
      ∀ response ∈ OnMassage set.peer request_pkgs services, ∃ request, (request, response)
        ∈ (s.answer request_pkgs (OnMassage set.peer request_pkgs services)).answered := by
  refine ⟨⟨?_, ?_, h.stream, h.received⟩, ?_⟩
  · intro e he
    rcases List.mem_append.mp he with he | he
    · exact h.answered e he
    · exact dispatch_of_mem_OnMassage set.peer he
  · intro response hr
    obtain ⟨request, he⟩ := h.owed response hr
    exact ⟨request, List.mem_append_left _ he⟩
  · intro response hr
    rw [← List.map_snd_zip (length_OnMassage set.peer request_pkgs services).le] at hr
    obtain ⟨e, he, rfl⟩ := List.mem_map.mp hr
    exact ⟨e.1, List.mem_append_right _ he⟩

namespace Inv

/-- **`regSend`** of responses that are owed. -/
theorem regSend (h : Inv Message set s) {respond_pkgs : List TinyPBProtocol}
    (howed : ∀ response ∈ respond_pkgs, ∃ request, (request, response) ∈ s.answered) :
    Inv Message set (s.regSend respond_pkgs) := by
  have hf := Endpoint.flow_regSend s.server respond_pkgs
  refine ⟨hf.frame.type_.trans h.server_type, h.server_phase, h.registers,
    h.requests.server_flow hf, h.responses.server_flow hf ?_ rfl⟩
  intro response hr
  split at hr
  · cases hr
  · exact howed response hr

/-- **`HandleMessage`** of a batch that is in hand. -/
theorem handleMessage {held : List TinyPBProtocol} (services : ℕ → RpcDispatcher Message)
    (htype : s.server.conn.type_ = .ConnectionByServer) (hphase : s.server.phase.messages = [])
    (hreg : Registers s.client) (hreq : Requests s held) (hres : Responses Message set s) :
    Inv Message set (HandleMessage set s held services) := by
  rw [HandleMessage]
  split
  · obtain ⟨hres, howed⟩ := hres.answer held services
    have hanswer : Inv Message set (s.answer held (OnMassage set.peer held services)) :=
      ⟨htype, hphase, hreg, hreq.answer set.peer services, hres⟩
    exact hanswer.regSend howed
  · refine ⟨htype, hphase, hreg, ?_, ⟨hres.answered, hres.owed, hres.stream, hres.received⟩⟩
    obtain ⟨parsed, ahead, hsent, hcarries, hperm⟩ := hreq
    refine ⟨parsed, ahead, hsent, hcarries, ?_⟩
    show _ ++ ((s.pool ++ [held]).flatten ++ []) ~ _
    rwa [List.flatten_append, List.flatten_singleton, List.append_nil]

/-- **The server parses.** -/
theorem serverParse (h : Inv Message set s) (hx : Exchange s)
    {request_pkgs : List TinyPBProtocol} {conn : Connection K}
    (services : ℕ → RpcDispatcher Message)
    (hd : s.server.conn.decodeInput set.ov = .ok (request_pkgs, conn)) :
    Inv Message set (HandleMessage set { s with server := { s.server with conn := conn } }
      request_pkgs services) := by
  obtain ⟨b, hb, rfl⟩ := Connection.decodeInput_eq_ok hd
  obtain ⟨parsed, ahead, hsent, hcarries, hperm⟩ := h.requests
  have hsendable : ∀ m ∈ ahead, Sendable m := by
    intro m hm
    have hmem : m ∈ s.client.sent.map Prod.fst := by
      rw [hsent]
      exact List.mem_append_left _ (List.mem_append_right _ hm)
    obtain ⟨e, he, rfl⟩ := List.mem_map.mp hmem
    exact hx.requests e (h.pushed_of_sent he)
  obtain ⟨got, ahead', rfl, rfl, hcarries'⟩ := hcarries.decode hsendable hb
  refine handleMessage services h.server_type h.server_phase h.registers
    ⟨parsed ++ got, ahead', ?_, hcarries', ?_⟩
    ⟨h.responses.answered, h.responses.owed, h.responses.stream, h.responses.received⟩
  · rw [List.append_assoc parsed]
    exact hsent
  · rw [List.map_append, ← List.append_assoc]
    rw [List.append_nil] at hperm
    exact hperm.append_right _

/-- **A worker finishes a batch.** -/
theorem finish (h : Inv Message set s) {i : ℕ} {request_pkgs : List TinyPBProtocol}
    (services : ℕ → RpcDispatcher Message) (hi : s.pool[i]? = some request_pkgs) :
    Inv Message set
      (({ s with pool := s.pool.eraseIdx i }.answer request_pkgs
        (OnMassage set.peer request_pkgs services)).queueInLoop
          (OnMassage set.peer request_pkgs services)) := by
  have hreq : Requests { s with pool := s.pool.eraseIdx i } request_pkgs := by
    obtain ⟨parsed, ahead, hsent, hcarries, hperm⟩ := h.requests
    refine ⟨parsed, ahead, hsent, hcarries, ?_⟩
    obtain ⟨hlt, rfl⟩ := List.getElem?_eq_some_iff.mp hi
    have hpool := (List.getElem_cons_eraseIdx_perm hlt).flatten
    rw [List.flatten_cons] at hpool
    rw [List.append_nil] at hperm
    exact ((List.perm_append_comm.trans hpool).append_left _).trans hperm
  have hres : Responses Message set { s with pool := s.pool.eraseIdx i } :=
    ⟨h.responses.answered, h.responses.owed, h.responses.stream, h.responses.received⟩
  obtain ⟨hres', howed⟩ := hres.answer request_pkgs services
  rw [queueInLoop]
  split
  · exact ⟨h.server_type, h.server_phase, h.registers, hreq.answer set.peer services, hres'⟩
  · refine ⟨h.server_type, h.server_phase, h.registers, hreq.answer set.peer services,
      ⟨hres'.answered, ?_, hres'.stream, hres'.received⟩⟩
    intro response hr
    have hr' : response ∈ (s.replied ++ s.taskqueue_.flatten)
        ++ OnMassage set.peer request_pkgs services := by
      rw [List.append_assoc]
      rw [List.flatten_append, List.flatten_singleton] at hr
      exact hr
    rcases List.mem_append.mp hr' with hr | hr
    · exact hres'.owed response hr
    · exact howed response hr

/-- **Every step keeps the account.** -/
theorem step (h : Inv Message set s) (hx : Exchange s) {l : PairStep K Message}
    (hs : s.step set l = some s') : Inv Message set s' := by
  cases l with
  | push message done =>
    obtain rfl := Option.some.inj hs
    exact h.push message done
  | enable =>
    obtain ⟨e, he, rfl⟩ := Option.map_eq_some_iff.mp hs
    obtain ⟨hf, hphase⟩ := Endpoint.flow_enable he
    exact h.client_flow (congrArg SendPhase.messages hphase).symm hf
  | client step =>
    obtain ⟨e, he, rfl⟩ := Option.map_eq_some_iff.mp hs
    rcases Endpoint.io_cases he with ht | ⟨ms, hm, hf⟩
    · exact h.client_take hx ht
    · exact h.client_flow hm hf
  | server step =>
    obtain ⟨e, he, rfl⟩ := Option.map_eq_some_iff.mp hs
    rcases Endpoint.io_cases he with ht | ⟨ms, hm, hf⟩
    · have htype := h.server_type
      rw [ht.client] at htype
      cases htype
    · rw [h.server_phase] at hm
      obtain ⟨rfl, hphase⟩ := List.append_eq_nil_iff.mp hm.symm
      exact ⟨hf.frame.type_.trans h.server_type, hphase, h.registers, h.requests.server_flow hf,
        h.responses.server_flow hf (fun _ hr => nomatch hr) (List.append_nil _).symm⟩
  | clientRead n =>
    obtain ⟨ends, he, rfl⟩ := Option.map_eq_some_iff.mp hs
    exact h.clientRead he
  | serverRead n =>
    obtain ⟨ends, he, rfl⟩ := Option.map_eq_some_iff.mp hs
    exact h.serverRead he
  | clientParse =>
    obtain ⟨-, result, conn, hd, rfl⟩ := clientParse_cases hs
    exact h.clientParse hx hd
  | serverParse services =>
    obtain ⟨-, request_pkgs, conn, hd, rfl⟩ := serverParse_cases hs
    exact h.serverParse hx services hd
  | finish i services =>
    obtain ⟨request_pkgs, hi, rfl⟩ := finish_cases hs
    exact h.finish services hi
  | regSend =>
    obtain ⟨-, respond_pkgs, taskqueue_, htasks, rfl⟩ := regSend_cases hs
    have howed : ∀ response ∈ s.replied ++ (respond_pkgs ++ taskqueue_.flatten),
        ∃ request, (request, response) ∈ s.answered := by
      have howed := h.responses.owed
      rwa [htasks, List.flatten_cons] at howed
    refine regSend (s := { s with taskqueue_ := taskqueue_ }) ⟨h.server_type, h.server_phase,
      h.registers, h.requests, ⟨h.responses.answered, ?_, h.responses.stream,
        h.responses.received⟩⟩ ?_
    · intro response hr
      rcases List.mem_append.mp hr with hr | hr
      · exact howed response (List.mem_append_left _ hr)
      · exact howed response (List.mem_append_right _ (List.mem_append_right _ hr))
    · intro response hr
      exact howed response (List.mem_append_right _ (List.mem_append_left _ hr))

end Inv

/-! ## The history only grows -/

theorem pushed_io {e e' : Endpoint K} {step : IoStep} (h : e.io step = some e') :
    e'.pushed = e.pushed := by
  rcases Endpoint.io_cases h with ht | ⟨_, _, hf⟩
  · rw [ht.eq]
  · exact hf.frame.pushed

theorem client_HandleMessage (s : ConnectionPair K) (request_pkgs : List TinyPBProtocol)
    (services : ℕ → RpcDispatcher Message) :
    (HandleMessage set s request_pkgs services).client = s.client := by
  rw [HandleMessage]
  split <;> rfl

theorem answered_HandleMessage (s : ConnectionPair K) (request_pkgs : List TinyPBProtocol)
    (services : ℕ → RpcDispatcher Message) :
    s.answered <+: (HandleMessage set s request_pkgs services).answered := by
  rw [HandleMessage]
  split
  · exact List.prefix_append _ _
  · exact List.prefix_rfl

theorem grows {l : PairStep K Message} (hs : s.step set l = some s') :
    s.client.pushed <+: s'.client.pushed ∧ s.answered <+: s'.answered := by
  cases l with
  | push message done =>
    obtain rfl := Option.some.inj hs
    exact ⟨List.prefix_append _ _, List.prefix_rfl⟩
  | enable =>
    obtain ⟨e, he, rfl⟩ := Option.map_eq_some_iff.mp hs
    refine ⟨?_, List.prefix_rfl⟩
    show _ <+: e.pushed
    rw [(Endpoint.flow_enable he).1.frame.pushed]
  | client step =>
    obtain ⟨e, he, rfl⟩ := Option.map_eq_some_iff.mp hs
    refine ⟨?_, List.prefix_rfl⟩
    show _ <+: e.pushed
    rw [pushed_io he]
  | server step =>
    obtain ⟨e, he, rfl⟩ := Option.map_eq_some_iff.mp hs
    exact ⟨List.prefix_rfl, List.prefix_rfl⟩
  | clientRead n =>
    obtain ⟨ends, he, rfl⟩ := Option.map_eq_some_iff.mp hs
    refine ⟨?_, List.prefix_rfl⟩
    show _ <+: ends.1.pushed
    rw [(Endpoint.onMessage_eq_some he).1]
  | serverRead n =>
    obtain ⟨ends, he, rfl⟩ := Option.map_eq_some_iff.mp hs
    refine ⟨?_, List.prefix_rfl⟩
    show _ <+: ends.2.pushed
    rw [(Endpoint.onMessage_eq_some he).2]
  | clientParse =>
    obtain ⟨-, result, conn, -, rfl⟩ := clientParse_cases hs
    exact ⟨List.prefix_rfl, List.prefix_rfl⟩
  | serverParse services =>
    obtain ⟨-, request_pkgs, conn, -, rfl⟩ := serverParse_cases hs
    refine ⟨?_, answered_HandleMessage { s with server := { s.server with conn := conn } } _ _⟩
    rw [client_HandleMessage]
  | finish i services =>
    obtain ⟨request_pkgs, -, rfl⟩ := finish_cases hs
    rw [queueInLoop]
    split <;> exact ⟨List.prefix_rfl, List.prefix_append _ _⟩
  | regSend =>
    obtain ⟨-, respond_pkgs, taskqueue_, -, rfl⟩ := regSend_cases hs
    exact ⟨List.prefix_rfl, List.prefix_rfl⟩

/-- What is assumed of a run was true of the run before. -/
theorem Exchange.back {l : PairStep K Message} (hs : s.step set l = some s')
    (hx : Exchange s') : Exchange s := by
  obtain ⟨hpushed, hanswered⟩ := grows hs
  exact ⟨hx.distinct.sublist (hpushed.map _).sublist,
    fun e he => hx.requests e (hpushed.subset he),
    fun e he => hx.responses e (hanswered.subset he)⟩

/-! ## Replies reach the callers -/

namespace Inv

/-- An id determines the request, of those that were pushed. -/
theorem request_unique {e e' : TinyPBProtocol × K} (hx : Exchange s) (he : e ∈ s.client.pushed)
    (he' : e' ∈ s.client.pushed) (hid : e.1.msg_id_ = e'.1.msg_id_) : e = e' :=
  List.inj_on_of_nodup_map hx.distinct he he' hid

theorem once (h : Inv Message set s) (hx : Exchange s) :
    (s.client.invoked.map Invocation.msg_id).Nodup := by
  refine (h.registers.ids.nodup_iff.mpr hx.distinct).sublist ?_
  exact (List.sublist_append_right _ _).trans (List.sublist_append_left _ _)

/-- **A request is dispatched once.** -/
theorem answered_once (h : Inv Message set s) (hx : Exchange s) :
    (s.answered.map (fun e => e.1.msg_id_)).Nodup := by
  obtain ⟨parsed, ahead, hsent, -, hperm⟩ := h.requests
  have hids : (s.client.pushed.map (fun e => e.1.msg_id_))
      = (parsed ++ ahead ++ s.client.phase.messages).map TinyPBProtocol.msg_id_
        ++ s.client.conn.write_dones_.map (fun e => e.1.msg_id_) := by
    rw [h.registers.pushed, ← hsent, List.map_append, List.map_map]
    rfl
  have hparsed : ((parsed.map received).map TinyPBProtocol.msg_id_).Nodup := by
    have hx := hx.distinct
    rw [hids, List.map_append, List.map_append, List.append_assoc, List.append_assoc] at hx
    rw [List.map_map]
    exact hx.sublist (List.sublist_append_left _ _)
  have hsub := (hperm.map TinyPBProtocol.msg_id_).nodup_iff.mpr hparsed
  rw [List.map_append, List.map_map] at hsub
  exact hsub.sublist (List.sublist_append_left _ _)

/-- **The callback of an answered request is registered.** -/
theorem registered (h : Inv Message set s) {request response : TinyPBProtocol}
    (he : (request, response) ∈ s.answered) :
    ∃ e ∈ s.client.sent, request = received e.1 ∧
      entryOf e ∈ s.client.conn.pending ++ s.client.invoked.map Invocation.entry := by
  obtain ⟨e, hsent, hrequest⟩ := h.request_of_answered he
  exact ⟨e, hsent, hrequest, h.registers.dones.symm.subset (List.mem_map_of_mem hsent)⟩

end Inv

/-- **A response that is on its way** answers a request that was sent, under its
id. -/
theorem Inv.origin (h : Inv Message set s) {response : TinyPBProtocol}
    (howed : response ∈ s.replied ++ s.taskqueue_.flatten) :
    ∃ e ∈ s.client.sent, (received e.1, response) ∈ s.answered ∧
      (∃ services : RpcDispatcher Message,
        response = services.dispatch set.peer (received e.1) {}) ∧
      response.msg_id_ = e.1.msg_id_ ∧
      entryOf e ∈ s.client.conn.pending ++ s.client.invoked.map Invocation.entry := by
  obtain ⟨request, he⟩ := h.responses.owed response howed
  obtain ⟨services, hdispatch⟩ := h.responses.answered _ he
  obtain ⟨e, hsent, rfl, hentry⟩ := h.registered he
  have hrid : response.msg_id_ = e.1.msg_id_ := by
    rw [show response = services.dispatch set.peer (received e.1) {} from hdispatch,
      RpcDispatcher.msg_id_dispatch]
    rfl
  exact ⟨e, hsent, he, ⟨services, hdispatch⟩, hrid, hentry⟩

/-- **Replies reach the callers**, in every run. -/
theorem repliesMatch (set : Setting) {s : ConnectionPair K}
    (hruns : Reachable Message set s) (hx : Exchange s) :
    RepliesMatch Message set s := by
  have h : Inv Message set s :=
    hruns.invariant_of (H := Exchange) (fun _ _ _ hs hx => hx.back hs)
      (fun _ _ _ h hx hs => h.step (hx.back hs) hs) inv_init hx
  refine ⟨h.once hx, h.answered_once hx, ?_, ⟨_, h.responses.received⟩, ?_⟩
  · intro i hi
    obtain ⟨delivered, ahead, hreplied, -, hinvoked⟩ := h.responses.stream
    obtain ⟨response, hr, hmessage, hid⟩ := hinvoked i hi
    have howed : response ∈ s.replied ++ s.taskqueue_.flatten := by
      rw [hreplied]
      exact List.mem_append_left _ (List.mem_append_left _ hr)
    obtain ⟨e, hsent, he, ⟨services, hdispatch⟩, hrid, -⟩ := h.origin howed
    -- the callback that ran is the one registered for this id
    have hentry : i.entry ∈ s.client.sent.map entryOf :=
      h.registers.dones.subset (List.mem_append_right _ (List.mem_map_of_mem hi))
    obtain ⟨e', hsent', hentry'⟩ := List.mem_map.mp hentry
    have hid' : e'.1.msg_id_ = i.msg_id := congrArg Prod.fst hentry'
    obtain rfl : e' = e := Inv.request_unique hx (h.pushed_of_sent hsent')
      (h.pushed_of_sent hsent) (hid'.trans (hid.trans hrid))
    have hdone : e'.2 = i.done := congrArg Prod.snd hentry'
    refine ⟨e'.1, response, ?_, hid', he, hmessage, services, hdispatch⟩
    rw [← hdone]
    exact h.pushed_of_sent hsent'
  · intro arrived rest hreplied _ response hr
    have howed : response ∈ s.replied ++ s.taskqueue_.flatten := by
      rw [hreplied]
      exact List.mem_append_left _ (List.mem_append_left _ hr)
    obtain ⟨e, hsent, -, -, hrid, hentry⟩ := h.origin howed
    refine ⟨e.1, e.2, h.pushed_of_sent hsent, hrid.symm, ?_⟩
    rw [hrid]
    rcases List.mem_append.mp hentry with hpending | hinvoked
    · exact .inl (Connection.lookup_of_mem_pending hpending)
    · obtain ⟨i, hi, hi'⟩ := List.mem_map.mp hinvoked
      exact .inr ⟨i, hi, congrArg Prod.fst hi', congrArg Prod.snd hi'⟩

/-- A service whose method returns what it is given. -/
def echo : RpcDispatcher Bytes where
  service_map_ := AList.singleton (Bytes.ofString "Order")
    { full_name := Bytes.ofString "Order"
      methods :=
        [{ name := Bytes.ofString "makeOrder"
           parseFromString := some
           callMethod := fun _ message => message
           serializeToString := some }] }

/-- A request for that method. -/
def echoCall (msg_id pb_data : Bytes) : TinyPBProtocol where
  msg_id_ := msg_id
  method_name_ := Bytes.ofString "Order.makeOrder"
  pb_data_ := pb_data

/-- Two calls, each with a worker. The second is answered first, and the
replies are written and read in pieces that are no frames. -/
def crossingCalls : List (PairStep ℕ Bytes) :=
  [.push (echoCall [0x31] [0x02, 0x03]) 7, .enable, .push (echoCall [0x32] []) 8,
    .client .sendMessage, .client .encode, .client (.write (.written 80)),
    .client .disableWriting, .serverRead 41, .serverParse (fun _ => echo), .serverRead 39,
    .serverParse (fun _ => echo), .finish 1 (fun _ => echo), .finish 0 (fun _ => echo), .regSend,
    .regSend, .server .sendMessage, .server (.write (.written 50)), .clientRead 45, .clientParse,
    .server (.write (.written 30)), .server .disableWriting, .clientRead 35, .clientParse]

theorem repliesMatch_crossing :
    ∃ s : ConnectionPair ℕ, RepliesMatch Bytes ⟨.trap, 1, {}⟩ s ∧
      s.client.invoked.map Invocation.entry = [([0x32], 8), ([0x31], 7)] := by
  obtain ⟨s, hruns, h⟩ : ∃ s, Reachable Bytes ⟨.trap, 1, {}⟩ s ∧ (decide (Exchange s)
      && s.client.invoked.map Invocation.entry == [([0x32], 8), ([0x31], 7)]) = true :=
    exists_of_execute crossingCalls (by decide +kernel)
  rw [Bool.and_eq_true, decide_eq_true_eq, beq_iff_eq] at h
  exact ⟨s, repliesMatch ⟨.trap, 1, {}⟩ hruns h.1, h.2⟩

end ConnectionPair

end PbRpc
