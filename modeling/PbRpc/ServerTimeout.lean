import PbRpc.EntryStream
import PbRpc.OnMessage
import PbRpc.ServerOutput
import PbRpc.Time

/-!
# Shutting down connections that are idle

`ClearClientTimerFunc` runs in the thread of the server's main loop, at any
time with respect to the loop of a connection and to the workers. It shuts a
connection down if `timeout` says that `lastTime_` is more than `timeout_`
milliseconds back, and `isWriting` that the channel does not ask for
writable events.

`onMessage` sets `lastTime_` when it has found nothing left to read, and
nobody else does. So it says nothing of a connection that has read nothing
yet, and nothing of data that is still to be read. `isWriting` is true as
long as responses are in the output buffer, and not while a request is with
a worker or its responses are in the queue of the loop. Those are the cases
in which a connection is shut down that is not idle
(`TimedConnection.shutdown_iff`).

The two tests and the call of `shutdown` are separate steps, so that a
response may also be encoded in between.
-/

namespace PbRpc

open TinyPBCoder Transition EntryStream

/-- What the server reads of its configuration. -/
structure TimeoutConfig where
  workThread_ : ℕ
  timeout_ : ℤ

/-- **More than so many milliseconds** are between two points in time. -/
def Elapsed (timeval : ℤ) (since clock : ℕ) : Prop := timeval * 1000 < (clock : ℤ) - since

instance (timeval : ℤ) (since clock : ℕ) : Decidable (Elapsed timeval since clock) :=
  inferInstanceAs (Decidable (timeval * 1000 < (clock : ℤ) - since))

theorem Elapsed.later {timeval_ : ℤ} {since clock : ℕ} (h : Elapsed timeval_ since clock)
    (d : ℕ) : Elapsed timeval_ since (clock + d) := by
  unfold Elapsed at h ⊢
  omega

theorem Elapsed.earlier {timeval_ : ℤ} {since since' clock : ℕ}
    (h : Elapsed timeval_ since clock) (hle : since' ≤ since) : Elapsed timeval_ since' clock := by
  unfold Elapsed at h ⊢
  omega

/-- Where the loop's thread is in `onMessage`. -/
inductive ReadPhase where
  | idle
  /-- Before a `readv`. -/
  | reading
  /-- `lastTime_` is set, and `parseMsg` is next. -/
  | parsing
  /-- It runs `OnMassage` itself. -/
  | handling
deriving DecidableEq, Repr

/-- Where the main loop's thread is with the connection. It keeps the lock
from the first test on. -/
inductive TickPhase where
  | idle
  /-- `timeout` was true of a `lastTime_` that was set then, if at all. -/
  | timedOut (lastSet : Option ℕ)
  /-- And `isWriting` was false, after so many replies. -/
  | notWriting (lastSet : Option ℕ) (replies : ℕ)
deriving DecidableEq, Repr

namespace TickPhase

/-- When the `lastTime_` that was tested had been set. -/
def lastSet : TickPhase → Option ℕ
  | .idle => none
  | .timedOut lastSet => lastSet
  | .notWriting lastSet _ => lastSet

/-- The replies that had been encoded when `isWriting` was tested. -/
def replies : TickPhase → ℕ
  | .idle => 0
  | .timedOut _ => 0
  | .notWriting _ replies => replies

end TickPhase

/-- **A server's connection** with its history. Batches of requests have
numbers, in the order they were handed over. -/
structure TimedConnection (K : Type) where
  e : Endpoint K :=
    { conn :=
        { type_ := .ConnectionByServer
          connectChannel_ := Channel.enableReading {} } }
  /-- It is in `conns_`. -/
  listed : Bool := true
  /-- Its sending side was shut down. -/
  shut : Bool := false
  reading : ReadPhase := .idle
  ticking : TickPhase := .idle
  clock : ℕ
  acceptedAt : ℕ
  lastTime_ : ℤ
  /-- When `lastTime_` was set. -/
  lastSet : Option ℕ := none
  lastArrival : Option ℕ := none
  /-- What has arrived and was not read. -/
  unread : Bytes := []
  /-- The batches that were handed to `HandleMessage`. -/
  handed : List (List TinyPBProtocol) := []
  /-- Those that `OnMassage` has not sent the responses of. -/
  working : List ℕ := []
  taskqueue_ : List (ℕ × List TinyPBProtocol) := []
  /-- The responses that `regSend` has encoded. -/
  sent : List (ℕ × List TinyPBProtocol) := []
  /-- The batches whose responses were not encoded, because the connection
  was closed. -/
  dropped : List ℕ := []

inductive TimedStep where
  /-- Microseconds pass. -/
  | pass (d : ℕ)
  | arrive (data : Bytes)
  | onMessage
  | readv (n : ℕ)
  /-- `readv` has found nothing, and `lastTime_` is set. -/
  | setLastTime
  | parseMsg
  /-- `readv` has found the end of the stream. -/
  | endOfStream
  | closeconnection
  /-- `OnMassage` sends the responses to a batch. -/
  | send (batch : ℕ) (respond_pkgs : List TinyPBProtocol)
  /-- The first task of the loop. -/
  | regSend
  | io (step : IoStep)
  | timeout
  | isWriting
  | shutdown
deriving DecidableEq

/-- The kernel takes bytes. -/
def IoStep.writes : IoStep → Bool
  | .write (.written _) => true
  | .write (.failed _) => false
  | .sendMessage => false
  | .encode => false
  | .disableWriting => false
  | .close => false

namespace Endpoint

variable {K : Type}

/-- **What is always true of a server's endpoint**, closed or not: it has no
requests to take, and asks for writable events as long as there is something
to write. -/
structure Serving (e : Endpoint K) : Prop where
  server : e.conn.type_ = .ConnectionByServer
  encoded : ∀ messages, e.phase ≠ .taken messages
  drained : e.phase = .written → e.conn.outputbuffer_.readable = []
  writing : e.conn.outputbuffer_.readable ≠ [] → e.conn.connectChannel_.EPOLLOUT = true

variable {e e' : Endpoint K}

/-- **The loop's thread** keeps it so, and what is on its way stays on its
way. -/
theorem Serving.io (h : Serving e) {step : IoStep} (he : e.io step = some e') :
    Serving e' ∧ e'.outgoing = e.outgoing ∧
      (e.conn.outputbuffer_.readable = [] → e'.conn.outputbuffer_.readable = []) := by
  cases ioMoves_of_io he with
  | sendMessage _ _ =>
    unfold sendMessage
    split
    · exact ⟨h, rfl, id⟩
    · rw [h.server]
      exact ⟨⟨h.server, fun _ => SendPhase.noConfusion, SendPhase.noConfusion, h.writing⟩,
        rfl, id⟩
  | @encode messages hphase => exact absurd hphase (h.encoded messages)
  | write _ hwrite =>
    have hflow := (flow_writeOnce hwrite).1.outgoing
    obtain ⟨⟨b, hconn⟩, ⟨sent, hsent⟩, hdrained, hencoded⟩ := outputbuffer_writeOnce hwrite
    refine ⟨⟨?_, hencoded, hdrained, fun hne => ?_⟩, ?_, fun hempty => ?_⟩
    · rw [hconn]
      exact h.server
    · rw [hconn]
      refine h.writing ?_
      rw [hsent]
      exact List.append_ne_nil_of_right_ne_nil _ hne
    · rw [hflow]
      simp
    · rw [hsent] at hempty
      exact (List.append_eq_nil_iff.mp hempty).2
  | disableWriting hwritten =>
    exact ⟨⟨h.server, fun _ => SendPhase.noConfusion, SendPhase.noConfusion,
      fun hne => absurd (h.drained hwritten) hne⟩, rfl, id⟩
  | close _ => exact ⟨⟨h.server, h.encoded, h.drained, h.writing⟩, rfl, id⟩

end Endpoint

namespace TimedConnection

variable {K : Type}

/-- A connection that is accepted, with whatever `lastTime_` holds. -/
def accept (clock : ℕ) (lastTime_ : ℤ) : TimedConnection K where
  clock := clock
  acceptedAt := clock
  lastTime_ := lastTime_

/-- **`Connection::timeout`**, with the difference of two `int64_t`. -/
def timeout (s : TimedConnection K) (timeval_ : ℤ) : Prop :=
  timeval_ < (millis s.clock - s.lastTime_).bmod (2 ^ 64)

instance (s : TimedConnection K) (timeval_ : ℤ) : Decidable (s.timeout timeval_) :=
  inferInstanceAs (Decidable (timeval_ < (millis s.clock - s.lastTime_).bmod (2 ^ 64)))

/-- **`Connection::isWriting`**. -/
def isWriting (s : TimedConnection K) : Bool := s.e.conn.connectChannel_.EPOLLOUT

/-- What was encoded and not written. -/
def unsent (s : TimedConnection K) : Bytes := s.e.conn.outputbuffer_.readable

/-- **`regSend`** of the responses to a batch. -/
def regSend (s : TimedConnection K) (batch : ℕ) (respond_pkgs : List TinyPBProtocol) :
    TimedConnection K :=
  if s.e.conn.disConnect = true then { s with dropped := s.dropped ++ [batch] }
  else
    { s with
      e := { s.e with conn := s.e.conn.regSend respond_pkgs }
      sent := s.sent ++ [(batch, respond_pkgs)] }

/-- **One step.** Without workers `OnMassage` runs in the loop's thread, and
`send` calls `regSend`; otherwise it queues a task, unless the connection is
closed. Data may arrive between the `readv` that finds nothing and the time
`lastTime_` is set to. -/
def step (ov : Overflow) (cfg : TimeoutConfig) (s : TimedConnection K) :
    TimedStep → Option (TimedConnection K)
  | .pass d => some { s with clock := s.clock + d }
  | .arrive data =>
    if data ≠ [] then
      some { s with unread := s.unread ++ data, lastArrival := some s.clock }
    else none
  | .onMessage =>
    if s.reading = .idle ∧ s.e.phase = .idle ∧ s.e.conn.connectChannel_.registeredIn = true then
      some { s with reading := .reading }
    else none
  | .readv n =>
    if s.reading = .reading ∧ 0 < n ∧ n ≤ s.unread.length
        ∧ n ≤ s.e.conn.inputbuffer_.writeableBytes + Buffer.extrabufSize then
      some
        { s with
          e := { s.e with
            conn := { s.e.conn with
              inputbuffer_ := s.e.conn.inputbuffer_.readFd (s.unread.take n) } }
          unread := s.unread.drop n }
    else none
  | .setLastTime =>
    if s.reading = .reading then
      some
        { s with
          lastTime_ := millis s.clock
          lastSet := some s.clock
          reading := .parsing }
    else none
  | .parseMsg =>
    if s.reading = .parsing then
      match s.e.conn.parseMsg ov with
      | .ok (c, request_pkgs) =>
        some
          { s with
            e := { s.e with conn := c }
            reading := if cfg.workThread_ = 0 then .handling else .idle
            handed := s.handed ++ [request_pkgs]
            working := s.working ++ [s.handed.length] }
      | .error _ => none
    else none
  | .endOfStream =>
    if s.reading = .reading ∧ s.unread = [] then
      some { s with e := { s.e with conn := s.e.conn.closeCallback }, reading := .idle }
    else none
  | .closeconnection =>
    if s.e.conn.disConnect = true ∧ s.ticking = .idle then some { s with listed := false }
    else none
  | .send batch respond_pkgs =>
    if batch ∈ s.working ∧ respond_pkgs.length = (s.handed.getD batch []).length then
      if cfg.workThread_ = 0 then
        if s.reading = .handling then
          some (({ s with
            working := s.working.erase batch
            reading := .idle } : TimedConnection K).regSend batch respond_pkgs)
        else none
      else if s.e.conn.disConnect = true then
        some
          { s with
            working := s.working.erase batch
            dropped := s.dropped ++ [batch] }
      else
        some
          { s with
            working := s.working.erase batch
            taskqueue_ := s.taskqueue_ ++ [(batch, respond_pkgs)] }
    else none
  | .regSend =>
    match s.taskqueue_ with
    | [] => none
    | (batch, respond_pkgs) :: tasks =>
      if s.reading = .idle ∧ s.e.phase = .idle then
        some (({ s with taskqueue_ := tasks } : TimedConnection K).regSend batch respond_pkgs)
      else none
  | .io step =>
    if s.reading = .idle ∧ (s.shut = true → step.writes = false) then
      (s.e.io step).map fun e => { s with e := e }
    else none
  | .timeout =>
    if s.ticking = .idle ∧ s.listed = true then
      some { s with ticking := if s.timeout cfg.timeout_ then .timedOut s.lastSet else .idle }
    else none
  | .isWriting =>
    match s.ticking with
    | .timedOut lastSet =>
      some
        { s with
          ticking := if s.isWriting = true then .idle else .notWriting lastSet s.sent.length }
    | .idle => none
    | .notWriting _ _ => none
  | .shutdown =>
    match s.ticking with
    | .notWriting _ _ => some { s with shut := true, ticking := .idle }
    | .idle => none
    | .timedOut _ => none

/-- The bytes of a list of responses. -/
def spell (respond_pkgs : List TinyPBProtocol) : Bytes := respond_pkgs.flatMap wire

/-- The requests that have arrived and were not parsed. -/
def unparsed (ov : Overflow) (s : TimedConnection K) : List TinyPBProtocol :=
  match decode ov (s.e.conn.inputbuffer_.readFd s.unread) with
  | .ok (request_pkgs, _) => request_pkgs
  | .error _ => []

/-- **The connection is idle**: the time has passed since it was accepted
and since data last arrived, and the response to every request has been
written. -/
structure Idle (ov : Overflow) (timeval_ : ℤ) (s : TimedConnection K) : Prop where
  accepted : Elapsed timeval_ s.acceptedAt s.clock
  arrived : ∀ t ∈ s.lastArrival, Elapsed timeval_ t s.clock
  parsed : s.unparsed ov = []
  written : ∀ batch request_pkgs, s.handed[batch]? = some request_pkgs → request_pkgs ≠ [] →
    Written spell s.sent s.e.socket batch

/-- **What the two tests do not show.** If `lastTime_` had not been set when
it was tested, the time has passed since the connection was accepted, and it
has passed since data arrived that came later; no request waits to be read
or parsed, is with a worker or has its responses in the queue, or got none
because the connection was closed; and what was encoded since `isWriting`
was tested has been written. -/
def Quiet (ov : Overflow) (timeval_ : ℤ) (s : TimedConnection K) : Prop :=
  (s.ticking.lastSet = none → Elapsed timeval_ s.acceptedAt s.clock) ∧
    (∀ t ∈ s.lastArrival, (∀ u ∈ s.ticking.lastSet, u < t) → Elapsed timeval_ t s.clock) ∧
    s.unparsed ov = [] ∧
    (∀ batch ∈ s.working ++ s.taskqueue_.map Prod.fst ++ s.dropped,
      s.handed.getD batch [] = []) ∧
    (s.ticking.replies < s.sent.length → s.unsent = [])

variable {ov : Overflow} {cfg : TimeoutConfig} {s s' : TimedConnection K} {l : TimedStep}

/-! ## Time -/

/-- What `timeout` finds of a time that was set. -/
theorem elapsed_of_timeout {timeval_ : ℤ} {u : ℕ} (hset : s.lastTime_ = millis u)
    (hu : u ≤ s.clock) (h : s.timeout timeval_) : Elapsed timeval_ u s.clock := by
  have hle : ∀ x : ℤ, 0 ≤ x → x.bmod (2 ^ 64) ≤ x := by
    intro x hx
    rw [Int.bmod_def]
    split <;> omega
  unfold timeout at h
  unfold Elapsed
  rw [hset] at h
  have hmillis : 0 ≤ millis s.clock - millis u := by
    unfold millis
    omega
  have hdiff := lt_of_lt_of_le h (hle _ hmillis)
  unfold millis at hdiff
  omega

/-! ## What is always true -/

/-- **What is always true of a server's connection**, while the loop's
thread or a worker has the batches `hand`. -/
structure Inv (cfg : TimeoutConfig) (hand : List ℕ) (s : TimedConnection K) : Prop where
  accepted : s.acceptedAt ≤ s.clock
  lastSet : ∀ u ∈ s.lastSet, s.acceptedAt ≤ u ∧ u ≤ s.clock ∧ s.lastTime_ = millis u
  tested : ∀ u ∈ s.ticking.lastSet, s.acceptedAt ≤ u ∧ Elapsed cfg.timeout_ u s.clock
  replied : s.ticking.replies ≤ s.sent.length
  notWriting : ∀ lastSet replies, s.ticking = .notWriting lastSet replies →
    s.sent.length = replies → s.unsent = []
  reading : s.reading ≠ .idle → s.e.phase = .idle
  serving : Endpoint.Serving s.e
  stream : s.e.outgoing = stream spell s.sent
  located : (hand ++ s.working ++ s.taskqueue_.map Prod.fst ++ s.sent.map Prod.fst
    ++ s.dropped).Perm (List.range s.handed.length)
  answered : ∀ entry ∈ s.taskqueue_ ++ s.sent,
    entry.2.length = (s.handed.getD entry.1 []).length

theorem inv_accept (clock : ℕ) (lastTime_ : ℤ) :
    Inv cfg [] (accept clock lastTime_ : TimedConnection K) where
  accepted := le_refl clock
  lastSet := fun _ h => by cases h
  tested := fun _ h => by cases h
  replied := le_refl 0
  notWriting := fun _ _ h => TickPhase.noConfusion h
  reading := fun h => absurd rfl h
  serving := ⟨rfl, fun _ => SendPhase.noConfusion, SendPhase.noConfusion, fun h => absurd rfl h⟩
  stream := rfl
  located := List.Perm.refl _
  answered := fun _ h => by cases h

/-! ## Batches and their responses -/

/-- A number that is in hand, or anywhere else, is that of a batch. -/
theorem Inv.lt_length {hand : List ℕ} (h : Inv cfg hand s) {batch : ℕ}
    (hmem : batch ∈ hand ++ s.working ++ s.taskqueue_.map Prod.fst ++ s.sent.map Prod.fst
      ++ s.dropped) : batch < s.handed.length :=
  List.mem_range.mp (h.located.mem_iff.mp hmem)

/-- The thread of the loop, or a worker, is done with the batch in its
hand. -/
theorem inv_regSend {batch : ℕ} {respond_pkgs : List TinyPBProtocol}
    (h : Inv cfg [batch] s) (hphase : s.e.phase = .idle)
    (hlength : respond_pkgs.length = (s.handed.getD batch []).length) :
    Inv cfg [] (s.regSend batch respond_pkgs) := by
  unfold regSend
  split
  case isTrue =>
    refine { h with located := List.Perm.trans ?_ h.located }
    show (s.working ++ s.taskqueue_.map Prod.fst ++ s.sent.map Prod.fst
      ++ (s.dropped ++ [batch])).Perm _
    rw [← List.append_assoc]
    exact List.perm_append_comm
  case isFalse hup =>
    have hflow := (Endpoint.flow_regSend s.e respond_pkgs).outgoing
    rw [if_neg hup] at hflow
    have hconn := ServerOutput.regSend_eq s.e.conn respond_pkgs (Bool.not_eq_true _ ▸ hup)
    refine ⟨h.accepted, h.lastSet, h.tested, ?_, ?_, h.reading, ?_, ?_, ?_, ?_⟩
    · show s.ticking.replies ≤ (s.sent ++ [(batch, respond_pkgs)]).length
      rw [List.length_append]
      exact h.replied.trans (Nat.le_add_right _ _)
    · -- the replies that were counted are not all of them any more
      intro lastSet replies hticking hlen
      have hreplied : replies ≤ s.sent.length := by
        have := h.replied
        rwa [show s.ticking = .notWriting lastSet replies from hticking] at this
      rw [List.length_append] at hlen
      simp only [List.length_singleton] at hlen
      omega
    · rw [hconn]
      refine ⟨h.serving.server, h.serving.encoded, fun hwritten => ?_, fun _ => rfl⟩
      exact absurd (hphase.symm.trans hwritten) SendPhase.noConfusion
    · show Endpoint.outgoing { s.e with conn := s.e.conn.regSend respond_pkgs }
        = EntryStream.stream spell (s.sent ++ [(batch, respond_pkgs)])
      rw [hflow, h.stream, stream_append]
      simp [EntryStream.stream, spell]
    · refine List.Perm.trans ?_ h.located
      show (s.working ++ s.taskqueue_.map Prod.fst
        ++ (s.sent ++ [(batch, respond_pkgs)]).map Prod.fst ++ s.dropped).Perm _
      rw [List.map_append, ← List.append_assoc, List.append_assoc _ _ s.dropped]
      exact List.perm_middle.trans (List.Perm.of_eq (by simp))
    · intro entry hentry
      rcases List.mem_append.mp hentry with hmem | hmem
      · exact h.answered entry (List.mem_append_left _ hmem)
      · rcases List.mem_append.mp hmem with hmem | hmem
        · exact h.answered entry (List.mem_append_right _ hmem)
        · rw [List.mem_singleton.mp hmem]
          exact hlength

/-- A batch is taken from those that are worked on. -/
theorem inv_erase_working (h : Inv cfg [] s) {batch : ℕ} (hmem : batch ∈ s.working)
    {phase : ReadPhase} (hreading : phase ≠ .idle → s.e.phase = .idle) :
    Inv cfg [batch] { s with working := s.working.erase batch, reading := phase } := by
  refine { h with reading := hreading, located := List.Perm.trans ?_ h.located }
  exact ((((List.perm_cons_erase hmem).symm).append_right _).append_right _).append_right _

/-! ## All steps -/

/-- Requests are handed over, under the next number. -/
theorem inv_parseMsg (h : Inv cfg [] s) (hs : s.step ov cfg .parseMsg = some s') :
    Inv cfg [] s' := by
  rw [step] at hs
  split at hs
  case isFalse => cases hs
  case isTrue hparsing =>
    split at hs
    · rename_i c request_pkgs hparse
      obtain rfl := Option.some.inj hs
      obtain ⟨b, read, -, rfl⟩ := Connection.parseMsg_eq_ok hparse
      have hphase := h.reading (by rw [hparsing]; exact ReadPhase.noConfusion)
      refine { h with
        reading := fun _ => hphase
        serving := ⟨h.serving.server, h.serving.encoded, h.serving.drained, h.serving.writing⟩
        located := ?_
        answered := fun entry hentry => ?_ }
      · rw [List.length_append, List.length_singleton, List.range_succ]
        refine List.Perm.trans ?_ (h.located.append_right [s.handed.length])
        simp only [List.nil_append, List.append_assoc]
        refine List.Perm.append_left _ ?_
        exact List.perm_append_comm.trans (List.Perm.of_eq (by simp))
      · have hlt : entry.1 < s.handed.length := by
          refine h.lt_length ?_
          have hids : entry.1 ∈ (s.taskqueue_ ++ s.sent).map Prod.fst := List.mem_map_of_mem hentry
          rw [List.map_append, List.mem_append] at hids
          simp only [List.mem_append]
          exact hids.elim (fun hq => .inl (.inl (.inr hq))) fun hq => .inl (.inr hq)
        rw [List.getD_append _ _ _ _ hlt]
        exact h.answered entry hentry
    · cases hs

/-- `OnMassage` sends its responses: to the output buffer, or to the
queue. -/
theorem inv_send (h : Inv cfg [] s) {batch : ℕ} {respond_pkgs : List TinyPBProtocol}
    (hs : s.step ov cfg (.send batch respond_pkgs) = some s') : Inv cfg [] s' := by
  rw [step] at hs
  split at hs
  case isFalse => cases hs
  case isTrue hbatch =>
    split at hs
    · -- the loop's thread runs `OnMassage`, and so is in no `sendMessage`
      split at hs
      · rename_i hhandling
        obtain rfl := Option.some.inj hs
        have hphase := h.reading (by rw [hhandling]; exact ReadPhase.noConfusion)
        exact inv_regSend (inv_erase_working h hbatch.1 fun h => absurd rfl h) hphase hbatch.2
      · cases hs
    · have herase := inv_erase_working h hbatch.1 h.reading
      split at hs
      · obtain rfl := Option.some.inj hs
        refine { herase with located := List.Perm.trans ?_ herase.located }
        show (s.working.erase batch ++ s.taskqueue_.map Prod.fst ++ s.sent.map Prod.fst
          ++ (s.dropped ++ [batch])).Perm _
        rw [← List.append_assoc]
        exact List.perm_append_comm
      · obtain rfl := Option.some.inj hs
        refine { herase with
          located := List.Perm.trans ?_ herase.located
          answered := fun entry hentry => ?_ }
        · show (s.working.erase batch ++ (s.taskqueue_ ++ [(batch, respond_pkgs)]).map Prod.fst
            ++ s.sent.map Prod.fst ++ s.dropped).Perm _
          rw [List.map_append, ← List.append_assoc, List.append_assoc, List.append_assoc]
          exact List.perm_middle.trans (List.Perm.of_eq (by simp))
        · rw [List.append_assoc, List.mem_append, List.mem_append] at hentry
          rcases hentry with hmem | hmem | hmem
          · exact h.answered entry (List.mem_append_left _ hmem)
          · rw [List.mem_singleton.mp hmem]
            exact hbatch.2
          · exact h.answered entry (List.mem_append_right _ hmem)

/-- The main loop's thread is done with the connection. -/
theorem inv_idle (h : Inv cfg [] s) : Inv cfg [] { s with ticking := .idle } :=
  { h with
    tested := fun _ hu => by cases hu
    replied := Nat.zero_le _
    notWriting := fun _ _ h => TickPhase.noConfusion h }

/-- **The first task of the loop** is run. -/
theorem inv_task (h : Inv cfg [] s) (hs : s.step ov cfg .regSend = some s') : Inv cfg [] s' := by
  rw [step] at hs
  split at hs
  · cases hs
  · rename_i batch respond_pkgs tasks hqueue
    obtain ⟨hidle, hs⟩ := Option.ite_none_right_eq_some.mp hs
    obtain rfl := Option.some.inj hs
    have hmem : (batch, respond_pkgs) ∈ s.taskqueue_ ++ s.sent := by
      rw [hqueue]
      exact List.mem_cons_self ..
    refine inv_regSend { h with
      located := List.Perm.trans ?_ h.located
      answered := fun entry hentry => ?_ } hidle.2 (h.answered _ hmem)
    · rw [hqueue]
      exact (List.perm_middle.symm.append_right _).append_right _
    · refine h.answered entry ?_
      rw [hqueue]
      exact List.mem_cons_of_mem _ hentry

/-- `timeout` is tested, and remembers when `lastTime_` was set. -/
theorem inv_timeout (h : Inv cfg [] s) (hs : s.step ov cfg .timeout = some s') :
    Inv cfg [] s' := by
  obtain ⟨-, hs⟩ := Option.ite_none_right_eq_some.mp hs
  obtain rfl := Option.some.inj hs
  by_cases htimeout : s.timeout cfg.timeout_
  · rw [if_pos htimeout]
    refine { h with
      tested := fun u hu => ?_
      replied := Nat.zero_le _
      notWriting := fun _ _ h => TickPhase.noConfusion h }
    obtain ⟨hacc, hle, hset⟩ := h.lastSet u hu
    exact ⟨hacc, elapsed_of_timeout hset hle htimeout⟩
  · rw [if_neg htimeout]
    exact inv_idle h

/-- `isWriting` is tested, and false only when nothing is unsent. -/
theorem inv_isWriting (h : Inv cfg [] s) (hs : s.step ov cfg .isWriting = some s') :
    Inv cfg [] s' := by
  rw [step] at hs
  split at hs
  case h_1 lastSet hticking =>
    obtain rfl := Option.some.inj hs
    split
    · exact inv_idle h
    · rename_i hnot
      refine { h with
        tested := fun u hu => h.tested u (by rw [hticking]; exact hu)
        replied := le_refl _
        notWriting := fun _ _ _ _ => ?_ }
      by_contra hne
      exact hnot (h.serving.writing hne)
  case h_2 => cases hs
  case h_3 => cases hs

/-- **Every step keeps a server's connection in order.** -/
theorem inv_step (h : Inv cfg [] s) (hs : s.step ov cfg l = some s') : Inv cfg [] s' := by
  cases l with
  | pass d =>
    obtain rfl := Option.some.inj hs
    refine { h with
      accepted := h.accepted.trans (Nat.le_add_right _ d)
      lastSet := fun u hu => ?_
      tested := fun u hu => ⟨(h.tested u hu).1, (h.tested u hu).2.later d⟩ }
    obtain ⟨hacc, hle, hset⟩ := h.lastSet u hu
    exact ⟨hacc, hle.trans (Nat.le_add_right _ d), hset⟩
  | arrive data =>
    obtain ⟨-, hs⟩ := Option.ite_none_right_eq_some.mp hs
    obtain rfl := Option.some.inj hs
    exact { h with }
  | onMessage =>
    obtain ⟨hidle, hs⟩ := Option.ite_none_right_eq_some.mp hs
    obtain rfl := Option.some.inj hs
    exact { h with reading := fun _ => hidle.2.1 }
  | readv n =>
    obtain ⟨-, hs⟩ := Option.ite_none_right_eq_some.mp hs
    obtain rfl := Option.some.inj hs
    exact { h with
      serving := ⟨h.serving.server, h.serving.encoded, h.serving.drained, h.serving.writing⟩ }
  | setLastTime =>
    obtain ⟨hreading, hs⟩ := Option.ite_none_right_eq_some.mp hs
    obtain rfl := Option.some.inj hs
    refine { h with
      lastSet := fun u hu => ?_
      reading := fun _ => h.reading (by rw [hreading]; exact ReadPhase.noConfusion) }
    obtain rfl := Option.some.inj hu
    exact ⟨h.accepted, le_refl _, rfl⟩
  | parseMsg => exact inv_parseMsg h hs
  | endOfStream =>
    obtain ⟨-, hs⟩ := Option.ite_none_right_eq_some.mp hs
    obtain rfl := Option.some.inj hs
    exact { h with
      reading := fun h => absurd rfl h
      serving := ⟨h.serving.server, h.serving.encoded, h.serving.drained, h.serving.writing⟩ }
  | closeconnection =>
    obtain ⟨-, hs⟩ := Option.ite_none_right_eq_some.mp hs
    obtain rfl := Option.some.inj hs
    exact { h with }
  | send batch respond_pkgs => exact inv_send h hs
  | regSend => exact inv_task h hs
  | io step =>
    rw [TimedConnection.step] at hs
    split at hs
    case isFalse => cases hs
    case isTrue hidle =>
      obtain ⟨e, he, rfl⟩ := Option.map_eq_some_iff.mp hs
      obtain ⟨hserving, houtgoing, hsent⟩ := h.serving.io he
      exact { h with
        notWriting := fun lastSet replies hticking hlength =>
          hsent (h.notWriting lastSet replies hticking hlength)
        reading := fun hne => absurd hidle.1 hne
        serving := hserving
        stream := houtgoing.trans h.stream }
  | timeout => exact inv_timeout h hs
  | isWriting => exact inv_isWriting h hs
  | shutdown =>
    rw [step] at hs
    split at hs
    case h_1 =>
      obtain rfl := Option.some.inj hs
      exact { inv_idle h with }
    case h_2 => cases hs
    case h_3 => cases hs

/-! ## When the connection is idle -/

theorem nodup_located (h : Inv cfg [] s) :
    (s.working ++ s.taskqueue_.map Prod.fst ++ s.sent.map Prod.fst ++ s.dropped).Nodup :=
  h.located.nodup_iff.mpr List.nodup_range

/-- The responses to a batch with requests spell something. -/
theorem spell_ne_nil (h : Inv cfg [] s) {batch : ℕ} {respond_pkgs : List TinyPBProtocol}
    (hmem : (batch, respond_pkgs) ∈ s.sent) (hspell : spell respond_pkgs ≠ []) :
    s.handed.getD batch [] ≠ [] := by
  intro hempty
  have hlength := h.answered _ (List.mem_append_right _ hmem)
  rw [hempty] at hlength
  have hnil : respond_pkgs = [] := List.eq_nil_of_length_eq_zero hlength
  rw [hnil] at hspell
  exact hspell rfl

/-- Where the responses are written, nothing is unsent. -/
theorem unsent_of_written (h : Inv cfg [] s)
    (hwritten : ∀ batch, s.handed.getD batch [] ≠ [] → Written spell s.sent s.e.socket batch) :
    s.unsent = [] := by
  have hnodup : (s.sent.map Prod.fst).Nodup := by
    have hall := nodup_located h
    rw [List.nodup_append, List.nodup_append] at hall
    exact hall.1.2.1
  have hprefix : EntryStream.stream spell s.sent <+: s.e.socket :=
    prefix_of_written hnodup fun batch respond_pkgs hmem hspell =>
      hwritten batch (spell_ne_nil h hmem hspell)
  have hstream : s.e.socket ++ s.unsent = EntryStream.stream spell s.sent := h.stream
  have hlength := hprefix.length_le
  rw [← hstream, List.length_append] at hlength
  exact List.eq_nil_of_length_eq_zero (by omega)

/-- A batch whose responses were encoded is nowhere else. -/
theorem not_mem_of_sent (h : Inv cfg [] s) {batch : ℕ}
    (hsent : batch ∈ s.sent.map Prod.fst) :
    batch ∉ s.working ++ s.taskqueue_.map Prod.fst ++ s.dropped := by
  have hperm : (s.working ++ s.taskqueue_.map Prod.fst ++ s.sent.map Prod.fst
      ++ s.dropped).Perm
      ((s.working ++ s.taskqueue_.map Prod.fst ++ s.dropped) ++ s.sent.map Prod.fst) := by
    simp only [List.append_assoc]
    exact List.Perm.append_left _ (List.Perm.append_left _ List.perm_append_comm)
  intro hmem
  exact (List.nodup_append.mp (hperm.nodup_iff.mp (nodup_located h))).2.2
    batch hmem batch hsent rfl

/-- A batch that was handed over and is nowhere else has had its responses
encoded. -/
theorem mem_sent (h : Inv cfg [] s) {batch : ℕ} (hlt : batch < s.handed.length)
    (hnot : batch ∉ s.working ++ s.taskqueue_.map Prod.fst ++ s.dropped) :
    batch ∈ s.sent.map Prod.fst := by
  have hmem := h.located.mem_iff.mpr (List.mem_range.mpr hlt)
  simp only [List.nil_append, List.mem_append] at hmem hnot
  rcases hmem with (hmem | hmem) | hmem
  · exact absurd (.inl hmem) hnot
  · exact hmem
  · exact absurd (.inr hmem) hnot

theorem getD_handed {batch : ℕ} {request_pkgs : List TinyPBProtocol}
    (hget : s.handed[batch]? = some request_pkgs) : s.handed.getD batch [] = request_pkgs := by
  rw [List.getD_eq_getElem?_getD, hget]
  rfl

/-- A connection that is idle is quiet. -/
theorem quiet_of_idle (h : Inv cfg [] s) (hidle : Idle ov cfg.timeout_ s) :
    Quiet ov cfg.timeout_ s := by
  have hwritten : ∀ batch, s.handed.getD batch [] ≠ [] →
      Written spell s.sent s.e.socket batch := by
    intro batch hne
    cases hget : s.handed[batch]? with
    | none =>
      rw [List.getD_eq_getElem?_getD, hget] at hne
      exact absurd rfl hne
    | some request_pkgs =>
      rw [getD_handed hget] at hne
      exact hidle.written batch request_pkgs hget hne
  refine ⟨fun _ => hidle.accepted, fun t ht _ => hidle.arrived t ht, hidle.parsed,
    fun batch hmem => ?_, fun _ => unsent_of_written h hwritten⟩
  by_contra hne
  exact not_mem_of_sent h (hwritten batch hne).mem hmem

/-- What was found when `isWriting` was tested: all that is not encoded since
has been written. -/
theorem unsent_of_replies (h : Inv cfg [] s) {lastSet : Option ℕ} {replies : ℕ}
    (hticking : s.ticking = .notWriting lastSet replies)
    (hsent : s.ticking.replies < s.sent.length → s.unsent = []) : s.unsent = [] := by
  by_cases hlt : s.ticking.replies < s.sent.length
  · exact hsent hlt
  · refine h.notWriting lastSet replies hticking ?_
    have hreplied := h.replied
    rw [hticking] at hlt hreplied
    exact le_antisymm (not_lt.mp hlt) hreplied

/-- A connection that is quiet, and whose `isWriting` was false, is idle. -/
theorem idle_of_quiet (h : Inv cfg [] s) {lastSet : Option ℕ} {replies : ℕ}
    (hticking : s.ticking = .notWriting lastSet replies) (hquiet : Quiet ov cfg.timeout_ s) :
    Idle ov cfg.timeout_ s := by
  obtain ⟨hset, harrived, hparsed, hlocated, hsent⟩ := hquiet
  have hstream : s.e.socket ++ s.unsent = EntryStream.stream spell s.sent := h.stream
  rw [unsent_of_replies h hticking hsent, List.append_nil] at hstream
  refine ⟨?_, fun t ht => ?_, hparsed, fun batch request_pkgs hget hne => ?_⟩
  · cases hlast : s.ticking.lastSet with
    | none => exact hset hlast
    | some u => exact (h.tested u hlast).2.earlier (h.tested u hlast).1
  · by_cases hlater : ∀ u ∈ s.ticking.lastSet, u < t
    · exact harrived t ht hlater
    · simp only [not_forall, not_lt] at hlater
      obtain ⟨u, hu, hle⟩ := hlater
      exact (h.tested u hu).2.earlier hle
  · refine written_of_prefix ⟨[], by rw [hstream, List.append_nil]⟩ ?_
    refine mem_sent h (List.getElem?_eq_some_iff.mp hget).1 fun hmem => hne ?_
    exact (getD_handed hget).symm.trans (hlocated batch hmem)

/-- **A connection is shut down that is idle**, in any run and at any time,
if and only if the state is quiet. -/
theorem shutdown_iff {clock : ℕ} {lastTime_ : ℤ}
    (hrun : Runs (step ov cfg) anyStep (accept clock lastTime_) s)
    (hs : s.step ov cfg .shutdown = some s') :
    Idle ov cfg.timeout_ s ↔ Quiet ov cfg.timeout_ s := by
  have h : Inv cfg [] s := hrun.invariant (I := Inv cfg []) (fun _ _ _ h _ hs => inv_step h hs)
    (inv_accept clock lastTime_)
  rw [step] at hs
  split at hs
  case h_1 lastSet replies hticking => exact ⟨quiet_of_idle h, idle_of_quiet h hticking⟩
  case h_2 => cases hs
  case h_3 => cases hs

instance (ov : Overflow) (timeval_ : ℤ) (s : TimedConnection K) : Decidable (Quiet ov timeval_ s) :=
  inferInstanceAs (Decidable (
    (s.ticking.lastSet = none → Elapsed timeval_ s.acceptedAt s.clock) ∧
      (∀ t ∈ s.lastArrival, (∀ u ∈ s.ticking.lastSet, u < t) → Elapsed timeval_ t s.clock) ∧
      s.unparsed ov = [] ∧
      (∀ batch ∈ s.working ++ s.taskqueue_.map Prod.fst ++ s.dropped,
        s.handed.getD batch [] = []) ∧
      (s.ticking.replies < s.sent.length → s.unsent = [])))

/-- A request arrives, is read and handed to a worker. -/
def oneRequest : List TimedStep :=
  [.arrive (wire { msg_id_ := Bytes.ofString "1" }), .onMessage, .readv 24, .setLastTime,
    .parseMsg]

/-- The worker answers, and the response is written. -/
def oneResponse : List TimedStep :=
  [.send 0 [{ msg_id_ := Bytes.ofString "1" }], .regSend, .io .sendMessage,
    .io (.write (.written 24)), .io .disableWriting]

/-- The main loop finds the time over. -/
def twoTests : List TimedStep := [.timeout, .isWriting]

/-- Five seconds after the response the connection is shut down, and is
idle. -/
theorem shutdown_answered :
    ∃ s : TimedConnection Unit, Idle .trap 5000 s ∧ s.handed.length = 1 ∧
      ∃ s', s.step .trap ⟨1, 5000⟩ .shutdown = some s' := by
  obtain ⟨s, hruns, h⟩ : ∃ s : TimedConnection Unit,
      Runs (step .trap ⟨1, 5000⟩) anyStep (accept 0 0) s ∧
        decide (Quiet .trap 5000 s ∧ s.handed.length = 1 ∧
          (s.step .trap ⟨1, 5000⟩ .shutdown).isSome = true) = true :=
    exists_of_execute (oneRequest ++ oneResponse ++ [.pass 5001000] ++ twoTests)
      (by decide +kernel)
  obtain ⟨hquiet, hlength, hshutdown⟩ := of_decide_eq_true h
  obtain ⟨s', hs⟩ := Option.isSome_iff_exists.mp hshutdown
  exact ⟨s, (shutdown_iff hruns hs).mpr hquiet, hlength, s', hs⟩

/-- A connection is shut down as soon as it is accepted, for what `lastTime_`
happened to hold; and another while its request is with a worker. -/
theorem not_idle :
    (∃ s s' : TimedConnection Unit,
      Runs (step .trap ⟨1, 5000⟩) anyStep (accept 1700000000000000 0) s ∧
        s.step .trap ⟨1, 5000⟩ .shutdown = some s' ∧ ¬ Elapsed 5000 s.acceptedAt s.clock) ∧
      ∃ s s' : TimedConnection Unit,
        Runs (step .trap ⟨1, 5000⟩) anyStep (accept 1700000000000000 0) s ∧
          s.step .trap ⟨1, 5000⟩ .shutdown = some s' ∧ Elapsed 5000 s.acceptedAt s.clock ∧
          ¬ Idle .trap 5000 s := by
  constructor
  · obtain ⟨s, hruns, h⟩ : ∃ s : TimedConnection Unit,
        Runs (step .trap ⟨1, 5000⟩) anyStep (accept 1700000000000000 0) s ∧
          decide (¬ Elapsed 5000 s.acceptedAt s.clock ∧
            (s.step .trap ⟨1, 5000⟩ .shutdown).isSome = true) = true :=
      exists_of_execute twoTests (by decide +kernel)
    obtain ⟨helapsed, hshutdown⟩ := of_decide_eq_true h
    obtain ⟨s', hs⟩ := Option.isSome_iff_exists.mp hshutdown
    exact ⟨s, s', hruns, hs, helapsed⟩
  · obtain ⟨s, hruns, h⟩ : ∃ s : TimedConnection Unit,
        Runs (step .trap ⟨1, 5000⟩) anyStep (accept 1700000000000000 0) s ∧
          decide (Elapsed 5000 s.acceptedAt s.clock ∧ s.sent = [] ∧
            s.handed[0]?.any (fun request_pkgs => !request_pkgs.isEmpty) = true ∧
            (s.step .trap ⟨1, 5000⟩ .shutdown).isSome = true) = true :=
      exists_of_execute (oneRequest ++ [.pass 5001000] ++ twoTests) (by decide +kernel)
    obtain ⟨helapsed, hsent, hhanded, hshutdown⟩ := of_decide_eq_true h
    obtain ⟨s', hs⟩ := Option.isSome_iff_exists.mp hshutdown
    refine ⟨s, s', hruns, hs, helapsed, fun hidle => ?_⟩
    obtain ⟨request_pkgs, hget, hne⟩ := (Option.any_eq_true _ _).mp hhanded
    have hwritten := hidle.written 0 request_pkgs hget (by rintro rfl; cases hne)
    have hmem := hwritten.mem
    rw [hsent] at hmem
    cases hmem

end TimedConnection

end PbRpc
