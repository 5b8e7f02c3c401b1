import PbRpc.OnMessage
import PbRpc.EdgeTriggered
import PbRpc.ServerOutput

/-!
# A client's connection on its loop

The channel of a connection is registered edge-triggered. What `epoll_wait`
returns is kept in `revents_`, and `handleEvent` runs one callback for it:
of the bits that are set, the first of a chain of tests decides.

A report is fetched once. So a report that is writable and readable at once
goes to `onMessage`, and its writable bit is gone: output that was waiting
for it waits on, until a call registers the channel anew or the socket has
been full in between (`ClientLoop.not_served`). As long as the reports that
come while output is pending are writable and nothing that the chain tests
before, no output is left behind (`ClientLoop.served_iff`).

The one other exception is a connection that was closed and registered
again by a later call: `sendMessage` is run for its reports, and returns at
once.
-/

namespace PbRpc

open TinyPBCoder EdgeTriggered Transition

/-- The bits of an event mask. -/
inductive EpollEvent where
  | EPOLLIN
  | EPOLLPRI
  | EPOLLOUT
  | EPOLLERR
  | EPOLLHUP
  | EPOLLRDHUP
deriving DecidableEq, Repr

/-- The callbacks of a channel. -/
inductive ChannelCallback where
  | readcallback_
  | closecallback_
  | errorcallback_
  | writecallback_
deriving DecidableEq, Repr

namespace Channel

/-- What is reported to a channel: what it asks for, and the two events that
are always reported. -/
def events (ch : Channel) : Finset EpollEvent :=
  if ch.inepoll_ then
    (if ch.EPOLLIN then {.EPOLLIN} else ∅) ∪ (if ch.EPOLLOUT then {.EPOLLOUT} else ∅)
      ∪ {.EPOLLERR, .EPOLLHUP}
  else ∅

/-- **`handleEvent`**: the callback that is run. -/
def handleEvent (revents_ : Finset EpollEvent) : ChannelCallback :=
  if .EPOLLRDHUP ∈ revents_ then .closecallback_
  else if .EPOLLIN ∈ revents_ ∨ .EPOLLPRI ∈ revents_ then .readcallback_
  else if .EPOLLOUT ∈ revents_ then .writecallback_
  else .errorcallback_

theorem writable_mem_events {ch : Channel} :
    .EPOLLOUT ∈ ch.events ↔ ch.registeredOut = true := by
  obtain ⟨readable, writable, inepoll_⟩ := ch
  revert readable writable inepoll_
  decide

theorem handleEvent_eq_writecallback {revents_ : Finset EpollEvent} (h : .EPOLLOUT ∈ revents_) :
    handleEvent revents_ = .writecallback_ ↔
      .EPOLLRDHUP ∉ revents_ ∧ .EPOLLIN ∉ revents_ ∧ .EPOLLPRI ∉ revents_ := by
  unfold handleEvent
  by_cases hclosed : EpollEvent.EPOLLRDHUP ∈ revents_
  · simp [hclosed]
  · by_cases hread : EpollEvent.EPOLLIN ∈ revents_ ∨ EpollEvent.EPOLLPRI ∈ revents_
    · simp only [hclosed, hread, if_true, if_false, not_false_eq_true, true_and]
      refine iff_of_false (fun h => (by cases h)) fun hnot => ?_
      exact hread.elim hnot.1 hnot.2
    · simp [hclosed, not_or.mp hread, h]

end Channel

namespace Connection

variable {K : Type}

/-- Requests wait to be taken, or bytes to be written. -/
def pendingOutput (c : Connection K) : Prop :=
  c.write_dones_ ≠ [] ∨ c.outputbuffer_.readableBytes ≠ 0

instance (c : Connection K) : Decidable c.pendingOutput :=
  inferInstanceAs (Decidable (c.write_dones_ ≠ [] ∨ c.outputbuffer_.readableBytes ≠ 0))

end Connection

/-- **A client's connection**, where the thread of its loop is with it, and
its socket as `epoll` sees it. -/
structure ClientLoop (K : Type) where
  conn : Connection K := { type_ := .ConnectionByClient }
  phase : SendPhase := .idle
  /-- The thread is in `onMessage`. -/
  reading : Bool := false
  socket : Source EpollEvent
  /-- A report that is fetched and not handled. -/
  revents_ : Option (Finset EpollEvent) := none

/-- The steps of the loop's thread, and of the socket. -/
inductive ClientLoopStep (K : Type) where
  /-- The keepalive packet, which does not register the channel. -/
  | pushSendMessage (message : TinyPBProtocol) (done : K)
  /-- `CallMethod`: `pushSendMessage` and `enableWriting`. -/
  | call (message : TinyPBProtocol) (done : K)
  /-- Events happen at the socket. -/
  | happen (events : Finset EpollEvent)
  | epoll_wait
  | handleEvent
  /-- A round of `onMessage`, and whether the socket is still readable. -/
  | readv (result : ReadResult) (readable : Bool)
  | encode
  /-- A round of `sendMessage`, and whether the socket is still writable. -/
  | write (result : WriteResult) (writable : Bool)
  | disableWriting

namespace ClientLoop

variable {K : Type}

/-- The report that `handleEvent` will find. -/
def reported (s : ClientLoop K) : Finset EpollEvent := s.revents_.getD ∅

/-- The connection as `sendMessage` works on it. -/
def endpoint (s : ClientLoop K) : Endpoint K := { conn := s.conn, phase := s.phase }

/-- `sendMessage` has gone on. -/
def follow (s : ClientLoop K) (e : Endpoint K) : ClientLoop K :=
  { s with conn := e.conn, phase := e.phase }

/-- `epoll_ctl` with what the channel asks for. -/
def setChannel (s : ClientLoop K) : ClientLoop K :=
  { s with socket := s.socket.register s.conn.connectChannel_.events }

/-- The connection is marked, and its channel taken out of the tree. The
error callback does the same. -/
def closeCallback (s : ClientLoop K) : ClientLoop K :=
  { s with conn := s.conn.closeCallback, socket := s.socket.clear }

/-- `sendMessage` up to the encoding. The write callback of a call, and not
that of a keepalive package, calls `enableReading`. -/
def sendMessage (s : ClientLoop K) : ClientLoop K :=
  if s.conn.disConnect = true ∨ ∀ entry ∈ s.conn.write_dones_, entry.1.msg_type_ = 1 then
    s.follow s.endpoint.sendMessage
  else (s.follow s.endpoint.sendMessage).setChannel

def run (s : ClientLoop K) : ChannelCallback → ClientLoop K
  | .readcallback_ => { s with reading := true }
  | .closecallback_ => s.closeCallback
  | .errorcallback_ => s.closeCallback
  | .writecallback_ => s.sendMessage

/-- **One step.** A socket is not readable or writable when it was just
found not to be. -/
def step (ov : Overflow) (s : ClientLoop K) : ClientLoopStep K → Option (ClientLoop K)
  | .pushSendMessage message done => some { s with conn := s.conn.pushSendMessage message done }
  | .call message done =>
    some { s with conn := (s.conn.pushSendMessage message done).enableWriting }.setChannel
  | .happen events =>
    some { s with socket := s.socket.happen s.conn.connectChannel_.events events }
  | .epoll_wait =>
    if s.phase = .idle ∧ s.reading = false ∧ s.revents_ = none ∧ s.socket.due = true then
      let revents := s.socket.report s.conn.connectChannel_.events
      some
        { s with
          socket := s.socket.clear
          revents_ := if revents = ∅ then none else some revents }
    else none
  | .handleEvent =>
    s.revents_.map fun revents =>
      ({ s with revents_ := none } : ClientLoop K).run (Channel.handleEvent revents)
  | .readv result readable =>
    if s.reading = true then
      let socket :=
        if readable = true ∧ result ≠ .failed .EAGAIN then s.socket
        else s.socket.subside .EPOLLIN
      match Connection.readRound ov { conn := s.conn } result with
      | .again r => some { s with conn := r.conn, socket := socket }
      | .left (.ok r) =>
        some
          { s with
            conn := r.conn
            reading := false
            socket := if r.conn.connectChannel_.inepoll_ = true then socket else socket.clear }
      | .left (.error _) => none
    else none
  | .encode => (s.endpoint.io .encode).map s.follow
  | .write result writable =>
    (s.endpoint.io (.write result)).map fun e =>
      { s.follow e with
        socket :=
          if writable = true ∧ result ≠ .failed .EAGAIN then s.socket
          else s.socket.subside .EPOLLOUT }
  | .disableWriting => (s.endpoint.io .disableWriting).map fun e => (s.follow e).setChannel

/-- **Output waits for nothing**: the socket is writable and the channel
registered for it, and no report is due or to be handled. -/
def Stalled (s : ClientLoop K) : Prop :=
  s.phase = .idle ∧ s.conn.pendingOutput ∧ .EPOLLOUT ∈ s.socket.level ∧
    s.conn.connectChannel_.registeredOut = true ∧ s.socket.due = false ∧ s.revents_ = none

/-- **`sendMessage` is run for a report that is writable**, when output is
pending. -/
def Serves (s : ClientLoop K) : ClientLoopStep K → Prop
  | .handleEvent => .EPOLLOUT ∈ s.reported → s.conn.pendingOutput →
      Channel.handleEvent s.reported = .writecallback_
  | _ => True

/-- **A report that is writable while output is pending** is not readable and
not the end of the stream; and if the connection was closed before, another
report is due already. -/
def Clear (s : ClientLoop K) : ClientLoopStep K → Prop
  | .handleEvent => .EPOLLOUT ∈ s.reported → s.conn.pendingOutput →
      (.EPOLLRDHUP ∉ s.reported ∧ .EPOLLIN ∉ s.reported ∧ .EPOLLPRI ∉ s.reported) ∧
        (s.conn.disConnect = true → s.socket.due = true)
  | _ => True

instance (s : ClientLoop K) : Decidable (Stalled s) :=
  inferInstanceAs (Decidable (s.phase = .idle ∧ s.conn.pendingOutput ∧
    .EPOLLOUT ∈ s.socket.level ∧ s.conn.connectChannel_.registeredOut = true ∧
    s.socket.due = false ∧ s.revents_ = none))

instance (s : ClientLoop K) : ∀ l, Decidable (Serves s l)
  | .handleEvent => inferInstanceAs (Decidable (.EPOLLOUT ∈ s.reported → s.conn.pendingOutput →
      Channel.handleEvent s.reported = .writecallback_))
  | .pushSendMessage _ _ | .call _ _ | .happen _ | .epoll_wait | .readv _ _ | .encode
  | .write _ _ | .disableWriting => .isTrue trivial

instance (s : ClientLoop K) : ∀ l, Decidable (Clear s l)
  | .handleEvent => inferInstanceAs (Decidable (.EPOLLOUT ∈ s.reported → s.conn.pendingOutput →
      (.EPOLLRDHUP ∉ s.reported ∧ .EPOLLIN ∉ s.reported ∧ .EPOLLPRI ∉ s.reported) ∧
        (s.conn.disConnect = true → s.socket.due = true)))
  | .pushSendMessage _ _ | .call _ _ | .happen _ | .epoll_wait | .readv _ _ | .encode
  | .write _ _ | .disableWriting => .isTrue trivial

variable {ov : Overflow} {s s' : ClientLoop K} {l : ClientLoopStep K}

/-! ## What is kept up -/

/-- **What is always true of a client's connection**, as long as its reports
are clear. -/
structure Inv (s : ClientLoop K) : Prop where
  client : s.conn.type_ = .ConnectionByClient
  reading : s.reading = true → s.phase = .idle
  pending : s.phase = .idle → s.conn.connectChannel_.registeredOut = true → s.conn.pendingOutput
  fetched : s.revents_ ≠ none → s.phase = .idle ∧ s.reading = false
  writable : .EPOLLOUT ∈ s.reported →
    .EPOLLOUT ∈ s.socket.level ∧ s.conn.connectChannel_.registeredOut = true
  owed : s.phase = .idle → .EPOLLOUT ∉ s.reported →
    s.socket.Owes s.conn.connectChannel_.events .EPOLLOUT

theorem not_mem_reported (h : s.revents_ = none) {event : EpollEvent} :
    event ∉ s.reported := by
  rw [reported, h]
  exact Finset.notMem_empty event

theorem inv_start (events : Finset EpollEvent) :
    Inv ({ socket := { level := events } } : ClientLoop K) where
  client := rfl
  reading := fun _ => rfl
  pending := fun _ h => Bool.noConfusion h
  fetched := fun h => absurd rfl h
  writable := fun h => absurd h (Finset.notMem_empty _)
  owed := fun _ _ => Source.owes_of_not_mem (Finset.notMem_empty _)

/-- Output that is being written does not wait. -/
theorem inv_of_busy (hclient : s.conn.type_ = .ConnectionByClient) (hphase : s.phase ≠ .idle)
    (hreading : s.reading = false) (hrevents : s.revents_ = none) : Inv s where
  client := hclient
  reading := fun h => absurd (hreading.symm.trans h) Bool.false_ne_true
  pending := fun h => absurd h hphase
  fetched := fun h => absurd hrevents h
  writable := fun h => absurd h (not_mem_reported hrevents)
  owed := fun h => absurd h hphase

/-- A channel that is not registered for writing is owed nothing. -/
theorem inv_of_off (hclient : s.conn.type_ = .ConnectionByClient)
    (hreading : s.reading = true → s.phase = .idle)
    (hoff : s.conn.connectChannel_.registeredOut = false) (hrevents : s.revents_ = none) :
    Inv s where
  client := hclient
  reading := hreading
  pending := fun _ h => absurd (hoff.symm.trans h) Bool.false_ne_true
  fetched := fun h => absurd hrevents h
  writable := fun h => absurd h (not_mem_reported hrevents)
  owed := fun _ _ => Source.owes_of_not_mem fun h =>
    absurd (hoff.symm.trans (Channel.writable_mem_events.mp h)) Bool.false_ne_true

/-- A report is fetched while the thread is elsewhere. -/
theorem revents_of_reading (h : Inv s) (hreading : s.reading = true) : s.revents_ = none := by
  by_contra hsome
  exact absurd (hreading.symm.trans (h.fetched hsome).2) Bool.noConfusion

theorem revents_of_phase (h : Inv s) (hphase : s.phase ≠ .idle) :
    s.revents_ = none ∧ s.reading = false := by
  constructor
  · by_contra hsome
    exact hphase (h.fetched hsome).1
  · rw [← Bool.not_eq_true]
    exact fun hreading => hphase (h.reading hreading)

theorem Inv.not_stalled (h : Inv s) : ¬ Stalled s := by
  rintro ⟨hidle, -, hlevel, hregistered, hdue, hrevents⟩
  have hlisted := h.owed hidle (not_mem_reported hrevents) hlevel
    (Channel.writable_mem_events.mpr hregistered)
  exact absurd (hdue.symm.trans hlisted) Bool.false_ne_true

/-! ## The handler -/

/-- A connection that is closed has no registered channel. -/
theorem inv_closeCallback (hclient : s.conn.type_ = .ConnectionByClient)
    (hreading : s.reading = true → s.phase = .idle) (hrevents : s.revents_ = none) :
    Inv s.closeCallback :=
  inv_of_off hclient hreading rfl hrevents

/-- `sendMessage` of a connection that was closed. -/
theorem sendMessage_of_disConnect (h : s.conn.disConnect = true) : s.sendMessage = s := by
  unfold sendMessage Endpoint.sendMessage
  rw [if_pos (.inl h)]
  show s.follow (if s.conn.disConnect = true then s.endpoint else _) = s
  rw [if_pos h]
  rfl

/-- `sendMessage` of a connection that is up takes the requests. -/
theorem sendMessage_of_up (hup : s.conn.disConnect = false)
    (hclient : s.conn.type_ = .ConnectionByClient) :
    s.sendMessage.conn = s.conn.takeWriteDones ∧
      s.sendMessage.phase = .taken (s.conn.write_dones_.map Prod.fst) ∧
      s.sendMessage.reading = s.reading ∧ s.sendMessage.revents_ = s.revents_ := by
  have hsend : s.endpoint.sendMessage = { s.endpoint with
      conn := s.conn.takeWriteDones
      phase := .taken (s.conn.write_dones_.map Prod.fst)
      sent := [] ++ s.conn.write_dones_ } := by
    have hup' : s.endpoint.conn.disConnect = false := hup
    have hclient' : s.endpoint.conn.type_ = .ConnectionByClient := hclient
    rw [Endpoint.sendMessage, hup', hclient']
    rfl
  unfold sendMessage
  rw [hsend]
  split
  · exact ⟨rfl, rfl, rfl, rfl⟩
  · exact ⟨rfl, rfl, rfl, rfl⟩

theorem inv_sendMessage (hclient : s.conn.type_ = .ConnectionByClient)
    (hup : s.conn.disConnect = false) (hreading : s.reading = false)
    (hrevents : s.revents_ = none) : Inv s.sendMessage := by
  obtain ⟨hconn, hphase, hread, hnone⟩ := sendMessage_of_up hup hclient
  refine inv_of_busy ?_ ?_ (hread.trans hreading) (hnone.trans hrevents)
  · obtain ⟨read, channel, htake⟩ := s.conn.takeWriteDones_eq
    rw [hconn, htake]
    exact hclient
  · rw [hphase]
    exact SendPhase.noConfusion

/-- The report is taken out, and output is owed another one. -/
theorem inv_handled (h : Inv s) (hidle : s.phase = .idle)
    (howed : s.socket.Owes s.conn.connectChannel_.events .EPOLLOUT) (reading : Bool) :
    Inv { s with revents_ := none, reading := reading } where
  client := h.client
  reading := fun _ => hidle
  pending := h.pending
  fetched := fun h => absurd rfl h
  writable := fun h => absurd h (Finset.notMem_empty _)
  owed := fun _ _ => howed

/-- **A report is handled**: nothing is lost if it is clear. -/
theorem inv_handleEvent (h : Inv s) (hclear : Clear s .handleEvent)
    (hs : s.step ov .handleEvent = some s') : Inv s' := by
  obtain ⟨revents, hrevents, rfl⟩ := Option.map_eq_some_iff.mp hs
  have hreported : s.reported = revents := by rw [reported, hrevents]; rfl
  obtain ⟨hidle, hreading⟩ := h.fetched (by rw [hrevents]; exact Option.some_ne_none revents)
  by_cases hout : .EPOLLOUT ∈ s.reported
  · have hpending := h.pending hidle (h.writable hout).2
    obtain ⟨hbits, hclosed⟩ := hclear hout hpending
    rw [hreported] at hbits hout
    rw [(Channel.handleEvent_eq_writecallback hout).mpr hbits]
    show Inv (sendMessage _)
    cases hconn : s.conn.disConnect with
    | false => exact inv_sendMessage h.client hconn hreading rfl
    | true =>
      have hstop : ({ s with revents_ := none } : ClientLoop K).sendMessage
          = { s with revents_ := none } := sendMessage_of_disConnect hconn
      rw [hstop]
      exact inv_handled h hidle (Source.owes_of_due (hclosed hconn)) s.reading
  · have howed := h.owed hidle hout
    rw [hreported] at hout
    unfold Channel.handleEvent
    rw [if_neg hout]
    split
    · exact inv_closeCallback h.client h.reading rfl
    · split
      · exact inv_handled h hidle howed true
      · exact inv_closeCallback h.client h.reading rfl

/-! ## The loops -/

/-- What `onMessage` does to a connection that it does not close. -/
theorem inv_input (h : Inv s) (hidle : s.phase = .idle) (hrevents : s.revents_ = none)
    {socket : Source EpollEvent}
    (howes : socket.Owes s.conn.connectChannel_.events .EPOLLOUT) (b : Buffer)
    (read_dones_ : AList (fun _ : Bytes => K)) (reading : Bool) :
    Inv { s with
      conn := { s.conn with inputbuffer_ := b, read_dones_ := read_dones_ }
      reading := reading
      socket := socket } where
  client := h.client
  reading := fun _ => hidle
  pending := h.pending
  fetched := fun hsome => absurd hrevents hsome
  writable := fun hmem => absurd hmem (not_mem_reported hrevents)
  owed := fun _ _ => howes

/-- **A round of `onMessage`** leaves the output alone. -/
theorem inv_readv (h : Inv s) {result : ReadResult} {readable : Bool}
    (hs : s.step ov (.readv result readable) = some s') : Inv s' := by
  rw [step] at hs
  split at hs
  case isFalse => cases hs
  case isTrue hreading =>
    have hrevents := revents_of_reading h hreading
    have hidle := h.reading hreading
    have howed : s.socket.Owes s.conn.connectChannel_.events .EPOLLOUT :=
      h.owed hidle (not_mem_reported hrevents)
    have howes : Source.Owes
        (if readable = true ∧ result ≠ .failed .EAGAIN then s.socket
          else s.socket.subside .EPOLLIN) s.conn.connectChannel_.events .EPOLLOUT := by
      split
      · exact howed
      · exact howed.subside
    dsimp only at hs
    split at hs
    · rename_i r hround
      obtain rfl := Option.some.inj hs
      obtain ⟨b, hconn⟩ := Connection.conn_readRound_again hround
      rw [hconn]
      exact inv_input h hidle hrevents howes b s.conn.read_dones_ s.reading
    · rename_i r hround
      obtain rfl := Option.some.inj hs
      rcases Connection.conn_readRound_left hround with hconn | ⟨b, read, hconn⟩
      · rw [hconn]
        exact inv_of_off h.client (fun _ => hidle) rfl hrevents
      · rw [hconn]
        refine inv_input h hidle hrevents ?_ b read false
        split
        · exact howes
        · rename_i hout
          refine Source.owes_of_not_mem fun hmem => hout ?_
          exact (Bool.and_eq_true_iff.mp (Channel.writable_mem_events.mp hmem)).1
    · cases hs

/-- `sendMessage` leaves its loop early when the socket is full, and output
is left. -/
theorem writeOnce_idle {e e' : Endpoint K} {result : WriteResult}
    (h : e.writeOnce result = some e') (hidle : e'.phase = .idle) :
    result = .failed .EAGAIN ∧ e'.conn.outputbuffer_.readableBytes ≠ 0 := by
  cases result with
  | written n =>
    rw [Endpoint.writeOnce] at h
    split at h
    · cases h
    · obtain rfl := Option.some.inj h
      dsimp only at hidle
      split at hidle
      · cases hidle
      · cases hidle
  | failed errno =>
    obtain rfl := Option.some.inj h
    dsimp only at hidle
    split at hidle
    · cases hidle
    · rename_i hleft
      split at hidle
      · rename_i hfull
        exact ⟨by rw [hfull], hleft⟩
      · cases hidle

/-- **A round of `sendMessage`.** -/
theorem inv_write (h : Inv s) {result : WriteResult} {writable : Bool}
    (hs : s.step ov (.write result writable) = some s') : Inv s' := by
  rw [step] at hs
  obtain ⟨e, he, rfl⟩ := Option.map_eq_some_iff.mp hs
  cases Endpoint.ioMoves_of_io he with
  | write hphase hwrite =>
    obtain ⟨hrevents, hreading⟩ := revents_of_phase h
      (by rw [show s.phase = .writing from hphase]; exact SendPhase.noConfusion)
    obtain ⟨⟨b, hconn⟩, -⟩ := Endpoint.outputbuffer_writeOnce hwrite
    have hclient : e.conn.type_ = .ConnectionByClient := by
      rw [hconn]
      exact h.client
    by_cases hidle : e.phase = .idle
    · obtain ⟨hfull, hleft⟩ := writeOnce_idle hwrite hidle
      refine ⟨hclient, fun _ => hidle, fun _ _ => .inr hleft, fun hsome => absurd hrevents hsome,
        fun hmem => absurd hmem (not_mem_reported hrevents), fun _ _ => ?_⟩
      dsimp only
      rw [if_neg (fun hand => hand.2 hfull)]
      exact Source.owes_subside
    · exact inv_of_busy hclient hidle hreading hrevents

/-! ## All steps -/

/-- **Every step keeps a connection in order** whose reports are clear. -/
theorem inv_step (h : Inv s) (hclear : Clear s l) (hs : s.step ov l = some s') : Inv s' := by
  cases l with
  | pushSendMessage message done =>
    obtain rfl := Option.some.inj hs
    exact ⟨h.client, h.reading, fun _ _ => .inl (List.append_ne_nil_of_right_ne_nil _ (by simp)),
      h.fetched, h.writable, h.owed⟩
  | call message done =>
    obtain rfl := Option.some.inj hs
    exact ⟨h.client, h.reading, fun _ _ => .inl (List.append_ne_nil_of_right_ne_nil _ (by simp)),
      h.fetched, fun hout => ⟨(h.writable hout).1, rfl⟩, fun _ _ => Source.owes_register⟩
  | happen events =>
    obtain rfl := Option.some.inj hs
    exact ⟨h.client, h.reading, h.pending, h.fetched,
      fun hout => ⟨Finset.mem_union_left _ (h.writable hout).1, (h.writable hout).2⟩,
      fun hidle hout => (h.owed hidle hout).happen⟩
  | epoll_wait =>
    rw [step] at hs
    split at hs
    case isFalse => cases hs
    case isTrue hwaits =>
      obtain rfl := Option.some.inj hs
      have hreported : ∀ revents : Finset EpollEvent,
          (if revents = ∅ then none else some revents).getD ∅ = revents := by
        intro revents
        split
        · rename_i hempty
          exact hempty.symm
        · rfl
      refine ⟨h.client, h.reading, h.pending, fun _ => ⟨hwaits.1, hwaits.2.1⟩, ?_, ?_⟩
      · unfold reported
        rw [hreported]
        intro hout
        obtain ⟨hlevel, hevents⟩ := Source.mem_report.mp hout
        exact ⟨hlevel, Channel.writable_mem_events.mp hevents⟩
      · unfold reported
        rw [hreported]
        intro _ hout hlevel hevents
        exact absurd (Source.mem_report.mpr ⟨hlevel, hevents⟩) hout
  | handleEvent => exact inv_handleEvent h hclear hs
  | readv result readable => exact inv_readv h hs
  | encode =>
    rw [step] at hs
    obtain ⟨e, he, rfl⟩ := Option.map_eq_some_iff.mp hs
    cases Endpoint.ioMoves_of_io he with
    | @encode messages hphase =>
      obtain ⟨hrevents, hreading⟩ := revents_of_phase h
        (by rw [show s.phase = .taken messages from hphase]; exact SendPhase.noConfusion)
      exact inv_of_busy h.client SendPhase.noConfusion hreading hrevents
  | write result writable => exact inv_write h hs
  | disableWriting =>
    rw [step] at hs
    obtain ⟨e, he, rfl⟩ := Option.map_eq_some_iff.mp hs
    cases Endpoint.ioMoves_of_io he with
    | disableWriting hphase =>
      obtain ⟨hrevents, -⟩ := revents_of_phase h
        (by rw [show s.phase = .written from hphase]; exact SendPhase.noConfusion)
      exact inv_of_off h.client (fun _ => rfl) (Bool.and_false _) hrevents

/-- **Which steps serve the output**, from a state in order: the clear
ones. -/
theorem serves_iff (h : Inv s) (hs : s.step ov l = some s') :
    Serves s l ∧ ¬ Stalled s' ↔ Clear s l := by
  constructor
  · rintro ⟨hserves, hnot⟩
    cases l with
    | handleEvent =>
      intro hout hpending
      obtain ⟨revents, hrevents, rfl⟩ := Option.map_eq_some_iff.mp hs
      have hreported : s.reported = revents := by rw [reported, hrevents]; rfl
      have hwrite := hserves hout hpending
      refine ⟨(Channel.handleEvent_eq_writecallback hout).mp hwrite, fun hclosed => ?_⟩
      rw [hreported] at hwrite
      rw [hwrite] at hnot
      have hstop : ({ s with revents_ := none } : ClientLoop K).sendMessage
          = { s with revents_ := none } := sendMessage_of_disConnect hclosed
      obtain ⟨hidle, -⟩ := h.fetched (by rw [hrevents]; exact Option.some_ne_none revents)
      by_contra hdue
      refine hnot ?_
      show Stalled (sendMessage _)
      rw [hstop]
      exact ⟨hidle, hpending, (h.writable hout).1, (h.writable hout).2,
        Bool.not_eq_true _ ▸ hdue, rfl⟩
    | pushSendMessage | call | happen | epoll_wait | readv | encode | write | disableWriting =>
      trivial
  · intro hclear
    refine ⟨?_, (inv_step h hclear hs).not_stalled⟩
    cases l with
    | handleEvent =>
      exact fun hout hpending =>
        (Channel.handleEvent_eq_writecallback hout).mpr (hclear hout hpending).1
    | pushSendMessage | call | happen | epoll_wait | readv | encode | write | disableWriting =>
      trivial

/-- **No output is left behind**, in every run whose reports are clear when
they are handled; and a step from a state of such a run serves the output,
and leaves none behind, if and only if it is clear as well. -/
theorem served_iff {events : Finset EpollEvent}
    (hrun : Runs (step ov) Clear { socket := { level := events } } s) :
    ¬ Stalled s ∧ ∀ l s', step ov s l = some s' → (Serves s l ∧ ¬ Stalled s' ↔ Clear s l) := by
  have h : Inv s := hrun.invariant (I := Inv) (fun _ _ _ h hclear hs => inv_step h hclear hs)
    (inv_start events)
  exact ⟨h.not_stalled, fun l s' hs => serves_iff h hs⟩

/-- A request is made and written, and the channel registered off. -/
def firstCall : List (ClientLoopStep ℕ) :=
  [.call { msg_id_ := Bytes.ofString "1" } 0, .epoll_wait, .handleEvent, .encode,
    .write (.written 24) true, .disableWriting, .epoll_wait]

/-- The second request finds the socket writable, and is full in between. -/
theorem served_fullSocket :
    ∃ s : ClientLoop ℕ, ¬ Stalled s ∧ s.conn.outputbuffer_.readableBytes = 14 ∧
      s.conn.read_dones_.keys.length = 2 := by
  obtain ⟨s, hruns, h⟩ : ∃ s : ClientLoop ℕ,
      Runs (restrict (step .trap) Clear) anyStep { socket := { level := {.EPOLLOUT} } } s ∧
        decide (s.conn.outputbuffer_.readableBytes = 14 ∧
          s.conn.read_dones_.keys.length = 2) = true :=
    exists_of_execute
      (firstCall ++ [.call { msg_id_ := Bytes.ofString "2" } 1, .epoll_wait, .handleEvent,
        .encode, .write (.written 10) true, .write (.failed .EAGAIN) false])
      (by decide +kernel)
  exact ⟨s, (served_iff (runs_of_restrict hruns)).1, of_decide_eq_true h⟩

/-- The second request is made when the reply to the first arrives. The
report of both goes to `onMessage`, and the request waits for nothing. -/
theorem not_served :
    ∃ s s' : ClientLoop ℕ,
      Runs (step .trap) anyStep { socket := { level := {.EPOLLOUT} } } s ∧
        ¬ Serves s .handleEvent ∧ Runs (step .trap) anyStep s s' ∧ Stalled s' ∧
        s'.reading = false := by
  obtain ⟨s, hruns, h⟩ : ∃ s : ClientLoop ℕ,
      Runs (step .trap) anyStep { socket := { level := {.EPOLLOUT} } } s ∧
        decide (¬ Serves s .handleEvent ∧
          (execute (step .trap) s
            [.handleEvent, .readv (.read (wire { msg_id_ := Bytes.ofString "1" })) false,
              .readv (.failed .EAGAIN) false]).any
            (fun s' => decide (Stalled s' ∧ s'.reading = false)) = true) = true :=
    exists_of_execute
      (firstCall ++ [.call { msg_id_ := Bytes.ofString "2" } 1, .happen {.EPOLLIN}, .epoll_wait])
      (by decide +kernel)
  obtain ⟨hserves, hexec⟩ := of_decide_eq_true h
  obtain ⟨s', hruns', h'⟩ := exists_of_execute _ hexec
  exact ⟨s, s', hruns, hserves, hruns', of_decide_eq_true h'⟩

end ClientLoop

end PbRpc
