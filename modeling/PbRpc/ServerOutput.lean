import PbRpc.Connection
import PbRpc.Transition

/-!
# The output of a server's connection

`regSend` encodes a list of responses into the output buffer and registers
the channel for writing. `sendMessage` writes until the buffer is empty, when
it registers the channel off again, or until the socket is full. Both run in
the thread of the loop, so that neither begins while the other is under way;
a `sendMessage` is taken apart here all the same, one `writeFd` at a time,
because the law is about every point of it.

However the writes go, the socket has accepted a prefix of the encodings of
the responses and the output buffer holds the rest, the channel is registered
for writing while there is a rest, and it is registered off when there is
none (`ServerOutput.flushes`).
-/

namespace PbRpc

open TinyPBCoder Transition

variable {K : Type}

namespace Endpoint

/-- **What is left of the output buffer** after a `writeFd`: an end of it,
and nothing where the loop is about to be left. -/
theorem outputbuffer_writeOnce {e e' : Endpoint K} {result : WriteResult}
    (h : e.writeOnce result = some e') :
    (∃ b, e'.conn = { e.conn with outputbuffer_ := b }) ∧
      (∃ sent, e.conn.outputbuffer_.readable = sent ++ e'.conn.outputbuffer_.readable) ∧
      (e'.phase = .written → e'.conn.outputbuffer_.readable = []) ∧
      ∀ messages, e'.phase ≠ .taken messages := by
  have hphase : ∀ (b : Buffer) (q : SendPhase), q = .idle ∨ q = .writing →
      ((if b.readableBytes = 0 then SendPhase.written else q) = .written → b.readable = []) ∧
        ∀ messages, (if b.readableBytes = 0 then SendPhase.written else q) ≠ .taken messages := by
    intro b q hq
    split
    · refine ⟨fun _ => List.eq_nil_of_length_eq_zero ?_, fun _ => SendPhase.noConfusion⟩
      rw [Buffer.length_readable]
      assumption
    · rcases hq with rfl | rfl
      · exact ⟨SendPhase.noConfusion, fun _ => SendPhase.noConfusion⟩
      · exact ⟨SendPhase.noConfusion, fun _ => SendPhase.noConfusion⟩
  cases result with
  | written n =>
    rw [writeOnce] at h
    split at h
    · cases h
    · rename_i data b hwrite
      obtain rfl := Option.some.inj h
      exact ⟨⟨b, rfl⟩, ⟨data, Buffer.writeFd_eq_ok hwrite⟩, hphase b .writing (.inr rfl)⟩
  | failed errno =>
    obtain rfl := Option.some.inj h
    refine ⟨⟨_, rfl⟩, ⟨[], rfl⟩, hphase _ _ ?_⟩
    split
    · exact .inl rfl
    · exact .inr rfl

end Endpoint

/-- **A server's connection**, with the lists of responses that `regSend` was
called with. -/
structure ServerOutput (K : Type) where
  endpoint : Endpoint K :=
    { conn :=
        { type_ := .ConnectionByServer
          connectChannel_ := Channel.enableReading {} } }
  replies : List (List TinyPBProtocol) := []

/-- What the thread of the loop does next. -/
inductive ServerStep where
  | regSend (respond_pkgs : List TinyPBProtocol)
  | io (step : IoStep)

namespace ServerOutput

/-- **One step.** `regSend` waits until `sendMessage` has returned. -/
def step (s : ServerOutput K) : ServerStep → Option (ServerOutput K)
  | .regSend respond_pkgs =>
    if s.endpoint.phase = .idle then
      some
        { endpoint := { s.endpoint with conn := s.endpoint.conn.regSend respond_pkgs }
          replies := s.replies ++ [respond_pkgs] }
    else none
  | .io step => (s.endpoint.io step).map (fun e => { s with endpoint := e })

/-- What has not been sent. -/
def unsent (s : ServerOutput K) : Bytes := s.endpoint.conn.outputbuffer_.readable

/-- The channel is registered for writing. -/
def registeredOut (s : ServerOutput K) : Bool := s.endpoint.conn.connectChannel_.registeredOut

/-- **The responses are flushed**: what the socket has accepted and what has
not been sent are the encodings of the responses, in order; what has not been
sent keeps the channel registered for writing, and no step that registers it
off leaves anything unsent. -/
structure Flushes (s : ServerOutput K) : Prop where
  stream : s.endpoint.socket ++ s.unsent
    = s.replies.flatMap (fun respond_pkgs => (encode respond_pkgs Buffer.init).2.readable)
  registered : s.unsent ≠ [] → s.registeredOut = true
  registered_off : ∀ l s', s.step l = some s' → s'.endpoint.conn.disConnect = false →
    s.registeredOut = true → s'.registeredOut = false → s'.unsent = []

/-- **What is always true of a server's connection.** -/
structure Inv (s : ServerOutput K) : Prop where
  server : s.endpoint.conn.type_ = .ConnectionByServer
  encoded : ∀ messages, s.endpoint.phase ≠ .taken messages
  drained : s.endpoint.phase = .written → s.unsent = []
  stream : s.endpoint.conn.disConnect = false → s.endpoint.socket ++ s.unsent
    = s.replies.flatMap (fun respond_pkgs => (encode respond_pkgs Buffer.init).2.readable)
  registered : s.endpoint.conn.disConnect = false → s.unsent ≠ [] → s.registeredOut = true

theorem inv_start : Inv ({} : ServerOutput K) :=
  ⟨rfl, fun _ => SendPhase.noConfusion, SendPhase.noConfusion, fun _ => rfl,
    fun _ h => absurd rfl h⟩

/-- `regSend` of a connection that is up. -/
theorem regSend_eq (c : Connection K) (respond_pkgs : List TinyPBProtocol)
    (h : c.disConnect = false) :
    c.regSend respond_pkgs
      = { c with outputbuffer_ := (encode respond_pkgs c.outputbuffer_).2 }.enableWriting := by
  rw [Connection.regSend, if_neg (by rw [h]; exact Bool.false_ne_true)]

variable {s s' : ServerOutput K} {l : ServerStep}

/-- **Every step keeps a server's connection in order.** -/
theorem Inv.step (h : Inv s) (hs : s.step l = some s') : Inv s' := by
  cases l with
  | regSend respond_pkgs =>
    rw [ServerOutput.step] at hs
    split at hs
    case isFalse => cases hs
    case isTrue hidle =>
      obtain rfl := Option.some.inj hs
      cases hconn : s.endpoint.conn.disConnect with
      | true =>
        have hdead : s.endpoint.conn.regSend respond_pkgs = s.endpoint.conn := if_pos hconn
        have hup : ∀ {p : Prop}, (s.endpoint.conn.regSend respond_pkgs).disConnect = false → p := by
          intro p hup
          rw [hdead, hconn] at hup
          cases hup
        refine ⟨?_, h.encoded, fun hphase => ?_, hup, hup⟩
        · rw [hdead]
          exact h.server
        · rw [hidle] at hphase
          cases hphase
      | false =>
        rw [regSend_eq _ _ hconn]
        refine ⟨h.server, h.encoded, fun hphase => ?_, fun _ => ?_, fun _ _ => rfl⟩
        · rw [hidle] at hphase
          cases hphase
        · show s.endpoint.socket ++ (encode respond_pkgs s.endpoint.conn.outputbuffer_).2.readable
            = (s.replies ++ [respond_pkgs]).flatMap _
          rw [List.flatMap_append, List.flatMap_singleton, ← h.stream hconn, readable_encode,
            readable_encode, Buffer.readable_init, List.nil_append, List.append_assoc]
          rfl
  | io step =>
    obtain ⟨e, he, rfl⟩ := Option.map_eq_some_iff.mp hs
    cases Endpoint.ioMoves_of_io he with
    | sendMessage _ _ =>
      rw [Endpoint.sendMessage]
      split
      · exact h
      · rw [h.server]
        exact ⟨h.server, fun _ => SendPhase.noConfusion, SendPhase.noConfusion, h.stream,
          h.registered⟩
    | @encode messages hphase => exact absurd hphase (h.encoded messages)
    | write _ hwrite =>
      have hstream : e.socket ++ e.conn.outputbuffer_.readable
          = s.endpoint.socket ++ s.unsent ++ [] := (Endpoint.flow_writeOnce hwrite).1.outgoing
      obtain ⟨⟨b, hconn⟩, ⟨sent, hsent⟩, hdrained, hencoded⟩ :=
        Endpoint.outputbuffer_writeOnce hwrite
      have hup : e.conn.disConnect = s.endpoint.conn.disConnect := by rw [hconn]
      refine ⟨?_, hencoded, hdrained, fun h' => ?_, fun h' hne => ?_⟩
      · rw [hconn]
        exact h.server
      · rw [← h.stream (hup ▸ h'), ← List.append_nil (s.endpoint.socket ++ s.unsent)]
        exact hstream
      · -- what is left of the buffer was in it before
        have hbefore : s.unsent ≠ [] := by
          rw [unsent, hsent]
          exact List.append_ne_nil_of_right_ne_nil _ hne
        rw [registeredOut, hconn]
        exact h.registered (hup ▸ h') hbefore
    | disableWriting hwritten =>
      exact ⟨h.server, fun _ => SendPhase.noConfusion, SendPhase.noConfusion, h.stream,
        fun _ hne => absurd (h.drained hwritten) hne⟩
    | close _ =>
      have hdown : ∀ {p : Prop}, s.endpoint.conn.closeCallback.disConnect = false → p := by
        intro p hup
        cases hup
      exact ⟨h.server, h.encoded, h.drained, hdown, hdown⟩

/-- **Only `disableWriting` registers the channel off** while the connection
is up. -/
theorem registered_off (h : Inv s) (hs : s.step l = some s')
    (hup : s'.endpoint.conn.disConnect = false) (hon : s.registeredOut = true)
    (hoff : s'.registeredOut = false) : s'.unsent = [] := by
  have hsame : ∀ {p : Prop}, s'.registeredOut = s.registeredOut → p := by
    intro p heq
    rw [heq, hon] at hoff
    cases hoff
  cases l with
  | regSend respond_pkgs =>
    rw [ServerOutput.step] at hs
    split at hs
    case isFalse => cases hs
    case isTrue =>
      obtain rfl := Option.some.inj hs
      rw [registeredOut, Connection.regSend] at hoff
      split at hoff
      · exact hsame (by rw [registeredOut, Connection.regSend, if_pos (by assumption)]; rfl)
      · cases hoff
  | io step =>
    obtain ⟨e, he, rfl⟩ := Option.map_eq_some_iff.mp hs
    cases Endpoint.ioMoves_of_io he with
    | sendMessage _ _ =>
      refine hsame ?_
      rw [registeredOut, Endpoint.sendMessage]
      split
      · rfl
      · rw [h.server]
        rfl
    | @encode messages hphase => exact absurd hphase (h.encoded messages)
    | write _ hwrite =>
      obtain ⟨⟨b, hconn⟩, -⟩ := Endpoint.outputbuffer_writeOnce hwrite
      exact hsame (by rw [registeredOut, registeredOut, hconn])
    | disableWriting hwritten => exact h.drained hwritten
    | close _ => cases hup

/-- **Every run flushes the responses**, while the connection is up. -/
theorem flushes (hruns : Runs step anyStep {} s)
    (hup : s.endpoint.conn.disConnect = false) : Flushes s := by
  have h : Inv s := hruns.invariant (I := Inv) (fun _ _ _ h _ hs => h.step hs) inv_start
  exact ⟨h.stream hup, h.registered hup, fun l s' hs hup' hon hoff =>
    ServerOutput.registered_off h hs hup' hon hoff⟩

/-- Two responses that are written in three pieces, with an interrupt and a
full socket in between. -/
theorem flushes_shortWrites :
    ∃ s : ServerOutput Unit, Flushes s ∧ s.replies.length = 2 ∧ s.unsent.length = 18 ∧
      s.endpoint.socket.length = 30 := by
  obtain ⟨s, hruns, h⟩ : ∃ s : ServerOutput Unit, Runs step anyStep {} s ∧
      decide (s.endpoint.conn.disConnect = false ∧ s.replies.length = 2 ∧ s.unsent.length = 18 ∧
        s.endpoint.socket.length = 30) = true :=
    exists_of_execute
      [.regSend [{ msg_id_ := Bytes.ofString "1" }], .io .sendMessage,
        .io (.write (.written 10)), .io (.write (.failed .EINTR)),
        .io (.write (.failed .EAGAIN)), .regSend [{ msg_id_ := Bytes.ofString "2" }],
        .io .sendMessage, .io (.write (.written 20))] (by decide +kernel)
  have h := of_decide_eq_true h
  exact ⟨s, flushes hruns h.1, h.2⟩

end ServerOutput

end PbRpc
