import PbRpc.Connection
import PbRpc.Transition

/-!
# Write interest

A client thread pushes a request and then registers the channel for writing;
the loop's thread takes the queued requests, writes them, and registers the
channel off again when the output buffer is empty. The lock of the queue
does not cover the registration, and the loop's thread does not look at the
queue again before it calls `disableWriting`. A push and an
`enableWriting` that fall between the two are undone: the request stays
queued, and nothing makes the socket's next readiness reach `sendMessage`
(`not_served_lateCall`).

This is the only way it happens. In a run in which `disableWriting` is only
ever called on an empty queue, or while a thread that has pushed has its
`enableWriting` still before it, no request is stranded (`served`); and
where it is called otherwise, one is (`stranded_of_disableWriting`).
-/

namespace PbRpc

open Transition

/-- **The steps of a client's connection**: those of the threads that make
calls, and those of the loop's thread. -/
inductive CallStep (K : Type) where
  | push (message : TinyPBProtocol) (done : K)
  | enable
  | io (step : IoStep)

namespace Endpoint

variable {K : Type}

/-- A client's connection before its first call. -/
def client (K : Type) : Endpoint K := { conn := { type_ := .ConnectionByClient } }

def callStep (e : Endpoint K) : CallStep K → Option (Endpoint K)
  | .push message done => some (e.push message done)
  | .enable => e.enable
  | .io step => e.io step

/-- **Queued requests are served**: when no thread is between its push and
its `enableWriting` and the loop's thread is not in `sendMessage`, the
channel is registered for writing if a request is queued. -/
def Served (e : Endpoint K) : Prop :=
  e.conn.disConnect = false → e.enabling = 0 → e.phase = .idle → e.conn.write_dones_ ≠ [] →
    e.conn.connectChannel_.registeredOut = true

/-- **`disableWriting` comes in time**: it is called on an empty queue, or
before the `enableWriting` of a thread that has pushed. -/
def InTime (e : Endpoint K) : CallStep K → Prop
  | .io .disableWriting => e.conn.write_dones_ = [] ∨ 0 < e.enabling
  | _ => True

instance (e : Endpoint K) : Decidable (Served e) := inferInstanceAs (Decidable (_ → _))

instance (e : Endpoint K) (l : CallStep K) : Decidable (InTime e l) := by
  unfold InTime
  split <;> infer_instance

/-- What keeps the queued requests served. -/
structure Watched (e : Endpoint K) : Prop where
  connected : e.phase ≠ .idle → e.conn.disConnect = false
  interest : e.conn.disConnect = false → e.conn.write_dones_ ≠ [] →
    0 < e.enabling ∨ e.conn.connectChannel_.registeredOut = true

theorem Watched.serves {e : Endpoint K} (h : Watched e) : Served e := by
  intro hconn henabling _ hqueue
  refine (h.interest hconn hqueue).resolve_left ?_
  rw [henabling]
  exact lt_irrefl 0

/-- A write moves bytes from the output buffer, and changes the phase. -/
theorem writeOnce_eq {e e' : Endpoint K} {result : WriteResult}
    (h : e.writeOnce result = some e') :
    ∃ b phase socket, e' = { e with
      conn := { e.conn with outputbuffer_ := b }
      phase := phase
      socket := socket } := by
  cases result with
  | written n =>
    rw [writeOnce] at h
    split at h
    · cases h
    · obtain rfl := Option.some.inj h
      exact ⟨_, _, _, rfl⟩
  | failed errno =>
    obtain rfl := Option.some.inj h
    exact ⟨_, _, _, rfl⟩

theorem enable_eq {e e' : Endpoint K} (h : e.enable = some e') :
    0 < e.enabling ∧ e' = { e with conn := e.conn.enableWriting, enabling := e.enabling - 1 } := by
  rw [enable] at h
  split at h
  case isFalse => cases h
  case isTrue henabling => exact ⟨henabling, (Option.some.inj h).symm⟩

/-- **The loop's thread between the requests that it takes**: bytes move, and
the interest in writing may end. -/
theorem io_eq {e e' : Endpoint K} {step : IoStep} (hsend : step ≠ .sendMessage)
    (hclose : step ≠ .close) (h : e.io step = some e') :
    ∃ b channel phase socket, e' = { e with
        conn := { e.conn with outputbuffer_ := b, connectChannel_ := channel }
        phase := phase
        socket := socket } ∧
      (channel = e.conn.connectChannel_ ∨ channel = e.conn.connectChannel_.disableWriting) := by
  cases ioMoves_of_io h with
  | sendMessage _ _ => exact absurd rfl hsend
  | encode _ => exact ⟨_, _, _, _, rfl, .inl rfl⟩
  | write _ hwrite =>
    obtain ⟨b, phase, socket, rfl⟩ := writeOnce_eq hwrite
    exact ⟨_, _, _, _, rfl, .inl rfl⟩
  | disableWriting _ => exact ⟨_, _, _, _, rfl, .inr rfl⟩
  | close _ => exact absurd rfl hclose

theorem watched_client : Watched (client K) :=
  ⟨fun h => absurd rfl h, fun _ h => absurd rfl h⟩

/-- **A step in time keeps the queue watched.** -/
theorem Watched.callStep {e e' : Endpoint K} {l : CallStep K} (h : Watched e) (hl : InTime e l)
    (hs : e.callStep l = some e') : Watched e' := by
  cases l with
  | push message done =>
    obtain rfl := Option.some.inj hs
    exact ⟨h.connected, fun _ _ => .inl (Nat.succ_pos _)⟩
  | enable =>
    obtain ⟨-, rfl⟩ := enable_eq hs
    exact ⟨h.connected, fun _ _ => .inr rfl⟩
  | io step =>
    cases ioMoves_of_io (show e.io step = some e' from hs) with
    | sendMessage _ _ =>
      rw [Endpoint.sendMessage]
      split
      · exact h
      case isFalse hconn =>
        have hconn : e.conn.disConnect = false := Bool.eq_false_iff.mpr hconn
        split
        · exact ⟨fun _ => hconn, h.interest⟩
        · -- the queue has been emptied
          obtain ⟨read, channel, htake⟩ := e.conn.takeWriteDones_eq
          rw [htake]
          exact ⟨fun _ => hconn, fun _ hne => absurd rfl hne⟩
    | encode hphase =>
      exact ⟨fun _ => h.connected (by rw [hphase]; exact SendPhase.noConfusion), h.interest⟩
    | write hphase hwrite =>
      obtain ⟨b, phase, socket, rfl⟩ := writeOnce_eq hwrite
      exact ⟨fun _ => h.connected (by rw [hphase]; exact SendPhase.noConfusion), h.interest⟩
    | disableWriting _ =>
      exact ⟨fun hne => absurd rfl hne, fun _ hqueue => .inl (hl.resolve_left hqueue)⟩
    | close hidle => exact ⟨fun hne => absurd hidle hne, fun hconn => by cases hconn⟩

/-- **A `disableWriting` that is not in time strands a request.** -/
theorem stranded_of_disableWriting {e e' : Endpoint K} (hconn : e.conn.disConnect = false)
    (hl : ¬ InTime e (.io .disableWriting)) (hs : e.callStep (.io .disableWriting) = some e') :
    ¬ Served e' := by
  rw [InTime, not_or] at hl
  cases ioMoves_of_io (show e.io .disableWriting = some e' from hs) with
  | disableWriting _ =>
    intro hserved
    have hout : e.conn.disableWriting.connectChannel_.registeredOut = true :=
      hserved hconn (Nat.eq_zero_of_not_pos hl.2) rfl hl.1
    rw [Connection.disableWriting, Channel.disableWriting, Channel.registeredOut,
      Channel.setChannel, Bool.and_false] at hout
    cases hout

/-- **No request is stranded** in a run in which `disableWriting` comes in
time. -/
theorem served {e : Endpoint K} (h : Runs callStep InTime (client K) e) : Served e :=
  (h.invariant (I := Watched) (fun _ _ _ h hl hs => h.callStep hl hs) watched_client).serves

/-- One request, from its push to the `disableWriting` after it, but for the
steps of other threads before the last write. -/
def oneRequest (between : List (CallStep Unit)) : List (CallStep Unit) :=
  [.push { msg_id_ := Bytes.ofString "1" } (), .enable, .io .sendMessage, .io .encode] ++ between
    ++ [.io (.write (.written 24)), .io .disableWriting]

/-- A second thread that is between its push and its `enableWriting` when
the loop's thread calls `disableWriting`. -/
theorem served_secondCall :
    ∃ e : Endpoint Unit, Served e ∧ e.enabling = 0 ∧ e.phase = .idle ∧
      e.conn.write_dones_.length = 1 := by
  obtain ⟨e, hruns, h⟩ : ∃ e, Runs (restrict callStep InTime) anyStep (client Unit) e ∧
      decide (e.enabling = 0 ∧ e.phase = .idle ∧ e.conn.write_dones_.length = 1) = true :=
    exists_of_execute
      (oneRequest [.push { msg_id_ := Bytes.ofString "2" } ()] ++ [.enable]) (by decide +kernel)
  exact ⟨e, served (runs_of_restrict hruns), of_decide_eq_true h⟩

/-- A second thread that has done both. -/
theorem not_served_lateCall :
    ¬ ∀ e, Runs callStep anyStep (client Unit) e → Served e := by
  intro hall
  obtain ⟨e, hruns, h⟩ : ∃ e, Runs callStep anyStep (client Unit) e ∧
      decide (¬ Served e) = true :=
    exists_of_execute
      (oneRequest [.push { msg_id_ := Bytes.ofString "2" } (), .enable]) (by decide +kernel)
  exact of_decide_eq_true h (hall e hruns)

end Endpoint

end PbRpc
