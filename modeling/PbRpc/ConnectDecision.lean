import PbRpc.ClientTables

/-!
# Which connections are stored

The socket of a new connection does not block, so `connect` usually answers
that it is in progress, and `getConnection` waits for the socket to become
writable. It becomes writable when the connection stands and also when it was
refused; the socket's error tells the two apart. `getConnection` asks for the
error in the branch for everything that `select` should not return, and there
only to throw it away. Where the socket is writable it stores the connection
at once.

`OpensOnlyConnected` says what a call may do once its lookup has found nothing,
whatever the other threads do in the meantime. It holds for every outcome of
`connect` and `select` but the one of a refused connection
(`opensOnlyConnected_iff`).
-/

namespace PbRpc

open Transition

/-- **The connection stands**: at once, or when `select` reports the socket
writable and the socket has no error. -/
def ConnectOutcome.Succeeded : ConnectOutcome → Prop
  | connected => True
  | inProgress rc isset so_error => (rc = 1 ∧ isset = true) ∧ so_error = 0
  | failed => False

/-- **A refused connection**, which is writable and has an error. -/
def ConnectOutcome.Refused : ConnectOutcome → Prop
  | inProgress rc isset so_error => (rc = 1 ∧ isset = true) ∧ so_error ≠ 0
  | _ => False

/-- What opens is a connection that stands, or a refused one. -/
theorem ConnectOutcome.opens_iff (outcome : ConnectOutcome) :
    outcome.opens = true ↔ outcome.Succeeded ∨ outcome.Refused := by
  cases outcome with
  | connected => exact iff_of_true rfl (.inl trivial)
  | inProgress rc isset so_error =>
    unfold opens Succeeded Refused
    rw [Bool.and_eq_true, beq_iff_eq, ← and_or_left]
    exact (and_iff_left (em (so_error = 0))).symm
  | failed => exact iff_of_false Bool.noConfusion (fun h => h.elim id id)

theorem ConnectOutcome.not_succeeded_of_refused {outcome : ConnectOutcome}
    (h : outcome.Refused) : ¬ outcome.Succeeded := by
  cases outcome with
  | inProgress rc isset so_error => exact fun hsucceeded => h.2 hsucceeded.2
  | connected | failed => exact h.elim

/-- Whose step of `getConnection` it is. -/
def ClientStep.caller? {ι : Type} : ClientStep ι → Option ι
  | lookup i _ | connect i _ | store i => some i
  | _ => none

namespace TcpClient

variable {ι : Type} [DecidableEq ι] {s s' : TcpClient ι}

/-- The steps of the other threads. -/
def notBy (i : ι) (_ : TcpClient ι) (l : ClientStep ι) : Prop := l.caller? ≠ some i

omit [DecidableEq ι] in
theorem callers_beginRound (s : TcpClient ι) (msg_id : Bytes) :
    (s.beginRound msg_id).callers = s.callers := by
  show (s.server_conns_.entries.foldl (pushKeepalive msg_id) s).callers = s.callers
  generalize s.server_conns_.entries = entries
  induction entries generalizing s with
  | nil => rfl
  | cons entry entries ih => exact ih (pushKeepalive msg_id s entry)

omit [DecidableEq ι] in
theorem callers_endRound (s : TcpClient ι) (r : Round) : (s.endRound r).callers = s.callers := by
  have hcount : ∀ (t : TcpClient ι) entry,
      (countKeepalive r.msg_id t entry).callers = t.callers := by
    intro t entry
    unfold countKeepalive
    dsimp only
    split <;> rfl
  show (s.server_conns_.entries.foldl (countKeepalive r.msg_id) s).callers = s.callers
  generalize s.server_conns_.entries = entries
  induction entries generalizing s with
  | nil => rfl
  | cons entry entries ih => exact (ih (countKeepalive r.msg_id s entry)).trans (hcount s entry)

/-- **The other threads leave a caller where it is.** -/
theorem callers_step {i : ι} {l : ClientStep ι} (hl : notBy i s l) (hs : s.step l = some s') :
    s'.callers i = s.callers i := by
  have hother : ∀ {j : ι} (phase : CallerPhase), some j ≠ some i →
      Function.update s.callers j phase i = s.callers i := by
    intro j phase hne
    rw [Function.update_of_ne]
    rintro rfl
    exact hne rfl
  cases step_cases hs with
  | found hi hentry hcount => exact hother _ hl
  | missed hi hmiss => exact hother _ hl
  | connected hi hopens => exact hother _ hl
  | refused hi hopens => exact hother _ hl
  | @store j server_name conn stores hi =>
    obtain ⟨kv, kvs', replaced', heq, -⟩ := s.cache_eq server_name conn
    rw [heq]
    exact hother _ hl
  | take hidle hout hconn hrun =>
    have heq := congrArg TcpClient.callers (registered_runWriteDones hrun).eq
    exact congrFun heq i
  | reply hin hinbox hdone hrun =>
    rcases runReadDone_eq_some hrun with rfl | ⟨kv, conn, round, entry, -, -, rfl⟩ <;> rfl
  | beginRound msg_id hround => exact congrFun (callers_beginRound s msg_id) i
  | endRound hround => exact congrFun (callers_endRound s _) i
  | push | enable | dropped | close | write | arrive | unheard => rfl

theorem callers_runs {i : ι} (hruns : Runs step (notBy i) s s') :
    s'.callers i = s.callers i :=
  hruns.invariant (I := fun t : TcpClient ι => t.callers i = s.callers i)
    (fun _ _ _ h hl hs => (callers_step hl hs).trans h) rfl

/-- **A call connects before it stores.** A call that has to open a connection
and cannot returns null and leaves the tables as they are, and it stores and
returns a connection only if the connection stands. -/
structure OpensOnlyConnected (s : TcpClient ι) (i : ι) (server_name : Bytes)
    (outcome : ConnectOutcome) : Prop where
  null : ¬ outcome.Succeeded → ∀ s₁, s.step (.connect i outcome) = some s₁ →
    s₁.callers i = .outside ∧ s₁.results = s.results ++ [⟨server_name, none, false⟩] ∧
      s₁.server_conns_ = s.server_conns_ ∧ s₁.keepalive_count_ = s.keepalive_count_
  stored : ∀ s₁ s₂ s₃, s.step (.connect i outcome) = some s₁ → Runs step (notBy i) s₁ s₂ →
    s₂.step (.store i) = some s₃ → outcome.Succeeded

/-- A call that did not open a connection. -/
theorem connect_of_not_opens {i : ι} {server_name : Bytes} {stores : ℕ}
    {outcome : ConnectOutcome} (hi : s.callers i = .connecting server_name stores)
    (hopens : outcome.opens = false) :
    s.step (.connect i outcome) = some (s.returns i server_name none) := by
  rw [step, hi]
  dsimp only
  rw [connect, hopens]
  rfl

/-- A call that goes on to store. -/
theorem connect_of_opens {i : ι} {server_name : Bytes} {stores : ℕ}
    {outcome : ConnectOutcome} (hi : s.callers i = .connecting server_name stores)
    (hopens : outcome.opens = true) :
    s.step (.connect i outcome) = some { s with
      created := s.created + 1
      callers := Function.update s.callers i (.storing server_name s.created stores) } := by
  rw [step, hi]
  dsimp only
  rw [connect, hopens]
  rfl

/-- **What is stored is a connection that stands, exactly when it was not
refused.** -/
theorem opensOnlyConnected_iff {i : ι} {server_name : Bytes} {stores : ℕ}
    (hi : s.callers i = .connecting server_name stores) (outcome : ConnectOutcome) :
    OpensOnlyConnected s i server_name outcome ↔ ¬ outcome.Refused := by
  constructor
  · intro h hrefused
    -- a refused connection opens, and so the caller is not outside
    have hs := connect_of_opens hi (outcome.opens_iff.mpr (.inr hrefused))
    have hout := (h.null (ConnectOutcome.not_succeeded_of_refused hrefused) _ hs).1
    dsimp only at hout
    rw [Function.update_self] at hout
    cases hout
  · intro hrefused
    by_cases hsucceeded : outcome.Succeeded
    · exact ⟨fun hnot => absurd hsucceeded hnot, fun _ _ _ _ _ _ => hsucceeded⟩
    · have hopens : outcome.opens = false := by
        rw [← Bool.not_eq_true, outcome.opens_iff]
        exact fun h => h.elim hsucceeded hrefused
      have hs := connect_of_not_opens hi hopens
      constructor
      · intro _ s₁ hs₁
        obtain rfl := Option.some.inj (hs.symm.trans hs₁)
        exact ⟨Function.update_self .., rfl, rfl, rfl⟩
      · intro s₁ s₂ s₃ hs₁ hruns hstore
        obtain rfl := Option.some.inj (hs.symm.trans hs₁)
        have hout : s₂.callers i = .outside :=
          (callers_runs hruns).trans (Function.update_self ..)
        rw [step, hout] at hstore
        cases hstore

/-- A client whose only caller is about to connect. -/
def connectingClient : TcpClient Unit := ({} : TcpClient Unit).connects () [97]

/-- A connection that times out is not stored. -/
theorem opensOnlyConnected_timeout :
    OpensOnlyConnected connectingClient () [97] (.inProgress 0 false 0) :=
  (opensOnlyConnected_iff (s := connectingClient) rfl _).mpr (fun h => Bool.noConfusion h.1.2)

/-- **A refused connection is cached**, and returned to the next caller. -/
theorem not_opensOnlyConnected :
    (∃ s : TcpClient Unit, Runs step anyStep {} s ∧
        s.results.map ConnResult.conn = [some 0, some 0])
      ∧ ¬ OpensOnlyConnected connectingClient () [97] (.inProgress 1 true 111) := by
  constructor
  · obtain ⟨s, hruns, h⟩ : ∃ s : TcpClient Unit, Runs step anyStep {} s ∧
        decide (s.results.map ConnResult.conn = [some 0, some 0]) = true :=
      exists_of_execute
        [.lookup () [97], .connect () (.inProgress 1 true 111), .store (), .lookup () [97]]
        (by decide +kernel)
    exact ⟨s, hruns, of_decide_eq_true h⟩
  · intro h
    have hout := (h.null (fun hs => absurd hs.2 (by decide)) _ rfl).1
    exact absurd hout (by decide +kernel)

end TcpClient

end PbRpc
