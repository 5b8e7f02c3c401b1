import PbRpc.ConnectionPair

/-!
# Who answers

A service may be registered while requests are dispatched, so that one
request meets it and another does not. What all the dispatchers of a run have
in common is true of whoever has answered a request (`AnsweredBy`), and what it
was answered with is what its callback is given (`Inv.answer_of_invoked`).
-/

namespace PbRpc

open TinyPBCoder TinyPBProtocol Transition
open Connection (entryOf)

namespace ConnectionPair

variable {K Message : Type} {set : Setting} {s s' : ConnectionPair K}
  {P : RpcDispatcher Message → Prop}

/-- The dispatchers that a step meets have a property. -/
def Meets (P : RpcDispatcher Message → Prop) (_ : ConnectionPair K) :
    PairStep K Message → Prop
  | .serverParse services | .finish _ services => ∀ i, P (services i)
  | _ => True

/-- The requests were answered by dispatchers with the property. -/
def AnsweredBy (P : RpcDispatcher Message → Prop) (set : Setting) (s : ConnectionPair K) : Prop :=
  ∀ e ∈ s.answered, ∃ d, P d ∧ e.2 = d.dispatch set.peer e.1 {}

theorem mem_zip_OnMassage {request_pkgs : List TinyPBProtocol}
    {services : ℕ → RpcDispatcher Message} (hP : ∀ i, P (services i))
    {e : TinyPBProtocol × TinyPBProtocol}
    (h : e ∈ request_pkgs.zip (OnMassage set.peer request_pkgs services)) :
    ∃ d, P d ∧ e.2 = d.dispatch set.peer e.1 {} := by
  induction request_pkgs generalizing services with
  | nil => cases h
  | cons request request_pkgs ih =>
    rcases List.mem_cons.mp h with rfl | h
    · exact ⟨services 0, hP 0, rfl⟩
    · exact ih (fun i => hP (i + 1)) h

theorem AnsweredBy.answer (h : AnsweredBy P set s) (request_pkgs : List TinyPBProtocol)
    {services : ℕ → RpcDispatcher Message} (hP : ∀ i, P (services i)) :
    AnsweredBy P set (s.answer request_pkgs (OnMassage set.peer request_pkgs services)) := by
  intro e he
  rcases List.mem_append.mp he with he | he
  · exact h e he
  · exact mem_zip_OnMassage hP he

/-- What is answered in one step. -/
theorem AnsweredBy.step {l : PairStep K Message} (h : AnsweredBy P set s) (hok : Meets P s l)
    (hs : s.step set l = some s') : AnsweredBy P set s' := by
  cases l with
  | push message done =>
    obtain rfl := Option.some.inj hs
    exact h
  | enable | client step | server step | clientRead n | serverRead n =>
    obtain ⟨e, -, rfl⟩ := Option.map_eq_some_iff.mp hs
    exact h
  | clientParse =>
    obtain ⟨-, result, conn, -, rfl⟩ := clientParse_cases hs
    exact h
  | serverParse services =>
    obtain ⟨-, request_pkgs, conn, -, rfl⟩ := serverParse_cases hs
    rw [HandleMessage]
    split
    · exact AnsweredBy.answer (s := { s with server := { s.server with conn := conn } }) h
        request_pkgs hok
    · exact h
  | finish i services =>
    obtain ⟨request_pkgs, -, rfl⟩ := finish_cases hs
    have hanswer := AnsweredBy.answer (s := { s with pool := s.pool.eraseIdx i }) h request_pkgs hok
    rw [queueInLoop]
    split
    · exact hanswer
    · exact hanswer
  | regSend =>
    obtain ⟨-, respond_pkgs, taskqueue_, -, rfl⟩ := regSend_cases hs
    exact h

/-- **A callback is given what its request was answered with.** -/
theorem Inv.answer_of_invoked (h : Inv Message set s) (hx : Exchange s) {i : Invocation K}
    (hi : i ∈ s.client.invoked) : ∃ e ∈ s.client.sent, entryOf e = i.entry ∧
      ∃ response, (received e.1, response) ∈ s.answered ∧ i.message = received response := by
  obtain ⟨delivered, ahead, hreplied, -, hinvoked⟩ := h.responses.stream
  obtain ⟨response, hr, hmessage, hid⟩ := hinvoked i hi
  have howed : response ∈ s.replied ++ s.taskqueue_.flatten := by
    rw [hreplied]
    exact List.mem_append_left _ (List.mem_append_left _ hr)
  obtain ⟨e, hsent, he, -, hrid, -⟩ := h.origin howed
  obtain ⟨e', hsent', hentry⟩ := List.mem_map.mp
    (h.registers.dones.subset (List.mem_append_right _ (List.mem_map_of_mem hi)))
  -- the request that was answered has the id of the callback
  obtain rfl : e' = e := request_unique hx (h.pushed_of_sent hsent') (h.pushed_of_sent hsent)
    ((congrArg Prod.fst hentry).trans (hid.trans hrid))
  exact ⟨e', hsent', hentry, response, he, hmessage⟩

end ConnectionPair

end PbRpc
