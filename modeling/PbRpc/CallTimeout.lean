import PbRpc.CallLife

/-!
# A call after its timeout

`sendMessage` registers the reply callback of a call under the id of its
request, and what takes it out again is a reply with that id, or
`popReadMessage`. The timer callback of a call runs the closure, which may
tell the caller that the call has failed, and does not call
`popReadMessage`. The entry is therefore still in the table after the
timeout (`Calls.not_settledByTimeout`). It stays there when no reply comes.
When one comes late, its callback runs and writes to the response and the
controller of a call that has failed (`Calls.step_lateReply`); all that it
leaves alone is the closure.
-/

namespace PbRpc

open Transition

namespace Calls

variable {Message : Type} {chan : ℕ → ℕ} {parseFromString : Bytes → Bool × Message}
  {s s' : Calls Message} {u : ℕ} {msg_id : Bytes}

/-- Nothing but a message with the id is excluded. -/
def NotAnswered (msg_id : Bytes) (_ : Calls Message) : CallsStep → Prop
  | .reply rsp_msg => rsp_msg.msg_id_ ≠ msg_id
  | _ => True

/-- **What a timeout should leave behind**: no entry for the call, and a
controller and a response that nothing changes any more. -/
structure SettledByTimeout (chan : ℕ → ℕ) (parseFromString : Bytes → Bool × Message)
    (s : Calls Message) (u : ℕ) (msg_id : Bytes) : Prop where
  popped : msg_id ∉ s.conn.read_dones_
  unchanged : ∀ s', Runs (step chan parseFromString) anyStep s s' →
    (s'.calls u).controller.error_code_ = (s.calls u).controller.error_code_ ∧
    (s'.calls u).controller.error_info_ = (s.calls u).controller.error_info_ ∧
    (s'.calls u).controller.is_failed_ = (s.calls u).controller.is_failed_ ∧
    (s'.calls u).response = (s.calls u).response

theorem conn_CallMethod (s : Calls Message) (v : ℕ) (input : CallInput) :
    (s.CallMethod chan v input).conn = s.conn := by
  by_cases h : input.connected = true ∧ input.pb_data.isSome = true
  · obtain ⟨request, hmade⟩ := CallMethod_started chan s v h
    exact hmade.conn
  · obtain ⟨controller, -, hmade⟩ := CallMethod_failed chan s v h
    exact hmade.conn

/-- **Only a reply takes an entry out.** -/
theorem mem_read_dones_step {l : CallsStep} (h : msg_id ∈ s.conn.read_dones_)
    (hl : NotAnswered msg_id s l) (hs : step chan parseFromString s l = some s') :
    msg_id ∈ s'.conn.read_dones_ := by
  cases l with
  | callMethod v input =>
    rw [step] at hs
    split at hs
    · obtain rfl := Option.some.inj hs
      rwa [conn_CallMethod]
    · cases hs
  | pushSendMessage v =>
    rw [step] at hs
    split at hs
    · obtain rfl := Option.some.inj hs
      exact h
    · cases hs
  | sendMessage =>
    rw [step] at hs
    split at hs
    · obtain rfl := Option.some.inj hs
      exact s.conn.mem_takeWriteDones (.inl h)
    · cases hs
  | reply rsp_msg =>
    obtain ⟨-, ⟨-, rfl⟩ | ⟨v, -, rfl⟩⟩ := step_reply hs
    · exact h
    · have hne : msg_id ≠ rsp_msg.msg_id_ := fun heq => hl heq.symm
      exact AList.mem_erase.mpr ⟨hne, h⟩
  | onTime due =>
    rw [step] at hs
    split at hs
    · obtain rfl := Option.some.inj hs
      exact h
    · cases hs
  | runTask =>
    rw [step] at hs
    split at hs
    · cases hs
    · obtain rfl := Option.some.inj hs
      rw [(writes_timerCallback chan _ _).conn]
      exact h

/-- **A late reply is handed to the call.** -/
theorem step_lateReply (parseFromString : Bytes → Bool × Message) (rsp_msg : TinyPBProtocol)
    (htasks : s.tasks = [])
    (hch : s.channels (chan u) = .own u)
    (hlookup : s.conn.read_dones_.lookup rsp_msg.msg_id_ = some u) :
    ∃ s', step chan parseFromString s (.reply rsp_msg) = some s' ∧
      (s'.calls u).response = (parseFromString rsp_msg.pb_data_).2 ∧
      (s'.calls u).controller = repliedController (parseFromString rsp_msg.pb_data_).1
        rsp_msg.error_code_ (s.calls u).controller := by
  have hcalls := calls_replyCallback parseFromString hch rsp_msg
  refine ⟨{ s.replyCallback chan parseFromString u rsp_msg with
    conn := s.conn.popReadMessage rsp_msg.msg_id_ }, ?_, ?_, ?_⟩
  · rw [step, if_pos htasks, s.conn.handleReply_of_some hlookup]
    rfl
  · exact congrArg Call.response hcalls
  · exact congrArg Call.controller hcalls

/-- The timer callback tells the controller that the call has timed out. -/
theorem error_code_timerCallback (s : Calls Message) (u : ℕ) :
    ((s.timerCallback chan u).calls u).controller.error_code_ = ERROR_RPC_CALL_TIMEOUT := by
  rw [timerCallback]
  generalize hfired : s.modify u _ = s'
  have herror : (s'.calls u).controller.error_code_ = ERROR_RPC_CALL_TIMEOUT := by
    rw [← hfired, calls_modify_self]
    rfl
  rw [runClosure]
  cases (s'.channels (chan u)).closure_ with
  | none => exact herror
  | some v =>
    by_cases hv : u = v
    · subst hv
      rw [write, calls_modify_self]
      exact herror
    · rw [write, calls_modify_of_ne _ hv]
      exact herror

/-- **No timeout settles its call.** The request is taken, no reply comes,
and the timer fires: the entry is there. -/
theorem not_settledByTimeout {s₀ s₁ s₂ s₃ : Calls Message} {request : TinyPBProtocol}
    (hrequest : (request, u) ∈ s₀.conn.write_dones_)
    (hsend : step chan parseFromString s₀ .sendMessage = some s₁)
    (hrun : Runs (step chan parseFromString) (NotAnswered request.msg_id_) s₁ s₂)
    (hfires : s₂.tasks.head? = some u)
    (htimer : step chan parseFromString s₂ .runTask = some s₃) :
    (s₃.calls u).controller.error_code_ = ERROR_RPC_CALL_TIMEOUT ∧
      ¬ SettledByTimeout chan parseFromString s₃ u request.msg_id_ := by
  have hsent : request.msg_id_ ∈ s₁.conn.read_dones_ := by
    rw [step] at hsend
    split at hsend
    · obtain rfl := Option.some.inj hsend
      exact s₀.conn.mem_takeWriteDones (.inr (List.mem_map_of_mem hrequest))
    · cases hsend
  have hfired : request.msg_id_ ∈ s₂.conn.read_dones_ :=
    hrun.invariant (I := fun s => request.msg_id_ ∈ s.conn.read_dones_)
      (fun _ _ _ h hl hs => mem_read_dones_step h hl hs) hsent
  refine ⟨?_, fun h => h.popped (mem_read_dones_step (l := .runTask) hfired trivial htimer)⟩
  rw [step] at htimer
  split at htimer
  · cases htimer
  · rename_i v tasks htasks
    obtain rfl : v = u := by
      rw [htasks] at hfires
      exact Option.some.inj hfires
    obtain rfl := Option.some.inj htimer
    exact error_code_timerCallback _ v

/-- The request of `makeOrder`. -/
def makeOrderRequest : TinyPBProtocol :=
  { msg_id_ := Bytes.ofString "1", method_name_ := Bytes.ofString "OrderService.make" }

/-- `makeOrder`, whose timer fires as soon as its request is sent. -/
theorem not_settledByTimeout_makeOrder :
    ∃ s : Calls Bytes, (s.calls 0).replied = false ∧
      (s.calls 0).controller.error_code_ = ERROR_RPC_CALL_TIMEOUT ∧
      ¬ SettledByTimeout id parseText s 0 makeOrderRequest.msg_id_ := by
  have h : (execute (step id parseText) (init (fun _ => 1000) [])
      [makeOrder true (some []), .pushSendMessage 0]).any (fun s₀ =>
        decide ((makeOrderRequest, 0) ∈ s₀.conn.write_dones_) &&
        (step id parseText s₀ .sendMessage).any (fun s₁ =>
          (step id parseText s₁ (.onTime [0])).any (fun s₂ =>
            decide (s₂.tasks.head? = some 0) &&
            (step id parseText s₂ .runTask).any (fun s₃ =>
              decide ((s₃.calls 0).replied = false))))) = true := by
    decide +kernel
  simp only [Option.any_eq_true, Bool.and_eq_true, decide_eq_true_eq] at h
  obtain ⟨s₀, -, hrequest, s₁, hsend, s₂, hdue, hfires, s₃, htimer, hreplied⟩ := h
  exact ⟨s₃, hreplied, not_settledByTimeout hrequest hsend
    (Runs.tail (l := .onTime [0]) (Runs.refl s₁) trivial hdue) hfires htimer⟩

/-- The answer to `makeOrder`, which says that there is no such method. -/
def makeOrderReply : TinyPBProtocol :=
  { msg_id_ := Bytes.ofString "1", error_code_ := ERROR_METHOD_NOT_FOUND }

/-- The reply comes after the timeout, and the error is another one. -/
theorem makeOrder_lateReply :
    ∃ s s' : Calls Bytes,
      execute (step id parseText) (init (fun _ => 1000) [])
        (makeOrderSent ++ [.onTime [0], .runTask]) = some s ∧
      step id parseText s (.reply makeOrderReply) = some s' ∧
      makeOrderRequest.msg_id_ ∈ s.conn.read_dones_ ∧
      (s.calls 0).controller.error_code_ = ERROR_RPC_CALL_TIMEOUT ∧
      (s'.calls 0).controller.error_code_ = ERROR_METHOD_NOT_FOUND ∧
      ¬ SettledByTimeout id parseText s 0 makeOrderRequest.msg_id_ := by
  have h : (execute (step id parseText) (init (fun _ => 1000) [])
      (makeOrderSent ++ [.onTime [0], .runTask])).any (fun s =>
        (step id parseText s (.reply makeOrderReply)).any (fun s' =>
          decide (makeOrderRequest.msg_id_ ∈ s.conn.read_dones_ ∧
            (s.calls 0).controller.error_code_ = ERROR_RPC_CALL_TIMEOUT ∧
            (s'.calls 0).controller.error_code_ = ERROR_METHOD_NOT_FOUND))) = true := by
    decide +kernel
  simp only [Option.any_eq_true, decide_eq_true_eq] at h
  obtain ⟨s, hs, s', hs', hentry, htimeout, herror⟩ := h
  exact ⟨s, s', hs, hs', hentry, htimeout, herror, fun hsettled => hsettled.popped hentry⟩

end Calls

end PbRpc
