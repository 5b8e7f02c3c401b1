import PbRpc.CallLife

/-!
# A channel that is used again

`CALLRPRC` initialises its channel and calls through it. Only the first
`init` of a channel has an effect, and `CallMethod` does not look at it
again but for its timer: the controller is taken from the arguments, and the
response and the closure from the channel. A second call through the channel
sets the channel's timer to its own. When its reply comes, the response that
is written to and the closure that is run are those of the first call, and
when the reply to the first call comes, the timer that is cancelled is that
of the second (`Calls.not_keptApart`).

`Calls.Separates` says of a step what calls through one channel should
promise each other: what is made, answered or timed out is one call, which
gets its own errors, its own response and its own run of the closure, and a
call that is over has had that run. It holds of every step, in every run in
which a call is the first use of its channel, gets a connection and is
serialised, and a reply before the timeout parses (`Calls.CleanUse`). No step
but these is harmless (`Calls.keptApart_iff`): without one of the other
three a call is over without a run of its closure, as in `CallLife`, and a
second use of a channel has a timer which, when it fires, runs the closure of
another call.
-/

namespace PbRpc

open Transition

theorem RpcChannel.points_own {u x : ℕ} (h : (RpcChannel.own u).Points x) : x = u := by
  rcases h with h | h | h <;> exact (Option.some.inj h).symm

namespace Calls

variable {Message : Type} (chan : ℕ → ℕ) (parseFromString : Bytes → Bool × Message)

/-- **A call that is made**: what `CallMethod` does to its own objects. -/
def made (input : CallInput) (c : Call Message) : Call Message :=
  let controller := c.controller.SetMsgId input.msg_id
  if ¬ input.connected then
    { c with
      controller := controller.SetError ERROR_FAILED_CONNECT (getErrorInfo ERROR_FAILED_CONNECT)
      stage := .failed }
  else
    match input.pb_data with
    | none =>
      { c with
        controller := controller.SetError ERROR_FAILED_SERIALIZE
          (Bytes.ofString "failed to serialize")
        stage := .failed }
    | some pb_data =>
      { c with
        controller := controller
        stage := .timed
        request :=
          { msg_id_ := input.msg_id
            method_name_ := input.method_full_name
            pb_data_ := pb_data } }

/-- What a step does to the objects of the calls: those of one call are
written to, as a call with a channel to itself would have it. A reply belongs
to the call whose request has its id, and a timer to the call that set it. -/
def OneCall (s s' : Calls Message) : CallsStep → Prop
  | .callMethod u input => ∀ v, s'.calls v = if v = u then made input (s.calls v) else s.calls v
  | .pushSendMessage u => ∀ v,
    s'.calls v = if v = u then { s.calls v with stage := .pushed } else s.calls v
  | .sendMessage | .onTime _ => s'.calls = s.calls
  | .reply rsp_msg => ∀ v,
    if s.conn.read_dones_.lookup rsp_msg.msg_id_ = some v then
      (s.calls v).request.msg_id_ = rsp_msg.msg_id_ ∧
        s'.calls v = answered parseFromString rsp_msg (s.calls v)
    else s'.calls v = s.calls v
  | .runTask => ∀ v,
    s'.calls v = if s.tasks.head? = some v then timedOut (s.calls v) else s.calls v

/-- **What a step may do to the calls.** -/
structure Separates (s s' : Calls Message) (l : CallsStep) : Prop where
  calls : OneCall parseFromString s s' l
  /-- The closure of a call that is over has run, and none has run twice. -/
  closures : ∀ v, (s'.life v).Once

/-- A call that gets as far as its timer is the first use of its channel. -/
def FirstUse (s : Calls Message) : CallsStep → Prop
  | .callMethod u input => input.connected = true ∧ input.pb_data.isSome = true →
    (s.channels (chan u)).is_init_ = false
  | _ => True

/-- **The condition on the steps of a run**: a call is the first use of its
channel, gets a connection and is serialised, and a reply that comes before
the timeout of its call parses. -/
def CleanUse (s : Calls Message) : CallsStep → Prop
  | .callMethod u input => (s.channels (chan u)).is_init_ = false ∧ input.connected = true ∧
    input.pb_data.isSome = true
  | .reply rsp_msg => ∀ u ∈ s.conn.read_dones_.lookup rsp_msg.msg_id_,
    (s.calls u).controller.is_cancle_ = false → (parseFromString rsp_msg.pb_data_).1 = true
  | _ => True

instance (s : Calls Message) : (l : CallsStep) → Decidable (CleanUse chan parseFromString s l)
  | .callMethod u input =>
    inferInstanceAs (Decidable ((s.channels (chan u)).is_init_ = false ∧ input.connected = true ∧
      input.pb_data.isSome = true))
  | .reply rsp_msg =>
    inferInstanceAs (Decidable (∀ u ∈ s.conn.read_dones_.lookup rsp_msg.msg_id_, _))
  | .pushSendMessage _ | .sendMessage | .onTime _ | .runTask => isTrue trivial

/-- **The calls are kept apart**, whatever happens next under the
condition. -/
def KeptApart (s : Calls Message) : Prop :=
  ∀ l s', CleanUse chan parseFromString s l → step chan parseFromString s l = some s' →
    Separates parseFromString s s' l

/-- The timer of a call has been set. -/
def Active (s : Calls Message) (u : ℕ) : Prop :=
  (s.calls u).stage = .timed ∨ (s.calls u).stage = .pushed

/-- **What is always true of calls on channels of their own.** -/
structure Apart (s : Calls Message) : Prop where
  own : ∀ u, s.Active u → s.channels (chan u) = .own u
  inited : ∀ k, (s.channels k).is_init_ = true →
    ∃ w, (s.channels k).closure_ = some w ∧ (s.calls w).stage ≠ .ready
  timers : ∀ u ∈ s.pending_events_, s.Active u
  tasks : ∀ u ∈ s.tasks, s.Active u
  registers : ∀ msg_id u, s.conn.Registers msg_id u →
    s.Active u ∧ (s.calls u).request.msg_id_ = msg_id
  ready : ∀ u, (s.calls u).stage = .ready → (s.calls u).is_cancled_ = false

variable {chan} {parseFromString} {s s' : Calls Message} {u v : ℕ}

theorem cleanUse_iff {l : CallsStep} :
    CleanUse chan parseFromString s l
      ↔ FirstUse chan s l ∧ ∀ u, CleanStep parseFromString u s l := by
  cases l with
  | callMethod u input =>
    exact ⟨fun h => ⟨fun _ => h.1, fun v _ => h.2⟩, fun h => ⟨h.1 (h.2 u rfl), h.2 u rfl⟩⟩
  | reply rsp_msg => exact ⟨fun h => ⟨trivial, fun u hu => h u hu⟩, fun h u hu => h.2 u hu⟩
  | pushSendMessage _ | sendMessage | onTime _ | runTask =>
    exact iff_of_true trivial ⟨trivial, fun _ => trivial⟩

theorem Active.ne_ready (h : s.Active u) : (s.calls u).stage ≠ .ready := by
  rcases h with h | h <;> (rw [h]; exact CallStage.noConfusion)

theorem apart_init (timeout : ℕ → ℤ) (response : Message) :
    Apart chan (init timeout response) where
  own u h := absurd rfl h.ne_ready
  inited k h := absurd h Bool.false_ne_true
  timers u h := absurd h List.not_mem_nil
  tasks u h := absurd h List.not_mem_nil
  registers msg_id u h := by
    rcases h with ⟨entry, hentry, -⟩ | hlookup
    · exact absurd hentry List.not_mem_nil
    · exact absurd hlookup (fun h => (by cases h))
  ready u _ := rfl

/-! ### One step -/

/-- **The reply callback of a call on its own channel.** -/
theorem calls_replyCallback_apart (hch : s.channels (chan u) = .own u)
    (rsp_msg : TinyPBProtocol) (v : ℕ) :
    (s.replyCallback chan parseFromString u rsp_msg).calls v
      = if v = u then answered parseFromString rsp_msg (s.calls v) else s.calls v := by
  split
  · rename_i hv
    rw [hv]
    exact calls_replyCallback parseFromString hch rsp_msg
  · rename_i hv
    refine (writes_replyCallback chan parseFromString s u rsp_msg).calls v ?_
    rintro (heq | hpoints)
    · exact hv heq
    · rw [hch] at hpoints
      exact hv (RpcChannel.points_own hpoints)

/-- **The timer callback of a call on its own channel.** -/
theorem calls_timerCallback_apart (hch : s.channels (chan u) = .own u) (v : ℕ) :
    (s.timerCallback chan u).calls v = if v = u then timedOut (s.calls v) else s.calls v := by
  split
  · rename_i hv
    rw [hv]
    exact calls_timerCallback hch
  · rename_i hv
    refine (writes_timerCallback chan s u).calls v ?_
    rintro (heq | hpoints)
    · exact hv heq
    · rw [hch] at hpoints
      exact hv (RpcChannel.points_own hpoints)

theorem CallMethod_cases (chan : ℕ → ℕ) (s : Calls Message) (u : ℕ) (input : CallInput) :
    ∃ channel c timers, CallMade chan s u channel c timers (s.CallMethod chan u input) ∧
      c.is_cancled_ = (s.calls u).is_cancled_ ∧
      (¬ (input.connected = true ∧ input.pb_data.isSome = true) ∧ c.stage = .failed ∧
          timers = [] ∧ channel = (s.channels (chan u)).init (some u) (some u) (some u) ∨
        (input.connected = true ∧ input.pb_data.isSome = true) ∧ c.stage = .timed ∧
          timers = [u] ∧ channel = { (s.channels (chan u)).init (some u) (some u) (some u) with
            timer_event_ := some u }) := by
  by_cases h : input.connected = true ∧ input.pb_data.isSome = true
  · obtain ⟨request, hmade⟩ := CallMethod_started chan s u h
    exact ⟨_, _, _, hmade, rfl, .inr ⟨h, rfl, rfl, rfl⟩⟩
  · obtain ⟨controller, -, hmade⟩ := CallMethod_failed chan s u h
    exact ⟨_, _, _, hmade, rfl, .inl ⟨h, rfl, rfl, rfl⟩⟩

/-- **`CallMethod` writes to its own call.** -/
theorem calls_CallMethod (chan : ℕ → ℕ) (s : Calls Message) (u : ℕ) (input : CallInput) (v : ℕ) :
    (s.CallMethod chan u input).calls v
      = if v = u then made input (s.calls v) else s.calls v := by
  by_cases hv : v = u
  · subst hv
    rw [if_pos rfl]
    unfold CallMethod made
    simp only [SetError, modify, Function.update_self, Function.update_idem,
      RpcChannel.is_init_init, not_true_eq_false, if_false]
    split
    · simp only [Function.update_self]
    · cases input.pb_data with
      | none => simp only [Function.update_self]
      | some pb_data => simp only [Function.update_self]
  · obtain ⟨channel, c, timers, hmade, -⟩ := CallMethod_cases chan s u input
    rw [if_neg hv, hmade.calls]
    exact Function.update_of_ne hv ..

/-- **Every step writes to one call**, from a state in which each has its
channel to itself. -/
theorem Apart.oneCall (h : Apart chan s) {l : CallsStep}
    (hs : step chan parseFromString s l = some s') : OneCall parseFromString s s' l := by
  cases l with
  | callMethod u input =>
    rw [step] at hs
    split at hs
    · obtain rfl := Option.some.inj hs
      exact calls_CallMethod chan s u input
    · cases hs
  | pushSendMessage u =>
    rw [step] at hs
    split at hs
    · obtain rfl := Option.some.inj hs
      intro v
      by_cases hv : v = u
      · subst hv
        rw [if_pos rfl]
        exact calls_modify_self s v (fun c => { c with stage := .pushed })
      · rw [if_neg hv]
        exact calls_modify_of_ne s hv (fun c => { c with stage := .pushed })
    · cases hs
  | sendMessage =>
    rw [step] at hs
    split at hs
    · obtain rfl := Option.some.inj hs
      rfl
    · cases hs
  | reply rsp_msg =>
    obtain ⟨-, ⟨hlookup, rfl⟩ | ⟨u, hlookup, rfl⟩⟩ := step_reply hs
    · intro v
      rw [hlookup, if_neg (fun heq => (by cases heq))]
    · obtain ⟨hactive, hid⟩ := h.registers _ _ (.inr hlookup)
      intro v
      show if _ then _ ∧ (s.replyCallback chan parseFromString u rsp_msg).calls v = _
        else (s.replyCallback chan parseFromString u rsp_msg).calls v = _
      rw [hlookup, calls_replyCallback_apart (h.own u hactive)]
      by_cases hv : v = u
      · subst hv
        rw [if_pos rfl, if_pos rfl]
        exact ⟨hid, rfl⟩
      · rw [if_neg (fun heq => hv (Option.some.inj heq).symm), if_neg hv]
  | onTime due =>
    rw [step] at hs
    split at hs
    · obtain rfl := Option.some.inj hs
      rfl
    · cases hs
  | runTask =>
    rw [step] at hs
    split at hs
    · cases hs
    · rename_i u tasks htasks
      obtain rfl := Option.some.inj hs
      have hactive : s.Active u := h.tasks u (by rw [htasks]; exact List.mem_cons_self ..)
      intro v
      rw [calls_timerCallback_apart (s := { s with tasks := tasks }) (h.own u hactive), htasks]
      by_cases hv : v = u
      · rw [if_pos hv, hv]
        exact (if_pos rfl).symm
      · rw [if_neg hv]
        exact (if_neg (fun heq => hv (Option.some.inj heq).symm)).symm

/-- **Every step is one of the life of each call**, from such a state. -/
theorem Apart.step_life (h : Apart chan s) {l : CallsStep}
    (hs : step chan parseFromString s l = some s') (u : ℕ) :
    ∃ event, CallLife.Step (s.life u) event (s'.life u) ∧
      (CleanStep parseFromString u s l ↔ CallLife.Clean (s.life u) event) := by
  cases l with
  | callMethod v input =>
    rw [step] at hs
    split at hs
    · obtain rfl := Option.some.inj hs
      exact life_callMethod parseFromString (by assumption)
    · cases hs
  | pushSendMessage v =>
    rw [step] at hs
    split at hs
    · rename_i htimed
      obtain ⟨event, -, hlife, hclean⟩ := life_pushSendMessage (u := u) htimed
        (Option.some.inj hs).symm
      exact ⟨event, hlife, iff_of_true trivial hclean⟩
    · cases hs
  | sendMessage =>
    rw [step] at hs
    split at hs
    · exact ⟨.other, life_takeWriteDones (Option.some.inj hs).symm, Iff.rfl⟩
    · cases hs
  | reply rsp_msg =>
    obtain ⟨htasks, ⟨hlookup, rfl⟩ | ⟨v, hlookup, rfl⟩⟩ := step_reply hs
    · refine ⟨.other, .other le_rfl, fun _ => trivial, fun _ heq => ?_⟩
      rw [hlookup] at heq
      cases heq
    · have hactive : s.Active v := (h.registers _ _ (.inr hlookup)).1
      obtain ⟨event, -, hlife, hclean⟩ := life_replyCallback parseFromString htasks hlookup
        (calls_replyCallback_apart (h.own v hactive) rsp_msg u) rfl
      exact ⟨event, hlife, hclean⟩
  | onTime due =>
    rw [step] at hs
    split at hs
    · rename_i hdue
      obtain ⟨event, -, hlife, hclean⟩ := life_onTime (u := u) hdue.1 hdue.2.1 hdue.2.2
        (Option.some.inj hs).symm
      exact ⟨event, hlife, iff_of_true trivial hclean⟩
    · cases hs
  | runTask =>
    rw [step] at hs
    split at hs
    · cases hs
    · rename_i v tasks htasks
      have hactive : s.Active v := h.tasks v (by rw [htasks]; exact List.mem_cons_self ..)
      obtain ⟨event, -, hlife, hclean⟩ := life_task htasks
        (calls_timerCallback_apart (s := { s with tasks := tasks }) (h.own v hactive) u)
        (Option.some.inj hs).symm
      exact ⟨event, hlife, iff_of_true trivial hclean⟩

/-- **A step that makes no call** keeps the calls on channels of their own,
when it writes to calls that have set their timers, and leaves their
requests alone. -/
theorem Apart.of_calls (h : Apart chan s) (hchannels : s'.channels = s.channels)
    (hcalls : ∀ v, s'.calls v = s.calls v ∨
      s.Active v ∧ s'.Active v ∧ (s'.calls v).request = (s.calls v).request)
    (htimers : ∀ u ∈ s'.pending_events_, u ∈ s.pending_events_)
    (htasks : ∀ u ∈ s'.tasks, u ∈ s.tasks ∨ u ∈ s.pending_events_)
    (hregisters : ∀ msg_id u, s'.conn.Registers msg_id u →
      s.conn.Registers msg_id u ∨ s.Active u ∧ (s.calls u).request.msg_id_ = msg_id) :
    Apart chan s' := by
  have hactive : ∀ v, s'.Active v ↔ s.Active v := by
    intro v
    rcases hcalls v with heq | ⟨hold, hnew, -⟩
    · rw [Active, Active, heq]
    · exact iff_of_true hnew hold
  have hrequest : ∀ v, (s'.calls v).request = (s.calls v).request := by
    intro v
    rcases hcalls v with heq | ⟨-, -, heq⟩
    · rw [heq]
    · exact heq
  have hready : ∀ v, (s'.calls v).stage = .ready → s'.calls v = s.calls v := fun v hv =>
    (hcalls v).resolve_right fun hactive => hactive.2.1.ne_ready hv
  refine ⟨fun v hv => ?_, fun k hk => ?_, fun v hv => ?_, fun v hv => ?_,
    fun msg_id v hv => ?_, fun v hv => ?_⟩
  · rw [hchannels]
    exact h.own v ((hactive v).mp hv)
  · rw [hchannels] at hk ⊢
    obtain ⟨w, hclosure, hw⟩ := h.inited k hk
    exact ⟨w, hclosure, fun hw' => hw (hready w hw' ▸ hw')⟩
  · exact (hactive v).mpr (h.timers v (htimers v hv))
  · exact (hactive v).mpr ((htasks v hv).elim (h.tasks v) (h.timers v))
  · rw [hactive, hrequest]
    exact (hregisters msg_id v hv).elim (h.registers msg_id v) id
  · have heq := hready v hv
    rw [heq] at hv ⊢
    exact h.ready v hv

/-- One call changes, and not in its stage or its request. -/
theorem calls_of_apart {f : Call Message → Call Message} (hactive : s.Active u)
    (hcalls : ∀ v, s'.calls v = if v = u then f (s.calls v) else s.calls v)
    (hstage : ∀ c, (f c).stage = c.stage) (hrequest : ∀ c, (f c).request = c.request) (v : ℕ) :
    s'.calls v = s.calls v ∨
      s.Active v ∧ s'.Active v ∧ (s'.calls v).request = (s.calls v).request := by
  by_cases hv : v = u
  · subst hv
    have hself := hcalls v
    rw [if_pos rfl] at hself
    refine .inr ⟨hactive, ?_, by rw [hself, hrequest]⟩
    rw [Active, hself, hstage]
    exact hactive
  · exact .inl ((hcalls v).trans (if_neg hv))

/-- **A call that is made** on a channel that is new, or that fails. -/
theorem Apart.callMethod (h : Apart chan s) (hready : (s.calls u).stage = .ready)
    {input : CallInput} (hfirst : FirstUse chan s (.callMethod u input)) :
    Apart chan (s.CallMethod chan u input) := by
  obtain ⟨channel, c, timers, hmade, hcancled, hcase⟩ := CallMethod_cases chan s u input
  generalize s.CallMethod chan u input = s' at hmade
  have hself : s'.calls u = c := by rw [hmade.calls, Function.update_self]
  have hother : ∀ v, v ≠ u → s'.calls v = s.calls v := by
    intro v hv
    rw [hmade.calls]
    exact Function.update_of_ne hv ..
  have hstage : (s'.calls u).stage ≠ .ready := by
    rw [hself]
    rcases hcase with ⟨-, hfailed, -⟩ | ⟨-, htimed, -⟩
    · rw [hfailed]
      exact CallStage.noConfusion
    · rw [htimed]
      exact CallStage.noConfusion
  have hactive : ∀ v, s.Active v → v ≠ u ∧ s'.Active v := by
    intro v hv
    have hne : v ≠ u := fun heq => hv.ne_ready (heq ▸ hready)
    refine ⟨hne, ?_⟩
    rw [Active, hother v hne]
    exact hv
  refine ⟨fun v hv => ?_, fun k hk => ?_, fun v hv => ?_, fun v hv => ?_, fun msg_id v hv => ?_,
    fun v hv => ?_⟩
  · rw [hmade.channels]
    by_cases hvu : v = u
    · -- the channel is new
      subst hvu
      rw [Function.update_self]
      rcases hcase with ⟨-, hfailed, -⟩ | ⟨hgoes, -, -, hchannel⟩
      · rw [Active, hself, hfailed] at hv
        rcases hv with hv | hv <;> cases hv
      · rw [hchannel, RpcChannel.init, hfirst hgoes]
        rfl
    · have hold : s.Active v := by
        rw [Active, hother v hvu] at hv
        exact hv
      by_cases hchan : chan v = chan u
      · have hinit : (s.channels (chan u)).is_init_ = true := by
          rw [← hchan, h.own v hold]
          rfl
        rw [hchan, Function.update_self]
        rcases hcase with ⟨-, -, -, hchannel⟩ | ⟨hgoes, -⟩
        · rw [hchannel, RpcChannel.init, if_pos hinit, ← hchan]
          exact h.own v hold
        · rw [hfirst hgoes] at hinit
          cases hinit
      · rw [Function.update_of_ne hchan]
        exact h.own v hold
  · rw [hmade.channels] at hk ⊢
    by_cases hku : k = chan u
    · subst hku
      rw [Function.update_self] at hk ⊢
      have hclosure : channel.closure_
          = ((s.channels (chan u)).init (some u) (some u) (some u)).closure_ := by
        rcases hcase with ⟨-, -, -, hchannel⟩ | ⟨-, -, -, hchannel⟩ <;> rw [hchannel]
      rw [hclosure, RpcChannel.init]
      split
      · rename_i hinit
        obtain ⟨w, hw, hwready⟩ := h.inited _ hinit
        refine ⟨w, hw, ?_⟩
        rw [hother w fun heq => hwready (heq ▸ hready)]
        exact hwready
      · exact ⟨u, rfl, hstage⟩
    · rw [Function.update_of_ne hku] at hk ⊢
      obtain ⟨w, hw, hwready⟩ := h.inited k hk
      refine ⟨w, hw, ?_⟩
      rw [hother w fun heq => hwready (heq ▸ hready)]
      exact hwready
  · rw [hmade.pending_events_, List.mem_append] at hv
    rcases hv with hv | hv
    · exact (hactive v (h.timers v hv)).2
    · rcases hcase with ⟨-, -, htimers, -⟩ | ⟨-, htimed, htimers, -⟩
      · rw [htimers] at hv
        cases hv
      · rw [htimers] at hv
        rw [List.mem_singleton.mp hv, Active, hself]
        exact .inl htimed
  · rw [hmade.tasks] at hv
    exact (hactive v (h.tasks v hv)).2
  · rw [hmade.conn] at hv
    obtain ⟨hold, hid⟩ := h.registers msg_id v hv
    obtain ⟨hne, hnew⟩ := hactive v hold
    refine ⟨hnew, ?_⟩
    rw [hother v hne]
    exact hid
  · have hne : v ≠ u := fun heq => hstage (heq ▸ hv)
    rw [hother v hne] at hv ⊢
    exact h.ready v hv

/-- **Every step that meets the condition** leaves the calls on channels of
their own. -/
theorem Apart.step (h : Apart chan s) {l : CallsStep} (hfirst : FirstUse chan s l)
    (hs : step chan parseFromString s l = some s') : Apart chan s' := by
  have hcalls := h.oneCall hs
  cases l with
  | callMethod u input =>
    rw [Calls.step] at hs
    split at hs
    · obtain rfl := Option.some.inj hs
      exact h.callMethod (by assumption) hfirst
    · cases hs
  | pushSendMessage u =>
    rw [Calls.step] at hs
    split at hs
    · rename_i htimed
      obtain rfl := Option.some.inj hs
      refine h.of_calls rfl (fun v => ?_) (fun _ => id) (fun _ => .inl) (fun msg_id v hv => ?_)
      · by_cases hv : v = u
        · subst hv
          have hself := calls_modify_self s v (fun c => { c with stage := .pushed })
          have hstage := congrArg Call.stage hself
          have hrequest := congrArg Call.request hself
          exact .inr ⟨.inl htimed, .inr hstage, hrequest⟩
        · exact .inl ((hcalls v).trans (if_neg hv))
      · rcases s.conn.registers_pushSendMessage hv with hold | ⟨hid, rfl⟩
        · exact .inl hold
        · exact .inr ⟨.inl htimed, hid⟩
    · cases hs
  | sendMessage =>
    rw [Calls.step] at hs
    split at hs
    · obtain rfl := Option.some.inj hs
      exact h.of_calls rfl (fun _ => .inl rfl) (fun _ => id) (fun _ => .inl)
        (fun _ _ hv => .inl (s.conn.registers_takeWriteDones hv))
    · cases hs
  | reply rsp_msg =>
    obtain ⟨-, ⟨hlookup, rfl⟩ | ⟨u, hlookup, rfl⟩⟩ := step_reply hs
    · exact h
    · have hwrites := writes_replyCallback chan parseFromString s u rsp_msg
      have hactive : s.Active u := (h.registers _ _ (.inr hlookup)).1
      refine h.of_calls hwrites.channels
        (calls_of_apart hactive (calls_replyCallback_apart (h.own u hactive) rsp_msg)
          (fun _ => rfl) (fun _ => rfl))
        (fun v hv => ?_) (fun v hv => ?_)
        (fun _ _ hv => .inl (s.conn.registers_popReadMessage hv))
      · rwa [← hwrites.pending_events_]
      · exact .inl (by rwa [← hwrites.tasks])
  | onTime due =>
    rw [Calls.step] at hs
    split at hs
    · rename_i hdue
      obtain rfl := Option.some.inj hs
      exact h.of_calls rfl (fun _ => .inl rfl) (fun _ hv => (List.mem_filter.mp hv).1)
        (fun v hv => .inr (hdue.2.2 v (List.mem_filter.mp hv).1)) (fun _ _ => .inl)
    · cases hs
  | runTask =>
    rw [Calls.step] at hs
    split at hs
    · cases hs
    · rename_i u tasks htasks
      obtain rfl := Option.some.inj hs
      have hactive : s.Active u := h.tasks u (by rw [htasks]; exact List.mem_cons_self ..)
      have hwrites := writes_timerCallback chan { s with tasks := tasks } u
      refine h.of_calls hwrites.channels
        (calls_of_apart hactive (calls_timerCallback_apart (h.own u hactive))
          (fun _ => rfl) (fun _ => rfl))
        (fun v hv => ?_) (fun v hv => .inl ?_) (fun msg_id v hv => .inl ?_)
      · rwa [hwrites.pending_events_] at hv
      · rw [hwrites.tasks] at hv
        rw [htasks]
        exact List.mem_cons_of_mem _ hv
      · rwa [hwrites.conn] at hv

/-- What is true of the calls in a run under the condition. -/
structure InOrder (chan : ℕ → ℕ) (s : Calls Message) : Prop where
  apart : Apart chan s
  kept : ∀ u, (s.life u).Kept

theorem InOrder.step (h : InOrder chan s) {l : CallsStep}
    (hclean : CleanUse chan parseFromString s l) (hs : step chan parseFromString s l = some s') :
    InOrder chan s' := by
  obtain ⟨hfirst, hcleans⟩ := cleanUse_iff.mp hclean
  refine ⟨h.apart.step hfirst hs, fun u => ?_⟩
  obtain ⟨event, hlife, hiff⟩ := h.apart.step_life hs u
  exact (h.kept u).step (hiff.mp (hcleans u)) hlife

theorem inOrder_of_runs {timeout : ℕ → ℤ} {response : Message}
    (hrun : Runs (Calls.step chan parseFromString) (CleanUse chan parseFromString)
      (init timeout response) s) : InOrder chan s :=
  hrun.invariant (fun _ _ _ h hclean hs => h.step hclean hs)
    ⟨apart_init timeout response, fun _ => CallLife.kept_start⟩

/-- **Every step under the condition keeps the calls apart.** -/
theorem InOrder.separates (h : InOrder chan s) {l : CallsStep}
    (hclean : CleanUse chan parseFromString s l)
    (hs : Calls.step chan parseFromString s l = some s') : Separates parseFromString s s' l :=
  ⟨h.apart.oneCall hs, fun u => ((h.step hclean hs).kept u).once⟩

/-! ### A second call -/

theorem is_cancled_write (s : Calls Message) (target : Option ℕ)
    {f : Call Message → Call Message} (hf : ∀ c, (f c).is_cancled_ = c.is_cancled_) (v : ℕ) :
    ((s.write target f).calls v).is_cancled_ = (s.calls v).is_cancled_ := by
  cases target with
  | none => rfl
  | some u =>
    by_cases hv : v = u
    · subst hv
      rw [write, calls_modify_self, hf]
    · rw [write, calls_modify_of_ne s hv]

/-- A timer callback cancels no timer. -/
theorem is_cancled_timerCallback (s : Calls Message) (u v : ℕ) :
    ((s.timerCallback chan u).calls v).is_cancled_ = (s.calls v).is_cancled_ := by
  have hfired := is_cancled_write s (some u) (f := fun c => { c with
    fired := true
    controller := c.controller.StartCancel.SetError ERROR_RPC_CALL_TIMEOUT
      (Bytes.ofString "rpc call timeout " ++ toStringInt c.controller.time_out_) })
    (fun _ => rfl) v
  unfold timerCallback runClosure
  exact (is_cancled_write _ _ (f := fun c => { c with closureRuns := c.closureRuns + 1 })
    (fun _ => rfl) v).trans hfired

/-- The timer callbacks that were collected can all be run. -/
theorem exists_tasks_eq_nil (parseFromString : Bytes → Bool × Message) (s : Calls Message) :
    ∃ s', Runs (step chan parseFromString) (CleanUse chan parseFromString) s s' ∧ s'.tasks = [] ∧
      s'.channels = s.channels ∧ s'.pending_events_ = s.pending_events_ ∧
      ∀ v, (s'.calls v).is_cancled_ = (s.calls v).is_cancled_ := by
  generalize htasks : s.tasks = tasks
  induction tasks generalizing s with
  | nil => exact ⟨s, Runs.refl s, htasks, rfl, rfl, fun _ => rfl⟩
  | cons u tasks ih =>
    have hs : step chan parseFromString s .runTask
        = some ({ s with tasks := tasks }.timerCallback chan u) := by
      rw [step, htasks]
    have hwrites := writes_timerCallback chan { s with tasks := tasks } u
    obtain ⟨s', hrun, hnil, hchannels, hpending, hcancled⟩ := ih _ hwrites.tasks
    exact ⟨s', ((Runs.refl s).tail trivial hs).trans hrun, hnil,
      hchannels.trans hwrites.channels, hpending.trans hwrites.pending_events_,
      fun v => (hcancled v).trans (is_cancled_timerCallback _ u v)⟩

/-- **The timer of a call whose channel has the closure of another** runs
that. -/
theorem not_keptApart_of_closure {w : ℕ} (hw : w ≠ u)
    (hclosure : (s.channels (chan u)).closure_ = some w) (htasks : s.tasks = [u]) :
    ¬ KeptApart chan parseFromString s := by
  intro hkept
  have hs : step chan parseFromString s .runTask
      = some ({ s with tasks := [] }.timerCallback chan u) := by
    rw [step, htasks]
  have hcalls := (hkept .runTask _ trivial hs).calls w
  have hhead : ¬ s.tasks.head? = some w := by
    rw [htasks]
    exact fun heq => hw (Option.some.inj heq).symm
  rw [if_neg hhead] at hcalls
  have hruns : ({ s with tasks := [] }.timerCallback chan u).calls w
      = { s.calls w with closureRuns := (s.calls w).closureRuns + 1 } := by
    unfold timerCallback
    dsimp only
    rw [runClosure]
    dsimp only [modify]
    rw [hclosure, write, calls_modify_self]
    dsimp only
    rw [Function.update_of_ne hw]
  have hsame := congrArg Call.closureRuns (hruns.symm.trans hcalls)
  exact Nat.succ_ne_self _ hsame

/-- **A call that gets as far as its timer on a channel that is in use**
will not be kept apart. -/
theorem not_keptApart_of_second (h : Apart chan s) {input : CallInput}
    (hsecond : ¬ FirstUse chan s (.callMethod u input))
    (hs : step chan parseFromString s (.callMethod u input) = some s') :
    ∃ s'', Runs (step chan parseFromString) (CleanUse chan parseFromString) s' s'' ∧
      ¬ KeptApart chan parseFromString s'' := by
  rw [FirstUse, Classical.not_imp, Bool.not_eq_false] at hsecond
  obtain ⟨hgoes, hinit⟩ := hsecond
  rw [step] at hs
  split at hs
  · rename_i hready
    obtain rfl := Option.some.inj hs
    obtain ⟨w, hclosure, hw⟩ := h.inited _ hinit
    obtain ⟨request, hmade⟩ := CallMethod_started chan s u hgoes
    obtain ⟨s₁, hrun, htasks, hchannels, hpending, hcancled⟩ :=
      exists_tasks_eq_nil parseFromString (s.CallMethod chan u input)
    have hmem : u ∈ s₁.pending_events_ := by
      rw [hpending, hmade.pending_events_]
      exact List.mem_append_right _ (List.mem_singleton_self u)
    have hnot : (s₁.calls u).is_cancled_ = false := by
      rw [hcancled, hmade.calls, Function.update_self]
      exact h.ready u hready
    have hdue : step chan parseFromString s₁ (.onTime [u]) = some { s₁ with
        tasks := [u]
        pending_events_ := s₁.pending_events_.filter (fun v => v ∉ [u]) } := by
      have hfilter : [u].filter (fun v => !(s₁.calls v).is_cancled_) = [u] := by
        rw [List.filter_cons_of_pos (by rw [hnot]; rfl)]
        rfl
      rw [step, if_pos ⟨htasks, List.nodup_singleton u, fun v hv => by
        rwa [List.mem_singleton.mp hv]⟩, hfilter]
    refine ⟨_, hrun.tail (by trivial) hdue, not_keptApart_of_closure (w := w) ?_ ?_ rfl⟩
    · rintro rfl
      exact hw hready
    · show (s₁.channels (chan u)).closure_ = some w
      rw [hchannels, hmade.channels, Function.update_self, RpcChannel.init, if_pos hinit]
      exact hclosure
  · cases hs

/-- **The calls on a channel are kept apart** in every run under the condition,
and by no step that does not meet it: it leaves a call that is over without
the run of its closure, or is followed, sooner or later, by a step that mixes
two calls. -/
theorem keptApart_iff {timeout : ℕ → ℤ} {response : Message}
    (hrun : Runs (step chan parseFromString) (CleanUse chan parseFromString)
      (init timeout response) s) :
    KeptApart chan parseFromString s ∧
      ∀ l s', step chan parseFromString s l = some s' →
        (Separates parseFromString s s' l ∧
          (∀ s'', Runs (step chan parseFromString) (CleanUse chan parseFromString) s' s'' →
            KeptApart chan parseFromString s'') ↔ CleanUse chan parseFromString s l) := by
  have h : InOrder chan s := inOrder_of_runs hrun
  refine ⟨fun l s' hclean hs => h.separates hclean hs, fun l s' hs => ⟨?_, fun hclean => ?_⟩⟩
  · rintro ⟨hseparates, hkept⟩
    refine cleanUse_iff.mpr ⟨?_, fun u => ?_⟩
    · by_contra hsecond
      cases l with
      | callMethod u input =>
        obtain ⟨s'', hrun', hmixed⟩ := not_keptApart_of_second h.apart hsecond hs
        exact hmixed (hkept s'' hrun')
      | pushSendMessage _ | sendMessage | reply _ | onTime _ | runTask => exact hsecond trivial
    · by_contra hunclean
      obtain ⟨event, hlife, hiff⟩ := h.apart.step_life hs u
      exact (h.kept u).inv.not_once (fun hclean => hunclean (hiff.mpr hclean)) hlife
        (hseparates.closures u)
  · refine ⟨h.separates hclean hs, fun s'' hrun' l t hclean' hs' => ?_⟩
    exact (inOrder_of_runs ((hrun.tail hclean hs).trans hrun')).separates hclean' hs'

/-- The call `u` of `OrderService.make`. -/
def makeOrderAs (u : ℕ) (msg_id : String) (connected : Bool) : CallsStep :=
  .callMethod u
    { msg_id := Bytes.ofString msg_id
      method_full_name := Bytes.ofString "OrderService.make"
      connected := connected
      pb_data := some [] }

/-- Two calls at the same time. The first is answered after its timeout, and
behind the second. -/
theorem keptApart_twoCalls :
    ∃ s : Calls Bytes, KeptApart id parseText s ∧
      (s.calls 0).controller.error_code_ = ERROR_RPC_CALL_TIMEOUT ∧
      (s.calls 0).response = Bytes.ofString "one" ∧ (s.calls 0).closureRuns = 1 ∧
      (s.calls 1).controller.error_code_ = 0 ∧ (s.calls 1).response = Bytes.ofString "two" ∧
      (s.calls 1).closureRuns = 1 := by
  obtain ⟨s, hruns, h⟩ : ∃ s, Runs (restrict (step id parseText) (CleanUse id parseText)) anyStep
      (init (fun _ => 1000) []) s ∧
      decide ((s.calls 0).controller.error_code_ = ERROR_RPC_CALL_TIMEOUT ∧
        (s.calls 0).response = Bytes.ofString "one" ∧ (s.calls 0).closureRuns = 1 ∧
        (s.calls 1).controller.error_code_ = 0 ∧ (s.calls 1).response = Bytes.ofString "two" ∧
        (s.calls 1).closureRuns = 1) = true :=
    exists_of_execute
      [makeOrderAs 0 "1" true, .pushSendMessage 0, makeOrderAs 1 "2" true, .pushSendMessage 1,
        .sendMessage, .onTime [0],
        .runTask, .reply { msg_id_ := Bytes.ofString "2", pb_data_ := Bytes.ofString "two" },
        .reply { msg_id_ := Bytes.ofString "1", pb_data_ := Bytes.ofString "one" }]
      (by decide +kernel)
  exact ⟨s, (keptApart_iff (runs_of_restrict hruns)).1, of_decide_eq_true h⟩

/-- The first call is over when the second one is made through its channel.
The reply to the second is parsed into the response of the first, whose
closure runs again; the second call gets nothing. -/
theorem not_keptApart :
    ∃ s : Calls Bytes,
      Runs (step (fun _ => 0) parseText) anyStep (init (fun _ => 1000) []) s ∧
      ¬ KeptApart (fun _ => 0) parseText s ∧
      (step (fun _ => 0) parseText s
        (.reply { msg_id_ := Bytes.ofString "2", pb_data_ := Bytes.ofString "two" })).any
        (fun s' => decide ((s'.calls 0).response = Bytes.ofString "two" ∧
          (s'.calls 0).closureRuns = 2 ∧ (s'.calls 1).response = [] ∧
          (s'.calls 1).closureRuns = 0)) = true := by
  obtain ⟨s, hruns, h⟩ : ∃ s, Runs (step (fun _ => 0) parseText) anyStep
      (init (fun _ => 1000) []) s ∧
      decide (s.conn.read_dones_.lookup (Bytes.ofString "2") = some 1 ∧
        (s.calls 0).closureRuns = 1 ∧
        (step (fun _ => 0) parseText s
          (.reply { msg_id_ := Bytes.ofString "2", pb_data_ := Bytes.ofString "two" })).any
          (fun s' => decide ((s'.calls 0).response = Bytes.ofString "two" ∧
            (s'.calls 0).closureRuns = 2 ∧ (s'.calls 1).response = [] ∧
            (s'.calls 1).closureRuns = 0)) = true) = true :=
    exists_of_execute
      [makeOrderAs 0 "1" true, .pushSendMessage 0, .sendMessage,
        .reply { msg_id_ := Bytes.ofString "1", pb_data_ := Bytes.ofString "one" },
        makeOrderAs 1 "2" true, .pushSendMessage 1, .sendMessage]
      (by decide +kernel)
  obtain ⟨hlookup, hone, hany⟩ := of_decide_eq_true h
  refine ⟨s, hruns, fun hkept => ?_, hany⟩
  obtain ⟨s', hs, htwo⟩ := (Option.any_eq_true _ _).mp hany
  obtain ⟨-, hruns', -⟩ := of_decide_eq_true htwo
  have hclean : CleanUse (fun _ => 0) parseText s
      (.reply { msg_id_ := Bytes.ofString "2", pb_data_ := Bytes.ofString "two" }) :=
    fun _ _ _ => rfl
  have hsame := (hkept _ s' hclean hs).calls 0
  rw [hlookup, if_neg fun heq => (by cases heq)] at hsame
  rw [hsame, hone] at hruns'
  cases hruns'

end Calls

end PbRpc
