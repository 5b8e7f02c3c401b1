import PbRpc.RpcChannel
import PbRpc.Transition

/-!
# The life of a call

What a call goes through when it has a channel to itself, without the
objects it is made of: its timer and its reply callback are counted where
they are, and the closure by its runs. `CallLife.Step` is what can happen to
it, and every step of the calls over a connection is one of these for each
call (`Calls.step_life`).

The timer and the reply do not run the closure twice. A reply cancels the
timer, and it comes before the timer's callback is collected or after it
has run; and once the callback has run, a reply leaves the closure alone.
Whether the closure runs at all is another matter. `CallMethod` returns
after a failed connect or a failed serialisation without running it, and so
does the reply callback when the payload does not parse, after it has
cancelled the timer. A call that meets with none of the three has its
closure run exactly once (`Calls.closure_once`), and a call that meets with
one is over without a run (`Calls.not_once_of_unclean`).
-/

namespace PbRpc

open Transition

/-- **A call, seen from outside.** -/
structure CallLife where
  stage : CallStage
  /-- Its reply callbacks that have not run. -/
  waiting : ℕ
  /-- Its timers that are set. -/
  pending : ℕ
  /-- Its timer callbacks that are collected and have not run. -/
  collected : ℕ
  /-- The cancel flag of its timer. -/
  is_cancled_ : Bool
  /-- The cancel flag of its controller. -/
  is_cancle_ : Bool
  replied : Bool
  fired : Bool
  closureRuns : ℕ

/-- What can happen to a call. -/
inductive CallEvent where
  | other
  | failed
  | started
  | pushed
  | replied (parsed : Bool)
  | due
  | fired
deriving DecidableEq

namespace CallLife

/-- **How a call goes on.** -/
inductive Step : CallLife → CallEvent → CallLife → Prop
  | other {c : CallLife} {n : ℕ} (h : n ≤ c.waiting) : Step c .other { c with waiting := n }
  | failed {c : CallLife} (h : c.stage = .ready) : Step c .failed { c with stage := .failed }
  | started {c : CallLife} (h : c.stage = .ready) :
      Step c .started { c with stage := .timed, pending := c.pending + 1 }
  | pushed {c : CallLife} (h : c.stage = .timed) :
      Step c .pushed { c with stage := .pushed, waiting := c.waiting + 1 }
  | replied {c : CallLife} {n : ℕ} (parsed : Bool) (h : c.waiting = n + 1)
      (hc : c.collected = 0) :
      Step c (.replied parsed)
        { c with
          waiting := n
          is_cancled_ := true
          replied := true
          closureRuns := c.closureRuns + (parsed && !c.is_cancle_).toNat }
  | due {c : CallLife} (h : 0 < c.pending) (hc : c.collected = 0) :
      Step c .due { c with pending := 0, collected := (!c.is_cancled_).toNat }
  | fired {c : CallLife} {n : ℕ} (h : c.collected = n + 1) :
      Step c .fired
        { c with
          collected := n
          is_cancle_ := true
          fired := true
          closureRuns := c.closureRuns + 1 }

/-- Before the call. -/
def start : CallLife :=
  { stage := .ready, waiting := 0, pending := 0, collected := 0, is_cancled_ := false,
    is_cancle_ := false, replied := false, fired := false, closureRuns := 0 }

/-- **What is always true of a call.** -/
structure Inv (c : CallLife) : Prop where
  one_callback : c.waiting + c.replied.toNat ≤ 1
  one_timer : c.pending + c.collected + c.fired.toNat ≤ 1
  not_pushed : c.stage ≠ .pushed → c.waiting = 0 ∧ c.replied = false
  no_timer : c.stage = .ready ∨ c.stage = .failed →
    c.pending = 0 ∧ c.collected = 0 ∧ c.fired = false
  /-- A reply before the timeout cancels the timer. -/
  timer_cancelled : c.replied = true → c.fired = false → c.is_cancled_ = true ∧ c.collected = 0
  canceled : c.is_cancle_ = c.fired
  runs_fired : c.fired = true → c.closureRuns = 1
  runs_none : c.fired = false → c.replied = false → c.closureRuns = 0
  runs_le : c.closureRuns ≤ 1

/-- **The call can make no further progress.** -/
def Over (c : CallLife) : Prop := c.stage = .failed ∨ c.replied = true ∨ c.fired = true

/-- **The closure runs at most once, and has run when the call is over.** -/
def Once (c : CallLife) : Prop := c.closureRuns ≤ 1 ∧ (c.Over → c.closureRuns = 1)

instance (c : CallLife) : Decidable (Over c) := inferInstanceAs (Decidable (_ ∨ _ ∨ _))

instance (c : CallLife) : Decidable (Once c) := inferInstanceAs (Decidable (_ ∧ _))

/-- What a call must not meet with. -/
def Clean (c : CallLife) : CallEvent → Prop
  | .failed => False
  | .replied parsed => c.is_cancle_ = false → parsed = true
  | _ => True

theorem inv_start : Inv start := by constructor <;> simp [start]

variable {c c' c'' : CallLife} {event : CallEvent}

theorem Step.congr (h : Step c event c') (heq : c'' = c') : Step c event c'' := heq ▸ h

/-- A call that has not replied and whose timer has not fired has had no
run. -/
theorem Inv.closureRuns_eq_zero (h : Inv c) (hwaiting : 0 < c.waiting) (hfired : c.fired = false) :
    c.closureRuns = 0 := by
  refine h.runs_none hfired (Bool.eq_false_of_not_eq_true fun hreplied => ?_)
  have := h.one_callback
  rw [hreplied, Bool.toNat_true] at this
  omega

/-- **Everything that happens to a call keeps it in order.** -/
theorem Inv.step (h : Inv c) (hs : Step c event c') : Inv c' := by
  cases hs with
  | @other n hn =>
    exact { h with
      one_callback := le_trans (Nat.add_le_add_right hn _) h.one_callback
      not_pushed := fun hp => ⟨Nat.eq_zero_of_le_zero (hn.trans (h.not_pushed hp).1.le),
        (h.not_pushed hp).2⟩ }
  | failed hready =>
    have hp : c.stage ≠ .pushed := by rw [hready]; decide
    exact { h with
      not_pushed := fun _ => h.not_pushed hp
      no_timer := fun _ => h.no_timer (.inl hready) }
  | started hready =>
    obtain ⟨hpending, hcollected, hfired⟩ := h.no_timer (.inl hready)
    have hp : c.stage ≠ .pushed := by rw [hready]; decide
    exact { h with
      one_timer := by
        show c.pending + 1 + c.collected + c.fired.toNat ≤ 1
        rw [hpending, hcollected, hfired]
        rfl
      not_pushed := fun _ => h.not_pushed hp
      no_timer := fun hstage => by rcases hstage with hstage | hstage <;> cases hstage }
  | pushed htimed =>
    have hp : c.stage ≠ .pushed := by rw [htimed]; decide
    obtain ⟨hwaiting, hreplied⟩ := h.not_pushed hp
    exact { h with
      one_callback := by
        show c.waiting + 1 + c.replied.toNat ≤ 1
        rw [hwaiting, hreplied]
        rfl
      not_pushed := fun hp => absurd rfl hp
      no_timer := fun hstage => by rcases hstage with hstage | hstage <;> cases hstage }
  | @replied n parsed hwaiting hcollected =>
    have hpos : 0 < c.waiting := by omega
    have hone := h.one_callback
    have hreplied : c.replied = false := by
      cases hr : c.replied with
      | false => rfl
      | true => rw [hr, Bool.toNat_true] at hone; omega
    exact { h with
      one_callback := by
        show n + 1 ≤ 1
        omega
      not_pushed := fun hp => by
        have := (h.not_pushed hp).1
        omega
      timer_cancelled := fun _ _ => ⟨rfl, hcollected⟩
      runs_fired := fun hfired => by
        -- the timeout has cancelled the call
        show c.closureRuns + (parsed && !c.is_cancle_).toNat = 1
        rw [h.canceled, show c.fired = true from hfired, Bool.not_true, Bool.and_false,
          h.runs_fired hfired]
        rfl
      runs_none := fun _ hr => nomatch hr
      runs_le := by
        show c.closureRuns + (parsed && !c.is_cancle_).toNat ≤ 1
        cases hfired : c.fired with
        | true =>
          rw [h.canceled, hfired, Bool.not_true, Bool.and_false, h.runs_fired hfired]
          exact le_rfl
        | false =>
          rw [h.closureRuns_eq_zero hpos hfired, Nat.zero_add]
          exact Bool.toNat_le _ }
  | due hpending hcollected =>
    have hone := h.one_timer
    have hfired : c.fired = false := Bool.toNat_eq_zero.mp (by omega)
    exact { h with
      one_timer := by
        show 0 + (!c.is_cancled_).toNat + c.fired.toNat ≤ 1
        rw [hfired, Nat.zero_add]
        exact Bool.toNat_le _
      no_timer := fun hstage => by
        have := (h.no_timer hstage).1
        omega
      timer_cancelled := fun hreplied hfired => by
        have hcancelled := (h.timer_cancelled hreplied hfired).1
        refine ⟨hcancelled, ?_⟩
        show (!c.is_cancled_).toNat = 0
        rw [hcancelled]
        rfl }
  | @fired n hcollected =>
    have hone := h.one_timer
    have hfired : c.fired = false := Bool.toNat_eq_zero.mp (by omega)
    have hreplied : c.replied = false := by
      cases hr : c.replied with
      | false => rfl
      | true =>
        have := (h.timer_cancelled hr hfired).2
        omega
    have hruns : c.closureRuns = 0 := h.runs_none hfired hreplied
    exact { h with
      one_timer := by
        show c.pending + n + 1 ≤ 1
        omega
      no_timer := fun hstage => by
        have := (h.no_timer hstage).2.1
        omega
      timer_cancelled := fun _ hf => nomatch hf
      canceled := rfl
      runs_fired := fun _ => congrArg (· + 1) hruns
      runs_none := fun hf => nomatch hf
      runs_le := by
        show c.closureRuns + 1 ≤ 1
        rw [hruns] }

/-- What keeps a call's closure in step with the call. -/
structure Kept (c : CallLife) : Prop where
  inv : Inv c
  not_failed : c.stage ≠ .failed
  runs_replied : c.replied = true → c.closureRuns = 1

theorem kept_start : Kept start := ⟨inv_start, by decide, fun h => nomatch h⟩

theorem Kept.once (h : Kept c) : Once c := by
  refine ⟨h.inv.runs_le, ?_⟩
  rintro (hfailed | hreplied | hfired)
  · exact absurd hfailed h.not_failed
  · exact h.runs_replied hreplied
  · exact h.inv.runs_fired hfired

theorem Kept.step (h : Kept c) (hclean : Clean c event) (hs : Step c event c') : Kept c' := by
  refine ⟨h.inv.step hs, ?_, ?_⟩
  · cases hs with
    | failed hready => exact hclean.elim
    | started _ | pushed _ => exact CallStage.noConfusion
    | other _ | replied _ _ _ | due _ _ | fired _ => exact h.not_failed
  · intro hreplied
    cases hs with
    | @replied n parsed hwaiting hcollected =>
      show c.closureRuns + (parsed && !c.is_cancle_).toNat = 1
      cases hfired : c.fired with
      | true =>
        rw [h.inv.canceled, hfired, Bool.not_true, Bool.and_false, h.inv.runs_fired hfired]
        rfl
      | false =>
        have hcancle : c.is_cancle_ = false := h.inv.canceled.trans hfired
        rw [hclean hcancle, hcancle, h.inv.closureRuns_eq_zero (by omega) hfired]
        rfl
    | fired hcollected => exact (h.inv.step (.fired hcollected)).runs_fired rfl
    | failed _ | started _ | pushed _ | other _ | due _ _ => exact h.runs_replied hreplied

/-- **A call that meets with anything else is over without a run.** -/
theorem Inv.not_once (h : Inv c) (hclean : ¬ Clean c event) (hs : Step c event c') :
    ¬ Once c' := by
  rintro ⟨-, honce⟩
  cases hs with
  | failed hready =>
    have hruns : c.closureRuns = 1 := honce (.inl rfl)
    have hp : c.stage ≠ .pushed := by rw [hready]; decide
    rw [h.runs_none (h.no_timer (.inl hready)).2.2 (h.not_pushed hp).2] at hruns
    cases hruns
  | replied parsed hwaiting hcollected =>
    rw [Clean, Classical.not_imp] at hclean
    obtain ⟨hcancle, hparsed⟩ := hclean
    have hruns : c.closureRuns + (parsed && !c.is_cancle_).toNat = 1 := honce (.inr (.inl rfl))
    rw [Bool.eq_false_of_not_eq_true hparsed, Bool.false_and,
      h.closureRuns_eq_zero (by omega) (h.canceled.symm.trans hcancle)] at hruns
    cases hruns
  | other _ | started _ | pushed _ | due _ _ | fired _ => exact hclean trivial

end CallLife

/-! ## The calls of a connection -/

/-- The channel of a call that has it to itself. -/
def RpcChannel.own (u : ℕ) : RpcChannel where
  controller_ := some u
  response_ := some u
  closure_ := some u
  timer_event_ := some u
  is_init_ := true

/-- The callbacks that come with a channel may write to the call. -/
def RpcChannel.Points (channel : RpcChannel) (u : ℕ) : Prop :=
  channel.response_ = some u ∨ channel.closure_ = some u ∨ channel.timer_event_ = some u

theorem RpcChannel.is_init_init (channel : RpcChannel) (controller rsp done : Option ℕ) :
    (channel.init controller rsp done).is_init_ = true := by
  rw [init]
  split
  · assumption
  · rfl

theorem RpcChannel.not_points_init {channel : RpcChannel} {u v : ℕ} (h : ¬ channel.Points u)
    (hv : v ≠ u) : ¬ (channel.init (some v) (some v) (some v)).Points u := by
  have hne : some v ≠ some u := fun heq => hv (Option.some.inj heq)
  rw [init]
  split
  · exact h
  · rintro (hr | hc | ht)
    · exact hne hr
    · exact hne hc
    · exact h (.inr (.inr ht))

namespace Calls

variable {Message : Type}

/-- The reply callbacks that have not run: with their requests, or waiting
for their replies. -/
def waiting (s : Calls Message) : List ℕ :=
  s.conn.write_dones_.map Prod.snd ++ s.conn.pending.map Prod.snd

/-- **What a call goes through.** -/
def life (s : Calls Message) (u : ℕ) : CallLife where
  stage := (s.calls u).stage
  waiting := s.waiting.count u
  pending := s.pending_events_.count u
  collected := s.tasks.count u
  is_cancled_ := (s.calls u).is_cancled_
  is_cancle_ := (s.calls u).controller.is_cancle_
  replied := (s.calls u).replied
  fired := (s.calls u).fired
  closureRuns := (s.calls u).closureRuns

@[simp] theorem calls_modify_self (s : Calls Message) (u : ℕ)
    (f : Call Message → Call Message) : (s.modify u f).calls u = f (s.calls u) :=
  Function.update_self ..

theorem calls_modify_of_ne (s : Calls Message) {u x : ℕ} (h : x ≠ u)
    (f : Call Message → Call Message) : (s.modify u f).calls x = s.calls x :=
  Function.update_of_ne h ..

/-- Only objects of some calls are written. -/
structure Writes (X : ℕ → Prop) (s s' : Calls Message) : Prop where
  conn : s'.conn = s.conn
  channels : s'.channels = s.channels
  pending_events_ : s'.pending_events_ = s.pending_events_
  tasks : s'.tasks = s.tasks
  calls : ∀ x, ¬ X x → s'.calls x = s.calls x

namespace Writes

variable {X : ℕ → Prop} {s s' s'' : Calls Message}

theorem refl (X : ℕ → Prop) (s : Calls Message) : Writes X s s :=
  ⟨rfl, rfl, rfl, rfl, fun _ _ => rfl⟩

theorem trans (h : Writes X s s') (h' : Writes X s' s'') : Writes X s s'' :=
  ⟨h'.conn.trans h.conn, h'.channels.trans h.channels,
    h'.pending_events_.trans h.pending_events_, h'.tasks.trans h.tasks,
    fun x hx => (h'.calls x hx).trans (h.calls x hx)⟩

theorem modify (s : Calls Message) {u : ℕ} (hu : X u) (f : Call Message → Call Message) :
    Writes X s (s.modify u f) := by
  refine ⟨rfl, rfl, rfl, rfl, fun x hx => calls_modify_of_ne s ?_ f⟩
  rintro rfl
  exact hx hu

theorem write (s : Calls Message) {target : Option ℕ} (hX : ∀ u, target = some u → X u)
    (f : Call Message → Call Message) : Writes X s (s.write target f) := by
  cases target with
  | none => exact refl X s
  | some u => exact modify s (hX u rfl) f

end Writes

variable (chan : ℕ → ℕ) (parseFromString : Bytes → Bool × Message)

/-- A reply callback writes to its call and to what its channel points
at. -/
theorem writes_replyCallback (s : Calls Message) (v : ℕ) (rsp_msg : TinyPBProtocol) :
    Writes (fun x => x = v ∨ (s.channels (chan v)).Points x) s
      (s.replyCallback chan parseFromString v rsp_msg) := by
  unfold replyCallback
  dsimp only
  generalize s.channels (chan v) = channel
  have hclosure : ∀ u, channel.closure_ = some u → u = v ∨ channel.Points u :=
    fun u hu => .inr (.inr (.inl hu))
  have hreplied := Writes.modify s (X := fun x => x = v ∨ channel.Points x) (.inl rfl)
    (fun c => { c with replied := true })
  have hcancled := hreplied.trans (Writes.write _ (fun u hu => .inr (.inr (.inr hu)))
    (fun c => { c with is_cancled_ := true }))
  have hparsed := hcancled.trans (Writes.write _ (fun u hu => .inr (.inl hu))
    (fun c => { c with response := (parseFromString rsp_msg.pb_data_).2 }))
  split
  · exact hparsed.trans (Writes.modify _ (.inl rfl) _)
  · have herror := hparsed.trans (Writes.modify _ (.inl rfl) (fun c => { c with
      controller := c.controller.SetError rsp_msg.error_code_ (getErrorInfo rsp_msg.error_code_) }))
    split <;> split
    · exact herror
    · exact herror.trans (Writes.write _ hclosure _)
    · exact hparsed
    · exact hparsed.trans (Writes.write _ hclosure _)

theorem writes_timerCallback (s : Calls Message) (v : ℕ) :
    Writes (fun x => x = v ∨ (s.channels (chan v)).Points x) s (s.timerCallback chan v) :=
  (Writes.modify s (.inl rfl) _).trans (Writes.write _ (fun _ hu => .inr (.inr (.inl hu))) _)

variable {chan} {s s' : Calls Message} {u : ℕ}

/-- What a reply does to the controller of its call. -/
def repliedController (parsed : Bool) (error_code : Int32) (controller : RpcController) :
    RpcController :=
  if ¬ parsed then
    controller.SetError ERROR_FAILED_SERIALIZE (Bytes.ofString "deserialize error")
  else if error_code ≠ 0 then controller.SetError error_code (getErrorInfo error_code)
  else controller

@[simp] theorem is_cancle_repliedController (parsed : Bool) (error_code : Int32)
    (controller : RpcController) :
    (repliedController parsed error_code controller).is_cancle_ = controller.is_cancle_ := by
  rw [repliedController]
  split
  · rfl
  · split <;> rfl

/-- **A call that is answered**: what its reply does to its own objects. -/
def answered (rsp_msg : TinyPBProtocol) (c : Call Message) : Call Message :=
  { c with
    controller := repliedController (parseFromString rsp_msg.pb_data_).1 rsp_msg.error_code_
      c.controller
    response := (parseFromString rsp_msg.pb_data_).2
    is_cancled_ := true
    replied := true
    closureRuns := c.closureRuns
      + ((parseFromString rsp_msg.pb_data_).1 && !c.controller.is_cancle_).toNat }

/-- **A call that has timed out**: what its timer does to its own objects. -/
def timedOut (c : Call Message) : Call Message :=
  { c with
    controller := c.controller.StartCancel.SetError ERROR_RPC_CALL_TIMEOUT
      (Bytes.ofString "rpc call timeout " ++ toStringInt c.controller.time_out_)
    fired := true
    closureRuns := c.closureRuns + 1 }

/-- **The reply callback of a call with its own channel.** -/
theorem calls_replyCallback (hch : s.channels (chan u) = .own u) (rsp_msg : TinyPBProtocol) :
    (s.replyCallback chan parseFromString u rsp_msg).calls u
      = answered parseFromString rsp_msg (s.calls u) := by
  unfold replyCallback
  rw [hch]
  simp only [RpcChannel.own, write, runClosure, IsCanceled, SetError, repliedController, answered]
  by_cases hparsed : (parseFromString rsp_msg.pb_data_).1 = true
  · simp only [hparsed, not_true_eq_false, if_false, Bool.true_and]
    by_cases herror : rsp_msg.error_code_ ≠ 0
    · simp only [if_pos herror, calls_modify_self, RpcController.SetError, RpcController.SetFailed]
      cases hcancle : (s.calls u).controller.is_cancle_ <;>
        simp only [Bool.false_eq_true, if_true, if_false, calls_modify_self, hcancle] <;> rfl
    · simp only [if_neg herror, calls_modify_self]
      cases hcancle : (s.calls u).controller.is_cancle_ <;>
        simp only [Bool.false_eq_true, if_true, if_false, calls_modify_self] <;> rfl
  · simp only [hparsed, Bool.false_eq_true, not_false_eq_true, if_true, calls_modify_self,
      Bool.false_and]
    rfl

/-- **The timer callback of a call with its own channel.** -/
theorem calls_timerCallback (hch : s.channels (chan u) = .own u) :
    (s.timerCallback chan u).calls u = timedOut (s.calls u) := by
  unfold timerCallback
  dsimp only
  rw [runClosure, show (s.modify u _).channels (chan u) = .own u from hch]
  simp only [RpcChannel.own, write, calls_modify_self]
  rfl

/-! ### The steps, as events of a call -/

/-- What `CallMethod` leaves behind: a channel, the objects of its call, and
perhaps a timer. -/
structure CallMade (chan : ℕ → ℕ) (s : Calls Message) (v : ℕ) (channel : RpcChannel)
    (c : Call Message) (timers : List ℕ) (s' : Calls Message) : Prop where
  conn : s'.conn = s.conn
  tasks : s'.tasks = s.tasks
  channels : s'.channels = Function.update s.channels (chan v) channel
  calls : s'.calls = Function.update s.calls v c
  pending_events_ : s'.pending_events_ = s.pending_events_ ++ timers

theorem CallMethod_failed (chan : ℕ → ℕ) (s : Calls Message) (v : ℕ) {input : CallInput}
    (h : ¬ (input.connected = true ∧ input.pb_data.isSome = true)) :
    ∃ controller : RpcController,
      controller.is_cancle_ = (s.calls v).controller.is_cancle_ ∧
      CallMade chan s v ((s.channels (chan v)).init (some v) (some v) (some v))
        { s.calls v with controller := controller, stage := .failed } []
        (s.CallMethod chan v input) := by
  unfold CallMethod
  simp only [SetError, modify, Function.update_self, Function.update_idem,
    RpcChannel.is_init_init, not_true_eq_false, if_false]
  split
  · exact ⟨((s.calls v).controller.SetMsgId input.msg_id).SetError ERROR_FAILED_CONNECT
      (getErrorInfo ERROR_FAILED_CONNECT), rfl, rfl, rfl, rfl, rfl, (List.append_nil _).symm⟩
  · rename_i hconnected
    cases hdata : input.pb_data with
    | none =>
      exact ⟨((s.calls v).controller.SetMsgId input.msg_id).SetError ERROR_FAILED_SERIALIZE
        (Bytes.ofString "failed to serialize"), rfl, rfl, rfl, rfl, rfl,
        (List.append_nil _).symm⟩
    | some pb_data => exact absurd ⟨not_not.mp hconnected, by rw [hdata]; rfl⟩ h

theorem CallMethod_started (chan : ℕ → ℕ) (s : Calls Message) (v : ℕ) {input : CallInput}
    (h : input.connected = true ∧ input.pb_data.isSome = true) :
    ∃ request, CallMade chan s v
      { (s.channels (chan v)).init (some v) (some v) (some v) with timer_event_ := some v }
      { s.calls v with
        controller := (s.calls v).controller.SetMsgId input.msg_id
        stage := .timed
        request := request }
      [v] (s.CallMethod chan v input) := by
  obtain ⟨pb_data, hdata⟩ := Option.isSome_iff_exists.mp h.2
  unfold CallMethod
  simp only [modify, Function.update_self, Function.update_idem, h.1, hdata,
    RpcChannel.is_init_init, not_true_eq_false, if_false]
  exact ⟨{ msg_id_ := input.msg_id, method_name_ := input.method_full_name, pb_data_ := pb_data },
    rfl, rfl, rfl, rfl, rfl⟩

/-- Nothing has happened to a call. -/
theorem life_congr (hcalls : s'.calls u = s.calls u)
    (hwaiting : s'.waiting.count u = s.waiting.count u)
    (hpending : s'.pending_events_.count u = s.pending_events_.count u)
    (htasks : s'.tasks.count u = s.tasks.count u) : s'.life u = s.life u := by
  rw [life, life, hcalls, hwaiting, hpending, htasks]

/-- **A call has its channel to itself.** -/
structure Owns (chan : ℕ → ℕ) (s : Calls Message) (u : ℕ) : Prop where
  fresh : (s.calls u).stage = .ready → s.channels (chan u) = {}
  active : (s.calls u).stage = .timed ∨ (s.calls u).stage = .pushed →
    s.channels (chan u) = .own u
  others : ∀ w, w ≠ chan u → ¬ (s.channels w).Points u

/-- What a step must not do to a call: `CallMethod` gets a connection and
the request serialises, and a reply that comes before the timeout has a
payload that parses. -/
def CleanStep (u : ℕ) (s : Calls Message) : CallsStep → Prop
  | .callMethod v input => v = u → input.connected = true ∧ input.pb_data.isSome = true
  | .reply rsp_msg => s.conn.read_dones_.lookup rsp_msg.msg_id_ = some u →
    (s.calls u).controller.is_cancle_ = false → (parseFromString rsp_msg.pb_data_).1 = true
  | _ => True

instance (u : ℕ) (s : Calls Message) : (l : CallsStep) → Decidable (CleanStep parseFromString u s l)
  | .callMethod v input =>
    inferInstanceAs (Decidable (v = u → input.connected = true ∧ input.pb_data.isSome = true))
  | .reply rsp_msg =>
    inferInstanceAs (Decidable (s.conn.read_dones_.lookup rsp_msg.msg_id_ = some u →
      (s.calls u).controller.is_cancle_ = false → (parseFromString rsp_msg.pb_data_).1 = true))
  | .pushSendMessage _ | .sendMessage | .onTime _ | .runTask => isTrue trivial

theorem Owns.of_step {event : CallEvent} (h : Owns chan s u) (hch : s'.channels = s.channels)
    (hevent : event ≠ .started) (hs : CallLife.Step (s.life u) event (s'.life u)) :
    Owns chan s' u := by
  have hstage : (s'.calls u).stage = (s.calls u).stage ∨ (s'.calls u).stage = .failed ∨
      (s.calls u).stage = .timed ∧ (s'.calls u).stage = .pushed := by
    show (s'.life u).stage = (s.life u).stage ∨ (s'.life u).stage = .failed ∨
      (s.life u).stage = .timed ∧ (s'.life u).stage = .pushed
    generalize s'.life u = c' at hs
    cases hs with
    | started => exact absurd rfl hevent
    | failed _ => exact .inr (.inl rfl)
    | pushed htimed => exact .inr (.inr ⟨htimed, rfl⟩)
    | other _ | replied _ _ _ | due _ _ | fired _ => exact .inl rfl
  refine ⟨fun hready => ?_, fun hactive => ?_, fun w hw => hch ▸ h.others w hw⟩
  · rcases hstage with hstage | hstage | ⟨_, hstage⟩
    · exact hch ▸ h.fresh (hstage ▸ hready)
    · rw [hstage] at hready; cases hready
    · rw [hstage] at hready; cases hready
  · rcases hstage with hstage | hstage | ⟨htimed, _⟩
    · exact hch ▸ h.active (hstage ▸ hactive)
    · rw [hstage] at hactive
      rcases hactive with hactive | hactive <;> cases hactive
    · exact hch ▸ h.active (.inl htimed)

theorem CallMade.others {v : ℕ} {channel : RpcChannel} {c : Call Message} {timers : List ℕ}
    (h : CallMade chan s v channel c timers s') (ho : Owns chan s u)
    (hchannel : chan v ≠ chan u → ¬ channel.Points u) :
    ∀ w, w ≠ chan u → ¬ (s'.channels w).Points u := by
  intro w hw
  rw [h.channels]
  by_cases hwv : w = chan v
  · subst hwv
    rw [Function.update_self]
    exact hchannel hw
  · rw [Function.update_of_ne hwv]
    exact ho.others w hw

theorem CallMade.life_self {channel : RpcChannel} {c : Call Message} {timers : List ℕ}
    (h : CallMade chan s u channel c timers s') :
    s'.life u
      = { stage := c.stage
          waiting := (s.life u).waiting
          pending := (s.life u).pending + timers.count u
          collected := (s.life u).collected
          is_cancled_ := c.is_cancled_
          is_cancle_ := c.controller.is_cancle_
          replied := c.replied
          fired := c.fired
          closureRuns := c.closureRuns } := by
  rw [life, h.pending_events_, List.count_append, h.tasks, h.calls, Function.update_self,
    waiting, h.conn]
  rfl

/-- A call is not touched by the making of another. -/
theorem CallMade.life_other {v : ℕ} {channel : RpcChannel} {c : Call Message} {timers : List ℕ}
    (h : CallMade chan s v channel c timers s') (hv : v ≠ u) (htimers : timers.count u = 0) :
    s'.life u = s.life u := by
  refine life_congr ?_ ?_ ?_ ?_
  · rw [h.calls]
    exact Function.update_of_ne hv.symm ..
  · rw [waiting, h.conn]
    rfl
  · rw [h.pending_events_, List.count_append, htimers, Nat.add_zero]
  · rw [h.tasks]

theorem CallMade.owns_other {v : ℕ} {channel : RpcChannel} {c : Call Message} {timers : List ℕ}
    (h : CallMade chan s v channel c timers s') (ho : Owns chan s u) (hv : v ≠ u)
    (hchan : chan v ≠ chan u) (hchannel : ¬ channel.Points u) : Owns chan s' u := by
  have hcalls : s'.calls u = s.calls u := by
    rw [h.calls]
    exact Function.update_of_ne hv.symm ..
  have hchannels : s'.channels (chan u) = s.channels (chan u) := by
    rw [h.channels]
    exact Function.update_of_ne hchan.symm ..
  refine ⟨fun hready => ?_, fun hactive => ?_, h.others ho fun _ => hchannel⟩
  · exact hchannels.trans (ho.fresh (hcalls ▸ hready))
  · exact hchannels.trans (ho.active (hcalls ▸ hactive))

/-- **`CallMethod`, for the call it makes and for the others.** -/
theorem life_callMethod {v : ℕ} {input : CallInput} (hready : (s.calls v).stage = .ready) :
    ∃ event, CallLife.Step (s.life u) event ((s.CallMethod chan v input).life u) ∧
      (CleanStep parseFromString u s (.callMethod v input) ↔ CallLife.Clean (s.life u) event) := by
  by_cases hv : v = u
  · subst hv
    by_cases h : input.connected = true ∧ input.pb_data.isSome = true
    · obtain ⟨request, hmade⟩ := CallMethod_started chan s v h
      refine ⟨.started, (CallLife.Step.started hready).congr ?_, fun _ => trivial, fun _ _ => h⟩
      rw [hmade.life_self, List.count_singleton_self]
      rfl
    · obtain ⟨controller, hcancle, hmade⟩ := CallMethod_failed chan s v h
      refine ⟨.failed, (CallLife.Step.failed hready).congr ?_, fun hclean => h (hclean rfl),
        False.elim⟩
      rw [hmade.life_self, List.count_nil, hcancle]
      rfl
  · refine ⟨.other, (CallLife.Step.other le_rfl).congr ?_, fun _ => trivial,
      fun _ heq => absurd heq hv⟩
    by_cases h : input.connected = true ∧ input.pb_data.isSome = true
    · obtain ⟨request, hmade⟩ := CallMethod_started chan s v h
      refine hmade.life_other hv ?_
      rw [List.count_singleton, beq_eq_false_iff_ne.mpr hv]
      rfl
    · obtain ⟨controller, -, hmade⟩ := CallMethod_failed chan s v h
      exact hmade.life_other hv List.count_nil

theorem owns_callMethod {input : CallInput} (ho : Owns chan s u)
    (hready : (s.calls u).stage = .ready) : Owns chan (s.CallMethod chan u input) u := by
  by_cases h : input.connected = true ∧ input.pb_data.isSome = true
  · obtain ⟨request, hmade⟩ := CallMethod_started chan s u h
    refine ⟨fun hr => ?_, fun _ => ?_, hmade.others ho fun hne => absurd rfl hne⟩
    · rw [hmade.calls, Function.update_self] at hr
      cases hr
    · rw [hmade.channels, Function.update_self, ho.fresh hready]
      rfl
  · obtain ⟨controller, -, hmade⟩ := CallMethod_failed chan s u h
    refine ⟨fun hr => ?_, fun ha => ?_, hmade.others ho fun hne => absurd rfl hne⟩
    · rw [hmade.calls, Function.update_self] at hr
      cases hr
    · rw [hmade.calls, Function.update_self] at ha
      rcases ha with ha | ha <;> cases ha

/-- `CallMethod` of another call. -/
theorem owns_callMethod_other {v : ℕ} (input : CallInput) (ho : Owns chan s u) (hv : v ≠ u)
    (hchan : chan v ≠ chan u) : Owns chan (s.CallMethod chan v input) u := by
  have hpoints := RpcChannel.not_points_init (ho.others _ hchan) hv
  by_cases h : input.connected = true ∧ input.pb_data.isSome = true
  · obtain ⟨request, hmade⟩ := CallMethod_started chan s v h
    refine hmade.owns_other ho hv hchan ?_
    rintro (hr | hc | ht)
    · exact hpoints (.inl hr)
    · exact hpoints (.inr (.inl hc))
    · exact hv (Option.some.inj ht)
  · obtain ⟨controller, -, hmade⟩ := CallMethod_failed chan s v h
    exact hmade.owns_other ho hv hchan hpoints

/-- **A request is queued.** -/
theorem life_pushSendMessage {v : ℕ} (htimed : (s.calls v).stage = .timed)
    (hs : s' = { s.modify v (fun c => { c with stage := .pushed }) with
      conn := s.conn.pushSendMessage (s.calls v).request v }) :
    ∃ event, event ≠ .started ∧ CallLife.Step (s.life u) event (s'.life u) ∧
      CallLife.Clean (s.life u) event := by
  subst hs
  have hwaiting : (s.conn.pushSendMessage (s.calls v).request v).write_dones_.map Prod.snd
      = s.conn.write_dones_.map Prod.snd ++ [v] := by
    rw [Connection.pushSendMessage, List.map_append]
    rfl
  by_cases hv : v = u
  · subst hv
    refine ⟨.pushed, CallEvent.noConfusion, (CallLife.Step.pushed htimed).congr ?_, trivial⟩
    simp only [life, waiting, calls_modify_self, hwaiting, List.count_append,
      List.count_singleton_self, Nat.add_right_comm]
    rfl
  · refine ⟨.other, CallEvent.noConfusion, (CallLife.Step.other le_rfl).congr ?_, trivial⟩
    refine life_congr (calls_modify_of_ne s (Ne.symm hv)
      (fun c => { c with stage := .pushed })) ?_ rfl rfl
    simp only [waiting, hwaiting, List.count_append, List.count_singleton,
      beq_eq_false_iff_ne.mpr hv]
    rfl

/-- **The requests are taken.** -/
theorem life_takeWriteDones (hs : s' = { s with conn := s.conn.takeWriteDones }) :
    CallLife.Step (s.life u) .other (s'.life u) := by
  subst hs
  have hle : (Calls.waiting { s with conn := s.conn.takeWriteDones }).count u
      ≤ s.waiting.count u := by
    rw [waiting, waiting, List.count_append, List.count_append]
    show 0 + _ ≤ _
    rw [Nat.zero_add]
    exact s.conn.count_pending_foldl s.conn.write_dones_ u
  exact .other hle

theorem waiting_replyCallback (chan : ℕ → ℕ) (v : ℕ) (rsp_msg : TinyPBProtocol)
    (hlookup : s.conn.read_dones_.lookup rsp_msg.msg_id_ = some v) :
    s.waiting.count u
      = (Calls.waiting { s.replyCallback chan parseFromString v rsp_msg with
          conn := s.conn.popReadMessage rsp_msg.msg_id_ }).count u + if v = u then 1 else 0 := by
  have hpending := ((Connection.pending_popReadMessage s.conn hlookup).map Prod.snd).count_eq u
  rw [List.map_cons, List.count_cons] at hpending
  rw [waiting, waiting, List.count_append, List.count_append, hpending, ← Nat.add_assoc]
  simp only [beq_iff_eq]
  rfl

/-- **The reply callback of a call**, when it writes to its own call. -/
theorem life_replyCallback {v : ℕ} {rsp_msg : TinyPBProtocol} (htasks : s.tasks = [])
    (hlookup : s.conn.read_dones_.lookup rsp_msg.msg_id_ = some v)
    (hcalls : (s.replyCallback chan parseFromString v rsp_msg).calls u
      = if u = v then answered parseFromString rsp_msg (s.calls u) else s.calls u)
    (hs : s' = { s.replyCallback chan parseFromString v rsp_msg with
      conn := s.conn.popReadMessage rsp_msg.msg_id_ }) :
    ∃ event, event ≠ .started ∧ CallLife.Step (s.life u) event (s'.life u) ∧
      (CleanStep parseFromString u s (.reply rsp_msg) ↔ CallLife.Clean (s.life u) event) := by
  subst hs
  have hwrites := writes_replyCallback chan parseFromString s v rsp_msg
  have hwaiting := waiting_replyCallback parseFromString (u := u) chan v rsp_msg hlookup
  by_cases hv : v = u
  · subst hv
    rw [if_pos rfl] at hwaiting hcalls
    refine ⟨.replied (parseFromString rsp_msg.pb_data_).1, CallEvent.noConfusion,
      (CallLife.Step.replied _ hwaiting ?_).congr ?_, fun h => h hlookup, fun h _ => h⟩
    · show s.tasks.count v = 0
      rw [htasks]
      rfl
    · simp only [life, hcalls, answered, is_cancle_repliedController, hwrites.pending_events_,
        hwrites.tasks]
  · rw [if_neg (Ne.symm hv)] at hcalls
    rw [if_neg hv, Nat.add_zero] at hwaiting
    refine ⟨.other, CallEvent.noConfusion, (CallLife.Step.other le_rfl).congr ?_,
      fun _ => trivial, fun _ h => ?_⟩
    · exact life_congr hcalls hwaiting.symm (by rw [hwrites.pending_events_])
        (by rw [hwrites.tasks])
    · rw [hlookup] at h
      exact absurd (Option.some.inj h) hv

/-- **`parseMsg` meets a message.** -/
theorem life_reply (hown : ∀ v, chan v = chan u → v = u) (ho : Owns chan s u)
    (hi : (s.life u).Inv) {rsp_msg : TinyPBProtocol}
    (hs : step chan parseFromString s (.reply rsp_msg) = some s') :
    s'.channels = s.channels ∧
      ∃ event, event ≠ .started ∧ CallLife.Step (s.life u) event (s'.life u) ∧
        (CleanStep parseFromString u s (.reply rsp_msg) ↔ CallLife.Clean (s.life u) event) := by
  obtain ⟨htasks, ⟨hlookup, rfl⟩ | ⟨v, hlookup, rfl⟩⟩ := step_reply hs
  · refine ⟨rfl, .other, CallEvent.noConfusion, .other le_rfl, fun _ => trivial, fun _ h => ?_⟩
    rw [hlookup] at h
    cases h
  · have hwrites := writes_replyCallback chan parseFromString s v rsp_msg
    refine ⟨hwrites.channels, life_replyCallback parseFromString htasks hlookup ?_ rfl⟩
    by_cases hv : u = v
    · subst hv
      have hwaiting := waiting_replyCallback parseFromString (u := u) chan u rsp_msg hlookup
      rw [if_pos rfl] at hwaiting
      have hpushed : (s.calls u).stage = .pushed := by
        by_contra hp
        have := (hi.not_pushed hp).1
        have : s.waiting.count u = 0 := this
        omega
      rw [if_pos rfl]
      exact calls_replyCallback parseFromString (ho.active (.inr hpushed)) rsp_msg
    · rw [if_neg hv]
      refine hwrites.calls u ?_
      rintro (huv | hpoints)
      · exact hv huv
      · exact ho.others _ (fun heq => hv (hown v heq).symm) hpoints

/-- **The timers that are due are looked at.** -/
theorem life_onTime {due : List ℕ} (htasks : s.tasks = []) (hnodup : due.Nodup)
    (hdue : ∀ v ∈ due, v ∈ s.pending_events_)
    (hs : s' = { s with
      tasks := due.filter (fun v => !(s.calls v).is_cancled_)
      pending_events_ := s.pending_events_.filter (fun v => v ∉ due) }) :
    ∃ event, event ≠ .started ∧ CallLife.Step (s.life u) event (s'.life u) ∧
      CallLife.Clean (s.life u) event := by
  subst hs
  have hcollected : (s.life u).collected = 0 := by
    show s.tasks.count u = 0
    rw [htasks]
    rfl
  by_cases hu : u ∈ due
  · refine ⟨.due, CallEvent.noConfusion, (CallLife.Step.due ?_ hcollected).congr ?_, trivial⟩
    · exact List.count_pos_iff.mpr (hdue u hu)
    · have hpending : (s.pending_events_.filter (fun v => v ∉ due)).count u = 0 :=
        List.count_eq_zero.mpr fun hmem => by simp [hu] at hmem
      have hcount : (due.filter (fun v => !(s.calls v).is_cancled_)).count u
          = (!(s.calls u).is_cancled_).toNat := by
        cases hcancled : (s.calls u).is_cancled_ with
        | false =>
          rw [List.count_filter (by simp [hcancled]), List.count_eq_one_of_mem hnodup hu]
          rfl
        | true => exact List.count_eq_zero.mpr fun hmem => by simp [hcancled] at hmem
      simp only [life, hpending, hcount]
      rfl
  · refine ⟨.other, CallEvent.noConfusion, (CallLife.Step.other le_rfl).congr ?_, trivial⟩
    refine life_congr rfl rfl (List.count_filter (by simp [hu])) ?_
    rw [htasks]
    exact List.count_eq_zero.mpr fun hmem => hu (List.mem_filter.mp hmem).1

/-- **The timer callback of a call**, when it writes to its own call. -/
theorem life_task {v : ℕ} {tasks : List ℕ} (htasks : s.tasks = v :: tasks)
    (hcalls : ({ s with tasks := tasks }.timerCallback chan v).calls u
      = if u = v then timedOut (s.calls u) else s.calls u)
    (hs : s' = { s with tasks := tasks }.timerCallback chan v) :
    ∃ event, event ≠ .started ∧ CallLife.Step (s.life u) event (s'.life u) ∧
      CallLife.Clean (s.life u) event := by
  subst hs
  have hwrites := writes_timerCallback chan { s with tasks := tasks } v
  by_cases hv : v = u
  · subst hv
    rw [if_pos rfl] at hcalls
    have hcollected : (s.life v).collected = tasks.count v + 1 := by
      show s.tasks.count v = _
      rw [htasks, List.count_cons_self]
    refine ⟨.fired, CallEvent.noConfusion, (CallLife.Step.fired hcollected).congr ?_, trivial⟩
    rw [life, waiting, hcalls, hwrites.conn, hwrites.pending_events_, hwrites.tasks]
    rfl
  · rw [if_neg (Ne.symm hv)] at hcalls
    refine ⟨.other, CallEvent.noConfusion, (CallLife.Step.other le_rfl).congr ?_, trivial⟩
    refine life_congr hcalls ?_ ?_ ?_
    · rw [waiting, hwrites.conn]
      rfl
    · rw [hwrites.pending_events_]
    · rw [hwrites.tasks, htasks, List.count_cons_of_ne hv]

/-- **A timer fires.** -/
theorem life_timerCallback (hown : ∀ v, chan v = chan u → v = u) (ho : Owns chan s u)
    (hi : (s.life u).Inv) {v : ℕ} {tasks : List ℕ} (htasks : s.tasks = v :: tasks)
    (hs : s' = { s with tasks := tasks }.timerCallback chan v) :
    s'.channels = s.channels ∧
      ∃ event, event ≠ .started ∧ CallLife.Step (s.life u) event (s'.life u) ∧
        CallLife.Clean (s.life u) event := by
  have hwrites := writes_timerCallback chan { s with tasks := tasks } v
  refine ⟨hs ▸ hwrites.channels, life_task htasks ?_ hs⟩
  by_cases hv : u = v
  · subst hv
    have hcollected : (s.life u).collected = tasks.count u + 1 := by
      show s.tasks.count u = _
      rw [htasks, List.count_cons_self]
    have hactive : (s.calls u).stage = .timed ∨ (s.calls u).stage = .pushed := by
      cases hstage : (s.calls u).stage with
      | timed => exact .inl rfl
      | pushed => exact .inr rfl
      | ready => rw [(hi.no_timer (.inl hstage)).2.1] at hcollected; cases hcollected
      | failed => rw [(hi.no_timer (.inr hstage)).2.1] at hcollected; cases hcollected
    rw [if_pos rfl]
    exact calls_timerCallback (s := { s with tasks := tasks }) (ho.active hactive)
  · rw [if_neg hv]
    refine hwrites.calls u ?_
    rintro (huv | hpoints)
    · exact hv huv
    · exact ho.others _ (fun heq => hv (hown v heq).symm) hpoints

/-- **Every step is one of the call's own life**, and meets the condition
when it does there. -/
theorem step_life (hown : ∀ v, chan v = chan u → v = u) (ho : Owns chan s u)
    (hi : (s.life u).Inv) {l : CallsStep} (hs : step chan parseFromString s l = some s') :
    Owns chan s' u ∧ ∃ event, CallLife.Step (s.life u) event (s'.life u) ∧
      (CleanStep parseFromString u s l ↔ CallLife.Clean (s.life u) event) := by
  cases l with
  | callMethod v input =>
    rw [step] at hs
    split at hs
    · rename_i hready
      obtain rfl := Option.some.inj hs
      refine ⟨?_, life_callMethod parseFromString hready⟩
      by_cases hv : v = u
      · subst hv
        exact owns_callMethod ho hready
      · exact owns_callMethod_other input ho hv (fun heq => hv (hown v heq))
    · cases hs
  | pushSendMessage v =>
    rw [step] at hs
    split at hs
    · rename_i htimed
      obtain rfl := Option.some.inj hs
      obtain ⟨event, hne, hstep, hclean⟩ := life_pushSendMessage (u := u) htimed rfl
      exact ⟨ho.of_step rfl hne hstep, event, hstep, fun _ => hclean, fun _ => trivial⟩
    · cases hs
  | sendMessage =>
    rw [step] at hs
    split at hs
    · obtain rfl := Option.some.inj hs
      have hstep := life_takeWriteDones (s := s) (u := u) rfl
      exact ⟨ho.of_step rfl CallEvent.noConfusion hstep, .other, hstep, fun _ => trivial,
        fun _ => trivial⟩
    · cases hs
  | reply rsp_msg =>
    obtain ⟨hch, event, hne, hstep, hclean⟩ := life_reply parseFromString hown ho hi hs
    exact ⟨ho.of_step hch hne hstep, event, hstep, hclean⟩
  | onTime due =>
    rw [step] at hs
    split at hs
    · rename_i hdue
      obtain rfl := Option.some.inj hs
      obtain ⟨event, hne, hstep, hclean⟩ := life_onTime (u := u) hdue.1 hdue.2.1 hdue.2.2 rfl
      exact ⟨ho.of_step rfl hne hstep, event, hstep, fun _ => hclean, fun _ => trivial⟩
    · cases hs
  | runTask =>
    rw [step] at hs
    split at hs
    · cases hs
    · rename_i v tasks htasks
      obtain ⟨hch, event, hne, hstep, hclean⟩ :=
        life_timerCallback hown ho hi htasks (Option.some.inj hs).symm
      exact ⟨ho.of_step hch hne hstep, event, hstep, fun _ => hclean, fun _ => trivial⟩

/-! ### Every run -/

theorem owns_init (timeout : ℕ → ℤ) (response : Message) :
    Owns chan (init timeout response) u := by
  refine ⟨fun _ => rfl, fun h => ?_, fun w _ h => ?_⟩
  · rcases h with h | h <;> cases h
  · rcases h with h | h | h <;> cases h

/-- **A call is always in order.** -/
theorem inv_life {ok : Calls Message → CallsStep → Prop} {timeout : ℕ → ℤ} {response : Message}
    (hown : ∀ v, chan v = chan u → v = u)
    (hrun : Runs (step chan parseFromString) ok (init timeout response) s) :
    Owns chan s u ∧ (s.life u).Inv := by
  refine hrun.invariant (I := fun s => Owns chan s u ∧ (s.life u).Inv)
    (fun s l s' h _ hs => ?_) ⟨owns_init timeout response, CallLife.inv_start⟩
  obtain ⟨ho, event, hstep, -⟩ := step_life parseFromString hown h.1 h.2 hs
  exact ⟨ho, h.2.step hstep⟩

/-- **The closure is never run twice.** -/
theorem closureRuns_le {ok : Calls Message → CallsStep → Prop} {timeout : ℕ → ℤ}
    {response : Message} (hown : ∀ v, chan v = chan u → v = u)
    (hrun : Runs (step chan parseFromString) ok (init timeout response) s) :
    (s.calls u).closureRuns ≤ 1 :=
  (inv_life parseFromString hown hrun).2.runs_le

/-- **A call that meets with anything else is over without a run.** -/
theorem not_once_of_unclean {ok : Calls Message → CallsStep → Prop} {timeout : ℕ → ℤ}
    {response : Message} (hown : ∀ v, chan v = chan u → v = u)
    (hrun : Runs (step chan parseFromString) ok (init timeout response) s) {l : CallsStep}
    (hclean : ¬ CleanStep parseFromString u s l)
    (hs : step chan parseFromString s l = some s') : ¬ (s'.life u).Once := by
  obtain ⟨ho, hi⟩ := inv_life parseFromString hown hrun
  obtain ⟨-, event, hstep, hiff⟩ := step_life parseFromString hown ho hi hs
  exact hi.not_once (fun h => hclean (hiff.mpr h)) hstep

/-- **The closure of a call is run exactly once**, when the call meets with
none of the three. -/
theorem closure_once {timeout : ℕ → ℤ} {response : Message}
    (hown : ∀ v, chan v = chan u → v = u)
    (hrun : Runs (step chan parseFromString) (CleanStep parseFromString u)
      (init timeout response) s) : (s.life u).Once := by
  refine CallLife.Kept.once (hrun.invariant
    (I := fun s => Owns chan s u ∧ (s.life u).Kept)
    (fun s l s' h hclean hs => ?_) ⟨owns_init timeout response, CallLife.kept_start⟩).2
  obtain ⟨ho, event, hstep, hiff⟩ := step_life parseFromString hown h.1 h.2.inv hs
  exact ⟨ho, h.2.step (hiff.mp hclean) hstep⟩

/-- A message type whose texts all parse but the one that is `bad`. -/
def parseText (pb_data : Bytes) : Bool × Bytes := (pb_data ≠ Bytes.ofString "bad", pb_data)

/-- The call of `OrderService.make`. -/
def makeOrder (connected : Bool) (pb_data : Option Bytes) : CallsStep :=
  .callMethod 0
    { msg_id := Bytes.ofString "1"
      method_full_name := Bytes.ofString "OrderService.make"
      connected := connected
      pb_data := pb_data }

/-- The call with its request sent. -/
def makeOrderSent : List CallsStep :=
  [makeOrder true (some []), .pushSendMessage 0, .sendMessage]

/-- A call that is answered after its timeout. -/
theorem closure_once_lateReply :
    ∃ s : Calls Bytes, (s.life 0).Once ∧ (s.calls 0).fired = true ∧
      (s.calls 0).replied = true ∧ (s.calls 0).closureRuns = 1 := by
  obtain ⟨s, hruns, h⟩ : ∃ s, Runs (restrict (step id parseText) (CleanStep parseText 0)) anyStep
      (init (fun _ => 1000) []) s ∧
      decide ((s.calls 0).fired = true ∧ (s.calls 0).replied = true ∧
        (s.calls 0).closureRuns = 1) = true :=
    exists_of_execute
      (makeOrderSent ++ [.onTime [0], .runTask, .reply { msg_id_ := Bytes.ofString "1" }])
      (by decide +kernel)
  exact ⟨s, closure_once parseText (fun _ => id) (runs_of_restrict hruns), of_decide_eq_true h⟩

/-- The steps end with the call over and its closure not run. -/
def EndsUnrun (ls : List CallsStep) : Prop :=
  ∃ s : Calls Bytes, execute (step id parseText) (init (fun _ => 1000) []) ls = some s ∧
    (s.life 0).Over ∧ (s.calls 0).closureRuns = 0 ∧ ¬ (s.life 0).Once

theorem endsUnrun_of_execute {ls : List CallsStep}
    (h : (execute (step id parseText) (init (fun _ => 1000) []) ls).any (fun s : Calls Bytes =>
      decide ((s.life 0).Over ∧ (s.calls 0).closureRuns = 0 ∧ ¬ (s.life 0).Once)) = true) :
    EndsUnrun ls := by
  obtain ⟨s, hs, h⟩ := (Option.any_eq_true _ _).mp h
  exact ⟨s, hs, of_decide_eq_true h⟩

/-- A connection that fails, a request that does not serialise, and a reply
that does not parse. -/
theorem not_closure_once :
    EndsUnrun [makeOrder false (some [])] ∧ EndsUnrun [makeOrder true none] ∧
      EndsUnrun (makeOrderSent ++
        [.reply { msg_id_ := Bytes.ofString "1", pb_data_ := Bytes.ofString "bad" },
          .onTime [0]]) := by
  refine ⟨?_, ?_, ?_⟩
  · exact endsUnrun_of_execute (by decide +kernel)
  · exact endsUnrun_of_execute (by decide +kernel)
  · exact endsUnrun_of_execute (by decide +kernel)

end Calls

end PbRpc
