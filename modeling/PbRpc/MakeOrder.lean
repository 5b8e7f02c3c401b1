import PbRpc.CallLife
import PbRpc.CallTimeout
import PbRpc.OrderService
import PbRpc.SharedQueue

/-!
# `makeOrder`, as its caller sees it

The client's `makeOrder` is given a price, the name of some goods and a function
`fn`. It makes a channel, a controller and a closure of its own, and calls the
method of the stub. When the closure runs, `fn` is called with the response if
the controller has no error.

Here a client with any number of such calls is put together from its parts: the
objects of the calls and their timers (`Calls`), and the connection with the
server at its other end (`ConnectionPair`). The thread of the loop runs the reply
callbacks and the timers, so that it does neither while it is in the other or in
`sendMessage`. Others may use the connection as well, for heartbeats or for
calls of other methods.

A call's `fn` is called once, with the response that `OrderImpl` makes for its
price, if the reply is there before the timeout and the name of the goods is
UTF-8; otherwise it is never called (`Orders.callsFn`).
-/

namespace PbRpc

open Transition TinyPBProtocol
open SharedQueue (itemsOf)

/-- **The calls of `makeOrder`**: what each of them is given, and how the two
programs are built. -/
structure Orders where
  rt : ProtobufRuntime
  set : Setting
  price : ℕ → Int32
  goods : ℕ → Bytes
  timeout_ : ℕ → ℤ
  /-- What is left of a response when its text does not parse. -/
  unparsed : Bytes → MakeOrderResponse

/-- **A client with its calls**, and the server. The connection of `calls` by
itself is not used. -/
structure OrderClient where
  pair : ConnectionPair (Option ℕ) := {}
  calls : Calls MakeOrderResponse
  /-- The calls of `fn`: for which call, and with what. -/
  fns : List (ℕ × MakeOrderResponse) := []

/-- **The steps**: those of the callers, of the loop of the client, and of
everything at the other end. -/
inductive OrderStep where
  /-- `makeOrder`, until the timer is set. -/
  | makeOrder (u : ℕ) (msg_id : Bytes) (connected : Bool)
  | pushSendMessage (u : ℕ)
  | pair (l : PairStep (Option ℕ) OrderMessage)
  | onTime (due : List ℕ)
  | runTask

/-- **The closure of `makeOrder`**: whether it calls `fn`, and with what. -/
def makeOrderClosure (c : Call MakeOrderResponse) : Option MakeOrderResponse :=
  if c.controller.error_code_ = 0 then some c.response else none

/-- What `fn` is called with while a call gets from one state to another. The
closure runs as the last thing, if it does. -/
def fnCalls (c c' : Call MakeOrderResponse) : List MakeOrderResponse :=
  if c'.closureRuns = c.closureRuns then [] else (makeOrderClosure c').toList

namespace OrderClient

/-- A callback of a call has run. -/
def finish (s : OrderClient) (u : ℕ) (calls : Calls MakeOrderResponse) : OrderClient :=
  { s with
    calls := calls
    fns := s.fns ++ (fnCalls (s.calls.calls u) (calls.calls u)).map (u, ·) }

/-- The pushes of the calls are steps of their own, and the loop does nothing
else while timer callbacks are left to run. -/
def mayStep (s : OrderClient) : PairStep (Option ℕ) OrderMessage → Bool
  | .push _ (some _) => false
  | .client _ | .clientRead _ | .clientParse => s.calls.tasks.isEmpty
  | _ => true

end OrderClient

namespace Orders

def request (o : Orders) (u : ℕ) : MakeOrderRequest := { price_ := o.price u, goods_ := o.goods u }

/-- `response_->ParseFromString`. -/
def parseFromString (o : Orders) (bs : Bytes) : Bool × MakeOrderResponse :=
  match MakeOrderResponse.schema.ParseFromString o.rt bs with
  | some response => (true, response)
  | none => (false, o.unparsed bs)

def init (o : Orders) : OrderClient := { calls := Calls.init o.timeout_ {} }

/-- A reply callback. That of another's message does not concern the calls. -/
def callback (o : Orders) (s : OrderClient) (i : Invocation (Option ℕ)) : OrderClient :=
  match i.done with
  | none => s
  | some u => s.finish u (s.calls.replyCallback id o.parseFromString u i.message)

/-- **One step.** A step of the pair may run reply callbacks. -/
def step (o : Orders) (s : OrderClient) : OrderStep → Option OrderClient
  | .makeOrder u msg_id connected =>
    if (s.calls.calls u).stage = .ready then
      some { s with
        calls := s.calls.CallMethod id u
          { msg_id := msg_id
            method_full_name := methodName
            connected := connected
            pb_data := MakeOrderRequest.schema.SerializeToString o.rt (o.request u) } }
    else none
  | .pushSendMessage u =>
    if (s.calls.calls u).stage = .timed then
      some { s with
        calls := s.calls.modify u (fun c => { c with stage := .pushed })
        pair := { s.pair with
          client := s.pair.client.push (s.calls.calls u).request (some u) } }
    else none
  | .pair l =>
    if s.mayStep l then
      (s.pair.step o.set l).map (fun pair =>
        (pair.client.invoked.drop s.pair.client.invoked.length).foldl o.callback
          { s with pair := pair })
    else none
  | .onTime due =>
    if s.pair.client.phase = .idle then
      (s.calls.step id o.parseFromString (.onTime due)).map (fun calls => { s with calls := calls })
    else none
  | .runTask =>
    match s.calls.tasks with
    | [] => none
    | u :: _ => (s.calls.step id o.parseFromString .runTask).map (s.finish u)

/-- The dispatchers that a step meets have the service. -/
def Meets (o : Orders) (s : OrderClient) : OrderStep → Prop
  | .pair l => ConnectionPair.Meets (ServesOrder o.rt) s.pair l
  | _ => True

end Orders

/-! ## The callbacks that wait on a connection -/

namespace ConnectionPair

variable {K Message : Type} {set : Setting} {p p' : ConnectionPair K}

/-- The reply callbacks of the client that have not run. -/
def waiting (p : ConnectionPair K) : List K :=
  p.client.conn.write_dones_.map Prod.snd ++ p.client.conn.pending.map Prod.snd

variable [DecidableEq K]

/-- How many of them are of one kind. -/
def waits (p : ConnectionPair K) (done : K) : ℕ := p.waiting.count done

/-- How many callbacks of one kind have run. -/
def timesRun (ran : List (Invocation K)) (done : K) : ℕ := (ran.map Invocation.done).count done

theorem timesRun_cons (i : Invocation K) (ran : List (Invocation K)) (done : K) :
    timesRun (i :: ran) done = timesRun ran done + if i.done = done then 1 else 0 := by
  rw [timesRun, List.map_cons, List.count_cons]
  simp only [beq_iff_eq]
  rfl

/-- What another thread pushes waits. -/
theorem waits_push (p : ConnectionPair K) (message : TinyPBProtocol) (done done' : K) :
    ({ p with client := p.client.push message done } : ConnectionPair K).waits done'
      = p.waits done' + if done = done' then 1 else 0 := by
  have hone : [done].count done' = if done = done' then 1 else 0 := by
    rw [List.count_singleton]
    simp only [beq_iff_eq]
  show ((p.client.conn.write_dones_ ++ [(message, done)]).map Prod.snd ++ _).count done' = _
  rw [List.map_append, waits, ConnectionPair.waiting, List.count_append, List.count_append,
    List.count_append, Nat.add_right_comm, ← hone]
  rfl

/-- **What a step does with the callbacks that wait**: it runs some of them. -/
structure CallsBack (p p' : ConnectionPair K) (ran : List (Invocation K)) : Prop where
  invoked : p'.client.invoked = p.client.invoked ++ ran
  pushed : p'.client.pushed = p.client.pushed
  waits : ∀ done, p'.waits done + timesRun ran done ≤ p.waits done

/-- It runs none, and all still wait. -/
theorem CallsBack.none (hwrite : p'.client.conn.write_dones_ = p.client.conn.write_dones_)
    (hread : p'.client.conn.read_dones_ = p.client.conn.read_dones_)
    (hpushed : p'.client.pushed = p.client.pushed)
    (hinvoked : p'.client.invoked = p.client.invoked) : CallsBack p p' [] := by
  refine ⟨by rw [hinvoked, List.append_nil], hpushed, fun done => le_of_eq ?_⟩
  rw [ConnectionPair.waits, ConnectionPair.waits, ConnectionPair.waiting, ConnectionPair.waiting,
    Connection.pending, Connection.pending, hwrite, hread]
  rfl

theorem CallsBack.frame {e : Endpoint K} (hf : Endpoint.Frame p.client e) :
    CallsBack p { p with client := e } [] :=
  .none hf.write_dones_ hf.read_dones_ hf.pushed hf.invoked

/-- The callbacks of the requests that are taken wait in the other table. -/
theorem CallsBack.take {e : Endpoint K} (ht : Endpoint.Take p.client e) :
    CallsBack p { p with client := e } [] := by
  obtain rfl := ht.eq
  refine ⟨(List.append_nil _).symm, rfl, fun done => ?_⟩
  show (([] : List K) ++ (p.client.conn.takeWriteDones.pending.map Prod.snd)).count done + 0 ≤ _
  rw [List.nil_append, Nat.add_zero, ConnectionPair.waits, ConnectionPair.waiting,
    List.count_append]
  exact p.client.conn.count_pending_foldl p.client.conn.write_dones_ done

/-- The client parses. -/
theorem CallsBack.replies {result : List TinyPBProtocol} {conn : Connection K}
    (hd : p.client.conn.decodeInput set.ov = .ok (result, conn)) :
    CallsBack p
      { p with client := { p.client with
        conn := (conn.handleReplies result).1
        invoked := p.client.invoked ++ (conn.handleReplies result).2 } }
      (conn.handleReplies result).2 := by
  obtain ⟨b, -, rfl⟩ := Connection.decodeInput_eq_ok hd
  obtain ⟨read, hread, hperm, -⟩ :=
    Connection.handleReplies_spec { p.client.conn with inputbuffer_ := b } result
  refine ⟨rfl, rfl, fun done => le_of_eq ?_⟩
  have hpending := (hperm.map Prod.snd).count_eq done
  rw [List.map_append, List.map_map, List.count_append] at hpending
  show ((Connection.handleReplies _ result).1.write_dones_.map Prod.snd
    ++ (Connection.handleReplies _ result).1.pending.map Prod.snd).count done + _ = _
  rw [ConnectionPair.waits, ConnectionPair.waiting, List.count_append, List.count_append,
    Nat.add_assoc, hread]
  rw [hread] at hpending
  exact congrArg _ hpending.symm

/-- **A step that pushes nothing** runs callbacks, if it parses. -/
theorem step_callsBack {l : PairStep K Message} (hl : ∀ message done, l ≠ .push message done)
    (hs : p.step set l = some p') :
    ∃ ran, CallsBack p p' ran ∧ (l = .clientParse ∨ ran = []) := by
  cases l with
  | push message done => exact absurd rfl (hl message done)
  | enable =>
    obtain ⟨e, he, rfl⟩ := Option.map_eq_some_iff.mp hs
    exact ⟨[], .frame (Endpoint.flow_enable he).1.frame, .inr rfl⟩
  | client step =>
    obtain ⟨e, he, rfl⟩ := Option.map_eq_some_iff.mp hs
    rcases Endpoint.io_cases he with ht | ⟨_, -, hf⟩
    · exact ⟨[], .take ht, .inr rfl⟩
    · exact ⟨[], .frame hf.frame, .inr rfl⟩
  | server step =>
    obtain ⟨e, -, rfl⟩ := Option.map_eq_some_iff.mp hs
    exact ⟨[], .none rfl rfl rfl rfl, .inr rfl⟩
  | clientRead n =>
    obtain ⟨ends, he, rfl⟩ := Option.map_eq_some_iff.mp hs
    obtain ⟨hclient, -⟩ := Endpoint.onMessage_eq_some he
    refine ⟨[], .none ?_ ?_ ?_ ?_, .inr rfl⟩
    all_goals rw [hclient]
  | serverRead n =>
    obtain ⟨ends, he, rfl⟩ := Option.map_eq_some_iff.mp hs
    obtain ⟨-, hclient⟩ := Endpoint.onMessage_eq_some he
    refine ⟨[], .none ?_ ?_ ?_ ?_, .inr rfl⟩
    all_goals rw [hclient]
  | clientParse =>
    obtain ⟨-, result, conn, hd, rfl⟩ := clientParse_cases hs
    exact ⟨_, .replies hd, .inl rfl⟩
  | serverParse services =>
    obtain ⟨-, request_pkgs, conn, -, rfl⟩ := serverParse_cases hs
    refine ⟨[], .none ?_ ?_ ?_ ?_, .inr rfl⟩
    all_goals rw [client_HandleMessage]
  | finish i services =>
    obtain ⟨request_pkgs, -, rfl⟩ := finish_cases hs
    rw [queueInLoop]
    split
    · exact ⟨[], .none rfl rfl rfl rfl, .inr rfl⟩
    · exact ⟨[], .none rfl rfl rfl rfl, .inr rfl⟩
  | regSend =>
    obtain ⟨-, respond_pkgs, taskqueue_, -, rfl⟩ := regSend_cases hs
    exact ⟨[], .none rfl rfl rfl rfl, .inr rfl⟩

end ConnectionPair

/-! ## What becomes of a call -/

namespace CallLife

variable {c c' : CallLife} {event : CallEvent}

/-- What happens to the rest of a call does not depend on the callbacks that
wait. -/
theorem Step.withWaiting (h : Step c event c') (hwaiting : c'.waiting = c.waiting) (n : ℕ) :
    ∃ event, Step { c with waiting := n } event { c' with waiting := n } := by
  cases h with
  | other _ => exact ⟨.other, .other le_rfl⟩
  | failed hready => exact ⟨.failed, .failed hready⟩
  | started hready => exact ⟨.started, .started hready⟩
  | pushed _ => exact absurd hwaiting (Nat.succ_ne_self _)
  | replied _ hpos _ =>
    rw [hpos] at hwaiting
    exact absurd hwaiting.symm (Nat.succ_ne_self _)
  | due hpending hcollected => exact ⟨.due, .due hpending hcollected⟩
  | fired hcollected => exact ⟨.fired, .fired hcollected⟩

/-- A callback that waits may be dropped. -/
theorem Inv.drop (h : c.Inv) {n : ℕ} (hn : n ≤ c.waiting) : Inv { c with waiting := n } :=
  h.step (.other hn)

end CallLife

/-- **The outcome of a call**, as far as it is settled: how often the closure has
run, what `fn` was called with, and the error that the closure has met. -/
structure Outcome (o : Orders) (u : ℕ) (c : Call MakeOrderResponse)
    (fn : List MakeOrderResponse) : Prop where
  closure : c.closureRuns = if c.replied ∨ c.fired then 1 else 0
  fn_called : fn = if c.replied ∧ ¬ c.fired ∧ o.rt.VerifyUTF8 (o.goods u)
    then [OrderImpl.makeOrder (o.request u) {}] else []
  error_replied : c.replied → ¬ c.fired → c.controller.error_code_
    = if o.rt.VerifyUTF8 (o.goods u) then 0 else ERROR_FAILED_DESERIALIZE
  error_fired : c.fired → ¬ c.replied → c.controller.error_code_ = ERROR_RPC_CALL_TIMEOUT

/-- **The account of a call**, with a number of reply callbacks that wait. -/
structure Account (o : Orders) (calls : Calls MakeOrderResponse) (fn : List MakeOrderResponse)
    (waiting u : ℕ) : Prop where
  owns : Calls.Owns id calls u
  life : CallLife.Inv { calls.life u with waiting := waiting }
  asks : (calls.calls u).stage = .timed →
    makeOrderCall o.rt (calls.calls u).request.msg_id_ (o.price u) (o.goods u)
      = some (calls.calls u).request
  no_error : (calls.calls u).stage ≠ .failed → ¬ (calls.calls u).replied →
    ¬ (calls.calls u).fired → (calls.calls u).controller.error_code_ = 0
  outcome : Outcome o u (calls.calls u) fn

namespace Account

open Calls

variable {o : Orders} {calls calls' : Calls MakeOrderResponse} {fn : List MakeOrderResponse}
  {waiting u v : ℕ}

theorem init (o : Orders) (u : ℕ) : Account o o.init.calls [] 0 u where
  owns := owns_init _ _
  life := CallLife.inv_start
  asks h := by cases h
  no_error _ _ _ := rfl
  outcome := ⟨rfl, rfl, (Bool.noConfusion ·), (Bool.noConfusion ·)⟩

theorem drop (h : Account o calls fn waiting u) {n : ℕ} (hn : n ≤ waiting) :
    Account o calls fn n u :=
  ⟨h.owns, h.life.drop hn, h.asks, h.no_error, h.outcome⟩

/-- Nothing has happened to the call. -/
theorem frame (h : Account o calls fn waiting u) (howns : Owns id calls' u)
    (hlife : CallLife.Inv { calls'.life u with waiting := waiting })
    (hcalls : calls'.calls u = calls.calls u) : Account o calls' fn waiting u where
  owns := howns
  life := hlife
  asks := by rw [hcalls]; exact h.asks
  no_error := by rw [hcalls]; exact h.no_error
  outcome := by rw [hcalls]; exact h.outcome

/-- A step of the calls that leaves the connection alone. -/
theorem life_step (h : Account o calls fn waiting u) (hwaiting : calls.waiting = [])
    (hwaiting' : calls'.waiting = []) {l : CallsStep}
    (hs : calls.step id o.parseFromString l = some calls') :
    Owns id calls' u ∧ CallLife.Inv { calls'.life u with waiting := waiting } := by
  have hnone : (calls.life u).waiting = 0 := by
    show calls.waiting.count u = 0
    rw [hwaiting]
    rfl
  have hnone' : (calls'.life u).waiting = 0 := by
    show calls'.waiting.count u = 0
    rw [hwaiting']
    rfl
  have hi : (calls.life u).Inv := by
    have hdrop : CallLife.Inv { calls.life u with waiting := 0 } := h.life.drop (Nat.zero_le _)
    rwa [← hnone] at hdrop
  obtain ⟨howns, event, hstep, -⟩ :=
    step_life o.parseFromString (fun _ => id) h.owns hi hs
  obtain ⟨event', hstep'⟩ := hstep.withWaiting (hnone'.trans hnone.symm) waiting
  exact ⟨howns, h.life.step hstep'⟩

/-- The text of a reply always parses. -/
theorem parse_replied {message : TinyPBProtocol}
    (hm : Replied o.rt (o.price u) (o.goods u) message) :
    o.parseFromString message.pb_data_
      = (true, if o.rt.VerifyUTF8 (o.goods u) then OrderImpl.makeOrder (o.request u) {} else {})
    ∧ message.error_code_
      = if o.rt.VerifyUTF8 (o.goods u) then 0 else ERROR_FAILED_DESERIALIZE := by
  cases hutf : o.rt.VerifyUTF8 (o.goods u) with
  | true =>
    obtain ⟨herror, hparse⟩ := hm.accepted hutf
    rw [Orders.parseFromString, hparse]
    exact ⟨rfl, herror⟩
  | false =>
    obtain ⟨herror, hdata⟩ := hm.refused hutf
    have hparse : MakeOrderResponse.schema.ParseFromString o.rt [] = some {} := by
      rw [Schema.ParseFromString, Schema.InternalParse_nil]
      rfl
    rw [Orders.parseFromString, hdata, hparse]
    exact ⟨rfl, herror⟩

/-- The error of a call whose reply is there. -/
theorem error_code_replied {utf8 : Bool} {error_code : Int32} (controller : RpcController)
    (herror : error_code = if utf8 then 0 else ERROR_FAILED_DESERIALIZE) :
    (repliedController true error_code controller).error_code_
      = if utf8 then controller.error_code_ else ERROR_FAILED_DESERIALIZE := by
  cases utf8 with
  | true =>
    obtain rfl : error_code = 0 := herror
    rfl
  | false =>
    obtain rfl : error_code = ERROR_FAILED_DESERIALIZE := herror
    rfl

/-- The channel of a call is its own as long as neither changes. -/
theorem owns_congr (h : Owns id calls u) (hchannels : calls'.channels = calls.channels)
    (hstage : (calls'.calls u).stage = (calls.calls u).stage) : Owns id calls' u := by
  refine ⟨fun hready => ?_, fun hactive => ?_, fun w hw => ?_⟩
  · rw [hchannels]
    exact h.fresh (hstage ▸ hready)
  · rw [hchannels]
    exact h.active (hstage ▸ hactive)
  · rw [hchannels]
    exact h.others w hw

/-- **A reply to the call.** -/
theorem reply (h : Account o calls fn (waiting + 1) u) (htasks : calls.tasks = [])
    {message : TinyPBProtocol} (hm : Replied o.rt (o.price u) (o.goods u) message) :
    Account o (calls.replyCallback id o.parseFromString u message)
      (fn ++ fnCalls (calls.calls u)
        ((calls.replyCallback id o.parseFromString u message).calls u)) waiting u := by
  have hpushed : (calls.calls u).stage = .pushed := by
    by_contra hstage
    exact absurd (h.life.not_pushed hstage).1 (Nat.succ_ne_zero waiting)
  have hreplied : (calls.calls u).replied = false := by
    have hone : waiting + 1 + (calls.calls u).replied.toNat ≤ 1 := h.life.one_callback
    exact Bool.toNat_eq_zero.mp (by omega)
  have hcanceled : (calls.calls u).controller.is_cancle_ = (calls.calls u).fired := h.life.canceled
  have hwrites := writes_replyCallback id o.parseFromString calls u message
  have hcalls := calls_replyCallback o.parseFromString (h.owns.active (.inr hpushed)) message
  obtain ⟨hparse, herror⟩ := parse_replied hm
  have hcollected : (calls.life u).collected = 0 := by
    show calls.tasks.count u = 0
    rw [htasks]
    rfl
  have hinv := h.life.step (.replied true rfl hcollected)
  generalize calls.replyCallback id o.parseFromString u message = calls' at hwrites hcalls ⊢
  rw [answered, hparse] at hcalls
  have hcode := error_code_replied (calls.calls u).controller herror
  have howns : Owns id calls' u := owns_congr h.owns hwrites.channels (by rw [hcalls])
  have hlife : CallLife.Inv { calls'.life u with waiting := waiting } := by
    rw [Calls.life, hcalls, hwrites.pending_events_, hwrites.tasks]
    simp only [is_cancle_repliedController]
    exact hinv
  rw [hcanceled] at hcalls
  refine ⟨howns, hlife, fun hstage => ?_, fun _ hr => ?_, ?_⟩
  · rw [hcalls, show _ = CallStage.pushed from hpushed] at hstage
    cases hstage
  · rw [hcalls] at hr
    exact absurd rfl hr
  rw [hcalls]
  generalize repliedController true message.error_code_ (calls.calls u).controller = controller
    at hcode
  cases hfired : (calls.calls u).fired with
  | true =>
    -- the closure has run before
    have hruns : (calls.calls u).closureRuns = 1 := h.life.runs_fired hfired
    have hnone : fn = [] := by simpa [hreplied] using h.outcome.fn_called
    refine ⟨?_, ?_, fun _ hf => absurd rfl hf, fun _ hr => absurd rfl hr⟩
    · simp [hruns]
    · simp [hnone, fnCalls]
  | false =>
    have hruns : (calls.calls u).closureRuns = 0 := h.life.runs_none hfired hreplied
    have hnone : fn = [] := by simpa [hreplied] using h.outcome.fn_called
    have hzero := h.no_error (by rw [hpushed]; decide) (by rw [hreplied]; decide)
      (by rw [hfired]; decide)
    rw [hzero] at hcode
    refine ⟨?_, ?_, fun _ _ => hcode, fun hf => absurd hf Bool.false_ne_true⟩
    · simp [hruns]
    · cases hutf : o.rt.VerifyUTF8 (o.goods u) with
      | true =>
        rw [hutf] at hcode
        simp [hnone, fnCalls, makeOrderClosure, hcode]
      | false =>
        rw [hutf] at hcode
        simp [hnone, fnCalls, makeOrderClosure, hcode, ERROR_FAILED_DESERIALIZE]

/-- A callback that writes to other calls. -/
theorem of_writes (h : Account o calls fn waiting u) {X : ℕ → Prop} (hw : Writes X calls calls')
    (hu : ¬ X u) : Account o calls' fn waiting u := by
  have hcalls := hw.calls u hu
  refine h.frame (owns_congr h.owns hw.channels (congrArg _ hcalls)) ?_ hcalls
  rw [Calls.life, hcalls, hw.pending_events_, hw.tasks]
  exact h.life

/-- A reply to another call. -/
theorem reply_other (h : Account o calls fn waiting u) (hne : v ≠ u) (message : TinyPBProtocol) :
    Account o (calls.replyCallback id o.parseFromString v message) fn waiting u := by
  refine h.of_writes (writes_replyCallback id o.parseFromString calls v message) ?_
  rintro (rfl | hpoints)
  · exact hne rfl
  · exact h.owns.others v hne hpoints

/-- **The timer of the call.** -/
theorem timer (h : Account o calls fn waiting u) (hwaiting : calls.waiting = []) {tasks : List ℕ}
    (htasks : calls.tasks = u :: tasks) :
    Account o ({ calls with tasks := tasks }.timerCallback id u)
      (fn ++ fnCalls (calls.calls u) (({ calls with tasks := tasks }.timerCallback id u).calls u))
      waiting u := by
  have hs : calls.step id o.parseFromString .runTask
      = some ({ calls with tasks := tasks }.timerCallback id u) := by rw [Calls.step, htasks]
  have hwrites := writes_timerCallback id { calls with tasks := tasks } u
  have hcollected : (calls.life u).collected = tasks.count u + 1 := by
    show calls.tasks.count u = _
    rw [htasks, List.count_cons_self]
  have hpos : (calls.life u).collected ≠ 0 := hcollected ▸ Nat.succ_ne_zero _
  have hactive : (calls.calls u).stage = .timed ∨ (calls.calls u).stage = .pushed := by
    cases hstage : (calls.calls u).stage with
    | timed => exact .inl rfl
    | pushed => exact .inr rfl
    | ready => exact absurd (h.life.no_timer (.inl hstage)).2.1 hpos
    | failed => exact absurd (h.life.no_timer (.inr hstage)).2.1 hpos
  have hcalls := calls_timerCallback (s := { calls with tasks := tasks }) (h.owns.active hactive)
  obtain ⟨howns, hlife⟩ := h.life_step hwaiting
    (by rw [Calls.waiting, hwrites.conn]; exact hwaiting) hs
  have hfired : (calls.calls u).fired = false := by
    have hone : (calls.life u).pending + (calls.life u).collected
        + (calls.calls u).fired.toNat ≤ 1 := h.life.one_timer
    exact Bool.toNat_eq_zero.mp (by omega)
  have hreplied : (calls.calls u).replied = false := by
    cases hr : (calls.calls u).replied with
    | false => rfl
    | true => exact absurd (h.life.timer_cancelled hr hfired).2 hpos
  have hruns : (calls.calls u).closureRuns = 0 := h.life.runs_none hfired hreplied
  have hnone : fn = [] := by simpa [hreplied] using h.outcome.fn_called
  generalize { calls with tasks := tasks }.timerCallback id u = calls'
    at hwrites hcalls howns hlife ⊢
  rw [timedOut] at hcalls
  refine ⟨howns, hlife, ?_, fun _ _ hf => ?_, ?_⟩
  · rw [hcalls]
    exact h.asks
  · rw [hcalls] at hf
    exact absurd rfl hf
  · rw [hcalls]
    refine ⟨?_, ?_, fun _ hf => absurd rfl hf, fun _ _ => rfl⟩
    · simp [hruns]
    · simp [hnone, fnCalls, makeOrderClosure, RpcController.SetError, RpcController.SetFailed,
        ERROR_RPC_CALL_TIMEOUT]

/-- The timer of another call. -/
theorem timer_other (h : Account o calls fn waiting u) (hwaiting : calls.waiting = []) (hne : v ≠ u)
    {tasks : List ℕ} (htasks : calls.tasks = v :: tasks) :
    Account o ({ calls with tasks := tasks }.timerCallback id v) fn waiting u := by
  have hs : calls.step id o.parseFromString .runTask
      = some ({ calls with tasks := tasks }.timerCallback id v) := by rw [Calls.step, htasks]
  have hwrites := writes_timerCallback id { calls with tasks := tasks } v
  obtain ⟨howns, hlife⟩ := h.life_step hwaiting
    (by rw [Calls.waiting, hwrites.conn]; exact hwaiting) hs
  refine h.frame howns hlife (hwrites.calls u ?_)
  rintro (rfl | hpoints)
  · exact hne rfl
  · exact h.owns.others v hne hpoints

/-- The request of a call whose timer is set. -/
theorem request_CallMethod (calls : Calls MakeOrderResponse) (u : ℕ) {input : CallInput}
    {pb_data : Bytes} (hconnected : input.connected = true) (hdata : input.pb_data = some pb_data) :
    ((calls.CallMethod id u input).calls u).request
      = { msg_id_ := input.msg_id
          method_name_ := input.method_full_name
          pb_data_ := pb_data } := by
  unfold CallMethod
  simp only [Calls.modify, Function.update_self, hconnected, hdata, RpcChannel.is_init_init,
    not_true_eq_false, if_false]

/-- **`makeOrder`**, of the call or of another. -/
theorem makeOrder (h : Account o calls fn waiting u) (hwaiting : calls.waiting = [])
    (hready : (calls.calls v).stage = .ready) (msg_id : Bytes) (connected : Bool) :
    Account o
      (calls.CallMethod id v
        { msg_id := msg_id
          method_full_name := methodName
          connected := connected
          pb_data := MakeOrderRequest.schema.SerializeToString o.rt (o.request v) })
      fn waiting u := by
  set input : CallInput :=
    { msg_id := msg_id
      method_full_name := methodName
      connected := connected
      pb_data := MakeOrderRequest.schema.SerializeToString o.rt (o.request v) } with hinput
  have hs : calls.step id o.parseFromString (.callMethod v input)
      = some (calls.CallMethod id v input) := if_pos hready
  obtain ⟨howns, hlife⟩ := h.life_step hwaiting
    (by rw [Calls.waiting, conn_CallMethod]; exact hwaiting) hs
  by_cases hdone : input.connected = true ∧ input.pb_data.isSome = true
  · obtain ⟨request, hmade⟩ := CallMethod_started id calls v hdone
    by_cases hv : u = v
    · subst hv
      obtain ⟨pb_data, hdata⟩ := Option.isSome_iff_exists.mp hdone.2
      have hrequest := request_CallMethod calls u hdone.1 hdata
      have hcalls : (calls.CallMethod id u input).calls u = _ :=
        (congrFun hmade.calls u).trans (Function.update_self ..)
      rw [hcalls] at hrequest
      refine ⟨howns, hlife, fun _ => ?_, fun _ => ?_, ?_⟩
      · have hserialize : MakeOrderRequest.schema.SerializeToString o.rt
            { price_ := o.price u, goods_ := o.goods u } = some pb_data := hdata
        rw [hcalls, hrequest, makeOrderCall, hserialize]
        rfl
      · rw [hcalls]
        exact h.no_error (by rw [hready]; decide)
      · rw [hcalls]
        exact ⟨h.outcome.closure, h.outcome.fn_called, h.outcome.error_replied,
          h.outcome.error_fired⟩
    · exact h.frame howns hlife ((congrFun hmade.calls u).trans (Function.update_of_ne hv _ _))
  · obtain ⟨controller, -, hmade⟩ := CallMethod_failed id calls v hdone
    by_cases hv : u = v
    · subst hv
      have hcalls : (calls.CallMethod id u input).calls u = _ :=
        (congrFun hmade.calls u).trans (Function.update_self ..)
      have hpushed : (calls.calls u).stage ≠ .pushed := by rw [hready]; decide
      have hfired : (calls.calls u).fired = false := (h.life.no_timer (.inl hready)).2.2
      have hreplied : (calls.calls u).replied = false := (h.life.not_pushed hpushed).2
      refine ⟨howns, hlife, fun hstage => ?_, fun hstage => ?_, ?_⟩
      · rw [hcalls] at hstage
        cases hstage
      · rw [hcalls] at hstage
        exact absurd rfl hstage
      · rw [hcalls]
        exact ⟨h.outcome.closure, h.outcome.fn_called,
          fun hr => absurd (hreplied.symm.trans hr) Bool.false_ne_true,
          fun hf => absurd (hfired.symm.trans hf) Bool.false_ne_true⟩
    · exact h.frame howns hlife ((congrFun hmade.calls u).trans (Function.update_of_ne hv _ _))

/-- **The request is queued**, and the callback waits. -/
theorem pushed (h : Account o calls fn waiting u) (htimed : (calls.calls u).stage = .timed) :
    Account o (calls.modify u (fun c => { c with stage := .pushed })) fn (waiting + 1) u := by
  have hcalls := calls_modify_self calls u (fun c => { c with stage := .pushed })
  have hstep := h.life.step (.pushed (c := { calls.life u with waiting := waiting }) htimed)
  refine ⟨⟨fun hstage => ?_, fun _ => h.owns.active (.inl htimed), h.owns.others⟩, ?_, ?_, ?_, ?_⟩
  · rw [hcalls] at hstage
    cases hstage
  · rw [Calls.life, hcalls]
    exact hstep
  · rw [hcalls]
    exact fun hstage => by cases hstage
  · rw [hcalls]
    exact fun _ => h.no_error (by rw [htimed]; decide)
  · rw [hcalls]
    exact ⟨h.outcome.closure, h.outcome.fn_called, h.outcome.error_replied, h.outcome.error_fired⟩

theorem pushed_other (h : Account o calls fn waiting u) (hne : u ≠ v) :
    Account o (calls.modify v (fun c => { c with stage := .pushed })) fn waiting u :=
  h.of_writes (Writes.modify calls (X := fun x => x = v) rfl _) hne

/-- **The timers that are due are taken.** -/
theorem onTime (h : Account o calls fn waiting u) (hwaiting : calls.waiting = []) {due : List ℕ}
    (hs : calls.step id o.parseFromString (.onTime due) = some calls') :
    calls'.waiting = [] ∧ Account o calls' fn waiting u := by
  obtain ⟨-, heq⟩ := Option.ite_none_right_eq_some.mp hs
  have heq := Option.some.inj heq
  have hwaiting' : calls'.waiting = [] := by
    rw [← heq]
    exact hwaiting
  obtain ⟨howns, hlife⟩ := h.life_step hwaiting hwaiting' hs
  exact ⟨hwaiting', h.frame howns hlife (by rw [← heq])⟩

end Account

/-! ## The client with its calls -/

namespace Orders

variable {o : Orders} {s s' : OrderClient} {n : ℕ → ℕ}

/-- The accounts of all calls. -/
def Accounts (o : Orders) (s : OrderClient) (n : ℕ → ℕ) : Prop :=
  ∀ u, Account o s.calls (itemsOf u s.fns) (n u) u

/-- What is given to `fn` belongs to its call. -/
theorem itemsOf_finish (s : OrderClient) (u v : ℕ) (calls : Calls MakeOrderResponse) :
    itemsOf v (s.finish u calls).fns = if u = v
      then itemsOf v s.fns ++ fnCalls (s.calls.calls u) (calls.calls u) else itemsOf v s.fns := by
  show itemsOf v (s.fns ++ _) = _
  rw [SharedQueue.itemsOf_append]
  by_cases huv : u = v
  · rw [huv, if_pos rfl, SharedQueue.itemsOf_map_self]
  · rw [if_neg huv, SharedQueue.itemsOf_map_of_ne huv, List.append_nil]

/-- **One callback.** -/
theorem Accounts.callback {i : Invocation (Option ℕ)}
    (h : Accounts o s fun u => n u + if i.done = some u then 1 else 0) (htasks : s.calls.tasks = [])
    (hi : ∀ u, i.done = some u → Replied o.rt (o.price u) (o.goods u) i.message) :
    Accounts o (o.callback s i) n ∧ (o.callback s i).calls.tasks = [] ∧
      (o.callback s i).calls.waiting = s.calls.waiting := by
  unfold Orders.callback
  cases hdone : i.done with
  | none =>
    rw [hdone] at h
    exact ⟨h, htasks, rfl⟩
  | some v =>
    rw [hdone] at h
    have hwrites := Calls.writes_replyCallback id o.parseFromString s.calls v i.message
    refine ⟨fun u => ?_, hwrites.tasks.trans htasks, congrArg (fun conn : Connection ℕ =>
      conn.write_dones_.map Prod.snd ++ conn.pending.map Prod.snd) hwrites.conn⟩
    have hu : Account o s.calls (itemsOf u s.fns) (n u + if some v = some u then 1 else 0) u := h u
    rw [itemsOf_finish]
    by_cases hvu : v = u
    · subst hvu
      rw [if_pos rfl] at hu ⊢
      exact hu.reply htasks (hi v hdone)
    · rw [if_neg fun heq => hvu (Option.some.inj heq)] at hu
      rw [if_neg hvu]
      exact hu.reply_other hvu i.message

theorem pair_callbacks (ran : List (Invocation (Option ℕ))) (s : OrderClient) :
    (ran.foldl o.callback s).pair = s.pair := by
  induction ran generalizing s with
  | nil => rfl
  | cons i ran ih =>
    rw [List.foldl_cons, ih]
    unfold Orders.callback
    split <;> rfl

/-- **The callbacks of the messages that were parsed**, one after the other. -/
theorem Accounts.callbacks {ran : List (Invocation (Option ℕ))}
    (h : Accounts o s fun u => n u + ConnectionPair.timesRun ran (some u))
    (htasks : s.calls.tasks = [])
    (hran : ∀ i ∈ ran, ∀ u, i.done = some u → Replied o.rt (o.price u) (o.goods u) i.message) :
    Accounts o (ran.foldl o.callback s) n ∧
      (ran.foldl o.callback s).calls.waiting = s.calls.waiting := by
  induction ran generalizing s with
  | nil => exact ⟨h, rfl⟩
  | cons i ran ih =>
    have hfirst : Accounts o s fun u =>
        (n u + ConnectionPair.timesRun ran (some u)) + if i.done = some u then 1 else 0 := by
      intro u
      show Account _ _ _ (n u + _ + _) u
      rw [Nat.add_assoc, ← ConnectionPair.timesRun_cons]
      exact h u
    obtain ⟨hnext, htasks', hwaiting⟩ := hfirst.callback htasks (hran i (List.mem_cons_self ..))
    obtain ⟨hlast, hwaiting'⟩ := ih hnext htasks' fun i hi => hran i (List.mem_cons_of_mem _ hi)
    exact ⟨hlast, hwaiting'.trans hwaiting⟩

/-- **What is true of a client with its calls.** -/
structure Inv (o : Orders) (s : OrderClient) : Prop where
  pair : ConnectionPair.Inv OrderMessage o.set s.pair
  answered : ConnectionPair.AnsweredBy (ServesOrder o.rt) o.set s.pair
  /-- The connection of the calls by themselves is not used. -/
  unused : s.calls.waiting = []
  pushed : ∀ e ∈ s.pair.client.pushed, ∀ u, e.2 = some u →
    makeOrderCall o.rt e.1.msg_id_ (o.price u) (o.goods u) = some e.1
  accounts : Accounts o s fun u => s.pair.waits (some u)

theorem inv_init (o : Orders) : Inv o o.init where
  pair := ConnectionPair.inv_init
  answered _ he := nomatch he
  unused := rfl
  pushed _ he := nomatch he
  accounts u := Account.init o u

/-- A step that leaves the pair alone. -/
theorem Inv.frame (h : Inv o s) (hpair : s'.pair = s.pair) (hunused : s'.calls.waiting = [])
    (haccounts : ∀ u, Account o s'.calls (itemsOf u s'.fns) (s.pair.waits (some u)) u) :
    Inv o s' := by
  refine ⟨?_, ?_, hunused, ?_, ?_⟩
  · rw [hpair]
    exact h.pair
  · rw [hpair]
    exact h.answered
  · rw [hpair]
    exact h.pushed
  · unfold Accounts
    rw [hpair]
    exact haccounts

/-- **The request of a call is queued.** -/
theorem Inv.pushSendMessage (h : Inv o s) {v : ℕ} (htimed : (s.calls.calls v).stage = .timed)
    (hx : s'.pair.Exchange)
    (hs : s' = { s with
      calls := s.calls.modify v (fun c => { c with stage := .pushed })
      pair := { s.pair with
        client := s.pair.client.push (s.calls.calls v).request (some v) } }) : Inv o s' := by
  subst hs
  have hpush : s.pair.step o.set (.push (s.calls.calls v).request (some v) :
      PairStep (Option ℕ) OrderMessage) = some
        { s.pair with client := s.pair.client.push (s.calls.calls v).request (some v) } := rfl
  have hanswered := h.answered.step (l := .push (s.calls.calls v).request (some v)) trivial hpush
  refine ⟨h.pair.step (hx.back hpush) hpush, hanswered, h.unused, fun e he u hu => ?_,
    fun u => ?_⟩
  · rcases List.mem_append.mp he with he | he
    · exact h.pushed e he u hu
    · obtain rfl := List.mem_singleton.mp he
      obtain rfl := Option.some.inj hu
      exact (h.accounts v).asks htimed
  · have hu := h.accounts u
    show Account o _ (itemsOf u s.fns) (ConnectionPair.waits _ (some u)) u
    rw [ConnectionPair.waits_push]
    by_cases hvu : v = u
    · subst hvu
      rw [if_pos rfl]
      exact hu.pushed htimed
    · rw [if_neg fun heq => hvu (Option.some.inj heq)]
      exact hu.pushed_other (Ne.symm hvu)

/-- **The callbacks that a step of the pair runs** are given what `OrderImpl`
makes. -/
theorem Inv.replied (h : Inv o s) {pair : ConnectionPair (Option ℕ)}
    {ran : List (Invocation (Option ℕ))} (hpair : ConnectionPair.Inv OrderMessage o.set pair)
    (hanswered : ConnectionPair.AnsweredBy (ServesOrder o.rt) o.set pair) (hx : pair.Exchange)
    (hran : ConnectionPair.CallsBack s.pair pair ran) :
    ∀ i ∈ ran, ∀ u, i.done = some u → Replied o.rt (o.price u) (o.goods u) i.message := by
  intro i hi u hu
  have hinvoked : i ∈ pair.client.invoked := by
    rw [hran.invoked]
    exact List.mem_append_right _ hi
  obtain ⟨e, hsent, hentry, -⟩ := hpair.answer_of_invoked hx hinvoked
  have hpushed : e ∈ pair.client.pushed := hpair.pushed_of_sent hsent
  obtain ⟨hid, hdone⟩ := Prod.mk.inj hentry
  have hcall := h.pushed e (hran.pushed ▸ hpushed) u (hdone.trans hu)
  rw [hid] at hcall
  exact hpair.replied hanswered hx hinvoked (hdone ▸ hpushed) hcall

/-- **A step of the pair that pushes nothing.** -/
theorem Inv.callbacks (h : Inv o s) {pair : ConnectionPair (Option ℕ)}
    {ran : List (Invocation (Option ℕ))} (hpair : ConnectionPair.Inv OrderMessage o.set pair)
    (hanswered : ConnectionPair.AnsweredBy (ServesOrder o.rt) o.set pair) (hx : pair.Exchange)
    (hran : ConnectionPair.CallsBack s.pair pair ran) (htasks : ran ≠ [] → s.calls.tasks = []) :
    Inv o (ran.foldl o.callback { s with pair := pair }) := by
  have haccounts : Accounts o { s with pair := pair } fun u =>
      pair.waits (some u) + ConnectionPair.timesRun ran (some u) :=
    fun u => (h.accounts u).drop (hran.waits (some u))
  have hpushed : ∀ e ∈ pair.client.pushed, ∀ u, e.2 = some u →
      makeOrderCall o.rt e.1.msg_id_ (o.price u) (o.goods u) = some e.1 := by
    rw [hran.pushed]
    exact h.pushed
  have hsame := pair_callbacks (o := o) ran { s with pair := pair }
  by_cases hnone : ran = []
  · subst hnone
    exact ⟨hpair, hanswered, h.unused, hpushed, haccounts⟩
  · have hreplied := h.replied hpair hanswered hx hran
    obtain ⟨hlast, hwaiting⟩ := haccounts.callbacks (htasks hnone) hreplied
    exact ⟨hsame ▸ hpair, hsame ▸ hanswered, hwaiting.trans h.unused, hsame ▸ hpushed,
      hsame ▸ hlast⟩

/-- Another user of the connection queues a message. -/
theorem Inv.push (h : Inv o s) {message : TinyPBProtocol} {pair : ConnectionPair (Option ℕ)}
    (hpair : ConnectionPair.Inv OrderMessage o.set pair)
    (hanswered : ConnectionPair.AnsweredBy (ServesOrder o.rt) o.set pair)
    (hpush : pair = { s.pair with client := s.pair.client.push message none }) :
    Inv o { s with pair := pair } := by
  refine ⟨hpair, hanswered, h.unused, ?_, fun u => ?_⟩
  · intro e he u hu
    have he : e ∈ pair.client.pushed := he
    rw [hpush] at he
    rcases List.mem_append.mp he with he | he
    · exact h.pushed e he u hu
    · obtain rfl := List.mem_singleton.mp he
      cases hu
  · have hu : Account o s.calls (itemsOf u s.fns) (s.pair.waits (some u)) u := h.accounts u
    show Account o s.calls (itemsOf u s.fns) (pair.waits (some u)) u
    rw [hpush, ConnectionPair.waits_push, if_neg (by simp), Nat.add_zero]
    exact hu

/-- What is assumed of the messages was so before. -/
theorem exchange_back {l : OrderStep} (hs : o.step s l = some s') (hx : s'.pair.Exchange) :
    s.pair.Exchange := by
  cases l with
  | makeOrder v msg_id connected =>
    obtain ⟨-, hs⟩ := Option.ite_none_right_eq_some.mp hs
    obtain rfl := Option.some.inj hs
    exact hx
  | pushSendMessage v =>
    obtain ⟨-, hs⟩ := Option.ite_none_right_eq_some.mp hs
    obtain rfl := Option.some.inj hs
    have hpush : s.pair.step o.set (.push (s.calls.calls v).request (some v) :
        PairStep (Option ℕ) OrderMessage) = some
          { s.pair with client := s.pair.client.push (s.calls.calls v).request (some v) } := rfl
    exact hx.back hpush
  | pair l =>
    obtain ⟨-, hs⟩ := Option.ite_none_right_eq_some.mp hs
    obtain ⟨pair, hstep, rfl⟩ := Option.map_eq_some_iff.mp hs
    rw [pair_callbacks] at hx
    exact hx.back hstep
  | onTime due =>
    obtain ⟨-, hs⟩ := Option.ite_none_right_eq_some.mp hs
    obtain ⟨calls, -, rfl⟩ := Option.map_eq_some_iff.mp hs
    exact hx
  | runTask =>
    rw [Orders.step] at hs
    split at hs
    case h_1 => cases hs
    case h_2 =>
      obtain ⟨calls, -, rfl⟩ := Option.map_eq_some_iff.mp hs
      exact hx

/-- **What was run** is what has been added to the invocations. -/
theorem drop_invoked {p p' : ConnectionPair (Option ℕ)} {ran : List (Invocation (Option ℕ))}
    (hran : ConnectionPair.CallsBack p p' ran) :
    p'.client.invoked.drop p.client.invoked.length = ran := by
  rw [hran.invoked, List.drop_left]

/-- **One step of the client**, or of what is at the other end. -/
theorem Inv.step (h : Inv o s) {l : OrderStep} (hok : o.Meets s l) (hx : s'.pair.Exchange)
    (hs : o.step s l = some s') : Inv o s' := by
  cases l with
  | makeOrder v msg_id connected =>
    obtain ⟨hready, hs⟩ := Option.ite_none_right_eq_some.mp hs
    obtain rfl := Option.some.inj hs
    refine h.frame rfl ?_ fun u => (h.accounts u).makeOrder h.unused hready msg_id connected
    show Calls.waiting (s.calls.CallMethod ..) = []
    rw [Calls.waiting, Calls.conn_CallMethod]
    exact h.unused
  | pushSendMessage v =>
    obtain ⟨htimed, hs⟩ := Option.ite_none_right_eq_some.mp hs
    exact h.pushSendMessage htimed hx (Option.some.inj hs).symm
  | pair l =>
    obtain ⟨hmay, hs⟩ := Option.ite_none_right_eq_some.mp hs
    obtain ⟨pair, hstep, rfl⟩ := Option.map_eq_some_iff.mp hs
    rw [pair_callbacks] at hx
    have hpair := h.pair.step (hx.back hstep) hstep
    have hanswered := h.answered.step hok hstep
    by_cases hpush : ∃ message done, l = .push message done
    · obtain ⟨message, done, rfl⟩ := hpush
      cases done with
      | some v => cases hmay
      | none =>
        -- a message of another user of the connection
        obtain rfl := Option.some.inj hstep
        rw [show (s.pair.client.push message none).invoked.drop s.pair.client.invoked.length = []
          from List.drop_length]
        exact h.push hpair hanswered rfl
    · obtain ⟨ran, hran, hparse⟩ :=
        ConnectionPair.step_callsBack (fun message done hl => hpush ⟨message, done, hl⟩) hstep
      rw [drop_invoked hran]
      refine h.callbacks hpair hanswered hx hran fun hsome => ?_
      obtain rfl := hparse.resolve_right hsome
      exact List.isEmpty_iff.mp hmay
  | onTime due =>
    obtain ⟨-, hs⟩ := Option.ite_none_right_eq_some.mp hs
    obtain ⟨calls, hstep, rfl⟩ := Option.map_eq_some_iff.mp hs
    exact h.frame rfl ((h.accounts 0).onTime h.unused hstep).1
      fun u => ((h.accounts u).onTime h.unused hstep).2
  | runTask =>
    rw [Orders.step] at hs
    split at hs
    case h_1 => cases hs
    case h_2 v tasks htasks =>
      obtain ⟨calls, hstep, rfl⟩ := Option.map_eq_some_iff.mp hs
      rw [Calls.step, htasks] at hstep
      obtain rfl := Option.some.inj hstep
      refine h.frame rfl ?_ fun u => ?_
      · have hwrites := Calls.writes_timerCallback id { s.calls with tasks := tasks } v
        show Calls.waiting ({ s.calls with tasks := tasks }.timerCallback id v) = []
        rw [Calls.waiting, hwrites.conn]
        exact h.unused
      · rw [itemsOf_finish]
        by_cases hvu : v = u
        · subst hvu
          rw [if_pos rfl]
          exact (h.accounts v).timer h.unused htasks
        · rw [if_neg hvu]
          exact (h.accounts u).timer_other h.unused hvu htasks

/-- **Every call of `makeOrder` has its outcome**: the closure runs once, at the
reply or at the timeout, whichever is first, and `fn` is called with what
`OrderImpl` makes for the price, if it is the reply and the goods are UTF-8,
and otherwise not. -/
theorem callsFn (o : Orders) (hruns : Runs o.step o.Meets o.init s) (hx : s.pair.Exchange)
    (u : ℕ) : Outcome o u (s.calls.calls u) (itemsOf u s.fns) := by
  have h : Inv o s := hruns.invariant_under (H := fun s => s.pair.Exchange)
    (fun _ _ _ hs hx => exchange_back hs hx) (fun _ _ _ h hok hx hs => h.step hok hx hs)
    (inv_init o) hx
  exact (h.accounts u).outcome

/-- The orders of the client's `main`. -/
def twoOrders : Orders where
  rt := .wire
  set := ⟨.trap, 1, {}⟩
  price u := if u = 0 then 100 else 9
  goods u := if u = 0 then Bytes.ofString "apple" else Bytes.ofString "orange"
  timeout_ _ := 500000
  unparsed _ := {}

/-- The second order times out after the first reply, and before its own. -/
def twoOrdersSteps : List OrderStep :=
  [.makeOrder 0 (Bytes.ofString "1") true, .pushSendMessage 0,
    .makeOrder 1 (Bytes.ofString "2") true, .pushSendMessage 1, .pair .enable,
    .pair (.client .sendMessage), .pair (.client .encode),
    .pair (.client (.write (.written 97))), .pair (.client .disableWriting),
    .pair (.serverRead 97), .pair (.serverParse fun _ => ConnectionPair.orderServer),
    .pair (.finish 0 fun _ => ConnectionPair.orderServer), .pair .regSend,
    .pair (.server .sendMessage), .pair (.server (.write (.written 114))),
    .pair (.server .disableWriting), .pair (.clientRead 60), .pair .clientParse, .onTime [1],
    .runTask, .pair (.clientRead 54), .pair .clientParse]

theorem callsFn_twoOrders :
    ∃ s : OrderClient, s.fns = [(0, OrderImpl.makeOrder (twoOrders.request 0) {})] ∧
      (s.calls.calls 1).fired = true ∧ (s.calls.calls 1).replied = true ∧
      Outcome twoOrders 0 (s.calls.calls 0) (itemsOf 0 s.fns) ∧
      Outcome twoOrders 1 (s.calls.calls 1) (itemsOf 1 s.fns) := by
  have hmeets : ∀ l ∈ twoOrdersSteps, ∀ s, twoOrders.Meets s l := by
    have horder : ServesOrder .wire ConnectionPair.orderServer :=
      servesOrder_registerService _ _ _ _
    simp [twoOrdersSteps, Orders.Meets, ConnectionPair.Meets, twoOrders, horder]
  obtain ⟨s, hruns, h⟩ : ∃ s, Runs twoOrders.step twoOrders.Meets twoOrders.init s ∧
      decide (s.pair.Exchange ∧ s.fns = [(0, OrderImpl.makeOrder (twoOrders.request 0) {})] ∧
        (s.calls.calls 1).fired = true ∧ (s.calls.calls 1).replied = true) = true :=
    exists_of_execute_of twoOrdersSteps hmeets (by decide +kernel)
  obtain ⟨hx, hfns, hfired, hreplied⟩ := of_decide_eq_true h
  exact ⟨s, hfns, hfired, hreplied, callsFn twoOrders hruns hx 0, callsFn twoOrders hruns hx 1⟩

end Orders

end PbRpc
