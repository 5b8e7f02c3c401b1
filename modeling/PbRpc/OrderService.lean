import PbRpc.AnsweredBy
import PbRpc.OrderMessages

/-!
# The order service, from end to end

The client's `makeOrder` fills in a request and calls the method of the stub;
the server's `OrderImpl` answers it. In between are the messages of protobuf,
those of the protocol, two connections and the dispatcher, each of which has
its own module. Here they are put together: whatever the interleaving and
however the streams are cut, the callback of a `makeOrder` is given a message
from which the response is read that `OrderImpl` makes for its price
(`makeOrder_delivered`).

The one exception is a name of goods that is not UTF-8. The client sends it,
and the server refuses it.
-/

namespace PbRpc

open TinyPBCoder TinyPBProtocol Transition

/-! ## The service -/

/-- **`OrderImpl::makeOrder`**, without its `sleep`. -/
def OrderImpl.makeOrder (request : MakeOrderRequest) (response : MakeOrderResponse) :
    MakeOrderResponse :=
  if request.price_ < 10 then
    { response with ret_code_ := -1, res_info_ := Bytes.ofString "short balance" }
  else { response with order_id_ := Bytes.ofString "20250511" }

/-- The messages of the service. -/
inductive OrderMessage where
  | request (msg : MakeOrderRequest)
  | response (msg : MakeOrderResponse)

/-- **The method `makeOrder`**: `GetRequestPrototype` and `GetResponsePrototype`
say which messages `CallMethod` is given. -/
def Order.makeOrder (rt : ProtobufRuntime) : MethodDescriptor OrderMessage where
  name := Bytes.ofString "makeOrder"
  parseFromString bs := (MakeOrderRequest.schema.ParseFromString rt bs).map .request
  callMethod _
    | .request request => .response (OrderImpl.makeOrder request {})
    | .response response => .response response
  serializeToString
    | .request request => MakeOrderRequest.schema.SerializeToString rt request
    | .response response => MakeOrderResponse.schema.SerializeToString rt response

/-- **The service `Order`.** -/
def Order (rt : ProtobufRuntime) : Service OrderMessage where
  full_name := Bytes.ofString "Order"
  methods := [Order.makeOrder rt]

def methodName : Bytes := Bytes.ofString "Order.makeOrder"

/-- A dispatcher that has the service. -/
def ServesOrder (rt : ProtobufRuntime) (d : RpcDispatcher OrderMessage) : Prop :=
  d.lookup methodName = .ok (Order rt, Order.makeOrder rt)

/-- **The server registers the service.** -/
theorem servesOrder_registerService (rt : ProtobufRuntime) (d : RpcDispatcher OrderMessage)
    (config : CConfig) (cpu_usage : Double) :
    ServesOrder rt (d.registerService config cpu_usage (Order rt)).1 := by
  have hname : RpcDispatcher.parseServiceFullName methodName
      = some (Bytes.ofString "Order", Bytes.ofString "makeOrder") := by decide
  rw [ServesOrder, RpcDispatcher.lookup, hname]
  dsimp only
  rw [RpcDispatcher.registerService, show Bytes.ofString "Order" = (Order rt).full_name from rfl,
    AList.lookup_insert]
  rfl

/-! ## A call -/

/-- **The message of a call**, as the client's `makeOrder` and `CallMethod` make
it. It is not sent when it cannot be serialized. -/
def makeOrderCall (rt : ProtobufRuntime) (msg_id : Bytes) (price : Int32) (goods : Bytes) :
    Option TinyPBProtocol :=
  (MakeOrderRequest.schema.SerializeToString rt { price_ := price, goods_ := goods }).map
    fun pb_data =>
      { msg_id_ := msg_id, method_name_ := methodName, pb_data_ := pb_data }

/-- What is made of the reply to a call. -/
structure Replied (rt : ProtobufRuntime) (price : Int32) (goods : Bytes)
    (message : TinyPBProtocol) : Prop where
  accepted : rt.VerifyUTF8 goods = true → message.error_code_ = 0 ∧
    MakeOrderResponse.schema.ParseFromString rt message.pb_data_
      = some (OrderImpl.makeOrder { price_ := price, goods_ := goods } {})
  refused : rt.VerifyUTF8 goods = false →
    message.error_code_ = ERROR_FAILED_DESERIALIZE ∧ message.pb_data_ = []

variable {rt : ProtobufRuntime} {price : Int32} {goods : Bytes}

/-- The strings of the responses are short, and ASCII. -/
theorem makeOrder_strings (request : MakeOrderRequest) :
    ∀ str ∈ [(OrderImpl.makeOrder request {}).res_info_,
      (OrderImpl.makeOrder request {}).order_id_], str.length ≤ 20 ∧ ∀ b ∈ str, b < 0x80 := by
  unfold OrderImpl.makeOrder
  split
  · decide +kernel
  · decide +kernel

/-- **A response is serialized, and read back.** -/
theorem makeOrder_roundTrip (rt : ProtobufRuntime) (request : MakeOrderRequest) :
    ∃ pb_data, MakeOrderResponse.schema.SerializeToString rt (OrderImpl.makeOrder request {})
        = some pb_data ∧
      MakeOrderResponse.schema.ParseFromString rt pb_data
        = some (OrderImpl.makeOrder request {}) := by
  have hstrings := makeOrder_strings request
  simp only [List.forall_mem_cons] at hstrings
  obtain ⟨⟨hinfo, hinfo'⟩, ⟨hid, hid'⟩, -⟩ := hstrings
  have hshort : ∀ f ∈ MakeOrderResponse.schema.fields,
      f.Holds (fun str => str.length ≤ 20) (OrderImpl.makeOrder request {}) :=
    MakeOrderResponse.holds_iff.mpr ⟨hinfo, hid⟩
  have hunknown : MakeOrderResponse.schema.unknown (OrderImpl.makeOrder request {}) = [] := by
    show (OrderImpl.makeOrder request {}).unknown_fields = []
    unfold OrderImpl.makeOrder
    split <;> rfl
  have hsize : MakeOrderResponse.schema.ByteSizeLong rt (OrderImpl.makeOrder request {})
      ≤ maxMessageSize :=
    le_trans (Schema.ByteSizeLong_le (by decide) hshort hunknown) (by decide)
  have hvalid : Schema.Valid rt MakeOrderResponse.schema (OrderImpl.makeOrder request {}) := by
    refine ⟨MakeOrderResponse.holds_iff.mpr ⟨⟨hinfo.trans (by decide), rt.ascii hinfo'⟩,
      hid.trans (by decide), rt.ascii hid'⟩, fun u hu => ?_⟩
    rw [hunknown] at hu
    cases hu
  exact ⟨_, if_neg (not_lt.mpr hsize), hvalid.parse⟩

/-- The message of a call is longer than the goods. -/
theorem goods_le {msg_id : Bytes} {request : TinyPBProtocol}
    (hcall : makeOrderCall rt msg_id price goods = some request)
    (hframe : frameLength request ≤ 2147483647) : goods.length ≤ maxStringSize := by
  obtain ⟨pb_data, hpb, rfl⟩ := Option.map_eq_some_iff.mp hcall
  have hgoods := MakeOrderRequest.length_goods_le rt { price_ := price, goods_ := goods }
  rw [Schema.SerializeToString] at hpb
  split at hpb
  · cases hpb
  · obtain rfl := Option.some.inj hpb
    have hname : methodName.length = 15 := by decide +kernel
    show _ ≤ 2147483631
    dsimp only [frameLength] at hframe hgoods
    rw [hname] at hframe
    omega

/-- **A request is read as it was serialized**, if its goods are UTF-8. -/
theorem parse_request {pb_data : Bytes} (hgoods : goods.length ≤ maxStringSize)
    (h : MakeOrderRequest.schema.SerializeToString rt { price_ := price, goods_ := goods }
      = some pb_data) :
    MakeOrderRequest.schema.ParseFromString rt pb_data
      = if rt.VerifyUTF8 goods then some { price_ := price, goods_ := goods } else none := by
  classical
  rw [Schema.ParseFromString_SerializeToString h (MakeOrderRequest.holds_iff.mpr hgoods)
    fun u hu => nomatch hu]
  refine if_congr ?_ rfl rfl
  exact MakeOrderRequest.holds_iff.trans ⟨fun h => h.2, fun h => ⟨hgoods, h⟩⟩

/-- **The dispatcher answers a call.** -/
theorem dispatch_makeOrder {d : RpcDispatcher OrderMessage} (hd : ServesOrder rt d)
    (conn : InterAddress) {msg_id : Bytes} {request : TinyPBProtocol}
    (hcall : makeOrderCall rt msg_id price goods = some request)
    (hframe : frameLength request ≤ 2147483647) :
    Replied rt price goods (d.dispatch conn (received request) {}) := by
  have hgoods := goods_le hcall hframe
  obtain ⟨pb_data, hpb, rfl⟩ := Option.map_eq_some_iff.mp hcall
  have hparse := parse_request hgoods hpb
  obtain ⟨reply, hreply, hread⟩ :=
    makeOrder_roundTrip rt { price_ := price, goods_ := goods }
  have htype : ¬ (0 : Int8) = 1 := by decide
  constructor
  · intro hutf
    rw [if_pos hutf] at hparse
    have hdispatch : d.dispatch conn (received
          { msg_id_ := msg_id, method_name_ := methodName, pb_data_ := pb_data }) {}
        = { msg_id_ := msg_id, method_name_ := methodName, error_code_ := 0, pb_data_ := reply } := by
      simp only [RpcDispatcher.dispatch, received, if_neg htype, show d.lookup methodName = _ from hd,
        Order.makeOrder, hparse, Option.map_some, hreply]
    rw [hdispatch]
    exact ⟨rfl, hread⟩
  · intro hutf
    rw [if_neg (by rw [hutf]; exact Bool.false_ne_true)] at hparse
    have hdispatch : d.dispatch conn (received
          { msg_id_ := msg_id, method_name_ := methodName, pb_data_ := pb_data }) {}
        = { msg_id_ := msg_id, method_name_ := methodName,
            error_code_ := ERROR_FAILED_DESERIALIZE } := by
      simp only [RpcDispatcher.dispatch, received, if_neg htype, show d.lookup methodName = _ from hd,
        Order.makeOrder, hparse, Option.map_none]
    rw [hdispatch]
    exact ⟨rfl, rfl⟩

/-! ## From end to end -/

namespace ConnectionPair

variable {K : Type}

/-- What the callback of a `makeOrder` is given. -/
theorem Inv.replied {set : Setting} {s : ConnectionPair K} (h : Inv OrderMessage set s)
    (hanswered : AnsweredBy (ServesOrder rt) set s) (hx : Exchange s) {i : Invocation K}
    (hi : i ∈ s.client.invoked) {request : TinyPBProtocol}
    (hpushed : (request, i.done) ∈ s.client.pushed)
    (hcall : makeOrderCall rt i.msg_id price goods = some request) :
    Replied rt price goods i.message := by
  obtain ⟨e, hsent, hentry, response, he, hmessage⟩ := h.answer_of_invoked hx hi
  have hid : request.msg_id_ = i.msg_id := by
    obtain ⟨pb_data, -, rfl⟩ := Option.map_eq_some_iff.mp hcall
    rfl
  obtain rfl : e = (request, i.done) := Inv.request_unique hx (h.pushed_of_sent hsent) hpushed
    ((congrArg Prod.fst hentry).trans hid.symm)
  obtain ⟨d, hd, hresponse⟩ := hanswered _ he
  have hreplied := dispatch_makeOrder hd set.peer hcall (hx.requests _ hpushed).frame_le
  rw [hmessage, show response = _ from hresponse]
  exact ⟨hreplied.accepted, hreplied.refused⟩

/-- **Every `makeOrder` that is called back has its own response**, whatever
the interleaving, among whatever other calls. -/
theorem makeOrder_delivered (set : Setting) {s : ConnectionPair K}
    (hruns : Runs (fun s (l : PairStep K OrderMessage) => s.step set l) (Meets (ServesOrder rt))
      {} s)
    (hx : Exchange s) {i : Invocation K} (hi : i ∈ s.client.invoked) {request : TinyPBProtocol}
    (hpushed : (request, i.done) ∈ s.client.pushed)
    (hcall : makeOrderCall rt i.msg_id price goods = some request) :
    Replied rt price goods i.message := by
  have hinv : Inv OrderMessage set s :=
    hruns.invariant_of (H := Exchange) (fun _ _ _ hs hx => hx.back hs)
      (fun _ _ _ h hx hs => h.step (hx.back hs) hs) inv_init hx
  have hanswered : AnsweredBy (ServesOrder rt) set s :=
    hruns.invariant (fun _ _ _ h hok hs => h.step hok hs) fun e he => nomatch he
  exact hinv.replied hanswered hx hi hpushed hcall

/-- A server with the service. -/
def orderServer : RpcDispatcher OrderMessage :=
  (RpcDispatcher.registerService ⟨∅⟩ ⟨Bytes.ofString "127.0.0.1", 8080, []⟩ (.finite 0)
    (Order .wire)).1

def lowPriceCall : TinyPBProtocol where
  msg_id_ := Bytes.ofString "1"
  method_name_ := methodName
  pb_data_ := [8, 5, 18, 5, 115, 104, 111, 101, 115]

/-- A call with a price that is too low, from a client that reads the reply in
two pieces. -/
def lowPrice : List (PairStep ℕ OrderMessage) :=
  [.push lowPriceCall 7, .enable, .client .sendMessage, .client .encode, .client (.write (.written 48)),
    .client .disableWriting, .serverRead 48, .serverParse (fun _ => orderServer),
    .finish 0 (fun _ => orderServer), .regSend, .server .sendMessage,
    .server (.write (.written 65)), .server .disableWriting, .clientRead 40, .clientParse,
    .clientRead 25, .clientParse]

theorem makeOrder_delivered_lowPrice :
    ∃ s : ConnectionPair ℕ, s.client.invoked.map Invocation.entry = [(Bytes.ofString "1", 7)] ∧
      ∀ i ∈ s.client.invoked, Replied .wire 5 (Bytes.ofString "shoes") i.message := by
  have hmeets : ∀ l ∈ lowPrice, ∀ s, Meets (ServesOrder .wire) s l := by
    have horder : ServesOrder .wire orderServer := servesOrder_registerService _ _ _ _
    simp [lowPrice, Meets, horder]
  obtain ⟨s, hruns, h⟩ : ∃ s, Runs (fun s (l : PairStep ℕ OrderMessage) => s.step ⟨.trap, 1, {}⟩ l)
      (Meets (ServesOrder .wire)) {} s ∧
      (decide (Exchange s) && s.client.invoked.map Invocation.entry == [(Bytes.ofString "1", 7)]
        && s.client.pushed == [(lowPriceCall, 7)]) = true :=
    exists_of_execute_of lowPrice hmeets (by decide +kernel)
  rw [Bool.and_eq_true, Bool.and_eq_true, decide_eq_true_eq, beq_iff_eq, beq_iff_eq] at h
  obtain ⟨⟨hx, hinvoked⟩, hpushed⟩ := h
  refine ⟨s, hinvoked, fun i hi => ?_⟩
  have hentry : i.entry ∈ [(Bytes.ofString "1", 7)] := hinvoked ▸ List.mem_map_of_mem hi
  obtain ⟨hid, hdone⟩ := Prod.mk.inj (List.mem_singleton.mp hentry)
  refine makeOrder_delivered ⟨.trap, 1, {}⟩ hruns hx hi ?_ (?_ : _ = some lowPriceCall)
  · rw [hdone, hpushed]
    exact List.mem_singleton_self _
  · rw [hid]
    decide +kernel

end ConnectionPair

end PbRpc
