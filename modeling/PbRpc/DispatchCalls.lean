import PbRpc.RpcDispatcher

/-!
# What the error code of a response tells

A client learns of a failure by the error code of the response and by nothing
else. Here `dispatch` also tells which methods it has called, and `Answers`
says what the code should be at each of its exits, with what has been called
and put into the response by then.

Two of the exits give the same code: a registered service without the method is
reported as a service that is not there. `ERROR_METHOD_NOT_FOUND` is never set.
Every other exit is as it should be (`answers_iff`).
-/

namespace PbRpc

variable {Message : Type}

/-- **A call of a service method**, with what it is given. -/
structure MethodCall (Message : Type) where
  method : MethodDescriptor Message
  controller : RpcController
  request : Message

/-- The response of the method, serialised. -/
def MethodCall.response (call : MethodCall Message) : Option Bytes :=
  call.method.serializeToString (call.method.callMethod call.controller call.request)

namespace RpcDispatcher

/-- What `dispatch` copies before it looks at the type. -/
def copied (request respond : TinyPBProtocol) : TinyPBProtocol :=
  { respond with
    msg_type_ := request.msg_type_
    msg_id_ := request.msg_id_
    method_name_ := request.method_name_ }

/-- The controller a method is given. -/
def controllerOf (conn : InterAddress) (request : TinyPBProtocol) : RpcController :=
  (RpcController.SetPeerAddr {} conn).SetMsgId request.msg_id_

/-- The response after a call. -/
def answer (rsp : TinyPBProtocol) (call : MethodCall Message) : TinyPBProtocol :=
  match call.response with
  | none => { rsp with error_code_ := ERROR_FAILED_SERIALIZE, pb_data_ := [] }
  | some pb_data => { rsp with error_code_ := 0, pb_data_ := pb_data }

/-- **`dispatch` with its calls**: the response, and the methods that were
called. -/
def dispatchCalls (d : RpcDispatcher Message) (conn : InterAddress)
    (request respond : TinyPBProtocol) : TinyPBProtocol × List (MethodCall Message) :=
  let rsp := copied request respond
  if rsp.msg_type_ = 1 then (rsp, [])
  else
    match d.lookup request.method_name_ with
    | .error error_code => ({ rsp with error_code_ := error_code }, [])
    | .ok (_, method) =>
      match method.parseFromString request.pb_data_ with
      | none => ({ rsp with error_code_ := ERROR_FAILED_DESERIALIZE }, [])
      | some req_msg =>
        let call : MethodCall Message := ⟨method, controllerOf conn request, req_msg⟩
        (answer rsp call, [call])

section

variable (d : RpcDispatcher Message) (conn : InterAddress) {request : TinyPBProtocol}
  (respond : TinyPBProtocol)

theorem dispatchCalls_heartbeat (h : request.msg_type_ = 1) :
    d.dispatchCalls conn request respond = (copied request respond, []) :=
  if_pos h

theorem dispatchCalls_of_error (hcall : request.msg_type_ ≠ 1) {error_code : Int32}
    (h : d.lookup request.method_name_ = .error error_code) :
    d.dispatchCalls conn request respond
      = ({ copied request respond with error_code_ := error_code }, []) := by
  refine (if_neg hcall).trans ?_
  rw [h]

theorem dispatchCalls_of_noRequest (hcall : request.msg_type_ ≠ 1) {service : Service Message}
    {method : MethodDescriptor Message} (h : d.lookup request.method_name_ = .ok (service, method))
    (hparse : method.parseFromString request.pb_data_ = none) :
    d.dispatchCalls conn request respond
      = ({ copied request respond with error_code_ := ERROR_FAILED_DESERIALIZE }, []) := by
  refine (if_neg hcall).trans ?_
  rw [h]
  dsimp only
  rw [hparse]

theorem dispatchCalls_of_call (hcall : request.msg_type_ ≠ 1) {service : Service Message}
    {method : MethodDescriptor Message} (h : d.lookup request.method_name_ = .ok (service, method))
    {req_msg : Message} (hparse : method.parseFromString request.pb_data_ = some req_msg) :
    d.dispatchCalls conn request respond
      = (answer (copied request respond) ⟨method, controllerOf conn request, req_msg⟩,
        [⟨method, controllerOf conn request, req_msg⟩]) := by
  refine (if_neg hcall).trans ?_
  rw [h]
  dsimp only
  rw [hparse]

/-- The response is the one of `dispatch`. -/
theorem fst_dispatchCalls :
    (d.dispatchCalls conn request respond).1 = d.dispatch conn request respond := by
  by_cases hcall : request.msg_type_ = 1
  · rw [dispatchCalls_heartbeat d conn respond hcall]
    exact (if_pos hcall).symm
  · refine Eq.trans ?_ (if_neg hcall).symm
    cases h : d.lookup request.method_name_ with
    | error error_code => rw [dispatchCalls_of_error d conn respond hcall h]; rfl
    | ok found =>
      dsimp only
      cases hparse : found.2.parseFromString request.pb_data_ with
      | none => rw [dispatchCalls_of_noRequest d conn respond hcall h hparse]; rfl
      | some req_msg =>
        rw [dispatchCalls_of_call d conn respond hcall h hparse]
        unfold answer MethodCall.response
        dsimp only [controllerOf]
        cases found.2.serializeToString (found.2.callMethod
            ((RpcController.SetPeerAddr {} conn).SetMsgId request.msg_id_) req_msg) with
        | none => rfl
        | some pb_data => rfl

end

/-! ## The exits -/

section

variable (d : RpcDispatcher Message) {name S m : Bytes} {service : Service Message}

/-- Without a dot there is no service name. -/
theorem parseServiceFullName_of_notMem (h : dot ∉ name) : parseServiceFullName name = none := by
  unfold parseServiceFullName
  split
  · rfl
  · rw [List.idxOf?_eq_none_iff.mpr h]

theorem lookup_of_notMem (h : dot ∉ name) : d.lookup name = .error ERROR_PARSE_SERVICE_NAME := by
  rw [lookup, parseServiceFullName_of_notMem h]

theorem lookup_of_noService (hS : dot ∉ S) (h : d.service_map_.lookup S = none) :
    d.lookup (S ++ dot :: m) = .error ERROR_SERVICE_NOT_FOUND := by
  rw [lookup, parseServiceFullName_of_dot hS]
  dsimp only
  rw [h]

/-- **A method that is not there** is reported as a service. -/
theorem lookup_of_noMethod (hS : dot ∉ S) (h : d.service_map_.lookup S = some service)
    (hm : service.FindMethodByName m = none) :
    d.lookup (S ++ dot :: m) = .error ERROR_SERVICE_NOT_FOUND := by
  rw [lookup, parseServiceFullName_of_dot hS]
  dsimp only
  rw [h]
  dsimp only
  rw [hm]

theorem lookup_of_method (hS : dot ∉ S) (h : d.service_map_.lookup S = some service)
    {method : MethodDescriptor Message} (hm : service.FindMethodByName m = some method) :
    d.lookup (S ++ dot :: m) = .ok (service, method) := by
  rw [lookup, parseServiceFullName_of_dot hS]
  dsimp only
  rw [h]
  dsimp only
  rw [hm]

end

/-- A request calls the method `m` of a service `S`. -/
structure Names (request : TinyPBProtocol) (S m : Bytes) : Prop where
  call : request.msg_type_ ≠ 1
  dot_notMem : dot ∉ S
  name : request.method_name_ = S ++ dot :: m

/-- A name with a dot in it names a service and a method, and only one. -/
theorem exists_names {request : TinyPBProtocol} (hcall : request.msg_type_ ≠ 1)
    (h : dot ∈ request.method_name_) : ∃ S m, Names request S m := by
  obtain ⟨S, m, hname, hS⟩ := List.eq_append_cons_of_mem h
  exact ⟨S, m, hcall, hS, hname⟩

theorem Names.unique {request : TinyPBProtocol} {S m S' m' : Bytes} (h : Names request S m)
    (h' : Names request S' m') : S = S' ∧ m = m' := by
  have heq := (parseServiceFullName_of_dot (m := m) h.dot_notMem).symm.trans
    ((congrArg parseServiceFullName (h.name.symm.trans h'.name)).trans
      (parseServiceFullName_of_dot h'.dot_notMem))
  exact Prod.mk.inj (Option.some.inj heq)

/-- **The three kinds of exits**: a heartbeat, an error before the call, and
the call. -/
theorem dispatchCalls_cases (d : RpcDispatcher Message) (conn : InterAddress)
    (request respond : TinyPBProtocol) :
    (request.msg_type_ = 1 ∧ d.dispatchCalls conn request respond = (copied request respond, []))
      ∨ (request.msg_type_ ≠ 1 ∧ ∃ error_code, error_code ≠ 0 ∧
        d.dispatchCalls conn request respond
          = ({ copied request respond with error_code_ := error_code }, []))
      ∨ ∃ S m service method req_msg, Names request S m ∧ d.service_map_.lookup S = some service ∧
        service.FindMethodByName m = some method ∧
        method.parseFromString request.pb_data_ = some req_msg ∧
        d.dispatchCalls conn request respond
          = (answer (copied request respond) ⟨method, controllerOf conn request, req_msg⟩,
            [⟨method, controllerOf conn request, req_msg⟩]) := by
  by_cases hcall : request.msg_type_ = 1
  · exact .inl ⟨hcall, dispatchCalls_heartbeat d conn respond hcall⟩
  refine .inr ?_
  by_cases hdot : dot ∈ request.method_name_
  · obtain ⟨S, m, h⟩ := exists_names hcall hdot
    cases hservice : d.service_map_.lookup S with
    | none =>
      refine .inl ⟨hcall, ERROR_SERVICE_NOT_FOUND, by decide, ?_⟩
      exact dispatchCalls_of_error d conn respond hcall
        (h.name ▸ d.lookup_of_noService h.dot_notMem hservice)
    | some service =>
      cases hmethod : service.FindMethodByName m with
      | none =>
        refine .inl ⟨hcall, ERROR_SERVICE_NOT_FOUND, by decide, ?_⟩
        exact dispatchCalls_of_error d conn respond hcall
          (h.name ▸ d.lookup_of_noMethod h.dot_notMem hservice hmethod)
      | some method =>
        have hlookup := d.lookup_of_method h.dot_notMem hservice hmethod
        rw [← h.name] at hlookup
        cases hparse : method.parseFromString request.pb_data_ with
        | none =>
          refine .inl ⟨hcall, ERROR_FAILED_DESERIALIZE, by decide, ?_⟩
          exact dispatchCalls_of_noRequest d conn respond hcall hlookup hparse
        | some req_msg =>
          exact .inr ⟨S, m, service, method, req_msg, h, hservice, hmethod, hparse,
            dispatchCalls_of_call d conn respond hcall hlookup hparse⟩
  · exact .inl ⟨hcall, ERROR_PARSE_SERVICE_NAME, by decide,
      dispatchCalls_of_error d conn respond hcall (d.lookup_of_notMem hdot)⟩

/-! ## What the response says -/

/-- What was copied is not changed by the call. -/
theorem copied_answer (rsp : TinyPBProtocol) (call : MethodCall Message) :
    (answer rsp call).msg_id_ = rsp.msg_id_ ∧ (answer rsp call).msg_type_ = rsp.msg_type_ ∧
      (answer rsp call).method_name_ = rsp.method_name_ := by
  unfold answer
  split <;> exact ⟨rfl, rfl, rfl⟩

/-- After a call the code is 0 exactly when there is a response. -/
theorem error_code_answer (rsp : TinyPBProtocol) (call : MethodCall Message) :
    (answer rsp call).error_code_ = 0 ↔ call.response = some (answer rsp call).pb_data_ := by
  unfold answer
  split
  case h_1 h =>
    rw [h]
    have hcode : ERROR_FAILED_SERIALIZE ≠ 0 := by decide
    exact iff_of_false hcode (Option.some_ne_none _).symm
  case h_2 pb_data h =>
    rw [h]
    exact iff_of_true rfl rfl

/-- No method was called, and the response has no data. -/
structure NotCalled (r : TinyPBProtocol × List (MethodCall Message)) : Prop where
  calls : r.2 = []
  pb_data : r.1.pb_data_ = []

/-- **What a response should tell** of its request, at every exit. -/
structure Answers (d : RpcDispatcher Message) (conn : InterAddress) (request : TinyPBProtocol)
    (r : TinyPBProtocol × List (MethodCall Message)) : Prop where
  msg_id : r.1.msg_id_ = request.msg_id_
  msg_type : r.1.msg_type_ = request.msg_type_
  method_name : r.1.method_name_ = request.method_name_
  heartbeat : request.msg_type_ = 1 → r.2 = [] ∧ r.1.error_code_ = 0
  one_call : r.2.length ≤ 1
  no_dot : request.msg_type_ ≠ 1 → dot ∉ request.method_name_ →
    r.1.error_code_ = ERROR_PARSE_SERVICE_NAME ∧ NotCalled r
  no_service : ∀ S m, Names request S m → d.service_map_.lookup S = none →
    r.1.error_code_ = ERROR_SERVICE_NOT_FOUND ∧ NotCalled r
  no_method : ∀ S m service, Names request S m → d.service_map_.lookup S = some service →
    service.FindMethodByName m = none → r.1.error_code_ = ERROR_METHOD_NOT_FOUND ∧ NotCalled r
  no_request : ∀ S m service method, Names request S m →
    d.service_map_.lookup S = some service → service.FindMethodByName m = some method →
    method.parseFromString request.pb_data_ = none →
    r.1.error_code_ = ERROR_FAILED_DESERIALIZE ∧ NotCalled r
  no_response : ∀ S m service method req_msg, Names request S m →
    d.service_map_.lookup S = some service → service.FindMethodByName m = some method →
    method.parseFromString request.pb_data_ = some req_msg →
    MethodCall.response ⟨method, controllerOf conn request, req_msg⟩ = none →
    r.1.error_code_ = ERROR_FAILED_SERIALIZE
  /-- The call that is made is the one that the request asks for. -/
  called : ∀ call ∈ r.2, ∃ S m service, Names request S m ∧
    d.service_map_.lookup S = some service ∧ service.FindMethodByName m = some call.method ∧
    call.method.parseFromString request.pb_data_ = some call.request ∧
    call.controller = controllerOf conn request
  success : request.msg_type_ ≠ 1 →
    (r.1.error_code_ = 0 ↔ ∃ call, r.2 = [call] ∧ call.response = some r.1.pb_data_)

/-- The service is registered and has no such method. -/
def MissesMethod (d : RpcDispatcher Message) (request : TinyPBProtocol) : Prop :=
  ∃ S m service, Names request S m ∧ d.service_map_.lookup S = some service ∧
    service.FindMethodByName m = none

section

variable (d : RpcDispatcher Message) (conn : InterAddress) (request : TinyPBProtocol)

theorem msg_id_dispatchCalls (respond : TinyPBProtocol) :
    (d.dispatchCalls conn request respond).1.msg_id_ = request.msg_id_ := by
  rw [fst_dispatchCalls, msg_id_dispatch]

/-- The type and the name are copied at every exit. -/
theorem copied_dispatchCalls (respond : TinyPBProtocol) :
    (d.dispatchCalls conn request respond).1.msg_type_ = request.msg_type_ ∧
      (d.dispatchCalls conn request respond).1.method_name_ = request.method_name_ := by
  rcases d.dispatchCalls_cases conn request respond with
    ⟨-, h⟩ | ⟨-, error_code, -, h⟩ | ⟨S, m, service, method, req_msg, -, -, -, -, h⟩
  · rw [h]
    exact ⟨rfl, rfl⟩
  · rw [h]
    exact ⟨rfl, rfl⟩
  · rw [h]
    exact (copied_answer _ _).2

theorem length_calls_le (respond : TinyPBProtocol) :
    (d.dispatchCalls conn request respond).2.length ≤ 1 := by
  rcases d.dispatchCalls_cases conn request respond with
    ⟨-, h⟩ | ⟨-, error_code, -, h⟩ | ⟨S, m, service, method, req_msg, -, -, -, -, h⟩
  · rw [h]
    exact Nat.zero_le 1
  · rw [h]
    exact Nat.zero_le 1
  · rw [h]
    exact le_rfl

/-- **The method that is called** is the one that is named, on the request
that was sent. -/
theorem called_dispatchCalls (respond : TinyPBProtocol) :
    ∀ call ∈ (d.dispatchCalls conn request respond).2, ∃ S m service, Names request S m ∧
      d.service_map_.lookup S = some service ∧ service.FindMethodByName m = some call.method ∧
      call.method.parseFromString request.pb_data_ = some call.request ∧
      call.controller = controllerOf conn request := by
  intro call hmem
  rcases d.dispatchCalls_cases conn request respond with ⟨-, h⟩ | ⟨-, error_code, -, h⟩ |
    ⟨S, m, service, method, req_msg, hnames, hservice, hmethod, hparse, h⟩
  · rw [h] at hmem
    cases hmem
  · rw [h] at hmem
    cases hmem
  · rw [h] at hmem
    rw [List.mem_singleton.mp hmem]
    exact ⟨S, m, service, hnames, hservice, hmethod, hparse, rfl⟩

/-- **The code 0 is a response.** -/
theorem success_dispatchCalls (respond : TinyPBProtocol) (hcall : request.msg_type_ ≠ 1) :
    (d.dispatchCalls conn request respond).1.error_code_ = 0 ↔
      ∃ call, (d.dispatchCalls conn request respond).2 = [call] ∧
        call.response = some (d.dispatchCalls conn request respond).1.pb_data_ := by
  rcases d.dispatchCalls_cases conn request respond with
    ⟨htype, -⟩ | ⟨-, error_code, hne, h⟩ | ⟨S, m, service, method, req_msg, -, -, -, -, h⟩
  · exact absurd htype hcall
  · rw [h]
    refine iff_of_false hne ?_
    rintro ⟨call, hnil, -⟩
    exact absurd hnil (List.cons_ne_nil _ _).symm
  · rw [h]
    dsimp only
    rw [error_code_answer]
    constructor
    · intro hresponse
      exact ⟨_, rfl, hresponse⟩
    · rintro ⟨call, hsame, hresponse⟩
      obtain rfl := List.singleton_inj.mp hsame
      exact hresponse

/-- An error before the call, with a new response. -/
theorem notCalled_of_error {error_code : Int32} {r : TinyPBProtocol × List (MethodCall Message)}
    (h : r = ({ copied request {} with error_code_ := error_code }, [])) :
    r.1.error_code_ = error_code ∧ NotCalled r := by
  rw [h]
  exact ⟨rfl, rfl, rfl⟩

/-- **A response tells what it should exactly when no method is missing** from
a service that is registered. -/
theorem answers_iff :
    Answers d conn request (d.dispatchCalls conn request {}) ↔ ¬ MissesMethod d request := by
  constructor
  · rintro h ⟨S, m, service, hnames, hservice, hmethod⟩
    -- the code that is set is that of a missing service
    have hlookup := d.lookup_of_noMethod hnames.dot_notMem hservice hmethod
    rw [← hnames.name] at hlookup
    have hcode := (h.no_method S m service hnames hservice hmethod).1
    rw [(notCalled_of_error request (dispatchCalls_of_error d conn {} hnames.call hlookup)).1]
      at hcode
    exact absurd hcode (by decide)
  · intro hfinds
    exact {
      msg_id := d.msg_id_dispatchCalls conn request {}
      msg_type := (d.copied_dispatchCalls conn request {}).1
      method_name := (d.copied_dispatchCalls conn request {}).2
      heartbeat := fun htype => by
        rw [dispatchCalls_heartbeat d conn {} htype]
        exact ⟨rfl, rfl⟩
      one_call := d.length_calls_le conn request {}
      no_dot := fun hcall hdot => notCalled_of_error request
        (dispatchCalls_of_error d conn {} hcall (d.lookup_of_notMem hdot))
      no_service := fun S m h hservice => notCalled_of_error request
        (dispatchCalls_of_error d conn {} h.call
          (h.name ▸ d.lookup_of_noService h.dot_notMem hservice))
      no_method := fun S m service h hservice hmethod =>
        absurd ⟨S, m, service, h, hservice, hmethod⟩ hfinds
      no_request := fun S m service method h hservice hmethod hparse =>
        notCalled_of_error request (dispatchCalls_of_noRequest d conn {} h.call
          (h.name ▸ d.lookup_of_method h.dot_notMem hservice hmethod) hparse)
      no_response := fun S m service method req_msg h hservice hmethod hparse hresponse => by
        have hlookup := d.lookup_of_method h.dot_notMem hservice hmethod
        rw [← h.name] at hlookup
        rw [dispatchCalls_of_call d conn {} h.call hlookup hparse, answer, hresponse]
      called := d.called_dispatchCalls conn request {}
      success := d.success_dispatchCalls conn request {} }

end

/-- A service with no method at all, registered. -/
def emptyService : RpcDispatcher Unit := ⟨AList.singleton [65] ⟨[65], []⟩⟩

/-- A request for the method `m` of the service `A`. -/
def methodRequest : TinyPBProtocol := { method_name_ := [65, dot, 109] }

/-- **A missing method looks like a missing service.** -/
theorem not_answers :
    MissesMethod emptyService methodRequest
      ∧ (emptyService.dispatchCalls {} methodRequest {}).1.error_code_ = ERROR_SERVICE_NOT_FOUND
      ∧ ERROR_SERVICE_NOT_FOUND ≠ ERROR_METHOD_NOT_FOUND
      ∧ ¬ Answers emptyService {} methodRequest (emptyService.dispatchCalls {} methodRequest {}) := by
  have hmisses : MissesMethod emptyService methodRequest :=
    ⟨[65], [109], ⟨[65], []⟩, ⟨by decide, by decide, rfl⟩, rfl, rfl⟩
  have hcode : (emptyService.dispatchCalls {} methodRequest {}).1.error_code_
      = ERROR_SERVICE_NOT_FOUND := by decide +kernel
  refine ⟨hmisses, hcode, by decide, fun h => ?_⟩
  obtain ⟨S, m, service, hnames, hservice, hmethod⟩ := hmisses
  have hmissing := (h.no_method S m service hnames hservice hmethod).1
  rw [hcode] at hmissing
  exact absurd hmissing (by decide)

end RpcDispatcher

end PbRpc
