import Mathlib.Data.List.AList
import PbRpc.CxxString
import PbRpc.RpcController
import PbRpc.TinyPBCoder

/-!
# The dispatcher

`dispatch` answers one request: it splits the method's full name into a
service and a method, looks both up, and calls the method between a
`ParseFromString` and a `SerializeToString`. `registerService` puts a
service into the map that `dispatch` looks in, and publishes its address.

The services themselves, and their messages, are the business of the
application and of protobuf: a method is what it does with the bytes of a
request.

Three places derive a service's name on their own. The server publishes and
registers it under the descriptor's full name; `dispatch` and the client
take what is before the first dot of the *method's* full name. The two are
the same exactly when the service is in no package (`namesAgree_iff`).
-/

namespace PbRpc

variable {Message : Type}

/-- **A method** of a service, with the messages it works on. -/
structure MethodDescriptor (Message : Type) where
  name : Bytes
  /-- `ParseFromString` of its request message. -/
  parseFromString : Bytes → Option Message
  /-- `CallMethod`. -/
  callMethod : RpcController → Message → Message
  /-- `SerializeToString` of its response message. -/
  serializeToString : Message → Option Bytes

/-- **A service**, as its descriptor gives it. -/
structure Service (Message : Type) where
  full_name : Bytes
  methods : List (MethodDescriptor Message)

def Service.FindMethodByName (s : Service Message) (name : Bytes) :
    Option (MethodDescriptor Message) :=
  s.methods.find? (fun m => m.name = name)

/-- What the code reads of its configuration to publish a service. -/
structure CConfig where
  ip_ : Bytes
  port_ : ℤ
  etcd_base_dir_ : Bytes

/-- **The dispatcher**: the services by name. -/
structure RpcDispatcher (Message : Type) where
  service_map_ : AList (fun _ : Bytes => Service Message)

namespace RpcDispatcher

/-- The service and the method of a full name: what is before the first dot,
and what is behind it. -/
def parseServiceFullName (full_name : Bytes) : Option (Bytes × Bytes) :=
  if full_name.isEmpty then none
  else
    match full_name.idxOf? dot with
    | none => none
    | some i => some (full_name.take i, (full_name.drop (i + 1)).take (full_name.length - i - 1))

/-- The lookups of `dispatch`. A method that is not found is reported as a
service that is not found. -/
def lookup (d : RpcDispatcher Message) (method_full_name : Bytes) :
    Except Int32 (Service Message × MethodDescriptor Message) :=
  match parseServiceFullName method_full_name with
  | none => .error ERROR_PARSE_SERVICE_NAME
  | some (service_name, method_name) =>
    match d.service_map_.lookup service_name with
    | none => .error ERROR_SERVICE_NOT_FOUND
    | some service =>
      match service.FindMethodByName method_name with
      | none => .error ERROR_SERVICE_NOT_FOUND
      | some method => .ok (service, method)

/-- **`dispatch`**: the response to a request from the peer `conn`. -/
def dispatch (d : RpcDispatcher Message) (conn : InterAddress) (request respond : TinyPBProtocol) :
    TinyPBProtocol :=
  let rsp := { respond with
    msg_type_ := request.msg_type_
    msg_id_ := request.msg_id_
    method_name_ := request.method_name_ }
  -- a heartbeat
  if rsp.msg_type_ = 1 then rsp
  else
    match d.lookup request.method_name_ with
    | .error error_code => { rsp with error_code_ := error_code }
    | .ok (_, method) =>
      match method.parseFromString request.pb_data_ with
      | none => { rsp with error_code_ := ERROR_FAILED_DESERIALIZE }
      | some req_msg =>
        let rpccontroller := (RpcController.SetPeerAddr {} conn).SetMsgId request.msg_id_
        match method.serializeToString (method.callMethod rpccontroller req_msg) with
        | none => { rsp with error_code_ := ERROR_FAILED_SERIALIZE, pb_data_ := [] }
        | some pb_data => { rsp with error_code_ := 0, pb_data_ := pb_data }

/-- The response carries the id of the request. -/
@[simp] theorem msg_id_dispatch (d : RpcDispatcher Message) (conn : InterAddress)
    (request respond : TinyPBProtocol) :
    (d.dispatch conn request respond).msg_id_ = request.msg_id_ := by
  unfold dispatch
  dsimp only
  split
  case isTrue => rfl
  case isFalse =>
    split
    · rfl
    · split
      · rfl
      · split <;> rfl

/-- The key a service is published under. -/
def registryKey (config : CConfig) (service_name : Bytes) : Bytes :=
  config.etcd_base_dir_ ++ slash :: (service_name ++ slash
    :: (config.ip_ ++ minus :: toStringInt config.port_))

/-- The value it is published with: address and processor load. -/
def registryValue (config : CConfig) (cpu_usage : Double) : Bytes :=
  config.ip_ ++ colon :: (toStringInt config.port_ ++ underscore :: toStringDouble cpu_usage)

/-- **`registerService`**: the dispatcher with the service in its map, and
the key and value that are published. -/
def registerService (d : RpcDispatcher Message) (config : CConfig) (cpu_usage : Double)
    (service : Service Message) : RpcDispatcher Message × Bytes × Bytes :=
  (⟨d.service_map_.insert service.full_name service⟩,
    registryKey config service.full_name, registryValue config cpu_usage)

end RpcDispatcher

/-- The service name `RpcChannel::CallMethod` looks for a server of. -/
def RpcChannel.serverMethod (full_name : Bytes) : Bytes :=
  full_name.take (full_name.idxOf dot)

/-! ## Names -/

def isIdentifierChar (c : UInt8) : Bool :=
  isDigit c || (97 ≤ lower c && lower c ≤ 122) || c == underscore

/-- **An identifier** of a proto file. -/
structure Identifier where
  chars : Bytes
  ne_nil : chars ≠ []
  valid : ∀ c ∈ chars, isIdentifierChar c = true
  head_not_digit : ∀ c ∈ chars.head?, isDigit c = false

theorem Identifier.dot_notMem (i : Identifier) : dot ∉ i.chars :=
  fun h => absurd (i.valid dot h) (by decide)

/-- The full name of a service: the identifiers of its package and its own,
joined by dots. -/
def serviceFullName (package : List Identifier) (name : Identifier) : Bytes :=
  [dot].intercalate ((package ++ [name]).map Identifier.chars)

/-- The full name of a method of a service. -/
def methodFullName (service method : Bytes) : Bytes := service ++ dot :: method

theorem serviceFullName_nil (name : Identifier) : serviceFullName [] name = name.chars := by
  simp [serviceFullName, List.intercalate]

theorem serviceFullName_cons (p : Identifier) (package : List Identifier) (name : Identifier) :
    serviceFullName (p :: package) name = p.chars ++ dot :: serviceFullName package name := by
  unfold serviceFullName
  cases package <;> simp [List.intercalate, List.intersperse]

open RpcDispatcher

theorem idxOf?_dot {s : Bytes} (h : dot ∉ s) (t : Bytes) :
    (s ++ dot :: t).idxOf? dot = some s.length := by
  induction s with
  | nil => rfl
  | cons c s ih =>
    have hc : (c == dot) = false := by
      rw [beq_eq_false_iff_ne]
      rintro rfl
      exact h (List.mem_cons_self ..)
    rw [List.cons_append, List.idxOf?_cons, hc,
      ih (fun hmem => h (List.mem_cons_of_mem c hmem))]
    rfl

/-- The name is cut at its first dot. -/
theorem RpcDispatcher.parseServiceFullName_of_dot {S m : Bytes} (hS : dot ∉ S) :
    parseServiceFullName (S ++ dot :: m) = some (S, m) := by
  have hne : ¬ (S ++ dot :: m).isEmpty = true := by
    rw [List.isEmpty_iff]
    exact List.append_ne_nil_of_right_ne_nil _ (List.cons_ne_nil _ _)
  have hdrop : (S ++ dot :: m).drop (S.length + 1) = m := by
    rw [← List.drop_drop, List.drop_left, List.drop_succ_cons, List.drop_zero]
  rw [parseServiceFullName, if_neg hne, idxOf?_dot hS]
  dsimp only
  rw [hdrop, List.take_left, List.take_of_length_le (by
    rw [List.length_append, List.length_cons]
    omega)]

/-- **The server takes what is before the first dot.** -/
theorem parseServiceFullName_append (i : Identifier) (rest : Bytes) :
    parseServiceFullName (i.chars ++ dot :: rest) = some (i.chars, rest) :=
  parseServiceFullName_of_dot i.dot_notMem

/-- **So does the client.** -/
theorem serverMethod_append (i : Identifier) (rest : Bytes) :
    RpcChannel.serverMethod (i.chars ++ dot :: rest) = i.chars := by
  rw [RpcChannel.serverMethod, List.idxOf_append_of_notMem i.dot_notMem, List.idxOf_cons_self,
    Nat.add_zero, List.take_left]

/-- **The three names agree** on a service `S` with a method `m`: the full
name of the method is split into the two, a dispatcher in which `S` is
registered finds the method, and the client looks for a server of `S`, which
is the name in the key that was published. -/
structure NamesAgree (Message : Type) (S m : Bytes) : Prop where
  parse : parseServiceFullName (methodFullName S m) = some (S, m)
  dispatch : ∀ (d : RpcDispatcher Message) (config : CConfig) (cpu_usage : Double)
    (service : Service Message) (method : MethodDescriptor Message), service.full_name = S →
    service.FindMethodByName m = some method →
    (d.registerService config cpu_usage service).1.lookup (methodFullName S m)
      = .ok (service, method)
  client : RpcChannel.serverMethod (methodFullName S m) = S
  published : ∀ (d : RpcDispatcher Message) (config : CConfig) (cpu_usage : Double)
    (service : Service Message), service.full_name = S →
    (d.registerService config cpu_usage service).2.1
      = registryKey config (RpcChannel.serverMethod (methodFullName S m))

/-- **The names agree exactly for a service in no package.** -/
theorem namesAgree_iff (Message : Type) (package : List Identifier) (name method : Identifier) :
    NamesAgree Message (serviceFullName package name) method.chars ↔ package = [] := by
  constructor
  · intro h
    cases package with
    | nil => rfl
    | cons p package =>
      -- the server sees the first identifier of the package only
      have hparse := h.parse
      rw [serviceFullName_cons, methodFullName, List.append_assoc, List.cons_append,
        parseServiceFullName_append, Option.some.injEq, Prod.mk.injEq] at hparse
      exact absurd (List.append_right_eq_self.mp hparse.1.symm) (List.cons_ne_nil _ _)
  · rintro rfl
    rw [serviceFullName_nil]
    refine ⟨parseServiceFullName_append _ _, ?_, serverMethod_append _ _, ?_⟩
    · rintro d config cpu_usage service desc hname hmethod
      rw [RpcDispatcher.lookup, methodFullName, parseServiceFullName_append]
      dsimp only
      rw [registerService, ← hname, AList.lookup_insert]
      dsimp only
      rw [hmethod]
    · rintro d config cpu_usage service hname
      rw [methodFullName, serverMethod_append, ← hname]
      rfl

/-- The identifier of a string of letters. -/
def Identifier.ofLetters (s : String) (h : Bytes.ofString s ≠ [])
    (hv : ∀ c ∈ Bytes.ofString s, isIdentifierChar c = true)
    (hd : ∀ c ∈ (Bytes.ofString s).head?, isDigit c = false) : Identifier :=
  ⟨Bytes.ofString s, h, hv, hd⟩

/-- In a package, the server looks for a service by the name of the
package. -/
theorem not_namesAgree_shop :
    parseServiceFullName (Bytes.ofString "shop.Order.makeOrder")
        = some (Bytes.ofString "shop", Bytes.ofString "Order.makeOrder")
      ∧ ¬ NamesAgree Unit
        (serviceFullName
          [.ofLetters "shop" (by decide +kernel) (by decide +kernel) (by decide +kernel)]
          (.ofLetters "Order" (by decide +kernel) (by decide +kernel) (by decide +kernel)))
        (Bytes.ofString "makeOrder") := by
  refine ⟨by decide, fun h => ?_⟩
  have hparse := h.parse
  exact absurd hparse (by decide)

end PbRpc
