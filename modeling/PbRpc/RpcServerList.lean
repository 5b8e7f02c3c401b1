import PbRpc.RpcDispatcher
import PbRpc.ServerNode

/-!
# The list of servers

The client watches the keys under the base directory and keeps, for each
service, the nodes that were published. `callBack` gives every event to one
of two handlers, and both read the service from the key and the
address and load from the value (`parseukv`).

Seen from outside this is a keyed store: the last notification of a key
decides whether the server is there. `Store` says so, and `Mirrors` that a
server list has the same servers. It does as long as nothing is deleted:
a notification of a deletion has an empty value, so that `parseukv` finds
no address in it, and the node that is removed is not the one that went
away. The list keeps the servers that were ever there (`process_puts`), and
mirrors the store exactly when none of them is gone (`mirrors_iff`).
-/

namespace PbRpc

open RpcDispatcher

/-- The locals of a handler that `parseukv` fills in. -/
structure ServerInfo where
  cpu_usage : Double
  ip : Bytes
  port : ℤ
  method : Bytes
deriving DecidableEq, Repr

/-- What is in the locals that are not initialised. -/
structure Indeterminate where
  cpu_usage : Double
  port : ℤ

/-- The locals, before `parseukv`. -/
def Indeterminate.locals (junk : Indeterminate) : ServerInfo :=
  { cpu_usage := junk.cpu_usage, ip := [], port := junk.port, method := [] }

/-- **`parseukv`**: the service is the second segment of the key; the value
is cut at `_` into address and load, and the address at `:`. Where there are
not as many pieces as expected the rest of the locals stays as it is. -/
def parseukv (key value : Bytes) (out : ServerInfo) : Except StdException ServerInfo :=
  match parts slash key with
  | _ :: method :: _ =>
    let out := { out with method := method }
    match parts underscore value with
    | [ip, cpu_usage] => do
      let cpu_usage ← stod cpu_usage
      let out := { out with ip := ip, cpu_usage := cpu_usage }
      match parts colon ip with
      | [ip, port] => do
        let port ← stoi port
        return { out with ip := ip, port := port }
      | _ => return out
    | _ => .ok out
  | _ => .ok out

/-- **The list of servers**, by service. -/
structure RpcServerList where
  server_list : AList (fun _ : Bytes => ServerNodeManager) := ∅

namespace RpcServerList

def getServerNodeCallBack (l : RpcServerList) (junk : Indeterminate) (key value : Bytes) :
    Except StdException RpcServerList := do
  let info ← parseukv key value junk.locals
  let node : ServerNode := { cpu_usage := info.cpu_usage, ip := info.ip, port := info.port }
  match l.server_list.lookup info.method with
  | none => return ⟨l.server_list.insert info.method (ServerNodeManager.upsertNode {} node)⟩
  | some m => return ⟨l.server_list.insert info.method (m.upsertNode node)⟩

def delServerNodeCallBack (l : RpcServerList) (junk : Indeterminate) (key value : Bytes) :
    Except StdException RpcServerList := do
  let info ← parseukv key value junk.locals
  match l.server_list.lookup info.method with
  | none => return l
  | some m => return ⟨l.server_list.insert info.method (m.removeNode info.ip info.port).2⟩

end RpcServerList

/-- The type of an event of the watcher. -/
inductive EventType where
  | PUT
  | DELETE_
  | INVALID
deriving DecidableEq, Repr

/-- An event: what happened to a key. -/
structure Event where
  event_type : EventType
  key : Bytes
  value : Bytes

/-- What the watcher delivers. -/
structure Response where
  is_ok : Bool
  events : List Event

/-- A call of one of the two callbacks. -/
inductive NotifyCall where
  | put_cb (key value : Bytes)
  | del_cb (key value : Bytes)
deriving DecidableEq, Repr

/-- The calls the loop of `callBack` makes for one event. -/
def Event.calls (event : Event) : List NotifyCall :=
  match event.event_type with
  | .PUT => [.put_cb event.key event.value]
  | .DELETE_ => [.del_cb event.key event.value]
  | .INVALID => []

/-- **`RpcDiscovery::callBack`**: the calls it makes. -/
def callBack (response : Response) : List NotifyCall :=
  if response.is_ok then response.events.flatMap Event.calls else []

/-- The callbacks are the handlers of the server list. -/
def notify (l : RpcServerList) (junk : Indeterminate) :
    NotifyCall → Except StdException RpcServerList
  | .put_cb key value => l.getServerNodeCallBack junk key value
  | .del_cb key value => l.delServerNodeCallBack junk key value

/-- Calls that follow each other. Each finds its own values in the locals
that are not initialised. -/
def notifyAll (l : RpcServerList) (junk : ℕ → Indeterminate) :
    List NotifyCall → Except StdException RpcServerList
  | [] => .ok l
  | call :: calls => do
    let l ← notify l (junk 0) call
    notifyAll l (fun n => junk (n + 1)) calls

/-! ## Servers and their notifications -/

/-- **The base directory**, a path of one segment. -/
structure BaseDir where
  path : Bytes
  single : ∃ segment, parts slash path = [segment]

/-- The text of a dotted address. -/
structure IPv4 where
  text : Bytes
  ne_nil : text ≠ []
  valid : ∀ c ∈ text, isDigit c = true ∨ c = dot
deriving DecidableEq

/-- **A server**: where a service is offered. -/
structure Server where
  service : Bytes
  ip : IPv4
  port : ℤ
  service_ne_nil : service ≠ []
  slash_notMem : slash ∉ service
  port_inInt : InInt port
deriving DecidableEq

namespace Server

def config (s : Server) (base : BaseDir) : CConfig where
  ip_ := s.ip.text
  port_ := s.port
  etcd_base_dir_ := base.path

/-- The key a server is published under. -/
def registryKey (s : Server) (base : BaseDir) : Bytes :=
  RpcDispatcher.registryKey (s.config base) s.service

def nodeKey (s : Server) : Bytes := addressKey s.ip.text s.port

/-- The node of a server with a load that was published. -/
def node (s : Server) (cpu_usage : Double) : ServerNode :=
  { cpu_usage := cpu_usage.printed, ip := s.ip.text, port := s.port }

end Server

/-- **A notification** about a server's key. -/
inductive Notification where
  | put (server : Server) (cpu_usage : Double) (inRange : cpu_usage.InRange)
  | delete (server : Server)

namespace Notification

/-- The event it arrives as: a deletion carries the key and no value. -/
def event (base : BaseDir) : Notification → Event
  | put s cpu_usage _ => ⟨.PUT, s.registryKey base, registryValue (s.config base) cpu_usage⟩
  | delete s => ⟨.DELETE_, s.registryKey base, []⟩

/-- The call that is made for it. -/
def call (base : BaseDir) : Notification → NotifyCall
  | put s cpu_usage _ =>
    .put_cb (s.registryKey base) (registryValue (s.config base) cpu_usage)
  | delete s => .del_cb (s.registryKey base) []

theorem callBack_events (base : BaseDir) (batch : List Notification) :
    callBack ⟨true, batch.map (event base)⟩ = batch.map (call base) := by
  show (batch.map (event base)).flatMap Event.calls = _
  induction batch with
  | nil => rfl
  | cons n batch ih =>
    rw [List.map_cons, List.flatMap_cons, ih]
    cases n <;> rfl

end Notification

/-- **The keyed store**: the load of each server that is there. -/
abbrev Store : Type := Server → Option Double

namespace Store

def apply (store : Store) : Notification → Store
  | .put s cpu_usage _ => Function.update store s (some cpu_usage)
  | .delete s => Function.update store s none

section

variable (store : Store) {s s' : Server} {cpu_usage : Double} {hin : cpu_usage.InRange}

@[simp]
theorem apply_put_self : store.apply (.put s cpu_usage hin) s = some cpu_usage :=
  Function.update_self ..

theorem apply_put_of_ne (h : s' ≠ s) : store.apply (.put s cpu_usage hin) s' = store s' :=
  Function.update_of_ne h ..

@[simp]
theorem apply_delete_self : store.apply (.delete s) s = none :=
  Function.update_self ..

theorem apply_delete_of_ne (h : s' ≠ s) : store.apply (.delete s) s' = store s' :=
  Function.update_of_ne h ..

end

/-- The store after a history: a server is there when its last notification
was a `PUT`, with the load of that one. -/
def after (history : List Notification) : Store := history.foldl apply (fun _ => none)

/-- The store after a history without its deletions. -/
def everPut (history : List Notification) : Store :=
  after (history.filter (fun n => n matches .put ..))

end Store

namespace RpcServerList

/-- A node of a service, in the list. -/
def Live (l : RpcServerList) (service : Bytes) (node : ServerNode) : Prop :=
  ∃ m key, l.server_list.lookup service = some m ∧ m.nodeAt key = some node

/-- **The list mirrors a store**: its live nodes are the servers of the
store, each with its load. -/
def Mirrors (l : RpcServerList) (store : Store) : Prop :=
  ∀ service node, l.Live service node ↔
    ∃ s cpu_usage, s.service = service ∧ store s = some cpu_usage ∧ node = s.node cpu_usage

end RpcServerList

/-- The list after the notifications have been delivered, some in each
response. -/
def process (base : BaseDir) (junk : ℕ → ℕ → Indeterminate) (l : RpcServerList) :
    List (List Notification) → Except StdException RpcServerList
  | [] => .ok l
  | batch :: batches => do
    let l ← notifyAll l (junk 0) (callBack ⟨true, batch.map (Notification.event base)⟩)
    process base (fun n => junk (n + 1)) l batches

/-! ## What is read from a notification -/

namespace IPv4

variable (ip : IPv4) {config : CConfig}

theorem notMem {c : UInt8} (hd : isDigit c = false) (hdot : c ≠ dot) : c ∉ ip.text := by
  intro h
  rcases ip.valid c h with h | h
  · rw [hd] at h
    cases h
  · exact hdot h

theorem parts_addressKey (port : ℤ) :
    parts colon (addressKey ip.text port) = [ip.text, toStringInt port] := by
  rw [addressKey, parts_append, parts_of_notMem (ip.notMem (by decide) (by decide)) ip.ne_nil,
    parts_of_notMem (notMem_toStringInt (by decide) (by decide)) (toStringInt_ne_nil _)]
  rfl

/-- What is behind the last slash of a key. -/
theorem parts_slash_address (port : ℤ) :
    parts slash (ip.text ++ minus :: toStringInt port)
      = [ip.text ++ minus :: toStringInt port] := by
  refine parts_of_notMem ?_ (List.append_ne_nil_of_left_ne_nil ip.ne_nil _)
  rw [List.mem_append, List.mem_cons]
  rintro (h | h | h)
  · exact ip.notMem (by decide) (by decide) h
  · exact absurd h (by decide)
  · exact notMem_toStringInt (by decide) (by decide) h

/-- The value is the address and the load. -/
theorem parts_registryValue (hip : config.ip_ = ip.text) (cpu_usage : Double) :
    parts underscore (registryValue config cpu_usage)
      = [addressKey ip.text config.port_, toStringDouble cpu_usage] := by
  have hvalue : registryValue config cpu_usage
      = addressKey ip.text config.port_ ++ underscore :: toStringDouble cpu_usage := by
    rw [registryValue, hip, addressKey, List.append_assoc, List.cons_append]
  have hkey : underscore ∉ addressKey ip.text config.port_ := by
    rw [addressKey, List.mem_append, List.mem_cons]
    rintro (h | h | h)
    · exact ip.notMem (by decide) (by decide) h
    · exact absurd h (by decide)
    · exact notMem_toStringInt (by decide) (by decide) h
  have hcpu : underscore ∉ toStringDouble cpu_usage :=
    notMem_toStringDouble (by decide) (by decide) (by decide) (by decide) (by decide)
  rw [hvalue, parts_append, parts_of_notMem hkey (List.append_ne_nil_of_left_ne_nil ip.ne_nil _),
    parts_of_notMem hcpu (toStringDouble_ne_nil cpu_usage)]
  rfl

/-- **A published value is read as it was published**, and the service from
the second segment of the key. -/
theorem parseukv_registryValue (hip : config.ip_ = ip.text) (hport : InInt config.port_)
    {cpu_usage : Double} (h : cpu_usage.InRange) {key segment method : Bytes} {rest : List Bytes}
    (hkey : parts slash key = segment :: method :: rest) (out : ServerInfo) :
    parseukv key (registryValue config cpu_usage) out
      = .ok ⟨cpu_usage.printed, ip.text, config.port_, method⟩ := by
  rw [parseukv, hkey]
  dsimp only
  rw [ip.parts_registryValue hip]
  dsimp only
  rw [stod_toString h, ok_bind, ip.parts_addressKey]
  dsimp only
  rw [stoi_toString hport, ok_bind]
  rfl

end IPv4

namespace Server

variable (s : Server) (base : BaseDir)

/-- The second segment of the key is the service. -/
theorem parts_registryKey :
    ∃ segment rest, parts slash (s.registryKey base) = [segment, s.service, rest] := by
  obtain ⟨segment, hsegment⟩ := base.single
  refine ⟨segment, s.ip.text ++ minus :: toStringInt s.port, ?_⟩
  rw [registryKey, RpcDispatcher.registryKey, parts_append, parts_append]
  show parts slash base.path ++ (parts slash s.service ++ parts slash _) = _
  rw [hsegment, parts_of_notMem s.slash_notMem s.service_ne_nil, config, s.ip.parts_slash_address]
  rfl

/-- **A `PUT` is read as it was published.** -/
theorem parseukv_put {cpu_usage : Double} (h : cpu_usage.InRange) (out : ServerInfo) :
    parseukv (s.registryKey base) (registryValue (s.config base) cpu_usage) out
      = .ok ⟨cpu_usage.printed, s.ip.text, s.port, s.service⟩ := by
  obtain ⟨segment, rest, hkey⟩ := s.parts_registryKey base
  exact s.ip.parseukv_registryValue rfl s.port_inInt h hkey out

/-- **Of a `DELETE` only the service is read.** -/
theorem parseukv_delete (out : ServerInfo) :
    parseukv (s.registryKey base) [] out = .ok { out with method := s.service } := by
  obtain ⟨segment, rest, hkey⟩ := s.parts_registryKey base
  rw [parseukv, hkey]
  dsimp only
  rw [parts_nil]

theorem colon_notMem_ip : colon ∉ s.ip.text := s.ip.notMem (by decide) (by decide)

end Server

theorem toStringInt_injective {x y : ℤ} (hx : InInt x) (hy : InInt y)
    (h : toStringInt x = toStringInt y) : x = y := by
  have hread : stoi (toStringInt x) = stoi (toStringInt y) := congrArg stoi h
  rw [stoi_toString hx, stoi_toString hy] at hread
  exact Except.ok.inj hread

/-- An address key determines the address. -/
theorem addressKey_injective {ip ip' : Bytes} {port port' : ℤ} (hip : colon ∉ ip)
    (hip' : colon ∉ ip') (h : addressKey ip port = addressKey ip' port') :
    ip = ip' ∧ toStringInt port = toStringInt port' := by
  have hip_eq : ip = ip' := by
    have htake := congrArg (fun key : Bytes => key.take (key.idxOf colon)) h
    simpa only [addressKey, List.idxOf_append_of_notMem hip, List.idxOf_append_of_notMem hip',
      List.idxOf_cons_self, Nat.add_zero, List.take_left] using htake
  subst hip_eq
  exact ⟨rfl, (List.cons.inj (List.append_cancel_left h)).2⟩

/-- **A server is determined by its service and its address.** -/
theorem Server.eq_of_nodeKey {s s' : Server} (hs : s.service = s'.service)
    (hk : s.nodeKey = s'.nodeKey) : s = s' := by
  obtain ⟨hip, hport⟩ := addressKey_injective s.colon_notMem_ip s'.colon_notMem_ip hk
  have hport' := toStringInt_injective s.port_inInt s'.port_inInt hport
  obtain ⟨service, ⟨text, _, _⟩, port, _, _, _⟩ := s
  obtain ⟨service', ⟨text', _, _⟩, port', _, _, _⟩ := s'
  obtain rfl : service = service' := hs
  obtain rfl : text = text' := hip
  obtain rfl : port = port' := hport'
  rfl

/-- No server has the address that a handler is left with when it found
none. -/
theorem Server.nodeKey_ne (s : Server) (port : ℤ) : s.nodeKey ≠ addressKey [] port := by
  intro h
  exact s.ip.ne_nil (addressKey_injective s.colon_notMem_ip List.not_mem_nil h).1

/-! ## The list after a history -/

namespace RpcServerList

/-- The node at an address of a service. -/
def nodeAt (l : RpcServerList) (service key : Bytes) : Option ServerNode :=
  (l.server_list.lookup service).bind (fun m => m.nodeAt key)

/-- **The list represents a store**: what it has at an address of a service
is the server that the store has there. -/
def Represents (l : RpcServerList) (store : Store) : Prop :=
  ∀ service key node, l.nodeAt service key = some node ↔
    ∃ s cpu_usage, s.service = service ∧ s.nodeKey = key ∧ store s = some cpu_usage ∧
      node = s.node cpu_usage

theorem live_iff {l : RpcServerList} {service : Bytes} {node : ServerNode} :
    l.Live service node ↔ ∃ key, l.nodeAt service key = some node := by
  simp only [Live, nodeAt, Option.bind_eq_some_iff]
  exact ⟨fun ⟨m, key, hm, hn⟩ => ⟨key, m, hm, hn⟩, fun ⟨key, m, hm, hn⟩ => ⟨m, key, hm, hn⟩⟩

/-- A list that represents a store mirrors it. -/
theorem Represents.mirrors {l : RpcServerList} {store : Store} (h : l.Represents store) :
    l.Mirrors store := by
  intro service node
  rw [live_iff]
  refine ⟨?_, ?_⟩
  · rintro ⟨key, hnode⟩
    obtain ⟨s, cpu_usage, hs, -, hstore, rfl⟩ := (h service key node).mp hnode
    exact ⟨s, cpu_usage, hs, hstore, rfl⟩
  · rintro ⟨s, cpu_usage, hs, hstore, rfl⟩
    exact ⟨s.nodeKey, (h service s.nodeKey _).mpr ⟨s, cpu_usage, hs, rfl, hstore, rfl⟩⟩

/-- The store that a list mirrors has no others. -/
theorem Mirrors.isSome_of {l : RpcServerList} {store store' : Store} (h : l.Mirrors store)
    (h' : l.Mirrors store') {s : Server} (hs : store s ≠ none) : store' s ≠ none := by
  obtain ⟨cpu_usage, hcpu⟩ := Option.ne_none_iff_exists'.mp hs
  obtain ⟨s', cpu_usage', hservice, hstore', hnode⟩ :=
    (h' s.service (s.node cpu_usage)).mp
      ((h s.service (s.node cpu_usage)).mpr ⟨s, cpu_usage, rfl, hcpu, rfl⟩)
  have hkey : s.nodeKey = s'.nodeKey :=
    congrArg₂ addressKey (congrArg ServerNode.ip hnode) (congrArg ServerNode.port hnode)
  rw [Server.eq_of_nodeKey hservice.symm hkey, hstore']
  exact Option.some_ne_none _

theorem represents_empty : Represents {} (fun _ => none) := by
  intro service key node
  refine ⟨fun h => ?_, fun ⟨_, _, _, _, h, _⟩ => nomatch h⟩
  rw [nodeAt, AList.lookup_empty] at h
  cases h

variable {l : RpcServerList} {store : Store}

/-- **A `PUT` is written into the list as into the store.** -/
theorem Represents.put (h : l.Represents store) (base : BaseDir) (junk : Indeterminate)
    (s : Server) {cpu_usage : Double} (hin : cpu_usage.InRange) :
    ∃ l', notify l junk (Notification.call base (.put s cpu_usage hin)) = .ok l' ∧
      l'.Represents (store.apply (.put s cpu_usage hin)) := by
  obtain ⟨m, hm, hevent⟩ : ∃ m : ServerNodeManager,
      (∀ key, m.nodeAt key = l.nodeAt s.service key) ∧
      notify l junk (Notification.call base (.put s cpu_usage hin))
        = .ok ⟨l.server_list.insert s.service (m.upsertNode (s.node cpu_usage))⟩ := by
    simp only [notify, Notification.call, getServerNodeCallBack, s.parseukv_put base hin,
      ok_bind, nodeAt]
    cases l.server_list.lookup s.service with
    | none => exact ⟨{}, fun key => rfl, rfl⟩
    | some m => exact ⟨m, fun key => rfl, rfl⟩
  refine ⟨_, hevent, fun service key node => ?_⟩
  have hnode : nodeAt ⟨l.server_list.insert s.service (m.upsertNode (s.node cpu_usage))⟩
      service key
      = if service = s.service ∧ key = s.nodeKey then some (s.node cpu_usage)
        else l.nodeAt service key := by
    by_cases hservice : service = s.service
    · subst hservice
      rw [nodeAt, AList.lookup_insert, Option.bind_some, ServerNodeManager.nodeAt_upsertNode, hm]
      simp only [true_and]
      rfl
    · rw [nodeAt, AList.lookup_insert_ne hservice, if_neg fun hc => hservice hc.1]
      rfl
  rw [hnode]
  by_cases hk : service = s.service ∧ key = s.nodeKey
  · rw [if_pos hk]
    refine ⟨fun heq => ⟨s, cpu_usage, hk.1.symm, hk.2.symm, store.apply_put_self, ?_⟩, ?_⟩
    · exact (Option.some.inj heq).symm
    · rintro ⟨s', cpu_usage', hs', hkey', hstore', rfl⟩
      obtain rfl : s' = s := Server.eq_of_nodeKey (hs'.trans hk.1) (hkey'.trans hk.2)
      rw [Store.apply_put_self] at hstore'
      rw [Option.some.inj hstore']
  · rw [if_neg hk, h service key node]
    refine exists₂_congr fun s' cpu_usage' => ?_
    refine and_congr_right fun hs' => and_congr_right fun hkey' => ?_
    have hne : s' ≠ s := by
      rintro rfl
      exact hk ⟨hs'.symm, hkey'.symm⟩
    rw [store.apply_put_of_ne hne]

/-- **A `DELETE` changes nothing**: the address it should remove is not in
the notification. -/
theorem Represents.delete (h : l.Represents store) (base : BaseDir) (junk : Indeterminate)
    (s : Server) :
    ∃ l', notify l junk (Notification.call base (.delete s)) = .ok l' ∧
      l'.Represents store := by
  simp only [notify, Notification.call, delServerNodeCallBack, s.parseukv_delete base,
    ok_bind]
  cases hm : l.server_list.lookup s.service with
  | none => exact ⟨l, rfl, h⟩
  | some m =>
    have hnone : m.nodeAt (addressKey [] junk.port) = none := by
      rw [Option.eq_none_iff_forall_ne_some]
      intro node hnode
      have hat : l.nodeAt s.service (addressKey [] junk.port) = some node := by
        rw [nodeAt, hm]
        exact hnode
      obtain ⟨s', -, -, hkey, -⟩ := (h _ _ _).mp hat
      exact s'.nodeKey_ne junk.port hkey
    refine ⟨_, rfl, fun service key node => ?_⟩
    rw [← h service key node]
    show nodeAt ⟨l.server_list.insert s.service (m.removeNode [] junk.port).2⟩ service key
      = some node ↔ _
    rw [ServerNodeManager.removeNode_of_none hnone]
    by_cases hservice : service = s.service
    · rw [nodeAt, nodeAt, hservice, AList.lookup_insert, hm]
    · rw [nodeAt, nodeAt, AList.lookup_insert_ne hservice]

end RpcServerList

namespace Store

/-- A store without the deletions of a history. -/
def applyPuts (store : Store) (history : List Notification) : Store :=
  (history.filter (fun n => n matches .put ..)).foldl apply store

theorem after_concat (history : List Notification) (n : Notification) :
    after (history ++ [n]) = (after history).apply n :=
  List.foldl_concat _ _ _ _

end Store

section

variable (base : BaseDir)

/-- The calls for one response. -/
theorem notifyAll_puts (batch : List Notification) :
    ∀ (junk : ℕ → Indeterminate) {l : RpcServerList} {store : Store}, l.Represents store →
      ∃ l', notifyAll l junk (batch.map (Notification.call base)) = .ok l' ∧
        l'.Represents (store.applyPuts batch) := by
  induction batch with
  | nil => exact fun junk l store h => ⟨l, rfl, h⟩
  | cons n batch ih =>
    intro junk l store h
    cases n with
    | put s cpu_usage hin =>
      obtain ⟨l₁, h₁, hr₁⟩ := h.put base (junk 0) s hin
      obtain ⟨l₂, h₂, hr₂⟩ := ih (fun n => junk (n + 1)) hr₁
      refine ⟨l₂, ?_, hr₂⟩
      rw [List.map_cons, notifyAll, h₁, ok_bind, h₂]
    | delete s =>
      obtain ⟨l₁, h₁, hr₁⟩ := h.delete base (junk 0) s
      obtain ⟨l₂, h₂, hr₂⟩ := ih (fun n => junk (n + 1)) hr₁
      refine ⟨l₂, ?_, hr₂⟩
      rw [List.map_cons, notifyAll, h₁, ok_bind, h₂]

/-- The responses, one after the other. -/
theorem process_represents (batches : List (List Notification)) :
    ∀ (junk : ℕ → ℕ → Indeterminate) {l : RpcServerList} {store : Store}, l.Represents store →
      ∃ l', process base junk l batches = .ok l' ∧
        l'.Represents (store.applyPuts batches.flatten) := by
  induction batches with
  | nil => exact fun junk l store h => ⟨l, rfl, h⟩
  | cons batch batches ih =>
    intro junk l store h
    obtain ⟨l₁, h₁, hr₁⟩ := notifyAll_puts base batch (junk 0) h
    obtain ⟨l₂, h₂, hr₂⟩ := ih (fun n => junk (n + 1)) hr₁
    refine ⟨l₂, ?_, ?_⟩
    · rw [process, Notification.callBack_events, h₁, ok_bind, h₂]
    · rwa [List.flatten_cons, Store.applyPuts, List.filter_append, List.foldl_append]

/-- **The list keeps every server that was put**, deleted or not. -/
theorem process_puts (junk : ℕ → ℕ → Indeterminate) (batches : List (List Notification)) :
    ∃ l, process base junk {} batches = .ok l ∧
      l.Mirrors (Store.everPut batches.flatten) := by
  obtain ⟨l, hl, hr⟩ := process_represents base batches junk RpcServerList.represents_empty
  exact ⟨l, hl, hr.mirrors⟩

end

namespace Store

theorem everPut_concat_put (history : List Notification) (s : Server) {cpu_usage : Double}
    (hin : cpu_usage.InRange) :
    everPut (history ++ [.put s cpu_usage hin])
      = (everPut history).apply (.put s cpu_usage hin) := by
  rw [everPut, List.filter_append]
  exact after_concat _ _

theorem everPut_concat_delete (history : List Notification) (s : Server) :
    everPut (history ++ [.delete s]) = everPut history := by
  rw [everPut, List.filter_append]
  exact congrArg after (List.append_nil _)

/-- A server that is there has the load it was last put with. -/
theorem after_eq (history : List Notification) (s : Server) :
    after history s = none ∨ after history s = everPut history s := by
  induction history using List.reverseRecOn with
  | nil => exact .inl rfl
  | append_singleton history n ih =>
    rw [after_concat]
    cases n with
    | put s' cpu_usage hin =>
      rw [everPut_concat_put]
      by_cases hs : s = s'
      · subst hs
        exact .inr ((apply_put_self _).trans (apply_put_self _).symm)
      · simpa only [apply_put_of_ne _ hs] using ih
    | delete s' =>
      rw [everPut_concat_delete]
      by_cases hs : s = s'
      · subst hs
        exact .inl (apply_delete_self _)
      · simpa only [apply_delete_of_ne _ hs] using ih

/-- The servers that were ever put. -/
theorem everPut_ne_none (history : List Notification) (s : Server) :
    everPut history s ≠ none ↔ ∃ cpu_usage hin, .put s cpu_usage hin ∈ history := by
  induction history using List.reverseRecOn with
  | nil => exact ⟨fun h => absurd rfl h, fun ⟨_, _, h⟩ => nomatch h⟩
  | append_singleton history n ih =>
    cases n with
    | put s' cpu_usage hin =>
      rw [everPut_concat_put]
      by_cases hs : s = s'
      · subst hs
        refine ⟨fun _ => ⟨cpu_usage, hin, by simp⟩, fun _ => ?_⟩
        rw [apply_put_self]
        exact Option.some_ne_none _
      · rw [apply_put_of_ne _ hs, ih]
        simp [hs]
    | delete s' =>
      rw [everPut_concat_delete, ih]
      simp

end Store

/-- **The list mirrors the store exactly when nothing that was put is
gone**: when no key has a deletion for its last event. -/
theorem mirrors_iff (base : BaseDir) (junk : ℕ → ℕ → Indeterminate)
    (batches : List (List Notification)) :
    ∃ l, process base junk {} batches = .ok l ∧
      (l.Mirrors (Store.after batches.flatten) ↔
        ∀ s cpu_usage hin, .put s cpu_usage hin ∈ batches.flatten →
          Store.after batches.flatten s ≠ none) := by
  obtain ⟨l, hl, hm⟩ := process_puts base junk batches
  refine ⟨l, hl, ?_, ?_⟩
  · intro h s cpu_usage hin hput
    exact hm.isSome_of h ((Store.everPut_ne_none _ s).mpr ⟨cpu_usage, hin, hput⟩)
  · intro h
    have hstore : Store.after batches.flatten = Store.everPut batches.flatten := by
      funext s
      refine (Store.after_eq batches.flatten s).elim (fun hnone => ?_) id
      by_contra hne
      obtain ⟨cpu_usage, hin, hput⟩ :=
        (Store.everPut_ne_none batches.flatten s).mp fun hev => hne (hnone.trans hev.symm)
      exact h s cpu_usage hin hput hnone
    rwa [hstore]

/-- A base directory of one segment, and a server. -/
def rpcDir : BaseDir := ⟨Bytes.ofString "rpc", Bytes.ofString "rpc", by decide⟩

theorem order_ne_nil : Bytes.ofString "Order" ≠ [] := by decide

def orderServer : Server where
  service := Bytes.ofString "Order"
  ip := ⟨Bytes.ofString "127.0.0.1", by decide +kernel, by decide +kernel⟩
  port := 8080
  service_ne_nil := order_ne_nil
  slash_notMem := by decide
  port_inInt := by decide

theorem inRange_zero : (Double.finite 0).InRange := by
  show |(0 : ℚ)| ≤ Double.max
  rw [abs_zero]
  exact sub_nonneg.mpr (pow_le_pow_right₀ one_le_two (by decide))

/-- **A server that went away**, published once and deleted, is still in the
list. -/
theorem not_mirrors_deleted :
    ¬ ∀ (base : BaseDir) (junk : ℕ → ℕ → Indeterminate) (batches : List (List Notification)),
      ∃ l, process base junk {} batches = .ok l ∧
        l.Mirrors (Store.after batches.flatten) := by
  intro h
  let put : Notification := .put orderServer (.finite 0) inRange_zero
  let delete : Notification := .delete orderServer
  obtain ⟨l, hl, hm⟩ := h rpcDir (fun _ _ => ⟨.finite 0, 0⟩) [[put], [delete]]
  obtain ⟨l', hl', hm'⟩ := process_puts rpcDir (fun _ _ => ⟨.finite 0, 0⟩) [[put], [delete]]
  obtain rfl : l' = l := Except.ok.inj (hl'.symm.trans hl)
  have hput : Store.everPut [put, delete] orderServer ≠ none :=
    (Store.everPut_ne_none _ _).mpr ⟨_, inRange_zero, List.mem_cons_self⟩
  have hgone : Store.after [put, delete] orderServer = none := by
    rw [show [put, delete] = [put] ++ [delete] from rfl, Store.after_concat]
    exact Store.apply_delete_self _
  exact hm'.isSome_of hm hput hgone

end PbRpc
