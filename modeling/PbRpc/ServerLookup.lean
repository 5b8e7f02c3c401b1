import PbRpc.RpcServerList
import PbRpc.ServerNodeQueue

/-!
# Choosing a server

`getServerAddr` looks the service up in the list of servers and asks its
`ServerNodeManager` for the least loaded node. What it has to answer is
determined by the notifications alone: a node is live when the last
notification of its service and address was a `PUT` (`LiveNodes.after`).

The list has two ways of having no live node of a service. Before the first
`PUT` the service has no entry, which is what `getServerAddr` tests for.
After the last `DELETE` it has an entry with an empty manager, and then the
null pointer that `getLowestCPUNode` returns is dereferenced. So the answer
is right as long as the service was never there, or has a live node, and in
no other case (`getServerAddr_iff`).
-/

namespace PbRpc

/-! ## Notifications of the published form -/

/-- **What a key and a value of the published form say**: a service, an
address with its port, and a load that is a number. -/
def published (key value : Bytes) : Option ServerInfo :=
  match parts slash key, parts underscore value with
  | _ :: method :: _, [address, cpu_usage] =>
    match parts colon address, stod cpu_usage with
    | [ip, port], .ok cpu_usage =>
      match stoi port with
      | .ok port =>
        if cpu_usage.isNaN then none
        else some { cpu_usage := cpu_usage, ip := ip, port := port, method := method }
      | .error _ => none
    | _, _ => none
  | _, _ => none

variable {key value : Bytes} {info : ServerInfo}

/-- **Such a notification is read as it is**, and its load is a number. -/
theorem parseukv_published (h : published key value = some info) :
    (∀ out, parseukv key value out = .ok info) ∧ info.cpu_usage.isNaN = false ∧ info.ip ≠ [] := by
  unfold published at h
  split at h
  case h_2 => cases h
  case h_1 segment method rest address cpu hkey hvalue =>
    split at h
    case h_2 => cases h
    case h_1 ip port cpu_usage haddress hcpu =>
      split at h
      case h_2 => cases h
      case h_1 port' hport =>
        split at h
        case isTrue => cases h
        case isFalse hnan =>
          obtain rfl := Option.some.inj h
          refine ⟨fun out => ?_, eq_false_of_ne_true hnan, ?_⟩
          · rw [parseukv, hkey]
            dsimp only
            rw [hvalue]
            dsimp only
            rw [hcpu, ok_bind, haddress]
            dsimp only
            rw [hport, ok_bind]
            rfl
          · exact ne_nil_of_mem_parts (haddress ▸ List.mem_cons_self)

/-- The node that a notification is about. -/
def ServerInfo.node (info : ServerInfo) : ServerNode :=
  { cpu_usage := info.cpu_usage, ip := info.ip, port := info.port }

/-- **A call of the list**: one of the two callbacks, or a lookup. -/
inductive ListCall where
  | getServerNodeCallBack (key value : Bytes)
  | delServerNodeCallBack (key value : Bytes)
  | getServerAddr (top : HeapTop) (method_name : Bytes)

namespace ListCall

/-- The callbacks are given notifications of the published form. -/
def WellFormed : ListCall → Prop
  | getServerNodeCallBack key value | delServerNodeCallBack key value =>
    (published key value).isSome
  | getServerAddr _ _ => True

instance : DecidablePred WellFormed
  | .getServerNodeCallBack _ _ | .delServerNodeCallBack _ _ =>
    inferInstanceAs (Decidable (_ = true))
  | .getServerAddr _ _ => .isTrue trivial

/-- A `PUT` of a server of this service. -/
def Puts (service : Bytes) : ListCall → Prop
  | getServerNodeCallBack key value => ∃ info ∈ published key value, info.method = service
  | delServerNodeCallBack _ _ | getServerAddr _ _ => False

end ListCall

/-! ## The live nodes -/

/-- **The live nodes** of each service, by the text of their address. -/
abbrev LiveNodes : Type := Bytes → Bytes → Option ServerNode

namespace LiveNodes

/-- Write the node of an address. -/
def set (nodes : LiveNodes) (service key : Bytes) (node : Option ServerNode) : LiveNodes :=
  fun service' key' => if service' = service ∧ key' = key then node else nodes service' key'

def apply (nodes : LiveNodes) : ListCall → LiveNodes
  | .getServerNodeCallBack key value =>
    match published key value with
    | none => nodes
    | some info => nodes.set info.method info.node.key (some info.node)
  | .delServerNodeCallBack key value =>
    match published key value with
    | none => nodes
    | some info => nodes.set info.method info.node.key none
  | .getServerAddr _ _ => nodes

/-- **The live nodes after a history**: those whose last notification was a
`PUT`. -/
def after (history : List ListCall) : LiveNodes := history.foldl apply (fun _ _ => none)

end LiveNodes

/-- **What the answer to a lookup must be**, of a service with these live
nodes: that there is none, or the address of one with the least load. -/
structure Chooses (nodes : Bytes → Option ServerNode) (addr : Bytes × ℤ) : Prop where
  none_iff : addr = ([], -1) ↔ ∀ key, nodes key = none
  lowest : ∀ key n, nodes key = some n → ∃ key' n', nodes key' = some n' ∧
    addr = (n'.ip, n'.port) ∧ ∀ key'' n'', nodes key'' = some n'' → n'.gt n'' = false

/-! ## The list -/

namespace RpcServerList

/-- **`getServerAddr`**. There is no result where the node that is
dereferenced is null. -/
def getServerAddr (l : RpcServerList) (top : HeapTop) (method_name : Bytes) :
    Option ((Bytes × ℤ) × RpcServerList) :=
  match l.server_list.lookup method_name with
  | none => some (([], -1), l)
  | some m =>
    match m.getLowestCPUNode top with
    | (none, _) => none
    | (some p, m) => some ((p.node.ip, p.node.port), ⟨l.server_list.insert method_name m⟩)

/-- A call, where it returns. -/
def call (l : RpcServerList) (junk : Indeterminate) : ListCall → Option RpcServerList
  | .getServerNodeCallBack key value => (l.getServerNodeCallBack junk key value).toOption
  | .delServerNodeCallBack key value => (l.delServerNodeCallBack junk key value).toOption
  | .getServerAddr top method_name => (l.getServerAddr top method_name).map Prod.snd

/-- The list after a sequence of calls. -/
def calls (l : RpcServerList) (junk : ℕ → Indeterminate) : List ListCall → Option RpcServerList
  | [] => some l
  | c :: history => (l.call (junk 0) c).bind (fun l => l.calls (fun n => junk (n + 1)) history)

/-- **The list keeps track of the live nodes**: its entries are the services
that were ever put, and its nodes are those that are live. -/
structure Tracks (l : RpcServerList) (nodes : LiveNodes) (put : Bytes → Prop) : Prop where
  entry : ∀ service, l.server_list.lookup service = none ↔ ¬ put service
  nodeAt : ∀ service key, l.nodeAt service key = nodes service key
  represents : ∀ service m, l.server_list.lookup service = some m → ∃ loads, m.Represents loads

end RpcServerList

namespace ServerNodeManager

/-- Removing a node writes one entry of the map. -/
theorem nodeAt_removeNode (m : ServerNodeManager) (ip : Bytes) (port : ℤ) (key : Bytes) :
    (m.removeNode ip port).2.nodeAt key
      = if key = addressKey ip port then none else m.nodeAt key := by
  rw [nodeAt, removeNode, lookup_removeNodeInternal]
  split
  · rfl
  · rfl

variable {m : ServerNodeManager} {loads : Loads} {top : HeapTop}

/-- The loads are those of the nodes. -/
theorem Represents.empty_iff (h : m.Represents loads) :
    loads = ∅ ↔ ∀ key, m.nodeAt key = none := by
  constructor
  · rintro rfl key
    have hkey := h.lookup key
    rw [AList.lookup_empty] at hkey
    exact Option.map_eq_none_iff.mp hkey.symm
  · intro hnone
    refine AList.ext (List.eq_nil_iff_forall_not_mem.mpr fun entry hentry => ?_)
    have hlookup := AList.mem_lookup_iff.mpr hentry
    rw [h.lookup, hnone] at hlookup
    cases hlookup

/-- **What is found is a node of the map**, and none has a lower load. -/
theorem Represents.nodeAt_getLowestCPUNode (h : m.Represents loads) {p : NodePtr}
    (hp : (m.getLowestCPUNode top).1 = some p) :
    m.nodeAt p.node.key = some p.node ∧
      ∀ key n, m.nodeAt key = some n → p.node.gt n = false := by
  obtain ⟨hmem, hcurrent, -⟩ := (h.firstValid top).some p hp
  refine ⟨?_, fun key n hn => ?_⟩
  · rw [nodeAt, (h.pointers.current_iff hmem).mp hcurrent]
    rfl
  · refine (h.lowest_getLowestCPUNode hp).minimal key n.cpu_usage ?_
    rw [h.lookup, hn]
    rfl

/-- A lookup leaves the map as it is. -/
theorem nodeAt_getLowestCPUNode (m : ServerNodeManager) (top : HeapTop) (key : Bytes) :
    (m.getLowestCPUNode top).2.nodeAt key = m.nodeAt key :=
  rfl

end ServerNodeManager

namespace RpcServerList

variable {l l' : RpcServerList} {nodes : LiveNodes} {put : Bytes → Prop}

/-- What is at an address of a list, one of whose managers was written. -/
theorem nodeAt_insert (l : RpcServerList) (method : Bytes) (m : ServerNodeManager)
    (service key : Bytes) :
    nodeAt ⟨l.server_list.insert method m⟩ service key
      = if service = method then m.nodeAt key else l.nodeAt service key := by
  rw [nodeAt]
  split
  case isTrue hs => rw [hs, AList.lookup_insert]; rfl
  case isFalse hs => rw [AList.lookup_insert_ne hs]; rfl

/-- One manager of the list is written. -/
theorem Tracks.insert (h : l.Tracks nodes put) {method : Bytes} {m : ServerNodeManager}
    {nodes' : LiveNodes} {put' : Bytes → Prop} (hput : put' method)
    (hothers : ∀ service, service ≠ method → (put' service ↔ put service))
    (hm : ∃ loads, m.Represents loads) (hat : ∀ key, m.nodeAt key = nodes' method key)
    (hnodes : ∀ service, service ≠ method → nodes' service = nodes service) :
    Tracks ⟨l.server_list.insert method m⟩ nodes' put' where
  entry service := by
    by_cases hs : service = method
    · subst hs
      rw [AList.lookup_insert]
      exact ⟨fun hnone => (by cases hnone), fun hnot => absurd hput hnot⟩
    · rw [AList.lookup_insert_ne hs, h.entry, hothers service hs]
  nodeAt service key := by
    rw [nodeAt_insert]
    split
    case isTrue hs => rw [hs, hat]
    case isFalse hs => rw [h.nodeAt, hnodes service hs]
  represents service m' hm' := by
    by_cases hs : service = method
    · subst hs
      rw [AList.lookup_insert] at hm'
      obtain rfl := Option.some.inj hm'
      exact hm
    · rw [AList.lookup_insert_ne hs] at hm'
      exact h.represents service m' hm'

/-- **A `PUT`.** -/
theorem Tracks.getServerNodeCallBack (h : l.Tracks nodes put) (junk : Indeterminate)
    {key value : Bytes} {info : ServerInfo} (hinfo : published key value = some info)
    (hl : l.getServerNodeCallBack junk key value = .ok l') :
    l'.Tracks (nodes.set info.method info.node.key (some info.node))
      (fun service => put service ∨ service = info.method) := by
  obtain ⟨hparse, hnan, -⟩ := parseukv_published hinfo
  obtain ⟨m, hm, hat, rfl⟩ : ∃ m : ServerNodeManager, (∃ loads, m.Represents loads) ∧
      (∀ key, m.nodeAt key = l.nodeAt info.method key) ∧
      l' = ⟨l.server_list.insert info.method (m.upsertNode info.node)⟩ := by
    rw [RpcServerList.getServerNodeCallBack, hparse, ok_bind] at hl
    split at hl
    case h_1 hnone =>
      refine ⟨{}, ⟨∅, ServerNodeManager.Represents.empty⟩, fun key => ?_, (Except.ok.inj hl).symm⟩
      rw [RpcServerList.nodeAt, hnone]
      rfl
    case h_2 m hsome =>
      refine ⟨m, h.represents _ m hsome, fun key => ?_, (Except.ok.inj hl).symm⟩
      rw [RpcServerList.nodeAt, hsome]
      rfl
  obtain ⟨loads, hloads⟩ := hm
  refine h.insert (.inr rfl) (fun service hs => or_iff_left hs)
    ⟨_, hloads.upsertNode hnan⟩ (fun key' => ?_) (fun service hs => ?_)
  · rw [ServerNodeManager.nodeAt_upsertNode, hat, h.nodeAt, LiveNodes.set]
    simp only [true_and]
  · funext key'
    rw [LiveNodes.set, if_neg fun hc => hs hc.1]

/-- **A `DELETE`.** -/
theorem Tracks.delServerNodeCallBack (h : l.Tracks nodes put) (junk : Indeterminate)
    {key value : Bytes} {info : ServerInfo} (hinfo : published key value = some info)
    (hl : l.delServerNodeCallBack junk key value = .ok l') :
    l'.Tracks (nodes.set info.method info.node.key none) put := by
  obtain ⟨hparse, -⟩ := parseukv_published hinfo
  rw [RpcServerList.delServerNodeCallBack, hparse, ok_bind] at hl
  split at hl
  case h_1 hnone =>
    -- the service was never there
    obtain rfl := Except.ok.inj hl
    refine { h with nodeAt := fun service key' => ?_ }
    rw [LiveNodes.set]
    split
    case isTrue hs => rw [hs.1, RpcServerList.nodeAt, hnone]; rfl
    case isFalse => exact h.nodeAt service key'
  case h_2 m hsome =>
    obtain rfl := Except.ok.inj hl
    have hput : put info.method := by
      by_contra hnot
      rw [(h.entry _).mpr hnot] at hsome
      cases hsome
    have hat : ∀ key', m.nodeAt key' = l.nodeAt info.method key' := by
      intro key'
      rw [RpcServerList.nodeAt, hsome]
      rfl
    obtain ⟨loads, hloads⟩ := h.represents _ m hsome
    refine h.insert hput (fun _ _ => Iff.rfl) ⟨_, hloads.removeNode info.ip info.port⟩
      (fun key' => ?_) (fun service hs => ?_)
    · rw [ServerNodeManager.nodeAt_removeNode, hat, h.nodeAt, LiveNodes.set]
      simp only [true_and]
      rfl
    · funext key'
      rw [LiveNodes.set, if_neg fun hc => hs hc.1]

/-- **A lookup.** -/
theorem Tracks.getServerAddr (h : l.Tracks nodes put) {top : HeapTop} {method_name : Bytes}
    {addr : Bytes × ℤ} (hl : l.getServerAddr top method_name = some (addr, l')) :
    l'.Tracks nodes put := by
  rw [RpcServerList.getServerAddr] at hl
  split at hl
  case h_1 =>
    obtain ⟨-, rfl⟩ := Prod.mk.inj (Option.some.inj hl)
    exact h
  case h_2 m hsome =>
    obtain ⟨loads, hloads⟩ := h.represents _ m hsome
    have hput : put method_name := by
      by_contra hnot
      rw [(h.entry _).mpr hnot] at hsome
      cases hsome
    split at hl
    case h_1 => cases hl
    case h_2 p m' hget =>
      obtain ⟨-, rfl⟩ := Prod.mk.inj (Option.some.inj hl)
      obtain rfl : (m.getLowestCPUNode top).2 = m' := congrArg Prod.snd hget
      refine h.insert hput (fun _ _ => Iff.rfl) ⟨_, hloads.getLowestCPUNode top⟩ (fun key => ?_)
        (fun _ _ => rfl)
      rw [ServerNodeManager.nodeAt_getLowestCPUNode, ← h.nodeAt, RpcServerList.nodeAt, hsome]
      rfl

/-- **What a lookup answers**: it is right when the service was never put,
or has a live node, and only then. -/
theorem Tracks.answers (h : l.Tracks nodes put)
    (hip : ∀ service key n, nodes service key = some n → n.ip ≠ []) (top : HeapTop)
    (service : Bytes) :
    (∃ addr l', l.getServerAddr top service = some (addr, l') ∧ Chooses (nodes service) addr) ↔
      ¬ put service ∨ ∃ key n, nodes service key = some n := by
  cases hlookup : l.server_list.lookup service with
  | none =>
    have hnone : ∀ key, nodes service key = none := by
      intro key
      rw [← h.nodeAt, RpcServerList.nodeAt, hlookup]
      rfl
    refine ⟨fun _ => .inl ((h.entry service).mp hlookup), fun _ => ⟨([], -1), l, ?_, ?_⟩⟩
    · rw [RpcServerList.getServerAddr, hlookup]
    · refine ⟨⟨fun _ => hnone, fun _ => rfl⟩, fun key n hn => ?_⟩
      rw [hnone] at hn
      cases hn
  | some m =>
    obtain ⟨loads, hloads⟩ := h.represents service m hlookup
    have hat : ∀ key, m.nodeAt key = nodes service key := by
      intro key
      rw [← h.nodeAt, RpcServerList.nodeAt, hlookup]
      rfl
    have hput : put service := by
      by_contra hnot
      rw [(h.entry _).mpr hnot] at hlookup
      cases hlookup
    have hempty := (hloads.getLowestCPUNode_none_iff top).trans hloads.empty_iff
    rw [RpcServerList.getServerAddr, hlookup]
    dsimp only
    cases hfound : (m.getLowestCPUNode top).1 with
    | none =>
      -- the entry has outlived its last node
      rw [show m.getLowestCPUNode top = (none, (m.getLowestCPUNode top).2) from
        Prod.ext hfound rfl]
      constructor
      · rintro ⟨_, _, hnull, _⟩
        cases hnull
      · rintro (hnot | ⟨key, n, hn⟩)
        · exact absurd hput hnot
        · rw [← hat, hempty.mp hfound key] at hn
          cases hn
    | some p =>
      obtain ⟨hp, hlow⟩ := hloads.nodeAt_getLowestCPUNode hfound
      rw [show m.getLowestCPUNode top = (some p, (m.getLowestCPUNode top).2) from
        Prod.ext hfound rfl]
      rw [hat] at hp
      refine ⟨fun _ => .inr ⟨_, _, hp⟩, fun _ => ⟨_, _, rfl, ⟨fun hnot => ?_, fun hnone => ?_⟩, ?_⟩⟩
      · exact absurd (congrArg Prod.fst hnot) (hip _ _ _ hp)
      · rw [hnone] at hp
        cases hp
      · exact fun _ _ _ => ⟨_, _, hp, rfl, fun key n hn => hlow key n ((hat key).trans hn)⟩

/-! ## Every history -/

/-- **A call of the published form keeps track.** -/
theorem Tracks.call (h : l.Tracks nodes put) {junk : Indeterminate} {c : ListCall}
    (hc : c.WellFormed) (hl : l.call junk c = some l') :
    l'.Tracks (nodes.apply c) (fun service => put service ∨ c.Puts service) := by
  have hnot : ∀ {p : Bytes → Prop}, (∀ service, ¬ p service) →
      (fun service => put service ∨ p service) = put := by
    intro p hp
    funext service
    exact propext (or_iff_left (hp service))
  cases c with
  | getServerNodeCallBack key value =>
    obtain ⟨info, hinfo⟩ := Option.isSome_iff_exists.mp hc
    have hput : (fun service => put service ∨
        (ListCall.getServerNodeCallBack key value).Puts service)
        = fun service => put service ∨ service = info.method := by
      funext service
      refine propext (or_congr_right ?_)
      rw [ListCall.Puts, hinfo]
      simp only [Option.mem_def, Option.some.injEq, exists_eq_left']
      exact eq_comm
    rw [hput, LiveNodes.apply, hinfo]
    refine h.getServerNodeCallBack junk hinfo ?_
    rw [RpcServerList.call] at hl
    cases hcall : l.getServerNodeCallBack junk key value with
    | error e => rw [hcall] at hl; cases hl
    | ok l₁ => rw [hcall] at hl; rw [Option.some.inj hl]
  | delServerNodeCallBack key value =>
    obtain ⟨info, hinfo⟩ := Option.isSome_iff_exists.mp hc
    rw [hnot (p := fun service => (ListCall.delServerNodeCallBack key value).Puts service)
      fun _ hp => hp, LiveNodes.apply, hinfo]
    refine h.delServerNodeCallBack junk hinfo ?_
    rw [RpcServerList.call] at hl
    cases hcall : l.delServerNodeCallBack junk key value with
    | error e => rw [hcall] at hl; cases hl
    | ok l₁ => rw [hcall] at hl; rw [Option.some.inj hl]
  | getServerAddr top method_name =>
    rw [hnot (p := fun service => (ListCall.getServerAddr top method_name).Puts service)
      fun _ hp => hp]
    obtain ⟨⟨addr, l₁⟩, hget, rfl⟩ := Option.map_eq_some_iff.mp hl
    exact h.getServerAddr hget

/-- **So does a sequence of calls.** -/
theorem Tracks.calls {history : List ListCall} (hwf : ∀ c ∈ history, c.WellFormed) :
    ∀ {l : RpcServerList} {nodes : LiveNodes} {put : Bytes → Prop} {junk : ℕ → Indeterminate},
      l.Tracks nodes put → l.calls junk history = some l' →
      l'.Tracks (history.foldl LiveNodes.apply nodes)
        (fun service => put service ∨ ∃ c ∈ history, c.Puts service) := by
  induction history with
  | nil =>
    intro l nodes put junk h hl
    obtain rfl := Option.some.inj hl
    simpa using h
  | cons c history ih =>
    intro l nodes put junk h hl
    obtain ⟨l₁, hcall, hrest⟩ := Option.bind_eq_some_iff.mp hl
    have h₁ := ih (fun c hc => hwf c (List.mem_cons_of_mem _ hc))
      (h.call (hwf c List.mem_cons_self) hcall) hrest
    simpa only [List.foldl_cons, List.mem_cons, exists_eq_or_imp, or_assoc] using h₁

theorem tracks_empty : Tracks {} (fun _ _ => none) (fun _ => False) where
  entry _ := ⟨fun _ => id, fun _ => rfl⟩
  nodeAt _ _ := rfl
  represents _ _ h := by cases h

end RpcServerList

namespace LiveNodes

/-- Every live node has an address. -/
def Addressed (nodes : LiveNodes) : Prop :=
  ∀ service key n, nodes service key = some n → n.ip ≠ []

variable {nodes : LiveNodes}

theorem Addressed.set (h : nodes.Addressed) (method key : Bytes) {node : Option ServerNode}
    (hnode : ∀ n ∈ node, n.ip ≠ []) : (nodes.set method key node).Addressed := by
  intro service key' n hn
  rw [LiveNodes.set] at hn
  split at hn
  · exact hnode n hn
  · exact h service key' n hn

theorem Addressed.apply (h : nodes.Addressed) (c : ListCall) : (nodes.apply c).Addressed := by
  cases c with
  | getServerNodeCallBack key value =>
    rw [LiveNodes.apply]
    cases hinfo : published key value with
    | none => exact h
    | some info =>
      refine h.set _ _ fun n hn => ?_
      obtain rfl := Option.some.inj hn
      exact (parseukv_published hinfo).2.2
  | delServerNodeCallBack key value =>
    rw [LiveNodes.apply]
    cases published key value with
    | none => exact h
    | some info => exact h.set _ _ fun n hn => (by cases hn)
  | getServerAddr top method_name => exact h

theorem addressed_after (history : List ListCall) : (after history).Addressed := by
  induction history using List.reverseRecOn with
  | nil => exact fun _ _ _ hn => (by cases hn)
  | append_singleton history c ih =>
    rw [after, List.foldl_concat]
    exact Addressed.apply ih c

end LiveNodes

namespace RpcServerList

/-- **The answers of a list**, after any callbacks of the published form with
lookups between them: right when no server of the service was ever put, or
one is live, and otherwise a null pointer is dereferenced. -/
theorem getServerAddr_iff (junk : ℕ → Indeterminate) {history : List ListCall}
    (hwf : ∀ c ∈ history, c.WellFormed) {l : RpcServerList}
    (hl : ({} : RpcServerList).calls junk history = some l) (top : HeapTop) (service : Bytes) :
    (∃ addr l', l.getServerAddr top service = some (addr, l') ∧
        Chooses (LiveNodes.after history service) addr) ↔
      (∀ c ∈ history, ¬ c.Puts service) ∨
        ∃ key n, LiveNodes.after history service key = some n := by
  refine ((tracks_empty.calls hwf hl).answers (LiveNodes.addressed_after history) top
    service).trans (or_congr_left ?_)
  simp only [false_or, not_exists, not_and]

/-- The key of the server of `Order`. -/
def orderKey : Bytes := Bytes.ofString "rpc/Order/127.0.0.1-8080"

/-- A server of `Order` that is published, looked up, deleted, and published
again with another load. -/
def orderCalls : List ListCall :=
  [.getServerNodeCallBack orderKey (Bytes.ofString "127.0.0.1:8080_0.5"),
    .getServerAddr ServerNodeManager.scannedTop (Bytes.ofString "Order"),
    .delServerNodeCallBack orderKey (Bytes.ofString "127.0.0.1:8080_0.5"),
    .getServerNodeCallBack orderKey (Bytes.ofString "127.0.0.1:8080_0.25")]

/-- No local is read before it is written. -/
def noJunk (_ : ℕ) : Indeterminate := ⟨.finite 0, 0⟩

theorem getServerAddr_republished :
    ∃ l, ({} : RpcServerList).calls noJunk orderCalls = some l ∧
      ∃ addr l', l.getServerAddr ServerNodeManager.scannedTop (Bytes.ofString "Order")
          = some (addr, l') ∧
        Chooses (LiveNodes.after orderCalls (Bytes.ofString "Order")) addr := by
  have hrun : (({} : RpcServerList).calls noJunk orderCalls).isSome = true := by decide +kernel
  obtain ⟨l, hl⟩ := Option.isSome_iff_exists.mp hrun
  refine ⟨l, hl, (getServerAddr_iff noJunk (by decide +kernel) hl ServerNodeManager.scannedTop
    (Bytes.ofString "Order")).mpr (.inr ⟨Bytes.ofString "127.0.0.1:8080", ?_⟩)⟩
  exact Option.isSome_iff_exists.mp (by decide +kernel)

/-- **The last server of a service goes away**, and the next lookup
dereferences a null pointer. -/
theorem not_getServerAddr_deleted :
    ¬ ∀ (junk : ℕ → Indeterminate) (history : List ListCall), (∀ c ∈ history, c.WellFormed) →
      ∀ l, ({} : RpcServerList).calls junk history = some l → ∀ (top : HeapTop) (service : Bytes),
        ∃ addr l', l.getServerAddr top service = some (addr, l') ∧
          Chooses (LiveNodes.after history service) addr := by
  intro hall
  obtain ⟨l, hl, hnull⟩ : ∃ l, ({} : RpcServerList).calls noJunk (orderCalls.take 3) = some l ∧
      (l.getServerAddr ServerNodeManager.scannedTop (Bytes.ofString "Order")).isNone = true := by
    exact Option.any_eq_true _ _ |>.mp (by decide +kernel)
  obtain ⟨addr, l', haddr, -⟩ := hall noJunk (orderCalls.take 3) (by decide +kernel) l hl
    ServerNodeManager.scannedTop (Bytes.ofString "Order")
  rw [haddr] at hnull
  cases hnull

end RpcServerList

end PbRpc
