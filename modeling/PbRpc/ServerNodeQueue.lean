import PbRpc.PriorityQueue
import PbRpc.ServerNode

/-!
# A service's nodes are a map

Of a `ServerNodeManager` a caller sees what `removeNode`, `getLowestCPUNode`
and `size` return. The queue behind them holds more than the map does: the
nodes that were replaced or removed, which `getLowestCPUNode` drops when it
meets them and `rebuildHeap` drops all at once. None of that shows. `Loads`
is what the manager stands for, the load last published for each address,
and `Represents` is how a manager stands for it. Every operation keeps it and
returns what the loads allow (`behavesAsMap`).

What carries the argument is that the nodes in the queue are pointers: an
entry is current when the map points at that very node, and so has the load
that the map has for the address.
-/

namespace PbRpc

/-! ## Loads -/

def Double.isNaN : Double → Bool
  | nan _ => true
  | _ => false

/-- `a > b`. -/
def Double.gt : Double → Double → Bool
  | nan _, _ => false
  | _, nan _ => false
  | inf true, _ => false
  | inf false, inf false => false
  | inf false, _ => true
  | finite _, inf negative => negative
  | finite a, finite b => decide (b < a)

theorem Double.gt_self (a : Double) : a.gt a = false := by
  cases a with
  | nan negative => rfl
  | inf negative => cases negative <;> rfl
  | finite a => exact decide_eq_false (lt_irrefl a)

theorem Double.gt_trans {a b c : Double} (hab : a.gt b = true) (hbc : b.gt c = true) :
    a.gt c = true := by
  cases a with
  | nan negative => cases hab
  | inf negative =>
    cases negative with
    | true => cases b <;> cases hab
    | false =>
      cases b with
      | nan negative => cases hab
      | inf negative =>
        cases negative with
        | true => cases c <;> cases hbc
        | false => cases hab
      | finite b =>
        cases c with
        | nan negative => cases hbc
        | inf negative =>
          cases negative with
          | true => rfl
          | false => cases hbc
        | finite c => rfl
  | finite a =>
    cases b with
    | nan negative => cases hab
    | inf negative =>
      cases negative with
      | true => cases c <;> cases hbc
      | false => cases hab
    | finite b =>
      cases c with
      | nan negative => cases hbc
      | inf negative => exact hbc
      | finite c => exact decide_eq_true (lt_trans (of_decide_eq_true hbc) (of_decide_eq_true hab))

/-- `operator>`. -/
def ServerNode.gt (a b : ServerNode) : Bool := a.cpu_usage.gt b.cpu_usage

/-- **What the priority queue has on top**: a node than which none is
less loaded. -/
abbrev HeapTop :=
  PriorityQueue.Top (fun p : NodePtr => p.node.cpu_usage.isNaN = false)
    (fun a b => a.node.gt b.node = true)

namespace ServerNodeManager

/-! ## The queries -/

/-- The map points at this very node. -/
def current (m : ServerNodeManager) (top : NodePtr) : Bool :=
  match m.nodeMap.lookup top.node.key with
  | none => false
  | some node => top.allocation == node.allocation

def getLowestCPUNode (top : HeapTop) (m : ServerNodeManager) :
    Option NodePtr × ServerNodeManager :=
  let r := PriorityQueue.firstValid top.top m.current m.minHeap.length m.minHeap
  (r.1, { m with minHeap := r.2 })

def size (m : ServerNodeManager) : ℕ := m.nodeMap.entries.length

end ServerNodeManager

/-- A call of a manager. -/
inductive NodeCall where
  | upsertNode (node : ServerNode)
  | removeNode (ip : Bytes) (port : ℤ)
  | getLowestCPUNode (top : HeapTop)
  | size

/-- What a call returns. -/
inductive NodeResult where
  | done
  | removed (ret : Bool)
  | lowest (node : Option ServerNode)
  | size (n : ℕ)
deriving DecidableEq, Repr

/-- The loads that are published are numbers. -/
def NodeCall.NonNaN : NodeCall → Prop
  | upsertNode node => node.cpu_usage.isNaN = false
  | _ => True

instance : DecidablePred NodeCall.NonNaN
  | .upsertNode node => inferInstanceAs (Decidable (node.cpu_usage.isNaN = false))
  | .removeNode _ _ => .isTrue trivial
  | .getLowestCPUNode _ => .isTrue trivial
  | .size => .isTrue trivial

namespace ServerNodeManager

def call (m : ServerNodeManager) : NodeCall → NodeResult × ServerNodeManager
  | .upsertNode node => (.done, m.upsertNode node)
  | .removeNode ip port => (.removed (m.removeNode ip port).1, (m.removeNode ip port).2)
  | .getLowestCPUNode top =>
    (.lowest ((m.getLowestCPUNode top).1.map NodePtr.node), (m.getLowestCPUNode top).2)
  | .size => (.size m.size, m)

/-- What a sequence of calls returns. -/
def results (m : ServerNodeManager) : List NodeCall → List NodeResult
  | [] => []
  | c :: calls => (m.call c).1 :: (m.call c).2.results calls

end ServerNodeManager

/-! ## The map -/

/-- **The load last published for each address.** -/
abbrev Loads := AList (fun _ : Bytes => Double)

namespace Loads

/-- The loads after a call. -/
def after (loads : Loads) : NodeCall → Loads
  | .upsertNode node => loads.insert node.key node.cpu_usage
  | .removeNode ip port => loads.erase (addressKey ip port)
  | _ => loads

/-- A node is at its address, and no address has a lower load. -/
structure Lowest (loads : Loads) (node : ServerNode) : Prop where
  lookup : loads.lookup node.key = some node.cpu_usage
  minimal : ∀ key load, loads.lookup key = some load → node.cpu_usage.gt load = false

/-- **What a call may return**, as the loads have it. -/
def Allows (loads : Loads) : NodeCall → NodeResult → Prop
  | .upsertNode _, .done => True
  | .removeNode ip port, .removed ret => ret = true ↔ addressKey ip port ∈ loads
  | .getLowestCPUNode _, .lowest node =>
    (node = none ↔ loads = ∅) ∧ ∀ n, node = some n → loads.Lowest n
  | .size, .size n => n = loads.keys.length
  | _, _ => False

/-- The same of a sequence of calls, each with the loads that the calls
before it left. -/
def AllowsAll (loads : Loads) : List NodeCall → List NodeResult → Prop
  | [], [] => True
  | c :: calls, r :: results => loads.Allows c r ∧ (loads.after c).AllowsAll calls results
  | _, _ => False

end Loads

namespace ServerNodeManager

/-- **How a manager stands for loads.** The map has a node for each address,
and every node of the map is in the queue. Two entries of the queue are the
same if they are the same allocation. -/
structure Represents (m : ServerNodeManager) (loads : Loads) : Prop where
  lookup : ∀ key, loads.lookup key = (m.nodeAt key).map ServerNode.cpu_usage
  key : ∀ key p, m.nodeMap.lookup key = some p → p.node.key = key
  queued : ∀ key p, m.nodeMap.lookup key = some p → p ∈ m.minHeap
  pointer : ∀ p ∈ m.minHeap, ∀ q ∈ m.minHeap, p.allocation = q.allocation → p = q
  fresh : ∀ p ∈ m.minHeap, p.allocation < m.allocations
  nonNaN : ∀ p ∈ m.minHeap, p.node.cpu_usage.isNaN = false

theorem Represents.empty : Represents {} ∅ where
  lookup _ := rfl
  key _ _ h := by cases h
  queued _ _ h := by cases h
  pointer _ h := (List.not_mem_nil h).elim
  fresh _ h := (List.not_mem_nil h).elim
  nonNaN _ h := (List.not_mem_nil h).elim

variable {m : ServerNodeManager} {loads : Loads}

/-- The map and the loads have the same addresses. -/
theorem Represents.mem_iff (h : m.Represents loads) (key : Bytes) :
    key ∈ m.nodeMap ↔ key ∈ loads := by
  rw [← AList.lookup_isSome, ← AList.lookup_isSome, h.lookup, nodeAt, Option.isSome_map,
    Option.isSome_map]

/-! ## Pointers -/

/-- **How the queue and the map hold the nodes**, whatever the loads are. -/
structure Pointers (m : ServerNodeManager) : Prop where
  key : ∀ key p, m.nodeMap.lookup key = some p → p.node.key = key
  queued : ∀ key p, m.nodeMap.lookup key = some p → p ∈ m.minHeap
  pointer : ∀ p ∈ m.minHeap, ∀ q ∈ m.minHeap, p.allocation = q.allocation → p = q
  fresh : ∀ p ∈ m.minHeap, p.allocation < m.allocations

theorem Represents.pointers (h : m.Represents loads) : m.Pointers :=
  ⟨h.key, h.queued, h.pointer, h.fresh⟩

/-- The entries that are current are the nodes of the map. -/
theorem Pointers.current_iff (h : m.Pointers) {p : NodePtr} (hp : p ∈ m.minHeap) :
    m.current p = true ↔ m.nodeMap.lookup p.node.key = some p := by
  rw [current]
  constructor
  · intro hc
    split at hc
    · cases hc
    · rename_i q hq
      rw [hq, h.pointer p hp q (h.queued _ q hq) (beq_iff_eq.mp hc)]
  · intro hp
    rw [hp]
    exact beq_self_eq_true p.allocation

/-- A node of the map is current. -/
theorem Pointers.current (h : m.Pointers) {key : Bytes} {p : NodePtr}
    (hp : m.nodeMap.lookup key = some p) : m.current p = true := by
  refine (h.current_iff (h.queued key p hp)).mpr ?_
  rw [h.key key p hp]
  exact hp

theorem minHeap_removeNodeInternal (m : ServerNodeManager) (key : Bytes) :
    (m.removeNodeInternal key).2.minHeap = m.minHeap := by
  rw [removeNodeInternal]
  split
  · rfl
  · rfl

/-- The node at one address is gone, and the others are as they were. -/
theorem lookup_removeNodeInternal (m : ServerNodeManager) (key k : Bytes) :
    (m.removeNodeInternal key).2.nodeMap.lookup k
      = if k = key then none else m.nodeMap.lookup k := by
  rw [removeNodeInternal]
  split
  case h_1 hnone =>
    split
    case isTrue hk => rw [hk, hnone]
    case isFalse => rfl
  case h_2 =>
    split
    case isTrue hk => rw [hk, AList.lookup_erase]
    case isFalse hk => exact AList.lookup_erase_ne hk

theorem lookup_of_removeNodeInternal {key k : Bytes} {p : NodePtr}
    (h : (m.removeNodeInternal key).2.nodeMap.lookup k = some p) :
    m.nodeMap.lookup k = some p := by
  rw [lookup_removeNodeInternal] at h
  split at h
  · cases h
  · exact h

theorem Pointers.removeNodeInternal (h : m.Pointers) (key : Bytes) :
    (m.removeNodeInternal key).2.Pointers where
  key k p hp := h.key k p (lookup_of_removeNodeInternal hp)
  queued k p hp := by
    rw [minHeap_removeNodeInternal]
    exact h.queued k p (lookup_of_removeNodeInternal hp)
  pointer := by
    rw [minHeap_removeNodeInternal]
    exact h.pointer
  fresh := by
    have halloc : (m.removeNodeInternal key).2.allocations = m.allocations := by
      rw [ServerNodeManager.removeNodeInternal]
      split <;> rfl
    rw [minHeap_removeNodeInternal, halloc]
    exact h.fresh

/-! ## Every operation keeps it -/

theorem Represents.removeNodeInternal (h : m.Represents loads) (key : Bytes) :
    (m.removeNodeInternal key).2.Represents (loads.erase key) := by
  refine { h.pointers.removeNodeInternal key with
    lookup := fun k => ?_
    nonNaN := ?_ }
  · rw [nodeAt, lookup_removeNodeInternal]
    split
    case isTrue hk =>
      rw [hk, AList.lookup_erase]
      rfl
    case isFalse hk =>
      rw [AList.lookup_erase_ne hk]
      exact h.lookup k
  · rw [minHeap_removeNodeInternal]
    exact h.nonNaN

/-- The queue of the nodes of the map has no stale entries. -/
theorem mem_rebuildHeap (m : ServerNodeManager) (p : NodePtr) :
    p ∈ m.rebuildHeap.minHeap ↔ ∃ key, m.nodeMap.lookup key = some p := by
  have hheap : m.rebuildHeap.minHeap = (m.nodeMap.entries.map Sigma.snd).reverse ++ [] :=
    List.foldl_flip_cons_eq_append
  rw [hheap, List.append_nil, List.mem_reverse, List.mem_map]
  constructor
  · rintro ⟨entry, hentry, rfl⟩
    exact ⟨entry.1, AList.mem_lookup_iff.mpr hentry⟩
  · rintro ⟨key, hp⟩
    exact ⟨⟨key, p⟩, AList.mem_lookup_iff.mp hp, rfl⟩

theorem Pointers.mem_of_rebuildHeap (h : m.Pointers) {p : NodePtr}
    (hp : p ∈ m.rebuildHeap.minHeap) : p ∈ m.minHeap := by
  obtain ⟨key, hp⟩ := (m.mem_rebuildHeap p).mp hp
  exact h.queued key p hp

theorem Pointers.rebuildHeap (h : m.Pointers) : m.rebuildHeap.Pointers where
  key := h.key
  queued key p hp := (m.mem_rebuildHeap p).mpr ⟨key, hp⟩
  pointer p hp q hq := h.pointer p (h.mem_of_rebuildHeap hp) q (h.mem_of_rebuildHeap hq)
  fresh p hp := h.fresh p (h.mem_of_rebuildHeap hp)

theorem Represents.rebuildHeap (h : m.Represents loads) : m.rebuildHeap.Represents loads :=
  { h.pointers.rebuildHeap with
    lookup := h.lookup
    nonNaN := fun p hp => h.nonNaN p (h.pointers.mem_of_rebuildHeap hp) }

/-- What an upsert does before it looks at the count of stale entries. -/
def pushNode (m : ServerNodeManager) (node : ServerNode) : ServerNodeManager :=
  { m with
    minHeap := ⟨m.allocations, node⟩ :: m.minHeap
    nodeMap := m.nodeMap.insert node.key ⟨m.allocations, node⟩
    allocations := m.allocations + 1 }

theorem upsertNode_eq (m : ServerNodeManager) (node : ServerNode) :
    m.upsertNode node = (m.removeNodeInternal node.key).2.pushNode node
      ∨ m.upsertNode node = ((m.removeNodeInternal node.key).2.pushNode node).rebuildHeap := by
  have hpush : (({ m with allocations := m.allocations + 1 } :
        ServerNodeManager).removeNodeInternal node.key).2
      = { (m.removeNodeInternal node.key).2 with allocations := m.allocations + 1 } := by
    rw [removeNodeInternal, removeNodeInternal]
    cases m.nodeMap.lookup node.key <;> rfl
  have halloc : (m.removeNodeInternal node.key).2.allocations = m.allocations := by
    rw [removeNodeInternal]
    cases m.nodeMap.lookup node.key <;> rfl
  rw [upsertNode]
  dsimp only
  rw [hpush, pushNode, halloc]
  split
  · exact .inr rfl
  · exact .inl rfl

theorem Pointers.pushNode (h : m.Pointers) (node : ServerNode) : (m.pushNode node).Pointers where
  key key p hp := by
    by_cases hk : key = node.key
    · rw [ServerNodeManager.pushNode, hk, AList.lookup_insert] at hp
      obtain rfl := Option.some.inj hp
      exact hk.symm
    · rw [ServerNodeManager.pushNode, AList.lookup_insert_ne hk] at hp
      exact h.key key p hp
  queued key p hp := by
    by_cases hk : key = node.key
    · rw [ServerNodeManager.pushNode, hk, AList.lookup_insert] at hp
      obtain rfl := Option.some.inj hp
      exact List.mem_cons_self
    · rw [ServerNodeManager.pushNode, AList.lookup_insert_ne hk] at hp
      exact List.mem_cons_of_mem _ (h.queued key p hp)
  pointer p hp q hq heq := by
    -- the new node is the only one of its allocation
    rcases List.mem_cons.mp hp with rfl | hp <;> rcases List.mem_cons.mp hq with rfl | hq
    · rfl
    · exact absurd heq (Nat.ne_of_gt (h.fresh q hq))
    · exact absurd heq (Nat.ne_of_lt (h.fresh p hp))
    · exact h.pointer p hp q hq heq
  fresh p hp := by
    rcases List.mem_cons.mp hp with rfl | hp
    · exact Nat.lt_succ_self m.allocations
    · exact Nat.lt_succ_of_lt (h.fresh p hp)

theorem Represents.pushNode (h : m.Represents loads) {node : ServerNode}
    (hnode : node.cpu_usage.isNaN = false) :
    (m.pushNode node).Represents (loads.insert node.key node.cpu_usage) := by
  refine { h.pointers.pushNode node with
    lookup := fun key => ?_
    nonNaN := fun p hp => ?_ }
  · show (loads.insert node.key node.cpu_usage).lookup key
      = (((m.nodeMap.insert node.key ⟨m.allocations, node⟩).lookup key).map NodePtr.node).map
        ServerNode.cpu_usage
    by_cases hk : key = node.key
    · rw [hk, AList.lookup_insert, AList.lookup_insert]
      rfl
    · rw [AList.lookup_insert_ne hk, AList.lookup_insert_ne hk]
      exact h.lookup key
  · rcases List.mem_cons.mp hp with rfl | hp
    · exact hnode
    · exact h.nonNaN p hp

/-- Loads that agree at every address are as good. -/
theorem Represents.congr (h : m.Represents loads) {loads' : Loads}
    (heq : ∀ key, loads'.lookup key = loads.lookup key) : m.Represents loads' :=
  { h with lookup := fun key => (heq key).trans (h.lookup key) }

theorem Represents.upsertNode (h : m.Represents loads) {node : ServerNode}
    (hnode : node.cpu_usage.isNaN = false) :
    (m.upsertNode node).Represents (loads.insert node.key node.cpu_usage) := by
  have hpush : ((m.removeNodeInternal node.key).2.pushNode node).Represents
      (loads.insert node.key node.cpu_usage) := by
    refine ((h.removeNodeInternal node.key).pushNode hnode).congr fun key => ?_
    by_cases hk : key = node.key
    · rw [hk, AList.lookup_insert, AList.lookup_insert]
    · rw [AList.lookup_insert_ne hk, AList.lookup_insert_ne hk, AList.lookup_erase_ne hk]
  rcases m.upsertNode_eq node with heq | heq
  · rw [heq]
    exact hpush
  · rw [heq]
    exact hpush.rebuildHeap

theorem Represents.removeNode (h : m.Represents loads) (ip : Bytes) (port : ℤ) :
    (m.removeNode ip port).2.Represents (loads.erase (addressKey ip port)) :=
  h.removeNodeInternal (addressKey ip port)

/-- What `getLowestCPUNode` drops and finds. -/
theorem Represents.firstValid (h : m.Represents loads) (top : HeapTop) :
    PriorityQueue.FirstValid (fun a b => a.node.gt b.node = true) m.current m.minHeap
      ((m.getLowestCPUNode top).1, (m.getLowestCPUNode top).2.minHeap) :=
  PriorityQueue.firstValid_spec top m.current h.nonNaN rfl

theorem sublist_getLowestCPUNode (m : ServerNodeManager) (top : HeapTop) :
    (m.getLowestCPUNode top).2.minHeap.Sublist m.minHeap :=
  PriorityQueue.sublist_firstValid top.top m.current m.minHeap.length m.minHeap

/-- A node of the map is current, and so is not dropped. -/
theorem Pointers.getLowestCPUNode (h : m.Pointers) (top : HeapTop) :
    (m.getLowestCPUNode top).2.Pointers where
  key := h.key
  queued key p hp :=
    PriorityQueue.mem_firstValid top.top _ (h.queued key p hp) (h.current hp)
  pointer p hp q hq := h.pointer p ((m.sublist_getLowestCPUNode top).subset hp) q
    ((m.sublist_getLowestCPUNode top).subset hq)
  fresh p hp := h.fresh p ((m.sublist_getLowestCPUNode top).subset hp)

theorem Represents.getLowestCPUNode (h : m.Represents loads) (top : HeapTop) :
    (m.getLowestCPUNode top).2.Represents loads :=
  { h.pointers.getLowestCPUNode top with
    lookup := h.lookup
    nonNaN := fun p hp => h.nonNaN p ((m.sublist_getLowestCPUNode top).subset hp) }

/-! ## Every operation returns what the loads allow -/

theorem Represents.removeNode_true_iff (h : m.Represents loads) (ip : Bytes) (port : ℤ) :
    (m.removeNode ip port).1 = true ↔ addressKey ip port ∈ loads := by
  rw [← h.mem_iff, ← AList.lookup_isSome, ServerNodeManager.removeNode,
    ServerNodeManager.removeNodeInternal]
  cases m.nodeMap.lookup (addressKey ip port) <;> simp

/-- **Nothing is found in an empty map only.** -/
theorem Represents.getLowestCPUNode_none_iff (h : m.Represents loads) (top : HeapTop) :
    (m.getLowestCPUNode top).1 = none ↔ loads = ∅ := by
  have hfirst := h.firstValid top
  constructor
  · intro hnone
    refine AList.ext (List.eq_nil_iff_forall_not_mem.mpr fun entry hentry => ?_)
    have hmem : entry.1 ∈ m.nodeMap :=
      (h.mem_iff entry.1).mpr (AList.mem_keys.mpr (List.mem_map_of_mem hentry))
    obtain ⟨p, hp⟩ := Option.isSome_iff_exists.mp (AList.lookup_isSome.mpr hmem)
    have hqueued := (h.getLowestCPUNode top).queued entry.1 p hp
    rw [show (m.getLowestCPUNode top).2.minHeap = [] from hfirst.none hnone] at hqueued
    exact List.not_mem_nil hqueued
  · intro hempty
    cases hsome : (m.getLowestCPUNode top).1 with
    | none => rfl
    | some p =>
      obtain ⟨hmem, hcurrent, -⟩ := hfirst.some p hsome
      have hin : p.node.key ∈ loads := (h.mem_iff _).mp
        (AList.lookup_isSome.mp (by rw [(h.pointers.current_iff hmem).mp hcurrent]; rfl))
      rw [hempty] at hin
      exact absurd hin (AList.notMem_empty _)

/-- **What is found is a least loaded server.** -/
theorem Represents.lowest_getLowestCPUNode (h : m.Represents loads) {top : HeapTop} {p : NodePtr}
    (hp : (m.getLowestCPUNode top).1 = some p) : loads.Lowest p.node := by
  obtain ⟨hmem, hcurrent, hlow⟩ := (h.firstValid top).some p hp
  constructor
  · rw [h.lookup, nodeAt, (h.pointers.current_iff hmem).mp hcurrent]
    rfl
  · intro key load hload
    rw [h.lookup, nodeAt, Option.map_map, Option.map_eq_some_iff] at hload
    obtain ⟨q, hq, rfl⟩ := hload
    exact eq_false_of_ne_true (hlow q (h.queued key q hq) (h.pointers.current hq))

theorem Represents.size_eq (h : m.Represents loads) : m.size = loads.keys.length := by
  have hperm : m.nodeMap.keys.Perm loads.keys :=
    (List.perm_ext_iff_of_nodup m.nodeMap.keys_nodup loads.keys_nodup).mpr h.mem_iff
  rw [← hperm.length_eq, AList.keys, List.keys, List.length_map, size]

/-! ## Calls -/

/-- **One call**: what it returns, and what it leaves. -/
theorem Represents.call (h : m.Represents loads) {c : NodeCall} (hc : c.NonNaN) :
    loads.Allows c (m.call c).1 ∧ (m.call c).2.Represents (loads.after c) := by
  cases c with
  | upsertNode node => exact ⟨trivial, h.upsertNode hc⟩
  | removeNode ip port => exact ⟨h.removeNode_true_iff ip port, h.removeNode ip port⟩
  | getLowestCPUNode top =>
    refine ⟨⟨?_, fun n hn => ?_⟩, h.getLowestCPUNode top⟩
    · rw [Option.map_eq_none_iff]
      exact h.getLowestCPUNode_none_iff top
    · obtain ⟨p, hp, rfl⟩ := Option.map_eq_some_iff.mp hn
      exact h.lowest_getLowestCPUNode hp
  | size => exact ⟨h.size_eq, h⟩

/-- **Any sequence of calls.** -/
theorem Represents.results (h : m.Represents loads) {calls : List NodeCall}
    (hcalls : ∀ c ∈ calls, c.NonNaN) : loads.AllowsAll calls (m.results calls) := by
  induction calls generalizing m loads with
  | nil => exact trivial
  | cons c calls ih =>
    obtain ⟨hallows, hnext⟩ := h.call (hcalls c List.mem_cons_self)
    exact ⟨hallows, ih hnext fun c hc => hcalls c (List.mem_cons_of_mem _ hc)⟩

/-- **The nodes of a service behave as a map from address to load**,
whatever is called and in whatever order. -/
theorem behavesAsMap (calls : List NodeCall) (hcalls : ∀ c ∈ calls, c.NonNaN) :
    (∅ : Loads).AllowsAll calls (({} : ServerNodeManager).results calls) :=
  Represents.empty.results hcalls

/-- The queue, searched for its top. -/
def scannedTop : HeapTop :=
  PriorityQueue.scanTop _ (fun a b : NodePtr => a.node.gt b.node)
    (fun a => a.node.cpu_usage.gt_self) (fun _ _ _ => Double.gt_trans)

/-- A server whose load goes down and up again, between two others. -/
theorem behavesAsMap_updated :
    let calls : List NodeCall :=
      [.upsertNode ⟨.finite 5, [97], 1⟩, .upsertNode ⟨.finite 3, [98], 1⟩,
        .upsertNode ⟨.finite 1, [97], 1⟩, .getLowestCPUNode scannedTop,
        .upsertNode ⟨.finite 4, [97], 1⟩, .getLowestCPUNode scannedTop, .size,
        .removeNode [98] 1, .removeNode [98] 1, .getLowestCPUNode scannedTop]
    ({} : ServerNodeManager).results calls
        = [.done, .done, .done, .lowest (some ⟨.finite 1, [97], 1⟩),
          .done, .lowest (some ⟨.finite 3, [98], 1⟩), .size 2,
          .removed true, .removed false, .lowest (some ⟨.finite 4, [97], 1⟩)]
      ∧ (∅ : Loads).AllowsAll calls (({} : ServerNodeManager).results calls) := by
  intro calls
  exact ⟨by decide +kernel, behavesAsMap calls (by decide +kernel)⟩

end ServerNodeManager

end PbRpc
