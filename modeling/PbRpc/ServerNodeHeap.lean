import Mathlib.Data.List.Dedup
import PbRpc.ServerNodeQueue

/-!
# The queue does not grow without bound

A node that is replaced or removed stays in the queue. `removeNodeInternal`
counts it, and `upsertNode` builds the queue anew when the count has reached
the threshold. The count is not the number of stale entries: those that
`getLowestCPUNode` drops are not subtracted. It is never less, though, and so
the queue is bounded by the map, the count and the threshold (`heapBounded`),
whatever the loads are and in whatever order the calls come.
-/

namespace PbRpc

namespace ServerNodeManager

/-- The entries of the queue that the map does not point at. -/
def stale (m : ServerNodeManager) : List NodePtr := m.minHeap.filter (fun p => !m.current p)

/-- **The queue and the map**: the stale entries are counted, and every node
of the map is in the queue once. -/
structure HeapBounded (m : ServerNodeManager) : Prop where
  stale : m.stale.length ≤ m.staleCount
  queued : ∀ key p, m.nodeMap.lookup key = some p → m.minHeap.count p = 1

/-- The manager after a sequence of calls. -/
def afterCalls (m : ServerNodeManager) (calls : List NodeCall) : ServerNodeManager :=
  calls.foldl (fun m c => (m.call c).2) m

/-- **What every call keeps.** The allocations of the queue are different. -/
structure HeapInv (m : ServerNodeManager) : Prop where
  nodup : (m.minHeap.map NodePtr.allocation).Nodup
  fresh : ∀ p ∈ m.minHeap, p.allocation < m.allocations
  key : ∀ key p, m.nodeMap.lookup key = some p → p.node.key = key
  queued : ∀ key p, m.nodeMap.lookup key = some p → p ∈ m.minHeap
  length_le : m.minHeap.length ≤ m.size + m.staleCount

theorem HeapInv.empty : HeapInv {} where
  nodup := List.nodup_nil
  fresh _ hp := (List.not_mem_nil hp).elim
  key _ _ h := by cases h
  queued _ _ h := by cases h
  length_le := le_rfl

variable {m : ServerNodeManager}

theorem size_eq_length_keys (m : ServerNodeManager) : m.size = m.nodeMap.keys.length := by
  rw [size, AList.keys, List.keys, List.length_map]

/-! ## Stale entries -/

theorem HeapInv.pointers (h : m.HeapInv) : m.Pointers where
  key := h.key
  queued := h.queued
  pointer _ hp _ hq heq := List.inj_on_of_nodup_map h.nodup hp hq heq
  fresh := h.fresh

/-- The nodes of the map are different. -/
theorem HeapInv.nodup_nodes (h : m.HeapInv) : (m.nodeMap.entries.map Sigma.snd).Nodup := by
  refine List.Nodup.map_on ?_ m.nodeMap.nodupKeys.nodup
  intro e he e' he' hsame
  have hkey := h.key e.1 e.2 (AList.mem_lookup_iff.mpr he)
  have hkey' := h.key e'.1 e'.2 (AList.mem_lookup_iff.mpr he')
  refine Sigma.ext ?_ (heq_of_eq hsame)
  rw [← hkey, ← hkey', hsame]

/-- **There are as many current entries as nodes.** -/
theorem HeapInv.length_current (h : m.HeapInv) :
    (m.minHeap.filter m.current).length = m.size := by
  have hperm : (m.minHeap.filter m.current).Perm (m.nodeMap.entries.map Sigma.snd) := by
    refine (List.perm_ext_iff_of_nodup (h.nodup.of_map.filter _) h.nodup_nodes).mpr fun p => ?_
    rw [List.mem_filter, List.mem_map]
    constructor
    · rintro ⟨hp, hcurrent⟩
      exact ⟨⟨_, p⟩, AList.mem_lookup_iff.mp ((h.pointers.current_iff hp).mp hcurrent), rfl⟩
    · rintro ⟨e, he, rfl⟩
      have hlookup := AList.mem_lookup_iff.mpr he
      exact ⟨h.queued e.1 e.2 hlookup, h.pointers.current hlookup⟩
  rw [hperm.length_eq, List.length_map, size]

/-- The stale entries are the others. -/
theorem HeapInv.length_minHeap (h : m.HeapInv) :
    m.minHeap.length = m.size + m.stale.length := by
  rw [← h.length_current, stale]
  exact m.minHeap.length_eq_length_filter_add m.current

theorem HeapInv.bounded (h : m.HeapInv) : m.HeapBounded where
  stale := by
    have hlength := h.length_minHeap
    have hle := h.length_le
    omega
  queued key p hp := List.count_eq_one_of_mem h.nodup.of_map (h.queued key p hp)

/-! ## Every operation keeps it -/

theorem length_removeNodeInternal (m : ServerNodeManager) (key : Bytes) :
    m.size + m.staleCount
      = (m.removeNodeInternal key).2.size + (m.removeNodeInternal key).2.staleCount := by
  rw [removeNodeInternal]
  split
  case h_1 => rfl
  case h_2 p hp =>
    -- one node less, and one stale entry more
    have hmem : key ∈ m.nodeMap.keys :=
      AList.mem_keys.mp (AList.lookup_isSome.mp (by rw [hp]; rfl))
    have hpos := List.length_pos_of_mem hmem
    rw [size_eq_length_keys, size_eq_length_keys]
    show m.nodeMap.keys.length + m.staleCount
      = (m.nodeMap.erase key).keys.length + (m.staleCount + 1)
    rw [AList.keys_erase,
      @List.length_erase_of_mem Bytes instBEqOfDecidableEq inferInstance _ _ hmem]
    omega

theorem HeapInv.removeNodeInternal (h : m.HeapInv) (key : Bytes) :
    (m.removeNodeInternal key).2.HeapInv := by
  refine { h.pointers.removeNodeInternal key with
    nodup := ?_
    length_le := ?_ }
  · rw [minHeap_removeNodeInternal]
    exact h.nodup
  · rw [minHeap_removeNodeInternal, ← length_removeNodeInternal]
    exact h.length_le

theorem notMem_removeNodeInternal (m : ServerNodeManager) (key : Bytes) :
    key ∉ (m.removeNodeInternal key).2.nodeMap := by
  refine AList.lookup_eq_none.mp ?_
  rw [lookup_removeNodeInternal]
  exact if_pos rfl

theorem HeapInv.pushNode (h : m.HeapInv) {node : ServerNode} (hnew : node.key ∉ m.nodeMap) :
    (m.pushNode node).HeapInv := by
  refine { h.pointers.pushNode node with
    nodup := List.nodup_cons.mpr ⟨fun hmem => ?_, h.nodup⟩
    length_le := ?_ }
  · obtain ⟨p, hp, heq⟩ := List.mem_map.mp hmem
    exact absurd heq (Nat.ne_of_lt (h.fresh p hp))
  · have hle := h.length_le
    rw [size] at hle ⊢
    show m.minHeap.length + 1 ≤ (m.nodeMap.insert node.key _).entries.length + m.staleCount
    rw [AList.entries_insert_of_notMem hnew, List.length_cons]
    omega

theorem HeapInv.rebuildHeap (h : m.HeapInv) : m.rebuildHeap.HeapInv := by
  have hheap : m.rebuildHeap.minHeap = (m.nodeMap.entries.map Sigma.snd).reverse ++ [] :=
    List.foldl_flip_cons_eq_append
  rw [List.append_nil] at hheap
  have hnodup : m.rebuildHeap.minHeap.Nodup := by
    rw [hheap]
    exact List.nodup_reverse.mpr h.nodup_nodes
  refine { h.pointers.rebuildHeap with
    nodup := List.Nodup.map_on (fun p hp q hq => ?_) hnodup
    length_le := ?_ }
  · exact h.pointers.rebuildHeap.pointer p hp q hq
  · rw [hheap, List.length_reverse, List.length_map]
    exact le_rfl

theorem HeapInv.upsertNode (h : m.HeapInv) (node : ServerNode) : (m.upsertNode node).HeapInv := by
  have hpush := (h.removeNodeInternal node.key).pushNode (m.notMem_removeNodeInternal node.key)
  rcases m.upsertNode_eq node with heq | heq
  · rw [heq]
    exact hpush
  · rw [heq]
    exact hpush.rebuildHeap

theorem HeapInv.getLowestCPUNode (h : m.HeapInv) (top : HeapTop) :
    (m.getLowestCPUNode top).2.HeapInv :=
  { h.pointers.getLowestCPUNode top with
    nodup := h.nodup.sublist ((m.sublist_getLowestCPUNode top).map _)
    length_le := (m.sublist_getLowestCPUNode top).length_le.trans h.length_le }

theorem HeapInv.call (h : m.HeapInv) (c : NodeCall) : (m.call c).2.HeapInv := by
  cases c with
  | upsertNode node => exact h.upsertNode node
  | removeNode ip port => exact h.removeNodeInternal _
  | getLowestCPUNode top => exact h.getLowestCPUNode top
  | size => exact h

theorem HeapInv.afterCalls (h : m.HeapInv) (calls : List NodeCall) :
    (m.afterCalls calls).HeapInv := by
  induction calls generalizing m with
  | nil => exact h
  | cons c calls ih => exact ih (h.call c)

/-! ## The bound -/

/-- After an upsert the count is below the threshold. -/
theorem staleCount_upsertNode_lt (m : ServerNodeManager) (node : ServerNode) :
    (m.upsertNode node).staleCount < staleCountThreshold := by
  rw [upsertNode]
  dsimp only
  split
  case isTrue => exact (by decide : 0 < staleCountThreshold)
  case isFalse hfew =>
    refine lt_of_not_ge fun hmany => hfew ⟨hmany, List.cons_ne_nil _ _⟩

/-- Only an upsert makes the queue longer. -/
theorem length_minHeap_call_le (m : ServerNodeManager) {c : NodeCall}
    (hc : ∀ node, c ≠ .upsertNode node) : (m.call c).2.minHeap.length ≤ m.minHeap.length := by
  cases c with
  | upsertNode node => exact absurd rfl (hc node)
  | removeNode ip port => exact (congrArg List.length (m.minHeap_removeNodeInternal _)).le
  | getLowestCPUNode top => exact (m.sublist_getLowestCPUNode top).length_le
  | size => exact le_rfl

/-- **The queue is bounded**, after any calls: the stale entries are counted,
each node is in the queue once, after an upsert the queue is longer than the
map by less than the threshold, and no other call makes it longer. -/
theorem heapBounded (calls : List NodeCall) :
    (afterCalls {} calls).HeapBounded ∧
      (∀ node, ((afterCalls {} calls).upsertNode node).minHeap.length
        ≤ ((afterCalls {} calls).upsertNode node).size + staleCountThreshold - 1) ∧
      ∀ c, (∀ node, c ≠ .upsertNode node) →
        ((afterCalls {} calls).call c).2.minHeap.length ≤ (afterCalls {} calls).minHeap.length := by
  have h := HeapInv.empty.afterCalls calls
  refine ⟨h.bounded, fun node => ?_, fun c hc => length_minHeap_call_le _ hc⟩
  have hle := (h.upsertNode node).length_le
  have hlt := staleCount_upsertNode_lt (afterCalls {} calls) node
  omega

end ServerNodeManager

end PbRpc
