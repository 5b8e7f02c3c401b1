import Mathlib.Data.List.AList
import PbRpc.CxxString

/-!
# The nodes of a service

A `ServerNodeManager` keeps the servers of one service: a map from the
address to the node, and a priority queue of nodes by load. The map decides
which nodes there are; a node that is replaced or removed stays in the
queue and is recognised as stale later, because the map no longer points at
it. A node in the queue is therefore a pointer, and two nodes with the same
contents are not the same.
-/

namespace PbRpc

/-- **A server**, as it was published. -/
structure ServerNode where
  cpu_usage : Double
  ip : Bytes
  port : ℤ
deriving DecidableEq, Repr

/-- The key of an address in the map of nodes. -/
def addressKey (ip : Bytes) (port : ℤ) : Bytes := ip ++ colon :: toStringInt port

def ServerNode.key (n : ServerNode) : Bytes := addressKey n.ip n.port

/-- A `std::shared_ptr<ServerNode>`: the node, and which allocation it is. -/
structure NodePtr where
  allocation : ℕ
  node : ServerNode
deriving DecidableEq, Repr

/-- **The nodes of one service.** -/
structure ServerNodeManager where
  /-- The entries of the priority queue. -/
  minHeap : List NodePtr := []
  nodeMap : AList (fun _ : Bytes => NodePtr) := ∅
  /-- How many entries of the queue have become stale. -/
  staleCount : ℕ := 0
  /-- The allocations made so far. -/
  allocations : ℕ := 0

namespace ServerNodeManager

def staleCountThreshold : ℕ := 100

def removeNodeInternal (m : ServerNodeManager) (key : Bytes) : Bool × ServerNodeManager :=
  match m.nodeMap.lookup key with
  | none => (false, m)
  | some _ => (true, { m with nodeMap := m.nodeMap.erase key, staleCount := m.staleCount + 1 })

/-- Fill the queue anew with the nodes of the map. -/
def rebuildHeap (m : ServerNodeManager) : ServerNodeManager :=
  { m with
    minHeap := m.nodeMap.entries.foldl (fun heap entry => entry.2 :: heap) []
    staleCount := 0 }

def upsertNode (m : ServerNodeManager) (node : ServerNode) : ServerNodeManager :=
  let newNode : NodePtr := ⟨m.allocations, node⟩
  let key := newNode.node.key
  let m := ({ m with allocations := m.allocations + 1 }.removeNodeInternal key).2
  let m := { m with minHeap := newNode :: m.minHeap, nodeMap := m.nodeMap.insert key newNode }
  if m.staleCount ≥ staleCountThreshold ∧ m.minHeap ≠ [] then m.rebuildHeap else m

def removeNode (m : ServerNodeManager) (ip : Bytes) (port : ℤ) : Bool × ServerNodeManager :=
  m.removeNodeInternal (addressKey ip port)

/-- The node at an address. -/
def nodeAt (m : ServerNodeManager) (key : Bytes) : Option ServerNode :=
  (m.nodeMap.lookup key).map NodePtr.node

/-- **An upsert writes one entry of the map**, whatever becomes of the
queue. -/
theorem nodeAt_upsertNode (m : ServerNodeManager) (node : ServerNode) (key : Bytes) :
    (m.upsertNode node).nodeAt key = if key = node.key then some node else m.nodeAt key := by
  have hmap : (m.upsertNode node).nodeMap
      = (({ m with allocations := m.allocations + 1 }.removeNodeInternal node.key).2).nodeMap.insert
        node.key ⟨m.allocations, node⟩ := by
    unfold upsertNode
    dsimp only
    split <;> rfl
  rw [nodeAt, hmap]
  by_cases hk : key = node.key
  · rw [if_pos hk, hk, AList.lookup_insert]
    rfl
  · rw [if_neg hk, AList.lookup_insert_ne hk, removeNodeInternal]
    split
    · rfl
    · rw [AList.lookup_erase_ne hk]
      rfl

/-- Removing an address that is not there changes nothing. -/
theorem removeNode_of_none {m : ServerNodeManager} {ip : Bytes} {port : ℤ}
    (h : m.nodeAt (addressKey ip port) = none) : m.removeNode ip port = (false, m) := by
  rw [nodeAt, Option.map_eq_none_iff] at h
  rw [removeNode, removeNodeInternal, h]

end ServerNodeManager

end PbRpc
