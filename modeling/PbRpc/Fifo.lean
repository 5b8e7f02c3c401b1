import Mathlib.Data.List.Basic

/-!
# Queues with their history

A queue that is only ever appended to at one end and consumed from the other
is determined by what has been appended and by how much of it has been
consumed: what it holds is the rest (`Fifo.contents`), and what has left it
is a prefix (`Fifo.taken`). The two together are everything that was
appended, in order (`Fifo.taken_append_contents`), so that a component which
holds the contents of a `Fifo` has lost, repeated and exchanged nothing.

The number consumed never exceeds the number appended. That is a field of
the structure, and `consume` takes no more than there is.
-/

/-- **A queue with its history.** -/
structure Fifo (α : Type*) where
  appended : List α
  consumed : ℕ
  consumed_le : consumed ≤ appended.length

namespace Fifo

variable {α : Type*} (q : Fifo α)

/-- Nothing was appended. -/
def empty : Fifo α := ⟨[], 0, Nat.zero_le _⟩

/-- What the queue holds. -/
def contents : List α := q.appended.drop q.consumed

/-- What has left the queue. -/
def taken : List α := q.appended.take q.consumed

def append (as : List α) : Fifo α where
  appended := q.appended ++ as
  consumed := q.consumed
  consumed_le := by
    rw [List.length_append]
    exact Nat.le_trans q.consumed_le (Nat.le_add_right _ _)

/-- At most `n` elements leave the queue. -/
def consume (n : ℕ) : Fifo α where
  appended := q.appended
  consumed := min (q.consumed + n) q.appended.length
  consumed_le := Nat.min_le_right _ _

@[simp] theorem taken_empty : (empty : Fifo α).taken = [] := rfl

/-- **What has left and what is held is what was appended.** -/
theorem taken_append_contents : q.taken ++ q.contents = q.appended :=
  List.take_append_drop _ _

@[simp] theorem contents_append (as : List α) : (q.append as).contents = q.contents ++ as :=
  List.drop_append_of_le_length q.consumed_le

@[simp] theorem taken_append (as : List α) : (q.append as).taken = q.taken :=
  List.take_append_of_le_length q.consumed_le

@[simp] theorem appended_append (as : List α) :
    (q.append as).appended = q.appended ++ as := rfl

@[simp] theorem appended_consume (n : ℕ) : (q.consume n).appended = q.appended := rfl

/-- **Consuming drops a prefix.** -/
@[simp] theorem contents_consume (n : ℕ) : (q.consume n).contents = q.contents.drop n := by
  show q.appended.drop (min (q.consumed + n) q.appended.length) = _
  rw [contents, List.drop_drop]
  rcases Nat.le_total (q.consumed + n) q.appended.length with h | h
  · rw [Nat.min_eq_left h]
  · rw [Nat.min_eq_right h, List.drop_length, List.drop_of_length_le h]

/-- What is consumed leaves in order. -/
@[simp] theorem taken_consume (n : ℕ) :
    (q.consume n).taken = q.taken ++ q.contents.take n := by
  have h := (q.consume n).taken_append_contents
  rw [contents_consume, appended_consume, ← q.taken_append_contents] at h
  have hsplit : q.taken ++ q.contents
      = (q.taken ++ q.contents.take n) ++ q.contents.drop n := by
    rw [List.append_assoc, List.take_append_drop]
  exact List.append_cancel_right (h.trans hsplit)

end Fifo
