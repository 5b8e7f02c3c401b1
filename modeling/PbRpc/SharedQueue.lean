import Mathlib.Data.List.Basic
import Mathlib.Tactic.Common

/-!
# A list that several share

Several users put their items into one list, each under its own name. What a
user sees of it are its own items in their order (`itemsOf`). What the others
put in or take out does not change that, and an item that is taken out somewhere
in the list is taken out somewhere among those of its user.
-/

namespace SharedQueue

variable {ι α : Type*} [DecidableEq ι] {i j : ι} {l l' : List (ι × α)} {a : α}

/-- **The items of a user**, in their order. -/
def itemsOf (i : ι) (l : List (ι × α)) : List α := (l.filter (fun e => e.1 = i)).map Prod.snd

@[simp] theorem itemsOf_nil (i : ι) : itemsOf i ([] : List (ι × α)) = [] := rfl

@[simp] theorem itemsOf_append (i : ι) (l l' : List (ι × α)) :
    itemsOf i (l ++ l') = itemsOf i l ++ itemsOf i l' := by
  simp [itemsOf]

theorem itemsOf_cons_self (i : ι) (a : α) (l : List (ι × α)) :
    itemsOf i ((i, a) :: l) = a :: itemsOf i l := by
  simp [itemsOf]

theorem itemsOf_cons_of_ne (h : i ≠ j) (a : α) (l : List (ι × α)) :
    itemsOf j ((i, a) :: l) = itemsOf j l := by
  simp [itemsOf, h]

/-- What a user puts in. -/
theorem itemsOf_map_self (i : ι) (as : List α) : itemsOf i (as.map (i, ·)) = as := by
  induction as with
  | nil => rfl
  | cons a as ih => rw [List.map_cons, itemsOf_cons_self, ih]

theorem itemsOf_map_of_ne (h : i ≠ j) (as : List α) : itemsOf j (as.map (i, ·)) = [] := by
  induction as with
  | nil => rfl
  | cons a as ih => rw [List.map_cons, itemsOf_cons_of_ne h, ih]

/-- **An item that is taken out** is one of its user's. -/
theorem itemsOf_eraseIdx_self {n : ℕ} (h : l[n]? = some (i, a)) :
    ∃ m, (itemsOf i l)[m]? = some a ∧ itemsOf i (l.eraseIdx n) = (itemsOf i l).eraseIdx m := by
  induction l generalizing n with
  | nil => cases h
  | cons e l ih =>
    cases n with
    | zero =>
      obtain rfl := Option.some.inj h
      exact ⟨0, by rw [itemsOf_cons_self]; rfl, by rw [itemsOf_cons_self]; rfl⟩
    | succ n =>
      obtain ⟨m, hm, herase⟩ := ih h
      rw [List.eraseIdx_cons_succ]
      by_cases he : e.1 = i
      · obtain ⟨e₁, b⟩ := e
        obtain rfl : e₁ = i := he
        rw [itemsOf_cons_self, itemsOf_cons_self]
        exact ⟨m + 1, hm, congrArg (b :: ·) herase⟩
      · rw [itemsOf_cons_of_ne he, itemsOf_cons_of_ne he]
        exact ⟨m, hm, herase⟩

/-- The other users do not see it. -/
theorem itemsOf_eraseIdx_of_ne {n : ℕ} (h : l[n]? = some (i, a)) (hne : i ≠ j) :
    itemsOf j (l.eraseIdx n) = itemsOf j l := by
  induction l generalizing n with
  | nil => rfl
  | cons e l ih =>
    cases n with
    | zero =>
      obtain rfl := Option.some.inj h
      exact (itemsOf_cons_of_ne hne a l).symm
    | succ n =>
      rw [List.eraseIdx_cons_succ]
      by_cases he : e.1 = j
      · obtain ⟨e₁, b⟩ := e
        obtain rfl : e₁ = j := he
        rw [itemsOf_cons_self, itemsOf_cons_self, ih h]
      · rw [itemsOf_cons_of_ne he, itemsOf_cons_of_ne he, ih h]

end SharedQueue
