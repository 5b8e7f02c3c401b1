import Mathlib.Data.List.Basic
import Mathlib.Data.List.Sublists
import Mathlib.Order.Basic

/-!
# Priority queues with stale entries

A priority queue says of its top that no entry comes before it. Which of
several such entries it is depends on how the queue is built, so `Top` is any
choice of one. The choice need only be right for queues whose entries can be
compared with one another; of the others it says no more than that the top is
an entry.

Where entries cannot be taken out of the middle, one that is no longer wanted
is left in, and dropped when it comes to the top. `firstValid` is that loop.
It never drops an entry that is still valid, and what it finds is valid and
comes after no valid entry (`firstValid_spec`): the stale entries cannot be
told from the outside.
-/

namespace PriorityQueue

variable {α : Type*} {ordered : α → Prop} {after : α → α → Prop}

/-- **A choice of the top of a queue.** -/
structure Top (ordered : α → Prop) (after : α → α → Prop) where
  top : List α → Option α
  mem_top : ∀ l, l ≠ [] → ∃ a ∈ l, top l = some a
  not_after : ∀ l a, (∀ b ∈ l, ordered b) → top l = some a → ∀ b ∈ l, ¬ after a b

/-- Look at the top until it is valid, and drop it when it is not. -/
def firstValid [DecidableEq α] (top : List α → Option α) (valid : α → Bool) :
    ℕ → List α → Option α × List α
  | 0, l => (none, l)
  | n + 1, l =>
    match top l with
    | none => (none, l)
    | some a => if valid a then (some a, l) else firstValid top valid n (l.erase a)

/-- What `firstValid` leaves of a queue, and what it finds. -/
structure FirstValid (after : α → α → Prop) (valid : α → Bool) (l : List α)
    (r : Option α × List α) : Prop where
  sublist : r.2.Sublist l
  keeps : ∀ b ∈ l, valid b = true → b ∈ r.2
  none : r.1 = none → r.2 = []
  some : ∀ a, r.1 = some a → a ∈ l ∧ valid a = true ∧ ∀ b ∈ l, valid b = true → ¬ after a b

/-- Entries are dropped and not added. -/
theorem sublist_firstValid [DecidableEq α] (top : List α → Option α) (valid : α → Bool) (n : ℕ)
    (l : List α) : (firstValid top valid n l).2.Sublist l := by
  induction n generalizing l with
  | zero => exact List.Sublist.refl l
  | succ n ih =>
    rw [firstValid]
    split
    · exact List.Sublist.refl l
    · split
      · exact List.Sublist.refl l
      · exact (ih _).trans List.erase_sublist

/-- What is dropped is not a valid entry. -/
theorem mem_erase_of_valid [DecidableEq α] {valid : α → Bool} {l : List α} {a b : α}
    (hstale : ¬ valid a = true) (hb : b ∈ l) (hvalid : valid b = true) : b ∈ l.erase a := by
  refine (List.mem_erase_of_ne ?_).mpr hb
  rintro rfl
  exact hstale hvalid

/-- No valid entry is dropped, whatever the top is. -/
theorem mem_firstValid [DecidableEq α] (top : List α → Option α) {valid : α → Bool} (n : ℕ)
    {l : List α} {b : α} (hb : b ∈ l) (hvalid : valid b = true) :
    b ∈ (firstValid top valid n l).2 := by
  induction n generalizing l with
  | zero => exact hb
  | succ n ih =>
    rw [firstValid]
    split
    · exact hb
    · split
      case isTrue => exact hb
      case isFalse hstale => exact ih (mem_erase_of_valid hstale hb hvalid)

/-- **The stale entries do not show.** -/
theorem firstValid_spec [DecidableEq α] (top : Top ordered after) (valid : α → Bool)
    {n : ℕ} {l : List α} (hord : ∀ b ∈ l, ordered b) (hn : l.length = n) :
    FirstValid after valid l (firstValid top.top valid n l) := by
  induction n generalizing l with
  | zero =>
    obtain rfl : l = [] := List.eq_nil_of_length_eq_zero hn
    exact ⟨List.Sublist.refl _, fun b hb => (List.not_mem_nil hb).elim, fun _ => rfl, nofun⟩
  | succ n ih =>
    have hne : l ≠ [] := by
      rintro rfl
      exact absurd hn (Nat.succ_ne_zero n).symm
    obtain ⟨a, hmem, ha⟩ := top.mem_top l hne
    rw [firstValid, ha]
    dsimp only
    split
    case isTrue hvalid =>
      refine ⟨List.Sublist.refl _, fun b hb _ => hb, nofun, fun b hb => ?_⟩
      obtain rfl := Option.some.inj hb
      exact ⟨hmem, hvalid, fun b hb _ => top.not_after l a hord ha b hb⟩
    case isFalse hstale =>
      have hlen : (l.erase a).length = n := by
        rw [List.length_erase_of_mem hmem, hn, Nat.add_sub_cancel]
      have h := ih (fun b hb => hord b (List.mem_of_mem_erase hb)) hlen
      refine ⟨h.sublist.trans List.erase_sublist,
        fun b hb hvalid => h.keeps b (mem_erase_of_valid hstale hb hvalid) hvalid, h.none,
        fun b hb => ?_⟩
      obtain ⟨hmem', hvalid, hlow⟩ := h.some b hb
      exact ⟨List.mem_of_mem_erase hmem', hvalid,
        fun c hc hvalid' => hlow c (mem_erase_of_valid hstale hc hvalid') hvalid'⟩

/-- The top of a queue that is searched from the end. -/
def scan (after : α → α → Bool) : List α → Option α
  | [] => none
  | a :: l =>
    match scan after l with
    | none => some a
    | some b => if after b a then some a else some b

theorem scan_eq_none {after : α → α → Bool} {l : List α} (h : scan after l = none) : l = [] := by
  cases l with
  | nil => rfl
  | cons a l =>
    rw [scan] at h
    split at h
    · cases h
    · split at h <;> cases h

theorem mem_scan {after : α → α → Bool} {l : List α} {a : α} (h : scan after l = some a) :
    a ∈ l := by
  induction l generalizing a with
  | nil => cases h
  | cons x l ih =>
    rw [scan] at h
    split at h
    case h_1 =>
      obtain rfl := Option.some.inj h
      exact List.mem_cons_self
    case h_2 y hrest =>
      split at h
      · obtain rfl := Option.some.inj h
        exact List.mem_cons_self
      · obtain rfl := Option.some.inj h
        exact List.mem_cons_of_mem x (ih hrest)

theorem not_after_scan {after : α → α → Bool} (hirrefl : ∀ a, after a a = false)
    (htrans : ∀ a b c, after a b = true → after b c = true → after a c = true)
    {l : List α} {a : α} (h : scan after l = some a) : ∀ b ∈ l, ¬ after a b = true := by
  have hself : ∀ a, ¬ after a a = true := by
    intro a
    rw [hirrefl]
    exact Bool.false_ne_true
  induction l generalizing a with
  | nil => cases h
  | cons x l ih =>
    intro b hb
    rw [scan] at h
    split at h
    case h_1 hrest =>
      obtain rfl := Option.some.inj h
      rw [scan_eq_none hrest, List.mem_singleton] at hb
      rw [hb]
      exact hself x
    case h_2 y hrest =>
      split at h
      case isTrue hyx =>
        obtain rfl := Option.some.inj h
        rcases List.mem_cons.mp hb with rfl | hb
        · exact hself b
        · exact fun hxb => ih hrest b hb (htrans y x b hyx hxb)
      case isFalse hyx =>
        obtain rfl := Option.some.inj h
        rcases List.mem_cons.mp hb with rfl | hb
        · exact hyx
        · exact ih hrest b hb

/-- **A queue can be searched for its top.** -/
def scanTop (ordered : α → Prop) (after : α → α → Bool)
    (hirrefl : ∀ a, after a a = false)
    (htrans : ∀ a b c, after a b = true → after b c = true → after a c = true) :
    Top ordered (fun a b => after a b = true) where
  top := scan after
  mem_top l hne := by
    cases hl : scan after l with
    | none => exact absurd (scan_eq_none hl) hne
    | some a => exact ⟨a, mem_scan hl, rfl⟩
  not_after _ _ _ hl := not_after_scan hirrefl htrans hl

end PriorityQueue
