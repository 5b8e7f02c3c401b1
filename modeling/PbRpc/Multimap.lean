import Mathlib.Data.List.Pairwise
import Mathlib.Data.List.TakeWhile
import Mathlib.Order.Lattice

/-!
# Ordered multimaps

A `Multimap` is a sequence of entries in the order of their keys, where a key
may occur more than once. An entry is put behind those with the same key, so
that entries with one key are in the order in which they came. The bounds of a
key cut the sequence: `below` are the entries before the lower bound, `upTo`
those before the upper bound, and `equalRange` is what is between the two.

What a caller needs is that these pieces are filters of the sequence
(`upTo_eq_filter`, `beyond_eq_filter`), that an order that the keys and the
times of arrival refine is kept (`pairwise_emplace`), and which entry is erased
from the range of a key (`entries_eraseIn`).
-/

variable {κ ν : Type*} [LinearOrder κ]

/-- **An ordered multimap.** -/
structure Multimap (κ ν : Type*) [LinearOrder κ] where
  entries : List (κ × ν)
  sorted : entries.Pairwise (fun a b => a.1 ≤ b.1)

namespace Multimap

/-- The multimap without entries. -/
def empty : Multimap κ ν := ⟨[], List.Pairwise.nil⟩

/-- The entries before the lower bound of a key. -/
def below (m : Multimap κ ν) (k : κ) : List (κ × ν) := m.entries.takeWhile (fun x => x.1 < k)

/-- The entries before the upper bound of a key. -/
def upTo (m : Multimap κ ν) (k : κ) : List (κ × ν) := m.entries.takeWhile (fun x => x.1 ≤ k)

/-- The entries from the upper bound of a key on. -/
def beyond (m : Multimap κ ν) (k : κ) : List (κ × ν) := m.entries.dropWhile (fun x => x.1 ≤ k)

/-- The entries from the lower to the upper bound of a key. -/
def equalRange (m : Multimap κ ν) (k : κ) : List (κ × ν) :=
  (m.upTo k).dropWhile (fun x => x.1 < k)

variable (m : Multimap κ ν) (k : κ) (v : ν)

/-! ## The pieces are filters -/

/-- A prefix and a filter of a sorted sequence are the same, for what holds of
everything before an entry if it holds of the entry. -/
theorem takeWhile_eq_filter {α : Type*} {p : α → Bool} {l : List α}
    (h : l.Pairwise (fun a b => p b = true → p a = true)) :
    l.takeWhile p = l.filter p ∧ l.dropWhile p = l.filter (fun a => !p a) := by
  induction l with
  | nil => exact ⟨rfl, rfl⟩
  | cons a l ih =>
    obtain ⟨hhead, htail⟩ := List.pairwise_cons.mp h
    obtain ⟨htake, hdrop⟩ := ih htail
    cases ha : p a with
    | true =>
      rw [List.takeWhile_cons_of_pos ha, List.dropWhile_cons_of_pos ha, List.filter_cons_of_pos ha,
        List.filter_cons_of_neg (by rw [ha]; exact Bool.false_ne_true), htake, hdrop]
      exact ⟨rfl, rfl⟩
    | false =>
      have hnone : ∀ b ∈ a :: l, p b = false := by
        intro b hb
        rcases List.mem_cons.mp hb with rfl | hb
        · exact ha
        · refine eq_false_of_ne_true fun hpb => ?_
          rw [hhead b hb hpb] at ha
          cases ha
      have hneg : ¬ p a = true := by
        rw [ha]
        exact Bool.false_ne_true
      rw [List.takeWhile_cons_of_neg hneg, List.dropWhile_cons_of_neg hneg]
      refine ⟨(List.filter_eq_nil_iff.mpr fun b hb => ?_).symm,
        (List.filter_eq_self.mpr fun b hb => ?_).symm⟩
      · rw [hnone b hb]
        exact Bool.false_ne_true
      · rw [hnone b hb]
        rfl

theorem sorted_le : m.entries.Pairwise
    (fun a b => decide (b.1 ≤ k) = true → decide (a.1 ≤ k) = true) :=
  m.sorted.imp fun hab hb => decide_eq_true (hab.trans (of_decide_eq_true hb))

/-- The entries before the upper bound, too, are sorted. -/
theorem sorted_lt : (m.upTo k).Pairwise
    (fun a b => decide (b.1 < k) = true → decide (a.1 < k) = true) :=
  (m.sorted.sublist (List.takeWhile_sublist _)).imp
    fun hab hb => decide_eq_true (hab.trans_lt (of_decide_eq_true hb))

theorem upTo_eq_filter : m.upTo k = m.entries.filter (fun x => x.1 ≤ k) :=
  (takeWhile_eq_filter (m.sorted_le k)).1

theorem beyond_eq_filter : m.beyond k = m.entries.filter (fun x => k < x.1) := by
  refine (takeWhile_eq_filter (m.sorted_le k)).2.trans (List.filter_congr fun x _ => ?_)
  rw [← decide_not]
  exact decide_eq_decide.mpr not_le

theorem upTo_append_beyond : m.upTo k ++ m.beyond k = m.entries :=
  List.takeWhile_append_dropWhile

theorem below_append_equalRange : m.below k ++ m.equalRange k = m.upTo k := by
  have hbelow : m.below k = m.entries.filter (fun x => x.1 < k) :=
    (takeWhile_eq_filter (m.sorted.imp fun hab hb =>
      decide_eq_true (hab.trans_lt (of_decide_eq_true hb)))).1
  have htake : m.below k = (m.upTo k).takeWhile (fun x => x.1 < k) := by
    rw [(takeWhile_eq_filter (m.sorted_lt k)).1, upTo_eq_filter, List.filter_filter, hbelow]
    refine List.filter_congr fun x _ => ?_
    rw [← Bool.decide_and]
    exact decide_eq_decide.mpr ⟨fun h => ⟨h, h.le⟩, And.left⟩
  rw [htake, equalRange, List.takeWhile_append_dropWhile]

theorem mem_upTo {x : κ × ν} : x ∈ m.upTo k ↔ x ∈ m.entries ∧ x.1 ≤ k := by
  rw [upTo_eq_filter, List.mem_filter, decide_eq_true_iff]

theorem mem_beyond {x : κ × ν} : x ∈ m.beyond k ↔ x ∈ m.entries ∧ k < x.1 := by
  rw [beyond_eq_filter, List.mem_filter, decide_eq_true_iff]

/-! ## Putting in -/

/-- **An order is kept** that puts the new entry behind those with the same
key. -/
theorem pairwise_insert {R : κ × ν → κ × ν → Prop} (h : m.entries.Pairwise R)
    (hle : ∀ x ∈ m.entries, x.1 ≤ k → R x (k, v)) (hlt : ∀ x ∈ m.entries, k < x.1 → R (k, v) x) :
    (m.upTo k ++ (k, v) :: m.beyond k).Pairwise R := by
  rw [← m.upTo_append_beyond k] at h
  obtain ⟨hup, hbeyond, hcross⟩ := List.pairwise_append.mp h
  refine List.pairwise_append.mpr ⟨hup, List.pairwise_cons.mpr ⟨fun x hx => ?_, hbeyond⟩, ?_⟩
  · obtain ⟨hx, hk⟩ := (m.mem_beyond k).mp hx
    exact hlt x hx hk
  · intro x hx y hy
    rcases List.mem_cons.mp hy with rfl | hy
    · obtain ⟨hx, hk⟩ := (m.mem_upTo k).mp hx
      exact hle x hx hk
    · exact hcross x hx y hy

/-- **Put an entry in**, behind those with the same key. -/
def emplace : Multimap κ ν where
  entries := m.upTo k ++ (k, v) :: m.beyond k
  sorted := m.pairwise_insert k v m.sorted (fun _ _ h => h) (fun _ _ h => h.le)

theorem perm_emplace : (m.emplace k v).entries.Perm ((k, v) :: m.entries) := by
  refine List.perm_middle.trans ?_
  rw [upTo_append_beyond]

theorem mem_emplace {x : κ × ν} :
    x ∈ (m.emplace k v).entries ↔ x = (k, v) ∨ x ∈ m.entries := by
  rw [(m.perm_emplace k v).mem_iff, List.mem_cons]

/-- **The order of keys and of arrival is kept**, and any order like it. -/
theorem pairwise_emplace {R : κ × ν → κ × ν → Prop} (h : m.entries.Pairwise R)
    (hle : ∀ x ∈ m.entries, x.1 ≤ k → R x (k, v)) (hlt : ∀ x ∈ m.entries, k < x.1 → R (k, v) x) :
    (m.emplace k v).entries.Pairwise R :=
  m.pairwise_insert k v h hle hlt

/-! ## Taking out -/

/-- **Erase everything before the upper bound of a key.** -/
def eraseUpTo : Multimap κ ν where
  entries := m.beyond k
  sorted := m.sorted.sublist (List.dropWhile_sublist _)

theorem eraseP_congr {α : Type*} {p q : α → Bool} {l : List α} (h : ∀ a ∈ l, p a = q a) :
    l.eraseP p = l.eraseP q := by
  induction l with
  | nil => rfl
  | cons a l ih =>
    rw [List.eraseP_cons, List.eraseP_cons, h a List.mem_cons_self,
      ih fun b hb => h b (List.mem_cons_of_mem a hb)]

theorem fst_of_mem_below {x : κ × ν} (h : x ∈ m.below k) : x.1 < k := by
  have hlt := List.mem_takeWhile_imp h
  exact of_decide_eq_true hlt

theorem fst_of_mem_equalRange {x : κ × ν} (h : x ∈ m.equalRange k) : x.1 = k := by
  have hup := (List.dropWhile_sublist _).subset h
  refine le_antisymm ((m.mem_upTo k).mp hup).2 ?_
  have hdrop := (takeWhile_eq_filter (m.sorted_lt k)).2
  rw [equalRange, hdrop] at h
  have hnot := (List.mem_filter.mp h).2
  rw [← decide_not] at hnot
  exact not_lt.mp (of_decide_eq_true hnot)

/-- The first entry in the range of a key that a test accepts is the first of
all with this key that it accepts. -/
theorem eraseP_equalRange (p : ν → Bool) :
    m.below k ++ (m.equalRange k).eraseP (fun x => p x.2) ++ m.beyond k
      = m.entries.eraseP (fun x => x.1 = k && p x.2) := by
  have hnot : ∀ {x : κ × ν}, x.1 ≠ k → ¬ (decide (x.1 = k) && p x.2) = true := by
    intro x hne h
    exact hne (of_decide_eq_true (Bool.and_eq_true_iff.mp h).1)
  have hbelow : ∀ x ∈ m.below k, ¬ (decide (x.1 = k) && p x.2) = true :=
    fun x hx => hnot (m.fst_of_mem_below k hx).ne
  have hbeyond : ∀ x ∈ m.beyond k, ¬ (decide (x.1 = k) && p x.2) = true :=
    fun x hx => hnot ((m.mem_beyond k).mp hx).2.ne'
  have hrange : (m.equalRange k).eraseP (fun x => p x.2)
      = (m.equalRange k).eraseP (fun x => x.1 = k && p x.2) := by
    refine eraseP_congr fun x hx => ?_
    rw [m.fst_of_mem_equalRange k hx, decide_eq_true rfl, Bool.true_and]
  calc m.below k ++ (m.equalRange k).eraseP (fun x => p x.2) ++ m.beyond k
      = (m.below k ++ m.equalRange k).eraseP (fun x => x.1 = k && p x.2) ++ m.beyond k := by
        rw [hrange, List.eraseP_append_right _ hbelow]
    _ = (m.upTo k ++ m.beyond k).eraseP (fun x => x.1 = k && p x.2) := by
        rw [below_append_equalRange, List.eraseP_append]
        split
        case isTrue => rfl
        case isFalse hany =>
          rw [List.eraseP_of_forall_not hbeyond, List.eraseP_of_forall_not]
          intro x hx h
          exact hany (List.any_eq_true.mpr ⟨x, hx, h⟩)
    _ = m.entries.eraseP (fun x => x.1 = k && p x.2) := by rw [upTo_append_beyond]

/-- **Erase from the range of a key** the first entry that a test accepts. -/
def eraseIn (p : ν → Bool) : Multimap κ ν where
  entries := m.below k ++ (m.equalRange k).eraseP (fun x => p x.2) ++ m.beyond k
  sorted := m.eraseP_equalRange k p ▸ m.sorted.sublist List.eraseP_sublist

theorem entries_eraseIn (p : ν → Bool) :
    (m.eraseIn k p).entries = m.entries.eraseP (fun x => x.1 = k && p x.2) :=
  m.eraseP_equalRange k p

/-- What is accepted once only is filtered out. -/
theorem eraseP_eq_filter {α : Type*} {p : α → Bool} {l : List α}
    (h : l.Pairwise (fun a b => p a = true → ¬ p b = true)) :
    l.eraseP p = l.filter (fun a => !p a) := by
  induction l with
  | nil => rfl
  | cons a l ih =>
    obtain ⟨hhead, htail⟩ := List.pairwise_cons.mp h
    by_cases ha : p a = true
    · rw [List.eraseP_cons_of_pos ha, List.filter_cons_of_neg (by rw [ha]; exact Bool.false_ne_true)]
      refine (List.filter_eq_self.mpr fun b hb => ?_).symm
      rw [eq_false_of_ne_true (hhead b hb ha)]
      rfl
    · rw [List.eraseP_cons_of_neg ha, ih htail, List.filter_cons_of_pos]
      rw [eq_false_of_ne_true ha]
      rfl

end Multimap
