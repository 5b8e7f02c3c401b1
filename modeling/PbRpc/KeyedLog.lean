import Mathlib.Data.List.AList
import Mathlib.Data.List.Induction

/-!
# Keyed logs

A log of entries about keys, of which the last about a key is what counts
(`last`), and the updates of a keyed store, after which a key has the value
of the last update about it, or the one it had (`after_apply`).

A replica reads a store by listing it and then following its updates. What
it has been told is the listing and the updates, one after the other, and it
knows a key when the last it was told agrees with the store (`Knows`). The
updates may begin after the listing: `knows_iff` says of which keys the
replica is then right. It is those whose value had not changed when the
updates began, and those that are updated after that.
-/

namespace KeyedLog

variable {α β κ ν : Type*} [DecidableEq κ]

/-- **The last entry about a key.** -/
def last (key : α → κ) (k : κ) (l : List α) : Option α :=
  (l.filter (fun a => key a = k)).getLast?

section Last

variable (key : α → κ) (k : κ)

theorem last_append (l l' : List α) :
    last key k (l ++ l') = (last key k l').or (last key k l) := by
  rw [last, List.filter_append, List.getLast?_append, last, last]

theorem last_singleton (a : α) : last key k [a] = if key a = k then some a else none := by
  rw [last, List.filter_singleton]
  by_cases h : key a = k
  · simp [h]
  · simp [h]

theorem last_eq_none_iff {l : List α} : last key k l = none ↔ ∀ a ∈ l, key a ≠ k := by
  rw [last, List.getLast?_eq_none_iff, List.filter_eq_nil_iff]
  simp only [decide_eq_true_eq, ne_eq]

/-- The last entry about a key is an entry, and about that key. -/
theorem mem_of_last {l : List α} {a : α} (h : last key k l = some a) : a ∈ l ∧ key a = k := by
  have hmem := List.mem_of_getLast? h
  exact ⟨List.mem_of_mem_filter hmem, of_decide_eq_true (List.mem_filter.mp hmem).2⟩

/-- A translation that keeps the keys. -/
theorem last_map (key' : β → κ) (f : β → α) (hf : ∀ b, key (f b) = key' b) (l : List β) :
    last key k (l.map f) = (last key' k l).map f := by
  rw [last, last, List.filter_map, List.getLast?_map]
  simp only [Function.comp_def, hf]

end Last

/-! ## Updates -/

/-- **An update of a keyed store.** -/
inductive Update (κ ν : Type*) where
  | put (key : κ) (value : ν)
  | delete (key : κ)
deriving DecidableEq, Repr

namespace Update

def key : Update κ ν → κ
  | put k _ => k
  | delete k => k

/-- What its key has after it. -/
def value : Update κ ν → Option ν
  | put _ v => some v
  | delete _ => none

omit [DecidableEq κ] in
theorem eq_put_iff {u : Update κ ν} {k : κ} {v : ν} :
    u = put k v ↔ u.key = k ∧ u.value = some v := by
  cases u <;> simp [key, value]

omit [DecidableEq κ] in
theorem eq_delete_iff {u : Update κ ν} {k : κ} :
    u = delete k ↔ u.key = k ∧ u.value = none := by
  cases u <;> simp [key, value]

end Update

/-- The store after one update. -/
def apply (store : κ → Option ν) (u : Update κ ν) : κ → Option ν :=
  Function.update store u.key u.value

/-- **The store after updates.** -/
def after (store : κ → Option ν) (us : List (Update κ ν)) : κ → Option ν := us.foldl apply store

theorem after_append_singleton (store : κ → Option ν) (us : List (Update κ ν)) (u : Update κ ν) :
    after store (us ++ [u]) = Function.update (after store us) u.key u.value := by
  rw [after, List.foldl_append]
  rfl

/-- **The last update of a key counts.** -/
theorem after_apply (store : κ → Option ν) (us : List (Update κ ν)) (k : κ) :
    after store us k = ((last Update.key k us).map Update.value).getD (store k) := by
  induction us using List.reverseRecOn with
  | nil => rfl
  | append_singleton us u ih =>
    rw [after_append_singleton, last_append, last_singleton]
    by_cases hk : u.key = k
    · subst hk
      simp
    · rw [Function.update_of_ne (Ne.symm hk), ih, if_neg hk, Option.none_or]

/-! ## Replicas -/

/-- The listing of a store, as updates. -/
def puts (listed : AList (fun _ : κ => ν)) : List (Update κ ν) :=
  listed.entries.map (fun e => .put e.1 e.2)

theorem last_puts (listed : AList (fun _ : κ => ν)) (k : κ) :
    last Update.key k (puts listed) = (listed.lookup k).map (Update.put k) := by
  cases hk : listed.lookup k with
  | none =>
    rw [Option.map_none, last_eq_none_iff]
    intro u hu heq
    obtain ⟨e, he, rfl⟩ := List.mem_map.mp hu
    obtain rfl : e.1 = k := heq
    exact AList.lookup_eq_none.mp hk (AList.mem_keys.mpr (List.mem_map_of_mem he))
  | some v =>
    -- some entry of the listing is about the key, and there are no two
    have hin : Update.put k v ∈ puts listed :=
      List.mem_map.mpr ⟨⟨k, v⟩, AList.mem_lookup_iff.mp hk, rfl⟩
    cases hl : last Update.key k (puts listed) with
    | none => exact absurd rfl ((last_eq_none_iff _ k).mp hl _ hin)
    | some u =>
      obtain ⟨hu, rfl⟩ := mem_of_last _ k hl
      obtain ⟨e, he, rfl⟩ := List.mem_map.mp hu
      have hv : e.2 = v := Option.some.inj
        ((show listed.lookup e.1 = some e.2 from AList.mem_lookup_iff.mpr he).symm.trans hk)
      rw [← hv]
      rfl

/-- **What was told of a key agrees with the store.** Of a key that is not
in the store, and never was known to be, nothing need have been told. -/
structure Knows (told : List (Update κ ν)) (store : κ → Option ν) (listed : κ → Option ν) (k : κ) :
    Prop where
  alive : ∀ v, store k = some v → last Update.key k told = some (.put k v)
  gone : listed k ≠ none → store k = none → last Update.key k told = some (.delete k)

/-- **What a listing and the updates since a later time tell.** -/
theorem knows_iff (listed : AList (fun _ : κ => ν)) (start : κ → Option ν)
    (us : List (Update κ ν)) (k : κ) :
    Knows (puts listed ++ us) (after start us) listed.lookup k
      ↔ listed.lookup k = start k ∨ ∃ u ∈ us, u.key = k := by
  have hafter := after_apply start us k
  have htold : last Update.key k (puts listed ++ us)
      = (last Update.key k us).or ((listed.lookup k).map (Update.put k)) := by
    rw [last_append, last_puts]
  cases hl : last Update.key k us with
  | none =>
    -- nothing since then: the last that was told is the listing
    rw [hl, Option.map_none, Option.getD_none] at hafter
    rw [hl, Option.none_or] at htold
    have hnever : ¬ ∃ u ∈ us, u.key = k := by
      rintro ⟨u, hu, heq⟩
      exact (last_eq_none_iff _ k).mp hl u hu heq
    constructor
    · intro h
      refine .inl ?_
      cases hs : start k with
      | none =>
        by_contra hne
        have hgone := h.gone hne (hafter.trans hs)
        rw [htold, Option.map_eq_some_iff] at hgone
        obtain ⟨v, -, hv⟩ := hgone
        cases hv
      | some v =>
        have halive := h.alive v (hafter.trans hs)
        rw [htold, Option.map_eq_some_iff] at halive
        obtain ⟨v', hv', heq⟩ := halive
        cases heq
        exact hv'
    · intro h
      have hlisted := h.resolve_right hnever
      constructor
      · intro v hv
        rw [htold, hlisted, ← hafter, hv]
        rfl
      · intro hne hnone
        exact absurd (hlisted.trans (hafter.symm.trans hnone)) hne
  | some u =>
    rw [hl] at hafter htold
    obtain ⟨hu, rfl⟩ := mem_of_last _ k hl
    have hval : after start us u.key = u.value := hafter
    refine ⟨fun _ => .inr ⟨u, hu, rfl⟩, fun _ => ⟨fun v hv => ?_, fun _ hnone => ?_⟩⟩
    · rw [htold, Option.some_or, Option.some_inj]
      exact Update.eq_put_iff.mpr ⟨rfl, hval.symm.trans hv⟩
    · rw [htold, Option.some_or, Option.some_inj]
      exact Update.eq_delete_iff.mpr ⟨rfl, hval.symm.trans hnone⟩

end KeyedLog
