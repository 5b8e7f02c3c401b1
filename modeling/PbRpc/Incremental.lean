import Mathlib.Data.List.Basic

/-!
# Readers of a stream that look ahead

A reader looks at the front of what it has and says what to do: drop one
element, take a message of some length, or wait for more. It may also find
that it cannot go on. `Reads` is what becomes of a list of elements under
such a reader: the messages taken, and what is left.

A reader sees a stream in pieces and looks at what is left together with the
next piece. What makes the pieces harmless is that a verdict other than to
wait is not changed by what comes behind (`Reader.stable`). Then reading a
stream is reading its first part and going on with what is left and the rest
of the stream (`Reads.split`).
-/

namespace Incremental

variable {β M : Type*}

/-- What a reader says of the front of a list. -/
inductive Verdict (M : Type*) where
  | skip
  | wait
  | take (m : M) (n : ℕ)
  /-- There is no going on. -/
  | bad
deriving DecidableEq

/-- **A reader**: what it says of a list that is not empty, and that it keeps
to its word. -/
structure Reader (β M : Type*) where
  look : List β → Verdict M
  take_le : ∀ {bs : List β} {m : M} {n : ℕ}, look bs = .take m n → 0 < n ∧ n ≤ bs.length
  stable : ∀ {bs : List β} (more : List β), look bs ≠ .wait → bs ≠ [] →
    look (bs ++ more) = look bs

/-- **What is read from a list**, and what is left of it. -/
inductive Reads (r : Reader β M) : List β → List M → List β → Prop
  | nil : Reads r [] [] []
  | skip {b : β} {bs rest : List β} {ms : List M} (hlook : r.look (b :: bs) = .skip)
      (h : Reads r bs ms rest) : Reads r (b :: bs) ms rest
  | wait {b : β} {bs : List β} (hlook : r.look (b :: bs) = .wait) :
      Reads r (b :: bs) [] (b :: bs)
  | take {b : β} {bs rest : List β} {m : M} {n : ℕ} {ms : List M}
      (hlook : r.look (b :: bs) = .take m n) (h : Reads r ((b :: bs).drop n) ms rest) :
      Reads r (b :: bs) (m :: ms) rest

namespace Reads

variable {r : Reader β M} {bs more rest : List β} {ms : List M}

/-- What is left is the end of what there was. -/
theorem suffix (h : Reads r bs ms rest) : rest <:+ bs := by
  induction h with
  | nil => exact List.suffix_rfl
  | skip _ _ ih => exact ih.trans (List.suffix_cons ..)
  | wait _ => exact List.suffix_rfl
  | take _ _ ih => exact ih.trans (List.drop_suffix ..)

/-- **The verdict at the front** decides how the reading goes. -/
theorem verdict {b : β} (h : Reads r (b :: bs) ms rest) :
    (r.look (b :: bs) = .skip ∧ Reads r bs ms rest) ∨
      (r.look (b :: bs) = .wait ∧ ms = [] ∧ rest = b :: bs) ∨
      ∃ m n ms', r.look (b :: bs) = .take m n ∧ ms = m :: ms' ∧
        Reads r ((b :: bs).drop n) ms' rest := by
  cases h with
  | skip hlook h => exact .inl ⟨hlook, h⟩
  | wait hlook => exact .inr (.inl ⟨hlook, rfl, rfl⟩)
  | take hlook h => exact .inr (.inr ⟨_, _, _, hlook, rfl, h⟩)

/-- **Reading a stream in two parts**: the first part, and what is left of it
with the second. -/
theorem split (h : Reads r (bs ++ more) ms rest) :
    ∃ ms₁ left ms₂, Reads r bs ms₁ left ∧ Reads r (left ++ more) ms₂ rest ∧ ms = ms₁ ++ ms₂ := by
  induction hlen : bs.length using Nat.strongRecOn generalizing bs ms with
  | _ k ih =>
    cases bs with
    | nil => exact ⟨[], [], ms, .nil, h, rfl⟩
    | cons b bs =>
      by_cases hwait : r.look (b :: bs) = .wait
      · exact ⟨[], b :: bs, ms, .wait hwait, h, rfl⟩
      · -- what comes behind does not change the verdict
        have hlook : r.look (b :: (bs ++ more)) = r.look (b :: bs) :=
          r.stable more hwait (List.cons_ne_nil b bs)
        rcases verdict h with ⟨hskip, hrest⟩ | ⟨hmore, -, -⟩ | ⟨m, n, ms, htake, rfl, hrest⟩
        · obtain ⟨ms₁, left, ms₂, h₁, h₂, hms⟩ := ih bs.length
            (by rw [← hlen]; exact Nat.lt_succ_self _) hrest rfl
          exact ⟨ms₁, left, ms₂, .skip (hlook.symm.trans hskip) h₁, h₂, hms⟩
        · exact absurd (hlook.symm.trans hmore) hwait
        · have htake := hlook.symm.trans htake
          obtain ⟨hpos, hn⟩ := r.take_le htake
          replace hrest : Reads r (((b :: bs) ++ more).drop n) ms rest := hrest
          rw [List.drop_append_of_le_length hn] at hrest
          obtain ⟨ms₁, left, ms₂, h₁, h₂, rfl⟩ := ih ((b :: bs).drop n).length
            (by rw [← hlen, List.length_drop]; exact Nat.sub_lt (Nat.lt_of_lt_of_le hpos hn) hpos)
            hrest rfl
          exact ⟨m :: ms₁, left, ms₂, .take htake h₁, h₂, rfl⟩

/-- What is left is nothing to read further. -/
theorem settled (h : Reads r bs ms rest) : Reads r rest [] rest := by
  induction h with
  | nil => exact .nil
  | skip _ _ ih => exact ih
  | wait hlook => exact .wait hlook
  | take _ _ ih => exact ih

/-- **There is one way to read a list.** -/
theorem unique {ms' : List M} {rest' : List β} (h : Reads r bs ms rest)
    (h' : Reads r bs ms' rest') : ms = ms' ∧ rest = rest' := by
  induction h generalizing ms' with
  | nil =>
    cases h'
    exact ⟨rfl, rfl⟩
  | skip hlook _ ih =>
    rcases verdict h' with ⟨-, h'⟩ | ⟨hlook', -⟩ | ⟨_, _, _, hlook', -⟩
    · exact ih h'
    · exact nomatch hlook.symm.trans hlook'
    · exact nomatch hlook.symm.trans hlook'
  | wait hlook =>
    rcases verdict h' with ⟨hlook', -⟩ | ⟨-, rfl, rfl⟩ | ⟨_, _, _, hlook', -⟩
    · exact nomatch hlook.symm.trans hlook'
    · exact ⟨rfl, rfl⟩
    · exact nomatch hlook.symm.trans hlook'
  | take hlook _ ih =>
    rcases verdict h' with ⟨hlook', -⟩ | ⟨hlook', -⟩ | ⟨_, _, _, hlook', rfl, h'⟩
    · exact nomatch hlook.symm.trans hlook'
    · exact nomatch hlook.symm.trans hlook'
    · obtain ⟨rfl, rfl⟩ := Verdict.take.inj (hlook.symm.trans hlook')
      obtain ⟨rfl, rfl⟩ := ih h'
      exact ⟨rfl, rfl⟩

/-- **What a reader finds first**: elements to drop, and then the end, a front
to wait with, or a message. -/
theorem front (h : Reads r bs ms rest) :
    ∃ dropped left, bs = dropped ++ left ∧
      (∀ j < dropped.length, r.look (bs.drop j) = .skip) ∧
      ((left = [] ∧ ms = [] ∧ rest = []) ∨
        (left ≠ [] ∧ r.look left = .wait ∧ ms = [] ∧ rest = left) ∨
        ∃ m n ms', left ≠ [] ∧ r.look left = .take m n ∧ ms = m :: ms' ∧
          Reads r (left.drop n) ms' rest) := by
  induction h with
  | nil => exact ⟨[], [], rfl, fun j hj => absurd hj (Nat.not_lt_zero j), .inl ⟨rfl, rfl, rfl⟩⟩
  | @skip b bs rest ms hlook _ ih =>
    obtain ⟨dropped, left, rfl, hskip, hleft⟩ := ih
    refine ⟨b :: dropped, left, rfl, fun j hj => ?_, hleft⟩
    cases j with
    | zero => exact hlook
    | succ j => exact hskip j (Nat.lt_of_succ_lt_succ hj)
  | @wait b bs hlook =>
    exact ⟨[], b :: bs, rfl, fun j hj => absurd hj (Nat.not_lt_zero j),
      .inr (.inl ⟨List.cons_ne_nil b bs, hlook, rfl, rfl⟩)⟩
  | @take b bs rest m n ms hlook h =>
    exact ⟨[], b :: bs, rfl, fun j hj => absurd hj (Nat.not_lt_zero j),
      .inr (.inr ⟨m, n, ms, List.cons_ne_nil b bs, hlook, rfl, h⟩)⟩

end Reads

end Incremental
