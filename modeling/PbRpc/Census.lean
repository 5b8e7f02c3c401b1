import Mathlib.Algebra.BigOperators.Group.Finset.Basic
import Mathlib.Algebra.BigOperators.Ring.Finset
import Mathlib.Data.Fintype.Card
import Mathlib.Tactic.Ring

/-!
# How many threads are in a phase

The threads of a system are a function from their names to the phase each
is in, and a step moves one of them. `count` is how many are in a phase of
some kind, and `count_update` what a move does to it: it goes down by the
phase that is left and up by the one that is entered.
-/

namespace Census

variable {ι φ : Type*} [Fintype ι] [DecidableEq ι] {kind : φ → Bool} {phase phase' : ι → φ}

/-- **The number of threads in a phase of a kind.** -/
def count (kind : φ → Bool) (phase : ι → φ) : ℕ :=
  (Finset.univ.filter (fun i => kind (phase i) = true)).card

omit [DecidableEq ι] in
theorem count_eq_sum (kind : φ → Bool) (phase : ι → φ) :
    count kind phase = ∑ i, (kind (phase i)).toNat := by
  rw [count, Finset.card_filter]
  refine Finset.sum_congr rfl fun i _ => ?_
  cases kind (phase i) <;> rfl

/-- **One thread moves.** -/
theorem count_update (i : ι) (v : φ) :
    count kind (Function.update phase i v) + (kind (phase i)).toNat
      = count kind phase + (kind v).toNat := by
  have hrest : ∑ j ∈ Finset.univ.erase i, (kind (Function.update phase i v j)).toNat
      = ∑ j ∈ Finset.univ.erase i, (kind (phase j)).toNat := by
    refine Finset.sum_congr rfl fun j hj => ?_
    rw [Function.update_of_ne (Finset.ne_of_mem_erase hj)]
  rw [count_eq_sum, count_eq_sum, ← Finset.add_sum_erase _ _ (Finset.mem_univ i),
    ← Finset.add_sum_erase Finset.univ (fun j => (kind (phase j)).toNat) (Finset.mem_univ i),
    hrest, Function.update_self]
  ring

/-- A move between phases of the kind, or between others. -/
theorem count_update_eq {i : ι} {v : φ} (h : kind v = kind (phase i)) :
    count kind (Function.update phase i v) = count kind phase := by
  refine Nat.add_right_cancel (m := (kind (phase i)).toNat) ?_
  rw [count_update, h]

/-- A move out of the phases of the kind. -/
theorem count_update_leave {i : ι} {v : φ} (hfrom : kind (phase i) = true)
    (hto : kind v = false) :
    count kind (Function.update phase i v) + 1 = count kind phase := by
  have hmove : count kind (Function.update phase i v) + _ = count kind phase + _ :=
    count_update i v
  rwa [hfrom, hto] at hmove

/-- A move into them. -/
theorem count_update_enter {i : ι} {v : φ} (hfrom : kind (phase i) = false)
    (hto : kind v = true) :
    count kind (Function.update phase i v) = count kind phase + 1 := by
  have hmove : count kind (Function.update phase i v) + _ = count kind phase + _ :=
    count_update i v
  rwa [hfrom, hto] at hmove

omit [DecidableEq ι] in
/-- Moves that keep every thread where it counts. -/
theorem count_congr (h : ∀ i, kind (phase i) = kind (phase' i)) :
    count kind phase = count kind phase' := by
  rw [count_eq_sum, count_eq_sum]
  exact Finset.sum_congr rfl fun i _ => by rw [h i]

omit [DecidableEq ι] in
theorem count_eq_zero (h : ∀ i, kind (phase i) = false) : count kind phase = 0 := by
  rw [count_eq_sum]
  exact Finset.sum_eq_zero fun i _ => by rw [h i]; rfl

end Census
