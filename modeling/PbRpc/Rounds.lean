import Mathlib.Order.Basic
import Mathlib.Data.Nat.Basic

/-!
# Loops that are fed from outside

The loop `while (true)` whose body takes one more input each time round, and
either goes round again or leaves. The inputs are those of the world, such
as the results of system calls, so that nothing makes the loop end by
itself; `after` says where it is after so many rounds of an infinite
sequence of inputs.

`after_induction` is the rule: what is true of the loop before its first
round, and is kept by every round and by having left, is true of it after
any number of rounds.
-/

namespace Rounds

variable {σ ι τ : Type*}

/-- **How a round ends.** -/
inductive Turn (σ τ : Type*) where
  | again (s : σ)
  | left (t : τ)

/-- **The loop after so many inputs.** -/
def after (round : σ → ι → Turn σ τ) (s : σ) (inputs : ℕ → ι) : ℕ → Turn σ τ
  | 0 => .again s
  | n + 1 =>
    match after round s inputs n with
    | .again s => round s (inputs n)
    | .left t => .left t

variable {round : σ → ι → Turn σ τ} {s s' : σ} {t : τ} {inputs : ℕ → ι} {n m : ℕ}

theorem after_succ_of_again (h : after round s inputs n = .again s') :
    after round s inputs (n + 1) = round s' (inputs n) := by
  rw [after, h]

theorem after_succ_of_left (h : after round s inputs n = .left t) :
    after round s inputs (n + 1) = .left t := by
  rw [after, h]

/-- **A law of all rounds.** -/
theorem after_induction {P : ℕ → Turn σ τ → Prop} (hstart : P 0 (.again s))
    (hagain : ∀ k < n, ∀ s, P k (.again s) → P (k + 1) (round s (inputs k)))
    (hleft : ∀ k < n, ∀ t, P k (.left t) → P (k + 1) (.left t)) :
    P n (after round s inputs n) := by
  induction n with
  | zero => exact hstart
  | succ n ih =>
    have hn := ih (fun k hk => hagain k (Nat.lt_succ_of_lt hk))
      (fun k hk => hleft k (Nat.lt_succ_of_lt hk))
    cases h : after round s inputs n with
    | again s' =>
      rw [after_succ_of_again h]
      exact hagain n (Nat.lt_succ_self n) s' (h ▸ hn)
    | left t =>
      rw [after_succ_of_left h]
      exact hleft n (Nat.lt_succ_self n) t (h ▸ hn)

/-- The inputs go on up to one that does not. -/
def FirstStop (goesOn : ι → Prop) (inputs : ℕ → ι) (n : ℕ) : Prop :=
  ¬ goesOn (inputs n) ∧ ∀ k < n, goesOn (inputs k)

end Rounds
