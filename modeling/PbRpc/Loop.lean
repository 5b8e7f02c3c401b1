import Mathlib.Order.Basic
import Mathlib.Data.Nat.Basic

/-!
# Loops that run until nothing is found

The loop `while (true)` whose body either produces a value and goes round
again, or produces nothing and ends the loop, or fails. When every round
that produces a value makes a measure smaller the loop ends, and `untilNone`
is its result: the values of all the rounds, and the last state.

`untilNone_induction` is the rule by which a law for the rounds becomes a
law for the loop.
-/

namespace Loop

variable {σ α ε : Type*}

/-- **The loop**, over the round `round` and with the measure `size`. -/
def untilNone (round : σ → Except ε (Option α × σ)) (size : σ → ℕ)
    (hsize : ∀ s s' a, round s = .ok (some a, s') → size s' < size s) (s : σ) :
    Except ε (List α × σ) :=
  match _h : round s with
  | .error e => .error e
  | .ok (none, s') => .ok ([], s')
  | .ok (some a, s') =>
    match untilNone round size hsize s' with
    | .error e => .error e
    | .ok (as, s'') => .ok (a :: as, s'')
termination_by size s
decreasing_by exact hsize _ _ _ _h

variable {round : σ → Except ε (Option α × σ)} {size : σ → ℕ}
  {hsize : ∀ s s' a, round s = .ok (some a, s') → size s' < size s}

theorem untilNone_of_error {s : σ} {e : ε} (h : round s = .error e) :
    untilNone round size hsize s = .error e := by
  rw [untilNone]
  split <;> rename_i h' <;> rw [h] at h' <;> cases h'
  rfl

theorem untilNone_of_none {s s' : σ} (h : round s = .ok (none, s')) :
    untilNone round size hsize s = .ok ([], s') := by
  rw [untilNone]
  split <;> rename_i h' <;> rw [h] at h' <;> cases h'
  rfl

theorem untilNone_of_some {s s' s'' : σ} {a : α} {as : List α}
    (h : round s = .ok (some a, s'))
    (hr : untilNone round size hsize s' = .ok (as, s'')) :
    untilNone round size hsize s = .ok (a :: as, s'') := by
  rw [untilNone]
  split <;> rename_i h' <;> rw [h] at h' <;> cases h'
  rw [hr]

theorem untilNone_of_some_error {s s' : σ} {a : α} {e : ε}
    (h : round s = .ok (some a, s')) (hr : untilNone round size hsize s' = .error e) :
    untilNone round size hsize s = .error e := by
  rw [untilNone]
  split <;> rename_i h' <;> rw [h] at h' <;> cases h'
  rw [hr]

/-- **What a result of the loop is made of**: its first round, and the
result of the rest. -/
theorem untilNone_eq_ok {s s' : σ} {as : List α}
    (h : untilNone round size hsize s = .ok (as, s')) :
    (as = [] ∧ round s = .ok (none, s'))
      ∨ ∃ a as' s₁, as = a :: as' ∧ round s = .ok (some a, s₁)
        ∧ untilNone round size hsize s₁ = .ok (as', s') := by
  rw [untilNone] at h
  split at h
  · cases h
  · rename_i s₁ hr
    cases h
    exact Or.inl ⟨rfl, hr⟩
  · rename_i a s₁ hr
    split at h
    · cases h
    · rename_i as₁ s₂ hd
      cases h
      exact Or.inr ⟨a, as₁, s₁, rfl, hr, hd⟩

/-- **A law for the loop from a law for its rounds.** -/
theorem untilNone_induction {P : σ → List α → σ → Prop}
    (none : ∀ s s', round s = .ok (none, s') → P s [] s')
    (some : ∀ s s₁ s' a as, round s = .ok (some a, s₁) → P s₁ as s' → P s (a :: as) s')
    {s s' : σ} {as : List α} (h : untilNone round size hsize s = .ok (as, s')) :
    P s as s' := by
  induction as generalizing s with
  | nil =>
    rcases untilNone_eq_ok h with ⟨_, hr⟩ | ⟨_, _, _, h, _⟩
    · exact none s s' hr
    · cases h
  | cons a as ih =>
    rcases untilNone_eq_ok h with ⟨h, _⟩ | ⟨a', as', s₁, he, hr, hd⟩
    · cases h
    · cases he
      exact some s s₁ s' _ _ hr (ih hd)

end Loop
