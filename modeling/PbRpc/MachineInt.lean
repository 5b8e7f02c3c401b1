import Mathlib.Data.Int.Bitwise
import Mathlib.Tactic.NormNum

/-!
# The machine arithmetic of the code

The code computes positions in `int` and lengths in `size_t`, and moves
between the two freely. An `int` is kept here as the integer it denotes,
and a `size_t` as a natural number; the conversions are `toInt`, which
keeps the low 32 bits, and `toSizeT`, which keeps the low 64.

Conversions are defined for every value. A *computation* in `int` whose
exact result is out of range is not: it is undefined behaviour, and what a
build does there depends on how it was compiled. `Overflow` names the two
things it can do, and everything below that computes in `int` takes it as
a parameter.

The code's assertions, its reads through an index and its overflows are
the ways it can go wrong; a function that can go wrong returns
`Except Fault`.
-/

namespace PbRpc

/-- The bytes of a `std::string` or a `std::vector<char>`. -/
abbrev Bytes := List UInt8

/-- A string literal of the source, as bytes. -/
def Bytes.ofString (s : String) : Bytes := s.toList.map (fun c => UInt8.ofNat c.toNat)

/-- How an execution goes wrong. -/
inductive Fault where
  /-- An `assert` does not hold. -/
  | assertion
  /-- A vector is read outside its bounds. -/
  | outOfRange
  /-- A computation in `int` has no representable result. -/
  | intOverflow
deriving DecidableEq, Repr

/-- The values of a 32-bit `int`. -/
def InInt (x : ℤ) : Prop := -2147483648 ≤ x ∧ x ≤ 2147483647

instance : DecidablePred InInt := fun _ => inferInstanceAs (Decidable (_ ∧ _))

/-- Conversion to `int`: the low 32 bits, read as a signed number. -/
def toInt (x : ℤ) : ℤ := Int.bmod x 4294967296

/-- Conversion of an `int` to `size_t`: a negative value becomes huge. -/
def toSizeT (x : ℤ) : ℕ := (x % 18446744073709551616).toNat

/-- What a build does on signed overflow. -/
inductive Overflow where
  /-- The execution is undefined and stops. -/
  | trap
  /-- The result wraps around. -/
  | wrap
deriving DecidableEq, Repr

/-- The result of a computation in `int` whose exact result is `x`. -/
def Overflow.int (ov : Overflow) (x : ℤ) : Except Fault ℤ :=
  if InInt x then .ok x
  else match ov with
    | .trap => .error .intOverflow
    | .wrap => .ok (toInt x)

/-- `int + sizeof(…)` stored in an `int`: the addition is done in
`size_t`. -/
def addSize (x : ℤ) (k : ℕ) : ℤ := toInt ((toSizeT x + k : ℕ) % 18446744073709551616)

/-- An `int` converts to itself. -/
theorem toInt_of_inInt {x : ℤ} (h : InInt x) : toInt x = x := by
  unfold InInt at h
  rw [toInt, Int.bmod_def]
  omega

/-- A conversion lands in range. -/
theorem inInt_toInt (x : ℤ) : InInt (toInt x) := by
  rw [InInt, toInt, Int.bmod_def]
  omega

/-- A conversion never increases a non-negative value. -/
theorem toInt_le_self {x : ℤ} (h : 0 ≤ x) : toInt x ≤ x := by
  rw [toInt, Int.bmod_def]
  omega

/-! Modulo `2 ^ 32` a conversion changes nothing. -/

theorem toInt_congr (x : ℤ) : ∃ q : ℤ, toInt x = x + 4294967296 * q := by
  refine ⟨(toInt x - x) / 4294967296, ?_⟩
  rw [toInt, Int.bmod_def]
  omega

theorem toSizeT_congr (x : ℤ) : ∃ q : ℤ, (toSizeT x : ℤ) = x + 4294967296 * q := by
  refine ⟨4294967296 * -(x / 18446744073709551616), ?_⟩
  unfold toSizeT
  omega

/-- Below `2 ^ 32`, only an `int` converts to something that is not
negative. -/
theorem inInt_of_toInt_nonneg {x : ℤ} (h0 : 0 ≤ x) (hx : x < 4294967296) (h : 0 ≤ toInt x) :
    InInt x := by
  rw [toInt, Int.bmod_def] at h
  unfold InInt
  omega

theorem toSizeT_of_nonneg {x : ℤ} (h : 0 ≤ x) (hi : InInt x) : toSizeT x = x.toNat := by
  unfold InInt at hi
  rw [toSizeT, Int.emod_eq_of_lt h (by omega)]

/-- A negative number becomes larger than any object. -/
theorem le_toSizeT_of_neg {x : ℤ} (h : x < 0) (hlo : -9223372036854775808 ≤ x) :
    9223372036854775808 ≤ toSizeT x := by
  unfold toSizeT
  omega

/-- The detour through `size_t` is invisible: what comes back is the low
32 bits of the exact sum. -/
theorem addSize_eq (x : ℤ) (k : ℕ) : addSize x k = toInt (x + k) := by
  rw [addSize, toSizeT, toInt, toInt, Int.bmod_def, Int.bmod_def]
  omega

/-- In range, the addition is exact. -/
theorem addSize_of_inInt {x : ℤ} {k : ℕ} (h : InInt (x + k)) : addSize x k = x + k := by
  rw [addSize_eq, toInt_of_inInt h]

theorem Overflow.int_of_inInt (ov : Overflow) {x : ℤ} (h : InInt x) : ov.int x = .ok x :=
  if_pos h

/-- Whatever overflow does, a result is in range. -/
theorem Overflow.inInt_of_int {ov : Overflow} {x v : ℤ} (h : ov.int x = .ok v) : InInt v := by
  unfold Overflow.int at h
  split at h
  · obtain rfl : x = v := by simpa using h
    assumption
  · cases ov with
    | trap => cases h
    | wrap =>
      obtain rfl : toInt x = v := by simpa using h
      exact inInt_toInt x

/-- A result differs from the exact one by a multiple of `2 ^ 32` at
most. -/
theorem Overflow.int_eq_toInt {ov : Overflow} {x v : ℤ} (h : ov.int x = .ok v) :
    v = toInt x := by
  unfold Overflow.int at h
  split at h
  case isTrue hx => rw [toInt_of_inInt hx]; simpa using h.symm
  case isFalse =>
    cases ov with
    | trap => cases h
    | wrap => simpa using h.symm

@[simp] theorem ok_bind {ε α β : Type} (a : α) (f : α → Except ε β) :
    (Except.ok a >>= f) = f a := rfl

/-- A computation that goes through ran each of its parts through. -/
theorem bind_eq_ok {ε α β : Type} {x : Except ε α} {f : α → Except ε β} {r : β} :
    (x >>= f) = .ok r ↔ ∃ a, x = .ok a ∧ f a = .ok r := by
  cases x with
  | error e => simp [Bind.bind, Except.bind]
  | ok a => simp [Bind.bind, Except.bind]

end PbRpc
