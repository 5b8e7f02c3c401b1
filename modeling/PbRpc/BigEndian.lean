import Mathlib.Algebra.Order.Ring.Int
import Mathlib.Data.List.Basic
import Mathlib.Tactic.Ring
import Mathlib.Tactic.Linarith

/-!
# Big-endian integers

A fixed-width integer is carried on a wire as `k` bytes, the most
significant first. `natBE` writes a natural number that way and `ofNatBE`
reads it back; the two are inverse of each other, in one direction for the
numbers that fit (`ofNatBE_natBE`) and in the other for every byte string
(`natBE_ofNatBE`). The second direction is the one a decoder needs: it
says that a number determines the bytes it was read from, so a format made
of such fields has one spelling for each value.

The signed reading `ofIntBE` is the two's complement one, and has the same
two laws (`ofIntBE_intBE`, `intBE_ofIntBE`).
-/

namespace BigEndian

/-- The `k` low-order bytes of a number, the most significant first. -/
def natBE : ℕ → ℕ → List UInt8
  | 0, _ => []
  | k + 1, x => UInt8.ofNat (x / 256 ^ k) :: natBE k x

/-- The number a byte string denotes, its first byte the most
significant. -/
def ofNatBE : List UInt8 → ℕ
  | [] => 0
  | b :: bs => b.toNat * 256 ^ bs.length + ofNatBE bs

/-- The `k`-byte two's complement representation of an integer. -/
def intBE (k : ℕ) (x : ℤ) : List UInt8 := natBE k (x % 256 ^ k).toNat

/-- The integer a byte string denotes in two's complement. -/
def ofIntBE (bs : List UInt8) : ℤ := Int.bmod (ofNatBE bs) (256 ^ bs.length)

@[simp] theorem length_natBE (k x : ℕ) : (natBE k x).length = k := by
  induction k with
  | zero => rfl
  | succ k ih => rw [natBE, List.length_cons, ih]

@[simp] theorem length_intBE (k : ℕ) (x : ℤ) : (intBE k x).length = k :=
  length_natBE k _

/-- A byte string of length `k` denotes a number below `256 ^ k`. -/
theorem ofNatBE_lt (bs : List UInt8) : ofNatBE bs < 256 ^ bs.length := by
  induction bs with
  | nil => exact Nat.one_pos
  | cons b bs ih =>
    have hb : b.toNat + 1 ≤ 256 := b.toNat_lt
    calc b.toNat * 256 ^ bs.length + ofNatBE bs
        < b.toNat * 256 ^ bs.length + 256 ^ bs.length := by omega
      _ = (b.toNat + 1) * 256 ^ bs.length := by ring
      _ ≤ 256 * 256 ^ bs.length := Nat.mul_le_mul_right _ hb
      _ = 256 ^ (bs.length + 1) := by ring

/-- Only the low-order bytes of a number are written. -/
theorem natBE_mod (k x : ℕ) : natBE k (x % 256 ^ k) = natBE k x := by
  have hdiv : ∀ j y m : ℕ, j < m →
      UInt8.ofNat (y % 256 ^ m / 256 ^ j) = UInt8.ofNat (y / 256 ^ j) := by
    intro j y m hj
    refine UInt8.toNat_inj.mp ?_
    rw [UInt8.toNat_ofNat', UInt8.toNat_ofNat']
    obtain ⟨d, rfl⟩ := Nat.exists_eq_add_of_lt hj
    rw [show 256 ^ (j + d + 1) = 256 ^ j * (256 * 256 ^ d) from by ring,
      Nat.mod_mul_right_div_self]
    exact Nat.mod_mul_right_mod _ _ _
  have hgen : ∀ j m : ℕ, j ≤ m → ∀ y, natBE j (y % 256 ^ m) = natBE j y := by
    intro j m
    induction j with
    | zero => intro _ y; rfl
    | succ j ih =>
      intro hj y
      rw [natBE, natBE, hdiv j y m hj, ih (by omega) y]
  exact hgen k k le_rfl x

/-- The high-order bytes come first. -/
theorem natBE_add (j k x : ℕ) : natBE (j + k) x = natBE j (x / 256 ^ k) ++ natBE k x := by
  induction j with
  | zero => rw [Nat.zero_add]; rfl
  | succ j ih =>
    rw [show j + 1 + k = j + k + 1 from by ring, natBE, natBE, ih, List.cons_append,
      Nat.div_div_eq_div_mul, ← pow_add, Nat.add_comm k j]

/-- **Reading what was written.** -/
theorem ofNatBE_natBE (k x : ℕ) (hx : x < 256 ^ k) : ofNatBE (natBE k x) = x := by
  induction k generalizing x with
  | zero => exact (Nat.lt_one_iff.mp hx).symm
  | succ k ih =>
    have hq : x / 256 ^ k < 256 := by
      rw [Nat.div_lt_iff_lt_mul (by positivity)]
      calc x < 256 ^ (k + 1) := hx
        _ = 256 * 256 ^ k := by ring
    have hlow : ofNatBE (natBE k x) = x % 256 ^ k := by
      rw [← natBE_mod k x]
      exact ih _ (Nat.mod_lt _ (by positivity))
    rw [natBE, ofNatBE, length_natBE, hlow, UInt8.toNat_ofNat',
      Nat.mod_eq_of_lt hq]
    exact Nat.div_add_mod' x (256 ^ k)

/-- **A number determines the bytes it was read from.** -/
theorem natBE_ofNatBE (bs : List UInt8) : natBE bs.length (ofNatBE bs) = bs := by
  induction bs with
  | nil => rfl
  | cons b bs ih =>
    have hlt := ofNatBE_lt bs
    have hhead : ofNatBE (b :: bs) / 256 ^ bs.length = b.toNat := by
      rw [ofNatBE, Nat.mul_comm, Nat.mul_add_div (by positivity),
        Nat.div_eq_of_lt hlt, Nat.add_zero]
    have htail : ofNatBE (b :: bs) % 256 ^ bs.length = ofNatBE bs := by
      rw [ofNatBE, Nat.mul_comm, Nat.mul_add_mod, Nat.mod_eq_of_lt hlt]
    rw [List.length_cons, natBE, hhead, UInt8.ofNat_toNat,
      ← natBE_mod bs.length (ofNatBE (b :: bs)), htail, ih]

/-- Nothing but the value modulo `256 ^ k` is written. -/
theorem intBE_add_mul (k : ℕ) (x q : ℤ) : intBE k (x + 256 ^ k * q) = intBE k x := by
  rw [intBE, Int.add_mul_emod_self_left, intBE]

theorem intBE_natCast (k n : ℕ) : intBE k n = natBE k n := by
  rw [intBE, show (256 : ℤ) ^ k = ((256 ^ k : ℕ) : ℤ) from by push_cast; rfl, ← Int.natCast_mod,
    Int.toNat_natCast, natBE_mod]

/-- The high-order bytes of a signed integer come first. -/
theorem intBE_add (j k : ℕ) (x : ℤ) : intBE (j + k) x = intBE j (x / 256 ^ k) ++ intBE k x := by
  have hpos : (0 : ℤ) < 256 ^ k := by positivity
  obtain ⟨n, hn⟩ : ∃ n : ℕ, (n : ℤ) = x % 256 ^ (j + k) :=
    Int.eq_ofNat_of_zero_le (Int.emod_nonneg x (by positivity)) |>.imp fun _ h => h.symm
  have hx : x = n + 256 ^ (j + k) * (x / 256 ^ (j + k)) := by
    rw [hn]
    exact (Int.emod_add_mul_ediv x _).symm
  generalize x / 256 ^ (j + k) = q at hx
  subst hx
  have hlow : (n : ℤ) + 256 ^ (j + k) * q = n + 256 ^ k * (256 ^ j * q) := by ring
  have hdiv : (n + 256 ^ k * (256 ^ j * q) : ℤ) / 256 ^ k
      = ((n / 256 ^ k : ℕ) : ℤ) + 256 ^ j * q := by
    rw [Int.add_mul_ediv_left _ _ hpos.ne']
    push_cast
    rfl
  calc intBE (j + k) (n + 256 ^ (j + k) * q)
      = natBE j (n / 256 ^ k) ++ natBE k n := by
        rw [intBE_add_mul, intBE_natCast, natBE_add]
    _ = intBE j ((n + 256 ^ (j + k) * q) / 256 ^ k) ++ intBE k (n + 256 ^ (j + k) * q) := by
        rw [hlow, hdiv, intBE_add_mul, intBE_natCast, intBE_add_mul, intBE_natCast]

/-- **Reading a signed integer that was written**, when it fits. -/
theorem ofIntBE_intBE (k : ℕ) (x : ℤ) (hlo : -(256 ^ k : ℤ) ≤ 2 * x)
    (hhi : 2 * x < 256 ^ k) : ofIntBE (intBE k x) = x := by
  have hpos : (0 : ℤ) < 256 ^ k := by positivity
  have hmod : ((x % 256 ^ k).toNat : ℤ) = x % 256 ^ k :=
    Int.toNat_of_nonneg (Int.emod_nonneg _ hpos.ne')
  have hlt : (x % 256 ^ k).toNat < 256 ^ k := by
    zify
    rw [hmod]
    exact Int.emod_lt_of_pos _ hpos
  rw [ofIntBE, intBE, length_natBE, ofNatBE_natBE k _ hlt, hmod,
    show (256 : ℤ) ^ k = ((256 ^ k : ℕ) : ℤ) from by push_cast; rfl,
    Int.emod_bmod]
  refine Int.bmod_eq_of_le ?_ ?_ <;> push_cast <;> omega

/-- **A signed integer determines the bytes it was read from.** -/
theorem intBE_ofIntBE (bs : List UInt8) : intBE bs.length (ofIntBE bs) = bs := by
  have hlt := ofNatBE_lt bs
  rw [intBE, ofIntBE,
    show (256 : ℤ) ^ bs.length = ((256 ^ bs.length : ℕ) : ℤ) from by push_cast; rfl,
    Int.bmod_emod, ← Int.natCast_mod, Int.toNat_natCast, Nat.mod_eq_of_lt hlt]
  exact natBE_ofNatBE bs

end BigEndian
