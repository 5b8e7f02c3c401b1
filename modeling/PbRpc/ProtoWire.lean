import Mathlib.Algebra.Order.Ring.Int
import Mathlib.Data.List.Basic

/-!
# The wire format of protobuf

Numbers are written in groups of seven bits, the lowest first, with the high
bit set on all bytes but the last. A reader takes at most so many bytes of one
(`readVarint_varint`). Strings are written behind their lengths, and the value
of a field that is not known is told from its tag alone (`readValue`).

`utf8` says whether bytes are UTF-8.
-/

namespace ProtoWire

/-! ## Numbers -/

/-- **A number**, in groups of seven bits. -/
def varint (n : ℕ) : List UInt8 :=
  if n < 128 then [UInt8.ofNat n] else UInt8.ofNat (n % 128 + 128) :: varint (n / 128)
termination_by n
decreasing_by omega

/-- **Reading a number** of at most `k` bytes. -/
def readVarint : ℕ → List UInt8 → Option (ℕ × List UInt8)
  | 0, _ => none
  | _ + 1, [] => none
  | k + 1, b :: bs =>
    if b.toNat < 128 then some (b.toNat, bs)
    else (readVarint k bs).map fun (n, rest) => (b.toNat - 128 + 128 * n, rest)

/-- **A number is read as it was written**, if it is not too long. -/
theorem readVarint_varint {k n : ℕ} (hk : 0 < k) (hn : n < 128 ^ k) (rest : List UInt8) :
    readVarint k (varint n ++ rest) = some (n, rest) := by
  induction k generalizing n with
  | zero => exact absurd hk (Nat.lt_irrefl 0)
  | succ k ih =>
    rw [varint]
    split
    case isTrue hsmall =>
      have hbyte : (UInt8.ofNat n).toNat = n := UInt8.toNat_ofNat_of_lt' (show n < 256 by omega)
      rw [List.singleton_append, readVarint, hbyte, if_pos hsmall]
    case isFalse hlarge =>
      have hbyte : (UInt8.ofNat (n % 128 + 128)).toNat = n % 128 + 128 :=
        UInt8.toNat_ofNat_of_lt' (show n % 128 + 128 < 256 by omega)
      have hrest : n / 128 < 128 ^ k := by
        rw [Nat.div_lt_iff_lt_mul (by decide), ← Nat.pow_succ]
        exact hn
      have hkpos : 0 < k := by
        rcases Nat.eq_zero_or_pos k with rfl | h
        · exact absurd hn (by omega)
        · exact h
      rw [List.cons_append, readVarint, hbyte, if_neg (by omega), ih hkpos hrest, Option.map_some]
      show some (n % 128 + 128 - 128 + 128 * (n / 128), rest) = _
      rw [Nat.add_sub_cancel, Nat.mod_add_div]

/-- Reading a number reads something. -/
theorem readVarint_lt {k n : ℕ} {bs rest : List UInt8} (h : readVarint k bs = some (n, rest)) :
    rest.length < bs.length := by
  induction k generalizing bs n with
  | zero => cases h
  | succ k ih =>
    cases bs with
    | nil => cases h
    | cons b bs =>
      rw [readVarint] at h
      split at h
      · obtain ⟨-, rfl⟩ := Prod.mk.inj (Option.some.inj h)
        exact Nat.lt_succ_self _
      · obtain ⟨⟨m, rest'⟩, hread, heq⟩ := Option.map_eq_some_iff.mp h
        obtain ⟨-, rfl⟩ := Prod.mk.inj heq
        exact (ih hread).trans (Nat.lt_succ_self _)

/-- A number of at most `k` groups takes `k` bytes. -/
theorem length_varint_le {k n : ℕ} (hk : 0 < k) (hn : n < 128 ^ k) : (varint n).length ≤ k := by
  induction k generalizing n with
  | zero => exact absurd hk (Nat.lt_irrefl 0)
  | succ k ih =>
    rw [varint]
    split
    case isTrue => exact Nat.succ_le_succ (Nat.zero_le k)
    case isFalse hlarge =>
      have hrest : n / 128 < 128 ^ k := by
        rw [Nat.div_lt_iff_lt_mul (by decide), ← Nat.pow_succ]
        exact hn
      have hkpos : 0 < k := by
        rcases Nat.eq_zero_or_pos k with rfl | h
        · exact absurd hn (by omega)
        · exact h
      exact Nat.succ_le_succ (ih hkpos hrest)

/-! ## Strings -/

/-- **A string**, behind its length. -/
def string (str : List UInt8) : List UInt8 := varint str.length ++ str

/-- **Reading a string** of at most so many bytes. -/
def readString (limit : ℕ) (bs : List UInt8) : Option (List UInt8 × List UInt8) :=
  match readVarint 5 bs with
  | none => none
  | some (n, rest) => if n ≤ limit ∧ n ≤ rest.length then some (rest.take n, rest.drop n) else none

theorem readString_string {limit : ℕ} {str : List UInt8} (rest : List UInt8)
    (h : str.length ≤ limit) (hmax : limit < 128 ^ 5) :
    readString limit (string str ++ rest) = some (str, rest) := by
  rw [readString, string, List.append_assoc,
    readVarint_varint (by decide) (lt_of_le_of_lt h hmax)]
  dsimp only
  rw [if_pos ⟨h, by rw [List.length_append]; exact Nat.le_add_right _ _⟩, List.take_left,
    List.drop_left]

theorem le_length_string (str : List UInt8) : str.length ≤ (string str).length := by
  rw [string, List.length_append]
  exact Nat.le_add_left _ _

theorem length_string_le {str : List UInt8} (h : str.length < 128 ^ 5) :
    (string str).length ≤ 5 + str.length := by
  rw [string, List.length_append]
  exact Nat.add_le_add_right (length_varint_le (by decide) h) _

theorem readString_le {limit : ℕ} {bs str rest : List UInt8}
    (h : readString limit bs = some (str, rest)) :
    rest.length ≤ bs.length ∧ str.length ≤ limit := by
  unfold readString at h
  split at h
  · cases h
  · rename_i n rest' hread
    have hlt := readVarint_lt hread
    split at h
    · rename_i hn
      obtain ⟨rfl, rfl⟩ := Prod.mk.inj (Option.some.inj h)
      rw [List.length_drop, List.length_take]
      exact ⟨le_trans (Nat.sub_le _ _) hlt.le, le_trans (min_le_left _ _) hn.1⟩
    · cases h

/-! ## Values of fields that are not known -/

/-- **The value of a field with the given tag**, as it is written: a number, so
many bytes, or a string. Groups are not read. -/
def readValue (limit tag : ℕ) (bs : List UInt8) : Option (List UInt8 × List UInt8) :=
  if tag % 8 = 0 then
    (readVarint 10 bs).map fun (n, rest) => (varint (n % 2 ^ 64), rest)
  else if tag % 8 = 2 then
    (readString limit bs).map fun (str, rest) => (string str, rest)
  else
    let size := if tag % 8 = 1 then 8 else 4
    if (tag % 8 = 1 ∨ tag % 8 = 5) ∧ size ≤ bs.length then some (bs.take size, bs.drop size)
    else none

theorem readValue_le {limit tag : ℕ} {bs value rest : List UInt8}
    (h : readValue limit tag bs = some (value, rest)) : rest.length ≤ bs.length := by
  unfold readValue at h
  split at h
  · obtain ⟨⟨n, rest'⟩, hread, heq⟩ := Option.map_eq_some_iff.mp h
    obtain ⟨-, rfl⟩ := Prod.mk.inj heq
    exact (readVarint_lt hread).le
  · split at h
    · obtain ⟨⟨str, rest'⟩, hread, heq⟩ := Option.map_eq_some_iff.mp h
      obtain ⟨-, rfl⟩ := Prod.mk.inj heq
      exact (readString_le hread).1
    · dsimp only at h
      obtain ⟨-, h⟩ := Option.ite_none_right_eq_some.mp h
      obtain ⟨-, rfl⟩ := Prod.mk.inj (Option.some.inj h)
      rw [List.length_drop]
      exact Nat.sub_le _ _

/-- **A value is read as it was written.** -/
theorem readValue_value {limit tag : ℕ} {bs value rest : List UInt8} (hmax : limit < 128 ^ 5)
    (h : readValue limit tag bs = some (value, rest)) (rest' : List UInt8) :
    readValue limit tag (value ++ rest') = some (value, rest') := by
  unfold readValue at h ⊢
  split at h
  case isTrue hnumber =>
    obtain ⟨⟨n, _⟩, -, heq⟩ := Option.map_eq_some_iff.mp h
    obtain ⟨rfl, -⟩ := Prod.mk.inj heq
    have hlt : n % 2 ^ 64 < 2 ^ 64 := Nat.mod_lt _ (by decide)
    rw [if_pos hnumber, readVarint_varint (by decide) (hlt.trans (by decide)), Option.map_some]
    dsimp only
    rw [Nat.mod_mod]
  case isFalse hnumber =>
    rw [if_neg hnumber]
    split at h
    case isTrue hstring =>
      obtain ⟨⟨str, _⟩, hread, heq⟩ := Option.map_eq_some_iff.mp h
      obtain ⟨rfl, -⟩ := Prod.mk.inj heq
      rw [if_pos hstring, readString_string rest' (readString_le hread).2 hmax, Option.map_some]
    case isFalse hstring =>
      rw [if_neg hstring]
      dsimp only at h ⊢
      obtain ⟨⟨htag, hsize⟩, h⟩ := Option.ite_none_right_eq_some.mp h
      obtain ⟨rfl, -⟩ := Prod.mk.inj (Option.some.inj h)
      have hlen : (bs.take (if tag % 8 = 1 then 8 else 4)).length = if tag % 8 = 1 then 8 else 4 := by
        rw [List.length_take, min_eq_left hsize]
      rw [if_pos ⟨htag, by rw [List.length_append, hlen]; exact Nat.le_add_right _ _⟩,
        List.take_left' hlen, List.drop_left' hlen]

/-! ## Text -/

/-- The bytes that may follow the first byte of a character: the bounds of the
next one, and how many come behind it. -/
def utf8Head (b : UInt8) : Option (UInt8 × UInt8 × ℕ) :=
  if 0xC2 ≤ b ∧ b ≤ 0xDF then some (0x80, 0xBF, 0)
  else if b = 0xE0 then some (0xA0, 0xBF, 1)
  else if b = 0xED then some (0x80, 0x9F, 1)
  else if 0xE1 ≤ b ∧ b ≤ 0xEF then some (0x80, 0xBF, 1)
  else if b = 0xF0 then some (0x90, 0xBF, 2)
  else if 0xF1 ≤ b ∧ b ≤ 0xF3 then some (0x80, 0xBF, 2)
  else if b = 0xF4 then some (0x80, 0x8F, 2)
  else none

/-- **Whether bytes are UTF-8**, behind what is left of a character. -/
def utf8 : Option (UInt8 × UInt8 × ℕ) → List UInt8 → Bool
  | none, [] => true
  | some _, [] => false
  | none, b :: bs =>
    if b < 0x80 then utf8 none bs
    else
      match utf8Head b with
      | none => false
      | some left => utf8 (some left) bs
  | some (lo, hi, k), b :: bs =>
    if lo ≤ b ∧ b ≤ hi then utf8 (if k = 0 then none else some (0x80, 0xBF, k - 1)) bs else false

/-- ASCII is UTF-8. -/
theorem utf8_of_ascii {bs : List UInt8} (h : ∀ b ∈ bs, b < 0x80) : utf8 none bs = true := by
  induction bs with
  | nil => rfl
  | cons b bs ih =>
    rw [utf8, if_pos (h b (List.mem_cons_self ..))]
    exact ih fun c hc => h c (List.mem_cons_of_mem b hc)

end ProtoWire
