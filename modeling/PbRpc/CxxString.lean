import Mathlib.Data.Rat.Floor
import Mathlib.Data.Int.Log
import Mathlib.Data.Nat.Digits.Lemmas
import Mathlib.Tactic.NormNum
import Mathlib.Tactic.Ring
import Mathlib.Tactic.Linarith
import PbRpc.MachineInt

/-!
# Numbers as text

What the code takes from the standard library to write numbers into strings
and to read them back: `std::to_string` for `int` and for `double`,
`std::getline` with a delimiter, `std::stoi` and `std::stod`.

A `double` is `nan`, an infinity or the rational number it denotes. Reading
one back rounds to the nearest double, and reports `out_of_range` when the
number is too large or so small that it loses precision.

The laws at the end are the ones a reader of registered nodes needs: the
pieces of a concatenation (`parts_append`), and that what `to_string`
printed is accepted by `stoi` and `stod` (`stoi_toString`,
`stod_toString`).
-/

namespace PbRpc

/-- The exceptions of the conversions. -/
inductive StdException where
  | invalidArgument
  | outOfRange
deriving DecidableEq, Repr

/-! ## Characters -/

def minus : UInt8 := 45
def dot : UInt8 := 46
def slash : UInt8 := 47
def colon : UInt8 := 58
def underscore : UInt8 := 95

def isSpace (c : UInt8) : Bool := c == 32 || (9 ≤ c && c ≤ 13)

def isDigit (c : UInt8) : Bool := 48 ≤ c && c ≤ 57

/-- The character of a digit. -/
def digit (d : ℕ) : UInt8 := UInt8.ofNat (48 + d % 10)

/-- The value of a string of digits. -/
def digitsValue (ds : Bytes) : ℕ := ds.foldl (fun v c => 10 * v + (c.toNat - 48)) 0

def lower (c : UInt8) : UInt8 := if 65 ≤ c && c ≤ 90 then c + 32 else c

/-! ## Writing -/

/-- The digits of a number, without leading zeros. -/
def decimal (n : ℕ) : Bytes :=
  if n = 0 then [digit 0] else (Nat.digits 10 n).reverse.map digit

/-- The last `k` digits of a number. -/
def fixedDigits : ℕ → ℕ → Bytes
  | 0, _ => []
  | k + 1, n => digit (n / 10 ^ k) :: fixedDigits k n

/-- `std::to_string(int)`. -/
def toStringInt (x : ℤ) : Bytes := (if x < 0 then [minus] else []) ++ decimal x.natAbs

/-- The nearest integer, the even one of two. -/
def roundHalfEven (q : ℚ) : ℤ :=
  if q - ⌊q⌋ < 1 / 2 then ⌊q⌋
  else if 1 / 2 < q - ⌊q⌋ then ⌊q⌋ + 1
  else if ⌊q⌋ % 2 = 0 then ⌊q⌋ else ⌊q⌋ + 1

/-- **A `double`.** -/
inductive Double where
  | nan (negative : Bool)
  | inf (negative : Bool)
  | finite (value : ℚ)
deriving DecidableEq, Repr

/-- The largest finite double. -/
def Double.max : ℚ := 2 ^ 1024 - 2 ^ 971

/-- The value is not beyond the largest double. -/
def Double.InRange : Double → Prop
  | finite q => |q| ≤ Double.max
  | _ => True

/-- The number that six decimals of a value make, without the point. -/
def micros (q : ℚ) : ℕ := (roundHalfEven (|q| * 10 ^ 6)).toNat

/-- `std::to_string(double)`, the format `%f`: six decimals. -/
def toStringDouble : Double → Bytes
  | .nan negative => (if negative then [minus] else []) ++ Bytes.ofString "nan"
  | .inf negative => (if negative then [minus] else []) ++ Bytes.ofString "inf"
  | .finite q => (if q < 0 then [minus] else [])
      ++ (decimal (micros q / 10 ^ 6) ++ dot :: fixedDigits 6 (micros q))

/-! ## Reading -/

/-- The pieces `std::getline` cuts a string into, without the empty ones. -/
def parts (delim : UInt8) (s : Bytes) : List Bytes :=
  (s.splitOn delim).filter (fun part => !part.isEmpty)

/-- A piece is not empty. -/
theorem ne_nil_of_mem_parts {delim : UInt8} {s part : Bytes} (h : part ∈ parts delim s) :
    part ≠ [] := by
  rintro rfl
  have hpart := (List.mem_filter.mp h).2
  cases hpart

/-- A sign, and what follows it. -/
def takeSign : Bytes → Bool × Bytes
  | 45 :: s => (true, s)
  | 43 :: s => (false, s)
  | s => (false, s)

/-- `std::stoi`. -/
def stoi (s : Bytes) : Except StdException ℤ :=
  let (negative, s) := takeSign (s.dropWhile isSpace)
  let ds := s.takeWhile isDigit
  if ds.isEmpty then .error .invalidArgument
  else
    let v : ℤ := if negative then -digitsValue ds else digitsValue ds
    if InInt v then .ok v else .error .outOfRange

/-- The nearest multiple of a power of two, the even one of two. -/
def roundTo (e : ℤ) (q : ℚ) : ℚ := roundHalfEven (q / 2 ^ e) * 2 ^ e

/-- The exponent of the last of 53 bits of a number. -/
def lastBit (q : ℚ) : ℤ := Int.log 2 |q| - 52

/-- The nearest double to a rational number, the even one of two. -/
def toDouble (q : ℚ) : ℚ := if q = 0 then 0 else roundTo (Max.max (lastBit q) (-1074)) q

/-- The exponent behind a mantissa: none counts as `0`. -/
def takeExponent (letter : UInt8) : Bytes → ℤ
  | c :: s =>
    if lower c = letter then
      let (negative, s) := takeSign s
      let ds := s.takeWhile isDigit
      if negative then -digitsValue ds else digitsValue ds
    else 0
  | [] => 0

/-- The digits before and after a point, and the rest. -/
def takeMantissa (p : UInt8 → Bool) (s : Bytes) : Bytes × Bytes × Bytes :=
  match s.dropWhile p with
  | 46 :: r => (s.takeWhile p, r.takeWhile p, r.dropWhile p)
  | r => (s.takeWhile p, [], r)

def isHexDigit (c : UInt8) : Bool := isDigit c || (97 ≤ lower c && lower c ≤ 102)

def hexValue (ds : Bytes) : ℕ :=
  ds.foldl (fun v c => 16 * v + (if isDigit c then c.toNat - 48 else (lower c).toNat - 87)) 0

/-- A hexadecimal number, behind its `0x`. -/
def hexNumber (s : Bytes) : Option ℚ :=
  let (ip, fp, rest) := takeMantissa isHexDigit s
  if ip.isEmpty && fp.isEmpty then none
  else some (hexValue (ip ++ fp) * 2 ^ (takeExponent 112 rest - 4 * fp.length))

def decimalNumber (s : Bytes) : Option ℚ :=
  let (ip, fp, rest) := takeMantissa isDigit s
  if ip.isEmpty && fp.isEmpty then none
  else some (digitsValue (ip ++ fp) * 10 ^ (takeExponent 101 rest - fp.length))

/-- What `strtod` finds behind the sign, not rounded yet. -/
def takeNumber (s : Bytes) : Option Double :=
  if (s.map lower).take 3 = Bytes.ofString "nan" then some (.nan false)
  else if (s.map lower).take 3 = Bytes.ofString "inf" then some (.inf false)
  else if (s.map lower).take 2 = Bytes.ofString "0x" then
    ((hexNumber (s.drop 2)).orElse (fun _ => decimalNumber s)).map .finite
  else (decimalNumber s).map .finite

def Double.neg : Double → Double
  | nan negative => nan !negative
  | inf negative => inf !negative
  | finite q => finite (-q)

/-- The number is as large as half a unit beyond the largest double. -/
def overflows (q : ℚ) : Prop := (2 ^ 1024 - 2 ^ 970 : ℚ) ≤ |q|

/-- The number is no double, and rounded to 53 bits it is below the normal
range. -/
def underflows (q : ℚ) : Prop := toDouble q ≠ q ∧ |roundTo (lastBit q) q| < 1 / 2 ^ 1022

instance : DecidablePred overflows := fun _ => inferInstanceAs (Decidable (_ ≤ _))

instance : DecidablePred underflows := fun _ => inferInstanceAs (Decidable (_ ∧ _))

/-- `std::stod`. -/
def stod (s : Bytes) : Except StdException Double :=
  let (negative, s) := takeSign (s.dropWhile isSpace)
  match takeNumber s with
  | none => .error .invalidArgument
  | some (.finite q) =>
    if overflows q ∨ underflows q then .error .outOfRange
    else .ok (.finite (toDouble (if negative then -q else q)))
  | some d => .ok (if negative then d.neg else d)

-- just below the least normal number, which it is rounded to
example : stod (Bytes.ofString "2.2250738585072013829e-308") = .ok (.finite (1 / 2 ^ 1022)) := by
  decide +kernel

/-! ## The pieces of a concatenation -/

/-- **Pieces concatenate** at a delimiter. -/
theorem parts_append (delim : UInt8) (s t : Bytes) :
    parts delim (s ++ delim :: t) = parts delim s ++ parts delim t := by
  rw [parts, List.splitOn_append_cons_self, List.filter_append]
  rfl

/-- Without a delimiter there is one piece. -/
theorem parts_of_notMem {delim : UInt8} {s : Bytes} (h : delim ∉ s) (hs : s ≠ []) :
    parts delim s = [s] := by
  rw [parts, List.splitOn_eq_singleton h, List.filter_singleton]
  cases s with
  | nil => exact absurd rfl hs
  | cons c s => rfl

theorem parts_nil (delim : UInt8) : parts delim [] = [] := by
  rw [parts, List.splitOn_nil]
  rfl

/-! ## Digits -/

theorem toNat_digit (d : ℕ) : (digit d).toNat = 48 + d % 10 := by
  rw [digit, UInt8.toNat_ofNat']
  omega

theorem isDigit_iff {c : UInt8} : isDigit c = true ↔ 48 ≤ c.toNat ∧ c.toNat ≤ 57 := by
  rw [isDigit, Bool.and_eq_true, decide_eq_true_iff, decide_eq_true_iff, UInt8.le_iff_toNat_le,
    UInt8.le_iff_toNat_le]
  rfl

theorem isDigit_digit (d : ℕ) : isDigit (digit d) = true := by
  rw [isDigit_iff, toNat_digit]
  omega

theorem digitsValue_append (s t : Bytes) :
    digitsValue (s ++ t) = digitsValue s * 10 ^ t.length + digitsValue t := by
  induction t using List.reverseRecOn with
  | nil => simp [digitsValue]
  | append_singleton t c ih =>
    have hsnoc : ∀ u : Bytes, digitsValue (u ++ [c]) = 10 * digitsValue u + (c.toNat - 48) := by
      intro u
      rw [digitsValue, List.foldl_append]
      rfl
    rw [← List.append_assoc, hsnoc, ih, hsnoc, List.length_append, List.length_singleton]
    ring

theorem isDigit_of_mem_decimal {n : ℕ} {c : UInt8} (h : c ∈ decimal n) : isDigit c = true := by
  unfold decimal at h
  split at h
  · rw [List.mem_singleton] at h
    rw [h]
    exact isDigit_digit 0
  · obtain ⟨d, _, rfl⟩ := List.mem_map.mp h
    exact isDigit_digit d

theorem decimal_ne_nil (n : ℕ) : decimal n ≠ [] := by
  unfold decimal
  split
  case isTrue => exact List.cons_ne_nil _ _
  case isFalse h =>
    intro hnil
    rw [List.map_eq_nil_iff, List.reverse_eq_nil_iff] at hnil
    exact h (Nat.digits_eq_nil_iff_eq_zero.mp hnil)

/-- **The digits of a number denote it.** -/
theorem digitsValue_decimal (n : ℕ) : digitsValue (decimal n) = n := by
  have hgen : ∀ ds : List ℕ, (∀ d ∈ ds, d < 10) →
      digitsValue (ds.reverse.map digit) = Nat.ofDigits 10 ds := by
    intro ds
    induction ds with
    | nil => intro _; rfl
    | cons d ds ih =>
      intro hds
      have hd := hds d (List.mem_cons_self ..)
      have hone : digitsValue [digit d] = d := by
        show 10 * 0 + ((digit d).toNat - 48) = d
        rw [toNat_digit, Nat.mod_eq_of_lt hd]
        omega
      rw [List.reverse_cons, List.map_append, digitsValue_append,
        ih (fun e he => hds e (List.mem_cons_of_mem d he)), List.map_singleton, hone,
        Nat.ofDigits_cons, List.length_singleton]
      ring
  unfold decimal
  split
  case isTrue h => rw [h]; rfl
  case isFalse =>
    rw [hgen _ (fun d hd => Nat.digits_lt_base (by decide) hd), Nat.ofDigits_digits]

theorem length_fixedDigits (k n : ℕ) : (fixedDigits k n).length = k := by
  induction k with
  | zero => rfl
  | succ k ih => rw [fixedDigits, List.length_cons, ih]

theorem isDigit_of_mem_fixedDigits {k n : ℕ} {c : UInt8} (h : c ∈ fixedDigits k n) :
    isDigit c = true := by
  induction k with
  | zero => cases h
  | succ k ih =>
    rcases List.mem_cons.mp h with rfl | h
    · exact isDigit_digit _
    · exact ih h

theorem digitsValue_fixedDigits (k n : ℕ) : digitsValue (fixedDigits k n) = n % 10 ^ k := by
  induction k with
  | zero => rw [pow_zero, Nat.mod_one]; rfl
  | succ k ih =>
    have hhead : digitsValue [digit (n / 10 ^ k)] = n / 10 ^ k % 10 := by
      show 10 * 0 + ((digit (n / 10 ^ k)).toNat - 48) = _
      rw [toNat_digit]
      omega
    rw [fixedDigits, ← List.singleton_append, digitsValue_append, ih, hhead, length_fixedDigits,
      Nat.mod_pow_succ]
    ring

/-- A digit is no sign, no space and no letter. -/
theorem isDigit_cases {c : UInt8} (h : isDigit c = true) :
    c ≠ 45 ∧ c ≠ 43 ∧ isSpace c = false ∧ lower c = c := by
  have hc := isDigit_iff.mp h
  refine ⟨?_, ?_, ?_, ?_⟩
  · rintro rfl
    exact absurd h (by decide)
  · rintro rfl
    exact absurd h (by decide)
  · rw [isSpace, Bool.or_eq_false_iff, Bool.and_eq_false_iff, beq_eq_false_iff_ne]
    refine ⟨?_, Or.inr ?_⟩
    · rintro rfl
      exact absurd h (by decide)
    · rw [decide_eq_false_iff_not, UInt8.le_iff_toNat_le]
      have h13 : (13 : UInt8).toNat = 13 := rfl
      omega
  · rw [lower, if_neg]
    rw [Bool.and_eq_true, decide_eq_true_iff, UInt8.le_iff_toNat_le]
    have h65 : (65 : UInt8).toNat = 65 := rfl
    omega

/-! ## The characters of what was written -/

theorem notMem_toStringInt {c : UInt8} {x : ℤ} (hd : isDigit c = false) (hm : c ≠ minus) :
    c ∉ toStringInt x := by
  intro h
  rcases List.mem_append.mp h with h | h
  · split at h
    · exact hm (List.mem_singleton.mp h)
    · cases h
  · exact absurd (isDigit_of_mem_decimal h) (by rw [hd]; exact Bool.false_ne_true)

theorem toStringInt_ne_nil (x : ℤ) : toStringInt x ≠ [] :=
  List.append_ne_nil_of_right_ne_nil _ (decimal_ne_nil _)

theorem notMem_toStringDouble {c : UInt8} {d : Double} (hd : isDigit c = false) (hm : c ≠ minus)
    (hdot : c ≠ dot) (hnan : c ∉ Bytes.ofString "nan") (hinf : c ∉ Bytes.ofString "inf") :
    c ∉ toStringDouble d := by
  have hsign : ∀ p : Prop, ∀ [Decidable p], c ∉ (if p then [minus] else []) := by
    intro p _ h
    split at h
    · exact hm (List.mem_singleton.mp h)
    · cases h
  intro h
  cases d with
  | nan negative => exact (List.mem_append.mp h).elim (hsign _) hnan
  | inf negative => exact (List.mem_append.mp h).elim (hsign _) hinf
  | finite q =>
    rcases List.mem_append.mp h with h | h
    · exact hsign _ h
    · rcases List.mem_append.mp h with h | h
      · exact absurd (isDigit_of_mem_decimal h) (by rw [hd]; exact Bool.false_ne_true)
      · rcases List.mem_cons.mp h with h | h
        · exact hdot h
        · exact absurd (isDigit_of_mem_fixedDigits h) (by rw [hd]; exact Bool.false_ne_true)

theorem toStringDouble_ne_nil (d : Double) : toStringDouble d ≠ [] := by
  cases d with
  | nan negative => exact List.append_ne_nil_of_right_ne_nil _ (by decide)
  | inf negative => exact List.append_ne_nil_of_right_ne_nil _ (by decide)
  | finite q =>
    exact List.append_ne_nil_of_right_ne_nil _ (List.append_ne_nil_of_left_ne_nil
      (decimal_ne_nil _) _)

/-! ## Reading what was written -/

/-- The sign of a number that was printed, and its first digit. -/
theorem takeSign_text (negative : Bool) {c : UInt8} {s : Bytes} (h : isDigit c = true) :
    takeSign (((if negative then [minus] else []) ++ c :: s).dropWhile isSpace)
      = (negative, c :: s) := by
  obtain ⟨h45, h43, hspace, _⟩ := isDigit_cases h
  cases negative with
  | true => rfl
  | false =>
    show takeSign ((c :: s).dropWhile isSpace) = _
    rw [List.dropWhile_cons_of_neg (by rw [hspace]; exact Bool.false_ne_true)]
    unfold takeSign
    split
    · rename_i heq
      cases heq
      exact absurd rfl h45
    · rename_i heq
      cases heq
      exact absurd rfl h43
    · rfl

theorem takeWhile_digits {s t : Bytes} (hs : ∀ c ∈ s, isDigit c = true)
    (ht : ∀ c ∈ t.head?, isDigit c = false) :
    (s ++ t).takeWhile isDigit = s ∧ (s ++ t).dropWhile isDigit = t := by
  induction s with
  | nil =>
    cases t with
    | nil => exact ⟨rfl, rfl⟩
    | cons c t =>
      have hc := ht c rfl
      refine ⟨List.takeWhile_cons_of_neg ?_, List.dropWhile_cons_of_neg ?_⟩ <;>
        rw [hc] <;> exact Bool.false_ne_true
  | cons c s ih =>
    have hc := hs c (List.mem_cons_self ..)
    obtain ⟨h₁, h₂⟩ := ih (fun d hd => hs d (List.mem_cons_of_mem c hd))
    refine ⟨?_, ?_⟩
    · rw [List.cons_append, List.takeWhile_cons_of_pos hc, h₁]
    · rw [List.cons_append, List.dropWhile_cons_of_pos hc, h₂]

/-- **An `int` that was printed is read back.** -/
theorem stoi_toString {x : ℤ} (h : InInt x) : stoi (toStringInt x) = .ok x := by
  obtain ⟨c, s, hcs⟩ := List.exists_cons_of_ne_nil (decimal_ne_nil x.natAbs)
  have hc : isDigit c = true := isDigit_of_mem_decimal (hcs ▸ List.mem_cons_self ..)
  have hsign := takeSign_text (decide (x < 0)) (s := s) hc
  have hdigits := (takeWhile_digits (t := []) (fun _ => isDigit_of_mem_decimal (n := x.natAbs))
    (by simp)).1
  rw [List.append_nil] at hdigits
  have hval : (if decide (x < 0) = true then -(digitsValue (decimal x.natAbs) : ℤ)
      else digitsValue (decimal x.natAbs)) = x := by
    rw [digitsValue_decimal]
    split <;> rename_i hx <;> rw [decide_eq_true_iff] at hx <;> omega
  rw [stoi, toStringInt, hcs]
  simp only [decide_eq_true_eq] at hsign
  rw [hsign, ← hcs]
  dsimp only
  rw [hdigits, if_neg (by rw [List.isEmpty_iff]; exact decimal_ne_nil _), hval, if_pos h]

/-! The same for `double`: the six decimals are read as they are, and
rounded to the nearest double. -/

/-- What a `double` becomes when it is printed and read back. -/
def Double.printed : Double → Double
  | finite q => finite (toDouble ((if q < 0 then -1 else 1) * (micros q / 10 ^ 6)))
  | d => d

theorem roundHalfEven_le (q : ℚ) : (roundHalfEven q : ℚ) ≤ q + 1 / 2 := by
  have hf := Int.floor_le q
  unfold roundHalfEven
  split
  · linarith
  · split <;> [skip; split] <;> push_cast <;> linarith

theorem le_roundHalfEven {n : ℤ} {q : ℚ} (h : (n : ℚ) ≤ q) : n ≤ roundHalfEven q := by
  have hn : n ≤ ⌊q⌋ := Int.le_floor.mpr h
  unfold roundHalfEven
  split
  · exact hn
  · split <;> [skip; split] <;> omega

/-- **Rounding to 53 bits loses less than half of a number.** -/
theorem half_lt_roundTo {q : ℚ} (hq : 0 < q) : q / 2 < roundTo (lastBit q) q := by
  have hle : (2 : ℚ) ^ Int.log 2 q ≤ q := Int.zpow_log_le_self one_lt_two hq
  have hlt : q < (2 : ℚ) ^ (Int.log 2 q + 1) := Int.lt_zpow_succ_log_self one_lt_two q
  rw [zpow_add_one₀ two_ne_zero] at hlt
  have hpow : (2 : ℚ) ^ Int.log 2 q = 2 ^ 52 * 2 ^ (Int.log 2 q - 52) := by
    rw [← zpow_natCast, ← zpow_add₀ two_ne_zero]
    congr 1
    push_cast
    ring
  rw [roundTo, lastBit, abs_of_pos hq]
  have hulp : (0 : ℚ) < 2 ^ (Int.log 2 q - 52) := zpow_pos two_pos _
  have hround : (2 ^ 52 : ℤ) ≤ roundHalfEven (q / 2 ^ (Int.log 2 q - 52)) := by
    refine le_roundHalfEven ?_
    rw [le_div_iff₀ hulp, Int.cast_pow, Int.cast_ofNat, ← hpow]
    exact hle
  calc q / 2 < 2 ^ Int.log 2 q := by linarith
    _ = ((2 ^ 52 : ℤ) : ℚ) * 2 ^ (Int.log 2 q - 52) := by
      rw [hpow, Int.cast_pow, Int.cast_ofNat]
    _ ≤ _ := mul_le_mul_of_nonneg_right (Int.cast_le.mpr hround) hulp.le

/-- The value printed is not much larger than the value. -/
theorem micros_le (q : ℚ) : (micros q : ℚ) / 10 ^ 6 ≤ |q| + 1 := by
  have hround := roundHalfEven_le (|q| * 10 ^ 6)
  have hcast : (micros q : ℚ) ≤ |q| * 10 ^ 6 + 1 / 2 := by
    unfold micros
    rcases le_or_gt 0 (roundHalfEven (|q| * 10 ^ 6)) with h | h
    · have hnat : (((roundHalfEven (|q| * 10 ^ 6)).toNat : ℤ) : ℚ)
          = (roundHalfEven (|q| * 10 ^ 6) : ℚ) := by rw [Int.toNat_of_nonneg h]
      rw [← Int.cast_natCast, hnat]
      exact hround
    · rw [Int.toNat_of_nonpos h.le]
      have := abs_nonneg q
      push_cast
      linarith
  rw [div_le_iff₀ (by norm_num)]
  linarith

/-- **What is printed can be represented.** -/
theorem not_outOfRange_micros {q : ℚ} (h : |q| ≤ Double.max) :
    ¬ (overflows ((micros q : ℚ) / 10 ^ 6) ∨ underflows ((micros q : ℚ) / 10 ^ 6)) := by
  have hpos : (0 : ℚ) ≤ (micros q : ℚ) / 10 ^ 6 := by positivity
  rintro (hover | ⟨hne, hsmall⟩)
  · unfold overflows at hover
    unfold Double.max at h
    rw [abs_of_nonneg hpos] at hover
    have hle := micros_le q
    have hbig : (1 : ℚ) < 2 ^ 970 := one_lt_pow₀ (by norm_num) (by norm_num)
    have hdouble : (2 : ℚ) ^ 971 = 2 * 2 ^ 970 := pow_succ' 2 970
    generalize (2 : ℚ) ^ 1024 = X at hover h
    generalize (2 : ℚ) ^ 971 = Y at hdouble h
    generalize (2 : ℚ) ^ 970 = Z at hover hbig hdouble
    linarith
  · rcases Nat.eq_zero_or_pos (micros q) with h0 | h0
    · rw [h0, Nat.cast_zero, zero_div] at hne
      exact hne (if_pos rfl)
    · have hone : (1 : ℚ) ≤ micros q := by exact_mod_cast h0
      have hhalf := half_lt_roundTo (q := (micros q : ℚ) / 10 ^ 6) (by positivity)
      have habs := hhalf.trans (lt_of_le_of_lt (le_abs_self _) hsmall)
      have hmin : 1 / 10 ^ 6 ≤ (micros q : ℚ) / 10 ^ 6 :=
        div_le_div_of_nonneg_right hone (by positivity)
      have htiny : (1 : ℚ) / 2 ^ 1022 ≤ 1 / 2 ^ 21 :=
        one_div_le_one_div_of_le (by positivity) (pow_le_pow_right₀ one_le_two (by decide))
      have hgap : (1 : ℚ) / 2 ^ 21 < 1 / 10 ^ 6 / 2 := by norm_num
      generalize (1 : ℚ) / 2 ^ 1022 = X at habs htiny
      linarith

/-- A string whose first character is another is another. -/
theorem take_lower_ne {s : Bytes} {c x : UInt8} {k : ℕ} {w : Bytes} (hc : lower c ≠ x) :
    ((c :: s).map lower).take (k + 1) ≠ x :: w := by
  intro h
  exact hc (List.cons.inj h).1

/-- Digits, a point and digits are a number. -/
theorem takeNumber_digits {s t : Bytes} (hs : ∀ c ∈ s, isDigit c = true) (hne : s ≠ [])
    (ht : ∀ c ∈ t, isDigit c = true) :
    takeNumber (s ++ dot :: t)
      = some (.finite ((digitsValue (s ++ t) : ℚ) * 10 ^ (-(t.length : ℤ)))) := by
  have hdec : decimalNumber (s ++ dot :: t)
      = some ((digitsValue (s ++ t) : ℚ) * 10 ^ (-(t.length : ℤ))) := by
    obtain ⟨htake, hdrop⟩ := takeWhile_digits (t := dot :: t) hs (by
      intro d hd
      cases hd
      decide)
    obtain ⟨htake', hdrop'⟩ := takeWhile_digits (t := []) ht (by simp)
    rw [List.append_nil] at htake' hdrop'
    have hm : takeMantissa isDigit (s ++ dot :: t) = (s, t, []) := by
      rw [takeMantissa, hdrop, htake]
      show (s, t.takeWhile isDigit, t.dropWhile isDigit) = _
      rw [htake', hdrop']
    have hempty : ¬ (s.isEmpty && t.isEmpty) = true := by
      rw [Bool.and_eq_true, List.isEmpty_iff]
      exact fun h => hne h.1
    rw [decimalNumber, hm]
    dsimp only
    rw [if_neg hempty, takeExponent, zero_sub]
  -- the first character is a digit, and the second one a digit or the point
  obtain ⟨c, s, rfl⟩ := List.exists_cons_of_ne_nil hne
  have hdigit : ∀ c, isDigit c = true → ∀ x : UInt8, 97 ≤ x.toNat → lower c ≠ x := by
    intro c hc x hx
    have hnum := isDigit_iff.mp hc
    rw [(isDigit_cases hc).2.2.2]
    rintro rfl
    omega
  have hc := hdigit c (hs c (List.mem_cons_self ..))
  have hx : (((c :: s) ++ dot :: t).map lower).take 2 ≠ Bytes.ofString "0x" := by
    intro h
    cases s with
    | nil => exact absurd (List.cons.inj (List.cons.inj h).2).1 (by decide)
    | cons c' s =>
      have hc' := hdigit c' (hs c' (List.mem_cons_of_mem _ (List.mem_cons_self ..)))
      exact hc' _ (by decide) (List.cons.inj (List.cons.inj h).2).1
  have hnan : (((c :: s) ++ dot :: t).map lower).take 3 ≠ Bytes.ofString "nan" :=
    take_lower_ne (hc 110 (by decide))
  have hinf : (((c :: s) ++ dot :: t).map lower).take 3 ≠ Bytes.ofString "inf" :=
    take_lower_ne (hc 105 (by decide))
  rw [takeNumber, if_neg hnan, if_neg hinf, if_neg hx, hdec]
  rfl

/-- **A `double` that was printed is read back**, as the double nearest to
its six decimals. -/
theorem stod_toString {d : Double} (h : d.InRange) : stod (toStringDouble d) = .ok d.printed := by
  cases d with
  | nan negative => cases negative <;> rfl
  | inf negative => cases negative <;> rfl
  | finite q =>
    have hlen : (fixedDigits 6 (micros q)).length = 6 := length_fixedDigits 6 _
    have hnum := takeNumber_digits (fun c => isDigit_of_mem_decimal (n := micros q / 10 ^ 6))
      (decimal_ne_nil _) (fun c => isDigit_of_mem_fixedDigits (k := 6) (n := micros q))
    rw [digitsValue_append, digitsValue_decimal, digitsValue_fixedDigits, hlen,
      Nat.div_add_mod'] at hnum
    obtain ⟨c, s, hcs⟩ := List.exists_cons_of_ne_nil (decimal_ne_nil (micros q / 10 ^ 6))
    have hc : isDigit c = true := isDigit_of_mem_decimal (hcs ▸ List.mem_cons_self ..)
    have hsign := takeSign_text (decide (q < 0)) (s := s ++ dot :: fixedDigits 6 (micros q)) hc
    have hval : (micros q : ℚ) * 10 ^ (-((6 : ℕ) : ℤ)) = micros q / 10 ^ 6 := by
      rw [zpow_neg, zpow_natCast, div_eq_mul_inv]
    rw [hval] at hnum
    simp only [decide_eq_true_eq] at hsign
    rw [stod, toStringDouble, hcs, List.cons_append, hsign, ← List.cons_append, ← hcs]
    dsimp only
    rw [hnum]
    dsimp only
    rw [if_neg (not_outOfRange_micros h), Double.printed]
    by_cases hq : q < 0 <;> simp [hq]

end PbRpc
