import PbRpc.BufferFifo

/-!
# Integers written to a buffer

`appendInt32`, `appendInt16` and `appendInt8` put an integer into the buffer
with its most significant byte first, and `readInt32`, `readInt16` and
`readInt8` take it out again. In between the integer is a number of the host:
it is converted by `htobe32` and the like, and copied to or from the memory of
the host, whose `ByteOrder` decides what the conversions do.

On a host of either order the two sides agree for 32 and for 8 bits.
`appendInt16` converts with `htobe32`, the conversion for 32 bits, and keeps
16 of them. With the most significant byte first that is harmless; with the
least significant first, the 16 bits that are kept are the upper half, which
says no more than whether the number is negative (`readBack`).
-/

namespace PbRpc

open BigEndian

/-- The order of the bytes of a number in the memory of the host. -/
inductive ByteOrder where
  | little
  | big
deriving DecidableEq, Repr

namespace ByteOrder

/-- The `k` bytes of a number in memory. -/
def memory : ByteOrder → ℕ → ℤ → Bytes
  | little, k, x => (intBE k x).reverse
  | big, k, x => intBE k x

/-- The number whose bytes are in memory. -/
def load : ByteOrder → Bytes → ℤ
  | little, bs => ofIntBE bs.reverse
  | big, bs => ofIntBE bs

/-- `htobe32` and its like, and their inverses: on a host with the least
significant byte first the bytes are reversed. -/
def htobe : ByteOrder → ℕ → ℤ → ℤ
  | little, k, x => ofIntBE (intBE k x).reverse
  | big, _, x => x

/-- A number of `k` bytes determines them. -/
theorem intBE_ofIntBE' {k : ℕ} {bs : Bytes} (h : bs.length = k) : intBE k (ofIntBE bs) = bs := by
  rw [← h]
  exact intBE_ofIntBE bs

/-- **What is written to memory after the conversion** has the most significant
byte first. -/
theorem memory_htobe (host : ByteOrder) (k : ℕ) (x : ℤ) :
    host.memory k (host.htobe k x) = intBE k x := by
  cases host with
  | little =>
    show (intBE k (ofIntBE (intBE k x).reverse)).reverse = intBE k x
    rw [intBE_ofIntBE' (by rw [List.length_reverse, length_intBE]), List.reverse_reverse]
  | big => rfl

/-- **What is read from memory and converted** is the number that the bytes
denote with the most significant one first. -/
theorem htobe_load (host : ByteOrder) {k : ℕ} {bs : Bytes} (h : bs.length = k) :
    host.htobe k (host.load bs) = ofIntBE bs := by
  cases host with
  | little =>
    show ofIntBE (intBE k (ofIntBE bs.reverse)).reverse = ofIntBE bs
    rw [intBE_ofIntBE' (by rw [List.length_reverse, h]), List.reverse_reverse]
  | big => rfl

end ByteOrder

namespace Buffer

/-- `int16_t be16 = htobe32(x)`, and its two bytes in memory. -/
def int16Bytes (host : ByteOrder) (x : Int16) : Bytes :=
  host.memory 2 (Int16.ofInt (host.htobe 4 x.toInt)).toInt

def appendInt16 (host : ByteOrder) (b : Buffer) (x : Int16) : Buffer :=
  b.writeToBuffer (int16Bytes host x)

/-- `int32_t be32 = htobe32(x)`, and its four bytes in memory: they are the
same on any host. -/
def int32Bytes (host : ByteOrder) (x : Int32) : Bytes :=
  host.memory 4 (host.htobe 4 x.toInt)

theorem appendInt32_eq (host : ByteOrder) (b : Buffer) (x : Int32) :
    b.appendInt32 x = b.writeToBuffer (int32Bytes host x) := by
  rw [int32Bytes, host.memory_htobe, appendInt32]

/-! ## Sequences of integers -/

/-- **An integer of one of the three widths.** -/
inductive IntValue where
  | int8 (x : Int8)
  | int16 (x : Int16)
  | int32 (x : Int32)
deriving DecidableEq, Repr

inductive IntWidth where
  | int8
  | int16
  | int32
deriving DecidableEq, Repr

def IntValue.width : IntValue → IntWidth
  | int8 _ => .int8
  | int16 _ => .int16
  | int32 _ => .int32

/-- `sizeof`. -/
def IntWidth.size : IntWidth → ℕ
  | int8 => 1
  | int16 => 2
  | int32 => 4

def appendInt (host : ByteOrder) (b : Buffer) : IntValue → Buffer
  | .int8 x => b.appendInt8 x
  | .int16 x => b.appendInt16 host x
  | .int32 x => b.appendInt32 x

/-- Integers are appended one after the other. -/
def appendInts (host : ByteOrder) (b : Buffer) (values : List IntValue) : Buffer :=
  values.foldl (appendInt host) b

def readInteger (b : Buffer) : IntWidth → Except Fault (IntValue × Buffer)
  | .int8 => b.readInt8.map (Prod.map .int8 id)
  | .int16 => b.readInt16.map (Prod.map .int16 id)
  | .int32 => b.readInt32.map (Prod.map .int32 id)

/-- Integers are read one after the other. -/
def readIntegers (b : Buffer) : List IntWidth → Except Fault (List IntValue × Buffer)
  | [] => .ok ([], b)
  | width :: widths => do
    let (value, b) ← b.readInteger width
    let (values, b) ← b.readIntegers widths
    return (value :: values, b)

/-- The number of bytes of a sequence of integers. -/
def sizeOfInts (values : List IntValue) : ℕ := (values.map (fun v => v.width.size)).sum

/-- **Integers come back as they went**: after what was readable before has
been consumed, reading gives the values and consumes what was appended. -/
def RoundTrip (host : ByteOrder) (b : Buffer) (values : List IntValue) : Prop :=
  ∃ b₁ b₂, (b.appendInts host values).retrieve b.readableBytes = .ok b₁ ∧
    b₁.readableBytes = sizeOfInts values ∧
    b₁.readIntegers (values.map IntValue.width) = .ok (values, b₂) ∧ b₂.readableBytes = 0

/-! ## The bytes of an integer -/

/-- The bytes an integer is written as. -/
def IntValue.bytes (host : ByteOrder) : IntValue → Bytes
  | int8 x => intBE 1 x.toInt
  | int16 x => int16Bytes host x
  | int32 x => int32Bytes host x

/-- What an integer is read back as: what `be16toh` makes of the two bytes. -/
def IntValue.readBack (host : ByteOrder) : IntValue → IntValue
  | int8 x => .int8 x
  | int16 x => .int16 (Int16.ofInt (host.htobe 2 (host.load (int16Bytes host x))))
  | int32 x => .int32 x

@[simp] theorem length_int16Bytes (host : ByteOrder) (x : Int16) :
    (int16Bytes host x).length = 2 := by
  cases host with
  | little => exact (List.length_reverse).trans (length_intBE 2 _)
  | big => exact length_intBE 2 _

@[simp] theorem IntValue.length_bytes (host : ByteOrder) (value : IntValue) :
    (value.bytes host).length = value.width.size := by
  cases value with
  | int8 x => exact length_intBE 1 _
  | int16 x => exact length_int16Bytes host x
  | int32 x =>
    show (int32Bytes host x).length = 4
    rw [int32Bytes, host.memory_htobe, length_intBE]

@[simp] theorem readable_appendInt (host : ByteOrder) (b : Buffer) (value : IntValue) :
    (b.appendInt host value).readable = b.readable ++ value.bytes host := by
  cases value with
  | int8 x => exact b.readable_appendInt8 x
  | int16 x => exact b.readable_writeToBuffer _
  | int32 x =>
    rw [appendInt, b.appendInt32_eq host]
    exact b.readable_writeToBuffer _

/-- **The integers are appended to what is readable.** -/
theorem readable_appendInts (host : ByteOrder) (b : Buffer) (values : List IntValue) :
    (b.appendInts host values).readable
      = b.readable ++ values.flatMap (IntValue.bytes host) := by
  induction values generalizing b with
  | nil => exact (List.append_nil _).symm
  | cons value values ih =>
    show ((b.appendInt host value).appendInts host values).readable = _
    rw [ih, readable_appendInt, List.flatMap_cons, List.append_assoc]

theorem length_flatMap_bytes (host : ByteOrder) (values : List IntValue) :
    (values.flatMap (IntValue.bytes host)).length = sizeOfInts values := by
  rw [List.length_flatMap, sizeOfInts]
  simp only [IntValue.length_bytes]

/-! ## Reading -/

theorem readInt16_append {b : Buffer} {bs rest : Bytes} (h : b.readable = bs ++ rest)
    (hbs : bs.length = 2) :
    ∃ b', b.readInt16 = .ok (Int16.ofInt (ofIntBE bs), b') ∧ b'.readable = rest := by
  have hle : 2 ≤ b.readableBytes := by
    rw [← length_readable, h, List.length_append, hbs]
    exact Nat.le_add_right _ _
  obtain ⟨b', hb'⟩ := readInt_of_le hle
  refine ⟨b', ?_, ?_⟩
  · rw [readInt16, hb', h, List.take_left' hbs]
    rfl
  · rw [(retrieve_eq_ok (readInt_eq_ok hb').2).2, h, List.drop_left' hbs]

/-- **One integer is read**, and what is behind it is left. -/
theorem readInteger_append (host : ByteOrder) {b : Buffer} {value : IntValue} {rest : Bytes}
    (h : b.readable = value.bytes host ++ rest) :
    ∃ b', b.readInteger value.width = .ok (value.readBack host, b')
      ∧ b'.readable = rest := by
  cases value with
  | int8 x =>
    obtain ⟨b', hb', hrest⟩ := readInt8_append h
    exact ⟨b', by rw [IntValue.width, readInteger, hb']; rfl, hrest⟩
  | int16 x =>
    have hlen := length_int16Bytes host x
    obtain ⟨b', hb', hrest⟩ := readInt16_append h hlen
    refine ⟨b', ?_, hrest⟩
    rw [IntValue.width, readInteger, hb', IntValue.readBack, host.htobe_load hlen]
    rfl
  | int32 x =>
    rw [IntValue.bytes, int32Bytes, host.memory_htobe] at h
    obtain ⟨b', hb', hrest⟩ := readInt32_append h
    exact ⟨b', by rw [IntValue.width, readInteger, hb']; rfl, hrest⟩

theorem readIntegers_append (host : ByteOrder) {b : Buffer} {values : List IntValue}
    {rest : Bytes} (h : b.readable = values.flatMap (IntValue.bytes host) ++ rest) :
    ∃ b', b.readIntegers (values.map IntValue.width)
        = .ok (values.map (IntValue.readBack host), b') ∧ b'.readable = rest := by
  induction values generalizing b with
  | nil => exact ⟨b, rfl, h⟩
  | cons value values ih =>
    rw [List.flatMap_cons, List.append_assoc] at h
    obtain ⟨b₁, hb₁, hrest⟩ := readInteger_append host h
    obtain ⟨b₂, hb₂, hend⟩ := ih hrest
    exact ⟨b₂, bind_eq_ok.mpr ⟨_, hb₁, bind_eq_ok.mpr ⟨_, hb₂, rfl⟩⟩, hend⟩

/-! ## The 16 bits that are written -/

/-- With the most significant byte first nothing is lost. -/
theorem int16Bytes_big (x : Int16) : int16Bytes .big x = intBE 2 x.toInt := by
  show intBE 2 (Int16.ofInt x.toInt).toInt = intBE 2 x.toInt
  rw [Int16.ofInt_toInt]

/-- **With the least significant byte first** the upper half of the number,
extended to 32 bits, is written. -/
theorem int16Bytes_little (x : Int16) : int16Bytes .little x = intBE 2 (x.toInt / 65536) := by
  have hlow : ∀ v : ℤ, intBE 2 (Int16.ofInt v).toInt = intBE 2 v := by
    intro v
    rw [Int16.toInt_ofInt, intBE, intBE]
    exact congrArg (fun n : ℤ => natBE 2 n.toNat) Int.bmod_emod
  have hrev : intBE 2 (ofIntBE (intBE 4 x.toInt).reverse) = (intBE 4 x.toInt).reverse.drop 2 := by
    have hlen : (intBE 4 x.toInt).reverse.length = 2 + 2 := by
      rw [List.length_reverse, length_intBE]
    generalize (intBE 4 x.toInt).reverse = bs at hlen
    have hall := ByteOrder.intBE_ofIntBE' hlen
    rw [intBE_add] at hall
    calc intBE 2 (ofIntBE bs)
        = (intBE 2 (ofIntBE bs / 256 ^ 2) ++ intBE 2 (ofIntBE bs)).drop 2 :=
          (List.drop_left' (length_intBE 2 _)).symm
      _ = bs.drop 2 := by rw [hall]
  have hhigh : (intBE 4 x.toInt).take 2 = intBE 2 (x.toInt / 65536) := by
    rw [show intBE 4 x.toInt = intBE 2 (x.toInt / 256 ^ 2) ++ intBE 2 x.toInt from
      intBE_add 2 2 x.toInt, List.take_left' (length_intBE 2 _)]
    rfl
  show (intBE 2 (Int16.ofInt (ofIntBE (intBE 4 x.toInt).reverse)).toInt).reverse = _
  rw [hlow, hrev, List.drop_reverse, List.reverse_reverse, length_intBE]
  exact hhigh

/-- **An `int16_t` comes back as it went** on a host with the most significant
byte first, and otherwise if it is 0 or -1. -/
theorem readBack_int16 (host : ByteOrder) (x : Int16) :
    (IntValue.int16 x).readBack host = .int16 x ↔ host = .big ∨ x = 0 ∨ x = -1 := by
  have hlo := x.le_toInt
  have hhi := x.toInt_lt
  rw [IntValue.readBack, host.htobe_load (length_int16Bytes host x), IntValue.int16.injEq]
  cases host with
  | big =>
    rw [int16Bytes_big, ofIntBE_intBE 2 x.toInt (by omega) (by omega), Int16.ofInt_toInt]
    exact iff_of_true rfl (.inl rfl)
  | little =>
    rw [int16Bytes_little, ofIntBE_intBE 2 _ (by omega) (by omega)]
    simp only [reduceCtorEq, false_or]
    -- the upper half of a number that fits the lower half is its sign
    by_cases hneg : x.toInt < 0
    · have hsign : x.toInt / 65536 = -1 := by omega
      have hzero : x ≠ 0 := by
        rintro rfl
        exact absurd hneg (by decide)
      rw [hsign, or_iff_right hzero]
      exact eq_comm
    · have hsign : x.toInt / 65536 = 0 := by omega
      have hone : x ≠ -1 := by
        rintro rfl
        exact hneg (by decide)
      rw [hsign, or_iff_left hone]
      exact eq_comm

/-- The integers that come back. -/
theorem map_readBack (host : ByteOrder) (values : List IntValue) :
    values.map (IntValue.readBack host) = values
      ↔ host = .big ∨ ∀ x, .int16 x ∈ values → x = 0 ∨ x = -1 := by
  have hmap : values.map (IntValue.readBack host) = values
      ↔ ∀ v ∈ values, v.readBack host = v := by
    constructor
    · intro h
      exact List.map_inj_left.mp (h.trans (List.map_id values).symm)
    · intro h
      exact (List.map_congr_left h).trans (List.map_id values)
  rw [hmap]
  constructor
  · intro h
    by_cases hhost : host = .big
    · exact .inl hhost
    · exact .inr fun x hx => ((readBack_int16 host x).mp (h _ hx)).resolve_left hhost
  · intro h v hv
    cases v with
    | int8 x => rfl
    | int16 x => exact (readBack_int16 host x).mpr (h.imp id (fun h => h x hv))
    | int32 x => rfl

/-- What is read is what the values are read back as, and nothing is left. -/
theorem roundTrip_iff_readBack (host : ByteOrder) (b : Buffer) (values : List IntValue) :
    RoundTrip host b values ↔ values.map (IntValue.readBack host) = values := by
  have happend := b.readable_appendInts host values
  have hle : b.readableBytes ≤ (b.appendInts host values).readableBytes := by
    rw [← length_readable, ← length_readable, happend, List.length_append]
    exact Nat.le_add_right _ _
  obtain ⟨b₁, hb₁⟩ := retrieve_of_le hle
  have hrest : b₁.readable = values.flatMap (IntValue.bytes host) ++ [] := by
    rw [(retrieve_eq_ok hb₁).2, happend, List.append_nil,
      List.drop_left' b.length_readable]
  obtain ⟨b₂, hb₂, hend⟩ := readIntegers_append host hrest
  constructor
  · rintro ⟨b₁', b₂', hb₁', -, hread, -⟩
    obtain rfl := Except.ok.inj (hb₁.symm.trans hb₁')
    exact (Prod.mk.inj (Except.ok.inj (hb₂.symm.trans hread))).1
  · intro h
    rw [h] at hb₂
    refine ⟨b₁, b₂, hb₁, ?_, hb₂, ?_⟩
    · rw [← length_readable, hrest, List.append_nil, length_flatMap_bytes]
    · rw [← length_readable, hend, List.length_nil]

/-- **Integers come back as they went** exactly on a host that has the most
significant byte first, and on others when no `int16_t` but 0 and -1 is among
them. -/
theorem roundTrip_iff (host : ByteOrder) (b : Buffer) (values : List IntValue) :
    RoundTrip host b values ↔ host = .big ∨ ∀ x, .int16 x ∈ values → x = 0 ∨ x = -1 :=
  (roundTrip_iff_readBack host b values).trans (map_readBack host values)

/-- **A 1 is written as two zeros** when the least significant byte is first,
and read back as 0. -/
theorem not_roundTrip :
    (init.appendInt16 .little 1).readable = [0, 0] ∧ ¬ RoundTrip .little init [.int16 1] := by
  refine ⟨by decide +kernel, fun h => ?_⟩
  exact absurd ((roundTrip_iff_readBack .little init [.int16 1]).mp h) (by decide +kernel)

end Buffer

end PbRpc
