import Mathlib.Data.List.Basic
import PbRpc.BigEndian
import PbRpc.MachineInt

/-!
# The byte buffer

`Buffer` is a vector of bytes with a read index and a write index; what is
between the two has been received and not consumed yet. Its two index
invariants are fields of the structure, so a buffer with crossed indices,
or with a write index past the end of the vector, cannot be built.

Everything a reader of the buffer sees is `Buffer.readable`, the bytes
between the indices. The operations move bytes about – growing the vector,
moving the unread bytes to its front, resetting the indices when nothing is
left – and on `readable` each of them is one of two things: appending
(`readable_writeToBuffer`, `readable_readFd`) or dropping a prefix
(`retrieve_eq_ok`). The vector keeps the bytes outside the indices, which
`decode` can see because it indexes the vector itself.
-/

namespace PbRpc

open BigEndian

/-- The write of `data` into a vector at position `i`. -/
def overwrite (v : Bytes) (i : ℕ) (data : Bytes) : Bytes :=
  v.take i ++ data ++ v.drop (i + data.length)

/-- `std::vector::resize`: cut, or filled up with zeros. -/
def resize (v : Bytes) (n : ℕ) : Bytes := v.take n ++ List.replicate (n - v.length) 0

/-- Whatever is written in bounds ends in bounds. -/
theorem le_length_overwrite (v : Bytes) {i : ℕ} (data : Bytes) (h : i ≤ v.length) :
    i + data.length ≤ (overwrite v i data).length := by
  simp only [overwrite, List.length_append, List.length_take, List.length_drop]
  omega

/-- **The buffer**: a vector and two indices into it. -/
structure Buffer where
  /-- The storage, used and unused. -/
  buffer_ : Bytes
  /-- Where the next byte is read. -/
  readIndex_ : ℕ
  /-- Where the next byte is written. -/
  writeIndex_ : ℕ
  read_le_write : readIndex_ ≤ writeIndex_
  write_le_size : writeIndex_ ≤ buffer_.length
deriving DecidableEq, Repr

namespace Buffer

/-- The size of the vector of a new buffer. -/
def kInitialSize : ℕ := 1024

/-- The buffer as its constructor leaves it. -/
def init : Buffer where
  buffer_ := List.replicate kInitialSize 0
  readIndex_ := 0
  writeIndex_ := 0
  read_le_write := le_rfl
  write_le_size := Nat.zero_le _

def getReadIndex (b : Buffer) : ℕ := b.readIndex_

def getWriteIndex (b : Buffer) : ℕ := b.writeIndex_

def getBuffer (b : Buffer) : Bytes := b.buffer_

def readableBytes (b : Buffer) : ℕ := b.writeIndex_ - b.readIndex_

def writeableBytes (b : Buffer) : ℕ := b.buffer_.length - b.writeIndex_

def prependableBytes (b : Buffer) : ℕ := b.readIndex_

/-- **The readable bytes**, received and not consumed. -/
def readable (b : Buffer) : Bytes := (b.buffer_.drop b.readIndex_).take b.readableBytes

/-- Make room for `len` more bytes: enlarge the vector when the space
before and after the readable bytes does not suffice together, move the
readable bytes to the front when it does. -/
def makeSpace (b : Buffer) (len : ℕ) : Buffer :=
  if b.writeableBytes + b.prependableBytes < len then
    { b with
      buffer_ := resize b.buffer_ (b.writeIndex_ + len)
      write_le_size := by
        simp only [resize, List.length_append, List.length_take, List.length_replicate]
        have := b.write_le_size
        omega }
  else
    { buffer_ := overwrite b.buffer_ 0 b.readable
      readIndex_ := 0
      writeIndex_ := b.readableBytes
      read_le_write := Nat.zero_le _
      write_le_size := by
        have hr : b.readable.length = b.readableBytes := by
          simp only [readable, readableBytes, List.length_take, List.length_drop]
          have := b.write_le_size
          omega
        simpa only [hr, Nat.zero_add] using le_length_overwrite b.buffer_ b.readable (Nat.zero_le _) }

/-- `std::copy` to the write index, followed by `hasWritten`. -/
def copyIn (b : Buffer) (data : Bytes) : Buffer where
  buffer_ := overwrite b.buffer_ b.writeIndex_ data
  readIndex_ := b.readIndex_
  writeIndex_ := b.writeIndex_ + data.length
  read_le_write := le_trans b.read_le_write (Nat.le_add_right _ _)
  write_le_size := le_length_overwrite _ _ b.write_le_size

def writeToBuffer (b : Buffer) (data : Bytes) : Buffer :=
  if b.writeableBytes < data.length then (b.makeSpace data.length).copyIn data
  else b.copyIn data

/-- Consume `len` bytes; the indices go back to the front of the vector
when nothing is left. -/
def retrieve (b : Buffer) (len : ℕ) : Except Fault Buffer :=
  if len ≤ b.readableBytes then
    if h : len < b.readableBytes then
      .ok { b with
        readIndex_ := b.readIndex_ + len
        read_le_write := by unfold readableBytes at h; omega }
    else
      .ok { b with
        readIndex_ := 0
        writeIndex_ := 0
        read_le_write := le_rfl
        write_le_size := Nat.zero_le _ }
  else .error .assertion

def retrieveAsString (b : Buffer) (len : ℕ) : Except Fault (Bytes × Buffer) :=
  if len ≤ b.readableBytes then
    (b.retrieve len).map (fun b' => ((b.buffer_.drop b.readIndex_).take len, b'))
  else .error .assertion

/-- The `k`-byte integer at the read index, without consuming it. -/
def peekInt (k : ℕ) (b : Buffer) : Except Fault ℤ :=
  if k ≤ b.readableBytes then .ok (ofIntBE ((b.buffer_.drop b.readIndex_).take k))
  else .error .assertion

/-- The `k`-byte integer at the read index, consumed. -/
def readInt (k : ℕ) (b : Buffer) : Except Fault (ℤ × Buffer) := do
  let result ← b.peekInt k
  let b ← b.retrieve k
  return (result, b)

def readInt32 (b : Buffer) : Except Fault (Int32 × Buffer) :=
  (b.readInt 4).map (Prod.map Int32.ofInt id)

def readInt8 (b : Buffer) : Except Fault (Int8 × Buffer) :=
  (b.readInt 1).map (Prod.map Int8.ofInt id)

def appendInt32 (b : Buffer) (x : Int32) : Buffer := b.writeToBuffer (intBE 4 x.toInt)

def appendInt8 (b : Buffer) (x : Int8) : Buffer := b.writeToBuffer (intBE 1 x.toInt)

/-- The size of the second block `readFd` offers to `readv`. -/
def extrabufSize : ℕ := 65536

/-- `readFd` when `readv` delivers `data`: what does not fit behind the
write index went to the stack buffer, and is appended from there. -/
def readFd (b : Buffer) (data : Bytes) : Buffer :=
  if data.length ≤ b.writeableBytes then b.copyIn data
  else (b.copyIn (data.take b.writeableBytes)).writeToBuffer (data.drop b.writeableBytes)

/-- `writeFd` when `write` accepts `n` bytes: the bytes, and the buffer
without them. -/
def writeFd (b : Buffer) (n : ℕ) : Except Fault (Bytes × Buffer) :=
  (b.retrieve n).map (fun b' => (b.readable.take n, b'))

/-! ## What the operations do to the readable bytes -/

@[simp] theorem readable_init : init.readable = [] := rfl

@[simp] theorem writeIndex_init : init.writeIndex_ = 0 := rfl

@[simp] theorem length_readable (b : Buffer) : b.readable.length = b.readableBytes := by
  simp only [readable, readableBytes, List.length_take, List.length_drop]
  have := b.write_le_size
  omega

theorem readableBytes_le_writeIndex (b : Buffer) : b.readableBytes ≤ b.writeIndex_ :=
  Nat.sub_le _ _

/-- The readable bytes are the vector's, from the read index on. -/
theorem readable_getElem? (b : Buffer) {i : ℕ} (h : i < b.readableBytes) :
    b.readable[i]? = b.buffer_[b.readIndex_ + i]? := by
  rw [readable, List.getElem?_take_of_lt h, List.getElem?_drop]

/-- A prefix of what is behind the read index is a prefix of the readable
bytes. -/
theorem take_drop_readIndex (b : Buffer) {k : ℕ} (h : k ≤ b.readableBytes) :
    (b.buffer_.drop b.readIndex_).take k = b.readable.take k := by
  rw [readable, List.take_take, Nat.min_eq_left h]

/-- Copying appends. -/
theorem readable_copyIn (b : Buffer) (data : Bytes) :
    (b.copyIn data).readable = b.readable ++ data := by
  have hr := b.read_le_write
  have hw := b.write_le_size
  have hlen : (b.buffer_.take b.writeIndex_).length = b.writeIndex_ := by
    rw [List.length_take, Nat.min_eq_left hw]
  unfold copyIn readable readableBytes overwrite
  dsimp only
  rw [List.append_assoc, List.drop_append_of_le_length (by rw [hlen]; exact hr),
    List.drop_take, ← List.append_assoc, List.take_append_of_le_length (by
      simp only [List.length_append, List.length_take, List.length_drop]; omega)]
  refine List.take_of_length_le ?_
  simp only [List.length_append, List.length_take, List.length_drop]
  omega

/-- Making room changes nothing a reader sees. -/
@[simp] theorem readable_makeSpace (b : Buffer) (len : ℕ) :
    (b.makeSpace len).readable = b.readable := by
  have hr := b.read_le_write
  have hw := b.write_le_size
  unfold makeSpace
  split
  case isTrue h =>
    show (List.drop b.readIndex_ (resize b.buffer_ (b.writeIndex_ + len))).take b.readableBytes
      = b.readable
    unfold writeableBytes prependableBytes at h
    have hfit : b.buffer_.length ≤ b.writeIndex_ + len := by omega
    rw [resize, List.take_of_length_le hfit,
      List.drop_append_of_le_length (le_trans hr hw), List.take_append_of_le_length (by
        rw [List.length_drop, readableBytes]; omega), readable]
  case isFalse h =>
    show (List.drop 0 (overwrite b.buffer_ 0 b.readable)).take b.readableBytes = b.readable
    rw [List.drop_zero, overwrite, List.take_zero, List.nil_append,
      List.take_append_of_le_length (by rw [length_readable])]
    exact List.take_of_length_le (by rw [length_readable])

theorem writeIndex_makeSpace_le (b : Buffer) (len : ℕ) :
    (b.makeSpace len).writeIndex_ ≤ b.writeIndex_ := by
  unfold makeSpace
  split
  · exact le_rfl
  · exact b.readableBytes_le_writeIndex

/-- **Writing appends.** -/
@[simp] theorem readable_writeToBuffer (b : Buffer) (data : Bytes) :
    (b.writeToBuffer data).readable = b.readable ++ data := by
  unfold writeToBuffer
  split
  · rw [readable_copyIn, readable_makeSpace]
  · exact readable_copyIn b data

/-- The write index moves by at most what is written. -/
theorem writeIndex_writeToBuffer_le (b : Buffer) (data : Bytes) :
    (b.writeToBuffer data).writeIndex_ ≤ b.writeIndex_ + data.length := by
  unfold writeToBuffer
  split
  · exact Nat.add_le_add_right (b.writeIndex_makeSpace_le _) _
  · exact le_rfl

/-- **Reading from the socket appends**, however the data is split between
the vector and the stack buffer. -/
@[simp] theorem readable_readFd (b : Buffer) (data : Bytes) :
    (b.readFd data).readable = b.readable ++ data := by
  unfold readFd
  split
  · exact readable_copyIn b data
  · rw [readable_writeToBuffer, readable_copyIn, List.append_assoc, List.take_append_drop]

/-- Reading from the socket never moves the read index up. -/
theorem readIndex_readFd_le (b : Buffer) (data : Bytes) :
    (b.readFd data).readIndex_ ≤ b.readIndex_ := by
  have hwrite : ∀ (b : Buffer) (data : Bytes), (b.writeToBuffer data).readIndex_ ≤ b.readIndex_ := by
    intro b data
    unfold writeToBuffer makeSpace
    split
    · split
      · exact le_rfl
      · exact Nat.zero_le _
    · exact le_rfl
  unfold readFd
  split
  · exact le_rfl
  · exact hwrite _ _

@[simp] theorem readable_appendInt32 (b : Buffer) (x : Int32) :
    (b.appendInt32 x).readable = b.readable ++ intBE 4 x.toInt :=
  readable_writeToBuffer b _

@[simp] theorem readable_appendInt8 (b : Buffer) (x : Int8) :
    (b.appendInt8 x).readable = b.readable ++ intBE 1 x.toInt :=
  readable_writeToBuffer b _

/-- **Consuming drops a prefix.** -/
theorem retrieve_eq_ok {b b' : Buffer} {len : ℕ} (h : b.retrieve len = .ok b') :
    len ≤ b.readableBytes ∧ b'.readable = b.readable.drop len := by
  unfold retrieve at h
  split at h
  case isFalse => cases h
  case isTrue hle =>
    refine ⟨hle, ?_⟩
    split at h
    case isTrue hlt =>
      cases h
      show (b.buffer_.drop (b.readIndex_ + len)).take (b.writeIndex_ - (b.readIndex_ + len))
        = b.readable.drop len
      rw [readable, readableBytes, List.drop_take, List.drop_drop, Nat.sub_sub]
    case isFalse hnlt =>
      cases h
      rw [List.drop_of_length_le (by rw [length_readable]; omega)]
      rfl

/-- Consuming succeeds exactly when there is enough to consume. -/
theorem retrieve_of_le {b : Buffer} {len : ℕ} (h : len ≤ b.readableBytes) :
    ∃ b', b.retrieve len = .ok b' := by
  unfold retrieve
  rw [if_pos h]
  split <;> exact ⟨_, rfl⟩

/-- Consuming never moves the write index up. -/
theorem writeIndex_retrieve_le {b b' : Buffer} {len : ℕ} (h : b.retrieve len = .ok b') :
    b'.writeIndex_ ≤ b.writeIndex_ := by
  unfold retrieve at h
  split at h
  · split at h <;> cases h
    · exact le_rfl
    · exact Nat.zero_le _
  · cases h

/-- Consuming less than everything only moves the read index. -/
theorem retrieve_indices {b b' : Buffer} {len : ℕ} (h : b.retrieve len = .ok b')
    (hlt : len < b.readableBytes) :
    b'.buffer_ = b.buffer_ ∧ b'.readIndex_ = b.readIndex_ + len
      ∧ b'.writeIndex_ = b.writeIndex_ := by
  rw [retrieve, if_pos hlt.le, dif_pos hlt] at h
  cases h
  exact ⟨rfl, rfl, rfl⟩

/-- Consuming everything resets the indices. -/
theorem readIndex_of_readable_nil {b b' : Buffer} {len : ℕ} (h : b.retrieve len = .ok b')
    (hnil : b'.readable = []) : b'.readIndex_ = 0 := by
  obtain ⟨hle, hd⟩ := retrieve_eq_ok h
  have hall : ¬ len < b.readableBytes := by
    rw [← length_readable]
    exact not_lt.mpr (List.drop_eq_nil_iff.mp (hd ▸ hnil))
  rw [retrieve, if_pos hle, dif_neg hall] at h
  cases h
  rfl

theorem retrieveAsString_eq_ok {b b' : Buffer} {len : ℕ} {s : Bytes}
    (h : b.retrieveAsString len = .ok (s, b')) :
    len ≤ b.readableBytes ∧ s = b.readable.take len ∧ b.retrieve len = .ok b' := by
  unfold retrieveAsString at h
  split at h
  case isFalse => cases h
  case isTrue hle =>
    refine ⟨hle, ?_⟩
    cases hr : b.retrieve len with
    | error e => rw [hr] at h; cases h
    | ok b₁ =>
      rw [hr] at h
      cases h
      exact ⟨b.take_drop_readIndex hle, rfl⟩

theorem retrieveAsString_of_le {b : Buffer} {len : ℕ} (h : len ≤ b.readableBytes) :
    ∃ b', b.retrieveAsString len = .ok (b.readable.take len, b') := by
  obtain ⟨b', hb'⟩ := retrieve_of_le h
  refine ⟨b', ?_⟩
  rw [retrieveAsString, if_pos h, hb', b.take_drop_readIndex h]
  rfl

theorem readInt_eq_ok {k : ℕ} {b b' : Buffer} {x : ℤ} (h : b.readInt k = .ok (x, b')) :
    x = ofIntBE (b.readable.take k) ∧ b.retrieve k = .ok b' := by
  obtain ⟨r, hr, h⟩ := bind_eq_ok.mp h
  obtain ⟨b₁, hb₁, h⟩ := bind_eq_ok.mp h
  unfold peekInt at hr
  split at hr
  case isFalse => cases hr
  case isTrue hle =>
    rw [b.take_drop_readIndex hle] at hr
    cases hr
    cases h
    exact ⟨rfl, hb₁⟩

theorem readInt_of_le {k : ℕ} {b : Buffer} (h : k ≤ b.readableBytes) :
    ∃ b', b.readInt k = .ok (ofIntBE (b.readable.take k), b') := by
  obtain ⟨b', hb'⟩ := retrieve_of_le h
  refine ⟨b', bind_eq_ok.mpr ⟨_, ?_, bind_eq_ok.mpr ⟨b', hb', rfl⟩⟩⟩
  rw [peekInt, if_pos h, b.take_drop_readIndex h]

theorem readInt32_eq_ok {b b' : Buffer} {x : Int32} (h : b.readInt32 = .ok (x, b')) :
    x = Int32.ofInt (ofIntBE (b.readable.take 4)) ∧ b.retrieve 4 = .ok b' := by
  unfold readInt32 at h
  cases hr : b.readInt 4 with
  | error e => rw [hr] at h; cases h
  | ok r =>
    rw [hr] at h
    cases h
    obtain ⟨hx, hb⟩ := readInt_eq_ok hr
    exact ⟨congrArg Int32.ofInt hx, hb⟩

theorem readInt32_of_le {b : Buffer} (h : 4 ≤ b.readableBytes) :
    ∃ b', b.readInt32 = .ok (Int32.ofInt (ofIntBE (b.readable.take 4)), b') := by
  obtain ⟨b', hb'⟩ := readInt_of_le h
  exact ⟨b', by rw [readInt32, hb']; rfl⟩

theorem readInt8_eq_ok {b b' : Buffer} {x : Int8} (h : b.readInt8 = .ok (x, b')) :
    x = Int8.ofInt (ofIntBE (b.readable.take 1)) ∧ b.retrieve 1 = .ok b' := by
  unfold readInt8 at h
  cases hr : b.readInt 1 with
  | error e => rw [hr] at h; cases h
  | ok r =>
    rw [hr] at h
    cases h
    obtain ⟨hx, hb⟩ := readInt_eq_ok hr
    exact ⟨congrArg Int8.ofInt hx, hb⟩

theorem readInt8_of_le {b : Buffer} (h : 1 ≤ b.readableBytes) :
    ∃ b', b.readInt8 = .ok (Int8.ofInt (ofIntBE (b.readable.take 1)), b') := by
  obtain ⟨b', hb'⟩ := readInt_of_le h
  exact ⟨b', by rw [readInt8, hb']; rfl⟩

/-- Writing to the socket sends a prefix and keeps the rest. -/
theorem writeFd_eq_ok {b b' : Buffer} {n : ℕ} {sent : Bytes}
    (h : b.writeFd n = .ok (sent, b')) : b.readable = sent ++ b'.readable := by
  unfold writeFd at h
  cases hr : b.retrieve n with
  | error e => rw [hr] at h; cases h
  | ok b₁ =>
    rw [hr] at h
    cases h
    rw [(retrieve_eq_ok hr).2, List.take_append_drop]

end Buffer

/-! ## Integers on the wire -/

theorem inInt_int32 (x : Int32) : InInt x.toInt := by
  have hlo := x.le_toInt
  have hhi := x.toInt_lt
  exact ⟨by omega, by omega⟩

/-- **An `int32_t` comes back from the wire as it went.** -/
@[simp] theorem ofInt32_ofIntBE_intBE (x : Int32) :
    Int32.ofInt (ofIntBE (intBE 4 x.toInt)) = x := by
  have hlo := x.le_toInt
  have hhi := x.toInt_lt
  rw [ofIntBE_intBE 4 x.toInt (by omega) (by omega), Int32.ofInt_toInt]

@[simp] theorem ofInt8_ofIntBE_intBE (x : Int8) :
    Int8.ofInt (ofIntBE (intBE 1 x.toInt)) = x := by
  have hlo := x.le_toInt
  have hhi := x.toInt_lt
  rw [ofIntBE_intBE 1 x.toInt (by omega) (by omega), Int8.ofInt_toInt]

/-- **An `int32_t` determines its four bytes.** -/
theorem intBE_toInt_ofInt32 {bs : Bytes} (h : bs.length = 4) :
    intBE 4 (Int32.ofInt (ofIntBE bs)).toInt = bs := by
  rw [Int32.toInt_ofInt]
  calc intBE 4 ((ofIntBE bs).bmod Int32.size)
      = intBE 4 (ofIntBE bs) := by
        rw [ofIntBE, h]
        exact congrArg (intBE 4) Int.bmod_bmod
    _ = bs := by
        rw [← h]
        exact intBE_ofIntBE bs

theorem intBE_toInt_ofInt8 {bs : Bytes} (h : bs.length = 1) :
    intBE 1 (Int8.ofInt (ofIntBE bs)).toInt = bs := by
  rw [Int8.toInt_ofInt]
  calc intBE 1 ((ofIntBE bs).bmod Int8.size)
      = intBE 1 (ofIntBE bs) := by
        rw [ofIntBE, h]
        exact congrArg (intBE 1) Int.bmod_bmod
    _ = bs := by
        rw [← h]
        exact intBE_ofIntBE bs

/-! ## Reading back what was written

When the readable bytes begin with the encoding of a value, reading gives
the value and leaves what follows. -/

namespace Buffer

variable {b : Buffer} {rest : Bytes}

theorem readInt32_append {x : Int32} (h : b.readable = intBE 4 x.toInt ++ rest) :
    ∃ b', b.readInt32 = .ok (x, b') ∧ b'.readable = rest := by
  have hlen : (intBE 4 x.toInt).length = 4 := length_intBE 4 _
  obtain ⟨b', hb'⟩ := readInt32_of_le (b := b) (by
    rw [← length_readable, h, List.length_append]
    omega)
  refine ⟨b', ?_, ?_⟩
  · rw [hb', h, List.take_left' hlen, ofInt32_ofIntBE_intBE]
  · rw [(retrieve_eq_ok (readInt32_eq_ok hb').2).2, h, List.drop_left' hlen]

theorem readInt8_append {x : Int8} (h : b.readable = intBE 1 x.toInt ++ rest) :
    ∃ b', b.readInt8 = .ok (x, b') ∧ b'.readable = rest := by
  have hlen : (intBE 1 x.toInt).length = 1 := length_intBE 1 _
  obtain ⟨b', hb'⟩ := readInt8_of_le (b := b) (by
    rw [← length_readable, h, List.length_append]
    omega)
  refine ⟨b', ?_, ?_⟩
  · rw [hb', h, List.take_left' hlen, ofInt8_ofIntBE_intBE]
  · rw [(retrieve_eq_ok (readInt8_eq_ok hb').2).2, h, List.drop_left' hlen]

/-- Whatever the next byte is, it can be read as an `int8_t`. -/
theorem readInt8_cons {c : UInt8} (h : b.readable = c :: rest) :
    ∃ x b', b.readInt8 = .ok (x, b') ∧ b'.readable = rest := by
  obtain ⟨b', hb'⟩ := readInt8_of_le (b := b) (by
    rw [← length_readable, h, List.length_cons]
    omega)
  refine ⟨_, b', hb', ?_⟩
  rw [(retrieve_eq_ok (readInt8_eq_ok hb').2).2, h, List.drop_succ_cons, List.drop_zero]

theorem retrieveAsString_append {s : Bytes} (h : b.readable = s ++ rest) :
    ∃ b', b.retrieveAsString s.length = .ok (s, b') ∧ b'.readable = rest := by
  have hle : s.length ≤ b.readableBytes := by
    rw [← length_readable, h, List.length_append]
    omega
  obtain ⟨b', hb'⟩ := retrieveAsString_of_le hle
  refine ⟨b', ?_, ?_⟩
  · rw [hb', h, List.take_left]
  · rw [(retrieve_eq_ok (retrieveAsString_eq_ok hb').2.2).2, h, List.drop_left]

/-! Conversely, what a successful read returned is what was there. -/

theorem readInt32_split {b' : Buffer} {x : Int32} (h : b.readInt32 = .ok (x, b')) :
    b.readable = intBE 4 x.toInt ++ b'.readable := by
  obtain ⟨hx, hb⟩ := readInt32_eq_ok h
  obtain ⟨hle, hd⟩ := retrieve_eq_ok hb
  have hlen : (b.readable.take 4).length = 4 := by
    rw [List.length_take, length_readable, Nat.min_eq_left hle]
  rw [hx, intBE_toInt_ofInt32 hlen, hd, List.take_append_drop]

theorem readInt8_split {b' : Buffer} {x : Int8} (h : b.readInt8 = .ok (x, b')) :
    b.readable = intBE 1 x.toInt ++ b'.readable := by
  obtain ⟨hx, hb⟩ := readInt8_eq_ok h
  obtain ⟨hle, hd⟩ := retrieve_eq_ok hb
  have hlen : (b.readable.take 1).length = 1 := by
    rw [List.length_take, length_readable, Nat.min_eq_left hle]
  rw [hx, intBE_toInt_ofInt8 hlen, hd, List.take_append_drop]

/-- The largest size of a `std::vector<char>`. -/
def maxSize : ℕ := 9223372036854775807

/-- **A string of signed length.** A negative length is larger than any
vector once it is a `size_t`, so a string that was read has the length it
was asked for. -/
theorem retrieveAsString_split {b' : Buffer} {s : Bytes} {x : ℤ} (hx : InInt x)
    (hsize : b.buffer_.length ≤ maxSize) (h : b.retrieveAsString (toSizeT x) = .ok (s, b')) :
    b.readable = s ++ b'.readable ∧ (s.length : ℤ) = x := by
  obtain ⟨hle, hs, hb⟩ := retrieveAsString_eq_ok h
  have hpos : 0 ≤ x := by
    by_contra hneg
    have hbig := le_toSizeT_of_neg (not_le.mp hneg) (le_trans (by decide) hx.1)
    have hwrite := b.write_le_size
    have hread := b.readableBytes_le_writeIndex
    unfold maxSize at hsize
    omega
  rw [toSizeT_of_nonneg hpos hx] at hle hs hb
  refine ⟨?_, ?_⟩
  · rw [hs, (retrieve_eq_ok hb).2, List.take_append_drop]
  · rw [hs, List.length_take, length_readable, Nat.min_eq_left hle, Int.toNat_of_nonneg hpos]

end Buffer

end PbRpc
