import PbRpc.Buffer
import PbRpc.Loop

/-!
# The wire format

`TinyPBProtocol` is a message, `encode` writes messages into a buffer and
`decode` finds them again. A frame is

`PB_START · pk_len · msg_type · msg_id_len · msg_id · method_name_len ·
method_name · error_code · pb_data · check_sum · PB_END`

with every number big-endian and `pk_len` the length of the whole frame.
There is no length for `pb_data`: it is what `pk_len` leaves.

`decode` works on the vector of the buffer, with absolute indices. It scans
for a `PB_START` whose `pk_len` leads to a `PB_END`, moves the read index
there and reads the fields, comparing the position after each field with
the position of `PB_END`. A failed comparison marks the message as not
parsed and skips the field, but the positions of the later fields are still
computed from whatever the earlier ones hold.

`frame` is the format written out; `readable_encode` says that `encode`
writes it, and `received` is the message a decoded frame becomes.
-/

namespace PbRpc

open BigEndian

/-- **A message.** The length fields and `parse_success` are filled in by
`decode`. -/
structure TinyPBProtocol where
  /-- Length of the whole frame. -/
  pk_len_ : Int32 := 0
  /-- `1` for a heartbeat, `0` for a call. -/
  msg_type_ : Int8 := 0
  msg_id_len_ : Int32 := 0
  msg_id_ : Bytes := []
  method_name_len_ : Int32 := 0
  method_name_ : Bytes := []
  error_code_ : Int32 := 0
  pb_data_ : Bytes := []
  check_sum_ : Int32 := 0
  parse_success : Bool := false
deriving DecidableEq, Repr

namespace TinyPBProtocol

def PB_START : UInt8 := 0x02

def PB_END : UInt8 := 0x03

end TinyPBProtocol

open TinyPBProtocol

namespace TinyPBCoder

/-! ## Encoding -/

/-- The id `encode` makes up for a message that has none. -/
def defaultMsgId : Bytes := Bytes.ofString "123456789"

/-- The loop body of `encode`. The message is shared with the caller, who
sees the id it is given. -/
def encodeOne (pkg : TinyPBProtocol) (out_buffer : Buffer) : TinyPBProtocol × Buffer :=
  let pkg := if pkg.msg_id_.isEmpty then { pkg with msg_id_ := defaultMsgId } else pkg
  let pk_len := 3 + 4 * 5 + pkg.msg_id_.length + pkg.method_name_.length + pkg.pb_data_.length
  let b := out_buffer.writeToBuffer [PB_START]
  let b := b.appendInt32 (Int32.ofNat pk_len)
  let b := b.appendInt8 pkg.msg_type_
  let b := b.appendInt32 (Int32.ofNat pkg.msg_id_.length)
  let b := b.writeToBuffer pkg.msg_id_
  let b := b.appendInt32 (Int32.ofNat pkg.method_name_.length)
  let b := b.writeToBuffer pkg.method_name_
  let b := b.appendInt32 pkg.error_code_
  let b := b.writeToBuffer pkg.pb_data_
  let b := b.appendInt32 pkg.check_sum_
  (pkg, b.writeToBuffer [PB_END])

/-- `encode`: the messages as it leaves them, and the buffer. -/
def encode : List TinyPBProtocol → Buffer → List TinyPBProtocol × Buffer
  | [], out_buffer => ([], out_buffer)
  | pkg :: messages, out_buffer =>
    let (pkg, out_buffer) := encodeOne pkg out_buffer
    let (messages, out_buffer) := encode messages out_buffer
    (pkg :: messages, out_buffer)

/-- **The bytes `encode` writes for one message.** -/
def wire (m : TinyPBProtocol) : Bytes := (encode [m] Buffer.init).2.readable

/-! ## Decoding -/

/-- `buf[i]` for an `int` index. A negative one becomes a `size_t` past the
end of any vector. -/
def byteAt (buf : Bytes) (i : ℤ) : Except Fault UInt8 :=
  if 0 ≤ i then
    match buf[i.toNat]? with
    | some x => .ok x
    | none => .error .outOfRange
  else .error .outOfRange

/-- The 32-bit integer at an index: `memcpy` and `be32toh`. -/
def int32At (buf : Bytes) (i : ℤ) : Except Fault ℤ :=
  if 0 ≤ i ∧ i.toNat + 4 ≤ buf.length then .ok (ofIntBE ((buf.drop i.toNat).take 4))
  else .error .outOfRange

/-- What the scan does at one index. -/
inductive ScanStep where
  /-- Not the start of a frame: go on. -/
  | next
  /-- The start of a frame that is not complete yet: stop. -/
  | incomplete
  /-- The start of a frame that ends at `end_index`. -/
  | frame (end_index : ℤ)
deriving DecidableEq, Repr

/-- The body of the scan loop, at `start_index` in a buffer written up to
`n`. -/
def scanStep (ov : Overflow) (buf : Bytes) (n start_index : ℤ) : Except Fault ScanStep := do
  if (← byteAt buf start_index) = PB_START then
    -- the comparison is made in `size_t`
    if toSizeT start_index + 4 < toSizeT n then
      let pk_len ← int32At buf (start_index + 1)
      let end_index ← ov.int (start_index + pk_len)
      let end_index ← ov.int (end_index - 1)
      if end_index ≥ n then return .incomplete
      else if (← byteAt buf end_index) = PB_END then return .frame end_index
      else return .next
    else return .incomplete
  else return .next

/-- The scan loop with `k` indices left: the index it stops at, and the end
of the frame when it found one. -/
def scanLoop (ov : Overflow) (buf : Bytes) (n : ℤ) : ℕ → ℤ → Except Fault (ℤ × Option ℤ)
  | 0, start_index => .ok (start_index, none)
  | k + 1, start_index => do
    match ← scanStep ov buf n start_index with
    | .next => scanLoop ov buf n k (start_index + 1)
    | .incomplete => return (start_index, none)
    | .frame end_index => return (start_index, some end_index)

/-- Where the scan begins: the read index, as an `int`. -/
def scanFrom (b : Buffer) : ℤ := toInt b.getReadIndex

/-- Where the scan ends: the write index, as an `int`. -/
def scanTo (b : Buffer) : ℤ := toInt b.getWriteIndex

/-- The scan: `for (; start_index < n; start_index++)`. -/
def scan (ov : Overflow) (b : Buffer) : Except Fault (ℤ × Option ℤ) :=
  scanLoop ov b.getBuffer (scanTo b) (scanTo b - scanFrom b).toNat (scanFrom b)

/-- One field of a frame: when its end is past the end of the frame the
parse has failed and the field keeps its default, otherwise it is read. -/
def field {α : Type} (past : Bool) (dflt : α) (read : Buffer → Except Fault (α × Buffer))
    (parse_success : Bool) (b : Buffer) : Except Fault (α × Bool × Buffer) :=
  if past then .ok (dflt, false, b)
  else do
    let (x, b) ← read b
    return (x, parse_success, b)

/-- The fields of the frame that `scan` found between `start_index` and
`end_index`, read from a buffer whose read index is there. -/
def decodeFrame (ov : Overflow) (start_index end_index : ℤ) (b : Buffer) :
    Except Fault (TinyPBProtocol × Buffer) := do
  let (_, b) ← b.readInt8
  let (pk_len_, b) ← b.readInt32
  let msg_type_index := addSize start_index (1 + 4 + 1)
  let (msg_type_, ok, b) ← field (msg_type_index ≥ end_index) 0 Buffer.readInt8 true b
  let msg_id_len_index := addSize msg_type_index 4
  let (msg_id_len_, ok, b) ← field (msg_id_len_index ≥ end_index) 0 Buffer.readInt32 ok b
  let msg_id_index ← ov.int (msg_id_len_index + msg_id_len_.toInt)
  let (msg_id_, ok, b) ← field (msg_id_index ≥ end_index) []
    (fun b => b.retrieveAsString (toSizeT msg_id_len_.toInt)) ok b
  let method_name_len_index := addSize msg_id_index 4
  let (method_name_len_, ok, b) ←
    field (method_name_len_index ≥ end_index) 0 Buffer.readInt32 ok b
  let method_name_index ← ov.int (method_name_len_index + method_name_len_.toInt)
  let (method_name_, ok, b) ← field (method_name_index ≥ end_index) []
    (fun b => b.retrieveAsString (toSizeT method_name_len_.toInt)) ok b
  let error_code_index := addSize method_name_index 4
  let (error_code_, ok, b) ← field (error_code_index ≥ end_index) 0 Buffer.readInt32 ok b
  let rest ← ov.int (pk_len_.toInt - msg_id_len_.toInt)
  let rest ← ov.int (rest - method_name_len_.toInt)
  -- the constants are subtracted in `size_t`, and the result goes back to `int32_t`
  let pb_data_len := toInt ((toSizeT rest : ℤ) - 4 * 5 - 3)
  let pb_data_index ← ov.int (error_code_index + pb_data_len)
  let (pb_data_, ok, b) ← field (pb_data_index ≥ end_index) []
    (fun b => b.retrieveAsString (toSizeT pb_data_len)) ok b
  let check_sum_index := addSize pb_data_index 4
  let (check_sum_, ok, b) ← field (check_sum_index > end_index) 0 Buffer.readInt32 ok b
  let pkg : TinyPBProtocol :=
    { pk_len_, msg_type_, msg_id_len_, msg_id_, method_name_len_, method_name_, error_code_,
      pb_data_, check_sum_ }
  if ok then
    let (_, b) ← b.readInt8
    return ({ pkg with parse_success := true }, b)
  else
    let b ← b.retrieve (toSizeT (end_index - b.getReadIndex + 1))
    return (pkg, b)

/-- One round of the outer loop of `decode`: the message it pushes, if
any. -/
def decodeRound (ov : Overflow) (b : Buffer) :
    Except Fault (Option TinyPBProtocol × Buffer) := do
  let (start_index, found) ← scan ov b
  let b ← b.retrieve (toSizeT (start_index - b.getReadIndex))
  match found with
  | some end_index =>
    let (pkg, b) ← decodeFrame ov start_index end_index b
    return (some pkg, b)
  | none => return (none, b)

/-! ## What a round consumes

Everything `decode` does to the buffer is consuming: the readable bytes
after it are a suffix of those before. -/

/-- The steps that lead from `b` to `b'` only consumed. -/
structure Consumed (b b' : Buffer) : Prop where
  suffix : b'.readable <:+ b.readable
  buffer : b'.buffer_ = b.buffer_
  write : b'.writeIndex_ ≤ b.writeIndex_
  /-- The write index only moves when nothing is left. -/
  write_eq : b'.readable ≠ [] → b'.writeIndex_ = b.writeIndex_
  /-- When nothing is left the indices have been reset, unless nothing was
  consumed. -/
  reset : b'.readable = [] → b'.readIndex_ = 0 ∨ b' = b

namespace Consumed

variable {b b' b'' : Buffer}

theorem refl (b : Buffer) : Consumed b b :=
  ⟨List.suffix_rfl, rfl, le_rfl, fun _ => rfl, fun _ => Or.inr rfl⟩

theorem trans (h : Consumed b b') (h' : Consumed b' b'') : Consumed b b'' where
  suffix := h'.suffix.trans h.suffix
  buffer := h'.buffer.trans h.buffer
  write := le_trans h'.write h.write
  write_eq := by
    intro hne
    have hne' : b'.readable ≠ [] := by
      intro h0
      exact hne (List.suffix_nil.mp (h0 ▸ h'.suffix))
    rw [h'.write_eq hne, h.write_eq hne']
  reset := by
    intro hnil
    rcases h'.reset hnil with h0 | rfl
    · exact Or.inl h0
    · exact h.reset hnil

theorem readableBytes_le (h : Consumed b b') : b'.readableBytes ≤ b.readableBytes := by
  simpa only [Buffer.length_readable] using h.suffix.length_le

theorem of_retrieve {n : ℕ} (h : b.retrieve n = .ok b') : Consumed b b' where
  suffix := by
    rw [(Buffer.retrieve_eq_ok h).2]
    exact List.drop_suffix _ _
  buffer := by
    unfold Buffer.retrieve at h
    split at h
    · split at h <;> cases h <;> rfl
    · cases h
  write := Buffer.writeIndex_retrieve_le h
  write_eq := by
    intro hne
    obtain ⟨hle, hd⟩ := Buffer.retrieve_eq_ok h
    refine (Buffer.retrieve_indices h (lt_of_le_of_ne hle ?_)).2.2
    rintro rfl
    exact hne (by rw [hd, List.drop_of_length_le (by rw [Buffer.length_readable])])
  reset := fun hnil => Or.inl (Buffer.readIndex_of_readable_nil h hnil)

/-- The read index moves by what is consumed. -/
theorem readIndex_add (h : Consumed b b') (hne : b'.readable ≠ []) :
    b'.readIndex_ + b'.readableBytes = b.readIndex_ + b.readableBytes := by
  have hw := h.write_eq hne
  have hr := b.read_le_write
  have hr' := b'.read_le_write
  unfold Buffer.readableBytes
  omega

/-- The read index never moves further than that. -/
theorem readIndex_le (h : Consumed b b') :
    b'.readIndex_ + b'.readableBytes ≤ b.readIndex_ + b.readableBytes := by
  by_cases hnil : b'.readable = []
  · rcases h.reset hnil with h0 | rfl
    · rw [h0, Nat.zero_add]
      exact le_trans h.readableBytes_le (Nat.le_add_left _ _)
    · exact le_rfl
  · exact (h.readIndex_add hnil).le

theorem of_readInt8 {x : Int8} (h : b.readInt8 = .ok (x, b')) : Consumed b b' :=
  of_retrieve (Buffer.readInt8_eq_ok h).2

theorem of_readInt32 {x : Int32} (h : b.readInt32 = .ok (x, b')) : Consumed b b' :=
  of_retrieve (Buffer.readInt32_eq_ok h).2

theorem of_retrieveAsString {n : ℕ} {s : Bytes}
    (h : b.retrieveAsString n = .ok (s, b')) : Consumed b b' :=
  of_retrieve (Buffer.retrieveAsString_eq_ok h).2.2

end Consumed

/-- How one field of a frame went: skipped, with the parse marked as failed,
or read. -/
def FieldRun {α : Type} (past : Prop) (dflt : α) (read : Buffer → Except Fault (α × Buffer))
    (ok : Bool) (b : Buffer) (x : α) (ok' : Bool) (b' : Buffer) : Prop :=
  (past ∧ x = dflt ∧ ok' = false ∧ b' = b) ∨ (¬ past ∧ ok' = ok ∧ read b = .ok (x, b'))

theorem field_eq_ok {α : Type} {past : Prop} [Decidable past] {dflt : α}
    {read : Buffer → Except Fault (α × Buffer)} {ok : Bool} {b : Buffer}
    {r : α × Bool × Buffer} (h : field (decide past) dflt read ok b = .ok r) :
    FieldRun past dflt read ok b r.1 r.2.1 r.2.2 := by
  unfold field at h
  split at h
  case isTrue hp =>
    cases h
    exact Or.inl ⟨of_decide_eq_true hp, rfl, rfl, rfl⟩
  case isFalse hp =>
    obtain ⟨⟨x, b₁⟩, hx, h⟩ := bind_eq_ok.mp h
    cases h
    exact Or.inr ⟨fun h => hp (decide_eq_true h), rfl, hx⟩

theorem FieldRun.consumed {α : Type} {past : Prop} {dflt : α}
    {read : Buffer → Except Fault (α × Buffer)} {ok ok' : Bool} {b b' : Buffer} {x : α}
    (h : FieldRun past dflt read ok b x ok' b')
    (hread : ∀ x b', read b = .ok (x, b') → Consumed b b') : Consumed b b' := by
  rcases h with ⟨_, _, _, rfl⟩ | ⟨_, _, h⟩
  · exact Consumed.refl _
  · exact hread _ _ h

/-- A field that leaves the parse successful was read. -/
theorem FieldRun.read_of_ok {α : Type} {past : Prop} {dflt : α}
    {read : Buffer → Except Fault (α × Buffer)} {ok : Bool} {b b' : Buffer} {x : α}
    (h : FieldRun past dflt read ok b x true b') :
    ¬ past ∧ ok = true ∧ read b = .ok (x, b') := by
  rcases h with ⟨_, _, h, _⟩ | ⟨h, hok, hr⟩
  · cases h
  · exact ⟨h, hok.symm, hr⟩

/-- **A run of `decodeFrame`**: the positions it computes, the buffer before
each field and what happened at each. -/
structure FrameRun (ov : Overflow) (s e : ℤ) (b : Buffer) (pkg : TinyPBProtocol)
    (b' : Buffer) where
  start : Int8
  (b₁ b₂ b₃ b₄ b₅ b₆ b₇ b₈ b₉ b₁₀ : Buffer)
  (ok₁ ok₂ ok₃ ok₄ ok₅ ok₆ ok₇ ok₈ : Bool)
  (idIndex nameIndex rest₁ rest₂ dataIndex : ℤ)
  hstart : b.readInt8 = .ok (start, b₁)
  hpk_len : b₁.readInt32 = .ok (pkg.pk_len_, b₂)
  htype : FieldRun (addSize s (1 + 4 + 1) ≥ e) 0 Buffer.readInt8 true b₂
    pkg.msg_type_ ok₁ b₃
  hidLen : FieldRun (addSize (addSize s (1 + 4 + 1)) 4 ≥ e) 0 Buffer.readInt32 ok₁ b₃
    pkg.msg_id_len_ ok₂ b₄
  hidIndex : ov.int (addSize (addSize s (1 + 4 + 1)) 4 + pkg.msg_id_len_.toInt) = .ok idIndex
  hid : FieldRun (idIndex ≥ e) [] (fun b => b.retrieveAsString (toSizeT pkg.msg_id_len_.toInt))
    ok₂ b₄ pkg.msg_id_ ok₃ b₅
  hnameLen : FieldRun (addSize idIndex 4 ≥ e) 0 Buffer.readInt32 ok₃ b₅
    pkg.method_name_len_ ok₄ b₆
  hnameIndex : ov.int (addSize idIndex 4 + pkg.method_name_len_.toInt) = .ok nameIndex
  hname : FieldRun (nameIndex ≥ e) []
    (fun b => b.retrieveAsString (toSizeT pkg.method_name_len_.toInt))
    ok₄ b₆ pkg.method_name_ ok₅ b₇
  herror : FieldRun (addSize nameIndex 4 ≥ e) 0 Buffer.readInt32 ok₅ b₇
    pkg.error_code_ ok₆ b₈
  hrest₁ : ov.int (pkg.pk_len_.toInt - pkg.msg_id_len_.toInt) = .ok rest₁
  hrest₂ : ov.int (rest₁ - pkg.method_name_len_.toInt) = .ok rest₂
  hdataIndex : ov.int (addSize nameIndex 4 + toInt ((toSizeT rest₂ : ℤ) - 4 * 5 - 3))
    = .ok dataIndex
  hdata : FieldRun (dataIndex ≥ e) []
    (fun b => b.retrieveAsString (toSizeT (toInt ((toSizeT rest₂ : ℤ) - 4 * 5 - 3))))
    ok₆ b₈ pkg.pb_data_ ok₇ b₉
  hsum : FieldRun (addSize dataIndex 4 > e) 0 Buffer.readInt32 ok₇ b₉
    pkg.check_sum_ ok₈ b₁₀
  hend : (ok₈ = true ∧ pkg.parse_success = true ∧ ∃ x, b₁₀.readInt8 = .ok (x, b'))
    ∨ (ok₈ = false ∧ pkg.parse_success = false
      ∧ b₁₀.retrieve (toSizeT (e - b₁₀.getReadIndex + 1)) = .ok b')

/-- **Every result of `decodeFrame` has a run.** -/
theorem decodeFrame_run {ov : Overflow} {s e : ℤ} {b b' : Buffer} {pkg : TinyPBProtocol}
    (h : decodeFrame ov s e b = .ok (pkg, b')) : Nonempty (FrameRun ov s e b pkg b') := by
  unfold decodeFrame at h
  obtain ⟨⟨start, b₁⟩, hstart, h⟩ := bind_eq_ok.mp h
  obtain ⟨⟨pk_len, b₂⟩, hpk_len, h⟩ := bind_eq_ok.mp h
  obtain ⟨⟨msg_type, ok₁, b₃⟩, htype, h⟩ := bind_eq_ok.mp h
  obtain ⟨⟨msg_id_len, ok₂, b₄⟩, hidLen, h⟩ := bind_eq_ok.mp h
  obtain ⟨idIndex, hidIndex, h⟩ := bind_eq_ok.mp h
  obtain ⟨⟨msg_id, ok₃, b₅⟩, hid, h⟩ := bind_eq_ok.mp h
  obtain ⟨⟨name_len, ok₄, b₆⟩, hnameLen, h⟩ := bind_eq_ok.mp h
  obtain ⟨nameIndex, hnameIndex, h⟩ := bind_eq_ok.mp h
  obtain ⟨⟨name, ok₅, b₇⟩, hname, h⟩ := bind_eq_ok.mp h
  obtain ⟨⟨error_code, ok₆, b₈⟩, herror, h⟩ := bind_eq_ok.mp h
  obtain ⟨rest₁, hrest₁, h⟩ := bind_eq_ok.mp h
  obtain ⟨rest₂, hrest₂, h⟩ := bind_eq_ok.mp h
  obtain ⟨dataIndex, hdataIndex, h⟩ := bind_eq_ok.mp h
  obtain ⟨⟨pb_data, ok₇, b₉⟩, hdata, h⟩ := bind_eq_ok.mp h
  obtain ⟨⟨check_sum, ok₈, b₁₀⟩, hsum, h⟩ := bind_eq_ok.mp h
  have hend : pkg = ⟨pk_len, msg_type, msg_id_len, msg_id, name_len, name, error_code, pb_data,
        check_sum, ok₈⟩
      ∧ ((ok₈ = true ∧ pkg.parse_success = true ∧ ∃ x, b₁₀.readInt8 = .ok (x, b'))
        ∨ (ok₈ = false ∧ pkg.parse_success = false
          ∧ b₁₀.retrieve (toSizeT (e - b₁₀.getReadIndex + 1)) = .ok b')) := by
    dsimp only at h
    cases ok₈ with
    | true =>
      rw [if_pos rfl] at h
      obtain ⟨⟨x, b₁₁⟩, hx, h⟩ := bind_eq_ok.mp h
      cases h
      exact ⟨rfl, Or.inl ⟨rfl, rfl, x, hx⟩⟩
    | false =>
      rw [if_neg Bool.false_ne_true] at h
      obtain ⟨b₁₁, hb, h⟩ := bind_eq_ok.mp h
      cases h
      exact ⟨rfl, Or.inr ⟨rfl, rfl, hb⟩⟩
  obtain ⟨hpkg, hend⟩ := hend
  generalize hq : pkg.parse_success = q at hend
  subst hpkg
  exact ⟨{
    start, b₁, b₂, b₃, b₄, b₅, b₆, b₇, b₈, b₉, b₁₀, ok₁, ok₂, ok₃, ok₄, ok₅, ok₆, ok₇, ok₈
    idIndex, nameIndex, rest₁, rest₂, dataIndex
    hstart, hpk_len, hidIndex, hnameIndex, hrest₁, hrest₂, hdataIndex
    htype := field_eq_ok htype
    hidLen := field_eq_ok hidLen
    hid := field_eq_ok hid
    hnameLen := field_eq_ok hnameLen
    hname := field_eq_ok hname
    herror := field_eq_ok herror
    hdata := field_eq_ok hdata
    hsum := field_eq_ok hsum
    hend := by rw [hq]; exact hend }⟩

namespace FrameRun

variable {ov : Overflow} {s e : ℤ} {b b' : Buffer} {pkg : TinyPBProtocol}

/-! Between two buffers of a run there is only consuming; the lemmas below
are named by the field they cross. -/

theorem consumed_type (r : FrameRun ov s e b pkg b') : Consumed r.b₂ r.b₃ :=
  r.htype.consumed (fun _ _ => Consumed.of_readInt8)

theorem consumed_idLen (r : FrameRun ov s e b pkg b') : Consumed r.b₃ r.b₄ :=
  r.hidLen.consumed (fun _ _ => Consumed.of_readInt32)

theorem consumed_id (r : FrameRun ov s e b pkg b') : Consumed r.b₄ r.b₅ :=
  r.hid.consumed (fun _ _ => Consumed.of_retrieveAsString)

theorem consumed_nameLen (r : FrameRun ov s e b pkg b') : Consumed r.b₅ r.b₆ :=
  r.hnameLen.consumed (fun _ _ => Consumed.of_readInt32)

theorem consumed_name (r : FrameRun ov s e b pkg b') : Consumed r.b₆ r.b₇ :=
  r.hname.consumed (fun _ _ => Consumed.of_retrieveAsString)

theorem consumed_error (r : FrameRun ov s e b pkg b') : Consumed r.b₇ r.b₈ :=
  r.herror.consumed (fun _ _ => Consumed.of_readInt32)

theorem consumed_data (r : FrameRun ov s e b pkg b') : Consumed r.b₈ r.b₉ :=
  r.hdata.consumed (fun _ _ => Consumed.of_retrieveAsString)

theorem consumed_sum (r : FrameRun ov s e b pkg b') : Consumed r.b₉ r.b₁₀ :=
  r.hsum.consumed (fun _ _ => Consumed.of_readInt32)

theorem consumed_end (r : FrameRun ov s e b pkg b') : Consumed r.b₁₀ b' := by
  rcases r.hend with ⟨_, _, _, h⟩ | ⟨_, _, h⟩
  · exact Consumed.of_readInt8 h
  · exact Consumed.of_retrieve h

/-- The whole frame, from the byte after its `PB_START` on. -/
theorem consumed_rest (r : FrameRun ov s e b pkg b') : Consumed r.b₁ b' :=
  (Consumed.of_readInt32 r.hpk_len).trans <| r.consumed_type.trans <| r.consumed_idLen.trans <|
    r.consumed_id.trans <| r.consumed_nameLen.trans <| r.consumed_name.trans <|
    r.consumed_error.trans <| r.consumed_data.trans <| r.consumed_sum.trans r.consumed_end

theorem consumed (r : FrameRun ov s e b pkg b') : Consumed b b' :=
  (Consumed.of_readInt8 r.hstart).trans r.consumed_rest

/-- At least the `PB_START` is consumed. -/
theorem readableBytes_lt (r : FrameRun ov s e b pkg b') :
    b'.readableBytes < b.readableBytes := by
  have h := Buffer.retrieve_eq_ok (Buffer.readInt8_eq_ok r.hstart).2
  have hl := congrArg List.length h.2
  rw [List.length_drop, Buffer.length_readable, Buffer.length_readable] at hl
  have := r.consumed_rest.readableBytes_le
  have := h.1
  omega

end FrameRun

/-- **How a round went**: the scan, the move to where it stopped, and the
frame when there is one. -/
theorem decodeRound_eq_ok {ov : Overflow} {b b' : Buffer} {found : Option TinyPBProtocol}
    (h : decodeRound ov b = .ok (found, b')) :
    ∃ start_index last b₀, scan ov b = .ok (start_index, last)
      ∧ b.retrieve (toSizeT (start_index - b.getReadIndex)) = .ok b₀
      ∧ ((last = none ∧ found = none ∧ b' = b₀)
        ∨ ∃ e pkg, last = some e ∧ found = some pkg
          ∧ decodeFrame ov start_index e b₀ = .ok (pkg, b')) := by
  obtain ⟨⟨start_index, last⟩, hscan, h⟩ := bind_eq_ok.mp h
  obtain ⟨b₀, hb₀, h⟩ := bind_eq_ok.mp h
  refine ⟨start_index, last, b₀, hscan, hb₀, ?_⟩
  cases last with
  | none =>
    cases h
    exact Or.inl ⟨rfl, rfl, rfl⟩
  | some e =>
    obtain ⟨⟨pkg, b₁⟩, hpkg, h⟩ := bind_eq_ok.mp h
    cases h
    exact Or.inr ⟨e, pkg, rfl, rfl, hpkg⟩

theorem decodeRound_consumed {ov : Overflow} {b b' : Buffer} {found : Option TinyPBProtocol}
    (h : decodeRound ov b = .ok (found, b')) : Consumed b b' := by
  obtain ⟨_, _, b₀, _, hb₀, hr⟩ := decodeRound_eq_ok h
  refine (Consumed.of_retrieve hb₀).trans ?_
  rcases hr with ⟨_, _, rfl⟩ | ⟨e, pkg, _, _, hf⟩
  · exact Consumed.refl _
  · obtain ⟨r⟩ := decodeFrame_run hf
    exact r.consumed

/-- **A round that finds a frame makes progress.** -/
theorem decodeRound_lt {ov : Overflow} {b b' : Buffer} {pkg : TinyPBProtocol}
    (h : decodeRound ov b = .ok (some pkg, b')) : b'.readableBytes < b.readableBytes := by
  obtain ⟨_, _, b₀, _, hb₀, hr⟩ := decodeRound_eq_ok h
  rcases hr with ⟨_, h, _⟩ | ⟨e, pkg', _, _, hf⟩
  · cases h
  · obtain ⟨r⟩ := decodeFrame_run hf
    exact lt_of_lt_of_le r.readableBytes_lt (Consumed.of_retrieve hb₀).readableBytes_le

/-- **`decode`**: rounds until one finds no frame. -/
def decode (ov : Overflow) : Buffer → Except Fault (List TinyPBProtocol × Buffer) :=
  Loop.untilNone (decodeRound ov) Buffer.readableBytes (fun _ _ _ h => decodeRound_lt h)

theorem decode_consumed {ov : Overflow} {b b' : Buffer} {out : List TinyPBProtocol}
    (h : decode ov b = .ok (out, b')) : Consumed b b' :=
  Loop.untilNone_induction (P := fun b _ b' => Consumed b b')
    (fun _ _ hr => decodeRound_consumed hr)
    (fun _ _ _ _ _ hr ih => (decodeRound_consumed hr).trans ih) h

/-! ## The format written out -/

/-- The message as `encode` sends it: with an id. -/
def withId (m : TinyPBProtocol) : TinyPBProtocol :=
  if m.msg_id_.isEmpty then { m with msg_id_ := defaultMsgId } else m

theorem withId_of_ne_nil {m : TinyPBProtocol} (h : m.msg_id_ ≠ []) : withId m = m :=
  if_neg (by simpa using h)

/-- The length of a frame. -/
def frameLength (m : TinyPBProtocol) : ℕ :=
  3 + 4 * 5 + m.msg_id_.length + m.method_name_.length + m.pb_data_.length

/-- **The frame of a message that has an id.** -/
def frame (m : TinyPBProtocol) : Bytes :=
  [PB_START] ++ (intBE 4 (Int32.ofNat (frameLength m)).toInt ++ (intBE 1 m.msg_type_.toInt
    ++ (intBE 4 (Int32.ofNat m.msg_id_.length).toInt ++ (m.msg_id_
    ++ (intBE 4 (Int32.ofNat m.method_name_.length).toInt ++ (m.method_name_
    ++ (intBE 4 m.error_code_.toInt ++ (m.pb_data_ ++ (intBE 4 m.check_sum_.toInt
    ++ [PB_END])))))))))

/-- **The message a frame becomes when it is decoded.** -/
def received (m : TinyPBProtocol) : TinyPBProtocol :=
  { m with
    pk_len_ := Int32.ofNat (frameLength m)
    msg_id_len_ := Int32.ofNat m.msg_id_.length
    method_name_len_ := Int32.ofNat m.method_name_.length
    parse_success := true }

@[simp] theorem length_frame (m : TinyPBProtocol) : (frame m).length = frameLength m := by
  simp only [frame, frameLength, List.length_append, List.length_singleton, length_intBE]
  omega

theorem frame_ne_nil (m : TinyPBProtocol) : frame m ≠ [] := List.cons_ne_nil _ _

theorem readable_encodeOne (m : TinyPBProtocol) (b : Buffer) :
    (encodeOne m b).2.readable = b.readable ++ frame (withId m) := by
  unfold encodeOne frame frameLength withId
  simp only [Buffer.readable_writeToBuffer, Buffer.readable_appendInt32,
    Buffer.readable_appendInt8, List.append_assoc]

/-- The bytes `encode` writes for one message are its frame. -/
theorem wire_eq (m : TinyPBProtocol) : wire m = frame (withId m) := by
  show (encodeOne m Buffer.init).2.readable = _
  rw [readable_encodeOne, Buffer.readable_init, List.nil_append]

theorem wire_of_ne_nil {m : TinyPBProtocol} (h : m.msg_id_ ≠ []) : wire m = frame m := by
  rw [wire_eq, withId_of_ne_nil h]

/-- **`encode` appends the frames**, one after another. -/
theorem readable_encode (ms : List TinyPBProtocol) (b : Buffer) :
    (encode ms b).2.readable = b.readable ++ ms.flatMap wire := by
  induction ms generalizing b with
  | nil => exact (List.append_nil _).symm
  | cons m ms ih =>
    show (encode ms (encodeOne m b).2).2.readable = _
    rw [ih, readable_encodeOne, List.flatMap_cons, wire_eq, List.append_assoc]

end TinyPBCoder
end PbRpc
