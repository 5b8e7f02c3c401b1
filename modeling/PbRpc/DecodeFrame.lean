import PbRpc.DecodeScan

/-!
# The fields of a frame

`decodeFrame` reads the fields of the bytes the scan settled on. On the
bytes of an encoder it gives the message back (`decodeFrame_frame`).

On other bytes two questions arise. One is what an accepted message can
have been read from: every check was passed, so each length is the length
of the field that was read, and the bytes are the frame of the message and
no others (`FrameRun.canonical`). The other is what becomes of a frame
whose inner lengths do not fit it. The recovery at the end of `decodeFrame`
is written for it and is never reached: the position after `pb_data` is the
same whatever the lengths are, so that check always passes, and the length
of `pb_data`, which is what the other lengths leave, is negative by then
(`not_recovers`).
-/

namespace PbRpc
namespace TinyPBCoder

open BigEndian TinyPBProtocol

variable {ov : Overflow}

/-! ## Frames of an encoder -/

theorem toInt_int32_ofNat {n : ℕ} (h : n ≤ 2147483647) : (Int32.ofNat n).toInt = n :=
  Int32.toInt_ofNat_of_lt (by omega)

/-- A field whose end is within the frame is read. -/
theorem field_of_not_past {α : Type} {past : Prop} [Decidable past] {dflt x : α}
    {read : Buffer → Except Fault (α × Buffer)} {ok : Bool} {b b' : Buffer} (hp : ¬ past)
    (h : read b = .ok (x, b')) : field (decide past) dflt read ok b = .ok (x, ok, b') := by
  rw [field, if_neg (by simpa using hp), h, ok_bind]
  rfl

/-- **A frame looks like one from outside.** -/
theorem delimited_frame {m : TinyPBProtocol} (hm : frameLength m ≤ 2147483647) :
    Delimited (frame m) := by
  have hge : 23 ≤ frameLength m := by unfold frameLength; omega
  refine ⟨by rw [length_frame]; omega, rfl, ?_, ?_⟩
  · have hlen : (intBE 4 (Int32.ofNat (frameLength m)).toInt).length = 4 := length_intBE 4 _
    rw [length_frame, frame, List.singleton_append, List.drop_succ_cons, List.drop_zero,
      List.take_left' hlen, toInt_int32_ofNat hm, ofIntBE_intBE 4 _ (by omega) (by omega)]
  · have hlast : (frame m).getLast? = some PB_END := by
      unfold frame
      simp only [← List.append_assoc]
      exact List.getLast?_concat ..
    rw [← hlast, List.getLast?_eq_getElem?]

/-- In range, the addition of a size is exact. -/
theorem addSize_exact {x y : ℤ} {k : ℕ} (h : x + k = y) (hy : InInt y) : addSize x k = y := by
  rw [addSize_of_inInt (by rwa [h]), h]

/-- **The positions in a frame.** With `i`, `n` and `d` the lengths of its
three strings, none of the computations of `decodeFrame` overflows when the
end of the frame is an `int`. -/
structure Positions (ov : Overflow) (s i n d : ℤ) : Prop where
  type : addSize s (1 + 4 + 1) = s + 6
  idLen : addSize (s + 6) 4 = s + 10
  id : ov.int (s + 10 + i) = .ok (s + 10 + i)
  nameLen : addSize (s + 10 + i) 4 = s + 14 + i
  name : ov.int (s + 14 + i + n) = .ok (s + 14 + i + n)
  error : addSize (s + 14 + i + n) 4 = s + 18 + i + n
  rest₁ : ov.int (23 + i + n + d - i) = .ok (23 + n + d)
  rest₂ : ov.int (23 + n + d - n) = .ok (23 + d)
  dataLen : toInt ((toSizeT (23 + d) : ℤ) - 4 * 5 - 3) = d
  data : ov.int (s + 18 + i + n + d) = .ok (s + 18 + i + n + d)
  sum : addSize (s + 18 + i + n + d) 4 = s + 22 + i + n + d

theorem positions (ov : Overflow) {s i n d : ℤ} (hs : 0 ≤ s) (hi : 0 ≤ i) (hn : 0 ≤ n)
    (hd : 0 ≤ d) (hmax : s + 23 + i + n + d ≤ 2147483647) : Positions ov s i n d where
  type := addSize_exact (by push_cast; omega) ⟨by omega, by omega⟩
  idLen := addSize_exact (by push_cast; omega) ⟨by omega, by omega⟩
  id := ov.int_of_inInt ⟨by omega, by omega⟩
  nameLen := addSize_exact (by push_cast; omega) ⟨by omega, by omega⟩
  name := ov.int_of_inInt ⟨by omega, by omega⟩
  error := addSize_exact (by push_cast; omega) ⟨by omega, by omega⟩
  rest₁ := by
    rw [show 23 + i + n + d - i = 23 + n + d from by omega]
    exact ov.int_of_inInt ⟨by omega, by omega⟩
  rest₂ := by
    rw [show 23 + n + d - n = 23 + d from by omega]
    exact ov.int_of_inInt ⟨by omega, by omega⟩
  dataLen := by
    have hsz : (toSizeT (23 + d) : ℤ) = 23 + d := by
      rw [toSizeT_of_nonneg (by omega) ⟨by omega, by omega⟩, Int.toNat_of_nonneg (by omega)]
    rw [hsz, show 23 + d - 4 * 5 - 3 = d from by omega]
    exact toInt_of_inInt ⟨by omega, by omega⟩
  data := ov.int_of_inInt ⟨by omega, by omega⟩
  sum := addSize_exact (by push_cast; omega) ⟨by omega, by omega⟩

theorem toSizeT_natCast {n : ℕ} (h : n ≤ 2147483647) : toSizeT (n : ℤ) = n := by
  rw [toSizeT_of_nonneg (Int.natCast_nonneg n) ⟨by omega, by omega⟩, Int.toNat_natCast]

/-- **A frame decodes to its message**, at any position that leaves its end
an `int`. -/
theorem decodeFrame_frame (ov : Overflow) {m : TinyPBProtocol} {b : Buffer} {rest : Bytes} {s : ℕ}
    (hs : s + frameLength m ≤ 2147483647) (h : b.readable = frame m ++ rest) :
    ∃ b', decodeFrame ov s (s + frameLength m - 1) b = .ok (received m, b')
      ∧ b'.readable = rest := by
  have hlen : frameLength m
      = 23 + m.msg_id_.length + m.method_name_.length + m.pb_data_.length := rfl
  have hpk : (Int32.ofNat (frameLength m)).toInt
      = 23 + m.msg_id_.length + m.method_name_.length + m.pb_data_.length := by
    rw [toInt_int32_ofNat (by omega), hlen]
    push_cast
    rfl
  have hid : (Int32.ofNat m.msg_id_.length).toInt = m.msg_id_.length :=
    toInt_int32_ofNat (by omega)
  have hname : (Int32.ofNat m.method_name_.length).toInt = m.method_name_.length :=
    toInt_int32_ofNat (by omega)
  have hidSize := toSizeT_natCast (n := m.msg_id_.length) (by omega)
  have hnameSize := toSizeT_natCast (n := m.method_name_.length) (by omega)
  have hdataSize := toSizeT_natCast (n := m.pb_data_.length) (by omega)
  have pos := positions ov (s := s) (i := m.msg_id_.length) (n := m.method_name_.length)
    (d := m.pb_data_.length) (by omega) (by omega) (by omega) (by omega) (by omega)
  have he : (s + frameLength m - 1 : ℤ)
      = s + 22 + m.msg_id_.length + m.method_name_.length + m.pb_data_.length := by omega
  rw [he]
  -- the fields, one after another
  unfold frame at h
  simp only [List.append_assoc, List.cons_append] at h
  obtain ⟨x, b₁, h₁, r₁⟩ := Buffer.readInt8_cons h
  obtain ⟨b₂, h₂, r₂⟩ := Buffer.readInt32_append r₁
  obtain ⟨b₃, h₃, r₃⟩ := Buffer.readInt8_append r₂
  obtain ⟨b₄, h₄, r₄⟩ := Buffer.readInt32_append r₃
  obtain ⟨b₅, h₅, r₅⟩ := Buffer.retrieveAsString_append r₄
  obtain ⟨b₆, h₆, r₆⟩ := Buffer.readInt32_append r₅
  obtain ⟨b₇, h₇, r₇⟩ := Buffer.retrieveAsString_append r₆
  obtain ⟨b₈, h₈, r₈⟩ := Buffer.readInt32_append r₇
  obtain ⟨b₉, h₉, r₉⟩ := Buffer.retrieveAsString_append r₈
  obtain ⟨b₁₀, h₁₀, r₁₀⟩ := Buffer.readInt32_append r₉
  obtain ⟨y, b₁₁, h₁₁, r₁₁⟩ := Buffer.readInt8_cons r₁₀
  rw [← hidSize] at h₅
  rw [← hnameSize] at h₇
  rw [← hdataSize] at h₉
  -- every check is passed
  refine ⟨b₁₁, ?_, r₁₁⟩
  rw [decodeFrame, h₁, ok_bind]
  dsimp only
  rw [h₂, ok_bind]
  dsimp only
  rw [pos.type, field_of_not_past (by omega) h₃, ok_bind]
  dsimp only
  rw [pos.idLen, field_of_not_past (by omega) h₄, ok_bind]
  dsimp only
  rw [hid, pos.id, ok_bind, field_of_not_past (by omega) h₅, ok_bind]
  dsimp only
  rw [pos.nameLen, field_of_not_past (by omega) h₆, ok_bind]
  dsimp only
  rw [hname, pos.name, ok_bind, field_of_not_past (by omega) h₇, ok_bind]
  dsimp only
  rw [pos.error, field_of_not_past (by omega) h₈, ok_bind, hpk, pos.rest₁, ok_bind, pos.rest₂,
    ok_bind]
  dsimp only
  rw [pos.dataLen, pos.data, ok_bind, field_of_not_past (by omega) h₉, ok_bind]
  dsimp only
  rw [pos.sum, field_of_not_past (by omega) h₁₀, ok_bind]
  dsimp only
  rw [if_pos rfl, h₁₁, ok_bind]
  rfl

/-! ## What the positions are congruent to

No position is exact on bytes that nobody checked. Modulo `2 ^ 32` each is
what it would be without overflow, however the build treats overflow. -/

namespace FrameRun

variable {s e : ℤ} {b b' : Buffer} {pkg : TinyPBProtocol}

/-- The length the code computes for `pb_data`. -/
def dataLen (r : FrameRun ov s e b pkg b') : ℤ := toInt ((toSizeT r.rest₂ : ℤ) - 4 * 5 - 3)

theorem inInt_dataLen (r : FrameRun ov s e b pkg b') : InInt r.dataLen := inInt_toInt _

theorem idIndex_congr (r : FrameRun ov s e b pkg b') :
    ∃ q : ℤ, r.idIndex = s + 10 + pkg.msg_id_len_.toInt + 4294967296 * q := by
  obtain ⟨q₁, h₁⟩ := toInt_congr (s + (1 + 4 + 1 : ℕ))
  obtain ⟨q₂, h₂⟩ := toInt_congr (addSize s (1 + 4 + 1) + (4 : ℕ))
  obtain ⟨q₃, h₃⟩ := toInt_congr (addSize (addSize s (1 + 4 + 1)) 4 + pkg.msg_id_len_.toInt)
  rw [← Overflow.int_eq_toInt r.hidIndex] at h₃
  rw [← addSize_eq] at h₁ h₂
  exact ⟨q₁ + q₂ + q₃, by push_cast at *; linarith⟩

theorem nameIndex_congr (r : FrameRun ov s e b pkg b') :
    ∃ q : ℤ, r.nameIndex = r.idIndex + 4 + pkg.method_name_len_.toInt + 4294967296 * q := by
  obtain ⟨q₁, h₁⟩ := toInt_congr (r.idIndex + (4 : ℕ))
  obtain ⟨q₂, h₂⟩ := toInt_congr (addSize r.idIndex 4 + pkg.method_name_len_.toInt)
  rw [← Overflow.int_eq_toInt r.hnameIndex] at h₂
  rw [← addSize_eq] at h₁
  exact ⟨q₁ + q₂, by push_cast at *; linarith⟩

theorem dataLen_congr (r : FrameRun ov s e b pkg b') :
    ∃ q : ℤ, r.dataLen = pkg.pk_len_.toInt - pkg.msg_id_len_.toInt
      - pkg.method_name_len_.toInt - 23 + 4294967296 * q := by
  obtain ⟨q₁, h₁⟩ := toInt_congr (pkg.pk_len_.toInt - pkg.msg_id_len_.toInt)
  obtain ⟨q₂, h₂⟩ := toInt_congr (r.rest₁ - pkg.method_name_len_.toInt)
  obtain ⟨q₃, h₃⟩ := toSizeT_congr r.rest₂
  obtain ⟨q₄, h₄⟩ := toInt_congr ((toSizeT r.rest₂ : ℤ) - 4 * 5 - 3)
  rw [← Overflow.int_eq_toInt r.hrest₁] at h₁
  rw [← Overflow.int_eq_toInt r.hrest₂] at h₂
  exact ⟨q₁ + q₂ + q₃ + q₄, by unfold dataLen; linarith⟩

theorem dataIndex_congr (r : FrameRun ov s e b pkg b') :
    ∃ q : ℤ, r.dataIndex = r.nameIndex + 4 + r.dataLen + 4294967296 * q := by
  obtain ⟨q₁, h₁⟩ := toInt_congr (r.nameIndex + (4 : ℕ))
  obtain ⟨q₂, h₂⟩ := toInt_congr (addSize r.nameIndex 4 + r.dataLen)
  rw [← addSize_eq] at h₁
  have h := Overflow.int_eq_toInt r.hdataIndex
  change r.dataIndex = toInt (addSize r.nameIndex 4 + r.dataLen) at h
  rw [← h] at h₂
  exact ⟨q₁ + q₂, by push_cast at *; linarith⟩

/-- **The check on `pb_data` never fails.** Whatever the inner lengths are,
they cancel in the position after `pb_data`. -/
theorem dataIndex_eq (r : FrameRun ov s e b pkg b') (he : e = s + pkg.pk_len_.toInt - 1)
    (hs : 0 ≤ s) (hlen : 6 ≤ pkg.pk_len_.toInt) (hmax : s + pkg.pk_len_.toInt ≤ 2147483647) :
    r.dataIndex = e - 4 := by
  obtain ⟨q₁, h₁⟩ := r.idIndex_congr
  obtain ⟨q₂, h₂⟩ := r.nameIndex_congr
  obtain ⟨q₃, h₃⟩ := r.dataLen_congr
  obtain ⟨q₄, h₄⟩ := r.dataIndex_congr
  have hin : InInt r.dataIndex := Overflow.inInt_of_int r.hdataIndex
  unfold InInt at hin
  omega

end FrameRun

/-! ## Rounds that find a frame -/

/-- **Where a round found its frame**: behind `q` readable bytes, which it
dropped. A read index beyond the range of `int` is no obstacle to the scan,
but the distance to what it finds is not a length that can be consumed. -/
theorem decodeRound_found {b b' : Buffer} {pkg : TinyPBProtocol}
    (hsize : b.buffer_.length ≤ Buffer.maxSize)
    (h : decodeRound ov b = .ok (some pkg, b')) :
    ∃ (q : ℕ) (e : ℤ) (b₀ : Buffer), q < b.readableBytes
      ∧ ((b.readIndex_ + q : ℕ) : ℤ) < scanTo b
      ∧ scan ov b = .ok ((b.readIndex_ + q : ℕ), some e) ∧ b.retrieve q = .ok b₀
      ∧ decodeFrame ov (b.readIndex_ + q : ℕ) e b₀ = .ok (pkg, b') := by
  obtain ⟨s, last, b₀, hscan, hb₀, hr⟩ := decodeRound_eq_ok h
  rcases hr with ⟨_, hnone, _⟩ | ⟨e, pkg', rfl, hsome, hframe⟩
  · cases hnone
  cases hsome
  obtain ⟨_, hsTo, hstep⟩ := scan_eq_frame hscan
  have hs0 := byteAt_nonneg (scanStep_eq_frame hstep).1
  have hread := b.read_le_write
  have hwrite := b.write_le_size
  have hTo := scanTo_le b
  have hTo' := scanTo_lt b
  have hrB : b.readableBytes = b.writeIndex_ - b.readIndex_ := rfl
  unfold Buffer.getReadIndex at hb₀
  unfold Buffer.maxSize at hsize
  have hge : (b.readIndex_ : ℤ) ≤ s := by
    by_contra hneg
    have hbig := le_toSizeT_of_neg (x := s - b.readIndex_) (by omega) (by omega)
    have hle := (Buffer.retrieve_eq_ok hb₀).1
    omega
  obtain ⟨q, rfl⟩ : ∃ q : ℕ, s = (b.readIndex_ + q : ℕ) := ⟨(s - b.readIndex_).toNat, by omega⟩
  have hq : toSizeT (((b.readIndex_ + q : ℕ) : ℤ) - b.readIndex_) = q := by
    have hdiff : ((b.readIndex_ + q : ℕ) : ℤ) - b.readIndex_ = q := by push_cast; ring
    rw [hdiff]
    exact toSizeT_natCast (by omega)
  rw [hq] at hb₀
  exact ⟨q, e, b₀, by omega, hsTo, hscan, hb₀, hframe⟩

/-! ## Accepted frames -/

/-- An integer that was read at an offset of a frame is the one there. -/
theorem ofIntBE_at {F R pre rest : Bytes} {x : Int32} {k : ℕ}
    (h : F ++ R = pre ++ (intBE 4 x.toInt ++ rest)) (hk : pre.length = k)
    (hlen : k + 4 ≤ F.length) : ofIntBE ((F.drop k).take 4) = x.toInt := by
  have hx := inInt_int32 x
  unfold InInt at hx
  have htake : ((F ++ R).drop k).take 4 = intBE 4 x.toInt := by
    rw [h, List.drop_left' hk, List.take_left' (length_intBE 4 _)]
  rw [List.drop_append_of_le_length (by omega),
    List.take_append_of_le_length (by rw [List.length_drop]; omega)] at htake
  rw [htake, ofIntBE_intBE 4 _ (by omega) (by omega)]

/-- The byte of a one-byte field, when it is known. -/
theorem intBE_one_eq {bs rest pre : Bytes} {x : ℤ} {c : UInt8}
    (h : bs = pre ++ (intBE 1 x ++ rest)) (hc : bs[pre.length]? = some c) :
    intBE 1 x = [c] := by
  obtain ⟨y, hy⟩ := List.length_eq_one_iff.mp (length_intBE 1 x)
  rw [h, List.getElem?_append_right le_rfl, Nat.sub_self, hy] at hc
  rw [hy, ← Option.some.inj hc]

/-- What is between the two markers of a frame whose length fields are those
of the message. -/
def fieldBytes (m : TinyPBProtocol) : Bytes :=
  intBE 4 m.pk_len_.toInt ++ (intBE 1 m.msg_type_.toInt ++ (intBE 4 m.msg_id_len_.toInt
    ++ (m.msg_id_ ++ (intBE 4 m.method_name_len_.toInt ++ (m.method_name_
    ++ (intBE 4 m.error_code_.toInt ++ (m.pb_data_ ++ intBE 4 m.check_sum_.toInt)))))))

theorem length_fieldBytes (m : TinyPBProtocol) :
    (fieldBytes m).length
      = 21 + m.msg_id_.length + m.method_name_.length + m.pb_data_.length := by
  simp only [fieldBytes, List.length_append, length_intBE]
  omega

theorem int32_eq_ofNat {x : Int32} {n : ℕ} (h : x.toInt = n) : x = Int32.ofNat n := by
  rw [← Int32.ofInt_toInt x, h, Int32.ofInt_eq_ofNat]

/-- **A message whose length fields are the lengths** has its frame. -/
theorem frame_eq_fieldBytes {m : TinyPBProtocol} (hpk : m.pk_len_.toInt = frameLength m)
    (hid : m.msg_id_len_.toInt = m.msg_id_.length)
    (hname : m.method_name_len_.toInt = m.method_name_.length) :
    frame m = [PB_START] ++ (fieldBytes m ++ [PB_END]) := by
  rw [frame, fieldBytes, ← int32_eq_ofNat hpk, ← int32_eq_ofNat hid, ← int32_eq_ofNat hname]
  simp only [List.append_assoc]

namespace FrameRun

variable {s e : ℤ} {b b' : Buffer} {pkg : TinyPBProtocol}

/-- **Every field of an accepted message was read**, and the bytes are the
fields, one after another. -/
theorem fields (r : FrameRun ov s e b pkg b') (hp : pkg.parse_success = true)
    (hsize : b.buffer_.length ≤ Buffer.maxSize) :
    addSize s (1 + 4 + 1) < e
      ∧ (∃ x : Int8, b.readable
          = intBE 1 r.start.toInt ++ (fieldBytes pkg ++ (intBE 1 x.toInt ++ b'.readable)))
      ∧ (pkg.msg_id_.length : ℤ) = pkg.msg_id_len_.toInt
      ∧ (pkg.method_name_.length : ℤ) = pkg.method_name_len_.toInt
      ∧ (pkg.pb_data_.length : ℤ) = r.dataLen := by
  obtain ⟨hok₈, x, hx⟩ : r.ok₈ = true ∧ ∃ x, r.b₁₀.readInt8 = .ok (x, b') := by
    rcases r.hend with ⟨h, _, hx⟩ | ⟨_, h, _⟩
    · exact ⟨h, hx⟩
    · rw [hp] at h
      cases h
  obtain ⟨_, hok₇, hsum⟩ := (hok₈ ▸ r.hsum).read_of_ok
  obtain ⟨_, hok₆, hdata⟩ := (hok₇ ▸ r.hdata).read_of_ok
  obtain ⟨_, hok₅, herror⟩ := (hok₆ ▸ r.herror).read_of_ok
  obtain ⟨_, hok₄, hname⟩ := (hok₅ ▸ r.hname).read_of_ok
  obtain ⟨_, hok₃, hnameLen⟩ := (hok₄ ▸ r.hnameLen).read_of_ok
  obtain ⟨_, hok₂, hid⟩ := (hok₃ ▸ r.hid).read_of_ok
  obtain ⟨_, hok₁, hidLen⟩ := (hok₂ ▸ r.hidLen).read_of_ok
  obtain ⟨htypeIn, _, htype⟩ := (hok₁ ▸ r.htype).read_of_ok
  -- the vector is the same all along
  have c₄ := ((Consumed.of_readInt8 r.hstart).trans (Consumed.of_readInt32 r.hpk_len)).trans
    (r.consumed_type.trans r.consumed_idLen)
  have c₆ := c₄.trans (r.consumed_id.trans r.consumed_nameLen)
  have c₈ := c₆.trans (r.consumed_name.trans r.consumed_error)
  obtain ⟨e₄, hidLength⟩ := Buffer.retrieveAsString_split (inInt_int32 pkg.msg_id_len_)
    (by rw [c₄.buffer]; exact hsize) hid
  obtain ⟨e₆, hnameLength⟩ := Buffer.retrieveAsString_split
    (inInt_int32 pkg.method_name_len_) (by rw [c₆.buffer]; exact hsize) hname
  obtain ⟨e₈, hdataLength⟩ := Buffer.retrieveAsString_split r.inInt_dataLen
    (by rw [c₈.buffer]; exact hsize) hdata
  refine ⟨not_le.mp htypeIn, ⟨x, ?_⟩, hidLength, hnameLength, hdataLength⟩
  rw [Buffer.readInt8_split r.hstart, Buffer.readInt32_split r.hpk_len,
    Buffer.readInt8_split htype, Buffer.readInt32_split hidLen, e₄,
    Buffer.readInt32_split hnameLen, e₆, Buffer.readInt32_split herror, e₈,
    Buffer.readInt32_split hsum, Buffer.readInt8_split hx]
  simp only [fieldBytes, List.append_assoc]

/-- **An accepted frame is the frame of its message**, when the scan saw its
two markers and the whole buffer is within the range of `int`. -/
theorem canonical (r : FrameRun ov s e b pkg b') (hp : pkg.parse_success = true)
    (hs : s = b.readIndex_) (hW : b.writeIndex_ ≤ 2147483647)
    (hsize : b.buffer_.length ≤ Buffer.maxSize) (he : e = s + pkg.pk_len_.toInt - 1)
    (hstart : byteAt b.getBuffer s = .ok PB_START) (hend : byteAt b.getBuffer e = .ok PB_END) :
    b.readable = frame pkg ++ b'.readable ∧ pkg.pk_len_.toInt = frameLength pkg
      ∧ pkg.msg_id_len_.toInt = pkg.msg_id_.length
      ∧ pkg.method_name_len_.toInt = pkg.method_name_.length := by
  obtain ⟨htype, ⟨x, hread⟩, hid, hname, hdata⟩ := r.fields hp hsize
  have hfl : frameLength pkg
      = 23 + pkg.msg_id_.length + pkg.method_name_.length + pkg.pb_data_.length := rfl
  have hbytes : frameLength pkg ≤ b.readableBytes := by
    rw [← Buffer.length_readable, hread, hfl]
    simp only [List.length_append, length_intBE, length_fieldBytes]
    omega
  have hfit : b.readIndex_ + frameLength pkg ≤ b.writeIndex_ := by
    have hrw := b.read_le_write
    unfold Buffer.readableBytes at hbytes
    omega
  -- nothing overflowed, so the length on the wire is the length
  have hpk : pkg.pk_len_.toInt = frameLength pkg := by
    obtain ⟨q, hq⟩ := r.dataLen_congr
    have hin := inInt_int32 pkg.pk_len_
    unfold InInt at hin
    rw [addSize_of_inInt ⟨by omega, by push_cast; omega⟩] at htype
    push_cast at htype
    omega
  refine ⟨?_, hpk, hid.symm, hname.symm⟩
  have hstartByte : intBE 1 r.start.toInt = [PB_START] := by
    rw [← List.nil_append (intBE 1 r.start.toInt ++ _)] at hread
    refine intBE_one_eq hread (readable_of_byteAt (by rw [List.length_nil]; omega) ?_)
    rw [List.length_nil, Nat.add_zero, ← hs]
    exact hstart
  have hendByte : intBE 1 x.toInt = [PB_END] := by
    rw [← List.append_assoc] at hread
    refine intBE_one_eq hread ?_
    have hpos : (intBE 1 r.start.toInt ++ fieldBytes pkg).length = frameLength pkg - 1 := by
      rw [List.length_append, length_intBE, length_fieldBytes, hfl]
      omega
    rw [hpos]
    refine readable_of_byteAt (by omega) ?_
    have hcast : ((b.readIndex_ + (frameLength pkg - 1) : ℕ) : ℤ) = e := by omega
    rw [hcast]
    exact hend
  rw [hread, frame_eq_fieldBytes hpk hid.symm hname.symm, hstartByte, hendByte]
  simp only [List.append_assoc]

end FrameRun

end TinyPBCoder
end PbRpc
