import PbRpc.DecodeFrame

/-!
# Frames whose inner lengths do not fit

A frame can be well delimited and still hold lengths for its strings that
do not fit in it. `decodeFrame` is written with such frames in mind: each
position is compared with the end of the frame, a failed comparison is
logged and marks the message, and at the end what is left of the frame is
skipped. `Recovers` is what a reader expects of this.

It never happens (`not_recovers`). A failed comparison does not stop the
parse, and the length of `pb_data` is still computed from the lengths that
did not fit. The inner lengths cancel in the position after `pb_data`, so
the comparison there always succeeds (`FrameRun.dataIndex_eq`) and
`retrieveAsString` is called; and by then its argument is negative, so that
its assertion fails. The proof is read the other way round: a run that does
end in the recovery has consumed no more than the frame, and from that each
comparison before is seen to have succeeded, one after another, until all
the lengths fit.
-/

namespace PbRpc
namespace TinyPBCoder

open BigEndian TinyPBProtocol

variable {ov : Overflow} {s e : ℤ} {b b' : Buffer} {pkg : TinyPBProtocol} {L : ℕ}

/-! ## Runs that end in the recovery -/

/-- **A run on a frame of length `L` that ends in the recovery.** The last
two fields record what the recovery says about the fields before it:
`pb_data` was read, so its length is not negative, and no more than the
frame was consumed. -/
structure Recovery (r : FrameRun ov s e b pkg b') (L : ℕ) : Prop where
  six_le : 6 ≤ L
  pk_len : pkg.pk_len_.toInt = L
  start_nonneg : 0 ≤ s
  end_eq : e = s + L - 1
  end_le : s + L ≤ 2147483647
  size : b.buffer_.length ≤ Buffer.maxSize
  data_nonneg : 0 ≤ r.dataLen
  spent : b.readableBytes + r.dataLen + 4 ≤ r.b₈.readableBytes + L

theorem readableBytes_of_append {bs : Bytes} (h : b.readable = bs ++ b'.readable) :
    b.readableBytes = bs.length + b'.readableBytes := by
  rw [← Buffer.length_readable, h, List.length_append, Buffer.length_readable]

/-- **The recovery skips what is left of the frame**, so what was consumed
before is no more than the frame. -/
theorem FrameRun.spent_le (r : FrameRun ov s e b pkg b') (hs : s = b.readIndex_)
    (he : e = s + L - 1) (hL : 6 ≤ L) (hsize : b.buffer_.length ≤ Buffer.maxSize)
    (hmax : s + L ≤ 2147483647) {x : Int32} (hsum : r.b₉.readInt32 = .ok (x, r.b₁₀))
    (hend : r.b₁₀.retrieve (toSizeT (e - r.b₁₀.getReadIndex + 1)) = .ok b') :
    b.readableBytes ≤ r.b₁₀.readableBytes + L := by
  have c : Consumed b r.b₁₀ := (Consumed.of_readInt8 r.hstart).trans <|
    (Consumed.of_readInt32 r.hpk_len).trans <| r.consumed_type.trans <|
    r.consumed_idLen.trans <| r.consumed_id.trans <| r.consumed_nameLen.trans <|
    r.consumed_name.trans <| r.consumed_error.trans <| r.consumed_data.trans r.consumed_sum
  obtain ⟨hle, -⟩ := Buffer.retrieve_eq_ok hend
  unfold Buffer.getReadIndex at hle
  by_cases hnil : r.b₁₀.readable = []
  · -- the read index is `0`, and the recovery asks for more than nothing
    have hzero := Buffer.readIndex_of_readable_nil (Buffer.readInt32_eq_ok hsum).2 hnil
    have hempty : r.b₁₀.readableBytes = 0 := by
      rw [← Buffer.length_readable, hnil, List.length_nil]
    rw [hzero, hempty, toSizeT_of_nonneg (by push_cast; omega)
      ⟨by push_cast; omega, by push_cast; omega⟩] at hle
    push_cast at hle
    omega
  · have hadd := c.readIndex_add hnil
    have hread := r.b₁₀.read_le_write
    have hwrite := r.b₁₀.write_le_size
    rw [c.buffer] at hwrite
    unfold Buffer.maxSize at hsize
    by_contra hmore
    have hbig := le_toSizeT_of_neg (x := e - r.b₁₀.readIndex_ + 1) (by omega) (by omega)
    have hsmall := r.b₁₀.readableBytes_le_writeIndex
    omega

/-- **A run that ends in the recovery is one.** -/
theorem FrameRun.recovery (r : FrameRun ov s e b pkg b') (hp : pkg.parse_success = false)
    (hpk : pkg.pk_len_.toInt = L) (hL : 6 ≤ L) (hs : s = b.readIndex_) (he : e = s + L - 1)
    (hmax : s + L ≤ 2147483647) (hsize : b.buffer_.length ≤ Buffer.maxSize) :
    Recovery r L := by
  have hs0 : 0 ≤ s := hs ▸ Int.natCast_nonneg _
  have hdataIndex := r.dataIndex_eq (by rw [hpk]; exact he) hs0 (by omega) (by omega)
  have c₈ : Consumed b r.b₈ := (Consumed.of_readInt8 r.hstart).trans <|
    (Consumed.of_readInt32 r.hpk_len).trans <| r.consumed_type.trans <|
    r.consumed_idLen.trans <| r.consumed_id.trans <| r.consumed_nameLen.trans <|
    r.consumed_name.trans r.consumed_error
  -- neither of the last two comparisons fails
  obtain ⟨hdata, hdataLength⟩ : r.b₈.readable = pkg.pb_data_ ++ r.b₉.readable
      ∧ (pkg.pb_data_.length : ℤ) = r.dataLen := by
    rcases r.hdata with ⟨hpast, _⟩ | ⟨_, _, hread⟩
    · exact absurd hpast (by omega)
    · exact Buffer.retrieveAsString_split r.inInt_dataLen (by rw [c₈.buffer]; exact hsize)
        hread
  have hsum : r.b₉.readInt32 = .ok (pkg.check_sum_, r.b₁₀) := by
    rcases r.hsum with ⟨hpast, _⟩ | ⟨_, _, hread⟩
    · rw [hdataIndex, addSize_exact (y := e) (by push_cast; omega) ⟨by omega, by omega⟩] at hpast
      exact absurd hpast (lt_irrefl e)
    · exact hread
  have hend : r.b₁₀.retrieve (toSizeT (e - r.b₁₀.getReadIndex + 1)) = .ok b' := by
    rcases r.hend with ⟨_, h, _⟩ | ⟨_, _, h⟩
    · rw [hp] at h
      cases h
    · exact h
  refine ⟨hL, hpk, hs0, he, hmax, hsize, hdataLength ▸ Int.natCast_nonneg _, ?_⟩
  have hspent := r.spent_le hs he hL hsize hmax hsum hend
  have h₈ := readableBytes_of_append hdata
  have h₉ := readableBytes_of_append (Buffer.readInt32_split hsum)
  rw [length_intBE] at h₉
  omega

/-! ## Every comparison succeeded

A field that is skipped costs nothing, but what it should have consumed is
then missing from the length of the frame; a field that is read costs its
bytes. Both ways the lengths and positions are tied together modulo
`2 ^ 32`, and none of the skipped cases fits in. -/

namespace Recovery

variable {r : FrameRun ov s e b pkg b'}

theorem readableBytes_header (r : FrameRun ov s e b pkg b') :
    b.readableBytes = 5 + r.b₂.readableBytes := by
  have h₀ := readableBytes_of_append (Buffer.readInt8_split r.hstart)
  have h₁ := readableBytes_of_append (Buffer.readInt32_split r.hpk_len)
  rw [length_intBE] at h₀ h₁
  omega

theorem type_read (h : Recovery r L) : r.b₂.readInt8 = .ok (pkg.msg_type_, r.b₃) := by
  have hspent := h.spent
  have hdata := h.data_nonneg
  have hhead := readableBytes_header r
  have hle := (r.consumed_type.trans <| r.consumed_idLen.trans <| r.consumed_id.trans <|
    r.consumed_nameLen.trans <| r.consumed_name.trans r.consumed_error).readableBytes_le
  have hend := h.end_eq
  have hmax := h.end_le
  have hstart := h.start_nonneg
  rcases r.htype with ⟨hpast, _⟩ | ⟨_, _, hread⟩
  · rw [addSize_exact (y := s + 6) (by push_cast; omega) ⟨by omega, by omega⟩] at hpast
    omega
  · exact hread

theorem readableBytes_type (h : Recovery r L) : b.readableBytes = 6 + r.b₃.readableBytes := by
  have hhead := readableBytes_header r
  have h₂ := readableBytes_of_append (Buffer.readInt8_split h.type_read)
  rw [length_intBE] at h₂
  omega

/-- The position after the type, and the one after the length of the id. -/
theorem idLenIndex_eq (h : Recovery r L) (h10 : 10 ≤ L) :
    addSize (addSize s (1 + 4 + 1)) 4 = s + 10 := by
  have hmax := h.end_le
  have hstart := h.start_nonneg
  rw [addSize_exact (x := s) (y := s + 6) (by push_cast; omega) ⟨by omega, by omega⟩,
    addSize_exact (y := s + 10) (by push_cast; omega) ⟨by omega, by omega⟩]

theorem idLen_read (h : Recovery r L) : r.b₃.readInt32 = .ok (pkg.msg_id_len_, r.b₄) := by
  have hspent := h.spent
  have hdata := h.data_nonneg
  have htype := h.readableBytes_type
  have hle := (r.consumed_idLen.trans <| r.consumed_id.trans <|
    r.consumed_nameLen.trans <| r.consumed_name.trans r.consumed_error).readableBytes_le
  have hend := h.end_eq
  have hpk := h.pk_len
  rcases r.hidLen with ⟨hpast, hzero, _, hb⟩ | ⟨_, _, hread⟩
  swap
  · exact hread
  exfalso
  rw [h.idLenIndex_eq (by omega)] at hpast
  have hz : pkg.msg_id_len_.toInt = 0 := by rw [hzero]; rfl
  obtain ⟨q, hq⟩ := r.dataLen_congr
  rcases r.hnameLen with ⟨_, hzero', _⟩ | ⟨_, _, hread'⟩
  · have hz' : pkg.method_name_len_.toInt = 0 := by rw [hzero']; rfl
    omega
  · -- the length of the name is read from bytes that the frame has no room for
    have h₅ := readableBytes_of_append (Buffer.readInt32_split hread')
    rw [length_intBE] at h₅
    have hle₅ := r.consumed_id.readableBytes_le
    have hle₈ := (r.consumed_name.trans r.consumed_error).readableBytes_le
    rw [hb] at hle₅
    omega

theorem readableBytes_idLen (h : Recovery r L) :
    b.readableBytes = 10 + r.b₄.readableBytes := by
  have htype := h.readableBytes_type
  have h₃ := readableBytes_of_append (Buffer.readInt32_split h.idLen_read)
  rw [length_intBE] at h₃
  omega

/-- A string field that was read has the length it was asked for. -/
theorem string_read {b₀ b₁ : Buffer} {x : ℤ} {str : Bytes} (h : Recovery r L)
    (c : Consumed b b₀) (hx : InInt x) (hread : b₀.retrieveAsString (toSizeT x) = .ok (str, b₁)) :
    (str.length : ℤ) = x ∧ (b₀.readableBytes : ℤ) = x + b₁.readableBytes := by
  obtain ⟨hsplit, hlen⟩ := Buffer.retrieveAsString_split hx (by rw [c.buffer]; exact h.size) hread
  have hbytes := readableBytes_of_append hsplit
  exact ⟨hlen, by omega⟩

theorem consumed_b₄ (r : FrameRun ov s e b pkg b') : Consumed b r.b₄ :=
  (Consumed.of_readInt8 r.hstart).trans <| (Consumed.of_readInt32 r.hpk_len).trans <|
    r.consumed_type.trans r.consumed_idLen

theorem consumed_b₆ (r : FrameRun ov s e b pkg b') : Consumed b r.b₆ :=
  (consumed_b₄ r).trans <| r.consumed_id.trans r.consumed_nameLen

/-- The name was read, if its length was. -/
theorem name_read (h : Recovery r L)
    (hnameLen : r.b₅.readInt32 = .ok (pkg.method_name_len_, r.b₆)) :
    r.b₆.retrieveAsString (toSizeT pkg.method_name_len_.toInt)
      = .ok (pkg.method_name_, r.b₇) := by
  rcases r.hname with ⟨hpast, _, _, hb⟩ | ⟨_, _, hread⟩
  swap
  · exact hread
  exfalso
  have hspent := h.spent
  have hdata := h.data_nonneg
  have hidLen := h.readableBytes_idLen
  have h₅ := readableBytes_of_append (Buffer.readInt32_split hnameLen)
  rw [length_intBE] at h₅
  have hle₅ := r.consumed_id.readableBytes_le
  have hle₈ := (r.consumed_name.trans r.consumed_error).readableBytes_le
  have hend := h.end_eq
  have hmax := h.end_le
  have hstart := h.start_nonneg
  have hpk := h.pk_len
  obtain ⟨q₁, hq₁⟩ := r.idIndex_congr
  obtain ⟨q₂, hq₂⟩ := r.nameIndex_congr
  obtain ⟨q₃, hq₃⟩ := r.dataLen_congr
  have hin := Overflow.inInt_of_int r.hnameIndex
  unfold InInt at hin
  omega

theorem id_read (h : Recovery r L) :
    r.b₄.retrieveAsString (toSizeT pkg.msg_id_len_.toInt) = .ok (pkg.msg_id_, r.b₅) := by
  rcases r.hid with ⟨hpast, _, _, hb⟩ | ⟨_, _, hread⟩
  swap
  · exact hread
  exfalso
  have hspent := h.spent
  have hdata := h.data_nonneg
  have hidLen := h.readableBytes_idLen
  have hle := (r.consumed_nameLen.trans <| r.consumed_name.trans
    r.consumed_error).readableBytes_le
  have hend := h.end_eq
  have hmax := h.end_le
  have hstart := h.start_nonneg
  have hpk := h.pk_len
  obtain ⟨q₁, hq₁⟩ := r.idIndex_congr
  obtain ⟨q₂, hq₂⟩ := r.dataLen_congr
  have hin := Overflow.inInt_of_int r.hidIndex
  unfold InInt at hin
  rw [hb] at hle
  rcases r.hnameLen with ⟨_, hzero, _⟩ | ⟨_, _, hnameLen⟩
  · have hz : pkg.method_name_len_.toInt = 0 := by rw [hzero]; rfl
    omega
  · obtain ⟨hlen, hname⟩ := h.string_read (consumed_b₆ r) (inInt_int32 _) (h.name_read hnameLen)
    have h₅ := readableBytes_of_append (Buffer.readInt32_split hnameLen)
    rw [length_intBE, hb] at h₅
    have hle₈ := r.consumed_error.readableBytes_le
    omega

theorem nameLen_read (h : Recovery r L) :
    r.b₅.readInt32 = .ok (pkg.method_name_len_, r.b₆) := by
  rcases r.hnameLen with ⟨hpast, hzero, _⟩ | ⟨_, _, hread⟩
  swap
  · exact hread
  exfalso
  obtain ⟨hlen, hid⟩ := h.string_read (consumed_b₄ r) (inInt_int32 _) h.id_read
  have hspent := h.spent
  have hdata := h.data_nonneg
  have hidLen := h.readableBytes_idLen
  have hle := (r.consumed_nameLen.trans <| r.consumed_name.trans
    r.consumed_error).readableBytes_le
  have hend := h.end_eq
  have hmax := h.end_le
  have hstart := h.start_nonneg
  have hpk := h.pk_len
  obtain ⟨q₁, hq₁⟩ := r.idIndex_congr
  obtain ⟨q₂, hq₂⟩ := r.dataLen_congr
  have hin := Overflow.inInt_of_int r.hidIndex
  have hz : pkg.method_name_len_.toInt = 0 := by rw [hzero]; rfl
  unfold InInt at hin
  have hidIndex : r.idIndex = s + 10 + pkg.msg_id_len_.toInt := by omega
  rw [addSize_exact (y := s + 14 + pkg.msg_id_len_.toInt) (by push_cast; omega)
    ⟨by omega, by omega⟩] at hpast
  omega

/-- **The lengths fit.** -/
theorem fits (h : Recovery r L) :
    0 ≤ pkg.msg_id_len_.toInt ∧ 0 ≤ pkg.method_name_len_.toInt
      ∧ 23 + pkg.msg_id_len_.toInt + pkg.method_name_len_.toInt ≤ L := by
  obtain ⟨hidLength, hid⟩ := h.string_read (consumed_b₄ r) (inInt_int32 _) h.id_read
  obtain ⟨hnameLength, hname⟩ :=
    h.string_read (consumed_b₆ r) (inInt_int32 _) (h.name_read h.nameLen_read)
  have h₅ := readableBytes_of_append (Buffer.readInt32_split h.nameLen_read)
  rw [length_intBE] at h₅
  have hidLen := h.readableBytes_idLen
  have hle := r.consumed_error.readableBytes_le
  have hspent := h.spent
  have hdata := h.data_nonneg
  have hmax := h.end_le
  have hstart := h.start_nonneg
  have hpk := h.pk_len
  obtain ⟨q, hq⟩ := r.dataLen_congr
  omega

end Recovery

/-! ## Frames that do not fit -/

/-- The length of the id, as a frame states it. -/
def msgIdLen (F : Bytes) : ℤ := ofIntBE ((F.drop 6).take 4)

/-- The length of the method name, behind an id of the stated length. -/
def methodNameLen (F : Bytes) : ℤ := ofIntBE ((F.drop (10 + (msgIdLen F).toNat)).take 4)

/-- **The inner lengths do not fit the frame.** -/
def Misfit (F : Bytes) : Prop :=
  F.length < 23 ∨ msgIdLen F < 0 ∨ F.length < 23 + msgIdLen F ∨ methodNameLen F < 0
    ∨ F.length < 23 + msgIdLen F + methodNameLen F

instance : DecidablePred Misfit := fun _ => inferInstanceAs (Decidable (_ ∨ _))

/-- **A frame from which a run recovers is no misfit.** -/
theorem Recovery.not_misfit {r : FrameRun ov s e b pkg b'} {F R : Bytes}
    (h : Recovery r F.length) (hread : b.readable = F ++ R) : ¬ Misfit F := by
  obtain ⟨hid, hname, hfit⟩ := h.fits
  obtain ⟨e₄, hidLength⟩ := Buffer.retrieveAsString_split (inInt_int32 pkg.msg_id_len_)
    (by rw [(consumed_b₄ r).buffer]; exact h.size) h.id_read
  have hbytes : F ++ R = (intBE 1 r.start.toInt ++ (intBE 4 pkg.pk_len_.toInt
      ++ intBE 1 pkg.msg_type_.toInt)) ++ (intBE 4 pkg.msg_id_len_.toInt ++ r.b₄.readable) := by
    rw [← hread, Buffer.readInt8_split r.hstart, Buffer.readInt32_split r.hpk_len,
      Buffer.readInt8_split h.type_read, Buffer.readInt32_split h.idLen_read]
    simp only [List.append_assoc]
  have hidLen : msgIdLen F = pkg.msg_id_len_.toInt :=
    ofIntBE_at hbytes (by simp only [List.length_append, length_intBE]) (by omega)
  have hnameLen : methodNameLen F = pkg.method_name_len_.toInt := by
    rw [e₄, Buffer.readInt32_split h.nameLen_read, ← List.append_assoc, ← List.append_assoc]
      at hbytes
    refine ofIntBE_at hbytes ?_ (by omega)
    simp only [List.length_append, length_intBE]
    omega
  unfold Misfit
  omega

/-- **What is expected of a frame that does not fit**, with the frames of
`ms` behind it: one message that is marked as not parsed, exactly the
frame consumed for it, and then the messages of `ms`. -/
def Recovers (ov : Overflow) (b : Buffer) (ms : List TinyPBProtocol) : Prop :=
  ∃ pkg b₁ b', decodeRound ov b = .ok (some pkg, b₁) ∧ pkg.parse_success = false
    ∧ b₁.readable = ms.flatMap wire
    ∧ decode ov b = .ok (pkg :: ms.map (fun m => received (withId m)), b')

/-- **`decode` recovers from no frame that does not fit**, whatever else is
in the buffer. -/
theorem not_recovers (ov : Overflow) (b : Buffer) {F : Bytes} (ms : List TinyPBProtocol)
    (hF : Delimited F) (hm : Misfit F) (hread : b.readable = F ++ ms.flatMap wire)
    (hsize : b.buffer_.length ≤ Buffer.maxSize) : ¬ Recovers ov b ms := by
  rintro ⟨pkg, b₁, b', hround, hparse, -, -⟩
  obtain ⟨q, e, b₀, hq, hTo, hscan, hb₀, hframe⟩ := decodeRound_found hsize hround
  have hmax := scanTo_lt b
  have h6 := hF.six_le
  -- the scan finds the frame where it is
  have hr : b.readable ++ [] = [] ++ (F ++ ms.flatMap wire) := by rw [List.append_nil, hread]; rfl
  rcases scan_delimited (by omega) (by simp) ov hF hr with
    ⟨_, _, _, _, hnone, _⟩ | ⟨_, hend, hfound⟩ | ⟨_, _, herr⟩
  · rw [hnone] at hscan
    simp at hscan
  swap
  · rw [herr] at hscan
    cases hscan
  rw [hfound] at hscan
  simp only [Except.ok.injEq, Prod.mk.injEq, Option.some.injEq, List.length_nil,
    Nat.add_zero, Nat.cast_inj] at hscan hend
  obtain rfl : q = 0 := by omega
  -- and the run on it cannot end in the recovery
  obtain ⟨-, hdrop⟩ := Buffer.retrieve_eq_ok hb₀
  obtain ⟨hbuf, hidx, -⟩ := Buffer.retrieve_indices hb₀ hq
  rw [List.drop_zero, hread] at hdrop
  obtain ⟨r⟩ := decodeFrame_run hframe
  have hpk : pkg.pk_len_.toInt = F.length := by
    rw [← hF.length]
    have hbytes : F ++ ms.flatMap wire
        = intBE 1 r.start.toInt ++ (intBE 4 pkg.pk_len_.toInt ++ r.b₂.readable) := by
      rw [← hdrop, Buffer.readInt8_split r.hstart, Buffer.readInt32_split r.hpk_len]
    exact (ofIntBE_at hbytes (length_intBE 1 _) (by omega)).symm
  have hrec : Recovery r F.length :=
    r.recovery hparse hpk h6 (by rw [hidx]) (by omega) (by omega) (by rw [hbuf]; exact hsize)
  exact hrec.not_misfit hdrop hm

/-- The assertion of `retrieveAsString` fails already on the shortest frame
there is, which holds nothing but its length. -/
theorem not_recovers_shortest :
    Delimited [0x02, 0, 0, 0, 6, 0x03] ∧ Misfit [0x02, 0, 0, 0, 6, 0x03]
      ∧ (Buffer.init.writeToBuffer [0x02, 0, 0, 0, 6, 0x03]).readable
        = [0x02, 0, 0, 0, 6, 0x03] ++ [].flatMap wire
      ∧ decodeRound .trap (Buffer.init.writeToBuffer [0x02, 0, 0, 0, 6, 0x03])
        = .error .assertion
      ∧ ¬ Recovers .trap (Buffer.init.writeToBuffer [0x02, 0, 0, 0, 6, 0x03]) [] := by
  have hround : decodeRound .trap (Buffer.init.writeToBuffer [0x02, 0, 0, 0, 6, 0x03])
      = .error .assertion := by decide +kernel
  refine ⟨⟨by decide, by decide, by decide, by decide⟩, by decide, by decide +kernel, hround, ?_⟩
  rintro ⟨pkg, b₁, b', h, _⟩
  rw [hround] at h
  cases h

/-- A frame with room for all the fields, whose method name is longer than it. -/
def longNameFrame : Bytes :=
  [0x02, 0, 0, 0, 25, 0, 0, 0, 0, 1, 0x31, 0, 0, 0, 0x40, 0x61, 0x62, 0, 0, 0, 0, 0, 0, 0, 0x03]

/-- The message behind it is not read either. -/
theorem not_recovers_longName :
    ¬ Recovers .wrap (Buffer.init.writeToBuffer
      (longNameFrame ++ wire { msg_id_ := [0x32], pb_data_ := [0x07] }))
      [{ msg_id_ := [0x32], pb_data_ := [0x07] }] :=
  not_recovers .wrap _ _ (F := longNameFrame)
    ⟨by decide, by decide, by decide, by decide⟩ (by decide) (by decide +kernel)
    (by decide +kernel)

end TinyPBCoder
end PbRpc
