import PbRpc.DecodeFrame

/-!
# What accepted messages were read from

The bytes a peer sends need not be those of an encoder. Even so a message
that `decode` marks as parsed, and that has an id, was read from a block of
the bytes that is the encoding of that very message: the checks of
`decodeFrame` together admit nothing else (`FrameRun.canonical`). Here this
is carried from a frame to a round (`decodeRound_block`) and from the
rounds to `decode` (`decode_blocks`): the blocks of several messages are
disjoint and in the order of the messages.
-/

namespace PbRpc
namespace TinyPBCoder

open BigEndian TinyPBProtocol

variable {ov : Overflow} {b b' : Buffer} {pkg : TinyPBProtocol}

/-- A message that was parsed and has an id. -/
def Accepted (pkg : TinyPBProtocol) : Prop := pkg.parse_success = true ∧ pkg.msg_id_ ≠ []

/-- **The message was read at `off`**: the bytes there are its encoding, and
its length fields are the lengths. -/
structure ReadAt (input : Bytes) (pkg : TinyPBProtocol) (off : ℕ) : Prop where
  block : wire pkg <+: input.drop off
  pk_len : pkg.pk_len_.toInt = (wire pkg).length
  msg_id_len : pkg.msg_id_len_.toInt = pkg.msg_id_.length
  method_name_len : pkg.method_name_len_.toInt = pkg.method_name_.length

/-- **The accepted messages among `out` were read at the offsets `off`**,
and what they were read from does not overlap. -/
structure Blocks (input : Bytes) (out : List TinyPBProtocol) (off : ℕ → ℕ) : Prop where
  read : ∀ i pkg, out[i]? = some pkg → Accepted pkg → ReadAt input pkg (off i)
  ordered : ∀ i j pkg pkg', i < j → out[i]? = some pkg → out[j]? = some pkg' →
    Accepted pkg → Accepted pkg' → off i + (wire pkg).length ≤ off j

theorem Blocks.nil (input : Bytes) : Blocks input [] (fun _ => 0) where
  read := by
    intro i pkg h
    rw [List.getElem?_nil] at h
    cases h
  ordered := by
    intro i j pkg pkg' _ h
    rw [List.getElem?_nil] at h
    cases h

/-- **One message more in front**, read from the first `k` bytes when it is
accepted. -/
theorem Blocks.cons {input : Bytes} {out : List TinyPBProtocol} {off : ℕ → ℕ} {k : ℕ}
    (h : Blocks (input.drop k) out off)
    (hpkg : Accepted pkg → ∃ q, ReadAt input pkg q ∧ q + (wire pkg).length ≤ k) :
    ∃ off', Blocks input (pkg :: out) off' := by
  obtain ⟨q, hq⟩ : ∃ q, Accepted pkg → ReadAt input pkg q ∧ q + (wire pkg).length ≤ k := by
    by_cases ha : Accepted pkg
    · obtain ⟨q, hq⟩ := hpkg ha
      exact ⟨q, fun _ => hq⟩
    · exact ⟨0, fun h => absurd h ha⟩
  refine ⟨fun i => Nat.casesOn i q (fun i => k + off i), ?_, ?_⟩
  · intro i pkg' hi ha
    cases i with
    | zero =>
      cases hi
      exact (hq ha).1
    | succ i =>
      have hr := h.read i pkg' hi ha
      exact ⟨by rw [← List.drop_drop]; exact hr.block, hr.pk_len, hr.msg_id_len,
        hr.method_name_len⟩
  · intro i j pkg₁ pkg₂ hij hi hj ha₁ ha₂
    obtain ⟨j, rfl⟩ : ∃ j', j = j' + 1 := ⟨j - 1, by omega⟩
    cases i with
    | zero =>
      cases hi
      exact le_trans (hq ha₁).2 (Nat.le_add_right _ _)
    | succ i =>
      have hord := h.ordered i j pkg₁ pkg₂ (by omega) hi hj ha₁ ha₂
      show k + off i + (wire pkg₁).length ≤ k + off j
      omega

/-- Where a frame was found in a short buffer, the whole of the buffer is
within the range of `int`. -/
theorem writeIndex_le_of_scanTo {i : ℕ} (hlt : b.readableBytes < 2 ^ 30)
    (hi : ((b.readIndex_ + i : ℕ) : ℤ) < scanTo b) : b.writeIndex_ ≤ 2147483647 := by
  have hTo := scanTo_lt b
  have hbytes : b.readableBytes = b.writeIndex_ - b.readIndex_ := rfl
  have hin : InInt (b.writeIndex_ : ℤ) :=
    inInt_of_toInt_nonneg (Int.natCast_nonneg _) (by omega) (by
      change 0 ≤ scanTo b
      omega)
  have hmax := hin.2
  omega

/-- The length the scan read is the one the frame has. -/
theorem pk_len_of_run {s e L : ℤ} {b₀ : Buffer} {q : ℕ} (r : FrameRun ov s e b₀ pkg b')
    (hdrop : b₀.readable = b.readable.drop q) (hq : q < b.readableBytes)
    (hL : int32At b.getBuffer (b.readIndex_ + (q + 1) : ℕ) = .ok L) :
    L = pkg.pk_len_.toInt := by
  have hbytes : b.readable ++ [] = (b.readable.take q ++ intBE 1 r.start.toInt)
      ++ (intBE 4 pkg.pk_len_.toInt ++ r.b₂.readable) := by
    rw [List.append_assoc, ← Buffer.readInt32_split r.hpk_len, ← Buffer.readInt8_split r.hstart,
      hdrop, List.take_append_drop, List.append_nil]
  have hpre : (b.readable.take q ++ intBE 1 r.start.toInt).length = q + 1 := by
    rw [List.length_append, List.length_take, Buffer.length_readable, length_intBE,
      Nat.min_eq_left hq.le]
  have hlen : q + 5 ≤ b.readableBytes := by
    have h := congrArg List.length hbytes
    rw [List.append_nil, Buffer.length_readable, List.length_append, hpre, List.length_append,
      length_intBE] at h
    omega
  rw [int32At_readable (by omega)] at hL
  rw [← Except.ok.inj hL]
  exact ofIntBE_at hbytes hpre (by rw [Buffer.length_readable]; omega)

/-- **An accepted message of one round** was read between the bytes the scan
passed and the bytes that are left. -/
theorem decodeRound_block (hsize : b.buffer_.length ≤ Buffer.maxSize)
    (hlt : b.readableBytes < 2 ^ 30) (h : decodeRound ov b = .ok (some pkg, b'))
    (ha : Accepted pkg) :
    ∃ q, b.readable.drop q = wire pkg ++ b'.readable ∧ ReadAt b.readable pkg q := by
  obtain ⟨q, e, b₀, hq, hTo, hscan, hb₀, hframe⟩ := decodeRound_found hsize h
  obtain ⟨hbuf, hidx, hwrite⟩ := Buffer.retrieve_indices hb₀ hq
  have hdrop := (Buffer.retrieve_eq_ok hb₀).2
  have hW := writeIndex_le_of_scanTo hlt hTo
  obtain ⟨r⟩ := decodeFrame_run hframe
  obtain ⟨hstart, hend, _, hL⟩ := scanStep_frame_end (scanTo_lt b) hTo (scan_eq_frame hscan).2.2
  have hcast : ((b.readIndex_ + q : ℕ) : ℤ) + 1 = (b.readIndex_ + (q + 1) : ℕ) := by
    push_cast
    ring
  rw [hcast] at hL
  have hpk := pk_len_of_run r hdrop hq hL
  obtain ⟨hread, hlen, hid, hname⟩ := r.canonical ha.1 (by rw [hidx]) (by rw [hwrite]; exact hW)
    (by rw [hbuf]; exact hsize) (by omega)
    (by rw [Buffer.getBuffer, hbuf]; exact hstart) (by rw [Buffer.getBuffer, hbuf]; exact hend)
  rw [hdrop, ← wire_of_ne_nil ha.2] at hread
  refine ⟨q, hread, hread ▸ List.prefix_append _ _, ?_, hid, hname⟩
  rw [wire_of_ne_nil ha.2, length_frame]
  exact hlen

/-- **Every accepted message was read from its own encoding**, and the
blocks of several are disjoint and in order. -/
theorem decode_blocks (ov : Overflow) {b b' : Buffer} {out : List TinyPBProtocol}
    (hsize : b.buffer_.length ≤ Buffer.maxSize) (hlt : b.readableBytes < 2 ^ 30)
    (h : decode ov b = .ok (out, b')) : ∃ off, Blocks b.readable out off := by
  revert hsize hlt
  refine Loop.untilNone_induction (P := fun b out _ => b.buffer_.length ≤ Buffer.maxSize →
    b.readableBytes < 2 ^ 30 → ∃ off, Blocks b.readable out off) ?_ ?_ h
  · intro b b' _ _ _
    exact ⟨_, Blocks.nil _⟩
  · intro b b₁ b' pkg out hround ih hsize hlt
    have c := decodeRound_consumed hround
    obtain ⟨off, hoff⟩ := ih (by rw [c.buffer]; exact hsize)
      (lt_of_le_of_lt c.readableBytes_le hlt)
    obtain ⟨pre, hpre⟩ := c.suffix
    have hrest : b₁.readable = b.readable.drop pre.length := by
      rw [← hpre, List.drop_left]
    rw [hrest] at hoff
    refine hoff.cons (fun ha => ?_)
    obtain ⟨q, hq, hread⟩ := decodeRound_block hsize hlt hround ha
    refine ⟨q, hread, ?_⟩
    have hlen := congrArg List.length hq
    have hlen' := congrArg List.length hpre
    rw [List.length_drop, List.length_append] at hlen
    rw [List.length_append] at hlen'
    have hpos := List.length_pos_of_ne_nil (frame_ne_nil pkg)
    rw [← wire_of_ne_nil ha.2] at hpos
    omega

/-- Two messages, each behind a byte of noise. -/
def twoMessages : Buffer :=
  Buffer.init.writeToBuffer ([0x07] ++ wire { msg_id_ := [0x31], pb_data_ := [0x02, 0x03] }
    ++ [0x00] ++ wire { msg_type_ := 1, msg_id_ := [0x32, 0x33] })

/-- What a round leaves. -/
def roundRest (b : Buffer) : Buffer :=
  match decodeRound .trap b with
  | .ok (_, rest) => rest
  | .error _ => b

/-- Both are accepted, and the second was read behind the first. -/
theorem decode_blocks_twoMessages :
    ∃ off, Blocks twoMessages.readable
      [received { msg_id_ := [0x31], pb_data_ := [0x02, 0x03] },
        received { msg_type_ := 1, msg_id_ := [0x32, 0x33] }] off := by
  have hfirst : decodeRound .trap twoMessages
      = .ok (some (received { msg_id_ := [0x31], pb_data_ := [0x02, 0x03] }),
          roundRest twoMessages) := by decide +kernel
  have hsecond : decodeRound .trap (roundRest twoMessages)
      = .ok (some (received { msg_type_ := 1, msg_id_ := [0x32, 0x33] }),
          roundRest (roundRest twoMessages)) := by decide +kernel
  have hnone : decodeRound .trap (roundRest (roundRest twoMessages))
      = .ok (none, roundRest (roundRest (roundRest twoMessages))) := by decide +kernel
  exact decode_blocks .trap (by decide +kernel) (by decide +kernel)
    (Loop.untilNone_of_some hfirst (Loop.untilNone_of_some hsecond (Loop.untilNone_of_none hnone)))

end TinyPBCoder
end PbRpc
