import PbRpc.DecodeFrame
import PbRpc.Framing

/-!
# Decoding a stream

A connection appends what it receives to its buffer and calls `decode`
after each read. Where the stream is what an encoder wrote, with bytes
other than `PB_START` between the frames, it does not matter how the reads
cut it: every message is delivered once, in order and as it was sent, and
nothing stays behind (`feed_receive`). The step is one round of `decode`
(`decodeRound_spells`), and from it the whole of `decode`
(`decode_spells`): the buffer may be anywhere in the stream, with the rest
still to come.
-/

namespace PbRpc
namespace TinyPBCoder

open BigEndian TinyPBProtocol
open Framing (Spells feed feed_delivers)

variable {ov : Overflow} {b : Buffer} {m : TinyPBProtocol} {ms : List TinyPBProtocol}
  {fut : Bytes}

/-- **A message that can be sent**: it has an id, and the length of its
frame is an `int`. -/
structure Sendable (m : TinyPBProtocol) : Prop where
  msg_id_ne : m.msg_id_ ≠ []
  frame_le : frameLength m ≤ 2147483647

instance (m : TinyPBProtocol) : Decidable (Sendable m) :=
  decidable_of_iff (m.msg_id_ ≠ [] ∧ frameLength m ≤ 2147483647)
    ⟨fun h => ⟨h.1, h.2⟩, fun h => ⟨h.msg_id_ne, h.frame_le⟩⟩

theorem Sendable.wire (h : Sendable m) : wire m = frame m := wire_of_ne_nil h.msg_id_ne

theorem wire_ne_nil (m : TinyPBProtocol) : wire m ≠ [] := by
  rw [wire_eq]
  exact frame_ne_nil _

/-! ## One round -/

/-- **What a round does in the middle of a stream**: it delivers the next
message; it finds nothing, and then has dropped only noise; or an index
overflows, which needs a stream that does not fit in the range of `int`. -/
inductive RoundOn (ov : Overflow) (b : Buffer) (ms : List TinyPBProtocol) (fut : Bytes) : Prop
  | found {m : TinyPBProtocol} {ms' : List TinyPBProtocol} {b' : Buffer} (hms : ms = m :: ms')
      (h : decodeRound ov b = .ok (some (received m), b')) (hread : b'.readIndex_ ≤ 2147483647)
      (hrest : Spells PB_START wire ms' (b'.readable ++ fut))
  | waiting {b' : Buffer} (h : decodeRound ov b = .ok (none, b'))
      (hread : b'.readIndex_ ≤ 2147483647)
      (hrest : Spells PB_START wire ms (b'.readable ++ fut))
      (hdone : b.writeIndex_ ≤ 2147483647 → fut = [] → b'.readable = [])
  | fault {e : Fault} (h : decodeRound ov b = .error e)
      (hlarge : 2147483647 < b.writeIndex_ + fut.length)

/-- A round whose scan stopped within the noise drops what it passed. -/
theorem decodeRound_none {q : ℕ} (hq : q ≤ b.readableBytes) (hmax : b.readIndex_ + q ≤ 2147483647)
    (hscan : scan ov b = .ok ((b.readIndex_ + q : ℕ), none)) :
    ∃ b', decodeRound ov b = .ok (none, b') ∧ b'.readable = b.readable.drop q
      ∧ b'.readIndex_ ≤ 2147483647 := by
  obtain ⟨b', hb'⟩ := Buffer.retrieve_of_le hq
  have hdist : toSizeT (((b.readIndex_ + q : ℕ) : ℤ) - b.getReadIndex) = q := by
    rw [Buffer.getReadIndex, Nat.cast_add, add_sub_cancel_left]
    exact toSizeT_natCast (by omega)
  refine ⟨b', ?_, (Buffer.retrieve_eq_ok hb').2, ?_⟩
  · rw [decodeRound, hscan, ok_bind]
    dsimp only
    rw [hdist, hb', ok_bind]
    rfl
  · have hle := (Consumed.of_retrieve hb').readIndex_le
    have hdrop := congrArg List.length (Buffer.retrieve_eq_ok hb').2
    rw [List.length_drop, Buffer.length_readable, Buffer.length_readable] at hdrop
    omega

/-- A round whose scan found the frame of a message delivers the message. -/
theorem decodeRound_frame {q : ℕ} {rest : Bytes}
    (hmax : b.readIndex_ + q + frameLength m ≤ 2147483647)
    (hread : b.readable.drop q = frame m ++ rest)
    (hscan : scan ov b = .ok ((b.readIndex_ + q : ℕ),
      some ((b.readIndex_ + q : ℕ) + (frameLength m : ℤ) - 1))) :
    ∃ b', decodeRound ov b = .ok (some (received m), b') ∧ b'.readable = rest
      ∧ b'.readIndex_ ≤ 2147483647 := by
  have hlen := congrArg List.length hread
  rw [List.length_drop, Buffer.length_readable, List.length_append, length_frame] at hlen
  have hpos : 0 < frameLength m := by unfold frameLength; omega
  have hq : q ≤ b.readableBytes := by omega
  obtain ⟨b₀, hb₀⟩ := Buffer.retrieve_of_le hq
  have hdist : toSizeT (((b.readIndex_ + q : ℕ) : ℤ) - b.getReadIndex) = q := by
    rw [Buffer.getReadIndex, Nat.cast_add, add_sub_cancel_left]
    exact toSizeT_natCast (by omega)
  obtain ⟨b', hb', hrest⟩ := decodeFrame_frame ov hmax
    ((Buffer.retrieve_eq_ok hb₀).2.trans hread)
  have hround : decodeRound ov b = .ok (some (received m), b') := by
    rw [decodeRound, hscan, ok_bind]
    dsimp only
    rw [hdist, hb₀, ok_bind, hb', ok_bind]
    rfl
  refine ⟨b', hround, hrest, ?_⟩
  have hle := (decodeRound_consumed hround).readIndex_le
  have hrest' := congrArg List.length hrest
  rw [Buffer.length_readable] at hrest'
  omega

/-- Within the noise, dropping readable bytes drops noise. -/
theorem drop_readable_append {noise rest : Bytes} {q : ℕ}
    (h : b.readable ++ fut = noise ++ rest) (hq : q ≤ b.readableBytes) (hqn : q ≤ noise.length) :
    b.readable.drop q ++ fut = noise.drop q ++ rest := by
  rw [← List.drop_append_of_le_length (by rwa [Buffer.length_readable]), h,
    List.drop_append_of_le_length hqn]

/-- **One round, with nothing but noise to come.** -/
theorem decodeRound_noise (ov : Overflow) {noise : Bytes} (hr : b.readIndex_ ≤ 2147483647)
    (hn : ∀ x ∈ noise, x ≠ PB_START) (h : b.readable ++ fut = noise) :
    ∃ q b', decodeRound ov b = .ok (none, b') ∧ q ≤ b.readableBytes ∧ q ≤ noise.length ∧
      b'.readable = b.readable.drop q ∧ b'.readIndex_ ≤ 2147483647 ∧
      (b.writeIndex_ ≤ 2147483647 → fut = [] → b'.readable = []) := by
  have hrw := b.read_le_write
  have hbytes : b.readableBytes = b.writeIndex_ - b.readIndex_ := rfl
  have hlen := congrArg List.length h
  rw [List.length_append, Buffer.length_readable] at hlen
  have hsplit : b.readable ++ fut = noise ++ [] := by rw [h, List.append_nil]
  -- the scan gets as far as it looks
  have hTo := scanTo_le b
  have hTo' := scanTo_lt b
  obtain ⟨b', hb', hdrop, hread⟩ := decodeRound_none (by omega) (by omega)
    (scan_noise hr hn ov hsplit (by omega))
  refine ⟨_, b', hb', by omega, by omega, hdrop, hread, fun hW _ => ?_⟩
  have hall : scanTo b = b.writeIndex_ := toInt_of_inInt
    ⟨by unfold Buffer.getWriteIndex; omega, by unfold Buffer.getWriteIndex; omega⟩
  rw [hdrop]
  exact List.drop_of_length_le (by rw [Buffer.length_readable]; omega)

/-- **One round, in front of a frame**: it takes the noise and the frame; it
takes some of the noise, when the frame is not whole; or an index
overflows. -/
theorem decodeRound_delimited (ov : Overflow) {noise tail : Bytes}
    (hr : b.readIndex_ ≤ 2147483647) (hn : ∀ x ∈ noise, x ≠ PB_START)
    (hm : frameLength m ≤ 2147483647) (h : b.readable ++ fut = noise ++ (frame m ++ tail)) :
    (∃ b', decodeRound ov b = .ok (some (received m), b') ∧ b'.readIndex_ ≤ 2147483647 ∧
        b.readable = noise ++ (frame m ++ b'.readable) ∧ b'.readable ++ fut = tail) ∨
      (∃ q b', decodeRound ov b = .ok (none, b') ∧ q ≤ b.readableBytes ∧ q ≤ noise.length ∧
        b'.readable = b.readable.drop q ∧ b'.readIndex_ ≤ 2147483647 ∧
        (b.writeIndex_ ≤ 2147483647 → b.readableBytes < noise.length + frameLength m)) ∨
      (∃ e, decodeRound ov b = .error e) ∧
        2147483647 < b.readIndex_ + noise.length + frameLength m := by
  have hscan := scan_delimited hr hn ov (delimited_frame hm) h
  rw [length_frame] at hscan
  rcases hscan with ⟨q, hqn, hq, hmax, hscan, hdone⟩ | ⟨hfit, hmax, hscan⟩ | ⟨hmax, e, hscan⟩
  · obtain ⟨b', hb', hdrop, hread⟩ := decodeRound_none hq hmax hscan
    exact .inr (.inl ⟨q, b', hb', hq, hqn, hdrop, hread, hdone⟩)
  · have hq : noise.length ≤ b.readableBytes := by omega
    have hdrop := drop_readable_append h hq le_rfl
    rw [List.drop_length, List.nil_append] at hdrop
    have hpre : frame m <+: b.readable.drop noise.length := by
      refine List.prefix_of_prefix_length_le (List.prefix_append _ _)
        (hdrop ▸ List.prefix_append _ _) ?_
      rw [length_frame, List.length_drop, Buffer.length_readable]
      omega
    obtain ⟨rest, hrest⟩ := hpre
    obtain ⟨b', hb', rfl, hread⟩ := decodeRound_frame hmax hrest.symm hscan
    refine .inl ⟨b', hb', hread, ?_, ?_⟩
    · have htake : b.readable.take noise.length = noise := by
        rw [← List.take_append_of_le_length (by rwa [Buffer.length_readable]), h,
          List.take_append_of_le_length le_rfl, List.take_length]
      rw [hrest]
      conv_lhs => rw [← List.take_append_drop noise.length b.readable]
      rw [htake]
    · rw [← hrest, List.append_assoc] at hdrop
      exact List.append_cancel_left hdrop
  · refine .inr (.inr ⟨⟨e, ?_⟩, hmax⟩)
    rw [decodeRound, hscan]
    rfl

/-- **One round, in the middle of a stream.** -/
theorem decodeRound_spells (ov : Overflow) (hr : b.readIndex_ ≤ 2147483647)
    (hs : ∀ m ∈ ms, Sendable m) (h : Spells PB_START wire ms (b.readable ++ fut)) :
    RoundOn ov b ms fut := by
  have hrw := b.read_le_write
  have hbytes : b.readableBytes = b.writeIndex_ - b.readIndex_ := rfl
  obtain ⟨noise, rest, hsplit, hn, hrest⟩ := h.split
  rcases hrest with ⟨rfl, rfl⟩ | ⟨m, ms', tail, rfl, rfl, htail⟩
  · rw [List.append_nil] at hsplit
    obtain ⟨q, b', hb', hq, hqn, hdrop, hread, hdone⟩ := decodeRound_noise ov hr hn hsplit
    refine .waiting hb' hread ?_ hdone
    rw [hdrop, drop_readable_append (hsplit.trans (List.append_nil _).symm) hq hqn]
    exact Spells.noises (fun x hx => hn x (List.mem_of_mem_drop hx)) .nil
  · have hm := hs m (List.mem_cons_self ..)
    rw [hm.wire] at hsplit
    have hlen := congrArg List.length hsplit
    rw [List.length_append, Buffer.length_readable, List.length_append, List.length_append,
      length_frame] at hlen
    rcases decodeRound_delimited ov hr hn hm.frame_le hsplit with
      ⟨b', hb', hread, -, rfl⟩ | ⟨q, b', hb', hq, hqn, hdrop, hread, hdone⟩ | ⟨⟨e, he⟩, hmax⟩
    · exact .found rfl hb' hread htail
    · refine .waiting hb' hread ?_ ?_
      · rw [hdrop, drop_readable_append hsplit hq hqn, ← hm.wire]
        exact Spells.noises (fun x hx => hn x (List.mem_of_mem_drop hx)) (.frame htail)
      · rintro hW rfl
        have hmore := hdone hW
        rw [List.length_nil] at hlen
        omega
    · exact .fault he (by omega)

/-! ## The whole of `decode` -/

/-- **What `decode` does in the middle of a stream**: it delivers some of the
messages and goes on awaiting the others. It goes wrong only on a stream
that does not fit in the range of `int`, and it leaves nothing behind at
the end of one that does. -/
theorem decode_spells (ov : Overflow) (hr : b.readIndex_ ≤ 2147483647)
    (hs : ∀ m ∈ ms, Sendable m) (h : Spells PB_START wire ms (b.readable ++ fut)) :
    (∃ out ms' b', decode ov b = .ok (out.map received, b') ∧ ms = out ++ ms'
        ∧ b'.readIndex_ ≤ 2147483647 ∧ Spells PB_START wire ms' (b'.readable ++ fut)
        ∧ (b.writeIndex_ ≤ 2147483647 → fut = [] → b'.readable = []))
      ∨ (∃ e, decode ov b = .error e) ∧ 2147483647 < b.writeIndex_ + fut.length := by
  induction ms generalizing b with
  | nil =>
    cases decodeRound_spells ov hr hs h with
    | found hms => cases hms
    | waiting h' hread hrest hdone =>
      exact Or.inl ⟨[], [], _, Loop.untilNone_of_none h', rfl, hread, hrest, hdone⟩
    | fault h' hlarge => exact Or.inr ⟨⟨_, Loop.untilNone_of_error h'⟩, hlarge⟩
  | cons m ms ih =>
    cases decodeRound_spells ov hr hs h with
    | waiting h' hread hrest hdone =>
      exact Or.inl ⟨[], m :: ms, _, Loop.untilNone_of_none h', rfl, hread, hrest, hdone⟩
    | fault h' hlarge => exact Or.inr ⟨⟨_, Loop.untilNone_of_error h'⟩, hlarge⟩
    | @found _ _ b₁ hms h' hread hrest =>
      cases hms
      have hw := (decodeRound_consumed h').write
      rcases ih hread (fun m hm => hs m (List.mem_cons_of_mem _ hm)) hrest with
        ⟨out, ms', b', hd, rfl, hread', hrest', hdone⟩ | ⟨⟨e, hd⟩, hlarge⟩
      · exact Or.inl ⟨m :: out, ms', b', Loop.untilNone_of_some h' hd, rfl, hread', hrest',
          fun hW => hdone (le_trans hw hW)⟩
      · refine Or.inr ⟨⟨e, ?_⟩, by omega⟩
        exact Loop.untilNone_of_some_error h' hd

/-! ## Chunk by chunk -/

/-- What a connection does with a chunk it has received: append it and
decode. -/
def receive (ov : Overflow) (b : Buffer) (chunk : Bytes) :
    Except Fault (List TinyPBProtocol × Buffer) :=
  decode ov (b.writeToBuffer chunk)

/-- A buffer that still awaits the messages `ms`, with the bytes `fut` to
come, all of it within the range of `int`. -/
structure Awaits (b : Buffer) (ms : List TinyPBProtocol) (fut : Bytes) : Prop where
  sendable : ∀ m ∈ ms, Sendable m
  spells : Spells PB_START wire ms (b.readable ++ fut)
  fits : b.writeIndex_ + fut.length ≤ 2147483647
  done : fut = [] → b.readable = []

theorem receive_awaits (ov : Overflow) (b : Buffer) (c : Bytes) (ms : List TinyPBProtocol)
    (fut : Bytes) (h : Awaits b ms (c ++ fut)) :
    ∃ out ms' b', receive ov b c = .ok (out.map received, b') ∧ ms = out ++ ms'
      ∧ Awaits b' ms' fut := by
  have hfits := h.fits
  rw [List.length_append] at hfits
  have hw := b.writeIndex_writeToBuffer_le c
  have hrw := (b.writeToBuffer c).read_le_write
  have hspells : Spells PB_START wire ms ((b.writeToBuffer c).readable ++ fut) := by
    rw [Buffer.readable_writeToBuffer, List.append_assoc]
    exact h.spells
  rcases decode_spells ov (by omega) h.sendable hspells with
    ⟨out, ms', b', hd, rfl, hread, hrest, hdone⟩ | ⟨_, hlarge⟩
  · refine ⟨out, ms', b', hd, rfl, ?_, hrest, ?_, hdone (by omega)⟩
    · exact fun m hm => h.sendable m (List.mem_append_right _ hm)
    · have := (decode_consumed hd).write
      omega
  · omega

/-- A message of a stream is no longer than the stream. -/
theorem frameLength_le_of_spells {stream : Bytes} (hid : ∀ m ∈ ms, m.msg_id_ ≠ [])
    (h : Spells PB_START wire ms stream) : ∀ m ∈ ms, frameLength m ≤ stream.length := by
  induction h with
  | nil => intro m hm; cases hm
  | noise hb h ih =>
    intro m hm
    exact le_trans (ih hid m hm) (Nat.le_succ _)
  | @frame m' ms' bs h ih =>
    intro m hm
    rw [List.length_append]
    rcases List.mem_cons.mp hm with rfl | hm
    · rw [wire_of_ne_nil (hid m (List.mem_cons_self ..)), length_frame]
      exact Nat.le_add_right _ _
    · exact le_trans (ih (fun m hm => hid m (List.mem_cons_of_mem _ hm)) m hm)
        (Nat.le_add_left _ _)

/-- **A stream is delivered as it was sent**, however it is cut: the
messages once each and in order, with nothing left in the buffer. -/
theorem feed_receive (ov : Overflow) {ms : List TinyPBProtocol} {stream : Bytes}
    (chunks : List Bytes) (hid : ∀ m ∈ ms, m.msg_id_ ≠ [])
    (h : Spells PB_START wire ms stream) (hlen : stream.length < 2 ^ 31)
    (hchunks : chunks.flatten = stream) :
    ∃ b, feed (receive ov) Buffer.init chunks = .ok (ms.map received, b) ∧ b.readable = [] := by
  subst hchunks
  have hstart : Awaits Buffer.init ms chunks.flatten := by
    refine ⟨fun m hm => ⟨hid m hm, ?_⟩, ?_, ?_, fun _ => Buffer.readable_init⟩
    · have := frameLength_le_of_spells hid h m hm
      omega
    · rw [Buffer.readable_init, List.nil_append]
      exact h
    · rw [Buffer.writeIndex_init]
      omega
  obtain ⟨out, ms', b, hfeed, rfl, hend⟩ :=
    feed_delivers received Awaits (receive_awaits ov) chunks hstart
  have hnil := hend.done rfl
  have hrest := hend.spells
  rw [hnil, List.append_nil] at hrest
  rw [Spells.eq_nil wire_ne_nil hrest, List.append_nil]
  exact ⟨b, hfeed, hnil⟩

/-- A frame with a `PB_START` in its payload, cut inside its length, with a
byte of noise on either side. -/
theorem feed_receive_cut :
    ∃ b, feed (receive .trap) Buffer.init
        [[0x07, 0x02, 0], (wire { msg_id_ := [0x31], pb_data_ := [0x02, 0x03] }).drop 2 ++ [0x09]]
      = .ok ([received { msg_id_ := [0x31], pb_data_ := [0x02, 0x03] }], b)
        ∧ b.readable = [] := by
  have hspells : Spells PB_START wire [{ msg_id_ := [0x31], pb_data_ := [0x02, 0x03] }]
      (0x07 :: (wire { msg_id_ := [0x31], pb_data_ := [0x02, 0x03] } ++ [0x09])) :=
    .noise (by decide) (.frame (.noise (by decide) .nil))
  exact feed_receive .trap _ (by decide) hspells (by decide +kernel) (by decide +kernel)

end TinyPBCoder
end PbRpc
