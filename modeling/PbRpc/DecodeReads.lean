import PbRpc.DecodeMisfit
import PbRpc.DecodeStream
import PbRpc.Incremental

/-!
# What `decode` reads from any bytes

The bytes that a connection receives need not be those of an encoder. A
`PB_START` may be a stray byte, and what is behind it is then read as a
length. `look` says what `decode` makes of the bytes in front of it, without
buffers and indices: it passes over them, waits, takes a message, or goes
astray. It goes astray at a length that points at nothing behind the
`PB_START`, or at a delimited frame whose inner lengths do not fit in it.

As long as it does not, `decode` is a reader that looks ahead
(`decode_reads`), and so it does not matter how the stream is cut
(`feed_reads`): the messages are those of the whole stream, and what is left
in the buffer is what is left of it. The stream of an encoder is one of these
(`reads_of_spells`).

Lengths are added to positions in `int`. `limit` bounds the lengths, so that
no sum overflows.
-/

namespace PbRpc
namespace TinyPBCoder

open BigEndian TinyPBProtocol
open Framing (Spells feed feed_delivers)
open Incremental

variable {ov : Overflow} {b : Buffer} {limit : ℕ}

/-! ## What a frame holds -/

/-- **The message in a frame**, cut out by the lengths that the frame
states. -/
def unframe (F : Bytes) : TinyPBProtocol :=
  let i := (msgIdLen F).toNat
  let n := (methodNameLen F).toNat
  { msg_type_ := Int8.ofInt (ofIntBE ((F.drop 5).take 1))
    msg_id_ := (F.drop 10).take i
    method_name_ := (F.drop (14 + i)).take n
    error_code_ := Int32.ofInt (ofIntBE ((F.drop (14 + i + n)).take 4))
    pb_data_ := (F.drop (18 + i + n)).take (F.length - 23 - i - n)
    check_sum_ := Int32.ofInt (ofIntBE ((F.drop (F.length - 5)).take 4)) }

/-- A list in two pieces, from some position on. -/
theorem drop_eq_take_append (F : Bytes) (k j : ℕ) :
    F.drop k = (F.drop k).take j ++ F.drop (k + j) := by
  rw [← List.drop_drop, List.take_append_drop]

/-- Bytes are those of the integer that is read from them. -/
theorem intBE_ofIntBE_take {F : Bytes} {k j : ℕ} (h : k + j ≤ F.length) :
    intBE j (ofIntBE ((F.drop k).take j)) = (F.drop k).take j := by
  have hlen : ((F.drop k).take j).length = j := by
    rw [List.length_take, List.length_drop]
    omega
  have hbytes := intBE_ofIntBE ((F.drop k).take j)
  rwa [hlen] at hbytes

theorem toInt_int32_ofIntBE {F : Bytes} {k : ℕ} (h : k + 4 ≤ F.length) :
    (Int32.ofInt (ofIntBE ((F.drop k).take 4))).toInt = ofIntBE ((F.drop k).take 4) := by
  have hlen : ((F.drop k).take 4).length = 4 := by
    rw [List.length_take, List.length_drop]
    omega
  rw [Int32.toInt_ofInt, ofIntBE, hlen]
  exact Int.bmod_bmod

theorem toInt_int8_ofIntBE {F : Bytes} {k : ℕ} (h : k + 1 ≤ F.length) :
    (Int8.ofInt (ofIntBE ((F.drop k).take 1))).toInt = ofIntBE ((F.drop k).take 1) := by
  have hlen : ((F.drop k).take 1).length = 1 := by
    rw [List.length_take, List.length_drop]
    omega
  rw [Int8.toInt_ofInt, ofIntBE, hlen]
  exact Int.bmod_bmod

/-- **A frame whose lengths fit is the frame of the message in it.** -/
theorem frame_unframe {F : Bytes} (hF : Delimited F) (hfit : ¬ Misfit F) :
    frame (unframe F) = F := by
  have hmax := hF.length_le
  obtain ⟨i, hi⟩ : ∃ i : ℕ, msgIdLen F = i :=
    Int.eq_ofNat_of_zero_le (by unfold Misfit at hfit; omega)
  obtain ⟨n, hn⟩ : ∃ n : ℕ, methodNameLen F = n :=
    Int.eq_ofNat_of_zero_le (by unfold Misfit at hfit; omega)
  have hlen : 23 + i + n ≤ F.length := by unfold Misfit at hfit; omega
  obtain ⟨d, hd⟩ : ∃ d, F.length = 23 + i + n + d := ⟨_, (Nat.add_sub_of_le hlen).symm⟩
  have hid : ((F.drop 10).take i).length = i := by
    rw [List.length_take, List.length_drop]
    omega
  have hname : ((F.drop (14 + i)).take n).length = n := by
    rw [List.length_take, List.length_drop]
    omega
  have hdata : ((F.drop (18 + i + n)).take (F.length - 23 - i - n)).length = d := by
    rw [List.length_take, List.length_drop]
    omega
  have hlength : frameLength (unframe F) = F.length := by
    rw [unframe, frameLength, hi, hn]
    show 3 + 4 * 5 + ((F.drop 10).take i).length + ((F.drop (14 + i)).take n).length
      + ((F.drop (18 + i + n)).take (F.length - 23 - i - n)).length = _
    rw [hid, hname, hdata]
    omega
  have hfirst : F = [PB_START] ++ F.drop 1 := by
    cases F with
    | nil => cases hF.start
    | cons x F => exact congrArg (· :: F) (Option.some.inj hF.start)
  have hlast : F.drop (F.length - 1) = [PB_END] := by
    rw [List.drop_eq_getElem_cons (by omega), List.drop_of_length_le (by omega)]
    have hget := hF.last
    rw [List.getElem?_eq_getElem (by omega)] at hget
    rw [Option.some.inj hget]
  have hsum : F.length - 5 = 18 + i + n + d := by omega
  have hrest : F.length - 23 - i - n = d := by omega
  -- the fields, one after another
  rw [frame, hlength]
  simp only [unframe, hi, hn, Int.toNat_natCast]
  rw [hid, hname, hrest, hsum, toInt_int32_ofNat hmax, toInt_int32_ofNat (by omega),
    toInt_int32_ofNat (by omega), toInt_int32_ofIntBE (by omega),
    toInt_int32_ofIntBE (by omega), toInt_int8_ofIntBE (by omega), ← hF.length, ← hi, ← hn,
    msgIdLen, methodNameLen, hi, Int.toNat_natCast, intBE_ofIntBE_take (by omega),
    intBE_ofIntBE_take (by omega), intBE_ofIntBE_take (by omega), intBE_ofIntBE_take (by omega),
    intBE_ofIntBE_take (by omega), intBE_ofIntBE_take (by omega)]
  refine (hfirst.trans (congrArg (HAppend.hAppend _) ?_)).symm
  refine (drop_eq_take_append F 1 4).trans (congrArg (HAppend.hAppend _) ?_)
  refine (drop_eq_take_append F 5 1).trans (congrArg (HAppend.hAppend _) ?_)
  refine (drop_eq_take_append F 6 4).trans (congrArg (HAppend.hAppend _) ?_)
  refine (drop_eq_take_append F 10 i).trans (congrArg (HAppend.hAppend _) ?_)
  refine (drop_eq_take_append F (10 + i) 4).trans (congrArg (HAppend.hAppend _) ?_)
  rw [show 10 + i + 4 = 14 + i by omega]
  refine (drop_eq_take_append F (14 + i) n).trans (congrArg (HAppend.hAppend _) ?_)
  refine (drop_eq_take_append F (14 + i + n) 4).trans (congrArg (HAppend.hAppend _) ?_)
  rw [show 14 + i + n + 4 = 18 + i + n by omega]
  refine (drop_eq_take_append F (18 + i + n) d).trans (congrArg (HAppend.hAppend _) ?_)
  refine (drop_eq_take_append F (18 + i + n + d) 4).trans (congrArg (HAppend.hAppend _) ?_)
  rw [show 18 + i + n + d + 4 = F.length - 1 by omega, hlast]

/-- The length that is stated behind a `PB_START`. -/
def statedLength (bs : Bytes) : ℤ := ofIntBE ((bs.drop 1).take 4)

/-- **What `decode` makes of the bytes in front of it.** -/
def look (limit : ℕ) (bs : Bytes) : Verdict TinyPBProtocol :=
  if bs[0]? ≠ some PB_START then .skip
  else if bs.length < 5 then .wait
  else if statedLength bs < 2 ∨ limit < statedLength bs then .bad
  else if bs.length < (statedLength bs).toNat then .wait
  else if bs[(statedLength bs).toNat - 1]? ≠ some PB_END then .skip
  else if Misfit (bs.take (statedLength bs).toNat) then .bad
  else .take (received (unframe (bs.take (statedLength bs).toNat))) (statedLength bs).toNat

/-- **Bytes that pass the tests of the scan**: a `PB_START`, and a length that
is within bounds. -/
structure Stated (limit : ℕ) (bs : Bytes) (L : ℕ) : Prop where
  start : bs[0]? = some PB_START
  five_le : 5 ≤ bs.length
  length : statedLength bs = L
  two_le : 2 ≤ L
  le_limit : L ≤ limit

/-- **The verdicts, one by one.** -/
inductive LookCases (limit : ℕ) (bs : Bytes) : Verdict TinyPBProtocol → Prop
  | noise (h : bs[0]? ≠ some PB_START) : LookCases limit bs .skip
  | header (h : bs[0]? = some PB_START) (hlen : bs.length < 5) : LookCases limit bs .wait
  | stray : LookCases limit bs .bad
  | incomplete {L : ℕ} (h : Stated limit bs L) (hlen : bs.length < L) : LookCases limit bs .wait
  | rejected {L : ℕ} (h : Stated limit bs L) (hlen : L ≤ bs.length)
    (hend : bs[L - 1]? ≠ some PB_END) : LookCases limit bs .skip
  | frame {L : ℕ} (h : Stated limit bs L) (hlen : L ≤ bs.length)
    (hend : bs[L - 1]? = some PB_END) (hfit : ¬ Misfit (bs.take L)) :
    LookCases limit bs (.take (received (unframe (bs.take L))) L)

theorem look_cases (limit : ℕ) (bs : Bytes) : LookCases limit bs (look limit bs) := by
  unfold look
  split
  case isTrue h => exact .noise h
  case isFalse hstart =>
    have hstart := not_not.mp hstart
    split
    case isTrue h => exact .header hstart h
    case isFalse hfive =>
      split
      case isTrue => exact .stray
      case isFalse hbad =>
        rw [not_or, not_lt, not_lt] at hbad
        obtain ⟨L, hL⟩ := Int.eq_ofNat_of_zero_le (le_trans (by decide) hbad.1)
        have hstated : Stated limit bs L :=
          ⟨hstart, not_lt.mp hfive, hL, by omega, by omega⟩
        rw [hL, Int.toNat_natCast]
        split
        case isTrue h => exact .incomplete hstated h
        case isFalse hlen =>
          split
          case isTrue h => exact .rejected hstated (not_lt.mp hlen) h
          case isFalse hend =>
            split
            case isTrue => exact .stray
            case isFalse hfit => exact .frame hstated (not_lt.mp hlen) (not_not.mp hend) hfit

/-- A length that fits is six or more, as the frame is. -/
theorem Stated.delimited {limit L : ℕ} {bs : Bytes} (h : Stated limit bs L) (hlen : L ≤ bs.length)
    (hend : bs[L - 1]? = some PB_END) (hfit : ¬ Misfit (bs.take L)) : Delimited (bs.take L) := by
  have htake : (bs.take L).length = L := by rw [List.length_take, min_eq_left hlen]
  have h23 : 23 ≤ L := by
    unfold Misfit at hfit
    omega
  refine ⟨by omega, ?_, ?_, ?_⟩
  · rw [List.getElem?_take_of_lt (by omega)]
    exact h.start
  · rw [htake, ← h.length, statedLength, List.drop_take, List.take_take,
      Nat.min_eq_left (by omega)]
  · rw [htake, List.getElem?_take_of_lt (by omega)]
    exact hend

/-- **A verdict other than to wait stands**, whatever comes behind. -/
theorem look_append {limit : ℕ} {bs : Bytes} (more : Bytes) (hwait : look limit bs ≠ .wait)
    (hne : bs ≠ []) : look limit (bs ++ more) = look limit bs := by
  have hpos := List.length_pos_of_ne_nil hne
  have hzero : (bs ++ more)[0]? = bs[0]? := List.getElem?_append_left hpos
  have hle : bs.length ≤ (bs ++ more).length := (List.sublist_append_left bs more).length_le
  unfold look at hwait ⊢
  rw [hzero]
  split
  case isTrue => rfl
  case isFalse hstart =>
    rw [if_neg hstart] at hwait
    have hfive : ¬ bs.length < 5 := fun h => hwait (if_pos h)
    have hstated : statedLength (bs ++ more) = statedLength bs := by
      rw [statedLength, statedLength, List.drop_append_of_le_length (by omega),
        List.take_append_of_le_length (by rw [List.length_drop]; omega)]
    rw [if_neg hfive] at hwait ⊢
    rw [if_neg (fun h => hfive (hle.trans_lt h)), hstated]
    split
    case isTrue => rfl
    case isFalse hbad =>
      rw [if_neg hbad] at hwait
      have hlen : ¬ bs.length < (statedLength bs).toNat := fun h => hwait (if_pos h)
      rw [not_or, not_lt] at hbad
      rw [if_neg hlen, if_neg (fun h => hlen (hle.trans_lt h)),
        List.getElem?_append_left (by omega), List.take_append_of_le_length (not_lt.mp hlen)]

/-- **`decode`, as a reader of a stream.** -/
def reader (limit : ℕ) : Reader UInt8 TinyPBProtocol where
  look := look limit
  take_le := by
    intro bs m n h
    have hcases := look_cases limit bs
    rw [h] at hcases
    cases hcases with
    | frame hstated hlen => exact ⟨lt_of_lt_of_le (by decide) hstated.two_le, hlen⟩
  stable := look_append

/-! ## The scan -/

/-- The scan passes over the indices that it finds nothing at. -/
theorem scanLoop_next {buf : Bytes} {n : ℤ} {p k : ℕ} {s : ℕ} (hk : p ≤ k)
    (h : ∀ j < p, scanStep ov buf n (s + j : ℕ) = .ok .next) :
    scanLoop ov buf n k s = scanLoop ov buf n (k - p) (s + p : ℕ) := by
  induction p generalizing k s with
  | zero => rfl
  | succ p ih =>
    obtain ⟨k, rfl⟩ := Nat.exists_eq_add_of_lt (Nat.lt_of_lt_of_le p.succ_pos hk)
    have hs : scanStep ov buf n s = .ok .next := h 0 p.succ_pos
    rw [zero_add] at hk ⊢
    rw [scanLoop, hs, ok_bind]
    show scanLoop ov buf n k (s + 1 : ℕ) = _
    rw [ih (Nat.le_of_succ_le_succ hk), Nat.add_sub_add_right, Nat.add_assoc, Nat.add_comm 1 p]
    intro j hj
    rw [Nat.add_assoc, Nat.add_comm 1 j]
    exact h (j + 1) (Nat.succ_lt_succ hj)

section Scan

variable (hfits : b.writeIndex_ + limit ≤ 2147483647)

include hfits

theorem scanTo_of_le : scanTo b = b.writeIndex_ :=
  toInt_of_inInt ⟨by unfold Buffer.getWriteIndex; omega, by unfold Buffer.getWriteIndex; omega⟩

/-- **What the scan does at an index** is what is made of the bytes there. -/
theorem scanStep_of_look (ov : Overflow) {j : ℕ} (hj : j < b.readableBytes) :
    (look limit (b.readable.drop j) = .skip →
      scanStep ov b.getBuffer (scanTo b) (b.readIndex_ + j : ℕ) = .ok .next) ∧
    (look limit (b.readable.drop j) = .wait →
      scanStep ov b.getBuffer (scanTo b) (b.readIndex_ + j : ℕ) = .ok .incomplete) ∧
    (∀ m n, look limit (b.readable.drop j) = .take m n →
      scanStep ov b.getBuffer (scanTo b) (b.readIndex_ + j : ℕ)
        = .ok (.frame ((b.readIndex_ + j : ℕ) + (n : ℤ) - 1))) := by
  have hread := b.read_le_write
  have hbytes : b.readableBytes = b.writeIndex_ - b.readIndex_ := rfl
  have hTo := scanTo_of_le hfits
  have hlen : (b.readable.drop j).length = b.readableBytes - j := by
    rw [List.length_drop, Buffer.length_readable]
  -- the bytes that the scan looks at
  have hbyte : ∀ {k : ℕ} {x : UInt8}, (b.readable.drop j)[k]? = some x →
      byteAt b.getBuffer (b.readIndex_ + (j + k) : ℕ) = .ok x := by
    intro k x hx
    rw [List.getElem?_drop] at hx
    exact byteAt_readable hx
  have hheader : toSizeT (b.readIndex_ + j : ℕ) + 4 < toSizeT (scanTo b)
      ↔ 5 ≤ (b.readable.drop j).length := by
    rw [hTo, toSizeT_natCast (by omega), toSizeT_natCast (by omega), hlen]
    omega
  have hstep : ∀ {L : ℕ}, Stated limit (b.readable.drop j) L →
      scanStep ov b.getBuffer (scanTo b) (b.readIndex_ + j : ℕ)
        = (if (b.readable.drop j).length < L then .ok .incomplete else do
          if (← byteAt b.getBuffer ((b.readIndex_ + j : ℕ) + (L : ℤ) - 1)) = PB_END then
            return .frame ((b.readIndex_ + j : ℕ) + (L : ℤ) - 1)
          else return .next) := by
    intro L h
    have hfive := h.five_le
    have hle := h.le_limit
    have htwo := h.two_le
    have hlength : int32At b.getBuffer ((b.readIndex_ + j : ℕ) + 1) = .ok (L : ℤ) := by
      rw [← h.length, statedLength, List.drop_drop]
      exact int32At_readable (i := j + 1) (by omega)
    have hstart : byteAt b.getBuffer (b.readIndex_ + j : ℕ) = .ok PB_START := hbyte h.start
    rw [scanStep_exact ov hstart (hheader.mpr hfive) hlength (by omega) (by omega)]
    refine if_congr ?_ rfl rfl
    rw [hTo]
    omega
  have hcases := look_cases limit (b.readable.drop j)
  refine ⟨fun h => ?_, fun h => ?_, fun m n h => ?_⟩
  · rw [h] at hcases
    cases hcases with
    | noise hne =>
      have hget : (b.readable.drop j)[0]? = some (b.readable.drop j)[0] :=
        List.getElem?_eq_getElem (by omega)
      have hx : byteAt b.getBuffer (b.readIndex_ + j : ℕ) = .ok (b.readable.drop j)[0] :=
        hbyte hget
      exact scanStep_of_ne hx (fun heq => hne (hget.trans (congrArg some heq)))
    | @rejected L hstated hL hend =>
      have htwo := hstated.two_le
      have hget : (b.readable.drop j)[L - 1]? = some (b.readable.drop j)[L - 1] :=
        List.getElem?_eq_getElem (by omega)
      have hx := hbyte hget
      rw [show ((b.readIndex_ + (j + (L - 1)) : ℕ) : ℤ) = (b.readIndex_ + j : ℕ) + (L : ℤ) - 1 by
        omega] at hx
      rw [hstep hstated, if_neg (not_lt.mpr hL), hx, ok_bind, if_neg]
      · rfl
      · exact fun heq => hend (hget.trans (congrArg some heq))
  · rw [h] at hcases
    cases hcases with
    | header hget hfive =>
      have hstart : byteAt b.getBuffer (b.readIndex_ + j : ℕ) = .ok PB_START := hbyte hget
      exact scanStep_of_header hstart (fun hlt => absurd (hheader.mp hlt) (by omega))
    | incomplete hstated hL => rw [hstep hstated, if_pos hL]
  · rw [h] at hcases
    cases hcases with
    | frame hstated hL hend _ =>
      have htwo := hstated.two_le
      have hx := hbyte hend
      rw [show ((b.readIndex_ + (j + (n - 1)) : ℕ) : ℤ) = (b.readIndex_ + j : ℕ) + (n : ℤ) - 1 by
        omega] at hx
      rw [hstep hstated, if_neg (not_lt.mpr hL), hx, ok_bind, if_pos rfl]
      rfl

/-- **The scan, behind the bytes that it drops.** -/
theorem scan_dropped (ov : Overflow) {q : ℕ} (hq : q ≤ b.readableBytes)
    (hskip : ∀ j < q, look limit (b.readable.drop j) = .skip) :
    scan ov b
      = scanLoop ov b.getBuffer (scanTo b) (b.readableBytes - q) (b.readIndex_ + q : ℕ) := by
  have hread := b.read_le_write
  have hbytes : b.readableBytes = b.writeIndex_ - b.readIndex_ := rfl
  have hk : (scanTo b - b.readIndex_).toNat = b.readableBytes := by
    rw [scanTo_of_le hfits]
    omega
  rw [scan, scanFrom_eq (by omega), hk]
  exact scanLoop_next hq fun j hj =>
    (scanStep_of_look hfits ov (lt_of_lt_of_le hj hq)).1 (hskip j hj)

/-- **A round of `decode` takes a message**, behind the bytes that it drops. -/
theorem decodeRound_take (ov : Overflow) {dropped left : Bytes} {m : TinyPBProtocol} {n : ℕ}
    (hsplit : b.readable = dropped ++ left)
    (hskip : ∀ j < dropped.length, look limit (b.readable.drop j) = .skip) (hne : left ≠ [])
    (htake : look limit left = .take m n) :
    ∃ b', decodeRound ov b = .ok (some m, b') ∧ b'.readable = left.drop n := by
  have hread := b.read_le_write
  have hbytes : b.readableBytes = b.writeIndex_ - b.readIndex_ := rfl
  have hlen := congrArg List.length hsplit
  rw [Buffer.length_readable, List.length_append] at hlen
  have hdrop : b.readable.drop dropped.length = left := by rw [hsplit, List.drop_left]
  have hscan := scan_dropped hfits ov (by omega) hskip
  have hpos := List.length_pos_of_ne_nil hne
  have hstep := (scanStep_of_look hfits ov (j := dropped.length) (by omega)).2.2 m n
    ((congrArg (look limit) hdrop).trans htake)
  rw [show b.readableBytes - dropped.length = left.length - 1 + 1 by omega, scanLoop, hstep]
    at hscan
  -- what is taken is the frame of what is in it
  have hcases := look_cases limit left
  rw [htake] at hcases
  cases hcases with
  | frame hstated hn hend hfit =>
    have hle := hstated.le_limit
    have hframe := frame_unframe (hstated.delimited hn hend hfit) hfit
    have hlength : frameLength (unframe (left.take n)) = n := by
      rw [← length_frame, hframe, List.length_take, min_eq_left hn]
    have hfront : b.readable.drop dropped.length
        = frame (unframe (left.take n)) ++ left.drop n := by
      rw [hdrop, hframe, List.take_append_drop]
    rw [← hlength] at hscan
    obtain ⟨b', hb', hleft, -⟩ := decodeRound_frame (by omega) hfront hscan
    exact ⟨b', hb', hleft⟩

/-- **One round of `decode`** is one message of the reader, or its end. -/
theorem decodeRound_reads (ov : Overflow) {ms : List TinyPBProtocol} {rest : Bytes}
    (h : Reads (reader limit) b.readable ms rest) :
    (ms = [] ∧ ∃ b', decodeRound ov b = .ok (none, b') ∧ b'.readable = rest) ∨
      ∃ m ms' b', ms = m :: ms' ∧ decodeRound ov b = .ok (some m, b') ∧
        Reads (reader limit) b'.readable ms' rest := by
  have hread := b.read_le_write
  have hbytes : b.readableBytes = b.writeIndex_ - b.readIndex_ := rfl
  obtain ⟨dropped, left, hsplit, hskip, hleft⟩ := h.front
  have hlen := congrArg List.length hsplit
  rw [Buffer.length_readable, List.length_append] at hlen
  have hdrop : b.readable.drop dropped.length = left := by rw [hsplit, List.drop_left]
  have hscan := scan_dropped hfits ov (by omega) hskip
  rcases hleft with ⟨rfl, rfl, rfl⟩ | ⟨hne, hwait, rfl, hrest⟩ | ⟨m, n, ms', hne, htake, rfl, hrest⟩
  · -- all of it is dropped
    rw [show b.readableBytes - dropped.length = 0 by rw [hlen]; exact Nat.sub_self _] at hscan
    obtain ⟨b', hb', hdropped, -⟩ := decodeRound_none (by omega) (by omega) hscan
    exact .inl ⟨rfl, b', hb', hdropped.trans hdrop⟩
  · have hpos := List.length_pos_of_ne_nil hne
    have hstep := (scanStep_of_look hfits ov (j := dropped.length) (by omega)).2.1
      ((congrArg (look limit) hdrop).trans hwait)
    rw [show b.readableBytes - dropped.length = left.length - 1 + 1 by omega, scanLoop, hstep]
      at hscan
    obtain ⟨b', hb', hdropped, -⟩ := decodeRound_none (by omega) (by omega) hscan
    exact .inl ⟨rfl, b', hb', hdropped.trans (hdrop.trans hrest.symm)⟩
  · obtain ⟨b', hb', hleft⟩ := decodeRound_take hfits ov hsplit hskip hne htake
    exact .inr ⟨m, ms', b', rfl, hb', hleft ▸ hrest⟩

end Scan

/-! ## The whole of `decode` -/

/-- **`decode` is the reader**: it gives out the messages that are read from
the readable bytes, and leaves what is left of them. -/
theorem decode_reads (ov : Overflow) {ms : List TinyPBProtocol} {rest : Bytes}
    (hfits : b.writeIndex_ + limit ≤ 2147483647) (h : Reads (reader limit) b.readable ms rest) :
    ∃ b', decode ov b = .ok (ms, b') ∧ b'.readable = rest := by
  induction ms generalizing b with
  | nil =>
    rcases decodeRound_reads hfits ov h with ⟨-, b', hb', hrest⟩ | ⟨_, _, _, hms, -⟩
    · exact ⟨b', Loop.untilNone_of_none hb', hrest⟩
    · cases hms
  | cons m ms ih =>
    rcases decodeRound_reads hfits ov h with ⟨hms, -⟩ | ⟨m', ms', b₁, hms, hb₁, hrest⟩
    · cases hms
    · obtain ⟨rfl, rfl⟩ := List.cons.inj hms
      have hw := (decodeRound_consumed hb₁).write
      obtain ⟨b', hb', hleft⟩ := ih (by omega) hrest
      exact ⟨b', Loop.untilNone_of_some hb₁ hb', hleft⟩

/-- **What is read from the front is given out first**, whatever comes behind:
also where the reading goes astray there. -/
theorem decode_reads_prefix (ov : Overflow) {b' : Buffer} {out ms : List TinyPBProtocol}
    {whole more rest : Bytes} (hfits : b.writeIndex_ + limit ≤ 2147483647)
    (h : Reads (reader limit) whole ms rest) (hread : b.readable = whole ++ more)
    (hd : decode ov b = .ok (out, b')) : ms <+: out := by
  induction ms generalizing b whole out with
  | nil => exact List.nil_prefix
  | cons m ms ih =>
    obtain ⟨dropped, left, rfl, hskip, hleft⟩ := h.front
    rcases hleft with ⟨-, hms, -⟩ | ⟨-, -, hms, -⟩ | ⟨m', n, ms', hne, htake, hms, hrest⟩
    · cases hms
    · cases hms
    · obtain ⟨rfl, rfl⟩ := List.cons.inj hms
      -- the verdicts on the front stand
      have hskip' : ∀ j < dropped.length, look limit (b.readable.drop j) = .skip := by
        intro j hj
        have hlt : j < (dropped ++ left).length := by
          rw [List.length_append]
          exact Nat.lt_add_right _ hj
        have hne : (dropped ++ left).drop j ≠ [] := List.drop_eq_nil_iff.not.mpr hlt.not_ge
        rw [hread, List.drop_append_of_le_length hlt.le]
        exact ((reader limit).stable more (fun h => nomatch (hskip j hj).symm.trans h) hne).trans
          (hskip j hj)
      have htake' : look limit (left ++ more) = .take m n :=
        ((reader limit).stable more (fun h => nomatch htake.symm.trans h) hne).trans htake
      obtain ⟨b₁, hround, hleft⟩ := decodeRound_take hfits ov
        (hread.trans (List.append_assoc ..)) hskip' (List.append_ne_nil_of_left_ne_nil hne more)
        htake'
      rw [List.drop_append_of_le_length ((reader limit).take_le htake).2] at hleft
      rcases Loop.untilNone_eq_ok hd with ⟨-, hnone⟩ | ⟨pkg, out', b₂, rfl, hsome, hmore⟩
      · rw [hround] at hnone
        cases hnone
      · rw [hround] at hsome
        obtain ⟨hpkg, rfl⟩ := Prod.mk.inj (Except.ok.inj hsome)
        obtain rfl := Option.some.inj hpkg
        have hw := (decodeRound_consumed hround).write
        exact List.cons_prefix_cons.mpr ⟨rfl, ih (by omega) hrest hleft hmore⟩

/-! ## Chunk by chunk -/

end TinyPBCoder
end PbRpc
