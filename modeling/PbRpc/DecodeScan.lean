import PbRpc.TinyPBCoder

/-!
# The scan of `decode`

The scan reads a length from the wire, adds it to the index it is at and
looks for a `PB_END` there, testing the result against the write index and
nothing else. The length is a signed 32-bit number that the peer chose.

`ScanSafe` says what a reader expects of this: at every `PB_START` the scan
examines, the end of the frame is computed without overflow, and the byte
that is tested as its `PB_END` lies between the `PB_START` and the write
index. It holds exactly when the lengths do not deceive the scan
(`scanSafe_iff`), which nothing in the code makes sure of: a length of `1`
or less points at the `PB_START` itself, at a byte consumed before, or in
front of the vector, and a large one overflows. One `decode` scans once in
every round, from what the round before has left, and the same holds of each
(`scansFrom_safe_iff`).

The second half runs the scan where the bytes are those of an encoder:
over noise, up to the first byte of something `Delimited` – a frame, whole
or not, as far as the scan is concerned.
-/

namespace PbRpc
namespace TinyPBCoder

open BigEndian TinyPBProtocol

variable {ov : Overflow} {b : Buffer}

/-! ## The bytes the scan reads -/

theorem byteAt_nonneg {buf : Bytes} {i : ℤ} {x : UInt8} (h : byteAt buf i = .ok x) : 0 ≤ i := by
  unfold byteAt at h
  split at h
  · assumption
  · cases h

theorem byteAt_natCast (buf : Bytes) (i : ℕ) {x : UInt8} (h : buf[i]? = some x) :
    byteAt buf i = .ok x := by
  rw [byteAt, if_pos (Int.natCast_nonneg i), Int.toNat_natCast, h]

/-- Every index inside the vector can be read. -/
theorem byteAt_of_lt {buf : Bytes} {i : ℤ} (h : 0 ≤ i) (hi : i < buf.length) :
    ∃ x, byteAt buf i = .ok x := by
  obtain ⟨j, rfl⟩ := Int.eq_ofNat_of_zero_le h
  have hj : j < buf.length := by omega
  exact ⟨buf[j], byteAt_natCast buf j (List.getElem?_eq_getElem hj)⟩

/-- An index in front of the vector cannot. -/
theorem byteAt_of_neg {buf : Bytes} {i : ℤ} (h : i < 0) : byteAt buf i = .error .outOfRange :=
  if_neg (by omega)

theorem byteAt_readable {i : ℕ} {x : UInt8} (h : b.readable[i]? = some x) :
    byteAt b.getBuffer (b.readIndex_ + i : ℕ) = .ok x := by
  have hi : i < b.readableBytes := by
    rw [← Buffer.length_readable]
    exact (List.getElem?_eq_some_iff.mp h).1
  refine byteAt_natCast _ _ ?_
  rw [Buffer.getBuffer, ← b.readable_getElem? hi, h]

/-- What the scan reads at an index is the readable byte there. -/
theorem readable_of_byteAt {i : ℕ} {x : UInt8} (hi : i < b.readableBytes)
    (h : byteAt b.getBuffer (b.readIndex_ + i : ℕ) = .ok x) : b.readable[i]? = some x := by
  have hi' : i < b.readable.length := by rwa [Buffer.length_readable]
  rw [byteAt_readable (List.getElem?_eq_getElem hi')] at h
  rw [List.getElem?_eq_getElem hi']
  cases h
  rfl

theorem int32At_of_le {buf : Bytes} {i : ℤ} (h : 0 ≤ i) (hi : i + 4 ≤ buf.length) :
    int32At buf i = .ok (ofIntBE ((buf.drop i.toNat).take 4)) :=
  if_pos ⟨h, by omega⟩

theorem int32At_readable {i : ℕ} (h : i + 4 ≤ b.readableBytes) :
    int32At b.getBuffer (b.readIndex_ + i : ℕ) = .ok (ofIntBE ((b.readable.drop i).take 4)) := by
  have hw := b.write_le_size
  unfold Buffer.readableBytes at h
  rw [int32At_of_le (Int.natCast_nonneg _) (by unfold Buffer.getBuffer; omega),
    Int.toNat_natCast, Buffer.getBuffer, Buffer.readable, List.drop_take, List.take_take,
    List.drop_drop, Nat.min_eq_left (by unfold Buffer.readableBytes; omega)]

/-- The scan does not look past the write index. -/
theorem scanTo_le (b : Buffer) : scanTo b ≤ b.writeIndex_ :=
  toInt_le_self (Int.natCast_nonneg _)

theorem scanTo_lt (b : Buffer) : scanTo b ≤ 2147483647 := (inInt_toInt _).2

/-! ## One index -/

theorem scanStep_of_ne {buf : Bytes} {n i : ℤ} {x : UInt8} (h : byteAt buf i = .ok x)
    (hx : x ≠ PB_START) : scanStep ov buf n i = .ok .next := by
  unfold scanStep
  rw [h, ok_bind, if_neg hx]
  rfl

/-- **What the scan does at a `PB_START`**, once the length can be read. -/
theorem scanStep_of_start (ov : Overflow) {buf : Bytes} {n i L : ℤ} (h : byteAt buf i = .ok PB_START)
    (hn : toSizeT i + 4 < toSizeT n) (hL : int32At buf (i + 1) = .ok L) :
    scanStep ov buf n i = (do
      let e ← ov.int (i + L)
      let e ← ov.int (e - 1)
      if e ≥ n then return .incomplete
      else if (← byteAt buf e) = PB_END then return .frame e
      else return .next) := by
  unfold scanStep
  rw [h, ok_bind, if_pos rfl, if_pos hn, hL, ok_bind]

theorem scanStep_of_header {buf : Bytes} {n i : ℤ} (h : byteAt buf i = .ok PB_START)
    (hn : ¬ toSizeT i + 4 < toSizeT n) : scanStep ov buf n i = .ok .incomplete := by
  unfold scanStep
  rw [h, ok_bind, if_pos rfl, if_neg hn]
  rfl

/-- Where the length is at least `2` and does not overflow, the end of the
frame is the exact one. -/
theorem scanStep_exact (ov : Overflow) {buf : Bytes} {n i L : ℤ} (h : byteAt buf i = .ok PB_START)
    (hn : toSizeT i + 4 < toSizeT n) (hL : int32At buf (i + 1) = .ok L)
    (h2 : 2 ≤ L) (hmax : i + L ≤ 2147483647) :
    scanStep ov buf n i = (if i + L - 1 ≥ n then .ok .incomplete else do
      if (← byteAt buf (i + L - 1)) = PB_END then return .frame (i + L - 1)
      else return .next) := by
  have hi := byteAt_nonneg h
  rw [scanStep_of_start ov h hn hL, ov.int_of_inInt ⟨by omega, hmax⟩, ok_bind,
    ov.int_of_inInt ⟨by omega, by omega⟩, ok_bind]
  rfl

/-- **The three outcomes at a `PB_START`** with a length of at least `2`: the
frame reaches past what is scanned, it ends there and its last byte decides,
or its end is no `int` and there is nothing to go on with. -/
theorem scanStep_cases (ov : Overflow) {buf : Bytes} {n i L : ℤ} (h : byteAt buf i = .ok PB_START)
    (hn : toSizeT i + 4 < toSizeT n) (hL : int32At buf (i + 1) = .ok L)
    (h2 : 2 ≤ L) (hLmax : L ≤ 2147483647) (hnmax : n ≤ 2147483647) (hin : i < n) :
    (n ≤ i + L - 1 ∧ scanStep ov buf n i = .ok .incomplete)
      ∨ (i + L - 1 < n ∧ i + L ≤ 2147483647
        ∧ scanStep ov buf n i = (do
            if (← byteAt buf (i + L - 1)) = PB_END then return .frame (i + L - 1)
            else return .next))
      ∨ (2147483647 < i + L ∧ ∃ e, scanStep ov buf n i = .error e) := by
  have h0 := byteAt_nonneg h
  by_cases hmax : i + L ≤ 2147483647
  · have hx := scanStep_exact ov h hn hL h2 hmax
    by_cases hinc : i + L - 1 ≥ n
    · rw [if_pos hinc] at hx
      exact Or.inl ⟨hinc, hx⟩
    · rw [if_neg hinc] at hx
      exact Or.inr (Or.inl ⟨by omega, hmax, hx⟩)
  · have hx := scanStep_of_start ov h hn hL
    have hout : ¬ InInt (i + L) := fun hi => hmax hi.2
    cases ov with
    | trap =>
      rw [Overflow.int, if_neg hout] at hx
      exact Or.inr (Or.inr ⟨by omega, _, hx⟩)
    | wrap =>
      have hv : toInt (i + L) = i + L - 4294967296 := by
        rw [toInt, Int.bmod_def]
        omega
      rw [Overflow.int, if_neg hout] at hx
      simp only [ok_bind, hv] at hx
      by_cases hedge : i + L = 2147483648
      · -- the decrement wraps back, and the end is beyond everything written
        have he : toInt (i + L - 4294967296 - 1) = 2147483647 := by
          rw [toInt, Int.bmod_def]
          omega
        rw [Overflow.int, if_neg (by unfold InInt; omega)] at hx
        simp only [ok_bind, he, ge_iff_le, hnmax, if_true] at hx
        exact Or.inl ⟨by omega, hx⟩
      · rw [Overflow.int_of_inInt _ ⟨by omega, by omega⟩, ok_bind, if_neg (by omega),
          byteAt_of_neg (by omega)] at hx
        exact Or.inr (Or.inr ⟨by omega, _, hx⟩)

/-! ## Which frames the scan may recognise -/

/-- A `PB_START` in the scanned range whose length `L` can be read. -/
structure Candidate (b : Buffer) (i L : ℤ) : Prop where
  lower : scanFrom b ≤ i
  upper : i < scanTo b
  start : byteAt b.getBuffer i = .ok PB_START
  header : toSizeT i + 4 < toSizeT (scanTo b)
  length : int32At b.getBuffer (i + 1) = .ok L

/-- **The scan examines the candidate**: it went on at every index before
it. -/
structure Examines (ov : Overflow) (b : Buffer) (i L : ℤ) : Prop extends Candidate b i L where
  reached : ∀ j, scanFrom b ≤ j → j < i → scanStep ov b.getBuffer (scanTo b) j = .ok .next

/-- **The scan is safe**: at every candidate it examines, the end of the
frame is computed without overflow, and when the byte there is tested as
`PB_END` it lies after the `PB_START` and before the write index. -/
def ScanSafe (ov : Overflow) (b : Buffer) : Prop :=
  ∀ i L, Examines ov b i L → InInt (i + L) ∧ InInt (i + L - 1)
    ∧ (i + L - 1 < scanTo b → i < i + L - 1 ∧ i + L - 1 < b.writeIndex_)

/-- The length of the candidate leads to a byte of the buffer that is no
`PB_END`. -/
def Rejected (b : Buffer) (i L : ℤ) : Prop :=
  i + L - 1 < scanTo b ∧ byteAt b.getBuffer (i + L - 1) ≠ .ok PB_END

/-- **The lengths do not deceive the scan**: a candidate behind rejected
ones only has a length of at least `2`, and its end is an `int`. (A read
index that is no `int` makes the scan fault before it examines anything.) -/
def LengthsFit (b : Buffer) : Prop :=
  0 ≤ scanFrom b → ∀ i L, Candidate b i L → (∀ j M, Candidate b j M → j < i → Rejected b j M) →
    2 ≤ L ∧ i + L ≤ 2147483647

/-- A `PB_START` in front of a candidate is a candidate. -/
theorem Candidate.of_lt {i j L : ℤ} (h : Candidate b i L) (hj : scanFrom b ≤ j) (hji : j < i)
    (hs : byteAt b.getBuffer j = .ok PB_START) : ∃ M, Candidate b j M := by
  have h0 := byteAt_nonneg hs
  have hlt := scanTo_lt b
  have hle := scanTo_le b
  have hw := b.write_le_size
  have hu := h.upper
  have hh := h.header
  rw [toSizeT_of_nonneg (by omega) ⟨by omega, by omega⟩,
    toSizeT_of_nonneg (by omega) ⟨by omega, by omega⟩] at hh
  refine ⟨_, hj, by omega, hs, ?_, int32At_of_le (by omega) ?_⟩
  · rw [toSizeT_of_nonneg h0 ⟨by omega, by omega⟩,
      toSizeT_of_nonneg (by omega) ⟨by omega, by omega⟩]
    omega
  · unfold Buffer.getBuffer
    omega

/-- A candidate whose length fits is passed over exactly when it is
rejected. -/
theorem Candidate.next_iff {i L : ℤ} (h : Candidate b i L) (h2 : 2 ≤ L)
    (hmax : i + L ≤ 2147483647) :
    scanStep ov b.getBuffer (scanTo b) i = .ok .next ↔ Rejected b i L := by
  have h0 := byteAt_nonneg h.start
  have hle := scanTo_le b
  have hw := b.write_le_size
  rw [scanStep_exact ov h.start h.header h.length h2 hmax]
  unfold Rejected
  by_cases hn : i + L - 1 ≥ scanTo b
  · rw [if_pos hn]
    refine ⟨fun h => (by cases h), fun h => absurd h.1 (by omega)⟩
  · rw [if_neg hn]
    obtain ⟨x, hx⟩ : ∃ x, byteAt b.getBuffer (i + L - 1) = .ok x :=
      byteAt_of_lt (by omega) (by unfold Buffer.getBuffer; omega)
    rw [hx, ok_bind]
    by_cases hxe : x = PB_END
    · rw [if_pos hxe, hxe]
      refine ⟨fun h => (by cases h), fun h => absurd rfl h.2⟩
    · rw [if_neg hxe]
      refine ⟨fun _ => ⟨by omega, fun h => hxe ?_⟩, fun _ => rfl⟩
      cases h
      rfl

/-- Where the scan is safe, the lengths of the candidates it examines
fit. -/
theorem ScanSafe.fits {i L : ℤ} (hs : ScanSafe ov b) (h : Examines ov b i L) :
    2 ≤ L ∧ i + L ≤ 2147483647 := by
  obtain ⟨hi, _, ht⟩ := hs i L h
  refine ⟨?_, hi.2⟩
  by_cases hn : i + L - 1 < scanTo b
  · have := (ht hn).1
    omega
  · have := h.upper
    omega

/-- A scan that gets anywhere began at an index of the vector. -/
theorem Examines.scanFrom_nonneg {i L : ℤ} (h : Examines ov b i L) : 0 ≤ scanFrom b := by
  by_contra hneg
  have hlow := h.lower
  have hi := byteAt_nonneg h.start
  have hr := h.reached (scanFrom b) le_rfl (by omega)
  unfold scanStep at hr
  rw [byteAt_of_neg (by omega)] at hr
  cases hr

/-- Behind rejected candidates only, a safe scan examines a candidate. -/
theorem ScanSafe.examines (hs : ScanSafe ov b) (h0 : 0 ≤ scanFrom b) {i L : ℤ}
    (h : Candidate b i L) (hrej : ∀ j M, Candidate b j M → j < i → Rejected b j M) :
    Examines ov b i L := by
  have hle := scanTo_le b
  have hw := b.write_le_size
  have hu := h.upper
  have hreach : ∀ k : ℕ, ∀ j, scanFrom b ≤ j → j < scanFrom b + k → j < i →
      scanStep ov b.getBuffer (scanTo b) j = .ok .next := by
    intro k
    induction k with
    | zero => intro j h₁ h₂; omega
    | succ k ih =>
      intro j hj hjk hji
      obtain ⟨x, hx⟩ : ∃ x, byteAt b.getBuffer j = .ok x :=
        byteAt_of_lt (by omega) (by unfold Buffer.getBuffer; omega)
      by_cases hxs : x = PB_START
      · -- an earlier candidate: it is examined, so its length fits
        subst hxs
        obtain ⟨M, hM⟩ := h.of_lt hj hji hx
        have hex : Examines ov b j M :=
          { hM with reached := fun j' h₁ h₂ => ih j' h₁ (by omega) (by omega) }
        obtain ⟨h2, hmax⟩ := hs.fits hex
        exact (hM.next_iff h2 hmax).mpr (hrej j M hM hji)
      · exact scanStep_of_ne hx hxs
  exact { h with
    reached := fun j h₁ h₂ => hreach (j - scanFrom b + 1).toNat j h₁ (by omega) h₂ }

theorem ScanSafe.lengthsFit (hs : ScanSafe ov b) : LengthsFit b :=
  fun h0 _ _ h hrej => hs.fits (hs.examines h0 h hrej)

theorem LengthsFit.scanSafe (hf : LengthsFit b) : ScanSafe ov b := by
  intro i L h
  -- the candidates before an examined one are rejected, one after another
  have hrej : ∀ k : ℕ, ∀ j M, Candidate b j M → j < scanFrom b + k → j < i →
      Rejected b j M := by
    intro k
    induction k with
    | zero => intro j M hM h₁; have := hM.lower; omega
    | succ k ih =>
      intro j M hM hjk hji
      obtain ⟨h2, hmax⟩ := hf h.scanFrom_nonneg j M hM
        (fun j' M' hM' hj' => ih j' M' hM' (by omega) (by omega))
      exact (hM.next_iff h2 hmax).mp (h.reached j hM.lower hji)
  obtain ⟨h2, hmax⟩ := hf h.scanFrom_nonneg i L h.toCandidate (fun j M hM hj => by
    have := hM.lower
    exact hrej (j - scanFrom b + 1).toNat j M hM (by omega) hj)
  have hi := byteAt_nonneg h.start
  have hle := scanTo_le b
  exact ⟨⟨by omega, hmax⟩, ⟨by omega, by omega⟩, fun _ => ⟨by omega, by omega⟩⟩

/-- **When the scan is safe.** -/
theorem scanSafe_iff (ov : Overflow) (b : Buffer) : ScanSafe ov b ↔ LengthsFit b :=
  ⟨ScanSafe.lengthsFit, LengthsFit.scanSafe⟩

/-- **The buffers that the scans of one `decode` start from**: what it is
called with, and what is left by each round that finds a message. -/
inductive ScansFrom (ov : Overflow) (b : Buffer) : Buffer → Prop
  | first : ScansFrom ov b b
  | next {b₁ b₂ : Buffer} {pkg : TinyPBProtocol} (h : ScansFrom ov b b₁)
    (hround : decodeRound ov b₁ = .ok (some pkg, b₂)) : ScansFrom ov b b₂

/-- **When all the scans of one `decode` are safe**: the lengths do not
deceive any of them. -/
theorem scansFrom_safe_iff (ov : Overflow) (b : Buffer) :
    (∀ b₁, ScansFrom ov b b₁ → ScanSafe ov b₁) ↔ ∀ b₁, ScansFrom ov b b₁ → LengthsFit b₁ :=
  forall₂_congr fun _ _ => ⟨ScanSafe.lengthsFit, LengthsFit.scanSafe⟩

/-- Six bytes are enough: the length `0` of the second byte's frame points
at the first byte, which is no part of it. -/
theorem not_scanSafe_stray :
    scan .trap (Buffer.init.writeToBuffer [0x03, 0x02, 0, 0, 0, 0]) = .ok (1, some 0)
      ∧ ¬ ScanSafe .trap (Buffer.init.writeToBuffer [0x03, 0x02, 0, 0, 0, 0]) := by
  refine ⟨by decide +kernel, fun hs => ?_⟩
  have hex : Examines .trap (Buffer.init.writeToBuffer [0x03, 0x02, 0, 0, 0, 0]) 1 0 := {
    lower := by decide +kernel
    upper := by decide +kernel
    start := by decide +kernel
    header := by decide +kernel
    length := by decide +kernel
    reached := by
      intro j h₁ h₂
      have h0 : scanFrom (Buffer.init.writeToBuffer [0x03, 0x02, 0, 0, 0, 0]) = 0 := by
        decide +kernel
      obtain rfl : j = 0 := by omega
      decide +kernel }
  exact absurd ((hs 1 0 hex).2.2 (by decide +kernel)).1 (by decide)

/-! ## A scan that ends -/

/-- **How a scan ended**: it went on at every index before the one it
stopped at, and there it found the end of the range, an incomplete frame or
a frame. -/
theorem scanLoop_eq_ok {buf : Bytes} {n : ℤ} {k : ℕ} {s t : ℤ} {last : Option ℤ}
    (h : scanLoop ov buf n k s = .ok (t, last)) :
    s ≤ t ∧ t ≤ s + k ∧ (∀ j, s ≤ j → j < t → scanStep ov buf n j = .ok .next)
      ∧ (last = none
        ∨ ∃ e, last = some e ∧ t < s + k ∧ scanStep ov buf n t = .ok (.frame e)) := by
  induction k generalizing s with
  | zero =>
    cases h
    exact ⟨le_rfl, by omega, fun j h₁ h₂ => by omega, Or.inl rfl⟩
  | succ k ih =>
    obtain ⟨r, hr, h⟩ := bind_eq_ok.mp h
    cases r with
    | next =>
      obtain ⟨h₁, h₂, h₃, h₄⟩ := ih h
      refine ⟨by omega, by push_cast; omega, ?_, ?_⟩
      · intro j hj hjt
        by_cases hjs : j = s
        · rw [hjs, hr]
        · exact h₃ j (by omega) hjt
      · rcases h₄ with h₄ | ⟨e, h₄, h₅, h₆⟩
        · exact Or.inl h₄
        · exact Or.inr ⟨e, h₄, by push_cast; omega, h₆⟩
    | incomplete =>
      cases h
      exact ⟨le_rfl, by omega, fun j h₁ h₂ => by omega, Or.inl rfl⟩
    | frame e =>
      cases h
      exact ⟨le_rfl, by omega, fun j h₁ h₂ => by omega,
        Or.inr ⟨e, rfl, by push_cast; omega, hr⟩⟩

/-- **What was seen where a frame was found.** -/
theorem scanStep_eq_frame {buf : Bytes} {n i e : ℤ}
    (h : scanStep ov buf n i = .ok (.frame e)) :
    byteAt buf i = .ok PB_START ∧ byteAt buf e = .ok PB_END ∧ e < n
      ∧ ∃ L v, int32At buf (i + 1) = .ok L ∧ ov.int (i + L) = .ok v
        ∧ ov.int (v - 1) = .ok e := by
  unfold scanStep at h
  obtain ⟨x, hx, h⟩ := bind_eq_ok.mp h
  split at h
  case isFalse => cases h
  case isTrue hxs =>
    subst hxs
    split at h
    case isFalse => cases h
    case isTrue =>
      obtain ⟨L, hL, h⟩ := bind_eq_ok.mp h
      obtain ⟨v, hv, h⟩ := bind_eq_ok.mp h
      obtain ⟨e', he', h⟩ := bind_eq_ok.mp h
      split at h
      case isTrue => cases h
      case isFalse hn =>
        obtain ⟨y, hy, h⟩ := bind_eq_ok.mp h
        split at h
        case isFalse => cases h
        case isTrue hye =>
          cases h
          subst hye
          exact ⟨hx, hy, by omega, L, v, hL, hv, he'⟩

theorem inInt_of_int32At {buf : Bytes} {i L : ℤ} (h : int32At buf i = .ok L) : InInt L := by
  unfold int32At at h
  split at h
  case isFalse => cases h
  case isTrue hi =>
    cases h
    have hlen : ((buf.drop i.toNat).take 4).length = 4 := by
      rw [List.length_take, List.length_drop]
      omega
    rw [ofIntBE, hlen, InInt, Int.bmod_def]
    split <;> omega

/-- **Where a frame was found, its end is the exact one**: an end that
overflowed would be no index. -/
theorem scanStep_frame_end {buf : Bytes} {n i e : ℤ} (hn : n ≤ 2147483647) (hin : i < n)
    (h : scanStep ov buf n i = .ok (.frame e)) :
    byteAt buf i = .ok PB_START ∧ byteAt buf e = .ok PB_END ∧ e < n
      ∧ int32At buf (i + 1) = .ok (e - i + 1) := by
  obtain ⟨hs, he, hen, L, v, hL, hv, hve⟩ := scanStep_eq_frame h
  have hi0 := byteAt_nonneg hs
  have he0 := byteAt_nonneg he
  have hLin := inInt_of_int32At hL
  obtain ⟨q₁, h₁⟩ := toInt_congr (i + L)
  obtain ⟨q₂, h₂⟩ := toInt_congr (v - 1)
  rw [← Overflow.int_eq_toInt hv] at h₁
  rw [← Overflow.int_eq_toInt hve] at h₂
  unfold InInt at hLin
  have hLe : L = e - i + 1 := by omega
  exact ⟨hs, he, hen, hLe ▸ hL⟩

/-- A frame is found at an index that was examined. -/
theorem scan_eq_frame {s e : ℤ} (h : scan ov b = .ok (s, some e)) :
    scanFrom b ≤ s ∧ s < scanTo b
      ∧ scanStep ov b.getBuffer (scanTo b) s = .ok (.frame e) := by
  obtain ⟨h₁, h₂, _, h₄⟩ := scanLoop_eq_ok h
  rcases h₄ with h₄ | ⟨e', he, hlt, hf⟩
  · cases h₄
  · cases he
    exact ⟨h₁, by omega, hf⟩

/-! ## A scan over what an encoder wrote -/

/-- **Bytes that look like a frame from outside**: a `PB_START`, their own
number as the length, and a `PB_END` at the end. -/
structure Delimited (F : Bytes) : Prop where
  six_le : 6 ≤ F.length
  start : F[0]? = some PB_START
  length : ofIntBE ((F.drop 1).take 4) = F.length
  last : F[F.length - 1]? = some PB_END

/-- A length field cannot hold more than `INT_MAX`. -/
theorem Delimited.length_le {F : Bytes} (h : Delimited F) : F.length ≤ 2147483647 := by
  have hlt : 2 * ofIntBE ((F.drop 1).take 4) < 256 ^ 4 := by
    have h6 := h.six_le
    have hlen : ((F.drop 1).take 4).length = 4 := by
      rw [List.length_take, List.length_drop]
      omega
    rw [ofIntBE, hlen, Int.bmod_def]
    split <;> omega
  rw [h.length] at hlt
  omega

/-- The loop passes over bytes that are no `PB_START`. -/
theorem scanLoop_noise {buf : Bytes} {n : ℤ} {p : ℕ} : ∀ {k : ℕ} {s : ℤ}, p ≤ k →
    (∀ j, s ≤ j → j < s + p → ∃ x, byteAt buf j = .ok x ∧ x ≠ PB_START) →
    scanLoop ov buf n k s = scanLoop ov buf n (k - p) (s + p) := by
  induction p with
  | zero => intro k s _ _; rw [Nat.sub_zero, Nat.cast_zero, add_zero]
  | succ p ih =>
    intro k s hk h
    obtain ⟨k, rfl⟩ : ∃ k', k = k' + 1 := ⟨k - 1, by omega⟩
    obtain ⟨x, hx, hne⟩ := h s le_rfl (by omega)
    rw [scanLoop, scanStep_of_ne hx hne, ok_bind]
    show scanLoop ov buf n k (s + 1) = _
    rw [ih (by omega) (fun j h₁ h₂ => h j (by omega) (by push_cast; omega)),
      Nat.add_sub_add_right]
    congr 1
    push_cast
    ring

section Encoded

variable {noise F tail fut : Bytes} (hr : b.readIndex_ ≤ 2147483647)
  (hn : ∀ x ∈ noise, x ≠ PB_START)

include hr

theorem scanFrom_eq : scanFrom b = b.readIndex_ :=
  toInt_of_inInt ⟨by have := Int.natCast_nonneg b.readIndex_; unfold Buffer.getReadIndex; omega,
    by unfold Buffer.getReadIndex; omega⟩

omit hr in
/-- What is readable of a longer stream is its beginning. -/
theorem readable_getElem?_of_append {stream : Bytes} (h : b.readable ++ fut = stream) {i : ℕ}
    (hi : i < b.readableBytes) : b.readable[i]? = stream[i]? := by
  rw [← h, List.getElem?_append_left (by rw [Buffer.length_readable]; exact hi)]

include hn

omit hr in
/-- A byte of the noise, as the scan reads it. -/
theorem byteAt_noise {rest : Bytes} (h : b.readable ++ fut = noise ++ rest) {j : ℕ}
    (hj : j < noise.length) (hjr : j < b.readableBytes) :
    ∃ x, byteAt b.getBuffer (b.readIndex_ + j : ℕ) = .ok x ∧ x ≠ PB_START := by
  refine ⟨noise[j], byteAt_readable ?_, hn _ (List.getElem_mem hj)⟩
  rw [readable_getElem?_of_append h hjr, List.getElem?_append_left hj,
    List.getElem?_eq_getElem hj]

/-- Within the noise, the scan gets as far as it looks. -/
theorem scan_noise (ov : Overflow) {rest : Bytes} (h : b.readable ++ fut = noise ++ rest)
    (hp : (scanTo b - b.readIndex_).toNat ≤ noise.length) :
    scan ov b
      = .ok ((b.readIndex_ + (scanTo b - b.readIndex_).toNat : ℕ), none) := by
  have hle := scanTo_le b
  rw [scan, scanFrom_eq hr, scanLoop_noise (p := (scanTo b - b.readIndex_).toNat) le_rfl,
    Nat.sub_self]
  · rw [scanLoop]
    push_cast
    rfl
  · intro j h₁ h₂
    obtain ⟨i, rfl⟩ : ∃ i : ℕ, j = (b.readIndex_ + i : ℕ) :=
      ⟨(j - b.readIndex_).toNat, by omega⟩
    exact byteAt_noise hn h (by omega) (by unfold Buffer.readableBytes; omega)

omit hn hr in
/-- The length field of what follows the noise. -/
theorem int32At_delimited (hF : Delimited F) (h : b.readable ++ fut = noise ++ (F ++ tail))
    (hl : noise.length + 5 ≤ b.readableBytes) :
    int32At b.getBuffer (b.readIndex_ + (noise.length + 1) : ℕ) = .ok (F.length : ℤ) := by
  rw [int32At_readable (by omega), ← hF.length]
  have h6 := hF.six_le
  have hpre : b.readable.drop (noise.length + 1) ++ fut = (F ++ tail).drop 1 := by
    rw [← List.drop_append_of_le_length (by rw [Buffer.length_readable]; omega), h,
      ← List.drop_drop, List.drop_left]
  have htake : (b.readable.drop (noise.length + 1)).take 4 = ((F ++ tail).drop 1).take 4 := by
    rw [← hpre, List.take_append_of_le_length (by
      rw [List.length_drop, Buffer.length_readable]; omega)]
  rw [htake, List.drop_append_of_le_length (by omega), List.take_append_of_le_length (by
    rw [List.length_drop]; omega)]

/-- Behind the noise, the scan depends on what it does at the index it
arrives at. -/
theorem scan_behind_noise (ov : Overflow) {rest : Bytes} (h : b.readable ++ fut = noise ++ rest)
    (hp : (b.readIndex_ + noise.length : ℕ) < scanTo b) :
    ∃ k, scan ov b = (do
      match ← scanStep ov b.getBuffer (scanTo b) (b.readIndex_ + noise.length : ℕ) with
      | .next => scanLoop ov b.getBuffer (scanTo b) k ((b.readIndex_ + noise.length : ℕ) + 1)
      | .incomplete => return (((b.readIndex_ + noise.length : ℕ) : ℤ), none)
      | .frame e => return (((b.readIndex_ + noise.length : ℕ) : ℤ), some e)) := by
  have hle := scanTo_le b
  have hrB : b.readableBytes = b.writeIndex_ - b.readIndex_ := rfl
  obtain ⟨k, hk⟩ : ∃ k, (scanTo b - b.readIndex_).toNat - noise.length = k + 1 :=
    ⟨(scanTo b - b.readIndex_).toNat - noise.length - 1, by omega⟩
  refine ⟨k, ?_⟩
  rw [scan, scanFrom_eq hr, scanLoop_noise (p := noise.length) (by omega) (fun j h₁ h₂ => ?_),
    hk, ← Nat.cast_add]
  · rfl
  · obtain ⟨i, rfl⟩ : ∃ i : ℕ, j = (b.readIndex_ + i : ℕ) :=
      ⟨(j - b.readIndex_).toNat, by omega⟩
    exact byteAt_noise hn h (by omega) (by omega)

/-- **What the scan finds behind noise**: nothing yet; the frame, whole; or
an overflow, when the frame does not end within the range of `int`. -/
theorem scan_delimited (ov : Overflow) (hF : Delimited F) (h : b.readable ++ fut = noise ++ (F ++ tail)) :
    (∃ q, q ≤ noise.length ∧ q ≤ b.readableBytes ∧ b.readIndex_ + q ≤ 2147483647
        ∧ scan ov b = .ok ((b.readIndex_ + q : ℕ), none)
        ∧ (b.writeIndex_ ≤ 2147483647 → b.readableBytes < noise.length + F.length))
      ∨ (noise.length + F.length ≤ b.readableBytes
        ∧ b.readIndex_ + noise.length + F.length ≤ 2147483647
        ∧ scan ov b = .ok ((b.readIndex_ + noise.length : ℕ),
            some ((b.readIndex_ + noise.length : ℕ) + F.length - 1)))
      ∨ (2147483647 < b.readIndex_ + noise.length + F.length
        ∧ ∃ e, scan ov b = .error e) := by
  have h6 := hF.six_le
  have hmaxF := hF.length_le
  have hle := scanTo_le b
  have hlt := scanTo_lt b
  have hread := b.read_le_write
  have hrB : b.readableBytes = b.writeIndex_ - b.readIndex_ := rfl
  have hW : b.writeIndex_ ≤ 2147483647 → scanTo b = b.writeIndex_ := fun hw =>
    toInt_of_inInt ⟨by unfold Buffer.getWriteIndex; omega,
      by unfold Buffer.getWriteIndex; omega⟩
  by_cases hp : ((b.readIndex_ + noise.length : ℕ) : ℤ) < scanTo b
  swap
  · -- the scan ends within the noise
    exact Or.inl ⟨_, by omega, by omega, by omega, scan_noise hr hn ov h (by omega),
      fun hw => by have := hW hw; omega⟩
  obtain ⟨k, hscan⟩ := scan_behind_noise hr hn ov h hp
  have hstart : byteAt b.getBuffer (b.readIndex_ + noise.length : ℕ) = .ok PB_START := by
    refine byteAt_readable ?_
    rw [readable_getElem?_of_append h (by omega), List.getElem?_append_right le_rfl,
      Nat.sub_self, List.getElem?_append_left (by omega), hF.start]
  by_cases hhead : toSizeT (b.readIndex_ + noise.length : ℕ) + 4 < toSizeT (scanTo b)
  swap
  · -- the length cannot be read yet
    rw [scanStep_of_header hstart hhead] at hscan
    rw [toSizeT_of_nonneg (Int.natCast_nonneg _) ⟨by omega, by omega⟩, Int.toNat_natCast,
      toSizeT_of_nonneg (by omega) ⟨by omega, hlt⟩] at hhead
    exact Or.inl ⟨noise.length, le_rfl, by omega, by omega, hscan, fun hw => by have := hW hw; omega⟩
  have hL : int32At b.getBuffer ((b.readIndex_ + noise.length : ℕ) + 1)
      = .ok (F.length : ℤ) := by
    refine int32At_delimited hF h ?_
    rw [toSizeT_of_nonneg (Int.natCast_nonneg _) ⟨by omega, by omega⟩, Int.toNat_natCast,
      toSizeT_of_nonneg (by omega) ⟨by omega, hlt⟩] at hhead
    omega
  rcases scanStep_cases ov hstart hhead hL (by omega) (by omega) hlt hp with
    ⟨hinc, hstep⟩ | ⟨hend, hmax, hstep⟩ | ⟨hmax, e, hstep⟩
  · -- the frame is not complete
    rw [hstep] at hscan
    exact Or.inl ⟨noise.length, le_rfl, by omega, by omega, hscan, fun hw => by have := hW hw; omega⟩
  · have hlast : byteAt b.getBuffer (((b.readIndex_ + noise.length : ℕ) : ℤ) + F.length - 1)
        = .ok PB_END := by
      have hcast : ((b.readIndex_ + noise.length : ℕ) : ℤ) + F.length - 1
          = (b.readIndex_ + (noise.length + (F.length - 1)) : ℕ) := by omega
      rw [hcast]
      refine byteAt_readable ?_
      rw [readable_getElem?_of_append h (by omega), List.getElem?_append_right (by omega),
        List.getElem?_append_left (by omega), Nat.add_sub_cancel_left, hF.last]
    rw [hstep, hlast, ok_bind, if_pos rfl] at hscan
    exact Or.inr (Or.inl ⟨by omega, by omega, hscan⟩)
  · rw [hstep] at hscan
    exact Or.inr (Or.inr ⟨by omega, e, hscan⟩)

end Encoded

end TinyPBCoder
end PbRpc
