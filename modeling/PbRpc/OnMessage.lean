import PbRpc.BufferFifo
import PbRpc.Rounds

/-!
# The loops around `readv` and `write`

`onMessage` reads until there is nothing left to read, and `sendMessage`
writes until there is nothing left to write. Both are `while (true)` around
one system call, and what ends them is what the call returns.

`onMessage` leaves on the end of the stream, after `closeCallback`, and on
`EAGAIN`, after `parseMsg`. A result below zero with any other `errno` is
neither, and falls through to the next `readv`. `sendMessage` leaves when
its buffer is empty, and on `EAGAIN`; an error such as `EPIPE` finds the
buffer as full as it was, and the write is made again.

So neither loop ends on an error that lasts (`Connection.not_leaves`), and
each ends where it should on the results that it does tell apart
(`Connection.leaves_iff`).
-/

namespace PbRpc

open TinyPBCoder Rounds

/-- **A connection that reads**, with what it has handed over: to
`messageCallback_`, or to the table of reply callbacks. -/
structure Reader (K : Type) where
  conn : Connection K
  handed : List TinyPBProtocol := []

/-- Data, or an interrupted call. -/
def ReadResult.GoesOn : ReadResult → Prop
  | .read data => data ≠ []
  | .failed errno => errno = .EINTR

/-- A completed or a short write, or an interrupted call. -/
def WriteResult.GoesOn : WriteResult → Prop
  | .written _ => True
  | .failed errno => errno = .EINTR

/-- How much the kernel is ready to take. -/
def WriteResult.takes : WriteResult → ℕ
  | .written n => n
  | .failed _ => 0

namespace Connection

variable {K : Type}

/-- **`parseMsg`**: the connection, and the messages that were decoded. -/
def parseMsg (ov : Overflow) (c : Connection K) :
    Except Fault (Connection K × List TinyPBProtocol) :=
  (c.decodeInput ov).map fun (result, c) =>
    match c.type_ with
    | .ConnectionByServer => (c, result)
    | .ConnectionByClient => ((c.handleReplies result).1, result)

/-- **The loop body of `onMessage`.** -/
def readRound (ov : Overflow) (r : Reader K) : ReadResult → Turn (Reader K) (Except Fault (Reader K))
  | .read [] => .left (.ok { r with conn := r.conn.closeCallback })
  | .read data =>
    .again { r with
      conn := { r.conn with inputbuffer_ := r.conn.inputbuffer_.readFd data } }
  | .failed .EINTR => .again r
  | .failed .EAGAIN =>
    .left ((r.conn.parseMsg ov).map fun (c, result) =>
      { conn := c, handed := r.handed ++ result })
  | .failed .other => .again r

/-- **The loop body of `sendMessage`.** The kernel takes no more than it is
offered. -/
def writeRound (c : Connection K) (result : WriteResult) :
    Turn (Connection K) (Except Fault (Connection K)) :=
  match result with
  | .written n =>
    match c.outputbuffer_.writeFd (min n c.outputbuffer_.readableBytes) with
    | .error fault => .left (.error fault)
    | .ok (_, b) =>
      if b.readableBytes = 0 then .left (.ok { c with outputbuffer_ := b }.disableWriting)
      else .again { c with outputbuffer_ := b }
  | .failed errno =>
    if c.outputbuffer_.readableBytes = 0 then .left (.ok c.disableWriting)
    else if errno = .EAGAIN then .left (.ok c)
    else .again c

/-- The loop of `onMessage` after so many results. -/
def readLoop (ov : Overflow) (r : Reader K) (results : ℕ → ReadResult) :
    ℕ → Turn (Reader K) (Except Fault (Reader K)) :=
  after (readRound ov) r results

/-- The loop of `sendMessage` after so many results. -/
def writeLoop (c : Connection K) (results : ℕ → WriteResult) :
    ℕ → Turn (Connection K) (Except Fault (Connection K)) :=
  after writeRound c results

/-- **The loop leaves on a result**: it makes no system call after it, and
the connection waits or is marked as disconnected. A loop that had left
before has no result to leave on. -/
def Leaves {σ : Type} (conn : σ → Connection K) (loop : ℕ → Turn σ (Except Fault σ)) (n : ℕ)
    (waits : Prop) : Prop :=
  ∃ s, loop (n + 1) = .left (.ok s) ∧
    ((∃ s, loop n = .again s) → ((conn s).disConnect = false ↔ waits))

/-- What was read before a result. -/
def readBuffer (b : Buffer) (results : ℕ → ReadResult) : ℕ → Buffer
  | 0 => b
  | n + 1 =>
    match results n with
    | .read data => (readBuffer b results n).readFd data
    | .failed _ => readBuffer b results n

/-- How much the kernel was ready to take before a result. -/
def taken (results : ℕ → WriteResult) : ℕ → ℕ
  | 0 => 0
  | n + 1 => taken results n + (results n).takes

variable {ov : Overflow} {r : Reader K} {c : Connection K} {reads : ℕ → ReadResult}
  {writes : ℕ → WriteResult} {n m : ℕ}

/-! ## Reading -/

/-- `onMessage` is still reading, with what it has read in its buffer. -/
theorem readLoop_again (hgoes : ∀ k < n, (reads k).GoesOn) :
    readLoop ov r reads n = .again { r with
      conn := { r.conn with inputbuffer_ := readBuffer r.conn.inputbuffer_ reads n } } := by
  refine after_induction (P := fun k turn => turn = .again { r with
    conn := { r.conn with inputbuffer_ := readBuffer r.conn.inputbuffer_ reads k } })
    rfl (fun k hk s hs => ?_) fun k hk t ht => (by cases ht)
  obtain rfl := Turn.again.inj hs
  have hgo := hgoes k hk
  have hnext : readBuffer r.conn.inputbuffer_ reads (k + 1) = match reads k with
      | .read data => (readBuffer r.conn.inputbuffer_ reads k).readFd data
      | .failed _ => readBuffer r.conn.inputbuffer_ reads k := rfl
  rw [hnext]
  cases hresult : reads k with
  | read data =>
    rw [hresult] at hgo
    cases data with
    | nil => exact absurd rfl hgo
    | cons x xs => rfl
  | failed errno =>
    rw [hresult] at hgo
    obtain rfl : errno = .EINTR := hgo
    rfl

/-- **`parseMsg` decodes the input buffer**, and takes replies out of the
table. -/
theorem parseMsg_eq_ok {c' : Connection K} {result : List TinyPBProtocol}
    (h : c.parseMsg ov = .ok (c', result)) :
    ∃ inputbuffer_ read_dones_, decode ov c.inputbuffer_ = .ok (result, inputbuffer_) ∧
      c' = { c with inputbuffer_ := inputbuffer_, read_dones_ := read_dones_ } := by
  rw [parseMsg] at h
  cases hd : c.decodeInput ov with
  | error _ => rw [hd] at h; cases h
  | ok decoded =>
    rw [hd] at h
    obtain ⟨b, hb, hconn⟩ :=
      decodeInput_eq_ok (show c.decodeInput ov = .ok (decoded.1, decoded.2) from hd)
    obtain ⟨read, hreplies, -⟩ := decoded.2.handleReplies_spec decoded.1
    have hmatch := Except.ok.inj h
    dsimp only at hmatch
    split at hmatch
    · obtain ⟨rfl, rfl⟩ := Prod.mk.inj hmatch
      exact ⟨b, c.read_dones_, hb, hconn⟩
    · obtain ⟨rfl, rfl⟩ := Prod.mk.inj hmatch
      exact ⟨b, read, hb, by rw [hreplies, hconn]⟩

theorem disConnect_parseMsg {c' : Connection K} {result : List TinyPBProtocol}
    (h : c.parseMsg ov = .ok (c', result)) : c'.disConnect = c.disConnect := by
  obtain ⟨b, read, -, rfl⟩ := parseMsg_eq_ok h
  rfl

/-- A round of `onMessage` reads into the input buffer and goes on. -/
theorem conn_readRound_again {r' : Reader K} {result : ReadResult}
    (h : readRound ov r result = .again r') :
    ∃ inputbuffer_, r'.conn = { r.conn with inputbuffer_ := inputbuffer_ } := by
  unfold readRound at h
  split at h
  · cases h
  · obtain rfl := Turn.again.inj h
    exact ⟨_, rfl⟩
  · obtain rfl := Turn.again.inj h
    exact ⟨_, rfl⟩
  · cases h
  · obtain rfl := Turn.again.inj h
    exact ⟨_, rfl⟩

/-- The last round of `onMessage` closes the connection or parses what was
read. -/
theorem conn_readRound_left {r' : Reader K} {result : ReadResult}
    (h : readRound ov r result = .left (.ok r')) :
    r'.conn = r.conn.closeCallback ∨ ∃ inputbuffer_ read_dones_,
      r'.conn = { r.conn with inputbuffer_ := inputbuffer_, read_dones_ := read_dones_ } := by
  unfold readRound at h
  split at h
  · obtain rfl := Except.ok.inj (Turn.left.inj h)
    exact .inl rfl
  · cases h
  · cases h
  · cases hparse : r.conn.parseMsg ov with
    | error _ => rw [hparse] at h; cases Turn.left.inj h
    | ok parsed =>
      rw [hparse] at h
      obtain rfl := Except.ok.inj (Turn.left.inj h)
      obtain ⟨b, read, -, hconn⟩ :=
        parseMsg_eq_ok (show r.conn.parseMsg ov = .ok (parsed.1, parsed.2) from hparse)
      exact .inr ⟨b, read, hconn⟩
  · cases h

/-- `parseMsg` returns when `decode` does. -/
theorem parseMsg_isOk_iff :
    (∃ parsed, c.parseMsg ov = .ok parsed) ↔ ∃ result, decode ov c.inputbuffer_ = .ok result := by
  rw [parseMsg, decodeInput]
  cases decode ov c.inputbuffer_ with
  | error e =>
    constructor
    · rintro ⟨_, h⟩
      cases h
    · rintro ⟨_, h⟩
      cases h
  | ok result => exact ⟨fun _ => ⟨result, rfl⟩, fun _ => ⟨_, rfl⟩⟩

/-- **Where `onMessage` leaves.** -/
theorem readLoop_leaves (hr : r.conn.disConnect = false)
    (hn : FirstStop ReadResult.GoesOn reads n) :
    Leaves Reader.conn (readLoop ov r reads) n (reads n = .failed .EAGAIN) ↔
      reads n = .read [] ∨ reads n = .failed .EAGAIN ∧
        ∃ result, decode ov (readBuffer r.conn.inputbuffer_ reads n) = .ok result := by
  have hagain : readLoop ov r reads n = _ := readLoop_again hn.2
  generalize hc : ({ r.conn with
    inputbuffer_ := readBuffer r.conn.inputbuffer_ reads n } : Connection K) = c at hagain
  have hdis : c.disConnect = false := by
    rw [← hc]
    exact hr
  have hbuffer : c.inputbuffer_ = readBuffer r.conn.inputbuffer_ reads n := by rw [← hc]
  have hnext : readLoop ov r reads (n + 1) = readRound ov { r with conn := c } (reads n) :=
    after_succ_of_again hagain
  have hstop := hn.1
  rw [Leaves, hnext, hagain, ← hbuffer]
  cases hresult : reads n with
  | read data =>
    rw [hresult] at hstop
    obtain rfl : data = [] := not_not.mp hstop
    refine iff_of_true ⟨_, rfl, fun _ => ?_⟩ (.inl rfl)
    exact iff_of_false (fun h => (by cases h)) (fun h => (by cases h))
  | failed errno =>
    rw [hresult] at hstop
    cases errno with
    | EINTR => exact absurd rfl hstop
    | other =>
      refine iff_of_false ?_ ?_
      · rintro ⟨s, hs, -⟩
        cases hs
      · rintro (h | ⟨h, -⟩) <;> cases h
    | EAGAIN =>
      rw [← parseMsg_isOk_iff]
      constructor
      · rintro ⟨s, hs, -⟩
        refine .inr ⟨rfl, ?_⟩
        cases hparse : c.parseMsg ov with
        | ok parsed => exact ⟨parsed, rfl⟩
        | error e =>
          rw [readRound, hparse] at hs
          cases Turn.left.inj hs
      · rintro (h | ⟨-, ⟨c', result⟩, hparse⟩)
        · cases h
        · refine ⟨{ conn := c', handed := r.handed ++ result }, ?_, fun _ => ?_⟩
          · rw [readRound, hparse]
            rfl
          · exact iff_of_true ((disConnect_parseMsg hparse).trans hdis) rfl

/-! ## Writing -/

/-- One result that goes on: the kernel has taken its share, and the loop
leaves when nothing is left. -/
theorem writeRound_goesOn {result : WriteResult} (hgo : result.GoesOn) :
    ∃ b, (c.outputbuffer_.readableBytes ≤ result.takes →
        c.writeRound result = .left (.ok { c with outputbuffer_ := b }.disableWriting)) ∧
      (result.takes < c.outputbuffer_.readableBytes →
        c.writeRound result = .again { c with outputbuffer_ := b } ∧
          b.readableBytes = c.outputbuffer_.readableBytes - result.takes) := by
  cases result with
  | written k =>
    obtain ⟨b, hb⟩ := Buffer.retrieve_of_le (Nat.min_le_right k c.outputbuffer_.readableBytes)
    have hlen := congrArg List.length (Buffer.retrieve_eq_ok hb).2
    rw [List.length_drop, Buffer.length_readable, Buffer.length_readable] at hlen
    have hround : c.writeRound (.written k) = if b.readableBytes = 0
        then .left (.ok { c with outputbuffer_ := b }.disableWriting)
        else .again { c with outputbuffer_ := b } := by
      rw [writeRound, Buffer.writeFd, hb]
      rfl
    rw [WriteResult.takes, hround]
    refine ⟨b, fun hle => if_pos ?_, fun hlt => ⟨if_neg ?_, ?_⟩⟩
    · rw [hlen, Nat.min_eq_right hle, Nat.sub_self]
    · rw [hlen, Nat.min_eq_left hlt.le]
      omega
    · rw [hlen, Nat.min_eq_left hlt.le]
  | failed errno =>
    obtain rfl : errno = .EINTR := hgo
    refine ⟨c.outputbuffer_, fun hle => if_pos ?_, fun hlt => ⟨?_, rfl⟩⟩
    · exact Nat.le_zero.mp hle
    · rw [writeRound, if_neg (Nat.pos_iff_ne_zero.mp hlt), if_neg (by decide)]

/-- Where `sendMessage` is before the first result that does not go on:
writing, with what the kernel has not taken, or done. -/
theorem writeLoop_goesOn (hgoes : ∀ k < m, (writes k).GoesOn) :
    (m = 0 ∨ taken writes m < c.outputbuffer_.readableBytes) ∧
        (∃ b, writeLoop c writes m = .again { c with outputbuffer_ := b } ∧
          b.readableBytes = c.outputbuffer_.readableBytes - taken writes m) ∨
      (0 < m ∧ c.outputbuffer_.readableBytes ≤ taken writes m) ∧
        ∃ c', writeLoop c writes m = .left (.ok c') := by
  refine after_induction (P := fun k (turn : Turn (Connection K) (Except Fault (Connection K))) =>
    (k = 0 ∨ taken writes k < c.outputbuffer_.readableBytes) ∧
        (∃ b, turn = .again { c with outputbuffer_ := b } ∧
          b.readableBytes = c.outputbuffer_.readableBytes - taken writes k) ∨
      (0 < k ∧ c.outputbuffer_.readableBytes ≤ taken writes k) ∧ ∃ c', turn = .left (.ok c'))
    (.inl ⟨.inl rfl, c.outputbuffer_, rfl, (Nat.sub_zero _).symm⟩) (fun k hk s hs => ?_)
    fun k hk t ht => ?_
  · rcases hs with ⟨hpos, b, hs, hb⟩ | ⟨-, c', hs⟩
    · obtain rfl := Turn.again.inj hs
      have hsucc : taken writes (k + 1) = taken writes k + (writes k).takes := rfl
      obtain ⟨b', hdone, hmore⟩ :=
        writeRound_goesOn (c := { c with outputbuffer_ := b }) (hgoes k hk)
      dsimp only at hdone hmore
      rw [hb] at hdone hmore
      rw [hsucc]
      by_cases hle : c.outputbuffer_.readableBytes - taken writes k ≤ (writes k).takes
      · exact .inr ⟨⟨Nat.succ_pos k, by omega⟩, _, hdone hle⟩
      · obtain ⟨hagain, hb'⟩ := hmore (by omega)
        exact .inl ⟨.inr (by omega), b', hagain, by rw [hb']; omega⟩
    · cases hs
  · rcases ht with ⟨-, b, ht, -⟩ | ⟨⟨-, hle⟩, c', ht⟩
    · cases ht
    · exact .inr ⟨⟨Nat.succ_pos k, hle.trans (Nat.le_add_right _ _)⟩, c', ht⟩

/-- **Where `sendMessage` leaves.** -/
theorem writeLoop_leaves (hc : c.disConnect = false)
    (hm : FirstStop WriteResult.GoesOn writes m) :
    Leaves id (writeLoop c writes) m (writes m = .failed .EAGAIN) ↔
      writes m = .failed .EAGAIN ∨
        0 < m ∧ c.outputbuffer_.readableBytes ≤ taken writes m := by
  have hstop := hm.1
  rcases writeLoop_goesOn (c := c) hm.2 with ⟨hmore, b, hagain, hb⟩ | ⟨hdone, c', hleft⟩
  · have hnot : ¬ (0 < m ∧ c.outputbuffer_.readableBytes ≤ taken writes m) := by omega
    rw [or_iff_left hnot]
    have hnext : writeLoop c writes (m + 1) = writeRound { c with outputbuffer_ := b } (writes m) :=
      after_succ_of_again hagain
    rw [Leaves, hnext, hagain]
    cases hresult : writes m with
    | written k =>
      rw [hresult] at hstop
      exact absurd trivial hstop
    | failed errno =>
      rw [hresult] at hstop
      cases errno with
      | EINTR => exact absurd rfl hstop
      | EAGAIN =>
        refine iff_of_true ?_ rfl
        by_cases hzero : b.readableBytes = 0
        · exact ⟨_, if_pos hzero, fun _ => iff_of_true hc rfl⟩
        · refine ⟨{ c with outputbuffer_ := b }, ?_, fun _ => iff_of_true hc rfl⟩
          rw [writeRound, if_neg hzero, if_pos rfl]
      | other =>
        refine iff_of_false ?_ (fun h => (by cases h))
        rintro ⟨s, hs, hmarked⟩
        rw [writeRound] at hs
        split at hs
        · -- nothing was left to write, and nothing marks the connection
          obtain rfl := Except.ok.inj (Turn.left.inj hs)
          exact absurd ((hmarked ⟨_, rfl⟩).mp hc) (fun h => (by cases h))
        · rw [if_neg (by decide)] at hs
          cases hs
  · refine iff_of_true ⟨c', after_succ_of_left hleft, ?_⟩ (.inr hdone)
    rintro ⟨s, hs⟩
    rw [hleft] at hs
    cases hs

/-! ## Both loops -/

/-- **The loops leave** on the first result that is not data, a write or an
interrupted call, when `onMessage` finds the end of the stream, or `EAGAIN`
and bytes that can be decoded, and when `sendMessage` finds `EAGAIN` or has
left already; and on no other. -/
theorem leaves_iff (hr : r.conn.disConnect = false) (hc : c.disConnect = false)
    (hn : FirstStop ReadResult.GoesOn reads n) (hm : FirstStop WriteResult.GoesOn writes m) :
    (Leaves Reader.conn (readLoop ov r reads) n (reads n = .failed .EAGAIN) ↔
      reads n = .read [] ∨ reads n = .failed .EAGAIN ∧
        ∃ result, decode ov (readBuffer r.conn.inputbuffer_ reads n) = .ok result) ∧
    (Leaves id (writeLoop c writes) m (writes m = .failed .EAGAIN) ↔
      writes m = .failed .EAGAIN ∨
        0 < m ∧ c.outputbuffer_.readableBytes ≤ taken writes m) :=
  ⟨readLoop_leaves hr hn, writeLoop_leaves hc hm⟩

/-- An interrupted `readv`, a chunk that holds a frame, and `EAGAIN`. -/
def readsOfOne : ℕ → ReadResult
  | 0 => .failed .EINTR
  | 1 => .read (wire { msg_id_ := [0x31] })
  | _ => .failed .EAGAIN

/-- A short write, an interrupted one, and `EAGAIN`. -/
def writesOfOne : ℕ → WriteResult
  | 0 => .written 2
  | 1 => .failed .EINTR
  | _ => .failed .EAGAIN

/-- A connection with three bytes to write. -/
def unwritten : Connection ℕ where
  type_ := .ConnectionByServer
  outputbuffer_ := Buffer.init.writeToBuffer [0x31, 0x32, 0x33]

/-- Both loops leave on `EAGAIN`, and the connection waits. -/
theorem leaves_waiting :
    Leaves Reader.conn (readLoop .trap { conn := unwritten } readsOfOne) 2 True ∧
      Leaves id (writeLoop unwritten writesOfOne) 2 True := by
  have hreads : FirstStop ReadResult.GoesOn readsOfOne 2 := by
    refine ⟨fun h => (by cases h), fun k hk => ?_⟩
    match k, hk with
    | 0, _ => rfl
    | 1, _ => exact fun h : wire _ = [] => absurd h (by decide +kernel)
  have hwrites : FirstStop WriteResult.GoesOn writesOfOne 2 := by
    refine ⟨fun h => (by cases h), fun k hk => ?_⟩
    match k, hk with
    | 0, _ => trivial
    | 1, _ => rfl
  have hdecode : ∃ result, decode .trap
      (readBuffer unwritten.inputbuffer_ readsOfOne 2) = .ok result := by
    have hok : (decode .trap (readBuffer unwritten.inputbuffer_ readsOfOne 2)).isOk = true := by
      decide +kernel
    cases hd : decode .trap (readBuffer unwritten.inputbuffer_ readsOfOne 2) with
    | ok result => exact ⟨result, rfl⟩
    | error e => rw [hd] at hok; cases hok
  have hboth := @leaves_iff ℕ .trap { conn := unwritten } unwritten readsOfOne writesOfOne 2 2
    rfl rfl hreads hwrites
  have hread := hboth.1.mpr (.inr ⟨rfl, hdecode⟩)
  have hwrite := hboth.2.mpr (.inl rfl)
  exact ⟨by simpa only [readsOfOne] using hread, by simpa only [writesOfOne] using hwrite⟩

/-- The peer has reset the connection: neither loop ever ends. -/
theorem not_leaves :
    ¬ Leaves Reader.conn (readLoop .trap { conn := unwritten } fun _ => .failed .other) 0 False ∧
      ¬ Leaves id (writeLoop unwritten fun _ => .failed .other) 0 False ∧
      ∀ n, readLoop .trap { conn := unwritten } (fun _ => .failed .other) n
          = .again { conn := unwritten } ∧
        writeLoop unwritten (fun _ => .failed .other) n = .again unwritten := by
  have hread : ∀ n, readLoop .trap { conn := unwritten } (fun _ => .failed .other) n
      = .again { conn := unwritten } := by
    intro n
    induction n with
    | zero => rfl
    | succ n ih => exact after_succ_of_again ih
  have hwrite : ∀ n, writeLoop unwritten (fun _ => .failed .other) n = .again unwritten := by
    intro n
    induction n with
    | zero => rfl
    | succ n ih =>
      have hround : unwritten.writeRound (.failed .other) = .again unwritten := by
        rw [writeRound, if_neg (by decide +kernel), if_neg (by decide)]
      exact (after_succ_of_again ih).trans hround
  refine ⟨?_, ?_, fun n => ⟨hread n, hwrite n⟩⟩
  · rintro ⟨s, hs, -⟩
    rw [hread] at hs
    cases hs
  · rintro ⟨s, hs, -⟩
    rw [hwrite] at hs
    cases hs

end Connection

end PbRpc
