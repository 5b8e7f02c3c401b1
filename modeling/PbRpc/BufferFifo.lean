import PbRpc.Connection
import PbRpc.Fifo
import PbRpc.Transition

/-!
# The buffer is a queue of bytes

Bytes enter a `Buffer` through `writeToBuffer` and `readFd` and leave it
through `retrieve`, the reads and `writeFd`. In between the vector grows, the
readable bytes move to its front, the indices go back to zero, and one
`readv` may fill the end of the vector and a block on the stack. None of this
can be told from the outside: in every run, the readable bytes are those that
were appended, in order, less those that were consumed (`BufferRun.keepsFifo`).

A run is one of calls that the assertions of the buffer admit, with any
result that the kernel may give. A call is described by what it appends, how
much it consumes and what it hands out, all of which depend on the readable
bytes alone (`Buffer.call_eq_ok`).
-/

namespace PbRpc

open BigEndian Transition

/-- How a `readv` went. -/
inductive ReadResult where
  | read (data : Bytes)
  | failed (errno : Errno)
deriving DecidableEq, Repr

/-- **A call of the buffer**, with the results of the system calls in it. -/
inductive BufferCall where
  | writeToBuffer (data : Bytes)
  | retrieve (len : ℕ)
  | readFromBuffer (re : Bytes) (len : ℕ)
  | retrieveAsString (len : ℕ)
  | readInt32
  | readInt16
  | readInt8
  | peekInt32
  | peekInt16
  | peekInt8
  | readFd (result : ReadResult)
  | writeFd (result : WriteResult)
deriving DecidableEq, Repr

/-- What a call hands out: bytes, to its caller or to the socket, or a
number. -/
inductive BufferValue where
  | none
  | bytes (data : Bytes)
  | int (x : ℤ)
deriving DecidableEq, Repr

namespace Buffer

/-- The bytes are copied to the front of `re`. -/
def readFromBuffer (b : Buffer) (re : Bytes) (len : ℕ) : Except Fault (Bytes × Buffer) :=
  if len ≤ b.readableBytes then
    if len ≤ re.length then
      (b.retrieve len).map
        (fun b' => (overwrite re 0 ((b.buffer_.drop b.readIndex_).take len), b'))
    else .error .outOfRange
  else .error .assertion

def readInt16 (b : Buffer) : Except Fault (Int16 × Buffer) :=
  (b.readInt 2).map (Prod.map Int16.ofInt id)

def peekInt32 (b : Buffer) : Except Fault Int32 := (b.peekInt 4).map Int32.ofInt

def peekInt16 (b : Buffer) : Except Fault Int16 := (b.peekInt 2).map Int16.ofInt

def peekInt8 (b : Buffer) : Except Fault Int8 := (b.peekInt 1).map Int8.ofInt

/-- **A call.** A system call that fails leaves the buffer as it is. -/
def call (b : Buffer) : BufferCall → Except Fault (BufferValue × Buffer)
  | .writeToBuffer data => .ok (.none, b.writeToBuffer data)
  | .retrieve len => (b.retrieve len).map (fun b' => (.none, b'))
  | .readFromBuffer re len => (b.readFromBuffer re len).map (Prod.map .bytes id)
  | .retrieveAsString len => (b.retrieveAsString len).map (Prod.map .bytes id)
  | .readInt32 => b.readInt32.map (Prod.map (fun x => .int x.toInt) id)
  | .readInt16 => b.readInt16.map (Prod.map (fun x => .int x.toInt) id)
  | .readInt8 => b.readInt8.map (Prod.map (fun x => .int x.toInt) id)
  | .peekInt32 => b.peekInt32.map (fun x => (.int x.toInt, b))
  | .peekInt16 => b.peekInt16.map (fun x => (.int x.toInt, b))
  | .peekInt8 => b.peekInt8.map (fun x => (.int x.toInt, b))
  | .readFd (.read data) => .ok (.int data.length, b.readFd data)
  | .readFd (.failed _) => .ok (.int (-1), b)
  | .writeFd (.written n) => (b.writeFd n).map (Prod.map .bytes id)
  | .writeFd (.failed _) => .ok (.int (-1), b)

/-- **The calls that may be made**: no more is consumed than is readable,
and the kernel reads and writes no more than it was offered. -/
def Admissible (b : Buffer) : BufferCall → Prop
  | .writeToBuffer _ => True
  | .retrieve len => len ≤ b.readableBytes
  | .readFromBuffer re len => len ≤ b.readableBytes ∧ len ≤ re.length
  | .retrieveAsString len => len ≤ b.readableBytes
  | .readInt32 | .peekInt32 => 4 ≤ b.readableBytes
  | .readInt16 | .peekInt16 => 2 ≤ b.readableBytes
  | .readInt8 | .peekInt8 => 1 ≤ b.readableBytes
  | .readFd (.read data) => data.length ≤ b.writeableBytes + extrabufSize
  | .readFd (.failed _) => True
  | .writeFd (.written n) => n ≤ b.readableBytes
  | .writeFd (.failed _) => True

instance (b : Buffer) (c : BufferCall) : Decidable (b.Admissible c) := by
  unfold Admissible
  split <;> infer_instance

end Buffer

namespace BufferCall

/-- What a call appends. -/
def appends : BufferCall → Bytes
  | .writeToBuffer data | .readFd (.read data) => data
  | _ => []

/-- How much a call consumes. -/
def consumes : BufferCall → ℕ
  | .retrieve len | .readFromBuffer _ len | .retrieveAsString len => len
  | .readInt32 => 4
  | .readInt16 => 2
  | .readInt8 => 1
  | .writeFd (.written n) => n
  | _ => 0

/-- What a call hands out, of a queue with these contents. -/
def value (contents : Bytes) : BufferCall → BufferValue
  | .writeToBuffer _ | .retrieve _ => .none
  | .readFromBuffer re len => .bytes (overwrite re 0 (contents.take len))
  | .retrieveAsString len | .writeFd (.written len) => .bytes (contents.take len)
  | .readInt32 | .peekInt32 => .int (Int32.ofInt (ofIntBE (contents.take 4))).toInt
  | .readInt16 | .peekInt16 => .int (Int16.ofInt (ofIntBE (contents.take 2))).toInt
  | .readInt8 | .peekInt8 => .int (Int8.ofInt (ofIntBE (contents.take 1))).toInt
  | .readFd (.read data) => .int data.length
  | .readFd (.failed _) | .writeFd (.failed _) => .int (-1)

end BufferCall

namespace Buffer

theorem peekInt_of_le {k : ℕ} {b : Buffer} (h : k ≤ b.readableBytes) :
    b.peekInt k = .ok (ofIntBE (b.readable.take k)) := by
  rw [peekInt, if_pos h, b.take_drop_readIndex h]

/-- Reading a number consumes its bytes. -/
theorem readInt_spec {k : ℕ} {b : Buffer} (h : k ≤ b.readableBytes) :
    ∃ b', b.readInt k = .ok (ofIntBE (b.readable.take k), b') ∧
      b'.readable = b.readable.drop k := by
  obtain ⟨b', hb'⟩ := readInt_of_le h
  exact ⟨b', hb', (retrieve_eq_ok (readInt_eq_ok hb').2).2⟩

theorem drop_of_appends_nil {contents : Bytes} {n : ℕ} {c : BufferCall} (h : c.appends = []) :
    (contents ++ c.appends).drop n = contents.drop n := by
  rw [h, List.append_nil]

/-- **A call does to the readable bytes what it says.** -/
theorem call_eq_ok {b : Buffer} {c : BufferCall} (h : b.Admissible c) :
    ∃ b', b.call c = .ok (c.value b.readable, b') ∧
      b'.readable = (b.readable ++ c.appends).drop c.consumes := by
  cases c with
  | writeToBuffer data => exact ⟨_, rfl, readable_writeToBuffer b data⟩
  | retrieve len =>
    obtain ⟨b', hb'⟩ := retrieve_of_le h
    refine ⟨b', by rw [call, hb']; rfl, ?_⟩
    rw [drop_of_appends_nil rfl]
    exact (retrieve_eq_ok hb').2
  | readFromBuffer re len =>
    obtain ⟨b', hb'⟩ := retrieve_of_le h.1
    refine ⟨b', ?_, ?_⟩
    · rw [call, readFromBuffer, if_pos h.1, if_pos h.2, hb', b.take_drop_readIndex h.1]
      rfl
    · rw [drop_of_appends_nil rfl]
      exact (retrieve_eq_ok hb').2
  | retrieveAsString len =>
    obtain ⟨b', hb'⟩ := retrieveAsString_of_le h
    refine ⟨b', by rw [call, hb']; rfl, ?_⟩
    rw [drop_of_appends_nil rfl]
    exact (retrieve_eq_ok (retrieveAsString_eq_ok hb').2.2).2
  | readInt32 =>
    obtain ⟨b', hb', hd⟩ := readInt_spec h
    exact ⟨b', by rw [call, readInt32, hb']; rfl, hd.trans (drop_of_appends_nil rfl).symm⟩
  | readInt16 =>
    obtain ⟨b', hb', hd⟩ := readInt_spec h
    exact ⟨b', by rw [call, readInt16, hb']; rfl, hd.trans (drop_of_appends_nil rfl).symm⟩
  | readInt8 =>
    obtain ⟨b', hb', hd⟩ := readInt_spec h
    exact ⟨b', by rw [call, readInt8, hb']; rfl, hd.trans (drop_of_appends_nil rfl).symm⟩
  | peekInt32 =>
    exact ⟨b, by rw [call, peekInt32, peekInt_of_le h]; rfl, (List.append_nil _).symm⟩
  | peekInt16 =>
    exact ⟨b, by rw [call, peekInt16, peekInt_of_le h]; rfl, (List.append_nil _).symm⟩
  | peekInt8 =>
    exact ⟨b, by rw [call, peekInt8, peekInt_of_le h]; rfl, (List.append_nil _).symm⟩
  | readFd result =>
    cases result with
    | read data => exact ⟨_, rfl, readable_readFd b data⟩
    | failed errno => exact ⟨b, rfl, (List.append_nil _).symm⟩
  | writeFd result =>
    cases result with
    | written n =>
      obtain ⟨b', hb'⟩ := retrieve_of_le h
      refine ⟨b', by rw [call, writeFd, hb']; rfl, ?_⟩
      rw [drop_of_appends_nil rfl]
      exact (retrieve_eq_ok hb').2
    | failed errno => exact ⟨b, rfl, (List.append_nil _).symm⟩

end Buffer

/-- **A buffer in use**, with its history. -/
structure BufferRun where
  buffer : Buffer
  history : Fifo UInt8

namespace BufferRun

def start : BufferRun := ⟨.init, .empty⟩

/-- A call; where an assertion fails, nothing follows. -/
def step (s : BufferRun) (c : BufferCall) : Option BufferRun :=
  match s.buffer.call c with
  | .error _ => none
  | .ok (_, b) => some ⟨b, (s.history.append c.appends).consume c.consumes⟩

/-- **The buffer is the queue**: its indices are in order, its readable bytes
are what was appended less what was consumed, and every call that may be made
returns, with what the queue would hand out. -/
structure KeepsFifo (s : BufferRun) : Prop where
  indices : s.buffer.getReadIndex ≤ s.buffer.getWriteIndex ∧
    s.buffer.getWriteIndex ≤ s.buffer.getBuffer.length
  readable : s.buffer.readable = s.history.contents
  returns : ∀ c, s.buffer.Admissible c →
    ∃ b, s.buffer.call c = .ok (c.value s.history.contents, b)

theorem readable_step {s s' : BufferRun} {c : BufferCall}
    (h : s.buffer.readable = s.history.contents) (hc : s.buffer.Admissible c)
    (hs : s.step c = some s') : s'.buffer.readable = s'.history.contents := by
  obtain ⟨b, hcall, hb⟩ := Buffer.call_eq_ok hc
  rw [step, hcall] at hs
  obtain rfl := Option.some.inj hs
  rw [Fifo.contents_consume, Fifo.contents_append, ← h]
  exact hb

/-- **Every run of calls keeps the bytes in order.** -/
theorem keepsFifo {s : BufferRun} (h : Runs step (fun s c => s.buffer.Admissible c) start s) :
    KeepsFifo s := by
  have hreadable : s.buffer.readable = s.history.contents :=
    h.invariant (I := fun s => s.buffer.readable = s.history.contents)
      (fun _ _ _ h hc hs => readable_step h hc hs) rfl
  refine ⟨⟨s.buffer.read_le_write, s.buffer.write_le_size⟩, hreadable, fun c hc => ?_⟩
  obtain ⟨b, hcall, -⟩ := Buffer.call_eq_ok hc
  exact ⟨b, hreadable ▸ hcall⟩

/-- Bytes that come from the caller and from the socket, and leave to
both. -/
theorem keepsFifo_mixed :
    ∃ s : BufferRun, KeepsFifo s ∧ s.buffer.readable = [4, 5] ∧
      s.history.appended = [1, 2, 3, 4, 5] := by
  obtain ⟨s, hruns, h⟩ :
      ∃ s, Runs (restrict step (fun s c => s.buffer.Admissible c)) anyStep start s ∧
        decide (s.buffer.readable = [4, 5] ∧ s.history.appended = [1, 2, 3, 4, 5]) = true :=
    exists_of_execute
      [.writeToBuffer [1, 2, 3], .readInt8, .readFd (.failed .EAGAIN), .readFd (.read [4, 5]),
        .peekInt16, .writeFd (.written 1), .retrieveAsString 1] (by decide +kernel)
  exact ⟨s, keepsFifo (runs_of_restrict hruns), of_decide_eq_true h⟩

end BufferRun

end PbRpc
