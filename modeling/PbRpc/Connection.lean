import Mathlib.Data.List.AList
import PbRpc.TinyPBCoder

/-!
# A connection

A `Connection` has a socket, two buffers and two tables of callbacks.
A request is put into `write_dones_` by the thread that makes the call. The
thread of the event loop takes it from there when the socket is writable,
runs its write callback, which registers the callback for the reply in
`read_dones_`, and encodes it. A reply is looked up in `read_dones_` by its
id, and the callback runs once.

`sendMessage` does not run in one piece: other threads push requests and
register for writing while it is between its steps. `Endpoint` is a
connection with the position of the loop's thread in `sendMessage`, the
threads that have pushed a request and not yet called `enableWriting`, and
what has been written to the socket; `io` is what the loop's thread does
next. What a step can do is said once (`io_cases`): it takes the requests
that are queued, or moves bytes toward the socket (`Flow`).
-/

namespace PbRpc

open TinyPBCoder

/-- The errors of a socket call that the code tells apart. -/
inductive Errno where
  | EINTR
  | EAGAIN
  | other
deriving DecidableEq, Repr

/-- How a `write` went. -/
inductive WriteResult where
  | written (n : ℕ)
  | failed (errno : Errno)
deriving DecidableEq, Repr

inductive TcpConnectionType where
  | ConnectionByServer
  | ConnectionByClient
deriving DecidableEq, Repr

/-- **A channel**: the events it is registered for, and whether it is
registered at all. -/
structure Channel where
  EPOLLIN : Bool := false
  EPOLLOUT : Bool := false
  inepoll_ : Bool := false
deriving DecidableEq, Repr

namespace Channel

/-- `Epoll::setChannel`: what the channel asks for is registered. -/
def setChannel (ch : Channel) : Channel := { ch with inepoll_ := true }

def enableReading (ch : Channel) : Channel := { ch with EPOLLIN := true }.setChannel

def enableWriting (ch : Channel) : Channel := { ch with EPOLLOUT := true }.setChannel

def disableWriting (ch : Channel) : Channel := { ch with EPOLLOUT := false }.setChannel

def remove (ch : Channel) : Channel := { ch with inepoll_ := false }

/-- Readable events are delivered. -/
def registeredIn (ch : Channel) : Bool := ch.inepoll_ && ch.EPOLLIN

/-- Writable events are delivered. -/
def registeredOut (ch : Channel) : Bool := ch.inepoll_ && ch.EPOLLOUT

end Channel

/-- **A connection**, with reply callbacks `K`. A write callback registers
the reply callback it is kept with. -/
structure Connection (K : Type) where
  type_ : TcpConnectionType
  inputbuffer_ : Buffer := .init
  outputbuffer_ : Buffer := .init
  disConnect : Bool := false
  connectChannel_ : Channel := {}
  write_dones_ : List (TinyPBProtocol × K) := []
  read_dones_ : AList (fun _ : Bytes => K) := ∅

/-- A reply callback that ran, with the id it was found under and the
message it was given. -/
structure Invocation (K : Type) where
  msg_id : Bytes
  done : K
  message : TinyPBProtocol

namespace Connection

variable {K : Type}

def enableReading (c : Connection K) : Connection K :=
  { c with connectChannel_ := c.connectChannel_.enableReading }

def enableWriting (c : Connection K) : Connection K :=
  { c with connectChannel_ := c.connectChannel_.enableWriting }

def disableWriting (c : Connection K) : Connection K :=
  { c with connectChannel_ := c.connectChannel_.disableWriting }

def closeCallback (c : Connection K) : Connection K :=
  { c with disConnect := true, connectChannel_ := c.connectChannel_.remove }

def pushSendMessage (c : Connection K) (message : TinyPBProtocol) (done : K) : Connection K :=
  { c with write_dones_ := c.write_dones_ ++ [(message, done)] }

/-- `std::map::insert` leaves an entry that is there. -/
def pushReadMessage (c : Connection K) (msg_id : Bytes) (done : K) : Connection K :=
  match c.read_dones_.lookup msg_id with
  | some _ => c
  | none => { c with read_dones_ := c.read_dones_.insert msg_id done }

def popReadMessage (c : Connection K) (msg_id : Bytes) : Connection K :=
  { c with read_dones_ := c.read_dones_.erase msg_id }

/-- The write callback of a call. -/
def callWriteDone (c : Connection K) (entry : TinyPBProtocol × K) : Connection K :=
  (c.pushReadMessage entry.1.msg_id_ entry.2).enableReading

/-- The write callback of a request. That of a keepalive package does not
register the channel for reading. -/
def runWriteDone (c : Connection K) (entry : TinyPBProtocol × K) : Connection K :=
  if entry.1.msg_type_ = 1 then c.pushReadMessage entry.1.msg_id_ entry.2
  else c.callWriteDone entry

/-- The part of `sendMessage` that holds the lock: the write callbacks run
and the requests are taken. -/
def takeWriteDones (c : Connection K) : Connection K :=
  { c.write_dones_.foldl runWriteDone c with write_dones_ := [] }

/-- The loop body of the client's `parseMsg`. -/
def handleReply (c : Connection K) (message : TinyPBProtocol) :
    Connection K × List (Invocation K) :=
  match c.read_dones_.lookup message.msg_id_ with
  | none => (c, [])
  | some done => (c.popReadMessage message.msg_id_, [⟨message.msg_id_, done, message⟩])

def handleReplies (c : Connection K) : List TinyPBProtocol → Connection K × List (Invocation K)
  | [] => (c, [])
  | message :: result =>
    let (c, invoked) := c.handleReply message
    let (c, invoked') := handleReplies c result
    (c, invoked ++ invoked')

/-- **`parseMsg`, before it looks at the type of the connection**: decode
the input buffer. -/
def decodeInput (ov : Overflow) (c : Connection K) :
    Except Fault (List TinyPBProtocol × Connection K) :=
  (decode ov c.inputbuffer_).map (Prod.map id (fun b => { c with inputbuffer_ := b }))

theorem decodeInput_eq_ok {ov : Overflow} {c c' : Connection K} {result : List TinyPBProtocol}
    (h : c.decodeInput ov = .ok (result, c')) :
    ∃ b, decode ov c.inputbuffer_ = .ok (result, b) ∧ c' = { c with inputbuffer_ := b } := by
  rw [decodeInput] at h
  cases hd : decode ov c.inputbuffer_ with
  | error _ => rw [hd] at h; cases h
  | ok r =>
    rw [hd] at h
    obtain ⟨hresult, hc⟩ := Prod.mk.inj (Except.ok.inj h)
    exact ⟨r.2, by rw [← hresult]; rfl, hc.symm⟩

/-- **`regSend`**. -/
def regSend (c : Connection K) (respond_pkgs : List TinyPBProtocol) : Connection K :=
  if c.disConnect then c
  else { c with outputbuffer_ := (encode respond_pkgs c.outputbuffer_).2 }.enableWriting

end Connection

/-! ## The table of reply callbacks -/

section

variable {K : Type} (c : Connection K)

/-- The entry that a callback had in the table. -/
def Invocation.entry (i : Invocation K) : Bytes × K := (i.msg_id, i.done)

/-- The reply callbacks that wait, with their ids. -/
def Connection.pending (c : Connection K) : List (Bytes × K) :=
  c.read_dones_.entries.map (fun entry => (entry.1, entry.2))

namespace Connection

theorem pending_ids : c.pending.map Prod.fst = c.read_dones_.keys := by
  rw [pending, List.map_map]
  rfl

theorem lookup_eq_none_iff {msg_id : Bytes} :
    c.read_dones_.lookup msg_id = none ↔ msg_id ∉ c.pending.map Prod.fst := by
  rw [pending_ids, AList.lookup_eq_none, AList.mem_keys]

theorem lookup_of_mem_pending {c : Connection K} {entry : Bytes × K} (h : entry ∈ c.pending) :
    c.read_dones_.lookup entry.1 = some entry.2 := by
  obtain ⟨e, he, rfl⟩ := List.mem_map.mp h
  exact AList.mem_lookup_iff.mpr he

/-- What is found under an id once a callback was registered. -/
theorem lookup_pushReadMessage (msg_id m : Bytes) (done : K) :
    (c.pushReadMessage msg_id done).read_dones_.lookup m
      = (c.read_dones_.lookup m).or (if msg_id = m then some done else none) := by
  rw [pushReadMessage]
  by_cases hm : msg_id = m
  · rw [hm]
    cases h : c.read_dones_.lookup m with
    | some done' => simp [h]
    | none => simp [AList.lookup_insert]
  · split
    · simp [hm]
    · simp [hm, AList.lookup_insert_ne (Ne.symm hm)]

/-- A callback is registered under an id that is new. -/
theorem pending_pushReadMessage {msg_id : Bytes} {done : K}
    (h : msg_id ∉ c.pending.map Prod.fst) :
    (c.pushReadMessage msg_id done).pending = (msg_id, done) :: c.pending := by
  have hnone := c.lookup_eq_none_iff.mpr h
  rw [pushReadMessage, hnone]
  show (c.read_dones_.insert msg_id done).entries.map _ = _
  rw [AList.entries_insert_of_notMem (AList.lookup_eq_none.mp hnone)]
  rfl

/-- A callback that is found is one that waits, and the others still do
when it is taken out. -/
theorem pending_popReadMessage {msg_id : Bytes} {done : K}
    (h : c.read_dones_.lookup msg_id = some done) :
    c.pending.Perm ((msg_id, done) :: (c.popReadMessage msg_id).pending) := by
  have hkey : msg_id ∈ c.read_dones_.entries.keys := by
    show msg_id ∈ c.read_dones_.keys
    rw [← AList.mem_keys, ← AList.lookup_isSome, h]
    rfl
  obtain ⟨done', front, back, -, hentries, herase⟩ := List.exists_of_kerase hkey
  have hmem : done' ∈ c.read_dones_.lookup msg_id := by
    rw [AList.mem_lookup_iff, hentries]
    exact List.mem_append_right _ (List.mem_cons_self ..)
  obtain rfl : done = done' := by
    rw [h] at hmem
    exact Option.some.inj hmem
  show (c.read_dones_.entries.map _).Perm
    ((msg_id, done) :: (List.kerase msg_id c.read_dones_.entries).map _)
  rw [herase, hentries, List.map_append, List.map_append, List.map_cons]
  exact List.perm_middle

theorem read_dones_runWriteDone (entry : TinyPBProtocol × K) :
    (c.runWriteDone entry).read_dones_
      = (c.pushReadMessage entry.1.msg_id_ entry.2).read_dones_ := by
  rw [runWriteDone]
  split <;> rfl

theorem pending_runWriteDone (entry : TinyPBProtocol × K) :
    (c.runWriteDone entry).pending = (c.pushReadMessage entry.1.msg_id_ entry.2).pending := by
  rw [pending, read_dones_runWriteDone, pending]

/-- A write callback touches the table of reply callbacks and the channel. -/
theorem runWriteDone_eq (entry : TinyPBProtocol × K) :
    ∃ read_dones_ connectChannel_, c.runWriteDone entry
      = { c with read_dones_ := read_dones_, connectChannel_ := connectChannel_ } := by
  rw [runWriteDone, callWriteDone, pushReadMessage]
  split <;> split <;> exact ⟨_, _, rfl⟩

theorem foldl_runWriteDone (entries : List (TinyPBProtocol × K)) :
    ∃ read_dones_ connectChannel_, entries.foldl runWriteDone c
      = { c with read_dones_ := read_dones_, connectChannel_ := connectChannel_ } := by
  induction entries generalizing c with
  | nil => exact ⟨c.read_dones_, c.connectChannel_, rfl⟩
  | cons entry entries ih =>
    obtain ⟨read, channel, h⟩ := ih (c.runWriteDone entry)
    obtain ⟨read', channel', hone⟩ := c.runWriteDone_eq entry
    refine ⟨read, channel, ?_⟩
    rw [List.foldl_cons, h, hone]

theorem takeWriteDones_eq :
    ∃ read_dones_ connectChannel_, c.takeWriteDones = { c with
      read_dones_ := read_dones_, connectChannel_ := connectChannel_, write_dones_ := [] } := by
  obtain ⟨read, channel, h⟩ := c.foldl_runWriteDone c.write_dones_
  exact ⟨read, channel, by rw [takeWriteDones, h]⟩

/-- The entry that a request has in the table when its write callback has
run. -/
def entryOf (entry : TinyPBProtocol × K) : Bytes × K := (entry.1.msg_id_, entry.2)

theorem pending_foldl (entries : List (TinyPBProtocol × K))
    (h : (c.pending.map Prod.fst ++ entries.map (fun e => e.1.msg_id_)).Nodup) :
    (entries.foldl runWriteDone c).pending.Perm (c.pending ++ entries.map entryOf) := by
  induction entries generalizing c with
  | nil => rw [List.map_nil, List.append_nil]; exact List.Perm.refl _
  | cons entry entries ih =>
    have hnew : entry.1.msg_id_ ∉ c.pending.map Prod.fst := fun hmem =>
      (List.nodup_append.mp h).2.2 _ hmem _ (List.mem_cons_self ..) rfl
    have hpend : (c.runWriteDone entry).pending = entryOf entry :: c.pending :=
      (c.pending_runWriteDone entry).trans (c.pending_pushReadMessage hnew)
    have hnodup : ((c.runWriteDone entry).pending.map Prod.fst
        ++ entries.map (fun e => e.1.msg_id_)).Nodup := by
      rw [hpend]
      exact List.perm_middle.nodup_iff.mp h
    refine (ih (c.runWriteDone entry) hnodup).trans ?_
    rw [hpend]
    exact List.perm_middle.symm

/-- **Every request that is taken has its callback registered.** -/
theorem pending_takeWriteDones
    (h : (c.pending.map Prod.fst ++ c.write_dones_.map (fun e => e.1.msg_id_)).Nodup) :
    c.takeWriteDones.pending.Perm (c.pending ++ c.write_dones_.map entryOf) :=
  c.pending_foldl c.write_dones_ h

theorem mem_read_dones_runWriteDone {msg_id : Bytes} (entry : TinyPBProtocol × K) :
    msg_id ∈ (c.runWriteDone entry).read_dones_ ↔
      msg_id = entry.1.msg_id_ ∨ msg_id ∈ c.read_dones_ := by
  rw [read_dones_runWriteDone, pushReadMessage]
  split
  · rename_i done hsome
    have hmem : entry.1.msg_id_ ∈ c.read_dones_ := AList.lookup_isSome.mp (by rw [hsome]; rfl)
    refine ⟨.inr, fun h => h.elim (fun heq => ?_) fun h => h⟩
    rw [heq]
    exact hmem
  · exact AList.mem_insert _

theorem mem_foldl_runWriteDone {msg_id : Bytes} (entries : List (TinyPBProtocol × K))
    (h : msg_id ∈ c.read_dones_ ∨ msg_id ∈ entries.map (fun e => e.1.msg_id_)) :
    msg_id ∈ (entries.foldl runWriteDone c).read_dones_ := by
  induction entries generalizing c with
  | nil => exact h.resolve_right List.not_mem_nil
  | cons entry entries ih =>
    refine ih (c.runWriteDone entry) ?_
    rw [List.map_cons, List.mem_cons] at h
    rw [mem_read_dones_runWriteDone]
    rcases h with h | h | h
    · exact .inl (.inr h)
    · exact .inl (.inl h)
    · exact .inr h

/-- An id that is taken, or has a callback, has one afterwards. -/
theorem mem_takeWriteDones {msg_id : Bytes}
    (h : msg_id ∈ c.read_dones_ ∨ msg_id ∈ c.write_dones_.map (fun e => e.1.msg_id_)) :
    msg_id ∈ c.takeWriteDones.read_dones_ :=
  c.mem_foldl_runWriteDone c.write_dones_ h

/-- A callback waits for the reply with an id: its request is queued, or it is
registered. -/
def Registers (c : Connection K) (msg_id : Bytes) (done : K) : Prop :=
  (∃ entry ∈ c.write_dones_, entry.1.msg_id_ = msg_id ∧ entry.2 = done) ∨
    c.read_dones_.lookup msg_id = some done

theorem registers_pushSendMessage {msg_id : Bytes} {done done' : K} {message : TinyPBProtocol}
    (h : (c.pushSendMessage message done').Registers msg_id done) :
    c.Registers msg_id done ∨ message.msg_id_ = msg_id ∧ done' = done := by
  rcases h with ⟨entry, hentry, hid⟩ | hlookup
  · rcases List.mem_append.mp hentry with hentry | hentry
    · exact .inl (.inl ⟨entry, hentry, hid⟩)
    · rw [List.mem_singleton.mp hentry] at hid
      exact .inr hid
  · exact .inl (.inr hlookup)

theorem registers_foldl {msg_id : Bytes} {done : K} (entries : List (TinyPBProtocol × K))
    (h : (entries.foldl runWriteDone c).read_dones_.lookup msg_id = some done) :
    (∃ entry ∈ entries, entry.1.msg_id_ = msg_id ∧ entry.2 = done) ∨
      c.read_dones_.lookup msg_id = some done := by
  induction entries generalizing c with
  | nil => exact .inr h
  | cons entry entries ih =>
    rcases ih (c.runWriteDone entry) h with ⟨entry', hentry', hid⟩ | hlookup
    · exact .inl ⟨entry', List.mem_cons_of_mem _ hentry', hid⟩
    · have hor : (c.read_dones_.lookup msg_id).or
          (if entry.1.msg_id_ = msg_id then some entry.2 else none) = some done :=
        by
        rw [← c.lookup_pushReadMessage, ← read_dones_runWriteDone]
        exact hlookup
      cases hc : c.read_dones_.lookup msg_id with
      | some done' =>
        rw [hc, Option.some_or] at hor
        exact .inr hor
      | none =>
        rw [hc, Option.none_or] at hor
        split at hor
        · exact .inl ⟨entry, List.mem_cons_self .., by assumption, Option.some.inj hor⟩
        · cases hor

/-- A callback that waits when the requests are taken has waited before. -/
theorem registers_takeWriteDones {msg_id : Bytes} {done : K}
    (h : c.takeWriteDones.Registers msg_id done) : c.Registers msg_id done := by
  rcases h with ⟨entry, hentry, -⟩ | hlookup
  · cases hentry
  · exact c.registers_foldl c.write_dones_ hlookup

theorem registers_popReadMessage {msg_id m : Bytes} {done : K}
    (h : (c.popReadMessage m).Registers msg_id done) : c.Registers msg_id done := by
  rcases h with hentry | hlookup
  · exact .inl hentry
  · refine .inr ?_
    by_cases hm : msg_id = m
    · rw [hm] at hlookup
      exact absurd (hlookup.symm.trans (AList.lookup_erase _ _)) (fun h => (by cases h))
    · exact (AList.lookup_erase_ne hm).symm.trans hlookup

/-- **No callback is multiplied** when the requests are taken: one whose id is
there already is dropped. -/
theorem count_pending_foldl [DecidableEq K] (entries : List (TinyPBProtocol × K)) (done : K) :
    ((entries.foldl runWriteDone c).pending.map Prod.snd).count done
      ≤ (entries.map Prod.snd).count done + (c.pending.map Prod.snd).count done := by
  induction entries generalizing c with
  | nil => exact Nat.le_add_left _ _
  | cons entry entries ih =>
    have hone : ((c.runWriteDone entry).pending.map Prod.snd).count done
        ≤ (entry.2 :: c.pending.map Prod.snd).count done := by
      by_cases h : entry.1.msg_id_ ∈ c.pending.map Prod.fst
      · have hsome : c.pushReadMessage entry.1.msg_id_ entry.2 = c := by
          rw [pushReadMessage]
          split
          · rfl
          · exact absurd h (c.lookup_eq_none_iff.mp (by assumption))
        rw [pending_runWriteDone, hsome]
        exact List.count_le_count_cons
      · rw [pending_runWriteDone, c.pending_pushReadMessage h]
        exact le_rfl
    have hrest := ih (c.runWriteDone entry)
    rw [List.count_cons] at hone
    rw [List.foldl_cons, List.map_cons, List.count_cons]
    omega

/-- A reply that nobody waits for is dropped. -/
theorem handleReply_of_none {message : TinyPBProtocol}
    (h : c.read_dones_.lookup message.msg_id_ = none) : c.handleReply message = (c, []) := by
  rw [handleReply, h]

theorem handleReply_of_some {message : TinyPBProtocol} {done : K}
    (h : c.read_dones_.lookup message.msg_id_ = some done) :
    c.handleReply message
      = (c.popReadMessage message.msg_id_, [⟨message.msg_id_, done, message⟩]) := by
  rw [handleReply, h]

/-- **What becomes of the replies**: callbacks are taken out of the table,
and each is given a reply with its id. -/
theorem handleReplies_spec (result : List TinyPBProtocol) :
    ∃ read_dones_, (c.handleReplies result).1 = { c with read_dones_ := read_dones_ } ∧
      c.pending.Perm ((c.handleReplies result).1.pending
        ++ (c.handleReplies result).2.map Invocation.entry) ∧
      ∀ i ∈ (c.handleReplies result).2, i.message ∈ result ∧ i.msg_id = i.message.msg_id_ := by
  induction result generalizing c with
  | nil =>
    refine ⟨c.read_dones_, rfl, ?_, fun i hi => nomatch hi⟩
    show c.pending.Perm (c.pending ++ [])
    rw [List.append_nil]
  | cons message result ih =>
    obtain ⟨read, hconn, hperm, hall⟩ := ih (c.handleReply message).1
    have hcons : c.handleReplies (message :: result)
        = (((c.handleReply message).1.handleReplies result).1,
          (c.handleReply message).2 ++ ((c.handleReply message).1.handleReplies result).2) := rfl
    rw [hcons]
    cases hl : c.read_dones_.lookup message.msg_id_ with
    | none =>
      rw [c.handleReply_of_none hl] at hconn hperm hall ⊢
      exact ⟨read, hconn, hperm,
        fun i hi => ⟨List.mem_cons_of_mem _ (hall i hi).1, (hall i hi).2⟩⟩
    | some done =>
      rw [c.handleReply_of_some hl] at hconn hperm hall ⊢
      refine ⟨read, hconn, ?_, ?_⟩
      · refine (c.pending_popReadMessage hl).trans ((hperm.cons _).trans ?_)
        exact List.perm_middle.symm
      · intro i hi
        rcases List.mem_cons.mp hi with rfl | hi
        · exact ⟨List.mem_cons_self .., rfl⟩
        · exact ⟨List.mem_cons_of_mem _ (hall i hi).1, (hall i hi).2⟩

end Connection

end

/-! ## The thread of the loop -/

/-- Where the loop's thread is in `sendMessage`. -/
inductive SendPhase where
  /-- Not in it. -/
  | idle
  /-- The requests are taken and not encoded. -/
  | taken (messages : List TinyPBProtocol)
  /-- Before a `writeFd`. -/
  | writing
  /-- Everything is written, and `disableWriting` is next. -/
  | written
deriving DecidableEq

/-- The requests that are taken and not encoded. -/
def SendPhase.messages : SendPhase → List TinyPBProtocol
  | .taken messages => messages
  | _ => []

/-- **A connection and the threads that work on it**, with its history. -/
structure Endpoint (K : Type) where
  conn : Connection K
  phase : SendPhase := .idle
  /-- The threads that have pushed a request and not enabled writing. -/
  enabling : ℕ := 0
  /-- What was written to the socket and the peer has not read. -/
  socket : Bytes := []
  /-- The calls of `pushSendMessage`. -/
  pushed : List (TinyPBProtocol × K) := []
  /-- The requests whose write callbacks have run. -/
  sent : List (TinyPBProtocol × K) := []
  /-- What was read from the socket. -/
  received : Bytes := []
  /-- The reply callbacks that have run. -/
  invoked : List (Invocation K) := []

/-- The steps of the loop's thread. -/
inductive IoStep where
  /-- The socket is writable: `sendMessage` begins. -/
  | sendMessage
  | encode
  | write (result : WriteResult)
  | disableWriting
  /-- The peer has closed the connection. -/
  | close
deriving DecidableEq

namespace Endpoint

variable {K : Type}

/-- A client thread calls `pushSendMessage`; `enableWriting` is to
follow. -/
def push (e : Endpoint K) (message : TinyPBProtocol) (done : K) : Endpoint K :=
  { e with
    conn := e.conn.pushSendMessage message done
    enabling := e.enabling + 1
    pushed := e.pushed ++ [(message, done)] }

/-- A client thread that has pushed calls `enableWriting`. -/
def enable (e : Endpoint K) : Option (Endpoint K) :=
  if 0 < e.enabling then
    some { e with conn := e.conn.enableWriting, enabling := e.enabling - 1 }
  else none

/-- `sendMessage` up to its loop, but for the encoding. -/
def sendMessage (e : Endpoint K) : Endpoint K :=
  if e.conn.disConnect then e
  else
    match e.conn.type_ with
    | .ConnectionByServer => { e with phase := .writing }
    | .ConnectionByClient =>
      { e with
        conn := e.conn.takeWriteDones
        phase := .taken (e.conn.write_dones_.map Prod.fst)
        sent := e.sent ++ e.conn.write_dones_ }

/-- The loop body of `sendMessage`, but for `disableWriting`. -/
def writeOnce (e : Endpoint K) : WriteResult → Option (Endpoint K)
  | .written n =>
    match e.conn.outputbuffer_.writeFd n with
    | .error _ => none
    | .ok (data, b) => some
      { e with
        conn := { e.conn with outputbuffer_ := b }
        socket := e.socket ++ data
        phase := if b.readableBytes = 0 then .written else .writing }
  | .failed errno => some
      { e with
        phase :=
          if e.conn.outputbuffer_.readableBytes = 0 then .written
          else if errno = .EAGAIN then .idle
          else .writing }

/-- **What the loop's thread does next.** -/
def io (e : Endpoint K) : IoStep → Option (Endpoint K)
  | .sendMessage =>
    if e.phase = .idle ∧ e.conn.connectChannel_.registeredOut then some e.sendMessage else none
  | .encode =>
    match e.phase with
    | .taken messages => some
      { e with
        conn := { e.conn with outputbuffer_ := (encode messages e.conn.outputbuffer_).2 }
        phase := .writing }
    | _ => none
  | .write result => if e.phase = .writing then e.writeOnce result else none
  | .disableWriting =>
    if e.phase = .written then some { e with conn := e.conn.disableWriting, phase := .idle }
    else none
  | .close => if e.phase = .idle then some { e with conn := e.conn.closeCallback } else none

/-- The loop's thread reads `n` of the bytes that the peer has written. -/
def onMessage (receiver sender : Endpoint K) (n : ℕ) : Option (Endpoint K × Endpoint K) :=
  let data := sender.socket.take n
  if receiver.phase = .idle ∧ receiver.conn.connectChannel_.registeredIn
      ∧ 0 < n ∧ n ≤ sender.socket.length
      ∧ n ≤ receiver.conn.inputbuffer_.writeableBytes + Buffer.extrabufSize then some
    ({ receiver with
        conn := { receiver.conn with inputbuffer_ := receiver.conn.inputbuffer_.readFd data }
        received := receiver.received ++ data },
      { sender with socket := sender.socket.drop n })
  else none

/-! ## What a step does -/

variable {e e' : Endpoint K} {ms : List TinyPBProtocol}

/-- What is on its way from an endpoint to its peer. -/
def outgoing (e : Endpoint K) : Bytes := e.socket ++ e.conn.outputbuffer_.readable

/-- What stays as it is while bytes move toward the socket. -/
structure Frame (e e' : Endpoint K) : Prop where
  type_ : e'.conn.type_ = e.conn.type_
  inputbuffer_ : e'.conn.inputbuffer_ = e.conn.inputbuffer_
  write_dones_ : e'.conn.write_dones_ = e.conn.write_dones_
  read_dones_ : e'.conn.read_dones_ = e.conn.read_dones_
  pushed : e'.pushed = e.pushed
  sent : e'.sent = e.sent
  received : e'.received = e.received
  invoked : e'.invoked = e.invoked

/-- **Bytes move toward the socket**, the frames of `ms` among them for the
first time. -/
structure Flow (e : Endpoint K) (ms : List TinyPBProtocol) (e' : Endpoint K) : Prop where
  frame : Frame e e'
  outgoing : e'.outgoing = e.outgoing ++ ms.flatMap wire

theorem Flow.refl (e : Endpoint K) : Flow e [] e :=
  ⟨⟨rfl, rfl, rfl, rfl, rfl, rfl, rfl, rfl⟩, (List.append_nil _).symm⟩

/-- **The requests that are queued are taken.** -/
structure Take (e e' : Endpoint K) : Prop where
  idle : e.phase = .idle
  client : e.conn.type_ = .ConnectionByClient
  eq : e' = { e with
    conn := e.conn.takeWriteDones
    phase := .taken (e.conn.write_dones_.map Prod.fst)
    sent := e.sent ++ e.conn.write_dones_ }

theorem sendMessage_cases (e : Endpoint K) (h : e.phase = .idle) :
    Take e e.sendMessage ∨ (Flow e [] e.sendMessage ∧ e.sendMessage.phase.messages = []) := by
  have hidle : e.phase.messages = [] := by rw [h]; rfl
  unfold sendMessage
  split
  · exact .inr ⟨Flow.refl e, hidle⟩
  · split
    · exact .inr ⟨⟨⟨rfl, rfl, rfl, rfl, rfl, rfl, rfl, rfl⟩, (List.append_nil _).symm⟩, rfl⟩
    · exact .inl ⟨h, by assumption, rfl⟩

theorem flow_writeOnce {result : WriteResult} (h : e.writeOnce result = some e') :
    Flow e [] e' ∧ e'.phase.messages = [] := by
  have hphase : ∀ (p : Prop) [Decidable p] (q : SendPhase), q.messages = [] →
      (if p then SendPhase.written else q).messages = [] := by
    intro p _ q hq
    split
    · rfl
    · exact hq
  cases result with
  | written n =>
    rw [writeOnce] at h
    cases hw : e.conn.outputbuffer_.writeFd n with
    | error _ => rw [hw] at h; cases h
    | ok r =>
      obtain ⟨data, b⟩ := r
      rw [hw] at h
      obtain rfl := Option.some.inj h
      have hmoved : data ++ b.readable = e.conn.outputbuffer_.readable := by
        unfold Buffer.writeFd at hw
        cases hr : e.conn.outputbuffer_.retrieve n with
        | error _ => rw [hr] at hw; cases hw
        | ok b' =>
          rw [hr] at hw
          obtain ⟨rfl, rfl⟩ := Prod.mk.inj (Except.ok.inj hw)
          rw [(Buffer.retrieve_eq_ok hr).2, List.take_append_drop]
      refine ⟨⟨⟨rfl, rfl, rfl, rfl, rfl, rfl, rfl, rfl⟩, ?_⟩, hphase _ _ rfl⟩
      show (e.socket ++ data) ++ b.readable = (e.socket ++ e.conn.outputbuffer_.readable) ++ []
      rw [List.append_nil, List.append_assoc, hmoved]
  | failed errno =>
    obtain rfl := Option.some.inj h
    refine ⟨⟨⟨rfl, rfl, rfl, rfl, rfl, rfl, rfl, rfl⟩, (List.append_nil _).symm⟩,
      hphase _ _ ?_⟩
    split <;> rfl

/-- **What each step of the loop's thread does**, and where it can be
taken. -/
inductive IoMoves (e : Endpoint K) : IoStep → Endpoint K → Prop
  | sendMessage (hidle : e.phase = .idle)
      (hregistered : e.conn.connectChannel_.registeredOut = true) :
      IoMoves e .sendMessage e.sendMessage
  | encode {messages : List TinyPBProtocol} (hphase : e.phase = .taken messages) :
      IoMoves e .encode
        { e with
          conn := { e.conn with outputbuffer_ := (encode messages e.conn.outputbuffer_).2 }
          phase := .writing }
  | write {result : WriteResult} {e' : Endpoint K} (hphase : e.phase = .writing)
      (hwrite : e.writeOnce result = some e') : IoMoves e (.write result) e'
  | disableWriting (hphase : e.phase = .written) :
      IoMoves e .disableWriting { e with conn := e.conn.disableWriting, phase := .idle }
  | close (hidle : e.phase = .idle) : IoMoves e .close { e with conn := e.conn.closeCallback }

theorem ioMoves_of_io {step : IoStep} (h : e.io step = some e') : IoMoves e step e' := by
  cases step with
  | sendMessage =>
    rw [io] at h
    split at h
    case isFalse => cases h
    case isTrue hc =>
      obtain rfl := Option.some.inj h
      exact .sendMessage hc.1 hc.2
  | encode =>
    rw [io] at h
    split at h
    case h_2 => cases h
    case h_1 messages hphase =>
      obtain rfl := Option.some.inj h
      exact .encode hphase
  | write result =>
    rw [io] at h
    split at h
    case isFalse => cases h
    case isTrue hphase => exact .write hphase h
  | disableWriting =>
    rw [io] at h
    split at h
    case isFalse => cases h
    case isTrue hphase =>
      obtain rfl := Option.some.inj h
      exact .disableWriting hphase
  | close =>
    rw [io] at h
    split at h
    case isFalse => cases h
    case isTrue hphase =>
      obtain rfl := Option.some.inj h
      exact .close hphase

/-- **A step of the loop's thread**: it takes the queued requests, or it
moves bytes, among them those of requests that were taken. -/
theorem io_cases {step : IoStep} (h : e.io step = some e') :
    Take e e' ∨ ∃ ms, e.phase.messages = ms ++ e'.phase.messages ∧ Flow e ms e' := by
  cases ioMoves_of_io h with
  | sendMessage hidle _ =>
    refine (sendMessage_cases e hidle).imp id fun ⟨hflow, hmessages⟩ => ⟨[], ?_, hflow⟩
    rw [hmessages, hidle]
    rfl
  | @encode messages hphase =>
    refine .inr ⟨messages, by rw [hphase]; exact (List.append_nil _).symm,
      ⟨rfl, rfl, rfl, rfl, rfl, rfl, rfl, rfl⟩, ?_⟩
    rw [outgoing, readable_encode, ← List.append_assoc]
    rfl
  | write hphase hwrite =>
    obtain ⟨hflow, hmessages⟩ := flow_writeOnce hwrite
    exact .inr ⟨[], by rw [hmessages, hphase]; rfl, hflow⟩
  | disableWriting hphase =>
    exact .inr ⟨[], by rw [hphase]; rfl, ⟨rfl, rfl, rfl, rfl, rfl, rfl, rfl, rfl⟩,
      (List.append_nil _).symm⟩
  | close hidle =>
    exact .inr ⟨[], by rw [hidle]; rfl, ⟨rfl, rfl, rfl, rfl, rfl, rfl, rfl, rfl⟩,
      (List.append_nil _).symm⟩

/-- **`enableWriting` moves nothing.** -/
theorem flow_enable (h : e.enable = some e') : Flow e [] e' ∧ e'.phase = e.phase := by
  rw [enable] at h
  split at h
  case isFalse => cases h
  case isTrue =>
    obtain rfl := Option.some.inj h
    exact ⟨⟨⟨rfl, rfl, rfl, rfl, rfl, rfl, rfl, rfl⟩, (List.append_nil _).symm⟩, rfl⟩

/-- **`regSend` adds frames**, unless the connection is closed. -/
theorem flow_regSend (e : Endpoint K) (respond_pkgs : List TinyPBProtocol) :
    Flow e (if e.conn.disConnect then [] else respond_pkgs)
      { e with conn := e.conn.regSend respond_pkgs } := by
  rw [Connection.regSend]
  split
  · exact Flow.refl e
  · refine ⟨⟨rfl, rfl, rfl, rfl, rfl, rfl, rfl, rfl⟩, ?_⟩
    show e.socket ++ (encode respond_pkgs e.conn.outputbuffer_).2.readable = _
    rw [readable_encode, ← List.append_assoc]
    rfl

/-- **Bytes are read**: some of those that are on their way. -/
theorem onMessage_eq_some {receiver sender receiver' sender' : Endpoint K} {n : ℕ}
    (h : receiver.onMessage sender n = some (receiver', sender')) :
    receiver' = { receiver with
        conn := { receiver.conn with
          inputbuffer_ := receiver.conn.inputbuffer_.readFd (sender.socket.take n) }
        received := receiver.received ++ sender.socket.take n } ∧
      sender' = { sender with socket := sender.socket.drop n } := by
  rw [onMessage] at h
  split at h
  case isFalse => cases h
  case isTrue =>
    obtain ⟨hr, hs⟩ := Prod.mk.inj (Option.some.inj h)
    exact ⟨hr.symm, hs.symm⟩

end Endpoint

end PbRpc
