import PbRpc.WriteInterest

/-!
# The client

`TcpClient` keeps one connection for each service in `server_conns_`.
`getConnection` looks it up; if there is none it connects and stores the new
connection, and the lock is held for the lookup and for the store but not in
between. A timer sends heartbeats: each round pushes one message to every
connection that is cached, waits, and then takes the reply callbacks back
and counts. `keepalive_count_` goes up for every cached service, a reply to a
heartbeat sets it back, and at three the connection is taken out of the
cache. The pushes and the counts are two loops over the map; each is one step
here, as no order of their iterations with the steps of other threads is
lost by that.

The callbacks of a heartbeat keep a reference to the entry of the map that it
was pushed for. The write callback registers the reply callback with the
connection that is in the entry when it runs, and the reply callback writes
the counter under the key of the entry. Where the entry has been erased the
reference is dangling: the source uses freed memory, and here the step that
runs the callback cannot be taken. What is said of the runs is said of those
in which no such callback runs.

Beside the state there is an account of the rounds (`Round`): on which
connections a heartbeat was queued, which of them were answered, and what
was done at the end. No step depends on it.
-/

namespace PbRpc

open TinyPBCoder Transition

/-- **How `connect` went**: at once, or after a `select`, or not at all. -/
inductive ConnectOutcome where
  | connected
  | inProgress (rc : ℤ) (isset : Bool) (so_error : ℤ)
  | failed
deriving DecidableEq, Repr

/-- `getConnection` goes on with a connection. -/
def ConnectOutcome.opens : ConnectOutcome → Bool
  | connected => true
  | inProgress rc isset _ => rc == 1 && isset
  | failed => false

/-- **A reply callback of the client's**: that of a call, or that of a
heartbeat, which has a reference to an entry of the map. Of a heartbeat it is
also noted on which connection it was queued, and in which round. -/
inductive ClientDone where
  | call (done : ℕ)
  | keepalive (kv conn round : ℕ)
deriving DecidableEq, Repr

/-- The callback of a call, whose write callback enables reading. -/
def ClientDone.isCall : ClientDone → Bool
  | call _ => true
  | keepalive _ _ _ => false

/-- **An entry of `server_conns_`**: which one it is, for the references to
it, and the connection. -/
structure CacheEntry where
  kv : ℕ
  conn : ℕ
deriving DecidableEq, Repr

/-- Where a caller is in `getConnection`. It is noted how many connections
had been stored for the service when the lookup failed. -/
inductive CallerPhase where
  | outside
  | connecting (server_name : Bytes) (stores : ℕ)
  | storing (server_name : Bytes) (conn stores : ℕ)
deriving DecidableEq, Repr

/-- The service whose lookup failed, and how many connections had been
stored for it then. -/
def CallerPhase.missedAt : CallerPhase → Option (Bytes × ℕ)
  | outside => none
  | connecting server_name stores | storing server_name _ stores => some (server_name, stores)

/-- A connection that `getConnection` returned, or replaced in the cache, and
whether it was disconnected then. -/
structure ConnResult where
  server_name : Bytes
  conn : Option ℕ
  disConnect : Bool
deriving DecidableEq, Repr

/-- **A round of the keepalive timer.** -/
structure Round where
  msg_id : Bytes
  /-- The connections a heartbeat was queued on. -/
  queued : List ℕ
  /-- Those to which an answer came after the heartbeat was written. -/
  arrived : List ℕ := []
  /-- Those whose heartbeat had its reply callback run. -/
  answered : List ℕ := []
  /-- What was cached when the wait ended. -/
  counted : List ℕ := []
  /-- Of these, the ones whose heartbeat was not written, or its answer not
  handled. -/
  unheard : List ℕ := []
  /-- Of these, the ones that were taken out of the cache. -/
  evicted : List ℕ := []
deriving DecidableEq, Repr

/-- The message of a round. -/
def keepalivePkg (msg_id : Bytes) : TinyPBProtocol := { msg_type_ := 1, msg_id_ := msg_id }

/-- The messages whose frames are within the first `n` bytes. -/
def framesWithin {K : Type} : ℕ → List (TinyPBProtocol × K) → List (TinyPBProtocol × K)
  | _, [] => []
  | n, entry :: entries =>
    if (wire entry.1).length ≤ n then
      entry :: framesWithin (n - (wire entry.1).length) entries
    else []

/-- **The messages that were written to the socket**, frame by frame. -/
def Endpoint.written {K : Type} (e : Endpoint K) : List (TinyPBProtocol × K) :=
  framesWithin e.socket.length e.sent

/-- **The client**, its callers `ι`, and the connections it has made. -/
structure TcpClient (ι : Type) where
  server_conns_ : AList (fun _ : Bytes => CacheEntry) := ∅
  keepalive_count_ : Bytes → ℤ := fun _ => 0
  conns : ℕ → Endpoint ClientDone := fun _ => Endpoint.client ClientDone
  /-- What has arrived for a connection and is not handled. -/
  inbox : ℕ → List TinyPBProtocol := fun _ => []
  /-- The connections that were made. -/
  created : ℕ := 0
  /-- The entries of the map that were made. -/
  kvs : ℕ := 0
  callers : ι → CallerPhase := fun _ => .outside
  /-- The round that waits. -/
  round : Option Round := none
  /-- The rounds that have ended, the last one first. -/
  history : List Round := []
  /-- The connections that were stored, each with its service. -/
  stored : List (Bytes × ℕ) := []
  /-- The connections that were cached when another was stored. -/
  replaced : List ConnResult := []
  /-- What `getConnection` has returned. -/
  results : List ConnResult := []

/-- **The atomic steps.** -/
inductive ClientStep (ι : Type) where
  /-- `getConnection` up to the connect, or to its end. -/
  | lookup (i : ι) (server_name : Bytes)
  | connect (i : ι) (outcome : ConnectOutcome)
  | store (i : ι)
  /-- A call pushes its request on a connection. -/
  | push (c : ℕ) (message : TinyPBProtocol) (done : ℕ)
  | enable (c : ℕ)
  /-- The loop of a connection. -/
  | io (c : ℕ) (step : IoStep)
  /-- A message arrives from the peer. -/
  | arrive (c : ℕ) (message : TinyPBProtocol)
  /-- The loop of a connection handles a message. -/
  | parse (c : ℕ)
  | beginRound (msg_id : Bytes)
  | endRound

namespace TcpClient

variable {ι : Type}

/-! ## Connections -/

/-- A step of one connection. -/
def setConn (s : TcpClient ι) (c : ℕ) (e : Endpoint ClientDone) : TcpClient ι :=
  { s with conns := Function.update s.conns c e }

def pushReadMessage (s : TcpClient ι) (c : ℕ) (msg_id : Bytes) (done : ClientDone) :
    TcpClient ι :=
  s.setConn c { s.conns c with conn := (s.conns c).conn.pushReadMessage msg_id done }

/-- The entry that a reference is to, with its key. -/
def entryAt (s : TcpClient ι) (kv : ℕ) : Option (Sigma fun _ : Bytes => CacheEntry) :=
  s.server_conns_.entries.find? (fun entry => entry.2.kv = kv)

/-- A write callback. That of a call registers the reply callback and the
interest in reading; that of a heartbeat registers the reply callback with
the connection of its entry. -/
def runWriteDone (s : TcpClient ι) (c : ℕ) (entry : TinyPBProtocol × ClientDone) :
    Option (TcpClient ι) :=
  match entry.2 with
  | .call _ => some (s.setConn c { s.conns c with conn := (s.conns c).conn.callWriteDone entry })
  | .keepalive kv _ _ =>
    (s.entryAt kv).map (fun e => s.pushReadMessage e.2.conn entry.1.msg_id_ entry.2)

/-- The loop over `write_dones_` in `sendMessage`. -/
def runWriteDones (c : ℕ) :
    List (TinyPBProtocol × ClientDone) → TcpClient ι → Option (TcpClient ι)
  | [], s => some s
  | entry :: entries, s => (s.runWriteDone c entry).bind (runWriteDones c entries)

/-- What `sendMessage` has taken. -/
def taken (e : Endpoint ClientDone) (entries : List (TinyPBProtocol × ClientDone)) :
    Endpoint ClientDone :=
  { e with
    conn := { e.conn with write_dones_ := [] }
    phase := .taken (entries.map Prod.fst)
    sent := e.sent ++ entries }

/-- `sendMessage` up to its loop, but for the encoding. -/
def sendMessage (s : TcpClient ι) (c : ℕ) : Option (TcpClient ι) :=
  let entries := (s.conns c).conn.write_dones_
  if (s.conns c).conn.disConnect then some s
  else (runWriteDones c entries s).map (fun s => s.setConn c (taken (s.conns c) entries))

/-- What the loop of a connection does next. A connection is closed, or has
an error, while it is registered. -/
def io (s : TcpClient ι) (c : ℕ) (step : IoStep) : Option (TcpClient ι) :=
  match step with
  | .sendMessage =>
    if (s.conns c).phase = .idle ∧ (s.conns c).conn.connectChannel_.registeredOut then
      s.sendMessage c
    else none
  | .close =>
    if (s.conns c).conn.connectChannel_.inepoll_ then
      ((s.conns c).io .close).map (s.setConn c)
    else none
  | step => ((s.conns c).io step).map (s.setConn c)

/-- A reply callback. -/
def runReadDone (s : TcpClient ι) : ClientDone → Option (TcpClient ι)
  | .call _ => some s
  | .keepalive kv conn round => (s.entryAt kv).map (fun e =>
    { s with
      keepalive_count_ := Function.update s.keepalive_count_ e.1 (-1)
      round := s.round.map (fun r =>
        if round = s.history.length then { r with answered := conn :: r.answered } else r) })

/-- The body of the loop in `parseMsg`. -/
def parse (s : TcpClient ι) (c : ℕ) : Option (TcpClient ι) :=
  match s.inbox c with
  | [] => none
  | message :: rest =>
    let s := { s with inbox := Function.update s.inbox c rest }
    match (s.conns c).conn.read_dones_.lookup message.msg_id_ with
    | none => some s
    | some done =>
      (s.setConn c { s.conns c with
        conn := (s.conns c).conn.popReadMessage message.msg_id_ }).runReadDone done

/-- The heartbeat of the round that waits is written to a connection. -/
def writtenOn (s : TcpClient ι) (msg_id : Bytes) (c : ℕ) : Bool :=
  (s.conns c).written.any (fun entry => entry.1.msg_id_ = msg_id)

/-- The heartbeat of the round that waits is written to a connection, and
its loop, if it is told of what arrives, has handled the answers to it. -/
def heardOn (s : TcpClient ι) (msg_id : Bytes) (c : ℕ) : Bool :=
  s.writtenOn msg_id c && (!(s.conns c).conn.connectChannel_.registeredIn ||
    (s.inbox c).all (fun message => message.msg_id_ ≠ msg_id))

/-- A message arrives, and may be the answer to the heartbeat. -/
def arrive (s : TcpClient ι) (c : ℕ) (message : TinyPBProtocol) : TcpClient ι :=
  { s with
    inbox := Function.update s.inbox c (s.inbox c ++ [message])
    round := s.round.map (fun r =>
      if message.msg_id_ = r.msg_id ∧ s.writtenOn r.msg_id c = true then
        { r with arrived := c :: r.arrived }
      else r) }

/-! ## `getConnection` -/

/-- `getConnection` returns. -/
def returns [DecidableEq ι] (s : TcpClient ι) (i : ι) (server_name : Bytes) (conn : Option ℕ) :
    TcpClient ι :=
  { s with
    callers := Function.update s.callers i .outside
    results := s.results ++ [⟨server_name, conn,
      match conn with
      | none => false
      | some c => (s.conns c).conn.disConnect⟩] }

/-- How many connections were stored for a service. -/
def stores (s : TcpClient ι) (server_name : Bytes) : ℕ :=
  (s.stored.filter (fun p => p.1 = server_name)).length

variable [DecidableEq ι]

/-- The lookup failed, and `connect` is next. -/
def connects (s : TcpClient ι) (i : ι) (server_name : Bytes) : TcpClient ι :=
  { s with callers := Function.update s.callers i (.connecting server_name (s.stores server_name)) }

def lookup (s : TcpClient ι) (i : ι) (server_name : Bytes) : TcpClient ι :=
  match s.server_conns_.lookup server_name with
  | some entry =>
    if s.keepalive_count_ server_name < 3 then s.returns i server_name (some entry.conn)
    else s.connects i server_name
  | none => s.connects i server_name

/-- The new connection, if there is one, is in no table yet. -/
def connect (s : TcpClient ι) (i : ι) (server_name : Bytes) (stores : ℕ)
    (outcome : ConnectOutcome) : TcpClient ι :=
  if outcome.opens then
    { s with
      created := s.created + 1
      callers := Function.update s.callers i (.storing server_name s.created stores) }
  else s.returns i server_name none

/-- `server_conns_[server_name] = conn`, and the counter is 0. -/
def cache (s : TcpClient ι) (server_name : Bytes) (conn : ℕ) : TcpClient ι :=
  let s := { s with
    keepalive_count_ := Function.update s.keepalive_count_ server_name 0
    stored := s.stored ++ [(server_name, conn)] }
  match s.server_conns_.lookup server_name with
  | some entry =>
    { s with
      server_conns_ := s.server_conns_.insert server_name { entry with conn := conn }
      replaced := s.replaced ++
        [⟨server_name, some entry.conn, (s.conns entry.conn).conn.disConnect⟩] }
  | none =>
    { s with
      server_conns_ := s.server_conns_.insert server_name ⟨s.kvs, conn⟩
      kvs := s.kvs + 1 }

/-! ## The keepalive timer -/

section Keepalive

omit [DecidableEq ι]

/-- The body of the loop that pushes. -/
def pushKeepalive (msg_id : Bytes) (s : TcpClient ι)
    (entry : Sigma fun _ : Bytes => CacheEntry) : TcpClient ι :=
  let e := s.conns entry.2.conn
  let done := .keepalive entry.2.kv entry.2.conn s.history.length
  s.setConn entry.2.conn { e with
    conn := e.conn.pushSendMessage (keepalivePkg msg_id) done
    pushed := e.pushed ++ [(keepalivePkg msg_id, done)] }

def cachedConns (s : TcpClient ι) : List ℕ :=
  s.server_conns_.entries.map (fun entry => entry.2.conn)

def beginRound (s : TcpClient ι) (msg_id : Bytes) : TcpClient ι :=
  { s.server_conns_.entries.foldl (pushKeepalive msg_id) s with
    round := some { msg_id := msg_id, queued := s.cachedConns } }

/-- The body of the loop that counts. -/
def countKeepalive (msg_id : Bytes) (s : TcpClient ι)
    (entry : Sigma fun _ : Bytes => CacheEntry) : TcpClient ι :=
  let e := s.conns entry.2.conn
  let s := s.setConn entry.2.conn { e with conn := e.conn.popReadMessage msg_id }
  let count := s.keepalive_count_ entry.1 + 1
  if count ≥ 3 then
    { s with
      keepalive_count_ := Function.update s.keepalive_count_ entry.1 0
      server_conns_ := s.server_conns_.erase entry.1 }
  else { s with keepalive_count_ := Function.update s.keepalive_count_ entry.1 count }

/-- The account of a round that has ended. -/
def account (s : TcpClient ι) (r : Round) (s' : TcpClient ι) : Round :=
  { r with
    counted := s.cachedConns
    unheard := s.cachedConns.filter (fun c => !s.heardOn r.msg_id c)
    evicted := (s.server_conns_.entries.filter
      (fun entry => !s'.server_conns_.keys.contains entry.1)).map (fun entry => entry.2.conn) }

def endRound (s : TcpClient ι) (r : Round) : TcpClient ι :=
  let s' := s.server_conns_.entries.foldl (countKeepalive r.msg_id) s
  { s' with round := none, history := s.account r s' :: s.history }

end Keepalive

/-- **One step.** None is taken that runs a heartbeat's callback after its
entry of the map was erased. -/
def step (s : TcpClient ι) : ClientStep ι → Option (TcpClient ι)
  | .lookup i server_name =>
    if s.callers i = .outside then some (s.lookup i server_name) else none
  | .connect i outcome =>
    match s.callers i with
    | .connecting server_name stores => some (s.connect i server_name stores outcome)
    | _ => none
  | .store i =>
    match s.callers i with
    | .storing server_name conn _ =>
      some ((s.cache server_name conn).returns i server_name (some conn))
    | _ => none
  | .push c message done =>
    if c ∈ s.stored.map Prod.snd then some (s.setConn c ((s.conns c).push message (.call done)))
    else none
  | .enable c => (s.conns c).enable.map (s.setConn c)
  | .io c step => s.io c step
  | .arrive c message => if c ∈ s.stored.map Prod.snd then some (s.arrive c message) else none
  | .parse c =>
    if (s.conns c).phase = .idle ∧ (s.conns c).conn.connectChannel_.registeredIn then s.parse c
    else none
  | .beginRound msg_id => if s.round = none then some (s.beginRound msg_id) else none
  | .endRound => s.round.map s.endRound

/-- The connections that were taken out of the cache by the timer. -/
def evicted (s : TcpClient ι) : List ℕ := s.history.flatMap Round.evicted

/-! ## What a step can do -/

/-- **The steps, branch by branch.** -/
inductive StepCases (s : TcpClient ι) : ClientStep ι → TcpClient ι → Prop
  | found {i : ι} {server_name : Bytes} {entry : CacheEntry} (hi : s.callers i = .outside)
    (hentry : s.server_conns_.lookup server_name = some entry)
    (hcount : s.keepalive_count_ server_name < 3) :
    StepCases s (.lookup i server_name) (s.returns i server_name (some entry.conn))
  | missed {i : ι} {server_name : Bytes} (hi : s.callers i = .outside)
    (hmiss : s.keepalive_count_ server_name < 3 → s.server_conns_.lookup server_name = none) :
    StepCases s (.lookup i server_name) (s.connects i server_name)
  | connected {i : ι} {outcome : ConnectOutcome} {server_name : Bytes} {stores : ℕ}
    (hi : s.callers i = .connecting server_name stores) (hopens : outcome.opens = true) :
    StepCases s (.connect i outcome) { s with
      created := s.created + 1
      callers := Function.update s.callers i (.storing server_name s.created stores) }
  | refused {i : ι} {outcome : ConnectOutcome} {server_name : Bytes} {stores : ℕ}
    (hi : s.callers i = .connecting server_name stores) (hopens : outcome.opens = false) :
    StepCases s (.connect i outcome) (s.returns i server_name none)
  | store {i : ι} {server_name : Bytes} {conn stores : ℕ}
    (hi : s.callers i = .storing server_name conn stores) :
    StepCases s (.store i) ((s.cache server_name conn).returns i server_name (some conn))
  | push {c : ℕ} (message : TinyPBProtocol) (done : ℕ) (hc : c ∈ s.stored.map Prod.snd) :
    StepCases s (.push c message done) (s.setConn c ((s.conns c).push message (.call done)))
  | enable {c : ℕ} {e : Endpoint ClientDone} (he : (s.conns c).enable = some e) :
    StepCases s (.enable c) (s.setConn c e)
  | dropped {c : ℕ} (hdis : (s.conns c).conn.disConnect = true) :
    StepCases s (.io c .sendMessage) s
  | take {c : ℕ} {s₁ : TcpClient ι} (hidle : (s.conns c).phase = .idle)
    (hout : (s.conns c).conn.connectChannel_.registeredOut = true)
    (hconn : (s.conns c).conn.disConnect = false)
    (hrun : runWriteDones c (s.conns c).conn.write_dones_ s = some s₁) :
    StepCases s (.io c .sendMessage)
      (s₁.setConn c (taken (s₁.conns c) (s.conns c).conn.write_dones_))
  | close {c : ℕ} (hreg : (s.conns c).conn.connectChannel_.inepoll_ = true)
    (hidle : (s.conns c).phase = .idle) :
    StepCases s (.io c .close)
      (s.setConn c { s.conns c with conn := (s.conns c).conn.closeCallback })
  | write {c : ℕ} {step : IoStep} {e : Endpoint ClientDone} (hsend : step ≠ .sendMessage)
    (hclose : step ≠ .close) (he : (s.conns c).io step = some e) :
    StepCases s (.io c step) (s.setConn c e)
  | arrive {c : ℕ} (message : TinyPBProtocol) (hc : c ∈ s.stored.map Prod.snd) :
    StepCases s (.arrive c message) (s.arrive c message)
  | unheard {c : ℕ} {message : TinyPBProtocol} {rest : List TinyPBProtocol}
    (hin : (s.conns c).conn.connectChannel_.registeredIn = true)
    (hinbox : s.inbox c = message :: rest)
    (hdone : (s.conns c).conn.read_dones_.lookup message.msg_id_ = none) :
    StepCases s (.parse c) { s with inbox := Function.update s.inbox c rest }
  | reply {c : ℕ} {message : TinyPBProtocol} {rest : List TinyPBProtocol} {done : ClientDone}
    {s' : TcpClient ι} (hin : (s.conns c).conn.connectChannel_.registeredIn = true)
    (hinbox : s.inbox c = message :: rest)
    (hdone : (s.conns c).conn.read_dones_.lookup message.msg_id_ = some done)
    (hrun : (({ s with inbox := Function.update s.inbox c rest } : TcpClient ι).setConn c
      { s.conns c with conn := (s.conns c).conn.popReadMessage message.msg_id_ }).runReadDone done
        = some s') :
    StepCases s (.parse c) s'
  | beginRound (msg_id : Bytes) (hround : s.round = none) :
    StepCases s (.beginRound msg_id) (s.beginRound msg_id)
  | endRound {r : Round} (hround : s.round = some r) : StepCases s .endRound (s.endRound r)

theorem step_cases {s s' : TcpClient ι} {l : ClientStep ι} (hs : s.step l = some s') :
    StepCases s l s' := by
  cases l with
  | lookup i server_name =>
    rw [step] at hs
    obtain ⟨hi, hs⟩ := Option.ite_none_right_eq_some.mp hs
    obtain rfl := Option.some.inj hs
    rw [lookup]
    split
    case h_1 entry hentry =>
      split
      case isTrue hcount => exact .found hi hentry hcount
      case isFalse hcount => exact .missed hi (fun h => absurd h hcount)
    case h_2 hnone => exact .missed hi (fun _ => hnone)
  | connect i outcome =>
    rw [step] at hs
    split at hs
    case h_2 => cases hs
    case h_1 server_name stores hi =>
      obtain rfl := Option.some.inj hs
      rw [connect]
      split
      case isTrue hopens => exact .connected hi hopens
      case isFalse hopens => exact .refused hi (eq_false_of_ne_true hopens)
  | store i =>
    rw [step] at hs
    split at hs
    case h_2 => cases hs
    case h_1 server_name conn stores hi =>
      obtain rfl := Option.some.inj hs
      exact .store hi
  | push c message done =>
    rw [step] at hs
    obtain ⟨hc, hs⟩ := Option.ite_none_right_eq_some.mp hs
    obtain rfl := Option.some.inj hs
    exact .push message done hc
  | enable c =>
    obtain ⟨e, he, rfl⟩ := Option.map_eq_some_iff.mp hs
    exact .enable he
  | io c step =>
    cases step with
    | sendMessage =>
      rw [TcpClient.step, io] at hs
      split at hs
      case isFalse => cases hs
      case isTrue hready =>
        rw [sendMessage] at hs
        split at hs
        case isTrue hdis =>
          obtain rfl := Option.some.inj hs
          exact .dropped hdis
        case isFalse hconn =>
          obtain ⟨s₁, hrun, rfl⟩ := Option.map_eq_some_iff.mp hs
          exact .take hready.1 hready.2 (eq_false_of_ne_true hconn) hrun
    | close =>
      rw [TcpClient.step, io] at hs
      split at hs
      case isFalse => cases hs
      case isTrue hreg =>
        obtain ⟨e, he, rfl⟩ := Option.map_eq_some_iff.mp hs
        cases Endpoint.ioMoves_of_io he with
        | close hidle => exact .close hreg hidle
    | encode | write result | disableWriting =>
      obtain ⟨e, he, rfl⟩ := Option.map_eq_some_iff.mp hs
      exact .write IoStep.noConfusion IoStep.noConfusion he
  | arrive c message =>
    rw [step] at hs
    obtain ⟨hc, hs⟩ := Option.ite_none_right_eq_some.mp hs
    obtain rfl := Option.some.inj hs
    exact .arrive message hc
  | parse c =>
    rw [step] at hs
    split at hs
    case isFalse => cases hs
    case isTrue hready =>
      rw [parse] at hs
      split at hs
      case h_1 => cases hs
      case h_2 message rest hinbox =>
        dsimp only at hs
        split at hs
        case h_1 hdone =>
          obtain rfl := Option.some.inj hs
          exact .unheard hready.2 hinbox hdone
        case h_2 done hdone => exact .reply hready.2 hinbox hdone hs
  | beginRound msg_id =>
    rw [step] at hs
    obtain ⟨hround, hs⟩ := Option.ite_none_right_eq_some.mp hs
    obtain rfl := Option.some.inj hs
    exact .beginRound msg_id hround
  | endRound =>
    obtain ⟨r, hround, rfl⟩ := Option.map_eq_some_iff.mp hs
    exact .endRound hround

end TcpClient

end PbRpc
