import PbRpc.CacheHistory
import PbRpc.LockOrder

/-!
# The client's locks

The client takes locks inside of locks, and not in one order. `sendMessage`
runs the callbacks of the requests under `write_dones_mtx_`, and these take
`read_dones_mtx_`. `parseMsg` runs the callbacks of the replies under
`read_dones_mtx_`, and the user's closure in there may call another method,
which takes `mtx_`, a timer's mutex, and the `write_dones_mtx_` of any
connection, this one included.

Nothing is ever stuck all the same (`noDeadlock`), and the reason is who does
this. Both are done by the thread of the connection's loop, one after the
other, and all other threads take the two mutexes for a moment only. So
whoever waits for a `write_dones_mtx_` waits for a thread that is past its
`read_dones_mtx_`, or will be soon.

There is one exception. The callback of a heartbeat looks its connection up
in the cache when it runs, and may by then find the one that has replaced it,
whose thread is another. What saves this case is time: a closure only calls on
connections that it finds in the cache, so that no connection on which it waits
was replaced before its own was cached. `CacheHistory` has the times.
-/

namespace PbRpc
namespace ClientLocks

open LockOrder Transition

/-! ## The locks and the threads -/

/-- A connection. Its `fd` may be that of an older one. -/
structure Conn where
  id : ℕ
  fd : ℕ
deriving DecidableEq

/-- The loops of the `EventLoopGroup`, and `TcpClient::loop_`. -/
inductive Loop where
  | group (index : ℕ)
  | tcpClient
deriving DecidableEq

/-- **The mutexes.** `GetMsgId_` is the one of `MsgIdUtil`, `rwMutex` the one
of a `ServerNodeManager` and `mutex_` the one of a loop's `Time`. -/
inductive Mutex where
  | GetMsgId_
  | mtx_
  | rwMutex (service : ℕ)
  | mutex_ (loop : Loop)
  | taskMutex_ (loop : Loop)
  | write_dones_mtx_ (conn : Conn)
  | read_dones_mtx_ (conn : Conn)
deriving DecidableEq

/-- The threads of the loops, and those of the program and of etcd. -/
inductive Thread where
  | loop (loop : Loop)
  | other (index : ℕ)
deriving DecidableEq

abbrev Script := List (Op Mutex)

/-- `EventLoopGroup::getEventLoop`. -/
def getEventLoop (ioThread_ : ℕ) (conn : Conn) : Loop := .group (conn.fd % ioThread_)

/-! ## What the functions do with locks -/

def GetMsgId : Script := holding .GetMsgId_ []

def getLowestCPUNode (service : ℕ) : Script := holding (.rwMutex service) []

/-- `RpcServerList::getServerAddr`, of a service that it knows or not. -/
def getServerAddr (service : Option ℕ) : Script := service.elim [] getLowestCPUNode

/-- **How a `getConnection` goes**: it finds the connection in the cache, or it
looks the service up and opens one, when it can. -/
inductive Lookup where
  | cached (conn : Conn)
  | opened (service : Option ℕ) (conn : Option Conn)

/-- The connection that is returned. -/
def Lookup.conn : Lookup → Option Conn
  | .cached conn => some conn
  | .opened _ conn => conn

def getConnection : Lookup → Script
  | .cached _ => holding .mtx_ []
  | .opened service conn =>
    holding .mtx_ [] ++ (getServerAddr service ++ conn.elim [] fun _ => holding .mtx_ [])

def resetArriveTime (loop : Loop) : Script := holding (.mutex_ loop) []

/-- `Time::addTimerEvent`, of an event that is the first to come or not. -/
def addTimerEvent (loop : Loop) (is_reset_timerfd : Bool) : Script :=
  holding (.mutex_ loop) [] ++ cond is_reset_timerfd (resetArriveTime loop) []

def pushSendMessage (conn : Conn) : Script := holding (.write_dones_mtx_ conn) []

def pushReadMessage (conn : Conn) : Script := holding (.read_dones_mtx_ conn) []

def popReadMessage (conn : Conn) : Script := holding (.read_dones_mtx_ conn) []

/-- **How a call goes**: whether the channel was initialised and the request
serialised, and whether its timer is the first to come. -/
structure Call where
  lookup : Lookup
  serialized : Bool
  is_reset_timerfd : Bool

/-- **`RpcChannel::CallMethod`.** -/
def CallMethod (ioThread_ : ℕ) (call : Call) : Script :=
  GetMsgId ++ (getConnection call.lookup ++ call.lookup.conn.elim [] fun conn =>
    cond call.serialized
      (addTimerEvent (getEventLoop ioThread_ conn) call.is_reset_timerfd
        ++ pushSendMessage conn) [])

/-- **What is to be done on a reply**: that of a call runs the user's closure,
which may make further calls. -/
inductive ReadDone where
  | rpc (calls : List Call)
  | keepalive

def ReadDone.run (ioThread_ : ℕ) : ReadDone → Script
  | .rpc calls => calls.flatMap (CallMethod ioThread_)
  | .keepalive => holding .mtx_ []

/-- **`Connection::parseMsg`**, with what it finds for each of the messages. -/
def parseMsg (ioThread_ : ℕ) (conn : Conn) (found : List (Option ReadDone)) : Script :=
  found.flatMap fun done =>
    holding (.read_dones_mtx_ conn) (done.elim [] (ReadDone.run ioThread_))

/-- **`Connection::sendMessage`**, with the connections at which the callbacks
of the requests register. -/
def sendMessage (conn : Conn) (registered : List Conn) : Script :=
  holding (.write_dones_mtx_ conn) (registered.flatMap pushReadMessage)

/-- A round of keepalive: the connections that are sent a heartbeat, and those
that are looked at afterwards. -/
def keepalive (sent counted : List Conn) : Script :=
  GetMsgId ++ (sent.flatMap pushSendMessage ++
    counted.flatMap fun conn => popReadMessage conn ++ holding .mtx_ [])

/-- **What is done when a timer fires**: a call that has timed out runs the
user's closure. -/
inductive TimerDone where
  | rpc (calls : List Call)
  | keepalive (sent counted : List Conn)

def TimerDone.run (ioThread_ : ℕ) : TimerDone → Script
  | .rpc calls => calls.flatMap (CallMethod ioThread_)
  | .keepalive sent counted => ClientLocks.keepalive sent counted

/-- **`Time::onTime`**, with the events that are added again. -/
def onTime (ioThread_ : ℕ) (loop : Loop) (again : List Bool) (due : List TimerDone) : Script :=
  holding (.mutex_ loop) [] ++ (again.flatMap (addTimerEvent loop) ++
    (resetArriveTime loop ++ due.flatMap (TimerDone.run ioThread_)))

/-- `EventLoop::handleWakeup`. Nothing is queued in a loop of the client. -/
def handleWakeup (loop : Loop) : Script := holding (.taskMutex_ loop) []

/-- `ServerNodeManager::upsertNode` and `removeNode`. -/
def upsertNode (service : ℕ) : Script := holding (.rwMutex service) []

/-- **What the threads do.** -/
inductive Task where
  | call (call : Call)
  | upsertNode (service : ℕ)
  | parseMsg (conn : Conn) (found : List (Option ReadDone))
  | sendMessage (conn : Conn) (registered : List Conn)
  | onTime (loop : Loop) (again : List Bool) (due : List TimerDone)
  | handleWakeup (loop : Loop)

def Task.script (ioThread_ : ℕ) : Task → Script
  | .call c => CallMethod ioThread_ c
  | .upsertNode service => ClientLocks.upsertNode service
  | .parseMsg conn found => ClientLocks.parseMsg ioThread_ conn found
  | .sendMessage conn registered => ClientLocks.sendMessage conn registered
  | .onTime loop again due => ClientLocks.onTime ioThread_ loop again due
  | .handleWakeup loop => ClientLocks.handleWakeup loop

/-- The scripts of threads that do so many tasks. -/
def scripts (ioThread_ : ℕ) (tasks : Thread → List Task) (t : Thread) : Script :=
  (tasks t).flatMap (Task.script ioThread_)

/-! ## Who does what, and when -/

/-- The connections that a list of calls is made on. -/
def On (calls : List Call) (conn : Conn) : Prop := ∃ call ∈ calls, call.lookup.conn = some conn

/-- **A task as the client has it.** What a connection receives and sends is
done by the thread of its loop, as are a loop's own events. A closure that runs
on a reply calls on what it finds in the cache, where its own connection was
found before. The callback of a call registers at its own connection, and that
of a heartbeat at the one that is now found where its own was. -/
def Task.Fits (ioThread_ : ℕ) (history : CacheHistory ℕ Conn) (t : Thread) : Task → Prop
  | .call _ => True
  | .upsertNode _ => True
  | .parseMsg conn found => t = .loop (getEventLoop ioThread_ conn) ∧
      ∀ calls, some (.rpc calls) ∈ found → ∀ peer, On calls peer → history.FoundAfter conn peer
  | .sendMessage conn registered => t = .loop (getEventLoop ioThread_ conn) ∧
      ∀ peer ∈ registered, peer = conn ∨ history.Replaces peer conn
  | .onTime loop _ _ => t = .loop loop
  | .handleWakeup loop => t = .loop loop

/-- The mutexes inside of which no other is taken. -/
def Mutex.Leaf : Mutex → Prop
  | .write_dones_mtx_ _ => False
  | .read_dones_mtx_ _ => False
  | _ => True

section Locks

variable (ioThread_ : ℕ) (history : CacheHistory ℕ Conn) (t : Thread)

/-- **What is taken inside of what.** -/
inductive Allowed : Mutex → List Mutex → Prop
  | alone (l : Mutex) : Allowed l []
  | registers {conn peer : Conn} (ht : t = .loop (getEventLoop ioThread_ conn))
    (hpeer : peer = conn ∨ history.Replaces peer conn) :
    Allowed (.read_dones_mtx_ peer) [.write_dones_mtx_ conn]
  | leaf {conn : Conn} {l : Mutex} (ht : t = .loop (getEventLoop ioThread_ conn)) (hl : l.Leaf) :
    Allowed l [.read_dones_mtx_ conn]
  | calls {conn peer : Conn} (ht : t = .loop (getEventLoop ioThread_ conn))
    (hpeer : history.FoundAfter conn peer) :
    Allowed (.write_dones_mtx_ peer) [.read_dones_mtx_ conn]

/-- **The ranks of the waits.** The waits for a `write_dones_mtx_` and those of
other threads for a `read_dones_mtx_` are ranked by the times, the later the
lower. -/
noncomputable def rank : Mutex → ℕ
  | .write_dones_mtx_ conn => 2 * (history.steps.length + 1 - history.replacedAt conn) + 3
  | .read_dones_mtx_ conn =>
    if t = .loop (getEventLoop ioThread_ conn) then 1
    else 2 * (history.steps.length + 1 - history.cachedAt conn) + 2
  | _ => 0

end Locks

variable {ioThread_ : ℕ} {history : CacheHistory ℕ Conn} {t : Thread}

theorem rank_leaf {l : Mutex} (hl : l.Leaf) : rank ioThread_ history t l = 0 := by
  cases l with
  | write_dones_mtx_ => exact hl.elim
  | read_dones_mtx_ => exact hl.elim
  | _ => rfl

/-- **The waits are ranked.** -/
theorem ranked : Ranked (Allowed ioThread_ history) (rank ioThread_ history) := by
  intro t u l l' H H' htu hl hl' hmem
  cases hl' with
  | alone => cases hmem
  | @registers conn peer hu hpeer =>
    obtain rfl := List.mem_singleton.mp hmem
    show (if u = .loop (getEventLoop ioThread_ peer) then 1
      else 2 * (history.steps.length + 1 - history.cachedAt peer) + 2)
        < 2 * (history.steps.length + 1 - history.replacedAt conn) + 3
    split
    case isTrue => omega
    case isFalse hne =>
      -- the peer is not the connection itself, whose thread this is
      have hother : peer ≠ conn := fun heq => hne (heq ▸ hu)
      have hlater : history.replacedAt conn ≤ history.cachedAt peer :=
        CacheHistory.replacedAt_le_cachedAt (hpeer.resolve_left hother) hother
      omega
  | @leaf conn _ hu hleaf =>
    obtain rfl := List.mem_singleton.mp hmem
    rw [rank_leaf hleaf, rank]
    split <;> omega
  | @calls conn peer hu hpeer =>
    obtain rfl := List.mem_singleton.mp hmem
    have hle := history.replacedAt_le peer
    have hlater := CacheHistory.cachedAt_lt_replacedAt hpeer
    have ht : t ≠ .loop (getEventLoop ioThread_ conn) := fun ht => htu (ht.trans hu.symm)
    show 2 * (history.steps.length + 1 - history.replacedAt peer) + 3
      < rank ioThread_ history t (.read_dones_mtx_ conn)
    rw [rank, if_neg ht]
    omega

/-! ## What each of the functions takes -/

section Keeps

variable {H : List Mutex}

/-- Where a mutex may be taken for a moment. -/
def MayTake (ioThread_ : ℕ) (history : CacheHistory ℕ Conn) (t : Thread) (H : List Mutex)
    (l : Mutex) : Prop :=
  l ∉ H ∧ Allowed ioThread_ history t l H

theorem MayTake.keeps {l : Mutex} (h : MayTake ioThread_ history t H l) :
    Keeps (Allowed ioThread_ history t) H (holding l []) :=
  .holding h.1 h.2 .nil

theorem mayTake_alone (l : Mutex) : MayTake ioThread_ history t [] l :=
  ⟨List.not_mem_nil, .alone l⟩

/-- Inside a `read_dones_mtx_`, on the thread of the loop. -/
theorem mayTake_leaf {conn : Conn} {l : Mutex} (ht : t = .loop (getEventLoop ioThread_ conn))
    (hl : l.Leaf) : MayTake ioThread_ history t [.read_dones_mtx_ conn] l := by
  refine ⟨?_, .leaf ht hl⟩
  intro hmem
  rw [List.mem_singleton.mp hmem] at hl
  exact hl

theorem mayTake_peer {conn peer : Conn} (ht : t = .loop (getEventLoop ioThread_ conn))
    (hpeer : history.FoundAfter conn peer) :
    MayTake ioThread_ history t [.read_dones_mtx_ conn] (.write_dones_mtx_ peer) :=
  ⟨fun hmem => (nomatch List.mem_singleton.mp hmem), .calls ht hpeer⟩

variable (hleaf : ∀ l, l.Leaf → MayTake ioThread_ history t H l)

include hleaf

theorem keeps_getConnection (lookup : Lookup) :
    Keeps (Allowed ioThread_ history t) H (getConnection lookup) := by
  have hmtx := (hleaf .mtx_ trivial).keeps
  cases lookup with
  | cached conn => exact hmtx
  | opened service conn =>
    refine hmtx.append (.append ?_ ?_)
    · cases service with
      | none => exact .nil
      | some service => exact (hleaf (.rwMutex service) trivial).keeps
    · cases conn with
      | none => exact .nil
      | some conn => exact hmtx

theorem keeps_addTimerEvent (loop : Loop) (is_reset_timerfd : Bool) :
    Keeps (Allowed ioThread_ history t) H (addTimerEvent loop is_reset_timerfd) := by
  have hmutex := (hleaf (.mutex_ loop) trivial).keeps
  refine hmutex.append ?_
  cases is_reset_timerfd with
  | false => exact .nil
  | true => exact hmutex

theorem keeps_CallMethod (call : Call)
    (hpeer : ∀ peer, call.lookup.conn = some peer →
      MayTake ioThread_ history t H (.write_dones_mtx_ peer)) :
    Keeps (Allowed ioThread_ history t) H (CallMethod ioThread_ call) := by
  refine (hleaf .GetMsgId_ trivial).keeps.append ((keeps_getConnection hleaf _).append ?_)
  cases hconn : call.lookup.conn with
  | none => exact .nil
  | some conn =>
    show Keeps _ _ (cond call.serialized _ _)
    cases call.serialized with
    | false => exact .nil
    | true => exact (keeps_addTimerEvent hleaf _ _).append (hpeer conn hconn).keeps

/-- The user's closure. -/
theorem keeps_calls (calls : List Call)
    (hpeer : ∀ peer, On calls peer → MayTake ioThread_ history t H (.write_dones_mtx_ peer)) :
    Keeps (Allowed ioThread_ history t) H (calls.flatMap (CallMethod ioThread_)) :=
  .flatMap fun call hcall =>
    keeps_CallMethod hleaf call fun peer hconn => hpeer peer ⟨call, hcall, hconn⟩

end Keeps

theorem keeps_parseMsg {conn : Conn} {found : List (Option ReadDone)}
    (h : Task.Fits ioThread_ history t (.parseMsg conn found)) :
    Keeps (Allowed ioThread_ history t) [] (parseMsg ioThread_ conn found) := by
  obtain ⟨ht, hcalls⟩ := h
  have hleaf : ∀ l, l.Leaf → MayTake ioThread_ history t [.read_dones_mtx_ conn] l :=
    fun _ hl => mayTake_leaf ht hl
  refine .flatMap fun done hdone => .holding List.not_mem_nil (.alone _) ?_
  cases done with
  | none => exact .nil
  | some done =>
    cases done with
    | keepalive => exact (hleaf .mtx_ trivial).keeps
    | rpc calls =>
      exact keeps_calls hleaf calls fun peer hpeer =>
        mayTake_peer ht (hcalls calls hdone peer hpeer)

theorem keeps_sendMessage {conn : Conn} {registered : List Conn}
    (h : Task.Fits ioThread_ history t (.sendMessage conn registered)) :
    Keeps (Allowed ioThread_ history t) [] (sendMessage conn registered) := by
  obtain ⟨ht, hpeers⟩ := h
  refine .holding List.not_mem_nil (.alone _) (.flatMap fun peer hpeer => ?_)
  have htake : MayTake ioThread_ history t [.write_dones_mtx_ conn] (.read_dones_mtx_ peer) :=
    ⟨fun hmem => (nomatch List.mem_singleton.mp hmem), .registers ht (hpeers peer hpeer)⟩
  exact htake.keeps

theorem keeps_timerDone (due : TimerDone) :
    Keeps (Allowed ioThread_ history t) [] (due.run ioThread_) := by
  cases due with
  | rpc calls => exact keeps_calls (fun l _ => mayTake_alone l) calls fun _ _ => mayTake_alone _
  | keepalive sent counted =>
    refine (mayTake_alone _).keeps.append (.append ?_ ?_)
    · exact .flatMap fun conn _ => (mayTake_alone _).keeps
    · exact .flatMap fun conn _ => (mayTake_alone _).keeps.append (mayTake_alone _).keeps

/-- **Every task takes its locks as allowed.** -/
theorem keeps_task {task : Task} (h : task.Fits ioThread_ history t) :
    Keeps (Allowed ioThread_ history t) [] (task.script ioThread_) := by
  cases task with
  | call call => exact keeps_CallMethod (fun l _ => mayTake_alone l) call fun _ _ => mayTake_alone _
  | upsertNode service => exact (mayTake_alone _).keeps
  | parseMsg conn found => exact keeps_parseMsg h
  | sendMessage conn registered => exact keeps_sendMessage h
  | onTime loop again due =>
    refine (mayTake_alone _).keeps.append (.append ?_ ((mayTake_alone _).keeps.append ?_))
    · exact .flatMap fun reset _ => keeps_addTimerEvent (fun l _ => mayTake_alone l) loop reset
    · exact .flatMap fun done _ => keeps_timerDone done
  | handleWakeup loop => exact (mayTake_alone _).keeps

/-! ## No deadlock -/

/-- **Nothing is ever stuck.** In every state that the threads reach, whoever
is not done waits, through others, for a thread that can go on, and it is
always possible to go on until all of the tasks are done. -/
theorem noDeadlock (ioThread_ : ℕ) (history : CacheHistory ℕ Conn) {tasks : Thread → List Task}
    (hfits : ∀ t, ∀ task ∈ tasks t, task.Fits ioThread_ history t) {ts : Finset Thread}
    (hts : ∀ t ∉ ts, tasks t = []) {s : System Thread Mutex}
    (hruns : Runs System.step anyStep (start (scripts ioThread_ tasks)) s) :
    (∀ t, s.rest t ≠ [] → ∃ u, Relation.ReflTransGen (WaitsFor s) t u ∧ (s.step u).isSome) ∧
      ∃ s', Runs System.step anyStep s s' ∧ ∀ t, s'.rest t = [] := by
  have hinv : Inv (Allowed ioThread_ history) s :=
    hruns.invariant (fun _ _ _ h _ hs => h.step hs)
      (Inv.start fun t => .flatMap fun task htask => keeps_task (hfits t task htask))
  have hdone : ∀ t ∉ ts, s.rest t = [] := by
    intro t ht
    refine hruns.invariant (I := fun s => s.rest t = [])
      (fun _ _ _ h _ hs => rest_eq_nil_step h hs) ?_
    show (tasks t).flatMap (Task.script ioThread_) = []
    rw [hts t ht, List.flatMap_nil]
  exact ⟨fun t hmore => wait_ends ranked hinv hmore, completes ranked hinv hdone⟩

/-- A connection of one service and two of another, on the loops `0`, `1` and
`2`. -/
def conn₀ : Conn := ⟨0, 12⟩

def conn₁ : Conn := ⟨1, 13⟩

def conn₂ : Conn := ⟨2, 14⟩

def replacingSteps : List (CacheStep ℕ Conn) :=
  [.stored 0 conn₀, .stored 1 conn₁, .stored 1 conn₂]

theorem replacingSteps_once : replacingSteps.Pairwise fun step step' =>
    step.conn = none ∨ step.conn ≠ step'.conn := by
  decide

/-- The third connection replaces the second one. -/
def replacing : CacheHistory ℕ Conn := ⟨replacingSteps, replacingSteps_once⟩

/-- The heartbeat of the second connection registers at the third, which has a
reply; the closure of this calls on the first, which is about to send. A round
of keepalive has a heartbeat for the second. -/
def chain : Thread → List Task
  | .loop (.group 0) => [.sendMessage conn₀ [conn₀]]
  | .loop (.group 1) => [.sendMessage conn₁ [conn₂]]
  | .loop (.group 2) => [.parseMsg conn₂ [some (.rpc [⟨.cached conn₀, true, false⟩])]]
  | .loop .tcpClient => [.onTime .tcpClient [true] [.keepalive [conn₁] [conn₁]]]
  | _ => []

theorem chain_fits : ∀ t, ∀ task ∈ chain t, task.Fits 3 replacing t := by
  have hconn₀ : replacing.server_conns_ 3 0 = some conn₀ := by decide
  have hconn₁ : replacing.server_conns_ 2 1 = some conn₁ := by decide
  have hconn₂ : replacing.server_conns_ 3 1 = some conn₂ := by decide
  intro t task htask
  match t, htask with
  | .loop (.group 0), htask =>
    obtain rfl := List.mem_singleton.mp htask
    exact ⟨rfl, fun peer hpeer => .inl (List.mem_singleton.mp hpeer)⟩
  | .loop (.group 1), htask =>
    obtain rfl := List.mem_singleton.mp htask
    refine ⟨rfl, fun peer hpeer => .inr ?_⟩
    rw [List.mem_singleton.mp hpeer]
    exact ⟨1, 2, 3, Nat.le_succ 2, le_rfl, hconn₁, hconn₂⟩
  | .loop (.group 2), htask =>
    obtain rfl := List.mem_singleton.mp htask
    refine ⟨rfl, fun calls hcalls peer hpeer => ?_⟩
    obtain ⟨call, hcall, hlookup⟩ := hpeer
    cases List.mem_singleton.mp hcalls
    rw [List.mem_singleton.mp hcall] at hlookup
    obtain rfl := Option.some.inj hlookup
    exact ⟨3, 3, le_rfl, ⟨le_rfl, 1, hconn₂⟩, ⟨le_rfl, 0, hconn₀⟩⟩
  | .loop .tcpClient, htask =>
    obtain rfl := List.mem_singleton.mp htask
    exact rfl

/-- The steps up to where the thread of the heartbeats waits for that of the
second connection, this one for that of the third, and this one for that of
the first. -/
def chainSteps : List Thread :=
  .loop (.group 0) :: (List.replicate 7 (.loop (.group 2))
    ++ (.loop (.group 1) :: List.replicate 10 (.loop .tcpClient)))

theorem noDeadlock_chain :
    ∃ s, Runs System.step anyStep (start (scripts 3 chain)) s ∧
      s.step (.loop .tcpClient) = none ∧ s.step (.loop (.group 1)) = none ∧
      s.step (.loop (.group 2)) = none ∧
      ∃ u, Relation.ReflTransGen (WaitsFor s) (.loop .tcpClient) u ∧ (s.step u).isSome := by
  obtain ⟨s, hruns, h⟩ : ∃ s, Runs System.step anyStep (start (scripts 3 chain)) s ∧
      ((s.step (.loop .tcpClient)).isNone && (s.step (.loop (.group 1))).isNone &&
        (s.step (.loop (.group 2))).isNone && !(s.rest (.loop .tcpClient)).isEmpty) = true :=
    exists_of_execute chainSteps (by decide +kernel)
  simp only [Bool.and_eq_true, Bool.not_eq_true', List.isEmpty_eq_false_iff,
    Option.isNone_iff_eq_none] at h
  obtain ⟨⟨⟨hkeepalive, hregisters⟩, hcalls⟩, hmore⟩ := h
  have hts : ∀ t ∉ ({.loop (.group 0), .loop (.group 1), .loop (.group 2), .loop .tcpClient} :
      Finset Thread), chain t = [] := by
    intro t ht
    unfold chain
    split <;> first | rfl | exact absurd (by decide) ht
  exact ⟨s, hruns, hkeepalive, hregisters, hcalls,
    (noDeadlock 3 replacing chain_fits hts hruns).1 _ hmore⟩

end ClientLocks
end PbRpc
