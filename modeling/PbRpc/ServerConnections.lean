import Mathlib.Logic.Function.Basic
import PbRpc.AnsweredBy
import PbRpc.SharedQueue

/-!
# A server with many connections

A server has any number of connections, and a client at the other end of each.
They share the pool of the workers, where the batches of all of them are queued,
and the connections of a loop share its queue of responses. So the steps of a
connection depend on the others: its batch waits behind theirs, and its
responses behind theirs. A connection that is not accepted yet has made no step,
and the connections of one loop may interleave more freely here than the loop
lets them.

What happens at one connection is what could have happened had it been alone
(`alone`): its own batches are in the pool in their order, and its responses in
the queue of its loop, and the others are not seen. Whatever holds of every run
of a `ConnectionPair` therefore holds of every connection of a server, and no
response goes to another.
-/

namespace PbRpc

open TinyPBCoder TinyPBProtocol Transition
open SharedQueue (itemsOf)

variable {ι L K Message : Type} [DecidableEq ι] [DecidableEq L]

/-- How a server is built, and what it sees of its clients. -/
structure ServerSetting (ι L : Type) where
  ov : Overflow
  workThread_ : ℕ
  /-- The loop of a connection. -/
  loop_ : ι → L
  peer : ι → InterAddress

/-- What concerns one of the connections. -/
def ServerSetting.pair (set : ServerSetting ι L) (i : ι) : Setting :=
  ⟨set.ov, set.workThread_, set.peer i⟩

/-- **The connections of a server**, what waits for the workers and with them, and
the tasks of each loop. The queues of a pair by itself are not used. -/
structure ServerConnections (ι L K : Type) where
  pairs : ι → ConnectionPair K := fun _ => {}
  pool : List (ι × List TinyPBProtocol) := []
  taskqueue_ : L → List (ι × List TinyPBProtocol) := fun _ => []

/-- **The steps**: those of a connection that take nothing out of a queue, a
worker that has run a batch, and a loop that runs a task. -/
inductive ServerConnectionsStep (ι L K Message : Type) where
  | own (i : ι) (l : PairStep K Message)
  | finish (n : ℕ) (services : ℕ → RpcDispatcher Message)
  | regSend (loop : L)

namespace ServerConnections

/-- A connection with what it is handed of the queues. -/
def hand (s : ServerConnections ι L K) (i : ι) (pool taskqueue_ : List (List TinyPBProtocol)) :
    ConnectionPair K :=
  { s.pairs i with pool := pool, taskqueue_ := taskqueue_ }

/-- A connection after a step, with what it has queued put into the queues. -/
def share (set : ServerSetting ι L) (s : ServerConnections ι L K) (i : ι) (p : ConnectionPair K) :
    ServerConnections ι L K where
  pairs := Function.update s.pairs i p
  pool := s.pool ++ p.pool.map (i, ·)
  taskqueue_ := Function.update s.taskqueue_ (set.loop_ i)
    (s.taskqueue_ (set.loop_ i) ++ p.taskqueue_.map (i, ·))

/-- **One step.** -/
def step (set : ServerSetting ι L) (s : ServerConnections ι L K) :
    ServerConnectionsStep ι L K Message → Option (ServerConnections ι L K)
  | .own i l => ((s.hand i [] []).step (set.pair i) l).map (s.share set i)
  | .finish n services =>
    match s.pool[n]? with
    | none => none
    | some (i, request_pkgs) =>
      ((s.hand i [request_pkgs] []).step (set.pair i) (.finish 0 services)).map
        (share set { s with pool := s.pool.eraseIdx n } i)
  | .regSend loop =>
    match s.taskqueue_ loop with
    | [] => none
    | (i, respond_pkgs) :: taskqueue_ =>
      ((s.hand i [] [respond_pkgs]).step (set.pair i) (.regSend : PairStep K Message)).map
        (share set { s with taskqueue_ := Function.update s.taskqueue_ loop taskqueue_ } i)

/-- The dispatchers that a step meets have a property. -/
def Meets (P : RpcDispatcher Message → Prop) (_ : ServerConnections ι L K) :
    ServerConnectionsStep ι L K Message → Prop
  | .own _ (.serverParse services) | .finish _ services => ∀ k, P (services k)
  | _ => True

/-- **What a connection sees**: itself, and of the queues what is its own. -/
def view (set : ServerSetting ι L) (s : ServerConnections ι L K) (i : ι) : ConnectionPair K :=
  s.hand i (itemsOf i s.pool) (itemsOf i (s.taskqueue_ (set.loop_ i)))

/-- **The tasks of a loop** are of its own connections. -/
def Placed (set : ServerSetting ι L) (s : ServerConnections ι L K) : Prop :=
  ∀ loop, ∀ e ∈ s.taskqueue_ loop, set.loop_ e.1 = loop

variable {set : ServerSetting ι L} {s s' : ServerConnections ι L K} {i j : ι}
  {P : RpcDispatcher Message → Prop}

end ServerConnections

/-! ## A step does not look at the rest of the queues -/

namespace ConnectionPair

variable {p p' : ConnectionPair K} {set : Setting}

/-- A pair with more in its queues, in front of what is there. -/
def behind (p : ConnectionPair K) (pool taskqueue_ : List (List TinyPBProtocol)) :
    ConnectionPair K :=
  { p with pool := pool ++ p.pool, taskqueue_ := taskqueue_ ++ p.taskqueue_ }

/-- The steps that take nothing out of a queue. -/
def TakesNothing : PairStep K Message → Prop
  | .finish _ _ | .regSend => False
  | _ => True

/-- **What is in the queues does not matter** to the steps that take nothing out. -/
theorem step_behind {l : PairStep K Message} (hl : TakesNothing l) (hs : p.step set l = some p')
    (pool taskqueue_ : List (List TinyPBProtocol)) :
    (p.behind pool taskqueue_).step set l = some (p'.behind pool taskqueue_) := by
  cases l with
  | push message done =>
    obtain rfl := Option.some.inj hs
    rfl
  | enable | client step | server step | clientRead n | serverRead n =>
    obtain ⟨e, he, rfl⟩ := Option.map_eq_some_iff.mp hs
    exact Option.map_eq_some_iff.mpr ⟨e, he, rfl⟩
  | clientParse =>
    rw [ConnectionPair.step] at hs
    split at hs
    case isFalse => cases hs
    case isTrue hc =>
      split at hs
      case h_1 => cases hs
      case h_2 hd =>
        obtain rfl := Option.some.inj hs
        simp only [ConnectionPair.step, behind, hd]
        exact if_pos hc
  | serverParse services =>
    rw [ConnectionPair.step] at hs
    split at hs
    case isFalse => cases hs
    case isTrue hc =>
      split at hs
      case h_1 => cases hs
      case h_2 hd =>
        obtain rfl := Option.some.inj hs
        simp only [ConnectionPair.step, behind, hd, HandleMessage]
        rw [if_pos hc]
        split
        · rfl
        · simp
  | finish i services | regSend => exact hl.elim

/-- A batch is run where it is. -/
theorem finish_behind {request_pkgs : List TinyPBProtocol} {services : ℕ → RpcDispatcher Message}
    (hs : { p with pool := [request_pkgs], taskqueue_ := [] }.step set (.finish 0 services) = some p')
    {pool : List (List TinyPBProtocol)} {m : ℕ} (hm : pool[m]? = some request_pkgs)
    (taskqueue_ : List (List TinyPBProtocol)) :
    { p with pool := pool, taskqueue_ := taskqueue_ }.step set (.finish m services)
      = some (p'.behind (pool.eraseIdx m) taskqueue_) := by
  by_cases hdis : p.server.conn.disConnect
  · have hs := (Option.some.inj hs).symm.trans (if_pos hdis)
    rw [hs, ConnectionPair.step, hm]
    refine congrArg some ((if_pos hdis).trans ?_)
    simp [behind, answer]
  · have hs := (Option.some.inj hs).symm.trans (if_neg hdis)
    rw [hs, ConnectionPair.step, hm]
    refine congrArg some ((if_neg hdis).trans ?_)
    simp [behind, answer]

/-- The first task is run. -/
theorem regSend_behind {respond_pkgs : List TinyPBProtocol}
    (hs : { p with pool := [], taskqueue_ := [respond_pkgs] }.step set
      (.regSend : PairStep K Message) = some p')
    (pool taskqueue_ : List (List TinyPBProtocol)) :
    { p with pool := pool, taskqueue_ := respond_pkgs :: taskqueue_ }.step set
        (.regSend : PairStep K Message)
      = some (p'.behind pool taskqueue_) := by
  obtain ⟨hidle, hs⟩ := Option.ite_none_right_eq_some.mp hs
  obtain rfl := Option.some.inj hs
  simp only [ConnectionPair.step, behind, ConnectionPair.regSend]
  rw [if_pos hidle]
  simp

end ConnectionPair

namespace ServerConnections

variable {set : ServerSetting ι L} {s s' : ServerConnections ι L K} {i j : ι}
  {P : RpcDispatcher Message → Prop}

/-! ## What the connections see -/

/-- **The connection sees what it has queued**, behind what was there. -/
theorem view_share_self (p : ConnectionPair K) :
    (s.share set i p).view set i
      = p.behind (itemsOf i s.pool) (itemsOf i (s.taskqueue_ (set.loop_ i))) := by
  simp [view, hand, share, ConnectionPair.behind, SharedQueue.itemsOf_map_self]

/-- **The others see nothing of it.** -/
theorem view_share_of_ne (hne : i ≠ j) (p : ConnectionPair K) :
    (s.share set i p).view set j = s.view set j := by
  have hqueue : itemsOf j ((s.share set i p).taskqueue_ (set.loop_ j))
      = itemsOf j (s.taskqueue_ (set.loop_ j)) := by
    show itemsOf j (Function.update s.taskqueue_ (set.loop_ i) _ (set.loop_ j)) = _
    by_cases hloop : set.loop_ j = set.loop_ i
    · rw [hloop, Function.update_self, SharedQueue.itemsOf_append,
        SharedQueue.itemsOf_map_of_ne hne, List.append_nil]
    · rw [Function.update_of_ne hloop]
  have hpool : itemsOf j (s.share set i p).pool = itemsOf j s.pool := by
    show itemsOf j (s.pool ++ _) = _
    rw [SharedQueue.itemsOf_append, SharedQueue.itemsOf_map_of_ne hne, List.append_nil]
  have hpair : (s.share set i p).pairs j = s.pairs j := by
    show Function.update s.pairs i p j = s.pairs j
    exact Function.update_of_ne (Ne.symm hne) p s.pairs
  rw [view, view, hqueue, hpool, hand, hand, hpair]

theorem Placed.share (h : s.Placed set) (p : ConnectionPair K) :
    (s.share set i p).Placed set := by
  intro loop e he
  have he : e ∈ Function.update s.taskqueue_ (set.loop_ i)
    (s.taskqueue_ (set.loop_ i) ++ p.taskqueue_.map (i, ·)) loop := he
  by_cases hloop : loop = set.loop_ i
  · rw [hloop, Function.update_self, List.mem_append] at he
    rcases he with he | he
    · exact (h _ e he).trans hloop.symm
    · obtain ⟨_, -, rfl⟩ := List.mem_map.mp he
      exact hloop.symm
  · rw [Function.update_of_ne hloop] at he
    exact h loop e he

/-- **What a step is to the connections**: a step of one of them, and nothing
to the others. -/
def StepOf (set : ServerSetting ι L) (P : RpcDispatcher Message → Prop)
    (s s' : ServerConnections ι L K) (i : ι) : Prop :=
  (∃ l : PairStep K Message, ConnectionPair.Meets P (s.view set i) l ∧
    (s.view set i).step (set.pair i) l = some (s'.view set i)) ∧
  ∀ j, i ≠ j → s'.view set j = s.view set j

/-- A step that takes nothing out of the queues. -/
theorem stepOf_own {l : PairStep K Message} (hok : Meets P s (.own i l))
    (hs : s.step set (.own i l) = some s') : ∃ p, s' = s.share set i p ∧ StepOf set P s s' i := by
  obtain ⟨p, hp, rfl⟩ := Option.map_eq_some_iff.mp hs
  have hview : s.view set i
      = (s.hand i [] []).behind (itemsOf i s.pool) (itemsOf i (s.taskqueue_ (set.loop_ i))) := by
    simp [view, hand, ConnectionPair.behind]
  have htakes : ConnectionPair.TakesNothing l := by
    cases l with
    -- there is nothing to take
    | finish n services => cases hp
    | regSend => cases hp
    | _ => trivial
  refine ⟨p, rfl, ⟨l, ?_, ?_⟩, fun j hne => view_share_of_ne hne p⟩
  · cases l with
    | serverParse services => exact hok
    | finish n services => exact htakes.elim
    | _ => trivial
  · rw [hview, view_share_self]
    exact ConnectionPair.step_behind htakes hp _ _

/-- A worker has run a batch. -/
theorem stepOf_finish {n : ℕ} {services : ℕ → RpcDispatcher Message}
    (hok : Meets P s (.finish n services))
    (hs : s.step set (.finish n services) = some s') : ∃ i p,
      s' = share set { s with pool := s.pool.eraseIdx n } i p ∧ StepOf set P s s' i := by
  rw [step] at hs
  cases hbatch : s.pool[n]? with
  | none => rw [hbatch] at hs; cases hs
  | some e =>
    obtain ⟨i, request_pkgs⟩ := e
    rw [hbatch] at hs
    obtain ⟨p, hp, rfl⟩ := Option.map_eq_some_iff.mp hs
    obtain ⟨m, hm, herase⟩ := SharedQueue.itemsOf_eraseIdx_self hbatch
    refine ⟨i, p, rfl, ⟨.finish m services, hok, ?_⟩, fun j hne => ?_⟩
    · rw [view_share_self, herase]
      exact ConnectionPair.finish_behind hp hm _
    · rw [view_share_of_ne hne, view, SharedQueue.itemsOf_eraseIdx_of_ne hbatch hne]
      rfl

/-- A loop runs a task. -/
theorem stepOf_regSend (h : s.Placed set) {loop : L}
    (hs : s.step set (.regSend loop : ServerConnectionsStep ι L K Message) = some s') :
    ∃ i p taskqueue_, s' = share set { s with taskqueue_ := taskqueue_ } i p ∧
      { s with taskqueue_ := taskqueue_ }.Placed set ∧ StepOf set P s s' i := by
  rw [step] at hs
  cases htask : s.taskqueue_ loop with
  | nil => rw [htask] at hs; cases hs
  | cons e taskqueue_ =>
    obtain ⟨i, respond_pkgs⟩ := e
    rw [htask] at hs
    obtain ⟨p, hp, rfl⟩ := Option.map_eq_some_iff.mp hs
    obtain rfl : set.loop_ i = loop := h loop (i, respond_pkgs) (htask ▸ List.mem_cons_self)
    refine ⟨i, p, _, rfl, ?_, ⟨.regSend, trivial, ?_⟩, fun j hne => ?_⟩
    · intro loop e he
      have he : e ∈ Function.update s.taskqueue_ (set.loop_ i) taskqueue_ loop := he
      by_cases hloop : loop = set.loop_ i
      · rw [hloop, Function.update_self] at he
        exact (h _ e (htask ▸ List.mem_cons_of_mem _ he)).trans hloop.symm
      · rw [Function.update_of_ne hloop] at he
        exact h loop e he
    · rw [view_share_self, view, htask, SharedQueue.itemsOf_cons_self]
      show _ = some (p.behind _ (itemsOf i (Function.update s.taskqueue_ _ taskqueue_ _)))
      rw [Function.update_self]
      exact ConnectionPair.regSend_behind hp _ _
    · have hqueue : itemsOf j (Function.update s.taskqueue_ (set.loop_ i) taskqueue_ (set.loop_ j))
          = itemsOf j (s.taskqueue_ (set.loop_ j)) := by
        by_cases hloop : set.loop_ j = set.loop_ i
        · rw [hloop, Function.update_self, htask, SharedQueue.itemsOf_cons_of_ne hne]
        · rw [Function.update_of_ne hloop]
      rw [view_share_of_ne hne]
      exact congrArg (s.hand j (itemsOf j s.pool)) hqueue

/-- **A step is a step of one connection.** -/
theorem step_cases (h : s.Placed set) {l : ServerConnectionsStep ι L K Message} (hok : Meets P s l)
    (hs : s.step set l = some s') : s'.Placed set ∧ ∃ i, StepOf set P s s' i := by
  cases l with
  | own i l =>
    obtain ⟨p, rfl, hof⟩ := stepOf_own hok hs
    exact ⟨h.share p, i, hof⟩
  | finish n services =>
    obtain ⟨i, p, rfl, hof⟩ := stepOf_finish hok hs
    exact ⟨Placed.share (s := { s with pool := s.pool.eraseIdx n }) h p, i, hof⟩
  | regSend loop =>
    obtain ⟨i, p, taskqueue_, rfl, hplaced, hof⟩ := stepOf_regSend (P := P) h hs
    exact ⟨hplaced.share p, i, hof⟩

/-- **A connection is as good as alone.** -/
theorem alone (hruns : Runs (step set) (Meets P) {} s) (i : ι) :
    Runs (fun p (l : PairStep K Message) => p.step (set.pair i) l) (ConnectionPair.Meets P) {}
      (s.view set i) := by
  have h : s.Placed set ∧ ∀ i, Runs (fun p (l : PairStep K Message) => p.step (set.pair i) l)
      (ConnectionPair.Meets P) {} (s.view set i) := by
    refine hruns.invariant (I := fun s => s.Placed set ∧ ∀ i,
      Runs (fun p (l : PairStep K Message) => p.step (set.pair i) l) (ConnectionPair.Meets P) {}
        (s.view set i)) ?_ ?_
    · rintro s l s' ⟨hplaced, hviews⟩ hok hs
      obtain ⟨hplaced', j, ⟨l', hok', hs'⟩, hothers⟩ := step_cases hplaced hok hs
      refine ⟨hplaced', fun i => ?_⟩
      by_cases hij : j = i
      · rw [← hij]
        exact (hviews j).tail hok' hs'
      · rw [hothers i hij]
        exact hviews i
    · exact ⟨fun _ _ he => (List.not_mem_nil he).elim, fun i => Runs.refl _⟩
  exact h.2 i

/-- Two clients with the same ids. The batch of the second is finished first, and
its responses are in the queue of the loop before those of the first. -/
def twoClients : List (ServerConnectionsStep Bool Unit ℕ Bytes) :=
  let call (data : Bytes) : TinyPBProtocol :=
    { msg_id_ := Bytes.ofString "1"
      method_name_ := Bytes.ofString "Order.makeOrder"
      pb_data_ := data }
  let request (i : Bool) (data : Bytes) (done : ℕ) :
      List (ServerConnectionsStep Bool Unit ℕ Bytes) :=
    [.own i (.push (call data) done), .own i .enable, .own i (.client .sendMessage),
      .own i (.client .encode), .own i (.client (.write (.written 41))),
      .own i (.client .disableWriting), .own i (.serverRead 41),
      .own i (.serverParse (fun _ => ConnectionPair.echo))]
  let reply (i : Bool) : List (ServerConnectionsStep Bool Unit ℕ Bytes) :=
    [.regSend (), .own i (.server .sendMessage), .own i (.server (.write (.written 41))),
      .own i (.server .disableWriting), .own i (.clientRead 41), .own i .clientParse]
  request false [0x02, 0x03] 7 ++ request true [0x04, 0x05] 8 ++
    [.finish 1 (fun _ => ConnectionPair.echo), .finish 0 (fun _ => ConnectionPair.echo)] ++
    reply true ++ reply false

/-- One loop and one worker. -/
def oneLoop : ServerSetting Bool Unit := ⟨.trap, 1, fun _ => (), fun _ => {}⟩

theorem alone_twoClients :
    ∃ s : ServerConnections Bool Unit ℕ,
      ((s.pairs false).client.invoked.map (fun i => (i.message.pb_data_, i.done)),
        (s.pairs true).client.invoked.map (fun i => (i.message.pb_data_, i.done)))
        = ([([0x02, 0x03], 7)], [([0x04, 0x05], 8)]) ∧
      ∀ i, Runs (fun p (l : PairStep ℕ Bytes) => p.step (oneLoop.pair i) l)
        (ConnectionPair.Meets fun d => d = ConnectionPair.echo) {} (s.view oneLoop i) := by
  have hmeets : ∀ l ∈ twoClients, ∀ s : ServerConnections Bool Unit ℕ,
      Meets (fun d => d = ConnectionPair.echo) s l := by
    simp [twoClients, Meets]
  obtain ⟨s, hruns, h⟩ : ∃ s : ServerConnections Bool Unit ℕ,
      Runs (step oneLoop) (Meets fun d => d = ConnectionPair.echo) {} s ∧
      decide (((s.pairs false).client.invoked.map (fun i => (i.message.pb_data_, i.done)),
        (s.pairs true).client.invoked.map (fun i => (i.message.pb_data_, i.done)))
        = ([([0x02, 0x03], 7)], [([0x04, 0x05], 8)])) = true :=
    exists_of_execute_of twoClients hmeets (by decide +kernel)
  exact ⟨s, of_decide_eq_true h, fun i => alone hruns i⟩

end ServerConnections

end PbRpc
