import PbRpc.ClientTables

/-!
# The keepalive counter

The counter of a service is meant to say how many rounds in a row the
connection of the service has missed, and a connection that has missed three
is taken out of the cache. A connection misses a round when a heartbeat was
queued on it at the beginning and its reply callback did not run before the
end (`missed`).

The counter is kept under the name of the service, and three things move it
that are not about the round and the connection. A connection that is cached
while a round waits had no heartbeat queued, and the end of the round counts
one for it. A reply callback that runs after its round sets the counter back
for a round that was missed. And the callback of a heartbeat of a connection
that has been replaced sets it back for the connection that is there now.
`evictsAtThree` is what holds where none of these happens: then the counter
is the number of rounds missed (`Tally`).
-/

namespace PbRpc

open Transition

namespace TcpClient

variable {ι : Type} {s s' : TcpClient ι}

/-! ## Missed rounds -/

/-- A connection has missed a round. -/
def missed (c : ℕ) (r : Round) : Bool := r.queued.contains c && !r.answered.contains c

/-- How many rounds in a row are such, up to the last one of a history. -/
def inARow (p : Round → Bool) (history : List Round) : ℕ := (history.takeWhile p).length

/-- **A connection is evicted at the third round that it has missed in a
row**, and at no other: for every round of the history, those that were taken
out of the cache at its end had missed it and the two before, and of those
that were cached there, all that had missed so many were taken out. -/
def EvictsAtThree (s : TcpClient ι) : Prop :=
  ∀ r history, r :: history <:+ s.history →
    (∀ c ∈ r.evicted, 3 ≤ inARow (missed c) (r :: history)) ∧
      ∀ c ∈ r.counted, 3 ≤ inARow (missed c) (r :: history) → c ∈ r.evicted

theorem missed_iff {c : ℕ} {r : Round} : missed c r = true ↔ c ∈ r.queued ∧ c ∉ r.answered := by
  simp [missed]

theorem inARow_cons_of_pos {p : Round → Bool} {r : Round} (h : p r = true)
    (history : List Round) : inARow p (r :: history) = inARow p history + 1 := by
  rw [inARow, List.takeWhile_cons_of_pos h]
  rfl

theorem inARow_cons_of_neg {p : Round → Bool} {r : Round} (h : p r = false)
    (history : List Round) : inARow p (r :: history) = 0 := by
  rw [inARow, List.takeWhile_cons_of_neg (by simp [h])]
  rfl

/-- A connection that no heartbeat was queued on has missed nothing. -/
theorem inARow_missed_of_forall {c : ℕ} {history : List Round}
    (h : ∀ r ∈ history, c ∉ r.queued) : inARow (missed c) history = 0 := by
  cases history with
  | nil => rfl
  | cons r history =>
    refine inARow_cons_of_neg ?_ history
    rw [Bool.eq_false_iff, Ne, missed_iff, not_and_or]
    exact .inl (h r List.mem_cons_self)

/-! ## What a step does to the counters -/

/-- What has happened in a round so far. -/
def tally (r : Round) : List ℕ × List ℕ := (r.queued, r.answered)

/-- The cache, the counters and the rounds are the same. -/
structure SameCounts (s s' : TcpClient ι) : Prop where
  server_conns_ : s'.server_conns_ = s.server_conns_
  keepalive_count_ : s'.keepalive_count_ = s.keepalive_count_
  history : s'.history = s.history
  stored : s'.stored = s.stored
  round : s'.round.map tally = s.round.map tally

theorem SameCounts.round_eq_none (h : SameCounts s s') (hround : s'.round = none) :
    s.round = none := by
  have hmap := h.round
  rw [hround] at hmap
  exact Option.map_eq_none_iff.mp hmap.symm

theorem SameCounts.round_eq_some (h : SameCounts s s') {r' : Round} (hround : s'.round = some r') :
    ∃ r, s.round = some r ∧ r'.queued = r.queued ∧ r'.answered = r.answered := by
  have hmap := h.round
  rw [hround] at hmap
  obtain ⟨r, hr, heq⟩ := Option.map_eq_some_iff.mp hmap.symm
  exact ⟨r, hr, (congrArg Prod.fst heq).symm, (congrArg Prod.snd heq).symm⟩

variable [DecidableEq ι]

/-- **The steps, by what they do to the counters.** -/
inductive CountCases (s : TcpClient ι) : ClientStep ι → TcpClient ι → Prop
  | same {l : ClientStep ι} {s' : TcpClient ι} (h : SameCounts s s') : CountCases s l s'
  | store {i : ι} {server_name : Bytes} {conn stores : ℕ}
    (hi : s.callers i = .storing server_name conn stores) :
    CountCases s (.store i) ((s.cache server_name conn).returns i server_name (some conn))
  | heard {c kv conn round : ℕ} {message : TinyPBProtocol} {rest : List TinyPBProtocol}
    {entry : Sigma fun _ : Bytes => CacheEntry} {inbox : ℕ → List TinyPBProtocol}
    {conns : ℕ → Endpoint ClientDone} (hinbox : s.inbox c = message :: rest)
    (hdone : (s.conns c).conn.read_dones_.lookup message.msg_id_ = some (.keepalive kv conn round))
    (hentry : s.entryAt kv = some entry) :
    CountCases s (.parse c) { s with
      inbox := inbox
      conns := conns
      keepalive_count_ := Function.update s.keepalive_count_ entry.1 (-1)
      round := s.round.map (fun r =>
        if round = s.history.length then { r with answered := conn :: r.answered } else r) }
  | beginRound (msg_id : Bytes) {conns : ℕ → Endpoint ClientDone} (hround : s.round = none) :
    CountCases s (.beginRound msg_id) { s with
      conns := conns
      round := some { msg_id := msg_id, queued := s.cachedConns } }
  | endRound {r : Round} (hround : s.round = some r) : CountCases s .endRound (s.endRound r)

theorem Inv.step_counts (hinv : s.Inv) {l : ClientStep ι} (hs : s.step l = some s') :
    CountCases s l s' := by
  cases step_cases hs with
  | found hi hentry hcount => exact .same ⟨rfl, rfl, rfl, rfl, rfl⟩
  | missed hi hmiss => exact .same ⟨rfl, rfl, rfl, rfl, rfl⟩
  | connected hi hopens => exact .same ⟨rfl, rfl, rfl, rfl, rfl⟩
  | refused hi hopens => exact .same ⟨rfl, rfl, rfl, rfl, rfl⟩
  | store hi => exact .store hi
  | push message done hc => exact .same ⟨rfl, rfl, rfl, rfl, rfl⟩
  | enable he => exact .same ⟨rfl, rfl, rfl, rfl, rfl⟩
  | dropped hdis => exact .same ⟨rfl, rfl, rfl, rfl, rfl⟩
  | take hidle hout hconn hrun =>
    have heq := (registered_runWriteDones hrun).eq
    exact .same ⟨(congrArg TcpClient.server_conns_ heq :),
      (congrArg TcpClient.keepalive_count_ heq :), (congrArg TcpClient.history heq :),
      (congrArg TcpClient.stored heq :), (congrArg (fun t => t.round.map tally) heq :)⟩
  | close hreg hidle => exact .same ⟨rfl, rfl, rfl, rfl, rfl⟩
  | write hsend hclose he => exact .same ⟨rfl, rfl, rfl, rfl, rfl⟩
  | arrive message hc =>
    refine .same ⟨rfl, rfl, rfl, rfl, ?_⟩
    show (s.round.map _).map tally = s.round.map tally
    rw [Option.map_map]
    congr 1
    funext r
    show tally (if _ then _ else _) = tally r
    split <;> rfl
  | unheard hin hinbox hdone => exact .same ⟨rfl, rfl, rfl, rfl, rfl⟩
  | reply hin hinbox hdone hrun =>
    rcases runReadDone_eq_some hrun with rfl | ⟨kv, conn, round, entry, rfl, hentry, rfl⟩
    · exact .same ⟨rfl, rfl, rfl, rfl, rfl⟩
    · exact .heard hinbox hdone hentry
  | beginRound msg_id hround =>
    obtain ⟨conns', heq, -, -⟩ := foldl_pushKeepalive msg_id s hinv.nodup_cachedConns
    rw [TcpClient.beginRound, heq]
    exact .beginRound msg_id hround
  | endRound hround => exact .endRound hround

/-! ## The counter says how many rounds were missed -/

/-- A reply callback is that of a call, or of a heartbeat of the round that
waits which finds the connection of the heartbeat in its entry. -/
def InRound (s : TcpClient ι) : ClientDone → Prop
  | .call _ => True
  | .keepalive kv conn round => s.round.isSome = true ∧ round = s.history.length ∧
      (s.entryAt kv).map (fun entry => entry.2.conn) = some conn

instance (s : TcpClient ι) (done : ClientDone) : Decidable (s.InRound done) :=
  match done with
  | .call _ => .isTrue trivial
  | .keepalive _ _ _ => inferInstanceAs (Decidable (_ ∧ _ ∧ _))

/-- The condition on the steps of a run: no connection is cached while a
round waits, and a heartbeat's reply callback runs in the round of the
heartbeat, and finds its connection. -/
def tallied (s : TcpClient ι) : ClientStep ι → Prop
  | .store _ => s.round.isNone = true
  | .parse c => ∀ message ∈ (s.inbox c).head?,
      ∀ done ∈ (s.conns c).conn.read_dones_.lookup message.msg_id_, s.InRound done
  | _ => True

instance (s : TcpClient ι) (l : ClientStep ι) : Decidable (s.tallied l) :=
  match l with
  | .store _ => inferInstanceAs (Decidable (s.round.isNone = true))
  | .parse c => inferInstanceAs (Decidable (∀ message ∈ (s.inbox c).head?, _))
  | .lookup _ _ | .connect _ _ | .push _ _ _ | .enable _ | .io _ _ | .arrive _ _ | .beginRound _
  | .endRound => .isTrue trivial

/-- **The counters are a tally of the rounds.** -/
structure Tally (s : TcpClient ι) : Prop where
  queued : ∀ r, r ∈ s.history ∨ s.round = some r → ∀ c ∈ r.queued, c ∈ s.stored.map Prod.snd
  between : s.round = none → ∀ name entry, s.server_conns_.lookup name = some entry →
    s.keepalive_count_ name = inARow (missed entry.conn) s.history
  during : ∀ r, s.round = some r → ∀ name entry, s.server_conns_.lookup name = some entry →
    entry.conn ∈ r.queued ∧ s.keepalive_count_ name =
      if entry.conn ∈ r.answered then -1 else (inARow (missed entry.conn) s.history : ℤ)
  exact : s.EvictsAtThree

omit [DecidableEq ι] in
theorem Tally.same (h : s.Tally) (hsame : SameCounts s s') : s'.Tally where
  queued r hr := by
    rw [hsame.stored]
    rw [hsame.history] at hr
    rcases hr with hr | hr
    · exact h.queued r (.inl hr)
    · obtain ⟨r', hr', hqueued, -⟩ := hsame.round_eq_some hr
      rw [hqueued]
      exact h.queued r' (.inr hr')
  between hround := by
    rw [hsame.server_conns_, hsame.keepalive_count_, hsame.history]
    exact h.between (hsame.round_eq_none hround)
  during r hr := by
    obtain ⟨r', hr', hqueued, hanswered⟩ := hsame.round_eq_some hr
    rw [hsame.server_conns_, hsame.keepalive_count_, hsame.history, hqueued, hanswered]
    exact h.during r' hr'
  exact := by
    rw [EvictsAtThree, hsame.history]
    exact h.exact

/-- A connection is cached between two rounds. -/
theorem Tally.store (h : s.Tally) (hinv : s.Inv) {i : ι} {server_name : Bytes} {conn stores : ℕ}
    (hi : s.callers i = .storing server_name conn stores) (hround : s.round = none) :
    ((s.cache server_name conn).returns i server_name (some conn)).Tally := by
  have hnew := (hinv.storing i server_name conn stores hi).2
  obtain ⟨kv, kvs', replaced', heq, -⟩ := s.cache_eq server_name conn
  rw [heq]
  refine ⟨fun r hr c hc => ?_, fun _ name entry hentry => ?_, fun r hr => ?_, h.exact⟩
  · show c ∈ (s.stored ++ [(server_name, conn)]).map Prod.snd
    rw [List.map_append]
    exact List.mem_append_left _ (h.queued r hr c hc)
  · show Function.update s.keepalive_count_ server_name 0 name = _
    rcases lookup_insert_eq_some hentry with ⟨rfl, rfl⟩ | ⟨hname, hold⟩
    · rw [Function.update_self, inARow_missed_of_forall]
      · rfl
      · exact fun r hr hc => hnew (h.queued r (.inl hr) conn hc)
    · rw [Function.update_of_ne hname]
      exact h.between hround name entry hold
  · have hr : s.round = some r := hr
    rw [hround] at hr
    cases hr

omit [DecidableEq ι] in
/-- The reply callback of a heartbeat runs in its round. -/
theorem Tally.heard (h : s.Tally) (hinv : s.Inv) {kv conn : ℕ}
    {entry : Sigma fun _ : Bytes => CacheEntry} {inbox : ℕ → List TinyPBProtocol}
    {conns : ℕ → Endpoint ClientDone} (hwaits : s.round.isSome = true) (hentry : s.entryAt kv = some entry)
    (hconn : (s.entryAt kv).map (fun entry => entry.2.conn) = some conn) :
    Tally { s with
      inbox := inbox
      conns := conns
      keepalive_count_ := Function.update s.keepalive_count_ entry.1 (-1)
      round := s.round.map (fun r =>
        if s.history.length = s.history.length then { r with answered := conn :: r.answered }
        else r) } := by
  obtain ⟨r, hr⟩ := Option.isSome_iff_exists.mp hwaits
  rw [hentry] at hconn
  obtain rfl : entry.2.conn = conn := Option.some.inj hconn
  have hmine := (entryAt_eq_some hentry).1
  rw [hr, Option.map_some, if_pos rfl]
  refine ⟨fun r' hr' => ?_, fun hnone => ?_, fun r' hr' name entry' hentry' => ?_, h.exact⟩
  · rcases hr' with hr' | hr'
    · exact h.queued r' (.inl hr')
    · rw [← Option.some.inj hr']
      exact h.queued r (.inr hr)
  · cases hnone
  · rw [← Option.some.inj hr']
    obtain ⟨hqueued, hcount⟩ := h.during r hr name entry' hentry'
    refine ⟨hqueued, ?_⟩
    show Function.update s.keepalive_count_ entry.1 (-1) name
      = if entry'.conn ∈ entry.2.conn :: r.answered then -1 else _
    by_cases hname : name = entry.1
    · rw [hname] at hentry' ⊢
      obtain rfl : entry.2 = entry' := Option.some.inj (hmine.symm.trans hentry')
      rw [Function.update_self, if_pos List.mem_cons_self]
    · have hne : entry'.conn ≠ entry.2.conn := fun heq =>
        hname (hinv.conn_inj hentry' hmine heq)
      rw [Function.update_of_ne hname, hcount]
      simp [hne]

omit [DecidableEq ι] in
/-- A round begins. -/
theorem Tally.beginRound (h : s.Tally) (hinv : s.Inv) (msg_id : Bytes)
    {conns : ℕ → Endpoint ClientDone} (hround : s.round = none) :
    Tally { s with
      conns := conns
      round := some { msg_id := msg_id, queued := s.cachedConns } } := by
  refine ⟨fun r hr c hc => ?_, fun hnone => ?_, fun r hr name entry hentry => ?_, h.exact⟩
  · rcases hr with hr | hr
    · exact h.queued r (.inl hr) c hc
    · rw [← Option.some.inj hr] at hc
      exact hinv.mem_stored hc
  · cases hnone
  · rw [← Option.some.inj hr]
    refine ⟨mem_cachedConns_iff.mpr ⟨name, entry, hentry, rfl⟩, ?_⟩
    rw [if_neg List.not_mem_nil]
    exact h.between hround name entry hentry

omit [DecidableEq ι] in
/-- **A round ends.** One more than the counter is the number of rounds that
were missed, with this one. -/
theorem Tally.endRound (h : s.Tally) {r : Round} (hround : s.round = some r) :
    (s.endRound r).Tally := by
  have hcounted := counted_endRound s r
  rw [TcpClient.endRound]
  generalize s.server_conns_.entries.foldl (countKeepalive r.msg_id) s = s' at hcounted
  have hstored : s'.stored = s.stored := (congrArg TcpClient.stored hcounted.eq :)
  have hcount : ∀ name entry, s.server_conns_.lookup name = some entry →
      s.keepalive_count_ name + 1
        = inARow (missed entry.conn) (s.account r s' :: s.history) := by
    intro name entry hentry
    obtain ⟨hqueued, heq⟩ := h.during r hround name entry hentry
    by_cases hanswered : entry.conn ∈ r.answered
    · rw [heq, if_pos hanswered, inARow_cons_of_neg]
      · rfl
      · rw [Bool.eq_false_iff, Ne, missed_iff]
        exact fun hmissed => hmissed.2 hanswered
    · have hmissed : missed entry.conn (s.account r s') = true :=
        missed_iff.mpr ⟨hqueued, hanswered⟩
      rw [heq, if_neg hanswered, inARow_cons_of_pos hmissed]
      rfl
  refine ⟨fun r' hr' c hc => ?_, fun _ name entry hentry => ?_, fun r' hr' => ?_,
    fun r' history hsuffix => ?_⟩
  · rw [hstored]
    rcases hr' with hr' | hr'
    · rcases List.mem_cons.mp hr' with rfl | hr'
      · exact h.queued r (.inr hround) c hc
      · exact h.queued r' (.inl hr') c hc
    · cases hr'
  · show s'.keepalive_count_ name = inARow (missed entry.conn) (s.account r s' :: s.history)
    rw [(hcounted.count_of_lookup hentry).2]
    exact hcount name entry (hcounted.cached hentry)
  · cases hr'
  · rcases List.suffix_cons_iff.mp hsuffix with heq | hold
    · obtain ⟨rfl, rfl⟩ := List.cons.inj heq
      refine ⟨fun c hc => ?_, fun c hc hthree => ?_⟩
      · obtain ⟨name, entry, hentry, rfl, hthree⟩ := hcounted.mem_evicted_iff.mp hc
        rw [hcount name entry hentry] at hthree
        exact Int.ofNat_le.mp hthree
      · obtain ⟨name, entry, hentry, rfl⟩ := mem_cachedConns_iff.mp hc
        refine hcounted.mem_evicted_iff.mpr ⟨name, entry, hentry, rfl, ?_⟩
        rw [hcount name entry hentry]
        exact Int.ofNat_le.mpr hthree
    · exact h.exact r' history hold

theorem Tally.step (h : s.Tally) (hinv : s.Inv) {l : ClientStep ι} (hok : s.tallied l)
    (hs : s.step l = some s') : s'.Tally := by
  cases hinv.step_counts hs with
  | same hsame => exact h.same hsame
  | store hi => exact h.store hinv hi (Option.isNone_iff_eq_none.mp hok)
  | @heard c kv conn round message rest entry inbox conns hinbox hdone hentry =>
    have hmessage : message ∈ (s.inbox c).head? := by
      rw [hinbox]
      rfl
    obtain ⟨hwaits, rfl, hconn⟩ := hok message hmessage _ hdone
    exact h.heard hinv hwaits hentry hconn
  | beginRound msg_id hround => exact h.beginRound hinv msg_id hround
  | endRound hround => exact h.endRound hround

omit [DecidableEq ι] in
theorem Tally.init : Tally ({} : TcpClient ι) where
  queued _ hr := by
    rcases hr with hr | hr
    · exact (List.not_mem_nil hr).elim
    · cases hr
  between _ _ _ hentry := by cases hentry
  during _ hr := by cases hr
  exact _ _ hsuffix := absurd (List.suffix_nil.mp hsuffix) (List.cons_ne_nil _ _)

/-- **A connection is evicted at the third round that it has missed in a
row**, and at no other, if the counters are a tally of the rounds. -/
theorem evictsAtThree (hruns : Runs step tallied {} s) : s.EvictsAtThree := by
  have h : s.Inv ∧ s.Tally :=
    hruns.invariant (I := fun s : TcpClient ι => s.Inv ∧ s.Tally)
      (fun _ _ _ h hok hs => ⟨h.1.step hs, h.2.step h.1 hok hs⟩)
      ⟨Inv.init, Tally.init⟩
  exact h.2.exact

/-- The steps of a caller that makes a connection. -/
def connectSteps (server_name : Bytes) : List (ClientStep Unit) :=
  [.lookup () server_name, .connect () .connected, .store ()]

/-- A round in which a call is made and the heartbeat is written with it, and
with what was queued before. -/
def callSteps (call msg_id : Bytes) (n : ℕ) : List (ClientStep Unit) :=
  [.push 0 { msg_id_ := call } 0, .beginRound msg_id, .enable 0, .io 0 .sendMessage, .io 0 .encode,
    .io 0 (.write (.written n)), .io 0 .disableWriting, .arrive 0 { msg_id_ := msg_id }, .parse 0,
    .endRound]

/-- Three rounds that are missed, after one that was answered. -/
theorem evictsAtThree_missed :
    ∃ s : TcpClient Unit, s.EvictsAtThree ∧ s.evicted = [0] ∧
      s.history.map Round.answered = [[], [], [], [0]] := by
  obtain ⟨s, hruns, h⟩ : ∃ s : TcpClient Unit, Runs (restrict step tallied) anyStep {} s ∧
      decide (s.evicted = [0] ∧ s.history.map Round.answered = [[], [], [], [0]]) = true :=
    exists_of_execute
      (connectSteps [97] ++ callSteps [1] [2] 48 ++
        [.beginRound [3], .endRound, .beginRound [4], .endRound, .beginRound [5], .endRound])
      (by decide +kernel)
  exact ⟨s, evictsAtThree (runs_of_restrict hruns), of_decide_eq_true h⟩

/-- **A connection that is cached while a round waits is evicted too early**:
it has missed two rounds, and the first one counted was not its own. -/
theorem not_evictsAtThree :
    ¬ ∀ s : TcpClient Unit, Runs step anyStep {} s → s.EvictsAtThree := by
  intro hall
  obtain ⟨s, hruns, h⟩ : ∃ s : TcpClient Unit, Runs step anyStep {} s ∧
      decide (∃ r ∈ s.history.head?, r.evicted = [0] ∧ inARow (missed 0) s.history = 2) = true :=
    exists_of_execute
      ([.beginRound [1]] ++ connectSteps [97] ++
        [.endRound, .beginRound [2], .endRound, .beginRound [3], .endRound]) (by decide +kernel)
  obtain ⟨r, hr, hevicted, htwo⟩ := of_decide_eq_true h
  cases hhistory : s.history with
  | nil =>
    rw [hhistory] at hr
    cases hr
  | cons r' history =>
    rw [hhistory] at hr htwo
    obtain rfl := Option.some.inj hr
    have hthree := (hall s hruns r' history (hhistory ▸ List.suffix_refl _)).1 0
      (hevicted ▸ List.mem_cons_self)
    rw [htwo] at hthree
    exact absurd hthree (by decide)

end TcpClient

end PbRpc
