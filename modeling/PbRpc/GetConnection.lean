import PbRpc.ClientTables

/-!
# What `getConnection` returns

Two things are asked of `getConnection`: that the connection it returns is
not one that was closed, and that there is one connection for a service and
not several.

Neither holds of every run. The cache is changed by `getConnection` and by
the keepalive timer and by nothing else. A connection that is closed stays in
it until the timer has counted to three, and every caller gets it
(`dead_of_close`); `neverDead` is what holds when none is closed while it is
cached. And between a lookup that fails and the store, a caller does not hold
the lock. Another caller that comes in between makes a connection of its own,
and the second store replaces the first (`replaced_of_stored`); `oneConnection`
is what holds when no other connection is stored in between, or none that is
still live.
-/

namespace PbRpc

open Transition

namespace TcpClient

variable {ι : Type} [DecidableEq ι] {s s' : TcpClient ι}

/-! ## Closed connections -/

/-- **No connection was disconnected when it was returned.** -/
def NeverDead (s : TcpClient ι) : Prop := ∀ r ∈ s.results, r.disConnect = false

/-- The condition on the steps of a run: no connection is closed, or has an
error, while it is cached. -/
def closesUncached (s : TcpClient ι) : ClientStep ι → Prop
  | .io c .close => c ∉ s.cachedConns
  | _ => True

instance (s : TcpClient ι) (l : ClientStep ι) : Decidable (s.closesUncached l) :=
  match l with
  | .io c .close => inferInstanceAs (Decidable (c ∉ s.cachedConns))
  | .io _ .sendMessage | .io _ .encode | .io _ (.write _) | .io _ .disableWriting | .lookup _ _
  | .connect _ _ | .store _ | .push _ _ _ | .enable _ | .arrive _ _ | .parse _ | .beginRound _
  | .endRound => .isTrue trivial

/-- What is cached is connected. -/
structure Up (s : TcpClient ι) : Prop where
  results : s.NeverDead
  cached : ∀ c ∈ s.cachedConns, (s.conns c).conn.disConnect = false

omit [DecidableEq ι] in
theorem neverDead_concat {r : ConnResult} (h : ∀ r ∈ s.results, r.disConnect = false)
    (hr : r.disConnect = false) : ∀ r' ∈ s.results ++ [r], r'.disConnect = false := by
  intro r' hr'
  rcases List.mem_append.mp hr' with hr' | hr'
  · exact h r' hr'
  · rw [List.mem_singleton.mp hr']
    exact hr

omit [DecidableEq ι] in
/-- The connections that are cached after a store. -/
theorem mem_cachedConns_cache {server_name : Bytes} {conn c : ℕ}
    (h : c ∈ (s.cache server_name conn).cachedConns) : c = conn ∨ c ∈ s.cachedConns := by
  obtain ⟨name, entry, hentry, rfl⟩ := mem_cachedConns_iff.mp h
  have hlookup := s.lookup_cache server_name conn name
  rw [hentry] at hlookup
  split at hlookup
  case isTrue => exact .inl (Option.some.inj hlookup)
  case isFalse =>
    obtain ⟨entry', hentry', heq⟩ := Option.map_eq_some_iff.mp hlookup.symm
    exact .inr (mem_cachedConns_iff.mpr ⟨name, entry', hentry', heq⟩)

omit [DecidableEq ι] in
/-- The connections that are cached after a round. -/
theorem mem_cachedConns_endRound {r : Round} {c : ℕ} (h : c ∈ (s.endRound r).cachedConns) :
    c ∈ s.cachedConns := by
  obtain ⟨name, entry, hentry, rfl⟩ := mem_cachedConns_iff.mp h
  exact mem_cachedConns_iff.mpr ⟨name, entry, (counted_endRound s r).cached hentry, rfl⟩

theorem Up.step (h : s.Up) (hinv : s.Inv) {l : ClientStep ι} (hok : s.closesUncached l)
    (hs : s.step l = some s') : s'.Up := by
  -- what was connected and cached still is connected
  have hstill : ∀ c, c ∈ s.cachedConns → (s'.conns c).conn.disConnect = false := by
    intro c hc
    rcases hinv.step_disConnect hs c with heq | rfl
    · exact heq.trans (h.cached c hc)
    · exact absurd hc hok
  cases hinv.step_tables hs with
  | same hsame =>
    refine ⟨?_, fun c hc => hstill c (hsame.cachedConns ▸ hc)⟩
    rw [NeverDead, hsame.results]
    exact h.results
  | @found i server_name entry hi hentry =>
    have hc : entry.conn ∈ s.cachedConns :=
      mem_cachedConns_iff.mpr ⟨server_name, entry, hentry, rfl⟩
    exact ⟨neverDead_concat h.results (h.cached _ hc), hstill⟩
  | missed hi hnone => exact ⟨h.results, hstill⟩
  | connected hi => exact ⟨h.results, hstill⟩
  | refused hi => exact ⟨neverDead_concat h.results rfl, hstill⟩
  | @store i server_name conn stores hi =>
    -- nothing has been done yet with a connection that is stored
    have hfresh : (s.conns conn).conn.disConnect = false := by
      rw [hinv.fresh conn (hinv.storing i server_name conn stores hi).2]
      rfl
    have hconns : (s.cache server_name conn).conns = s.conns := by
      obtain ⟨kv, kvs', replaced', heq, -⟩ := s.cache_eq server_name conn
      rw [heq]
    have hresults : (s.cache server_name conn).results = s.results := by
      obtain ⟨kv, kvs', replaced', heq, -⟩ := s.cache_eq server_name conn
      rw [heq]
    refine ⟨neverDead_concat (hresults ▸ h.results) ?_, fun c hc => ?_⟩
    · show ((s.cache server_name conn).conns conn).conn.disConnect = false
      rw [hconns]
      exact hfresh
    · show ((s.cache server_name conn).conns c).conn.disConnect = false
      rw [hconns]
      rcases mem_cachedConns_cache hc with rfl | hc
      · exact hfresh
      · exact h.cached c hc
  | @endRound r hround =>
    refine ⟨?_, fun c hc => hstill c (mem_cachedConns_endRound hc)⟩
    have hresults : (s.endRound r).results = s.results :=
      (congrArg TcpClient.results (counted_endRound s r).eq :)
    rw [NeverDead, hresults]
    exact h.results

/-- **`getConnection` returns no connection that was closed**, if none is
closed while it is cached. -/
theorem neverDead (hruns : Runs step closesUncached {} s) : s.NeverDead := by
  have h : s.Inv ∧ s.Up :=
    hruns.invariant (I := fun s : TcpClient ι => s.Inv ∧ s.Up)
      (fun _ _ _ h hok hs => ⟨h.1.step hs, h.2.step h.1 hok hs⟩)
      ⟨Inv.init, fun _ hr => (List.not_mem_nil hr).elim, fun _ hc => (List.not_mem_nil hc).elim⟩
  exact h.2.results

/-- A lookup that succeeds. -/
theorem lookup_eq_returns {i : ι} {server_name : Bytes} {entry : CacheEntry}
    (hentry : s.server_conns_.lookup server_name = some entry)
    (hcount : s.keepalive_count_ server_name < 3) :
    s.lookup i server_name = s.returns i server_name (some entry.conn) := by
  rw [lookup, hentry]
  exact if_pos hcount

/-- **A connection that is closed while it is cached is returned** to the
next caller. -/
theorem dead_of_close {server_name : Bytes} {entry : CacheEntry} {i : ι} (hinv : s.Inv)
    (hentry : s.server_conns_.lookup server_name = some entry) (hi : s.callers i = .outside)
    (hs : s.step (.io entry.conn .close) = some s') :
    ∃ s'', s'.step (.lookup i server_name) = some s'' ∧ ¬ s''.NeverDead := by
  cases step_cases hs with
  | write hsend hclose he => exact absurd rfl hclose
  | close hreg hidle =>
    refine ⟨_, if_pos hi, fun hnever => ?_⟩
    rw [lookup_eq_returns (s := s.setConn _ _) hentry (hinv.count_lt server_name)] at hnever
    refine Bool.noConfusion (hnever ⟨server_name, some entry.conn, true⟩
      (List.mem_append_right _ (List.mem_singleton.mpr ?_)))
    show _ = (⟨server_name, some entry.conn,
      ((s.setConn entry.conn _).conns entry.conn).conn.disConnect⟩ : ConnResult)
    rw [conns_setConn]
    rfl

/-- A connection that is closed by the peer while nobody caches it. -/
theorem neverDead_closed :
    ∃ s : TcpClient Unit, s.NeverDead ∧ s.results.length = 3 ∧
      (s.conns 0).conn.disConnect = true := by
  obtain ⟨s, hruns, h⟩ : ∃ s : TcpClient Unit, Runs (restrict step closesUncached) anyStep {} s ∧
      decide (s.results.length = 3 ∧ (s.conns 0).conn.disConnect = true) = true :=
    exists_of_execute
      [.lookup () [97], .connect () .connected, .store (), .lookup () [97],
        .push 0 { msg_id_ := [1] } 0, .enable 0,
        .beginRound [2], .endRound, .beginRound [3], .endRound, .beginRound [4], .endRound,
        .io 0 .close, .lookup () [97], .connect () .connected, .store ()] (by decide +kernel)
  exact ⟨s, neverDead (runs_of_restrict hruns), of_decide_eq_true h⟩

/-- **The next caller gets the connection that the peer has closed.** -/
theorem not_neverDead :
    ¬ ∀ s : TcpClient Unit, Runs step anyStep {} s → s.NeverDead := by
  intro hall
  obtain ⟨s, hruns, h⟩ : ∃ s : TcpClient Unit, Runs step anyStep {} s ∧
      decide (⟨[97], some 0, true⟩ ∈ s.results) = true :=
    exists_of_execute
      [.lookup () [97], .connect () .connected, .store (), .push 0 { msg_id_ := [1] } 0,
        .enable 0, .io 0 .close, .lookup () [97]] (by decide +kernel)
  exact Bool.noConfusion (hall s hruns _ (of_decide_eq_true h))

/-! ## One connection for a service -/

/-- A connection is live: it was not closed, and the timer did not take it
out of the cache. -/
def Live (s : TcpClient ι) (c : ℕ) : Prop := (s.conns c).conn.disConnect = false ∧ c ∉ s.evicted

/-- **There is one connection for a service**: no two that were stored are
live, what a call returned is what is cached as long as it is live, and no
live connection was replaced. -/
structure OneConnection (s : TcpClient ι) (server_name : Bytes) : Prop where
  one : ∀ c c', (server_name, c) ∈ s.stored → (server_name, c') ∈ s.stored →
    s.Live c → s.Live c' → c = c'
  returned : ∀ r ∈ s.results, r.server_name = server_name → ∀ c, r.conn = some c →
    (server_name, c) ∈ s.stored ∧
      (s.Live c → ∃ kv, s.server_conns_.lookup server_name = some ⟨kv, c⟩)
  kept : ∀ r ∈ s.replaced, r.server_name = server_name → r.disConnect = true

/-- The condition on the steps of a run, for a service: when a caller stores
its connection, no other was stored since its lookup failed, or the one that
is cached then was closed. -/
def storesAlone (server_name : Bytes) (s : TcpClient ι) : ClientStep ι → Prop
  | .store i =>
    ∀ p ∈ (s.callers i).missedAt, p.1 = server_name → s.stores server_name = p.2 ∨
      ∀ entry ∈ s.server_conns_.lookup server_name, (s.conns entry.conn).conn.disConnect = true
  | _ => True

instance (server_name : Bytes) (s : TcpClient ι) (l : ClientStep ι) :
    Decidable (s.storesAlone server_name l) :=
  match l with
  | .store i => inferInstanceAs (Decidable (∀ p ∈ (s.callers i).missedAt, _))
  | .lookup _ _ | .connect _ _ | .push _ _ _ | .enable _ | .io _ _ | .arrive _ _ | .parse _
  | .beginRound _ | .endRound => .isTrue trivial

/-- What keeps it to one connection. -/
structure Alone (server_name : Bytes) (s : TcpClient ι) : Prop where
  cached : ∀ c, (server_name, c) ∈ s.stored → s.Live c →
    ∃ kv, s.server_conns_.lookup server_name = some ⟨kv, c⟩
  missed : ∀ i n, (s.callers i).missedAt = some (server_name, n) →
    n ≤ s.stores server_name ∧
      (s.stores server_name = n → s.server_conns_.lookup server_name = none)
  results : ∀ r ∈ s.results, r.server_name = server_name → ∀ c, r.conn = some c →
    (server_name, c) ∈ s.stored
  kept : ∀ r ∈ s.replaced, r.server_name = server_name → r.disConnect = true

omit [DecidableEq ι] in
theorem Alone.single {server_name : Bytes} (h : s.Alone server_name) :
    s.OneConnection server_name where
  one c c' hc hc' hlive hlive' := by
    obtain ⟨kv, hentry⟩ := h.cached c hc hlive
    obtain ⟨kv', hentry'⟩ := h.cached c' hc' hlive'
    rw [hentry] at hentry'
    exact congrArg CacheEntry.conn (Option.some.inj hentry')
  returned r hr hname c hc := by
    have hstored := h.results r hr hname c hc
    exact ⟨hstored, h.cached c hstored⟩
  kept := h.kept

/-- What is live was live before. -/
theorem Live.back (hinv : s.Inv) {l : ClientStep ι} (hs : s.step l = some s') {c : ℕ}
    (h : s'.Live c) : s.Live c := by
  refine ⟨?_, fun hevicted => h.2 ?_⟩
  · rcases hinv.step_disConnect hs c with heq | rfl
    · exact heq.symm.trans h.1
    · cases step_cases hs with
      | write hsend hclose he => exact absurd rfl hclose
      | close hreg hidle =>
        have hclosed := h.1
        rw [conns_setConn] at hclosed
        cases hclosed
  · have hmono : ∀ t : TcpClient ι, t.history = s.history → c ∈ t.evicted := by
      intro t ht
      rw [evicted, ht]
      exact hevicted
    cases hinv.step_tables hs with
    | same hsame => exact hmono _ hsame.history
    | found hi hentry => exact hmono _ rfl
    | missed hi hnone => exact hmono _ rfl
    | connected hi => exact hmono _ rfl
    | refused hi => exact hmono _ rfl
    | @store i server_name conn stores hi =>
      obtain ⟨kv, kvs', replaced', heq, -⟩ := s.cache_eq server_name conn
      rw [heq]
      exact hmono _ rfl
    | endRound hround => exact List.mem_append_right _ hevicted

omit [DecidableEq ι] in
/-- A connection that a round leaves out of the cache was evicted. -/
theorem cached_endRound {r : Round} {name : Bytes} {entry : CacheEntry}
    (hentry : s.server_conns_.lookup name = some entry)
    (hnot : entry.conn ∉ (s.endRound r).evicted) :
    (s.endRound r).server_conns_.lookup name = some entry := by
  have hcounted := counted_endRound s r
  cases hlookup : (s.endRound r).server_conns_.lookup name with
  | some entry' => exact (hcounted.cached hlookup).symm.trans hentry |>.symm ▸ rfl
  | none =>
    refine absurd (List.mem_append_left _ (hcounted.mem_evicted_iff.mpr ?_)) hnot
    exact ⟨name, entry, hentry, rfl, (hcounted.lookup_eq_none_iff hentry).mp hlookup⟩

omit [DecidableEq ι] in
/-- **A step that stores nothing for the service.** -/
theorem Alone.frame {server_name : Bytes} (h : s.Alone server_name)
    (hlive : ∀ c, s'.Live c → s.Live c)
    (hcached : ∀ entry, s.server_conns_.lookup server_name = some entry → s'.Live entry.conn →
      s'.server_conns_.lookup server_name = some entry)
    (hnone : s.server_conns_.lookup server_name = none →
      s'.server_conns_.lookup server_name = none)
    (hstored : ∀ c, (server_name, c) ∈ s'.stored ↔ (server_name, c) ∈ s.stored)
    (hstores : s'.stores server_name = s.stores server_name)
    (hmissed : ∀ i n, (s'.callers i).missedAt = some (server_name, n) →
      (s.callers i).missedAt = some (server_name, n) ∨
        n = s.stores server_name ∧ s.server_conns_.lookup server_name = none)
    (hresults : ∀ r ∈ s'.results, r.server_name = server_name → r ∈ s.results ∨
      ∀ c, r.conn = some c → (server_name, c) ∈ s.stored)
    (hreplaced : ∀ r ∈ s'.replaced, r.server_name = server_name → r ∈ s.replaced) :
    s'.Alone server_name where
  cached c hc hc' := by
    obtain ⟨kv, hentry⟩ := h.cached c ((hstored c).mp hc) (hlive c hc')
    exact ⟨kv, hcached _ hentry hc'⟩
  missed i n hi := by
    rw [hstores]
    rcases hmissed i n hi with hi | ⟨rfl, hempty⟩
    · exact ⟨(h.missed i n hi).1, fun heq => hnone ((h.missed i n hi).2 heq)⟩
    · exact ⟨le_rfl, fun _ => hnone hempty⟩
  results r hr hname c hc := by
    rw [hstored]
    rcases hresults r hr hname with hr | hr
    · exact h.results r hr hname c hc
    · exact hr c hc
  kept r hr hname := h.kept r (hreplaced r hr hname) hname

/-- A caller moves to a phase in which its lookup has not failed. -/
theorem missedAt_update {i j : ι} {phase : CallerPhase} {p : Bytes × ℕ}
    (hphase : phase.missedAt = none ∨ phase.missedAt = (s.callers i).missedAt)
    (hj : (Function.update s.callers i phase j).missedAt = some p) :
    (s.callers j).missedAt = some p := by
  by_cases hji : j = i
  · rw [hji, Function.update_self] at hj
    rw [hji]
    rcases hphase with hphase | hphase
    · rw [hphase] at hj
      cases hj
    · rw [← hphase, hj]
  · rwa [Function.update_of_ne hji] at hj

/-- A store for another service. -/
theorem Alone.storeOther {server_name : Bytes} (h : s.Alone server_name) {i : ι} {name : Bytes}
    {conn : ℕ} (hlive : ∀ c, ((s.cache name conn).returns i name (some conn)).Live c → s.Live c)
    (hname : name ≠ server_name) :
    ((s.cache name conn).returns i name (some conn)).Alone server_name := by
  obtain ⟨kv, kvs', replaced', heq, hkv⟩ := s.cache_eq name conn
  have hlookup : (s.server_conns_.insert name ⟨kv, conn⟩).lookup server_name
      = s.server_conns_.lookup server_name := AList.lookup_insert_ne (Ne.symm hname)
  rw [heq] at hlive ⊢
  refine h.frame hlive (fun entry hentry _ => hlookup.trans hentry) (fun hnone => hlookup.trans hnone)
    (fun c => ?_) ?_ (fun j n hj => .inl (missedAt_update (.inl rfl) hj)) (fun r hr hr' => ?_)
    (fun r hr hr' => ?_)
  · show (server_name, c) ∈ s.stored ++ [(name, conn)] ↔ _
    simp [Ne.symm hname]
  · show ((s.stored ++ [(name, conn)]).filter (fun p => p.1 = server_name)).length = _
    simp [hname, TcpClient.stores]
  · rcases List.mem_append.mp hr with hr | hr
    · exact .inl hr
    · rw [List.mem_singleton.mp hr] at hr'
      exact absurd hr' hname
  · rcases hkv with ⟨entry, -, -, -, rfl⟩ | ⟨-, -, -, rfl⟩
    · rcases List.mem_append.mp hr with hr | hr
      · exact hr
      · rw [List.mem_singleton.mp hr] at hr'
        exact absurd hr' hname
    · exact hr

/-- **A store for the service, that replaces nothing live.** -/
theorem Alone.store {server_name : Bytes} (h : s.Alone server_name) {i : ι} {conn stores : ℕ}
    (hlive : ∀ c, ((s.cache server_name conn).returns i server_name (some conn)).Live c → s.Live c)
    (hi : s.callers i = .storing server_name conn stores)
    (halone : s.stores server_name = stores ∨
      ∀ entry ∈ s.server_conns_.lookup server_name, (s.conns entry.conn).conn.disConnect = true) :
    ((s.cache server_name conn).returns i server_name (some conn)).Alone server_name := by
  -- as nothing was stored since the lookup failed, nothing is cached
  have hdead : ∀ entry, s.server_conns_.lookup server_name = some entry →
      (s.conns entry.conn).conn.disConnect = true := by
    intro entry hentry
    refine halone.elim (fun hstores => ?_) (fun hdead => hdead entry hentry)
    have hnone := (h.missed i stores (by rw [hi]; rfl)).2 hstores
    rw [hnone] at hentry
    cases hentry
  obtain ⟨kv, kvs', replaced', heq, hkv⟩ := s.cache_eq server_name conn
  rw [heq] at hlive ⊢
  constructor
  · intro c hc hc'
    refine ⟨kv, ?_⟩
    show (s.server_conns_.insert server_name ⟨kv, conn⟩).lookup server_name = _
    rw [AList.lookup_insert]
    rcases List.mem_append.mp hc with hold | hnew
    · obtain ⟨kv', hentry⟩ := h.cached c hold (hlive c hc')
      have hclosed := hdead _ hentry
      rw [(hlive c hc').1] at hclosed
      cases hclosed
    · rw [(Prod.mk.inj (List.mem_singleton.mp hnew)).2]
  · intro j n hj
    have hn := (h.missed j n (missedAt_update (.inl rfl) hj)).1
    have hstores : (s.stored ++ [(server_name, conn)]).filter (fun p => p.1 = server_name)
        = s.stored.filter (fun p => p.1 = server_name) ++ [(server_name, conn)] := by
      simp
    show n ≤ ((s.stored ++ [(server_name, conn)]).filter (fun p => p.1 = server_name)).length ∧
      (((s.stored ++ [(server_name, conn)]).filter (fun p => p.1 = server_name)).length = n → _)
    rw [hstores, List.length_append]
    exact ⟨Nat.le_succ_of_le hn, fun heq => absurd (heq ▸ hn) (Nat.not_succ_le_self _)⟩
  · intro r hr hname c hc
    rcases List.mem_append.mp hr with hr | hr
    · exact List.mem_append_left _ (h.results r hr hname c hc)
    · rw [List.mem_singleton.mp hr] at hc
      rw [← Option.some.inj hc]
      exact List.mem_append_right _ List.mem_cons_self
  · intro r hr hname
    rcases hkv with ⟨entry, hentry, -, -, rfl⟩ | ⟨-, -, -, rfl⟩
    · rcases List.mem_append.mp hr with hr | hr
      · exact h.kept r hr hname
      · rw [List.mem_singleton.mp hr]
        exact hdead entry hentry
    · exact h.kept r hr hname

theorem Alone.step {server_name : Bytes} (h : s.Alone server_name) (hinv : s.Inv)
    {l : ClientStep ι} (hok : s.storesAlone server_name l) (hs : s.step l = some s') :
    s'.Alone server_name := by
  have hlive : ∀ c, s'.Live c → s.Live c := fun c => Live.back hinv hs
  cases hinv.step_tables hs with
  | same hsame =>
    refine h.frame hlive (fun entry hentry _ => hsame.server_conns_ ▸ hentry)
      (fun hnone => hsame.server_conns_ ▸ hnone) (fun c => by rw [hsame.stored])
      (by rw [stores, stores, hsame.stored]) (fun i n hi => .inl (hsame.callers ▸ hi))
      (fun r hr _ => .inl (hsame.results ▸ hr)) (fun r hr _ => hsame.replaced ▸ hr)
  | @found i name entry hi hentry =>
    refine h.frame hlive (fun _ hentry _ => hentry) id (fun _ => Iff.rfl) rfl
      (fun j n hj => .inl (missedAt_update (.inl rfl) hj)) (fun r hr hname => ?_) (fun r hr _ => hr)
    refine (List.mem_append.mp hr).imp id fun hr c hc => ?_
    rw [List.mem_singleton.mp hr] at hname hc
    obtain rfl := Option.some.inj hc
    exact hname ▸ hinv.cached name entry hentry
  | @missed i name hi hnone =>
    refine h.frame hlive (fun _ hentry _ => hentry) id (fun _ => Iff.rfl) rfl (fun j n hj => ?_)
      (fun r hr _ => .inl hr) (fun r hr _ => hr)
    by_cases hji : j = i
    · rw [hji] at hj
      have hj : (Function.update s.callers i (.connecting name (s.stores name)) i).missedAt
        = some (server_name, n) := hj
      rw [Function.update_self] at hj
      obtain ⟨rfl, rfl⟩ := Prod.mk.inj (Option.some.inj hj)
      exact .inr ⟨rfl, hnone⟩
    · have hj : (Function.update s.callers i (.connecting name (s.stores name)) j).missedAt
        = some (server_name, n) := hj
      rw [Function.update_of_ne hji] at hj
      exact .inl hj
  | @connected i outcome name stores hi =>
    refine h.frame hlive (fun _ hentry _ => hentry) id (fun _ => Iff.rfl) rfl
      (fun j n hj => .inl (missedAt_update (.inr ?_) hj)) (fun r hr _ => .inl hr)
      (fun r hr _ => hr)
    rw [hi]
    rfl
  | refused hi =>
    refine h.frame hlive (fun _ hentry _ => hentry) id (fun _ => Iff.rfl) rfl
      (fun j n hj => .inl (missedAt_update (.inl rfl) hj)) (fun r hr _ => ?_) (fun r hr _ => hr)
    refine (List.mem_append.mp hr).imp id fun hr c hc => ?_
    rw [List.mem_singleton.mp hr] at hc
    cases hc
  | @store i name conn stores hi =>
    by_cases hname : name = server_name
    · rw [← hname] at h hok ⊢
      exact h.store hlive hi (hok (name, stores) (by rw [hi]; rfl) rfl)
    · exact h.storeOther hlive hname
  | @endRound r hround =>
    have heq := (counted_endRound s r).eq
    have hstored : (s.endRound r).stored = s.stored := (congrArg TcpClient.stored heq :)
    have hcallers : (s.endRound r).callers = s.callers := (congrArg TcpClient.callers heq :)
    have hresults : (s.endRound r).results = s.results := (congrArg TcpClient.results heq :)
    have hreplaced : (s.endRound r).replaced = s.replaced := (congrArg TcpClient.replaced heq :)
    refine h.frame hlive (fun entry hentry hlive' => cached_endRound hentry hlive'.2)
      (fun hnone => ?_) (fun c => by rw [hstored]) (by rw [TcpClient.stores, hstored]; rfl)
      (fun i n hi => .inl (hcallers ▸ hi)) (fun r hr _ => .inl (hresults ▸ hr))
      (fun r hr _ => hreplaced ▸ hr)
    refine Option.eq_none_iff_forall_ne_some.mpr fun entry hentry => ?_
    rw [(counted_endRound s r).cached hentry] at hnone
    cases hnone

omit [DecidableEq ι] in
theorem Alone.init (server_name : Bytes) : Alone server_name ({} : TcpClient ι) where
  cached _ hc := (List.not_mem_nil hc).elim
  missed _ _ hi := by cases hi
  results _ hr := (List.not_mem_nil hr).elim
  kept _ hr := (List.not_mem_nil hr).elim

/-- **There is one connection for a service**, if no caller stores one while
another that was stored since its lookup failed is live. -/
theorem oneConnection (server_name : Bytes) (hruns : Runs step (storesAlone server_name) {} s) :
    s.OneConnection server_name := by
  have h : s.Inv ∧ s.Alone server_name :=
    hruns.invariant (I := fun s : TcpClient ι => s.Inv ∧ s.Alone server_name)
      (fun _ _ _ h hok hs => ⟨h.1.step hs, h.2.step h.1 hok hs⟩)
      ⟨Inv.init, Alone.init server_name⟩
  exact h.2.single

/-- **A store that is not alone replaces a live connection.** -/
theorem replaced_of_stored {server_name : Bytes} {i : ι}
    (halone : ¬ s.storesAlone server_name (.store i)) (hs : s.step (.store i) = some s') :
    ¬ s'.OneConnection server_name := by
  cases step_cases hs with
  | @store i name conn stores hi =>
    intro hone
    refine halone fun p hp hname => .inr fun entry hentry => ?_
    rw [hi] at hp
    obtain rfl := Option.some.inj hp
    obtain rfl : name = server_name := hname
    obtain ⟨kv, kvs', replaced', heq, hkv⟩ := s.cache_eq name conn
    rw [heq] at hone
    rcases hkv with ⟨entry', hentry', -, -, rfl⟩ | ⟨hnone, -, -, -⟩
    · obtain rfl := Option.some.inj (hentry'.symm.trans hentry)
      exact hone.kept _ (List.mem_append_right _ List.mem_cons_self) rfl
    · rw [hnone] at hentry
      cases hentry

/-- Two callers, of which the second looks up while the first connects, and
then finds no server to connect to. Later it gets what the first stored. -/
theorem oneConnection_interleaved :
    ∃ s : TcpClient Bool, s.OneConnection [97] ∧
      s.results.map ConnResult.conn = [none, some 0, some 0] := by
  obtain ⟨s, hruns, h⟩ : ∃ s : TcpClient Bool,
      Runs (restrict step (storesAlone [97])) anyStep {} s ∧
        decide (s.results.map ConnResult.conn = [none, some 0, some 0]) = true :=
    exists_of_execute
      [.lookup true [97], .lookup false [97], .connect true .connected, .connect false .failed,
        .store true, .lookup false [97]]
      (by decide +kernel)
  exact ⟨s, oneConnection [97] (runs_of_restrict hruns), of_decide_eq_true h⟩

/-- **Two callers at once make two connections**, and the second replaces the
first. -/
theorem not_oneConnection :
    ¬ ∀ s : TcpClient Bool, Runs step anyStep {} s → s.OneConnection [97] := by
  intro hall
  obtain ⟨s, hruns, h⟩ : ∃ s : TcpClient Bool, Runs step anyStep {} s ∧
      decide (([97], 0) ∈ s.stored ∧ ([97], 1) ∈ s.stored ∧ s.history = [] ∧
        (s.conns 0).conn.disConnect = false ∧ (s.conns 1).conn.disConnect = false) = true :=
    exists_of_execute
      [.lookup true [97], .lookup false [97], .connect true .connected,
        .connect false .connected, .store true, .store false] (by decide +kernel)
  obtain ⟨h0, h1, hhistory, hup, hup'⟩ := of_decide_eq_true h
  have hevicted : s.evicted = [] := by
    rw [evicted, hhistory]
    rfl
  have hlive : ∀ c, (s.conns c).conn.disConnect = false → s.Live c :=
    fun c hc => ⟨hc, hevicted ▸ List.not_mem_nil⟩
  exact absurd ((hall s hruns).one 0 1 h0 h1 (hlive 0 hup) (hlive 1 hup')) (by decide)

end TcpClient

end PbRpc
