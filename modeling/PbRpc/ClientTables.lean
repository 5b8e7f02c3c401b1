import PbRpc.TcpClient

/-!
# The client's tables

What the loops of the client do to its tables, each said once: the write
callbacks of a `sendMessage` (`Registered`), the loop that pushes heartbeats
(`foldl_pushKeepalive`), and the loop that counts (`Counted`). `Inv` is how
the tables fit together, and every run keeps it. `step_tables` then says of
any step what becomes of the cache.
-/

namespace PbRpc

open TinyPBCoder Transition

namespace TcpClient

variable {ι : Type}

/-! ## What the loops over callbacks and over the map do -/

/-- Only the table of reply callbacks and the channel differ. -/
def Touched (e e' : Endpoint ClientDone) : Prop :=
  ∃ read_dones_ connectChannel_, e' = { e with
    conn := { e.conn with read_dones_ := read_dones_, connectChannel_ := connectChannel_ } }

theorem Touched.refl (e : Endpoint ClientDone) : Touched e e := ⟨_, _, rfl⟩

theorem Touched.trans {e e' e'' : Endpoint ClientDone} (h : Touched e e') (h' : Touched e' e'') :
    Touched e e'' := by
  obtain ⟨read, channel, rfl⟩ := h
  obtain ⟨read', channel', rfl⟩ := h'
  exact ⟨read', channel', rfl⟩

theorem touched_pushReadMessage (e : Endpoint ClientDone) (msg_id : Bytes) (done : ClientDone) :
    Touched e { e with conn := e.conn.pushReadMessage msg_id done } := by
  rw [Connection.pushReadMessage]
  split
  · exact Touched.refl e
  · exact ⟨_, _, rfl⟩

@[simp] theorem conns_setConn (s : TcpClient ι) (c : ℕ) (e : Endpoint ClientDone) :
    (s.setConn c e).conns c = e :=
  Function.update_self ..

theorem conns_setConn_of_ne (s : TcpClient ι) {c x : ℕ} (e : Endpoint ClientDone) (h : x ≠ c) :
    (s.setConn c e).conns x = s.conns x :=
  Function.update_of_ne h ..

theorem mem_cachedConns_iff {s : TcpClient ι} {c : ℕ} :
    c ∈ s.cachedConns ↔ ∃ name entry, s.server_conns_.lookup name = some entry ∧ entry.conn = c := by
  rw [cachedConns, List.mem_map]
  constructor
  · rintro ⟨entry, hentry, rfl⟩
    exact ⟨entry.1, entry.2, AList.mem_lookup_iff.mpr hentry, rfl⟩
  · rintro ⟨name, entry, hentry, rfl⟩
    exact ⟨⟨name, entry⟩, AList.mem_lookup_iff.mp hentry, rfl⟩

/-- What is found in the map after a store. -/
theorem lookup_insert_eq_some {m : AList (fun _ : Bytes => CacheEntry)} {key name : Bytes}
    {value entry : CacheEntry} (h : (m.insert key value).lookup name = some entry) :
    (name = key ∧ entry = value) ∨ (name ≠ key ∧ m.lookup name = some entry) := by
  by_cases hname : name = key
  · rw [hname, AList.lookup_insert] at h
    exact .inl ⟨hname, (Option.some.inj h).symm⟩
  · rw [AList.lookup_insert_ne hname] at h
    exact .inr ⟨hname, h⟩

theorem entryAt_eq_some {s : TcpClient ι} {kv : ℕ} {entry : Sigma fun _ : Bytes => CacheEntry}
    (h : s.entryAt kv = some entry) :
    s.server_conns_.lookup entry.1 = some entry.2 ∧ entry.2.kv = kv :=
  ⟨AList.mem_lookup_iff.mpr (List.mem_of_find?_eq_some h), by simpa using List.find?_some h⟩

/-- **What the write callbacks change**: tables of reply callbacks and
channels, of the connection and of those that are cached. -/
structure Registered (c : ℕ) (s s' : TcpClient ι) : Prop where
  eq : s' = { s with conns := s'.conns }
  touched : ∀ x, Touched (s.conns x) (s'.conns x)
  other : ∀ x, x ≠ c → x ∉ s.cachedConns → s'.conns x = s.conns x

theorem Registered.refl (c : ℕ) (s : TcpClient ι) : Registered c s s :=
  ⟨rfl, fun _ => Touched.refl _, fun _ _ _ => rfl⟩

theorem Registered.trans {c : ℕ} {s s' s'' : TcpClient ι} (h : Registered c s s')
    (h' : Registered c s' s'') : Registered c s s'' where
  eq := by
    rw [h'.eq, h.eq]
  touched x := (h.touched x).trans (h'.touched x)
  other x hx hcached := by
    have hcached' : x ∉ s'.cachedConns := by
      rw [cachedConns, h.eq]
      exact hcached
    rw [h'.other x hx hcached', h.other x hx hcached]

theorem registered_setConn (s : TcpClient ι) {c x : ℕ} {e : Endpoint ClientDone}
    (hx : x = c ∨ x ∈ s.cachedConns) (he : Touched (s.conns x) e) :
    Registered c s (s.setConn x e) := by
  refine ⟨rfl, fun y => ?_, fun y hy hcached => ?_⟩
  · by_cases hyx : y = x
    · rw [hyx, conns_setConn]
      exact he
    · rw [conns_setConn_of_ne s e hyx]
      exact Touched.refl _
  · refine conns_setConn_of_ne s e ?_
    rintro rfl
    exact hx.elim hy hcached

theorem registered_runWriteDone {s s' : TcpClient ι} {c : ℕ}
    {entry : TinyPBProtocol × ClientDone} (h : s.runWriteDone c entry = some s') :
    Registered c s s' := by
  rw [runWriteDone] at h
  split at h
  · obtain rfl := Option.some.inj h
    refine registered_setConn s (.inl rfl) ?_
    obtain ⟨read, channel, htouched⟩ :=
      touched_pushReadMessage (s.conns c) entry.1.msg_id_ entry.2
    exact ⟨read, channel.enableReading, by
      rw [Connection.callWriteDone]
      have hconn := congrArg Endpoint.conn htouched
      dsimp only at hconn
      rw [hconn, Connection.enableReading]⟩
  · obtain ⟨e, he, rfl⟩ := Option.map_eq_some_iff.mp h
    refine registered_setConn s (.inr (mem_cachedConns_iff.mpr ?_))
      (touched_pushReadMessage _ _ _)
    exact ⟨e.1, e.2, (entryAt_eq_some he).1, rfl⟩

/-- **All the write callbacks of a `sendMessage`.** -/
theorem registered_runWriteDones {s s' : TcpClient ι} {c : ℕ}
    {entries : List (TinyPBProtocol × ClientDone)} (h : runWriteDones c entries s = some s') :
    Registered c s s' := by
  induction entries generalizing s with
  | nil =>
    obtain rfl := Option.some.inj h
    exact Registered.refl c s
  | cons entry entries ih =>
    obtain ⟨s₁, hone, hrest⟩ := Option.bind_eq_some_iff.mp h
    exact (registered_runWriteDone hone).trans (ih hrest)

/-- The connection that a write callback registers its reply callback with. -/
def registersWith (s : TcpClient ι) (c : ℕ) (entry : TinyPBProtocol × ClientDone) : Option ℕ :=
  match entry.2 with
  | .call _ => some c
  | .keepalive kv _ _ => (s.entryAt kv).map (fun e => e.2.conn)

/-- The reply callback that write callbacks register for an id with a
connection. -/
def registeredBy (s : TcpClient ι) (c x : ℕ) (msg_id : Bytes)
    (entries : List (TinyPBProtocol × ClientDone)) : Option ClientDone :=
  (entries.find? (fun entry => entry.1.msg_id_ = msg_id ∧ s.registersWith c entry = some x)).map
    Prod.snd

theorem registeredBy_cons (s : TcpClient ι) (c x : ℕ) (msg_id : Bytes)
    (entry : TinyPBProtocol × ClientDone) (entries : List (TinyPBProtocol × ClientDone)) :
    s.registeredBy c x msg_id (entry :: entries)
      = (if entry.1.msg_id_ = msg_id ∧ s.registersWith c entry = some x then some entry.2
          else none).or (s.registeredBy c x msg_id entries) := by
  by_cases h : entry.1.msg_id_ = msg_id ∧ s.registersWith c entry = some x
  · simp [registeredBy, h]
  · simp [registeredBy, h]

theorem lookup_runWriteDone {s s' : TcpClient ι} {c : ℕ} {entry : TinyPBProtocol × ClientDone}
    (h : s.runWriteDone c entry = some s') (x : ℕ) (msg_id : Bytes) :
    (s'.conns x).conn.read_dones_.lookup msg_id
      = ((s.conns x).conn.read_dones_.lookup msg_id).or
          (if entry.1.msg_id_ = msg_id ∧ s.registersWith c entry = some x then some entry.2
            else none) := by
  -- the table of the connection that the callback is registered with, and the others
  have hset : ∀ (y : ℕ) (e : Endpoint ClientDone),
      (∀ m, e.conn.read_dones_.lookup m = ((s.conns y).conn.read_dones_.lookup m).or
        (if entry.1.msg_id_ = m then some entry.2 else none)) →
      s.registersWith c entry = some y →
      ((s.setConn y e).conns x).conn.read_dones_.lookup msg_id
        = ((s.conns x).conn.read_dones_.lookup msg_id).or
            (if entry.1.msg_id_ = msg_id ∧ s.registersWith c entry = some x then some entry.2
              else none) := by
    intro y e he hy
    rw [hy]
    by_cases hx : x = y
    · rw [hx, conns_setConn, he]
      simp
    · rw [conns_setConn_of_ne _ _ hx]
      simp [Ne.symm hx]
  rw [runWriteDone] at h
  split at h
  case h_1 done hdone =>
    obtain rfl := Option.some.inj h
    refine hset c _ (fun m => ?_) (by rw [registersWith, hdone])
    exact (s.conns c).conn.lookup_pushReadMessage entry.1.msg_id_ m entry.2
  case h_2 kv conn round hdone =>
    obtain ⟨e, he, rfl⟩ := Option.map_eq_some_iff.mp h
    refine hset e.2.conn _ (fun m => ?_) (by rw [registersWith, hdone]; simp [he])
    exact (s.conns e.2.conn).conn.lookup_pushReadMessage entry.1.msg_id_ m entry.2

/-- **What the write callbacks register.** -/
theorem lookup_runWriteDones {s s' : TcpClient ι} {c : ℕ}
    {entries : List (TinyPBProtocol × ClientDone)} (h : runWriteDones c entries s = some s') (x : ℕ)
    (msg_id : Bytes) :
    (s'.conns x).conn.read_dones_.lookup msg_id
      = ((s.conns x).conn.read_dones_.lookup msg_id).or (s.registeredBy c x msg_id entries) := by
  induction entries generalizing s with
  | nil =>
    obtain rfl := Option.some.inj h
    exact (Option.or_none).symm
  | cons entry entries ih =>
    obtain ⟨s₁, hone, hrest⟩ := Option.bind_eq_some_iff.mp h
    have hsame : s₁.registeredBy c x msg_id entries = s.registeredBy c x msg_id entries := by
      rw [(registered_runWriteDone hone).eq]
      rfl
    rw [ih hrest, lookup_runWriteDone hone, registeredBy_cons, hsame, Option.or_assoc]

theorem channel_runWriteDone {s s' : TcpClient ι} {c : ℕ} {entry : TinyPBProtocol × ClientDone}
    (h : s.runWriteDone c entry = some s') (x : ℕ) :
    (s'.conns x).conn.connectChannel_
      = if x = c ∧ entry.2.isCall = true then (s.conns x).conn.connectChannel_.enableReading
        else (s.conns x).conn.connectChannel_ := by
  rw [runWriteDone] at h
  split at h
  case h_1 done hdone =>
    obtain rfl := Option.some.inj h
    rw [hdone]
    by_cases hx : x = c
    · rw [hx, conns_setConn, if_pos ⟨rfl, rfl⟩]
      show ((s.conns c).conn.pushReadMessage _ _).connectChannel_.enableReading = _
      rw [Connection.pushReadMessage]
      split <;> rfl
    · rw [conns_setConn_of_ne _ _ hx, if_neg (fun h => hx h.1)]
  case h_2 kv conn round hdone =>
    obtain ⟨e, he, rfl⟩ := Option.map_eq_some_iff.mp h
    rw [hdone, if_neg (fun h => Bool.noConfusion h.2), pushReadMessage]
    by_cases hx : x = e.2.conn
    · rw [hx, conns_setConn]
      show ((s.conns e.2.conn).conn.pushReadMessage _ _).connectChannel_ = _
      rw [Connection.pushReadMessage]
      split <;> rfl
    · rw [conns_setConn_of_ne _ _ hx]

/-- **The write callback of a call enables reading**, and that of a heartbeat
does not. -/
theorem channel_runWriteDones {s s' : TcpClient ι} {c : ℕ}
    {entries : List (TinyPBProtocol × ClientDone)} (h : runWriteDones c entries s = some s')
    (x : ℕ) :
    (s'.conns x).conn.connectChannel_
      = if x = c ∧ entries.any (fun entry => entry.2.isCall) = true then
          (s.conns x).conn.connectChannel_.enableReading
        else (s.conns x).conn.connectChannel_ := by
  induction entries generalizing s with
  | nil =>
    obtain rfl := Option.some.inj h
    exact (if_neg (fun h => Bool.noConfusion h.2)).symm
  | cons entry entries ih =>
    obtain ⟨s₁, hone, hrest⟩ := Option.bind_eq_some_iff.mp h
    rw [ih hrest, channel_runWriteDone hone]
    by_cases hx : x = c <;> cases hcall : entry.2.isCall <;>
      cases hany : entries.any (fun entry => entry.2.isCall) <;>
        simp [hx, hcall, hany, Channel.enableReading, Channel.setChannel]

/-- The message and the callback that a heartbeat is queued with. -/
def heartbeat (s : TcpClient ι) (msg_id : Bytes) (entry : CacheEntry) :
    TinyPBProtocol × ClientDone :=
  (keepalivePkg msg_id, .keepalive entry.kv entry.conn s.history.length)

/-- **What the loop that pushes changes**: each cached connection has one
request more, if no connection is there twice. -/
theorem foldl_pushKeepalive (msg_id : Bytes) (s : TcpClient ι)
    {entries : List (Sigma fun _ : Bytes => CacheEntry)}
    (hnodup : (entries.map (fun entry => entry.2.conn)).Nodup) :
    ∃ conns', entries.foldl (pushKeepalive msg_id) s = { s with conns := conns' } ∧
      (∀ entry ∈ entries, conns' entry.2.conn = { s.conns entry.2.conn with
        conn := { (s.conns entry.2.conn).conn with
          write_dones_ := (s.conns entry.2.conn).conn.write_dones_ ++ [s.heartbeat msg_id entry.2] }
        pushed := (s.conns entry.2.conn).pushed ++ [s.heartbeat msg_id entry.2] }) ∧
      ∀ x ∉ entries.map (fun entry => entry.2.conn), conns' x = s.conns x := by
  induction entries generalizing s with
  | nil => exact ⟨s.conns, rfl, fun _ h => (List.not_mem_nil h).elim, fun _ _ => rfl⟩
  | cons entry entries ih =>
    rw [List.map_cons, List.nodup_cons] at hnodup
    obtain ⟨conns', heq, hin, hout⟩ := ih (pushKeepalive msg_id s entry) hnodup.2
    refine ⟨conns', heq, fun entry' hentry' => ?_, fun x hx => ?_⟩
    · rcases List.mem_cons.mp hentry' with rfl | hentry'
      · rw [hout _ hnodup.1, pushKeepalive, conns_setConn]
        rfl
      · have hne : entry'.2.conn ≠ entry.2.conn := by
          intro h
          exact hnodup.1 (h ▸ List.mem_map_of_mem hentry')
        rw [hin entry' hentry', pushKeepalive, conns_setConn_of_ne _ _ hne]
        rfl
    · rw [List.map_cons, List.mem_cons, not_or] at hx
      rw [hout x hx.2, pushKeepalive, conns_setConn_of_ne _ _ hx.1]

/-- Only the table of reply callbacks differs, and has no more of them. -/
def Dropped (e e' : Endpoint ClientDone) : Prop :=
  ∃ read_dones_, e' = { e with conn := { e.conn with read_dones_ := read_dones_ } } ∧
    ∀ k ∈ read_dones_, k ∈ e.conn.read_dones_

/-- The counter of a cached service after a round. -/
def nextCount (count : ℤ) : ℤ := if count + 1 ≥ 3 then 0 else count + 1

/-- **What the loop that counts changes**: the counters of the services, and
those with a counter of three are taken out of the map. -/
structure Counted (names : List Bytes) (s s' : TcpClient ι) : Prop where
  eq : s' = { s with
    conns := s'.conns
    server_conns_ := s'.server_conns_
    keepalive_count_ := s'.keepalive_count_ }
  dropped : ∀ x, Dropped (s.conns x) (s'.conns x)
  out : ∀ name ∈ names, 3 ≤ s.keepalive_count_ name + 1 → s'.server_conns_.lookup name = none
  kept : ∀ name, (name ∈ names → s.keepalive_count_ name + 1 < 3) →
    s'.server_conns_.lookup name = s.server_conns_.lookup name
  count : ∀ name ∈ names, s'.keepalive_count_ name = nextCount (s.keepalive_count_ name)
  count_other : ∀ name ∉ names, s'.keepalive_count_ name = s.keepalive_count_ name

theorem Counted.nil (s : TcpClient ι) : Counted [] s s where
  eq := rfl
  dropped _ := ⟨_, rfl, fun _ h => h⟩
  out _ h := (List.not_mem_nil h).elim
  kept _ _ := rfl
  count _ h := (List.not_mem_nil h).elim
  count_other _ _ := rfl

/-- One iteration. -/
theorem counted_countKeepalive (msg_id : Bytes) (s : TcpClient ι)
    (entry : Sigma fun _ : Bytes => CacheEntry) :
    Counted [entry.1] s (countKeepalive msg_id s entry) := by
  have hdropped : ∀ x, Dropped (s.conns x) ((s.setConn entry.2.conn { s.conns entry.2.conn with
      conn := (s.conns entry.2.conn).conn.popReadMessage msg_id }).conns x) := by
    intro x
    by_cases hx : x = entry.2.conn
    · rw [hx, conns_setConn]
      exact ⟨_, rfl, fun k hk => (AList.mem_erase.mp hk).2⟩
    · rw [conns_setConn_of_ne _ _ hx]
      exact ⟨_, rfl, fun _ h => h⟩
  have hupdate : ∀ (count : ℤ) (name : Bytes), name ∉ [entry.1] →
      Function.update s.keepalive_count_ entry.1 count name = s.keepalive_count_ name :=
    fun count name hname => Function.update_of_ne (fun h => hname (List.mem_singleton.mpr h)) ..
  rw [countKeepalive]
  split
  case isTrue hthree =>
    refine ⟨rfl, hdropped, fun name hname _ => ?_, fun name hname => ?_, fun name hname => ?_,
      hupdate 0⟩
    · rw [List.mem_singleton.mp hname]
      exact AList.lookup_erase _ _
    · refine AList.lookup_erase_ne ?_
      rintro rfl
      exact absurd hthree (not_le.mpr (hname List.mem_cons_self))
    · rw [List.mem_singleton.mp hname, nextCount]
      exact (Function.update_self ..).trans (if_pos hthree).symm
  case isFalse hthree =>
    refine ⟨rfl, hdropped, fun name hname h => ?_, fun name _ => rfl, fun name hname => ?_,
      hupdate _⟩
    · rw [List.mem_singleton.mp hname] at h
      exact absurd h hthree
    · rw [List.mem_singleton.mp hname, nextCount]
      exact (Function.update_self ..).trans (if_neg hthree).symm

theorem Counted.cons {name : Bytes} {names : List Bytes} {s s' s'' : TcpClient ι}
    (h : Counted [name] s s') (h' : Counted names s' s'') (hname : name ∉ names) :
    Counted (name :: names) s s'' := by
  have hother : ∀ n ∈ names, s'.keepalive_count_ n = s.keepalive_count_ n := by
    intro n hn
    refine h.count_other n fun hmem => hname ?_
    rwa [← List.mem_singleton.mp hmem]
  refine ⟨by rw [h'.eq, h.eq], fun x => ?_, fun n hn hthree => ?_, fun n hn => ?_, fun n hn => ?_,
    fun n hn => ?_⟩
  · obtain ⟨read, hread, hsub⟩ := h.dropped x
    obtain ⟨read', hread', hsub'⟩ := h'.dropped x
    rw [hread] at hread' hsub'
    exact ⟨read', hread', fun k hk => hsub k (hsub' k hk)⟩
  · rcases List.mem_cons.mp hn with rfl | hn
    · rw [h'.kept n (fun hmem => absurd hmem hname)]
      exact h.out n List.mem_cons_self hthree
    · exact h'.out n hn (hother n hn ▸ hthree)
  · rw [h'.kept n (fun hmem => hother n hmem ▸ hn (List.mem_cons_of_mem _ hmem))]
    refine h.kept n fun hmem => hn ?_
    rw [List.mem_singleton.mp hmem]
    exact List.mem_cons_self
  · rcases List.mem_cons.mp hn with rfl | hn
    · rw [h'.count_other n hname]
      exact h.count n List.mem_cons_self
    · rw [h'.count n hn, hother n hn]
  · rw [List.mem_cons, not_or] at hn
    rw [h'.count_other n hn.2]
    exact h.count_other n fun hmem => hn.1 (List.mem_singleton.mp hmem)

theorem counted_foldl (msg_id : Bytes) (s : TcpClient ι)
    {entries : List (Sigma fun _ : Bytes => CacheEntry)} (hnodup : (entries.map Sigma.fst).Nodup) :
    Counted (entries.map Sigma.fst) s (entries.foldl (countKeepalive msg_id) s) := by
  induction entries generalizing s with
  | nil => exact Counted.nil s
  | cons entry entries ih =>
    rw [List.map_cons, List.nodup_cons] at hnodup
    exact (counted_countKeepalive msg_id s entry).cons (ih _ hnodup.2) hnodup.1

/-- A reply callback, by whose it is. -/
theorem runReadDone_eq_some {s s' : TcpClient ι} {done : ClientDone}
    (h : s.runReadDone done = some s') :
    s' = s ∨ ∃ kv conn round entry, done = .keepalive kv conn round ∧
      s.entryAt kv = some entry ∧ s' = { s with
        keepalive_count_ := Function.update s.keepalive_count_ entry.1 (-1)
        round := s.round.map (fun r =>
          if round = s.history.length then { r with answered := conn :: r.answered } else r) } := by
  cases done with
  | call d => exact .inl (Option.some.inj h).symm
  | keepalive kv conn round =>
    obtain ⟨entry, hentry, rfl⟩ := Option.map_eq_some_iff.mp h
    exact .inr ⟨kv, conn, round, entry, rfl, hentry, rfl⟩

/-- What the store changes. An entry that is there keeps its place. -/
theorem cache_eq (s : TcpClient ι) (server_name : Bytes) (conn : ℕ) :
    ∃ kv kvs' replaced', s.cache server_name conn = { s with
        server_conns_ := s.server_conns_.insert server_name ⟨kv, conn⟩
        keepalive_count_ := Function.update s.keepalive_count_ server_name 0
        stored := s.stored ++ [(server_name, conn)]
        kvs := kvs'
        replaced := replaced' } ∧
      ((∃ entry, s.server_conns_.lookup server_name = some entry ∧ kv = entry.kv ∧
          kvs' = s.kvs ∧ replaced' = s.replaced ++
            [⟨server_name, some entry.conn, (s.conns entry.conn).conn.disConnect⟩]) ∨
        (s.server_conns_.lookup server_name = none ∧ kv = s.kvs ∧ kvs' = s.kvs + 1 ∧
          replaced' = s.replaced)) := by
  rw [cache]
  dsimp only
  split
  case h_1 entry hentry => exact ⟨_, _, _, rfl, .inl ⟨entry, hentry, rfl, rfl, rfl⟩⟩
  case h_2 hnone => exact ⟨_, _, _, rfl, .inr ⟨hnone, rfl, rfl, rfl⟩⟩

/-! ## What a run keeps -/

/-- **The tables fit together.** What is cached was stored, and is in no two
entries; a connection that is not stored yet belongs to one caller, and
nothing has been done with it. -/
structure Inv (s : TcpClient ι) : Prop where
  cached : ∀ name entry, s.server_conns_.lookup name = some entry → (name, entry.conn) ∈ s.stored
  kv_lt : ∀ name entry, s.server_conns_.lookup name = some entry → entry.kv < s.kvs
  kv_inj : ∀ name name' entry entry', s.server_conns_.lookup name = some entry →
    s.server_conns_.lookup name' = some entry' → entry.kv = entry'.kv → name = name'
  stored_inj : ∀ p ∈ s.stored, ∀ q ∈ s.stored, p.2 = q.2 → p = q
  stored_lt : ∀ p ∈ s.stored, p.2 < s.created
  storing : ∀ i name conn n, s.callers i = .storing name conn n →
    conn < s.created ∧ conn ∉ s.stored.map Prod.snd
  storing_inj : ∀ i j name name' conn n n', s.callers i = .storing name conn n →
    s.callers j = .storing name' conn n' → i = j
  count_lt : ∀ name, s.keepalive_count_ name < 3
  fresh : ∀ c ∉ s.stored.map Prod.snd, s.conns c = Endpoint.client ClientDone

section Inv

variable {s s' : TcpClient ι}

theorem Inv.conn_inj (h : s.Inv) {name name' : Bytes} {entry entry' : CacheEntry}
    (hname : s.server_conns_.lookup name = some entry)
    (hname' : s.server_conns_.lookup name' = some entry') (heq : entry.conn = entry'.conn) :
    name = name' :=
  congrArg Prod.fst (h.stored_inj _ (h.cached name entry hname) _ (h.cached name' entry' hname') heq)

/-- What is cached is stored. -/
theorem Inv.mem_stored (h : s.Inv) {c : ℕ} (hc : c ∈ s.cachedConns) :
    c ∈ s.stored.map Prod.snd := by
  obtain ⟨name, entry, hentry, rfl⟩ := mem_cachedConns_iff.mp hc
  exact List.mem_map_of_mem (h.cached name entry hentry)

/-- No connection is cached twice. -/
theorem Inv.nodup_cachedConns (h : s.Inv) : s.cachedConns.Nodup := by
  have hkeys : s.server_conns_.entries.Pairwise (fun e e' => e.1 ≠ e'.1) :=
    List.pairwise_map.mp s.server_conns_.keys_nodup
  rw [cachedConns, List.Nodup, List.pairwise_map]
  refine hkeys.imp_of_mem fun {e e'} he he' hne heq => hne ?_
  exact h.conn_inj (AList.mem_lookup_iff.mpr he) (AList.mem_lookup_iff.mpr he') heq

/-- **A step that caches nothing, and makes no connection.** -/
theorem Inv.shrink (h : s.Inv)
    (hcached : ∀ name entry, s'.server_conns_.lookup name = some entry →
      s.server_conns_.lookup name = some entry)
    (hkvs : s'.kvs = s.kvs) (hcreated : s'.created = s.created) (hstored : s'.stored = s.stored)
    (hcallers : ∀ i name conn n, s'.callers i = .storing name conn n →
      s.callers i = .storing name conn n)
    (hcount : ∀ name, s'.keepalive_count_ name < 3)
    (hconns : ∀ c ∉ s.stored.map Prod.snd, s'.conns c = s.conns c) : s'.Inv where
  cached name entry hentry := hstored ▸ h.cached name entry (hcached name entry hentry)
  kv_lt name entry hentry := hkvs ▸ h.kv_lt name entry (hcached name entry hentry)
  kv_inj name name' entry entry' hentry hentry' :=
    h.kv_inj name name' entry entry' (hcached _ _ hentry) (hcached _ _ hentry')
  stored_inj := hstored ▸ h.stored_inj
  stored_lt p hp := hcreated ▸ h.stored_lt p (hstored ▸ hp)
  storing i name conn n hi := by
    rw [hcreated, hstored]
    exact h.storing i name conn n (hcallers i name conn n hi)
  storing_inj i j name name' conn n n' hi hj :=
    h.storing_inj i j name name' conn n n' (hcallers _ _ _ _ hi) (hcallers _ _ _ _ hj)
  count_lt := hcount
  fresh c hc := by
    rw [hstored] at hc
    rw [hconns c hc, h.fresh c hc]

/-- A step of a connection that is stored. -/
theorem Inv.setConn (h : s.Inv) {c : ℕ} (hc : c ∈ s.stored.map Prod.snd)
    (e : Endpoint ClientDone) : (s.setConn c e).Inv := by
  refine h.shrink (fun _ _ h => h) rfl rfl rfl (fun _ _ _ _ h => h) h.count_lt fun x hx => ?_
  refine conns_setConn_of_ne s e ?_
  rintro rfl
  exact hx hc

/-- A connection that something has been done with is stored. -/
theorem Inv.mem_stored_of_ne (h : s.Inv) {c : ℕ} (hne : s.conns c ≠ Endpoint.client ClientDone) :
    c ∈ s.stored.map Prod.snd := by
  by_contra hc
  exact hne (h.fresh c hc)

theorem Inv.registered (h : s.Inv) {c : ℕ} (hc : c ∈ s.stored.map Prod.snd)
    (hreg : Registered c s s') : s'.Inv := by
  rw [hreg.eq]
  refine h.shrink (fun _ _ h => h) rfl rfl rfl (fun _ _ _ _ h => h) h.count_lt fun x hx => ?_
  refine hreg.other x ?_ (fun hcached => hx (h.mem_stored hcached))
  rintro rfl
  exact hx hc

theorem Inv.beginRound (h : s.Inv) (msg_id : Bytes) : (s.beginRound msg_id).Inv := by
  obtain ⟨conns', heq, -, hout⟩ := foldl_pushKeepalive msg_id s h.nodup_cachedConns
  rw [TcpClient.beginRound, heq]
  exact h.shrink (fun _ _ h => h) rfl rfl rfl (fun _ _ _ _ h => h) h.count_lt
    fun x hx => hout x fun hcached => hx (h.mem_stored hcached)

/-- **The loop that counts, at the end of a round.** -/
theorem counted_endRound (s : TcpClient ι) (r : Round) :
    Counted s.server_conns_.keys s
      (s.server_conns_.entries.foldl (countKeepalive r.msg_id) s) :=
  counted_foldl r.msg_id s s.server_conns_.keys_nodup

theorem nextCount_lt (count : ℤ) : nextCount count < 3 := by
  rw [nextCount]
  split <;> omega

theorem Dropped.eq_client {e' : Endpoint ClientDone}
    (h : Dropped (Endpoint.client ClientDone) e') : e' = Endpoint.client ClientDone := by
  obtain ⟨read, rfl, hsub⟩ := h
  have hempty : read = ∅ := by
    refine AList.ext (List.eq_nil_iff_forall_not_mem.mpr fun entry hentry => ?_)
    exact AList.notMem_empty _ (hsub entry.1 (AList.mem_keys.mpr (List.mem_map_of_mem hentry)))
  rw [hempty]
  rfl

theorem Counted.cached {names : List Bytes} (h : Counted names s s') {name : Bytes}
    {entry : CacheEntry} (hentry : s'.server_conns_.lookup name = some entry) :
    s.server_conns_.lookup name = some entry := by
  by_cases hout : name ∈ names ∧ 3 ≤ s.keepalive_count_ name + 1
  · rw [h.out name hout.1 hout.2] at hentry
    cases hentry
  · rw [← h.kept name fun hname => not_le.mp fun hle => hout ⟨hname, hle⟩]
    exact hentry

theorem mem_keys_of_lookup {name : Bytes} {entry : CacheEntry}
    (hentry : s.server_conns_.lookup name = some entry) : name ∈ s.server_conns_.keys :=
  AList.lookup_isSome.mp (by rw [hentry]; rfl)

/-- **Who is taken out of the map.** -/
theorem Counted.lookup_eq_none_iff (h : Counted s.server_conns_.keys s s') {name : Bytes}
    {entry : CacheEntry} (hentry : s.server_conns_.lookup name = some entry) :
    s'.server_conns_.lookup name = none ↔ 3 ≤ s.keepalive_count_ name + 1 := by
  refine ⟨fun hnone => ?_, h.out name (mem_keys_of_lookup hentry)⟩
  by_contra hlt
  rw [h.kept name fun _ => not_le.mp hlt, hentry] at hnone
  cases hnone

/-- **Who stays in the map**, and with which counter. -/
theorem Counted.count_of_lookup (h : Counted s.server_conns_.keys s s') {name : Bytes}
    {entry : CacheEntry} (hentry : s'.server_conns_.lookup name = some entry) :
    s.keepalive_count_ name + 1 < 3 ∧ s'.keepalive_count_ name = s.keepalive_count_ name + 1 := by
  have hold := h.cached hentry
  have hlt : ¬ 3 ≤ s.keepalive_count_ name + 1 := by
    rw [← h.lookup_eq_none_iff hold, hentry]
    exact Option.some_ne_none entry
  refine ⟨not_le.mp hlt, ?_⟩
  rw [h.count name (mem_keys_of_lookup hold), nextCount, if_neg hlt]

/-- The connections that a round has evicted. -/
theorem Counted.mem_evicted_iff (h : Counted s.server_conns_.keys s s') {r : Round} {c : ℕ} :
    c ∈ (s.account r s').evicted ↔ ∃ name entry, s.server_conns_.lookup name = some entry ∧
      entry.conn = c ∧ 3 ≤ s.keepalive_count_ name + 1 := by
  have hgone : ∀ name : Bytes, (!s'.server_conns_.keys.contains name) = true ↔
      s'.server_conns_.lookup name = none := by
    intro name
    rw [AList.lookup_eq_none]
    simp [AList.mem_keys]
  constructor
  · intro hc
    obtain ⟨⟨name, entry⟩, hmem, rfl⟩ := List.mem_map.mp hc
    obtain ⟨hentry, hout⟩ := List.mem_filter.mp hmem
    have hentry := AList.mem_lookup_iff.mpr hentry
    exact ⟨name, entry, hentry, rfl, (h.lookup_eq_none_iff hentry).mp ((hgone name).mp hout)⟩
  · rintro ⟨name, entry, hentry, rfl, hthree⟩
    refine List.mem_map.mpr ⟨⟨name, entry⟩, List.mem_filter.mpr ⟨?_, ?_⟩, rfl⟩
    · exact AList.mem_lookup_iff.mp hentry
    · exact (hgone name).mpr ((h.lookup_eq_none_iff hentry).mpr hthree)

theorem Inv.endRound (h : s.Inv) (r : Round) : (s.endRound r).Inv := by
  have hcounted := counted_endRound s r
  rw [TcpClient.endRound]
  generalize s.server_conns_.entries.foldl (countKeepalive r.msg_id) s = s' at hcounted
  have heq := hcounted.eq
  refine h.shrink (fun _ _ hentry => hcounted.cached hentry) ?_ ?_ ?_ ?_ (fun name => ?_)
    fun x hx => ?_
  · exact (congrArg TcpClient.kvs heq :)
  · exact (congrArg TcpClient.created heq :)
  · exact (congrArg TcpClient.stored heq :)
  · intro i name conn n hi
    rw [← hi]
    exact (congrFun (congrArg TcpClient.callers heq) i).symm
  · show s'.keepalive_count_ name < 3
    by_cases hname : name ∈ s.server_conns_.keys
    · rw [hcounted.count name hname]
      exact nextCount_lt _
    · rw [hcounted.count_other name hname]
      exact h.count_lt name
  · have hdropped := hcounted.dropped x
    rw [h.fresh x hx] at hdropped ⊢
    exact hdropped.eq_client

/-- A reply callback writes a counter. -/
theorem Inv.runReadDone (h : s.Inv) {done : ClientDone} (hrun : s.runReadDone done = some s') :
    s'.Inv := by
  rcases runReadDone_eq_some hrun with rfl | ⟨kv, conn, round, entry, -, -, rfl⟩
  · exact h
  · refine h.shrink (fun _ _ h => h) rfl rfl rfl (fun _ _ _ _ h => h) (fun name => ?_)
      (fun _ _ => rfl)
    show Function.update s.keepalive_count_ entry.1 (-1) name < 3
    rw [Function.update_apply]
    split
    · decide
    · exact h.count_lt name

/-- Messages come and go. -/
theorem Inv.inbox (h : s.Inv) (inbox : ℕ → List TinyPBProtocol) :
    Inv { s with inbox := inbox } :=
  h.shrink (fun _ _ h => h) rfl rfl rfl (fun _ _ _ _ h => h) h.count_lt (fun _ _ => rfl)

end Inv

section Inv

variable [DecidableEq ι] {s s' : TcpClient ι}

/-- A caller moves, and is not about to store. -/
theorem callers_update {i j : ι} (phase : CallerPhase)
    (hphase : ∀ name conn n, phase ≠ .storing name conn n) {name : Bytes} {conn n : ℕ}
    (hj : Function.update s.callers i phase j = .storing name conn n) :
    s.callers j = .storing name conn n := by
  by_cases hji : j = i
  · rw [hji, Function.update_self] at hj
    exact absurd hj (hphase name conn n)
  · rwa [Function.update_of_ne hji] at hj

theorem Inv.returns (h : s.Inv) (i : ι) (server_name : Bytes) (conn : Option ℕ) :
    (s.returns i server_name conn).Inv :=
  h.shrink (fun _ _ h => h) rfl rfl rfl (fun _ _ _ _ hj => callers_update .outside nofun hj)
    h.count_lt (fun _ _ => rfl)

theorem Inv.connects (h : s.Inv) (i : ι) (server_name : Bytes) :
    (s.connects i server_name).Inv :=
  h.shrink (fun _ _ h => h) rfl rfl rfl (fun _ _ _ _ hj => callers_update (.connecting ..) nofun hj)
    h.count_lt (fun _ _ => rfl)

/-- A connection is made. -/
theorem Inv.connected (h : s.Inv) {i : ι} {server_name : Bytes} {stores : ℕ} :
    Inv { s with
      created := s.created + 1
      callers := Function.update s.callers i (.storing server_name s.created stores) } := by
  have hcases : ∀ j name conn n, Function.update s.callers i
      (.storing server_name s.created stores) j = .storing name conn n →
        (j = i ∧ conn = s.created) ∨ s.callers j = .storing name conn n := by
    intro j name conn n hj
    by_cases hji : j = i
    · rw [hji, Function.update_self] at hj
      obtain ⟨-, rfl, -⟩ := CallerPhase.storing.inj hj
      exact .inl ⟨hji, rfl⟩
    · rw [Function.update_of_ne hji] at hj
      exact .inr hj
  refine { h with
    stored_lt := fun p hp => Nat.lt_succ_of_lt (h.stored_lt p hp)
    storing := fun j name conn n hj => ?_
    storing_inj := fun j k name name' conn n n' hj hk => ?_ }
  · rcases hcases j name conn n hj with ⟨-, rfl⟩ | hj
    · refine ⟨Nat.lt_succ_self _, fun hmem => ?_⟩
      obtain ⟨p, hp, heq⟩ := List.mem_map.mp hmem
      exact absurd heq (Nat.ne_of_lt (h.stored_lt p hp))
    · exact ⟨Nat.lt_succ_of_lt (h.storing j name conn n hj).1, (h.storing j name conn n hj).2⟩
  · rcases hcases j name conn n hj with ⟨rfl, rfl⟩ | hj' <;>
      rcases hcases k name' _ n' hk with ⟨rfl, heq⟩ | hk'
    · rfl
    · exact absurd (h.storing k name' _ n' hk').1 (lt_irrefl _)
    · exact absurd (heq ▸ (h.storing j name conn n hj').1) (lt_irrefl _)
    · exact h.storing_inj j k name name' conn n n' hj' hk'

/-- **A connection is stored.** -/
theorem Inv.store (h : s.Inv) {i : ι} {server_name : Bytes} {conn stores : ℕ}
    (hi : s.callers i = .storing server_name conn stores) :
    ((s.cache server_name conn).returns i server_name (some conn)).Inv := by
  obtain ⟨hlt, hnew⟩ := h.storing i server_name conn stores hi
  obtain ⟨kv, kvs', replaced', heq, hkv⟩ := s.cache_eq server_name conn
  have hold : ∀ p ∈ s.stored, p.2 ≠ conn := by
    rintro p hp rfl
    exact hnew (List.mem_map_of_mem hp)
  -- the reference is the one of the entry, or a new one
  have hkvs : s.kvs ≤ kvs' ∧ kv < kvs' ∧ ∀ name entry,
      s.server_conns_.lookup name = some entry → entry.kv = kv → name = server_name := by
    rcases hkv with ⟨entry, hentry, rfl, rfl, -⟩ | ⟨-, rfl, rfl, -⟩
    · exact ⟨le_rfl, h.kv_lt _ _ hentry,
        fun name entry' hentry' heq => h.kv_inj _ _ _ _ hentry' hentry heq⟩
    · refine ⟨Nat.le_succ _, Nat.lt_succ_self _, fun name entry hentry heq => ?_⟩
      exact absurd heq (Nat.ne_of_lt (h.kv_lt name entry hentry))
  have hlookup : ∀ name entry,
      (s.server_conns_.insert server_name ⟨kv, conn⟩).lookup name = some entry →
        (name = server_name ∧ entry = ⟨kv, conn⟩) ∨
          (name ≠ server_name ∧ s.server_conns_.lookup name = some entry) :=
    fun _ _ => lookup_insert_eq_some
  have hcallers : ∀ j name c n, Function.update s.callers i .outside j = .storing name c n →
      s.callers j = .storing name c n ∧ c ≠ conn := by
    intro j name c n hj
    have hj' := callers_update .outside nofun hj
    refine ⟨hj', ?_⟩
    rintro rfl
    obtain rfl := h.storing_inj i j server_name name c stores n hi hj'
    rw [Function.update_self] at hj
    cases hj
  rw [heq]
  constructor
  · rintro name entry hentry
    show (name, entry.conn) ∈ s.stored ++ [(server_name, conn)]
    rcases hlookup name entry hentry with ⟨rfl, rfl⟩ | ⟨-, hentry⟩
    · exact List.mem_append_right _ List.mem_cons_self
    · exact List.mem_append_left _ (h.cached name entry hentry)
  · rintro name entry hentry
    show entry.kv < kvs'
    rcases hlookup name entry hentry with ⟨rfl, rfl⟩ | ⟨-, hentry⟩
    · exact hkvs.2.1
    · exact Nat.lt_of_lt_of_le (h.kv_lt name entry hentry) hkvs.1
  · rintro name name' entry entry' hentry hentry' heq
    rcases hlookup name entry hentry with ⟨rfl, rfl⟩ | ⟨-, hold⟩ <;>
      rcases hlookup name' entry' hentry' with ⟨rfl, rfl⟩ | ⟨-, hold'⟩
    · rfl
    · exact (hkvs.2.2 name' entry' hold' heq.symm).symm
    · exact hkvs.2.2 name entry hold heq
    · exact h.kv_inj name name' entry entry' hold hold' heq
  · intro p hp q hq heq
    rcases List.mem_append.mp hp with hp | hp <;> rcases List.mem_append.mp hq with hq | hq
    · exact h.stored_inj p hp q hq heq
    · rw [List.mem_singleton.mp hq] at heq
      exact absurd heq (hold p hp)
    · rw [List.mem_singleton.mp hp] at heq
      exact absurd heq.symm (hold q hq)
    · rw [List.mem_singleton.mp hp, List.mem_singleton.mp hq]
  · intro p hp
    rcases List.mem_append.mp hp with hp | hp
    · exact h.stored_lt p hp
    · rw [List.mem_singleton.mp hp]
      exact hlt
  · intro j name c n hj
    obtain ⟨hj, hne⟩ := hcallers j name c n hj
    obtain ⟨hclt, hcnew⟩ := h.storing j name c n hj
    refine ⟨hclt, ?_⟩
    show c ∉ (s.stored ++ [(server_name, conn)]).map Prod.snd
    rw [List.map_append, List.mem_append, not_or]
    exact ⟨hcnew, fun hmem => hne (List.mem_singleton.mp hmem)⟩
  · intro j k name name' c n n' hj hk
    exact h.storing_inj j k name name' c n n' (hcallers _ _ _ _ hj).1 (hcallers _ _ _ _ hk).1
  · intro name
    show Function.update s.keepalive_count_ server_name 0 name < 3
    rw [Function.update_apply]
    split
    · decide
    · exact h.count_lt name
  · intro c hc
    refine h.fresh c fun hmem => hc ?_
    show c ∈ (s.stored ++ [(server_name, conn)]).map Prod.snd
    rw [List.map_append]
    exact List.mem_append_left _ hmem

theorem Inv.step (h : s.Inv) {l : ClientStep ι} (hs : s.step l = some s') : s'.Inv := by
  cases step_cases hs with
  | found hi hentry hcount => exact h.returns _ _ _
  | missed hi hmiss => exact h.connects _ _
  | connected hi hopens => exact h.connected
  | refused hi hopens => exact h.returns _ _ _
  | store hi => exact h.store hi
  | push message done hc => exact h.setConn hc _
  | @enable c e he =>
    refine h.setConn (h.mem_stored_of_ne fun hfresh => ?_) _
    rw [hfresh] at he
    cases he
  | dropped hdis => exact h
  | @take c s₁ hidle hout hconn hrun =>
    have hc : c ∈ s.stored.map Prod.snd := h.mem_stored_of_ne fun hfresh => by
      rw [hfresh] at hout
      cases hout
    have hreg := registered_runWriteDones hrun
    have hstored : s₁.stored = s.stored := (congrArg TcpClient.stored hreg.eq :)
    exact (h.registered hc hreg).setConn (hstored ▸ hc) _
  | close hreg hidle =>
    refine h.setConn (h.mem_stored_of_ne fun hfresh => ?_) _
    rw [hfresh] at hreg
    cases hreg
  | @write c step e hsend hclose he =>
    refine h.setConn (h.mem_stored_of_ne fun hfresh => ?_) _
    rw [hfresh] at he
    cases step with
    | sendMessage => exact hsend rfl
    | close => exact hclose rfl
    | encode | write result | disableWriting => cases he
  | arrive message hc =>
    exact h.shrink (fun _ _ h => h) rfl rfl rfl (fun _ _ _ _ h => h) h.count_lt (fun _ _ => rfl)
  | unheard hin hinbox hdone => exact h.inbox _
  | @reply c message rest done s' hin hinbox hdone hrun =>
    have hc : c ∈ s.stored.map Prod.snd := h.mem_stored_of_ne fun hfresh => by
      rw [hfresh] at hin
      cases hin
    exact ((h.inbox (Function.update s.inbox c rest)).setConn hc _).runReadDone hrun
  | beginRound msg_id hround => exact h.beginRound msg_id
  | endRound hround => exact h.endRound _

omit [DecidableEq ι] in
theorem Inv.init : Inv ({} : TcpClient ι) where
  cached _ _ hentry := by cases hentry
  kv_lt _ _ hentry := by cases hentry
  kv_inj _ _ _ _ hentry := by cases hentry
  stored_inj _ hp := (List.not_mem_nil hp).elim
  stored_lt _ hp := (List.not_mem_nil hp).elim
  storing _ _ _ _ hi := by cases hi
  storing_inj _ _ _ _ _ _ _ hi := by cases hi
  count_lt _ := (by decide : (0 : ℤ) < 3)
  fresh _ _ := rfl

/-- **Every run keeps the tables.** -/
theorem Inv.of_runs {ok : TcpClient ι → ClientStep ι → Prop}
    (hruns : Runs TcpClient.step ok {} s) : s.Inv :=
  hruns.invariant (fun _ _ _ h _ hs => Inv.step h hs) Inv.init

end Inv

/-! ## What a step does to the cache -/

/-- The cache and what is noted of it are the same. -/
structure SameTables (s s' : TcpClient ι) : Prop where
  server_conns_ : s'.server_conns_ = s.server_conns_
  created : s'.created = s.created
  callers : s'.callers = s.callers
  history : s'.history = s.history
  stored : s'.stored = s.stored
  replaced : s'.replaced = s.replaced
  results : s'.results = s.results

theorem SameTables.refl (s : TcpClient ι) : SameTables s s := ⟨rfl, rfl, rfl, rfl, rfl, rfl, rfl⟩

theorem SameTables.cachedConns {s s' : TcpClient ι} (h : SameTables s s') :
    s'.cachedConns = s.cachedConns := by
  rw [TcpClient.cachedConns, h.server_conns_]
  rfl

variable [DecidableEq ι] {s s' : TcpClient ι}

/-- **The steps, by what they do to the cache.** -/
inductive TableCases (s : TcpClient ι) : ClientStep ι → TcpClient ι → Prop
  | same {l : ClientStep ι} {s' : TcpClient ι} (h : SameTables s s') (hl : ∀ i, l ≠ .store i) :
    TableCases s l s'
  | found {i : ι} {server_name : Bytes} {entry : CacheEntry} (hi : s.callers i = .outside)
    (hentry : s.server_conns_.lookup server_name = some entry) :
    TableCases s (.lookup i server_name) (s.returns i server_name (some entry.conn))
  | missed {i : ι} {server_name : Bytes} (hi : s.callers i = .outside)
    (hnone : s.server_conns_.lookup server_name = none) :
    TableCases s (.lookup i server_name) (s.connects i server_name)
  | connected {i : ι} {outcome : ConnectOutcome} {server_name : Bytes} {stores : ℕ}
    (hi : s.callers i = .connecting server_name stores) :
    TableCases s (.connect i outcome) { s with
      created := s.created + 1
      callers := Function.update s.callers i (.storing server_name s.created stores) }
  | refused {i : ι} {outcome : ConnectOutcome} {server_name : Bytes} {stores : ℕ}
    (hi : s.callers i = .connecting server_name stores) :
    TableCases s (.connect i outcome) (s.returns i server_name none)
  | store {i : ι} {server_name : Bytes} {conn stores : ℕ}
    (hi : s.callers i = .storing server_name conn stores) :
    TableCases s (.store i) ((s.cache server_name conn).returns i server_name (some conn))
  | endRound {r : Round} (hround : s.round = some r) : TableCases s .endRound (s.endRound r)

theorem Inv.step_tables (hinv : s.Inv) {l : ClientStep ι} (hs : s.step l = some s') :
    TableCases s l s' := by
  cases step_cases hs with
  | found hi hentry hcount => exact .found hi hentry
  | missed hi hmiss => exact .missed hi (hmiss (hinv.count_lt _))
  | connected hi hopens => exact .connected hi
  | refused hi hopens => exact .refused hi
  | store hi => exact .store hi
  | push message done hc => exact .same ⟨rfl, rfl, rfl, rfl, rfl, rfl, rfl⟩ nofun
  | enable he => exact .same ⟨rfl, rfl, rfl, rfl, rfl, rfl, rfl⟩ nofun
  | dropped hdis => exact .same (SameTables.refl s) nofun
  | take hidle hout hconn hrun =>
    refine .same ?_ nofun
    have heq := (registered_runWriteDones hrun).eq
    exact ⟨(congrArg TcpClient.server_conns_ heq :), (congrArg TcpClient.created heq :),
      (congrArg TcpClient.callers heq :), (congrArg TcpClient.history heq :),
      (congrArg TcpClient.stored heq :), (congrArg TcpClient.replaced heq :),
      (congrArg TcpClient.results heq :)⟩
  | close hreg hidle => exact .same ⟨rfl, rfl, rfl, rfl, rfl, rfl, rfl⟩ nofun
  | write hsend hclose he => exact .same ⟨rfl, rfl, rfl, rfl, rfl, rfl, rfl⟩ nofun
  | arrive message hc => exact .same ⟨rfl, rfl, rfl, rfl, rfl, rfl, rfl⟩ nofun
  | unheard hin hinbox hdone => exact .same ⟨rfl, rfl, rfl, rfl, rfl, rfl, rfl⟩ nofun
  | reply hin hinbox hdone hrun =>
    refine .same ?_ nofun
    rcases runReadDone_eq_some hrun with rfl | ⟨kv, conn, round, entry, -, -, rfl⟩ <;>
      exact ⟨rfl, rfl, rfl, rfl, rfl, rfl, rfl⟩
  | beginRound msg_id hround =>
    refine .same ?_ nofun
    obtain ⟨conns', heq, -, -⟩ := foldl_pushKeepalive msg_id s hinv.nodup_cachedConns
    rw [TcpClient.beginRound, heq]
    exact ⟨rfl, rfl, rfl, rfl, rfl, rfl, rfl⟩
  | endRound hround => exact .endRound hround

omit [DecidableEq ι] in
/-- The cache after a store. -/
theorem lookup_cache (s : TcpClient ι) (server_name : Bytes) (conn : ℕ) (name : Bytes) :
    ((s.cache server_name conn).server_conns_.lookup name).map CacheEntry.conn
      = if name = server_name then some conn
        else (s.server_conns_.lookup name).map CacheEntry.conn := by
  obtain ⟨kv, kvs', replaced', heq, -⟩ := s.cache_eq server_name conn
  rw [heq]
  dsimp only
  split
  case isTrue hname =>
    rw [hname, AList.lookup_insert]
    rfl
  case isFalse hname => rw [AList.lookup_insert_ne hname]

/-- What a connection that is closed keeps, and what no other step changes. -/
theorem Inv.step_disConnect (hinv : s.Inv) {l : ClientStep ι} (hs : s.step l = some s') (x : ℕ) :
    (s'.conns x).conn.disConnect = (s.conns x).conn.disConnect ∨ l = .io x .close := by
  have hset : ∀ (t : TcpClient ι) (c : ℕ) (e : Endpoint ClientDone), t.conns = s.conns →
      e.conn.disConnect = (s.conns c).conn.disConnect →
        ((t.setConn c e).conns x).conn.disConnect = (s.conns x).conn.disConnect := by
    intro t c e ht he
    by_cases hx : x = c
    · rw [hx, conns_setConn, he]
    · rw [conns_setConn_of_ne _ _ hx, ht]
  cases step_cases hs with
  | found hi hentry hcount => exact .inl rfl
  | missed hi hmiss => exact .inl rfl
  | connected hi hopens => exact .inl rfl
  | refused hi hopens => exact .inl rfl
  | @store i server_name conn stores hi =>
    obtain ⟨kv, kvs', replaced', heq, -⟩ := s.cache_eq server_name conn
    rw [heq]
    exact .inl rfl
  | push message done hc => exact .inl (hset s _ _ rfl rfl)
  | @enable c e he =>
    obtain ⟨-, rfl⟩ := Endpoint.enable_eq he
    exact .inl (hset s _ _ rfl rfl)
  | dropped hdis => exact .inl rfl
  | @take c s₁ hidle hout hconn hrun =>
    have htouched : ∀ y, (s₁.conns y).conn.disConnect = (s.conns y).conn.disConnect := by
      intro y
      obtain ⟨read, channel, heq⟩ := (registered_runWriteDones hrun).touched y
      rw [heq]
    refine .inl ?_
    by_cases hx : x = c
    · rw [hx, conns_setConn]
      exact htouched c
    · rw [conns_setConn_of_ne _ _ hx]
      exact htouched x
  | @close c hreg hidle =>
    by_cases hx : x = c
    · exact .inr (by rw [hx])
    · exact .inl (by rw [conns_setConn_of_ne _ _ hx])
  | @write c step e hsend hclose he =>
    obtain ⟨b, channel, phase, socket, rfl, -⟩ := Endpoint.io_eq hsend hclose he
    exact .inl (hset s _ _ rfl rfl)
  | arrive message hc => exact .inl rfl
  | unheard hin hinbox hdone => exact .inl rfl
  | @reply c message rest done s' hin hinbox hdone hrun =>
    refine .inl ?_
    have hpop := hset { s with inbox := Function.update s.inbox c rest } c { s.conns c with
      conn := (s.conns c).conn.popReadMessage message.msg_id_ } rfl rfl
    rcases runReadDone_eq_some hrun with rfl | ⟨kv, conn, round, entry, -, -, rfl⟩ <;> exact hpop
  | beginRound msg_id hround =>
    obtain ⟨conns', heq, hin, hout⟩ := foldl_pushKeepalive msg_id s hinv.nodup_cachedConns
    refine .inl ?_
    rw [TcpClient.beginRound, heq]
    show (conns' x).conn.disConnect = _
    by_cases hx : x ∈ s.cachedConns
    · obtain ⟨entry, hentry, rfl⟩ := List.mem_map.mp hx
      rw [hin entry hentry]
    · rw [hout x hx]
  | @endRound r hround =>
    obtain ⟨read, heq, -⟩ := (counted_endRound s r).dropped x
    refine .inl ?_
    show ((s.server_conns_.entries.foldl (countKeepalive r.msg_id) s).conns x).conn.disConnect = _
    rw [heq]

end TcpClient

end PbRpc
