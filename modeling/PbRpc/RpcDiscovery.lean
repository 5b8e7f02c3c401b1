import PbRpc.Fifo
import PbRpc.KeyedLog
import PbRpc.RpcServerList
import PbRpc.Transition

/-!
# Discovery

The constructor of `RpcDiscovery` lists the base directory, passes what is
listed to the callback for a `PUT`, and then creates the watcher, which
delivers the changes that happen after its creation. Servers publish and
remove their keys at any time.

A change between the listing and the creation of the watcher is in neither.
If another change of the same key follows, that one is delivered and all is
well again; otherwise the callbacks have the old state of the key and keep
it (`synced_iff`). `Covered` is the condition, key by key.
-/

namespace PbRpc

open KeyedLog Transition

/-- **The keys of etcd** and their values. -/
abbrev Etcd : Type := AList (fun _ : Bytes => Bytes)

/-- The key is in the directory. -/
def InDir (dir key : Bytes) : Prop := dir.isPrefixOf key = true

instance (dir key : Bytes) : Decidable (InDir dir key) :=
  inferInstanceAs (Decidable (_ = true))

theorem Etcd.nodupKeys_filter (store : Etcd) (dir : Bytes) :
    (store.entries.filter (fun e => InDir dir e.1)).NodupKeys :=
  store.nodupKeys.sublist List.filter_sublist

/-- `Client::ls`: what is in a directory. -/
def Etcd.ls (store : Etcd) (dir : Bytes) : Etcd :=
  ⟨store.entries.filter (fun e => InDir dir e.1), store.nodupKeys_filter dir⟩

theorem Etcd.inDir_of_mem_ls {store : Etcd} {dir key : Bytes} (h : key ∈ store.ls dir) :
    InDir dir key := by
  obtain ⟨e, he, rfl⟩ := List.mem_map.mp (AList.mem_keys.mp h)
  exact of_decide_eq_true (List.mem_filter.mp he).2

/-- The event that tells of an update. -/
def Event.ofUpdate : Update Bytes Bytes → Event
  | .put key value => ⟨.PUT, key, value⟩
  | .delete key => ⟨.DELETE_, key, []⟩

namespace NotifyCall

def key : NotifyCall → Bytes
  | put_cb key _ => key
  | del_cb key _ => key

/-- What the call tells. -/
def told : NotifyCall → Update Bytes Bytes
  | put_cb key value => .put key value
  | del_cb key _ => .delete key

theorem key_told (c : NotifyCall) : c.told.key = c.key := by
  cases c <;> rfl

theorem told_eq_put_iff {c : NotifyCall} {key value : Bytes} :
    c.told = .put key value ↔ c = put_cb key value := by
  cases c <;> simp [told]

theorem told_eq_delete_iff {c : NotifyCall} {key : Bytes} :
    c.told = .delete key ↔ ∃ value, c = del_cb key value := by
  cases c <;> simp [told]

end NotifyCall

/-- Where the constructor is. -/
inductive DiscoveryPhase where
  /-- The directory is not listed yet. -/
  | listing
  /-- `i` keys of the listing have been passed on. -/
  | applying (i : ℕ)
  /-- The watcher is created. -/
  | watching
deriving DecidableEq, Repr

/-- **A discovery**, with the store it reads and the calls it has made. -/
structure RpcDiscovery where
  store : Etcd := ∅
  phase : DiscoveryPhase := .listing
  /-- The keys and values of the response to `ls`. -/
  response : Etcd := ∅
  /-- The store when the watcher was created. -/
  created : Etcd := ∅
  /-- What has happened since then. What is consumed has been delivered. -/
  watcher : Fifo (Update Bytes Bytes) := Fifo.empty
  /-- The calls of the callbacks. -/
  calls : List NotifyCall := []

/-- **The atomic steps.** -/
inductive DiscoveryStep where
  /-- A server writes a key. -/
  | put (key value : Bytes)
  /-- A key is deleted, or its lease expires. -/
  | delete (key : Bytes)
  /-- The response to `ls`. -/
  | ls (is_ok : Bool)
  /-- The body of the loop over the response. -/
  | apply
  /-- The watcher is created. -/
  | watch
  /-- The watcher calls `callBack`, with at most `n` events. -/
  | deliver (is_ok : Bool) (n : ℕ)
deriving DecidableEq, Repr

namespace RpcDiscovery

/-- The watcher sees an update, once it is there. -/
def observe (dir : Bytes) (s : RpcDiscovery) (u : Update Bytes Bytes) : RpcDiscovery :=
  if s.phase = .watching ∧ InDir dir u.key then { s with watcher := s.watcher.append [u] } else s

/-- **One step.** A response that reports an error has no keys, and no
events. -/
def step (dir : Bytes) (s : RpcDiscovery) : DiscoveryStep → Option RpcDiscovery
  | .put key value =>
    some ({ s with store := s.store.insert key value }.observe dir (.put key value))
  | .delete key =>
    if key ∈ s.store then some ({ s with store := s.store.erase key }.observe dir (.delete key))
    else none
  | .ls is_ok =>
    if s.phase = .listing then
      some { s with phase := .applying 0, response := if is_ok then s.store.ls dir else ∅ }
    else none
  | .apply =>
    match s.phase with
    | .applying i =>
      match s.response.entries[i]? with
      | some e => some { s with phase := .applying (i + 1), calls := s.calls ++ [.put_cb e.1 e.2] }
      | none => none
    | _ => none
  | .watch =>
    match s.phase with
    | .applying i =>
      if s.response.entries.length ≤ i then some { s with phase := .watching, created := s.store }
      else none
    | _ => none
  | .deliver is_ok n =>
    if s.phase = .watching then
      let events := if is_ok then s.watcher.contents.take n else []
      some { s with
        watcher := s.watcher.consume events.length
        calls := s.calls ++ callBack ⟨is_ok, events.map Event.ofUpdate⟩ }
    else none

/-- **What the callbacks owe.** The last call about a key that is there
passed its value, and the last about a key that was listed and is gone said
so. -/
structure Synced (dir : Bytes) (s : RpcDiscovery) : Prop where
  alive : ∀ key value, InDir dir key → s.store.lookup key = some value →
    last NotifyCall.key key s.calls = some (.put_cb key value)
  gone : ∀ key ∈ s.response, s.store.lookup key = none →
    ∃ value, last NotifyCall.key key s.calls = some (.del_cb key value)

/-- **No change is missed for good**: a key that differed from the listing
when the watcher was created has changed again since. -/
def Covered (dir : Bytes) (s : RpcDiscovery) : Prop :=
  ∀ key, InDir dir key →
    s.response.lookup key = s.created.lookup key ∨ ∃ u ∈ s.watcher.appended, u.key = key

/-- How many keys of the listing have been passed on. -/
def applied (s : RpcDiscovery) : ℕ :=
  match s.phase with
  | .listing => 0
  | .applying i => i
  | .watching => s.response.entries.length

/-! ## What a run keeps -/

/-- **What the calls so far have told**: the listing, and the updates that
were delivered. The store is the one the watcher was created on, after the
updates since. -/
structure Inv (dir : Bytes) (s : RpcDiscovery) : Prop where
  told : s.calls.map NotifyCall.told = (puts s.response).take s.applied ++ s.watcher.taken
  inDir : ∀ key ∈ s.response, InDir dir key
  store : s.phase = .watching → ∀ key, InDir dir key →
    s.store.lookup key = after s.created.lookup s.watcher.appended key
  unwatched : s.phase ≠ .watching → s.watcher = Fifo.empty

variable {dir : Bytes} {s s' : RpcDiscovery}

/-- The calls for delivered updates tell of them. -/
theorem told_callBack (us : List (Update Bytes Bytes)) :
    (callBack ⟨true, us.map Event.ofUpdate⟩).map NotifyCall.told = us := by
  show ((us.map Event.ofUpdate).flatMap Event.calls).map NotifyCall.told = us
  induction us with
  | nil => rfl
  | cons u us ih =>
    rw [List.map_cons, List.flatMap_cons, List.map_append, ih]
    cases u <;> rfl

/-- An update of the store, observed where there is a watcher. -/
theorem Inv.observe (h : s.Inv dir) {store : Etcd} {u : Update Bytes Bytes}
    (hstore : ∀ key, store.lookup key = if key = u.key then u.value else s.store.lookup key) :
    (({ s with store := store } : RpcDiscovery).observe dir u).Inv dir := by
  rw [RpcDiscovery.observe]
  split
  case isTrue hu =>
    obtain ⟨hwatching, hin⟩ := hu
    refine ⟨?_, h.inDir, fun _ key hkey => ?_, fun hne => absurd hwatching hne⟩
    · rw [Fifo.taken_append]
      exact h.told
    · rw [Fifo.appended_append, after_append_singleton, hstore key, Function.update_apply,
        h.store hwatching key hkey]
  case isFalse hu =>
    refine ⟨h.told, h.inDir, fun hwatching key hkey => ?_, h.unwatched⟩
    have hk : key ≠ u.key := by
      rintro rfl
      exact hu ⟨hwatching, hkey⟩
    rw [hstore key, if_neg hk]
    exact h.store hwatching key hkey

theorem Inv.step (h : s.Inv dir) {l : DiscoveryStep} (hs : s.step dir l = some s') :
    s'.Inv dir := by
  cases l with
  | put key value =>
    obtain rfl := Option.some.inj hs
    refine h.observe fun k => ?_
    split
    case isTrue hk => rw [hk, Update.key, AList.lookup_insert, Update.value]
    case isFalse hk => exact AList.lookup_insert_ne hk
  | delete key =>
    rw [RpcDiscovery.step] at hs
    split at hs
    case isFalse => cases hs
    case isTrue =>
      obtain rfl := Option.some.inj hs
      refine h.observe fun k => ?_
      split
      case isTrue hk => rw [hk, Update.key, AList.lookup_erase, Update.value]
      case isFalse hk => exact AList.lookup_erase_ne hk
  | ls is_ok =>
    rw [RpcDiscovery.step] at hs
    split at hs
    case isFalse => cases hs
    case isTrue hlisting =>
      obtain rfl := Option.some.inj hs
      have hwatcher : s.watcher = Fifo.empty := h.unwatched (hlisting ▸ DiscoveryPhase.noConfusion)
      have htold := h.told
      rw [applied, hlisting] at htold
      refine ⟨htold, fun key hkey => ?_, DiscoveryPhase.noConfusion, fun _ => hwatcher⟩
      cases is_ok with
      | false => exact absurd hkey (AList.notMem_empty key)
      | true => exact Etcd.inDir_of_mem_ls hkey
  | apply =>
    rw [RpcDiscovery.step] at hs
    split at hs
    case h_2 => cases hs
    case h_1 i hphase =>
      split at hs
      case h_2 => cases hs
      case h_1 e he =>
        obtain rfl := Option.some.inj hs
        have hwatcher : s.watcher = Fifo.empty := h.unwatched (hphase ▸ DiscoveryPhase.noConfusion)
        have htold := h.told
        rw [applied, hphase, hwatcher, Fifo.taken_empty, List.append_nil] at htold
        refine ⟨?_, h.inDir, DiscoveryPhase.noConfusion, fun _ => hwatcher⟩
        show (s.calls ++ [_]).map _ = (puts s.response).take (i + 1) ++ s.watcher.taken
        have hnext : (puts s.response)[i]? = some (.put e.1 e.2) := by
          rw [puts, List.getElem?_map, he]
          rfl
        rw [List.map_append, htold, hwatcher, Fifo.taken_empty, List.append_nil,
          List.take_add_one, hnext]
        rfl
  | watch =>
    rw [RpcDiscovery.step] at hs
    split at hs
    case h_2 => cases hs
    case h_1 i hphase =>
      split at hs
      case isFalse => cases hs
      case isTrue hlength =>
        obtain rfl := Option.some.inj hs
        have hwatcher : s.watcher = Fifo.empty := h.unwatched (hphase ▸ DiscoveryPhase.noConfusion)
        have htold := h.told
        have hall : (puts s.response).length = s.response.entries.length := List.length_map _
        rw [applied, hphase, List.take_of_length_le (hall ▸ hlength)] at htold
        refine ⟨?_, h.inDir, fun _ key _ => ?_, fun hne => absurd rfl hne⟩
        · show s.calls.map _ = (puts s.response).take s.response.entries.length ++ s.watcher.taken
          rw [htold, ← hall, List.take_length]
        · show s.store.lookup key = after s.store.lookup s.watcher.appended key
          rw [hwatcher]
          rfl
  | deliver is_ok n =>
    rw [RpcDiscovery.step] at hs
    split at hs
    case isFalse => cases hs
    case isTrue hwatching =>
      obtain rfl := Option.some.inj hs
      have htold := h.told
      rw [applied, hwatching] at htold
      refine ⟨?_, h.inDir, fun _ => h.store hwatching, fun hne => absurd hwatching hne⟩
      rw [applied, hwatching]
      dsimp only
      rw [List.map_append, htold, Fifo.taken_consume, List.append_assoc]
      cases is_ok with
      | false =>
        show _ ++ (_ ++ []) = _ ++ (_ ++ [])
        rfl
      | true =>
        rw [if_pos rfl, told_callBack, List.length_take, ← List.take_eq_take_min]

theorem Inv.init (dir : Bytes) (store : Etcd) : Inv dir { store := store } where
  told := rfl
  inDir key hkey := absurd hkey (AList.notMem_empty key)
  store := nofun
  unwatched _ := rfl

/-! ## What the callbacks end up with -/

/-- The calls about a key, once everything has been delivered. -/
theorem Inv.knows_iff (h : s.Inv dir) (hwatching : s.phase = .watching)
    (hdelivered : s.watcher.contents = []) {key : Bytes} (hkey : InDir dir key) :
    Knows (s.calls.map NotifyCall.told) s.store.lookup s.response.lookup key
      ↔ s.response.lookup key = s.created.lookup key ∨ ∃ u ∈ s.watcher.appended, u.key = key := by
  have htaken : s.watcher.taken = s.watcher.appended := by
    rw [← s.watcher.taken_append_contents, hdelivered, List.append_nil]
  have htold : s.calls.map NotifyCall.told = puts s.response ++ s.watcher.appended := by
    have hlength : (puts s.response).length = s.response.entries.length := List.length_map _
    rw [h.told, applied, hwatching, htaken, ← hlength, List.take_length]
  have hstore := h.store hwatching key hkey
  refine Iff.trans ?_ (KeyedLog.knows_iff s.response s.created.lookup s.watcher.appended key)
  rw [htold]
  constructor
  · intro hknows
    exact ⟨fun v hv => hknows.alive v (hstore.trans hv),
      fun hne hnone => hknows.gone hne (hstore.trans hnone)⟩
  · intro hknows
    exact ⟨fun v hv => hknows.alive v (hstore.symm.trans hv),
      fun hne hnone => hknows.gone hne (hstore.symm.trans hnone)⟩

/-- What is owed of a key, as what is known of it. -/
theorem Inv.synced_iff_knows (h : s.Inv dir) :
    s.Synced dir ↔ ∀ key, InDir dir key →
      Knows (s.calls.map NotifyCall.told) s.store.lookup s.response.lookup key := by
  have hlast : ∀ key, last Update.key key (s.calls.map NotifyCall.told)
      = (last NotifyCall.key key s.calls).map NotifyCall.told :=
    fun key => last_map _ key _ _ NotifyCall.key_told s.calls
  constructor
  · intro hsynced key hkey
    constructor
    · intro value hvalue
      rw [hlast, hsynced.alive key value hkey hvalue]
      rfl
    · intro hlisted hnone
      obtain ⟨value, hvalue⟩ :=
        hsynced.gone key (AList.lookup_isSome.mp (Option.isSome_iff_ne_none.mpr hlisted)) hnone
      rw [hlast, hvalue]
      rfl
  · intro hknows
    constructor
    · intro key value hkey hvalue
      have htold := (hknows key hkey).alive value hvalue
      rw [hlast, Option.map_eq_some_iff] at htold
      obtain ⟨c, hc, htold⟩ := htold
      rw [hc, NotifyCall.told_eq_put_iff.mp htold]
    · intro key hkey hnone
      have htold := (hknows key (h.inDir key hkey)).gone
        (Option.isSome_iff_ne_none.mp (AList.lookup_isSome.mpr hkey)) hnone
      rw [hlast, Option.map_eq_some_iff] at htold
      obtain ⟨c, hc, htold⟩ := htold
      obtain ⟨value, rfl⟩ := NotifyCall.told_eq_delete_iff.mp htold
      exact ⟨value, hc⟩

/-- **The callbacks are right exactly when no change was missed for good**,
however the servers' updates fall around the two steps of the constructor. -/
theorem synced_iff {store : Etcd} (hruns : Runs (step dir) anyStep { store := store } s)
    (hwatching : s.phase = .watching) (hdelivered : s.watcher.contents = []) :
    s.Synced dir ↔ s.Covered dir := by
  have hinv : s.Inv dir :=
    hruns.invariant (fun _ _ _ h _ hs => Inv.step h hs) (Inv.init dir store)
  rw [hinv.synced_iff_knows, Covered]
  exact forall₂_congr fun key hkey => hinv.knows_iff hwatching hdelivered hkey

/-- A server is listed, and updated once the watcher is there. -/
theorem synced_iff_updated :
    ∃ s : RpcDiscovery, s.calls = [.put_cb [47, 97] [1], .put_cb [47, 97] [2]] ∧
      (s.Synced [47] ↔ s.Covered [47]) := by
  obtain ⟨s, hruns, h⟩ : ∃ s : RpcDiscovery, Runs (step [47]) anyStep { store := ∅ } s ∧
      decide (s.phase = .watching ∧ s.watcher.contents = [] ∧
        s.calls = [.put_cb [47, 97] [1], .put_cb [47, 97] [2]]) = true :=
    exists_of_execute
      [.put [47, 97] [1], .ls true, .apply, .watch, .put [47, 97] [2], .deliver true 1] (by decide)
  obtain ⟨hwatching, hdelivered, hcalls⟩ := of_decide_eq_true h
  exact ⟨s, hcalls, synced_iff hruns hwatching hdelivered⟩

/-- **A server that is published between the two steps is never heard of.** -/
theorem not_synced :
    ¬ ∀ (dir : Bytes) (store : Etcd) (s : RpcDiscovery),
      Runs (step dir) anyStep { store := store } s → s.phase = .watching →
        s.watcher.contents = [] → s.Synced dir := by
  intro hall
  obtain ⟨s, hruns, h⟩ : ∃ s : RpcDiscovery, Runs (step [47]) anyStep { store := ∅ } s ∧
      decide (s.phase = .watching ∧ s.watcher.contents = [] ∧ s.calls = [] ∧
        s.store.lookup [47, 97] = some [1]) = true :=
    exists_of_execute [.ls true, .put [47, 97] [1], .watch] (by decide)
  obtain ⟨hwatching, hdelivered, hcalls, hstore⟩ := of_decide_eq_true h
  have hlast := (hall [47] ∅ s hruns hwatching hdelivered).alive [47, 97] [1] (by decide) hstore
  rw [hcalls] at hlast
  cases hlast

end RpcDiscovery

end PbRpc
