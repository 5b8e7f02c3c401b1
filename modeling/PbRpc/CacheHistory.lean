import Mathlib.Data.List.Basic
import Mathlib.Order.Lattice.Nat

/-!
# How long a connection is cached

`getConnection` stores a connection in `server_conns_` in the place of the one
that is there, and the keepalive timer erases it when nothing is heard of the
service any more. Nothing else changes the cache. A connection is stored by
the `getConnection` that has made it, and so it is stored once; from then on
it is cached up to the next step that touches its service, and not again
(`CacheHistory.server_conns_eq`). The time of a connection in the cache goes
from `cachedAt` to `replacedAt`.

Two things follow about times. Who finds a connection in the cache finds one
that is replaced later than any of those that were there before
(`cachedAt_lt_replacedAt`). And when there are two connections of one service,
the first is replaced before the second is cached (`replacedAt_le_cachedAt`).
-/

namespace PbRpc

/-- **What is done to `server_conns_`.** -/
inductive CacheStep (S C : Type) where
  /-- `getConnection` stores what it has connected. -/
  | stored (server_name : S) (conn : C)
  /-- A round of keepalive erases an entry. -/
  | erased (server_name : S)

namespace CacheStep

variable {S C : Type} [DecidableEq S]

def server_name : CacheStep S C → S
  | stored server_name _ | erased server_name => server_name

def conn : CacheStep S C → Option C
  | stored _ conn => some conn
  | erased _ => none

def run (server_conns_ : S → Option C) (step : CacheStep S C) : S → Option C :=
  Function.update server_conns_ step.server_name step.conn

end CacheStep

/-- **A history of the cache.** No connection is stored twice. -/
structure CacheHistory (S C : Type) where
  steps : List (CacheStep S C)
  once : steps.Pairwise fun step step' => step.conn = none ∨ step.conn ≠ step'.conn

namespace CacheHistory

variable {S C : Type} [DecidableEq S] (h : CacheHistory S C) {m n i : ℕ} {server_name : S}
  {conn peer : C}

/-- **The cache after some of the steps.** -/
def server_conns_ (n : ℕ) : S → Option C := (h.steps.take n).foldl CacheStep.run fun _ => none

/-- The connection is in the cache after so many steps. -/
def Cached (conn : C) (n : ℕ) : Prop :=
  n ≤ h.steps.length ∧ ∃ server_name, h.server_conns_ n server_name = some conn

/-- **A connection that was cached when another one was found**, or before. -/
def FoundAfter (conn peer : C) : Prop := ∃ m n, m ≤ n ∧ h.Cached conn m ∧ h.Cached peer n

/-- **A connection that is found where another one was found before.** -/
def Replaces (peer conn : C) : Prop :=
  ∃ server_name m n, m ≤ n ∧ n ≤ h.steps.length ∧ h.server_conns_ m server_name = some conn ∧
    h.server_conns_ n server_name = some peer

/-- **When a connection is put into the cache.** -/
noncomputable def cachedAt (conn : C) : ℕ := sInf {n | h.Cached conn n}

/-- **When it is replaced.** One that is still there is replaced behind the
last step. -/
noncomputable def replacedAt (conn : C) : ℕ := sSup {n | h.Cached conn n} + 1

/-! ## The steps of a connection -/

variable {h}

omit [DecidableEq S] in
theorem stored_once {j : ℕ} {server_name' : S}
    (hi : h.steps[i]? = some (.stored server_name conn))
    (hj : h.steps[j]? = some (.stored server_name' conn)) : i = j := by
  obtain ⟨hilt, hi⟩ := List.getElem?_eq_some_iff.mp hi
  obtain ⟨hjlt, hj⟩ := List.getElem?_eq_some_iff.mp hj
  have honce := List.pairwise_iff_getElem.mp h.once
  rcases Nat.lt_trichotomy i j with hlt | heq | hgt
  · have hne := honce i j hilt hjlt hlt
    rw [hi, hj] at hne
    simp [CacheStep.conn] at hne
  · exact heq
  · have hne := honce j i hjlt hilt hgt
    rw [hi, hj] at hne
    simp [CacheStep.conn] at hne

/-- **What is cached was stored**, and its service has not been touched
since. -/
theorem server_conns_eq (hcached : h.server_conns_ n server_name = some conn) :
    ∃ i < n, h.steps[i]? = some (.stored server_name conn) ∧
      ∀ j step, i < j → j < n → h.steps[j]? = some step → step.server_name ≠ server_name := by
  induction n with
  | zero => simp [server_conns_] at hcached
  | succ n ih =>
    rw [server_conns_, List.take_add_one, List.foldl_append] at hcached
    have holder : h.server_conns_ n server_name = some conn →
        (∀ step, h.steps[n]? = some step → step.server_name ≠ server_name) →
        ∃ i < n + 1, h.steps[i]? = some (.stored server_name conn) ∧
          ∀ j step, i < j → j < n + 1 → h.steps[j]? = some step →
            step.server_name ≠ server_name := by
      intro hold hlast
      obtain ⟨i, hlt, hi, hbetween⟩ := ih hold
      refine ⟨i, Nat.lt_succ_of_lt hlt, hi, fun j step hij hj hstep => ?_⟩
      rcases Nat.lt_succ_iff_lt_or_eq.mp hj with hj | rfl
      · exact hbetween j step hij hj hstep
      · exact hlast step hstep
    cases hstep : h.steps[n]? with
    | none =>
      rw [hstep] at hcached
      exact holder hcached fun step heq => by rw [hstep] at heq; cases heq
    | some step =>
      rw [hstep] at hcached
      have hcached : Function.update (h.server_conns_ n) step.server_name step.conn server_name =
        some conn := hcached
      by_cases hname : server_name = step.server_name
      · subst hname
        rw [Function.update_self] at hcached
        refine ⟨n, Nat.lt_succ_self n, ?_, fun j _ hnj hj => absurd hj (by omega)⟩
        rw [hstep]
        cases step with
        | stored server_name conn' => exact congrArg _ (congrArg _ (Option.some.inj hcached))
        | erased server_name => cases hcached
      · rw [Function.update_of_ne hname] at hcached
        refine holder hcached fun step' heq => ?_
        rw [hstep] at heq
        obtain rfl := Option.some.inj heq
        exact fun heq => hname heq.symm

/-! ## The times -/

theorem bddAbove_cached (h : CacheHistory S C) (conn : C) : BddAbove {n | h.Cached conn n} :=
  ⟨h.steps.length, fun _ hn => hn.1⟩

theorem Cached.cachedAt_le (hconn : h.Cached conn n) : h.cachedAt conn ≤ n := Nat.sInf_le hconn

theorem Cached.lt_replacedAt (hconn : h.Cached conn n) : n < h.replacedAt conn :=
  Nat.lt_succ_of_le (le_csSup (h.bddAbove_cached conn) hconn)

theorem replacedAt_le (h : CacheHistory S C) (conn : C) :
    h.replacedAt conn ≤ h.steps.length + 1 :=
  Nat.succ_le_succ (csSup_le' fun _ hn => hn.1)

/-- **What is found is replaced later** than what was there before was
cached. -/
theorem cachedAt_lt_replacedAt (hfound : h.FoundAfter conn peer) :
    h.cachedAt conn < h.replacedAt peer := by
  obtain ⟨m, n, hmn, hconn, hpeer⟩ := hfound
  exact lt_of_le_of_lt (hconn.cachedAt_le.trans hmn) hpeer.lt_replacedAt

/-- **Two connections of one service** are not cached at the same time. -/
theorem lt_of_replaces (hreplaces : h.Replaces peer conn) (hne : peer ≠ conn)
    (hconn : h.Cached conn m) (hpeer : h.Cached peer n) : m < n := by
  obtain ⟨server_name, a, b, hab, hb, hconn', hpeer'⟩ := hreplaces
  obtain ⟨_, server_conn, hconn⟩ := hconn
  obtain ⟨_, server_peer, hpeer⟩ := hpeer
  obtain ⟨i, hia, hi, hbetween⟩ := server_conns_eq hconn'
  obtain ⟨j, hjb, hj, hbetween'⟩ := server_conns_eq hpeer'
  obtain ⟨i', hi'm, hi', hbetweenm⟩ := server_conns_eq hconn
  obtain ⟨j', hj'n, hj', -⟩ := server_conns_eq hpeer
  obtain rfl := stored_once hi hi'
  obtain rfl := stored_once hj hj'
  obtain rfl : server_name = server_conn := by
    rw [hi] at hi'
    cases hi'
    rfl
  -- the second store is behind the first, and ends its time
  rcases Nat.lt_trichotomy i j with hij | rfl | hji
  · refine lt_of_le_of_lt (not_lt.mp fun hjm => ?_) hj'n
    exact hbetweenm j _ hij hjm hj rfl
  · rw [hi] at hj
    cases hj
    exact absurd rfl hne
  · exact absurd rfl (hbetween' i _ hji (lt_of_lt_of_le hia hab) hi)

/-- **The first is replaced before the second is cached.** -/
theorem replacedAt_le_cachedAt (hreplaces : h.Replaces peer conn) (hne : peer ≠ conn) :
    h.replacedAt conn ≤ h.cachedAt peer := by
  have hlt := @lt_of_replaces S C _ h
  obtain ⟨server_name, a, b, hab, hb, hconn, hpeer⟩ := hreplaces
  have hconnSet : {n | h.Cached conn n}.Nonempty := ⟨a, hab.trans hb, server_name, hconn⟩
  have hpeerSet : {n | h.Cached peer n}.Nonempty := ⟨b, hb, server_name, hpeer⟩
  exact hlt ⟨server_name, a, b, hab, hb, hconn, hpeer⟩ hne
    (Nat.sSup_mem hconnSet (h.bddAbove_cached conn)) (Nat.sInf_mem hpeerSet)

end CacheHistory

end PbRpc
