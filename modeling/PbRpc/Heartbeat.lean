import PbRpc.ClientRequests
import PbRpc.Keepalive

/-!
# Heartbeats that are answered

A heartbeat is pushed on a connection like a request. The thread of the loop
takes it when the socket is writable, its write callback registers the reply
callback under the id of the round, and the answer sets the counter back.

The timer does not call `enableWriting` for the heartbeats that it pushes.
They are taken when a call enables writing, and where no call is made they
stay in the queue: three rounds later the connection is evicted, though
nothing is wrong with it (`not_neverEvicted`). When in at least one of any
three rounds in a row the heartbeat is written and the loop comes to the
answer before the wait ends, and no id is used twice, a connection that stays
up and is answered is never evicted (`neverEvicted`).

The answer is heard because a connection from which anything was taken is
registered for reading (`Listens`), and because in a round the heartbeat that
was taken has its reply callback registered, or the counter is set back
(`Beats`).
-/

namespace PbRpc

open TinyPBCoder Transition

namespace TcpClient

variable {ι : Type} {s s' : TcpClient ι}

/-! ## The heartbeat of a round -/

/-- The counter of the service that a connection is cached for was set
back. -/
def Reset (s : TcpClient ι) (c : ℕ) : Prop :=
  ∀ name entry, s.server_conns_.lookup name = some entry → entry.conn = c →
    s.keepalive_count_ name = -1

/-- The callback of a heartbeat that refers to the entry of a connection. -/
def Refers (s : TcpClient ι) (c : ℕ) (done : ClientDone) : Prop :=
  ∃ kv conn round, done = .keepalive kv conn round ∧
    ∀ name entry, s.server_conns_.lookup name = some entry → entry.conn = c → entry.kv = kv

/-- The heartbeat of a round that was queued on a connection, from its push
to the callback of its answer. -/
structure Beat (c : ℕ) (r : Round) (s : TcpClient ι) : Prop where
  queued : ∀ entry ∈ (s.conns c).pushed, entry.1.msg_id_ = r.msg_id → s.Refers c entry.2
  done : ∀ done, (s.conns c).conn.read_dones_.lookup r.msg_id = some done → s.Refers c done
  heard : ∀ entry ∈ (s.conns c).sent, entry.1.msg_id_ = r.msg_id →
    ((s.conns c).conn.read_dones_.lookup r.msg_id).isSome = true ∨ s.Reset c
  arrived : c ∈ r.arrived → (∃ entry ∈ (s.conns c).sent, entry.1.msg_id_ = r.msg_id) ∧
    ((∃ message ∈ s.inbox c, message.msg_id_ = r.msg_id) ∨ s.Reset c)

/-- **The heartbeats of a round, and that of a connection.** Nothing else is
pushed under the id of the round. -/
structure Beats (c : ℕ) (r : Round) (s : TcpClient ι) : Prop where
  stored : c ∈ r.queued → c ∈ s.stored.map Prod.snd
  pushed : ∀ x, ∀ entry ∈ (s.conns x).pushed, entry.1.msg_id_ = r.msg_id →
    x ∈ r.queued ∧ entry.2.isCall = false
  arrived : c ∈ r.arrived → c ∈ r.queued
  beat : c ∈ r.queued → Beat c r s

/-- A connection that is cached was so, and its counter is the same or was
set back. -/
def Steady (c : ℕ) (s s' : TcpClient ι) : Prop :=
  ∀ name entry, s'.server_conns_.lookup name = some entry → entry.conn = c →
    s.server_conns_.lookup name = some entry ∧
      (s'.keepalive_count_ name = s.keepalive_count_ name ∨ s'.keepalive_count_ name = -1)

theorem Reset.steady {c : ℕ} (h : s.Reset c) (hsteady : Steady c s s') : s'.Reset c := by
  intro name entry hentry hconn
  obtain ⟨hold, hcount⟩ := hsteady name entry hentry hconn
  exact hcount.elim (fun heq => heq.trans (h name entry hold hconn)) id

theorem Refers.steady {c : ℕ} {done : ClientDone} (h : s.Refers c done)
    (hsteady : Steady c s s') : s'.Refers c done := by
  obtain ⟨kv, conn, round, heq, hkv⟩ := h
  exact ⟨kv, conn, round, heq, fun name entry hentry hconn =>
    hkv name entry (hsteady name entry hentry hconn).1 hconn⟩

/-- Until the round ends, a connection that is stored stays where it is, or
is replaced. -/
theorem Inv.steady [DecidableEq ι] (hinv : s.Inv) {c : ℕ} (hc : c ∈ s.stored.map Prod.snd)
    {l : ClientStep ι} (hend : l ≠ .endRound) (hs : s.step l = some s') : Steady c s s' := by
  intro name entry hentry hconn
  cases hinv.step_counts hs with
  | same h =>
    rw [h.server_conns_] at hentry
    exact ⟨hentry, .inl (congrFun h.keepalive_count_ name)⟩
  | @store i server_name conn stores hi =>
    have hne : conn ≠ c := by
      rintro rfl
      exact (hinv.storing i server_name conn stores hi).2 hc
    obtain ⟨kv, kvs', replaced', heq, -⟩ := s.cache_eq server_name conn
    rw [heq] at hentry ⊢
    rcases lookup_insert_eq_some hentry with ⟨-, rfl⟩ | ⟨hname, hold⟩
    · exact absurd hconn hne
    · exact ⟨hold, .inl (Function.update_of_ne hname ..)⟩
  | @heard x kv conn round message rest entry' inbox conns hinbox hdone hentry' =>
    refine ⟨hentry, ?_⟩
    show Function.update s.keepalive_count_ entry'.1 (-1) name = _ ∨ _
    by_cases hname : name = entry'.1
    · rw [hname]
      exact .inr (Function.update_self ..)
    · exact .inl (Function.update_of_ne hname ..)
  | beginRound msg_id hround => exact ⟨hentry, .inl rfl⟩
  | endRound hround => exact absurd rfl hend

theorem Inv.stored_subset [DecidableEq ι] (hinv : s.Inv) {l : ClientStep ι}
    (hs : s.step l = some s') {x : ℕ} (hx : x ∈ s.stored.map Prod.snd) :
    x ∈ s'.stored.map Prod.snd := by
  cases hinv.step_counts hs with
  | same h => rwa [h.stored]
  | @store i server_name conn stores hi =>
    obtain ⟨kv, kvs', replaced', heq, -⟩ := s.cache_eq server_name conn
    rw [heq]
    show x ∈ (s.stored ++ [(server_name, conn)]).map Prod.snd
    rw [List.map_append]
    exact List.mem_append_left _ hx
  | heard => exact hx
  | beginRound => exact hx
  | @endRound r hround =>
    have hstored : (s.endRound r).stored = s.stored :=
      (congrArg TcpClient.stored (counted_endRound s r).eq :)
    rwa [hstored]

/-- A reference finds its entry. -/
theorem Inv.entryAt_eq (hinv : s.Inv) {name : Bytes} {entry : CacheEntry}
    (hentry : s.server_conns_.lookup name = some entry) :
    s.entryAt entry.kv = some ⟨name, entry⟩ := by
  cases hfind : s.entryAt entry.kv with
  | none =>
    have hnone := List.find?_eq_none.mp hfind ⟨name, entry⟩ (AList.mem_lookup_iff.mp hentry)
    exact (hnone (decide_eq_true rfl)).elim
  | some entry' =>
    obtain ⟨hentry', hkv⟩ := entryAt_eq_some hfind
    obtain ⟨name', entry'⟩ := entry'
    obtain rfl : name' = name := hinv.kv_inj _ _ _ _ hentry' hentry hkv
    obtain rfl : entry' = entry := Option.some.inj (hentry'.symm.trans hentry)
    rfl

/-- **A step in which no request of the connection is taken, and the callback
of its heartbeat does not run.** -/
theorem Beat.frame {c : ℕ} {r r' : Round} (h : Beat c r s) (hsteady : Steady c s s')
    (hid : r'.msg_id = r.msg_id)
    (hpushed : ∀ entry ∈ (s'.conns c).pushed, entry.1.msg_id_ = r.msg_id →
      entry ∈ (s.conns c).pushed)
    (hsent : (s'.conns c).sent = (s.conns c).sent)
    (hread : (s'.conns c).conn.read_dones_.lookup r.msg_id
      = (s.conns c).conn.read_dones_.lookup r.msg_id)
    (harrived : c ∈ r'.arrived → (∃ entry ∈ (s.conns c).sent, entry.1.msg_id_ = r.msg_id) ∧
      ((∃ message ∈ s'.inbox c, message.msg_id_ = r.msg_id) ∨ s.Reset c)) : Beat c r' s' where
  queued entry hentry heq := by
    rw [hid] at heq
    exact (h.queued entry (hpushed entry hentry heq) heq).steady hsteady
  done done hdone := by
    rw [hid, hread] at hdone
    exact (h.done done hdone).steady hsteady
  heard entry hentry heq := by
    rw [hid, hread]
    rw [hsent] at hentry
    rw [hid] at heq
    exact (h.heard entry hentry heq).imp id fun hreset => hreset.steady hsteady
  arrived hc := by
    rw [hid, hsent]
    exact (harrived hc).imp id fun hinbox => hinbox.imp id fun hreset => hreset.steady hsteady

/-- The callback that is registered for the heartbeat refers to the entry. -/
theorem Beats.refers_registeredBy {c x : ℕ} {r : Round} (h : Beats c r s) (hinv : s.Inv)
    (hledger : s.Ledger) {done : ClientDone}
    (hdone : s.registeredBy x c r.msg_id (s.conns x).conn.write_dones_ = some done) :
    s.Refers c done := by
  obtain ⟨entry, hentry, hid, rfl, hwith⟩ := mem_of_registeredBy hdone
  have hpushed : entry ∈ (s.conns x).pushed := by
    rw [hledger.pushed]
    exact List.mem_append_right _ hentry
  have hcall := (h.pushed x entry hpushed hid).2
  rw [registersWith] at hwith
  cases hkeepalive : entry.2 with
  | call done =>
    rw [hkeepalive] at hcall
    cases hcall
  | keepalive kv conn round =>
    rw [hkeepalive] at hwith
    obtain ⟨entry', hentry', hconn⟩ := Option.map_eq_some_iff.mp hwith
    obtain ⟨hlookup, hkv⟩ := entryAt_eq_some hentry'
    refine ⟨kv, conn, round, rfl, fun name e he hc => ?_⟩
    obtain rfl : name = entry'.1 := hinv.conn_inj he hlookup (hc.trans hconn.symm)
    rw [← hkv, Option.some.inj (he.symm.trans hlookup)]

/-- **When the heartbeat is taken its callback is registered**, if the
connection is cached still. -/
theorem Beat.registeredBy_isSome {c : ℕ} {r : Round} (h : Beat c r s) (hinv : s.Inv)
    (hledger : s.Ledger) {entry : TinyPBProtocol × ClientDone}
    (hentry : entry ∈ (s.conns c).conn.write_dones_) (hid : entry.1.msg_id_ = r.msg_id) :
    (s.registeredBy c c r.msg_id (s.conns c).conn.write_dones_).isSome = true ∨ s.Reset c := by
  by_cases hcached : c ∈ s.cachedConns
  · obtain ⟨name, e, he, rfl⟩ := mem_cachedConns_iff.mp hcached
    have hpushed : entry ∈ (s.conns e.conn).pushed := by
      rw [hledger.pushed]
      exact List.mem_append_right _ hentry
    obtain ⟨kv, conn, round, hkeepalive, hkv⟩ := h.queued entry hpushed hid
    have hwith : s.registersWith e.conn entry = some e.conn := by
      rw [registersWith, hkeepalive, ← hkv name e he rfl]
      show (s.entryAt e.kv).map _ = _
      rw [hinv.entryAt_eq he]
      rfl
    refine .inl ?_
    rw [registeredBy, Option.isSome_map, List.find?_isSome]
    exact ⟨entry, hentry, decide_eq_true ⟨hid, hwith⟩⟩
  · exact .inr fun name e he hc => absurd (mem_cachedConns_iff.mpr ⟨name, e, he, hc⟩) hcached

/-- **The requests of a connection are taken.** -/
theorem Beat.take {c x : ℕ} {r : Round} (h : Beat c r s) (hbeats : Beats c r s) (hinv : s.Inv)
    (hledger : s.Ledger) (hsteady : Steady c s s') (hinbox : s'.inbox c = s.inbox c)
    (hhanded : Handed s x c (s'.conns c)) : Beat c r s' := by
  have hread := hhanded.registered r.msg_id
  -- what had a callback, has it still
  have hstill : ((s.conns c).conn.read_dones_.lookup r.msg_id).isSome = true ∨ s.Reset c →
      ((s'.conns c).conn.read_dones_.lookup r.msg_id).isSome = true ∨ s'.Reset c := by
    refine Or.imp (fun hsome => ?_) (fun hreset => hreset.steady hsteady)
    rw [hread, Option.isSome_or, hsome]
    rfl
  have hsent : ∀ entry ∈ (s'.conns c).sent, entry ∈ (s.conns c).sent ∨
      x = c ∧ entry ∈ (s.conns c).conn.write_dones_ := by
    intro entry hentry
    by_cases hx : c = x
    · rw [(hhanded.mine hx).1] at hentry
      exact (List.mem_append.mp hentry).imp id fun hmem => ⟨hx.symm, hmem⟩
    · rw [(hhanded.other hx).1] at hentry
      exact .inl hentry
  refine ⟨fun entry hentry heq => ?_, fun done hdone => ?_, fun entry hentry heq => ?_,
    fun hc => ?_⟩
  · rw [hhanded.pushed] at hentry
    exact (h.queued entry hentry heq).steady hsteady
  · rw [hread] at hdone
    rcases Option.or_eq_some_iff.mp hdone with hold | ⟨-, hnew⟩
    · exact (h.done done hold).steady hsteady
    · exact (hbeats.refers_registeredBy hinv hledger hnew).steady hsteady
  · rcases hsent entry hentry with hold | ⟨rfl, hnew⟩
    · exact hstill (h.heard entry hold heq)
    · refine (h.registeredBy_isSome hinv hledger hnew heq).imp (fun hsome => ?_)
        fun hreset => hreset.steady hsteady
      rw [hread, Option.isSome_or, hsome, Bool.or_true]
  · obtain ⟨⟨entry, hentry, heq⟩, hmessage⟩ := h.arrived hc
    refine ⟨⟨entry, ?_, heq⟩, ?_⟩
    · by_cases hx : c = x
      · rw [(hhanded.mine hx).1]
        exact List.mem_append_left _ hentry
      · rwa [(hhanded.other hx).1]
    · rw [hinbox]
      exact hmessage.imp id fun hreset => hreset.steady hsteady

/-- **The callback of the heartbeat runs**, and sets the counter back. -/
theorem Beat.reset_of_runReadDone {c : ℕ} {r : Round} (h : Beat c r s) (hinv : s.Inv)
    {done : ClientDone} (hdone : (s.conns c).conn.read_dones_.lookup r.msg_id = some done)
    {t : TcpClient ι} (htables : t.server_conns_ = s.server_conns_)
    (hrun : t.runReadDone done = some s') : s'.Reset c := by
  obtain ⟨kv, conn, round, rfl, hkv⟩ := h.done done hdone
  obtain ⟨entry, hentry, rfl⟩ := Option.map_eq_some_iff.mp hrun
  obtain ⟨hlookup, hkv'⟩ := entryAt_eq_some hentry
  rw [htables] at hlookup
  intro name e he hc
  have he : s.server_conns_.lookup name = some e := htables ▸ he
  obtain rfl : name = entry.1 :=
    hinv.kv_inj _ _ _ _ he hlookup ((hkv name e he hc).trans hkv'.symm)
  exact Function.update_self ..

/-- A reply that is handled, and the callback found under its id. -/
theorem Beat.reply {c x : ℕ} {r r' : Round} (h : Beat c r s) (hinv : s.Inv)
    (hsteady : Steady c s s') (hid : r'.msg_id = r.msg_id) (harrived : r'.arrived = r.arrived)
    {message : TinyPBProtocol} {rest : List TinyPBProtocol} {done : ClientDone}
    (hinbox : s.inbox x = message :: rest)
    (hdone : (s.conns x).conn.read_dones_.lookup message.msg_id_ = some done)
    (hrun : (({ s with inbox := Function.update s.inbox x rest } : TcpClient ι).setConn x
      { s.conns x with conn := (s.conns x).conn.popReadMessage message.msg_id_ }).runReadDone done
        = some s') : Beat c r' s' := by
  have hconns : s'.conns c = (s.setConn x { s.conns x with
      conn := (s.conns x).conn.popReadMessage message.msg_id_ }).conns c := by
    rcases runReadDone_eq_some hrun with rfl | ⟨kv, conn, round, entry, -, -, rfl⟩ <;> rfl
  have hinbox' : s'.inbox = Function.update s.inbox x rest := by
    rcases runReadDone_eq_some hrun with rfl | ⟨kv, conn, round, entry, -, -, rfl⟩ <;> rfl
  by_cases hx : c = x
  · obtain rfl := hx
    rw [conns_setConn] at hconns
    by_cases hmine : message.msg_id_ = r.msg_id
    · -- it is the answer
      have hreset : s'.Reset c := by
        refine h.reset_of_runReadDone hinv (hmine ▸ hdone) ?_ hrun
        rfl
      refine ⟨fun entry hentry heq => ?_, fun done hdone => ?_, fun _ _ _ => .inr hreset,
        fun hc => ?_⟩
      · rw [hconns] at hentry
        exact (h.queued entry hentry (hid ▸ heq)).steady hsteady
      · rw [hconns, hid, ← hmine] at hdone
        have hdone : ((s.conns c).conn.read_dones_.erase message.msg_id_).lookup message.msg_id_
          = some done := hdone
        rw [AList.lookup_erase] at hdone
        cases hdone
      · rw [harrived] at hc
        rw [hconns, hid]
        exact ⟨(h.arrived hc).1, .inr hreset⟩
    · refine h.frame hsteady hid (fun entry hentry _ => ?_) (by rw [hconns]) ?_ fun hc => ?_
      · rwa [hconns] at hentry
      · rw [hconns]
        exact AList.lookup_erase_ne (Ne.symm hmine)
      · rw [harrived] at hc
        refine (h.arrived hc).imp id fun hmessage => hmessage.imp ?_ id
        rintro ⟨m, hm, heq⟩
        rw [hinbox] at hm
        rcases List.mem_cons.mp hm with rfl | hm
        · exact absurd heq hmine
        · rw [hinbox', Function.update_self]
          exact ⟨m, hm, heq⟩
  · rw [conns_setConn_of_ne _ _ hx] at hconns
    refine h.frame hsteady hid (fun entry hentry _ => hconns ▸ hentry) (by rw [hconns])
      (by rw [hconns]) fun hc => ?_
    rw [hinbox', Function.update_of_ne hx]
    exact h.arrived (harrived ▸ hc)

/-- A reply that nobody waits for is dropped. -/
theorem Beat.unheard {c x : ℕ} {r : Round} (h : Beat c r s) {message : TinyPBProtocol}
    {rest : List TinyPBProtocol} (hinbox : s.inbox x = message :: rest)
    (hdone : (s.conns x).conn.read_dones_.lookup message.msg_id_ = none) :
    Beat c r { s with inbox := Function.update s.inbox x rest } := by
  have hsteady : Steady c s { s with inbox := Function.update s.inbox x rest } :=
    fun _ _ hentry _ => ⟨hentry, .inl rfl⟩
  refine h.frame hsteady rfl (fun _ hentry _ => hentry) rfl rfl fun hc => ?_
  obtain ⟨⟨entry, hentry, heq⟩, hmessage⟩ := h.arrived hc
  refine ⟨⟨entry, hentry, heq⟩, ?_⟩
  by_cases hx : c = x
  · obtain rfl := hx
    show (∃ m ∈ Function.update s.inbox c rest c, m.msg_id_ = r.msg_id) ∨ s.Reset c
    rw [Function.update_self]
    rcases hmessage with ⟨m, hm, hmine⟩ | hreset
    · rw [hinbox] at hm
      rcases List.mem_cons.mp hm with rfl | hm
      · refine .inr ((h.heard entry hentry heq).resolve_left fun hsome => ?_)
        rw [← hmine, hdone] at hsome
        cases hsome
      · exact .inl ⟨m, hm, hmine⟩
    · exact .inr hreset
  · show (∃ m ∈ Function.update s.inbox x rest c, m.msg_id_ = r.msg_id) ∨ s.Reset c
    rw [Function.update_of_ne hx]
    exact hmessage

/-- What was written to the socket was taken. -/
theorem mem_sent_of_writtenOn {c : ℕ} {msg_id : Bytes} (h : s.writtenOn msg_id c = true) :
    ∃ entry ∈ (s.conns c).sent, entry.1.msg_id_ = msg_id := by
  have hwithin : ∀ (n : ℕ) (entries : List (TinyPBProtocol × ClientDone)),
      ∀ entry ∈ framesWithin n entries, entry ∈ entries := by
    intro n entries
    induction entries generalizing n with
    | nil => exact fun _ => id
    | cons entry entries ih =>
      intro e he
      rw [framesWithin] at he
      split at he
      · rcases List.mem_cons.mp he with rfl | he
        · exact List.mem_cons_self
        · exact List.mem_cons_of_mem _ (ih _ e he)
      · cases he
  obtain ⟨entry, hentry, heq⟩ := List.any_eq_true.mp h
  exact ⟨entry, hwithin _ _ entry hentry, of_decide_eq_true heq⟩

/-- A message arrives. -/
theorem Beat.arrive {c x : ℕ} {r r' : Round} (h : Beat c r s) (message : TinyPBProtocol)
    (hid : r'.msg_id = r.msg_id)
    (harrived : c ∈ r'.arrived → c ∈ r.arrived ∨
      c = x ∧ message.msg_id_ = r.msg_id ∧ s.writtenOn r.msg_id c = true) :
    Beat c r' (s.arrive x message) := by
  have hsteady : Steady c s (s.arrive x message) := fun _ _ hentry _ => ⟨hentry, .inl rfl⟩
  refine h.frame hsteady hid (fun _ hentry _ => hentry) rfl rfl fun hc => ?_
  show _ ∧ ((∃ m ∈ Function.update s.inbox x (s.inbox x ++ [message]) c, m.msg_id_ = r.msg_id) ∨ _)
  rcases harrived hc with hc | ⟨rfl, hmine, hwritten⟩
  · refine (h.arrived hc).imp id fun hmessage => hmessage.imp ?_ id
    rintro ⟨m, hm, heq⟩
    refine ⟨m, ?_, heq⟩
    by_cases hx : c = x
    · rw [← hx, Function.update_self]
      exact List.mem_append_left _ hm
    · rwa [Function.update_of_ne hx]
  · rw [Function.update_self]
    exact ⟨mem_sent_of_writtenOn hwritten,
      .inl ⟨message, List.mem_append_right _ List.mem_cons_self, hmine⟩⟩

/-! ## Rounds -/

/-- No request and no heartbeat was pushed under an id. -/
def Unused (s : TcpClient ι) (msg_id : Bytes) : Prop :=
  ∀ p ∈ s.stored, ∀ entry ∈ (s.conns p.2).pushed, entry.1.msg_id_ ≠ msg_id

instance (s : TcpClient ι) (msg_id : Bytes) : Decidable (s.Unused msg_id) :=
  inferInstanceAs (Decidable (∀ p ∈ s.stored, _))

theorem Unused.not_used {msg_id : Bytes} (h : s.Unused msg_id) (hinv : s.Inv) :
    ¬ s.Used msg_id := by
  rintro ⟨x, entry, hentry, heq⟩
  have hx : x ∈ s.stored.map Prod.snd := hinv.mem_stored_of_ne fun hfresh => by
    rw [hfresh] at hentry
    cases hentry
  obtain ⟨p, hp, rfl⟩ := List.mem_map.mp hx
  exact h p hp entry hentry heq

/-- A connection that was cached at the end of a round had no heartbeat
written, or the answer not handled. -/
def unheard (c : ℕ) (r : Round) : Bool := r.unheard.contains c

/-- **The peer answers**: the connection stays up, and when a round ends
whose heartbeat was written to it, the answer has arrived. -/
def answersHeartbeats (c : ℕ) (s : TcpClient ι) : ClientStep ι → Prop
  | .io x .close => x ≠ c
  | .endRound => ∀ r ∈ s.round, s.writtenOn r.msg_id c = true → c ∈ r.arrived
  | _ => True

/-- The condition on the steps of a run: no id is used twice, and a round in
which a cached connection has no heartbeat written, or its loop does not come
to the answer, is not the third in a row. -/
def writesHeartbeats (c : ℕ) (s : TcpClient ι) : ClientStep ι → Prop
  | .push _ message _ => s.Unused message.msg_id_ ∧ ∀ r ∈ s.round, message.msg_id_ ≠ r.msg_id
  | .beginRound msg_id => s.Unused msg_id
  | .endRound => ∀ r ∈ s.round, c ∈ s.cachedConns →
      s.heardOn r.msg_id c = true ∨ inARow (unheard c) s.history < 2
  | _ => True

instance (c : ℕ) (s : TcpClient ι) (l : ClientStep ι) : Decidable (s.answersHeartbeats c l) :=
  match l with
  | .io x .close => inferInstanceAs (Decidable (x ≠ c))
  | .endRound => inferInstanceAs (Decidable (∀ r ∈ s.round, _))
  | .io _ .sendMessage | .io _ .encode | .io _ (.write _) | .io _ .disableWriting | .lookup _ _
  | .connect _ _ | .store _ | .push _ _ _ | .enable _ | .arrive _ _ | .parse _
  | .beginRound _ => .isTrue trivial

instance (c : ℕ) (s : TcpClient ι) (l : ClientStep ι) : Decidable (s.writesHeartbeats c l) :=
  match l with
  | .push _ message _ => inferInstanceAs (Decidable (s.Unused message.msg_id_ ∧ ∀ r ∈ s.round, _))
  | .beginRound msg_id => inferInstanceAs (Decidable (s.Unused msg_id))
  | .endRound => inferInstanceAs (Decidable (∀ r ∈ s.round, _))
  | .lookup _ _ | .connect _ _ | .store _ | .enable _ | .io _ _ | .arrive _ _
  | .parse _ => .isTrue trivial

theorem Beats.frame {c : ℕ} {r r' : Round} (h : Beats c r s) (hid : r'.msg_id = r.msg_id)
    (hqueued : r'.queued = r.queued)
    (hstored : ∀ x ∈ s.stored.map Prod.snd, x ∈ s'.stored.map Prod.snd)
    (hpushed : ∀ x, ∀ entry ∈ (s'.conns x).pushed, entry.1.msg_id_ = r.msg_id →
      entry ∈ (s.conns x).pushed)
    (harrived : c ∈ r'.arrived → c ∈ r.arrived ∨ c ∈ r.queued)
    (hbeat : c ∈ s.stored.map Prod.snd → Beat c r s → Beat c r' s') : Beats c r' s' where
  stored hc := hstored c (h.stored (hqueued ▸ hc))
  pushed x entry hentry heq := by
    rw [hid] at heq
    rw [hqueued]
    exact h.pushed x entry (hpushed x entry hentry heq) heq
  arrived hc := by
    rw [hqueued]
    exact (harrived hc).elim h.arrived id
  beat hc := hbeat (h.stored (hqueued ▸ hc)) (h.beat (hqueued ▸ hc))

/-- **A round begins** under an id that is new. -/
theorem Inv.beats_beginRound (hinv : s.Inv) (hledger : s.Ledger) (c : ℕ) {msg_id : Bytes}
    (hunused : s.Unused msg_id) :
    Beats c { msg_id := msg_id, queued := s.cachedConns } (s.beginRound msg_id) := by
  have hnew := hunused.not_used hinv
  have htables : (s.beginRound msg_id).server_conns_ = s.server_conns_ ∧
      (s.beginRound msg_id).stored = s.stored := by
    obtain ⟨conns', heq, -, -⟩ := foldl_pushKeepalive msg_id s hinv.nodup_cachedConns
    rw [TcpClient.beginRound, heq]
    exact ⟨rfl, rfl⟩
  have hpushed : ∀ x, ∀ entry ∈ ((s.beginRound msg_id).conns x).pushed,
      entry.1.msg_id_ = msg_id → ∃ name e, s.server_conns_.lookup name = some e ∧ e.conn = x ∧
        entry = s.heartbeat msg_id e := by
    intro x entry hentry heq
    rcases hinv.conns_beginRound msg_id x with ⟨name, e, he, hx, hconns⟩ | ⟨-, hconns⟩ <;>
      rw [hconns] at hentry
    · rcases List.mem_append.mp hentry with hold | hmem
      · exact absurd ⟨x, entry, hold, heq⟩ hnew
      · exact ⟨name, e, he, hx, List.mem_singleton.mp hmem⟩
    · exact absurd ⟨x, entry, hentry, heq⟩ hnew
  have hsame : ((s.beginRound msg_id).conns c).sent = (s.conns c).sent ∧
      ((s.beginRound msg_id).conns c).conn.read_dones_ = (s.conns c).conn.read_dones_ := by
    rcases hinv.conns_beginRound msg_id c with ⟨name, e, -, -, hconns⟩ | ⟨-, hconns⟩ <;>
      rw [hconns] <;> exact ⟨rfl, rfl⟩
  refine ⟨fun hc => ?_, fun x entry hentry heq => ?_, fun hc => (List.not_mem_nil hc).elim,
    fun _ => ⟨fun entry hentry heq => ?_, fun done hdone => ?_, fun entry hentry heq => ?_,
      fun hc => (List.not_mem_nil hc).elim⟩⟩
  · rw [htables.2]
    exact hinv.mem_stored hc
  · obtain ⟨name, e, he, rfl, rfl⟩ := hpushed x entry hentry heq
    exact ⟨mem_cachedConns_iff.mpr ⟨name, e, he, rfl⟩, rfl⟩
  · obtain ⟨name, e, he, rfl, rfl⟩ := hpushed c entry hentry heq
    refine ⟨e.kv, e.conn, s.history.length, rfl, fun name' e' he' hconn => ?_⟩
    rw [htables.1] at he'
    obtain rfl : name' = name := hinv.conn_inj he' he hconn
    rw [Option.some.inj (he'.symm.trans he)]
  · rw [hsame.2] at hdone
    have hmem : msg_id ∈ (s.conns c).conn.read_dones_ := AList.lookup_isSome.mp (by rw [hdone]; rfl)
    exact absurd (hledger.used c msg_id hmem) hnew
  · rw [hsame.1] at hentry
    refine absurd ⟨c, entry, ?_, heq⟩ hnew
    rw [hledger.pushed]
    exact List.mem_append_left _ hentry

/-- A step that pushes nothing, and takes nothing. -/
theorem Beats.quiet {c : ℕ} {r : Round} (h : Beats c r s)
    (hstored : ∀ x ∈ s.stored.map Prod.snd, x ∈ s'.stored.map Prod.snd)
    (hsteady : c ∈ s.stored.map Prod.snd → Steady c s s')
    (hquiet : ∀ x, Quiet (s.conns x) (s'.conns x)) (hinbox : s'.inbox = s.inbox) :
    Beats c r s' := by
  refine h.frame rfl rfl hstored (fun x entry hentry _ => ?_) .inl fun hc hbeat =>
    hbeat.frame (hsteady hc) rfl (fun entry hentry _ => ?_) (hquiet c).sent ?_ ?_
  · rwa [(hquiet x).pushed] at hentry
  · rwa [(hquiet c).pushed] at hentry
  · rw [(hquiet c).read_dones_]
  · rw [hinbox]
    exact hbeat.arrived

/-- A request is pushed under another id. -/
theorem Beats.push {c x : ℕ} {r : Round} (h : Beats c r s) (message : TinyPBProtocol) (done : ℕ)
    (hid : message.msg_id_ ≠ r.msg_id) :
    Beats c r (s.setConn x ((s.conns x).push message (.call done))) := by
  have hpushed : ∀ y, ∀ entry ∈
      ((s.setConn x ((s.conns x).push message (.call done))).conns y).pushed,
      entry.1.msg_id_ = r.msg_id → entry ∈ (s.conns y).pushed := by
    intro y entry hentry heq
    by_cases hy : y = x
    · rw [hy, conns_setConn] at hentry
      rw [hy]
      refine (List.mem_append.mp hentry).resolve_right fun hmem => hid ?_
      rw [← heq, List.mem_singleton.mp hmem]
    · rwa [conns_setConn_of_ne _ _ hy] at hentry
  have hsame := setConn_cases (s := s) (e := (s.conns x).push message (.call done))
    (P := fun e e' => e'.sent = e.sent ∧ e'.conn.read_dones_ = e.conn.read_dones_)
    (fun _ => ⟨rfl, rfl⟩) ⟨rfl, rfl⟩ c
  refine h.frame rfl rfl (fun _ => id) hpushed .inl fun _ hbeat =>
    hbeat.frame (fun _ _ hentry _ => ⟨hentry, .inl rfl⟩) rfl (hpushed c) hsame.1 ?_ hbeat.arrived
  rw [hsame.2]

/-- A message arrives. -/
theorem Beats.arrive {c x : ℕ} {r₀ : Round} (h : Beats c r₀ s) (hledger : s.Ledger)
    (message : TinyPBProtocol) (hr₀ : s.round = some r₀) :
    ∀ r, (s.arrive x message).round = some r → Beats c r (s.arrive x message) := by
  intro r hr
  obtain ⟨r₁, hr₁, heq⟩ := Option.map_eq_some_iff.mp hr
  obtain rfl : r₀ = r₁ := Option.some.inj (hr₀.symm.trans hr₁)
  -- who is noted to have been answered had a heartbeat written
  have harrived : c ∈ r.arrived → c ∈ r₀.arrived ∨
      c = x ∧ message.msg_id_ = r₀.msg_id ∧ s.writtenOn r₀.msg_id c = true := by
    intro hc
    rw [← heq] at hc
    split at hc
    case isTrue hcond =>
      rcases List.mem_cons.mp hc with rfl | hc
      · exact .inr ⟨rfl, hcond.1, hcond.2⟩
      · exact .inl hc
    case isFalse => exact .inl hc
  have hid : r.msg_id = r₀.msg_id ∧ r.queued = r₀.queued := by
    rw [← heq]
    split <;> exact ⟨rfl, rfl⟩
  refine h.frame hid.1 hid.2 (fun _ => id) (fun _ _ hentry _ => hentry)
    (fun hc => (harrived hc).imp id fun hnew => ?_)
    fun _ hbeat => hbeat.arrive message hid.1 harrived
  obtain ⟨entry, hentry, hmine⟩ := mem_sent_of_writtenOn hnew.2.2
  refine (h.pushed c entry ?_ hmine).1
  rw [hledger.pushed]
  exact List.mem_append_left _ hentry

/-- What a reply callback does to the round. -/
theorem round_of_runReadDone {t : TcpClient ι} {done : ClientDone}
    (hrun : t.runReadDone done = some s') {r : Round} (hr : s'.round = some r) :
    ∃ r₀, t.round = some r₀ ∧ r.msg_id = r₀.msg_id ∧ r.queued = r₀.queued ∧
      r.arrived = r₀.arrived := by
  rcases runReadDone_eq_some hrun with rfl | ⟨kv, conn, round, entry, -, -, rfl⟩
  · exact ⟨r, hr, rfl, rfl, rfl⟩
  · obtain ⟨r₀, hr₀, heq⟩ := Option.map_eq_some_iff.mp hr
    refine ⟨r₀, hr₀, ?_⟩
    rw [← heq]
    split <;> exact ⟨rfl, rfl, rfl⟩

theorem Beats.step [DecidableEq ι] {c : ℕ} (h : ∀ r, s.round = some r → Beats c r s)
    (hinv : s.Inv) (hledger : s.Ledger) {l : ClientStep ι} (hok : s.writesHeartbeats c l)
    (hs : s.step l = some s') : ∀ r, s'.round = some r → Beats c r s' := by
  have hsteady : l ≠ .endRound → c ∈ s.stored.map Prod.snd → Steady c s s' :=
    fun hend hc => hinv.steady hc hend hs
  have hstored : ∀ x ∈ s.stored.map Prod.snd, x ∈ s'.stored.map Prod.snd :=
    fun x hx => hinv.stored_subset hs hx
  intro r hr
  cases step_cases hs with
  | found | missed | connected | refused | dropped =>
    exact (h r hr).quiet hstored (hsteady nofun) (fun _ => Quiet.refl _) rfl
  | @store i server_name conn stores hi =>
    have hsteady := hsteady nofun
    obtain ⟨kv, kvs', replaced', heq, -⟩ := s.cache_eq server_name conn
    rw [heq] at hr hsteady hstored ⊢
    exact (h r hr).quiet hstored hsteady (fun _ => Quiet.refl _) rfl
  | push message done hc => exact (h r hr).push message done (hok.2 r hr)
  | enable he =>
    exact (h r hr).quiet hstored (hsteady nofun) (setConn_cases Quiet.refl (quiet_enable he)) rfl
  | @take x s₁ hidle hout hconn hrun =>
    have heq := (registered_runWriteDones hrun).eq
    have hround : s₁.round = s.round := (congrArg TcpClient.round heq :)
    have hinbox : s₁.inbox = s.inbox := (congrArg TcpClient.inbox heq :)
    have hbeats := h r (hround ▸ hr)
    refine hbeats.frame rfl rfl hstored (fun y entry hentry _ => ?_) .inl fun hc hbeat =>
      hbeat.take hbeats hinv hledger (hsteady nofun hc) (congrFun hinbox c) (handed_take hrun c)
    rwa [(handed_take hrun y).pushed] at hentry
  | close hreg hidle =>
    exact (h r hr).quiet hstored (hsteady nofun)
      (setConn_cases Quiet.refl ⟨rfl, rfl, rfl, rfl⟩) rfl
  | write hsend hclose he =>
    exact (h r hr).quiet hstored (hsteady nofun)
      (setConn_cases Quiet.refl (quiet_io hsend hclose he)) rfl
  | arrive message hc =>
    obtain ⟨r₀, hr₀, -⟩ := Option.map_eq_some_iff.mp hr
    exact (h r₀ hr₀).arrive hledger message hr₀ r hr
  | unheard hin hinbox hdone =>
    exact (h r hr).frame rfl rfl hstored (fun _ _ hentry _ => hentry) .inl
      fun _ hbeat => hbeat.unheard hinbox hdone
  | @reply x message rest done s' hin hinbox hdone hrun =>
    obtain ⟨r₀, hr₀, hid, hqueued, harrived⟩ := round_of_runReadDone hrun hr
    refine (h r₀ hr₀).frame hid hqueued hstored (fun y entry hentry _ => ?_)
      (fun hc => .inl (harrived ▸ hc)) fun hc hbeat =>
      hbeat.reply hinv (hsteady nofun hc) hid harrived hinbox hdone hrun
    have hpushed : (s'.conns y).pushed = (s.conns y).pushed := by
      have hpop := setConn_cases (c := x) (P := fun e e' => e'.pushed = e.pushed) (fun _ => rfl)
        (rfl : { s.conns x with
          conn := (s.conns x).conn.popReadMessage message.msg_id_ }.pushed = _) y
      rcases runReadDone_eq_some hrun with rfl | ⟨kv, conn, round, entry, -, -, rfl⟩ <;> exact hpop
    rwa [hpushed] at hentry
  | beginRound msg_id hround =>
    obtain rfl := Option.some.inj hr
    exact hinv.beats_beginRound hledger c hok
  | endRound hround => cases hr

/-! ## A connection that is answered stays -/

/-- **What keeps a connection in the cache.** Its counter is at most the
number of rounds in a row whose heartbeat was not written or not heard. -/
structure Stays (c : ℕ) (s : TcpClient ι) : Prop where
  listens : Listens (s.conns c)
  ledger : s.Ledger
  beats : ∀ r, s.round = some r → Beats c r s
  count : ∀ name entry, s.server_conns_.lookup name = some entry → entry.conn = c →
    s.keepalive_count_ name ≤ inARow (unheard c) s.history
  kept : c ∉ s.evicted

/-- When a round ends, the counter was set back if the heartbeat was
written and the answer handled. The loop was told of it, as something was
taken from the connection. -/
theorem Stays.reset {c : ℕ} (h : Stays c s) {r : Round} (hround : s.round = some r)
    (hanswers : s.answersHeartbeats c .endRound) (hheard : s.heardOn r.msg_id c = true) :
    s.Reset c := by
  obtain ⟨hwritten, hhandled⟩ := Bool.and_eq_true_iff.mp hheard
  have harrived := hanswers r hround hwritten
  have hbeats := h.beats r hround
  obtain ⟨⟨entry, hentry, -⟩, hmessage⟩ := (hbeats.beat (hbeats.arrived harrived)).arrived harrived
  refine hmessage.resolve_left ?_
  rintro ⟨message, hmem, hid⟩
  have hin := h.listens.registeredIn (List.ne_nil_of_mem hentry)
  rw [hin] at hhandled
  exact of_decide_eq_true (List.all_eq_true.mp hhandled message hmem) hid

/-- **The end of a round.** -/
theorem Stays.endRound {c : ℕ} (h : Stays c s) {r : Round} (hround : s.round = some r)
    (hanswers : s.answersHeartbeats c .endRound) (hwrites : s.writesHeartbeats c .endRound) :
    (∀ name entry, (s.endRound r).server_conns_.lookup name = some entry → entry.conn = c →
      (s.endRound r).keepalive_count_ name ≤ inARow (unheard c) (s.endRound r).history) ∧
      c ∉ (s.endRound r).evicted := by
  have hcounted := counted_endRound s r
  rw [TcpClient.endRound]
  generalize s.server_conns_.entries.foldl (countKeepalive r.msg_id) s = s' at hcounted
  -- one more than the counter is at most the number of rounds, with this one
  have hcount : ∀ name entry, s.server_conns_.lookup name = some entry → entry.conn = c →
      s.keepalive_count_ name + 1 ≤ inARow (unheard c) (s.account r s' :: s.history) ∧
        s.keepalive_count_ name + 1 < 3 := by
    intro name entry hentry hconn
    have hcached : c ∈ s.cachedConns := mem_cachedConns_iff.mpr ⟨name, entry, hentry, hconn⟩
    by_cases hheard : s.heardOn r.msg_id c = true
    · rw [h.reset hround hanswers hheard name entry hentry hconn]
      exact ⟨Int.natCast_nonneg _, by decide⟩
    · have hunheard : unheard c (s.account r s') = true := by
        simp [unheard, account, hcached, hheard]
      have htwo := (hwrites r hround hcached).resolve_left hheard
      have hle := h.count name entry hentry hconn
      rw [inARow_cons_of_pos hunheard]
      omega
  refine ⟨fun name entry hentry hconn => ?_, fun hevicted => ?_⟩
  · show s'.keepalive_count_ name ≤ _
    rw [(hcounted.count_of_lookup hentry).2]
    exact (hcount name entry (hcounted.cached hentry) hconn).1
  · rcases List.mem_append.mp hevicted with hnew | hold
    · obtain ⟨name, entry, hentry, hconn, hthree⟩ := hcounted.mem_evicted_iff.mp hnew
      exact absurd hthree (not_le.mpr (hcount name entry hentry hconn).2)
    · exact h.kept hold

theorem Stays.step [DecidableEq ι] {c : ℕ} (h : Stays c s) (hinv : s.Inv) {l : ClientStep ι}
    (hok : s.answersHeartbeats c l ∧ s.writesHeartbeats c l) (hs : s.step l = some s') :
    Stays c s' := by
  have hup : l ≠ .io c .close := by
    rintro rfl
    exact hok.1 rfl
  have hlistens := h.listens.step hinv hup hs
  have hledger := h.ledger.hands hinv (step_hands hs)
  have hbeats := Beats.step h.beats hinv h.ledger hok.2 hs
  cases hinv.step_counts hs with
  | same hsame =>
    refine ⟨hlistens, hledger, hbeats, ?_, ?_⟩
    · rw [hsame.server_conns_, hsame.keepalive_count_, hsame.history]
      exact h.count
    · rw [evicted, hsame.history]
      exact h.kept
  | @store i server_name conn stores hi =>
    obtain ⟨kv, kvs', replaced', heq, -⟩ := s.cache_eq server_name conn
    rw [heq] at hlistens hledger hbeats ⊢
    refine ⟨hlistens, hledger, hbeats, fun name entry hentry hconn => ?_, h.kept⟩
    show Function.update s.keepalive_count_ server_name 0 name ≤ _
    rcases lookup_insert_eq_some hentry with ⟨rfl, -⟩ | ⟨hname, hold⟩
    · rw [Function.update_self]
      exact Int.natCast_nonneg _
    · rw [Function.update_of_ne hname]
      exact h.count name entry hold hconn
  | @heard x kv conn round message rest entry inbox conns hinbox hdone hentry =>
    refine ⟨hlistens, hledger, hbeats, fun name entry' hentry' hconn => ?_, h.kept⟩
    show Function.update s.keepalive_count_ entry.1 (-1) name ≤ _
    rw [Function.update_apply]
    split
    · exact le_trans (by decide) (Int.natCast_nonneg _)
    · exact h.count name entry' hentry' hconn
  | beginRound msg_id hround => exact ⟨hlistens, hledger, hbeats, h.count, h.kept⟩
  | endRound hround =>
    obtain ⟨hcount, hkept⟩ := h.endRound hround hok.1 hok.2
    exact ⟨hlistens, hledger, hbeats, hcount, hkept⟩

theorem Stays.init (c : ℕ) : Stays c ({} : TcpClient ι) where
  listens := ⟨nofun, fun h => absurd rfl h, fun h => h.elim (fun h => absurd h (lt_irrefl 0)) nofun⟩
  ledger := ⟨fun _ => rfl, fun _ _ h => absurd h (AList.notMem_empty _)⟩
  beats _ h := by cases h
  count _ _ h := by cases h
  kept h := (List.not_mem_nil h).elim

variable [DecidableEq ι]

/-- **A connection that is up and answered is never evicted**, if in at
least one of any three rounds in a row its heartbeat is written, and the
answer handled before the wait ends. -/
theorem neverEvicted (c : ℕ)
    (hruns : Runs step (fun s l => s.answersHeartbeats c l ∧ s.writesHeartbeats c l) {} s) :
    c ∉ s.evicted := by
  have h : s.Inv ∧ Stays c s :=
    hruns.invariant (I := fun s : TcpClient ι => s.Inv ∧ Stays c s)
      (fun _ _ _ h hok hs => ⟨h.1.step hs, h.2.step h.1 hok hs⟩) ⟨Inv.init, Stays.init c⟩
  exact h.2.kept

/-- Two rounds without a call, between two with one. -/
theorem neverEvicted_calls :
    ∃ s : TcpClient Unit, 0 ∉ s.evicted ∧ s.history.length = 4 ∧ s.cachedConns = [0] := by
  obtain ⟨s, hruns, h⟩ : ∃ s : TcpClient Unit,
      Runs (restrict step fun s l => s.answersHeartbeats 0 l ∧ s.writesHeartbeats 0 l) anyStep {} s ∧
        decide (s.history.length = 4 ∧ s.cachedConns = [0]) = true :=
    exists_of_execute
      (connectSteps [97] ++ callSteps [1] [2] 48 ++
        [.beginRound [3], .endRound, .beginRound [4], .endRound] ++ callSteps [5] [6] 96)
      (by decide +kernel)
  exact ⟨s, neverEvicted 0 (runs_of_restrict hruns), of_decide_eq_true h⟩

/-- **Where no call is made, the connection is evicted**: the three
heartbeats are in its queue. -/
theorem not_neverEvicted :
    ¬ ∀ (c : ℕ) (s : TcpClient Unit),
      Runs step (fun s l => s.answersHeartbeats c l) {} s → c ∉ s.evicted := by
  intro hall
  obtain ⟨s, hruns, h⟩ : ∃ s : TcpClient Unit,
      Runs (restrict step fun s l => s.answersHeartbeats 0 l) anyStep {} s ∧
        decide (0 ∈ s.evicted ∧ (s.conns 0).conn.write_dones_.length = 3) = true :=
    exists_of_execute
      (connectSteps [97] ++
        [.beginRound [1], .endRound, .beginRound [2], .endRound, .beginRound [3], .endRound])
      (by decide +kernel)
  exact hall 0 s (runs_of_restrict hruns) (of_decide_eq_true h).1

end TcpClient

end PbRpc
