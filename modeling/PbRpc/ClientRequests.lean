import PbRpc.ClientTables

/-!
# The client's requests

A request or a heartbeat is pushed on a connection, is taken from its queue by
the thread of the loop, and has its reply callback registered then. Two
things are kept by every run. What was pushed was taken or is queued, and
callbacks are registered under ids that were pushed (`Ledger`). And a
connection from which anything was taken is registered for reading
(`Listens`): the write callback of a heartbeat does not enable reading, but
who enables writing has pushed a call, and the first that is taken from a
connection is taken together with a call.
-/

namespace PbRpc

open TinyPBCoder Transition

namespace TcpClient

variable {ι : Type} {s s' : TcpClient ι}

/-! ## What was pushed, and what was taken -/

/-- An id that a request or a heartbeat was pushed with. -/
def Used (s : TcpClient ι) (msg_id : Bytes) : Prop :=
  ∃ x, ∃ entry ∈ (s.conns x).pushed, entry.1.msg_id_ = msg_id

/-- **What was pushed on a connection was taken, or is queued**, and reply
callbacks are registered under ids that were pushed. -/
structure Ledger (s : TcpClient ι) : Prop where
  pushed : ∀ x, (s.conns x).pushed = (s.conns x).sent ++ (s.conns x).conn.write_dones_
  used : ∀ x msg_id, msg_id ∈ (s.conns x).conn.read_dones_ → s.Used msg_id

/-- The tables of requests and of callbacks are the same. -/
structure Quiet (e e' : Endpoint ClientDone) : Prop where
  pushed : e'.pushed = e.pushed
  sent : e'.sent = e.sent
  write_dones_ : e'.conn.write_dones_ = e.conn.write_dones_
  read_dones_ : e'.conn.read_dones_ = e.conn.read_dones_

theorem Quiet.refl (e : Endpoint ClientDone) : Quiet e e := ⟨rfl, rfl, rfl, rfl⟩

/-- A step of one connection leaves the others alone. -/
theorem setConn_cases {c : ℕ} {P : Endpoint ClientDone → Endpoint ClientDone → Prop}
    {e : Endpoint ClientDone} (hrefl : ∀ e, P e e) (he : P (s.conns c) e) (x : ℕ) :
    P (s.conns x) ((s.setConn c e).conns x) := by
  by_cases hx : x = c
  · rw [hx, conns_setConn]
    exact he
  · rw [conns_setConn_of_ne _ _ hx]
    exact hrefl _

theorem quiet_enable {e e' : Endpoint ClientDone} (h : e.enable = some e') : Quiet e e' := by
  obtain ⟨-, rfl⟩ := Endpoint.enable_eq h
  exact ⟨rfl, rfl, rfl, rfl⟩

theorem quiet_io {e e' : Endpoint ClientDone} {step : IoStep} (hsend : step ≠ .sendMessage)
    (hclose : step ≠ .close) (h : e.io step = some e') : Quiet e e' := by
  obtain ⟨b, channel, phase, socket, rfl, -⟩ := Endpoint.io_eq hsend hclose h
  exact ⟨rfl, rfl, rfl, rfl⟩

/-- **What a step does to the connections**: a request is pushed, or the
queued ones are taken, or a callback is taken out, or a round begins or
ends. -/
inductive HandCases (s : TcpClient ι) : ClientStep ι → TcpClient ι → Prop
  | quiet {l : ClientStep ι} {s' : TcpClient ι} (h : ∀ x, Quiet (s.conns x) (s'.conns x)) :
    HandCases s l s'
  | push {c : ℕ} (message : TinyPBProtocol) (done : ℕ) :
    HandCases s (.push c message done) (s.setConn c ((s.conns c).push message (.call done)))
  | take {c : ℕ} {s₁ : TcpClient ι}
    (hout : (s.conns c).conn.connectChannel_.registeredOut = true)
    (hrun : runWriteDones c (s.conns c).conn.write_dones_ s = some s₁) :
    HandCases s (.io c .sendMessage)
      (s₁.setConn c (taken (s₁.conns c) (s.conns c).conn.write_dones_))
  | pop {l : ClientStep ι} {s' : TcpClient ι} (msg_id : Bytes)
    (h : s'.conns = (s.setConn c { s.conns c with
      conn := (s.conns c).conn.popReadMessage msg_id }).conns) :
    HandCases s l s'
  | beginRound (msg_id : Bytes) : HandCases s (.beginRound msg_id) (s.beginRound msg_id)
  | endRound {r : Round} : HandCases s .endRound (s.endRound r)

theorem step_hands [DecidableEq ι] {l : ClientStep ι} (hs : s.step l = some s') :
    HandCases s l s' := by
  cases step_cases hs with
  | found hi hentry hcount => exact .quiet fun _ => Quiet.refl _
  | missed hi hmiss => exact .quiet fun _ => Quiet.refl _
  | connected hi hopens => exact .quiet fun _ => Quiet.refl _
  | refused hi hopens => exact .quiet fun _ => Quiet.refl _
  | @store i server_name conn stores hi =>
    obtain ⟨kv, kvs', replaced', heq, -⟩ := s.cache_eq server_name conn
    rw [heq]
    exact .quiet fun _ => Quiet.refl _
  | push message done hc => exact .push message done
  | enable he => exact .quiet (setConn_cases Quiet.refl (quiet_enable he))
  | dropped hdis => exact .quiet fun _ => Quiet.refl _
  | take hidle hout hconn hrun => exact .take hout hrun
  | close hreg hidle => exact .quiet (setConn_cases Quiet.refl ⟨rfl, rfl, rfl, rfl⟩)
  | write hsend hclose he => exact .quiet (setConn_cases Quiet.refl (quiet_io hsend hclose he))
  | arrive message hc => exact .quiet fun _ => Quiet.refl _
  | unheard hin hinbox hdone => exact .quiet fun _ => Quiet.refl _
  | @reply c message rest done s' hin hinbox hdone hrun =>
    refine .pop (c := c) message.msg_id_ ?_
    rcases runReadDone_eq_some hrun with rfl | ⟨kv, conn, round, entry, -, -, rfl⟩ <;> rfl
  | beginRound msg_id hround => exact .beginRound msg_id
  | endRound hround => exact .endRound

/-- **A connection when the requests of one have been taken.** -/
structure Handed (s : TcpClient ι) (c x : ℕ) (e : Endpoint ClientDone) : Prop where
  pushed : e.pushed = (s.conns x).pushed
  enabling : e.enabling = (s.conns x).enabling
  mine : x = c → e.sent = (s.conns x).sent ++ (s.conns x).conn.write_dones_ ∧
    e.conn.write_dones_ = []
  other : x ≠ c → e.sent = (s.conns x).sent ∧ e.conn.write_dones_ = (s.conns x).conn.write_dones_
  registered : ∀ msg_id, e.conn.read_dones_.lookup msg_id
    = ((s.conns x).conn.read_dones_.lookup msg_id).or
        (s.registeredBy c x msg_id (s.conns c).conn.write_dones_)
  channel : e.conn.connectChannel_ =
    if x = c ∧ (s.conns c).conn.write_dones_.any (fun entry => entry.2.isCall) = true then
      (s.conns x).conn.connectChannel_.enableReading
    else (s.conns x).conn.connectChannel_

theorem handed_take {c : ℕ} {s₁ : TcpClient ι}
    (hrun : runWriteDones c (s.conns c).conn.write_dones_ s = some s₁) (x : ℕ) :
    Handed s c x ((s₁.setConn c (taken (s₁.conns c) (s.conns c).conn.write_dones_)).conns x) := by
  have hread := lookup_runWriteDones hrun x
  have hchannel := channel_runWriteDones hrun x
  obtain ⟨read, channel, htouched⟩ := (registered_runWriteDones hrun).touched x
  by_cases hx : x = c
  · rw [hx] at htouched hread hchannel ⊢
    rw [conns_setConn]
    refine ⟨?_, ?_, fun _ => ⟨?_, rfl⟩, fun hne => absurd rfl hne, hread, hchannel⟩
    · exact (congrArg Endpoint.pushed htouched :)
    · exact (congrArg Endpoint.enabling htouched :)
    · exact congrArg (· ++ (s.conns c).conn.write_dones_) (congrArg Endpoint.sent htouched :)
  · rw [conns_setConn_of_ne _ _ hx]
    refine ⟨?_, ?_, fun heq => absurd heq hx, fun _ => ⟨?_, ?_⟩, hread, hchannel⟩
    · exact (congrArg Endpoint.pushed htouched :)
    · exact (congrArg Endpoint.enabling htouched :)
    · exact (congrArg Endpoint.sent htouched :)
    · exact (congrArg (fun e => e.conn.write_dones_) htouched :)

/-- A callback that write callbacks register is that of one of the entries. -/
theorem mem_of_registeredBy {c x : ℕ} {msg_id : Bytes}
    {entries : List (TinyPBProtocol × ClientDone)} {done : ClientDone}
    (h : s.registeredBy c x msg_id entries = some done) :
    ∃ entry ∈ entries, entry.1.msg_id_ = msg_id ∧ entry.2 = done ∧
      s.registersWith c entry = some x := by
  obtain ⟨entry, hfind, rfl⟩ := Option.map_eq_some_iff.mp h
  have hentry := List.find?_some hfind
  rw [decide_eq_true_eq] at hentry
  exact ⟨entry, List.mem_of_find?_eq_some hfind, hentry.1, rfl, hentry.2⟩

/-- **A connection when a round begins.** -/
theorem Inv.conns_beginRound (hinv : s.Inv) (msg_id : Bytes) (x : ℕ) :
    (∃ name entry, s.server_conns_.lookup name = some entry ∧ entry.conn = x ∧
      (s.beginRound msg_id).conns x = { s.conns x with
        conn := { (s.conns x).conn with
          write_dones_ := (s.conns x).conn.write_dones_ ++ [s.heartbeat msg_id entry] }
        pushed := (s.conns x).pushed ++ [s.heartbeat msg_id entry] }) ∨
      (x ∉ s.cachedConns ∧ (s.beginRound msg_id).conns x = s.conns x) := by
  obtain ⟨conns', heq, hin, hout⟩ := foldl_pushKeepalive msg_id s hinv.nodup_cachedConns
  rw [TcpClient.beginRound, heq]
  by_cases hx : x ∈ s.cachedConns
  · obtain ⟨entry, hentry, rfl⟩ := List.mem_map.mp hx
    exact .inl ⟨entry.1, entry.2, AList.mem_lookup_iff.mpr hentry, rfl, hin entry hentry⟩
  · exact .inr ⟨hx, hout x hx⟩

/-- A connection on which nothing was taken, and no callback registered. -/
structure Kept (e e' : Endpoint ClientDone) : Prop where
  balance : e.pushed = e.sent ++ e.conn.write_dones_ → e'.pushed = e'.sent ++ e'.conn.write_dones_
  pushed : ∀ entry ∈ e.pushed, entry ∈ e'.pushed
  read : ∀ msg_id ∈ e'.conn.read_dones_, msg_id ∈ e.conn.read_dones_

theorem Kept.refl (e : Endpoint ClientDone) : Kept e e := ⟨id, fun _ => id, fun _ => id⟩

theorem Quiet.kept {e e' : Endpoint ClientDone} (h : Quiet e e') : Kept e e' where
  balance := by
    rw [h.pushed, h.sent, h.write_dones_]
    exact id
  pushed _ := by
    rw [h.pushed]
    exact id
  read _ := by
    rw [h.read_dones_]
    exact id

/-- An entry is queued. -/
theorem kept_concat (e : Endpoint ClientDone) (entry : TinyPBProtocol × ClientDone)
    (enabling : ℕ) : Kept e { e with
      conn := { e.conn with write_dones_ := e.conn.write_dones_ ++ [entry] }
      enabling := enabling
      pushed := e.pushed ++ [entry] } where
  balance h := by
    show e.pushed ++ _ = e.sent ++ (e.conn.write_dones_ ++ _)
    rw [h, List.append_assoc]
  pushed _ := List.mem_append_left _
  read _ := id

theorem kept_pop (e : Endpoint ClientDone) (msg_id : Bytes) :
    Kept e { e with conn := e.conn.popReadMessage msg_id } :=
  ⟨id, fun _ => id, fun _ hmem => (AList.mem_erase.mp hmem).2⟩

theorem Used.mono (h : ∀ x, ∀ entry ∈ (s.conns x).pushed, entry ∈ (s'.conns x).pushed)
    {msg_id : Bytes} (hused : s.Used msg_id) : s'.Used msg_id := by
  obtain ⟨x, entry, hentry, heq⟩ := hused
  exact ⟨x, entry, h x entry hentry, heq⟩

theorem Ledger.kept (h : s.Ledger) (hkept : ∀ x, Kept (s.conns x) (s'.conns x)) : s'.Ledger where
  pushed x := (hkept x).balance (h.pushed x)
  used x msg_id hmem := (h.used x msg_id ((hkept x).read msg_id hmem)).mono fun y => (hkept y).pushed

theorem Ledger.take (h : s.Ledger) {c : ℕ} (hhanded : ∀ x, Handed s c x (s'.conns x)) :
    s'.Ledger := by
  refine ⟨fun x => ?_, fun x msg_id hmem => ?_⟩
  · have hx := hhanded x
    by_cases hxc : x = c
    · rw [hx.pushed, (hx.mine hxc).1, (hx.mine hxc).2, List.append_nil]
      exact h.pushed x
    · rw [hx.pushed, (hx.other hxc).1, (hx.other hxc).2]
      exact h.pushed x
  · have hused : s.Used msg_id := by
      obtain ⟨done, hdone⟩ := Option.isSome_iff_exists.mp (AList.lookup_isSome.mpr hmem)
      rw [(hhanded x).registered] at hdone
      rcases Option.or_eq_some_iff.mp hdone with hold | ⟨-, hnew⟩
      · exact h.used x msg_id (AList.lookup_isSome.mp (by rw [hold]; rfl))
      · obtain ⟨entry, hentry, heq, -, -⟩ := mem_of_registeredBy hnew
        refine ⟨c, entry, ?_, heq⟩
        rw [h.pushed]
        exact List.mem_append_right _ hentry
    exact hused.mono fun y entry hentry => by rwa [(hhanded y).pushed]

theorem Ledger.hands (h : s.Ledger) (hinv : s.Inv) {l : ClientStep ι} (hs : HandCases s l s') :
    s'.Ledger := by
  cases hs with
  | quiet hquiet => exact h.kept fun x => (hquiet x).kept
  | push message done => exact h.kept (setConn_cases Kept.refl (kept_concat _ _ _))
  | take hout hrun => exact h.take (handed_take hrun)
  | pop msg_id hpop =>
    refine h.kept fun x => ?_
    rw [hpop]
    exact setConn_cases Kept.refl (kept_pop _ msg_id) x
  | beginRound msg_id =>
    refine h.kept fun x => ?_
    rcases hinv.conns_beginRound msg_id x with ⟨name, entry, -, -, heq⟩ | ⟨-, heq⟩
    · rw [heq]
      exact kept_concat _ _ _
    · rw [heq]
      exact Kept.refl _
  | @endRound r =>
    refine h.kept fun x => ?_
    obtain ⟨read, heq, hsub⟩ := (counted_endRound s r).dropped x
    have heq : (s.endRound r).conns x = _ := heq
    rw [heq]
    exact ⟨id, fun _ => id, hsub⟩

/-! ## Where reading is enabled -/

/-- **A connection from which anything was taken is registered for reading**:
who has enabled writing, or is about to, has pushed a call before. -/
structure Listens (e : Endpoint ClientDone) : Prop where
  inepoll : e.conn.connectChannel_.EPOLLIN = true → e.conn.connectChannel_.inepoll_ = true
  sent : e.sent ≠ [] → e.conn.connectChannel_.EPOLLIN = true
  interest : 0 < e.enabling ∨ e.conn.connectChannel_.EPOLLOUT = true →
    e.conn.connectChannel_.EPOLLIN = true ∨
      e.conn.write_dones_.any (fun entry => entry.2.isCall) = true

theorem Listens.registeredIn {e : Endpoint ClientDone} (h : Listens e) (hsent : e.sent ≠ []) :
    e.conn.connectChannel_.registeredIn = true := by
  have hin := h.sent hsent
  rw [Channel.registeredIn, h.inepoll hin, hin]
  rfl

/-- A step that does not touch the channel. -/
theorem Listens.congr {e e' : Endpoint ClientDone} (h : Listens e)
    (hchannel : e'.conn.connectChannel_ = e.conn.connectChannel_) (hsent : e'.sent = e.sent)
    (henabling : e'.enabling = e.enabling)
    (hcall : e.conn.write_dones_.any (fun entry => entry.2.isCall) = true →
      e'.conn.write_dones_.any (fun entry => entry.2.isCall) = true) : Listens e' where
  inepoll := by
    rw [hchannel]
    exact h.inepoll
  sent := by
    rw [hchannel, hsent]
    exact h.sent
  interest := by
    rw [hchannel, henabling]
    exact fun hinterest => (h.interest hinterest).imp id hcall

theorem Listens.pop (msg_id : Bytes) {e : Endpoint ClientDone} (h : Listens e) :
    Listens { e with conn := e.conn.popReadMessage msg_id } :=
  h.congr rfl rfl rfl id

theorem Listens.push {e : Endpoint ClientDone} (h : Listens e) (message : TinyPBProtocol)
    (done : ℕ) : Listens (e.push message (.call done)) where
  inepoll := h.inepoll
  sent := h.sent
  interest _ := by
    refine .inr ?_
    show (e.conn.write_dones_ ++ [(message, ClientDone.call done)]).any _ = true
    simp [ClientDone.isCall]

theorem Listens.enable {e e' : Endpoint ClientDone} (h : Listens e) (he : e.enable = some e') :
    Listens e' := by
  obtain ⟨henabling, rfl⟩ := Endpoint.enable_eq he
  exact ⟨fun _ => rfl, h.sent, fun _ => h.interest (.inl henabling)⟩

theorem Listens.io {e e' : Endpoint ClientDone} (h : Listens e) {step : IoStep}
    (hsend : step ≠ .sendMessage) (hclose : step ≠ .close) (he : e.io step = some e') :
    Listens e' := by
  obtain ⟨b, channel, phase, socket, rfl, hchannel⟩ := Endpoint.io_eq hsend hclose he
  rcases hchannel with rfl | rfl
  · exact h.congr rfl rfl rfl id
  · -- who is about to enable writing has pushed a call
    refine ⟨fun _ => rfl, h.sent, fun hinterest => h.interest (.inl ?_)⟩
    exact hinterest.resolve_right Bool.noConfusion

/-- The requests of a connection are taken. -/
theorem Listens.take {c x : ℕ} {e : Endpoint ClientDone} (h : Listens (s.conns x))
    (hout : (s.conns c).conn.connectChannel_.registeredOut = true) (hhanded : Handed s c x e) :
    Listens e := by
  have hchannel := hhanded.channel
  by_cases hx : x = c
  · rw [hx] at h hchannel
    by_cases hcall : (s.conns c).conn.write_dones_.any (fun entry => entry.2.isCall) = true
    · -- a call is taken, and enables reading
      rw [if_pos ⟨rfl, hcall⟩] at hchannel
      rw [Channel.enableReading, Channel.setChannel] at hchannel
      exact ⟨fun _ => by rw [hchannel], fun _ => by rw [hchannel], fun _ => .inl (by rw [hchannel])⟩
    · rw [if_neg (fun h => hcall h.2)] at hchannel
      have hpollout : (s.conns c).conn.connectChannel_.EPOLLOUT = true := by
        rw [Channel.registeredOut, Bool.and_eq_true] at hout
        exact hout.2
      have hin := (h.interest (.inr hpollout)).resolve_right hcall
      exact ⟨hchannel ▸ h.inepoll, fun _ => hchannel ▸ hin, fun _ => .inl (hchannel ▸ hin)⟩
  · rw [if_neg (fun h => hx h.1)] at hchannel
    refine h.congr hchannel (hhanded.other hx).1 hhanded.enabling ?_
    rw [(hhanded.other hx).2]
    exact id

theorem Listens.step [DecidableEq ι] {c : ℕ} (h : Listens (s.conns c)) (hinv : s.Inv)
    {l : ClientStep ι} (hup : l ≠ .io c .close) (hs : s.step l = some s') :
    Listens (s'.conns c) := by
  cases step_cases hs with
  | found hi hentry hcount => exact h
  | missed hi hmiss => exact h
  | connected hi hopens => exact h
  | refused hi hopens => exact h
  | @store i server_name conn stores hi =>
    obtain ⟨kv, kvs', replaced', heq, -⟩ := s.cache_eq server_name conn
    show Listens ((s.cache server_name conn).conns c)
    rw [heq]
    exact h
  | push message done hc =>
    exact setConn_cases (P := fun e e' => Listens e → Listens e') (fun _ => id)
      (fun he => he.push message done) c h
  | enable he =>
    exact setConn_cases (P := fun e e' => Listens e → Listens e') (fun _ => id)
      (fun h => h.enable he) c h
  | dropped hdis => exact h
  | take hidle hout hconn hrun => exact h.take hout (handed_take hrun c)
  | @close x hreg hidle =>
    rw [conns_setConn_of_ne]
    · exact h
    · rintro rfl
      exact hup rfl
  | write hsend hclose he =>
    exact setConn_cases (P := fun e e' => Listens e → Listens e') (fun _ => id)
      (fun h => h.io hsend hclose he) c h
  | arrive message hc => exact h
  | unheard hin hinbox hdone => exact h
  | @reply x message rest done s' hin hinbox hdone hrun =>
    have hpop := setConn_cases (c := x) (P := fun e e' => Listens e → Listens e') (fun _ => id)
      (Listens.pop message.msg_id_) c h
    rcases runReadDone_eq_some hrun with rfl | ⟨kv, conn, round, entry, -, -, rfl⟩ <;> exact hpop
  | beginRound msg_id hround =>
    rcases hinv.conns_beginRound msg_id c with ⟨name, entry, -, -, heq⟩ | ⟨-, heq⟩
    · rw [heq]
      refine h.congr rfl rfl rfl fun hcall => ?_
      rw [List.any_append, hcall]
      rfl
    · rw [heq]
      exact h
  | @endRound r hround =>
    obtain ⟨read, heq, -⟩ := (counted_endRound s r).dropped c
    have heq : (s.endRound r).conns c = _ := heq
    rw [heq]
    exact h.congr rfl rfl rfl id

end TcpClient

end PbRpc
