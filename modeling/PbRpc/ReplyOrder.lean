import PbRpc.ConnectionPair

/-!
# The order of the replies

Replies come back in any order, because batches are finished in any order.
That is the only thing that mixes them up. Requests are written, read and
parsed in the order in which they were pushed, a batch is answered from its
front, and responses are queued, encoded, written and parsed in the order in
which they were made.

So the callbacks run in the order in which their requests were pushed, and
none is passed over, if the batches are finished in the order in which they
came (`callbacksInOrder`): the server has no worker threads, and its loops
answer themselves, or it has one that is free for requests. Two are enough
for a callback to overtake another (`not_inOrder`).

What takes an argument is that no callback is passed over. The reply to a
request is looked up by its id, and the callback is there, since it was
registered before the request was encoded and no other reply has that id.
-/

namespace PbRpc

open TinyPBCoder TinyPBProtocol Transition
open Connection (entryOf)
open scoped List

variable {K Message : Type}

/-- Entries of a list with distinct keys are in its order when their keys
are. -/
theorem prefix_of_map_prefix {α β : Type*} {f : α → β} {l l' : List α} (hnodup : (l'.map f).Nodup)
    (hsub : l ⊆ l') (h : l.map f <+: l'.map f) : l <+: l' := by
  have hlength : l.length ≤ l'.length := by simpa using h.length_le
  rw [List.prefix_iff_eq_take]
  refine List.ext_getElem (by rw [List.length_take, min_eq_left hlength]) fun i hi hi' => ?_
  rw [List.getElem_take]
  refine List.inj_on_of_nodup_map hnodup (hsub (List.getElem_mem hi)) (List.getElem_mem _) ?_
  have hkey := h.getElem (i := i) (by rwa [List.length_map])
  rwa [List.getElem_map, List.getElem_map] at hkey

/-! ## Replies that are waited for -/

namespace Connection

/-- A callback that is waited for is still there when another is taken. -/
theorem mem_pending_popReadMessage {c : Connection K} {msg_id m : Bytes} (hne : m ≠ msg_id)
    (h : m ∈ c.pending.map Prod.fst) :
    m ∈ (c.popReadMessage msg_id).pending.map Prod.fst := by
  rw [pending_ids, ← AList.mem_keys] at h ⊢
  exact AList.mem_erase.mpr ⟨hne, h⟩

/-- **No reply is passed over** when each is waited for under an id of its
own. -/
theorem handleReplies_found {c : Connection K} {result : List TinyPBProtocol}
    (hnodup : (result.map msg_id_).Nodup)
    (hfound : ∀ message ∈ result, message.msg_id_ ∈ c.pending.map Prod.fst) :
    (c.handleReplies result).2.map Invocation.message = result := by
  induction result generalizing c with
  | nil => rfl
  | cons message result ih =>
    rw [List.map_cons, List.nodup_cons] at hnodup
    obtain ⟨done, hdone⟩ : ∃ done, c.read_dones_.lookup message.msg_id_ = some done := by
      refine Option.ne_none_iff_exists'.mp fun hnone => ?_
      exact c.lookup_eq_none_iff.mp hnone (hfound message (List.mem_cons_self ..))
    have hcons : (c.handleReplies (message :: result)).2
        = (c.handleReply message).2 ++ ((c.handleReply message).1.handleReplies result).2 := rfl
    rw [hcons, c.handleReply_of_some hdone, List.map_append]
    refine congrArg (message :: ·) (ih hnodup.2 fun m hm => ?_)
    refine mem_pending_popReadMessage (fun heq => hnodup.1 ?_)
      (hfound m (List.mem_cons_of_mem _ hm))
    rw [← heq]
    exact List.mem_map_of_mem hm

end Connection

namespace ConnectionPair

/-! ## The order of the messages -/

/-- **Batches are finished in the order in which they came.** Without workers
there is none to finish. -/
def finishesFirst (set : Setting) (_ : ConnectionPair K) : PairStep K Message → Prop
  | .finish i _ => set.workThread_ = 0 ∨ i = 0
  | _ => True

instance (set : Setting) (s : ConnectionPair K) (l : PairStep K Message) :
    Decidable (finishesFirst set s l) :=
  match l with
  | .finish i _ => inferInstanceAs (Decidable (set.workThread_ = 0 ∨ i = 0))
  | .push _ _ | .enable | .client _ | .server _ | .clientRead _ | .serverRead _ | .clientParse
  | .serverParse _ | .regSend => .isTrue trivial

/-- **The responses in their order**: those that were delivered have had their
callbacks run, one after the other, and the others are on their way. -/
def Replies (s : ConnectionPair K) : Prop :=
  ∃ delivered ahead, s.replied = delivered ++ ahead ∧
    Carries s.client.conn.inputbuffer_ s.server.outgoing ahead ∧
    s.client.invoked.map Invocation.message = delivered.map received

/-- **Nothing is overtaken**, from the first request to the last reply. -/
structure InOrder (set : Setting) (s : ConnectionPair K) : Prop where
  requests : s.answered.map Prod.fst ++ s.pool.flatten
    <+: s.client.sent.map (fun e => received e.1)
  replied : s.replied <+: s.answered.map Prod.snd
  queued : s.server.conn.disConnect = false →
    s.replied ++ s.taskqueue_.flatten = s.answered.map Prod.snd
  /-- Without workers nothing is queued for one, or by one. -/
  inline : set.workThread_ = 0 → s.pool = [] ∧ s.taskqueue_ = []
  replies : Replies s

variable {set : Setting} {s s' : ConnectionPair K}

theorem Replies.of_client (h : Replies s) {e : Endpoint K}
    (hinput : e.conn.inputbuffer_ = s.client.conn.inputbuffer_)
    (hinvoked : e.invoked = s.client.invoked) : Replies { s with client := e } := by
  unfold Replies
  rw [hinput, hinvoked]
  exact h

theorem Replies.of_server (h : Replies s) {e : Endpoint K} {ms replied : List TinyPBProtocol}
    (hf : Endpoint.Flow s.server ms e) (hreplied : replied = s.replied ++ ms) :
    Replies { s with server := e, replied := replied } := by
  obtain ⟨delivered, ahead, heq, hcarries, hinvoked⟩ := h
  refine ⟨delivered, ahead ++ ms, ?_, ?_, hinvoked⟩
  · show replied = _
    rw [hreplied, heq, List.append_assoc]
  · show Carries _ e.outgoing _
    rw [hf.outgoing]
    exact hcarries.send ms

/-- A step of the server's thread does not open the connection again. -/
theorem disConnect_io {e e' : Endpoint K} {step : IoStep} (h : e.io step = some e')
    (hopen : e'.conn.disConnect = false) : e.conn.disConnect = false := by
  cases Endpoint.ioMoves_of_io h with
  | sendMessage hidle _ =>
    revert hopen
    unfold Endpoint.sendMessage
    split
    · exact id
    · split
      · exact id
      · obtain ⟨read, channel, htake⟩ := e.conn.takeWriteDones_eq
        rw [htake]
        exact id
  | encode _ => exact hopen
  | @write result _ hphase hwrite =>
    cases result with
    | written n =>
      rw [Endpoint.writeOnce] at hwrite
      split at hwrite
      · cases hwrite
      · obtain rfl := Option.some.inj hwrite
        exact hopen
    | failed errno =>
      obtain rfl := Option.some.inj hwrite
      exact hopen
  | disableWriting _ => exact hopen
  | close _ => cases hopen

namespace Inv

/-- What is on its way to the server can be sent. -/
theorem sendable_ahead (h : Inv Message set s) (hx : Exchange s)
    {parsed ahead messages : List TinyPBProtocol}
    (hsent : s.client.sent.map Prod.fst = parsed ++ ahead ++ messages) :
    ∀ m ∈ ahead, Sendable m := by
  intro m hm
  have hmem : m ∈ s.client.sent.map Prod.fst := by
    rw [hsent]
    exact List.mem_append_left _ (List.mem_append_right _ hm)
  obtain ⟨e, he, rfl⟩ := List.mem_map.mp hmem
  exact hx.requests e (h.pushed_of_sent he)

/-- The responses carry the ids of their requests. -/
theorem ids_answered (h : Inv Message set s) :
    s.answered.map (fun e => e.2.msg_id_) = s.answered.map (fun e => e.1.msg_id_) := by
  refine List.map_congr_left fun e he => ?_
  obtain ⟨services, hdispatch⟩ := h.responses.answered e he
  rw [hdispatch, RpcDispatcher.msg_id_dispatch]

/-- No two of the responses that were written have one id. -/
theorem nodup_replied (h : Inv Message set s) (hx : Exchange s)
    (hreplied : s.replied <+: s.answered.map Prod.snd) :
    (s.replied.map msg_id_).Nodup := by
  refine List.Nodup.sublist (hreplied.map msg_id_).sublist ?_
  rw [List.map_map]
  exact (h.ids_answered ▸ h.answered_once hx : (s.answered.map (fun e => e.2.msg_id_)).Nodup)

/-- A callback ran under the id of the message it was given. -/
theorem msg_id_invoked (h : Inv Message set s) {i : Invocation K} (hi : i ∈ s.client.invoked) :
    i.msg_id = i.message.msg_id_ := by
  obtain ⟨_, _, _, _, hinvoked⟩ := h.responses.stream
  obtain ⟨response, -, hmessage, hid⟩ := hinvoked i hi
  rw [hid, hmessage]
  rfl

end Inv

namespace InOrder

theorem init : InOrder set ({} : ConnectionPair K) where
  requests := List.nil_prefix
  replied := List.nil_prefix
  queued _ := rfl
  inline _ := ⟨rfl, rfl⟩
  replies := ⟨[], [], rfl, ⟨Nat.zero_le _, .nil⟩, rfl⟩

/-- **A step of the client's threads** that adds to what was sent. -/
theorem of_client (h : InOrder set s) {e : Endpoint K} (hsent : s.client.sent <+: e.sent)
    (hinput : e.conn.inputbuffer_ = s.client.conn.inputbuffer_)
    (hinvoked : e.invoked = s.client.invoked) : InOrder set { s with client := e } where
  requests := h.requests.trans (hsent.map _)
  replied := h.replied
  queued := h.queued
  inline := h.inline
  replies := h.replies.of_client hinput hinvoked

theorem of_server (h : InOrder set s) {e : Endpoint K} (hf : Endpoint.Flow s.server [] e)
    (hopen : e.conn.disConnect = false → s.server.conn.disConnect = false) :
    InOrder set { s with server := e } where
  requests := h.requests
  replied := h.replied
  queued hup := h.queued (hopen hup)
  inline := h.inline
  replies := h.replies.of_server hf (List.append_nil _).symm

/-- **`regSend`** of the responses that come next. -/
theorem regSend (hrequests : s.answered.map Prod.fst ++ s.pool.flatten
      <+: s.client.sent.map (fun e => received e.1))
    (hreplied : s.replied <+: s.answered.map Prod.snd) (hreplies : Replies s)
    (hinline : set.workThread_ = 0 → s.pool = [] ∧ s.taskqueue_ = [])
    {respond_pkgs : List TinyPBProtocol}
    (hqueued : s.server.conn.disConnect = false →
      s.replied ++ (respond_pkgs ++ s.taskqueue_.flatten) = s.answered.map Prod.snd) :
    InOrder set (s.regSend respond_pkgs) := by
  have hf := Endpoint.flow_regSend s.server respond_pkgs
  have hup : (s.server.conn.regSend respond_pkgs).disConnect = s.server.conn.disConnect := by
    rw [Connection.regSend]
    split <;> rfl
  refine ⟨hrequests, ?_, ?_, hinline, hreplies.of_server hf rfl⟩
  · show s.replied ++ (if s.server.conn.disConnect then [] else respond_pkgs) <+: _
    split
    case isTrue => rwa [List.append_nil]
    case isFalse hopen =>
      refine ⟨s.taskqueue_.flatten, ?_⟩
      rw [List.append_assoc]
      exact hqueued (eq_false_of_ne_true hopen)
  · intro hopen
    have hopen' : s.server.conn.disConnect = false := hup.symm.trans hopen
    show s.replied ++ (if s.server.conn.disConnect then [] else respond_pkgs) ++ _ = _
    rw [if_neg (ne_true_of_eq_false hopen'), List.append_assoc]
    exact hqueued hopen'

/-- What the server has parsed is in order what it was sent first. -/
theorem parsed_eq (h : InOrder set s) {parsed ahead : List TinyPBProtocol}
    (hsent : s.client.sent.map Prod.fst = parsed ++ ahead)
    (hperm : s.answered.map Prod.fst ++ (s.pool.flatten ++ []) ~ parsed.map received) :
    s.answered.map Prod.fst ++ s.pool.flatten = parsed.map received := by
  have hprefix : parsed.map received <+: s.client.sent.map (fun e => received e.1) := by
    refine ⟨ahead.map received, ?_⟩
    rw [← List.map_append, ← hsent, List.map_map]
    rfl
  rw [List.append_nil] at hperm
  exact (List.prefix_of_prefix_length_le h.requests hprefix hperm.length_eq.le).eq_of_length
    hperm.length_eq

/-- **`HandleMessage`** of the batch that was parsed next. -/
theorem handleMessage (h : InOrder set s) {request_pkgs : List TinyPBProtocol}
    (services : ℕ → RpcDispatcher Message) {conn : Connection K}
    (hconn : conn.disConnect = s.server.conn.disConnect)
    (hout : conn.outputbuffer_ = s.server.conn.outputbuffer_)
    (hnext : s.answered.map Prod.fst ++ s.pool.flatten ++ request_pkgs
      <+: s.client.sent.map (fun e => received e.1)) :
    InOrder set (HandleMessage set { s with server := { s.server with conn := conn } }
      request_pkgs services) := by
  have hreplies : Replies { s with server := { s.server with conn := conn } } := by
    obtain ⟨delivered, ahead, heq, hcarries, hinvoked⟩ := h.replies
    refine ⟨delivered, ahead, heq, ?_, hinvoked⟩
    show Carries _ (s.server.socket ++ conn.outputbuffer_.readable) _
    rw [hout]
    exact hcarries
  rw [HandleMessage]
  split
  case isTrue hwork =>
    obtain ⟨hpool, hqueue⟩ := h.inline hwork
    refine regSend (s := { s with server := { s.server with conn := conn } }.answer request_pkgs
      (OnMassage set.peer request_pkgs services)) ?_ (h.replied.trans ?_) hreplies h.inline
        fun hopen => ?_
    · show (s.answered ++ _).map Prod.fst ++ s.pool.flatten <+: _
      rw [hpool] at hnext ⊢
      rw [List.map_append, List.map_fst_zip (length_OnMassage ..).ge]
      rwa [List.flatten_nil, List.append_nil] at hnext ⊢
    · show _ <+: (s.answered ++ _).map Prod.snd
      rw [List.map_append]
      exact List.prefix_append _ _
    · show s.replied ++ (_ ++ s.taskqueue_.flatten) = (s.answered ++ _).map Prod.snd
      have hqueued := h.queued (hconn.symm.trans hopen)
      rw [hqueue, List.flatten_nil, List.append_nil] at hqueued ⊢
      rw [hqueued, List.map_append, List.map_snd_zip (length_OnMassage ..).le]
  case isFalse hwork =>
    refine ⟨?_, h.replied, fun hopen => h.queued (hconn.symm.trans hopen),
      fun hzero => absurd hzero hwork, hreplies⟩
    show s.answered.map Prod.fst ++ (s.pool ++ [request_pkgs]).flatten <+: _
    rwa [List.flatten_append, List.flatten_singleton, ← List.append_assoc]

theorem serverParse (h : InOrder set s) (hinv : Inv Message set s) (hx : Exchange s)
    {request_pkgs : List TinyPBProtocol} {conn : Connection K}
    (services : ℕ → RpcDispatcher Message)
    (hd : s.server.conn.decodeInput set.ov = .ok (request_pkgs, conn)) :
    InOrder set (HandleMessage set { s with server := { s.server with conn := conn } }
      request_pkgs services) := by
  obtain ⟨b, hb, rfl⟩ := Connection.decodeInput_eq_ok hd
  obtain ⟨parsed, ahead, hsent, hcarries, hperm⟩ := hinv.requests
  obtain ⟨got, ahead', rfl, rfl, -⟩ := hcarries.decode (hinv.sendable_ahead hx hsent) hb
  refine h.handleMessage services rfl rfl ?_
  rw [h.parsed_eq (hsent.trans (List.append_assoc ..)) hperm, ← List.map_append]
  refine ⟨(ahead' ++ s.client.phase.messages).map received, ?_⟩
  rw [← List.map_append, ← List.append_assoc, List.append_assoc parsed, ← hsent, List.map_map]
  rfl

/-- **A worker finishes the first batch.** -/
theorem finish (h : InOrder set s) {request_pkgs : List TinyPBProtocol}
    {pool : List (List TinyPBProtocol)} (services : ℕ → RpcDispatcher Message)
    (hpool : s.pool = request_pkgs :: pool) :
    InOrder set (({ s with pool := pool }.answer request_pkgs
      (OnMassage set.peer request_pkgs services)).queueInLoop
        (OnMassage set.peer request_pkgs services)) := by
  have hrequests : (s.answered ++ request_pkgs.zip
      (OnMassage set.peer request_pkgs services)).map Prod.fst ++ pool.flatten
      <+: s.client.sent.map (fun e => received e.1) := by
    have hrequests := h.requests
    rw [hpool, List.flatten_cons, ← List.append_assoc] at hrequests
    rwa [List.map_append, List.map_fst_zip (length_OnMassage ..).ge]
  have hanswered : (s.answered ++ request_pkgs.zip
      (OnMassage set.peer request_pkgs services)).map Prod.snd
      = s.answered.map Prod.snd ++ OnMassage set.peer request_pkgs services := by
    rw [List.map_append, List.map_snd_zip (length_OnMassage ..).le]
  have hreplied : s.replied <+: (s.answered ++ request_pkgs.zip
      (OnMassage set.peer request_pkgs services)).map Prod.snd := by
    rw [hanswered]
    exact h.replied.trans (List.prefix_append _ _)
  have hwork : set.workThread_ ≠ 0 := fun hzero => by
    have hnil := (h.inline hzero).1
    rw [hpool] at hnil
    cases hnil
  rw [queueInLoop]
  split
  case isTrue hclosed =>
    refine ⟨hrequests, hreplied, fun hopen => ?_, fun hzero => absurd hzero hwork, h.replies⟩
    exact absurd (hopen.symm.trans hclosed) Bool.false_ne_true
  case isFalse =>
    refine ⟨hrequests, hreplied, fun hopen => ?_, fun hzero => absurd hzero hwork, h.replies⟩
    show s.replied ++ (s.taskqueue_ ++ [_]).flatten = _
    rw [List.flatten_append, List.flatten_singleton, ← List.append_assoc]
    exact (congrArg (· ++ _) (h.queued hopen)).trans hanswered.symm

/-- **The client parses**: the callbacks of the responses that have arrived
run, and none is missing. -/
theorem clientParse (h : InOrder set s) (hinv : Inv Message set s) (hx : Exchange s)
    {result : List TinyPBProtocol} {conn : Connection K}
    (hd : s.client.conn.decodeInput set.ov = .ok (result, conn)) :
    InOrder set { s with client := { s.client with
      conn := (conn.handleReplies result).1
      invoked := s.client.invoked ++ (conn.handleReplies result).2 } } := by
  obtain ⟨b, hb, hconn⟩ := Connection.decodeInput_eq_ok hd
  obtain ⟨delivered, ahead, hreplied, hcarries, hinvoked⟩ := h.replies
  have hsendable : ∀ m ∈ ahead, Sendable m := fun m hm =>
    hinv.sendable_replied hx m (by rw [hreplied]; exact List.mem_append_right _ hm)
  obtain ⟨got, ahead', hresult, rfl, hcarries'⟩ := hcarries.decode hsendable hb
  obtain ⟨read, hread, -, -⟩ := conn.handleReplies_spec result
  refine ⟨h.requests, h.replied, h.queued, h.inline,
    delivered ++ got, ahead', hreplied.trans (List.append_assoc ..).symm, ?_, ?_⟩
  · show Carries (conn.handleReplies result).1.inputbuffer_ _ _
    rw [hread, hconn]
    exact hcarries'
  · show (s.client.invoked ++ (conn.handleReplies result).2).map Invocation.message = _
    have hids := hinv.nodup_replied hx h.replied
    rw [hreplied, ← List.append_assoc, List.map_append, List.map_append] at hids
    rw [List.map_append, List.map_append, hinvoked, ← hresult]
    refine congrArg (_ ++ ·) (Connection.handleReplies_found ?_ fun message hm => ?_)
    · rw [hresult, List.map_map]
      exact (List.nodup_append.mp (List.nodup_append.mp hids).1).2.1
    · -- the callback is in the table, as it has not run
      rw [hresult] at hm
      obtain ⟨response, hr, rfl⟩ := List.mem_map.mp hm
      have howed : response ∈ s.replied ++ s.taskqueue_.flatten := by
        rw [hreplied]
        exact List.mem_append_left _ (List.mem_append_right _ (List.mem_append_left _ hr))
      obtain ⟨e, -, -, -, hid, hentry⟩ := hinv.origin howed
      have hpending : conn.pending = s.client.conn.pending := by rw [hconn]; rfl
      show response.msg_id_ ∈ conn.pending.map Prod.fst
      rw [hpending, hid]
      rcases List.mem_append.mp hentry with hpending | hran
      · exact List.mem_map_of_mem (f := Prod.fst) hpending
      · exfalso
        obtain ⟨i, hi, hentry⟩ := List.mem_map.mp hran
        have hmessage : i.message ∈ delivered.map received := by
          rw [← hinvoked]
          exact List.mem_map_of_mem hi
        obtain ⟨response', hr', heq⟩ := List.mem_map.mp hmessage
        have hid' : response'.msg_id_ = response.msg_id_ := by
          rw [hid]
          exact (congrArg msg_id_ heq).trans
            ((hinv.msg_id_invoked hi).symm.trans (congrArg Prod.fst hentry))
        refine (List.nodup_append.mp (List.nodup_append.mp hids).1).2.2 _
          (List.mem_map_of_mem hr') _ (List.mem_map_of_mem hr) hid'

/-- **Every step keeps the order.** -/
theorem step (h : InOrder set s) (hinv : Inv Message set s) (hx : Exchange s)
    {l : PairStep K Message} (hok : finishesFirst set s l) (hs : s.step set l = some s') :
    InOrder set s' := by
  cases l with
  | push message done =>
    obtain rfl := Option.some.inj hs
    exact h.of_client List.prefix_rfl rfl rfl
  | enable =>
    obtain ⟨e, he, rfl⟩ := Option.map_eq_some_iff.mp hs
    obtain ⟨hf, -⟩ := Endpoint.flow_enable he
    exact h.of_client (hf.frame.sent ▸ List.prefix_rfl) hf.frame.inputbuffer_ hf.frame.invoked
  | client step =>
    obtain ⟨e, he, rfl⟩ := Option.map_eq_some_iff.mp hs
    rcases Endpoint.io_cases he with ht | ⟨ms, -, hf⟩
    · obtain ⟨read, channel, htake⟩ := s.client.conn.takeWriteDones_eq
      rw [ht.eq, htake]
      exact h.of_client (List.prefix_append _ _) rfl rfl
    · exact h.of_client (hf.frame.sent ▸ List.prefix_rfl) hf.frame.inputbuffer_ hf.frame.invoked
  | server step =>
    obtain ⟨e, he, rfl⟩ := Option.map_eq_some_iff.mp hs
    rcases Endpoint.io_cases he with ht | ⟨ms, hm, hf⟩
    · have htype := hinv.server_type
      rw [ht.client] at htype
      cases htype
    · rw [hinv.server_phase] at hm
      obtain ⟨rfl, -⟩ := List.append_eq_nil_iff.mp hm.symm
      exact h.of_server hf (disConnect_io he)
  | clientRead n =>
    obtain ⟨⟨client, server⟩, he, rfl⟩ := Option.map_eq_some_iff.mp hs
    obtain ⟨rfl, rfl⟩ := Endpoint.onMessage_eq_some he
    obtain ⟨delivered, ahead, hreplied, hcarries, hinvoked⟩ := h.replies
    rw [outgoing_eq_take s.server n] at hcarries
    exact ⟨h.requests, h.replied, h.queued, h.inline,
      delivered, ahead, hreplied, hcarries.read, hinvoked⟩
  | serverRead n =>
    obtain ⟨⟨server, client⟩, he, rfl⟩ := Option.map_eq_some_iff.mp hs
    obtain ⟨rfl, rfl⟩ := Endpoint.onMessage_eq_some he
    exact ⟨h.requests, h.replied, h.queued, h.inline, h.replies⟩
  | clientParse =>
    obtain ⟨-, result, conn, hd, rfl⟩ := clientParse_cases hs
    exact h.clientParse hinv hx hd
  | serverParse services =>
    obtain ⟨-, request_pkgs, conn, hd, rfl⟩ := serverParse_cases hs
    exact h.serverParse hinv hx services hd
  | finish i services =>
    obtain ⟨request_pkgs, hi, rfl⟩ := finish_cases hs
    obtain rfl : i = 0 := by
      refine hok.resolve_left fun hzero => ?_
      rw [(h.inline hzero).1] at hi
      cases hi
    obtain ⟨pool, hpool⟩ := List.head?_eq_some_iff.mp (List.head?_eq_getElem? ▸ hi)
    rw [show s.pool.eraseIdx 0 = pool by rw [hpool]; rfl]
    exact h.finish services hpool
  | regSend =>
    obtain ⟨-, respond_pkgs, taskqueue_, htasks, rfl⟩ := regSend_cases hs
    have hqueued := h.queued
    rw [htasks, List.flatten_cons] at hqueued
    refine regSend (s := { s with taskqueue_ := taskqueue_ }) h.requests h.replied h.replies
      (fun hzero => ?_) hqueued
    have hnil := (h.inline hzero).2
    rw [htasks] at hnil
    cases hnil

/-- **The callbacks have run in the order of their requests**, and none was
passed over. -/
theorem entries (h : InOrder set s) (hinv : Inv Message set s) (hx : Exchange s) :
    s.client.invoked.map Invocation.entry <+: s.client.pushed.map entryOf := by
  obtain ⟨delivered, ahead, hreplied, -, hinvoked⟩ := h.replies
  have hids : s.client.invoked.map Invocation.msg_id
      <+: s.client.sent.map (fun e => e.1.msg_id_) := by
    have hmessages : s.client.invoked.map Invocation.msg_id = delivered.map msg_id_ := by
      calc s.client.invoked.map Invocation.msg_id
        _ = (s.client.invoked.map Invocation.message).map msg_id_ := by
          rw [List.map_map]
          exact List.map_congr_left fun i hi => hinv.msg_id_invoked hi
        _ = (delivered.map received).map msg_id_ := by rw [hinvoked]
        _ = delivered.map msg_id_ := List.map_map
    have hdelivered : delivered.map msg_id_ <+: s.answered.map (fun e => e.1.msg_id_) := by
      rw [← hinv.ids_answered]
      have hprefix : delivered <+: s.answered.map Prod.snd :=
        (hreplied ▸ List.prefix_append _ _ : delivered <+: s.replied).trans h.replied
      have hmap := hprefix.map msg_id_
      rwa [List.map_map] at hmap
    have hrequests := ((List.prefix_append _ _).trans h.requests).map msg_id_
    rw [List.map_map, List.map_map] at hrequests
    rw [hmessages]
    exact hdelivered.trans hrequests
  -- an id determines the callback
  have hentries : s.client.invoked.map Invocation.entry <+: s.client.sent.map entryOf := by
    have hnodup : ((s.client.sent.map entryOf).map Prod.fst).Nodup := by
      rw [List.map_map]
      have hdistinct := hx.distinct
      rw [hinv.registers.pushed, List.map_append] at hdistinct
      exact hdistinct.sublist (List.sublist_append_left _ _)
    refine prefix_of_map_prefix hnodup (fun entry hentry => ?_) ?_
    · exact hinv.registers.dones.subset (List.mem_append_right _ hentry)
    · rw [List.map_map, List.map_map]
      exact hids
  rw [hinv.registers.pushed, List.map_append]
  exact hentries.trans (List.prefix_append _ _)

end InOrder

/-- **Callbacks run in the order of their requests**, none passed over, in
every run in which the batches are finished in the order in which they came. -/
theorem callbacksInOrder (set : Setting) {s : ConnectionPair K}
    (hruns : Runs (fun s (l : PairStep K Message) => s.step set l) (finishesFirst set) {} s)
    (hx : Exchange s) : s.client.invoked.map Invocation.entry <+: s.client.pushed.map entryOf := by
  obtain ⟨hinv, h⟩ := hruns.invariant_under (I := fun s => Inv Message set s ∧ InOrder set s)
    (H := Exchange) (fun _ _ _ hs hx => hx.back hs)
    (fun _ _ _ h hok hx hs =>
      ⟨h.1.step (hx.back hs) hs, h.2.step h.1 (hx.back hs) hok hs⟩)
    ⟨inv_init, .init⟩ hx
  exact h.entries hinv hx

/-- Two requests, the first of which is slower: the replies are written in
the order in which the workers finish. -/
def twoCalls (first second : ℕ) : List (PairStep ℕ Bytes) :=
  [.push { msg_id_ := Bytes.ofString "1", method_name_ := Bytes.ofString "Order.makeOrder" } 7,
    .enable, .client .sendMessage, .client .encode, .client (.write (.written 39)),
    .client .disableWriting, .serverRead 39, .serverParse (fun _ => echo),
    .push { msg_id_ := Bytes.ofString "2", method_name_ := Bytes.ofString "Order.makeOrder" } 8,
    .enable, .client .sendMessage, .client .encode, .client (.write (.written 39)),
    .client .disableWriting, .serverRead 39, .serverParse (fun _ => echo),
    .finish first (fun _ => echo), .finish second (fun _ => echo), .regSend, .regSend,
    .server .sendMessage, .server (.write (.written 78)), .clientRead 78, .clientParse]

theorem callbacksInOrder_twoCalls :
    ∃ s : ConnectionPair ℕ, s.client.invoked.map Invocation.entry <+: s.client.pushed.map entryOf ∧
      s.client.invoked.map Invocation.done = [7, 8] := by
  obtain ⟨s, hruns, h⟩ : ∃ s, Runs (restrict (fun s (l : PairStep ℕ Bytes) =>
      s.step ⟨.trap, 2, {}⟩ l) (finishesFirst ⟨.trap, 2, {}⟩)) anyStep {} s ∧
      (decide (Exchange s) && s.client.invoked.map Invocation.done == [7, 8]) = true :=
    exists_of_execute (twoCalls 0 0) (by decide +kernel)
  rw [Bool.and_eq_true, decide_eq_true_eq, beq_iff_eq] at h
  exact ⟨s, callbacksInOrder ⟨.trap, 2, {}⟩ (runs_of_restrict hruns) h.1, h.2⟩

/-- **With two workers a callback may overtake another.** -/
theorem not_inOrder :
    ∃ s : ConnectionPair ℕ, Reachable Bytes ⟨.trap, 2, {}⟩ s ∧ Exchange s ∧
      ¬ s.client.invoked.map Invocation.entry <+: s.client.pushed.map entryOf := by
  obtain ⟨s, hruns, h⟩ : ∃ s, Reachable Bytes ⟨.trap, 2, {}⟩ s ∧ (decide (Exchange s)
      && !decide (s.client.invoked.map Invocation.entry <+: s.client.pushed.map entryOf)) = true :=
    exists_of_execute (twoCalls 1 0) (by decide +kernel)
  rw [Bool.and_eq_true, decide_eq_true_eq, Bool.not_eq_true', decide_eq_false_iff_not] at h
  exact ⟨s, hruns, h⟩

end ConnectionPair

end PbRpc
