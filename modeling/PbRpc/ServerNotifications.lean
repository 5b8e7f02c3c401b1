import PbRpc.ServerLookup

/-!
# Notifications of any form

`parseukv` writes what it reads into the locals of its caller, one after the
other, and stops where something is missing; where a number does not parse
it throws. The two callbacks do not learn of either. An exception passes
through them, and after a partial parse they go on with what is in the
locals, some of which nobody has written.

`Progress` says how far `parseukv` gets with a key and a value. What the
callbacks should do with anything but a complete parse is nothing
(`Intact`). A `PUT` practically never does nothing: it creates a service or
writes a node. A `DELETE` does nothing unless it throws or the list has a
node at the address that it is left with (`intact_iff`).
-/

namespace PbRpc

/-- **How far `parseukv` gets** with a key and a value. -/
inductive Progress where
  /-- The key has no two segments. -/
  | nothing
  /-- The value is not two pieces. -/
  | service (method : Bytes)
  /-- The address is not two pieces. -/
  | load (method address : Bytes) (cpu_usage : Double)
  | all (info : ServerInfo)
  /-- The load or the port does not parse. -/
  | throws (e : StdException)
deriving DecidableEq, Repr

namespace Progress

def read (key value : Bytes) : Progress :=
  match parts slash key with
  | _ :: method :: _ =>
    match parts underscore value with
    | [address, cpu_usage] =>
      match stod cpu_usage with
      | .error e => throws e
      | .ok cpu_usage =>
        match parts colon address with
        | [ip, port] =>
          match stoi port with
          | .error e => throws e
          | .ok port =>
            all { cpu_usage := cpu_usage, ip := ip, port := port, method := method }
        | _ => load method address cpu_usage
    | _ => service method
  | _ => nothing

/-- The locals of the caller afterwards. -/
def locals (junk : Indeterminate) : Progress → Except StdException ServerInfo
  | nothing => .ok junk.locals
  | service method => .ok { junk.locals with method := method }
  | load method address cpu_usage =>
    .ok { junk.locals with method := method, ip := address, cpu_usage := cpu_usage }
  | all info => .ok info
  | throws e => .error e

end Progress

theorem parseukv_eq_locals (key value : Bytes) (junk : Indeterminate) :
    parseukv key value junk.locals = (Progress.read key value).locals junk := by
  rw [parseukv, Progress.read]
  -- the pieces of the key, of the value and of the address
  rcases parts slash key with _ | ⟨segment, _ | ⟨method, rest⟩⟩
  · rfl
  · rfl
  · rcases parts underscore value with _ | ⟨address, _ | ⟨cpu, _ | ⟨piece, pieces⟩⟩⟩
    · rfl
    · rfl
    · cases hcpu : stod cpu with
      | error e =>
        simp only [hcpu]
        rfl
      | ok cpu_usage =>
        simp only [hcpu]
        rw [ok_bind]
        rcases parts colon address with _ | ⟨ip, _ | ⟨port, _ | ⟨piece, pieces⟩⟩⟩
        · rfl
        · rfl
        · cases hport : stoi port with
          | error e =>
            simp only [hport]
            rfl
          | ok port' =>
            simp only [hport]
            rfl
        · rfl
    · rfl

/-- A key and a value of the published form parse completely. -/
theorem progress_published {key value : Bytes} {info : ServerInfo}
    (h : published key value = some info) : Progress.read key value = .all info := by
  have hlocals : ∀ junk, (Progress.read key value).locals junk = .ok info := by
    intro junk
    rw [← parseukv_eq_locals]
    exact (parseukv_published h).1 _
  -- what is not read differs with what was in the locals
  have h0 := hlocals ⟨.finite 0, 0⟩
  have h1 := hlocals ⟨.finite 0, 1⟩
  cases hread : Progress.read key value with
  | all info' =>
    rw [hread] at h0
    rw [Except.ok.inj h0]
  | throws e =>
    rw [hread] at h0
    cases h0
  | nothing | service _ | load _ _ _ =>
    rw [hread] at h0 h1
    have hport := congrArg ServerInfo.port (Except.ok.inj (h0.trans h1.symm))
    cases hport

namespace RpcServerList

/-- **The same services, with the same nodes.** -/
structure SameNodes (l l' : RpcServerList) : Prop where
  service : ∀ service,
    (l'.server_list.lookup service).isSome = (l.server_list.lookup service).isSome
  nodeAt : ∀ service key, l'.nodeAt service key = l.nodeAt service key

/-- **A callback leaves the list intact**, whatever it finds in its locals: it
returns, with the same nodes in the list. -/
def Intact (l : RpcServerList) (callback : Indeterminate → Except StdException RpcServerList) :
    Prop :=
  ∀ junk : Indeterminate, InInt junk.port → ∃ l', callback junk = .ok l' ∧ l.SameNodes l'

/-- **When a `PUT` leaves the list intact**: the node that it writes is there,
whatever port it has where none was read. -/
def PutIntact (l : RpcServerList) : Progress → Prop
  | .all info => l.nodeAt info.method info.node.key = some info.node
  | .load method address cpu_usage => ∀ port, InInt port →
    l.nodeAt method (addressKey address port)
      = some { cpu_usage := cpu_usage, ip := address, port := port }
  | .nothing | .service _ | .throws _ => False

/-- **When a `DELETE` does**: the node that it removes is not there. -/
def DelIntact (l : RpcServerList) : Progress → Prop
  | .all info => l.nodeAt info.method info.node.key = none
  | .load method address _ => ∀ port, InInt port → l.nodeAt method (addressKey address port) = none
  | .service method => ∀ port, InInt port → l.nodeAt method (addressKey [] port) = none
  | .nothing => ∀ port, InInt port → l.nodeAt [] (addressKey [] port) = none
  | .throws _ => False

variable {l : RpcServerList} {info : ServerInfo} {key value : Bytes} {junk : Indeterminate}

/-- **One manager is written**, with another node at one address. -/
theorem sameNodes_insert {m : ServerNodeManager} {method address : Bytes} {n : Option ServerNode}
    (hm : ∀ key', m.nodeAt key' = if key' = address then n else l.nodeAt method key')
    (hlisted : l.nodeAt method address = n → (l.server_list.lookup method).isSome = true) :
    l.SameNodes ⟨l.server_list.insert method m⟩ ↔ l.nodeAt method address = n := by
  have hat : ∀ service key', nodeAt ⟨l.server_list.insert method m⟩ service key'
      = if service = method ∧ key' = address then n else l.nodeAt service key' := by
    intro service key'
    rw [nodeAt_insert]
    by_cases hs : service = method
    · subst hs
      rw [if_pos rfl, hm]
      simp only [true_and]
    · rw [if_neg hs, if_neg fun hc => hs hc.1]
  constructor
  · intro hsame
    rw [← hsame.nodeAt, hat, if_pos ⟨rfl, rfl⟩]
  · intro hthere
    refine ⟨fun service => ?_, fun service key' => ?_⟩
    · by_cases hs : service = method
      · rw [hs, AList.lookup_insert, hlisted hthere]
        rfl
      · rw [AList.lookup_insert_ne hs]
    · rw [hat]
      split
      case isTrue hk => rw [hk.1, hk.2, hthere]
      case isFalse => rfl

/-- **A `PUT` writes one node.** -/
theorem sameNodes_put (h : parseukv key value junk.locals = .ok info) :
    (∃ l', l.getServerNodeCallBack junk key value = .ok l' ∧ l.SameNodes l') ↔
      l.nodeAt info.method info.node.key = some info.node := by
  obtain ⟨m, hm, hcall⟩ : ∃ m : ServerNodeManager,
      (∀ key, m.nodeAt key = l.nodeAt info.method key) ∧
      l.getServerNodeCallBack junk key value
        = .ok ⟨l.server_list.insert info.method (m.upsertNode info.node)⟩ := by
    rw [getServerNodeCallBack, h, ok_bind]
    simp only [nodeAt]
    cases l.server_list.lookup info.method with
    | none => exact ⟨{}, fun _ => rfl, rfl⟩
    | some m => exact ⟨m, fun _ => rfl, rfl⟩
  rw [hcall]
  simp only [Except.ok.injEq, exists_eq_left']
  refine sameNodes_insert (fun key' => ?_) fun hthere => ?_
  · rw [ServerNodeManager.nodeAt_upsertNode, hm]
  · cases hlookup : l.server_list.lookup info.method with
    | none =>
      rw [nodeAt, hlookup] at hthere
      cases hthere
    | some m => rfl

/-- **A `DELETE` removes one node.** -/
theorem sameNodes_del (h : parseukv key value junk.locals = .ok info) :
    (∃ l', l.delServerNodeCallBack junk key value = .ok l' ∧ l.SameNodes l') ↔
      l.nodeAt info.method info.node.key = none := by
  rw [delServerNodeCallBack, h, ok_bind]
  cases hlookup : l.server_list.lookup info.method with
  | none =>
    refine ⟨fun _ => ?_, fun _ => ⟨l, rfl, fun _ => rfl, fun _ _ => rfl⟩⟩
    rw [nodeAt, hlookup]
    rfl
  | some m =>
    simp only [pure, Except.pure, Except.ok.injEq, exists_eq_left']
    refine sameNodes_insert (fun key' => ?_) fun _ => ?_
    · rw [ServerNodeManager.nodeAt_removeNode, nodeAt, hlookup]
      rfl
    · rw [hlookup]
      rfl

theorem inInt_zero : InInt 0 := by decide

/-- The ports that a local may hold. -/
theorem forall_junk_port (p : ℤ → Prop) :
    (∀ junk : Indeterminate, InInt junk.port → p junk.port) ↔ ∀ port, InInt port → p port :=
  ⟨fun h port hport => h ⟨.finite 0, port⟩ hport, fun h junk hport => h junk.port hport⟩

/-- Both callbacks, where the parse is complete or partial. -/
theorem intact_iff_of_locals {progress : Progress} {f : Indeterminate → ServerInfo}
    (hread : Progress.read key value = progress) (hf : ∀ junk, progress.locals junk = .ok (f junk)) :
    (l.Intact (fun junk => l.getServerNodeCallBack junk key value) ↔
        ∀ junk, InInt junk.port → l.nodeAt (f junk).method (f junk).node.key = some (f junk).node) ∧
      (l.Intact (fun junk => l.delServerNodeCallBack junk key value) ↔
        ∀ junk, InInt junk.port → l.nodeAt (f junk).method (f junk).node.key = none) := by
  have hparse : ∀ junk, parseukv key value junk.locals = .ok (f junk) := by
    intro junk
    rw [parseukv_eq_locals, hread, hf]
  exact ⟨forall₂_congr fun junk _ => sameNodes_put (hparse junk),
    forall₂_congr fun junk _ => sameNodes_del (hparse junk)⟩

/-- No node is there with every load. -/
theorem not_forall_junk (l : RpcServerList) (method : Bytes) :
    ¬ ∀ junk : Indeterminate, InInt junk.port → l.nodeAt method (addressKey [] junk.port)
      = some { cpu_usage := junk.cpu_usage, ip := [], port := junk.port } := by
  intro h
  have h0 := h ⟨.finite 0, 0⟩ inInt_zero
  have h1 := h ⟨.finite 1, 0⟩ inInt_zero
  have hcpu := congrArg ServerNode.cpu_usage (Option.some.inj (h0.symm.trans h1))
  cases hcpu

/-- **When the callbacks leave the list intact**, for every key and value. -/
theorem intact_iff (l : RpcServerList) (key value : Bytes) :
    (l.Intact (fun junk => l.getServerNodeCallBack junk key value) ↔
        l.PutIntact (Progress.read key value)) ∧
      (l.Intact (fun junk => l.delServerNodeCallBack junk key value) ↔
        l.DelIntact (Progress.read key value)) := by
  cases hread : Progress.read key value with
  | nothing =>
    obtain ⟨hput, hdel⟩ := intact_iff_of_locals (l := l) hread fun _ => rfl
    exact ⟨hput.trans (iff_false_intro (l.not_forall_junk [])),
      hdel.trans (forall_junk_port fun port => l.nodeAt [] (addressKey [] port) = none)⟩
  | service method =>
    obtain ⟨hput, hdel⟩ := intact_iff_of_locals (l := l) hread fun _ => rfl
    exact ⟨hput.trans (iff_false_intro (l.not_forall_junk method)),
      hdel.trans (forall_junk_port fun port => l.nodeAt method (addressKey [] port) = none)⟩
  | load method address cpu_usage =>
    obtain ⟨hput, hdel⟩ := intact_iff_of_locals (l := l) hread fun _ => rfl
    exact ⟨hput.trans (forall_junk_port fun port => l.nodeAt method (addressKey address port)
        = some { cpu_usage := cpu_usage, ip := address, port := port }),
      hdel.trans (forall_junk_port fun port => l.nodeAt method (addressKey address port) = none)⟩
  | all info =>
    obtain ⟨hput, hdel⟩ := intact_iff_of_locals (l := l) hread fun _ => rfl
    have hjunk : ∀ {p : Prop}, (∀ junk : Indeterminate, InInt junk.port → p) ↔ p :=
      fun {p} => ⟨fun h => h ⟨.finite 0, 0⟩ inInt_zero, fun h _ _ => h⟩
    exact ⟨hput.trans hjunk, hdel.trans hjunk⟩
  | throws e =>
    have hthrow : ∀ junk : Indeterminate, parseukv key value junk.locals = .error e := by
      intro junk
      rw [parseukv_eq_locals, hread]
      rfl
    refine ⟨iff_false_intro fun h => ?_, iff_false_intro fun h => ?_⟩
    · obtain ⟨l', hl', -⟩ := h ⟨.finite 0, 0⟩ inInt_zero
      dsimp only at hl'
      rw [getServerNodeCallBack, hthrow] at hl'
      cases hl'
    · obtain ⟨l', hl', -⟩ := h ⟨.finite 0, 0⟩ inInt_zero
      dsimp only at hl'
      rw [delServerNodeCallBack, hthrow] at hl'
      cases hl'

/-- **A key without a service** makes a `PUT` create one without a name, and
a load that is not a number makes both callbacks throw. -/
theorem not_intact :
    (Progress.read (Bytes.ofString "rpc") [] = .nothing ∧
        ¬ Intact {} (fun junk => getServerNodeCallBack {} junk (Bytes.ofString "rpc") [])) ∧
      Progress.read orderKey (Bytes.ofString "127.0.0.1:8080_x") = .throws .invalidArgument ∧
        ¬ Intact {} (fun junk => delServerNodeCallBack {} junk orderKey
          (Bytes.ofString "127.0.0.1:8080_x")) := by
  have hnothing : Progress.read (Bytes.ofString "rpc") [] = .nothing := by decide +kernel
  have hthrows : Progress.read orderKey (Bytes.ofString "127.0.0.1:8080_x")
      = .throws .invalidArgument := by decide +kernel
  refine ⟨⟨hnothing, fun h => ?_⟩, hthrows, fun h => ?_⟩
  · have hput := (intact_iff_of_locals (l := {}) hnothing fun _ => rfl).1.mp h
    exact not_forall_junk {} [] hput
  · obtain ⟨l', hl', -⟩ := h ⟨.finite 0, 0⟩ inInt_zero
    dsimp only at hl'
    rw [delServerNodeCallBack, parseukv_eq_locals, hthrows] at hl'
    cases hl'

end RpcServerList

end PbRpc
