import PbRpc.Connection
import PbRpc.CxxString
import PbRpc.RpcController

/-!
# Calls

A call is made through an `RpcChannel`, which keeps the objects of the call:
its controller, its response and the closure that tells the caller that the
call is over. `CallMethod` runs in the thread of the caller and returns
before the call is over. What is left is a timer, and the request in the
queue of the connection with a callback that will register another one for
the reply. The timer and the reply both belong to the thread of the
connection's loop, so that neither runs while the other does; all they have
in common are the timer's cancel flag, which the reply sets, and the
controller's, which the timer sets.

The objects of a call are named by the call: `u` is the controller, the
response, the closure and the timer of call `u`, and the channel that call
`u` uses is `chan u`. Nothing says that a channel is used once.
-/

namespace PbRpc

/-- **A channel**: the objects it points at. -/
structure RpcChannel where
  controller_ : Option ℕ := none
  response_ : Option ℕ := none
  closure_ : Option ℕ := none
  timer_event_ : Option ℕ := none
  is_init_ : Bool := false
deriving DecidableEq, Repr

/-- Only the first `init` has an effect. -/
def RpcChannel.init (channel : RpcChannel) (controller rsp done : Option ℕ) : RpcChannel :=
  if channel.is_init_ then channel
  else
    { channel with
      controller_ := controller
      response_ := rsp
      closure_ := done
      is_init_ := true }

/-- Where a call's `CallMethod` is. -/
inductive CallStage where
  /-- Not called. -/
  | ready
  /-- The timer is set. -/
  | timed
  /-- The request is queued. -/
  | pushed
  /-- It has returned with an error. -/
  | failed
deriving DecidableEq, Repr

/-- **A call** and its objects. -/
structure Call (Message : Type) where
  stage : CallStage := .ready
  request : TinyPBProtocol := {}
  controller : RpcController := {}
  response : Message
  /-- `is_cancled_` of its timer. -/
  is_cancled_ : Bool := false
  /-- How often its closure has run. -/
  closureRuns : ℕ := 0
  /-- Its reply callback has run. -/
  replied : Bool := false
  /-- Its timer callback has run. -/
  fired : Bool := false

/-- What happens to a call in `CallMethod`: the id it is given, whether there
is a connection, and what its request is serialised to. -/
structure CallInput where
  msg_id : Bytes
  method_full_name : Bytes
  connected : Bool
  pb_data : Option Bytes

/-- **The calls over one connection.** -/
structure Calls (Message : Type) where
  conn : Connection ℕ
  channels : ℕ → RpcChannel
  calls : ℕ → Call Message
  /-- The timers that are set. -/
  pending_events_ : List ℕ
  /-- The timer callbacks that `onTime` has collected and not run. -/
  tasks : List ℕ

/-- The steps of the callers' threads and of the loop's thread. -/
inductive CallsStep where
  /-- `init` and `CallMethod`, until the timer is set. -/
  | callMethod (u : ℕ) (input : CallInput)
  | pushSendMessage (u : ℕ)
  | sendMessage
  /-- `parseMsg` meets a message. -/
  | reply (rsp_msg : TinyPBProtocol)
  /-- `onTime`, when these timers are due. -/
  | onTime (due : List ℕ)
  /-- The next of the timer callbacks. -/
  | runTask

namespace Calls

variable {Message : Type}

/-- No call made, each with its timeout. -/
def init (timeout : ℕ → ℤ) (response : Message) : Calls Message where
  conn := { type_ := .ConnectionByClient }
  channels := fun _ => {}
  calls := fun u => { controller := { time_out_ := timeout u }, response := response }
  pending_events_ := []
  tasks := []

/-- Write to one of a call's objects. -/
def modify (s : Calls Message) (u : ℕ) (f : Call Message → Call Message) : Calls Message :=
  { s with calls := Function.update s.calls u (f (s.calls u)) }

/-- Write through a pointer of a channel. -/
def write (s : Calls Message) (target : Option ℕ) (f : Call Message → Call Message) :
    Calls Message :=
  match target with
  | none => s
  | some u => s.modify u f

/-- `closure_->Run()`, where there is a closure. -/
def runClosure (s : Calls Message) (channel : RpcChannel) : Calls Message :=
  s.write channel.closure_ (fun c => { c with closureRuns := c.closureRuns + 1 })

/-- `controller_->IsCanceled()`. -/
def IsCanceled (s : Calls Message) (channel : RpcChannel) : Bool :=
  match channel.controller_ with
  | none => false
  | some u => (s.calls u).controller.is_cancle_

def SetError (s : Calls Message) (u : ℕ) (error_code : Int32) (error_info : Bytes) :
    Calls Message :=
  s.modify u (fun c => { c with controller := c.controller.SetError error_code error_info })

variable (chan : ℕ → ℕ) (parseFromString : Bytes → Bool × Message)

/-- **`CallMethod`**, after `init` of the channel, until the timer is set. -/
def CallMethod (s : Calls Message) (u : ℕ) (input : CallInput) : Calls Message :=
  let channel := (s.channels (chan u)).init (some u) (some u) (some u)
  let s := { s with channels := Function.update s.channels (chan u) channel }
  let s := s.modify u (fun c => { c with controller := c.controller.SetMsgId input.msg_id })
  let return_ (s : Calls Message) := s.modify u (fun c => { c with stage := .failed })
  if ¬ input.connected then
    return_ (s.SetError u ERROR_FAILED_CONNECT (getErrorInfo ERROR_FAILED_CONNECT))
  else if ¬ channel.is_init_ then
    return_ (s.SetError u ERROR_RPC_CHANNEL_INIT (Bytes.ofString "RpcChannel not init"))
  else
    match input.pb_data with
    | none =>
      return_ (s.SetError u ERROR_FAILED_SERIALIZE (Bytes.ofString "failed to serialize"))
    | some pb_data =>
      { s.modify u (fun c =>
          { c with
            stage := .timed
            request :=
              { msg_id_ := input.msg_id
                method_name_ := input.method_full_name
                pb_data_ := pb_data } }) with
        channels := Function.update s.channels (chan u) { channel with timer_event_ := some u }
        pending_events_ := s.pending_events_ ++ [u] }

/-- **The reply callback** of a call. -/
def replyCallback (s : Calls Message) (u : ℕ) (rsp_msg : TinyPBProtocol) : Calls Message :=
  let channel := s.channels (chan u)
  let s := s.modify u (fun c => { c with replied := true })
  let s := s.write channel.timer_event_ (fun c => { c with is_cancled_ := true })
  let s := s.write channel.response_
    (fun c => { c with response := (parseFromString rsp_msg.pb_data_).2 })
  if ¬ (parseFromString rsp_msg.pb_data_).1 then
    s.SetError u ERROR_FAILED_SERIALIZE (Bytes.ofString "deserialize error")
  else
    let s := if rsp_msg.error_code_ ≠ 0
      then s.SetError u rsp_msg.error_code_ (getErrorInfo rsp_msg.error_code_) else s
    if s.IsCanceled channel then s else s.runClosure channel

/-- **The timer callback** of a call. -/
def timerCallback (s : Calls Message) (u : ℕ) : Calls Message :=
  let s := s.modify u (fun c =>
    { c with
      fired := true
      controller := c.controller.StartCancel.SetError ERROR_RPC_CALL_TIMEOUT
        (Bytes.ofString "rpc call timeout " ++ toStringInt c.controller.time_out_) })
  s.runClosure (s.channels (chan u))

/-- **One step.** A message and a timer are not looked at while timer
callbacks are left to run: all of this is the loop's thread. -/
def step (s : Calls Message) : CallsStep → Option (Calls Message)
  | .callMethod u input =>
    if (s.calls u).stage = .ready then some (s.CallMethod chan u input) else none
  | .pushSendMessage u =>
    if (s.calls u).stage = .timed then
      some { s.modify u (fun c => { c with stage := .pushed }) with
        conn := s.conn.pushSendMessage (s.calls u).request u }
    else none
  | .sendMessage =>
    if s.tasks = [] then some { s with conn := s.conn.takeWriteDones } else none
  | .reply rsp_msg =>
    if s.tasks = [] then
      let (conn, invoked) := s.conn.handleReply rsp_msg
      some { invoked.foldl (fun s i => s.replyCallback chan parseFromString i.done i.message) s with
        conn := conn }
    else none
  | .onTime due =>
    if s.tasks = [] ∧ due.Nodup ∧ ∀ u ∈ due, u ∈ s.pending_events_ then
      some { s with
        tasks := due.filter (fun u => !(s.calls u).is_cancled_)
        pending_events_ := s.pending_events_.filter (fun u => u ∉ due) }
    else none
  | .runTask =>
    match s.tasks with
    | [] => none
    | u :: tasks => some ({ s with tasks := tasks }.timerCallback chan u)

variable {chan} {parseFromString} {s s' : Calls Message}

/-- **What a message can do**: nothing, when nobody waits for it, and
otherwise it is given to the callback that was registered for it. -/
theorem step_reply {rsp_msg : TinyPBProtocol}
    (hs : step chan parseFromString s (.reply rsp_msg) = some s') :
    s.tasks = [] ∧
      (s.conn.read_dones_.lookup rsp_msg.msg_id_ = none ∧ s' = s ∨
        ∃ u, s.conn.read_dones_.lookup rsp_msg.msg_id_ = some u ∧
          s' = { s.replyCallback chan parseFromString u rsp_msg with
            conn := s.conn.popReadMessage rsp_msg.msg_id_ }) := by
  rw [step] at hs
  split at hs
  · refine ⟨by assumption, ?_⟩
    cases hlookup : s.conn.read_dones_.lookup rsp_msg.msg_id_ with
    | none =>
      rw [s.conn.handleReply_of_none hlookup] at hs
      exact .inl ⟨rfl, (Option.some.inj hs).symm⟩
    | some u =>
      rw [s.conn.handleReply_of_some hlookup] at hs
      exact .inr ⟨u, rfl, (Option.some.inj hs).symm⟩
  · cases hs

end Calls

end PbRpc
