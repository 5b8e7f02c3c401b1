import PbRpc.MachineInt

/-!
# Errors and the controller of a call

The error codes of the system with their texts, and `RpcController`, the
object in which a call keeps its id, its timeout and how it failed.
-/

namespace PbRpc

/-! ## Error codes -/

def ERROR_PEER_CLOSED : Int32 := 10000000
def ERROR_FAILED_CONNECT : Int32 := 10000001
def ERROR_FAILED_GET_REPLY : Int32 := 10000002
def ERROR_FAILED_DESERIALIZE : Int32 := 10000003
def ERROR_FAILED_SERIALIZE : Int32 := 10000004
def ERROR_FAILED_ENCODE : Int32 := 10000005
def ERROR_FAILED_DECODE : Int32 := 10000006
def ERROR_RPC_CALL_TIMEOUT : Int32 := 10000007
def ERROR_SERVICE_NOT_FOUND : Int32 := 10000008
def ERROR_METHOD_NOT_FOUND : Int32 := 10000009
def ERROR_PARSE_SERVICE_NAME : Int32 := 10000010
def ERROR_RPC_CHANNEL_INIT : Int32 := 10000011
def ERROR_RPC_PEER_ADDR : Int32 := 10000012

/-- The table `errorInfo_`. -/
def errorInfo_ : List (Int32 × Bytes) :=
  [(ERROR_PEER_CLOSED, Bytes.ofString "peer closed"),
    (ERROR_FAILED_CONNECT, Bytes.ofString "connect error"),
    (ERROR_FAILED_GET_REPLY, Bytes.ofString "get reply error"),
    (ERROR_FAILED_DESERIALIZE, Bytes.ofString "deserilize error"),
    (ERROR_FAILED_SERIALIZE, Bytes.ofString "serilize error"),
    (ERROR_FAILED_ENCODE, Bytes.ofString "encode error"),
    (ERROR_FAILED_DECODE, Bytes.ofString "decode error"),
    (ERROR_RPC_CALL_TIMEOUT, Bytes.ofString "rpc call timeout"),
    (ERROR_SERVICE_NOT_FOUND, Bytes.ofString "service not found"),
    (ERROR_METHOD_NOT_FOUND, Bytes.ofString "method not found"),
    (ERROR_PARSE_SERVICE_NAME, Bytes.ofString "parse service name error"),
    (ERROR_RPC_CHANNEL_INIT, Bytes.ofString "rpcChannel init error"),
    (ERROR_RPC_PEER_ADDR, Bytes.ofString "peer addr error")]

def getErrorInfo (errorCode : Int32) : Bytes :=
  (errorInfo_.lookup errorCode).getD (Bytes.ofString "unknow error")

/-! ## The controller -/

/-- An address, as the text of its ip and its port. -/
structure InterAddress where
  ip : Bytes := []
  port : UInt16 := 0
deriving DecidableEq, Repr

/-- **The controller of a call.** -/
structure RpcController where
  error_code_ : Int32 := 0
  error_info_ : Bytes := []
  msg_id_ : Bytes := []
  is_failed_ : Bool := false
  is_cancle_ : Bool := false
  peer_addr_ : InterAddress := {}
  time_out_ : ℤ := 1000
deriving DecidableEq, Repr

namespace RpcController

def SetFailed (c : RpcController) (reason : Bytes) : RpcController :=
  { c with is_failed_ := true, error_info_ := reason }

def SetError (c : RpcController) (error_code : Int32) (error_info : Bytes) : RpcController :=
  { c with error_code_ := error_code }.SetFailed error_info

def StartCancel (c : RpcController) : RpcController := { c with is_cancle_ := true }

def SetMsgId (c : RpcController) (msg_id : Bytes) : RpcController := { c with msg_id_ := msg_id }

def SetPeerAddr (c : RpcController) (addr : InterAddress) : RpcController :=
  { c with peer_addr_ := addr }

end RpcController

end PbRpc
