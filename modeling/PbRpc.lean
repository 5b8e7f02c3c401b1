import PbRpc.BigEndian
import PbRpc.Framing
import PbRpc.Loop
import PbRpc.Fifo
import PbRpc.MachineInt
import PbRpc.Buffer
import PbRpc.TinyPBCoder
import PbRpc.DecodeScan
import PbRpc.DecodeFrame
import PbRpc.DecodeMisfit
import PbRpc.DecodeBlocks
import PbRpc.DecodeStream
import PbRpc.CxxString
import PbRpc.RpcController
import PbRpc.RpcDispatcher
import PbRpc.ServerNode
import PbRpc.RpcServerList
import PbRpc.Transition
import PbRpc.Connection
import PbRpc.BufferFifo
import PbRpc.ConnectionPair
import PbRpc.WriteInterest
import PbRpc.ServerOutput
import PbRpc.EventLoop
import PbRpc.RpcChannel
import PbRpc.CallLife
import PbRpc.CallTimeout
import PbRpc.PriorityQueue
import PbRpc.ServerNodeQueue
import PbRpc.KeyedLog
import PbRpc.Census
import PbRpc.RpcDiscovery
import PbRpc.ThreadPool
import PbRpc.ClientTables
import PbRpc.GetConnection
import PbRpc.Keepalive
import PbRpc.Heartbeat
import PbRpc.ServerLookup
import PbRpc.ServerNotifications
import PbRpc.ThreadPoolStop
import PbRpc.SharedChannel
import PbRpc.ConnectionOwners
import PbRpc.OnMessage
import PbRpc.ReadBeforeClose
import PbRpc.ClientLoop
import PbRpc.EntryStream
import PbRpc.ServerTimeout
import PbRpc.RegistryKey
import PbRpc.DispatchCalls
import PbRpc.ConnectDecision
import PbRpc.BufferInts
import PbRpc.MsgIdUtil
import PbRpc.ServerNodeHeap
import PbRpc.TimerRuns
import PbRpc.TimerArming
import PbRpc.TimerSteps
import PbRpc.ReplyOrder
import PbRpc.DecodeReads
import PbRpc.ClientLocks
import PbRpc.GeneratedMessage
import PbRpc.OrderMessages
import PbRpc.OrderService
import PbRpc.PoolWork
import PbRpc.LoopThreads
import PbRpc.ServerConnections
import PbRpc.MakeOrder
