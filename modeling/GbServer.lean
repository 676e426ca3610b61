import GbServer.Lib.Bytes
import GbServer.Lib.Framing
import GbServer.Lib.IntervalMap
import GbServer.Lib.UpperBound
import GbServer.Lib.Run
import GbServer.TranBufPool
import GbServer.ReadBuffer
import GbServer.MessageHeader
import GbServer.MessageMeta
import GbServer.StreamReceive
import GbServer.StreamSplit
import GbServer.StreamFraming
import GbServer.StreamBounds
import GbServer.StreamRun
import GbServer.StreamFrames
import GbServer.StreamConsistency
import GbServer.RouteTable
import GbServer.KcpSend
import GbServer.ReceiveLoop
import GbServer.Lib.Varint
import GbServer.WriteBuffer
import GbServer.CompressedStream
import GbServer.SessionSend
import GbServer.MessageData
import GbServer.Lib.FloatBits
import GbServer.MetaRoundTrip
import GbServer.Lib.Stateful
import GbServer.Lib.KeyedMap
import GbServer.MsgpackPacker
import GbServer.MsgpackUnpacker
import GbServer.MsgpackTypes
import GbServer.MsgpackSteps
import GbServer.Lib.Report
import GbServer.MsgpackPlaces
import GbServer.MsgpackDemands
import GbServer.MsgpackLua
import GbServer.LuaSteps
import GbServer.LuaDemands
import GbServer.LuaTermination
import GbServer.LuaBalance
import GbServer.MsgpackReads
import GbServer.MsgpackWrites
import GbServer.MsgpackDecodes
import GbServer.MsgpackRoundTrip
import GbServer.LuaRoundTrip
import GbServer.Worker
import GbServer.Router
import GbServer.RouterFreeze
import GbServer.NetworkDispatch
import GbServer.Lib.Tally
import GbServer.Lib.Threads
import GbServer.RpcCall
import GbServer.RpcCompletion
import GbServer.RpcAuthenticity
import GbServer.RpcHandler
import GbServer.Lib.Encoding
import GbServer.MsgpackEncodes
import GbServer.MsgpackAccepts
import GbServer.MsgpackSoundness
import GbServer.AwaitState
import GbServer.FlowController
import GbServer.ConnectionLimit
import GbServer.Maintain
import GbServer.QuotaWidth
import GbServer.QuotaRelease
import GbServer.KeepAlive
import GbServer.StreamThreads
import GbServer.StreamStatus
import GbServer.StreamPhases
import GbServer.StreamSteady
import GbServer.StreamTokens
import GbServer.SendLedger
import GbServer.QuotaWakeup
import GbServer.SendOutcome
import GbServer.RpcEntries
import GbServer.Lib.Cyclic
import GbServer.RpcSequences
import GbServer.RpcRefusals
import GbServer.RpcTimers
import GbServer.RpcAwaits
import GbServer.RpcCallbacks
import GbServer.MsgpackParams
import GbServer.RpcArguments
import GbServer.Heartbeats
import GbServer.HandlerFreeze
import GbServer.Lib.FloatWiden
import GbServer.TypedLua
import GbServer.CodecAgreement
import GbServer.Lib.Interleaving
import GbServer.ShutdownManager
import GbServer.ShutdownWakeup
import GbServer.ThreadPool
import GbServer.ServerStop
import GbServer.ClientSessions
import GbServer.KcpReceive
import GbServer.KcpListener
import GbServer.WorkerTasks
import GbServer.GracefulShutdown
import GbServer.ThreadAffinity
import GbServer.ShutdownDrain
import GbServer.DbPool
import GbServer.PoolWaiters
import GbServer.PgConnection
import GbServer.PgPipeline
import GbServer.RedisCommands
import GbServer.RedisConnect
import GbServer.NatsInbox
import GbServer.NatsRequests
import GbServer.NatsIsolation
import GbServer.NatsSubscriptions
import GbServer.NatsValues
import GbServer.ProtobufLua
import GbServer.ProtobufRoundTrip
import GbServer.ProtobufSimulation
import GbServer.ScriptStack
import GbServer.RouteReclamation
import GbServer.ExecutorAffinity
import GbServer.KcpConnections
import GbServer.ListenRecovery
import GbServer.KcpConfinement
import GbServer.SessionOrder
import GbServer.BlockCounts
import GbServer.Lib.DecimalText
import GbServer.RedisScores
import GbServer.ProtobufDepth
import GbServer.TimerManager
import GbServer.TimerHistory
import GbServer.TimerUpdates
import GbServer.TimerTermination
import GbServer.TimerShutdown
import GbServer.TimerDeadlines
import GbServer.WriteList
import GbServer.ReadCursor
import GbServer.BlockInput
import GbServer.BlockRoundTrip
import GbServer.NatsLua
import GbServer.ConnString
import GbServer.EntityBinding
import GbServer.QueryParams
