import LyqtRpc.Lib.StepRun
import LyqtRpc.Lib.ByteMemory
import LyqtRpc.Lib.CppException
import LyqtRpc.Lib.ScopedEnum
import LyqtRpc.Lib.CircularLog
import LyqtRpc.Lib.ChunkStream
import LyqtRpc.Lib.WriterLog
import LyqtRpc.Lib.JsonValue
import LyqtRpc.Lib.Word64
import LyqtRpc.Lib.OrderedMap
import LyqtRpc.Lib.AssocTable
import LyqtRpc.Lib.HashRing
import LyqtRpc.Lib.Departure
import LyqtRpc.Lib.Replies
import LyqtRpc.Lib.Candidates
import LyqtRpc.Lib.SlidingWindow
import LyqtRpc.Lib.Rounds
import LyqtRpc.Fields
import LyqtRpc.RingMachine
import LyqtRpc.RingFifo
import LyqtRpc.RingWakeup
import LyqtRpc.LVProtocol
import LyqtRpc.LVStream
import LyqtRpc.Requestor
import LyqtRpc.RequestorSettle
import LyqtRpc.DiscoverCache
import LyqtRpc.DiscoverAgreement
import LyqtRpc.TopicDispatch
import LyqtRpc.NodeBreaker
import LyqtRpc.RpcCaller
import LyqtRpc.JsonMessage
import LyqtRpc.JsonNoThrow
import LyqtRpc.RpcRouter
import LyqtRpc.ProtoMessage
import LyqtRpc.MessageFactory
import LyqtRpc.MessageAccess
import LyqtRpc.MessageRoundTrip
import LyqtRpc.AsyncLooper
import LyqtRpc.BreakerOpen
import LyqtRpc.LVBoundary
import LyqtRpc.LVPoison
import LyqtRpc.RingProgress
import LyqtRpc.RingHostile
import LyqtRpc.RingWrap
import LyqtRpc.RingSenders
import LyqtRpc.ConsistentHash
import LyqtRpc.ProviderManager
import LyqtRpc.RegistryOffline
import LyqtRpc.CallModes
import LyqtRpc.PendingTable
import LyqtRpc.DiscoverRefresh
import LyqtRpc.EtcdStore
import LyqtRpc.RegistryBackends
import LyqtRpc.RegistryContent
import LyqtRpc.BackendsAgree
import LyqtRpc.EtcdSweep
import LyqtRpc.RegistryFleet
import LyqtRpc.ProviderHeartbeat
import LyqtRpc.LeaderElection
import LyqtRpc.TopicMembership
import LyqtRpc.HttpServer
import LyqtRpc.TokenBucket
import LyqtRpc.BreakerWindow
import LyqtRpc.BreakerProbes
import LyqtRpc.HostSelection
import LyqtRpc.SelectionOrder
import LyqtRpc.SelectionAgrees
import LyqtRpc.SelectionRotation
import LyqtRpc.ProviderMaps
import LyqtRpc.ProviderFrame
import LyqtRpc.RingZeroCopy
import LyqtRpc.RetryLoop
import LyqtRpc.Backoff
import LyqtRpc.ShmLifecycle
import LyqtRpc.MuduoSend
import LyqtRpc.ProtoRouter
import LyqtRpc.BreakerKey
import LyqtRpc.BreakerStore
import LyqtRpc.Lib.Base64
import LyqtRpc.EtcdKeys
import LyqtRpc.EtcdRegister
import LyqtRpc.LeaseKeepalive
import LyqtRpc.ElectionTick
import LyqtRpc.ElectionStop
import LyqtRpc.Advertised
import LyqtRpc.TopicAttributes
import LyqtRpc.PriorityRotation
import LyqtRpc.ClientTopics
import LyqtRpc.HttpLength
import LyqtRpc.RetryHint
import LyqtRpc.Metrics
import LyqtRpc.MetricSeries
import LyqtRpc.MetricsExport
import LyqtRpc.PrefixRange
import LyqtRpc.HistogramExport
import LyqtRpc.Lib.FairRun
import LyqtRpc.LooperProgress
import LyqtRpc.LogPattern
import LyqtRpc.Lib.AppendFiles
import LyqtRpc.RollfileSink
import LyqtRpc.ShmAdmission
import LyqtRpc.Lib.OrderedLink
import LyqtRpc.LVLink
import LyqtRpc.RingLink
import LyqtRpc.Dispacher
import LyqtRpc.RequestorTrace
import LyqtRpc.RpcSystem
import LyqtRpc.RpcDelivery
import LyqtRpc.RpcEndToEnd
import LyqtRpc.Lib.Duplex
import LyqtRpc.TopicSystem
import LyqtRpc.TopicSafety
import LyqtRpc.TopicDelivery
import LyqtRpc.TopicEndToEnd
import LyqtRpc.DiagnoseHandler
import LyqtRpc.HttpResponse
import LyqtRpc.HttpRouter
import LyqtRpc.Gateway
import LyqtRpc.GatewaySafety
import LyqtRpc.GatewayClient
import LyqtRpc.DiagnoseReport
import LyqtRpc.FlatMessage
import LyqtRpc.ZeroCopyRpc
import LyqtRpc.CircuitBreaker
import LyqtRpc.BreakerApart
import LyqtRpc.Lib.DoubleChecked
import LyqtRpc.ClientPool
import LyqtRpc.CarriedMessage
import LyqtRpc.DiscoverManager
import LyqtRpc.RegistryWatch
