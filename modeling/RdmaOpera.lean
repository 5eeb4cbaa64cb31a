import RdmaOpera.Lib.Prog
import RdmaOpera.Lib.System
import RdmaOpera.Lib.Bytes
import RdmaOpera.Lib.Termination
import RdmaOpera.Lib.Growth
import RdmaOpera.Lib.Matching
import RdmaOpera.Lib.Text
import RdmaOpera.Lib.Pattern
import RdmaOpera.Lib.Scan
import RdmaOpera.Lib.Rank
import RdmaOpera.Lib.Range
import RdmaOpera.Lib.Stores
import RdmaOpera.Parameters
import RdmaOpera.Options
import RdmaOpera.OptionGrammar
import RdmaOpera.OptionOrder
import RdmaOpera.Reports
import RdmaOpera.Warmup
import RdmaOpera.OrderStatistics
import RdmaOpera.Verbs
import RdmaOpera.Wire
import RdmaOpera.RandomFill
import RdmaOpera.Rdma
import RdmaOpera.RdmaMain
import RdmaOpera.ControlMain
import RdmaOpera.MpiMain
import RdmaOpera.Checksum
import RdmaOpera.MpiWorld
import RdmaOpera.MpiRounds
import RdmaOpera.MpiRank
import RdmaOpera.MpiMatching
import RdmaOpera.MpiPosts
import RdmaOpera.MpiBroadcast
import RdmaOpera.MpiContent
import RdmaOpera.MpiFlow
import RdmaOpera.MpiProgress
import RdmaOpera.MpiAgreement
import RdmaOpera.MpiStability
import RdmaOpera.MpiCompletion
import RdmaOpera.MpiIsolation
import RdmaOpera.MpiSyncPacket
import RdmaOpera.OperaLaunch
import RdmaOpera.ResultScript
import RdmaOpera.CrossCheck
import RdmaOpera.LatencyTable
import RdmaOpera.ThroughputTable
import RdmaOpera.TaggedLogs
import RdmaOpera.RoundStatistics
import RdmaOpera.TimingGroups
import RdmaOpera.OperaTraffic
import RdmaOpera.RdmaRules
import RdmaOpera.CallKinds
import RdmaOpera.ExitStatus
import RdmaOpera.Completions
import RdmaOpera.FailureCounts
import RdmaOpera.CompletionBatches
import RdmaOpera.Timestamps
import RdmaOpera.ControlRounds
import RdmaOpera.ControlReport
import RdmaOpera.Pacing
import RdmaOpera.SendQueue
import RdmaOpera.Regions
import RdmaOpera.Connection
import RdmaOpera.Delivery
import RdmaOpera.History
import RdmaOpera.Plan
import RdmaOpera.Exchange
import RdmaOpera.AddressExchange
import RdmaOpera.Handshake
import RdmaOpera.WireFormat
import RdmaOpera.Buffers
import RdmaOpera.SizeArithmetic
import RdmaOpera.Slots
import RdmaOpera.ExecPlan
import RdmaOpera.ExecRun
import RdmaOpera.EndMarker
import RdmaOpera.DataTransfers
import RdmaOpera.Progress
import RdmaOpera.Steady
import RdmaOpera.DataAgreement
import RdmaOpera.ExecCalls
import RdmaOpera.ExecReturn
import RdmaOpera.ExecCompletion
import RdmaOpera.ControlPlan
import RdmaOpera.ControlCalls
import RdmaOpera.ControlReturn
import RdmaOpera.ControlDelivery
import RdmaOpera.ControlCompletion
import RdmaOpera.SendOrder
import RdmaOpera.DigestTrust
import RdmaOpera.Allocation
import RdmaOpera.ControlPackets
import RdmaOpera.Deallocation
import RdmaOpera.Ledger
import RdmaOpera.ControlLedger
import RdmaOpera.Logging
