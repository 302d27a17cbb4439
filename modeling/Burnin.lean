import Burnin.Lib.Past
import Burnin.Lib.Gap
import Burnin.Lib.Machine
import Burnin.Lib.Loop
import Burnin.Lib.Rotating
import Burnin.Lib.Credit
import Burnin.Lib.Text
import Burnin.Lib.Weighted
import Burnin.Lib.Json
import Burnin.Lib.Words
import Burnin.Lib.Shift
import Burnin.Lib.FanOut
import Burnin.Lib.Held
import Burnin.Lib.Settle
import Burnin.Lib.Call
import Burnin.Bitset
import Burnin.Tracker
import Burnin.TrackerFacts
import Burnin.TrackerHistory
import Burnin.TrackerInvariant
import Burnin.TrackerReorder
import Burnin.TrackerShift
import Burnin.TrackerArithmetic
import Burnin.TrackerDeltas
import Burnin.Config
import Burnin.Payload
import Burnin.SizeDistribution
import Burnin.Verdict
import Burnin.Report
import Burnin.VerdictFacts
import Burnin.VerdictMonotone
import Burnin.ReportChecks
import Burnin.Engine
import Burnin.EngineFacts
import Burnin.Durations
import Burnin.RunConfig
import Burnin.Server
import Burnin.SubTracker
import Burnin.SubTrackerFacts
import Burnin.Metrics
import Burnin.Worker
import Burnin.WorkerFacts
import Burnin.Loss
import Burnin.Rpc
import Burnin.RpcFacts
import Burnin.RpcAccounting
import Burnin.RpcReplies
import Burnin.RpcChannel
import Burnin.Props
import Burnin.Group
import Burnin.RateWindows
import Burnin.Counting
import Burnin.Corruption
import Burnin.Undisturbed
import Burnin.EventsChannel
import Burnin.Consistent
import Burnin.Isolation
import Burnin.Memory
import Burnin.Process
import Burnin.Termination
import Burnin.Drain
import Burnin.Consumers
import Burnin.Settlement
import Burnin.Connections
import Burnin.Fleet
import Burnin.Measurement
import Burnin.Outcome
import Burnin.Shutdown
import Burnin.Reporting
import Burnin.CreditFlow
import Burnin.CreditFlowFacts
