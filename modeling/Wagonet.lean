import Wagonet.Library.Machine
import Wagonet.Library.Task
import Wagonet.Library.Stream
import Wagonet.Library.Watch
import Wagonet.Library.ByteVec
import Wagonet.ServerTransport
import Wagonet.RequestStatus
import Wagonet.ProtocolHandler
import Wagonet.ConnectionHandler
import Wagonet.ConnectionShutdown
import Wagonet.HeaderDeadline
import Wagonet.Server
import Wagonet.AcceptLoop
import Wagonet.Library.Conversation
import Wagonet.ClientExchange
import Wagonet.ServerScripts
import Wagonet.ClientScripts
import Wagonet.Session
import Wagonet.SessionPlan
import Wagonet.SessionSafety
import Wagonet.SessionProgress
import Wagonet.SessionCorrect
import Wagonet.Library.Discipline
import Wagonet.ClientOperations
import Wagonet.ClientRuntime
import Wagonet.ClientDiscipline
import Wagonet.SharedStream
import Wagonet.ConnectionReuse
import Wagonet.Library.LockOrder
import Wagonet.ClientSteps
import Wagonet.LockOrder
import Wagonet.ConnectionPermits
import Wagonet.DrainLoop
import Wagonet.DrainTimeout
import Wagonet.Library.Polling
import Wagonet.PingSchedule
import Wagonet.ClientRefinement
import Wagonet.WholeExchanges
import Wagonet.ExchangeRuns
import Wagonet.AbandonedRequest
import Wagonet.StalePing
import Wagonet.OneExchange
import Wagonet.Library.Alike
import Wagonet.SameExchange
import Wagonet.Library.Leaves
import Wagonet.Segmentation
import Wagonet.Library.Operations
import Wagonet.ClientUses
import Wagonet.DeclaredSize
import Wagonet.PingReply
import Wagonet.Disconnects
import Wagonet.Acknowledged
import Wagonet.TransportFailures
import Wagonet.PingControl
import Wagonet.FreshConnections
import Wagonet.DisabledPings
import Wagonet.TaskLocks
import Wagonet.OnePingTask
import Wagonet.ClientLife
import Wagonet.Tending
import Wagonet.TendedTasks
import Wagonet.PingCoverage
import Wagonet.PingClamp
import Wagonet.ClientSettings
import Wagonet.SettingsInStep
import Wagonet.ClientUse
import Wagonet.AnswerMode
import Wagonet.WireFormat
import Wagonet.Library.Delivery
import Wagonet.ExactRead
import Wagonet.SilentServer
import Wagonet.ReservedBuffers
import Wagonet.Library.Link
import Wagonet.TurnReplies
import Wagonet.ServedCycles
import Wagonet.CallLog
import Wagonet.Transcript
import Wagonet.ServedExchanges
import Wagonet.EndToEnd
import Wagonet.Library.Suspended
import Wagonet.Service
import Wagonet.Library.View
import Wagonet.ServerSystem
import Wagonet.IdempotentShutdown
import Wagonet.Deployment
import Wagonet.ServedStream
