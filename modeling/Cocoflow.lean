import Cocoflow.LabelledRuns
import Cocoflow.PointUpdates
import Cocoflow.TaskPool
import Cocoflow.Scheduler
import Cocoflow.SchedulerNest
import Cocoflow.SchedulerLocal
import Cocoflow.SchedulerSteps
import Cocoflow.SchedulerCalls
import Cocoflow.SchedulerObjects
import Cocoflow.SchedulerCancel
import Cocoflow.SchedulerSwitch
import Cocoflow.SchedulerFinish
import Cocoflow.SchedulerRuns
import Cocoflow.SchedulerFrame
import Cocoflow.SchedulerContracts
import Cocoflow.SchedulerIds
import Cocoflow.SchedulerUnwinding
import Cocoflow.SchedulerWrites
import Cocoflow.SchedulerProgress
import Cocoflow.SchedulerWaits
import Cocoflow.SchedulerLives
import Cocoflow.SchedulerStages
import Cocoflow.ChainCancellation
import Cocoflow.PooledScheduler
import Cocoflow.AwaitContracts
import Cocoflow.ThreadScheduler
import Cocoflow.ThreadErasure
import Cocoflow.ThreadRefinement
import Cocoflow.PoolIndependence
import Cocoflow.PooledRefinement
import Cocoflow.TcpConnection
import Cocoflow.LengthFraming
import Cocoflow.PacketFraming
import Cocoflow.ReferenceFraming
import Cocoflow.FirstMatch
import Cocoflow.RecvTill
import Cocoflow.ByteConservation
import Cocoflow.DeferredCleanup
import Cocoflow.OneShotReceive
import Cocoflow.StableMultimap
import Cocoflow.Sequencer
import Cocoflow.UdpSocket
import Cocoflow.UdpRouting
import Cocoflow.SeqBoard
import Cocoflow.SeqFront
import Cocoflow.TcpBinding
import Cocoflow.TcpBreaking
import Cocoflow.BrokenReceivers
import Cocoflow.TcpSequencing
import Cocoflow.SeqDispatch
import Cocoflow.StreamDispatch
import Cocoflow.ReceiverTurns
import Cocoflow.SeqCancel
import Cocoflow.TcpAccept
import Cocoflow.PlainReceive
import Cocoflow.SoleReceiver
import Cocoflow.HttpResponse
import Cocoflow.TextLines
import Cocoflow.HttpHead
import Cocoflow.HttpGrammar
import Cocoflow.HttpWalk
import Cocoflow.HttpHalting
import Cocoflow.HttpClient
import Cocoflow.HttpChunkBounds
import Cocoflow.HttpBody
import Cocoflow.HttpOutcome
import Cocoflow.HttpTransfer
import Cocoflow.HttpPursuit
import Cocoflow.HttpDelivery
import Cocoflow.HttpOverlong
import Cocoflow.UrlParse
import Cocoflow.UrlPieces
import Cocoflow.UrlGrammar
import Cocoflow.UrlPort
import Cocoflow.HttpRequest
import Cocoflow.RequestReading
import Cocoflow.PatternCompletion
import Cocoflow.ReadWindow
import Cocoflow.BoundedMemory
import Cocoflow.BufferMemory
import Cocoflow.BufferSafety
import Cocoflow.UdpDelivery
import Cocoflow.SyncTasks
import Cocoflow.SyncWakeups
import Cocoflow.TaskTables
import Cocoflow.IntervalTiling
import Cocoflow.StackLayout
import Cocoflow.RedisConnection
import Cocoflow.RedisTimers
import Cocoflow.RedisBackoff
import Cocoflow.RedisCommands
import Cocoflow.RedisReplies
import Cocoflow.PrimitiveTasks
import Cocoflow.PrimitiveLinks
import Cocoflow.AddressLookups
import Cocoflow.SleepTimers
import Cocoflow.PrimitivePrograms
import Cocoflow.SleepPrograms
import Cocoflow.TcpStreams
import Cocoflow.TcpSeats
