import ResiliencyExt.Attribution.CacheFreshness
import ResiliencyExt.Attribution.CountedVerdicts
import ResiliencyExt.Attribution.EscapeGlob
import ResiliencyExt.Attribution.JobClassification
import ResiliencyExt.Attribution.RestartAgent.AttemptHistory
import ResiliencyExt.Attribution.RestartAgent.BlindRestarts
import ResiliencyExt.Attribution.RestartAgent.Ingestion
import ResiliencyExt.Attribution.RestartAgent.InvocationRuns
import ResiliencyExt.Attribution.RestartAgent.MoreProgress
import ResiliencyExt.Attribution.RestartAgent.Normalization
import ResiliencyExt.Attribution.RestartAgent.RecoverySupport
import ResiliencyExt.Attribution.RestartAgent.ToolAnswers
import ResiliencyExt.Attribution.RestartAgent.ToolLoopRuns
import ResiliencyExt.Attribution.SingleFlight
import ResiliencyExt.Attribution.SplitlogTracker
import ResiliencyExt.Attribution.Straggler.CircularBuffer
import ResiliencyExt.Attribution.Straggler.Detector
import ResiliencyExt.Attribution.TraceAnalyzer.WindowCoverage
import ResiliencyExt.Checkpointing.AsyncCkpt.Abort
import ResiliencyExt.Checkpointing.AsyncCkpt.AllRanks
import ResiliencyExt.Checkpointing.AsyncCkpt.CachedPlanning
import ResiliencyExt.Checkpointing.AsyncCkpt.CoherentPreload
import ResiliencyExt.Checkpointing.AsyncCkpt.Pairing
import ResiliencyExt.Checkpointing.AsyncCkpt.SaveFinalize
import ResiliencyExt.Checkpointing.Local.BasicStateDict
import ResiliencyExt.Checkpointing.Local.CrashResidue
import ResiliencyExt.Checkpointing.Local.LoadLatest
import ResiliencyExt.Checkpointing.Local.LoadableCheckpoint
import ResiliencyExt.Checkpointing.Local.OneAttempt
import ResiliencyExt.Checkpointing.Replication.GroupSequence
import ResiliencyExt.Checkpointing.Replication.GroupWrapper
import ResiliencyExt.FaultTolerance.CycleInfo.ActiveRanks
import ResiliencyExt.FaultTolerance.CycleInfo.Complete
import ResiliencyExt.FaultTolerance.PerCycleLogs.CycleStreams
import ResiliencyExt.FaultTolerance.ProgressTracker
import ResiliencyExt.FaultTolerance.RankMonitor.CalibratedTimeouts
import ResiliencyExt.FaultTolerance.RankMonitor.Connections
import ResiliencyExt.FaultTolerance.RankMonitor.SectionLink
import ResiliencyExt.FaultTolerance.Rendezvous.EligibleSlots
import ResiliencyExt.FaultTolerance.Rendezvous.FencedCalls
import ResiliencyExt.FaultTolerance.Rendezvous.LastCallGate
import ResiliencyExt.FaultTolerance.Rendezvous.NoRestart
import ResiliencyExt.FaultTolerance.Rendezvous.RestartBudget
import ResiliencyExt.FaultTolerance.Rendezvous.RoundMonotone
import ResiliencyExt.FaultTolerance.Rendezvous.SlotSnapshot
import ResiliencyExt.FaultTolerance.Rendezvous.UnhealthyGroups
import ResiliencyExt.HealthCheck.NicMapping
import ResiliencyExt.Inprocess.FillGaps
import ResiliencyExt.Inprocess.GroupedFilterAgreement
import ResiliencyExt.Inprocess.IterationAgreement
import ResiliencyExt.Inprocess.ReentrantBarrier
import ResiliencyExt.Inprocess.ReserveReplacement
import ResiliencyExt.Inprocess.ShiftOrder
import ResiliencyExt.Inprocess.SiblingMonitor
import ResiliencyExt.Inprocess.TreeBounds
import ResiliencyExt.Inprocess.TreePropagation
import ResiliencyExt.LogAggregation.FailedFlush
import ResiliencyExt.LogAggregation.Relay
import ResiliencyExt.Services.Smonsvc.PathRoutes
import ResiliencyExt.Services.Smonsvc.SlurmPatterns
