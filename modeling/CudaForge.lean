import CudaForge.PythonBuiltins
import CudaForge.ExceptionState
import CudaForge.TransitionRuns
import CudaForge.EventHistories
import CudaForge.CeilDivision
import CudaForge.KeyedTables
import CudaForge.CacheBlocks
import CudaForge.CacheManager
import CudaForge.CacheInvariant
import CudaForge.CacheReservation
import CudaForge.CachePlacement
import CudaForge.CacheNative
import CudaForge.CacheScripts
import CudaForge.GenerationSettings
import CudaForge.SpeculativeGreedy
import CudaForge.SpeculativeSampling
import CudaForge.ContinuousScheduler
import CudaForge.SchedulerEffects
import CudaForge.SchedulerLedger
import CudaForge.RunnerProtocol
import CudaForge.GrowthPass
import CudaForge.CacheBooks
import CudaForge.SubmissionQueue
import CudaForge.ContinuousShutdown
import CudaForge.DynamicBatching
import CudaForge.DynamicShutdown
import CudaForge.AliveSequences
import CudaForge.PaidSteps
import CudaForge.WorkConservation
import CudaForge.ConcurrentQueue
import CudaForge.QueueOrder
import CudaForge.QueueWakeups
import CudaForge.NativeBatcher
import CudaForge.NativeShutdown
import CudaForge.FutureRegistry
import CudaForge.SettledFutures
import CudaForge.ServingEngines
import CudaForge.BatchExecution
import CudaForge.CancelledFutures
import CudaForge.FailingCalls
import CudaForge.FailingRunner
import CudaForge.RunnerFailures
import CudaForge.ListScheduling
import CudaForge.HalvedRefills
import CudaForge.EchoRunner
import CudaForge.StaticBatching
import CudaForge.EchoSchedule
import CudaForge.StepComparison
import CudaForge.BatchTensors
import CudaForge.TokenSampling
import CudaForge.StepwiseRunner
import CudaForge.RunnerTables
import CudaForge.SequenceCourses
import CudaForge.RunnerSteps
import CudaForge.BatchInvariance
import CudaForge.DeferredRequests
import CudaForge.PoolDrain
import CudaForge.BlockReductions
import CudaForge.OnlineSoftmax
import CudaForge.PagedAttention
import CudaForge.AttentionLayout
import CudaForge.BatchGeneration
import CudaForge.IngressCounters
import CudaForge.ReplicatedSnapshot
import CudaForge.NativeRuns
import CudaForge.RefusedReservations
import CudaForge.EvictionOrder
import CudaForge.ReservationFeasibility
import CudaForge.VictimOrder
import CudaForge.NativeEvictions
import CudaForge.ShortestEvictions
import CudaForge.NewestAdmissions
import CudaForge.TokenLedger
import CudaForge.WordReservations
import CudaForge.EstimatedRequests
import CudaForge.BlockSharing
import CudaForge.PoolConformance
import CudaForge.QueueExceptions
import CudaForge.BatchFormation
import CudaForge.CollectorTimelines
import CudaForge.WorkerTimelines
import CudaForge.FormationLaw
import CudaForge.BatchCounters
import CudaForge.ExecuteOutcomes
import CudaForge.RowDistributions
import CudaForge.SamplingAgreement
import CudaForge.AcceptanceExpectation
import CudaForge.SamplingFailures
import CudaForge.NativeHistogram
import CudaForge.BisectedLists
import CudaForge.LatencyWindow
import CudaForge.MemoryAccounts
import CudaForge.InterruptedLoops
import CudaForge.TrainingLoop
import CudaForge.GradientAccumulation
import CudaForge.ThreadPhases
import CudaForge.SoftmaxKernels
import CudaForge.BarrierPrograms
import CudaForge.LoraKernels
import CudaForge.LoraAgreement
import CudaForge.SharedBudgets
import CudaForge.CyclicTurns
import CudaForge.EscapedText
import CudaForge.ReplicaRouting
import CudaForge.TextExposition
import CudaForge.HalvingTrees
import CudaForge.SumReductions
import CudaForge.ElementwiseLaunches
import CudaForge.LoggedPrograms
import CudaForge.SpeculativeRequests
import CudaForge.CommentStripping
import CudaForge.SpeculativeHistories
import CudaForge.CudaHandles
import CudaForge.GpuScheduler
import CudaForge.LoraMerging
import CudaForge.NormKernels
import CudaForge.PackedDatasets
import CudaForge.ReducedSoftmax
import CudaForge.SpeculativeCounters
import CudaForge.TensorCoreProducts
import CudaForge.ServingConfiguration
import CudaForge.EvaluationLoss
import CudaForge.LintRules
import CudaForge.PooledStreams
import CudaForge.NormOperators
