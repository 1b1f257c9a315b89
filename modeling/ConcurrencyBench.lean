import ConcurrencyBench.Runs
import ConcurrencyBench.Threads
import ConcurrencyBench.Logs
import ConcurrencyBench.Channel
import ConcurrencyBench.WaitSets
import ConcurrencyBench.SemaphoreQueue
import ConcurrencyBench.SemaphoreTokens
import ConcurrencyBench.SemaphoreOrder
import ConcurrencyBench.SemaphoreProgress
import ConcurrencyBench.SemaphoreCalls
import ConcurrencyBench.SemaphoreConservation
import ConcurrencyBench.SemaphoreSinglePass
import ConcurrencyBench.SemaphoreExceptions
import ConcurrencyBench.SemaphoreSession
import ConcurrencyBench.SemaphoreDelivery
import ConcurrencyBench.ThreadPool
import ConcurrencyBench.ThreadPoolTasks
import ConcurrencyBench.ThreadPoolWakeups
import ConcurrencyBench.ThreadPoolShutdown
import ConcurrencyBench.ManualBarrier
import ConcurrencyBench.BarrierRounds
import ConcurrencyBench.TimerService
import ConcurrencyBench.Coroutines
import ConcurrencyBench.CoroutineTasks
import ConcurrencyBench.CoroutineFrames
import ConcurrencyBench.BarrierProgress
import ConcurrencyBench.Spinlock
import ConcurrencyBench.PCCondVar
import ConcurrencyBench.PCCondVarSession
import ConcurrencyBench.TimerSession
import ConcurrencyBench.TimerResumptions
import ConcurrencyBench.TimerSleep
import ConcurrencyBench.CoroutineTraces
import ConcurrencyBench.CoroutineCompletion
import ConcurrencyBench.ContentionWindow
import ConcurrencyBench.PromiseFuture
import ConcurrencyBench.Barriers
import ConcurrencyBench.PhaseStarts
import ConcurrencyBench.PhaseOffsets
import ConcurrencyBench.CheckedArithmetic
import ConcurrencyBench.Workloads
import ConcurrencyBench.Throughput
import ConcurrencyBench.Dispersion
import ConcurrencyBench.Doubles
import ConcurrencyBench.Fairness
import ConcurrencyBench.Documents
import ConcurrencyBench.DecisionMatrix
import ConcurrencyBench.ResultFiles
import ConcurrencyBench.FirstChoice
import ConcurrencyBench.RowSelection
import ConcurrencyBench.MatrixEntries
import ConcurrencyBench.AnalysisReport
import ConcurrencyBench.Iterations
import ConcurrencyBench.VarianceTracker
import ConcurrencyBench.BinarySemaphoreVsMutex
import ConcurrencyBench.ArrivalPattern
import ConcurrencyBench.ConsumerShares
import ConcurrencyBench.QuotaFairness
import ConcurrencyBench.AtomicObjects
import ConcurrencyBench.ReadWriteData
import ConcurrencyBench.ArrivalSpread
import ConcurrencyBench.BarrierCompletion
import ConcurrencyBench.ReadWriteAtomic
import ConcurrencyBench.ReadWriteBenchmarks
import ConcurrencyBench.AsyncFutures
import ConcurrencyBench.ThreadPoolSession
import ConcurrencyBench.MatrixSchema
import ConcurrencyBench.WindowSettling
import ConcurrencyBench.CounterBenchmarks
import ConcurrencyBench.Affinity
import ConcurrencyBench.PCCondVarItems
