import Rblib.Library.OracleTrace
import Rblib.Pipelines.Tree
import Rblib.Pipelines.Navigator
import Rblib.Pipelines.Structured
import Rblib.Pipelines.Location
import Rblib.Pipelines.Obstruction
import Rblib.Pipelines.Simulation
import Rblib.Pipelines.Refinement
import Rblib.Pipelines.Pruning
import Rblib.Pipelines.Transparency
import Rblib.Platform.Limits
import Rblib.Platform.Clamp
import Rblib.Pipelines.Limits
import Rblib.Pipelines.Scope
import Rblib.Pipelines.Executor
import Rblib.Pipelines.Reachable
import Rblib.Pipelines.ScopeTree
import Rblib.Pipelines.ScopeRuns
import Rblib.Pipelines.ExecutorRuns
import Rblib.Pipelines.ScopeLimits
import Rblib.Payload.State
import Rblib.Platform.Bundle
import Rblib.Payload.Exec
import Rblib.Payload.Checkpoint
import Rblib.Payload.Reads
import Rblib.Orderpool2.PoolInvariant
import Rblib.Orderpool2.PoolSteps
import Rblib.Pool.AppendOrders
import Rblib.Pool.Jobs
import Rblib.Library.MultiMap
import Rblib.Steps.Ordering
import Rblib.Payload.Nonces
import Rblib.Steps.OrderingDrain
import Rblib.Steps.OrderingCorrect
import Rblib.Library.EraseFirst
import Rblib.Payload.BundleRun
import Rblib.Platform.BundleHash
import Rblib.Library.ReadThrough
import Rblib.Payload.CachedState
import Rblib.Payload.CacheCoherence
import Rblib.Payload.BaseState
import Rblib.Pipelines.Entries
import Rblib.Pipelines.Iter
import Rblib.Pipelines.JobGuarantees
import Rblib.Pipelines.Reentry
import Rblib.Payload.NonceRuns
import Rblib.Steps.OrderingReapply
import Rblib.Pipelines.PayloadRuns
import Rblib.Orderpool2.Step
import Rblib.Steps.Revert
import Rblib.Steps.BlockEnds
import Rblib.Steps.Combinators
import Rblib.Steps.Barriers
import Rblib.Pool.OrderPool
import Rblib.Pool.OrderIndex
import Rblib.Pool.Interleaving
import Rblib.Orderpool2.SimTree
import Rblib.Orderpool2.SimTreeState
import Rblib.Orderpool2.SimTreeSteps
import Rblib.Orderpool2.SimTreeRuns
import Rblib.Orderpool2.StepRuns
import Rblib.Library.LoopCount
import Rblib.Pipelines.Iterations
import Rblib.Pool.AppendRuns
import Rblib.Payload.EmptyBundles
import Rblib.Payload.Span
import Rblib.Steps.RevertCorrect
import Rblib.Pipelines.Unfold
import Rblib.Steps.ChainRuns
import Rblib.Steps.ChainItems
import Rblib.Pool.LimitRuns
import Rblib.Pool.StopReasons
import Rblib.Steps.GasLimit
import Rblib.Steps.OrderingBest
import Rblib.Steps.OrderingReuse
import Rblib.Library.HiddenSteps
import Rblib.Library.FirstOfGroup
import Rblib.Orderpool2.Entries
import Rblib.Orderpool2.PoolUpdates
import Rblib.Orderpool2.PoolRemovals
import Rblib.Orderpool2.ReadyBundles
import Rblib.Library.FixedWidth
import Rblib.Platform.BundleExt
import Rblib.Orderpool2.EffectiveGasPrice
import Rblib.Platform.BundleEncoding
import Rblib.Payload.BundleClasses
import Rblib.Platform.BundleWindow
import Rblib.Library.ParentChain
import Rblib.Payload.SpanBetween
import Rblib.Steps.AtomicRuns
import Rblib.Library.Agreement
import Rblib.Platform.Optimism
import Rblib.Platform.FixedTransactions
import Rblib.Orderpool2.SimTreeErrors
import Rblib.Library.FirstMax
import Rblib.Orderpool2.SimTreeParents
import Rblib.Library.InvertedIndex
import Rblib.Pool.IndexExact
import Rblib.Pipelines.RecordedPayloads
import Rblib.Pool.SystemPool
import Rblib.Payload.SealedHistory
import Rblib.Steps.RevertCounters
import Rblib.Pool.IncludedCounters
import Rblib.Pipelines.ActiveScopes
import Rblib.Library.Journal
import Rblib.Payload.Assembled
import Rblib.Payload.Replay
import Rblib.Orderpool2.HeldOrders
import Rblib.Pipelines.JobRuns
import Rblib.Steps.OrderSources
import Rblib.Steps.ReplayedRuns
import Rblib.Steps.SequencerRuns
import Rblib.Library.HeldSince
import Rblib.Library.SharedFuture
import Rblib.Pool.Node
import Rblib.Pipelines.JobFutures
import Rblib.Pipelines.RootEpilogue
import Rblib.Steps.BundleRuns
import Rblib.Steps.ReservedGas
import Rblib.Payload.SharedCache
import Rblib.Pipelines.CachedJobs
import Rblib.Steps.OrderingCanonical
import Rblib.Library.Broadcast
import Rblib.Pipelines.EventsBus
import Rblib.Pool.LoopingJobs
