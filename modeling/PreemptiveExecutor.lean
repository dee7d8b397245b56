import PreemptiveExecutor.Theory.UnorderedMap
import PreemptiveExecutor.Theory.Loop
import PreemptiveExecutor.Theory.DepthFirst
import PreemptiveExecutor.Theory.Search
import PreemptiveExecutor.Theory.Acyclic
import PreemptiveExecutor.Theory.OrderedMultimap
import PreemptiveExecutor.Theory.Numbering
import PreemptiveExecutor.Theory.Transition
import PreemptiveExecutor.Theory.ThreadPool
import PreemptiveExecutor.Theory.Drain
import PreemptiveExecutor.Workers.Model
import PreemptiveExecutor.Workers.Steps
import PreemptiveExecutor.Workers.Tokens
import PreemptiveExecutor.Workers.Conservation
import PreemptiveExecutor.Workers.Boost
import PreemptiveExecutor.Workers.LostBoost
import PreemptiveExecutor.Workers.Capacity
import PreemptiveExecutor.Workers.Shutdown
import PreemptiveExecutor.Registry.Model
import PreemptiveExecutor.Registry.Allocation
import PreemptiveExecutor.Registry.Traversal
import PreemptiveExecutor.Registry.Chains
import PreemptiveExecutor.Registry.ChainWeights
import PreemptiveExecutor.Registry.ThreadgroupIds
import PreemptiveExecutor.Registry.Visited
import PreemptiveExecutor.Registry.ThreadCount
import PreemptiveExecutor.Registry.Priorities
import PreemptiveExecutor.Registry.Export
import PreemptiveExecutor.Registry.Completeness
import PreemptiveExecutor.Registry.Deadlines
import PreemptiveExecutor.Registry.Handover
import PreemptiveExecutor.Registry.Refinement
import PreemptiveExecutor.Registry.Termination
import PreemptiveExecutor.Registry.Balance
import PreemptiveExecutor.Registry.Demand
import PreemptiveExecutor.Registry.Records
import PreemptiveExecutor.Registry.GroupDeadlines
import PreemptiveExecutor.Registry.MemberLists
import PreemptiveExecutor.Registry.Registration
import PreemptiveExecutor.Executor.Bundles
import PreemptiveExecutor.Executor.Startup
import PreemptiveExecutor.Executor.Urgency
import PreemptiveExecutor.Executor.Ranking
import PreemptiveExecutor.Executor.Populate
import PreemptiveExecutor.Executor.Lookups
import PreemptiveExecutor.Executor.Spawning
import PreemptiveExecutor.Executor.SharedRegistry
import PreemptiveExecutor.Executor.Dispatch
import PreemptiveExecutor.Executor.MemoryStrategy
import PreemptiveExecutor.Executor.WaitCycle
import PreemptiveExecutor.Executor.MutualExclusion
import PreemptiveExecutor.Executor.Deliveries
import PreemptiveExecutor.Parser.Model
import PreemptiveExecutor.Registry.RootFormula
import PreemptiveExecutor.Executor.Staffing
import PreemptiveExecutor.Registry.Continuation
import PreemptiveExecutor.Registry.RepeatedChain
import PreemptiveExecutor.Registry.HashOrder
import PreemptiveExecutor.Registry.Grouping
import PreemptiveExecutor.Registry.GroupEdges
import PreemptiveExecutor.Registry.RootThreads
import PreemptiveExecutor.Registry.ChainGraph
import PreemptiveExecutor.Registry.TraversalRuns
import PreemptiveExecutor.Parser.Grammar
import PreemptiveExecutor.Parser.History
import PreemptiveExecutor.Parser.Replay
import PreemptiveExecutor.Executor.Classification
import PreemptiveExecutor.Executor.ExactDispatch
import PreemptiveExecutor.Executor.Loans
import PreemptiveExecutor.Executor.LoanSteps
import PreemptiveExecutor.Executor.GivenBack
import PreemptiveExecutor.Executor.Progress
import PreemptiveExecutor.Executor.LoopState
import PreemptiveExecutor.Executor.NodeOwners
import PreemptiveExecutor.Executor.WaitSet
import PreemptiveExecutor.Executor.NextExecutable
import PreemptiveExecutor.Executor.Provenance
import PreemptiveExecutor.Executor.ShutDown
import PreemptiveExecutor.Executor.Exceptions
import PreemptiveExecutor.Executor.AtOnce
