import DelosLab.Async.Coroutine
import DelosLab.Async.Scheduler
import DelosLab.Async.RelyGuarantee
import DelosLab.VirtualLog.Core
import DelosLab.VirtualLog.System
import DelosLab.VirtualLog.Discipline
import DelosLab.VirtualLog.Tasks
import DelosLab.VirtualLog.Safety
import DelosLab.Consensus.Quorum
import DelosLab.Consensus.Voting
import DelosLab.Paxos.Types
import DelosLab.Paxos.Acceptor
import DelosLab.Paxos.Proposer
import DelosLab.Paxos.System
import DelosLab.Paxos.Register
import DelosLab.Paxos.Discipline
import DelosLab.Paxos.Tasks
import DelosLab.Paxos.Agreement
import DelosLab.Paxos.Barrier
import DelosLab.Consensus.Coverage
import DelosLab.NativeLoglet.Types
import DelosLab.NativeLoglet.Store
import DelosLab.NativeLoglet.Client
import DelosLab.NativeLoglet.Sequencer
import DelosLab.NativeLoglet.System
import DelosLab.NativeLoglet.Discipline
import DelosLab.NativeLoglet.Servers
import DelosLab.NativeLoglet.Rules
import DelosLab.NativeLoglet.Appends
import DelosLab.NativeLoglet.Tails
import DelosLab.NativeLoglet.Runs
import DelosLab.NativeLoglet.Durability
import DelosLab.NativeLoglet.CheckTail
import DelosLab.NativeLoglet.SealedTail
import DelosLab.NativeLoglet.Contiguity
import DelosLab.Replication.ExactlyOnce
import DelosLab.VirtualLog.Reads
import DelosLab.NativeLoglet.Reads
import DelosLab.Kv.StateMachine
import DelosLab.Kv.Store
import DelosLab.Kv.LogReads
import DelosLab.Kv.Service
import DelosLab.Kv.Replay
import DelosLab.Kv.Discipline
import DelosLab.Kv.Rules
import DelosLab.Kv.Transactions
import DelosLab.Kv.Materializer
import DelosLab.Kv.Runs
import DelosLab.Kv.ExactlyOnce
import DelosLab.Kv.Gaps
import DelosLab.Kv.Conflicts
import DelosLab.Kv.StoreReads
import DelosLab.Async.Sequential
import DelosLab.Kv.Snapshot
import DelosLab.Kv.Sessions
import DelosLab.Kv.Bootstrap
import DelosLab.Async.Observer
import DelosLab.VirtualLog.CheckTail
import DelosLab.VirtualLog.Calls
import DelosLab.VirtualLog.Cache
import DelosLab.VirtualLog.Failover
import DelosLab.Paxos.History
import DelosLab.NativeLoglet.SqlStore
import DelosLab.NativeLoglet.StateReports
import DelosLab.NativeLoglet.Rounds
import DelosLab.Common.Search
import DelosLab.VirtualLog.Routing
import DelosLab.VirtualLog.Trim
import DelosLab.NativeLoglet.MemoryStore
import DelosLab.NativeLoglet.SqlAlone
import DelosLab.NativeLoglet.StoreLaws
import DelosLab.Paxos.SqliteStorage
import DelosLab.Paxos.Representation
import DelosLab.Paxos.Restart
import DelosLab.Async.Extension
import DelosLab.Paxos.Results
import DelosLab.NativeLoglet.LogServer
import DelosLab.NativeLoglet.Wakeups
import DelosLab.NativeLoglet.ServedStores
import DelosLab.Paxos.Losses
import DelosLab.Async.Translation
import DelosLab.Paxos.MetaStoreClient
import DelosLab.Paxos.ReportedLosses
import DelosLab.Async.Shape
import DelosLab.NativeLoglet.Registry
import DelosLab.NativeLoglet.RegistryTasks
import DelosLab.NativeLoglet.Isolation
import DelosLab.NativeLoglet.GenuineEntries
import DelosLab.NativeLoglet.RuntimeDiscipline
import DelosLab.Common.PrefixCode
import DelosLab.Kv.Identity
import DelosLab.Paxos.AcceptorSteps
import DelosLab.NativeLoglet.SqliteStore
import DelosLab.NativeLoglet.StoreEquivalence
import DelosLab.NativeLoglet.TransportEquivalence
import DelosLab.Controller.Manifest
import DelosLab.Controller.Supervisor
import DelosLab.Controller.Discipline
import DelosLab.Controller.Operations
import DelosLab.Controller.NoStrays
import DelosLab.NativeLoglet.LogletErrors
import DelosLab.NativeLoglet.Answers
import DelosLab.NativeLoglet.NoHoles
import DelosLab.Common.Behaviour
import DelosLab.VirtualLog.Reconfiguration
import DelosLab.Kv.Progress
import DelosLab.VirtualLog.Stack
import DelosLab.Kv.CallNotes
import DelosLab.Kv.Linearizable
import DelosLab.Common.Ranking
import DelosLab.NativeLoglet.Replacement
import DelosLab.NativeLoglet.Replaced
import DelosLab.Async.Alone
import DelosLab.Paxos.Completion
