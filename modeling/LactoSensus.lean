import LactoSensus.Lib.Machine
import LactoSensus.Lib.Journal
import LactoSensus.Lib.OrdMap
import LactoSensus.Lib.Quorum
import LactoSensus.Lib.Raft.Protocol
import LactoSensus.Lib.Raft.Election
import LactoSensus.Lib.Raft.Matching
import LactoSensus.Lib.Raft.Completeness
import LactoSensus.Types
import LactoSensus.Storage
import LactoSensus.Node
import LactoSensus.LogView
import LactoSensus.Engine
import LactoSensus.Consensus
import LactoSensus.Shell
import LactoSensus.Handlers
import LactoSensus.Cluster
import LactoSensus.Tasks
import LactoSensus.Refinement
import LactoSensus.RefineElection
import LactoSensus.RefineReplication
import LactoSensus.RefineCluster
import LactoSensus.Safety
import LactoSensus.Repair
import LactoSensus.HorizonLog
import LactoSensus.ClusterSteps
import LactoSensus.Orchestration
import LactoSensus.HostMoves
import LactoSensus.HostSteps
import LactoSensus.Snapshots
import LactoSensus.Freshness
import LactoSensus.Proto
import LactoSensus.LactoFsm
import LactoSensus.Ledger
import LactoSensus.LactoSnapshot
import LactoSensus.LabelSkew
import LactoSensus.Recovery
import LactoSensus.InstallCrash
import LactoSensus.LogRecovery
import LactoSensus.Station
import LactoSensus.FreezeDepth
import LactoSensus.WakeUps
import LactoSensus.SequentialApply
import LactoSensus.Responses
import LactoSensus.Acknowledged
import LactoSensus.Lib.Raft.Written
import LactoSensus.Gateway
import LactoSensus.Sequencing
import LactoSensus.Outcomes
import LactoSensus.Restoration
import LactoSensus.Lib.Raft.Merge
import LactoSensus.Reconcile
import LactoSensus.CommitRule
import LactoSensus.PreVotes
import LactoSensus.LogStores
import LactoSensus.Queries
import LactoSensus.Client
import LactoSensus.ClientSession
import LactoSensus.Windows
import LactoSensus.Timing
import LactoSensus.Broadcast
import LactoSensus.Lib.Decimal
import LactoSensus.Units
import LactoSensus.Taxonomy
import LactoSensus.Stabilizer
import LactoSensus.Resolution
import LactoSensus.Inventory
import LactoSensus.Updates
import LactoSensus.Failover
import LactoSensus.Roles
import LactoSensus.Heartbeats
import LactoSensus.StepDowns
import LactoSensus.Isolation
import LactoSensus.Turns
import LactoSensus.Probes
import LactoSensus.CommitOrigins
import LactoSensus.Rounds
import LactoSensus.Replicas
import LactoSensus.ClusterProbes
import LactoSensus.Reads
import LactoSensus.FreshReads
import LactoSensus.Lib.Words
import LactoSensus.Slugs
import LactoSensus.Proposals
import LactoSensus.Promises
import LactoSensus.Halts
import LactoSensus.Lib.Ballots
import LactoSensus.Voting
import LactoSensus.Campaigns
import LactoSensus.Elections
import LactoSensus.Answered
import LactoSensus.Lib.BigEndian
import LactoSensus.Lib.Recoded
import LactoSensus.Lib.Protobuf
import LactoSensus.Identity
import LactoSensus.SledTrees
import LactoSensus.IntentWal
import LactoSensus.LactoTrees
import LactoSensus.Lib.Durable
import LactoSensus.TreesLife
import LactoSensus.Lib.Utf8
import LactoSensus.Transport
import LactoSensus.Boots
import LactoSensus.Redirects
import LactoSensus.Policy
import LactoSensus.Vetting
import LactoSensus.Numbering
import LactoSensus.Delivery
