import Doki.Cluster.Acknowledged
import Doki.Cluster.Basic
import Doki.Cluster.Completeness
import Doki.Cluster.Convergence
import Doki.Cluster.ElectionSafety
import Doki.Cluster.Fencing
import Doki.Cluster.History
import Doki.Cluster.Integrity
import Doki.Cluster.Progress
import Doki.Cluster.SoleWriter
import Doki.Cluster.StepDown
import Doki.Cluster.Wire
import Doki.Cluster.Writes
import Doki.Coordinator.Health
import Doki.Coordinator.Leader
import Doki.Coordinator.LeaderChanges
import Doki.Coordinator.Leadership
import Doki.Coordinator.Migration
import Doki.Coordinator.MigrationRace
import Doki.Coordinator.Promotion
import Doki.Coordinator.ReplicaSets
import Doki.Coordinator.Service
import Doki.Coordinator.Terms
import Doki.Coordinator.Versions
import Doki.Coordinator.Wire
import Doki.Disk.Bytes
import Doki.Disk.Corruption
import Doki.Disk.Durability
import Doki.Disk.Files
import Doki.Disk.Mirror
import Doki.Disk.Remains
import Doki.Disk.Replay
import Doki.Disk.Rollback
import Doki.Disk.Rotation
import Doki.Disk.SnapshotFile
import Doki.Disk.State
import Doki.Lib.Counters
import Doki.Lib.Excepts
import Doki.Lib.FanOut
import Doki.Lib.Faulty
import Doki.Lib.Finmaps
import Doki.Lib.Floats
import Doki.Lib.Json.ByteStrings
import Doki.Lib.Json.Decode
import Doki.Lib.Json.Encode
import Doki.Lib.Json.Scanner
import Doki.Lib.Lists
import Doki.Lib.Majority
import Doki.Lib.Parsing
import Doki.Lib.Runs
import Doki.Node.Atomicity
import Doki.Node.Bootstrap
import Doki.Node.CatchUp
import Doki.Node.Client
import Doki.Node.Election
import Doki.Node.ElectionTimer
import Doki.Node.Handlers
import Doki.Node.LogExactness
import Doki.Node.Persistence
import Doki.Node.Placement
import Doki.Node.Quorum
import Doki.Node.Reconciliation
import Doki.Node.Recovery
import Doki.Node.Replica
import Doki.Node.Restart
import Doki.Node.Server
import Doki.Node.SnapshotRace
import Doki.Node.Stream
import Doki.Node.Terms
import Doki.Node.WalBound
import Doki.Node.Write
import Doki.ShardMap
import Doki.Sql.Acceptance
import Doki.Sql.Analyzer
import Doki.Sql.Catalog
import Doki.Sql.Completeness
import Doki.Sql.Documented
import Doki.Sql.Executor
import Doki.Sql.Fidelity
import Doki.Sql.Grammar
import Doki.Sql.Isolation
import Doki.Sql.Layout
import Doki.Sql.Lexer
import Doki.Sql.NormalForm
import Doki.Sql.Nulls
import Doki.Sql.Parser
import Doki.Sql.Planner
import Doki.Sql.PointLookup
import Doki.Sql.Printing
import Doki.Sql.Relational
import Doki.Sql.Rows
import Doki.Sql.Soundness
import Doki.Sql.TypeSoundness
import Doki.Storage.Basic
import Doki.Storage.ReplicationLog
import Doki.Storage.Wal
import Doki.Storage.WalReading
