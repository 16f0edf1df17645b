import HarmonyLite.Basis.Cbor
import HarmonyLite.Basis.CborShortest
import HarmonyLite.Basis.ConflictTable
import HarmonyLite.Basis.Decimal
import HarmonyLite.Basis.Delimited
import HarmonyLite.Basis.KeyedTable
import HarmonyLite.Basis.LastArrival
import HarmonyLite.Basis.Like
import HarmonyLite.Basis.Overlays
import HarmonyLite.Basis.Register
import HarmonyLite.Basis.Runs
import HarmonyLite.Basis.SortSlice
import HarmonyLite.Basis.SqliteInsert
import HarmonyLite.Basis.SqlitePieces
import HarmonyLite.Basis.SqliteStatements
import HarmonyLite.Basis.SqliteTokens
import HarmonyLite.Basis.TornWrite
import HarmonyLite.Cluster.Convergence
import HarmonyLite.Cluster.Delivery
import HarmonyLite.Cluster.Echo
import HarmonyLite.Cluster.EventualConvergence
import HarmonyLite.Cluster.Model
import HarmonyLite.Cluster.Network
import HarmonyLite.Cluster.PlainKeys
import HarmonyLite.Cluster.Quiescence
import HarmonyLite.Cluster.Settling
import HarmonyLite.Core.CborMode
import HarmonyLite.Core.Values
import HarmonyLite.Db.Atlas
import HarmonyLite.Db.CaptureReplay
import HarmonyLite.Db.CdcObjects
import HarmonyLite.Db.CdcScript
import HarmonyLite.Db.CdcStatements
import HarmonyLite.Db.ChangeLogEvent
import HarmonyLite.Db.ChangeLogScript
import HarmonyLite.Db.ChangeLogStore
import HarmonyLite.Db.Cleanup
import HarmonyLite.Db.InstallCdc
import HarmonyLite.Db.OlderRows
import HarmonyLite.Db.OverlappingReplay
import HarmonyLite.Db.PublishChangeLog
import HarmonyLite.Db.PublishOrder
import HarmonyLite.Db.Reapply
import HarmonyLite.Db.Replicate
import HarmonyLite.Db.RestoreFrom
import HarmonyLite.Db.SchemaHash
import HarmonyLite.Db.SchemaHistory
import HarmonyLite.Db.SchemaSeparation
import HarmonyLite.Db.Sqlite
import HarmonyLite.Db.TableNames
import HarmonyLite.Db.TriggerScript
import HarmonyLite.Db.Triggers
import HarmonyLite.Db.UpsertText
import HarmonyLite.Db.WatchChanges
import HarmonyLite.Db.WatchProgress
import HarmonyLite.Logstream.AcquireLease
import HarmonyLite.Logstream.Answers
import HarmonyLite.Logstream.AtMostOnce
import HarmonyLite.Logstream.LeaderFailover
import HarmonyLite.Logstream.LeaseRefresher
import HarmonyLite.Logstream.Listen
import HarmonyLite.Logstream.Listener
import HarmonyLite.Logstream.Listeners
import HarmonyLite.Logstream.PauseState
import HarmonyLite.Logstream.PublishRace
import HarmonyLite.Logstream.ReplicateOff
import HarmonyLite.Logstream.ReplicationEvent
import HarmonyLite.Logstream.ReplicationState
import HarmonyLite.Logstream.ReportOrder
import HarmonyLite.Logstream.RollingUpgrade
import HarmonyLite.Logstream.RowRoundTrip
import HarmonyLite.Logstream.RowRouting
import HarmonyLite.Logstream.SaveSnapshot
import HarmonyLite.Logstream.SchemaPause
import HarmonyLite.Logstream.SchemaRegistry
import HarmonyLite.Logstream.SchemaValidation
import HarmonyLite.Logstream.SeqMapFile
import HarmonyLite.Logstream.SnapshotLeader
import HarmonyLite.Logstream.StreamGap
import HarmonyLite.Logstream.StreamSetup
import HarmonyLite.Logstream.TornSave
import HarmonyLite.Logstream.Truncation
import HarmonyLite.Logstream.UniqueIndexes
import HarmonyLite.Pool.ConnectionPool
import HarmonyLite.Pool.Custody
import HarmonyLite.Pool.NestedBorrow
import HarmonyLite.Pool.PoolSafety
import HarmonyLite.Snapshot.Coverage
import HarmonyLite.Snapshot.NatsDBSnapshot
import HarmonyLite.Snapshot.Restore
import HarmonyLite.Snapshot.RowIdentity
import HarmonyLite.Snapshot.Storage
