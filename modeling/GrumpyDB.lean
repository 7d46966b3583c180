import GrumpyDB.DocumentMap
import GrumpyDB.Server.Limits
import GrumpyDB.Server.Handles
import GrumpyDB.Cluster.ReadRepair
import GrumpyDB.Cluster.RingRanges
import GrumpyDB.Cluster.QuorumReads
import GrumpyDB.Replication.Tasks
import GrumpyDB.Auth.Rotation
import GrumpyDB.Protocol.Untrusted
import GrumpyDB.Protocol.Operands
import GrumpyDB.Wal.VClock
import GrumpyDB.Wal.Migration
import GrumpyDB.FreeList
import GrumpyDB.Cluster.Membership
import GrumpyDB.Resolve
import GrumpyDB.Cluster.RingNodes
import GrumpyDB.Cluster.SchemaLog
import GrumpyDB.Cluster.Materializer
import GrumpyDB.Cluster.HintOrder
import GrumpyDB.Replication.Session
import GrumpyDB.Auth.Grants
import GrumpyDB.Slots
import GrumpyDB.Readers
