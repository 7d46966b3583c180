/-
The commands of the wire protocol.
-/
import Mathlib.Data.String.Basic
import Mathlib.Data.UInt

namespace GrumpyDB

namespace Protocol

inductive Command where
  | withConsistency (readConcern writeConcern : Option UInt16) (command : Command)
  -- authentication
  | login (tenant username password : String)
  | token (jwt : String)
  | refresh (refreshToken : String)
  | whoAmI
  | topology
  | snapshotHlc
  | schemaVersion
  | schemaStatus
  -- session
  | use (database : String)
  | ping
  | quit
  -- databases
  | createDatabase (name : String)
  | dropDatabase (name : String)
  | listDatabases
  | setDatabaseConsistency (database : String) (readConcern writeConcern : Option UInt16)
  | resetDatabaseConsistency (database : String)
  | showDatabaseConsistency (database : String)
  -- collections
  | createCollection (name : String)
  | dropCollection (name : String)
  | listCollections
  -- documents
  | insert (collection key value : String)
  | get (collection key : String)
  | update (collection key value : String)
  | delete (collection key : String)
  | putWithVc (collection key value vectorClock : String)
  | scan (collection : String) (start stop : Option String)
  -- indexes
  | createIndex (collection indexName fieldPath : String)
  | dropIndex (collection indexName : String)
  | listIndexes (collection : String)
  | query (collection indexName value : String)
  | queryRange (collection indexName start stop : String)
  -- maintenance
  | compact (collection : String)
  | flush
  | count (collection : String)
  -- users
  | createUser (username password : String)
  | dropUser (username : String)
  | listUsers (tenant : Option String)
  | grant (role resource username : String)
  | revoke (role resource username : String)
  -- tenants
  | createTenant (name : String)
  | dropTenant (name : String)
  | listTenants
  -- cluster
  | electWriter (nodeId database : String) (collection : Option String)
  | planRebalanceAddNode (nodeId : String)
  | planRebalanceRemoveNode (nodeId : String)
  | executeRebalanceAddNode (nodeId collection : String)
  | executeRebalanceRemoveNode (nodeId collection : String)
  deriving DecidableEq

end Protocol

end GrumpyDB
