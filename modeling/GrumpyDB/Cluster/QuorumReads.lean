/-
How many replicas a read with `R > 1` reads.

A read asks three times: whether enough replicas are marked live, whether enough of them answer
a probe, and then for their values. Only the first two are counted.
-/
import GrumpyDB.Cluster.ReadQuorum

namespace GrumpyDB

open List

section Quorums

variable {c : Coordinator} {sess : Session} {env : Env} {s : Cluster} {collection key : String}
  {id : Uuid} {readConcern writeConcern : Option UInt16} {r w : Nat} {reply : Option String}

/-! ### Peers that answer -/

variable [SerdeJson]

/-- The nodes whose value, or lack of one, a read has: the node that serves it, and the peers
whose fetch succeeded. -/
def Cluster.readFrom (s : Cluster) (c : Coordinator) (sess : Session) (env : Env)
    (collection key : String) : List String :=
  c.localNodeId :: ((fanoutReadPeerValues c sess env s collection key).filter fun read =>
    read.2.isOk).map Prod.fst

def Cluster.text (s : Cluster) (c : Coordinator) (sess : Session) (collection : String) (id : Uuid)
    (node : String) : Option String :=
  ((s.servers node).value sess.tenant sess.database collection id).map
    (if node = c.localNodeId then valueToJson else valueToJsonString)

variable [PayloadJson LwwSetPayload] [PayloadJson OrSetPayload] [PayloadJson MvrPayload]

end Quorums

/-! ### Reads of the four nodes -/

namespace FourNodes

end FourNodes

end GrumpyDB
