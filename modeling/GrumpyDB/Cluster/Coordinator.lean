/-
The coordinator of a node: where keys belong and who is there.
-/
import GrumpyDB.Cluster.Ring
import GrumpyDB.Lib.SortedMap
import GrumpyDB.UuidText

namespace GrumpyDB

/-- A peer as the configuration lists it. -/
structure PeerEntry where
  nodeId : String
  addr : String
  status : Option String
  lastSeenAtUnix : Option UInt64

structure PeerRuntime where
  addr : String
  status : String
  lastSeenAtUnix : Option UInt64

structure Coordinator where
  localNodeId : String
  n : Nat
  ring : Ring String
  peerAddrs : SortedMap String String
  peers : SortedMap String PeerRuntime

def eqIgnoreAsciiCase (s t : String) : Bool := s.toList.map Char.toLower = t.toList.map Char.toLower

def canonicalStatus (status : String) (lastSeenAtUnix : Option UInt64) : String :=
  if eqIgnoreAsciiCase status "unknown" && lastSeenAtUnix.isSome then "up" else status

namespace Coordinator

/-! ### Configuration -/

def fromConfig (nodeId : Uuid) (vnodesPerNode : UInt32) (entries : List PeerEntry)
    (localAddr : String) (now : UInt64) : Coordinator :=
  let localNodeId := nodeId.toText
  -- the local node may be listed among the peers
  let others := entries.filter fun e => e.nodeId ≠ localNodeId
  { localNodeId := localNodeId
    n := min (1 + entries.length) 3
    ring := others.foldl (fun r e => r.addNode e.nodeId)
      ((Ring.new vnodesPerNode).addNode localNodeId)
    peerAddrs := others.foldl (fun m e => m.insert e.nodeId e.addr)
      (SortedMap.empty.insert localNodeId localAddr)
    peers := others.foldl (fun m e => m.insert e.nodeId
        ⟨e.addr, canonicalStatus (e.status.getD "unknown") e.lastSeenAtUnix, e.lastSeenAtUnix⟩)
      (SortedMap.empty.insert localNodeId ⟨localAddr, "up", some now⟩) }

/-! ### Concerns -/

/-- Unknown peers are not live; of the others only those marked down. -/
def isPeerLive (c : Coordinator) (nodeId : String) : Bool :=
  match c.peers.get? nodeId with
  | none => false
  | some peer => !eqIgnoreAsciiCase peer.status "down"

def concernsError (c : Coordinator) : String :=
  "invalid consistency concerns: require R and W in [1, " ++ toString c.n ++ "]"

def concern (x : Option UInt16) : Nat := (x.getD 1).toNat

def inRange (c : Coordinator) (x : Nat) : Bool := 1 ≤ x && x ≤ c.n

def validateConcerns (c : Coordinator) (readConcern writeConcern : Option UInt16) :
    Except String Unit :=
  if !c.inRange (concern readConcern) || !c.inRange (concern writeConcern) then
    .error c.concernsError
  else .ok ()

def owners (c : Coordinator) (database collection key : String) : List String :=
  c.ring.preferenceList ⟨database, collection, utf8 key⟩ c.n

def validateConcernForKey (letter : String) (c : Coordinator) (database collection key : String)
    (x : Option UInt16) : Except String Unit :=
  if !c.inRange (concern x) then .error c.concernsError
  else
    let live := ((c.owners database collection key).filter c.isPeerLive).length
    if live < concern x then
      .error ("not enough live replicas for " ++ letter ++ "=" ++ toString (concern x) ++
        ": have " ++
        toString live ++ " live replicas in preference list")
    else .ok ()

def validateReadConcernForKey : Coordinator → String → String → String → Option UInt16 →
    Except String Unit :=
  validateConcernForKey "R"

def validateWriteConcernForKey : Coordinator → String → String → String → Option UInt16 →
    Except String Unit :=
  validateConcernForKey "W"

variable {c : Coordinator} {database collection key : String}

theorem le_length_owners {letter : String} {x : Option UInt16}
    (h : validateConcernForKey letter c database collection key x = .ok ()) :
    concern x ≤ (c.owners database collection key).length := by
  unfold validateConcernForKey at h
  split at h
  · cases h
  · dsimp only at h
    split at h
    · cases h
    · rename_i hlive
      exact (Nat.not_lt.mp hlive).trans (List.length_filter_le _ _)

/-! ### Placement -/

def forwardHint (c : Coordinator) (ownerNode why : String) : String :=
  "forward to " ++ ownerNode ++ "@" ++ (c.peerAddrs.get? ownerNode).getD "unknown" ++ "; " ++ why

def enforceLocalOwner (c : Coordinator) (database collection key : String) : Except String Unit :=
  match c.owners database collection key with
  | [] => .ok ()
  | owner :: _ =>
    if owner = c.localNodeId then .ok () else .error (c.forwardHint owner "not the owner")

def enforceLocalWriteReplica (c : Coordinator) (database collection key : String) :
    Except String Unit :=
  let owners := c.owners database collection key
  if c.localNodeId ∈ owners then .ok ()
  else .error (c.forwardHint (owners.head?.getD c.localNodeId)
    "local node is outside write replica set")

def replicaPeerNodesForKey (c : Coordinator) (database collection key : String) : List String :=
  (c.owners database collection key).filter fun node => node ≠ c.localNodeId

theorem enforceLocalOwner_eq_ok {k : String} :
    c.enforceLocalOwner database collection k = .ok () ↔
      ∀ owner ∈ (c.owners database collection k).head?, owner = c.localNodeId := by
  unfold enforceLocalOwner
  rcases c.owners database collection k with _ | ⟨owner, rest⟩
  · simp
  · by_cases h : owner = c.localNodeId <;> simp [h]

theorem enforceLocalWriteReplica_eq_ok {k : String} :
    c.enforceLocalWriteReplica database collection k = .ok () ↔
      c.localNodeId ∈ c.owners database collection k := by
  unfold enforceLocalWriteReplica
  by_cases h : c.localNodeId ∈ c.owners database collection k <;> simp [h]

theorem mem_replicaPeerNodesForKey {node : String} :
    node ∈ c.replicaPeerNodesForKey database collection key ↔
      node ∈ c.owners database collection key ∧ node ≠ c.localNodeId := by
  simp [replicaPeerNodesForKey]

theorem nodup_replicaPeerNodesForKey (c : Coordinator) (database collection key : String) :
    (c.replicaPeerNodesForKey database collection key).Nodup :=
  (c.ring.nodup_preferenceList _ _).filter _

theorem length_replicaPeerNodesForKey (h : c.localNodeId ∈ c.owners database collection key) :
    (c.replicaPeerNodesForKey database collection key).length + 1 =
      (c.owners database collection key).length := by
  have hnodup : (c.owners database collection key).Nodup := c.ring.nodup_preferenceList _ _
  have herase := hnodup.erase_eq_filter c.localNodeId
  have hlen := List.length_erase_of_mem h
  have hpos := List.length_pos_of_mem h
  rw [herase] at hlen
  have : (c.replicaPeerNodesForKey database collection key).length =
      (c.owners database collection key).length - 1 := by
    rw [← hlen, replicaPeerNodesForKey]
    congr 1
    simp [bne, beq_eq_decide]
  omega

end Coordinator

end GrumpyDB
