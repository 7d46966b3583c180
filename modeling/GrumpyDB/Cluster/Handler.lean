/-
How a node serves the commands on documents.

A command is checked against the requested concerns, carried out on the local store, and then
compared with the other replicas (reads with `R > 1`) or sent to them (writes with `W > 1`).
-/
import GrumpyDB.Cluster.Coordinator
import GrumpyDB.Cluster.Hints
import GrumpyDB.Cluster.Peer
import GrumpyDB.Crdt
import GrumpyDB.Lib.Plurality

namespace GrumpyDB

inductive Command where
  | insert (collection key value : String)
  | get (collection key : String)
  | update (collection key value : String)
  | delete (collection key : String)
  | putWithVc (collection key value vectorClock : String)

namespace Command

def collection : Command → String
  | insert collection _ _ | get collection _ | update collection _ _ | delete collection _
  | putWithVc collection _ _ _ => collection

def key : Command → String
  | insert _ key _ | get _ key | update _ key _ | delete _ key | putWithVc _ key _ _ => key

def isWriteCommand : Command → Bool
  | get _ _ => false
  | _ => true

end Command

/-- A command with the concerns it was given. -/
structure Request where
  command : Command
  readConcern : Option UInt16
  writeConcern : Option UInt16

inductive Response where
  | ok (text : String)
  | bulk (text : Option String)
  | error (message : String)
  deriving DecidableEq

/-- The tenant and the database of a session. -/
structure Session where
  tenant : String
  database : String

structure ReadRepairIntent where
  createdAtUnix : UInt64
  tenant : String
  database : String
  collection : String
  key : String
  targetNodeId : String
  valueJson : String
  reason : String

/-- What becomes of the requests a node sends for one command. -/
structure Env where
  now : UInt64
  /-- The error of a probe, if it fails. -/
  probe : String → Option String
  fetch : String → Fate
  write : String → Fate

/-- All nodes: what each stores, which hints it keeps for which node, and its
read-repair intents. -/
structure Cluster where
  servers : String → Server
  hints : String → String → List HintRecord
  repairs : String → List ReadRepairIntent

namespace Cluster

def setServer (s : Cluster) (node : String) (server : Server) : Cluster :=
  { s with servers := Function.update s.servers node server }

@[simp] theorem setServer_self (s : Cluster) (node : String) :
    s.setServer node (s.servers node) = s := by
  simp [setServer]

@[simp] theorem servers_setServer_self (s : Cluster) (node : String) (server : Server) :
    (s.setServer node server).servers node = server :=
  Function.update_self ..

theorem servers_setServer_of_ne (s : Cluster) {node node' : String} (server : Server)
    (h : node' ≠ node) : (s.setServer node server).servers node' = s.servers node' :=
  Function.update_of_ne h ..

def appendHint (s : Cluster) (node target : String) (hint : HintRecord) : Cluster :=
  let hints := Function.update (s.hints node) target (s.hints node target ++ [hint])
  { s with hints := Function.update s.hints node hints }

def appendRepair (s : Cluster) (node : String) (intent : ReadRepairIntent) : Cluster :=
  { s with repairs := Function.update s.repairs node (s.repairs node ++ [intent]) }

end Cluster

variable [SerdeJson] [PayloadJson LwwSetPayload] [PayloadJson OrSetPayload]
  [PayloadJson MvrPayload]

open SerdeJson

/-! ### Local execution -/

def Coordinator.placement (c : Coordinator) (database : String) (command : Command) :
    Except String Unit :=
  match command with
  | .get collection key => c.enforceLocalOwner database collection key
  | _ => c.enforceLocalWriteReplica database command.collection command.key

def Server.texted {α : Type} (r : Except StoreError α) : Except String α :=
  r.mapError StoreError.display

def reconcile (existing incoming : Value) : Except String Value :=
  if existing.isCrdt && incoming.isCrdt then
    (Crdt.mergeValues existing incoming).mapError fun e => "CRDT merge failed: " ++ e
  else .ok incoming

def Server.putReconciled (s : Server) (sess : Session) (collection : String) (uuid : Uuid)
    (incoming : Value) : Except String Server := do
  match ← Server.texted (s.get sess.tenant sess.database collection uuid) with
  | some existing =>
    let reconciled ← reconcile existing incoming
    Server.texted (s.modify sess.tenant sess.database collection (Docs.update uuid reconciled))
  | none =>
    -- a tombstone still occupies the key; update replaces it
    Server.texted (s.modify sess.tenant sess.database collection (Docs.upsert uuid incoming))

def executeCommand (c : Coordinator) (sess : Session) (s : Server) (command : Command) :
    Except String (Server × Response) := do
  let _ ← Server.texted (s.database sess.tenant sess.database)
  c.placement sess.database command
  match command with
  | .insert collection key value =>
    let uuid ← parseUuid key
    let val ← parseJsonValue value
    let s' ← Server.texted (s.modify sess.tenant sess.database collection (Docs.insert uuid val))
    return (s', .ok "OK")
  | .get collection key =>
    let uuid ← parseUuid key
    let v ← Server.texted (s.get sess.tenant sess.database collection uuid)
    return (s, .bulk (v.map valueToJson))
  | .update collection key value =>
    let uuid ← parseUuid key
    let val ← parseJsonValue value
    let s' ← Server.texted (s.modify sess.tenant sess.database collection (Docs.update uuid val))
    return (s', .ok "OK")
  | .delete collection key =>
    let uuid ← parseUuid key
    let s' ← Server.texted (s.modify sess.tenant sess.database collection (Docs.delete uuid))
    return (s', .ok "OK")
  | .putWithVc collection key value vectorClock =>
    let _ ← (fromStr vectorClock).mapError fun e => "invalid vector_clock JSON: " ++ e
    let uuid ← parseUuid key
    let incoming ← parseJsonValue value
    let s' ← s.putReconciled sess collection uuid incoming
    return (s', .ok "OK")

/-! ### Concerns -/

/-- Concerns given with the command, or else the defaults of the database. -/
def effectiveConsistencyValues (sess : Session) (s : Server) (req : Request) :
    Except String (Option UInt16 × Option UInt16) :=
  if req.readConcern.isSome || req.writeConcern.isSome then
    .ok (req.readConcern, req.writeConcern)
  else Server.texted ((s.database sess.tenant sess.database).map Db.defaults)

def validateConsistencyCommand (c : Coordinator) (req : Request) : Except String Unit :=
  if req.readConcern.isNone && req.writeConcern.isNone then .ok ()
  else if !req.command.isWriteCommand && req.writeConcern.isSome then
    .error "write concern is only supported for write commands"
  else c.validateConcerns req.readConcern req.writeConcern

/-- Probe the other replicas until `R` have answered, the local one included. -/
def Coordinator.waitForReadAckQuorum (c : Coordinator) (env : Env)
    (database collection key : String) (r : Nat) : Except String Unit :=
  if r ≤ 1 then .ok ()
  else
    let reached := (c.replicaPeerNodesForKey database collection key).filterMap fun node =>
      (c.peerAddrs.get? node).map fun addr => (node, addr)
    if reached.length < r - 1 then
      .error ("read quorum cannot be satisfied: need " ++ toString (r - 1) ++
        " remote acks, only " ++ toString reached.length ++ " replica peers available")
    else
      let failures := reached.filterMap fun (node, addr) =>
        (env.probe node).map fun e => addr ++ ": " ++ e
      let acked := 1 + (reached.length - failures.length)
      if r ≤ acked then .ok ()
      else .error ("read quorum not reached: acked " ++ toString acked ++ "/" ++ toString r ++
        "; failures: " ++ String.intercalate " | " failures)

def validateWriteConcernRuntime (c : Coordinator) (sess : Session) (command : Command)
    (w : Option UInt16) : Except String Unit :=
  if w.isSome && command.isWriteCommand then
    c.validateWriteConcernForKey sess.database command.collection command.key w
  else .ok ()

def validateReadConcernRuntime (c : Coordinator) (sess : Session) (command : Command)
    (r : Option UInt16) : Except String Unit :=
  if r.isSome && !command.isWriteCommand then
    c.validateReadConcernForKey sess.database command.collection command.key r
  else .ok ()

def waitForReadAckQuorum (c : Coordinator) (sess : Session) (env : Env) (command : Command)
    (r : Option UInt16) : Except String Unit :=
  if command.isWriteCommand then .ok ()
  else c.waitForReadAckQuorum env sess.database command.collection command.key
    (Coordinator.concern r)

/-- What is checked before a command is carried out; the concerns it then has. -/
def preflight (c : Coordinator) (sess : Session) (env : Env) (s : Server) (req : Request) :
    Except String (Nat × Nat) := do
  validateConsistencyCommand c req
  let (r, w) ← effectiveConsistencyValues sess s req
  validateWriteConcernRuntime c sess req.command w
  validateReadConcernRuntime c sess req.command r
  waitForReadAckQuorum c sess env req.command r
  return (Coordinator.concern r, Coordinator.concern w)

/-! ### Comparing replicas -/

def chooseCanonicalJson (values : List String) : String := plurality "" values

def keyPath (sess : Session) (collection key : String) : PeerKeyPath :=
  ⟨sess.tenant, sess.database, collection, key⟩

def fanoutReadPeerValues (c : Coordinator) (sess : Session) (env : Env) (s : Cluster)
    (collection key : String) : List (String × Except String (Option String)) :=
  ((c.replicaPeerNodesForKey sess.database collection key).filter fun node =>
      (c.peerAddrs.get? node).isSome).map fun node =>
    (node, fetchPeerValue (env.fetch node) (s.servers node) (keyPath sess collection key))

/-- The value a replica answered with, if it did and has one. -/
def answered : Except String (Option String) → Option String
  | .ok (some json) => some json
  | _ => none

def convergeLocal (sess : Session) (s : Server) (collection key canonical : String) : Server :=
  match parseUuid key, parseJsonValue canonical with
  | .ok id, .ok val =>
    match s.get sess.tenant sess.database collection id with
    | .ok (some _) =>
      ((s.modify sess.tenant sess.database collection (Docs.update id val)).toOption).getD s
    | _ => ((s.modify sess.tenant sess.database collection (Docs.insert id val)).toOption).getD s
  | _, _ => s

def repairPeerValue (c : Coordinator) (env : Env) (s : Cluster) (node : String)
    (path : PeerKeyPath) (valueJson : String) : Cluster × Except String Unit :=
  match c.peerAddrs.get? node with
  | none => (s, .error ("unknown peer: " ++ node))
  | some _ =>
    let (server, r) := upsertPeerValue (env.write node) (s.servers node) path valueJson
    (s.setServer node server, r)

/-- Repair a replica whose answer is not the canonical value, or leave an intent to. -/
def convergeRemote (c : Coordinator) (sess : Session) (env : Env)
    (collection key canonical : String)
    (s : Cluster) (read : String × Except String (Option String)) : Cluster :=
  match read.2 with
  | .ok (some v) => if v = canonical then s else repair
  | _ => repair
where
  repair : Cluster :=
    match repairPeerValue c env s read.1 (keyPath sess collection key) canonical with
    | (s', .ok ()) => s'
    | (s', .error _) => s'.appendRepair c.localNodeId
        ⟨env.now, sess.tenant, sess.database, collection, key, read.1, canonical,
          "convergence-retry"⟩

/-- Bring all replicas that can be reached to the canonical value, and answer with it. -/
def maybeConvergeReadQuorum (c : Coordinator) (sess : Session) (env : Env) (s : Cluster)
    (collection key : String) (r : Nat) (localValue : Option String) : Cluster × Response :=
  if r ≤ 1 then (s, .bulk localValue)
  else
    let remoteReads := fanoutReadPeerValues c sess env s collection key
    let values := localValue.toList ++ remoteReads.filterMap fun read => answered read.2
    if values = [] then (s, .bulk localValue)
    else
      let canonical := chooseCanonicalJson values
      let s := if localValue = some canonical then s
        else s.setServer c.localNodeId
          (convergeLocal sess (s.servers c.localNodeId) collection key canonical)
      (remoteReads.foldl (convergeRemote c sess env collection key canonical) s,
        .bulk (some canonical))

/-! ### Replicating writes -/

def writeHintOperation : Command → Option HintOperation
  | .insert _ _ value | .update _ _ value => some (.upsert value)
  | .delete _ _ => some .delete
  | .putWithVc _ _ value vectorClock =>
    some (.upsert (toText (.object [("value", .string value),
      ("vector_clock", .string vectorClock)])))
  | .get _ _ => none

/-- Carry out the operation of a hint on a peer that stores `server`. -/
def deliverHint (fate : Fate) (server : Server) (hint : HintRecord) : Server × Except String Unit :=
  let path : PeerKeyPath := ⟨hint.tenant, hint.database, hint.collection, hint.key⟩
  match hint.resolvedOperation with
  | .upsert valueJson => upsertPeerValue fate server path valueJson
  | .delete => deletePeerValue fate server path
  -- index operations reach peers by gossip, no command sends them
  | .createIndex _ _ | .dropIndex _ => (server, .error "unsupported hint operation")

def replayHintToPeer (c : Coordinator) (env : Env) (s : Cluster) (node : String)
    (hint : HintRecord) : Cluster × Except String Unit :=
  match c.peerAddrs.get? node with
  | none => (s, .error ("unknown peer: " ++ node))
  | some _ =>
    let (server, r) := deliverHint (env.write node) (s.servers node) hint
    (s.setServer node server, r)

structure FanOut where
  cluster : Cluster
  acked : List String
  failures : List String

def fanOutTo (c : Coordinator) (env : Env) (hint : HintRecord) (f : FanOut) (node : String) :
    FanOut :=
  match replayHintToPeer c env f.cluster node hint with
  | (s, .ok ()) => ⟨s, f.acked ++ [node], f.failures⟩
  | (s, .error e) => ⟨s.appendHint c.localNodeId node hint, f.acked, f.failures ++
      [node ++ ": " ++ e]⟩

def hintOf (sess : Session) (env : Env) (command : Command) (operation : HintOperation) :
    HintRecord :=
  ⟨env.now, sess.tenant, sess.database, command.collection, command.key, some operation, none⟩

def waitForWriteAckQuorum (c : Coordinator) (sess : Session) (env : Env) (s : Cluster)
    (command : Command) (w : Nat) : FanOut × Except String Unit :=
  if w ≤ 1 then (⟨s, [], []⟩, .ok ())
  else
    match writeHintOperation command with
    | none => (⟨s, [], []⟩, .ok ())
    | some operation =>
      let replicas := c.replicaPeerNodesForKey sess.database command.collection command.key
      if replicas.length < w - 1 then
        (⟨s, [], []⟩, .error ("write quorum cannot be satisfied: need " ++ toString (w - 1) ++
          " remote acks, only " ++ toString replicas.length ++ " replica peers available"))
      else
        let f := replicas.foldl (fanOutTo c env (hintOf sess env command operation)) ⟨s, [], []⟩
        let acked := 1 + f.acked.length
        if w ≤ acked then (f, .ok ())
        else (f, .error ("write quorum not reached: acked " ++ toString acked ++ "/" ++
          toString w ++
          "; failures: " ++ String.intercalate " | " f.failures))

/-! ### A command from beginning to end -/

/-- What a command leaves behind: the nodes, the answer, and the replicas that acknowledged. -/
structure Outcome where
  cluster : Cluster
  response : Response
  acked : List String

def handleCommand (c : Coordinator) (sess : Session) (env : Env) (s : Cluster) (req : Request) :
    Outcome :=
  match preflight c sess env (s.servers c.localNodeId) req with
  | .error e => ⟨s, .error e, []⟩
  | .ok (r, w) =>
    match executeCommand c sess (s.servers c.localNodeId) req.command with
    | .error e => ⟨s, .error e, []⟩
    | .ok (server, .bulk localValue) =>
      let (s, response) := maybeConvergeReadQuorum c sess env (s.setServer c.localNodeId server)
        req.command.collection req.command.key r localValue
      ⟨s, response, []⟩
    | .ok (server, response) =>
      match waitForWriteAckQuorum c sess env (s.setServer c.localNodeId server) req.command w with
      | (f, .ok ()) => ⟨f.cluster, response, f.acked⟩
      | (f, .error e) => ⟨f.cluster, .error e, f.acked⟩

end GrumpyDB
