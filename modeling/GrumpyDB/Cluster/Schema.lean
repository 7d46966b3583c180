/-
The cluster-wide schema: index definitions spread by gossip.

Each node keeps the index entries it knows, a version, and the log of the entries it applied, by
version; entries are settled by their HLC stamp. An exchange has four moments that anything may
come between: the peer states its version, the node compares it with its own and asks, the peer
serves, the node applies. Messages may be lost.
-/
import GrumpyDB.Lib.Bytes
import GrumpyDB.Lib.Table
import GrumpyDB.Lib.SortedMap
import GrumpyDB.Lib.Ledger

namespace GrumpyDB

/-! ### The state of one node -/

structure IndexKey where
  tenant : String
  database : String
  collection : String
  indexName : String
  deriving DecidableEq

structure IndexEntry where
  fieldPath : String
  lastModifiedHlc : UInt64
  tombstone : Bool
  deriving DecidableEq

inductive SchemaOp where
  | createIndex (key : IndexKey) (fieldPath : String)
  | dropIndex (key : IndexKey)
  deriving DecidableEq

def SchemaOp.key : SchemaOp → IndexKey
  | createIndex key _ => key
  | dropIndex key => key

/-- An operation with the version and the HLC it was stamped with. -/
structure SchemaLogEntry where
  version : UInt64
  hlc : UInt64
  op : SchemaOp
  deriving DecidableEq

structure SchemaState where
  version : UInt64
  indexes : Table IndexKey IndexEntry
  appliedLog : SortedMap UInt64 SchemaLogEntry

inductive ApplyOutcome where
  | applied
  | stale
  | duplicate
  deriving DecidableEq

def entryMatches (existing : IndexEntry) : SchemaOp → Bool
  | .createIndex _ fieldPath => !existing.tombstone && existing.fieldPath == fieldPath
  | .dropIndex _ => existing.tombstone

namespace SchemaState

def new : SchemaState := ⟨0, Table.empty, SortedMap.empty⟩

def get (s : SchemaState) (key : IndexKey) : Option IndexEntry :=
  (s.indexes.get? key).filter fun e => !e.tombstone

/-- The entry an operation makes.  A drop keeps the field path that was known. -/
def newEntry (s : SchemaState) (entry : SchemaLogEntry) : IndexEntry :=
  match entry.op with
  | .createIndex _ fieldPath => ⟨fieldPath, entry.hlc, false⟩
  | .dropIndex key => ⟨((s.indexes.get? key).map IndexEntry.fieldPath).getD "", entry.hlc, true⟩

def insertOrReplace (s : SchemaState) (key : IndexKey) (entry : SchemaLogEntry) : SchemaState :=
  { s with indexes := s.indexes.insert key (s.newEntry entry) }

def outcome (s : SchemaState) (entry : SchemaLogEntry) : ApplyOutcome :=
  match s.indexes.get? entry.op.key with
  | none => .applied
  | some existing =>
    if entry.hlc > existing.lastModifiedHlc then .applied
    else if entry.hlc = existing.lastModifiedHlc ∧ entryMatches existing entry.op then .duplicate
    else .stale

/-- Apply one entry.  The version moves up even if the entry loses; only what
was applied is logged. -/
def apply (s : SchemaState) (entry : SchemaLogEntry) : SchemaState :=
  let s' := if s.outcome entry = .applied then s.insertOrReplace entry.op.key entry else s
  let s' := if entry.version > s'.version then { s' with version := entry.version } else s'
  if s.outcome entry = .applied then
    { s' with appliedLog := s'.appliedLog.insert entry.version entry }
  else s'

def entriesSince (s : SchemaState) (since : UInt64) : List SchemaLogEntry :=
  (s.appliedLog.entries.filter fun e => since < e.1).map Prod.snd

def nextVersion (s : SchemaState) : SchemaState := { s with version := s.version + 1 }

def applyLocalDdl (s : SchemaState) (op : SchemaOp) (hlc : UInt64) : SchemaState :=
  s.nextVersion.apply ⟨s.nextVersion.version, hlc, op⟩

def applyRemoteSchemaEntries (s : SchemaState) (entries : List SchemaLogEntry) : SchemaState :=
  entries.foldl apply s

end SchemaState

/-! ### The cluster -/

inductive SchemaMessage (ι : Type) where
  | hello (node peer : ι) (version : UInt64)
  | pull (node peer : ι) (since : UInt64)
  | diff (node : ι) (entries : List SchemaLogEntry)
  deriving DecidableEq

structure Gossip (ι : Type) where
  node : ι → SchemaState
  wire : List (SchemaMessage ι)

inductive GossipEvent (ι : Type) where
  | ddl (node : ι) (op : SchemaOp) (hlc : UInt64)
  | probe (node peer : ι)
  | deliver (m : SchemaMessage ι)
  | lose (m : SchemaMessage ι)

namespace Gossip

variable {ι : Type} [DecidableEq ι]

def new (ι : Type) : Gossip ι := ⟨fun _ => .new, []⟩

/-- What a node does with a message.  `maybe_pull_schema` asks only a peer that
is ahead. -/
def handle (g : Gossip ι) : SchemaMessage ι → Gossip ι
  | .hello i j version =>
    if version ≤ (g.node i).version then g
    else { g with wire := .pull i j (g.node i).version :: g.wire }
  | .pull i j since => { g with wire := .diff i ((g.node j).entriesSince since) :: g.wire }
  | .diff i entries =>
    { g with node := Function.update g.node i ((g.node i).applyRemoteSchemaEntries entries) }

def step (g : Gossip ι) : GossipEvent ι → Gossip ι
  | .ddl i op hlc =>
    { g with node := Function.update g.node i ((g.node i).applyLocalDdl op hlc) }
  | .probe i j => { g with wire := .hello i j (g.node j).version :: g.wire }
  | .deliver m => if m ∈ g.wire then { g with wire := g.wire.erase m }.handle m else g
  | .lose m => { g with wire := g.wire.erase m }

def run (g : Gossip ι) (events : List (GossipEvent ι)) : Gossip ι := events.foldl step g

def Quiet (g : Gossip ι) : Prop := ∀ i j, (g.node j).version ≤ (g.node i).version

/-- All nodes have the same live indexes on the same field paths. -/
def Converged (g : Gossip ι) : Prop :=
  ∀ i j key, ((g.node i).get key).map IndexEntry.fieldPath
    = ((g.node j).get key).map IndexEntry.fieldPath

end Gossip

end GrumpyDB
