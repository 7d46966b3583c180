/-
A database: named collections that share a log and a clock.

Every call that writes changes the collection first and logs the pages after that; it can fail
behind any of these steps, and what it has done stays done.
-/
import GrumpyDB.Indexed
import GrumpyDB.Cluster.Server
import GrumpyDB.Wal.OpenLog
import GrumpyDB.Wal.Clock

namespace GrumpyDB

open Proc

/-- A committed version of a document, none for a deletion. -/
structure VersionedValue where
  hlc : Hlc
  value : Option Value

/-- A database containing multiple named collections. -/
structure DatabaseState where
  collections : Table String Collection
  wal : OpenLog
  writesSinceCheckpoint : Nat
  nodeId : U128
  clock : HlcClock
  versions : String → Uuid → List VersionedValue
  activeReaders : SortedMap Hlc Nat
  readings : Nat → WallReading

namespace DatabaseState

def CHECKPOINT_INTERVAL : Nat := 100

/-! ### Versions -/

def readerWatermark (db : DatabaseState) : Option Hlc := db.activeReaders.entries.head?.map Prod.fst

/-- The versions that readers can still see: from the last one that is not past
the oldest snapshot, or the last one only if nobody reads. -/
def retained (watermark : Option Hlc) (versions : List VersionedValue) : List VersionedValue :=
  if versions.length ≤ 1 then versions
  else
    match watermark with
    | some wm =>
      let seen := (versions.takeWhile fun version => version.hlc ≤ wm).length
      versions.drop (seen - 1)
    | none => versions.getLast?.toList

def gcVersions (db : DatabaseState) : DatabaseState :=
  { db with
    versions := fun collection key => retained db.readerWatermark (db.versions collection key) }

def setVersions (collection : String) (key : Uuid) (vs : List VersionedValue) (db : DatabaseState) :
    DatabaseState :=
  { db with
    versions := Function.update db.versions collection
      (Function.update (db.versions collection) key vs) }

def appendVersion (collection : String) (key : Uuid) (hlc : Hlc) (value : Option Value) :
    Proc Halt DatabaseState Unit :=
  modify fun db =>
    gcVersions (db.setVersions collection key (db.versions collection key ++ [⟨hlc, value⟩]))

def ensureBaselineVersion (collection : String) (key : Uuid) (value : Value) :
    Proc Halt DatabaseState Unit :=
  modify fun db =>
    if (db.versions collection key).isEmpty then
      db.setVersions collection key [⟨0, some value⟩]
    else db

/-! ### Collections, clock and log -/

def onCollection {α : Type} (name : String) (x : Proc Halt Collection α) :
    Proc Halt DatabaseState α := fun db =>
  match db.collections.get? name with
  | none => ⟨.error (.err (.collectionNotFound name)), db, []⟩
  | some c =>
    let put (c : Collection) : DatabaseState :=
      { db with collections := db.collections.insert name c }
    ⟨(x c).res, put (x c).st, (x c).cuts.map put⟩

def tick (db : DatabaseState) : Except GrumpyError Hlc × DatabaseState :=
  let (stamp, clock) := db.clock.now (db.readings 0)
  (stamp.mapError fun e => .hlc e.display,
    { db with clock, readings := fun n => db.readings (n + 1) })

def now : Proc Halt DatabaseState Hlc := fun db => ⟨db.tick.1.mapError .err, db.tick.2, []⟩

def beginTx : Proc Halt DatabaseState UInt64 := do
  let txId ← gets fun db => db.wal.nextTxId
  modify fun db => { db with wal := { db.wal with nextTxId := txId + 1 } }
  pure txId

section Calls

variable [Crc32]

def log (call : LogCall) : Proc Halt DatabaseState Hlc := fun db =>
  ⟨db.tick.1.mapError .err, { db.tick.2 with wal := db.wal.append (db.tick.1, call) }, []⟩

def logWrites (txId : UInt64) : List PageWriteRecord → Proc Halt DatabaseState Unit
  | [] => pure ()
  | r :: records => do
    let _ ← log (.pageWrite txId r.pageId r.before.bytes r.after.bytes)
    logWrites txId records

def flushCollections : List String → Proc Halt DatabaseState Unit
  | [] => pure ()
  | name :: names => do
    onCollection name Collection.flush
    flushCollections names

def flush : Proc Halt DatabaseState Unit := do
  let names ← gets fun db => db.collections.keys
  flushCollections names
  let _ ← log .checkpoint
  modify fun db =>
    { db with wal := { db.wal with file := walHeader }, writesSinceCheckpoint := 0 }

def maybeCheckpoint : Proc Halt DatabaseState Unit := do
  modify fun db => { db with writesSinceCheckpoint := db.writesSinceCheckpoint + 1 }
  let writes ← gets DatabaseState.writesSinceCheckpoint
  if writes ≥ CHECKPOINT_INTERVAL then flush else pure ()

/-! ### Documents -/

def commit (txId : UInt64) (collection : String) (key : Uuid) (version : Option Value) :
    Proc Halt DatabaseState Unit := do
  let commitHlc ← log (.commit txId)
  appendVersion collection key commitHlc version
  maybeCheckpoint

def insert (collection : String) (key : Uuid) (value : Value) : Proc Halt DatabaseState Unit := do
  let encoded := Document.encode ⟨key, value⟩
  let txId ← beginTx
  let (_, records) ← onCollection collection (Collection.insertDoc key value encoded)
  logWrites txId records
  commit txId collection key (some value)

def getIncludingTombstone (collection : String) (key : Uuid) :
    Proc Halt DatabaseState (Option Value) := do
  match ← onCollection collection (Collection.getRaw key) with
  | none => pure none
  | some raw => do
    let doc ← liftErr (Document.decode raw)
    pure (some doc.value)

def isTombstone : Value → Bool
  | .tombstone _ _ => true
  | _ => false

def get (collection : String) (key : Uuid) : Proc Halt DatabaseState (Option Value) := do
  let value ← getIncludingTombstone collection key
  pure (value.filter fun v => !isTombstone v)

def replace (collection : String) (key : Uuid) (old new : Value) (version : Option Value) :
    Proc Halt DatabaseState Unit := do
  let txId ← beginTx
  let delRecords ← onCollection collection (Collection.deleteDoc key old)
  logWrites txId delRecords
  let encoded := Document.encode ⟨key, new⟩
  let (_, insRecords) ← onCollection collection (Collection.insertDoc key new encoded)
  logWrites txId insRecords
  commit txId collection key version

def update (collection : String) (key : Uuid) (value : Value) : Proc Halt DatabaseState Unit := do
  match ← getIncludingTombstone collection key with
  | none => fail (.err (.keyNotFound key))
  | some oldValue => do
    ensureBaselineVersion collection key oldValue
    replace collection key oldValue value (some value)

def tombstone (nodeId : U128) (deletedAtHlc : Hlc) : Value :=
  .tombstone deletedAtHlc (VectorClock.singleton nodeId deletedAtHlc).encode

def delete (collection : String) (key : Uuid) : Proc Halt DatabaseState Unit := do
  match ← get collection key with
  | none => fail (.err (.keyNotFound key))
  | some value => do
    ensureBaselineVersion collection key value
    let deletedAtHlc ← now
    let nodeId ← gets DatabaseState.nodeId
    replace collection key value (tombstone nodeId deletedAtHlc) none

def checkName (name : String) : Except GrumpyError Unit :=
  (validateName name).mapError fun e =>
    match e with
    | .invalidName msg => .invalidName msg
    | e => .invalidName e.display

def createIndex (collection indexName fieldPath : String) : Proc Halt DatabaseState Unit := do
  liftErr (checkName indexName)
  onCollection collection (Collection.createIndex indexName fieldPath)

end Calls

end DatabaseState

end GrumpyDB
