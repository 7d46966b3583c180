/-
A collection: documents on slotted pages, found through a B+tree.

The files that are open are kept with their handles; `overlay` is what the directory has under a
name when that is not the file of the handle: a file nobody has open, one that was renamed over an
open one, or nothing where an open file was removed.
-/
import GrumpyDB.Pool
import GrumpyDB.Open

namespace GrumpyDB

open Proc

abbrev Dir := String → Option File

def Dir.onFile {α : Type} (name : String) (x : Proc Halt (Option File) α) : Proc Halt Dir α :=
  zoom (fun d => d name) (fun f d => Function.update d name f) x

structure IndexDefinition where
  name : String
  fieldPath : String
  deriving DecidableEq, Repr

/-- A secondary index over its own B+tree. -/
structure SecondaryIndex where
  defn : IndexDefinition
  btree : BTree (List UInt8)

def indexFile (name : String) : String := "idx_" ++ name ++ ".idx"

def INLINE_MAX : Nat := PAGE_USABLE_SPACE - SLOT_SIZE

/-- Before and after images of a page, for the log. -/
structure PageWriteRecord where
  pageId : UInt32
  before : Page
  after : Page

/-- A named collection of documents with a primary index. -/
structure Collection where
  dataPool : BufferPool
  btree : BTree Uuid
  currentDataPage : UInt32
  secondaryIndexes : List SecondaryIndex
  indexDefs : List IndexDefinition
  overlay : String → Option (Option File)

inductive Bound where
  | included (key : Uuid)
  | excluded (key : Uuid)
  | unbounded
  deriving DecidableEq

namespace Collection

def DATA_FILE : String := "data.db"

def INDEX_FILE : String := "primary.idx"

def files (c : Collection) : Dir := fun name =>
  match c.overlay name with
  | some f => f
  | none =>
    if name = DATA_FILE then some c.dataPool.pm.file
    else if name = INDEX_FILE then some c.btree.pm.file
    else (c.secondaryIndexes.find? fun idx => indexFile idx.defn.name = name).map
      fun idx => idx.btree.pm.file

def onPool {α : Type} (x : Proc Halt BufferPool α) : Proc Halt Collection α :=
  zoom Collection.dataPool (fun dataPool c => { c with dataPool }) x

def onTree {α : Type} (x : Proc Halt (BTree Uuid) α) : Proc Halt Collection α :=
  zoom Collection.btree (fun btree c => { c with btree }) x

variable [Crc32]

/-! ### Opening -/

def allocDataPage : Proc Halt PageManager UInt32 := do
  let pageId ← PageManager.allocatePage
  PageManager.writePage pageId (SlottedPage.new pageId)
  pure pageId

def findDataPage : Nat → Proc Halt PageManager (Option UInt32)
  | 0 => pure none
  | pid + 1 =>
    -- Page 0 holds the free list.
    if pid = 0 then pure none
    else do
      let buf ← PageManager.readPage (UInt32.ofNat pid)
      if PageHeader.pageTypeOf buf = .data then pure (some (UInt32.ofNat pid))
      else findDataPage pid

def findOrAllocDataPage : Proc Halt PageManager UInt32 := do
  let numPages ← gets PageManager.numPages
  match ← findDataPage numPages with
  | some pid => pure pid
  | none => allocDataPage

def openDir (poolCapacity : Nat) : Proc Halt Dir Collection := do
  let d ← get
  let dataExists : Bool := (d DATA_FILE).getD [] ≠ []
  let indexExists : Bool := (d INDEX_FILE).getD [] ≠ []
  let dataPm ← Dir.onFile DATA_FILE PageManager.new
  let btree ← Dir.onFile INDEX_FILE
    (if indexExists then BTree.openFile else BTree.createWith ())
  let (currentDataPage, dataPm) ← Dir.onFile DATA_FILE
    (PageManager.session dataPm (if dataExists then findOrAllocDataPage else allocDataPage))
  let d ← get
  pure
    { dataPool := BufferPool.new poolCapacity dataPm
      btree
      currentDataPage
      secondaryIndexes := []
      indexDefs := []
      overlay := fun name =>
        if name = DATA_FILE ∨ name = INDEX_FILE then none else (d name).map some }

/-! ### Tuples -/

/-- Store a tuple on the current data page, or on a new one when it is full. -/
def storeInline (encoded : List UInt8) :
    Proc Halt Collection ((UInt32 × UInt16) × List PageWriteRecord) := do
  let current ← gets Collection.currentDataPage
  let frameIdx ← onPool (BufferPool.fetchPage current)
  let frame ← onPool (BufferPool.getFrame frameIdx)
  let before := frame.data
  let inserted := SlottedPage.insert encoded before
  match inserted.res with
  | .ok slotId => do
    let after := inserted.st
    onPool do
      BufferPool.setFrameData frameIdx after
      BufferPool.unpin current true
      pure ((current, slotId), [⟨current, before, after⟩])
  | .error (.err (.pageFull _)) => do
    onPool (BufferPool.unpin current false)
    let (newPageId, newFidx) ← onPool BufferPool.newPage
    let inserted := SlottedPage.insert encoded (SlottedPage.new newPageId)
    let slotId ← lift inserted.res
    let after := inserted.st
    onPool do
      BufferPool.setFrameData newFidx after
      BufferPool.unpin newPageId true
      pure ()
    modify fun c => { c with currentDataPage := newPageId }
    pure ((newPageId, slotId), [⟨newPageId, Page.zero, after⟩])
  | .error (.err e) => do
    onPool (BufferPool.unpin current false)
    fail (.err e)
  | .error e => fail e

def storeOverflow (encoded : List UInt8) :
    Proc Halt Collection ((UInt32 × UInt16) × List PageWriteRecord) := do
  let overflowPageId ← onPool (BufferPool.pageManager (Overflow.writeOverflow encoded))
  storeInline (Overflow.encodeOverflowRef overflowPageId (UInt32.ofNat encoded.length))

def storeTuple (encoded : List UInt8) :
    Proc Halt Collection ((UInt32 × UInt16) × List PageWriteRecord) :=
  if encoded.length > INLINE_MAX then storeOverflow encoded else storeInline encoded

def readSlotData (frameIdx : Nat) (slotId : UInt16) : Proc Halt BufferPool (List UInt8) := do
  let frame ← BufferPool.getFrame frameIdx
  lift (SlottedPage.get slotId frame.data).res

def readTuple (pageId : UInt32) (slotId : UInt16) : Proc Halt Collection (List UInt8) :=
  onPool do
    let frameIdx ← BufferPool.fetchPage pageId
    let slotData ← readSlotData frameIdx slotId
    BufferPool.unpin pageId false
    if Overflow.isOverflow slotData then
      match Overflow.decodeOverflowRef slotData with
      | none => fail (.err (.corruption "malformed overflow ref"))
      | some (overflowPageId, _) =>
        BufferPool.pageManager (Overflow.readOverflow overflowPageId)
    else pure slotData

def freeTuple (slotData : List UInt8) : Proc Halt BufferPool Unit :=
  if Overflow.isOverflow slotData then
    match Overflow.decodeOverflowRef slotData with
    | none => fail (.err (.corruption "malformed overflow ref"))
    | some (overflowPageId, _) => BufferPool.pageManager (Overflow.freeOverflow overflowPageId)
  else pure ()

def removeTuple (pageId : UInt32) (slotId : UInt16) :
    Proc Halt Collection (List PageWriteRecord) :=
  onPool do
    let frameIdx ← BufferPool.fetchPage pageId
    let slotData ← readSlotData frameIdx slotId
    freeTuple slotData
    let frame ← BufferPool.getFrame frameIdx
    let before := frame.data
    let deleted := SlottedPage.delete slotId before
    lift deleted.res
    let after := deleted.st
    BufferPool.setFrameData frameIdx after
    BufferPool.unpin pageId true
    pure [⟨pageId, before, after⟩]

/-! ### Documents -/

def insertRaw (key : Uuid) (encoded : List UInt8) :
    Proc Halt Collection ((UInt32 × UInt16) × List PageWriteRecord) := do
  let found ← onTree (BTree.search key)
  if found.isSome then fail (.err (.duplicateKey key))
  else do
    let (location, records) ← storeTuple encoded
    onTree (BTree.insert key location.1 location.2)
    pure (location, records)

def getRaw (key : Uuid) : Proc Halt Collection (Option (List UInt8)) := do
  match ← onTree (BTree.search key) with
  | none => pure none
  | some (pageId, slotId) => do
    let raw ← readTuple pageId slotId
    pure (some raw)

def deleteRaw (key : Uuid) : Proc Halt Collection (List PageWriteRecord) := do
  match ← onTree (BTree.search key) with
  | none => fail (.err (.keyNotFound key))
  | some (pageId, slotId) => do
    let records ← removeTuple pageId slotId
    onTree (BTree.delete key)
    pure records

end Collection

namespace Bound

def start : Bound → Option Uuid
  | included key => some key
  | excluded key => some key
  | unbounded => none

def endsBefore (stop : Bound) (key : Uuid) : Bool :=
  match stop with
  | included last => last < key
  | excluded last => last ≤ key
  | unbounded => false

def skips (start : Bound) (key : Uuid) : Bool :=
  match start with
  | excluded first => key = first
  | _ => false

end Bound

namespace Collection

variable [Crc32]

/-- The documents of the entries, as long as they are in the range. -/
def scanEntries (start stop : Bound) :
    List (LeafEntry Uuid) → Proc Halt Collection (List (Uuid × List UInt8))
  | [] => pure []
  | entry :: entries =>
    if stop.endsBefore entry.key then pure []
    else if start.skips entry.key then scanEntries start stop entries
    else do
      let raw ← readTuple entry.pageId entry.slotId
      let rest ← scanEntries start stop entries
      pure ((entry.key, raw) :: rest)

def scanRaw (start stop : Bound) : Proc Halt Collection (List (Uuid × List UInt8)) := do
  let entries ← onTree (BTree.range start.start none)
  scanEntries start stop entries

def flush : Proc Halt Collection Unit := onPool BufferPool.flushAll

end Collection

end GrumpyDB
