/-
The B+tree: search, insertion with splits, deletion with redistribution and merging, and ordered
scans.

The descent records the pages it went through as a stack: its head is the parent of the leaf.
Loops that walk down the tree or along the leaves end in `Halt.diverge` when they visit more pages
than the file has, which they do exactly when they go round in a circle.
-/
import GrumpyDB.Node
import GrumpyDB.Manager

namespace GrumpyDB

open BTreeKey Proc

section BTree

variable (K : Type) [LinearOrder K] [BTreeKey K]

structure BTreeMeta where
  rootPageId : UInt32
  height : Nat
  numEntries : Nat
  config : Config K

structure BTree where
  metaPageId : UInt32
  pm : PageManager
  info : BTreeMeta K

/-- Pages and child indexes from the root down, innermost first. -/
abbrev DescentPath := List (UInt32 × Nat)

variable {K}

namespace BTreeMeta

def bytes (m : BTreeMeta K) : List UInt8 :=
  leBytes 4 m.rootPageId.toNat ++ (leBytes 4 m.height ++ (leBytes 8 m.numEntries ++
    configBytes m.config))

def toPage (metaPageId : UInt32) (m : BTreeMeta K) : Page :=
  laidPage metaPageId .bTreeInternal m.bytes

def ofPage (buf : Page) : BTreeMeta K where
  rootPageId := UInt32.ofNat (buf.num 32 4)
  height := buf.num 36 4
  numEntries := buf.num 40 8
  config := readConfig (buf.read 48 (metaBytes K))

end BTreeMeta

namespace BTree

def META_PAGE_ID : UInt32 := 1

def onFile {α : Type} (x : Proc Halt PageManager α) : Proc Halt (BTree K) α :=
  zoom BTree.pm (fun pm t => { t with pm := pm }) x

variable [Crc32]

def createIn (cfg : Config K) : Proc Halt PageManager (UInt32 × BTreeMeta K) := do
  let metaPageId ← PageManager.allocatePage
  let rootPageId ← PageManager.allocatePage
  let root ← lift (LeafNode.new rootPageId cfg).toBytes
  PageManager.writePage rootPageId root
  let info : BTreeMeta K := ⟨rootPageId, 1, 0, cfg⟩
  PageManager.writePage metaPageId (info.toPage metaPageId)
  pure (metaPageId, info)

def createWith (cfg : Config K) : Proc Halt (Option File) (BTree K) := do
  let pm ← PageManager.new
  let (r, pm) ← PageManager.session pm (createIn cfg)
  pure ⟨r.1, pm, r.2⟩

def openFile : Proc Halt (Option File) (BTree K) := do
  let pm ← PageManager.new
  let (metaBuf, pm) ← PageManager.session pm (PageManager.readPage META_PAGE_ID)
  pure ⟨META_PAGE_ID, pm, BTreeMeta.ofPage metaBuf⟩

def len (t : BTree K) : Nat := t.info.numEntries

def readPage (pageId : UInt32) : Proc Halt (BTree K) Page := onFile (PageManager.readPage pageId)

def allocPage : Proc Halt (BTree K) UInt32 := onFile PageManager.allocatePage

def freePage (pageId : UInt32) : Proc Halt (BTree K) Unit := onFile (PageManager.freePage pageId)

def flushMeta : Proc Halt (BTree K) Unit := do
  let t ← get
  onFile (PageManager.writePage t.metaPageId (t.info.toPage t.metaPageId))

def loadNode (pageId : UInt32) : Proc Halt (BTree K) (NodeRef K) := do
  let buf ← readPage pageId
  match PageHeader.pageTypeOf buf with
  | .bTreeInternal => do
    let n ← lift (InternalNode.fromBytes buf)
    pure (.internal n)
  | .bTreeLeaf => do
    let n ← lift (LeafNode.fromBytes buf)
    pure (.leaf n)
  | _ => fail (.err (.pageNotFound pageId))

/-- Read a page as a leaf, whatever its type says. -/
def readLeaf (pageId : UInt32) : Proc Halt (BTree K) (LeafNode K) := do
  let buf ← readPage pageId
  lift (LeafNode.fromBytes buf)

/-- Read a page as an internal node, whatever its type says. -/
def readInternal (pageId : UInt32) : Proc Halt (BTree K) (InternalNode K) := do
  let buf ← readPage pageId
  lift (InternalNode.fromBytes buf)

def saveInternal (n : InternalNode K) : Proc Halt (BTree K) Unit := do
  let buf ← lift n.toBytes
  onFile (PageManager.writePage n.pageId buf)

def saveLeaf (n : LeafNode K) : Proc Halt (BTree K) Unit := do
  let buf ← lift n.toBytes
  onFile (PageManager.writePage n.pageId buf)

/-! ### Search -/

def descend (key : K) : Nat → UInt32 → Proc Halt (BTree K) (LeafNode K)
  | 0, _ => fail .diverge
  | fuel + 1, current => do
    match ← loadNode current with
    | .leaf leaf => pure leaf
    | .internal n => descend key fuel (n.findChild key)

def findLeaf (key : K) : Proc Halt (BTree K) (LeafNode K) := do
  let t ← get
  descend key (t.pm.numPages + 1) t.info.rootPageId

def descendWithPath (key : K) :
    Nat → UInt32 → DescentPath → Proc Halt (BTree K) (LeafNode K × DescentPath)
  | 0, _, _ => fail .diverge
  | fuel + 1, current, path => do
    match ← loadNode current with
    | .leaf leaf => pure (leaf, path)
    | .internal n =>
      let childIdx := n.findChildIndex key
      descendWithPath key fuel (n.getChildAt childIdx) ((current, childIdx) :: path)

def findLeafWithPath (key : K) : Proc Halt (BTree K) (LeafNode K × DescentPath) := do
  let t ← get
  descendWithPath key (t.pm.numPages + 1) t.info.rootPageId []

def search (key : K) : Proc Halt (BTree K) (Option (UInt32 × UInt16)) := do
  let leaf ← findLeaf key
  match leaf.search key with
  | none => pure none
  | some idx =>
    match leaf.entries[idx]? with
    | some e => pure (some (e.pageId, e.slotId))
    | none => fail .index

/-! ### Insert -/

/-- Split a full leaf in two.  Returns the halves and the first key of the
right one, for promotion. -/
def splitLeaf (fullLeaf : LeafNode K) :
    Proc Halt (BTree K) (LeafNode K × LeafNode K × K) := do
  let mid := fullLeaf.entries.length / 2
  let rightPageId ← allocPage
  let right : LeafNode K :=
    ⟨rightPageId, fullLeaf.nextLeaf, fullLeaf.pageId, fullLeaf.config, fullLeaf.entries.drop mid⟩
  let left := { fullLeaf with entries := fullLeaf.entries.take mid, nextLeaf := rightPageId }
  match right.entries with
  | e :: _ => pure (left, right, e.key)
  | [] => fail .index

/-- Split a full internal node in two.  The median key is promoted and stays
in neither half. -/
def splitInternal (fullNode : InternalNode K) :
    Proc Halt (BTree K) (InternalNode K × InternalNode K × K) := do
  let mid := fullNode.entries.length / 2
  match fullNode.entries[mid]? with
  | none => fail .index
  | some midEntry => do
    let rightPageId ← allocPage
    let right : InternalNode K :=
      ⟨rightPageId, fullNode.rightChild, fullNode.config, fullNode.entries.drop (mid + 1)⟩
    let left := { fullNode with
      entries := fullNode.entries.take mid
      rightChild := midEntry.childPageId }
    pure (left, right, midEntry.key)

/-- Walk back up the descent path, inserting the promoted separator at each
level and splitting further where needed. -/
def propagateSplit : DescentPath → K → UInt32 → Proc Halt (BTree K) Unit
  | [], promotedKey, rightPageId => do
    -- Path exhausted: grow the tree by one level.
    let newRootPageId ← allocPage
    let t ← get
    saveInternal ⟨newRootPageId, rightPageId, t.info.config,
      [⟨promotedKey, t.info.rootPageId⟩]⟩
    modify fun t => { t with
      info := { t.info with rootPageId := newRootPageId, height := t.info.height + 1 } }
  | (parentPageId, _) :: path, promotedKey, rightPageId => do
    let node ← readInternal parentPageId
    let parent := node.insertEntry promotedKey rightPageId
    if !parent.isOverfull then saveInternal parent
    else do
      let (left, right, newPromoted) ← splitInternal parent
      saveInternal left
      saveInternal right
      propagateSplit path newPromoted right.pageId

/-- Let the leaf after `leaf`, if there is one, point back to `prev`. -/
def relinkNext (nextLeaf prev : UInt32) : Proc Halt (BTree K) Unit := do
  if nextLeaf ≠ 0 then do
    let next ← readLeaf nextLeaf
    saveLeaf { next with prevLeaf := prev }
  else pure ()

def setNumEntries (f : Nat → Nat) : Proc Halt (BTree K) Unit :=
  modify fun t => { t with info := { t.info with numEntries := f t.info.numEntries } }

def insert (key : K) (pageId : UInt32) (slotId : UInt16) : Proc Halt (BTree K) Unit := do
  let (leaf, path) ← findLeafWithPath key
  if (leaf.search key).isSome then fail (.err (duplicateKeyError key))
  else do
    let leaf := leaf.insertEntry ⟨key, pageId, slotId⟩
    if !leaf.isOverfull then do
      saveLeaf leaf
      setNumEntries (· + 1)
      flushMeta
    else do
      let (left, right, promotedKey) ← splitLeaf leaf
      saveLeaf left
      saveLeaf right
      relinkNext right.nextLeaf right.pageId
      propagateSplit path promotedKey right.pageId
      setNumEntries (· + 1)
      flushMeta

/-! ### Delete -/

def redistributeLeafFromLeft (left leaf : LeafNode K) (parent : InternalNode K)
    (childIdx : Nat) : Proc Halt (BTree K) Unit := do
  match left.entries.getLast? with
  | none => fail (.err (.corruption "redistribute_leaf_from_left: empty left sibling"))
  | some moved => do
    let left := { left with entries := left.entries.dropLast }
    let leaf := leaf.insertEntry moved
    match leaf.entries[0]?, parent.entries[childIdx - 1]? with
    | some first, some _ => do
      saveLeaf left
      saveLeaf leaf
      saveInternal (parent.setKey (childIdx - 1) first.key)
    | _, _ => fail .index

def redistributeLeafFromRight (leaf right : LeafNode K) (parent : InternalNode K)
    (childIdx : Nat) : Proc Halt (BTree K) Unit := do
  match right.entries with
  | [] => fail .index
  | moved :: rest => do
    let right := { right with entries := rest }
    let leaf := leaf.insertEntry moved
    match parent.entries[childIdx]?, rest.head? with
    | some _, none => fail .index
    | some _, some first => do
      saveLeaf leaf
      saveLeaf right
      saveInternal (parent.setKey childIdx first.key)
    | none, _ => do
      saveLeaf leaf
      saveLeaf right
      saveInternal parent

def redistributeInternalFromLeft (left node gp : InternalNode K) (childIdx : Nat) :
    Proc Halt (BTree K) Unit := do
  match gp.entries[childIdx - 1]?, left.entries.getLast? with
  | none, _ => fail .index
  | some _, none =>
    fail (.err (.corruption "redistribute_internal_from_left: empty left sibling"))
  | some separator, some movedUp => do
    saveInternal { left with
      entries := left.entries.dropLast
      rightChild := movedUp.childPageId }
    saveInternal { node with entries := ⟨separator.key, left.rightChild⟩ :: node.entries }
    saveInternal (gp.setKey (childIdx - 1) movedUp.key)

def redistributeInternalFromRight (node right gp : InternalNode K) (childIdx : Nat) :
    Proc Halt (BTree K) Unit := do
  match gp.entries[childIdx]?, right.entries with
  | none, _ => pure ()
  | some _, [] => fail .index
  | some separator, movedUp :: rest => do
    saveInternal { node with
      entries := node.entries ++ [⟨separator.key, node.rightChild⟩]
      rightChild := movedUp.childPageId }
    saveInternal { right with entries := rest }
    saveInternal (gp.setKey childIdx movedUp.key)

/-- Merge two internal siblings and take the right one out of their parent with
`removeFrom`. -/
def mergeInternal (removeFrom : InternalNode K → Nat → Proc Halt (BTree K) Unit)
    (left right gp : InternalNode K) (rightChildIdx : Nat) : Proc Halt (BTree K) Unit := do
  match gp.entries[rightChildIdx - 1]? with
  | none => fail .index
  | some separator => do
    freePage right.pageId
    saveInternal { left with
      entries := left.entries ++ ⟨separator.key, left.rightChild⟩ :: right.entries
      rightChild := right.rightChild }
    removeFrom gp rightChildIdx

/-- Rebalance an underfull internal node through a sibling, the left one if
there is one. -/
def rebalanceInternal (removeFrom : InternalNode K → Nat → Proc Halt (BTree K) Unit)
    (node : InternalNode K) (gpPageId : UInt32) (childIdx : Nat) : Proc Halt (BTree K) Unit := do
  let gp ← readInternal gpPageId
  let numChildren := gp.entries.length + 1
  let t ← get
  let min := internalMinKeys t.info.config
  if childIdx > 0 then do
    let left ← readInternal (gp.getChildAt (childIdx - 1))
    if left.entries.length > min then redistributeInternalFromLeft left node gp childIdx
    else mergeInternal removeFrom left node gp childIdx
  else if childIdx + 1 < numChildren then do
    let right ← readInternal (gp.getChildAt (childIdx + 1))
    if right.entries.length > min then redistributeInternalFromRight node right gp childIdx
    else mergeInternal removeFrom node right gp (childIdx + 1)
  else pure ()

/-- Remove a child from an internal node after a merge.  An underfull node is
rebalanced in turn; a root without keys gives way to its only child. -/
def removeFromInternal : DescentPath → InternalNode K → Nat → Proc Halt (BTree K) Unit
  | [], parent, mergedChildIdx =>
    if mergedChildIdx ≤ parent.entries.length then do
      let parent := parent.removeChild mergedChildIdx
      if parent.entries.length = 0 then do
        freePage parent.pageId
        modify fun t => { t with
          info := { t.info with
            rootPageId := parent.rightChild
            height := if t.info.height > 1 then t.info.height - 1 else t.info.height } }
      else saveInternal parent
    else fail .index
  | (gpPageId, childIdx) :: path, parent, mergedChildIdx =>
    if mergedChildIdx ≤ parent.entries.length then do
      let parent := parent.removeChild mergedChildIdx
      saveInternal parent
      if parent.isUnderfull then
        rebalanceInternal (fun gp i => removeFromInternal path gp i) parent gpPageId childIdx
      else pure ()
    else fail .index

def mergeLeaves (left right : LeafNode K) (parent : InternalNode K) (rightChildIdx : Nat)
    (path : DescentPath) : Proc Halt (BTree K) Unit := do
  let merged := right.entries.foldl LeafNode.insertEntry left
  let merged := { merged with nextLeaf := right.nextLeaf }
  relinkNext right.nextLeaf merged.pageId
  freePage right.pageId
  saveLeaf merged
  removeFromInternal path parent rightChildIdx

def rebalanceLeaf (leaf : LeafNode K) : DescentPath → Proc Halt (BTree K) Unit
  | [] => fail (.err (.corruption "rebalance_leaf: empty path"))
  | (parentPageId, childIdx) :: path => do
    let parent ← readInternal parentPageId
    let numChildren := parent.entries.length + 1
    let t ← get
    let min := leafMinEntries t.info.config
    if childIdx > 0 then do
      let leftSib ← readLeaf (parent.getChildAt (childIdx - 1))
      if leftSib.entries.length > min then redistributeLeafFromLeft leftSib leaf parent childIdx
      else mergeLeaves leftSib leaf parent childIdx path
    else if childIdx + 1 < numChildren then do
      let rightSib ← readLeaf (parent.getChildAt (childIdx + 1))
      if rightSib.entries.length > min then redistributeLeafFromRight leaf rightSib parent childIdx
      else mergeLeaves leaf rightSib parent (childIdx + 1) path
    else pure ()

def delete (key : K) : Proc Halt (BTree K) Unit := do
  let (leaf, path) ← findLeafWithPath key
  match leaf.removeEntry key with
  | none => fail (.err (keyNotFoundError key))
  | some leaf => do
    saveLeaf leaf
    setNumEntries (· - 1)
    -- A root leaf may be empty; any other leaf is rebalanced when underfull.
    if path.isEmpty || !leaf.isUnderfull then flushMeta
    else do
      rebalanceLeaf leaf path
      flushMeta

/-! ### Ordered scans -/

/-- A positioned cursor over leaf entries. -/
structure Cursor (K : Type) where
  entries : List (LeafEntry K)
  pos : Nat
  /-- Page of the next leaf (`0` is the end of the list). -/
  nextLeafId : UInt32

def descendFirst : Nat → UInt32 → Proc Halt (BTree K) (LeafNode K)
  | 0, _ => fail .diverge
  | fuel + 1, current => do
    match ← loadNode current with
    | .leaf leaf => pure leaf
    | .internal n => descendFirst fuel (n.getChildAt 0)

def findFirstLeaf : Proc Halt (BTree K) (LeafNode K) := do
  let t ← get
  descendFirst (t.pm.numPages + 1) t.info.rootPageId

def cursor : Proc Halt (BTree K) (Cursor K) := do
  let leaf ← findFirstLeaf
  pure ⟨leaf.entries, 0, leaf.nextLeaf⟩

/-- A cursor at the first entry with key at least `startKey`. -/
def cursorFrom (startKey : K) : Proc Halt (BTree K) (Cursor K) := do
  let leaf ← findLeaf startKey
  pure ⟨leaf.entries, searchIndex (binarySearchBy LeafEntry.key startKey leaf.entries),
    leaf.nextLeaf⟩

def advance : Nat → Cursor K → Proc Halt (BTree K) (Option (LeafEntry K × Cursor K))
  | 0, _ => fail .diverge
  | fuel + 1, c =>
    match c.entries[c.pos]? with
    | some e => pure (some (e, { c with pos := c.pos + 1 }))
    | none =>
      if c.nextLeafId = 0 then pure none
      else do
        let leaf ← readLeaf c.nextLeafId
        advance fuel ⟨leaf.entries, 0, leaf.nextLeaf⟩

/-- The next entry and the cursor after it, or `none` at the end. -/
def nextEntry (c : Cursor K) : Proc Halt (BTree K) (Option (LeafEntry K × Cursor K)) := do
  let t ← get
  advance (t.pm.numPages + 1) c

def collect (stop : Option K) : Nat → Cursor K → Proc Halt (BTree K) (List (LeafEntry K))
  | 0, _ => fail .diverge
  | fuel + 1, c => do
    match ← nextEntry c with
    | none => pure []
    | some (item, c) =>
      if stop.any fun stopKey => decide (stopKey ≤ item.key) then pure []
      else do
        let rest ← collect stop fuel c
        pure (item :: rest)

/-- All entries with `start ≤ key < stop`; an absent bound imposes nothing.  A
leaf has fewer than 2^16 entries, so a scan that yields more entries than there
are slots in the file goes round in a circle. -/
def range (start stop : Option K) : Proc Halt (BTree K) (List (LeafEntry K)) := do
  let c ← match start with
    | some s => cursorFrom s
    | none => cursor
  let t ← get
  collect stop (t.pm.numPages * 2 ^ 16 + 1) c

def scanAll : Proc Halt (BTree K) (List (LeafEntry K)) := range none none

end BTree

end BTree

end GrumpyDB
