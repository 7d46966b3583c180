/-
The pages of a tree file seen as a heap of nodes.

From here on the algorithms of the tree are about this heap; page bytes, checksums and the free
list do not come up again. A node is split in its content (`HasLeaf`, `HasRow`) and the links of
a leaf (`HasLinks`), so a tree is not disturbed by relinking.
-/
import GrumpyDB.BTree
import GrumpyDB.Lib.Except

namespace GrumpyDB

open BTreeKey Proc Option

section Heap

variable {K : Type} [LinearOrder K] [BTreeKey K]

abbrev Heap (K : Type) [LinearOrder K] [BTreeKey K] := UInt32 → Option (NodeRef K)

def nodeOf (p : Page) : Option (NodeRef K) :=
  match PageHeader.pageTypeOf p with
  | .bTreeInternal => (InternalNode.fromBytes p).toOption.map .internal
  | .bTreeLeaf => (LeafNode.fromBytes p).toOption.map .leaf
  | _ => none

def nodeAt (pm : PageManager) : Heap K := fun i => (pm.page? i).bind nodeOf

def BTree.heap (t : BTree K) : Heap K := nodeAt t.pm

variable {i : UInt32}

theorem nodeAt_congr {pm pm' : PageManager} (h : pm'.page? i = pm.page? i) :
    (nodeAt pm' : Heap K) i = nodeAt pm i := by
  rw [nodeAt, h, nodeAt]

theorem nodeOf_leaf {p : Page} {n : LeafNode K} (h : nodeOf p = some (.leaf n)) :
    PageHeader.pageTypeOf p = .bTreeLeaf ∧ LeafNode.fromBytes p = .ok n := by
  unfold nodeOf at h
  split at h
  · simp at h
  · rename_i hty
    obtain ⟨m, hm, hmn⟩ := map_eq_some_iff.mp h
    rw [NodeRef.leaf.injEq] at hmn
    exact ⟨hty, hmn ▸ eq_ok_of_toOption hm⟩
  · cases h

variable {n : InternalNode K}

theorem nodeOf_internal {p : Page} (h : nodeOf p = some (.internal n)) :
    PageHeader.pageTypeOf p = .bTreeInternal ∧ InternalNode.fromBytes p = .ok n := by
  unfold nodeOf at h
  split at h
  · rename_i hty
    obtain ⟨m, hm, hmn⟩ := map_eq_some_iff.mp h
    rw [NodeRef.internal.injEq] at hmn
    exact ⟨hty, hmn ▸ eq_ok_of_toOption hm⟩
  · simp at h
  · cases h

variable {pm : PageManager}

theorem nodeAt_leaf {n : LeafNode K} (h : nodeAt pm i = some (.leaf n)) :
    ∃ p, pm.page? i = some p ∧ PageHeader.pageTypeOf p = .bTreeLeaf ∧
      LeafNode.fromBytes p = .ok n := by
  obtain ⟨p, hp, hn⟩ := bind_eq_some_iff.mp h
  exact ⟨p, hp, nodeOf_leaf hn⟩

theorem nodeAt_internal (h : nodeAt pm i = some (.internal n)) :
    ∃ p, pm.page? i = some p ∧ PageHeader.pageTypeOf p = .bTreeInternal ∧
      InternalNode.fromBytes p = .ok n := by
  obtain ⟨p, hp, hn⟩ := bind_eq_some_iff.mp h
  exact ⟨p, hp, nodeOf_internal hn⟩

/-! ### What a node holds -/

def LeafNode.Sound (n : LeafNode K) : Prop :=
  n.entries.length ≤ leafMaxEntries n.config ∧ ∀ e ∈ n.entries, Fits n.config e.key

/-- The internal node can be written to its page. -/
def InternalNode.Sound (n : InternalNode K) : Prop :=
  n.entries.length ≤ internalMaxKeys n.config ∧ ∀ e ∈ n.entries, Fits n.config e.key

theorem InternalNode.sound_of_row {r : Row K UInt32} (h : n.row = r)
    (hlen : r.keys.length ≤ internalMaxKeys n.config) (hfit : ∀ k ∈ r.keys, Fits n.config k) :
    n.Sound := by
  refine ⟨by rwa [InternalNode.length_entries h], fun e he => hfit e.key ?_⟩
  rw [← h, InternalNode.keys_row]
  exact List.mem_map_of_mem he

section Content

variable (cfg : Config K) (N : Heap K)

/-- Page `i` is a leaf with these entries. -/
def HasLeaf (i : UInt32) (es : List (LeafEntry K)) : Prop :=
  ∃ n, N i = some (.leaf n) ∧ n.pageId = i ∧ n.config = cfg ∧ n.entries = es ∧ n.Sound

/-- Page `i` is an internal node with this row of children. -/
def HasRow (i : UInt32) (r : Row K UInt32) : Prop :=
  ∃ n, N i = some (.internal n) ∧ n.pageId = i ∧ n.config = cfg ∧ n.row = r ∧ n.Sound

/-- Page `i` is a leaf between the leaves `prev` and `next`. -/
def HasLinks (i prev next : UInt32) : Prop :=
  ∃ n, N i = some (.leaf n) ∧ n.prevLeaf = prev ∧ n.nextLeaf = next

/-- The content of page `i` is the same in both heaps; links may differ. -/
def Keeps (N' : Heap K) (i : UInt32) : Prop :=
  (∀ es, HasLeaf cfg N i es → HasLeaf cfg N' i es) ∧ ∀ r, HasRow cfg N i r → HasRow cfg N' i r

end Content

variable {cfg : Config K} {N N' N'' : Heap K} {i j : UInt32}

theorem Keeps.of_eq (h : N' i = N i) : Keeps cfg N N' i := by
  simp only [Keeps, HasLeaf, HasRow, h]
  exact ⟨fun _ => id, fun _ => id⟩

theorem Keeps.trans (h : Keeps cfg N N' i) (h' : Keeps cfg N' N'' i) : Keeps cfg N N'' i :=
  ⟨fun es he => h'.1 es (h.1 es he), fun r hr => h'.2 r (h.2 r hr)⟩

theorem HasLinks.of_eq {prev next : UInt32} (h : N' i = N i) (hl : HasLinks N i prev next) :
    HasLinks N' i prev next := by
  simpa only [HasLinks, h] using hl

theorem hasRow_of_node (h : N n.pageId = some (.internal n)) (hs : n.Sound) :
    HasRow n.config N n.pageId n.row := ⟨n, h, rfl, rfl, rfl, hs⟩

/-! ### The heap after a save -/

namespace BTree

theorem post_onFile {α : Type} {x : Proc Halt PageManager α} {Q : α → BTree K → Prop}
    {E : Halt → BTree K → Prop} {t : BTree K} :
    Post (onFile x) Q E t ↔
      Post x (fun a pm => Q a { t with pm := pm }) (fun e pm => E e { t with pm := pm }) t.pm :=
  post_zoom

def Full (t : BTree K) : Prop := t.pm.Full

def bufOf : Except Halt Page → Page
  | .ok p => p
  | .error _ => Page.zero

variable [Crc32]

def put (t : BTree K) (i : UInt32) (p : Page) : BTree K :=
  { t with pm := t.pm.setPage i (stampChecksum p) }

def putLeaf (t : BTree K) (n : LeafNode K) : BTree K := t.put n.pageId (bufOf n.toBytes)

def putInternal (t : BTree K) (n : InternalNode K) : BTree K :=
  t.put n.pageId (bufOf n.toBytes)

@[simp] theorem info_put (t : BTree K) (i : UInt32) (p : Page) : (t.put i p).info = t.info := rfl

@[simp] theorem metaPageId_put (t : BTree K) (i : UInt32) (p : Page) :
    (t.put i p).metaPageId = t.metaPageId := rfl

@[simp] theorem info_putLeaf (t : BTree K) (n : LeafNode K) : (t.putLeaf n).info = t.info := rfl

@[simp] theorem metaPageId_putLeaf (t : BTree K) (n : LeafNode K) :
    (t.putLeaf n).metaPageId = t.metaPageId := rfl

@[simp] theorem info_putInternal (t : BTree K) (n : InternalNode K) :
    (t.putInternal n).info = t.info := rfl

@[simp] theorem metaPageId_putInternal (t : BTree K) (n : InternalNode K) :
    (t.putInternal n).metaPageId = t.metaPageId := rfl

end BTree

namespace BTree

variable [Crc32] {t : BTree K} {used : Set UInt32}

variable {p : Page}

theorem put_ok (h : t.pm.Ok used) (hi : i ∈ used) : (t.put i p).pm.Ok used :=
  h.setPage hi fun _ => verifyChecksum_stampChecksum _ _

theorem putLeaf_ok {n : LeafNode K} (h : t.pm.Ok used) (hi : n.pageId ∈ used) :
    (t.putLeaf n).pm.Ok used := put_ok h hi

variable {n : InternalNode K}

theorem putInternal_ok (h : t.pm.Ok used) (hi : n.pageId ∈ used) :
    (t.putInternal n).pm.Ok used := put_ok h hi

theorem heap_put_ne (h : j ≠ i) : (t.put i p).heap j = t.heap j :=
  nodeAt_congr (PageManager.page?_setPage_ne h)

theorem heap_putLeaf_self {n : LeafNode K} (h : t.pm.Ok used) (hi : n.pageId ∈ used)
    (hn : n.Sound) : (t.putLeaf n).heap n.pageId = some (.leaf n) := by
  obtain ⟨p, hp, hty, hread⟩ := LeafNode.toBytes_ok hn.1 hn.2
  have hpage : (t.putLeaf n).pm.page? n.pageId = some (stampChecksum p) := by
    rw [putLeaf, hp]
    exact PageManager.page?_setPage_self (by rw [h.length]; exact (h.used _ hi).2)
  simp only [heap, nodeAt, hpage, bind_some, nodeOf, pageTypeOf_stampChecksum, hty, hread]
  rfl

theorem heap_putInternal_self (h : t.pm.Ok used) (hi : n.pageId ∈ used) (hn : n.Sound) :
    (t.putInternal n).heap n.pageId = some (.internal n) := by
  obtain ⟨p, hp, hty, hread⟩ := InternalNode.toBytes_ok hn.1 hn.2
  have hpage : (t.putInternal n).pm.page? n.pageId = some (stampChecksum p) := by
    rw [putInternal, hp]
    exact PageManager.page?_setPage_self (by rw [h.length]; exact (h.used _ hi).2)
  simp only [heap, nodeAt, hpage, bind_some, nodeOf, pageTypeOf_stampChecksum, hty, hread]
  rfl

theorem heap_putLeaf_ne {n : LeafNode K} (h : j ≠ n.pageId) : (t.putLeaf n).heap j = t.heap j :=
  heap_put_ne h

theorem heap_putInternal_ne (h : j ≠ n.pageId) :
    (t.putInternal n).heap j = t.heap j := heap_put_ne h

/-! ### What each primitive does -/

variable {E : Halt → BTree K → Prop}

theorem post_readPage {Q : Page → BTree K → Prop} (h : t.pm.Ok used) (hp : t.pm.page? i = some p) :
    Post (readPage i) Q E t ↔ Q p t := by
  rw [readPage, post_onFile, PageManager.post_readPage h hp]

theorem post_readLeaf {n : LeafNode K} {Q : LeafNode K → BTree K → Prop} (h : t.pm.Ok used)
    (hn : t.heap i = some (.leaf n)) : Post (readLeaf i) Q E t ↔ Q n t := by
  obtain ⟨p, hp, -, hread⟩ := nodeAt_leaf hn
  rw [readLeaf, post_bind, post_readPage h hp, hread, post_lift_ok]

theorem post_readInternal {Q : InternalNode K → BTree K → Prop} (h : t.pm.Ok used)
    (hn : t.heap i = some (.internal n)) : Post (readInternal i) Q E t ↔ Q n t := by
  obtain ⟨p, hp, -, hread⟩ := nodeAt_internal hn
  rw [readInternal, post_bind, post_readPage h hp, hread, post_lift_ok]

theorem post_loadNode {n : NodeRef K} {Q : NodeRef K → BTree K → Prop} (h : t.pm.Ok used)
    (hn : t.heap i = some n) : Post (loadNode i) Q E t ↔ Q n t := by
  rcases n with n | n
  · obtain ⟨p, hp, hty, hread⟩ := nodeAt_internal hn
    rw [loadNode, post_bind, post_readPage h hp]
    simp only [hty, post_bind, hread, post_lift_ok, post_pure]
  · obtain ⟨p, hp, hty, hread⟩ := nodeAt_leaf hn
    rw [loadNode, post_bind, post_readPage h hp]
    simp only [hty, post_bind, hread, post_lift_ok, post_pure]

variable {Q : Unit → BTree K → Prop}

theorem post_saveLeaf {n : LeafNode K} (h : t.pm.Ok used) (hi : n.pageId ∈ used) (hn : n.Sound) :
    Post (saveLeaf n) Q E t ↔ Q () (t.putLeaf n) := by
  obtain ⟨p, hp, -, -⟩ := LeafNode.toBytes_ok hn.1 hn.2
  rw [saveLeaf, post_bind, hp, post_lift_ok, post_onFile,
    PageManager.post_writePage h (h.used _ hi).2, putLeaf, hp]
  rfl

theorem post_saveInternal (h : t.pm.Ok used) (hi : n.pageId ∈ used) (hn : n.Sound) :
    Post (saveInternal n) Q E t ↔ Q () (t.putInternal n) := by
  obtain ⟨p, hp, -, -⟩ := InternalNode.toBytes_ok hn.1 hn.2
  rw [saveInternal, post_bind, hp, post_lift_ok, post_onFile,
    PageManager.post_writePage h (h.used _ hi).2, putInternal, hp]
  rfl

structure Allocated (t : BTree K) (used : Set UInt32) (i : UInt32) (t' : BTree K) : Prop where
  fresh : i ∉ used
  ok : t'.pm.Ok (Insert.insert i used)
  frame : ∀ j, j ≠ 0 → j ≠ i → t'.heap j = t.heap j
  info : t'.info = t.info
  metaPageId : t'.metaPageId = t.metaPageId

theorem allocPage_spec (h : t.pm.Ok used) :
    Yields Full allocPage (fun i t' => Allocated t used i t') t := by
  unfold Yields
  rw [allocPage, post_onFile]
  refine (PageManager.allocatePage_spec h).mono ?_
  intro i pm' ha
  exact ⟨ha.fresh, ha.ok, fun j h0 hj => nodeAt_congr (ha.frame j h0 hj), rfl, rfl⟩

structure Freed (t : BTree K) (used : Set UInt32) (i : UInt32) (t' : BTree K) : Prop where
  ok : t'.pm.Ok (used \ {i})
  frame : ∀ j, j ≠ 0 → j ≠ i → t'.heap j = t.heap j
  info : t'.info = t.info
  metaPageId : t'.metaPageId = t.metaPageId

theorem freePage_spec (h : t.pm.Ok used) (hi : i ∈ used) :
    Post (freePage i) (fun _ t' => Freed t used i t') E t := by
  rw [freePage, post_onFile]
  refine (PageManager.freePage_spec h hi).imp ?_
  intro _ pm' hf
  exact ⟨hf.ok, fun j h0 hj => nodeAt_congr (hf.frame j h0 hj), rfl, rfl⟩

theorem post_flushMeta (h : t.pm.Ok used) (hm : t.metaPageId ∈ used) :
    Post flushMeta Q E t ↔ Q () (t.put t.metaPageId (t.info.toPage t.metaPageId)) := by
  rw [flushMeta, post_bind, post_get, post_onFile,
    PageManager.post_writePage h (h.used _ hm).2]
  rfl

end BTree

end Heap

end GrumpyDB
