/-
Room in the files of a collection.

The operations on documents take a page for every piece of a document and at most one more, so
with that many ids left they return.
-/
import GrumpyDB.Documents
import GrumpyDB.Ordered
import GrumpyDB.Lib.Growth

namespace GrumpyDB

open Proc List PageManager BufferPool

section Room

variable [Crc32]

/-! ### What is taken from a page file -/

namespace PageManager

omit [Crc32] in
theorem grows_writeFile (i : Nat) (p : Page) : Grows numPages 0 (writeFile i p) :=
  (grows_modify fun _ => le_rfl).before fun _ => grows_cut

theorem grows_readPage (i : UInt32) : Grows numPages 0 (readPage i) := by
  refine grows_get.before fun pm => ?_
  split
  · exact grows_fail _
  · split
    · exact grows_fail _
    · exact (grows_lift _).before fun _ => grows_pure _

theorem grows_writePage (i : UInt32) (p : Page) : Grows numPages 0 (writePage i p) := by
  refine grows_get.before fun pm => ?_
  split
  · exact grows_fail _
  · exact grows_writeFile _ _

theorem grows_popFreeList : Grows numPages 0 popFreeList := by
  refine ((grows_readPage 0).before fun _ => grows_pure _).before fun freePages => ?_
  split
  · exact (grows_writePage _ _).before fun _ => grows_pure _
  · exact grows_pure _

theorem grows_allocatePage : Grows numPages 1 allocatePage := by
  refine grows_popFreeList.after fun found => ?_
  cases found with
  | some pageId => exact grows_pure _
  | none =>
    -- The page id is read from the state that is changed, so the step is bounded as a whole.
    intro pm
    simp only [Bind.bind, Proc.bind, gets, writeFile, Proc.modify, cut]
    split
    · show pm.numPages + 1 ≤ pm.numPages + 1
      exact le_rfl
    · simp [fail]

end PageManager

namespace Overflow

theorem grows_allocatePages (n : Nat) : Grows numPages n (allocatePages n) := by
  induction n with
  | zero => exact grows_pure _
  | succ n ih =>
    refine (grows_allocatePage.bind fun _ => ih.before fun _ => grows_pure _).mono ?_
    omega

theorem grows_writeChunks (chunks : List (UInt32 × List UInt8)) :
    Grows numPages 0 (writeChunks chunks) := by
  induction chunks with
  | nil => exact grows_pure _
  | cons chunk chunks ih => exact (grows_writePage _ _).before fun _ => ih

theorem grows_writeOverflow (data : List UInt8) :
    Grows numPages (chunks PAGE_USABLE_SPACE data).length (writeOverflow data) := by
  refine (grows_allocatePages _).before fun pageIds => ?_
  refine (grows_writeChunks _).before fun _ => ?_
  split
  · exact grows_fail _
  · exact grows_pure _

end Overflow

/-! ### What is taken through the pool -/

namespace BufferPool

def pages (b : BufferPool) : Nat := b.pm.numPages

omit [Crc32] in
theorem grows_pageManager {α : Type} {n : Nat} {x : Proc Halt PageManager α}
    (hx : Grows PageManager.numPages n x) : Grows pages n (pageManager x) :=
  grows_zoom (fun _ => rfl) (fun _ _ => rfl) hx

omit [Crc32] in
theorem grows_getFrame (i : Nat) : Grows pages 0 (getFrame i) := by
  refine grows_get.before fun b => ?_
  split
  · exact grows_pure _
  · exact grows_fail _

omit [Crc32] in
theorem grows_putFrame (i : Nat) (f : BufferFrame) : Grows pages 0 (putFrame i f) :=
  grows_modify fun _ => le_rfl

omit [Crc32] in
theorem grows_setFrameData (i : Nat) (data : Page) : Grows pages 0 (setFrameData i data) :=
  (grows_getFrame i).before fun _ => grows_putFrame _ _

omit [Crc32] in
theorem grows_load (i : Nat) (pageId : UInt32) (data : Page) (dirty : Bool) :
    Grows pages 0 (load i pageId data dirty) :=
  grows_modify fun _ => le_rfl

theorem grows_findFreeFrame : Grows pages 0 findFreeFrame := by
  refine grows_get.before fun b => ?_
  split
  · exact grows_pure _
  · split
    · exact grows_fail _
    · refine (grows_getFrame _).before fun frame => ?_
      split
      · split
        · exact (grows_pageManager (grows_writePage _ _)).before fun _ =>
            (grows_modify fun _ => le_rfl).before fun _ =>
              (grows_putFrame _ _).before fun _ => grows_pure _
        · exact (grows_modify fun _ => le_rfl).before fun _ =>
            (grows_putFrame _ _).before fun _ => grows_pure _
      · split
        · exact grows_fail _
        · exact (grows_putFrame _ _).before fun _ => grows_pure _

theorem grows_fetchPage (pageId : UInt32) : Grows pages 0 (fetchPage pageId) := by
  refine grows_get.before fun b => ?_
  split
  · exact (grows_getFrame _).before fun _ => (grows_modify fun _ => le_rfl).before fun _ =>
      (grows_putFrame _ _).before fun _ => grows_pure _
  · exact grows_findFreeFrame.before fun _ =>
      (grows_pageManager (grows_readPage _)).before fun _ =>
        (grows_load _ _ _ _).before fun _ => grows_pure _

theorem grows_newPage : Grows pages 1 newPage :=
  (grows_pageManager PageManager.grows_allocatePage).before fun _ =>
    grows_findFreeFrame.before fun _ => (grows_load _ _ _ _).before fun _ => grows_pure _

omit [Crc32] in
theorem grows_unpin (pageId : UInt32) (dirty : Bool) : Grows pages 0 (unpin pageId dirty) := by
  refine grows_get.before fun b => ?_
  split
  · exact grows_fail _
  · refine (grows_getFrame _).before fun f => ?_
    split
    · exact grows_fail _
    · exact grows_putFrame _ _

end BufferPool

/-! ### What a document takes -/

namespace Collection

def filePages (c : Collection) : Nat := c.dataPool.pages + c.btree.pm.numPages

omit [Crc32] in
theorem grows_onPool {α : Type} {n : Nat} {x : Proc Halt BufferPool α} (hx : Grows pages n x) :
    Grows filePages n (onPool x) := by
  intro c
  have hpool := hx c.dataPool
  show (x c.dataPool).st.pages + c.btree.pm.numPages ≤ c.dataPool.pages + c.btree.pm.numPages + n
  omega

theorem grows_storeInline (encoded : List UInt8) : Grows filePages 1 (storeInline encoded) := by
  refine (grows_gets _).after fun current => ?_
  refine (grows_onPool (grows_fetchPage _)).after fun frameIdx => ?_
  refine (grows_onPool (grows_getFrame _)).after fun frame => ?_
  dsimp only
  split
  · refine (grows_onPool ?_).mono (Nat.zero_le _)
    exact (grows_setFrameData _ _).before fun _ => (grows_unpin _ _).before fun _ => grows_pure _
  · refine (grows_onPool (grows_unpin _ _)).after fun _ => ?_
    refine (grows_onPool grows_newPage).before fun page => ?_
    refine (grows_lift _).before fun slotId => ?_
    refine (grows_onPool ?_).before fun _ => ?_
    · exact (grows_setFrameData _ _).before fun _ => (grows_unpin _ _).before fun _ => grows_pure _
    · exact (grows_modify fun _ => le_rfl).before fun _ => grows_pure _
  · exact (grows_onPool (grows_unpin _ _)).after fun _ => grows_fail _
  · exact grows_fail _

theorem grows_storeTuple (encoded : List UInt8) :
    Grows filePages ((chunks PAGE_USABLE_SPACE encoded).length + 1) (storeTuple encoded) := by
  rw [storeTuple]
  split
  · exact (grows_onPool (grows_pageManager (Overflow.grows_writeOverflow _))).bind
      fun _ => grows_storeInline _
  · exact (grows_storeInline _).mono (Nat.le_add_left _ _)

variable {c : Collection} {l : Layout} {m : DocMap} {key : Uuid} {bytes : List UInt8}

omit [Crc32] in
theorem not_full (h : c.filePages + 1 < 2 ^ 32) : ¬ c.Full := by
  have hle : c.filePages = c.dataPool.pm.numPages + c.btree.pm.numPages := rfl
  rintro (hfull | hfull)
  · have : c.dataPool.pm.numPages + 1 = 2 ^ 32 := hfull
    omega
  · have : c.btree.pm.numPages + 1 = 2 ^ 32 := hfull
    omega

omit [Crc32] in
theorem length_chunks_le (data : List UInt8) :
    (chunks PAGE_USABLE_SPACE data).length ≤ data.length := by
  rw [chunks, length_map, length_range]
  show (data.length + 8160 - 1) / 8160 ≤ data.length
  omega

/-- **With room** for its pieces, the first document of a collection is inserted. -/
theorem insertRaw_first (h : c.Holds l m) (hlen : 17 ≤ bytes.length) (hkey : m.get? key = none)
    {i : UInt32} (hT : c.btree.Repr (.leaf i []))
    (hroom : c.filePages + (chunks PAGE_USABLE_SPACE bytes).length + 2 < 2 ^ 32) :
    Post (insertRaw key bytes) (fun _ _ => True) (fun _ _ => False) c := by
  obtain ⟨rs, hs, hi, hm⟩ := h.docs
  rw [insertRaw, post_bind]
  refine post_search hi ?_
  rw [isSome_lookup hm, hkey, if_neg (by simp), post_bind]
  have hstore := storeTuple_written hs h.ready h.current hlen key
  have hgrow := grows_storeTuple bytes c
  refine post_iff.mpr ⟨fun res hres => ?_, fun e he => ?_⟩
  · obtain ⟨l', chain, hw⟩ := Post.of_ok hstore hres
    have htree : (storeTuple bytes c).st.btree = c.btree := by rw [hw.rest]
    rw [post_bind, post_onTree, htree]
    exact (BTree.insert_first hT trivial _ _).imp fun _ _ _ => trivial
  · exact not_full (by omega) (Post.of_error hstore he).2

/-! ### A new collection -/

/-- A collection without documents, as it is after it was created. -/
structure New (c : Collection) (d : Dir) : Prop where
  holds : c.Holds ⟨{1}, fun _ _ => none⟩ SortedMap.empty
  tree : c.btree.Repr (.leaf 2 [])
  filePages : c.filePages = 5
  secondaryIndexes : c.secondaryIndexes = []
  indexDefs : c.indexDefs = []
  overlay : ∀ name, name ≠ DATA_FILE → name ≠ INDEX_FILE → c.overlay name = (d name).map some

theorem allocDataPage_new {E : Halt → PageManager → Prop} :
    Post allocDataPage (fun i pm => i = 1 ∧ pm.Ok {1} ∧ pm.numPages = 2 ∧
      (∃ p, pm.page? 1 = some p ∧ SlottedPage.Rep p fun _ => none) ∧
      ∀ j, j ≠ 0 → j ≠ 1 → pm.page? j = none) E ⟨[PageManager.freeListPage []], 1⟩ := by
  have hlist : (PageManager.mk [PageManager.freeListPage []] 1).freeList = [] :=
    PageManager.freeListOf_freeListPage [] (by simp)
  have hext := PageManager.ok_empty.extend (by decide)
  rw [allocDataPage, post_bind,
    post_allocatePage_extend ok_empty hlist (by decide), post_bind,
    post_writePage hext.ok (by decide)]
  refine ⟨rfl, ?_, rfl, ⟨_, page?_setPage_self ?_, ?_⟩, fun j h0 h1 => ?_⟩
  · have hok := hext.ok.setPage (p := stampChecksum (SlottedPage.new 1)) (.inl rfl)
      fun x => verifyChecksum_stampChecksum _ x
    rwa [LawfulSingleton.insert_empty_eq] at hok
  · exact Nat.lt_succ_self 1
  · exact (SlottedPage.rep_new 1).same (Page.same_stampChecksum _)
  · refine (page?_setPage_ne h1).trans ((hext.frame j h0 h1).trans ?_)
    have hj : j.toNat ≠ 0 := fun h => h0 (UInt32.toNat_inj.mp h)
    rw [page?, getElem?_eq_none_iff, length_singleton]
    omega

variable {capacity : Nat}

theorem stores_new {pm : PageManager} (hok : pm.Ok {1})
    (hpage : ∃ p, pm.page? 1 = some p ∧ SlottedPage.Rep p fun _ => none)
    (hrest : ∀ j, j ≠ 0 → j ≠ 1 → pm.page? j = none) :
    Stores (BufferPool.new capacity pm) [] ⟨{1}, fun _ _ => none⟩ [] where
  ok := by
    have hused : ({1} ∪ {i | i ∈ [] ++ chainsOf []} : Set UInt32) = {1} := by
      simp [chainsOf]
    show (new capacity pm).Ok ({1} ∪ {i | i ∈ [] ++ chainsOf []}) {1}
    rw [hused]
    exact ok_new hok (Set.Subset.refl _)
  page := by
    intro i hi
    obtain rfl : i = 1 := hi
    exact hpage
  doc := by simp
  locations := by simp
  chains := by simp [chainsOf]
  apart := by simp [chainsOf]
  types := by
    intro i p h0 h1 hp
    have hnone : (new capacity pm).pm.page? i = none := hrest i h0 h1
    rw [hnone] at hp
    cases hp

omit [Crc32] in
theorem ready_new (hcap : 0 < capacity) (pm : PageManager) :
    Ready (BufferPool.new capacity pm) where
  idle := by
    intro k f hk
    have hf := mem_of_getElem? hk
    rw [BufferPool.new, mem_replicate] at hf
    rw [hf.2]
    rfl
  frames := by
    have hlen : (new capacity pm).frames.length = capacity := length_replicate
    intro h
    rw [h, length_nil] at hlen
    omega

/-- **Opening** a collection where there is none creates one without documents. -/
theorem openDir_new (hcap : 0 < capacity) {d : Dir} (hdata : (d DATA_FILE).getD [] = [])
    (hindex : (d INDEX_FILE).getD [] = []) {E : Halt → Dir → Prop} :
    Post (openDir capacity) (fun c _ => c.New d) E d := by
  have hne : INDEX_FILE ≠ DATA_FILE := by decide
  rw [openDir, post_bind, post_get, post_bind, Dir.onFile, post_zoom,
    post_new_empty hdata, post_bind]
  simp only [hdata, hindex]
  rw [Dir.onFile, post_zoom]
  refine (BTree.createWith_new strict_uuid.valid hindex).imp ?_
  rintro t f ⟨hi, -, rfl, hT, hnum, -⟩
  rw [post_bind, Dir.onFile, post_zoom, post_session]
  refine allocDataPage_new.imp ?_
  rintro i pm ⟨rfl, hok, hpages, hpage, hrest⟩
  rw [post_bind, post_get]
  refine ⟨⟨ready_new hcap pm, rfl, [], stores_new hok hpage hrest, hi, rfl⟩, hT, ?_, rfl, rfl, ?_⟩
  · show pm.numPages + t.pm.numPages = 5
    rw [hpages, hnum]
  · intro name h₁ h₂
    simp only [h₁, h₂, or_self, if_false, Function.update_of_ne h₁, Function.update_of_ne h₂]

end Collection

end Room

end GrumpyDB
