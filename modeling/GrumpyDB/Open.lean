/-
Creating a tree in a new file, and opening the file of a tree.

All of a tree but its metadata is in its pages, and the metadata page is up to date after every
operation.
-/
import GrumpyDB.Scan

namespace GrumpyDB

open BTreeKey Proc PageManager

namespace PageManager

variable {pm : PageManager}

theorem post_session {α : Type} {x : Proc Halt PageManager α}
    {Q : α × PageManager → Option File → Prop} {E : Halt → Option File → Prop} {f : Option File} :
    Post (session pm x) Q E f ↔
      Post x (fun a pm' => Q (a, pm') (some pm'.file)) (fun e pm' => E e (some pm'.file)) pm := by
  unfold Post session
  rcases (x pm).res with e | a <;> exact Iff.rfl

variable {E : Halt → PageManager → Prop}

theorem post_allocatePage_extend [Crc32] {used : Set UInt32} (h : pm.Ok used)
    (hl : pm.freeList = []) (hn : pm.numPages + 1 < 2 ^ 32) {Q : UInt32 → PageManager → Prop} :
    Post allocatePage Q E pm ↔ Q (UInt32.ofNat pm.numPages)
      ⟨pm.file ++ [freePageBuf (UInt32.ofNat pm.numPages)], pm.numPages + 1⟩ := by
  rw [allocatePage, post_bind, popFreeList, post_bind, post_readFreeList h, hl]
  simp only [List.getLast?_nil, post_pure, post_bind, post_gets, writeFile, post_modify, post_cut,
    File.writeAt, h.length, lt_irrefl, if_false, if_pos hn]
  simp

theorem post_allocate_two [Crc32] {α : Type} {k : UInt32 → UInt32 → Proc Halt PageManager α}
    {Q : α → PageManager → Prop}
    (hk : ∀ pm : PageManager, pm.Ok {2, 1} → pm.numPages = 3 → pm.freeList = [] →
      Post (k 1 2) Q E pm) :
    Post (do
        let i ← allocatePage
        let j ← allocatePage
        k i j) Q E ⟨[freeListPage []], 1⟩ := by
  have hlist : ∀ l n, (mk (freeListPage [] :: l) n).freeList = [] := fun l n =>
    freeListOf_freeListPage [] (by simp)
  have h1 := ok_empty.extend (by decide)
  rw [post_bind, post_allocatePage_extend ok_empty (hlist _ _) (by decide), post_bind,
    post_allocatePage_extend h1.ok (hlist _ _) (by decide)]
  have h2 := (h1.ok.extend (by decide)).ok
  refine hk _ (h2.mono ?_) rfl (hlist _ _)
  intro i hi
  rcases hi with rfl | rfl
  · exact .inl rfl
  · exact .inr (.inl rfl)

end PageManager

section Open

variable {K : Type} [LinearOrder K] [BTreeKey K] [Crc32]

namespace BTreeMeta

theorem ofPage_toPage {m : BTreeMeta K} {i : UInt32} (hh : m.height < 2 ^ 32)
    (hn : m.numEntries < 2 ^ 64) : ofPage (stampChecksum (m.toPage i)) = m := by
  have hlen : m.bytes.length = 16 + metaBytes K := by
    simp [bytes, length_configBytes]
    omega
  have hmeta := metaBytes_le (K := K)
  have field : ∀ off len, 32 ≤ off → off + len ≤ 48 + metaBytes K →
      (stampChecksum (m.toPage i)).read off len =
        slice (off - 32) len m.bytes := fun off len hl hr =>
    read_laidPage (by simp only [hlen, PAGE_SIZE, PAGE_HEADER_SIZE]; omega) hl
      (by simp only [hlen, PAGE_HEADER_SIZE]; omega)
  have hroot : UInt32.ofNat ((stampChecksum (m.toPage i)).num 32 4) = m.rootPageId := by
    rw [Page.num, field _ _ (by omega) (by omega), bytes, slice_append_self (length_leBytes _ _),
      ofNat_leNat_u32]
  have hheight : (stampChecksum (m.toPage i)).num 36 4 = m.height := by
    rw [Page.num, field _ _ (by omega) (by omega), bytes, slice_append_right (by simp),
      length_leBytes, slice_append_self (length_leBytes _ _), leNat_leBytes,
      Nat.mod_eq_of_lt (by omega)]
  have hcount : (stampChecksum (m.toPage i)).num 40 8 = m.numEntries := by
    rw [Page.num, field _ _ (by omega) (by omega), bytes, slice_append_right (by simp),
      length_leBytes, slice_append_right (by simp), length_leBytes,
      slice_append_self (length_leBytes _ _), leNat_leBytes, Nat.mod_eq_of_lt (by omega)]
  have hconf : readConfig ((stampChecksum (m.toPage i)).read 48 (metaBytes K)) = m.config := by
    rw [field _ _ (by omega) (by omega), bytes, slice_append_right (by simp),
      slice_append_right (by simp), slice_append_right (by simp)]
    simp [slice_self (length_configBytes _), readConfig_configBytes]
  rw [ofPage, hroot, hheight, hcount, hconf]

end BTreeMeta

namespace BTree

variable {t : BTree K} {es : List (LeafEntry K)} {E : Halt → Option File → Prop}

variable {Q : BTree K → Option File → Prop} {used : Set UInt32} {pm : PageManager}

theorem post_openFile (hok : pm.Ok used) {p : Page} (hp : pm.page? META_PAGE_ID = some p) :
    Post openFile Q E (some pm.file) ↔
      Q ⟨META_PAGE_ID, pm, BTreeMeta.ofPage p⟩ (some pm.file) := by
  rw [openFile, post_bind, post_new_ok hok, post_bind, post_session,
    PageManager.post_readPage hok hp, post_pure]

/-- **Opening** the file of a tree gives the tree. -/
theorem openFile_spec (hi : t.Inv es) :
    Post openFile Q E (some t.pm.file) ↔ Q t (some t.pm.file) := by
  obtain ⟨h, T, hT, -⟩ := hi.repr
  have hok := hT.core.ok
  have hsmall := hok.small
  have hheight := hT.core.height_lt
  have hentries := (inv_iff.mp hi).length_le
  have hmeta : BTreeMeta.ofPage (stampChecksum (t.info.toPage META_PAGE_ID)) = t.info := by
    refine BTreeMeta.ofPage_toPage ?_ ?_
    · rw [hT.height]
      omega
    · rw [hi.numEntries]
      omega
  rw [post_openFile hok (hi.metaPageId ▸ hi.stored), hmeta, ← hi.metaPageId]

/-- What a new tree's metadata and root leaf make of a file that has a page for
each. -/
structure Laid (cfg : Config K) (pm : PageManager) (used : Set UInt32) (i j : UInt32)
    (pm' : PageManager) : Prop where
  repr : (BTree.mk i pm' ⟨j, 1, 0, cfg⟩ : BTree K).Repr (.leaf j [])
  stored : pm'.page? i = some (stampChecksum ((⟨j, 1, 0, cfg⟩ : BTreeMeta K).toPage i))
  ok : pm'.Ok used
  frame : ∀ x, x ≠ i → x ≠ j → pm'.page? x = pm.page? x
  numPages : pm'.numPages = pm.numPages

variable {cfg : Config K}

theorem post_layOut (hv : Valid cfg) (hok : pm.Ok used) {i j : UInt32} (hi : i ∈ used)
    (hj : j ∈ used) (hij : i ≠ j) {E : Halt → PageManager → Prop} :
    Post (do
        let root ← lift (LeafNode.new j cfg).toBytes
        PageManager.writePage j root
        let info : BTreeMeta K := ⟨j, 1, 0, cfg⟩
        PageManager.writePage i (info.toPage i)
        pure (i, info))
      (fun r pm' => r = (i, ⟨j, 1, 0, cfg⟩) ∧ Laid cfg pm used i j pm') E pm := by
  -- The state with both pages allocated, as a tree.
  set info : BTreeMeta K := ⟨j, 1, 0, cfg⟩ with hinfo
  set t₀ : BTree K := ⟨i, pm, info⟩ with ht₀
  set n : LeafNode K := LeafNode.new j cfg with hn
  have hsound : n.Sound := ⟨Nat.zero_le _, by simp [hn, LeafNode.new]⟩
  obtain ⟨p, hp, -, -⟩ := LeafNode.toBytes_ok hsound.1 hsound.2
  have hself : (t₀.putLeaf n).heap j = some (.leaf n) := heap_putLeaf_self hok hj hsound
  have hrepr : (t₀.putLeaf n).Repr (.leaf j []) := by
    refine ⟨⟨hv, ⟨?_, trivial, by simp [Ctx.pages, Ctx.ids], ?_,
      List.Pairwise.nil, by simp, by simp,
      trivial⟩, by simpa [Ctx.pages, Ctx.ids, ht₀] using hij, ?_⟩,
      ⟨fun h => absurd rfl h, Nat.zero_le _⟩, rfl, rfl⟩
    · simpa using ⟨n, hself, rfl, rfl, rfl, hsound⟩
    · exact ⟨⟨n, hself, rfl, rfl⟩, trivial⟩
    · refine (putLeaf_ok (n := n) hok hj).mono fun x hx => ?_
      have hx' : x = i ∨ x = j := by simpa [Ctx.pages, Ctx.ids, ht₀] using hx
      rcases hx' with rfl | rfl
      · exact hi
      · exact hj
  have hput : t₀.putLeaf n = { t₀ with pm := pm.setPage j (stampChecksum p) } := by
    rw [putLeaf, hp]
    rfl
  have hok' : (pm.setPage j (stampChecksum p)).Ok used :=
    hok.setPage hj fun x => verifyChecksum_stampChecksum _ x
  rw [post_bind, hp, post_lift_ok, post_bind, post_writePage hok (hok.used j hj).2,
    post_bind, post_writePage hok' (hok'.used i hi).2, post_pure]
  have hinv := hrepr.putMeta (info.toPage i)
  rw [hput] at hinv
  refine ⟨rfl, hinv, ?_, hok'.setPage hi fun x => verifyChecksum_stampChecksum _ x, ?_, rfl⟩
  · exact page?_setPage_self (by
      rw [hok'.length]
      exact (hok'.used i hi).2)
  · intro x hxi hxj
    rw [page?_setPage_ne hxi, page?_setPage_ne hxj]

/-- **Creating** a tree in a new file gives a file of three pages, the last of them an
empty leaf. -/
theorem createWith_new (hv : Valid cfg) {f : Option File} (hf : f.getD [] = []) :
    Post (createWith cfg) (fun t f' => t.Inv [] ∧ t.info.config = cfg ∧ f' = some t.pm.file ∧
      t.Repr (.leaf 2 []) ∧ t.pm.numPages = 3 ∧ t.pm.freeList = []) E f := by
  rw [createWith, post_bind, post_new_empty hf, post_bind, post_session]
  refine post_allocate_two fun pm hok hnum hlist => ?_
  refine (post_layOut hv hok (.inr rfl) (.inl rfl) (by decide)).imp ?_
  rintro r pm' ⟨rfl, hl⟩
  refine ⟨⟨⟨0, .leaf 2 [], hl.repr, rfl⟩, rfl, rfl, hl.stored⟩, rfl, rfl, hl.repr,
    hl.numPages.trans hnum, ?_⟩
  rw [← hlist, freeList, freeList, hl.frame 0 (by decide) (by decide)]

theorem createWith_spec (hv : Valid cfg) {f : Option File} (hf : f.getD [] = []) :
    Post (createWith cfg) (fun t f' => t.Inv [] ∧ t.info.config = cfg ∧ f' = some t.pm.file) E f :=
  (createWith_new hv hf).imp fun _ _ h => ⟨h.1, h.2.1, h.2.2.1⟩

end BTree

end Open

end GrumpyDB
