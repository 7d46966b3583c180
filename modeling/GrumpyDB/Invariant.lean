/-
The invariant of a B+tree between operations.

`BTree.Inv t es`: `t` represents some tree whose entries, from left to right, are `es`, the entry
count is right, and the metadata page is up to date.
-/
import GrumpyDB.Search

namespace GrumpyDB

open BTreeKey Proc List Ctx Row

section Invariant

variable {K : Type} [LinearOrder K] [BTreeKey K] [Crc32] {h : Nat}

/-- The file and the metadata of `t` represent the tree `T`. -/
structure BTree.Repr (t : BTree K) (T : Tree K h) : Prop where
  core : t.Core .top (.single T)
  fair : Tree.RootFair t.info.config h T.size
  root : t.info.rootPageId = T.id
  height : t.info.height = h + 1

/-- What holds of a tree between calls; `es` are its entries in order. -/
structure BTree.Inv (t : BTree K) (es : List (LeafEntry K)) : Prop where
  repr : ∃ (h : Nat) (T : Tree K h), t.Repr T ∧ entriesOf T.items = es
  numEntries : t.info.numEntries = es.length
  metaPageId : t.metaPageId = BTree.META_PAGE_ID
  stored : t.pm.page? t.metaPageId = some (stampChecksum (t.info.toPage t.metaPageId))

/-- The same for a tree that has its metadata on page `i`. -/
structure BTree.InvAt (i : UInt32) (t : BTree K) (es : List (LeafEntry K)) : Prop where
  repr : ∃ (h : Nat) (T : Tree K h), t.Repr T ∧ entriesOf T.items = es
  numEntries : t.info.numEntries = es.length
  metaPageId : t.metaPageId = i
  stored : t.pm.page? t.metaPageId = some (stampChecksum (t.info.toPage t.metaPageId))

namespace BTree

variable {t : BTree K} {c : Ctx K h} {key : K} {es : List (LeafEntry K)}
  {E : Halt → BTree K → Prop} {m : UInt32}

theorem inv_iff : t.Inv es ↔ t.InvAt META_PAGE_ID es :=
  ⟨fun h => ⟨h.repr, h.numEntries, h.metaPageId, h.stored⟩,
    fun h => ⟨h.repr, h.numEntries, h.metaPageId, h.stored⟩⟩

theorem Repr.at {T : Tree K h} (hr : t.Repr T) (key : K) : t.At key .top T :=
  ⟨hr.core, trivial, hr.fair, Ctx.around_top key⟩

theorem Core.toTop {s : Tree K h} (hc : t.Core c (.single s))
    (hspine : c.Spine t.info.config t.heap s.id) (hadm : c.Admits t.info.config s.size)
    (hroot : t.info.rootPageId = c.rootId s.id) (hheight : t.info.height = c.height + 1) :
    ∃ T : Tree K c.height, t.Repr T ∧ T.items = c.whole s.items := by
  obtain ⟨T, hseg, hfair, hitems, hid, hids⟩ := hc.seg.toTop hspine hadm
  have hpages : ∀ j, j ∈ (top : Ctx K c.height).pages (.single T) ↔ j ∈ c.pages (.single s) := by
    intro j
    simpa [pages, ids] using hids.mem_iff
  refine ⟨T, ⟨⟨hc.valid, hseg, ?_, ?_⟩, hfair, hroot.trans hid.symm, hheight⟩, hitems⟩
  · rw [hpages]
    exact hc.meta_not_mem
  · exact hc.ok.mono fun j hj => hj.imp_right (hpages j).mp

theorem Core.count {r : Row K (Tree K h)} (hc : t.Core c r) (n : Nat) :
    { t with info := { t.info with numEntries := n } : BTree K }.Core c r :=
  ⟨hc.valid, hc.seg, hc.meta_not_mem, hc.ok⟩

theorem Repr.count {T : Tree K h} (hr : t.Repr T) (n : Nat) :
    { t with info := { t.info with numEntries := n } : BTree K }.Repr T :=
  ⟨hr.core.count n, hr.fair, hr.root, hr.height⟩

theorem Repr.putMeta {T : Tree K h} (hr : t.Repr T) (p : Page) :
    (t.put t.metaPageId p).Repr T := by
  have hok : (t.put t.metaPageId p).pm.Ok _ := put_ok hr.core.ok (Or.inl rfl)
  refine ⟨⟨hr.core.valid, hr.core.seg.congr ?_, hr.core.meta_not_mem, hok⟩, hr.fair, hr.root,
    hr.height⟩
  intro j hj
  refine heap_put_ne fun he => hr.core.meta_not_mem ?_
  rw [← he]
  exact hj

theorem Repr.flush {T : Tree K h} (hr : t.Repr T) (hn : t.info.numEntries = es.length)
    (he : entriesOf T.items = es) (hm : t.metaPageId = m) :
    Post flushMeta (fun _ t' => t'.InvAt m es ∧ t'.info.config = t.info.config) E t := by
  rw [post_flushMeta hr.core.ok (Or.inl rfl)]
  refine ⟨⟨⟨h, T, hr.putMeta _, he⟩, hn, hm, ?_⟩, rfl⟩
  exact PageManager.page?_setPage_self
    (by rw [hr.core.ok.length]; exact (hr.core.ok.used _ (Or.inl rfl)).2)

theorem Repr.finish {T : Tree K h} (hr : t.Repr T) {f : Nat → Nat}
    (hn : f t.info.numEntries = es.length) (he : entriesOf T.items = es)
    (hm : t.metaPageId = m) :
    Post (do setNumEntries f; flushMeta)
      (fun _ t' => t'.InvAt m es ∧ t'.info.config = t.info.config) E t := by
  rw [post_bind, setNumEntries]
  exact (hr.count (f t.info.numEntries)).flush hn he hm

theorem InvAt.sorted (hi : t.InvAt m es) : es.Pairwise (fun x y => x.key < y.key) := by
  obtain ⟨h, T, hr, rfl⟩ := hi.repr
  simpa using hr.core.seg.sorted.entries

theorem Inv.sorted (hi : t.Inv es) : es.Pairwise (fun x y => x.key < y.key) :=
  (inv_iff.mp hi).sorted

theorem Core.ne_zero {c : Ctx K h} {r : Row K (Tree K h)} (hc : t.Core c r) {j : UInt32}
    (hj : j ∈ c.pages r) : j ≠ 0 := (hc.ok.used j (.inr hj)).1

section Settle

variable {F : Hole K (Tree K h)} {up : Ctx K (h + 1)} {i : UInt32} {r : Row K (Tree K h)}

theorem Core.fits (hc : t.Core (.frame i F up) r) :
    ∀ k ∈ (F.fillRow r).keys, Fits t.info.config k := by
  intro k hk
  have := hc.seg.fits (.sep k)
  rw [whole_frame, ← Hole.flat_fillRow] at this
  exact this (mem_append_right _ (mem_append_left _ (mem_flat_of_mem_keys hk)))

theorem Core.frame_not_mem_up (hc : t.Core (.frame i F up) r) : i ∉ up.ids := by
  have hn := hc.seg.nodup
  rw [pages, ids, cons_append, nodup_cons] at hn
  exact fun hi => hn.1 (by simp [hi])

theorem Core.spine_putInternal (hc : t.Core (.frame i F up) r) {p : InternalNode K}
    (hid : p.pageId = i) (hspine : up.Spine t.info.config t.heap i) :
    up.Spine t.info.config (t.putInternal p).heap i := by
  refine hspine.frame fun j hj => .of_eq (heap_putInternal_ne ?_)
  rw [hid]
  rintro rfl
  exact hc.frame_not_mem_up hj

theorem Core.writeFrame (hc : t.Core (.frame i F up) r)
    (hfair : ∀ s ∈ r.children, Tree.Fair t.info.config h s.size) {p : InternalNode K}
    (hid : p.pageId = i) (hcfg : p.config = t.info.config)
    (hrow : p.row = (F.fillRow r).map Tree.id)
    (hroom : (F.fillRow r).keys.length ≤ internalMaxKeys t.info.config) :
    p.Sound ∧ (t.putInternal p).Core up (.single (.node i (F.fillRow r))) := by
  have hsound : p.Sound := by
    refine InternalNode.sound_of_row hrow ?_ ?_
    · rwa [keys_map, hcfg]
    · rw [keys_map, hcfg]
      exact hc.fits
  subst hid
  have hheap := heap_putInternal_self hc.ok frame_mem_used hsound
  have hseg := hc.seg.congr fun j hj =>
    heap_putInternal_ne fun he => hc.seg.frame_not_mem (he ▸ hj)
  have hfold := hseg.fold hfair (by
    rw [← hrow, ← hcfg]
    exact hasRow_of_node hheap hsound)
  refine ⟨hsound, hc.valid, hfold, ?_, ?_⟩
  · rw [pages_fold.mem_iff]
    exact hc.meta_not_mem
  · exact (putInternal_ok hc.ok frame_mem_used).mono fun j hj =>
      hj.imp_right pages_fold.mem_iff.mp

theorem Core.settle (hc : t.Core (.frame i F up) r)
    (hfair : ∀ s ∈ r.children, Tree.Fair t.info.config h s.size) {p : InternalNode K}
    (hid : p.pageId = i) (hcfg : p.config = t.info.config)
    (hrow : p.row = (F.fillRow r).map Tree.id) (hspine : up.Spine t.info.config t.heap i)
    (hadm : up.Admits t.info.config (F.fillRow r).keys.length)
    (hroot : t.info.rootPageId = up.rootId i) (hheight : t.info.height = up.height + 1) :
    p.Sound ∧ ∃ T : Tree K up.height, (t.putInternal p).Repr T ∧
      T.items = Ctx.whole (.frame i F up) (r.flat Tree.items .sep) := by
  obtain ⟨hsound, hcore⟩ := hc.writeFrame hfair hid hcfg hrow hadm.le
  obtain ⟨T, hT, hitems⟩ := hcore.toTop (hc.spine_putInternal hid hspine) hadm hroot hheight
  refine ⟨hsound, T, hT, hitems.trans ?_⟩
  rw [whole_frame, Tree.items_node, Hole.flat_fillRow]

end Settle

/-! ### Search -/

theorem Reaches.entries {T : Tree K h} {c : Ctx K 0} {leaf : LeafNode K}
    (hr : t.Reaches key .top T c leaf) :
    entriesOf T.items = entriesOf c.leftItems ++ (leaf.entries ++ entriesOf c.rightItems) := by
  have := hr.whole
  rw [whole_top] at this
  rw [← this, Ctx.whole, entriesOf_append, entriesOf_append, entriesOf_map_ent]

theorem Reaches.sorted {s : Tree K h} {c : Ctx K h} {c' : Ctx K 0} {leaf : LeafNode K}
    (hr : t.Reaches key c s c' leaf) : leaf.entries.Pairwise (fun x y => x.key < y.key) := by
  have hs := hr.at_leaf.core.seg.sorted
  simpa using (hs.sublist ((sublist_append_left _ _).trans
    (sublist_append_right _ _))).entries

/-- **Search** returns the location of the key, if it is in the tree. -/
theorem InvAt.search (hi : t.InvAt m es) (key : K) :
    Post (search key) (fun r t' => t' = t ∧ r = lookup es key) E t := by
  obtain ⟨h, T, hT, rfl⟩ := hi.repr
  rw [BTree.search, post_bind]
  refine (findLeaf_spec (hT.at key) hT.root).imp ?_
  rintro leaf t' ⟨rfl, c, hr⟩
  have hleft := entriesOf_below hr.at_leaf.around.left
  have hright := entriesOf_above hr.at_leaf.around.right
  rcases sorted_split key hr.sorted with ⟨a, e, b, hab, rfl, ha, -⟩ | ⟨a, b, hab, ha, hb⟩
  · have hget : leaf.entries[a.length]? = some e := by simp [hab]
    have hall : entriesOf T.items
        = (entriesOf c.leftItems ++ a) ++ e :: (b ++ entriesOf c.rightItems) := by
      simp [hr.entries, hab]
    simp only [LeafNode.search_found hab ha, hget, post_pure, true_and]
    rw [hall, lookup_found]
    exact fun x hx => (mem_append.mp hx).elim (hleft x) (ha x)
  · have hall : entriesOf T.items
        = (entriesOf c.leftItems ++ a) ++ (b ++ entriesOf c.rightItems) := by
      simp [hr.entries, hab]
    simp only [LeafNode.search_missing hab ha hb, post_pure, true_and]
    rw [hall, lookup_missing]
    · exact fun x hx => (mem_append.mp hx).elim (hleft x) (ha x)
    · exact fun x hx => (mem_append.mp hx).elim (hb x) (hright x)

theorem search_spec (hi : t.Inv es) (key : K) :
    Post (search key) (fun r t' => t' = t ∧ r = lookup es key) E t := (inv_iff.mp hi).search key

end BTree

end Invariant

end GrumpyDB
