/-
Insertion into the tree.

`Split t c a k b` is the state on the way up: the hole of `c` contains two trees `a` and `b`
separated by `k`, and the page above still points to `a` only.
-/
import GrumpyDB.Invariant

namespace GrumpyDB

open BTreeKey Proc List Hole Row

section Insert

variable {K : Type} [LinearOrder K] [BTreeKey K] [Crc32] {h : Nat}

namespace BTree

variable {t : BTree K}

/-- What an operation that restructures the tree keeps besides its items. -/
structure SameMeta (t t' : BTree K) : Prop where
  numEntries : t'.info.numEntries = t.info.numEntries
  config : t'.info.config = t.info.config
  metaPageId : t'.metaPageId = t.metaPageId

omit [Crc32] in
theorem SameMeta.trans {t' t'' : BTree K} (h : SameMeta t t') (h' : SameMeta t' t'') :
    SameMeta t t'' :=
  ⟨h'.numEntries.trans h.numEntries, h'.config.trans h.config, h'.metaPageId.trans h.metaPageId⟩

/-- Restructuring `t` has given a tree again, with the items `l`. -/
def Rebuilt (t : BTree K) (l : List (Item K)) (t' : BTree K) : Prop :=
  ∃ (h' : Nat) (T : Tree K h'), t'.Repr T ∧ T.items = l ∧ SameMeta t t'

structure Split (t : BTree K) (c : Ctx K h) (a : Tree K h) (k : K) (b : Tree K h) : Prop where
  core : t.Core c (.pair a k b)
  spine : c.Spine t.info.config t.heap a.id
  fairLeft : Tree.Fair t.info.config h a.size
  fairRight : Tree.Fair t.info.config h b.size
  root : t.info.rootPageId = c.rootId a.id
  height : t.info.height = c.height + 1

theorem Split.grow {a b : Tree K h} {k : K} (hs : t.Split .top a k b) :
    Yields Full (propagateSplit [] k b.id)
      (fun _ t' => t.Rebuilt (a.items ++ .sep k :: b.items) t') t := by
  refine ((allocPage_spec hs.core.ok).mono ?_).bind
  intro i t1 ha
  have hseg := hs.core.seg
  have hfit : Fits t.info.config k := hseg.fits (.sep k) (by simp)
  have hmax := le_internalMaxKeys hs.core.valid
  have hroot : t.info.rootPageId = a.id := hs.root
  set n : InternalNode K := ⟨i, b.id, t.info.config, [⟨k, a.id⟩]⟩ with hn
  have hsound : n.Sound := ⟨by simp [hn]; omega, by simpa [hn] using hfit⟩
  have hi : i ∈ Insert.insert i (t.used (Ctx.top.pages (.pair a k b))) := Set.mem_insert _ _
  have hfresh : i ≠ t.metaPageId ∧ i ∉ (Ctx.top : Ctx K h).pages (.pair a k b) := by
    simpa only [mem_used, not_or] using ha.fresh
  unfold Yields
  rw [post_bind, post_get, ha.info, hroot, post_bind, post_saveInternal ha.ok hi hsound,
    post_modify]
  refine ⟨_, .node i (.pair a k b), ⟨⟨?_, ?_, ?_, ?_⟩, ?_, rfl, ?_⟩, by simp, ?_, ?_, ?_⟩
  · simpa [ha.info] using hs.core.valid
  · -- The halves are where they were; the new root is on a fresh page.
    have hkeep : ∀ j ∈ (Ctx.top : Ctx K h).pages (.pair a k b),
        (t1.putInternal n).heap j = t.heap j := by
      intro j hj
      have hji : j ≠ i := fun he => hfresh.2 (he ▸ hj)
      rw [heap_putInternal_ne hji, ha.frame j (hs.core.ne_zero hj) hji]
    have hseg' := hseg.congr fun j hj => hkeep j hj
    have hrow : HasRow t.info.config (t1.putInternal n).heap i ((pair a k b).map Tree.id) :=
      hasRow_of_node (heap_putInternal_self ha.ok hi hsound) hsound
    simp only [info_putInternal, ha.info]
    change Seg t.info.config (t1.putInternal n).heap _ _
    refine ⟨?_, trivial, ?_, ?_, ?_, ?_, ?_, trivial⟩
    · simpa using ⟨hrow, by simpa using hseg'.holds⟩
    · have hn := nodup_cons.mpr ⟨hfresh.2, hseg'.nodup⟩
      simpa [Ctx.pages, Ctx.ids] using hn
    · simpa using hseg'.linked
    · simpa using hseg'.sorted
    · simpa using hseg'.fits
    · have hocc := hseg'.occ
      simp only [children_pair, mem_cons, not_mem_nil, or_false, forall_eq_or_imp,
        forall_eq] at hocc
      simpa using ⟨⟨hs.fairLeft, hocc.1⟩, hs.fairRight, hocc.2⟩
  · have := hs.core.meta_not_mem
    simp only [Ctx.pages, Ctx.ids] at this ⊢
    simpa [ha.metaPageId] using ⟨hfresh.1.symm, by simpa using this⟩
  · refine (putInternal_ok ha.ok hi).mono ?_
    intro j hj
    simp only [Ctx.pages] at hj ⊢
    simp [ha.metaPageId] at hj ⊢
    tauto
  · simp only [info_putInternal, ha.info]
    exact ⟨fun _ => by simp, by simp [Tree.maxSize]; omega⟩
  · simp [ha.info, hs.height, Ctx.height]
  · simp [ha.info]
  · simp [ha.info]
  · simp [ha.metaPageId]

variable {F : Hole K (Tree K h)} {up : Ctx K (h + 1)} {i : UInt32} {a b : Tree K h} {k : K}

theorem Split.parent (hs : t.Split (.frame i F up) a k b) :
    ∃ n, t.heap i = some (.internal n) ∧ (n.insertEntry k b.id).pageId = i ∧
      (n.insertEntry k b.id).config = t.info.config ∧
      (n.insertEntry k b.id).row = (F.fillRow (.pair a k b)).map Tree.id := by
  obtain ⟨n, hn, hid, hcfg, hrow, -⟩ := hs.spine.1
  refine ⟨n, hn, by simpa using hid, by simpa using hcfg, ?_⟩
  have hsorted := hs.core.seg.sorted
  rw [Ctx.whole_frame, flat_pair] at hsorted
  obtain ⟨-, hright, -⟩ := pairwise_append.mp hsorted
  obtain ⟨hmid, -, -⟩ := pairwise_append.mp hright
  obtain ⟨-, hmid, hleft⟩ := pairwise_append.mp hmid
  rw [fillRow_pair, map_fill, map_pushRight]
  refine InternalNode.row_insertEntry hrow ?_ ?_
  · intro k' hk'
    rw [leftKeys_map] at hk'
    exact hleft (.sep k') (mem_leftFlat hk') (.sep k) (by simp)
  · intro k' hk'
    rw [rightKeys_map] at hk'
    rw [append_assoc] at hmid
    obtain ⟨-, hmid, -⟩ := pairwise_append.mp hmid
    exact (pairwise_cons.mp hmid).1 (.sep k')
      (mem_append_right _ (mem_rightFlat hk'))

theorem Split.fair (hs : t.Split (.frame i F up) a k b) :
    ∀ s ∈ (Row.pair a k b).children, Tree.Fair t.info.config h s.size := by
  simpa using ⟨hs.fairLeft, hs.fairRight⟩

theorem Split.promote (hs : t.Split (.frame i F up) a k b) {t1 : BTree K} {j : UInt32}
    (ha : Allocated t (t.used (Ctx.pages (.frame i F up) (.pair a k b))) j t1)
    {A B : Row K (Tree K h)} {k' : K} (hjoin : F.fillRow (.pair a k b) = A.join k' B)
    (hA : Tree.Fair t.info.config (h + 1) A.keys.length)
    (hB : Tree.Fair t.info.config (h + 1) B.keys.length) {left right : InternalNode K}
    (hleft : left.pageId = i ∧ left.config = t.info.config ∧ left.row = A.map Tree.id)
    (hright : right.pageId = j ∧ right.config = t.info.config ∧ right.row = B.map Tree.id) :
    left.Sound ∧ right.Sound ∧
      ((t1.putInternal left).putInternal right).Split up (.node i A) k' (.node j B) := by
  obtain ⟨rfl, hlcfg, hlrow⟩ := hleft
  obtain ⟨rfl, hrcfg, hrrow⟩ := hright
  have hfits := hs.core.fits
  rw [hjoin, keys_join] at hfits
  have hlsound : left.Sound := by
    refine InternalNode.sound_of_row hlrow ?_ ?_
    · rw [keys_map, hlcfg]
      exact hA.2
    · rw [keys_map, hlcfg]
      exact fun x hx => hfits x (mem_append_left _ hx)
  have hrsound : right.Sound := by
    refine InternalNode.sound_of_row hrrow ?_ ?_
    · rw [keys_map, hrcfg]
      exact hB.2
    · rw [keys_map, hrcfg]
      exact fun x hx => hfits x (mem_append_right _ (mem_cons_of_mem _ hx))
  have hfresh : right.pageId ≠ t.metaPageId ∧
      right.pageId ∉ Ctx.pages (.frame left.pageId F up) (.pair a k b) := by
    simpa only [mem_used, not_or] using ha.fresh
  have hmemL : left.pageId ∈ Ctx.pages (.frame left.pageId F up) (.pair a k b) :=
    mem_append_left _ (by simp [Ctx.ids])
  have hne : left.pageId ≠ right.pageId := fun he => hfresh.2 (he ▸ hmemL)
  have hokL := putInternal_ok ha.ok (.inr (.inr hmemL))
  have hokR := putInternal_ok hokL (Set.mem_insert _ _)
  have hheapL : ((t1.putInternal left).putInternal right).heap left.pageId
      = some (.internal left) := by
    rw [heap_putInternal_ne hne]
    exact heap_putInternal_self ha.ok (.inr (.inr hmemL)) hlsound
  have hheapR : ((t1.putInternal left).putInternal right).heap right.pageId
      = some (.internal right) :=
    heap_putInternal_self hokL (Set.mem_insert _ _) hrsound
  have hkeep : ∀ j ∈ Ctx.pages (.frame left.pageId F up) (.pair a k b), j ≠ left.pageId →
      ((t1.putInternal left).putInternal right).heap j = t.heap j := by
    intro j hj hjl
    have hjr : j ≠ right.pageId := fun he => hfresh.2 (he ▸ hj)
    rw [heap_putInternal_ne hjr, heap_putInternal_ne hjl, ha.frame j (hs.core.ne_zero hj) hjr]
  have hseg := hs.core.seg.congr (by
    intro j hj
    refine hkeep j ?_ fun he => hs.core.seg.frame_not_mem (he ▸ hj)
    simp only [Ctx.pages, mem_append] at hj ⊢
    exact hj.imp_left fun hj => Ctx.sibIds_subset_ids _ hj)
  have hfold := hseg.foldSplit hs.fair hjoin
    (by rw [← hlrow, ← hlcfg]; exact hasRow_of_node hheapL hlsound)
    (by rw [← hrrow, ← hrcfg]; exact hasRow_of_node hheapR hrsound) hfresh.2
  have hpages : ∀ x, x ∈ up.pages (.pair (.node left.pageId A) k' (.node right.pageId B)) ↔
      x = right.pageId ∨ x ∈ Ctx.pages (.frame left.pageId F up) (.pair a k b) := fun x => by
    rw [(Ctx.pages_foldSplit hjoin).mem_iff, mem_cons]
  have hinfo : ((t1.putInternal left).putInternal right).info = t.info := by simp [ha.info]
  have hmeta : ((t1.putInternal left).putInternal right).metaPageId = t.metaPageId := by
    simp [ha.metaPageId]
  refine ⟨hlsound, hrsound, ⟨?_, ?_, ?_, ?_⟩, ?_, ?_, ?_, ?_, ?_⟩
  · rw [hinfo]
    exact hs.core.valid
  · rw [hinfo]
    exact hfold
  · rw [hpages, hmeta, not_or]
    exact ⟨hfresh.1.symm, hs.core.meta_not_mem⟩
  · refine hokR.mono fun x hx => ?_
    rw [mem_used, hpages, hmeta] at hx
    exact or_left_comm.mp hx
  · rw [hinfo]
    refine hs.spine.2.2.frame fun x hx => .of_eq (hkeep x ?_ ?_)
    · simp [Ctx.pages, Ctx.ids, hx]
    · rintro rfl
      exact hs.core.frame_not_mem_up hx
  · rw [hinfo]
    exact hA
  · rw [hinfo]
    exact hB
  · rw [hinfo]
    exact hs.root
  · rw [hinfo]
    exact hs.height

theorem splitInternal_spec {used : Set UInt32} (hok : t.pm.Ok used) {p : InternalNode K}
    {A B : Row K UInt32} {k : K} (hrow : p.row = A.join k B)
    (hmid : A.keys.length = p.entries.length / 2) :
    Yields Full (splitInternal p) (fun r t' => ∃ j, Allocated t used j t' ∧
      (r.1.pageId = p.pageId ∧ r.1.config = p.config ∧ r.1.row = A) ∧
      (r.2.1.pageId = j ∧ r.2.1.config = p.config ∧ r.2.1.row = B) ∧ r.2.2 = k) t := by
  obtain ⟨es, e, es', hentries, hlen, rfl, hA, hB⟩ := InternalNode.entries_of_join hrow
  have hget : p.entries[p.entries.length / 2]? = some e := by
    rw [← hmid, ← hlen, hentries]
    simp
  have htake : p.entries.take (p.entries.length / 2) = es := by
    rw [← hmid, ← hlen, hentries]
    simp
  have hdrop : p.entries.drop (p.entries.length / 2 + 1) = es' := by
    rw [← hmid, ← hlen, hentries]
    simp
  simp only [splitInternal, hget, htake, hdrop]
  refine ((allocPage_spec hok).mono ?_).bind
  intro j t1 ha
  exact ⟨j, ha, ⟨rfl, rfl, hA⟩, ⟨rfl, rfl, hB⟩, rfl⟩

/-- A split followed all the way up leaves a tree with the same items. -/
theorem propagateSplit_spec {c : Ctx K h} (hs : t.Split c a k b) :
    Yields Full (propagateSplit c.path k b.id)
      (fun _ t' => t.Rebuilt (c.whole (a.items ++ .sep k :: b.items)) t') t := by
  induction c generalizing t k with
  | top =>
    rw [Ctx.whole_top]
    exact hs.grow
  | @frame h i F up ih =>
    obtain ⟨n, hn, hid, hcfg, hrow⟩ := hs.parent
    have hsize : (n.insertEntry k b.id).entries.length = F.size + 1 := by
      rw [InternalNode.length_entries hrow]
      simp [size]
      omega
    have hadm : up.Admits t.info.config F.size := hs.spine.2.1
    have hle : F.size ≤ internalMaxKeys t.info.config := hadm.le
    unfold Yields
    rw [Ctx.path, propagateSplit, post_bind, post_readInternal hs.core.ok hn]
    by_cases hroom : F.size + 1 ≤ internalMaxKeys t.info.config
    · -- The parent has room.
      have hover : (n.insertEntry k b.id).isOverfull = false := by
        simp only [InternalNode.isOverfull, hcfg, decide_eq_false_iff_not]
        omega
      have hkeys : (F.fillRow (.pair a k b)).keys.length = F.size + 1 := by
        rw [← hsize, InternalNode.length_entries hrow, keys_map]
      obtain ⟨hsound, T, hT, hitems⟩ := hs.core.settle hs.fair hid hcfg hrow hs.spine.2.2
        (by rw [hkeys]; exact hadm.mono (Nat.le_succ _) hroom) hs.root hs.height
      simp only [hover, Bool.not_false, if_true]
      rw [post_saveInternal hs.core.ok (by rw [hid]; exact frame_mem_used) hsound]
      exact ⟨_, T, hT, by rw [hitems, flat_pair], rfl, rfl, rfl⟩
    · -- The parent is full: it has one key too many now and is split in turn.
      have hover : (n.insertEntry k b.id).isOverfull = true := by
        simp only [InternalNode.isOverfull, hcfg, decide_eq_true_eq]
        omega
      have hmin : internalMinKeys t.info.config = internalMaxKeys t.info.config * 40 / 100 := rfl
      have hkeys : (F.fillRow (.pair a k b)).keys.length = F.size + 1 := by
        rw [← hsize, InternalNode.length_entries hrow, keys_map]
      obtain ⟨A, k', B, hjoin, hA⟩ := exists_join (F.fillRow (.pair a k b))
        (i := (F.size + 1) / 2) (by omega)
      have hB : B.keys.length = F.size - (F.size + 1) / 2 := by
        rw [hjoin, keys_join, length_append, length_cons] at hkeys
        omega
      rw [hjoin, map_join] at hrow
      simp only [hover]
      refine ((splitInternal_spec hs.core.ok hrow
        (by rw [keys_map, hA, hsize])).mono ?_).bind
      rintro ⟨left, right, k''⟩ t1 ⟨j, ha, hleft, hright, rfl⟩
      simp only [hid, hcfg] at hleft hright
      obtain ⟨hlsound, hrsound, hsplit⟩ := hs.promote ha hjoin
        (by simp only [Tree.Fair, Tree.minSize, Tree.maxSize]; omega)
        (by simp only [Tree.Fair, Tree.minSize, Tree.maxSize]; omega) hleft hright
      have hmemL :
        left.pageId ∈ Insert.insert j (t.used (Ctx.pages (.frame i F up) (.pair a k b))) := by
        rw [hleft.1]
        exact .inr frame_mem_used
      have hmemR :
        right.pageId ∈ Insert.insert j (t.used (Ctx.pages (.frame i F up) (.pair a k b))) := by
        rw [hright.1]
        exact Set.mem_insert _ _
      unfold Yields
      rw [post_bind, post_saveInternal ha.ok hmemL hlsound, post_bind,
        post_saveInternal (putInternal_ok ha.ok hmemL) hmemR hrsound, hright.1]
      refine (ih hsplit).mono ?_
      rintro - t' ⟨h', T, hT, hitems, hm⟩
      refine ⟨h', T, hT, ?_, SameMeta.trans ⟨?_, ?_, ?_⟩ hm⟩
      · have hflat := congrArg (flat Tree.items Item.sep) hjoin
        rw [flat_fillRow, flat_pair, flat_join] at hflat
        rw [hitems, Ctx.whole_frame, hflat]
        rfl
      · simp [ha.info]
      · simp [ha.info]
      · simp [ha.metaPageId]

/-! ### Leaves -/

section Leaf

variable {c : Ctx K 0} {leaf : LeafNode K} {E : Halt → BTree K → Prop}

theorem Core.setLeaves {r r' : Row K (Tree K 0)} {t' : BTree K} (hc : t.Core c r)
    (hinfo : t'.info = t.info) (hmeta : t'.metaPageId = t.metaPageId)
    (hkeep : ∀ j ∈ c.ids, Keeps t.info.config t.heap t'.heap j)
    (hholds : ∀ s ∈ r'.children, s.Holds t.info.config t'.heap)
    (hnodup : (t.metaPageId :: c.pages r').Nodup) (hok : t'.pm.Ok (t.used (c.pages r')))
    (hlinked : Linked t'.heap 0 (c.chain (r'.children.flatMap Tree.leaves)) 0)
    (hsorted : Sorted (c.whole (r'.flat Tree.items .sep)))
    (hfits : ∀ x ∈ c.whole (r'.flat Tree.items .sep), Fits t.info.config x.key) :
    t'.Core c r' := by
  obtain ⟨hm, hn⟩ := nodup_cons.mp hnodup
  have hocc : ∀ s ∈ r'.children, s.Occ t.info.config := by
    intro s _
    trivial
  rw [← hmeta] at hm
  have hsibs := hc.seg.sibs.frame fun j hj => hkeep j (Ctx.sibIds_subset_ids _ hj)
  refine ⟨?_, ?_, hm, hok.mono ?_⟩
  · rw [hinfo]
    exact hc.valid
  · rw [hinfo]
    exact ⟨hholds, hsibs, hn, hlinked, hsorted, hfits, hocc, hc.seg.ctxOcc⟩
  · intro j hj
    rwa [mem_used, hmeta] at hj

variable {es : List (LeafEntry K)}

theorem Core.setEntries (hc : t.Core c (.single (.leaf leaf.pageId leaf.entries)))
    (hheap : t.heap leaf.pageId = some (.leaf leaf)) (hcfg : leaf.config = t.info.config)
    (hlen : es.length ≤ leafMaxEntries t.info.config) (hsorted : Sorted (c.whole (es.map .ent)))
    (hfits : ∀ x ∈ c.whole (es.map .ent), Fits t.info.config x.key) :
    LeafNode.Sound { leaf with entries := es } ∧
      (t.putLeaf { leaf with entries := es }).Core c (.single (.leaf leaf.pageId es)) ∧
      ∀ j, j ≠ leaf.pageId → (t.putLeaf { leaf with entries := es }).heap j = t.heap j := by
  have hsound : LeafNode.Sound { leaf with entries := es } := by
    refine ⟨by simpa [hcfg] using hlen, fun e he => ?_⟩
    rw [show ({ leaf with entries := es } : LeafNode K).config = t.info.config from hcfg]
    refine hfits (.ent e) ?_
    simp only [Ctx.whole, mem_append, mem_map]
    exact .inr (.inl ⟨e, he, rfl⟩)
  have hmem : leaf.pageId ∈ t.used (c.pages (.single (.leaf leaf.pageId leaf.entries))) :=
    .inr (mem_append_right _ (by simp))
  have hself := heap_putLeaf_self (n := { leaf with entries := es }) hc.ok hmem hsound
  have hkeep : ∀ j, j ≠ leaf.pageId →
      (t.putLeaf { leaf with entries := es }).heap j = t.heap j := fun j hj => heap_putLeaf_ne hj
  have hnot : leaf.pageId ∉ c.ids := by
    have := hc.seg.nodup
    rw [Ctx.pages, nodup_append] at this
    exact fun hi => this.2.2 _ hi leaf.pageId (by simp) rfl
  refine ⟨hsound, hc.setLeaves rfl rfl (fun j hj => .of_eq (hkeep j fun he => hnot (he ▸ hj))) ?_
    (nodup_cons.mpr ⟨hc.meta_not_mem, hc.seg.nodup⟩) (putLeaf_ok hc.ok hmem)
    (hc.seg.linked.frame fun j _ => ?_) (by simpa using hsorted) (by simpa using hfits), hkeep⟩
  · simp only [children_single, mem_singleton, forall_eq, Tree.holds_leaf]
    exact ⟨_, hself, rfl, hcfg, rfl, hsound⟩
  · by_cases hj : j = leaf.pageId
    · rw [hj]
      exact .of_node hheap hself rfl rfl
    · exact .of_eq (hkeep j hj)

/-- What pointing the leaf `next`, if it is one, back to `prev` does. -/
structure Relinked (t : BTree K) (used : Set UInt32) (next prev : UInt32) (t' : BTree K) :
    Prop where
  ok : t'.pm.Ok used
  info : t'.info = t.info
  metaPageId : t'.metaPageId = t.metaPageId
  frame : ∀ j, j ≠ next → t'.heap j = t.heap j
  keeps : ∀ j, Keeps t.info.config t.heap t'.heap j
  links : next ≠ 0 → ∀ p q, HasLinks t.heap next p q → HasLinks t'.heap next prev q

variable {used : Set UInt32}

theorem relinkNext_spec (hok : t.pm.Ok used) {next prev : UInt32}
    (hnext : next ≠ 0 → next ∈ used ∧ ∃ es, HasLeaf t.info.config t.heap next es) :
    Post (relinkNext next prev) (fun _ t' => Relinked t used next prev t') E t := by
  rw [relinkNext]
  by_cases h0 : next = 0
  · rw [if_neg (by simpa using h0)]
    exact ⟨hok, rfl, rfl, fun _ _ => rfl, fun _ => .of_eq rfl, fun h => absurd h0 h⟩
  · obtain ⟨hused, es, n, hn, rfl, hcfg, rfl, hsound⟩ := hnext h0
    set n' : LeafNode K := { n with prevLeaf := prev } with hn'
    have hsound' : n'.Sound := hsound
    have hself : (t.putLeaf n').heap n.pageId = some (.leaf n') :=
      heap_putLeaf_self hok hused hsound'
    have hkeep : ∀ j, j ≠ n.pageId → (t.putLeaf n').heap j = t.heap j :=
      fun j hj => heap_putLeaf_ne hj
    rw [if_pos (by simpa using h0), post_bind, post_readLeaf hok hn,
      post_saveLeaf (n := n') hok hused hsound']
    refine ⟨putLeaf_ok hok hused, rfl, rfl, hkeep, fun j => ?_, fun _ p q hl => ?_⟩
    · by_cases hj : j = n.pageId
      · subst hj
        refine ⟨fun es he => ?_, fun r hr => ?_⟩
        · obtain ⟨m, hm, -, -, rfl, -⟩ := he
          rw [hn, Option.some.injEq, NodeRef.leaf.injEq] at hm
          exact ⟨n', hself, rfl, hcfg, by rw [← hm], hsound'⟩
        · obtain ⟨m, hm, -⟩ := hr
          rw [hn] at hm
          cases hm
      · exact .of_eq (hkeep j hj)
    · obtain ⟨m, hm, -, rfl⟩ := hl
      rw [hn, Option.some.injEq, NodeRef.leaf.injEq] at hm
      exact ⟨n', hself, rfl, by rw [← hm]⟩

theorem Relinked.linked {p prev : UInt32} {ls : List UInt32} {t' : BTree K}
    (hr : Relinked t used (ls.headD 0) prev t') (hl : Linked t.heap p ls 0) (hn : ls.Nodup)
    (h0 : 0 ∉ ls) : Linked t'.heap prev ls 0 := by
  refine hl.relink ?_ ?_
  · intro i hi q hq
    have hhead : ls.headD 0 = i := by rw [headD_eq_head?_getD, hi, Option.getD_some]
    have hne : i ≠ 0 := fun he => h0 (he ▸ mem_of_mem_head? hi)
    have := hr.links
    rw [hhead] at this
    exact this hne _ _ hq
  · intro i hi
    refine .of_eq (hr.frame i ?_)
    cases ls with
    | nil => cases hi
    | cons j ls =>
      rintro rfl
      exact (nodup_cons.mp hn).1 hi

variable {r : Row K (Tree K 0)}

theorem Core.leaves_nodup (hc : t.Core c r) :
    (c.leftLeaves ++ c.rightLeaves).Nodup ∧ 0 ∉ c.rightLeaves := by
  constructor
  · rw [nodup_iff_count_le_one]
    intro x
    have h1 := c.count_leaves_le x
    have h2 := nodup_iff_count_le_one.mp hc.seg.nodup x
    rw [Ctx.pages, count_append] at h2
    omega
  · intro h0
    refine hc.ne_zero (mem_append_left _ (Ctx.sibIds_subset_ids _ ?_)) rfl
    exact c.leaves_subset_sibIds _ (mem_append_right _ h0)

theorem Core.nextLeaf (hc : t.Core c r) (hne : c.rightLeaves.headD 0 ≠ 0) :
    c.rightLeaves.headD 0 ∈ c.sibIds ∧
      ∃ es, HasLeaf t.info.config t.heap (c.rightLeaves.headD 0) es := by
  have hmem : c.rightLeaves.headD 0 ∈ c.leftLeaves ++ c.rightLeaves := by
    cases hR : c.rightLeaves with
    | nil => simp [hR] at hne
    | cons j ls => simp
  exact ⟨c.leaves_subset_sibIds _ hmem, hc.seg.sibs.hasLeaf hmem⟩

theorem splitLeaf_spec (leaf : LeafNode K) (hok : t.pm.Ok used) {l l' : List (LeafEntry K)}
    {e : LeafEntry K} (hentries : leaf.entries = l ++ e :: l')
    (hmid : l.length = leaf.entries.length / 2) :
    Yields Full (splitLeaf leaf) (fun r t' => ∃ j, Allocated t used j t' ∧
      r = ({ leaf with entries := l, nextLeaf := j },
        ⟨j, leaf.nextLeaf, leaf.pageId, leaf.config, e :: l'⟩, e.key)) t := by
  have htake : leaf.entries.take (leaf.entries.length / 2) = l := by
    rw [← hmid, hentries]
    simp
  have hdrop : leaf.entries.drop (leaf.entries.length / 2) = e :: l' := by
    rw [← hmid, hentries]
    simp
  unfold Yields
  simp only [splitLeaf, htake, hdrop]
  refine ((allocPage_spec hok).mono ?_).bind
  intro j t1 ha
  exact ⟨j, ha, rfl⟩

theorem Core.writeHalves (hc : t.Core c (.single (.leaf leaf.pageId leaf.entries)))
    (hheap : t.heap leaf.pageId = some (.leaf leaf)) (hcfg : leaf.config = t.info.config)
    {l r : List (LeafEntry K)} {k : K} {j : UInt32} {t1 : BTree K}
    (ha : Allocated t (t.used (c.pages (.single (.leaf leaf.pageId leaf.entries)))) j t1)
    (hl : l.length ≤ leafMaxEntries t.info.config) (hr : r.length ≤ leafMaxEntries t.info.config)
    (hsorted : Sorted (c.whole (l.map .ent ++ .sep k :: r.map .ent)))
    (hfits : ∀ x ∈ c.whole (l.map .ent ++ .sep k :: r.map .ent), Fits t.info.config x.key) :
    Post (do
        saveLeaf { leaf with entries := l, nextLeaf := j }
        saveLeaf ⟨j, leaf.nextLeaf, leaf.pageId, leaf.config, r⟩
        relinkNext leaf.nextLeaf j)
      (fun _ t' => t'.Core c (.pair (.leaf leaf.pageId l) k (.leaf j r)) ∧ t'.info = t.info ∧
        t'.metaPageId = t.metaPageId ∧ ∀ x ∈ c.ids, Keeps t.info.config t.heap t'.heap x) E t1 := by
  set left : LeafNode K := { leaf with entries := l, nextLeaf := j } with hleft
  set right : LeafNode K := ⟨j, leaf.nextLeaf, leaf.pageId, leaf.config, r⟩ with hright
  have hent : ∀ e ∈ l ++ r, Fits t.info.config e.key := by
    intro e he
    refine hfits (.ent e) ?_
    simp only [Ctx.whole, mem_append, mem_map, mem_cons] at he ⊢
    exact .inr (.inl (he.imp (fun he => ⟨e, he, rfl⟩) fun he => .inr ⟨e, he, rfl⟩))
  have hlsound : left.Sound := by
    simp only [LeafNode.Sound, hleft, hcfg]
    exact ⟨hl, fun e he => hent e (mem_append_left _ he)⟩
  have hrsound : right.Sound := by
    simp only [LeafNode.Sound, hright, hcfg]
    exact ⟨hr, fun e he => hent e (mem_append_right _ he)⟩
  set used := t.used (c.pages (.single (.leaf leaf.pageId leaf.entries))) with hused
  have hmemL : left.pageId ∈ Insert.insert j used :=
    .inr (.inr (mem_append_right _ (by simp [hleft])))
  have hmemR : right.pageId ∈ Insert.insert j used := Set.mem_insert _ _
  have hpages : (t.metaPageId :: c.pages (.pair (.leaf leaf.pageId l) k (.leaf j r))).Nodup := by
    have hn : (j :: t.metaPageId :: c.pages (.single (.leaf leaf.pageId leaf.entries))).Nodup := by
      refine nodup_cons.mpr ⟨?_, nodup_cons.mpr ⟨hc.meta_not_mem, hc.seg.nodup⟩⟩
      simpa only [mem_cons, hused, mem_used] using ha.fresh
    exact ((Ctx.pages_pair_leaf.cons _).trans (List.Perm.swap _ _ _)).symm.nodup hn
  have hdiff : leaf.pageId ≠ j ∧ ∀ x ∈ c.ids, x ≠ leaf.pageId ∧ x ≠ j := by
    obtain ⟨-, hn, hd⟩ := nodup_append.mp (nodup_cons.mp hpages).2
    exact ⟨by simpa using hn, fun x hx => ⟨hd x hx _ (by simp), hd x hx _ (by simp)⟩⟩
  obtain ⟨hne, hdiff⟩ := hdiff
  have hokL := putLeaf_ok (n := left) ha.ok hmemL
  have hokR := putLeaf_ok (n := right) hokL hmemR
  -- The heap before the next leaf is relinked.
  set t3 := (t1.putLeaf left).putLeaf right with ht3
  have hheapL : t3.heap leaf.pageId = some (.leaf left) := by
    rw [ht3, heap_putLeaf_ne hne]
    exact heap_putLeaf_self ha.ok hmemL hlsound
  have hheapR : t3.heap j = some (.leaf right) := heap_putLeaf_self hokL hmemR hrsound
  have hkeep : ∀ x ∈ c.ids, t3.heap x = t.heap x := by
    intro x hx
    rw [ht3, heap_putLeaf_ne (n := right) (hdiff x hx).2,
      heap_putLeaf_ne (n := left) (hdiff x hx).1,
      ha.frame x (hc.ne_zero (mem_append_left _ hx)) (hdiff x hx).2]
  have hinfo : t3.info = t.info := by simp [ht3, ha.info]
  -- The chain around the leaf.
  have hchain : Linked t.heap 0 (c.chain [leaf.pageId]) 0 := by simpa using hc.seg.linked
  obtain ⟨hchainL, hlinks, hchainR⟩ := Ctx.linked_chain_one.mp hchain
  obtain ⟨n, hn, hprev, hnext⟩ := hlinks
  rw [hheap, Option.some.injEq, NodeRef.leaf.injEq] at hn
  subst hn
  obtain ⟨hnodup, h0⟩ := hc.leaves_nodup
  obtain ⟨-, hnodupR, hdisj⟩ := nodup_append.mp hnodup
  have hsub : ∀ x ∈ c.leftLeaves ++ c.rightLeaves, x ∈ c.ids := fun x hx =>
    Ctx.sibIds_subset_ids _ (c.leaves_subset_sibIds x hx)
  rw [post_bind, post_saveLeaf ha.ok hmemL hlsound, post_bind, post_saveLeaf hokL hmemR hrsound,
    hnext]
  refine (relinkNext_spec hokR ?_).imp ?_
  · intro hne0
    obtain ⟨hmem, es, hes⟩ := hc.nextLeaf hne0
    have hids := Ctx.sibIds_subset_ids _ hmem
    refine ⟨.inr (.inr (mem_append_left _ hids)), es, ?_⟩
    rw [hinfo]
    exact (Keeps.of_eq (hkeep _ hids)).1 es hes
  · intro _ t4 hrel
    have hkeeps : ∀ x, Keeps t.info.config t3.heap t4.heap x := by
      rw [← hinfo]
      exact hrel.keeps
    have hinfo4 : t4.info = t.info := hrel.info.trans hinfo
    have hmeta4 : t4.metaPageId = t.metaPageId := hrel.metaPageId.trans
      (by simp [ht3, ha.metaPageId])
    have hkeep4 : ∀ x ∈ c.ids, Keeps t.info.config t.heap t4.heap x := fun x hx =>
      (Keeps.of_eq (hkeep x hx)).trans (hkeeps x)
    refine ⟨hc.setLeaves hinfo4 hmeta4 hkeep4 ?_ hpages (hrel.ok.mono ?_) ?_
      (by simpa using hsorted)
      (by simpa using hfits), hinfo4, hmeta4, hkeep4⟩
    · simp only [children_pair, mem_cons, not_mem_nil, or_false, forall_eq_or_imp,
        forall_eq, Tree.holds_leaf]
      exact ⟨(hkeeps _).1 l ⟨left, hheapL, rfl, hcfg, rfl, hlsound⟩,
        (hkeeps _).1 r ⟨right, hheapR, rfl, hcfg, rfl, hrsound⟩⟩
    · intro x hx
      rw [mem_used, Ctx.pages_pair_leaf.mem_iff, mem_cons] at hx
      exact or_left_comm.mp hx
    · change Linked t4.heap 0 (c.chain [leaf.pageId, j]) 0
      have hstay : ∀ x, x ∉ c.rightLeaves → x ≠ 0 → t4.heap x = t3.heap x := fun x hx hx0 =>
        hrel.frame x (ne_headD hx hx0)
      have hR : ∀ x ∈ c.rightLeaves, x ∈ c.ids := fun x hx => hsub x (mem_append_right _ hx)
      have hR3 : Linked t3.heap leaf.pageId c.rightLeaves 0 :=
        hchainR.frame fun x hx => .of_eq (hkeep x (hR x hx))
      have hi0 : leaf.pageId ≠ 0 := hc.ne_zero (mem_append_right _ (by simp))
      have hj0 : j ≠ 0 := (ha.ok.used j (Set.mem_insert _ _)).1
      refine Ctx.linked_chain_two.mpr ⟨?_, ?_, ?_, hrel.linked hR3 hnodupR h0⟩
      · refine hchainL.frame fun x hx => .of_eq ?_
        have hxids := hsub x (mem_append_left _ hx)
        rw [hstay x (fun hxR => hdisj x hx x hxR rfl) (hc.ne_zero (mem_append_left _ hxids)),
          hkeep x hxids]
      · refine ⟨left, ?_, hprev, rfl⟩
        rw [hstay _ (fun hxR => (hdiff _ (hR _ hxR)).1 rfl) hi0, hheapL]
      · refine ⟨right, ?_, rfl, hnext⟩
        rw [hstay _ (fun hxR => (hdiff _ (hR _ hxR)).2 rfl) hj0, hheapR]

variable {key : K} {T : Tree K h}

theorem Repr.reaches (hT : t.Repr T) (hr : t.Reaches key .top T c leaf) :
    t.info.rootPageId = c.rootId leaf.pageId ∧ t.info.height = c.height + 1 :=
  ⟨hT.root.trans hr.rootId.symm, by rw [hT.height, hr.height, Ctx.height]⟩

theorem Reaches.insert {s : Tree K h} {c₀ : Ctx K h} {e : LeafEntry K} {a b : List (LeafEntry K)}
    (hr : t.Reaches e.key c₀ s c leaf) (hab : leaf.entries = a ++ b) (ha : ∀ x ∈ a, x.key < e.key)
    (hb : ∀ x ∈ b, e.key < x.key) (hfit : Fits t.info.config e.key) :
    Sorted (c.whole ((a ++ e :: b).map .ent)) ∧
      ∀ x ∈ c.whole ((a ++ e :: b).map .ent), Fits t.info.config x.key := by
  have hseg := hr.at_leaf.core.seg
  have hsorted := hseg.sorted
  have hfits := hseg.fits
  simp only [flat_single, Tree.items_leaf, hab] at hsorted hfits
  constructor
  · have := Sorted.insert (a := c.leftItems ++ a.map .ent)
      (e := e) (by simpa [Ctx.whole] using hsorted) ?_ ?_
    · simpa [Ctx.whole] using this
    · intro x hx
      rcases mem_append.mp hx with hx | hx
      · exact hr.at_leaf.around.left x hx
      · obtain ⟨y, hy, rfl⟩ := mem_map.mp hx
        exact ha y hy
    · intro x hx
      rcases mem_append.mp hx with hx | hx
      · obtain ⟨y, hy, rfl⟩ := mem_map.mp hx
        exact hb y hy
      · exact hr.at_leaf.around.right x hx
  · intro x hx
    by_cases hxe : x = .ent e
    · rw [hxe]
      exact hfit
    · refine hfits x ?_
      simp only [Ctx.whole, map_append, map_cons, mem_append, mem_cons, hxe,
        false_or] at hx ⊢
      exact hx

theorem insert_room (hT : t.Repr T) (hr : t.Reaches key .top T c leaf)
    (hlen : leaf.entries.length ≤ es.length) (hroom : es.length ≤ leafMaxEntries t.info.config)
    (hsorted : Sorted (c.whole (es.map .ent)))
    (hfits : ∀ x ∈ c.whole (es.map .ent), Fits t.info.config x.key) :
    LeafNode.Sound { leaf with entries := es } ∧
      ∃ T' : Tree K c.height, (t.putLeaf { leaf with entries := es }).Repr T' ∧
        T'.items = c.whole (es.map .ent) := by
  have hcore := hr.at_leaf.core
  obtain ⟨hsound, hc', hkeep⟩ := hcore.setEntries hr.heap hr.config hroom hsorted hfits
  obtain ⟨hroot, hheight⟩ := hT.reaches hr
  refine ⟨hsound, hc'.toTop ?_ (hr.at_leaf.admits.mono hlen hroom) hroot hheight⟩
  refine hr.at_leaf.spine.frame fun j hj => .of_eq (hkeep j ?_)
  rintro rfl
  have hn := hcore.seg.nodup
  rw [Ctx.pages, nodup_append] at hn
  exact hn.2.2 _ hj leaf.pageId (by simp) rfl

theorem insert_split (hT : t.Repr T) (hr : t.Reaches key .top T c leaf)
    (hlen : es.length = leafMaxEntries t.info.config + 1)
    (hsorted : Sorted (c.whole (es.map .ent)))
    (hfits : ∀ x ∈ c.whole (es.map .ent), Fits t.info.config x.key)
    {next : Proc Halt (BTree K) Unit} {Q : Unit → BTree K → Prop}
    (hE : ∀ t', Full t' → E .overflow t')
    (hnext : ∀ (t' : BTree K) (h' : Nat) (T' : Tree K h'), t'.Repr T' →
      entriesOf T'.items = entriesOf (c.whole (es.map .ent)) → SameMeta t t' → Post next Q E t') :
    Post (do
        let (left, right, promotedKey) ← splitLeaf { leaf with entries := es }
        saveLeaf left
        saveLeaf right
        relinkNext right.nextLeaf right.pageId
        propagateSplit c.path promotedKey right.pageId
        next) Q E t := by
  have hcore := hr.at_leaf.core
  have hmax := le_leafMaxEntries hcore.valid
  have hmin : leafMinEntries t.info.config = leafMaxEntries t.info.config * 40 / 100 := rfl
  obtain ⟨x, f, e, y, rfl, hx⟩ := exists_halves (show 0 < es.length / 2 by omega)
    (show es.length / 2 < es.length by omega)
  obtain ⟨hsorted', hfits'⟩ := Ctx.whole_insertSep hsorted hfits
  have hy : (e :: y).length = leafMaxEntries t.info.config + 1 - (x ++ [f]).length := by
    rw [length_append] at hlen
    omega
  obtain ⟨hroot, hheight⟩ := hT.reaches hr
  have hover : ∀ e (t' : BTree K), e = .overflow ∧ t'.Full → E e t' := fun e t' he =>
    he.1 ▸ hE t' he.2
  rw [post_bind]
  refine Post.mono (splitLeaf_spec { leaf with entries := (x ++ [f]) ++ e :: y } hcore.ok
    rfl hx) ?_ hover
  rintro _ t1 ⟨j, ha, rfl⟩
  have hhalves := hcore.writeHalves (E := E) hr.heap hr.config ha (by omega) (by omega) hsorted'
    hfits'
  rw [post_bind] at hhalves ⊢
  refine hhalves.imp ?_
  intro _ t2 hhalves
  rw [post_bind] at hhalves ⊢
  refine hhalves.imp ?_
  intro _ t3 hhalves
  rw [post_bind]
  refine hhalves.imp ?_
  rintro _ t4 ⟨hc4, hinfo, hmeta, hkeep⟩
  have hsplit : t4.Split c (.leaf leaf.pageId (x ++ [f])) e.key (.leaf j (e :: y)) := by
    refine ⟨hc4, ?_, ?_, ?_, ?_, ?_⟩ <;> rw [hinfo]
    · exact hr.at_leaf.spine.frame hkeep
    · simp only [Tree.size_leaf, Tree.Fair, Tree.minSize, Tree.maxSize]
      omega
    · simp only [Tree.size_leaf, Tree.Fair, Tree.minSize, Tree.maxSize]
      omega
    · exact hroot
    · exact hheight
  rw [post_bind]
  refine Post.mono (propagateSplit_spec hsplit) ?_ hover
  rintro - t' ⟨h', T', hT', hitems, hm⟩
  refine hnext t' h' T' hT' ?_ ⟨?_, ?_, ?_⟩
  · rw [hitems]
    simp [Ctx.whole]
  · rw [hm.numEntries, hinfo]
  · rw [hm.config, hinfo]
  · rw [hm.metaPageId, hmeta]

/-- **Insertion** adds a new entry between the smaller and the larger ones; a
key that is there already is refused and nothing changes. -/
theorem InvAt.insert {m : UInt32} (hi : t.InvAt m es) (hfit : Fits t.info.config key)
    (pageId : UInt32) (slotId : UInt16) :
    Post (BTree.insert key pageId slotId)
      (fun _ t' => ∃ a b, es = a ++ b ∧ (∀ x ∈ a, x.key < key) ∧ (∀ x ∈ b, key < x.key) ∧
        t'.InvAt m (a ++ ⟨key, pageId, slotId⟩ :: b) ∧ t'.info.config = t.info.config)
      (fun e t' => (e = .err (duplicateKeyError key) ∧ t' = t ∧ (lookup es key).isSome) ∨
        e = .overflow ∧ t'.Full) t := by
  obtain ⟨h, T, hT, rfl⟩ := hi.repr
  rw [BTree.insert, post_bind]
  refine (findLeafWithPath_spec (hT.at key) hT.root).imp ?_
  rintro ⟨leaf, path⟩ t₁ ⟨ht, c, hpath, hr⟩
  obtain rfl : path = c.path := hpath
  change t.Reaches key .top T c leaf at hr
  rw [ht]
  have hleft := entriesOf_below hr.at_leaf.around.left
  have hright := entriesOf_above hr.at_leaf.around.right
  rcases sorted_split key hr.sorted with ⟨a, e, b, hab, rfl, ha, -⟩ | ⟨a, b, hab, ha, hb⟩
  · -- The key is there.
    have hall : entriesOf T.items
        = (entriesOf c.leftItems ++ a) ++ e :: (b ++ entriesOf c.rightItems) := by
      simp [hr.entries, hab]
    simp only [LeafNode.search_found hab ha, Option.isSome_some, if_true, post_fail, true_and]
    rw [hall, lookup_found]
    · exact .inl rfl
    · exact fun x hx => (mem_append.mp hx).elim (hleft x) (ha x)
  · set e : LeafEntry K := ⟨key, pageId, slotId⟩ with he
    have hall : entriesOf T.items
        = (entriesOf c.leftItems ++ a) ++ (b ++ entriesOf c.rightItems) := by
      simp [hr.entries, hab]
    have hnew : entriesOf (c.whole ((a ++ e :: b).map .ent))
        = (entriesOf c.leftItems ++ a) ++ e :: (b ++ entriesOf c.rightItems) := by
      simp [Ctx.whole]
    have hdone : ∀ t' : BTree K, t'.InvAt m (entriesOf (c.whole ((a ++ e :: b).map .ent))) →
        t'.info.config = t.info.config → ∃ a b, entriesOf T.items = a ++ b ∧
          (∀ x ∈ a, x.key < key) ∧ (∀ x ∈ b, key < x.key) ∧ t'.InvAt m (a ++ e :: b) ∧
          t'.info.config = t.info.config := by
      intro t' hi' hcfg
      refine ⟨_, _, hall, ?_, ?_, hnew ▸ hi', hcfg⟩
      · exact fun x hx => (mem_append.mp hx).elim (hleft x) (ha x)
      · exact fun x hx => (mem_append.mp hx).elim (hb x) (hright x)
    have hcount : t.info.numEntries + 1
        = (entriesOf (c.whole ((a ++ e :: b).map .ent))).length := by
      rw [hi.numEntries, hall, hnew]
      simp only [length_append, length_cons]
      omega
    have hlen : (a ++ e :: b).length = leaf.entries.length + 1 := by
      simp only [hab, length_append, length_cons]
      omega
    have hmax : leaf.entries.length ≤ leafMaxEntries t.info.config := hr.at_leaf.admits.le
    obtain ⟨hsorted, hfits⟩ := hr.insert (e := e) hab ha hb hfit
    simp only [LeafNode.search_missing hab ha hb, Option.isSome_none, Bool.false_eq_true, if_false,
      LeafNode.insertEntry_eq (e := e) hab ha hb]
    by_cases hroom : (a ++ e :: b).length ≤ leafMaxEntries t.info.config
    · have hover : LeafNode.isOverfull { leaf with entries := a ++ e :: b } = false := by
        simp only [LeafNode.isOverfull, hr.config, decide_eq_false_iff_not]
        omega
      obtain ⟨hsound, T', hT', hitems⟩ := insert_room hT hr (by omega) hroom hsorted hfits
      have hmem : leaf.pageId ∈ t.used (c.pages (.single (.leaf leaf.pageId leaf.entries))) :=
        .inr (mem_append_right _ (by simp))
      simp only [hover, Bool.not_false, if_true]
      rw [post_bind, post_saveLeaf (n := { leaf with entries := a ++ e :: b })
        hr.at_leaf.core.ok hmem
        hsound]
      refine (hT'.finish hcount (by rw [hitems]) hi.metaPageId).imp ?_
      rintro - t' ⟨hi', hcfg⟩
      exact hdone t' hi' hcfg
    · have hover : LeafNode.isOverfull { leaf with entries := a ++ e :: b } = true := by
        simp only [LeafNode.isOverfull, hr.config, decide_eq_true_eq]
        omega
      simp only [hover]
      refine insert_split hT hr (by omega) hsorted hfits (fun _ hfull => .inr ⟨rfl, hfull⟩) ?_
      intro t' h' T' hT' hitems hm
      refine (hT'.finish (by rw [hm.numEntries, hcount]) hitems
        (hm.metaPageId.trans hi.metaPageId)).imp ?_
      rintro - t'' ⟨hi', hcfg⟩
      exact hdone t'' hi' (hcfg.trans hm.config)

theorem insert_spec (hi : t.Inv es) (hfit : Fits t.info.config key) (pageId : UInt32)
    (slotId : UInt16) :
    Post (insert key pageId slotId)
      (fun _ t' => ∃ a b, es = a ++ b ∧ (∀ x ∈ a, x.key < key) ∧ (∀ x ∈ b, key < x.key) ∧
        t'.Inv (a ++ ⟨key, pageId, slotId⟩ :: b) ∧ t'.info.config = t.info.config)
      (fun e t' => (e = .err (duplicateKeyError key) ∧ t' = t ∧ (lookup es key).isSome) ∨
        e = .overflow ∧ t'.Full) t := by
  simp only [inv_iff]
  exact (inv_iff.mp hi).insert hfit pageId slotId

end Leaf

end BTree

end Insert

end GrumpyDB
