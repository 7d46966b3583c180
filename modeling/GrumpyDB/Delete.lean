/-
Deletion from the tree.

The node to be repaired and its neighbour are looked at together, as two trees in one hole
(`Core.widenLeft`, `Core.widenRight`). From there both repairs are the same on either side: moving
an entry or a child over the separator leaves two trees in the hole, a merge leaves one.
-/
import GrumpyDB.Insert

namespace GrumpyDB

open BTreeKey Proc List Ctx Hole Row

section Delete

variable {K : Type} [LinearOrder K] [BTreeKey K]

/-! ### Two neighbours -/

section Widen

variable {h : Nat} {cfg : Config K} {N N' : Heap K} {i : UInt32} {F : Hole K (Tree K h)}
  {up : Ctx K (h + 1)} {a b : Tree K h} {k : K} {c : Ctx K h} {r r' : Row K (Tree K h)}

omit [LinearOrder K] [BTreeKey K] in
theorem Ctx.pages_widenLeft : (Ctx.pages (.frame i F up) (.pair a k b)).Perm
    (Ctx.pages (.frame i (F.pushLeft a k) up) (.single b)) := by
  rw [perm_iff_count]
  simp [pages, ids, count_cons]
  omega

omit [LinearOrder K] [BTreeKey K] in
theorem Ctx.pages_widenRight : (Ctx.pages (.frame i F up) (.pair a k b)).Perm
    (Ctx.pages (.frame i (F.pushRight k b) up) (.single a)) := by
  rw [perm_iff_count]
  simp [pages, ids, count_cons]
  omega

variable {up : Ctx K (h + 1)}

omit [LinearOrder K] [BTreeKey K] in
theorem Ctx.pages_pair_node {j : UInt32} {X Y X' Y' : Row K (Tree K h)} {k' : K}
    (hjoin : X'.join k' Y' = X.join k Y) :
    (up.pages (.pair (.node i X') k' (.node j Y'))).Perm
      (up.pages (.pair (.node i X) k (.node j Y))) := by
  have hchildren : X'.children ++ Y'.children = X.children ++ Y.children := by
    rw [← children_join X' k' Y', hjoin, children_join]
  rw [perm_iff_count]
  intro x
  have := congrArg (fun l => count x (l.flatMap Tree.ids)) hchildren
  simp [pages, count_cons] at this ⊢
  omega

omit [LinearOrder K] [BTreeKey K] in
theorem Ctx.pages_join_node {j : UInt32} {X Y : Row K (Tree K h)} :
    (up.pages (.pair (.node i X) k (.node j Y))).Perm
      (j :: up.pages (.single (.node i (X.join k Y)))) := by
  rw [perm_iff_count]
  simp [pages, count_cons]
  omega

theorem Seg.widenLeft (hs : Seg cfg N (.frame i (F.pushLeft a k) up) (.single b)) :
    Seg cfg N (.frame i F up) (.pair a k b) ∧ Tree.Fair cfg h a.size := by
  have hholds := hs.holds b (by simp)
  have hocc := hs.occ b (by simp)
  have hsibs := hs.sibs.1
  have hsocc := hs.ctxOcc.1
  simp only [leftChildren_pushLeft, rightChildren_pushLeft, mem_append] at hsibs hsocc
  refine ⟨⟨?_, ⟨?_, hs.sibs.2⟩, ?_, ?_, ?_, ?_, ?_, ?_, hs.ctxOcc.2⟩, (hsocc a (by simp)).1⟩
  · simpa using ⟨hsibs a (by simp), hholds⟩
  · exact fun s hs' => hsibs s ((mem_append.mp hs').imp_left .inl)
  · exact pages_widenLeft.symm.nodup hs.nodup
  · simpa [chain_frame] using hs.linked
  · simpa [whole_frame] using hs.sorted
  · simpa [whole_frame] using hs.fits
  · simpa using ⟨(hsocc a (by simp)).2, hocc⟩
  · exact fun s hs' => hsocc s ((mem_append.mp hs').imp_left .inl)

theorem Seg.widenRight (hs : Seg cfg N (.frame i (F.pushRight k b) up) (.single a)) :
    Seg cfg N (.frame i F up) (.pair a k b) ∧ Tree.Fair cfg h b.size := by
  have hholds := hs.holds a (by simp)
  have hocc := hs.occ a (by simp)
  have hsibs := hs.sibs.1
  have hsocc := hs.ctxOcc.1
  simp only [leftChildren_pushRight, rightChildren_pushRight, mem_append,
    mem_cons] at hsibs hsocc
  refine ⟨⟨?_, ⟨?_, hs.sibs.2⟩, ?_, ?_, ?_, ?_, ?_, ?_, hs.ctxOcc.2⟩, (hsocc b (by simp)).1⟩
  · simpa using ⟨hholds, hsibs b (by simp)⟩
  · exact fun s hs' => hsibs s ((mem_append.mp hs').imp_right .inr)
  · exact pages_widenRight.symm.nodup hs.nodup
  · simpa [chain_frame] using hs.linked
  · simpa [whole_frame] using hs.sorted
  · simpa [whole_frame] using hs.fits
  · simpa using ⟨hocc, (hsocc b (by simp)).2⟩
  · exact fun s hs' => hsocc s ((mem_append.mp hs').imp_right .inr)

theorem Seg.regroup (hs : Seg cfg N c r) (hsibs : ∀ j ∈ c.sibIds, N' j = N j)
    (hleaves : ∀ j ∈ r.children.flatMap Tree.leaves, N' j = N j)
    (hholds : ∀ t ∈ r'.children, t.Holds cfg N') (hnodup : (c.pages r').Nodup)
    (hchain : r'.children.flatMap Tree.leaves = r.children.flatMap Tree.leaves)
    (hflat : r'.flat Tree.items .sep = r.flat Tree.items .sep)
    (hocc : ∀ t ∈ r'.children, t.Occ cfg) : Seg cfg N' c r' := by
  refine ⟨hholds, hs.sibs.frame fun j hj => .of_eq (hsibs j hj), hnodup, ?_, ?_, ?_, hocc,
    hs.ctxOcc⟩
  · rw [hchain]
    refine hs.linked.frame fun j hj => .of_eq ?_
    simp only [chain, mem_append] at hj
    rcases hj with hj | hj | hj
    · exact hsibs j (c.leaves_subset_sibIds j (mem_append_left _ hj))
    · exact hleaves j hj
    · exact hsibs j (c.leaves_subset_sibIds j (mem_append_right _ hj))
  · rw [hflat]
    exact hs.sorted
  · rw [hflat]
    exact hs.fits

omit [LinearOrder K] [BTreeKey K] in
theorem Ctx.whole_widenLeft : Ctx.whole (.frame i (F.pushLeft a k) up) b.items
    = Ctx.whole (.frame i F up) (a.items ++ .sep k :: b.items) := by
  simp [whole_frame]

omit [LinearOrder K] [BTreeKey K] in
theorem Ctx.whole_widenRight : Ctx.whole (.frame i (F.pushRight k b) up) a.items
    = Ctx.whole (.frame i F up) (a.items ++ .sep k :: b.items) := by
  simp [whole_frame]

variable [Crc32] {t : BTree K}

theorem BTree.Core.widenLeft (hc : t.Core (.frame i (F.pushLeft a k) up) (.single b)) :
    t.Core (.frame i F up) (.pair a k b) ∧ Tree.Fair t.info.config h a.size := by
  obtain ⟨hseg, hfair⟩ := hc.seg.widenLeft
  refine ⟨⟨hc.valid, hseg, ?_, ?_⟩, hfair⟩
  · rw [pages_widenLeft.mem_iff]
    exact hc.meta_not_mem
  · exact hc.ok.mono fun j hj => hj.imp_right pages_widenLeft.mem_iff.mp

theorem BTree.Core.widenRight (hc : t.Core (.frame i (F.pushRight k b) up) (.single a)) :
    t.Core (.frame i F up) (.pair a k b) ∧ Tree.Fair t.info.config h b.size := by
  obtain ⟨hseg, hfair⟩ := hc.seg.widenRight
  refine ⟨⟨hc.valid, hseg, ?_, ?_⟩, hfair⟩
  · rw [pages_widenRight.mem_iff]
    exact hc.meta_not_mem
  · exact hc.ok.mono fun j hj => hj.imp_right pages_widenRight.mem_iff.mp

end Widen

/-! ### Leaves -/

section Leaves

variable {c : Ctx K 0} {cfg : Config K}

theorem Ctx.whole_dropSep {l r : List (LeafEntry K)} {k : K}
    (hsorted : Sorted (c.whole (l.map .ent ++ .sep k :: r.map .ent)))
    (hfits : ∀ z ∈ c.whole (l.map .ent ++ .sep k :: r.map .ent), Fits cfg z.key) :
    Sorted (c.whole ((l ++ r).map .ent)) ∧
      ∀ z ∈ c.whole ((l ++ r).map .ent), Fits cfg z.key := by
  have hsub : (c.whole ((l ++ r).map .ent)).Sublist
      (c.whole (l.map .ent ++ .sep k :: r.map .ent)) := by
    rw [map_append]
    refine (List.Sublist.refl _).append ?_
    refine List.Sublist.append ?_ (List.Sublist.refl _)
    exact (List.Sublist.refl _).append (sublist_cons_self _ _)
  exact ⟨hsorted.sublist hsub, fun z hz => hfits z (hsub.subset hz)⟩

theorem LeafNode.foldl_insertEntry {es : List (LeafEntry K)} {n : LeafNode K}
    (hs : (n.entries ++ es).Pairwise (fun x y => x.key < y.key)) :
    es.foldl LeafNode.insertEntry n = { n with entries := n.entries ++ es } := by
  induction es generalizing n with
  | nil => simp
  | cons e es ih =>
    have hlt : ∀ x ∈ n.entries, x.key < e.key := fun x hx =>
      (pairwise_append.mp hs).2.2 x hx e (by simp)
    have hone : n.insertEntry e = { n with entries := n.entries ++ [e] } :=
      LeafNode.insertEntry_eq (by simp) hlt (by simp)
    rw [foldl_cons, hone, ih (by simpa using hs)]
    simp

variable [Crc32] {t : BTree K} {left right : LeafNode K} {k : K} {E : Halt → BTree K → Prop}

namespace BTree

/-- Two leaves in the hole, as they are in the heap. -/
structure Leaves (t : BTree K) (c : Ctx K 0) (left : LeafNode K) (k : K) (right : LeafNode K) :
    Prop where
  core : t.Core c (.pair (.leaf left.pageId left.entries) k (.leaf right.pageId right.entries))
  heapLeft : t.heap left.pageId = some (.leaf left)
  heapRight : t.heap right.pageId = some (.leaf right)
  configLeft : left.config = t.info.config
  configRight : right.config = t.info.config

theorem Leaves.ne (hl : t.Leaves c left k right) : left.pageId ≠ right.pageId ∧
    ∀ x ∈ c.ids, x ≠ left.pageId ∧ x ≠ right.pageId := by
  have hn := hl.core.seg.nodup
  obtain ⟨-, hn, hd⟩ := nodup_append.mp hn
  exact ⟨by simpa using hn, fun x hx => ⟨hd x hx _ (by simp), hd x hx _ (by simp)⟩⟩

theorem Leaves.mem (_ : t.Leaves c left k right) :
    left.pageId ∈ t.used (c.pages
      (.pair (.leaf left.pageId left.entries) k (.leaf right.pageId right.entries))) ∧
    right.pageId ∈ t.used (c.pages
      (.pair (.leaf left.pageId left.entries) k (.leaf right.pageId right.entries))) :=
  ⟨.inr (List.mem_append_right _ (by simp)), .inr (List.mem_append_right _ (by simp))⟩

theorem Leaves.joined (hl : t.Leaves c left k right) :
    Sorted (c.whole ((left.entries ++ right.entries).map .ent)) ∧
      ∀ z ∈ c.whole ((left.entries ++ right.entries).map .ent), Fits t.info.config z.key :=
  Ctx.whole_dropSep (by simpa using hl.core.seg.sorted) (by simpa using hl.core.seg.fits)

variable {next : Proc Halt (BTree K) Unit} {Q : Unit → BTree K → Prop}

theorem Leaves.moveEntry (hl : t.Leaves c left k right) {x y : List (LeafEntry K)}
    {f e : LeafEntry K} (heq : left.entries ++ right.entries = (x ++ [f]) ++ e :: y)
    (hx : (x ++ [f]).length ≤ leafMaxEntries t.info.config)
    (hy : (e :: y).length ≤ leafMaxEntries t.info.config)
    (hnext : ∀ t' : BTree K,
      t'.Core c (.pair (.leaf left.pageId (x ++ [f])) e.key (.leaf right.pageId (e :: y))) →
      t'.info = t.info → t'.metaPageId = t.metaPageId → (∀ j ∈ c.ids, t'.heap j = t.heap j) →
      Post next Q E t') :
    Post (do
        saveLeaf { left with entries := x ++ [f] }
        saveLeaf { right with entries := e :: y }
        next) Q E t := by
  obtain ⟨hsorted, hfits⟩ := hl.joined
  rw [heq] at hsorted hfits
  have hent : ∀ z ∈ (x ++ [f]) ++ e :: y, Fits t.info.config z.key := fun z hz =>
    hfits (.ent z) (mem_append_right _ (mem_append_left _ (mem_map_of_mem hz)))
  obtain ⟨hsorted', hfits'⟩ := whole_insertSep hsorted hfits
  obtain ⟨hne, hdiff⟩ := hl.ne
  obtain ⟨hmemL, hmemR⟩ := hl.mem
  set left' : LeafNode K := { left with entries := x ++ [f] } with hleft
  set right' : LeafNode K := { right with entries := e :: y } with hright
  have hlsound : left'.Sound := by
    simp only [LeafNode.Sound, hleft, hl.configLeft]
    exact ⟨hx, fun z hz => hent z (mem_append_left _ hz)⟩
  have hrsound : right'.Sound := by
    simp only [LeafNode.Sound, hright, hl.configRight]
    exact ⟨hy, fun z hz => hent z (mem_append_right _ hz)⟩
  have hokL := putLeaf_ok (n := left') hl.core.ok hmemL
  have hheapL : ((t.putLeaf left').putLeaf right').heap left.pageId = some (.leaf left') := by
    rw [heap_putLeaf_ne (n := right') hne]
    exact heap_putLeaf_self hl.core.ok hmemL hlsound
  have hheapR : ((t.putLeaf left').putLeaf right').heap right.pageId = some (.leaf right') :=
    heap_putLeaf_self hokL hmemR hrsound
  have hkeep : ∀ j ∈ c.ids, ((t.putLeaf left').putLeaf right').heap j = t.heap j := by
    intro j hj
    rw [heap_putLeaf_ne (n := right') (hdiff j hj).2, heap_putLeaf_ne (n := left') (hdiff j hj).1]
  have hchain : Linked t.heap 0 (c.chain [left.pageId, right.pageId]) 0 := by
    simpa using hl.core.seg.linked
  rw [post_bind, post_saveLeaf (n := left') hl.core.ok hmemL hlsound, post_bind,
    post_saveLeaf (n := right') hokL hmemR hrsound]
  refine hnext _ (hl.core.setLeaves rfl rfl (fun j hj => .of_eq (hkeep j hj)) ?_
    (nodup_cons.mpr ⟨hl.core.meta_not_mem, hl.core.seg.nodup⟩)
    (putLeaf_ok (n := right') hokL hmemR) ?_ (by simpa using hsorted') (by simpa using hfits'))
    rfl rfl hkeep
  · simp only [children_pair, mem_cons, not_mem_nil, or_false, forall_eq_or_imp,
      forall_eq, Tree.holds_leaf]
    exact ⟨⟨left', hheapL, rfl, hl.configLeft, rfl, hlsound⟩,
      ⟨right', hheapR, rfl, hl.configRight, rfl, hrsound⟩⟩
  · refine hchain.frame fun j _ => ?_
    by_cases hjl : j = left.pageId
    · rw [hjl]
      exact .of_node hl.heapLeft hheapL rfl rfl
    by_cases hjr : j = right.pageId
    · rw [hjr]
      exact .of_node hl.heapRight hheapR rfl rfl
    · refine .of_eq ?_
      rw [heap_putLeaf_ne (n := right') hjr, heap_putLeaf_ne (n := left') hjl]

theorem Leaves.mergeEntries (hl : t.Leaves c left k right)
    (hroom : (left.entries ++ right.entries).length ≤ leafMaxEntries t.info.config)
    (hnext : ∀ t' : BTree K,
      t'.Core c (.single (.leaf left.pageId (left.entries ++ right.entries))) →
      t'.info = t.info → t'.metaPageId = t.metaPageId →
      (∀ j ∈ c.ids, Keeps t.info.config t.heap t'.heap j) → Post next Q E t') :
    Post (do
        relinkNext right.nextLeaf left.pageId
        freePage right.pageId
        saveLeaf { left with
          entries := left.entries ++ right.entries
          nextLeaf := right.nextLeaf }
        next) Q E t := by
  obtain ⟨hsorted, hfits⟩ := hl.joined
  obtain ⟨hne, hdiff⟩ := hl.ne
  obtain ⟨hmemL, hmemR⟩ := hl.mem
  set merged : LeafNode K :=
    { left with entries := left.entries ++ right.entries, nextLeaf := right.nextLeaf } with hmerged
  set used := t.used (c.pages
    (.pair (.leaf left.pageId left.entries) k (.leaf right.pageId right.entries))) with hused
  have hsound : merged.Sound := by
    simp only [LeafNode.Sound, hmerged, hl.configLeft]
    refine ⟨hroom, fun z hz => hfits (.ent z) ?_⟩
    exact mem_append_right _ (mem_append_left _ (mem_map_of_mem hz))
  have hchain : Linked t.heap 0 (c.chain [left.pageId, right.pageId]) 0 := by
    simpa using hl.core.seg.linked
  obtain ⟨hchainL, ⟨n, hn, hprev, -⟩, ⟨n', hn', -, hnextR⟩, hchainR⟩ := linked_chain_two.mp hchain
  rw [hl.heapLeft, Option.some.injEq, NodeRef.leaf.injEq] at hn
  rw [hl.heapRight, Option.some.injEq, NodeRef.leaf.injEq] at hn'
  subst hn hn'
  obtain ⟨hnodup, h0⟩ := hl.core.leaves_nodup
  obtain ⟨-, hnodupR, hdisj⟩ := nodup_append.mp hnodup
  have hsub : ∀ x ∈ c.leftLeaves ++ c.rightLeaves, x ∈ c.ids := fun x hx =>
    sibIds_subset_ids _ (c.leaves_subset_sibIds x hx)
  have hids0 : ∀ x ∈ c.ids, x ≠ 0 := fun x hx => hl.core.ne_zero (mem_append_left _ hx)
  rw [post_bind, hnextR]
  refine (relinkNext_spec hl.core.ok ?_).imp ?_
  · intro hne0
    obtain ⟨hmem, hes⟩ := hl.core.nextLeaf hne0
    exact ⟨.inr (mem_append_left _ (sibIds_subset_ids _ hmem)), hes⟩
  intro _ t1 hrel
  rw [post_bind]
  refine (freePage_spec hrel.ok hmemR).imp ?_
  intro _ t2 hfree
  have hmemL' : merged.pageId ∈ used \ {right.pageId} := ⟨hmemL, by simpa using hne⟩
  rw [post_bind, post_saveLeaf hfree.ok hmemL' hsound]
  have hinfo : (t2.putLeaf merged).info = t.info := by simp [hfree.info, hrel.info]
  have hmeta : (t2.putLeaf merged).metaPageId = t.metaPageId := by
    simp [hfree.metaPageId, hrel.metaPageId]
  have hstay : ∀ x ∈ c.ids, (t2.putLeaf merged).heap x = t1.heap x := by
    intro x hx
    rw [heap_putLeaf_ne (n := merged) (hdiff x hx).1, hfree.frame x (hids0 x hx) (hdiff x hx).2]
  have hkeep : ∀ x ∈ c.ids, Keeps t.info.config t.heap (t2.putLeaf merged).heap x := fun x hx =>
    (hrel.keeps x).trans (.of_eq (hstay x hx))
  have hself := heap_putLeaf_self hfree.ok hmemL' hsound
  have hn : (right.pageId :: t.metaPageId ::
      c.pages (.single (.leaf left.pageId (left.entries ++ right.entries)))).Nodup :=
    ((pages_pair_leaf.cons _).trans (List.Perm.swap _ _ _)).nodup
      (nodup_cons.mpr ⟨hl.core.meta_not_mem, hl.core.seg.nodup⟩)
  obtain ⟨hfresh, hn⟩ := nodup_cons.mp hn
  refine hnext _ (hl.core.setLeaves hinfo hmeta hkeep ?_ hn ?_ ?_ (by simpa using hsorted)
    (by simpa using hfits)) hinfo hmeta hkeep
  · simp only [children_single, mem_singleton, forall_eq, Tree.holds_leaf]
    exact ⟨merged, hself, rfl, hl.configLeft, rfl, hsound⟩
  · refine (putLeaf_ok (n := merged) hfree.ok hmemL').mono fun x hx => ⟨?_, ?_⟩
    · rw [mem_used, pages_pair_leaf.mem_iff, mem_cons]
      exact hx.imp_right .inr
    · rintro rfl
      exact hfresh (mem_cons.mpr hx)
  · change Linked _ 0 (c.chain [left.pageId]) 0
    refine linked_chain_one.mpr ⟨?_, ⟨merged, hself, hprev, hnextR⟩, ?_⟩
    · refine hchainL.frame fun x hx => .of_eq ?_
      have hxids := hsub x (mem_append_left _ hx)
      rw [hstay x hxids, hrel.frame x (ne_headD (fun hxR => hdisj x hx x hxR rfl) (hids0 x hxids))]
    · refine (hrel.linked hchainR hnodupR h0).frame fun x hx => .of_eq (hstay x ?_)
      exact hsub x (mem_append_right _ hx)

end BTree

end Leaves

/-! ### Inner nodes -/

section Nodes

variable [Crc32] {h : Nat} {t : BTree K} {c : Ctx K (h + 1)} {left right : InternalNode K}
  {X Y : Row K (Tree K h)} {k : K} {E : Halt → BTree K → Prop}

namespace BTree

/-- Two inner nodes in the hole, as they are in the heap. -/
structure Nodes (t : BTree K) (c : Ctx K (h + 1)) (left : InternalNode K) (X : Row K (Tree K h))
    (k : K) (right : InternalNode K) (Y : Row K (Tree K h)) : Prop where
  core : t.Core c (.pair (.node left.pageId X) k (.node right.pageId Y))
  configLeft : left.config = t.info.config
  configRight : right.config = t.info.config
  rowLeft : left.row = X.map Tree.id
  rowRight : right.row = Y.map Tree.id

theorem Nodes.ne (hn : t.Nodes c left X k right Y) : left.pageId ≠ right.pageId ∧
    (∀ x ∈ c.ids, x ≠ left.pageId ∧ x ≠ right.pageId) ∧
    ∀ x ∈ (X.children ++ Y.children).flatMap Tree.ids, x ≠ left.pageId ∧ x ≠ right.pageId := by
  have hnd := hn.core.seg.nodup
  obtain ⟨-, hnd, hd⟩ := nodup_append.mp hnd
  have hids : (pair (Tree.node left.pageId X) k (Tree.node right.pageId Y)).children.flatMap
      Tree.ids = left.pageId :: (X.children.flatMap Tree.ids ++
        right.pageId :: Y.children.flatMap Tree.ids) := by simp
  rw [hids] at hnd hd
  simp only [nodup_cons, nodup_append, mem_append, mem_cons, not_or] at hnd
  obtain ⟨⟨h1, h2, h3⟩, -, ⟨h4, -⟩, h5⟩ := hnd
  refine ⟨h2, fun x hx => ⟨hd x hx _ (by simp), hd x hx _ (by simp)⟩, fun x hx => ?_⟩
  rw [flatMap_append, mem_append] at hx
  rcases hx with hx | hx
  · exact ⟨fun he => h1 (he ▸ hx), fun he => h5 x hx right.pageId (.inl rfl) he⟩
  · exact ⟨fun he => h3 (he ▸ hx), fun he => h4 (he ▸ hx)⟩

theorem Nodes.mem (_ : t.Nodes c left X k right Y) :
    left.pageId ∈ t.used (c.pages (.pair (.node left.pageId X) k (.node right.pageId Y))) ∧
    right.pageId ∈ t.used (c.pages (.pair (.node left.pageId X) k (.node right.pageId Y))) :=
  ⟨.inr (List.mem_append_right _ (by simp)), .inr (List.mem_append_right _ (by simp))⟩

theorem Nodes.below (hn : t.Nodes c left X k right Y) :
    (∀ s ∈ X.children ++ Y.children, s.Holds t.info.config t.heap ∧
      Tree.Fair t.info.config h s.size ∧ s.Occ t.info.config) ∧
    ∀ x ∈ X.keys ++ k :: Y.keys, Fits t.info.config x := by
  have hholds := hn.core.seg.holds
  have hocc := hn.core.seg.occ
  simp only [children_pair, mem_cons, not_mem_nil, or_false, forall_eq_or_imp,
    forall_eq] at hholds hocc
  constructor
  · intro s hs
    rcases mem_append.mp hs with hs | hs
    · exact ⟨hholds.1.2 s hs, hocc.1 s hs⟩
    · exact ⟨hholds.2.2 s hs, hocc.2 s hs⟩
  · intro x hx
    refine hn.core.seg.fits (.sep x) ?_
    rw [flat_pair, Tree.items_node, Tree.items_node, ← flat_join]
    refine mem_append_right _ (mem_append_left _ (mem_flat_of_mem_keys ?_))
    rwa [keys_join]

variable {next : Proc Halt (BTree K) Unit} {Q : Unit → BTree K → Prop}

theorem Nodes.moveChild (hn : t.Nodes c left X k right Y) {X' Y' : Row K (Tree K h)} {k' : K}
    (hjoin : X'.join k' Y' = X.join k Y) (hX : X'.keys.length ≤ internalMaxKeys t.info.config)
    (hY : Y'.keys.length ≤ internalMaxKeys t.info.config) {left' right' : InternalNode K}
    (hleft : left'.pageId = left.pageId ∧ left'.config = left.config ∧ left'.row = X'.map Tree.id)
    (hright : right'.pageId = right.pageId ∧ right'.config = right.config ∧
      right'.row = Y'.map Tree.id)
    (hnext : ∀ t' : BTree K,
      t'.Core c (.pair (.node left.pageId X') k' (.node right.pageId Y')) → t'.info = t.info →
      t'.metaPageId = t.metaPageId → (∀ j ∈ c.ids, t'.heap j = t.heap j) → Post next Q E t') :
    Post (do saveInternal left'; saveInternal right'; next) Q E t := by
  obtain ⟨hlid, hlcfg, hlrow⟩ := hleft
  obtain ⟨hrid, hrcfg, hrrow⟩ := hright
  obtain ⟨hsub, hfits⟩ := hn.below
  obtain ⟨hne, hdiff, hdiff'⟩ := hn.ne
  obtain ⟨hmemL, hmemR⟩ := hn.mem
  have hmemL' : left'.pageId ∈
      t.used (c.pages (.pair (.node left.pageId X) k (.node right.pageId Y))) := by
    rw [hlid]
    exact hmemL
  have hmemR' : right'.pageId ∈
      t.used (c.pages (.pair (.node left.pageId X) k (.node right.pageId Y))) := by
    rw [hrid]
    exact hmemR
  have hchildren : X'.children ++ Y'.children = X.children ++ Y.children := by
    rw [← children_join X' k' Y', hjoin, children_join]
  have hkeys : X'.keys ++ k' :: Y'.keys = X.keys ++ k :: Y.keys := by
    rw [← keys_join, hjoin, keys_join]
  rw [← hkeys] at hfits
  rw [← hchildren] at hsub hdiff'
  have hlsound : left'.Sound := by
    refine InternalNode.sound_of_row hlrow ?_ ?_ <;> rw [keys_map, hlcfg, hn.configLeft]
    · exact hX
    · exact fun x hx => hfits x (mem_append_left _ hx)
  have hrsound : right'.Sound := by
    refine InternalNode.sound_of_row hrrow ?_ ?_ <;> rw [keys_map, hrcfg, hn.configRight]
    · exact hY
    · exact fun x hx => hfits x (mem_append_right _ (mem_cons_of_mem _ hx))
  have hokL := putInternal_ok hn.core.ok hmemL'
  have hkeep : ∀ j, j ≠ left.pageId ∧ j ≠ right.pageId →
      ((t.putInternal left').putInternal right').heap j = t.heap j := by
    rintro j ⟨hjl, hjr⟩
    rw [heap_putInternal_ne (by rwa [hrid]), heap_putInternal_ne (by rwa [hlid])]
  have hheapL : ((t.putInternal left').putInternal right').heap left.pageId
      = some (.internal left') := by
    rw [heap_putInternal_ne (by rwa [hrid]), ← hlid]
    exact heap_putInternal_self hn.core.ok hmemL' hlsound
  have hheapR : ((t.putInternal left').putInternal right').heap right.pageId
      = some (.internal right') := by
    rw [← hrid]
    exact heap_putInternal_self hokL hmemR' hrsound
  have hholds : ∀ s ∈ X'.children ++ Y'.children,
      s.Holds t.info.config ((t.putInternal left').putInternal right').heap := fun s hs =>
    (hsub s hs).1.frame fun j hj => .of_eq (hkeep j (hdiff' j (mem_flatMap.mpr ⟨s, hs, hj⟩)))
  have hperm : (c.pages (.pair (.node left.pageId X') k' (.node right.pageId Y'))).Perm
      (c.pages (.pair (.node left.pageId X) k (.node right.pageId Y))) :=
    pages_pair_node hjoin
  rw [post_bind, post_saveInternal hn.core.ok hmemL' hlsound, post_bind,
    post_saveInternal hokL hmemR' hrsound]
  refine hnext _ ⟨hn.core.valid, hn.core.seg.regroup ?_ ?_ ?_ ?_ ?_ ?_ ?_, ?_, ?_⟩ rfl rfl
    fun j hj => hkeep j (hdiff j hj)
  · exact fun j hj => hkeep j (hdiff j (sibIds_subset_ids _ hj))
  · intro j hj
    refine hkeep j (hdiff' j ?_)
    rw [hchildren]
    refine (flatMap_leaves_sublist _).subset ?_
    simpa using hj
  · simp only [children_pair, mem_cons, not_mem_nil, or_false, forall_eq_or_imp,
      forall_eq]
    exact ⟨⟨⟨left', hheapL, hlid, hlcfg.trans hn.configLeft, hlrow, hlsound⟩,
        fun s hs => hholds s (mem_append_left _ hs)⟩,
      ⟨⟨right', hheapR, hrid, hrcfg.trans hn.configRight, hrrow, hrsound⟩,
        fun s hs => hholds s (mem_append_right _ hs)⟩⟩
  · exact hperm.symm.nodup hn.core.seg.nodup
  · have := congrArg (flatMap Tree.leaves) hchildren
    simpa using this
  · have := congrArg (flat Tree.items Item.sep) hjoin
    simpa using this
  · simp only [children_pair, mem_cons, not_mem_nil, or_false, forall_eq_or_imp,
      forall_eq]
    exact ⟨fun s hs => (hsub s (mem_append_left _ hs)).2,
      fun s hs => (hsub s (mem_append_right _ hs)).2⟩
  · intro hm
    exact hn.core.meta_not_mem (hperm.mem_iff.mp hm)
  · exact (putInternal_ok hokL hmemR').mono fun j hj => hj.imp_right hperm.mem_iff.mp

theorem Nodes.mergeChildren (hn : t.Nodes c left X k right Y)
    (hroom : (X.join k Y).keys.length ≤ internalMaxKeys t.info.config) {merged : InternalNode K}
    (hmerged : merged.pageId = left.pageId ∧ merged.config = left.config ∧
      merged.row = (X.join k Y).map Tree.id)
    (hnext : ∀ t' : BTree K, t'.Core c (.single (.node left.pageId (X.join k Y))) →
      t'.info = t.info → t'.metaPageId = t.metaPageId → (∀ j ∈ c.ids, t'.heap j = t.heap j) →
      Post next Q E t') :
    Post (do freePage right.pageId; saveInternal merged; next) Q E t := by
  obtain ⟨hid, hcfg, hrow⟩ := hmerged
  obtain ⟨hsub, hfits⟩ := hn.below
  obtain ⟨hne, hdiff, hdiff'⟩ := hn.ne
  obtain ⟨hmemL, hmemR⟩ := hn.mem
  have hsound : merged.Sound := by
    refine InternalNode.sound_of_row hrow ?_ ?_ <;> rw [keys_map, hcfg, hn.configLeft]
    · exact hroom
    · rwa [keys_join]
  rw [post_bind]
  refine (freePage_spec hn.core.ok hmemR).imp ?_
  intro _ t1 hfree
  have hmem : merged.pageId ∈
      t.used (c.pages (.pair (.node left.pageId X) k (.node right.pageId Y))) \ {right.pageId} := by
    rw [hid]
    exact ⟨hmemL, by simpa using hne⟩
  rw [post_bind, post_saveInternal hfree.ok hmem hsound]
  have hinfo : (t1.putInternal merged).info = t.info := by simp [hfree.info]
  have hmeta : (t1.putInternal merged).metaPageId = t.metaPageId := by simp [hfree.metaPageId]
  have hkeep : ∀ j, j ∈ c.ids ++ (X.children ++ Y.children).flatMap Tree.ids →
      (t1.putInternal merged).heap j = t.heap j := by
    intro j hj
    have hjne : j ≠ left.pageId ∧ j ≠ right.pageId :=
      (mem_append.mp hj).elim (hdiff j) (hdiff' j)
    have hj0 : j ≠ 0 := by
      refine hn.core.ne_zero (?_ : j ∈ c.pages _)
      rw [pages_join_node.mem_iff]
      refine mem_cons_of_mem _ ?_
      simp only [pages, mem_append, children_single, flatMap_cons,
        flatMap_nil, append_nil, Tree.ids_node, children_join, mem_cons] at hj ⊢
      exact hj.imp_right .inr
    rw [heap_putInternal_ne (by rw [hid]; exact hjne.1), hfree.frame j hj0 hjne.2]
  have hheap : (t1.putInternal merged).heap left.pageId = some (.internal merged) := by
    rw [← hid]
    exact heap_putInternal_self hfree.ok hmem hsound
  have hnodup : (right.pageId :: c.pages (.single (.node left.pageId (X.join k Y)))).Nodup :=
    pages_join_node.nodup hn.core.seg.nodup
  have hmem' : ∀ j ∈ c.pages (.single (.node left.pageId (X.join k Y))),
      j ∈ c.pages (.pair (.node left.pageId X) k (.node right.pageId Y)) := fun j hj =>
    pages_join_node.mem_iff.mpr (mem_cons_of_mem _ hj)
  refine hnext _ ⟨?_, ?_, ?_, ?_⟩ hinfo hmeta fun j hj => hkeep j (mem_append_left _ hj)
  · rw [hinfo]
    exact hn.core.valid
  · rw [hinfo]
    refine hn.core.seg.regroup ?_ ?_ ?_ (nodup_cons.mp hnodup).2 ?_ ?_ ?_
    · exact fun j hj => hkeep j (mem_append_left _ (sibIds_subset_ids _ hj))
    · intro j hj
      refine hkeep j (mem_append_right _ ((flatMap_leaves_sublist _).subset ?_))
      simpa using hj
    · simp only [children_single, mem_singleton, forall_eq, Tree.holds_node,
        children_join]
      refine ⟨⟨merged, hheap, hid, hcfg.trans hn.configLeft, hrow, hsound⟩, fun s hs => ?_⟩
      exact (hsub s hs).1.frame fun j hj =>
        .of_eq (hkeep j (mem_append_right _ (mem_flatMap.mpr ⟨s, hs, hj⟩)))
    · simp
    · simp
    · simp only [children_single, mem_singleton, forall_eq, Tree.occ_node,
        children_join]
      exact fun s hs => (hsub s hs).2
  · rw [hmeta]
    exact fun hm => hn.core.meta_not_mem (hmem' _ hm)
  · refine (putInternal_ok hfree.ok hmem).mono fun j hj => ?_
    rw [mem_used, hmeta] at hj
    refine ⟨hj.imp_right (hmem' j), ?_⟩
    rintro rfl
    rcases hj with hj | hj
    · exact hn.core.meta_not_mem (hj ▸ mem_append_right _ (by simp))
    · exact (nodup_cons.mp hnodup).1 hj

end BTree

end Nodes

/-! ### The parent -/

section Parent

variable {h : Nat} {t t' : BTree K} {i : UInt32} {F : Hole K (Tree K h)}
  {up : Ctx K (h + 1)} {a b a' b' : Tree K h} {k k' : K} {p : InternalNode K}
  {E : Halt → BTree K → Prop}

namespace BTree

/-- The node above two neighbours `a` and `b`, and what is above that node. -/
structure Parent (t : BTree K) (i : UInt32) (F : Hole K (Tree K h)) (up : Ctx K (h + 1))
    (a : Tree K h) (k : K) (b : Tree K h) (p : InternalNode K) : Prop where
  pageId : p.pageId = i
  config : p.config = t.info.config
  row : p.row = ((F.map Tree.id).pushRight k b.id).fill a.id
  spine : up.Spine t.info.config t.heap i
  admits : up.Admits t.info.config (F.size + 1)
  root : t.info.rootPageId = up.rootId i
  height : t.info.height = up.height + 1

theorem Parent.frame (hp : t.Parent i F up a k b p) (hinfo : t'.info = t.info)
    (hkeep : ∀ j ∈ up.ids, Keeps t.info.config t.heap t'.heap j) (ha : a'.id = a.id)
    (hb : b'.id = b.id) : t'.Parent i F up a' k b' p := by
  refine ⟨hp.pageId, ?_, ?_, ?_, ?_, ?_, ?_⟩
  · rw [hinfo]
    exact hp.config
  · rw [ha, hb]
    exact hp.row
  · rw [hinfo]
    exact hp.spine.frame hkeep
  · rw [hinfo]
    exact hp.admits
  · rw [hinfo]
    exact hp.root
  · rw [hinfo]
    exact hp.height

theorem Parent.length_entries (hp : t.Parent i F up a k b p) : p.entries.length = F.size + 1 := by
  rw [InternalNode.length_entries hp.row, length_keys_fill, size_pushRight, size,
    leftKeys_map, rightKeys_map, size]

theorem Parent.separator (hp : t.Parent i F up a k b p) :
    ∃ e, p.entries[F.idx]? = some e ∧ e.key = k := by
  have hk := InternalNode.keys_row p
  rw [hp.row, keys_fill, leftKeys_pushRight, rightKeys_pushRight, leftKeys_map] at hk
  have hget : (p.entries.map InternalEntry.key)[F.idx]? = some k := by
    rw [← hk, ← length_leftKeys, getElem?_append_right le_rfl, Nat.sub_self]
    rfl
  rw [getElem?_map] at hget
  exact Option.map_eq_some_iff.mp hget

theorem Parent.getChildAt (hp : t.Parent i F up a k b p) :
    p.getChildAt F.idx = a.id ∧ p.getChildAt (F.idx + 1) = b.id := by
  constructor
  · have := InternalNode.getChildAt_eq hp.row
    rwa [idx_pushRight, idx_map] at this
  · have hrow := hp.row
    rw [← fill_pushLeft] at hrow
    have := InternalNode.getChildAt_eq hrow
    rwa [idx_pushLeft, idx_map] at this

theorem size_ne_zero_of_spine {c : UInt32} (hv : Valid t.info.config)
    (hs : Ctx.Spine t.info.config t.heap (.frame i F up) c) : F.size ≠ 0 := by
  have hmax := le_internalMaxKeys hv
  have hmin : internalMinKeys t.info.config = internalMaxKeys t.info.config * 40 / 100 := rfl
  have hadm := hs.2.1
  cases up with
  | top =>
    have := hadm.1 (by omega)
    omega
  | frame g G up =>
    have : internalMinKeys t.info.config ≤ F.size := hadm.1
    omega

theorem parent_of_spine (hspine : up.Spine t.info.config t.heap i)
    (hrow : HasRow t.info.config t.heap i (((F.map Tree.id).pushRight k b.id).fill a.id))
    (hadm : up.Admits t.info.config (F.size + 1)) (hroot : t.info.rootPageId = up.rootId i)
    (hheight : t.info.height = up.height + 1) :
    ∃ p, t.heap i = some (.internal p) ∧ t.Parent i F up a k b p := by
  obtain ⟨p, hp, hid, hcfg, hrow, -⟩ := hrow
  exact ⟨p, hp, hid, hcfg, hrow, hspine, hadm, hroot, hheight⟩

variable [Crc32]

theorem Parent.post_setKey (hp : t.Parent i F up a k b p)
    (hc : t.Core (.frame i F up) (.pair a' k' b')) (ha : a'.id = a.id) (hb : b'.id = b.id)
    (hfa : Tree.Fair t.info.config h a'.size) (hfb : Tree.Fair t.info.config h b'.size) :
    Post (saveInternal (p.setKey F.idx k')) (fun _ t' =>
      t.Rebuilt (Ctx.whole (.frame i F up) (a'.items ++ .sep k' :: b'.items)) t') E t := by
  have hrow : (p.setKey F.idx k').row = (F.fillRow (.pair a' k' b')).map Tree.id := by
    have := InternalNode.row_setKey (x := k') hp.row
    rw [idx_map] at this
    rw [this, fillRow_pair, map_fill, map_pushRight, ha, hb]
  have hid : (p.setKey F.idx k').pageId = i := hp.pageId
  obtain ⟨hsound, T, hT, hitems⟩ := hc.settle (by simpa using ⟨hfa, hfb⟩) hid hp.config
    hrow hp.spine
    (by
      rw [fillRow_pair, length_keys_fill, size_pushRight]
      exact hp.admits) hp.root hp.height
  rw [post_saveInternal hc.ok (by rw [hid]; exact frame_mem_used) hsound]
  exact ⟨_, T, hT, by rw [hitems, flat_pair], rfl, rfl, rfl⟩

end BTree

end Parent

/-! ### Rebalancing inner nodes -/

section Rebalance

variable [Crc32] {h : Nat} {t : BTree K} {i : UInt32} {F : Hole K (Tree K (h + 1))}
  {up : Ctx K (h + 2)} {left right p : InternalNode K} {X Y : Row K (Tree K h)} {k : K}
  {E : Halt → BTree K → Prop}

namespace BTree

theorem Nodes.balance (hn : t.Nodes (.frame i F up) left X k right Y)
    (hp : t.Parent i F up (.node left.pageId X) k (.node right.pageId Y) p)
    {X' Y' : Row K (Tree K h)} {k' : K} (hjoin : X'.join k' Y' = X.join k Y)
    (hX : Tree.Fair t.info.config (h + 1) X'.keys.length)
    (hY : Tree.Fair t.info.config (h + 1) Y'.keys.length) {left' right' : InternalNode K}
    (hleft : left'.pageId = left.pageId ∧ left'.config = left.config ∧ left'.row = X'.map Tree.id)
    (hright : right'.pageId = right.pageId ∧ right'.config = right.config ∧
      right'.row = Y'.map Tree.id) :
    Post (do saveInternal left'; saveInternal right'; saveInternal (p.setKey F.idx k'))
      (fun _ t' => t.Rebuilt
        (Ctx.whole (.frame i F up) ((X.join k Y).flat Tree.items .sep)) t') E t := by
  refine hn.moveChild hjoin hX.2 hY.2 hleft hright ?_
  intro t' hcore hinfo hmeta hkeep
  have hp' : t'.Parent i F up (.node left.pageId X) k (.node right.pageId Y) p :=
    hp.frame hinfo (fun j hj => .of_eq (hkeep j (by simp [ids, hj]))) rfl rfl
  rw [← hinfo] at hX hY
  refine (hp'.post_setKey hcore rfl rfl hX hY).imp ?_
  rintro - t'' ⟨h', T, hT, hitems, hm⟩
  refine ⟨h', T, hT, ?_, SameMeta.trans ⟨?_, ?_, hmeta⟩ hm⟩
  · rw [hitems, ← hjoin, flat_join]
    rfl
  · rw [hinfo]
  · rw [hinfo]

theorem redistributeInternalFromLeft_spec (hn : t.Nodes (.frame i F up) left X k right Y)
    (hp : t.Parent i F up (.node left.pageId X) k (.node right.pageId Y) p)
    (hX : internalMinKeys t.info.config < X.keys.length)
    (hX' : X.keys.length ≤ internalMaxKeys t.info.config)
    (hY : Tree.Fair t.info.config (h + 1) (Y.keys.length + 1)) :
    Post (redistributeInternalFromLeft left right p (F.idx + 1))
      (fun _ t' => t.Rebuilt
        (Ctx.whole (.frame i F up) ((X.join k Y).flat Tree.items .sep)) t') E t := by
  obtain ⟨A, km, z, rfl, hA⟩ := exists_join_last (r := X) (by omega)
  have hrow := hn.rowLeft
  rw [map_join, map_single] at hrow
  obtain ⟨es, e, hent, rfl, hes, hz⟩ := InternalNode.entries_of_join_last hrow
  obtain ⟨s, hs, rfl⟩ := hp.separator
  have hlast : left.entries.getLast? = some e := by simp [hent]
  have hinit : left.entries.dropLast = es := by simp [hent]
  simp only [redistributeInternalFromLeft, Nat.add_sub_cancel, hs, hlast, hinit]
  have hjoin : A.join e.key ((single z).join s.key Y)
      = (A.join e.key (single z)).join s.key Y := (join_assoc ..).symm
  refine hn.balance hp hjoin ?_ ?_ ⟨rfl, rfl, hes⟩ ⟨rfl, rfl, ?_⟩
  · exact ⟨show internalMinKeys _ ≤ _ by omega, show _ ≤ internalMaxKeys _ by omega⟩
  · simpa using hY
  · rw [map_join, map_single, ← hn.rowRight, ← hz]
    rfl

theorem redistributeInternalFromRight_spec (hn : t.Nodes (.frame i F up) left X k right Y)
    (hp : t.Parent i F up (.node left.pageId X) k (.node right.pageId Y) p)
    (hY : internalMinKeys t.info.config < Y.keys.length)
    (hY' : Y.keys.length ≤ internalMaxKeys t.info.config)
    (hX : Tree.Fair t.info.config (h + 1) (X.keys.length + 1)) :
    Post (redistributeInternalFromRight left right p F.idx)
      (fun _ t' => t.Rebuilt
        (Ctx.whole (.frame i F up) ((X.join k Y).flat Tree.items .sep)) t') E t := by
  obtain ⟨z, km, B, rfl, hB⟩ := exists_join_first (r := Y) (by omega)
  have hrow := hn.rowRight
  rw [map_join, map_single] at hrow
  obtain ⟨e, es, hent, rfl, hz, hes⟩ := InternalNode.entries_of_join_first hrow
  obtain ⟨s, hs, rfl⟩ := hp.separator
  simp only [redistributeInternalFromRight, hs, hent]
  have hjoin : (X.join s.key (single z)).join e.key B
      = X.join s.key ((single z).join e.key B) := join_assoc ..
  refine hn.balance hp hjoin ?_ ?_ ⟨rfl, rfl, ?_⟩ ⟨rfl, rfl, hes⟩
  · simpa using hX
  · exact ⟨show internalMinKeys _ ≤ _ by omega, show _ ≤ internalMaxKeys _ by omega⟩
  · rw [map_join, map_single, ← hn.rowLeft, ← hz]
    exact rowOf_append _ _ _ _

variable {removeFrom : InternalNode K → Nat → Proc Halt (BTree K) Unit}

/-- Two small neighbours are merged, and the right one is taken out of the
parent. -/
theorem mergeInternal_spec (hn : t.Nodes (.frame i F up) left X k right Y)
    (hp : t.Parent i F up (.node left.pageId X) k (.node right.pageId Y) p)
    (hroom : (X.join k Y).keys.length ≤ internalMaxKeys t.info.config) {Q : Unit → BTree K → Prop}
    (hnext : ∀ t' : BTree K, t'.Core (.frame i F up) (.single (.node left.pageId (X.join k Y))) →
      t'.Parent i F up (.node left.pageId (X.join k Y)) k (.node right.pageId Y) p →
      SameMeta t t' → t'.info = t.info → Post (removeFrom p (F.idx + 1)) Q E t') :
    Post (mergeInternal removeFrom left right p (F.idx + 1)) Q E t := by
  obtain ⟨s, hs, rfl⟩ := hp.separator
  simp only [mergeInternal, Nat.add_sub_cancel, hs]
  refine hn.mergeChildren hroom ?_ ?_
  · refine ⟨rfl, rfl, ?_⟩
    rw [map_join, ← hn.rowLeft, ← hn.rowRight]
    exact rowOf_append _ _ _ _
  · intro t' hcore hinfo hmeta hkeep
    refine hnext t' hcore ?_ ⟨by rw [hinfo], by rw [hinfo], hmeta⟩ hinfo
    exact hp.frame hinfo (fun j hj => .of_eq (hkeep j (by simp [ids, hj]))) rfl rfl

theorem rebalanceInternal_spec {G : Hole K (Tree K (h + 1))} {node : InternalNode K}
    {r : Row K (Tree K h)} (hc : t.Core (.frame i G up) (.single (.node node.pageId r)))
    (hcfg : node.config = t.info.config) (hrow : node.row = r.map Tree.id)
    (hspine : Ctx.Spine t.info.config t.heap (.frame i G up) node.pageId)
    (hroot : t.info.rootPageId = up.rootId i) (hheight : t.info.height = up.height + 1)
    (hsmall : r.keys.length + 1 = internalMinKeys t.info.config)
    (hremove : ∀ {t : BTree K} {F : Hole K (Tree K (h + 1))} {m b : Tree K (h + 1)} {k : K}
      {p : InternalNode K}, t.Core (.frame i F up) (.single m) → t.Parent i F up m k b p →
      Tree.Fair t.info.config (h + 1) m.size → Post (removeFrom p (F.idx + 1))
        (fun _ t' => t.Rebuilt (Ctx.whole (.frame i F up) m.items) t') E t) :
    Post (rebalanceInternal removeFrom node i G.idx)
      (fun _ t' => t.Rebuilt (Ctx.whole (.frame i G up) (r.flat Tree.items .sep)) t') E t := by
  have hmin : internalMinKeys t.info.config = internalMaxKeys t.info.config * 40 / 100 := rfl
  -- A merge of two neighbours, one of which is a key short.
  have hmerge : ∀ {F : Hole K (Tree K (h + 1))} {left right p : InternalNode K}
      {X Y : Row K (Tree K h)} {k : K}, t.Nodes (.frame i F up) left X k right Y →
      t.Parent i F up (.node left.pageId X) k (.node right.pageId Y) p →
      X.keys.length + Y.keys.length + 1 ≤ 2 * internalMinKeys t.info.config →
      internalMinKeys t.info.config ≤ X.keys.length + Y.keys.length + 1 →
      Post (mergeInternal removeFrom left right p (F.idx + 1)) (fun _ t' => t.Rebuilt
        (whole (.frame i F up) ((X.join k Y).flat Tree.items .sep)) t') E t := by
    intro F left right p X Y k hn hp hle hge
    have hlen : (X.join k Y).keys.length = X.keys.length + Y.keys.length + 1 := by simp; omega
    refine mergeInternal_spec hn hp (by omega) ?_
    intro t' hcore hp' hm hinfo
    refine (hremove hcore hp' ?_).imp ?_
    · rw [hinfo]
      exact ⟨show internalMinKeys _ ≤ _ by rw [Tree.size_node]; omega,
        show _ ≤ internalMaxKeys _ by rw [Tree.size_node]; omega⟩
    · rintro - t'' ⟨h', T, hT, hitems, hm'⟩
      exact ⟨h', T, hT, hitems, hm.trans hm'⟩
  simp only [rebalanceInternal]
  rcases G.neighbour_cases with ⟨F, a, k, rfl⟩ | ⟨F, k, b, rfl, hidx⟩ | rfl
  · -- There is a left neighbour.
    obtain ⟨j, X, rfl⟩ := a.eq_node
    obtain ⟨hc', hfair⟩ := hc.widenLeft
    obtain ⟨⟨left, hleft, rfl, hlcfg, hlrow, -⟩, -⟩ :=
      Tree.holds_node.mp (hc'.seg.holds (.node j X) (by simp))
    have hn : t.Nodes (.frame i F up) left X k node r := ⟨hc', hlcfg, hcfg, hlrow, hrow⟩
    obtain ⟨hgrow, hadm, hup⟩ := hspine
    rw [map_pushLeft, fill_pushLeft] at hgrow
    rw [size_pushLeft] at hadm
    obtain ⟨p, hheap, hp⟩ := parent_of_spine (b := .node node.pageId r)
      hup hgrow hadm hroot hheight
    have hchild : p.getChildAt F.idx = left.pageId := hp.getChildAt.1
    rw [← Tree.items_node node.pageId r, whole_widenLeft, Tree.items_node, Tree.items_node,
      ← flat_join]
    rw [post_bind, post_readInternal hc.ok hheap, post_bind, post_get, idx_pushLeft,
      if_pos (Nat.succ_pos _), Nat.add_sub_cancel, hchild, post_bind,
      post_readInternal hc.ok hleft, InternalNode.length_entries hlrow, keys_map]
    have hle : X.keys.length ≤ internalMaxKeys t.info.config := hfair.2
    by_cases hbig : X.keys.length > internalMinKeys t.info.config
    · rw [if_pos hbig]
      exact redistributeInternalFromLeft_spec hn hp hbig hle
        ⟨show internalMinKeys _ ≤ _ by omega, show _ ≤ internalMaxKeys _ by omega⟩
    · rw [if_neg hbig]
      exact hmerge hn hp (by omega) (by omega)
  · -- There is a right neighbour only.
    obtain ⟨j, Y, rfl⟩ := b.eq_node
    obtain ⟨hc', hfair⟩ := hc.widenRight
    obtain ⟨⟨right, hright, rfl, hrcfg, hrrow, -⟩, -⟩ :=
      Tree.holds_node.mp (hc'.seg.holds (.node j Y) (by simp))
    have hn : t.Nodes (.frame i F up) node r k right Y := ⟨hc', hcfg, hrcfg, hrow, hrrow⟩
    obtain ⟨hgrow, hadm, hup⟩ := hspine
    rw [map_pushRight] at hgrow
    rw [size_pushRight] at hadm
    obtain ⟨p, hheap, hp⟩ := parent_of_spine (a := .node node.pageId r)
      hup hgrow hadm hroot hheight
    have hlen := hp.length_entries
    have hchild : p.getChildAt (F.idx + 1) = right.pageId := hp.getChildAt.2
    rw [← Tree.items_node node.pageId r, whole_widenRight, Tree.items_node, Tree.items_node,
      ← flat_join]
    rw [post_bind, post_readInternal hc.ok hheap, post_bind, post_get, idx_pushRight,
      if_neg (by omega), if_pos (by omega), hchild, post_bind,
      post_readInternal hc.ok hright, InternalNode.length_entries hrrow, keys_map]
    have hle : Y.keys.length ≤ internalMaxKeys t.info.config := hfair.2
    by_cases hbig : Y.keys.length > internalMinKeys t.info.config
    · rw [if_pos hbig]
      exact redistributeInternalFromRight_spec hn hp hbig hle
        ⟨show internalMinKeys _ ≤ _ by omega, show _ ≤ internalMaxKeys _ by omega⟩
    · rw [if_neg hbig]
      exact hmerge hn hp (by omega) (by omega)
  · exact absurd rfl (size_ne_zero_of_spine hc.valid hspine)

end BTree

end Rebalance

/-! ### Taking a child out of the parent -/

section Remove

variable [Crc32] {h : Nat} {t : BTree K} {i : UInt32} {F : Hole K (Tree K h)}
  {m b : Tree K h} {k : K} {p : InternalNode K} {E : Halt → BTree K → Prop}

namespace BTree

variable {up : Ctx K (h + 1)}

omit [Crc32] in
theorem Parent.removeChild (hp : t.Parent i F up m k b p) :
    F.idx + 1 ≤ p.entries.length ∧
      (p.removeChild (F.idx + 1)).row = (F.fillRow (.single m)).map Tree.id ∧
      (p.removeChild (F.idx + 1)).entries.length = F.size := by
  have hrow : (p.removeChild (F.idx + 1)).row = (F.map Tree.id).fill m.id := by
    have := InternalNode.row_removeChild hp.row
    rwa [idx_map] at this
  refine ⟨?_, by rw [hrow, fillRow_single, map_fill], ?_⟩
  · rw [hp.length_entries, size, length_leftKeys]
    omega
  · rw [InternalNode.length_entries hrow, length_keys_fill, size, leftKeys_map,
      rightKeys_map, size]

theorem collapse_spec (hc : t.Core (.frame i F .top) (.single m))
    (hp : t.Parent i F .top m k b p) (hfair : Tree.Fair t.info.config h m.size)
    (hsize : F.size = 0) :
    Post (do
        freePage i
        modify fun t => { t with
          info := { t.info with
            rootPageId := m.id
            height := if t.info.height > 1 then t.info.height - 1 else t.info.height } })
      (fun _ t' => t.Rebuilt (Ctx.whole (.frame i F .top) m.items) t') E t := by
  have hmax := le_internalMaxKeys hc.valid
  have hmin : internalMinKeys t.info.config = internalMaxKeys t.info.config * 40 / 100 := rfl
  obtain rfl := eq_head_nil hsize
  have hpages : ∀ j, j ∈ pages (.frame i (.head []) .top) (.single m) ↔
      j = i ∨ j ∈ (top : Ctx K h).pages (.single m) := fun j => by
    simp [pages, ids, leftChildren, rightChildren]
  have hnodup : (i :: (top : Ctx K h).pages (.single m)).Nodup := by
    have := hc.seg.nodup
    simpa [pages, ids, leftChildren, rightChildren] using this
  obtain ⟨hnot, hnodup⟩ := nodup_cons.mp hnodup
  have hmem : i ∈ t.used (pages (.frame i (.head []) .top) (.single m)) := frame_mem_used
  rw [post_bind]
  refine (freePage_spec hc.ok hmem).imp ?_
  intro _ t' hfree
  have hkeep : ∀ j ∈ (top : Ctx K h).pages (.single m), t'.heap j = t.heap j := by
    intro j hj
    refine hfree.frame j (hc.ne_zero ((hpages j).mpr (.inr hj))) ?_
    rintro rfl
    exact hnot hj
  have hheight : t.info.height = h + 2 := hp.height
  -- The child alone is the whole tree.
  have hseg : Seg t.info.config t'.heap .top (.single m) := by
    refine ⟨?_, trivial, hnodup, ?_, ?_, ?_, hc.seg.occ, trivial⟩
    · intro s hs
      refine (hc.seg.holds s hs).frame fun j hj => .of_eq (hkeep j ?_)
      exact mem_append_right _ (mem_flatMap.mpr ⟨s, hs, hj⟩)
    · have := hc.seg.linked
      simp only [chain_frame, leftChildren, rightChildren, map_nil,
        flatMap_nil, nil_append, append_nil] at this
      refine this.frame fun j hj => .of_eq (hkeep j ?_)
      rw [chain_top] at hj
      exact mem_append_right _ ((flatMap_leaves_sublist _).subset hj)
    · have := hc.seg.sorted
      simpa [whole_frame, leftFlat, rightFlat] using this
    · have := hc.seg.fits
      simpa [whole_frame, leftFlat, rightFlat] using this
  rw [post_modify]
  refine ⟨h, m, ⟨⟨?_, ?_, ?_, ?_⟩, ⟨?_, ?_⟩, rfl, ?_⟩, ?_, ⟨?_, ?_, ?_⟩⟩
  · simpa only [hfree.info] using hc.valid
  · simp only [hfree.info]
    exact hseg
  · intro hm
    refine hc.meta_not_mem ((hpages _).mpr (.inr ?_))
    rwa [← hfree.metaPageId]
  · refine hfree.ok.mono fun j hj => ?_
    have hj' : j = t.metaPageId ∨ j ∈ (top : Ctx K h).pages (.single m) := by
      rwa [mem_used, hfree.metaPageId] at hj
    refine ⟨hj'.imp_right fun hj => (hpages j).mpr (.inr hj), ?_⟩
    rintro rfl
    exact hj'.elim (fun he => hc.meta_not_mem (he ▸ (hpages _).mpr (.inl rfl))) hnot
  · intro h0
    obtain ⟨h, rfl⟩ := Nat.exists_eq_succ_of_ne_zero h0
    have : internalMinKeys t.info.config ≤ m.size := hfair.1
    omega
  · simpa only [hfree.info] using hfair.2
  · simp [hfree.info, hheight]
  · simp [whole_frame, leftFlat, rightFlat]
  · simp [hfree.info]
  · simp [hfree.info]
  · exact hfree.metaPageId

theorem Parent.settle (hc : t.Core (.frame i F up) (.single m)) (hp : t.Parent i F up m k b p)
    (hfair : Tree.Fair t.info.config h m.size) (hadm : up.Admits t.info.config F.size) :
    (p.removeChild (F.idx + 1)).Sound ∧
      t.Rebuilt (Ctx.whole (.frame i F up) m.items)
        (t.putInternal (p.removeChild (F.idx + 1))) := by
  obtain ⟨-, hrow, -⟩ := hp.removeChild
  obtain ⟨hsound, T, hT, hitems⟩ := hc.settle (p := p.removeChild (F.idx + 1))
    (by simpa using hfair)
    hp.pageId hp.config hrow hp.spine
    (by rw [fillRow_single, length_keys_fill]; exact hadm) hp.root hp.height
  exact ⟨hsound, _, T, hT, by rw [hitems, flat_single], rfl, rfl, rfl⟩

/-- A merge followed all the way up leaves a tree with the same items. -/
theorem removeFromInternal_spec (hc : t.Core (.frame i F up) (.single m))
    (hp : t.Parent i F up m k b p) (hfair : Tree.Fair t.info.config h m.size) :
    Post (removeFromInternal up.path p (F.idx + 1))
      (fun _ t' => t.Rebuilt (Ctx.whole (.frame i F up) m.items) t') E t := by
  -- Induction on the number of levels above.
  obtain ⟨n, hn⟩ : ∃ n, up.path.length = n := ⟨_, rfl⟩
  induction n generalizing h t i F m b k p with
  | zero =>
    obtain ⟨hle, hrow, hlen⟩ := hp.removeChild
    have hid : (p.removeChild (F.idx + 1)).pageId = i := hp.pageId
    cases up with
    | frame g G up => simp [path] at hn
    | top =>
      rw [path, removeFromInternal, if_pos hle]
      by_cases hsize : F.size = 0
      · have hchild : (p.removeChild (F.idx + 1)).rightChild = m.id := by
          have hc := congrArg children hrow
          obtain rfl := eq_head_nil hsize
          have hent := eq_nil_of_length_eq_zero (hlen.trans hsize)
          rw [InternalNode.row, hent] at hc
          simpa [Hole.leftChildren, Hole.rightChildren, Hole.map] using hc
        simp only [hlen, hsize, hid, hchild]
        exact collapse_spec hc hp hfair hsize
      · have hadm : (top : Ctx K (h + 1)).Admits t.info.config F.size :=
          ⟨fun _ => Nat.pos_of_ne_zero hsize, (Nat.le_succ _).trans hp.admits.2⟩
        obtain ⟨hsound, hdone⟩ := hp.settle hc hfair hadm
        simp only [hlen, hsize, if_false]
        rw [post_saveInternal hc.ok (by rw [hid]; exact frame_mem_used) hsound]
        exact hdone
  | succ n ih =>
    obtain ⟨hle, hrow, hlen⟩ := hp.removeChild
    have hid : (p.removeChild (F.idx + 1)).pageId = i := hp.pageId
    have hcfg : (p.removeChild (F.idx + 1)).config = t.info.config := hp.config
    cases up with
    | top => simp [path] at hn
    | frame g G up =>
      obtain ⟨hmin, hmax⟩ : internalMinKeys t.info.config ≤ F.size + 1 ∧
          F.size + 1 ≤ internalMaxKeys t.info.config := hp.admits
      obtain ⟨hsound, hcore⟩ := hc.writeFrame (by simpa using hfair)
        hid hcfg hrow (by rw [fillRow_single, length_keys_fill]; omega)
      rw [path, removeFromInternal, if_pos hle, post_bind,
        post_saveInternal hc.ok (by rw [hid]; exact frame_mem_used) hsound]
      by_cases hunder : F.size < internalMinKeys t.info.config
      · have hu : (p.removeChild (F.idx + 1)).isUnderfull = true := by
          simpa [InternalNode.isUnderfull, hlen, hcfg] using hunder
        have hspine := hc.spine_putInternal hid hp.spine
        rw [← hid] at hcore hspine
        rw [if_pos hu]
        refine (rebalanceInternal_spec hcore hcfg hrow hspine hp.root hp.height ?_ ?_).imp ?_
        · rw [fillRow_single, length_keys_fill, info_putInternal]
          omega
        · intro t' F' m' b' k' p' hc' hp' hfair'
          exact ih hc' hp' hfair' (by simpa [path] using hn)
        · rintro - t' ⟨h', T, hT, hitems, hm⟩
          refine ⟨h', T, hT, ?_, hm.numEntries, hm.config, hm.metaPageId⟩
          rw [hitems, whole_frame (i := i), flat_fillRow, flat_single]
      · have hu : ¬(p.removeChild (F.idx + 1)).isUnderfull = true := by
          simpa [InternalNode.isUnderfull, hlen, hcfg] using hunder
        rw [if_neg hu]
        exact (hp.settle hc hfair ⟨Nat.le_of_not_lt hunder, (Nat.le_succ _).trans hmax⟩).2

end BTree

end Remove

/-! ### Rebalancing leaves -/

section RebalanceLeaf

variable [Crc32] {t : BTree K} {i : UInt32} {F : Hole K (Tree K 0)} {up : Ctx K 1}
  {left right : LeafNode K} {p : InternalNode K} {k : K} {E : Halt → BTree K → Prop}

namespace BTree

/-- Restructuring `t` has given a tree again, with the entries `es`. -/
def RebuiltEntries (t : BTree K) (es : List (LeafEntry K)) (t' : BTree K) : Prop :=
  ∃ l, t.Rebuilt l t' ∧ entriesOf l = es

theorem Leaves.pairwise {c : Ctx K 0} (hl : t.Leaves c left k right) :
    (left.entries ++ right.entries).Pairwise (fun x y => x.key < y.key) := by
  have := hl.joined.1.sublist
    ((sublist_append_left _ _).trans (sublist_append_right _ _))
  simpa using this.entries

theorem Leaves.balance (hl : t.Leaves (.frame i F up) left k right)
    (hp : t.Parent i F up (.leaf left.pageId left.entries) k
      (.leaf right.pageId right.entries) p) {x y : List (LeafEntry K)}
    {f e : LeafEntry K} (heq : left.entries ++ right.entries = (x ++ [f]) ++ e :: y)
    (hx : Tree.Fair t.info.config 0 (x ++ [f]).length)
    (hy : Tree.Fair t.info.config 0 (e :: y).length) :
    Post (do
        saveLeaf { left with entries := x ++ [f] }
        saveLeaf { right with entries := e :: y }
        saveInternal (p.setKey F.idx e.key))
      (fun _ t' => t.RebuiltEntries (entriesOf
        (Ctx.whole (.frame i F up) ((left.entries ++ right.entries).map .ent))) t') E t := by
  refine hl.moveEntry heq hx.2 hy.2 ?_
  intro t' hcore hinfo hmeta hkeep
  have hp' : t'.Parent i F up (.leaf left.pageId left.entries) k
      (.leaf right.pageId right.entries) p :=
    hp.frame hinfo (fun j hj => .of_eq (hkeep j (by simp [ids, hj]))) rfl rfl
  rw [← hinfo] at hx hy
  refine (hp'.post_setKey hcore rfl rfl hx hy).imp ?_
  rintro - t'' ⟨h', T, hT, hitems, hm⟩
  refine ⟨_, ⟨h', T, hT, rfl, SameMeta.trans ⟨by rw [hinfo], by rw [hinfo], hmeta⟩ hm⟩, ?_⟩
  rw [hitems, heq]
  simp [whole]

theorem redistributeLeafFromLeft_spec (hl : t.Leaves (.frame i F up) left k right)
    (hp : t.Parent i F up (.leaf left.pageId left.entries) k
      (.leaf right.pageId right.entries) p)
    (hX : leafMinEntries t.info.config < left.entries.length)
    (hX' : left.entries.length ≤ leafMaxEntries t.info.config)
    (hmin : 1 ≤ leafMinEntries t.info.config)
    (hY : Tree.Fair t.info.config 0 (right.entries.length + 1)) :
    Post (redistributeLeafFromLeft left right p (F.idx + 1))
      (fun _ t' => t.RebuiltEntries (entriesOf
        (Ctx.whole (.frame i F up) ((left.entries ++ right.entries).map .ent))) t') E t := by
  obtain ⟨x, f, e, y, hxy, hlen⟩ := exists_halves (by omega)
    (show left.entries.length - 1 < left.entries.length by omega)
  obtain rfl : y = [] := by
    have := congrArg length hxy
    simp only [length_append, length_cons] at this hlen
    exact eq_nil_of_length_eq_zero (by omega)
  have hsorted := hl.pairwise
  have hins : right.insertEntry e = { right with entries := e :: right.entries } := by
    refine LeafNode.insertEntry_eq (a := []) (by simp) (by simp) fun z hz => ?_
    exact (pairwise_append.mp hsorted).2.2 e (by simp [hxy]) z hz
  obtain ⟨s, hs, -⟩ := hp.separator
  have hlast : left.entries.getLast? = some e := by simp [hxy]
  have hinit : left.entries.dropLast = x ++ [f] := by rw [hxy]; simp
  simp only [redistributeLeafFromLeft, hlast, hinit, hins, Nat.add_sub_cancel, hs]
  refine hl.balance hp (by rw [hxy]; simp) ?_ ?_
  · exact ⟨show leafMinEntries _ ≤ _ by omega, show _ ≤ leafMaxEntries _ by omega⟩
  · simpa using hY

theorem redistributeLeafFromRight_spec (hl : t.Leaves (.frame i F up) left k right)
    (hp : t.Parent i F up (.leaf left.pageId left.entries) k
      (.leaf right.pageId right.entries) p)
    (hY : leafMinEntries t.info.config < right.entries.length)
    (hY' : right.entries.length ≤ leafMaxEntries t.info.config)
    (hmin : 1 ≤ leafMinEntries t.info.config)
    (hX : Tree.Fair t.info.config 0 (left.entries.length + 1)) :
    Post (redistributeLeafFromRight left right p F.idx)
      (fun _ t' => t.RebuiltEntries (entriesOf
        (Ctx.whole (.frame i F up) ((left.entries ++ right.entries).map .ent))) t') E t := by
  obtain ⟨f, e, y, hxy⟩ : ∃ f e y, right.entries = f :: e :: y := by
    rcases hr : right.entries with _ | ⟨f, _ | ⟨e, y⟩⟩
    · simp [hr] at hY
    · simp [hr] at hY; omega
    · exact ⟨f, e, y, rfl⟩
  have hsorted := hl.pairwise
  have hins : left.insertEntry f = { left with entries := left.entries ++ [f] } := by
    refine LeafNode.insertEntry_eq (by simp) (fun z hz => ?_) (by simp)
    exact (pairwise_append.mp hsorted).2.2 z hz f (by simp [hxy])
  obtain ⟨s, hs, -⟩ := hp.separator
  simp only [redistributeLeafFromRight, hxy, hins, hs]
  rw [← hxy]
  refine hl.balance hp (by rw [hxy]; simp) ?_ ?_
  · simpa using hX
  · rw [hxy, length_cons] at hY hY'
    exact ⟨show leafMinEntries _ ≤ _ by omega, show _ ≤ leafMaxEntries _ by omega⟩

/-- Two small leaves are merged, and the right one is taken out of the
parent. -/
theorem mergeLeaves_spec (hl : t.Leaves (.frame i F up) left k right)
    (hp : t.Parent i F up (.leaf left.pageId left.entries) k
      (.leaf right.pageId right.entries) p)
    (hfair : Tree.Fair t.info.config 0 (left.entries ++ right.entries).length) :
    Post (mergeLeaves left right p (F.idx + 1) up.path)
      (fun _ t' => t.RebuiltEntries (entriesOf
        (Ctx.whole (.frame i F up) ((left.entries ++ right.entries).map .ent))) t') E t := by
  simp only [mergeLeaves, LeafNode.foldl_insertEntry hl.pairwise]
  refine hl.mergeEntries hfair.2 ?_
  intro t' hcore hinfo hmeta hkeep
  have hp' : t'.Parent i F up (.leaf left.pageId (left.entries ++ right.entries)) k
      (.leaf right.pageId right.entries) p :=
    hp.frame hinfo (fun j hj => hkeep j (by simp [ids, hj])) rfl rfl
  rw [← hinfo] at hfair
  refine (removeFromInternal_spec hcore hp' hfair).imp ?_
  rintro - t'' ⟨h', T, hT, hitems, hm⟩
  exact ⟨_, ⟨h', T, hT, hitems, SameMeta.trans ⟨by rw [hinfo], by rw [hinfo], hmeta⟩ hm⟩, rfl⟩

theorem rebalanceLeaf_spec {G : Hole K (Tree K 0)} (leaf : LeafNode K)
    (hc : t.Core (.frame i G up) (.single (.leaf leaf.pageId leaf.entries)))
    (hheap : t.heap leaf.pageId = some (.leaf leaf)) (hcfg : leaf.config = t.info.config)
    (hspine : Ctx.Spine t.info.config t.heap (.frame i G up) leaf.pageId)
    (hroot : t.info.rootPageId = up.rootId i) (hheight : t.info.height = up.height + 1)
    (hsmall : leaf.entries.length + 1 = leafMinEntries t.info.config) :
    Post (rebalanceLeaf leaf ((i, G.idx) :: up.path))
      (fun _ t' => t.RebuiltEntries (entriesOf
        (Ctx.whole (.frame i G up) (leaf.entries.map .ent))) t') E t := by
  have hmin : leafMinEntries t.info.config = leafMaxEntries t.info.config * 40 / 100 := rfl
  simp only [rebalanceLeaf]
  rcases G.neighbour_cases with ⟨F, a, k, rfl⟩ | ⟨F, k, b, rfl, hidx⟩ | rfl
  · -- There is a left neighbour.
    obtain ⟨j, X, rfl⟩ := a.eq_leaf
    obtain ⟨hc', hfair⟩ := hc.widenLeft
    obtain ⟨left, hleft, rfl, hlcfg, rfl, -⟩ :=
      Tree.holds_leaf.mp (hc'.seg.holds (.leaf j X) (by simp))
    have hl : t.Leaves (.frame i F up) left k leaf := ⟨hc', hleft, hheap, hlcfg, hcfg⟩
    obtain ⟨hgrow, hadm, hup⟩ := hspine
    rw [map_pushLeft, fill_pushLeft] at hgrow
    rw [size_pushLeft] at hadm
    obtain ⟨p, hpheap, hp⟩ := parent_of_spine
      (b := .leaf leaf.pageId leaf.entries) hup hgrow hadm hroot hheight
    have hchild : p.getChildAt F.idx = left.pageId := hp.getChildAt.1
    have hitems : entriesOf (whole (.frame i (F.pushLeft (.leaf left.pageId left.entries) k) up)
        (leaf.entries.map .ent))
        = entriesOf (whole (.frame i F up) ((left.entries ++ leaf.entries).map .ent)) := by
      rw [← Tree.items_leaf leaf.pageId leaf.entries, whole_widenLeft]
      simp [whole]
    rw [hitems, post_bind, post_readInternal hc.ok hpheap, post_bind, post_get, idx_pushLeft,
      if_pos (Nat.succ_pos _), Nat.add_sub_cancel, hchild, post_bind, post_readLeaf hc.ok hleft]
    have hle : left.entries.length ≤ leafMaxEntries t.info.config := hfair.2
    have hge : leafMinEntries t.info.config ≤ left.entries.length := hfair.1
    by_cases hbig : left.entries.length > leafMinEntries t.info.config
    · rw [if_pos hbig]
      exact redistributeLeafFromLeft_spec hl hp hbig hle (by omega)
        ⟨show leafMinEntries _ ≤ _ by omega, show _ ≤ leafMaxEntries _ by omega⟩
    · rw [if_neg hbig]
      refine mergeLeaves_spec hl hp ?_
      rw [length_append]
      exact ⟨show leafMinEntries _ ≤ _ by omega, show _ ≤ leafMaxEntries _ by omega⟩
  · -- There is a right neighbour only.
    obtain ⟨j, Y, rfl⟩ := b.eq_leaf
    obtain ⟨hc', hfair⟩ := hc.widenRight
    obtain ⟨right, hright, rfl, hrcfg, rfl, -⟩ :=
      Tree.holds_leaf.mp (hc'.seg.holds (.leaf j Y) (by simp))
    have hl : t.Leaves (.frame i F up) leaf k right := ⟨hc', hheap, hright, hcfg, hrcfg⟩
    obtain ⟨hgrow, hadm, hup⟩ := hspine
    rw [map_pushRight] at hgrow
    rw [size_pushRight] at hadm
    obtain ⟨p, hpheap, hp⟩ := parent_of_spine (a := .leaf leaf.pageId leaf.entries)
      hup hgrow hadm hroot hheight
    have hlen := hp.length_entries
    have hchild : p.getChildAt (F.idx + 1) = right.pageId := hp.getChildAt.2
    have hitems : entriesOf (whole
        (.frame i (F.pushRight k (.leaf right.pageId right.entries)) up) (leaf.entries.map .ent))
        = entriesOf (whole (.frame i F up) ((leaf.entries ++ right.entries).map .ent)) := by
      rw [← Tree.items_leaf leaf.pageId leaf.entries, whole_widenRight]
      simp [whole]
    rw [hitems, post_bind, post_readInternal hc.ok hpheap, post_bind, post_get, idx_pushRight,
      if_neg (by omega), if_pos (by omega), hchild, post_bind, post_readLeaf hc.ok hright]
    have hle : right.entries.length ≤ leafMaxEntries t.info.config := hfair.2
    have hge : leafMinEntries t.info.config ≤ right.entries.length := hfair.1
    by_cases hbig : right.entries.length > leafMinEntries t.info.config
    · rw [if_pos hbig]
      exact redistributeLeafFromRight_spec hl hp hbig hle (by omega)
        ⟨show leafMinEntries _ ≤ _ by omega, show _ ≤ leafMaxEntries _ by omega⟩
    · rw [if_neg hbig]
      refine mergeLeaves_spec hl hp ?_
      rw [length_append]
      exact ⟨show leafMinEntries _ ≤ _ by omega, show _ ≤ leafMaxEntries _ by omega⟩
  · exact absurd rfl (size_ne_zero_of_spine hc.valid hspine)

variable {es : List (LeafEntry K)}

/-- **Deletion** takes an entry out; a key that is not there is refused and
nothing changes. -/
theorem InvAt.delete {m : UInt32} (hi : t.InvAt m es) (key : K) :
    Post (BTree.delete key)
      (fun _ t' => ∃ a e b, es = a ++ e :: b ∧ e.key = key ∧ t'.InvAt m (a ++ b) ∧
        t'.info.config = t.info.config)
      (fun e t' => e = .err (keyNotFoundError key) ∧ t' = t ∧ lookup es key = none) t := by
  obtain ⟨h, T, hT, rfl⟩ := hi.repr
  rw [BTree.delete, post_bind]
  refine (findLeafWithPath_spec (hT.at key) hT.root).imp ?_
  rintro ⟨leaf, path⟩ t₁ ⟨ht, c, hpath, hr⟩
  obtain rfl : path = c.path := hpath
  change t.Reaches key .top T c leaf at hr
  rw [ht]
  have hleft := entriesOf_below hr.at_leaf.around.left
  have hright := entriesOf_above hr.at_leaf.around.right
  rcases sorted_split key hr.sorted with ⟨a, e, b, hab, rfl, ha, -⟩ | ⟨a, b, hab, ha, hb⟩
  · have hall : entriesOf T.items
        = (entriesOf c.leftItems ++ a) ++ e :: (b ++ entriesOf c.rightItems) := by
      simp [hr.entries, hab]
    have hnew : entriesOf (c.whole ((a ++ b).map .ent))
        = (entriesOf c.leftItems ++ a) ++ (b ++ entriesOf c.rightItems) := by
      simp [whole]
    have hcount : t.info.numEntries - 1 = (entriesOf (c.whole ((a ++ b).map .ent))).length := by
      rw [hi.numEntries, hall, hnew]
      simp only [length_append, length_cons]
      omega
    have hdone : ∀ t' : BTree K, t'.InvAt m (entriesOf (c.whole ((a ++ b).map .ent))) →
        t'.info.config = t.info.config → ∃ a' e' b', entriesOf T.items = a' ++ e' :: b' ∧
          e'.key = e.key ∧ t'.InvAt m (a' ++ b') ∧ t'.info.config = t.info.config :=
      fun t' hi' hcfg => ⟨_, _, _, hall, rfl, hnew ▸ hi', hcfg⟩
    have hlen : (a ++ b).length + 1 = leaf.entries.length := by
      simp only [hab, length_append, length_cons]
      omega
    have hmax : leaf.entries.length ≤ leafMaxEntries t.info.config := hr.at_leaf.admits.le
    have hcore := hr.at_leaf.core
    have hsub : (c.whole ((a ++ b).map .ent)).Sublist (c.whole (leaf.entries.map .ent)) := by
      rw [hab]
      refine (List.Sublist.refl _).append (List.Sublist.append ?_ (List.Sublist.refl _))
      exact ((List.Sublist.refl _).append (sublist_cons_self _ _)).map _
    have hsorted := hcore.seg.sorted
    have hfits := hcore.seg.fits
    rw [flat_single] at hsorted hfits
    obtain ⟨hsound, hc', hkeep⟩ := hcore.setEntries hr.heap hr.config (by omega)
      (hsorted.sublist hsub) fun x hx => hfits x (hsub.subset hx)
    have hmem : leaf.pageId ∈ t.used (c.pages (.single (.leaf leaf.pageId leaf.entries))) :=
      .inr (mem_append_right _ (by simp))
    have hheap := heap_putLeaf_self (n := { leaf with entries := a ++ b }) hcore.ok hmem hsound
    have hnot : leaf.pageId ∉ c.ids := by
      have hn := hcore.seg.nodup
      rw [pages, nodup_append] at hn
      exact fun hi => hn.2.2 _ hi leaf.pageId (by simp) rfl
    have hspine : c.Spine t.info.config (t.putLeaf { leaf with entries := a ++ b }).heap
        leaf.pageId :=
      hr.at_leaf.spine.frame fun j hj => .of_eq (hkeep j fun he => hnot (he ▸ hj))
    obtain ⟨hroot, hheight⟩ := hT.reaches hr
    simp only [LeafNode.removeEntry_found hab ha]
    rw [post_bind, post_saveLeaf (n := { leaf with entries := a ++ b }) hcore.ok hmem hsound,
      post_bind, setNumEntries, post_modify]
    have hc2 := hc'.count (t.info.numEntries - 1)
    have hunder : LeafNode.isUnderfull { leaf with entries := a ++ b }
        = decide ((a ++ b).length < leafMinEntries t.info.config) := by
      rw [LeafNode.isUnderfull, hr.config]
    by_cases hsmall : c.path.isEmpty || !LeafNode.isUnderfull { leaf with entries := a ++ b }
    · -- Nothing is left to do above the leaf.
      rw [if_pos hsmall]
      have hadm : c.Admits t.info.config (a ++ b).length := by
        cases c with
        | top => exact ⟨fun h => absurd rfl h, show _ ≤ leafMaxEntries _ by omega⟩
        | frame g G up =>
          refine ⟨show leafMinEntries _ ≤ _ from ?_, show _ ≤ leafMaxEntries _ by omega⟩
          simpa [path, hunder] using hsmall
      obtain ⟨T', hT', hitems⟩ := hc2.toTop hspine hadm hroot hheight
      refine (hT'.flush hcount (by rw [hitems]; rfl) hi.metaPageId).imp ?_
      rintro - t' ⟨hi', hcfg⟩
      exact hdone t' hi' hcfg
    · rw [if_neg hsmall]
      cases c with
      | top => simp [path] at hsmall
      | frame g G up =>
        have hfair : leafMinEntries t.info.config ≤ leaf.entries.length := hr.at_leaf.admits.1
        have hlt : (a ++ b).length < leafMinEntries t.info.config := by
          simpa [path, hunder] using hsmall
        rw [post_bind]
        refine (rebalanceLeaf_spec { leaf with entries := a ++ b } hc2 hheap hr.config hspine hroot
          hheight (show (a ++ b).length + 1 = leafMinEntries t.info.config by omega)).imp ?_
        rintro - t' ⟨l, ⟨h', T', hT', hitems, hm⟩, hl⟩
        refine (hT'.flush (hm.numEntries.trans hcount) (by rw [hitems, hl])
          (hm.metaPageId.trans hi.metaPageId)).imp ?_
        rintro - t'' ⟨hi', hcfg⟩
        exact hdone t'' hi' (hcfg.trans hm.config)
  · have hall : entriesOf T.items
        = (entriesOf c.leftItems ++ a) ++ (b ++ entriesOf c.rightItems) := by
      simp [hr.entries, hab]
    simp only [LeafNode.removeEntry_missing hab ha hb, post_fail, true_and]
    rw [hall, lookup_missing]
    · exact fun x hx => (mem_append.mp hx).elim (hleft x) (ha x)
    · exact fun x hx => (mem_append.mp hx).elim (hb x) (hright x)

theorem delete_spec (hi : t.Inv es) (key : K) :
    Post (delete key)
      (fun _ t' => ∃ a e b, es = a ++ e :: b ∧ e.key = key ∧ t'.Inv (a ++ b) ∧
        t'.info.config = t.info.config)
      (fun e t' => e = .err (keyNotFoundError key) ∧ t' = t ∧ lookup es key = none) t := by
  simp only [inv_iff]
  exact (inv_iff.mp hi).delete key

end BTree

end RebalanceLeaf

end Delete

end GrumpyDB
