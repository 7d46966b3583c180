/-
Trees with a hole, and what holds around it.

`Seg cfg N c r` is the invariant of the whole tree, seen from a hole that contains the row `r`. It
does not say what is on the pages of the context itself; that is `Ctx.Spine`, kept apart because
these pages are out of date while a split or a merge is on its way up.
-/
import GrumpyDB.Tree

namespace GrumpyDB

open BTreeKey List Hole Row Tree

/-! ### The chain of leaves -/

theorem ne_headD {α : Type} {l : List α} {x d : α} (hx : x ∉ l) (hd : x ≠ d) : x ≠ l.headD d := by
  cases l with
  | nil => exact hd
  | cons y l => exact fun he => hx (he ▸ mem_cons_self)

section Linked

variable {K : Type} [LinearOrder K] [BTreeKey K] {N N' : Heap K} {p q : UInt32}

/-- The leaves `ls` are linked from left to right, after the leaf `p` and
before the leaf `q`. -/
def Linked (N : Heap K) : UInt32 → List UInt32 → UInt32 → Prop
  | _, [], _ => True
  | p, i :: ls, q => HasLinks N i p (ls.headD q) ∧ Linked N i ls q

theorem linked_append {a b : List UInt32} :
    Linked N p (a ++ b) q ↔ Linked N p a (b.headD q) ∧ Linked N (a.getLastD p) b q := by
  induction a generalizing p with
  | nil => simp [Linked]
  | cons i a ih =>
    rcases a with _ | ⟨j, a⟩
    · simp [Linked]
    · have := ih (p := i)
      simp only [cons_append, Linked, headD_cons, getLastD_cons] at this ⊢
      simp only [this, and_assoc]

/-- The links of page `i` are the same in both heaps. -/
def KeepsLinks (N N' : Heap K) (i : UInt32) : Prop :=
  ∀ p q, HasLinks N i p q → HasLinks N' i p q

theorem KeepsLinks.of_eq {i : UInt32} (h : N' i = N i) : KeepsLinks N N' i :=
  fun _ _ => HasLinks.of_eq h

theorem KeepsLinks.of_node {i : UInt32} {n n' : LeafNode K} (h : N i = some (.leaf n))
    (h' : N' i = some (.leaf n')) (hp : n'.prevLeaf = n.prevLeaf) (hq : n'.nextLeaf = n.nextLeaf) :
    KeepsLinks N N' i := by
  rintro p q ⟨m, hm, rfl, rfl⟩
  rw [h, Option.some.injEq, NodeRef.leaf.injEq] at hm
  exact ⟨n', h', by rw [hp, hm], by rw [hq, hm]⟩

variable {ls : List UInt32}

theorem Linked.frame (h : Linked N p ls q) (hN : ∀ i ∈ ls, KeepsLinks N N' i) :
    Linked N' p ls q := by
  induction ls generalizing p with
  | nil => trivial
  | cons i ls ih =>
    exact ⟨hN i (by simp) _ _ h.1, ih h.2 fun j hj => hN j (by simp [hj])⟩

theorem Linked.relink {p' : UInt32} (h : Linked N p ls q)
    (hhead : ∀ i ∈ ls.head?, ∀ n, HasLinks N i p n → HasLinks N' i p' n)
    (htail : ∀ i ∈ ls.tail, KeepsLinks N N' i) : Linked N' p' ls q := by
  cases ls with
  | nil => trivial
  | cons i ls => exact ⟨hhead i (by simp) _ h.1, h.2.frame fun j hj => htail j hj⟩

end Linked

/-! ### Contexts -/

/-- A tree with a subtree of height `h` missing. -/
inductive Ctx (K : Type) : Nat → Type where
  | top {h : Nat} : Ctx K h
  /-- The missing subtree is a child of the node on page `id`. -/
  | frame {h : Nat} (id : UInt32) (hole : Hole K (Tree K h)) (up : Ctx K (h + 1)) : Ctx K h

namespace Ctx

variable {K : Type}

def leftItems : {h : Nat} → Ctx K h → List (Item K)
  | _, top => []
  | _, frame _ F up => up.leftItems ++ F.leftFlat Tree.items .sep

def rightItems : {h : Nat} → Ctx K h → List (Item K)
  | _, top => []
  | _, frame _ F up => F.rightFlat Tree.items .sep ++ up.rightItems

def leftLeaves : {h : Nat} → Ctx K h → List UInt32
  | _, top => []
  | _, frame _ F up => up.leftLeaves ++ F.leftChildren.flatMap Tree.leaves

def rightLeaves : {h : Nat} → Ctx K h → List UInt32
  | _, top => []
  | _, frame _ F up => F.rightChildren.flatMap Tree.leaves ++ up.rightLeaves

def ids : {h : Nat} → Ctx K h → List UInt32
  | _, top => []
  | _, frame i F up =>
    i :: (F.leftChildren.flatMap Tree.ids ++ (F.rightChildren.flatMap Tree.ids ++ up.ids))

def sibIds : {h : Nat} → Ctx K h → List UInt32
  | _, top => []
  | _, frame _ F up =>
    F.leftChildren.flatMap Tree.ids ++ (F.rightChildren.flatMap Tree.ids ++ up.sibIds)

/-- The way from the root, innermost first, as a descent records it. -/
def path : {h : Nat} → Ctx K h → DescentPath
  | _, top => []
  | _, frame i F up => (i, F.idx) :: up.path

/-- The page of the root when the missing subtree is on page `child`. -/
def rootId : {h : Nat} → Ctx K h → UInt32 → UInt32
  | _, top, child => child
  | _, frame i _ up, _ => up.rootId i

def height : {h : Nat} → Ctx K h → Nat
  | h, top => h
  | _, frame _ _ up => up.height

/-- The items of the whole tree when those in the hole are `mid`. -/
def whole {h : Nat} (c : Ctx K h) (mid : List (Item K)) : List (Item K) :=
  c.leftItems ++ (mid ++ c.rightItems)

/-- The leaves of the whole tree when those in the hole are `mid`. -/
def chain {h : Nat} (c : Ctx K h) (mid : List UInt32) : List UInt32 :=
  c.leftLeaves ++ (mid ++ c.rightLeaves)

variable {h : Nat} {c : Ctx K h} {up : Ctx K (h + 1)} {F : Hole K (Tree K h)} {i : UInt32}

@[simp] theorem whole_top (mid : List (Item K)) : (top : Ctx K h).whole mid = mid := by
  simp [whole, leftItems, rightItems]

@[simp] theorem chain_top (mid : List UInt32) : (top : Ctx K h).chain mid = mid := by
  simp [chain, leftLeaves, rightLeaves]

theorem whole_frame (mid : List (Item K)) : (frame i F up).whole mid
    = up.whole (F.leftFlat Tree.items .sep ++ (mid ++ F.rightFlat Tree.items .sep)) := by
  simp [whole, leftItems, rightItems]

theorem chain_frame (mid : List UInt32) : (frame i F up).chain mid
    = up.chain (F.leftChildren.flatMap Tree.leaves ++
        (mid ++ F.rightChildren.flatMap Tree.leaves)) := by
  simp [chain, leftLeaves, rightLeaves]

theorem sibIds_subset_ids (c : Ctx K h) : c.sibIds ⊆ c.ids := by
  induction c with
  | top => simp [sibIds]
  | frame i F up ih =>
    intro x hx
    simp only [sibIds, ids, mem_append, mem_cons] at hx ⊢
    rcases hx with hx | hx | hx
    · exact .inr (.inl hx)
    · exact .inr (.inr (.inl hx))
    · exact .inr (.inr (.inr (ih hx)))

theorem flatMap_leaves_sublist (l : List (Tree K h)) :
    (l.flatMap Tree.leaves).Sublist (l.flatMap Tree.ids) :=
  Sublist.flatMap_right _ fun t _ => t.leaves_sublist_ids

theorem count_leaves_le (c : Ctx K h) (x : UInt32) :
    (c.leftLeaves ++ c.rightLeaves).count x ≤ c.ids.count x := by
  induction c with
  | top => simp [leftLeaves, rightLeaves]
  | frame i F up ih =>
    have h1 := (flatMap_leaves_sublist F.leftChildren).count_le x
    have h2 := (flatMap_leaves_sublist F.rightChildren).count_le x
    simp only [leftLeaves, rightLeaves, ids, count_append, count_cons] at ih ⊢
    omega

theorem leaves_subset_sibIds (c : Ctx K h) : ∀ x ∈ c.leftLeaves ++ c.rightLeaves, x ∈ c.sibIds := by
  induction c with
  | top => simp [leftLeaves, rightLeaves]
  | frame i F up ih =>
    intro x hx
    simp only [leftLeaves, rightLeaves, sibIds, mem_append] at ih hx ⊢
    rcases hx with (hx | hx) | (hx | hx)
    · exact .inr (.inr (ih x (.inl hx)))
    · exact .inl ((flatMap_leaves_sublist _).subset hx)
    · exact .inr (.inl ((flatMap_leaves_sublist _).subset hx))
    · exact .inr (.inr (ih x (.inr hx)))

section Holds

variable [LinearOrder K] [BTreeKey K] (cfg : Config K) (N : Heap K)

def Sibs : {h : Nat} → Ctx K h → Prop
  | _, top => True
  | _, frame _ F up => (∀ s ∈ F.leftChildren ++ F.rightChildren, s.Holds cfg N) ∧ up.Sibs

/-- The size is one a node in the hole may have. -/
def Admits : {h : Nat} → Ctx K h → Nat → Prop
  | h, top, n => Tree.RootFair cfg h n
  | h, frame _ _ _, n => Tree.Fair cfg h n

/-- The pages of the context hold what they should when the missing subtree is
on page `child`. -/
def Spine : {h : Nat} → Ctx K h → UInt32 → Prop
  | _, top, _ => True
  | _, frame i F up, child =>
    HasRow cfg N i ((F.map Tree.id).fill child) ∧ up.Admits cfg F.size ∧ up.Spine i

/-- All siblings have sizes they may have. -/
def Occ : {h : Nat} → Ctx K h → Prop
  | _, top => True
  | h, frame _ F up =>
    (∀ s ∈ F.leftChildren ++ F.rightChildren, Tree.Fair cfg h s.size ∧ s.Occ cfg) ∧ up.Occ

variable {cfg N} {N' : Heap K}

theorem Admits.le {n : Nat} (ha : c.Admits cfg n) : n ≤ Tree.maxSize cfg h := by
  cases c with
  | top => exact ha.2
  | frame i F up => exact ha.2

theorem Admits.mono {n m : Nat} (ha : c.Admits cfg n) (hn : n ≤ m) (hm : m ≤ Tree.maxSize cfg h) :
    c.Admits cfg m := by
  cases c with
  | top => exact ⟨fun h0 => (ha.1 h0).trans hn, hm⟩
  | frame i F up => exact ⟨ha.1.trans hn, hm⟩

theorem Sibs.frame (hs : c.Sibs cfg N) (hk : ∀ i ∈ c.sibIds, Keeps cfg N N' i) :
    c.Sibs cfg N' := by
  induction c with
  | top => trivial
  | frame i F up ih =>
    refine ⟨fun s hs' => (hs.1 s hs').frame fun j hj => hk j ?_, ih hs.2 fun j hj => hk j ?_⟩
    · simp only [sibIds, mem_append, mem_flatMap]
      rcases mem_append.mp hs' with hl | hr
      · exact .inl ⟨s, hl, hj⟩
      · exact .inr (.inl ⟨s, hr, hj⟩)
    · simp only [sibIds, mem_append]
      exact .inr (.inr hj)

theorem Spine.frame {child : UInt32} (hs : c.Spine cfg N child)
    (hk : ∀ i ∈ c.ids, Keeps cfg N N' i) : c.Spine cfg N' child := by
  induction c generalizing child with
  | top => trivial
  | frame i F up ih =>
    refine ⟨(hk i (by simp [ids])).2 _ hs.1, hs.2.1, ih hs.2.2 fun j hj => hk j ?_⟩
    simp only [ids, mem_cons, mem_append]
    exact .inr (.inr (.inr hj))

theorem Sibs.hasLeaf (hs : c.Sibs cfg N) {j : UInt32} (hj : j ∈ c.leftLeaves ++ c.rightLeaves) :
    ∃ es, HasLeaf cfg N j es := by
  induction c with
  | top => simp [leftLeaves, rightLeaves] at hj
  | frame i F up ih =>
    simp only [leftLeaves, rightLeaves, mem_append, mem_flatMap] at hj ih
    rcases hj with (hj | ⟨t, ht, hj⟩) | (⟨t, ht, hj⟩ | hj)
    · exact ih hs.2 (.inl hj)
    · exact (hs.1 t (mem_append_left _ ht)).hasLeaf hj
    · exact (hs.1 t (mem_append_right _ ht)).hasLeaf hj
    · exact ih hs.2 (.inr hj)

theorem linked_chain_one : Linked N 0 (c.chain [i]) 0 ↔
    Linked N 0 c.leftLeaves i ∧ HasLinks N i (c.leftLeaves.getLastD 0) (c.rightLeaves.headD 0) ∧
      Linked N i c.rightLeaves 0 := by
  simp [chain, linked_append, Linked]

theorem linked_chain_two {j : UInt32} : Linked N 0 (c.chain [i, j]) 0 ↔
    Linked N 0 c.leftLeaves i ∧ HasLinks N i (c.leftLeaves.getLastD 0) j ∧
      HasLinks N j i (c.rightLeaves.headD 0) ∧ Linked N j c.rightLeaves 0 := by
  simp [chain, linked_append, Linked]

end Holds

end Ctx

/-! ### Keys around a hole -/

section Around

variable {K : Type} [LinearOrder K] {h : Nat} {key : K}

/-- What is left of the hole is below the key, what is right of it above. -/
structure Ctx.Around (key : K) (c : Ctx K h) : Prop where
  left : ∀ x ∈ c.leftItems, Item.Below key x
  right : ∀ x ∈ c.rightItems, Item.Above key x

theorem Ctx.around_top (key : K) : (Ctx.top : Ctx K h).Around key :=
  ⟨by simp [Ctx.leftItems], by simp [Ctx.rightItems]⟩

variable {F : Hole K (Tree K h)}

theorem Hole.leftFlat_below (hs : Sorted (F.leftFlat Tree.items .sep))
    (hk : ∀ k ∈ F.leftKeys, k ≤ key) : ∀ x ∈ F.leftFlat Tree.items .sep, Item.Below key x := by
  rcases F with right | ⟨first, left, k, right⟩
  · simp [leftFlat]
  · have hle : k ≤ key := hk k (by simp [leftKeys])
    intro x hx
    rcases mem_append.mp hx with hx | hx
    · exact ((pairwise_append.mp hs).2.2 x hx (.sep k) (by simp)).below hle
    · rw [mem_singleton.mp hx]
      exact hle

theorem Hole.rightFlat_above (hs : Sorted (F.rightFlat Tree.items .sep))
    (hk : ∀ k ∈ F.rightKeys.head?, key < k) :
    ∀ x ∈ F.rightFlat Tree.items .sep, Item.Above key x := by
  have hlist : ∀ right : List (K × Tree K h),
      Sorted (right.flatMap fun p => Item.sep p.1 :: p.2.items) →
      (∀ k ∈ (right.map Prod.fst).head?, key < k) →
      ∀ x ∈ right.flatMap fun p => Item.sep p.1 :: p.2.items, Item.Above key x := by
    intro right hs hk x hx
    rcases right with _ | ⟨⟨k, t⟩, right⟩
    · simp at hx
    · have hlt : key < k := hk k (by simp)
      rcases mem_cons.mp hx with rfl | hx
      · exact hlt
      · exact ((pairwise_cons.mp hs).1 x hx).above hlt
  rcases F with right | ⟨first, left, k, right⟩
  · exact hlist right hs hk
  · exact hlist right hs hk

end Around

/-! ### Pages around a hole -/

section Pages

variable {K : Type} {h : Nat} {up : Ctx K (h + 1)} {F : Hole K (Tree K h)} {i j : UInt32}
  {r a b : Row K (Tree K h)} {k : K}

def Ctx.pages {h : Nat} (c : Ctx K h) (r : Row K (Tree K h)) : List UInt32 :=
  c.ids ++ r.children.flatMap Tree.ids

theorem Ctx.pages_pair_leaf {c : Ctx K 0} {es es' l : List (LeafEntry K)} :
    (c.pages (.pair (.leaf i es) k (.leaf j es'))).Perm (j :: c.pages (.single (.leaf i l))) := by
  rw [perm_iff_count]
  simp [Ctx.pages, count_cons]
  omega

theorem Ctx.pages_fold : (up.pages (.single (.node i (F.fillRow r)))).Perm
    (Ctx.pages (.frame i F up) r) := by
  rw [perm_iff_count]
  simp [Ctx.pages, Ctx.ids, count_cons]
  omega

theorem Ctx.pages_foldSplit (hjoin : F.fillRow r = a.join k b) :
    (up.pages (.pair (.node i a) k (.node j b))).Perm (j :: Ctx.pages (.frame i F up) r) := by
  have hchildren : a.children ++ b.children = F.leftChildren ++
    (r.children ++ F.rightChildren) := by
    rw [← children_join a k b, ← hjoin, children_fillRow]
  rw [perm_iff_count]
  intro x
  have := congrArg (fun l => count x (l.flatMap Tree.ids)) hchildren
  simp [Ctx.ids, Ctx.pages, count_cons] at this ⊢
  omega

end Pages

/-! ### The invariant around a hole -/

section Seg

variable {K : Type} [LinearOrder K] [BTreeKey K]

theorem Ctx.whole_insertSep {c : Ctx K 0} {cfg : Config K} {x y : List (LeafEntry K)}
    {f e : LeafEntry K}
    (hsorted : Sorted (c.whole (((x ++ [f]) ++ e :: y).map .ent)))
    (hfits : ∀ z ∈ c.whole (((x ++ [f]) ++ e :: y).map .ent), Fits cfg z.key) :
    Sorted (c.whole ((x ++ [f]).map .ent ++ .sep e.key :: (e :: y).map .ent)) ∧
      ∀ z ∈ c.whole ((x ++ [f]).map .ent ++ .sep e.key :: (e :: y).map .ent), Fits cfg z.key := by
  constructor
  · have := Sorted.insertSep (a := c.leftItems ++ x.map .ent)
      (by simpa [Ctx.whole] using hsorted)
    simpa [Ctx.whole] using this
  · intro z hz
    by_cases hze : z = .sep e.key
    · rw [hze]
      exact hfits (.ent e) (by simp [Ctx.whole])
    · refine hfits z ?_
      simp only [Ctx.whole, map_append, mem_append, mem_cons, hze, false_or] at hz ⊢
      exact hz

/-- What holds of a context whose hole contains the row `r`. -/
structure Seg {h : Nat} (cfg : Config K) (N : Heap K) (c : Ctx K h) (r : Row K (Tree K h)) :
    Prop where
  holds : ∀ t ∈ r.children, t.Holds cfg N
  sibs : c.Sibs cfg N
  nodup : (c.pages r).Nodup
  linked : Linked N 0 (c.chain (r.children.flatMap Tree.leaves)) 0
  sorted : Sorted (c.whole (r.flat Tree.items .sep))
  fits : ∀ x ∈ c.whole (r.flat Tree.items .sep), Fits cfg x.key
  occ : ∀ t ∈ r.children, t.Occ cfg
  ctxOcc : c.Occ cfg

variable {cfg : Config K} {N : Heap K} {h : Nat} {c : Ctx K h} {up : Ctx K (h + 1)}
  {F : Hole K (Tree K h)} {i : UInt32} {t : Tree K h} {r : Row K (Tree K h)}

theorem Seg.frame_not_mem (hs : Seg cfg N (.frame i F up) r) :
    i ∉ Ctx.sibIds (.frame i F up) ++ r.children.flatMap Tree.ids := by
  have hn := hs.nodup
  rw [Ctx.pages, Ctx.ids, cons_append, nodup_cons] at hn
  intro hi
  refine hn.1 ?_
  simp only [Ctx.sibIds, mem_append] at hi ⊢
  have := @Ctx.sibIds_subset_ids _ _ up i
  tauto

theorem Seg.congr {M : Heap K} (hs : Seg cfg N c r)
    (hN : ∀ j ∈ c.sibIds ++ r.children.flatMap Tree.ids, M j = N j) : Seg cfg M c r := by
  have hmem : ∀ j ∈ c.chain (r.children.flatMap leaves),
      j ∈ c.sibIds ++ r.children.flatMap ids := by
    intro j hj
    simp only [Ctx.chain, mem_append] at hj ⊢
    rcases hj with hj | hj | hj
    · exact .inl (c.leaves_subset_sibIds j (mem_append_left _ hj))
    · exact .inr ((Ctx.flatMap_leaves_sublist _).subset hj)
    · exact .inl (c.leaves_subset_sibIds j (mem_append_right _ hj))
  refine { hs with holds := ?_, sibs := ?_, linked := ?_ }
  · intro t ht
    refine (hs.holds t ht).frame fun j hj => .of_eq (hN j ?_)
    exact mem_append_right _ (mem_flatMap.mpr ⟨t, ht, hj⟩)
  · exact hs.sibs.frame fun j hj => .of_eq (hN j (mem_append_left _ hj))
  · exact hs.linked.frame fun j hj => .of_eq (hN j (hmem j hj))

theorem Seg.unfold (hs : Seg cfg N up (.single (.node i (F.fill t)))) :
    Seg cfg N (.frame i F up) (.single t) ∧ HasRow cfg N i ((F.map Tree.id).fill t.id) ∧
      Tree.Fair cfg h t.size := by
  have hnode := hs.holds (.node i (F.fill t)) (by simp)
  have hocc := hs.occ (.node i (F.fill t)) (by simp)
  rw [holds_node, children_fill, map_fill] at hnode
  rw [occ_node, children_fill] at hocc
  have hmem : ∀ s ∈ F.leftChildren ++ F.rightChildren, s ∈ F.leftChildren ++ t :: F.rightChildren :=
    fun s hs => by
      simp only [mem_append] at hs ⊢
      tauto
  refine ⟨⟨?_, ⟨fun s hs => hnode.2 s (hmem s hs), hs.sibs⟩, ?_, ?_, ?_, ?_, ?_,
    fun s hs => hocc s (hmem s hs), hs.ctxOcc⟩, hnode.1, (hocc t (by simp)).1⟩
  · intro s hs
    rw [mem_singleton.mp hs]
    exact hnode.2 t (by simp)
  · rw [← fillRow_single] at hs
    exact Ctx.pages_fold.nodup hs.nodup
  · simpa [Ctx.chain_frame] using hs.linked
  · simpa [Ctx.whole_frame] using hs.sorted
  · simpa [Ctx.whole_frame] using hs.fits
  · intro s hs
    rw [mem_singleton.mp hs]
    exact (hocc t (by simp)).2

theorem Seg.fold (hs : Seg cfg N (.frame i F up) r)
    (hfair : ∀ t ∈ r.children, Tree.Fair cfg h t.size)
    (hrow : HasRow cfg N i ((F.fillRow r).map Tree.id)) :
    Seg cfg N up (.single (.node i (F.fillRow r))) := by
  have hmem : ∀ s ∈ (F.fillRow r).children,
      s ∈ r.children ∨ s ∈ F.leftChildren ++ F.rightChildren := fun s hs => by
    simp only [children_fillRow, mem_append] at hs ⊢
    tauto
  refine ⟨?_, hs.sibs.2, ?_, ?_, ?_, ?_, ?_, hs.ctxOcc.2⟩
  · intro s hs'
    rw [mem_singleton.mp hs']
    exact ⟨hrow, fun s hs' => (hmem s hs').elim (hs.holds s) (hs.sibs.1 s)⟩
  · exact Ctx.pages_fold.symm.nodup hs.nodup
  · simpa [Ctx.chain_frame] using hs.linked
  · simpa [Ctx.whole_frame] using hs.sorted
  · simpa [Ctx.whole_frame] using hs.fits
  · intro s hs'
    rw [mem_singleton.mp hs']
    exact fun s hs' => (hmem s hs').elim (fun hr => ⟨hfair s hr, hs.occ s hr⟩) (hs.ctxOcc.1 s)

theorem Seg.foldSplit {j : UInt32} {a b : Row K (Tree K h)} {k : K}
    (hs : Seg cfg N (.frame i F up) r) (hfair : ∀ t ∈ r.children, Tree.Fair cfg h t.size)
    (hjoin : F.fillRow r = a.join k b) (hi : HasRow cfg N i (a.map Tree.id))
    (hj : HasRow cfg N j (b.map Tree.id)) (hfresh : j ∉ Ctx.pages (.frame i F up) r) :
    Seg cfg N up (.pair (.node i a) k (.node j b)) := by
  have hchildren : a.children ++ b.children = F.leftChildren ++
    (r.children ++ F.rightChildren) := by
    rw [← children_join a k b, ← hjoin, children_fillRow]
  have hflat := congrArg (flat items Item.sep) hjoin
  rw [flat_fillRow] at hflat
  have hmem : ∀ s ∈ a.children ++ b.children,
      s ∈ r.children ∨ s ∈ F.leftChildren ++ F.rightChildren := fun s hs => by
    rw [hchildren] at hs
    simp only [mem_append] at hs ⊢
    tauto
  have hholds : ∀ s ∈ a.children ++ b.children, s.Holds cfg N := fun s hs' =>
    (hmem s hs').elim (hs.holds s) (hs.sibs.1 s)
  have hocc : ∀ s ∈ a.children ++ b.children, Tree.Fair cfg h s.size ∧ s.Occ cfg := fun s hs' =>
    (hmem s hs').elim (fun hr => ⟨hfair s hr, hs.occ s hr⟩) (hs.ctxOcc.1 s)
  refine ⟨?_, hs.sibs.2, ?_, ?_, ?_, ?_, ?_, hs.ctxOcc.2⟩
  · simp only [children_pair, mem_cons, not_mem_nil, or_false, forall_eq_or_imp,
      forall_eq]
    exact ⟨⟨hi, fun s hs' => hholds s (mem_append_left _ hs')⟩,
      ⟨hj, fun s hs' => hholds s (mem_append_right _ hs')⟩⟩
  · exact (Ctx.pages_foldSplit hjoin).symm.nodup (nodup_cons.mpr ⟨hfresh, hs.nodup⟩)
  · have := hs.linked
    rw [Ctx.chain_frame, ← flatMap_append, ← flatMap_append, ← hchildren] at this
    simpa using this
  · have := hs.sorted
    rw [Ctx.whole_frame, hflat] at this
    simpa using this
  · have := hs.fits
    rw [Ctx.whole_frame, hflat] at this
    simpa using this
  · simp only [children_pair, mem_cons, not_mem_nil, or_false, forall_eq_or_imp,
      forall_eq]
    exact ⟨fun s hs' => hocc s (mem_append_left _ hs'),
      fun s hs' => hocc s (mem_append_right _ hs')⟩

theorem Seg.toTop (hs : Seg cfg N c (.single t)) (hspine : c.Spine cfg N t.id)
    (hadm : c.Admits cfg t.size) :
    ∃ T : Tree K c.height, Seg cfg N .top (.single T) ∧ Tree.RootFair cfg c.height T.size ∧
      T.items = c.whole t.items ∧ T.id = c.rootId t.id ∧ T.ids.Perm (c.ids ++ t.ids) := by
  induction c with
  | top => exact ⟨t, hs, hadm, (Ctx.whole_top _).symm, rfl, List.Perm.refl _⟩
  | @frame h i F up ih =>
    have hfair : ∀ s ∈ (single t : Row K _).children, Tree.Fair cfg h s.size := by
      intro s hs'
      rw [mem_singleton.mp hs']
      exact hadm
    have hfold := hs.fold hfair (by rw [fillRow_single, map_fill]; exact hspine.1)
    rw [fillRow_single] at hfold
    obtain ⟨T, hT, hTfair, hitems, hid, hids⟩ := ih hfold hspine.2.2
      (by rw [size_node, length_keys_fill]; exact hspine.2.1)
    refine ⟨T, hT, hTfair, hitems.trans (by rw [Ctx.whole_frame]; simp), hid, hids.trans ?_⟩
    rw [perm_iff_count]
    simp [Ctx.ids, count_cons]
    omega

end Seg

end GrumpyDB
