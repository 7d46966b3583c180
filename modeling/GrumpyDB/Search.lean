/-
Descending the tree.

`BTree.Core t c r` is the invariant of a tree in a file, seen from a hole. `BTree.At t key c s`
adds what a descent for `key` knows at the subtree `s`: the pages above it are up to date, and the
key can only be in `s`.
-/
import GrumpyDB.Context

namespace GrumpyDB

open BTreeKey Proc List Ctx Hole

section Search

variable {K : Type} [LinearOrder K] [BTreeKey K] {h : Nat}

/-- The metadata page and the pages `ps`. -/
def BTree.used (t : BTree K) (ps : List UInt32) : Set UInt32 := {i | i = t.metaPageId ∨ i ∈ ps}

@[simp] theorem BTree.mem_used {t : BTree K} {ps : List UInt32} {i : UInt32} :
    i ∈ t.used ps ↔ i = t.metaPageId ∨ i ∈ ps := Iff.rfl

theorem BTree.frame_mem_used {t : BTree K} {i : UInt32} {F : Hole K (Tree K h)}
    {up : Ctx K (h + 1)} {r : Row K (Tree K h)} :
    i ∈ t.used (Ctx.pages (.frame i F up) r) :=
  .inr (List.mem_append_left _ (by simp [Ctx.ids]))

variable [Crc32]

/-- The tree in a file, seen from a hole that contains `r`. -/
structure BTree.Core (t : BTree K) (c : Ctx K h) (r : Row K (Tree K h)) : Prop where
  valid : Valid t.info.config
  seg : Seg t.info.config t.heap c r
  meta_not_mem : t.metaPageId ∉ c.pages r
  ok : t.pm.Ok (t.used (c.pages r))

/-- A descent for `key` has reached the subtree `s`. -/
structure BTree.At (t : BTree K) (key : K) (c : Ctx K h) (s : Tree K h) : Prop where
  core : t.Core c (.single s)
  spine : c.Spine t.info.config t.heap s.id
  admits : c.Admits t.info.config s.size
  around : c.Around key

namespace BTree

variable {t : BTree K} {key : K} {c : Ctx K h} {i : UInt32}

variable {r : Row K (Tree K h)}

theorem At.child {c : Ctx K (h + 1)} (ha : t.At key c (.node i r)) :
    ∃ (n : InternalNode K) (F : Hole K (Tree K h)) (s : Tree K h),
      t.heap i = some (.internal n) ∧ r = F.fill s ∧ n.findChildIndex key = F.idx ∧
      n.getChildAt F.idx = s.id ∧ t.At key (.frame i F c) s := by
  have hnode := ha.core.seg.holds (.node i r) (by simp)
  obtain ⟨⟨n, hn, -, -, hrow, -⟩, -⟩ := Tree.holds_node.mp hnode
  have hle : n.findChildIndex key ≤ r.keys.length := by
    have := n.findChildIndex_le key
    rwa [InternalNode.length_entries hrow, Row.keys_map] at this
  obtain ⟨F, s, hidx, rfl⟩ := exists_fill r hle
  rw [map_fill] at hrow
  obtain ⟨hleft, hright⟩ := InternalNode.findChildIndex_spec hrow ((idx_map _).trans hidx)
  rw [leftKeys_map] at hleft
  rw [rightKeys_map] at hright
  have hadm : c.Admits t.info.config F.size := by
    have := ha.admits
    rwa [Tree.size_node, length_keys_fill] at this
  obtain ⟨hseg, hpage, hfair⟩ := ha.core.seg.unfold
  have hpages : ∀ j, j ∈ c.pages (.single (.node i (F.fill s))) ↔
      j ∈ pages (.frame i F c) (.single s) := by
    intro j
    rw [← fillRow_single]
    exact pages_fold.mem_iff
  have hsorted : Sorted (c.leftItems ++ (F.leftFlat Tree.items .sep ++
      (s.items ++ (F.rightFlat Tree.items .sep ++ c.rightItems)))) := by
    simpa [whole] using ha.core.seg.sorted
  refine ⟨n, F, s, hn, rfl, hidx.symm, ?_, ⟨⟨ha.core.valid, hseg, ?_, ?_⟩, ⟨hpage, hadm, ha.spine⟩,
    hfair, ⟨?_, ?_⟩⟩⟩
  · rw [← idx_map Tree.id]
    exact InternalNode.getChildAt_eq hrow
  · rw [← hpages]
    exact ha.core.meta_not_mem
  · exact ha.core.ok.mono fun j hj => hj.imp_right (hpages j).mpr
  · intro x hx
    rcases mem_append.mp hx with hx | hx
    · exact ha.around.left x hx
    · refine leftFlat_below (hsorted.sublist ?_) hleft x hx
      exact (sublist_append_left _ _).trans (sublist_append_right _ _)
  · intro x hx
    rcases mem_append.mp hx with hx | hx
    · refine rightFlat_above (hsorted.sublist ?_) hright x hx
      exact (sublist_append_left _ _).trans ((sublist_append_right _ _).trans
        ((sublist_append_right _ _).trans (sublist_append_right _ _)))
    · exact ha.around.right x hx

/-- A descent for `key` from the subtree `s` in `c` ends at the leaf `leaf` in
`c'`. -/
structure Reaches (t : BTree K) (key : K) (c : Ctx K h) (s : Tree K h) (c' : Ctx K 0)
    (leaf : LeafNode K) : Prop where
  at_leaf : t.At key c' (.leaf leaf.pageId leaf.entries)
  heap : t.heap leaf.pageId = some (.leaf leaf)
  config : leaf.config = t.info.config
  whole : c'.whole (leaf.entries.map .ent) = c.whole s.items
  chain : c'.chain [leaf.pageId] = c.chain s.leaves
  rootId : c'.rootId leaf.pageId = c.rootId s.id
  height : c'.height = c.height

variable {E : Halt → BTree K → Prop}

theorem At.reaches_self {es : List (LeafEntry K)} {c : Ctx K 0} (ha : t.At key c (.leaf i es)) :
    ∃ leaf, t.heap i = some (.leaf leaf) ∧ t.Reaches key c (.leaf i es) c leaf := by
  have hleaf := ha.core.seg.holds (.leaf i es) (by simp)
  obtain ⟨n, hn, rfl, hcfg, rfl, -⟩ := Tree.holds_leaf.mp hleaf
  exact ⟨n, hn, ha, hn, hcfg, rfl, rfl, rfl, rfl⟩

theorem descendWithPath_spec {s : Tree K h} (ha : t.At key c s) {fuel : Nat} (hf : h < fuel) :
    Post (descendWithPath key fuel s.id c.path)
      (fun r t' => t' = t ∧ ∃ c' : Ctx K 0, r.2 = c'.path ∧ t.Reaches key c s c' r.1) E t := by
  -- One level of the tree for each unit of fuel.
  induction h generalizing fuel with
  | zero =>
    obtain ⟨fuel, rfl⟩ : ∃ f, fuel = f + 1 := ⟨fuel - 1, by omega⟩
    obtain ⟨i, es, rfl⟩ := s.eq_leaf
    obtain ⟨leaf, hleaf, hr⟩ := ha.reaches_self
    rw [descendWithPath, post_bind, Tree.id_leaf, post_loadNode ha.core.ok hleaf]
    exact ⟨rfl, c, rfl, hr⟩
  | succ h ih =>
    obtain ⟨fuel, rfl⟩ : ∃ f, fuel = f + 1 := ⟨fuel - 1, by omega⟩
    obtain ⟨i, r, rfl⟩ := s.eq_node
    obtain ⟨n, F, s, hn, rfl, hidx, hchild, hs⟩ := ha.child
    rw [descendWithPath, post_bind, Tree.id_node, post_loadNode ha.core.ok hn]
    simp only [hidx, hchild]
    refine (ih hs (by omega)).imp ?_
    rintro r t' ⟨rfl, c', hpath, hr⟩
    exact ⟨rfl, c', hpath, { hr with
      whole := by rw [hr.whole, whole_frame]; simp
      chain := by rw [hr.chain, chain_frame]; simp
      rootId := hr.rootId
      height := hr.height }⟩

theorem post_descend {Q : LeafNode K → BTree K → Prop} {fuel : Nat} {path : DescentPath} :
    Post (descend key fuel i) Q E t ↔
      Post (descendWithPath key fuel i path) (fun r t' => Q r.1 t') E t := by
  induction fuel generalizing i path t with
  | zero => exact Iff.rfl
  | succ fuel ih =>
    rw [descend, descendWithPath, post_bind, post_bind]
    refine post_congr ?_
    rintro (n | n) t'
    · exact ih
    · exact Iff.rfl

theorem Core.length_pages_le (hc : t.Core c r) : (c.pages r).length ≤ t.pm.numPages :=
  PageManager.length_le_of_nodup hc.seg.nodup fun i hi => (hc.ok.used i (.inr hi)).2

variable {T : Tree K h}

theorem Core.height_lt (hc : t.Core .top (.single T)) : h < t.pm.numPages := by
  have h1 := T.height_lt_length_ids
  have h2 := hc.length_pages_le
  simp only [pages, ids, Row.children_single, flatMap_cons, flatMap_nil,
    nil_append, append_nil] at h2
  omega

theorem findLeafWithPath_spec (ha : t.At key .top T) (hroot : t.info.rootPageId = T.id) :
    Post (findLeafWithPath key)
      (fun r t' => t' = t ∧ ∃ c' : Ctx K 0, r.2 = c'.path ∧ t.Reaches key .top T c' r.1) E t := by
  have hlt := ha.core.height_lt
  rw [findLeafWithPath, post_bind, post_get, hroot]
  exact descendWithPath_spec ha (by omega)

theorem findLeaf_spec (ha : t.At key .top T) (hroot : t.info.rootPageId = T.id) :
    Post (findLeaf key)
      (fun leaf t' => t' = t ∧ ∃ c' : Ctx K 0, t.Reaches key .top T c' leaf) E t := by
  have hlt := ha.core.height_lt
  rw [findLeaf, post_bind, post_get, post_descend, hroot]
  refine (descendWithPath_spec ha (by omega)).imp ?_
  rintro r t' ⟨rfl, c', -, hr⟩
  exact ⟨rfl, c', hr⟩

end BTree

end Search

end GrumpyDB
