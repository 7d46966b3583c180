/-
Ordered scans.
-/
import GrumpyDB.Delete

namespace GrumpyDB

open BTreeKey Proc List Ctx Hole Row

/-! ### Sorted lists -/

section Lists

variable {α : Type} {p : α → Bool} {l : List α}

/-- A prefix cut off a list in which `p` never comes back once it has failed. -/
theorem takeWhile_eq_filter (h : l.Pairwise fun x y => p y = true → p x = true) :
    l.takeWhile p = l.filter p := by
  induction l with
  | nil => rfl
  | cons x l ih =>
    obtain ⟨hx, hl⟩ := pairwise_cons.mp h
    by_cases hp : p x
    · rw [takeWhile_cons_of_pos hp, filter_cons_of_pos hp, ih hl]
    · rw [takeWhile_cons_of_neg hp, filter_cons_of_neg hp, eq_comm,
        filter_eq_nil_iff]
      exact fun y hy hpy => hp (hx y hy hpy)

theorem length_flatMap_le {β : Type} {f : α → List β} {n : Nat}
    (h : ∀ x ∈ l, (f x).length ≤ n) : (l.flatMap f).length ≤ l.length * n := by
  induction l with
  | nil => simp
  | cons x l ih =>
    have hx := h x (by simp)
    have hl := ih fun y hy => h y (by simp [hy])
    rw [flatMap_cons, length_append, length_cons, Nat.succ_mul]
    omega

end Lists

section Scan

variable {K : Type} [LinearOrder K] [BTreeKey K]

/-! ### The entries of a chain of leaves -/

def leafEntries (N : Heap K) (i : UInt32) : List (LeafEntry K) :=
  match N i with
  | some (.leaf n) => n.entries
  | _ => []

def chainEntries (N : Heap K) (ls : List UInt32) : List (LeafEntry K) := ls.flatMap (leafEntries N)

section Chain

variable {h : Nat} {cfg : Config K} {N : Heap K} {i : UInt32}

omit [LinearOrder K] [BTreeKey K] in
theorem entriesOf_pairs (l : List (K × Tree K h)) :
    entriesOf (l.flatMap fun p => Item.sep p.1 :: p.2.items)
      = (l.map Prod.snd).flatMap fun s => entriesOf s.items := by
  induction l with
  | nil => rfl
  | cons p l ih => simp [ih]

omit [LinearOrder K] [BTreeKey K] in
theorem entriesOf_flat (r : Row K (Tree K h)) : entriesOf (r.flat Tree.items .sep)
    = r.children.flatMap fun s => entriesOf s.items := by
  rw [flat, entriesOf_append, entriesOf_pairs, children, flatMap_cons]

omit [LinearOrder K] [BTreeKey K] in
theorem entriesOf_rightFlat (F : Hole K (Tree K h)) : entriesOf (F.rightFlat Tree.items .sep)
    = F.rightChildren.flatMap fun s => entriesOf s.items := by
  cases F <;> exact entriesOf_pairs _

theorem HasLeaf.entries {es : List (LeafEntry K)} (hl : HasLeaf cfg N i es) :
    leafEntries N i = es := by
  obtain ⟨n, hn, -, -, rfl, -⟩ := hl
  rw [leafEntries, hn]

theorem chainEntries_flatMap {l : List (Tree K h)}
    (hl : ∀ s ∈ l, entriesOf s.items = chainEntries N s.leaves) :
    (l.flatMap fun s => entriesOf s.items) = chainEntries N (l.flatMap Tree.leaves) := by
  rw [chainEntries, flatMap_assoc]
  exact flatMap_congr hl

theorem Tree.Holds.entries {T : Tree K h} (hT : T.Holds cfg N) :
    entriesOf T.items = chainEntries N T.leaves := by
  induction h with
  | zero =>
    obtain ⟨i, es, rfl⟩ := T.eq_leaf
    have hl : HasLeaf cfg N i es := hT
    simp [chainEntries, hl.entries]
  | succ h ih =>
    obtain ⟨i, r, rfl⟩ := T.eq_node
    obtain ⟨-, hr⟩ := Tree.holds_node.mp hT
    rw [Tree.items_node, entriesOf_flat]
    exact chainEntries_flatMap fun s hs => ih (hr s hs)

theorem Ctx.Sibs.entries {c : Ctx K h} (hs : c.Sibs cfg N) :
    entriesOf c.rightItems = chainEntries N c.rightLeaves := by
  induction c with
  | top => rfl
  | frame i F up ih =>
    have hF : (F.rightChildren.flatMap fun s => entriesOf s.items)
        = chainEntries N (F.rightChildren.flatMap Tree.leaves) :=
      chainEntries_flatMap fun s hs' => (hs.1 s (mem_append_right _ hs')).entries
    rw [rightItems, rightLeaves, entriesOf_append, entriesOf_rightFlat, hF, ih hs.2,
      chainEntries, chainEntries, chainEntries, flatMap_append]

end Chain

/-! ### Cursors -/

namespace BTree

/-- The leaves `ls` are still to come after those the cursor has in hand. -/
structure Cursor.On (N : Heap K) (c : Cursor K) (ls : List UInt32) : Prop where
  next : c.nextLeafId = ls.headD 0
  linked : ∃ p, Linked N p ls 0
  nonzero : 0 ∉ ls

def Cursor.rest (N : Heap K) (c : Cursor K) (ls : List UInt32) : List (LeafEntry K) :=
  c.entries.drop c.pos ++ chainEntries N ls

def Cursor.Step (N : Heap K) (c : Cursor K) (ls : List UInt32) :
    Option (LeafEntry K × Cursor K) → Prop
  | none => c.rest N ls = []
  | some (e, c') => ∃ ls', c'.On N ls' ∧ ls'.length ≤ ls.length ∧ c.rest N ls = e :: c'.rest N ls'

variable {ls : List UInt32}

theorem Cursor.On.step {N : Heap K} {c : Cursor K} (hc : c.On N ls) {e : LeafEntry K}
    (he : c.entries[c.pos]? = some e) : c.Step N ls (some (e, { c with pos := c.pos + 1 })) := by
  refine ⟨ls, ⟨hc.next, hc.linked, hc.nonzero⟩, le_rfl, ?_⟩
  obtain ⟨hlt, rfl⟩ := List.getElem?_eq_some_iff.mp he
  simp only [Cursor.rest]
  rw [List.drop_eq_getElem_cons hlt, List.cons_append]

theorem Cursor.Step.next {N : Heap K} {c c' : Cursor K} {i : UInt32}
    {r : Option (LeafEntry K × Cursor K)} (hs : c'.Step N ls r)
    (hrest : c.rest N (i :: ls) = c'.rest N ls) : c.Step N (i :: ls) r := by
  rcases r with _ | ⟨e, c''⟩
  · exact hrest.trans hs
  · obtain ⟨ls', hon, hle, heq⟩ := hs
    exact ⟨ls', hon, hle.trans (Nat.le_succ _), hrest.trans heq⟩

variable [Crc32] {t : BTree K} {used : Set UInt32} {E : Halt → BTree K → Prop} {c : Cursor K}
  {ls : List UInt32}

variable {fuel : Nat}

theorem advance_spec (hok : t.pm.Ok used) (hc : c.On t.heap ls) (hf : ls.length < fuel) :
    Post (advance fuel c) (fun r t' => t' = t ∧ c.Step t.heap ls r) E t := by
  -- One leaf of the chain for each unit of fuel.
  induction ls generalizing fuel c with
  | nil =>
    obtain ⟨fuel, rfl⟩ : ∃ f, fuel = f + 1 := ⟨fuel - 1, by omega⟩
    rw [advance]
    rcases he : c.entries[c.pos]? with _ | e
    · have hnext : c.nextLeafId = 0 := hc.next
      rw [if_pos hnext]
      simp [Cursor.Step, Cursor.rest, chainEntries, getElem?_eq_none_iff.mp he]
    · exact ⟨rfl, hc.step he⟩
  | cons i ls ih =>
    obtain ⟨fuel, rfl⟩ : ∃ f, fuel = f + 1 := ⟨fuel - 1, by omega⟩
    rw [advance]
    rcases he : c.entries[c.pos]? with _ | e
    · obtain ⟨p, ⟨n, hn, -, hnext⟩, hlinked⟩ := hc.linked
      have hi : c.nextLeafId = i := hc.next
      have hi0 : i ≠ 0 := fun h0 => hc.nonzero (by simp [h0])
      rw [hi, if_neg hi0, post_bind, post_readLeaf hok hn]
      refine (ih ⟨hnext, ⟨i, hlinked⟩, ?_⟩
        (by simpa using hf)).imp ?_
      · exact fun h0 => hc.nonzero (mem_cons_of_mem _ h0)
      · rintro r t' ⟨rfl, hr⟩
        refine ⟨rfl, hr.next ?_⟩
        simp [Cursor.rest, chainEntries, leafEntries, hn, getElem?_eq_none_iff.mp he]
    · exact ⟨rfl, hc.step he⟩

theorem nextEntry_spec (hok : t.pm.Ok used) (hc : c.On t.heap ls)
    (hlen : ls.length ≤ t.pm.numPages) :
    Post (nextEntry c) (fun r t' => t' = t ∧ c.Step t.heap ls r) E t := by
  rw [nextEntry, post_bind]
  exact advance_spec hok hc (by omega)

theorem collect_spec (hok : t.pm.Ok used) (hc : c.On t.heap ls) (hlen : ls.length ≤ t.pm.numPages)
    (stop : Option K) (hf : (c.rest t.heap ls).length < fuel) :
    Post (collect stop fuel c) (fun r t' => t' = t ∧
      r = (c.rest t.heap ls).takeWhile fun e => !stop.any fun k => decide (k ≤ e.key)) E t := by
  induction fuel generalizing c ls with
  | zero => omega
  | succ fuel ih =>
    rw [collect, post_bind]
    refine (nextEntry_spec hok hc hlen).imp ?_
    rintro (_ | ⟨e, c'⟩) t' ⟨rfl, hr⟩
    · exact ⟨rfl, by rw [show c.rest t'.heap ls = [] from hr]; rfl⟩
    · obtain ⟨ls', hon, hle, heq⟩ := hr
      rw [heq] at hf ⊢
      by_cases hstop : stop.any fun k => decide (k ≤ e.key)
      · simp only [hstop, if_true, post_pure, true_and]
        rw [takeWhile_cons_of_neg (by simp [hstop])]
      · simp only [hstop, Bool.false_eq_true, if_false]
        rw [post_bind]
        refine (ih hon (hle.trans hlen) (by simpa using hf)).imp ?_
        rintro r t'' ⟨rfl, rfl⟩
        refine ⟨rfl, ?_⟩
        rw [takeWhile_cons_of_pos (by simp [hstop])]

/-! ### Ranges -/

variable {es : List (LeafEntry K)} {m : UInt32}

theorem InvAt.length_le (hi : t.InvAt m es) : es.length ≤ t.pm.numPages * 2 ^ 16 := by
  obtain ⟨h, T, hT, rfl⟩ := hi.repr
  have hholds := hT.core.seg.holds T (by simp)
  have hleaf : ∀ i ∈ T.leaves, (leafEntries t.heap i).length ≤ 2 ^ 16 := by
    intro i hi
    obtain ⟨es, hes⟩ := hholds.hasLeaf hi
    obtain ⟨n, -, -, hcfg, hn, hsound, -⟩ := id hes
    have hmax : leafMaxEntries n.config ≤ 2 ^ 16 :=
      (Nat.div_le_self _ _).trans (by simp only [PAGE_USABLE_SPACE, PAGE_SIZE]; omega)
    rw [hes.entries, ← hn]
    omega
  have hpages : T.leaves.length ≤ t.pm.numPages := by
    have h1 := T.leaves_sublist_ids.length_le
    have h2 := hT.core.length_pages_le
    simp only [pages, ids, children_single, flatMap_cons, flatMap_nil,
      nil_append, append_nil] at h2
    omega
  rw [hholds.entries]
  exact (length_flatMap_le hleaf).trans (Nat.mul_le_mul_right _ hpages)

/-- A cursor at the start of `es`, in a tree with its leaves in order. -/
def Starts (t : BTree K) (es : List (LeafEntry K)) (c : Cursor K) : Prop :=
  ∃ ls, c.On t.heap ls ∧ ls.length ≤ t.pm.numPages ∧ c.rest t.heap ls = es

theorem descendFirst_spec (hok : t.pm.Ok used) {h : Nat} {s : Tree K h}
    (hs : s.Holds t.info.config t.heap) (hf : h < fuel) :
    Post (descendFirst fuel s.id) (fun leaf t' => t' = t ∧
      t.heap leaf.pageId = some (.leaf leaf) ∧ ∃ ls, s.leaves = leaf.pageId :: ls) E t := by
  induction h generalizing fuel with
  | zero =>
    obtain ⟨fuel, rfl⟩ : ∃ f, fuel = f + 1 := ⟨fuel - 1, by omega⟩
    obtain ⟨i, es, rfl⟩ := s.eq_leaf
    obtain ⟨n, hn, rfl, -⟩ := Tree.holds_leaf.mp hs
    rw [descendFirst, post_bind, Tree.id_leaf, post_loadNode hok hn]
    exact ⟨rfl, hn, [], rfl⟩
  | succ h ih =>
    obtain ⟨fuel, rfl⟩ : ∃ f, fuel = f + 1 := ⟨fuel - 1, by omega⟩
    obtain ⟨i, r, rfl⟩ := s.eq_node
    obtain ⟨⟨n, hn, -, -, hrow, -⟩, hr⟩ := Tree.holds_node.mp hs
    obtain ⟨F, s, hidx, rfl⟩ := exists_fill r (Nat.zero_le _)
    have hleft : F.leftChildren = [] := eq_nil_of_length_eq_zero hidx
    rw [map_fill] at hrow
    have hchild : n.getChildAt 0 = s.id := by
      rw [← hidx, ← idx_map Tree.id]
      exact InternalNode.getChildAt_eq hrow
    rw [descendFirst, post_bind, Tree.id_node, post_loadNode hok hn]
    simp only [hchild]
    refine (ih (hr s (by simp)) (by omega)).imp ?_
    rintro leaf t' ⟨ht', hheap, ls, hls⟩
    refine ⟨ht', hheap, ls ++ F.rightChildren.flatMap Tree.leaves, ?_⟩
    rw [Tree.leaves_node, children_fill, hleft, nil_append, flatMap_cons, hls,
      cons_append]

theorem cursor_spec (hi : t.InvAt m es) :
    Post cursor (fun c t' => t' = t ∧ t.Starts es c) E t := by
  obtain ⟨h, T, hT, rfl⟩ := hi.repr
  have hlt := hT.core.height_lt
  have hholds := hT.core.seg.holds T (by simp)
  rw [cursor, post_bind, findFirstLeaf, post_bind, post_get, hT.root]
  refine (descendFirst_spec hT.core.ok hholds (by omega)).imp ?_
  rintro leaf t' ⟨rfl, hheap, ls, hls⟩
  have hlinked := hT.core.seg.linked
  simp only [chain_top, children_single, flatMap_cons, flatMap_nil,
    append_nil, hls] at hlinked
  obtain ⟨⟨n, hn, -, hnext⟩, hlinked⟩ := hlinked
  rw [hheap, Option.some.injEq, NodeRef.leaf.injEq] at hn
  have hmem : ∀ i ∈ T.leaves, i ∈ (top : Ctx K h).pages (.single T) := fun i hi =>
    mem_append_right _ (by simpa using T.leaves_sublist_ids.subset hi)
  refine ⟨rfl, ls, ⟨by rw [← hnext, hn], ⟨_, hlinked⟩, fun h0 => ?_⟩, ?_, ?_⟩
  · exact hT.core.ne_zero (hmem 0 (hls ▸ mem_cons_of_mem _ h0)) rfl
  · have h1 := T.leaves_sublist_ids.length_le
    have h2 := hT.core.length_pages_le
    simp only [pages, ids, children_single, flatMap_cons, flatMap_nil,
      nil_append, append_nil, hls, length_cons] at h1 h2
    omega
  · rw [hholds.entries, hls]
    simp [Cursor.rest, chainEntries, leafEntries, hheap]

theorem cursorFrom_spec (hi : t.InvAt m es) (start : K) :
    Post (cursorFrom start) (fun c t' => t' = t ∧
      t.Starts (es.filter fun e => decide (start ≤ e.key)) c) E t := by
  obtain ⟨h, T, hT, rfl⟩ := hi.repr
  rw [cursorFrom, post_bind]
  refine (findLeaf_spec (hT.at start) hT.root).imp ?_
  rintro leaf t' ⟨rfl, c, hr⟩
  have hleft := entriesOf_below hr.at_leaf.around.left
  have hright := entriesOf_above hr.at_leaf.around.right
  obtain ⟨a, b, hab, hidx, ha, hb⟩ : ∃ a b, leaf.entries = a ++ b ∧
      searchIndex (binarySearchBy LeafEntry.key start leaf.entries) = a.length ∧
      (∀ x ∈ a, x.key < start) ∧ ∀ x ∈ b, start ≤ x.key := by
    rcases sorted_split start hr.sorted with ⟨a, e, b, hab, rfl, ha, hb⟩ | ⟨a, b, hab, ha, hb⟩
    · refine ⟨a, e :: b, hab, by rw [hab, binarySearchBy_found ha rfl]; rfl, ha, ?_⟩
      rintro x hx
      rcases mem_cons.mp hx with rfl | hx
      · exact le_rfl
      · exact (hb x hx).le
    · exact ⟨a, b, hab, by rw [hab, binarySearchBy_missing ha hb]; rfl, ha,
        fun x hx => (hb x hx).le⟩
  have hcore := hr.at_leaf.core
  have hchain : Linked t'.heap 0 (c.chain [leaf.pageId]) 0 := by simpa using hcore.seg.linked
  obtain ⟨-, ⟨n, hn, -, hnext⟩, hlinked⟩ := linked_chain_one.mp hchain
  rw [hr.heap, Option.some.injEq, NodeRef.leaf.injEq] at hn
  refine ⟨rfl, c.rightLeaves, ⟨by rw [← hnext, hn], ⟨_, hlinked⟩, hcore.leaves_nodup.2⟩, ?_, ?_⟩
  · refine PageManager.length_le_of_nodup (nodup_append.mp hcore.leaves_nodup.1).2.1 ?_
    intro i hi
    refine (hcore.ok.used i (.inr (mem_append_left _ (sibIds_subset_ids _ ?_)))).2
    exact c.leaves_subset_sibIds i (mem_append_right _ hi)
  · have hall : entriesOf T.items
        = (entriesOf c.leftItems ++ a) ++ (b ++ entriesOf c.rightItems) := by
      simp [hr.entries, hab]
    have hlow : (entriesOf c.leftItems ++ a).filter (fun e => decide (start ≤ e.key)) = [] := by
      rw [filter_eq_nil_iff]
      intro x hx
      simpa using (mem_append.mp hx).elim (hleft x) (ha x)
    have hhigh : (b ++ entriesOf c.rightItems).filter (fun e => decide (start ≤ e.key))
        = b ++ entriesOf c.rightItems := by
      rw [filter_eq_self]
      intro x hx
      simpa using (mem_append.mp hx).elim (hb x) fun hx => (hright x hx).le
    rw [hall, filter_append, hlow, hhigh, nil_append, hcore.seg.sibs.entries]
    simp only [Cursor.rest, hidx]
    rw [hab, drop_left]

/-- **Ranges.**  A scan returns the entries between its bounds, in order. -/
theorem InvAt.range (hi : t.InvAt m es) (start stop : Option K) :
    Post (BTree.range start stop) (fun r t' => t' = t ∧
      r = es.filter fun e => start.all (fun k => decide (k ≤ e.key)) &&
        stop.all (fun k => decide (e.key < k))) E t := by
  have hok : ∃ used, t.pm.Ok used := by
    obtain ⟨h, T, hT, -⟩ := hi.repr
    exact ⟨_, hT.core.ok⟩
  obtain ⟨used, hok⟩ := hok
  -- From a cursor on, the entries below the upper bound are collected.
  have hcollect : ∀ (p : LeafEntry K → Bool) (c : Cursor K), t.Starts (es.filter p) c →
      Post (do
          let t ← get
          collect stop (t.pm.numPages * 2 ^ 16 + 1) c)
        (fun r t' => t' = t ∧
          r = es.filter fun e => p e && stop.all (fun k => decide (e.key < k))) E t := by
    rintro p c ⟨ls, hon, hlen, hrest⟩
    rw [post_bind, post_get]
    refine (collect_spec hok hon hlen stop ?_).imp ?_
    · rw [hrest]
      exact Nat.lt_succ_of_le ((length_filter_le _ _).trans hi.length_le)
    · rintro r t' ⟨rfl, rfl⟩
      refine ⟨rfl, ?_⟩
      have hneg : ∀ e : LeafEntry K, (!stop.any fun k => decide (k ≤ e.key))
          = stop.all fun k => decide (e.key < k) := by
        cases stop <;> simp [← decide_not]
      rw [hrest, takeWhile_eq_filter, filter_filter]
      · simp only [hneg, Bool.and_comm]
      · refine List.Pairwise.imp ?_ (hi.sorted.filter p)
        intro x y hxy hy
        cases stop with
        | none => rfl
        | some k => simp at hy ⊢; exact hxy.trans hy
  cases start with
  | none =>
    unfold BTree.range
    rw [post_bind]
    refine (cursor_spec hi).imp ?_
    rintro c t' ⟨rfl, hc⟩
    exact hcollect (fun _ => true) c (by simpa using hc)
  | some s =>
    unfold BTree.range
    rw [post_bind]
    refine (cursorFrom_spec hi s).imp ?_
    rintro c t' ⟨rfl, hc⟩
    exact hcollect _ c hc

theorem range_spec (hi : t.Inv es) (start stop : Option K) :
    Post (range start stop) (fun r t' => t' = t ∧
      r = es.filter fun e => start.all (fun k => decide (k ≤ e.key)) &&
        stop.all (fun k => decide (e.key < k))) E t := (inv_iff.mp hi).range start stop

end BTree

end Scan

end GrumpyDB
