/-
The trees that runs lead to, and what a scan of one returns.

`BTree.Reached cfg t m`: a tree made on a new file got to `t` by calls that returned and by
reopening; `m` is the map that the same calls lead to. A call that panics has not returned:
besides running out of page ids, that is what becomes of inserting a key that is too long for a
slot.
-/
import GrumpyDB.TreeMap

namespace GrumpyDB

open BTreeKey Proc List

section Ordered

variable {K : Type} [LinearOrder K] [BTreeKey K] {cfg : Config K}

/-! ### Keys that do not fit -/

/-- A configuration trees are made with, under which writing a key that does not
fit is an index out of bounds. -/
structure Strict (cfg : Config K) : Prop where
  valid : Valid cfg
  misfit : ∀ k, ¬ Fits cfg k → writeKey cfg k = .error .index

theorem strict_uuid : Strict (K := Uuid) () := ⟨trivial, fun _ h => absurd trivial h⟩

theorem strict_bytes {maxKeySize : UInt16} (h : maxKeySize.toNat ≤ VAR_KEY_MAX_SIZE) :
    Strict (K := List UInt8) maxKeySize := ⟨h, fun _ hk => if_neg hk⟩

theorem writeEntries_index {E : Type} {enc : E → Except Halt (List UInt8)} {l : List E}
    (h : ∀ e ∈ l, (∃ b, enc e = .ok b) ∨ enc e = .error .index) :
    (∃ bs, writeEntries enc l = .ok bs) ∨ writeEntries enc l = .error .index := by
  induction l with
  | nil => exact .inl ⟨[], rfl⟩
  | cons e l ih =>
    rcases h e (by simp) with ⟨b, hb⟩ | hb
    · rcases ih fun x hx => h x (by simp [hx]) with ⟨bs, hbs⟩ | hbs
      · exact .inl ⟨b ++ bs, by rw [writeEntries, hb, hbs]; rfl⟩
      · exact .inr (by rw [writeEntries, hb, hbs]; rfl)
    · exact .inr (by rw [writeEntries, hb]; rfl)

theorem writeEntries_misfit {E : Type} {enc : E → Except Halt (List UInt8)} {l : List E} {e : E}
    (he : e ∈ l) (hb : enc e = .error .index) : ∀ bs, writeEntries enc l ≠ .ok bs := by
  induction l with
  | nil => cases he
  | cons x l ih =>
    intro bs hbs
    rw [writeEntries] at hbs
    rcases hx : enc x with h | b
    · rw [hx] at hbs
      cases hbs
    · rcases mem_cons.mp he with rfl | he
      · rw [hb] at hx
        cases hx
      · rcases hl : writeEntries enc l with h | bs'
        · rw [hx, hl] at hbs
          cases hbs
        · exact ih he bs' hl

namespace LeafNode

variable {n : LeafNode K}

theorem encodeEntry_index (hs : Strict cfg) (e : LeafEntry K) :
    (∃ b, encodeEntry cfg e = .ok b) ∨ encodeEntry cfg e = .error .index := by
  by_cases hk : Fits cfg e.key
  · obtain ⟨b, hb, -⟩ := encodeEntry_ok hk
    exact .inl ⟨b, hb⟩
  · exact .inr (by rw [encodeEntry, hs.misfit _ hk]; rfl)

theorem toBytes_index (hs : Strict n.config) :
    (∃ p, n.toBytes = .ok p) ∨ n.toBytes = .error .index := by
  rcases writeEntries_index fun e (_ : e ∈ n.entries) => encodeEntry_index hs e with ⟨bs, hbs⟩ | hbs
  · by_cases hroom : PAGE_HEADER_SIZE + (n.fixedBytes ++ bs).length ≤ PAGE_SIZE
    · exact .inl ⟨_, by rw [toBytes, hbs]; exact if_pos hroom⟩
    · exact .inr (by rw [toBytes, hbs]; exact if_neg hroom)
  · exact .inr (by rw [toBytes, hbs]; rfl)

theorem toBytes_misfit (hs : Strict n.config) {e : LeafEntry K} (he : e ∈ n.entries)
    (hk : ¬ Fits n.config e.key) : n.toBytes = .error .index := by
  rcases toBytes_index hs with ⟨p, hp⟩ | h
  · have henc : encodeEntry n.config e = .error .index := by
      rw [encodeEntry, hs.misfit _ hk]
      rfl
    rcases hw : writeEntries (encodeEntry n.config) n.entries with e' | bs
    · rw [toBytes, hw] at hp
      cases hp
    · exact absurd hw (writeEntries_misfit he henc bs)
  · exact h

end LeafNode

namespace BTree

variable [Crc32] {t : BTree K} {m : PartialMap K}

def Panics (h : Halt) (_ : BTree K) : Prop := h = .index ∨ h = .overflow

theorem saveLeaf_misfit {n : LeafNode K} (hs : Strict n.config) {e : LeafEntry K}
    (he : e ∈ n.entries) (hk : ¬ Fits n.config e.key) {Q : Unit → BTree K → Prop} :
    Post (saveLeaf n) Q Panics t := by
  rw [saveLeaf, post_bind, LeafNode.toBytes_misfit hs he hk]
  exact .inl rfl

theorem saveLeaf_panics {n : LeafNode K} {used : Set UInt32} (hok : t.pm.Ok used)
    (hi : n.pageId ∈ used) (hs : Strict n.config) :
    Post (saveLeaf n) (fun _ _ => True) Panics t := by
  rw [saveLeaf, post_bind]
  rcases LeafNode.toBytes_index hs with ⟨p, hp⟩ | hp
  · rw [hp, post_lift_ok, post_onFile, PageManager.post_writePage hok (hok.used _ hi).2]
    trivial
  · rw [hp]
    exact .inl rfl

variable {es : List (LeafEntry K)} {key : K}

/-- **A key that does not fit** is never inserted: the call does not return. -/
theorem insert_misfit (hi : t.Inv es) (hs : Strict t.info.config) (hk : ¬ Fits t.info.config key)
    (pageId : UInt32) (slotId : UInt16) :
    Post (insert key pageId slotId) (fun _ _ => False) Panics t := by
  obtain ⟨h, T, hT, rfl⟩ := hi.repr
  rw [insert, post_bind]
  refine (findLeafWithPath_spec (hT.at key) hT.root).imp ?_
  rintro ⟨leaf, path⟩ t₁ ⟨ht, c, -, hr⟩
  change t.Reaches key .top T c leaf at hr
  rw [ht]
  set e : LeafEntry K := ⟨key, pageId, slotId⟩ with he
  have hcore := hr.at_leaf.core
  have hmem : leaf.pageId ∈ t.used (c.pages (.single (.leaf leaf.pageId leaf.entries))) :=
    .inr (mem_append_right _ (by simp))
  rcases sorted_split key hr.sorted with ⟨a, x, b, hab, rfl, -, -⟩ | ⟨a, b, hab, ha, hb⟩
  · -- Every key of the tree fits.
    refine absurd (hcore.seg.fits (.ent x) ?_) hk
    simp [Ctx.whole, hab]
  simp only [LeafNode.search_missing hab ha hb, Option.isSome_none, Bool.false_eq_true, if_false,
    LeafNode.insertEntry_eq (e := e) hab ha hb]
  have hs' : Strict leaf.config := hr.config ▸ hs
  have hk' : ¬ Fits leaf.config e.key := hr.config ▸ hk
  by_cases hover : LeafNode.isOverfull { leaf with entries := a ++ e :: b }
  · simp only [hover, Bool.not_true, Bool.false_eq_true, if_false]
    rw [post_bind, splitLeaf, post_bind]
    refine Post.mono (allocPage_spec hcore.ok) ?_ fun _ _ h => .inr h.1
    intro j t₁ hj
    set l := a ++ e :: b with hl
    have hcases : e ∈ l.take (l.length / 2) ∨ e ∈ l.drop (l.length / 2) := by
      rw [← mem_append, hl]
      simp
    rcases hright : l.drop (l.length / 2) with _ | ⟨r, rs⟩
    · exact .inl rfl
    simp only [post_pure]
    rw [post_bind]
    -- The half with the key cannot be written.
    rcases hcases with hleft | hin
    · exact saveLeaf_misfit (n := { leaf with entries := l.take (l.length / 2), nextLeaf := j })
        hs' hleft hk'
    · refine Post.imp (saveLeaf_panics hj.ok (.inr hmem) hs') ?_
      rintro - t₂ -
      rw [post_bind]
      exact saveLeaf_misfit (n := ⟨j, leaf.nextLeaf, leaf.pageId, leaf.config, r :: rs⟩) hs'
        (hright ▸ hin) hk'
  · simp only [hover, Bool.not_false, if_true]
    rw [post_bind]
    exact saveLeaf_misfit (n := { leaf with entries := a ++ e :: b }) hs' (by simp) hk'

/-- The first key of a tree goes into its only leaf: nothing but that leaf and the
metadata is written. -/
theorem insert_first {i : UInt32} (hT : t.Repr (.leaf i [])) (hfit : Fits t.info.config key)
    (pageId : UInt32) (slotId : UInt16) {E : Halt → BTree K → Prop} :
    Post (insert key pageId slotId) (fun _ t' =>
      t'.pm.Ok (t.used [i]) ∧ ∀ x, x ≠ i → x ≠ t.metaPageId →
        t'.pm.page? x = t.pm.page? x) E t := by
  rw [insert, post_bind]
  refine (findLeafWithPath_spec (hT.at key) hT.root).imp ?_
  rintro ⟨leaf, path⟩ t₁ ⟨ht, c, -, hr⟩
  change t.Reaches key .top (.leaf i []) c leaf at hr
  rw [ht]
  have hempty : leaf.entries = [] := by
    have hw := hr.entries
    exact (append_eq_nil_iff.mp (append_eq_nil_iff.mp hw.symm).2).1
  have hid : leaf.pageId = i := by
    have hmem : leaf.pageId ∈ c.chain [leaf.pageId] := by simp [Ctx.chain]
    rw [hr.chain] at hmem
    simpa using hmem
  set n : LeafNode K := { leaf with entries := [⟨key, pageId, slotId⟩] } with hn
  have hmax := le_leafMaxEntries hT.core.valid
  have hsound : n.Sound := by
    refine ⟨?_, ?_⟩
    · show 1 ≤ leafMaxEntries leaf.config
      rw [hr.config]
      omega
    · simpa [hn, hr.config] using hfit
  have hover : n.isOverfull = false := by
    simp only [LeafNode.isOverfull, decide_eq_false_iff_not, not_lt]
    exact hsound.1
  have hinsert : leaf.insertEntry ⟨key, pageId, slotId⟩ = n :=
    LeafNode.insertEntry_eq (a := []) hempty (by simp) (by simp)
  have hok : t.pm.Ok (t.used [i]) := by simpa [Ctx.pages, Ctx.ids] using hT.core.ok
  have hmem : n.pageId ∈ t.used [i] := .inr (by simp [hn, hid])
  simp only [LeafNode.search_missing (a := []) hempty (by simp) (by simp),
    Option.isSome_none, Bool.false_eq_true, if_false, hinsert, hover, Bool.not_false, if_true]
  rw [post_bind, post_saveLeaf hok hmem hsound, post_bind, setNumEntries, post_modify]
  -- The tree with its leaf written and its entries counted.
  set t₂ : BTree K := { t.putLeaf n with
    info := { (t.putLeaf n).info with numEntries := (t.putLeaf n).info.numEntries + 1 } }
  have hok₂ : t₂.pm.Ok (t.used [i]) := putLeaf_ok hok hmem
  have hm₂ : t₂.metaPageId ∈ t.used [i] := .inl rfl
  rw [post_flushMeta hok₂ hm₂]
  refine ⟨put_ok hok₂ hm₂, fun x hxi hxm => ?_⟩
  have hxn : x ≠ n.pageId := by
    show x ≠ leaf.pageId
    rwa [hid]
  have hmeta : x ≠ t₂.metaPageId := hxm
  rw [put, PageManager.page?_setPage_ne hmeta]
  show (t.pm.setPage n.pageId _).page? x = _
  rw [PageManager.page?_setPage_ne hxn]

/-! ### States that runs lead to -/

/-- The call came back, with a value or with an error. -/
def Returned {α : Type} (r : Except Halt α) : Prop := ∀ h, r = .error h → ∃ e, h = .err e

omit [Crc32] in
theorem returned_of_ok {α : Type} {r : Except Halt α} {a : α} (h : r = .ok a) : Returned r := by
  rintro e rfl
  cases h

/-- A tree made on a new file gets to the state `t` by calls that return and by
opening its file again; `m` is what the calls do to a map. -/
inductive Reached (cfg : Config K) : BTree K → PartialMap K → Prop where
  | create {f : Option File} {t : BTree K} (hf : f.getD [] = [])
      (ht : (createWith cfg f).res = .ok t) : Reached cfg t fun _ => none
  | call {t : BTree K} {m : PartialMap K} (h : Reached cfg t m) (op : TreeOp K)
      (hret : Returned (step op t).1) : Reached cfg (step op t).2 (m.step op).2
  | reopen {t t' : BTree K} {m : PartialMap K} (h : Reached cfg t m)
      (ht : (openFile (some t.pm.file)).res = .ok t') : Reached cfg t' m

theorem step_insert_first {i : UInt32} (hT : t.Repr (.leaf i [])) (hfit : Fits t.info.config key)
    (pageId : UInt32) (slotId : UInt16) :
    (step (.insert key pageId slotId) t).1 = .ok .done ∧
      (step (.insert key pageId slotId) t).2.pm.Ok (t.used [i]) ∧
      ∀ x, x ≠ i → x ≠ t.metaPageId →
        (step (.insert key pageId slotId) t).2.pm.page? x = t.pm.page? x := by
  refine Post.run (x := call (.insert key pageId slotId)) (C := fun r t' => r = .ok .done ∧
    t'.pm.Ok (t.used [i]) ∧ ∀ x, x ≠ i → x ≠ t.metaPageId → t'.pm.page? x = t.pm.page? x) ?_
  rw [call, post_bind]
  exact (insert_first hT hfit pageId slotId).imp fun _ t' h => ⟨rfl, h⟩

theorem Represents.step (hs : Strict cfg) (hr : t.Represents cfg m) {op : TreeOp K}
    (hret : Returned (step op t).1) : (BTree.step op t).2.Represents cfg (m.step op).2 := by
  by_cases hfit : ∀ k pageId slotId, op = .insert k pageId slotId → Fits cfg k
  · have h := Post.run (C := fun r t' => Returned r → t'.Represents cfg (m.step op).2)
      ((call_refines hr hfit).mono (fun _ _ h _ => h.2) ?_)
    · exact h hret
    · rintro e t' (h | ⟨rfl, -⟩) hret
      · exact h.2
      · obtain ⟨e, he⟩ := hret _ rfl
        cases he
  · simp only [not_forall] at hfit
    obtain ⟨k, pageId, slotId, rfl, hk⟩ := hfit
    obtain ⟨es, hi, rfl, rfl⟩ := hr
    have h := Post.run (x := call (.insert k pageId slotId))
      (C := fun r _ => ¬ Returned r) (by
        rw [call, post_bind]
        refine (insert_misfit hi hs hk pageId slotId).mono (fun _ _ => False.elim) ?_
        rintro e t' (rfl | rfl) hret <;> obtain ⟨e, he⟩ := hret _ rfl <;> cases he)
    exact absurd hret h

/-- **Every tree that a run leads to represents the map of the run.** -/
theorem Reached.represents (hs : Strict cfg) (h : Reached cfg t m) : t.Represents cfg m := by
  induction h with
  | create hf ht =>
    obtain ⟨hi, hcfg, -⟩ := (createWith_spec (E := fun _ _ => True) hs.valid hf).of_ok ht
    exact ⟨[], hi, hcfg, rfl⟩
  | call h op hret ih => exact ih.step hs hret
  | reopen h ht ih =>
    obtain ⟨es, hi, hcfg, hm⟩ := ih
    have hopen := (openFile_spec (E := fun _ _ => True) hi
      (Q := fun t' _ => t' = _)).mpr rfl
    obtain rfl := hopen.of_ok ht
    exact ⟨es, hi, hcfg, hm⟩

/-! ### Scans -/

/-- A scan between any two bounds returns the entries of the map between them, in
strictly ascending order, and changes nothing. -/
def ScansAs (t : BTree K) (m : PartialMap K) : Prop :=
  (∀ start stop : Option K, ∃ r, (range start stop t).res = .ok r ∧ (range start stop t).st = t ∧
    r.Pairwise (fun x y => x.key < y.key) ∧
    ∀ e : LeafEntry K, e ∈ r ↔ m e.key = some (e.pageId, e.slotId) ∧
      (∀ k ∈ start, k ≤ e.key) ∧ ∀ k ∈ stop, e.key < k) ∧
  ∃ r, (scanAll t).res = .ok r ∧ (scanAll t).st = t ∧ r.Pairwise (fun x y => x.key < y.key) ∧
    ∀ e : LeafEntry K, e ∈ r ↔ m e.key = some (e.pageId, e.slotId)

omit [BTreeKey K] [Crc32] in
theorem mem_iff_lookup (hs : es.Pairwise fun x y => x.key < y.key) (e : LeafEntry K) :
    e ∈ es ↔ lookup es e.key = some (e.pageId, e.slotId) := by
  constructor
  · intro he
    obtain ⟨a, b, rfl⟩ := append_of_mem he
    obtain ⟨-, -, hlt⟩ := pairwise_append.mp hs
    exact lookup_found fun x hx => hlt x hx e (by simp)
  · intro he
    rw [lookup, Option.map_eq_some_iff] at he
    obtain ⟨x, hx, hloc⟩ := he
    have hkey : x.key = e.key := by simpa using find?_some hx
    have hx' : x = e := by
      cases x
      simp_all
    exact hx' ▸ mem_of_find?_eq_some hx

theorem Represents.scans (hr : t.Represents cfg m) : t.ScansAs m := by
  obtain ⟨es, hi, -, rfl⟩ := hr
  have hrange : ∀ start stop : Option K, ∃ r, (range start stop t).res = .ok r ∧
      (range start stop t).st = t ∧ r.Pairwise (fun x y => x.key < y.key) ∧
      ∀ e : LeafEntry K, e ∈ r ↔ lookup es e.key = some (e.pageId, e.slotId) ∧
        (∀ k ∈ start, k ≤ e.key) ∧ ∀ k ∈ stop, e.key < k := by
    intro start stop
    obtain ⟨r, hres, hst, rfl⟩ := (range_spec hi start stop).exists_ok
    refine ⟨_, hres, hst, hi.sorted.filter _, fun e => ?_⟩
    rw [mem_filter, mem_iff_lookup hi.sorted]
    cases start <;> cases stop <;> simp
  refine ⟨hrange, ?_⟩
  obtain ⟨r, hres, hst, hsorted, hmem⟩ := hrange none none
  exact ⟨r, hres, hst, hsorted, fun e => by simpa using hmem e⟩

end BTree

end Ordered

/-- **Ordered scans.**  Every tree that a run leads to is scanned as the map of
the run, for document keys and for byte strings. -/
theorem btree_scans_in_order [Crc32] :
    (∀ (t : BTree Uuid) (m : PartialMap Uuid), BTree.Reached (K := Uuid) () t m → t.ScansAs m) ∧
      ∀ maxKeySize : UInt16, maxKeySize.toNat ≤ VAR_KEY_MAX_SIZE →
        ∀ (t : BTree (List UInt8)) (m : PartialMap (List UInt8)),
          BTree.Reached (K := List UInt8) maxKeySize t m → t.ScansAs m := by
  refine ⟨fun t m h => ?_, fun maxKeySize hmax t m h => ?_⟩
  · exact (h.represents strict_uuid).scans
  · exact (h.represents (strict_bytes hmax)).scans

theorem btree_scans_in_order_single : ∃ _ : Crc32, ∃ t : BTree (List UInt8),
    (∃ m, BTree.Reached (K := List UInt8) (4 : UInt16) t m ∧ m [1, 2] = some (7, 3) ∧
      m [9] = none) ∧
      ∃ r, (BTree.range (some [1]) (some [5]) t).res = .ok r ∧ ⟨[1, 2], 7, 3⟩ ∈ r := by
  let crc : Crc32 := ⟨fun _ => 0⟩
  have hs : Strict (K := List UInt8) (4 : UInt16) := strict_bytes (by decide)
  obtain ⟨t, ht, -, hcfg, -, hT, -⟩ := (BTree.createWith_new (K := List UInt8) (f := none)
    (E := fun _ _ => False) hs.valid rfl).exists_ok
  have hfit : Fits (K := List UInt8) t.info.config [1, 2] := by
    rw [hcfg]
    exact show 2 ≤ 4 by decide
  have hreach := (BTree.Reached.create rfl ht).call (.insert [1, 2] 7 3)
    (BTree.returned_of_ok (BTree.step_insert_first hT hfit 7 3).1)
  obtain ⟨r, hr, -, -, hmem⟩ := (btree_scans_in_order.2 4 (by decide) _ _ hreach).1
    (some [1]) (some [5])
  refine ⟨crc, _, ⟨_, hreach, by simp [PartialMap.step], by simp [PartialMap.step]⟩, r, hr, ?_⟩
  refine (hmem _).mpr ⟨by simp [PartialMap.step], ?_, ?_⟩
  · rintro k ⟨⟩
    decide
  · rintro k ⟨⟩
    decide

/-! ### The shape of a tree -/

section Shape

variable {K : Type} [LinearOrder K] {h : Nat}

/-- In every node the keys ascend, and each separator bounds what is left and right of it. -/
def Tree.Ordered {h : Nat} (T : Tree K h) : Prop :=
  match h, T with
  | 0, T => (TLeaf.entries T).Pairwise fun x y => x.key < y.key
  | _ + 1, T => (TNode.row T).keys.Pairwise (· < ·) ∧
      (∀ (a b : Row K _) (k : K), TNode.row T = a.join k b →
        (∀ x ∈ a.flat Tree.items .sep, Item.Before x (.sep k)) ∧
          ∀ x ∈ b.flat Tree.items .sep, Item.Before (.sep k) x) ∧
      ∀ c ∈ (TNode.row T).children, Tree.Ordered c

theorem Tree.ordered_of_sorted (T : Tree K h) (hs : Sorted T.items) : T.Ordered := by
  induction h with
  | zero =>
    obtain ⟨i, es, rfl⟩ := T.eq_leaf
    show es.Pairwise _
    simpa using hs.entries
  | succ h ih =>
    obtain ⟨i, r, rfl⟩ := T.eq_node
    rw [items_node] at hs
    refine ⟨?_, ?_, fun c hc => ih c (hs.sublist ?_)⟩
    · have hsub : (r.keys.map Item.sep).Sublist (r.flat Tree.items .sep) := by
        rw [Row.keys, map_map, map_eq_flatMap]
        exact (Sublist.flatMap_right _ fun p _ => by simp).trans (sublist_append_right _ _)
      exact (pairwise_map (R := Item.Before)).mp (hs.sublist hsub)
    · rintro a b k rfl
      rw [Row.flat_join] at hs
      obtain ⟨-, hb, hab⟩ := pairwise_append.mp hs
      exact ⟨fun x hx => hab x hx _ mem_cons_self, (pairwise_cons.mp hb).1⟩
    · rcases mem_cons.mp hc with rfl | hc
      · exact sublist_append_left _ _
      · obtain ⟨p, hp, rfl⟩ := mem_map.mp hc
        have hpart : (Item.sep p.1 :: p.2.items).Sublist
            (r.rest.flatMap fun p => .sep p.1 :: p.2.items) :=
          sublist_flatten_of_mem (mem_map_of_mem hp)
        exact ((sublist_cons_self _ _).trans hpart).trans (sublist_append_right _ _)

variable [BTreeKey K] [Crc32]

/-- The pages below the root form a tree: all leaves at the depth that the metadata name,
ordered nodes of admissible sizes, no page twice, and the leaves linked in their order. -/
def BTree.Structured (t : BTree K) : Prop :=
  ∃ (h : Nat) (T : Tree K h), t.info.rootPageId = T.id ∧ t.info.height = h + 1 ∧
    T.Holds t.info.config t.heap ∧ T.Ordered ∧ T.Occ t.info.config ∧
    Tree.RootFair t.info.config h T.size ∧ T.ids.Nodup ∧ Linked t.heap 0 T.leaves 0

theorem BTree.Represents.structured {cfg : Config K} {t : BTree K} {m : PartialMap K}
    (hr : t.Represents cfg m) : t.Structured := by
  obtain ⟨es, hi, -⟩ := hr
  obtain ⟨h, T, hT, -⟩ := hi.repr
  have hseg := hT.core.seg
  have hsorted := hseg.sorted
  have hnodup := hseg.nodup
  have hlinked := hseg.linked
  refine ⟨h, T, hT.root, hT.height, hseg.holds T ?_, T.ordered_of_sorted ?_, hseg.occ T ?_,
    hT.fair, ?_, ?_⟩
  · simp
  · simpa using hsorted
  · simp
  · simpa [Ctx.pages, Ctx.ids] using hnodup
  · simpa using hlinked

end Shape

/-- **The structure of the tree** after every run, for document keys and for byte strings. -/
theorem btree_structured [Crc32] :
    (∀ (t : BTree Uuid) (m : PartialMap Uuid), BTree.Reached (K := Uuid) () t m → t.Structured) ∧
      ∀ maxKeySize : UInt16, maxKeySize.toNat ≤ VAR_KEY_MAX_SIZE →
        ∀ (t : BTree (List UInt8)) (m : PartialMap (List UInt8)),
          BTree.Reached (K := List UInt8) maxKeySize t m → t.Structured := by
  refine ⟨fun t m h => ?_, fun maxKeySize hmax t m h => ?_⟩
  · exact (h.represents strict_uuid).structured
  · exact (h.represents (strict_bytes hmax)).structured

end GrumpyDB
