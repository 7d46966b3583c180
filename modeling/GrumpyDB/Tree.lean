/-
The tree in the heap.

`Tree K h` is a tree of height `h` as a mathematical object, `Ctx K h` one with a subtree of
height `h` missing. Reading a tree from left to right gives a list of items; the tree is ordered
when this list is (`Sorted`), where a separator comes before the entries with its own key, so
keeping the order is a fact about lists.
-/
import GrumpyDB.Heap
import Mathlib.Data.List.Flatten
import Mathlib.Tactic.Order

namespace GrumpyDB

open BTreeKey List

/-! ### Items -/

/-- What is read when a tree is read from left to right. -/
inductive Item (K : Type) where
  | sep (k : K)
  | ent (e : LeafEntry K)

namespace Item

variable {K : Type}

def key : Item K → K
  | sep k => k
  | ent e => e.key

def entry? : Item K → Option (LeafEntry K)
  | sep _ => none
  | ent e => some e

variable [LinearOrder K]

/-- The order of items: a separator comes before the entries with its key. -/
def Before : Item K → Item K → Prop
  | sep a, sep b => a < b
  | sep a, ent e => a ≤ e.key
  | ent e, sep b => e.key < b
  | ent e, ent f => e.key < f.key

/-- The item belongs left of an entry with this key. -/
def Below (key : K) : Item K → Prop
  | sep a => a ≤ key
  | ent e => e.key < key

/-- The item belongs right of an entry with this key. -/
def Above (key : K) : Item K → Prop
  | sep a => key < a
  | ent e => key < e.key

theorem Before.trans {x y z : Item K} (h : Before x y) (h' : Before y z) : Before x z := by
  cases x <;> cases y <;> cases z <;> simp only [Before] at * <;> order

variable {x : Item K}

theorem Before.below {k key : K} (h : Before x (sep k)) (hk : k ≤ key) : Below key x := by
  cases x <;> simp only [Before, Below] at * <;> order

theorem Before.above {k key : K} (h : Before (sep k) x) (hk : key < k) : Above key x := by
  cases x <;> simp only [Before, Above] at * <;> order

theorem Below.before {e : LeafEntry K} (h : Below e.key x) : Before x (ent e) := by
  cases x <;> simpa only [Before, Below] using h

theorem Above.before {e : LeafEntry K} (h : Above e.key x) : Before (ent e) x := by
  cases x <;> simpa only [Before, Above] using h

end Item

section Entries

variable {K : Type}

def entriesOf (l : List (Item K)) : List (LeafEntry K) := l.filterMap Item.entry?

@[simp] theorem entriesOf_append (a b : List (Item K)) :
    entriesOf (a ++ b) = entriesOf a ++ entriesOf b := List.filterMap_append

@[simp] theorem entriesOf_map_ent (es : List (LeafEntry K)) : entriesOf (es.map .ent) = es := by
  simp [entriesOf, Function.comp_def, Item.entry?]

@[simp] theorem entriesOf_cons_ent (e : LeafEntry K) (l : List (Item K)) :
    entriesOf (.ent e :: l) = e :: entriesOf l := rfl

@[simp] theorem entriesOf_cons_sep (k : K) (l : List (Item K)) :
    entriesOf (.sep k :: l) = entriesOf l := rfl

end Entries

def Sorted {K : Type} [LinearOrder K] (l : List (Item K)) : Prop := l.Pairwise Item.Before

section SortedItems

variable {K : Type} [LinearOrder K] {l a b : List (Item K)} {e f : LeafEntry K}

theorem Sorted.insert (h : Sorted (a ++ b)) (ha : ∀ x ∈ a, Item.Below e.key x)
    (hb : ∀ x ∈ b, Item.Above e.key x) : Sorted (a ++ .ent e :: b) := by
  obtain ⟨h1, h2, h3⟩ := pairwise_append.mp h
  refine pairwise_append.mpr ⟨h1, pairwise_cons.mpr ⟨fun x hx => (hb x hx).before, h2⟩, ?_⟩
  intro x hx y hy
  rcases mem_cons.mp hy with rfl | hy
  · exact (ha x hx).before
  · exact h3 x hx y hy

theorem Sorted.insertSep (h : Sorted (a ++ .ent f :: .ent e :: b)) :
    Sorted (a ++ .ent f :: .sep e.key :: .ent e :: b) := by
  have hfe : f.key < e.key := by
    have := (pairwise_append.mp h).2.1
    exact (pairwise_cons.mp this).1 (.ent e) (by simp)
  have hsep : ∀ x, Item.Before x (.ent f) → Item.Before x (.sep e.key) := fun x hx =>
    hx.trans (by simpa only [Item.Before] using hfe)
  obtain ⟨h1, h2, h3⟩ := pairwise_append.mp h
  obtain ⟨h4, h5⟩ := pairwise_cons.mp h2
  refine pairwise_append.mpr ⟨h1, pairwise_cons.mpr ⟨?_, pairwise_cons.mpr ⟨?_, h5⟩⟩, ?_⟩
  · intro x hx
    rcases mem_cons.mp hx with rfl | hx
    · simpa only [Item.Before] using hfe
    · exact h4 x hx
  · intro x hx
    have hee : Item.Before (.sep e.key) (.ent e) := by simp only [Item.Before, le_refl]
    rcases mem_cons.mp hx with rfl | hx
    · exact hee
    · exact hee.trans ((pairwise_cons.mp h5).1 x hx)
  · intro x hx y hy
    have hxf := h3 x hx (.ent f) (by simp)
    rcases mem_cons.mp hy with rfl | hy
    · exact hxf
    rcases mem_cons.mp hy with rfl | hy
    · exact hsep x hxf
    · exact h3 x hx y (by simp only [mem_cons] at hy ⊢; exact .inr hy)

theorem Sorted.sublist (h : Sorted l) (hs : a.Sublist l) : Sorted a := List.Pairwise.sublist hs h

variable {key : K} {l : List (Item K)}

theorem entriesOf_below (hl : ∀ x ∈ l, Item.Below key x) : ∀ e ∈ entriesOf l, e.key < key := by
  intro e he
  obtain ⟨x, hx, hxe⟩ := mem_filterMap.mp he
  cases x with
  | sep k => cases hxe
  | ent f => cases hxe; exact hl _ hx

theorem entriesOf_above (hl : ∀ x ∈ l, Item.Above key x) : ∀ e ∈ entriesOf l, key < e.key := by
  intro e he
  obtain ⟨x, hx, hxe⟩ := mem_filterMap.mp he
  cases x with
  | sep k => cases hxe
  | ent f => cases hxe; exact hl _ hx

theorem Sorted.entries (h : Sorted l) : (entriesOf l).Pairwise (fun x y => x.key < y.key) := by
  refine List.Pairwise.filterMap Item.entry? ?_ h
  intro x y hxy e he f hf
  cases x <;> cases y <;> simp_all [Item.entry?, Item.Before]

def lookup (es : List (LeafEntry K)) (key : K) : Option (UInt32 × UInt16) :=
  (es.find? fun e => decide (e.key = key)).map fun e => (e.pageId, e.slotId)

variable {a b : List (LeafEntry K)}

theorem lookup_found {e : LeafEntry K} (ha : ∀ x ∈ a, x.key < e.key) :
    lookup (a ++ e :: b) e.key = some (e.pageId, e.slotId) := by
  have hnone : a.find? (fun x => decide (x.key = e.key)) = none := by
    rw [find?_eq_none]
    intro x hx
    simpa using (ha x hx).ne
  simp [lookup, hnone]

theorem lookup_missing (ha : ∀ x ∈ a, x.key < key) (hb : ∀ x ∈ b, key < x.key) :
    lookup (a ++ b) key = none := by
  rw [lookup, Option.map_eq_none_iff, find?_eq_none]
  intro x hx
  rcases mem_append.mp hx with hx | hx
  · simpa using (ha x hx).ne
  · simpa using (hb x hx).ne'

end SortedItems

/-! ### Trees -/

structure TLeaf (K : Type) where
  id : UInt32
  entries : List (LeafEntry K)

/-- An inner node: its page and its children. -/
structure TNode (K T : Type) where
  id : UInt32
  row : Row K T

def Tree (K : Type) : Nat → Type
  | 0 => TLeaf K
  | h + 1 => TNode K (Tree K h)

namespace Tree

variable {K : Type}

def leaf (id : UInt32) (es : List (LeafEntry K)) : Tree K 0 := TLeaf.mk id es

def node {h : Nat} (id : UInt32) (r : Row K (Tree K h)) : Tree K (h + 1) := TNode.mk id r

def id : {h : Nat} → Tree K h → UInt32
  | 0, t => TLeaf.id t
  | _ + 1, t => TNode.id t

def ids : {h : Nat} → Tree K h → List UInt32
  | 0, t => [TLeaf.id t]
  | _ + 1, t => TNode.id t :: (TNode.row t).children.flatMap ids

def leaves : {h : Nat} → Tree K h → List UInt32
  | 0, t => [TLeaf.id t]
  | _ + 1, t => (TNode.row t).children.flatMap leaves

def items : {h : Nat} → Tree K h → List (Item K)
  | 0, t => (TLeaf.entries t).map .ent
  | _ + 1, t => (TNode.row t).flat items .sep

def size : {h : Nat} → Tree K h → Nat
  | 0, t => (TLeaf.entries t).length
  | _ + 1, t => (TNode.row t).keys.length

@[simp] theorem id_leaf (i : UInt32) (es : List (LeafEntry K)) : (leaf i es).id = i := rfl

@[simp] theorem ids_leaf (i : UInt32) (es : List (LeafEntry K)) : (leaf i es).ids = [i] := rfl

@[simp] theorem leaves_leaf (i : UInt32) (es : List (LeafEntry K)) :
    (leaf i es).leaves = [i] := rfl

@[simp] theorem items_leaf (i : UInt32) (es : List (LeafEntry K)) :
    (leaf i es).items = es.map .ent := rfl

@[simp] theorem size_leaf (i : UInt32) (es : List (LeafEntry K)) :
    (leaf i es).size = es.length := rfl

variable {h : Nat}

@[simp] theorem id_node (i : UInt32) (r : Row K (Tree K h)) : (node i r).id = i := rfl

@[simp] theorem ids_node (i : UInt32) (r : Row K (Tree K h)) :
    (node i r).ids = i :: r.children.flatMap ids := rfl

@[simp] theorem leaves_node (i : UInt32) (r : Row K (Tree K h)) :
    (node i r).leaves = r.children.flatMap leaves := rfl

@[simp] theorem items_node (i : UInt32) (r : Row K (Tree K h)) :
    (node i r).items = r.flat items .sep := rfl

@[simp] theorem size_node (i : UInt32) (r : Row K (Tree K h)) :
    (node i r).size = r.keys.length := rfl

theorem eq_leaf (t : Tree K 0) : ∃ i es, t = leaf i es := ⟨TLeaf.id t, TLeaf.entries t, rfl⟩

theorem eq_node (t : Tree K (h + 1)) : ∃ i r, t = node i r := ⟨TNode.id t, TNode.row t, rfl⟩

theorem leaves_sublist_ids (t : Tree K h) : t.leaves.Sublist t.ids := by
  induction h with
  | zero => exact List.Sublist.refl _
  | succ h ih =>
    obtain ⟨i, r, rfl⟩ := t.eq_node
    exact (Sublist.flatMap_right _ fun c _ => ih c).cons i

theorem height_lt_length_ids (t : Tree K h) : h < t.ids.length := by
  induction h with
  | zero => simp [ids]
  | succ h ih =>
    obtain ⟨i, r, rfl⟩ := t.eq_node
    have := ih r.first
    simp only [ids_node, Row.children, flatMap_cons, length_cons, length_append]
    omega

section Holds

variable [LinearOrder K] [BTreeKey K] (cfg : Config K) (N : Heap K)

def maxSize (cfg : Config K) : Nat → Nat
  | 0 => leafMaxEntries cfg
  | _ + 1 => internalMaxKeys cfg

def minSize (cfg : Config K) : Nat → Nat
  | 0 => leafMinEntries cfg
  | _ + 1 => internalMinKeys cfg

/-- The size is one a node other than the root may have. -/
def Fair (h n : Nat) : Prop := minSize cfg h ≤ n ∧ n ≤ maxSize cfg h

def RootFair (h n : Nat) : Prop := (h ≠ 0 → 1 ≤ n) ∧ n ≤ maxSize cfg h

def Holds : {h : Nat} → Tree K h → Prop
  | 0, t => HasLeaf cfg N (TLeaf.id t) (TLeaf.entries t)
  | _ + 1, t => HasRow cfg N (TNode.id t) ((TNode.row t).map Tree.id) ∧
      ∀ c ∈ (TNode.row t).children, Holds c

/-- Every node below the root has a fair size. -/
def Occ : {h : Nat} → Tree K h → Prop
  | 0, _ => True
  | h + 1, t => ∀ c ∈ (TNode.row t).children, Fair cfg h c.size ∧ Occ c

variable {cfg N}

variable {i : UInt32} {es : List (LeafEntry K)}

@[simp] theorem holds_leaf :
    (leaf i es).Holds cfg N ↔ HasLeaf cfg N i es := Iff.rfl

variable {r : Row K (Tree K h)}

@[simp] theorem holds_node :
    (node i r).Holds cfg N ↔ HasRow cfg N i (r.map Tree.id) ∧ ∀ c ∈ r.children, c.Holds cfg N :=
  Iff.rfl

@[simp] theorem occ_leaf : (leaf i es).Occ cfg := trivial

@[simp] theorem occ_node :
    (node i r).Occ cfg ↔ ∀ c ∈ r.children, Fair cfg h c.size ∧ c.Occ cfg := Iff.rfl

theorem Holds.frame {N' : Heap K} {t : Tree K h} (ht : t.Holds cfg N)
    (hk : ∀ i ∈ t.ids, Keeps cfg N N' i) : t.Holds cfg N' := by
  induction h with
  | zero =>
    obtain ⟨i, es, rfl⟩ := t.eq_leaf
    exact (hk i (by simp)).1 _ ht
  | succ h ih =>
    obtain ⟨i, r, rfl⟩ := t.eq_node
    refine ⟨(hk i (by simp)).2 _ ht.1, fun c hc => ih (ht.2 c hc) fun j hj => hk j ?_⟩
    exact mem_cons_of_mem _ (mem_flatMap.mpr ⟨c, hc, hj⟩)

theorem Holds.hasLeaf {t : Tree K h} (ht : t.Holds cfg N) {j : UInt32} (hj : j ∈ t.leaves) :
    ∃ es, HasLeaf cfg N j es := by
  induction h with
  | zero =>
    obtain ⟨i, es, rfl⟩ := t.eq_leaf
    rw [leaves_leaf, mem_singleton] at hj
    exact ⟨es, hj ▸ ht⟩
  | succ h ih =>
    obtain ⟨c, hc, hj⟩ := mem_flatMap.mp hj
    exact ih (ht.2 c hc) hj

end Holds

end Tree

end GrumpyDB
