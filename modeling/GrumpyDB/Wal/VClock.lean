/-
The operations on vector clocks.

An absent entry reads as zero, so two clocks with different entries can stand for the same
counters. The meaning of a clock is the function `get`, ordered pointwise.
-/
import GrumpyDB.Wal.Record
import Mathlib.Data.List.Dedup
import Mathlib.Data.List.Sort
import Mathlib.Order.Bounds.Basic

namespace GrumpyDB

open List SortedMap

inductive VClockOrdering where
  | equal
  | lessThan
  | greaterThan
  | concurrent
deriving DecidableEq, Repr

def VClockOrdering.AtMost (o : VClockOrdering) : Prop := o = .equal ∨ o = .lessThan

def VClockOrdering.mirror : VClockOrdering → VClockOrdering
  | equal => equal
  | lessThan => greaterThan
  | greaterThan => lessThan
  | concurrent => concurrent

namespace VectorClock

/-! ### Operations -/

def get (vc : VectorClock) (nodeId : U128) : UInt64 := (vc.entries.get? nodeId).getD 0

def set (vc : VectorClock) (nodeId : U128) (counter : UInt64) : VectorClock :=
  ⟨vc.entries.insert nodeId counter⟩

def saturatingSucc (n : UInt64) : UInt64 := if n.toNat + 1 < 2 ^ 64 then n + 1 else n

def bump (vc : VectorClock) (nodeId : U128) : UInt64 × VectorClock :=
  let entry := saturatingSucc (vc.get nodeId)
  (entry, vc.set nodeId entry)

/-- One turn of the loop of `merge`: the entry is made if it is missing, and
raised if the other clock's counter is larger. -/
def raise (vc : VectorClock) (e : U128 × UInt64) : VectorClock :=
  let cur := vc.get e.1
  vc.set e.1 (if e.2 > cur then e.2 else cur)

def merge (vc other : VectorClock) : VectorClock := other.entries.entries.foldl raise vc

def keys (vc : VectorClock) : List U128 := vc.entries.entries.map Prod.fst

def compareStep (vc other : VectorClock) (flags : Bool × Bool) (k : U128) : Bool × Bool :=
  let a := vc.get k
  let b := other.get k
  (if a > b then false else flags.1, if a < b then false else flags.2)

def compare (vc other : VectorClock) : VClockOrdering :=
  let allKeys := ((vc.keys ++ other.keys).dedup).insertionSort (· ≤ ·)
  match allKeys.foldl (compareStep vc other) (true, true) with
  | (true, true) => .equal
  | (true, false) => .lessThan
  | (false, true) => .greaterThan
  | (false, false) => .concurrent

/-! ### Counters -/

theorem get_set_self (vc : VectorClock) (k : U128) (n : UInt64) : (vc.set k n).get k = n := by
  show ((vc.entries.insert k n).get? k).getD 0 = n
  rw [get?_insert_self]
  rfl

theorem get_set_ne (vc : VectorClock) {k k' : U128} (n : UInt64) (h : k' ≠ k) :
    (vc.set k n).get k' = vc.get k' := by
  show ((vc.entries.insert k n).get? k').getD 0 = _
  rw [get?_insert_ne h]
  rfl

theorem get_eq_zero {vc : VectorClock} {k : U128} (h : k ∉ vc.keys) : vc.get k = 0 := by
  have hnone : vc.entries.get? k = none := get?_eq_none_iff.2 fun e he hk =>
    h (mem_map.2 ⟨e, he, hk⟩)
  show (vc.entries.get? k).getD 0 = 0
  rw [hnone]
  rfl

theorem get_raise (vc : VectorClock) (e : U128 × UInt64) (k : U128) :
    (vc.raise e).get k = if k = e.1 then max (vc.get k) e.2 else vc.get k := by
  by_cases hk : k = e.1
  · subst hk
    rw [if_pos rfl]
    refine (get_set_self vc e.1 _).trans ?_
    split
    · next h => exact (max_eq_right (le_of_lt h)).symm
    · next h => exact (max_eq_left (not_lt.1 h)).symm
  · rw [if_neg hk]
    exact get_set_ne vc _ hk

theorem get_foldl_raise {es : List (U128 × UInt64)} (hnodup : (es.map Prod.fst).Nodup)
    (vc : VectorClock) (k : U128) :
    (es.foldl raise vc).get k
      = max (vc.get k) ((es.find? fun e => e.1 = k).elim 0 Prod.snd) := by
  induction es generalizing vc with
  | nil => exact (max_eq_left (UInt64.zero_le)).symm
  | cons e es ih =>
    obtain ⟨hfresh, hnodup⟩ := nodup_cons.1 hnodup
    rw [foldl_cons, ih hnodup, get_raise]
    by_cases hk : k = e.1
    · -- no later entry is for the same node
      have hnone : es.find? (fun e' => e'.1 = k) = none := find?_eq_none.2 fun e' he' h =>
        hfresh (mem_map.2 ⟨e', he', (of_decide_eq_true h).trans hk⟩)
      rw [if_pos hk, hnone, find?_cons_of_pos (by simp [hk])]
      exact max_eq_left (UInt64.zero_le)
    · rw [if_neg hk, find?_cons_of_neg (by simpa using fun h => hk h.symm)]

theorem get_merge (vc other : VectorClock) (k : U128) :
    (vc.merge other).get k = max (vc.get k) (other.get k) := by
  rw [merge, get_foldl_raise other.entries.nodup_keys]
  congr 1
  show _ = (other.entries.get? k).getD 0
  rw [get?]
  cases other.entries.entries.find? fun e => e.1 = k <;> rfl

/-! ### The order -/

def Le (a b : VectorClock) : Prop := ∀ k, a.get k ≤ b.get k

theorem le_refl (a : VectorClock) : a.Le a := fun _ => le_rfl

theorem Le.trans {a b c : VectorClock} (hab : a.Le b) (hbc : b.Le c) : a.Le c :=
  fun k => (hab k).trans (hbc k)

variable {a b : VectorClock}

theorem le_iff_keys {ks : List U128} (hks : ∀ k ∈ a.keys, k ∈ ks) :
    (∀ k ∈ ks, a.get k ≤ b.get k) ↔ a.Le b := by
  refine ⟨fun h k => ?_, fun h k _ => h k⟩
  by_cases hk : k ∈ a.keys
  · exact h k (hks k hk)
  · rw [get_eq_zero hk]
    exact UInt64.zero_le

theorem foldl_compareStep (a b : VectorClock) (ks : List U128) (le ge : Bool) :
    ks.foldl (compareStep a b) (le, ge)
      = (le && decide (∀ k ∈ ks, a.get k ≤ b.get k),
          ge && decide (∀ k ∈ ks, b.get k ≤ a.get k)) := by
  induction ks generalizing le ge with
  | nil => simp
  | cons k ks ih =>
    rw [foldl_cons, compareStep, ih]
    simp only [forall_mem_cons, Bool.decide_and, ← Bool.and_assoc]
    congr 2
    · by_cases h : a.get k ≤ b.get k
      · simp [h]
      · simp [not_le.1 h]
    · by_cases h : b.get k ≤ a.get k
      · simp [h]
      · simp [not_le.1 h]

def orderingOf (le ge : Prop) [Decidable le] [Decidable ge] : VClockOrdering :=
  if le then (if ge then .equal else .lessThan) else (if ge then .greaterThan else .concurrent)

instance instDecidableLe (a b : VectorClock) : Decidable (a.Le b) :=
  decidable_of_iff _ (le_iff_keys (b := b) (fun _ h => h))

theorem compare_eq (a b : VectorClock) : a.compare b = orderingOf (a.Le b) (b.Le a) := by
  have hmem : ∀ k, k ∈ ((a.keys ++ b.keys).dedup).insertionSort (· ≤ ·) ↔
      k ∈ a.keys ∨ k ∈ b.keys := by
    intro k
    rw [mem_insertionSort, mem_dedup, mem_append]
  have hle := le_iff_keys (b := b) fun k h => (hmem k).2 (Or.inl h)
  have hge := le_iff_keys (b := a) fun k h => (hmem k).2 (Or.inr h)
  rw [compare, foldl_compareStep, orderingOf]
  simp only [hle, hge]
  by_cases h : a.Le b <;> by_cases h' : b.Le a <;> simp [h, h']

section
variable {p q : Prop} [Decidable p] [Decidable q]

theorem orderingOf_eq_equal : orderingOf p q = .equal ↔ p ∧ q := by
  by_cases hp : p <;> by_cases hq : q <;> simp [orderingOf, hp, hq]

theorem orderingOf_eq_lessThan : orderingOf p q = .lessThan ↔ p ∧ ¬q := by
  by_cases hp : p <;> by_cases hq : q <;> simp [orderingOf, hp, hq]

theorem orderingOf_eq_greaterThan : orderingOf p q = .greaterThan ↔ ¬p ∧ q := by
  by_cases hp : p <;> by_cases hq : q <;> simp [orderingOf, hp, hq]

theorem orderingOf_eq_concurrent : orderingOf p q = .concurrent ↔ ¬p ∧ ¬q := by
  by_cases hp : p <;> by_cases hq : q <;> simp [orderingOf, hp, hq]

theorem orderingOf_swap : orderingOf q p = (orderingOf p q).mirror := by
  by_cases hp : p <;> by_cases hq : q <;> simp [orderingOf, VClockOrdering.mirror, hp, hq]

end

theorem not_le_iff : ¬a.Le b ↔ ∃ k, b.get k < a.get k := by
  simp only [Le, not_forall, not_le]

theorem compare_eq_equal : a.compare b = .equal ↔ ∀ k, a.get k = b.get k := by
  rw [compare_eq, orderingOf_eq_equal]
  constructor
  · rintro ⟨hab, hba⟩ k
    exact le_antisymm (hab k) (hba k)
  · intro h
    exact ⟨fun k => (h k).le, fun k => (h k).ge⟩

theorem compare_atMost : (a.compare b).AtMost ↔ a.Le b := by
  rw [VClockOrdering.AtMost, compare_eq, orderingOf_eq_equal, orderingOf_eq_lessThan]
  tauto

/-- Clocks are ordered as the comparison says. -/
instance instPreorder : Preorder VectorClock where
  le a b := (a.compare b).AtMost
  le_refl a := compare_atMost.2 (le_refl a)
  le_trans _ _ _ hab hbc := compare_atMost.2 ((compare_atMost.1 hab).trans (compare_atMost.1 hbc))

theorem isLUB_merge (a b : VectorClock) : IsLUB {a, b} (a.merge b) := by
  constructor
  · rintro c (rfl | rfl)
    · refine compare_atMost.2 fun k => ?_
      rw [get_merge]
      exact le_max_left _ _
    · refine compare_atMost.2 fun k => ?_
      rw [get_merge]
      exact le_max_right _ _
  · intro c hc
    have ha := compare_atMost.1 (hc (Set.mem_insert a {b}))
    have hb := compare_atMost.1 (hc (Set.mem_insert_of_mem a rfl))
    refine compare_atMost.2 fun k => ?_
    rw [get_merge]
    exact max_le (ha k) (hb k)

/-- **Vector clocks form a lattice.**  The comparison answers by the pointwise order of the
counters, an absent entry being zero, and the merge is the least upper bound. -/
theorem compare_merge_lattice (a b c : VectorClock) :
    (a.compare b = .equal ↔ ∀ k, a.get k = b.get k) ∧
    (a.compare b = .lessThan ↔ (∀ k, a.get k ≤ b.get k) ∧ ∃ k, a.get k < b.get k) ∧
    (a.compare b = .greaterThan ↔ (∀ k, b.get k ≤ a.get k) ∧ ∃ k, b.get k < a.get k) ∧
    (a.compare b = .concurrent ↔ (∃ k, a.get k < b.get k) ∧ ∃ k, b.get k < a.get k) ∧
    b.compare a = (a.compare b).mirror ∧
    ((a.compare a).AtMost ∧
      ((a.compare b).AtMost → (b.compare c).AtMost → (a.compare c).AtMost) ∧
      ((a.compare b).AtMost → (b.compare a).AtMost → a.compare b = .equal)) ∧
    IsLUB {a, b} (a.merge b) ∧
    (a.merge b).compare (b.merge a) = .equal ∧
    ((a.merge b).merge c).compare (a.merge (b.merge c)) = .equal ∧
    (a.merge a).compare a = .equal := by
  refine ⟨compare_eq_equal, ?_, ?_, ?_, ?_,
    ⟨instPreorder.le_refl a, instPreorder.le_trans a b c, ?_⟩, isLUB_merge a b, ?_, ?_, ?_⟩
  · rw [compare_eq, orderingOf_eq_lessThan, not_le_iff]
    exact Iff.rfl
  · rw [compare_eq, orderingOf_eq_greaterThan, not_le_iff, and_comm]
    exact Iff.rfl
  · rw [compare_eq, orderingOf_eq_concurrent, not_le_iff, not_le_iff, and_comm]
  · rw [compare_eq, compare_eq, orderingOf_swap]
  · intro hab hba
    rw [compare_eq, orderingOf_eq_equal]
    exact ⟨compare_atMost.1 hab, compare_atMost.1 hba⟩
  · refine compare_eq_equal.2 fun k => ?_
    rw [get_merge, get_merge, max_comm]
  · refine compare_eq_equal.2 fun k => ?_
    rw [get_merge, get_merge, get_merge, get_merge, max_assoc]
  · refine compare_eq_equal.2 fun k => ?_
    rw [get_merge, max_self]

/-- An entry of zero is no different from none. -/
example : (singleton 7 0).compare ⟨SortedMap.empty⟩ = .equal ∧
    (singleton 7 1).compare (singleton 8 1) = .concurrent := by decide

end VectorClock

end GrumpyDB
