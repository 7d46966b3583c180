/-
The ring as a function of its nodes.

However nodes joined and left, the virtual nodes are those of the nodes that are there.
-/
import GrumpyDB.Cluster.RingChange
import Mathlib.Data.Finset.Card

namespace GrumpyDB

open List

variable {ν : Type} [LinearOrder ν]

inductive RingOp (ν : Type) where
  | addNode (node : ν)
  | removeNode (node : ν)

def RingOp.present (ops : List (RingOp ν)) : Finset ν :=
  ops.foldl (fun s op => match op with
    | addNode node => insert node s
    | removeNode node => s.erase node) ∅

namespace Ring

variable [ToString ν]

def apply (r : Ring ν) : RingOp ν → Ring ν
  | .addNode node => r.addNode node
  | .removeNode node => r.removeNode node

def build (vnodesPerNode : UInt32) (ops : List (RingOp ν)) : Ring ν :=
  ops.foldl apply (new vnodesPerNode)

structure Has (r : Ring ν) (count : UInt32) (s : Finset ν) : Prop where
  count : r.vnodesPerNode = count
  sorted : r.physicalNodes.Pairwise (· ≤ ·)
  nodup : r.physicalNodes.Nodup
  mem : ∀ x, x ∈ r.physicalNodes ↔ x ∈ s
  vnodes : r.vnodes.Perm (r.physicalNodes.flatMap r.computeVnodesFor)

variable {r r' : Ring ν} {s : Finset ν} {count : UInt32} {x : ν}

/-! ### Nodes that join and leave -/

omit [LinearOrder ν] [ToString ν] in
theorem perm_insertSorted {α κ : Type} [LinearOrder κ] (f : α → κ) (a : α) (l : List α) :
    (insertSorted f a l).Perm (a :: l) := by
  refine perm_middle.trans ?_
  rw [take_append_drop]

omit [ToString ν] in
theorem perm_foldl_insertSorted (new old : List (UInt64 × ν)) :
    (new.foldl (fun l vn => insertSorted vnodeOrder vn l) old).Perm (new ++ old) := by
  induction new generalizing old with
  | nil => exact .refl _
  | cons vn new ih =>
    refine (ih _).trans (((perm_insertSorted vnodeOrder vn old).append_left new).trans ?_)
    exact perm_middle

theorem computeVnodesFor_congr (h : r.vnodesPerNode = r'.vnodesPerNode) :
    r.computeVnodesFor = r'.computeVnodesFor := by
  funext node
  rw [computeVnodesFor, computeVnodesFor, h]

theorem Has.addNode (h : r.Has count s) : (r.addNode x).Has count (insert x s) := by
  by_cases hx : x ∈ r.physicalNodes
  · rw [Ring.addNode, if_pos hx, Finset.insert_eq_of_mem ((h.mem x).mp hx)]
    exact h
  have hperm := perm_insertSorted id x r.physicalNodes
  rw [Ring.addNode, if_neg hx]
  refine ⟨h.count, sorted_insertSorted h.sorted x, ?_, ?_, ?_⟩
  · exact hperm.nodup_iff.mpr (nodup_cons.mpr ⟨hx, h.nodup⟩)
  · intro y
    rw [hperm.mem_iff, mem_cons, Finset.mem_insert, h.mem]
  · refine (perm_foldl_insertSorted _ _).trans ?_
    refine ((h.vnodes.append_left _).trans ?_).trans (hperm.flatMap_right _).symm
    exact .refl _

theorem filter_flatMap_computeVnodesFor (l : List ν) :
    (l.flatMap r.computeVnodesFor).filter (fun vn => vn.2 ≠ x) =
      (l.filter fun n => n ≠ x).flatMap r.computeVnodesFor := by
  have howner : ∀ n, ∀ vn ∈ r.computeVnodesFor n, vn.2 = n := by
    intro n vn hvn
    obtain ⟨i, -, rfl⟩ := mem_map.mp hvn
    rfl
  induction l with
  | nil => rfl
  | cons n l ih =>
    rw [flatMap_cons, filter_append, ih]
    by_cases hn : n = x
    · rw [filter_cons_of_neg (by simpa using hn), filter_eq_nil_iff.mpr, nil_append]
      exact fun vn hvn => by simpa [howner n vn hvn] using hn
    · rw [filter_cons_of_pos (by simpa using hn), flatMap_cons, filter_eq_self.mpr]
      exact fun vn hvn => by simpa [howner n vn hvn] using hn

theorem Has.removeNode (h : r.Has count s) : (r.removeNode x).Has count (s.erase x) := by
  by_cases hx : x ∈ r.physicalNodes
  · rw [Ring.removeNode, if_pos hx]
    refine ⟨h.count, h.sorted.sublist filter_sublist, h.nodup.filter _, ?_, ?_⟩
    · intro y
      rw [mem_filter, Finset.mem_erase, h.mem, decide_eq_true_eq, and_comm]
    · refine (h.vnodes.filter _).trans ?_
      rw [filter_flatMap_computeVnodesFor]
      exact .refl _
  · rw [Ring.removeNode, if_neg hx, Finset.erase_eq_of_notMem fun hs => hx ((h.mem x).mpr hs)]
    exact h

theorem has_build (count : UInt32) (ops : List (RingOp ν)) :
    (build count ops).Has count (RingOp.present ops) := by
  -- the ring and the set go through the operations together
  induction ops using reverseRecOn with
  | nil => exact ⟨rfl, .nil, .nil, by simp [build, new, RingOp.present], .refl _⟩
  | append_singleton ops op ih =>
    rw [build, RingOp.present, foldl_append, foldl_append]
    cases op with
    | addNode node => exact ih.addNode
    | removeNode node => exact ih.removeNode

theorem Has.unique (h : r.Has count s) (h' : r'.Has count s) : r = r' := by
  have hcount := h.count.trans h'.count.symm
  have hnodes : r.physicalNodes = r'.physicalNodes := by
    refine List.Perm.eq_of_pairwise (fun _ _ _ _ => le_antisymm) h.sorted h'.sorted ?_
    exact (perm_ext_iff_of_nodup h.nodup h'.nodup).mpr fun y => (h.mem y).trans (h'.mem y).symm
  refine ext_fields hcount ?_ hnodes
  refine List.Perm.eq_of_pairwise (fun _ _ _ _ hab hba => ?_) r.sorted r'.sorted ?_
  · exact toLex.injective (le_antisymm hab hba)
  · refine h.vnodes.trans ?_
    rw [hnodes, computeVnodesFor_congr hcount]
    exact h'.vnodes.symm

/-! ### Preference lists -/

theorem Has.mem_clockwise (h : r.Has count s) (hcount : 1 ≤ count) (pos : UInt64) (hx : x ∈ s) :
    x ∈ r.clockwise pos := by
  rw [← r.lap_bisect pos, lap_eq_rotate]
  have hpos : 0 < r.vnodesPerNode.toNat := by
    rw [h.count]
    exact UInt32.le_iff_toNat_le.mp hcount
  refine mem_map.mpr ⟨(murmur3Low (utf8 (toString x ++ "#" ++ toString 0)), x), ?_, rfl⟩
  rw [mem_rotate, h.vnodes.mem_iff]
  refine mem_flatMap.mpr ⟨x, (h.mem x).mpr hx, ?_⟩
  exact mem_map.mpr ⟨0, mem_range.mpr hpos, rfl⟩

theorem Has.length_preferenceList (h : r.Has count s) (hcount : 1 ≤ count) (key : RoutingKey)
    (n : Nat) : (r.preferenceList key n).length = min n s.card := by
  have hcard : s.card = r.physicalNodes.length := by
    rw [← toFinset_card_of_nodup h.nodup]
    exact congrArg Finset.card (Finset.ext fun y => by rw [mem_toFinset, h.mem])
  rw [preferenceList_eq, length_take, hcard]
  congr 1
  refine le_antisymm (r.length_eraseDups_clockwise_le _) (List.Subperm.length_le ?_)
  refine subperm_of_subset h.nodup fun y hy => mem_eraseDups.mpr ?_
  exact h.mem_clockwise hcount _ ((h.mem y).mp hy)

/-- **The ring is a function of its nodes**, which are those present; a preference list holds as
many distinct ones as were asked for and there are, and shorter lists are prefixes of longer ones.
-/
theorem ring_of_nodes (vnodesPerNode : UInt32) (ops : List (RingOp ν)) :
    (∀ ops', RingOp.present ops' = RingOp.present ops →
      build vnodesPerNode ops' = build vnodesPerNode ops) ∧
    (build vnodesPerNode ops).physicalNodes.toFinset = RingOp.present ops ∧
    ∀ key n,
      (1 ≤ vnodesPerNode → ((build vnodesPerNode ops).preferenceList key n).length =
        min n (RingOp.present ops).card) ∧
      ((build vnodesPerNode ops).preferenceList key n).Nodup ∧
      (∀ o ∈ (build vnodesPerNode ops).preferenceList key n, o ∈ RingOp.present ops) ∧
      ∀ m ≤ n, (build vnodesPerNode ops).preferenceList key m <+:
        (build vnodesPerNode ops).preferenceList key n := by
  have h := has_build vnodesPerNode ops
  refine ⟨fun ops' hops => ?_, Finset.ext fun y => by rw [mem_toFinset, h.mem], ?_⟩
  · exact (has_build vnodesPerNode ops').unique (hops ▸ h)
  intro key n
  refine ⟨fun hcount => h.length_preferenceList hcount key n, nodup_preferenceList _ key n, ?_, ?_⟩
  · intro o ho
    rw [preferenceList_eq, ← lap_bisect, lap_eq_rotate] at ho
    have hlap := mem_eraseDups.mp (mem_of_mem_take ho)
    obtain ⟨vn, hvn, rfl⟩ := mem_map.mp hlap
    exact (h.mem _).mp (Ring.owner_mem _ vn (mem_rotate.mp hvn))
  · intro m hm
    rw [preferenceList_eq, preferenceList_eq]
    exact take_prefix_take_left hm

end Ring

end GrumpyDB
