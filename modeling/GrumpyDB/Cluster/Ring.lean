/-
The consistent-hash ring.

A key is routed by hashing it, bisecting for its position and walking the circle from there until
enough distinct owners are met. Where several virtual nodes share the very position of the key,
the bisection ends at the last of them, and the walk meets the others only after a full lap.
-/
import Mathlib.Data.List.Perm.Subperm
import Mathlib.Data.List.Rotate
import Mathlib.Data.Prod.Lex
import Mathlib.Data.String.Basic
import GrumpyDB.Lib.BinarySearch
import GrumpyDB.Lib.Murmur3

namespace GrumpyDB

structure RoutingKey where
  database : String
  collection : String
  keyBytes : List UInt8
  deriving DecidableEq, Repr

def RoutingKey.canonicalBytes (k : RoutingKey) : List UInt8 :=
  utf8 k.database ++ [0] ++ utf8 k.collection ++ [0] ++ k.keyBytes

def RoutingKey.position (k : RoutingKey) : UInt64 := murmur3Low k.canonicalBytes

variable {ν : Type} [LinearOrder ν]

def vnodeOrder (vn : UInt64 × ν) : UInt64 ×ₗ ν := toLex vn

/-- A ring.  Its virtual nodes are sorted and owned by nodes of the ring. -/
structure Ring (ν : Type) [LinearOrder ν] where
  vnodesPerNode : UInt32
  vnodes : List (UInt64 × ν)
  physicalNodes : List ν
  sorted : vnodes.Pairwise fun a b => vnodeOrder a ≤ vnodeOrder b
  owner_mem : ∀ vn ∈ vnodes, vn.2 ∈ physicalNodes

namespace Ring

scoped instance decidableMemNode (node : ν) (nodes : List ν) : Decidable (node ∈ nodes) :=
  List.instDecidableMemOfLawfulBEq node nodes

/-! ### Building a ring -/

def new (vnodesPerNode : UInt32) : Ring ν where
  vnodesPerNode := vnodesPerNode
  vnodes := []
  physicalNodes := []
  sorted := List.Pairwise.nil
  owner_mem := by simp

def computeVnodesFor [ToString ν] (r : Ring ν) (node : ν) : List (UInt64 × ν) :=
  (List.range r.vnodesPerNode.toNat).map fun i =>
    (murmur3Low (utf8 (toString node ++ "#" ++ toString i)), node)

variable {new old : List (UInt64 × ν)}

theorem sorted_foldl_insertSorted (h : old.Pairwise fun a b => vnodeOrder a ≤ vnodeOrder b) :
    (new.foldl (fun l vn => insertSorted vnodeOrder vn l) old).Pairwise
      fun a b => vnodeOrder a ≤ vnodeOrder b := by
  induction new generalizing old with
  | nil => exact h
  | cons vn new ih => exact ih (sorted_insertSorted h vn)

theorem mem_foldl_insertSorted {vn : UInt64 × ν} :
    vn ∈ new.foldl (fun l vn => insertSorted vnodeOrder vn l) old ↔ vn ∈ new ∨ vn ∈ old := by
  induction new generalizing old with
  | nil => simp
  | cons a new ih =>
    rw [List.foldl_cons, ih, mem_insertSorted, List.mem_cons]
    tauto

def addNode [ToString ν] (r : Ring ν) (node : ν) : Ring ν :=
  if node ∈ r.physicalNodes then r
  else
    { vnodesPerNode := r.vnodesPerNode
      vnodes := (r.computeVnodesFor node).foldl (fun l vn => insertSorted vnodeOrder vn l) r.vnodes
      physicalNodes := insertSorted id node r.physicalNodes
      sorted := sorted_foldl_insertSorted r.sorted
      owner_mem := by
        intro vn hvn
        rw [mem_insertSorted]
        rcases mem_foldl_insertSorted.mp hvn with h | h
        · obtain ⟨i, -, rfl⟩ := List.mem_map.mp h
          exact Or.inl rfl
        · exact Or.inr (r.owner_mem vn h) }

/-! ### Routing -/

def collectOwners (n : Nat) (out : List ν) : List ν → List ν
  | [] => out
  | owner :: rest =>
    if owner ∈ out then collectOwners n out rest
    else if (out ++ [owner]).length = n then out ++ [owner]
    else collectOwners n (out ++ [owner]) rest

/-- The virtual nodes from index `start` on, once around the circle. -/
def lap (r : Ring ν) (start : Nat) : List (UInt64 × ν) :=
  (List.range r.vnodes.length).filterMap fun step =>
    r.vnodes[(start + step) % r.vnodes.length]?

/-- The first `n` distinct physical nodes met from the position of the key on. -/
def preferenceList (r : Ring ν) (key : RoutingKey) (n : Nat) : List ν :=
  if r.physicalNodes = [] ∨ n = 0 then []
  else
    let n := min n r.physicalNodes.length
    let start := bisect (fun vn => compare vn.1 key.position) r.vnodes
    collectOwners n [] ((r.lap start).map Prod.snd)

/-! ### The circle read clockwise -/

/-- The owners met when the circle is read from `pos` on, one lap. -/
def clockwise (r : Ring ν) (pos : UInt64) : List ν :=
  let below := r.vnodes.filter fun vn => vn.1 < pos
  let here := r.vnodes.filter fun vn => vn.1 = pos
  let above := r.vnodes.filter fun vn => pos < vn.1
  (here.drop (here.length - 1) ++ above ++ below ++ here.take (here.length - 1)).map Prod.snd

theorem lap_eq_rotate (r : Ring ν) (start : Nat) : r.lap start = r.vnodes.rotate start := by
  have hget : ∀ step ∈ List.range r.vnodes.length,
      r.vnodes[(start + step) % r.vnodes.length]? = (r.vnodes.rotate start)[step]? := by
    intro step hstep
    rw [List.getElem?_rotate (List.mem_range.mp hstep), Nat.add_comm]
  rw [lap, List.filterMap_congr hget, ← List.length_rotate r.vnodes start]
  generalize r.vnodes.rotate start = l
  -- reading a list index by index gives the list
  induction l using List.reverseRecOn with
  | nil => rfl
  | append_singleton l a ih =>
    rw [List.length_append, List.length_singleton, List.range_succ, List.filterMap_append]
    have hprev : ∀ i ∈ List.range l.length, (l ++ [a])[i]? = l[i]? := fun i hi =>
      List.getElem?_append_left (List.mem_range.mp hi)
    rw [List.filterMap_congr hprev, ih]
    simp

theorem sorted_position (r : Ring ν) : r.vnodes.Pairwise fun a b => a.1 ≤ b.1 :=
  r.sorted.imp fun h => Prod.Lex.monotone_fst _ _ h

theorem lap_bisect (r : Ring ν) (pos : UInt64) :
    (r.lap (bisect (fun vn => compare vn.1 pos) r.vnodes)).map Prod.snd = r.clockwise pos := by
  rw [lap_eq_rotate, bisect_sorted r.sorted_position, clockwise]
  have hsplit := sorted_eq_filters r.sorted_position pos
  generalize r.vnodes.filter (fun vn => vn.1 < pos) = below at hsplit ⊢
  generalize r.vnodes.filter (fun vn => vn.1 = pos) = here at hsplit ⊢
  generalize r.vnodes.filter (fun vn => pos < vn.1) = above at hsplit ⊢
  rw [← hsplit, List.rotate_eq_drop_append_take (by simp; omega)]
  rw [List.append_assoc below here above, List.drop_length_add_append, List.take_length_add_append,
    List.drop_append_of_le_length (by omega)]
  simp

theorem collectOwners_eq {n : Nat} {out owners : List ν} (hout : out.length < n) :
    collectOwners n out owners =
      out ++ ((owners.filter (· ∉ out)).eraseDups).take (n - out.length) := by
  induction owners generalizing out with
  | nil => simp [collectOwners]
  | cons owner rest ih =>
    rw [collectOwners]
    by_cases hmem : owner ∈ out
    · rw [if_pos hmem, ih hout, List.filter_cons_of_neg (by simpa using hmem)]
    · have hsub : n - out.length = n - (out ++ [owner]).length + 1 := by simp; omega
      have hfilter : (rest.filter (· ∉ out)).filter (fun o => !o == owner) =
          rest.filter (· ∉ out ++ [owner]) := by
        rw [List.filter_filter]
        apply List.filter_congr
        simp [and_comm, beq_eq_decide]
      rw [if_neg hmem, List.filter_cons_of_pos (by simpa using hmem), List.eraseDups_cons,
        hsub, hfilter]
      split
      · rename_i hfull
        simp [hfull]
      · rename_i hfull
        rw [ih (by simp at hfull ⊢; omega), List.append_assoc]
        rfl

theorem nodup_eraseDups (l : List ν) : l.eraseDups.Nodup := by
  -- each step filters the rest of the list
  induction hlen : l.length using Nat.strong_induction_on generalizing l with
  | _ len ih =>
    cases l with
    | nil => simp
    | cons a l =>
      have hshort : (l.filter fun b => !b == a).length < len := by
        rw [← hlen]
        exact Nat.lt_succ_of_le (List.length_filter_le _ _)
      rw [List.eraseDups_cons, List.nodup_cons]
      exact ⟨by simp, ih _ hshort _ rfl⟩

theorem length_eraseDups_clockwise_le (r : Ring ν) (pos : UInt64) :
    (r.clockwise pos).eraseDups.length ≤ r.physicalNodes.length := by
  have howner : ∀ o ∈ r.clockwise pos, o ∈ r.physicalNodes := by
    intro o ho
    rw [← r.lap_bisect pos, lap_eq_rotate] at ho
    obtain ⟨vn, hvn, rfl⟩ := List.mem_map.mp ho
    exact r.owner_mem vn (List.mem_rotate.mp hvn)
  apply List.Subperm.length_le
  apply List.subperm_of_subset (nodup_eraseDups _)
  intro o ho
  exact howner o (List.mem_eraseDups.mp ho)

/-- **The preference list is the first `n` distinct owners clockwise.** -/
theorem preferenceList_eq (r : Ring ν) (key : RoutingKey) (n : Nat) :
    r.preferenceList key n = (r.clockwise key.position).eraseDups.take n := by
  have hlap := r.lap_bisect key.position
  have hlen := r.length_eraseDups_clockwise_le key.position
  rw [preferenceList]
  split
  · rename_i hempty
    rcases hempty with hnodes | rfl
    · rw [hnodes, List.length_nil, Nat.le_zero, List.length_eq_zero_iff] at hlen
      simp [hlen]
    · simp
  · rename_i hne
    have hpos : 0 < min n r.physicalNodes.length := by
      rw [not_or] at hne
      exact lt_min (Nat.pos_of_ne_zero hne.2) (List.length_pos_iff.mpr hne.1)
    rw [collectOwners_eq hpos, hlap]
    simp [hlen]

theorem nodup_preferenceList (r : Ring ν) (key : RoutingKey) (n : Nat) :
    (r.preferenceList key n).Nodup := by
  rw [preferenceList_eq]
  exact (nodup_eraseDups _).sublist (List.take_sublist _ _)

end Ring

end GrumpyDB
