/-
Nodes that join and leave the ring.

A node that joins brings its virtual nodes and changes nothing else (`clockwise_addNode`), so it
enters every preference list at one place and pushes at most one node out of the first `n`.
-/
import GrumpyDB.Cluster.Ring

namespace GrumpyDB

open List

namespace Ring

variable {ν : Type} [LinearOrder ν] [ToString ν] {r : Ring ν} {x : ν}

/-- Remove a physical node; one that is not there changes nothing. -/
def removeNode (r : Ring ν) (node : ν) : Ring ν :=
  if node ∈ r.physicalNodes then
    { vnodesPerNode := r.vnodesPerNode
      vnodes := r.vnodes.filter fun vn => vn.2 ≠ node
      physicalNodes := r.physicalNodes.filter fun n => n ≠ node
      sorted := r.sorted.sublist List.filter_sublist
      owner_mem := by
        intro vn hvn
        obtain ⟨hmem, hne⟩ := mem_filter.mp hvn
        exact mem_filter.mpr ⟨r.owner_mem vn hmem, hne⟩ }
  else r

/-- No two nodes share the position of a virtual node. -/
def Apart (r : Ring ν) : Prop := ∀ a ∈ r.vnodes, ∀ b ∈ r.vnodes, a.1 = b.1 → a.2 = b.2

instance decidableApart (r : Ring ν) : Decidable r.Apart :=
  inferInstanceAs (Decidable (∀ a ∈ r.vnodes, ∀ b ∈ r.vnodes, a.1 = b.1 → a.2 = b.2))

/-! ### The virtual nodes of the others -/

omit [ToString ν] in
theorem filter_insertSorted {α κ : Type} [LinearOrder κ] {f : α → κ} {a : α} {l : List α}
    {p : α → Bool} (h : p a = false) : (insertSorted f a l).filter p = l.filter p := by
  rw [insertSorted, filter_append, filter_cons_of_neg (by simp [h]), ← filter_append,
    take_append_drop]

omit [ToString ν] in
theorem filter_foldl_insertSorted {new old : List (UInt64 × ν)} {p : UInt64 × ν → Bool}
    (h : ∀ vn ∈ new, p vn = false) :
    (new.foldl (fun l vn => insertSorted vnodeOrder vn l) old).filter p = old.filter p := by
  induction new generalizing old with
  | nil => rfl
  | cons vn new ih =>
    rw [foldl_cons, ih fun w hw => h w (mem_cons_of_mem _ hw),
      filter_insertSorted (h vn mem_cons_self)]

omit [ToString ν] in
theorem vnodes_ne (hx : x ∉ r.physicalNodes) : ∀ vn ∈ r.vnodes, vn.2 ≠ x :=
  fun vn hvn heq => hx (heq ▸ r.owner_mem vn hvn)

theorem vnodes_addNode (hx : x ∉ r.physicalNodes) :
    (r.addNode x).vnodes.filter (fun vn => vn.2 ≠ x) = r.vnodes := by
  rw [addNode, if_neg hx, filter_foldl_insertSorted]
  · exact filter_eq_self.mpr fun vn hvn => by simpa using vnodes_ne hx vn hvn
  · intro vn hvn
    obtain ⟨i, -, rfl⟩ := mem_map.mp hvn
    simp

theorem physicalNodes_addNode (hx : x ∉ r.physicalNodes) :
    (r.addNode x).physicalNodes.filter (fun n => n ≠ x) = r.physicalNodes := by
  rw [addNode, if_neg hx]
  show (insertSorted id x r.physicalNodes).filter _ = _
  rw [filter_insertSorted (by simp)]
  refine filter_eq_self.mpr fun n hn => ?_
  simpa using fun heq : n = x => hx (heq ▸ hn)

omit [ToString ν] in
theorem ext_fields {r r' : Ring ν} (hcount : r.vnodesPerNode = r'.vnodesPerNode)
    (hvnodes : r.vnodes = r'.vnodes) (hnodes : r.physicalNodes = r'.physicalNodes) : r = r' := by
  cases r'
  cases hcount
  cases hvnodes
  cases hnodes
  rfl

/-! ### Preference lists -/

omit [ToString ν] in
theorem filter_eraseDups (p : ν → Bool) (l : List ν) :
    (l.filter p).eraseDups = l.eraseDups.filter p := by
  -- each step filters the rest of the list
  induction hlen : l.length using Nat.strong_induction_on generalizing l with
  | _ len ih =>
    cases l with
    | nil => rfl
    | cons a l =>
      have hshort : (l.filter fun b => !b == a).length < len := by
        rw [← hlen]
        exact Nat.lt_succ_of_le (length_filter_le _ _)
      rw [eraseDups_cons]
      by_cases ha : p a = true
      · rw [filter_cons_of_pos ha, filter_cons_of_pos ha, eraseDups_cons,
          ← ih _ hshort _ rfl, filter_filter, filter_filter]
        simp only [Bool.and_comm]
      · rw [filter_cons_of_neg ha, filter_cons_of_neg ha, ← ih _ hshort _ rfl,
          filter_filter]
        congr 1
        refine filter_congr fun b _ => ?_
        by_cases hb : b = a
        · simp [hb, ha]
        · simp [hb]

theorem clockwise_addNode (hx : x ∉ r.physicalNodes) (hapart : (r.addNode x).Apart)
    (pos : UInt64) : ((r.addNode x).clockwise pos).filter (fun n => n ≠ x) = r.clockwise pos := by
  have hpart : ∀ q : UInt64 × ν → Bool,
      ((r.addNode x).vnodes.filter q).filter (fun vn => vn.2 ≠ x) = r.vnodes.filter q := by
    intro q
    rw [filter_comm, vnodes_addNode hx]
  have hhere := hpart fun vn => vn.1 = pos
  rw [clockwise, clockwise]
  have hcomp : (fun n => decide (n ≠ x)) ∘ Prod.snd =
      fun vn : UInt64 × ν => decide (vn.2 ≠ x) := rfl
  rw [← hpart fun vn => vn.1 < pos, ← hhere, ← hpart fun vn => pos < vn.1, filter_map,
    hcomp, filter_append, filter_append, filter_append]
  -- the virtual nodes at the position itself are those of one node
  by_cases hown : ∃ vn ∈ (r.addNode x).vnodes.filter (fun vn => vn.1 = pos), vn.2 = x
  · obtain ⟨vn, hvn, howner⟩ := hown
    have hall : ∀ w ∈ (r.addNode x).vnodes.filter (fun vn => vn.1 = pos), w.2 = x := by
      intro w hw
      rw [mem_filter, decide_eq_true_eq] at hvn hw
      rw [← howner]
      exact hapart w hw.1 vn hvn.1 (hw.2.trans hvn.2.symm)
    generalize (r.addNode x).vnodes.filter (fun vn => vn.1 = pos) = here at hall ⊢
    have hnil : ∀ l : List (UInt64 × ν), l ⊆ here → l.filter (fun vn => vn.2 ≠ x) = [] := by
      intro l hl
      rw [filter_eq_nil_iff]
      intro w hw
      simpa using hall w (hl hw)
    rw [hnil _ (drop_subset _ here), hnil _ (take_subset _ here),
      hnil here (List.Subset.refl here), drop_nil, take_nil]
  · have hself : ((r.addNode x).vnodes.filter fun vn => vn.1 = pos).filter (fun vn => vn.2 ≠ x) =
        (r.addNode x).vnodes.filter fun vn => vn.1 = pos :=
      filter_eq_self.mpr fun w hw => by simpa using fun heq => hown ⟨w, hw, heq⟩
    rw [hself]
    generalize (r.addNode x).vnodes.filter (fun vn => vn.1 = pos) = here at hself ⊢
    have hsub : ∀ l : List (UInt64 × ν), l ⊆ here → l.filter (fun vn => vn.2 ≠ x) = l := by
      intro l hl
      rw [filter_eq_self] at hself ⊢
      exact fun w hw => hself w (hl hw)
    rw [hsub _ (drop_subset _ here), hsub _ (take_subset _ here)]

omit [ToString ν] in
theorem preferenceList_all (r : Ring ν) (key : RoutingKey) :
    r.preferenceList key r.physicalNodes.length = (r.clockwise key.position).eraseDups := by
  rw [preferenceList_eq]
  exact take_of_length_le (r.length_eraseDups_clockwise_le _)

theorem eraseDups_clockwise_addNode (hx : x ∉ r.physicalNodes) (hapart : (r.addNode x).Apart)
    (pos : UInt64) : ((r.addNode x).clockwise pos).eraseDups.erase x =
      (r.clockwise pos).eraseDups := by
  rw [(nodup_eraseDups _).erase_eq_filter, ← clockwise_addNode hx hapart, filter_eraseDups]
  refine filter_congr fun n _ => ?_
  by_cases hn : n = x <;> simp [hn]

omit [ToString ν] in
/-- With one element more in a list, the first `n` gain at most it. -/
theorem mem_take_erase {n : Nat} {l : List ν} {o : ν} (ho : o ∈ l.take n) :
    o = x ∨ o ∈ (l.erase x).take n := by
  by_cases hx : x ∈ l
  · obtain ⟨a, b, -, rfl, herase⟩ := exists_erase_eq hx
    rw [herase, take_append, mem_append]
    rw [take_append, mem_append] at ho
    rcases ho with ho | ho
    · exact .inr (.inl ho)
    · rcases hm : n - a.length with _ | k <;> rw [hm] at ho
      · simp at ho
      · rcases mem_cons.mp ho with rfl | ho
        · exact .inl rfl
        · exact .inr (.inr (take_subset_take_left b (Nat.le_succ k) ho))
  · rw [erase_of_not_mem hx]
    exact .inr ho

omit [ToString ν] in
/-- With one element more in a list, the first `n` lose at most one. -/
theorem take_erase_lost {n : Nat} {l : List ν} {o o' : ν} (ho : o ∈ (l.erase x).take n)
    (ho' : o' ∈ (l.erase x).take n) (hlost : o ∉ l.take n) (hlost' : o' ∉ l.take n) : o = o' := by
  by_cases hx : x ∈ l
  · obtain ⟨a, b, -, rfl, herase⟩ := exists_erase_eq hx
    rw [herase, take_append, mem_append] at ho ho'
    rw [take_append, mem_append, not_or] at hlost hlost'
    have hb := ho.resolve_left hlost.1
    have hb' := ho'.resolve_left hlost'.1
    rcases hm : n - a.length with _ | k <;> rw [hm] at hb hb' hlost hlost'
    · simp at hb
    · -- what is lost is the last of the first `k + 1` after the place
      rw [take_add_one, mem_append] at hb hb'
      have hlast := hb.resolve_left fun h => hlost.2 (mem_cons_of_mem _ h)
      have hlast' := hb'.resolve_left fun h => hlost'.2 (mem_cons_of_mem _ h)
      rw [Option.mem_toList] at hlast hlast'
      exact Option.some.inj (hlast.symm.trans hlast')
  · rw [erase_of_not_mem hx] at ho
    exact absurd ho hlost

theorem removeNode_addNode (hx : x ∉ r.physicalNodes) : (r.addNode x).removeNode x = r := by
  have hmem : x ∈ (r.addNode x).physicalNodes := by
    rw [addNode, if_neg hx]
    exact mem_insertSorted.mpr (.inl rfl)
  have hcount : (r.addNode x).vnodesPerNode = r.vnodesPerNode := by
    rw [addNode, if_neg hx]
  rw [removeNode, if_pos hmem]
  exact ext_fields hcount (vnodes_addNode hx) (physicalNodes_addNode hx)

/-- **A node that joins disturbs little.**  It enters the list of all owners of a key at
one place; the first `n` owners gain at most it and lose at most one node; and when it
leaves again, every preference list is what it was. -/
theorem addNode_minimal_disruption (hx : x ∉ r.physicalNodes) (hapart : (r.addNode x).Apart)
    (key : RoutingKey) :
    ((r.addNode x).preferenceList key (r.addNode x).physicalNodes.length).erase x =
        r.preferenceList key r.physicalNodes.length ∧
      ∀ n, (∀ o ∈ (r.addNode x).preferenceList key n, o = x ∨ o ∈ r.preferenceList key n) ∧
        (∀ o ∈ r.preferenceList key n, ∀ o' ∈ r.preferenceList key n,
          o ∉ (r.addNode x).preferenceList key n → o' ∉ (r.addNode x).preferenceList key n →
          o = o') ∧
        ((r.addNode x).removeNode x).preferenceList key n = r.preferenceList key n := by
  have herase := eraseDups_clockwise_addNode hx hapart key.position
  refine ⟨?_, fun n => ⟨?_, ?_, ?_⟩⟩
  · rw [preferenceList_all, preferenceList_all, herase]
  · intro o ho
    rw [preferenceList_eq] at ho ⊢
    rw [← herase]
    exact mem_take_erase ho
  · intro o ho o' ho' hlost hlost'
    rw [preferenceList_eq] at ho ho' hlost hlost'
    rw [← herase] at ho ho'
    exact take_erase_lost ho ho' hlost hlost'
  · rw [removeNode_addNode hx]

/-- A second node joins a ring of one. -/
theorem addNode_minimal_disruption_second :
    (((new 1 : Ring Nat).addNode 1).addNode 2).Apart ∧
      ((((new 1 : Ring Nat).addNode 1).addNode 2).preferenceList ⟨"d", "c", []⟩ 2).erase 2 =
        ((new 1 : Ring Nat).addNode 1).preferenceList ⟨"d", "c", []⟩ 1 := by
  have hapart : (((new 1 : Ring Nat).addNode 1).addNode 2).Apart := by decide +kernel
  have htwo : (((new 1 : Ring Nat).addNode 1).addNode 2).physicalNodes.length = 2 := by
    decide +kernel
  have hone : ((new 1 : Ring Nat).addNode 1).physicalNodes.length = 1 := by decide +kernel
  have hmain := (addNode_minimal_disruption (by decide +kernel) hapart ⟨"d", "c", []⟩).1
  exact ⟨hapart, hmain⟩

end Ring

end GrumpyDB
