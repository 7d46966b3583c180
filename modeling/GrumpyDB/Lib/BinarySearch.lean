/-
Binary search in a sorted list.

The loop halves a window and keeps the elements after it above the key and the one at `base` not
above it, unless `base` is still zero (`Window`).
-/
import Mathlib.Tactic.Ring

namespace GrumpyDB

open List

variable {α : Type}

/-- Halve the window until one element is left; `cmp` compares an element with
the key. -/
def bisectBase (cmp : α → Ordering) (l : List α) : Nat → Nat → Nat → Nat
  | 0, _, base => base
  | fuel + 1, size, base =>
    if size ≤ 1 then base
    else
      let half := size / 2
      let mid := base + half
      let base' := if (l[mid]?.map cmp) = some .gt then base else mid
      bisectBase cmp l fuel (size - half) base'

def bisect (cmp : α → Ordering) (l : List α) : Nat :=
  if l = [] then 0
  else
    let base := bisectBase cmp l l.length l.length 0
    match l[base]?.map cmp with
    | some .lt => base + 1
    | _ => base

variable {cmp : α → Ordering} {l : List α}

/-- Elements below the key come first, then matches, then elements above. -/
def Ascends (cmp : α → Ordering) (l : List α) : Prop :=
  l.Pairwise fun a b => (cmp a = .gt → cmp b = .gt) ∧ (cmp b = .lt → cmp a = .lt)

/-- What holds of the window in every round. -/
structure Window (cmp : α → Ordering) (l : List α) (size base : Nat) : Prop where
  pos : 0 < size
  inside : base + size ≤ l.length
  above : ∀ i a, base + size ≤ i → l[i]? = some a → cmp a = .gt
  base_le : 0 < base → ∀ a, l[base]? = some a → cmp a ≠ .gt

theorem Ascends.gt_of_le (hl : Ascends cmp l) {i j : Nat} {a b : α} (hi : l[i]? = some a)
    (hj : l[j]? = some b) (hij : i ≤ j) (ha : cmp a = .gt) : cmp b = .gt := by
  rcases hij.lt_or_eq with hlt | rfl
  · obtain ⟨hi', rfl⟩ := List.getElem?_eq_some_iff.mp hi
    obtain ⟨hj', rfl⟩ := List.getElem?_eq_some_iff.mp hj
    exact (List.pairwise_iff_getElem.mp hl i j hi' hj' hlt).1 ha
  · obtain rfl : a = b := by simpa [hi] using hj
    exact ha

theorem Ascends.lt_of_le (hl : Ascends cmp l) {i j : Nat} {a b : α} (hi : l[i]? = some a)
    (hj : l[j]? = some b) (hij : i ≤ j) (hb : cmp b = .lt) : cmp a = .lt := by
  rcases hij.lt_or_eq with hlt | rfl
  · obtain ⟨hi', rfl⟩ := List.getElem?_eq_some_iff.mp hi
    obtain ⟨hj', rfl⟩ := List.getElem?_eq_some_iff.mp hj
    exact (List.pairwise_iff_getElem.mp hl i j hi' hj' hlt).2 hb
  · obtain rfl : a = b := by simpa [hi] using hj
    exact hb

theorem window_bisectBase (hl : Ascends cmp l) {fuel size base : Nat} (h : Window cmp l size base)
    (hfuel : size ≤ fuel) : Window cmp l 1 (bisectBase cmp l fuel size base) := by
  induction fuel generalizing size base with
  | zero => exact absurd h.pos (by omega)
  | succ fuel ih =>
    rw [bisectBase]
    split
    · obtain rfl : size = 1 := by have := h.pos; omega
      exact h
    · apply ih _ (by omega)
      by_cases hgt : l[base + size / 2]?.map cmp = some .gt
      · -- the middle is above the key: it and what follows leave the window
        rw [if_pos hgt]
        refine ⟨by omega, by have := h.inside; omega, ?_, h.base_le⟩
        intro i b hi hb
        obtain ⟨a, ha, hcmp⟩ := Option.map_eq_some_iff.mp hgt
        have hle : base + size / 2 ≤ i := by omega
        exact hl.gt_of_le ha hb hle hcmp
      · rw [if_neg hgt]
        refine ⟨by omega, by have := h.inside; omega, ?_, ?_⟩
        · intro i b hi hb
          exact h.above i b (by omega) hb
        · intro _ a ha hcmp
          exact hgt (by simp [ha, hcmp])

/-- Index `i` is where the key is, or belongs. -/
structure Found (cmp : α → Ordering) (l : List α) (i : Nat) : Prop where
  le : i ≤ l.length
  before : ∀ j a, j < i → l[j]? = some a → cmp a ≠ .gt
  after : ∀ j a, i < j → l[j]? = some a → cmp a = .gt
  here : ∀ a, l[i]? = some a → cmp a ≠ .lt
  /-- A missed key has no match. -/
  hit : (∃ a, l[i]? = some a ∧ cmp a = .eq) ∨ ∀ j a, j < i → l[j]? = some a → cmp a = .lt

/-- **The search finds the last match, or else the place where the key belongs.** -/
theorem bisect_spec (hl : Ascends cmp l) : Found cmp l (bisect cmp l) := by
  unfold bisect
  split
  · rename_i hnil
    subst hnil
    constructor <;> simp
  · rename_i hnil
    have hpos : 0 < l.length := length_pos_iff.mpr hnil
    have hstart : Window cmp l l.length 0 := by
      refine ⟨hpos, by omega, ?_, by omega⟩
      intro i a hi ha
      rw [getElem?_eq_none (by omega)] at ha
      exact absurd ha (by simp)
    have hw := window_bisectBase hl hstart le_rfl
    generalize bisectBase cmp l l.length l.length 0 = base at hw ⊢
    have hbase : base < l.length := hw.inside
    have hget : l[base]? = some l[base] := getElem?_eq_getElem hbase
    dsimp only
    rw [hget, Option.map_some]
    rcases hcmp : cmp l[base] with - | - | - <;> dsimp only
    · -- below the key: it belongs right after
      have hlt : ∀ j a, j < base + 1 → l[j]? = some a → cmp a = .lt := fun j a hj ha =>
        hl.lt_of_le ha hget (Nat.lt_succ_iff.mp hj) hcmp
      refine ⟨hbase, ?_, ?_, ?_, Or.inr hlt⟩
      · intro j a hj ha
        simp [hlt j a hj ha]
      · intro j a hj ha
        exact hw.above j a (by omega) ha
      · intro a ha
        simp [hw.above (base + 1) a le_rfl ha]
    · refine ⟨hbase.le, ?_, fun j a hj ha => hw.above j a hj ha, ?_, Or.inl ⟨_, hget, hcmp⟩⟩
      · intro j a hj ha hgt
        have := hl.gt_of_le ha hget hj.le hgt
        simp [hcmp] at this
      · intro a ha
        obtain rfl : l[base] = a := by simpa [hget] using ha
        simp [hcmp]
    · -- above the key: only the first element can be
      have hzero : base = 0 := by
        by_contra hne
        exact hw.base_le (Nat.pos_of_ne_zero hne) _ hget hcmp
      subst hzero
      refine ⟨by simp, by simp, fun j a hj ha => hw.above j a (by omega) ha, ?_, Or.inr (by simp)⟩
      intro a ha
      obtain rfl : l[0] = a := by simpa [hget] using ha
      simp [hcmp]

/-! ### Sorted lists -/

variable {κ : Type} [LinearOrder κ]

variable {f : α → κ}

theorem Ascends.of_sorted (h : l.Pairwise fun a b => f a ≤ f b) (k : κ) :
    Ascends (fun a => compare (f a) k) l := by
  refine h.imp ?_
  intro a b hab
  constructor
  · intro hgt
    exact compare_gt_iff_gt.mpr (lt_of_lt_of_le (compare_gt_iff_gt.mp hgt) hab)
  · intro hlt
    exact compare_lt_iff_lt.mpr (lt_of_le_of_lt hab (compare_lt_iff_lt.mp hlt))

theorem sorted_split_bisect (h : l.Pairwise fun a b => f a ≤ f b) (k : κ) :
    (∀ a ∈ l.take (bisect (fun a => compare (f a) k) l), f a ≤ k) ∧
      ∀ a ∈ l.drop (bisect (fun a => compare (f a) k) l), k ≤ f a := by
  obtain ⟨-, hbefore, hafter, hat, -⟩ := bisect_spec (Ascends.of_sorted h k)
  constructor
  · intro a ha
    obtain ⟨i, hi, hget⟩ := mem_iff_getElem.mp ha
    have hlt : i < bisect (fun a => compare (f a) k) l := by
      rw [length_take] at hi
      exact lt_of_lt_of_le hi (min_le_left _ _)
    have hget' : l[i]? = some a := by
      rw [← getElem?_take_of_lt hlt, getElem?_eq_some_iff]
      exact ⟨hi, hget⟩
    exact compare_le_iff_le.mp (hbefore i a hlt hget')
  · intro a ha
    obtain ⟨i, hget⟩ := mem_iff_getElem?.mp ha
    rw [getElem?_drop] at hget
    rcases Nat.eq_zero_or_pos i with rfl | hi
    · exact compare_ge_iff_ge.mp (hat a hget)
    · exact (compare_gt_iff_gt.mp (hafter _ a (by omega) hget)).le

theorem sorted_eq_filters (h : l.Pairwise fun a b => f a ≤ f b) (k : κ) :
    l.filter (f · < k) ++ l.filter (f · = k) ++ l.filter (k < f ·) = l := by
  induction l with
  | nil => rfl
  | cons a l ih =>
    obtain ⟨ha, hl⟩ := pairwise_cons.mp h
    have hnil (p : α → Bool) (hp : ∀ b ∈ l, p b = false) : l.filter p = [] := by
      simpa using hp
    rcases lt_trichotomy (f a) k with hak | hak | hak
    · simp [hak, hak.ne, hak.not_gt, ih hl]
    · have hbelow := hnil (f · < k) fun b hb => by simpa using hak ▸ ha b hb
      have := ih hl
      simpa [hak, hbelow] using this
    · have hbelow := hnil (f · < k) fun b hb => by simpa using hak.le.trans (ha b hb)
      have hmatch := hnil (f · = k) fun b hb => by simpa using (hak.trans_le (ha b hb)).ne'
      have := ih hl
      simpa [hak, hak.ne', hak.not_gt, hbelow, hmatch] using this

/-- **In a sorted list the search stops at the last match**, or after everything
below the key. -/
theorem bisect_sorted (h : l.Pairwise fun a b => f a ≤ f b) (k : κ) :
    bisect (fun a => compare (f a) k) l =
      (l.filter (f · < k)).length + ((l.filter (f · = k)).length - 1) := by
  have hfound := bisect_spec (Ascends.of_sorted h k)
  generalize bisect (fun a => compare (f a) k) l = i at hfound
  have hsplit := sorted_eq_filters h k
  have hlow : ∀ a ∈ l.filter (f · < k), f a < k := by simp
  have hmid : ∀ a ∈ l.filter (f · = k), f a = k := by simp
  have hhigh : ∀ a ∈ l.filter (k < f ·), k < f a := by simp
  generalize l.filter (f · < k) = A at hsplit hlow ⊢
  generalize l.filter (f · = k) = B at hsplit hmid ⊢
  generalize l.filter (k < f ·) = C at hsplit hhigh
  subst hsplit
  have hle := hfound.le
  simp only [length_append] at hle
  -- nothing before the index lies above the key
  have hupper : i ≤ A.length + B.length := by
    by_contra hlt
    have hC : 0 < C.length := by omega
    have hget : (A ++ B ++ C)[A.length + B.length]? = some C[0] := by
      simp [hC]
    have := hfound.before _ _ (by omega) hget
    exact this (compare_gt_iff_gt.mpr (hhigh _ (getElem_mem hC)))
  -- the element at the index is not below the key
  have hlower : A.length ≤ i := by
    by_contra hlt
    have hget : (A ++ B ++ C)[i]? = some A[i] := by
      rw [append_assoc, getElem?_append_left (by omega)]
      exact getElem?_eq_getElem (by omega)
    exact hfound.here _ hget (compare_lt_iff_lt.mpr (hlow _ (getElem_mem _)))
  by_cases hB : B = []
  · subst hB
    simp only [length_nil] at hupper ⊢
    omega
  · have hBpos : 0 < B.length := length_pos_iff.mpr hB
    have hlast : (A ++ B ++ C)[A.length + (B.length - 1)]? = some B[B.length - 1] := by
      rw [getElem?_append_left (by simp; omega),
        getElem?_append_right (by omega)]
      simp
    have heq : compare (f B[B.length - 1]) k = .eq :=
      compare_eq_iff_eq.mpr (hmid _ (getElem_mem _))
    -- the last match is neither after the index nor before a miss
    rcases Nat.lt_trichotomy i (A.length + (B.length - 1)) with hi | hi | hi
    · have := hfound.after _ _ hi hlast
      simp [heq] at this
    · exact hi
    · obtain rfl : i = A.length + B.length := by omega
      rcases hfound.hit with ⟨a, ha, hcmp⟩ | hall
      · rw [getElem?_append_right (by simp)] at ha
        have := hhigh a (mem_of_getElem? ha)
        rw [compare_eq_iff_eq.mp hcmp] at this
        exact absurd this (lt_irrefl _)
      · have := hall _ _ hi hlast
        simp [heq] at this

/-- Put `x` where the search for its key ends. -/
def insertSorted (f : α → κ) (x : α) (l : List α) : List α :=
  let i := bisect (fun a => compare (f a) (f x)) l
  l.take i ++ x :: l.drop i

theorem mem_insertSorted {x y : α} : y ∈ insertSorted f x l ↔ y = x ∨ y ∈ l := by
  unfold insertSorted
  generalize bisect (fun a => compare (f a) (f x)) l = i
  constructor
  · intro h
    rcases mem_append.mp h with h | h
    · exact Or.inr (mem_of_mem_take h)
    · rcases mem_cons.mp h with h | h
      · exact Or.inl h
      · exact Or.inr (mem_of_mem_drop h)
  · rintro (rfl | h)
    · simp
    · rw [← take_append_drop i l] at h
      rcases mem_append.mp h with h | h <;> simp [h]

theorem sorted_insertSorted (h : l.Pairwise fun a b => f a ≤ f b) (x : α) :
    (insertSorted f x l).Pairwise fun a b => f a ≤ f b := by
  obtain ⟨hle, hge⟩ := sorted_split_bisect h (f x)
  unfold insertSorted
  generalize bisect (fun a => compare (f a) (f x)) l = i at hle hge
  rw [← take_append_drop i l] at h
  obtain ⟨htake, hdrop, -⟩ := pairwise_append.mp h
  refine pairwise_append.mpr ⟨htake, pairwise_cons.mpr ⟨hge, hdrop⟩, ?_⟩
  intro a ha b hb
  rcases mem_cons.mp hb with rfl | hb
  · exact hle a ha
  · exact le_trans (hle a ha) (hge b hb)

end GrumpyDB
