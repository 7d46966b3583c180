/-
Finite maps as lists of entries in ascending order of their keys.
-/
import Mathlib.Tactic.Ring
import Mathlib.Data.List.Nodup

namespace GrumpyDB

open List

theorem filter_ne_of_ascending {α κ : Type} [LinearOrder κ] {f : α → κ} {a b : List α} {x : α}
    (h : (a ++ x :: b).Pairwise fun y z => f y < f z) :
    (a ++ x :: b).filter (fun y => f y ≠ f x) = a ++ b := by
  obtain ⟨-, hxb, hax⟩ := pairwise_append.mp h
  have ha : a.filter (fun y => f y ≠ f x) = a :=
    filter_eq_self.mpr fun y hy => by simpa using (hax y hy x (mem_cons_self ..)).ne
  have hb : b.filter (fun y => f y ≠ f x) = b :=
    filter_eq_self.mpr fun y hy => by
      simpa using ((pairwise_cons.mp hxb).1 y hy).ne'
  rw [filter_append, filter_cons_of_neg (by simp), ha, hb]

/-- A finite map with its entries in ascending order. -/
@[ext] structure SortedMap (κ ν : Type) [LinearOrder κ] where
  entries : List (κ × ν)
  sorted : entries.Pairwise fun x y => x.1 < y.1

namespace SortedMap

variable {κ ν : Type} [LinearOrder κ]

/-- The map without entries. -/
def empty : SortedMap κ ν := ⟨[], List.Pairwise.nil⟩

def get? (m : SortedMap κ ν) (k : κ) : Option ν :=
  (m.entries.find? fun e => e.1 = k).map Prod.snd

/-- The entries whose keys satisfy `p`. -/
def filterKeys (m : SortedMap κ ν) (p : κ → Bool) : SortedMap κ ν :=
  ⟨m.entries.filter fun e => p e.1, m.sorted.sublist List.filter_sublist⟩

def erase (m : SortedMap κ ν) (k : κ) : SortedMap κ ν := m.filterKeys fun k' => k' ≠ k

def insert (m : SortedMap κ ν) (k : κ) (v : ν) : SortedMap κ ν where
  entries := (m.entries.filter fun e => e.1 < k) ++ (k, v) :: m.entries.filter fun e => k < e.1
  sorted := by
    refine pairwise_append.mpr ⟨m.sorted.sublist filter_sublist,
      pairwise_cons.mpr ⟨?_, m.sorted.sublist filter_sublist⟩, ?_⟩
    · intro e he
      simpa using (mem_filter.mp he).2
    · intro x hx y hy
      have hxk : x.1 < k := by simpa using (mem_filter.mp hx).2
      rcases mem_cons.mp hy with rfl | hy
      · exact hxk
      · have hky : k < y.1 := by simpa using (mem_filter.mp hy).2
        exact hxk.trans hky

variable {m : SortedMap κ ν} {k k' : κ} {v : ν}

theorem nodup_keys (m : SortedMap κ ν) : (m.entries.map Prod.fst).Nodup := by
  rw [List.Nodup, pairwise_map]
  exact m.sorted.imp fun h => h.ne

theorem mem_entries_iff : (k, v) ∈ m.entries ↔ m.get? k = some v := by
  constructor
  · intro h
    rcases hf : m.entries.find? (fun e => e.1 = k) with _ | e
    · have := find?_eq_none.mp hf (k, v) h
      simp at this
    · have hmem := mem_of_find?_eq_some hf
      have hkey : e.1 = k := by simpa using find?_some hf
      have : e = (k, v) := inj_on_of_nodup_map m.nodup_keys hmem h hkey
      rw [get?, hf, this]
      rfl
  · intro h
    obtain ⟨e, hf, rfl⟩ := Option.map_eq_some_iff.mp h
    have hkey : e.1 = k := by simpa using find?_some hf
    exact hkey ▸ mem_of_find?_eq_some hf

theorem get?_eq_none_iff : m.get? k = none ↔ ∀ e ∈ m.entries, e.1 ≠ k := by
  simp [get?]

@[simp] theorem get?_empty : (empty : SortedMap κ ν).get? k = none := rfl

theorem get?_filterKeys (p : κ → Bool) :
    (m.filterKeys p).get? k = if p k then m.get? k else none := by
  rcases hv : (m.filterKeys p).get? k with _ | v
  · rw [get?_eq_none_iff] at hv
    split
    · rename_i hp
      refine (get?_eq_none_iff.mpr ?_).symm
      rintro e he rfl
      exact hv e (mem_filter.mpr ⟨he, hp⟩) rfl
    · rfl
  · have hmem := mem_filter.mp (mem_entries_iff.mpr hv)
    rw [if_pos hmem.2]
    exact (mem_entries_iff.mp hmem.1).symm

@[simp] theorem get?_erase_self : (m.erase k).get? k = none := by
  simp [erase, get?_filterKeys]

theorem get?_erase_ne (h : k' ≠ k) : (m.erase k).get? k' = m.get? k' := by
  simp [erase, get?_filterKeys, h]

variable {a b : List (κ × ν)}

theorem entries_insert (h : m.entries = a ++ b) (ha : ∀ e ∈ a, e.1 < k) (hb : ∀ e ∈ b, k < e.1) :
    (m.insert k v).entries = a ++ (k, v) :: b := by
  have hlow : m.entries.filter (fun e => e.1 < k) = a := by
    rw [h, filter_append, filter_eq_self.mpr fun e he => by simpa using ha e he,
      filter_eq_nil_iff.mpr fun e he => by simpa using (hb e he).le, append_nil]
  have hhigh : m.entries.filter (fun e => k < e.1) = b := by
    rw [h, filter_append, filter_eq_nil_iff.mpr fun e he => by simpa using (ha e he).le,
      filter_eq_self.mpr fun e he => by simpa using hb e he, nil_append]
  show m.entries.filter _ ++ (k, v) :: m.entries.filter _ = _
  rw [hlow, hhigh]

theorem entries_insert_of_lt (h : ∀ e ∈ m.entries, e.1 < k) :
    (m.insert k v).entries = m.entries ++ [(k, v)] :=
  entries_insert (List.append_nil _).symm h (by simp)

theorem entries_erase {e : κ × ν} (h : m.entries = a ++ e :: b) :
    (m.erase e.1).entries = a ++ b := by
  have hs := m.sorted
  show m.entries.filter (fun x => decide (x.1 ≠ e.1)) = a ++ b
  rw [h] at hs ⊢
  exact filter_ne_of_ascending hs

@[simp] theorem get?_insert_self : (m.insert k v).get? k = some v :=
  mem_entries_iff.mp (List.mem_append_right _ List.mem_cons_self)

theorem get?_insert_ne (h : k' ≠ k) : (m.insert k v).get? k' = m.get? k' := by
  have hmem : ∀ w, (k', w) ∈ (m.insert k v).entries ↔ (k', w) ∈ m.entries := by
    intro w
    simp only [insert, mem_append, mem_cons, mem_filter, Prod.mk.injEq, h,
      false_and, false_or, decide_eq_true_eq]
    constructor
    · rintro (⟨hm, -⟩ | ⟨hm, -⟩) <;> exact hm
    · intro hm
      rcases lt_or_gt_of_ne h with hlt | hlt
      · exact .inl ⟨hm, hlt⟩
      · exact .inr ⟨hm, hlt⟩
  rcases hv : m.get? k' with _ | w
  · rw [get?_eq_none_iff] at hv ⊢
    rintro ⟨_, w⟩ he rfl
    exact hv (_, w) ((hmem w).mp he) rfl
  · exact mem_entries_iff.mp ((hmem w).mpr (mem_entries_iff.mpr hv))

theorem length_entries_insert_le (m : SortedMap κ ν) (k : κ) (v : ν) :
    (m.insert k v).entries.length ≤ m.entries.length + 1 := by
  have hle : ∀ l : List (κ × ν), (l.filter fun e => decide (e.1 < k)).length +
      (l.filter fun e => decide (k < e.1)).length ≤ l.length := by
    intro l
    induction l with
    | nil => exact le_rfl
    | cons e l ih =>
      simp only [filter_cons, decide_eq_true_eq]
      rcases lt_trichotomy e.1 k with h | h | h
      · simp only [h, h.not_gt, if_true, if_false, length_cons]
        omega
      · simp only [h, lt_irrefl, if_false, length_cons]
        omega
      · simp only [h, h.not_gt, if_true, if_false, length_cons]
        omega
  have hm := hle m.entries
  show (m.entries.filter _ ++ (k, v) :: m.entries.filter _).length ≤ _
  rw [length_append, length_cons]
  omega

theorem mem_entries_insert {e : κ × ν} (h : e ∈ (m.insert k v).entries) :
    e = (k, v) ∨ e ∈ m.entries := by
  rcases mem_append.mp h with h | h
  · exact .inr (mem_filter.mp h).1
  · rcases mem_cons.mp h with h | h
    · exact .inl h
    · exact .inr (mem_filter.mp h).1

end SortedMap

end GrumpyDB
