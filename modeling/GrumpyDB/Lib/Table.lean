/-
Finite maps as lists of entries with distinct keys.

`Table κ ν` is what a hash map holds; nothing depends on the order of the entries.
-/
import Mathlib.Tactic.Ring
import Mathlib.Data.List.Nodup

namespace GrumpyDB

open List

variable {κ ν : Type} [DecidableEq κ]

@[ext] structure Table (κ ν : Type) where
  entries : List (κ × ν)
  nodup : (entries.map Prod.fst).Nodup
  deriving DecidableEq

namespace Table

/-- The map without entries. -/
def empty : Table κ ν := ⟨[], List.nodup_nil⟩

def get? (t : Table κ ν) (k : κ) : Option ν :=
  (t.entries.find? fun e => e.1 = k).map Prod.snd

def erase (t : Table κ ν) (k : κ) : Table κ ν :=
  ⟨t.entries.filter fun e => e.1 ≠ k, t.nodup.sublist (List.filter_sublist.map _)⟩

def insert (t : Table κ ν) (k : κ) (v : ν) : Table κ ν where
  entries := (k, v) :: (t.erase k).entries
  nodup := by
    refine nodup_cons.mpr ⟨?_, (t.erase k).nodup⟩
    simp [erase]

def keys (t : Table κ ν) : List κ := t.entries.map Prod.fst

variable {t : Table κ ν} {k k' : κ} {v : ν}

@[simp] theorem get?_empty : (empty : Table κ ν).get? k = none := rfl

@[simp] theorem get?_insert_self : (t.insert k v).get? k = some v := by
  simp [get?, insert]

theorem get?_erase_ne (h : k' ≠ k) : (t.erase k).get? k' = t.get? k' := by
  simp only [get?, erase, find?_filter]
  congr 2
  funext e
  by_cases he : e.1 = k'
  · simp [he, h]
  · simp [he]

@[simp] theorem get?_erase_self : (t.erase k).get? k = none := by
  simp [get?, erase]

theorem get?_insert_ne (h : k' ≠ k) : (t.insert k v).get? k' = t.get? k' := by
  calc (t.insert k v).get? k' = (t.erase k).get? k' := by simp [get?, insert, h.symm]
    _ = t.get? k' := get?_erase_ne h

theorem mem_entries_iff : (k, v) ∈ t.entries ↔ t.get? k = some v := by
  constructor
  · intro h
    rcases hf : t.entries.find? (fun e => e.1 = k) with _ | e
    · have := find?_eq_none.mp hf (k, v) h
      simp at this
    · have hmem := mem_of_find?_eq_some hf
      have hkey : e.1 = k := by simpa using find?_some hf
      have : e = (k, v) := inj_on_of_nodup_map t.nodup hmem h hkey
      rw [get?, hf, this]
      rfl
  · intro h
    obtain ⟨e, hf, rfl⟩ := Option.map_eq_some_iff.mp h
    have hkey : e.1 = k := by simpa using find?_some hf
    exact hkey ▸ mem_of_find?_eq_some hf

end Table

end GrumpyDB
