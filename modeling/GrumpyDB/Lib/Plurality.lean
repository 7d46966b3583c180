/-
Plurality vote.

The candidates are gone through in order, keeping the one with the most votes, and of those with
equally many the greatest.
-/
import GrumpyDB.Lib.SortedMap
import Mathlib.Data.List.Count
import Mathlib.Data.Prod.Lex

namespace GrumpyDB

open List SortedMap

variable {κ : Type} [LinearOrder κ]

def tally (votes : List κ) : SortedMap κ Nat :=
  votes.foldl (fun counts v => counts.insert v ((counts.get? v).getD 0 + 1)) SortedMap.empty

def better (best e : κ × Nat) : κ × Nat :=
  if best.2 < e.2 ∨ (e.2 = best.2 ∧ best.1 < e.1) then e else best

/-- The candidate with the most votes, of those the greatest; `none_` without votes. -/
def plurality (none_ : κ) (votes : List κ) : κ :=
  ((tally votes).entries.foldl better (none_, 0)).1

def Wins (v : κ) (votes : List κ) : Prop :=
  v ∈ votes ∧ ∀ u ∈ votes, u ≠ v →
    votes.count u < votes.count v ∨ (votes.count u = votes.count v ∧ u < v)

instance decidableWins (v : κ) (votes : List κ) : Decidable (Wins v votes) :=
  inferInstanceAs (Decidable (_ ∧ _))

/-! ### Counting -/

theorem getD_foldl_insert (votes : List κ) (m : SortedMap κ Nat) (v : κ) :
    ((votes.foldl (fun counts u => counts.insert u ((counts.get? u).getD 0 + 1)) m).get? v).getD 0 =
      (m.get? v).getD 0 + votes.count v := by
  induction votes generalizing m with
  | nil => simp
  | cons u votes ih =>
    rw [foldl_cons, ih]
    by_cases h : v = u
    · subst h
      rw [get?_insert_self, count_cons_self, Option.getD_some]
      omega
    · rw [get?_insert_ne h, count_cons_of_ne (Ne.symm h)]

theorem isSome_foldl_insert (votes : List κ) (m : SortedMap κ Nat) (v : κ) :
    ((votes.foldl (fun counts u => counts.insert u ((counts.get? u).getD 0 + 1)) m).get? v).isSome ↔
      (m.get? v).isSome ∨ v ∈ votes := by
  induction votes generalizing m with
  | nil => simp
  | cons u votes ih =>
    rw [foldl_cons, ih]
    by_cases h : v = u
    · subst h
      simp [get?_insert_self]
    · simp [get?_insert_ne h, h]

variable {votes : List κ}

theorem mem_entries_tally {e : κ × Nat} :
    e ∈ (tally votes).entries ↔ e.1 ∈ votes ∧ e.2 = votes.count e.1 := by
  obtain ⟨v, n⟩ := e
  rw [mem_entries_iff]
  have hcount := getD_foldl_insert votes empty v
  have hsome := isSome_foldl_insert votes empty v
  rw [get?_empty, Option.getD_none] at hcount
  change ((tally votes).get? v).getD 0 = _ at hcount
  change ((tally votes).get? v).isSome ↔ _ at hsome
  rcases hget : (tally votes).get? v with _ | k
  · rw [hget] at hsome
    simp at hsome
    simp [hsome]
  · rw [hget] at hsome hcount
    simp at hsome hcount
    simp [hsome, ← hcount, eq_comm]

/-! ### The winner -/

/-- Candidates in the order in which they win: by votes, then by themselves. -/
def rank (e : κ × Nat) : Nat ×ₗ κ := toLex (e.2, e.1)

theorem rank_better (best e : κ × Nat) : rank (better best e) = max (rank best) (rank e) := by
  have hlt : rank best < rank e ↔ best.2 < e.2 ∨ (e.2 = best.2 ∧ best.1 < e.1) := by
    simp [rank, Prod.Lex.toLex_lt_toLex, eq_comm]
  unfold better
  split
  · rename_i h
    exact (max_eq_right (hlt.mpr h).le).symm
  · rename_i h
    exact (max_eq_left (not_lt.mp (mt hlt.mp h))).symm

theorem foldl_better (entries : List (κ × Nat)) (best : κ × Nat) :
    (entries.foldl better best = best ∨ entries.foldl better best ∈ entries) ∧
      rank best ≤ rank (entries.foldl better best) ∧
      ∀ e ∈ entries, rank e ≤ rank (entries.foldl better best) := by
  induction entries generalizing best with
  | nil => simp
  | cons e entries ih =>
    obtain ⟨hmem, hle, hall⟩ := ih (better best e)
    rw [rank_better] at hle
    rw [foldl_cons]
    refine ⟨?_, (le_max_left _ _).trans hle, ?_⟩
    · rcases hmem with hmem | hmem
      · rw [hmem]
        unfold better
        split
        · exact Or.inr mem_cons_self
        · exact Or.inl rfl
      · exact Or.inr (mem_cons_of_mem _ hmem)
    · intro e' he'
      rcases mem_cons.mp he' with rfl | he'
      · exact (le_max_right _ _).trans hle
      · exact hall e' he'

/-- **The winner of a vote with votes wins.** -/
theorem wins_plurality (none_ : κ) (hne : votes ≠ []) : Wins (plurality none_ votes) votes := by
  obtain ⟨u, hu⟩ := exists_mem_of_ne_nil votes hne
  obtain ⟨hmem, -, hall⟩ := foldl_better (tally votes).entries (none_, 0)
  unfold plurality
  set best := (tally votes).entries.foldl better (none_, 0) with hbest
  -- nobody without votes wins against somebody with one
  have hin : best ∈ (tally votes).entries := by
    rcases hmem with hmem | hmem
    · have hu' := hall (u, votes.count u) (mem_entries_tally.mpr ⟨hu, rfl⟩)
      have hpos := count_pos_iff.mpr hu
      rw [hmem] at hu'
      simp [rank, Prod.Lex.toLex_le_toLex] at hu'
      omega
    · exact hmem
  obtain ⟨hvoted, hcount⟩ := mem_entries_tally.mp hin
  refine ⟨hvoted, ?_⟩
  intro w hw hne'
  have hle := hall (w, votes.count w) (mem_entries_tally.mpr ⟨hw, rfl⟩)
  simp only [rank, Prod.Lex.toLex_le_toLex] at hle
  rw [← hcount]
  rcases hle with hlt | ⟨heq, hle⟩
  · exact Or.inl hlt
  · exact Or.inr ⟨heq, lt_of_le_of_ne hle hne'⟩

theorem Wins.eq {v w : κ} (hv : Wins v votes) (hw : Wins w votes) : v = w := by
  by_contra hne
  rcases hv.2 w hw.1 (Ne.symm hne) with h | ⟨h, h'⟩
  · rcases hw.2 v hv.1 hne with h₂ | ⟨h₂, -⟩ <;> omega
  · rcases hw.2 v hv.1 hne with h₂ | ⟨-, h₂⟩
    · omega
    · exact absurd h' h₂.not_gt

theorem plurality_eq_iff (none_ : κ) (hne : votes ≠ []) {v : κ} :
    plurality none_ votes = v ↔ Wins v votes := by
  constructor
  · rintro rfl
    exact wins_plurality none_ hne
  · exact fun h => (wins_plurality none_ hne).eq h

end GrumpyDB
