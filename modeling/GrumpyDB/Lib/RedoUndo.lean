/-
Recovery from a log of writes with the content before and after each.

Recovery redoes the writes of the committed transactions in order, then undoes the others
backwards: one list of writes (`recoveryWrites`), of which stopping half-way does a prefix.
After it a key holds the content before the first write there that is undone, or else the
content after the last one that is redone.
-/
import Mathlib.Data.List.Induction

namespace GrumpyDB

open List Function

variable {τ κ ν : Type} [DecidableEq κ]

/-- A logged write: whose it is, where, and the content before and after it. -/
structure Logged (τ κ ν : Type) where
  tx : τ
  key : κ
  before : ν
  after : ν

/-! ### Lists of writes -/

def applyAll (ws : List (κ × ν)) (s : κ → ν) : κ → ν :=
  ws.foldl (fun s w => Function.update s w.1 w.2) s

theorem applyAll_append (ws ws' : List (κ × ν)) (s : κ → ν) :
    applyAll (ws ++ ws') s = applyAll ws' (applyAll ws s) := List.foldl_append

theorem applyAll_apply (ws : List (κ × ν)) (s : κ → ν) (k : κ) :
    applyAll ws s k = ((ws.filter fun w => w.1 = k).getLast?.map Prod.snd).getD (s k) := by
  induction ws using reverseRecOn with
  | nil => rfl
  | append_singleton ws w ih =>
    rw [applyAll_append, filter_append]
    show update (applyAll ws s) w.1 w.2 k = _
    by_cases hk : w.1 = k
    · subst hk
      rw [update_self, filter_cons_of_pos (by simp), filter_nil,
        getLast?_concat]
      rfl
    · rw [update_of_ne (fun h => hk h.symm), filter_cons_of_neg (by simp [hk]),
        filter_nil, append_nil, ih]

variable {ws : List (κ × ν)}

theorem applyAll_of_not_mem {k : κ} (h : ∀ w ∈ ws, w.1 ≠ k) (s : κ → ν) :
    applyAll ws s k = s k := by
  have hnil : (ws.filter fun w => w.1 = k) = [] := by
    rw [filter_eq_nil_iff]
    intro w hw
    simpa using h w hw
  rw [applyAll_apply, hnil]
  rfl

theorem applyAll_congr {k : κ} {s s' : κ → ν} (h : (∃ w ∈ ws, w.1 = k) ∨ s k = s' k) :
    applyAll ws s k = applyAll ws s' k := by
  rw [applyAll_apply, applyAll_apply]
  rcases h with ⟨w, hw, hk⟩ | h
  · obtain ⟨u, hu⟩ : ∃ u, (ws.filter fun w => w.1 = k).getLast? = some u := by
      refine Option.ne_none_iff_exists'.1 fun hnone => ?_
      have hnil := filter_eq_nil_iff.1 (getLast?_eq_none_iff.1 hnone) w hw
      exact hnil (decide_eq_true hk)
    rw [hu]
    rfl
  · rw [h]

/-- **A part of the writes done first changes nothing.** -/
theorem applyAll_take (ws : List (κ × ν)) (m : Nat) (s : κ → ν) :
    applyAll ws (applyAll (ws.take m) s) = applyAll ws s := by
  funext k
  refine applyAll_congr ?_
  by_cases h : ∃ w ∈ ws, w.1 = k
  · exact .inl h
  · exact .inr (applyAll_of_not_mem (fun w hw hk => h ⟨w, mem_of_mem_take hw, hk⟩) s)

/-! ### Recovery -/

variable (committed : τ → Bool)

def recoveryWrites (ws : List (Logged τ κ ν)) : List (κ × ν) :=
  ((ws.filter fun w => committed w.tx).map fun w => (w.key, w.after)) ++
    ((ws.filter fun w => !committed w.tx).reverse.map fun w => (w.key, w.before))

def firstOpen (ws : List (Logged τ κ ν)) (k : κ) : Option (Logged τ κ ν) :=
  (ws.filter fun w => !committed w.tx && w.key = k).head?

def lastCommitted (ws : List (Logged τ κ ν)) (k : κ) : Option (Logged τ κ ν) :=
  (ws.filter fun w => committed w.tx && w.key = k).getLast?

/-- The content before the first open write to a key, or else that after the last
committed one, or else `v`. -/
def recoveredContent (ws : List (Logged τ κ ν)) (k : κ) (v : ν) : ν :=
  match firstOpen committed ws k with
  | some w => w.before
  | none => ((lastCommitted committed ws k).map Logged.after).getD v

variable {committed} {ws : List (Logged τ κ ν)} {k : κ}

variable {w : Logged τ κ ν}

theorem firstOpen_mem (h : firstOpen committed ws k = some w) :
    w ∈ ws ∧ committed w.tx = false ∧ w.key = k := by
  have hmem := mem_filter.1 (mem_of_head? h)
  simpa using hmem

theorem firstOpen_eq_none : firstOpen committed ws k = none ↔
    ∀ w ∈ ws, w.key = k → committed w.tx = true := by
  rw [firstOpen, head?_eq_none_iff, filter_eq_nil_iff]
  refine forall₂_congr fun w _ => ?_
  cases committed w.tx <;> simp

theorem lastCommitted_mem (h : lastCommitted committed ws k = some w) :
    w ∈ ws ∧ committed w.tx = true ∧ w.key = k := by
  have hmem := mem_filter.1 (mem_of_getLast? h)
  simpa using hmem

/-- **What recovery leaves at a key.** -/
theorem applyAll_recoveryWrites (s : κ → ν) :
    applyAll (recoveryWrites committed ws) s k = recoveredContent committed ws k (s k) := by
  have hredo : (((ws.filter fun w => committed w.tx).map fun w => (w.key, w.after)).filter
      fun w => w.1 = k) =
      (ws.filter fun w => committed w.tx && w.key = k).map fun w => (w.key, w.after) := by
    rw [filter_map, filter_filter]
    congr 2
    funext w
    exact Bool.and_comm _ _
  have hundo : (((ws.filter fun w => !committed w.tx).reverse.map fun w => (w.key, w.before)).filter
      fun w => w.1 = k) =
      (ws.filter fun w => !committed w.tx && w.key = k).reverse.map fun w => (w.key, w.before) := by
    rw [filter_map, filter_reverse, filter_filter]
    congr 3
    funext w
    exact Bool.and_comm _ _
  rw [recoveryWrites, applyAll_append, applyAll_apply _ (applyAll _ s), applyAll_apply _ s, hredo,
    hundo, getLast?_map, getLast?_reverse, getLast?_map]
  rw [← firstOpen, ← lastCommitted, recoveredContent]
  cases firstOpen committed ws k with
  | some w => rfl
  | none => cases lastCommitted committed ws k <;> rfl

theorem recoveredContent_of_not_mem (h : ∀ w ∈ ws, w.key ≠ k) (v : ν) :
    recoveredContent committed ws k v = v := by
  have hopen : firstOpen committed ws k = none :=
    firstOpen_eq_none.2 fun w hw hk => absurd hk (h w hw)
  rw [recoveredContent, hopen]
  rcases hlast : lastCommitted committed ws k with _ | w
  · rfl
  · obtain ⟨hw, -, hk⟩ := lastCommitted_mem hlast
    exact absurd hk (h w hw)

/-! ### Images the wrong way round -/

def Logged.swap (w : Logged τ κ ν) : Logged τ κ ν := ⟨w.tx, w.key, w.after, w.before⟩

def deciding (committed : τ → Bool) (ws : List (Logged τ κ ν)) (k : κ) : Option (Logged τ κ ν) :=
  (firstOpen committed ws k).or (lastCommitted committed ws k)

theorem deciding_mem (h : deciding committed ws k = some w) : w ∈ ws := by
  rcases Option.or_eq_some_iff.1 h with h | ⟨-, h⟩
  · exact (firstOpen_mem h).1
  · exact (lastCommitted_mem h).1

theorem firstOpen_map_swap (committed : τ → Bool) (ws : List (Logged τ κ ν)) (k : κ) :
    firstOpen committed (ws.map Logged.swap) k = (firstOpen committed ws k).map Logged.swap := by
  rw [firstOpen, filter_map, head?_map]
  rfl

theorem lastCommitted_map_swap (committed : τ → Bool) (ws : List (Logged τ κ ν)) (k : κ) :
    lastCommitted committed (ws.map Logged.swap) k
      = (lastCommitted committed ws k).map Logged.swap := by
  rw [lastCommitted, filter_map, getLast?_map]
  rfl

theorem recoveredContent_map_swap {v : ν} :
    recoveredContent committed (ws.map Logged.swap) k v = recoveredContent committed ws k v ↔
      ∀ w ∈ deciding committed ws k, w.before = w.after := by
  rw [recoveredContent, recoveredContent, deciding, firstOpen_map_swap, lastCommitted_map_swap]
  rcases firstOpen committed ws k with _ | w
  · rcases lastCommitted committed ws k with _ | w
    · simp
    · simp [Logged.swap]
  · simp [Logged.swap, eq_comm]

/-! ### Logs of a run -/

/-- The logged content before each write is what the run had there at that time. -/
def History : (κ → ν) → List (Logged τ κ ν) → Prop
  | _, [] => True
  | s, w :: ws => w.before = s w.key ∧ History (Function.update s w.key w.after) ws

omit [DecidableEq κ] in
/-- The writes of a run, as they were done. -/
def forward (ws : List (Logged τ κ ν)) : List (κ × ν) := ws.map fun w => (w.key, w.after)

variable {ws' : List (Logged τ κ ν)}

theorem History.before {s : κ → ν} (h : History s (ws ++ w :: ws')) :
    w.before = applyAll (forward ws) s w.key := by
  induction ws generalizing s with
  | nil => exact h.1
  | cons u ws ih => exact ih h.2

/-- The content after the last committed write to a key, or the content before the
log. -/
def committedContent (committed : τ → Bool) (ws : List (Logged τ κ ν)) (s : κ → ν) (k : κ) : ν :=
  ((lastCommitted committed ws k).map Logged.after).getD (s k)

/-- No committed write comes after one that is not. -/
def OpenLast (committed : τ → Bool) (ws : List (Logged τ κ ν)) : Prop :=
  ws.Pairwise fun w u => committed w.tx = false → committed u.tx = false

theorem OpenLast.content (hlast : OpenLast committed (ws ++ w :: ws'))
    (hw : committed w.tx = false) (hfirst : ∀ u ∈ ws, u.key = w.key → committed u.tx = true)
    (s : κ → ν) :
    applyAll (forward ws) s w.key =
      committedContent committed (ws ++ w :: ws') s w.key := by
  -- all writes to the key before `w` are committed, none after it is
  have hbefore : (ws.filter fun u => committed u.tx && u.key = w.key) =
      ws.filter fun u => u.key = w.key := by
    refine filter_congr fun u hu => ?_
    by_cases hk : u.key = w.key
    · simp [hfirst u hu hk]
    · simp [hk]
  have hafter : ((w :: ws').filter fun u => committed u.tx && u.key = w.key) = [] := by
    rw [filter_eq_nil_iff]
    intro u hu
    have hopen : committed u.tx = false := by
      rcases mem_cons.1 hu with rfl | hu
      · exact hw
      · exact (pairwise_cons.1 (pairwise_append.1 hlast).2.1).1 u hu hw
    simp [hopen]
  rw [committedContent, lastCommitted, filter_append, hafter, append_nil, hbefore,
    applyAll_apply, forward, filter_map, getLast?_map, Option.map_map]
  rfl

/-- **Recovery of a log whose open writes come last** leaves each logged key with the
content after its last committed write. -/
theorem applyAll_recoveryWrites_of_openLast {base s : κ → ν} (hhistory : History base ws)
    (hlast : OpenLast committed ws) (hk : ∃ w ∈ ws, w.key = k) :
    applyAll (recoveryWrites committed ws) s k = committedContent committed ws base k := by
  rw [applyAll_recoveryWrites, recoveredContent]
  rcases hopen : firstOpen committed ws k with _ | w
  · -- a logged key without an open write has a committed one
    obtain ⟨w, hw, rfl⟩ := hk
    have hw' := firstOpen_eq_none.1 hopen w hw rfl
    obtain ⟨u, hu⟩ : ∃ u, lastCommitted committed ws w.key = some u := by
      refine Option.ne_none_iff_exists'.1 fun hnone => ?_
      have hnil := filter_eq_nil_iff.1 (getLast?_eq_none_iff.1 hnone) w hw
      simp [hw'] at hnil
    rw [committedContent, hu]
    rfl
  · show w.before = _
    obtain ⟨-, hw, rfl⟩ := firstOpen_mem hopen
    rw [firstOpen, head?_filter, find?_eq_some_iff_append] at hopen
    obtain ⟨-, before, after, rfl, hnone⟩ := hopen
    rw [hhistory.before, hlast.content hw]
    intro u hu hkey
    simpa [hkey] using hnone u hu

end GrumpyDB
