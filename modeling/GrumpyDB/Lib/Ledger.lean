/-
Replicas of one growing log.

A replica that has reached version `v` holds the entries up to `v` (`Cut`). It catches up by
pieces of the ledger that start inside what it holds; taking one in entry by entry is harmless
on the part it holds already and extends it on the rest (`absorb`).
-/
import Mathlib.Tactic.Ring
import Mathlib.Data.List.Infix

namespace GrumpyDB

open List

variable {E V : Type} [LinearOrder V] {version : E → V}

/-- `held` is what the ledger has up to version `v`. -/
structure Cut (version : E → V) (ledger : List E) (v : V) (held : List E) : Prop where
  upTo : ∀ e ∈ held, version e ≤ v
  rest : ∃ later, ledger = held ++ later ∧ ∀ e ∈ later, v < version e

namespace Cut

variable {ledger held held' : List E} {v w : V}

theorem isPrefix (h : Cut version ledger v held) : held <+: ledger := by
  obtain ⟨later, rfl, -⟩ := h.rest
  exact prefix_append held later

theorem mono (h : Cut version ledger v held) (h' : Cut version ledger w held') (hvw : v ≤ w) :
    held <+: held' := by
  rcases prefix_or_prefix_of_prefix h.isPrefix h'.isPrefix with hp | hp
  · exact hp
  obtain ⟨extra, rfl⟩ := hp
  obtain ⟨later, rfl, -⟩ := h.rest
  obtain ⟨later', heq, hlater'⟩ := h'.rest
  rw [append_assoc, append_cancel_left_eq] at heq
  -- an entry of `extra` would be up to `v` and above `w`
  rcases extra with _ | ⟨e, extra⟩
  · simp
  · have hle : version e ≤ v := h.upTo e (by simp)
    have hlt : w < version e := hlater' e (by simp [← heq])
    exact absurd (hle.trans hvw) hlt.not_ge

theorem unique (h : Cut version ledger v held) (h' : Cut version ledger v held') :
    held = held' :=
  (h.mono h' le_rfl).eq_of_length_le (h'.mono h le_rfl).length_le

theorem append {more : List E} (h : Cut version ledger v held)
    (hmore : ∀ e ∈ more, v < version e) : Cut version (ledger ++ more) v held := by
  obtain ⟨later, rfl, hlater⟩ := h.rest
  refine ⟨h.upTo, later ++ more, append_assoc .., ?_⟩
  intro e he
  rcases mem_append.mp he with he | he
  · exact hlater e he
  · exact hmore e he

theorem filter_after (h : Cut version ledger v held) (h' : Cut version ledger w held') :
    held ++ held'.filter (fun e => v < version e) <+: ledger := by
  obtain ⟨later, rfl, hlater⟩ := h.rest
  rcases prefix_or_prefix_of_prefix h.isPrefix h'.isPrefix with hp | hp
  · obtain ⟨extra, rfl⟩ := hp
    have hheld : held.filter (fun e => v < version e) = [] := by
      refine filter_eq_nil_iff.mpr fun e he => ?_
      simpa using h.upTo e he
    obtain ⟨later', heq, -⟩ := h'.rest
    rw [append_assoc, append_cancel_left_eq] at heq
    have hextra : extra.filter (fun e => v < version e) = extra := by
      refine filter_eq_self.mpr fun e he => ?_
      simpa using hlater e (by simp [heq, he])
    rw [filter_append, hheld, hextra, heq, prefix_append_right_inj]
    exact prefix_append extra later'
  · have hnil : held'.filter (fun e => v < version e) = [] := by
      refine filter_eq_nil_iff.mpr fun e he => ?_
      simpa using h.upTo e (hp.subset he)
    rw [hnil, append_nil]
    exact prefix_append held later

theorem extend {e : E} (h : Cut version ledger v held)
    (hsorted : ledger.Pairwise fun a b => version a < version b) (hnext : held ++ [e] <+: ledger)
    (hv : v ≤ version e) : Cut version ledger (version e) (held ++ [e]) := by
  obtain ⟨later, rfl⟩ := hnext
  refine ⟨?_, later, rfl, ?_⟩
  · intro x hx
    rcases mem_append.mp hx with hx | hx
    · exact (h.upTo x hx).trans hv
    · exact (mem_singleton.mp hx).symm ▸ le_rfl
  · intro x hx
    exact (pairwise_append.mp hsorted).2.2 e (by simp) x hx

theorem next_cases {start : List E} {e : E} (h : Cut version ledger v held)
    (hstart : start <+: held) (hnext : start ++ [e] <+: ledger) :
    (version e ≤ v ∧ start ++ [e] <+: held) ∨ (v < version e ∧ start = held) := by
  rcases prefix_or_prefix_of_prefix hnext h.isPrefix with hin | hout
  · exact .inl ⟨h.upTo e (hin.subset (by simp)), hin⟩
  · rcases prefix_concat_iff.mp hout with heq | hback
    · exact .inl ⟨h.upTo e (by simp [heq]), heq ▸ prefix_rfl⟩
    · obtain rfl : start = held := hstart.eq_of_length_le hback.length_le
      obtain ⟨later, hledger, hlater⟩ := h.rest
      have he : e ∈ later := by
        rw [hledger, prefix_append_right_inj] at hnext
        exact hnext.subset (by simp)
      exact .inr ⟨hlater e he, rfl⟩

end Cut

theorem filter_lt_append_filter_ge {ledger : List E} (v : V)
    (h : ledger.Pairwise fun a b => version a < version b) :
    ledger.filter (fun e => version e < v) ++ ledger.filter (fun e => v ≤ version e) = ledger := by
  induction ledger with
  | nil => rfl
  | cons e ledger ih =>
    obtain ⟨hhead, htail⟩ := pairwise_cons.mp h
    by_cases hlt : version e < v
    · rw [filter_cons_of_pos (by simpa using hlt),
        filter_cons_of_neg (by simpa using hlt), cons_append, ih htail]
    · have hge : v ≤ version e := le_of_not_gt hlt
      have hnone : ledger.filter (fun x => version x < v) = [] :=
        filter_eq_nil_iff.mpr fun x hx => by simpa using hge.trans (hhead x hx).le
      have hall : ledger.filter (fun x => v ≤ version x) = ledger :=
        filter_eq_self.mpr fun x hx => by simpa using hge.trans (hhead x hx).le
      rw [filter_cons_of_neg (by simpa using hge),
        filter_cons_of_pos (by simpa using hge), hnone, hall, nil_append]

theorem Cut.filter_lt_prefix {ledger held : List E} {v : V} (h : Cut version ledger v held)
    (hsorted : ledger.Pairwise fun a b => version a < version b) :
    ledger.filter (fun e => version e < v) <+: held := by
  obtain ⟨later, hledger, hlater⟩ := h.rest
  have hnone : later.filter (fun e => version e < v) = [] :=
    filter_eq_nil_iff.mpr fun e he => by simpa using (hlater e he).le
  rw [hledger, filter_append, hnone, append_nil]
  rw [hledger] at hsorted
  exact ⟨_, filter_lt_append_filter_ge v (pairwise_append.mp hsorted).1⟩

/-! ### Taking in a segment -/

section Absorb

variable {S : Type} {apply : S → E → S} (Holds : S → List E → Prop) {ledger : List E}

/-- **Catching up.**  A replica that takes in a piece of the ledger which starts
inside what it holds ends up holding a prefix with the piece in it. -/
theorem absorb
    (hold : ∀ s held e, Holds s held → e ∈ held → Holds (apply s e) held)
    (hnew : ∀ s held e, Holds s held → held ++ [e] <+: ledger → Holds (apply s e) (held ++ [e]))
    {start held segment : List E} {s : S} (hs : Holds s held) (hheld : held <+: ledger)
    (hstart : start <+: held) (hsegment : start ++ segment <+: ledger) :
    ∃ held', Holds (segment.foldl apply s) held' ∧ held <+: held' ∧ held' <+: ledger := by
  induction segment generalizing start held s with
  | nil => exact ⟨held, hs, prefix_rfl, hheld⟩
  | cons e segment ih =>
    have hnext : start ++ [e] <+: ledger := by
      refine List.IsPrefix.trans ?_ hsegment
      simp
    rw [← singleton_append, ← append_assoc] at hsegment
    rcases prefix_or_prefix_of_prefix hnext hheld with hin | hout
    · -- the entry is one the replica holds
      have he : e ∈ held := hin.subset (by simp)
      exact ih (hold s held e hs he) hheld hin hsegment
    · -- the replica holds what precedes the entry, or the entry as well
      rcases prefix_concat_iff.mp hout with heq | hback
      · have he : e ∈ held := by simp [heq]
        exact ih (hold s held e hs he) hheld (heq ▸ prefix_rfl) hsegment
      · obtain rfl : start = held := hstart.eq_of_length_le hback.length_le
        obtain ⟨held', hs', hp, hl⟩ := ih (hnew s start e hs hnext) hnext prefix_rfl hsegment
        exact ⟨held', hs', (prefix_append start [e]).trans hp, hl⟩

end Absorb

end GrumpyDB
