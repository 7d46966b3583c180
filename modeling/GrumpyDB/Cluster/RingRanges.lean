/-
The ranges that a change of the ring reports.

The owners are sampled at every position of a virtual node, and a sample stands for the
positions from there up to the next one (`sweep_spec`). But a virtual node owns the positions
before it, not those after it (`change_between`).
-/
import GrumpyDB.Cluster.RingChange
import Mathlib.Data.List.Dedup
import Mathlib.Data.List.Sort

namespace GrumpyDB

open List

/-! ### The report -/

/-- A range of positions, with its previous owner, if it had one, and its new owner. -/
structure KeyRange where
  startInclusive : UInt64
  endExclusive : UInt64
  /-- `from` in the source. -/
  source : Option String
  /-- `to` in the source. -/
  target : String
  deriving DecidableEq

def U64_MAX : UInt64 := 18446744073709551615

open scoped GrumpyDB.Ring

variable {ν : Type} [LinearOrder ν] [ToString ν]

/-- The owner of a position by bisection: the virtual node found there or after it, and
the first one past the end. -/
def ownersAt (snap : List (UInt64 × ν)) (pos : UInt64) : Option ν :=
  let i := bisect (fun vn => compare vn.1 pos) snap
  if i = snap.length then snap.head?.map Prod.snd else snap[i]?.map Prod.snd

def boundaries (before after : List (UInt64 × ν)) : List UInt64 :=
  ((before ++ after).map Prod.fst ++ [0, U64_MAX]).dedup.insertionSort (· ≤ ·)

/-- Append a range, merged with the last one if that ends where it begins and has the
same owners. -/
def pushRange (out : List KeyRange) (k : KeyRange) : List KeyRange :=
  match out.getLast? with
  | none => out ++ [k]
  | some last =>
    if last.endExclusive = k.startInclusive ∧ last.source = k.source ∧ last.target = k.target then
      out.dropLast ++ [{ last with endExclusive := k.endExclusive }]
    else out ++ [k]

/-- From boundary to boundary: the owners at the start of each segment, before and after. -/
def sweep (before after : List (UInt64 × ν)) : List UInt64 → List KeyRange → List KeyRange
  | start :: stop :: rest, out =>
    let beforeOwner := ownersAt before start
    let afterOwner := ownersAt after start
    if beforeOwner = afterOwner then sweep before after (stop :: rest) out
    else
      match afterOwner with
      | none => sweep before after (stop :: rest) out
      | some owner =>
        sweep before after (stop :: rest)
          (pushRange out ⟨start, stop, beforeOwner.map toString, toString owner⟩)
  | _, out => out

def diffOwners (before after : List (UInt64 × ν)) : List KeyRange :=
  match before, after with
  | [], [] => []
  | [], vn :: _ => [⟨0, U64_MAX, none, toString vn.2⟩]
  | _ :: _, [] => []
  | _ :: _, _ :: _ => sweep before after (boundaries before after) []

def Ring.addNodeRanges (r : Ring ν) (node : ν) : List KeyRange :=
  if node ∈ r.physicalNodes then [] else diffOwners r.vnodes (r.addNode node).vnodes

def Ring.removeNodeRanges (r : Ring ν) (node : ν) : List KeyRange :=
  if node ∈ r.physicalNodes then diffOwners r.vnodes (r.removeNode node).vnodes else []

/-! ### What should be reported -/

/-- The owner of a position: that of the first virtual node at it or after it, or else
of the first one on the circle. -/
def primaryOwner (l : List (UInt64 × ν)) (pos : UInt64) : Option ν :=
  ((l.find? fun vn => pos ≤ vn.1).or l.head?).map Prod.snd

def KeyRange.Covers (k : KeyRange) (pos : UInt64) : Prop :=
  k.startInclusive ≤ pos ∧ pos < k.endExclusive

/-- The ranges are disjoint, they are where the owner has changed, and they tell the
owners. -/
structure Reports (before after : List (UInt64 × ν)) (ranges : List KeyRange) : Prop where
  disjoint : ranges.Pairwise fun k k' => ∀ pos, ¬ (k.Covers pos ∧ k'.Covers pos)
  moved : ∀ pos, pos < U64_MAX → ((∃ k ∈ ranges, k.Covers pos) ↔
    primaryOwner before pos ≠ primaryOwner after pos)
  owners : ∀ k ∈ ranges, ∀ pos, k.Covers pos →
    k.source = (primaryOwner before pos).map toString ∧
      some k.target = (primaryOwner after pos).map toString

def change (before after : List (UInt64 × ν)) (pos : UInt64) :
    Option (Option String × Option String) :=
  if primaryOwner before pos = primaryOwner after pos then none
  else some ((primaryOwner before pos).map toString, (primaryOwner after pos).map toString)

def Consecutive {α : Type} (l : List α) (a b : α) : Prop := ∃ xs ys, l = xs ++ a :: b :: ys

/-- Wherever there are positions between two neighbouring samples, the two have changed
alike. -/
def SampledAlike (before after : List (UInt64 × ν)) : Prop :=
  ∀ b b', Consecutive (boundaries before after) b b' → b.toNat + 1 < b'.toNat →
    change before after b = change before after b'

/-! ### Owners -/

variable {before after l : List (UInt64 × ν)} {pos : UInt64}

/-- Sorted by position, and no position shared by two nodes. -/
structure Placed (l : List (UInt64 × ν)) : Prop where
  sorted : l.Pairwise fun a b => a.1 ≤ b.1
  apart : ∀ a ∈ l, ∀ b ∈ l, a.1 = b.1 → a.2 = b.2

omit [LinearOrder ν] [ToString ν] in
theorem ownersAt_eq (h : Placed l) (pos : UInt64) : ownersAt l pos = primaryOwner l pos := by
  obtain ⟨hle, hbefore, -, hat, hhit⟩ := bisect_spec (Ascends.of_sorted h.sorted pos)
  rw [ownersAt, primaryOwner]
  generalize bisect (fun vn => compare vn.1 pos) l = i at hle hbefore hat hhit ⊢
  by_cases hend : i = l.length
  · -- past the end: every virtual node is before the position
    have hlt : ∀ vn ∈ l, ¬ pos ≤ vn.1 := by
      intro vn hvn
      obtain ⟨j, hj⟩ := getElem?_of_mem hvn
      have hji : j < i := hend ▸ (List.getElem?_eq_some_iff.mp hj).1
      rcases hhit with ⟨a, ha, -⟩ | hall
      · rw [hend, getElem?_eq_none le_rfl] at ha
        cases ha
      · exact not_le.mpr (compare_lt_iff_lt.mp (hall j vn hji hj))
    have hnone : l.find? (fun vn => pos ≤ vn.1) = none := by
      simpa [find?_eq_none] using hlt
    rw [if_pos hend, hnone, Option.none_or]
  · have hi : i < l.length := lt_of_le_of_ne hle hend
    have hget : l[i]? = some l[i] := getElem?_eq_getElem hi
    have hge : pos ≤ l[i].1 := compare_ge_iff_ge.mp (hat _ hget)
    obtain ⟨vn, hvn⟩ : ∃ vn, l.find? (fun vn => pos ≤ vn.1) = some vn :=
      Option.isSome_iff_exists.mp (find?_isSome.mpr ⟨l[i], getElem_mem hi, by simpa using hge⟩)
    obtain ⟨hpos, j, hj, rfl, hfirst⟩ := find?_eq_some_iff_getElem.mp hvn
    rw [decide_eq_true_eq] at hpos
    have hji : j ≤ i := by
      by_contra hlt
      simpa [hge] using hfirst i (not_le.mp hlt)
    rw [if_neg hend, hget, hvn, Option.some_or]
    -- the first match has the position of the last one, if it is not the same
    rcases hji.lt_or_eq with hlt | rfl
    · have hjget : l[j]? = some l[j] := getElem?_eq_getElem hj
      have hjle : l[j].1 ≤ pos := compare_le_iff_le.mp (hbefore j _ hlt hjget)
      rcases hhit with ⟨a, ha, heq⟩ | hall
      · obtain rfl := Option.some.inj (hget.symm.trans ha)
        have hsame : l[i].1 = l[j].1 :=
          (compare_eq_iff_eq.mp heq).trans (le_antisymm hpos hjle)
        exact congrArg some (h.apart _ (getElem_mem hi) _ (getElem_mem hj) hsame)
      · exact absurd (compare_lt_iff_lt.mp (hall j _ hlt hjget)) (not_lt.mpr hpos)
    · rfl

omit [LinearOrder ν] [ToString ν] in
theorem primaryOwner_congr {q : UInt64} (h : ∀ vn ∈ l, pos ≤ vn.1 ↔ q ≤ vn.1) :
    primaryOwner l pos = primaryOwner l q := by
  have hfind : l.find? (fun vn => pos ≤ vn.1) = l.find? (fun vn => q ≤ vn.1) := by
    rw [← head?_filter, ← head?_filter,
      filter_congr fun vn hvn => decide_eq_decide.mpr (h vn hvn)]
  rw [primaryOwner, primaryOwner, hfind]

/-! ### Samples -/

omit [LinearOrder ν] [ToString ν] in
theorem boundaries_sorted (before after : List (UInt64 × ν)) :
    (boundaries before after).Pairwise (· < ·) := by
  have hle : (boundaries before after).Pairwise (· ≤ ·) := pairwise_insertionSort _ _
  have hnodup : (boundaries before after).Nodup :=
    (perm_insertionSort _ _).nodup_iff.mpr (nodup_dedup _)
  exact (hle.and hnodup).imp fun h => lt_of_le_of_ne h.1 h.2

omit [LinearOrder ν] [ToString ν] in
theorem mem_boundaries {p : UInt64} : p ∈ boundaries before after ↔
    (∃ vn, (vn ∈ before ∨ vn ∈ after) ∧ vn.1 = p) ∨ p = 0 ∨ p = U64_MAX := by
  simp [boundaries, exists_or, or_assoc]

theorem Consecutive.between {l : List UInt64} {b b' q : UInt64} (h : Consecutive l b b')
    (hl : l.Pairwise (· < ·)) (hq : q ∈ l) : b < b' ∧ (b < q → b' ≤ q) := by
  obtain ⟨xs, ys, rfl⟩ := h
  rw [pairwise_append, pairwise_cons, pairwise_cons] at hl
  obtain ⟨-, ⟨hb, hb', -⟩, hxs⟩ := hl
  refine ⟨hb b' mem_cons_self, fun hlt => ?_⟩
  simp only [mem_append, mem_cons] at hq
  rcases hq with hq | rfl | rfl | hq
  · exact absurd (hxs q hq b mem_cons_self) (not_lt.mpr hlt.le)
  · exact absurd hlt (lt_irrefl _)
  · exact le_rfl
  · exact (hb' q hq).le

theorem change_between {b b' : UInt64} (h : Consecutive (boundaries before after) b b')
    (hb : b < pos) (hb' : pos ≤ b') : change before after pos = change before after b' := by
  have hsame : ∀ vn, vn ∈ before ∨ vn ∈ after → (pos ≤ vn.1 ↔ b' ≤ vn.1) := by
    intro vn hvn
    constructor
    · intro hle
      exact (h.between (boundaries_sorted before after)
        (mem_boundaries.mpr (.inl ⟨vn, hvn, rfl⟩))).2
        (lt_of_lt_of_le hb hle)
    · exact fun hle => hb'.trans hle
  rw [change, change, primaryOwner_congr fun vn hvn => hsame vn (.inl hvn),
    primaryOwner_congr fun vn hvn => hsame vn (.inr hvn)]

/-! ### What is reported -/

/-- A position is reported, with its owners. -/
def Reported (out : List KeyRange) (pos : UInt64) (source : Option String) (target : String) :
    Prop :=
  ∃ k ∈ out, k.Covers pos ∧ k.source = source ∧ k.target = target

/-- The ranges so far: one after the other, up to a boundary. -/
structure Tidy (b : UInt64) (out : List KeyRange) : Prop where
  below : ∀ k ∈ out, k.startInclusive < k.endExclusive ∧ k.endExclusive ≤ b
  ordered : out.Pairwise fun k k' => k.endExclusive ≤ k'.startInclusive

theorem Tidy.mono {b b' : UInt64} {out : List KeyRange} (h : Tidy b out) (hb : b ≤ b') :
    Tidy b' out :=
  ⟨fun k hk => ⟨(h.below k hk).1, (h.below k hk).2.trans hb⟩, h.ordered⟩

variable {k : KeyRange}

theorem Tidy.concat {b : UInt64} {out : List KeyRange} (h : Tidy b out)
    (hb : b ≤ k.startInclusive) (hk : k.startInclusive < k.endExclusive) :
    Tidy k.endExclusive (out ++ [k]) := by
  refine ⟨?_, pairwise_append.mpr ⟨h.ordered, pairwise_singleton _ _, ?_⟩⟩
  · intro k' hk'
    rcases mem_append.mp hk' with hk' | hk'
    · obtain ⟨hlt, hle⟩ := h.below k' hk'
      exact ⟨hlt, hle.trans (hb.trans hk.le)⟩
    · obtain rfl := mem_singleton.mp hk'
      exact ⟨hk, le_rfl⟩
  · intro k' hk' k'' hk''
    obtain rfl := mem_singleton.mp hk''
    exact (h.below k' hk').2.trans hb

variable {source : Option String} {target : String}

theorem reported_concat {out : List KeyRange} :
    Reported (out ++ [k]) pos source target ↔ Reported out pos source target ∨
      k.Covers pos ∧ k.source = source ∧ k.target = target := by
  simp [Reported]

/-- A range is appended or the last one grows: either way its positions are reported. -/
theorem pushRange_spec {out : List KeyRange} (h : Tidy k.startInclusive out)
    (hk : k.startInclusive < k.endExclusive) : Tidy k.endExclusive (pushRange out k) ∧
      ∀ pos source target, Reported (pushRange out k) pos source target ↔
        Reported out pos source target ∨ k.Covers pos ∧ k.source = source ∧ k.target = target := by
  rcases eq_nil_or_concat' out with rfl | ⟨init, last, rfl⟩
  · exact ⟨h.concat le_rfl hk, fun pos source target => reported_concat⟩
  · rw [pushRange, getLast?_concat]
    dsimp only
    split
    · rename_i hmerge
      obtain ⟨hend, hsource, htarget⟩ := hmerge
      obtain ⟨hinit, -, hlast⟩ := pairwise_append.mp h.ordered
      have hbelow := (h.below last (by simp)).1
      have htidy : Tidy last.startInclusive init :=
        ⟨fun k' hk' => ⟨(h.below k' (by simp [hk'])).1, hlast k' hk' last (by simp)⟩, hinit⟩
      rw [dropLast_concat]
      refine ⟨?_, fun pos source target => ?_⟩
      · exact htidy.concat (k := { last with endExclusive := k.endExclusive }) le_rfl
          (hbelow.trans (hend ▸ hk))
      · -- the last range and the new one are one stretch
        have hcovers : last.startInclusive ≤ pos ∧ pos < k.endExclusive ↔
            last.Covers pos ∨ k.Covers pos := by
          rw [KeyRange.Covers, KeyRange.Covers]
          grind
        rw [reported_concat, reported_concat, ← hsource, ← htarget, or_assoc, ← or_and_right,
          ← hcovers]
        rfl
    · exact ⟨h.concat le_rfl hk, fun pos source target => reported_concat⟩

def sampledChange (before after : List (UInt64 × ν)) (pos : UInt64) :
    Option (Option String × String) :=
  if ownersAt before pos = ownersAt after pos then none
  else (ownersAt after pos).map fun owner => ((ownersAt before pos).map toString, toString owner)

theorem consecutive_cons {α : Type} {l : List α} {a b x y : α} :
    Consecutive (a :: b :: l) x y ↔ x = a ∧ y = b ∨ Consecutive (b :: l) x y := by
  constructor
  · rintro ⟨_ | ⟨z, xs⟩, ys, h⟩
    · simp only [nil_append, cons.injEq] at h
      exact .inl ⟨h.1.symm, h.2.1.symm⟩
    · simp only [cons_append, cons.injEq] at h
      exact .inr ⟨xs, ys, h.2⟩
  · rintro (⟨rfl, rfl⟩ | ⟨xs, ys, h⟩)
    · exact ⟨[], l, rfl⟩
    · exact ⟨a :: xs, ys, by rw [h]; rfl⟩

theorem sweep_cons {rest : List UInt64} {b b' : UInt64} {out : List KeyRange} (hb : b < b')
    (hout : Tidy b out) : ∃ out', sweep before after (b :: b' :: rest) out =
      sweep before after (b' :: rest) out' ∧ Tidy b' out' ∧
      ∀ pos source target, Reported out' pos source target ↔ Reported out pos source target ∨
        b ≤ pos ∧ pos < b' ∧ sampledChange before after b = some (source, target) := by
  rw [sweep]
  split
  · rename_i hsame
    exact ⟨out, rfl, hout.mono hb.le, by simp [sampledChange, hsame]⟩
  · rename_i hchange
    rcases hafter : ownersAt after b with _ | owner
    · exact ⟨out, rfl, hout.mono hb.le, by simp [sampledChange, hafter]⟩
    · obtain ⟨htidy, hreported⟩ := pushRange_spec
        (k := ⟨b, b', (ownersAt before b).map toString, toString owner⟩) hout hb
      refine ⟨_, rfl, htidy, fun pos source target => (hreported pos source target).trans ?_⟩
      rw [hafter] at hchange
      simp [sampledChange, hafter, hchange, KeyRange.Covers, and_assoc]

variable {bounds : List UInt64}

/-- **What is reported.**  Every segment between two neighbouring boundaries whose first
position has another owner is reported, with the owners of that position, and
nothing else. -/
theorem sweep_spec {b : UInt64} {out : List KeyRange} (hbounds : (b :: bounds).Pairwise (· < ·))
    (hout : Tidy b out) :
    (∃ b', Tidy b' (sweep before after (b :: bounds) out)) ∧
      ∀ pos source target, Reported (sweep before after (b :: bounds) out) pos source target ↔
        Reported out pos source target ∨ ∃ b₁ b₂, Consecutive (b :: bounds) b₁ b₂ ∧
          b₁ ≤ pos ∧ pos < b₂ ∧ sampledChange before after b₁ = some (source, target) := by
  induction bounds generalizing b out with
  | nil =>
    refine ⟨⟨b, hout⟩, fun pos source target => ⟨.inl, ?_⟩⟩
    rintro (h | ⟨b₁, b₂, ⟨xs, ys, h⟩, -⟩)
    · exact h
    · have hlen := congrArg length h
      simp at hlen
      omega
  | cons b' rest ih =>
    obtain ⟨hfirst, hrest⟩ := pairwise_cons.mp hbounds
    obtain ⟨out', hsweep, htidy, hreported⟩ :=
      @sweep_cons _ _ _ before after rest _ _ _ (hfirst b' mem_cons_self) hout
    obtain ⟨hend, hspec⟩ := ih hrest htidy
    rw [hsweep]
    refine ⟨hend, fun pos source target => ?_⟩
    rw [hspec, hreported, or_assoc]
    refine or_congr_right ⟨?_, ?_⟩
    · rintro (h | ⟨b₁, b₂, hcons, h⟩)
      · exact ⟨b, b', consecutive_cons.mpr (.inl ⟨rfl, rfl⟩), h⟩
      · exact ⟨b₁, b₂, consecutive_cons.mpr (.inr hcons), h⟩
    · rintro ⟨b₁, b₂, hcons, h⟩
      rcases consecutive_cons.mp hcons with ⟨rfl, rfl⟩ | hcons
      · exact .inl h
      · exact .inr ⟨b₁, b₂, hcons, h⟩

theorem Tidy.disjoint {b : UInt64} {out : List KeyRange} (h : Tidy b out) :
    out.Pairwise fun k k' => ∀ pos, ¬ (k.Covers pos ∧ k'.Covers pos) := by
  refine h.ordered.imp fun hle pos hcovers => ?_
  exact absurd (hcovers.1.2.trans_le (hle.trans hcovers.2.1)) (lt_irrefl _)

theorem exists_consecutive {b last : UInt64} (hmem : last ∈ b :: bounds) (hb : b ≤ pos)
    (hlast : pos < last) : ∃ b₁ b₂, Consecutive (b :: bounds) b₁ b₂ ∧ b₁ ≤ pos ∧ pos < b₂ := by
  induction bounds generalizing b with
  | nil =>
    obtain rfl := mem_singleton.mp hmem
    exact absurd hlast (not_lt.mpr hb)
  | cons b' rest ih =>
    by_cases hpos : pos < b'
    · exact ⟨b, b', consecutive_cons.mpr (.inl ⟨rfl, rfl⟩), hb, hpos⟩
    · have hmem' : last ∈ b' :: rest := by
        rcases mem_cons.mp hmem with rfl | hmem'
        · exact absurd hlast (not_lt.mpr hb)
        · exact hmem'
      obtain ⟨b₁, b₂, hcons, h⟩ := ih hmem' (not_lt.mp hpos)
      exact ⟨b₁, b₂, consecutive_cons.mpr (.inr hcons), h⟩

theorem sweep_boundaries (before after : List (UInt64 × ν)) :
    (∃ b, Tidy b (sweep before after (boundaries before after) [])) ∧
      ∀ pos source target,
        Reported (sweep before after (boundaries before after) []) pos source target ↔
          ∃ b₁ b₂, Consecutive (boundaries before after) b₁ b₂ ∧ b₁ ≤ pos ∧ pos < b₂ ∧
            sampledChange before after b₁ = some (source, target) := by
  have hsorted := boundaries_sorted before after
  obtain ⟨b, rest, hbounds⟩ : ∃ b rest, boundaries before after = b :: rest :=
    exists_cons_of_ne_nil (ne_nil_of_mem (mem_boundaries.mpr (.inr (.inl rfl))))
  rw [hbounds] at hsorted ⊢
  obtain ⟨htidy, hspec⟩ := @sweep_spec _ _ _ before after rest b [] hsorted ⟨by simp, .nil⟩
  refine ⟨htidy, fun pos source target => (hspec pos source target).trans ?_⟩
  simp [Reported]

omit [LinearOrder ν] [ToString ν] in
theorem exists_segment (before after : List (UInt64 × ν)) (hpos : pos < U64_MAX) :
    ∃ b b', Consecutive (boundaries before after) b b' ∧ b ≤ pos ∧ pos < b' := by
  have hsorted := boundaries_sorted before after
  have hzero : 0 ∈ boundaries before after := mem_boundaries.mpr (.inr (.inl rfl))
  have hmax : U64_MAX ∈ boundaries before after := mem_boundaries.mpr (.inr (.inr rfl))
  obtain ⟨b, rest, hbounds⟩ := exists_cons_of_ne_nil (ne_nil_of_mem hzero)
  rw [hbounds] at hsorted hzero hmax ⊢
  have hb : b = 0 := by
    rcases mem_cons.mp hzero with h | h
    · exact h.symm
    · exact absurd ((pairwise_cons.mp hsorted).1 0 h) (not_lt.mpr (UInt64.zero_le))
  exact exists_consecutive hmax (hb ▸ UInt64.zero_le) hpos

/-! ### When the report is right -/

theorem change_eq_none : change before after pos = none ↔
    primaryOwner before pos = primaryOwner after pos := by
  rw [change]
  split <;> simp_all

theorem sampledChange_eq_some (hbefore : Placed before) (hafter : Placed after) :
    sampledChange before after pos = some (source, target) ↔
      change before after pos = some (source, some target) := by
  rw [sampledChange, change, ownersAt_eq hbefore, ownersAt_eq hafter]
  split
  · simp
  · rcases primaryOwner after pos with _ | owner <;> simp

omit [LinearOrder ν] [ToString ν] in
theorem primaryOwner_mem (h : l ≠ []) (pos : UInt64) :
    ∃ vn ∈ l, primaryOwner l pos = some vn.2 := by
  obtain ⟨vn, l, rfl⟩ := exists_cons_of_ne_nil h
  rw [primaryOwner]
  rcases hfind : (vn :: l).find? (fun vn => pos ≤ vn.1) with _ | found
  · exact ⟨vn, mem_cons_self, by rw [hfind]; rfl⟩
  · exact ⟨found, mem_of_find?_eq_some hfind, by rw [hfind]; rfl⟩

theorem change_target (hne : after ≠ []) {source target : Option String}
    (h : change before after pos = some (source, target)) : ∃ t, target = some t := by
  obtain ⟨vn, -, howner⟩ := primaryOwner_mem hne pos
  rw [change] at h
  split at h
  · cases h
  · rw [howner] at h
    exact ⟨toString vn.2, (congrArg Prod.snd (Option.some.inj h)).symm⟩

theorem reported_iff (hbefore : Placed before) (hafter : Placed after) {b b' : UInt64}
    (hcons : Consecutive (boundaries before after) b b') (hb : b ≤ pos) (hb' : pos < b') :
    Reported (sweep before after (boundaries before after) []) pos source target ↔
      change before after b = some (source, some target) := by
  rw [(sweep_boundaries before after).2]
  constructor
  · rintro ⟨b₁, b₂, hcons', hb₁, hb₂, hchange⟩
    -- the position is in one segment only
    have hmem : ∀ {c c'}, Consecutive (boundaries before after) c c' →
        c ∈ boundaries before after := by
      rintro c c' ⟨xs, ys, h⟩
      simp [h]
    have hsorted := boundaries_sorted before after
    have hle := not_lt.mp fun hlt => absurd ((hcons.between hsorted (hmem hcons')).2 hlt)
      (not_le.mpr (hb₁.trans_lt hb'))
    have hge := not_lt.mp fun hlt => absurd ((hcons'.between hsorted (hmem hcons)).2 hlt)
      (not_le.mpr (hb.trans_lt hb₂))
    rw [← le_antisymm hle hge]
    exact (sampledChange_eq_some hbefore hafter).mp hchange
  · intro hchange
    exact ⟨b, b', hcons, hb, hb', (sampledChange_eq_some hbefore hafter).mpr hchange⟩

theorem SampledAlike.change_eq (h : SampledAlike before after) {b b' : UInt64}
    (hcons : Consecutive (boundaries before after) b b') (hb : b ≤ pos) (hb' : pos < b') :
    change before after pos = change before after b := by
  rcases hb.lt_or_eq with hlt | rfl
  · rw [change_between hcons hlt hb'.le, h b b' hcons]
    rw [UInt64.lt_iff_toNat_lt] at hlt hb'
    omega
  · rfl

theorem reports_of_sampledAlike (hbefore : Placed before) (hafter : Placed after)
    (hne : after ≠ []) (h : SampledAlike before after) :
    Reports before after (sweep before after (boundaries before after) []) := by
  obtain ⟨⟨_, htidy⟩, hspec⟩ := sweep_boundaries before after
  refine ⟨htidy.disjoint, ?_, ?_⟩
  · intro pos hpos
    obtain ⟨b, b', hcons, hb, hb'⟩ := exists_segment before after hpos
    rw [ne_eq, ← change_eq_none, h.change_eq hcons hb hb']
    constructor
    · rintro ⟨k, hk, hcovers⟩ hnone
      have hchange := (reported_iff hbefore hafter hcons hb hb').mp ⟨k, hk, hcovers, rfl, rfl⟩
      rw [hnone] at hchange
      cases hchange
    · intro hsome
      obtain ⟨⟨source, target⟩, hchange⟩ := Option.ne_none_iff_exists'.mp hsome
      obtain ⟨target, rfl⟩ := change_target hne hchange
      obtain ⟨k, hk, hcovers, -⟩ := (reported_iff hbefore hafter hcons hb hb').mpr hchange
      exact ⟨k, hk, hcovers⟩
  · intro k hk pos hcovers
    obtain ⟨b, b', hcons, hb, hb', hsampled⟩ :=
      (hspec pos k.source k.target).mp ⟨k, hk, hcovers, rfl, rfl⟩
    have hchange := (sampledChange_eq_some hbefore hafter).mp hsampled
    rw [← h.change_eq hcons hb hb', change] at hchange
    split at hchange
    · cases hchange
    · obtain ⟨hsource, htarget⟩ := Prod.mk.inj (Option.some.inj hchange)
      exact ⟨hsource.symm, htarget.symm⟩

theorem sampledAlike_of_reports (hbefore : Placed before) (hafter : Placed after)
    (hne : after ≠ [])
    (h : Reports before after (sweep before after (boundaries before after) [])) :
    SampledAlike before after := by
  intro b b' hcons hgap
  -- the position after the first sample, which has changed like the second one
  have hq : (b + 1).toNat = b.toNat + 1 := by
    have := b'.toNat_lt
    exact Nat.mod_eq_of_lt (by simp; omega)
  have hb : b < b + 1 := by
    rw [UInt64.lt_iff_toNat_lt]
    omega
  have hb' : b + 1 < b' := by
    rw [UInt64.lt_iff_toNat_lt]
    omega
  have hmax : b + 1 < U64_MAX := hb'.trans_le (by
    exact Nat.le_of_lt_succ b'.toNat_lt)
  rw [← change_between hcons hb hb'.le]
  rcases hchange : change before after b with _ | ⟨source, target⟩
  · refine (change_eq_none.mpr (not_not.mp fun hne' => ?_)).symm
    obtain ⟨k, hk, hcovers⟩ := (h.moved _ hmax).mpr hne'
    have hreported := (reported_iff hbefore hafter hcons hb.le hb').mp ⟨k, hk, hcovers, rfl, rfl⟩
    rw [hchange] at hreported
    cases hreported
  · obtain ⟨target, rfl⟩ := change_target hne hchange
    obtain ⟨k, hk, hcovers, rfl, rfl⟩ := (reported_iff hbefore hafter hcons hb.le hb').mpr hchange
    obtain ⟨hsource, htarget⟩ := h.owners k hk _ hcovers
    rw [change, if_neg ((h.moved _ hmax).mp ⟨k, hk, hcovers⟩), hsource, htarget]

/-- The report on two snapshots, the second with virtual nodes if the first has some. -/
theorem reports_diffOwners_iff (hbefore : Placed before) (hafter : Placed after)
    (hne : before ≠ [] → after ≠ []) (howner : before = [] → ∃ x, ∀ vn ∈ after, vn.2 = x) :
    Reports before after (diffOwners before after) ↔ SampledAlike before after := by
  rcases before with _ | ⟨vn, before⟩
  · obtain ⟨x, hx⟩ := howner rfl
    rcases after with _ | ⟨vn, after⟩
    · -- nothing to own and nothing owned
      have hreports : Reports ([] : List (UInt64 × ν)) [] [] :=
        ⟨.nil, by simp, by simp⟩
      exact iff_of_true hreports fun b b' _ _ => rfl
    · -- all positions go to the one node
      have howner : ∀ pos, primaryOwner (vn :: after) pos = some x := by
        intro pos
        obtain ⟨w, hw, howner⟩ := primaryOwner_mem (cons_ne_nil vn after) pos
        rw [howner, hx w hw]
      have hnone : ∀ pos, primaryOwner ([] : List (UInt64 × ν)) pos = none := fun _ => rfl
      refine iff_of_true ⟨pairwise_singleton _ _, fun pos hpos => ?_, ?_⟩ fun b b' _ _ => ?_
      · simp [diffOwners, KeyRange.Covers, howner, hnone, hpos]
      · intro k hk pos _
        obtain rfl := mem_singleton.mp hk
        simp [howner, hnone, hx vn mem_cons_self]
      · simp [change, howner, hnone]
  · rcases after with _ | ⟨vn', after⟩
    · exact absurd rfl (hne (by simp))
    · exact ⟨sampledAlike_of_reports hbefore hafter (by simp),
        reports_of_sampledAlike hbefore hafter (by simp)⟩

namespace Ring

variable {r : Ring ν} {x : ν}

omit [ToString ν] in
theorem Apart.placed (h : r.Apart) : Placed r.vnodes := ⟨r.sorted_position, h⟩

/-- **The ranges that are reported** when a node joins or leaves are those that have
moved if and only if neighbouring samples with positions between them have changed
alike. -/
theorem reported_ranges_iff (r : Ring ν) (x : ν) (hapart : r.Apart) (hadd : (r.addNode x).Apart) :
    (Reports r.vnodes (r.addNode x).vnodes (r.addNodeRanges x) ↔
        SampledAlike r.vnodes (r.addNode x).vnodes) ∧
      ((r.removeNode x).vnodes ≠ [] →
        (Reports r.vnodes (r.removeNode x).vnodes (r.removeNodeRanges x) ↔
          SampledAlike r.vnodes (r.removeNode x).vnodes)) := by
  -- a call that changes nothing reports nothing
  have hsame : (Reports r.vnodes r.vnodes [] ↔ SampledAlike r.vnodes r.vnodes) :=
    iff_of_true ⟨.nil, by simp, by simp⟩ fun b b' _ _ => by simp [change]
  refine ⟨?_, fun hne => ?_⟩
  · by_cases hx : x ∈ r.physicalNodes
    · rw [addNodeRanges, if_pos hx, addNode, if_pos hx]
      exact hsame
    · rw [addNodeRanges, if_neg hx]
      refine reports_diffOwners_iff hapart.placed hadd.placed ?_ ?_
      · intro hbefore hafter
        refine hbefore ?_
        rw [← vnodes_addNode hx, hafter]
        rfl
      · intro hbefore
        refine ⟨x, fun vn hvn => ?_⟩
        rw [addNode, if_neg hx] at hvn
        rcases mem_foldl_insertSorted.mp hvn with hvn | hvn
        · obtain ⟨i, -, rfl⟩ := mem_map.mp hvn
          rfl
        · simp [hbefore] at hvn
  · by_cases hx : x ∈ r.physicalNodes
    · rw [removeNodeRanges, if_pos hx]
      have hplaced : Placed (r.removeNode x).vnodes := by
        refine ⟨(r.removeNode x).sorted_position, ?_⟩
        rw [removeNode, if_pos hx]
        intro a ha b hb
        exact hapart a (mem_of_mem_filter ha) b (mem_of_mem_filter hb)
      refine reports_diffOwners_iff hapart.placed hplaced (fun _ => hne) fun hbefore => ?_
      refine absurd ?_ hne
      rw [removeNode, if_pos hx]
      simp [hbefore]
    · rw [removeNodeRanges, if_neg hx, removeNode, if_neg hx]
      exact hsame

/-- A node joins an empty ring: all positions move to it. -/
theorem reported_ranges_first :
    SampledAlike (new 1 : Ring Nat).vnodes ((new 1 : Ring Nat).addNode 1).vnodes ↔
      Reports (new 1 : Ring Nat).vnodes ((new 1 : Ring Nat).addNode 1).vnodes
        ((new 1 : Ring Nat).addNodeRanges 1) :=
  (reported_ranges_iff (new 1 : Ring Nat) 1 (by decide +kernel) (by decide +kernel)).1.symm

omit [LinearOrder ν] [ToString ν] in
/-- A second node joins a ring of one: the positions after its virtual node are reported,
and those before it have moved. -/
theorem reported_ranges_second : ¬ Reports ((new 1 : Ring Nat).addNode 1).vnodes
    (((new 1 : Ring Nat).addNode 1).addNode 2).vnodes
    (((new 1 : Ring Nat).addNode 1).addNodeRanges 2) := by
  intro h
  have hmoved := (h.moved 5164928220409227219 (by decide +kernel)).mpr (by decide +kernel)
  have hranges : ((new 1 : Ring Nat).addNode 1).addNodeRanges 2 =
      [⟨7702475283103055814, U64_MAX, some "1", "2"⟩] := by decide +kernel
  obtain ⟨k, hk, hcovers, -⟩ := hmoved
  obtain rfl := mem_singleton.mp hk
  exact absurd hcovers (by decide +kernel)

end Ring

end GrumpyDB
