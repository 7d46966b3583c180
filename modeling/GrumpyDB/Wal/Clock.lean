/-
The hybrid logical clock that stamps the records of the log: 48 bits of wall time in
milliseconds, then a counter of 16 bits.

The readings of the wall clock come with the call: they may go backwards, and the reading may
fail. Additions wrap around, as they do in a build without overflow checks.
-/
import GrumpyDB.Wal.Record
import GrumpyDB.Lib.Refine

namespace GrumpyDB

open List UInt64

namespace Hlc

def PHYSICAL_BITS : UInt64 := 48

def LOGICAL_BITS : UInt64 := 16

def LOGICAL_MASK : UInt64 := (1 <<< LOGICAL_BITS) - 1

def pack (physicalMs : UInt64) (logical : UInt16) : Hlc :=
  let phys := physicalMs &&& ((1 <<< PHYSICAL_BITS) - 1)
  (phys <<< LOGICAL_BITS) ||| logical.toUInt64

def physicalMs (h : Hlc) : UInt64 := h >>> LOGICAL_BITS

def logical (h : Hlc) : UInt16 := (h &&& LOGICAL_MASK).toUInt16

theorem toNat_physicalMs (h : Hlc) : (physicalMs h).toNat = h.toNat / 2 ^ 16 := by
  rw [physicalMs, UInt64.toNat_shiftRight, Nat.shiftRight_eq_div_pow]
  rfl

theorem toNat_logical (h : Hlc) : (logical h).toNat = h.toNat % 2 ^ 16 := by
  have hmask : LOGICAL_MASK.toNat = 2 ^ 16 - 1 := rfl
  rw [logical, UInt64.toNat_toUInt16, UInt64.toNat_and, hmask, Nat.and_two_pow_sub_one_eq_mod,
    Nat.mod_mod]

theorem toNat_eq (h : Hlc) : h.toNat = (physicalMs h).toNat * 2 ^ 16 + (logical h).toNat := by
  rw [toNat_physicalMs, toNat_logical]
  exact (Nat.div_add_mod' _ _).symm

theorem physicalMs_lt (h : Hlc) : (physicalMs h).toNat < 2 ^ 48 := by
  rw [toNat_physicalMs]
  have := h.toNat_lt
  omega

variable {p : UInt64}

theorem toNat_pack (hp : p.toNat < 2 ^ 48) (l : UInt16) :
    (pack p l).toNat = p.toNat * 2 ^ 16 + l.toNat := by
  have hmask : ((1 <<< PHYSICAL_BITS) - 1 : UInt64).toNat = 2 ^ 48 - 1 := rfl
  have hl := l.toNat_lt
  have hphys : (p &&& ((1 <<< PHYSICAL_BITS) - 1)).toNat = p.toNat := by
    rw [UInt64.toNat_and, hmask, Nat.and_two_pow_sub_one_eq_mod, Nat.mod_eq_of_lt hp]
  have hshift : ((p &&& ((1 <<< PHYSICAL_BITS) - 1)) <<< LOGICAL_BITS).toNat
      = p.toNat <<< 16 := by
    rw [UInt64.toNat_shiftLeft, hphys]
    show p.toNat <<< 16 % 2 ^ 64 = _
    exact Nat.mod_eq_of_lt (by omega)
  rw [pack, UInt64.toNat_or, hshift, UInt16.toNat_toUInt64, ← Nat.shiftLeft_add_eq_or_of_lt hl,
    Nat.shiftLeft_eq]

theorem physicalMs_pack (hp : p.toNat < 2 ^ 48) (l : UInt16) : physicalMs (pack p l) = p := by
  have hl := l.toNat_lt
  refine UInt64.toNat_inj.1 ?_
  rw [toNat_physicalMs, toNat_pack hp]
  omega

theorem lt_pack {h : Hlc} (hp : p.toNat < 2 ^ 48) {l : UInt16}
    (hlt : (physicalMs h).toNat < p.toNat ∨ (physicalMs h).toNat = p.toNat ∧
      (logical h).toNat < l.toNat) :
    h < pack p l := by
  have hl := (logical h).toNat_lt
  rw [lt_iff_toNat_lt, toNat_pack hp, toNat_eq h]
  omega

end Hlc

inductive HlcError where
  | skewExceeded (skew tolerance : UInt64)
  | logicalOverflow (physicalMs : UInt64)
  | beforeEpoch
deriving DecidableEq, Repr

def HlcError.display : HlcError → String
  | skewExceeded skew tolerance =>
    "clock skew of " ++ toString skew ++ " ms exceeds the " ++ toString tolerance ++
      " ms tolerance"
  | logicalOverflow physicalMs =>
    "logical counter overflow at physical ms " ++ toString physicalMs
  | beforeEpoch => "system clock returned a time before the UNIX epoch"

def DEFAULT_MAX_SKEW_MS : UInt64 := 60 * 60 * 1000

/-- The last stamp issued, and how far a received stamp may be ahead. -/
structure HlcClock where
  state : Hlc
  maxSkewMs : UInt64

/-- A reading of the wall clock, none for a time before the epoch. -/
abbrev WallReading := Option UInt64

def wallNowMs : WallReading → Except HlcError UInt64
  | some ms => .ok ms
  | none => .error .beforeEpoch

/-- One more for the counter of a stamp at `physicalMs`, unless it is full. -/
def checkedSucc (physicalMs : UInt64) (logical : UInt16) : Except HlcError UInt16 :=
  if logical.toNat + 1 < 2 ^ 16 then .ok (logical + 1) else .error (.logicalOverflow physicalMs)

namespace HlcClock

def withMaxSkew (maxSkewMs : UInt64) (wall : WallReading) : HlcClock :=
  let initial := wall.getD 0
  ⟨Hlc.pack initial 0, maxSkewMs⟩

def new (wall : WallReading) : HlcClock := withMaxSkew DEFAULT_MAX_SKEW_MS wall

/-- The end of both calls: the stamp is stored and returned; an error returns
before anything is stored. -/
def issue (clock : HlcClock) : Except HlcError Hlc → Except HlcError Hlc × HlcClock
  | .ok next => (.ok next, { clock with state := next })
  | .error e => (.error e, clock)

def nextLocal (clock : HlcClock) (reading : WallReading) : Except HlcError Hlc := do
  let wall ← wallNowMs reading
  let prevPhys := Hlc.physicalMs clock.state
  let prevLog := Hlc.logical clock.state
  if wall > prevPhys then
    return Hlc.pack wall 0
  else
    let newLog ← checkedSucc prevPhys prevLog
    return Hlc.pack prevPhys newLog

/-- The counter of a received event: one more than the counters that stand at the
new wall time, zero if none does. -/
def mergedLogical (newPhys : UInt64) (prev remote : Hlc) : Except HlcError UInt16 :=
  let prevLog := Hlc.logical prev
  let remLog := Hlc.logical remote
  if newPhys = Hlc.physicalMs prev ∧ newPhys = Hlc.physicalMs remote then
    checkedSucc newPhys (max prevLog remLog)
  else if newPhys = Hlc.physicalMs prev then
    checkedSucc newPhys prevLog
  else if newPhys = Hlc.physicalMs remote then
    checkedSucc newPhys remLog
  else
    .ok 0

def nextRemote (clock : HlcClock) (remote : Hlc) (reading : WallReading) :
    Except HlcError Hlc := do
  let wall ← wallNowMs reading
  if Hlc.physicalMs remote > wall + clock.maxSkewMs then
    throw (.skewExceeded (Hlc.physicalMs remote - wall) clock.maxSkewMs)
  else
    let prevPhys := Hlc.physicalMs clock.state
    let remPhys := Hlc.physicalMs remote
    let newPhys := max (max wall prevPhys) remPhys
    let newLog ← mergedLogical newPhys clock.state remote
    return Hlc.pack newPhys newLog

def now (clock : HlcClock) (reading : WallReading) : Except HlcError Hlc × HlcClock :=
  clock.issue (clock.nextLocal reading)

def update (clock : HlcClock) (remote : Hlc) (reading : WallReading) :
    Except HlcError Hlc × HlcClock :=
  clock.issue (clock.nextRemote remote reading)

def read (clock : HlcClock) : Hlc := clock.state

/-! ### What one call does -/

theorem checkedSucc_ok {p : UInt64} {l l' : UInt16} (h : checkedSucc p l = .ok l') :
    l'.toNat = l.toNat + 1 := by
  unfold checkedSucc at h
  split at h
  · next hlt =>
    cases h
    exact Nat.mod_eq_of_lt hlt
  · cases h

variable {reading : WallReading}

theorem wallNowMs_ok {wall : UInt64} (h : wallNowMs reading = .ok wall) : reading = some wall := by
  cases reading with
  | none => cases h
  | some ms => cases h; rfl

/-- What an issued stamp `h` is over the clock it comes from. -/
structure Next (clock : HlcClock) (wall : UInt64) (h : Hlc) : Prop where
  later : clock.state < h
  physical : (Hlc.physicalMs h).toNat ≤
    max (Hlc.physicalMs clock.state).toNat (wall.toNat + clock.maxSkewMs.toNat)

variable {clock : HlcClock}

theorem nextLocal_ok {h : Hlc} (hreading : ∀ ms ∈ reading, ms.toNat < 2 ^ 48)
    (hok : clock.nextLocal reading = .ok h) : ∃ wall, reading = some wall ∧ Next clock wall h := by
  obtain ⟨wall, hwall, hok⟩ := except_bind_eq_ok.1 hok
  have hread := wallNowMs_ok hwall
  have hlt := hreading wall hread
  have hphys := Hlc.physicalMs_lt clock.state
  refine ⟨wall, hread, ?_⟩
  dsimp only at hok
  split at hok
  · next hgt =>
    cases hok
    refine ⟨Hlc.lt_pack hlt (.inl (lt_iff_toNat_lt.1 hgt)), ?_⟩
    rw [Hlc.physicalMs_pack hlt]
    omega
  · obtain ⟨l, hl, hok⟩ := except_bind_eq_ok.1 hok
    cases hok
    have hsucc := checkedSucc_ok hl
    refine ⟨Hlc.lt_pack hphys (.inr ⟨rfl, by omega⟩), ?_⟩
    rw [Hlc.physicalMs_pack hphys]
    exact le_max_left _ _

theorem toNat_le_max (a b : UInt16) : a.toNat ≤ (max a b).toNat ∧ b.toNat ≤ (max a b).toNat := by
  show a.toNat ≤ (if a ≤ b then b else a).toNat ∧ b.toNat ≤ (if a ≤ b then b else a).toNat
  split
  · next h => exact ⟨UInt16.le_iff_toNat_le.1 h, le_rfl⟩
  · next h => exact ⟨le_rfl, (not_le.1 fun h' => h (UInt16.le_iff_toNat_le.2 h')).le⟩

theorem toNat_max (a b : UInt64) : (max a b).toNat = max a.toNat b.toNat := by
  rcases le_total a b with h | h
  · rw [max_eq_right h, max_eq_right (le_iff_toNat_le.1 h)]
  · rw [max_eq_left h, max_eq_left (le_iff_toNat_le.1 h)]

theorem mergedLogical_ok {p : UInt64} {prev remote : Hlc} {l : UInt16}
    (h : mergedLogical p prev remote = .ok l) :
    (p = Hlc.physicalMs prev → (Hlc.logical prev).toNat < l.toNat) ∧
      (p = Hlc.physicalMs remote → (Hlc.logical remote).toNat < l.toNat) := by
  unfold mergedLogical at h
  split at h
  · have hsucc := checkedSucc_ok h
    have hmax := toNat_le_max (Hlc.logical prev) (Hlc.logical remote)
    exact ⟨fun _ => by omega, fun _ => by omega⟩
  · next hboth =>
    split at h
    · next hprev =>
      have hsucc := checkedSucc_ok h
      exact ⟨fun _ => by omega, fun hrem => absurd ⟨hprev, hrem⟩ hboth⟩
    · next hprev =>
      split at h
      · have hsucc := checkedSucc_ok h
        exact ⟨fun h => absurd h hprev, fun _ => by omega⟩
      · next hrem => exact ⟨fun h => absurd h hprev, fun h => absurd h hrem⟩

theorem nextRemote_ok {remote : Hlc} {h : Hlc} (hreading : ∀ ms ∈ reading, ms.toNat < 2 ^ 48)
    (hok : clock.nextRemote remote reading = .ok h) :
    ∃ wall, reading = some wall ∧ Next clock wall h ∧ remote < h := by
  obtain ⟨wall, hwall, hok⟩ := except_bind_eq_ok.1 hok
  have hread := wallNowMs_ok hwall
  refine ⟨wall, hread, ?_⟩
  split at hok
  · cases hok
  · next hskew =>
    obtain ⟨l, hl, hok⟩ := except_bind_eq_ok.1 hok
    cases hok
    have hlt := hreading wall hread
    have hprev := Hlc.physicalMs_lt clock.state
    have hrem := Hlc.physicalMs_lt remote
    have hmax := toNat_max (max wall (Hlc.physicalMs clock.state)) (Hlc.physicalMs remote)
    rw [toNat_max wall] at hmax
    obtain ⟨hlprev, hlrem⟩ := mergedLogical_ok hl
    generalize max (max wall (Hlc.physicalMs clock.state)) (Hlc.physicalMs remote) = p at *
    have hp : p.toNat < 2 ^ 48 := by omega
    -- a stamp at or below the new wall time, with a smaller counter if it is at it
    have hbelow : ∀ g : Hlc, (Hlc.physicalMs g).toNat ≤ p.toNat →
        (p = Hlc.physicalMs g → (Hlc.logical g).toNat < l.toNat) → g < Hlc.pack p l := by
      intro g hle hlog
      refine Hlc.lt_pack hp ?_
      rcases Nat.lt_or_eq_of_le hle with hless | heq
      · exact .inl hless
      · exact .inr ⟨heq, hlog (UInt64.toNat_inj.1 heq.symm)⟩
    refine ⟨⟨hbelow _ (by omega) hlprev, ?_⟩, hbelow _ (by omega) hlrem⟩
    rw [Hlc.physicalMs_pack hp]
    -- the sum that the skew is held against may wrap, never upwards
    have hwrap : (wall + clock.maxSkewMs).toNat ≤ wall.toNat + clock.maxSkewMs.toNat := by
      exact Nat.mod_le _ _
    have hle := le_iff_toNat_le.1 (not_lt.1 hskew)
    omega

end HlcClock

/-! ### Runs -/

/-- A call on a clock, with the wall reading it finds. -/
inductive HlcCall where
  | now (reading : WallReading)
  | update (remote : Hlc) (reading : WallReading)

namespace HlcCall

def reading : HlcCall → WallReading
  | now reading => reading
  | update _ reading => reading

def remote? : HlcCall → Option Hlc
  | now _ => none
  | update remote _ => some remote

end HlcCall

def Fits48 (reading : WallReading) : Prop := ∀ ms ∈ reading, ms.toNat < 2 ^ 48

def largest (readings : List WallReading) : Nat :=
  (readings.map fun reading => (reading.getD 0).toNat).foldr max 0

theorem le_largest {readings : List WallReading} {wall : UInt64} (h : some wall ∈ readings) :
    wall.toNat ≤ largest readings := by
  induction readings with
  | nil => cases h
  | cons reading rest ih =>
    rcases mem_cons.1 h with rfl | h
    · exact le_max_left _ _
    · exact (ih h).trans (le_max_right _ _)

namespace HlcClock

def step (call : HlcCall) (clock : HlcClock) : Except HlcError Hlc × HlcClock :=
  match call with
  | .now reading => clock.now reading
  | .update remote reading => clock.update remote reading

def run (clock : HlcClock) (calls : List HlcCall) : HlcClock :=
  calls.foldl (fun clock call => (step call clock).2) clock

def issued (clock : HlcClock) (calls : List HlcCall) : List Hlc :=
  (trace step calls clock).filterMap fun answer => answer.1.toOption

theorem step_cases (clock : HlcClock) {call : HlcCall} (hreading : Fits48 call.reading) :
    (∃ h wall, call.reading = some wall ∧ step call clock = (.ok h, { clock with state := h }) ∧
        Next clock wall h ∧ ∀ remote ∈ call.remote?, remote < h) ∨
      ∃ e, step call clock = (.error e, clock) := by
  cases call with
  | now reading =>
    rcases hnext : clock.nextLocal reading with e | h
    · refine .inr ⟨e, ?_⟩
      show clock.issue (clock.nextLocal reading) = _
      rw [hnext]
      rfl
    · obtain ⟨wall, hwall, hspec⟩ := nextLocal_ok hreading hnext
      refine .inl ⟨h, wall, hwall, ?_, hspec, nofun⟩
      show clock.issue (clock.nextLocal reading) = _
      rw [hnext]
      rfl
  | update remote reading =>
    rcases hnext : clock.nextRemote remote reading with e | h
    · refine .inr ⟨e, ?_⟩
      show clock.issue (clock.nextRemote remote reading) = _
      rw [hnext]
      rfl
    · obtain ⟨wall, hwall, hspec, hremote⟩ := nextRemote_ok hreading hnext
      refine .inl ⟨h, wall, hwall, ?_, hspec, ?_⟩
      · show clock.issue (clock.nextRemote remote reading) = _
        rw [hnext]
        rfl
      · rintro _ ⟨⟩
        exact hremote

variable {calls : List HlcCall}

theorem issued_increasing (clock : HlcClock) (hreadings : ∀ call ∈ calls, Fits48 call.reading) :
    (∀ h ∈ clock.issued calls, clock.state < h) ∧ (clock.issued calls).Pairwise (· < ·) := by
  induction calls generalizing clock with
  | nil => exact ⟨nofun, List.Pairwise.nil⟩
  | cons call calls ih =>
    obtain ⟨hlater, hpairwise⟩ :=
      ih (step call clock).2 fun call' h => hreadings call' (mem_cons_of_mem _ h)
    rcases step_cases clock (hreadings call mem_cons_self) with
      ⟨h, wall, -, hstep, hspec, -⟩ | ⟨e, hstep⟩
    · have hissued : clock.issued (call :: calls) = h :: (step call clock).2.issued calls := by
        simp only [issued, trace, hstep, filterMap_cons, Except.toOption]
      rw [hstep] at hlater
      rw [hissued, hstep]
      refine ⟨?_, pairwise_cons.2 ⟨hlater, hstep ▸ hpairwise⟩⟩
      rintro h' (_ | ⟨_, h'mem⟩)
      · exact hspec.later
      · exact hspec.later.trans (hlater h' h'mem)
    · have hissued : clock.issued (call :: calls) = clock.issued calls := by
        simp only [issued, trace, hstep, filterMap_cons, Except.toOption]
      rw [hstep] at hlater hpairwise
      rw [hissued]
      exact ⟨hlater, hpairwise⟩

theorem physical_run {clock : HlcClock} {bound : Nat}
    (hreadings : ∀ call ∈ calls, Fits48 call.reading)
    (hbound : ∀ call ∈ calls, ∀ wall ∈ call.reading, wall.toNat ≤ bound)
    (hclock : (Hlc.physicalMs clock.state).toNat ≤ bound + clock.maxSkewMs.toNat) :
    (Hlc.physicalMs (clock.run calls).state).toNat ≤ bound + clock.maxSkewMs.toNat := by
  induction calls generalizing clock with
  | nil => exact hclock
  | cons call calls ih =>
    have hrest := fun call' h => hreadings call' (mem_cons_of_mem call h)
    have hboundRest := fun call' h => hbound call' (mem_cons_of_mem call h)
    show (Hlc.physicalMs ((step call clock).2.run calls).state).toNat ≤ _
    rcases step_cases clock (hreadings call mem_cons_self) with
      ⟨h, wall, hwall, hstep, hspec, -⟩ | ⟨e, hstep⟩
    · rw [hstep]
      have hle := hbound call mem_cons_self wall hwall
      have hnext : (Hlc.physicalMs h).toNat ≤ bound + clock.maxSkewMs.toNat :=
        hspec.physical.trans (max_le hclock (Nat.add_le_add_right hle _))
      exact ih hrest hboundRest hnext
    · rw [hstep]
      exact ih hrest hboundRest hclock

/-- **The clock is strictly monotone and stays near the wall clock**: with wall readings of at
most 48 bits in any order, the stamps returned increase, a stamp for a received one is later than
it, a call that fails changes nothing, and the physical part is at most the largest wall reading
so far plus the tolerated skew. -/
theorem hlc_monotone (maxSkewMs : UInt64) (seed : WallReading) (calls : List HlcCall)
    (hseed : Fits48 seed) (hreadings : ∀ call ∈ calls, Fits48 call.reading) :
    let clock := withMaxSkew maxSkewMs seed
    (clock.issued calls).Pairwise (· < ·) ∧
    (∀ before call after, calls = before ++ call :: after →
      let here := clock.run before
      (∀ remote ∈ call.remote?, ∀ h, (step call here).1 = .ok h → remote < h) ∧
      (∀ e, (step call here).1 = .error e → (step call here).2 = here)) ∧
    ∀ before after, calls = before ++ after →
      (Hlc.physicalMs (clock.run before).state).toNat ≤
        largest (seed :: before.map HlcCall.reading) + maxSkewMs.toNat := by
  intro clock
  refine ⟨(issued_increasing clock hreadings).2, ?_, ?_⟩
  · rintro before call after rfl
    intro here
    have hcall := hreadings call (mem_append_right _ mem_cons_self)
    rcases step_cases here hcall with ⟨h, wall, -, hstep, -, hremote⟩ | ⟨e, hstep⟩
    · rw [hstep]
      refine ⟨?_, nofun⟩
      rintro remote hmem _ ⟨⟩
      exact hremote remote hmem
    · rw [hstep]
      exact ⟨fun _ _ _ => nofun, fun _ _ => rfl⟩
  · rintro before after rfl
    refine physical_run (fun call h => hreadings call (mem_append_left _ h)) ?_ ?_
    · intro call h wall hwall
      refine le_largest (mem_cons_of_mem _ (mem_map.2 ⟨call, h, hwall⟩))
    · -- the clock starts at the reading it was made with
      have hinit : (seed.getD 0).toNat < 2 ^ 48 := by
        cases seed with
        | none => decide
        | some ms => exact hseed ms rfl
      show (Hlc.physicalMs (Hlc.pack (seed.getD 0) 0)).toNat ≤ _
      rw [Hlc.physicalMs_pack hinit]
      exact (le_max_left _ _).trans (Nat.le_add_right _ _)

/-- A clock whose wall clock runs backwards and that hears of a later stamp. -/
theorem hlc_monotone_backwards :
    ((withMaxSkew 10 (some 5)).issued
        [.now (some 4), .update (Hlc.pack 12 3) (some 3), .now (some 5)]).Pairwise (· < ·) :=
  (hlc_monotone 10 (some 5) [.now (some 4), .update (Hlc.pack 12 3) (some 3), .now (some 5)]
    (by rintro _ ⟨⟩; decide)
    (by
      intro call h
      simp only [List.mem_cons, List.not_mem_nil, or_false] at h
      rcases h with rfl | rfl | rfl <;> (rintro _ ⟨⟩; decide))).1

end HlcClock

end GrumpyDB
