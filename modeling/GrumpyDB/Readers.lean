/-
Readers, and the versions that are kept for them.

A handle registers its snapshot with the database when it is made or cloned and takes it back
when it is dropped. The versions before the one that the oldest snapshot sees are collected.
-/
import GrumpyDB.Snapshot

namespace GrumpyDB

open List SortedMap

namespace DatabaseState

/-! ### Handles -/

def currentHlc (db : DatabaseState) : Hlc := db.clock.state

def registerReaderSnapshot (snapshot : Hlc) (db : DatabaseState) : DatabaseState :=
  { db with
    activeReaders := db.activeReaders.insert snapshot
      ((db.activeReaders.get? snapshot).getD 0 + 1) }

def unregisterReaderSnapshot (snapshot : Hlc) (db : DatabaseState) : DatabaseState :=
  gcVersions { db with
    activeReaders :=
      match db.activeReaders.get? snapshot with
      | some count =>
        if count > 1 then db.activeReaders.insert snapshot (count - 1)
        else db.activeReaders.erase snapshot
      | none => db.activeReaders }

/-- The watermark is the least snapshot that is registered. -/
theorem readerWatermark_eq_some {db : DatabaseState} {w : Hlc} :
    db.readerWatermark = some w ↔ (∃ n, db.activeReaders.get? w = some n) ∧
      ∀ r, (∃ n, db.activeReaders.get? r = some n) → w ≤ r := by
  simp only [readerWatermark, ← mem_entries_iff]
  obtain ⟨_ | ⟨e, es⟩, hsorted⟩ := db.activeReaders
  · simp
  · have hle : ∀ r, (∃ n, (r, n) ∈ e :: es) → e.1 ≤ r := by
      rintro r ⟨n, hr⟩
      rcases mem_cons.mp hr with rfl | hr
      · exact le_rfl
      · exact ((pairwise_cons.mp hsorted).1 _ hr).le
    constructor
    · rintro ⟨⟩
      exact ⟨⟨e.2, mem_cons_self⟩, hle⟩
    · rintro ⟨hw, hmin⟩
      exact congrArg some (le_antisymm (hle w hw) (hmin e.1 ⟨e.2, mem_cons_self⟩))

theorem readerWatermark_eq_none {db : DatabaseState} :
    db.readerWatermark = none ↔ ∀ r, ¬ ∃ n, db.activeReaders.get? r = some n := by
  simp only [readerWatermark, ← mem_entries_iff]
  rcases db.activeReaders.entries with _ | ⟨e, es⟩
  · simp
  · exact iff_of_false nofun fun h => h e.1 ⟨e.2, mem_cons_self⟩

end DatabaseState

/-- A database behind its lock, and the snapshots of the handles that are live. -/
structure SharedDatabase where
  inner : DatabaseState
  readers : List Hlc

/-- What becomes of handles, which are known by their snapshots.  In between, calls on the
database change it as they like but for its readers. -/
inductive ReaderEvent where
  | beginRead
  | clone (snapshot : Hlc)
  | drop (snapshot : Hlc)
  | call (inner : DatabaseState)

namespace SharedDatabase

def beginRead (s : SharedDatabase) : SharedDatabase :=
  ⟨s.inner.registerReaderSnapshot s.inner.currentHlc, s.inner.currentHlc :: s.readers⟩

def step (s : SharedDatabase) : ReaderEvent → SharedDatabase
  | .beginRead => s.beginRead
  | .clone snapshot =>
    if snapshot ∈ s.readers then
      ⟨s.inner.registerReaderSnapshot snapshot, snapshot :: s.readers⟩
    else s
  | .drop snapshot =>
    if snapshot ∈ s.readers then
      ⟨s.inner.unregisterReaderSnapshot snapshot, s.readers.erase snapshot⟩
    else s
  | .call inner => ⟨{ inner with activeReaders := s.inner.activeReaders }, s.readers⟩

/-! ### The watermark -/

/-- The database counts the live handles of each snapshot. -/
def Counted (s : SharedDatabase) : Prop :=
  ∀ h, s.inner.activeReaders.get? h =
    if s.readers.count h = 0 then none else some (s.readers.count h)

variable {s : SharedDatabase}

theorem Counted.register (hs : s.Counted) (snapshot : Hlc) :
    Counted ⟨s.inner.registerReaderSnapshot snapshot, snapshot :: s.readers⟩ := by
  intro h
  by_cases heq : h = snapshot
  · subst heq
    have hget := hs h
    simp only [DatabaseState.registerReaderSnapshot, hget]
    split <;> simp_all
  · simp only [DatabaseState.registerReaderSnapshot, get?_insert_ne heq,
      count_cons_of_ne (Ne.symm heq)]
    exact hs h

theorem Counted.unregister (hs : s.Counted) {snapshot : Hlc} (hr : snapshot ∈ s.readers) :
    Counted ⟨s.inner.unregisterReaderSnapshot snapshot, s.readers.erase snapshot⟩ := by
  have hpos : s.readers.count snapshot ≠ 0 := (count_pos_iff.mpr hr).ne'
  have hget : s.inner.activeReaders.get? snapshot = some (s.readers.count snapshot) :=
    (hs snapshot).trans (if_neg hpos)
  intro h
  simp only [DatabaseState.unregisterReaderSnapshot, DatabaseState.gcVersions, hget]
  by_cases heq : h = snapshot
  · subst heq
    rw [count_erase_self]
    -- The last handle takes the entry of its snapshot away.
    split
    · rw [get?_insert_self, if_neg (by omega)]
    · rw [get?_erase_self, if_pos (by omega)]
  · rw [count_erase_of_ne heq, ← hs h]
    split
    · exact get?_insert_ne heq
    · exact get?_erase_ne heq

theorem Counted.step (hs : s.Counted) (e : ReaderEvent) : (s.step e).Counted := by
  cases e with
  | beginRead => exact hs.register _
  | clone snapshot =>
    rw [SharedDatabase.step]
    split
    · exact hs.register _
    · exact hs
  | drop snapshot =>
    rw [SharedDatabase.step]
    split
    · rename_i hr
      exact hs.unregister hr
    · exact hs
  | call inner => exact hs

theorem Counted.isSome_iff (hs : s.Counted) {h : Hlc} :
    (∃ n, s.inner.activeReaders.get? h = some n) ↔ h ∈ s.readers := by
  simp only [hs h, count_eq_zero]
  split <;> simp_all

end SharedDatabase

namespace DatabaseState

/-! ### Collecting versions -/

variable {snapshot : Hlc} {vs : List VersionedValue}

/-- What comes before a version that is seen does not matter. -/
theorem selectVersion_drop {n : Nat} (hn : n < vs.length)
    (hseen : ∀ v ∈ vs.take (n + 1), v.hlc ≤ snapshot) (a b : Option Value) :
    selectVersion snapshot a vs = selectVersion snapshot b (vs.drop n) := by
  -- The value so far is forgotten at the first version that is seen.
  induction n generalizing vs a with
  | zero =>
    obtain ⟨v, vs, rfl⟩ := exists_cons_of_length_pos hn
    have hv := hseen v (by simp)
    rw [drop_zero, selectVersion, selectVersion, if_pos hv, if_pos hv]
  | succ n ih =>
    obtain ⟨v, vs, rfl⟩ := exists_cons_of_length_pos (Nat.zero_lt_of_lt hn)
    rw [selectVersion, if_pos (hseen v (by simp))]
    exact ih (Nat.lt_of_succ_lt_succ hn) (fun u hu => hseen u (by simp [hu])) _

/-- Only versions before one that every reader sees are dropped. -/
theorem retained_eq_drop (watermark : Option Hlc) (vs : List VersionedValue) :
    ∃ n, retained watermark vs = vs.drop n ∧ (n = 0 ∨ n < vs.length ∧
      ∀ v ∈ vs.take (n + 1), ∀ wm, watermark = some wm → v.hlc ≤ wm) := by
  unfold retained
  split
  · exact ⟨0, rfl, .inl rfl⟩
  rename_i hlen
  rcases watermark with _ | wm
  -- Without readers the last version stays.
  · have hne : vs ≠ [] := ne_nil_of_length_pos (by omega)
    refine ⟨vs.length - 1, ?_, .inr ⟨by omega, fun _ _ _ => nofun⟩⟩
    simp [drop_length_sub_one hne, getLast?_eq_getLast_of_ne_nil hne]
  -- Otherwise the versions up to the watermark go, except the last one of them.
  · refine ⟨_, rfl, ?_⟩
    have hprefix := takeWhile_prefix (l := vs) fun version => version.hlc ≤ wm
    have htake := prefix_iff_eq_take.mp hprefix
    have hle := hprefix.length_le
    rcases Nat.eq_zero_or_pos (vs.takeWhile fun version => version.hlc ≤ wm).length with h0 | hpos
    · exact .inl (by rw [h0])
    · refine .inr ⟨by omega, fun v hv wm' heq => ?_⟩
      rw [Nat.sub_add_cancel hpos, ← htake] at hv
      cases heq
      simpa using mem_takeWhile_imp hv

theorem lookupSnapshotVersion_eq_some {db : DatabaseState} {collection : String} {key : Uuid}
    (h : db.versions collection key ≠ []) (snapshot : Hlc) :
    db.lookupSnapshotVersion collection key snapshot =
      some (selectVersion snapshot none (db.versions collection key)) := by
  rw [lookupSnapshotVersion]
  split
  · contradiction
  · rename_i heq
    rw [heq]

theorem gcVersions_spec {db : DatabaseState} {collection : String} {key : Uuid}
    (h : ∀ v ∈ db.versions collection key,
      (∀ wm, db.readerWatermark = some wm → v.hlc ≤ wm) → v.hlc ≤ snapshot) :
    db.gcVersions.lookupSnapshotVersion collection key snapshot =
      db.lookupSnapshotVersion collection key snapshot := by
  obtain ⟨n, hdrop, hn⟩ := retained_eq_drop db.readerWatermark (db.versions collection key)
  have hgc : db.gcVersions.versions collection key = (db.versions collection key).drop n := hdrop
  rcases hn with rfl | ⟨hlt, hseen⟩
  · rw [lookupSnapshotVersion, hgc, drop_zero, lookupSnapshotVersion]
  · have hne : db.versions collection key ≠ [] := ne_nil_of_length_pos (by omega)
    rw [lookupSnapshotVersion_eq_some hne, lookupSnapshotVersion_eq_some (by simpa [hgc] using hlt),
      hgc]
    exact congrArg some (selectVersion_drop hlt
      (fun v hv => h v (mem_of_mem_take hv) (hseen v hv)) _ _).symm

/-- **Collecting versions** is not seen by a reader at any snapshot that some reader has
registered or passed, or past the whole history if there is none; the oldest snapshot is
that of a live handle. -/
theorem version_gc_invisible :
    (∀ (db : DatabaseState) (collection : String) (key : Uuid) (snapshot : Hlc),
      ((∃ r n, db.activeReaders.get? r = some n ∧ r ≤ snapshot) ∨
        (∀ r, db.activeReaders.get? r = none) ∧
          ∀ v ∈ db.versions collection key, v.hlc ≤ snapshot) →
      db.gcVersions.lookupSnapshotVersion collection key snapshot =
        db.lookupSnapshotVersion collection key snapshot) ∧
    ∀ (db : DatabaseState) (events : List ReaderEvent), db.activeReaders = SortedMap.empty →
      let s := events.foldl SharedDatabase.step ⟨db, []⟩
      (∀ w, s.inner.readerWatermark = some w ↔ w ∈ s.readers ∧ ∀ r ∈ s.readers, w ≤ r) ∧
        (s.inner.readerWatermark = none ↔ s.readers = []) := by
  refine ⟨fun db collection key snapshot h => gcVersions_spec fun v hv hwm => ?_, ?_⟩
  · rcases h with ⟨r, n, hr, hle⟩ | ⟨-, hpast⟩
    · rcases hw : db.readerWatermark with _ | wm
      · exact absurd ⟨n, hr⟩ (readerWatermark_eq_none.mp hw r)
      · exact ((hwm wm hw).trans ((readerWatermark_eq_some.mp hw).2 r ⟨n, hr⟩)).trans hle
    · exact hpast v hv
  · intro db events hempty s
    have hs : s.Counted := foldlRecOn events _ (fun h => by simp [hempty])
      fun s hs e _ => SharedDatabase.Counted.step hs e
    simp only [readerWatermark_eq_some, readerWatermark_eq_none, hs.isSome_iff,
      eq_nil_iff_forall_not_mem, implies_true, and_self]

end DatabaseState

end GrumpyDB
