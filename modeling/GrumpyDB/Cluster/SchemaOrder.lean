/-
What becomes of schema entries on one node.

What a node knows of an index comes from an entry with the last stamp (`Latest`), so the order
in which entries come matters only where two last entries of an index differ. The history a node
serves is a map by versions, and nodes allocate versions on their own, so an entry may take the
place of that of another index.
-/
import GrumpyDB.Lib.Refine
import GrumpyDB.Cluster.Convergence

namespace GrumpyDB

open List Option SortedMap

def IndexEntry.livePath (x : IndexEntry) : Option String :=
  if x.tombstone then none else some x.fieldPath

def SchemaOp.livePath : SchemaOp → Option String
  | createIndex _ fieldPath => some fieldPath
  | dropIndex _ => none

theorem entryMatches_iff {x : IndexEntry} {op : SchemaOp} :
    entryMatches x op = true ↔ x.livePath = op.livePath := by
  cases op <;> cases hx : x.tombstone <;>
    simp [entryMatches, IndexEntry.livePath, SchemaOp.livePath]

namespace SchemaState

variable {s : SchemaState} {e : SchemaLogEntry} {entries : List SchemaLogEntry} {key : IndexKey}
  {x : IndexEntry}

def livePath (s : SchemaState) (key : IndexKey) : Option String :=
  (s.get key).map IndexEntry.fieldPath

theorem livePath_of_some (h : s.indexes.get? key = some x) : s.livePath key = x.livePath := by
  cases hx : x.tombstone <;> simp [livePath, get, h, IndexEntry.livePath, hx]

theorem livePath_of_none (h : s.indexes.get? key = none) : s.livePath key = none := by
  simp [livePath, get, h]

/-! ### Applying one entry -/

theorem indexes_apply : (s.apply e).indexes =
    if s.outcome e = .applied then s.indexes.insert e.op.key (s.newEntry e) else s.indexes := by
  dsimp only [apply, insertOrReplace]
  split_ifs <;> rfl

theorem appliedLog_apply : (s.apply e).appliedLog =
    if s.outcome e = .applied then s.appliedLog.insert e.version e else s.appliedLog := by
  dsimp only [apply, insertOrReplace]
  split_ifs <;> rfl

/-- An entry wins if nothing is known of its index that is as late. -/
theorem outcome_eq_applied : s.outcome e = .applied ↔
    ∀ x, s.indexes.get? e.op.key = some x → x.lastModifiedHlc < e.hlc := by
  rcases hx : s.indexes.get? e.op.key with _ | x
  · simp [outcome, hx]
  · by_cases hlt : x.lastModifiedHlc < e.hlc
    · simp [outcome, hx, hlt]
    · simp only [outcome, hx, hlt, if_false, some.injEq, forall_eq']
      split <;> simp

theorem livePath_newEntry : (s.newEntry e).livePath = e.op.livePath :=
  entryMatches_iff.mp entryMatches_newEntry

/-- What a node knows comes from the last of these entries. -/
structure Latest (entries : List SchemaLogEntry) (s : SchemaState) : Prop where
  known : ∀ e ∈ entries, ∃ x, s.indexes.get? e.op.key = some x ∧ e.hlc ≤ x.lastModifiedHlc
  made : ∀ key x, s.indexes.get? key = some x →
    ∃ e ∈ entries, e.op.key = key ∧ e.hlc = x.lastModifiedHlc ∧ e.op.livePath = x.livePath

theorem Latest.apply (h : Latest entries s) : Latest (entries ++ [e]) (s.apply e) := by
  by_cases happ : s.outcome e = .applied
  · have hlater := outcome_eq_applied.mp happ
    have hself : (s.apply e).indexes.get? e.op.key = some (s.newEntry e) := by
      rw [indexes_apply, if_pos happ, Table.get?_insert_self]
    have hother : ∀ key ≠ e.op.key, (s.apply e).indexes.get? key = s.indexes.get? key := by
      intro key hkey
      rw [indexes_apply, if_pos happ, Table.get?_insert_ne hkey]
    refine ⟨fun e' he' => ?_, fun key x hx => ?_⟩
    · by_cases hkey : e'.op.key = e.op.key
      · refine ⟨_, hkey ▸ hself, ?_⟩
        rw [lastModifiedHlc_newEntry]
        rcases mem_append.mp he' with he' | he'
        · obtain ⟨x, hx, hle⟩ := h.known e' he'
          exact hle.trans (hlater x (hkey ▸ hx)).le
        · rw [mem_singleton.mp he']
      · rcases mem_append.mp he' with he' | he'
        · rw [hother _ hkey]
          exact h.known e' he'
        · exact absurd (by rw [mem_singleton.mp he']) hkey
    · by_cases hkey : key = e.op.key
      · subst hkey
        obtain rfl := some.inj (hself.symm.trans hx)
        exact ⟨e, by simp, rfl, lastModifiedHlc_newEntry.symm, livePath_newEntry.symm⟩
      · rw [hother _ hkey] at hx
        obtain ⟨e', he', hmade⟩ := h.made key x hx
        exact ⟨e', mem_append_left _ he', hmade⟩
  · have hsame : (s.apply e).indexes = s.indexes := by rw [indexes_apply, if_neg happ]
    refine ⟨fun e' he' => ?_, fun key x hx => ?_⟩
    · rw [hsame]
      rcases mem_append.mp he' with he' | he'
      · exact h.known e' he'
      · obtain rfl := mem_singleton.mp he'
        rw [outcome_eq_applied] at happ
        push Not at happ
        exact happ
    · obtain ⟨e', he', hmade⟩ := h.made key x (hsame ▸ hx)
      exact ⟨e', mem_append_left _ he', hmade⟩

theorem latest_replay (entries : List SchemaLogEntry) : Latest entries (replay entries) := by
  induction entries using reverseRecOn with
  | nil => exact ⟨by simp, fun key x hx => by simp [replay, applyRemoteSchemaEntries, new] at hx⟩
  | append_singleton entries e ih =>
    rw [replay_concat]
    exact ih.apply

theorem Latest.livePath_eq (h : Latest entries s) (he : e ∈ entries)
    (hlast : ∀ c ∈ entries, c.op.key = e.op.key → c.hlc ≤ e.hlc)
    (hsame : ∀ c ∈ entries, c.op.key = e.op.key → c.hlc = e.hlc →
      c.op.livePath = e.op.livePath) : s.livePath e.op.key = e.op.livePath := by
  obtain ⟨x, hx, hle⟩ := h.known e he
  obtain ⟨c, hc, hkey, hhlc, hpath⟩ := h.made _ x hx
  have hc' : c.hlc = e.hlc := le_antisymm (hlast c hc hkey) (hhlc ▸ hle)
  rw [livePath_of_some hx, ← hpath, hsame c hc hkey hc']

theorem Latest.livePath_eq_none (h : Latest entries s) (hno : ∀ e ∈ entries, e.op.key ≠ key) :
    s.livePath key = none := by
  rcases hx : s.indexes.get? key with _ | x
  · exact livePath_of_none hx
  · obtain ⟨e, he, hkey, -⟩ := h.made key x hx
    exact absurd hkey (hno e he)

/-! ### The order of entries -/

/-- Any two last entries of an index leave the same field path. -/
def Untied (entries : Finset SchemaLogEntry) : Prop :=
  ∀ a ∈ entries, ∀ b ∈ entries, b.op.key = a.op.key → b.hlc = a.hlc →
    (∀ c ∈ entries, c.op.key = a.op.key → c.hlc ≤ a.hlc) → b.op.livePath = a.op.livePath

theorem get?_applyRemoteSchemaEntries (hx : s.indexes.get? key = some x)
    (hlast : ∀ c ∈ entries, c.op.key = key → c.hlc ≤ x.lastModifiedHlc) :
    (s.applyRemoteSchemaEntries entries).indexes.get? key = some x := by
  induction entries generalizing s with
  | nil => exact hx
  | cons e entries ih =>
    refine ih ?_ fun c hc => hlast c (mem_cons_of_mem _ hc)
    rw [indexes_apply]
    split_ifs with happ
    · have hne : key ≠ e.op.key := by
        rintro rfl
        exact not_lt.mpr (hlast e mem_cons_self rfl) (outcome_eq_applied.mp happ x hx)
      rw [Table.get?_insert_ne hne, hx]
    · exact hx

theorem livePath_replay_cons (hlast : ∀ c ∈ entries, c.op.key = e.op.key → c.hlc ≤ e.hlc) :
    (replay (e :: entries)).livePath e.op.key = e.op.livePath := by
  have happ : new.outcome e = .applied := rfl
  have hfirst : (new.apply e).indexes.get? e.op.key = some (new.newEntry e) := by
    rw [indexes_apply, if_pos happ, Table.get?_insert_self]
  have hkept := get?_applyRemoteSchemaEntries hfirst
    (fun c hc hkey => (hlast c hc hkey).trans_eq lastModifiedHlc_newEntry.symm)
  exact (livePath_of_some hkept).trans livePath_newEntry

/-- **The order of entries.**  All ways to apply the entries of a set, with repetitions,
lead to the same live indexes if and only if no two last entries of an index differ. -/
theorem schema_order_iff (entries : Finset SchemaLogEntry) :
    (∀ order order' : List SchemaLogEntry, (∀ e, e ∈ order ↔ e ∈ entries) →
      (∀ e, e ∈ order' ↔ e ∈ entries) → ∀ key,
      (replay order).livePath key = (replay order').livePath key) ↔ Untied entries := by
  constructor
  · intro h a ha b hb hkey hhlc hlast
    have horder : ∀ e ∈ entries, ∀ e', e' ∈ e :: entries.toList ↔ e' ∈ entries := by
      intro e he e'
      rw [mem_cons, Finset.mem_toList, or_iff_right_of_imp]
      rintro rfl
      exact he
    have hsame := h _ _ (horder a ha) (horder b hb) a.op.key
    rw [livePath_replay_cons (by simpa using hlast), ← hkey, livePath_replay_cons] at hsame
    · exact hsame.symm
    · intro c hc hck
      exact (hlast c (Finset.mem_toList.mp hc) (hck.trans hkey)).trans_eq hhlc.symm
  · intro huntied order order' horder horder' key
    have h := latest_replay order
    have h' := latest_replay order'
    rcases hx : (replay order).indexes.get? key with _ | x
    · have hno : ∀ e ∈ entries, e.op.key ≠ key := by
        rintro e he rfl
        obtain ⟨y, hy, -⟩ := h.known e ((horder e).mpr he)
        cases hx.symm.trans hy
      rw [livePath_of_none hx, h'.livePath_eq_none fun e he => hno e ((horder' e).mp he)]
    · obtain ⟨e, he, rfl, hhlc, hpath⟩ := h.made key x hx
      have hlast : ∀ c ∈ entries, c.op.key = e.op.key → c.hlc ≤ e.hlc := by
        intro c hc hkey
        obtain ⟨y, hy, hle⟩ := h.known c ((horder c).mpr hc)
        obtain rfl := some.inj (hx.symm.trans (hkey ▸ hy))
        exact hhlc ▸ hle
      have hsame := fun c hc hkey hhlc' => huntied e ((horder e).mp he) c hc hkey hhlc' hlast
      rw [livePath_of_some hx, ← hpath, h'.livePath_eq ((horder' e).mpr ((horder e).mp he))]
      · exact fun c hc => hlast c ((horder' c).mp hc)
      · exact fun c hc => hsame c ((horder' c).mp hc)

theorem schema_order_tie : ∃ a b key,
    (replay [a, b]).livePath key ≠ (replay [b, a]).livePath key :=
  ⟨⟨1, 5, .createIndex ⟨"t", "d", "c", "i"⟩ "f"⟩, ⟨1, 5, .createIndex ⟨"t", "d", "c", "i"⟩ "g"⟩,
    ⟨"t", "d", "c", "i"⟩, by decide +kernel⟩

/-! ### Operations of the node itself -/

def localEntry (s : SchemaState) (op : SchemaOp) (hlc : UInt64) : SchemaLogEntry :=
  ⟨s.nextVersion.version, hlc, op⟩

/-- The state shows the operation, and the entry is served to those behind its version. -/
def Shows (s : SchemaState) (e : SchemaLogEntry) : Prop :=
  s.livePath e.op.key = e.op.livePath ∧ ∀ v < e.version, e ∈ s.entriesSince v

/-- **A local operation takes effect** if and only if its stamp is later than what is known
of the index, or the state shows its entry as it is (a version that wraps around is served
to nobody). -/
theorem local_ddl_iff (s : SchemaState) (op : SchemaOp) (hlc : UInt64) :
    (s.applyLocalDdl op hlc).Shows (s.localEntry op hlc) ↔
      (∀ x, s.indexes.get? op.key = some x → x.lastModifiedHlc < hlc) ∨
        s.Shows (s.localEntry op hlc) := by
  have hiff : s.nextVersion.outcome (s.localEntry op hlc) = .applied ↔
      ∀ x, s.indexes.get? op.key = some x → x.lastModifiedHlc < hlc := outcome_eq_applied
  by_cases happ : s.nextVersion.outcome (s.localEntry op hlc) = .applied
  · refine iff_of_true ⟨?_, fun v hv => ?_⟩ (.inl (hiff.mp happ))
    · refine (livePath_of_some ?_).trans (livePath_newEntry (s := s.nextVersion))
      exact (congrArg (Table.get? · _) (indexes_apply.trans (if_pos happ))).trans
        Table.get?_insert_self
    · have hlog : ((s.applyLocalDdl op hlc).appliedLog.get? (s.localEntry op hlc).version) =
          some (s.localEntry op hlc) :=
        (congrArg (get? · _) (appliedLog_apply.trans (if_pos happ))).trans
          get?_insert_self
      refine mem_map.mpr ⟨_, mem_filter.mpr ⟨mem_entries_iff.mpr hlog, ?_⟩, rfl⟩
      exact decide_eq_true hv
  · have hindexes : (s.applyLocalDdl op hlc).indexes = s.indexes :=
      indexes_apply.trans (if_neg happ)
    have hlog : (s.applyLocalDdl op hlc).appliedLog = s.appliedLog :=
      appliedLog_apply.trans (if_neg happ)
    rw [or_iff_right fun hlater => happ (hiff.mpr hlater)]
    simp only [Shows, livePath, get, entriesSince, hindexes, hlog]

theorem drop_in_same_millisecond :
    let key : IndexKey := ⟨"t", "d", "c", "i"⟩
    let s := new.applyLocalDdl (.createIndex key "f") 5
    ¬ (s.applyLocalDdl (.dropIndex key) 5).Shows (s.localEntry (.dropIndex key) 5) := by
  intro key s h
  have hlive : (s.applyLocalDdl (.dropIndex key) 5).livePath key = some "f" := by decide +kernel
  cases hlive.symm.trans h.1

/-! ### The history a node serves -/

inductive Event where
  | ddl (op : SchemaOp) (hlc : UInt64)
  | remote (entry : SchemaLogEntry)

def entryOf (s : SchemaState) : Event → SchemaLogEntry
  | .ddl op hlc => s.localEntry op hlc
  | .remote entry => entry

def step (s : SchemaState) : Event → SchemaState
  | .ddl op hlc => s.applyLocalDdl op hlc
  | .remote entry => s.apply entry

def run (s : SchemaState) (events : List Event) : SchemaState := events.foldl step s

/-- If the entry wins, it has a version that is served, and does not take the place of one
that is still the last of another index. -/
def KeepsHistory (s : SchemaState) (e : SchemaLogEntry) : Prop :=
  s.outcome e = .applied → 0 < e.version ∧
    ∀ e', s.appliedLog.get? e.version = some e' → e'.op.key = e.op.key ∨
      ∃ x, s.indexes.get? e'.op.key = some x ∧ e'.hlc < x.lastModifiedHlc

def RunsKeeping (s : SchemaState) (events : List Event) : Prop :=
  Along step (fun s ev => s.KeepsHistory (s.entryOf ev)) events s

/-- The last entry of every index is in the history, and the others are settled. -/
structure Logged (s : SchemaState) : Prop where
  current : ∀ key x, s.indexes.get? key = some x → ∃ e, s.appliedLog.get? e.version = some e ∧
    0 < e.version ∧ e.op.key = key ∧ e.hlc = x.lastModifiedHlc ∧ e.op.livePath = x.livePath
  settled : ∀ v e, s.appliedLog.get? v = some e → e.version = v ∧ s.Settled e

theorem Logged.apply (h : s.Logged) (hkeep : s.KeepsHistory e) : (s.apply e).Logged := by
  by_cases happ : s.outcome e = .applied
  · obtain ⟨hpos, hfree⟩ := hkeep happ
    have hlater := outcome_eq_applied.mp happ
    have hindexes := (indexes_apply).trans (if_pos happ)
    have hlog := (appliedLog_apply).trans (if_pos happ)
    have hself : (s.apply e).indexes.get? e.op.key = some (s.newEntry e) := by
      rw [hindexes, Table.get?_insert_self]
    refine ⟨fun key x hx => ?_, fun v e' he' => ?_⟩
    · by_cases hkey : key = e.op.key
      · subst hkey
        obtain rfl := some.inj (hself.symm.trans hx)
        refine ⟨e, ?_, hpos, rfl, lastModifiedHlc_newEntry.symm, livePath_newEntry.symm⟩
        rw [hlog, get?_insert_self]
      · rw [hindexes, Table.get?_insert_ne hkey] at hx
        obtain ⟨e', he', hpos', rfl, hhlc, hpath⟩ := h.current key x hx
        have hne : e'.version ≠ e.version := by
          intro hv
          rcases hfree e' (hv ▸ he') with hsame | ⟨y, hy, hlt⟩
          · exact hkey hsame
          · obtain rfl := some.inj (hx.symm.trans hy)
            exact hlt.ne hhlc
        exact ⟨e', by rw [hlog, get?_insert_ne hne, he'], hpos', rfl, hhlc, hpath⟩
    · rw [hlog] at he'
      by_cases hv : v = e.version
      · subst hv
        rw [get?_insert_self] at he'
        cases he'
        exact ⟨rfl, _, hself, .inr ⟨lastModifiedHlc_newEntry.symm, entryMatches_newEntry⟩⟩
      · rw [get?_insert_ne hv] at he'
        obtain ⟨hver, x, hx, hle⟩ := h.settled v e' he'
        refine ⟨hver, ?_⟩
        by_cases hkey : e'.op.key = e.op.key
        · refine ⟨_, hkey ▸ hself, .inl ?_⟩
          rw [lastModifiedHlc_newEntry]
          have hlt := hlater x (hkey ▸ hx)
          exact hle.elim (·.trans hlt) (·.1.trans_lt hlt)
        · refine ⟨x, ?_, hle⟩
          rw [hindexes, Table.get?_insert_ne hkey, hx]
  · have hindexes := (indexes_apply).trans (if_neg happ)
    have hlog := (appliedLog_apply).trans (if_neg happ)
    refine ⟨fun key x hx => ?_, fun v e' he' => ?_⟩
    · rw [hlog]
      exact h.current key x (hindexes ▸ hx)
    · obtain ⟨hver, x, hx, hle⟩ := h.settled v e' (hlog ▸ he')
      exact ⟨hver, x, hindexes ▸ hx, hle⟩

theorem Logged.step (h : s.Logged) {ev : Event} (hkeep : s.KeepsHistory (s.entryOf ev)) :
    (s.step ev).Logged := by
  cases ev with
  | ddl op hlc =>
    have hnext : s.nextVersion.Logged := ⟨h.current, h.settled⟩
    exact hnext.apply hkeep
  | remote entry => exact h.apply hkeep

/-- **A newcomer rebuilds the schema** from the history of a node, if no entry ever took the
place of the last one of another index. -/
theorem schema_rebuilds (events : List Event) (hrun : new.RunsKeeping events) (key : IndexKey) :
    (replay ((new.run events).entriesSince 0)).livePath key = (new.run events).livePath key := by
  have hnew : new.Logged := ⟨fun _ _ hx => by simp [new] at hx, fun _ _ he => by simp [new] at he⟩
  have h : (new.run events).Logged := Along.run (fun _ _ h hkeep => h.step hkeep) hrun hnew
  generalize new.run events = s at h
  have hmem : ∀ e, e ∈ s.entriesSince 0 ↔ ∃ v, s.appliedLog.get? v = some e ∧ 0 < v := by
    simp [entriesSince, mem_entries_iff]
  have hlatest := latest_replay (s.entriesSince 0)
  have hsettled : ∀ c ∈ s.entriesSince 0, s.Settled c := by
    intro c hc
    obtain ⟨v, hv, -⟩ := (hmem c).mp hc
    exact (h.settled v c hv).2
  rcases hx : s.indexes.get? key with _ | x
  · rw [livePath_of_none hx]
    refine hlatest.livePath_eq_none fun c hc => ?_
    rintro rfl
    obtain ⟨y, hy, -⟩ := hsettled c hc
    cases hx.symm.trans hy
  · obtain ⟨e, he, hpos, rfl, hhlc, hpath⟩ := h.current key x hx
    rw [livePath_of_some hx, ← hpath]
    have hle : ∀ c ∈ s.entriesSince 0, c.op.key = e.op.key →
        c.hlc < e.hlc ∨ c.hlc = e.hlc ∧ c.op.livePath = e.op.livePath := by
      intro c hc hkey
      obtain ⟨y, hy, hle⟩ := hsettled c hc
      obtain rfl := some.inj (hx.symm.trans (hkey ▸ hy))
      rw [hhlc, hpath]
      exact hle.imp_right (And.imp_right fun hm => (entryMatches_iff.mp hm).symm)
    refine hlatest.livePath_eq ((hmem e).mpr ⟨_, he, hpos⟩) ?_ ?_
    · exact fun c hc hkey => (hle c hc hkey).elim le_of_lt fun heq => heq.1.le
    · exact fun c hc hkey heq => (hle c hc hkey).elim (fun hlt => absurd heq hlt.ne) And.right

theorem schema_rebuilds_two_versions :
    let key : IndexKey := ⟨"t", "d", "c", "i"⟩
    let s := new.run [.ddl (.createIndex key "f") 5, .remote ⟨2, 6, .createIndex key "g"⟩]
    s.livePath key = some "g" ∧ (replay (s.entriesSince 0)).livePath key = s.livePath key := by
  intro key s
  have hnone : (new.step (.ddl (.createIndex key "f") 5)).appliedLog.get? 2 = none := by
    decide +kernel
  have hrun : new.RunsKeeping
      [.ddl (.createIndex key "f") 5, .remote ⟨2, 6, .createIndex key "g"⟩] := by
    refine ⟨fun _ => ⟨by decide, fun e' he' => nomatch he'⟩, fun _ => ⟨by decide, ?_⟩, trivial⟩
    exact fun e' he' => nomatch hnone.symm.trans he'
  exact ⟨by decide +kernel, schema_rebuilds _ hrun key⟩

theorem schema_not_rebuilt :
    let s := new.run [.ddl (.createIndex ⟨"t", "d", "c", "i"⟩ "f") 5,
      .remote ⟨1, 6, .createIndex ⟨"t", "d", "c", "j"⟩ "g"⟩]
    ∃ key, (replay (s.entriesSince 0)).livePath key ≠ s.livePath key := by
  intro s
  exact ⟨⟨"t", "d", "c", "i"⟩, by decide +kernel⟩

end SchemaState

end GrumpyDB
