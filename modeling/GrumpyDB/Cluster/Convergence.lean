/-
When schema gossip converges.

A node allocates versions by itself, so two nodes can give the same version to different
operations and never exchange them. If every operation is issued on a node that is behind no
other one, the nodes are replicas of one ledger, the entries applied in ascending order of
versions.
-/
import GrumpyDB.Cluster.Schema
import Mathlib.Data.Fintype.Basic

namespace GrumpyDB

open List

namespace SchemaState

variable {s : SchemaState} {e : SchemaLogEntry}

/-! ### Applying one entry -/

theorem apply_of_applied (h : s.outcome e = .applied) (hv : s.version ≤ e.version) :
    s.apply e = ⟨e.version, s.indexes.insert e.op.key (s.newEntry e),
      s.appliedLog.insert e.version e⟩ := by
  rcases hv.lt_or_eq with hlt | heq
  · simp [apply, h, insertOrReplace, hlt]
  · simp [apply, h, insertOrReplace, heq]

theorem apply_of_not_applied (h : s.outcome e ≠ .applied) (hv : e.version ≤ s.version) :
    s.apply e = s := by
  simp [apply, h, hv]

theorem outcome_congr {t : SchemaState} (h : s.indexes = t.indexes) (e : SchemaLogEntry) :
    s.outcome e = t.outcome e := by
  simp only [outcome, h]

theorem newEntry_congr {t : SchemaState} (h : s.indexes = t.indexes) (e : SchemaLogEntry) :
    s.newEntry e = t.newEntry e := by
  simp only [newEntry, h]

theorem version_apply : (s.apply e).version = max s.version e.version := by
  rcases lt_or_ge s.version e.version with hv | hv
  · by_cases h : s.outcome e = .applied <;> simp [apply, h, insertOrReplace, hv, hv.le]
  · by_cases h : s.outcome e = .applied <;> simp [apply, h, insertOrReplace, hv, hv.not_gt]

theorem version_le_applyRemoteSchemaEntries (entries : List SchemaLogEntry) :
    s.version ≤ (s.applyRemoteSchemaEntries entries).version := by
  induction entries generalizing s with
  | nil => exact le_rfl
  | cons e entries ih =>
    have hstep : s.version ≤ (s.apply e).version := version_apply ▸ le_max_left ..
    exact hstep.trans ih

theorem entryMatches_newEntry : entryMatches (s.newEntry e) e.op = true := by
  rcases he : e.op with ⟨key, fieldPath⟩ | ⟨key⟩ <;> simp [newEntry, he, entryMatches]

theorem lastModifiedHlc_newEntry : (s.newEntry e).lastModifiedHlc = e.hlc := by
  rcases he : e.op with ⟨key, fieldPath⟩ | ⟨key⟩ <;> simp [newEntry, he]

/-! ### Replaying a ledger -/

def replay (entries : List SchemaLogEntry) : SchemaState := new.applyRemoteSchemaEntries entries

theorem replay_concat (entries : List SchemaLogEntry) (e : SchemaLogEntry) :
    replay (entries ++ [e]) = (replay entries).apply e := by
  simp [replay, applyRemoteSchemaEntries]

/-- An entry is settled: the node knows it, or a later one for the same index. -/
def Settled (s : SchemaState) (e : SchemaLogEntry) : Prop :=
  ∃ x, s.indexes.get? e.op.key = some x ∧
    (e.hlc < x.lastModifiedHlc ∨ e.hlc = x.lastModifiedHlc ∧ entryMatches x e.op)

theorem Settled.outcome_ne (h : s.Settled e) : s.outcome e ≠ .applied := by
  obtain ⟨x, hx, hlt | ⟨heq, hmatch⟩⟩ := h
  · simp only [outcome, hx, not_lt.mpr hlt.le, if_false]
    split <;> simp
  · simp [outcome, hx, heq, hmatch]

end SchemaState

open SchemaState

/-- A ledger: versions ascend from above zero, and each entry is applied when
its turn comes. -/
structure Ledger (L : List SchemaLogEntry) : Prop where
  ascending : L.Pairwise fun a b => a.version < b.version
  applied : ∀ A e D, L = A ++ e :: D → (replay A).outcome e = .applied

namespace Ledger

variable {L M : List SchemaLogEntry} {e : SchemaLogEntry}

theorem nil : Ledger [] := ⟨List.Pairwise.nil, by simp⟩

theorem of_prefix (h : Ledger L) (hM : M <+: L) : Ledger M := by
  obtain ⟨D, rfl⟩ := hM
  refine ⟨(pairwise_append.mp h.ascending).1, ?_⟩
  rintro A e D' rfl
  exact h.applied A e (D' ++ D) (by simp)

theorem concat (h : Ledger L) (hver : ∀ x ∈ L, x.version < e.version)
    (happ : (replay L).outcome e = .applied) : Ledger (L ++ [e]) := by
  refine ⟨?_, ?_⟩
  · refine pairwise_append.mpr ⟨h.ascending, pairwise_singleton .., ?_⟩
    simpa using hver
  · intro A x D heq
    rcases eq_nil_or_concat D with rfl | ⟨D, y, rfl⟩
    · obtain ⟨rfl, rfl⟩ : L = A ∧ e = x := by simpa using heq
      exact happ
    · refine h.applied A x D ?_
      have : L ++ [e] = (A ++ x :: D) ++ [y] := by simpa using heq
      exact (append_inj' this rfl).1

theorem lt_of_concat (h : Ledger (M ++ [e])) : ∀ x ∈ M, x.version < e.version := by
  simpa using (pairwise_append.mp h.ascending).2.2

theorem version_replay_le {v : UInt64} (hv : ∀ x ∈ M, x.version ≤ v) :
    (replay M).version ≤ v := by
  induction M using reverseRecOn with
  | nil => exact UInt64.zero_le
  | append_singleton M e ih =>
    rw [replay_concat, version_apply]
    exact max_le (ih fun x hx => hv x (by simp [hx])) (hv e (by simp))

theorem replay_eq (h : Ledger (M ++ [e])) :
    replay (M ++ [e]) = ⟨e.version, (replay M).indexes.insert e.op.key ((replay M).newEntry e),
      (replay M).appliedLog.insert e.version e⟩ := by
  rw [replay_concat]
  exact apply_of_applied (h.applied M e [] rfl)
    (version_replay_le fun x hx => (h.lt_of_concat x hx).le)

theorem appliedLog_replay (h : Ledger M) :
    (replay M).appliedLog.entries = M.map fun e => (e.version, e) := by
  induction M using reverseRecOn with
  | nil => rfl
  | append_singleton M e ih =>
    have hM := ih (h.of_prefix (prefix_append ..))
    rw [h.replay_eq, SortedMap.entries_insert_of_lt, hM, map_append]
    · rfl
    · rw [hM]
      simpa using h.lt_of_concat

theorem settled_replay (h : Ledger M) : ∀ x ∈ M, (replay M).Settled x := by
  induction M using reverseRecOn with
  | nil => simp
  | append_singleton M e ih =>
    have hM : Ledger M := h.of_prefix (prefix_append ..)
    have hkey : (replay (M ++ [e])).indexes.get? e.op.key = some ((replay M).newEntry e) := by
      rw [h.replay_eq, Table.get?_insert_self]
    intro x hx
    rcases mem_append.mp hx with hx | hx
    · obtain ⟨y, hy, hxy⟩ := ih hM x hx
      by_cases hk : x.op.key = e.op.key
      · -- the new entry won, so it is later than the one that settled `x`
        refine ⟨_, hk ▸ hkey, .inl ?_⟩
        have hlt : y.lastModifiedHlc < e.hlc := by
          by_contra hge
          have happ := h.applied M e [] rfl
          simp only [outcome, ← hk, hy, hge, if_false] at happ
          split at happ <;> simp at happ
        rw [lastModifiedHlc_newEntry]
        rcases hxy with hxy | hxy
        · exact hxy.trans hlt
        · exact hxy.1.trans_lt hlt
      · refine ⟨y, ?_, hxy⟩
        rw [h.replay_eq, Table.get?_insert_ne hk]
        exact hy
    · obtain rfl : x = e := by simpa using hx
      exact ⟨_, hkey, .inr ⟨lastModifiedHlc_newEntry.symm, entryMatches_newEntry⟩⟩

end Ledger

/-! ### Replicas of the ledger -/

/-- A node that holds the entries up to its version. -/
structure Replica (L : List SchemaLogEntry) (s : SchemaState) (M : List SchemaLogEntry) :
    Prop where
  indexes : s.indexes = (replay M).indexes
  appliedLog : s.appliedLog = (replay M).appliedLog
  cut : Cut SchemaLogEntry.version L s.version M

namespace Replica

variable {L M : List SchemaLogEntry} {s : SchemaState} {e : SchemaLogEntry}

theorem new (L : List SchemaLogEntry) (hL : ∀ e ∈ L, 0 < e.version) :
    Replica L SchemaState.new [] :=
  ⟨rfl, rfl, by simp, L, rfl, hL⟩

theorem apply_held (hL : Ledger L) (h : Replica L s M) (he : e ∈ M) : s.apply e = s := by
  have hsettled := (hL.of_prefix h.cut.isPrefix).settled_replay e he
  refine apply_of_not_applied ?_ (h.cut.upTo e he)
  rw [outcome_congr h.indexes]
  exact hsettled.outcome_ne

theorem apply_next (hL : Ledger L) (h : Replica L s M) (he : M ++ [e] <+: L) :
    Replica L (s.apply e) (M ++ [e]) := by
  have hled : Ledger (M ++ [e]) := hL.of_prefix he
  obtain ⟨later, rfl⟩ := he
  obtain ⟨later', heq, hlater'⟩ := h.cut.rest
  obtain rfl : e :: later = later' := by simpa using heq
  have hlt : s.version < e.version := hlater' e (by simp)
  have hout : s.outcome e = .applied := by
    rw [outcome_congr h.indexes]
    exact hled.applied M e [] rfl
  have hlast : ∀ x ∈ later, e.version < x.version := by
    have := (pairwise_append.mp hL.ascending).2.2
    exact fun x hx => this e (by simp) x hx
  rw [apply_of_applied hout hlt.le]
  refine ⟨?_, ?_, ?_, later, rfl, hlast⟩
  · rw [hled.replay_eq, newEntry_congr h.indexes, h.indexes]
  · rw [hled.replay_eq, h.appliedLog]
  · intro x hx
    rcases mem_append.mp hx with hx | hx
    · exact (hled.lt_of_concat x hx).le
    · obtain rfl : x = e := by simpa using hx
      exact le_rfl

theorem entriesSince (hL : Ledger L) (h : Replica L s M) (since : UInt64) :
    s.entriesSince since = M.filter fun e => since < e.version := by
  have hlog := (hL.of_prefix h.cut.isPrefix).appliedLog_replay
  simp only [SchemaState.entriesSince, h.appliedLog, hlog, filter_map, map_map]
  exact map_id _

theorem applyRemoteSchemaEntries (hL : Ledger L) (h : Replica L s M) {A : List SchemaLogEntry}
    {entries : List SchemaLogEntry} (hA : A <+: M) (hentries : A ++ entries <+: L) :
    ∃ M', Replica L (s.applyRemoteSchemaEntries entries) M' := by
  obtain ⟨M', hM', -⟩ := absorb (Replica L)
    (fun s M e hs he => (apply_held hL hs he).symm ▸ hs)
    (fun s M e hs he => hs.apply_next hL he) h h.cut.isPrefix hA hentries
  exact ⟨M', hM'⟩

end Replica

/-! ### The cluster -/

namespace Gossip

variable {ι : Type}

/-- A node that no other one is ahead of, with a version left to allocate. -/
def UpToDate (g : Gossip ι) (i : ι) : Prop :=
  (∀ j, (g.node j).version ≤ (g.node i).version) ∧ (g.node i).version.toNat + 1 < 2 ^ 64

instance decidableUpToDate [Fintype ι] (g : Gossip ι) (i : ι) : Decidable (g.UpToDate i) :=
  inferInstanceAs (Decidable (_ ∧ _))

instance decidableQuiet [Fintype ι] (g : Gossip ι) : Decidable g.Quiet :=
  inferInstanceAs (Decidable (∀ i j, (g.node j).version ≤ (g.node i).version))

/-- A message on the wire asks for, or brings, what follows a version that the
node it concerns has reached. -/
def Pending (L : List SchemaLogEntry) (node : ι → SchemaState) : SchemaMessage ι → Prop
  | .hello .. => True
  | .pull i _ since => since ≤ (node i).version ∧ ∃ A, Cut SchemaLogEntry.version L since A
  | .diff i entries => ∃ since ≤ (node i).version, ∃ A,
      Cut SchemaLogEntry.version L since A ∧ A ++ entries <+: L

structure Inv (g : Gossip ι) (L : List SchemaLogEntry) : Prop where
  ledger : Ledger L
  replica : ∀ i, ∃ M, Replica L (g.node i) M
  known : ∀ e ∈ L, ∃ i, e.version ≤ (g.node i).version
  wire : ∀ m ∈ g.wire, Pending L g.node m

theorem inv_new : Inv (new ι) [] where
  ledger := Ledger.nil
  replica i := ⟨[], Replica.new [] (by simp)⟩
  known := by simp
  wire := by simp [new]

variable {g : Gossip ι} {L : List SchemaLogEntry}

variable {m : SchemaMessage ι}

theorem Pending.mono {node node' : ι → SchemaState} (h : Pending L node m)
    (more : List SchemaLogEntry) (hnode : ∀ i, (node i).version ≤ (node' i).version)
    (hmore : ∀ i, ∀ e ∈ more, (node i).version < e.version) : Pending (L ++ more) node' m := by
  cases m with
  | hello i j version => trivial
  | pull i j since =>
    obtain ⟨hle, A, hA⟩ := h
    exact ⟨hle.trans (hnode i), A, hA.append fun e he => hle.trans_lt (hmore i e he)⟩
  | diff i entries =>
    obtain ⟨since, hle, A, hA, hp⟩ := h
    exact ⟨since, hle.trans (hnode i), A, hA.append fun e he => hle.trans_lt (hmore i e he),
      hp.trans (prefix_append ..)⟩

variable {i : ι}

theorem Inv.replica_of_upToDate (h : Inv g L) (hi : UpToDate g i) : Replica L (g.node i) L := by
  obtain ⟨M, hM⟩ := h.replica i
  have hall : Cut SchemaLogEntry.version L (g.node i).version L := by
    refine ⟨fun e he => ?_, [], by simp, by simp⟩
    obtain ⟨j, hj⟩ := h.known e he
    exact hj.trans (hi.1 j)
  exact hM.cut.unique hall ▸ hM

variable [DecidableEq ι]

theorem version_le_update {s : SchemaState} (h : (g.node i).version ≤ s.version) (j : ι) :
    (g.node j).version ≤ (Function.update g.node i s j).version := by
  by_cases hj : j = i
  · subst hj
    simpa using h
  · simp [hj]

theorem Inv.update (h : Inv g L) {s : SchemaState} (hv : (g.node i).version ≤ s.version)
    {M : List SchemaLogEntry} (hs : Replica L s M) :
    Inv { g with node := Function.update g.node i s } L where
  ledger := h.ledger
  replica j := by
    by_cases hj : j = i
    · subst hj
      exact ⟨M, by simpa using hs⟩
    · simpa [hj] using h.replica j
  known e he := by
    obtain ⟨j, hj⟩ := h.known e he
    exact ⟨j, hj.trans (version_le_update hv j)⟩
  wire m hm := by
    have hp := (h.wire m hm).mono [] (version_le_update hv) (by simp)
    simpa using hp

/-! ### One step -/

theorem Inv.ddl (h : Inv g L) (hi : UpToDate g i) (op : SchemaOp) (hlc : UInt64) :
    ∃ L', Inv (g.step (.ddl i op hlc)) L' := by
  set s := g.node i with hs
  set e : SchemaLogEntry := ⟨s.nextVersion.version, hlc, op⟩ with he
  have hrep : Replica L s L := h.replica_of_upToDate hi
  have hlt : s.version < e.version := by
    have hmax := hi.2
    show s.version.toNat < (s.version + 1).toNat
    rw [UInt64.toNat_add, UInt64.toNat_one, Nat.mod_eq_of_lt hmax]
    exact Nat.lt_succ_self _
  have habove : ∀ x ∈ L, x.version < e.version := fun x hx => (hrep.cut.upTo x hx).trans_lt hlt
  have hstep : g.step (.ddl i op hlc)
      = { g with node := Function.update g.node i (s.nextVersion.apply e) } := rfl
  have hindexes : s.nextVersion.indexes = (replay L).indexes := hrep.indexes
  by_cases hout : s.nextVersion.outcome e = .applied
  · -- the entry is the new end of the ledger, and only this node has it
    have hledger : Ledger (L ++ [e]) := by
      refine h.ledger.concat habove ?_
      rw [← outcome_congr hindexes]
      exact hout
    have hmine : Replica (L ++ [e]) (s.nextVersion.apply e) (L ++ [e]) := by
      rw [apply_of_applied hout le_rfl]
      refine ⟨?_, ?_, ?_, [], by simp, by simp⟩
      · rw [hledger.replay_eq, newEntry_congr hindexes, hindexes]
      · rw [hledger.replay_eq, ← hrep.appliedLog]
        rfl
      · intro x hx
        rcases mem_append.mp hx with hx | hx
        · exact (habove x hx).le
        · obtain rfl : x = e := by simpa using hx
          exact le_rfl
    have hver : (g.node i).version ≤ (s.nextVersion.apply e).version := by
      rw [apply_of_applied hout le_rfl]
      exact hlt.le
    have hothers : ∀ j, ∀ x ∈ [e], (g.node j).version < x.version := by
      intro j x hx
      obtain rfl : x = e := by simpa using hx
      exact (hi.1 j).trans_lt hlt
    refine ⟨L ++ [e], hstep ▸ ⟨hledger, ?_, ?_, ?_⟩⟩
    · intro j
      by_cases hj : j = i
      · subst hj
        exact ⟨L ++ [e], by simpa using hmine⟩
      · obtain ⟨M, hM⟩ := h.replica j
        exact ⟨M, by simpa [hj] using
          (⟨hM.indexes, hM.appliedLog, hM.cut.append (hothers j)⟩ : Replica (L ++ [e]) _ M)⟩
    · intro x hx
      refine ⟨i, ?_⟩
      simpa using hmine.cut.upTo x hx
    · intro m hm
      exact (h.wire m hm).mono [e] (version_le_update hver) hothers
  · -- the entry loses: the version is used up, and nothing is logged
    have hsame : s.nextVersion.apply e = s.nextVersion := apply_of_not_applied hout le_rfl
    refine ⟨L, ?_⟩
    rw [hstep, hsame]
    refine h.update hlt.le ⟨hrep.indexes, hrep.appliedLog, ?_, [], by simp, by simp⟩
    exact fun x hx => (habove x hx).le

theorem Inv.handle (h : Inv g L) (hm : Pending L g.node m) : Inv (g.handle m) L := by
  cases m with
  | hello i j version =>
    by_cases hv : version ≤ (g.node i).version
    · simpa [Gossip.handle, hv] using h
    · obtain ⟨M, hM⟩ := h.replica i
      have hpull : Pending L g.node (.pull i j (g.node i).version) := ⟨le_rfl, M, hM.cut⟩
      simp only [Gossip.handle, hv]
      exact ⟨h.ledger, h.replica, h.known, forall_mem_cons.mpr ⟨hpull, h.wire⟩⟩
  | pull i j since =>
    obtain ⟨hle, A, hA⟩ := hm
    obtain ⟨M, hM⟩ := h.replica j
    have hdiff : Pending L g.node (.diff i ((g.node j).entriesSince since)) := by
      refine ⟨since, hle, A, hA, ?_⟩
      rw [hM.entriesSince h.ledger]
      exact hA.filter_after hM.cut
    exact ⟨h.ledger, h.replica, h.known, forall_mem_cons.mpr ⟨hdiff, h.wire⟩⟩
  | diff i entries =>
    obtain ⟨since, hle, A, hA, hp⟩ := hm
    obtain ⟨M, hM⟩ := h.replica i
    obtain ⟨M', hM'⟩ := hM.applyRemoteSchemaEntries h.ledger (hA.mono hM.cut hle) hp
    exact h.update (version_le_applyRemoteSchemaEntries entries) hM'

theorem Inv.erase (h : Inv g L) (m : SchemaMessage ι) :
    Inv { g with wire := g.wire.erase m } L :=
  ⟨h.ledger, h.replica, h.known, fun _ hm' => h.wire _ (List.mem_of_mem_erase hm')⟩

/-- The event is not an operation on a node that is behind another one. -/
def Careful (g : Gossip ι) : GossipEvent ι → Prop
  | .ddl i _ _ => UpToDate g i
  | _ => True

instance decidableCareful [Fintype ι] (g : Gossip ι) (ev : GossipEvent ι) :
    Decidable (g.Careful ev) :=
  match ev with
  | .ddl i _ _ => inferInstanceAs (Decidable (g.UpToDate i))
  | .probe .. | .deliver _ | .lose _ => isTrue trivial

theorem Inv.step (h : Inv g L) {ev : GossipEvent ι} (hev : Careful g ev) :
    ∃ L', Inv (g.step ev) L' := by
  cases ev with
  | ddl i op hlc => exact h.ddl hev op hlc
  | probe i j =>
    exact ⟨L, h.ledger, h.replica, h.known, forall_mem_cons.mpr ⟨trivial, h.wire⟩⟩
  | deliver m =>
    by_cases hm : m ∈ g.wire
    · simp only [Gossip.step, hm]
      exact ⟨L, (h.erase m).handle (h.wire m hm)⟩
    · exact ⟨L, by simpa [Gossip.step, hm] using h⟩
  | lose m => exact ⟨L, h.erase m⟩

/-! ### Whole runs -/

/-- Every operation of the run is issued on a node that is behind no other one. -/
def RunsCarefully (g : Gossip ι) : List (GossipEvent ι) → Prop
  | [] => True
  | ev :: events => Careful g ev ∧ RunsCarefully (g.step ev) events

instance decidableRunsCarefully [Fintype ι] (g : Gossip ι) (events : List (GossipEvent ι)) :
    Decidable (g.RunsCarefully events) :=
  match events with
  | [] => isTrue trivial
  | ev :: events =>
    have := decidableRunsCarefully (g.step ev) events
    inferInstanceAs (Decidable (g.Careful ev ∧ RunsCarefully (g.step ev) events))

theorem Inv.run (h : Inv g L) {events : List (GossipEvent ι)} (hev : RunsCarefully g events) :
    ∃ L', Inv (g.run events) L' := by
  induction events generalizing g L with
  | nil => exact ⟨L, h⟩
  | cons ev events ih =>
    obtain ⟨L', h'⟩ := h.step hev.1
    exact ih h' hev.2

omit [DecidableEq ι] in
theorem Inv.converged (h : Inv g L) (hq : g.Quiet) : g.Converged := by
  intro i j key
  obtain ⟨M, hM⟩ := h.replica i
  obtain ⟨M', hM'⟩ := h.replica j
  have hver : (g.node i).version = (g.node j).version := le_antisymm (hq j i) (hq i j)
  obtain rfl : M = M' := hM.cut.unique (hver ▸ hM'.cut)
  simp only [SchemaState.get, hM.indexes, hM'.indexes]

end Gossip

/-- **Schema gossip converges** when every CREATE INDEX and DROP INDEX is issued
on a node that no other node is ahead of: whenever no node would pull from
another one, all nodes have the same live indexes. -/
theorem schema_gossip_converges {ι : Type} [DecidableEq ι] (events : List (GossipEvent ι))
    (hrun : (Gossip.new ι).RunsCarefully events)
    (hquiet : ((Gossip.new ι).run events).Quiet) :
    ((Gossip.new ι).run events).Converged := by
  obtain ⟨L, hL⟩ := Gossip.inv_new.run hrun
  exact hL.converged hquiet

/-- Node 0 creates an index, node 1 pulls it and drops it, node 0 pulls the drop. -/
def createThenDrop : List (GossipEvent (Fin 2)) :=
  let key : IndexKey := ⟨"t", "d", "c", "i"⟩
  [.ddl 0 (.createIndex key "f") 5,
   .probe 1 0, .deliver (.hello 1 0 1), .deliver (.pull 1 0 0),
   .deliver (.diff 1 [⟨1, 5, .createIndex key "f"⟩]),
   .ddl 1 (.dropIndex key) 6,
   .probe 0 1, .deliver (.hello 0 1 2), .deliver (.pull 0 1 1),
   .deliver (.diff 0 [⟨2, 6, .dropIndex key⟩])]

theorem schema_gossip_converges_create_drop :
    (∀ i, (((Gossip.new (Fin 2)).run createThenDrop).node i).version = 2) ∧
      ((Gossip.new (Fin 2)).run createThenDrop).Converged := by
  refine ⟨by decide +kernel, schema_gossip_converges createThenDrop ?_ ?_⟩
  · decide +kernel
  · decide +kernel

def createOnBoth : List (GossipEvent (Fin 2)) :=
  [.ddl 0 (.createIndex ⟨"t", "d", "c", "i"⟩ "f") 5,
   .ddl 1 (.createIndex ⟨"t", "d", "c", "j"⟩ "g") 6]

/-- **Versions collide**: after one CREATE INDEX on each of two nodes neither would
pull from the other, and each lacks the index of the other. -/
theorem schema_gossip_diverges :
    ((Gossip.new (Fin 2)).run createOnBoth).Quiet ∧
      ¬ ((Gossip.new (Fin 2)).run createOnBoth).Converged := by
  refine ⟨by decide +kernel, fun h => ?_⟩
  have hsame := h 0 1 ⟨"t", "d", "c", "i"⟩
  revert hsame
  decide +kernel

end GrumpyDB
