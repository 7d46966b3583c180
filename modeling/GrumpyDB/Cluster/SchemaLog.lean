/-
The schema log on disk, and the schema on the wire.

An entry of another node that lost is not in the log; if its version was above that of the node,
the version in memory is ahead of what a restart replays. A node that asks for the schema of
another one gets all entries in one frame, and both ends refuse frames above a limit.
-/
import GrumpyDB.Cluster.JsonLines
import GrumpyDB.Cluster.SchemaOrder
import Mathlib.Data.Set.Finite.List

namespace GrumpyDB

open JsonText JsonLines List

/-! ### The log -/

inductive SchemaLogError where
  | io
  | malformed (line : Nat)

structure SchemaNode where
  schema : SchemaState
  log : List UInt8

inductive SchemaCall where
  | applyLocalDdl (op : SchemaOp) (hlc : UInt64)
  | applyRemoteSchemaEntries (entries : List SchemaLogEntry)

def SchemaState.toPersist (s : SchemaState) : List SchemaLogEntry → List SchemaLogEntry
  | [] => []
  | e :: entries =>
    (if s.outcome e = .applied then [e] else []) ++ (s.apply e).toPersist entries

namespace SchemaNode

variable [JsonText SchemaLogEntry]

def new : SchemaNode := ⟨.new, []⟩

def step (n : SchemaNode) : SchemaCall → SchemaNode
  | .applyLocalDdl op hlc =>
    ⟨n.schema.applyLocalDdl op hlc, n.log ++ lineOf (n.schema.localEntry op hlc)⟩
  | .applyRemoteSchemaEntries entries =>
    ⟨n.schema.applyRemoteSchemaEntries entries,
      n.log ++ (n.schema.toPersist entries).flatMap lineOf⟩

def run (calls : List SchemaCall) : SchemaNode := calls.foldl step new

/-- Apply the entries of the lines, from line number `lineNo` on. -/
def replayLines (lineNo : Nat) (s : SchemaState) :
    List (List UInt8) → Except SchemaLogError SchemaState
  | [] => .ok s
  | bytes :: lines =>
    match fromUtf8? bytes with
    | none => .error .io
    | some line =>
      if isBlank line then replayLines (lineNo + 1) s lines
      else
        match fromText line with
        | none => .error (.malformed lineNo)
        | some entry => replayLines (lineNo + 1) (s.apply entry) lines

def replayIntoState (bytes : List UInt8) : Except SchemaLogError SchemaState :=
  replayLines 1 .new (splitLines [] bytes)

theorem replayIntoState_flatMap (entries : List SchemaLogEntry) :
    replayIntoState (entries.flatMap lineOf) = .ok (SchemaState.replay entries) := by
  have hlines : ∀ (lineNo : Nat) (s : SchemaState),
      replayLines lineNo s (entries.map fun e => utf8 (toText e)) =
        .ok (s.applyRemoteSchemaEntries entries) := by
    induction entries with
    | nil => exact fun _ _ => rfl
    | cons e entries ih =>
      intro lineNo s
      rw [map_cons, replayLines, fromUtf8?_utf8]
      simp only [not_blank e, fromText_toText]
      exact ih _ _
  rw [replayIntoState, splitLines_flatMap, hlines]
  rfl

/-! ### Runs -/

/-- The version counter does not wrap around, and no entry that loses is above it. -/
def VersionKept (s : SchemaState) : SchemaCall → Prop
  | .applyLocalDdl .. => s.version < s.version + 1
  | .applyRemoteSchemaEntries entries => ∀ before e after, entries = before ++ e :: after →
      let s' := s.applyRemoteSchemaEntries before
      s'.outcome e = .applied ∨ e.version ≤ s'.version

def RunsKept (n : SchemaNode) (calls : List SchemaCall) : Prop :=
  Along SchemaNode.step (fun n call => VersionKept n.schema call) calls n

/-- The log holds entries that give the state. -/
def Logs (n : SchemaNode) : Prop :=
  ∃ entries, n.log = entries.flatMap lineOf ∧ n.schema = SchemaState.replay entries

omit [JsonText SchemaLogEntry] in
theorem applyRemoteSchemaEntries_toPersist {s : SchemaState} {entries : List SchemaLogEntry}
    (h : VersionKept s (.applyRemoteSchemaEntries entries)) :
    s.applyRemoteSchemaEntries (s.toPersist entries) = s.applyRemoteSchemaEntries entries := by
  induction entries generalizing s with
  | nil => rfl
  | cons e entries ih =>
    have hrest : (s.apply e).applyRemoteSchemaEntries ((s.apply e).toPersist entries) =
        (s.apply e).applyRemoteSchemaEntries entries := by
      refine ih fun before e' after heq => ?_
      exact h (e :: before) e' after (by rw [heq, cons_append])
    by_cases happ : s.outcome e = .applied
    · rw [SchemaState.toPersist, if_pos happ]
      exact hrest
    · have hle : e.version ≤ s.version := (h [] e entries rfl).resolve_left happ
      have hsame := SchemaState.apply_of_not_applied happ hle
      rw [hsame] at hrest
      rw [SchemaState.toPersist, if_neg happ, hsame, nil_append, hrest]
      show _ = (s.apply e).applyRemoteSchemaEntries entries
      rw [hsame]

theorem Logs.step {n : SchemaNode} (h : n.Logs) {call : SchemaCall}
    (hcall : VersionKept n.schema call) : (n.step call).Logs := by
  obtain ⟨entries, hlog, hschema⟩ := h
  have happend : ∀ more, (SchemaState.replay entries).applyRemoteSchemaEntries more =
      SchemaState.replay (entries ++ more) := by
    intro more
    simp only [SchemaState.replay, SchemaState.applyRemoteSchemaEntries, foldl_append]
  cases call with
  | applyLocalDdl op hlc =>
    refine ⟨entries ++ [n.schema.localEntry op hlc], by simp [SchemaNode.step, hlog], ?_⟩
    rw [SchemaState.replay_concat, ← hschema]
    -- the entry carries the version that was allocated, so allocating it first is no difference
    have hlt : n.schema.version < (n.schema.localEntry op hlc).version := hcall
    by_cases happ : n.schema.outcome (n.schema.localEntry op hlc) = .applied
    · rw [SchemaState.apply_of_applied happ hlt.le]
      exact SchemaState.apply_of_applied happ le_rfl
    · refine (SchemaState.apply_of_not_applied (s := n.schema.nextVersion) happ le_rfl).trans ?_
      simp [SchemaState.apply, happ, hlt]
      rfl
  | applyRemoteSchemaEntries batch =>
    refine ⟨entries ++ n.schema.toPersist batch, by simp [SchemaNode.step, hlog], ?_⟩
    rw [← happend, ← hschema, applyRemoteSchemaEntries_toPersist hcall]
    rfl

/-- **The schema survives a restart**: if the version counter never wraps around and no
remote entry that loses is above it, replaying the log gives the state in memory. -/
theorem schema_survives_restart (calls : List SchemaCall) (hrun : new.RunsKept calls) :
    replayIntoState (run calls).log = .ok (run calls).schema := by
  have hlogs : (calls.foldl SchemaNode.step new).Logs :=
    Along.run (fun _ _ h hcall => h.step hcall) hrun ⟨[], rfl, rfl⟩
  obtain ⟨entries, hlog, hschema⟩ := hlogs
  rw [run, hlog, hschema, replayIntoState_flatMap]

omit [JsonText SchemaLogEntry] in
theorem countable_schemaLogEntry : Countable SchemaLogEntry := by
  have hchar : Countable Char := Function.Injective.countable fun a b h => Char.toNat_inj.mp h
  have hstring : Countable String :=
    Function.Injective.countable fun a b h => String.toList_injective h
  let path (key : IndexKey) := (key.tenant, key.database, key.collection, key.indexName)
  refine Function.Injective.countable (f := fun e : SchemaLogEntry =>
    (e.version.toNat, e.hlc.toNat, path e.op.key, e.op.livePath)) ?_
  rintro ⟨v, h, a⟩ ⟨v', h', b⟩ heq
  obtain ⟨hv, hh, hkey, hlive⟩ : v = v' ∧ h = h' ∧ path a.key = path b.key ∧
      a.livePath = b.livePath := by
    simpa [UInt64.toNat_inj] using heq
  rcases a with ⟨⟨⟩, _⟩ | ⟨⟨⟩⟩ <;> rcases b with ⟨⟨⟩, _⟩ | ⟨⟨⟩⟩ <;>
    simp_all [SchemaOp.key, SchemaOp.livePath, path]

omit [JsonText SchemaLogEntry] in
theorem schema_survives_restart_create : ∃ _ : JsonText SchemaLogEntry,
    let n := run [.applyLocalDdl (.createIndex ⟨"t", "d", "c", "i"⟩ "f") 5]
    n.log ≠ [] ∧ replayIntoState n.log = .ok n.schema := by
  have := countable_schemaLogEntry
  obtain ⟨json⟩ := JsonText.nonempty SchemaLogEntry
  refine ⟨json, ?_, schema_survives_restart _ ⟨?_, trivial⟩⟩
  · simp [run, step, lineOf]
  · show (0 : UInt64) < 0 + 1
    decide

omit [JsonText SchemaLogEntry] in
/-- An entry that loses moves the version in memory but is not logged, whatever the text of
entries is. -/
theorem version_lost_on_restart : ¬ ∃ _ : JsonText SchemaLogEntry,
    let key : IndexKey := ⟨"t", "d", "c", "i"⟩
    let n := run [.applyRemoteSchemaEntries [⟨1, 5, .createIndex key "f"⟩],
      .applyRemoteSchemaEntries [⟨9, 3, .createIndex key "g"⟩]]
    (replayIntoState n.log).map SchemaState.version = .ok n.schema.version := by
  rintro ⟨json, h⟩
  let won : SchemaLogEntry := ⟨1, 5, .createIndex ⟨"t", "d", "c", "i"⟩ "f"⟩
  let lost : SchemaLogEntry := ⟨9, 3, .createIndex ⟨"t", "d", "c", "i"⟩ "g"⟩
  have hlost : (SchemaState.new.apply won).toPersist [lost] = [] := by decide +kernel
  have hlog : (run [.applyRemoteSchemaEntries [won], .applyRemoteSchemaEntries [lost]]).log =
      [won].flatMap lineOf := by
    show ([] ++ [won].flatMap lineOf) ++
      ((SchemaState.new.apply won).toPersist [lost]).flatMap lineOf = _
    rw [hlost]
    simp
  dsimp only at h
  rw [hlog, replayIntoState_flatMap] at h
  have hversion : (SchemaState.replay [won]).version ≠
      ((SchemaState.new.apply won).apply lost).version := by decide +kernel
  exact hversion (Except.ok.inj h)

end SchemaNode

/-! ### Handing over the schema -/

def MAX_HELLO_BYTES : Nat := 64 * 1024

inductive HandshakeError where
  | io
  | malformed
  | frameTooLarge (len : UInt32)

/-- The answer to `PullSchemaSince`. -/
structure SchemaDiff where
  entries : List SchemaLogEntry

section Frames

variable {ρ : Type} [JsonText ρ]

/-- The length of the text in four bytes, most significant first, and the text. -/
def writeFrame (value : ρ) : Except HandshakeError (List UInt8) :=
  let bytes := utf8 (toText value)
  if bytes.length > MAX_HELLO_BYTES then .error (.frameTooLarge (UInt32.ofNat bytes.length))
  else .ok (beBytes 4 bytes.length ++ bytes)

def readFrame (ρ : Type) [JsonText ρ] (stream : List UInt8) : Except HandshakeError ρ :=
  if stream.length < 4 then .error .io
  else
    let len := leNat (stream.take 4).reverse
    if len > MAX_HELLO_BYTES then .error (.frameTooLarge (UInt32.ofNat len))
    else if (stream.drop 4).length < len then .error .io
    else
      match (fromUtf8? ((stream.drop 4).take len)).bind fromText with
      | some value => .ok value
      | none => .error .malformed

theorem readFrame_writeFrame {value : ρ} {bytes : List UInt8} (h : writeFrame value = .ok bytes) :
    readFrame ρ bytes = .ok value := by
  rw [writeFrame] at h
  split at h
  · cases h
  rename_i hsize
  cases h
  have hlen : (utf8 (toText value)).length < 256 ^ 4 :=
    (Nat.le_of_not_lt hsize).trans_lt (by decide)
  have htake :
    leNat ((beBytes 4 (utf8 (toText value)).length ++ utf8 (toText value)).take 4).reverse
      = (utf8 (toText value)).length := by
    rw [take_left' (length_beBytes _ _), beBytes, reverse_reverse, leNat_leBytes,
      Nat.mod_eq_of_lt hlen]
  rw [readFrame, if_neg (by simp)]
  simp only [htake, if_neg hsize, drop_left' (length_beBytes _ _), lt_irrefl, if_false,
    take_length, fromUtf8?_utf8, Option.bind_some, fromText_toText]

end Frames

variable [JsonText SchemaDiff]

/-- Ask for the entries after a version, over a connection that works.  An acceptor that
cannot write its answer closes the connection. -/
def pullSchemaFromPeer (peer : SchemaState) (since : UInt64) :
    Except HandshakeError (List SchemaLogEntry) :=
  match writeFrame (SchemaDiff.mk (peer.entriesSince since)) with
  | .ok sent => (readFrame SchemaDiff sent).map SchemaDiff.entries
  | .error _ => (readFrame SchemaDiff []).map SchemaDiff.entries

theorem fits_of_pull {peer : SchemaState} {since : UInt64}
    (h : pullSchemaFromPeer peer since = .ok (peer.entriesSince since)) :
    (utf8 (toText (SchemaDiff.mk (peer.entriesSince since)))).length ≤ MAX_HELLO_BYTES := by
  by_contra hlt
  simp only [pullSchemaFromPeer, writeFrame, if_pos (Nat.lt_of_not_le hlt)] at h
  cases h

/-- **A schema is handed over** if and only if its text fits a frame. -/
theorem schema_pull_iff (peer : SchemaState) (since : UInt64) :
    pullSchemaFromPeer peer since = .ok (peer.entriesSince since) ↔
      (utf8 (toText (SchemaDiff.mk (peer.entriesSince since)))).length ≤ MAX_HELLO_BYTES := by
  refine ⟨fits_of_pull, fun hle => ?_⟩
  rcases hsent : writeFrame (SchemaDiff.mk (peer.entriesSince since)) with e | sent
  · simp [writeFrame, Nat.not_lt.mpr hle] at hsent
  · simp only [pullSchemaFromPeer, hsent]
    rw [readFrame_writeFrame hsent]
    rfl

omit [JsonText SchemaDiff] in
/-- Whatever the text of entries is, one index on a field path that is long enough cannot be
handed over: there are only so many texts that fit a frame. -/
theorem long_field_path_not_pulled : ¬ ∃ _ : JsonText SchemaDiff, ∀ fieldPath,
    let s := SchemaState.new.applyLocalDdl (.createIndex ⟨"t", "d", "c", "i"⟩ fieldPath) 1
    pullSchemaFromPeer s 0 = .ok (s.entriesSince 0) := by
  rintro ⟨json, h⟩
  let diff (fieldPath : String) : SchemaDiff :=
    ⟨[⟨1, 1, .createIndex ⟨"t", "d", "c", "i"⟩ fieldPath⟩]⟩
  have hfits : ∀ fieldPath, (utf8 (toText (diff fieldPath))).length ≤ MAX_HELLO_BYTES :=
    fun fieldPath => fits_of_pull (h fieldPath)
  have hinj : Function.Injective fun fieldPath => utf8 (toText (diff fieldPath)) := by
    intro a b hab
    have htext := congrArg fromUtf8? hab
    simp only [fromUtf8?_utf8, Option.some.injEq] at htext
    have hdiff := congrArg (fromText (ρ := SchemaDiff)) htext
    simpa [fromText_toText, diff] using hdiff
  have : Finite UInt8 := Finite.of_injective UInt8.toFin fun a b hab => UInt8.toFin_inj.mp hab
  have hfinite := (finite_length_le UInt8 MAX_HELLO_BYTES).subset
    (Set.range_subset_iff.mpr hfits)
  exact (Set.infinite_range_of_injective hinj) hfinite

end GrumpyDB
