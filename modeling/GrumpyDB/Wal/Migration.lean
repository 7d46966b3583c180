/-
A log of version 1, its migration, and recovery from the result.

A page write of version 1 holds the old image first and then the new one; version 2 has them the
other way round. The migration takes the data over byte for byte, so recovery reads each image
as the other one.
-/
import GrumpyDB.Wal.OpenLog
import GrumpyDB.Wal.Recovery

namespace GrumpyDB

open Recovery List WalRecord

/-! ### Logs of version 1 -/

/-- What a record of version 1 says. -/
inductive V1Op where
  | pageWrite (pageId : UInt32) (before after : Page)
  | commit
  | rollback
  | checkpoint

structure V1Record where
  lsn : UInt64
  txId : UInt64
  op : V1Op

namespace V1Op

def opType : V1Op → WalOpType
  | pageWrite _ _ _ => .pageWrite
  | commit => .commit
  | rollback => .rollback
  | checkpoint => .checkpoint

def pageId : V1Op → UInt32
  | pageWrite pageId _ _ => pageId
  | _ => 0

def data : V1Op → List UInt8
  | pageWrite _ before after => before.bytes ++ after.bytes
  | _ => []

theorem length_data_le (op : V1Op) : op.data.length ≤ PAGE_SIZE * 2 := by
  cases op with
  | pageWrite pageId before after =>
    rw [data, length_append, before.size, after.size]
    exact (Nat.mul_two _).ge
  | commit | rollback | checkpoint => exact Nat.zero_le _

theorem data_of_ne {op : V1Op} (h : op.opType ≠ .pageWrite) : op.pageId = 0 ∧ op.data = [] := by
  cases op with
  | pageWrite pageId before after => exact absurd rfl h
  | commit | rollback | checkpoint => exact ⟨rfl, rfl⟩

end V1Op

namespace V1Record

variable [Crc32]

def bytes (v : V1Record) : List UInt8 :=
  WalRecord.encodeV1Record v.lsn v.txId v.op.opType v.op.pageId v.op.data

def toV2 (v : V1Record) : WalRecord :=
  WalRecord.ofV1 v.lsn v.txId v.op.opType v.op.pageId v.op.data

@[simp] theorem length_bytes (v : V1Record) :
    v.bytes.length = WAL_RECORD_HEADER_SIZE_V1 + v.op.data.length := by
  simp only [bytes, encodeV1Record, length_append, length_leBytes,
    length_cons, length_nil, WAL_RECORD_HEADER_SIZE_V1]
  omega

theorem sealed_toV2 (v : V1Record) : v.toV2.Sealed := by
  have hclock : (VectorClock.singleton NIL_NODE_ID v.lsn).len ≤ MAX_VCLOCK_ENTRIES := by
    rw [VectorClock.len_singleton]
    decide
  refine sealed_finish ?_ hclock fun h => V1Op.data_of_ne h
  have hdata := v.op.length_data_le
  simp only [encodedV2Len, WAL_RECORD_HEADER_SIZE_V2, VectorClock.encodedLen,
    VectorClock.len_singleton, VCLOCK_ENTRY_SIZE, PAGE_SIZE] at hdata ⊢
  split <;> omega

/-- The fields of a record of version 1, read back. -/
structure V1Read (v : V1Record) (sum : UInt32) (buf : List UInt8) : Prop where
  recordLen : leNat (slice 0 4 buf) = WAL_RECORD_HEADER_SIZE_V1 + v.op.data.length
  lsn : UInt64.ofNat (leNat (slice 4 8 buf)) = v.lsn
  txId : UInt64.ofNat (leNat (slice 12 8 buf)) = v.txId
  opType : UInt8.ofNat (leNat (slice 20 1 buf)) = v.op.opType.asU8
  pageId : UInt32.ofNat (leNat (slice 21 4 buf)) = v.op.pageId
  dataLen : leNat (slice 25 4 buf) = v.op.data.length
  data : slice 29 v.op.data.length buf = v.op.data
  checksum : UInt32.ofNat (leNat (slice (29 + v.op.data.length) 4 buf)) = sum

omit [Crc32] in
theorem v1Read (v : V1Record) (sum : UInt32) (rest : List UInt8) :
    V1Read v sum (leBytes 4 (WAL_RECORD_HEADER_SIZE_V1 + v.op.data.length) ++
      (leBytes 8 v.lsn.toNat ++ (leBytes 8 v.txId.toNat ++ ([v.op.opType.asU8] ++
      (leBytes 4 v.op.pageId.toNat ++ (leBytes 4 v.op.data.length ++ (v.op.data ++
      (leBytes 4 sum.toNat ++ rest)))))))) := by
  have hdata := v.op.length_data_le
  simp only [PAGE_SIZE] at hdata
  -- step over the fields in front
  have skip4 : ∀ {off len n : Nat} {post : List UInt8}, 4 ≤ off →
      slice off len (leBytes 4 n ++ post) = slice (off - 4) len post := fun h => by
    rw [slice_append_right (by rwa [length_leBytes]), length_leBytes]
  have skip8 : ∀ {off len n : Nat} {post : List UInt8}, 8 ≤ off →
      slice off len (leBytes 8 n ++ post) = slice (off - 8) len post := fun h => by
    rw [slice_append_right (by rwa [length_leBytes]), length_leBytes]
  have skip1 : ∀ {off len : Nat} {b : UInt8} {post : List UInt8}, 1 ≤ off →
      slice off len ([b] ++ post) = slice (off - 1) len post := fun h => by
    rw [slice_append_right h]
    rfl
  refine ⟨?_, ?_, ?_, ?_, ?_, ?_, ?_, ?_⟩
  · rw [slice_append_self (length_leBytes _ _), leNat_leBytes]
    exact Nat.mod_eq_of_lt (by simp only [WAL_RECORD_HEADER_SIZE_V1]; omega)
  · rw [skip4 (by decide), slice_append_self (length_leBytes _ _), ofNat_leNat_u64]
  · rw [skip4 (by decide), skip8 (by decide), slice_append_self (length_leBytes _ _),
      ofNat_leNat_u64]
  · rw [skip4 (by decide), skip8 (by decide), skip8 (by decide)]
    have hbyte : ∀ (b : UInt8) (post : List UInt8), slice 0 1 ([b] ++ post) = [b] := fun b post =>
      slice_append_self rfl
    rw [hbyte]
    simp [leNat]
  · rw [skip4 (by decide), skip8 (by decide), skip8 (by decide), skip1 (by decide),
      slice_append_self (length_leBytes _ _), ofNat_leNat_u32]
  · rw [skip4 (by decide), skip8 (by decide), skip8 (by decide), skip1 (by decide),
      skip4 (by decide), slice_append_self (length_leBytes _ _), leNat_leBytes]
    exact Nat.mod_eq_of_lt (by omega)
  · rw [skip4 (by decide), skip8 (by decide), skip8 (by decide), skip1 (by decide),
      skip4 (by decide), skip4 (by decide), slice_append_self rfl]
  · rw [skip4 (by omega), skip8 (by omega), skip8 (by omega), skip1 (by omega), skip4 (by omega),
      skip4 (by omega), slice_append_right (by omega)]
    rw [show 29 + v.op.data.length - 4 - 8 - 8 - 1 - 4 - 4 - v.op.data.length = 0 by omega,
      slice_append_self (length_leBytes _ _), ofNat_leNat_u32]

theorem fromBytesV1_bytes (v : V1Record) (rest : List UInt8) :
    WalRecord.fromBytesV1 (v.bytes ++ rest) = .ok (v.toV2, v.bytes.length) := by
  obtain ⟨sum, hsum⟩ : ∃ sum, computeV1Checksum
      (WAL_RECORD_HEADER_SIZE_V1 + v.op.data.length) v.lsn v.txId v.op.opType v.op.pageId
      v.op.data = sum := ⟨_, rfl⟩
  have hbuf : v.bytes ++ rest = leBytes 4 (WAL_RECORD_HEADER_SIZE_V1 + v.op.data.length) ++
      (leBytes 8 v.lsn.toNat ++ (leBytes 8 v.txId.toNat ++ ([v.op.opType.asU8] ++
      (leBytes 4 v.op.pageId.toNat ++ (leBytes 4 v.op.data.length ++ (v.op.data ++
      (leBytes 4 sum.toNat ++ rest))))))) := by
    simp only [bytes, encodeV1Record, hsum, append_assoc]
  have hlen : (v.bytes ++ rest).length =
      WAL_RECORD_HEADER_SIZE_V1 + v.op.data.length + rest.length := by
    rw [length_append, length_bytes]
  have hread := hbuf ▸ v1Read v sum rest
  have hsize : WAL_RECORD_HEADER_SIZE_V1 = 33 := rfl
  rw [fromBytesV1, if_neg (by omega)]
  simp only [hread.recordLen, hread.lsn, hread.txId, hread.opType, WalOpType.fromU8_asU8,
    hread.pageId, hread.dataLen, hread.data, hread.checksum, hsum, ne_eq, not_true_eq_false,
    if_false]
  rw [if_neg (by omega), if_neg (by omega), length_bytes]
  rfl

theorem takes_fromBytesV1 : Takes fun buf => (WalRecord.fromBytesV1 buf).toOption := by
  intro bytes r n h
  have hok := eq_ok_of_toOption h
  unfold fromBytesV1 at hok
  split at hok
  · cases hok
  dsimp only at hok
  split at hok
  · cases hok
  next hlen =>
    split at hok
    · cases hok
    · split at hok
      · cases hok
      · split at hok
        · cases hok
        · cases hok
          exact ⟨by omega, by omega⟩

theorem readV1_flatMap_bytes (vs : List V1Record) :
    OpenLog.readV1RecordsFromFile (vs.flatMap bytes) = vs.map toV2 := by
  unfold OpenLog.readV1RecordsFromFile
  induction vs with
  | nil => rfl
  | cons v vs ih =>
    have hdecode : (fromBytesV1 (v.bytes ++ vs.flatMap bytes)).toOption =
        some (v.toV2, v.bytes.length) := by
      rw [fromBytesV1_bytes]
      rfl
    rw [flatMap_cons, readAll_some takes_fromBytesV1 hdecode, drop_left, ih]
    rfl

theorem detectedVersion_v1 (v : V1Record) (rest : List UInt8) :
    OpenLog.detectedVersion (v.bytes ++ rest) = .ok WAL_VERSION_V1 := by
  rw [OpenLog.detectedVersion, if_neg]
  intro hmagic
  -- the first field would be a length of more than a gigabyte
  have hlen := (v1Read v 0 []).recordLen
  have hbytes : slice 0 4 (v.bytes ++ rest) = slice 0 4 WAL_MAGIC := by
    rw [← hmagic]
    simp [slice, take_take]
  have hfirst : leNat (slice 0 4 (v.bytes ++ rest)) =
      WAL_RECORD_HEADER_SIZE_V1 + v.op.data.length := by
    rw [← hlen, bytes, encodeV1Record]
    simp only [append_assoc]
    rw [slice_append_self (length_leBytes _ _), slice_append_self (length_leBytes _ _)]
  have hvalue : leNat (slice 0 4 WAL_MAGIC) = 1297437255 := by decide
  have hdata := v.op.length_data_le
  rw [hbytes, hvalue] at hfirst
  simp only [PAGE_SIZE, WAL_RECORD_HEADER_SIZE_V1] at hdata hfirst
  omega

/-- **The migration.**  Opening a log of version 1 gives one of version 2 with the same
records. -/
theorem newWithIdentity_v1 (vs : List V1Record) (nodeId : U128) :
    ∃ log, OpenLog.newWithIdentity (some (vs.flatMap bytes)) nodeId = .ok log ∧
      log.readAllRecords = vs.map toV2 := by
  have hheader : ∀ body, buildWalHeader WAL_VERSION_V2 ++ body = walHeader ++ body := by
    intro body
    rw [walHeader]
    rfl
  cases vs with
  | nil =>
    refine ⟨_, rfl, ?_⟩
    show readV2RecordsFromFile (buildWalHeader WAL_VERSION_V2) = []
    rw [← append_nil (buildWalHeader _), hheader, readV2RecordsFromFile_append]
    rfl
  | cons v vs =>
    have hne : (v :: vs).flatMap bytes ≠ [] := by
      refine ne_nil_of_length_pos ?_
      rw [flatMap_cons, length_append, length_bytes, WAL_RECORD_HEADER_SIZE_V1]
      omega
    have hversion := detectedVersion_v1 v (vs.flatMap bytes)
    rw [← flatMap_cons] at hversion
    generalize hfile : (v :: vs).flatMap bytes = file at hne hversion
    unfold OpenLog.newWithIdentity
    split
    · next heq => cases heq
    · next heq => exact absurd (Option.some.inj heq) hne
    · next file' _ heq =>
      cases heq
      rw [hversion]
      refine ⟨_, rfl, ?_⟩
      rw [← hfile, readV1_flatMap_bytes]
      show readV2RecordsFromFile (OpenLog.migrateV1ToV2 ((v :: vs).map toV2)) = _
      rw [OpenLog.migrateV1ToV2, hheader, readV2RecordsFromFile_append]
      have hsealed : ∀ r ∈ (v :: vs).map toV2, r.Sealed := by
        intro r hr
        obtain ⟨u, -, rfl⟩ := mem_map.1 hr
        exact u.sealed_toV2
      have hread := framing.readAll_append takes_fromBytesV2 hsealed []
      rw [append_nil] at hread
      rw [hread]
      exact append_nil _

/-! ### Replay under the layout of version 1 -/

/-- The page write of a record, as its own layout has it. -/
def toLogged (v : V1Record) : Option (Logged UInt64 PageLoc Page) :=
  match v.op with
  | .pageWrite pageId before after =>
    some ⟨v.txId, pageLoc pageId, stampChecksum before, stampChecksum after⟩
  | _ => none

def active (vs : List V1Record) : List V1Record :=
  vs.filter fun v =>
    ((vs.filter fun c => c.op.opType = .checkpoint).map V1Record.lsn).foldl max 0 < v.lsn

def writes (vs : List V1Record) : List (Logged UInt64 PageLoc Page) :=
  (active vs).filterMap toLogged

def isCommitted (vs : List V1Record) (tx : UInt64) : Bool :=
  (active vs).any fun v => v.op.opType = .commit ∧ v.txId = tx

/-- The new images of committed transactions in order, then the old images of the
others backwards. -/
def replay (vs : List V1Record) (s : RecoveryState) : RecoveryState :=
  puts (recoveryWrites (isCommitted vs) (writes vs)) s

theorem toLogged_toV2 (v : V1Record) :
    Recovery.toLogged v.toV2 = v.toLogged.map Logged.swap := by
  obtain ⟨lsn, txId, op⟩ := v
  cases op with
  | pageWrite pageId before after =>
    have hop : (toV2 ⟨lsn, txId, .pageWrite pageId before after⟩).opType = .pageWrite := rfl
    have hdata : (toV2 ⟨lsn, txId, .pageWrite pageId before after⟩).data =
        before.bytes ++ after.bytes := rfl
    rw [Recovery.toLogged, if_pos hop, images?_of_data hdata]
    rfl
  | commit | rollback | checkpoint => rfl

theorem activeRecords_map_toV2 (vs : List V1Record) :
    activeRecords (vs.map toV2) = (active vs).map toV2 := by
  rw [activeRecords, checkpointLsn, filter_map, filter_map, map_map]
  rfl

theorem pageWrites_map_toV2 (vs : List V1Record) :
    pageWrites (activeRecords (vs.map toV2)) = (writes vs).map Logged.swap := by
  rw [activeRecords_map_toV2, pageWrites, filterMap_map, writes, map_filterMap]
  refine filterMap_congr fun v _ => ?_
  exact toLogged_toV2 v

theorem isCommitted_map_toV2 (vs : List V1Record) :
    Recovery.isCommitted (activeRecords (vs.map toV2)) = isCommitted vs := by
  funext tx
  rw [activeRecords_map_toV2, Bool.eq_iff_iff, Recovery.isCommitted, decide_eq_true_iff,
    isCommitted, any_eq_true, committedTxs, mem_dedup, filter_map, map_map,
    mem_map]
  refine exists_congr fun v => ?_
  rw [mem_filter, and_assoc, decide_eq_true_iff]
  exact and_congr_right fun _ => and_congr_left fun _ => decide_eq_true_iff

/-- **Migration keeps the meaning of a log only where the deciding writes change nothing**: for
every page the write that decides its content (the first one to undo, or else the last one to
redo) has two equal images. -/
theorem migration_preserves_iff (vs : List V1Record) (nodeId : U128) {s : RecoveryState}
    (hs : Prepared s) :
    ∃ log, OpenLog.newWithIdentity (some (vs.flatMap bytes)) nodeId = .ok log ∧
      ((∀ l, (recover log.readAllRecords s).st.page? l = (replay vs s).page? l) ↔
        ∀ l, s.page? l ≠ none → ∀ w ∈ deciding (isCommitted vs) (writes vs) l,
          w.before = w.after) := by
  obtain ⟨log, hopen, hrecords⟩ := newWithIdentity_v1 vs nodeId
  refine ⟨log, hopen, forall_congr' fun l => ?_⟩
  rw [hrecords, page?_recover hs, isCommitted_map_toV2, pageWrites_map_toV2, replay, page?_puts hs]
  cases s.page? l with
  | none => simp
  | some p =>
    rw [Option.map_some, Option.map_some, Option.some.injEq, applyAll_recoveryWrites,
      recoveredContent_map_swap]
    exact ⟨fun h _ => h, fun h => h (Option.some_ne_none p)⟩

/-- A log of version 1 with one committed write of page 1. -/
def sampleV1 (before after : UInt8) : List V1Record :=
  [⟨1, 1, .pageWrite 1 (samplePage before) (samplePage after)⟩, ⟨2, 1, .commit⟩]

theorem writes_sampleV1 (before after : UInt8) :
    writes (sampleV1 before after) = [sampleLogged 1 before after] := rfl

omit [Crc32] in
/-- A write that changes nothing is migrated well. -/
theorem migration_preserves_unchanged : ∃ (_ : Crc32) (log : OpenLog),
    OpenLog.newWithIdentity (some ((sampleV1 1 1).flatMap bytes)) 0 = .ok log ∧
    Prepared sampleState ∧
    ∀ l, (recover log.readAllRecords sampleState).st.page? l =
      (replay (sampleV1 1 1) sampleState).page? l := by
  let crc : Crc32 := ⟨fun _ => 0⟩
  obtain ⟨log, hopen, hiff⟩ := migration_preserves_iff (sampleV1 1 1) 0 prepared_sampleState
  refine ⟨crc, log, hopen, prepared_sampleState, hiff.2 fun l _ w hw => ?_⟩
  have hmem := deciding_mem hw
  rw [writes_sampleV1, mem_singleton] at hmem
  rw [hmem]
  rfl

omit [Crc32] in
/-- A committed write of page 1 is taken back by recovery after the migration. -/
theorem migration_takes_back : ∃ (_ : Crc32) (log : OpenLog),
    OpenLog.newWithIdentity (some ((sampleV1 0 1).flatMap bytes)) 0 = .ok log ∧
    Prepared sampleState ∧
    (recover log.readAllRecords sampleState).st.page? ⟨.data, 1⟩ =
      some (stampChecksum (samplePage 0)) ∧
    (replay (sampleV1 0 1) sampleState).page? ⟨.data, 1⟩ =
      some (stampChecksum (samplePage 1)) ∧
    stampChecksum (samplePage 0) ≠ stampChecksum (samplePage 1) := by
  let crc : Crc32 := ⟨fun _ => 0⟩
  obtain ⟨log, hopen, hrecords⟩ := newWithIdentity_v1 (sampleV1 0 1) 0
  have hpage : sampleState.page? ⟨.data, 1⟩ = some (samplePage 0) := rfl
  refine ⟨crc, log, hopen, prepared_sampleState, ?_, ?_, stampChecksum_samplePage_ne (by decide)⟩
  · rw [hrecords, page?_recover prepared_sampleState, isCommitted_map_toV2, pageWrites_map_toV2,
      writes_sampleV1, hpage]
    rfl
  · rw [replay, page?_puts prepared_sampleState, hpage, Option.map_some, applyAll_recoveryWrites,
      writes_sampleV1]
    rfl

end V1Record

end GrumpyDB
