/-
Opening the log.

A file that begins with the magic and says version 2 is read to find the next numbers; any other
file is taken for one of version 1 and migrated. The reader stops at a record that was cut by a
crash, and what is appended behind it is not found again.
-/
import GrumpyDB.Wal.Reader

namespace GrumpyDB

open List WalRecord

def WAL_VERSION_V1 : Nat := 1

def NIL_NODE_ID : U128 := 0

def WAL_RECORD_HEADER_SIZE_V1 : Nat := 33

namespace WalRecord

variable [Crc32]

/-! ### Version 1 -/

def computeV1Checksum (recordLen : Nat) (lsn txId : UInt64) (opType : WalOpType)
    (pageId : UInt32) (data : List UInt8) : UInt32 :=
  Crc32.crc32 (leBytes 4 recordLen ++ leBytes 8 lsn.toNat ++ leBytes 8 txId.toNat ++
    [opType.asU8] ++ leBytes 4 pageId.toNat ++ leBytes 4 data.length ++ data)

def encodeV1Record (lsn txId : UInt64) (opType : WalOpType) (pageId : UInt32)
    (data : List UInt8) : List UInt8 :=
  let recordLen := WAL_RECORD_HEADER_SIZE_V1 + data.length
  let checksum := computeV1Checksum recordLen lsn txId opType pageId data
  leBytes 4 recordLen ++ leBytes 8 lsn.toNat ++ leBytes 8 txId.toNat ++ [opType.asU8] ++
    leBytes 4 pageId.toNat ++ leBytes 4 data.length ++ data ++ leBytes 4 checksum.toNat

/-- A record of version 1 as one of version 2; its data is taken over byte for byte. -/
def ofV1 (lsn txId : UInt64) (opType : WalOpType) (pageId : UInt32) (data : List UInt8) :
    WalRecord :=
  finish ⟨0, lsn, txId, opType, NIL_NODE_ID, lsn, .singleton NIL_NODE_ID lsn, pageId, data, 0⟩

/-- The record of version 1 at the head of a buffer, as one of version 2, and the
number of bytes it takes. -/
def fromBytesV1 (buf : List UInt8) : Except GrumpyError (WalRecord × Nat) :=
  if buf.length < WAL_RECORD_HEADER_SIZE_V1 then .error (.walCorrupted 0)
  else
    let recordLen := leNat (slice 0 4 buf)
    if recordLen < WAL_RECORD_HEADER_SIZE_V1 ∨ buf.length < recordLen then .error (.walCorrupted 0)
    else
      let lsn := UInt64.ofNat (leNat (slice 4 8 buf))
      let txId := UInt64.ofNat (leNat (slice 12 8 buf))
      match WalOpType.fromU8 (UInt8.ofNat (leNat (slice 20 1 buf))) with
      | none => .error (.walCorrupted lsn)
      | some opType =>
        let pageId := UInt32.ofNat (leNat (slice 21 4 buf))
        let dataLen := leNat (slice 25 4 buf)
        if 29 + dataLen + 4 > recordLen then .error (.walCorrupted lsn)
        else
          let data := slice 29 dataLen buf
          let checksum := UInt32.ofNat (leNat (slice (29 + dataLen) 4 buf))
          if computeV1Checksum recordLen lsn txId opType pageId data ≠ checksum then
            .error (.walCorrupted lsn)
          else .ok (ofV1 lsn txId opType pageId data, recordLen)

end WalRecord

/-! ### Opening and appending -/

/-- A log that is open for appending, with its file. -/
structure OpenLog where
  writer : WalWriter
  nextTxId : UInt64
  fileVersion : Nat
  file : List UInt8

namespace OpenLog

variable [Crc32]

def readV1RecordsFromFile (file : List UInt8) : List WalRecord :=
  readAll (fun buf => (WalRecord.fromBytesV1 buf).toOption) file

/-- The file of version 2 that replaces one of version 1. -/
def migrateV1ToV2 (v1Records : List WalRecord) : List UInt8 :=
  buildWalHeader WAL_VERSION_V2 ++ v1Records.flatMap WalRecord.toBytes

def maxOf (xs : List UInt64) : UInt64 := xs.foldl max 0

/-- The next numbers behind those of the records. -/
def resume (nodeId : U128) (records : List WalRecord) (file : List UInt8) : OpenLog where
  writer := ⟨maxOf (records.map WalRecord.lsn) + 1, nodeId⟩
  nextTxId := maxOf (records.map WalRecord.txId) + 1
  fileVersion := WAL_VERSION_V2
  file := file

/-- The version that a file says it has; without the magic it is version 1. -/
def detectedVersion (file : List UInt8) : Except GrumpyError Nat :=
  if file.take 8 = WAL_MAGIC then parseWalHeader (file.take 18) else .ok WAL_VERSION_V1

/-- Open the log, `found` being the content of its file. -/
def newWithIdentity (found : Option (List UInt8)) (nodeId : U128) : Except GrumpyError OpenLog :=
  match found with
  | none | some [] => .ok ⟨⟨1, nodeId⟩, 1, WAL_VERSION_CURRENT, buildWalHeader WAL_VERSION_CURRENT⟩
  | some file => do
    let version ← detectedVersion file
    if version = WAL_VERSION_V2 then
      return resume nodeId (readV2RecordsFromFile file) file
    else
      let v1Records := readV1RecordsFromFile file
      return resume nodeId v1Records (migrateV1ToV2 v1Records)

def readAllRecords (log : OpenLog) : List WalRecord := readV2RecordsFromFile log.file

def append (log : OpenLog) (call : Except GrumpyError Hlc × LogCall) : OpenLog :=
  match log.writer.log call.1 call.2 with
  | (.ok r, writer) => { log with writer, file := log.file ++ r.toBytes }
  | (.error _, writer) => { log with writer }

def recordOf (log : OpenLog) (call : Except GrumpyError Hlc × LogCall) : List WalRecord :=
  (log.writer.log call.1 call.2).1.toOption.toList

def recordsOf (log : OpenLog) : List (Except GrumpyError Hlc × LogCall) → List WalRecord
  | [] => []
  | call :: calls => log.recordOf call ++ (log.append call).recordsOf calls

def run (log : OpenLog) (calls : List (Except GrumpyError Hlc × LogCall)) : OpenLog :=
  calls.foldl append log

theorem file_append (log : OpenLog) (call : Except GrumpyError Hlc × LogCall) :
    (log.append call).file = log.file ++ (log.recordOf call).flatMap WalRecord.toBytes := by
  unfold append recordOf
  rcases hlog : log.writer.log call.1 call.2 with ⟨res, writer⟩
  rcases res with e | r
  · exact (append_nil _).symm
  · show log.file ++ r.toBytes = log.file ++ (r.toBytes ++ [])
    rw [append_nil]

theorem file_run (log : OpenLog) (calls : List (Except GrumpyError Hlc × LogCall)) :
    (log.run calls).file = log.file ++ (log.recordsOf calls).flatMap WalRecord.toBytes := by
  induction calls generalizing log with
  | nil => exact (append_nil _).symm
  | cons call calls ih =>
    show ((log.append call).run calls).file = _
    rw [ih, file_append, recordsOf, flatMap_append, append_assoc]

variable {log : OpenLog}

theorem recordOf_sealed {call : Except GrumpyError Hlc × LogCall} (hfits : call.2.Fits) :
    ∀ r ∈ log.recordOf call, r.Sealed ∧ r.vectorClock.len = 1 := by
  intro r hr
  rcases hlog : log.writer.log call.1 call.2 with ⟨res, writer⟩
  rw [recordOf, hlog] at hr
  rcases res with e | r'
  · cases hr
  · have heq : r = r' := mem_singleton.1 hr
    subst heq
    refine ⟨WalWriter.sealed_log hlog hfits, ?_⟩
    obtain ⟨now, call⟩ := call
    rw [WalWriter.log, Prod.mk.injEq, except_map_eq_ok] at hlog
    obtain ⟨⟨hlc, -, rfl⟩, -⟩ := hlog
    cases call <;> exact VectorClock.len_singleton _ _

theorem recordsOf_sealed {calls : List (Except GrumpyError Hlc × LogCall)}
    (hfits : ∀ call ∈ calls, call.2.Fits) :
    ∀ r ∈ log.recordsOf calls, r.Sealed ∧ r.vectorClock.len = 1 := by
  induction calls generalizing log with
  | nil => exact nofun
  | cons call calls ih =>
    intro r hr
    rcases mem_append.1 hr with hr | hr
    · exact recordOf_sealed (hfits call mem_cons_self) r hr
    · exact ih (fun call' h => hfits call' (mem_cons_of_mem call h)) r hr

theorem newWithIdentity_header (body : List UInt8) (nodeId : U128) :
    newWithIdentity (some (walHeader ++ body)) nodeId =
      .ok (resume nodeId (readV2RecordsFromFile (walHeader ++ body)) (walHeader ++ body)) := by
  have hsize : 18 ≤ walHeader.length := by
    rw [length_walHeader]
    decide
  have hmagic : (walHeader ++ body).take 8 = WAL_MAGIC := by
    rw [walHeader, buildWalHeader]
    exact take_left' length_WAL_MAGIC
  have hversion : detectedVersion (walHeader ++ body) = .ok WAL_VERSION_V2 := by
    rw [detectedVersion, if_pos hmagic, take_append_of_le_length hsize, walHeader]
    exact parseWalHeader_buildWalHeader (by decide)
  have hne : walHeader ++ body ≠ [] := by
    intro h
    rw [(append_eq_nil_iff.1 h).1] at hsize
    exact absurd hsize (by decide)
  unfold newWithIdentity
  split
  · next heq => cases heq
  · next heq => exact absurd (Option.some.inj heq) hne
  · next file _ heq =>
    cases heq
    rw [hversion]
    rfl

/-- What an open log will find again: its own reader and the next one that opens it
both give back `records`. -/
def Keeps (log : OpenLog) (records : List WalRecord) : Prop :=
  log.readAllRecords = records ∧
    ∀ nodeId, ∃ next, newWithIdentity (some log.file) nodeId = .ok next ∧
      next.readAllRecords = records

theorem keeps_iff {body : List UInt8} (hfile : log.file = walHeader ++ body)
    (records : List WalRecord) :
    log.Keeps records ↔
      readAll (fun buf => (WalRecord.fromBytesV2 buf).toOption) body = records := by
  have hread : log.readAllRecords =
      readAll (fun buf => (fromBytesV2 buf).toOption) body := by
    rw [readAllRecords, hfile, readV2RecordsFromFile_append]
  constructor
  · intro h
    rw [← hread]
    exact h.1
  · intro h
    refine ⟨hread.trans h, fun nodeId => ?_⟩
    rw [hfile]
    refine ⟨_, newWithIdentity_header body nodeId, ?_⟩
    show readV2RecordsFromFile (walHeader ++ body) = records
    rw [readV2RecordsFromFile_append, h]

/-- The bytes of records that are appended behind a torn record read the same as
without it: they begin with themselves, and no record begins what is left. -/
def Repeats (torn bytes : List UInt8) : Prop :=
  ∃ rest, torn ++ bytes = bytes ++ rest ∧ (WalRecord.fromBytesV2 rest).toOption = none

/-- **Records behind a torn one are found if they repeat its bytes, and only then**: just in the
case that their bytes, moved up by the torn part, are still there. -/
theorem torn_tail_iff {records : List WalRecord} (hrecords : ∀ r ∈ records, r.Sealed)
    {last : WalRecord} (hlast : last.Sealed) {torn : List UInt8} (htorn : torn <+: last.toBytes)
    (hne : torn ≠ last.toBytes) (nodeId : U128)
    {calls : List (Except GrumpyError Hlc × LogCall)} (hfits : ∀ call ∈ calls, call.2.Fits) :
    ∃ log, newWithIdentity (some (logBytes records ++ torn)) nodeId = .ok log ∧
      log.readAllRecords = records ∧
      ((log.run calls).Keeps (records ++ log.recordsOf calls) ↔
        Repeats torn ((log.recordsOf calls).flatMap WalRecord.toBytes)) := by
  have hfile : logBytes records ++ torn =
      walHeader ++ (records.flatMap toBytes ++ torn) := by
    rw [logBytes, append_assoc]
  rw [hfile]
  refine ⟨_, newWithIdentity_header _ nodeId, ?_, ?_⟩
  · have hlt : torn.length < last.toBytes.length :=
      lt_of_le_of_ne htorn.length_le fun h => hne (htorn.eq_of_length h)
    show readV2RecordsFromFile (walHeader ++ (records.flatMap toBytes ++ torn)) = records
    rw [readV2RecordsFromFile_append]
    exact framing.readAll_cut takes_fromBytesV2 hrecords hlast htorn hlt
  · generalize hlog : resume nodeId (readV2RecordsFromFile (walHeader ++
      (records.flatMap toBytes ++ torn)))
      (walHeader ++ (records.flatMap toBytes ++ torn)) = log
    have hrun : (log.run calls).file = walHeader ++ (records.flatMap toBytes ++
        (torn ++ (log.recordsOf calls).flatMap toBytes)) := by
      rw [file_run, ← hlog]
      simp only [resume, append_assoc]
    rw [keeps_iff hrun, framing.readAll_append takes_fromBytesV2 hrecords,
      append_cancel_left_eq]
    exact readAll_eq_iff (recordsOf_sealed hfits)

theorem repeats_nil {last : WalRecord} (hlast : last.Sealed) {torn bytes : List UInt8}
    (htorn : torn <+: last.toBytes) (hne : torn ≠ last.toBytes) (h : torn = [] ∨ bytes = []) :
    Repeats torn bytes := by
  rcases h with rfl | rfl
  · exact ⟨[], (append_nil _).symm, rfl⟩
  · have hlt : torn.length < last.toBytes.length :=
      lt_of_le_of_ne htorn.length_le fun h => hne (htorn.eq_of_length h)
    exact ⟨torn, append_nil _, framing.cut hlast htorn hlt⟩

def commitCall : Except GrumpyError Hlc × LogCall := (.ok 5, .commit 1)

omit [Crc32] in
/-- A log that was closed properly is opened and a commit is appended. -/
theorem torn_tail_none : ∃ (_ : Crc32) (log : OpenLog),
    newWithIdentity (some (logBytes [] ++ [])) 0 = .ok log ∧
      (log.run [commitCall]).Keeps ([] ++ log.recordsOf [commitCall]) := by
  let crc : Crc32 := ⟨fun _ => 0⟩
  have hlast : (commit 1 1 0 0 (.singleton 0 0)).Sealed :=
    sealed_finish (by decide) (by decide) fun _ => ⟨rfl, rfl⟩
  have hne : [] ≠ (commit 1 1 0 0 (.singleton 0 0)).toBytes := by decide
  obtain ⟨log, hopen, -, hkeeps⟩ := @torn_tail_iff _ [] nofun _ hlast [] nil_prefix hne 0
    [commitCall] (by simp [commitCall, LogCall.Fits])
  exact ⟨crc, log, hopen, hkeeps.2 (repeats_nil hlast nil_prefix hne (.inl rfl))⟩

omit [Crc32] in
/-- One byte of a commit is in the file; the commit that is appended behind it is not
found again. -/
theorem torn_tail_hides : ∃ (_ : Crc32) (last : WalRecord) (log : OpenLog),
    last.Sealed ∧ last.toBytes.take 1 ≠ last.toBytes ∧
    newWithIdentity (some (logBytes [] ++ last.toBytes.take 1)) 0 = .ok log ∧
      log.recordsOf [commitCall] ≠ [] ∧
      (log.run [commitCall]).readAllRecords = [] ∧
      ¬(log.run [commitCall]).Keeps ([] ++ log.recordsOf [commitCall]) := by
  let crc : Crc32 := ⟨fun _ => 0⟩
  have hlast : (commit 1 1 0 0 (.singleton 0 0)).Sealed :=
    sealed_finish (by decide) (by decide) fun _ => ⟨rfl, rfl⟩
  have hbyte : (commit 1 1 0 0 (.singleton 0 0)).toBytes.take 1 = [75] := by decide
  have hrecords : readV2RecordsFromFile (walHeader ++ [75]) = [] := by
    rw [readV2RecordsFromFile_append, readAll_none (by decide)]
  have hopen : newWithIdentity (some (logBytes [] ++ [75])) 0
      = .ok (resume 0 [] (walHeader ++ [75])) := by
    rw [logBytes, flatMap_nil, append_nil, newWithIdentity_header, hrecords]
  have hof : (resume 0 [] (walHeader ++ [75])).recordsOf [commitCall]
      = [commit 1 1 0 5 (.singleton 0 5)] := rfl
  have hread : ((resume 0 [] (walHeader ++ [75])).run [commitCall]).readAllRecords = [] := by
    rw [readAllRecords, file_run]
    show readV2RecordsFromFile (walHeader ++ [75] ++ _) = []
    rw [append_assoc, readV2RecordsFromFile_append, readAll_none (by decide)]
  refine ⟨crc, _, resume 0 [] (walHeader ++ [75]), hlast, ?_, ?_, ?_, hread, ?_⟩
  · decide
  · rw [hbyte, hopen]
  · exact cons_ne_nil _ _
  · intro h
    rw [Keeps, hread] at h
    exact absurd h.1 (cons_ne_nil _ _).symm

end OpenLog

end GrumpyDB
