/-
Writing the log.

`write_all` hands the bytes of a record to the file in pieces: `LogFile` is the bytes in the
file and those of the call in progress that are not there yet, which make up the header and the
records (`LogFile.Holds`).
-/
import GrumpyDB.Wal.Record

namespace GrumpyDB

open WalRecord

/-! ### Calls of the writer -/

structure WalWriter where
  nextLsn : UInt64
  nodeId : U128

inductive LogCall where
  | pageWrite (txId : UInt64) (pageId : UInt32) (before after : List UInt8)
  | commit (txId : UInt64)
  | checkpoint

namespace WalWriter

variable [Crc32]

def logPageWrite (w : WalWriter) (lsn : UInt64) (hlc : Hlc) (txId : UInt64) (pageId : UInt32)
    (before after : List UInt8) : WalRecord :=
  .pageWrite lsn txId w.nodeId hlc (.singleton w.nodeId hlc) pageId before after

def logCommit (w : WalWriter) (lsn : UInt64) (hlc : Hlc) (txId : UInt64) : WalRecord :=
  .commit lsn txId w.nodeId hlc (.singleton w.nodeId hlc)

def logCheckpoint (w : WalWriter) (lsn : UInt64) (hlc : Hlc) : WalRecord :=
  .checkpoint lsn w.nodeId hlc (.singleton w.nodeId hlc)

/-- The record a call appends.  `now` is what the clock gives; the sequence
number is used up even if the clock fails. -/
def log (w : WalWriter) (now : Except GrumpyError Hlc) (call : LogCall) :
    Except GrumpyError WalRecord × WalWriter :=
  let lsn := w.nextLsn
  let record (hlc : Hlc) : WalRecord :=
    match call with
    | .pageWrite txId pageId before after => w.logPageWrite lsn hlc txId pageId before after
    | .commit txId => w.logCommit lsn hlc txId
    | .checkpoint => w.logCheckpoint lsn hlc
  (now.map record, { w with nextLsn := lsn + 1 })

end WalWriter

/-- The record of the call has a length that fits the length field.  The engine
logs pages, which are far below that. -/
def LogCall.Fits : LogCall → Prop
  | pageWrite _ _ before after => before.length + after.length + 83 < 2 ^ 32
  | _ => True

theorem WalWriter.sealed_log [Crc32] {w w' : WalWriter} {now : Except GrumpyError Hlc}
    {call : LogCall} {r : WalRecord} (h : w.log now call = (.ok r, w')) (hfits : call.Fits) :
    r.Sealed := by
  rw [log, Prod.mk.injEq, except_map_eq_ok] at h
  obtain ⟨⟨hlc, -, rfl⟩, -⟩ := h
  have hclock : (VectorClock.singleton w.nodeId hlc).len ≤ MAX_VCLOCK_ENTRIES := by
    rw [VectorClock.len_singleton]
    decide
  cases call with
  | pageWrite txId pageId before after =>
    refine sealed_finish ?_ hclock (by simp)
    show WAL_RECORD_HEADER_SIZE_V2 + (VectorClock.singleton w.nodeId hlc).encodedLen +
      (4 + 4 + (after ++ before).length) < 2 ^ 32
    simp only [LogCall.Fits] at hfits
    simp only [WAL_RECORD_HEADER_SIZE_V2, VectorClock.encodedLen, VectorClock.len_singleton,
      VCLOCK_ENTRY_SIZE, List.length_append]
    omega
  | commit txId =>
    exact sealed_finish (by simp [encodedV2Len, WAL_RECORD_HEADER_SIZE_V2,
      VectorClock.encodedLen, VCLOCK_ENTRY_SIZE]) hclock fun _ => ⟨rfl, rfl⟩
  | checkpoint =>
    exact sealed_finish (by simp [encodedV2Len, WAL_RECORD_HEADER_SIZE_V2,
      VectorClock.encodedLen, VCLOCK_ENTRY_SIZE]) hclock fun _ => ⟨rfl, rfl⟩

/-! ### The file -/

@[irreducible] def walHeader : List UInt8 := buildWalHeader WAL_VERSION_CURRENT

@[simp] theorem length_walHeader : walHeader.length = WAL_HEADER_SIZE := by
  rw [walHeader, length_buildWalHeader]

def logBytes (records : List WalRecord) : List UInt8 :=
  walHeader ++ records.flatMap WalRecord.toBytes

theorem logBytes_append (records more : List WalRecord) :
    logBytes (records ++ more) = logBytes records ++ more.flatMap WalRecord.toBytes := by
  simp [logBytes]

/-- The log file and the bytes of the call in progress that have not reached it. -/
structure LogFile where
  file : List UInt8
  writing : List UInt8

namespace LogFile

def create : LogFile := ⟨[], walHeader⟩

def append (f : LogFile) (r : WalRecord) : LogFile := { f with writing := r.toBytes }

def chunk (f : LogFile) (n : Nat) : LogFile := ⟨f.file ++ f.writing.take n, f.writing.drop n⟩

def truncate (_ : LogFile) : LogFile := create

/-- What is in the file and what is still to come are the header and `records`. -/
def Holds (f : LogFile) (records : List WalRecord) : Prop := f.file ++ f.writing = logBytes records

variable {f : LogFile} {records : List WalRecord} {r : WalRecord}

theorem holds_create : create.Holds [] := by simp [Holds, create, logBytes]

theorem Holds.isPrefix (h : f.Holds records) : f.file <+: logBytes records :=
  ⟨f.writing, h⟩

theorem Holds.append (h : f.Holds records) (hidle : f.writing = []) :
    (f.append r).Holds (records ++ [r]) := by
  rw [Holds, hidle, List.append_nil] at h
  show f.file ++ r.toBytes = _
  rw [logBytes_append, h]
  simp

theorem Holds.chunk (h : f.Holds records) (n : Nat) : (f.chunk n).Holds records := by
  show f.file ++ f.writing.take n ++ f.writing.drop n = _
  rw [List.append_assoc, List.take_append_drop]
  exact h

end LogFile

end GrumpyDB
