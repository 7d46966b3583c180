/-
Keys and errors.

A call can also end without returning at all: a panic on an index out of bounds or on arithmetic
that overflows, or a loop that never ends. `Halt` puts these beside the errors. The only
overflow the storage layer can run into is the page counter of a file: page ids are `u32`.
-/
import GrumpyDB.Lib.Bytes
import GrumpyDB.Lib.Proc

namespace GrumpyDB

/-- A UUID: 16 bytes. -/
@[ext] structure Uuid where
  bytes : List UInt8
  size : bytes.length = 16
  deriving DecidableEq, Repr

namespace Uuid

theorem bytes_injective : Function.Injective Uuid.bytes := fun _ _ h => Uuid.ext h

/-- UUIDs compare as their bytes do. -/
instance : LinearOrder Uuid := LinearOrder.lift' Uuid.bytes bytes_injective

theorem lt_iff {a b : Uuid} : a < b ↔ a.bytes < b.bytes := Iff.rfl

theorem le_iff {a b : Uuid} : a ≤ b ↔ a.bytes ≤ b.bytes := Iff.rfl

def ofBytes? (bs : List UInt8) : Option Uuid :=
  if h : bs.length = 16 then some ⟨bs, h⟩ else none

@[simp] theorem ofBytes?_bytes (u : Uuid) : ofBytes? u.bytes = some u := by
  simp [ofBytes?, u.size]

def nil : Uuid := ⟨List.replicate 16 0, by simp⟩

def fromU128 (n : Nat) : Uuid := ⟨beBytes 16 n, by simp⟩

end Uuid

inductive GrumpyError where
  | io
  | pageNotFound (page : UInt32)
  | pageFull (page : UInt32)
  | duplicateKey (key : Uuid)
  | keyNotFound (key : Uuid)
  | checksumMismatch (page expected actual : UInt32)
  | walCorrupted (lsn : UInt64)
  | bufferPoolExhausted
  | codec (msg : String)
  | notIndexable
  | indexNotFound (name : String)
  | indexAlreadyExists (name : String)
  | collectionNotFound (name : String)
  | invalidName (msg : String)
  | cyclicReference
  | corruption (msg : String)
  | hlc (msg : String)
  | vectorClock (msg : String)
  | unsupportedWalVersion (version : UInt16)
  deriving DecidableEq, Repr

/-- How a call can end other than by returning a value. -/
inductive Halt where
  | err (e : GrumpyError)
  | overflow
  | index
  /-- A loop over pages did not come to an end. -/
  | diverge
  deriving DecidableEq, Repr

end GrumpyDB
