/-
Document values.

Floats are held by their bits, objects by their entries in ascending order of the keys.
-/
import GrumpyDB.Error

namespace GrumpyDB

inductive CrdtKind where
  | gCounter
  | pnCounter
  | lwwSet
  | orSet
  | mvr
  deriving DecidableEq, Repr

namespace CrdtKind

def asStr : CrdtKind → String
  | gCounter => "GCounter"
  | pnCounter => "PNCounter"
  | lwwSet => "LwwSet"
  | orSet => "OrSet"
  | mvr => "Mvr"

def fromName (name : String) : Option CrdtKind :=
  [gCounter, pnCounter, lwwSet, orSet, mvr].find? fun kind => kind.asStr = name

end CrdtKind

inductive Value where
  | null
  | bool (b : Bool)
  | integer (i : Int64)
  | float (bits : UInt64)
  | string (s : String)
  | bytes (b : List UInt8)
  | array (items : List Value)
  | object (fields : List (String × Value))
  | ref (collection : String) (id : Uuid)
  | tombstone (deletedAtHlc : UInt64) (vectorClock : List UInt8)
  | crdt (kind : CrdtKind) (payload : List UInt8)

namespace Value

def isCrdt : Value → Bool
  | crdt _ _ => true
  | _ => false

def asCrdt : Value → Option (CrdtKind × List UInt8)
  | crdt kind payload => some (kind, payload)
  | _ => none

end Value

end GrumpyDB
