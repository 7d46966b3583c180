/-
Merging CRDT values.

Counters merge by their maximum; sets and registers are JSON texts of maps (`PayloadJson`) and
merge key by key.
-/
import GrumpyDB.Value
import GrumpyDB.Lib.SortedMap
import Mathlib.Data.Countable.Basic
import Mathlib.Data.String.Basic
import Mathlib.Logic.Equiv.List

namespace GrumpyDB

open SortedMap

/-- JSON bytes of payloads as the serializer writes and reads them. -/
class PayloadJson (ρ : Type) where
  toVec : ρ → List UInt8
  fromSlice : List UInt8 → Except String ρ
  fromSlice_toVec : ∀ p, fromSlice (toVec p) = .ok p

/-- Elements with the times they were added and removed at. -/
structure LwwSetPayload where
  adds : SortedMap String UInt64
  rems : SortedMap String UInt64

/-- Elements with the tags they were added and removed with. -/
structure OrSetPayload where
  adds : SortedMap String (SortedMap String Unit)
  rems : SortedMap String (SortedMap String Unit)

/-- The values of a register written concurrently. -/
structure MvrPayload where
  values : SortedMap String Unit

/-! ### Serializers -/

theorem PayloadJson.nonempty (ρ : Type) [Countable ρ] : Nonempty (PayloadJson ρ) := by
  classical
  -- the `n`-th payload is written as `n` bytes
  obtain ⟨number, hnumber⟩ := Countable.exists_injective_nat ρ
  refine ⟨{
    toVec := fun p => List.replicate (number p) 0
    fromSlice := fun bs =>
      if h : ∃ p, number p = bs.length then .ok h.choose else .error "expected value"
    fromSlice_toVec := fun p => ?_ }⟩
  have hex : ∃ p', number p' = (List.replicate (number p) (0 : UInt8)).length := ⟨p, by simp⟩
  rw [dif_pos hex]
  have heq : number hex.choose = number p := hex.choose_spec.trans List.length_replicate
  rw [hnumber heq]

theorem SortedMap.countable (κ ν : Type) [LinearOrder κ] [Countable κ] [Countable ν] :
    Countable (SortedMap κ ν) :=
  Function.Injective.countable (f := SortedMap.entries) fun _ _ => SortedMap.ext

theorem countable_string : Countable String := by
  have : Countable Char := Function.Injective.countable fun a b h => Char.toNat_inj.mp h
  exact Function.Injective.countable fun a b h => String.toList_injective h

theorem PayloadJson.nonempty_payloads : Nonempty (PayloadJson LwwSetPayload) ∧
    Nonempty (PayloadJson OrSetPayload) ∧ Nonempty (PayloadJson MvrPayload) := by
  have := countable_string
  have hu64 : Countable UInt64 := Function.Injective.countable fun a b h => UInt64.toNat_inj.mp h
  have hset := countable String Unit
  have htimes := countable String UInt64
  have htags := countable String (SortedMap String Unit)
  have hlww : Countable LwwSetPayload := Function.Injective.countable
    (f := fun p : LwwSetPayload => (p.adds, p.rems)) fun ⟨_, _⟩ ⟨_, _⟩ h => by simpa using h
  have hor : Countable OrSetPayload := Function.Injective.countable
    (f := fun p : OrSetPayload => (p.adds, p.rems)) fun ⟨_, _⟩ ⟨_, _⟩ h => by simpa using h
  have hmvr : Countable MvrPayload := Function.Injective.countable
    (f := MvrPayload.values) fun ⟨_⟩ ⟨_⟩ h => by simpa using h
  exact ⟨PayloadJson.nonempty _, PayloadJson.nonempty _, PayloadJson.nonempty _⟩

/-! ### Merging -/

namespace Crdt

def mergeMaps {ν : Type} (combine : ν → ν → ν) (left right : SortedMap String ν) :
    SortedMap String ν :=
  right.entries.foldl (fun out e =>
    match out.get? e.1 with
    | some lv => out.insert e.1 (combine lv e.2)
    | none => out.insert e.1 e.2) left

def mergeMaxU64Maps : SortedMap String UInt64 → SortedMap String UInt64 → SortedMap String UInt64 :=
  mergeMaps max

def unionSets : SortedMap String Unit → SortedMap String Unit → SortedMap String Unit :=
  mergeMaps fun _ _ => ()

def mergeSetMaps : SortedMap String (SortedMap String Unit) →
    SortedMap String (SortedMap String Unit) → SortedMap String (SortedMap String Unit) :=
  mergeMaps unionSets

def decodeU64 (bytes : List UInt8) (kind : String) : Except String UInt64 :=
  if bytes.length ≠ 8 then
    .error ("invalid " ++ kind ++ " payload length: expected 8, got " ++ toString bytes.length)
  else .ok (UInt64.ofNat (leNat bytes))

def decodePn (bytes : List UInt8) : Except String (UInt64 × UInt64) :=
  if bytes.length ≠ 16 then
    .error ("invalid PNCounter payload length: expected 16, got " ++ toString bytes.length)
  else .ok (UInt64.ofNat (leNat (slice 0 8 bytes)), UInt64.ofNat (leNat (slice 8 8 bytes)))

def decodePayload {ρ : Type} [PayloadJson ρ] (bytes : List UInt8) (kind : String) :
    Except String ρ :=
  (PayloadJson.fromSlice bytes).mapError fun e => "invalid " ++ kind ++ " payload JSON: " ++ e

variable [PayloadJson LwwSetPayload] [PayloadJson OrSetPayload] [PayloadJson MvrPayload]

/-- Two payloads of a kind decode to the same. -/
def SamePayload (kind : CrdtKind) (p q : List UInt8) : Prop :=
  match kind with
  | .gCounter => decodeU64 p "GCounter" = decodeU64 q "GCounter"
  | .pnCounter => decodePn p = decodePn q
  | .lwwSet => (decodePayload p "LwwSet" : Except String LwwSetPayload) = decodePayload q "LwwSet"
  | .orSet => (decodePayload p "OrSet" : Except String OrSetPayload) = decodePayload q "OrSet"
  | .mvr => (decodePayload p "Mvr" : Except String MvrPayload) = decodePayload q "Mvr"

theorem SamePayload.refl (kind : CrdtKind) (p : List UInt8) : SamePayload kind p p := by
  cases kind <;> rfl

def mergePayload (kind : CrdtKind) (left right : List UInt8) : Except String (List UInt8) :=
  match kind with
  | .gCounter => do
    let l ← decodeU64 left "GCounter"
    let r ← decodeU64 right "GCounter"
    return leBytes 8 (max l r).toNat
  | .pnCounter => do
    let (lp, ln) ← decodePn left
    let (rp, rn) ← decodePn right
    return leBytes 8 (max lp rp).toNat ++ leBytes 8 (max ln rn).toNat
  | .lwwSet => do
    let l : LwwSetPayload ← decodePayload left "LwwSet"
    let r : LwwSetPayload ← decodePayload right "LwwSet"
    return PayloadJson.toVec (LwwSetPayload.mk (mergeMaxU64Maps l.adds r.adds)
      (mergeMaxU64Maps l.rems r.rems))
  | .orSet => do
    let l : OrSetPayload ← decodePayload left "OrSet"
    let r : OrSetPayload ← decodePayload right "OrSet"
    return PayloadJson.toVec (OrSetPayload.mk (mergeSetMaps l.adds r.adds)
      (mergeSetMaps l.rems r.rems))
  | .mvr => do
    let l : MvrPayload ← decodePayload left "Mvr"
    let r : MvrPayload ← decodePayload right "Mvr"
    return PayloadJson.toVec (MvrPayload.mk (unionSets l.values r.values))

def mergeValues (left right : Value) : Except String Value :=
  match left.asCrdt, right.asCrdt with
  | none, _ => .error "left value is not CRDT"
  | some _, none => .error "right value is not CRDT"
  | some (leftKind, leftPayload), some (rightKind, rightPayload) =>
    if leftKind ≠ rightKind then
      .error ("CRDT kind mismatch: left=" ++ leftKind.asStr ++ ", right=" ++ rightKind.asStr)
    else (mergePayload leftKind leftPayload rightPayload).map fun merged =>
      .crdt leftKind merged

theorem isCrdt_of_mergeValues {left right merged : Value}
    (h : mergeValues left right = .ok merged) : merged.isCrdt := by
  unfold mergeValues at h
  split at h
  · cases h
  · cases h
  · split at h
    · cases h
    · rename_i lk lp rk rp _ _ _
      rcases hm : mergePayload lk lp rp with e | p
      · simp [hm, Except.map] at h
      · simp only [hm, Except.map, Except.ok.injEq] at h
        subst h
        rfl

end Crdt

end GrumpyDB
