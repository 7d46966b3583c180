/-
Key types of the B+tree and how a key is laid out in a slot.

`BTreeKey` collects the configuration of a key type, the layout of a slot and the errors of the
tree, with the law that a key that fits its slot is read back. Writing a key that does not fit
is a slice out of bounds in the source, so `writeKey` ends in `Halt.index` then.
-/
import GrumpyDB.Page

namespace GrumpyDB

def VAR_KEY_MAX_SIZE : Nat := 256

/-- A key type that can be stored in a B+tree. -/
class BTreeKey (K : Type) [LinearOrder K] where
  Config : Type
  /-- Bytes the configuration takes on the meta page and on each node page. -/
  metaBytes : Nat
  configBytes : Config → List UInt8
  readConfig : List UInt8 → Config
  slotKeySize : Config → Nat
  readKey : Config → List UInt8 → Except Halt K
  writeKey : Config → K → Except Halt (List UInt8)
  duplicateKeyError : K → GrumpyError
  keyNotFoundError : K → GrumpyError
  Valid : Config → Prop
  Fits : Config → K → Prop
  metaBytes_le : metaBytes ≤ 2
  length_configBytes : ∀ c, (configBytes c).length = metaBytes
  readConfig_configBytes : ∀ c, readConfig (configBytes c) = c
  slotKeySize_le : ∀ c, Valid c → slotKeySize c ≤ 258
  writeKey_fits : ∀ c k, Fits c k →
    ∃ bs, writeKey c k = .ok bs ∧ bs.length = slotKeySize c ∧ readKey c bs = .ok k

instance : BTreeKey Uuid where
  Config := Unit
  metaBytes := 0
  configBytes _ := []
  readConfig _ := ()
  slotKeySize _ := 16
  readKey _ buf := match Uuid.ofBytes? (slice 0 16 buf) with
    | some u => .ok u
    | none => .error .index
  writeKey _ k := .ok k.bytes
  duplicateKeyError k := .duplicateKey k
  keyNotFoundError k := .keyNotFound k
  Valid _ := True
  Fits _ _ := True
  metaBytes_le := by omega
  length_configBytes _ := rfl
  readConfig_configBytes _ := rfl
  slotKeySize_le _ _ := by omega
  writeKey_fits _ k _ := ⟨k.bytes, rfl, k.size, by simp [slice_self k.size]⟩

/-- Secondary index keys; the configuration is `max_key_size`. -/
instance : BTreeKey (List UInt8) where
  Config := UInt16
  metaBytes := 2
  configBytes c := leBytes 2 c.toNat
  readConfig bs := UInt16.ofNat (leNat bs)
  slotKeySize c := 2 + c.toNat
  readKey _ buf :=
    let keyLen := leNat (slice 0 2 buf)
    if 2 + keyLen ≤ buf.length then .ok (slice 2 keyLen buf) else .error .index
  writeKey c k :=
    if k.length ≤ c.toNat then
      .ok (leBytes 2 k.length ++ (k ++ List.replicate (c.toNat - k.length) 0))
    else .error .index
  duplicateKeyError k := .codec ("duplicate key in VarBTree: " ++ toString k.length ++ " bytes")
  keyNotFoundError k := .codec ("key not found in VarBTree: " ++ toString k.length ++ " bytes")
  Valid c := c.toNat ≤ VAR_KEY_MAX_SIZE
  Fits c k := k.length ≤ c.toNat
  metaBytes_le := le_rfl
  length_configBytes _ := length_leBytes _ _
  readConfig_configBytes := ofNat_leNat_u16
  slotKeySize_le c h := by simp only [VAR_KEY_MAX_SIZE] at h; omega
  writeKey_fits c k h := by
    refine ⟨_, if_pos h, by simp; omega, ?_⟩
    have hc := c.toNat_lt
    have hlen : leNat (slice 0 2 (leBytes 2 k.length ++
        (k ++ List.replicate (c.toNat - k.length) 0))) = k.length := by
      rw [slice_append_self (length_leBytes _ _), leNat_leBytes, Nat.mod_eq_of_lt (by omega)]
    simp only [hlen]
    rw [if_pos (by simp), slice_append_right (by simp)]
    simp [slice_append_self]

end GrumpyDB
