/-
The binary form of values and documents.

Lengths and counts are cut off to 32 bits. Reading keeps limits that writing does not: a value
whose lengths fit reads back if it is within the limits, and not at all otherwise
(`reads_encode`).
-/
import GrumpyDB.Value
import GrumpyDB.UuidText
import GrumpyDB.Lib.Cursor
import GrumpyDB.Lib.SortedMap
import Mathlib.Data.String.Basic

namespace GrumpyDB

open List UInt64 Uuid

/-! ### Tags and limits -/

def CrdtKind.toTag : CrdtKind → UInt8
  | gCounter => 0
  | pnCounter => 1
  | lwwSet => 2
  | orSet => 3
  | mvr => 4

def CrdtKind.fromTag (tag : UInt8) : Option CrdtKind :=
  [gCounter, pnCounter, lwwSet, orSet, mvr].find? fun kind => kind.toTag = tag

theorem CrdtKind.fromTag_toTag (kind : CrdtKind) : fromTag kind.toTag = some kind := by
  cases kind <;> rfl

namespace Codec

def TAG_NULL : UInt8 := 0x00
def TAG_BOOL : UInt8 := 0x01
def TAG_INTEGER : UInt8 := 0x02
def TAG_FLOAT : UInt8 := 0x03
def TAG_STRING : UInt8 := 0x04
def TAG_BYTES : UInt8 := 0x05
def TAG_ARRAY : UInt8 := 0x06
def TAG_OBJECT : UInt8 := 0x07
def TAG_REF : UInt8 := 0x08
def TAG_TOMBSTONE : UInt8 := 0x09
def TAG_CRDT : UInt8 := 0x0a

def MAX_REF_NAME_LEN : Nat := 64

def MAX_TOMBSTONE_VCLOCK_LEN : Nat := 128 * 1024

def MAX_CRDT_PAYLOAD_LEN : Nat := 16 * 1024 * 1024

def MAX_NESTING_DEPTH : Nat := 64

def MAX_BLOB_LEN : Nat := 16 * 1024 * 1024

def MAX_ARRAY_LEN : Nat := 1000000

def MAX_OBJECT_KEYS : Nat := 100000

/-! ### Encoding -/

def encodeBlob (b : List UInt8) : List UInt8 := leBytes 4 b.length ++ b

mutual

def encode : Value → List UInt8
  | .null => [TAG_NULL]
  | .bool b => [TAG_BOOL, if b then 1 else 0]
  | .integer i => TAG_INTEGER :: leBytes 8 i.toUInt64.toNat
  | .float bits => TAG_FLOAT :: leBytes 8 bits.toNat
  | .string s => TAG_STRING :: encodeBlob (utf8 s)
  | .bytes b => TAG_BYTES :: encodeBlob b
  | .array items => TAG_ARRAY :: (leBytes 4 items.length ++ encodeItems items)
  | .object fields => TAG_OBJECT :: (leBytes 4 fields.length ++ encodeFields fields)
  | .ref collection id => TAG_REF :: (encodeBlob (utf8 collection) ++ id.bytes)
  | .tombstone deletedAtHlc vectorClock =>
    TAG_TOMBSTONE :: (leBytes 8 deletedAtHlc.toNat ++ encodeBlob vectorClock)
  | .crdt kind payload => TAG_CRDT :: kind.toTag :: encodeBlob payload

def encodeItems : List Value → List UInt8
  | [] => []
  | v :: items => encode v ++ encodeItems items

def encodeFields : List (String × Value) → List UInt8
  | [] => []
  | (key, v) :: fields => encodeBlob (utf8 key) ++ encode v ++ encodeFields fields

end

theorem encodeItems_eq (items : List Value) : encodeItems items = items.flatMap encode := by
  induction items with
  | nil => rfl
  | cons v items ih => rw [encodeItems, ih, flatMap_cons]

def encodeField (f : String × Value) : List UInt8 := encodeBlob (utf8 f.1) ++ encode f.2

theorem encodeFields_eq (fields : List (String × Value)) :
    encodeFields fields = fields.flatMap encodeField := by
  induction fields with
  | nil => rfl
  | cons f fields ih => rw [encodeFields, ih, flatMap_cons, encodeField]

/-! ### Decoding -/

abbrev Decoder (α : Type) := Cursor GrumpyError α

def readU8 : Decoder UInt8 := do
  let bs ← Cursor.take 1 fun _ => .codec "unexpected end of data"
  pure (bs.headD 0)

def readU32Le : Decoder Nat := do
  let bs ← Cursor.take 4 fun _ => .codec "unexpected end of data reading u32"
  pure (leNat bs)

def readI64Le : Decoder Int64 := do
  let bs ← Cursor.take 8 fun _ => .codec "unexpected end of data reading i64"
  pure (UInt64.ofNat (leNat bs)).toInt64

def readF64Le : Decoder UInt64 := do
  let bs ← Cursor.take 8 fun _ => .codec "unexpected end of data reading f64"
  pure (UInt64.ofNat (leNat bs))

def readBytes (len : Nat) : Decoder (List UInt8) :=
  Cursor.take len fun n =>
    .codec ("unexpected end of data: need " ++ toString len ++ " bytes, have " ++ toString n)

/-- A text.  What the message says about the ill-formed bytes is left out. -/
def readString (len : Nat) : Decoder String := do
  let bytes ← readBytes len
  Cursor.ofOption (fromUtf8? bytes) (.codec "invalid UTF-8")

def readCount (what : String) (max : Nat) : Decoder Nat := do
  let n ← readU32Le
  Cursor.require (decide (n ≤ max))
    (.codec (what ++ " " ++ toString n ++ " exceeds maximum (" ++ toString max ++ ")"))
  pure n

def readBlob (what : String) (max : Nat) : Decoder (List UInt8) := do
  let len ← readCount what max
  readBytes len

def readText (what : String) (max : Nat) : Decoder String := do
  let len ← readCount what max
  readString len

def collectFields (fields : List (String × Value)) : List (String × Value) :=
  (fields.foldl (fun (m : SortedMap String Value) f => m.insert f.1 f.2) SortedMap.empty).entries

/-- What follows a tag; `item` decodes the parts of a list or an object. -/
def decodeTagged (item : Decoder Value) (tag : UInt8) : Decoder Value :=
  match tag.toNat with
  | 0x00 => pure .null
  | 0x01 => do
    let b ← readU8
    pure (.bool (b ≠ 0))
  | 0x02 => do
    let n ← readI64Le
    pure (.integer n)
  | 0x03 => do
    let f ← readF64Le
    pure (.float f)
  | 0x04 => do
    let s ← readText "string length" MAX_BLOB_LEN
    pure (.string s)
  | 0x05 => do
    let b ← readBlob "bytes length" MAX_BLOB_LEN
    pure (.bytes b)
  | 0x06 => do
    let count ← readCount "array length" MAX_ARRAY_LEN
    let items ← Cursor.times item count
    pure (.array items)
  | 0x07 => do
    let count ← readCount "object key count" MAX_OBJECT_KEYS
    let fields ← Cursor.times (do
      let key ← readText "object key length" MAX_BLOB_LEN
      let val ← item
      pure (key, val)) count
    pure (.object (collectFields fields))
  | 0x08 => do
    let collection ← readText "ref collection name length" MAX_REF_NAME_LEN
    let uuidBytes ← readBytes 16
    -- There are 16 of them, so the error is never used.
    let uuid ← Cursor.ofOption (Uuid.ofBytes? uuidBytes) (.codec "")
    pure (.ref collection uuid)
  | 0x09 => do
    let hlcBytes ← Cursor.take 8 fun _ => .codec "unexpected end of data reading tombstone HLC"
    let vectorClock ← readBlob "tombstone vector clock length" MAX_TOMBSTONE_VCLOCK_LEN
    pure (.tombstone (UInt64.ofNat (leNat hlcBytes)) vectorClock)
  | 0x0a => do
    let kindTag ← readU8
    let kind ← Cursor.ofOption (CrdtKind.fromTag kindTag)
      (.codec ("unknown CRDT kind tag: " ++ toString kindTag.toNat))
    let payload ← readBlob "CRDT payload length" MAX_CRDT_PAYLOAD_LEN
    pure (.crdt kind payload)
  | _ => Cursor.fail (.codec ("unknown type tag: 0x" ++
      String.ofList ((Uuid.hexPair tag).map fun b => Char.ofNat b.toNat)))

/-- Decode a value with `left` levels of nesting to go. -/
def decodeRecursive : Nat → Decoder Value
  | 0 => Cursor.fail (.codec
      ("nesting depth exceeds maximum (" ++ toString MAX_NESTING_DEPTH ++ ")"))
  | left + 1 => do
    let tag ← readU8
    decodeTagged (decodeRecursive left) tag

def decodeFromCursor : Decoder Value := decodeRecursive (MAX_NESTING_DEPTH + 1)

/-! ### Parts of a value -/

mutual

/-- `p` holds of the value and of every value in it. -/
def Every (p : Value → Prop) : Value → Prop
  | .array items => p (.array items) ∧ EveryItem p items
  | .object fields => p (.object fields) ∧ EveryField p fields
  | .null => p .null
  | .bool b => p (.bool b)
  | .integer i => p (.integer i)
  | .float bits => p (.float bits)
  | .string s => p (.string s)
  | .bytes b => p (.bytes b)
  | .ref collection id => p (.ref collection id)
  | .tombstone deletedAtHlc vectorClock => p (.tombstone deletedAtHlc vectorClock)
  | .crdt kind payload => p (.crdt kind payload)

def EveryItem (p : Value → Prop) : List Value → Prop
  | [] => True
  | v :: items => Every p v ∧ EveryItem p items

def EveryField (p : Value → Prop) : List (String × Value) → Prop
  | [] => True
  | (_, v) :: fields => Every p v ∧ EveryField p fields

end

section Every

variable {p : Value → Prop}

variable {items : List Value}

theorem everyItem_iff : EveryItem p items ↔ ∀ v ∈ items, Every p v := by
  induction items with
  | nil => simp [EveryItem]
  | cons v items ih => rw [EveryItem, ih, forall_mem_cons]

variable {fields : List (String × Value)}

theorem everyField_iff : EveryField p fields ↔ ∀ f ∈ fields, Every p f.2 := by
  induction fields with
  | nil => simp [EveryField]
  | cons f fields ih => rw [EveryField, ih, forall_mem_cons]

theorem every_array : Every p (.array items) ↔ p (.array items) ∧ ∀ v ∈ items, Every p v := by
  rw [Every, everyItem_iff]

theorem every_object :
    Every p (.object fields) ↔ p (.object fields) ∧ ∀ f ∈ fields, Every p f.2 := by
  rw [Every, everyField_iff]

end Every

/-- The lengths and counts of a value fit into 32 bits, those of its parts aside. -/
def ShortHere : Value → Prop
  | .string s => (utf8 s).length < 2 ^ 32
  | .bytes b => b.length < 2 ^ 32
  | .array items => items.length < 2 ^ 32
  | .object fields => fields.length < 2 ^ 32 ∧ ∀ f ∈ fields, (utf8 f.1).length < 2 ^ 32
  | .ref collection _ => (utf8 collection).length < 2 ^ 32
  | .tombstone _ vectorClock => vectorClock.length < 2 ^ 32
  | .crdt _ payload => payload.length < 2 ^ 32
  | _ => True

/-- Every length and count in the value fits into 32 bits. -/
def Short (v : Value) : Prop := Every ShortHere v

/-- The keys of an object are in order, the objects in it aside. -/
def OrderedHere : Value → Prop
  | .object fields => fields.Pairwise fun x y => x.1 < y.1
  | _ => True

/-- The keys of every object in the value are in order, as a `BTreeMap` has them. -/
def Ordered (v : Value) : Prop := Every OrderedHere v

/-- The value is within the limits of the decoder, with `left` levels to go. -/
def Within : Nat → Value → Prop
  | 0, _ => False
  | _ + 1, .string s => (utf8 s).length ≤ MAX_BLOB_LEN
  | _ + 1, .bytes b => b.length ≤ MAX_BLOB_LEN
  | left + 1, .array items => items.length ≤ MAX_ARRAY_LEN ∧ ∀ v ∈ items, Within left v
  | left + 1, .object fields => fields.length ≤ MAX_OBJECT_KEYS ∧
      ∀ f ∈ fields, (utf8 f.1).length ≤ MAX_BLOB_LEN ∧ Within left f.2
  | _ + 1, .ref collection _ => (utf8 collection).length ≤ MAX_REF_NAME_LEN
  | _ + 1, .tombstone _ vectorClock => vectorClock.length ≤ MAX_TOMBSTONE_VCLOCK_LEN
  | _ + 1, .crdt _ payload => payload.length ≤ MAX_CRDT_PAYLOAD_LEN
  | _ + 1, _ => True

/-! ### Reading back -/

open Cursor

theorem reads_u8 (b : UInt8) : Reads readU8 [b] True b := (reads_take (n := 1) rfl).map _

variable {n : Nat}

theorem reads_u32 (h : n < 2 ^ 32) : Reads readU32Le (leBytes 4 n) True n := by
  have hread : Reads readU32Le (leBytes 4 n) True (leNat (leBytes 4 n)) :=
    (reads_take (length_leBytes 4 n)).map leNat
  rwa [leNat_leBytes, Nat.mod_eq_of_lt (by omega)] at hread

theorem reads_count (what : String) (max : Nat) (h : n < 2 ^ 32) :
    Reads (readCount what max) (leBytes 4 n) (n ≤ max) n := by
  refine ((reads_u32 h).bind fun _ => Reads.after fun _ => reads_pure).congr
    (append_nil _) ?_
  simp

theorem reads_blob (what : String) (max : Nat) {b : List UInt8} (h : b.length < 2 ^ 32) :
    Reads (readBlob what max) (encodeBlob b) (b.length ≤ max) b :=
  ((reads_count what max h).bind fun _ => reads_take rfl).congr rfl (Iff.of_eq (and_true _))

theorem reads_string (s : String) : Reads (readString (utf8 s).length) (utf8 s) True s := by
  have hread : Reads (readString (utf8 s).length) (utf8 s ++ []) (True ∧ True) s :=
    (reads_take rfl).bind fun _ => reads_ofOption (fromUtf8?_utf8 s)
  exact hread.congr (append_nil _) (Iff.of_eq (and_true _))

theorem reads_text (what : String) (max : Nat) {s : String} (h : (utf8 s).length < 2 ^ 32) :
    Reads (readText what max) (encodeBlob (utf8 s)) ((utf8 s).length ≤ max) s :=
  ((reads_count what max h).bind fun _ => reads_string s).congr rfl (Iff.of_eq (and_true _))

variable {fields : List (String × Value)}

theorem collectFields_eq (h : fields.Pairwise fun x y => x.1 < y.1) :
    collectFields fields = fields := by
  have hfold : ∀ (l : List (String × Value)) (m : SortedMap String Value),
      (m.entries ++ l).Pairwise (fun x y => x.1 < y.1) →
      (l.foldl (fun (m : SortedMap String Value) f => m.insert f.1 f.2) m).entries
        = m.entries ++ l := by
    intro l
    induction l with
    | nil => intro m _; exact (append_nil _).symm
    | cons f l ih =>
      intro m hm
      have hlt : ∀ e ∈ m.entries, e.1 < f.1 := fun e he =>
        (pairwise_append.mp hm).2.2 e he f (by simp)
      have hins : (m.insert f.1 f.2).entries = m.entries ++ [f] :=
        SortedMap.entries_insert_of_lt hlt
      rw [foldl_cons, ih, hins, append_assoc, singleton_append]
      rw [hins, append_assoc]
      exact hm
  exact hfold fields SortedMap.empty h

section Reads

variable {item : Decoder Value} {within : Value → Prop}

theorem reads_array {items : List Value} (hlen : items.length < 2 ^ 32)
    (hitem : ∀ v ∈ items, Reads item (encode v) (within v) v) :
    Reads (decodeTagged item TAG_ARRAY) (leBytes 4 items.length ++ encodeItems items)
      (items.length ≤ MAX_ARRAY_LEN ∧ ∀ v ∈ items, within v) (.array items) := by
  rw [encodeItems_eq]
  exact (reads_count "array length" MAX_ARRAY_LEN hlen).bind fun _ =>
    (reads_times hitem).map Value.array

theorem reads_object {fields : List (String × Value)} (hlen : fields.length < 2 ^ 32)
    (hkeys : ∀ f ∈ fields, (utf8 f.1).length < 2 ^ 32)
    (hsorted : fields.Pairwise fun x y => x.1 < y.1)
    (hitem : ∀ f ∈ fields, Reads item (encode f.2) (within f.2) f.2) :
    Reads (decodeTagged item TAG_OBJECT) (leBytes 4 fields.length ++ encodeFields fields)
      (fields.length ≤ MAX_OBJECT_KEYS ∧
        ∀ f ∈ fields, (utf8 f.1).length ≤ MAX_BLOB_LEN ∧ within f.2) (.object fields) := by
  have hfields : ∀ f ∈ fields, Reads (do
      let key ← readText "object key length" MAX_BLOB_LEN
      let val ← item
      pure (key, val)) (encodeField f) ((utf8 f.1).length ≤ MAX_BLOB_LEN ∧ within f.2) f :=
    fun f hf => (reads_text "object key length" MAX_BLOB_LEN (hkeys f hf)).bind fun _ =>
      (hitem f hf).map fun val => (f.1, val)
  have hread : Reads (decodeTagged item TAG_OBJECT)
      (leBytes 4 fields.length ++ fields.flatMap encodeField)
      (fields.length ≤ MAX_OBJECT_KEYS ∧
        ∀ f ∈ fields, (utf8 f.1).length ≤ MAX_BLOB_LEN ∧ within f.2)
      (.object (collectFields fields)) :=
    (reads_count "object key count" MAX_OBJECT_KEYS hlen).bind fun _ =>
      (reads_times hfields).map fun l => Value.object (collectFields l)
  rwa [collectFields_eq hsorted, ← encodeFields_eq] at hread

theorem reads_ref {collection : String} (hlen : (utf8 collection).length < 2 ^ 32) (id : Uuid) :
    Reads (decodeTagged item TAG_REF) (encodeBlob (utf8 collection) ++ id.bytes)
      ((utf8 collection).length ≤ MAX_REF_NAME_LEN) (.ref collection id) := by
  have hid : Reads (do
      let uuidBytes ← readBytes 16
      let uuid ← Cursor.ofOption (ofBytes? uuidBytes) (.codec "")
      pure (.ref collection uuid)) id.bytes True (Value.ref collection id) :=
    ((reads_take id.size).bind fun _ =>
      (reads_ofOption (ofBytes?_bytes id)).map (Value.ref collection)).congr
        (append_nil _) (Iff.of_eq (and_true _))
  exact Reads.congr ((reads_text "ref collection name length" MAX_REF_NAME_LEN hlen).bind
    fun _ => hid) rfl (Iff.of_eq (and_true _))

theorem reads_tombstone (hlc : UInt64) {vectorClock : List UInt8}
    (h : vectorClock.length < 2 ^ 32) :
    Reads (decodeTagged item TAG_TOMBSTONE) (leBytes 8 hlc.toNat ++ encodeBlob vectorClock)
      (vectorClock.length ≤ MAX_TOMBSTONE_VCLOCK_LEN) (.tombstone hlc vectorClock) := by
  have hread : Reads (decodeTagged item TAG_TOMBSTONE)
      (leBytes 8 hlc.toNat ++ encodeBlob vectorClock)
      (True ∧ vectorClock.length ≤ MAX_TOMBSTONE_VCLOCK_LEN)
      (.tombstone (ofNat (leNat (leBytes 8 hlc.toNat))) vectorClock) :=
    (reads_take (length_leBytes 8 hlc.toNat)).bind fun _ =>
      (reads_blob "tombstone vector clock length" MAX_TOMBSTONE_VCLOCK_LEN h).map
        (Value.tombstone (ofNat (leNat (leBytes 8 hlc.toNat))))
  rw [ofNat_leNat_u64] at hread
  exact hread.congr rfl (Iff.of_eq (true_and _))

theorem reads_crdt (kind : CrdtKind) {payload : List UInt8} (h : payload.length < 2 ^ 32) :
    Reads (decodeTagged item TAG_CRDT) (kind.toTag :: encodeBlob payload)
      (payload.length ≤ MAX_CRDT_PAYLOAD_LEN) (.crdt kind payload) := by
  have hread : Reads (decodeTagged item TAG_CRDT) ([kind.toTag] ++ ([] ++ encodeBlob payload))
      (True ∧ True ∧ payload.length ≤ MAX_CRDT_PAYLOAD_LEN) (.crdt kind payload) :=
    (reads_u8 kind.toTag).bind fun _ => (reads_ofOption (CrdtKind.fromTag_toTag kind)).bind
      fun _ => (reads_blob "CRDT payload length" MAX_CRDT_PAYLOAD_LEN h).map (Value.crdt kind)
  exact hread.congr rfl (by simp)

theorem reads_integer (i : Int64) :
    Reads (decodeTagged item TAG_INTEGER) (leBytes 8 i.toUInt64.toNat) True (.integer i) := by
  have hread : Reads (decodeTagged item TAG_INTEGER) (leBytes 8 i.toUInt64.toNat) True
      (.integer (ofNat (leNat (leBytes 8 i.toUInt64.toNat))).toInt64) :=
    ((reads_take (length_leBytes 8 i.toUInt64.toNat)).map
      fun bs => (ofNat (leNat bs)).toInt64).map Value.integer
  rwa [ofNat_leNat_u64] at hread

theorem reads_float (bits : UInt64) :
    Reads (decodeTagged item TAG_FLOAT) (leBytes 8 bits.toNat) True (.float bits) := by
  have hread : Reads (decodeTagged item TAG_FLOAT) (leBytes 8 bits.toNat) True
      (.float (ofNat (leNat (leBytes 8 bits.toNat)))) :=
    ((reads_take (length_leBytes 8 bits.toNat)).map
      fun bs => ofNat (leNat bs)).map Value.float
  rwa [ofNat_leNat_u64] at hread

theorem reads_bool (b : Bool) :
    Reads (decodeTagged item TAG_BOOL) [if b then 1 else 0] True (.bool b) := by
  have hread := (reads_u8 (if b then 1 else 0)).map fun x => Value.bool (x ≠ 0)
  cases b <;> exact hread

end Reads

/-- **Reading back.**  A value whose lengths fit into 32 bits is decoded as it was
encoded if it is within the limits, and not decoded otherwise. -/
theorem reads_encode {left : Nat} {v : Value} (hs : Short v) (ho : Ordered v) :
    Reads (decodeRecursive left) (encode v) (Within left v) v := by
  induction left generalizing v with
  | zero => exact reads_fail
  | succ left ih =>
    -- The tag is read in any case; what follows depends on it.
    have htag : ∀ {tag : UInt8} {body : List UInt8} {ok : Prop} {v : Value},
        Reads (decodeTagged (decodeRecursive left) tag) body ok v →
        Reads (decodeRecursive (left + 1)) (tag :: body) ok v := fun {tag} {_} {_} {_} h =>
      Reads.congr ((reads_u8 tag).bind fun _ => h) rfl (Iff.of_eq (true_and _))
    cases v with
    | null => exact htag reads_pure
    | bool b => exact htag (reads_bool b)
    | integer i => exact htag (reads_integer i)
    | float bits => exact htag (reads_float bits)
    | string s => exact htag ((reads_text _ _ hs).map Value.string)
    | bytes b => exact htag ((reads_blob _ _ hs).map Value.bytes)
    | array items =>
      obtain ⟨hlen, hitems⟩ := every_array.mp hs
      obtain ⟨-, hordered⟩ := every_array.mp ho
      exact htag (reads_array hlen fun v hv => ih (hitems v hv) (hordered v hv))
    | object fields =>
      obtain ⟨⟨hlen, hkeys⟩, hfields⟩ := every_object.mp hs
      obtain ⟨hsorted, hordered⟩ := every_object.mp ho
      exact htag (reads_object hlen hkeys hsorted fun f hf => ih (hfields f hf) (hordered f hf))
    | ref collection id => exact htag (reads_ref hs id)
    | tombstone hlc vectorClock => exact htag (reads_tombstone hlc hs)
    | crdt kind payload => exact htag (reads_crdt kind hs)

/-! ### Different values have different encodings -/

variable {r r' : List UInt8}

theorem leBytes_append_inj {w n n' : Nat} (hn : n < 256 ^ w) (hn' : n' < 256 ^ w)
    (h : leBytes w n ++ r = leBytes w n' ++ r') : n = n' ∧ r = r' := by
  obtain ⟨hbytes, hrest⟩ := append_inj h (by simp)
  have hnat := congrArg leNat hbytes
  rw [leNat_leBytes, leNat_leBytes, Nat.mod_eq_of_lt hn, Nat.mod_eq_of_lt hn'] at hnat
  exact ⟨hnat, hrest⟩

theorem encodeBlob_append_inj {a b r r' : List UInt8} (ha : a.length < 2 ^ 32)
    (hb : b.length < 2 ^ 32) (h : encodeBlob a ++ r = encodeBlob b ++ r') : a = b ∧ r = r' := by
  rw [encodeBlob, encodeBlob, append_assoc] at h
  obtain ⟨hlen, hrest⟩ := leBytes_append_inj ha hb h
  exact append_inj hrest hlen

theorem toNat_lt (x : UInt64) : x.toNat < 256 ^ 8 := x.toNat_lt

theorem utf8_injective {s s' : String} (h : utf8 s = utf8 s') : s = s' := by
  have hs := fromUtf8?_utf8 s
  rw [h, fromUtf8?_utf8 s'] at hs
  exact (Option.some.inj hs).symm

theorem flatMap_append_inj {α : Type} {enc : α → List UInt8} {xs ys : List α}
    (hlen : xs.length = ys.length)
    (henc : ∀ x ∈ xs, ∀ y ∈ ys, ∀ r r', enc x ++ r = enc y ++ r' → x = y ∧ r = r')
    (h : xs.flatMap enc ++ r = ys.flatMap enc ++ r') : xs = ys ∧ r = r' := by
  induction xs generalizing ys with
  | nil =>
    obtain rfl : ys = [] := length_eq_zero_iff.mp hlen.symm
    exact ⟨rfl, h⟩
  | cons x xs ih =>
    cases ys with
    | nil => cases hlen
    | cons y ys =>
      rw [flatMap_cons, flatMap_cons, append_assoc, append_assoc] at h
      obtain ⟨rfl, hrest⟩ := henc x mem_cons_self y mem_cons_self _ _ h
      obtain ⟨rfl, hr⟩ := ih (Nat.succ.inj hlen)
        (fun x' hx y' hy => henc x' (mem_cons_of_mem _ hx) y' (mem_cons_of_mem _ hy)) hrest
      exact ⟨rfl, hr⟩

def tagOf : Value → UInt8
  | .null => TAG_NULL
  | .bool _ => TAG_BOOL
  | .integer _ => TAG_INTEGER
  | .float _ => TAG_FLOAT
  | .string _ => TAG_STRING
  | .bytes _ => TAG_BYTES
  | .array _ => TAG_ARRAY
  | .object _ => TAG_OBJECT
  | .ref _ _ => TAG_REF
  | .tombstone _ _ => TAG_TOMBSTONE
  | .crdt _ _ => TAG_CRDT

variable {v v' : Value}

theorem tagOf_eq (h : encode v ++ r = encode v' ++ r') :
    tagOf v = tagOf v' ∧ (encode v).tail ++ r = (encode v').tail ++ r' := by
  have henc : ∀ v : Value, encode v = tagOf v :: (encode v).tail := by
    intro v
    cases v <;> simp [encode, tagOf]
  rw [henc v, henc v', cons_append, cons_append, cons.injEq] at h
  exact h

theorem size_item {v : Value} {items : List Value} (h : v ∈ items)
    (hn : sizeOf (Value.array items) < n + 1) : sizeOf v < n := by
  have hlt := sizeOf_lt_of_mem h
  simp only [Value.array.sizeOf_spec] at hn
  omega

theorem size_field {f : String × Value} (h : f ∈ fields)
    (hn : sizeOf (Value.object fields) < n + 1) : sizeOf f.2 < n := by
  have hlt := sizeOf_lt_of_mem h
  obtain ⟨key, v⟩ := f
  simp only [Value.object.sizeOf_spec, Prod.mk.sizeOf_spec] at hn hlt ⊢
  omega

theorem encode_append_inj_of_size (hn : sizeOf v < n) (hs : Short v) (hs' : Short v')
    (h : encode v ++ r = encode v' ++ r') : v = v' ∧ r = r' := by
  induction n generalizing v v' r r' with
  | zero => exact absurd hn (Nat.not_lt_zero _)
  | succ n ih =>
    obtain ⟨htag, htail⟩ := tagOf_eq h
    clear h
    rename' htail => h
    cases v <;> cases v' <;> first
      | (simp [tagOf, TAG_NULL, TAG_BOOL, TAG_INTEGER, TAG_FLOAT, TAG_STRING, TAG_BYTES, TAG_ARRAY,
          TAG_OBJECT, TAG_REF, TAG_TOMBSTONE, TAG_CRDT] at htag; done)
      | skip
    case null.null => exact ⟨rfl, h⟩
    case bool.bool b b' =>
      simp only [encode, tail_cons, cons_append, cons.injEq] at h
      obtain ⟨hb, hr⟩ := h
      have hbb : b = b' := by
        cases b <;> cases b' <;> first | rfl | exact absurd hb (by decide)
      exact ⟨by rw [hbb], hr⟩
    case integer.integer i i' =>
      obtain ⟨hi, hr⟩ := leBytes_append_inj (toNat_lt i.toUInt64) (toNat_lt i'.toUInt64) h
      have hii : i = i' := congrArg UInt64.toInt64 (UInt64.toNat_inj.mp hi)
      exact ⟨by rw [hii], hr⟩
    case float.float bits bits' =>
      obtain ⟨hb, hr⟩ := leBytes_append_inj (toNat_lt bits) (toNat_lt bits') h
      exact ⟨by rw [UInt64.toNat_inj.mp hb], hr⟩
    case string.string s s' =>
      obtain ⟨hb, hr⟩ := encodeBlob_append_inj hs hs' h
      exact ⟨by rw [utf8_injective hb], hr⟩
    case bytes.bytes b b' =>
      obtain ⟨rfl, hr⟩ := encodeBlob_append_inj hs hs' h
      exact ⟨rfl, hr⟩
    case array.array items items' =>
      obtain ⟨hlen, hitems⟩ := every_array.mp hs
      obtain ⟨hlen', hitems'⟩ := every_array.mp hs'
      simp only [encode, tail_cons, append_assoc, encodeItems_eq] at h
      obtain ⟨hcount, h⟩ := leBytes_append_inj hlen hlen' h
      obtain ⟨rfl, hr⟩ := flatMap_append_inj hcount
        (fun x hx y hy r r' hxy => ih (size_item hx hn) (hitems x hx) (hitems' y hy) hxy) h
      exact ⟨rfl, hr⟩
    case object.object fields fields' =>
      obtain ⟨⟨hlen, hkeys⟩, hfields⟩ := every_object.mp hs
      obtain ⟨⟨hlen', hkeys'⟩, hfields'⟩ := every_object.mp hs'
      simp only [encode, tail_cons, append_assoc, encodeFields_eq] at h
      obtain ⟨hcount, h⟩ := leBytes_append_inj hlen hlen' h
      obtain ⟨rfl, hr⟩ := flatMap_append_inj hcount (fun x hx y hy r r' hxy => by
        rw [encodeField, encodeField, append_assoc, append_assoc] at hxy
        obtain ⟨hk, hxy⟩ := encodeBlob_append_inj (hkeys x hx) (hkeys' y hy) hxy
        obtain ⟨hv, hr⟩ := ih (size_field hx hn) (hfields x hx) (hfields' y hy) hxy
        exact ⟨Prod.ext (utf8_injective hk) hv, hr⟩) h
      exact ⟨rfl, hr⟩
    case ref.ref collection id collection' id' =>
      simp only [encode, tail_cons, append_assoc] at h
      obtain ⟨hb, h⟩ := encodeBlob_append_inj hs hs' h
      obtain ⟨hid, hr⟩ := append_inj h (id.size.trans id'.size.symm)
      exact ⟨by rw [utf8_injective hb, Uuid.ext hid], hr⟩
    case tombstone.tombstone hlc vc hlc' vc' =>
      obtain ⟨hh, h⟩ := leBytes_append_inj (toNat_lt hlc) (toNat_lt hlc') h
      obtain ⟨rfl, hr⟩ := encodeBlob_append_inj hs hs' h
      exact ⟨by rw [UInt64.toNat_inj.mp hh], hr⟩
    case crdt.crdt kind payload kind' payload' =>
      simp only [encode, tail_cons, cons_append, cons.injEq] at h
      obtain ⟨hk, h⟩ := h
      obtain ⟨rfl, hr⟩ := encodeBlob_append_inj hs hs' h
      have hkind := congrArg CrdtKind.fromTag hk
      rw [CrdtKind.fromTag_toTag, CrdtKind.fromTag_toTag, Option.some.injEq] at hkind
      exact ⟨by rw [hkind], hr⟩

/-- **No two values** whose lengths and counts fit into 32 bits have the same encoding,
and an encoding tells where it ends. -/
theorem encode_append_inj (hs : Short v) (hs' : Short v') (h : encode v ++ r = encode v' ++ r') :
    v = v' ∧ r = r' :=
  encode_append_inj_of_size (Nat.lt_succ_self _) hs hs' h

end Codec

/-! ### Documents -/

structure Document where
  key : Uuid
  value : Value

namespace Document

def encode (d : Document) : List UInt8 := d.key.bytes ++ Codec.encode d.value

def decode (data : List UInt8) : Except GrumpyError Document :=
  match Uuid.ofBytes? (data.take 16) with
  | none => .error (.codec "document too short for UUID")
  | some key => do
    let (value, _) ← Codec.decodeFromCursor (data.drop 16)
    pure ⟨key, value⟩

theorem decode_encode {d : Document} (hs : Codec.Short d.value) (ho : Codec.Ordered d.value) :
    (Codec.Within (Codec.MAX_NESTING_DEPTH + 1) d.value → decode d.encode = .ok d) ∧
      (¬ Codec.Within (Codec.MAX_NESTING_DEPTH + 1) d.value → ∃ e, decode d.encode = .error e) := by
  have htake : (d.key.bytes ++ Codec.encode d.value).take 16 = d.key.bytes :=
    take_left' d.key.size
  have hdrop : (d.key.bytes ++ Codec.encode d.value).drop 16 = Codec.encode d.value :=
    drop_left' d.key.size
  obtain ⟨hyes, hno⟩ := @Codec.reads_encode (Codec.MAX_NESTING_DEPTH + 1) _ hs ho []
  rw [append_nil] at hyes hno
  rw [decode, encode, htake, hdrop, ofBytes?_bytes]
  refine ⟨fun h => ?_, fun h => ?_⟩
  · simp only [Codec.decodeFromCursor, hyes h]
    rfl
  · obtain ⟨e, he⟩ := hno h
    refine ⟨e, ?_⟩
    simp only [Codec.decodeFromCursor, he]
    rfl

theorem eq_of_decode_encode {d d' : Document} (hs : Codec.Short d.value)
    (ho : Codec.Ordered d.value) (h : decode d.encode = .ok d') : d' = d := by
  obtain ⟨hyes, hno⟩ := decode_encode hs ho
  by_cases hw : Codec.Within (Codec.MAX_NESTING_DEPTH + 1) d.value
  · rw [hyes hw] at h
    exact (Except.ok.inj h).symm
  · obtain ⟨e, he⟩ := hno hw
    rw [he] at h
    cases h

theorem encode_inj {d d' : Document} (hs : Codec.Short d.value) (hs' : Codec.Short d'.value)
    (h : d.encode = d'.encode) : d = d' := by
  obtain ⟨key, value⟩ := d
  obtain ⟨key', value'⟩ := d'
  obtain ⟨hkey, hvalue⟩ := append_inj h (key.size.trans key'.size.symm)
  have hnil : Codec.encode value ++ [] = Codec.encode value' ++ [] := congrArg (· ++ []) hvalue
  obtain ⟨rfl, -⟩ := Codec.encode_append_inj hs hs' hnil
  obtain rfl : key = key' := Uuid.ext hkey
  rfl

end Document

end GrumpyDB
