/-
JSON on the wire.

`jsonToValue` on the way in, and two slightly different functions on the way out, one for clients
and one for peers, which disagree on byte strings and references.
-/
import GrumpyDB.UuidText
import GrumpyDB.Value
import Mathlib.Algebra.Order.BigOperators.Group.List
import Mathlib.Logic.Equiv.List
import Mathlib.Data.String.Basic

namespace GrumpyDB

open List Option

/-- A JSON number: a non-negative or a negative integer, or a float by its bits. -/
inductive JsonNumber where
  | posInt (n : UInt64)
  | negInt (i : Int64)
  | float (bits : UInt64)
  deriving DecidableEq

/-- A JSON tree.  Objects have their entries in ascending order of the keys. -/
inductive Json where
  | null
  | bool (b : Bool)
  | number (n : JsonNumber)
  | string (s : String)
  | array (items : List Json)
  | object (fields : List (String × Json))

/-! ### Numbers -/

namespace JsonNumber

def asI64 : JsonNumber → Option Int64
  | posInt n => if n.toNat < 2 ^ 63 then some (Int64.ofInt n.toNat) else none
  | negInt i => some i
  | float _ => none

def roundToF64 (n : Nat) : Nat :=
  if n = 0 then 0
  else
    let e := Nat.log2 n
    let significand :=
      if e ≤ 52 then n * 2 ^ (52 - e)
      else
        let ulp := 2 ^ (e - 52)
        let q := n / ulp
        let r := n % ulp
        if ulp < 2 * r ∨ (2 * r = ulp ∧ q % 2 = 1) then q + 1 else q
    -- a significand that rounds up to the next power of two moves the exponent on
    (e + 1023) * 2 ^ 52 + (significand - 2 ^ 52)

def asF64 : JsonNumber → UInt64
  | posInt n => UInt64.ofNat (roundToF64 n.toNat)
  | negInt i => UInt64.ofNat (2 ^ 63 + roundToF64 i.toInt.natAbs)
  | float bits => bits

def ofInt (i : Int64) : JsonNumber := if 0 ≤ i then posInt i.toUInt64 else negInt i

end JsonNumber

def isFiniteF64 (bits : UInt64) : Bool := (bits >>> 52) &&& 0x7ff ≠ 0x7ff

/-! ### Text -/

/-- What the round trip through text is relied on for: no floats, negative numbers below
zero, entries in order, and nesting below the limit of the parser. -/
def JsonNumber.Plain : JsonNumber → Prop
  | posInt _ => True
  | negInt i => i < 0
  | float _ => False

mutual

def Json.Plain : Nat → Json → Prop
  | _, .null => True
  | _, .bool _ => True
  | _, .number n => n.Plain
  | _, .string _ => True
  | depth, .array items => 0 < depth ∧ Json.PlainItems (depth - 1) items
  | depth, .object fields =>
    0 < depth ∧ fields.Pairwise (fun a b => a.1 < b.1) ∧ Json.PlainFields (depth - 1) fields

def Json.PlainItems : Nat → List Json → Prop
  | _, [] => True
  | depth, j :: items => Json.Plain depth j ∧ Json.PlainItems depth items

def Json.PlainFields : Nat → List (String × Json) → Prop
  | _, [] => True
  | depth, (_, j) :: fields => Json.Plain depth j ∧ Json.PlainFields depth fields

end

/-- JSON text and base64 as the libraries write and read them; the texts of their errors. -/
class SerdeJson where
  toText : Json → String
  fromStr : String → Except String Json
  base64Encode : List UInt8 → String
  base64Decode : String → Option (List UInt8)
  uuidError : String → String
  fromStr_toText : ∀ j, j.Plain 127 → fromStr (toText j) = .ok j
  /-- A string is read from a literal in quotes, which is part of the text. -/
  length_lt : ∀ text fields key s, fromStr text = .ok (.object fields) →
    (key, Json.string s) ∈ fields → s.length < text.length
  base64Decode_encode : ∀ bs, base64Decode (base64Encode bs) = some bs

/-! ### Values in -/

section Values

variable [SerdeJson]

open SerdeJson

def Json.get? (fields : List (String × Json)) (key : String) : Option Json :=
  (fields.find? fun e => e.1 = key).map Prod.snd

def Json.asStr : Json → Option String
  | .string s => some s
  | _ => none

/-- The CRDT value an object stands for, if it has a well-formed `$crdt` field. -/
def crdtOfFields (fields : List (String × Json)) : Option Value :=
  match Json.get? fields "$crdt" with
  | some (.object crdt) => do
    let kind ← (Json.get? crdt "kind").bind Json.asStr >>= CrdtKind.fromName
    let payload ← (Json.get? crdt "payload_b64").bind Json.asStr >>= base64Decode
    some (.crdt kind payload)
  | _ => none

mutual

def jsonToValue : Json → Value
  | .null => .null
  | .bool b => .bool b
  | .number n =>
    match n.asI64 with
    | some i => .integer i
    | none => .float n.asF64
  | .string s => .string s
  | .array items => .array (jsonToValues items)
  | .object fields => (crdtOfFields fields).getD (.object (jsonToFields fields))

def jsonToValues : List Json → List Value
  | [] => []
  | j :: items => jsonToValue j :: jsonToValues items

def jsonToFields : List (String × Json) → List (String × Value)
  | [] => []
  | (key, j) :: fields => (key, jsonToValue j) :: jsonToFields fields

end

variable {fields : List (String × Json)}

theorem isCrdt_of_crdtOfFields {v : Value} (h : crdtOfFields fields = some v) : v.isCrdt := by
  unfold crdtOfFields at h
  split at h
  · simp only [bind_eq_bind, bind_eq_some_iff] at h
    obtain ⟨kind, -, payload, -, h⟩ := h
    cases h
    rfl
  · cases h

theorem eq_string_of_jsonToValue {j : Json} {s : String} (h : jsonToValue j = .string s) :
    j = .string s := by
  cases j with
  | string t =>
    rw [jsonToValue, Value.string.injEq] at h
    rw [h]
  | number n =>
    rw [jsonToValue] at h
    split at h <;> cases h
  | object fields =>
    rw [jsonToValue] at h
    rcases hcrdt : crdtOfFields fields with _ | v
    · rw [hcrdt] at h
      cases h
    · have := isCrdt_of_crdtOfFields hcrdt
      rw [hcrdt, getD_some] at h
      rw [h] at this
      cases this
  | _ => cases h

theorem mem_of_mem_jsonToFields {key s : String} (h : (key, Value.string s) ∈ jsonToFields fields) :
    (key, Json.string s) ∈ fields := by
  induction fields with
  | nil => cases h
  | cons e fields ih =>
    obtain ⟨k, j⟩ := e
    rw [jsonToFields, mem_cons] at h
    rcases h with h | h
    · obtain ⟨rfl, hj⟩ := Prod.mk.inj h
      rw [eq_string_of_jsonToValue hj.symm]
      exact mem_cons_self
    · exact mem_cons_of_mem _ (ih h)

theorem string_not_mem_fields {text key : String} {j : Json} {fields : List (String × Value)}
    (hparse : fromStr text = .ok j) (hvalue : jsonToValue j = .object fields) :
    (key, Value.string text) ∉ fields := by
  intro hmem
  cases j with
  | object jfields =>
    rw [jsonToValue] at hvalue
    rcases hcrdt : crdtOfFields jfields with _ | v
    · rw [hcrdt, getD_none, Value.object.injEq] at hvalue
      rw [← hvalue] at hmem
      exact absurd (length_lt _ _ _ _ hparse (mem_of_mem_jsonToFields hmem)) (lt_irrefl _)
    · have := isCrdt_of_crdtOfFields hcrdt
      rw [hcrdt, getD_some] at hvalue
      rw [hvalue] at this
      cases this
  | number n =>
    rw [jsonToValue] at hvalue
    split at hvalue <;> cases hvalue
  | _ => cases hvalue

/-! ### Values out -/

mutual

/-- The JSON tree of a value; byte strings and the id of a reference are written differently
for clients and for peers. -/
def valueToJsonWith (bytesJson : List UInt8 → Json) (idKey : String) : Value → Json
  | .null => .null
  | .bool b => .bool b
  | .integer i => .number (.ofInt i)
  | .float bits => if isFiniteF64 bits then .number (.float bits) else .null
  | .string s => .string s
  | .bytes b => bytesJson b
  | .array items => .array (valuesToJsonWith bytesJson idKey items)
  | .object fields => .object (fieldsToJsonWith bytesJson idKey fields)
  | .ref collection id =>
    .object [("$ref", .object [("collection", .string collection), (idKey, .string id.toText)])]
  | .tombstone deletedAtHlc _ =>
    .object [("$tombstone", .object [("hlc", .number (.posInt deletedAtHlc))])]
  | .crdt kind payload =>
    .object [("$crdt", .object [("kind", .string kind.asStr),
      ("payload_b64", .string (base64Encode payload))])]

def valuesToJsonWith (bytesJson : List UInt8 → Json) (idKey : String) : List Value → List Json
  | [] => []
  | v :: items => valueToJsonWith bytesJson idKey v :: valuesToJsonWith bytesJson idKey items

def fieldsToJsonWith (bytesJson : List UInt8 → Json) (idKey : String) :
    List (String × Value) → List (String × Json)
  | [] => []
  | (key, v) :: fields =>
    (key, valueToJsonWith bytesJson idKey v) :: fieldsToJsonWith bytesJson idKey fields

end

def valueToJson (v : Value) : String :=
  toText (valueToJsonWith (fun b => .string ("<" ++ toString b.length ++ " bytes>")) "uuid" v)

def valueToJsonString (v : Value) : String :=
  toText (valueToJsonWith (fun b => .object [("$bytes", .string (base64Encode b))]) "id" v)

def parseJsonValue (text : String) : Except String Value :=
  match fromStr text with
  | .ok json => .ok (jsonToValue json)
  | .error e => .error ("invalid JSON: " ++ e)

def parseUuid (text : String) : Except String Uuid :=
  match Uuid.tryParse (utf8 text) with
  | some id => .ok id
  | none => .error ("invalid UUID '" ++ text ++ "': " ++ uuidError text)

theorem parseJsonValue_eq_ok {text : String} {v : Value} :
    parseJsonValue text = .ok v ↔ ∃ json, fromStr text = .ok json ∧ jsonToValue json = v := by
  unfold parseJsonValue
  rcases fromStr text with e | json <;> simp

theorem parseUuid_eq_ok {text : String} {id : Uuid} :
    parseUuid text = .ok id ↔ Uuid.tryParse (utf8 text) = some id := by
  unfold parseUuid
  rcases Uuid.tryParse (utf8 text) with _ | u <;> simp

end Values

/-! ### A serializer -/

namespace Json

def codeString (s : String) : Nat := Encodable.encode (s.toList.map Char.toNat)

theorem codeString_inj {s t : String} (h : codeString s = codeString t) : s = t := by
  have hlist := Encodable.encode_inj.mp h
  exact String.toList_injective (map_injective_iff.mpr (fun _ _ => Char.toNat_inj.mp) hlist)

mutual

def code : Json → Nat
  | .null => Nat.pair 0 0
  | .bool b => Nat.pair 1 b.toNat
  | .number (.posInt n) => Nat.pair 2 n.toNat
  | .number (.negInt i) => Nat.pair 3 i.toBitVec.toNat
  | .number (.float bits) => Nat.pair 4 bits.toNat
  | .string s => Nat.pair 5 (codeString s)
  | .array items => Nat.pair 6 (codeItems items)
  | .object fields => Nat.pair 7 (codeFields fields)

def codeItems : List Json → Nat
  | [] => 0
  | j :: items => Nat.pair (code j) (codeItems items) + 1

def codeFields : List (String × Json) → Nat
  | [] => 0
  | (key, j) :: fields => Nat.pair (codeString key) (Nat.pair (code j) (codeFields fields)) + 1

end

mutual

theorem code_inj : ∀ {a b : Json}, code a = code b → a = b
  | .null, b, h => by
    cases b with
    | number n => cases n <;> simp [code] at h
    | _ => simp [code] at h ⊢
  | .bool x, b, h => by
    cases b with
    | number n => cases n <;> simp [code] at h
    | bool y => cases x <;> cases y <;> simp [code] at h ⊢
    | _ => simp [code] at h ⊢
  | .number m, b, h => by
    cases b with
    | number n =>
      cases m <;> cases n <;> simp only [code, Nat.pair_eq_pair] at h <;>
        simp at h
      · rw [UInt64.toNat_inj.mp h]
      · rw [Int64.toBitVec_inj.mp (BitVec.eq_of_toNat_eq h)]
      · rw [UInt64.toNat_inj.mp h]
    | _ => cases m <;> simp [code] at h ⊢
  | .string s, b, h => by
    cases b with
    | number n => cases n <;> simp [code] at h
    | string t =>
      simp only [code, Nat.pair_eq_pair, true_and] at h
      rw [codeString_inj h]
    | _ => simp [code] at h
  | .array items, b, h => by
    cases b with
    | number n => cases n <;> simp [code] at h
    | array items' =>
      simp only [code, Nat.pair_eq_pair, true_and] at h
      rw [codeItems_inj h]
    | _ => simp [code] at h ⊢
  | .object fields, b, h => by
    cases b with
    | number n => cases n <;> simp [code] at h
    | object fields' =>
      simp only [code, Nat.pair_eq_pair, true_and] at h
      rw [codeFields_inj h]
    | _ => simp [code] at h ⊢

theorem codeItems_inj : ∀ {a b : List Json}, codeItems a = codeItems b → a = b
  | [], [], _ => rfl
  | [], _ :: _, h => by simp [codeItems] at h
  | _ :: _, [], h => by simp [codeItems] at h
  | j :: items, j' :: items', h => by
    simp only [codeItems, Nat.add_right_cancel_iff, Nat.pair_eq_pair] at h
    rw [code_inj h.1, codeItems_inj h.2]

theorem codeFields_inj : ∀ {a b : List (String × Json)}, codeFields a = codeFields b → a = b
  | [], [], _ => rfl
  | [], _ :: _, h => by simp [codeFields] at h
  | _ :: _, [], h => by simp [codeFields] at h
  | (key, j) :: fields, (key', j') :: fields', h => by
    simp only [codeFields, Nat.add_right_cancel_iff, Nat.pair_eq_pair] at h
    rw [codeString_inj h.1, code_inj h.2.1, codeFields_inj h.2.2]

end

def stringBound : Json → Nat
  | .object fields => (fields.map fun e => (e.2.asStr.map String.length).getD 0).sum + 1
  | _ => 0

theorem length_lt_stringBound {fields : List (String × Json)} {key s : String}
    (h : (key, Json.string s) ∈ fields) : s.length < (Json.object fields).stringBound := by
  have hmem : s.length ∈ fields.map fun e => (e.2.asStr.map String.length).getD 0 :=
    mem_map.mpr ⟨_, h, rfl⟩
  exact Nat.lt_succ_of_le (single_le_sum (by simp) _ hmem)

end Json

theorem SerdeJson.nonempty : Nonempty SerdeJson := by
  classical
  let size (j : Json) : Nat := Nat.pair j.code j.stringBound
  have hsize : ∀ {a b : Json}, size a = size b → a = b := fun h =>
    Json.code_inj (Nat.pair_eq_pair.mp h).1
  have hlength (n : Nat) : (String.ofList (replicate n 'x')).length = n := by simp
  refine ⟨{
    toText := fun j => String.ofList (replicate (size j) 'x')
    fromStr := fun text =>
      if h : ∃ j, size j = text.length then .ok h.choose else .error "expected value"
    base64Encode := fun bs => String.ofList (bs.map fun b => Char.ofNat b.toNat)
    base64Decode := fun s => some (s.toList.map fun c => UInt8.ofNat c.toNat)
    uuidError := fun _ => "invalid length"
    fromStr_toText := ?_
    length_lt := ?_
    base64Decode_encode := ?_ }⟩
  · intro j _
    have hex : ∃ j', size j' = size j := ⟨j, rfl⟩
    simp only [hlength, dif_pos hex]
    exact congrArg _ (hsize hex.choose_spec)
  · intro text fields key s htext hmem
    split at htext
    · rename_i hex
      have hj : hex.choose = .object fields := Except.ok.inj htext
      have hlen := hex.choose_spec
      rw [hj] at hlen
      rw [← hlen]
      exact lt_of_lt_of_le (Json.length_lt_stringBound hmem) (Nat.right_le_pair _ _)
    · cases htext
  · intro bs
    have hnat : ∀ n < 256, (Char.ofNat n).toNat = n := by decide +kernel
    have hchar : ∀ b : UInt8, UInt8.ofNat (Char.ofNat b.toNat).toNat = b := by
      intro b
      rw [hnat _ b.toNat_lt, UInt8.ofNat_toNat]
    simp [Function.comp_def, hchar]

end GrumpyDB
