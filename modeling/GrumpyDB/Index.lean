/-
Secondary indexes.

An index is a B+tree of composite keys: the sortable form of a field, then the 16 bytes of the
document's key. `Indexes t keys` says that the tree holds exactly the keys in `keys`.
-/
import GrumpyDB.Codec
import GrumpyDB.TreeMap

namespace GrumpyDB

open Proc List

/-! ### Sortable values -/

namespace Index

def TAG_NULL : UInt8 := 0x00
def TAG_BOOL : UInt8 := 0x01
def TAG_INTEGER : UInt8 := 0x02
def TAG_FLOAT : UInt8 := 0x03
def TAG_STRING : UInt8 := 0x04
def TAG_BYTES : UInt8 := 0x05
def TAG_REF : UInt8 := 0x06

/-- Maximum length of strings and bytes in an index key; longer ones are cut off. -/
def MAX_INDEXED_LEN : Nat := 128

def SIGN_BIT : UInt64 := 0x8000000000000000

/-- Encode a value so that the order of the bytes is the order of the values. -/
def encodeSortableValue : Value → Except GrumpyError (List UInt8)
  | .null => .ok [TAG_NULL]
  | .bool b => .ok [TAG_BOOL, if b then 1 else 0]
  | .integer i => .ok (TAG_INTEGER :: beBytes 8 (i.toUInt64 ^^^ SIGN_BIT).toNat)
  | .float bits =>
    let sortable := if bits &&& SIGN_BIT ≠ 0 then ~~~bits else bits ^^^ SIGN_BIT
    .ok (TAG_FLOAT :: beBytes 8 sortable.toNat)
  | .string s => .ok (TAG_STRING :: (utf8 s).take MAX_INDEXED_LEN)
  | .bytes b => .ok (TAG_BYTES :: b.take MAX_INDEXED_LEN)
  | .ref collection uuid => .ok (TAG_REF :: ((utf8 collection).take MAX_INDEXED_LEN ++ uuid.bytes))
  | .array _ => .error .notIndexable
  | .object _ => .error .notIndexable
  | .tombstone _ _ => .error .notIndexable
  | .crdt _ _ => .error .notIndexable

def encodeCompositeKey (value : Value) (uuid : Uuid) : Except GrumpyError (List UInt8) := do
  let key ← encodeSortableValue value
  pure (key ++ uuid.bytes)

def fieldOf (current : Value) (part : List Char) : Option Value :=
  match current with
  | .object obj => (obj.find? fun f => f.1 = String.ofList part).map Prod.snd
  | _ => none

def extractField (value : Value) (fieldPath : String) : Option Value :=
  (fieldPath.toList.splitOn '.').foldlM fieldOf value

theorem extractField_eq_none {v : Value} (h : ∀ obj, v ≠ .object obj) (fieldPath : String) :
    extractField v fieldPath = none := by
  rw [extractField]
  rcases hparts : fieldPath.toList.splitOn '.' with _ | ⟨part, parts⟩
  · exact absurd hparts (splitOn_ne_nil _ _)
  · have hfield : fieldOf v part = none := by
      cases v with
      | object obj => exact absurd rfl (h obj)
      | _ => rfl
    simp [hfield]

/-! ### Composite keys -/

def compositeKeys (fieldPath : String) (uuid : Uuid) (doc : Value) : Set (List UInt8) :=
  {key | ∃ f, extractField doc fieldPath = some f ∧ encodeCompositeKey f uuid = .ok key}

variable {f : Value}

theorem encodeCompositeKey_ok {uuid : Uuid} {key : List UInt8}
    (h : encodeCompositeKey f uuid = .ok key) :
    ∃ value, encodeSortableValue f = .ok value ∧ key = value ++ uuid.bytes := by
  rw [encodeCompositeKey] at h
  rcases hv : encodeSortableValue f with e | value
  · rw [hv] at h
    cases h
  · rw [hv] at h
    exact ⟨value, rfl, (Except.ok.inj h).symm⟩

theorem encodeCompositeKey_error {uuid : Uuid} {e : GrumpyError}
    (h : encodeCompositeKey f uuid = .error e) : e = .notIndexable := by
  cases f <;> cases h <;> rfl

theorem compositeKeys_disjoint {fieldPath : String} {k k' : Uuid} (hk : k ≠ k') (v v' : Value) :
    ∀ key ∈ compositeKeys fieldPath k v, key ∉ compositeKeys fieldPath k' v' := by
  rintro key ⟨f, -, hf⟩ ⟨f', -, hf'⟩
  obtain ⟨value, -, rfl⟩ := encodeCompositeKey_ok hf
  obtain ⟨value', -, heq⟩ := encodeCompositeKey_ok hf'
  -- The last 16 bytes are those of the document's key.
  have hlen : k.bytes.length = k'.bytes.length := k.size.trans k'.size.symm
  exact hk (Uuid.ext (append_inj' heq hlen).2)

theorem length_encodeSortableValue (hf : ∀ collection uuid, f ≠ .ref collection uuid)
    {value : List UInt8} (h : encodeSortableValue f = .ok value) : value.length ≤ 129 := by
  cases f with
  | ref collection uuid => exact absurd rfl (hf collection uuid)
  | _ =>
    cases h
    try simp [MAX_INDEXED_LEN]

/-! ### The order of values -/

/-- Flipping the sign bit moves the numbers up by 2^63. -/
theorem toNat_xor_signBit (i : Int64) :
    ((i.toUInt64 ^^^ SIGN_BIT).toNat : Int) = i.toInt + 2 ^ 63 := by
  have hint : i.toInt = _ := BitVec.toInt_eq_toNat_cond i.toBitVec
  have hlt := i.toUInt64.toNat_lt
  have hxor : (i.toUInt64 ^^^ SIGN_BIT).toNat = i.toUInt64.toNat ^^^ 2 ^ 63 := UInt64.toNat_xor ..
  rw [hxor, hint, show i.toBitVec.toNat = i.toUInt64.toNat from rfl]
  generalize i.toUInt64.toNat = n at hlt
  -- the other bits stay
  have hdiv := Nat.xor_div_two_pow (a := n) (b := 2 ^ 63) (n := 63)
  have hmod := Nat.xor_mod_two_pow (a := n) (b := 2 ^ 63) (n := 63)
  generalize n ^^^ 2 ^ 63 = m at hdiv hmod
  obtain h | h : n / 2 ^ 63 = 0 ∨ n / 2 ^ 63 = 1 := by omega
  all_goals
    rw [h] at hdiv
    simp at hdiv hmod
    split <;> omega

/-- The place of a kind of values in their order, if the order is about it. -/
def rank : Value → Option Nat
  | .null => some 0
  | .bool _ => some 1
  | .integer _ => some 2
  | .string _ => some 3
  | .bytes _ => some 4
  | _ => none

/-- The order of values: by kind first, strings and byte strings by their bytes. -/
inductive Precedes : Value → Value → Prop
  | kind {a b : Value} {i j : Nat} : rank a = some i → rank b = some j → i < j → Precedes a b
  | bool : Precedes (.bool false) (.bool true)
  | integer {i j : Int64} : i.toInt < j.toInt → Precedes (.integer i) (.integer j)
  | string {s t : String} : utf8 s < utf8 t → Precedes (.string s) (.string t)
  | bytes {x y : List UInt8} : x < y → Precedes (.bytes x) (.bytes y)

/-- The value is not cut off in an index key. -/
def Whole : Value → Prop
  | .string s => (utf8 s).length ≤ MAX_INDEXED_LEN
  | .bytes b => b.length ≤ MAX_INDEXED_LEN
  | _ => True

theorem rank_tag {i : Nat} (h : rank f = some i) : ∃ tag rest,
    encodeSortableValue f = .ok (tag :: rest) ∧ tag.toNat = if i < 3 then i else i + 1 := by
  cases f <;> cases h <;> exact ⟨_, _, rfl, rfl⟩

theorem cut_le {tag : UInt8} {x y : List UInt8} (h : x < y) :
    tag :: x.take MAX_INDEXED_LEN ≤ tag :: y.take MAX_INDEXED_LEN ∧
      (x.length ≤ MAX_INDEXED_LEN → y.length ≤ MAX_INDEXED_LEN →
        tag :: x.take MAX_INDEXED_LEN < tag :: y.take MAX_INDEXED_LEN) := by
  refine ⟨?_, fun hx hy => ?_⟩
  · rcases (take_le_take h MAX_INDEXED_LEN).lt_or_eq with hlt | heq
    · exact (cons_lt_cons_iff.mpr (.inr ⟨rfl, hlt⟩)).le
    · rw [heq]
  · rw [take_of_length_le hx, take_of_length_le hy]
    exact cons_lt_cons_iff.mpr (.inr ⟨rfl, h⟩)

/-- **Index keys sort as the values do**, strictly if neither value is cut off. -/
theorem sortable_encoding_ordered {a b : Value} (h : Precedes a b) :
    ∃ x y, encodeSortableValue a = .ok x ∧ encodeSortableValue b = .ok y ∧ x ≤ y ∧
      (Whole a → Whole b → x < y) := by
  cases h with
  | kind hi hj hij =>
    -- The tags ascend with the kinds, and that of floats lies between.
    obtain ⟨s, x, hx, hs⟩ := rank_tag hi
    obtain ⟨t, y, hy, ht⟩ := rank_tag hj
    have hlt : s :: x < t :: y := by
      refine cons_lt_cons_iff.mpr (.inl (UInt8.lt_iff_toNat_lt.mpr ?_))
      rw [hs, ht]
      split <;> split <;> omega
    exact ⟨_, _, hx, hy, hlt.le, fun _ _ => hlt⟩
  | bool => exact ⟨_, _, rfl, rfl, by decide, fun _ _ => by decide⟩
  | @integer i j hij =>
    have hlt : beBytes 8 (i.toUInt64 ^^^ SIGN_BIT).toNat <
        beBytes 8 (j.toUInt64 ^^^ SIGN_BIT).toNat := by
      have hi := toNat_xor_signBit i
      have hj := toNat_xor_signBit j
      have hbound := (j.toUInt64 ^^^ SIGN_BIT).toNat_lt
      exact beBytes_lt (by omega)
    have hcons := cons_lt_cons_iff.mpr (.inr ⟨rfl (a := TAG_INTEGER), hlt⟩)
    exact ⟨_, _, rfl, rfl, hcons.le, fun _ _ => hcons⟩
  | string hst => exact ⟨_, _, rfl, rfl, cut_le hst⟩
  | bytes hxy => exact ⟨_, _, rfl, rfl, cut_le hxy⟩

theorem sortable_encoding_ordered_bytes : Precedes (.bytes [1]) (.bytes [2]) ∧
    ∃ x y, encodeSortableValue (.bytes [1]) = .ok x ∧ encodeSortableValue (.bytes [2]) = .ok y ∧
      x ≤ y ∧ (Whole (.bytes [1]) → Whole (.bytes [2]) → x < y) :=
  have h : Precedes (.bytes [1]) (.bytes [2]) := .bytes (by decide)
  ⟨h, sortable_encoding_ordered h⟩

end Index

/-! ### The tree of an index -/

def INDEX_MAX_KEY_SIZE : UInt16 := 160

open Index BTreeKey in
/-- **Index keys fit** into their slots, but for a reference to a collection whose name has
128 bytes or more: its key carries two ids behind the name. -/
theorem index_key_fits_iff (f : Value) (uuid : Uuid) :
    (∀ key, encodeCompositeKey f uuid = .ok key → key.length ≤ INDEX_MAX_KEY_SIZE.toNat ∧
      ∃ slot, writeKey INDEX_MAX_KEY_SIZE key = .ok slot ∧
        slot.length = slotKeySize (K := List UInt8) INDEX_MAX_KEY_SIZE) ↔
      ∀ collection id, f = .ref collection id → (utf8 collection).length < MAX_INDEXED_LEN := by
  have hmax : INDEX_MAX_KEY_SIZE.toNat = 160 := rfl
  constructor
  · rintro h collection id rfl
    obtain ⟨hlen, -⟩ := h _ rfl
    simp [hmax, id.size, uuid.size, MAX_INDEXED_LEN] at hlen ⊢
    omega
  · intro h key hkey
    obtain ⟨value, hvalue, rfl⟩ := encodeCompositeKey_ok hkey
    have hlen : (value ++ uuid.bytes).length ≤ 160 := by
      rw [length_append, uuid.size]
      cases f with
      | ref collection id =>
        have hname := h collection id rfl
        cases hvalue
        simp [MAX_INDEXED_LEN, id.size] at hname ⊢
        omega
      | _ =>
        have hle := length_encodeSortableValue (by simp) hvalue
        exact Nat.add_le_add_right (hle.trans (by simp)) 16
    obtain ⟨slot, hslot, hsize, -⟩ := writeKey_fits (K := List UInt8) INDEX_MAX_KEY_SIZE _ hlen
    exact ⟨hlen, slot, hslot, hsize⟩

open Index BTreeKey in
theorem ref_key_too_long : ∃ collection uuid key,
    encodeCompositeKey (.ref collection uuid) uuid = .ok key ∧
      writeKey (K := List UInt8) INDEX_MAX_KEY_SIZE key = .error .index :=
  ⟨String.ofList (replicate 128 'a'), .nil, _, rfl, by decide +kernel⟩

/-- Drop an error that a call returned; a panic is no error. -/
def ignoring {σ : Type} (x : Proc Halt σ Unit) : Proc Halt σ Unit :=
  orElse x fun h =>
    match h with
    | .err _ => pure ()
    | h => fail h

def liftErr {σ α : Type} (r : Except GrumpyError α) : Proc Halt σ α := lift (r.mapError .err)

namespace SecondaryIndex

open Index

variable [Crc32]

def indexDocument (fieldPath : String) (uuid : Uuid) (doc : Value) :
    Proc Halt (BTree (List UInt8)) Unit :=
  match extractField doc fieldPath with
  | some fieldVal => do
    let key ← liftErr (encodeCompositeKey fieldVal uuid)
    BTree.insert key 0 0
  | none => pure ()

def unindexDocument (fieldPath : String) (uuid : Uuid) (doc : Value) :
    Proc Halt (BTree (List UInt8)) Unit :=
  match extractField doc fieldPath with
  | some fieldVal => do
    let key ← liftErr (encodeCompositeKey fieldVal uuid)
    ignoring (BTree.delete key)
  | none => pure ()

def Holds (t : BTree (List UInt8)) (keys : Set (List UInt8)) : Prop :=
  ∃ m es, t.InvAt m es ∧ t.info.config = INDEX_MAX_KEY_SIZE ∧
    ∀ key, (lookup es key).isSome ↔ key ∈ keys

def NoRef (fieldPath : String) (doc : Value) : Prop :=
  ∀ collection uuid, extractField doc fieldPath ≠ some (.ref collection uuid)

variable {t : BTree (List UInt8)} {keys : Set (List UInt8)} {key : List UInt8}
  {fieldPath : String} {uuid : Uuid} {doc : Value}

theorem Holds.insert (h : Holds t keys) (hkey : key.length ≤ 160) :
    Post (BTree.insert key 0 0) (fun _ t' => Holds t' (Insert.insert key keys))
      (fun e t' => ((∃ g, e = .err g) ∧ t' = t ∧ key ∈ keys) ∨ e = .overflow) t := by
  obtain ⟨m, es, hi, hcfg, hkeys⟩ := h
  have hfit : BTreeKey.Fits t.info.config key := by
    rw [hcfg]
    exact hkey
  refine Post.mono (hi.insert hfit 0 0) ?_ ?_
  · rintro - t' ⟨a, b, rfl, ha, hb, hi', hcfg'⟩
    refine ⟨m, _, hi', hcfg'.trans hcfg, fun k => ?_⟩
    by_cases hk : k = key
    · rw [hk, lookup_found ha]
      simp
    · rw [lookup_of_ne hk, hkeys, Set.mem_insert_iff, or_iff_right hk]
  · rintro e t' (⟨rfl, rfl, hsome⟩ | ⟨rfl, -⟩)
    · exact .inl ⟨⟨_, rfl⟩, rfl, (hkeys key).mp hsome⟩
    · exact .inr rfl

theorem Holds.delete (h : Holds t keys) :
    Post (BTree.delete key) (fun _ t' => Holds t' (keys \ {key}))
      (fun e t' => (∃ g, e = .err g) ∧ t' = t ∧ key ∉ keys) t := by
  obtain ⟨m, es, hi, hcfg, hkeys⟩ := h
  refine Post.mono (hi.delete key) ?_ ?_
  · rintro - t' ⟨a, e, b, rfl, rfl, hi', hcfg'⟩
    obtain ⟨-, hs', hlt⟩ := pairwise_append.mp hi.sorted
    have ha : ∀ x ∈ a, x.key < e.key := fun x hx => hlt x hx e (by simp)
    have hb : ∀ x ∈ b, e.key < x.key := (pairwise_cons.mp hs').1
    refine ⟨m, _, hi', hcfg'.trans hcfg, fun k => ?_⟩
    by_cases hk : k = e.key
    · rw [hk, lookup_missing ha hb]
      simp
    · rw [← lookup_of_ne hk, hkeys, Set.mem_sdiff, Set.mem_singleton_iff, and_iff_left hk]
  · rintro e t' ⟨rfl, rfl, hnone⟩
    refine ⟨⟨_, rfl⟩, rfl, fun hmem => ?_⟩
    rw [← hkeys, hnone] at hmem
    cases hmem

omit [Crc32] in
theorem length_compositeKey (hf : NoRef fieldPath doc)
    (h : key ∈ compositeKeys fieldPath uuid doc) :
    key.length ≤ 160 := by
  obtain ⟨f, hfield, hkey⟩ := h
  obtain ⟨value, hvalue, rfl⟩ := encodeCompositeKey_ok hkey
  have hlen := length_encodeSortableValue (fun c u hc => hf c u (hc ▸ hfield)) hvalue
  rw [length_append, uuid.size]
  omega

omit [Crc32] in
theorem compositeKeys_eq {f : Value} (hfield : extractField doc fieldPath = some f)
    (hkey : encodeCompositeKey f uuid = .ok key) : compositeKeys fieldPath uuid doc = {key} := by
  ext k
  constructor
  · rintro ⟨f', hfield', hkey'⟩
    obtain rfl : f = f' := Option.some.inj (hfield.symm.trans hfield')
    exact Except.ok.inj (hkey'.symm.trans hkey)
  · rintro rfl
    exact ⟨f, hfield, hkey⟩

omit [Crc32] in
theorem compositeKeys_eq_empty (h : ∀ f, extractField doc fieldPath = some f →
    ∃ e, encodeCompositeKey f uuid = .error e) : compositeKeys fieldPath uuid doc = ∅ := by
  rw [Set.eq_empty_iff_forall_notMem]
  rintro key ⟨f, hfield, hkey⟩
  obtain ⟨e, he⟩ := h f hfield
  rw [he] at hkey
  cases hkey

omit [Crc32] in
theorem post_ignoring {σ : Type} {x : Proc Halt σ Unit} {Q : Unit → σ → Prop} {E : Halt → σ → Prop}
    {s : σ} (h : Post x Q (fun e s' => (∃ g, e = .err g) ∧ Q () s' ∨
      (∀ g, e ≠ .err g) ∧ E e s') s) :
    Post (ignoring x) Q E s := by
  rw [ignoring, post_orElse]
  refine h.mono (fun _ _ => id) ?_
  rintro e s' (⟨⟨g, rfl⟩, hQ⟩ | ⟨hne, hE⟩)
  · exact hQ
  · cases e with
    | err g => exact absurd rfl (hne g)
    | _ => exact hE

variable {E : Halt → BTree (List UInt8) → Prop}

omit [Crc32] in
theorem post_withKey {x : List UInt8 → Proc Halt (BTree (List UInt8)) Unit}
    {Q : Unit → BTree (List UInt8) → Prop}
    (hkey : ∀ key, compositeKeys fieldPath uuid doc = {key} → Post (x key) Q E t)
    (hnone : compositeKeys fieldPath uuid doc = ∅ → Q () t ∧ E (.err .notIndexable) t) :
    Post (match extractField doc fieldPath with
      | some fieldVal => do
        let key ← liftErr (encodeCompositeKey fieldVal uuid)
        x key
      | none => pure ()) Q E t := by
  rcases hfield : extractField doc fieldPath with _ | f
  · exact (hnone (compositeKeys_eq_empty fun f hf => by rw [hfield] at hf; cases hf)).1
  · rcases henc : encodeCompositeKey f uuid with e | key
    · have hempty : compositeKeys fieldPath uuid doc = ∅ := by
        refine compositeKeys_eq_empty fun f' hf' => ⟨e, ?_⟩
        obtain rfl : f = f' := Option.some.inj (hfield.symm.trans hf')
        exact henc
      obtain rfl := encodeCompositeKey_error henc
      simp only [henc]
      exact (hnone hempty).2
    · simp only [henc]
      exact hkey key (compositeKeys_eq hfield henc)

def KeyFits (fieldPath : String) (uuid : Uuid) (doc : Value) : Prop :=
  ∀ key ∈ compositeKeys fieldPath uuid doc, key.length ≤ 160

omit [Crc32] in
theorem NoRef.keyFits (hf : NoRef fieldPath doc) (uuid : Uuid) : KeyFits fieldPath uuid doc :=
  fun _ => length_compositeKey hf

/-- The field of the document at the path, if it has one, has a sortable encoding. -/
def Indexable (fieldPath : String) (doc : Value) : Prop :=
  ∀ f, extractField doc fieldPath = some f → ∃ value, encodeSortableValue f = .ok value

/-- **Indexing** a document adds its composite key. -/
theorem index_spec (h : Holds t keys) (uuid : Uuid) (hf : KeyFits fieldPath uuid doc) :
    Post (indexDocument fieldPath uuid doc)
      (fun _ t' => Holds t' (keys ∪ compositeKeys fieldPath uuid doc))
      (fun e t' => ((∃ g, e = .err g) ∧ t' = t ∧ compositeKeys fieldPath uuid doc ⊆ keys) ∨
        e = .overflow) t := by
  refine post_withKey (fun key hkey => ?_) fun hempty => ⟨?_, .inl ⟨⟨_, rfl⟩, rfl, ?_⟩⟩
  · have hmem : key ∈ compositeKeys fieldPath uuid doc := by
      rw [hkey]
      rfl
    rw [hkey, Set.union_singleton]
    refine (h.insert (hf key hmem)).mono (fun _ _ => id) ?_
    rintro e t' (⟨hg, ht, hmem⟩ | hover)
    · exact .inl ⟨hg, ht, Set.singleton_subset_iff.mpr hmem⟩
    · exact .inr hover
  · rwa [hempty, Set.union_empty]
  · rw [hempty]
    exact Set.empty_subset _

theorem index_ignoring_spec (h : Holds t keys) (uuid : Uuid) (hf : KeyFits fieldPath uuid doc) :
    Post (ignoring (indexDocument fieldPath uuid doc))
      (fun _ t' => Holds t' (keys ∪ compositeKeys fieldPath uuid doc))
      (fun e _ => e = .overflow) t := by
  refine post_ignoring ((index_spec h uuid hf).mono (fun _ _ => id) ?_)
  rintro e t' (⟨hg, rfl, hsub⟩ | rfl)
  · rw [Set.union_eq_left.mpr hsub]
    exact .inl ⟨hg, h⟩
  · exact .inr ⟨fun g hg => (by cases hg), rfl⟩

/-- **Unindexing** a document takes its composite key away. -/
theorem unindex_ignoring_spec (h : Holds t keys) (uuid : Uuid) :
    Post (ignoring (unindexDocument fieldPath uuid doc))
      (fun _ t' => Holds t' (keys \ compositeKeys fieldPath uuid doc)) E t := by
  refine post_ignoring (post_withKey (fun key hkey => ?_) fun hempty => ?_)
  · rw [hkey]
    refine post_ignoring (h.delete.mono (fun _ _ => id) ?_)
    rintro e t' ⟨hg, rfl, hmem⟩
    rw [Set.sdiff_singleton_eq_self hmem]
    exact .inl ⟨hg, h⟩
  · rw [hempty, Set.sdiff_empty]
    exact ⟨h, .inl ⟨⟨_, rfl⟩, h⟩⟩

end SecondaryIndex

end GrumpyDB
