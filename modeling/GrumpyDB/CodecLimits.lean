/-
The codec and the limits of its decoder.

What the decoder returns for any bytes is within the limits and has its keys in order, so it
survives a second round.
-/
import GrumpyDB.Codec

namespace GrumpyDB

open Cursor List SortedMap

namespace Codec

/-! ### The size of an encoding -/

mutual

def encodedSize : Value → Nat
  | .null => 1
  | .bool _ => 2
  | .integer _ => 9
  | .float _ => 9
  | .string s => 1 + 4 + (utf8 s).length
  | .bytes b => 1 + 4 + b.length
  | .array items => 1 + 4 + encodedItemsSize items
  | .object fields => 1 + 4 + encodedFieldsSize fields
  | .ref collection _ => 1 + 4 + (utf8 collection).length + 16
  | .tombstone _ vectorClock => 1 + 8 + 4 + vectorClock.length
  | .crdt _ payload => 1 + 1 + 4 + payload.length

def encodedItemsSize : List Value → Nat
  | [] => 0
  | v :: items => encodedSize v + encodedItemsSize items

def encodedFieldsSize : List (String × Value) → Nat
  | [] => 0
  | (key, v) :: fields => 4 + (utf8 key).length + encodedSize v + encodedFieldsSize fields

end

theorem length_encodeBlob (b : List UInt8) : (encodeBlob b).length = 4 + b.length := by
  rw [encodeBlob, length_append, length_leBytes]

mutual

theorem length_encode_eq (v : Value) : (encode v).length = encodedSize v := by
  cases v with
  | null => rfl
  | bool b => rfl
  | integer i => rw [encode, length_cons, length_leBytes, encodedSize]
  | float bits => rw [encode, length_cons, length_leBytes, encodedSize]
  | string s => rw [encode, length_cons, length_encodeBlob, encodedSize]; omega
  | bytes b => rw [encode, length_cons, length_encodeBlob, encodedSize]; omega
  | array items =>
    rw [encode, length_cons, length_append, length_leBytes, encodedSize,
      length_encodeItems items]
    omega
  | object fields =>
    rw [encode, length_cons, length_append, length_leBytes, encodedSize,
      length_encodeFields fields]
    omega
  | ref collection id =>
    rw [encode, length_cons, length_append, length_encodeBlob, id.size, encodedSize]
    omega
  | tombstone deletedAtHlc vectorClock =>
    rw [encode, length_cons, length_append, length_leBytes, length_encodeBlob,
      encodedSize]
    omega
  | crdt kind payload =>
    rw [encode, length_cons, length_cons, length_encodeBlob, encodedSize]
    omega

theorem length_encodeItems (items : List Value) :
    (encodeItems items).length = encodedItemsSize items := by
  cases items with
  | nil => rfl
  | cons v items =>
    rw [encodeItems, length_append, encodedItemsSize, length_encode_eq v,
      length_encodeItems items]

theorem length_encodeFields (fields : List (String × Value)) :
    (encodeFields fields).length = encodedFieldsSize fields := by
  cases fields with
  | nil => rfl
  | cons f fields =>
    obtain ⟨key, v⟩ := f
    rw [encodeFields, length_append, length_append, length_encodeBlob,
      encodedFieldsSize, length_encode_eq v, length_encodeFields fields]

end

/-! ### Limits and lengths -/

theorem Within.short {left : Nat} {v : Value} (h : Within left v) : Short v := by
  induction left generalizing v with
  | zero => exact h.elim
  | succ left ih =>
    have hlt : ∀ {n max : Nat}, n ≤ max → max < 2 ^ 32 → n < 2 ^ 32 := fun h h' => by omega
    cases v with
    | null => exact trivial
    | bool b => exact trivial
    | integer i => exact trivial
    | float bits => exact trivial
    | string s => exact hlt h (by decide)
    | bytes b => exact hlt h (by decide)
    | array items =>
      obtain ⟨hlen, hitems⟩ := h
      exact every_array.mpr ⟨hlt hlen (by decide), fun v hv => ih (hitems v hv)⟩
    | object fields =>
      obtain ⟨hlen, hfields⟩ := h
      refine every_object.mpr ⟨⟨hlt hlen (by decide), fun f hf => ?_⟩, fun f hf => ?_⟩
      · exact hlt (hfields f hf).1 (by decide)
      · exact ih (hfields f hf).2
    | ref collection id => exact hlt h (by decide)
    | tombstone deletedAtHlc vectorClock => exact hlt h (by decide)
    | crdt kind payload => exact hlt h (by decide)

/-! ### What the decoder returns -/

theorem gives_count (what : String) (max : Nat) : Gives (readCount what max) (· ≤ max) :=
  (gives_any _).bind fun _ _ => gives_require.bind fun _ h => gives_pure (of_decide_eq_true h)

theorem gives_blob (what : String) (max : Nat) :
    Gives (readBlob what max) fun b => b.length ≤ max :=
  (gives_count what max).bind fun _ hn => gives_take.mono fun _ hb => hb ▸ hn

theorem gives_text (what : String) (max : Nat) :
    Gives (readText what max) fun s => (utf8 s).length ≤ max := by
  refine (gives_count what max).bind fun n hn => gives_take.bind fun bytes hbytes => ?_
  refine gives_ofOption.mono fun s hs => ?_
  rw [utf8_of_fromUtf8? hs, hbytes]
  exact hn

/-- Collecting fields drops repeated keys and puts the others in order. -/
theorem collectFields_spec (fields : List (String × Value)) :
    (collectFields fields).length ≤ fields.length ∧
      (∀ f ∈ collectFields fields, f ∈ fields) ∧
      (collectFields fields).Pairwise fun x y => x.1 < y.1 := by
  have hfold : ∀ (l : List (String × Value)) (m : SortedMap String Value),
      (l.foldl (fun (m : SortedMap String Value) f => m.insert f.1 f.2) m).entries.length ≤
        m.entries.length + l.length ∧
      ∀ e ∈ (l.foldl (fun (m : SortedMap String Value) f => m.insert f.1 f.2) m).entries,
        e ∈ m.entries ∨ e ∈ l := by
    intro l
    induction l with
    | nil => exact fun m => ⟨le_rfl, fun e he => .inl he⟩
    | cons f l ih =>
      intro m
      obtain ⟨hlen, hmem⟩ := ih (m.insert f.1 f.2)
      have hins := length_entries_insert_le m f.1 f.2
      refine ⟨?_, fun e he => ?_⟩
      · rw [foldl_cons, length_cons]
        omega
      · rcases hmem e he with he | he
        · rcases mem_entries_insert he with rfl | he
          · exact .inr mem_cons_self
          · exact .inl he
        · exact .inr (mem_cons_of_mem _ he)
  obtain ⟨hlen, hmem⟩ := hfold fields empty
  refine ⟨?_, fun f hf => ?_, sorted _⟩
  · simpa [collectFields, empty] using hlen
  · rcases hmem f hf with hf | hf
    · cases hf
    · exact hf

/-- What a decoded value is: within the limits, and with its keys in order. -/
structure Decoded (left : Nat) (v : Value) : Prop where
  within : Within left v
  ordered : Ordered v

variable {item : Decoder Value}

theorem gives_decodeTagged {left : Nat} (hitem : Gives item (Decoded left)) (tag : UInt8) :
    Gives (decodeTagged item tag) (Decoded (left + 1)) := by
  unfold decodeTagged
  split
  · exact gives_pure ⟨trivial, trivial⟩
  · exact (gives_any _).bind fun b _ => gives_pure ⟨trivial, trivial⟩
  · exact (gives_any _).bind fun n _ => gives_pure ⟨trivial, trivial⟩
  · exact (gives_any _).bind fun f _ => gives_pure ⟨trivial, trivial⟩
  · exact (gives_text _ _).bind fun s hs => gives_pure ⟨hs, trivial⟩
  · exact (gives_blob _ _).bind fun b hb => gives_pure ⟨hb, trivial⟩
  · refine (gives_count _ _).bind fun n hn => (gives_times hitem n).bind fun items h => ?_
    obtain ⟨hlen, hitems⟩ := h
    refine gives_pure ⟨⟨hlen ▸ hn, fun v hv => (hitems v hv).within⟩, ?_⟩
    exact every_array.mpr ⟨trivial, fun v hv => (hitems v hv).ordered⟩
  · refine (gives_count _ _).bind fun n hn => ?_
    refine (gives_times (P := fun f => (utf8 f.1).length ≤ MAX_BLOB_LEN ∧ Decoded left f.2)
      ?_ n).bind fun fields h => ?_
    · exact (gives_text _ _).bind fun key hkey => hitem.bind fun v hv => gives_pure ⟨hkey, hv⟩
    · obtain ⟨hlen, hfields⟩ := h
      obtain ⟨hle, hsub, hsorted⟩ := collectFields_spec fields
      refine gives_pure ⟨⟨?_, fun f hf => ?_⟩, every_object.mpr ⟨hsorted, fun f hf => ?_⟩⟩
      · exact hle.trans (hlen ▸ hn)
      · exact ⟨(hfields f (hsub f hf)).1, (hfields f (hsub f hf)).2.within⟩
      · exact (hfields f (hsub f hf)).2.ordered
  · exact (gives_text _ _).bind fun collection hlen => (gives_any _).bind fun _ _ =>
      (gives_any _).bind fun _ _ => gives_pure ⟨hlen, trivial⟩
  · exact (gives_any _).bind fun _ _ => (gives_blob _ _).bind fun vectorClock hlen =>
      gives_pure ⟨hlen, trivial⟩
  · exact (gives_any _).bind fun _ _ => (gives_any _).bind fun _ _ =>
      (gives_blob _ _).bind fun payload hlen => gives_pure ⟨hlen, trivial⟩
  · exact gives_fail

theorem gives_decodeRecursive (left : Nat) : Gives (decodeRecursive left) (Decoded left) := by
  induction left with
  | zero => exact gives_fail
  | succ left ih => exact (gives_any _).bind fun tag _ => gives_decodeTagged ih tag

def decode (data : List UInt8) : Except GrumpyError Value := do
  let (value, _) ← decodeFromCursor data
  pure value

/-! ### What decoding fails with -/

def IsCodec (e : GrumpyError) : Prop := ∃ msg, e = .codec msg

theorem throws_readU8 : Throws readU8 IsCodec :=
  (throws_take fun _ => ⟨_, rfl⟩).bind fun _ => throws_pure

theorem throws_readBytes (n : Nat) : Throws (readBytes n) IsCodec := throws_take fun _ => ⟨_, rfl⟩

theorem throws_readCount (what : String) (max : Nat) : Throws (readCount what max) IsCodec := by
  refine Throws.bind ?_ fun n => ?_
  · exact (throws_take fun _ => ⟨_, rfl⟩).bind fun _ => throws_pure
  · exact (throws_require ⟨_, rfl⟩).bind fun _ => throws_pure

theorem throws_readBlob (what : String) (max : Nat) : Throws (readBlob what max) IsCodec :=
  (throws_readCount what max).bind fun n => throws_readBytes n

theorem throws_readText (what : String) (max : Nat) : Throws (readText what max) IsCodec :=
  (throws_readCount what max).bind fun n =>
    (throws_readBytes n).bind fun _ => throws_ofOption ⟨_, rfl⟩

theorem throws_decodeTagged (hitem : Throws item IsCodec) (tag : UInt8) :
    Throws (decodeTagged item tag) IsCodec := by
  unfold decodeTagged
  split
  · exact throws_pure
  · exact throws_readU8.bind fun _ => throws_pure
  · refine Throws.bind ?_ fun _ => throws_pure
    exact (throws_take fun _ => ⟨_, rfl⟩).bind fun _ => throws_pure
  · refine Throws.bind ?_ fun _ => throws_pure
    exact (throws_take fun _ => ⟨_, rfl⟩).bind fun _ => throws_pure
  · exact (throws_readText _ _).bind fun _ => throws_pure
  · exact (throws_readBlob _ _).bind fun _ => throws_pure
  · exact (throws_readCount _ _).bind fun n => (throws_times hitem n).bind fun _ => throws_pure
  · refine (throws_readCount _ _).bind fun n => Throws.bind ?_ fun _ => throws_pure
    exact throws_times ((throws_readText _ _).bind fun _ => hitem.bind fun _ => throws_pure) n
  · refine (throws_readText _ _).bind fun _ => (throws_readBytes 16).bind fun _ => ?_
    exact (throws_ofOption ⟨_, rfl⟩).bind fun _ => throws_pure
  · refine Throws.bind (throws_take fun _ => ⟨_, rfl⟩) fun _ => ?_
    exact (throws_readBlob _ _).bind fun _ => throws_pure
  · refine throws_readU8.bind fun _ => (throws_ofOption ⟨_, rfl⟩).bind fun _ => ?_
    exact (throws_readBlob _ _).bind fun _ => throws_pure
  · exact throws_fail ⟨_, rfl⟩

theorem throws_decodeRecursive (left : Nat) : Throws (decodeRecursive left) IsCodec := by
  induction left with
  | zero => exact throws_fail ⟨_, rfl⟩
  | succ left ih => exact throws_readU8.bind fun tag => throws_decodeTagged ih tag

end Codec

theorem Document.decode_error {data : List UInt8} {e : GrumpyError} (h : decode data = .error e) :
    Codec.IsCodec e := by
  unfold decode at h
  split at h
  · cases h
    exact ⟨_, rfl⟩
  · rcases hv : Codec.decodeFromCursor (data.drop 16) with e' | ⟨value, rest⟩
    · rw [hv] at h
      cases h
      exact Codec.throws_decodeRecursive _ _ _ hv
    · rw [hv] at h
      cases h

/-- **The codec** gives back every value within the limits of the decoder, whatever
follows it, and knows the size of its encoding.  From any bytes, what is decoded is within
the limits and survives another round. -/
theorem codec_round_trips :
    (∀ (v : Value) (rest : List UInt8), Codec.Ordered v →
      Codec.Within (Codec.MAX_NESTING_DEPTH + 1) v →
      Codec.decodeFromCursor (Codec.encode v ++ rest) = .ok (v, rest) ∧
      (Codec.encode v).length = Codec.encodedSize v) ∧
    ∀ (data : List UInt8), (∃ e, Codec.decode data = .error e) ∨
      ∃ v, Codec.decode data = .ok v ∧ Codec.Ordered v ∧
        Codec.Within (Codec.MAX_NESTING_DEPTH + 1) v ∧ Codec.decode (Codec.encode v) = .ok v := by
  have hround : ∀ (v : Value) (rest : List UInt8), Codec.Ordered v →
      Codec.Within (Codec.MAX_NESTING_DEPTH + 1) v →
      Codec.decodeFromCursor (Codec.encode v ++ rest) = .ok (v, rest) :=
    fun v rest hordered hwithin => (Codec.reads_encode hwithin.short hordered rest).1 hwithin
  refine ⟨fun v rest hordered hwithin => ?_, fun data => ?_⟩
  · exact ⟨hround v rest hordered hwithin, Codec.length_encode_eq v⟩
  · rcases hdec : Codec.decodeFromCursor data with e | ⟨v, rest⟩
    · exact .inl ⟨e, by rw [Codec.decode, hdec]; rfl⟩
    · obtain ⟨hwithin, hordered⟩ := Codec.gives_decodeRecursive _ data v rest hdec
      refine .inr ⟨v, by rw [Codec.decode, hdec]; rfl, hordered, hwithin, ?_⟩
      have hagain := hround v [] hordered hwithin
      rw [append_nil] at hagain
      rw [Codec.decode, hagain]
      rfl

theorem codec_round_trips_float : Codec.decodeFromCursor
    (Codec.encode (.array [.float 0x7ff8000000000001, .null]) ++ [1, 2]) =
      .ok (.array [.float 0x7ff8000000000001, .null], [1, 2]) := by
  refine (codec_round_trips.1 _ [1, 2] ?_ ?_).1
  · exact Codec.every_array.mpr ⟨trivial, forall_mem_cons.mpr
      ⟨trivial, forall_mem_cons.mpr ⟨trivial, nofun⟩⟩⟩
  · exact ⟨by decide, forall_mem_cons.mpr ⟨trivial, forall_mem_cons.mpr
      ⟨trivial, nofun⟩⟩⟩

end GrumpyDB
