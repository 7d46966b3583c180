/-
Self-delimiting encodings in a stream of bytes.

The decoder gives back the first item if the whole of its encoding is there, whatever follows,
and nothing as long as a part of it is missing. So a reader gives back the items of a stream in
their order (`Framing.next`), however the stream is cut into pieces.
-/
import Mathlib.Data.List.Infix

namespace GrumpyDB

open List

variable {α β : Type} {Good : α → Prop} {encode : α → List UInt8} {decode : List UInt8 → β}
  {found : α × Nat → β} {waiting : β}

/-- `decode` has `found` what `encode` wrote for the items in `Good`, with the
number of bytes it takes, and is `waiting` for the rest of an encoding that is
cut. -/
structure Framing (Good : α → Prop) (encode : α → List UInt8) (decode : List UInt8 → β)
    (found : α × Nat → β) (waiting : β) : Prop where
  nil : decode [] = waiting
  whole : ∀ {a : α} (rest : List UInt8), Good a →
    decode (encode a ++ rest) = found (a, (encode a).length)
  cut : ∀ {a : α} {bytes : List UInt8}, Good a → bytes <+: encode a →
    bytes.length < (encode a).length → decode bytes = waiting

theorem prefix_append_cases {l a b : List UInt8} (h : l <+: a ++ b) :
    (∃ rest, l = a ++ rest ∧ rest <+: b) ∨ (l <+: a ∧ l.length < a.length) := by
  by_cases hlen : a.length ≤ l.length
  · obtain ⟨rest, rfl⟩ := prefix_of_prefix_length_le (prefix_append a b) h hlen
    exact .inl ⟨rest, rfl, (prefix_append_right_inj a).mp h⟩
  · have hlt : l.length < a.length := Nat.lt_of_not_le hlen
    exact .inr ⟨prefix_of_prefix_length_le h (prefix_append a b) hlt.le, hlt⟩

namespace Framing

variable (f : Framing Good encode decode found waiting)

include f

/-- **One item off a stream.**  What has come of a stream gives its first item
if all of it is there, and then what remains has come of the rest. -/
theorem next {items : List α} {bytes : List UInt8} (hgood : ∀ a ∈ items, Good a)
    (h : bytes <+: items.flatMap encode) :
    (∃ a rest tail, items = a :: rest ∧ bytes = encode a ++ tail ∧
      decode bytes = found (a, (encode a).length) ∧ tail <+: rest.flatMap encode) ∨
    (decode bytes = waiting ∧
      ∀ a rest, items = a :: rest → bytes.length < (encode a).length) := by
  rcases items with _ | ⟨a, rest⟩
  · have hnil : bytes = [] := prefix_nil.mp h
    exact .inr ⟨hnil ▸ f.nil, by simp⟩
  have ha : Good a := hgood a (by simp)
  rcases prefix_append_cases h with ⟨tail, rfl, htail⟩ | ⟨hcut, hlt⟩
  · exact .inl ⟨a, rest, tail, rfl, rfl, f.whole tail ha, htail⟩
  · refine .inr ⟨f.cut ha hcut hlt, ?_⟩
    rintro _ _ ⟨rfl, rfl⟩
    exact hlt

end Framing

/-! ### Reading a whole file -/

section ReadAll

variable {decode : List UInt8 → Option (α × Nat)} {bytes : List UInt8} {a : α} {n : Nat}

/-- Items off the head of the bytes, as long as there is one. -/
def readItems (decode : List UInt8 → Option (α × Nat)) : Nat → List UInt8 → List α
  | 0, _ => []
  | fuel + 1, bytes =>
    if bytes = [] then []
    else match decode bytes with
      | some (a, n) => a :: readItems decode fuel (bytes.drop n)
      | none => []

/-- All items that the bytes begin with.  An item takes at least one byte, so there
are at most as many as there are bytes. -/
def readAll (decode : List UInt8 → Option (α × Nat)) (bytes : List UInt8) : List α :=
  readItems decode bytes.length bytes

/-- An item takes at least one byte, and no more than there are. -/
def Takes (decode : List UInt8 → Option (α × Nat)) : Prop :=
  ∀ {bytes a n}, decode bytes = some (a, n) → 0 < n ∧ n ≤ bytes.length

theorem readItems_fuel (htakes : Takes decode) {fuel fuel' : Nat} {bytes : List UInt8}
    (h : bytes.length ≤ fuel) (h' : bytes.length ≤ fuel') :
    readItems decode fuel bytes = readItems decode fuel' bytes := by
  induction fuel generalizing fuel' bytes with
  | zero =>
    have hnil : bytes = [] := eq_nil_of_length_eq_zero (Nat.le_zero.1 h)
    cases fuel' <;> simp [readItems, hnil]
  | succ fuel ih =>
    by_cases hnil : bytes = []
    · cases fuel' <;> simp [readItems, hnil]
    have hpos := length_pos_of_ne_nil hnil
    obtain ⟨fuel', rfl⟩ : ∃ k, fuel' = k + 1 := ⟨fuel' - 1, by omega⟩
    rw [readItems, readItems, if_neg hnil, if_neg hnil]
    rcases hdecode : decode bytes with _ | ⟨a, n⟩
    · rfl
    · have hn := (htakes hdecode).1
      have hdrop : (bytes.drop n).length = bytes.length - n := length_drop
      exact congrArg (a :: ·) (ih (by omega) (by omega))

theorem readAll_some (htakes : Takes decode) (h : decode bytes = some (a, n)) :
    readAll decode bytes = a :: readAll decode (bytes.drop n) := by
  have htake := htakes h
  have hne : bytes ≠ [] := ne_nil_of_length_pos (by omega)
  obtain ⟨len, hlen⟩ : ∃ k, bytes.length = k + 1 := ⟨bytes.length - 1, by omega⟩
  have hdrop : (bytes.drop n).length = bytes.length - n := length_drop
  rw [readAll, hlen, readItems, if_neg hne, h]
  exact congrArg (a :: ·) (readItems_fuel htakes (by omega) le_rfl)

theorem readAll_none (h : decode bytes = none) : readAll decode bytes = [] := by
  rw [readAll]
  cases bytes.length with
  | zero => rfl
  | succ n => rw [readItems, h, ite_self]

theorem readAll_eq_cons (htakes : Takes decode) {as : List α} :
    readAll decode bytes = a :: as ↔
      ∃ n, decode bytes = some (a, n) ∧ readAll decode (bytes.drop n) = as := by
  rcases h : decode bytes with _ | ⟨a', n⟩
  · simp [readAll_none h]
  · rw [readAll_some htakes h, cons.injEq]
    constructor
    · rintro ⟨rfl, hrest⟩
      exact ⟨n, rfl, hrest⟩
    · rintro ⟨_, ⟨⟩, hrest⟩
      exact ⟨rfl, hrest⟩

theorem readAll_eq_nil (htakes : Takes decode) :
    readAll decode bytes = [] ↔ decode bytes = none := by
  refine ⟨fun h => ?_, readAll_none⟩
  rcases hdecode : decode bytes with _ | ⟨a, n⟩
  · rfl
  · rw [readAll_some htakes hdecode] at h
    cases h

theorem Framing.readAll_append (f : Framing Good encode decode some none)
    (htakes : Takes decode) {items : List α} (hgood : ∀ a ∈ items, Good a) (rest : List UInt8) :
    readAll decode (items.flatMap encode ++ rest) = items ++ readAll decode rest := by
  induction items with
  | nil => rfl
  | cons a items ih =>
    rw [flatMap_cons, append_assoc,
      readAll_some htakes (f.whole _ (hgood a mem_cons_self)), drop_left,
      ih fun b hb => hgood b (mem_cons_of_mem a hb)]
    rfl

/-- **A file with a cut encoding at its end gives back the whole ones.** -/
theorem Framing.readAll_cut (f : Framing Good encode decode some none)
    (htakes : Takes decode) {items : List α} (hgood : ∀ a ∈ items, Good a) {last : α}
    (hlast : Good last) {tail : List UInt8} (htail : tail <+: encode last)
    (hlt : tail.length < (encode last).length) :
    readAll decode (items.flatMap encode ++ tail) = items := by
  rw [f.readAll_append htakes hgood, readAll_none (f.cut hlast htail hlt), append_nil]

end ReadAll

end GrumpyDB
