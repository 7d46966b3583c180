/-
The textual forms of a UUID.

Four forms, told apart by their length: 32 hexadecimal digits of either case, the digits in five
groups with hyphens between them, the latter in braces, or after `urn:uuid:`.
-/
import Mathlib.Tactic.IntervalCases
import GrumpyDB.Error

namespace GrumpyDB

open List

namespace Uuid

/-! ### Hexadecimal digits -/

def hexValue? (b : UInt8) : Option Nat :=
  if 48 ≤ b ∧ b ≤ 57 then some (b.toNat - 48)
  else if 97 ≤ b ∧ b ≤ 102 then some (b.toNat - 87)
  else if 65 ≤ b ∧ b ≤ 70 then some (b.toNat - 55)
  else none

def hexDigit (d : Nat) : UInt8 := UInt8.ofNat (if d < 10 then 48 + d else 87 + d)

def parseHex : List UInt8 → Option (List UInt8)
  | hi :: lo :: rest => do
    let h ← hexValue? hi
    let l ← hexValue? lo
    let bs ← parseHex rest
    some (UInt8.ofNat (16 * h + l) :: bs)
  | [] => some []
  | _ => none

def hexPair (b : UInt8) : List UInt8 := [hexDigit (b.toNat / 16), hexDigit (b.toNat % 16)]

/-! ### Parsing -/

def parseSimple (s : List UInt8) : Option Uuid := (parseHex s).bind ofBytes?

def hyphen : UInt8 := 45

def parseHyphenated (s : List UInt8) : Option Uuid :=
  if s[8]? = some hyphen ∧ s[13]? = some hyphen ∧ s[18]? = some hyphen ∧ s[23]? = some hyphen then
    parseSimple (slice 0 8 s ++ slice 9 4 s ++ slice 14 4 s ++ slice 19 4 s ++ slice 24 12 s)
  else none

/-- What is read of a text of UTF-8 bytes, by its length. -/
def tryParse (input : List UInt8) : Option Uuid :=
  if input.length = 32 then parseSimple input
  else if input.length = 36 then parseHyphenated input
  else if input.length = 38 ∧ input[0]? = some 123 ∧ input[37]? = some 125 then
    parseHyphenated (slice 1 36 input)
  else if input.length = 45 ∧ input.take 9 = utf8 "urn:uuid:" then
    parseHyphenated (input.drop 9)
  else none

/-! ### The canonical text -/

def hyphenate (digits : List UInt8) : List UInt8 :=
  slice 0 8 digits ++ [hyphen] ++ slice 8 4 digits ++ [hyphen] ++ slice 12 4 digits ++ [hyphen] ++
    slice 16 4 digits ++ [hyphen] ++ slice 20 12 digits

def toText (u : Uuid) : String :=
  String.ofList ((hyphenate (u.bytes.flatMap hexPair)).map fun b => Char.ofNat b.toNat)

theorem hexValue?_hexDigit {d : Nat} (hd : d < 16) : hexValue? (hexDigit d) = some d := by
  interval_cases d <;> rfl

theorem parseHex_hexPair (bs : List UInt8) : parseHex (bs.flatMap hexPair) = some bs := by
  induction bs with
  | nil => rfl
  | cons b bs ih =>
    have hb := b.toNat_lt
    have hhi : b.toNat / 16 < 16 := by omega
    have hlo : b.toNat % 16 < 16 := by omega
    have hval : 16 * (b.toNat / 16) + b.toNat % 16 = b.toNat := by omega
    rw [flatMap_cons, hexPair, cons_append, cons_append, nil_append, parseHex,
      hexValue?_hexDigit hhi, hexValue?_hexDigit hlo, ih]
    simp only [Option.bind_eq_bind, Option.bind_some, hval, UInt8.ofNat_toNat]

theorem parseHyphenated_groups {a b c d e : List UInt8} (ha : a.length = 8) (hb : b.length = 4)
    (hc : c.length = 4) (hd : d.length = 4) (he : e.length = 12) :
    parseHyphenated (a ++ [hyphen] ++ b ++ [hyphen] ++ c ++ [hyphen] ++ d ++ [hyphen] ++ e) =
      parseSimple (a ++ b ++ c ++ d ++ e) := by
  rw [parseHyphenated, if_pos]
  · simp [slice, drop_append, drop_of_length_le, take_of_length_le,
      ha, hb, hc, hd, he]
  · simp [getElem?_append, ha, hb, hc, hd]

theorem parseHyphenated_hyphenate {digits : List UInt8} (h : digits.length = 32) :
    parseHyphenated (hyphenate digits) = parseSimple digits := by
  rw [hyphenate, parseHyphenated_groups (length_slice (by omega)) (length_slice (by omega))
    (length_slice (by omega)) (length_slice (by omega)) (length_slice (by omega))]
  -- the groups make up the digits
  congr 1
  simp only [slice, drop_zero, ← take_add]
  exact take_of_length_le (by omega)

theorem utf8EncodeChar_ascii : ∀ n < 128,
    String.utf8EncodeChar (Char.ofNat n) = [UInt8.ofNat n] := by
  decide

theorem utf8_ofList_ascii {bs : List UInt8} (h : ∀ b ∈ bs, b < 128) :
    utf8 (String.ofList (bs.map fun b => Char.ofNat b.toNat)) = bs := by
  have hbytes : (bs.map fun b => Char.ofNat b.toNat).flatMap String.utf8EncodeChar = bs := by
    rw [flatMap_map]
    calc bs.flatMap (fun b => String.utf8EncodeChar (Char.ofNat b.toNat))
        = bs.flatMap fun b => [b] := by
          apply flatMap_congr
          intro b hb
          rw [utf8EncodeChar_ascii _ (UInt8.lt_iff_toNat_lt.mp (h b hb)), UInt8.ofNat_toNat]
      _ = bs := by simp
  rw [utf8, String.toUTF8, String.toByteArray_ofList, utf8Encode, hbytes]
  simp

theorem hexDigit_lt : ∀ d < 16, hexDigit d < 128 := by decide

theorem hyphenate_ascii (bs : List UInt8) : ∀ b ∈ hyphenate (bs.flatMap hexPair), b < 128 := by
  intro b hb
  have hdigit : ∀ b ∈ bs.flatMap hexPair, b < 128 := by
    intro b hb
    obtain ⟨c, -, hc⟩ := mem_flatMap.mp hb
    have hlt := c.toNat_lt
    rcases mem_pair.mp hc with rfl | rfl
    · exact hexDigit_lt _ (by omega)
    · exact hexDigit_lt _ (by omega)
  have hslice (off len : Nat) (h : b ∈ slice off len (bs.flatMap hexPair)) : b < 128 :=
    hdigit b (mem_of_mem_drop (mem_of_mem_take h))
  have hhyphen (h : b ∈ [hyphen]) : b < 128 := by
    rw [mem_singleton.mp h]
    decide
  simp only [hyphenate, mem_append] at hb
  rcases hb with (((((((h | h) | h) | h) | h) | h) | h) | h) | h <;>
    first | exact hslice _ _ h | exact hhyphen h

/-- **The canonical text is read back.** -/
theorem tryParse_toText (u : Uuid) : tryParse (utf8 u.toText) = some u := by
  have hlen : (u.bytes.flatMap hexPair).length = 32 := by
    rw [length_flatMap_const (w := 2) (fun _ _ => rfl), u.size]
  have htext : (hyphenate (u.bytes.flatMap hexPair)).length = 36 := by
    simp [hyphenate, slice, hlen]
  rw [toText, utf8_ofList_ascii (hyphenate_ascii _), tryParse, if_neg (by omega), if_pos htext,
    parseHyphenated_hyphenate hlen, parseSimple, parseHex_hexPair]
  exact ofBytes?_bytes u

end Uuid

end GrumpyDB
