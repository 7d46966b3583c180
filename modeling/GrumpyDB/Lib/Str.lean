/-
Texts addressed by byte offsets, and decimal numbers in them.

A text can be cut only between two characters: `cutAt` gives the two parts, or nothing if the
offset is inside a character or past the end.
-/
import Mathlib.Data.String.Basic
import Mathlib.Tactic.IntervalCases
import GrumpyDB.Lib.Bytes

namespace GrumpyDB

open List Option

open String (utf8Len)

/-- A text as the list of its characters. -/
abbrev Str := List Char

theorem length_utf8 (s : String) : (utf8 s).length = utf8Len s.toList := by
  rw [Array.length_toList, ← String.utf8ByteSize_ofList, String.ofList_toList]
  rfl

namespace Str

variable {s t a b : Str} {n : Nat}

/-! ### Offsets -/

/-- What is before and after an offset. -/
def cutAt : Str → Nat → Option (Str × Str)
  | s, 0 => some ([], s)
  | [], _ + 1 => none
  | c :: s, n + 1 =>
    if c.utf8Size ≤ n + 1 then (cutAt s (n + 1 - c.utf8Size)).map fun r => (c :: r.1, r.2) else none

/-- An offset between two characters, or at an end. -/
def IsBoundary (s : Str) (n : Nat) : Prop := ∃ a b, s = a ++ b ∧ utf8Len a = n

theorem cutAt_append (a b : Str) : cutAt (a ++ b) (utf8Len a) = some (a, b) := by
  induction a with
  | nil => cases b <;> rfl
  | cons c a ih =>
    have hpos := c.utf8Size_pos
    obtain ⟨m, hm⟩ : ∃ m, utf8Len (c :: a) = m + 1 :=
      ⟨utf8Len a + c.utf8Size - 1, by simp only [String.utf8Len_cons]; omega⟩
    rw [hm, cons_append, cutAt, ← hm, String.utf8Len_cons, if_pos (by omega),
      Nat.add_sub_cancel, ih]
    rfl

theorem cutAt_eq_some : cutAt s n = some (a, b) ↔ s = a ++ b ∧ utf8Len a = n := by
  constructor
  · intro h
    induction s generalizing n a with
    | nil =>
      rcases n with _ | n
      · obtain ⟨rfl, rfl⟩ := Prod.mk.inj (some.inj h)
        exact ⟨rfl, rfl⟩
      · cases h
    | cons c s ih =>
      rcases n with _ | n
      · obtain ⟨rfl, rfl⟩ := Prod.mk.inj (some.inj h)
        exact ⟨rfl, rfl⟩
      · rw [cutAt] at h
        split at h
        · obtain ⟨⟨a', b'⟩, hcut, heq⟩ := map_eq_some_iff.mp h
          obtain ⟨rfl, rfl⟩ := Prod.mk.inj heq
          obtain ⟨rfl, hlen⟩ := ih hcut
          refine ⟨rfl, ?_⟩
          rw [String.utf8Len_cons, hlen]
          omega
        · cases h
  · rintro ⟨rfl, rfl⟩
    exact cutAt_append a b

theorem cutAt_eq_none : cutAt s n = none ↔ ¬ IsBoundary s n := by
  rw [← not_iff_not, not_not, ← ne_eq, ne_none_iff_exists']
  constructor
  · rintro ⟨⟨a, b⟩, h⟩
    exact ⟨a, b, cutAt_eq_some.mp h⟩
  · rintro ⟨a, b, h⟩
    exact ⟨(a, b), cutAt_eq_some.mpr h⟩

def sliceFrom (s : Str) (i : Nat) : Option Str := (cutAt s i).map Prod.snd

def sliceBetween (s : Str) (i j : Nat) : Option Str := do
  let (_, t) ← cutAt s i
  if i ≤ j then (cutAt t (j - i)).map Prod.fst else none

theorem sliceFrom_append (a b : Str) : sliceFrom (a ++ b) (utf8Len a) = some b := by
  rw [sliceFrom, cutAt_append]
  rfl

theorem sliceBetween_append (a t b : Str) {i j : Nat} (hi : utf8Len a = i)
    (hj : i + utf8Len t = j) : sliceBetween (a ++ (t ++ b)) i j = some t := by
  subst hi hj
  simp only [sliceBetween, cutAt_append, bind_eq_bind, bind_some]
  rw [if_pos (Nat.le_add_right _ _), Nat.add_sub_cancel_left, cutAt_append]
  rfl

/-! ### The end of a line -/

/-- The offset of the first `\r\n`. -/
def findCrlf : Str → Option Nat
  | [] => none
  | c :: s =>
    if c = '\r' ∧ s.head? = some '\n' then some 0 else (findCrlf s).map (· + c.utf8Size)

/-- A text that a `\r\n` after it ends. -/
def IsLine (a : Str) : Prop := ¬ ['\r', '\n'] <:+: a ++ ['\r']

theorem isLine_nil : IsLine [] := by
  rw [IsLine]
  decide

variable {c : Char}

theorem isLine_cons : IsLine (c :: a) ↔ ¬ (c = '\r' ∧ a.head? = some '\n') ∧ IsLine a := by
  rw [IsLine, cons_append, infix_cons_iff, not_or]
  refine and_congr_left fun _ => not_congr ?_
  rw [eq_comm]
  rcases a with _ | ⟨d, a⟩
  · simp
  · simp [eq_comm]

theorem isLine_of_not_mem (h : '\r' ∉ a) : IsLine a := by
  induction a with
  | nil => exact isLine_nil
  | cons c a ih =>
    simp only [mem_cons, not_or] at h
    exact isLine_cons.mpr ⟨fun hc => h.1 hc.1.symm, ih h.2⟩

theorem findCrlf_append (h : IsLine a) (b : Str) :
    findCrlf (a ++ '\r' :: '\n' :: b) = some (utf8Len a) := by
  induction a with
  | nil => rfl
  | cons c a ih =>
    obtain ⟨hc, ha⟩ := isLine_cons.mp h
    rw [cons_append, findCrlf, if_neg, ih ha]
    · rfl
    · rintro ⟨rfl, hhead⟩
      refine hc ⟨rfl, ?_⟩
      rcases a with _ | ⟨d, a⟩
      · simp at hhead
      · simpa using hhead

theorem findCrlf_eq_some (h : findCrlf s = some n) :
    ∃ a b, s = a ++ '\r' :: '\n' :: b ∧ IsLine a ∧ utf8Len a = n := by
  induction s generalizing n with
  | nil => cases h
  | cons c s ih =>
    rw [findCrlf] at h
    split at h
    · rename_i hc
      obtain ⟨rfl, hhead⟩ := hc
      obtain rfl := some.inj h
      obtain ⟨t, rfl⟩ := head?_eq_some_iff.mp hhead
      exact ⟨[], t, rfl, isLine_nil, rfl⟩
    · rename_i hc
      obtain ⟨m, hm, rfl⟩ := map_eq_some_iff.mp h
      obtain ⟨a, b, rfl, ha, rfl⟩ := ih hm
      refine ⟨c :: a, b, rfl, isLine_cons.mpr ⟨?_, ha⟩, rfl⟩
      rintro ⟨rfl, hhead⟩
      refine hc ⟨rfl, ?_⟩
      rw [head?_append, hhead]
      rfl

theorem findCrlf_of_prefix (h : IsLine a) (ht : t <+: a ++ ['\r']) : findCrlf t = none := by
  rcases hfind : findCrlf t with _ | n
  · rfl
  · obtain ⟨x, y, rfl, -, -⟩ := findCrlf_eq_some hfind
    refine absurd ?_ h
    refine List.IsInfix.trans ⟨x, y, ?_⟩ ht.isInfix
    simp

/-! ### Decimal numbers -/

def digitValue (c : Char) : Option Nat :=
  if 48 ≤ c.toNat ∧ c.toNat ≤ 57 then some (c.toNat - 48) else none

def parseDigitsFrom (acc : Nat) : Str → Option Nat
  | [] => some acc
  | c :: s => (digitValue c).bind fun d => parseDigitsFrom (acc * 10 + d) s

def parseDigits (s : Str) : Option Nat := if s = [] then none else parseDigitsFrom 0 s

/-- An unsigned integer of 64 bits, with an optional `+`. -/
def parseU64 (s : Str) : Option Nat := do
  let n ← match s with
    | '+' :: digits => parseDigits digits
    | digits => parseDigits digits
  if n < 2 ^ 64 then some n else none

/-- A signed integer of 64 bits, with an optional sign. -/
def parseI64 (s : Str) : Option Int64 := do
  let i : Int ← match s with
    | '+' :: digits => (parseDigits digits).map Int.ofNat
    | '-' :: digits => (parseDigits digits).map fun n => -Int.ofNat n
    | digits => (parseDigits digits).map Int.ofNat
  if -2 ^ 63 ≤ i ∧ i < 2 ^ 63 then some (Int64.ofInt i) else none

def decimal (n : Nat) : Str := Nat.toDigits 10 n

def displayI64 (i : Int64) : Str :=
  if i.toInt < 0 then '-' :: decimal i.toInt.natAbs else decimal i.toInt.natAbs

theorem digitValue_digitChar {d : Nat} (h : d < 10) : digitValue (Nat.digitChar d) = some d := by
  interval_cases d <;> rfl

theorem parseDigitsFrom_append (acc : Nat) (a b : Str) :
    parseDigitsFrom acc (a ++ b) =
      (parseDigitsFrom acc a).bind fun n => parseDigitsFrom n b := by
  induction a generalizing acc with
  | nil => rfl
  | cons c a ih =>
    simp only [cons_append, parseDigitsFrom]
    rcases digitValue c with _ | d
    · rfl
    · exact ih _

theorem parseDigitsFrom_decimal (n : Nat) : parseDigitsFrom 0 (decimal n) = some n := by
  induction n using Nat.strong_induction_on with
  | _ n ih =>
    rw [decimal, Nat.toDigits_eq_if (by decide)]
    split
    · rename_i hlt
      simp [parseDigitsFrom, digitValue_digitChar hlt]
    · have hdiv : n / 10 < n := Nat.div_lt_self (by omega) (by decide)
      have hrest := ih (n / 10) hdiv
      rw [decimal] at hrest
      rw [parseDigitsFrom_append, hrest]
      simp only [bind_some, parseDigitsFrom, digitValue_digitChar (Nat.mod_lt n (by decide))]
      congr 1
      omega

theorem decimal_ne_nil (n : Nat) : decimal n ≠ [] := by
  rw [decimal, Nat.toDigits_eq_if (by decide)]
  split <;> simp

theorem parseDigits_decimal (n : Nat) : parseDigits (decimal n) = some n := by
  rw [parseDigits, if_neg (decimal_ne_nil n), parseDigitsFrom_decimal]

theorem isDigit_of_mem_decimal (h : c ∈ decimal n) : 48 ≤ c.toNat ∧ c.toNat ≤ 57 := by
  induction n using Nat.strong_induction_on with
  | _ n ih =>
    rw [decimal, Nat.toDigits_eq_if (by decide)] at h
    have hdigit {d : Nat} (hd : d < 10) : 48 ≤ (Nat.digitChar d).toNat ∧
        (Nat.digitChar d).toNat ≤ 57 := by
      interval_cases d <;> decide
    split at h
    · obtain rfl := mem_singleton.mp h
      exact hdigit (by assumption)
    · rcases mem_append.mp h with h | h
      · exact ih (n / 10) (Nat.div_lt_self (by omega) (by decide)) h
      · obtain rfl := mem_singleton.mp h
        exact hdigit (Nat.mod_lt n (by decide))

theorem not_mem_decimal (h : c.toNat < 48 ∨ 57 < c.toNat) : c ∉ decimal n := by
  intro hmem
  have := isDigit_of_mem_decimal hmem
  omega

theorem decimal_eq_cons : ∃ c s, decimal n = c :: s ∧ c ≠ '+' ∧ c ≠ '-' := by
  rcases hdec : decimal n with _ | ⟨c, s⟩
  · exact absurd hdec (decimal_ne_nil n)
  · have hc := isDigit_of_mem_decimal (show c ∈ decimal n by simp [hdec])
    refine ⟨c, s, rfl, ?_, ?_⟩
    · rintro rfl
      exact absurd hc (by decide)
    · rintro rfl
      exact absurd hc (by decide)

theorem parseU64_decimal (h : n < 2 ^ 64) : parseU64 (decimal n) = some n := by
  obtain ⟨c, s, hdec, hplus, -⟩ := decimal_eq_cons
  have hparse := parseDigits_decimal n
  rw [hdec] at hparse ⊢
  rw [parseU64, hparse]
  · exact if_pos h
  · intro digits heq
    exact hplus (cons.inj heq).1

theorem parseI64_displayI64 (i : Int64) : parseI64 (displayI64 i) = some i := by
  have hlow : -2 ^ 63 ≤ i.toInt := Int64.le_toInt i
  have hhigh : i.toInt < 2 ^ 63 := Int64.toInt_lt i
  obtain ⟨c, s, hdec, hplus, hminus⟩ := decimal_eq_cons
  have hparse := parseDigits_decimal i.toInt.natAbs
  have hrange : -2 ^ 63 ≤ i.toInt ∧ i.toInt < 2 ^ 63 := ⟨hlow, hhigh⟩
  rw [displayI64]
  split
  · have hneg : -Int.ofNat i.toInt.natAbs = i.toInt := by
      simp only [Int.ofNat_eq_natCast]
      omega
    simp only [parseI64, hparse, map_some, bind_eq_bind, bind_some, hneg]
    rw [if_pos hrange, Int64.ofInt_toInt]
  · have hpos : Int.ofNat i.toInt.natAbs = i.toInt := by
      simp only [Int.ofNat_eq_natCast]
      omega
    rw [hdec] at hparse ⊢
    rw [parseI64, hparse]
    · simp only [map_some, bind_eq_bind, bind_some, hpos]
      rw [if_pos hrange, Int64.ofInt_toInt]
    · intro digits heq
      exact hplus (cons.inj heq).1
    · intro digits heq
      exact hminus (cons.inj heq).1

end Str

end GrumpyDB
