/-
JSON operands of commands.

Compact JSON text has whitespace in the strings and keys of the value and nowhere else, so it
survives the way through a line as the last operand of a command, and as another one if it has
no whitespace at all.
-/
import GrumpyDB.Protocol.Parser

namespace GrumpyDB

open Protocol Str String List

/-- The text of a finite float, which is the work of a library: without whitespace. -/
class FloatText where
  text : UInt64 → Str
  ne_nil : ∀ bits, text bits ≠ []
  noSpace : ∀ bits, ∀ c ∈ text bits, isWhitespace c = false

/-! ### Compact JSON text -/

/-- A character of a string, escaped if it is a quote, a backslash or a control
character. -/
def escapeChar (c : Char) : Str :=
  if c = '"' then ['\\', '"']
  else if c = '\\' then ['\\', '\\']
  else if c.toNat = 8 then ['\\', 'b']
  else if c.toNat = 9 then ['\\', 't']
  else if c.toNat = 10 then ['\\', 'n']
  else if c.toNat = 12 then ['\\', 'f']
  else if c.toNat = 13 then ['\\', 'r']
  else if c.toNat < 32 then
    ['\\', 'u', '0', '0', Nat.digitChar (c.toNat / 16), Nat.digitChar (c.toNat % 16)]
  else [c]

def compactString (s : String) : Str := '"' :: (s.toList.flatMap escapeChar ++ ['"'])

section Compact

variable [FloatText]

def JsonNumber.compact : JsonNumber → Str
  | posInt n => decimal n.toNat
  | negInt i => displayI64 i
  | float bits => FloatText.text bits

mutual

def Json.compact : Json → Str
  | .null => "null".toList
  | .bool b => if b then "true".toList else "false".toList
  | .number n => n.compact
  | .string s => compactString s
  | .array items => '[' :: (Json.compactItems items ++ [']'])
  | .object fields => '\x7b' :: (Json.compactFields fields ++ ['\x7d'])

def Json.compactItems : List Json → Str
  | [] => []
  | j :: items => Json.compact j ++ if items = [] then [] else ',' :: Json.compactItems items

def Json.compactFields : List (String × Json) → Str
  | [] => []
  | (key, j) :: fields => compactString key ++ ':' :: (Json.compact j ++
      if fields = [] then [] else ',' :: Json.compactFields fields)

end

/-! ### Its ends -/

omit [FloatText] in
def NoSpace (s : Str) : Prop := ∀ c ∈ s, isWhitespace c = false

instance decidableNoSpace (s : Str) : Decidable (NoSpace s) :=
  List.decidableBAll (fun c => isWhitespace c = false) s

/-- Not empty, and no whitespace at either end. -/
structure Solid (s : Str) : Prop where
  ne_nil : s ≠ []
  head : ∀ c, s.head? = some c → isWhitespace c = false
  last : ∀ c, s.getLast? = some c → isWhitespace c = false

omit [FloatText] in
theorem Solid.of_noSpace {s : Str} (hne : s ≠ []) (h : NoSpace s) : Solid s :=
  ⟨hne, fun c hc => h c (List.mem_of_head? hc), fun c hc => h c (List.mem_of_getLast? hc)⟩

omit [FloatText] in
theorem Solid.of_ends {a b : Char} {s : Str} (ha : isWhitespace a = false)
    (hb : isWhitespace b = false) : Solid (a :: (s ++ [b])) := by
  refine ⟨by simp, ?_, ?_⟩
  · rintro c ⟨⟩
    exact ha
  · intro c hc
    rw [← cons_append, getLast?_concat] at hc
    exact Option.some.inj hc ▸ hb

omit [FloatText] in
theorem Solid.append {s t : Str} (hs : Solid s) (ht : Solid t) (m : Str) :
    Solid (s ++ (m ++ t)) := by
  refine ⟨by simp [hs.ne_nil], ?_, ?_⟩
  · intro c hc
    rw [head?_append_of_ne_nil _ hs.ne_nil] at hc
    exact hs.head c hc
  · intro c hc
    rw [← List.append_assoc, List.getLast?_append_of_ne_nil _ ht.ne_nil] at hc
    exact ht.last c hc

omit [FloatText] in
theorem noSpace_decimal (n : Nat) : NoSpace (decimal n) := by
  intro c hc
  have := isDigit_of_mem_decimal hc
  simp only [isWhitespace, Bool.or_eq_false_iff, Bool.and_eq_false_iff, decide_eq_false_iff_not,
    beq_eq_false_iff_ne]
  omega

omit [FloatText] in
theorem noSpace_displayI64 (i : Int64) : NoSpace (displayI64 i) := by
  rw [displayI64]
  split
  · intro c hc
    rcases mem_cons.mp hc with rfl | hc
    · decide
    · exact noSpace_decimal _ c hc
  · exact noSpace_decimal _

theorem JsonNumber.solid_compact (n : JsonNumber) : Solid n.compact := by
  cases n with
  | posInt n => exact .of_noSpace (decimal_ne_nil _) (noSpace_decimal _)
  | negInt i =>
    refine .of_noSpace ?_ (noSpace_displayI64 i)
    rw [compact, displayI64]
    split
    · simp
    · exact decimal_ne_nil _
  | float bits => exact .of_noSpace (FloatText.ne_nil bits) (FloatText.noSpace bits)

theorem Json.solid_compact (j : Json) : Solid j.compact := by
  cases j with
  | null => exact Solid.of_noSpace (s := "null".toList) (by decide) (by decide)
  | bool b =>
    cases b
    · exact Solid.of_noSpace (s := "false".toList) (by decide) (by decide)
    · exact Solid.of_noSpace (s := "true".toList) (by decide) (by decide)
  | number n => exact n.solid_compact
  | string s => exact .of_ends (by decide) (by decide)
  | array items => exact .of_ends (by decide) (by decide)
  | object fields => exact .of_ends (by decide) (by decide)

end Compact

/-! ### Words of a line -/

namespace Protocol

theorem noSpace_splitFirstWord (s : Str) : NoSpace (splitFirstWord s).1 := by
  intro c hc
  simpa using mem_takeWhile_imp hc

theorem noSpace_splitLastWord (s : Str) : NoSpace (splitLastWord s).2 := by
  intro c hc
  simpa using mem_rtakeWhile_imp hc

variable {s : Str}

theorem trimStart_of_head (h : ∀ c, s.head? = some c → isWhitespace c = false) :
    trimStart s = s := by
  cases s with
  | nil => rfl
  | cons c s => simp [trimStart, h c rfl]

theorem trimEnd_of_last (h : ∀ c, s.getLast? = some c → isWhitespace c = false) :
    trimEnd s = s := by
  rw [trimEnd, rdropWhile_eq_self_iff]
  intro hne
  simpa using h _ (getLast?_eq_some_getLast hne)

variable {w r : Str}

theorem splitFirstWord_blank (hw : NoSpace w) :
    splitFirstWord (w ++ ' ' :: r) = (w, trimStart r) := by
  have htake : (w ++ ' ' :: r).takeWhile (fun c => !isWhitespace c) = w := by
    rw [takeWhile_append_of_pos (fun c hc => by simpa using hw c hc)]
    simp [show isWhitespace ' ' = true from by decide]
  have hdrop : (w ++ ' ' :: r).dropWhile (fun c => !isWhitespace c) = ' ' :: r := by
    rw [dropWhile_append_of_pos (fun c hc => by simpa using hw c hc)]
    simp [show isWhitespace ' ' = true from by decide]
  rw [splitFirstWord, htake, hdrop, trimStart, dropWhile_cons]
  rfl

theorem splitLastWord_blank (hw : NoSpace w) : splitLastWord (r ++ ' ' :: w) = (trimEnd r, w) := by
  -- read from the end, it is the first word
  have hmirror : ∀ s, splitLastWord s =
      ((splitFirstWord s.reverse).2.reverse, (splitFirstWord s.reverse).1.reverse) := by
    simp [splitLastWord, splitFirstWord, trimEnd, trimStart, rdropWhile, rtakeWhile]
  have hw' : NoSpace w.reverse := fun c hc => hw c (mem_reverse.mp hc)
  have hrev : (r ++ ' ' :: w).reverse = w.reverse ++ ' ' :: r.reverse := by simp
  rw [hmirror, hrev, splitFirstWord_blank hw', reverse_reverse]
  rfl

variable {missing : String}

theorem word_eq_ok {s w r : Str} (h : word missing s = .ok (w, r)) :
    w ≠ [] ∧ NoSpace w ∧ splitFirstWord s = (w, r) := by
  rw [word] at h
  split at h
  · cases h
  · rename_i hne
    have heq := Except.ok.inj h
    refine ⟨?_, ?_, heq⟩
    · rwa [heq] at hne
    · have hspace := noSpace_splitFirstWord s
      rwa [heq] at hspace

theorem word_blank (hne : w ≠ []) (hw : NoSpace w) :
    word missing (w ++ ' ' :: r) = .ok (w, trimStart r) := by
  rw [word, splitFirstWord_blank hw, if_neg hne]

/-! ### Lines -/

theorem trimLineEnd_of_solid (h : Solid s) : trimLineEnd s = s := by
  obtain ⟨c, r, hrev⟩ := exists_cons_of_ne_nil (reverse_ne_nil_iff.mpr h.ne_nil)
  have hlast : s.getLast? = some c := by
    rw [getLast?_eq_head?_reverse, hrev]
    rfl
  have hc : c ≠ '\n' := by
    rintro rfl
    exact absurd (h.last _ hlast) (by decide)
  have hcrlf : trimLineEnd.crlf s.reverse = s.reverse := by
    rw [hrev, trimLineEnd.crlf]
    intro t heq
    exact hc (cons.inj heq).1
  rw [trimLineEnd, hcrlf, reverse_reverse, rdropWhile_eq_self_iff]
  intro hne
  rw [getLast?_eq_some_getLast hne] at hlast
  simpa [Option.some.inj hlast] using hc

theorem parseCommand_of_solid {line : Str} (h : Solid line) (hlen : utf8Len line ≤ MAX_LINE_LENGTH)
    (hnext : nextConcern ⟨none, none⟩ line = none) : parseCommand line = parseBase line := by
  rw [parseCommand, trimLineEnd_of_solid h, if_neg (not_lt.mpr hlen), trimEnd_of_last h.last,
    trimStart_of_head h.head, if_neg h.ne_nil, parseConsistencyPrefix, hnext]
  cases hbase : parseBase line with
  | error e => simp [bind, Except.bind, hbase]
  | ok base => simp [bind, Except.bind, hbase, pure, Except.pure]

def queryRangeLine (collection index a b : Str) : Str :=
  "QUERYRANGE".toList ++ ' ' :: (collection ++ ' ' :: (index ++ ' ' :: (a ++ ' ' :: b)))

def putWithVcLine (collection key a b : Str) : Str :=
  "PUT_WITH_VC".toList ++ ' ' :: (collection ++ ' ' :: (key ++ ' ' :: (a ++ ' ' :: b)))

theorem parseCommand_verb {v m b : Str} (hne : v ≠ []) (hv : NoSpace v)
    (hread : eqIgnoreAsciiCase v "READ_CONCERN" = false)
    (hwrite : eqIgnoreAsciiCase v "WRITE_CONCERN" = false) (hb : Solid b)
    (hlen : utf8Len (v ++ ' ' :: (m ++ b)) ≤ MAX_LINE_LENGTH) :
    parseCommand (v ++ ' ' :: (m ++ b)) = parseBase (v ++ ' ' :: (m ++ b)) := by
  have hsolid : Solid (v ++ (' ' :: m ++ b)) := (Solid.of_noSpace hne hv).append hb (' ' :: m)
  refine parseCommand_of_solid hsolid hlen ?_
  simp only [nextConcern, splitFirstWord_blank hv, hread, hwrite, Bool.false_eq_true, if_false]

theorem parseBase_queryrange (r : Str) :
    parseBase ("QUERYRANGE".toList ++ ' ' :: r) = parseQueryrange (trimStart r) := by
  have hverb : toAsciiUppercase "QUERYRANGE".toList = "QUERYRANGE" := by decide
  rw [parseBase, splitFirstWord_blank (by decide)]
  dsimp only
  rw [hverb, parseVerb]

theorem parseBase_putWithVc (r : Str) :
    parseBase ("PUT_WITH_VC".toList ++ ' ' :: r) = parsePutWithVc (trimStart r) := by
  have hverb : toAsciiUppercase "PUT_WITH_VC".toList = "PUT_WITH_VC" := by decide
  rw [parseBase, splitFirstWord_blank (by decide)]
  dsimp only
  rw [hverb, parseVerb]

theorem operands_concat (c i a b : Str) : c ++ ' ' :: (i ++ ' ' :: (a ++ ' ' :: b)) =
    c ++ ' ' :: (i ++ ' ' :: (a ++ [' '])) ++ b := by
  simp

theorem parseCommand_operands {v c i a b : Str} {next : Str → Except ProtocolError Command}
    (hne : v ≠ []) (hv : NoSpace v) (hread : eqIgnoreAsciiCase v "READ_CONCERN" = false)
    (hwrite : eqIgnoreAsciiCase v "WRITE_CONCERN" = false)
    (hbase : ∀ r, parseBase (v ++ ' ' :: r) = next (trimStart r)) (hb : Solid b)
    (hlen : utf8Len (v ++ ' ' :: (c ++ ' ' :: (i ++ ' ' :: (a ++ ' ' :: b)))) ≤ MAX_LINE_LENGTH) :
    parseCommand (v ++ ' ' :: (c ++ ' ' :: (i ++ ' ' :: (a ++ ' ' :: b)))) =
      next (trimStart (c ++ ' ' :: (i ++ ' ' :: (a ++ ' ' :: b)))) := by
  rw [← hbase]
  rw [operands_concat c i a b] at hlen ⊢
  exact parseCommand_verb hne hv hread hwrite hb hlen

theorem parseCommand_queryRangeLine {c i a b : Str} (hb : Solid b)
    (hlen : utf8Len (queryRangeLine c i a b) ≤ MAX_LINE_LENGTH) :
    parseCommand (queryRangeLine c i a b) =
      parseQueryrange (trimStart (c ++ ' ' :: (i ++ ' ' :: (a ++ ' ' :: b)))) := by
  have hparse := parseCommand_operands (c := c) (i := i) (a := a)
    (by decide) (by decide) (by decide +kernel) (by decide +kernel) parseBase_queryrange hb
  exact hparse hlen

theorem parseCommand_putWithVcLine {c k a b : Str} (hb : Solid b)
    (hlen : utf8Len (putWithVcLine c k a b) ≤ MAX_LINE_LENGTH) :
    parseCommand (putWithVcLine c k a b) =
      parsePutWithVc (trimStart (c ++ ' ' :: (k ++ ' ' :: (a ++ ' ' :: b)))) := by
  have hparse := parseCommand_operands (c := c) (i := k) (a := a)
    (by decide) (by decide) (by decide +kernel) (by decide +kernel) parseBase_putWithVc hb
  exact hparse hlen

theorem text_injective {s t : Str} (h : text s = text t) : s = t := by
  have := congrArg String.toList h
  simpa [text] using this

theorem parseQueryrange_eq_ok {s c i a b : Str}
    (h : parseQueryrange s = .ok (.queryRange (text c) (text i) (text a) (text b))) :
    c ≠ [] ∧ i ≠ [] ∧ NoSpace a := by
  rw [parseQueryrange] at h
  rcases hc : word "QUERYRANGE requires <collection> <index_name> <start> <end>" s with
    e | ⟨c', s₁⟩ <;> simp only [hc, bind, Except.bind, reduceCtorEq] at h
  rcases hi : word "QUERYRANGE requires <index_name>" s₁ with e | ⟨i', s₂⟩ <;>
    simp only [hi, reduceCtorEq] at h
  rcases ha : word "QUERYRANGE requires <start>" s₂ with e | ⟨a', s₃⟩ <;>
    simp only [ha, reduceCtorEq] at h
  rcases hb : remainder "QUERYRANGE requires <end>" s₃ with e | b' <;>
    simp only [hb, reduceCtorEq, pure, Except.pure, Except.ok.injEq, Command.queryRange.injEq] at h
  obtain ⟨hc', hi', ha', -⟩ := h
  rw [← text_injective hc', ← text_injective hi', ← text_injective ha']
  exact ⟨(word_eq_ok hc).1, (word_eq_ok hi).1, (word_eq_ok ha).2.1⟩

theorem parsePutWithVc_eq_ok {s c k a b : Str}
    (h : parsePutWithVc s = .ok (.putWithVc (text c) (text k) (text a) (text b))) :
    c ≠ [] ∧ k ≠ [] ∧ NoSpace b := by
  rw [parsePutWithVc] at h
  rcases hc : word "PUT_WITH_VC requires <collection> <uuid> <json> <vector_clock>" s with
    e | ⟨c', s₁⟩ <;> simp only [hc, bind, Except.bind, reduceCtorEq] at h
  rcases hk : word "PUT_WITH_VC requires <uuid>" s₁ with e | ⟨k', s₂⟩ <;>
    simp only [hk, reduceCtorEq] at h
  rcases hr : remainder "PUT_WITH_VC requires <json> <vector_clock>" s₂ with e | s₃ <;>
    simp only [hr, reduceCtorEq] at h
  split at h
  · cases h
  · simp only [pure, Except.pure, Except.ok.injEq, Command.putWithVc.injEq] at h
    obtain ⟨hc', hk', -, hb'⟩ := h
    rw [← text_injective hc', ← text_injective hk', ← text_injective hb']
    exact ⟨(word_eq_ok hc).1, (word_eq_ok hk).1, noSpace_splitLastWord s₃⟩

theorem trimStart_word (hne : w ≠ []) (hw : NoSpace w) : trimStart (w ++ r) = w ++ r := by
  refine trimStart_of_head fun c hc => ?_
  rw [head?_append_of_ne_nil _ hne] at hc
  exact hw c (mem_of_head? hc)

theorem parseQueryrange_line {c i a b : Str} (hcne : c ≠ []) (hc : NoSpace c) (hine : i ≠ [])
    (hi : NoSpace i) (hane : a ≠ []) (ha : NoSpace a) (hb : Solid b) :
    parseQueryrange (c ++ ' ' :: (i ++ ' ' :: (a ++ ' ' :: b))) =
      .ok (.queryRange (text c) (text i) (text a) (text b)) := by
  simp only [parseQueryrange, word_blank hcne hc, trimStart_word hine hi, word_blank hine hi,
    trimStart_word hane ha, word_blank hane ha, trimStart_of_head hb.head, remainder, hb.ne_nil,
    bind, Except.bind, pure, Except.pure, if_false]

theorem parsePutWithVc_line {c k a b : Str} (hcne : c ≠ []) (hc : NoSpace c) (hkne : k ≠ [])
    (hk : NoSpace k) (ha : Solid a) (hbne : b ≠ []) (hb : NoSpace b) :
    parsePutWithVc (c ++ ' ' :: (k ++ ' ' :: (a ++ ' ' :: b))) =
      .ok (.putWithVc (text c) (text k) (text a) (text b)) := by
  have hsolid : trimStart (a ++ ' ' :: b) = a ++ ' ' :: b := by
    refine trimStart_of_head fun d hd => ?_
    rw [head?_append_of_ne_nil _ ha.ne_nil] at hd
    exact ha.head d hd
  have hne : a ++ ' ' :: b ≠ [] := by simp
  simp only [parsePutWithVc, word_blank hcne hc, trimStart_word hkne hk, word_blank hkne hk, hsolid,
    remainder, hne, splitLastWord_blank hb, trimEnd_of_last ha.last, ha.ne_nil, hbne, or_self,
    bind, Except.bind, pure, Except.pure, if_false]

variable [FloatText]

/-- **JSON operands.**  With names and keys without whitespace, `QUERYRANGE` reads back
its operands if and only if the first JSON text has no whitespace, and `PUT_WITH_VC` if
and only if the second has none. -/
theorem operands_exact_iff {c i k : Str} (hc : NoSpace c) (hi : NoSpace i) (hk : NoSpace k)
    (a b : Json) :
    (utf8Len (queryRangeLine c i a.compact b.compact) ≤ MAX_LINE_LENGTH →
      (parseCommand (queryRangeLine c i a.compact b.compact) =
          .ok (.queryRange (text c) (text i) (text a.compact) (text b.compact)) ↔
        c ≠ [] ∧ i ≠ [] ∧ NoSpace a.compact)) ∧
    (utf8Len (putWithVcLine c k a.compact b.compact) ≤ MAX_LINE_LENGTH →
      (parseCommand (putWithVcLine c k a.compact b.compact) =
          .ok (.putWithVc (text c) (text k) (text a.compact) (text b.compact)) ↔
        c ≠ [] ∧ k ≠ [] ∧ NoSpace b.compact)) := by
  have hb := b.solid_compact
  have ha := a.solid_compact
  refine ⟨fun hlen => ?_, fun hlen => ?_⟩
  · rw [parseCommand_queryRangeLine hb hlen]
    constructor
    · exact parseQueryrange_eq_ok
    · rintro ⟨hcne, hine, hspace⟩
      rw [trimStart_word hcne hc]
      exact parseQueryrange_line hcne hc hine hi ha.ne_nil hspace hb
  · rw [parseCommand_putWithVcLine hb hlen]
    constructor
    · exact parsePutWithVc_eq_ok
    · rintro ⟨hcne, hkne, hspace⟩
      rw [trimStart_word hcne hc]
      exact parsePutWithVc_line hcne hc hkne hk ha hb.ne_nil hspace

@[reducible] def plainFloats : FloatText where
  text _ := ['0']
  ne_nil _ := by decide
  noSpace _ := List.forall_mem_singleton.2 (by decide)

omit [FloatText] in
/-- Literals survive both commands. -/
theorem operands_exact_literals : ∃ _ : FloatText,
    parseCommand (queryRangeLine ['c'] ['i'] (Json.null).compact (Json.null).compact) =
        .ok (.queryRange "c" "i" "null" "null") ∧
      parseCommand (putWithVcLine ['c'] ['k'] (Json.null).compact (Json.null).compact) =
        .ok (.putWithVc "c" "k" "null" "null") := by
  refine ⟨plainFloats, ?_⟩
  obtain ⟨hrange, hput⟩ := @operands_exact_iff plainFloats ['c'] ['i'] ['k'] (by decide) (by decide)
    (by decide) .null .null
  exact ⟨(hrange (by decide +kernel)).mpr (by decide +kernel),
    (hput (by decide +kernel)).mpr (by decide +kernel)⟩

omit [FloatText] in
/-- A string with a blank in it does not survive as the first operand of the one and as
the second of the other. -/
theorem operands_garbled : ∃ _ : FloatText,
    parseCommand (queryRangeLine ['c'] ['i'] (Json.string "a b").compact (Json.null).compact) ≠
        .ok (.queryRange "c" "i" "\"a b\"" "null") ∧
      parseCommand (putWithVcLine ['c'] ['k'] (Json.null).compact (Json.string "a b").compact) ≠
        .ok (.putWithVc "c" "k" "null" "\"a b\"") := by
  refine ⟨plainFloats, fun h => ?_, fun h => ?_⟩
  · have hline := @parseCommand_queryRangeLine ['c'] ['i'] "\"a b\"".toList "null".toList
      (.of_noSpace (by decide) (by decide)) (by decide +kernel)
    have hspace := (parseQueryrange_eq_ok (hline.symm.trans h)).2.2
    exact absurd hspace (by decide)
  · have hline := @parseCommand_putWithVcLine ['c'] ['k'] "null".toList "\"a b\"".toList
      (.of_ends (s := "a b".toList) (by decide) (by decide)) (by decide +kernel)
    have hspace := (parsePutWithVc_eq_ok (hline.symm.trans h)).2.2
    exact absurd hspace (by decide)

end Protocol

end GrumpyDB
