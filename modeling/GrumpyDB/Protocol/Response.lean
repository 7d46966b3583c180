/-
The replies of the server on the wire.

A reply whose simple texts are lines is read back, and what is only the beginning of it is
waited for.
-/
import GrumpyDB.Lib.Str
import GrumpyDB.Lib.Proc

namespace GrumpyDB

namespace Protocol

open Str List
open String (utf8Len)
open Proc hiding bind

inductive Response where
  | ok (msg : Str)
  | error (msg : Str)
  | integer (n : Int64)
  | bulk (data : Option Str)
  | array (items : List Response)

def CRLF : Str := ['\r', '\n']

mutual

def Response.serialize : Response → Str
  | .ok msg => '+' :: (msg ++ CRLF)
  | .error msg => '-' :: ("ERR ".toList ++ msg ++ CRLF)
  | .integer n => ':' :: (displayI64 n ++ CRLF)
  | .bulk none => '$' :: ("-1".toList ++ CRLF)
  | .bulk (some data) => '$' :: (decimal (utf8Len data) ++ CRLF ++ (data ++ CRLF))
  | .array items => '*' :: (decimal items.length ++ CRLF ++ serializeItems items)

def serializeItems : List Response → Str
  | [] => []
  | item :: items => item.serialize ++ serializeItems items

end

inductive ResponseParseError where
  | incomplete
  /-- The first byte, as a character. -/
  | invalidPrefix (c : Char)
  | invalidInteger (text : Str)
  | invalidBulkLength (text : Str)
  deriving DecidableEq

/-- Why a call does not return. -/
inductive Panic where
  | slice
  | addOverflow
  | capacityOverflow
  | stackOverflow
  deriving DecidableEq

/-- How a call ends that gives no value. -/
inductive Halt where
  | err (e : ResponseParseError)
  | panic (p : Panic)
  deriving DecidableEq

/-- The machine: the calls the stack has room for, and the size of a `Response`. -/
structure Machine where
  stack : Nat
  elemSize : Nat

def ISIZE_MAX : Nat := 2 ^ 63 - 1

/-- A parser; its state are the numbers of elements that room was reserved for. -/
abbrev Parser := Proc Halt (List Nat)

def orPanic {α : Type} : Option α → Parser α
  | some a => pure a
  | none => Proc.fail (.panic .slice)

def addUsize (a b : Nat) : Parser Nat :=
  if a + b < 2 ^ 64 then pure (a + b) else Proc.fail (.panic .addOverflow)

def withCapacity (m : Machine) (count : Nat) : Parser Unit :=
  if count * m.elemSize ≤ ISIZE_MAX then Proc.modify (count :: ·)
  else Proc.fail (.panic .capacityOverflow)

/-- The offset of the end of the first line, and the line without its first byte. -/
def header (input : Str) : Parser (Nat × Str) := do
  let crlf ← match findCrlf input with
    | some i => pure i
    | none => Proc.fail (.err .incomplete)
  let text ← orPanic (sliceBetween input 1 crlf)
  return (crlf, text)

def parseSimpleString (input : Str) : Parser (Response × Nat) := do
  let (crlf, msg) ← header input
  return (.ok msg, crlf + 2)

def parseError (input : Str) : Parser (Response × Nat) := do
  let (crlf, msg) ← header input
  return (.error (("ERR ".toList.isPrefixOf? msg).getD msg), crlf + 2)

def parseInteger (input : Str) : Parser (Response × Nat) := do
  let (crlf, text) ← header input
  match parseI64 text with
  | some n => return (.integer n, crlf + 2)
  | none => Proc.fail (.err (.invalidInteger text))

def parseBulk (input : Str) : Parser (Response × Nat) := do
  let (crlf, text) ← header input
  match parseI64 text with
  | none => Proc.fail (.err (.invalidBulkLength text))
  | some len =>
    if len.toInt < 0 then return (.bulk none, crlf + 2)
    else
      let dataEnd ← addUsize (crlf + 2) len.toInt.toNat
      let total ← addUsize dataEnd 2
      if utf8Len input < total then Proc.fail (.err .incomplete)
      else
        -- the two bytes after the data are not looked at
        let data ← orPanic (sliceBetween input (crlf + 2) dataEnd)
        return (.bulk (some data), total)

def parseItems (parse : Str → Parser (Response × Nat)) (input : Str) :
    Nat → Nat → List Response → Parser (List Response × Nat)
  | 0, offset, items => pure (items.reverse, offset)
  | count + 1, offset, items =>
    if utf8Len input ≤ offset then Proc.fail (.err .incomplete)
    else do
      let rest ← orPanic (sliceFrom input offset)
      let (item, consumed) ← parse rest
      parseItems parse input count (offset + consumed) (item :: items)

def parseArray (m : Machine) (parse : Str → Parser (Response × Nat)) (input : Str) :
    Parser (Response × Nat) := do
  let (crlf, text) ← header input
  match parseU64 text with
  | none => Proc.fail (.err (.invalidBulkLength text))
  | some count =>
    withCapacity m count
    let (items, offset) ← parseItems parse input count (crlf + 2) []
    return (.array items, offset)

/-- The first byte of a character, as a character. -/
def firstByte (c : Char) : Char := Char.ofNat ((String.utf8EncodeChar c).headD 0).toNat

/-- Parse with room for `stack` nested calls. -/
def parseAt (m : Machine) : Nat → Str → Parser (Response × Nat)
  | 0, _ => Proc.fail (.panic .stackOverflow)
  | _ + 1, [] => Proc.fail (.err .incomplete)
  | stack + 1, c :: s =>
    if c = '+' then parseSimpleString (c :: s)
    else if c = '-' then parseError (c :: s)
    else if c = ':' then parseInteger (c :: s)
    else if c = '$' then parseBulk (c :: s)
    else if c = '*' then parseArray m (parseAt m stack) (c :: s)
    else Proc.fail (.err (.invalidPrefix (firstByte c)))

def Response.parse (m : Machine) (input : Str) : Parser (Response × Nat) := parseAt m m.stack input

/-! ### The first line -/

section Header

variable {c : Char} {a b t : Str} {log : List Nat}

theorem reads_header (hc : c.utf8Size = 1) (h : IsLine (c :: a)) (b : Str) :
    Reads (header (c :: (a ++ (CRLF ++ b)))) (1 + utf8Len a, a) log := by
  have hfind : findCrlf (c :: (a ++ (CRLF ++ b))) = some (utf8Len (c :: a)) := findCrlf_append h b
  have hslice : sliceBetween (c :: (a ++ (CRLF ++ b))) 1 (1 + utf8Len a) = some a :=
    sliceBetween_append [c] a (CRLF ++ b) (by simp [hc]) rfl
  have hlen : utf8Len (c :: a) = 1 + utf8Len a := by rw [String.utf8Len_cons, hc, Nat.add_comm]
  rw [header, hfind, hlen]
  refine reads_pure.bind (Reads.bind ?_ reads_pure)
  rw [hslice]
  exact reads_pure

@[simp] theorem utf8Len_crlf : utf8Len CRLF = 2 := by decide

theorem utf8Len_header (hc : c.utf8Size = 1) (a b : Str) :
    utf8Len (c :: (a ++ (CRLF ++ b))) = 1 + utf8Len a + 2 + utf8Len b := by
  rw [String.utf8Len_cons, String.utf8Len_append, String.utf8Len_append, hc, utf8Len_crlf]
  omega

theorem utf8Len_line (hc : c.utf8Size = 1) (a : Str) :
    utf8Len (c :: (a ++ CRLF)) = 1 + utf8Len a + 2 := by
  rw [String.utf8Len_cons, String.utf8Len_append, hc, utf8Len_crlf]
  omega

theorem header_cut (h : findCrlf t = none) {Q : Nat × Str → List Nat → Prop}
    {E : Halt → List Nat → Prop} (hE : E (.err .incomplete) log) : Post (header t) Q E log := by
  rw [header, h]
  exact Post.bind hE

end Header

theorem utf8Len_pos {s : Str} (h : s ≠ []) : 0 < utf8Len s :=
  Nat.pos_of_ne_zero fun hzero => h (String.utf8Len_eq_zero.mp hzero)

theorem post_parseItems_succ {parse : Str → Parser (Response × Nat)} {front t : Str} (ht : t ≠ [])
    {count : Nat} {items : List Response} {log : List Nat}
    {Q : List Response × Nat → List Nat → Prop} {E : Halt → List Nat → Prop} :
    Post (parseItems parse (front ++ t) (count + 1) (utf8Len front) items) Q E log ↔
      Post (parse t) (fun y log => Post (parseItems parse (front ++ t) count
        (utf8Len front + y.2) (y.1 :: items)) Q E log) E log := by
  have hpos := utf8Len_pos ht
  rw [parseItems, if_neg (by rw [String.utf8Len_append]; omega), sliceFrom_append, post_bind]
  exact post_bind

/-! ### Replies that are read back -/

mutual

/-- A property of a reply and of everything in it. -/
def Response.All (P : Response → Prop) : Response → Prop
  | .ok msg => P (.ok msg)
  | .error msg => P (.error msg)
  | .integer n => P (.integer n)
  | .bulk data => P (.bulk data)
  | .array items => P (.array items) ∧ AllItems P items

def AllItems (P : Response → Prop) : List Response → Prop
  | [] => True
  | item :: items => item.All P ∧ AllItems P items

end

mutual

def Response.depth : Response → Nat
  | .array items => depthItems items + 1
  | _ => 0

def depthItems : List Response → Nat
  | [] => 0
  | item :: items => max item.depth (depthItems items)

end

/-- A simple text has no end of a line in it. -/
def Response.IsSimple : Response → Prop
  | .ok msg => '\r' ∉ msg ∧ '\n' ∉ msg
  | .error msg => '\r' ∉ msg ∧ '\n' ∉ msg
  | _ => True

def Response.InMemory (m : Machine) : Response → Prop
  | .array items => items.length * m.elemSize ≤ ISIZE_MAX
  | _ => True

theorem serialize_ne_nil (r : Response) : r.serialize ≠ [] := by
  cases r with
  | bulk data => cases data <;> simp [Response.serialize]
  | _ => simp [Response.serialize]

theorem length_le_serializeItems (items : List Response) :
    items.length ≤ utf8Len (serializeItems items) := by
  induction items with
  | nil => exact Nat.zero_le _
  | cons item items ih =>
    have hpos := utf8Len_pos (serialize_ne_nil item)
    rw [serializeItems, String.utf8Len_append, length_cons]
    omega

theorem cr_not_mem_displayI64 (n : Int64) : '\r' ∉ displayI64 n := by
  have hdigits : '\r' ∉ decimal n.toInt.natAbs := not_mem_decimal (.inl (by decide))
  rw [displayI64]
  split
  · simp [hdigits]
  · exact hdigits

theorem isLine_cons_of_not_mem {c : Char} {a : Str} (hc : c ≠ '\r') (h : '\r' ∉ a) :
    IsLine (c :: a) :=
  isLine_of_not_mem (by simp [h, hc.symm])

theorem isLine_decimal {c : Char} (hc : c ≠ '\r') (n : Nat) : IsLine (c :: decimal n) :=
  isLine_cons_of_not_mem hc (not_mem_decimal (.inl (by decide)))

theorem parseI64_decimal {n : Nat} (h : n ≤ ISIZE_MAX) :
    ∃ i : Int64, parseI64 (decimal n) = some i ∧ i.toInt = n := by
  have hle : (n : Int) ≤ 2 ^ 63 - 1 := by
    have hmax : n ≤ 2 ^ 63 - 1 := h
    omega
  have htoInt : (Int64.ofInt n).toInt = n := Int64.toInt_ofInt_of_le (by omega) (by omega)
  refine ⟨Int64.ofInt n, ?_, htoInt⟩
  have hparse := parseI64_displayI64 (Int64.ofInt n)
  rwa [displayI64, htoInt, if_neg (by omega), Int.natAbs_natCast] at hparse

section Kinds

variable {m : Machine} {stack : Nat} {log : List Nat}

theorem reads_addUsize {x y : Nat} (h : x + y < 2 ^ 64) : Reads (addUsize x y) (x + y) log := by
  rw [addUsize, if_pos h]
  exact reads_pure

theorem reads_parseAt_ok {msg : Str} (h : '\r' ∉ msg) (rest : Str) :
    Reads (parseAt m (stack + 1) ((Response.ok msg).serialize ++ rest))
      (.ok msg, utf8Len (Response.ok msg).serialize) log := by
  have hread : Reads (header _) _ log := reads_header (by decide)
    (isLine_cons_of_not_mem (c := '+') (by decide) h) rest
  have hlen : utf8Len (Response.ok msg).serialize = 1 + utf8Len msg + 2 := by
    exact utf8Len_line (by decide) _
  rw [hlen, Response.serialize, cons_append, append_assoc, parseAt, if_pos rfl]
  exact hread.bind reads_pure

theorem reads_parseAt_error {msg : Str} (h : '\r' ∉ msg) (rest : Str) :
    Reads (parseAt m (stack + 1) ((Response.error msg).serialize ++ rest))
      (.error msg, utf8Len (Response.error msg).serialize) log := by
  have hmsg : '\r' ∉ "ERR ".toList ++ msg := by
    simp [h]
  have hread : Reads (header _) _ log := reads_header (by decide)
    (isLine_cons_of_not_mem (c := '-') (by decide) hmsg) rest
  have hlen : utf8Len (Response.error msg).serialize = 1 + utf8Len ("ERR ".toList ++ msg) + 2 := by
    exact utf8Len_line (by decide) _
  rw [hlen, Response.serialize, cons_append, append_assoc ("ERR ".toList ++ msg), parseAt,
    if_neg (by decide), if_pos rfl]
  exact hread.bind reads_pure

theorem reads_parseAt_integer (n : Int64) (rest : Str) :
    Reads (parseAt m (stack + 1) ((Response.integer n).serialize ++ rest))
      (.integer n, utf8Len (Response.integer n).serialize) log := by
  have hread : Reads (header _) _ log := reads_header (by decide)
    (isLine_cons_of_not_mem (c := ':') (by decide) (cr_not_mem_displayI64 n)) rest
  have hlen : utf8Len (Response.integer n).serialize = 1 + utf8Len (displayI64 n) + 2 := by
    exact utf8Len_line (by decide) _
  rw [hlen, Response.serialize, cons_append, append_assoc, parseAt, if_neg (by decide),
    if_neg (by decide), if_pos rfl]
  refine hread.bind ?_
  simp only [parseI64_displayI64]
  exact reads_pure

theorem reads_parseAt_nil (rest : Str) :
    Reads (parseAt m (stack + 1) ((Response.bulk none).serialize ++ rest))
      (.bulk none, utf8Len (Response.bulk none).serialize) log := by
  have hread : Reads (header _) _ log := reads_header (c := '$') (a := "-1".toList) (by decide)
    (isLine_of_not_mem (by decide)) rest
  rw [Response.serialize, cons_append, append_assoc, parseAt, if_neg (by decide),
    if_neg (by decide), if_neg (by decide), if_pos rfl]
  exact hread.bind reads_pure

theorem utf8Len_bulk (data : Str) : utf8Len (Response.bulk (some data)).serialize =
    1 + utf8Len (decimal (utf8Len data)) + 2 + utf8Len data + 2 := by
  have hlen := utf8Len_header (c := '$') (by decide) (decimal (utf8Len data)) (data ++ CRLF)
  simpa [Response.serialize, Nat.add_assoc] using hlen

theorem reads_parseAt_bulk {data rest : Str}
    (hsize : utf8Len ((Response.bulk (some data)).serialize ++ rest) ≤ ISIZE_MAX) :
    Reads (parseAt m (stack + 1) ((Response.bulk (some data)).serialize ++ rest))
      (.bulk (some data), utf8Len (Response.bulk (some data)).serialize) log := by
  have hline : IsLine ('$' :: decimal (utf8Len data)) := isLine_decimal (by decide) _
  have hinput : (Response.bulk (some data)).serialize ++ rest =
      '$' :: (decimal (utf8Len data) ++ (CRLF ++ (data ++ (CRLF ++ rest)))) := by
    simp [Response.serialize]
  have htotal := utf8Len_bulk data
  have hslice : sliceBetween ('$' :: (decimal (utf8Len data) ++ (CRLF ++ (data ++ (CRLF ++ rest)))))
      (1 + utf8Len (decimal (utf8Len data)) + 2)
      (1 + utf8Len (decimal (utf8Len data)) + 2 + utf8Len data) = some data := by
    have hfront := utf8Len_header (c := '$') (by decide) (decimal (utf8Len data)) []
    have hcut := sliceBetween_append ('$' :: (decimal (utf8Len data) ++ (CRLF ++ []))) data
      (CRLF ++ rest) hfront rfl
    simpa using hcut
  have hmax : ISIZE_MAX < 2 ^ 63 := by decide
  have hbound := hsize
  rw [String.utf8Len_append, htotal] at hbound
  obtain ⟨i, hi, hiInt⟩ := parseI64_decimal (show utf8Len data ≤ ISIZE_MAX by omega)
  rw [hinput] at hsize ⊢
  rw [htotal, parseAt, if_neg (by decide), if_neg (by decide), if_neg (by decide), if_pos rfl]
  refine (reads_header (by decide) hline _).bind ?_
  simp only [hi, hiInt]
  rw [if_neg (by omega), Int.toNat_natCast]
  refine (reads_addUsize (by omega)).bind ((reads_addUsize (by omega)).bind ?_)
  rw [if_neg, hslice]
  · exact reads_pure.bind reads_pure
  · have hlen := congrArg utf8Len hinput
    rw [String.utf8Len_append, htotal] at hlen
    omega

end Kinds

mutual

theorem parseAt_serialize {m : Machine} : (r : Response) → r.All Response.IsSimple →
    r.All (Response.InMemory m) → ∀ stack, r.depth < stack → ∀ rest log,
    utf8Len (r.serialize ++ rest) ≤ ISIZE_MAX →
    Post (parseAt m stack (r.serialize ++ rest)) (fun x _ => x = (r, utf8Len r.serialize))
      (fun _ _ => False) log
  | .ok msg, hsimple, _, stack + 1, _, rest, log, _ =>
      (reads_parseAt_ok hsimple.1 rest).post.mpr rfl
  | .error msg, hsimple, _, stack + 1, _, rest, log, _ =>
    (reads_parseAt_error hsimple.1 rest).post.mpr rfl
  | .integer n, _, _, stack + 1, _, rest, log, _ => (reads_parseAt_integer n rest).post.mpr rfl
  | .bulk none, _, _, stack + 1, _, rest, log, _ => (reads_parseAt_nil rest).post.mpr rfl
  | .bulk (some data), _, _, stack + 1, _, rest, log, hsize =>
      (reads_parseAt_bulk hsize).post.mpr rfl
  | .array items, hsimple, hmemory, stack + 1, hdepth, rest, log, hsize => by
    have hinput : (Response.array items).serialize ++ rest =
        '*' :: (decimal items.length ++ (CRLF ++ (serializeItems items ++ rest))) := by
      simp [Response.serialize]
    have hfront : '*' :: (decimal items.length ++ (CRLF ++ (serializeItems items ++ rest))) =
        '*' :: (decimal items.length ++ CRLF) ++ (serializeItems items ++ rest) := by
      simp
    have hcount : items.length < 2 ^ 64 := by
      have hmax : ISIZE_MAX < 2 ^ 64 := by decide
      have hle := length_le_serializeItems items
      rw [hinput, utf8Len_header (by decide), String.utf8Len_append] at hsize
      omega
    have hitems := parseItems_serialize items hsimple.2 hmemory.2 stack (by
      rw [Response.depth] at hdepth
      omega) ('*' :: (decimal items.length ++ CRLF)) rest [] (items.length :: log) (by
      rw [← hfront, ← hinput]
      exact hsize)
    rw [← hfront, utf8Len_line (by decide)] at hitems
    rw [hinput, parseAt, if_neg (by decide), if_neg (by decide), if_neg (by decide),
      if_neg (by decide), if_pos rfl]
    refine (reads_header (by decide) (isLine_decimal (by decide) _) _).post_bind.mpr ?_
    simp only [parseU64_decimal hcount]
    rw [withCapacity, if_pos (show items.length * m.elemSize ≤ ISIZE_MAX from hmemory.1)]
    refine Post.bind (post_modify.mpr (Post.bind (hitems.mono ?_ fun _ _ he => he)))
    rintro - log' rfl
    refine post_pure.mpr (Prod.ext rfl ?_)
    rw [Response.serialize, append_assoc, utf8Len_header (by decide)]

theorem parseItems_serialize {m : Machine} : (items : List Response) →
    AllItems Response.IsSimple items → AllItems (Response.InMemory m) items → ∀ stack,
    depthItems items < stack → ∀ front rest acc log,
    utf8Len (front ++ (serializeItems items ++ rest)) ≤ ISIZE_MAX →
    Post (parseItems (parseAt m stack) (front ++ (serializeItems items ++ rest)) items.length
      (utf8Len front) acc)
      (fun x _ => x = (acc.reverse ++ items, utf8Len front + utf8Len (serializeItems items)))
      (fun _ _ => False) log
  | [], _, _, _, _, front, rest, acc, log, _ => by
    refine post_pure.mpr (Prod.ext ?_ ?_)
    · exact (List.append_nil _).symm
    · rfl
  | item :: items, hsimple, hmemory, stack, hdepth, front, rest, acc, log, hsize => by
    have hinput : front ++ (serializeItems (item :: items) ++ rest) =
        front ++ (item.serialize ++ (serializeItems items ++ rest)) := by
      simp [serializeItems]
    have hnext : front ++ (item.serialize ++ (serializeItems items ++ rest)) =
        front ++ item.serialize ++ (serializeItems items ++ rest) := by
      simp
    rw [depthItems, Nat.max_lt] at hdepth
    rw [hinput] at hsize ⊢
    have hitem := parseAt_serialize item hsimple.1 hmemory.1 stack hdepth.1
      (serializeItems items ++ rest) log (by
        rw [String.utf8Len_append] at hsize
        omega)
    have hne : item.serialize ++ (serializeItems items ++ rest) ≠ [] := by
      simp [serialize_ne_nil]
    refine (post_parseItems_succ hne).mpr (hitem.mono ?_ fun _ _ he => he)
    rintro - log' rfl
    have hrest := parseItems_serialize items hsimple.2 hmemory.2 stack hdepth.2
      (front ++ item.serialize) rest (item :: acc) log' (hnext ▸ hsize)
    rw [← hnext, String.utf8Len_append] at hrest
    refine hrest.mono ?_ fun _ _ he => he
    rintro - log'' rfl
    refine Prod.ext ?_ ?_
    · simp
    · simp [serializeItems, Nat.add_assoc]

end

/-! ### The beginning of a reply -/

/-- The beginning of a text, and not all of it. -/
def StrictPrefix (t s : Str) : Prop := t <+: s ∧ t ≠ s

theorem StrictPrefix.utf8Len_lt {t s : Str} (h : StrictPrefix t s) : utf8Len t < utf8Len s := by
  obtain ⟨⟨u, rfl⟩, hne⟩ := h
  have hu : u ≠ [] := by
    rintro rfl
    simp at hne
  rw [String.utf8Len_append]
  exact Nat.lt_add_of_pos_right (utf8Len_pos hu)

theorem StrictPrefix.append {t a b : Str} (h : StrictPrefix t (a ++ b)) :
    StrictPrefix t a ∨ ∃ u, t = a ++ u ∧ StrictPrefix u b := by
  obtain ⟨hpre, hne⟩ := h
  rcases prefix_or_prefix_of_prefix hpre (prefix_append a b) with hta | ⟨u, rfl⟩
  · by_cases heq : t = a
    · refine .inr ⟨[], by simp [heq], nil_prefix, ?_⟩
      rintro rfl
      exact hne (by simp [heq])
    · exact .inl ⟨hta, heq⟩
  · exact .inr ⟨u, rfl, (prefix_append_right_inj a).mp hpre, fun heq => hne (by rw [heq])⟩

theorem not_strictPrefix_nil {t : Str} : ¬ StrictPrefix t [] :=
  fun h => h.2 (List.prefix_nil.mp h.1)

section Cut

variable {m : Machine} {stack : Nat} {log : List Nat} {c : Char} {a t : Str}

theorem StrictPrefix.line (h : StrictPrefix t (c :: (a ++ CRLF))) (hline : IsLine (c :: a)) :
    findCrlf t = none := by
  have hsplit : c :: (a ++ CRLF) = (c :: a ++ ['\r']) ++ ['\n'] := by simp [CRLF]
  rw [hsplit] at h
  rcases prefix_concat_iff.mp h.1 with heq | hpre
  · exact absurd heq h.2
  · exact findCrlf_of_prefix hline hpre

theorem parseAt_of_no_line {Q : Response × Nat → List Nat → Prop} {E : Halt → List Nat → Prop}
    (hc : c ∈ ['+', '-', ':', '$', '*']) (h : findCrlf (c :: t) = none)
    (hE : E (.err .incomplete) log) : Post (parseAt m (stack + 1) (c :: t)) Q E log := by
  simp only [mem_cons, not_mem_nil, or_false] at hc
  rcases hc with rfl | rfl | rfl | rfl | rfl
  all_goals exact Post.bind (header_cut h hE)

theorem StrictPrefix.parseAt_line (h : StrictPrefix t (c :: (a ++ CRLF)))
    (hc : c ∈ ['+', '-', ':', '$', '*']) (hline : IsLine (c :: a)) :
    Post (parseAt m (stack + 1) t) (fun _ _ => False) (fun e _ => e = .err .incomplete) log := by
  have hfind := h.line hline
  rcases t with _ | ⟨d, t⟩
  · exact rfl
  · obtain rfl : d = c := (cons_prefix_cons.mp h.1).1
    exact parseAt_of_no_line hc hfind rfl

theorem parseAt_bulk_cut {data : Str}
    (hsize : utf8Len (Response.bulk (some data)).serialize ≤ ISIZE_MAX)
    (h : StrictPrefix t (Response.bulk (some data)).serialize) :
    Post (parseAt m (stack + 1) t) (fun _ _ => False) (fun e _ => e = .err .incomplete) log := by
  have hline : IsLine ('$' :: decimal (utf8Len data)) := isLine_decimal (by decide) _
  have hsplit : (Response.bulk (some data)).serialize =
      '$' :: (decimal (utf8Len data) ++ CRLF) ++ (data ++ CRLF) := by
    simp [Response.serialize]
  rw [hsplit] at h
  rcases h.append with h | ⟨u, rfl, hu⟩
  · exact h.parseAt_line (by decide) hline
  rw [utf8Len_bulk] at hsize
  obtain ⟨i, hi, hiInt⟩ := parseI64_decimal (show utf8Len data ≤ ISIZE_MAX by omega)
  have hlt := hu.utf8Len_lt
  have hmax : ISIZE_MAX < 2 ^ 63 := by decide
  rw [String.utf8Len_append, utf8Len_crlf] at hlt
  rw [cons_append, append_assoc, parseAt, if_neg (by decide), if_neg (by decide),
    if_neg (by decide), if_pos rfl]
  refine (reads_header (by decide) hline _).post_bind.mpr ?_
  simp only [hi, hiInt]
  refine Post.bind ((reads_addUsize (by omega)).post.mpr (Post.bind ((reads_addUsize
    (by omega)).post.mpr ?_)))
  rw [if_pos]
  · exact rfl
  · rw [utf8Len_header (by decide)]
    omega

end Cut

mutual

theorem parseAt_cut {m : Machine} : (r : Response) → r.All Response.IsSimple →
    r.All (Response.InMemory m) → ∀ stack, r.depth < stack → ∀ t log,
    utf8Len r.serialize ≤ ISIZE_MAX → StrictPrefix t r.serialize →
    Post (parseAt m stack t) (fun _ _ => False) (fun e _ => e = .err .incomplete) log
  | .ok msg, hsimple, _, stack + 1, _, t, log, _, h =>
    h.parseAt_line (by decide) (isLine_cons_of_not_mem (by decide) hsimple.1)
  | .error msg, hsimple, _, stack + 1, _, t, log, _, h =>
    h.parseAt_line (by decide) (isLine_cons_of_not_mem (by decide) (by simp [hsimple.1]))
  | .integer n, _, _, stack + 1, _, t, log, _, h =>
    h.parseAt_line (by decide) (isLine_cons_of_not_mem (by decide) (cr_not_mem_displayI64 n))
  | .bulk none, _, _, stack + 1, _, t, log, _, h =>
    h.parseAt_line (by decide) (isLine_of_not_mem (by decide))
  | .bulk (some data), _, _, stack + 1, _, t, log, hsize, h => parseAt_bulk_cut hsize h
  | .array items, hsimple, hmemory, stack + 1, hdepth, t, log, hsize, h => by
    have hline : IsLine ('*' :: decimal items.length) := isLine_decimal (by decide) _
    have hsplit : (Response.array items).serialize =
        '*' :: (decimal items.length ++ CRLF) ++ serializeItems items := by
      simp [Response.serialize]
    rw [hsplit] at h hsize
    rcases h.append with h | ⟨u, rfl, hu⟩
    · exact h.parseAt_line (by decide) hline
    rw [String.utf8Len_append] at hsize
    have hcount : items.length < 2 ^ 64 := by
      have hmax : ISIZE_MAX < 2 ^ 64 := by decide
      have hle := length_le_serializeItems items
      omega
    rw [Response.depth] at hdepth
    have hitems := parseItems_cut items hsimple.2 hmemory.2 stack (by omega)
      ('*' :: (decimal items.length ++ CRLF)) u [] (items.length :: log) (by omega) hu
    rw [utf8Len_line (by decide), cons_append, append_assoc] at hitems
    rw [cons_append, append_assoc, parseAt, if_neg (by decide), if_neg (by decide),
      if_neg (by decide), if_neg (by decide), if_pos rfl]
    refine (reads_header (by decide) hline _).post_bind.mpr ?_
    simp only [parseU64_decimal hcount]
    rw [withCapacity, if_pos (show items.length * m.elemSize ≤ ISIZE_MAX from hmemory.1)]
    exact Post.bind (post_modify.mpr (Post.bind (hitems.mono (fun _ _ hf => hf.elim)
      fun _ _ he => he)))

theorem parseItems_cut {m : Machine} : (items : List Response) →
    AllItems Response.IsSimple items → AllItems (Response.InMemory m) items → ∀ stack,
    depthItems items < stack → ∀ front t acc log,
    utf8Len (serializeItems items) ≤ ISIZE_MAX → StrictPrefix t (serializeItems items) →
    Post (parseItems (parseAt m stack) (front ++ t) items.length (utf8Len front) acc)
      (fun _ _ => False) (fun e _ => e = .err .incomplete) log
  | [], _, _, _, _, front, t, acc, log, _, h => absurd h not_strictPrefix_nil
  | item :: items, hsimple, hmemory, stack, hdepth, front, t, acc, log, hsize, h => by
    rw [serializeItems] at h hsize
    rw [String.utf8Len_append] at hsize
    rw [depthItems, Nat.max_lt] at hdepth
    by_cases hnil : t = []
    · rw [List.length_cons, parseItems, if_pos (by simp [hnil])]
      exact rfl
    refine (post_parseItems_succ hnil).mpr ?_
    rcases h.append with h | ⟨u, rfl, hu⟩
    · -- the cut is in this element
      exact (parseAt_cut item hsimple.1 hmemory.1 stack hdepth.1 t log (by omega) h).mono
        (fun _ _ hf => hf.elim) fun _ _ he => he
    · have hlt := hu.utf8Len_lt
      have hitem := parseAt_serialize item hsimple.1 hmemory.1 stack hdepth.1 u log (by
        rw [String.utf8Len_append]
        omega)
      refine hitem.mono ?_ fun _ _ hf => hf.elim
      rintro - log' rfl
      have hrest := parseItems_cut items hsimple.2 hmemory.2 stack hdepth.2
        (front ++ item.serialize) u (item :: acc) log' (by omega) hu
      rwa [List.append_assoc, String.utf8Len_append] at hrest

end

/-- **Replies on the wire.**  A reply whose simple texts have no end of a line in
them is read back, whatever follows it, and of what is only the beginning of one
the parser says so. -/
theorem response_codec {m : Machine} {r : Response} (hsimple : r.All Response.IsSimple)
    (hmemory : r.All (Response.InMemory m)) (hdepth : r.depth < m.stack) :
    (∀ rest log, utf8Len (r.serialize ++ rest) ≤ ISIZE_MAX →
      (Response.parse m (r.serialize ++ rest) log).res = .ok (r, utf8Len r.serialize)) ∧
    ∀ t log, utf8Len r.serialize ≤ ISIZE_MAX → StrictPrefix t r.serialize →
      (Response.parse m t log).res = .error (.err .incomplete) := by
  constructor
  · intro rest log hsize
    obtain ⟨x, hres, rfl⟩ :=
      (parseAt_serialize r hsimple hmemory m.stack hdepth rest log hsize).exists_ok
    exact hres
  · intro t log hsize h
    have hcut := parseAt_cut r hsimple hmemory m.stack hdepth t log hsize h
    rcases hres : (Response.parse m t log).res with e | x
    · rw [hcut.of_error hres]
    · exact (hcut.of_ok hres).elim

theorem response_codec_nested :
    let r := Response.array [.bulk (some "a\r\nb".toList), .integer (-7)]
    (∀ rest log, utf8Len (r.serialize ++ rest) ≤ ISIZE_MAX →
      (Response.parse ⟨2, 32⟩ (r.serialize ++ rest) log).res = .ok (r, utf8Len r.serialize)) ∧
    ∀ t log, utf8Len r.serialize ≤ ISIZE_MAX → StrictPrefix t r.serialize →
      (Response.parse ⟨2, 32⟩ t log).res = .error (.err .incomplete) :=
  response_codec ⟨trivial, trivial, trivial, trivial⟩
    ⟨show 2 * 32 ≤ ISIZE_MAX by decide, trivial, trivial, trivial⟩ (by decide)

end Protocol

end GrumpyDB
