/-
Queues kept as files of JSON lines.

The hint backlog and the queue of read-repair intents are the same code on different records.
Neither `append` nor `drain` takes a lock, so both are programs of single file-system steps.
Only `drain` shortens a file and it has but one caller, so reading in pieces is the same as
reading at the moment the end is seen, and is one step here.
-/
import GrumpyDB.Lib.File
import Mathlib.Data.Countable.Basic
import Mathlib.Logic.Equiv.List

namespace GrumpyDB

open List

/-- What reading or writing a file can fail with. -/
inductive IoError where
  | notFound
  | invalidData
  deriving DecidableEq

/-- The characters `trim` takes off (Unicode White_Space). -/
def isWhitespace (c : Char) : Bool :=
  let n := c.toNat
  (9 ≤ n && n ≤ 13) || n == 0x20 || n == 0x85 || n == 0xA0 || n == 0x1680 ||
    (0x2000 ≤ n && n ≤ 0x200A) || n == 0x2028 || n == 0x2029 || n == 0x202F || n == 0x205F ||
    n == 0x3000

def isBlank (line : String) : Bool := line.toList.all isWhitespace

/-- JSON text of records as the serializer writes and reads it: one line that
is not blank. -/
class JsonText (ρ : Type) where
  toText : ρ → String
  fromText : String → Option ρ
  fromText_toText : ∀ r, fromText (toText r) = some r
  lineFeed_not_mem : ∀ r, 10 ∉ utf8 (toText r)
  getLast?_ne : ∀ r, (utf8 (toText r)).getLast? ≠ some 13
  not_blank : ∀ r, isBlank (toText r) = false

theorem JsonText.nonempty (ρ : Type) [Countable ρ] : Nonempty (JsonText ρ) := by
  classical
  -- the `n`-th record is written as `n + 1` times the letter x
  obtain ⟨number, hnumber⟩ := Countable.exists_injective_nat ρ
  let text (r : ρ) : String := String.ofList (replicate (number r + 1) 'x')
  have hbytes : ∀ r, utf8 (text r) = replicate (number r + 1) 120 := by
    intro r
    simp only [utf8, text, String.toUTF8_eq_toByteArray, String.toByteArray_ofList,
      utf8Encode, data_toByteArray, toList_toArray, flatMap_replicate]
    exact flatten_replicate_singleton
  have hinj : ∀ r r', text r = text r' → r = r' := by
    intro r r' h
    have hlen := congrArg length (congrArg utf8 h)
    rw [hbytes, hbytes, length_replicate, length_replicate] at hlen
    exact hnumber (Nat.succ_injective hlen)
  refine ⟨⟨text, fun s => if h : ∃ r, text r = s then some h.choose else none, ?_, ?_, ?_, ?_⟩⟩
  · intro r
    have hex : ∃ r', text r' = text r := ⟨r, rfl⟩
    rw [dif_pos hex, hinj _ _ hex.choose_spec]
  · intro r
    rw [hbytes, mem_replicate]
    exact fun h => absurd h.2 (by decide)
  · intro r
    rw [hbytes, getLast?_replicate]
    simp
  · intro r
    simp [isBlank, text, isWhitespace]

namespace JsonLines

variable {ρ : Type} [JsonText ρ]

open JsonText FileProg

def append (r : ρ) : FileProg Unit := do
  let fd ← openAppend
  writeAppend fd (utf8 (toText r))
  writeAppend fd [10]

/-- The lines of a file, as `BufRead::lines` gives them: without their line feed,
and without a carriage return before it; what follows the last line feed is a
line unless it is empty.  `cur` is the line under way. -/
def splitLines : List UInt8 → List UInt8 → List (List UInt8)
  | cur, [] => if cur = [] then [] else [cur]
  | cur, b :: bs =>
    if b = 10 then
      (if cur.getLast? = some 13 then cur.dropLast else cur) :: splitLines [] bs
    else splitLines (cur ++ [b]) bs

def sortLines (limit : Nat) :
    List (List UInt8) → List ρ → List String → Except IoError (List ρ × List String)
  | [], drained, keep => .ok (drained, keep)
  | bytes :: lines, drained, keep =>
    match fromUtf8? bytes with
    | none => .error .invalidData
    | some line =>
      if isBlank line then sortLines limit lines drained keep
      else if drained.length < limit then
        match fromText line with
        | none => .error .invalidData
        | some r => sortLines limit lines (drained ++ [r]) keep
      else sortLines limit lines drained (keep ++ [line])

def writeLines (fd : Nat) : Nat → List String → FileProg Unit
  | _, [] => pure ()
  | pos, line :: lines => do
    writeAt fd pos (utf8 line)
    writeAt fd (pos + (utf8 line).length) [10]
    writeLines fd (pos + (utf8 line).length + 1) lines

/-- Drain up to `limit` records and write the remaining lines back. -/
def drain (ρ : Type) [JsonText ρ] (limit : Nat) : FileProg (Except IoError (List ρ)) :=
  if limit = 0 then pure (.ok [])
  else do
    let found ← present
    if !found then return .ok []
    let opened ← openRead
    match opened with
    | none => return .error .notFound
    | some fd =>
      let bytes ← readToEnd fd
      match sortLines limit (splitLines [] bytes) [] [] with
      | .error e => return .error e
      | .ok (drained, []) =>
        let removed ← unlink
        return if removed then .ok drained else .error .notFound
      | .ok (drained, keep) =>
        let wf ← openTruncate
        writeLines wf 0 keep
        return .ok drained

/-! ### Undisturbed calls -/

def lineOf (r : ρ) : List UInt8 := utf8 (toText r) ++ [10]

/-- The file holds these records, one to a line. -/
def Queued (f : Named) (rs : List ρ) : Prop := f.Holds (rs.flatMap lineOf)

theorem queued_unused : Queued Named.unused ([] : List ρ) := Named.holds_unused

omit [JsonText ρ] in
theorem splitLines_append {line : List UInt8} (hlf : 10 ∉ line) (cur bs : List UInt8) :
    splitLines cur (line ++ 10 :: bs) =
      (if (cur ++ line).getLast? = some 13 then (cur ++ line).dropLast else cur ++ line) ::
        splitLines [] bs := by
  induction line generalizing cur with
  | nil => simp [splitLines]
  | cons b line ih =>
    obtain ⟨hb, hline⟩ : b ≠ 10 ∧ 10 ∉ line := by simpa [eq_comm] using hlf
    rw [cons_append, splitLines, if_neg hb, ih hline]
    simp

theorem splitLines_lineOf (r : ρ) (bs : List UInt8) :
    splitLines [] (lineOf r ++ bs) = utf8 (toText r) :: splitLines [] bs := by
  have h := splitLines_append (lineFeed_not_mem r) [] bs
  rw [nil_append, if_neg (getLast?_ne r)] at h
  simpa [lineOf] using h

theorem splitLines_flatMap (rs : List ρ) :
    splitLines [] (rs.flatMap lineOf) = rs.map fun r => utf8 (toText r) := by
  induction rs with
  | nil => rfl
  | cons r rs ih => rw [flatMap_cons, splitLines_lineOf, ih, map_cons]

theorem sortLines_texts (limit : Nat) (rs : List ρ) (drained : List ρ) (keep : List String)
    (hkeep : drained.length < limit → keep = []) :
    sortLines limit (rs.map fun r => utf8 (toText r)) drained keep =
      .ok (drained ++ rs.take (limit - drained.length),
        keep ++ (rs.drop (limit - drained.length)).map toText) := by
  induction rs generalizing drained keep with
  | nil => simp [sortLines]
  | cons r rs ih =>
    rw [map_cons, sortLines, fromUtf8?_utf8]
    simp only [not_blank r, fromText_toText, Bool.false_eq_true, if_false]
    by_cases hlt : drained.length < limit
    · obtain ⟨n, hn⟩ : ∃ n, limit - drained.length = n + 1 := ⟨limit - drained.length - 1, by omega⟩
      have hn' : limit - (drained ++ [r]).length = n := by
        rw [length_append, length_singleton]
        omega
      rw [if_pos hlt, ih _ _ (fun _ => hkeep hlt), hn', hn]
      simp
    · have hzero : limit - drained.length = 0 := by omega
      rw [if_neg hlt, ih _ _ (fun h => absurd h hlt), hzero]
      simp

variable {f : Named}

theorem exec_writeLines {fd : Nat} {bs : List UInt8} (h : f.Holds bs) (hfd : f.linked = some fd)
    (lines : List String) :
    ((writeLines fd bs.length lines).exec f).2.Holds
      (bs ++ lines.flatMap fun line => utf8 line ++ [10]) := by
  induction lines generalizing f bs with
  | nil => simpa [writeLines] using h
  | cons line lines ih =>
    -- the text, then the line feed
    obtain ⟨h₁, hfd₁⟩ := h.writeAt hfd (utf8 line)
    obtain ⟨h₂, hfd₂⟩ := h₁.writeAt hfd₁ [10]
    rw [length_append] at h₂ hfd₂
    have hlast := ih h₂ hfd₂
    simp only [length_append, length_singleton] at hlast
    rw [flatMap_cons, ← append_assoc, ← append_assoc]
    exact hlast

/-- **Append, undisturbed**, queues the record last. -/
theorem append_spec {rs : List ρ} (h : Queued f rs) (r : ρ) :
    Queued ((append r).exec f).2 (rs ++ [r]) := by
  obtain ⟨h₁, hfd₁⟩ := h.openAppend
  obtain ⟨h₂, hfd₂⟩ := h₁.writeAppend hfd₁ (utf8 (toText r))
  obtain ⟨h₃, -⟩ := h₂.writeAppend hfd₂ [10]
  have hend : (rs ++ [r]).flatMap lineOf = rs.flatMap lineOf ++ utf8 (toText r) ++ [10] := by
    simp [lineOf]
  rw [Queued, hend]
  exact h₃

/-- **Drain, undisturbed**, takes the first records off. -/
theorem drain_spec {rs : List ρ} (h : Queued f rs) {limit : Nat} (hlimit : 0 < limit) :
    ((drain ρ limit).exec f).1 = .ok (rs.take limit) ∧
      Queued ((drain ρ limit).exec f).2 (rs.drop limit) := by
  rcases hl : f.linked with _ | fd
  · -- no file: nothing was queued
    have hbytes : [] = rs.flatMap lineOf := by rw [← h.content_eq, Named.content, hl]
    have hnil : rs = [] := by
      rcases rs with _ | ⟨r, rs⟩
      · rfl
      · simp [lineOf] at hbytes
    have hrun : (drain ρ limit).exec f = (.ok [], f) := by
      simp [drain, hlimit.ne', hl]
    subst hnil
    rw [hrun]
    exact ⟨by simp, by simpa using h⟩
  · have hsort : sortLines limit (splitLines [] (f.data fd)) [] [] =
        .ok (rs.take limit, (rs.drop limit).map toText) := by
      rw [h.data hl, splitLines_flatMap, sortLines_texts limit rs [] [] fun _ => rfl]
      simp
    rcases hkeep : (rs.drop limit).map toText with _ | ⟨line, lines⟩
    · -- nothing is kept: the file goes
      have hrun : (drain ρ limit).exec f = (.ok (rs.take limit), { f with linked := none }) := by
        simp [drain, hlimit.ne', hl, hsort, hkeep]
      have hdrop : rs.drop limit = [] := map_eq_nil_iff.mp hkeep
      rw [hrun, hdrop]
      exact ⟨rfl, by simp, rfl⟩
    · have hrun : (drain ρ limit).exec f = (.ok (rs.take limit),
          ((writeLines (Named.perform .openTruncate f).1 0 (line :: lines)).exec
            (Named.perform .openTruncate f).2).2) := by
        simp [drain, hlimit.ne', Named.perform, hl, hsort, hkeep]
      obtain ⟨h₁, hfd₁⟩ := h.openTruncate
      have h₂ := exec_writeLines h₁ hfd₁ (line :: lines)
      rw [hrun]
      refine ⟨rfl, ?_⟩
      have hlines : (rs.drop limit).flatMap lineOf
          = (line :: lines).flatMap fun line => utf8 line ++ [10] := by
        rw [← hkeep, flatMap_map]
        rfl
      rw [Queued, hlines]
      exact h₂

end JsonLines

end GrumpyDB
