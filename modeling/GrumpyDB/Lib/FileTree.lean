/-
A tree of directories and files, and the paths that lead into it.

Joining a text to a path appends the names between its slashes, and starts again at the root if
the text begins with a slash; nothing is resolved before the path is used. Following it skips
empty names and ".", goes up at "..", and needs every directory on the way (`walk`). There are
no links.
-/
import GrumpyDB.Lib.Bytes
import Mathlib.Data.List.Infix

namespace GrumpyDB

open List

/-- A place in the tree: the names from the root down. -/
abbrev Place := List String

/-- A path as a program puts it together. -/
structure FilePath where
  start : Place
  names : List String

def segments (s : String) : List String := (s.toList.splitOn '/').map String.ofList

namespace FilePath

def ofPlace (l : Place) : FilePath := ⟨l, []⟩

def join (p : FilePath) (s : String) : FilePath :=
  if s.toList.head? = some '/' then ⟨[], segments s⟩ else ⟨p.start, p.names ++ segments s⟩

def place (p : FilePath) : Place :=
  p.names.foldl (fun l name =>
    if name = "" ∨ name = "." then l else if name = ".." then l.dropLast else l ++ [name]) p.start

def display (p : FilePath) : String := "/" ++ "/".intercalate (p.start ++ p.names)

end FilePath

inductive FsError where
  | notFound
  | notADirectory
  | isADirectory
  /-- A text that is not UTF-8. -/
  | invalidData
  deriving DecidableEq, Repr

def FsError.display : FsError → String
  | notFound => "No such file or directory (os error 2)"
  | notADirectory => "Not a directory (os error 20)"
  | isADirectory => "Is a directory (os error 21)"
  | invalidData => "stream did not contain valid UTF-8"

/-- Directories and files with their bytes. -/
structure FileTree where
  files : Place → Option (List UInt8)
  dirs : Place → Bool

namespace FileTree

def walk (t : FileTree) (l : Place) : List String → Option Place
  | [] => some l
  | name :: rest =>
    if name = "" ∨ name = "." then t.walk l rest
    else if name = ".." then t.walk l.dropLast rest
    else if rest = [] then some (l ++ [name])
    else if t.dirs (l ++ [name]) then t.walk (l ++ [name]) rest
    else none

def locate (t : FileTree) (p : FilePath) : Option Place := t.walk p.start p.names

def holds (t : FileTree) (l : Place) : Bool := (t.files l).isSome || t.dirs l

def pathExists (t : FileTree) (p : FilePath) : Bool := (t.locate p).any t.holds

def read (t : FileTree) (p : FilePath) : Except FsError (List UInt8) :=
  match t.locate p with
  | none => .error .notFound
  | some l =>
    match t.files l with
    | some bytes => .ok bytes
    | none => .error (if t.dirs l then .isADirectory else .notFound)

def readText (t : FileTree) (p : FilePath) : Except FsError String :=
  match t.read p with
  | .error e => .error e
  | .ok bytes =>
    match fromUtf8? bytes with
    | some text => .ok text
    | none => .error .invalidData

def setFile (t : FileTree) (l : Place) (bytes : Option (List UInt8)) : FileTree :=
  { t with files := Function.update t.files l bytes }

/-- Can a file be put here? -/
def checkTarget (t : FileTree) (l : Place) : Except FsError Unit :=
  if t.dirs l then .error .isADirectory
  else if t.dirs l.dropLast then .ok ()
  else .error .notFound

def write (t : FileTree) (p : FilePath) (bytes : List UInt8) : Except FsError FileTree :=
  match t.locate p with
  | none => .error .notFound
  | some l => (t.checkTarget l).map fun _ => t.setFile l (some bytes)

def remove (t : FileTree) (p : FilePath) : Except FsError FileTree :=
  match t.locate p with
  | none => .error .notFound
  | some l =>
    if (t.files l).isSome then .ok (t.setFile l none)
    else if t.dirs l then .error .isADirectory
    else .error .notFound

def rename (t : FileTree) (p q : FilePath) : Except FsError FileTree :=
  match t.locate p, t.locate q with
  | some l, some m =>
    match t.files l with
    | some bytes => (t.checkTarget m).map fun _ => (t.setFile l none).setFile m (some bytes)
    | none => .error .notFound
  | _, _ => .error .notFound

def addDirs (t : FileTree) (l : Place) : FileTree :=
  { t with dirs := fun m => t.dirs m || m.isPrefixOf l }

def createDirAll (t : FileTree) (l : Place) : Except FsError FileTree :=
  if l.inits.any fun m => (t.files m).isSome then .error .notADirectory
  else .ok (t.addDirs l)

def removeDirAll (t : FileTree) (l : Place) : Except FsError FileTree :=
  if t.dirs l then
    .ok ⟨fun m => if l.isPrefixOf m then none else t.files m, fun m => !l.isPrefixOf m && t.dirs m⟩
  else .error .notFound

/-- The names in a directory, in the order in which they are listed. -/
structure Lists (t : FileTree) (l : Place) (names : List String) : Prop where
  nodup : names.Nodup
  mem_iff : ∀ name, name ∈ names ↔ t.holds (l ++ [name]) = true

/-! ### Names that lead to the place they spell -/

/-- One name, and not one of those that are followed differently. -/
structure IsPlain (name : String) : Prop where
  noSlash : '/' ∉ name.toList
  ne_empty : name ≠ ""
  ne_dot : name ≠ "."
  ne_up : name ≠ ".."

variable {t t' : FileTree} {p q : FilePath} {l m : Place} {name : String} {bytes : List UInt8}

theorem append_sep_inj {α : Type} {sep : α} {a b x y : List α} (ha : sep ∉ a) (hb : sep ∉ b)
    (h : a ++ sep :: x = b ++ sep :: y) : a = b ∧ x = y := by
  induction a generalizing b with
  | nil =>
    rcases b with _ | ⟨c, b⟩
    · exact ⟨rfl, (cons.inj h).2⟩
    · exact absurd (mem_cons.mpr (.inl (cons.inj h).1)) hb
  | cons c a ih =>
    rcases b with _ | ⟨c', b⟩
    · exact absurd (mem_cons.mpr (.inl (cons.inj h).1.symm)) ha
    · obtain ⟨rfl, hrest⟩ := cons.inj h
      obtain ⟨rfl, rfl⟩ := ih (by simp_all) (by simp_all) hrest
      exact ⟨rfl, rfl⟩

theorem segments_of_not_mem (h : '/' ∉ name.toList) : segments name = [name] := by
  have hsplit : name.toList.splitOn '/' = [name.toList] :=
    splitOnP_eq_singleton fun c hc => by
      simpa using fun hslash : c = '/' => h (hslash ▸ hc)
  simp [segments, hsplit]

theorem locate_plain (h : IsPlain name) :
    t.locate ((FilePath.ofPlace l).join name) = some (l ++ [name]) := by
  have hhead : name.toList.head? ≠ some '/' := fun hslash => h.noSlash (mem_of_head? hslash)
  rw [FilePath.join, if_neg hhead, segments_of_not_mem h.noSlash]
  simp [locate, walk, FilePath.ofPlace, h.ne_empty, h.ne_dot, h.ne_up]

theorem place_join_plain (h : IsPlain name) : (p.join name).place = p.place ++ [name] := by
  have hhead : name.toList.head? ≠ some '/' := fun hslash => h.noSlash (mem_of_head? hslash)
  rw [FilePath.join, if_neg hhead, segments_of_not_mem h.noSlash]
  simp [FilePath.place, h.ne_empty, h.ne_dot, h.ne_up]

/-! ### What the steps do -/

theorem remove_eq_ok (h : t.remove p = .ok t') :
    ∃ l, t.locate p = some l ∧ t' = t.setFile l none := by
  rw [remove] at h
  rcases hl : t.locate p with _ | l
  · simp [hl] at h
  · refine ⟨l, rfl, ?_⟩
    simp only [hl] at h
    split at h
    · exact (Except.ok.inj h).symm
    · split at h <;> cases h

@[simp] theorem files_setFile_self (b : Option (List UInt8)) : (t.setFile l b).files l = b := by
  simp [setFile]

theorem files_setFile_ne {b : Option (List UInt8)} (h : m ≠ l) :
    (t.setFile l b).files m = t.files m := by
  simp [setFile, h]

@[simp] theorem dirs_setFile (b : Option (List UInt8)) : (t.setFile l b).dirs = t.dirs := rfl

@[simp] theorem files_addDirs : (t.addDirs l).files = t.files := rfl

theorem dirs_addDirs : (t.addDirs l).dirs m = true ↔ t.dirs m = true ∨ m <+: l := by
  simp [addDirs]

theorem createDirAll_eq_ok (h : ∀ m, m <+: l → t.files m = none) :
    t.createDirAll l = .ok (t.addDirs l) := by
  rw [createDirAll, if_neg]
  rw [any_eq_true]
  rintro ⟨m, hm, hsome⟩
  rw [h m ((mem_inits m l).mp hm)] at hsome
  cases hsome

theorem write_eq_ok_of (hl : t.locate p = some l) (hdir : t.dirs l = false)
    (hparent : t.dirs l.dropLast = true) : t.write p bytes = .ok (t.setFile l (some bytes)) := by
  simp [write, hl, checkTarget, hdir, hparent, Except.map]

theorem rename_eq_ok_of (hl : t.locate p = some l) (hm : t.locate q = some m)
    (hfile : t.files l = some bytes) (hdir : t.dirs m = false)
    (hparent : t.dirs m.dropLast = true) :
    t.rename p q = .ok ((t.setFile l none).setFile m (some bytes)) := by
  simp [rename, hl, hm, hfile, checkTarget, hdir, hparent, Except.map]

theorem read_eq_ok (hl : t.locate p = some l) (hfile : t.files l = some bytes) :
    t.read p = .ok bytes := by
  simp [read, hl, hfile]

theorem readText_eq_ok {text : String} (hl : t.locate p = some l)
    (hfile : t.files l = some (utf8 text)) : t.readText p = .ok text := by
  simp [readText, read_eq_ok hl hfile, fromUtf8?_utf8]

theorem readText_eq_error (hl : t.locate p = some l) (hfile : t.files l = none) :
    ∃ e, t.readText p = .error e := by
  simp [readText, read, hl, hfile]

theorem pathExists_eq_true (hl : t.locate p = some l) (hfile : t.files l = some bytes) :
    t.pathExists p = true := by
  simp [pathExists, hl, holds, hfile]

end FileTree

end GrumpyDB
