/-
One name of a directory, and the files it denotes over time.

A file lives as long as somebody has it open, whether or not the name still denotes it, so `Named`
keeps every file the name has denoted.
-/
import GrumpyDB.Lib.Prog
import GrumpyDB.Lib.Bytes

namespace GrumpyDB

structure Named where
  files : List (List UInt8)
  linked : Option Nat

/-- Steps on a file system that concern one name. -/
inductive FileOp where
  | present
  | openAppend
  /-- Open for reading, if there is a file. -/
  | openRead
  | readToEnd (fd : Nat)
  | writeAppend (fd : Nat) (bs : List UInt8)
  | writeAt (fd pos : Nat) (bs : List UInt8)
  | openTruncate
  /-- Take the name away, if it denotes a file. -/
  | unlink

def FileOp.Reply : FileOp → Type
  | present => Bool
  | openAppend => Nat
  | openRead => Option Nat
  | readToEnd _ => List UInt8
  | writeAppend _ _ => Unit
  | writeAt _ _ _ => Unit
  | openTruncate => Nat
  | unlink => Bool

namespace Named

/-- A name that has never been used. -/
def unused : Named := ⟨[], none⟩

def data (f : Named) (fd : Nat) : List UInt8 := f.files.getD fd []

def setData (f : Named) (fd : Nat) (bs : List UInt8) : Named :=
  { f with files := f.files.set fd bs }

/-- What the name denotes now; nothing if there is no file. -/
def content (f : Named) : List UInt8 :=
  match f.linked with
  | some fd => f.data fd
  | none => []

def create (f : Named) : Named := ⟨f.files ++ [[]], some f.files.length⟩

/-- The file after a write at a position; a gap reads as zeros. -/
def overwrite (old : List UInt8) (pos : Nat) (bs : List UInt8) : List UInt8 :=
  (old ++ List.replicate (pos - old.length) 0).take pos ++ bs ++ old.drop (pos + bs.length)

def perform : (o : FileOp) → Named → o.Reply × Named
  | .present, f => (f.linked.isSome, f)
  | .openAppend, f =>
    match f.linked with
    | some fd => (fd, f)
    | none => (f.files.length, f.create)
  | .openRead, f => (f.linked, f)
  | .readToEnd fd, f => (f.data fd, f)
  | .writeAppend fd bs, f => ((), f.setData fd (f.data fd ++ bs))
  | .writeAt fd pos bs, f => ((), f.setData fd (overwrite (f.data fd) pos bs))
  | .openTruncate, f =>
    match f.linked with
    | some fd => (fd, f.setData fd [])
    | none => (f.files.length, f.create)
  | .unlink, f => (f.linked.isSome, { f with linked := none })

/-- A write cut short after `n` bytes; other steps are done or not done. -/
def tear (n : Nat) : FileOp → FileOp
  | .writeAppend fd bs => .writeAppend fd (bs.take n)
  | .writeAt fd pos bs => .writeAt fd pos (bs.take n)
  | o => o

/-- The name denotes a file that holds `bs`, or none if there is nothing to hold. -/
structure Holds (f : Named) (bs : List UInt8) : Prop where
  linked : ∀ fd, f.linked = some fd → fd < f.files.length
  content_eq : f.content = bs

variable {f : Named} {fd : Nat} {bs : List UInt8}

theorem holds_unused : unused.Holds [] := ⟨by simp [unused], rfl⟩

theorem data_setData (h : fd < f.files.length) : (f.setData fd bs).data fd = bs := by
  simp [data, setData, h]

theorem Holds.data (h : f.Holds bs) (hfd : f.linked = some fd) : f.data fd = bs := by
  rw [← h.content_eq, content, hfd]

theorem Holds.openAppend (h : f.Holds bs) :
    (perform .openAppend f).2.Holds bs ∧
      (perform .openAppend f).2.linked = some (perform .openAppend f).1 := by
  rcases hl : f.linked with _ | fd
  · simp only [perform, hl]
    refine ⟨⟨by simp [create], ?_⟩, rfl⟩
    rw [← h.content_eq, content, content, hl]
    simp [create, Named.data]
  · simp only [perform, hl]
    exact ⟨h, rfl⟩

theorem Holds.openTruncate (h : f.Holds bs) :
    (perform .openTruncate f).2.Holds [] ∧
      (perform .openTruncate f).2.linked = some (perform .openTruncate f).1 := by
  rcases hl : f.linked with _ | fd
  · simp only [perform, hl]
    exact ⟨⟨by simp [create], by simp [content, create, Named.data]⟩, rfl⟩
  · have hlt := h.linked fd hl
    simp only [perform, hl]
    refine ⟨⟨?_, ?_⟩, hl⟩
    · intro fd' hfd'
      simpa [setData] using h.linked fd' hfd'
    · show (match f.linked with | some fd' => (f.setData fd []).data fd' | none => []) = []
      rw [hl]
      exact data_setData hlt

theorem Holds.setData (h : f.Holds bs) (hfd : f.linked = some fd) (new : List UInt8) :
    (f.setData fd new).Holds new := by
  refine ⟨?_, ?_⟩
  · intro fd' hfd'
    simpa [Named.setData] using h.linked fd' hfd'
  · show (match f.linked with | some fd' => (f.setData fd new).data fd' | none => []) = new
    rw [hfd]
    exact data_setData (h.linked fd hfd)

theorem Holds.writeAt (h : f.Holds bs) (hfd : f.linked = some fd) (new : List UInt8) :
    (perform (.writeAt fd bs.length new) f).2.Holds (bs ++ new) ∧
      (perform (.writeAt fd bs.length new) f).2.linked = some fd := by
  refine ⟨?_, hfd⟩
  have hend : overwrite bs bs.length new = bs ++ new := by simp [overwrite]
  show (f.setData fd (overwrite (f.data fd) bs.length new)).Holds (bs ++ new)
  rw [h.data hfd, hend]
  exact h.setData hfd _

theorem Holds.writeAppend (h : f.Holds bs) (hfd : f.linked = some fd) (new : List UInt8) :
    (perform (.writeAppend fd new) f).2.Holds (bs ++ new) ∧
      (perform (.writeAppend fd new) f).2.linked = some fd := by
  refine ⟨?_, hfd⟩
  show (f.setData fd (f.data fd ++ new)).Holds (bs ++ new)
  rw [h.data hfd]
  exact h.setData hfd _

end Named

/-! ### Programs -/

abbrev FileProg := Prog FileOp FileOp.Reply

namespace FileProg

def present : FileProg Bool := .op .present .ret
def openAppend : FileProg Nat := .op .openAppend .ret
def openRead : FileProg (Option Nat) := .op .openRead .ret
def readToEnd (fd : Nat) : FileProg (List UInt8) := .op (.readToEnd fd) .ret
def writeAppend (fd : Nat) (bs : List UInt8) : FileProg Unit := .op (.writeAppend fd bs) .ret
def writeAt (fd pos : Nat) (bs : List UInt8) : FileProg Unit := .op (.writeAt fd pos bs) .ret
def openTruncate : FileProg Nat := .op .openTruncate .ret
def unlink : FileProg Bool := .op .unlink .ret

def exec {α : Type} (p : FileProg α) (f : Named) : α × Named := Prog.exec Named.perform p f

variable {α β : Type} {f : Named} {fd pos : Nat} {bs : List UInt8}

@[simp] theorem exec_pure (a : α) : exec (pure a) f = (a, f) := rfl

@[simp] theorem exec_ret (a : α) : exec (.ret a) f = (a, f) := rfl

theorem exec_op (o : FileOp) (next : o.Reply → FileProg α) :
    exec (.op o next) f = (next (Named.perform o f).1).exec (Named.perform o f).2 := rfl

@[simp] theorem exec_bind (x : FileProg α) (k : α → FileProg β) :
    (x >>= k).exec f = (k (x.exec f).1).exec (x.exec f).2 := Prog.exec_bind x k

@[simp] theorem exec_present : present.exec f = (f.linked.isSome, f) := rfl
@[simp] theorem exec_openAppend : openAppend.exec f = Named.perform .openAppend f := rfl
@[simp] theorem exec_openRead : openRead.exec f = (f.linked, f) := rfl
@[simp] theorem exec_readToEnd : (readToEnd fd).exec f = (f.data fd, f) := rfl
@[simp] theorem exec_writeAppend :
    (writeAppend fd bs).exec f = Named.perform (.writeAppend fd bs) f := rfl
@[simp] theorem exec_writeAt :
    (writeAt fd pos bs).exec f = Named.perform (.writeAt fd pos bs) f := rfl
@[simp] theorem exec_openTruncate : openTruncate.exec f = Named.perform .openTruncate f := rfl
@[simp] theorem exec_unlink : unlink.exec f = (f.linked.isSome, { f with linked := none }) := rfl

end FileProg

end GrumpyDB
