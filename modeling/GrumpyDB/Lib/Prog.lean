/-
Programs as trees of operations.

Several programs interleave by performing one operation of one of them at a time; a program left
alone behaves as `Prog.exec` says. What it comes to when left alone does not change by its own
steps, so an invariant can speak of that.
-/
import Mathlib.Tactic.Ring

namespace GrumpyDB

/-- A program over operations `Op`. -/
inductive Prog (Op : Type) (Reply : Op → Type) (α : Type) where
  | ret (a : α)
  | op (o : Op) (next : Reply o → Prog Op Reply α)

namespace Prog

variable {Op : Type} {Reply : Op → Type} {S α β : Type}

protected def bind : Prog Op Reply α → (α → Prog Op Reply β) → Prog Op Reply β
  | ret a, f => f a
  | op o next, f => op o fun r => (next r).bind f

instance : Monad (Prog Op Reply) where
  pure := ret
  bind := Prog.bind

def exec (sem : (o : Op) → S → Reply o × S) : Prog Op Reply α → S → α × S
  | ret a, s => (a, s)
  | op o next, s => exec sem (next (sem o s).1) (sem o s).2

variable {sem : (o : Op) → S → Reply o × S} {s : S}

theorem exec_bind (x : Prog Op Reply α) (f : α → Prog Op Reply β) :
    exec sem (x >>= f) s = exec sem (f (exec sem x s).1) (exec sem x s).2 := by
  induction x generalizing s with
  | ret a => rfl
  | op o next ih => exact ih (sem o s).1

end Prog

end GrumpyDB
