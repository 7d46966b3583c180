/-
When a computation that may fail succeeds.
-/
import Mathlib.Tactic.Common

namespace GrumpyDB

variable {ε ε' α β : Type}

variable {x : Except ε α}

theorem except_bind_eq_ok {f : α → Except ε β} {b : β} :
    x >>= f = .ok b ↔ ∃ a, x = .ok a ∧ f a = .ok b := by
  rcases x with e | a <;> simp [bind, Except.bind]

theorem except_pure_eq_ok {a b : α} : (pure a : Except ε α) = .ok b ↔ a = b := by
  simp [pure, Except.pure]

theorem except_mapError_eq_ok {f : ε → ε'} {b : α} : x.mapError f = .ok b ↔ x = .ok b := by
  rcases x with e | a <;> simp [Except.mapError]

theorem except_map_eq_ok {f : α → β} {b : β} : x.map f = .ok b ↔ ∃ a, x = .ok a ∧ f a = b := by
  rcases x with e | a <;> simp [Except.map]

theorem eq_ok_of_toOption {a : α} (h : x.toOption = some a) : x = .ok a := by
  cases x with
  | error e => cases h
  | ok b => exact congrArg _ (Option.some.inj h)

end GrumpyDB
