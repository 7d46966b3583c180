/-
Runs of a component, and refinement between two of them.

`trace` lists what a sequence of commands gives. Refinement is a relation between states that
every command keeps, with equal replies; a command may also break down, and nothing is said
about what follows (`trace_refine`). Where only the state matters, a run is a fold, and `Along`
says that every event meets a condition in the state that it comes upon.
-/
import Mathlib.Tactic.Ring

namespace GrumpyDB

variable {O R S A : Type}

def trace (step : O → S → R × S) : List O → S → List (R × S)
  | [], _ => []
  | o :: os, s => step o s :: trace step os (step o s).2

/-- The replies agree up to the first breakdown. -/
def AgreeUntil (broken : R → S → Prop) : List (R × S) → List R → Prop
  | [], [] => True
  | (r, s) :: rs, r' :: rs' => r = r' ∧ AgreeUntil broken rs rs' ∨ broken r s
  | _, _ => False

/-- **Refinement of runs.**  If every command that does not break down keeps a
relation and is answered alike, every run is answered alike up to the first
breakdown. -/
theorem trace_refine {step : O → S → R × S} {stepA : O → A → R × A} {Rel : S → A → Prop}
    {allowed : O → Prop} {broken : R → S → Prop}
    (hstep : ∀ o s a, allowed o → Rel s a →
      ((step o s).1 = (stepA o a).1 ∧ Rel (step o s).2 (stepA o a).2) ∨
        broken (step o s).1 (step o s).2)
    {os : List O} (hos : ∀ o ∈ os, allowed o) {s : S} {a : A} (hs : Rel s a) :
    AgreeUntil broken (trace step os s) ((trace stepA os a).map Prod.fst) := by
  induction os generalizing s a with
  | nil => trivial
  | cons o os ih =>
    rcases hstep o s a (hos o (by simp)) hs with ⟨hreply, hrel⟩ | hbroken
    · exact .inl ⟨hreply, ih (fun o ho => hos o (by simp [ho])) hrel⟩
    · exact .inr hbroken

/-- Every event of a run meets a condition in the state that it comes upon. -/
def Along (step : S → O → S) (cond : S → O → Prop) : List O → S → Prop
  | [], _ => True
  | e :: es, s => cond s e ∧ Along step cond es (step s e)

variable {step : S → O → S}

theorem Along.run {cond : S → O → Prop} {I : S → Prop}
    (hstep : ∀ s e, I s → cond s e → I (step s e)) {es : List O} {s : S}
    (h : Along step cond es s) (hs : I s) : I (es.foldl step s) := by
  induction es generalizing s with
  | nil => exact hs
  | cons e es ih => exact ih h.2 (hstep s e hs h.1)

theorem Along.and {cond cond' : S → O → Prop} {es : List O} {s : S} (h : Along step cond es s)
    (h' : Along step cond' es s) : Along step (fun s e => cond s e ∧ cond' s e) es s := by
  induction es generalizing s with
  | nil => trivial
  | cons e es ih => exact ⟨⟨h.1, h'.1⟩, ih h.2 h'.2⟩

end GrumpyDB
