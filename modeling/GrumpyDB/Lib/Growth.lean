/-
How much a procedure can use up.

`Grows μ n x`: a run of `x`, however it ends, raises the measure `μ` by at most `n`.
-/
import GrumpyDB.Lib.Proc

namespace GrumpyDB

variable {ε σ τ α β : Type}

namespace Proc

/-- A run of `x` raises the measure by at most `n`. -/
def Grows (μ : σ → Nat) (n : Nat) (x : Proc ε σ α) : Prop := ∀ s, μ (x s).st ≤ μ s + n

variable {μ : σ → Nat} {n k : Nat} {x : Proc ε σ α} {f : α → Proc ε σ β}

theorem Grows.mono (h : Grows μ n x) (hn : n ≤ k) : Grows μ k x :=
  fun s => (h s).trans (Nat.add_le_add_left hn _)

theorem Grows.bind (hx : Grows μ n x) (hf : ∀ a, Grows μ k (f a)) : Grows μ (n + k) (x >>= f) := by
  intro s
  have hs := hx s
  show μ (Proc.bind x f s).st ≤ _
  unfold Proc.bind
  rcases hres : (x s).res with e | a
  · show μ (x s).st ≤ _
    omega
  · have ha := hf a (x s).st
    show μ (f a (x s).st).st ≤ _
    omega

theorem Grows.after (hx : Grows μ 0 x) (hf : ∀ a, Grows μ k (f a)) : Grows μ k (x >>= f) :=
  (hx.bind hf).mono (Nat.zero_add k).le

theorem Grows.before (hx : Grows μ n x) (hf : ∀ a, Grows μ 0 (f a)) : Grows μ n (x >>= f) :=
  hx.bind hf

theorem grows_pure (a : α) : Grows μ n (pure a : Proc ε σ α) := fun s => Nat.le_add_right (μ s) n

theorem grows_fail (e : ε) : Grows μ n (fail e : Proc ε σ α) := fun s => Nat.le_add_right (μ s) n

theorem grows_get : Grows μ n (get : Proc ε σ σ) := fun s => Nat.le_add_right (μ s) n

theorem grows_gets (g : σ → α) : Grows μ n (gets g : Proc ε σ α) :=
  fun s => Nat.le_add_right (μ s) n

theorem grows_lift (r : Except ε α) : Grows μ n (lift r : Proc ε σ α) :=
  fun s => Nat.le_add_right (μ s) n

theorem grows_cut : Grows μ n (cut : Proc ε σ Unit) := fun s => Nat.le_add_right (μ s) n

theorem grows_modify {g : σ → σ} (h : ∀ s, μ (g s) ≤ μ s + n) :
    Grows μ n (modify g : Proc ε σ Unit) := h

theorem grows_zoom {view : σ → τ} {put : τ → σ → σ} {ν : τ → Nat} {y : Proc ε τ α}
    (hμ : ∀ s, μ s = ν (view s)) (hput : ∀ t s, μ (put t s) = ν t) (hy : Grows ν n y) :
    Grows μ n (zoom view put y) := by
  intro s
  show μ (put (y (view s)).st s) ≤ _
  rw [hput, hμ]
  exact hy (view s)

end Proc

end GrumpyDB
