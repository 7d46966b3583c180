/-
Procedures: stateful, fallible code with crash points.

A failure does not roll anything back, so `Proc ε σ α` runs from a state to a result *and* a
state. A run also remembers its *cuts*: the states at which it could have been stopped from
outside. `zoom` runs a procedure on a component of a larger state and carries its cuts over.
`Post x Q E s` (`x` ends in `Q` if it returns and in `E` if it fails) and `Cuts x P s` (every
cut satisfies `P`) have a rule for `bind` each.
-/
import Mathlib.Tactic.Ring

namespace GrumpyDB

variable {ε σ τ α β : Type}

/-- What a run leaves behind: the result, the final state, and the states at
which it could have been cut short, oldest first. -/
structure Out (ε σ α : Type) where
  res : Except ε α
  st : σ
  cuts : List σ

def Out.after (cs : List σ) (o : Out ε σ α) : Out ε σ α := ⟨o.res, o.st, cs ++ o.cuts⟩

/-- A stateful, fallible procedure with crash points. -/
def Proc (ε σ α : Type) : Type := σ → Out ε σ α

namespace Proc

/-- Run `x`, and `f` on its result if it has one; the cuts add up. -/
def bind (x : Proc ε σ α) (f : α → Proc ε σ β) : Proc ε σ β := fun s =>
  match (x s).res with
  | .ok a => ⟨(f a (x s).st).res, (f a (x s).st).st, (x s).cuts ++ (f a (x s).st).cuts⟩
  | .error e => ⟨.error e, (x s).st, (x s).cuts⟩

instance : Monad (Proc ε σ) where
  pure a := fun s => ⟨.ok a, s, []⟩
  bind := bind

/-- Fail with `e`, leaving the state as it is. -/
def fail (e : ε) : Proc ε σ α := fun s => ⟨.error e, s, []⟩

def get : Proc ε σ σ := fun s => ⟨.ok s, s, []⟩

def gets (f : σ → α) : Proc ε σ α := fun s => ⟨.ok (f s), s, []⟩

def modify (f : σ → σ) : Proc ε σ Unit := fun s => ⟨.ok (), f s, []⟩

/-- Mark the current state as a point where the run may be cut short. -/
def cut : Proc ε σ Unit := fun s => ⟨.ok (), s, [s]⟩

def lift (r : Except ε α) : Proc ε σ α := fun s => ⟨r, s, []⟩

/-- Run `x`; where it fails, go on with `h`. -/
def orElse (x : Proc ε σ α) (h : ε → Proc ε σ α) : Proc ε σ α := fun s =>
  match (x s).res with
  | .ok a => ⟨.ok a, (x s).st, (x s).cuts⟩
  | .error e => ⟨(h e (x s).st).res, (h e (x s).st).st, (x s).cuts ++ (h e (x s).st).cuts⟩

/-- Run `x` on a component of the state.  A cut of `x` is a cut of the whole. -/
def zoom (view : σ → τ) (put : τ → σ → σ) (x : Proc ε τ α) : Proc ε σ α := fun s =>
  ⟨(x (view s)).res, put (x (view s)).st s, (x (view s)).cuts.map (put · s)⟩

/-! ### Judgements -/

/-- Run from `s`, `x` ends in `Q` if it returns and in `E` if it fails. -/
def Post (x : Proc ε σ α) (Q : α → σ → Prop) (E : ε → σ → Prop) (s : σ) : Prop :=
  match (x s).res with
  | .ok a => Q a (x s).st
  | .error e => E e (x s).st

/-- Run from `s`, every cut of `x` satisfies `P`. -/
def Cuts (x : Proc ε σ α) (P : σ → Prop) (s : σ) : Prop := ∀ t ∈ (x s).cuts, P t

variable {x : Proc ε σ α} {f : α → Proc ε σ β} {s : σ}
variable {Q : α → σ → Prop} {R : β → σ → Prop} {E : ε → σ → Prop} {P : σ → Prop}

variable {a : α}

theorem Post.of_ok (h : Post x Q E s) (ha : (x s).res = .ok a) : Q a (x s).st := by
  unfold Post at h
  rwa [ha] at h

variable {e : ε}

theorem Post.of_error (h : Post x Q E s) (he : (x s).res = .error e) : E e (x s).st := by
  unfold Post at h
  rwa [he] at h

theorem Post.exists_ok (h : Post x Q (fun _ _ => False) s) :
    ∃ a, (x s).res = .ok a ∧ Q a (x s).st := by
  rcases hx : (x s).res with e | a
  · exact (h.of_error hx).elim
  · exact ⟨a, rfl, h.of_ok hx⟩

/-- A call that has to fail with `e` fails so, and leaves what `R` says. -/
theorem Post.fails {R : σ → Prop} (h : Post x (fun _ _ => False) (fun e' t => e' = e ∧ R t) s) :
    (x s).res = .error e ∧ R (x s).st := by
  unfold Post at h
  split at h
  · exact h.elim
  · rename_i he
    exact ⟨h.1 ▸ he, h.2⟩

theorem Post.run {C : Except ε α → σ → Prop}
    (h : Post x (fun a t => C (.ok a) t) (fun e t => C (.error e) t) s) :
    C (x s).res (x s).st := by
  unfold Post at h
  rcases hx : (x s).res with e | a <;> rwa [hx] at h

theorem post_iff : Post x Q E s ↔
    (∀ a, (x s).res = .ok a → Q a (x s).st) ∧ (∀ e, (x s).res = .error e → E e (x s).st) := by
  unfold Post
  rcases h : (x s).res with e | a <;> simp

variable {Q' : α → σ → Prop} {E' : ε → σ → Prop}

theorem Post.mono (h : Post x Q E s) (hQ : ∀ a t, Q a t → Q' a t) (hE : ∀ e t, E e t → E' e t) :
    Post x Q' E' s := by
  rw [post_iff] at h ⊢
  exact ⟨fun a ha => hQ _ _ (h.1 a ha), fun e he => hE _ _ (h.2 e he)⟩

theorem Post.imp (h : Post x Q E s) (hQ : ∀ a t, Q a t → Q' a t) : Post x Q' E s :=
  h.mono hQ fun _ _ => id

theorem post_of_run_eq {y : Proc ε σ α} (h : x s = y s) : Post x Q E s ↔ Post y Q E s := by
  rw [Post, Post, h]

theorem post_congr (h : ∀ a t, Q a t ↔ Q' a t) : Post x Q E s ↔ Post x Q' E s :=
  ⟨fun hp => hp.imp fun a t => (h a t).mp, fun hp => hp.imp fun a t => (h a t).mpr⟩

theorem Post.and (h : Post x Q E s) (h' : Post x Q' E' s) :
    Post x (fun a t => Q a t ∧ Q' a t) (fun e t => E e t ∧ E' e t) s := by
  rw [post_iff] at h h' ⊢
  exact ⟨fun a ha => ⟨h.1 a ha, h'.1 a ha⟩, fun e he => ⟨h.2 e he, h'.2 e he⟩⟩

@[simp] theorem post_pure : Post (pure a : Proc ε σ α) Q E s ↔ Q a s := Iff.rfl

@[simp] theorem post_fail : Post (fail e : Proc ε σ α) Q E s ↔ E e s := Iff.rfl

@[simp] theorem post_get {Q : σ → σ → Prop} : Post (get : Proc ε σ σ) Q E s ↔ Q s s := Iff.rfl

@[simp] theorem post_gets {g : σ → α} : Post (gets g : Proc ε σ α) Q E s ↔ Q (g s) s := Iff.rfl

@[simp] theorem post_modify {g : σ → σ} {Q : Unit → σ → Prop} :
    Post (modify g : Proc ε σ Unit) Q E s ↔ Q () (g s) := Iff.rfl

@[simp] theorem post_cut {Q : Unit → σ → Prop} :
    Post (cut : Proc ε σ Unit) Q E s ↔ Q () s := Iff.rfl

@[simp] theorem post_lift_ok : Post (lift (.ok a) : Proc ε σ α) Q E s ↔ Q a s := Iff.rfl

@[simp] theorem post_lift_error :
    Post (lift (.error e) : Proc ε σ α) Q E s ↔ E e s := Iff.rfl

/-- The rule for sequencing: what holds after `x` must make `f` end well. -/
theorem post_bind : Post (x >>= f) R E s ↔ Post x (fun a t => Post (f a) R E t) E s := by
  show Post (bind x f) R E s ↔ _
  unfold Post bind
  rcases h : (x s).res with e | a <;> simp

theorem Post.bind (h : Post x (fun a t => Post (f a) R E t) E s) : Post (x >>= f) R E s :=
  post_bind.mpr h

variable {h : ε → Proc ε σ α}

theorem post_orElse : Post (orElse x h) Q E s ↔ Post x Q (fun e t => Post (h e) Q E t) s := by
  unfold Post orElse
  rcases hx : (x s).res with e | a <;> simp

variable {put : τ → σ → σ} {view : σ → τ}

theorem post_zoom {x : Proc ε τ α} :
    Post (zoom view put x) Q E s ↔
      Post x (fun a t => Q a (put t s)) (fun e t => E e (put t s)) (view s) := by
  unfold Post zoom
  rcases h : (x (view s)).res with e | a <;> simp

/-! ### Cuts -/

@[simp] theorem cuts_pure : Cuts (pure a : Proc ε σ α) P s := by
  intro t ht
  cases ht

@[simp] theorem cuts_fail : Cuts (fail e : Proc ε σ α) P s := by
  intro t ht
  cases ht

@[simp] theorem cuts_get : Cuts (get : Proc ε σ σ) P s := by
  intro t ht
  cases ht

@[simp] theorem cuts_modify {g : σ → σ} : Cuts (modify g : Proc ε σ Unit) P s := by
  intro t ht
  cases ht

variable {r : Except ε α}

@[simp] theorem cuts_lift : Cuts (lift r : Proc ε σ α) P s := by
  intro t ht
  cases ht

@[simp] theorem cuts_cut : Cuts (cut : Proc ε σ Unit) P s ↔ P s := by
  simp [Cuts, cut]

theorem Cuts.bind (hx : Cuts x P s)
    (hf : Post x (fun a t => Cuts (f a) P t) (fun _ _ => True) s) : Cuts (x >>= f) P s := by
  intro t ht
  change t ∈ (Proc.bind x f s).cuts at ht
  unfold Proc.bind at ht
  unfold Post at hf
  rcases h : (x s).res with e | a
  · rw [h] at ht
    exact hx t ht
  · rw [h] at ht hf
    rcases List.mem_append.mp ht with ht | ht
    · exact hx t ht
    · exact hf t ht

/-! ### Runs without a failure -/

/-- Run from `s`, `x` returns `a` in `t`, and these are its cuts. -/
def Runs (x : Proc ε σ α) (a : α) (s t : σ) (cs : List σ) : Prop := x s = ⟨.ok a, t, cs⟩

section Runs

variable {t u : σ} {a : α} {b : β} {cs ds : List σ}

theorem Runs.bind (hx : Runs x a s t cs) (hf : Runs (f a) b t u ds) :
    Runs (x >>= f) b s u (cs ++ ds) := by
  show Proc.bind x f s = _
  have hx' : x s = _ := hx
  have hf' : f a t = _ := hf
  simp [Proc.bind, hx', hf']

theorem Runs.run_bind {o : Out ε σ β} (hx : Runs x a s t cs) (hf : f a t = o) :
    (x >>= f) s = o.after cs := by
  show Proc.bind x f s = _
  have hx' : x s = _ := hx
  simp [Proc.bind, hx', hf, Out.after]

theorem Runs.post_bind (hx : Runs x a s t cs) : Post (x >>= f) R E s ↔ Post (f a) R E t := by
  rw [Proc.post_bind]
  have hx' : x s = _ := hx
  simp [Post, hx']

theorem Runs.zoom {view : σ → τ} {put : τ → σ → σ} {x : Proc ε τ α} {t : τ} {cs : List τ}
    (hx : Runs x a (view s) t cs) :
    Runs (zoom view put x) a s (put t s) (cs.map (put · s)) := by
  have hx' : x (view s) = _ := hx
  simp [Runs, Proc.zoom, hx']

theorem Runs.post (hx : Runs x a s t cs) : Post x Q E s ↔ Q a t := by
  have hx' : x s = _ := hx
  simp [Post, hx']

theorem Runs.orElse {h : ε → Proc ε σ α} (hx : Runs x a s t cs) : Runs (orElse x h) a s t cs := by
  have hx' : x s = _ := hx
  simp [Runs, Proc.orElse, hx']

end Runs

theorem Cuts.orElse (hx : Cuts x P s)
    (hh : Post x (fun _ _ => True) (fun e t => Cuts (h e) P t) s) : Cuts (orElse x h) P s := by
  unfold Post at hh
  unfold Cuts Proc.orElse at *
  rcases hres : (x s).res with e | a
  · rw [hres] at hh
    intro t ht
    rcases List.mem_append.mp ht with ht | ht
    · exact hx t ht
    · exact hh t ht
  · exact hx

/-! ### Looking without a change -/

/-- Run from `s`, `x` returns `a`, changes nothing and has no cuts. -/
def Reads (x : Proc ε σ α) (a : α) (s : σ) : Prop := Runs x a s s []

theorem reads_pure : Reads (pure a : Proc ε σ α) a s := rfl

theorem reads_get : Reads (get : Proc ε σ σ) s s := rfl

theorem reads_lift (h : r = .ok a) : Reads (lift r : Proc ε σ α) a s := by
  rw [Reads, Runs, lift, h]

theorem Reads.bind {b : β} (hx : Reads x a s) (hf : Reads (f a) b s) : Reads (x >>= f) b s :=
  Runs.bind hx hf

theorem Reads.run_bind (h : Reads x a s) : (x >>= f) s = f a s := by
  have h' : x s = _ := h
  show Proc.bind x f s = _
  simp [Proc.bind, h']

theorem Reads.post (h : Reads x a s) : Post x Q E s ↔ Q a s := Runs.post h

theorem Reads.cuts (h : Reads x a s) : Cuts x P s := by
  have h' : x s = _ := h
  simp [Cuts, h']

theorem cuts_zoom {x : Proc ε τ α} :
    Cuts (zoom view put x) P s ↔ Cuts x (fun t => P (put t s)) (view s) := by
  simp [Cuts, zoom]

/-! ### Lists of components -/

/-- Run `x` on the components of a list, one after the other, until it fails. -/
def each (x : Proc ε τ Unit) : Proc ε (List τ) Unit
  | [] => ⟨.ok (), [], []⟩
  | t :: ts =>
    let o := x t
    match o.res with
    | .error e => ⟨.error e, o.st :: ts, o.cuts.map (· :: ts)⟩
    | .ok _ =>
      let os := each x ts
      ⟨os.res, o.st :: os.st, o.cuts.map (· :: ts) ++ os.cuts.map (o.st :: ·)⟩

/-- What `x` does to a component holds for every one, if none fails. -/
theorem post_each {x : Proc ε τ Unit} {r : τ → τ → Prop} {B : ε → Prop} {ts : List τ}
    (h : ∀ t ∈ ts, Post x (fun _ t' => r t t') (fun e _ => B e) t) :
    Post (each x) (fun _ ts' => List.Forall₂ r ts ts') (fun e _ => B e) ts := by
  induction ts with
  | nil => exact List.Forall₂.nil
  | cons t ts ih =>
    have ht := h t List.mem_cons_self
    have ih := ih fun t' ht' => h t' (List.mem_cons_of_mem t ht')
    unfold Post at ht ih ⊢
    rw [each]
    rcases hx : (x t).res with e | u
    · rw [hx] at ht
      exact ht
    · rw [hx] at ht
      rcases hxs : (each x ts).res with e | u'
      · rw [hxs] at ih
        exact ih
      · rw [hxs] at ih
        exact List.Forall₂.cons ht ih

end Proc

end GrumpyDB
