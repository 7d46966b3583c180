/-
Decoders that take bytes off the front of a byte string.

`Reads p bs ok a`: on the encoding `bs` of `a`, whatever follows, the decoder `p` returns `a` and
leaves what follows if `ok` holds, and fails if it does not.
-/
import Mathlib.Tactic.Ring

namespace GrumpyDB

open List

/-- A decoder with errors in `ε`. -/
def Cursor (ε α : Type) : Type := List UInt8 → Except ε (α × List UInt8)

namespace Cursor

variable {ε α β : Type}

/-- Decode with `p`, and then with `f` what follows. -/
def bind (p : Cursor ε α) (f : α → Cursor ε β) : Cursor ε β := fun bs =>
  match p bs with
  | .ok (a, rest) => f a rest
  | .error e => .error e

instance : Monad (Cursor ε) where
  pure a := fun bs => .ok (a, bs)
  bind := bind

def fail (e : ε) : Cursor ε α := fun _ => .error e

/-- Go on only under a condition. -/
def require (c : Bool) (e : ε) : Cursor ε Unit := if c then pure () else fail e

/-- Go on with a value, if there is one. -/
def ofOption (o : Option α) (e : ε) : Cursor ε α :=
  match o with
  | some a => pure a
  | none => fail e

/-- The next `n` bytes; `short` is the error when there are fewer. -/
def take (n : Nat) (short : Nat → ε) : Cursor ε (List UInt8) := fun bs =>
  if bs.length < n then .error (short bs.length) else .ok (bs.take n, bs.drop n)

/-- Decode `n` values, one after the other. -/
def times (p : Cursor ε α) : Nat → Cursor ε (List α)
  | 0 => pure []
  | n + 1 => do
    let a ← p
    let as ← times p n
    pure (a :: as)

/-! ### Reading an encoding back -/

/-- On the bytes `bs`, whatever follows them, the decoder returns `a` if `ok` holds
and fails otherwise. -/
def Reads (p : Cursor ε α) (bs : List UInt8) (ok : Prop) (a : α) : Prop :=
  ∀ rest, (ok → p (bs ++ rest) = .ok (a, rest)) ∧ (¬ ok → ∃ e, p (bs ++ rest) = .error e)

variable {p : Cursor ε α} {f : α → Cursor ε β} {bs bs' : List UInt8} {ok ok' : Prop} {a : α} {b : β}

theorem Reads.congr (h : Reads p bs ok a) (hbs : bs = bs') (hok : ok ↔ ok') :
    Reads p bs' ok' a := by
  subst hbs
  rwa [← propext hok]

theorem Reads.bind (hp : Reads p bs ok a) (hf : ok → Reads (f a) bs' ok' b) :
    Reads (p >>= f) (bs ++ bs') (ok ∧ ok') b := by
  intro rest
  rw [append_assoc]
  obtain ⟨hyes, hno⟩ := hp (bs' ++ rest)
  by_cases hok : ok
  · have hrun : (p >>= f) (bs ++ (bs' ++ rest)) = f a (bs' ++ rest) := by
      show Cursor.bind p f _ = _
      rw [Cursor.bind, hyes hok]
    rw [hrun]
    obtain ⟨hyes', hno'⟩ := hf hok rest
    exact ⟨fun h => hyes' h.2, fun h => hno' fun h' => h ⟨hok, h'⟩⟩
  · obtain ⟨e, he⟩ := hno hok
    refine ⟨fun h => absurd h.1 hok, fun _ => ⟨e, ?_⟩⟩
    show Cursor.bind p f _ = _
    rw [Cursor.bind, he]

theorem reads_pure : Reads (pure a : Cursor ε α) [] True a :=
  fun _ => ⟨fun _ => rfl, fun h => absurd trivial h⟩

variable {short : Nat → ε} {n : Nat}

theorem reads_take (h : bs.length = n) : Reads (take n short) bs True bs := by
  intro rest
  refine ⟨fun _ => ?_, fun h => absurd trivial h⟩
  rw [take, if_neg (by simp [h]), take_left' h, drop_left' h]

variable {e : ε} {c : Bool}

theorem reads_require : Reads (require c e) [] (c = true) () := by
  intro rest
  cases c
  · exact ⟨fun h => absurd h Bool.false_ne_true, fun _ => ⟨e, rfl⟩⟩
  · exact ⟨fun _ => rfl, fun h => absurd rfl h⟩

theorem reads_fail : Reads (fail e : Cursor ε α) bs False a :=
  fun _ => ⟨False.elim, fun _ => ⟨e, rfl⟩⟩

variable {o : Option α}

theorem reads_ofOption (h : o = some a) : Reads (ofOption o e) [] True a := by
  subst h
  exact reads_pure

theorem Reads.map (h : Reads p bs ok a) (g : α → β) :
    Reads (p >>= fun x => pure (g x)) bs ok (g a) := by
  have hg : ok → Reads (pure (g a) : Cursor ε β) [] True (g a) := fun _ => reads_pure
  exact (h.bind hg).congr (append_nil _) (Iff.of_eq (and_true _))

theorem Reads.after {q : Cursor ε α} (h : c = true → Reads q bs ok a) :
    Reads (require c e >>= fun _ => q) bs (c = true ∧ ok) a :=
  reads_require.bind h

theorem reads_times {enc : α → List UInt8} {ok : α → Prop} {xs : List α}
    (h : ∀ x ∈ xs, Reads p (enc x) (ok x) x) :
    Reads (times p xs.length) (xs.flatMap enc) (∀ x ∈ xs, ok x) xs := by
  induction xs with
  | nil => exact (reads_pure).congr rfl (by simp)
  | cons x xs ih =>
    have hx := h x (by simp)
    have hxs := ih fun y hy => h y (by simp [hy])
    refine (hx.bind fun _ => hxs.map (x :: ·)).congr ?_ ?_
    · rw [flatMap_cons]
    · simp

/-! ### What is read -/

/-- Whatever the bytes are, a value that the decoder returns satisfies `P`. -/
def Gives (p : Cursor ε α) (P : α → Prop) : Prop :=
  ∀ bs a rest, p bs = .ok (a, rest) → P a

variable {P : α → Prop} {Q : β → Prop}

theorem Gives.mono {P' : α → Prop} (h : Gives p P) (hP : ∀ a, P a → P' a) : Gives p P' :=
  fun bs a rest hrun => hP a (h bs a rest hrun)

theorem Gives.bind (hp : Gives p P) (hf : ∀ a, P a → Gives (f a) Q) : Gives (p >>= f) Q := by
  intro bs b rest hrun
  have hrun' : Cursor.bind p f bs = .ok (b, rest) := hrun
  unfold Cursor.bind at hrun'
  split at hrun'
  · next a rest' ha => exact hf a (hp bs a rest' ha) rest' b rest hrun'
  · cases hrun'

theorem gives_pure (h : P a) : Gives (pure a : Cursor ε α) P := by
  intro bs b rest hrun
  cases hrun
  exact h

theorem gives_fail : Gives (fail e : Cursor ε α) P := by
  intro bs b rest hrun
  cases hrun

theorem gives_any (p : Cursor ε α) : Gives p fun _ => True := fun _ _ _ _ => trivial

theorem gives_require : Gives (require c e) fun _ => c = true := by
  cases c
  · exact gives_fail
  · exact gives_pure rfl

theorem gives_ofOption : Gives (ofOption o e) fun a => o = some a := by
  cases o with
  | none => exact gives_fail
  | some a => exact gives_pure rfl

theorem gives_take : Gives (take n short) fun bs => bs.length = n := by
  intro bs b rest hrun
  unfold take at hrun
  split at hrun
  · cases hrun
  · cases hrun
    rw [length_take]
    omega

theorem gives_times (hp : Gives p P) (n : Nat) :
    Gives (times p n) fun as => as.length = n ∧ ∀ a ∈ as, P a := by
  induction n with
  | zero => exact gives_pure ⟨rfl, nofun⟩
  | succ n ih =>
    refine hp.bind fun a ha => ih.bind fun as has => gives_pure ⟨?_, ?_⟩
    · rw [length_cons, has.1]
    · exact forall_mem_cons.mpr ⟨ha, has.2⟩

/-! ### What it fails with -/

/-- Whatever the bytes are, an error of the decoder satisfies `P`. -/
def Throws (p : Cursor ε α) (P : ε → Prop) : Prop := ∀ bs e, p bs = .error e → P e

variable {T : ε → Prop}

theorem Throws.bind (hp : Throws p T) (hf : ∀ a, Throws (f a) T) : Throws (p >>= f) T := by
  intro bs e hrun
  have hrun' : Cursor.bind p f bs = .error e := hrun
  unfold Cursor.bind at hrun'
  split at hrun'
  · next a rest ha => exact hf a rest e hrun'
  · next e' he =>
    cases hrun'
    exact hp bs e he

theorem throws_pure {a : α} : Throws (pure a : Cursor ε α) T := by
  intro bs e hrun
  cases hrun

theorem throws_fail (h : T e) : Throws (fail e : Cursor ε α) T := by
  intro bs e' hrun
  cases hrun
  exact h

theorem throws_require (h : T e) : Throws (require c e) T := by
  cases c
  · exact throws_fail h
  · exact throws_pure

theorem throws_ofOption (h : T e) : Throws (ofOption o e) T := by
  cases o with
  | none => exact throws_fail h
  | some a => exact throws_pure

theorem throws_take (h : ∀ k, T (short k)) : Throws (take n short) T := by
  intro bs e hrun
  unfold take at hrun
  split at hrun
  · cases hrun
    exact h _
  · cases hrun

theorem throws_times (hp : Throws p T) (n : Nat) : Throws (times p n) T := by
  induction n with
  | zero => exact throws_pure
  | succ n ih => exact hp.bind fun _ => ih.bind fun _ => throws_pure

end Cursor

end GrumpyDB
