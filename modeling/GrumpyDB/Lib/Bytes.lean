/-
Byte strings: fixed-width integers, slices and in-place writes.

Integers are written in `w` bytes, least significant byte first (`leBytes`) or last (`beBytes`);
what does not fit is cut off.
-/
import Mathlib.Tactic.Ring
import Mathlib.Data.List.Lex

namespace GrumpyDB

open List

instance linearOrderUInt8 : LinearOrder UInt8 where
  le_refl := UInt8.le_refl
  le_trans _ _ _ := UInt8.le_trans
  lt_iff_le_not_ge a b := by
    simp only [UInt8.lt_iff_toNat_lt, UInt8.le_iff_toNat_le]
    omega
  le_antisymm a b := UInt8.le_antisymm
  le_total := UInt8.le_total
  toDecidableLE := inferInstance
  toDecidableEq := inferInstance
  toDecidableLT := inferInstance

instance linearOrderUInt64 : LinearOrder UInt64 where
  le_refl := UInt64.le_refl
  le_trans _ _ _ := UInt64.le_trans
  lt_iff_le_not_ge a b := by
    simp only [UInt64.lt_iff_toNat_lt, UInt64.le_iff_toNat_le]
    omega
  le_antisymm a b := UInt64.le_antisymm
  le_total := UInt64.le_total
  toDecidableLE := inferInstance
  toDecidableEq := inferInstance
  toDecidableLT := inferInstance

/-! ### Fixed-width integers -/

/-- The `w` low bytes of `n`, least significant first. -/
def leBytes : Nat → Nat → List UInt8
  | 0, _ => []
  | w + 1, n => UInt8.ofNat n :: leBytes w (n / 256)

def leNat : List UInt8 → Nat
  | [] => 0
  | b :: bs => b.toNat + 256 * leNat bs

/-- The `w` low bytes of `n`, most significant first. -/
def beBytes (w n : Nat) : List UInt8 := (leBytes w n).reverse

@[simp] theorem length_leBytes (w n : Nat) : (leBytes w n).length = w := by
  induction w generalizing n with
  | zero => rfl
  | succ w ih => simp [leBytes, ih]

@[simp] theorem length_beBytes (w n : Nat) : (beBytes w n).length = w := by
  simp [beBytes]

theorem beBytes_succ (w n : Nat) :
    beBytes (w + 1) n = UInt8.ofNat (n / 256 ^ w) :: beBytes w n := by
  induction w generalizing n with
  | zero => simp [beBytes, leBytes]
  | succ w ih =>
    rw [beBytes, leBytes, reverse_cons, ← beBytes, ih, Nat.div_div_eq_div_mul, ← Nat.pow_succ']
    simp [beBytes, leBytes]

/-- With the most significant byte first, bytes are ordered as the numbers are. -/
theorem beBytes_lt {w m n : Nat} (h : m % 256 ^ w < n % 256 ^ w) : beBytes w m < beBytes w n := by
  induction w with
  | zero => simp [Nat.mod_one] at h
  | succ w ih =>
    rw [beBytes_succ, beBytes_succ, cons_lt_cons_iff]
    rw [Nat.mod_pow_succ, Nat.mod_pow_succ] at h
    rcases Nat.lt_trichotomy (m / 256 ^ w % 256) (n / 256 ^ w % 256) with hlt | heq | hgt
    · exact .inl (UInt8.lt_iff_toNat_lt.mpr (by simpa using hlt))
    · refine .inr ⟨UInt8.toNat_inj.mp (by simpa using heq), ih ?_⟩
      rw [heq] at h
      exact Nat.lt_of_add_lt_add_right h
    · have := Nat.mul_le_mul_left (256 ^ w) hgt
      rw [Nat.mul_succ] at this
      have := Nat.mod_lt n (Nat.pow_pos (a := 256) (n := w) (by decide))
      omega

theorem take_le_take {α : Type} [LinearOrder α] {a b : List α} (h : a < b) (n : Nat) :
    a.take n ≤ b.take n := by
  induction n generalizing a b with
  | zero => simp
  | succ n ih =>
    rcases a with _ | ⟨x, a⟩
    · exact not_lt.mp (not_lt_nil _)
    rcases b with _ | ⟨y, b⟩
    · simp at h
    rw [take_succ_cons, take_succ_cons]
    rcases cons_lt_cons_iff.mp h with hlt | ⟨rfl, hlt⟩
    · exact (cons_lt_cons_iff.mpr (.inl hlt)).le
    · rcases (ih hlt).lt_or_eq with hrest | hrest
      · exact (cons_lt_cons_iff.mpr (.inr ⟨rfl, hrest⟩)).le
      · rw [hrest]

/-- Reading back what was written keeps the low `w` bytes. -/
@[simp] theorem leNat_leBytes (w n : Nat) : leNat (leBytes w n) = n % 256 ^ w := by
  induction w generalizing n with
  | zero => simp [leBytes, leNat, Nat.mod_one]
  | succ w ih =>
    have hb : (UInt8.ofNat n).toNat = n % 256 := by simp
    rw [leBytes, leNat, ih, hb, Nat.pow_succ, Nat.mul_comm (256 ^ w) 256, Nat.mod_mul]

theorem leNat_lt (bs : List UInt8) : leNat bs < 256 ^ bs.length := by
  induction bs with
  | nil => simp [leNat]
  | cons b bs ih =>
    have hb := b.toNat_lt
    simp only [leNat, length_cons]
    omega

theorem leBytes_leNat (bs : List UInt8) : leBytes bs.length (leNat bs) = bs := by
  induction bs with
  | nil => rfl
  | cons b bs ih =>
    have hb := b.toNat_lt
    have hdiv : (b.toNat + 256 * leNat bs) / 256 = leNat bs := by omega
    have hmod : UInt8.ofNat (b.toNat + 256 * leNat bs) = b := by
      apply UInt8.toNat_inj.mp
      simp only [UInt8.toNat_ofNat']
      omega
    simp only [length_cons, leBytes, leNat, hdiv, ih, hmod]

@[simp] theorem ofNat_leNat_u16 (x : UInt16) : UInt16.ofNat (leNat (leBytes 2 x.toNat)) = x := by
  have h := x.toNat_lt
  rw [leNat_leBytes, Nat.mod_eq_of_lt (by omega), UInt16.ofNat_toNat]

@[simp] theorem ofNat_leNat_u32 (x : UInt32) : UInt32.ofNat (leNat (leBytes 4 x.toNat)) = x := by
  have h := x.toNat_lt
  rw [leNat_leBytes, Nat.mod_eq_of_lt (by omega), UInt32.ofNat_toNat]

@[simp] theorem ofNat_leNat_u64 (x : UInt64) : UInt64.ofNat (leNat (leBytes 8 x.toNat)) = x := by
  have h := x.toNat_lt
  rw [leNat_leBytes, Nat.mod_eq_of_lt (by omega), UInt64.ofNat_toNat]

/-! ### Slices and in-place writes -/

variable {α β : Type}

/-- The `len` elements from `off` on. -/
def slice (off len : Nat) (l : List α) : List α := (l.drop off).take len

/-- Overwrite the elements from `off` on with `bs`. -/
def splice (off : Nat) (bs l : List α) : List α := l.take off ++ bs ++ l.drop (off + bs.length)

theorem getElem?_slice (off len : Nat) (l : List α) (i : Nat) :
    (slice off len l)[i]? = if i < len then l[off + i]? else none := by
  simp only [slice, getElem?_take, getElem?_drop]

variable {bs l : List α}

theorem getElem?_splice {off : Nat} (h : off + bs.length ≤ l.length) (i : Nat) :
    (splice off bs l)[i]? =
      if off ≤ i ∧ i < off + bs.length then bs[i - off]? else l[i]? := by
  have htake : (l.take off).length = off := by simp; omega
  simp only [splice, append_assoc, getElem?_append, htake]
  by_cases h1 : i < off
  · simp [h1]
  · by_cases h2 : i - off < bs.length
    · have : off ≤ i ∧ i < off + bs.length := by omega
      simp [h2, this]
    · have hno : ¬ (off ≤ i ∧ i < off + bs.length) := by omega
      simp only [h1, h2, hno, if_false, getElem?_drop]
      congr 1
      omega

variable {off len : Nat}

theorem length_slice {l : List α} (h : off + len ≤ l.length) : (slice off len l).length = len := by
  simp [slice]
  omega

theorem length_splice {off : Nat} (h : off + bs.length ≤ l.length) :
    (splice off bs l).length = l.length := by
  simp [splice]
  omega

theorem slice_splice_self {off : Nat} (h : off + bs.length ≤ l.length) :
    slice off bs.length (splice off bs l) = bs := by
  apply ext_getElem?
  intro i
  rw [getElem?_slice, getElem?_splice h]
  by_cases hi : i < bs.length
  · simp [hi]
  · simp [hi]

theorem slice_splice_disjoint {off off' len : Nat} (h : off + bs.length ≤ l.length)
    (hd : off' + len ≤ off ∨ off + bs.length ≤ off') :
    slice off' len (splice off bs l) = slice off' len l := by
  apply ext_getElem?
  intro i
  rw [getElem?_slice, getElem?_slice, getElem?_splice h]
  by_cases hi : i < len
  · have : ¬ (off ≤ off' + i ∧ off' + i < off + bs.length) := by omega
    simp [this]
  · simp [hi]

variable {a b : List α}

theorem slice_append_left (h : off + len ≤ a.length) :
    slice off len (a ++ b) = slice off len a := by
  apply ext_getElem?
  intro i
  rw [getElem?_slice, getElem?_slice]
  by_cases hi : i < len
  · rw [if_pos hi, if_pos hi, getElem?_append_left (by omega)]
  · simp [hi]

theorem slice_append_right (h : a.length ≤ off) :
    slice off len (a ++ b) = slice (off - a.length) len b := by
  apply ext_getElem?
  intro i
  rw [getElem?_slice, getElem?_slice]
  by_cases hi : i < len
  · rw [if_pos hi, if_pos hi, getElem?_append_right (by omega)]
    congr 1
    omega
  · simp [hi]

@[simp] theorem slice_self {len : Nat} {a : List α} (h : a.length = len) : slice 0 len a = a := by
  simp [slice, ← h]

theorem slice_append_self {len : Nat} (h : a.length = len) : slice 0 len (a ++ b) = a := by
  rw [slice_append_left (by omega), slice_self h]

theorem slice_field {pre field post : List α} (hpre : pre.length = off)
    (hfield : field.length = len) : slice off len (pre ++ (field ++ post)) = field := by
  rw [slice_append_right hpre.le, hpre, Nat.sub_self, slice_append_self hfield]

theorem slice_append_slice {off len len' : Nat} (buf : List α) :
    slice off len buf ++ slice (off + len) len' buf = slice off (len + len') buf := by
  rw [slice, slice, slice, take_add, drop_drop]

theorem slice_slice {off len off' len' : Nat} {l : List α} (h : off' + len' ≤ len) :
    slice off' len' (slice off len l) = slice (off + off') len' l := by
  apply ext_getElem?
  intro i
  simp only [getElem?_slice]
  by_cases hi : i < len'
  · rw [if_pos hi, if_pos (by omega), if_pos hi, Nat.add_assoc]
  · simp [hi]

variable {buf : List UInt8}

theorem leBytes_slice {off w x : Nat} (h : off + w ≤ buf.length)
    (hx : x = leNat (slice off w buf)) : leBytes w x = slice off w buf := by
  have hlen := length_slice h
  have hback := leBytes_leNat (slice off w buf)
  rwa [hlen, ← hx] at hback

theorem leNat_slice_lt {off w : Nat} (h : off + w ≤ buf.length) :
    leNat (slice off w buf) < 256 ^ w := by
  have hlt := leNat_lt (slice off w buf)
  rwa [length_slice h] at hlt

variable {f : β → List α}

theorem slice_flatMap {w : Nat} :
    ∀ {xs : List β} {i : Nat} (_ : ∀ x ∈ xs, (f x).length = w) (hi : i < xs.length),
      slice (i * w) w (xs.flatMap f) = f xs[i]
  | x :: xs, 0, hw, _ => by
    simp [slice_append_self (hw x (by simp))]
  | x :: xs, i + 1, hw, hi => by
    have hx := hw x (by simp)
    have hi' : i < xs.length := by simpa using hi
    have ih := slice_flatMap (fun y hy => hw y (by simp [hy])) hi'
    rw [List.flatMap_cons, slice_append_right (by rw [hx, Nat.succ_mul]; omega), hx]
    have hoff : (i + 1) * w - w = i * w := by rw [Nat.succ_mul]; omega
    rw [hoff, ih]
    rfl

theorem length_flatMap_const {w : Nat} {xs : List β} (hw : ∀ x ∈ xs, (f x).length = w) :
    (xs.flatMap f).length = xs.length * w := by
  induction xs with
  | nil => simp
  | cons x xs ih =>
    have hx := hw x (by simp)
    have hxs := ih (fun y hy => hw y (by simp [hy]))
    simp only [flatMap_cons, length_append, length_cons, Nat.succ_mul]
    omega

/-! ### Chunks -/

/-- Cut a list into pieces of `n` elements, the last one shorter if need be. -/
def chunks (n : Nat) (l : List α) : List (List α) :=
  (List.range ((l.length + n - 1) / n)).map fun i => slice (i * n) n l

variable {n : Nat}

theorem length_le_of_mem_chunks {l c : List α} (h : c ∈ chunks n l) : c.length ≤ n := by
  obtain ⟨i, -, rfl⟩ := mem_map.mp h
  exact length_take_le _ _

theorem flatten_slices (n : Nat) (l : List α) (k : Nat) :
    ((List.range k).map fun i => slice (i * n) n l).flatten = l.take (k * n) := by
  induction k with
  | zero => simp
  | succ k ih =>
    rw [range_succ, map_append, flatten_append, ih, Nat.succ_mul, take_add]
    simp [slice]

theorem flatten_chunks (hn : 0 < n) (l : List α) : (chunks n l).flatten = l := by
  rw [chunks, flatten_slices]
  apply take_of_length_le
  have hmod := Nat.mod_lt (l.length + n - 1) hn
  have hdiv := Nat.div_add_mod (l.length + n - 1) n
  rw [Nat.mul_comm] at hdiv
  omega

theorem chunks_ne_nil {l : List α} (hn : 0 < n) (hl : l ≠ []) : chunks n l ≠ [] := by
  intro h
  have hflat := flatten_chunks hn l
  rw [h] at hflat
  exact hl hflat.symm

/-! ### Text -/

/-- The UTF-8 bytes of a text. -/
def utf8 (s : String) : List UInt8 := s.toUTF8.data.toList

/-- The text of UTF-8 bytes, if they are well formed. -/
def fromUtf8? (bs : List UInt8) : Option String := String.fromUTF8? ⟨bs.toArray⟩

theorem fromUtf8?_utf8 (s : String) : fromUtf8? (utf8 s) = some s := by
  have hbytes : (⟨(utf8 s).toArray⟩ : ByteArray) = s.toByteArray := by simp [utf8]
  rw [fromUtf8?, hbytes, String.fromUTF8?, dif_pos s.isValidUTF8]
  rfl

theorem utf8_of_fromUtf8? {bs : List UInt8} {s : String} (h : fromUtf8? bs = some s) :
    utf8 s = bs := by
  rw [fromUtf8?, String.fromUTF8?] at h
  split at h
  · cases h
    simp [utf8, String.fromUTF8]
  · cases h

end GrumpyDB
