/-
Rows of children separated by keys, and rows with a hole.

A row `t₀ k₁ t₁ … kₙ tₙ` is kept as the first child and a list of key-child pairs, so there is no
length to keep in step. `Hole` is a row with one child missing: `Hole.fill` puts a child in,
`pushLeft` and `pushRight` add a neighbour.
-/
import Mathlib.Tactic.Ring

namespace GrumpyDB

open List

variable {K T U I : Type}

/-- Children separated by keys: one child more than keys. -/
@[ext] structure Row (K T : Type) where
  first : T
  rest : List (K × T)

namespace Row

def keys (r : Row K T) : List K := r.rest.map Prod.fst

def children (r : Row K T) : List T := r.first :: r.rest.map Prod.snd

def map (f : T → U) (r : Row K T) : Row K U := ⟨f r.first, r.rest.map fun p => (p.1, f p.2)⟩

def flat (g : T → List I) (s : K → I) (r : Row K T) : List I :=
  g r.first ++ r.rest.flatMap fun p => s p.1 :: g p.2

def join (a : Row K T) (k : K) (b : Row K T) : Row K T :=
  ⟨a.first, a.rest ++ (k, b.first) :: b.rest⟩

@[simp] theorem keys_join (a : Row K T) (k : K) (b : Row K T) :
    (a.join k b).keys = a.keys ++ k :: b.keys := by
  simp [join, keys]

@[simp] theorem children_join (a : Row K T) (k : K) (b : Row K T) :
    (a.join k b).children = a.children ++ b.children := by
  simp [join, children]

@[simp] theorem flat_join (g : T → List I) (s : K → I) (a : Row K T) (k : K) (b : Row K T) :
    (a.join k b).flat g s = a.flat g s ++ s k :: b.flat g s := by
  simp [join, flat]

@[simp] theorem map_join (f : T → U) (a : Row K T) (k : K) (b : Row K T) :
    (a.join k b).map f = (a.map f).join k (b.map f) := by
  simp [join, map]

theorem join_assoc (a : Row K T) (k : K) (b : Row K T) (k' : K) (c : Row K T) :
    (a.join k b).join k' c = a.join k (b.join k' c) := by
  simp [join]

theorem exists_join (r : Row K T) {i : Nat} (hi : i < r.keys.length) :
    ∃ (a : Row K T) (k : K) (b : Row K T), r = a.join k b ∧ a.keys.length = i := by
  obtain ⟨f, l⟩ := r
  have hi' : i < l.length := by simpa [keys] using hi
  refine ⟨⟨f, l.take i⟩, l[i].1, ⟨l[i].2, l.drop (i + 1)⟩, ?_, by simp [keys]; omega⟩
  simp only [join]
  rw [← drop_eq_getElem_cons hi', take_append_drop]

variable {r : Row K T}

theorem mem_flat_of_mem_keys {g : T → List I} {s : K → I} {k : K} (hk : k ∈ r.keys) :
    s k ∈ r.flat g s := by
  obtain ⟨p, hp, rfl⟩ := mem_map.mp hk
  exact mem_append_right _ (mem_flatMap.mpr ⟨p, hp, by simp⟩)

def single (t : T) : Row K T := ⟨t, []⟩

def pair (a : T) (k : K) (b : T) : Row K T := ⟨a, [(k, b)]⟩

@[simp] theorem keys_single (t : T) : (single t : Row K T).keys = [] := rfl

@[simp] theorem children_single (t : T) : (single t : Row K T).children = [t] := rfl

@[simp] theorem flat_single (g : T → List I) (s : K → I) (t : T) : (single t).flat g s = g t := by
  simp [single, flat]

@[simp] theorem map_single (f : T → U) (t : T) : (single t : Row K T).map f = single (f t) := rfl

theorem eq_single (h : r.keys.length = 0) : ∃ t, r = single t := by
  obtain ⟨f, l⟩ := r
  have hl : l = [] := by simpa [keys] using h
  exact ⟨f, by rw [hl, single]⟩

theorem exists_join_last (h : 0 < r.keys.length) :
    ∃ (a : Row K T) (k : K) (t : T), r = a.join k (single t) ∧
      a.keys.length + 1 = r.keys.length := by
  obtain ⟨a, k, b, rfl, ha⟩ := exists_join r (i := r.keys.length - 1) (by omega)
  rw [keys_join, length_append, length_cons] at ha h ⊢
  obtain ⟨t, rfl⟩ := eq_single (r := b) (by omega)
  exact ⟨a, k, t, rfl, by simp⟩

theorem exists_join_first (h : 0 < r.keys.length) :
    ∃ (t : T) (k : K) (b : Row K T), r = (single t).join k b ∧
      b.keys.length + 1 = r.keys.length := by
  obtain ⟨a, k, b, rfl, ha⟩ := exists_join r h
  obtain ⟨t, rfl⟩ := eq_single ha
  exact ⟨t, k, b, rfl, by simp⟩

@[simp] theorem keys_pair (a : T) (k : K) (b : T) : (pair a k b).keys = [k] := rfl

@[simp] theorem children_pair (a : T) (k : K) (b : T) : (pair a k b).children = [a, b] := rfl

@[simp] theorem flat_pair (g : T → List I) (s : K → I) (a : T) (k : K) (b : T) :
    (pair a k b).flat g s = g a ++ s k :: g b := by
  simp [pair, flat]

@[simp] theorem keys_map (f : T → U) (r : Row K T) : (r.map f).keys = r.keys := by
  simp [keys, map]

theorem ext_of_keys_children {r r' : Row K T} (hk : r.keys = r'.keys)
    (hc : r.children = r'.children) : r = r' := by
  obtain ⟨f, l⟩ := r
  obtain ⟨f', l'⟩ := r'
  simp only [children, cons.injEq] at hc
  have hl : l = l' := by
    have h := congrArg₂ zip hk hc.2
    simpa [keys, zip_map'] using h
  rw [hc.1, hl]

end Row

inductive Hole (K T : Type) where
  | head (right : List (K × T))
  /-- The child after `key` is missing. -/
  | mid (first : T) (left : List (K × T)) (key : K) (right : List (K × T))

namespace Hole

def fill : Hole K T → T → Row K T
  | head right, t => ⟨t, right⟩
  | mid first left key right, t => ⟨first, left ++ (key, t) :: right⟩

def fillRow : Hole K T → Row K T → Row K T
  | head right, r => ⟨r.first, r.rest ++ right⟩
  | mid first left key right, r => ⟨first, left ++ (key, r.first) :: (r.rest ++ right)⟩

/-- Add the child `a` and the key `k` just left of the hole. -/
def pushLeft : Hole K T → T → K → Hole K T
  | head right, a, k => mid a [] k right
  | mid first left key right, a, k => mid first (left ++ [(key, a)]) k right

/-- Add the key `k` and the child `b` just right of the hole. -/
def pushRight : Hole K T → K → T → Hole K T
  | head right, k, b => head ((k, b) :: right)
  | mid first left key right, k, b => mid first left key ((k, b) :: right)

def leftKeys : Hole K T → List K
  | head _ => []
  | mid _ left key _ => left.map Prod.fst ++ [key]

def rightKeys : Hole K T → List K
  | head right => right.map Prod.fst
  | mid _ _ _ right => right.map Prod.fst

def leftChildren : Hole K T → List T
  | head _ => []
  | mid first left _ _ => first :: left.map Prod.snd

def rightChildren : Hole K T → List T
  | head right => right.map Prod.snd
  | mid _ _ _ right => right.map Prod.snd

def idx (F : Hole K T) : Nat := F.leftChildren.length

def size (F : Hole K T) : Nat := F.leftKeys.length + F.rightKeys.length

def map (f : T → U) : Hole K T → Hole K U
  | head right => head (right.map fun p => (p.1, f p.2))
  | mid first left key right =>
    mid (f first) (left.map fun p => (p.1, f p.2)) key (right.map fun p => (p.1, f p.2))

def leftFlat (g : T → List I) (s : K → I) : Hole K T → List I
  | head _ => []
  | mid first left key _ => Row.flat g s ⟨first, left⟩ ++ [s key]

def rightFlat (g : T → List I) (s : K → I) : Hole K T → List I
  | head right => right.flatMap fun p => s p.1 :: g p.2
  | mid _ _ _ right => right.flatMap fun p => s p.1 :: g p.2

variable {F : Hole K T} {t a b : T} {k : K}

@[simp] theorem keys_fill : (F.fill t).keys = F.leftKeys ++ F.rightKeys := by
  cases F <;> simp [fill, Row.keys, leftKeys, rightKeys]

@[simp] theorem children_fill :
    (F.fill t).children = F.leftChildren ++ t :: F.rightChildren := by
  cases F <;> simp [fill, Row.children, leftChildren, rightChildren]

@[simp] theorem length_leftKeys : F.leftKeys.length = F.idx := by
  cases F <;> simp [leftKeys, idx, leftChildren]

@[simp] theorem length_leftChildren : F.leftChildren.length = F.idx := rfl

theorem length_keys_fill : (F.fill t).keys.length = F.size := by
  rw [keys_fill, length_append, size]

@[simp] theorem leftKeys_map (f : T → U) : (F.map f).leftKeys = F.leftKeys := by
  cases F <;> simp [map, leftKeys]

@[simp] theorem rightKeys_map (f : T → U) : (F.map f).rightKeys = F.rightKeys := by
  cases F <;> simp [map, rightKeys]

@[simp] theorem idx_map (f : T → U) : (F.map f).idx = F.idx := by
  cases F <;> simp [map, idx, leftChildren]

@[simp] theorem map_pushRight (f : T → U) :
    (F.pushRight k b).map f = (F.map f).pushRight k (f b) := by
  cases F <;> simp [map, pushRight]

@[simp] theorem map_pushLeft (f : T → U) :
    (F.pushLeft a k).map f = (F.map f).pushLeft (f a) k := by
  cases F <;> simp [map, pushLeft]

variable {r : Row K T}

@[simp] theorem map_fillRow (f : T → U) : (F.fillRow r).map f = (F.map f).fillRow (r.map f) := by
  cases F <;> simp [fillRow, Row.map, map]

@[simp] theorem map_fill (f : T → U) : (F.fill t).map f = (F.map f).fill (f t) := by
  cases F <;> simp [fill, Row.map, map]

@[simp] theorem flat_fill (g : T → List I) (s : K → I) :
    (F.fill t).flat g s = F.leftFlat g s ++ (g t ++ F.rightFlat g s) := by
  cases F <;> simp [fill, Row.flat, leftFlat, rightFlat]

@[simp] theorem keys_fillRow : (F.fillRow r).keys = F.leftKeys ++ (r.keys ++ F.rightKeys) := by
  cases F <;> simp [fillRow, Row.keys, leftKeys, rightKeys]

@[simp] theorem children_fillRow :
    (F.fillRow r).children = F.leftChildren ++ (r.children ++ F.rightChildren) := by
  cases F <;> simp [fillRow, Row.children, leftChildren, rightChildren]

@[simp] theorem flat_fillRow (g : T → List I) (s : K → I) :
    (F.fillRow r).flat g s = F.leftFlat g s ++ (r.flat g s ++ F.rightFlat g s) := by
  cases F <;> simp [fillRow, Row.flat, leftFlat, rightFlat]

@[simp] theorem fillRow_single : F.fillRow (.single t) = F.fill t := by
  cases F <;> simp [fillRow, fill, Row.single]

theorem fillRow_pair : F.fillRow (.pair a k b) = (F.pushRight k b).fill a := by
  cases F <;> simp [fillRow, fill, pushRight, Row.pair]

theorem fill_pushLeft : (F.pushLeft a k).fill b = (F.pushRight k b).fill a := by
  cases F <;> simp [fill, pushLeft, pushRight]

@[simp] theorem leftKeys_pushLeft : (F.pushLeft a k).leftKeys = F.leftKeys ++ [k] := by
  cases F <;> simp [pushLeft, leftKeys]

@[simp] theorem rightKeys_pushLeft : (F.pushLeft a k).rightKeys = F.rightKeys := by
  cases F <;> simp [pushLeft, rightKeys]

@[simp] theorem leftChildren_pushLeft :
    (F.pushLeft a k).leftChildren = F.leftChildren ++ [a] := by
  cases F <;> simp [pushLeft, leftChildren]

@[simp] theorem rightChildren_pushLeft : (F.pushLeft a k).rightChildren = F.rightChildren := by
  cases F <;> simp [pushLeft, rightChildren]

@[simp] theorem leftKeys_pushRight : (F.pushRight k b).leftKeys = F.leftKeys := by
  cases F <;> simp [pushRight, leftKeys]

@[simp] theorem rightKeys_pushRight : (F.pushRight k b).rightKeys = k :: F.rightKeys := by
  cases F <;> simp [pushRight, rightKeys]

@[simp] theorem leftChildren_pushRight : (F.pushRight k b).leftChildren = F.leftChildren := by
  cases F <;> simp [pushRight, leftChildren]

@[simp] theorem rightChildren_pushRight :
    (F.pushRight k b).rightChildren = b :: F.rightChildren := by
  cases F <;> simp [pushRight, rightChildren]

@[simp] theorem idx_pushLeft : (F.pushLeft a k).idx = F.idx + 1 := by
  rw [idx, leftChildren_pushLeft, length_append]
  rfl

@[simp] theorem idx_pushRight : (F.pushRight k b).idx = F.idx := by
  rw [idx, leftChildren_pushRight, idx]

@[simp] theorem size_pushLeft : (F.pushLeft a k).size = F.size + 1 := by
  simp [size]
  omega

@[simp] theorem size_pushRight : (F.pushRight k b).size = F.size + 1 := by
  simp [size]
  omega

@[simp] theorem leftFlat_pushLeft (g : T → List I) (s : K → I) :
    (F.pushLeft a k).leftFlat g s = F.leftFlat g s ++ (g a ++ [s k]) := by
  cases F <;> simp [pushLeft, leftFlat, Row.flat]

@[simp] theorem rightFlat_pushLeft (g : T → List I) (s : K → I) :
    (F.pushLeft a k).rightFlat g s = F.rightFlat g s := by
  cases F <;> simp [pushLeft, rightFlat]

@[simp] theorem leftFlat_pushRight (g : T → List I) (s : K → I) :
    (F.pushRight k b).leftFlat g s = F.leftFlat g s := by
  cases F <;> simp [pushRight, leftFlat]

@[simp] theorem rightFlat_pushRight (g : T → List I) (s : K → I) :
    (F.pushRight k b).rightFlat g s = s k :: (g b ++ F.rightFlat g s) := by
  cases F <;> simp [pushRight, rightFlat]

variable {g : T → List I}

theorem mem_leftFlat {s : K → I} (hk : k ∈ F.leftKeys) : s k ∈ F.leftFlat g s := by
  rcases F with right | ⟨first, left, key, right⟩
  · simp [leftKeys] at hk
  · rcases mem_append.mp hk with hk | hk
    · exact mem_append_left _ (Row.mem_flat_of_mem_keys hk)
    · rw [mem_singleton.mp hk]
      exact mem_append_right _ (by simp)

theorem mem_rightFlat {s : K → I} (hk : k ∈ F.rightKeys) : s k ∈ F.rightFlat g s := by
  rcases F with right | ⟨first, left, key, right⟩ <;>
  · obtain ⟨p, hp, rfl⟩ := mem_map.mp hk
    exact mem_flatMap.mpr ⟨p, hp, by simp⟩

theorem exists_fill (r : Row K T) {i : Nat} (hi : i ≤ r.keys.length) :
    ∃ (F : Hole K T) (t : T), F.idx = i ∧ F.fill t = r := by
  obtain ⟨f, l⟩ := r
  rcases i with _ | i
  · exact ⟨head l, f, rfl, rfl⟩
  · have hi' : i < l.length := by simpa [Row.keys, Nat.succ_le_iff] using hi
    refine ⟨mid f (l.take i) l[i].1 (l.drop (i + 1)), l[i].2, ?_, ?_⟩
    · simp only [idx, leftChildren, length_cons, length_map, length_take]
      omega
    · simp only [fill]
      rw [← drop_eq_getElem_cons hi', take_append_drop]

theorem eq_head_nil (h : F.size = 0) : F = head [] := by
  rcases F with right | ⟨first, left, key, right⟩
  · simp only [size, leftKeys, rightKeys, length_nil, length_map, Nat.zero_add] at h
    rw [eq_nil_of_length_eq_zero h]
  · simp [size, leftKeys] at h

theorem neighbour_cases (G : Hole K T) :
    (∃ (F : Hole K T) (a : T) (k : K), G = F.pushLeft a k) ∨
      (∃ (F : Hole K T) (k : K) (b : T), G = F.pushRight k b ∧ F.idx = 0) ∨ G = head [] := by
  rcases G with right | ⟨first, left, key, right⟩
  · rcases right with _ | ⟨⟨k, b⟩, right⟩
    · exact .inr (.inr rfl)
    · exact .inr (.inl ⟨head right, k, b, rfl, rfl⟩)
  · refine .inl ?_
    rcases eq_nil_or_concat left with rfl | ⟨l, ⟨k, s⟩, rfl⟩
    · exact ⟨head right, first, key, rfl⟩
    · exact ⟨mid first l k right, s, key, by simp [pushLeft]⟩

end Hole

end GrumpyDB
