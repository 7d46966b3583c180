/-
B+tree nodes: their page layout and the node-local operations.

`num_keys` and `num_entries` of the source always equal the length of the entry vector; here they
are that length, and only the page layout writes them out. `binary_search_by` and
`partition_point` are modelled by what they return on sorted vectors.
-/
import GrumpyDB.Key
import GrumpyDB.Lib.Row
import Mathlib.Data.List.TakeWhile

namespace GrumpyDB

open BTreeKey List Hole Row PageHeader

/-! ### Sorted vectors -/

section Search

variable {E K : Type}

def partitionPoint (p : E → Bool) (l : List E) : Nat := (l.takeWhile p).length

/-- Position of `key` in a sorted vector, or where it would be inserted. -/
def binarySearchBy [LinearOrder K] (f : E → K) (key : K) (l : List E) : Except Nat Nat :=
  let i := partitionPoint (fun e => decide (f e < key)) l
  match l[i]? with
  | some e => if f e = key then .ok i else .error i
  | none => .error i

def searchIndex : Except Nat Nat → Nat
  | .ok i => i
  | .error i => i

theorem partitionPoint_append {p : E → Bool} {a b : List E} (ha : ∀ e ∈ a, p e = true)
    (hb : ∀ e ∈ b.head?, p e = false) : partitionPoint p (a ++ b) = a.length := by
  rw [partitionPoint, takeWhile_append_of_pos ha]
  rcases b with _ | ⟨e, b⟩
  · simp
  · have he : p e = false := hb e rfl
    simp [he]

theorem insertIdx_length (a b : List E) (x : E) :
    (a ++ b).insertIdx a.length x = a ++ x :: b := by
  induction a with
  | nil => simp
  | cons y a ih => simp [ih]

theorem exists_halves {α : Type} {es : List α} {m : Nat} (hm : 0 < m) (hlt : m < es.length) :
    ∃ a f e b, es = (a ++ [f]) ++ e :: b ∧ (a ++ [f]).length = m := by
  have hne : es.take m ≠ [] := by
    rw [Ne, take_eq_nil_iff]
    rintro (h | h)
    · omega
    · simp [h] at hlt
  refine ⟨(es.take m).dropLast, (es.take m).getLast hne, es[m], es.drop (m + 1), ?_, ?_⟩
  · rw [dropLast_append_getLast, ← drop_eq_getElem_cons hlt, take_append_drop]
  · rw [dropLast_append_getLast, length_take]
    omega

theorem modify_length (a b : List E) (x : E) (g : E → E) :
    (a ++ x :: b).modify a.length g = a ++ g x :: b := by
  induction a with
  | nil => simp
  | cons y a ih => simp [ih]

variable [LinearOrder K] {f : E → K} {key : K} {a b : List E} {e : E}

theorem binarySearchBy_found (ha : ∀ x ∈ a, f x < key) (he : f e = key) :
    binarySearchBy f key (a ++ e :: b) = .ok a.length := by
  have hp : partitionPoint (fun x => decide (f x < key)) (a ++ e :: b) = a.length :=
    partitionPoint_append (by simpa using ha) (by simp [he])
  simp [binarySearchBy, hp, he]

theorem binarySearchBy_missing (ha : ∀ x ∈ a, f x < key) (hb : ∀ x ∈ b, key < f x) :
    binarySearchBy f key (a ++ b) = .error a.length := by
  have hp : partitionPoint (fun x => decide (f x < key)) (a ++ b) = a.length := by
    refine partitionPoint_append (by simpa using ha) ?_
    intro x hx
    have := hb x (mem_of_mem_head? hx)
    simp [this.le]
  rcases b with _ | ⟨e, b⟩
  · rw [append_nil] at hp ⊢
    simp [binarySearchBy, hp]
  · have hne : f e ≠ key := (hb e (by simp)).ne'
    simp [binarySearchBy, hp, hne]

/-- A sorted vector around a key: what is below it, the entry at it if there
is one, and what is above. -/
theorem sorted_split (key : K) {l : List E} (hl : l.Pairwise (fun x y => f x < f y)) :
    (∃ a e b, l = a ++ e :: b ∧ f e = key ∧ (∀ x ∈ a, f x < key) ∧ ∀ x ∈ b, key < f x) ∨
    (∃ a b, l = a ++ b ∧ (∀ x ∈ a, f x < key) ∧ ∀ x ∈ b, key < f x) := by
  induction l with
  | nil => exact .inr ⟨[], [], by simp⟩
  | cons x l ih =>
    obtain ⟨hx, hl⟩ := pairwise_cons.mp hl
    rcases lt_trichotomy (f x) key with hlt | heq | hgt
    · rcases ih hl with ⟨a, e, b, rfl, he, ha, hb⟩ | ⟨a, b, rfl, ha, hb⟩
      · exact .inl ⟨x :: a, e, b, by simp, he, by simpa [hlt] using ha, hb⟩
      · exact .inr ⟨x :: a, b, by simp, by simpa [hlt] using ha, hb⟩
    · exact .inl ⟨[], x, l, by simp, heq, by simp, fun y hy => heq ▸ hx y hy⟩
    · exact .inr ⟨[], x :: l, by simp, by simp,
        by simpa [hgt] using fun y hy => hgt.trans (hx y hy)⟩

end Search

/-! ### Rows of fixed-width records on a page -/

section Records

variable {E : Type}

def writeEntries (enc : E → Except Halt (List UInt8)) : List E → Except Halt (List UInt8)
  | [] => .ok []
  | e :: es => do
    let b ← enc e
    let bs ← writeEntries enc es
    pure (b ++ bs)

def readEntries (dec : List UInt8 → Except Halt E) (p : Page) (w : Nat) :
    Nat → Nat → Except Halt (List E)
  | _, 0 => .ok []
  | start, n + 1 =>
    if start + w ≤ PAGE_SIZE then do
      let e ← dec (p.read start w)
      let es ← readEntries dec p w (start + w) n
      pure (e :: es)
    else .error .index

theorem writeEntries_ok {enc : E → Except Halt (List UInt8)} {dec : List UInt8 → Except Halt E}
    {w : Nat} {es : List E}
    (h : ∀ e ∈ es, ∃ b, enc e = .ok b ∧ b.length = w ∧ dec b = .ok e) :
    ∃ bs, writeEntries enc es = .ok bs ∧ bs.length = es.length * w ∧
      ∀ (p : Page) (start : Nat), start + es.length * w ≤ PAGE_SIZE →
        p.read start (es.length * w) = bs → readEntries dec p w start es.length = .ok es := by
  induction es with
  | nil => exact ⟨[], rfl, by simp, fun _ _ _ _ => rfl⟩
  | cons e es ih =>
    obtain ⟨b, hb, hlen, hdec⟩ := h e (by simp)
    obtain ⟨bs, hbs, hlens, hread⟩ := ih fun x hx => h x (by simp [hx])
    refine ⟨b ++ bs, by simp [writeEntries, hb, hbs]; rfl, ?_, ?_⟩
    · simp only [length_append, length_cons, Nat.succ_mul]
      omega
    · intro p start hfit hp
      simp only [length_cons, Nat.succ_mul] at hfit hp
      have hhead : p.read start w = b := by
        have := congrArg (slice 0 w) hp
        rwa [Page.read, slice_slice (by omega), slice_append_self hlen] at this
      have htail : p.read (start + w) (es.length * w) = bs := by
        have := congrArg (slice w (es.length * w)) hp
        rwa [Page.read, slice_slice (by omega), slice_append_right (by omega), hlen, Nat.sub_self,
          slice_self hlens] at this
      have hrest := hread p (start + w) (by omega) htail
      simp only [length_cons, readEntries]
      rw [if_pos (by omega), hhead, hdec, hrest]
      rfl

end Records

/-! ### Pages made of a header and a record -/

section Laid

/-- A page of the given type whose bytes after the header are `bytes`. -/
def laidPage (pageId : UInt32) (ty : PageType) (bytes : List UInt8) : Page :=
  ((PageHeader.new pageId ty).writeTo Page.zero).write PAGE_HEADER_SIZE bytes

variable {pageId : UInt32} {ty : PageType} {bytes : List UInt8}

theorem pageTypeOf_laidPage : PageHeader.pageTypeOf (laidPage pageId ty bytes) = ty := by
  rw [pageTypeOf, laidPage, Page.num_write_disjoint (by simp [PAGE_HEADER_SIZE])]
  exact pageTypeOf_writeTo _ _

variable [Crc32]

theorem pageId_laidPage :
    (PageHeader.readFrom (stampChecksum (laidPage pageId ty bytes))).pageId = pageId := by
  have h := congrArg PageHeader.pageId
    (readFrom_writeTo (new pageId ty) Page.zero)
  simp only [readFrom] at h ⊢
  rw [num_stampChecksum (by omega), laidPage,
    Page.num_write_disjoint (by simp [PAGE_HEADER_SIZE])]
  exact h

theorem read_laidPage {off len : Nat} (hfit : PAGE_HEADER_SIZE + bytes.length ≤ PAGE_SIZE)
    (hl : PAGE_HEADER_SIZE ≤ off) (hr : off + len ≤ PAGE_HEADER_SIZE + bytes.length) :
    (stampChecksum (laidPage pageId ty bytes)).read off len
      = slice (off - PAGE_HEADER_SIZE) len bytes := by
  rw [read_stampChecksum (.inr hl), laidPage, Page.read_write_within hfit hl hr]

variable {fixed body : List UInt8}

theorem read_laidPage_fixed {off len : Nat}
    (hfit : PAGE_HEADER_SIZE + (fixed ++ body).length ≤ PAGE_SIZE) (hl : 32 ≤ off)
    (hr : off + len ≤ 32 + fixed.length) :
    (stampChecksum (laidPage pageId ty (fixed ++ body))).read off len
      = slice (off - 32) len fixed := by
  rw [read_laidPage hfit hl (by simp [PAGE_HEADER_SIZE]; omega),
    slice_append_left (by simp only [PAGE_HEADER_SIZE]; omega)]
  rfl

theorem read_laidPage_body {start len : Nat}
    (hfit : PAGE_HEADER_SIZE + (fixed ++ body).length ≤ PAGE_SIZE)
    (hs : start = 32 + fixed.length) (hl : body.length = len) :
    (stampChecksum (laidPage pageId ty (fixed ++ body))).read start len = body := by
  subst hs hl
  rw [read_laidPage hfit (by simp [PAGE_HEADER_SIZE]) (by simp [PAGE_HEADER_SIZE]; omega),
    slice_append_right (by simp [PAGE_HEADER_SIZE])]
  simp [PAGE_HEADER_SIZE]

end Laid

/-! ### Nodes -/

/-- An entry of an internal node: a key and the child left of it. -/
structure InternalEntry (K : Type) where
  key : K
  childPageId : UInt32
  deriving DecidableEq

/-- An entry of a leaf: a key and where its document is. -/
structure LeafEntry (K : Type) where
  key : K
  pageId : UInt32
  slotId : UInt16
  deriving DecidableEq

section Rows

variable {K : Type}

def rowOf : List (InternalEntry K) → UInt32 → Row K UInt32
  | [], right => ⟨right, []⟩
  | e :: es, right => ⟨e.childPageId, (e.key, (rowOf es right).first) :: (rowOf es right).rest⟩

@[simp] theorem keys_rowOf (es : List (InternalEntry K)) (right : UInt32) :
    (rowOf es right).keys = es.map InternalEntry.key := by
  induction es with
  | nil => rfl
  | cons e es ih => simpa [rowOf, Row.keys] using ih

@[simp] theorem children_rowOf (es : List (InternalEntry K)) (right : UInt32) :
    (rowOf es right).children = es.map InternalEntry.childPageId ++ [right] := by
  induction es with
  | nil => rfl
  | cons e es ih => simpa [rowOf, children] using ih

theorem rowOf_append (es : List (InternalEntry K)) (e : InternalEntry K)
    (es' : List (InternalEntry K)) (right : UInt32) :
    rowOf (es ++ e :: es') right = (rowOf es e.childPageId).join e.key (rowOf es' right) := by
  induction es with
  | nil => rfl
  | cons d es ih => simp [rowOf, ih, join]

theorem rowOf_zipWith {r : Row K UInt32} {ks : List K} {cs : List UInt32} (hk : r.keys = ks)
    (hc : r.children = cs) : rowOf (List.zipWith InternalEntry.mk ks cs) (cs.getLastD 0) = r := by
  obtain ⟨f, l⟩ := r
  subst hk hc
  induction l generalizing f with
  | nil => simp [Row.keys, children, rowOf]
  | cons p l ih =>
    have hrest := ih p.2
    simp only [Row.keys, children, getLastD_eq_getLast?] at hrest
    simp [Row.keys, children, rowOf, hrest]

end Rows

section Nodes

variable (K : Type) [LinearOrder K] [BTreeKey K]

def internalEntriesStart : Nat := PAGE_HEADER_SIZE + 6 + metaBytes K

def leafEntriesStart : Nat := PAGE_HEADER_SIZE + 10 + metaBytes K

variable {K}

def internalMaxKeys (cfg : Config K) : Nat :=
  (PAGE_USABLE_SPACE - (6 + metaBytes K)) / (slotKeySize cfg + 4)

def leafMaxEntries (cfg : Config K) : Nat :=
  (PAGE_USABLE_SPACE - (10 + metaBytes K)) / (slotKeySize cfg + 6)

def internalMinKeys (cfg : Config K) : Nat := internalMaxKeys cfg * 40 / 100

def leafMinEntries (cfg : Config K) : Nat := leafMaxEntries cfg * 40 / 100

variable (K)

/-- An internal node.  `entries[i].childPageId` is the child left of
`entries[i].key`; `rightChild` is the child right of the last key. -/
structure InternalNode where
  pageId : UInt32
  rightChild : UInt32
  config : Config K
  entries : List (InternalEntry K)

/-- A leaf, linked to the leaves before and after it. -/
structure LeafNode where
  pageId : UInt32
  nextLeaf : UInt32
  prevLeaf : UInt32
  config : Config K
  entries : List (LeafEntry K)

inductive NodeRef where
  | internal (n : InternalNode K)
  | leaf (n : LeafNode K)

variable {K}

variable {cfg : Config K}

theorem leaf_fits {n : Nat} (h : n ≤ leafMaxEntries cfg) :
    10 + metaBytes K + n * (slotKeySize cfg + 6) ≤ PAGE_USABLE_SPACE := by
  have hm := metaBytes_le (K := K)
  rw [leafMaxEntries, Nat.le_div_iff_mul_le (by omega)] at h
  simp only [PAGE_USABLE_SPACE, PAGE_SIZE, PAGE_HEADER_SIZE] at h ⊢
  omega

theorem internal_fits {n : Nat} (h : n ≤ internalMaxKeys cfg) :
    6 + metaBytes K + n * (slotKeySize cfg + 4) ≤ PAGE_USABLE_SPACE := by
  have hm := metaBytes_le (K := K)
  rw [internalMaxKeys, Nat.le_div_iff_mul_le (by omega)] at h
  simp only [PAGE_USABLE_SPACE, PAGE_SIZE, PAGE_HEADER_SIZE] at h ⊢
  omega

theorem le_leafMaxEntries (h : Valid cfg) : 30 ≤ leafMaxEntries cfg := by
  have hs := slotKeySize_le cfg h
  have hm := metaBytes_le (K := K)
  rw [leafMaxEntries, Nat.le_div_iff_mul_le (by omega)]
  simp only [PAGE_USABLE_SPACE, PAGE_SIZE, PAGE_HEADER_SIZE]
  omega

theorem le_internalMaxKeys (h : Valid cfg) : 30 ≤ internalMaxKeys cfg := by
  have hs := slotKeySize_le cfg h
  have hm := metaBytes_le (K := K)
  rw [internalMaxKeys, Nat.le_div_iff_mul_le (by omega)]
  simp only [PAGE_USABLE_SPACE, PAGE_SIZE, PAGE_HEADER_SIZE]
  omega

/-! ### Leaves -/

namespace LeafNode

def new (pageId : UInt32) (config : Config K) : LeafNode K := ⟨pageId, 0, 0, config, []⟩

def encodeEntry (cfg : Config K) (e : LeafEntry K) : Except Halt (List UInt8) := do
  let key ← writeKey cfg e.key
  pure (key ++ (leBytes 4 e.pageId.toNat ++ leBytes 2 e.slotId.toNat))

def decodeEntry (cfg : Config K) (buf : List UInt8) : Except Halt (LeafEntry K) := do
  let key ← readKey cfg (slice 0 (slotKeySize cfg) buf)
  pure ⟨key, UInt32.ofNat (leNat (slice (slotKeySize cfg) 4 buf)),
    UInt16.ofNat (leNat (slice (slotKeySize cfg + 4) 2 buf))⟩

def fixedBytes (n : LeafNode K) : List UInt8 :=
  leBytes 2 n.entries.length ++ (leBytes 4 n.nextLeaf.toNat ++ (leBytes 4 n.prevLeaf.toNat ++
    configBytes n.config))

def toBytes (n : LeafNode K) : Except Halt Page := do
  let body ← writeEntries (encodeEntry n.config) n.entries
  if PAGE_HEADER_SIZE + (n.fixedBytes ++ body).length ≤ PAGE_SIZE then
    pure (laidPage n.pageId .bTreeLeaf (n.fixedBytes ++ body))
  else .error .index

def fromBytes (p : Page) : Except Halt (LeafNode K) := do
  let config : Config K := readConfig (p.read (PAGE_HEADER_SIZE + 10) (metaBytes K))
  let entries ← readEntries (decodeEntry config) p (slotKeySize config + 6) (leafEntriesStart K)
    (p.num 32 2)
  pure ⟨(PageHeader.readFrom p).pageId, UInt32.ofNat (p.num 34 4), UInt32.ofNat (p.num 38 4),
    config, entries⟩

def search (n : LeafNode K) (key : K) : Option Nat :=
  match binarySearchBy LeafEntry.key key n.entries with
  | .ok i => some i
  | .error _ => none

def insertEntry (n : LeafNode K) (e : LeafEntry K) : LeafNode K :=
  { n with entries :=
      n.entries.insertIdx (searchIndex (binarySearchBy LeafEntry.key e.key n.entries)) e }

def removeEntry (n : LeafNode K) (key : K) : Option (LeafNode K) :=
  match binarySearchBy LeafEntry.key key n.entries with
  | .ok i => some { n with entries := n.entries.eraseIdx i }
  | .error _ => none

def isOverfull (n : LeafNode K) : Bool := n.entries.length > leafMaxEntries n.config

def isUnderfull (n : LeafNode K) : Bool := n.entries.length < leafMinEntries n.config

theorem encodeEntry_ok {cfg : Config K} {e : LeafEntry K} (h : Fits cfg e.key) :
    ∃ b, encodeEntry cfg e = .ok b ∧ b.length = slotKeySize cfg + 6 ∧
      decodeEntry cfg b = .ok e := by
  obtain ⟨kb, hkb, hlen, hread⟩ := writeKey_fits cfg e.key h
  refine ⟨kb ++ (leBytes 4 e.pageId.toNat ++ leBytes 2 e.slotId.toNat),
    by rw [encodeEntry, hkb]; rfl, by simp [hlen], ?_⟩
  have hpage : slice (slotKeySize cfg) 4
      (kb ++ (leBytes 4 e.pageId.toNat ++ leBytes 2 e.slotId.toNat))
      = leBytes 4 e.pageId.toNat := by
    rw [slice_append_right hlen.le, hlen, Nat.sub_self, slice_append_self (length_leBytes _ _)]
  have hslot : slice (slotKeySize cfg + 4) 2
      (kb ++ (leBytes 4 e.pageId.toNat ++ leBytes 2 e.slotId.toNat))
      = leBytes 2 e.slotId.toNat := by
    rw [slice_append_right (by omega), hlen, Nat.add_sub_cancel_left,
      slice_append_right (by simp), length_leBytes, slice_self (length_leBytes _ _)]
  rw [decodeEntry, slice_append_self hlen, hread, hpage, hslot, ofNat_leNat_u32, ofNat_leNat_u16]
  rfl

theorem length_fixedBytes (n : LeafNode K) : n.fixedBytes.length = 10 + metaBytes K := by
  simp [fixedBytes, length_configBytes]
  omega

theorem toBytes_ok [Crc32] {n : LeafNode K} (hn : n.entries.length ≤ leafMaxEntries n.config)
    (hfit : ∀ e ∈ n.entries, Fits n.config e.key) :
    ∃ p, n.toBytes = .ok p ∧ PageHeader.pageTypeOf p = .bTreeLeaf ∧
      fromBytes (stampChecksum p) = .ok n := by
  obtain ⟨body, hbody, hlen, hread⟩ := writeEntries_ok fun e he => encodeEntry_ok (hfit e he)
  have hroom := leaf_fits hn
  have hfix := n.length_fixedBytes
  simp only [PAGE_USABLE_SPACE, PAGE_SIZE, PAGE_HEADER_SIZE] at hroom
  have hall : PAGE_HEADER_SIZE + (n.fixedBytes ++ body).length ≤ PAGE_SIZE := by
    simp only [length_append, PAGE_SIZE, PAGE_HEADER_SIZE]
    omega
  refine ⟨_, by rw [toBytes, hbody]; exact if_pos hall, pageTypeOf_laidPage, ?_⟩
  set q := stampChecksum (laidPage n.pageId .bTreeLeaf (n.fixedBytes ++ body))
  -- Each field is a slice of `fixedBytes`; the entries follow it.
  have field : ∀ off len, 32 ≤ off → off + len ≤ 42 + metaBytes K →
      q.read off len = slice (off - 32) len n.fixedBytes :=
    fun off len hl hr => read_laidPage_fixed hall hl (by omega)
  have hcount : q.num 32 2 = n.entries.length := by
    rw [Page.num, field _ _ (by omega) (by omega), fixedBytes,
      slice_append_self (length_leBytes _ _), leNat_leBytes]
    have := Nat.le_mul_of_pos_right n.entries.length (by omega : 0 < slotKeySize n.config + 6)
    omega
  have hnext : UInt32.ofNat (q.num 34 4) = n.nextLeaf := by
    rw [Page.num, field _ _ (by omega) (by omega), fixedBytes, slice_append_right (by simp),
      length_leBytes, slice_append_self (length_leBytes _ _), ofNat_leNat_u32]
  have hprev : UInt32.ofNat (q.num 38 4) = n.prevLeaf := by
    rw [Page.num, field _ _ (by omega) (by omega), fixedBytes, slice_append_right (by simp),
      length_leBytes, slice_append_right (by simp), length_leBytes,
      slice_append_self (length_leBytes _ _), ofNat_leNat_u32]
  have hconf : readConfig (q.read (PAGE_HEADER_SIZE + 10) (metaBytes K)) = n.config := by
    rw [field _ _ (by simp [PAGE_HEADER_SIZE]) (by simp [PAGE_HEADER_SIZE]), fixedBytes,
      slice_append_right (by simp [PAGE_HEADER_SIZE]),
      slice_append_right (by simp [PAGE_HEADER_SIZE]),
      slice_append_right (by simp [PAGE_HEADER_SIZE])]
    simp [PAGE_HEADER_SIZE, length_configBytes, readConfig_configBytes]
  have hentries : readEntries (decodeEntry n.config) q (slotKeySize n.config + 6)
      (leafEntriesStart K) n.entries.length = .ok n.entries := by
    apply hread
    · simp only [leafEntriesStart, PAGE_HEADER_SIZE, PAGE_SIZE]
      omega
    · exact read_laidPage_body hall (by simp [leafEntriesStart, PAGE_HEADER_SIZE]; omega) hlen
  simp only [fromBytes, hconf, hcount, hentries, hnext, hprev, pageId_laidPage, q]
  rfl

variable {n : LeafNode K} {key : K} {e : LeafEntry K} {a b : List (LeafEntry K)}

theorem search_found (hn : n.entries = a ++ e :: b) (ha : ∀ x ∈ a, x.key < e.key) :
    n.search e.key = some a.length := by
  simp [search, hn, binarySearchBy_found ha rfl]

theorem search_missing (hn : n.entries = a ++ b) (ha : ∀ x ∈ a, x.key < key)
    (hb : ∀ x ∈ b, key < x.key) : n.search key = none := by
  simp [search, hn, binarySearchBy_missing ha hb]

theorem insertEntry_eq (hn : n.entries = a ++ b) (ha : ∀ x ∈ a, x.key < e.key)
    (hb : ∀ x ∈ b, e.key < x.key) : n.insertEntry e = { n with entries := a ++ e :: b } := by
  simp [insertEntry, hn, binarySearchBy_missing ha hb, searchIndex, insertIdx_length]

theorem removeEntry_found (hn : n.entries = a ++ e :: b) (ha : ∀ x ∈ a, x.key < e.key) :
    n.removeEntry e.key = some { n with entries := a ++ b } := by
  simp [removeEntry, hn, binarySearchBy_found ha rfl, eraseIdx_append_of_length_le]

theorem removeEntry_missing (hn : n.entries = a ++ b) (ha : ∀ x ∈ a, x.key < key)
    (hb : ∀ x ∈ b, key < x.key) : n.removeEntry key = none := by
  simp [removeEntry, hn, binarySearchBy_missing ha hb]

end LeafNode

/-! ### Internal nodes -/

namespace InternalNode

def new (pageId : UInt32) (config : Config K) : InternalNode K := ⟨pageId, 0, config, []⟩

def encodeEntry (cfg : Config K) (e : InternalEntry K) : Except Halt (List UInt8) := do
  let key ← writeKey cfg e.key
  pure (key ++ leBytes 4 e.childPageId.toNat)

def decodeEntry (cfg : Config K) (buf : List UInt8) : Except Halt (InternalEntry K) := do
  let key ← readKey cfg (slice 0 (slotKeySize cfg) buf)
  pure ⟨key, UInt32.ofNat (leNat (slice (slotKeySize cfg) 4 buf))⟩

def fixedBytes (n : InternalNode K) : List UInt8 :=
  leBytes 2 n.entries.length ++ (leBytes 4 n.rightChild.toNat ++ configBytes n.config)

def toBytes (n : InternalNode K) : Except Halt Page := do
  let body ← writeEntries (encodeEntry n.config) n.entries
  if PAGE_HEADER_SIZE + (n.fixedBytes ++ body).length ≤ PAGE_SIZE then
    pure (laidPage n.pageId .bTreeInternal (n.fixedBytes ++ body))
  else .error .index

def fromBytes (p : Page) : Except Halt (InternalNode K) := do
  let config : Config K := readConfig (p.read (PAGE_HEADER_SIZE + 6) (metaBytes K))
  let entries ← readEntries (decodeEntry config) p (slotKeySize config + 4)
    (internalEntriesStart K) (p.num 32 2)
  pure ⟨(PageHeader.readFrom p).pageId, UInt32.ofNat (p.num 34 4), config, entries⟩

def findChildIndex (n : InternalNode K) (key : K) : Nat :=
  partitionPoint (fun e => decide (e.key ≤ key)) n.entries

def getChildAt (n : InternalNode K) (childIdx : Nat) : UInt32 :=
  match n.entries[childIdx]? with
  | some e => e.childPageId
  | none => n.rightChild

def findChild (n : InternalNode K) (key : K) : UInt32 :=
  n.getChildAt (n.findChildIndex key)

/-- The node without the child at `mergedChildIdx` and the key before it. -/
def removeChild (n : InternalNode K) (mergedChildIdx : Nat) : InternalNode K :=
  let children := (n.entries.map InternalEntry.childPageId ++ [n.rightChild]).eraseIdx
    mergedChildIdx
  let keys := (n.entries.map InternalEntry.key).eraseIdx (mergedChildIdx - 1)
  { n with
    entries := List.zipWith InternalEntry.mk keys children
    rightChild := children.getLastD 0 }

def setKey (n : InternalNode K) (i : Nat) (key : K) : InternalNode K :=
  { n with entries := n.entries.modify i fun e => { e with key := key } }

def insertEntry (n : InternalNode K) (key : K) (rightChildPageId : UInt32) : InternalNode K :=
  let pos := searchIndex (binarySearchBy InternalEntry.key key n.entries)
  match n.entries[pos]? with
  | some e =>
    -- The old left pointer stays with the new key; the shifted entry gets the
    -- new right child.
    { n with entries := n.entries.take pos ++
        ⟨key, e.childPageId⟩ :: ⟨e.key, rightChildPageId⟩ :: n.entries.drop (pos + 1) }
  | none =>
    { n with entries := n.entries ++ [⟨key, n.rightChild⟩], rightChild := rightChildPageId }

def isOverfull (n : InternalNode K) : Bool := n.entries.length > internalMaxKeys n.config

def isUnderfull (n : InternalNode K) : Bool := n.entries.length < internalMinKeys n.config

theorem encodeEntry_ok {cfg : Config K} {e : InternalEntry K} (h : Fits cfg e.key) :
    ∃ b, encodeEntry cfg e = .ok b ∧ b.length = slotKeySize cfg + 4 ∧
      decodeEntry cfg b = .ok e := by
  obtain ⟨kb, hkb, hlen, hread⟩ := writeKey_fits cfg e.key h
  refine ⟨kb ++ leBytes 4 e.childPageId.toNat, by rw [encodeEntry, hkb]; rfl, by simp [hlen], ?_⟩
  have hchild : slice (slotKeySize cfg) 4 (kb ++ leBytes 4 e.childPageId.toNat)
      = leBytes 4 e.childPageId.toNat := by
    rw [slice_append_right hlen.le, hlen, Nat.sub_self, slice_self (length_leBytes _ _)]
  rw [decodeEntry, slice_append_self hlen, hread, hchild, ofNat_leNat_u32]
  rfl

theorem length_fixedBytes (n : InternalNode K) : n.fixedBytes.length = 6 + metaBytes K := by
  simp [fixedBytes, length_configBytes]
  omega

variable {n : InternalNode K}

theorem toBytes_ok [Crc32] (hn : n.entries.length ≤ internalMaxKeys n.config)
    (hfit : ∀ e ∈ n.entries, Fits n.config e.key) :
    ∃ p, n.toBytes = .ok p ∧ PageHeader.pageTypeOf p = .bTreeInternal ∧
      fromBytes (stampChecksum p) = .ok n := by
  obtain ⟨body, hbody, hlen, hread⟩ := writeEntries_ok fun e he => encodeEntry_ok (hfit e he)
  have hroom := internal_fits hn
  have hfix := n.length_fixedBytes
  simp only [PAGE_USABLE_SPACE, PAGE_SIZE, PAGE_HEADER_SIZE] at hroom
  have hall : PAGE_HEADER_SIZE + (n.fixedBytes ++ body).length ≤ PAGE_SIZE := by
    simp only [length_append, PAGE_SIZE, PAGE_HEADER_SIZE]
    omega
  refine ⟨_, by rw [toBytes, hbody]; exact if_pos hall, pageTypeOf_laidPage, ?_⟩
  set q := stampChecksum (laidPage n.pageId .bTreeInternal (n.fixedBytes ++ body))
  have field : ∀ off len, 32 ≤ off → off + len ≤ 38 + metaBytes K →
      q.read off len = slice (off - 32) len n.fixedBytes :=
    fun off len hl hr => read_laidPage_fixed hall hl (by omega)
  have hcount : q.num 32 2 = n.entries.length := by
    rw [Page.num, field _ _ (by omega) (by omega), fixedBytes,
      slice_append_self (length_leBytes _ _), leNat_leBytes]
    have := Nat.le_mul_of_pos_right n.entries.length (by omega : 0 < slotKeySize n.config + 4)
    omega
  have hright : UInt32.ofNat (q.num 34 4) = n.rightChild := by
    rw [Page.num, field _ _ (by omega) (by omega), fixedBytes, slice_append_right (by simp),
      length_leBytes, slice_append_self (length_leBytes _ _), ofNat_leNat_u32]
  have hconf : readConfig (q.read (PAGE_HEADER_SIZE + 6) (metaBytes K)) = n.config := by
    rw [field _ _ (by simp [PAGE_HEADER_SIZE]) (by simp [PAGE_HEADER_SIZE]), fixedBytes,
      slice_append_right (by simp [PAGE_HEADER_SIZE]),
      slice_append_right (by simp [PAGE_HEADER_SIZE])]
    simp [PAGE_HEADER_SIZE, length_configBytes, readConfig_configBytes]
  have hentries : readEntries (decodeEntry n.config) q (slotKeySize n.config + 4)
      (internalEntriesStart K) n.entries.length = .ok n.entries := by
    apply hread
    · simp only [internalEntriesStart, PAGE_HEADER_SIZE, PAGE_SIZE]
      omega
    · exact read_laidPage_body hall
        (by simp [internalEntriesStart, PAGE_HEADER_SIZE]; omega) hlen
  simp only [fromBytes, hconf, hcount, hentries, hright, pageId_laidPage, q]
  rfl

/-! ### Internal nodes as rows -/

def row (n : InternalNode K) : Row K UInt32 := rowOf n.entries n.rightChild

theorem keys_row (n : InternalNode K) : n.row.keys = n.entries.map InternalEntry.key :=
  keys_rowOf _ _

theorem length_entries {r : Row K UInt32} (h : n.row = r) : n.entries.length = r.keys.length := by
  rw [← h, keys_row, length_map]

variable {n : InternalNode K} {F : Hole K UInt32} {c : UInt32} {key : K}

theorem getChildAt_eq (h : n.row = F.fill c) : n.getChildAt F.idx = c := by
  have hc := congrArg children h
  rw [row, children_rowOf, children_fill] at hc
  have hi : (n.entries.map InternalEntry.childPageId ++ [n.rightChild])[F.idx]? = some c := by
    rw [hc, ← length_leftChildren, getElem?_append_right le_rfl, Nat.sub_self]
    rfl
  have hlen : n.entries.length = F.leftChildren.length + F.rightChildren.length := by
    have := congrArg length hc
    simp only [length_append, length_map, length_cons, length_nil] at this
    omega
  rw [getChildAt]
  rcases he : n.entries[F.idx]? with _ | e
  · have hlast : F.idx = n.entries.length := by
      have h1 := getElem?_eq_none_iff.mp he
      have h2 := F.length_leftChildren
      omega
    rw [hlast] at hi
    simpa using hi
  · have hlt : F.idx < n.entries.length := (List.getElem?_eq_some_iff.mp he).1
    rw [getElem?_append_left (by simpa using hlt), getElem?_map, he] at hi
    simpa using hi

/-- The child taken for a key has the keys up to it on its left. -/
theorem findChildIndex_spec (h : n.row = F.fill c) (hi : F.idx = n.findChildIndex key) :
    (∀ k ∈ F.leftKeys, k ≤ key) ∧ ∀ k ∈ F.rightKeys.head?, key < k := by
  have hk := congrArg Row.keys h
  rw [keys_row, keys_fill] at hk
  rw [findChildIndex, partitionPoint, ← length_leftKeys] at hi
  have hsplit := takeWhile_append_dropWhile (p := fun e => decide (e.key ≤ key))
    (l := n.entries)
  rw [← hsplit, map_append] at hk
  obtain ⟨hl, hr⟩ := append_inj hk.symm (by rw [hi, length_map])
  constructor
  · intro k hkl
    rw [hl] at hkl
    obtain ⟨e, he, rfl⟩ := mem_map.mp hkl
    simpa using mem_takeWhile_imp he
  · intro k hkr
    rw [hr, head?_map] at hkr
    obtain ⟨e, he, rfl⟩ := Option.map_eq_some_iff.mp hkr
    have := head?_dropWhile_not (fun e : InternalEntry K => decide (e.key ≤ key)) n.entries
    rw [he] at this
    simpa using this

theorem findChildIndex_le (n : InternalNode K) (key : K) :
    n.findChildIndex key ≤ n.entries.length :=
  (List.takeWhile_sublist _).length_le

theorem entries_of_row (h : n.row = F.fill c) :
    ∃ A B, n.entries = A ++ B ∧ A.map InternalEntry.key = F.leftKeys ∧
      B.map InternalEntry.key = F.rightKeys ∧
      A.map InternalEntry.childPageId = F.leftChildren ∧
      B.map InternalEntry.childPageId ++ [n.rightChild] = c :: F.rightChildren := by
  have hk := congrArg Row.keys h
  have hc := congrArg children h
  rw [keys_row, keys_fill] at hk
  rw [row, children_rowOf, children_fill] at hc
  obtain ⟨A, B, hAB, hA, hB⟩ := map_eq_append_iff.mp hk
  rw [hAB, map_append, append_assoc] at hc
  have hlen : (A.map InternalEntry.childPageId).length = F.leftChildren.length := by
    rw [length_map, length_leftChildren, ← length_leftKeys, ← hA, length_map]
  obtain ⟨h1, h2⟩ := append_inj hc hlen
  exact ⟨A, B, hAB, hA, hB, h1, h2⟩

variable {r : UInt32}

@[simp] theorem pageId_insertEntry : (n.insertEntry key r).pageId = n.pageId := by
  simp only [insertEntry]
  split <;> rfl

@[simp] theorem config_insertEntry : (n.insertEntry key r).config = n.config := by
  simp only [insertEntry]
  split <;> rfl

theorem row_insertEntry (h : n.row = F.fill c) (hl : ∀ k ∈ F.leftKeys, k < key)
    (hr : ∀ k ∈ F.rightKeys, key < k) : (n.insertEntry key r).row = (F.pushRight key r).fill c := by
  obtain ⟨A, B, hAB, hA, hB, hAc, hBc⟩ := entries_of_row h
  have hpos : searchIndex (binarySearchBy InternalEntry.key key (A ++ B)) = A.length := by
    rw [binarySearchBy_missing]
    · rfl
    · exact fun e he => hl e.key (hA ▸ mem_map_of_mem he)
    · exact fun e he => hr e.key (hB ▸ mem_map_of_mem he)
  apply ext_of_keys_children
  · rw [keys_row, keys_fill, leftKeys_pushRight, rightKeys_pushRight, ← hA, ← hB]
    rcases B with _ | ⟨e, B⟩
    · rw [append_nil] at hAB hpos
      simp [insertEntry, hAB, hpos]
    · simp [insertEntry, hAB, hpos]
  · rw [row, children_fill, leftChildren_pushRight, ← hAc]
    rcases B with _ | ⟨e, B⟩
    · rw [append_nil] at hAB hpos
      have hnil : n.rightChild = c ∧ F.rightChildren = [] := by simpa using hBc
      simp [insertEntry, hAB, hpos, hnil.1, hnil.2]
    · simp only [map_cons, cons_append, cons.injEq] at hBc
      simp [insertEntry, hAB, hpos, hBc.1, ← hBc.2]

variable {k : K}

theorem row_removeChild {b : UInt32} (h : n.row = (F.pushRight k b).fill c) :
    (n.removeChild (F.idx + 1)).row = F.fill c := by
  have hk := congrArg Row.keys h
  have hc := congrArg children h
  rw [keys_row, keys_fill, leftKeys_pushRight, rightKeys_pushRight] at hk
  rw [row, children_rowOf, children_fill, leftChildren_pushRight,
    rightChildren_pushRight] at hc
  have hk' : (n.entries.map InternalEntry.key).eraseIdx F.idx = F.leftKeys ++ F.rightKeys := by
    rw [hk, ← length_leftKeys, eraseIdx_append_of_length_le le_rfl, Nat.sub_self]
    rfl
  have hc' : (n.entries.map InternalEntry.childPageId ++ [n.rightChild]).eraseIdx (F.idx + 1)
      = F.leftChildren ++ c :: F.rightChildren := by
    rw [hc, ← length_leftChildren, eraseIdx_append_of_length_le (Nat.le_add_right _ 1),
      Nat.add_sub_cancel_left]
    rfl
  rw [removeChild, Nat.add_sub_cancel, hk', hc']
  exact rowOf_zipWith keys_fill children_fill

theorem row_setKey {k x : K} {b : UInt32} (h : n.row = (F.pushRight k b).fill c) :
    (n.setKey F.idx x).row = (F.pushRight x b).fill c := by
  obtain ⟨A, B, hAB, hA, hB, hAc, hBc⟩ := entries_of_row h
  rw [leftKeys_pushRight] at hA
  rw [rightKeys_pushRight] at hB
  rcases B with _ | ⟨e, B⟩
  · simp at hB
  have hidx : F.idx = A.length := by rw [← length_leftKeys, ← hA, length_map]
  have hset : (n.setKey F.idx x).entries = A ++ { e with key := x } :: B := by
    rw [setKey, hAB, hidx, modify_length]
  rw [map_cons, cons.injEq] at hB
  apply ext_of_keys_children
  · rw [keys_row, hset]
    simp [hA, hB.2]
  · rw [row, hset, children_fill, leftChildren_pushRight,
      rightChildren_pushRight]
    rw [leftChildren_pushRight] at hAc
    rw [rightChildren_pushRight] at hBc
    rw [← hBc, ← hAc]
    simp [setKey]

theorem entries_of_join {a b : Row K UInt32} (h : n.row = a.join k b) :
    ∃ A e B, n.entries = A ++ e :: B ∧ A.length = a.keys.length ∧ e.key = k ∧
      rowOf A e.childPageId = a ∧ rowOf B n.rightChild = b := by
  have hk := congrArg Row.keys h
  rw [keys_row, keys_join] at hk
  obtain ⟨A, B, hAB, hA, hB⟩ := map_eq_append_iff.mp hk
  obtain ⟨e, B, rfl, he, hB⟩ := map_eq_cons_iff.mp hB
  have hAl : A.length = a.keys.length := by simpa using congrArg length hA
  rw [row, hAB, rowOf_append, Row.mk.injEq] at h
  have hrest : (rowOf A e.childPageId).rest.length = a.rest.length := by
    have := congrArg length (keys_rowOf A e.childPageId)
    simpa [Row.keys, hAl] using this
  obtain ⟨hl, hr⟩ := append_inj h.2 hrest
  rw [cons.injEq, Prod.mk.injEq] at hr
  exact ⟨A, e, B, hAB, hAl, he, Row.ext h.1 hl, Row.ext hr.1.2 hr.2⟩

theorem entries_of_join_last {a : Row K UInt32} (h : n.row = a.join k (.single c)) :
    ∃ A e, n.entries = A ++ [e] ∧ e.key = k ∧ rowOf A e.childPageId = a ∧ n.rightChild = c := by
  obtain ⟨A, e, B, hent, -, hk, hA, hB⟩ := entries_of_join h
  rcases B with _ | ⟨d, B⟩
  · exact ⟨A, e, hent, hk, hA, congrArg first hB⟩
  · have := congrArg (fun r => r.keys.length) hB
    simp at this

theorem entries_of_join_first {b : Row K UInt32} (h : n.row = (Row.single c).join k b) :
    ∃ e B, n.entries = e :: B ∧ e.key = k ∧ e.childPageId = c ∧ rowOf B n.rightChild = b := by
  obtain ⟨A, e, B, hent, hlen, hk, hA, hB⟩ := entries_of_join h
  obtain rfl : A = [] := eq_nil_of_length_eq_zero hlen
  exact ⟨e, B, hent, hk, congrArg first hA, hB⟩

end InternalNode

end Nodes

/-! ### Nodes on pages -/

theorem readEntries_stampChecksum [Crc32] {E : Type} {dec : List UInt8 → Except Halt E}
    {w start : Nat} (p : Page) (n : Nat) (h : 32 ≤ start) :
    readEntries dec (stampChecksum p) w start n = readEntries dec p w start n := by
  induction n generalizing start with
  | zero => rfl
  | succ n ih =>
    simp only [readEntries, read_stampChecksum (.inr h), ih (h.trans (Nat.le_add_right _ _))]

section Pages

variable {K : Type} [LinearOrder K] [BTreeKey K] [Crc32]

theorem LeafNode.fromBytes_stampChecksum (p : Page) :
    (fromBytes (stampChecksum p) : Except Halt (LeafNode K)) = fromBytes p := by
  simp (disch := omega) only [fromBytes, readFrom, PAGE_HEADER_SIZE, leafEntriesStart,
    readEntries_stampChecksum, num_stampChecksum, read_stampChecksum]

theorem InternalNode.fromBytes_stampChecksum (p : Page) :
    (fromBytes (stampChecksum p) : Except Halt (InternalNode K)) = fromBytes p := by
  simp (disch := omega) only [fromBytes, readFrom, PAGE_HEADER_SIZE,
    internalEntriesStart, readEntries_stampChecksum, num_stampChecksum, read_stampChecksum]

variable (K) in
/-- Nodes that are within their bounds are written to one page and read back. -/
def NodesRead : Prop :=
  (∀ n : LeafNode K, n.entries.length ≤ leafMaxEntries n.config →
    (∀ e ∈ n.entries, Fits n.config e.key) →
    ∃ p, n.toBytes = .ok p ∧ LeafNode.fromBytes p = .ok n) ∧
  ∀ n : InternalNode K, n.entries.length ≤ internalMaxKeys n.config →
    (∀ e ∈ n.entries, Fits n.config e.key) →
    ∃ p, n.toBytes = .ok p ∧ InternalNode.fromBytes p = .ok n

end Pages

/-- **Nodes on pages.**  Leaves and inner nodes of both key types are written inside of one
page and read back as they were. -/
theorem node_pages : NodesRead Uuid ∧ NodesRead (List UInt8) := by
  let crc : Crc32 := ⟨fun _ => 0⟩
  have hread (K : Type) [LinearOrder K] [BTreeKey K] : NodesRead K := by
    refine ⟨fun n hn hfit => ?_, fun n hn hfit => ?_⟩
    · obtain ⟨p, hp, -, hback⟩ := LeafNode.toBytes_ok hn hfit
      exact ⟨p, hp, LeafNode.fromBytes_stampChecksum (K := K) p ▸ hback⟩
    · obtain ⟨p, hp, -, hback⟩ := InternalNode.toBytes_ok hn hfit
      exact ⟨p, hp, InternalNode.fromBytes_stampChecksum (K := K) p ▸ hback⟩
  exact ⟨hread Uuid, hread (List UInt8)⟩

end GrumpyDB
