/-
Slotted pages: tuples of any length on one page.

The slot array grows upwards from the header, the tuples downwards from the end. Offset 0 marks
a slot whose tuple has been removed, which the next insert takes again; the space of the tuple
is not. `SlottedPage.Rep p m` reads nothing of the checksum field, so a page that went to disk
and came back represents the same tuples.
-/
import GrumpyDB.Manager

namespace GrumpyDB

open Proc Function PageHeader

namespace Page

def readAt (off len : Nat) : Proc Halt Page (List UInt8) := do
  let p ← Proc.get
  if off + len ≤ PAGE_SIZE then pure (p.read off len) else fail .index

def writeAt (off : Nat) (bs : List UInt8) : Proc Halt Page Unit :=
  if off + bs.length ≤ PAGE_SIZE then modify fun p => p.write off bs else fail .index

variable {p : Page} {E : Halt → Page → Prop}

theorem post_readAt {Q : List UInt8 → Page → Prop} {off len : Nat} (h : off + len ≤ PAGE_SIZE) :
    Post (readAt off len) Q E p ↔ Q (p.read off len) p := by
  simp only [readAt, post_bind, post_get, if_pos h, post_pure]

theorem post_writeAt {Q : Unit → Page → Prop} {off : Nat} {bs : List UInt8}
    (h : off + bs.length ≤ PAGE_SIZE) : Post (writeAt off bs) Q E p ↔ Q () (p.write off bs) := by
  simp only [writeAt, if_pos h, post_modify]

def Same (p q : Page) : Prop :=
  ∀ off len, off + len ≤ 28 ∨ 32 ≤ off → p.read off len = q.read off len

theorem Same.refl (p : Page) : Same p p := fun _ _ _ => rfl

theorem Same.trans {p q r : Page} (h : Same p q) (h' : Same q r) : Same p r :=
  fun off len hr => (h off len hr).trans (h' off len hr)

theorem Same.num {p q : Page} (h : Same p q) {off w : Nat} (hr : off + w ≤ 28 ∨ 32 ≤ off) :
    p.num off w = q.num off w := by
  rw [Page.num, h off w hr, Page.num]

theorem same_stampChecksum [Crc32] (p : Page) : Same (stampChecksum p) p :=
  fun _ _ hr => read_stampChecksum hr

end Page

namespace SlottedPage

/-- Mask of the length field of a slot: bits 0 to 14. -/
def MAX_SLOT_LENGTH : Nat := 0x7FFF

def new (pageId : UInt32) : Page := (PageHeader.new pageId .data).writeTo Page.zero

def numSlots (p : Page) : Nat := p.num 6 2

def freeSpaceStart (p : Page) : Nat := p.num 8 2

def freeSpaceEnd (p : Page) : Nat := p.num 10 2

def freeSpace (p : Page) : Nat := freeSpaceEnd p - freeSpaceStart p

def slotOffset (slotIndex : Nat) : Nat := PAGE_HEADER_SIZE + slotIndex * SLOT_SIZE

def readSlot (slotIndex : Nat) : Proc Halt Page (Nat × Nat) := do
  let offset ← Page.readAt (slotOffset slotIndex) 2
  let rawLen ← Page.readAt (slotOffset slotIndex + 2) 2
  pure (leNat offset, leNat rawLen % 2 ^ 15)

def writeSlot (slotIndex offset length : Nat) : Proc Halt Page Unit :=
  if length > MAX_SLOT_LENGTH then
    fail (.err (.codec ("slot length " ++ toString length ++ " exceeds " ++
      toString MAX_SLOT_LENGTH ++ " (bit 15 reserved for tombstone)")))
  else do
    Page.writeAt (slotOffset slotIndex) (leBytes 2 offset)
    Page.writeAt (slotOffset slotIndex + 2) (leBytes 2 length)

def findTombstoneSlot (i : Nat) : Nat → Proc Halt Page (Option Nat)
  | 0 => pure none
  | n + 1 => do
    let (offset, _) ← readSlot i
    if offset = 0 then pure (some i) else findTombstoneSlot (i + 1) n

def growSlots : Proc Halt Page Nat := do
  let idx ← gets numSlots
  Page.writeAt 6 (leBytes 2 (idx + 1))
  Page.writeAt 8 (leBytes 2 (slotOffset (idx + 1)))
  pure idx

def insert (tupleData : List UInt8) : Proc Halt Page UInt16 := do
  let p ← Proc.get
  if freeSpace p < tupleData.length + SLOT_SIZE then
    fail (.err (.pageFull (PageHeader.readFrom p).pageId))
  else do
    let slotIndex ← match ← findTombstoneSlot 0 (numSlots p) with
      | some i => pure i
      | none => growSlots
    -- The free space holds the tuple, so neither the difference nor the length is cut off.
    let newEnd := freeSpaceEnd p - tupleData.length
    Page.writeAt 10 (leBytes 2 newEnd)
    Page.writeAt newEnd tupleData
    writeSlot slotIndex newEnd tupleData.length
    pure (UInt16.ofNat slotIndex)

def liveSlot (slotIndex : UInt16) : Proc Halt Page (Nat × Nat) := do
  let p ← Proc.get
  if slotIndex.toNat ≥ numSlots p then
    fail (.err (.pageNotFound (PageHeader.readFrom p).pageId))
  else do
    let (offset, length) ← readSlot slotIndex.toNat
    if offset = 0 then fail (.err (.pageNotFound (PageHeader.readFrom p).pageId))
    else pure (offset, length)

def get (slotIndex : UInt16) : Proc Halt Page (List UInt8) := do
  let (offset, length) ← liveSlot slotIndex
  Page.readAt offset length

def delete (slotIndex : UInt16) : Proc Halt Page Unit := do
  let _ ← liveSlot slotIndex
  writeSlot slotIndex.toNat 0 0

/-! ### What a page stores -/

/-- Slot `i` of the page holds the tuple, above the free space. -/
structure Slot (p : Page) (i : Nat) (tuple : List UInt8) : Prop where
  lt : i < numSlots p
  above : freeSpaceEnd p ≤ p.num (slotOffset i) 2
  inside : p.num (slotOffset i) 2 + tuple.length ≤ PAGE_SIZE
  length : p.num (slotOffset i + 2) 2 % 2 ^ 15 = tuple.length
  bytes : p.read (p.num (slotOffset i) 2) tuple.length = tuple

/-- The page stores the tuples `m`. -/
structure Rep (p : Page) (m : UInt16 → Option (List UInt8)) : Prop where
  type : PageHeader.pageTypeOf p = .data
  start : freeSpaceStart p = slotOffset (numSlots p)
  start_le : slotOffset (numSlots p) ≤ freeSpaceEnd p
  end_le : freeSpaceEnd p ≤ PAGE_SIZE
  live : ∀ i tuple, m i = some tuple → Slot p i.toNat tuple
  removed : ∀ i, m i = none → i.toNat < numSlots p → p.num (slotOffset i.toNat) 2 = 0

variable {p q : Page} {m : UInt16 → Option (List UInt8)} {i : UInt16} {tuple : List UInt8}

theorem slotOffset_le {i n : Nat} (h : i < n) : slotOffset i + 4 ≤ slotOffset n := by
  simp only [slotOffset, SLOT_SIZE]
  omega

theorem slotOffset_apart {i j : Nat} (h : i ≠ j) :
    slotOffset i + 4 ≤ slotOffset j ∨ slotOffset j + 4 ≤ slotOffset i := by
  rcases Nat.lt_or_gt_of_ne h with hlt | hlt
  · exact .inl (slotOffset_le hlt)
  · exact .inr (slotOffset_le hlt)

theorem le_slotOffset (i : Nat) : 32 ≤ slotOffset i := Nat.le_add_right _ _

/-- The entry of slot `k` is the same on both pages. -/
def Keeps (p q : Page) (k : Nat) : Prop :=
  ∀ off, slotOffset k ≤ off → off + 2 ≤ slotOffset k + 4 → q.num off 2 = p.num off 2

theorem Slot.congr {k : Nat} (h : Slot p k tuple) (hn : numSlots p ≤ numSlots q)
    (hend : freeSpaceEnd q ≤ freeSpaceEnd p) (hslot : Keeps p q k)
    (hdata : q.read (p.num (slotOffset k) 2) tuple.length
      = p.read (p.num (slotOffset k) 2) tuple.length) : Slot q k tuple := by
  have hoff : q.num (slotOffset k) 2 = p.num (slotOffset k) 2 := hslot _ le_rfl (by omega)
  refine ⟨h.lt.trans_le hn, ?_, ?_, ?_, ?_⟩
  · rw [hoff]
    exact hend.trans h.above
  · rw [hoff]
    exact h.inside
  · rw [hslot _ (by omega) (by omega)]
    exact h.length
  · rw [hoff, hdata]
    exact h.bytes

theorem Rep.same (h : Rep p m) (hs : Page.Same q p) : Rep q m := by
  have hn : numSlots q = numSlots p := hs.num (by omega)
  have hend : freeSpaceEnd q = freeSpaceEnd p := hs.num (by omega)
  have hslot : ∀ i, Keeps p q i := by
    intro i off hoff _
    have := le_slotOffset i
    exact hs.num (by omega)
  refine ⟨?_, ?_, ?_, ?_, ?_, ?_⟩
  · rw [pageTypeOf, hs.num (by omega)]
    exact h.type
  · rw [hn, freeSpaceStart, hs.num (by omega)]
    exact h.start
  · rw [hn, hend]
    exact h.start_le
  · rw [hend]
    exact h.end_le
  · intro i tuple hi
    have := le_slotOffset (numSlots p)
    have := h.start_le
    have := (h.live i tuple hi).above
    exact (h.live i tuple hi).congr hn.ge hend.le (hslot _) (hs _ _ (by omega))
  · intro i hi hlt
    rw [hslot _ _ le_rfl (by omega)]
    exact h.removed i hi (hn ▸ hlt)

/-- The page `q` is `p` but for slot `k` and its tuple. -/
structure Edit (p : Page) (m : UInt16 → Option (List UInt8)) (q : Page) (k : UInt16) :
    Prop where
  type : PageHeader.pageTypeOf q = .data
  start : freeSpaceStart q = slotOffset (numSlots q)
  start_le : slotOffset (numSlots q) ≤ freeSpaceEnd q
  end_le : freeSpaceEnd q ≤ freeSpaceEnd p
  le : numSlots p ≤ numSlots q
  others : ∀ j : UInt16, j ≠ k → j.toNat < numSlots q → j.toNat < numSlots p
  keeps : ∀ j : UInt16, j ≠ k → j.toNat < numSlots p → Keeps p q j.toNat
  data : ∀ j : UInt16, j ≠ k → ∀ t, m j = some t →
    q.read (p.num (slotOffset j.toNat) 2) t.length = p.read (p.num (slotOffset j.toNat) 2) t.length

theorem Rep.edit (h : Rep p m) {k : UInt16} (e : Edit p m q k) {x : Option (List UInt8)}
    (hsome : ∀ t, x = some t → Slot q k.toNat t)
    (hnone : x = none → q.num (slotOffset k.toNat) 2 = 0) : Rep q (Function.update m k x) := by
  refine ⟨e.type, e.start, e.start_le, e.end_le.trans h.end_le, fun j t hj => ?_,
    fun j hj hlt => ?_⟩
  · by_cases hjk : j = k
    · subst hjk
      rw [update_self] at hj
      exact hsome t hj
    · rw [update_of_ne hjk] at hj
      have hs := h.live j t hj
      exact hs.congr e.le e.end_le (e.keeps j hjk hs.lt) (e.data j hjk t hj)
  · by_cases hjk : j = k
    · subst hjk
      rw [update_self] at hj
      exact hnone hj
    · rw [update_of_ne hjk] at hj
      have hjp := e.others j hjk hlt
      rw [e.keeps j hjk hjp _ le_rfl (by omega)]
      exact h.removed j hj hjp

@[simp] theorem numSlots_new (pageId : UInt32) : numSlots (new pageId) = 0 :=
  PageHeader.num_numSlots_writeTo _ _

@[simp] theorem freeSpaceStart_new (pageId : UInt32) : freeSpaceStart (new pageId) = 32 :=
  PageHeader.num_freeSpaceStart_writeTo _ _

@[simp] theorem freeSpaceEnd_new (pageId : UInt32) : freeSpaceEnd (new pageId) = PAGE_SIZE :=
  PageHeader.num_freeSpaceEnd_writeTo _ _

theorem rep_new (pageId : UInt32) : Rep (new pageId) fun _ => none := by
  refine ⟨pageTypeOf_writeTo _ _, ?_, ?_, ?_, ?_, ?_⟩
  · simp [slotOffset, PAGE_HEADER_SIZE]
  · simp [slotOffset, PAGE_HEADER_SIZE, PAGE_SIZE]
  · simp
  · intro i tuple h
    cases h
  · intro i _ hlt
    simp at hlt

/-! ### What each operation does -/

variable {E : Halt → Page → Prop}

theorem Rep.slot_inside (h : Rep p m) {k : Nat} (hk : k < numSlots p) :
    slotOffset k + 4 ≤ PAGE_SIZE :=
  (slotOffset_le hk).trans (h.start_le.trans h.end_le)

theorem Rep.post_readSlot (h : Rep p m) {k : Nat} (hk : k < numSlots p)
    {Q : Nat × Nat → Page → Prop} :
    Post (readSlot k) Q E p ↔
      Q (p.num (slotOffset k) 2, p.num (slotOffset k + 2) 2 % 2 ^ 15) p := by
  have hin := h.slot_inside hk
  rw [readSlot, post_bind, Page.post_readAt (by omega), post_bind, Page.post_readAt (by omega),
    post_pure, Page.num, Page.num]

theorem Rep.post_findTombstoneSlot (h : Rep p m) {k n : Nat} (hn : k + n = numSlots p)
    {Q : Option Nat → Page → Prop}
    (hnone : (∀ j, k ≤ j → j < numSlots p → p.num (slotOffset j) 2 ≠ 0) → Q none p)
    (hsome : ∀ j, j < numSlots p → p.num (slotOffset j) 2 = 0 → Q (some j) p) :
    Post (findTombstoneSlot k n) Q E p := by
  induction n generalizing k with
  | zero => exact hnone fun j hj hlt => by omega
  | succ n ih =>
    have hk : k < numSlots p := by omega
    rw [findTombstoneSlot, post_bind, h.post_readSlot hk]
    by_cases h0 : p.num (slotOffset k) 2 = 0
    · simp only [h0]
      exact hsome k hk h0
    · simp only [h0]
      refine ih (by omega) fun hrest => hnone fun j hj hlt => ?_
      rcases Nat.eq_or_lt_of_le hj with rfl | hj
      · exact h0
      · exact hrest j hj hlt

theorem Slot.offset_pos (h : Rep p m) {k : Nat} (hs : Slot p k tuple) :
    p.num (slotOffset k) 2 ≠ 0 := by
  have := le_slotOffset (numSlots p)
  have := h.start_le
  have := hs.above
  omega

theorem Rep.post_liveSlot (h : Rep p m) (hi : m i = some tuple) {Q : Nat × Nat → Page → Prop} :
    Post (liveSlot i) Q E p ↔ Q (p.num (slotOffset i.toNat) 2, tuple.length) p := by
  have hs := h.live i tuple hi
  rw [liveSlot, post_bind, post_get, if_neg (not_le.mpr hs.lt), post_bind, h.post_readSlot hs.lt]
  simp only [hs.offset_pos h, if_false, post_pure, hs.length]

/-- **Reading** a slot gives its tuple. -/
theorem Rep.post_get (h : Rep p m) (hi : m i = some tuple) {Q : List UInt8 → Page → Prop} :
    Post (get i) Q E p ↔ Q tuple p := by
  have hs := h.live i tuple hi
  rw [SlottedPage.get, post_bind, h.post_liveSlot hi, Page.post_readAt hs.inside, hs.bytes]

def putSlot (k offset length : Nat) (p : Page) : Page :=
  (p.write (slotOffset k) (leBytes 2 offset)).write (slotOffset k + 2) (leBytes 2 length)

theorem read_putSlot {k offset length off len : Nat}
    (h : off + len ≤ slotOffset k ∨ slotOffset k + 4 ≤ off) :
    (putSlot k offset length p).read off len = p.read off len := by
  rw [putSlot, Page.read_write_disjoint (by rw [length_leBytes]; omega),
    Page.read_write_disjoint (by rw [length_leBytes]; omega)]

theorem num_putSlot {k offset length off w : Nat}
    (h : off + w ≤ slotOffset k ∨ slotOffset k + 4 ≤ off) :
    (putSlot k offset length p).num off w = p.num off w := by
  rw [Page.num, read_putSlot h, Page.num]

theorem num_putSlot_offset {k offset length : Nat} (hk : slotOffset k + 4 ≤ PAGE_SIZE)
    (ho : offset < 2 ^ 16) : (putSlot k offset length p).num (slotOffset k) 2 = offset := by
  rw [putSlot, Page.num_write_disjoint (by omega), Page.num_write_self (by omega)]
  exact Nat.mod_eq_of_lt ho

theorem num_putSlot_length {k offset length : Nat} (hk : slotOffset k + 4 ≤ PAGE_SIZE)
    (hl : length < 2 ^ 16) : (putSlot k offset length p).num (slotOffset k + 2) 2 = length := by
  rw [putSlot, Page.num_write_self (by omega)]
  exact Nat.mod_eq_of_lt hl

theorem post_writeSlot {k offset length : Nat} (hl : length ≤ MAX_SLOT_LENGTH)
    (hk : slotOffset k + 4 ≤ PAGE_SIZE) {Q : Unit → Page → Prop} :
    Post (writeSlot k offset length) Q E p ↔ Q () (putSlot k offset length p) := by
  rw [writeSlot, if_neg (not_lt.mpr hl), post_bind,
    Page.post_writeAt (by rw [length_leBytes]; omega),
    Page.post_writeAt (by rw [length_leBytes]; omega), putSlot]

/-- The page with a tuple put at the end of the free space and into slot `k`. -/
def place (k : Nat) (tuple : List UInt8) (p : Page) : Page :=
  putSlot k (freeSpaceEnd p - tuple.length) tuple.length
    ((p.write 10 (leBytes 2 (freeSpaceEnd p - tuple.length))).write
      (freeSpaceEnd p - tuple.length) tuple)

/-- Slot `k` of `q` is there to be filled: `q` is the page `p`, with one slot
more at most. -/
structure Opened (p : Page) (m : UInt16 → Option (List UInt8)) (q : Page) (k : UInt16) :
    Prop where
  unused : m k = none
  lt : k.toNat < numSlots q
  le : numSlots p ≤ numSlots q
  le_succ : numSlots q ≤ numSlots p + 1
  others : ∀ j : UInt16, j ≠ k → j.toNat < numSlots q → j.toNat < numSlots p
  type : PageHeader.pageTypeOf q = .data
  start : freeSpaceStart q = slotOffset (numSlots q)
  end_eq : freeSpaceEnd q = freeSpaceEnd p
  read : ∀ off len, 32 ≤ off → q.read off len = p.read off len

/-- The tuple went to slot `k`, where the free space ended. -/
structure Inserted (p : Page) (m : UInt16 → Option (List UInt8)) (tuple : List UInt8)
    (k : UInt16) (q : Page) : Prop where
  unused : m k = none
  edit : Edit p m q k
  slot : Slot q k.toNat tuple
  offset : q.num (slotOffset k.toNat) 2 + tuple.length = freeSpaceEnd p

theorem Rep.place (h : Rep p m) {k : UInt16} (ho : Opened p m q k)
    (hroom : slotOffset (numSlots q) + tuple.length ≤ freeSpaceEnd p) :
    Inserted p m tuple k (place k.toNat tuple q) := by
  obtain ⟨hm, hk, hle, -, hslots, htype, hstart, hend, hq⟩ := ho
  have hkn := slotOffset_le hk
  have h32k := le_slotOffset k.toNat
  have hpage : PAGE_SIZE = 8192 := rfl
  have hendle := h.end_le
  set newEnd := freeSpaceEnd q - tuple.length with hnew
  have hbounds : slotOffset (numSlots q) ≤ newEnd ∧ newEnd + tuple.length = freeSpaceEnd p := by
    omega
  -- Header fields other than the end of the free space are as on `q`.
  have hhead : ∀ off w, off + w ≤ 10 → (SlottedPage.place k.toNat tuple q).num off w =
    q.num off w := by
    intro off w hw
    rw [SlottedPage.place, num_putSlot (by omega), Page.num_write_disjoint (by omega),
      Page.num_write_disjoint (by omega)]
  have hend' : freeSpaceEnd (SlottedPage.place k.toNat tuple q) = newEnd := by
    rw [freeSpaceEnd, SlottedPage.place, num_putSlot (by omega),
      Page.num_write_disjoint (by omega), Page.num_write_self (by omega)]
    exact Nat.mod_eq_of_lt (by omega)
  have hn' : numSlots (SlottedPage.place k.toNat tuple q) = numSlots q := hhead 6 2 (by omega)
  -- Everything above the header but slot `k` and the new tuple is as on `p`.
  have hkeep : ∀ off len, 32 ≤ off → (off + len ≤ slotOffset k.toNat ∨
      slotOffset k.toNat + 4 ≤ off) → (off + len ≤ newEnd ∨ freeSpaceEnd p ≤ off) →
      (SlottedPage.place k.toNat tuple q).read off len = p.read off len := by
    intro off len hoff hslot hdata
    rw [SlottedPage.place, read_putSlot hslot, Page.read_write_disjoint (by omega),
      Page.read_write_disjoint (by rw [length_leBytes]; omega), hq off len hoff]
  have hoff : (SlottedPage.place k.toNat tuple q).num (slotOffset k.toNat) 2 = newEnd :=
    num_putSlot_offset (by omega) (by omega)
  refine ⟨hm, ⟨?_, ?_, ?_, ?_, hn' ▸ hle, hn' ▸ hslots, ?_, ?_⟩, ⟨hn' ▸ hk, by rw [hoff, hend'],
    by omega, ?_, ?_⟩, by rw [hoff]; exact hbounds.2⟩
  · rw [pageTypeOf, hhead 4 1 (by omega)]
    exact htype
  · rw [hn', freeSpaceStart, hhead 8 2 (by omega)]
    exact hstart
  · rw [hn', hend']
    exact hbounds.1
  · omega
  · intro j hj hlt off hlo hhi
    have hapart := slotOffset_apart fun he => hj (UInt16.toNat_inj.mp he)
    have hjn := slotOffset_le (hlt.trans_le hle)
    have h32j := le_slotOffset j.toNat
    rw [Page.num, hkeep off 2 (by omega) (by omega) (by omega), Page.num]
  · intro j _ t hj
    have habove := (h.live j t hj).above
    exact hkeep _ _ (by omega) (by omega) (.inr habove)
  · rw [SlottedPage.place, num_putSlot_length (by omega) (by omega)]
    exact Nat.mod_eq_of_lt (by omega)
  · rw [hoff, SlottedPage.place, read_putSlot (by omega), Page.read_write_self rfl (by omega)]

def grow (p : Page) : Page :=
  (p.write 6 (leBytes 2 (numSlots p + 1))).write 8 (leBytes 2 (slotOffset (numSlots p + 1)))

theorem read_grow {off len : Nat} (h : off + len ≤ 6 ∨ 10 ≤ off) :
    (grow p).read off len = p.read off len := by
  rw [grow, Page.read_write_disjoint (by rw [length_leBytes]; omega),
    Page.read_write_disjoint (by rw [length_leBytes]; omega)]

theorem numSlots_grow (h : numSlots p + 1 < 2 ^ 16) : numSlots (grow p) = numSlots p + 1 := by
  rw [numSlots, grow, Page.num_write_disjoint (by omega), Page.num_write_self (by simp [PAGE_SIZE])]
  exact Nat.mod_eq_of_lt h

theorem freeSpaceStart_grow (h : slotOffset (numSlots p + 1) < 2 ^ 16) :
    freeSpaceStart (grow p) = slotOffset (numSlots p + 1) := by
  rw [freeSpaceStart, grow, Page.num_write_self (by simp [PAGE_SIZE])]
  exact Nat.mod_eq_of_lt h

theorem freeSpaceEnd_grow : freeSpaceEnd (grow p) = freeSpaceEnd p := by
  rw [freeSpaceEnd, Page.num, read_grow (by omega)]
  rfl

theorem Rep.slot_eq_none (h : Rep p m) (h0 : p.num (slotOffset i.toNat) 2 = 0) :
    m i = none := by
  rcases hm : m i with _ | tuple
  · rfl
  · exact absurd h0 ((h.live i tuple hm).offset_pos h)

theorem slotOffset_succ (k : Nat) : slotOffset (k + 1) = slotOffset k + 4 := by
  simp only [slotOffset, SLOT_SIZE]
  omega

theorem toNat_ofNat_slot {k : Nat} (h : k < 2 ^ 15) : (UInt16.ofNat k).toNat = k := by
  exact Nat.mod_eq_of_lt (by omega)

theorem Rep.opened_self (h : Rep p m) {k : UInt16} (hk : k.toNat < numSlots p)
    (h0 : p.num (slotOffset k.toNat) 2 = 0) : Opened p m p k where
  unused := h.slot_eq_none h0
  lt := hk
  le := le_rfl
  le_succ := Nat.le_succ _
  others := fun _ _ hlt => hlt
  type := h.type
  start := h.start
  end_eq := rfl
  read := fun _ _ _ => rfl

theorem Rep.opened_grow (h : Rep p m) {k : UInt16} (hk : k.toNat = numSlots p)
    (hroom : slotOffset (numSlots p) + 4 ≤ PAGE_SIZE) : Opened p m (grow p) k := by
  have hpage : PAGE_SIZE = 8192 := rfl
  have hoff : slotOffset (numSlots p) = 32 + numSlots p * 4 := rfl
  have hnum : numSlots (grow p) = numSlots p + 1 := numSlots_grow (by omega)
  refine ⟨?_, by omega, by omega, by omega, ?_, ?_, ?_, freeSpaceEnd_grow, ?_⟩
  · rcases hm : m k with _ | t
    · rfl
    · have := (h.live k t hm).lt
      omega
  · intro j hj hlt
    have : j.toNat ≠ numSlots p := fun he => hj (UInt16.toNat_inj.mp (he.trans hk.symm))
    omega
  · rw [pageTypeOf, Page.num, read_grow (by omega)]
    exact h.type
  · rw [freeSpaceStart_grow (by rw [slotOffset_succ]; omega), hnum]
  · exact fun off len hoff => read_grow (by omega)

theorem Rep.post_place (h : Rep p m) {k : Nat} (hk : k < 2 ^ 15)
    (ho : Opened p m q (UInt16.ofNat k))
    (hroom : slotOffset (numSlots p) + tuple.length + 4 ≤ freeSpaceEnd p) :
    Post (do
      Page.writeAt 10 (leBytes 2 (freeSpaceEnd p - tuple.length))
      Page.writeAt (freeSpaceEnd p - tuple.length) tuple
      writeSlot k (freeSpaceEnd p - tuple.length) tuple.length
      pure (UInt16.ofNat k))
      (fun k q => Inserted p m tuple k q) E q := by
  have hto := toNat_ofNat_slot hk
  have hendle := h.end_le
  have hpage : PAGE_SIZE = 8192 := rfl
  have hkq : slotOffset k + 4 ≤ slotOffset (numSlots q) := hto ▸ slotOffset_le ho.lt
  have hgrown : slotOffset (numSlots q) ≤ slotOffset (numSlots p) + 4 := by
    have := ho.le_succ
    simp only [slotOffset, SLOT_SIZE]
    omega
  rw [post_bind, Page.post_writeAt (by rw [length_leBytes]; omega), post_bind,
    Page.post_writeAt (by omega), post_bind,
    post_writeSlot (by simp only [MAX_SLOT_LENGTH]; omega) (by omega)]
  have hroom' : slotOffset (numSlots q) + tuple.length ≤ freeSpaceEnd p := by omega
  have hins := h.place ho hroom'
  rwa [hto, SlottedPage.place, ho.end_eq] at hins

theorem Rep.inserted (h : Rep p m) (tuple : List UInt8) :
    Post (SlottedPage.insert tuple) (fun k q => Inserted p m tuple k q)
      (fun e q => e = .err (.pageFull (PageHeader.readFrom p).pageId) ∧ q = p ∧
        freeSpace p < tuple.length + SLOT_SIZE) p := by
  rw [SlottedPage.insert, post_bind, Proc.post_get]
  split
  · rename_i hfull
    exact ⟨rfl, rfl, hfull⟩
  · rename_i hfull
    have hendle := h.end_le
    have hpage : PAGE_SIZE = 8192 := rfl
    have hoff : slotOffset (numSlots p) = 32 + numSlots p * 4 := rfl
    have hroom : slotOffset (numSlots p) + tuple.length + 4 ≤ freeSpaceEnd p := by
      have hstart := h.start
      simp only [freeSpace, SLOT_SIZE] at hfull
      omega
    rw [post_bind]
    refine h.post_findTombstoneSlot (Nat.zero_add _) ?_ ?_
    · -- Every slot is in use: the slot array grows.
      intro _
      rw [post_bind, growSlots, post_bind, post_gets, post_bind,
        Page.post_writeAt (by simp [PAGE_SIZE]), post_bind,
        Page.post_writeAt (by simp [PAGE_SIZE]), post_pure]
      refine h.post_place (by omega) (h.opened_grow ?_ (by omega)) hroom
      exact toNat_ofNat_slot (by omega)
    · intro k hk h0
      have hto := toNat_ofNat_slot (k := k) (by omega)
      refine h.post_place (by omega) (h.opened_self ?_ ?_) hroom
      · rw [hto]
        exact hk
      · rw [hto]
        exact h0

/-- **Inserting** a tuple stores it in a slot that was not in use; it fails when
the tuple and a slot do not fit. -/
theorem Rep.insert (h : Rep p m) (tuple : List UInt8) :
    Post (SlottedPage.insert tuple)
      (fun k q => m k = none ∧ Rep q (Function.update m k (some tuple)))
      (fun e q => e = .err (.pageFull (PageHeader.readFrom p).pageId) ∧ q = p ∧
        freeSpace p < tuple.length + SLOT_SIZE) p := by
  refine (h.inserted tuple).imp fun k q hins => ⟨hins.unused, ?_⟩
  exact h.edit hins.edit (fun t ht => Option.some.inj ht ▸ hins.slot) (by simp)

/-- Outside of slot `k` and of the bytes from `a` to `b` nothing has changed. -/
theorem Rep.edit_within (h : Rep p m) {k : UInt16} (hk : k.toNat < numSlots p) {a b : Nat}
    (hread : ∀ off len, off + len ≤ slotOffset k.toNat ∨ slotOffset k.toNat + 4 ≤ off →
      off + len ≤ a ∨ b ≤ off → q.read off len = p.read off len)
    (ha : freeSpaceEnd p ≤ a)
    (hdata : ∀ j : UInt16, j ≠ k → ∀ t, m j = some t →
      p.num (slotOffset j.toNat) 2 + t.length ≤ a ∨ b ≤ p.num (slotOffset j.toNat) 2) :
    Edit p m q k := by
  have h32 := le_slotOffset k.toNat
  have hle := h.start_le
  have hkn := slotOffset_le hk
  have hhead : ∀ off w, off + w ≤ 32 → q.num off w = p.num off w := by
    intro off w hw
    rw [Page.num, hread off w (by omega) (by omega), Page.num]
  have hn : numSlots q = numSlots p := hhead 6 2 (by omega)
  have hend : freeSpaceEnd q = freeSpaceEnd p := hhead 10 2 (by omega)
  refine ⟨?_, ?_, ?_, hend.le, hn.ge, fun _ _ hlt => hn ▸ hlt, ?_, ?_⟩
  · rw [pageTypeOf, hhead 4 1 (by omega)]
    exact h.type
  · rw [hn, freeSpaceStart, hhead 8 2 (by omega)]
    exact h.start
  · rw [hn, hend]
    exact hle
  · intro j hj hlt off hlo hhi
    have hapart := slotOffset_apart fun he => hj (UInt16.toNat_inj.mp he)
    have hjn := slotOffset_le hlt
    rw [Page.num, hread off 2 (by omega) (by omega), Page.num]
  · intro j hj t ht
    have habove := (h.live j t ht).above
    exact hread _ _ (by omega) (hdata j hj t ht)

theorem Rep.edit_slot (h : Rep p m) {k : UInt16} (hk : k.toNat < numSlots p)
    (hread : ∀ off len, off + len ≤ slotOffset k.toNat ∨ slotOffset k.toNat + 4 ≤ off →
      q.read off len = p.read off len) : Edit p m q k :=
  h.edit_within (b := 0) hk (fun off len hout _ => hread off len hout) h.end_le
    fun _ _ _ _ => .inr (Nat.zero_le _)

theorem Rep.deleted (h : Rep p m) (hi : m i = some tuple) :
    Post (SlottedPage.delete i)
      (fun _ q => Edit p m q i ∧ q.num (slotOffset i.toNat) 2 = 0 ∧ freeSpace q = freeSpace p)
      E p := by
  have hs := h.live i tuple hi
  have hin := h.slot_inside hs.lt
  have h32 := le_slotOffset i.toNat
  rw [SlottedPage.delete, post_bind, h.post_liveSlot hi, post_writeSlot (Nat.zero_le _) hin]
  refine ⟨h.edit_slot hs.lt fun _ _ => read_putSlot, num_putSlot_offset hin (by omega), ?_⟩
  rw [freeSpace, freeSpaceEnd, freeSpaceStart, num_putSlot (by omega), num_putSlot (by omega)]
  rfl

/-- **Deleting** the tuple of a slot. -/
theorem Rep.delete (h : Rep p m) (hi : m i = some tuple) :
    Post (SlottedPage.delete i) (fun _ q => Rep q (Function.update m i none)) E p :=
  (h.deleted hi).imp fun _ _ hq => h.edit hq.1 (fun _ => nofun) fun _ => hq.2.1

end SlottedPage

end GrumpyDB
