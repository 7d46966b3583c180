/-
Pages: 8 KiB buffers with a 32-byte header and a CRC32 over everything but the checksum field
itself.

Nothing depends on which function the checksum is, so it stays a parameter (`Crc32`).
-/
import GrumpyDB.Error

namespace GrumpyDB

def PAGE_SIZE : Nat := 8192

def PAGE_HEADER_SIZE : Nat := 32

def PAGE_USABLE_SPACE : Nat := PAGE_SIZE - PAGE_HEADER_SIZE

def SLOT_SIZE : Nat := 4

def OVERFLOW_MARKER : UInt8 := 0xFF

@[ext] structure Page where
  bytes : List UInt8
  size : bytes.length = PAGE_SIZE
  deriving DecidableEq

namespace Page

def zero : Page := ⟨List.replicate PAGE_SIZE 0, by simp⟩

def read (p : Page) (off len : Nat) : List UInt8 := slice off len p.bytes

/-- Overwrite the bytes from `off` on; a write that leaves the page is not made. -/
def write (p : Page) (off : Nat) (bs : List UInt8) : Page :=
  if h : off + bs.length ≤ PAGE_SIZE then
    ⟨splice off bs p.bytes, by rw [length_splice (by rw [p.size]; exact h), p.size]⟩
  else p

def num (p : Page) (off w : Nat) : Nat := leNat (p.read off w)

variable {p : Page}

theorem length_read {off len : Nat} (h : off + len ≤ PAGE_SIZE) :
    (p.read off len).length = len := length_slice (by rw [p.size]; exact h)

variable {bs : List UInt8}

theorem read_write_self {off len : Nat} (hlen : bs.length = len) (h : off + len ≤ PAGE_SIZE) :
    (p.write off bs).read off len = bs := by
  subst hlen
  simp only [write, h]
  exact slice_splice_self (by rw [p.size]; exact h)

variable {off off' len : Nat}

theorem read_write_disjoint (hd : off' + len ≤ off ∨ off + bs.length ≤ off') :
    (p.write off bs).read off' len = p.read off' len := by
  unfold write
  split
  · rename_i h
    exact slice_splice_disjoint (by rw [p.size]; exact h) hd
  · rfl

theorem num_write_self {off w n : Nat} (h : off + w ≤ PAGE_SIZE) :
    (p.write off (leBytes w n)).num off w = n % 256 ^ w := by
  rw [num, read_write_self (length_leBytes w n) h, leNat_leBytes]

theorem num_write_disjoint {off off' w : Nat} (hd : off' + w ≤ off ∨ off + bs.length ≤ off') :
    (p.write off bs).num off' w = p.num off' w := by
  rw [num, read_write_disjoint hd, num]

theorem num_lt {off w : Nat} (h : off + w ≤ PAGE_SIZE) : p.num off w < 256 ^ w := by
  have := leNat_lt (p.read off w)
  rwa [length_read h] at this

theorem num_eq_u16 {off : Nat} {x : UInt16} (hoff : off + 2 ≤ PAGE_SIZE)
    (h : UInt16.ofNat (p.num off 2) = x) : p.num off 2 = x.toNat := by
  have hlt := p.num_lt hoff
  rw [← h]
  exact (Nat.mod_eq_of_lt hlt).symm

theorem num_eq_u32 {off : Nat} {x : UInt32} (hoff : off + 4 ≤ PAGE_SIZE)
    (h : UInt32.ofNat (p.num off 4) = x) : p.num off 4 = x.toNat := by
  have hlt := p.num_lt hoff
  rw [← h]
  exact (Nat.mod_eq_of_lt hlt).symm

theorem read_write_within (h : off + bs.length ≤ PAGE_SIZE) (hl : off ≤ off')
    (hr : off' + len ≤ off + bs.length) :
    (p.write off bs).read off' len = slice (off' - off) len bs := by
  have hsub : (p.write off bs).read off' len
      = slice (off' - off) len ((p.write off bs).read off bs.length) := by
    rw [read, read, slice_slice (by omega)]
    congr 1
    omega
  rw [hsub, read_write_self rfl h]

end Page

/-! ### Page headers -/

inductive PageType where
  | free
  | data
  | bTreeInternal
  | bTreeLeaf
  | overflow
  | freeList
  deriving DecidableEq, Repr

namespace PageType

def toNat : PageType → Nat
  | free => 0
  | data => 1
  | bTreeInternal => 2
  | bTreeLeaf => 3
  | overflow => 4
  | freeList => 5

def fromU8 : Nat → Option PageType
  | 0 => some free
  | 1 => some data
  | 2 => some bTreeInternal
  | 3 => some bTreeLeaf
  | 4 => some overflow
  | 5 => some freeList
  | _ => none

@[simp] theorem fromU8_toNat (t : PageType) : fromU8 t.toNat = some t := by
  cases t <;> rfl

theorem toNat_lt (t : PageType) : t.toNat < 256 := by
  cases t <;> decide

end PageType

/-- Header at the beginning of every page. -/
structure PageHeader where
  pageId : UInt32
  pageType : PageType
  flags : UInt8
  numSlots : UInt16
  freeSpaceStart : UInt16
  freeSpaceEnd : UInt16
  nextPageId : UInt32
  prevPageId : UInt32
  lsn : UInt64
  checksum : UInt32
  deriving DecidableEq, Repr

namespace PageHeader

def new (pageId : UInt32) (pageType : PageType) : PageHeader where
  pageId := pageId
  pageType := pageType
  flags := 0
  numSlots := 0
  freeSpaceStart := 32
  freeSpaceEnd := 8192
  nextPageId := 0
  prevPageId := 0
  lsn := 0
  checksum := 0

def bytes (h : PageHeader) : List UInt8 :=
  leBytes 4 h.pageId.toNat ++ (leBytes 1 h.pageType.toNat ++ (leBytes 1 h.flags.toNat ++
    (leBytes 2 h.numSlots.toNat ++ (leBytes 2 h.freeSpaceStart.toNat ++
    (leBytes 2 h.freeSpaceEnd.toNat ++ (leBytes 4 h.nextPageId.toNat ++
    (leBytes 4 h.prevPageId.toNat ++ (leBytes 8 h.lsn.toNat ++
    leBytes 4 h.checksum.toNat))))))))

@[simp] theorem length_bytes (h : PageHeader) : h.bytes.length = PAGE_HEADER_SIZE := by
  simp [bytes, PAGE_HEADER_SIZE]

def writeTo (h : PageHeader) (p : Page) : Page := p.write 0 h.bytes

/-- The type byte of a page; an unknown byte counts as `free`. -/
def pageTypeOf (p : Page) : PageType := (PageType.fromU8 (p.num 4 1)).getD .free

def readFrom (p : Page) : PageHeader where
  pageId := UInt32.ofNat (p.num 0 4)
  pageType := pageTypeOf p
  flags := UInt8.ofNat (p.num 5 1)
  numSlots := UInt16.ofNat (p.num 6 2)
  freeSpaceStart := UInt16.ofNat (p.num 8 2)
  freeSpaceEnd := UInt16.ofNat (p.num 10 2)
  nextPageId := UInt32.ofNat (p.num 12 4)
  prevPageId := UInt32.ofNat (p.num 16 4)
  lsn := UInt64.ofNat (p.num 20 8)
  checksum := UInt32.ofNat (p.num 28 4)

@[simp] theorem readFrom_writeTo (h : PageHeader) (p : Page) : readFrom (h.writeTo p) = h := by
  have field : ∀ off w, off + w ≤ 32 → (h.writeTo p).num off w = leNat (slice off w h.bytes) := by
    intro off w hw
    rw [writeTo, Page.num, Page.read_write_within (by simp [PAGE_SIZE, PAGE_HEADER_SIZE])
      (Nat.zero_le _) (by simp [PAGE_HEADER_SIZE]; omega)]
    rfl
  have hty := h.pageType.toNat_lt
  simp only [readFrom, pageTypeOf, field _ _ (by decide : 0 + 4 ≤ 32),
    field _ _ (by decide : 4 + 1 ≤ 32),
    field _ _ (by decide : 5 + 1 ≤ 32), field _ _ (by decide : 6 + 2 ≤ 32),
    field _ _ (by decide : 8 + 2 ≤ 32), field _ _ (by decide : 10 + 2 ≤ 32),
    field _ _ (by decide : 12 + 4 ≤ 32), field _ _ (by decide : 16 + 4 ≤ 32),
    field _ _ (by decide : 20 + 8 ≤ 32), field _ _ (by decide : 28 + 4 ≤ 32), bytes]
  simp (disch := simp) only [slice_append_right, slice_append_self, length_leBytes, Nat.reduceSub,
    slice_self, leNat_leBytes, Nat.reducePow, Nat.mod_eq_of_lt hty, PageType.fromU8_toNat,
    Option.getD_some]
  simp

theorem pageTypeOf_writeTo (h : PageHeader) (p : Page) :
    pageTypeOf (h.writeTo p) = h.pageType :=
  congrArg PageHeader.pageType (readFrom_writeTo h p)

theorem num_checksum_writeTo (h : PageHeader) (p : Page) :
    (h.writeTo p).num 28 4 = h.checksum.toNat :=
  Page.num_eq_u32 (by simp [PAGE_SIZE]) (congrArg PageHeader.checksum (readFrom_writeTo h p))

theorem num_numSlots_writeTo (h : PageHeader) (p : Page) :
    (h.writeTo p).num 6 2 = h.numSlots.toNat :=
  Page.num_eq_u16 (by simp [PAGE_SIZE]) (congrArg PageHeader.numSlots (readFrom_writeTo h p))

theorem num_freeSpaceStart_writeTo (h : PageHeader) (p : Page) :
    (h.writeTo p).num 8 2 = h.freeSpaceStart.toNat :=
  Page.num_eq_u16 (by simp [PAGE_SIZE]) (congrArg PageHeader.freeSpaceStart (readFrom_writeTo h p))

theorem num_freeSpaceEnd_writeTo (h : PageHeader) (p : Page) :
    (h.writeTo p).num 10 2 = h.freeSpaceEnd.toNat :=
  Page.num_eq_u16 (by simp [PAGE_SIZE]) (congrArg PageHeader.freeSpaceEnd (readFrom_writeTo h p))

end PageHeader

/-! ### Checksums -/

/-- The CRC32 routine of the checksum library. -/
class Crc32 where
  crc32 : List UInt8 → UInt32

section Checksum

variable [Crc32]

def computeChecksum (p : Page) : UInt32 :=
  Crc32.crc32 (p.read 0 28 ++ p.read 32 (PAGE_SIZE - 32))

def stampChecksum (p : Page) : Page := p.write 28 (leBytes 4 (computeChecksum p).toNat)

/-- Verify the checksum of a page.  A zero checksum (never stamped) is accepted. -/
def verifyChecksum (p : Page) (pageId : UInt32) : Except Halt Unit :=
  let stored := UInt32.ofNat (p.num 28 4)
  if stored = 0 then .ok ()
  else
    let computed := computeChecksum p
    if stored ≠ computed then .error (.err (.checksumMismatch pageId stored computed))
    else .ok ()

theorem read_stampChecksum {p : Page} {off len : Nat} (h : off + len ≤ 28 ∨ 32 ≤ off) :
    (stampChecksum p).read off len = p.read off len :=
  Page.read_write_disjoint (by simpa using h)

theorem num_stampChecksum {p : Page} {off w : Nat} (h : off + w ≤ 28 ∨ 32 ≤ off) :
    (stampChecksum p).num off w = p.num off w := by
  rw [Page.num, read_stampChecksum h, Page.num]

theorem pageTypeOf_stampChecksum (p : Page) :
    PageHeader.pageTypeOf (stampChecksum p) = PageHeader.pageTypeOf p := by
  rw [PageHeader.pageTypeOf, num_stampChecksum (by omega), PageHeader.pageTypeOf]

theorem computeChecksum_stampChecksum (p : Page) :
    computeChecksum (stampChecksum p) = computeChecksum p := by
  rw [computeChecksum, read_stampChecksum (by omega), read_stampChecksum (by omega),
    computeChecksum]

@[simp] theorem verifyChecksum_stampChecksum (p : Page) (pageId : UInt32) :
    verifyChecksum (stampChecksum p) pageId = .ok () := by
  have hnum : UInt32.ofNat ((stampChecksum p).num 28 4) = computeChecksum p := by
    rw [stampChecksum, Page.num, Page.read_write_self (length_leBytes _ _) (by simp [PAGE_SIZE]),
      ofNat_leNat_u32]
  simp [verifyChecksum, hnum, computeChecksum_stampChecksum]

end Checksum

end GrumpyDB
