/-
The page manager: page I/O over one file, and the free list on page 0.

Every write to the file is followed by a `cut`, since the process can stop between any two of
them. `PageManager.Ok pm used`: the page count is the file's, every page passes its checksum, and
no page in `used` is on the free list.
-/
import GrumpyDB.Page
import Mathlib.Data.List.Nodup

namespace GrumpyDB

open Proc List PageHeader

/-- The content of a page file, page by page. -/
abbrev File := List Page

def File.writeAt (f : File) (i : Nat) (p : Page) : File :=
  if i < f.length then f.set i p
  else f ++ List.replicate (i - f.length) Page.zero ++ [p]

structure PageManager where
  file : File
  /-- Total number of pages in the file (including page 0). -/
  numPages : Nat
  deriving DecidableEq

/-- `x` ends in `Q`, or there is no page id left for a page it needs. -/
def Yields {σ α : Type} (full : σ → Prop) (x : Proc Halt σ α) (Q : α → σ → Prop) (s : σ) : Prop :=
  x.Post Q (fun e t => e = .overflow ∧ full t) s

section Yields

variable {σ α β : Type} {full : σ → Prop} {x : Proc Halt σ α} {s : σ}

theorem Yields.bind {f : α → Proc Halt σ β} {R : β → σ → Prop}
    (h : Yields full x (fun a t => Yields full (f a) R t) s) : Yields full (x >>= f) R s :=
  Post.bind h

theorem Yields.mono {Q Q' : α → σ → Prop} (h : Yields full x Q s) (hQ : ∀ a t, Q a t → Q' a t) :
    Yields full x Q' s :=
  Post.imp h hQ

end Yields

namespace PageManager

def Full (pm : PageManager) : Prop := pm.numPages + 1 = 2 ^ 32

def page? (pm : PageManager) (i : UInt32) : Option Page := pm.file[i.toNat]?

def setPage (pm : PageManager) (i : UInt32) (p : Page) : PageManager :=
  { pm with file := pm.file.set i.toNat p }

def freeListCapacity : Nat := (PAGE_SIZE - PAGE_HEADER_SIZE - 4) / 4

/-- Page 0 holding the given free list.  Ids past the end of the page are
dropped, the count is not adjusted. -/
def freeListPage (freePages : List UInt32) : Page :=
  (((PageHeader.new 0 .freeList).writeTo Page.zero).write 32
    (leBytes 4 freePages.length)).write 36
    ((freePages.take freeListCapacity).flatMap fun pid => leBytes 4 pid.toNat)

/-- The free list stored on page 0, read up to the end of the page. -/
def freeListOf (buf : Page) : List UInt32 :=
  (List.range (min (buf.num 32 4) freeListCapacity)).map fun i =>
    UInt32.ofNat (buf.num (36 + i * 4) 4)

def freePageBuf (pageId : UInt32) : Page := (PageHeader.new pageId .free).writeTo Page.zero

def writeFile (i : Nat) (p : Page) : Proc Halt PageManager Unit := do
  modify fun pm => { pm with file := pm.file.writeAt i p }
  cut

/-- Open or create a page-managed file.  A missing or empty file gets an empty
free list as page 0. -/
def new : Proc Halt (Option File) PageManager := do
  let found ← get
  modify fun f => some (f.getD [])
  cut
  if found.getD [] = [] then do
    modify fun _ => some [freeListPage []]
    cut
    pure ⟨[freeListPage []], 1⟩
  else
    pure ⟨found.getD [], (found.getD []).length % 2 ^ 32⟩

/-- Run a procedure on a page manager that has just been opened.  The file is
the one of the manager, at every cut and at the end. -/
def session {α : Type} (pm : PageManager) (x : Proc Halt PageManager α) :
    Proc Halt (Option File) (α × PageManager) := fun _ =>
  { res := (x pm).res.map fun a => (a, (x pm).st)
    st := some (x pm).st.file
    cuts := (x pm).cuts.map fun t => some t.file }

section Checksummed

variable [Crc32]

def readPage (pageId : UInt32) : Proc Halt PageManager Page := do
  let pm ← get
  if pageId.toNat ≥ pm.numPages then fail (.err (.pageNotFound pageId))
  else match pm.page? pageId with
    | none => fail (.err .io)
    | some buf => do
      lift (verifyChecksum buf pageId)
      pure buf

def writePage (pageId : UInt32) (data : Page) : Proc Halt PageManager Unit := do
  let pm ← get
  if pageId.toNat ≥ pm.numPages then fail (.err (.pageNotFound pageId))
  else writeFile pageId.toNat (stampChecksum data)

def readFreeList : Proc Halt PageManager (List UInt32) := do
  let buf ← readPage 0
  pure (freeListOf buf)

def writeFreeList (freePages : List UInt32) : Proc Halt PageManager Unit :=
  writePage 0 (freeListPage freePages)

def popFreeList : Proc Halt PageManager (Option UInt32) := do
  let freePages ← readFreeList
  match freePages.getLast? with
  | some pageId => do
    writeFreeList freePages.dropLast
    pure (some pageId)
  | none => pure none

def pushFreeList (pageId : UInt32) : Proc Halt PageManager Unit := do
  let freePages ← readFreeList
  writeFreeList (freePages ++ [pageId])

/-- Allocate a page: reuse a freed one if there is any, otherwise extend the
file. -/
def allocatePage : Proc Halt PageManager UInt32 := do
  match ← popFreeList with
  | some pageId => pure pageId
  | none => do
    let pageId ← gets PageManager.numPages
    writeFile pageId (freePageBuf (UInt32.ofNat pageId))
    if pageId + 1 < 2 ^ 32 then do
      modify fun pm => { pm with numPages := pageId + 1 }
      pure (UInt32.ofNat pageId)
    else fail .overflow

def freePage (pageId : UInt32) : Proc Halt PageManager Unit := do
  let pm ← get
  if pageId = 0 then fail (.err (.pageNotFound 0))
  else if pageId.toNat ≥ pm.numPages then fail (.err (.pageNotFound pageId))
  else do
    writePage pageId (freePageBuf pageId)
    pushFreeList pageId

end Checksummed

/-! ### Pages of a file -/

variable {pm : PageManager} {i j : UInt32} {p : Page}

theorem page?_eq_none_iff : pm.page? i = none ↔ pm.file.length ≤ i.toNat :=
  List.getElem?_eq_none_iff

theorem lt_of_page? (h : pm.page? i = some p) : i.toNat < pm.file.length := by
  by_contra hlt
  rw [page?_eq_none_iff.mpr (by omega)] at h
  cases h

theorem exists_page? (h : i.toNat < pm.file.length) : ∃ p, pm.page? i = some p :=
  ⟨pm.file[i.toNat], List.getElem?_eq_getElem h⟩

theorem page?_setPage_self (h : i.toNat < pm.file.length) :
    (pm.setPage i p).page? i = some p := by
  simp [setPage, page?, h]

theorem page?_setPage_ne (h : j ≠ i) : (pm.setPage i p).page? j = pm.page? j := by
  have hne : i.toNat ≠ j.toNat := fun he => h (UInt32.toNat_inj.mp he).symm
  simp [setPage, page?, hne]

@[simp] theorem numPages_setPage : (pm.setPage i p).numPages = pm.numPages := rfl

@[simp] theorem length_file_setPage : (pm.setPage i p).file.length = pm.file.length := by
  simp [setPage]

theorem post_new_empty {Q : PageManager → Option File → Prop} {E : Halt → Option File → Prop}
    {f : Option File} (hf : f.getD [] = []) :
    Post new Q E f ↔ Q ⟨[freeListPage []], 1⟩ (some [freeListPage []]) := by
  simp only [new, post_bind, post_get, post_modify, post_cut, if_pos hf, post_pure]

theorem length_le_of_nodup {l : List UInt32} {n : Nat} (hl : l.Nodup) (hn : ∀ i ∈ l, i.toNat < n) :
    l.length ≤ n := by
  have hnodup : (l.map UInt32.toNat).Nodup :=
    hl.map fun _ _ hab => UInt32.toNat_inj.mp hab
  have hsub : l.map UInt32.toNat ⊆ range n := by
    intro m hm
    obtain ⟨i, hi, rfl⟩ := mem_map.mp hm
    exact mem_range.mpr (hn i hi)
  simpa using hnodup.length_le_of_subset hsub

/-! ### The free list survives its page -/

theorem length_freeListPage_body (l : List UInt32) :
    ((l.take freeListCapacity).flatMap fun pid => leBytes 4 pid.toNat).length
      = min freeListCapacity l.length * 4 := by
  rw [length_flatMap_const (fun _ _ => length_leBytes _ _), length_take]

theorem freeListPage_fits (l : List UInt32) :
    36 + ((l.take freeListCapacity).flatMap fun pid => leBytes 4 pid.toNat).length ≤ PAGE_SIZE := by
  rw [length_freeListPage_body]
  have : freeListCapacity = 2039 := rfl
  simp only [PAGE_SIZE]
  omega

theorem num_freeListPage_count (l : List UInt32) (h : l.length < 2 ^ 32) :
    (freeListPage l).num 32 4 = l.length := by
  rw [freeListPage, Page.num_write_disjoint (by omega),
    Page.num_write_self (by simp [PAGE_SIZE])]
  exact Nat.mod_eq_of_lt (by omega)

theorem num_freeListPage_entry (l : List UInt32) {i : Nat} (hi : i < l.length)
    (hc : i < freeListCapacity) : UInt32.ofNat ((freeListPage l).num (36 + i * 4) 4) = l[i] := by
  have hi' : i < (l.take freeListCapacity).length := by
    rw [length_take]
    omega
  have hbody := length_freeListPage_body l
  rw [freeListPage, Page.num, Page.read_write_within (freeListPage_fits l) (by omega) (by omega),
    Nat.add_sub_cancel_left, slice_flatMap (fun _ _ => length_leBytes _ _) hi', getElem_take,
    ofNat_leNat_u32]

theorem freeListOf_freeListPage (l : List UInt32) (h : l.length < 2 ^ 32) :
    freeListOf (freeListPage l) = l.take freeListCapacity := by
  apply ext_getElem
  · simp only [freeListOf, num_freeListPage_count l h, length_map, length_range,
      length_take]
    omega
  · intro i h1 h2
    simp only [freeListOf, getElem_map, getElem_range, getElem_take]
    rw [length_take] at h2
    exact num_freeListPage_entry l (by omega) (by omega)

theorem length_freeListOf_le (buf : Page) : (freeListOf buf).length ≤ freeListCapacity := by
  simp [freeListOf]

def freeList (pm : PageManager) : List UInt32 :=
  match pm.page? 0 with
  | some buf => freeListOf buf
  | none => []

theorem freeList_setPage_ne (h : i ≠ 0) : (pm.setPage i p).freeList = pm.freeList := by
  rw [freeList, page?_setPage_ne h.symm, freeList]

theorem length_freeList_lt (pm : PageManager) : pm.freeList.length < 2 ^ 31 := by
  have hle : pm.freeList.length ≤ freeListCapacity := by
    rw [freeList]
    split
    · exact length_freeListOf_le _
    · exact Nat.zero_le _
  have : freeListCapacity = 2039 := rfl
  omega

theorem pageTypeOf_freePageBuf (i : UInt32) :
    PageHeader.pageTypeOf (freePageBuf i) = .free :=
  PageHeader.pageTypeOf_writeTo _ _

section Checksummed

variable [Crc32]

theorem freeListOf_stampChecksum (buf : Page) :
    freeListOf (stampChecksum buf) = freeListOf buf := by
  simp only [freeListOf]
  rw [num_stampChecksum (by omega)]
  apply map_congr_left
  intro i _
  rw [num_stampChecksum (by omega)]

theorem verifyChecksum_of_unstamped {p : Page} (h : p.num 28 4 = 0) (i : UInt32) :
    verifyChecksum p i = .ok () := by
  simp [verifyChecksum, h]

theorem verifyChecksum_freePageBuf (i j : UInt32) : verifyChecksum (freePageBuf i) j = .ok () := by
  apply verifyChecksum_of_unstamped
  exact num_checksum_writeTo _ _

/-! ### The invariant -/

/-- The file is in order, and the pages in `used` are in use: they exist, and
`allocatePage` will not hand them out. -/
structure Ok (pm : PageManager) (used : Set UInt32) : Prop where
  length : pm.file.length = pm.numPages
  pos : 0 < pm.numPages
  small : pm.numPages < 2 ^ 32
  verified : ∀ i p, pm.page? i = some p → verifyChecksum p i = .ok ()
  nodup : pm.freeList.Nodup
  free : ∀ i ∈ pm.freeList, i ≠ 0 ∧ i ∉ used ∧
    ∃ p, pm.page? i = some p ∧ PageHeader.pageTypeOf p = .free
  used : ∀ i ∈ used, i ≠ 0 ∧ i.toNat < pm.numPages

variable {used used' : Set UInt32}

theorem Ok.mono (h : pm.Ok used) (hs : used' ⊆ used) : pm.Ok used' where
  length := h.length
  pos := h.pos
  small := h.small
  verified := h.verified
  nodup := h.nodup
  free := fun i hi => ⟨(h.free i hi).1, fun hu => (h.free i hi).2.1 (hs hu), (h.free i hi).2.2⟩
  used := fun i hi => h.used i (hs hi)

theorem Ok.exists_page (h : pm.Ok used) (hi : i ∈ used) : ∃ p, pm.page? i = some p :=
  exists_page? (by rw [h.length]; exact (h.used i hi).2)

theorem Ok.setPage (h : pm.Ok used) (hi : i ∈ used) (hp : ∀ j, verifyChecksum p j = .ok ()) :
    (pm.setPage i p).Ok used where
  length := by simpa using h.length
  pos := h.pos
  small := h.small
  verified := by
    intro j q hq
    by_cases hji : j = i
    · subst hji
      rw [page?_setPage_self (by rw [h.length]; exact (h.used j hi).2)] at hq
      cases hq
      exact hp j
    · rw [page?_setPage_ne hji] at hq
      exact h.verified j q hq
  nodup := by rw [freeList_setPage_ne (h.used i hi).1]; exact h.nodup
  free := by
    intro j hj
    rw [freeList_setPage_ne (h.used i hi).1] at hj
    obtain ⟨h0, hu, hpage⟩ := h.free j hj
    have hji : j ≠ i := fun he => hu (he ▸ hi)
    rw [page?_setPage_ne hji]
    exact ⟨h0, hu, hpage⟩
  used := h.used

variable {l : List UInt32}

theorem Ok.setFreeList (h : pm.Ok used) (hlen : l.length < 2 ^ 32) (hnodup : l.Nodup)
    (hfree : ∀ i ∈ l, i ≠ 0 ∧ i ∉ used' ∧ ∃ p, pm.page? i = some p ∧
      PageHeader.pageTypeOf p = .free)
    (hused : ∀ i ∈ used', i ≠ 0 ∧ i.toNat < pm.numPages) :
    (pm.setPage 0 (stampChecksum (freeListPage l))).Ok used' := by
  have h0 : (0 : UInt32).toNat < pm.file.length := by rw [h.length]; exact h.pos
  have hlist : (pm.setPage 0 (stampChecksum (freeListPage l))).freeList
      = l.take freeListCapacity := by
    rw [freeList, page?_setPage_self h0]
    exact (freeListOf_stampChecksum _).trans (freeListOf_freeListPage l hlen)
  refine ⟨by simpa using h.length, h.pos, h.small, ?_, ?_, ?_, hused⟩
  · intro j q hq
    by_cases hj : j = 0
    · subst hj
      rw [page?_setPage_self h0] at hq
      cases hq
      simp
    · rw [page?_setPage_ne hj] at hq
      exact h.verified j q hq
  · rw [hlist]
    exact hnodup.sublist (take_sublist _ _)
  · intro j hj
    rw [hlist] at hj
    obtain ⟨hj0, hju, hjp⟩ := hfree j (mem_of_mem_take hj)
    rw [page?_setPage_ne hj0]
    exact ⟨hj0, hju, hjp⟩

/-! ### What each operation does -/

variable {E : Halt → PageManager → Prop}

theorem post_readPage {Q : Page → PageManager → Prop} (h : pm.Ok used)
    (hp : pm.page? i = some p) : Post (readPage i) Q E pm ↔ Q p pm := by
  have hlt : ¬ i.toNat ≥ pm.numPages := by
    have := lt_of_page? hp
    rw [h.length] at this
    omega
  simp only [readPage, post_bind, post_get, if_neg hlt, hp, h.verified i p hp, post_lift_ok,
    post_pure]

variable {Q : Unit → PageManager → Prop}

theorem post_writePage (h : pm.Ok used) (hi : i.toNat < pm.numPages) :
    Post (writePage i p) Q E pm ↔ Q () (pm.setPage i (stampChecksum p)) := by
  have hlt : ¬ i.toNat ≥ pm.numPages := by omega
  have hf : i.toNat < pm.file.length := by rw [h.length]; exact hi
  simp only [writePage, post_bind, post_get, if_neg hlt, writeFile, post_modify, post_cut,
    File.writeAt, if_pos hf, PageManager.setPage]

theorem Ok.freeList_eq (h : pm.Ok used) : ∃ buf, pm.page? 0 = some buf ∧
    freeListOf buf = pm.freeList := by
  obtain ⟨buf, hbuf⟩ := exists_page? (i := 0) (by rw [h.length]; exact h.pos)
  exact ⟨buf, hbuf, by rw [freeList, hbuf]⟩

theorem post_readFreeList {Q : List UInt32 → PageManager → Prop} (h : pm.Ok used) :
    Post readFreeList Q E pm ↔ Q pm.freeList pm := by
  obtain ⟨buf, hbuf, hlist⟩ := h.freeList_eq
  rw [readFreeList, post_bind, post_readPage h hbuf, post_pure, hlist]

theorem post_writeFreeList (h : pm.Ok used) :
    Post (writeFreeList l) Q E pm ↔ Q () (pm.setPage 0 (stampChecksum (freeListPage l))) := by
  rw [writeFreeList, post_writePage h (by exact h.pos)]

/-- What an allocation leaves behind. -/
structure Allocated (pm : PageManager) (used : Set UInt32) (i : UInt32) (pm' : PageManager) :
    Prop where
  fresh : i ∉ used
  ok : pm'.Ok (insert i used)
  frame : ∀ j, j ≠ 0 → j ≠ i → pm'.page? j = pm.page? j
  free : ∃ p, pm'.page? i = some p ∧ PageHeader.pageTypeOf p = .free
  numPages_le : pm.numPages ≤ pm'.numPages

theorem Ok.extend (h : pm.Ok used) (hn : pm.numPages + 1 < 2 ^ 32) :
    Allocated pm used (UInt32.ofNat pm.numPages)
      ⟨pm.file ++ [freePageBuf (UInt32.ofNat pm.numPages)], pm.numPages + 1⟩ := by
  set n := UInt32.ofNat pm.numPages with hndef
  have htoNat : n.toNat = pm.file.length := by
    rw [h.length]
    exact UInt32.toNat_ofNat_of_lt' (by simp [UInt32.size]; omega)
  have hpos := h.pos
  have hne : n ≠ 0 := by
    intro h0
    rw [h0, UInt32.toNat_zero, h.length] at htoNat
    omega
  -- The new page is the last one; every other id reads as before.
  have hnew : (PageManager.mk (pm.file ++ [freePageBuf n]) (pm.numPages + 1)).page? n
      = some (freePageBuf n) := by
    simp [page?, htoNat]
  have hold : ∀ j, j ≠ n →
      (PageManager.mk (pm.file ++ [freePageBuf n]) (pm.numPages + 1)).page? j = pm.page? j := by
    intro j hj
    have hjn : j.toNat ≠ pm.file.length := by
      rw [← htoNat]
      exact fun he => hj (UInt32.toNat_inj.mp he)
    simp only [page?, getElem?_append]
    split
    · rfl
    · rw [getElem?_eq_none (by simp; omega), getElem?_eq_none (by omega)]
  have hfresh : n ∉ used := by
    intro hu
    have := (h.used n hu).2
    rw [htoNat, h.length] at this
    omega
  have hlist : (PageManager.mk (pm.file ++ [freePageBuf n]) (pm.numPages + 1)).freeList
      = pm.freeList := by
    rw [freeList, hold 0 hne.symm, freeList]
  refine ⟨hfresh, ⟨by simp [h.length], by simp, hn, ?_, ?_, ?_, ?_⟩, fun j _ hj => hold j hj,
    ⟨_, hnew, pageTypeOf_freePageBuf n⟩, Nat.le_succ _⟩
  · intro j q hq
    by_cases hj : j = n
    · rw [hj, hnew] at hq
      cases hq
      exact verifyChecksum_freePageBuf _ _
    · rw [hold j hj] at hq
      exact h.verified j q hq
  · rw [hlist]
    exact h.nodup
  · intro j hj
    rw [hlist] at hj
    obtain ⟨hj0, hju, q, hq, hty⟩ := h.free j hj
    have hjn : j ≠ n := by
      intro he
      have := lt_of_page? hq
      rw [he] at this
      omega
    refine ⟨hj0, ?_, q, by rw [hold j hjn, hq], hty⟩
    simp [hjn, hju]
  · intro j hj
    rcases hj with rfl | hj
    · exact ⟨hne, by rw [htoNat, h.length]; simp⟩
    · exact ⟨(h.used j hj).1, Nat.lt_succ_of_lt (h.used j hj).2⟩

theorem Ok.popped (h : pm.Ok used) (hl : pm.freeList = l ++ [i]) :
    Allocated pm used i (pm.setPage 0 (stampChecksum (freeListPage l))) := by
  have hmem : i ∈ pm.freeList := by simp [hl]
  obtain ⟨hi0, hiu, q, hq, hty⟩ := h.free i hmem
  have hnodup : (l ++ [i]).Nodup := hl ▸ h.nodup
  have hil : i ∉ l := fun hi => by
    rw [nodup_append] at hnodup
    exact hnodup.2.2 i hi i (by simp) rfl
  have hlen : l.length < 2 ^ 32 := by
    have := length_freeList_lt pm
    rw [hl, length_append] at this
    omega
  refine ⟨hiu, ?_, fun j hj0 _ => page?_setPage_ne hj0, ⟨q, by rw [page?_setPage_ne hi0, hq], hty⟩,
    le_rfl⟩
  refine h.setFreeList hlen (hnodup.sublist (sublist_append_left _ _)) ?_ ?_
  · intro j hj
    obtain ⟨hj0, hju, hjp⟩ := h.free j (by rw [hl]; simp [hj])
    refine ⟨hj0, ?_, hjp⟩
    rintro (rfl | hju')
    · exact hil hj
    · exact hju hju'
  · rintro j (rfl | hj)
    · exact ⟨hi0, by have := lt_of_page? hq; rwa [h.length] at this⟩
    · exact h.used j hj

/-- **Allocation** returns a page that is not in use and touches nothing but
that page and page 0. -/
theorem allocatePage_spec (h : pm.Ok used) :
    Yields Full allocatePage (fun i pm' => Allocated pm used i pm') pm := by
  unfold Yields
  rw [allocatePage, post_bind, popFreeList, post_bind, post_readFreeList h]
  rcases hl : pm.freeList.getLast? with _ | i
  · simp only [post_pure, post_bind, post_gets, writeFile, post_modify, post_cut, File.writeAt]
    rw [h.length]
    split
    · rename_i hn
      simpa [post_bind] using h.extend hn
    · have := h.small
      exact post_fail.mpr ⟨rfl, show pm.numPages + 1 = 2 ^ 32 by omega⟩
  · rw [post_bind, post_writeFreeList h]
    refine h.popped ?_
    rw [getLast?_eq_some_iff] at hl
    obtain ⟨ys, hys⟩ := hl
    simp [hys]

/-- What freeing a page leaves behind. -/
structure Freed (pm : PageManager) (used : Set UInt32) (i : UInt32) (pm' : PageManager) :
    Prop where
  ok : pm'.Ok (used \ {i})
  frame : ∀ j, j ≠ 0 → j ≠ i → pm'.page? j = pm.page? j
  free : ∃ p, pm'.page? i = some p ∧ PageHeader.pageTypeOf p = .free
  numPages_eq : pm'.numPages = pm.numPages

theorem post_freePage (h : pm.Ok used) (hi : i ∈ used) :
    Post (freePage i) Q E pm ↔ Q () ((pm.setPage i (stampChecksum (freePageBuf i))).setPage 0
      (stampChecksum (freeListPage (pm.freeList ++ [i])))) := by
  obtain ⟨hi0, hlt⟩ := h.used i hi
  have hblank := h.setPage (p := stampChecksum (freePageBuf i)) hi
    (fun j => verifyChecksum_stampChecksum _ j)
  simp only [freePage, post_bind, post_get, if_neg hi0, if_neg (not_le.mpr hlt)]
  rw [post_writePage h hlt, pushFreeList, post_bind, post_readFreeList hblank,
    post_writeFreeList hblank, freeList_setPage_ne hi0]

/-- **Freeing** a page in use puts it out of use and touches nothing but that
page and page 0. -/
theorem freePage_spec (h : pm.Ok used) (hi : i ∈ used) :
    Post (freePage i) (fun _ pm' => Freed pm used i pm') E pm := by
  obtain ⟨hi0, hlt⟩ := h.used i hi
  have hlen : i.toNat < pm.file.length := by rw [h.length]; exact hlt
  have hblank := h.setPage (p := stampChecksum (freePageBuf i)) hi
    (fun j => verifyChecksum_stampChecksum _ j)
  rw [post_freePage h hi]
  have hself : (pm.setPage i (stampChecksum (freePageBuf i))).page? i
      = some (stampChecksum (freePageBuf i)) := page?_setPage_self hlen
  have hty : pageTypeOf (stampChecksum (freePageBuf i)) = .free := by
    rw [pageTypeOf_stampChecksum, pageTypeOf_freePageBuf]
  have hnew : i ∉ pm.freeList := fun hf => (h.free i hf).2.1 hi
  refine ⟨?_, ?_, ⟨_, by rw [page?_setPage_ne hi0]; exact hself, hty⟩, rfl⟩
  · refine hblank.setFreeList ?_ ?_ ?_ ?_
    · have := length_freeList_lt pm
      rw [length_append, length_singleton]
      omega
    · exact nodup_append.mpr ⟨h.nodup, by simp,
        fun a ha b hb => by rw [mem_singleton.mp hb]; exact fun he => hnew (he ▸ ha)⟩
    · intro j hj
      rcases mem_append.mp hj with hj | hj
      · obtain ⟨hj0, hju, q, hq, hqt⟩ := h.free j hj
        have hji : j ≠ i := fun he => hnew (he ▸ hj)
        exact ⟨hj0, fun hd => hju hd.1, q, by rw [page?_setPage_ne hji, hq], hqt⟩
      · rw [mem_singleton.mp hj]
        exact ⟨hi0, fun hd => hd.2 rfl, _, hself, hty⟩
    · exact fun j hj => h.used j hj.1
  · intro j hj0 hji
    rw [page?_setPage_ne hj0, page?_setPage_ne hji]

omit [Crc32] in
theorem length_freeList_le (pm : PageManager) : pm.freeList.length ≤ freeListCapacity := by
  rw [freeList]
  split
  · exact length_freeListOf_le _
  · exact Nat.zero_le _

theorem freeList_setPage_zero (h : pm.Ok used) (hl : l.length < 2 ^ 32) :
    (pm.setPage 0 (stampChecksum (freeListPage l))).freeList = l.take freeListCapacity := by
  rw [freeList, page?_setPage_self (by rw [h.length]; exact h.pos)]
  exact (freeListOf_stampChecksum _).trans (freeListOf_freeListPage l hl)

/-- A freed page goes to the end of the list, if page 0 has room for it. -/
theorem freePage_freeList (h : pm.Ok used) (hi : i ∈ used) :
    Post (freePage i)
      (fun _ pm' => pm'.freeList = (pm.freeList ++ [i]).take freeListCapacity) E pm := by
  rw [post_freePage h hi]
  refine freeList_setPage_zero (h.setPage hi fun j => verifyChecksum_stampChecksum _ j) ?_
  have := length_freeList_lt pm
  rw [length_append, length_singleton]
  omega

/-! ### Opening a file -/

theorem post_new_ok {Q : PageManager → Option File → Prop} {E : Halt → Option File → Prop}
    (h : pm.Ok used) : Post new Q E (some pm.file) ↔ Q pm (some pm.file) := by
  have hne : ¬ pm.file = [] := by
    intro he
    have hl := h.length
    have hp := h.pos
    rw [he, length_nil] at hl
    omega
  have hmod : pm.file.length % 2 ^ 32 = pm.numPages := by
    rw [h.length]
    exact Nat.mod_eq_of_lt h.small
  simp only [new, post_bind, post_get, post_modify, post_cut, Option.getD_some, if_neg hne,
    post_pure, hmod]

theorem ok_empty : (PageManager.mk [freeListPage []] 1).Ok ∅ := by
  have hpage : ∀ i, (PageManager.mk [freeListPage []] 1).page? i
      = if i = 0 then some (freeListPage []) else none := by
    intro i
    by_cases hi : i = 0
    · simp [hi, page?]
    · have : i.toNat ≠ 0 := fun h0 => hi (UInt32.toNat_inj.mp h0)
      rw [if_neg hi, page?_eq_none_iff]
      simp
      omega
  have hlist : (PageManager.mk [freeListPage []] 1).freeList = [] := by
    rw [freeList, hpage]
    exact freeListOf_freeListPage [] (by simp)
  refine ⟨rfl, by simp, by simp, ?_, by simp [hlist], by simp [hlist], by simp⟩
  intro i p hp
  rw [hpage] at hp
  split at hp
  · cases hp
    apply verifyChecksum_of_unstamped
    rw [freeListPage, Page.num_write_disjoint (by omega), Page.num_write_disjoint (by omega)]
    exact num_checksum_writeTo _ _
  · cases hp

end Checksummed

end PageManager

end GrumpyDB
