/-
The buffer pool: a cache of pages with pins, dirty flags and LRU eviction.

`BufferPool.content b i` is page `i` as the pool shows it: the frame that has it, or else the page
on disk.
-/
import GrumpyDB.Overflow
import GrumpyDB.Lib.Table
import Mathlib.Data.List.MinMax

namespace GrumpyDB

open Proc List PageManager Option

/-- A frame of the pool, holding one cached page. -/
structure BufferFrame where
  data : Page
  /-- The page that is loaded (`none`: the frame is free). -/
  pageId : Option UInt32
  pinCount : Nat
  /-- Whether the page has been modified since it was loaded. -/
  dirty : Bool
  lastAccessed : Nat
  deriving DecidableEq

namespace BufferFrame

def new : BufferFrame := ⟨Page.zero, none, 0, false, 0⟩

def isPinned (f : BufferFrame) : Bool := f.pinCount > 0

def isFree (f : BufferFrame) : Bool := f.pageId.isNone

def reset (f : BufferFrame) : BufferFrame :=
  { f with pageId := none, pinCount := 0, dirty := false, lastAccessed := 0 }

end BufferFrame

/-- Pages cached in memory, over the page manager of their file. -/
structure BufferPool where
  frames : List BufferFrame
  pageTable : Table UInt32 Nat
  pm : PageManager
  clock : Nat
  deriving DecidableEq

namespace BufferPool

def new (capacity : Nat) (pm : PageManager) : BufferPool :=
  ⟨List.replicate capacity BufferFrame.new, Table.empty, pm, 0⟩

def capacity (b : BufferPool) : Nat := b.frames.length

def pageManager {α : Type} (x : Proc Halt PageManager α) : Proc Halt BufferPool α :=
  zoom BufferPool.pm (fun pm b => { b with pm }) x

def getFrame (i : Nat) : Proc Halt BufferPool BufferFrame := do
  let b ← get
  match b.frames[i]? with
  | some f => pure f
  | none => fail .index

def putFrame (i : Nat) (f : BufferFrame) : Proc Halt BufferPool Unit :=
  modify fun b => { b with frames := b.frames.set i f }

def setFrameData (i : Nat) (data : Page) : Proc Halt BufferPool Unit := do
  let f ← getFrame i
  putFrame i { f with data }

def victim (frames : List BufferFrame) : Option Nat :=
  (List.argmin (fun x : BufferFrame × Nat => x.1.lastAccessed)
    (frames.zipIdx.filter fun x => !x.1.isPinned && !x.1.isFree)).map Prod.snd

section Checksummed

variable [Crc32]

def findFreeFrame : Proc Halt BufferPool Nat := do
  let b ← get
  match b.frames.findIdx? BufferFrame.isFree with
  | some i => pure i
  | none =>
    match victim b.frames with
    | none => fail (.err .bufferPoolExhausted)
    | some victimIdx => do
      let frame ← getFrame victimIdx
      match frame.pageId with
      | some pid => do
        if frame.dirty then pageManager (PageManager.writePage pid frame.data) else pure ()
        modify fun b => { b with pageTable := b.pageTable.erase pid }
        putFrame victimIdx frame.reset
        pure victimIdx
      | none =>
        if frame.dirty then fail (.err (.corruption "dirty frame without page_id"))
        else do
          putFrame victimIdx frame.reset
          pure victimIdx

def load (i : Nat) (pageId : UInt32) (data : Page) (dirty : Bool) : Proc Halt BufferPool Unit :=
  modify fun b => { b with
    frames := b.frames.set i ⟨data, some pageId, 1, dirty, b.clock + 1⟩
    pageTable := b.pageTable.insert pageId i
    clock := b.clock + 1 }

def fetchPage (pageId : UInt32) : Proc Halt BufferPool Nat := do
  let b ← get
  match b.pageTable.get? pageId with
  | some i => do
    let f ← getFrame i
    modify fun b => { b with clock := b.clock + 1 }
    putFrame i { f with pinCount := f.pinCount + 1, lastAccessed := b.clock + 1 }
    pure i
  | none => do
    let i ← findFreeFrame
    let data ← pageManager (PageManager.readPage pageId)
    load i pageId data false
    pure i

def newPage : Proc Halt BufferPool (UInt32 × Nat) := do
  let pageId ← pageManager PageManager.allocatePage
  let i ← findFreeFrame
  load i pageId Page.zero true
  pure (pageId, i)

def unpin (pageId : UInt32) (dirty : Bool) : Proc Halt BufferPool Unit := do
  let b ← get
  match b.pageTable.get? pageId with
  | none => fail (.err (.pageNotFound pageId))
  | some i => do
    let f ← getFrame i
    if f.pinCount = 0 then fail .overflow
    else putFrame i { f with pinCount := f.pinCount - 1, dirty := f.dirty || dirty }

def flushPage (pageId : UInt32) : Proc Halt BufferPool Unit := do
  let b ← get
  match b.pageTable.get? pageId with
  | none => fail (.err (.pageNotFound pageId))
  | some i => do
    let f ← getFrame i
    if f.dirty then do
      pageManager (PageManager.writePage pageId f.data)
      putFrame i { f with dirty := false }
    else pure ()

def flushPages : List UInt32 → Proc Halt BufferPool Unit
  | [] => pure ()
  | pid :: pids => do
    flushPage pid
    flushPages pids

def dirtyPages (b : BufferPool) : List UInt32 :=
  (b.pageTable.entries.filter fun e => (b.frames[e.2]?).any BufferFrame.dirty).map Prod.fst

def flushAll : Proc Halt BufferPool Unit := do
  let b ← get
  flushPages b.dirtyPages

/-! ### The invariant -/

def content (b : BufferPool) (i : UInt32) : Option Page :=
  match b.pageTable.get? i with
  | some k => (b.frames[k]?).map BufferFrame.data
  | none => b.pm.page? i

/-- The pool is in order.  The pages in `used` are in use on disk, and only
pages in `cacheable` are ever cached. -/
structure Ok (b : BufferPool) (used cacheable : Set UInt32) : Prop where
  disk : b.pm.Ok used
  sub : cacheable ⊆ used
  table : ∀ i k, b.pageTable.get? i = some k ↔
    ∃ f, b.frames[k]? = some f ∧ f.pageId = some i
  cached : ∀ (k : Nat) (f : BufferFrame) i, b.frames[k]? = some f → f.pageId = some i →
    i ∈ cacheable
  clean : ∀ (k : Nat) (f : BufferFrame) i, b.frames[k]? = some f → f.pageId = some i →
    f.dirty = false →
    ∃ p, b.pm.page? i = some p ∧ Page.Same p f.data

def Idle (b : BufferPool) : Prop :=
  ∀ (k : Nat) (f : BufferFrame), b.frames[k]? = some f → f.pinCount = 0

def Clean (b : BufferPool) : Prop :=
  ∀ (k : Nat) (f : BufferFrame) i, b.frames[k]? = some f → f.pageId = some i → f.dirty = false

def Dirty (b : BufferPool) (i : UInt32) : Prop :=
  ∃ (k : Nat) (f : BufferFrame), b.frames[k]? = some f ∧ f.pageId = some i ∧ f.dirty = true

/-- The pages in `D` are still shown, up to their checksums. -/
def Keeps (D : Set UInt32) (b b' : BufferPool) : Prop :=
  ∀ i ∈ D, ∀ p, b.content i = some p → ∃ q, b'.content i = some q ∧ Page.Same q p

variable {b b' : BufferPool} {used D : Set UInt32} {i j : UInt32} {k : Nat} {f g : BufferFrame}
  {p : Page}

omit [Crc32] in
theorem Keeps.refl (b : BufferPool) : Keeps D b b := fun _ _ p h => ⟨p, h, Page.Same.refl p⟩

variable {b₁ b₂ b₃ : BufferPool}

omit [Crc32] in
theorem Keeps.trans (h : Keeps D b₁ b₂) (h' : Keeps D b₂ b₃) : Keeps D b₁ b₃ := by
  intro i hi p hp
  obtain ⟨q, hq, hqp⟩ := h i hi p hp
  obtain ⟨r, hr, hrq⟩ := h' i hi q hq
  exact ⟨r, hr, hrq.trans hqp⟩

omit [Crc32] in
theorem Keeps.of_content (h : ∀ i ∈ D, b'.content i = b.content i) : Keeps D b b' :=
  fun i hi p hp => ⟨p, by rw [h i hi, hp], Page.Same.refl p⟩

variable {k' : Nat}

theorem Ok.unique (h : b.Ok used D) (hk : b.frames[k]? = some f) (hf : f.pageId = some i)
    (hk' : b.frames[k']? = some g) (hg : g.pageId = some i) : k = k' := by
  have h₁ := (h.table i k).mpr ⟨f, hk, hf⟩
  have h₂ := (h.table i k').mpr ⟨g, hk', hg⟩
  rw [h₁] at h₂
  exact some.inj h₂

theorem Ok.content_cached (h : b.Ok used D) (hk : b.frames[k]? = some f)
    (hf : f.pageId = some i) : b.content i = some f.data := by
  rw [content, (h.table i k).mpr ⟨f, hk, hf⟩]
  simp [hk]

omit [Crc32] in
theorem content_uncached (h : b.pageTable.get? i = none) : b.content i = b.pm.page? i := by
  rw [content, h]

/-! ### Frames -/

def setFrame (b : BufferPool) (k : Nat) (f : BufferFrame) : BufferPool :=
  { b with frames := b.frames.set k f }

omit [Crc32] in
theorem getElem?_setFrame (hk : b.frames[k]? = some f) :
    (b.setFrame k g).frames[k']? = if k' = k then some g else b.frames[k']? := by
  have hlt : k < b.frames.length := (List.getElem?_eq_some_iff.mp hk).1
  by_cases h : k' = k
  · simp [setFrame, h, hlt]
  · simp [setFrame, h, getElem?_set_ne (Ne.symm h)]

omit [Crc32] in
theorem clean_iff : b.Clean ↔ ∀ i, ¬ b.Dirty i := by
  constructor
  · rintro h i ⟨k, f, hk, hf, hd⟩
    rw [h k f i hk hf] at hd
    cases hd
  · intro h k f i hk hf
    rw [← Bool.not_eq_true]
    exact fun hd => h i ⟨k, f, hk, hf, hd⟩

omit [Crc32] in
theorem Clean.of_dirty (h : b.Clean) (hd : ∀ i, b'.Dirty i → b.Dirty i) : b'.Clean :=
  clean_iff.mpr fun i hi => clean_iff.mp h i (hd i hi)

omit [Crc32] in
theorem Dirty.of_setFrame (hk : b.frames[k]? = some f) (hd : (b.setFrame k g).Dirty j) :
    (g.pageId = some j ∧ g.dirty = true) ∨ b.Dirty j := by
  obtain ⟨k', f', hk', hf', hd'⟩ := hd
  rw [getElem?_setFrame hk] at hk'
  split at hk'
  · cases hk'
    exact .inl ⟨hf', hd'⟩
  · exact .inr ⟨k', f', hk', hf', hd'⟩

theorem Ok.setFrame (h : b.Ok used D) (hk : b.frames[k]? = some f) (hid : g.pageId = f.pageId)
    (hclean : ∀ i, f.pageId = some i → g.dirty = false →
      ∃ p, b.pm.page? i = some p ∧ Page.Same p g.data) : (b.setFrame k g).Ok used D := by
  refine ⟨h.disk, h.sub, ?_, ?_, ?_⟩
  · intro i k'
    show b.pageTable.get? i = some k' ↔ _
    rw [h.table, getElem?_setFrame hk]
    by_cases hk' : k' = k
    · subst hk'
      simp [hk, hid]
    · simp [hk']
  · intro k' f' i hf' hi
    rw [getElem?_setFrame hk] at hf'
    split at hf'
    · cases hf'
      exact h.cached k f i hk (hid ▸ hi)
    · exact h.cached k' f' i hf' hi
  · intro k' f' i hf' hi hd
    rw [getElem?_setFrame hk] at hf'
    split at hf'
    · cases hf'
      exact hclean i (hid ▸ hi) hd
    · exact h.clean k' f' i hf' hi hd

theorem Ok.content_setFrame (h : b.Ok used D) (hk : b.frames[k]? = some f)
    (hf : f.pageId = some i) : (b.setFrame k g).content j =
      if j = i then some g.data else b.content j := by
  have htable := (h.table i k).mpr ⟨f, hk, hf⟩
  by_cases hj : j = i
  · show (match b.pageTable.get? j with | some k' => _ | none => _) = _
    rw [hj, htable]
    simp [getElem?_setFrame hk]
  · rw [if_neg hj, content, content]
    show (match b.pageTable.get? j with | some k' => _ | none => b.pm.page? j) = _
    rcases ht : b.pageTable.get? j with _ | k'
    · rfl
    · have hne : k' ≠ k := by
        rintro rfl
        obtain ⟨f', hk', hf'⟩ := (h.table j k').mp ht
        rw [hk] at hk'
        cases hk'
        rw [hf] at hf'
        exact hj (some.inj hf').symm
      simp [getElem?_setFrame hk, hne]

def evict (b : BufferPool) (k : Nat) (f : BufferFrame) (i : UInt32) (pm : PageManager) :
    BufferPool :=
  { b with pm, pageTable := b.pageTable.erase i, frames := b.frames.set k f.reset }

variable {pm : PageManager}

omit [Crc32] in
theorem getElem?_evict (hk : b.frames[k]? = some f) :
    (b.evict k f i pm).frames[k']? = if k' = k then some f.reset else b.frames[k']? :=
  getElem?_setFrame hk

theorem Ok.evict (h : b.Ok used D) (hk : b.frames[k]? = some f) (hf : f.pageId = some i)
    (hok : pm.Ok used) (hkeep : ∀ j, j ≠ i → pm.page? j = b.pm.page? j) :
    (b.evict k f i pm).Ok used D := by
  -- The page of another frame is another page.
  have hne : ∀ k' f' j, k' ≠ k → b.frames[k']? = some f' → f'.pageId = some j → j ≠ i := by
    rintro k' f' j hk' hf' hj rfl
    exact hk' (h.unique hf' hj hk hf)
  refine ⟨hok, h.sub, ?_, ?_, ?_⟩
  · intro j k'
    rw [getElem?_evict hk]
    show (b.pageTable.erase i).get? j = some k' ↔ _
    by_cases hj : j = i
    · subst hj
      rw [Table.get?_erase_self]
      refine ⟨fun h => (nomatch h), ?_⟩
      rintro ⟨f', hf', hj⟩
      split at hf'
      · cases hf'
        cases hj
      · rename_i hk'
        exact absurd rfl (hne k' f' j hk' hf' hj)
    · rw [Table.get?_erase_ne hj, h.table]
      by_cases hk' : k' = k
      · subst hk'
        rw [if_pos rfl]
        constructor
        · rintro ⟨f', hf', hj'⟩
          rw [hk] at hf'
          cases hf'
          rw [hf] at hj'
          exact absurd (some.inj hj').symm hj
        · rintro ⟨f', hf', hj'⟩
          cases hf'
          cases hj'
      · rw [if_neg hk']
  · intro k' f' j hf' hj
    rw [getElem?_evict hk] at hf'
    split at hf'
    · cases hf'
      cases hj
    · exact h.cached k' f' j hf' hj
  · intro k' f' j hf' hj hd
    rw [getElem?_evict hk] at hf'
    split at hf'
    · cases hf'
      cases hj
    · rename_i hk'
      obtain ⟨p, hp, hs⟩ := h.clean k' f' j hf' hj hd
      exact ⟨p, by rw [← hp]; exact hkeep j (hne k' f' j hk' hf' hj), hs⟩

theorem Ok.keeps_evict (h : b.Ok used D) (hk : b.frames[k]? = some f) (hf : f.pageId = some i)
    (hkeep : ∀ j, j ≠ i → pm.page? j = b.pm.page? j) (hp : pm.page? i = some p)
    (hs : Page.Same p f.data) : Keeps D b (b.evict k f i pm) := by
  intro j _ q hq
  by_cases hj : j = i
  · subst hj
    refine ⟨p, ?_, ?_⟩
    · show (match (b.pageTable.erase j).get? j with | some k' => _ | none => pm.page? j) = _
      rw [Table.get?_erase_self]
      exact hp
    · rw [h.content_cached hk hf] at hq
      cases hq
      exact hs
  · refine ⟨q, ?_, Page.Same.refl q⟩
    rw [← hq, content, content]
    show (match (b.pageTable.erase i).get? j with
      | some k' => ((b.evict k f i pm).frames[k']?).map BufferFrame.data
      | none => pm.page? j) = _
    rw [Table.get?_erase_ne hj]
    rcases ht : b.pageTable.get? j with _ | k'
    · exact hkeep j hj
    · have hne : k' ≠ k := by
        rintro rfl
        obtain ⟨f', hf', hj'⟩ := (h.table j k').mp ht
        rw [hk] at hf'
        cases hf'
        rw [hf] at hj'
        exact hj (some.inj hj').symm
      simp only [getElem?_evict hk, if_neg hne]

omit [Crc32] in
theorem exists_victim (hidle : b.Idle) (hpos : b.frames ≠ [])
    (hfull : ∀ f ∈ b.frames, f.isFree = false) :
    ∃ k f i, victim b.frames = some k ∧ b.frames[k]? = some f ∧ f.pageId = some i := by
  have hall : b.frames.zipIdx.filter (fun x => !x.1.isPinned && !x.1.isFree) = b.frames.zipIdx := by
    apply filter_eq_self.mpr
    rintro ⟨f, k⟩ hx
    have hk : b.frames[k]? = some f := mem_zipIdx_iff_getElem?.mp hx
    simp [hfull f (mem_of_getElem? hk), BufferFrame.isPinned, hidle k f hk]
  rcases hv : argmin (fun x : BufferFrame × Nat => x.1.lastAccessed) b.frames.zipIdx with
    _ | ⟨f, k⟩
  · rw [argmin_eq_none] at hv
    exact absurd (by simpa using congrArg length hv) hpos
  · have hk : b.frames[k]? = some f := mem_zipIdx_iff_getElem?.mp (argmin_mem hv)
    have hfree := hfull f (mem_of_getElem? hk)
    simp only [BufferFrame.isFree, isNone_eq_false_iff, isSome_iff_exists] at hfree
    obtain ⟨i, hi⟩ := hfree
    exact ⟨k, f, i, by rw [victim, hall, hv]; rfl, hk, hi⟩

/-! ### What each operation does -/

variable {E : Halt → BufferPool → Prop} {α : Type}

variable {Q : α → BufferPool → Prop}

omit [Crc32] in
theorem post_pageManager {x : Proc Halt PageManager α} :
    Post (pageManager x) Q E b ↔
      Post x (fun a pm => Q a { b with pm }) (fun e pm => E e { b with pm }) b.pm :=
  post_zoom

omit [Crc32] in
theorem post_getFrame {Q : BufferFrame → BufferPool → Prop} (hk : b.frames[k]? = some f) :
    Post (getFrame k) Q E b ↔ Q f b := by
  rw [getFrame, post_bind, post_get, hk, post_pure]

omit [Crc32] in
theorem post_putFrame {Q : Unit → BufferPool → Prop} :
    Post (putFrame k f) Q E b ↔ Q () (b.setFrame k f) := post_modify

/-- A pool with a free frame `k`, otherwise as before. -/
structure Freed (b : BufferPool) (used D : Set UInt32) (k : Nat) (b' : BufferPool) : Prop where
  ok : b'.Ok used D
  idle : b'.Idle
  keeps : Keeps D b b'
  frame : ∃ f, b'.frames[k]? = some f ∧ f.pageId = none
  uncached : ∀ i, b.pageTable.get? i = none → b'.pageTable.get? i = none
  disk : ∀ j, j ∉ D → b'.pm.page? j = b.pm.page? j
  capacity_eq : b'.capacity = b.capacity
  dirty : ∀ i, b'.Dirty i → b.Dirty i
  clean : b.Clean → b'.pm = b.pm

theorem Ok.freed_evict (h : b.Ok used D) (hidle : b.Idle) (hk : b.frames[k]? = some f)
    (hf : f.pageId = some i) (hok : pm.Ok used) (hkeep : ∀ j, j ≠ i → pm.page? j = b.pm.page? j)
    (hdisk : ∃ p, pm.page? i = some p ∧ Page.Same p f.data) (hclean : f.dirty = false → pm = b.pm) :
    Freed b used D k (b.evict k f i pm) := by
  obtain ⟨p, hp, hs⟩ := hdisk
  refine ⟨h.evict hk hf hok hkeep, ?_, h.keeps_evict hk hf hkeep hp hs, ⟨f.reset, ?_, rfl⟩,
    ?_, ?_, by simp [BufferPool.evict, capacity], fun j hj => ?_,
    fun hc => hclean (hc k f i hk hf)⟩
  · intro k' f' hf'
    rw [getElem?_evict hk] at hf'
    split at hf'
    · cases hf'
      rfl
    · exact hidle k' f' hf'
  · rw [getElem?_evict hk, if_pos rfl]
  · intro j hj
    show (b.pageTable.erase i).get? j = none
    by_cases hji : j = i
    · rw [hji, Table.get?_erase_self]
    · rw [Table.get?_erase_ne hji, hj]
  · exact fun j hj => hkeep j fun he => hj (he ▸ h.cached k f i hk hf)
  · rcases Dirty.of_setFrame hk hj with ⟨h', -⟩ | hj
    · cases h'
    · exact hj

theorem findFreeFrame_spec (h : b.Ok used D) (hidle : b.Idle) (hpos : b.frames ≠ []) :
    Post findFreeFrame (fun k b' => Freed b used D k b') E b := by
  rw [findFreeFrame, post_bind, post_get]
  rcases hfind : b.frames.findIdx? BufferFrame.isFree with _ | k
  · have hfull : ∀ f ∈ b.frames, f.isFree = false := by
      simpa using findIdx?_eq_none_iff.mp hfind
    obtain ⟨k, f, i, hv, hk, hf⟩ := exists_victim hidle hpos hfull
    have hi : i ∈ D := h.cached k f i hk hf
    simp only [hv]
    rw [post_bind, post_getFrame hk]
    simp only [hf]
    by_cases hd : f.dirty = true
    · -- A dirty page goes to disk first.
      have hlt := (h.disk.used i (h.sub hi)).2
      rw [if_pos hd, post_bind, post_pageManager, post_writePage h.disk hlt, post_bind,
        post_modify, post_bind, post_putFrame]
      have hok := h.disk.setPage (p := stampChecksum f.data) (h.sub hi) fun j =>
        verifyChecksum_stampChecksum _ j
      refine h.freed_evict hidle hk hf hok ?_ ⟨_, ?_, Page.same_stampChecksum _⟩ ?_
      · exact fun j hj => page?_setPage_ne hj
      · exact page?_setPage_self (by rw [h.disk.length]; exact hlt)
      · rw [hd]
        exact fun h => (nomatch h)
    · rw [if_neg hd, post_bind, post_modify, post_bind, post_putFrame]
      exact h.freed_evict hidle hk hf h.disk (fun _ _ => rfl)
        (h.clean k f i hk hf (by simpa using hd)) fun _ => rfl
  · obtain ⟨hlt, hfree, -⟩ := findIdx?_eq_some_iff_getElem.mp hfind
    refine post_pure.mpr ⟨h, hidle, Keeps.refl b, ⟨b.frames[k], ?_, ?_⟩, fun _ => id,
      fun _ _ => rfl, rfl, fun _ => id, fun _ => rfl⟩
    · exact getElem?_eq_getElem hlt
    · simpa [BufferFrame.isFree] using hfree

def loaded (b : BufferPool) (k : Nat) (i : UInt32) (data : Page) (dirty : Bool) : BufferPool :=
  { b with
    frames := b.frames.set k ⟨data, some i, 1, dirty, b.clock + 1⟩
    pageTable := b.pageTable.insert i k
    clock := b.clock + 1 }

variable {data : Page} {dirty : Bool}

omit [Crc32] in
theorem getElem?_loaded (hk : b.frames[k]? = some f) :
    (b.loaded k i data dirty).frames[k']? =
      if k' = k then some ⟨data, some i, 1, dirty, b.clock + 1⟩ else b.frames[k']? :=
  getElem?_setFrame hk

theorem Ok.loaded (h : b.Ok used D) (hk : b.frames[k]? = some f) (hfree : f.pageId = none)
    (hun : b.pageTable.get? i = none) (hi : i ∈ D)
    (hclean : dirty = false → ∃ p, b.pm.page? i = some p ∧ Page.Same p data) :
    (b.loaded k i data dirty).Ok used D := by
  refine ⟨h.disk, h.sub, ?_, ?_, ?_⟩
  · intro j k'
    rw [getElem?_loaded hk]
    show (b.pageTable.insert i k).get? j = some k' ↔ _
    by_cases hj : j = i
    · subst hj
      rw [Table.get?_insert_self]
      constructor
      · rintro ⟨⟩
        rw [if_pos rfl]
        exact ⟨_, rfl, rfl⟩
      · rintro ⟨f', hf', hj⟩
        split at hf'
        · rename_i hk'
          rw [hk']
        · have := (h.table j k').mpr ⟨f', hf', hj⟩
          rw [hun] at this
          cases this
    · rw [Table.get?_insert_ne hj, h.table]
      by_cases hk' : k' = k
      · subst hk'
        rw [if_pos rfl]
        constructor
        · rintro ⟨f', hf', hj'⟩
          rw [hk] at hf'
          cases hf'
          rw [hfree] at hj'
          cases hj'
        · rintro ⟨f', hf', hj'⟩
          cases hf'
          exact absurd (some.inj hj').symm hj
      · rw [if_neg hk']
  · intro k' f' j hf' hj
    rw [getElem?_loaded hk] at hf'
    split at hf'
    · cases hf'
      cases hj
      exact hi
    · exact h.cached k' f' j hf' hj
  · intro k' f' j hf' hj hd
    rw [getElem?_loaded hk] at hf'
    split at hf'
    · cases hf'
      cases hj
      exact hclean hd
    · exact h.clean k' f' j hf' hj hd

theorem Ok.content_loaded (h : b.Ok used D) (hk : b.frames[k]? = some f) (hfree : f.pageId = none) :
    (b.loaded k i data dirty).content j = if j = i then some data else b.content j := by
  rw [content, content]
  show (match (b.pageTable.insert i k).get? j with
    | some k' => ((b.loaded k i data dirty).frames[k']?).map BufferFrame.data
    | none => b.pm.page? j) = _
  by_cases hj : j = i
  · subst hj
    simp [getElem?_loaded hk]
  · rw [if_neg hj, Table.get?_insert_ne hj]
    rcases ht : b.pageTable.get? j with _ | k'
    · rfl
    · have hne : k' ≠ k := by
        rintro rfl
        obtain ⟨f', hf', hj'⟩ := (h.table j k').mp ht
        rw [hk] at hf'
        cases hf'
        rw [hfree] at hj'
        cases hj'
      simp only [getElem?_loaded hk, if_neg hne]

/-- Frame `k` has page `i` and is pinned once; no other frame is pinned. -/
structure Pinned (b : BufferPool) (i : UInt32) (k : Nat) (f : BufferFrame) : Prop where
  frame : b.frames[k]? = some f
  page : f.pageId = some i
  pin : f.pinCount = 1
  others : ∀ (k' : Nat) (g : BufferFrame), k' ≠ k → b.frames[k']? = some g → g.pinCount = 0

/-- A pool with a page fetched into frame `k`. -/
structure Fetched (b : BufferPool) (used D : Set UInt32) (i : UInt32) (k : Nat)
    (b' : BufferPool) : Prop where
  ok : b'.Ok used D
  keeps : Keeps D b b'
  pinned : ∃ f, b'.Pinned i k f
  disk : ∀ j, j ∉ D → b'.pm.page? j = b.pm.page? j
  capacity_eq : b'.capacity = b.capacity
  dirty : ∀ i, b'.Dirty i → b.Dirty i
  clean : b.Clean → b'.pm = b.pm

omit [Crc32] in
theorem pinned_loaded (hidle : b.Idle) (hk : b.frames[k]? = some f) :
    (b.loaded k i data dirty).Pinned i k ⟨data, some i, 1, dirty, b.clock + 1⟩ where
  frame := by rw [getElem?_loaded hk, if_pos rfl]
  page := rfl
  pin := rfl
  others := by
    intro k' g hk' hg
    rw [getElem?_loaded hk, if_neg hk'] at hg
    exact hidle k' g hg

/-- **Fetching** a page shows it as it is, whatever had to be evicted. -/
theorem fetchPage_spec (h : b.Ok used D) (hidle : b.Idle) (hpos : b.frames ≠ []) (hi : i ∈ D) :
    Post (fetchPage i) (fun k b' => Fetched b used D i k b') E b := by
  rw [fetchPage, post_bind, post_get]
  rcases ht : b.pageTable.get? i with _ | k
  · -- Cache miss: the page comes from disk.
    rw [post_bind]
    refine (findFreeFrame_spec h hidle hpos).imp ?_
    rintro k b₁ hfreed
    obtain ⟨f, hk, hfree⟩ := hfreed.frame
    have hun := hfreed.uncached i ht
    obtain ⟨p, hp⟩ := hfreed.ok.disk.exists_page (h.sub hi)
    rw [post_bind, post_pageManager, post_readPage hfreed.ok.disk hp, post_bind, load,
      post_modify, post_pure]
    refine ⟨hfreed.ok.loaded hk hfree hun hi fun _ => ⟨p, hp, Page.Same.refl p⟩,
      hfreed.keeps.trans (Keeps.of_content fun j _ => ?_), ⟨_, pinned_loaded hfreed.idle hk⟩,
      hfreed.disk, ?_, fun j hj => ?_, hfreed.clean⟩
    · change (b₁.loaded k i p false).content j = _
      rw [hfreed.ok.content_loaded hk hfree]
      split
      · rename_i hj
        rw [hj, content_uncached hun, hp]
      · rfl
    · rw [← hfreed.capacity_eq]
      simp [capacity]
    · rcases Dirty.of_setFrame hk hj with ⟨-, h'⟩ | hj
      · cases h'
      · exact hfreed.dirty j hj
  · -- Cache hit: the frame is pinned once more.
    obtain ⟨f, hk, hf⟩ := (h.table i k).mp ht
    rw [post_bind, post_getFrame hk, post_bind, post_modify, post_bind, post_putFrame, post_pure]
    have hpin := hidle k f hk
    set g : BufferFrame := { f with pinCount := f.pinCount + 1, lastAccessed := b.clock + 1 }
    have hset : ({ b with clock := b.clock + 1 } : BufferPool).setFrame k g =
        { b.setFrame k g with clock := b.clock + 1 } := rfl
    have hok : (b.setFrame k g).Ok used D :=
      h.setFrame hk rfl fun j hj hd => h.clean k f j hk hj hd
    refine ⟨⟨hok.disk, hok.sub, hok.table, hok.cached, hok.clean⟩, ?_, ⟨g, ?_, hf, ?_, ?_⟩,
      fun _ _ => rfl, by simp [capacity, setFrame], fun j hj => ?_, fun _ => rfl⟩
    · refine Keeps.of_content fun j _ => ?_
      change (b.setFrame k g).content j = _
      rw [h.content_setFrame hk hf]
      split
      · rename_i hj
        rw [hj, h.content_cached hk hf]
      · rfl
    · exact (getElem?_setFrame hk).trans (if_pos rfl)
    · show f.pinCount + 1 = 1
      rw [hpin]
    · intro k' g' hk' hg'
      exact hidle k' g' (((getElem?_setFrame hk).trans (if_neg hk')).symm.trans hg')
    · rcases Dirty.of_setFrame hk hj with ⟨hid, hd⟩ | hj
      · exact ⟨k, f, hk, hid, hd⟩
      · exact hj

theorem Ok.setManager {used' : Set UInt32} (h : b.Ok used D) (hok : pm.Ok used')
    (hsub : D ⊆ used') (hkeep : ∀ j ∈ D, pm.page? j = b.pm.page? j) :
    ({ b with pm } : BufferPool).Ok used' D where
  disk := hok
  sub := hsub
  table := h.table
  cached := h.cached
  clean := by
    intro k f i hk hf hd
    obtain ⟨p, hp, hs⟩ := h.clean k f i hk hf hd
    exact ⟨p, by rw [← hp]; exact hkeep i (h.cached k f i hk hf), hs⟩

omit [Crc32] in
theorem content_setManager (hkeep : pm.page? i = b.pm.page? i) :
    ({ b with pm } : BufferPool).content i = b.content i := by
  rw [content, content]
  show (match b.pageTable.get? i with | some k => _ | none => pm.page? i) = _
  rw [hkeep]

theorem Ok.mono_cacheable {D' : Set UInt32} (h : b.Ok used D) (hD : D ⊆ D') (hsub : D' ⊆ used) :
    b.Ok used D' :=
  ⟨h.disk, hsub, h.table, fun k f i hk hf => hD (h.cached k f i hk hf), h.clean⟩

/-- **Allocating** a page shows a page of zeros that was not in use. -/
theorem newPage_spec (h : b.Ok used D) (hidle : b.Idle) (hpos : b.frames ≠ []) :
    Yields (fun b => b.pm.Full) newPage
      (fun r b' => r.1 ∉ used ∧ b'.Ok (insert r.1 used) (insert r.1 D) ∧ Keeps D b b' ∧
        (∃ f, b'.Pinned r.1 r.2 f) ∧ b'.capacity = b.capacity ∧
        (∀ j, j ≠ 0 → j ∉ insert r.1 D → b'.pm.page? j = b.pm.page? j) ∧
        ∀ j, j ≠ r.1 → b'.Dirty j → b.Dirty j) b := by
  refine Yields.bind (post_pageManager.mpr ((allocatePage_spec h.disk).mono
    fun i pm ha => ?_))
  -- The pages in use keep their place on disk.
  have hD : ∀ j ∈ D, pm.page? j = b.pm.page? j := fun j hj =>
    ha.frame j (h.disk.used j (h.sub hj)).1 fun he => ha.fresh (he ▸ h.sub hj)
  have hiD : i ∉ D := fun hi => ha.fresh (h.sub hi)
  have hok₁ : ({ b with pm } : BufferPool).Ok (insert i used) D :=
    h.setManager ha.ok (fun j hj => .inr (h.sub hj)) hD
  have hok₂ : ({ b with pm } : BufferPool).Ok (insert i used) (insert i D) :=
    hok₁.mono_cacheable (Set.subset_insert _ _) (Set.insert_subset_insert h.sub)
  have hun : b.pageTable.get? i = none := by
    rcases ht : b.pageTable.get? i with _ | k
    · rfl
    · obtain ⟨f, hk, hf⟩ := (h.table i k).mp ht
      exact absurd (h.cached k f i hk hf) hiD
  refine Yields.bind (Post.imp (findFreeFrame_spec hok₂ hidle hpos) ?_)
  rintro k b₂ hfreed
  obtain ⟨f, hk, hfree⟩ := hfreed.frame
  refine Yields.bind (post_modify.mpr (post_pure.mpr ?_))
  refine ⟨ha.fresh, hfreed.ok.loaded hk hfree (hfreed.uncached i hun) (.inl rfl) (by simp), ?_,
    ⟨_, pinned_loaded hfreed.idle hk⟩, ?_, ?_, fun j hji hj => ?_⟩
  · intro j hj p hp
    have hji : j ≠ i := fun he => hiD (he ▸ hj)
    rw [← content_setManager (hD j hj)] at hp
    obtain ⟨q, hq, hs⟩ := hfreed.keeps j (.inr hj) p hp
    refine ⟨q, ?_, hs⟩
    change (b₂.loaded k i Page.zero true).content j = _
    rw [hfreed.ok.content_loaded hk hfree, if_neg hji, hq]
  · have := hfreed.capacity_eq
    simp only [capacity, length_set] at this ⊢
    exact this
  · intro j h0 hj
    exact (hfreed.disk j hj).trans (ha.frame j h0 fun he => hj (.inl he))
  · rcases Dirty.of_setFrame hk hj with ⟨hid, -⟩ | hj
    · exact absurd (some.inj hid).symm hji
    · exact hfreed.dirty j hj

/-- A pool whose pinned page has been given back, showing `data`. -/
structure Unpinned (b : BufferPool) (used D : Set UInt32) (i : UInt32) (data : Page)
    (b' : BufferPool) : Prop where
  ok : b'.Ok used D
  idle : b'.Idle
  pm_eq : b'.pm = b.pm
  capacity_eq : b'.capacity = b.capacity
  content_eq : ∀ j, b'.content j = if j = i then some data else b.content j
  dirty : ∀ j, j ≠ i → b'.Dirty j → b.Dirty j

theorem Ok.unpinned (h : b.Ok used D) (hp : b.Pinned i k f) (hid : g.pageId = f.pageId)
    (hpin : g.pinCount = 0) (hclean : g.dirty = false → ∃ p, b.pm.page? i = some p ∧
      Page.Same p g.data) : Unpinned b used D i g.data (b.setFrame k g) := by
  refine ⟨h.setFrame hp.frame hid fun j hj hd => ?_, ?_, rfl,
    by simp [capacity, BufferPool.setFrame],
    fun j => h.content_setFrame hp.frame hp.page, fun j hji hj => ?_⟩
  · rw [hp.page] at hj
    cases hj
    exact hclean hd
  · intro k' f' hf'
    rw [getElem?_setFrame hp.frame] at hf'
    split at hf'
    · cases hf'
      exact hpin
    · rename_i hk'
      exact hp.others k' f' hk' hf'
  · rcases Dirty.of_setFrame hp.frame hj with ⟨h', -⟩ | hj
    · rw [hid, hp.page] at h'
      exact absurd (some.inj h').symm hji
    · exact hj

/-- **Unpinning** a page that has not been changed. -/
theorem unpin_spec (h : b.Ok used D) (hp : b.Pinned i k f) :
    Post (unpin i false)
      (fun _ b' => Unpinned b used D i f.data b' ∧ ∀ j, b'.Dirty j → b.Dirty j) E b := by
  have ht := (h.table i k).mpr ⟨f, hp.frame, hp.page⟩
  rw [unpin, post_bind, post_get, ht]
  rw [post_bind, post_getFrame hp.frame, if_neg (by rw [hp.pin]; decide)]
  refine ⟨h.unpinned (g := { f with pinCount := f.pinCount - 1, dirty := f.dirty || false }) hp rfl
    ?_ fun hd => h.clean k f i hp.frame hp.page ?_, ?_⟩
  · show f.pinCount - 1 = 0
    rw [hp.pin]
  · simpa using hd
  · intro j hj
    rcases Dirty.of_setFrame hp.frame hj with ⟨hid, hd⟩ | hj
    · exact ⟨k, f, hp.frame, hid, by simpa using hd⟩
    · exact hj

theorem Fetched.keeps_unpinned {b₁ b₂ : BufferPool} (hf : Fetched b used D i k b₁)
    (hp : b₁.Pinned i k f) (hun : Unpinned b₁ used D i f.data b₂) : Keeps D b b₂ := by
  refine hf.keeps.trans (Keeps.of_content fun j _ => ?_)
  rw [hun.content_eq]
  split
  · rename_i hj
    rw [hj, hf.ok.content_cached hp.frame hp.page]
  · rfl

/-- **Storing** new bytes in a pinned page and unpinning it. -/
theorem store_spec (h : b.Ok used D) (hp : b.Pinned i k f) {next : Proc Halt BufferPool α}
    (hnext : ∀ b', Unpinned b used D i data b' → Post next Q E b') :
    Post (do
      setFrameData k data
      unpin i true
      next) Q E b := by
  have ht := (h.table i k).mpr ⟨f, hp.frame, hp.page⟩
  rw [post_bind, setFrameData, post_bind, post_getFrame hp.frame, post_putFrame, post_bind, unpin,
    post_bind, post_get]
  show Post (match b.pageTable.get? i with | none => _ | some k => _) _ _ _
  have hk : (b.setFrame k { f with data }).frames[k]? = some { f with data } :=
    (getElem?_setFrame hp.frame).trans (if_pos rfl)
  rw [ht]
  rw [post_bind, post_getFrame hk, if_neg (by rw [hp.pin]; decide), post_putFrame]
  have hset : ∀ g, (b.setFrame k { f with data }).setFrame k g = b.setFrame k g := by
    simp [BufferPool.setFrame]
  rw [hset]
  refine hnext _ (h.unpinned
    (g := { f with data, pinCount := f.pinCount - 1, dirty := f.dirty || true }) hp rfl ?_ ?_)
  · show f.pinCount - 1 = 0
    rw [hp.pin]
  · simp

/-- A pool with some pages written to disk. -/
structure Flushed (b : BufferPool) (used D : Set UInt32) (b' : BufferPool) : Prop where
  ok : b'.Ok used D
  idle : b.Idle → b'.Idle
  table_eq : b'.pageTable = b.pageTable
  content_eq : ∀ j, b'.content j = b.content j
  disk : ∀ j, j ∉ D → b'.pm.page? j = b.pm.page? j
  capacity_eq : b'.capacity = b.capacity
  dirty : ∀ (k : Nat) (f : BufferFrame), b'.frames[k]? = some f → f.dirty = true →
    ∃ g, b.frames[k]? = some g ∧ g.pageId = f.pageId ∧ g.dirty = true

theorem Flushed.refl (h : b.Ok used D) : Flushed b used D b :=
  ⟨h, id, rfl, fun _ => rfl, fun _ _ => rfl, rfl, fun _ f hk hd => ⟨f, hk, rfl, hd⟩⟩

theorem Flushed.trans (h : Flushed b₁ used D b₂) (h' : Flushed b₂ used D b₃) :
    Flushed b₁ used D b₃ where
  ok := h'.ok
  idle := fun hi => h'.idle (h.idle hi)
  table_eq := h'.table_eq.trans h.table_eq
  content_eq := fun j => (h'.content_eq j).trans (h.content_eq j)
  disk := fun j hj => (h'.disk j hj).trans (h.disk j hj)
  capacity_eq := h'.capacity_eq.trans h.capacity_eq
  dirty := by
    intro k f hk hd
    obtain ⟨g, hg, hid, hgd⟩ := h'.dirty k f hk hd
    obtain ⟨g', hg', hid', hgd'⟩ := h.dirty k g hg hgd
    exact ⟨g', hg', hid'.trans hid, hgd'⟩

theorem flushPage_spec (h : b.Ok used D) (hk : b.frames[k]? = some f) (hf : f.pageId = some i) :
    Post (flushPage i) (fun _ b' => Flushed b used D b' ∧
      ∃ g, b'.frames[k]? = some g ∧ g.dirty = false) E b := by
  have ht := (h.table i k).mpr ⟨f, hk, hf⟩
  have hi := h.cached k f i hk hf
  rw [flushPage, post_bind, post_get, ht]
  rw [post_bind, post_getFrame hk]
  by_cases hd : f.dirty = true
  · have hlt := (h.disk.used i (h.sub hi)).2
    have hok := h.disk.setPage (p := stampChecksum f.data) (h.sub hi) fun j =>
      verifyChecksum_stampChecksum _ j
    rw [if_pos hd, post_bind, post_pageManager, post_writePage h.disk hlt,
      post_putFrame]
    -- The frame is as before but for the flag; its page is on disk now.
    set pm := b.pm.setPage i (stampChecksum f.data)
    have hnew : ∀ k', (({ b with pm } : BufferPool).setFrame k
      { f with dirty := false }).frames[k']? =
        if k' = k then some { f with dirty := false } else b.frames[k']? :=
      fun k' => getElem?_setFrame hk
    have hother : ∀ k' f' j, k' ≠ k → b.frames[k']? = some f' → f'.pageId = some j → j ≠ i := by
      rintro k' f' j hk' hf' hj rfl
      exact hk' (h.unique hf' hj hk hf)
    refine ⟨⟨⟨hok, h.sub, ?_, ?_, ?_⟩, ?_, rfl, ?_, ?_, by simp [capacity, setFrame], ?_⟩,
      ⟨_, (hnew k).trans (if_pos rfl), rfl⟩⟩
    · intro j k'
      rw [hnew]
      show b.pageTable.get? j = some k' ↔ _
      rw [h.table]
      by_cases hk' : k' = k
      · subst hk'
        simp [hk]
      · simp [hk']
    · intro k' f' j hf' hj
      rw [hnew] at hf'
      split at hf'
      · cases hf'
        exact h.cached k f j hk hj
      · exact h.cached k' f' j hf' hj
    · intro k' f' j hf' hj hd'
      rw [hnew] at hf'
      split at hf'
      · cases hf'
        have hji : i = j := some.inj (hf.symm.trans hj)
        subst hji
        exact ⟨_, page?_setPage_self (by rw [h.disk.length]; exact hlt),
          Page.same_stampChecksum _⟩
      · rename_i hk'
        obtain ⟨p, hp, hs⟩ := h.clean k' f' j hf' hj hd'
        refine ⟨p, ?_, hs⟩
        exact (page?_setPage_ne (hother k' f' j hk' hf' hj)).trans hp
    · intro hidle k' f' hf'
      rw [hnew] at hf'
      split at hf'
      · cases hf'
        exact hidle k f hk
      · exact hidle k' f' hf'
    · intro j
      rw [content, content]
      show (match b.pageTable.get? j with | some k' => _ | none => pm.page? j) = _
      rcases ht' : b.pageTable.get? j with _ | k'
      · refine page?_setPage_ne ?_
        rintro rfl
        rw [ht] at ht'
        cases ht'
      · simp only [hnew]
        split
        · rename_i hk'
          rw [hk', hk]
          rfl
        · rfl
    · intro j hj
      exact page?_setPage_ne fun he => hj (he ▸ hi)
    · intro k' f' hf' hd'
      rw [hnew] at hf'
      split at hf'
      · cases hf'
        cases hd'
      · exact ⟨f', hf', rfl, hd'⟩
  · rw [if_neg hd]
    exact ⟨Flushed.refl h, f, hk, by simpa using hd⟩

theorem flushPages_spec {l : List UInt32} (h : b.Ok used D)
    (hl : ∀ i ∈ l, ∃ k, b.pageTable.get? i = some k) :
    Post (flushPages l) (fun _ b' => Flushed b used D b' ∧
      ∀ i ∈ l, ∀ (k : Nat) (f : BufferFrame), b'.frames[k]? = some f → f.pageId = some i →
        f.dirty = false) E b := by
  induction l generalizing b with
  | nil => exact ⟨Flushed.refl h, by simp⟩
  | cons i l ih =>
    obtain ⟨k, ht⟩ := hl i (by simp)
    obtain ⟨f, hk, hf⟩ := (h.table i k).mp ht
    rw [flushPages, post_bind]
    refine (flushPage_spec h hk hf).imp ?_
    rintro - b₁ ⟨hb₁, g, hg, hclean⟩
    refine (ih hb₁.ok fun j hj => ?_).imp ?_
    · rw [hb₁.table_eq]
      exact hl j (by simp [hj])
    · rintro - b₂ ⟨hb₂, hrest⟩
      refine ⟨hb₁.trans hb₂, fun j hj k' f' hf' hj' => ?_⟩
      rcases mem_cons.mp hj with rfl | hj
      · -- A page flushed once stays clean.
        by_contra hd
        obtain ⟨g', hg', hid, hgd⟩ := hb₂.dirty k' f' hf' (by simpa using hd)
        obtain ⟨f₁, hf₁, hid₁, -⟩ := hb₁.dirty k' g' hg' hgd
        have hkk : k' = k := h.unique hf₁ (by rw [hid₁, hid, hj']) hk hf
        rw [hkk, hg] at hg'
        cases hg'
        rw [hclean] at hgd
        cases hgd
      · exact hrest j hj k' f' hf' hj'

theorem mem_dirtyPages (h : b.Ok used D) (hk : b.frames[k]? = some f) (hf : f.pageId = some i)
    (hd : f.dirty = true) : i ∈ b.dirtyPages := by
  have ht := (h.table i k).mpr ⟨f, hk, hf⟩
  refine mem_map.mpr ⟨(i, k), mem_filter.mpr ⟨Table.mem_entries_iff.mpr ht, ?_⟩, rfl⟩
  simp [hk, hd]

/-- **Flushing** everything leaves no cached page dirty and shows what was shown. -/
theorem flushAll_spec (h : b.Ok used D) :
    Post flushAll (fun _ b' => Flushed b used D b' ∧ b'.Clean) E b := by
  rw [flushAll, post_bind, post_get]
  refine (flushPages_spec h fun i hi => ?_).imp ?_
  · obtain ⟨⟨i', k⟩, hmem, rfl⟩ := mem_map.mp hi
    exact ⟨k, Table.mem_entries_iff.mp (mem_filter.mp hmem).1⟩
  · rintro - b' ⟨hb', hclean⟩
    refine ⟨hb', fun k f i hk hf => ?_⟩
    by_contra hd
    obtain ⟨g, hg, hid, hgd⟩ := hb'.dirty k f hk (by simpa using hd)
    exact hd (hclean i (mem_dirtyPages h hg (hid.trans hf) hgd) k f hk hf)

theorem ok_new {capacity : Nat} (hok : pm.Ok used) (hsub : D ⊆ used) :
    (new capacity pm).Ok used D := by
  have hfree : ∀ (k : Nat) (f : BufferFrame), (new capacity pm).frames[k]? = some f →
      f.pageId = none := by
    intro k f hk
    have hf := mem_of_getElem? hk
    rw [new, mem_replicate] at hf
    rw [hf.2]
    rfl
  refine ⟨hok, hsub, ?_, ?_, ?_⟩
  · intro i k
    refine ⟨fun h => (nomatch h), ?_⟩
    rintro ⟨f, hk, hf⟩
    rw [hfree k f hk] at hf
    cases hf
  · intro k f i hk hf
    rw [hfree k f hk] at hf
    cases hf
  · intro k f i hk hf
    rw [hfree k f hk] at hf
    cases hf

end Checksummed

end BufferPool

end GrumpyDB
