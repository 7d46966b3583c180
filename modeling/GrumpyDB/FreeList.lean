/-
What becomes of freed pages.

An id pushed onto a full list is dropped, and its page is never handed out again.
-/
import GrumpyDB.Room
import GrumpyDB.Indexed

namespace GrumpyDB

open Proc List PageManager

theorem Proc.Post.st {ε σ α : Type} {x : Proc ε σ α} {s : σ} {R : σ → Prop}
    (h : Post x (fun _ t => R t) (fun _ _ => False) s) : R (x s).st := by
  unfold Post at h
  split at h
  · exact h
  · exact h.elim

namespace PageManager

variable [Crc32] {pm : PageManager} {used : Set UInt32} {i : UInt32}
  {E : Halt → PageManager → Prop}

/-! ### The list behind each operation -/

theorem post_allocatePage_pop (h : pm.Ok used) {l : List UInt32} (hl : pm.freeList = l ++ [i])
    {Q : UInt32 → PageManager → Prop} :
    Post allocatePage Q E pm ↔ Q i (pm.setPage 0 (stampChecksum (freeListPage l))) := by
  rw [allocatePage, post_bind, popFreeList, post_bind, post_readFreeList h, hl]
  simp only [getLast?_concat, dropLast_concat]
  rw [post_bind, post_writeFreeList h, post_pure, post_pure]

theorem freeList_extend (h : pm.Ok used) (p : Page) (n : Nat) :
    (PageManager.mk (pm.file ++ [p]) n).freeList = pm.freeList := by
  have hpos : 0 < pm.file.length := by rw [h.length]; exact h.pos
  simp only [freeList, page?, UInt32.toNat_zero, getElem?_append_left hpos]

theorem allocatePage_freeList (h : pm.Ok used) :
    Yields Full allocatePage (fun i pm' =>
      (pm.freeList = [] ∧ pm'.freeList = [] ∧ pm'.numPages = pm.numPages + 1) ∨
      (pm.freeList = pm'.freeList ++ [i] ∧ pm'.numPages = pm.numPages)) pm := by
  rcases eq_nil_or_concat pm.freeList with hl | ⟨l, i, hl⟩
  · by_cases hn : pm.numPages + 1 < 2 ^ 32
    · refine (post_allocatePage_extend h hl hn).mpr (.inl ⟨hl, ?_, rfl⟩)
      rw [freeList_extend h, hl]
    · -- No page id is left for a new page.
      rw [Yields, allocatePage, post_bind, popFreeList, post_bind, post_readFreeList h, hl]
      simp only [getLast?_nil, post_pure, post_bind, post_gets, writeFile, post_modify,
        post_cut, if_neg hn]
      have := h.small
      exact post_fail.mpr ⟨rfl, show pm.numPages + 1 = 2 ^ 32 by omega⟩
  · rw [concat_eq_append] at hl
    refine (post_allocatePage_pop h hl).mpr (.inr ⟨?_, rfl⟩)
    have hlen : l.length + 1 ≤ freeListCapacity := by
      have := length_freeList_le pm
      rwa [hl, length_append] at this
    have hcap : freeListCapacity < 2 ^ 32 := by decide
    rw [freeList_setPage_zero h (by omega), take_of_length_le (by omega), hl]

/-! ### Runs of allocations and frees -/

/-- The runs of callers who free only pages they hold: the manager reached, the
pages held, and the pages freed and not yet handed out again.  Where the run
frees a page, `P` holds of the pages that were freed so far. -/
inductive PageRun (P : Finset UInt32 → Prop) :
    PageManager → Set UInt32 → Finset UInt32 → Prop
  | start {pm held} (hok : pm.Ok held) : PageRun P pm held pm.freeList.toFinset
  | allocate {pm held freed i} (hrun : PageRun P pm held freed)
      (hres : (allocatePage pm).res = .ok i) :
      PageRun P (allocatePage pm).st (insert i held) (freed.erase i)
  | free {pm held freed i} (hrun : PageRun P pm held freed) (hi : i ∈ held) (hP : P freed) :
      PageRun P (freePage i pm).st (held \ {i}) (insert i freed)

/-- The runs of callers who free only pages they hold, from a new file: the manager
reached and the pages held.  The file is opened again at any time, and has to be
when an allocation panics. -/
inductive OwnedRun : PageManager → Set UInt32 → Prop
  | new {found : Option File} {pm} (hnew : found.getD [] = [])
      (hres : (PageManager.new found).res = .ok pm) : OwnedRun pm ∅
  | allocate {pm held i} (hrun : OwnedRun pm held) (hres : (allocatePage pm).res = .ok i) :
      OwnedRun (allocatePage pm).st (insert i held)
  | refused {pm held e} (hrun : OwnedRun pm held)
      (hres : (allocatePage pm).res = .error (.err e)) : OwnedRun (allocatePage pm).st held
  | panic {pm held pm'} (hrun : OwnedRun pm held) (hres : (allocatePage pm).res = .error .overflow)
      (hnew : (PageManager.new (some (allocatePage pm).st.file)).res = .ok pm') : OwnedRun pm' held
  | free {pm held i} (hrun : OwnedRun pm held) (hi : i ∈ held) :
      OwnedRun (freePage i pm).st (held \ {i})
  | reopen {pm held pm'} (hrun : OwnedRun pm held)
      (hnew : (PageManager.new (some pm.file)).res = .ok pm') : OwnedRun pm' held

/-- A freed page is handed out before the file grows. -/
def Reuses (pm : PageManager) (freed : Finset UInt32) : Prop :=
  freed.Nonempty → ∃ i ∈ freed, (allocatePage pm).res = .ok i ∧
    (allocatePage pm).st.numPages = pm.numPages

def RoomToFree (freed : Finset UInt32) : Prop := freed.card < freeListCapacity

variable {P : Finset UInt32 → Prop} {held : Set UInt32} {freed : Finset UInt32}

theorem PageRun.ok (h : PageRun P pm held freed) : pm.Ok held := by
  induction h with
  | start hok => exact hok
  | allocate hrun hres ih =>
    exact ((allocatePage_spec ih).of_ok hres).ok
  | free hrun hi hP ih =>
    exact (freePage_spec ih hi).st.ok

theorem PageRun.freed_eq (h : PageRun RoomToFree pm held freed) :
    freed = pm.freeList.toFinset := by
  induction h with
  | start hok => rfl
  | @allocate pm held freed i hrun hres ih =>
    have hnodup := hrun.ok.nodup
    subst ih
    rcases (allocatePage_freeList hrun.ok).of_ok hres with ⟨hl, hl', -⟩ | ⟨hl, -⟩
    · rw [hl, hl']
      simp
    · -- The page comes off the end of a list that names it once.
      rw [hl] at hnodup ⊢
      have hi : i ∉ (allocatePage pm).st.freeList := fun hi =>
        (nodup_append.mp hnodup).2.2 i hi i (mem_singleton_self i) rfl
      ext j
      simp only [Finset.mem_erase, mem_toFinset, mem_append, mem_singleton]
      constructor
      · rintro ⟨hne, hj | hj⟩
        · exact hj
        · exact absurd hj hne
      · exact fun hj => ⟨fun he => hi (he ▸ hj), .inl hj⟩
  | @free pm held freed i hrun hi hP ih =>
    have hlen : pm.freeList.length < freeListCapacity := by
      rwa [RoomToFree, ih, toFinset_card_of_nodup hrun.ok.nodup] at hP
    rw [(freePage_freeList hrun.ok hi).st, take_of_length_le, ih]
    · simp
    · rw [length_append, length_singleton]
      omega

/-- **Freed pages are reused** in every run that never frees a page when page 0
is full: the next allocation is a freed page while there is one, and the file
grows only when there is none. -/
theorem freed_pages_reused (h : PageRun RoomToFree pm held freed) : Reuses pm freed := by
  rintro ⟨j, hj⟩
  rw [h.freed_eq] at hj
  rcases eq_nil_or_concat pm.freeList with hl | ⟨l, i, hl⟩
  · rw [hl] at hj
    cases hj
  · rw [concat_eq_append] at hl
    have hrun : Post allocatePage (fun k pm' => k = i ∧ pm'.numPages = pm.numPages)
        (fun _ _ => False) pm := (post_allocatePage_pop h.ok hl).mpr ⟨rfl, rfl⟩
    obtain ⟨k, hres, rfl, hn⟩ := hrun.exists_ok
    refine ⟨k, ?_, hres, hn⟩
    rw [h.freed_eq, hl]
    simp

def blank : PageManager := ⟨[freeListPage []], 1⟩

theorem ok_blank : blank.Ok ∅ := ok_empty

omit [Crc32] in
theorem freeList_blank : blank.freeList = [] := freeListOf_freeListPage [] (by simp)

theorem PageRun.allocate_spec (h : PageRun P pm held freed) {Q : UInt32 → PageManager → Prop}
    (hQ : Post allocatePage Q (fun _ _ => False) pm) :
    ∃ i pm', Q i pm' ∧ PageRun P pm' (insert i held) (freed.erase i) := by
  obtain ⟨i, hres, hi⟩ := hQ.exists_ok
  exact ⟨i, _, hi, h.allocate hres⟩

theorem PageRun.extend (h : PageRun P pm held freed) (hl : pm.freeList = [])
    (hn : pm.numPages + 1 < 2 ^ 32) :
    ∃ pm', PageRun P pm' (insert (UInt32.ofNat pm.numPages) held)
        (freed.erase (UInt32.ofNat pm.numPages)) ∧
      pm'.freeList = [] ∧ pm'.numPages = pm.numPages + 1 := by
  obtain ⟨i, pm', ⟨rfl, hl', hn'⟩, hrun⟩ := h.allocate_spec
    (Q := fun i pm' => i = UInt32.ofNat pm.numPages ∧ pm'.freeList = [] ∧
      pm'.numPages = pm.numPages + 1)
    ((post_allocatePage_extend h.ok hl hn).mpr ⟨rfl, by rw [freeList_extend h.ok, hl], rfl⟩)
  exact ⟨pm', hrun, hl', hn'⟩

theorem PageRun.fill {n : Nat} (hn : n + 1 < 2 ^ 32) :
    ∃ pm held, PageRun P pm held ∅ ∧ (∀ k < n, UInt32.ofNat (k + 1) ∈ held) ∧
      pm.freeList = [] ∧ pm.numPages = n + 1 := by
  induction n with
  | zero =>
    refine ⟨blank, ∅, ?_, fun k hk => absurd hk (Nat.not_lt_zero k), freeList_blank, rfl⟩
    have hrun := PageRun.start (P := P) ok_blank
    rwa [freeList_blank] at hrun
  | succ n ih =>
    obtain ⟨pm, held, hrun, hheld, hl, hnum⟩ := ih (by omega)
    obtain ⟨pm', hrun', hl', hnum'⟩ := hrun.extend hl (by omega)
    refine ⟨pm', _, hrun', fun k hk => ?_, hl', by omega⟩
    rcases Nat.lt_succ_iff_lt_or_eq.mp hk with hk | rfl
    · exact Set.mem_insert_of_mem _ (hheld k hk)
    · rw [hnum]
      exact Set.mem_insert _ _

theorem PageRun.frees (hP : ∀ s, P s) {ps : List UInt32} (h : PageRun P pm held freed)
    (hnodup : ps.Nodup) (hheld : ∀ i ∈ ps, i ∈ held) :
    ∃ pm' held', PageRun P pm' held' (freed ∪ ps.toFinset) ∧
      pm'.freeList = (pm.freeList ++ ps).take freeListCapacity ∧ pm'.numPages = pm.numPages := by
  induction ps generalizing pm held freed with
  | nil =>
    refine ⟨pm, held, by simpa using h, ?_, rfl⟩
    rw [append_nil, take_of_length_le (length_freeList_le pm)]
  | cons i ps ih =>
    obtain ⟨hi, hnodup⟩ := nodup_cons.mp hnodup
    have hmem : i ∈ held := hheld i mem_cons_self
    obtain ⟨pm', held', hrun, hlist, hnum⟩ := ih (h.free hmem (hP _)) hnodup fun j hj =>
      ⟨hheld j (mem_cons_of_mem i hj), fun he => hi (he ▸ hj)⟩
    refine ⟨pm', held', ?_, ?_, ?_⟩
    · rwa [toFinset_cons, Finset.union_insert, ← Finset.insert_union]
    · rw [hlist, (freePage_freeList h.ok hmem).st, take_take_append, append_assoc,
        singleton_append]
    · rw [hnum, (freePage_spec h.ok hmem).st.numPages_eq]

theorem PageRun.drain {l : List UInt32} (h : PageRun P pm held freed) (hl : pm.freeList = l) :
    ∃ pm' held', PageRun P pm' held' (freed \ l.toFinset) ∧ pm'.freeList = [] ∧
      pm'.numPages = pm.numPages := by
  induction l using reverseRecOn generalizing pm held freed with
  | nil => exact ⟨pm, held, by simpa using h, hl, rfl⟩
  | append_singleton l i ih =>
    have hpop := (post_allocatePage_pop (E := fun _ _ => False) h.ok hl
      (Q := fun k pm' => k = i ∧ pm'.freeList = l ∧ pm'.numPages = pm.numPages)).mpr ?_
    · obtain ⟨k, pm₁, ⟨rfl, hl₁, hn₁⟩, hrun₁⟩ := h.allocate_spec hpop
      obtain ⟨pm', held', hrun, hlist, hnum⟩ := ih hrun₁ hl₁
      refine ⟨pm', held', ?_, hlist, by rw [hnum, hn₁]⟩
      rwa [show freed \ (l ++ [k]).toFinset = freed.erase k \ l.toFinset by
        ext j
        simp only [Finset.mem_sdiff, Finset.mem_erase, mem_toFinset, mem_append,
          mem_singleton]
        tauto]
    · have hlen := length_freeList_le pm
      have hcap : freeListCapacity < 2 ^ 32 := by decide
      rw [hl, length_append] at hlen
      refine ⟨rfl, ?_, rfl⟩
      rw [freeList_setPage_zero h.ok (by omega), take_of_length_le (by omega)]

omit [Crc32] in
/-- A page allocated from a new file, given back and handed out again. -/
theorem freed_pages_reused_once : ∃ _ : Crc32, ∃ pm held freed, PageRun RoomToFree pm held freed ∧
    freed.Nonempty ∧ Reuses pm freed := by
  refine ⟨⟨fun _ => 0⟩, ?_⟩
  let _ : Crc32 := ⟨fun _ => 0⟩
  obtain ⟨pm, held, hrun, hheld, -, -⟩ := PageRun.fill (P := RoomToFree) (n := 1) (by decide)
  have hfree := hrun.free (hheld 0 Nat.one_pos) (show 0 < freeListCapacity by decide)
  exact ⟨_, _, _, hfree, Finset.insert_nonempty _ _, freed_pages_reused hfree⟩

omit [Crc32] in
/-- **A freed page is lost**: of `freeListCapacity + 1` pages freed in a row, the
last one finds no room on page 0.  When the others have been handed out again
the file grows, and that page is still free. -/
theorem freed_page_lost : ∃ _ : Crc32, ∃ pm held freed, PageRun (fun _ => True) pm held freed ∧
    freed.Nonempty ∧ Post allocatePage (fun i pm' => i ∉ freed ∧ pm'.numPages = pm.numPages + 1)
      (fun _ _ => False) pm := by
  refine ⟨⟨fun _ => 0⟩, ?_⟩
  let _ : Crc32 := ⟨fun _ => 0⟩
  set n := freeListCapacity + 1 with hn
  have hsmall : n = 2040 := rfl
  let ps := (range n).map fun k => UInt32.ofNat (k + 1)
  obtain ⟨pm₁, held₁, hrun₁, hheld₁, hl₁, hn₁⟩ :=
    PageRun.fill (n := n) (by omega)
  have htoNat : ∀ k < n + 1, (UInt32.ofNat (k + 1)).toNat = k + 1 := fun k hk =>
    UInt32.toNat_ofNat_of_lt' (by simp only [UInt32.size]; omega)
  have hnodup : ps.Nodup := by
    refine (nodup_map_iff_inj_on nodup_range).mpr fun j hj k hk he => ?_
    have := congrArg UInt32.toNat he
    rw [htoNat j (by have := mem_range.mp hj; omega),
      htoNat k (by have := mem_range.mp hk; omega)] at this
    omega
  obtain ⟨pm₂, held₂, hrun₂, hl₂, hn₂⟩ := hrun₁.frees (fun _ => trivial) hnodup fun i hi => by
    obtain ⟨k, hk, rfl⟩ := mem_map.mp hi
    exact hheld₁ k (mem_range.mp hk)
  obtain ⟨pm₃, held₃, hrun₃, hl₃, hn₃⟩ := hrun₂.drain rfl
  rw [hl₂, hl₁, nil_append, Finset.empty_union] at hrun₃
  refine ⟨pm₃, held₃, _, hrun₃, ?_, ?_⟩
  · -- More pages were freed than the list can name.
    rw [Finset.sdiff_nonempty]
    intro hsub
    have hle := Finset.card_le_card hsub
    rw [toFinset_card_of_nodup hnodup] at hle
    have hle' := toFinset_card_le (ps.take freeListCapacity)
    rw [length_take] at hle'
    have : ps.length = n := by simp [ps]
    omega
  · have hnum : pm₃.numPages = n + 1 := by omega
    refine (post_allocatePage_extend hrun₃.ok hl₃ (by omega)).mpr ⟨fun hmem => ?_, rfl⟩
    obtain ⟨k, hk, he⟩ := mem_map.mp (mem_toFinset.mp (Finset.mem_sdiff.mp hmem).1)
    have := congrArg UInt32.toNat he
    rw [hnum, htoNat n (by omega), htoNat k (by have := mem_range.mp hk; omega)] at this
    have := mem_range.mp hk
    omega

/-! ### Owners of pages -/

/-- The page counter is 32 bits wide: a file of `2 ^ 32` pages is opened as one
without pages, and every call on it is refused. -/
structure Wrapped (pm : PageManager) : Prop where
  numPages : pm.numPages = 0
  length : pm.file.length = 2 ^ 32

omit [Crc32] in
theorem new_of_file {file : File} (hne : file ≠ [])
    (hres : (PageManager.new (some file)).res = .ok pm) : pm = ⟨file, file.length % 2 ^ 32⟩ := by
  have h : Post new (fun pm' _ => pm' = ⟨file, file.length % 2 ^ 32⟩)
      (fun _ _ => False) (some file) := by
    rw [new, post_bind, post_get, post_bind, post_modify, post_bind]
    simp [if_neg hne]
  exact h.of_ok hres

theorem Ok.reopen (h : pm.Ok held) {pm' : PageManager}
    (hres : (PageManager.new (some pm.file)).res = .ok pm') : pm' = pm := by
  have hlen := h.length
  have hpos := h.pos
  have hsmall := h.small
  rw [new_of_file (fun h0 => by rw [h0] at hlen; simp at hlen; omega) hres, hlen,
    Nat.mod_eq_of_lt hsmall]

omit [Crc32] in
theorem Wrapped.reopen {file : File} (h : file.length = 2 ^ 32)
    (hres : (PageManager.new (some file)).res = .ok pm) : pm.Wrapped := by
  rw [new_of_file (fun h0 => by rw [h0] at h; cases h) hres, h]
  exact ⟨Nat.mod_self _, h⟩

theorem Wrapped.allocatePage (h : pm.Wrapped) :
    (allocatePage pm).res = .error (.err (.pageNotFound 0)) ∧ (allocatePage pm).st = pm := by
  refine Post.fails (R := (· = pm)) ?_
  rw [PageManager.allocatePage, post_bind, popFreeList, post_bind, readFreeList, post_bind,
    readPage, post_bind, post_get, if_pos (by rw [h.numPages]; exact Nat.zero_le _)]
  exact ⟨rfl, rfl⟩

theorem Wrapped.freePage (h : pm.Wrapped) : (freePage i pm).st = pm := by
  refine (Post.fails (e := .err (.pageNotFound i)) (R := (· = pm)) ?_).2
  rw [PageManager.freePage, post_bind, post_get]
  split
  · rename_i h0
    exact post_fail.mpr ⟨by rw [h0], rfl⟩
  · rw [if_pos (by rw [h.numPages]; exact Nat.zero_le _)]
    exact post_fail.mpr ⟨rfl, rfl⟩

/-- The page that overflows the counter has been written when the allocation panics. -/
theorem allocatePage_overflow (h : pm.Ok held) :
    Yields (fun t => t.file.length = 2 ^ 32) PageManager.allocatePage (fun _ _ => True) pm := by
  rcases eq_nil_or_concat pm.freeList with hl | ⟨l, i, hl⟩
  · by_cases hn : pm.numPages + 1 < 2 ^ 32
    · exact (post_allocatePage_extend h hl hn).mpr trivial
    · rw [Yields, allocatePage, post_bind, popFreeList, post_bind,
        post_readFreeList h, hl]
      simp only [getLast?_nil, post_pure, post_bind, post_gets, writeFile, post_modify,
        post_cut, File.writeAt, h.length, lt_irrefl, if_false, if_neg hn]
      refine post_fail.mpr ⟨rfl, ?_⟩
      have := h.small
      simp only [List.length_append, List.length_replicate, List.length_singleton, h.length]
      omega
  · rw [List.concat_eq_append] at hl
    exact (post_allocatePage_pop h hl).mpr trivial

/-- The invariant of a run. -/
theorem OwnedRun.ok (h : OwnedRun pm held) : pm.Ok held ∨ pm.Wrapped := by
  induction h with
  | @new found pm hnew hres =>
    have h : Post PageManager.new (fun pm' _ => pm' = blank) (fun _ _ => False) found := by
      rw [PageManager.new, post_bind, post_get, post_bind, post_modify, post_bind]
      simp only [hnew]
      rfl
    exact .inl (h.of_ok hres ▸ ok_blank)
  | allocate _ hres ih =>
    rcases ih with ih | ih
    · exact .inl ((allocatePage_spec ih).of_ok hres).ok
    · cases ih.allocatePage.1.symm.trans hres
  | refused _ hres ih =>
    rcases ih with ih | ih
    · cases ((allocatePage_spec ih).of_error hres).1
    · exact .inr (ih.allocatePage.2.symm ▸ ih)
  | panic _ hres hnew ih =>
    rcases ih with ih | ih
    · exact .inr (Wrapped.reopen ((allocatePage_overflow ih).of_error hres).2 hnew)
    · cases ih.allocatePage.1.symm.trans hres
  | free _ hi ih =>
    rcases ih with ih | ih
    · exact .inl (freePage_spec ih hi).st.ok
    · exact .inr (ih.freePage.symm ▸ ih)
  | reopen _ hnew ih =>
    rcases ih with ih | ih
    · exact .inl (ih.reopen hnew ▸ ih)
    · exact .inr (Wrapped.reopen ih.length hnew)

end PageManager

namespace Overflow

variable [Crc32] {pm : PageManager} {used : Set UInt32} {first : UInt32} {ids : List UInt32}
  {data : List UInt8} {E : Halt → PageManager → Prop}

/-! ### Chains given back -/

/-- The pages `ids`, and only these, go from use to the free list, once each. -/
structure Released (pm : PageManager) (used : Set UInt32) (ids : List UInt32)
    (pm' : PageManager) : Prop where
  listed : pm'.freeList.Perm (pm.freeList ++ ids)
  ok : pm'.Ok (used \ {i | i ∈ ids})
  frame : ∀ j, j ≠ 0 → j ∉ ids → pm'.page? j = pm.page? j

/-- A chain is given back as a whole exactly if page 0 has room for its pages. -/
theorem freeOverflow_released (h : pm.Ok used) (hc : Chain pm first ids data)
    (hnodup : ids.Nodup) (hused : ∀ i ∈ ids, i ∈ used) :
    Post (freeOverflow first) (fun _ pm' => Released pm used ids pm' ↔
      pm.freeList.length + ids.length ≤ freeListCapacity) E pm := by
  refine (freeOverflow_spec h hc hnodup hused).imp ?_
  rintro - pm' ⟨hok, -, hframe, hlist⟩
  rw [← length_append]
  constructor
  · intro hr
    have hlen := hr.listed.length_eq
    rw [hlist, length_take] at hlen
    omega
  · intro hle
    refine ⟨?_, hok, hframe⟩
    rw [hlist, take_of_length_le hle]

omit [Crc32] in
theorem Chain.length_le (h : Chain pm first ids data) :
    data.length ≤ ids.length * PAGE_USABLE_SPACE := by
  induction ids generalizing first data with
  | nil => simp [h.2]
  | cons i ids ih =>
    obtain ⟨-, -, p, next, chunk, rest, hp, hl, rfl, hrest⟩ := h
    have hpage : PAGE_SIZE = PAGE_HEADER_SIZE + PAGE_USABLE_SPACE := rfl
    have hchunk := hl.inside
    have hle := ih hrest
    rw [length_append, length_cons, Nat.succ_mul]
    omega

/-- **Overflow storage.**  Writing uses pages that were not in use and changes none that is, and
the data reads back.  Freeing a chain gives all its pages back exactly if page 0 has room for
them. -/
theorem overflow_storage (h : pm.Ok used) (hd : data ≠ []) :
    Yields PageManager.Full (writeOverflow data) (fun first pm' =>
      (∀ i ∈ used, pm'.page? i = pm.page? i) ∧
      (readOverflow first pm').res = .ok data ∧ (readOverflow first pm').st = pm' ∧
      ∃ ids, ids.Nodup ∧ (∀ i ∈ ids, i ∉ used) ∧ pm'.Ok (used ∪ {i | i ∈ ids}) ∧
        Chain pm' first ids data) pm ∧
    (∀ first ids, Chain pm first ids data → ids.Nodup → (∀ i ∈ ids, i ∈ used) →
      Post (freeOverflow first) (fun _ pm' => Released pm used ids pm' ↔
        pm.freeList.length + ids.length ≤ freeListCapacity) (fun _ _ => False) pm) ∧
    (∀ d : Document, isOverflow d.encode = false) ∧
    ∀ first totalLen, isOverflow (encodeOverflowRef first totalLen) = true := by
  refine ⟨?_, fun first ids => freeOverflow_released h, fun d => ?_, isOverflow_encodeOverflowRef⟩
  · refine (writeOverflow_spec h hd).mono ?_
    rintro first pm' ⟨ids, hnodup, hfresh, hok, hchain, hframe⟩
    have hread : Post (readOverflow first) (fun d s => d = data ∧ s = pm') (fun _ _ => False) pm' :=
      (post_readOverflow hok hchain hnodup fun i hi => .inr hi).mpr ⟨rfl, rfl⟩
    obtain ⟨d, hres, rfl, hst⟩ := hread.exists_ok
    refine ⟨fun i hi => ?_, hres, hst, ids, hnodup, hfresh, hok, hchain⟩
    exact hframe i (h.used i hi).1 fun hmem => hfresh i hmem hi
  · apply isOverflow_eq_false
    have hlen : 17 ≤ d.encode.length := Collection.length_encode d.key d.value
    have : OVERFLOW_REF_SIZE = 9 := rfl
    omega

theorem not_full_writeOverflow (hsmall : data.length + 2 < 2 ^ 32) :
    ¬ (writeOverflow data PageManager.blank).st.Full := by
  intro hfull
  have hgrows : (writeOverflow data blank).st.numPages ≤
      1 + (chunks PAGE_USABLE_SPACE data).length := grows_writeOverflow data blank
  have hchunks := Collection.length_chunks_le data
  have hnum : (writeOverflow data blank).st.numPages + 1 = 2 ^ 32 := hfull
  omega

omit [Crc32] in
/-- One byte written to a new file, read back and given back. -/
theorem overflow_storage_byte : ∃ _ : Crc32, ∃ pm pm' : PageManager, ∃ first ids,
    (writeOverflow [7] pm).res = .ok first ∧ (writeOverflow [7] pm).st = pm' ∧
    (readOverflow first pm').res = .ok [7] ∧ Chain pm' first ids [7] ∧
    Released pm' (∅ ∪ {i | i ∈ ids}) ids (freeOverflow first pm').st := by
  refine ⟨⟨fun _ => 0⟩, ?_⟩
  let _ : Crc32 := ⟨fun _ => 0⟩
  have hstore := (overflow_storage ok_blank (cons_ne_nil (7 : UInt8) [])).1
  rcases hres : (writeOverflow [7] blank).res with e | first
  · exact absurd (hstore.of_error hres).2 (not_full_writeOverflow (by simp))
  obtain ⟨-, hread, -, ids, hnodup, -, hok, hchain⟩ := hstore.of_ok hres
  have hused : ∀ i ∈ ids, i ∈ (∅ ∪ {i | i ∈ ids} : Set UInt32) := fun i hi => .inr hi
  have hfree := (overflow_storage hok (by simp)).2.1 first ids hchain hnodup hused
  obtain ⟨-, -, hiff⟩ := hfree.exists_ok
  refine ⟨blank, _, first, ids, hres, rfl, hread, hchain, hiff.mpr ?_⟩
  -- The file has two pages at most.
  have hnum : (writeOverflow [7] blank).st.numPages ≤ 2 :=
    grows_writeOverflow [7] blank
  have hids := length_le_of_nodup hnodup fun i hi => (hok.used i (hused i hi)).2
  have hlist := length_le_of_nodup hok.nodup fun i hi => by
    obtain ⟨-, -, p, hp, -⟩ := hok.free i hi
    exact lt_of_page? hp
  have hlen := hok.length
  have : freeListCapacity = 2039 := rfl
  omega

/-- A chain of more than `freeListCapacity` pages is not given back as a whole. -/
theorem freeOverflow_loses (hlen : freeListCapacity * PAGE_USABLE_SPACE < data.length)
    (hsmall : data.length + 2 < 2 ^ 32) :
    Post (writeOverflow data) (fun first pm => ∃ used ids, pm.Ok used ∧ Chain pm first ids data ∧
      ids.Nodup ∧ (∀ i ∈ ids, i ∈ used) ∧
      Post (freeOverflow first) (fun _ pm' => ∃ i ∈ ids, i ∉ pm'.freeList) (fun _ _ => False) pm)
      (fun _ _ => False) PageManager.blank := by
  have hne : data ≠ [] := by
    rintro rfl
    exact absurd hlen (Nat.not_lt_zero _)
  have hstore := writeOverflow_spec ok_blank hne
  refine post_iff.mpr ⟨fun first hres => ?_, fun e hres => ?_⟩
  · obtain ⟨ids, hnodup, -, hok, hchain, -⟩ := hstore.of_ok hres
    have hused : ∀ i ∈ ids, i ∈ (∅ ∪ {i | i ∈ ids} : Set UInt32) := fun i hi => .inr hi
    refine ⟨_, ids, hok, hchain, hnodup, hused, ?_⟩
    refine (freeOverflow_spec hok hchain hnodup hused).imp ?_
    rintro - pm' ⟨hok', -, -⟩
    by_contra hall
    have hsub : ids ⊆ pm'.freeList := fun i hi => by
      by_contra hi'
      exact hall ⟨i, hi, hi'⟩
    have hle := (hnodup.subperm hsub).length_le.trans (length_freeList_le pm')
    have := hchain.length_le.trans (Nat.mul_le_mul_right PAGE_USABLE_SPACE hle)
    omega
  · exact not_full_writeOverflow hsmall (hstore.of_error hres).2

omit [Crc32] in
/-- **A chain that does not fit page 0**: data on `freeListCapacity + 1` pages,
written to a new file.  When it is freed, a page of the chain is not on the
free list. -/
theorem long_chain_not_released : ∃ _ : Crc32, ∃ data : List UInt8, data ≠ [] ∧
    Post (writeOverflow data) (fun first pm => ∃ used ids, pm.Ok used ∧ Chain pm first ids data ∧
      ids.Nodup ∧ (∀ i ∈ ids, i ∈ used) ∧
      Post (freeOverflow first) (fun _ pm' => ∃ i ∈ ids, i ∉ pm'.freeList) (fun _ _ => False) pm)
      (fun _ _ => False) PageManager.blank := by
  refine ⟨⟨fun _ => 0⟩, ?_⟩
  let _ : Crc32 := ⟨fun _ => 0⟩
  have hcap : freeListCapacity * PAGE_USABLE_SPACE = 16638240 := by decide
  obtain ⟨data, hdata⟩ : ∃ data : List UInt8,
      data.length = freeListCapacity * PAGE_USABLE_SPACE + 1 := ⟨replicate _ 0, length_replicate⟩
  refine ⟨data, fun he => ?_, freeOverflow_loses (by omega) (by omega)⟩
  rw [he, length_nil] at hdata
  omega

end Overflow

end GrumpyDB
