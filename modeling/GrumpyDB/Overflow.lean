/-
Overflow pages: documents that do not fit on one page.

Every page holds a chunk, its length (in the field for the number of slots) and the id of the next
page, 0 on the last one.
-/
import GrumpyDB.Slotted

namespace GrumpyDB

open Proc List PageManager PageHeader

theorem take_take_append {α : Type*} (n : Nat) (xs ys : List α) :
    (xs.take n ++ ys).take n = (xs ++ ys).take n := by
  rw [take_append, take_append, take_take, Nat.min_self, length_take]
  congr 2
  omega

namespace Overflow

/-! ### References -/

def OVERFLOW_REF_SIZE : Nat := 9

def encodeOverflowRef (firstPageId totalLen : UInt32) : List UInt8 :=
  OVERFLOW_MARKER :: (leBytes 4 firstPageId.toNat ++ leBytes 4 totalLen.toNat)

def decodeOverflowRef (data : List UInt8) : Option (UInt32 × UInt32) :=
  if data.length < OVERFLOW_REF_SIZE ∨ data.head? ≠ some OVERFLOW_MARKER then none
  else some (UInt32.ofNat (leNat (slice 1 4 data)), UInt32.ofNat (leNat (slice 5 4 data)))

def isOverflow (data : List UInt8) : Bool :=
  data.head? = some OVERFLOW_MARKER ∧ data.length = OVERFLOW_REF_SIZE

@[simp] theorem length_encodeOverflowRef (first len : UInt32) :
    (encodeOverflowRef first len).length = OVERFLOW_REF_SIZE := by
  simp [encodeOverflowRef, OVERFLOW_REF_SIZE]

@[simp] theorem isOverflow_encodeOverflowRef (first len : UInt32) :
    isOverflow (encodeOverflowRef first len) = true := by
  simp only [isOverflow, length_encodeOverflowRef]
  simp [encodeOverflowRef]

@[simp] theorem decodeOverflowRef_encodeOverflowRef (first len : UInt32) :
    decodeOverflowRef (encodeOverflowRef first len) = some (first, len) := by
  have hhead : ¬ ((encodeOverflowRef first len).length < OVERFLOW_REF_SIZE ∨
      (encodeOverflowRef first len).head? ≠ some OVERFLOW_MARKER) := by
    rw [length_encodeOverflowRef]
    simp [encodeOverflowRef]
  have hfirst : slice 1 4 (encodeOverflowRef first len) = leBytes 4 first.toNat := by
    show slice 0 4 (leBytes 4 first.toNat ++ leBytes 4 len.toNat) = _
    exact slice_append_self (length_leBytes _ _)
  have hlen : slice 5 4 (encodeOverflowRef first len) = leBytes 4 len.toNat := by
    show slice 4 4 (leBytes 4 first.toNat ++ leBytes 4 len.toNat) = _
    exact slice_self (length_leBytes _ _)
  rw [decodeOverflowRef, if_neg hhead, hfirst, hlen, ofNat_leNat_u32, ofNat_leNat_u32]

theorem isOverflow_eq_false {data : List UInt8} (h : data.length ≠ OVERFLOW_REF_SIZE) :
    isOverflow data = false := by
  simp [isOverflow, h]

/-! ### Chains of pages -/

def overflowPage (pid next : UInt32) (chunk : List UInt8) : Page :=
  ({ PageHeader.new pid .overflow with
    nextPageId := next
    -- The length of the chunk is kept in the field for the number of slots.
    numSlots := UInt16.ofNat chunk.length }.writeTo Page.zero).write PAGE_HEADER_SIZE chunk

variable [Crc32]

def allocatePages : Nat → Proc Halt PageManager (List UInt32)
  | 0 => pure []
  | n + 1 => do
    let pid ← PageManager.allocatePage
    let pids ← allocatePages n
    pure (pid :: pids)

def writeChunks : List (UInt32 × List UInt8) → Proc Halt PageManager Unit
  | [] => pure ()
  | (pid, chunk) :: rest => do
    PageManager.writePage pid (overflowPage pid ((rest.map Prod.fst).headD 0) chunk)
    writeChunks rest

/-- Write data across a chain of overflow pages and return the first of them. -/
def writeOverflow (data : List UInt8) : Proc Halt PageManager UInt32 := do
  let chunks := chunks PAGE_USABLE_SPACE data
  let pageIds ← allocatePages chunks.length
  writeChunks (pageIds.zip chunks)
  match pageIds with
  | [] => fail .index
  | first :: _ => pure first

def readChunks : Nat → UInt32 → Proc Halt PageManager (List UInt8)
  | 0, _ => fail .diverge
  | fuel + 1, currentId =>
    if currentId = 0 then pure []
    else do
      let buf ← PageManager.readPage currentId
      let header := PageHeader.readFrom buf
      let chunkLen := header.numSlots.toNat
      if PAGE_HEADER_SIZE + chunkLen ≤ PAGE_SIZE then do
        let rest ← readChunks fuel header.nextPageId
        pure (buf.read PAGE_HEADER_SIZE chunkLen ++ rest)
      else fail .index

def readOverflow (firstPageId : UInt32) : Proc Halt PageManager (List UInt8) := do
  let pm ← get
  readChunks (pm.numPages + 1) firstPageId

def freeChunks : Nat → UInt32 → Proc Halt PageManager Unit
  | 0, _ => fail .diverge
  | fuel + 1, currentId =>
    if currentId = 0 then pure ()
    else do
      let buf ← PageManager.readPage currentId
      let header := PageHeader.readFrom buf
      PageManager.freePage currentId
      freeChunks fuel header.nextPageId

def freeOverflow (firstPageId : UInt32) : Proc Halt PageManager Unit := do
  let pm ← get
  freeChunks (pm.numPages + 1) firstPageId

/-! ### What a chain holds -/

/-- The page holds a chunk and links to the next page. -/
structure Link (p : Page) (next : UInt32) (chunk : List UInt8) : Prop where
  type : PageHeader.pageTypeOf p = .overflow
  next_eq : UInt32.ofNat (p.num 12 4) = next
  length : (UInt16.ofNat (p.num 6 2)).toNat = chunk.length
  inside : PAGE_HEADER_SIZE + chunk.length ≤ PAGE_SIZE
  bytes : p.read PAGE_HEADER_SIZE chunk.length = chunk

/-- The chain from `first` runs over the pages `ids` and holds `data`. -/
def Chain (pm : PageManager) : UInt32 → List UInt32 → List UInt8 → Prop
  | first, [], data => first = 0 ∧ data = []
  | first, i :: ids, data => first = i ∧ i ≠ 0 ∧ ∃ p next chunk rest,
      pm.page? i = some p ∧ Link p next chunk ∧ data = chunk ++ rest ∧ Chain pm next ids rest

variable {pm pm' : PageManager} {used : Set UInt32} {E : Halt → PageManager → Prop}
  {first : UInt32} {ids : List UInt32} {data chunk : List UInt8}

omit [Crc32] in
theorem Chain.frame (h : Chain pm first ids data) (hf : ∀ i ∈ ids, pm'.page? i = pm.page? i) :
    Chain pm' first ids data := by
  induction ids generalizing first data with
  | nil => exact h
  | cons i ids ih =>
    obtain ⟨hi, h0, p, next, chunk, rest, hp, hl, hd, hrest⟩ := h
    refine ⟨hi, h0, p, next, chunk, rest, ?_, hl, hd, ?_⟩
    · rw [hf i (by simp), hp]
    · exact ih hrest fun j hj => hf j (by simp [hj])

omit [Crc32] in
theorem Chain.page (h : Chain pm first ids data) {i : UInt32} (hi : i ∈ ids) :
    ∃ p, pm.page? i = some p ∧ PageHeader.pageTypeOf p = .overflow := by
  induction ids generalizing first data with
  | nil => cases hi
  | cons j ids ih =>
    obtain ⟨-, -, p, next, chunk, rest, hp, hl, -, hrest⟩ := h
    rcases mem_cons.mp hi with rfl | hi
    · exact ⟨p, hp, hl.type⟩
    · exact ih hrest hi

theorem link_overflowPage (pid next : UInt32) (h : chunk.length ≤ PAGE_USABLE_SPACE) :
    Link (stampChecksum (overflowPage pid next chunk)) next chunk := by
  have hpage : PAGE_SIZE = 8192 := rfl
  have husable : PAGE_USABLE_SPACE = 8160 := rfl
  have hheader : PAGE_HEADER_SIZE = 32 := rfl
  have hfield : ∀ off w, off + w ≤ 28 → (stampChecksum (overflowPage pid next chunk)).num off w =
      (({ new pid .overflow with
        nextPageId := next
        numSlots := UInt16.ofNat chunk.length } : PageHeader).writeTo Page.zero).num off w := by
    intro off w hw
    rw [num_stampChecksum (.inl hw), overflowPage, Page.num_write_disjoint (by omega)]
  refine ⟨?_, ?_, ?_, by omega, ?_⟩
  · rw [pageTypeOf, hfield 4 1 (by omega)]
    exact pageTypeOf_writeTo _ _
  · rw [hfield 12 4 (by omega)]
    exact congrArg nextPageId (readFrom_writeTo _ _)
  · rw [hfield 6 2 (by omega), num_numSlots_writeTo, UInt16.ofNat_toNat]
    exact Nat.mod_eq_of_lt (by omega)
  · rw [read_stampChecksum (by omega), overflowPage, Page.read_write_self rfl (by omega)]

/-! ### What each operation does -/

theorem allocatePages_spec {n : Nat} (h : pm.Ok used) :
    Yields PageManager.Full (allocatePages n)
      (fun ids pm' => ids.length = n ∧ ids.Nodup ∧ (∀ i ∈ ids, i ∉ used) ∧
        pm'.Ok (used ∪ {i | i ∈ ids}) ∧
        ∀ j, j ≠ 0 → j ∉ ids → pm'.page? j = pm.page? j) pm := by
  induction n generalizing pm used with
  | zero =>
    refine post_pure.mpr ⟨rfl, nodup_nil, by simp, ?_, fun j _ _ => rfl⟩
    simpa using h
  | succ n ih =>
    refine Yields.bind ((allocatePage_spec h).mono fun i pm₁ ha => ?_)
    refine Yields.bind ((ih ha.ok).mono fun ids pm₂ hr => ?_)
    obtain ⟨hlen, hnodup, hfresh, hok, hframe⟩ := hr
    have hi : i ∉ ids := fun hi => hfresh i hi (Set.mem_insert _ _)
    refine post_pure.mpr ⟨by simp [hlen], nodup_cons.mpr ⟨hi, hnodup⟩, ?_, ?_, ?_⟩
    · intro j hj
      rcases mem_cons.mp hj with rfl | hj
      · exact ha.fresh
      · exact fun hu => hfresh j hj (Set.mem_insert_of_mem _ hu)
    · refine hok.mono fun j hj => ?_
      rcases hj with hj | hj
      · exact .inl (Set.mem_insert_of_mem _ hj)
      · rcases mem_cons.mp hj with rfl | hj
        · exact .inl (Set.mem_insert _ _)
        · exact .inr hj
    · intro j h0 hj
      rw [hframe j h0 fun hm => hj (mem_cons_of_mem _ hm),
        ha.frame j h0 fun he => hj (he ▸ mem_cons_self)]

theorem writeChunks_spec {l : List (UInt32 × List UInt8)} (h : pm.Ok used)
    (hnodup : (l.map Prod.fst).Nodup) (hused : ∀ x ∈ l, x.1 ∈ used)
    (hlen : ∀ x ∈ l, x.2.length ≤ PAGE_USABLE_SPACE) :
    Post (writeChunks l)
      (fun _ pm' => pm'.Ok used ∧
        Chain pm' ((l.map Prod.fst).headD 0) (l.map Prod.fst) (l.map Prod.snd).flatten ∧
        ∀ j, j ∉ l.map Prod.fst → pm'.page? j = pm.page? j) E pm := by
  induction l generalizing pm with
  | nil => exact ⟨h, ⟨rfl, rfl⟩, fun _ _ => rfl⟩
  | cons x l ih =>
    obtain ⟨i, chunk⟩ := x
    obtain ⟨hi, hnodup⟩ := nodup_cons.mp hnodup
    have hiu : i ∈ used := hused (i, chunk) (by simp)
    obtain ⟨hi0, hlt⟩ := h.used i hiu
    rw [writeChunks, post_bind, post_writePage h hlt]
    have hok := h.setPage (p := stampChecksum (overflowPage i ((l.map Prod.fst).headD 0) chunk)) hiu
      fun j => verifyChecksum_stampChecksum _ j
    refine (ih hok hnodup (fun y hy => hused y (by simp [hy]))
      fun y hy => hlen y (by simp [hy])).imp ?_
    rintro - pm' ⟨hok', hchain, hframe⟩
    refine ⟨hok', ⟨rfl, hi0, _, _, chunk, _, ?_, link_overflowPage i _ (hlen (i, chunk) (by simp)),
      rfl, hchain⟩, ?_⟩
    · -- The rest of the chain lies on other pages.
      rw [hframe i hi, page?_setPage_self (by rw [h.length]; exact hlt)]
    · intro j hj
      simp only [map_cons, mem_cons, not_or] at hj
      rw [hframe j hj.2, page?_setPage_ne hj.1]

/-- **Writing** data uses pages that were not in use and changes no others. -/
theorem writeOverflow_spec (h : pm.Ok used) (hd : data ≠ []) :
    Yields PageManager.Full (writeOverflow data)
      (fun first pm' => ∃ ids, ids.Nodup ∧ (∀ i ∈ ids, i ∉ used) ∧
        pm'.Ok (used ∪ {i | i ∈ ids}) ∧ Chain pm' first ids data ∧
        ∀ j, j ≠ 0 → j ∉ ids → pm'.page? j = pm.page? j) pm := by
  have hpos : 0 < PAGE_USABLE_SPACE := by decide
  refine Yields.bind ((allocatePages_spec h).mono fun ids pm₁ hr => ?_)
  obtain ⟨hlen, hnodup, hfresh, hok, hframe⟩ := hr
  have hfst : (ids.zip (chunks PAGE_USABLE_SPACE data)).map Prod.fst = ids :=
    map_fst_zip hlen.le
  have hsnd : (ids.zip (chunks PAGE_USABLE_SPACE data)).map Prod.snd =
      chunks PAGE_USABLE_SPACE data := map_snd_zip hlen.ge
  refine Yields.bind ((writeChunks_spec hok (by rw [hfst]; exact hnodup) ?_ ?_).imp ?_)
  · exact fun x hx => .inr (of_mem_zip hx).1
  · exact fun x hx => length_le_of_mem_chunks (of_mem_zip hx).2
  · rintro - pm₂ ⟨hok₂, hchain, hframe₂⟩
    rw [hfst] at hchain hframe₂
    rw [hsnd, flatten_chunks hpos] at hchain
    cases ids with
    | nil => exact absurd (length_eq_zero_iff.mp hlen.symm) (chunks_ne_nil hpos hd)
    | cons i ids =>
      refine post_pure.mpr ⟨i :: ids, hnodup, hfresh, hok₂, hchain, fun j h0 hj => ?_⟩
      rw [hframe₂ j hj, hframe j h0 hj]

variable {Q : List UInt8 → PageManager → Prop}

theorem post_readChunks (h : pm.Ok used) {fuel : Nat} (hc : Chain pm first ids data)
    (hfuel : ids.length < fuel) : Post (readChunks fuel first) Q E pm ↔ Q data pm := by
  induction ids generalizing fuel first data Q with
  | nil =>
    obtain ⟨rfl, rfl⟩ := hc
    obtain ⟨fuel, rfl⟩ := Nat.exists_eq_succ_of_ne_zero (by omega : fuel ≠ 0)
    rw [readChunks, if_pos rfl, post_pure]
  | cons i ids ih =>
    obtain ⟨rfl, h0, p, next, chunk, rest, hp, hl, rfl, hrest⟩ := hc
    obtain ⟨fuel, rfl⟩ := Nat.exists_eq_succ_of_ne_zero (by omega : fuel ≠ 0)
    rw [readChunks, if_neg h0, post_bind, post_readPage h hp]
    simp only [readFrom, hl.length, hl.next_eq]
    rw [if_pos hl.inside, post_bind, ih hrest (by simpa using hfuel), post_pure, hl.bytes]

theorem length_ids_lt (h : pm.Ok used) (hnodup : ids.Nodup) (hused : ∀ i ∈ ids, i ∈ used) :
    ids.length < pm.numPages + 1 := by
  have := length_le_of_nodup hnodup fun i hi => (h.used i (hused i hi)).2
  omega

/-- **Reading** a chain gives its data. -/
theorem post_readOverflow (h : pm.Ok used) (hc : Chain pm first ids data) (hnodup : ids.Nodup)
    (hused : ∀ i ∈ ids, i ∈ used) : Post (readOverflow first) Q E pm ↔ Q data pm := by
  rw [readOverflow, post_bind, post_get, post_readChunks h hc (length_ids_lt h hnodup hused)]

theorem freeChunks_spec (h : pm.Ok used) {fuel : Nat} (hc : Chain pm first ids data)
    (hnodup : ids.Nodup) (hused : ∀ i ∈ ids, i ∈ used) (hfuel : ids.length < fuel) :
    Post (freeChunks fuel first)
      (fun _ pm' => pm'.Ok (used \ {i | i ∈ ids}) ∧
        (∀ i ∈ ids, ∃ p, pm'.page? i = some p ∧ PageHeader.pageTypeOf p = .free) ∧
        (∀ j, j ≠ 0 → j ∉ ids → pm'.page? j = pm.page? j) ∧
        pm'.freeList = (pm.freeList ++ ids).take PageManager.freeListCapacity) E pm := by
  induction ids generalizing pm used fuel first data with
  | nil =>
    obtain ⟨rfl, rfl⟩ := hc
    obtain ⟨fuel, rfl⟩ := Nat.exists_eq_succ_of_ne_zero (by omega : fuel ≠ 0)
    rw [freeChunks, if_pos rfl, post_pure]
    refine ⟨by simpa using h, by simp, fun _ _ _ => rfl, ?_⟩
    rw [append_nil, take_of_length_le (length_freeList_le pm)]
  | cons i ids ih =>
    obtain ⟨rfl, h0, p, next, chunk, rest, hp, hl, rfl, hrest⟩ := hc
    obtain ⟨hi, hnodup⟩ := nodup_cons.mp hnodup
    obtain ⟨fuel, rfl⟩ := Nat.exists_eq_succ_of_ne_zero (by omega : fuel ≠ 0)
    rw [freeChunks, if_neg h0, post_bind, post_readPage h hp, post_bind]
    have hmem := hused first mem_cons_self
    refine ((freePage_spec h hmem).and (freePage_freeList (E := E) h
      hmem)).mono ?_ fun _ _ => And.left
    rintro - pm₁ ⟨hfreed, hlist⟩
    have hne : ∀ j ∈ ids, j ≠ first := fun j hj he => hi (he ▸ hj)
    have hrest₁ : Chain pm₁ next ids rest := hrest.frame fun j hj =>
      hfreed.frame j (h.used j (hused j (by simp [hj]))).1 (hne j hj)
    have hnext : (readFrom p).nextPageId = next := hl.next_eq
    rw [hnext]
    refine (ih hfreed.ok hrest₁ hnodup (fun j hj => ⟨hused j (by simp [hj]), hne j hj⟩)
      (by simpa using hfuel)).imp ?_
    rintro - pm₂ ⟨hok₂, htype, hframe, hlist₂⟩
    refine ⟨hok₂.mono fun j hj => ?_, fun j hj => ?_, fun j hj0 hj => ?_, ?_⟩
    · simp only [Set.mem_sdiff, Set.mem_ofPred_eq, mem_cons, not_or] at hj
      exact ⟨⟨hj.1, hj.2.1⟩, hj.2.2⟩
    · rcases mem_cons.mp hj with rfl | hj
      · rw [hframe j h0 hi]
        exact hfreed.free
      · exact htype j hj
    · simp only [mem_cons, not_or] at hj
      rw [hframe j hj0 hj.2, hfreed.frame j hj0 hj.1]
    · rw [hlist₂, hlist, take_take_append, append_assoc, singleton_append]

/-- **Freeing** a chain puts exactly its pages out of use, and those page 0 has room for on
the free list. -/
theorem freeOverflow_spec (h : pm.Ok used) (hc : Chain pm first ids data) (hnodup : ids.Nodup)
    (hused : ∀ i ∈ ids, i ∈ used) :
    Post (freeOverflow first)
      (fun _ pm' => pm'.Ok (used \ {i | i ∈ ids}) ∧
        (∀ i ∈ ids, ∃ p, pm'.page? i = some p ∧ PageHeader.pageTypeOf p = .free) ∧
        (∀ j, j ≠ 0 → j ∉ ids → pm'.page? j = pm.page? j) ∧
        pm'.freeList = (pm.freeList ++ ids).take PageManager.freeListCapacity) E pm := by
  rw [freeOverflow, post_bind]
  exact freeChunks_spec h hc hnodup hused (length_ids_lt h hnodup hused)

end Overflow

end GrumpyDB
