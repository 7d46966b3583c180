/-
What the data file of a collection stores.

`Stores b rs l spare`: `l` says which pages are data pages and which tuple each slot holds, `rs`
lists the documents with the slot of each, `spare` are overflow pages in use that belong to no
document yet. No two documents share a slot or an overflow page, so a document is written or
removed without touching another.
-/
import GrumpyDB.Collection

namespace GrumpyDB

open Proc List BufferPool

structure StoredDoc where
  key : Uuid
  bytes : List UInt8
  pageId : UInt32
  slotId : UInt16
  chain : List UInt32

namespace StoredDoc

def entry (r : StoredDoc) : LeafEntry Uuid := ⟨r.key, r.pageId, r.slotId⟩

def location (r : StoredDoc) : UInt32 × UInt16 := (r.pageId, r.slotId)

end StoredDoc

def chainsOf (rs : List StoredDoc) : List UInt32 := rs.flatMap StoredDoc.chain

/-- The tuple stands for the bytes of a document: it is these bytes, or it refers
to the overflow chain that holds them. -/
def Stands (pm : PageManager) (tuple bytes : List UInt8) (chain : List UInt32) : Prop :=
  (chain = [] ∧ tuple = bytes ∧ Overflow.isOverflow tuple = false) ∨
    ∃ first len, tuple = Overflow.encodeOverflowRef first len ∧
      Overflow.Chain pm first chain bytes

theorem Stands.frame {pm pm' : PageManager} {tuple bytes : List UInt8} {chain : List UInt32}
    (h : Stands pm tuple bytes chain) (hf : ∀ i ∈ chain, pm'.page? i = pm.page? i) :
    Stands pm' tuple bytes chain := by
  rcases h with h | ⟨first, len, ht, hc⟩
  · exact .inl h
  · exact .inr ⟨first, len, ht, hc.frame hf⟩

/-- The data pages of a file and the tuples on them. -/
structure Layout where
  pages : Set UInt32
  tuples : UInt32 → UInt16 → Option (List UInt8)

def Layout.setSlot (l : Layout) (i : UInt32) (k : UInt16) (t : Option (List UInt8)) : Layout :=
  { l with tuples := Function.update l.tuples i (Function.update (l.tuples i) k t) }

def Layout.addPage (l : Layout) (i : UInt32) : Layout :=
  ⟨insert i l.pages, Function.update l.tuples i fun _ => none⟩

section Stores

variable [Crc32]

/-- The pool stores the documents `rs` on the pages of `l`. -/
structure Stores (b : BufferPool) (rs : List StoredDoc) (l : Layout) (spare : List UInt32) :
    Prop where
  ok : b.Ok (l.pages ∪ {i | i ∈ spare ++ chainsOf rs}) l.pages
  page : ∀ i ∈ l.pages, ∃ p, b.content i = some p ∧ SlottedPage.Rep p (l.tuples i)
  doc : ∀ r ∈ rs, r.pageId ∈ l.pages ∧ ∃ tuple, l.tuples r.pageId r.slotId = some tuple ∧
    Stands b.pm tuple r.bytes r.chain
  locations : (rs.map StoredDoc.location).Nodup
  chains : (spare ++ chainsOf rs).Nodup
  apart : ∀ i ∈ spare ++ chainsOf rs, i ∉ l.pages
  /-- Pages that are not data pages do not look like one. -/
  types : ∀ i p, i ≠ 0 → i ∉ l.pages → b.pm.page? i = some p → PageHeader.pageTypeOf p ≠ .data

variable {b b' : BufferPool} {rs rs' : List StoredDoc} {l : Layout} {spare : List UInt32}
  {r : StoredDoc} {i : UInt32}

omit [Crc32] in
theorem mem_chainsOf {i : UInt32} : i ∈ chainsOf rs ↔ ∃ r ∈ rs, i ∈ r.chain := List.mem_flatMap

theorem Stores.perm (h : Stores b rs l spare) (hp : rs.Perm rs') : Stores b rs' l spare := by
  have hchains : (chainsOf rs).Perm (chainsOf rs') := hp.flatMap_right _
  have hmem : ∀ i, i ∈ spare ++ chainsOf rs ↔ i ∈ spare ++ chainsOf rs' :=
    fun i => (hchains.append_left spare).mem_iff
  have hset : {i | i ∈ spare ++ chainsOf rs'} = {i | i ∈ spare ++ chainsOf rs} := by
    ext i
    exact (hmem i).symm
  refine ⟨?_, h.page, fun r hr => h.doc r (hp.mem_iff.mpr hr),
    (hp.map _).nodup_iff.mp h.locations, (hchains.append_left spare).nodup_iff.mp h.chains,
    fun i hi => h.apart i ((hmem i).mpr hi), h.types⟩
  rw [hset]
  exact h.ok

theorem Stores.keeps (h : Stores b rs l spare)
    (hok : b'.Ok (l.pages ∪ {i | i ∈ spare ++ chainsOf rs}) l.pages)
    (hkeeps : BufferPool.Keeps l.pages b b')
    (hdisk : ∀ j, j ∉ l.pages → b'.pm.page? j = b.pm.page? j) : Stores b' rs l spare where
  ok := hok
  page := by
    intro i hi
    obtain ⟨p, hp, hrep⟩ := h.page i hi
    obtain ⟨q, hq, hs⟩ := hkeeps i hi p hp
    exact ⟨q, hq, hrep.same hs⟩
  doc := by
    intro r hr
    obtain ⟨hpage, tuple, ht, hstands⟩ := h.doc r hr
    refine ⟨hpage, tuple, ht, hstands.frame fun i hi => hdisk i (h.apart i ?_)⟩
    exact mem_append_right _ (mem_chainsOf.mpr ⟨r, hr, hi⟩)
  locations := h.locations
  chains := h.chains
  apart := h.apart
  types := by
    intro i p h0 hi hp
    rw [hdisk i hi] at hp
    exact h.types i p h0 hi hp

/-- The pool can take a page: it has a frame, and none is pinned. -/
structure Ready (b : BufferPool) : Prop where
  idle : b.Idle
  frames : b.frames ≠ []

omit [Crc32] in
theorem Ready.of_capacity (h : Ready b) (hidle : b'.Idle) (hc : b'.capacity = b.capacity) :
    Ready b' := by
  refine ⟨hidle, fun he => h.frames ?_⟩
  rw [capacity, he] at hc
  exact length_eq_zero_iff.mp hc.symm

theorem Stores.fetched_rep (h : Stores b rs l spare) {used : Set UInt32} {k : Nat}
    (hf : BufferPool.Fetched b used l.pages i k b') (hi : i ∈ l.pages) :
    ∃ f, b'.Pinned i k f ∧ SlottedPage.Rep f.data (l.tuples i) := by
  obtain ⟨f, hpin⟩ := hf.pinned
  obtain ⟨p, hp, hrep⟩ := h.page i hi
  obtain ⟨q, hq, hs⟩ := hf.keeps i hi p hp
  rw [hf.ok.content_cached hpin.frame hpin.page] at hq
  cases hq
  exact ⟨f, hpin, hrep.same hs⟩

/-! ### Reading -/

namespace Collection

variable {c : Collection} {E : Halt → Collection → Prop} {α : Type}

variable {Q : α → Collection → Prop}

omit [Crc32] in
theorem post_onPool {x : Proc Halt BufferPool α} :
    Post (onPool x) Q E c ↔ Post x (fun a dataPool => Q a { c with dataPool })
      (fun e dataPool => E e { c with dataPool }) c.dataPool :=
  post_zoom

omit [Crc32] in
theorem post_onTree {x : Proc Halt (BTree Uuid) α} :
    Post (onTree x) Q E c ↔ Post x (fun a btree => Q a { c with btree })
      (fun e btree => E e { c with btree }) c.btree :=
  post_zoom

/-- The collection has been read from: only what is cached may have changed. -/
structure Looked (c : Collection) (rs : List StoredDoc) (l : Layout) (c' : Collection) : Prop where
  stores : Stores c'.dataPool rs l []
  ready : Ready c'.dataPool
  rest : c' = { c with dataPool := c'.dataPool }
  capacity_eq : c'.dataPool.capacity = c.dataPool.capacity
  keeps : BufferPool.Keeps l.pages c.dataPool c'.dataPool
  dirty : ∀ i, c'.dataPool.Dirty i → c.dataPool.Dirty i
  clean : c.dataPool.Clean → c'.dataPool.pm = c.dataPool.pm

theorem Looked.refl (h : Stores c.dataPool rs l []) (hb : Ready c.dataPool) : Looked c rs l c :=
  ⟨h, hb, rfl, rfl, BufferPool.Keeps.refl _, fun _ => id, fun _ => rfl⟩

theorem Looked.trans {c₁ c₂ c₃ : Collection} (h : Looked c₁ rs l c₂) (h' : Looked c₂ rs l c₃) :
    Looked c₁ rs l c₃ where
  stores := h'.stores
  ready := h'.ready
  rest := by rw [h'.rest, h.rest]
  capacity_eq := h'.capacity_eq.trans h.capacity_eq
  keeps := h.keeps.trans h'.keeps
  dirty := fun i hi => h.dirty i (h'.dirty i hi)
  clean := fun hc => (h'.clean (hc.of_dirty h.dirty)).trans (h.clean hc)

omit [Crc32] in
theorem post_readSlotData {f : BufferFrame} {k : Nat} {slotId : UInt16} {tuple : List UInt8}
    {m : UInt16 → Option (List UInt8)} {Q : List UInt8 → BufferPool → Prop}
    {E : Halt → BufferPool → Prop} (hk : b.frames[k]? = some f) (hrep : SlottedPage.Rep f.data m)
    (hm : m slotId = some tuple) : Post (readSlotData k slotId) Q E b ↔ Q tuple b := by
  have hres : (SlottedPage.get slotId f.data).res = .ok tuple :=
    Post.run (C := fun r _ => r = .ok tuple)
      ((hrep.post_get (E := fun _ _ => False) hm).mpr rfl |>.mono (fun _ _ h => h) (by simp))
  rw [readSlotData, post_bind, post_getFrame hk, hres, post_lift_ok]

/-- **Reading** a document gives its bytes. -/
theorem readTuple_spec (h : Stores c.dataPool rs l []) (hb : Ready c.dataPool) (hr : r ∈ rs) :
    Post (readTuple r.pageId r.slotId)
      (fun bytes c' => bytes = r.bytes ∧ Looked c rs l c') E c := by
  obtain ⟨hpage, tuple, ht, hstands⟩ := h.doc r hr
  rw [readTuple, post_onPool, post_bind]
  refine (fetchPage_spec h.ok hb.idle hb.frames hpage).imp ?_
  rintro k b₁ hf
  obtain ⟨f, hpin, hrep⟩ := h.fetched_rep hf hpage
  rw [post_bind, post_readSlotData hpin.frame hrep ht, post_bind]
  refine (unpin_spec hf.ok hpin).imp ?_
  rintro - b₂ ⟨hun, hdirty⟩
  have hkeeps : BufferPool.Keeps l.pages c.dataPool b₂ := hf.keeps_unpinned hpin hun
  have hdisk : ∀ j, j ∉ l.pages → b₂.pm.page? j = c.dataPool.pm.page? j := by
    intro j hj
    rw [hun.pm_eq]
    exact hf.disk j hj
  have hcap : b₂.capacity = c.dataPool.capacity := hun.capacity_eq.trans hf.capacity_eq
  have hstores : Stores b₂ rs l [] := h.keeps hun.ok hkeeps hdisk
  have hlooked : Looked c rs l { c with dataPool := b₂ } :=
    ⟨hstores, hb.of_capacity hun.idle hcap, rfl, hcap, hkeeps,
      fun j hj => hf.dirty j (hdirty j hj), fun hc => hun.pm_eq.trans (hf.clean hc)⟩
  have hstands₂ : Stands b₂.pm tuple r.bytes r.chain := by
    refine hstands.frame fun i hi => hdisk i (h.apart i ?_)
    exact mem_append_right _ (mem_chainsOf.mpr ⟨r, hr, hi⟩)
  rcases hstands₂ with ⟨-, rfl, hno⟩ | ⟨first, len, rfl, hc⟩
  · rw [hno, if_neg (by simp)]
    exact ⟨rfl, hlooked⟩
  · rw [if_pos (Overflow.isOverflow_encodeOverflowRef first len),
      Overflow.decodeOverflowRef_encodeOverflowRef]
    rw [post_pageManager, Overflow.post_readOverflow hstores.ok.disk hc]
    · exact ⟨rfl, hlooked⟩
    · exact (nodup_flatMap.mp (nodup_append.mp h.chains).2.1).1 r hr
    · intro i hi
      exact .inr (mem_append_right _ (mem_chainsOf.mpr ⟨r, hr, hi⟩))

end Collection

/-! ### Writing -/

/-- Page `i` is rewritten, or new, and no document's tuple is disturbed. -/
theorem Stores.update {l' : Layout} (h : Stores b rs l spare)
    (hok : b'.Ok (l'.pages ∪ {i | i ∈ spare ++ chainsOf rs}) l'.pages)
    (hsub : l.pages ⊆ l'.pages)
    (hpage : ∃ p, b'.content i = some p ∧ SlottedPage.Rep p (l'.tuples i))
    (hpages : ∀ j ∈ l'.pages, j ≠ i → j ∈ l.pages ∧ l'.tuples j = l.tuples j)
    (hkeeps : ∀ j ∈ l.pages, j ≠ i → ∀ p, b.content j = some p →
      ∃ q, b'.content j = some q ∧ Page.Same q p)
    (hdoc : ∀ r ∈ rs, l'.tuples r.pageId r.slotId = l.tuples r.pageId r.slotId)
    (hapart : ∀ j ∈ spare ++ chainsOf rs, j ∉ l'.pages)
    (hdisk : ∀ j, j ≠ 0 → j ∉ l'.pages → b'.pm.page? j = b.pm.page? j) :
    Stores b' rs l' spare where
  ok := hok
  page := by
    intro j hj
    by_cases hji : j = i
    · rw [hji]
      exact hpage
    · obtain ⟨hjl, htuples⟩ := hpages j hj hji
      obtain ⟨p, hp, hrep⟩ := h.page j hjl
      obtain ⟨q, hq, hs⟩ := hkeeps j hjl hji p hp
      rw [htuples]
      exact ⟨q, hq, hrep.same hs⟩
  doc := by
    intro r hr
    obtain ⟨hpage, tuple, ht, hstands⟩ := h.doc r hr
    refine ⟨hsub hpage, tuple, (hdoc r hr).trans ht, hstands.frame fun j hj => ?_⟩
    have hmem : j ∈ spare ++ chainsOf rs :=
      mem_append_right _ (mem_chainsOf.mpr ⟨r, hr, hj⟩)
    exact hdisk j (h.ok.disk.used j (.inr hmem)).1 (hapart j hmem)
  locations := h.locations
  chains := h.chains
  apart := hapart
  types := by
    intro j p h0 hj hp
    rw [hdisk j h0 hj] at hp
    exact h.types j p h0 (fun hjl => hj (hsub hjl)) hp

variable {pm : PageManager}

theorem Stores.reserve (h : Stores b rs l []) {ids : List UInt32} (hnodup : ids.Nodup)
    (hfresh : ∀ i ∈ ids, i ∉ l.pages ∪ {i | i ∈ chainsOf rs})
    (hok : pm.Ok (l.pages ∪ {i | i ∈ chainsOf rs} ∪ {i | i ∈ ids}))
    (htypes : ∀ i ∈ ids, ∀ p, pm.page? i = some p → PageHeader.pageTypeOf p ≠ .data)
    (hframe : ∀ j, j ≠ 0 → j ∉ ids → pm.page? j = b.pm.page? j) :
    Stores { b with pm } rs l ids := by
  have hpages : ∀ i ∈ l.pages, pm.page? i = b.pm.page? i := fun i hi =>
    hframe i (h.ok.disk.used i (.inl hi)).1 fun hids => hfresh i hids (.inl hi)
  have hchain : ∀ i ∈ chainsOf rs, pm.page? i = b.pm.page? i := fun i hi =>
    hframe i (h.ok.disk.used i (.inr hi)).1 fun hids => hfresh i hids (.inr hi)
  refine ⟨h.ok.setManager (hok.mono ?_) Set.subset_union_left hpages, ?_, ?_, h.locations,
    ?_, ?_, ?_⟩
  · rintro i (hi | hi)
    · exact .inl (.inl hi)
    · rcases mem_append.mp hi with hi | hi
      · exact .inr hi
      · exact .inl (.inr hi)
  · intro i hi
    rw [content_setManager (hpages i hi)]
    exact h.page i hi
  · intro r hr
    obtain ⟨hpage, tuple, ht, hstands⟩ := h.doc r hr
    exact ⟨hpage, tuple, ht, hstands.frame fun i hi => hchain i (mem_chainsOf.mpr ⟨r, hr, hi⟩)⟩
  · exact nodup_append.mpr ⟨hnodup, h.chains, fun i hi j hj he => hfresh i hi (.inr (he ▸ hj))⟩
  · intro i hi hil
    rcases mem_append.mp hi with hi | hi
    · exact hfresh i hi (.inl hil)
    · exact h.apart i hi hil
  · intro i p h0 hi hp
    by_cases hids : i ∈ ids
    · exact htypes i hids p hp
    · exact h.types i p h0 hi ((hframe i h0 hids).symm.trans hp)

theorem Stores.detach (h : Stores b (r :: rs) l []) : Stores b rs l r.chain :=
  ⟨h.ok, h.page, fun r' hr' => h.doc r' (List.mem_cons_of_mem _ hr'),
    (List.nodup_cons.mp h.locations).2, h.chains, h.apart, h.types⟩

theorem Stores.release (h : Stores b rs l spare)
    (hok : pm.Ok ((l.pages ∪ {i | i ∈ spare ++ chainsOf rs}) \ {i | i ∈ spare}))
    (htypes : ∀ i ∈ spare, ∃ p, pm.page? i = some p ∧ PageHeader.pageTypeOf p = .free)
    (hframe : ∀ j, j ≠ 0 → j ∉ spare → pm.page? j = b.pm.page? j) :
    Stores { b with pm } rs l [] := by
  obtain ⟨-, hnodup, hdisj⟩ := nodup_append.mp h.chains
  have hpages : ∀ i ∈ l.pages, i ∉ spare := fun i hi hs =>
    h.apart i (mem_append_left _ hs) hi
  have hchain : ∀ i ∈ chainsOf rs, i ∉ spare := fun i hi hs => hdisj i hs i hi rfl
  have hdisk : ∀ i ∈ l.pages, pm.page? i = b.pm.page? i := fun i hi =>
    hframe i (h.ok.disk.used i (.inl hi)).1 (hpages i hi)
  refine ⟨h.ok.setManager (hok.mono ?_) Set.subset_union_left hdisk, ?_, ?_, h.locations, hnodup,
    fun i hi => h.apart i (mem_append_right _ hi), ?_⟩
  · rintro i (hi | hi)
    · exact ⟨.inl hi, hpages i hi⟩
    · exact ⟨.inr (mem_append_right _ hi), hchain i hi⟩
  · intro i hi
    rw [content_setManager (hdisk i hi)]
    exact h.page i hi
  · intro r hr
    obtain ⟨hpage, tuple, ht, hstands⟩ := h.doc r hr
    refine ⟨hpage, tuple, ht, hstands.frame fun i hi => ?_⟩
    have hmem : i ∈ chainsOf rs := mem_chainsOf.mpr ⟨r, hr, hi⟩
    exact hframe i (h.ok.disk.used i (.inr (mem_append_right _ hmem))).1 (hchain i hmem)
  · intro i p h0 hi hp
    by_cases hs : i ∈ spare
    · obtain ⟨q, hq, ht⟩ := htypes i hs
      rw [hp] at hq
      cases hq
      rw [ht]
      decide
    · exact h.types i p h0 hi ((hframe i h0 hs).symm.trans hp)

/-- Page `i` is rewritten, and the records for the log say so; the other pages of
`pages` are shown as before, and none of them has become dirty. -/
structure Rewrites (pages : Set UInt32) (b : BufferPool) (i : UInt32)
    (records : List PageWriteRecord) (b' : BufferPool) : Prop where
  record : ∃ before after, records = [⟨i, before, after⟩] ∧ b'.content i = some after
  others : ∀ j ∈ pages, j ≠ i → ∀ p, b.content j = some p →
    ∃ q, b'.content j = some q ∧ Page.Same q p
  dirty : ∀ j, j ≠ i → b'.Dirty j → b.Dirty j

omit [Crc32] in
theorem Rewrites.of_manager {pages : Set UInt32} {records : List PageWriteRecord}
    (h : Rewrites pages { b with pm } i records b')
    (hdisk : ∀ j ∈ pages, pm.page? j = b.pm.page? j) : Rewrites pages b i records b' where
  record := h.record
  others := by
    intro j hj hji p hp
    rw [← content_setManager (hdisk j hj)] at hp
    exact h.others j hj hji p hp
  dirty := h.dirty

namespace Collection

variable {c : Collection} {tuple : List UInt8}

/-- The collection with a tuple put into a slot that no document has. -/
structure Placed (c : Collection) (l : Layout) (rs : List StoredDoc) (spare : List UInt32)
    (tuple : List UInt8) (loc : UInt32 × UInt16) (records : List PageWriteRecord)
    (c' : Collection) (l' : Layout) : Prop where
  stores : Stores c'.dataPool rs l' spare
  ready : Ready c'.dataPool
  current : c'.currentDataPage ∈ l'.pages
  pages_eq : l'.pages = insert loc.1 l.pages
  tuple_eq : l'.tuples loc.1 loc.2 = some tuple
  fresh : ∀ r ∈ rs, r.location ≠ loc
  disk : ∀ j ∈ spare ++ chainsOf rs, c'.dataPool.pm.page? j = c.dataPool.pm.page? j
  capacity_eq : c'.dataPool.capacity = c.dataPool.capacity
  rewrites : Rewrites l.pages c.dataPool loc.1 records c'.dataPool
  rest : c' = { c with dataPool := c'.dataPool, currentDataPage := c'.currentDataPage }

variable {before after : Page} {b₁ b₂ : BufferPool}

theorem placed_current (h : Stores c.dataPool rs l spare) (hb : Ready c.dataPool) {k : Nat}
    {slotId : UInt16} (hcur : c.currentDataPage ∈ l.pages)
    (hf : BufferPool.Fetched c.dataPool (l.pages ∪ {i | i ∈ spare ++ chainsOf rs}) l.pages
      c.currentDataPage k b₁)
    (hfree : l.tuples c.currentDataPage slotId = none)
    (hrep : SlottedPage.Rep after (Function.update (l.tuples c.currentDataPage) slotId
      (some tuple)))
    (hun : BufferPool.Unpinned b₁ (l.pages ∪ {i | i ∈ spare ++ chainsOf rs}) l.pages
      c.currentDataPage after b₂) :
    Placed c l rs spare tuple (c.currentDataPage, slotId) [⟨c.currentDataPage, before, after⟩]
      { c with dataPool := b₂ } (l.setSlot c.currentDataPage slotId (some tuple)) := by
  have hfresh : ∀ r ∈ rs, r.location ≠ (c.currentDataPage, slotId) := by
    intro r hr he
    obtain ⟨-, t, ht, -⟩ := h.doc r hr
    obtain ⟨hp, hs⟩ := Prod.mk.inj he
    rw [hp, hs, hfree] at ht
    cases ht
  have hcap : b₂.capacity = c.dataPool.capacity := hun.capacity_eq.trans hf.capacity_eq
  have hdisk : ∀ j, j ∉ l.pages → b₂.pm.page? j = c.dataPool.pm.page? j := by
    intro j hj
    rw [hun.pm_eq]
    exact hf.disk j hj
  have hcontent : b₂.content c.currentDataPage = some after := by
    rw [hun.content_eq, if_pos rfl]
  have hothers : ∀ j ∈ l.pages, j ≠ c.currentDataPage → ∀ p, c.dataPool.content j = some p →
      ∃ q, b₂.content j = some q ∧ Page.Same q p := by
    intro j hj hji p hp
    obtain ⟨q, hq, hs⟩ := hf.keeps j hj p hp
    exact ⟨q, by rw [hun.content_eq, if_neg hji, hq], hs⟩
  refine ⟨h.update hun.ok (fun _ => id) ⟨after, hcontent, ?_⟩
      (fun j hj hji => ⟨hj, ?_⟩) hothers ?_ h.apart (fun j _ hj => hdisk j hj),
    hb.of_capacity hun.idle hcap, hcur, (Set.insert_eq_of_mem hcur).symm, ?_, hfresh,
    fun j hj => hdisk j (h.apart j hj), hcap,
    ⟨⟨before, after, rfl, hcontent⟩, hothers, fun j hji hj => hf.dirty j (hun.dirty j hji hj)⟩, rfl⟩
  · simpa [Layout.setSlot] using hrep
  · simp [Layout.setSlot, hji]
  · intro r hr
    by_cases hp : r.pageId = c.currentDataPage
    · have hs : r.slotId ≠ slotId := fun hs => hfresh r hr (Prod.ext hp hs)
      simp [Layout.setSlot, hp, hs]
    · simp [Layout.setSlot, hp]
  · simp [Layout.setSlot]

theorem placed_new (h : Stores c.dataPool rs l spare) (hb : Ready c.dataPool) {i : UInt32}
    {slotId : UInt16} (hfresh : i ∉ l.pages ∪ {i | i ∈ spare ++ chainsOf rs})
    (hkeeps : BufferPool.Keeps l.pages c.dataPool b₁) (hcap : b₁.capacity = c.dataPool.capacity)
    (hdisk : ∀ j, j ≠ 0 → j ∉ insert i l.pages → b₁.pm.page? j = c.dataPool.pm.page? j)
    (hdirty : ∀ j, j ≠ i → b₁.Dirty j → c.dataPool.Dirty j)
    (hrep : SlottedPage.Rep after (Function.update (fun _ => none) slotId (some tuple)))
    (hun : BufferPool.Unpinned b₁ (insert i (l.pages ∪ {i | i ∈ spare ++ chainsOf rs}))
      (insert i l.pages) i after b₂) :
    Placed c l rs spare tuple (i, slotId) [⟨i, before, after⟩]
      { c with dataPool := b₂, currentDataPage := i }
      ((l.addPage i).setSlot i slotId (some tuple)) := by
  have hil : i ∉ l.pages := fun hi => hfresh (.inl hi)
  have hcap₂ : b₂.capacity = c.dataPool.capacity := hun.capacity_eq.trans hcap
  have hapart : ∀ j ∈ spare ++ chainsOf rs, j ∉ insert i l.pages := by
    rintro j hj (rfl | hjl)
    · exact hfresh (.inr hj)
    · exact h.apart j hj hjl
  have hdisk₂ : ∀ j, j ≠ 0 → j ∉ insert i l.pages →
      b₂.pm.page? j = c.dataPool.pm.page? j := by
    intro j h0 hj
    rw [hun.pm_eq]
    exact hdisk j h0 hj
  have hother : ∀ r ∈ rs, r.pageId ≠ i := fun r hr he => hil (he ▸ (h.doc r hr).1)
  have hcontent : b₂.content i = some after := by
    rw [hun.content_eq, if_pos rfl]
  have hothers : ∀ j ∈ l.pages, j ≠ i → ∀ p, c.dataPool.content j = some p →
      ∃ q, b₂.content j = some q ∧ Page.Same q p := by
    intro j hj hji p hp
    obtain ⟨q, hq, hs⟩ := hkeeps j hj p hp
    exact ⟨q, by rw [hun.content_eq, if_neg hji, hq], hs⟩
  refine ⟨h.update (i := i) ?_ (fun j hj => .inr hj) ⟨after, hcontent, ?_⟩
      (fun j hj hji => ⟨?_, ?_⟩) hothers ?_ hapart hdisk₂,
    hb.of_capacity hun.idle hcap₂, .inl rfl, rfl, ?_, ?_, ?_, hcap₂,
    ⟨⟨before, after, rfl, hcontent⟩, hothers,
      fun j hji hj => hdirty j hji (hun.dirty j hji hj)⟩, rfl⟩
  · rw [show ((l.addPage i).setSlot i slotId (some tuple)).pages = insert i l.pages from rfl,
      Set.insert_union]
    exact hun.ok
  · simpa [Layout.setSlot, Layout.addPage] using hrep
  · rcases hj with hj | hj
    · exact absurd hj hji
    · exact hj
  · simp [Layout.setSlot, Layout.addPage, hji]
  · intro r hr
    simp [Layout.setSlot, Layout.addPage, hother r hr]
  · simp [Layout.setSlot, Layout.addPage]
  · intro r hr he
    exact hother r hr (Prod.mk.inj he).1
  · intro j hj
    exact hdisk₂ j (h.ok.disk.used j (.inr hj)).1 (hapart j hj)

/-- A file of the collection has run out of page ids. -/
def Full (c : Collection) : Prop := c.dataPool.pm.Full ∨ c.btree.Full

variable {E : Halt → Collection → Prop}

theorem post_fetch_current {α : Type} (h : Stores c.dataPool rs l spare) (hb : Ready c.dataPool)
    (hcur : c.currentDataPage ∈ l.pages) {next : Nat → BufferFrame → Proc Halt Collection α}
    {Q : α → Collection → Prop}
    (hnext : ∀ k f b₁,
      BufferPool.Fetched c.dataPool (l.pages ∪ {i | i ∈ spare ++ chainsOf rs}) l.pages
        c.currentDataPage k b₁ →
      b₁.Pinned c.currentDataPage k f →
      SlottedPage.Rep f.data (l.tuples c.currentDataPage) →
      Post (next k f) Q E { c with dataPool := b₁ }) :
    Post (do
      let frameIdx ← onPool (BufferPool.fetchPage c.currentDataPage)
      let frame ← onPool (BufferPool.getFrame frameIdx)
      next frameIdx frame) Q E c := by
  rw [post_bind, post_onPool]
  refine (fetchPage_spec h.ok hb.idle hb.frames hcur).imp ?_
  rintro k b₁ hf
  obtain ⟨f, hpin, hrep⟩ := h.fetched_rep hf hcur
  rw [post_bind, post_onPool, post_getFrame hpin.frame]
  exact hnext k f b₁ hf hpin hrep

omit [Crc32] in
theorem insert_new (hlen : tuple.length ≤ INLINE_MAX) (i : UInt32) :
    ∃ slotId, (SlottedPage.insert tuple (SlottedPage.new i)).res = .ok slotId ∧
      SlottedPage.Rep (SlottedPage.insert tuple (SlottedPage.new i)).st
        (Function.update (fun _ => none) slotId (some tuple)) := by
  have hins := (SlottedPage.rep_new i).insert tuple
  rcases hres : (SlottedPage.insert tuple (SlottedPage.new i)).res with e | slotId
  · have hfull := (hins.of_error hres).2.2
    simp only [SlottedPage.freeSpace, SlottedPage.freeSpaceEnd_new, SlottedPage.freeSpaceStart_new,
      SLOT_SIZE, PAGE_SIZE] at hfull
    simp only [INLINE_MAX, PAGE_USABLE_SPACE, PAGE_SIZE, PAGE_HEADER_SIZE, SLOT_SIZE] at hlen
    omega
  · exact ⟨slotId, rfl, (hins.of_ok hres).2⟩

/-- **Storing** a tuple of inline size. -/
theorem storeInline_spec (h : Stores c.dataPool rs l spare) (hb : Ready c.dataPool)
    (hcur : c.currentDataPage ∈ l.pages) (hlen : tuple.length ≤ INLINE_MAX) :
    Yields Full (storeInline tuple)
      (fun res c' => ∃ l', Placed c l rs spare tuple res.1 res.2 c' l') c := by
  unfold Yields storeInline
  rw [post_bind, post_gets]
  refine post_fetch_current h hb hcur ?_
  intro k f b₁ hf hpin hrep
  have hins := hrep.insert tuple
  rcases hres : (SlottedPage.insert tuple f.data).res with e | slotId
  · obtain ⟨rfl, -, -⟩ := hins.of_error hres
    simp only [hres]
    -- The page is full; it is given back unchanged and a new one is taken.
    rw [post_bind, post_onPool]
    refine (unpin_spec hf.ok hpin).imp ?_
    rintro - b₂ ⟨hun, hdirty⟩
    have hkeeps : BufferPool.Keeps l.pages c.dataPool b₂ := hf.keeps_unpinned hpin hun
    have hcap : b₂.capacity = c.dataPool.capacity := hun.capacity_eq.trans hf.capacity_eq
    have hb₂ : Ready b₂ := hb.of_capacity hun.idle hcap
    rw [post_bind, post_onPool]
    refine Post.mono (newPage_spec hun.ok hb₂.idle hb₂.frames) ?_
      fun e b' he => ⟨he.1, .inl he.2⟩
    rintro ⟨i, k₂⟩ b₃ ⟨hfresh, hok, hkeeps₃, ⟨f₃, hpin₃⟩, hcap₃, hdisk₃, hdirty₃⟩
    obtain ⟨slotId, hslot, hrep₃⟩ := insert_new hlen i
    simp only [hslot]
    rw [post_bind, post_lift_ok, post_bind, post_onPool]
    refine store_spec hok hpin₃ fun b₄ hun₄ => ?_
    rw [post_pure, post_bind, post_modify]
    refine ⟨_, placed_new h hb hfresh (hkeeps.trans hkeeps₃) (hcap₃.trans hcap) ?_
      (fun j hji hj => hf.dirty j (hdirty j (hdirty₃ j hji hj))) hrep₃ hun₄⟩
    intro j h0 hj
    rw [hdisk₃ j h0 hj, hun.pm_eq]
    exact hf.disk j fun hjl => hj (.inr hjl)
  · obtain ⟨hfree, hrep'⟩ := hins.of_ok hres
    simp only [hres]
    rw [post_onPool]
    refine store_spec hf.ok hpin fun b₂ hun => ?_
    exact ⟨_, placed_current h hb hcur hf hfree hrep' hun⟩

/-- The collection with one document more in its data file. -/
structure Written (c : Collection) (l : Layout) (rs : List StoredDoc) (r : StoredDoc)
    (records : List PageWriteRecord) (c' : Collection) (l' : Layout) : Prop where
  stores : Stores c'.dataPool (r :: rs) l' []
  ready : Ready c'.dataPool
  current : c'.currentDataPage ∈ l'.pages
  pages_eq : l'.pages = insert r.pageId l.pages
  rewrites : Rewrites l.pages c.dataPool r.pageId records c'.dataPool
  capacity_eq : c'.dataPool.capacity = c.dataPool.capacity
  rest : c' = { c with dataPool := c'.dataPool, currentDataPage := c'.currentDataPage }

variable {bytes : List UInt8}

theorem Placed.written {c' : Collection} {l' : Layout} {loc : UInt32 × UInt16}
    {records : List PageWriteRecord} (h : Placed c l rs spare tuple loc records c' l')
    (hstands : Stands c'.dataPool.pm tuple bytes spare) (key : Uuid) :
    Written c l rs ⟨key, bytes, loc.1, loc.2, spare⟩ records c' l' := by
  refine ⟨⟨h.stores.ok, h.stores.page, ?_, ?_, h.stores.chains, h.stores.apart, h.stores.types⟩,
    h.ready, h.current, h.pages_eq, h.rewrites, h.capacity_eq, h.rest⟩
  · intro r hr
    rcases mem_cons.mp hr with rfl | hr
    · refine ⟨?_, tuple, h.tuple_eq, hstands⟩
      rw [h.pages_eq]
      exact .inl rfl
    · exact h.stores.doc r hr
  · refine nodup_cons.mpr ⟨fun hmem => ?_, h.stores.locations⟩
    obtain ⟨r, hr, he⟩ := mem_map.mp hmem
    exact h.fresh r hr he

theorem storeInline_written (h : Stores c.dataPool rs l []) (hb : Ready c.dataPool)
    (hcur : c.currentDataPage ∈ l.pages) (hlen : tuple.length ≤ INLINE_MAX)
    (hno : Overflow.isOverflow tuple = false) (key : Uuid) :
    Yields Full (storeInline tuple)
      (fun res c' => ∃ l', Written c l rs ⟨key, tuple, res.1.1, res.1.2, []⟩ res.2 c' l') c := by
  refine (storeInline_spec h hb hcur hlen).mono ?_
  rintro res c' ⟨l', hp⟩
  exact ⟨l', hp.written (.inl ⟨rfl, rfl, hno⟩) key⟩

theorem storeOverflow_written (h : Stores c.dataPool rs l []) (hb : Ready c.dataPool)
    (hcur : c.currentDataPage ∈ l.pages) (hne : bytes ≠ []) (key : Uuid) :
    Yields Full (storeOverflow bytes) (fun res c' => ∃ l' chain,
      Written c l rs ⟨key, bytes, res.1.1, res.1.2, chain⟩ res.2 c' l') c := by
  refine Yields.bind (post_onPool.mpr (post_pageManager.mpr ?_))
  refine Post.mono (Overflow.writeOverflow_spec h.ok.disk hne) ?_ fun e pm he => ⟨he.1, .inl he.2⟩
  rintro first pm ⟨ids, hnodup, hfresh, hok, hchain, hframe⟩
  have hpages : ∀ i ∈ l.pages, pm.page? i = c.dataPool.pm.page? i := fun i hi =>
    hframe i (h.ok.disk.used i (.inl hi)).1 fun hids => hfresh i hids (.inl hi)
  have hres : Stores { c.dataPool with pm } rs l ids := by
    refine h.reserve hnodup hfresh hok (fun i hi p hp => ?_) hframe
    obtain ⟨q, hq, ht⟩ := hchain.page hi
    rw [hp] at hq
    cases hq
    rw [ht]
    decide
  -- The reference is nine bytes long, so it fits on a page.
  refine (storeInline_spec (c := { c with dataPool := { c.dataPool with pm } }) hres
    ⟨hb.idle, hb.frames⟩ hcur (by rw [Overflow.length_encodeOverflowRef]; decide)).mono ?_
  rintro res c' ⟨l', hp⟩
  have hw := hp.written (.inr ⟨first, _, rfl, hchain.frame fun i hi =>
    hp.disk i (mem_append_left _ hi)⟩) key
  exact ⟨l', ids, hw.stores, hw.ready, hw.current, hw.pages_eq, hw.rewrites.of_manager hpages,
    hw.capacity_eq, hw.rest⟩

/-! ### Removing -/

/-- The collection with one document less in its data file. -/
structure Removed (c : Collection) (l : Layout) (rs : List StoredDoc) (r : StoredDoc)
    (records : List PageWriteRecord) (c' : Collection) (l' : Layout) : Prop where
  stores : Stores c'.dataPool rs l' []
  ready : Ready c'.dataPool
  pages_eq : l'.pages = l.pages
  page : r.pageId ∈ l.pages
  rewrites : Rewrites l.pages c.dataPool r.pageId records c'.dataPool
  capacity_eq : c'.dataPool.capacity = c.dataPool.capacity
  rest : c' = { c with dataPool := c'.dataPool }

theorem freeTuple_spec {E : Halt → BufferPool → Prop} (h : Stores b rs l spare)
    (hstands : Stands b.pm tuple bytes spare) :
    Post (freeTuple tuple) (fun _ b' => Stores b' rs l [] ∧ b' = { b with pm := b'.pm } ∧
      ∀ j ∈ l.pages, b'.pm.page? j = b.pm.page? j) E b := by
  rw [freeTuple]
  rcases hstands with ⟨rfl, rfl, hno⟩ | ⟨first, len, rfl, hc⟩
  · rw [hno, if_neg (by simp), post_pure]
    exact ⟨h, rfl, fun _ _ => rfl⟩
  · rw [if_pos (Overflow.isOverflow_encodeOverflowRef first len),
      Overflow.decodeOverflowRef_encodeOverflowRef]
    show Post (pageManager (Overflow.freeOverflow first)) _ _ b
    rw [post_pageManager]
    refine (Overflow.freeOverflow_spec h.ok.disk hc (nodup_append.mp h.chains).1 ?_).imp ?_
    · exact fun i hi => .inr (mem_append_left _ hi)
    · rintro - pm ⟨hok, htypes, hframe, -⟩
      refine ⟨h.release hok htypes hframe, rfl, fun j hj => ?_⟩
      refine hframe j (h.ok.disk.used j (.inl hj)).1 fun hs => ?_
      exact h.apart j (mem_append_left _ hs) hj

theorem removed_slot {b₁ b₂ b₃ : BufferPool} {k : Nat} (h : Stores c.dataPool (r :: rs) l [])
    (hb : Ready c.dataPool)
    (hf : BufferPool.Fetched c.dataPool (l.pages ∪ {i | i ∈ chainsOf (r :: rs)}) l.pages
      r.pageId k b₁)
    (h₂ : Stores b₂ rs l []) (heq : b₂ = { b₁ with pm := b₂.pm })
    (hdisk : ∀ j ∈ l.pages, b₂.pm.page? j = b₁.pm.page? j)
    (hrep : SlottedPage.Rep after (Function.update (l.tuples r.pageId) r.slotId none))
    (hun : BufferPool.Unpinned b₂ (l.pages ∪ {i | i ∈ chainsOf rs}) l.pages r.pageId after b₃) :
    Removed c l rs r [⟨r.pageId, before, after⟩] { c with dataPool := b₃ }
      (l.setSlot r.pageId r.slotId none) := by
  have hpage : r.pageId ∈ l.pages := (h.doc r (mem_cons_self ..)).1
  have hcap : b₃.capacity = c.dataPool.capacity := by
    rw [hun.capacity_eq, heq]
    exact hf.capacity_eq
  have hcontent : b₃.content r.pageId = some after := by
    rw [hun.content_eq, if_pos rfl]
  have hothers : ∀ j ∈ l.pages, j ≠ r.pageId → ∀ p, b₂.content j = some p →
      ∃ q, b₃.content j = some q ∧ Page.Same q p := by
    intro j hj hji p hp
    exact ⟨p, by rw [hun.content_eq, if_neg hji, hp], Page.Same.refl p⟩
  refine ⟨h₂.update (i := r.pageId) hun.ok (fun _ => id) ⟨after, hcontent, ?_⟩
      (fun j hj hji => ⟨hj, ?_⟩) hothers ?_ h₂.apart (fun j _ _ => by rw [hun.pm_eq]),
    hb.of_capacity hun.idle hcap, rfl, hpage,
    ⟨⟨before, after, rfl, hcontent⟩, ?_, ?_⟩, hcap, rfl⟩
  · simpa [Layout.setSlot] using hrep
  · simp [Layout.setSlot, hji]
  · intro r' hr'
    have hne : r'.location ≠ r.location := fun he =>
      (nodup_cons.mp h.locations).1 (mem_map.mpr ⟨r', hr', he⟩)
    by_cases hp : r'.pageId = r.pageId
    · have hs : r'.slotId ≠ r.slotId := fun hs => hne (Prod.ext hp hs)
      simp [Layout.setSlot, hp, hs]
    · simp [Layout.setSlot, hp]
  · intro j hj hji p hp
    obtain ⟨q, hq, hs⟩ := hf.keeps j hj p hp
    have hq₂ : b₂.content j = some q := by
      rw [← hq, heq]
      exact content_setManager (hdisk j hj)
    obtain ⟨q', hq', hs'⟩ := hothers j hj hji q hq₂
    exact ⟨q', hq', hs'.trans hs⟩
  · intro j hji hj
    have hd := hun.dirty j hji hj
    rw [heq] at hd
    exact hf.dirty j hd

/-- **Removing** a document empties its slot and frees its overflow pages. -/
theorem removeTuple_spec (h : Stores c.dataPool (r :: rs) l []) (hb : Ready c.dataPool) :
    Post (removeTuple r.pageId r.slotId)
      (fun records c' => ∃ l', Removed c l rs r records c' l') E c := by
  obtain ⟨hpage, tuple, ht, hstands⟩ := h.doc r (mem_cons_self ..)
  rw [removeTuple, post_onPool, post_bind]
  refine (fetchPage_spec h.ok hb.idle hb.frames hpage).imp ?_
  rintro k b₁ hf
  obtain ⟨f, hpin, hrep⟩ := h.fetched_rep hf hpage
  rw [post_bind, post_readSlotData hpin.frame hrep ht, post_bind]
  have h₁ : Stores b₁ (r :: rs) l [] := h.keeps hf.ok hf.keeps hf.disk
  have hstands₁ : Stands b₁.pm tuple r.bytes r.chain := hstands.frame fun i hi =>
    hf.disk i (h.apart i (mem_chainsOf.mpr ⟨r, mem_cons_self .., hi⟩))
  refine (freeTuple_spec h₁.detach hstands₁).imp ?_
  rintro - b₂ ⟨h₂, heq, hdisk⟩
  have hpin₂ : b₂.Pinned r.pageId k f := by
    rw [heq]
    exact ⟨hpin.frame, hpin.page, hpin.pin, hpin.others⟩
  rw [post_bind, post_getFrame hpin₂.frame, post_bind]
  have hdel := hrep.delete (E := fun _ _ => False) ht
  rcases hres : (SlottedPage.delete r.slotId f.data).res with e | u
  · exact (hdel.of_error hres).elim
  · rw [post_lift_ok]
    refine store_spec h₂.ok hpin₂ fun b₃ hun => ?_
    exact ⟨_, removed_slot h hb hf h₂ heq hdisk (hdel.of_ok hres) hun⟩

end Collection

end Stores

end GrumpyDB
