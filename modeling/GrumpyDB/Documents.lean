/-
A collection as a map from keys to bytes.

`Collection.Holds c l m` ties the two files of a collection together.
-/
import GrumpyDB.Store
import GrumpyDB.TreeMap
import GrumpyDB.Lib.SortedMap

namespace GrumpyDB

open Proc List

abbrev DocMap := SortedMap Uuid (List UInt8)

def StoredDoc.doc (r : StoredDoc) : Uuid × List UInt8 := (r.key, r.bytes)

def docFor (rs : List StoredDoc) (key : Uuid) : Option StoredDoc := rs.find? fun r => r.key = key

variable {rs : List StoredDoc}

theorem mem_of_docFor {key : Uuid} {r : StoredDoc} (h : docFor rs key = some r) : r ∈ rs :=
  List.mem_of_find?_eq_some h

theorem key_of_docFor {key : Uuid} {r : StoredDoc} (h : docFor rs key = some r) : r.key = key := by
  simpa using find?_some h

/-! ### Ranges -/

namespace Bound

def startsAt (start : Bound) (key : Uuid) : Bool :=
  match start with
  | included first => first ≤ key
  | excluded first => first < key
  | unbounded => true

def within (start stop : Bound) (key : Uuid) : Bool := start.startsAt key && !stop.endsBefore key

theorem startsAt_eq (start : Bound) (key : Uuid) :
    start.startsAt key = (start.start.all (fun k => decide (k ≤ key)) && !start.skips key) := by
  cases start with
  | included first => simp [startsAt, Bound.start, skips]
  | excluded first =>
    by_cases hlt : first < key
    · simp [startsAt, Bound.start, skips, hlt, hlt.le, hlt.ne']
    · by_cases heq : key = first
      · simp [startsAt, skips, heq]
      · simp [startsAt, Bound.start, hlt, lt_of_le_of_ne (not_lt.mp hlt) heq]
  | unbounded => simp [startsAt, Bound.start, skips]

theorem endsBefore_mono {stop : Bound} {a b : Uuid} (hab : a < b) (h : stop.endsBefore a = true) :
    stop.endsBefore b = true := by
  cases stop with
  | included last => simpa [endsBefore] using lt_trans (by simpa [endsBefore] using h) hab
  | excluded last => simpa [endsBefore] using (le_trans (by simpa [endsBefore] using h) hab.le)
  | unbounded => exact h

end Bound

section Documents

variable [Crc32]

namespace Collection

/-- The collection holds the documents of `m`, on the data pages of `l`. -/
structure Holds (c : Collection) (l : Layout) (m : DocMap) : Prop where
  ready : Ready c.dataPool
  current : c.currentDataPage ∈ l.pages
  docs : ∃ rs, Stores c.dataPool rs l [] ∧ c.btree.Inv (rs.map StoredDoc.entry) ∧
    m.entries = rs.map StoredDoc.doc

variable {c c' : Collection} {l l' : Layout} {m m' : DocMap} {rs : List StoredDoc} {r : StoredDoc}
  {E : Halt → Collection → Prop} {key : Uuid}

/-! ### The index and the map -/

omit [Crc32] in
theorem lookup_entries (rs : List StoredDoc) (key : Uuid) :
    lookup (rs.map StoredDoc.entry) key =
      (docFor rs key).map StoredDoc.location := by
  induction rs with
  | nil => rfl
  | cons r rs ih =>
    by_cases hk : r.key = key
    · simp [lookup, docFor, StoredDoc.entry, StoredDoc.location, hk]
    · have hk' : ¬ (StoredDoc.entry r).key = key := hk
      simpa [lookup, docFor, hk, hk'] using ih

omit [Crc32] in
theorem get?_entries (hm : m.entries = rs.map StoredDoc.doc) (key : Uuid) :
    m.get? key = (docFor rs key).map StoredDoc.bytes := by
  rw [SortedMap.get?, hm]
  clear hm
  induction rs with
  | nil => rfl
  | cons r rs ih =>
    by_cases hk : r.key = key
    · simp [docFor, StoredDoc.doc, hk]
    · have hk' : ¬ (StoredDoc.doc r).1 = key := hk
      simpa [docFor, hk, hk'] using ih

omit [Crc32] in
theorem isSome_lookup (hm : m.entries = rs.map StoredDoc.doc) (key : Uuid) :
    (lookup (rs.map StoredDoc.entry) key).isSome = (m.get? key).isSome := by
  rw [lookup_entries, get?_entries hm]
  simp

/-! ### Reading -/

/-- The collection has been read from: only what is cached may have changed. -/
structure Seen (c : Collection) (l : Layout) (m : DocMap) (c' : Collection) : Prop where
  holds : c'.Holds l m
  rest : c' = { c with dataPool := c'.dataPool }
  capacity_eq : c'.dataPool.capacity = c.dataPool.capacity
  keeps : BufferPool.Keeps l.pages c.dataPool c'.dataPool
  dirty : ∀ i, c'.dataPool.Dirty i → c.dataPool.Dirty i
  clean : c.dataPool.Clean → c'.dataPool.pm = c.dataPool.pm

theorem Seen.refl (h : c.Holds l m) : Seen c l m c :=
  ⟨h, rfl, rfl, BufferPool.Keeps.refl _, fun _ => id, fun _ => rfl⟩

theorem Looked.seen (h : c.Holds l m) (hm : m.entries = rs.map StoredDoc.doc)
    (hi : c.btree.Inv (rs.map StoredDoc.entry)) (hl : Looked c rs l c') : Seen c l m c' := by
  refine ⟨⟨hl.ready, ?_, rs, hl.stores, ?_, hm⟩, hl.rest, hl.capacity_eq, hl.keeps, hl.dirty,
    hl.clean⟩
  · rw [hl.rest]
    exact h.current
  · rw [hl.rest]
    exact hi

theorem post_search {es : List (LeafEntry Uuid)} (hi : c.btree.Inv es)
    {Q : Option Location → Collection → Prop} (hQ : Q (lookup es key) c) :
    Post (onTree (BTree.search key)) Q E c := by
  rw [post_onTree]
  refine (BTree.search_spec hi key).imp ?_
  rintro found t ⟨rfl, rfl⟩
  exact hQ

/-- **Looking up** a key gives the document of the map. -/
theorem getRaw_spec (h : c.Holds l m) (key : Uuid) :
    Post (getRaw key) (fun v c' => v = m.get? key ∧ Seen c l m c') E c := by
  obtain ⟨rs, hs, hi, hm⟩ := h.docs
  rw [getRaw, post_bind]
  refine post_search hi ?_
  rw [lookup_entries, get?_entries hm]
  rcases hfind : docFor rs key with _ | r
  · exact ⟨rfl, Seen.refl h⟩
  · show Post (readTuple r.pageId r.slotId >>= _) _ _ c
    rw [post_bind]
    refine (readTuple_spec hs h.ready (mem_of_docFor hfind)).imp ?_
    rintro bytes c' ⟨rfl, hl⟩
    exact ⟨rfl, hl.seen h hm hi⟩

/-- Reading the documents of a range one after the other, and stopping at the
first key past its end. -/
theorem scanEntries_spec {start stop : Bound} {rs' : List StoredDoc}
    (hs : Stores c.dataPool rs l [])
    (hb : Ready c.dataPool) (hsub : ∀ r ∈ rs', r ∈ rs)
    (hsorted : rs'.Pairwise fun x y => x.key < y.key) :
    Post (scanEntries start stop (rs'.map StoredDoc.entry))
      (fun docs c' => docs = (rs'.filter fun r => !start.skips r.key && !stop.endsBefore r.key).map
          StoredDoc.doc ∧ Looked c rs l c') E c := by
  induction rs' generalizing c with
  | nil => exact ⟨rfl, Looked.refl hs hb⟩
  | cons r rs' ih =>
    obtain ⟨hr, hsorted'⟩ := pairwise_cons.mp hsorted
    have hsub' : ∀ r ∈ rs', r ∈ rs := fun r hr => hsub r (mem_cons_of_mem _ hr)
    rw [map_cons, scanEntries]
    by_cases hend : stop.endsBefore r.key = true
    · -- All later keys are past the end.
      have hnone : ((r :: rs').filter fun r =>
        !start.skips r.key && !stop.endsBefore r.key) = [] := by
        refine filter_eq_nil_iff.mpr fun x hx => ?_
        have hx' : stop.endsBefore x.key = true := by
          rcases mem_cons.mp hx with rfl | hx
          · exact hend
          · exact Bound.endsBefore_mono (hr x hx) hend
        simp [hx']
      rw [if_pos (show stop.endsBefore (StoredDoc.entry r).key = true from hend), hnone]
      exact ⟨rfl, Looked.refl hs hb⟩
    · rw [if_neg (show ¬ stop.endsBefore (StoredDoc.entry r).key = true from hend)]
      by_cases hskip : start.skips r.key = true
      · rw [if_pos (show start.skips (StoredDoc.entry r).key = true from hskip),
          filter_cons_of_neg (by simp [hskip])]
        exact ih hs hb hsub' hsorted'
      · rw [if_neg (show ¬ start.skips (StoredDoc.entry r).key = true from hskip),
          filter_cons_of_pos (by simp [hskip, hend]), post_bind]
        refine (readTuple_spec hs hb (hsub r (mem_cons_self ..))).imp ?_
        rintro bytes c₁ ⟨rfl, hl⟩
        rw [post_bind]
        refine (ih hl.stores hl.ready hsub' hsorted').imp ?_
        rintro docs c₂ ⟨rfl, hl₂⟩
        exact ⟨rfl, hl.trans hl₂⟩

/-- **Scanning** a range gives the part of the map that lies within. -/
theorem scanRaw_spec (h : c.Holds l m) (start stop : Bound) :
    Post (scanRaw start stop) (fun docs c' =>
      docs = m.entries.filter (fun e => Bound.within start stop e.1) ∧ Seen c l m c') E c := by
  obtain ⟨rs, hs, hi, hm⟩ := h.docs
  have hsorted : rs.Pairwise fun x y => x.key < y.key := by
    have := hi.sorted
    rwa [pairwise_map] at this
  rw [scanRaw, post_bind, post_onTree]
  refine (BTree.range_spec hi start.start none).imp ?_
  rintro es t ⟨rfl, rfl⟩
  rw [filter_map]
  refine (scanEntries_spec hs h.ready (fun r hr => (mem_filter.mp hr).1)
    (hsorted.sublist filter_sublist)).imp ?_
  rintro docs c' ⟨rfl, hl⟩
  refine ⟨?_, hl.seen h hm hi⟩
  rw [hm, filter_map, filter_filter]
  congr 1
  apply filter_congr
  intro r _
  simp only [Bound.within, Bound.startsAt_eq,
    Option.all_none, Bool.and_comm, Bool.and_assoc]
  congr

/-! ### Writing -/

/-- The collection has been changed to hold `m'`, by rewriting one data page. -/
structure Changed (c : Collection) (l : Layout) (records : List PageWriteRecord)
    (c' : Collection) (l' : Layout) (m' : DocMap) : Prop where
  holds : c'.Holds l' m'
  page : ∃ i, l'.pages = insert i l.pages ∧ Rewrites l.pages c.dataPool i records c'.dataPool
  capacity_eq : c'.dataPool.capacity = c.dataPool.capacity
  rest : c' = { c with
    dataPool := c'.dataPool
    btree := c'.btree
    currentDataPage := c'.currentDataPage }

variable {bytes : List UInt8}

theorem storeTuple_written (h : Stores c.dataPool rs l []) (hb : Ready c.dataPool)
    (hcur : c.currentDataPage ∈ l.pages) (hlen : 17 ≤ bytes.length) (key : Uuid) :
    Yields Full (storeTuple bytes) (fun res c' => ∃ l' chain,
      Written c l rs ⟨key, bytes, res.1.1, res.1.2, chain⟩ res.2 c' l') c := by
  rw [storeTuple]
  split
  · refine storeOverflow_written h hb hcur ?_ key
    rintro rfl
    simp at hlen
  · rename_i hin
    have hno : Overflow.isOverflow bytes = false :=
      Overflow.isOverflow_eq_false (by simp only [Overflow.OVERFLOW_REF_SIZE]; omega)
    refine (storeInline_written h hb hcur (not_lt.mp hin) hno key).mono ?_
    rintro res c' ⟨l', hw⟩
    exact ⟨l', [], hw⟩

variable {records : List PageWriteRecord} {a b : List (LeafEntry Uuid)} {c₁ : Collection}

theorem Written.changed {t : BTree Uuid} (hw : Written c l rs r records c₁ l')
    (hm : m.entries = rs.map StoredDoc.doc) (hab : rs.map StoredDoc.entry = a ++ b)
    (ha : ∀ x ∈ a, x.key < r.key) (hb : ∀ x ∈ b, r.key < x.key) (hi : t.Inv (a ++ r.entry :: b)) :
    Changed c l records { c₁ with btree := t } l' (m.insert r.key r.bytes) := by
  obtain ⟨ra, rb, rfl, rfl, rfl⟩ := map_eq_append_iff.mp hab
  have hperm : (r :: (ra ++ rb)).Perm (ra ++ r :: rb) := perm_middle.symm
  refine ⟨⟨hw.ready, hw.current, ra ++ r :: rb, hw.stores.perm hperm, ?_, ?_⟩,
    ⟨r.pageId, hw.pages_eq, hw.rewrites⟩, hw.capacity_eq, ?_⟩
  · rw [map_append]
    exact hi
  · rw [map_append]
    refine SortedMap.entries_insert (by rw [hm, map_append]) ?_ ?_
    · intro e he
      obtain ⟨r', hr', rfl⟩ := mem_map.mp he
      exact ha r'.entry (mem_map_of_mem hr')
    · intro e he
      obtain ⟨r', hr', rfl⟩ := mem_map.mp he
      exact hb r'.entry (mem_map_of_mem hr')
  · rw [hw.rest]

/-- **Inserting** a document adds it to the map; a key that is there already is
refused and nothing changes. -/
theorem insertRaw_spec (h : c.Holds l m) (hlen : 17 ≤ bytes.length) (key : Uuid) :
    Post (insertRaw key bytes)
      (fun res c' => m.get? key = none ∧ ∃ l', Changed c l res.2 c' l' (m.insert key bytes))
      (fun e c' => (e = .err (.duplicateKey key) ∧ c' = c ∧ (m.get? key).isSome) ∨
        e = .overflow ∧ c'.Full) c := by
  obtain ⟨rs, hs, hi, hm⟩ := h.docs
  rw [insertRaw, post_bind]
  refine post_search hi ?_
  rw [isSome_lookup hm]
  by_cases hsome : (m.get? key).isSome
  · rw [if_pos hsome]
    exact .inl ⟨rfl, rfl, hsome⟩
  · rw [if_neg hsome, post_bind]
    refine Post.mono (storeTuple_written hs h.ready h.current hlen key) ?_ fun e c' he => .inr he
    rintro ⟨⟨pageId, slotId⟩, records⟩ c₁ ⟨l', chain, hw⟩
    have htree : c₁.btree = c.btree := by rw [hw.rest]
    have hi₁ : c₁.btree.Inv (rs.map StoredDoc.entry) := htree ▸ hi
    rw [post_bind, post_onTree]
    refine Post.mono (BTree.insert_spec hi₁ trivial pageId slotId) ?_ ?_
    · rintro - t ⟨a, b, hab, ha, hb, hi', -⟩
      exact ⟨by simpa using hsome, l', hw.changed hm hab ha hb hi'⟩
    · rintro e t (⟨-, -, hdup⟩ | ⟨he, hfull⟩)
      · rw [isSome_lookup hm] at hdup
        exact absurd hdup hsome
      · exact .inr ⟨he, .inr hfull⟩

theorem Removed.changed {t : BTree Uuid} {ra rb : List StoredDoc} {e : LeafEntry Uuid}
    (h : c.Holds l m) (hr : Removed c l (ra ++ rb) r records c₁ l')
    (hi : c.btree.Inv ((ra ++ r :: rb).map StoredDoc.entry))
    (hm : m.entries = (ra ++ r :: rb).map StoredDoc.doc)
    (hab : (ra ++ r :: rb).map StoredDoc.entry = a ++ e :: b) (he : e.key = r.key)
    (hi' : t.Inv (a ++ b)) : Changed c l records { c₁ with btree := t } l' (m.erase r.key) := by
  -- Without the key, the two ways to split the index come to the same.
  have hsorted := hi.sorted
  have hrest : a ++ b = (ra ++ rb).map StoredDoc.entry := by
    have h₁ := filter_ne_of_ascending (hab ▸ hsorted)
    rw [map_append, map_cons] at hsorted hab
    have h₂ := filter_ne_of_ascending hsorted
    rw [hab, show r.entry.key = e.key from he.symm, h₁] at h₂
    rw [h₂, map_append]
  refine ⟨⟨hr.ready, ?_, ra ++ rb, hr.stores, hrest ▸ hi', ?_⟩,
    ⟨r.pageId, ?_, hr.rewrites⟩, hr.capacity_eq, ?_⟩
  · rw [hr.rest, hr.pages_eq]
    exact h.current
  · rw [map_append] at hm
    rw [map_append]
    exact SortedMap.entries_erase hm
  · rw [hr.pages_eq, Set.insert_eq_of_mem hr.page]
  · rw [hr.rest]

/-- **Deleting** a document takes it out of the map; a key that is not there is
refused and nothing changes. -/
theorem deleteRaw_spec (h : c.Holds l m) (key : Uuid) :
    Post (deleteRaw key)
      (fun records c' => (m.get? key).isSome ∧ ∃ l', Changed c l records c' l' (m.erase key))
      (fun e c' => e = .err (.keyNotFound key) ∧ c' = c ∧ m.get? key = none) c := by
  obtain ⟨rs, hs, hi, hm⟩ := h.docs
  rw [deleteRaw, post_bind]
  refine post_search hi ?_
  rw [lookup_entries, get?_entries hm]
  rcases hfind : docFor rs key with _ | r
  · exact ⟨rfl, rfl, rfl⟩
  · obtain rfl : r.key = key := key_of_docFor hfind
    obtain ⟨ra, rb, rfl⟩ := append_of_mem (mem_of_docFor hfind)
    show Post (removeTuple r.pageId r.slotId >>= _) _ _ c
    rw [post_bind]
    refine (removeTuple_spec (hs.perm perm_middle) h.ready).imp ?_
    rintro records c₁ ⟨l', hr⟩
    have htree : c₁.btree = c.btree := by rw [hr.rest]
    rw [post_bind, post_onTree]
    refine (BTree.delete_spec (htree ▸ hi) r.key).mono ?_ ?_
    · rintro - t ⟨a, e, b, hab, he, hi', -⟩
      exact ⟨rfl, l', hr.changed h hi hm hab he hi'⟩
    · rintro e t ⟨-, -, hnone⟩
      rw [lookup_entries, hfind] at hnone
      cases hnone

end Collection

end Documents

end GrumpyDB
