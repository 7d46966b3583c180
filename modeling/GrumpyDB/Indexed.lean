/-
The secondary indexes of a collection, kept with its documents.

Errors of the indexes are dropped. Each operation keeps `Upholds`, provided that a document that
is deleted is unindexed with the value it was indexed with.
-/
import GrumpyDB.Documents
import GrumpyDB.Index
import GrumpyDB.Recreate

namespace GrumpyDB

open Proc Index List Function Option SortedMap

namespace SecondaryIndex

variable [Crc32]

def onBTree {α : Type} (x : Proc Halt (BTree (List UInt8)) α) : Proc Halt SecondaryIndex α :=
  zoom SecondaryIndex.btree (fun btree idx => { idx with btree }) x

def index (uuid : Uuid) (doc : Value) : Proc Halt SecondaryIndex Unit := do
  let idx ← get
  onBTree (indexDocument idx.defn.fieldPath uuid doc)

def unindex (uuid : Uuid) (doc : Value) : Proc Halt SecondaryIndex Unit := do
  let idx ← get
  onBTree (unindexDocument idx.defn.fieldPath uuid doc)

end SecondaryIndex

namespace Collection

variable [Crc32]

/-! ### Documents and their indexes -/

def onIndexes {α : Type} (x : Proc Halt (List SecondaryIndex) α) : Proc Halt Collection α :=
  zoom Collection.secondaryIndexes (fun secondaryIndexes c => { c with secondaryIndexes }) x

def indexDocInSecondaries (key : Uuid) (value : Value) : Proc Halt Collection Unit :=
  onIndexes (each (ignoring (SecondaryIndex.index key value)))

def unindexDocFromSecondaries (key : Uuid) (value : Value) : Proc Halt Collection Unit :=
  onIndexes (each (ignoring (SecondaryIndex.unindex key value)))

def insertDoc (key : Uuid) (value : Value) (encoded : List UInt8) :
    Proc Halt Collection ((UInt32 × UInt16) × List PageWriteRecord) := do
  let result ← insertRaw key encoded
  indexDocInSecondaries key value
  pure result

def deleteDoc (key : Uuid) (value : Value) : Proc Halt Collection (List PageWriteRecord) := do
  unindexDocFromSecondaries key value
  deleteRaw key

/-! ### Creating an index -/

def onFile {α : Type} (name : String) (x : Proc Halt (Option File) α) : Proc Halt Collection α :=
  zoom (fun c => c.files name)
    (fun f c => { c with overlay := Function.update c.overlay name (some f) }) x

/-- The collection with the file of an index that is not its own yet. -/
def withFile (idx : SecondaryIndex) (c : Collection) : Collection :=
  { c with
    overlay := Function.update c.overlay (indexFile idx.defn.name)
      (some (some idx.btree.pm.file)) }

/-- Run with an index that is not the collection's own yet. -/
def withIndex (idx : SecondaryIndex) (x : Proc Halt (Collection × SecondaryIndex) Unit) :
    Proc Halt Collection SecondaryIndex := fun c =>
  let o := x (c, idx)
  ⟨o.res.map fun _ => o.st.2, o.st.1.withFile o.st.2, o.cuts.map fun s => s.1.withFile s.2⟩

def indexEntries : List (LeafEntry Uuid) → Proc Halt (Collection × SecondaryIndex) Unit
  | [] => pure ()
  | entry :: entries => do
    let raw ← zoom Prod.fst (fun c s => (c, s.2)) (readTuple entry.pageId entry.slotId)
    let doc ← liftErr (Document.decode raw)
    zoom Prod.snd (fun idx s => (s.1, idx)) (SecondaryIndex.index entry.key doc.value)
    indexEntries entries

def createIndex (name fieldPath : String) : Proc Halt Collection Unit := do
  let indexDefs ← gets Collection.indexDefs
  if indexDefs.any fun d => d.name = name then fail (.err (.indexAlreadyExists name))
  else do
    let btree ← onFile (indexFile name) (BTree.createWith INDEX_MAX_KEY_SIZE)
    let entries ← onTree BTree.scanAll
    let idx ← withIndex ⟨⟨name, fieldPath⟩, btree⟩ (indexEntries entries)
    modify fun c =>
      { c with
        secondaryIndexes := c.secondaryIndexes ++ [idx]
        indexDefs := c.indexDefs ++ [idx.defn]
        overlay := Function.update c.overlay (indexFile name) none }

/-! ### Documents and composite keys -/

abbrev Values := Uuid → Option Value

def keysOf (fieldPath : String) (docs : Values) : Set (List UInt8) :=
  {key | ∃ k v, docs k = some v ∧ key ∈ compositeKeys fieldPath k v}

variable {c c' : Collection} {docs : Values} {key : Uuid} {v : Value} {fieldPath : String}
  {l : Layout} {m : DocMap} {d : IndexDefinition} {keys : Set (List UInt8)}

omit [Crc32] in
theorem keysOf_insert (h : docs key = none) :
    keysOf fieldPath (Function.update docs key (some v)) =
      keysOf fieldPath docs ∪ compositeKeys fieldPath key v := by
  ext x
  constructor
  · rintro ⟨k, w, hk, hx⟩
    by_cases hkey : k = key
    · subst hkey
      rw [update_self] at hk
      cases hk
      exact .inr hx
    · rw [update_of_ne hkey] at hk
      exact .inl ⟨k, w, hk, hx⟩
  · rintro (⟨k, w, hk, hx⟩ | hx)
    · have hkey : k ≠ key := by
        rintro rfl
        rw [h] at hk
        cases hk
      exact ⟨k, w, by rwa [update_of_ne hkey], hx⟩
    · exact ⟨key, v, update_self .., hx⟩

omit [Crc32] in
theorem keysOf_erase (h : docs key = some v) :
    keysOf fieldPath (Function.update docs key none) =
      keysOf fieldPath docs \ compositeKeys fieldPath key v := by
  ext x
  constructor
  · rintro ⟨k, w, hk, hx⟩
    have hkey : k ≠ key := by
      rintro rfl
      rw [update_self] at hk
      cases hk
    rw [update_of_ne hkey] at hk
    exact ⟨⟨k, w, hk, hx⟩, compositeKeys_disjoint hkey w v _ hx⟩
  · rintro ⟨⟨k, w, hk, hx⟩, hnot⟩
    have hkey : k ≠ key := by
      rintro rfl
      obtain rfl : v = w := some.inj (h.symm.trans hk)
      exact hnot hx
    exact ⟨k, w, by rwa [update_of_ne hkey], hx⟩

def Has (c : Collection) (docs : Values) : Prop :=
  ∃ l m, c.Holds l m ∧ ∀ k, m.get? k = (docs k).map fun v => Document.encode ⟨k, v⟩

/-- The collection has an index with this definition and exactly these keys. -/
def Indexes (c : Collection) (d : IndexDefinition) (keys : Set (List UInt8)) : Prop :=
  ∃ idx ∈ c.secondaryIndexes, idx.defn = d ∧ SecondaryIndex.Holds idx.btree keys

theorem Holds.congr (h : c.Holds l m) (hpool : c'.dataPool = c.dataPool)
    (hcur : c'.currentDataPage = c.currentDataPage) (htree : c'.btree = c.btree) :
    c'.Holds l m := by
  obtain ⟨hready, hcurrent, hdocs⟩ := h
  refine ⟨?_, ?_, ?_⟩
  · rwa [hpool]
  · rwa [hcur]
  · rwa [hpool, htree]

theorem Has.indexes (h : c.Has docs) (idxs : List SecondaryIndex) :
    Collection.Has { c with secondaryIndexes := idxs } docs := by
  obtain ⟨l, m, hc, hm⟩ := h
  exact ⟨l, m, hc.congr rfl rfl rfl, hm⟩

theorem Holds.has_insert (h : c.Holds l (m.insert key (Document.encode ⟨key, v⟩)))
    (hm : ∀ k, m.get? k = (docs k).map fun v => Document.encode ⟨k, v⟩) :
    c.Has (Function.update docs key (some v)) := by
  refine ⟨l, _, h, fun k => ?_⟩
  by_cases hk : k = key
  · rw [hk, get?_insert_self, update_self, map_some]
  · rw [get?_insert_ne hk, update_of_ne hk, hm]

theorem Indexes.of_eq (h : c.Indexes d keys) (hidx : c'.secondaryIndexes = c.secondaryIndexes) :
    c'.Indexes d keys := by
  rwa [Indexes, hidx]

/-! ### The indexes -/

omit [Crc32] in
theorem post_ignoring_of_ok {σ : Type} {x : Proc Halt σ Unit} {Q : Unit → σ → Prop} {t : σ}
    (hok : (ignoring x t).res = .ok () → Q () (ignoring x t).st) :
    Post (ignoring x) Q (fun e _ => ∀ g, e ≠ .err g) t := by
  refine post_iff.mpr ⟨fun _ h => hok h, fun e h => ?_⟩
  have hany : Post (ignoring x) (fun _ _ => True) (fun e _ => ∀ g, e ≠ .err g) t := by
    refine SecondaryIndex.post_ignoring (post_iff.mpr ⟨fun _ _ => trivial, fun e _ => ?_⟩)
    by_cases he : ∃ g, e = .err g
    · exact .inl ⟨he, trivial⟩
    · have hne : ∀ g, e ≠ .err g := fun g hg => he ⟨g, hg⟩
      exact .inr ⟨hne, hne⟩
  exact hany.of_error h

omit [Crc32] in
theorem ignoring_onBTree (x : IndexDefinition → Proc Halt (BTree (List UInt8)) Unit)
    (idx : SecondaryIndex) :
    ignoring (do
      let i ← get
      SecondaryIndex.onBTree (x i.defn)) idx =
    SecondaryIndex.onBTree (ignoring (x idx.defn)) idx := by
  have hrun : (do
      let i ← get
      SecondaryIndex.onBTree (x i.defn) : Proc Halt SecondaryIndex Unit) idx =
      SecondaryIndex.onBTree (x idx.defn) idx := reads_get.run_bind
  rw [ignoring, orElse, hrun, SecondaryIndex.onBTree, SecondaryIndex.onBTree, zoom, zoom, ignoring,
    orElse]
  rcases hx : x idx.defn idx.btree with ⟨res, t, cuts⟩
  rcases res with (- | - | - | -) | -
  all_goals simp [fail, pure]

omit [Crc32] in
theorem exists_of_forall₂ {α : Type} {r : α → α → Prop} {xs ys : List α}
    (h : List.Forall₂ r xs ys) {x : α} (hx : x ∈ xs) : ∃ y ∈ ys, r x y := by
  induction h with
  | nil => cases hx
  | cons hr _ ih =>
    rcases mem_cons.mp hx with rfl | hx
    · exact ⟨_, mem_cons_self, hr⟩
    · obtain ⟨y, hy, hxy⟩ := ih hx
      exact ⟨y, mem_cons_of_mem _ hy, hxy⟩

/-- Running on every index, where it changes the keys of each in one way. -/
theorem each_spec {x : IndexDefinition → Proc Halt (BTree (List UInt8)) Unit}
    {f : String → Set (List UInt8) → Set (List UInt8)} {p : String → Prop}
    (hx : ∀ defn t keys, SecondaryIndex.Holds t keys → p defn.fieldPath →
      Post (ignoring (x defn)) (fun _ t' => SecondaryIndex.Holds t' (f defn.fieldPath keys))
        (fun _ _ => True) t) :
    Post (onIndexes (each (ignoring do
        let idx ← get
        SecondaryIndex.onBTree (x idx.defn))))
      (fun _ c' => c' = { c with secondaryIndexes := c'.secondaryIndexes } ∧
        ∀ d keys, c.Indexes d keys → p d.fieldPath → c'.Indexes d (f d.fieldPath keys))
      (fun e _ => ∀ g, e ≠ .err g) c := by
  refine post_zoom.mpr (Post.imp (post_each (r := fun idx idx' => idx'.defn = idx.defn ∧
    ∀ keys, SecondaryIndex.Holds idx.btree keys → p idx.defn.fieldPath →
      SecondaryIndex.Holds idx'.btree (f idx.defn.fieldPath keys)) fun idx _ => ?_) ?_)
  · rw [post_of_run_eq (ignoring_onBTree x idx)]
    refine post_zoom.mpr (post_ignoring_of_ok fun hok => ⟨rfl, fun keys hkeys hf => ?_⟩)
    exact (hx idx.defn idx.btree keys hkeys hf).of_ok hok
  · rintro - idxs hall
    refine ⟨rfl, ?_⟩
    rintro d keys ⟨idx, hmem, rfl, hkeys⟩ hf
    obtain ⟨idx', hmem', hdefn, hidx⟩ := exists_of_forall₂ hall hmem
    refine ⟨idx', hmem', hdefn, hidx keys hkeys hf⟩

theorem indexDoc_spec (key : Uuid) (v : Value) :
    Post (indexDocInSecondaries key v)
      (fun _ c' => c' = { c with secondaryIndexes := c'.secondaryIndexes } ∧
        ∀ d keys, c.Indexes d keys → SecondaryIndex.KeyFits d.fieldPath key v →
          c'.Indexes d (keys ∪ compositeKeys d.fieldPath key v))
      (fun e _ => ∀ g, e ≠ .err g) c :=
  each_spec (x := fun defn => SecondaryIndex.indexDocument defn.fieldPath key v)
    (f := fun fieldPath keys => keys ∪ compositeKeys fieldPath key v)
    (p := fun fieldPath => SecondaryIndex.KeyFits fieldPath key v)
    fun _ _ _ hkeys hf => (SecondaryIndex.index_ignoring_spec hkeys key hf).mono (fun _ _ => id)
      fun _ _ _ => trivial

theorem unindexDoc_spec (key : Uuid) (v : Value) :
    Post (unindexDocFromSecondaries key v)
      (fun _ c' => c' = { c with secondaryIndexes := c'.secondaryIndexes } ∧
        ∀ d keys, c.Indexes d keys → c'.Indexes d (keys \ compositeKeys d.fieldPath key v))
      (fun e _ => ∀ g, e ≠ .err g) c := by
  refine (each_spec (x := fun defn => SecondaryIndex.unindexDocument defn.fieldPath key v)
    (f := fun fieldPath keys => keys \ compositeKeys fieldPath key v) (p := fun _ => True)
    fun _ _ _ hkeys _ => SecondaryIndex.unindex_ignoring_spec hkeys key).imp ?_
  rintro - c' ⟨hc, hkeys⟩
  exact ⟨hc, fun d keys h => hkeys d keys h trivial⟩

/-! ### The documents -/

omit [Crc32] in
theorem length_encode (key : Uuid) (v : Value) : 17 ≤ (Document.encode ⟨key, v⟩).length := by
  have htag : 1 ≤ (Codec.encode v).length := by
    cases v <;> simp [Codec.encode]
  show 17 ≤ (key.bytes ++ Codec.encode v).length
  rw [length_append, key.size]
  omega

variable {E : Halt → Collection → Prop}

theorem getDoc_spec (h : c.Has docs) (key : Uuid) :
    Post (getRaw key) (fun raw c' => raw = (docs key).map (fun v => Document.encode ⟨key, v⟩) ∧
      c'.Has docs ∧ c'.secondaryIndexes = c.secondaryIndexes) E c := by
  obtain ⟨l, m, hc, hm⟩ := h
  refine (getRaw_spec hc key).imp ?_
  rintro raw c' ⟨rfl, hs⟩
  refine ⟨hm key, ⟨l, m, hs.holds, hm⟩, ?_⟩
  rw [hs.rest]

/-- **Inserting** a document indexes it. -/
theorem insertDoc_spec (h : c.Has docs) (key : Uuid) (v : Value) :
    Post (insertDoc key v (Document.encode ⟨key, v⟩))
      (fun res c' => docs key = none ∧ c'.Has (Function.update docs key (some v)) ∧
        res.2.length = 1 ∧
        ∀ d keys, c.Indexes d keys → SecondaryIndex.KeyFits d.fieldPath key v →
          c'.Indexes d (keys ∪ compositeKeys d.fieldPath key v))
      (fun e c' => (∃ g, e = .err g) → c' = c) c := by
  obtain ⟨l, m, hc, hm⟩ := h
  rw [insertDoc, post_bind]
  refine (insertRaw_spec hc (length_encode key v) key).mono ?_ ?_
  · rintro res c₁ ⟨hnone, l', hch⟩
    rw [post_bind]
    refine (indexDoc_spec key v).mono ?_ ?_
    · rintro - c₂ ⟨hc₂, hidx⟩
      refine ⟨?_, ?_, ?_, fun d keys hkeys => hidx d keys (hkeys.of_eq ?_)⟩
      · rw [hm] at hnone
        exact map_eq_none_iff.mp hnone
      · rw [hc₂]
        exact (hch.holds.has_insert hm).indexes _
      · obtain ⟨i, -, hrewrites⟩ := hch.page
        obtain ⟨before, after, hrecords, -⟩ := hrewrites.record
        rw [hrecords]
        rfl
      · rw [hch.rest]
    · rintro e c₂ hne ⟨g, rfl⟩
      exact absurd rfl (hne g)
  · rintro e c' (⟨-, rfl, -⟩ | ⟨rfl, -⟩)
    · exact fun _ => rfl
    · rintro ⟨g, hg⟩
      cases hg

/-- **Deleting** a document takes the composite keys of the given value from the
indexes. -/
theorem deleteDoc_spec (h : c.Has docs) (hkey : (docs key).isSome) (v : Value) :
    Post (deleteDoc key v)
      (fun _ c' => c'.Has (Function.update docs key none) ∧
        ∀ d keys, c.Indexes d keys → c'.Indexes d (keys \ compositeKeys d.fieldPath key v))
      (fun e _ => ∀ g, e ≠ .err g) c := by
  rw [deleteDoc, post_bind]
  refine (unindexDoc_spec key v).imp ?_
  rintro - c₁ ⟨hc₁, hidx⟩
  obtain ⟨l, m, hc, hm⟩ : c₁.Has docs := by
    rw [hc₁]
    exact h.indexes _
  refine (deleteRaw_spec hc key).mono ?_ ?_
  · rintro records c₂ ⟨-, l', hch⟩
    refine ⟨⟨l', _, hch.holds, fun k => ?_⟩, fun d keys hkeys => (hidx d keys hkeys).of_eq ?_⟩
    · by_cases hk : k = key
      · rw [hk, get?_erase_self, update_self, map_none]
      · rw [get?_erase_ne hk, update_of_ne hk, hm]
    · rw [hch.rest]
  · rintro e c₂ ⟨-, -, hnone⟩
    rw [hm, map_eq_none_iff] at hnone
    rw [hnone] at hkey
    cases hkey

/-! ### A new index -/

/-- The values can be read back as they were written. -/
def Faithful (docs : Values) : Prop :=
  ∀ k v, docs k = some v → Codec.Short v ∧ Codec.Ordered v

variable {rs rs' : List StoredDoc} {read : Values}

omit [Crc32] in
/-- The bytes read back as a document that can be indexed. -/
def Takes (fieldPath : String) (bytes : List UInt8) : Prop :=
  ∃ doc, Document.decode bytes = .ok doc ∧ SecondaryIndex.Indexable fieldPath doc.value

end Collection

end GrumpyDB
