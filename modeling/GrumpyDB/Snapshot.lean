/-
Reads at a snapshot.

A get reads a key without a history from the collection; a scan reads the whole collection first
and lays the histories over it. The scan decodes every document of the collection, also those that
a history hides and those outside of the range.
-/
import GrumpyDB.Exact

namespace GrumpyDB

open Proc List Function SortedMap Uuid

namespace DatabaseState

/-! ### Versions at a snapshot -/

def selectVersion (snapshot : Hlc) : Option Value → List VersionedValue → Option Value
  | selected, [] => selected
  | selected, version :: versions =>
    if version.hlc ≤ snapshot then selectVersion snapshot version.value versions else selected

/-- What the history of a key says about it: nothing if there is none, and that
there is no document if all versions are past the snapshot. -/
def lookupSnapshotVersion (db : DatabaseState) (collection : String) (key : Uuid)
    (snapshot : Hlc) : Option (Option Value) :=
  match db.versions collection key with
  | [] => none
  | version :: versions => some (selectVersion snapshot none (version :: versions))

theorem lookupSnapshotVersion_eq_none {db : DatabaseState} {collection : String} {key : Uuid}
    {snapshot : Hlc} (h : db.versions collection key = []) :
    db.lookupSnapshotVersion collection key snapshot = none := by
  rw [lookupSnapshotVersion, h]

def decodeRows : List (Uuid × List UInt8) → Except GrumpyError (List (Uuid × Value))
  | [] => .ok []
  | (key, raw) :: rawResults => do
    let doc ← Document.decode raw
    let results ← decodeRows rawResults
    pure (if isTombstone doc.value then results else (key, doc.value) :: results)

/-- Lay what the history says about a key over the documents that are visible. -/
def showVersion (key : Uuid) (visible : SortedMap Uuid Value) :
    Option (Option Value) → SortedMap Uuid Value
  | none => visible
  | some (some value) => visible.insert key value
  | some none => visible.erase key

section Calls

variable [Crc32]

def scan (collection : String) (start stop : Bound) :
    Proc Halt DatabaseState (List (Uuid × Value)) := do
  let rawResults ← onCollection collection (Collection.scanRaw start stop)
  liftErr (decodeRows rawResults)

def snapshotGet (collection : String) (key : Uuid) (snapshot : Hlc) :
    Proc Halt DatabaseState (Option Value) := do
  match ← gets fun db => db.lookupSnapshotVersion collection key snapshot with
  | some value => pure value
  | none => get collection key

/-- The documents in a range of keys at a snapshot.  The keys with a history are
taken in the order in which the hash map lists them, `keys`. -/
def snapshotScan (collection : String) (keys : List Uuid) (start stop : Bound) (snapshot : Hlc) :
    Proc Halt DatabaseState (List (Uuid × Value)) := do
  let rows ← scan collection .unbounded .unbounded
  let rows := rows.filter fun row => Bound.within start stop row.1
  let visible := rows.foldl (fun m row => m.insert row.1 row.2) SortedMap.empty
  gets fun db =>
    (keys.foldl (fun m key =>
      if Bound.within start stop key then
        showVersion key m (db.lookupSnapshotVersion collection key snapshot)
      else m) visible).entries

end Calls

/-! ### What the maps hold -/

theorem get?_insertRows {rows : List (Uuid × Value)} (hrows : (rows.map Prod.fst).Nodup)
    (m : SortedMap Uuid Value) (k : Uuid) (v : Value) :
    (rows.foldl (fun m row => m.insert row.1 row.2) m).get? k = some v ↔
      (k, v) ∈ rows ∨ (k ∉ rows.map Prod.fst ∧ m.get? k = some v) := by
  induction rows generalizing m with
  | nil => simp
  | cons row rows ih =>
    obtain ⟨k', v'⟩ := row
    obtain ⟨hnew, hrows⟩ := nodup_cons.mp hrows
    rw [foldl_cons, ih hrows]
    by_cases hk : k = k'
    · subst hk
      have hmem : (k, v) ∉ rows := fun h => hnew (mem_map.mpr ⟨_, h, rfl⟩)
      simp [hmem, hnew, eq_comm]
    · rw [get?_insert_ne hk]
      simp [hk]

theorem get?_showVersion_self (key : Uuid) (m : SortedMap Uuid Value)
    (found : Option (Option Value)) :
    (showVersion key m found).get? key = found.getD (m.get? key) := by
  rcases found with _ | _ | value
  · rfl
  · exact get?_erase_self
  · exact get?_insert_self

theorem get?_showVersion_ne {key k : Uuid} (h : k ≠ key) (m : SortedMap Uuid Value)
    (found : Option (Option Value)) : (showVersion key m found).get? k = m.get? k := by
  rcases found with _ | _ | value
  · rfl
  · exact get?_erase_ne h
  · exact get?_insert_ne h

/-- The histories laid over a map, in whatever order they come. -/
theorem get?_overlay (look : Uuid → Option (Option Value)) (start stop : Bound) (keys : List Uuid)
    (m : SortedMap Uuid Value) (k : Uuid) :
    (keys.foldl (fun m key =>
      if Bound.within start stop key then showVersion key m (look key) else m) m).get? k =
      if k ∈ keys ∧ Bound.within start stop k then (look k).getD (m.get? k) else m.get? k := by
  induction keys generalizing m with
  | nil => simp
  | cons key keys ih =>
    rw [foldl_cons, ih]
    by_cases hk : k = key
    · subst hk
      by_cases hin : Bound.within start stop k
      · -- A second turn of the same key changes nothing.
        simp only [hin, if_true, get?_showVersion_self]
        rcases look k with _ | value <;> simp
      · simp [hin]
    · have hstep : (if Bound.within start stop key then showVersion key m (look key)
          else m).get? k = m.get? k := by
        split
        · exact get?_showVersion_ne hk _ _
        · rfl
      rw [hstep]
      simp [hk]

/-! ### What is read from the collection -/

/-- The document in the bytes, if they decode and it is not a tombstone. -/
def liveValue (raw : List UInt8) : Option Value :=
  match Document.decode raw with
  | .ok doc => if isTombstone doc.value then none else some doc.value
  | .error _ => none

def Decodes (raw : List UInt8) : Prop := ∃ doc, Document.decode raw = .ok doc

def liveRows (raws : List (Uuid × List UInt8)) : List (Uuid × Value) :=
  raws.filterMap fun e => (liveValue e.2).map fun v => (e.1, v)

variable {raws : List (Uuid × List UInt8)}

theorem decodeRows_eq (h : ∀ e ∈ raws, Decodes e.2) : decodeRows raws = .ok (liveRows raws) := by
  induction raws with
  | nil => rfl
  | cons e raws ih =>
    obtain ⟨doc, hdoc⟩ := h e mem_cons_self
    have ih := ih fun e' he' => h e' (mem_cons_of_mem e he')
    rw [liveRows, filterMap_cons, liveValue]
    simp only [decodeRows, hdoc, ih]
    show Except.ok _ = Except.ok _
    split <;> rfl

theorem decodeRows_fails {e : Uuid × List UInt8} (he : e ∈ raws) (h : ¬ Decodes e.2) :
    ∃ x, decodeRows raws = .error x := by
  induction raws with
  | nil => cases he
  | cons e' raws ih =>
    obtain ⟨key, raw⟩ := e'
    rcases hdoc : Document.decode raw with x | doc
    · refine ⟨x, ?_⟩
      rw [decodeRows, hdoc]
      rfl
    · rcases mem_cons.mp he with rfl | he
      · exact absurd ⟨doc, hdoc⟩ h
      · obtain ⟨x, hx⟩ := ih he
        refine ⟨x, ?_⟩
        rw [decodeRows, hdoc, hx]
        rfl

section Agree

variable [Crc32] {db : DatabaseState} {name : String} {c : Collection} {l : Layout} {m : DocMap}
  {E : Halt → DatabaseState → Prop}

theorem scan_spec (hc : db.collections.get? name = some c) (hm : c.Holds l m)
    (hall : ∀ k raw, m.get? k = some raw → Decodes raw) :
    Post (scan name .unbounded .unbounded) (fun rows db' => db'.versions = db.versions ∧
      rows = liveRows m.entries) E db := by
  rw [scan, post_bind, post_onCollection hc]
  refine (Collection.scanRaw_spec hm .unbounded .unbounded).imp ?_
  rintro raws c' ⟨rfl, -⟩
  have hraws : m.entries.filter (fun e => Bound.within .unbounded .unbounded e.1) = m.entries :=
    filter_eq_self.mpr fun _ _ => rfl
  rw [hraws, decodeRows_eq fun e he => hall e.1 e.2 (mem_entries_iff.mp he)]
  exact ⟨rfl, rfl⟩

theorem scan_fails (hc : db.collections.get? name = some c) (hm : c.Holds l m) {k : Uuid}
    {raw : List UInt8} (hk : m.get? k = some raw) (hraw : ¬ Decodes raw) :
    Post (scan name .unbounded .unbounded) (fun _ _ => False) (fun _ _ => True) db := by
  rw [scan, post_bind, post_onCollection hc]
  refine (Collection.scanRaw_spec hm .unbounded .unbounded).imp ?_
  rintro raws c' ⟨rfl, -⟩
  have hmem : (k, raw) ∈ m.entries.filter fun e => Bound.within .unbounded .unbounded e.1 :=
    mem_filter.mpr ⟨mem_entries_iff.mpr hk, rfl⟩
  obtain ⟨x, hx⟩ := decodeRows_fails hmem hraw
  rw [hx]
  exact trivial

theorem snapshotGet_spec (hc : db.collections.get? name = some c) (hm : c.Holds l m) (key : Uuid)
    (hkey : ∀ raw, m.get? key = some raw → Decodes raw) (snapshot : Hlc) :
    Post (snapshotGet name key snapshot) (fun value _ =>
      value = (db.lookupSnapshotVersion name key snapshot).getD ((m.get? key).bind liveValue))
      E db := by
  rw [snapshotGet, post_bind, post_gets]
  rcases db.lookupSnapshotVersion name key snapshot with _ | value
  · rw [get, post_bind, getIncludingTombstone, post_bind, post_onCollection hc]
    refine (Collection.getRaw_spec hm key).imp ?_
    rintro raw c' ⟨rfl, -⟩
    rcases hraw : m.get? key with _ | raw
    · exact rfl
    · obtain ⟨doc, hdoc⟩ := hkey raw hraw
      rw [post_bind, hdoc]
      show Option.filter _ (some doc.value) = liveValue raw
      rw [liveValue, hdoc]
      by_cases ht : isTombstone doc.value <;> simp [ht]
  · exact rfl

/-- The scan returns, in order and without duplicates, exactly the documents in
the range that a get at the snapshot finds. -/
def ScanAgrees (db : DatabaseState) (name : String) (keys : List Uuid) (start stop : Bound)
    (snapshot : Hlc) : Prop :=
  ∃ rows, (snapshotScan name keys start stop snapshot db).res = .ok rows ∧
    rows.Pairwise (fun x y => x.1 < y.1) ∧
    ∀ k v, (k, v) ∈ rows ↔ Bound.within start stop k = true ∧
      (snapshotGet name k snapshot db).res = .ok (some v)

omit [Crc32] in
theorem sublist_liveRows (raws : List (Uuid × List UInt8)) :
    ((liveRows raws).map Prod.fst).Sublist (raws.map Prod.fst) := by
  induction raws with
  | nil => exact List.Sublist.slnil
  | cons e raws ih =>
    rw [liveRows, filterMap_cons]
    rcases liveValue e.2 with _ | v
    · exact ih.cons _
    · exact ih.cons_cons _

omit [Crc32] in
theorem mem_liveRows {k : Uuid} {v : Value} :
    (k, v) ∈ liveRows m.entries ↔ (m.get? k).bind liveValue = some v := by
  rw [liveRows, mem_filterMap, Option.bind_eq_some_iff]
  constructor
  · rintro ⟨⟨k', raw⟩, hmem, hrow⟩
    obtain ⟨v', hv', hpair⟩ := Option.map_eq_some_iff.mp hrow
    cases hpair
    exact ⟨raw, mem_entries_iff.mp hmem, hv'⟩
  · rintro ⟨raw, hraw, hv⟩
    exact ⟨(k, raw), mem_entries_iff.mpr hraw, by rw [hv]; rfl⟩

theorem snapshotScan_spec (hc : db.collections.get? name = some c) (hm : c.Holds l m)
    (hall : ∀ k raw, m.get? k = some raw → Decodes raw) {keys : List Uuid}
    (hkeys : ∀ k, k ∈ keys ↔ db.versions name k ≠ []) (start stop : Bound) (snapshot : Hlc) :
    Post (snapshotScan name keys start stop snapshot) (fun rows _ =>
      ∃ visible : SortedMap Uuid Value, rows = visible.entries ∧ ∀ k v, visible.get? k = some v ↔
        Bound.within start stop k = true ∧ (db.lookupSnapshotVersion name k snapshot).getD
          ((m.get? k).bind liveValue) = some v) E db := by
  rw [snapshotScan, post_bind]
  refine (scan_spec hc hm hall).imp ?_
  rintro rows db' ⟨hversions, rfl⟩
  refine ⟨_, rfl, fun k v => ?_⟩
  have hlook : ∀ k, db'.lookupSnapshotVersion name k snapshot =
      db.lookupSnapshotVersion name k snapshot := fun k => by
    rw [lookupSnapshotVersion, lookupSnapshotVersion, hversions]
  have hnodup : (((liveRows m.entries).filter fun row =>
      Bound.within start stop row.1).map Prod.fst).Nodup :=
    m.nodup_keys.sublist ((filter_sublist.map Prod.fst).trans (sublist_liveRows m.entries))
  have hbase := get?_insertRows hnodup empty k
  rw [get?_overlay, hlook]
  generalize foldl _ (empty : SortedMap Uuid Value) _ = visible at hbase ⊢
  by_cases hin : Bound.within start stop k = true
  · have hcurrent : visible.get? k = (m.get? k).bind liveValue := by
      ext v
      rw [hbase v, mem_filter, mem_liveRows]
      simp [hin]
    rw [hcurrent]
    by_cases hk : k ∈ keys
    · simp only [hk, hin, if_true, true_and]
    · -- A key without a history is read from the collection.
      have hnone : db.lookupSnapshotVersion name k snapshot = none :=
        lookupSnapshotVersion_eq_none (not_not.mp fun h => hk ((hkeys k).mpr h))
      simp [hin, hnone]
  · simp only [hin, and_false, if_false, false_and, hbase v, mem_filter, or_false,
      get?_empty, reduceCtorEq]

/-- **A scan at a snapshot agrees with the gets**, in every range and whatever the
histories are, exactly if every document of the collection decodes. -/
theorem snapshot_scan_agrees (hc : db.collections.get? name = some c) (hm : c.Holds l m)
    {keys : List Uuid} (hkeys : ∀ k, k ∈ keys ↔ db.versions name k ≠ []) (start stop : Bound)
    (snapshot : Hlc) :
    db.ScanAgrees name keys start stop snapshot ↔
      ∀ k raw, m.get? k = some raw → Decodes raw := by
  constructor
  · rintro ⟨rows, hrows, -⟩ k raw hk
    by_contra hraw
    have hfail : Post (snapshotScan name keys start stop snapshot) (fun _ _ => False)
        (fun _ _ => True) db := by
      rw [snapshotScan, post_bind]
      exact (scan_fails hc hm hk hraw).imp fun _ _ => False.elim
    exact hfail.of_ok hrows
  · intro hall
    obtain ⟨rows, hres, visible, rfl, hvisible⟩ :=
      (snapshotScan_spec hc hm hall hkeys start stop snapshot).exists_ok
    refine ⟨_, hres, visible.sorted, fun k v => ?_⟩
    obtain ⟨value, hget, rfl⟩ :=
      (snapshotGet_spec hc hm k (hall k) snapshot).exists_ok
    rw [mem_entries_iff, hvisible, hget]
    simp

end Agree

/-! ### Two databases -/

section Databases

variable {c : Collection} {d : Dir}

theorem insert_new [Crc32] (hnew : c.New d) (key : Uuid) (v : Value)
    (hlen : (Document.encode ⟨key, v⟩).length < 2 ^ 31) :
    Post (Collection.insertDoc key v (Document.encode ⟨key, v⟩))
      (fun _ c' => c'.Has (Function.update (fun _ => none) key (some v))) (fun _ _ => False) c := by
  have hdocs : c.Has fun _ => none := new_has hnew
  have hchunks := Collection.length_chunks_le (Document.encode ⟨key, v⟩)
  refine ((Collection.insertDoc_first hdocs hnew.tree hnew.secondaryIndexes ?_).and
    (Collection.insertDoc_spec hdocs key v)).mono (fun _ _ h => h.2.2.1) fun _ _ h => h.1
  rw [hnew.filePages]
  omega

def nested : Nat → Value
  | 0 => .array []
  | n + 1 => .array [nested n]

theorem every_nested {p : Value → Prop} (h₀ : p (.array [])) (h₁ : ∀ v, p (.array [v])) (n : Nat) :
    Codec.Every p (nested n) := by
  induction n with
  | zero => exact Codec.every_array.mpr ⟨h₀, fun _ => not_mem_nil.elim⟩
  | succ n ih =>
    refine Codec.every_array.mpr ⟨h₁ _, fun v hv => ?_⟩
    rw [mem_singleton.mp hv]
    exact ih

theorem not_within_nested (n : Nat) : ¬ Codec.Within n (nested n) := by
  induction n with
  | zero => exact id
  | succ n ih => exact fun h => ih (h.2 _ (mem_singleton_self _))

theorem length_encode_nested (n : Nat) : (Codec.encode (nested n)).length = 5 * n + 5 := by
  induction n with
  | zero => simp [nested, Codec.encode, Codec.encodeItems]
  | succ n ih =>
    simp only [nested, Codec.encode, Codec.encodeItems, length_cons, length_append,
      length_leBytes, append_nil]
    omega

def tooDeep : Value := nested (Codec.MAX_NESTING_DEPTH + 1)

theorem not_decodes_tooDeep (key : Uuid) : ¬ Decodes (Document.encode ⟨key, tooDeep⟩) := by
  rintro ⟨doc, hdoc⟩
  have hshort : Codec.Short tooDeep := every_nested
    (show 0 < 2 ^ 32 by decide) (fun _ => show 1 < 2 ^ 32 by decide) _
  have hordered : Codec.Ordered tooDeep := every_nested trivial
    (fun _ => trivial) _
  obtain ⟨e, he⟩ := (Document.decode_encode (d := ⟨key, tooDeep⟩) hshort hordered).2
    (not_within_nested _)
  rw [he] at hdoc
  cases hdoc

theorem exists_single [Crc32] (v : Value) (hlen : (Codec.encode v).length < 2 ^ 30) :
    ∃ c l m, Collection.Holds c l m ∧ ∀ k, m.get? k =
      (Function.update (fun _ => none) Uuid.nil (some v) k).map fun v =>
        Document.encode ⟨k, v⟩ := by
  obtain ⟨c, -, hnew⟩ := (Collection.openDir_new (d := fun _ => none)
    Nat.one_pos rfl rfl).exists_ok
  obtain ⟨-, -, l, m, hm, hget⟩ := (insert_new hnew nil v (by
    show (nil.bytes ++ Codec.encode v).length < 2 ^ 31
    rw [length_append, nil.size]
    omega)).exists_ok
  exact ⟨_, l, m, hm, hget⟩

/-- A document read at a snapshot of a collection that has no history. -/
theorem snapshot_scan_agrees_single : ∃ _ : Crc32, ∃ (c : Collection) (m : DocMap),
    m.get? Uuid.nil = some (Document.encode ⟨Uuid.nil, .bool true⟩) ∧
    (single "c" c).ScanAgrees "c" [] .unbounded .unbounded 0 := by
  refine ⟨⟨fun _ => 0⟩, ?_⟩
  let _ : Crc32 := ⟨fun _ => 0⟩
  obtain ⟨c, l, m, hm, hget⟩ := exists_single (.bool true) (by decide)
  refine ⟨c, m, ?_, (snapshot_scan_agrees Table.get?_insert_self hm
    (fun k => by simp [single]) .unbounded .unbounded 0).mpr ?_⟩
  · rw [hget]
    rfl
  · intro k raw hk
    rw [hget] at hk
    by_cases hnil : k = Uuid.nil
    · subst hnil
      cases hk
      exact ⟨_, rfl⟩
    · rw [update_of_ne hnil] at hk
      cases hk

/-- **A scan at a snapshot fails where a get does not**: a document that is nested
deeper than the decoder accepts.  Its history answers the get; the scan decodes
it all the same, for the empty range too. -/
theorem snapshot_scan_fails : ∃ _ : Crc32, ∃ db : DatabaseState,
    (∀ k, k ∈ [Uuid.nil] ↔ db.versions "c" k ≠ []) ∧
    (snapshotGet "c" Uuid.nil 1 db).res = .ok (some tooDeep) ∧
    ∀ start stop, ∃ e, (snapshotScan "c" [Uuid.nil] start stop 1 db).res = .error e := by
  refine ⟨⟨fun _ => 0⟩, ?_⟩
  let _ : Crc32 := ⟨fun _ => 0⟩
  obtain ⟨c, l, m, hm, hget⟩ := exists_single tooDeep (by
    rw [tooDeep, length_encode_nested]
    decide)
  refine ⟨(single "c" c).setVersions "c" nil [⟨1, some tooDeep⟩], fun k => ?_, rfl,
    fun start stop => ?_⟩
  · by_cases hk : k = Uuid.nil
    · simp [setVersions, hk]
    · simp [setVersions, single, hk]
  · have hdoc : m.get? Uuid.nil = some (Document.encode ⟨Uuid.nil, tooDeep⟩) := by
      rw [hget]
      rfl
    have hfail : Post (snapshotScan "c" [nil] start stop 1) (fun _ _ => False)
        (fun _ _ => True) ((single "c" c).setVersions "c" nil [⟨1, some tooDeep⟩]) := by
      rw [snapshotScan, post_bind]
      exact (scan_fails Table.get?_insert_self hm hdoc (not_decodes_tooDeep _)).imp
        fun _ _ => False.elim
    rcases hres : (snapshotScan "c" [nil] start stop 1
      ((single "c" c).setVersions "c" nil [⟨1, some tooDeep⟩])).res with e | rows
    · exact ⟨e, rfl⟩
    · exact (hfail.of_ok hres).elim

end Databases

end DatabaseState

end GrumpyDB
