/-
The indexes of a collection follow its documents.

A call may fail half-way behind the change, so the invariant is kept by every call that returns,
with a result or with an error (`Keeps`); only a panic may break it.
-/
import GrumpyDB.Database

namespace GrumpyDB

open Proc Function Option

namespace DatabaseState

variable {α β : Type} {db : DatabaseState} {P : DatabaseState → Prop} {name : String}

/-! ### Invariants of calls that return -/

/-- If the call returns, with a result or an error, then `P` holds behind it. -/
def Keeps (P : DatabaseState → Prop) (x : Proc Halt DatabaseState α) : Prop :=
  ∀ db, P db → Post x (fun _ db' => P db') (fun e db' => (∃ g, e = .err g) → P db') db

variable {x : Proc Halt DatabaseState α}

theorem Keeps.bind {f : α → Proc Halt DatabaseState β} (hx : Keeps P x) (hf : ∀ a, Keeps P (f a)) :
    Keeps P (x >>= f) := by
  intro db h
  rw [post_bind]
  exact (hx db h).imp fun a db' h' => hf a db' h'

theorem keeps_pure (a : α) : Keeps P (pure a) := fun _ h => h

theorem keeps_fail (e : Halt) : Keeps P (fail e : Proc Halt DatabaseState α) := fun _ h _ => h

theorem keeps_liftErr (r : Except GrumpyError α) : Keeps P (liftErr r) := by
  intro db h
  cases r with
  | ok a => exact h
  | error e => exact fun _ => h

theorem keeps_of_collections_eq (hP : ∀ db db', db'.collections = db.collections → P db → P db')
    (hx : ∀ db, (x db).st.collections = db.collections) : Keeps P x := by
  intro db h
  exact post_iff.mpr ⟨fun _ _ => hP _ _ (hx db) h, fun _ _ _ => hP _ _ (hx db) h⟩

theorem post_onCollection {c : Collection} (hc : db.collections.get? name = some c)
    {x : Proc Halt Collection α} {Q : α → DatabaseState → Prop} {E : Halt → DatabaseState → Prop} :
    Post (onCollection name x) Q E db ↔
      Post x (fun a c' => Q a { db with collections := db.collections.insert name c' })
        (fun e c' => E e { db with collections := db.collections.insert name c' }) c := by
  unfold Post onCollection
  rw [hc]

theorem onCollection_ne {other : String} (h : name ≠ other) (x : Proc Halt Collection α)
    (db : DatabaseState) :
    (onCollection other x db).st.collections.get? name = db.collections.get? name := by
  unfold onCollection
  rcases db.collections.get? other with _ | c
  · rfl
  · exact Table.get?_insert_ne h

/-! ### Steps beside the collections -/

theorem collections_now (db : DatabaseState) : (now db).st.collections = db.collections := rfl

theorem collections_beginTx (db : DatabaseState) :
    (beginTx db).st.collections = db.collections := rfl

theorem collections_appendVersion (collection : String) (key : Uuid) (hlc : Hlc)
    (value : Option Value) (db : DatabaseState) :
    (appendVersion collection key hlc value db).st.collections = db.collections := rfl

theorem collections_ensureBaselineVersion (collection : String) (key : Uuid) (value : Value)
    (db : DatabaseState) :
    (ensureBaselineVersion collection key value db).st.collections = db.collections := by
  unfold ensureBaselineVersion Proc.modify
  dsimp only
  split <;> rfl

section Steps

variable [Crc32]

theorem collections_log (call : LogCall) (db : DatabaseState) :
    (log call db).st.collections = db.collections := rfl

variable (hP : ∀ db db' : DatabaseState, db'.collections = db.collections → P db → P db')
include hP

theorem keeps_logWrites (txId : UInt64) (records : List PageWriteRecord) :
    Keeps P (logWrites txId records) := by
  induction records with
  | nil => exact keeps_pure ()
  | cons r records ih =>
    exact (keeps_of_collections_eq hP (collections_log _)).bind fun _ => ih

omit hP in
theorem keeps_flushCollections (hflush : ∀ name, Keeps P (onCollection name Collection.flush))
    (names : List String) : Keeps P (flushCollections names) := by
  induction names with
  | nil => exact keeps_pure ()
  | cons name names ih => exact (hflush name).bind fun _ => ih

theorem keeps_commit (hflush : ∀ name, Keeps P (onCollection name Collection.flush))
    (txId : UInt64) (collection : String) (key : Uuid) (version : Option Value) :
    Keeps P (commit txId collection key version) := by
  refine (keeps_of_collections_eq hP (collections_log _)).bind fun hlc => ?_
  refine (keeps_of_collections_eq hP (collections_appendVersion collection key hlc version)).bind
    fun _ => ?_
  refine (keeps_of_collections_eq hP fun _ => rfl).bind fun _ => ?_
  refine (keeps_of_collections_eq hP fun _ => rfl).bind fun writes => ?_
  split
  · refine (keeps_of_collections_eq hP fun _ => rfl).bind fun names => ?_
    refine (keeps_flushCollections hflush names).bind fun _ => ?_
    exact (keeps_of_collections_eq hP (collections_log _)).bind fun _ =>
      keeps_of_collections_eq hP fun _ => rfl
  · exact keeps_pure ()

end Steps

/-! ### The invariant -/

section Upholds

variable [Crc32] {d : IndexDefinition} {docs : Collection.Values} {key : Uuid} {v old : Value}

/-- The collection has the documents, and the index has their composite keys. -/
def Upholds (name : String) (d : IndexDefinition) (docs : Collection.Values) (db : DatabaseState) :
    Prop :=
  ∃ c, db.collections.get? name = some c ∧ c.Has docs ∧
    c.Indexes d (Collection.keysOf d.fieldPath docs)

/-- The same for some documents that can be read back. -/
def Follows (name : String) (d : IndexDefinition) (db : DatabaseState) : Prop :=
  ∃ docs, Collection.Faithful docs ∧ Upholds name d docs db

variable {db' : DatabaseState}

theorem Upholds.congr (h : Upholds name d docs db)
    (hc : db'.collections.get? name = db.collections.get? name) : Upholds name d docs db' := by
  rwa [Upholds, hc]

theorem follows_congr (db db' : DatabaseState) (hc : db'.collections = db.collections) :
    Follows name d db → Follows name d db' := by
  rintro ⟨docs, hfaith, h⟩
  exact ⟨docs, hfaith, h.congr (by rw [hc])⟩

theorem keeps_other {other : String} (hne : name ≠ other) (x : Proc Halt Collection α) :
    Keeps (Follows name d) (onCollection other x) := by
  rintro db ⟨docs, hfaith, h⟩
  have h' := h.congr (onCollection_ne hne x db)
  exact post_iff.mpr ⟨fun _ _ => ⟨docs, hfaith, h'⟩, fun _ _ _ => ⟨docs, hfaith, h'⟩⟩

theorem flush_has {c : Collection} (h : c.Has docs) {E : Halt → Collection → Prop} :
    Post Collection.flush
      (fun _ c' => c'.Has docs ∧ c'.secondaryIndexes = c.secondaryIndexes) E c := by
  obtain ⟨l, m, hc, hm⟩ := h
  obtain ⟨rs, hs, hi, hrs⟩ := hc.docs
  rw [Collection.flush, Collection.post_onPool]
  refine (BufferPool.flushAll_spec hs.ok).imp ?_
  rintro - b ⟨hb, -⟩
  have hkeeps : BufferPool.Keeps l.pages c.dataPool b :=
    fun i _ p hp => ⟨p, (hb.content_eq i).trans hp, Page.Same.refl p⟩
  have hready : Ready b := hc.ready.of_capacity (hb.idle hc.ready.idle) hb.capacity_eq
  exact ⟨⟨l, m, ⟨hready, hc.current, rs, hs.keeps hb.ok hkeeps hb.disk, hi, hrs⟩, hm⟩, rfl⟩

theorem keeps_flush (other : String) : Keeps (Follows name d)
    (onCollection other Collection.flush) := by
  by_cases hne : name = other
  · subst hne
    rintro db ⟨docs, hfaith, c, hc, hdocs, hidx⟩
    rw [post_onCollection hc]
    refine (flush_has hdocs).imp ?_
    rintro - c' ⟨hdocs', heq⟩
    exact ⟨docs, hfaith, c', Table.get?_insert_self, hdocs', hidx.of_eq heq⟩
  · exact keeps_other hne _

/-! ### The changes -/

/-- A value that the index can follow: it is read back as it was written, and the
indexed field is no reference. -/
structure Fair (fieldPath : String) (v : Value) : Prop where
  short : Codec.Short v
  ordered : Codec.Ordered v
  noRef : SecondaryIndex.NoRef fieldPath v

omit [Crc32] in
theorem faithful_insert (h : Collection.Faithful docs) (hv : Fair d.fieldPath v) :
    Collection.Faithful (Function.update docs key (some v)) := by
  intro k w hk
  by_cases hkey : k = key
  · rw [hkey, update_self] at hk
    cases hk
    exact ⟨hv.short, hv.ordered⟩
  · rw [update_of_ne hkey] at hk
    exact h k w hk

omit [Crc32] in
theorem faithful_erase (h : Collection.Faithful docs) :
    Collection.Faithful (Function.update docs key none) := by
  intro k w hk
  by_cases hkey : k = key
  · rw [hkey, update_self] at hk
    cases hk
  · rw [update_of_ne hkey] at hk
    exact h k w hk

theorem keeps_insertDoc (hv : Fair d.fieldPath v) :
    Keeps (Follows name d)
      (onCollection name (Collection.insertDoc key v (Document.encode ⟨key, v⟩))) := by
  rintro db ⟨docs, hfaith, c, hc, hdocs, hidx⟩
  rw [post_onCollection hc]
  refine (Collection.insertDoc_spec hdocs key v).mono ?_ ?_
  · rintro - c' ⟨hnone, hdocs', -, hidx'⟩
    refine ⟨_, faithful_insert hfaith hv, c', Table.get?_insert_self, hdocs', ?_⟩
    rw [Collection.keysOf_insert hnone]
    exact hidx' d _ hidx (hv.noRef.keyFits _)
  · intro e c' hsame herr
    rw [hsame herr]
    exact ⟨docs, hfaith, c, Table.get?_insert_self, hdocs, hidx⟩

/-- The invariant, where the document of the key is known. -/
def FollowsAt (name : String) (d : IndexDefinition) (key : Uuid) (v : Value) (db : DatabaseState) :
    Prop :=
  ∃ docs, Collection.Faithful docs ∧ docs key = some v ∧ Upholds name d docs db

theorem FollowsAt.follows (h : FollowsAt name d key v db) : Follows name d db := by
  obtain ⟨docs, hfaith, -, hdb⟩ := h
  exact ⟨docs, hfaith, hdb⟩

theorem followsAt_congr (db db' : DatabaseState) (hc : db'.collections = db.collections) :
    FollowsAt name d key v db → FollowsAt name d key v db' := by
  rintro ⟨docs, hfaith, hkey, h⟩
  exact ⟨docs, hfaith, hkey, h.congr (by rw [hc])⟩

theorem post_deleteDoc (h : FollowsAt name d key v db) :
    Post (onCollection name (Collection.deleteDoc key v)) (fun _ => Follows name d)
      (fun e db' => (∃ g, e = .err g) → Follows name d db') db := by
  obtain ⟨docs, hfaith, hkey, c, hc, hdocs, hidx⟩ := h
  rw [post_onCollection hc]
  refine (Collection.deleteDoc_spec hdocs (by rw [hkey]; rfl) v).mono ?_ ?_
  · rintro - c' ⟨hdocs', hidx'⟩
    refine ⟨_, faithful_erase hfaith, c', Table.get?_insert_self, hdocs', ?_⟩
    rw [Collection.keysOf_erase hkey]
    exact hidx' d _ hidx
  · rintro e c' hne ⟨g, rfl⟩
    exact absurd rfl (hne g)

theorem post_getIncludingTombstone (h : Follows name d db) (key : Uuid) :
    Post (getIncludingTombstone name key)
      (fun r db' => Follows name d db' ∧ ∀ v, r = some v → FollowsAt name d key v db')
      (fun _ db' => Follows name d db') db := by
  obtain ⟨docs, hfaith, c, hc, hdocs, hidx⟩ := h
  rw [getIncludingTombstone, post_bind, post_onCollection hc]
  refine (Collection.getDoc_spec hdocs key).imp ?_
  rintro raw c' ⟨rfl, hdocs', heq⟩
  have hdb : Upholds name d docs { db with collections := db.collections.insert name c' } :=
    ⟨c', Table.get?_insert_self, hdocs', hidx.of_eq heq⟩
  rcases hkey : docs key with _ | v
  · exact ⟨⟨docs, hfaith, hdb⟩, fun v hv => by cases hv⟩
  · show Post (liftErr (Document.decode (Document.encode ⟨key, v⟩)) >>= _) _ _ _
    rcases hdec : Document.decode (Document.encode ⟨key, v⟩) with e | doc
    · exact ⟨docs, hfaith, hdb⟩
    · obtain ⟨hshort, hord⟩ := hfaith _ _ hkey
      obtain rfl : doc = ⟨key, v⟩ :=
        Document.eq_of_decode_encode hshort hord hdec
      refine ⟨⟨docs, hfaith, hdb⟩, fun w hw => ?_⟩
      cases hw
      exact ⟨docs, hfaith, hkey, hdb⟩

/-! ### The calls -/

def Ends (P : DatabaseState → Prop) (x : Proc Halt DatabaseState α) (db : DatabaseState) : Prop :=
  Post x (fun _ db' => P db') (fun e db' => (∃ g, e = .err g) → P db') db

omit [Crc32] in
theorem Ends.bind {P' : DatabaseState → Prop} {x : Proc Halt DatabaseState α}
    {f : α → Proc Halt DatabaseState β} (hx : Ends P x db) (hP : ∀ db, P db → P' db)
    (hf : ∀ a db', P db' → Ends P' (f a) db') : Ends P' (x >>= f) db :=
  post_bind.mpr (Post.mono hx hf fun _ _ h he => hP _ (h he))

theorem keeps_insert (collection : String) (key : Uuid)
    (hv : collection = name → Fair d.fieldPath v) :
    Keeps (Follows name d) (insert collection key v) := by
  refine (keeps_of_collections_eq follows_congr collections_beginTx).bind fun txId => ?_
  refine Keeps.bind ?_ fun res => ?_
  · by_cases hne : collection = name
    · subst hne
      exact keeps_insertDoc (hv rfl)
    · exact keeps_other (Ne.symm hne) _
  · refine (keeps_logWrites follows_congr txId res.2).bind fun _ => ?_
    exact keeps_commit follows_congr keeps_flush txId collection key (some v)

theorem keeps_reinsert (collection : String) (key : Uuid)
    (hv : collection = name → Fair d.fieldPath v) (txId : UInt64) (version : Option Value)
    (delRecords : List PageWriteRecord) :
    Keeps (Follows name d) (do
      logWrites txId delRecords
      let (_, insRecords) ← onCollection collection
        (Collection.insertDoc key v (Document.encode ⟨key, v⟩))
      logWrites txId insRecords
      commit txId collection key version) := by
  refine (keeps_logWrites follows_congr txId delRecords).bind fun _ => ?_
  refine Keeps.bind ?_ fun res => ?_
  · by_cases hne : collection = name
    · subst hne
      exact keeps_insertDoc (hv rfl)
    · exact keeps_other (Ne.symm hne) _
  · refine (keeps_logWrites follows_congr txId res.2).bind fun _ => ?_
    exact keeps_commit follows_congr keeps_flush txId collection key version

theorem keeps_replace_other {collection : String} (hne : name ≠ collection) (key : Uuid)
    (old new : Value) (version : Option Value) :
    Keeps (Follows name d) (replace collection key old new version) := by
  refine (keeps_of_collections_eq follows_congr collections_beginTx).bind fun txId => ?_
  refine (keeps_other hne _).bind fun delRecords => ?_
  exact keeps_reinsert collection key (fun h => absurd h.symm hne) txId version delRecords

theorem ends_replace (h : FollowsAt name d key old db) (hv : Fair d.fieldPath v)
    (version : Option Value) : Ends (Follows name d) (replace name key old v version) db := by
  refine Ends.bind
    (keeps_of_collections_eq followsAt_congr collections_beginTx db h)
    (fun _ => FollowsAt.follows) fun txId db₁ h₁ => ?_
  refine Ends.bind (post_deleteDoc h₁) (fun _ => id) fun delRecords db₂ h₂ => ?_
  exact keeps_reinsert name key (fun _ => hv) txId version delRecords db₂ h₂

theorem keeps_getIncludingTombstone (collection : String) (key : Uuid) :
    Keeps (Follows name d) (getIncludingTombstone collection key) := by
  by_cases hne : collection = name
  · subst hne
    intro db h
    exact (post_getIncludingTombstone h key).mono (fun _ _ h => h.1) fun _ _ h _ => h
  · refine (keeps_other (Ne.symm hne) _).bind fun raw => ?_
    cases raw with
    | none => exact keeps_pure _
    | some raw => exact (keeps_liftErr _).bind fun doc => keeps_pure _

theorem keeps_update (collection : String) (key : Uuid)
    (hv : collection = name → Fair d.fieldPath v) :
    Keeps (Follows name d) (update collection key v) := by
  intro db h
  by_cases hne : collection = name
  · subst hne
    rw [update, post_bind]
    refine (post_getIncludingTombstone h key).mono ?_ fun _ _ h _ => h
    rintro (_ | oldValue) db₁ ⟨h₁, hat⟩
    · exact fun _ => h₁
    · refine Ends.bind
        (keeps_of_collections_eq followsAt_congr (collections_ensureBaselineVersion _ _ _) db₁
          (hat oldValue rfl)) (fun _ => FollowsAt.follows) fun _ db₂ h₂ => ?_
      exact ends_replace h₂ (hv rfl) _
  · refine (keeps_getIncludingTombstone collection key).bind (fun found => ?_) db h
    cases found with
    | none => exact keeps_fail _
    | some oldValue =>
      refine (keeps_of_collections_eq follows_congr
        (collections_ensureBaselineVersion _ _ _)).bind fun _ => ?_
      exact keeps_replace_other (Ne.symm hne) _ _ _ _

omit [Crc32] in
theorem fair_tombstone (fieldPath : String) (nodeId : U128) (hlc : Hlc) :
    Fair fieldPath (tombstone nodeId hlc) where
  short := by
    show (VectorClock.singleton nodeId hlc).encode.length < 2 ^ 32
    rw [VectorClock.length_encode, VectorClock.encodedLen, VectorClock.len_singleton]
    decide
  ordered := trivial
  noRef := by
    intro collection uuid h
    rw [tombstone, Index.extractField_eq_none (by simp)] at h
    cases h

theorem keeps_delete (collection : String) (key : Uuid) :
    Keeps (Follows name d) (delete collection key) := by
  intro db h
  by_cases hne : collection = name
  · subst hne
    rw [delete, get, post_bind, post_bind]
    refine (post_getIncludingTombstone h key).mono ?_ fun _ _ h _ => h
    intro found db₁ ⟨h₁, hat⟩
    rcases hfound : found.filter fun v => !isTombstone v with _ | value
    · exact fun _ => h₁
    · refine Ends.bind
        (keeps_of_collections_eq followsAt_congr (collections_ensureBaselineVersion _ _ _) db₁
          (hat value (eq_some_of_filter_eq_some hfound))) (fun _ => FollowsAt.follows)
        fun _ db₂ h₂ => ?_
      refine Ends.bind
        (keeps_of_collections_eq followsAt_congr collections_now db₂ h₂)
        (fun _ => FollowsAt.follows) fun hlc db₃ h₃ => ?_
      refine Ends.bind
        (keeps_of_collections_eq followsAt_congr (fun _ => rfl) db₃ h₃)
        (fun _ => FollowsAt.follows) fun nodeId db₄ h₄ => ?_
      exact ends_replace h₄ (fair_tombstone _ _ _) _
  · refine ((keeps_getIncludingTombstone collection key).bind fun _ => keeps_pure _).bind
      (fun found => ?_) db h
    cases found with
    | none => exact keeps_fail _
    | some value =>
      refine (keeps_of_collections_eq follows_congr
        (collections_ensureBaselineVersion _ _ _)).bind fun _ => ?_
      refine (keeps_of_collections_eq follows_congr collections_now).bind fun hlc => ?_
      refine (keeps_of_collections_eq follows_congr fun _ => rfl).bind fun nodeId => ?_
      exact keeps_replace_other (Ne.symm hne) _ _ _ _

/-! ### Runs -/

inductive Call where
  | insert (collection : String) (key : Uuid) (value : Value)
  | update (collection : String) (key : Uuid) (value : Value)
  | delete (collection : String) (key : Uuid)

def run : Call → Proc Halt DatabaseState Unit
  | .insert collection key value => insert collection key value
  | .update collection key value => update collection key value
  | .delete collection key => delete collection key

/-- What the call writes to the collection can be followed by the index. -/
def Call.Meets (name fieldPath : String) : Call → Prop
  | .insert collection _ value => collection = name → Fair fieldPath value
  | .update collection _ value => collection = name → Fair fieldPath value
  | .delete _ _ => True

/-- Some calls that all return, with a result or an error. -/
inductive Calls (p : Call → Prop) (db : DatabaseState) : DatabaseState → Prop where
  | nil : Calls p db db
  | call {db' : DatabaseState} (h : Calls p db db') (call : Call) (hp : p call)
      (hret : ∀ e, (run call db').res = .error e → ∃ g, e = .err g) :
      Calls p db (run call db').st

theorem keeps_run {call : Call} (h : call.Meets name d.fieldPath) :
    Keeps (Follows name d) (run call) := by
  cases call with
  | insert collection key value => exact keeps_insert collection key h
  | update collection key value => exact keeps_update collection key h
  | delete collection key => exact keeps_delete collection key

theorem Calls.follows (hcalls : Calls (Call.Meets name d.fieldPath) db db')
    (h : Follows name d db) : Follows name d db' := by
  induction hcalls with
  | nil => exact h
  | call hcalls call hp hret ih =>
    rename_i db'
    have hkeep := keeps_run hp db' ih
    rcases hres : (run call db').res with e | u
    · exact hkeep.of_error hres (hret e hres)
    · exact hkeep.of_ok hres

/-! ### What the index contains -/

def Contains (t : BTree (List UInt8)) (key : List UInt8) : Prop :=
  ∃ location, (BTree.search key t).res = .ok (some location)

/-- The collection has this document, and it is not deleted. -/
structure Live (c : Collection) (key : Uuid) (v : Value) : Prop where
  stored : (Collection.getRaw key c).res = .ok (some (Document.encode ⟨key, v⟩))
  short : Codec.Short v
  alive : isTombstone v = false

/-- The index has exactly the composite keys of the live documents. -/
def IndexExact (c : Collection) (idx : SecondaryIndex) : Prop :=
  ∀ key, Contains idx.btree key ↔
    ∃ k v, Live c k v ∧ key ∈ Index.compositeKeys idx.defn.fieldPath k v

theorem contains_iff {t : BTree (List UInt8)} {keys : Set (List UInt8)}
    (h : SecondaryIndex.Holds t keys) (key : List UInt8) : Contains t key ↔ key ∈ keys := by
  obtain ⟨m, es, hi, -, hkeys⟩ := h
  obtain ⟨r, hres, -, rfl⟩ := (hi.search key).exists_ok
  rw [← hkeys, Contains, hres, isSome_iff_exists]
  simp

omit [Crc32] in
theorem compositeKeys_of_tombstone (hv : isTombstone v = true) (fieldPath : String) :
    Index.compositeKeys fieldPath key v = ∅ := by
  refine SecondaryIndex.compositeKeys_eq_empty fun f hf => ?_
  rw [Index.extractField_eq_none (by rintro obj rfl; cases hv)] at hf
  cases hf

theorem live_iff {c : Collection} (hdocs : c.Has docs) (hfaith : Collection.Faithful docs) :
    Live c key v ↔ docs key = some v ∧ isTombstone v = false := by
  obtain ⟨raw, hres, hraw, -⟩ := (Collection.getDoc_spec hdocs key).exists_ok
  constructor
  · rintro ⟨hstored, hshort, halive⟩
    rw [hres, hraw, Except.ok.injEq, map_eq_some_iff] at hstored
    obtain ⟨w, hw, heq⟩ := hstored
    have hdoc : Document.mk key w = ⟨key, v⟩ := Document.encode_inj (hfaith _ _ hw).1 hshort heq
    cases hdoc
    exact ⟨hw, halive⟩
  · rintro ⟨hkey, halive⟩
    refine ⟨?_, (hfaith _ _ hkey).1, halive⟩
    rw [hres, hraw, hkey, map_some]

theorem Follows.exact (h : Follows name d db) :
    ∃ c idx, db.collections.get? name = some c ∧ idx ∈ c.secondaryIndexes ∧ idx.defn = d ∧
      IndexExact c idx := by
  obtain ⟨docs, hfaith, c, hc, hdocs, idx, hidx, rfl, hkeys⟩ := h
  refine ⟨c, idx, hc, hidx, rfl, fun key => ?_⟩
  rw [contains_iff hkeys]
  constructor
  · rintro ⟨k, v, hv, hkey⟩
    refine ⟨k, v, (live_iff hdocs hfaith).mpr ⟨hv, ?_⟩, hkey⟩
    by_contra hdead
    rw [compositeKeys_of_tombstone (by simpa using hdead)] at hkey
    exact hkey
  · rintro ⟨k, v, hlive, hkey⟩
    exact ⟨k, v, ((live_iff hdocs hfaith).mp hlive).1, hkey⟩

end Upholds

end DatabaseState

end GrumpyDB
