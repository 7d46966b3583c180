/-
What an index contains, from its creation on.
-/
import GrumpyDB.Upkeep
import GrumpyDB.Room

namespace GrumpyDB

open Proc List Function Uuid

section Exact

variable [Crc32]

namespace Collection

variable {c : Collection} {docs : Values} {name fieldPath : String} {key : Uuid} {v : Value}

/-! ### Calls that return -/

theorem insertDoc_first (h : c.Has fun _ => none) {i : UInt32}
    (hT : c.btree.Repr (.leaf i [])) (hidx : c.secondaryIndexes = [])
    (hroom : c.filePages +
      (chunks PAGE_USABLE_SPACE (Document.encode ⟨key, v⟩)).length + 2 < 2 ^ 32) :
    Post (insertDoc key v (Document.encode ⟨key, v⟩))
      (fun _ c' => c'.indexDefs = c.indexDefs ∧ c'.overlay = c.overlay ∧ c'.secondaryIndexes = [])
      (fun _ _ => False) c := by
  obtain ⟨l, m, hc, hm⟩ := h
  have hlen := length_encode key v
  rw [insertDoc, post_bind]
  refine ((insertRaw_first hc hlen (hm key) hT hroom).and (insertRaw_spec hc hlen key)).mono ?_
    fun _ _ h => h.1
  rintro res c₁ ⟨-, -, l', hch⟩
  have hidx₁ : c₁.secondaryIndexes = [] := by
    rw [hch.rest]
    exact hidx
  rw [post_bind, indexDocInSecondaries, onIndexes, post_zoom, hidx₁]
  refine ⟨?_, ?_, rfl⟩
  · show c₁.indexDefs = c.indexDefs
    rw [hch.rest]
  · show c₁.overlay = c.overlay
    rw [hch.rest]

end Collection

namespace DatabaseState

variable {db : DatabaseState} {name indexName fieldPath : String} {c : Collection} {key : Uuid}
  {v : Value} {E : Halt → DatabaseState → Prop}

theorem post_log {call : LogCall} {stamp : Hlc} {Q : Hlc → DatabaseState → Prop}
    (hnow : db.clock.nextLocal (db.readings 0) = .ok stamp)
    (hQ : Q stamp { db with
      clock := { db.clock with state := stamp }
      readings := fun n => db.readings (n + 1)
      wal := db.wal.append (.ok stamp, call) }) : Post (log call) Q E db := by
  have htick : db.tick = (.ok stamp, { db with
      clock := { db.clock with state := stamp }
      readings := fun n => db.readings (n + 1) }) := by
    simp only [tick, HlcClock.now, hnow, HlcClock.issue, Except.mapError]
  unfold Post log
  rw [htick]
  exact hQ

variable {Q : Unit → DatabaseState → Prop}

theorem post_commit {txId : UInt64} {version : Option Value} {stamp : Hlc}
    (hnow : db.clock.nextLocal (db.readings 0) = .ok stamp)
    (hwrites : db.writesSinceCheckpoint + 1 < CHECKPOINT_INTERVAL)
    (hQ : ∀ db', db'.collections = db.collections → Q () db') :
    Post (commit txId name key version) Q E db := by
  rw [commit, post_bind]
  refine post_log hnow ?_
  rw [post_bind, appendVersion, post_modify, maybeCheckpoint, post_bind, post_modify, post_bind,
    post_gets]
  split
  · next hge =>
    have hge' : db.writesSinceCheckpoint + 1 ≥ CHECKPOINT_INTERVAL := hge
    omega
  · exact hQ _ rfl

/-- An insert returns if its collection takes the document and the clock answers
twice. -/
theorem post_insert {R : Collection → Prop} (hc : db.collections.get? name = some c)
    (hins : Post (Collection.insertDoc key v (Document.encode ⟨key, v⟩))
      (fun res c' => R c' ∧ res.2.length = 1) (fun _ _ => False) c)
    {stamp stamp' : Hlc} (h₁ : db.clock.nextLocal (db.readings 0) = .ok stamp)
    (h₂ : HlcClock.nextLocal { db.clock with state := stamp } (db.readings 1) = .ok stamp')
    (hwrites : db.writesSinceCheckpoint + 1 < CHECKPOINT_INTERVAL) :
    Post (insert name key v) (fun _ db' => ∃ c', db'.collections.get? name = some c' ∧ R c')
      (fun _ _ => False) db := by
  rw [insert, post_bind, beginTx, post_bind, post_gets, post_bind, post_modify, post_pure,
    post_bind]
  refine (post_onCollection (c := c) ?_).mpr ?_
  · exact hc
  refine hins.imp ?_
  rintro ⟨location, records⟩ c' ⟨hR, hlen⟩
  obtain ⟨r, rfl⟩ := length_eq_one_iff.mp hlen
  rw [post_bind, logWrites, post_bind]
  refine post_log h₁ ?_
  rw [logWrites, post_pure]
  refine post_commit h₂ hwrites fun db' hdb' => ⟨c', ?_, hR⟩
  rw [hdb']
  exact Table.get?_insert_self

def single (name : String) (c : Collection) : DatabaseState where
  collections := Table.empty.insert name c
  wal := ⟨⟨1, 0⟩, 1, WAL_VERSION_CURRENT, walHeader⟩
  writesSinceCheckpoint := 0
  nodeId := 0
  clock := HlcClock.new none
  versions := fun _ _ => []
  activeReaders := SortedMap.empty
  readings := fun n => some (UInt64.ofNat (n + 1))

theorem new_has {d : Dir} (h : c.New d) : c.Has fun _ => none := ⟨_, _, h.holds, fun _ => rfl⟩

end DatabaseState

end Exact

/-! ### The contents of an index -/

namespace Codec

end Codec

namespace DatabaseState

variable [Crc32] {c : Collection} {v w : Value} {field : Value} {key : List UInt8}

end DatabaseState

end GrumpyDB
