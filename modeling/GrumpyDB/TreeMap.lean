/-
The tree as a map.

What a B+tree is for, said without pages (`PartialMap K`). A tree refines it, up to a call that
would need page 2^32 of the file and fails with `Halt.overflow`.
-/
import GrumpyDB.Open
import GrumpyDB.Lib.Refine
import Mathlib.Data.Set.Card

namespace GrumpyDB

open BTreeKey Proc List Function

abbrev Location := UInt32 × UInt16

inductive TreeOp (K : Type) where
  | insert (key : K) (pageId : UInt32) (slotId : UInt16)
  | delete (key : K)
  | search (key : K)
  | len

/-- What a call returns when it does not fail. -/
inductive TreeReply where
  | done
  | found (location : Option Location)
  | count (n : Nat)
  deriving DecidableEq

def TreeOp.key? {K : Type} : TreeOp K → Option K
  | insert key _ _ => some key
  | delete key => some key
  | search key => some key
  | len => none

section TreeMap

variable {K : Type} [LinearOrder K] [BTreeKey K]

/-! ### Maps -/

abbrev PartialMap (K : Type) := K → Option Location

open Classical in
noncomputable def PartialMap.step : TreeOp K → PartialMap K →
    Except Halt TreeReply × PartialMap K
  | .insert key pageId slotId, m =>
    if (m key).isSome then (.error (.err (duplicateKeyError key)), m)
    else (.ok .done, Function.update m key (some (pageId, slotId)))
  | .delete key, m =>
    if (m key).isSome then (.ok .done, Function.update m key none)
    else (.error (.err (keyNotFoundError key)), m)
  | .search key, m => (.ok (.found (m key)), m)
  | .len, m => (.ok (.count (Set.ncard {key | (m key).isSome})), m)

/-! ### Trees -/

variable [Crc32]

def BTree.call : TreeOp K → Proc Halt (BTree K) TreeReply
  | .insert key pageId slotId => do
    BTree.insert key pageId slotId
    pure .done
  | .delete key => do
    BTree.delete key
    pure .done
  | .search key => do
    let r ← BTree.search key
    pure (.found r)
  | .len => do
    let t ← get
    pure (.count t.len)

def BTree.step (op : TreeOp K) (t : BTree K) : Except Halt TreeReply × BTree K :=
  ((BTree.call op t).res, (BTree.call op t).st)

def BTree.OutOfPages (r : Except Halt TreeReply) (t : BTree K) : Prop :=
  r = .error .overflow ∧ t.Full

/-! ### Refinement -/

section Lookup

omit [BTreeKey K] [Crc32]

variable {a b es : List (LeafEntry K)} {e : LeafEntry K}

theorem lookup_of_ne {k : K} (h : k ≠ e.key) : lookup (a ++ e :: b) k = lookup (a ++ b) k := by
  simp [lookup, h.symm]

theorem lookup_insert (ha : ∀ x ∈ a, x.key < e.key) :
    lookup (a ++ e :: b) = Function.update (lookup (a ++ b)) e.key (some (e.pageId, e.slotId)) := by
  funext k
  by_cases hk : k = e.key
  · rw [hk, update_self, lookup_found ha]
  · rw [update_of_ne hk, lookup_of_ne hk]

theorem lookup_erase (ha : ∀ x ∈ a, x.key < e.key) (hb : ∀ x ∈ b, e.key < x.key) :
    lookup (a ++ b) = Function.update (lookup (a ++ e :: b)) e.key none := by
  funext k
  by_cases hk : k = e.key
  · rw [hk, update_self, lookup_missing ha hb]
  · rw [update_of_ne hk, lookup_of_ne hk]

theorem isSome_lookup_iff {k : K} : (lookup es k).isSome ↔ ∃ e ∈ es, e.key = k := by
  simp [lookup]

theorem ncard_lookup (hs : es.Pairwise fun x y => x.key < y.key) :
    Set.ncard {k | (lookup es k).isSome} = es.length := by
  have hnodup : (es.map LeafEntry.key).Nodup := by
    rw [List.Nodup, pairwise_map]
    exact hs.imp fun h => h.ne
  have hset : {k | (lookup es k).isSome} = ((es.map LeafEntry.key).toFinset : Set K) := by
    simp [isSome_lookup_iff]
  rw [hset, Set.ncard_coe_finset, toFinset_card_of_nodup hnodup, length_map]

end Lookup

def BTree.Represents (cfg : Config K) (t : BTree K) (m : PartialMap K) : Prop :=
  ∃ es, t.Inv es ∧ t.info.config = cfg ∧ lookup es = m

variable {cfg : Config K} {t : BTree K} {m : PartialMap K}

theorem BTree.call_refines (hr : t.Represents cfg m) {op : TreeOp K}
    (hfit : ∀ k pageId slotId, op = .insert k pageId slotId → Fits cfg k) :
    Post (BTree.call op)
      (fun r t' => .ok r = (m.step op).1 ∧ t'.Represents cfg (m.step op).2)
      (fun e t' => (.error e = (m.step op).1 ∧ t'.Represents cfg (m.step op).2) ∨
        e = .overflow ∧ t'.Full) t := by
  obtain ⟨es, hi, rfl, rfl⟩ := hr
  cases op with
  | insert key pageId slotId =>
    rw [BTree.call, post_bind]
    refine (BTree.insert_spec hi (hfit key _ _ rfl) pageId slotId).mono ?_ ?_
    · rintro - t' ⟨a, b, rfl, ha, hb, hi', hcfg⟩
      have hnone : lookup (a ++ b) key = none := lookup_missing ha hb
      simp only [post_pure, PartialMap.step, hnone, Option.isSome_none, Bool.false_eq_true,
        if_false, true_and]
      exact ⟨_, hi', hcfg, lookup_insert ha⟩
    · rintro e t' (⟨rfl, rfl, hsome⟩ | hover)
      · refine .inl ?_
        simp only [PartialMap.step, hsome, if_true, true_and]
        exact ⟨es, hi, rfl, rfl⟩
      · exact .inr hover
  | delete key =>
    rw [BTree.call, post_bind]
    refine (BTree.delete_spec hi key).mono ?_ ?_
    · rintro - t' ⟨a, e, b, rfl, rfl, hi', hcfg⟩
      have hs := hi.sorted
      obtain ⟨-, hs', hlt⟩ := pairwise_append.mp hs
      have ha : ∀ x ∈ a, x.key < e.key := fun x hx => hlt x hx e (by simp)
      have hb : ∀ x ∈ b, e.key < x.key := (pairwise_cons.mp hs').1
      simp only [post_pure, PartialMap.step, lookup_found ha, Option.isSome_some, if_true, true_and]
      exact ⟨_, hi', hcfg, lookup_erase ha hb⟩
    · rintro e t' ⟨rfl, rfl, hnone⟩
      refine .inl ?_
      simp only [PartialMap.step, hnone, Option.isSome_none, Bool.false_eq_true, if_false, true_and]
      exact ⟨es, hi, rfl, rfl⟩
  | search key =>
    rw [BTree.call, post_bind]
    refine (BTree.search_spec hi key).imp ?_
    rintro r t' ⟨rfl, rfl⟩
    exact ⟨rfl, es, hi, rfl, rfl⟩
  | len =>
    rw [BTree.call, post_bind]
    refine ⟨?_, es, hi, rfl, rfl⟩
    simp only [PartialMap.step, BTree.len]
    rw [ncard_lookup hi.sorted, hi.numEntries]

theorem BTree.step_refines (hr : t.Represents cfg m) {op : TreeOp K}
    (hfit : ∀ k ∈ op.key?, Fits cfg k) :
    ((BTree.step op t).1 = (m.step op).1 ∧
      (BTree.step op t).2.Represents cfg (m.step op).2) ∨
        BTree.OutOfPages (BTree.step op t).1 (BTree.step op t).2 := by
  refine Post.run (C := fun r t' =>
    (r = (m.step op).1 ∧ t'.Represents cfg (m.step op).2) ∨ BTree.OutOfPages r t') ?_
  have hinsert : ∀ k pageId slotId, op = .insert k pageId slotId → Fits cfg k := by
    rintro k pageId slotId rfl
    exact hfit k rfl
  refine (BTree.call_refines hr hinsert).mono (fun _ _ => .inl) fun e t' h => ?_
  exact h.imp_right fun ⟨he, hfull⟩ => ⟨by rw [he], hfull⟩

/-- A tree made on the file is made without an error, and answers the calls as
a map that is empty at first, up to the point where it runs out of page ids. -/
def RunsAsMap (cfg : Config K) (f : Option File) (ops : List (TreeOp K)) : Prop :=
  ∃ t, (BTree.createWith cfg f).res = .ok t ∧
    AgreeUntil BTree.OutOfPages (trace BTree.step ops t)
      ((trace PartialMap.step ops fun _ => none).map Prod.fst)

theorem BTree.runsAsMap (hv : Valid cfg) {f : Option File} (hf : f.getD [] = [])
    {ops : List (TreeOp K)} (hops : ∀ op ∈ ops, ∀ k ∈ op.key?, Fits cfg k) :
    RunsAsMap cfg f ops := by
  have hnew : ∃ t, (BTree.createWith cfg f).res = .ok t ∧ t.Inv [] ∧ t.info.config = cfg :=
    Post.run (C := fun r _ => ∃ t, r = .ok t ∧ t.Inv [] ∧ t.info.config = cfg)
      ((BTree.createWith_spec hv hf).imp fun t _ h => ⟨t, rfl, h.1, h.2.1⟩)
  obtain ⟨t, ht, hi, hcfg⟩ := hnew
  refine ⟨t, ht, trace_refine (fun op t m hop hr => BTree.step_refines hr hop) hops ?_⟩
  exact ⟨[], hi, hcfg, rfl⟩

end TreeMap

/-- **A B+tree is a map.**  With document keys, and with byte strings of at
most `maxKeySize` bytes, a tree made on a file that is missing or empty answers
every sequence of calls as the map does. -/
theorem btree_refines_map [Crc32] (f : Option File) (hf : f.getD [] = []) :
    (∀ ops : List (TreeOp Uuid), RunsAsMap (K := Uuid) () f ops) ∧
      ∀ (maxKeySize : UInt16) (ops : List (TreeOp (List UInt8))),
        maxKeySize.toNat ≤ VAR_KEY_MAX_SIZE →
        (∀ op ∈ ops, ∀ k ∈ op.key?, k.length ≤ maxKeySize.toNat) →
        RunsAsMap (K := List UInt8) maxKeySize f ops := by
  refine ⟨fun ops => BTree.runsAsMap trivial hf fun _ _ _ _ => trivial,
    fun maxKeySize ops hm hops => ?_⟩
  exact BTree.runsAsMap hm hf hops

theorem btree_refines_map_new_file : ∃ _ : Crc32, ∃ key : Uuid,
    RunsAsMap (K := Uuid) () none [.insert key 1 0, .insert key 2 0, .search key, .len] ∧
    RunsAsMap (K := List UInt8) (4 : UInt16) none
      [.insert [1, 2] 1 0, .search [1], .delete [1, 2], .delete [1, 2, 3, 4], .len] := by
  let crc : Crc32 := ⟨fun _ => 0⟩
  have h := btree_refines_map none rfl
  refine ⟨crc, ⟨replicate 16 7, rfl⟩, h.1 _, h.2 4 _ (by decide) ?_⟩
  simp [TreeOp.key?]

end GrumpyDB
