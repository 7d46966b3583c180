/-
The documents of a collection as a finite map.
-/
import GrumpyDB.Room

namespace GrumpyDB

open Proc

/-- Calls on the documents of a collection. -/
inductive RawOp where
  | insertRaw (key : Uuid) (encoded : List UInt8)
  | getRaw (key : Uuid)
  | deleteRaw (key : Uuid)
  | scanRaw (start stop : Bound)

/-- What a call returns when it does not fail. -/
inductive RawReply where
  | done
  | found (encoded : Option (List UInt8))
  | docs (entries : List (Uuid × List UInt8))

def RawOp.Encodes : RawOp → Prop
  | insertRaw _ encoded => 17 ≤ encoded.length ∧ encoded.length < 2 ^ 32
  | _ => True

/-! ### The calls on either side -/

def DocMap.step : RawOp → DocMap → Except Halt RawReply × DocMap
  | .insertRaw key encoded, m =>
    if (m.get? key).isSome then (.error (.err (.duplicateKey key)), m)
    else (.ok .done, m.insert key encoded)
  | .getRaw key, m => (.ok (.found (m.get? key)), m)
  | .deleteRaw key, m =>
    if (m.get? key).isSome then (.ok .done, m.erase key)
    else (.error (.err (.keyNotFound key)), m)
  | .scanRaw start stop, m =>
    (.ok (.docs (m.entries.filter fun e => Bound.within start stop e.1)), m)

namespace Collection

variable [Crc32]

def rawCall : RawOp → Proc Halt Collection RawReply
  | .insertRaw key encoded => do
    let _ ← insertRaw key encoded
    pure .done
  | .getRaw key => do
    let encoded ← getRaw key
    pure (.found encoded)
  | .deleteRaw key => do
    let _ ← deleteRaw key
    pure .done
  | .scanRaw start stop => do
    let entries ← scanRaw start stop
    pure (.docs entries)

def rawStep (op : RawOp) (c : Collection) : Except Halt RawReply × Collection :=
  ((rawCall op c).res, (rawCall op c).st)

/-- A file of the collection has run out of page ids. -/
def OutOfPages (r : Except Halt RawReply) (c : Collection) : Prop :=
  r = .error .overflow ∧ c.Full

/-- A collection created in an empty directory answers the calls as a map that is
empty at first, up to the point where a file runs out of page ids. -/
def RunsAsMap (capacity : Nat) (ops : List RawOp) : Prop :=
  ∃ c, (openDir capacity fun _ => none).res = .ok c ∧
    AgreeUntil OutOfPages (trace rawStep ops c)
      ((trace DocMap.step ops SortedMap.empty).map Prod.fst)

/-! ### Refinement -/

def Represents (c : Collection) (m : DocMap) : Prop := ∃ l, c.Holds l m

variable {c : Collection} {m : DocMap} {op : RawOp}

theorem rawCall_refines (hr : c.Represents m) (hop : op.Encodes) :
    Post (rawCall op)
      (fun r c' => .ok r = (DocMap.step op m).1 ∧ c'.Represents (DocMap.step op m).2)
      (fun e c' => (.error e = (DocMap.step op m).1 ∧ c'.Represents (DocMap.step op m).2) ∨
        e = .overflow ∧ c'.Full) c := by
  obtain ⟨l, h⟩ := hr
  cases op with
  | insertRaw key encoded =>
    rw [rawCall, post_bind]
    refine (insertRaw_spec h hop.1 key).mono ?_ ?_
    · rintro res c' ⟨hnone, l', hc'⟩
      simp only [post_pure, DocMap.step, hnone, Option.isSome_none, Bool.false_eq_true, if_false,
        true_and]
      exact ⟨l', hc'.holds⟩
    · rintro e c' (⟨rfl, rfl, hsome⟩ | hover)
      · refine .inl ?_
        simp only [DocMap.step, hsome, if_true, true_and]
        exact ⟨l, h⟩
      · exact .inr hover
  | getRaw key =>
    rw [rawCall, post_bind]
    refine (getRaw_spec h key).imp ?_
    rintro encoded c' ⟨rfl, hc'⟩
    exact ⟨rfl, l, hc'.holds⟩
  | deleteRaw key =>
    rw [rawCall, post_bind]
    refine (deleteRaw_spec h key).mono ?_ ?_
    · rintro records c' ⟨hsome, l', hc'⟩
      simp only [post_pure, DocMap.step, hsome, if_true, true_and]
      exact ⟨l', hc'.holds⟩
    · rintro e c' ⟨rfl, rfl, hnone⟩
      refine .inl ?_
      simp only [DocMap.step, hnone, Option.isSome_none, Bool.false_eq_true, if_false, true_and]
      exact ⟨l, h⟩
  | scanRaw start stop =>
    rw [rawCall, post_bind]
    refine (scanRaw_spec h start stop).imp ?_
    rintro entries c' ⟨rfl, hc'⟩
    exact ⟨rfl, l, hc'.holds⟩

theorem rawStep_refines (hr : c.Represents m) (hop : op.Encodes) :
    ((rawStep op c).1 = (DocMap.step op m).1 ∧
      (rawStep op c).2.Represents (DocMap.step op m).2) ∨
        OutOfPages (rawStep op c).1 (rawStep op c).2 := by
  refine Post.run (C := fun r c' => (r = (DocMap.step op m).1 ∧
    c'.Represents (DocMap.step op m).2) ∨ OutOfPages r c') ?_
  refine (rawCall_refines hr hop).mono (fun _ _ => .inl) fun e c' h => ?_
  exact h.imp_right fun ⟨he, hfull⟩ => ⟨by rw [he], hfull⟩

/-- **A collection is a finite map.**  Created in an empty directory, with frames for
at least one page, it answers every sequence of calls as the map does. -/
theorem collection_refines_map (capacity : Nat) (hcap : 1 ≤ capacity) (ops : List RawOp)
    (hops : ∀ op ∈ ops, op.Encodes) : RunsAsMap capacity ops := by
  obtain ⟨c, hopen, hnew⟩ := (openDir_new (d := fun _ => none) hcap rfl
    rfl).exists_ok
  have hempty : c.Represents SortedMap.empty := ⟨_, hnew.holds⟩
  refine ⟨c, hopen, trace_refine (fun op c m hop hr => ?_) hops hempty⟩
  exact rawStep_refines hr hop

omit [Crc32] in
theorem collection_refines_map_one_frame : ∃ _ : Crc32, RunsAsMap 1
    [.insertRaw Uuid.nil (List.replicate 17 0), .insertRaw Uuid.nil (List.replicate 20 1),
      .getRaw Uuid.nil, .scanRaw (.included Uuid.nil) .unbounded, .deleteRaw Uuid.nil] := by
  let crc : Crc32 := ⟨fun _ => 0⟩
  refine ⟨crc, collection_refines_map 1 le_rfl _ ?_⟩
  simp [RawOp.Encodes]

end Collection

end GrumpyDB
