/-
Following references.

`resolveDeep` keeps one set of references that it has met, and never takes it back: one that is
met for the second time is reported as a cycle, also beside the first one and not below it.
-/
import GrumpyDB.Snapshot
import GrumpyDB.CodecLimits

namespace GrumpyDB

open Proc List

/-- The collection and the key that a reference names. -/
abbrev RefKey := String × Uuid

namespace DatabaseState

/-! ### The traversal -/

section Resolve

variable [Crc32]

mutual

/-- Resolve the references of a value; `next` resolves the documents they name. -/
def resolveIn (next : Value → List RefKey → Proc Halt DatabaseState (Value × List RefKey)) :
    Value → List RefKey → Proc Halt DatabaseState (Value × List RefKey)
  | .ref collection id, visited =>
    if (collection, id) ∈ visited then fail (.err .cyclicReference)
    else do
      match ← get collection id with
      | some target => next target ((collection, id) :: visited)
      -- The target was not found: the reference stays as it is.
      | none => pure (.ref collection id, (collection, id) :: visited)
  | .object fields, visited => do
    let (resolved, visited) ← resolveFields next fields visited
    pure (.object resolved, visited)
  | .array items, visited => do
    let (resolved, visited) ← resolveItems next items visited
    pure (.array resolved, visited)
  | value, visited => pure (value, visited)

def resolveItems (next : Value → List RefKey → Proc Halt DatabaseState (Value × List RefKey)) :
    List Value → List RefKey → Proc Halt DatabaseState (List Value × List RefKey)
  | [], visited => pure ([], visited)
  | v :: items, visited => do
    let (v, visited) ← resolveIn next v visited
    let (items, visited) ← resolveItems next items visited
    pure (v :: items, visited)

def resolveFields (next : Value → List RefKey → Proc Halt DatabaseState (Value × List RefKey)) :
    List (String × Value) → List RefKey →
      Proc Halt DatabaseState (List (String × Value) × List RefKey)
  | [], visited => pure ([], visited)
  | (k, v) :: fields, visited => do
    let (v, visited) ← resolveIn next v visited
    let (fields, visited) ← resolveFields next fields visited
    pure ((k, v) :: fields, visited)

end

/-- Resolve a value with `left` levels to go; the depth of the source is
`maxDepth + 1 - left`. -/
def resolveRecursive : Nat → Value → List RefKey → Proc Halt DatabaseState (Value × List RefKey)
  | 0, value, visited => pure (value, visited)
  | left + 1, value, visited => resolveIn (resolveRecursive left) value visited

def resolveDeep (value : Value) (maxDepth : Nat) : Proc Halt DatabaseState Value := do
  let (resolved, _) ← resolveRecursive (maxDepth + 1) value []
  pure resolved

end Resolve

/-! ### What it is for -/

mutual

def refsOf : Value → List RefKey
  | .ref collection id => [(collection, id)]
  | .object fields => refsOfFields fields
  | .array items => refsOfItems items
  | _ => []

def refsOfItems : List Value → List RefKey
  | [] => []
  | v :: items => refsOf v ++ refsOfItems items

def refsOfFields : List (String × Value) → List RefKey
  | [] => []
  | (_, v) :: fields => refsOf v ++ refsOfFields fields

end

mutual

def mapRefs (f : RefKey → Value) : Value → Value
  | .ref collection id => f (collection, id)
  | .object fields => .object (mapRefsFields f fields)
  | .array items => .array (mapRefsItems f items)
  | value => value

def mapRefsItems (f : RefKey → Value) : List Value → List Value
  | [] => []
  | v :: items => mapRefs f v :: mapRefsItems f items

def mapRefsFields (f : RefKey → Value) : List (String × Value) → List (String × Value)
  | [] => []
  | (k, v) :: fields => (k, mapRefs f v) :: mapRefsFields f fields

end

/-- The documents of the collections, as they are stored. -/
abbrev Content := String → Option DocMap

namespace Content

variable (content : Content)

def lookup (r : RefKey) : Except GrumpyError (Option Value) :=
  match content r.1 with
  | none => .error (.collectionNotFound r.1)
  | some m =>
    match m.get? r.2 with
    | none => .ok none
    | some raw =>
      match Document.decode raw with
      | .ok doc => .ok (if isTombstone doc.value then none else some doc.value)
      | .error e => .error e

/-- The document that a reference names, if there is one. -/
def target (r : RefKey) : Option Value :=
  match content.lookup r with
  | .ok v => v
  | .error _ => none

/-- The value in which each reference within `left` levels is replaced by its
target, and kept if it has none. -/
def unfold : Nat → Value → Value
  | 0, v => v
  | left + 1, v => mapRefs (fun r =>
      match content.target r with
      | some t => unfold left t
      | none => .ref r.1 r.2) v

/-- The references within `left` levels, in the order of the traversal. -/
def reached : Nat → Value → List RefKey
  | 0, _ => []
  | left + 1, v => (refsOf v).flatMap fun r =>
      r :: match content.target r with
        | some t => reached left t
        | none => []

def replacement (left : Nat) (r : RefKey) : Value :=
  match content.target r with
  | some t => content.unfold left t
  | none => .ref r.1 r.2

def below (left : Nat) (r : RefKey) : List RefKey :=
  r :: match content.target r with
    | some t => content.reached left t
    | none => []

/-- A path of references within `left` levels, each in the document of the one before. -/
inductive RefPath : Nat → Value → List RefKey → Prop
  | last {left : Nat} {v : Value} {r : RefKey} (hr : r ∈ refsOf v) : RefPath (left + 1) v [r]
  | cons {left : Nat} {v t : Value} {r : RefKey} {path : List RefKey} (hr : r ∈ refsOf v)
      (ht : content.target r = some t) (hpath : RefPath left t path) :
      RefPath (left + 1) v (r :: path)

/-- Some reference is reached again while it is being resolved. -/
def OnCycle (left : Nat) (v : Value) : Prop := ∃ path, content.RefPath left v path ∧ ¬ path.Nodup

end Content

/-! ### The order of the references decides -/

section Traversal

variable (content : Content)

/-- Meet references one after the other: the first one that was met before or
that cannot be looked up ends it. -/
def meet : List RefKey → List RefKey → Except Halt (List RefKey)
  | visited, [] => .ok visited
  | visited, r :: rs =>
    if r ∈ visited then .error (.err .cyclicReference)
    else
      match content.lookup r with
      | .error e => .error (.err e)
      | .ok _ => meet (r :: visited) rs

theorem meet_append (visited rs rs' : List RefKey) :
    meet content visited (rs ++ rs') =
      match meet content visited rs with
      | .error e => .error e
      | .ok visited' => meet content visited' rs' := by
  induction rs generalizing visited with
  | nil => rfl
  | cons r rs ih =>
    rw [cons_append, meet, meet]
    split
    · rfl
    · split
      · rfl
      · exact ih _

variable [Crc32]

def HasContent (db : DatabaseState) : Prop := ∀ name,
  match content name with
  | none => db.collections.get? name = none
  | some m => ∃ c l, db.collections.get? name = some c ∧ Collection.Holds c l m

variable {content} {db : DatabaseState}

theorem get_spec (h : HasContent content db) (collection : String) (key : Uuid) :
    Post (get collection key)
      (fun v db' => content.lookup (collection, key) = .ok v ∧ HasContent content db')
      (fun e _ => ∃ x, e = .err x ∧ content.lookup (collection, key) = .error x) db := by
  have hname := h collection
  rw [get, post_bind, getIncludingTombstone, post_bind]
  split at hname
  · rename_i hnone
    unfold Post onCollection
    rw [hname]
    exact ⟨_, rfl, by simp only [Content.lookup, hnone]⟩
  · rename_i m hm
    obtain ⟨c, l, hc, hholds⟩ := hname
    rw [post_onCollection hc]
    refine (Collection.getRaw_spec hholds key).imp ?_
    rintro raw c' ⟨rfl, hseen⟩
    -- The collection holds what it held; the others are not touched.
    have hcontent : HasContent content
        { db with collections := db.collections.insert collection c' } := by
      intro other
      by_cases hother : other = collection
      · subst hother
        rw [hm]
        exact ⟨c', l, Table.get?_insert_self, hseen.holds⟩
      · have := h other
        rwa [← Table.get?_insert_ne hother] at this
    rcases hraw : m.get? key with _ | raw
    · exact ⟨by simp [Content.lookup, hm, hraw], hcontent⟩
    · rw [post_bind]
      rcases hdoc : Document.decode raw with x | doc
      · exact ⟨x, rfl, by simp only [Content.lookup, hm, hraw, hdoc]⟩
      · refine ⟨?_, hcontent⟩
        show _ = Except.ok (Option.filter _ (some doc.value))
        simp only [Content.lookup, hm, hraw, hdoc, Option.filter_some]
        by_cases ht : isTombstone doc.value <;> simp [ht]

/-- The traversal gives `a` and meets the references `rs`, or ends as they end. -/
def Traverses {α : Type} (content : Content) (x : Proc Halt DatabaseState (α × List RefKey))
    (a : α) (visited rs : List RefKey) : Prop :=
  ∀ db, HasContent content db → Post x
    (fun res db' => res.1 = a ∧ meet content visited rs = .ok res.2 ∧ HasContent content db')
    (fun e _ => meet content visited rs = .error e) db

theorem Traverses.pure {α : Type} (a : α) (visited : List RefKey) :
    Traverses content (Pure.pure (a, visited)) a visited [] := fun _ hdb => ⟨rfl, rfl, hdb⟩

theorem Traverses.bind {α β : Type} {x : Proc Halt DatabaseState (α × List RefKey)}
    {f : α × List RefKey → Proc Halt DatabaseState (β × List RefKey)} {a : α} {b : β}
    {visited rs rs' : List RefKey} (hx : Traverses content x a visited rs)
    (hf : ∀ visited', Traverses content (f (a, visited')) b visited' rs') :
    Traverses content (x >>= f) b visited (rs ++ rs') := by
  intro db hdb
  rw [post_bind, meet_append]
  refine (hx db hdb).mono ?_ fun e _ he => ?_
  · rintro ⟨a', visited'⟩ db' ⟨rfl, hmeet, hdb'⟩
    rw [hmeet]
    exact hf visited' db' hdb'
  · rw [he]

section Levels

variable {left : Nat} {next : Value → List RefKey → Proc Halt DatabaseState (Value × List RefKey)}

theorem traverses_ref
    (hnext : ∀ t visited, Traverses content (next t visited) (content.unfold left t) visited
      (content.reached left t)) (collection : String) (key : Uuid) (visited : List RefKey) :
    Traverses content (resolveIn next (.ref collection key) visited)
      (content.replacement left (collection, key)) visited
      (content.below left (collection, key)) := by
  intro db hdb
  rw [resolveIn]
  split
  · rename_i hmem
    show meet content visited _ = _
    rw [Content.below, meet, if_pos hmem]
  · rename_i hmem
    rw [post_bind]
    refine (get_spec hdb collection key).mono ?_ ?_
    · rintro v db' ⟨hlook, hdb'⟩
      have htarget : content.target (collection, key) = v := by rw [Content.target, hlook]
      rw [Content.below, Content.replacement, htarget, meet, if_neg hmem, hlook]
      rcases v with _ | t
      · exact ⟨rfl, rfl, hdb'⟩
      · exact hnext t _ db' hdb'
    · rintro e db' ⟨x, rfl, hlook⟩
      rw [Content.below, meet, if_neg hmem, hlook]

mutual

theorem traverses_resolveIn
    (hnext : ∀ t visited, Traverses content (next t visited) (content.unfold left t) visited
      (content.reached left t)) : ∀ (v : Value) (visited : List RefKey),
    Traverses content (resolveIn next v visited) (mapRefs (content.replacement left) v) visited
      ((refsOf v).flatMap (content.below left))
  | .ref collection key, visited => by
    rw [refsOf, List.flatMap_singleton, mapRefs]
    exact traverses_ref hnext collection key visited
  | .object fields, visited => by
    rw [refsOf, mapRefs, resolveIn, ← List.append_nil (List.flatMap _ _)]
    exact (traverses_resolveFields hnext fields visited).bind fun visited' =>
      Traverses.pure _ visited'
  | .array items, visited => by
    rw [refsOf, mapRefs, resolveIn, ← List.append_nil (List.flatMap _ _)]
    exact (traverses_resolveItems hnext items visited).bind fun visited' =>
      Traverses.pure _ visited'
  | .null, visited | .bool _, visited | .integer _, visited | .float _, visited
  | .string _, visited | .bytes _, visited | .tombstone _ _, visited | .crdt _ _, visited => by
    rw [refsOf, mapRefs, resolveIn]
    · exact Traverses.pure _ visited
    all_goals exact nofun

theorem traverses_resolveItems
    (hnext : ∀ t visited, Traverses content (next t visited) (content.unfold left t) visited
      (content.reached left t)) : ∀ (items : List Value) (visited : List RefKey),
    Traverses content (resolveItems next items visited)
      (mapRefsItems (content.replacement left) items) visited
      ((refsOfItems items).flatMap (content.below left))
  | [], visited => by
    rw [refsOfItems, mapRefsItems, resolveItems]
    exact Traverses.pure _ visited
  | v :: items, visited => by
    rw [refsOfItems, mapRefsItems, resolveItems, List.flatMap_append]
    refine (traverses_resolveIn hnext v visited).bind fun visited' => ?_
    rw [← List.append_nil (List.flatMap _ _)]
    exact (traverses_resolveItems hnext items visited').bind fun visited'' =>
      Traverses.pure _ visited''

theorem traverses_resolveFields
    (hnext : ∀ t visited, Traverses content (next t visited) (content.unfold left t) visited
      (content.reached left t)) : ∀ (fields : List (String × Value)) (visited : List RefKey),
    Traverses content (resolveFields next fields visited)
      (mapRefsFields (content.replacement left) fields) visited
      ((refsOfFields fields).flatMap (content.below left))
  | [], visited => by
    rw [refsOfFields, mapRefsFields, resolveFields]
    exact Traverses.pure _ visited
  | (k, v) :: fields, visited => by
    rw [refsOfFields, mapRefsFields, resolveFields, List.flatMap_append]
    refine (traverses_resolveIn hnext v visited).bind fun visited' => ?_
    rw [← List.append_nil (List.flatMap _ _)]
    exact (traverses_resolveFields hnext fields visited').bind fun visited'' =>
      Traverses.pure _ visited''

end

theorem traverses_resolveRecursive (left : Nat) (v : Value) (visited : List RefKey) :
    Traverses content (resolveRecursive left v visited) (content.unfold left v) visited
      (content.reached left v) := by
  induction left generalizing v visited with
  | zero => exact Traverses.pure v visited
  | succ left ih => exact traverses_resolveIn ih v visited

end Levels

end Traversal

/-- How the references are met: all of them, each once and with an answer, or up
to the first one that was met before or that cannot be looked up. -/
theorem meet_cases (content : Content) {visited : List RefKey} (hv : visited.Nodup)
    (rs : List RefKey) :
    (∃ visited', meet content visited rs = .ok visited' ∧ (rs.reverse ++ visited).Nodup ∧
      ∀ r ∈ rs, ∃ v, content.lookup r = .ok v) ∨
    ∃ pre r post, rs = pre ++ r :: post ∧ (pre.reverse ++ visited).Nodup ∧
      (∀ q ∈ pre, ∃ v, content.lookup q = .ok v) ∧
      ((r ∈ pre.reverse ++ visited ∧ meet content visited rs = .error (.err .cyclicReference)) ∨
        (r ∉ pre.reverse ++ visited ∧ ∃ x, content.lookup r = .error x ∧
          meet content visited rs = .error (.err x))) := by
  induction rs generalizing visited with
  | nil => exact .inl ⟨visited, rfl, hv, nofun⟩
  | cons r rs ih =>
    by_cases hmem : r ∈ visited
    · exact .inr ⟨[], r, rs, rfl, hv, nofun, .inl ⟨hmem, by rw [meet, if_pos hmem]⟩⟩
    · rcases hlook : content.lookup r with x | v
      · refine .inr ⟨[], r, rs, rfl, hv, nofun, .inr ⟨hmem, x, hlook, ?_⟩⟩
        rw [meet, if_neg hmem, hlook]
      · have hstep : meet content visited (r :: rs) = meet content (r :: visited) rs := by
          rw [meet, if_neg hmem, hlook]
        have hlist :
          ∀ l : List RefKey, (r :: l).reverse ++ visited = l.reverse ++ r :: visited := by
          simp
        rcases ih (nodup_cons.mpr ⟨hmem, hv⟩) with ⟨visited', hmeet, hnodup, hall⟩ |
          ⟨pre, q, post, rfl, hnodup, hall, hq⟩
        · refine .inl ⟨visited', by rw [hstep, hmeet], by rw [hlist]; exact hnodup, ?_⟩
          exact forall_mem_cons.mpr ⟨⟨v, hlook⟩, hall⟩
        · refine .inr ⟨r :: pre, q, post, rfl, by rw [hlist]; exact hnodup,
            forall_mem_cons.mpr ⟨⟨v, hlook⟩, hall⟩, ?_⟩
          rw [hlist, hstep]
          exact hq

theorem lookup_ne_cyclic {content : Content} {r : RefKey} {x : GrumpyError}
    (h : content.lookup r = .error x) : x ≠ .cyclicReference := by
  unfold Content.lookup at h
  split at h
  · cases h
    exact nofun
  · split at h
    · cases h
    · split at h
      · cases h
      · rename_i hdoc
        cases h
        obtain ⟨msg, rfl⟩ := Document.decode_error hdoc
        exact nofun

/-! ### Deep resolution -/

section Deep

variable [Crc32] {db : DatabaseState} {content : Content}

/-- A cycle is reported only where there is one, and otherwise the unfolded value
is returned. -/
def ResolvesDeep (db : DatabaseState) (content : Content) (value : Value) (maxDepth : Nat) : Prop :=
  ((resolveDeep value maxDepth db).res = .error (.err .cyclicReference) →
    content.OnCycle (maxDepth + 1) value) ∧
  ((resolveDeep value maxDepth db).res ≠ .error (.err .cyclicReference) →
    (resolveDeep value maxDepth db).res = .ok (content.unfold (maxDepth + 1) value))

/-- Every reference can be looked up that is met before one is met again. -/
def Found (content : Content) (rs : List RefKey) : Prop :=
  ∀ pre r post, rs = pre ++ r :: post → (pre ++ [r]).Nodup → ∃ v, content.lookup r = .ok v

theorem resolveDeep_res (h : HasContent content db) (value : Value) (maxDepth : Nat) :
    (resolveDeep value maxDepth db).res =
      match meet content [] (content.reached (maxDepth + 1) value) with
      | .ok _ => .ok (content.unfold (maxDepth + 1) value)
      | .error e => .error e := by
  have hrun := traverses_resolveRecursive (maxDepth + 1) value [] db h
  have hpost : Post (resolveDeep value maxDepth) (fun v _ =>
      (∃ visited, meet content [] (content.reached (maxDepth + 1) value) = .ok visited) ∧
        v = content.unfold (maxDepth + 1) value)
      (fun e _ => meet content [] (content.reached (maxDepth + 1) value) = .error e) db := by
    rw [resolveDeep, post_bind]
    refine hrun.imp ?_
    rintro ⟨v, visited⟩ db' ⟨rfl, hmeet, -⟩
    exact ⟨⟨visited, hmeet⟩, rfl⟩
  rcases hres : (resolveDeep value maxDepth db).res with e | v
  · rw [hpost.of_error hres]
  · obtain ⟨⟨visited, hmeet⟩, rfl⟩ := hpost.of_ok hres
    rw [hmeet]

omit [Crc32] in
theorem mem_of_nodup_before {pre post pre' post' : List RefKey} {r r' : RefKey} (hmem : r ∈ pre)
    (h : pre ++ r :: post = pre' ++ r' :: post') (hnodup : (pre' ++ [r']).Nodup) : r' ∈ pre := by
  rcases append_eq_append_iff.mp h with ⟨l, rfl, hl⟩ | ⟨l, rfl, hl⟩
  · -- The prefix without repetitions reaches past the repeated reference.
    have hr : r ∈ l ++ [r'] := by
      rcases l with _ | ⟨q, l⟩ <;> simp_all
    rw [append_assoc, nodup_append] at hnodup
    exact absurd rfl (hnodup.2.2 r hmem r hr)
  · rcases l with _ | ⟨q, l⟩
    · obtain ⟨rfl, -⟩ := cons.inj hl
      exact hmem
    · obtain ⟨rfl, -⟩ := cons.inj hl
      simp

/-- **Deep resolution** does what it should exactly if the references that are met
before one is met again can all be looked up and, where one is met again, there
is a cycle. -/
theorem resolve_deep_iff (h : HasContent content db) (value : Value) (maxDepth : Nat) :
    ResolvesDeep db content value maxDepth ↔
      Found content (content.reached (maxDepth + 1) value) ∧
      ((content.reached (maxDepth + 1) value).Nodup ∨ content.OnCycle (maxDepth + 1) value) := by
  set rs := content.reached (maxDepth + 1) value with hrs
  have hres := resolveDeep_res h value maxDepth
  unfold ResolvesDeep
  rcases meet_cases content nodup_nil rs with ⟨visited, hmeet, hnodup, hall⟩ |
    ⟨pre, r, post, hsplit, hnodup, hall, hlast⟩
  · -- Every reference is met once.
    rw [hmeet] at hres
    rw [append_nil, nodup_reverse] at hnodup
    rw [hres]
    refine ⟨fun _ => ⟨fun pre r post hr _ => hall r ?_, .inl hnodup⟩,
      fun _ => ⟨nofun, fun _ => rfl⟩⟩
    rw [hr]
    simp
  · rw [append_nil, nodup_reverse] at hnodup
    rw [append_nil, mem_reverse] at hlast
    rcases hlast with ⟨hmem, hmeet⟩ | ⟨hmem, x, hlook, hmeet⟩
    · -- A reference is met again.
      rw [hmeet] at hres
      rw [hres]
      have hdup : ¬ rs.Nodup := by
        rw [hsplit, nodup_append]
        exact fun hn => hn.2.2 r hmem r mem_cons_self rfl
      refine ⟨fun hprop => ⟨?_, .inr (hprop.1 rfl)⟩, fun hcond => ⟨fun _ => ?_, fun hne => ?_⟩⟩
      · intro pre' r' post' hsplit' hnodup'
        exact hall r' (mem_of_nodup_before hmem (hsplit.symm.trans hsplit') hnodup')
      · exact hcond.2.resolve_left hdup
      · exact absurd rfl hne
    · -- A reference cannot be looked up.
      rw [hmeet] at hres
      rw [hres]
      have hne : (Except.error (.err x) : Except Halt Value) ≠ .error (.err .cyclicReference) := by
        intro he
        cases he
        exact lookup_ne_cyclic hlook rfl
      refine ⟨fun hprop => absurd (hprop.2 hne) nofun, fun hcond => ?_⟩
      have hnew : (pre ++ [r]).Nodup := by
        rw [nodup_append]
        refine ⟨hnodup, nodup_singleton r, fun a ha b hb => ?_⟩
        rw [mem_singleton.mp hb]
        exact fun he => hmem (he ▸ ha)
      obtain ⟨v, hv⟩ := hcond.1 pre r post hsplit hnew
      rw [hlook] at hv
      cases hv

def Content.only (m : DocMap) : Content := fun name => if name = "c" then some m else none

theorem single_hasContent {c : Collection} {l : Layout} {m : DocMap} (hm : c.Holds l m) :
    HasContent (Content.only m) (single "c" c) := by
  intro name
  by_cases hname : name = "c"
  · subst hname
    exact ⟨c, l, Table.get?_insert_self, hm⟩
  · simp only [Content.only, if_neg hname]
    show (Table.empty.insert "c" c).get? name = none
    rw [Table.get?_insert_ne hname]
    rfl

end Deep

theorem lookup_only {m : DocMap} (hm : ∀ k, m.get? k =
    (Function.update (fun _ => none) Uuid.nil (some (.bool true)) k).map
      fun v => Document.encode ⟨k, v⟩) :
    (Content.only m).lookup ("c", Uuid.nil) = .ok (some (.bool true)) := by
  simp only [Content.lookup, Content.only, if_true, hm]
  rfl

theorem target_only {m : DocMap} (hm : ∀ k, m.get? k =
    (Function.update (fun _ => none) Uuid.nil (some (.bool true)) k).map
      fun v => Document.encode ⟨k, v⟩) :
    (Content.only m).target ("c", Uuid.nil) = some (.bool true) := by
  rw [Content.target, lookup_only hm]

/-- A reference to a document without references. -/
theorem resolve_deep_iff_single : ∃ _ : Crc32, ∃ db content, HasContent content db ∧
    ResolvesDeep db content (.ref "c" Uuid.nil) 1 := by
  refine ⟨⟨fun _ => 0⟩, ?_⟩
  let _ : Crc32 := ⟨fun _ => 0⟩
  obtain ⟨c, l, m, hm, hget⟩ := exists_single (.bool true) (by decide)
  have hreached : (Content.only m).reached 2 (.ref "c" Uuid.nil) = [("c", Uuid.nil)] := by
    simp [Content.reached, refsOf, target_only hget]
  refine ⟨single "c" c, Content.only m, single_hasContent hm,
    (resolve_deep_iff (single_hasContent hm) _ 1).mpr ⟨?_, .inl ?_⟩⟩
  · rw [hreached]
    rintro pre r post hsplit -
    have hr : r ∈ [("c", Uuid.nil)] := by
      rw [hsplit]
      simp
    rw [mem_singleton.mp hr]
    exact ⟨_, lookup_only hget⟩
  · rw [hreached]
    exact nodup_singleton _

/-- **Sharing is taken for a cycle**: a list with two references to the same
document, which has none. -/
theorem resolve_deep_shared : ∃ _ : Crc32, ∃ db content, HasContent content db ∧
    (resolveDeep (.array [.ref "c" Uuid.nil, .ref "c" Uuid.nil]) 1 db).res =
      .error (.err .cyclicReference) ∧
    ¬ content.OnCycle 2 (.array [.ref "c" Uuid.nil, .ref "c" Uuid.nil]) := by
  refine ⟨⟨fun _ => 0⟩, ?_⟩
  let _ : Crc32 := ⟨fun _ => 0⟩
  obtain ⟨c, l, m, hm, hget⟩ := exists_single (.bool true) (by decide)
  have hrefs : refsOf (.array [.ref "c" Uuid.nil, .ref "c" Uuid.nil]) =
      [("c", Uuid.nil), ("c", Uuid.nil)] := rfl
  refine ⟨single "c" c, Content.only m, single_hasContent hm, ?_, ?_⟩
  · have hreached : (Content.only m).reached 2 (.array [.ref "c" Uuid.nil, .ref "c" Uuid.nil]) =
        [("c", Uuid.nil), ("c", Uuid.nil)] := by
      simp [Content.reached, refsOf, refsOfItems, target_only hget]
    rw [resolveDeep_res (single_hasContent hm), hreached]
    simp [meet, lookup_only hget]
  · rintro ⟨path, hpath, hdup⟩
    cases hpath with
    | last hr => exact hdup (nodup_singleton _)
    | @cons _ _ _ r _ hr ht hpath =>
      -- The document has no references to go on with.
      rw [hrefs] at hr
      obtain rfl : r = ("c", Uuid.nil) := by simpa using hr
      rw [target_only hget] at ht
      cases ht
      cases hpath with
      | last hr => cases hr
      | cons hr => cases hr

end DatabaseState

end GrumpyDB
