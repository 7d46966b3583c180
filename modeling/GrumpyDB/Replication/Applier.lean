/-
Applying the records of a leader once each.

A follower keeps the highest clock reading it has applied of each node, in memory and in a file.
The mark is raised before the record is applied and stays when that fails, so a record that
fails counts as applied from then on, and one that comes after a higher reading is never
applied.
-/
import GrumpyDB.Crdt
import GrumpyDB.UuidText
import GrumpyDB.Wal.Record

namespace GrumpyDB

open List Function Option UInt64 SortedMap Uuid

/-! ### The marks -/

def Uuid.asU128 (u : Uuid) : U128 := Fin.ofNat _ (leNat u.bytes.reverse)

inductive ObserveOutcome where
  | new
  | alreadyApplied
  deriving DecidableEq

/-- The highest reading applied of each node, by its text. -/
structure AppliedSet where
  lastApplied : SortedMap String UInt64
  schemaVersion : UInt32

namespace AppliedSet

def default : AppliedSet := ⟨SortedMap.empty, 1⟩

def key (origin : U128) : String := (Uuid.fromU128 origin.val).toText

/-- Raise the mark of a node, which is 0 if there is none. -/
def observe (set : AppliedSet) (origin : U128) (hlc : Hlc) : ObserveOutcome × AppliedSet :=
  let entry := (set.lastApplied.get? (key origin)).getD 0
  if hlc > entry then
    (.new, { set with lastApplied := set.lastApplied.insert (key origin) hlc })
  else (.alreadyApplied, { set with lastApplied := set.lastApplied.insert (key origin) entry })

def highWater (set : AppliedSet) (origin : U128) : Hlc :=
  (set.lastApplied.get? (key origin)).getD 0

section File

variable [PayloadJson AppliedSet]

/-- Read the marks from `state.json`; without a file there are none. -/
def load : Option (List UInt8) → Except GrumpyError AppliedSet
  | none => .ok default
  | some bytes => (PayloadJson.fromSlice bytes).mapError fun e =>
    .corruption ("invalid replication state.json: " ++ e)

/-- Write the marks to a temporary file and rename it to `state.json`.  `io` is
whether all of it succeeds, or the text of the error; `state.json` changes only
in the last step. -/
def save (io : Except String Unit) (set : AppliedSet) (file : Option (List UInt8)) :
    Except String Unit × Option (List UInt8) :=
  match io with
  | .ok () => (.ok (), some (PayloadJson.toVec set))
  | .error e => (.error e, file)

theorem load_toVec (set : AppliedSet) : load (some (PayloadJson.toVec set)) = .ok set := by
  rw [load, PayloadJson.fromSlice_toVec]
  rfl

end File

theorem nonempty_payloadJson : Nonempty (PayloadJson AppliedSet) := by
  have := countable_string
  have hu32 : Countable UInt32 := Function.Injective.countable fun a b h => UInt32.toNat_inj.mp h
  have hu64 : Countable UInt64 := Function.Injective.countable fun a b h => UInt64.toNat_inj.mp h
  have hmarks := countable String UInt64
  have hset : Countable AppliedSet := Function.Injective.countable
    (f := fun s : AppliedSet => (s.lastApplied, s.schemaVersion)) fun ⟨_, _⟩ ⟨_, _⟩ h => by
      simpa using h
  exact PayloadJson.nonempty _

theorem key_injective : Function.Injective key := by
  intro a b h
  have huuid : fromU128 a.val = fromU128 b.val := by
    have := congrArg (fun s => tryParse (utf8 s)) h
    simpa only [key, tryParse_toText, some.injEq] using this
  have hbytes : leBytes 16 a.val = leBytes 16 b.val :=
    reverse_injective (congrArg bytes huuid)
  have hnat := congrArg leNat hbytes
  rw [leNat_leBytes, leNat_leBytes, Nat.mod_eq_of_lt (by omega),
    Nat.mod_eq_of_lt (by omega)] at hnat
  exact Fin.ext hnat

variable {set : AppliedSet} {origin o : U128} {hlc : Hlc}

theorem highWater_observe :
    (set.observe origin hlc).2.highWater o =
      if o = origin then max (set.highWater o) hlc else set.highWater o := by
  by_cases ho : o = origin
  · subst ho
    rw [if_pos rfl, observe]
    show highWater _ o = max ((set.lastApplied.get? (key o)).getD 0) hlc
    split
    · rename_i hlt
      rw [highWater, get?_insert_self, max_eq_right hlt.le]
      rfl
    · rename_i hle
      rw [highWater, get?_insert_self, max_eq_left (le_of_not_gt hle)]
      rfl
  · have hkey : key o ≠ key origin := fun h => ho (key_injective h)
    rw [observe]
    split <;> exact congrArg (Option.getD · 0) (get?_insert_ne hkey)

theorem observe_eq_new : (set.observe origin hlc).1 = .new ↔ set.highWater origin < hlc := by
  rw [observe]
  show _ ↔ (set.lastApplied.get? (key origin)).getD 0 < hlc
  split <;> simp_all

end AppliedSet

namespace Replication

/-! ### Peeking at a record -/

def ORIGIN_OFFSET : Nat := 21

def HLC_OFFSET : Nat := 37

def MIN_PEEK : Nat := HLC_OFFSET + 8

/-- The node and the clock reading of a record, read where they lie in its bytes. -/
def peekOriginHlc (raw : List UInt8) : Option (U128 × Hlc) :=
  if raw.length < MIN_PEEK then none
  else some (Fin.ofNat _ (leNat (slice ORIGIN_OFFSET 16 raw)),
    UInt64.ofNat (leNat (slice HLC_OFFSET 8 raw)))

def peekRecordHlc (raw : List UInt8) : Option Hlc :=
  if raw.length < 45 then none else some (UInt64.ofNat (leNat (slice 37 8 raw)))

theorem peekRecordHlc_eq (raw : List UInt8) :
    peekRecordHlc raw = (peekOriginHlc raw).map Prod.snd := by
  rw [peekRecordHlc, peekOriginHlc]
  by_cases h : raw.length < 45
  · rw [if_pos h, if_pos (show raw.length < MIN_PEEK from h)]
    rfl
  · rw [if_neg h, if_neg (show ¬ raw.length < MIN_PEEK from h)]
    rfl

theorem peekOriginHlc_toBytes (r : WalRecord) :
    peekOriginHlc r.toBytes = some (r.originNodeId, r.hlc) := by
  have hlow := r.le_encodedV2Len
  have hhead := r.headRead (r.vectorClock.encode ++ r.payloadBytes ++ leBytes 4 r.checksum.toNat)
  have hbytes : r.headBytes ++ (r.vectorClock.encode ++ r.payloadBytes ++
      leBytes 4 r.checksum.toNat) = r.toBytes := by simp [WalRecord.toBytes]
  have hlen : ¬ r.toBytes.length < MIN_PEEK := by
    rw [WalRecord.length_toBytes]
    simp only [WAL_RECORD_HEADER_SIZE_V2] at hlow
    simp only [MIN_PEEK, HLC_OFFSET]
    omega
  exact congrArg some (Prod.ext hhead.originNodeId hhead.hlc)

/-! ### The applier -/

inductive ApplyError where
  | decode (msg : String)
  | engine (msg : String)
  | io (msg : String)

/-- The applier with its marks and the applier behind it. -/
structure IdempotentApplier where
  set : AppliedSet
  /-- The bytes of `state.json`. -/
  file : Option (List UInt8)
  /-- The calls of the applier behind it, with whether they succeeded. -/
  inner : List (List UInt8 × Bool)

/-- A record to apply and what the world answers if it is asked. -/
structure ApplyCall where
  raw : List UInt8
  /-- What the applier behind it returns. -/
  inner : Except ApplyError Unit
  io : Except String Unit
  elapsed : Bool

def isOk {ε : Type} : Except ε Unit → Bool
  | .ok () => true
  | .error _ => false

section Applier

variable [PayloadJson AppliedSet]

namespace IdempotentApplier

def new (file : Option (List UInt8)) (inner : List (List UInt8 × Bool)) :
    Except GrumpyError IdempotentApplier :=
  (AppliedSet.load file).map fun set => ⟨set, file, inner⟩

def apply (a : IdempotentApplier) (c : ApplyCall) : Except ApplyError Unit × IdempotentApplier :=
  match peekOriginHlc c.raw with
  | none =>
    (.error (.decode ("cannot peek origin/hlc from raw record (len=" ++ toString c.raw.length ++
      ", need >= " ++ toString MIN_PEEK ++ ")")), a)
  | some (origin, hlc) =>
    let (outcome, set) := a.set.observe origin hlc
    if outcome ≠ .new then (.ok (), { a with set })
    else
      let a := { a with set, inner := a.inner ++ [(c.raw, isOk c.inner)] }
      match c.inner with
      | .error e => (.error e, a)
      | .ok () =>
        match a.set.save c.io a.file with
        | (.ok (), file) => (.ok (), { a with file })
        | (.error e, file) => (.error (.engine ("persist applied_set: " ++ e)), { a with file })

end IdempotentApplier

end Applier

structure FollowerTask where
  appliedHighWater : Hlc
  appliedSinceAck : Nat

namespace FollowerTask

def new : FollowerTask := ⟨0, 0⟩

/-- After a record has been applied: raise the mark, and acknowledge it every
`everyN` records or when the interval is over. -/
def applied (everyN : Nat) (elapsed : Bool) (raw : List UInt8) (task : FollowerTask) :
    FollowerTask × Option Hlc :=
  let hlc := (peekRecordHlc raw).getD 0
  let mark := if hlc > 0 then max task.appliedHighWater hlc else task.appliedHighWater
  let since := task.appliedSinceAck + 1
  if since ≥ everyN ∨ elapsed = true then (⟨mark, 0⟩, some mark) else (⟨mark, since⟩, none)

end FollowerTask

namespace FollowerTask

variable {everyN : Nat} {elapsed : Bool} {raw : List UInt8} {task : FollowerTask}

theorem appliedHighWater_applied :
    (task.applied everyN elapsed raw).1.appliedHighWater =
      max task.appliedHighWater ((peekRecordHlc raw).getD 0) := by
  have hmark : (if (peekRecordHlc raw).getD 0 > 0 then
      max task.appliedHighWater ((peekRecordHlc raw).getD 0) else task.appliedHighWater) =
      max task.appliedHighWater ((peekRecordHlc raw).getD 0) := by
    split
    · rfl
    · rename_i hzero
      have hle : (peekRecordHlc raw).getD 0 ≤ task.appliedHighWater :=
        (le_of_not_gt hzero).trans (le_iff_toNat_le.mpr (Nat.zero_le _))
      exact (max_eq_left hle).symm
  rw [applied]
  simp only [hmark]
  split <;> rfl

theorem applied_elapsed :
    (task.applied everyN true raw).2 = some (task.applied everyN true raw).1.appliedHighWater := by
  rw [applied, if_pos (.inr rfl)]

theorem applied_ack {hlc : Hlc} (h : (task.applied everyN elapsed raw).2 = some hlc) :
    hlc = (task.applied everyN elapsed raw).1.appliedHighWater := by
  rw [applied] at h ⊢
  split at h
  · rename_i hack
    rw [if_pos hack]
    exact (some.inj h).symm
  · cases h

end FollowerTask

/-- A follower: the applier all tasks share, and the task of each node. -/
structure Follower where
  applier : IdempotentApplier
  tasks : U128 → FollowerTask
  /-- The records given to the applier, with whether it returned `Ok`. -/
  results : List (List UInt8 × Bool)
  acks : List (U128 × Hlc)

variable [PayloadJson AppliedSet]

namespace Follower

def start (a : IdempotentApplier) : Follower := ⟨a, fun _ => .new, [], []⟩

/-- A record is delivered to the task of its node.  A task ends when the applier
fails; the next one starts afresh. -/
def deliver (everyN : Nat) (s : Follower) (c : ApplyCall) : Follower :=
  let (result, applier) := s.applier.apply c
  let s := { s with applier, results := s.results ++ [(c.raw, isOk result)] }
  match peekOriginHlc c.raw with
  | none => s
  | some (origin, _) =>
    match result with
    | .error _ => { s with tasks := Function.update s.tasks origin .new }
    | .ok () =>
      let (task, ack) := (s.tasks origin).applied everyN c.elapsed c.raw
      { s with
        tasks := Function.update s.tasks origin task
        acks := s.acks ++ (ack.map fun hlc => (origin, hlc)).toList }

def run (everyN : Nat) (s : Follower) (calls : List ApplyCall) : Follower :=
  calls.foldl (deliver everyN) s

/-- Every record that returned `Ok` has been applied, and no mark covers a record
among `raws` that has not. -/
structure Sound (raws : List (List UInt8)) (s : Follower) : Prop where
  applied : ∀ raw, (raw, true) ∈ s.results → (raw, true) ∈ s.applier.inner
  memory : ∀ raw ∈ raws, ∀ o h, peekOriginHlc raw = some (o, h) →
    (raw, true) ∉ s.applier.inner → s.applier.set.highWater o < h
  persisted : ∀ raw ∈ raws, ∀ o h, peekOriginHlc raw = some (o, h) →
    (raw, true) ∉ s.applier.inner → ∀ set, AppliedSet.load s.applier.file = .ok set →
      set.highWater o < h
  acknowledged : ∀ raw ∈ raws, ∀ o h, peekOriginHlc raw = some (o, h) →
    (raw, true) ∉ s.applier.inner → ∀ mark, (o, mark) ∈ s.acks → mark < h

/-- Each record has been applied or delivered before, or it is above all marks
and readings before it and the applier behind succeeds on it. -/
def Orderly (a : IdempotentApplier) (calls : List ApplyCall) : Prop :=
  ∀ before c after, calls = before ++ c :: after → ∀ o h, peekOriginHlc c.raw = some (o, h) →
    (c.raw, true) ∈ a.inner ∨ (∃ c' ∈ before, c'.raw = c.raw) ∨
    (isOk c.inner = true ∧ a.set.highWater o < h ∧
      ∀ c' ∈ before, ∀ h', peekOriginHlc c'.raw = some (o, h') → h' < h)

end Follower

/-! ### What one call does -/

namespace IdempotentApplier

variable {a : IdempotentApplier} {c : ApplyCall} {o : U128} {h : Hlc}

theorem apply_cases (hp : peekOriginHlc c.raw = some (o, h)) :
    (h ≤ a.set.highWater o ∧ a.apply c = (.ok (), { a with set := (a.set.observe o h).2 })) ∨
    (a.set.highWater o < h ∧ isOk c.inner = false ∧ ∃ e, a.apply c = (.error e,
      { a with set := (a.set.observe o h).2, inner := a.inner ++ [(c.raw, false)] })) ∨
    (a.set.highWater o < h ∧ isOk c.inner = true ∧ ∃ result, isOk result = isOk c.io ∧
      a.apply c = (result, ⟨(a.set.observe o h).2, ((a.set.observe o h).2.save c.io a.file).2,
        a.inner ++ [(c.raw, true)]⟩)) := by
  rw [apply, hp]
  by_cases hnew : a.set.highWater o < h
  · have houtcome := AppliedSet.observe_eq_new.mpr hnew
    simp only [houtcome, ne_eq, not_true_eq_false, if_false]
    right
    rcases hinner : c.inner with e | ⟨⟨⟩⟩
    · exact .inl ⟨hnew, rfl, e, rfl⟩
    · refine .inr ⟨hnew, rfl, ?_⟩
      rcases hio : c.io with e | ⟨⟨⟩⟩
      · exact ⟨.error (.engine ("persist applied_set: " ++ e)), rfl, rfl⟩
      · exact ⟨.ok (), rfl, rfl⟩
  · left
    have houtcome : (a.set.observe o h).1 ≠ .new := fun hn => hnew (AppliedSet.observe_eq_new.mp hn)
    refine ⟨le_of_not_gt hnew, ?_⟩
    simp only [houtcome, ne_eq, not_false_eq_true, if_true]

theorem file_apply : (a.apply c).2.file = a.file ∨
    (a.apply c).2.file = some (PayloadJson.toVec (a.apply c).2.set) := by
  rcases hp : peekOriginHlc c.raw with _ | ⟨o, h⟩
  · left
    rw [apply, hp]
  · rcases apply_cases hp with ⟨-, he⟩ | ⟨-, -, e, he⟩ | ⟨-, -, result, -, he⟩ <;> rw [he]
    · exact .inl rfl
    · exact .inl rfl
    · rcases hio : c.io with e | ⟨⟨⟩⟩
      · exact .inl rfl
      · exact .inr rfl

theorem apply_short (hp : peekOriginHlc c.raw = none) :
    ∃ e, a.apply c = (.error e, a) := by
  rw [apply, hp]
  exact ⟨_, rfl⟩

end IdempotentApplier

namespace Follower

variable {everyN : Nat} {s : Follower} {c : ApplyCall} {o : U128} {h : Hlc} {raw : List UInt8}

@[simp] theorem applier_deliver : (s.deliver everyN c).applier = (s.applier.apply c).2 := by
  rw [deliver]
  rcases s.applier.apply c with ⟨e | ⟨⟨⟩⟩, a⟩ <;> rcases peekOriginHlc c.raw with _ | ⟨o, h⟩ <;> rfl

@[simp] theorem results_deliver :
    (s.deliver everyN c).results = s.results ++ [(c.raw, isOk (s.applier.apply c).1)] := by
  rw [deliver]
  rcases s.applier.apply c with ⟨e | ⟨⟨⟩⟩, a⟩ <;> rcases peekOriginHlc c.raw with _ | ⟨o, h⟩ <;> rfl

variable {a : IdempotentApplier}

theorem deliver_ok (hp : peekOriginHlc c.raw = some (o, h))
    (hok : s.applier.apply c = (.ok (), a)) :
    s.deliver everyN c =
      ⟨a, Function.update s.tasks o ((s.tasks o).applied everyN c.elapsed c.raw).1,
        s.results ++ [(c.raw, true)],
        s.acks ++ (((s.tasks o).applied everyN c.elapsed c.raw).2.map fun hlc =>
          (o, hlc)).toList⟩ := by
  rw [deliver, hok, hp]
  rfl

theorem deliver_error {e : ApplyError} (hp : peekOriginHlc c.raw = some (o, h))
    (herr : s.applier.apply c = (.error e, a)) :
    s.deliver everyN c =
      ⟨a, Function.update s.tasks o .new, s.results ++ [(c.raw, false)], s.acks⟩ := by
  rw [deliver, herr, hp]
  rfl

theorem highWater_deliver :
    (s.deliver everyN c).applier.set.highWater o =
      match peekOriginHlc c.raw with
      | some (o', h) =>
        if o = o' then max (s.applier.set.highWater o) h else s.applier.set.highWater o
      | none => s.applier.set.highWater o := by
  rw [applier_deliver]
  rcases hp : peekOriginHlc c.raw with _ | ⟨o', h⟩
  · obtain ⟨e, he⟩ := IdempotentApplier.apply_short hp
    rw [he]
  · have hset : (s.applier.apply c).2.set = (s.applier.set.observe o' h).2 := by
      rcases IdempotentApplier.apply_cases hp with
        ⟨-, he⟩ | ⟨-, -, e, he⟩ | ⟨-, -, result, -, he⟩ <;> rw [he]
    rw [hset, AppliedSet.highWater_observe]

/-- Only the record delivered can be newly applied, and only if the applier
behind succeeds on it. -/
theorem mem_inner_deliver (hmem : (raw, true) ∈ (s.deliver everyN c).applier.inner) :
    (raw, true) ∈ s.applier.inner ∨ raw = c.raw := by
  rw [applier_deliver] at hmem
  rcases hp : peekOriginHlc c.raw with _ | ⟨o', h⟩
  · obtain ⟨e, he⟩ := IdempotentApplier.apply_short hp
    rw [he] at hmem
    exact .inl hmem
  · rcases IdempotentApplier.apply_cases hp with
      ⟨-, he⟩ | ⟨-, -, e, he⟩ | ⟨-, -, result, -, he⟩ <;> rw [he] at hmem
    · exact .inl hmem
    · exact .inl (by simpa using hmem)
    · simpa using hmem

theorem inner_subset_deliver (hmem : (raw, true) ∈ s.applier.inner) :
    (raw, true) ∈ (s.deliver everyN c).applier.inner := by
  rw [applier_deliver]
  rcases hp : peekOriginHlc c.raw with _ | ⟨o', h⟩
  · obtain ⟨e, he⟩ := IdempotentApplier.apply_short hp
    rwa [he]
  · rcases IdempotentApplier.apply_cases hp with
      ⟨-, he⟩ | ⟨-, -, e, he⟩ | ⟨-, -, result, -, he⟩ <;> rw [he]
    · exact hmem
    · exact mem_append_left _ hmem
    · exact mem_append_left _ hmem

/-! ### Marks stay below what has not come -/

/-- All marks of a node are below a reading. -/
structure Below (s : Follower) (o : U128) (h : Hlc) : Prop where
  memory : s.applier.set.highWater o < h
  persisted : ∀ set, AppliedSet.load s.applier.file = .ok set → set.highWater o < h
  task : (s.tasks o).appliedHighWater < h
  acks : ∀ mark, (o, mark) ∈ s.acks → mark < h

theorem Below.memory_deliver (hb : s.Below o h)
    (hc : ∀ h', peekOriginHlc c.raw = some (o, h') → h' < h) :
    (s.deliver everyN c).applier.set.highWater o < h := by
  rw [highWater_deliver]
  rcases hp : peekOriginHlc c.raw with _ | ⟨o', h'⟩
  · exact hb.memory
  · show (if o = o' then _ else _) < h
    split
    · rename_i ho
      exact max_lt hb.memory (hc h' (ho ▸ hp))
    · exact hb.memory

theorem Below.task_deliver (hb : s.Below o h)
    (hc : ∀ h', peekOriginHlc c.raw = some (o, h') → h' < h) :
    ((s.deliver everyN c).tasks o).appliedHighWater < h ∧
      ∀ mark, (o, mark) ∈ (s.deliver everyN c).acks → mark < h := by
  have hpos : 0 < h := (le_iff_toNat_le.mpr (Nat.zero_le _)).trans_lt hb.memory
  rcases hp : peekOriginHlc c.raw with _ | ⟨o', h'⟩
  · obtain ⟨e, he⟩ := IdempotentApplier.apply_short hp
    rw [Follower.deliver, he, hp]
    exact ⟨hb.task, hb.acks⟩
  rcases happly : s.applier.apply c with ⟨e | ⟨⟨⟩⟩, a⟩
  · -- the task of the node ends
    rw [deliver_error hp happly]
    refine ⟨?_, hb.acks⟩
    show ((update s.tasks o' FollowerTask.new) o).appliedHighWater < h
    by_cases ho : o = o'
    · rw [ho, update_self]
      exact hpos
    · rw [update_of_ne ho]
      exact hb.task
  · -- the task of the node raises its mark and may report it
    rw [deliver_ok hp happly]
    have hpeek : (peekRecordHlc c.raw).getD 0 = h' := by
      rw [peekRecordHlc_eq, hp]
      rfl
    have hmark : o = o' →
        ((s.tasks o').applied everyN c.elapsed c.raw).1.appliedHighWater < h := by
      rintro rfl
      rw [FollowerTask.appliedHighWater_applied, hpeek]
      exact max_lt hb.task (hc h' hp)
    constructor
    · show ((update s.tasks o' _) o).appliedHighWater < h
      by_cases ho : o = o'
      · rw [ho, update_self]
        exact hmark ho
      · rw [update_of_ne ho]
        exact hb.task
    · intro mark hmem
      rcases mem_append.mp hmem with hold | hnew
      · exact hb.acks mark hold
      · rcases hack : ((s.tasks o').applied everyN c.elapsed c.raw).2 with _ | hlc
        · simp [hack] at hnew
        · simp only [hack, map_some, toList_some, mem_singleton,
            Prod.mk.injEq] at hnew
          rw [hnew.2, FollowerTask.applied_ack hack]
          exact hmark hnew.1

theorem Below.deliver (hb : s.Below o h)
    (hc : ∀ h', peekOriginHlc c.raw = some (o, h') → h' < h) : (s.deliver everyN c).Below o h := by
  refine ⟨?_, ?_, ?_, ?_⟩
  · exact hb.memory_deliver hc
  · -- what is saved are the marks in memory
    intro set hset
    rw [applier_deliver] at hset
    rcases s.applier.file_apply with hfile | hfile
    · rw [hfile] at hset
      exact hb.persisted set hset
    · rw [hfile, AppliedSet.load_toVec] at hset
      have hmem : (s.deliver everyN c).applier.set.highWater o < h := hb.memory_deliver hc
      rwa [applier_deliver, Except.ok.inj hset] at hmem
  · exact (hb.task_deliver hc).1
  · exact (hb.task_deliver hc).2

/-! ### Whole runs -/

variable {a : IdempotentApplier} {calls before after : List ApplyCall}

theorem run_append : run everyN s (before ++ after) = run everyN (run everyN s before) after :=
  List.foldl_append

theorem run_concat : run everyN s (before ++ [c]) = (run everyN s before).deliver everyN c := by
  rw [run_append]
  rfl

theorem Below.run (hb : s.Below o h)
    (hcalls : ∀ c ∈ calls, ∀ h', peekOriginHlc c.raw = some (o, h') → h' < h) :
    (run everyN s calls).Below o h := by
  induction calls generalizing s with
  | nil => exact hb
  | cons c calls ih =>
    exact ih (hb.deliver (hcalls c (by simp))) fun c' hc' => hcalls c' (by simp [hc'])

theorem highWater_run (hlt : (run everyN s calls).applier.set.highWater o < h) :
    s.applier.set.highWater o < h ∧
      ∀ c ∈ calls, ∀ h', peekOriginHlc c.raw = some (o, h') → h' < h := by
  induction calls generalizing s with
  | nil => exact ⟨hlt, by simp⟩
  | cons c calls ih =>
    obtain ⟨hmark, hcalls⟩ := ih hlt
    rw [highWater_deliver] at hmark
    have hc : s.applier.set.highWater o < h ∧
        ∀ h', peekOriginHlc c.raw = some (o, h') → h' < h := by
      rcases hp : peekOriginHlc c.raw with _ | ⟨o', h'⟩
      · rw [hp] at hmark
        exact ⟨hmark, by simp⟩
      · rw [hp] at hmark
        simp only at hmark
        split at hmark
        · refine ⟨(le_max_left _ _).trans_lt hmark, ?_⟩
          rintro h'' hp'
          obtain ⟨-, rfl⟩ := Prod.mk.inj (some.inj hp')
          exact (le_max_right _ _).trans_lt hmark
        · rename_i ho
          refine ⟨hmark, ?_⟩
          rintro h'' hp'
          exact absurd (Prod.mk.inj (some.inj hp')).1.symm ho
    refine ⟨hc.1, ?_⟩
    intro c' hc'
    rcases mem_cons.mp hc' with rfl | hc'
    · exact hc.2
    · exact hcalls c' hc'

theorem inner_subset_run (hmem : (raw, true) ∈ s.applier.inner) :
    (raw, true) ∈ (run everyN s calls).applier.inner := by
  induction calls generalizing s with
  | nil => exact hmem
  | cons c calls ih => exact ih (inner_subset_deliver hmem)

theorem mem_inner_run (hmem : (raw, true) ∈ (run everyN s calls).applier.inner) :
    (raw, true) ∈ s.applier.inner ∨ ∃ c ∈ calls, c.raw = raw := by
  induction calls generalizing s with
  | nil => exact .inl hmem
  | cons c calls ih =>
    rcases ih hmem with h | ⟨c', hc', hraw⟩
    · rcases mem_inner_deliver h with h | h
      · exact .inl h
      · exact .inr ⟨c, by simp, h.symm⟩
    · exact .inr ⟨c', by simp [hc'], hraw⟩

theorem below_start (hload : AppliedSet.load a.file = .ok a.set) (hlt : a.set.highWater o < h) :
    (start a).Below o h := by
  refine ⟨hlt, ?_, ?_, by simp [start]⟩
  · intro set hset
    rw [← Except.ok.inj (hload.symm.trans hset)]
    exact hlt
  · exact (le_iff_toNat_le.mpr (Nat.zero_le _)).trans_lt hlt

theorem mem_inner_of_new (hp : peekOriginHlc c.raw = some (o, h))
    (hnew : s.applier.set.highWater o < h) (hok : isOk c.inner = true) :
    (c.raw, true) ∈ (s.deliver everyN c).applier.inner := by
  rw [applier_deliver]
  rcases IdempotentApplier.apply_cases hp with
    ⟨hle, -⟩ | ⟨-, hfail, -⟩ | ⟨-, -, result, -, he⟩
  · exact absurd hnew hle.not_gt
  · rw [hok] at hfail
    cases hfail
  · rw [he]
    simp

theorem mem_inner_of_orderly (hload : AppliedSet.load a.file = .ok a.set)
    (hord : Orderly a (before ++ after)) (hc : c ∈ before)
    (hp : peekOriginHlc c.raw = some (o, h)) :
    (c.raw, true) ∈ (run everyN (start a) before).applier.inner := by
  induction before using reverseRecOn generalizing after c o h with
  | nil => simp at hc
  | append_singleton before d ih =>
    rw [append_assoc] at hord
    rw [run_concat]
    rcases mem_append.mp hc with hc | hc
    · exact inner_subset_deliver (ih hord hc hp)
    obtain rfl : c = d := mem_singleton.mp hc
    rcases hord before c after rfl o h hp with hdone | ⟨c', hc', hraw⟩ | ⟨hok, hmark, hlow⟩
    · exact inner_subset_deliver (inner_subset_run hdone)
    · rw [← hraw] at hp ⊢
      exact inner_subset_deliver (ih hord hc' hp)
    · exact mem_inner_of_new hp ((below_start hload hmark).run hlow).memory hok

omit [PayloadJson AppliedSet] in
theorem exists_first {calls : List ApplyCall} (hmem : ∃ c ∈ calls, c.raw = raw) :
    ∃ before c after, calls = before ++ c :: after ∧ c.raw = raw ∧
      ∀ c' ∈ before, c'.raw ≠ raw := by
  induction calls with
  | nil => simp at hmem
  | cons c calls ih =>
    by_cases hc : c.raw = raw
    · exact ⟨[], c, calls, rfl, hc, by simp⟩
    · obtain ⟨c', hc', hraw⟩ := hmem
      have hc'' : c' ∈ calls := by
        rcases mem_cons.mp hc' with rfl | h
        · exact absurd hraw hc
        · exact h
      obtain ⟨before, d, after, rfl, hd, hfirst⟩ := ih ⟨c', hc'', hraw⟩
      refine ⟨c :: before, d, after, rfl, hd, ?_⟩
      intro x hx
      rcases mem_cons.mp hx with rfl | hx
      · exact hc
      · exact hfirst x hx

theorem below_of_orderly (hload : AppliedSet.load a.file = .ok a.set)
    (hord : Orderly a (before ++ after)) (hraw : raw ∈ (before ++ after).map ApplyCall.raw)
    (hp : peekOriginHlc raw = some (o, h))
    (hnot : (raw, true) ∉ (run everyN (start a) before).applier.inner) :
    (run everyN (start a) before).Below o h := by
  obtain ⟨pre, c, post, hsplit, rfl, hfirst⟩ := exists_first (mem_map.mp hraw)
  -- it has not been delivered yet
  have hnone : ∀ c' ∈ before, c'.raw ≠ c.raw := by
    intro c' hc' heq
    exact hnot (heq ▸ mem_inner_of_orderly hload hord hc' (heq ▸ hp))
  have hbefore : before <+: pre := by
    have hpre : pre <+: before ++ after := ⟨c :: post, hsplit.symm⟩
    rcases prefix_or_prefix_of_prefix (prefix_append before after) hpre with hle | hle
    · exact hle
    · obtain ⟨rest, rfl⟩ := hle
      rw [append_assoc, append_cancel_left_eq] at hsplit
      rcases rest with _ | ⟨d, rest⟩
      · simp
      · obtain ⟨rfl, -⟩ := cons.inj hsplit
        exact absurd rfl (hnone d (by simp))
  rcases hord pre c post hsplit o h hp with hdone | ⟨c', hc', heq⟩ | ⟨-, hmark, hlow⟩
  · exact absurd (inner_subset_run hdone) hnot
  · exact absurd heq (hfirst c' hc')
  · exact (below_start hload hmark).run fun c' hc' => hlow c' (hbefore.subset hc')

theorem mem_results_run (hmem : (raw, true) ∈ (run everyN (start a) before).results) :
    ∃ c ∈ before, c.raw = raw ∧ (peekOriginHlc raw).isSome := by
  induction before using reverseRecOn with
  | nil => simp [run, start] at hmem
  | append_singleton before d ih =>
    rw [run_concat, results_deliver] at hmem
    rcases mem_append.mp hmem with hold | hnew
    · obtain ⟨c, hc, hraw⟩ := ih hold
      exact ⟨c, by simp [hc], hraw⟩
    · obtain ⟨rfl, hok⟩ := Prod.mk.inj (mem_singleton.mp hnew)
      refine ⟨d, by simp, rfl, ?_⟩
      rcases hp : peekOriginHlc d.raw with _ | x
      · obtain ⟨e, he⟩ := IdempotentApplier.apply_short
          hp
        rw [he] at hok
        cases hok
      · rfl

theorem sound_of_orderly (hload : AppliedSet.load a.file = .ok a.set)
    (hord : Orderly a (before ++ after)) :
    (run everyN (start a) before).Sound ((before ++ after).map ApplyCall.raw) := by
  refine ⟨?_, ?_, ?_, ?_⟩
  · intro raw hmem
    obtain ⟨c, hc, rfl, hp⟩ := mem_results_run hmem
    obtain ⟨⟨o, h⟩, hp⟩ := isSome_iff_exists.mp hp
    exact mem_inner_of_orderly hload hord hc hp
  · intro raw hraw o h hp hnot
    exact (below_of_orderly hload hord hraw hp hnot).memory
  · intro raw hraw o h hp hnot
    exact (below_of_orderly hload hord hraw hp hnot).persisted
  · intro raw hraw o h hp hnot
    exact (below_of_orderly hload hord hraw hp hnot).acks

theorem orderly_of_sound
    (hsound : ∀ before after, calls = before ++ after →
      (run everyN (start a) before).Sound (calls.map ApplyCall.raw)) : Orderly a calls := by
  rintro before c after rfl o h hp
  by_contra hcon
  simp only [not_or] at hcon
  obtain ⟨hdone, hrepeat, hnew⟩ := hcon
  have hafter := hsound (before ++ [c]) after (by simp)
  rw [run_concat] at hafter
  -- the record has not been applied before
  have hnot : (c.raw, true) ∉ (run everyN (start a) before).applier.inner := by
    intro hmem
    rcases mem_inner_run hmem with h | h
    · exact hdone h
    · exact hrepeat h
  have hcases := IdempotentApplier.apply_cases (a := (run everyN (start a) before).applier) hp
  rcases hcases with ⟨-, he⟩ | ⟨hlt, hfail, e, he⟩ | ⟨hlt, hok, -⟩
  · -- it counts as applied
    have hmem := hafter.applied c.raw (by simp [he, isOk])
    rw [applier_deliver, he] at hmem
    exact hnot hmem
  · -- it fails, and the mark covers it
    have hlow := hafter.memory c.raw (by simp) o h hp (by
      rw [applier_deliver, he]
      simpa using hnot)
    rw [highWater_deliver, hp] at hlow
    simp only [if_true] at hlow
    exact absurd hlow (le_max_right _ _).not_gt
  · obtain ⟨hmark, hbefore⟩ := highWater_run hlt
    exact hnew ⟨hok, hmark, hbefore⟩

/-- **The marks cover applied records only, just when the calls are orderly.** -/
theorem marks_cover_applied_iff (hload : AppliedSet.load a.file = .ok a.set) :
    (∀ before after, calls = before ++ after →
      (run everyN (start a) before).Sound (calls.map ApplyCall.raw)) ↔ Orderly a calls := by
  constructor
  · exact orderly_of_sound
  · rintro hord before after rfl
    exact sound_of_orderly hload hord

def fresh : IdempotentApplier := ⟨.default, none, []⟩

def someCommit [Crc32] : WalRecord := .commit 1 1 7 5 (.singleton 7 5)

omit [PayloadJson AppliedSet] in
theorem marks_cover_first_record : ∃ (_ : Crc32) (_ : PayloadJson AppliedSet),
    AppliedSet.load fresh.file = .ok fresh.set ∧
    ∀ before after, [⟨someCommit.toBytes, .ok (), .ok (), true⟩] = before ++ after →
      (run 32 (start fresh) before).Sound [someCommit.toBytes] := by
  obtain ⟨json⟩ := AppliedSet.nonempty_payloadJson
  refine ⟨⟨fun _ => 0⟩, json, rfl, ?_⟩
  refine (marks_cover_applied_iff rfl).mpr ?_
  -- there is one record, it is above the mark, and it is applied
  rintro before c after hsplit o h hp
  obtain rfl : before = [] := by
    have hlen := congrArg length hsplit
    simp only [length_append, length_cons, length_nil] at hlen
    exact eq_nil_of_length_eq_zero (by omega)
  obtain ⟨rfl, -⟩ := cons.inj hsplit
  obtain ⟨rfl, rfl⟩ := Prod.mk.inj (some.inj ((peekOriginHlc_toBytes _).symm.trans hp))
  exact .inr (.inr ⟨rfl, by decide, by simp⟩)

def failedAndRedelivered (raw : List UInt8) : List ApplyCall :=
  [⟨raw, .error (.engine "page store is full"), .ok (), false⟩, ⟨raw, .ok (), .ok (), true⟩]

theorem failed_redelivered (hp : peekOriginHlc raw = some (o, h)) (hpos : 0 < h) :
    (raw, true) ∈ (run everyN (start fresh) (failedAndRedelivered raw)).results ∧
    (raw, true) ∉ (run everyN (start fresh) (failedAndRedelivered raw)).applier.inner ∧
    (o, h) ∈ (run everyN (start fresh) (failedAndRedelivered raw)).acks := by
  obtain ⟨s, hs⟩ : ∃ s, s = (start fresh).deliver everyN
    ⟨raw, .error (.engine "page store is full"), .ok (), false⟩ := ⟨_, rfl⟩
  have hrun : run everyN (start fresh) (failedAndRedelivered raw) =
      s.deliver everyN ⟨raw, .ok (), .ok (), true⟩ := by
    rw [hs]
    rfl
  have hfirst : s.applier.inner = [(raw, false)] ∧ s.tasks o = .new := by
    rcases IdempotentApplier.apply_cases (a := (start fresh).applier)
      (c := ⟨raw, .error (.engine "page store is full"), .ok (), false⟩) hp with
      ⟨hle, -⟩ | ⟨-, -, e, he⟩ | ⟨-, hok, -⟩
    · exact absurd hpos hle.not_gt
    · rw [hs, deliver_error hp he]
      exact ⟨rfl, update_self ..⟩
    · cases hok
  obtain ⟨hinner, htask⟩ := hfirst
  have hmark : s.applier.set.highWater o = h := by
    rw [hs, highWater_deliver, hp]
    simp only [if_true]
    exact max_eq_right hpos.le
  -- the second time it is at the mark
  have happly : s.applier.apply ⟨raw, .ok (), .ok (), true⟩ =
      (.ok (), { s.applier with set := (s.applier.set.observe o h).2 }) := by
    rcases IdempotentApplier.apply_cases (c := ⟨raw, .ok (), .ok (), true⟩) hp with
      ⟨-, he⟩ | ⟨hlt, -⟩ | ⟨hlt, -⟩
    · exact he
    · exact absurd hmark hlt.ne
    · exact absurd hmark hlt.ne
  rw [hrun]
  refine ⟨?_, ?_, ?_⟩
  · rw [results_deliver, happly]
    simp [isOk]
  · rw [applier_deliver, happly]
    simp [hinner]
  · -- the interval is over, so the task reports its mark
    have hack : (FollowerTask.new.applied everyN true raw).2 = some h := by
      rw [FollowerTask.applied_elapsed, FollowerTask.appliedHighWater_applied, peekRecordHlc_eq, hp]
      exact congrArg some (max_eq_right hpos.le)
    rw [deliver_ok hp happly, htask]
    show (o, h) ∈ s.acks ++
      ((FollowerTask.new.applied everyN true raw).2.map fun hlc => (o, hlc)).toList
    rw [hack]
    simp

omit [PayloadJson AppliedSet] in
/-- **A record that failed counts as applied** when it is delivered again, and is
acknowledged to the leader. -/
theorem failed_record_is_acknowledged :
    Nonempty Crc32 ∧ Nonempty (PayloadJson AppliedSet) ∧
    ∀ (_ : Crc32) (_ : PayloadJson AppliedSet),
      let s := run 32 (start fresh) (failedAndRedelivered someCommit.toBytes)
      (someCommit.toBytes, true) ∈ s.results ∧ (someCommit.toBytes, true) ∉ s.applier.inner ∧
        (7, 5) ∈ s.acks :=
  ⟨⟨⟨fun _ => 0⟩⟩, AppliedSet.nonempty_payloadJson, fun _ _ =>
    failed_redelivered (peekOriginHlc_toBytes _) (by decide)⟩

end Follower

end Replication

end GrumpyDB
