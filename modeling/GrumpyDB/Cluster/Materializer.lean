/-
From the schema to the indexes of a node.

An entry that wins is queued as a job, and a background worker builds or drops the index in the
engine. The queue is lost when the process stops, and collections are opened without their
indexes.
-/
import GrumpyDB.Cluster.SchemaOrder

namespace GrumpyDB

open Option

inductive MaterializeJob where
  | build (key : IndexKey) (fieldPath : String)
  | drop (key : IndexKey)

def MaterializeJob.key : MaterializeJob → IndexKey
  | build key _ => key
  | drop key => key

def MaterializeJob.fromOp : SchemaOp → MaterializeJob
  | .createIndex key fieldPath => .build key fieldPath
  | .dropIndex key => .drop key

def IndexKey.place (key : IndexKey) : String × String × String :=
  (key.tenant, key.database, key.collection)

/-- The indexes of every collection that exists, with their field paths. -/
abbrev Engine : Type := String × String × String → Option (Table String String)

inductive IndexError where
  | collectionNotFound
  | indexAlreadyExists
  | indexNotFound
  | other

namespace Engine

/-- Create an index; with `ok` false, its name is not valid or filling it fails. -/
def createIndex (d : Engine) (key : IndexKey) (fieldPath : String) (ok : Bool) :
    Except IndexError Engine :=
  match d key.place with
  | none => .error .collectionNotFound
  | some defs =>
    if (defs.get? key.indexName).isSome then .error .indexAlreadyExists
    else if ok then
      .ok (Function.update d key.place (some (defs.insert key.indexName fieldPath)))
    else .error .other

def dropIndex (d : Engine) (key : IndexKey) : Except IndexError Engine :=
  match d key.place with
  | none => .error .collectionNotFound
  | some defs =>
    if (defs.get? key.indexName).isSome then
      .ok (Function.update d key.place (some (defs.erase key.indexName)))
    else .error .indexNotFound

def perform (d : Engine) (ok : Bool) : MaterializeJob → Except IndexError Engine
  | .build key fieldPath => d.createIndex key fieldPath ok
  | .drop key => d.dropIndex key

def runJob (d : Engine) (ok : Bool) (job : MaterializeJob) : Engine :=
  match d.perform ok job with
  | .ok d' => d'
  | .error _ => d

def path (d : Engine) (key : IndexKey) : Option (Option String) :=
  (d key.place).map fun defs => defs.get? key.indexName

def reopen (d : Engine) : Engine := fun place => (d place).map fun _ => Table.empty

end Engine

structure MaterializingNode where
  schema : SchemaState
  log : List SchemaLogEntry
  queue : List MaterializeJob
  engine : Engine

namespace MaterializingNode

inductive Event where
  | ddl (op : SchemaOp) (hlc : UInt64) (ok : Bool)
  | remote (entry : SchemaLogEntry)
  | materialize (ok : Bool)
  | createCollection (place : String × String × String)
  | restart

def new (places : List (String × String × String)) : MaterializingNode :=
  ⟨.new, [], [], fun place => if place ∈ places then some Table.empty else none⟩

def step (n : MaterializingNode) : Event → MaterializingNode
  | .ddl op hlc ok =>
    match n.engine.perform ok (.fromOp op) with
    -- the client gets an error, and nothing is recorded
    | .error _ => n
    | .ok engine => ⟨n.schema.applyLocalDdl op hlc, n.log ++ [n.schema.localEntry op hlc],
        n.queue ++ [.fromOp op], engine⟩
  | .remote entry =>
    if n.schema.outcome entry = .applied then
      { n with schema := n.schema.apply entry, log := n.log ++ [entry]
               queue := n.queue ++ [.fromOp entry.op] }
    else { n with schema := n.schema.apply entry }
  | .materialize ok =>
    match n.queue with
    | [] => n
    | job :: queue => { n with queue, engine := n.engine.runJob ok job }
  | .createCollection place =>
    match n.engine place with
    | some _ => n
    | none => { n with engine := Function.update n.engine place (some Table.empty) }
  | .restart => ⟨SchemaState.replay n.log, n.log, [], n.engine.reopen⟩

def run (n : MaterializingNode) (events : List Event) : MaterializingNode := events.foldl step n

/-- A local operation wins and no job for its index waits, no index is created anew on
another field, no job fails in the engine, and neither a new collection nor a restart finds a
live index. -/
def Follows (n : MaterializingNode) : Event → Prop
  | .ddl op hlc ok => ∀ engine, n.engine.perform ok (.fromOp op) = .ok engine →
      n.schema.nextVersion.outcome (n.schema.localEntry op hlc) = .applied ∧
      ∀ job ∈ n.queue, job.key ≠ op.key
  | .remote entry => n.schema.outcome entry = .applied → ∀ key fieldPath,
      entry.op = .createIndex key fieldPath → (n.engine key.place).isSome →
      n.schema.livePath key = none ∨ n.schema.livePath key = some fieldPath
  | .materialize ok => ok = true
  | .createCollection place => n.engine place = none → ∀ key : IndexKey, key.place = place →
      n.schema.livePath key = none ∧ ∀ job ∈ n.queue, job.key ≠ key
  | .restart => ∀ key, (n.engine key.place).isSome →
      (SchemaState.replay n.log).livePath key = none

end MaterializingNode

/-! ### What jobs come to -/

def MaterializeJob.effect (key : IndexKey) (o : Option String) : MaterializeJob → Option String
  | build k fieldPath => if k = key then some (o.getD fieldPath) else o
  | drop k => if k = key then none else o

namespace Engine

variable {d d' : Engine} {key k : IndexKey} {job : MaterializeJob}

theorem path_update {defs defs' : Table String String} {v : Option String}
    (hk : d k.place = some defs) (hself : defs'.get? k.indexName = v)
    (hother : ∀ name ≠ k.indexName, defs'.get? name = defs.get? name) :
    path (Function.update d k.place (some defs')) key = if k = key then some v else d.path key := by
  by_cases hkey : k = key
  · subst hkey
    simp [path, hself]
  by_cases hplace : key.place = k.place
  · have hname : key.indexName ≠ k.indexName := by
      intro hname
      cases key
      simp_all [IndexKey.place]
    simp [path, hplace, hkey, hk, hother _ hname]
  · simp [path, hplace, hkey]

theorem path_runJob (d : Engine) (job : MaterializeJob) :
    (d.runJob true job).path key = (d.path key).map fun o => job.effect key o := by
  -- a job that changes nothing finds the index as it would leave it
  have hsame : ∀ k, (k = key → (d.path key).map (job.effect key) = d.path key) → job.key = k →
      (d.path key).map (job.effect key) = d.path key := by
    intro k hk hjob
    by_cases hkey : k = key
    · exact hk hkey
    · cases job <;> simp_all [MaterializeJob.effect, MaterializeJob.key]
  rcases job with ⟨k, fieldPath⟩ | ⟨k⟩ <;> rcases hk : d k.place with _ | defs
  · simp only [runJob, perform, createIndex, hk]
    refine (hsame k ?_ rfl).symm
    rintro rfl
    simp [path, hk]
  · rcases hdef : defs.get? k.indexName with _ | q
    · simp only [runJob, perform, createIndex, hk, hdef]
      refine (path_update hk Table.get?_insert_self fun _ => Table.get?_insert_ne).trans ?_
      by_cases hkey : k = key
      · subst hkey
        simp [path, hk, hdef, MaterializeJob.effect]
      · simp [MaterializeJob.effect, hkey]
    · simp only [runJob, perform, createIndex, hk, hdef]
      refine (hsame k ?_ rfl).symm
      rintro rfl
      simp [path, hk, hdef, MaterializeJob.effect]
  · simp only [runJob, perform, dropIndex, hk]
    refine (hsame k ?_ rfl).symm
    rintro rfl
    simp [path, hk]
  · rcases hdef : defs.get? k.indexName with _ | q
    · simp only [runJob, perform, dropIndex, hk, hdef]
      refine (hsame k ?_ rfl).symm
      rintro rfl
      simp [path, hk, hdef, MaterializeJob.effect]
    · simp only [runJob, perform, dropIndex, hk, hdef]
      refine (path_update hk Table.get?_erase_self fun _ => Table.get?_erase_ne).trans ?_
      by_cases hkey : k = key
      · subst hkey
        simp [path, hk, MaterializeJob.effect]
      · simp [MaterializeJob.effect, hkey]

theorem path_perform {ok : Bool} (h : d.perform ok job = .ok d') :
    d'.path key = (d.path key).map fun o => job.effect key o := by
  have htrue : d.perform true job = .ok d' := by
    cases ok with
    | true => exact h
    | false =>
      cases job with
      | build k fieldPath =>
        simp only [perform, createIndex] at h
        split at h
        · cases h
        · split at h <;> cases h
      | drop k => exact h
  rw [← path_runJob, runJob, htrue]

theorem path_of_createIndex {fieldPath : String} {ok : Bool}
    (h : d.perform ok (.build k fieldPath) = .ok d') : d.path k = some none := by
  simp only [perform, createIndex] at h
  split at h
  · cases h
  · rename_i defs hk
    rcases hdef : defs.get? k.indexName with _ | q
    · simp [path, hk, hdef]
    · simp [hdef] at h

end Engine

namespace MaterializingNode

/-! ### Runs -/

/-- When the jobs that wait are through, the engine is what the schema says. -/
def Inv (n : MaterializingNode) : Prop :=
  ∀ key o, n.engine.path key = some o →
    n.queue.foldl (fun o job => job.effect key o) o = n.schema.livePath key

variable {n : MaterializingNode}

theorem livePath_apply {s : SchemaState} {e : SchemaLogEntry} (happ : s.outcome e = .applied)
    (key : IndexKey) : (s.apply e).livePath key =
      if e.op.key = key then e.op.livePath else s.livePath key := by
  have hindexes := SchemaState.indexes_apply.trans (if_pos happ)
  by_cases hkey : e.op.key = key
  · subst hkey
    rw [if_pos rfl, ← SchemaState.livePath_newEntry]
    exact SchemaState.livePath_of_some (by rw [hindexes, Table.get?_insert_self])
  · rw [if_neg hkey]
    simp only [SchemaState.livePath, SchemaState.get, hindexes, Table.get?_insert_ne (Ne.symm hkey)]

theorem effect_fromOp {op : SchemaOp} {key : IndexKey} {o : Option String}
    (h : ∀ fieldPath, op = .createIndex key fieldPath → o = none ∨ o = some fieldPath) :
    (MaterializeJob.fromOp op).effect key o = if op.key = key then op.livePath else o := by
  cases op with
  | createIndex k fieldPath =>
    by_cases hk : k = key
    · subst hk
      rcases h fieldPath rfl with rfl | rfl <;>
        simp [MaterializeJob.fromOp, MaterializeJob.effect, SchemaOp.key, SchemaOp.livePath]
    · simp [MaterializeJob.fromOp, MaterializeJob.effect, SchemaOp.key, hk]
  | dropIndex k => rfl

theorem foldl_effect_of_ne {key : IndexKey} {queue : List MaterializeJob}
    (h : ∀ job ∈ queue, job.key ≠ key) (o : Option String) :
    queue.foldl (fun o job => job.effect key o) o = o := by
  induction queue generalizing o with
  | nil => rfl
  | cons job queue ih =>
    have hjob : job.effect key o = o := by
      have hne := h job List.mem_cons_self
      cases job <;> exact if_neg hne
    rw [List.foldl_cons, hjob]
    exact ih (fun j hj => h j (List.mem_cons_of_mem _ hj)) o

theorem Inv.step (h : n.Inv) {ev : Event} (hev : n.Follows ev) : (n.step ev).Inv := by
  intro key o hpath
  cases ev with
  | ddl op hlc ok =>
    rcases hperform : n.engine.perform ok (.fromOp op) with e | engine <;>
      simp only [MaterializingNode.step, hperform] at hpath ⊢
    · exact h key o hpath
    obtain ⟨happ, hqueue⟩ := hev engine hperform
    rw [Engine.path_perform hperform] at hpath
    obtain ⟨o', ho', rfl⟩ := map_eq_some_iff.mp hpath
    refine Eq.trans ?_ (livePath_apply happ key).symm
    show _ = if op.key = key then op.livePath else n.schema.livePath key
    rw [List.foldl_append]
    by_cases hkey : op.key = key
    · subst hkey
      rw [foldl_effect_of_ne hqueue, if_pos rfl]
      cases op with
      | createIndex k fieldPath =>
        obtain rfl := some.inj (ho'.symm.trans (Engine.path_of_createIndex hperform))
        simp [MaterializeJob.fromOp, MaterializeJob.effect, SchemaOp.key, SchemaOp.livePath]
      | dropIndex k => exact if_pos rfl
    · have hother : ∀ o, (MaterializeJob.fromOp op).effect key o = o := by
        intro o
        cases op <;> exact if_neg hkey
      rw [hother, if_neg hkey, ← h key o' ho']
      exact hother _
  | remote entry =>
    by_cases happ : n.schema.outcome entry = .applied
    · simp only [MaterializingNode.step, if_pos happ] at hpath ⊢
      rw [List.foldl_append, h key o hpath, livePath_apply happ]
      refine effect_fromOp fun fieldPath hop => hev happ key fieldPath hop ?_
      rw [← isSome_map, ← Engine.path, hpath]
      rfl
    · have hsame : (n.schema.apply entry).livePath key = n.schema.livePath key := by
        simp only [SchemaState.livePath, SchemaState.get, SchemaState.indexes_apply, if_neg happ]
      simp only [MaterializingNode.step, if_neg happ] at hpath ⊢
      rw [hsame]
      exact h key o hpath
  | materialize ok =>
    obtain rfl : ok = true := hev
    rcases hq : n.queue with _ | ⟨job, queue⟩ <;>
      simp only [MaterializingNode.step, hq] at hpath ⊢
    · have := h key o hpath
      rwa [hq] at this
    · rw [Engine.path_runJob] at hpath
      obtain ⟨o', ho', rfl⟩ := map_eq_some_iff.mp hpath
      have := h key o' ho'
      rwa [hq] at this
  | createCollection place =>
    rcases hplace : n.engine place with _ | defs <;>
      simp only [MaterializingNode.step, hplace] at hpath ⊢
    · by_cases hkey : key.place = place
      · obtain ⟨hlive, hqueue⟩ := hev hplace key hkey
        simp only [Engine.path, hkey, Function.update_self] at hpath
        cases hpath
        rw [foldl_effect_of_ne hqueue, hlive]
        rfl
      · rw [Engine.path, Function.update_of_ne hkey] at hpath
        exact h key o hpath
    · exact h key o hpath
  | restart =>
    obtain ⟨defs, hdefs, rfl⟩ := map_eq_some_iff.mp hpath
    obtain ⟨old, hold, rfl⟩ := map_eq_some_iff.mp hdefs
    exact (hev key (by rw [hold]; rfl)).symm

end MaterializingNode

end GrumpyDB
