/-
Hinted handoff.

Connection handlers append hints; one worker drains the files of live replicas, replays what it
drained, and appends again what the replica did not take. Any append and the worker may take the
next file-system step, and the process may stop at any point, in the middle of a write too.
-/
import GrumpyDB.Cluster.JsonLines

namespace GrumpyDB

open JsonLines List

/-! ### Hints -/

inductive HintOperation where
  | upsert (valueJson : String)
  | delete
  | createIndex (indexName fieldPath : String)
  | dropIndex (indexName : String)
  deriving DecidableEq

/-- One write that could not be sent to a peer. -/
structure HintRecord where
  createdAtUnix : UInt64
  tenant : String
  database : String
  collection : String
  key : String
  operation : Option HintOperation
  payloadJson : Option String
  deriving DecidableEq

/-- The operation of a hint; older records have a payload instead. -/
def HintRecord.resolvedOperation (hint : HintRecord) : HintOperation :=
  match hint.operation with
  | some op => op
  | none =>
    match hint.payloadJson with
    | some payload =>
      if payload = "\x7b\"$delete\":true\x7d" then .delete else .upsert payload
    | none => .upsert "null"

namespace HintStore

variable [JsonText HintRecord]

def append (hint : HintRecord) : FileProg Unit := JsonLines.append hint

def drainForNode (limit : Nat) : FileProg (Except IoError (List HintRecord)) :=
  JsonLines.drain HintRecord limit

end HintStore

/-! ### A server at work -/

structure HintCall where
  target : String
  hint : HintRecord
  rest : FileProg Unit

inductive HintWorker where
  | idle
  | draining (target : String) (rest : FileProg (Except IoError (List HintRecord)))
  | replaying (target : String) (hints : List HintRecord)
  | requeueing (target : String) (hint : HintRecord) (rest : FileProg Unit)
      (hints : List HintRecord)

structure HintSystem where
  file : String → Named
  appends : List HintCall
  worker : HintWorker
  acked : List (String × HintRecord)
  replayed : List (String × HintRecord)

inductive HintEvent where
  /-- A handler calls `append`. -/
  | append (target : String) (hint : HintRecord)
  /-- The `k`-th append under way takes its next step, or returns. -/
  | advance (k : Nat)
  | drain (target : String)
  /-- The worker takes its next file-system step, or goes on with what it returned. -/
  | work
  /-- The replica takes the hint being replayed, or does not. -/
  | replay (ok : Bool)
  | crash
  /-- The process stops with `n` bytes of the next write of an append done. -/
  | tornAppend (k n : Nat)
  /-- The process stops with `n` bytes of the worker's next write done. -/
  | tornWork (n : Nat)

namespace HintSystem

def new : HintSystem := ⟨fun _ => Named.unused, [], .idle, [], []⟩

def perform (s : HintSystem) (target : String) (o : FileOp) : o.Reply × HintSystem :=
  ((Named.perform o (s.file target)).1,
    { s with file := Function.update s.file target (Named.perform o (s.file target)).2 })

def stop (s : HintSystem) : HintSystem := { s with appends := [], worker := .idle }

def DRAIN_LIMIT : Nat := 128

def replayRest (target : String) : List HintRecord → HintWorker
  | [] => .idle
  | hints => .replaying target hints

variable [JsonText HintRecord]

def step (s : HintSystem) : HintEvent → HintSystem
  | .append target hint =>
    { s with appends := s.appends ++ [⟨target, hint, HintStore.append hint⟩] }
  | .advance k =>
    match s.appends[k]? with
    | none => s
    | some ⟨target, hint, .ret ()⟩ =>
      { s with appends := s.appends.eraseIdx k, acked := s.acked ++ [(target, hint)] }
    | some ⟨target, hint, .op o next⟩ =>
      let (reply, s') := s.perform target o
      { s' with appends := s.appends.set k ⟨target, hint, next reply⟩ }
  | .drain target =>
    match s.worker with
    | .idle => { s with worker := .draining target (HintStore.drainForNode DRAIN_LIMIT) }
    | _ => s
  | .work =>
    match s.worker with
    | .draining target (.ret (.ok hints)) => { s with worker := replayRest target hints }
    | .draining _ (.ret (.error _)) => { s with worker := .idle }
    | .draining target (.op o next) =>
      let (reply, s') := s.perform target o
      { s' with worker := .draining target (next reply) }
    | .requeueing target _ (.ret ()) hints => { s with worker := replayRest target hints }
    | .requeueing target hint (.op o next) hints =>
      let (reply, s') := s.perform target o
      { s' with worker := .requeueing target hint (next reply) hints }
    | _ => s
  | .replay ok =>
    match s.worker with
    | .replaying target (hint :: hints) =>
      if ok then
        { s with worker := replayRest target hints, replayed := s.replayed ++ [(target, hint)] }
      else { s with worker := .requeueing target hint (HintStore.append hint) hints }
    | _ => s
  | .crash => s.stop
  | .tornAppend k n =>
    match s.appends[k]? with
    | some ⟨target, _, .op o _⟩ => (s.perform target (Named.tear n o)).2.stop
    | _ => s.stop
  | .tornWork n =>
    match s.worker with
    | .draining target (.op o _) => (s.perform target (Named.tear n o)).2.stop
    | .requeueing target _ (.op o _) _ => (s.perform target (Named.tear n o)).2.stop
    | _ => s.stop

def run (s : HintSystem) (events : List HintEvent) : HintSystem := events.foldl step s

/-! ### No hint is lost -/

def Resting (s : HintSystem) : Prop := s.appends = [] ∧ s.worker = .idle

/-- What `n` undisturbed drains return, one after the other. -/
def drains : Nat → Named → List HintRecord
  | 0, _ => []
  | n + 1, f =>
    match (HintStore.drainForNode DRAIN_LIMIT).exec f with
    | (.ok hints, f') => hints ++ drains n f'
    | (.error _, f') => drains n f'

def on (target : String) (history : List (String × HintRecord)) : List HintRecord :=
  (history.filter fun x => x.1 = target).map Prod.snd

/-- Every hint whose append returned was replayed or will be drained, as often
as it was appended. -/
def NoneLost (s : HintSystem) : Prop :=
  ∀ target, ∃ n, ∀ hint, (on target s.acked).count hint ≤
    (on target s.replayed).count hint + (drains n (s.file target)).count hint

/-! ### One call at a time -/

def workerFile : HintWorker → Option String
  | .draining target _ => some target
  | .requeueing target _ _ _ => some target
  | _ => none

def hand (target : String) : HintWorker → List HintRecord
  | .replaying t hints => if t = target then hints else []
  | .requeueing t hint _ hints => if t = target then hint :: hints else []
  | _ => []

/-- No append to the file of this node is under way. -/
def Unappended (s : HintSystem) (target : String) : Prop :=
  target ∉ s.appends.map HintCall.target

/-- The step starts no call on a file that another call is working on, and does
not stop the process while something is under way. -/
def Orderly (s : HintSystem) : HintEvent → Prop
  | .append target _ => s.Unappended target ∧ workerFile s.worker ≠ some target
  | .drain target => s.Unappended target
  | .replay false => ∀ target hints, s.worker = .replaying target hints → s.Unappended target
  | .crash => s.Resting
  | .tornAppend .. => False
  | .tornWork _ => False
  | _ => True

/-- What a call under way will leave, if it is left alone. -/
def WorkerDone (file : String → Named) (queue : String → List HintRecord) : HintWorker → Prop
  | .draining t rest => ∃ hints keep, queue t = hints ++ keep ∧
      (rest.exec (file t)).1 = .ok hints ∧ Queued (rest.exec (file t)).2 keep
  | .requeueing t hint rest _ => Queued (rest.exec (file t)).2 (queue t ++ [hint])
  | _ => True

/-- `queue` is what the files hold, not counting the appends under way. -/
structure Inv (s : HintSystem) (queue : String → List HintRecord) : Prop where
  balance : ∀ t, (on t s.acked).Perm (on t s.replayed ++ hand t s.worker ++ queue t)
  nodup : (s.appends.map HintCall.target).Nodup
  apart : ∀ t, workerFile s.worker = some t → s.Unappended t
  calls : ∀ c ∈ s.appends, Queued (c.rest.exec (s.file c.target)).2 (queue c.target ++ [c.hint])
  worker : WorkerDone s.file queue s.worker
  quiet : ∀ t, s.Unappended t → workerFile s.worker ≠ some t → Queued (s.file t) (queue t)

theorem inv_new : Inv new fun _ => [] where
  balance t := by simp [new, hand, on]
  nodup := by simp [new]
  apart t h := by simp [new, workerFile] at h
  calls c hc := by simp [new] at hc
  worker := trivial
  quiet t _ _ := queued_unused

variable {s : HintSystem} {queue : String → List HintRecord}

variable {target : String} {hint : HintRecord}

theorem Inv.append (h : Inv s queue) (hfree : s.Unappended target)
    (hworker : workerFile s.worker ≠ some target) :
    Inv (s.step (.append target hint)) queue where
  balance := h.balance
  nodup := by
    have : (s.appends.map HintCall.target ++ [target]).Nodup := by
      rw [nodup_append]
      exact ⟨h.nodup, by simp, by simpa [Unappended] using hfree⟩
    simpa [step] using this
  apart t ht := by
    have hne : t ≠ target := by
      rintro rfl
      exact hworker ht
    have := h.apart t ht
    simpa [Unappended, step, hne] using this
  calls c hc := by
    rcases mem_append.mp hc with hc | hc
    · exact h.calls c hc
    · obtain rfl := mem_singleton.mp hc
      exact append_spec (h.quiet target hfree hworker) hint
  worker := h.worker
  quiet t ht hw := by
    have ht' : s.Unappended t := by
      intro hmem
      exact ht (by simp only [step, map_append, mem_append, hmem, true_or])
    exact h.quiet t ht' hw

variable {k : Nat}

omit [JsonText HintRecord] in
theorem split_at {α : Type} {l : List α} {c : α} (h : l[k]? = some c) :
    ∃ A B, l = A ++ c :: B ∧ l.eraseIdx k = A ++ B ∧ ∀ c', l.set k c' = A ++ c' :: B := by
  obtain ⟨hk, rfl⟩ := List.getElem?_eq_some_iff.mp h
  refine ⟨l.take k, l.drop (k + 1), ?_, List.eraseIdx_eq_take_drop_succ .., fun c' => ?_⟩
  · rw [← List.drop_eq_getElem_cons hk, List.take_append_drop]
  · rw [set_eq_take_append_cons_drop, if_pos hk]

theorem Inv.ne_of_call (h : Inv s queue) {A B : List HintCall} {c : HintCall}
    (hs : s.appends = A ++ c :: B) : ∀ c' ∈ A ++ B, c'.target ≠ c.target := by
  have hnodup := h.nodup
  rw [hs, map_append, map_cons, nodup_middle, nodup_cons] at hnodup
  intro c' hc' heq
  exact hnodup.1 (by rw [← map_append, ← heq]; exact mem_map_of_mem hc')

theorem Inv.workerFile_ne (h : Inv s queue) {c : HintCall} (hc : c ∈ s.appends) :
    workerFile s.worker ≠ some c.target :=
  fun hw => h.apart _ hw (List.mem_map_of_mem hc)

variable {w : HintWorker}

omit [JsonText HintRecord] in
theorem WorkerDone.congr {file file' : String → Named} {queue queue' : String → List HintRecord}
    [JsonText HintRecord] (h : WorkerDone file queue w)
    (hsame : ∀ t, workerFile w = some t → file' t = file t ∧ queue' t = queue t) :
    WorkerDone file' queue' w := by
  cases w with
  | idle => trivial
  | replaying t hints => trivial
  | draining t rest =>
    obtain ⟨hf, hq⟩ := hsame t rfl
    simp only [WorkerDone, hf, hq]
    exact h
  | requeueing t hint rest hints =>
    obtain ⟨hf, hq⟩ := hsame t rfl
    simp only [WorkerDone, hf, hq]
    exact h

theorem Inv.returned (h : Inv s queue) (hk : s.appends[k]? = some ⟨target, hint, .ret ()⟩) :
    ∃ queue', Inv (s.step (.advance k)) queue' := by
  obtain ⟨A, B, hs, herase, -⟩ := split_at hk
  have hmem : (⟨target, hint, .ret ()⟩ : HintCall) ∈ s.appends := by simp [hs]
  have hothers := h.ne_of_call hs
  have hworker : workerFile s.worker ≠ some target := h.workerFile_ne hmem
  have hdone : Queued (s.file target) (queue target ++ [hint]) := h.calls _ hmem
  have hstep : s.step (.advance k)
      = { s with appends := A ++ B, acked := s.acked ++ [(target, hint)] } := by
    simp only [step, hk, herase]
  have hsub : (A ++ B).Sublist s.appends :=
    hs ▸ (List.Sublist.refl A).append (sublist_cons_self _ B)
  refine ⟨Function.update queue target (queue target ++ [hint]), hstep ▸ ?_⟩
  refine ⟨?_, ?_, ?_, ?_, ?_, ?_⟩
  · intro t
    by_cases ht : t = target
    · subst ht
      have := (h.balance t).append_right [hint]
      simpa [on] using this
    · simpa [on, Ne.symm ht, ht] using h.balance t
  · exact h.nodup.sublist (hsub.map _)
  · exact fun t ht hmem' => h.apart t ht ((hsub.map _).subset hmem')
  · intro c hc
    have := h.calls c (hsub.subset hc)
    simpa [hothers c hc] using this
  · refine h.worker.congr fun t ht => ⟨rfl, ?_⟩
    have hne : t ≠ target := fun heq => hworker (heq ▸ ht)
    simp [hne]
  · intro t ht hw
    by_cases heq : t = target
    · subst heq
      simpa using hdone
    · have hfree : s.Unappended t := by
        intro hmem'
        obtain ⟨c, hc, hct⟩ := mem_map.mp hmem'
        rw [hs] at hc
        rcases mem_append.mp hc with hc | hc
        · exact ht (hct ▸ mem_map_of_mem (mem_append_left _ hc))
        rcases mem_cons.mp hc with rfl | hc
        · exact heq hct.symm
        · exact ht (hct ▸ mem_map_of_mem (mem_append_right _ hc))
      simpa [heq] using h.quiet t hfree hw

theorem Inv.advanced (h : Inv s queue) {o : FileOp} {next : o.Reply → FileProg Unit}
    (hk : s.appends[k]? = some ⟨target, hint, .op o next⟩) :
    Inv (s.step (.advance k)) queue := by
  obtain ⟨A, B, hs, -, hset⟩ := split_at hk
  have hmem : (⟨target, hint, .op o next⟩ : HintCall) ∈ s.appends := by simp [hs]
  have hothers := h.ne_of_call hs
  have hworker : workerFile s.worker ≠ some target := h.workerFile_ne hmem
  have hdone : Queued ((next (Named.perform o (s.file target)).1).exec
      (Named.perform o (s.file target)).2).2 (queue target ++ [hint]) := h.calls _ hmem
  have hstep : s.step (.advance k) = { s with
      file := Function.update s.file target (Named.perform o (s.file target)).2
      appends := A ++ ⟨target, hint, next (Named.perform o (s.file target)).1⟩ :: B } := by
    simp only [step, hk, perform, hset]
  have htargets : (A ++ (⟨target, hint, next (Named.perform o (s.file target)).1⟩ : HintCall) ::
      B).map HintCall.target = s.appends.map HintCall.target := by simp [hs]
  rw [hstep]
  refine ⟨h.balance, ?_, ?_, ?_, ?_, ?_⟩
  · exact htargets ▸ h.nodup
  · exact fun t ht hmem' => h.apart t ht (htargets ▸ hmem')
  · intro c hc
    rcases mem_append.mp hc with hc | hc
    · have := h.calls c (by simp [hs, hc])
      simpa [hothers c (mem_append_left _ hc)] using this
    rcases mem_cons.mp hc with rfl | hc
    · simpa using hdone
    · have := h.calls c (by simp [hs, hc])
      simpa [hothers c (mem_append_right _ hc)] using this
  · refine h.worker.congr fun t ht => ⟨?_, rfl⟩
    have hne : t ≠ target := fun heq => hworker (heq ▸ ht)
    simp [hne]
  · intro t ht hw
    have hfree : s.Unappended t := fun hmem' => ht (htargets ▸ hmem')
    have hne : t ≠ target := by
      rintro rfl
      exact hfree (mem_map_of_mem hmem)
    simpa [hne] using h.quiet t hfree hw

theorem Inv.drain (h : Inv s queue) (hfree : s.Unappended target) :
    Inv (s.step (.drain target)) queue := by
  cases hw : s.worker with
  | idle =>
    have hstep : s.step (.drain target) =
        { s with worker := .draining target (HintStore.drainForNode DRAIN_LIMIT) } := by
      simp only [step, hw]
    have hq : Queued (s.file target) (queue target) := h.quiet target hfree
      (by simp [hw, workerFile])
    have hlimit : 0 < DRAIN_LIMIT := by decide
    obtain ⟨hok, hleft⟩ := drain_spec hq hlimit
    rw [hstep]
    refine ⟨?_, h.nodup, ?_, h.calls, ⟨_, _, (take_append_drop ..).symm, hok, hleft⟩, ?_⟩
    · simpa [hw, hand] using h.balance
    · intro t ht
      obtain rfl : target = t := by simpa [workerFile] using ht
      exact hfree
    · exact fun t ht _ => h.quiet t ht (by simp [hw, workerFile])
  | draining t rest => simpa [step, hw] using h
  | replaying t hints => simpa [step, hw] using h
  | requeueing t hint rest hints => simpa [step, hw] using h

theorem Inv.settle (h : Inv s queue) (hw : workerFile s.worker = some target)
    {left : List HintRecord} (hleft : Queued (s.file target) left) (hnone : workerFile w = none)
    (hdone : WorkerDone s.file queue w) (hbalance : ∀ t, (on t s.acked).Perm
      (on t s.replayed ++ hand t w ++ Function.update queue target left t)) :
    Inv { s with worker := w } (Function.update queue target left) where
  balance := hbalance
  nodup := h.nodup
  apart t ht := by simp [hnone] at ht
  calls c hc := by
    have hne : c.target ≠ target := fun heq => h.workerFile_ne hc (heq ▸ hw)
    simpa [hne] using h.calls c hc
  worker := hdone.congr fun t ht => by simp [hnone] at ht
  quiet t ht _ := by
    by_cases heq : t = target
    · subst heq
      simpa using hleft
    · simpa [heq] using h.quiet t ht (by simp [hw, Ne.symm heq])

theorem Inv.worked (h : Inv s queue) (hw : workerFile s.worker = some target) {f : Named}
    (hfile : workerFile w = some target) (hhand : ∀ t, hand t w = hand t s.worker)
    (hdone : WorkerDone (Function.update s.file target f) queue w) :
    Inv { s with file := Function.update s.file target f, worker := w } queue where
  balance t := by simpa [hhand t] using h.balance t
  nodup := h.nodup
  apart t ht := h.apart t (by rw [hw, ← hfile, ht])
  calls c hc := by
    have hne : c.target ≠ target := fun heq => h.workerFile_ne hc (heq ▸ hw)
    simpa [hne] using h.calls c hc
  worker := hdone
  quiet t ht hne := by
    have hne' : t ≠ target := by
      rintro rfl
      exact hne hfile
    simpa [hne'] using h.quiet t ht (by rw [hw]; simpa using Ne.symm hne')

omit [JsonText HintRecord] in
theorem workerFile_replayRest (target : String) (hints : List HintRecord) :
    workerFile (replayRest target hints) = none := by
  cases hints <;> rfl

omit [JsonText HintRecord] in
theorem hand_replayRest (t target : String) (hints : List HintRecord) :
    hand t (replayRest target hints) = if target = t then hints else [] := by
  cases hints <;> simp [replayRest, hand]

theorem workerDone_replayRest (file : String → Named) (queue : String → List HintRecord)
    (target : String) (hints : List HintRecord) :
    WorkerDone file queue (replayRest target hints) := by
  cases hints <;> trivial

theorem Inv.work (h : Inv s queue) : ∃ queue', Inv (s.step .work) queue' := by
  rcases hw : s.worker with _ | ⟨target, _ | ⟨o, next⟩⟩ | ⟨target, hints⟩ |
      ⟨target, hint, _ | ⟨o, next⟩, hints⟩
  · exact ⟨queue, by simpa [step, hw] using h⟩
  · -- the drain returned
    rename_i reply
    obtain ⟨hints, keep, hq, hok, hkeep⟩ : ∃ hints keep, queue target = hints ++ keep ∧
        reply = .ok hints ∧ Queued (s.file target) keep := by simpa [hw, WorkerDone] using h.worker
    subst hok
    have hstep : s.step .work = { s with worker := replayRest target hints } := by
      simp only [step, hw]
    refine ⟨Function.update queue target keep, hstep ▸ h.settle (by simp [hw, workerFile]) hkeep
      (workerFile_replayRest ..) (workerDone_replayRest ..) fun t => ?_⟩
    have hbal := h.balance t
    rw [hand_replayRest]
    by_cases ht : target = t
    · subst ht
      simpa [hw, hand, hq] using hbal
    · simpa [hw, hand, ht, Ne.symm ht] using hbal
  · -- the drain takes a step
    have hdone : WorkerDone s.file queue (.draining target (.op o next)) := hw ▸ h.worker
    refine ⟨queue, ?_⟩
    simp only [step, hw, perform]
    refine h.worked (by simp [hw, workerFile]) rfl (by simp [hw, hand]) ?_
    simpa [WorkerDone, FileProg.exec_op] using hdone
  · exact ⟨queue, by simpa [step, hw] using h⟩
  · -- the hint is queued again
    have hleft : Queued (s.file target) (queue target ++ [hint]) := by
      have hdone := h.worker
      rw [hw] at hdone
      exact hdone
    have hstep : s.step .work = { s with worker := replayRest target hints } := by
      simp only [step, hw]
    refine ⟨Function.update queue target (queue target ++ [hint]), hstep ▸
      h.settle (by simp [hw, workerFile]) hleft (workerFile_replayRest ..)
        (workerDone_replayRest ..) fun t => ?_⟩
    have hbal := h.balance t
    rw [hand_replayRest]
    by_cases ht : target = t
    · subst ht
      refine hbal.trans ?_
      simp only [hw, hand, if_true, Function.update_self, append_assoc]
      refine List.Perm.append_left _ ?_
      rw [cons_append, ← append_assoc]
      exact (perm_append_singleton hint (hints ++ queue target)).symm
    · simpa [hw, hand, ht, Ne.symm ht] using hbal
  · -- queueing it again takes a step
    have hdone : WorkerDone s.file queue (.requeueing target hint (.op o next) hints) :=
      hw ▸ h.worker
    refine ⟨queue, ?_⟩
    simp only [step, hw, perform]
    refine h.worked (by simp [hw, workerFile]) rfl (by simp [hw, hand]) ?_
    simpa [WorkerDone, FileProg.exec_op] using hdone

theorem Inv.replay (h : Inv s queue) {ok : Bool} (hord : s.Orderly (.replay ok)) :
    Inv (s.step (.replay ok)) queue := by
  rcases hw : s.worker with _ | ⟨target, rest⟩ | ⟨target, _ | ⟨hint, hints⟩⟩ |
      ⟨target, hint, rest, hints⟩
  · simpa [step, hw] using h
  · simpa [step, hw] using h
  · simpa [step, hw] using h
  · have hquiet : ∀ t, s.Unappended t → Queued (s.file t) (queue t) :=
      fun t ht => h.quiet t ht (by simp [hw, workerFile])
    cases ok with
    | true =>
      have hstep : s.step (.replay true) = { s with
          worker := replayRest target hints, replayed := s.replayed ++ [(target, hint)] } := by
        simp only [step, hw, if_true]
      rw [hstep]
      refine ⟨fun t => ?_, h.nodup, ?_, h.calls, workerDone_replayRest ..,
        fun t ht _ => hquiet t ht⟩
      · have hbal := h.balance t
        rw [hand_replayRest]
        by_cases ht : target = t
        · subst ht
          simpa [hw, hand, on] using hbal
        · simpa [hw, hand, on, ht] using hbal
      · intro t ht
        simp [workerFile_replayRest] at ht
    | false =>
      have hfree : s.Unappended target := hord target (hint :: hints) hw
      have hstep : s.step (.replay false) = { s with
          worker := .requeueing target hint (HintStore.append hint) hints } := by
        simp [step, hw]
      rw [hstep]
      refine ⟨fun t => ?_, h.nodup, ?_, h.calls, append_spec (hquiet target hfree) hint,
        fun t ht _ => hquiet t ht⟩
      · simpa [hw, hand] using h.balance t
      · intro t ht
        obtain rfl : target = t := by simpa [workerFile] using ht
        exact hfree
  · simpa [step, hw] using h

theorem Inv.step (h : Inv s queue) {ev : HintEvent} (hord : s.Orderly ev) :
    ∃ queue', Inv (s.step ev) queue' := by
  cases ev with
  | append target hint => exact ⟨queue, h.append hord.1 hord.2⟩
  | advance k =>
    rcases hk : s.appends[k]? with _ | ⟨target, hint, _ | ⟨o, next⟩⟩
    · exact ⟨queue, by simpa [HintSystem.step, hk] using h⟩
    · exact h.returned hk
    · exact ⟨queue, h.advanced hk⟩
  | drain target => exact ⟨queue, h.drain hord⟩
  | work => exact h.work
  | replay ok => exact ⟨queue, h.replay hord⟩
  | crash =>
    obtain ⟨happends, hworker⟩ : s.Resting := hord
    have hstop : s.stop = s := by
      cases s
      simp_all [stop]
    exact ⟨queue, by simpa [HintSystem.step, hstop] using h⟩
  | tornAppend k n => exact hord.elim
  | tornWork n => exact hord.elim

def RunsOrderly (s : HintSystem) : List HintEvent → Prop
  | [] => True
  | ev :: events => s.Orderly ev ∧ RunsOrderly (s.step ev) events

theorem Inv.run (h : Inv s queue) {events : List HintEvent} (hord : s.RunsOrderly events) :
    ∃ queue', Inv (s.run events) queue' := by
  induction events generalizing s queue with
  | nil => exact ⟨queue, h⟩
  | cons ev events ih =>
    obtain ⟨queue', h'⟩ := h.step hord.1
    exact ih h' hord.2

theorem drains_of_queued {f : Named} {hints : List HintRecord} (h : Queued f hints) {n : Nat}
    (hn : hints.length ≤ n) : drains n f = hints := by
  induction n generalizing f hints with
  | zero => simpa [drains, eq_comm] using hn
  | succ n ih =>
    have hlimit : 0 < DRAIN_LIMIT := by decide
    obtain ⟨hok, hleft⟩ := drain_spec h hlimit
    have hlen : (hints.drop DRAIN_LIMIT).length ≤ n := by
      rw [length_drop]
      omega
    have hrest := ih hleft hlen
    rcases hrun : (HintStore.drainForNode DRAIN_LIMIT).exec f with ⟨reply, f'⟩
    simp only [HintStore.drainForNode] at hrun
    rw [hrun] at hok hrest
    obtain rfl : reply = .ok (hints.take DRAIN_LIMIT) := hok
    have hdrains : drains (n + 1) f = hints.take DRAIN_LIMIT ++ drains n f' := by
      simp only [drains, HintStore.drainForNode, hrun]
    rw [hdrains, hrest, take_append_drop]

theorem Inv.noneLost (h : Inv s queue) (hrest : s.Resting) : s.NoneLost := by
  obtain ⟨happends, hworker⟩ := hrest
  intro target
  have hfree : s.Unappended target := by simp [Unappended, happends]
  have hq := h.quiet target hfree (by simp [hworker, workerFile])
  refine ⟨(queue target).length, fun hint => ?_⟩
  rw [drains_of_queued hq le_rfl, (h.balance target).count_eq]
  simp [hworker, hand]

/-! ### Calls that are left alone -/

def drained (target : String) : Except IoError (List HintRecord) → HintWorker
  | .ok hints => replayRest target hints
  | .error _ => .idle

theorem run_append (s : HintSystem) (events events' : List HintEvent) :
    s.run (events ++ events') = (s.run events).run events' := List.foldl_append

theorem run_advance_alone {p : FileProg Unit} (hs : s.appends = [⟨target, hint, p⟩]) :
    ∃ n, s.run (List.replicate n (.advance 0)) = { s with
      file := Function.update s.file target (p.exec (s.file target)).2
      appends := [], acked := s.acked ++ [(target, hint)] } := by
  induction p generalizing s with
  | ret a =>
    refine ⟨1, ?_⟩
    simp [run, HintSystem.step, hs]
  | op o next ih =>
    set s' := s.step (.advance 0) with hs'
    have hstep : s' = { s with
        file := Function.update s.file target (Named.perform o (s.file target)).2
        appends := [⟨target, hint, next (Named.perform o (s.file target)).1⟩] } := by
      simp [hs', HintSystem.step, hs, perform]
    obtain ⟨n, hn⟩ := ih (Named.perform o (s.file target)).1 (s := s') (by rw [hstep])
    refine ⟨n + 1, ?_⟩
    rw [replicate_succ, ← singleton_append, run_append]
    show s'.run _ = _
    rw [hn, hstep]
    simp [FileProg.exec_op]

theorem run_work_alone {p : FileProg (Except IoError (List HintRecord))}
    (hs : s.worker = .draining target p) :
    ∃ n, s.run (List.replicate n .work) = { s with
      file := Function.update s.file target (p.exec (s.file target)).2
      worker := drained target (p.exec (s.file target)).1 } := by
  induction p generalizing s with
  | ret reply =>
    refine ⟨1, ?_⟩
    cases reply <;> simp [run, HintSystem.step, hs, drained]
  | op o next ih =>
    set s' := s.step .work with hs'
    have hstep : s' = { s with
        file := Function.update s.file target (Named.perform o (s.file target)).2
        worker := .draining target (next (Named.perform o (s.file target)).1) } := by
      simp [hs', HintSystem.step, hs, perform]
    obtain ⟨n, hn⟩ := ih (Named.perform o (s.file target)).1 (s := s') (by rw [hstep])
    refine ⟨n + 1, ?_⟩
    rw [replicate_succ, ← singleton_append, run_append]
    show s'.run _ = _
    rw [hn, hstep]
    simp [FileProg.exec_op]

theorem runsOrderly_append {events events' : List HintEvent} (h : s.RunsOrderly events)
    (h' : (s.run events).RunsOrderly events') : s.RunsOrderly (events ++ events') := by
  induction events generalizing s with
  | nil => exact h'
  | cons ev events ih => exact ⟨h.1, ih h.2 h'⟩

theorem runsOrderly_replicate (ev : HintEvent) (hev : ∀ s : HintSystem, s.Orderly ev) (n : Nat) :
    s.RunsOrderly (List.replicate n ev) := by
  induction n generalizing s with
  | zero => trivial
  | succ n ih => exact ⟨hev s, ih⟩

/-- One hint can be appended and drained, so that the worker has it in its hands. -/
theorem exists_replaying (target : String) (hint : HintRecord) :
    ∃ events, new.RunsOrderly events ∧ (new.run events).appends = [] ∧
      (new.run events).worker = .replaying target [hint] ∧
      (new.run events).acked = [(target, hint)] ∧ (new.run events).replayed = [] ∧
      Queued ((new.run events).file target) ([] : List HintRecord) := by
  -- append
  set s₁ := new.step (.append target hint) with hs₁
  have happend₁ : s₁.appends = [⟨target, hint, HintStore.append hint⟩] := rfl
  obtain ⟨n, hn⟩ := run_advance_alone happend₁
  set s₂ := s₁.run (replicate n (.advance 0)) with hs₂
  have hqueued₂ : Queued (s₂.file target) [hint] := by
    have hdone : Queued ((HintStore.append hint).exec (s₁.file target)).2 ([] ++ [hint]) :=
      append_spec queued_unused hint
    rw [hn]
    simpa using hdone
  -- drain
  set s₃ := s₂.step (.drain target) with hs₃
  have hworker₃ : s₃.worker = .draining target (HintStore.drainForNode DRAIN_LIMIT) := by
    rw [hs₃, hn]
    rfl
  have hfile₃ : s₃.file target = s₂.file target := by
    rw [hs₃, hn]
    rfl
  have hlimit : 0 < DRAIN_LIMIT := by decide
  obtain ⟨hok, hleft⟩ := drain_spec hqueued₂ hlimit
  obtain ⟨m, hm⟩ := run_work_alone hworker₃
  rw [hfile₃, HintStore.drainForNode, hok] at hm
  have hrun : new.run ([.append target hint] ++ replicate n (.advance 0) ++ [.drain target] ++
      replicate m .work) = s₃.run (replicate m .work) := by
    simp only [run_append]
    rfl
  refine ⟨[.append target hint] ++ replicate n (.advance 0) ++ [.drain target] ++
    replicate m .work, ?_, ?_⟩
  · refine runsOrderly_append (runsOrderly_append (runsOrderly_append ?_ ?_) ?_) ?_
    · exact ⟨⟨by simp [Unappended, new], by simp [new, workerFile]⟩, trivial⟩
    · exact runsOrderly_replicate (.advance 0) (fun _ => trivial) n
    · refine ⟨?_, trivial⟩
      show (new.run _).Unappended target
      rw [run_append]
      show s₂.Unappended target
      simp [Unappended, hn]
    · exact runsOrderly_replicate .work (fun _ => trivial) m
  · rw [hrun, hm]
    refine ⟨?_, rfl, ?_, ?_, ?_⟩
    · rw [hs₃, hn]
      rfl
    · rw [hs₃, hn]
      rfl
    · rw [hs₃, hn]
      rfl
    · simpa [DRAIN_LIMIT] using hleft

end HintSystem

/-- **No hint is lost** when the calls on one file do not overlap and the process
stops only while nothing is under way: whenever nothing is under way, every
hint whose append returned was replayed or will be drained. -/
theorem hints_not_lost [JsonText HintRecord] (events : List HintEvent)
    (hord : HintSystem.new.RunsOrderly events)
    (hrest : (HintSystem.new.run events).Resting) : (HintSystem.new.run events).NoneLost := by
  obtain ⟨queue, h⟩ := HintSystem.inv_new.run hord
  exact h.noneLost hrest

theorem countable_hintRecord : Countable HintRecord := by
  have hchar : Countable Char := Function.Injective.countable fun a b h => Char.toNat_inj.mp h
  have hstring : Countable String :=
    Function.Injective.countable fun a b h => String.toList_injective h
  have hop : Countable HintOperation := by
    let number : HintOperation → Nat × String × String
      | .upsert valueJson => (0, valueJson, "")
      | .delete => (1, "", "")
      | .createIndex indexName fieldPath => (2, indexName, fieldPath)
      | .dropIndex indexName => (3, indexName, "")
    refine Function.Injective.countable (f := number) fun a b h => ?_
    cases a <;> cases b <;> simp_all [number]
  refine Function.Injective.countable (f := fun r : HintRecord => (r.createdAtUnix.toNat, r.tenant,
    r.database, r.collection, r.key, r.operation, r.payloadJson)) fun a b h => ?_
  obtain ⟨a₁, _⟩ := a
  obtain ⟨b₁, _⟩ := b
  obtain ⟨h₁, h⟩ := Prod.mk.inj h
  obtain rfl : a₁ = b₁ := UInt64.toNat_inj.mp h₁
  simp_all

/-- A hint that is appended, drained and replayed. -/
theorem hints_not_lost_replayed : ∃ (_ : JsonText HintRecord) (events : List HintEvent),
    (HintSystem.new.run events).acked ≠ [] ∧ (HintSystem.new.run events).NoneLost := by
  have := countable_hintRecord
  obtain ⟨json⟩ := JsonText.nonempty HintRecord
  obtain ⟨events, hord, happends, hworker, hacked, hreplayed, -⟩ :=
    HintSystem.exists_replaying "n" ⟨0, "t", "d", "c", "k", some .delete, none⟩
  set s := HintSystem.new.run events with hs
  have hrun : HintSystem.new.run (events ++ [.replay true]) = s.step (.replay true) := by
    rw [HintSystem.run_append]
    rfl
  refine ⟨json, events ++ [.replay true], ?_, hints_not_lost _ ?_ ?_⟩
  · simp [hrun, HintSystem.step, hworker, hacked]
  · exact HintSystem.runsOrderly_append hord ⟨trivial, trivial⟩
  · rw [hrun]
    simp [HintSystem.Resting, HintSystem.step, hworker, happends, HintSystem.replayRest]

/-- **Hints are lost**: a drain takes the hints out of the file before they are
replayed, and a process that stops in between leaves them nowhere. -/
theorem hints_lost : ∃ (_ : JsonText HintRecord) (events : List HintEvent),
    (HintSystem.new.run events).Resting ∧ ¬ (HintSystem.new.run events).NoneLost := by
  have := countable_hintRecord
  obtain ⟨json⟩ := JsonText.nonempty HintRecord
  set hint : HintRecord := ⟨0, "t", "d", "c", "k", some .delete, none⟩ with hhint
  obtain ⟨events, -, -, -, hacked, hreplayed, hleft⟩ := HintSystem.exists_replaying "n" hint
  have hrun : HintSystem.new.run (events ++ [.crash]) = (HintSystem.new.run events).stop := by
    rw [HintSystem.run_append]
    rfl
  refine ⟨json, events ++ [.crash], ?_, fun hlost => ?_⟩
  · rw [hrun]
    exact ⟨rfl, rfl⟩
  · obtain ⟨n, hn⟩ := hlost "n"
    have hcount := hn hint
    rw [hrun] at hcount
    have hdrains : HintSystem.drains n ((HintSystem.new.run events).file "n") = [] :=
      HintSystem.drains_of_queued hleft (Nat.zero_le n)
    simp [HintSystem.stop, hacked, hreplayed, hdrains, HintSystem.on] at hcount

end GrumpyDB
