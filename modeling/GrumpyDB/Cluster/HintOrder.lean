/-
The order in which hints are replayed.

A hint whose replay fails is queued again behind everything that waits, so a later hint of the
same document comes first. If only the last hint of a document ever fails, the replays are a
prefix of what was appended, document by document.
-/
import GrumpyDB.Lib.Refine
import GrumpyDB.Cluster.Hints

namespace GrumpyDB

open JsonLines HintSystem List

def HintRecord.doc (hint : HintRecord) : String × String × String × String :=
  (hint.tenant, hint.database, hint.collection, hint.key)

/-- The worker and the files, between two targets. -/
structure HintReplay where
  file : String → Named
  replayed : List (String × HintRecord)

/-- The worker turns to a live target; `ok i` tells whether the replica takes the `i`-th of
the hints it drained. -/
structure HintTurn where
  target : String
  ok : Nat → Bool

namespace HintReplay

variable [JsonText HintRecord]

def replayAll (file : Named) (ok : Nat → Bool) : List HintRecord → Named × List HintRecord
  | [] => (file, [])
  | hint :: hints =>
    if ok 0 then
      let (file, done) := replayAll file (fun i => ok (i + 1)) hints
      (file, hint :: done)
    else replayAll ((HintStore.append hint).exec file).2 (fun i => ok (i + 1)) hints

def turn (s : HintReplay) (t : HintTurn) : HintReplay :=
  match (HintStore.drainForNode DRAIN_LIMIT).exec (s.file t.target) with
  | (.error _, file) => { s with file := Function.update s.file t.target file }
  | (.ok hints, file) =>
    let (file, done) := replayAll file t.ok hints
    ⟨Function.update s.file t.target file, s.replayed ++ done.map fun hint => (t.target, hint)⟩

def run (s : HintReplay) (turns : List HintTurn) : HintReplay := turns.foldl turn s

def about (doc : String × String × String × String) (hints : List HintRecord) : List HintRecord :=
  hints.filter fun hint => hint.doc = doc

/-- Only hints fail that no other one of their document waits behind. -/
def FailsLast (ok : Nat → Bool) (batch waiting : List HintRecord) : Prop :=
  ∀ before hint after, batch = before ++ hint :: after → ok before.length = false →
    ∀ h ∈ after ++ waiting, h.doc ≠ hint.doc

def failed (ok : Nat → Bool) : List HintRecord → List HintRecord
  | [] => []
  | hint :: hints => (if ok 0 then [] else [hint]) ++ failed (fun i => ok (i + 1)) hints

def taken (ok : Nat → Bool) : List HintRecord → List HintRecord
  | [] => []
  | hint :: hints => (if ok 0 then [hint] else []) ++ taken (fun i => ok (i + 1)) hints

theorem replayAll_spec {file : Named} {waiting : List HintRecord} (h : Queued file waiting)
    (ok : Nat → Bool) (batch : List HintRecord) :
    (replayAll file ok batch).2 = taken ok batch ∧
      Queued (replayAll file ok batch).1 (waiting ++ failed ok batch) := by
  induction batch generalizing file waiting ok with
  | nil => exact ⟨rfl, by simpa [replayAll, failed] using h⟩
  | cons hint batch ih =>
    rw [replayAll, taken, failed]
    by_cases hok : ok 0 = true
    · obtain ⟨hdone, hfile⟩ := ih h fun i => ok (i + 1)
      simp only [hok, hdone]
      exact ⟨rfl, hfile⟩
    · obtain ⟨hdone, hfile⟩ := ih (append_spec h hint) fun i => ok (i + 1)
      simp only [hok]
      refine ⟨hdone, ?_⟩
      rwa [append_assoc] at hfile

theorem turn_spec {s : HintReplay} {t : HintTurn} {queue : List HintRecord}
    (h : Queued (s.file t.target) queue) :
    ∃ file, Queued file (queue.drop DRAIN_LIMIT ++ failed t.ok (queue.take DRAIN_LIMIT)) ∧
      s.turn t = ⟨Function.update s.file t.target file, s.replayed ++
        (taken t.ok (queue.take DRAIN_LIMIT)).map fun hint => (t.target, hint)⟩ := by
  have hlimit : 0 < DRAIN_LIMIT := by decide
  obtain ⟨hok, hleft⟩ := drain_spec h hlimit
  obtain ⟨hdone, hfile⟩ := replayAll_spec hleft t.ok (queue.take DRAIN_LIMIT)
  refine ⟨_, hfile, ?_⟩
  rcases hrun : (HintStore.drainForNode DRAIN_LIMIT).exec (s.file t.target) with ⟨reply, file⟩
  simp only [HintStore.drainForNode] at hrun
  rw [hrun] at hok hdone ⊢
  obtain rfl : reply = .ok (queue.take DRAIN_LIMIT) := hok
  simp only [turn, HintStore.drainForNode, hrun, hdone]

omit [JsonText HintRecord] in
theorem about_requeued {ok : Nat → Bool} {batch waiting : List HintRecord}
    (h : FailsLast ok batch waiting) (doc : String × String × String × String) :
    about doc (taken ok batch ++ (waiting ++ failed ok batch)) = about doc (batch ++ waiting) := by
  induction batch generalizing ok with
  | nil => simp [taken, failed]
  | cons hint batch ih =>
    have hrest : FailsLast (fun i => ok (i + 1)) batch waiting := by
      rintro before h' after rfl hfail
      exact h (hint :: before) h' after rfl hfail
    have ih := ih hrest
    rw [taken, failed]
    by_cases hok : ok 0 = true
    · simp only [hok, if_true, nil_append, cons_append, about, filter_cons]
      rw [show filter _ _ = _ from ih]
      rfl
    · have hlast := h [] hint batch rfl (by simpa using hok)
      simp only [hok]
      by_cases hdoc : hint.doc = doc
      · -- nothing of this document is left but the hint itself
        have hnone : about doc (batch ++ waiting) = [] := by
          refine filter_eq_nil_iff.mpr fun x hx => ?_
          simpa [hdoc] using hlast x hx
        rw [hnone] at ih
        simp only [about, filter_append, append_eq_nil_iff] at ih hnone
        simp [about, hdoc, ih, hnone]
      · simpa [about, hdoc] using ih

/-! ### Runs -/

omit [JsonText HintRecord] in
theorem on_append (target t : String) (history : List (String × HintRecord))
    (done : List HintRecord) : on target (history ++ done.map fun hint => (t, hint)) =
      on target history ++ if target = t then done else [] := by
  by_cases ht : target = t
  · simp [on, ht, filter_map]
  · simp [on, ht, Ne.symm ht]

/-- What was replayed and what is queued is what was appended, document by document. -/
def Keeps (s : HintReplay) (queue₀ : String → List HintRecord) : Prop :=
  ∃ queue : String → List HintRecord, (∀ t, Queued (s.file t) (queue t)) ∧
    ∀ t doc, about doc (on t s.replayed ++ queue t) = about doc (queue₀ t)

theorem Keeps.turn {s : HintReplay} {queue₀ : String → List HintRecord} (h : s.Keeps queue₀)
    {t : HintTurn} (hfail : ∀ queue, Queued (s.file t.target) queue →
      FailsLast t.ok (queue.take DRAIN_LIMIT) (queue.drop DRAIN_LIMIT)) :
    (s.turn t).Keeps queue₀ := by
  obtain ⟨queue, hqueued, hkeeps⟩ := h
  have hq := hqueued t.target
  obtain ⟨file, hfile, hturn⟩ := turn_spec hq
  rw [hturn]
  refine ⟨Function.update queue t.target ((queue t.target).drop DRAIN_LIMIT ++
    failed t.ok ((queue t.target).take DRAIN_LIMIT)), fun target => ?_, fun target doc => ?_⟩
  · by_cases ht : target = t.target
    · subst ht
      simpa using hfile
    · simpa [ht] using hqueued target
  · rw [← hkeeps, on_append]
    by_cases ht : target = t.target
    · subst ht
      have hmoved := about_requeued (hfail _ hq) doc
      rw [take_append_drop] at hmoved
      rw [if_pos rfl, Function.update_self, append_assoc]
      simp only [about, filter_append] at hmoved ⊢
      rw [hmoved]
    · rw [if_neg ht, Function.update_of_ne ht, append_nil]

end HintReplay

end GrumpyDB
