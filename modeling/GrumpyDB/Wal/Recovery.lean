/-
Crash recovery: the page writes behind the last checkpoint are redone if their transaction has a
commit record, in order, and undone otherwise, backwards.

Undo comes after redo: a write of a transaction without a commit record is undone even if a
committed one has written the page since.
-/
import GrumpyDB.Lib.RedoUndo
import GrumpyDB.Manager
import GrumpyDB.Replication.Applier

namespace GrumpyDB

open Proc PageManager Option

/-! ### The two files -/

/-- The page file that a page id of the log is about. -/
inductive PageFile where
  | data
  | index
  deriving DecidableEq

/-- What recovery works on: both files, and the marks of the replication if it is
given any. -/
structure RecoveryState where
  dataPm : PageManager
  indexPm : PageManager
  applied : Option AppliedSet

def INDEX_PAGE_FLAG : UInt32 := 0x80000000

/-- Bit 31 marks the pages of the index file. -/
def selectPm (pageId : UInt32) : PageFile :=
  if pageId &&& INDEX_PAGE_FLAG ≠ 0 then .index else .data

structure PageLoc where
  file : PageFile
  id : UInt32
  deriving DecidableEq

def pageLoc (pageId : UInt32) : PageLoc := ⟨selectPm pageId, pageId &&& 0x7FFFFFFF⟩

namespace RecoveryState

def manager (s : RecoveryState) : PageFile → PageManager
  | .data => s.dataPm
  | .index => s.indexPm

def setManager (s : RecoveryState) (f : PageFile) (pm : PageManager) : RecoveryState :=
  match f with
  | .data => { s with dataPm := pm }
  | .index => { s with indexPm := pm }

def page? (s : RecoveryState) (l : PageLoc) : Option Page := (s.manager l.file).page? l.id

def Sized (s : RecoveryState) : Prop := ∀ f, (s.manager f).numPages = (s.manager f).file.length

end RecoveryState

def onFile {α : Type} (f : PageFile) (x : Proc Halt PageManager α) :
    Proc Halt RecoveryState α :=
  zoom (fun s => s.manager f) (fun pm s => s.setManager f pm) x

/-! ### Recovery -/

structure RecoveryResult where
  redoCount : Nat
  undoCount : Nat
  committedTxs : Nat
  recordsProcessed : Nat
  skippedDuplicate : Nat
  deriving DecidableEq

def RecoveryResult.default : RecoveryResult := ⟨0, 0, 0, 0, 0⟩

def checkpointLsn (records : List WalRecord) : UInt64 :=
  ((records.filter fun r => r.opType = .checkpoint).map WalRecord.lsn).foldl max 0

def activeRecords (records : List WalRecord) : List WalRecord :=
  records.filter fun r => checkpointLsn records < r.lsn

def committedTxs (active : List WalRecord) : List UInt64 :=
  ((active.filter fun r => r.opType = .commit).map WalRecord.txId).dedup

namespace WalRecord

/-- The new and the old image of a page write; none if there is not enough data. -/
def images? (r : WalRecord) : Option (Page × Page) :=
  if h : r.data.length < PAGE_SIZE * 2 then none
  else some (⟨slice 0 PAGE_SIZE r.data, length_slice (by omega)⟩,
    ⟨slice PAGE_SIZE PAGE_SIZE r.data, length_slice (by omega)⟩)

end WalRecord

namespace Recovery

variable [Crc32]

/-- Write an image to the page of a record, if the page exists. -/
def applyImage (r : WalRecord) (image : Page) : Proc Halt RecoveryState Unit := do
  let s ← get
  let loc := pageLoc r.pageId
  if loc.id.toNat < (s.manager loc.file).numPages then
    onFile loc.file (PageManager.writePage loc.id image)
  else pure ()

def applyAfterImage (r : WalRecord) : Proc Halt RecoveryState Unit :=
  match r.images? with
  | none => pure ()
  | some (after, _) => applyImage r after

def applyBeforeImage (r : WalRecord) : Proc Halt RecoveryState Unit :=
  match r.images? with
  | none => pure ()
  | some (_, before) => applyImage r before

/-- Whether the marks say that a record is applied already; they are raised by it. -/
def observed (r : WalRecord) : Proc Halt RecoveryState Bool := fun s =>
  match s.applied with
  | none => ⟨.ok false, s, []⟩
  | some set =>
    let (outcome, set) := set.observe r.originNodeId r.hlc
    ⟨.ok (outcome = .alreadyApplied), { s with applied := some set }, []⟩

def redo (committed : List UInt64) : List WalRecord → Nat → Nat →
    Proc Halt RecoveryState (Nat × Nat)
  | [], redone, skipped => pure (redone, skipped)
  | r :: rs, redone, skipped =>
    if r.opType = .pageWrite ∧ r.txId ∈ committed then do
      let dup ← observed r
      if dup then redo committed rs redone (skipped + 1)
      else do
        applyAfterImage r
        redo committed rs (redone + 1) skipped
    else redo committed rs redone skipped

def undo (committed : List UInt64) : List WalRecord → Nat → Proc Halt RecoveryState Nat
  | [], undone => pure undone
  | r :: rs, undone =>
    if r.opType = .pageWrite ∧ r.txId ∉ committed then do
      applyBeforeImage r
      undo committed rs (undone + 1)
    else undo committed rs undone

def recoverWithAppliedSet (records : List WalRecord) : Proc Halt RecoveryState RecoveryResult :=
  if records = [] then pure RecoveryResult.default
  else do
    let active := activeRecords records
    let committed := committedTxs active
    let (redone, skipped) ← redo committed active 0 0
    let undone ← undo committed active.reverse 0
    pure ⟨redone, undone, committed.length, active.length, skipped⟩

def recover (records : List WalRecord) : Proc Halt RecoveryState RecoveryResult := fun s =>
  recoverWithAppliedSet records { s with applied := none }

/-! ### Recovery as a list of writes -/

def put (s : RecoveryState) (w : PageLoc × Page) : RecoveryState :=
  if w.1.id.toNat < (s.manager w.1.file).numPages then
    s.setManager w.1.file ((s.manager w.1.file).setPage w.1.id w.2)
  else s

def puts (ws : List (PageLoc × Page)) (s : RecoveryState) : RecoveryState := ws.foldl put s

omit [Crc32] in
theorem puts_append (ws ws' : List (PageLoc × Page)) (s : RecoveryState) :
    puts (ws ++ ws') s = puts ws' (puts ws s) := List.foldl_append

/-- What recovery needs of the state and keeps. -/
structure Prepared (s : RecoveryState) : Prop where
  sized : s.Sized
  applied : s.applied = none

omit [Crc32] in
theorem manager_setManager (s : RecoveryState) (f g : PageFile) (pm : PageManager) :
    (s.setManager f pm).manager g = if g = f then pm else s.manager g := by
  cases f <;> cases g <;> rfl

variable {s : RecoveryState}

omit [Crc32] in
theorem Prepared.put (h : Prepared s) (w : PageLoc × Page) : Prepared (put s w) := by
  unfold Recovery.put
  split
  · refine ⟨fun f => ?_, ?_⟩
    · rw [manager_setManager]
      split
      · next hf =>
        rw [numPages_setPage, length_file_setPage, h.sized]
      · exact h.sized f
    · cases w.1.file <;> exact h.applied
  · exact h

omit [Crc32] in
theorem Prepared.puts (h : Prepared s) (ws : List (PageLoc × Page)) : Prepared (puts ws s) := by
  induction ws generalizing s with
  | nil => exact h
  | cons w ws ih => exact ih (h.put w)

/-- Run from `s`, `x` does the writes one after another, and can be stopped between
any two. -/
def Does {α : Type} (x : Proc Halt RecoveryState α) (ws : List (PageLoc × Page))
    (s : RecoveryState) : Prop :=
  (∃ a, (x s).res = .ok a) ∧ (x s).st = puts ws s ∧
    ∀ t ∈ (x s).cuts, ∃ m, t = puts (ws.take m) s

variable {α β : Type} {s : RecoveryState} {ws ws' : List (PageLoc × Page)}

omit [Crc32] in
theorem does_pure (a : α) : Does (pure a : Proc Halt RecoveryState α) [] s :=
  ⟨⟨a, rfl⟩, rfl, nofun⟩

variable {x : Proc Halt RecoveryState α}

omit [Crc32] in
theorem Does.bind {f : α → Proc Halt RecoveryState β} (hx : Does x ws s)
    (hf : ∀ a, Does (f a) ws' (puts ws s)) : Does (x >>= f) (ws ++ ws') s := by
  obtain ⟨⟨a, hres⟩, hst, hcuts⟩ := hx
  obtain ⟨hres', hst', hcuts'⟩ := hf a
  have hrun : (x >>= f) s = ⟨(f a (puts ws s)).res, (f a (puts ws s)).st,
      (x s).cuts ++ (f a (puts ws s)).cuts⟩ := by
    show Proc.bind x f s = _
    rw [Proc.bind, hres]
    simp only [hst]
  rw [Does, hrun, puts_append]
  refine ⟨hres', hst', fun t ht => ?_⟩
  rcases List.mem_append.1 ht with ht | ht
  · obtain ⟨m, rfl⟩ := hcuts t ht
    refine ⟨min m ws.length, ?_⟩
    rw [List.take_append_of_le_length (Nat.min_le_right _ _), ← List.take_take, List.take_length]
  · obtain ⟨m, rfl⟩ := hcuts' t ht
    refine ⟨ws.length + m, ?_⟩
    rw [List.take_length_add_append, puts_append]

omit [Crc32] in
theorem Does.bind_pure (hx : Does x ws s) (g : α → β) : Does (x >>= fun a => pure (g a)) ws s := by
  have h := hx.bind fun a => does_pure (g a)
  rwa [List.append_nil] at h

theorem runs_writePage {pm : PageManager} {i : UInt32} (hi : i.toNat < pm.numPages)
    (hsize : pm.numPages = pm.file.length) (p : Page) :
    Runs (PageManager.writePage i p) () pm (pm.setPage i (stampChecksum p))
      [pm.setPage i (stampChecksum p)] := by
  have hfile : pm.file.writeAt i.toNat (stampChecksum p) = pm.file.set i.toNat (stampChecksum p) :=
    if_pos (hsize ▸ hi)
  have hset : pm.setPage i (stampChecksum p) =
      { pm with file := pm.file.writeAt i.toNat (stampChecksum p) } := by
    rw [hfile]
    rfl
  rw [Runs, writePage, reads_get.run_bind, if_neg (by omega), hset]
  rfl

theorem does_applyImage (h : s.Sized) (r : WalRecord) (image : Page) :
    Does (applyImage r image) [(pageLoc r.pageId, stampChecksum image)] s := by
  have hputs : puts [(pageLoc r.pageId, stampChecksum image)] s =
      put s (pageLoc r.pageId, stampChecksum image) := rfl
  unfold Does applyImage
  rw [reads_get.run_bind, hputs, put]
  split
  · next hi =>
    have hrun : Runs (onFile (pageLoc r.pageId).file
        (writePage (pageLoc r.pageId).id image)) () s _ _ :=
      Runs.zoom (runs_writePage hi (h _) image)
    rw [hrun]
    refine ⟨⟨(), rfl⟩, rfl, fun t ht => ⟨1, ?_⟩⟩
    rw [List.mem_singleton.1 ht]
    show _ = put s (pageLoc r.pageId, stampChecksum image)
    rw [put, if_pos hi]
  · exact ⟨⟨(), rfl⟩, rfl, nofun⟩

/-! ### The writes that recovery does -/

def toLogged (r : WalRecord) : Option (Logged UInt64 PageLoc Page) :=
  if r.opType = .pageWrite then
    r.images?.map fun images =>
      ⟨r.txId, pageLoc r.pageId, stampChecksum images.2, stampChecksum images.1⟩
  else none

variable {r : WalRecord}

omit [Crc32] in
theorem images?_of_data {after before : Page} (h : r.data = after.bytes ++ before.bytes) :
    r.images? = some (after, before) := by
  have hlen : r.data.length = PAGE_SIZE * 2 := by
    rw [h, List.length_append, after.size, before.size]
    rfl
  have hafter : slice 0 PAGE_SIZE r.data = after.bytes := by
    rw [h]
    exact slice_append_self after.size
  have hbefore : slice PAGE_SIZE PAGE_SIZE r.data = before.bytes := by
    have hself : slice 0 PAGE_SIZE (before.bytes ++ []) = before.bytes :=
      slice_append_self before.size
    rw [List.append_nil] at hself
    rw [h, slice_append_right after.size.le, after.size, Nat.sub_self, hself]
  rw [WalRecord.images?, dif_neg (by omega)]
  congr 2
  · exact Page.ext hafter
  · exact Page.ext hbefore

theorem toLogged_pageWrite (lsn txId : UInt64) (originNodeId : U128) (hlc : Hlc)
    (vectorClock : VectorClock) (pageId : UInt32) (before after : Page) :
    toLogged (.pageWrite lsn txId originNodeId hlc vectorClock pageId before.bytes after.bytes) =
      some ⟨txId, pageLoc pageId, stampChecksum before, stampChecksum after⟩ := by
  have hop : (WalRecord.pageWrite lsn txId originNodeId hlc vectorClock pageId before.bytes
      after.bytes).opType = .pageWrite := rfl
  rw [toLogged, images?_of_data rfl]
  rfl

def pageWrites (rs : List WalRecord) : List (Logged UInt64 PageLoc Page) := rs.filterMap toLogged

def isCommitted (rs : List WalRecord) (tx : UInt64) : Bool := tx ∈ committedTxs rs

omit [Crc32] in
theorem reads_observed (h : Prepared s) (r : WalRecord) : Reads (observed r) false s := by
  rw [Reads, Runs, observed, h.applied]

theorem pageWrites_cons (r : WalRecord) (rs : List WalRecord) :
    pageWrites (r :: rs) = (toLogged r).toList ++ pageWrites rs := by
  rw [pageWrites, List.filterMap_cons]
  cases toLogged r <;> rfl

theorem filter_toLogged (p : UInt64 → Bool) (r : WalRecord) :
    (toLogged r).toList.filter (fun w => p w.tx) =
      if p r.txId then (toLogged r).toList else [] := by
  unfold toLogged
  split
  · cases r.images? with
    | none => simp
    | some images => by_cases h : p r.txId <;> simp [h]
  · simp

theorem does_applyAfterImage (h : s.Sized) (hop : r.opType = .pageWrite) :
    Does (applyAfterImage r) ((toLogged r).toList.map fun w => (w.key, w.after)) s := by
  rw [applyAfterImage, toLogged, if_pos hop]
  rcases r.images? with _ | ⟨after, before⟩
  · exact does_pure ()
  · exact does_applyImage h r after

theorem does_applyBeforeImage (h : s.Sized) (hop : r.opType = .pageWrite) :
    Does (applyBeforeImage r) ((toLogged r).toList.map fun w => (w.key, w.before)) s := by
  rw [applyBeforeImage, toLogged, if_pos hop]
  rcases r.images? with _ | ⟨after, before⟩
  · exact does_pure ()
  · exact does_applyImage h r before

theorem toLogged_of_ne (hop : r.opType ≠ .pageWrite) : toLogged r = none :=
  if_neg hop

theorem does_redo (h : Prepared s) (committed : List UInt64) (rs : List WalRecord) (n m : Nat) :
    Does (redo committed rs n m) (((pageWrites rs).filter fun w => decide (w.tx ∈ committed)).map
      fun w => (w.key, w.after)) s := by
  induction rs generalizing s n m with
  | nil => exact does_pure _
  | cons r rs ih =>
    rw [redo, pageWrites_cons, List.filter_append, List.map_append,
      filter_toLogged fun tx => decide (tx ∈ committed)]
    by_cases hop : r.opType = .pageWrite
    · by_cases htx : r.txId ∈ committed
      · rw [if_pos ⟨hop, htx⟩, if_pos (decide_eq_true htx), Does, (reads_observed h r).run_bind]
        exact (does_applyAfterImage h.sized hop).bind fun _ => ih (h.puts _) _ _
      · rw [if_neg fun hc => htx hc.2, if_neg (by simpa using htx)]
        exact ih h _ _
    · rw [if_neg fun hc => hop hc.1, toLogged_of_ne hop]
      simpa using ih h _ _

theorem does_undo (h : Prepared s) (committed : List UInt64) (rs : List WalRecord) (n : Nat) :
    Does (undo committed rs n) (((pageWrites rs).filter fun w => !decide (w.tx ∈ committed)).map
      fun w => (w.key, w.before)) s := by
  induction rs generalizing s n with
  | nil => exact does_pure _
  | cons r rs ih =>
    rw [undo, pageWrites_cons, List.filter_append, List.map_append,
      filter_toLogged fun tx => !decide (tx ∈ committed)]
    by_cases hop : r.opType = .pageWrite
    · by_cases htx : r.txId ∈ committed
      · rw [if_neg fun hc => hc.2 htx, if_neg (by simpa using htx)]
        exact ih h _
      · rw [if_pos ⟨hop, htx⟩, if_pos (by simpa using htx)]
        exact (does_applyBeforeImage h.sized hop).bind fun _ => ih (h.puts _) _
    · rw [if_neg fun hc => hop hc.1, toLogged_of_ne hop]
      simpa using ih h _

/-- **Recovery is a list of page writes**: those that redo and undo give for the
records after the last checkpoint. -/
theorem does_recover (h : Prepared s) (records : List WalRecord) :
    Does (recover records) (recoveryWrites (isCommitted (activeRecords records))
      (pageWrites (activeRecords records))) s := by
  have hs : { s with applied := none } = s := by
    rw [← h.applied]
  unfold Does recover
  rw [hs]
  show Does (recoverWithAppliedSet records) _ s
  rw [recoverWithAppliedSet]
  split
  · next hnil =>
    subst hnil
    exact does_pure _
  · have hundo := fun t => does_undo (h.puts t) (committedTxs (activeRecords records))
      (activeRecords records).reverse 0
    rw [pageWrites, List.filterMap_reverse, List.filter_reverse] at hundo
    refine (does_redo h _ _ 0 0).bind fun counts => ?_
    exact (hundo _).bind_pure _

/-! ### What recovery leaves in a page -/

omit [Crc32] in
theorem page?_put (h : s.Sized) (w : PageLoc × Page) (l : PageLoc) :
    (put s w).page? l = (s.page? l).map fun p => if l = w.1 then w.2 else p := by
  obtain ⟨⟨f, i⟩, p⟩ := w
  obtain ⟨g, j⟩ := l
  unfold put RecoveryState.page?
  by_cases hl : (⟨g, j⟩ : PageLoc) = ⟨f, i⟩
  · cases hl
    simp only [if_true]
    split
    · next hi =>
      rw [h f] at hi
      obtain ⟨q, hq⟩ := exists_page? hi
      rw [manager_setManager, if_pos rfl, page?_setPage_self hi, hq]
      rfl
    · next hi =>
      rw [h f] at hi
      rw [page?_eq_none_iff.2 (by omega)]
      rfl
  · simp only [if_neg hl, map_id']
    split
    · rw [manager_setManager]
      split
      · next hg =>
        subst hg
        exact page?_setPage_ne fun hj => hl (by rw [hj])
      · rfl
    · rfl

omit [Crc32] in
theorem page?_puts (h : Prepared s) (ws : List (PageLoc × Page)) (l : PageLoc) :
    (puts ws s).page? l = (s.page? l).map fun p => applyAll ws (fun _ => p) l := by
  induction ws using List.reverseRecOn with
  | nil => exact map_id'.symm
  | append_singleton ws w ih =>
    rw [puts_append]
    show (put (puts ws s) w).page? l = _
    rw [page?_put (h.puts ws).sized, ih, map_map]
    congr 1
    funext p
    rw [applyAll_append]
    exact (Function.update_apply _ _ _ _).symm

/-- **What recovery leaves in a page**: the old image of the first write that is
undone, or else the new image of the last that is redone. -/
theorem page?_recover (h : Prepared s) (records : List WalRecord) (l : PageLoc) :
    (recover records s).st.page? l = (s.page? l).map (recoveredContent
      (isCommitted (activeRecords records)) (pageWrites (activeRecords records)) l) := by
  rw [(does_recover h records).2.1, page?_puts h]
  congr 1
  funext p
  rw [applyAll_recoveryWrites]

/-! ### Logs in order -/

/-- Records as the writer numbers them: in ascending order, from 1 on. -/
structure InLsnOrder (records : List WalRecord) : Prop where
  ascending : records.Pairwise fun r r' => r.lsn < r'.lsn
  positive : ∀ r ∈ records, 0 < r.lsn

/-- The records behind the last checkpoint record. -/
def afterCheckpoint : List WalRecord → List WalRecord
  | [] => []
  | r :: rs =>
    if ∃ c ∈ rs, c.opType = .checkpoint then afterCheckpoint rs
    else if r.opType = .checkpoint then rs else r :: rs

variable {x : UInt64}

omit [Crc32] in
theorem foldl_max_lt {xs : List UInt64} {m : UInt64} :
    xs.foldl max m < x ↔ m < x ∧ ∀ y ∈ xs, y < x := by
  induction xs generalizing m with
  | nil => simp
  | cons y ys ih => simp [ih, and_assoc]

variable {records : List WalRecord}

omit [Crc32] in
theorem checkpointLsn_lt_iff (hx : 0 < x) :
    checkpointLsn records < x ↔ ∀ c ∈ records, c.opType = .checkpoint → c.lsn < x := by
  rw [checkpointLsn, foldl_max_lt, List.forall_mem_map]
  constructor
  · rintro ⟨-, hall⟩ c hc hop
    exact hall c (List.mem_filter.2 ⟨hc, decide_eq_true hop⟩)
  · intro hall
    refine ⟨hx, fun c hc => ?_⟩
    obtain ⟨hc, hop⟩ := List.mem_filter.1 hc
    exact hall c hc (of_decide_eq_true hop)

omit [Crc32] in
theorem activeRecords_eq (h : InLsnOrder records) :
    activeRecords records = afterCheckpoint records := by
  have hactive : activeRecords records =
      records.filter fun r => decide (∀ c ∈ records, c.opType = .checkpoint → c.lsn < r.lsn) :=
    List.filter_congr fun r hr => decide_eq_decide.2 (checkpointLsn_lt_iff (h.positive r hr))
  rw [hactive]
  clear hactive
  induction records with
  | nil => rfl
  | cons r rs ih =>
    obtain ⟨hr, hrs⟩ := List.pairwise_cons.1 h.ascending
    have ih := ih ⟨hrs, fun r' h' => h.positive r' (List.mem_cons_of_mem r h')⟩
    rw [afterCheckpoint]
    by_cases hlater : ∃ c ∈ rs, c.opType = .checkpoint
    · -- a later checkpoint is above this record, and this one does not count beside it
      rw [if_pos hlater, ← ih]
      obtain ⟨c, hc, hop⟩ := hlater
      rw [List.filter_cons_of_neg]
      · refine List.filter_congr fun r' hr' => decide_eq_decide.2 ?_
        refine ⟨fun hall c' hc' => hall c' (List.mem_cons_of_mem r hc'), fun hall c' hc' hop' => ?_⟩
        rcases List.mem_cons.1 hc' with rfl | hc'
        · exact hr r' hr'
        · exact hall c' hc' hop'
      · intro hall
        have hlt := of_decide_eq_true hall c (List.mem_cons_of_mem r hc) hop
        exact absurd (hr c hc) (not_lt.2 hlt.le)
    · rw [if_neg hlater]
      have hnone : ∀ c ∈ rs, c.opType ≠ .checkpoint := fun c hc hop => hlater ⟨c, hc, hop⟩
      split
      · next hop =>
        rw [List.filter_cons_of_neg]
        · refine List.filter_eq_self.2 fun r' hr' => decide_eq_true fun c hc hop' => ?_
          rcases List.mem_cons.1 hc with rfl | hc
          · exact hr r' hr'
          · exact absurd hop' (hnone c hc)
        · intro hall
          exact lt_irrefl _ (of_decide_eq_true hall r List.mem_cons_self hop)
      · next hop =>
        refine List.filter_eq_self.2 fun r' _ => decide_eq_true fun c hc hop' => ?_
        rcases List.mem_cons.1 hc with rfl | hc
        · exact absurd hop' hop
        · exact absurd hop' (hnone c hc)

/-! ### Committed writes -/

def lastWrite (ws : List (Logged UInt64 PageLoc Page)) (l : PageLoc) :
    Option (Logged UInt64 PageLoc Page) := (ws.filter fun w => w.key = l).getLast?

variable {w : Logged UInt64 PageLoc Page}

omit [Crc32] in
theorem lastCommitted_of_lastWrite {ws : List (Logged UInt64 PageLoc Page)} {l : PageLoc}
    {committed : UInt64 → Bool} (h : lastWrite ws l = some w) (hw : committed w.tx = true) :
    lastCommitted committed ws l = some w := by
  obtain ⟨init, hinit⟩ := List.getLast?_eq_some_iff.1 h
  have hkept : [w].filter (fun w => committed w.tx) = [w] := by
    rw [List.filter_singleton, hw]
    rfl
  rw [lastCommitted, ← List.filter_filter, hinit, List.filter_append, hkept, List.getLast?_concat]

/-- After recovery, every page whose last write behind the last checkpoint is of a
committed transaction holds what that write left. -/
def CommittedWritesWin (records : List WalRecord) (s : RecoveryState) : Prop :=
  ∀ l w, lastWrite (pageWrites (afterCheckpoint records)) l = some w →
    isCommitted (afterCheckpoint records) w.tx = true →
    (recover records s).st.page? l = some w.after

/-- **Committed writes win where no open transaction has written before them.**  For
each page whose last write is committed, an earlier write of an open transaction must
not be there, or its old image must be the new image of the last write. -/
theorem committed_writes_win_iff {records : List WalRecord} (hlsn : InLsnOrder records)
    (hs : Prepared s) (hexist : ∀ w ∈ pageWrites (afterCheckpoint records), s.page? w.key ≠ none) :
    CommittedWritesWin records s ↔
      ∀ l w u, lastWrite (pageWrites (afterCheckpoint records)) l = some w →
        isCommitted (afterCheckpoint records) w.tx = true →
        firstOpen (isCommitted (afterCheckpoint records))
          (pageWrites (afterCheckpoint records)) l = some u →
        u.before = w.after := by
  refine forall₂_congr fun l w => ?_
  refine ⟨fun h u hlast hw hopen => ?_, fun h hlast hw => ?_⟩
  all_goals
    have hmem := List.mem_filter.1 (List.mem_of_getLast? hlast)
    obtain ⟨p, hp⟩ := ne_none_iff_exists'.1 (hexist w hmem.1)
    rw [of_decide_eq_true hmem.2] at hp
  · have hpage := h hlast hw
    rw [page?_recover hs, activeRecords_eq hlsn, hp, map_some, recoveredContent,
      hopen] at hpage
    exact some.inj hpage
  · rw [page?_recover hs, activeRecords_eq hlsn, hp, map_some, recoveredContent,
      lastCommitted_of_lastWrite hlast hw]
    rcases hopen : firstOpen (isCommitted (afterCheckpoint records))
        (pageWrites (afterCheckpoint records)) l with _ | u
    · rfl
    · exact congrArg some (h u hlast hw hopen)

/-! ### A small log

The page 1 of the data file is written in turn, with the pages that differ in one
byte. -/

omit [Crc32] in
def samplePage (n : UInt8) : Page := Page.zero.write 40 [n]

theorem stampChecksum_samplePage_ne {m n : UInt8} (h : m ≠ n) :
    stampChecksum (samplePage m) ≠ stampChecksum (samplePage n) := by
  have hbyte : ∀ n : UInt8, (stampChecksum (samplePage n)).read 40 1 = [n] := by
    intro n
    rw [read_stampChecksum (.inr (by decide))]
    exact Page.read_write_self rfl (by decide)
  intro heq
  have := hbyte m
  rw [heq] at this
  exact h (List.head_eq_of_cons_eq this).symm

def sampleWrite (lsn tx : UInt64) (before after : UInt8) : WalRecord :=
  .pageWrite lsn tx 0 lsn (.singleton 0 lsn) 1 (samplePage before).bytes (samplePage after).bytes

def sampleCommit (lsn tx : UInt64) : WalRecord := .commit lsn tx 0 lsn (.singleton 0 lsn)

def sampleCheckpoint (lsn : UInt64) : WalRecord := .checkpoint lsn 0 lsn (.singleton 0 lsn)

def sampleLogged (tx : UInt64) (before after : UInt8) : Logged UInt64 PageLoc Page :=
  ⟨tx, ⟨.data, 1⟩, stampChecksum (samplePage before), stampChecksum (samplePage after)⟩

theorem toLogged_sampleWrite (lsn tx : UInt64) (before after : UInt8) :
    toLogged (sampleWrite lsn tx before after) = some (sampleLogged tx before after) :=
  toLogged_pageWrite lsn tx 0 lsn (.singleton 0 lsn) 1 (samplePage before) (samplePage after)

def sampleState : RecoveryState :=
  ⟨⟨[samplePage 0, samplePage 0], 2⟩, ⟨[samplePage 0, samplePage 0], 2⟩, none⟩

omit [Crc32] in
theorem prepared_sampleState : Prepared sampleState := ⟨fun f => by cases f <;> rfl, rfl⟩

/-! ### Transactions one after another -/

def txOf (r : WalRecord) : Option UInt64 := if r.opType = .checkpoint then none else some r.txId

/-- Transactions do not interleave: between two records of one there is no other. -/
def Serial (rs : List WalRecord) : Prop :=
  ∀ a b c x, rs.filterMap txOf = a ++ x :: (b ++ x :: c) → ∀ y ∈ b, y = x

/-- All transactions but possibly the last have a commit record. -/
def OnlyLastOpen (rs : List WalRecord) : Prop :=
  ∀ x ∈ rs.filterMap txOf, isCommitted rs x = true ∨ (rs.filterMap txOf).getLast? = some x

instance instDecidableOnlyLastOpen (rs : List WalRecord) : Decidable (OnlyLastOpen rs) :=
  List.decidableBAll
    (fun x => isCommitted rs x = true ∨ (rs.filterMap txOf).getLast? = some x) (rs.filterMap txOf)

variable {rs : List WalRecord}

omit [Crc32] in
theorem serial_of_ascending (h : (rs.filterMap txOf).Pairwise (· ≤ ·)) : Serial rs := by
  intro a b c x hsplit y hy
  rw [hsplit] at h
  have hx := List.pairwise_cons.1 (List.pairwise_append.1 h).2.1
  have hy' := (List.pairwise_append.1 hx.2).2.2 y hy x List.mem_cons_self
  exact le_antisymm hy' (hx.1 y (List.mem_append_left _ hy))

omit [Crc32] in
theorem txOf_of_pageWrite (h : r.opType = .pageWrite) : txOf r = some r.txId := by
  rw [txOf, if_neg (by rw [h]; decide)]

theorem toLogged_eq_some (h : toLogged r = some w) : txOf r = some w.tx := by
  unfold toLogged at h
  split at h
  · next hop =>
    obtain ⟨images, -, rfl⟩ := map_eq_some_iff.1 h
    exact txOf_of_pageWrite hop
  · cases h

omit [Crc32] in
theorem open_to_end (hserial : Serial rs) (hlast : OnlyLastOpen rs) {a b : List UInt64}
    (hsplit : rs.filterMap txOf = a ++ x :: b) (hx : isCommitted rs x = false) :
    ∀ y ∈ b, y = x := by
  have hend : (rs.filterMap txOf).getLast? = some x := by
    rcases hlast x (hsplit ▸ by simp) with h | h
    · rw [hx] at h
      cases h
    · exact h
  intro y hy
  rcases List.eq_nil_or_concat' b with rfl | ⟨init, z, rfl⟩
  · cases hy
  · have hz : z = x := by
      rw [hsplit, ← List.cons_append, ← List.append_assoc, List.getLast?_concat] at hend
      exact some.inj hend
    subst hz
    rcases List.mem_append.1 hy with hy | hy
    · exact hserial a init [] z hsplit y hy
    · exact List.mem_singleton.1 hy

omit [Crc32] in
theorem pairwise_of_split {γ : Type} {R : γ → γ → Prop} {l : List γ}
    (h : ∀ a x b, l = a ++ x :: b → ∀ y ∈ b, R x y) : l.Pairwise R := by
  induction l with
  | nil => exact List.Pairwise.nil
  | cons z l ih =>
    refine List.Pairwise.cons (h [] z l rfl) (ih fun a x b hsplit => ?_)
    exact h (z :: a) x b (congrArg (z :: ·) hsplit)

theorem openLast_pageWrites (hserial : Serial rs) (hlast : OnlyLastOpen rs) :
    OpenLast (isCommitted rs) (pageWrites rs) := by
  have hpair : rs.Pairwise fun r r' => ∀ x ∈ txOf r, ∀ y ∈ txOf r',
      isCommitted rs x = false → isCommitted rs y = false := by
    have hx : (rs.filterMap txOf).Pairwise fun x y =>
        isCommitted rs x = false → isCommitted rs y = false := by
      refine pairwise_of_split fun a x b hsplit y hy hopen => ?_
      rw [open_to_end hserial hlast hsplit hopen y hy]
      exact hopen
    exact List.pairwise_filterMap.1 hx
  refine List.pairwise_filterMap.2 (hpair.imp fun {r r'} h w hw w' hw' => ?_)
  exact h w.tx (toLogged_eq_some hw) w'.tx (toLogged_eq_some hw')

/-! ### Restarts -/

/-- The states in which recovery can find the files: it was stopped at any of its
cuts, or ran to its end, any number of times. -/
inductive Restarted (records : List WalRecord) (s : RecoveryState) : RecoveryState → Prop
  | start : Restarted records s s
  | stopped {t u : RecoveryState} (h : Restarted records s t)
      (hu : u ∈ (recover records t).cuts) : Restarted records s u
  | finished {t : RecoveryState} (h : Restarted records s t) :
      Restarted records s (recover records t).st

theorem Restarted.same {t : RecoveryState} (hs : Prepared s) (h : Restarted records s t) :
    Prepared t ∧ ∀ l, (recover records t).st.page? l = (recover records s).st.page? l := by
  have hstep : ∀ {t : RecoveryState} (m : Nat), Prepared t →
      (∀ l, (recover records t).st.page? l = (recover records s).st.page? l) →
      let u := puts ((recoveryWrites (isCommitted (activeRecords records))
        (pageWrites (activeRecords records))).take m) t
      Prepared u ∧ ∀ l, (recover records u).st.page? l = (recover records s).st.page? l := by
    intro t m ht hsame u
    refine ⟨ht.puts _, fun l => ?_⟩
    rw [← hsame l, (does_recover ht records).2.1, (does_recover (ht.puts _) records).2.1,
      page?_puts (ht.puts _), page?_puts ht, page?_puts ht, map_map]
    congr 1
    funext p
    refine Eq.trans (applyAll_congr ?_) (congrFun (applyAll_take _ m fun _ => p) l)
    exact .inr rfl
  induction h with
  | start => exact ⟨hs, fun _ => rfl⟩
  | @stopped t u _ hu ih =>
    obtain ⟨m, rfl⟩ := (does_recover ih.1 records).2.2 u hu
    exact hstep m ih.1 ih.2
  | @finished t _ ih =>
    have hall := hstep (recoveryWrites (isCommitted (activeRecords records))
      (pageWrites (activeRecords records))).length ih.1 ih.2
    rwa [List.take_length, ← (does_recover ih.1 records).2.1] at hall

/-- **Recovery is right and can be repeated** where only the last transaction behind the last
checkpoint may be open: however often it was stopped or has run before, every page logged there
ends with what its last committed write left, or else what it held at the checkpoint, and every
other page as it was. -/
theorem recover_restartable {records : List WalRecord} (hlsn : InLsnOrder records)
    (hserial : Serial (afterCheckpoint records)) (hlast : OnlyLastOpen (afterCheckpoint records))
    {base : PageLoc → Page} (hhistory : History base (pageWrites (afterCheckpoint records)))
    (hs : Prepared s) (hexist : ∀ w ∈ pageWrites (afterCheckpoint records), s.page? w.key ≠ none)
    {t : RecoveryState} (ht : Restarted records s t) :
    (∃ result, (recover records t).res = .ok result) ∧
    (∀ w ∈ pageWrites (afterCheckpoint records), (recover records t).st.page? w.key =
      some (committedContent (isCommitted (afterCheckpoint records))
        (pageWrites (afterCheckpoint records)) base w.key)) ∧
    ∀ l, (∀ w ∈ pageWrites (afterCheckpoint records), w.key ≠ l) →
      (recover records t).st.page? l = s.page? l := by
  obtain ⟨hprepared, hsame⟩ := ht.same hs
  refine ⟨(does_recover hprepared records).1, fun w hw => ?_, fun l hl => ?_⟩
  · obtain ⟨p, hp⟩ := ne_none_iff_exists'.1 (hexist w hw)
    rw [hsame, (does_recover hs records).2.1, page?_puts hs, hp,
      activeRecords_eq hlsn]
    exact congrArg some (applyAll_recoveryWrites_of_openLast hhistory
      (openLast_pageWrites hserial hlast) ⟨w, hw, rfl⟩)
  · rw [hsame, page?_recover hs, activeRecords_eq hlsn]
    cases s.page? l with
    | none => rfl
    | some p => exact congrArg some (recoveredContent_of_not_mem hl p)

omit [Crc32] in
/-- One transaction has written page 1 and is open, the next has written it and is
committed: the write of the second is lost. -/
theorem committed_write_undone : ∃ (_ : Crc32) (records : List WalRecord),
    InLsnOrder records ∧ Serial records ∧
    History (fun _ => stampChecksum (samplePage 0)) (pageWrites (afterCheckpoint records)) ∧
    Prepared sampleState ∧
    (∀ w ∈ pageWrites (afterCheckpoint records), sampleState.page? w.key ≠ none) ∧
    (recover records sampleState).st.page? ⟨.data, 1⟩ = some (stampChecksum (samplePage 0)) ∧
    ¬CommittedWritesWin records sampleState := by
  let crc : Crc32 := ⟨fun _ => 0⟩
  let records := [sampleWrite 1 1 0 1, sampleWrite 2 2 1 2, sampleCommit 3 2]
  have hlsn : InLsnOrder records := ⟨by decide, by decide⟩
  have hafter : afterCheckpoint records = records := rfl
  have hcommit : toLogged (sampleCommit 3 2) = none := rfl
  have hwrites : pageWrites records = [sampleLogged 1 0 1, sampleLogged 2 1 2] := by
    rw [pageWrites, List.filterMap_cons_some (toLogged_sampleWrite 1 1 0 1),
      List.filterMap_cons_some (toLogged_sampleWrite 2 2 1 2), List.filterMap_cons_none hcommit,
      List.filterMap_nil]
  have htx : isCommitted records 1 = false ∧ isCommitted records 2 = true := by decide
  have hpage : sampleState.page? ⟨.data, 1⟩ = some (samplePage 0) := rfl
  have hopen : firstOpen (isCommitted records) [sampleLogged 1 0 1, sampleLogged 2 1 2]
      ⟨.data, 1⟩ = some (sampleLogged 1 0 1) := by
    rw [firstOpen, List.filter_cons_of_pos]
    · rfl
    · show (!isCommitted records 1 && _) = true
      rfl
  have hrecovered : (recover records sampleState).st.page? ⟨.data, 1⟩ =
      some (stampChecksum (samplePage 0)) := by
    rw [page?_recover prepared_sampleState, activeRecords_eq hlsn, hafter, hwrites, hpage,
      map_some, recoveredContent]
    rfl
  refine ⟨crc, records, hlsn, serial_of_ascending (by decide), ?_, prepared_sampleState, ?_,
    hrecovered, fun hwin => ?_⟩
  · rw [hafter, hwrites]
    exact ⟨rfl, rfl, trivial⟩
  · rw [hafter, hwrites]
    rintro w (_ | ⟨_, _ | ⟨_, ⟨⟩⟩⟩)
    · exact some_ne_none _
    · exact some_ne_none _
  · have hlast : lastWrite (pageWrites (afterCheckpoint records)) ⟨.data, 1⟩ =
        some (sampleLogged 2 1 2) := by
      rw [hafter, hwrites]
      rfl
    have hlost := hwin _ _ hlast htx.2
    rw [hrecovered] at hlost
    exact stampChecksum_samplePage_ne (by decide) (some.inj hlost)

def sampleLog : List WalRecord := [sampleWrite 1 1 0 1, sampleCommit 2 1]

theorem pageWrites_sampleLog : pageWrites (afterCheckpoint sampleLog) = [sampleLogged 1 0 1] := by
  have hcommit : toLogged (sampleCommit 2 1) = none := rfl
  show pageWrites sampleLog = _
  rw [pageWrites, sampleLog, List.filterMap_cons_some (toLogged_sampleWrite 1 1 0 1),
    List.filterMap_cons_none hcommit, List.filterMap_nil]

theorem exists_sampleLog : ∀ w ∈ pageWrites (afterCheckpoint sampleLog),
    sampleState.page? w.key ≠ none := by
  rw [pageWrites_sampleLog]
  rintro w (_ | ⟨_, ⟨⟩⟩)
  exact some_ne_none _

omit [Crc32] in
/-- A single committed write is there after recovery. -/
theorem committed_writes_win_single : ∃ _ : Crc32, InLsnOrder sampleLog ∧ Prepared sampleState ∧
    CommittedWritesWin sampleLog sampleState := by
  let crc : Crc32 := ⟨fun _ => 0⟩
  have hlsn : InLsnOrder sampleLog := ⟨by decide, by decide⟩
  refine ⟨crc, hlsn, prepared_sampleState,
    (committed_writes_win_iff hlsn prepared_sampleState exists_sampleLog).2 ?_⟩
  intro l w u _ _ hopen
  rw [pageWrites_sampleLog] at hopen
  obtain ⟨hu, htx, -⟩ := firstOpen_mem hopen
  rw [List.mem_singleton.1 hu] at htx
  exact absurd htx (by decide)

omit [Crc32] in
/-- Recovery of a single committed write, run twice. -/
theorem recover_restartable_single : ∃ (_ : Crc32) (records : List WalRecord),
    InLsnOrder records ∧ Prepared sampleState ∧
    (recover records (recover records sampleState).st).st.page? ⟨.data, 1⟩ =
      some (stampChecksum (samplePage 1)) := by
  let crc : Crc32 := ⟨fun _ => 0⟩
  -- the log is kept closed: its pages are not to be computed
  obtain ⟨records, hlsn, hserial, hopen, hcommitted, hexist, hwrites⟩ :
      ∃ records : List WalRecord, InLsnOrder records ∧ Serial (afterCheckpoint records) ∧
      OnlyLastOpen (afterCheckpoint records) ∧ isCommitted (afterCheckpoint records) 1 = true ∧
      (∀ w ∈ pageWrites (afterCheckpoint records), sampleState.page? w.key ≠ none) ∧
      pageWrites (afterCheckpoint records) = [sampleLogged 1 0 1] :=
    ⟨sampleLog, ⟨by decide, by decide⟩, serial_of_ascending (by decide), by decide, by decide,
      exists_sampleLog, pageWrites_sampleLog⟩
  have hhistory : History (fun _ => stampChecksum (samplePage 0))
      (pageWrites (afterCheckpoint records)) := by
    rw [hwrites]
    exact ⟨rfl, trivial⟩
  have hmem : sampleLogged 1 0 1 ∈ pageWrites (afterCheckpoint records) := by
    rw [hwrites]
    exact List.mem_singleton_self _
  have hpage := (recover_restartable hlsn hserial hopen hhistory prepared_sampleState hexist
    (.finished .start)).2.1 _ hmem
  have hlast : lastCommitted (isCommitted (afterCheckpoint records)) [sampleLogged 1 0 1]
      (sampleLogged 1 0 1).key = some (sampleLogged 1 0 1) := by
    rw [lastCommitted, List.filter_cons_of_pos]
    · rfl
    · show (isCommitted (afterCheckpoint records) 1 && _) = true
      rw [hcommitted]
      rfl
  rw [hwrites, committedContent, hlast] at hpage
  exact ⟨crc, records, hlsn, prepared_sampleState, hpage⟩

omit [Crc32] in
/-- A committed write in front of a checkpoint is not redone: a page that holds what
it held before the log is left as it is. -/
theorem checkpointed_write_not_redone : ∃ (_ : Crc32) (records : List WalRecord),
    InLsnOrder records ∧ Serial records ∧ OnlyLastOpen records ∧
    History (fun _ => stampChecksum (samplePage 0)) (pageWrites records) ∧
    Prepared sampleState ∧ sampleState.page? ⟨.data, 1⟩ = some (samplePage 0) ∧
    lastCommitted (isCommitted records) (pageWrites records) ⟨.data, 1⟩ =
      some (sampleLogged 1 0 1) ∧
    ∃ p, (recover records sampleState).st.page? ⟨.data, 1⟩ = some p ∧
      stampChecksum p ≠ (sampleLogged 1 0 1).after := by
  let crc : Crc32 := ⟨fun _ => 0⟩
  let records := [sampleWrite 1 1 0 1, sampleCommit 2 1, sampleCheckpoint 3]
  have hlsn : InLsnOrder records := ⟨by decide, by decide⟩
  have hafter : afterCheckpoint records = [] := rfl
  have hcommit : toLogged (sampleCommit 2 1) = none := rfl
  have hcheckpoint : toLogged (sampleCheckpoint 3) = none := rfl
  have hwrites : pageWrites records = [sampleLogged 1 0 1] := by
    rw [pageWrites, List.filterMap_cons_some (toLogged_sampleWrite 1 1 0 1),
      List.filterMap_cons_none hcommit, List.filterMap_cons_none hcheckpoint, List.filterMap_nil]
  have hpage : sampleState.page? ⟨.data, 1⟩ = some (samplePage 0) := rfl
  refine ⟨crc, records, hlsn, serial_of_ascending (by decide), by decide, ?_, prepared_sampleState,
    hpage, ?_, samplePage 0, ?_, stampChecksum_samplePage_ne (by decide)⟩
  · rw [hwrites]
    exact ⟨rfl, trivial⟩
  · rw [hwrites]
    rfl
  · rw [page?_recover prepared_sampleState, activeRecords_eq hlsn]
    rfl

end Recovery

end GrumpyDB
