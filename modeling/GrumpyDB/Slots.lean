/-
Changing a tuple on a slotted page, and runs of calls.

A tuple that has grown is removed and inserted again, and the insertion can find no room.
-/
import GrumpyDB.Slotted

namespace GrumpyDB

open Proc List

namespace SlottedPage

/-- Change the tuple of a slot: in place if it fits there, otherwise it is removed and
inserted again. -/
def update (slotIndex : UInt16) (newData : List UInt8) : Proc Halt Page UInt16 := do
  let (offset, length) ← liveSlot slotIndex
  if newData.length ≤ length then do
    Page.writeAt offset newData
    writeSlot slotIndex.toNat offset newData.length
    pure slotIndex
  else do
    delete slotIndex
    insert newData

variable {p : Page} {i : UInt16} {tuple newData : List UInt8}

/-! ### Calls on any page -/

/-- A procedure that fails by a panic only. -/
def Panics {α : Type} (x : Proc Halt Page α) : Prop :=
  ∀ p, Post x (fun _ _ => True) (fun e _ => e = .index) p

theorem Panics.bind {α β : Type} {x : Proc Halt Page α} {f : α → Proc Halt Page β}
    (hx : Panics x) (hf : ∀ a, Panics (f a)) : Panics (x >>= f) :=
  fun p => Post.bind ((hx p).imp fun a t _ => hf a t)

theorem panics_readAt (off len : Nat) : Panics (Page.readAt off len) := by
  intro p
  rw [Page.readAt, post_bind]
  split
  · trivial
  · rfl

theorem panics_writeAt (off : Nat) (bs : List UInt8) : Panics (Page.writeAt off bs) := by
  intro p
  rw [Page.writeAt]
  split
  · trivial
  · rfl

theorem panics_writeSlot {k offset length : Nat} (h : length ≤ MAX_SLOT_LENGTH) :
    Panics (writeSlot k offset length) := by
  rw [writeSlot, if_neg (not_lt.mpr h)]
  exact (panics_writeAt _ _).bind fun _ => panics_writeAt _ _

theorem panics_findTombstoneSlot (k n : Nat) : Panics (findTombstoneSlot k n) := by
  induction n generalizing k with
  | zero => exact fun _ => trivial
  | succ n ih =>
    refine Panics.bind ((panics_readAt _ _).bind fun _ =>
      (panics_readAt _ _).bind fun _ _ => trivial) fun s => ?_
    show Panics (if s.1 = 0 then _ else _)
    split
    · exact fun _ => trivial
    · exact ih (k + 1)

theorem panics_put {k newEnd : Nat} {r : UInt16} : Panics (do
    Page.writeAt newEnd tuple
    writeSlot k newEnd tuple.length
    pure r) := by
  by_cases h : newEnd + tuple.length ≤ PAGE_SIZE
  · refine (panics_writeAt _ _).bind fun _ => (panics_writeSlot ?_).bind fun _ _ => trivial
    have : PAGE_SIZE = 8192 := rfl
    simp only [MAX_SLOT_LENGTH]
    omega
  · intro p
    rw [Page.writeAt, if_neg h]
    rfl

/-- On any page: an insertion that fails found no room, or it panicked. -/
theorem post_insert (p : Page) (tuple : List UInt8) :
    Post (SlottedPage.insert tuple) (fun _ _ => freeSpace p ≥ tuple.length + SLOT_SIZE)
      (fun e q => e = .index ∨ q = p ∧ freeSpace p < tuple.length + SLOT_SIZE) p := by
  rw [SlottedPage.insert, post_bind, Proc.post_get]
  split
  · rename_i hfull
    exact .inr ⟨rfl, hfull⟩
  -- Past the check for room every step can only panic.
  · rename_i hfull
    refine Post.mono (?_ : Post _ (fun _ _ => True) (fun e _ => e = .index) p)
      (fun _ _ _ => not_lt.mp hfull) fun _ _ => .inl
    refine (panics_findTombstoneSlot 0 _).bind (fun o => ?_) p
    rcases o with _ | k
    · refine Panics.bind (?_ : Panics growSlots) fun _ =>
        (panics_writeAt _ _).bind fun _ => panics_put
      exact Panics.bind (fun _ => trivial) fun _ => (panics_writeAt _ _).bind fun _ =>
        (panics_writeAt _ _).bind fun _ _ => trivial
    · exact Panics.bind (fun _ => trivial) fun _ =>
        (panics_writeAt _ _).bind fun _ => panics_put

/-- On any page: a slot that is in use, or a call that fails at once. -/
theorem liveSlot_cases (p : Page) (i : UInt16) :
    (∃ e, ∀ Q E, Post (liveSlot i) Q E p ↔ E e p) ∨
    i.toNat < numSlots p ∧ slotOffset i.toNat + 4 ≤ PAGE_SIZE ∧
      ∀ Q E, Post (liveSlot i) Q E p ↔
        Q (p.num (slotOffset i.toNat) 2, p.num (slotOffset i.toNat + 2) 2 % 2 ^ 15) p := by
  simp only [liveSlot, readSlot, post_bind, Proc.post_get]
  by_cases hlt : i.toNat ≥ numSlots p
  · exact .inl ⟨_, fun Q E => by rw [if_pos hlt, post_fail]⟩
  simp only [if_neg hlt, post_bind]
  by_cases hin : slotOffset i.toNat + 4 ≤ PAGE_SIZE
  · simp only [Page.post_readAt (show slotOffset i.toNat + 2 ≤ PAGE_SIZE by omega),
      Page.post_readAt (show slotOffset i.toNat + 2 + 2 ≤ PAGE_SIZE by omega), post_pure]
    by_cases h0 : leNat (p.read (slotOffset i.toNat) 2) = 0
    · exact .inl ⟨_, fun Q E => by rw [if_pos h0, post_fail]⟩
    · exact .inr ⟨not_le.mp hlt, hin, fun Q E => by rw [if_neg h0]; rfl⟩
  -- The count of slots is not checked, so the entry of a slot can lie past the page.
  · refine .inl ⟨.index, fun Q E => ?_⟩
    by_cases hin' : slotOffset i.toNat + 2 ≤ PAGE_SIZE
    · rw [Page.post_readAt hin', Page.readAt, post_bind, Proc.post_get, if_neg (by omega),
        post_fail]
    · rw [Page.readAt, post_bind, Proc.post_get, if_neg hin', post_fail]

/-! ### Updates that fail -/

/-- A slot in use whose new tuple fits neither into its place nor into the free space. -/
def Unfit (p : Page) (i : UInt16) (newData : List UInt8) : Prop :=
  ∃ offset length, (liveSlot i p).res = .ok (offset, length) ∧ length < newData.length ∧
    freeSpace p < newData.length + SLOT_SIZE

variable {offset length : Nat}

/-- A tuple that has grown goes where an insertion puts it. -/
theorem post_update_grown (hlive : ∀ Q E, Post (liveSlot i) Q E p ↔ Q (offset, length) p)
    (hin : slotOffset i.toNat + 4 ≤ PAGE_SIZE) (hlen : length < newData.length)
    {Q : UInt16 → Page → Prop} {E : Halt → Page → Prop} :
    Post (update i newData) Q E p ↔ Post (insert newData) Q E (putSlot i.toNat 0 0 p) := by
  rw [update, post_bind, hlive]
  simp only [if_neg (not_le.mpr hlen)]
  rw [post_bind, delete, post_bind, hlive, post_writeSlot (Nat.zero_le _) hin]

theorem freeSpace_remove (p : Page) (k : Nat) : freeSpace (putSlot k 0 0 p) = freeSpace p := by
  have h32 := le_slotOffset k
  rw [freeSpace, freeSpaceEnd, freeSpaceStart, num_putSlot (by omega), num_putSlot (by omega)]
  rfl

/-- The slot has been removed when the insertion finds no room. -/
theorem Unfit.update (h : Unfit p i newData) :
    ∃ e, (SlottedPage.update i newData p).res = .error (.err e) ∧
      (get i (SlottedPage.update i newData p).st).res ≠ (get i p).res := by
  obtain ⟨offset, length, hres, hlen, hfull⟩ := h
  rcases liveSlot_cases p i with ⟨e, hdead⟩ | ⟨hlt, hin, hlive⟩
  · cases hres.symm.trans (Post.run (C := fun r _ => r = .error e) ((hdead _ _).mpr rfl))
  cases hres.symm.trans (Post.run (C := fun r _ => r = .ok _) ((hlive _ _).mpr rfl))
  have h32 := le_slotOffset i.toNat
  set q := putSlot i.toNat 0 0 p with hq
  have hrun : Post (SlottedPage.update i newData) (fun _ _ => False)
      (fun e t => e = .err (.pageFull (PageHeader.readFrom q).pageId) ∧ t = q) p := by
    rw [post_update_grown hlive hin hlen, insert, post_bind, Proc.post_get,
      if_pos (freeSpace_remove p i.toNat ▸ hfull)]
    exact ⟨rfl, rfl⟩
  have hgone : (get i q).res = .error (.err (.pageNotFound (PageHeader.readFrom q).pageId)) := by
    refine Post.run (C := fun r _ => r = _) ?_
    have hn : numSlots q = numSlots p := num_putSlot (by omega)
    have h0 : q.num (slotOffset i.toNat) 2 = 0 := num_putSlot_offset hin (by omega)
    rw [Page.num] at h0
    rw [get, post_bind, liveSlot, post_bind, Proc.post_get, if_neg (by omega), post_bind,
      readSlot, post_bind, Page.post_readAt (by omega), post_bind, Page.post_readAt (by omega)]
    simp [h0]
  -- Before the call the slot has its bytes, unless reading them panics.
  have hback : Post (get i) (fun _ _ => True) (fun e _ => e = .index) p := by
    rw [get, post_bind, hlive]
    exact panics_readAt _ _ p
  obtain ⟨he, hst⟩ := hrun.fails
  refine ⟨_, he, fun hget => ?_⟩
  rw [hst, hgone] at hget
  cases hback.of_error hget.symm

/-- **A failed update** changes nothing, on every page, unless the tuple has grown and there
is no room for it: the old one is gone by then. -/
theorem failed_update_iff (p : Page) (i : UInt16) (newData : List UInt8) :
    (∀ e, (update i newData p).res = .error (.err e) →
      ∀ j, (get j (update i newData p).st).res = (get j p).res) ↔ ¬ Unfit p i newData := by
  by_cases hunfit : Unfit p i newData
  · obtain ⟨e, he, hne⟩ := hunfit.update
    exact iff_of_false (fun h => hne (h e he i)) fun h => h hunfit
  refine iff_of_true (fun e he => ?_) hunfit
  rcases liveSlot_cases p i with ⟨e', hdead⟩ | ⟨hlt, hin, hlive⟩
  · have hst : (update i newData p).st = p := by
      refine Post.run (C := fun _ q => q = p) ?_
      rw [update, post_bind, hdead]
    simp [hst]
  -- The slot is in use, and the update can only panic.
  have hres := Post.run (C := fun r _ => r = .ok _) ((hlive _ _).mpr rfl)
  by_cases hlen : newData.length ≤ p.num (slotOffset i.toNat + 2) 2 % 2 ^ 15
  · have hpanic : Post (update i newData) (fun _ _ => True) (fun e _ => e = .index) p := by
      rw [update, post_bind, hlive]
      simp only [if_pos hlen]
      exact panics_put p
    cases hpanic.of_error he
  · have hpost := (post_update_grown hlive hin (not_le.mp hlen)).mpr (post_insert _ newData)
    rcases hpost.of_error he with h | ⟨-, h⟩
    · cases h
    · exact absurd ⟨_, _, hres, not_le.mp hlen, freeSpace_remove p i.toNat ▸ h⟩ hunfit

/-- On a page with one slot there is no room for 8153 bytes. -/
theorem refused_update_changes : ∃ p i newData e, (update i newData p).res = .error (.err e) ∧
    (get i (update i newData p).st).res ≠ (get i p).res := by
  have hinsert : Post (insert []) (fun k q => Inserted (new 1) (fun _ => none) [] k q)
      (fun _ _ => False) (new 1) := by
    refine ((rep_new 1).inserted []).mono (fun _ _ => id) ?_
    rintro e q ⟨-, -, hfull⟩
    simp [freeSpace, SLOT_SIZE, PAGE_SIZE] at hfull
  obtain ⟨k, -, hins⟩ := hinsert.exists_ok
  have hrep := (rep_new 1).edit hins.edit (x := some []) (fun t ht => by cases ht; exact hins.slot)
    fun h => absurd h (Option.some_ne_none _)
  refine ⟨_, k, replicate 8153 0, Unfit.update ⟨_, _, Post.run (C := fun r _ => r = .ok _)
    ((hrep.post_liveSlot (Function.update_self ..)).mpr rfl), ?_, ?_⟩⟩
  · rw [length_replicate]
    exact Nat.succ_pos _
  · have hend := hins.edit.end_le
    have hstart := hins.edit.start
    have hk := slotOffset_le hins.slot.lt
    have h32 := le_slotOffset k.toNat
    simp only [freeSpaceEnd_new, PAGE_SIZE] at hend
    simp only [freeSpace, SLOT_SIZE, length_replicate]
    omega

/-! ### Runs of calls -/

abbrev Tuples := UInt16 → Option (List UInt8)

inductive Call where
  | insert (tuple : List UInt8)
  | delete (i : UInt16)

/-- Make a call, and change the tuples as it answers. -/
def Call.exec (m : Tuples) : Call → Proc Halt Page Tuples
  | insert tuple => do
    let k ← SlottedPage.insert tuple
    pure (Function.update m k (some tuple))
  | delete i => do
    SlottedPage.delete i
    pure (Function.update m i none)

/-- A call that fails leaves the tuples as they are. -/
def Call.step (s : Page × Tuples) (c : Call) : Page × Tuples :=
  ((c.exec s.2 s.1).st, (c.exec s.2 s.1).res.toOption.getD s.2)

variable {m : Tuples} {Q : Nat × Nat → Page → Prop} {E : Halt → Page → Prop}

theorem Rep.post_liveSlot_none (h : Rep p m) (hi : m i = none) :
    Post (liveSlot i) Q E p ↔ E (.err (.pageNotFound (PageHeader.readFrom p).pageId)) p := by
  rw [liveSlot, post_bind, Proc.post_get]
  by_cases hlt : i.toNat < numSlots p
  · rw [if_neg (not_le.mpr hlt), post_bind, h.post_readSlot hlt, h.removed i hi hlt]
    rfl
  · rw [if_pos (not_lt.mp hlt), post_fail]

theorem Rep.exec (h : Rep p m) (c : Call) :
    Post (c.exec m) (fun m' q => Rep q m') (fun _ q => Rep q m) p := by
  cases c with
  | insert tuple =>
    exact Post.bind ((h.insert tuple).mono (fun _ _ hq => hq.2) fun _ _ hq => hq.2.1 ▸ h)
  | delete i =>
    refine Post.bind ?_
    rcases hi : m i with _ | tuple
    · rw [SlottedPage.delete, post_bind, h.post_liveSlot_none hi]
      exact h
    · exact h.delete hi

theorem Rep.run {s : Page × Tuples} (h : Rep s.1 s.2) (calls : List Call) :
    let t := calls.foldl Call.step s
    Rep t.1 t.2 := by
  induction calls generalizing s with
  | nil => exact h
  | cons c calls ih =>
    exact ih (Post.run (C := fun r q => Rep q (r.toOption.getD s.2)) (h.exec c))

/-- **A page is a map** of its slots: after every run of calls on a new page, a slot reads as
the answers of the calls say. -/
theorem get_run (pageId : UInt32) (calls : List Call) (i : UInt16) :
    let s := calls.foldl Call.step (new pageId, fun _ => none)
    (get i s.1).res = (s.2 i).elim
      (.error (.err (.pageNotFound (PageHeader.readFrom s.1).pageId))) .ok := by
  intro s
  have h : Rep s.1 s.2 := Rep.run (rep_new pageId) calls
  refine Post.run (C := fun r _ => r = _) ?_
  rcases hi : s.2 i with _ | tuple
  · rw [SlottedPage.get, post_bind, h.post_liveSlot_none hi]
    rfl
  · exact (h.post_get hi).mpr rfl

end SlottedPage

end GrumpyDB
