/-
Creating a tree where there already is a file.

`create_with` opens the file as it is and allocates two pages, one for the metadata and one for
the root; but `open` looks for the metadata on page 1, which in a used file is that of the old
tree.
-/
import GrumpyDB.Ordered

namespace GrumpyDB

open BTreeKey Proc PageManager

section Recreate

variable {K : Type} [LinearOrder K] [BTreeKey K] [Crc32] {cfg : Config K}

namespace BTree

variable {t : BTree K} {m : PartialMap K} {f : Option File}

/-! ### Runs from a tree -/

/-- Calls that return lead from the tree `t` to another one; `m` is what they make
of an empty map. -/
inductive Calls (t : BTree K) : BTree K → PartialMap K → Prop where
  | nil : Calls t t fun _ => none
  | call {t' : BTree K} {m : PartialMap K} (h : Calls t t' m) (op : TreeOp K)
      (hret : Returned (step op t').1) : Calls t (step op t').2 (m.step op).2

/-- Searches, scans and the count of entries are those of the map. -/
structure AnswersAs (t : BTree K) (m : PartialMap K) : Prop where
  search : ∀ k, (search k t).res = .ok (m k)
  scans : t.ScansAs m
  len : t.len = Set.ncard {k | (m k).isSome}

/-- The file opens as a tree with the answers of the map. -/
def OpensAs (file : File) (m : PartialMap K) : Prop :=
  ∃ t : BTree K, (openFile (some file)).res = .ok t ∧ t.AnswersAs m

/-- Whatever calls are made on the tree, its file then opens as a tree with the
answers of exactly these calls. -/
def Forgets (t : BTree K) : Prop := ∀ t' m, Calls t t' m → OpensAs t'.pm.file m

/-! ### On a new file -/

theorem Represents.answers (hr : t.Represents cfg m) : t.AnswersAs m := by
  refine ⟨fun k => ?_, hr.scans, ?_⟩
  · obtain ⟨es, hi, -, rfl⟩ := hr
    obtain ⟨r, hres, -, rfl⟩ := (search_spec hi k).exists_ok
    exact hres
  · obtain ⟨es, hi, -, rfl⟩ := hr
    rw [BTree.len, hi.numEntries, ncard_lookup hi.sorted]

theorem Calls.reached (hf : f.getD [] = []) (ht : (createWith cfg f).res = .ok t) {t' : BTree K}
    (h : Calls t t' m) : Reached cfg t' m := by
  induction h with
  | nil => exact .create hf ht
  | call h op hret ih => exact ih.call op hret

theorem forgets_of_new (hs : Strict cfg) (hf : f.getD [] = [])
    (ht : (createWith cfg f).res = .ok t) : t.Forgets := by
  intro t' m h
  have hr := (h.reached hf ht).represents hs
  obtain ⟨es, hi, -⟩ := id hr
  have hopen := (openFile_spec (E := fun _ _ => False) hi (Q := fun t'' _ => t'' = t')).mpr rfl
  obtain ⟨t'', hres, rfl⟩ := hopen.exists_ok
  exact ⟨t'', hres, hr.answers⟩

/-! ### On a file in use -/

/-- A page file in order, with page 1 in use. -/
def InUse (file : File) : Prop :=
  ∃ used : Set UInt32, META_PAGE_ID ∈ used ∧ (PageManager.mk file file.length).Ok used

/-- A new tree in a file of which the pages `used` were in use: its pages are others,
and these are as they were. -/
structure Made (cfg : Config K) (pm : PageManager) (used : Set UInt32) (t : BTree K) : Prop where
  repr : t.Repr (.leaf t.info.rootPageId [])
  invAt : t.InvAt t.metaPageId []
  config : t.info.config = cfg
  root_fresh : t.info.rootPageId ∉ used
  meta_fresh : t.metaPageId ∉ used
  ok : t.pm.Ok (Insert.insert t.info.rootPageId (Insert.insert t.metaPageId used))
  frame : ∀ x ∈ used, t.pm.page? x = pm.page? x

variable {pm : PageManager} {used : Set UInt32} {E : Halt → Option File → Prop}

theorem createWith_made (hv : Valid cfg) (hok : pm.Ok used)
    (halloc : Post PageManager.allocatePage (fun i pm₁ => PageManager.Allocated pm used i pm₁ ∧
      Post PageManager.allocatePage
        (fun j pm₂ => PageManager.Allocated pm₁ (Insert.insert i used) j pm₂)
        (fun e pm' => E e (some pm'.file)) pm₁) (fun e pm' => E e (some pm'.file)) pm) :
    Post (createWith cfg) (fun t _ => Made cfg pm used t) E (some pm.file) := by
  rw [createWith, post_bind, post_new_ok hok, post_bind, post_session,
    createIn, post_bind]
  refine halloc.imp ?_
  rintro i pm₁ ⟨hi, halloc₁⟩
  rw [post_bind]
  refine halloc₁.imp ?_
  intro j pm₂ hj
  have hij : i ≠ j := fun h => hj.fresh (.inl h.symm)
  refine (post_layOut hv hj.ok (.inr (.inl rfl)) (.inl rfl) hij).imp ?_
  rintro r pm' ⟨rfl, hl⟩
  refine ⟨hl.repr, ⟨⟨0, .leaf j [], hl.repr, rfl⟩, rfl, rfl, hl.stored⟩, rfl,
    fun h => hj.fresh (.inr h), hi.fresh, hl.ok, fun x hx => ?_⟩
  have h0 := (hok.used x hx).1
  have hxi : x ≠ i := fun h => hi.fresh (h ▸ hx)
  have hxj : x ≠ j := fun h => hj.fresh (h ▸ .inr hx)
  exact (hl.frame x hxi hxj).trans ((hj.frame x h0 hxj).trans (hi.frame x h0 hxi))

theorem createWith_inUse (hv : Valid cfg) (hok : pm.Ok used) :
    Post (createWith cfg) (fun t _ => Made cfg pm used t) (fun e _ => e = .overflow)
      (some pm.file) := by
  refine createWith_made hv hok (Post.mono (allocatePage_spec hok) ?_ fun _ _ h => h.1)
  intro i pm₁ hi
  exact ⟨hi, Post.mono (allocatePage_spec hi.ok) (fun _ _ => id) fun _ _ h => h.1⟩

theorem createWith_room (hv : Valid cfg) (hok : pm.Ok used) (hl : pm.freeList = [])
    (hn : pm.numPages + 2 < 2 ^ 32) :
    Post (createWith cfg) (fun t _ => Made cfg pm used t) E (some pm.file) := by
  refine createWith_made hv hok ?_
  rw [post_allocatePage_extend hok hl (by omega)]
  have hi := hok.extend (by omega)
  refine ⟨hi, ?_⟩
  have hl₁ : freeList ⟨pm.file ++ [freePageBuf (UInt32.ofNat pm.numPages)],
      pm.numPages + 1⟩ = [] := by
    rw [← hl, freeList, freeList, page?, page?,
      List.getElem?_append_left (by rw [hok.length]; exact hok.pos)]
  rw [post_allocatePage_extend hi.ok hl₁ (by simp only; omega)]
  exact hi.ok.extend (by simp only; omega)

variable {key : K}

theorem opens_old (hm : Made cfg pm used t) (hmeta : META_PAGE_ID ∈ used) {p : Page}
    (hp : pm.page? META_PAGE_ID = some p) (hfit : Fits cfg key) (pageId : UInt32)
    (slotId : UInt16) :
    (step (.insert key pageId slotId) t).1 = .ok .done ∧
    (∃ t' : BTree K, (openFile (some t.pm.file)).res = .ok t' ∧ t'.info = .ofPage p) ∧
    ∃ t' : BTree K, (openFile (some (step (.insert key pageId slotId) t).2.pm.file)).res = .ok t' ∧
      t'.info = .ofPage p := by
  have hroot : META_PAGE_ID ≠ t.info.rootPageId := fun h => hm.root_fresh (h ▸ hmeta)
  have hself : META_PAGE_ID ≠ t.metaPageId := fun h => hm.meta_fresh (h ▸ hmeta)
  obtain ⟨hdone, hok₁, hframe⟩ := step_insert_first hm.repr (hm.config ▸ hfit) pageId slotId
  have hp₀ := (hm.frame _ hmeta).trans hp
  have hp₁ := (hframe META_PAGE_ID hroot hself).trans hp₀
  have hopen₀ := (post_openFile (E := fun _ _ => False) hm.ok hp₀
    (Q := fun (t' : BTree K) _ => t'.info = .ofPage p)).mpr rfl
  have hopen₁ := (post_openFile (E := fun _ _ => False) hok₁ hp₁
    (Q := fun (t' : BTree K) _ => t'.info = .ofPage p)).mpr rfl
  exact ⟨hdone, hopen₀.exists_ok, hopen₁.exists_ok⟩

theorem not_forgets_of_inUse (hv : Valid cfg) {file : File} (hf : InUse file)
    (ht : (createWith cfg (some file)).res = .ok t) (hfit : Fits cfg key) : ¬ t.Forgets := by
  intro hforgets
  obtain ⟨used, hmeta, hok⟩ := hf
  have hm := (createWith_inUse hv hok).of_ok ht
  obtain ⟨p, hp⟩ := hok.exists_page hmeta
  obtain ⟨hdone, ⟨t₀, ht₀, hinfo₀⟩, t₁, ht₁, hinfo₁⟩ := opens_old hm hmeta hp hfit 0 0
  obtain ⟨t₀', ht₀', hans₀⟩ := hforgets _ _ .nil
  obtain ⟨t₁', ht₁', hans₁⟩ := hforgets _ _ (.call .nil (.insert key 0 0) (returned_of_ok hdone))
  obtain rfl : t₀ = t₀' := Except.ok.inj (ht₀.symm.trans ht₀')
  obtain rfl : t₁ = t₁' := Except.ok.inj (ht₁.symm.trans ht₁')
  have hlen₀ : t₀.len = 0 := by simp [hans₀.len]
  have hlen₁ : t₁.len = 1 := by
    have hset : {k | ((PartialMap.step (.insert key 0 0) fun _ : K => none).2 k).isSome} =
      {key} := by
      ext k
      by_cases hk : k = key <;> simp [PartialMap.step, hk]
    rw [hans₁.len, hset, Set.ncard_singleton]
  rw [BTree.len, hinfo₀] at hlen₀
  rw [BTree.len, hinfo₁] at hlen₁
  omega

/-- What there can be at a path before a tree is made: nothing, an empty file, or a
page file in use. -/
def Prior (f : Option File) : Prop := f.getD [] = [] ∨ ∃ file, f = some file ∧ InUse file

theorem forgets_iff (hs : Strict cfg) (hfit : Fits cfg key) (hf : Prior f)
    (ht : (createWith cfg f).res = .ok t) : t.Forgets ↔ f.getD [] = [] := by
  refine ⟨fun h => ?_, fun h => forgets_of_new hs h ht⟩
  rcases hf with hf | ⟨file, rfl, hf⟩
  · exact hf
  · exact absurd h (not_forgets_of_inUse hs.valid hf ht hfit)

end BTree

end Recreate

/-- **A new tree forgets an old file** only if there was nothing in it: a tree made
at a path is, closed and opened again, the tree it was exactly if the file there was
missing or empty. -/
theorem create_forgets_iff [Crc32] :
    (∀ (f : Option File) (t : BTree Uuid), BTree.Prior f →
      (BTree.createWith (K := Uuid) () f).res = .ok t → (t.Forgets ↔ f.getD [] = [])) ∧
    ∀ maxKeySize : UInt16, maxKeySize.toNat ≤ VAR_KEY_MAX_SIZE →
      ∀ (f : Option File) (t : BTree (List UInt8)), BTree.Prior f →
        (BTree.createWith (K := List UInt8) maxKeySize f).res = .ok t →
        (t.Forgets ↔ f.getD [] = []) := by
  refine ⟨fun f t hf ht => ?_, fun maxKeySize hmax f t hf ht => ?_⟩
  · exact BTree.forgets_iff strict_uuid (show Fits (K := Uuid) () Uuid.nil from trivial) hf ht
  · exact BTree.forgets_iff (strict_bytes hmax)
      (show Fits (K := List UInt8) maxKeySize [] from Nat.zero_le _) hf ht

theorem create_forgets_new_file : ∃ _ : Crc32, ∃ t : BTree (List UInt8),
    (BTree.createWith (K := List UInt8) (4 : UInt16) none).res = .ok t ∧ t.Forgets := by
  let crc : Crc32 := ⟨fun _ => 0⟩
  have hs : Strict (4 : UInt16) := strict_bytes (by decide)
  obtain ⟨t, ht, -⟩ := (BTree.createWith_new (f := none)
    hs.valid rfl).exists_ok
  exact ⟨crc, t, ht, (create_forgets_iff.2 4 (by decide) none t (.inl rfl) ht).mpr rfl⟩

/-- A tree is made and closed, and another is made at its path.  A key is inserted
into the second tree; its file then opens as a tree without entries. -/
theorem create_keeps_old_file : ∃ _ : Crc32, ∃ t₀ t t' : BTree Uuid,
    (BTree.createWith (K := Uuid) () none).res = .ok t₀ ∧
    (BTree.createWith (K := Uuid) () (some t₀.pm.file)).res = .ok t ∧
    (BTree.step (.insert Uuid.nil 7 3) t).1 = .ok .done ∧
    (BTree.openFile (some (BTree.step (.insert Uuid.nil 7 3) t).2.pm.file)).res = .ok t' ∧
    t'.len = 0 := by
  let crc : Crc32 := ⟨fun _ => 0⟩
  obtain ⟨t₀, ht₀, hi, -, -, hT, hnum, hlist⟩ := (BTree.createWith_new (K := Uuid) (f := none)
    (E := fun _ _ => False) strict_uuid.valid rfl).exists_ok
  obtain ⟨t, ht, hm⟩ := (BTree.createWith_room (K := Uuid) (E := fun _ _ => False)
    strict_uuid.valid hT.core.ok hlist (by rw [hnum]; decide)).exists_ok
  obtain ⟨hdone, -, t', ht', hinfo⟩ := BTree.opens_old hm (.inl hi.metaPageId.symm)
    (hi.metaPageId ▸ hi.stored) (show Fits (K := Uuid) () Uuid.nil from trivial) 7 3
  refine ⟨crc, t₀, t, t', ht₀, ht, hdone, ht', ?_⟩
  rw [BTree.len, hinfo, BTreeMeta.ofPage_toPage]
  · exact hi.numEntries
  · rw [hT.height]
    decide
  · rw [hi.numEntries]
    decide

end GrumpyDB
