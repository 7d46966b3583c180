/-
What the directory of the store holds, and what its steps do to it.
-/
import GrumpyDB.Auth.Store

namespace GrumpyDB

namespace Auth

open FileTree List
open Proc hiding bind

/-! ### Names -/

theorem isPlain_of_suffix {s ext : String} (hs : '/' ∉ s.toList) (hext : '/' ∉ ext.toList)
    (hlen : 2 < ext.toList.length) : IsPlain (s ++ ext) := by
  have hlong : 2 < (s ++ ext).toList.length := by
    rw [String.toList_append, length_append]
    omega
  refine ⟨by simp [hs, hext], ?_, ?_, ?_⟩
  · rintro h
    simp [h] at hlong
  · rintro h
    simp [h] at hlong
  · rintro h
    simp [h] at hlong

/-! ### Steps -/

section Steps

variable {t t' : FileTree} {f : FileTree → Except FsError FileTree} {dir : Place}
  {kid : String} {P : FileTree → Prop}

variable {E : AuthError → FileTree → Prop} {Q : Unit → FileTree → Prop}

theorem post_step :
    Post (step f) Q E t ↔
      (∀ t', f t = .ok t' → Q () t') ∧ ∀ e, f t = .error e → E (ofFs e) t := by
  rw [step, post_bind, post_cut, post_bind, post_get]
  rcases h : f t with e | t' <;> simp

theorem post_step_ok (h : f t = .ok t') (hQ : Q () t') : Post (step f) Q E t :=
  post_step.mpr ⟨fun _ heq => Except.ok.inj (h.symm.trans heq) ▸ hQ,
    fun _ heq => by cases h.symm.trans heq⟩

theorem runs_step (h : f t = .ok t') : Runs (step f) () t t' [t] := by
  have hcut : Runs (Proc.cut : Disk Unit) () t t [t] := rfl
  refine hcut.bind (Runs.bind reads_get ?_)
  rw [h]
  rfl

theorem cuts_step : Cuts (step f) P t ↔ P t := by
  constructor
  · intro h
    exact h t (mem_append_left _ (mem_singleton.mpr rfl))
  · intro h
    refine Cuts.bind (cuts_cut.mpr h) ?_
    rw [post_cut]
    refine Cuts.bind cuts_get ?_
    rw [post_get]
    rcases f t with e | t'
    · exact cuts_fail
    · exact cuts_modify

theorem reads_look {α : Type} {g : FileTree → Except AuthError α} {a : α} (h : g t = .ok a) :
    Reads (look g) a t :=
  reads_get.bind (reads_lift h)

theorem locate_config : t.locate (filePath (jwtDir dir) "config.json") =
    some (jwtDir dir ++ ["config.json"]) :=
  locate_plain ⟨by decide, by decide, by decide, by decide⟩

theorem locate_secret : t.locate (filePath dir "secret.key") = some (dir ++ ["secret.key"]) :=
  locate_plain ⟨by decide, by decide, by decide, by decide⟩

theorem locate_pem (h : '/' ∉ kid.toList) : t.locate (filePath (keysDir dir) (kid ++ ".pem")) =
    some (keysDir dir ++ [kid ++ ".pem"]) :=
  locate_plain (isPlain_of_suffix h (by decide) (by decide))

theorem locate_pub (h : '/' ∉ kid.toList) :
    t.locate (filePath (keysDir dir) (kid ++ ".pub.pem")) =
      some (keysDir dir ++ [kid ++ ".pub.pem"]) :=
  locate_plain (isPlain_of_suffix h (by decide) (by decide))

end Steps

/-! ### Directories and files do not get in each other's way -/

theorem jwtDir_isPrefix (dir : Place) : jwtDir dir <+: keysDir dir :=
  ⟨["keys"], by simp [jwtDir, keysDir]⟩

/-- In and above the directory there are no files where the store has
directories, and no other directories. -/
structure Layout (t : FileTree) (dir : Place) : Prop where
  noFile : ∀ l, l <+: usersDir dir ∨ l <+: keysDir dir → t.files l = none
  dirs : ∀ names, t.dirs (dir ++ names) = true → names <+: ["users"] ∨ names <+: ["jwt", "keys"]

def IsFile (dir l : Place) : Prop :=
  ∃ names, l = dir ++ names ∧ ¬ names <+: ["users"] ∧ ¬ names <+: ["jwt", "keys"]

theorem isFile_user (dir : Place) (name : String) : IsFile dir (usersDir dir ++ [name]) :=
  ⟨["users", name], by simp [usersDir], by simp, by simp⟩

theorem isFile_key (dir : Place) (name : String) : IsFile dir (keysDir dir ++ [name]) :=
  ⟨["jwt", "keys", name], by simp [keysDir], by simp, by simp⟩

theorem isFile_jwt (dir : Place) {name : String} (h : name ≠ "keys") :
    IsFile dir (jwtDir dir ++ [name]) :=
  ⟨["jwt", name], by simp [jwtDir], by simp, by simp [h]⟩

theorem isFile_secret (dir : Place) : IsFile dir (dir ++ ["secret.key"]) :=
  ⟨["secret.key"], rfl, by simp, by simp⟩

namespace Layout

variable {t : FileTree} {dir l : Place} {b : Option (List UInt8)}

theorem addDirs (h : Layout t dir) (hl : l <+: usersDir dir ∨ l <+: keysDir dir) :
    Layout (t.addDirs l) dir := by
  refine ⟨h.noFile, fun names hdir => ?_⟩
  rcases dirs_addDirs.mp hdir with hold | hnew
  · exact h.dirs names hold
  · refine hl.imp ?_ ?_
    · exact fun husers => (prefix_append_right_inj dir).mp (hnew.trans husers)
    · exact fun hkeys => (prefix_append_right_inj dir).mp (hnew.trans hkeys)

theorem createDirAll (h : Layout t dir) (hl : l <+: usersDir dir ∨ l <+: keysDir dir) :
    t.createDirAll l = .ok (t.addDirs l) :=
  createDirAll_eq_ok fun m hm => h.noFile m (hl.imp hm.trans hm.trans)

theorem setFile (h : Layout t dir) (hfile : IsFile dir l) : Layout (t.setFile l b) dir := by
  obtain ⟨names, rfl, husers, hkeys⟩ := hfile
  refine ⟨fun m hm => ?_, h.dirs⟩
  have hne : m ≠ dir ++ names := by
    rintro rfl
    rcases hm with hm | hm
    · exact husers ((prefix_append_right_inj dir).mp hm)
    · exact hkeys ((prefix_append_right_inj dir).mp hm)
  rw [files_setFile_ne hne]
  exact h.noFile m hm

theorem dirs_eq_false (h : Layout t dir) (hfile : IsFile dir l) : t.dirs l = false := by
  obtain ⟨names, rfl, husers, hkeys⟩ := hfile
  by_contra htrue
  rcases h.dirs names (by simpa using htrue) with hl | hl
  · exact husers hl
  · exact hkeys hl

end Layout

/-! ### The signing keys -/

section Keys

variable {t t' : FileTree} {dir : Place} {secret : List UInt8}

/-- The name of a key that is not in use any more. -/
def IsArchived (name : String) : Prop := ".archived".toList <:+ name.toList

theorem not_isArchived_append {name ext : String}
    (h : ext.toList.getLast? ≠ some 'd') (hext : ext.toList ≠ []) : ¬ IsArchived (name ++ ext) := by
  rintro ⟨start, heq⟩
  have hlast := congrArg getLast? heq
  rw [String.toList_append, getLast?_append_of_ne_nil _ hext,
    getLast?_append_of_ne_nil _ (by decide)] at hlast
  exact h (hlast.symm.trans (by decide))

/-- The keys and what says which they are have stayed the same, apart from the
archived ones. -/
structure SameKeys (dir : Place) (t t' : FileTree) : Prop where
  config : t'.files (jwtDir dir ++ ["config.json"]) = t.files (jwtDir dir ++ ["config.json"])
  keys : ∀ name, ¬ IsArchived name →
    t'.files (keysDir dir ++ [name]) = t.files (keysDir dir ++ [name])
  dirs : ∀ l, t.dirs l = true → t'.dirs l = true

theorem SameKeys.trans {t'' : FileTree} (h : SameKeys dir t t') (h' : SameKeys dir t' t'') :
    SameKeys dir t t'' :=
  ⟨h'.config.trans h.config, fun name hname => (h'.keys name hname).trans (h.keys name hname),
    fun l hl => h'.dirs l (h.dirs l hl)⟩

theorem sameKeys_addDirs (t : FileTree) (dir l : Place) : SameKeys dir t (t.addDirs l) :=
  ⟨rfl, fun _ _ => rfl, fun _ hl => dirs_addDirs.mpr (.inl hl)⟩

theorem sameKeys_user (t : FileTree) (dir : Place) (name : String) (b : Option (List UInt8)) :
    SameKeys dir t (t.setFile (usersDir dir ++ [name]) b) :=
  ⟨files_setFile_ne (by simp [jwtDir, usersDir]),
    fun _ _ => files_setFile_ne (by simp [keysDir, usersDir]), fun _ => id⟩

theorem sameKeys_token (t : FileTree) (dir : Place) (b : Option (List UInt8)) :
    SameKeys dir t (t.setFile (jwtDir dir ++ ["cluster_peer.token"]) b) :=
  ⟨files_setFile_ne (by simp), fun _ _ => files_setFile_ne (by simp [keysDir, jwtDir]),
    fun _ => id⟩

theorem readHsSecret_stored (hsize : secret.length = 32)
    (h : t.files (dir ++ ["secret.key"]) = some secret) : Reads (readHsSecret dir) secret t := by
  refine (reads_look (a := secret) ?_).bind ?_
  · rw [read_eq_ok locate_secret h]
    rfl
  · rw [if_neg (not_not.mpr hsize)]
    exact reads_pure

variable [Rsa] [Sha256] [PrettyJson JwtDiskConfig] {config : JwtConfig} {kid : String} {key : RsKey}

/-- The files of a kid are those of a key. -/
structure KeyStored (t : FileTree) (dir : Place) (kid : String) (key : RsKey) : Prop where
  privateFile : t.files (keysDir dir ++ [kid ++ ".pem"]) = some (utf8 key.privatePem)
  publicFile : t.files (keysDir dir ++ [kid ++ ".pub.pem"]) = some (utf8 key.publicPem)

/-- The directory holds the keys of a configuration, and `config.json` says which
they are. -/
inductive ConfigStored (t : FileTree) (dir : Place) : JwtConfig → Prop
  | hs256 {secret : List UInt8} {accessTtl refreshTtl : UInt64} (hsize : secret.length = 32)
      (hconfig : t.files (jwtDir dir ++ ["config.json"]) = some (utf8 (PrettyJson.toStringPretty
        (⟨.hs256, none, none, accessTtl, refreshTtl⟩ : JwtDiskConfig))))
      (hsecret : t.files (dir ++ ["secret.key"]) = some secret) :
      ConfigStored t dir ⟨.hs256 secret, accessTtl, refreshTtl⟩
  | rs256 {currentKid nextKid : String} {current next : RsKey} {accessTtl refreshTtl : UInt64}
      (hcurrentKid : '/' ∉ currentKid.toList) (hnextKid : '/' ∉ nextKid.toList)
      (hconfig : t.files (jwtDir dir ++ ["config.json"]) = some (utf8 (PrettyJson.toStringPretty
        (⟨.rs256, some currentKid, some nextKid, accessTtl, refreshTtl⟩ : JwtDiskConfig))))
      (hcurrent : KeyStored t dir currentKid current) (hnext : KeyStored t dir nextKid next) :
      ConfigStored t dir ⟨.rs256 ⟨current, next⟩, accessTtl, refreshTtl⟩

omit [Sha256] [PrettyJson JwtDiskConfig] in
theorem KeyStored.congr (h : KeyStored t dir kid key) (hsame : SameKeys dir t t') :
    KeyStored t' dir kid key :=
  ⟨(hsame.keys _ (not_isArchived_append (by decide) (by decide))).trans h.privateFile,
    (hsame.keys _ (not_isArchived_append (by decide) (by decide))).trans h.publicFile⟩

omit [Sha256] in
theorem ConfigStored.congr (h : ConfigStored t dir config) (hsame : SameKeys dir t t')
    (hsecret : t'.files (dir ++ ["secret.key"]) = t.files (dir ++ ["secret.key"])) :
    ConfigStored t' dir config := by
  cases h with
  | hs256 hsize hfile hbytes =>
    exact .hs256 hsize (hsame.config.trans hfile) (hsecret.trans hbytes)
  | rs256 hcurrentKid hnextKid hfile hcurrent hnext =>
    exact .rs256 hcurrentKid hnextKid (hsame.config.trans hfile) (hcurrent.congr hsame)
      (hnext.congr hsame)

omit [Sha256] in
theorem ConfigStored.addDirs (h : ConfigStored t dir config) (l : Place) :
    ConfigStored (t.addDirs l) dir config :=
  h.congr (sameKeys_addDirs t dir l) rfl

omit [Sha256] in
theorem ConfigStored.setFile_user (h : ConfigStored t dir config) (name : String)
    (b : Option (List UInt8)) : ConfigStored (t.setFile (usersDir dir ++ [name]) b) dir config :=
  h.congr (sameKeys_user t dir name b) (files_setFile_ne (by simp [usersDir]))

omit [Sha256] in
theorem ConfigStored.setFile_token (h : ConfigStored t dir config) (b : Option (List UInt8)) :
    ConfigStored (t.setFile (jwtDir dir ++ ["cluster_peer.token"]) b) dir config :=
  h.congr (sameKeys_token t dir b) (files_setFile_ne (by simp [jwtDir]))

omit [Sha256] [PrettyJson JwtDiskConfig] in
theorem readRsKey_stored (hkid : '/' ∉ kid.toList) (h : KeyStored t dir kid key) :
    Reads (readRsKey dir kid) key t := by
  refine (reads_look ?_).bind ((reads_look ?_).bind (reads_lift key.fromPem_pem))
  · rw [readText_eq_ok (locate_pem hkid) h.privateFile]
    rfl
  · rw [readText_eq_ok (locate_pub hkid) h.publicFile]
    rfl

variable {disk : JwtDiskConfig} {settings : TokenSettings} {keys : NewKeys}

theorem loadOrCreateJwtConfig_eq (hconfig : t.files (jwtDir dir ++ ["config.json"]) =
      some (utf8 (PrettyJson.toStringPretty disk))) :
    loadOrCreateJwtConfig dir settings keys t = loadFromDiskConfig dir disk t := by
  refine reads_get.run_bind.trans ?_
  rw [if_pos (pathExists_eq_true locate_config hconfig)]
  refine (reads_look (a := PrettyJson.toStringPretty disk) ?_).run_bind.trans
    (reads_lift ?_).run_bind
  · rw [readText_eq_ok locate_config hconfig]
    rfl
  · rw [PrettyJson.fromStr_toStringPretty]
    rfl

theorem loadOrCreateJwtConfig_stored (h : ConfigStored t dir config) (settings : TokenSettings)
    (keys : NewKeys) : Reads (loadOrCreateJwtConfig dir settings keys) config t := by
  cases h with
  | hs256 hsize hconfig hsecret =>
    exact (loadOrCreateJwtConfig_eq hconfig).trans
      ((readHsSecret_stored hsize hsecret).bind reads_pure)
  | rs256 hcurrentKid hnextKid hconfig hcurrent hnext =>
    exact (loadOrCreateJwtConfig_eq hconfig).trans (reads_pure.bind (reads_pure.bind
      ((readRsKey_stored hcurrentKid hcurrent).bind
        ((readRsKey_stored hnextKid hnext).bind reads_pure))))

/-- What writing a key leaves behind. -/
def withKey (t : FileTree) (dir : Place) (key : RsKey) : FileTree :=
  ((t.addDirs (keysDir dir)).setFile (keysDir dir ++ [key.kid ++ ".pem"])
    (some (utf8 key.privatePem))).setFile (keysDir dir ++ [key.kid ++ ".pub.pem"])
    (some (utf8 key.publicPem))

omit [PrettyJson JwtDiskConfig] in
theorem writeKeyPair_runs (h : Layout t dir) : Runs (writeKeyPair dir key) () t
    (withKey t dir key) [t, t.addDirs (keysDir dir), (t.addDirs (keysDir dir)).setFile
      (keysDir dir ++ [key.kid ++ ".pem"]) (some (utf8 key.privatePem))] := by
  have hmade := h.addDirs (.inr prefix_rfl)
  have hkid := key.slash_not_mem_kid
  have hparent (t : FileTree) : (t.addDirs (keysDir dir)).dirs (keysDir dir) = true :=
    dirs_addDirs.mpr (.inr prefix_rfl)
  refine (runs_step (h.createDirAll (.inr prefix_rfl))).bind ((runs_step (write_eq_ok_of
    (locate_pem hkid) (hmade.dirs_eq_false (isFile_key dir _)) ?_)).bind (runs_step
    (write_eq_ok_of (locate_pub hkid) (hmade.dirs_eq_false (isFile_key dir _)) ?_)))
  · rw [dropLast_concat]
    exact hparent t
  · rw [dropLast_concat]
    exact hparent t

omit [PrettyJson JwtDiskConfig] in
theorem layout_withKey (h : Layout t dir) : Layout (withKey t dir key) dir :=
  ((h.addDirs (.inr List.prefix_rfl)).setFile (isFile_key dir _)).setFile (isFile_key dir _)

omit [PrettyJson JwtDiskConfig] in
theorem dirs_withKey : (withKey t dir key).dirs (keysDir dir) = true :=
  dirs_addDirs.mpr (.inr List.prefix_rfl)

def withConfig (t : FileTree) (dir : Place) (disk : JwtDiskConfig) : FileTree :=
  let text := some (utf8 (PrettyJson.toStringPretty disk))
  (((t.addDirs (jwtDir dir)).setFile (jwtDir dir ++ ["config.json.tmp"]) text).setFile
    (jwtDir dir ++ ["config.json.tmp"]) none).setFile (jwtDir dir ++ ["config.json"]) text

omit [Rsa] [Sha256] in
theorem writeJwtConfig_runs (h : Layout t dir) :
    Runs (writeJwtConfig dir disk) () t (withConfig t dir disk) [t, t.addDirs (jwtDir dir),
      (t.addDirs (jwtDir dir)).setFile (jwtDir dir ++ ["config.json.tmp"])
        (some (utf8 (PrettyJson.toStringPretty disk)))] := by
  have hjwt := jwtDir_isPrefix dir
  have hmade := h.addDirs (.inr hjwt)
  have hparent : (t.addDirs (jwtDir dir)).dirs (jwtDir dir) = true :=
    dirs_addDirs.mpr (.inr prefix_rfl)
  have htmp {t : FileTree} : t.locate (filePath (jwtDir dir) "config.json.tmp") =
      some (jwtDir dir ++ ["config.json.tmp"]) :=
    locate_plain ⟨by decide, by decide, by decide, by decide⟩
  refine (runs_step (h.createDirAll (.inr hjwt))).bind ((runs_step (write_eq_ok_of htmp
    (hmade.dirs_eq_false (isFile_jwt dir (by decide))) ?_)).bind (runs_step (rename_eq_ok_of htmp
    locate_config (files_setFile_self _) (hmade.dirs_eq_false (isFile_jwt dir (by decide))) ?_)))
  · rw [dropLast_concat]
    exact hparent
  · rw [dropLast_concat]
    exact hparent

omit [Rsa] [Sha256] in
theorem layout_withConfig (h : Layout t dir) :
    Layout (withConfig t dir disk) dir := by
  have hjwt := jwtDir_isPrefix dir
  exact (((h.addDirs (.inr hjwt)).setFile (isFile_jwt dir (by decide))).setFile
    (isFile_jwt dir (by decide))).setFile (isFile_jwt dir (by decide))

omit [Rsa] [Sha256] in
theorem dirs_withConfig {l : Place} (h : t.dirs l = true) :
    (withConfig t dir disk).dirs l = true :=
  dirs_addDirs.mpr (.inl h)

/-! ### What is where afterwards -/

omit [PrettyJson JwtDiskConfig] in
theorem pem_ne_pub (key key' : RsKey) : key.kid ++ ".pem" ≠ key'.kid ++ ".pub.pem" := by
  intro h
  have hlist := congrArg String.toList h
  rw [String.toList_append, String.toList_append] at hlist
  obtain ⟨-, hrest⟩ := append_sep_inj key.dot_not_mem_kid key'.dot_not_mem_kid hlist
  cases hrest

omit [PrettyJson JwtDiskConfig] in
theorem keyStored_withKey : KeyStored (withKey t dir key) dir key.kid key := by
  refine ⟨?_, files_setFile_self _⟩
  have hne : keysDir dir ++ [key.kid ++ ".pem"] ≠ keysDir dir ++ [key.kid ++ ".pub.pem"] := by
    simp
  rw [withKey, files_setFile_ne hne, files_setFile_self]

omit [PrettyJson JwtDiskConfig] in
theorem KeyStored.withKey {key' : RsKey} (h : KeyStored t dir key'.kid key')
    (hne : key'.kid ≠ key.kid) : KeyStored (withKey t dir key) dir key'.kid key' := by
  have hstr (ext : String) : key'.kid ++ ext ≠ key.kid ++ ext := by simp [hne]
  refine ⟨?_, ?_⟩
  · rw [Auth.withKey, files_setFile_ne (by simpa using pem_ne_pub key' key),
      files_setFile_ne (by simpa using hstr ".pem")]
    exact h.privateFile
  · rw [Auth.withKey, files_setFile_ne (by simpa using hstr ".pub.pem"),
      files_setFile_ne (by simpa using (pem_ne_pub key key').symm)]
    exact h.publicFile

omit [Rsa] [Sha256] in
theorem files_withConfig {l : Place} (h : ∀ name, l ≠ jwtDir dir ++ [name]) :
    (withConfig t dir disk).files l = t.files l := by
  rw [withConfig, files_setFile_ne (h _), files_setFile_ne (h _), files_setFile_ne (h _),
    files_addDirs]

omit [Sha256] in
theorem KeyStored.withConfig (h : KeyStored t dir kid key) :
    KeyStored (withConfig t dir disk) dir kid key := by
  have hne (x name : String) : keysDir dir ++ [x] ≠ jwtDir dir ++ [name] := by
    simp [keysDir, jwtDir]
  refine ⟨?_, ?_⟩
  · rw [files_withConfig (hne _)]
    exact h.privateFile
  · rw [files_withConfig (hne _)]
    exact h.publicFile

omit [Rsa] [Sha256] in
theorem config_withConfig :
    (withConfig t dir disk).files (jwtDir dir ++ ["config.json"]) =
      some (utf8 (PrettyJson.toStringPretty disk)) :=
  files_setFile_self _

/-- The directory holds a ring, each key under its own kid. -/
structure RingStored (t : FileTree) (dir : Place) (ring : RsKeyRing)
    (accessTtl refreshTtl : UInt64) : Prop where
  config : t.files (jwtDir dir ++ ["config.json"]) = some (utf8 (PrettyJson.toStringPretty
    (⟨.rs256, some ring.current.kid, some ring.next.kid, accessTtl, refreshTtl⟩ : JwtDiskConfig)))
  current : KeyStored t dir ring.current.kid ring.current
  next : KeyStored t dir ring.next.kid ring.next
  keysDir : t.dirs (keysDir dir) = true

variable {ring : RsKeyRing} {accessTtl refreshTtl : UInt64}

theorem RingStored.congr (h : RingStored t dir ring accessTtl refreshTtl)
    (hsame : SameKeys dir t t') :
    RingStored t' dir ring accessTtl refreshTtl :=
  ⟨hsame.config.trans h.config, h.current.congr hsame, h.next.congr hsame,
    hsame.dirs _ h.keysDir⟩

theorem RingStored.configStored (h : RingStored t dir ring accessTtl refreshTtl) :
    ConfigStored t dir ⟨.rs256 ring, accessTtl, refreshTtl⟩ :=
  .rs256 ring.current.slash_not_mem_kid ring.next.slash_not_mem_kid h.config h.current h.next

def withRing (t : FileTree) (dir : Place) (ring : RsKeyRing) (disk : JwtDiskConfig) : FileTree :=
  withConfig (withKey (withKey (t.addDirs (keysDir dir)) dir ring.current) dir ring.next) dir disk

theorem ringStored_withRing (hne : ring.current.kid ≠ ring.next.kid) :
    RingStored (withRing t dir ring
      ⟨.rs256, some ring.current.kid, some ring.next.kid, accessTtl, refreshTtl⟩) dir ring
      accessTtl refreshTtl :=
  ⟨config_withConfig, (keyStored_withKey.withKey hne).withConfig, keyStored_withKey.withConfig,
    dirs_withConfig dirs_withKey⟩

/-- Also if both keys have one kid, both can be loaded. -/
theorem exists_configStored_withRing :
    ∃ config, ConfigStored (withRing t dir ring
      ⟨.rs256, some ring.current.kid, some ring.next.kid, accessTtl, refreshTtl⟩) dir config := by
  by_cases hne : ring.current.kid = ring.next.kid
  · have hnext : KeyStored (withRing t dir ring
        ⟨.rs256, some ring.current.kid, some ring.next.kid, accessTtl, refreshTtl⟩) dir
        ring.next.kid ring.next := keyStored_withKey.withConfig
    exact ⟨_, .rs256 ring.current.slash_not_mem_kid ring.next.slash_not_mem_kid config_withConfig
      ((congrArg (KeyStored _ dir · ring.next) hne).mpr hnext) hnext⟩
  · exact ⟨_, (ringStored_withRing hne).configStored⟩

theorem layout_withRing (h : Layout t dir) :
    Layout (withRing t dir ring disk) dir :=
  layout_withConfig (layout_withKey (layout_withKey (h.addDirs (.inr List.prefix_rfl))))

variable {Q : JwtConfig → FileTree → Prop} {E : AuthError → FileTree → Prop}

theorem createJwtConfig_rs256 (h : Layout t dir) (halg : settings.bootstrapAlgorithm = .rs256)
    (hring : keys.ring = .ok ring)
    (hQ : Q ⟨.rs256 ring, settings.accessTtlSecs, settings.refreshTtlSecs⟩ (withRing t dir ring
      ⟨.rs256, some ring.current.kid, some ring.next.kid, settings.accessTtlSecs,
        settings.refreshTtlSecs⟩)) :
    Post (createJwtConfig dir settings keys) Q E t := by
  have hmade := h.addDirs (.inr prefix_rfl)
  simp only [createJwtConfig, halg, hring]
  refine Post.bind (post_step_ok (h.createDirAll (.inr prefix_rfl)) ?_)
  refine (writeKeyPair_runs hmade).post_bind.mpr ?_
  refine (writeKeyPair_runs (layout_withKey hmade)).post_bind.mpr ?_
  exact (writeJwtConfig_runs (layout_withKey (layout_withKey hmade))).post_bind.mpr hQ

def withSecret (t : FileTree) (dir : Place) (secret : List UInt8) (disk : JwtDiskConfig) :
    FileTree :=
  withConfig ((t.addDirs (jwtDir dir)).setFile (dir ++ ["secret.key"]) (some secret)) dir disk

omit [Rsa] [Sha256] in
theorem layout_withSecret (h : Layout t dir) :
    Layout (withSecret t dir secret disk) dir :=
  layout_withConfig ((h.addDirs (.inr (jwtDir_isPrefix dir))).setFile
    (isFile_secret dir))

omit [Sha256] in
theorem configStored_withSecret (hsize : secret.length = 32) :
    ConfigStored (withSecret t dir secret ⟨.hs256, none, none, accessTtl, refreshTtl⟩) dir
      ⟨.hs256 secret, accessTtl, refreshTtl⟩ := by
  refine .hs256 hsize config_withConfig ?_
  rw [withSecret, files_withConfig (by simp [jwtDir]), files_setFile_self]

theorem createJwtConfig_hs256 (h : Layout t dir) (halg : settings.bootstrapAlgorithm = .hs256)
    (hQ : Q ⟨.hs256 keys.secret, settings.accessTtlSecs, settings.refreshTtlSecs⟩ (withSecret t dir
      keys.secret ⟨.hs256, none, none, settings.accessTtlSecs, settings.refreshTtlSecs⟩)) :
    Post (createJwtConfig dir settings keys) Q E t := by
  have hjwt := jwtDir_isPrefix dir
  have hmade := h.addDirs (.inr hjwt)
  simp only [createJwtConfig, halg]
  refine Post.bind (post_step_ok (h.createDirAll (.inr hjwt)) ?_)
  refine Post.bind (post_step_ok (write_eq_ok_of locate_secret
    (hmade.dirs_eq_false (isFile_secret dir)) ?_) ?_)
  · rw [dropLast_concat]
    exact dirs_addDirs.mpr (.inr ⟨["jwt"], rfl⟩)
  · exact (writeJwtConfig_runs (hmade.setFile (isFile_secret dir))).post_bind.mpr hQ

/-- A new installation: the keys can be loaded, and the directory of users is as
it was. -/
theorem createJwtConfig_spec (h : Layout t dir)
    (hQ : ∀ config t', Layout t' dir → (∃ stored, ConfigStored t' dir stored) →
      (∀ l, t.dirs l = true → t'.dirs l = true) →
      (∀ name, t'.files (usersDir dir ++ [name]) = t.files (usersDir dir ++ [name])) →
      (∀ ring, settings.bootstrapAlgorithm = .rs256 → keys.ring = .ok ring →
        ring.current.kid ≠ ring.next.kid →
        config = ⟨.rs256 ring, settings.accessTtlSecs, settings.refreshTtlSecs⟩ ∧
        RingStored t' dir ring settings.accessTtlSecs settings.refreshTtlSecs) → Q config t')
    (hE : ∀ e t', settings.bootstrapAlgorithm = .rs256 → keys.ring = .error e → E e t') :
    Post (createJwtConfig dir settings keys) Q E t := by
  have huser (name x : String) : usersDir dir ++ [name] ≠ keysDir dir ++ [x] := by
    simp [usersDir, keysDir]
  have hjwt (name x : String) : usersDir dir ++ [name] ≠ jwtDir dir ++ [x] := by
    simp [usersDir, jwtDir]
  rcases halg : settings.bootstrapAlgorithm
  · refine createJwtConfig_hs256 h halg (hQ _ _ (layout_withSecret h)
      ⟨_, configStored_withSecret keys.secret_size⟩ ?_ ?_ ?_)
    · intro l hl
      simp [withSecret, withConfig, FileTree.addDirs, hl]
    · intro name
      rw [withSecret, files_withConfig (hjwt name), files_setFile_ne (by simp [usersDir]),
        files_addDirs]
    · intro ring hrs
      cases halg.symm.trans hrs
  · rcases hring : keys.ring with e | ring
    · have hmade := h.createDirAll (.inr prefix_rfl)
      simp only [createJwtConfig, halg, hring]
      exact Post.bind (post_step_ok hmade (Post.bind (post_lift_error.mpr (hE e _ halg hring))))
    · refine createJwtConfig_rs256 h halg hring (hQ _ _ (layout_withRing h)
        exists_configStored_withRing ?_ ?_ ?_)
      · intro l hl
        simp [withRing, withKey, withConfig, FileTree.addDirs, hl]
      · intro name
        rw [withRing, files_withConfig (hjwt name), withKey, files_setFile_ne (huser name _),
          files_setFile_ne (huser name _), files_addDirs, withKey, files_setFile_ne (huser name _),
          files_setFile_ne (huser name _), files_addDirs, files_addDirs]
      · intro ring' _ hring' hne
        obtain rfl : ring = ring' := Except.ok.inj (hring.symm.trans hring')
        exact ⟨rfl, ringStored_withRing hne⟩

end Keys

end Auth

end GrumpyDB
