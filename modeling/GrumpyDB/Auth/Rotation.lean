/-
Rotating the signing keys, and stopping in between.

A rotation renames the files of the old current key, writes those of a new next key, and then
replaces `config.json`. In between `config.json` names a key whose file is gone, so a process
that stops there cannot open its store again.
-/
import GrumpyDB.Auth.Users

namespace GrumpyDB

namespace Auth

open FileTree List
open Proc hiding bind

section Tokens

variable [Rsa] [Sha256] [JsonWebToken]

variable {ring : RsKeyRing}

theorem verifyToken_of_find {config : JwtConfig} {k : Rsa.Private}
    (hkeys : config.keys = .rs256 ring)
    (hfind : ring.find (RsKey.generate k).kid = some (.generate k)) {claims : Claims} {now : UInt64}
    (hnow : now ≤ claims.exp) :
    verifyToken (JsonWebToken.encodeRs256 (RsKey.generate k).kid claims k) config now =
      .ok claims := by
  rw [verifyToken, hkeys]
  simp only [JsonWebToken.decodeHeader_encodeRs256, Except.mapError, bind, Except.bind, hfind]
  rw [RsKey.generate, JsonWebToken.decodeRs256_encodeRs256 _ _ _ _ hnow]

omit [JsonWebToken] in
theorem RsKeyRing.find_current :
    ring.find ring.current.kid = some ring.current := by
  rw [RsKeyRing.find, if_pos rfl]

omit [JsonWebToken] in
theorem RsKeyRing.find_next (h : ring.current.kid ≠ ring.next.kid) :
    ring.find ring.next.kid = some ring.next := by
  rw [RsKeyRing.find, if_neg h, if_pos rfl]

variable {fresh : List RsKey}

omit [JsonWebToken] in
theorem RsKeyRing.find_rotations {kid : String} (hcurrent : ring.current.kid ≠ kid)
    (hkids : ∀ key ∈ ring.next :: fresh, key.kid ≠ kid) :
    (fresh.foldl rotate ring).find kid = none := by
  induction fresh generalizing ring with
  | nil => rw [foldl_nil, find, if_neg hcurrent, if_neg (hkids _ mem_cons_self)]
  | cons key fresh ih =>
    exact ih (hkids _ mem_cons_self) (forall_mem_cons.mp hkids).2

/-- **A token outlives no rotation**: it is accepted until it ends, but after one rotation or
more its key is not found. -/
theorem token_rotated {k : Rsa.Private} {next : RsKey}
    (hkids : ∀ key ∈ next :: fresh, key.kid ≠ (RsKey.generate k).kid) (user : User)
    (tokenType : String) {ttl start now a r : UInt64} (hnow : now ≤ start + ttl) : ∃ token,
    generateToken user ⟨.rs256 ⟨.generate k, next⟩, a, r⟩ ttl tokenType (.ok start) = .ok token ∧
      verifyToken token ⟨.rs256 (fresh.foldl .rotate ⟨.generate k, next⟩), a, r⟩ now =
        if fresh = [] then
          .ok ⟨user.username, user.tenant, user.roles, start, start + ttl, tokenType⟩
        else .error (.invalidToken ("kid not found in keyring: " ++ (RsKey.generate k).kid)) := by
  refine ⟨_, rfl, ?_⟩
  cases fresh with
  | nil => exact verifyToken_of_find rfl RsKeyRing.find_current hnow
  | cons key fresh =>
    have hnone := @RsKeyRing.find_rotations _ _ ⟨next, key⟩ fresh _ (hkids _ mem_cons_self)
      (forall_mem_cons.mp hkids).2
    rw [if_neg (cons_ne_nil _ _), foldl_cons, RsKeyRing.rotate, verifyToken]
    simp only [JsonWebToken.decodeHeader_encodeRs256, Except.mapError, bind, Except.bind, hnone]

end Tokens

theorem token_rotated_once : ∃ (_ : Rsa) (_ : Sha256) (_ : JsonWebToken) (next key : RsKey)
    (token kid : String), verifyToken token ⟨.rs256 ⟨next, key⟩, 9, 9⟩ 2 =
      .error (.invalidToken ("kid not found in keyring: " ++ kid)) := by
  let rsa := unaryRsa
  let hash := plainHash
  obtain ⟨library⟩ := JsonWebToken.nonempty
  have hkids : ∀ key ∈ [RsKey.generate (2 : Nat), .generate (3 : Nat)],
      key.kid ≠ (RsKey.generate (1 : Nat)).kid := by decide
  obtain ⟨token, -, h⟩ := token_rotated hkids ⟨"ann", "acme", "", [], 0⟩ "access"
    (show 2 ≤ 1 + 9 by decide)
  exact ⟨rsa, hash, library, _, _, token, _, h⟩

namespace AuthStore

/-! ### The steps -/

section Steps

def archived (t : FileTree) (l : Place) (name : String) (bytes : List UInt8) : FileTree :=
  (t.setFile (l ++ [name]) none).setFile (l ++ [name ++ ".archived"]) (some bytes)

variable {t : FileTree} {dir : Place} {kid ext name : String} {bytes : List UInt8}
  {entries : List (String × Option Nat)}

theorem archive_runs (hlayout : Layout t dir) (hdir : t.dirs (keysDir dir) = true)
    (hkid : '/' ∉ kid.toList) (hext : '/' ∉ ext.toList) (hlen : 2 < ext.toList.length)
    (hfile : t.files (keysDir dir ++ [kid ++ ext]) = some bytes) :
    Runs (archive (keysDir dir) (kid ++ ext)) () t
      (archived t (keysDir dir) (kid ++ ext) bytes) [t] := by
  have hfrom : t.locate (filePath (keysDir dir) (kid ++ ext)) =
      some (keysDir dir ++ [kid ++ ext]) := locate_plain (isPlain_of_suffix hkid hext hlen)
  have hslash : '/' ∉ (kid ++ ext).toList := by
    simp [hkid, hext]
  refine Runs.bind reads_get ?_
  rw [if_pos (pathExists_eq_true hfrom hfile)]
  refine (runs_step (rename_eq_ok_of hfrom (locate_plain (isPlain_of_suffix hslash (by decide)
    (by decide))) hfile (hlayout.dirs_eq_false (isFile_key dir _)) ?_)).orElse
  rw [dropLast_concat]
  exact hdir

theorem isPlain_of_isArchived (h : IsArchived name) (hslash : '/' ∉ name.toList) :
    IsPlain name := by
  obtain ⟨start, heq⟩ := h
  obtain rfl : String.ofList start ++ ".archived" = name := by
    rw [← String.toList_inj, String.toList_append, String.toList_ofList, heq]
  refine isPlain_of_suffix (fun hmem => hslash ?_) (by decide) (by decide)
  rw [String.toList_append]
  exact mem_append_left _ hmem

theorem gcArchivedKeys_keeps {P : FileTree → Prop} {l : Place} {graceSecs : Nat}
    (hslash : ∀ e ∈ entries, '/' ∉ e.1.toList)
    (hP : ∀ t name, IsArchived name → P t → P (t.setFile (l ++ [name]) none)) (h : P t) :
    Cuts (gcArchivedKeys l graceSecs entries) P t ∧
      Post (gcArchivedKeys l graceSecs entries) (fun _ t' => P t') (fun _ _ => False) t := by
  induction entries generalizing t with
  | nil => exact ⟨cuts_pure, h⟩
  | cons e entries ih =>
    obtain ⟨name, age⟩ := e
    have hone : Cuts (gcArchivedKey l graceSecs name age) P t ∧
        Post (gcArchivedKey l graceSecs name age) (fun _ t' => P t') (fun _ _ => False) t := by
      unfold gcArchivedKey
      split
      · rename_i hcond
        rw [Bool.and_eq_true, isSuffixOf_iff_suffix] at hcond
        refine ⟨Cuts.orElse (cuts_step.mpr h) (post_step.mpr ⟨fun _ _ => trivial, fun _ _ =>
          cuts_pure⟩), post_orElse.mpr (post_step.mpr ⟨fun t' ht' => ?_, fun _ _ => h⟩)⟩
        obtain ⟨l', hl', rfl⟩ := remove_eq_ok ht'
        obtain rfl := Option.some.inj (hl'.symm.trans (locate_plain
          (isPlain_of_isArchived hcond.1 (hslash (name, age) (by simp)))))
        exact hP t name hcond.1 h
      · exact ⟨cuts_pure, h⟩
    have hrest (t' : FileTree) (h' : P t') := ih (fun e he => hslash e (by simp [he])) h'
    refine ⟨Cuts.bind hone.1 (hone.2.mono (fun _ t' h' => (hrest t' h').1) fun _ _ he => he.elim),
      Post.bind (hone.2.mono (fun _ t' h' => (hrest t' h').2) fun _ _ he => he)⟩

theorem archived_ne_append (hext : ext.toList.getLast? ≠ some 'd') (hnil : ext.toList ≠ []) :
    name ++ ".archived" ≠ kid ++ ext := by
  intro heq
  refine (show ¬ IsArchived (kid ++ ext) from not_isArchived_append hext hnil) ?_
  rw [← heq, IsArchived, String.toList_append]
  exact suffix_append _ _

end Steps

/-! ### A directory that cannot be opened -/

variable [Rsa] [Sha256] [JsonWebToken] [PrettyJson JwtDiskConfig] [PrettyJson User]
  {s s' : AuthState} {t t' : FileTree} {dir : Place} {a b k : Rsa.Private}

variable {kid ext : String} {bytes : List UInt8} {name : String}
  {entries : List (String × Option Nat)}

omit [Sha256] [JsonWebToken] [PrettyJson JwtDiskConfig] [PrettyJson User] in
theorem readRsKey_missing (hkid : '/' ∉ kid.toList)
    (h : t.files (keysDir dir ++ [kid ++ ".pem"]) = none) :
    Post (readRsKey dir kid) (fun _ _ => False) (fun _ _ => True) t := by
  obtain ⟨e, hread⟩ := readText_eq_error (locate_pem hkid) h
  refine Post.bind (Post.bind (post_get.mpr ?_))
  dsimp only
  rw [hread]
  trivial

variable {accessTtl refreshTtl : UInt64}

omit [Sha256] [JsonWebToken] [PrettyJson JwtDiskConfig] [PrettyJson User] in
theorem loadFromDiskConfig_missing {nextKid : String} (hkid : '/' ∉ kid.toList)
    (h : t.files (keysDir dir ++ [kid ++ ".pem"]) = none) :
    Post (loadFromDiskConfig dir ⟨.rs256, some kid, some nextKid, accessTtl, refreshTtl⟩)
      (fun _ _ => False) (fun _ _ => True) t := by
  refine Post.bind (post_pure.mpr (Post.bind (post_pure.mpr (Post.bind ?_))))
  exact (readRsKey_missing hkid h).mono (fun _ _ hf => hf.elim) fun _ _ _ => trivial

/-- `config.json` names a current key whose file is gone. -/
structure Stuck (s : AuthState) (ring : RsKeyRing) (t : FileTree) : Prop where
  kept : UsersKept s.store.authDir s.disk t
  config : ∃ accessTtl refreshTtl, t.files (jwtDir s.store.authDir ++ ["config.json"]) =
    some (utf8 (PrettyJson.toStringPretty (⟨.rs256, some ring.current.kid, some ring.next.kid,
      accessTtl, refreshTtl⟩ : JwtDiskConfig)))
  missing : t.files (keysDir s.store.authDir ++ [ring.current.kid ++ ".pem"]) = none

namespace Stuck

variable {ring : RsKeyRing} {l : Place}

omit [JsonWebToken] [PrettyJson User] in
theorem addDirs (h : Stuck s ring t) (hl : l <+: keysDir s.store.authDir) :
    Stuck s ring (t.addDirs l) :=
  ⟨h.kept.addDirs hl, h.config, h.missing⟩

omit [JsonWebToken] [PrettyJson User] in
theorem setFile_key (h : Stuck s ring t) {name : String} (hname : name ≠ ring.current.kid ++ ".pem")
    (bytes : Option (List UInt8)) :
    Stuck s ring (t.setFile (keysDir s.store.authDir ++ [name]) bytes) := by
  obtain ⟨accessTtl, refreshTtl, hconfig⟩ := h.config
  refine ⟨h.kept.setFile_key name bytes, ⟨accessTtl, refreshTtl, ?_⟩, ?_⟩
  · exact (files_setFile_ne (by simp [jwtDir, keysDir])).trans hconfig
  · exact (files_setFile_ne (by simpa using hname.symm)).trans h.missing

omit [JsonWebToken] [PrettyJson User] in
theorem setFile_jwt (h : Stuck s ring t) {name : String} (hkeys : name ≠ "keys")
    (hname : name ≠ "config.json") (bytes : Option (List UInt8)) :
    Stuck s ring (t.setFile (jwtDir s.store.authDir ++ [name]) bytes) := by
  obtain ⟨accessTtl, refreshTtl, hconfig⟩ := h.config
  refine ⟨h.kept.setFile_jwt hkeys bytes, ⟨accessTtl, refreshTtl, ?_⟩, ?_⟩
  · exact (files_setFile_ne (by simpa using hname.symm)).trans hconfig
  · exact (files_setFile_ne (by simp [jwtDir, keysDir])).trans h.missing

theorem not_opens (h : Stuck s ring t) (settings : TokenSettings) (password : Option String)
    (boot : Boot) : Post (openStore s.store.authDir settings password boot) (fun _ _ => False)
      (fun _ _ => True) t := by
  have hdirPrefix : s.store.authDir <+: usersDir s.store.authDir := ⟨["users"], rfl⟩
  have hmade := h.kept.layout.addDirs (.inl hdirPrefix)
  obtain ⟨accessTtl, refreshTtl, hconfig⟩ := h.config
  refine Post.bind (post_step_ok (h.kept.layout.createDirAll (.inl hdirPrefix)) ?_)
  refine Post.bind (post_step_ok (hmade.createDirAll (.inl prefix_rfl)) ?_)
  let t₁ := (t.addDirs s.store.authDir).addDirs (usersDir s.store.authDir)
  refine Post.bind ((post_of_run_eq (loadOrCreateJwtConfig_eq (t := t₁) hconfig)).mpr ?_)
  refine Post.mono (loadFromDiskConfig_missing ring.current.slash_not_mem_kid h.missing)
    (fun _ _ hf => hf.elim) fun _ _ _ => trivial

end Stuck

/-! ### A rotation -/

def pair (a b : Rsa.Private) : RsKeyRing := ⟨.generate a, .generate b⟩

/-- A store that signs with the first of two keys, and whose directory holds it. -/
structure Ready (s : AuthState) (a b : Rsa.Private) : Prop where
  synced : Synced s
  staffed : Staffed s.store
  keys : s.store.jwtConfig.keys = .rs256 (pair a b)
  stored : RingStored s.disk s.store.authDir (pair a b) s.store.jwtConfig.accessTtl
    s.store.jwtConfig.refreshTtl
  distinct : (RsKey.generate a).kid ≠ (RsKey.generate b).kid

def NewKid (a b k : Rsa.Private) : Prop :=
  (RsKey.generate k).kid ≠ (RsKey.generate a).kid ∧ (RsKey.generate k).kid ≠ (RsKey.generate b).kid

/-- Opening the directory gives a store that signs with `a` or `b`, and the tokens
of `b` verify in it. -/
def Recovers (dir : Place) (a b : Rsa.Private) (t : FileTree) : Prop :=
  ∀ settings password (boot : Boot) now, boot.now = .ok now →
    t.Lists (usersDir dir) boot.entries →
    Post (openStore dir settings password boot)
      (fun store _ => ∃ ring, store.jwtConfig.keys = .rs256 ring ∧
        (ring.current = .generate a ∨ ring.current = .generate b) ∧
        ∀ (claims : Claims) (now : UInt64), now ≤ claims.exp →
          store.verify (JsonWebToken.encodeRs256 (RsKey.generate b).kid claims b) now = .ok claims)
      (fun _ _ => False) t

variable {ring : RsKeyRing}

theorem Ready.recovers (h : Ready s a b) (hkept : UsersKept s.store.authDir s.disk t)
    (hring : RingStored t s.store.authDir ring accessTtl refreshTtl)
    (hcurrent : ring.current = .generate a ∨ ring.current = .generate b)
    (hfind : ring.find (RsKey.generate b).kid = some (.generate b)) :
    Recovers s.store.authDir a b t := by
  intro settings password boot now hnow hlists
  have hsynced := h.synced.kept hkept ⟨_, hring.configStored⟩ s.store.jwtConfig
  refine Post.mono (hsynced.openStore h.staffed hring.configStored hnow hlists) ?_ fun _ _ he => he
  rintro store - ⟨-, hconfig⟩
  refine ⟨ring, by rw [hconfig], hcurrent, fun claims now hnow => ?_⟩
  exact verifyToken_of_find (by rw [hconfig]) hfind hnow

theorem Stuck.not_recovers (hstuck : Stuck s (pair a b) t) (h : Ready s a b) :
    ¬ Recovers s.store.authDir a b t := by
  intro hrecovers
  let boot : Boot := { firstBoot with entries := s.store.users.map User.fileName }
  have hlists := hstuck.kept.lists h.synced.layout h.synced.lists
  have hopens := hrecovers firstSettings none boot 1 rfl hlists
  obtain ⟨store, -, -, hfalse⟩ := (hopens.and (hstuck.not_opens firstSettings none boot)).mono
    (fun _ _ hq => hq) (fun _ _ he => he.1) |>.exists_ok
  exact hfalse

/-! ### Where it can stop -/

variable {store : AuthStore}

omit [Sha256] [JsonWebToken] [PrettyJson User] [PrettyJson JwtDiskConfig] in
theorem runs_onDisk {α : Type} {x : Disk α} {r : α} {cs : List FileTree} (h : Runs x r t t' cs) :
    Runs (onDisk x) r ⟨store, t⟩ ⟨store, t'⟩
      (cs.map fun t => ⟨store, t⟩) :=
  Runs.zoom (s := (⟨store, t⟩ : AuthState)) h

omit [JsonWebToken] [PrettyJson User] [PrettyJson JwtDiskConfig] in
theorem keyStored_archived {key other : RsKey} (h : KeyStored t dir key.kid key)
    (hpem : other.kid ++ ext ≠ key.kid ++ ".pem")
    (hpub : other.kid ++ ext ≠ key.kid ++ ".pub.pem") :
    KeyStored (archived t (keysDir dir) (other.kid ++ ext) bytes) dir key.kid key := by
  have hne {x y : String} (h : x ≠ y) : keysDir dir ++ [y] ≠ keysDir dir ++ [x] := by
    simpa using h.symm
  refine ⟨?_, ?_⟩
  · rw [AuthStore.archived, files_setFile_ne (hne (archived_ne_append (by decide) (by decide))),
      files_setFile_ne (hne hpem)]
    exact h.privateFile
  · rw [AuthStore.archived, files_setFile_ne (hne (archived_ne_append (by decide) (by decide))),
      files_setFile_ne (hne hpub)]
    exact h.publicFile

omit [JsonWebToken] [PrettyJson User] in
theorem Stuck.archived (h : Stuck s ring t) (hname : name ≠ ring.current.kid ++ ".pem") :
    Stuck s ring (archived t (keysDir s.store.authDir) name bytes) :=
  (h.setFile_key hname none).setFile_key (archived_ne_append (by decide) (by decide)) _

omit [JsonWebToken] in
theorem Ready.stuck_archived (h : Ready s a b) :
    Stuck s (pair a b) (AuthStore.archived s.disk (keysDir s.store.authDir)
      ((pair a b).current.kid ++ ".pem") bytes) := by
  refine ⟨(h.synced.usersKept.setFile_key _ _).setFile_key _ _,
    ⟨s.store.jwtConfig.accessTtl, s.store.jwtConfig.refreshTtl, ?_⟩, ?_⟩
  · exact (files_setFile_ne (by simp [jwtDir, keysDir])).trans
      ((files_setFile_ne (by simp [jwtDir, keysDir])).trans h.stored.config)
  · have hne {x : String} : x ++ ".pem" ≠ x ++ ".pem" ++ ".archived" :=
      (archived_ne_append (by decide) (by decide)).symm
    exact (files_setFile_ne (by simpa using hne)).trans (files_setFile_self _)

/-- What is left of a rotation once `config.json` is replaced. -/
def rotationTail (dir : Place) (entries : List (String × Option Nat)) (new : NewUser)
    (now : Except AuthError UInt64) (outcome : RotationOutcome) : Store RotationOutcome := do
  onDisk (gcArchivedKeys (keysDir dir) DEFAULT_ARCHIVE_GRACE_SECS entries)
  bootstrapClusterPeer new now
  return outcome

def promoted (store : AuthStore) (ring : RsKeyRing) : AuthStore :=
  { store with jwtConfig := { store.jwtConfig with keys := .rs256 ring } }

variable {new : NewUser} {now : Except AuthError UInt64}

theorem rotateJwtKeys_run {fresh : RsKey} {t₁ t₂ t₃ t₄ : FileTree} {cs₁ cs₂ cs₃ cs₄ : List FileTree}
    (hkeys : s.store.jwtConfig.keys = .rs256 ring)
    (hpem : Runs (archive (keysDir s.store.authDir) (ring.current.kid ++ ".pem")) () s.disk t₁ cs₁)
    (hpub : Runs (archive (keysDir s.store.authDir) (ring.current.kid ++ ".pub.pem")) () t₁ t₂ cs₂)
    (hkey : Runs (writeKeyPair s.store.authDir fresh) () t₂ t₃ cs₃)
    (hconfig : Runs (writeJwtConfig s.store.authDir ⟨.rs256, some ring.next.kid, some fresh.kid,
      s.store.jwtConfig.accessTtl, s.store.jwtConfig.refreshTtl⟩) () t₃ t₄ cs₄) :
    rotateJwtKeys (.ok fresh) entries new now s =
      (rotationTail s.store.authDir entries new now ⟨ring.current.kid, ring.next.kid, fresh.kid⟩
        ⟨promoted s.store (ring.rotate fresh), t₄⟩).after
          ((cs₁ ++ (cs₂ ++ (cs₃ ++ cs₄))).map
            fun t => ⟨promoted s.store (ring.rotate fresh), t⟩) := by
  let config : JwtConfig := { s.store.jwtConfig with keys := .rs256 (ring.rotate fresh) }
  have hmodify : Runs (Proc.modify fun s : AuthState =>
      { s with store := { s.store with jwtConfig := config } } : Store Unit) () s
      ⟨promoted s.store (ring.rotate fresh), s.disk⟩ [] := rfl
  refine reads_get.run_bind.trans ?_
  rw [hkeys]
  refine (reads_lift rfl).run_bind.trans ?_
  refine Eq.trans (hmodify.run_bind (Runs.run_bind (runs_onDisk hpem) (Runs.run_bind
    (runs_onDisk hpub) (Runs.run_bind (runs_onDisk hkey) (Runs.run_bind (runs_onDisk hconfig)
    rfl))))) ?_
  simp only [Out.after, map_append, append_assoc]
  rfl

/-- **The steps of a rotation.**  There are seven places to stop between the first
rename and the replacement of `config.json`; in all of them the directory is
stuck.  After the replacement it holds the new ring. -/
theorem Ready.rotate_run (h : Ready s a b) (hnew : NewKid a b k) :
    ∃ (stuck : List FileTree) (t : FileTree) (outcome : RotationOutcome), stuck.length = 7 ∧
      (∀ t ∈ stuck, Stuck s (pair a b) t) ∧ UsersKept s.store.authDir s.disk t ∧
      RingStored t s.store.authDir (pair b k) s.store.jwtConfig.accessTtl
        s.store.jwtConfig.refreshTtl ∧
      ∀ entries new now, rotateJwtKeys (.ok (.generate k)) entries new now s =
        (rotationTail s.store.authDir entries new now outcome
          ⟨promoted s.store (pair b k), t⟩).after
          ((s.disk :: stuck).map fun t => ⟨promoted s.store (pair b k), t⟩) := by
  let dir := s.store.authDir
  let old := (pair a b).current
  let fresh := RsKey.generate k
  have hstr {x y : RsKey} (hne : x.kid ≠ y.kid) (ext : String) : x.kid ++ ext ≠ y.kid ++ ext := by
    simp [hne]
  -- the trees along the way
  let t₁ := archived s.disk (keysDir dir) (old.kid ++ ".pem") (utf8 old.privatePem)
  let t₂ := archived t₁ (keysDir dir) (old.kid ++ ".pub.pem") (utf8 old.publicPem)
  let t₅ := withKey t₂ dir fresh
  let disk : JwtDiskConfig := ⟨.rs256, some (pair a b).next.kid, some fresh.kid,
    s.store.jwtConfig.accessTtl, s.store.jwtConfig.refreshTtl⟩
  have hstuck₁ : Stuck s (pair a b) t₁ := h.stuck_archived
  have hstuck₂ : Stuck s (pair a b) t₂ := hstuck₁.archived (pem_ne_pub _ _).symm
  have hstuck₃ := hstuck₂.addDirs prefix_rfl
  have hstuck₄ := hstuck₃.setFile_key (hstr hnew.1 ".pem") (some (utf8 fresh.privatePem))
  have hstuck₅ : Stuck s (pair a b) t₅ := hstuck₄.setFile_key (pem_ne_pub _ _).symm _
  have hstuck₆ := hstuck₅.addDirs (jwtDir_isPrefix dir)
  have hstuck₇ := hstuck₆.setFile_jwt (show "config.json.tmp" ≠ "keys" by decide) (by decide)
    (some (utf8 (PrettyJson.toStringPretty disk)))
  have hkept : UsersKept dir s.disk (withConfig t₅ dir disk) :=
    (hstuck₇.kept.setFile_jwt (by decide) none).setFile_jwt (by decide) _
  -- the next key is not touched
  have hnext₁ : KeyStored t₁ dir (RsKey.generate b).kid (.generate b) :=
    keyStored_archived h.stored.next (hstr h.distinct ".pem") (pem_ne_pub _ _)
  have hnext₂ : KeyStored t₂ dir (RsKey.generate b).kid (.generate b) :=
    keyStored_archived hnext₁ (pem_ne_pub _ _).symm (hstr h.distinct ".pub.pem")
  have hring : RingStored (withConfig t₅ dir disk) dir (pair b k) s.store.jwtConfig.accessTtl
      s.store.jwtConfig.refreshTtl :=
    ⟨config_withConfig, (hnext₂.withKey hnew.2.symm).withConfig, keyStored_withKey.withConfig,
      dirs_withConfig dirs_withKey⟩
  refine ⟨[t₁, t₂, t₂.addDirs (keysDir dir), (t₂.addDirs (keysDir dir)).setFile
    (keysDir dir ++ [fresh.kid ++ ".pem"]) (some (utf8 fresh.privatePem)), t₅,
    t₅.addDirs (jwtDir dir), (t₅.addDirs (jwtDir dir)).setFile (jwtDir dir ++ ["config.json.tmp"])
      (some (utf8 (PrettyJson.toStringPretty disk)))], withConfig t₅ dir disk,
    ⟨old.kid, (pair a b).next.kid, fresh.kid⟩, rfl, ?_, hkept, hring, ?_⟩
  · simp only [mem_cons, not_mem_nil, or_false]
    rintro t (rfl | rfl | rfl | rfl | rfl | rfl | rfl)
    exacts [hstuck₁, hstuck₂, hstuck₃, hstuck₄, hstuck₅, hstuck₆, hstuck₇]
  · intro entries new now
    have hpub : t₁.files (keysDir dir ++ [old.kid ++ ".pub.pem"]) = some (utf8 old.publicPem) := by
      have hne {x : String} : x ++ ".pub.pem" ≠ x ++ ".pem" ++ ".archived" :=
        (archived_ne_append (by decide) (by decide)).symm
      exact (files_setFile_ne (by simpa using hne)).trans
        ((files_setFile_ne (by simp)).trans
          h.stored.current.publicFile)
    have hrun₁ : Runs (archive (keysDir dir) (old.kid ++ ".pem")) () s.disk t₁ [s.disk] :=
      archive_runs h.synced.layout h.stored.keysDir old.slash_not_mem_kid (by decide)
        (by decide) h.stored.current.privateFile
    have hrun₂ : Runs (archive (keysDir dir) (old.kid ++ ".pub.pem")) () t₁ t₂ [t₁] :=
      archive_runs hstuck₁.kept.layout h.stored.keysDir old.slash_not_mem_kid (by decide)
        (by decide) hpub
    have hrun₃ : Runs (writeKeyPair dir fresh) () t₂ t₅ _ := writeKeyPair_runs hstuck₂.kept.layout
    have hrun₄ : Runs (writeJwtConfig dir disk) () t₅ (withConfig t₅ dir disk) _ :=
      writeJwtConfig_runs hstuck₅.kept.layout
    exact Eq.trans (rotateJwtKeys_run h.keys hrun₁ hrun₂ hrun₃ hrun₄) rfl

/-- The directory of users is as it was, and the directory holds a ring. -/
structure Holding (s : AuthState) (ring : RsKeyRing) (accessTtl refreshTtl : UInt64)
    (t : FileTree) : Prop where
  kept : UsersKept s.store.authDir s.disk t
  stored : RingStored t s.store.authDir ring accessTtl refreshTtl

namespace Holding

variable {ring : RsKeyRing} {accessTtl refreshTtl : UInt64}

omit [JsonWebToken] [PrettyJson User]

theorem addJwtDir (h : Holding s ring accessTtl refreshTtl t) :
    Holding s ring accessTtl refreshTtl (t.addDirs (jwtDir s.store.authDir)) :=
  ⟨h.kept.addDirs (jwtDir_isPrefix _), h.stored.congr (sameKeys_addDirs _ _ _)⟩

theorem setToken (h : Holding s ring accessTtl refreshTtl t) (text : List UInt8) :
    Holding s ring accessTtl refreshTtl
      (t.setFile (jwtDir s.store.authDir ++ ["cluster_peer.token"]) (some text)) :=
  ⟨h.kept.setFile_jwt (by decide) _, h.stored.congr (sameKeys_token _ _ _)⟩

theorem removeArchived (h : Holding s ring accessTtl refreshTtl t) {name : String}
    (hname : IsArchived name) : Holding s ring accessTtl refreshTtl
      (t.setFile (keysDir s.store.authDir ++ [name]) none) := by
  refine ⟨h.kept.setFile_key name none, h.stored.congr ⟨files_setFile_ne ?_, ?_, fun _ => id⟩⟩
  · simp [jwtDir, keysDir]
  · intro other hother
    refine files_setFile_ne fun heq => hother ?_
    obtain rfl : other = name := by simpa using heq
    exact hname

end Holding

omit [PrettyJson JwtDiskConfig] [PrettyJson User] in
theorem issueClusterPeerToken_keeps {P : FileTree → Prop} (hlayout : Layout s.disk s.store.authDir)
    (h : P s.disk) (hdir : P (s.disk.addDirs (jwtDir s.store.authDir)))
    (htoken : ∀ text, P ((s.disk.addDirs (jwtDir s.store.authDir)).setFile
      (jwtDir s.store.authDir ++ ["cluster_peer.token"]) (some text))) :
    Cuts (issueClusterPeerToken now) (fun s' => P s'.disk) s ∧
      Post (issueClusterPeerToken now) (fun _ s' => s'.store = s.store ∧ P s'.disk)
        (fun _ _ => True) s := by
  have hmade := hlayout.createDirAll (.inr (jwtDir_isPrefix _))
  refine ⟨?_, ?_⟩
  · refine Cuts.bind cuts_get (post_get.mpr ?_)
    rcases s.store.getUser SYSTEM_TENANT CLUSTER_PEER_USERNAME with _ | peer
    · exact cuts_pure
    refine Cuts.bind cuts_lift ?_
    rcases generateToken peer s.store.jwtConfig CLUSTER_PEER_TTL_SECS "access" now with e | token
    · trivial
    refine Cuts.bind (cuts_zoom.mpr (cuts_step.mpr h)) (post_onDisk.mpr (post_step_ok hmade ?_))
    exact cuts_zoom.mpr (cuts_step.mpr hdir)
  · rcases now with e | now
    · refine Post.bind (post_get.mpr ?_)
      rcases s.store.getUser SYSTEM_TENANT CLUSTER_PEER_USERNAME with _ | peer
      · exact ⟨rfl, h⟩
      · exact Post.bind (post_lift_error.mpr trivial)
    · refine issueClusterPeerToken_rule hlayout ?_
      rintro t (rfl | ⟨text, rfl⟩)
      · exact ⟨rfl, h⟩
      · exact ⟨rfl, htoken text⟩

theorem rotationTail_keeps {outcome : RotationOutcome} (hdir : store.authDir = s.store.authDir)
    (hstaffed : Staffed store) (hslash : ∀ e ∈ entries, '/' ∉ e.1.toList)
    (h : Holding s ring accessTtl refreshTtl t) :
    Cuts (rotationTail s.store.authDir entries new now outcome)
        (fun s' => Holding s ring accessTtl refreshTtl s'.disk) ⟨store, t⟩ ∧
      Post (rotationTail s.store.authDir entries new now outcome)
        (fun _ s' => s'.store = store ∧ Holding s ring accessTtl refreshTtl s'.disk)
        (fun _ _ => True) ⟨store, t⟩ := by
  let P := Holding s ring accessTtl refreshTtl
  let gc := gcArchivedKeys (keysDir s.store.authDir) DEFAULT_ARCHIVE_GRACE_SECS entries
  obtain ⟨hgcCuts, hgc⟩ : Cuts gc P t ∧ Post gc (fun _ t' => P t') (fun _ _ => False) t :=
    gcArchivedKeys_keeps hslash (fun t name hname h => h.removeArchived hname) h
  have hpeer (t' : FileTree) (h' : P t') :
      Cuts (issueClusterPeerToken now) (fun s' => P s'.disk) ⟨store, t'⟩ ∧
      Post (issueClusterPeerToken now) (fun _ s' => s'.store = store ∧ P s'.disk)
        (fun _ _ => True) ⟨store, t'⟩ :=
    issueClusterPeerToken_keeps (hdir ▸ h'.kept.layout) h' (hdir ▸ h'.addJwtDir)
      (fun text => hdir ▸ h'.addJwtDir.setToken text)
  have hensure (t' : FileTree) := (bootstrap_staffed (s := ⟨store, t'⟩) hstaffed none new).2
  refine ⟨?_, ?_⟩
  · refine Cuts.bind (cuts_zoom.mpr hgcCuts) (post_onDisk.mpr (hgc.mono ?_ fun _ _ he => he.elim))
    intro _ t' h'
    refine Cuts.bind (Cuts.bind (hensure t').cuts ((hensure t').post.mpr (hpeer t' h').1)) ?_
    exact Post.bind ((hensure t').post.mpr ((hpeer t' h').2.mono (fun _ _ _ => cuts_pure)
      fun _ _ _ => trivial))
  · refine Post.bind (post_onDisk.mpr (hgc.mono ?_ fun _ _ he => he.elim))
    intro _ t' h'
    refine Post.bind (Post.bind ((hensure t').post.mpr ((hpeer t' h').2.mono ?_ fun _ _ he => he)))
    exact fun _ _ hq => hq

/-! ### Any number of rotations -/

/-- The states with a ring of two keys that a new store reaches by rotations that
succeed, each with a key whose id is not in use. -/
inductive Rotated : AuthState → Rsa.Private → Rsa.Private → Prop where
  | opened {t : FileTree} {dir : Place} {settings : TokenSettings} {password : Option String}
      {boot : Boot} {store : AuthStore} {a b : Rsa.Private} (fresh : Fresh t dir)
      (lists : t.Lists (usersDir dir) boot.entries) (alg : settings.bootstrapAlgorithm = .rs256)
      (ring : boot.keys.ring = .ok (pair a b))
      (distinct : (RsKey.generate a).kid ≠ (RsKey.generate b).kid)
      (ok : (openStore dir settings password boot t).res = .ok store) :
      Rotated ⟨store, (openStore dir settings password boot t).st⟩ a b
  | rotated {s : AuthState} {a b k : Rsa.Private} {entries : List (String × Option Nat)}
      {new : NewUser} {now : Except AuthError UInt64} {outcome : RotationOutcome}
      (rotated : Rotated s a b) (newKid : NewKid a b k)
      (slash : ∀ e ∈ entries, '/' ∉ e.1.toList)
      (ok : (rotateJwtKeys (.ok (.generate k)) entries new now s).res = .ok outcome) :
      Rotated (rotateJwtKeys (.ok (.generate k)) entries new now s).st b k

theorem Rotated.ready (h : Rotated s a b) : Ready s a b := by
  induction h with
  | opened fresh lists alg ring distinct ok =>
    obtain ⟨hsynced, hstaffed, -, hring⟩ := (openStore_fresh fresh lists).of_ok ok
    obtain ⟨hconfig, hstored⟩ := hring _ alg ring distinct
    exact ⟨hsynced, hstaffed, by rw [hconfig], by rw [hconfig]; exact hstored, distinct⟩
  | @rotated s a b k entries new now outcome _ newKid slash ok ih =>
    obtain ⟨stuck, t, outcome, -, -, hkept, hstored, hrun⟩ := ih.rotate_run newKid
    rw [hrun] at ok ⊢
    have hstaffed : Staffed (promoted s.store (pair b k)) := ⟨ih.staffed.admin, ih.staffed.peer⟩
    have hdir : (promoted s.store (pair b k)).authDir = s.store.authDir := rfl
    obtain ⟨hstore, hholding⟩ :=
      (rotationTail_keeps hdir hstaffed slash ⟨hkept, hstored⟩).2.of_ok ok
    show Ready (rotationTail s.store.authDir entries new now outcome _).st b k
    generalize (rotationTail s.store.authDir entries new now outcome _).st = s' at hstore hholding
    obtain ⟨store, disk⟩ := s'
    obtain rfl : store = promoted s.store (pair b k) := hstore
    exact ⟨ih.synced.kept hholding.kept ⟨_, hholding.stored.configStored⟩ _, hstaffed, rfl,
      hholding.stored, newKid.2.symm⟩

theorem Ready.stuck_of_stop (h : Ready s a b) (hnew : NewKid a b k) {i : Nat} (hpos : 0 < i)
    (hlt : i < 8) {stop : AuthState}
    (hstop : (rotateJwtKeys (.ok (.generate k)) entries new now s).cuts[i]? = some stop) :
    Stuck s (pair a b) stop.disk := by
  obtain ⟨stuck, t, outcome, hlen, hstuck, -, -, hrun⟩ := h.rotate_run hnew
  rw [hrun, Out.after, getElem?_append_left (by simp [hlen]; omega),
    getElem?_map] at hstop
  obtain ⟨t, hget, rfl⟩ := Option.map_eq_some_iff.mp hstop
  obtain ⟨i, rfl⟩ : ∃ j, i = j + 1 := ⟨i - 1, by omega⟩
  exact hstuck t (mem_of_getElem? hget)

/-- **A rotation that stops** before a step leaves behind a directory that can be opened, with the
current key of before or after and accepting the tokens of the promoted key, if and only if this
is the first step, or `config.json` has been replaced. -/
theorem rotation_survives_stop_iff (h : Rotated s a b) (hnew : NewKid a b k)
    {entries : List (String × Option Nat)} {new : NewUser} {now : Except AuthError UInt64}
    (hslash : ∀ e ∈ entries, '/' ∉ e.1.toList) {i : Nat} {stop : AuthState}
    (hstop : (rotateJwtKeys (.ok (.generate k)) entries new now s).cuts[i]? = some stop) :
    Recovers s.store.authDir a b stop.disk ↔ i = 0 ∨ 8 ≤ i := by
  have hready := h.ready
  obtain ⟨stuck, t, outcome, hlen, -, hkept, hstored, hrun⟩ := hready.rotate_run hnew
  rcases Nat.eq_zero_or_pos i with rfl | hpos
  · rw [hrun] at hstop
    obtain rfl := Option.some.inj hstop
    refine iff_of_true ?_ (.inl rfl)
    exact hready.recovers hready.synced.usersKept hready.stored (.inl rfl)
      (RsKeyRing.find_next hready.distinct)
  by_cases hlt : i < 8
  · have hstuck := hready.stuck_of_stop hnew hpos hlt hstop
    exact iff_of_false (hstuck.not_recovers hready) (by omega)
  · rw [hrun, Out.after, getElem?_append_right (by simp [hlen]; omega)] at hstop
    refine iff_of_true ?_ (.inr (by omega))
    have hstaffed : Staffed (promoted s.store (pair b k)) :=
      ⟨hready.staffed.admin, hready.staffed.peer⟩
    have hdir : (promoted s.store (pair b k)).authDir = s.store.authDir := rfl
    have hholding := (rotationTail_keeps hdir hstaffed hslash ⟨hkept, hstored⟩).1 stop
      (mem_of_getElem? hstop)
    exact hready.recovers hholding.kept hholding.stored (.inr rfl) RsKeyRing.find_current

/-! ### The first rotation of a new store -/

omit [Rsa] [Sha256] [JsonWebToken] [PrettyJson JwtDiskConfig] [PrettyJson User] in
theorem length_blankSecret : (List.replicate 32 (0 : UInt8)).length = 32 := rfl

def ringBoot (a b : Rsa.Private) : Boot :=
  { firstBoot with keys := ⟨List.replicate 32 0, length_blankSecret, .ok (pair a b)⟩ }

def ringOpen (dir : Place) (a b : Rsa.Private) : Disk AuthStore :=
  openStore dir ⟨3600, 604800, .rs256⟩ (some "correct horse") (ringBoot a b)

theorem exists_rotated (dir : Place) (hne : (RsKey.generate a).kid ≠ (RsKey.generate b).kid) :
    ∃ s, Rotated s a b := by
  have hpost : Post (ringOpen dir a b) _ _ nothing :=
    openStore_fresh (fresh_nothing dir) (lists_nothing _)
  have hok : BootOk ⟨3600, 604800, .rs256⟩ (some "correct horse") (ringBoot a b) :=
    ⟨rfl, fun _ => ⟨_, rfl⟩, ⟨⟨_, rfl⟩, _, rfl⟩, ⟨⟨_, rfl⟩, _, rfl⟩, _, rfl⟩
  obtain ⟨store, hopen, -⟩ := (hpost.mono (fun _ _ h => h) fun _ _ hnot => hnot hok).exists_ok
  exact ⟨_, .opened (fresh_nothing dir) (lists_nothing _) rfl rfl hne hopen⟩

theorem exists_stop (h : Ready s a b) (hnew : NewKid a b k) {i : Nat} (hi : i < 8)
    (new : NewUser) (now : Except AuthError UInt64) : ∃ stop,
      (rotateJwtKeys (.ok (.generate k)) [] new now s).cuts[i]? = some stop := by
  obtain ⟨stuck, t, outcome, hlen, -, -, -, hrun⟩ := h.rotate_run hnew
  refine ⟨_, getElem?_eq_getElem ?_⟩
  rw [hrun, Out.after, length_append, length_map, length_cons]
  omega

end AuthStore

namespace AuthStore

theorem rotation_survives_early_stop :
    ∃ (_ : Rsa) (_ : Sha256) (_ : JsonWebToken) (_ : PrettyJson JwtDiskConfig)
      (_ : PrettyJson User) (s stop : AuthState) (a b k : Rsa.Private),
      Rotated s a b ∧ NewKid a b k ∧
      (rotateJwtKeys (.ok (.generate k)) [] ⟨.ok "", .ok 1⟩ (.ok 1) s).cuts[0]? = some stop ∧
      Recovers s.store.authDir a b stop.disk := by
  let rsa := unaryRsa
  let hash := plainHash
  obtain ⟨⟨token⟩, ⟨json⟩, ⟨json'⟩⟩ := exists_libraries
  have hne : (RsKey.generate (1 : Nat)).kid ≠ (RsKey.generate (2 : Nat)).kid := by decide
  have hnew : NewKid (1 : Nat) (2 : Nat) (3 : Nat) := ⟨by decide, by decide⟩
  obtain ⟨s, hs⟩ := exists_rotated ["auth"] hne
  obtain ⟨stop, hstop⟩ := exists_stop hs.ready hnew (i := 0) (by decide) ⟨.ok "", .ok 1⟩ (.ok 1)
  exact ⟨rsa, hash, token, json, json', s, stop, (1 : Nat), (2 : Nat), (3 : Nat), hs, hnew, hstop,
    (rotation_survives_stop_iff hs hnew (by simp) hstop).mpr (.inl rfl)⟩

/-- Stopped after the first rename, the store cannot be opened again. -/
theorem rotation_stopped_midway :
    ∃ (_ : Rsa) (_ : Sha256) (_ : JsonWebToken) (_ : PrettyJson JwtDiskConfig)
      (_ : PrettyJson User) (s stop : AuthState) (a b k : Rsa.Private),
      Rotated s a b ∧ NewKid a b k ∧
      (rotateJwtKeys (.ok (.generate k)) [] ⟨.ok "", .ok 1⟩ (.ok 1) s).cuts[1]? = some stop ∧
      ¬ Recovers s.store.authDir a b stop.disk := by
  let rsa := unaryRsa
  let hash := plainHash
  obtain ⟨⟨token⟩, ⟨json⟩, ⟨json'⟩⟩ := exists_libraries
  have hne : (RsKey.generate (1 : Nat)).kid ≠ (RsKey.generate (2 : Nat)).kid := by decide
  have hnew : NewKid (1 : Nat) (2 : Nat) (3 : Nat) := ⟨by decide, by decide⟩
  obtain ⟨s, hs⟩ := exists_rotated ["auth"] hne
  obtain ⟨stop, hstop⟩ := exists_stop hs.ready hnew (i := 1) (by decide) ⟨.ok "", .ok 1⟩ (.ok 1)
  have hstuck := hs.ready.stuck_of_stop hnew (by decide) (by decide) hstop
  exact ⟨rsa, hash, token, json, json', s, stop, (1 : Nat), (2 : Nat), (3 : Nat), hs, hnew, hstop,
    hstuck.not_recovers hs.ready⟩

end AuthStore

end Auth

end GrumpyDB
