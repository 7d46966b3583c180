/-
The store of users and signing keys, in memory and in its directory.

Each step on the directory is a point where the process may stop (`step`). What a call takes from
the outside is among its arguments: the time, the hash of a password, new keys, and the order in
which a directory is listed.
-/
import GrumpyDB.Auth.Jwt
import GrumpyDB.Crdt

namespace GrumpyDB

namespace Auth

/-- JSON text over several lines, as the serializer writes and reads it. -/
class PrettyJson (ρ : Type) where
  toStringPretty : ρ → String
  fromStr : String → Except String ρ
  fromStr_toStringPretty : ∀ r, fromStr (toStringPretty r) = .ok r

theorem PrettyJson.nonempty (ρ : Type) [Countable ρ] : Nonempty (PrettyJson ρ) := by
  classical
  -- the `n`-th record is written as `n` times the letter x
  obtain ⟨number, hnumber⟩ := Countable.exists_injective_nat ρ
  let text (r : ρ) : String := String.ofList (List.replicate (number r) 'x')
  have hinj : ∀ r r', text r = text r' → r = r' := by
    intro r r' h
    have hlen := congrArg List.length (String.ofList_injective h)
    rw [List.length_replicate, List.length_replicate] at hlen
    exact hnumber hlen
  refine ⟨⟨text, fun s => if h : ∃ r, text r = s then .ok h.choose else .error "expected value",
    fun r => ?_⟩⟩
  have hex : ∃ r', text r' = text r := ⟨r, rfl⟩
  rw [dif_pos hex, hinj _ _ hex.choose_spec]

/-- What `jwt/config.json` holds. -/
structure JwtDiskConfig where
  algorithm : JwtAlgorithm
  currentKid : Option String
  nextKid : Option String
  accessTtlSecs : UInt64
  refreshTtlSecs : UInt64
  deriving DecidableEq

theorem countable_uInt64 : Countable UInt64 :=
  Function.Injective.countable fun _ _ h => UInt64.toNat_inj.mp h

theorem countable_roleAssignment : Countable RoleAssignment := by
  have := countable_string
  have hrole : Countable RoleName := Function.Injective.countable (f := RoleName.display)
    fun a b h => Option.some.inj <| by
      rw [← a.fromStrName_display, h, b.fromStrName_display]
  have hscope : Countable ResourceScope :=
    Function.Injective.countable fun _ _ h => ResourceScope.texts_inj h
  refine Function.Injective.countable (f := fun a : RoleAssignment => (a.role, a.scope)) ?_
  intro a b h
  cases a
  cases b
  simpa using h

theorem countable_user : Countable User := by
  have := countable_string
  have := countable_uInt64
  have := countable_roleAssignment
  exact Function.Injective.countable
    (f := fun u : User => (u.username, u.tenant, u.passwordHash, u.roles, u.createdAt))
    fun ⟨_, _, _, _, _⟩ ⟨_, _, _, _, _⟩ h => by simpa using h

theorem countable_claims : Countable Claims := by
  have := countable_string
  have := countable_uInt64
  have := countable_roleAssignment
  exact Function.Injective.countable
    (f := fun c : Claims => (c.sub, c.tenant, c.roles, c.iat, c.exp, c.tokenType))
    fun ⟨_, _, _, _, _, _⟩ ⟨_, _, _, _, _, _⟩ h => by simpa using h

theorem countable_jwtDiskConfig : Countable JwtDiskConfig := by
  have := countable_string
  have := countable_uInt64
  exact Function.Injective.countable
    (f := fun c : JwtDiskConfig => (decide (c.algorithm = .hs256), c.currentKid, c.nextKid,
      c.accessTtlSecs, c.refreshTtlSecs))
    fun ⟨a, _, _, _, _⟩ ⟨b, _, _, _, _⟩ h => by cases a <;> cases b <;> simp_all

@[reducible] def unaryRsa : Rsa where
  Private := Nat
  Public := Nat
  publicOf k := k
  toPkcs8Pem k := String.ofList (List.replicate k 'x')
  fromPkcs8Pem text := .ok text.toList.length
  toPublicKeyPem k := String.ofList (List.replicate k 'x')
  fromPublicKeyPem text := .ok text.toList.length
  toPublicKeyDer k := [UInt8.ofNat k]
  fromPkcs8Pem_toPkcs8Pem k := by simp
  fromPublicKeyPem_toPublicKeyPem k := by simp

@[reducible] def plainHash : Sha256 := ⟨id⟩

theorem JsonWebToken.nonempty [Rsa] : Nonempty JsonWebToken := by
  have := countable_string
  have := countable_claims
  obtain ⟨json⟩ := PrettyJson.nonempty (String × Claims)
  refine ⟨{
    encodeHs256 := fun claims _ => json.toStringPretty ("", claims)
    encodeRs256 := fun kid claims _ => json.toStringPretty (kid, claims)
    decodeHeader := fun token => (json.fromStr token).map fun r => some r.1
    decodeHs256 := fun token _ _ => (json.fromStr token).mapError .other |>.map Prod.snd
    decodeRs256 := fun token _ _ => (json.fromStr token).mapError .other |>.map Prod.snd
    decodeHeader_encodeRs256 := fun kid claims key => ?_
    decodeRs256_encodeRs256 := fun kid claims key now _ => ?_ }⟩
  · rw [json.fromStr_toStringPretty]
    rfl
  · rw [json.fromStr_toStringPretty]
    rfl

theorem exists_libraries [Rsa] : Nonempty JsonWebToken ∧ Nonempty (PrettyJson JwtDiskConfig) ∧
    Nonempty (PrettyJson User) := by
  have := countable_jwtDiskConfig
  have := countable_user
  exact ⟨JsonWebToken.nonempty, PrettyJson.nonempty _, PrettyJson.nonempty _⟩

abbrev Disk := Proc AuthError FileTree

def ofFs (e : FsError) : AuthError := .io e.display

/-- A step on the directory; the process may stop before it. -/
def step (f : FileTree → Except FsError FileTree) : Disk Unit := do
  Proc.cut
  match f (← Proc.get) with
  | .ok t => Proc.modify fun _ => t
  | .error e => Proc.fail (ofFs e)

def look {α : Type} (f : FileTree → Except AuthError α) : Disk α := do
  Proc.lift (f (← Proc.get))

/-! ### Where things are -/

def usersDir (dir : Place) : Place := dir ++ ["users"]

def jwtDir (dir : Place) : Place := dir ++ ["jwt"]

def keysDir (dir : Place) : Place := dir ++ ["jwt", "keys"]

def filePath (l : Place) (name : String) : FilePath := (FilePath.ofPlace l).join name

def sanitiseForFilename (s : String) : String :=
  String.ofList (s.toList.flatMap fun c => if c = '/' ∨ c = '\\' then ['_', '_'] else [c])

def userFileName (tenant username : String) : String :=
  tenant ++ "__" ++ sanitiseForFilename username ++ ".json"

def userFilePath (dir : Place) (tenant username : String) : FilePath :=
  filePath (usersDir dir) (userFileName tenant username)

/-! ### The signing keys -/

section Keys

variable [Rsa] [Sha256] [PrettyJson JwtDiskConfig]

def writeKeyPair (dir : Place) (key : RsKey) : Disk Unit := do
  step fun t => t.createDirAll (keysDir dir)
  step fun t => t.write (filePath (keysDir dir) (key.kid ++ ".pem")) (utf8 key.privatePem)
  step fun t => t.write (filePath (keysDir dir) (key.kid ++ ".pub.pem")) (utf8 key.publicPem)

def readRsKey (dir : Place) (kid : String) : Disk RsKey := do
  let read (path : FilePath) := look fun t => (t.readText path).mapError fun e =>
    .io ("read " ++ path.display ++ ": " ++ e.display)
  let privatePem ← read (filePath (keysDir dir) (kid ++ ".pem"))
  let publicPem ← read (filePath (keysDir dir) (kid ++ ".pub.pem"))
  Proc.lift (RsKey.fromPem privatePem publicPem)

def writeJwtConfig (dir : Place) (config : JwtDiskConfig) : Disk Unit := do
  step fun t => t.createDirAll (jwtDir dir)
  step fun t => t.write (filePath (jwtDir dir) "config.json.tmp")
    (utf8 (PrettyJson.toStringPretty config))
  step fun t => t.rename (filePath (jwtDir dir) "config.json.tmp")
    (filePath (jwtDir dir) "config.json")

def readHsSecret (dir : Place) : Disk (List UInt8) := do
  let bytes ← look fun t => (t.read (filePath dir "secret.key")).mapError ofFs
  if bytes.length ≠ 32 then
    Proc.fail (.io ("secret.key has invalid length: " ++ toString bytes.length ++
      " (expected 32)"))
  else pure bytes

def loadFromDiskConfig (dir : Place) (disk : JwtDiskConfig) : Disk JwtConfig :=
  match disk.algorithm with
  | .hs256 => do
    let secret ← readHsSecret dir
    return ⟨.hs256 secret, disk.accessTtlSecs, disk.refreshTtlSecs⟩
  | .rs256 => do
    let currentKid ← match disk.currentKid with
      | some kid => pure kid
      | none => Proc.fail (.io "RS256 config.json missing current_kid")
    let nextKid ← match disk.nextKid with
      | some kid => pure kid
      | none => Proc.fail (.io "RS256 config.json missing next_kid")
    let current ← readRsKey dir currentKid
    let next ← readRsKey dir nextKid
    return ⟨.rs256 ⟨current, next⟩, disk.accessTtlSecs, disk.refreshTtlSecs⟩

/-- What a new installation takes from the generator of random numbers. -/
structure NewKeys where
  secret : List UInt8
  secret_size : secret.length = 32
  ring : Except AuthError RsKeyRing

/-- The settings of a server for its tokens. -/
structure TokenSettings where
  accessTtlSecs : UInt64
  refreshTtlSecs : UInt64
  bootstrapAlgorithm : JwtAlgorithm

def createJwtConfig (dir : Place) (settings : TokenSettings) (keys : NewKeys) :
    Disk JwtConfig :=
  let disk (current next : Option String) : JwtDiskConfig :=
    ⟨settings.bootstrapAlgorithm, current, next, settings.accessTtlSecs, settings.refreshTtlSecs⟩
  match settings.bootstrapAlgorithm with
  | .hs256 => do
    step fun t => t.createDirAll (jwtDir dir)
    step fun t => t.write (filePath dir "secret.key") keys.secret
    writeJwtConfig dir (disk none none)
    return ⟨.hs256 keys.secret, settings.accessTtlSecs, settings.refreshTtlSecs⟩
  | .rs256 => do
    step fun t => t.createDirAll (keysDir dir)
    let ring ← Proc.lift keys.ring
    writeKeyPair dir ring.current
    writeKeyPair dir ring.next
    writeJwtConfig dir (disk (some ring.current.kid) (some ring.next.kid))
    return ⟨.rs256 ring, settings.accessTtlSecs, settings.refreshTtlSecs⟩

def loadOrCreateJwtConfig (dir : Place) (settings : TokenSettings) (keys : NewKeys) :
    Disk JwtConfig := do
  let t ← Proc.get
  if t.pathExists (filePath (jwtDir dir) "config.json") then
    let raw ← look fun t => (t.readText (filePath (jwtDir dir) "config.json")).mapError ofFs
    let disk ← Proc.lift ((PrettyJson.fromStr raw).mapError .io)
    loadFromDiskConfig dir disk
  else if t.pathExists (filePath dir "secret.key") then
    -- an installation of an earlier version
    let secret ← readHsSecret dir
    return ⟨.hs256 secret, settings.accessTtlSecs, settings.refreshTtlSecs⟩
  else createJwtConfig dir settings keys

end Keys

/-! ### The store -/

structure AuthStore [Rsa] where
  authDir : Place
  jwtConfig : JwtConfig
  users : List User

structure AuthState [Rsa] where
  store : AuthStore
  disk : FileTree

abbrev Store [Rsa] := Proc AuthError AuthState

/-- What a new user gets from the outside: the hash of the password and the time. -/
structure NewUser where
  hash : Except AuthError String
  now : Except AuthError UInt64

def SYSTEM_TENANT : String := "_system"

def CLUSTER_PEER_USERNAME : String := "_cluster/local-bootstrap"

def CLUSTER_PEER_TTL_SECS : UInt64 := 365 * 24 * 3600

def DEFAULT_ARCHIVE_GRACE_SECS : Nat := 7 * 24 * 3600

def User.Is (tenant username : String) (u : User) : Bool :=
  u.tenant = tenant && u.username = username

namespace AuthStore

variable [Rsa] [Sha256] [JsonWebToken] [PrettyJson JwtDiskConfig] [PrettyJson User]

def onDisk {α : Type} (x : Disk α) : Store α :=
  Proc.zoom AuthState.disk (fun t s => { s with disk := t }) x

def setUsers (users : List User) : Store Unit :=
  Proc.modify fun s => { s with store := { s.store with users } }

def saveUser (u : User) : Store Unit := do
  let s ← Proc.get
  onDisk (step fun t => t.write (userFilePath s.store.authDir u.tenant u.username)
    (utf8 (PrettyJson.toStringPretty u)))

def createUser (tenant username : String) (new : NewUser) (roles : List RoleAssignment) :
    Store Unit := do
  let s ← Proc.get
  if s.store.users.any (User.Is tenant username) then
    Proc.fail (.userAlreadyExists (tenant ++ "/" ++ username))
  else
    let passwordHash ← Proc.lift new.hash
    let createdAt ← Proc.lift new.now
    let user : User := ⟨username, tenant, passwordHash, roles, createdAt⟩
    saveUser user
    setUsers (s.store.users ++ [user])

def deleteUser (tenant username : String) : Store Unit := do
  let s ← Proc.get
  match s.store.users.findIdx? (User.Is tenant username) with
  | none => Proc.fail (.userNotFound (tenant ++ "/" ++ username))
  | some i =>
    setUsers (s.store.users.eraseIdx i)
    let path := userFilePath s.store.authDir tenant username
    if s.disk.pathExists path then onDisk (step fun t => t.remove path) else pure ()

def getUser (store : AuthStore) (tenant username : String) : Option User :=
  store.users.find? (User.Is tenant username)

def listUsers (store : AuthStore) (tenant : String) : List User :=
  store.users.filter fun u => u.tenant = tenant

/-- The roles are changed in memory before they are saved. -/
def updateRoles (tenant username : String) (roles : List RoleAssignment) : Store Unit := do
  let s ← Proc.get
  match s.store.users.findIdx? (User.Is tenant username) with
  | none => Proc.fail (.userNotFound (tenant ++ "/" ++ username))
  | some i =>
    let users := s.store.users.modify i fun u => { u with roles }
    setUsers users
    match users[i]? with
    | some snapshot => saveUser snapshot
    | none => pure ()

def hasAdmin (store : AuthStore) : Bool :=
  store.users.any fun u => u.roles.any fun r => r.role = .serverAdmin

def ensureClusterPeer (new : NewUser) : Store Unit := do
  let s ← Proc.get
  match s.store.getUser SYSTEM_TENANT CLUSTER_PEER_USERNAME with
  | none => createUser SYSTEM_TENANT CLUSTER_PEER_USERNAME new [⟨.clusterPeer, .server⟩]
  | some _ => pure ()

def issueClusterPeerToken (now : Except AuthError UInt64) : Store Unit := do
  let s ← Proc.get
  match s.store.getUser SYSTEM_TENANT CLUSTER_PEER_USERNAME with
  | none => pure ()
  | some user =>
    let token ← Proc.lift (generateToken user s.store.jwtConfig CLUSTER_PEER_TTL_SECS "access" now)
    onDisk (step fun t => t.createDirAll (jwtDir s.store.authDir))
    onDisk (step fun t =>
      t.write (filePath (jwtDir s.store.authDir) "cluster_peer.token") (utf8 token))

def bootstrapClusterPeer (new : NewUser) (now : Except AuthError UInt64) : Store Unit := do
  ensureClusterPeer new
  issueClusterPeerToken now

/-! ### Opening it -/

def hasJsonExtension (name : String) : Bool :=
  5 < name.toList.length && ".json".toList.isSuffixOf name.toList

/-- The users in the directory, in the order in which it is listed; a file that
does not hold a user is skipped. -/
def loadUsers (dir : Place) : List String → Disk (List User)
  | [] => pure []
  | name :: names => do
    if hasJsonExtension name then
      let data ← look fun t => (t.readText (filePath (usersDir dir) name)).mapError ofFs
      let users ← loadUsers dir names
      match PrettyJson.fromStr data with
      | .ok u => return u :: users
      | .error _ => return users
    else loadUsers dir names

/-- What opening a store takes from the outside. -/
structure Boot where
  keys : NewKeys
  entries : List String
  admin : NewUser
  peer : NewUser
  now : Except AuthError UInt64

/-- The first administrator, if there is none and it is allowed to make one. -/
def bootstrapAdmin (bootstrapPassword : Option String) (new : NewUser) : Store Unit := do
  let s ← Proc.get
  if s.store.hasAdmin then pure ()
  else
    match bootstrapPassword with
    | none => Proc.fail (.bootstrapRefused ("no users on disk; pass --bootstrap-password <pw> " ++
        "(or set GRUMPYDB_BOOTSTRAP_PASSWORD) on first start to create the initial " ++
        "_system/admin account"))
    | some _ => createUser SYSTEM_TENANT "admin" new [⟨.serverAdmin, .server⟩]

def withStore (store : AuthStore) (x : Store Unit) : Disk AuthStore := fun t =>
  let out := x ⟨store, t⟩
  ⟨out.res.map fun _ => out.st.store, out.st.disk, out.cuts.map AuthState.disk⟩

def openStore (authDir : Place) (settings : TokenSettings) (bootstrapPassword : Option String)
    (boot : Boot) : Disk AuthStore := do
  step fun t => t.createDirAll authDir
  step fun t => t.createDirAll (usersDir authDir)
  let jwtConfig ← loadOrCreateJwtConfig authDir settings boot.keys
  let users ← loadUsers authDir boot.entries
  withStore ⟨authDir, jwtConfig, users⟩ do
    bootstrapAdmin bootstrapPassword boot.admin
    bootstrapClusterPeer boot.peer boot.now

/-! ### Tokens -/

/-- The check of a password against its hash. -/
class Argon2 where
  verifyPassword : String → String → Except String Bool

def authenticate [Argon2] (store : AuthStore) (tenant username password : String)
    (accessNow refreshNow : Except AuthError UInt64) : Except AuthError (String × String) := do
  let user ← match store.getUser tenant username with
    | some user => .ok user
    | none => .error .invalidCredentials
  let valid ← (Argon2.verifyPassword password user.passwordHash).mapError .hashError
  if valid then
    let access ← generateAccessToken user store.jwtConfig accessNow
    let refresh ← generateRefreshToken user store.jwtConfig refreshNow
    return (access, refresh)
  else .error .invalidCredentials

def verify (store : AuthStore) (token : String) (now : UInt64) : Except AuthError Claims :=
  verifyToken token store.jwtConfig now

def refreshAccessToken (store : AuthStore) (refreshToken : String) (verifyNow : UInt64)
    (now : Except AuthError UInt64) : Except AuthError String := do
  let claims ← store.verify refreshToken verifyNow
  if claims.tokenType ≠ "refresh" then .error (.invalidToken "expected refresh token")
  else
    let user ← match store.getUser claims.tenant claims.sub with
      | some user => .ok user
      | none => .error .invalidCredentials
    generateAccessToken user store.jwtConfig now

/-! ### Rotation -/

structure RotationOutcome where
  previousCurrentKid : String
  promotedKid : String
  newNextKid : String

/-- Rename a file if it is there; a failure is ignored. -/
def archive (l : Place) (name : String) : Disk Unit := do
  let t ← Proc.get
  if t.pathExists (filePath l name) then
    Proc.orElse (step fun t => t.rename (filePath l name) (filePath l (name ++ ".archived")))
      fun _ => pure ()
  else pure ()

def gcArchivedKey (l : Place) (graceSecs : Nat) (name : String) (age : Option Nat) : Disk Unit :=
  if ".archived".toList.isSuffixOf name.toList && age.any fun secs => graceSecs < secs then
    Proc.orElse (step fun t => t.remove (filePath l name)) fun _ => pure ()
  else pure ()

def gcArchivedKeys (l : Place) (graceSecs : Nat) : List (String × Option Nat) → Disk Unit
  | [] => pure ()
  | (name, age) :: entries => do
    gcArchivedKey l graceSecs name age
    gcArchivedKeys l graceSecs entries

/-- Promote the next key to the current one and persist the change.  `fresh` is
the new next key. -/
def rotateJwtKeys (fresh : Except AuthError RsKey) (entries : List (String × Option Nat))
    (new : NewUser) (now : Except AuthError UInt64) : Store RotationOutcome := do
  let s ← Proc.get
  match s.store.jwtConfig.keys with
  | .hs256 _ => Proc.fail (.jwtError "rotate_jwt_keys requires RS256 algorithm")
  | .rs256 ring =>
    let fresh ← Proc.lift fresh
    let rotated := ring.rotate fresh
    let config : JwtConfig := { s.store.jwtConfig with keys := .rs256 rotated }
    Proc.modify fun s => { s with store := { s.store with jwtConfig := config } }
    let dir := s.store.authDir
    onDisk (archive (keysDir dir) (ring.current.kid ++ ".pem"))
    onDisk (archive (keysDir dir) (ring.current.kid ++ ".pub.pem"))
    onDisk (writeKeyPair dir rotated.next)
    onDisk (writeJwtConfig dir ⟨.rs256, some rotated.current.kid, some rotated.next.kid,
      config.accessTtl, config.refreshTtl⟩)
    onDisk (gcArchivedKeys (keysDir dir) DEFAULT_ARCHIVE_GRACE_SECS entries)
    bootstrapClusterPeer new now
    return ⟨ring.current.kid, rotated.current.kid, rotated.next.kid⟩

end AuthStore

end Auth

end GrumpyDB
