/-
Tokens: the keys that sign them, the claims they carry, and their verification.

A server signs with one secret (HS256) or with the current key of a ring of two RSA keys (RS256),
and then names the key in the header of the token.
-/
import GrumpyDB.Auth.Role
import GrumpyDB.Lib.FileTree
import GrumpyDB.UuidText

namespace GrumpyDB

namespace Auth

inductive AuthError where
  | hashError (msg : String)
  | invalidCredentials
  | userNotFound (msg : String)
  | userAlreadyExists (msg : String)
  | jwtError (msg : String)
  | tokenExpired
  | invalidToken (msg : String)
  | accessDenied (msg : String)
  | notAuthenticated
  | io (msg : String)
  | clockError (msg : String)
  | bootstrapRefused (msg : String)
  deriving DecidableEq, Repr

def AuthError.display : AuthError → String
  | hashError msg => "password hashing error: " ++ msg
  | invalidCredentials => "invalid credentials"
  | userNotFound msg => "user not found: " ++ msg
  | userAlreadyExists msg => "user already exists: " ++ msg
  | jwtError msg => "JWT error: " ++ msg
  | tokenExpired => "token expired"
  | invalidToken msg => "invalid token: " ++ msg
  | accessDenied msg => "access denied: " ++ msg
  | notAuthenticated => "not authenticated"
  | io msg => "I/O error: " ++ msg
  | clockError msg => "system clock error: " ++ msg
  | bootstrapRefused msg => "server refuses to bootstrap: " ++ msg

/-! ### Keys -/

/-- RSA keys and the texts they are kept as. -/
class Rsa where
  Private : Type
  Public : Type
  publicOf : Private → Public
  toPkcs8Pem : Private → String
  fromPkcs8Pem : String → Except String Private
  toPublicKeyPem : Public → String
  fromPublicKeyPem : String → Except String Public
  toPublicKeyDer : Public → List UInt8
  fromPkcs8Pem_toPkcs8Pem : ∀ k, fromPkcs8Pem (toPkcs8Pem k) = .ok k
  fromPublicKeyPem_toPublicKeyPem : ∀ k, fromPublicKeyPem (toPublicKeyPem k) = .ok k

/-- The SHA-256 hash. -/
class Sha256 where
  digest : List UInt8 → List UInt8

@[ext] structure RsKey [Rsa] where
  privateKey : Rsa.Private
  publicKey : Rsa.Public

namespace RsKey

open Uuid (hexPair hexDigit)

variable [Rsa]

def generate (k : Rsa.Private) : RsKey := ⟨k, Rsa.publicOf k⟩

def privatePem (key : RsKey) : String := Rsa.toPkcs8Pem key.privateKey

def publicPem (key : RsKey) : String := Rsa.toPublicKeyPem key.publicKey

def kid [Sha256] (key : RsKey) : String :=
  let bytes := ((Sha256.digest (Rsa.toPublicKeyDer key.publicKey)).take 8).flatMap hexPair
  String.ofList (bytes.map fun b => Char.ofNat b.toNat)

def fromPem (privatePem publicPem : String) : Except AuthError RsKey := do
  let privateKey ← (Rsa.fromPkcs8Pem privatePem).mapError fun e =>
    .jwtError ("private PKCS#8 PEM decode: " ++ e)
  let publicKey ← (Rsa.fromPublicKeyPem publicPem).mapError fun e =>
    .jwtError ("public SPKI PEM decode: " ++ e)
  return ⟨privateKey, publicKey⟩

theorem fromPem_pem (key : RsKey) : fromPem key.privatePem key.publicPem = .ok key := by
  simp [fromPem, privatePem, publicPem, Rsa.fromPkcs8Pem_toPkcs8Pem,
    Rsa.fromPublicKeyPem_toPublicKeyPem, Except.mapError, bind, Except.bind, pure, Except.pure]

theorem not_mem_kid [Sha256] (key : RsKey) {c : Char}
    (hc : ∀ d < 16, Char.ofNat (hexDigit d).toNat ≠ c) : c ∉ key.kid.toList := by
  rw [kid, String.toList_ofList, List.mem_map]
  rintro ⟨b, hb, hdigit⟩
  obtain ⟨byte, -, hpair⟩ := List.mem_flatMap.mp hb
  have hbyte := byte.toNat_lt
  rcases List.mem_pair.mp hpair with rfl | rfl
  · exact hc _ (by omega) hdigit
  · exact hc _ (by omega) hdigit

theorem slash_not_mem_kid [Sha256] (key : RsKey) : '/' ∉ key.kid.toList :=
  key.not_mem_kid (by decide)

theorem dot_not_mem_kid [Sha256] (key : RsKey) : '.' ∉ key.kid.toList :=
  key.not_mem_kid (by decide)

end RsKey

structure RsKeyRing [Rsa] where
  current : RsKey
  next : RsKey

def RsKeyRing.find [Rsa] [Sha256] (ring : RsKeyRing) (kid : String) : Option RsKey :=
  if ring.current.kid = kid then some ring.current
  else if ring.next.kid = kid then some ring.next
  else none

/-- Promote the next key; `fresh` is the new next key. -/
def RsKeyRing.rotate [Rsa] (ring : RsKeyRing) (fresh : RsKey) : RsKeyRing := ⟨ring.next, fresh⟩

inductive JwtAlgorithm where
  | hs256
  | rs256
  deriving DecidableEq, Repr

/-- What tokens are signed with: the algorithm and the keys it needs. -/
inductive JwtKeys [Rsa] where
  | hs256 (secret : List UInt8)
  | rs256 (ring : RsKeyRing)

def JwtKeys.algorithm [Rsa] : JwtKeys → JwtAlgorithm
  | hs256 _ => .hs256
  | rs256 _ => .rs256

structure JwtConfig [Rsa] where
  keys : JwtKeys
  accessTtl : UInt64
  refreshTtl : UInt64

/-! ### Tokens -/

structure User where
  username : String
  tenant : String
  passwordHash : String
  roles : List RoleAssignment
  createdAt : UInt64
  deriving DecidableEq, Repr

structure Claims where
  sub : String
  tenant : String
  roles : List RoleAssignment
  iat : UInt64
  exp : UInt64
  tokenType : String
  deriving DecidableEq, Repr

/-- Why a token is not accepted. -/
inductive TokenFailure where
  | expiredSignature
  | other (msg : String)

/-- Signing a token, which does not fail, and reading it back.  A token is read
with the key that verifies what the signing key signs, at a time of the clock. -/
class JsonWebToken [Rsa] where
  encodeHs256 : Claims → List UInt8 → String
  encodeRs256 : (kid : String) → Claims → Rsa.Private → String
  decodeHeader : String → Except String (Option String)
  decodeHs256 : String → List UInt8 → UInt64 → Except TokenFailure Claims
  decodeRs256 : String → Rsa.Public → UInt64 → Except TokenFailure Claims
  decodeHeader_encodeRs256 : ∀ kid claims key,
    decodeHeader (encodeRs256 kid claims key) = .ok (some kid)
  decodeRs256_encodeRs256 : ∀ kid claims key now, now ≤ claims.exp →
    decodeRs256 (encodeRs256 kid claims key) (Rsa.publicOf key) now = .ok claims

variable [Rsa] [Sha256] [JsonWebToken]

def generateToken (user : User) (config : JwtConfig) (ttl : UInt64) (tokenType : String)
    (now : Except AuthError UInt64) : Except AuthError String := do
  let now ← now
  let claims : Claims := ⟨user.username, user.tenant, user.roles, now, now + ttl, tokenType⟩
  match config.keys with
  | .hs256 secret => return JsonWebToken.encodeHs256 claims secret
  | .rs256 ring =>
    return JsonWebToken.encodeRs256 ring.current.kid claims ring.current.privateKey

theorem exists_generateToken (user : User) (config : JwtConfig) (ttl : UInt64)
    (tokenType : String) (now : UInt64) :
    ∃ token, generateToken user config ttl tokenType (.ok now) = .ok token := by
  rcases config with ⟨secret | ring, _, _⟩
  · exact ⟨_, rfl⟩
  · exact ⟨_, rfl⟩

def generateAccessToken (user : User) (config : JwtConfig) (now : Except AuthError UInt64) :
    Except AuthError String :=
  generateToken user config config.accessTtl "access" now

def generateRefreshToken (user : User) (config : JwtConfig) (now : Except AuthError UInt64) :
    Except AuthError String :=
  generateToken user config config.refreshTtl "refresh" now

def TokenFailure.toAuthError : TokenFailure → AuthError
  | expiredSignature => .tokenExpired
  | other msg => .invalidToken msg

/-- The claims of a token that one of the keys has signed and that is not over at `now`. -/
def verifyToken (token : String) (config : JwtConfig) (now : UInt64) : Except AuthError Claims :=
  match config.keys with
  | .hs256 secret => (JsonWebToken.decodeHs256 token secret now).mapError TokenFailure.toAuthError
  | .rs256 ring => do
    let header ← (JsonWebToken.decodeHeader token).mapError fun e =>
      .invalidToken ("bad header: " ++ e)
    let kid ← match header with
      | some kid => .ok kid
      | none => .error (.invalidToken "missing kid in header")
    let key ← match ring.find kid with
      | some key => .ok key
      | none => .error (.invalidToken ("kid not found in keyring: " ++ kid))
    (JsonWebToken.decodeRs256 token key.publicKey now).mapError TokenFailure.toAuthError

end Auth

end GrumpyDB
