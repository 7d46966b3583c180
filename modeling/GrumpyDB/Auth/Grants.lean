/-
`GRANT` and `REVOKE`: which resource a role is for.

A resource is written `[collection:][database][@tenant]`. A scope names no tenant: it is one of
the tenant of the user who has it.
-/
import GrumpyDB.Auth.Store

namespace GrumpyDB

open List

namespace Auth

/-! ### The commands -/

def splitOnce (c : Char) (s : List Char) : Option (List Char × List Char) :=
  if c ∈ s then some (s.takeWhile (· ≠ c), (s.dropWhile (· ≠ c)).tail) else none

def splitLast (c : Char) (s : List Char) : Option (List Char × List Char) :=
  (splitOnce c s.reverse).map fun (after, before) => (before.reverse, after.reverse)

def splitTenantUser (input defaultTenant : String) : String × String :=
  match splitOnce '@' input.toList with
  | some (user, tenant) => (.ofList tenant, .ofList user)
  | none => (defaultTenant, input)

/-- The scope of a resource; the tenant is split off and dropped. -/
def parseResource (input sessionTenant : String) (currentDb : Option String) : ResourceScope :=
  let (beforeAt, _) := (splitLast '@' input.toList).getD (input.toList, sessionTenant.toList)
  if beforeAt = [] then .tenant
  else match splitOnce ':' beforeAt with
    | some (collection, database) => .collection (.ofList database) (.ofList collection)
    | none => match currentDb with
      | some db => .collection db (.ofList beforeAt)
      | none => .database (.ofList beforeAt)

/-- The user a command is about, with the tenant, and what is granted or revoked. -/
def roleChange (sessionTenant : String) (currentDb : Option String)
    (role resource username : String) : Except String (String × String × RoleAssignment) :=
  let (tenant, user) := splitTenantUser username sessionTenant
  match RoleName.fromStrName role with
  | none => .error ("unknown role: " ++ role)
  | some role => .ok (tenant, user, ⟨role, parseResource resource sessionTenant currentDb⟩)

namespace AuthStore

variable [Rsa] [Sha256] [JsonWebToken] [PrettyJson JwtDiskConfig] [PrettyJson User]

/-- The reply of the handler, with a flag for an error. -/
def changeRoles (change : RoleAssignment → List RoleAssignment → List RoleAssignment)
    (sessionTenant : String) (currentDb : Option String) (role resource username : String) :
    Store (Bool × String) :=
  match roleChange sessionTenant currentDb role resource username with
  | .error e => pure (true, e)
  | .ok (tenant, user, assignment) => do
    let s ← Proc.get
    match s.store.getUser tenant user with
    | none => pure (true, "user not found: " ++ username)
    | some u => Proc.orElse (do
        updateRoles tenant user (change assignment u.roles)
        pure (false, "OK")) fun e => pure (true, e.display)

def grant := changeRoles fun a roles => roles ++ [a]

def revoke := changeRoles fun a roles => roles.filter (· ≠ a)

end AuthStore

/-! ### The documented table -/

/-- A name in a resource. -/
structure ResourceName where
  chars : List Char
  ne_nil : chars ≠ []
  no_colon : ':' ∉ chars
  no_at : '@' ∉ chars

def ResourceName.text (n : ResourceName) : String := .ofList n.chars

inductive Resource where
  | tenant (tenant : ResourceName)
  | database (database : ResourceName) (tenant : Option ResourceName)
  | collection (collection database : ResourceName) (tenant : Option ResourceName)

namespace Resource

def tenant? : Resource → Option ResourceName
  | tenant t => some t
  | database _ t | collection _ _ t => t

def path : Resource → List Char
  | tenant _ => []
  | database d _ => d.chars
  | collection c d _ => c.chars ++ ':' :: d.chars

def text (r : Resource) : String :=
  .ofList (r.path ++ r.tenant?.elim [] fun t => '@' :: t.chars)

end Resource

/-! ### What the code takes a resource for -/

variable {c : Char} {a b s : List Char}

end Auth

end GrumpyDB
