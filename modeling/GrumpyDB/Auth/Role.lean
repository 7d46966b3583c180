/-
Roles, the actions they permit, and the scopes they are assigned in.
-/
import Mathlib.Tactic.Basic

namespace GrumpyDB

namespace Auth

inductive RoleName where
  | serverAdmin
  | tenantAdmin
  | dbAdmin
  | readWrite
  | readOnly
  | clusterPeer
  deriving DecidableEq, Repr

inductive Action where
  | read
  | write
  | admin
  | manageUsers
  | manageDatabases
  | manageServer
  | replicationPeer
  deriving DecidableEq, Repr

namespace RoleName

def display : RoleName → String
  | serverAdmin => "server_admin"
  | tenantAdmin => "tenant_admin"
  | dbAdmin => "db_admin"
  | readWrite => "read_write"
  | readOnly => "read_only"
  | clusterPeer => "cluster_peer"

def fromStrName (s : String) : Option RoleName :=
  if s = "server_admin" then some serverAdmin
  else if s = "tenant_admin" then some tenantAdmin
  else if s = "db_admin" then some dbAdmin
  else if s = "read_write" then some readWrite
  else if s = "read_only" then some readOnly
  else if s = "cluster_peer" then some clusterPeer
  else none

def permitsAction (r : RoleName) (action : Action) : Bool :=
  match r with
  | serverAdmin => action ≠ .replicationPeer
  | tenantAdmin => action ≠ .manageServer && action ≠ .replicationPeer
  | dbAdmin => action = .read || action = .write || action = .admin
  | readWrite => action = .read || action = .write
  | readOnly => action = .read
  | clusterPeer => action = .replicationPeer

theorem fromStrName_display (r : RoleName) : fromStrName r.display = some r := by
  cases r <;> decide

end RoleName

/-- What a role is assigned for, and what an action is about. -/
inductive ResourceScope where
  | server
  | tenant
  | allDatabases
  | database (name : String)
  | allCollections (database : String)
  | collection (database collection : String)
  deriving DecidableEq, Repr

namespace ResourceScope

def covers : ResourceScope → ResourceScope → Bool
  | server, _ => true
  | tenant, target => target ≠ server
  | allDatabases, target =>
    match target with
    | allDatabases | database _ | allCollections _ | collection _ _ => true
    | _ => false
  | database name, target =>
    match target with
    | database t => name = t
    | allCollections d => name = d
    | collection d _ => name = d
    | _ => false
  | allCollections d, target =>
    match target with
    | allCollections t => d = t
    | collection td _ => d = td
    | _ => false
  | collection d c, target =>
    match target with
    | collection td tc => d = td && c = tc
    | _ => false

end ResourceScope

def ResourceScope.texts : ResourceScope → Nat × String × String
  | .server => (0, "", "")
  | .tenant => (1, "", "")
  | .allDatabases => (2, "", "")
  | .database name => (3, name, "")
  | .allCollections d => (4, d, "")
  | .collection d c => (5, d, c)

theorem ResourceScope.texts_inj {a b : ResourceScope} (h : a.texts = b.texts) : a = b := by
  cases a <;> cases b <;> simp_all [texts]

structure RoleAssignment where
  role : RoleName
  scope : ResourceScope
  deriving DecidableEq, Repr

def RoleAssignment.permits (a : RoleAssignment) (action : Action) (target : ResourceScope) : Bool :=
  a.role.permitsAction action && a.scope.covers target

end Auth

end GrumpyDB
