/-
The databases that a server has open.

The server opens databases itself, and they stay open in the maps of its clients. The handles
that sessions work with do not come from there: `SharedServer::database` opens the directory
once more and keeps that handle in a cache of its own. Calls of several tasks interleave between
the locks, so a call is cut into one step for each section under a lock, and one for each access
to the files in between (`Stage`).
-/
import GrumpyDB.Cluster.Server
import GrumpyDB.Lib.FileTree
import GrumpyDB.Lib.Refine
import GrumpyDB.Lib.Table

namespace GrumpyDB

namespace Tenancy

open FileTree

/-- An open database: which one of those opened so far it is, and its directory. -/
structure Database where
  id : Nat
  path : Place
  deriving DecidableEq

inductive TenancyError where
  | io
  | store (e : StoreError)

/-- The directories and files, and the number of databases opened so far. -/
structure Storage where
  tree : FileTree
  opened : Nat

/-- What the files do in a step: the names that a directory lists, and for a step
that fails the tree that it leaves. -/
structure Files where
  listing : Place → List String
  failed : Option FileTree

/-! ### Clients -/

structure Client where
  path : FilePath
  databases : Table String Database

/-- `Database::open`, as far as the tree tells: the directory and its log. -/
def Storage.openDatabase (k : Storage) (p : FilePath) : Database × Storage :=
  let tree := k.tree.addDirs p.place
  let log := p.place ++ ["wal.log"]
  (⟨k.opened, p.place⟩, ⟨tree.setFile log (some ((tree.files log).getD [])), k.opened + 1⟩)

def hasCollectionSubdirs (f : Files) (t : FileTree) (l : Place) : Bool :=
  (f.listing l).any fun name =>
    t.dirs (l ++ [name]) && (t.files (l ++ [name, "data.db"])).isSome

/-- A name in a tenant's directory: a database that is opened, or something else. -/
def discoverDatabase (f : Files) (l : Place) (found : Table String Database × Storage)
    (name : String) : Table String Database × Storage :=
  let (databases, k) := found
  let dir := l ++ [name]
  if k.tree.dirs dir = true ∧ name.toList.head? ≠ some '.' ∧
      ((k.tree.files (dir ++ ["wal.log"])).isSome || hasCollectionSubdirs f k.tree dir) then
    let (db, k) := k.openDatabase (.ofPlace dir)
    (databases.insert name db, k)
  else found

def Client.open (f : Files) (p : FilePath) (k : Storage) : Client × Storage :=
  let k : Storage := { k with tree := k.tree.addDirs p.place }
  let (databases, k) := (f.listing p.place).foldl (discoverDatabase f p.place) (Table.empty, k)
  (⟨p, databases⟩, k)

/-! ### The server -/

/-- The root directory, the clients, and the cache of handles. -/
structure SharedServer where
  path : Place
  clients : Table String Client
  databases : Table String Database
  storage : Storage

/-- A name in the root directory: a tenant whose client is opened, or something else. -/
def discoverClient (f : Files) (path : Place) (found : Table String Client × Storage)
    (name : String) : Table String Client × Storage :=
  let (clients, k) := found
  let dir := path ++ [name]
  if k.tree.dirs dir = true ∧ name.toList.head? ≠ some '.' then
    let (client, k) := Client.open f (.ofPlace dir) k
    (clients.insert name client, k)
  else found

/-- `SharedServer::open`: every tenant that is found is opened. -/
def SharedServer.open (f : Files) (path : Place) (tree : FileTree) : SharedServer :=
  let k : Storage := ⟨tree.addDirs path, 0⟩
  let (clients, k) := (f.listing path).foldl (discoverClient f path) (Table.empty, k)
  ⟨path, clients, Table.empty, k⟩

structure DbName where
  client : String
  name : String
  deriving DecidableEq

def DbName.key (n : DbName) : String := n.client ++ "/" ++ n.name

namespace SharedServer

def withTree (s : SharedServer) (t : FileTree) : SharedServer :=
  { s with storage := { s.storage with tree := t } }

def client (f : Files) (name : String) (s : SharedServer) :
    Except TenancyError Client × SharedServer :=
  match s.clients.get? name with
  | some c => (.ok c, s)
  | none =>
    let path := (FilePath.ofPlace s.path).join name
    if s.storage.tree.pathExists path then
      match f.failed with
      | some t => (.error .io, s.withTree t)
      | none =>
        let (c, k) := Client.open f path s.storage
        (.ok c, { s with clients := s.clients.insert name c, storage := k })
    else (.error (.store (.clientNotFound name)), s)

def createIn (g : Files) (n : DbName) (c : Client) (s : SharedServer) :
    Except TenancyError Unit × SharedServer :=
  match validateName n.name with
  | .error e => (.error (.store e), s)
  | .ok _ =>
    if (c.databases.get? n.name).isSome then
      (.error (.store (.databaseNotFound ("database '" ++ n.name ++ "' already exists"))), s)
    else
      match g.failed with
      | some t => (.error .io, s.withTree t)
      | none =>
        let (db, k) := s.storage.openDatabase (c.path.join n.name)
        let c := { c with databases := c.databases.insert n.name db }
        (.ok (), { s with clients := s.clients.insert n.client c, storage := k })

def dropIn (g : Files) (n : DbName) (c : Client) (s : SharedServer) :
    Except TenancyError Unit × SharedServer :=
  match c.databases.get? n.name with
  | none => (.error (.store (.databaseNotFound n.name)), s)
  | some db =>
    let c := { c with databases := c.databases.erase n.name }
    let s := { s with clients := s.clients.insert n.client c }
    match g.failed with
    | some t => (.error .io, s.withTree t)
    | none =>
      match s.storage.tree.removeDirAll db.path with
      | .ok t => (.ok (), s.withTree t)
      | .error _ => (.error .io, s)

def withClient (f : Files) (n : DbName)
    (next : Client → SharedServer → Except TenancyError Unit × SharedServer) (s : SharedServer) :
    Except TenancyError Unit × SharedServer :=
  match s.client f n.client with
  | (.error e, s) => (.error e, s)
  | (.ok c, s) => next c s

def createDatabase (f g : Files) (n : DbName) (s : SharedServer) :
    Except TenancyError Unit × SharedServer :=
  s.withClient f n (createIn g n)

/-- The section of `drop_database` under the lock of the server. -/
def dropDatabase (f g : Files) (n : DbName) (s : SharedServer) :
    Except TenancyError Unit × SharedServer :=
  s.withClient f n (dropIn g n)

def databasePath (s : SharedServer) (n : DbName) : FilePath :=
  ((FilePath.ofPlace s.path).join n.client).join n.name

end SharedServer

/-! ### Calls that interleave -/

inductive CallKind where
  | database
  | createDatabase
  | dropDatabase
  deriving DecidableEq

inductive Stage where
  /-- `database`: about to look into the cache. -/
  | lookUp
  /-- `database`: about to ask whether the directory exists. -/
  | check
  /-- `database`: about to open it. -/
  | openIt
  /-- `database`: about to put the handle into the cache. -/
  | insert (db : Database)
  | create
  /-- `drop_database`: about to take the handle out of the cache. -/
  | uncache
  /-- `drop_database`: about to drop the database of the client. -/
  | drop
  | returned
  deriving DecidableEq

def CallKind.first : CallKind → Stage
  | database => .lookUp
  | createDatabase => .create
  | dropDatabase => .uncache

/-- A call under way, or one that has returned. -/
structure Call where
  name : DbName
  stage : Stage
  deriving DecidableEq

/-- The server, all calls so far, and the handles that `database` has returned for a
name since the last `drop_database` that went through. -/
structure World where
  server : SharedServer
  calls : List Call
  handles : List (DbName × Database)

inductive Event where
  | start (kind : CallKind) (n : DbName)
  /-- Call `i` goes on; the files act as given, for the opening of a client and for
  the rest of the step. -/
  | advance (i : Nat) (f g : Files)

namespace World

def advance (f g : Files) (i : Nat) (call : Call) (w : World) : World :=
  let n := call.name
  let next (stage : Stage) := w.calls.set i ⟨n, stage⟩
  let s := w.server
  match call.stage with
  | .lookUp =>
    match s.databases.get? n.key with
    | some db => ⟨s, next .returned, (n, db) :: w.handles⟩
    | none => ⟨s, next .check, w.handles⟩
  | .check =>
    if s.storage.tree.pathExists (s.databasePath n) then ⟨s, next .openIt, w.handles⟩
    else ⟨s, next .returned, w.handles⟩
  | .openIt =>
    match g.failed with
    | some t => ⟨s.withTree t, next .returned, w.handles⟩
    | none =>
      let (db, k) := s.storage.openDatabase (s.databasePath n)
      ⟨{ s with storage := k }, next (.insert db), w.handles⟩
  | .insert db =>
    ⟨{ s with databases := s.databases.insert n.key db }, next .returned, (n, db) :: w.handles⟩
  | .create => ⟨(s.createDatabase f g n).2, next .returned, w.handles⟩
  | .uncache => ⟨{ s with databases := s.databases.erase n.key }, next .drop, w.handles⟩
  | .drop =>
    match s.dropDatabase f g n with
    | (.ok _, s) => ⟨s, next .returned, w.handles.filter fun h => h.1 ≠ n⟩
    | (.error _, s) => ⟨s, next .returned, w.handles⟩
  | .returned => w

def step (w : World) : Event → World
  | .start kind n => { w with calls := w.calls ++ [⟨n, kind.first⟩] }
  | .advance i f g =>
    match w.calls[i]? with
    | none => w
    | some call => w.advance f g i call

def run (events : List Event) (w : World) : World := events.foldl step w

def fresh (f : Files) (path : Place) (tree : FileTree) : World :=
  ⟨SharedServer.open f path tree, [], []⟩

/-! ### What is asked of handles and directories -/

/-- The handles of one name are one database. -/
def HandlesAgree (w : World) : Prop :=
  ∀ h ∈ w.handles, ∀ h' ∈ w.handles, h.1 = h'.1 → h.2 = h'.2

instance decidableHandlesAgree (w : World) : Decidable w.HandlesAgree :=
  inferInstanceAs (Decidable (∀ h ∈ w.handles, ∀ h' ∈ w.handles, h.1 = h'.1 → h.2 = h'.2))

/-- The databases that are open: those of the clients, those in the cache, those on
their way there, and the handles. -/
def openDatabases (w : World) : List Database :=
  (w.server.clients.entries.flatMap fun e => e.2.databases.entries.map Prod.snd) ++
    w.server.databases.entries.map Prod.snd ++
    (w.calls.filterMap fun call => match call.stage with
      | .insert db => some db
      | _ => none) ++
    w.handles.map Prod.snd

/-- No directory is open as two databases. -/
def NoneTwice (w : World) : Prop :=
  ∀ db ∈ w.openDatabases, ∀ db' ∈ w.openDatabases, db.path = db'.path → db = db'

instance decidableNoneTwice (w : World) : Decidable w.NoneTwice :=
  inferInstanceAs (Decidable
    (∀ db ∈ w.openDatabases, ∀ db' ∈ w.openDatabases, db.path = db'.path → db = db'))

end World

def SharedServer.Holds (s : SharedServer) (n : DbName) (db : Database) : Prop :=
  ∃ c, s.clients.get? n.client = some c ∧ c.databases.get? n.name = some db

namespace World

/-- Calls for one name do not overlap, names are those of a directory each, and a
`drop_database` goes through: the database is that of a client, its directory is
there, and the files do not fail. -/
def Serial (w : World) : Event → Prop
  | .start _ n => IsPlain n.client ∧ IsPlain n.name ∧
      ∀ call ∈ w.calls, call.stage ≠ .returned → call.name ≠ n
  | .advance i _ g => ∀ call, w.calls[i]? = some call → call.stage = .drop →
      (∃ db, w.server.Holds call.name db ∧ w.server.storage.tree.dirs db.path = true) ∧
        g.failed = none

/-- A name is used for handles or for a database of the client's, not for both at
once, and tenants are known before databases of them are created or dropped. -/
def Separate (w : World) : Event → Prop
  | .start .database n => ∀ db, ¬ w.server.Holds n db
  | .start _ n => (w.server.clients.get? n.client).isSome ∧ ∀ h ∈ w.handles, h.1 ≠ n
  | .advance .. => True

end World

end Tenancy

end GrumpyDB
