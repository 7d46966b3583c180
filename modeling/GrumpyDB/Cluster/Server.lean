/-
What a node stores, as its server sees it.

A deleted document leaves a tombstone that occupies the key: it cannot be read or deleted, but
it can be updated, and it is in the way of an insert.
-/
import GrumpyDB.Lib.Except
import GrumpyDB.UuidText
import GrumpyDB.Value
import Mathlib.Data.List.Infix
import Mathlib.Data.String.Basic

namespace GrumpyDB

inductive StoreError where
  | duplicateKey (key : Uuid)
  | keyNotFound (key : Uuid)
  | collectionNotFound (msg : String)
  | clientNotFound (msg : String)
  | databaseNotFound (msg : String)
  | invalidName (msg : String)

def StoreError.display : StoreError → String
  | duplicateKey key => "key " ++ key.toText ++ " already exists"
  | keyNotFound key => "key " ++ key.toText ++ " not found"
  | collectionNotFound msg => "collection not found: " ++ msg
  | clientNotFound msg => "client not found: " ++ msg
  | databaseNotFound msg => "database not found: " ++ msg
  | invalidName msg => "invalid name: " ++ msg

def isAlreadyExistsError (e : StoreError) : Bool :=
  decide (utf8 "already exists" <:+: utf8 e.display)

def validateName (name : String) : Except StoreError Unit :=
  if name = "" then .error (.invalidName "name cannot be empty")
  else if 64 < (utf8 name).length then
    .error (.invalidName ("name too long: " ++ toString (utf8 name).length ++ " chars (max 64)"))
  else if name.toList.head? = some '_' ∧ name ≠ "_default" ∧ name ≠ "_system" then
    .error (.invalidName "names starting with '_' are reserved")
  else
    match name.toList.find? fun ch => !(ch.isLower || ch.isDigit || ch = '_') with
    | some ch => .error (.invalidName
        ("invalid character '" ++ String.ofList [ch] ++ "': only [a-z0-9_] allowed"))
    | none => .ok ()

/-! ### Documents -/

inductive Doc where
  | live (v : Value)
  | tombstone

abbrev Docs := Uuid → Option Doc

namespace Docs

def get (docs : Docs) (key : Uuid) : Option Value :=
  match docs key with
  | some (.live v) => some v
  | _ => none

def insert (key : Uuid) (v : Value) (docs : Docs) : Except StoreError Docs :=
  match docs key with
  | none => .ok (Function.update docs key (some (.live v)))
  | some _ => .error (.duplicateKey key)

def update (key : Uuid) (v : Value) (docs : Docs) : Except StoreError Docs :=
  match docs key with
  | none => .error (.keyNotFound key)
  | some _ => .ok (Function.update docs key (some (.live v)))

def delete (key : Uuid) (docs : Docs) : Except StoreError Docs :=
  match docs key with
  | some (.live _) => .ok (Function.update docs key (some .tombstone))
  | _ => .error (.keyNotFound key)

def upsert (key : Uuid) (v : Value) (docs : Docs) : Except StoreError Docs :=
  match insert key v docs with
  | .error (.duplicateKey _) => update key v docs
  | r => r

theorem upsert_eq (key : Uuid) (v : Value) (docs : Docs) :
    upsert key v docs = .ok (Function.update docs key (some (.live v))) := by
  rcases h : docs key with _ | d <;> simp [upsert, insert, update, h]

variable {key : Uuid} {v : Value} {docs : Docs}

theorem delete_of_live (h : docs key = some (.live v)) :
    delete key docs = .ok (Function.update docs key (some .tombstone)) := by
  rw [delete, h]

variable {docs' : Docs}

theorem get_of_insert (h : insert key v docs = .ok docs') : docs'.get key = some v := by
  unfold insert at h
  split at h
  · cases h
    simp [get]
  · cases h

theorem get_of_update (h : update key v docs = .ok docs') : docs'.get key = some v := by
  unfold update at h
  split at h
  · cases h
  · cases h
    simp [get]

theorem get_of_delete (h : delete key docs = .ok docs') : docs'.get key = none := by
  unfold delete at h
  split at h
  · cases h
    simp [get]
  · cases h

theorem get_of_upsert (h : upsert key v docs = .ok docs') : docs'.get key = some v := by
  rw [upsert_eq] at h
  cases h
  simp [get]

/-- An operation changes nothing but what is stored under one key. -/
def Only (key : Uuid) (f : Docs → Except StoreError Docs) : Prop :=
  ∀ docs docs', f docs = .ok docs' → ∃ d, docs' = Function.update docs key d

theorem only_insert (key : Uuid) (v : Value) : Only key (insert key v) := by
  intro docs docs' h
  unfold insert at h
  split at h <;> cases h
  exact ⟨_, rfl⟩

theorem only_update (key : Uuid) (v : Value) : Only key (update key v) := by
  intro docs docs' h
  unfold update at h
  split at h <;> cases h
  exact ⟨_, rfl⟩

theorem only_delete (key : Uuid) : Only key (delete key) := by
  intro docs docs' h
  unfold delete at h
  split at h <;> cases h
  exact ⟨_, rfl⟩

theorem only_upsert (key : Uuid) (v : Value) : Only key (upsert key v) := by
  intro docs docs' h
  rw [upsert_eq] at h
  cases h
  exact ⟨_, rfl⟩

end Docs

/-! ### Databases -/

/-- A database: its collections and its default concerns. -/
structure Db where
  collections : String → Option Docs
  defaults : Option UInt16 × Option UInt16

structure DocPath where
  tenant : String
  database : String
  collection : String
  id : Uuid

structure Server where
  clients : String → Bool
  databases : String → String → Option Db

namespace Server

def database (s : Server) (tenant name : String) : Except StoreError Db :=
  match s.databases tenant name with
  | some db => .ok db
  | none => .error (.databaseNotFound name)

def setDatabase (s : Server) (tenant name : String) (db : Db) : Server :=
  let databases := Function.update (s.databases tenant) name (some db)
  { s with databases := Function.update s.databases tenant databases }

variable {name : String}

theorem databases_setDatabase_of_ne {s : Server} {tenant t d : String} (db : Db)
    (h : ¬ (t = tenant ∧ d = name)) :
    (s.setDatabase tenant name db).databases t d = s.databases t d := by
  by_cases ht : t = tenant
  · subst ht
    have hd : d ≠ name := fun hd => h ⟨rfl, hd⟩
    simp [setDatabase, hd]
  · simp [setDatabase, ht]

def createClient (s : Server) (name : String) : Except StoreError Server := do
  validateName name
  if s.clients name then throw (.clientNotFound ("client '" ++ name ++ "' already exists"))
  return { s with clients := Function.update s.clients name true }

def createDatabase (s : Server) (tenant name : String) : Except StoreError Server := do
  if !s.clients tenant then throw (.clientNotFound tenant)
  validateName name
  if (s.databases tenant name).isSome then
    throw (.databaseNotFound ("database '" ++ name ++ "' already exists"))
  return s.setDatabase tenant name ⟨fun _ => none, none, none⟩

def createCollection (s : Server) (tenant database name : String) : Except StoreError Server := do
  let db ← s.database tenant database
  validateName name
  if (db.collections name).isSome then
    throw (.collectionNotFound ("collection '" ++ name ++ "' already exists"))
  return s.setDatabase tenant database
    { db with collections := Function.update db.collections name (some fun _ => none) }

def modify (s : Server) (tenant database collection : String)
    (f : Docs → Except StoreError Docs) : Except StoreError Server := do
  let db ← s.database tenant database
  match db.collections collection with
  | none => throw (.collectionNotFound collection)
  | some docs =>
    let docs' ← f docs
    return s.setDatabase tenant database
      { db with collections := Function.update db.collections collection (some docs') }

def get (s : Server) (tenant database collection : String) (key : Uuid) :
    Except StoreError (Option Value) := do
  let db ← s.database tenant database
  match db.collections collection with
  | none => throw (.collectionNotFound collection)
  | some docs => return docs.get key

/-! ### What is stored where -/

def docs (s : Server) (tenant database collection : String) : Option Docs :=
  (s.databases tenant database).bind fun db => db.collections collection

def value (s : Server) (tenant database collection : String) (key : Uuid) : Option Value :=
  (s.docs tenant database collection).bind fun docs => docs.get key

def valueAt (s : Server) (doc : DocPath) : Option Value :=
  s.value doc.tenant doc.database doc.collection doc.id

variable {s s' : Server} {tenant database collection : String}

variable {key : Uuid}

variable {v : Option Value}

theorem get_eq_ok (h : s.get tenant database collection key = .ok v) :
    s.value tenant database collection key = v := by
  unfold get Server.database at h
  unfold value docs
  rcases hdb : s.databases tenant database with _ | db
  · simp [hdb, bind, Except.bind] at h
  · rcases hcoll : db.collections collection with _ | docs
    · simp [hdb, hcoll, bind, Except.bind] at h
    · simpa [hdb, hcoll, bind, Except.bind, pure, Except.pure] using h

theorem get_of_value {v : Value} (h : s.value tenant database collection key = some v) :
    s.get tenant database collection key = .ok (some v) ∧
      ∃ db, s.database tenant database = .ok db := by
  unfold value docs at h
  unfold get Server.database
  rcases hdb : s.databases tenant database with _ | db
  · simp [hdb] at h
  · rcases hcoll : db.collections collection with _ | docs
    · simp [hdb, hcoll] at h
    · have hget : docs.get key = some v := by simpa [hdb, hcoll] using h
      simp [hcoll, hget, bind, Except.bind, pure, Except.pure]

variable {f : Docs → Except StoreError Docs}

theorem modify_eq_ok (h : s.modify tenant database collection f = .ok s') :
    ∃ docs docs', s.docs tenant database collection = some docs ∧ f docs = .ok docs' ∧
      s'.docs tenant database collection = some docs' ∧
      ∀ t d c, (t, d, c) ≠ (tenant, database, collection) → s'.docs t d c = s.docs t d c := by
  unfold modify Server.database at h
  rcases hdb : s.databases tenant database with _ | db
  · simp [hdb, bind, Except.bind] at h
  · rcases hcoll : db.collections collection with _ | docs
    · simp [hdb, hcoll, bind, Except.bind] at h
    · rcases hf : f docs with e | docs'
      · simp [hdb, hcoll, hf, bind, Except.bind] at h
      · simp only [hdb, hcoll, hf, bind, Except.bind, pure, Except.pure, Except.ok.injEq] at h
        subst h
        refine ⟨docs, docs', by simp [Server.docs, hdb, hcoll], hf, ?_, ?_⟩
        · simp [Server.docs, setDatabase]
        · intro t d c hne
          by_cases hpath : t = tenant ∧ d = database
          · obtain ⟨rfl, rfl⟩ := hpath
            have hc : c ≠ collection := fun hc => hne (by rw [hc])
            simp [Server.docs, setDatabase, hdb, hc]
          · rw [Server.docs, Server.docs, databases_setDatabase_of_ne _ hpath]

theorem exists_modify {docs docs' : Docs} (hdocs : s.docs tenant database collection = some docs)
    (hf : f docs = .ok docs') :
    ∃ s', s.modify tenant database collection f = .ok s' := by
  unfold Server.docs at hdocs
  unfold modify Server.database
  rcases hdb : s.databases tenant database with _ | db
  · simp [hdb] at hdocs
  · have hcoll : db.collections collection = some docs := by simpa [hdb] using hdocs
    simp only [bind, Except.bind, hcoll, hf]
    exact ⟨_, rfl⟩

theorem value_of_keyNotFound {k : Uuid}
    (h : s.modify tenant database collection (Docs.delete key) = .error (.keyNotFound k)) :
    s.value tenant database collection key = none := by
  unfold modify Server.database at h
  unfold value docs
  rcases hdb : s.databases tenant database with _ | db
  · rfl
  · rcases hcoll : db.collections collection with _ | docs
    · simp [hcoll]
    · simp only [hdb, hcoll, bind, Except.bind, Docs.delete] at h
      simp only [Option.bind_some, hcoll, Docs.get]
      rcases hkey : docs key with _ | v | _
      · rfl
      · simp [hkey, pure, Except.pure] at h
      · rfl

theorem value_of_modify (h : s.modify tenant database collection f = .ok s')
    (hf : ∀ docs docs', f docs = .ok docs' → docs'.get key = v) :
    s'.value tenant database collection key = v := by
  obtain ⟨docs, docs', -, hok, hdocs, -⟩ := modify_eq_ok h
  rw [value, hdocs]
  exact hf docs docs' hok

theorem value_of_modify_only {k : Uuid} {t d c : String}
    (h : s.modify tenant database collection f = .ok s') (hf : Docs.Only key f)
    (hne : (t, d, c, k) ≠ (tenant, database, collection, key)) :
    s'.value t d c k = s.value t d c k := by
  obtain ⟨docs, docs', hdocs, hok, hdocs', hother⟩ := modify_eq_ok h
  by_cases hpath : (t, d, c) = (tenant, database, collection)
  · obtain ⟨rfl, rfl, rfl⟩ : t = tenant ∧ d = database ∧ c = collection := by simpa using hpath
    have hk : k ≠ key := fun hk => hne (by rw [hk])
    obtain ⟨doc, rfl⟩ := hf docs docs' hok
    rw [value, value, hdocs, hdocs']
    simp [Docs.get, hk]
  · rw [value, value, hother t d c hpath]

/-! ### New tenants, databases and collections are empty -/

theorem value_of_createClient (h : s.createClient name = .ok s') :
    s'.value = s.value := by
  simp only [createClient, except_bind_eq_ok] at h
  obtain ⟨_, -, h⟩ := h
  split at h
  · cases h
  · cases h
    rfl

theorem value_of_createDatabase (h : s.createDatabase tenant name = .ok s') :
    s'.value = s.value := by
  unfold createDatabase at h
  rcases hclient : s.clients tenant with _ | _
  · simp [hclient, bind, Except.bind] at h
  · simp only [hclient, Bool.not_true, Bool.false_eq_true, if_false, except_bind_eq_ok] at h
    obtain ⟨_, -, h⟩ := h
    split at h
    · cases h
    · rename_i hnone
      cases h
      have hdb : s.databases tenant name = none := by simpa using hnone
      funext t d c k
      by_cases hpath : t = tenant ∧ d = name
      · obtain ⟨rfl, rfl⟩ := hpath
        simp [value, docs, setDatabase, hdb]
      · rw [value, value, docs, docs, databases_setDatabase_of_ne _ hpath]

theorem value_of_createCollection (h : s.createCollection tenant database name = .ok s') :
    s'.value = s.value := by
  simp only [createCollection, except_bind_eq_ok] at h
  obtain ⟨db, hdb, _, -, h⟩ := h
  split at h
  · cases h
  · rename_i hnone
    cases h
    have hcoll : db.collections name = none := by simpa using hnone
    have hdb : s.databases tenant database = some db := by
      unfold Server.database at hdb
      split at hdb <;> cases hdb
      assumption
    funext t d c k
    by_cases hpath : t = tenant ∧ d = database
    · obtain ⟨rfl, rfl⟩ := hpath
      by_cases hc : c = name
      · subst hc
        simp [value, docs, setDatabase, hdb, hcoll, Docs.get]
      · simp [value, docs, setDatabase, hdb, hc]
    · rw [value, value, docs, docs, databases_setDatabase_of_ne _ hpath]

end Server

end GrumpyDB
