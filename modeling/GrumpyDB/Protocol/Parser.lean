/-
From a line to a command.

A line is cut at whitespace; what is last takes the rest of the line. Two commands take two JSON
texts at their end: `QUERYRANGE` cuts after the first word and `PUT_WITH_VC` before the last
one.
-/
import GrumpyDB.Cluster.Json
import GrumpyDB.Cluster.JsonLines
import GrumpyDB.Lib.Str
import GrumpyDB.Protocol.Command
import Mathlib.Data.List.DropRight

namespace GrumpyDB

namespace Protocol

open Str String

def MAX_LINE_LENGTH : Nat := 1048576

inductive ProtocolError where
  | empty
  | unknownCommand (text : String)
  | missingArgument (text : String)
  | lineTooLong (len : Nat)
  deriving DecidableEq

def ProtocolError.display : ProtocolError → String
  | empty => "empty command"
  | unknownCommand text => "unknown command: " ++ text
  | missingArgument text => "missing argument: " ++ text
  | lineTooLong len =>
    "line too long (" ++ toString len ++ " bytes, max " ++ toString MAX_LINE_LENGTH ++ ")"

/-! ### Words -/

def trimStart (s : Str) : Str := s.dropWhile isWhitespace

def trimEnd (s : Str) : Str := s.rdropWhile isWhitespace

def splitFirstWord (s : Str) : Str × Str :=
  (s.takeWhile fun c => !isWhitespace c, trimStart (s.dropWhile fun c => !isWhitespace c))

def splitLastWord (s : Str) : Str × Str :=
  (trimEnd (s.rdropWhile fun c => !isWhitespace c), s.rtakeWhile fun c => !isWhitespace c)

def toAsciiUppercase (s : Str) : String := String.ofList (s.map Char.toUpper)

def eqIgnoreAsciiCase (s : Str) (t : String) : Bool :=
  s.map Char.toUpper = t.toList.map Char.toUpper

def word (missing : String) (rest : Str) : Except ProtocolError (Str × Str) :=
  if (splitFirstWord rest).1 = [] then .error (.missingArgument missing)
  else .ok (splitFirstWord rest)

def remainder (missing : String) (rest : Str) : Except ProtocolError Str :=
  if rest = [] then .error (.missingArgument missing) else .ok rest

def requireArg (rest : Str) (command argName : String) : Except ProtocolError Str :=
  remainder (command ++ " requires <" ++ argName ++ ">") rest

def keyword (rest : Str) (expected missing : String) : Except ProtocolError Str :=
  let (w, rest) := splitFirstWord rest
  if eqIgnoreAsciiCase w expected then .ok rest else .error (.missingArgument missing)

/-! ### Concerns -/

def parseU16 (s : Str) : Option UInt16 :=
  (parseU64 s).bind fun n => if n < 65536 then some (UInt16.ofNat n) else none

def parseConcernToken (token : Str) (expected : Char) (keyword : String) :
    Except ProtocolError UInt16 :=
  let missing := ProtocolError.missingArgument
    (keyword ++ " requires " ++ String.ofList [expected] ++ "=<n>")
  match token.span (· ≠ '=') with
  | (_, []) => .error missing
  | (k, _ :: v) =>
    if eqIgnoreAsciiCase k (String.ofList [expected]) then
      match parseU16 v with
      | some n => .ok n
      | none => .error missing
    else .error missing

def concern (given : Option UInt16) (letter : Char) (keyword : String) (rest : Str) :
    Except ProtocolError (UInt16 × Str) :=
  if given.isSome then .error (.missingArgument (keyword ++ " specified more than once"))
  else do
    let (token, rest) ← word (keyword ++ " requires " ++ String.ofList [letter] ++ "=<n>") rest
    let n ← parseConcernToken token letter keyword
    pure (n, rest)

/-- The read and the write concern that were given. -/
structure Concerns where
  read : Option UInt16
  write : Option UInt16
  deriving DecidableEq

/-- A concern at the beginning of a text, if there is one. -/
def nextConcern (given : Concerns) (input : Str) :
    Option (Except ProtocolError (Concerns × Str)) :=
  let (w, rest) := splitFirstWord input
  if eqIgnoreAsciiCase w "READ_CONCERN" then
    some ((concern given.read 'R' "READ_CONCERN" rest).map fun (n, rest) =>
      ({ given with read := some n }, rest))
  else if eqIgnoreAsciiCase w "WRITE_CONCERN" then
    some ((concern given.write 'W' "WRITE_CONCERN" rest).map fun (n, rest) =>
      ({ given with write := some n }, rest))
  else none

/-- Up to `count` concerns before a command. -/
def parseConsistencyPrefix : Nat → Concerns → Str → Except ProtocolError (Concerns × Str)
  | 0, given, input => .ok (given, input)
  | count + 1, given, input =>
    match nextConcern given input with
    | none => .ok (given, input)
    | some (.error e) => .error e
    | some (.ok (given, rest)) => parseConsistencyPrefix count given rest

theorem length_splitFirstWord (s : Str) :
    (splitFirstWord s).1.length + (splitFirstWord s).2.length ≤ s.length := by
  have hsplit := congrArg List.length (List.takeWhile_append_dropWhile
    (p := fun c => !isWhitespace c) (l := s))
  have htrim := (List.dropWhile_sublist isWhitespace
    (l := s.dropWhile fun c => !isWhitespace c)).length_le
  rw [List.length_append] at hsplit
  simp only [splitFirstWord, trimStart]
  omega

variable {input rest : Str}

theorem length_concern {given : Option UInt16} {letter : Char} {kw : String} {n : UInt16}
    (h : concern given letter kw input = .ok (n, rest)) : rest.length ≤ input.length := by
  rw [concern] at h
  split at h
  · cases h
  · rw [word] at h
    split at h
    · cases h
    · have hlen := length_splitFirstWord input
      rcases hn : parseConcernToken (splitFirstWord input).1 letter kw with e | m <;>
        simp only [bind, Except.bind, hn] at h
      · cases h
      · obtain ⟨-, rfl⟩ := Prod.mk.inj (Except.ok.inj h)
        omega

theorem length_nextConcern {given given' : Concerns}
    (h : nextConcern given input = some (.ok (given', rest))) : rest.length < input.length := by
  have hlen := length_splitFirstWord input
  have hpos : ∀ kw : String, kw.toList ≠ [] → eqIgnoreAsciiCase (splitFirstWord input).1 kw = true →
      0 < (splitFirstWord input).1.length := by
    intro kw hkw heq
    rw [eqIgnoreAsciiCase, decide_eq_true_eq] at heq
    have := congrArg List.length heq
    rw [List.length_map, List.length_map] at this
    rw [this]
    exact List.length_pos_iff.mpr hkw
  simp only [nextConcern] at h
  split at h
  · rename_i hread
    have := hpos _ (by decide) hread
    rcases hc : concern given.read 'R' "READ_CONCERN" (splitFirstWord input).2 with
      e | ⟨n, tail⟩ <;>
      simp only [hc, Except.map, Option.some.injEq, reduceCtorEq, Except.ok.injEq,
        Prod.mk.injEq] at h
    have := length_concern hc
    rw [← h.2]
    omega
  · split at h
    · rename_i hwrite
      have := hpos _ (by decide) hwrite
      rcases hc : concern given.write 'W' "WRITE_CONCERN" (splitFirstWord input).2 with
        e | ⟨n, tail⟩ <;>
        simp only [hc, Except.map, Option.some.injEq, reduceCtorEq, Except.ok.injEq, Prod.mk.injEq]
          at h
      have := length_concern hc
      rw [← h.2]
      omega
    · cases h

def concernsOf (given : Concerns) (input : Str) : Except ProtocolError Concerns :=
  if input = [] then .ok given
  else
    match _h : nextConcern given input with
    | none => .error (.missingArgument "SET CONSISTENCY expects READ_CONCERN and/or WRITE_CONCERN")
    | some (.error e) => .error e
    | some (.ok (given, rest)) => concernsOf given rest
termination_by input.length
decreasing_by exact length_nextConcern _h

def parseDatabaseConsistencySettings (rest : Str) : Except ProtocolError Concerns := do
  let given ← concernsOf ⟨none, none⟩ rest
  if given.read.isNone ∧ given.write.isNone then
    .error (.missingArgument
      "ALTER DATABASE <name> SET CONSISTENCY requires READ_CONCERN and/or WRITE_CONCERN")
  else .ok given

/-! ### Commands -/

abbrev text (s : Str) : String := String.ofList s

def parseLogin (rest : Str) : Except ProtocolError Command := do
  let (tenant, rest) ← word "LOGIN requires <tenant> <username> <password>" rest
  let (username, rest) ← word "LOGIN requires <username>" rest
  let password ← remainder "LOGIN requires <password>" rest
  pure (.login (text tenant) (text username) (text password))

def parseCreateIndex (rest : Str) : Except ProtocolError Command := do
  let (collection, rest) ← word "CREATE INDEX requires <collection> <index_name> <field_path>" rest
  let (indexName, rest) ← word "CREATE INDEX requires <index_name>" rest
  let fieldPath ← requireArg rest "CREATE INDEX" "field_path"
  pure (.createIndex (text collection) (text indexName) (text fieldPath))

def parseCreateUser (rest : Str) : Except ProtocolError Command := do
  let (username, rest) ← word "CREATE USER requires <username> <password>" rest
  let password ← remainder "CREATE USER requires <password>" rest
  pure (.createUser (text username) (text password))

def parseCreate (rest : Str) : Except ProtocolError Command :=
  let (sub, rest) := splitFirstWord rest
  match toAsciiUppercase sub with
  | "DATABASE" => (requireArg rest "CREATE DATABASE" "name").map (.createDatabase ∘ text)
  | "COLLECTION" => (requireArg rest "CREATE COLLECTION" "name").map (.createCollection ∘ text)
  | "INDEX" => parseCreateIndex rest
  | "USER" => parseCreateUser rest
  | "TENANT" => (requireArg rest "CREATE TENANT" "name").map (.createTenant ∘ text)
  | "" => .error (.missingArgument "CREATE requires DATABASE|COLLECTION|INDEX|USER|TENANT")
  | _ => .error (.unknownCommand ("CREATE " ++ text sub))

def parseDropIndex (rest : Str) : Except ProtocolError Command := do
  let (collection, rest) ← word "DROP INDEX requires <collection> <index_name>" rest
  let indexName ← requireArg rest "DROP INDEX" "index_name"
  pure (.dropIndex (text collection) (text indexName))

def parseDrop (rest : Str) : Except ProtocolError Command :=
  let (sub, rest) := splitFirstWord rest
  match toAsciiUppercase sub with
  | "DATABASE" => (requireArg rest "DROP DATABASE" "name").map (.dropDatabase ∘ text)
  | "COLLECTION" => (requireArg rest "DROP COLLECTION" "name").map (.dropCollection ∘ text)
  | "INDEX" => parseDropIndex rest
  | "USER" => (requireArg rest "DROP USER" "username").map (.dropUser ∘ text)
  | "TENANT" => (requireArg rest "DROP TENANT" "name").map (.dropTenant ∘ text)
  | "" => .error (.missingArgument "DROP requires DATABASE|COLLECTION|INDEX|USER|TENANT")
  | _ => .error (.unknownCommand ("DROP " ++ text sub))

def parseList (rest : Str) : Except ProtocolError Command :=
  let (sub, rest) := splitFirstWord rest
  match toAsciiUppercase sub with
  | "DATABASES" => .ok .listDatabases
  | "COLLECTIONS" => .ok .listCollections
  | "INDEXES" => (requireArg rest "LIST INDEXES" "collection").map (.listIndexes ∘ text)
  | "USERS" => .ok (.listUsers (if rest = [] then none else some (text rest)))
  | "TENANTS" => .ok .listTenants
  | "" => .error (.missingArgument "LIST requires DATABASES|COLLECTIONS|INDEXES|USERS|TENANTS")
  | _ => .error (.unknownCommand ("LIST " ++ text sub))

def databaseKeyword (verb : String) (rest : Str) : Except ProtocolError Str :=
  let (sub, rest) := splitFirstWord rest
  if eqIgnoreAsciiCase sub "DATABASE" then .ok rest
  else if sub = [] then .error (.missingArgument (verb ++ " requires DATABASE"))
  else .error (.unknownCommand (verb ++ " " ++ text sub))

def parseAlter (rest : Str) : Except ProtocolError Command := do
  let rest ← databaseKeyword "ALTER" rest
  let (database, rest) ← word "ALTER DATABASE requires <name> SET|RESET CONSISTENCY" rest
  let (action, rest) := splitFirstWord rest
  if eqIgnoreAsciiCase action "SET" then
    let rest ← keyword rest "CONSISTENCY" "ALTER DATABASE <name> SET requires CONSISTENCY"
    let given ← parseDatabaseConsistencySettings rest
    pure (.setDatabaseConsistency (text database) given.read given.write)
  else if eqIgnoreAsciiCase action "RESET" then
    let target ← requireArg rest "ALTER DATABASE <name> RESET" "CONSISTENCY"
    if eqIgnoreAsciiCase target "CONSISTENCY" then
      pure (.resetDatabaseConsistency (text database))
    else .error (.missingArgument "ALTER DATABASE <name> RESET requires CONSISTENCY")
  else .error (.missingArgument "ALTER DATABASE <name> requires SET|RESET CONSISTENCY")

def parseShow (rest : Str) : Except ProtocolError Command := do
  let rest ← databaseKeyword "SHOW" rest
  let (database, rest) ← word "SHOW DATABASE requires <name> CONSISTENCY" rest
  let target ← requireArg rest "SHOW DATABASE <name>" "CONSISTENCY"
  if eqIgnoreAsciiCase target "CONSISTENCY" then pure (.showDatabaseConsistency (text database))
  else .error (.missingArgument "SHOW DATABASE <name> requires CONSISTENCY")

def parseSchema (rest : Str) : Except ProtocolError Command :=
  let (sub, _) := splitFirstWord rest
  match toAsciiUppercase sub with
  | "VERSION" => .ok .schemaVersion
  | "STATUS" => .ok .schemaStatus
  | "" => .error (.missingArgument "SCHEMA requires VERSION|STATUS")
  | _ => .error (.unknownCommand ("SCHEMA " ++ text sub))

def parseInsert (rest : Str) : Except ProtocolError Command := do
  let (collection, rest) ← word "INSERT requires <collection> <uuid> <json>" rest
  let (key, rest) ← word "INSERT requires <uuid>" rest
  let value ← remainder "INSERT requires <json>" rest
  pure (.insert (text collection) (text key) (text value))

/-- `GET` and `DELETE`: what follows the key is not looked at. -/
def collectionAndKey (verb : String) (rest : Str) : Except ProtocolError (String × String) := do
  let (collection, rest) ← word (verb ++ " requires <collection> <uuid>") rest
  let key ← requireArg rest verb "uuid"
  pure (text collection, text (splitFirstWord key).1)

def parseGet (rest : Str) : Except ProtocolError Command :=
  (collectionAndKey "GET" rest).map fun (collection, key) => .get collection key

def parseDelete (rest : Str) : Except ProtocolError Command :=
  (collectionAndKey "DELETE" rest).map fun (collection, key) => .delete collection key

def parseUpdate (rest : Str) : Except ProtocolError Command := do
  let (collection, rest) ← word "UPDATE requires <collection> <uuid> <json>" rest
  let (key, rest) ← word "UPDATE requires <uuid>" rest
  let value ← remainder "UPDATE requires <json>" rest
  pure (.update (text collection) (text key) (text value))

def parsePutWithVc (rest : Str) : Except ProtocolError Command := do
  let (collection, rest) ← word "PUT_WITH_VC requires <collection> <uuid> <json> <vector_clock>" rest
  let (key, rest) ← word "PUT_WITH_VC requires <uuid>" rest
  let rest ← remainder "PUT_WITH_VC requires <json> <vector_clock>" rest
  let (value, vectorClock) := splitLastWord rest
  if value = [] ∨ vectorClock = [] then
    .error (.missingArgument "PUT_WITH_VC requires <json> <vector_clock>")
  else pure (.putWithVc (text collection) (text key) (text value) (text vectorClock))

def parseElectWriter (rest : Str) : Except ProtocolError Command := do
  let (nodeId, rest) ← word "ELECT-WRITER requires <node_id> <database> [collection]" rest
  let (database, rest) ← word "ELECT-WRITER requires <database>" rest
  pure (.electWriter (text nodeId) (text database)
    (if rest = [] then none else some (text (splitFirstWord rest).1)))

def planNode (verb : String) (rest : Str) : Except ProtocolError String :=
  (requireArg rest verb "node_id").map fun nodeId => text (splitFirstWord nodeId).1

def executeNode (verb : String) (rest : Str) : Except ProtocolError (String × String) := do
  let (nodeId, rest) ← word (verb ++ " requires <node_id> <collection>") rest
  let collection ← requireArg rest verb "collection"
  pure (text nodeId, text (splitFirstWord collection).1)

def parseRebalance (rest : Str) : Except ProtocolError Command :=
  let (mode, rest) := splitFirstWord rest
  let (target, rest) := splitFirstWord rest
  match toAsciiUppercase mode, toAsciiUppercase target with
  | "PLAN", "ADD-NODE" | "PLAN", "ADD_NODE" =>
    (planNode "REBALANCE PLAN ADD-NODE" rest).map .planRebalanceAddNode
  | "PLAN", "REMOVE-NODE" | "PLAN", "REMOVE_NODE" =>
    (planNode "REBALANCE PLAN REMOVE-NODE" rest).map .planRebalanceRemoveNode
  | "EXECUTE", "ADD-NODE" | "EXECUTE", "ADD_NODE" =>
    (executeNode "REBALANCE EXECUTE ADD-NODE" rest).map fun (nodeId, collection) =>
      .executeRebalanceAddNode nodeId collection
  | "EXECUTE", "REMOVE-NODE" | "EXECUTE", "REMOVE_NODE" =>
    (executeNode "REBALANCE EXECUTE REMOVE-NODE" rest).map fun (nodeId, collection) =>
      .executeRebalanceRemoveNode nodeId collection
  | _, _ =>
    .error (.missingArgument "REBALANCE requires PLAN|EXECUTE and ADD-NODE|REMOVE-NODE")

def parseScan (rest : Str) : Except ProtocolError Command := do
  let (collection, rest) ← word "SCAN requires <collection>" rest
  if rest = [] then pure (.scan (text collection) none none)
  else
    let (start, rest) := splitFirstWord rest
    let rest ← remainder "SCAN range requires both <start_uuid> <end_uuid>" rest
    pure (.scan (text collection) (some (text start)) (some (text (splitFirstWord rest).1)))

def parseQuery (rest : Str) : Except ProtocolError Command := do
  let (collection, rest) ← word "QUERY requires <collection> <index_name> <json_value>" rest
  let (indexName, rest) ← word "QUERY requires <index_name>" rest
  let value ← remainder "QUERY requires <json_value>" rest
  pure (.query (text collection) (text indexName) (text value))

def parseQueryrange (rest : Str) : Except ProtocolError Command := do
  let (collection, rest) ← word "QUERYRANGE requires <collection> <index_name> <start> <end>" rest
  let (indexName, rest) ← word "QUERYRANGE requires <index_name>" rest
  let (start, rest) ← word "QUERYRANGE requires <start>" rest
  let stop ← remainder "QUERYRANGE requires <end>" rest
  pure (.queryRange (text collection) (text indexName) (text start) (text stop))

/-- `GRANT` and `REVOKE`: a role, a resource and a user, with the words between them. -/
def roleOnResource (verb link : String) (rest : Str) :
    Except ProtocolError (String × String × String) := do
  let usage := verb ++ " <role> ON <resource> " ++ link ++ " <username>"
  let (role, rest) ← word (verb ++ " requires <role> ON <resource> " ++ link ++ " <username>") rest
  let rest ← keyword rest "ON" (verb ++ " syntax: " ++ usage)
  let (resource, rest) ← word (verb ++ " requires <resource>") rest
  let rest ← keyword rest link (verb ++ " syntax: " ++ usage)
  let username ← requireArg rest verb "username"
  pure (text role, text resource, text (splitFirstWord username).1)

def parseGrant (rest : Str) : Except ProtocolError Command :=
  (roleOnResource "GRANT" "TO" rest).map fun (role, resource, username) =>
    .grant role resource username

def parseRevoke (rest : Str) : Except ProtocolError Command :=
  (roleOnResource "REVOKE" "FROM" rest).map fun (role, resource, username) =>
    .revoke role resource username

def parseVerb (verb rest : Str) : String → Except ProtocolError Command
  | "LOGIN" => parseLogin rest
  | "TOKEN" => (requireArg rest "TOKEN" "jwt").map (.token ∘ text)
  | "REFRESH" => (requireArg rest "REFRESH" "refresh_token").map (.refresh ∘ text)
  | "WHOAMI" => .ok .whoAmI
  | "TOPOLOGY" => .ok .topology
  | "SNAPSHOT_HLC" | "SNAPSHOT-HLC" => .ok .snapshotHlc
  | "USE" => (requireArg rest "USE" "database").map (.use ∘ text)
  | "PING" => .ok .ping
  | "QUIT" => .ok .quit
  | "CREATE" => parseCreate rest
  | "DROP" => parseDrop rest
  | "LIST" => parseList rest
  | "ALTER" => parseAlter rest
  | "SHOW" => parseShow rest
  | "SCHEMA" => parseSchema rest
  | "GRANT" => parseGrant rest
  | "REVOKE" => parseRevoke rest
  | "ELECT-WRITER" | "ELECT_WRITER" => parseElectWriter rest
  | "REBALANCE" => parseRebalance rest
  | "INSERT" => parseInsert rest
  | "GET" => parseGet rest
  | "UPDATE" => parseUpdate rest
  | "DELETE" => parseDelete rest
  | "PUT_WITH_VC" => parsePutWithVc rest
  | "SCAN" => parseScan rest
  | "QUERY" => parseQuery rest
  | "QUERYRANGE" => parseQueryrange rest
  | "COMPACT" => (requireArg rest "COMPACT" "collection").map (.compact ∘ text)
  | "FLUSH" => .ok .flush
  | "COUNT" => (requireArg rest "COUNT" "collection").map (.count ∘ text)
  | _ => .error (.unknownCommand (text verb))

def parseBase (trimmed : Str) : Except ProtocolError Command :=
  let (verb, rest) := splitFirstWord trimmed
  parseVerb verb rest (toAsciiUppercase verb)

/-- Take line ends off the end of a line: every `\r\n` there, then every `\n`. -/
def trimLineEnd (line : Str) : Str :=
  let rec crlf : Str → Str
    | '\n' :: '\r' :: s => crlf s
    | s => s
  (crlf line.reverse).reverse.rdropWhile (· = '\n')

def parseCommand (line : Str) : Except ProtocolError Command :=
  let line := trimLineEnd line
  if MAX_LINE_LENGTH < utf8Len line then .error (.lineTooLong (utf8Len line))
  else
    let trimmed := trimStart (trimEnd line)
    if trimmed = [] then .error .empty
    else do
      let (given, trimmed) ← parseConsistencyPrefix 2 ⟨none, none⟩ trimmed
      let base ← parseBase trimmed
      if given.read.isSome ∨ given.write.isSome then
        pure (.withConsistency given.read given.write base)
      else pure base

end Protocol

end GrumpyDB
