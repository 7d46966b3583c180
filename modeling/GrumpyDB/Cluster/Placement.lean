/-
Where a document key belongs.

A key has many texts, and the ring hashes the text it is given.
-/
import GrumpyDB.Cluster.Handler

namespace GrumpyDB

open Function

def Command.rekey (k : String) : Command → Command
  | insert collection _ value => insert collection k value
  | get collection _ => get collection k
  | update collection _ value => update collection k value
  | delete collection _ => delete collection k
  | putWithVc collection _ value vectorClock => putWithVc collection k value vectorClock

/-- A node takes a command rather than forwarding it. -/
def Coordinator.Accepts (c : Coordinator) (database : String) (command : Command) : Prop :=
  c.placement database command = .ok ()

def Ring.ownersFrom (r : Ring String) (pos : UInt64) (n : Nat) : List String :=
  (r.clockwise pos).eraseDups.take n

/-- Two key texts are placed alike: on every node of the ring, every command on the collection
is taken under both or under neither, and is sent to the same replicas. -/
def SamePlacement (r : Ring String) (n : Nat) (database collection k₁ k₂ : String) : Prop :=
  ∀ c : Coordinator, c.ring = r → c.n = n →
    (∀ command : Command, command.collection = collection →
      (c.Accepts database (command.rekey k₁) ↔ c.Accepts database (command.rekey k₂))) ∧
    ∀ node, node ∈ c.replicaPeerNodesForKey database collection k₁ ↔
      node ∈ c.replicaPeerNodesForKey database collection k₂

/-- Two key texts fall on positions with the same owners, the first of them the same. -/
def SameOwners (r : Ring String) (n : Nat) (database collection k₁ k₂ : String) : Prop :=
  let owners k := r.ownersFrom (RoutingKey.position ⟨database, collection, utf8 k⟩) n
  (∀ node, node ∈ owners k₁ ↔ node ∈ owners k₂) ∧ (owners k₁).head? = (owners k₂).head?

variable {c : Coordinator} {database collection k k₁ k₂ : String}

theorem Coordinator.owners_eq_ownersFrom (c : Coordinator) (database collection k : String) :
    c.owners database collection k =
      c.ring.ownersFrom (RoutingKey.position ⟨database, collection, utf8 k⟩) c.n :=
  c.ring.preferenceList_eq _ _

/-- A command is taken by the first owner if it is a read, and by all owners otherwise. -/
theorem Coordinator.accepts_rekey {command : Command} :
    c.Accepts database (command.rekey k) ↔
      if command.isWriteCommand then c.localNodeId ∈ c.owners database command.collection k
      else ∀ owner ∈ (c.owners database command.collection k).head?, owner = c.localNodeId := by
  cases command with
  | get collection key => exact c.enforceLocalOwner_eq_ok
  | _ => exact c.enforceLocalWriteReplica_eq_ok

/-- Lists with the same members have the same head if both heads are equal to the same nodes. -/
theorem head?_eq_of_forall {l₁ l₂ : List String} (hmem : ∀ node, node ∈ l₁ ↔ node ∈ l₂)
    (hhead : ∀ node, (∀ a ∈ l₁.head?, a = node) ↔ ∀ a ∈ l₂.head?, a = node) :
    l₁.head? = l₂.head? := by
  rcases l₁ with _ | ⟨a, l₁⟩
  · rcases l₂ with _ | ⟨b, l₂⟩
    · rfl
    · exact absurd ((hmem b).mpr (by simp)) (by simp)
  · rcases l₂ with _ | ⟨b, l₂⟩
    · exact absurd ((hmem a).mp (by simp)) (by simp)
    · have hba : b = a := by simpa using (hhead a).mp (by simp)
      simp [hba]

variable {r : Ring String} {n : Nat}

theorem samePlacement_of_sameOwners (h : SameOwners r n database collection k₁ k₂) :
    SamePlacement r n database collection k₁ k₂ := by
  rintro c rfl rfl
  obtain ⟨hmem, hhead⟩ := h
  simp only [← c.owners_eq_ownersFrom] at hmem hhead
  refine ⟨?_, ?_⟩
  · rintro command rfl
    rw [Coordinator.accepts_rekey, Coordinator.accepts_rekey, hhead, hmem]
  · intro node
    rw [Coordinator.mem_replicaPeerNodesForKey, Coordinator.mem_replicaPeerNodesForKey, hmem]

theorem sameOwners_of_eq
    (h : r.ownersFrom (RoutingKey.position ⟨database, collection, utf8 k₁⟩) n =
      r.ownersFrom (RoutingKey.position ⟨database, collection, utf8 k₂⟩) n) :
    SameOwners r n database collection k₁ k₂ := by
  simp only [SameOwners, h, implies_true, and_self]

theorem sameOwners_of_samePlacement (h : SamePlacement r n database collection k₁ k₂) :
    SameOwners r n database collection k₁ k₂ := by
  -- a node of every name, with this ring
  let at' (node : String) : Coordinator := ⟨node, n, r, SortedMap.empty, SortedMap.empty⟩
  have howners (node k : String) : (at' node).owners database collection k =
      r.ownersFrom (RoutingKey.position ⟨database, collection, utf8 k⟩) n :=
    (at' node).owners_eq_ownersFrom database collection k
  have hmem (node : String) := (h (at' node) rfl rfl).1 (.delete collection "") rfl
  have hhead (node : String) := (h (at' node) rfl rfl).1 (.get collection "") rfl
  simp only [Coordinator.accepts_rekey, Command.collection,
    howners] at hmem
  simp only [Coordinator.accepts_rekey, Command.collection, howners] at hhead
  refine ⟨hmem, head?_eq_of_forall hmem hhead⟩

/-- **Two texts of a key are placed alike, and like its canonical text, exactly if all three fall
on positions with the same owners.** -/
theorem placement_by_key_iff (r : Ring String) (n : Nat) (database collection k₁ k₂ : String)
    (u : Uuid) (_h₁ : Uuid.tryParse (utf8 k₁) = some u) (_h₂ : Uuid.tryParse (utf8 k₂) = some u) :
    (SamePlacement r n database collection k₁ k₂ ∧
        SamePlacement r n database collection k₁ u.toText) ↔
      SameOwners r n database collection k₁ k₂ ∧
        SameOwners r n database collection k₁ u.toText := by
  constructor
  · exact fun h => ⟨sameOwners_of_samePlacement h.1, sameOwners_of_samePlacement h.2⟩
  · exact fun h => ⟨samePlacement_of_sameOwners h.1, samePlacement_of_sameOwners h.2⟩

/-! ### Four nodes -/

namespace FourNodes

def nodeId (i : Nat) : Uuid := .fromU128 i

@[irreducible] def coordinator (i : Nat) : Coordinator :=
  let others := ([1, 2, 3, 4].filter (· ≠ i)).map fun j =>
    (⟨(nodeId j).toText, "10.0.0." ++ toString j ++ ":7000", none, none⟩ : PeerEntry)
  .fromConfig (nodeId i) 1 others ("10.0.0." ++ toString i ++ ":7000") 0

def session : Session := ⟨"acme", "db"⟩

def key : String := "00000000-0000-0000-0000-00000000000a"

def id : Uuid := .fromU128 10

def server (d : Option Doc) : Server where
  clients t := t = "acme"
  databases t n :=
    if t = "acme" ∧ n = "db" then
      some ⟨fun c => if c = "docs" then some (Function.update (fun _ => none) id d) else none,
        none, none⟩
    else none

theorem docs_server (d : Option Doc) : (server d).docs "acme" "db" "docs" =
    some (Function.update (fun _ => none) id d) :=
  rfl

theorem modify_server {f : Docs → Except StoreError Docs} {d d' : Option Doc}
    (h : f (Function.update (fun _ => none) id d) = .ok (Function.update (fun _ => none) id d')) :
    (server d).modify "acme" "db" "docs" f = .ok (server d') := by
  have hmodify : (server d).modify "acme" "db" "docs" f = .ok ((server d).setDatabase "acme" "db"
      ⟨update (fun c => if c = "docs" then some (update (fun _ => none) id d)
        else none) "docs" (some (update (fun _ => none) id d')), none, none⟩) := by
    simp [Server.modify, Server.database, server, h, bind, Except.bind, pure, Except.pure]
  rw [hmodify, Except.ok.injEq, Server.setDatabase, server, server, Server.mk.injEq]
  refine ⟨rfl, ?_⟩
  funext t n
  by_cases ht : t = "acme"
  · by_cases hn : n = "db"
    · subst ht hn
      have hcollections : update (fun c => if c = "docs"
          then some (update (fun _ => none) id d) else none) "docs"
          (some (update (fun _ => none) id d')) =
          fun c => if c = "docs" then some (update (fun _ => none) id d') else none := by
        funext c
        by_cases hc : c = "docs" <;> simp [hc]
      simp [hcollections]
    · subst ht
      simp [hn]
  · simp [ht]

theorem get_server (d : Option Doc) : (server d).get "acme" "db" "docs" id =
    .ok (Docs.get (Function.update (fun _ => none) id d) id) :=
  rfl

def cluster (d : Option Doc) : Cluster := ⟨fun _ => server d, fun _ _ => [], fun _ => []⟩

def calm : Env := ⟨0, fun _ => none, fun _ => .answered, fun _ => .answered⟩

theorem tryParse_key : Uuid.tryParse (utf8 key) = some id := by decide +kernel

theorem placement_key {command : Command} (hcollection : command.collection = "docs")
    (hkey : command.key = key) : (coordinator 3).placement "db" command = .ok () := by
  have hplace : (coordinator 3).enforceLocalOwner "db" "docs" key = .ok () ∧
      (coordinator 3).enforceLocalWriteReplica "db" "docs" key = .ok () := by
    decide +kernel
  rw [← hcollection, ← hkey] at hplace
  cases command with
  | get collection key => exact hplace.1
  | _ => exact hplace.2

theorem replicas_key : (coordinator 3).replicaPeerNodesForKey "db" "docs" key =
    [(nodeId 4).toText, (nodeId 2).toText] := by
  decide +kernel

theorem peerAddrs_key : ∀ node ∈ [(nodeId 4).toText, (nodeId 2).toText],
    (coordinator 3).peerAddrs.get? node ≠ none := by
  decide +kernel

theorem ensurePeerWriteTarget_server (d : Option Doc) :
    (server d).ensurePeerWriteTarget "acme" "db" "docs" = (server d, .ok ()) := by
  have hclient : (server d).createClient "acme" =
      .error (.clientNotFound "client 'acme' already exists") := rfl
  have hdatabase : (server d).createDatabase "acme" "db" =
      .error (.databaseNotFound "database 'db' already exists") := rfl
  have hcollection : (server d).createCollection "acme" "db" "docs" =
      .error (.collectionNotFound "collection 'docs' already exists") := rfl
  unfold Server.ensurePeerWriteTarget
  rw [Server.orExisting_of_exists hclient (by decide +kernel)]
  dsimp only
  exact Server.orExisting_of_exists hcollection (by decide +kernel)

theorem owners_key : (coordinator 3).owners "db" "docs" key =
    [(nodeId 3).toText, (nodeId 4).toText, (nodeId 2).toText] := by
  decide +kernel

end FourNodes

open FourNodes in
/-- Two texts that do fall on positions with the same owners. -/
theorem placement_by_key_iff_same :
    SamePlacement (coordinator 1).ring 3 "db" "docs" "00000000-0000-0000-0000-00000000000c"
        "00000000-0000-0000-0000-00000000000C" ∧
      SamePlacement (coordinator 1).ring 3 "db" "docs" "00000000-0000-0000-0000-00000000000c"
        (Uuid.fromU128 12).toText := by
  refine (placement_by_key_iff _ 3 "db" "docs" _ _ (.fromU128 12) (by decide +kernel)
    (by decide +kernel)).mpr ⟨sameOwners_of_eq ?_, sameOwners_of_eq ?_⟩
  · decide +kernel
  · decide +kernel

open FourNodes in
/-- **A key in capitals goes to other nodes**: the first of four nodes takes writes of it, but not
of the same key in small letters. -/
theorem placement_differs_by_case :
    Uuid.tryParse (utf8 "00000000-0000-0000-0000-00000000000A") =
        Uuid.tryParse (utf8 "00000000-0000-0000-0000-00000000000a") ∧
      (coordinator 1).Accepts "db" (.insert "docs" "00000000-0000-0000-0000-00000000000A" "1") ∧
      ¬ (coordinator 1).Accepts "db"
        (.insert "docs" "00000000-0000-0000-0000-00000000000a" "1") := by
  have haccepts (key : String) : (coordinator 1).Accepts "db" (.insert "docs" key "1") ↔
      (coordinator 1).localNodeId ∈ (coordinator 1).owners "db" "docs" key :=
    Coordinator.enforceLocalWriteReplica_eq_ok
  rw [haccepts, haccepts]
  refine ⟨?_, ?_, ?_⟩ <;> decide +kernel

end GrumpyDB
