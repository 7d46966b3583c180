/-
Requests between nodes.

A node reads, upserts and deletes single keys on its peers. A request may fail before the peer
acts on it, and its answer may be lost after the peer did; `Fate` says which.
-/
import GrumpyDB.Cluster.Json
import GrumpyDB.Cluster.Server

namespace GrumpyDB

structure PeerKeyPath where
  tenant : String
  database : String
  collection : String
  key : String

inductive PeerDataOp where
  | get
  | upsert (valueJson : String)
  | delete

inductive PeerDataOpResponse where
  | value (valueJson : Option String)
  | ack
  | error (message : String)

/-! ### Creating what a write needs -/

namespace Server

def orExisting (s : Server) (r : Except StoreError Server) : Server × Except String Unit :=
  match r with
  | .ok s' => (s', .ok ())
  | .error e => (s, if isAlreadyExistsError e then .ok () else .error e.display)

variable {r : Except StoreError Server}

theorem orExisting_of_exists {s : Server} {e : StoreError} (hr : r = .error e)
    (he : isAlreadyExistsError e) : s.orExisting r = (s, .ok ()) := by
  rw [hr, orExisting, if_pos he]

/-- Create tenant, database and collection as far as they are missing. -/
def ensurePeerWriteTarget (s : Server) (tenant database collection : String) :
    Server × Except String Unit :=
  match orExisting s (s.createClient tenant) with
  | (s, .error e) => (s, .error e)
  | (s, .ok ()) =>
    match orExisting s (s.createDatabase tenant database) with
    | (s, .error e) => (s, .error e)
    | (s, .ok ()) =>
      match s.database tenant database with
      | .error e => (s, .error e.display)
      | .ok _ => orExisting s (s.createCollection tenant database collection)

theorem value_orExisting {s : Server} (h : ∀ s', r = .ok s' → s'.value = s.value) :
    (s.orExisting r).1.value = s.value := by
  unfold orExisting
  split
  · exact h _ rfl
  · rfl

theorem value_ensurePeerWriteTarget (s : Server) (tenant database collection : String) :
    (s.ensurePeerWriteTarget tenant database collection).1.value = s.value := by
  unfold ensurePeerWriteTarget
  have hclient := value_orExisting (r := s.createClient tenant)
    fun _ h => value_of_createClient h
  rcases hone : orExisting s (s.createClient tenant) with ⟨s₁, e | ⟨⟩⟩ <;> rw [hone] at hclient
  · exact hclient
  have hdatabase := value_orExisting (r := s₁.createDatabase tenant database)
    fun _ h => value_of_createDatabase h
  dsimp only
  rcases htwo : orExisting s₁ (s₁.createDatabase tenant database) with ⟨s₂, e | ⟨⟩⟩ <;>
    rw [htwo] at hdatabase
  · exact hdatabase.trans hclient
  have hcollection := value_orExisting (r := s₂.createCollection tenant database collection)
    fun _ h => value_of_createCollection h
  dsimp only
  split
  · exact hdatabase.trans hclient
  · exact hcollection.trans (hdatabase.trans hclient)

end Server

/-! ### Serving requests -/

section Serving

variable [SerdeJson]

open SerdeJson

def ackOf (s : Server) (r : Except StoreError Server) : Server × PeerDataOpResponse :=
  match r with
  | .ok s' => (s', .ack)
  | .error e => (s, .error e.display)

def handlePeerDataOp (s : Server) (path : PeerKeyPath) (op : PeerDataOp) :
    Server × PeerDataOpResponse :=
  match Uuid.tryParse (utf8 path.key) with
  | none => (s, .error ("invalid key uuid: " ++ uuidError path.key))
  | some uuid =>
    match op with
    | .get =>
      match s.database path.tenant path.database with
      | .error e => (s, .error e.display)
      | .ok _ =>
        match s.get path.tenant path.database path.collection uuid with
        | .ok v => (s, .value (v.map valueToJsonString))
        | .error e => (s, .error e.display)
    | .upsert valueJson =>
      match s.ensurePeerWriteTarget path.tenant path.database path.collection with
      | (s, .error e) => (s, .error e)
      | (s, .ok ()) =>
        match fromStr valueJson with
        | .error e => (s, .error ("invalid value JSON: " ++ e))
        | .ok json => ackOf s (s.modify path.tenant path.database path.collection
            (Docs.upsert uuid (jsonToValue json)))
    | .delete =>
      match s.ensurePeerWriteTarget path.tenant path.database path.collection with
      | (s, .error e) => (s, .error e)
      | (s, .ok ()) =>
        match s.modify path.tenant path.database path.collection (Docs.delete uuid) with
        | .error (.keyNotFound _) => (s, .ack)
        | r => ackOf s r

/-! ### Sending requests -/

inductive Fate where
  /-- The peer is not reached, or fails before it acts. -/
  | failed (message : String)
  /-- The peer acts, but its answer does not arrive. -/
  | lost (message : String)
  | answered

def sendPeer (fate : Fate) (s : Server) (path : PeerKeyPath) (op : PeerDataOp) :
    Server × Except String PeerDataOpResponse :=
  match fate with
  | .failed message => (s, .error message)
  | .lost message => ((handlePeerDataOp s path op).1, .error message)
  | .answered => ((handlePeerDataOp s path op).1, .ok (handlePeerDataOp s path op).2)

def fetchPeerValue (fate : Fate) (s : Server) (path : PeerKeyPath) :
    Except String (Option String) :=
  match (sendPeer fate s path .get).2 with
  | .ok (.value valueJson) => .ok valueJson
  | .ok .ack => .error "unexpected ack for get"
  | .ok (.error message) => .error message
  | .error message => .error message

def ackedBy (what : String) : Except String PeerDataOpResponse → Except String Unit
  | .ok .ack => .ok ()
  | .ok (.value _) => .error ("unexpected value response for " ++ what)
  | .ok (.error message) => .error message
  | .error message => .error message

def upsertPeerValue (fate : Fate) (s : Server) (path : PeerKeyPath) (valueJson : String) :
    Server × Except String Unit :=
  ((sendPeer fate s path (.upsert valueJson)).1,
    ackedBy "upsert" (sendPeer fate s path (.upsert valueJson)).2)

def deletePeerValue (fate : Fate) (s : Server) (path : PeerKeyPath) : Server × Except String Unit :=
  ((sendPeer fate s path .delete).1, ackedBy "delete" (sendPeer fate s path .delete).2)

/-! ### What an acknowledgement means -/

variable {fate : Fate} {s s' : Server} {path : PeerKeyPath}

theorem handlePeerDataOp_of_acked {what : String} {op : PeerDataOp}
    (h : ackedBy what (sendPeer fate s path op).2 = .ok ()) :
    handlePeerDataOp s path op = ((sendPeer fate s path op).1, .ack) := by
  cases fate with
  | failed message => cases h
  | lost message => cases h
  | answered =>
    rcases hresp : handlePeerDataOp s path op with ⟨s', _ | _ | _⟩
    · simp [sendPeer, hresp, ackedBy] at h
    · simp [sendPeer, hresp]
    · simp [sendPeer, hresp, ackedBy] at h

variable {r : Except StoreError Server}

omit [SerdeJson] in
theorem ackOf_eq_ack (h : ackOf s r = (s', .ack)) : r = .ok s' := by
  rcases r with e | s''
  · simp [ackOf] at h
  · simpa [ackOf] using h

variable {valueJson : String}

/-- **A replica that acknowledges an upsert stores the value.** -/
theorem upsertPeerValue_acked (h : (upsertPeerValue fate s path valueJson).2 = .ok ()) :
    ∃ uuid json, Uuid.tryParse (utf8 path.key) = some uuid ∧ fromStr valueJson = .ok json ∧
      (upsertPeerValue fate s path valueJson).1.value path.tenant path.database path.collection
        uuid = some (jsonToValue json) := by
  have hack := handlePeerDataOp_of_acked h
  show ∃ uuid json, _ ∧ _ ∧ (sendPeer fate s path (.upsert valueJson)).1.value _ _ _ uuid = _
  unfold handlePeerDataOp at hack
  rcases huuid : Uuid.tryParse (utf8 path.key) with _ | uuid
  · simp [huuid] at hack
  · simp only [huuid] at hack
    split at hack
    · simp at hack
    · split at hack
      · simp at hack
      · rename_i json hjson
        refine ⟨uuid, json, rfl, hjson, Server.value_of_modify (ackOf_eq_ack hack) ?_⟩
        exact fun docs docs' hok => Docs.get_of_upsert hok

/-- **A replica that acknowledges a delete stores no value.** -/
theorem deletePeerValue_acked (h : (deletePeerValue fate s path).2 = .ok ()) :
    ∃ uuid, Uuid.tryParse (utf8 path.key) = some uuid ∧
      (deletePeerValue fate s path).1.value path.tenant path.database path.collection uuid =
        none := by
  have hack := handlePeerDataOp_of_acked h
  show ∃ uuid, _ ∧ (sendPeer fate s path .delete).1.value _ _ _ uuid = _
  unfold handlePeerDataOp at hack
  rcases huuid : Uuid.tryParse (utf8 path.key) with _ | uuid
  · simp [huuid] at hack
  · simp only [huuid] at hack
    refine ⟨uuid, rfl, ?_⟩
    split at hack
    · simp at hack
    · split at hack
      · rename_i hmissing
        obtain ⟨rfl, -⟩ := Prod.mk.inj hack
        exact Server.value_of_keyNotFound hmissing
      · refine Server.value_of_modify (ackOf_eq_ack hack) ?_
        exact fun docs docs' hok => Docs.get_of_delete hok

/-! ### What a request leaves as it was -/

def PeerKeyPath.About (path : PeerKeyPath) (doc : DocPath) : Prop :=
  path.tenant = doc.tenant ∧ path.database = doc.database ∧ path.collection = doc.collection ∧
    Uuid.tryParse (utf8 path.key) = some doc.id

variable {doc : DocPath}

omit [SerdeJson] in
theorem valueAt_ackOf (h : ∀ s', r = .ok s' → s'.valueAt doc = s.valueAt doc) :
    (ackOf s r).1.valueAt doc = s.valueAt doc := by
  unfold ackOf
  split
  · exact h _ rfl
  · rfl

theorem valueAt_handlePeerDataOp (op : PeerDataOp) (h : ¬ path.About doc) :
    (handlePeerDataOp s path op).1.valueAt doc = s.valueAt doc := by
  unfold handlePeerDataOp
  rcases hid : Uuid.tryParse (utf8 path.key) with _ | uuid
  · rfl
  have hne : (doc.tenant, doc.database, doc.collection, doc.id) ≠
      (path.tenant, path.database, path.collection, uuid) := by
    intro heq
    simp only [Prod.mk.injEq] at heq
    obtain ⟨ht, hd, hc, hk⟩ := heq
    exact h ⟨ht.symm, hd.symm, hc.symm, hk ▸ hid⟩
  have htarget : (s.ensurePeerWriteTarget path.tenant path.database path.collection).1.valueAt doc =
      s.valueAt doc := by
    rw [Server.valueAt, Server.valueAt, Server.value_ensurePeerWriteTarget]
  cases op with
  | get =>
    dsimp only
    split
    · rfl
    · split <;> rfl
  | upsert valueJson =>
    generalize s.ensurePeerWriteTarget path.tenant path.database path.collection = target at *
    obtain ⟨s₁, e | ⟨⟩⟩ := target
    · exact htarget
    · rw [← htarget]
      dsimp only
      split
      · rfl
      · exact valueAt_ackOf fun s' hs' =>
          Server.value_of_modify_only hs' (Docs.only_upsert uuid _) hne
  | delete =>
    generalize s.ensurePeerWriteTarget path.tenant path.database path.collection = target at *
    obtain ⟨s₁, e | ⟨⟩⟩ := target
    · exact htarget
    · rw [← htarget]
      dsimp only
      split
      · rfl
      · exact valueAt_ackOf fun s' hs' =>
          Server.value_of_modify_only hs' (Docs.only_delete uuid) hne

theorem valueAt_handlePeerDataOp_delete (h : s.valueAt doc = none) :
    (handlePeerDataOp s path .delete).1.valueAt doc = none := by
  by_cases habout : path.About doc
  · obtain ⟨ht, hd, hc, hid⟩ := habout
    have htarget : (s.ensurePeerWriteTarget path.tenant path.database path.collection).1.valueAt
        doc = none := by
      rw [Server.valueAt, Server.value_ensurePeerWriteTarget]
      exact h
    unfold handlePeerDataOp
    simp only [hid]
    generalize s.ensurePeerWriteTarget path.tenant path.database path.collection = target at *
    obtain ⟨s₁, e | ⟨⟩⟩ := target
    · exact htarget
    · dsimp only
      split
      · exact htarget
      · unfold ackOf
        split
        · rename_i hmodify
          rw [Server.valueAt, ← ht, ← hd, ← hc]
          exact Server.value_of_modify hmodify fun docs docs' hok => Docs.get_of_delete hok
        · exact htarget
  · rw [valueAt_handlePeerDataOp _ habout, h]

theorem sendPeer_cases (fate : Fate) (s : Server) (path : PeerKeyPath) (op : PeerDataOp) :
    (sendPeer fate s path op).1 = s ∨
      (sendPeer fate s path op).1 = (handlePeerDataOp s path op).1 := by
  cases fate with
  | failed message => exact Or.inl rfl
  | lost message => exact Or.inr rfl
  | answered => exact Or.inr rfl

theorem valueAt_upsertPeerValue (h : ¬ path.About doc) :
    (upsertPeerValue fate s path valueJson).1.valueAt doc = s.valueAt doc := by
  show (sendPeer fate s path (.upsert valueJson)).1.valueAt doc = _
  rcases sendPeer_cases fate s path (.upsert valueJson) with heq | heq <;> rw [heq]
  exact valueAt_handlePeerDataOp _ h

theorem valueAt_deletePeerValue (h : s.valueAt doc = none) :
    (deletePeerValue fate s path).1.valueAt doc = none := by
  show (sendPeer fate s path .delete).1.valueAt doc = _
  rcases sendPeer_cases fate s path .delete with heq | heq <;> rw [heq]
  · exact h
  · exact valueAt_handlePeerDataOp_delete h

end Serving

end GrumpyDB
