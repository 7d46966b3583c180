/-
What a read returns.

A read with `R > 1` takes the text that most of the replicas that have one agree on, of equally
frequent ones the greatest. Nothing in this knows which value is the latest.
-/
import GrumpyDB.Cluster.WriteQuorum

namespace GrumpyDB

open List Option

def Fate.arrives : Fate → Bool
  | .answered => true
  | _ => false

section Reads

variable [SerdeJson]

variable {c : Coordinator} {sess : Session} {env : Env} {s : Cluster} {collection key : String}
  {id : Uuid}

/-! ### Votes -/

def Cluster.vote (s : Cluster) (sess : Session) (env : Env) (collection : String) (id : Uuid)
    (node : String) : Option String :=
  if (env.fetch node).arrives then
    ((s.servers node).value sess.tenant sess.database collection id).map valueToJsonString
  else none

def Cluster.votes (s : Cluster) (c : Coordinator) (sess : Session) (env : Env)
    (collection key : String) (id : Uuid) : List String :=
  (((s.servers c.localNodeId).value sess.tenant sess.database collection id).map
      valueToJson).toList ++
    ((c.replicaPeerNodesForKey sess.database collection key).filter fun node =>
      (c.peerAddrs.get? node).isSome).filterMap (s.vote sess env collection id)

variable {server : Server}

theorem fetchPeerValue_some {fate : Fate} {path : PeerKeyPath} {json : String}
    (hid : Uuid.tryParse (utf8 path.key) = some id) :
    fetchPeerValue fate server path = .ok (some json) ↔
      fate.arrives ∧ (server.value path.tenant path.database path.collection id).map
        valueToJsonString = some json := by
  cases fate with
  | failed message => simp [fetchPeerValue, sendPeer, Fate.arrives]
  | lost message => simp [fetchPeerValue, sendPeer, Fate.arrives]
  | answered =>
    simp only [fetchPeerValue, sendPeer, handlePeerDataOp, hid, Fate.arrives]
    rcases hvalue : server.value path.tenant path.database path.collection id with _ | v
    · -- no value: the answer is nil or an error
      rcases hdb : server.database path.tenant path.database with e | db
      · simp
      · rcases hget : server.get path.tenant path.database path.collection id with e | v
        · simp
        · rw [Server.get_eq_ok hget] at hvalue
          simp [hvalue]
    · obtain ⟨hget, db, hdb⟩ := Server.get_of_value hvalue
      simp [hdb, hget]

omit [SerdeJson] in
theorem answered_eq_some {r : Except String (Option String)} {json : String} :
    answered r = some json ↔ r = .ok (some json) := by
  unfold answered
  split <;> simp_all

theorem votes_eq (hid : Uuid.tryParse (utf8 key) = some id) :
    (((s.servers c.localNodeId).value sess.tenant sess.database collection id).map
      valueToJson).toList ++
      (fanoutReadPeerValues c sess env s collection key).filterMap (fun read => answered read.2) =
        s.votes c sess env collection key id := by
  unfold Cluster.votes fanoutReadPeerValues
  rw [filterMap_map]
  congr 1
  apply filterMap_congr
  intro node _
  show answered (fetchPeerValue (env.fetch node) (s.servers node) (keyPath sess collection key)) = _
  apply ext
  intro json
  have hpath : Uuid.tryParse (utf8 (keyPath sess collection key).key) = some id := hid
  rw [answered_eq_some, fetchPeerValue_some hpath, Cluster.vote]
  by_cases harrives : (env.fetch node).arrives <;> simp [keyPath]

theorem local_of_votes_nil (h : s.votes c sess env collection key id = []) :
    ((s.servers c.localNodeId).value sess.tenant sess.database collection id).map valueToJson =
      none := by
  rw [Cluster.votes, append_eq_nil_iff, toList_eq_nil_iff] at h
  exact h.1

variable [PayloadJson LwwSetPayload] [PayloadJson OrSetPayload] [PayloadJson MvrPayload]

variable {readConcern writeConcern : Option UInt16}

variable {result : Server × Response}

theorem executeCommand_get (h : executeCommand c sess server (.get collection key) = .ok result) :
    ∃ id, Uuid.tryParse (utf8 key) = some id ∧ result = (server,
      .bulk ((server.value sess.tenant sess.database collection id).map valueToJson)) := by
  simp only [executeCommand, except_bind_eq_ok, except_pure_eq_ok] at h
  obtain ⟨_, -, _, -, id, hkey, v, hget, rfl⟩ := h
  refine ⟨id, parseUuid_eq_ok.mp hkey, ?_⟩
  rw [Server.get_eq_ok (except_mapError_eq_ok.mp hget)]

theorem local_mem_of_executeCommand_get
    (h : executeCommand c sess server (.get collection key) = .ok result)
    (hne : c.owners sess.database collection key ≠ []) :
    c.localNodeId ∈ c.owners sess.database collection key := by
  simp only [executeCommand, except_bind_eq_ok] at h
  obtain ⟨_, -, _, hplace, -⟩ := h
  have hhead := Coordinator.enforceLocalOwner_eq_ok.mp hplace
  obtain ⟨owner, rest, heq⟩ := exists_cons_of_ne_nil hne
  rw [heq] at hhead ⊢
  rw [← hhead owner rfl]
  exact mem_cons_self

theorem handleCommand_read {r w : Nat} {req : Request} {localValue : Option String}
    (hpre : preflight c sess env (s.servers c.localNodeId) req = .ok (r, w))
    (hexec : executeCommand c sess (s.servers c.localNodeId) req.command =
      .ok (server, .bulk localValue)) :
    handleCommand c sess env s req =
      let converged := maybeConvergeReadQuorum c sess env (s.setServer c.localNodeId server)
        req.command.collection req.command.key r localValue
      ⟨converged.1, converged.2, []⟩ := by
  unfold handleCommand
  simp only [hpre, hexec]

end Reads

/-! ### Reads of the four nodes -/

namespace FourNodes

theorem preflight_three (s : Server) :
    preflight (coordinator 3) session calm s ⟨.get "docs" key, some 3, none⟩ = .ok (3, 1) := by
  have hconcerns : (coordinator 3).validateConcerns (some 3) none = .ok () := by decide +kernel
  have hlive : (coordinator 3).validateReadConcernForKey "db" "docs" key (some 3) = .ok () := by
    decide +kernel
  have hprobe : (coordinator 3).waitForReadAckQuorum calm "db" "docs" key 3 = .ok () := by
    decide +kernel
  simp only [preflight, except_bind_eq_ok]
  exact ⟨(), hconcerns, (some 3, none), rfl, (), rfl, (), hlive, (), hprobe, rfl⟩

theorem reachable_key : (((coordinator 3).replicaPeerNodesForKey "db" "docs" key).filter fun node =>
    ((coordinator 3).peerAddrs.get? node).isSome) = [(nodeId 4).toText, (nodeId 2).toText] := by
  decide +kernel

theorem value_server (d : Option Doc) :
    (server d).value "acme" "db" "docs" id = Docs.get (Function.update (fun _ => none) id d) id :=
  rfl

variable [SerdeJson]

variable [PayloadJson LwwSetPayload] [PayloadJson OrSetPayload] [PayloadJson MvrPayload]

variable {text : String} {json : Json}

theorem execute_get (d : Option Doc) :
    executeCommand (coordinator 3) session (server d) (.get "docs" key) =
      .ok (server d, .bulk (((server d).value "acme" "db" "docs" id).map valueToJson)) := by
  simp only [executeCommand, except_bind_eq_ok]
  exact ⟨_, rfl, _, placement_key rfl rfl, id, parseUuid_key, _,
    except_mapError_eq_ok.mpr (get_server d), rfl⟩

end FourNodes

end GrumpyDB
