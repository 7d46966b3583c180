/-
What reads write.

A read with `R > 1` writes its answer back to every replica that answered something else, or did
not answer; where that fails it leaves an intent, and a worker tries again. A replica without a
value does not vote, so a single copy that missed a delete wins, and is written to the replicas
that had acknowledged it.
-/
import GrumpyDB.Cluster.ReadQuorum

namespace GrumpyDB

open List Function Option

def ReadRepairIntent.path (intent : ReadRepairIntent) : PeerKeyPath :=
  ⟨intent.tenant, intent.database, intent.collection, intent.key⟩

/-- All nodes, and the intents their workers have drained and not tried yet. -/
structure RepairSystem where
  cluster : Cluster
  inFlight : String → List ReadRepairIntent

section Repairs

variable [SerdeJson]

/-! ### The worker -/

/-- What happens between the nodes after a delete: reads, and the rounds of the workers. -/
inductive ReadEvent where
  | get (c : Coordinator) (sess : Session) (env : Env) (collection key : String)
      (readConcern : Option UInt16)
  | drain (node : String)
  | retry (c : Coordinator) (env : Env)

namespace RepairSystem

def drainLimit : Nat := 64

def drain (sys : RepairSystem) (node : String) : RepairSystem :=
  match sys.inFlight node with
  | [] =>
    let queue := sys.cluster.repairs node
    ⟨{ sys.cluster with
        repairs := Function.update sys.cluster.repairs node (queue.drop drainLimit) },
      Function.update sys.inFlight node (queue.take drainLimit)⟩
  | _ :: _ => sys

def retry (sys : RepairSystem) (c : Coordinator) (env : Env) : RepairSystem :=
  match sys.inFlight c.localNodeId with
  | [] => sys
  | intent :: rest =>
    let inFlight := Function.update sys.inFlight c.localNodeId rest
    match repairPeerValue c env sys.cluster intent.targetNodeId intent.path intent.valueJson with
    | (s, .ok ()) => ⟨s, inFlight⟩
    | (s, .error _) => ⟨s.appendRepair c.localNodeId intent, inFlight⟩

section Run

variable [PayloadJson LwwSetPayload] [PayloadJson OrSetPayload] [PayloadJson MvrPayload]

def step (sys : RepairSystem) : ReadEvent → RepairSystem
  | .get c sess env collection key readConcern =>
    { sys with
      cluster := (handleCommand c sess env sys.cluster
        ⟨.get collection key, readConcern, none⟩).cluster }
  | .drain node => sys.drain node
  | .retry c env => sys.retry c env

def run (sys : RepairSystem) (events : List ReadEvent) : RepairSystem :=
  events.foldl step sys

end Run

end RepairSystem

theorem repairs_foldl_fanOutTo {c : Coordinator} {env : Env} (hint : HintRecord)
    (nodes : List String) (f : FanOut) :
    (nodes.foldl (fanOutTo c env hint) f).cluster.repairs = f.cluster.repairs := by
  induction nodes generalizing f with
  | nil => rfl
  | cons node nodes ih =>
    rw [foldl_cons, ih]
    unfold fanOutTo replayHintToPeer
    rcases c.peerAddrs.get? node with _ | addr
    · rfl
    · rcases deliverHint (env.write node) (f.cluster.servers node) hint with
        ⟨server, e | ⟨⟩⟩ <;> rfl

/-! ### A document that is gone -/

variable {replicas : List String} {doc : DocPath} {s : Cluster}

/-- No replica has the document, and no intent that is queued would bring it to one. -/
structure Cluster.Gone (replicas : List String) (doc : DocPath) (s : Cluster) : Prop where
  value : ∀ node ∈ replicas, (s.servers node).valueAt doc = none
  repairs : ∀ node, ∀ intent ∈ s.repairs node, intent.targetNodeId ∈ replicas →
    ¬ intent.path.About doc

namespace Cluster.Gone

omit [SerdeJson] in
theorem setServer (h : s.Gone replicas doc) {node : String} {server : Server}
    (hserver : node ∈ replicas → server.valueAt doc = none) :
    (s.setServer node server).Gone replicas doc := by
  refine ⟨?_, h.repairs⟩
  intro node' hnode'
  by_cases heq : node' = node
  · subst heq
    rw [servers_setServer_self]
    exact hserver hnode'
  · rw [servers_setServer_of_ne _ _ heq]
    exact h.value node' hnode'

omit [SerdeJson] in
theorem appendRepair (h : s.Gone replicas doc) (node : String) {intent : ReadRepairIntent}
    (hintent : intent.targetNodeId ∈ replicas → ¬ intent.path.About doc) :
    (s.appendRepair node intent).Gone replicas doc := by
  refine ⟨h.value, ?_⟩
  intro node' intent' hmem
  by_cases heq : node' = node
  · subst heq
    simp only [Cluster.appendRepair, update_self, mem_append,
      mem_singleton] at hmem
    rcases hmem with hmem | rfl
    · exact h.repairs node' intent' hmem
    · exact hintent
  · simp only [Cluster.appendRepair, update_of_ne heq] at hmem
    exact h.repairs node' intent' hmem

theorem repairPeerValue (h : s.Gone replicas doc) (c : Coordinator) (env : Env) (node : String)
    {path : PeerKeyPath} (valueJson : String) (hpath : node ∈ replicas → ¬ path.About doc) :
    (GrumpyDB.repairPeerValue c env s node path valueJson).1.Gone replicas doc := by
  unfold GrumpyDB.repairPeerValue
  split
  · exact h
  · refine h.setServer ?_
    intro hnode
    rw [valueAt_upsertPeerValue (hpath hnode)]
    exact h.value node hnode

variable {c : Coordinator} {sess : Session} {env : Env} {collection key canonical : String}

theorem convergeRemote (h : s.Gone replicas doc)
    (hother : ¬ (keyPath sess collection key).About doc)
    (read : String × Except String (Option String)) :
    (GrumpyDB.convergeRemote c sess env collection key canonical s read).Gone replicas doc := by
  have hrepair : (GrumpyDB.convergeRemote.repair c sess env collection key canonical s
      read).Gone replicas doc := by
    unfold GrumpyDB.convergeRemote.repair
    have hrepaired := h.repairPeerValue c env read.1 canonical fun _ => hother
    split <;> rename_i heq <;> rw [heq] at hrepaired
    · exact hrepaired
    · exact hrepaired.appendRepair _ fun _ => hother
  unfold GrumpyDB.convergeRemote
  split
  · split
    · exact h
    · exact hrepair
  · exact hrepair

theorem foldl_convergeRemote (hother : ¬ (keyPath sess collection key).About doc)
    (reads : List (String × Except String (Option String))) (h : s.Gone replicas doc) :
    (reads.foldl (GrumpyDB.convergeRemote c sess env collection key canonical) s).Gone
      replicas doc := by
  induction reads generalizing s with
  | nil => exact h
  | cons read reads ih => exact ih (h.convergeRemote hother read)

theorem valueAt_convergeLocal {server : Server}
    (hother : ¬ (keyPath sess collection key).About doc) :
    (convergeLocal sess server collection key canonical).valueAt doc = server.valueAt doc := by
  have hmodify {f : Docs → Except StoreError Docs} {uuid : Uuid} (hid : parseUuid key = .ok uuid)
      (hf : Docs.Only uuid f) :
      (((server.modify sess.tenant sess.database collection f).toOption).getD server).valueAt doc =
        server.valueAt doc := by
    rcases hs : server.modify sess.tenant sess.database collection f with e | server'
    · rfl
    · refine Server.value_of_modify_only hs hf ?_
      intro heq
      simp only [Prod.mk.injEq] at heq
      obtain ⟨ht, hd, hc, hk⟩ := heq
      exact hother ⟨ht.symm, hd.symm, hc.symm, hk ▸ parseUuid_eq_ok.mp hid⟩
  unfold convergeLocal
  split
  · rename_i uuid v hid hv
    split
    · exact hmodify hid (Docs.only_update uuid v)
    · exact hmodify hid (Docs.only_insert uuid v)
  · rfl

theorem maybeConvergeReadQuorum (h : s.Gone replicas doc)
    (hother : ¬ (keyPath sess collection key).About doc) (r : Nat) (localValue : Option String) :
    (GrumpyDB.maybeConvergeReadQuorum c sess env s collection key r localValue).1.Gone
      replicas doc := by
  unfold GrumpyDB.maybeConvergeReadQuorum
  split
  · exact h
  · dsimp only
    split
    · exact h
    · apply foldl_convergeRemote hother
      split
      · exact h
      · refine h.setServer ?_
        intro hlocal
        rw [valueAt_convergeLocal hother]
        exact h.value _ hlocal

theorem votes_eq_nil (h : s.Gone replicas doc) (env : Env)
    (habout : (keyPath sess collection key).About doc)
    (howners : c.owners sess.database collection key = replicas)
    (hlocal : c.localNodeId ∈ replicas) :
    s.votes c sess env collection key doc.id = [] := by
  obtain ⟨ht, hd, hc, -⟩ := habout
  have hvalue : ∀ node ∈ replicas,
      (s.servers node).value sess.tenant sess.database collection doc.id = none := by
    intro node hnode
    have := h.value node hnode
    rw [Server.valueAt, ← ht, ← hd, ← hc] at this
    exact this
  rw [Cluster.votes, hvalue _ hlocal, map_none, toList_none, nil_append,
    filterMap_eq_nil_iff]
  intro node hnode
  have hreplica := Coordinator.mem_replicaPeerNodesForKey.mp (mem_filter.mp hnode).1
  rw [Cluster.vote, hvalue node (howners ▸ hreplica.1), map_none, ite_self]

theorem maybeConvergeReadQuorum_gone {id : Uuid}
    (hid : Uuid.tryParse (utf8 key) = some id) (r : Nat)
    (hvotes : s.votes c sess env collection key id = []) :
    GrumpyDB.maybeConvergeReadQuorum c sess env s collection key r
      (((s.servers c.localNodeId).value sess.tenant sess.database collection id).map valueToJson) =
        (s, .bulk none) := by
  unfold GrumpyDB.maybeConvergeReadQuorum
  dsimp only
  rw [votes_eq hid, if_pos hvotes, ite_self, local_of_votes_nil hvotes]

end Cluster.Gone

namespace RepairSystem

/-- A document is gone for good: neither a replica nor an intent has it. -/
structure Gone (replicas : List String) (doc : DocPath) (sys : RepairSystem) : Prop where
  cluster : sys.cluster.Gone replicas doc
  inFlight : ∀ node, ∀ intent ∈ sys.inFlight node, intent.targetNodeId ∈ replicas →
    ¬ intent.path.About doc

variable {sys : RepairSystem}

omit [SerdeJson] in
theorem Gone.drain (h : sys.Gone replicas doc) (node : String) :
    (sys.drain node).Gone replicas doc := by
  unfold RepairSystem.drain
  split
  · refine ⟨⟨h.cluster.value, ?_⟩, ?_⟩
    · intro node' intent hmem
      by_cases heq : node' = node
      · subst heq
        simp only [update_self] at hmem
        exact h.cluster.repairs node' intent (mem_of_mem_drop hmem)
      · simp only [update_of_ne heq] at hmem
        exact h.cluster.repairs node' intent hmem
    · intro node' intent hmem
      by_cases heq : node' = node
      · subst heq
        simp only [update_self] at hmem
        exact h.cluster.repairs node' intent (mem_of_mem_take hmem)
      · simp only [update_of_ne heq] at hmem
        exact h.inFlight node' intent hmem
  · exact h

theorem Gone.retry (h : sys.Gone replicas doc) (c : Coordinator) (env : Env) :
    (sys.retry c env).Gone replicas doc := by
  unfold RepairSystem.retry
  split
  · exact h
  · rename_i intent rest hqueue
    have hintent := h.inFlight c.localNodeId intent (hqueue ▸ mem_cons_self)
    have hrest : ∀ node, ∀ intent ∈ update sys.inFlight c.localNodeId rest node,
        intent.targetNodeId ∈ replicas → ¬ intent.path.About doc := by
      intro node intent hmem
      by_cases heq : node = c.localNodeId
      · subst heq
        rw [update_self] at hmem
        exact h.inFlight _ intent (hqueue ▸ mem_cons_of_mem _ hmem)
      · rw [update_of_ne heq] at hmem
        exact h.inFlight node intent hmem
    have hrepaired := h.cluster.repairPeerValue c env _ intent.valueJson hintent
    split <;> rename_i heq <;> rw [heq] at hrepaired
    · exact ⟨hrepaired, hrest⟩
    · exact ⟨hrepaired.appendRepair _ hintent, hrest⟩

end RepairSystem

variable [PayloadJson LwwSetPayload] [PayloadJson OrSetPayload] [PayloadJson MvrPayload]

/-- **A read leaves a document that is gone as it is, and does not find it.** -/
theorem Cluster.Gone.get {c : Coordinator} {sess : Session} {env : Env} {collection key : String}
    (h : s.Gone replicas doc) (hne : replicas ≠ [])
    (howners : (keyPath sess collection key).About doc →
      c.owners sess.database collection key = replicas) (readConcern : Option UInt16) :
    let out := handleCommand c sess env s ⟨.get collection key, readConcern, none⟩
    out.cluster.Gone replicas doc ∧ ((keyPath sess collection key).About doc →
      ∀ reply, out.response = .bulk reply → reply = none) := by
  intro out
  rcases hpre : preflight c sess env (s.servers c.localNodeId)
    ⟨.get collection key, readConcern, none⟩ with e | ⟨r, w⟩
  · have hout : out = ⟨s, .error e, []⟩ := by simp [out, handleCommand, hpre]
    rw [hout]
    exact ⟨h, fun _ reply hreply => by cases hreply⟩
  rcases hexec : executeCommand c sess (s.servers c.localNodeId) (.get collection key)
    with e | result
  · have hout : out = ⟨s, .error e, []⟩ := by simp [out, handleCommand, hpre, hexec]
    rw [hout]
    exact ⟨h, fun _ reply hreply => by cases hreply⟩
  obtain ⟨id, hid, rfl⟩ := executeCommand_get hexec
  have hout := handleCommand_read hpre hexec
  rw [Cluster.setServer_self] at hout
  show (handleCommand _ _ _ _ _).cluster.Gone _ _ ∧ (_ → ∀ reply,
    (handleCommand _ _ _ _ _).response = _ → _)
  rw [hout]
  by_cases habout : (keyPath sess collection key).About doc
  · -- nobody votes, so nothing is written
    have hlocal := local_mem_of_executeCommand_get hexec (howners habout ▸ hne)
    rw [howners habout] at hlocal
    obtain rfl : id = doc.id := some.inj (hid.symm.trans habout.2.2.2)
    have hvotes := h.votes_eq_nil env habout (howners habout) hlocal
    have hgone := maybeConvergeReadQuorum_gone hid r hvotes
    dsimp only [Command.collection, Command.key]
    rw [hgone]
    exact ⟨h, fun _ reply hreply => (Response.bulk.inj hreply).symm⟩
  · exact ⟨h.maybeConvergeReadQuorum habout r _, fun hcontra => absurd hcontra habout⟩

def ReadEvent.Reads (replicas : List String) (doc : DocPath) : ReadEvent → Prop
  | .get c sess _ collection key _ =>
    (keyPath sess collection key).About doc → c.owners sess.database collection key = replicas
  | .drain _ | .retry _ _ => True

variable {sys : RepairSystem}

theorem RepairSystem.Gone.step (h : sys.Gone replicas doc) (hne : replicas ≠ [])
    {event : ReadEvent} (hevent : event.Reads replicas doc) :
    (sys.step event).Gone replicas doc := by
  cases event with
  | get c sess env collection key readConcern =>
    exact ⟨(h.cluster.get hne hevent readConcern).1, h.inFlight⟩
  | drain node => exact h.drain node
  | retry c env => exact h.retry c env

theorem RepairSystem.Gone.run (h : sys.Gone replicas doc) (hne : replicas ≠ [])
    {events : List ReadEvent} (hevents : ∀ event ∈ events, event.Reads replicas doc) :
    (sys.run events).Gone replicas doc := by
  induction events generalizing sys with
  | nil => exact h
  | cons event events ih =>
    refine ih (h.step hne (hevents event mem_cons_self)) ?_
    exact fun e he => hevents e (mem_cons_of_mem _ he)

/-! ### Deleting a document -/

section Deletes

variable {c : Coordinator} {sess : Session} {env : Env} {collection key : String} {id : Uuid}

theorem value_of_execute_delete {server server' : Server} {response : Response}
    (hid : Uuid.tryParse (utf8 key) = some id)
    (h : executeCommand c sess server (.delete collection key) = .ok (server', response)) :
    server'.value sess.tenant sess.database collection id = none := by
  cases (wrote_of_executeCommand h rfl).2 with
  | delete hkey hvalue =>
    obtain rfl := some.inj (hid.symm.trans (parseUuid_eq_ok.mp hkey))
    exact hvalue

theorem gone_of_delete {readConcern writeConcern : Option UInt16}
    (hid : Uuid.tryParse (utf8 key) = some id) :
    let out := handleCommand c sess env s ⟨.delete collection key, readConcern, writeConcern⟩
    let owners := c.owners sess.database collection key
    let doc : DocPath := ⟨sess.tenant, sess.database, collection, id⟩
    out.response = .ok "OK" →
    (∀ node ∈ owners, node ≠ c.localNodeId → node ∉ out.acked →
      (s.servers node).valueAt doc = none) →
    (∀ node, ∀ intent ∈ s.repairs node, intent.targetNodeId ∈ owners → ¬ intent.path.About doc) →
    owners ≠ [] ∧ out.cluster.Gone owners doc := by
  intro out owners doc hok hheld hrepairs
  obtain ⟨r, w, server, response, hpre, hexec⟩ := exists_of_response_ok hok
  have howner := mem_owners_of_executeCommand hexec rfl
  have hlocal := value_of_execute_delete hid hexec
  refine ⟨ne_nil_of_mem howner, ?_⟩
  by_cases hw : 2 ≤ w
  · obtain ⟨hcluster, hacked, -⟩ := handleCommand_sent hpre hexec rfl rfl hw
    obtain ⟨hsettled, huntouched⟩ := fanOutOf_spec c sess env s (.delete collection key) .delete
      server
    refine ⟨?_, ?_⟩
    · intro node hnode
      show ((handleCommand _ _ _ _ _).cluster.servers node).valueAt doc = none
      rw [hcluster]
      by_cases heq : node = c.localNodeId
      · subst heq
        have hself := (huntouched c.localNodeId
          fun h => (Coordinator.mem_replicaPeerNodesForKey.mp h).2 rfl).server
        rw [hself, Cluster.servers_setServer_self]
        exact hlocal
      · have hbefore := s.servers_setServer_of_ne server heq
        cases hsettled node (Coordinator.mem_replicaPeerNodesForKey.mpr ⟨hnode, heq⟩) with
        | acked hmem hdel hserver =>
          rw [hserver]
          exact value_of_delivered_delete hdel hid
        | owed hmem hfail hserver hhint =>
          have hnone : (s.servers node).valueAt doc = none := by
            refine hheld node hnode heq ?_
            show node ∉ (handleCommand _ _ _ _ _).acked
            rw [hacked]
            exact hmem
          rcases hserver with hserver | hserver <;> rw [hserver]
          · dsimp only
            rw [hbefore, hnone]
          · dsimp only
            rw [hbefore]
            exact valueAt_deletePeerValue hnone
    · show ∀ node, ∀ intent ∈ (handleCommand _ _ _ _ _).cluster.repairs node, _
      rw [hcluster, fanOutOf, repairs_foldl_fanOutTo]
      exact hrepairs
  · obtain ⟨hcluster, hacked, -⟩ := handleCommand_unsent hpre hexec rfl (by omega)
    show (handleCommand _ _ _ _ _).cluster.Gone owners doc
    rw [hcluster]
    refine ⟨?_, hrepairs⟩
    intro node hnode
    by_cases heq : node = c.localNodeId
    · subst heq
      rw [Cluster.servers_setServer_self]
      exact hlocal
    · rw [Cluster.servers_setServer_of_ne _ _ heq]
      refine hheld node hnode heq ?_
      show node ∉ (handleCommand _ _ _ _ _).acked
      rw [hacked]
      exact not_mem_nil

end Deletes

/-- **A deleted document stays deleted, and is not found, if every replica acknowledged the delete
or did not have the document, and no intent for it was waiting.** -/
theorem deleted_stays_deleted (c : Coordinator) (sess : Session) (env : Env) (sys : RepairSystem)
    (collection key : String) (id : Uuid) (readConcern writeConcern : Option UInt16)
    (events : List ReadEvent) (hid : Uuid.tryParse (utf8 key) = some id) :
    let out := handleCommand c sess env sys.cluster
      ⟨.delete collection key, readConcern, writeConcern⟩
    let owners := c.owners sess.database collection key
    let doc : DocPath := ⟨sess.tenant, sess.database, collection, id⟩
    out.response = .ok "OK" →
    (∀ node ∈ owners, node ≠ c.localNodeId → node ∉ out.acked →
      (sys.cluster.servers node).valueAt doc = none) →
    (∀ node, ∀ intent ∈ sys.cluster.repairs node ++ sys.inFlight node,
      intent.targetNodeId ∈ owners → ¬ intent.path.About doc) →
    (∀ event ∈ events, event.Reads owners doc) →
    let reached := ({ sys with cluster := out.cluster } : RepairSystem).run events
    (∀ node ∈ owners, (reached.cluster.servers node).valueAt doc = none) ∧
      ∀ c' sess' env' collection' key' readConcern' reply,
        (keyPath sess' collection' key').About doc →
        c'.owners sess'.database collection' key' = owners →
        (handleCommand c' sess' env' reached.cluster
          ⟨.get collection' key', readConcern', none⟩).response = .bulk reply → reply = none := by
  intro out owners doc hok hheld hqueued hevents reached
  obtain ⟨hne, hgone⟩ := gone_of_delete (s := sys.cluster) hid hok hheld fun node intent hmem =>
    hqueued node intent (mem_append_left _ hmem)
  have hstart : ({ sys with cluster := out.cluster } : RepairSystem).Gone owners doc :=
    ⟨hgone, fun node intent hmem => hqueued node intent (mem_append_right _ hmem)⟩
  have hreached := hstart.run hne hevents
  refine ⟨hreached.cluster.value, ?_⟩
  intro c' sess' env' collection' key' readConcern' reply habout howners hreply
  exact (hreached.cluster.get hne (fun _ => howners) readConcern').2 habout reply hreply

end Repairs

/-! ### Deletes on the four nodes -/

namespace FourNodes

/-- A network on which the third replica does not hear of writes. -/
def flaky : Env :=
  ⟨0, fun _ => none, fun _ => .answered,
    fun node => if node = (nodeId 2).toText then .failed "timeout" else .answered⟩

variable [SerdeJson]

theorem fetch_server (d : Option Doc) :
    fetchPeerValue .answered (server d) ⟨"acme", "db", "docs", key⟩ =
      .ok (((server d).value "acme" "db" "docs" id).map valueToJsonString) := by
  rfl

theorem fanout_key (s : Cluster) :
    fanoutReadPeerValues (coordinator 3) session calm s "docs" key =
      [(nodeId 4).toText, (nodeId 2).toText].map fun node =>
        (node, fetchPeerValue .answered (s.servers node) ⟨"acme", "db", "docs", key⟩) := by
  show ((((coordinator 3).replicaPeerNodesForKey "db" "docs" key).filter _).map _) = _
  rw [reachable_key]
  rfl

theorem converge_tombstone (canonical : String) :
    convergeLocal session (server (some .tombstone)) "docs" key canonical =
      server (some .tombstone) := by
  have hget : (server (some .tombstone)).get session.tenant session.database "docs" id =
    .ok none := by
    rw [session, get_server]
    simp [Docs.get]
  have hinsert (v : Value) : (server (some .tombstone)).modify session.tenant
    session.database "docs"
      (Docs.insert id v) = .error (.duplicateKey id) := by
    simp [Server.modify, Server.database, server, session, Docs.insert, bind, Except.bind]
  unfold convergeLocal
  rw [parseUuid_key]
  rcases parseJsonValue canonical with e | v
  · rfl
  · rfl

variable [PayloadJson LwwSetPayload] [PayloadJson OrSetPayload] [PayloadJson MvrPayload]

theorem delete_flaky :
    let out := handleCommand (coordinator 3) session flaky (cluster (some (.live .null)))
      ⟨.delete "docs" key, none, some 2⟩
    out.response = .ok "OK" ∧ (nodeId 4).toText ∈ out.acked ∧
      out.cluster.servers (coordinator 3).localNodeId = server (some .tombstone) ∧
      out.cluster.servers (nodeId 4).toText = server (some .tombstone) ∧
      out.cluster.servers (nodeId 2).toText = server (some (.live .null)) := by
  intro out
  have hexec := execute_delete .null
  have hpre : preflight (coordinator 3) session flaky (server (some (.live .null)))
      ⟨.delete "docs" key, none, some 2⟩ = .ok (1, 2) := preflight_two rfl rfl rfl flaky _
  have hne : (nodeId 4).toText ≠ (nodeId 2).toText := by decide +kernel
  have hanswered : flaky.write (nodeId 4).toText = .answered := by simp [flaky, hne]
  have hdel : deliverHint (flaky.write (nodeId 4).toText) (server (some (.live .null)))
      (hintOf session flaky (.delete "docs" key) .delete) = (server (some .tombstone), .ok ()) := by
    rw [hanswered]
    exact deliver_delete flaky .null rfl rfl
  obtain ⟨hok, hacked⟩ := response_ok_of_delivered flaky hexec rfl rfl rfl rfl
    (congrArg Prod.snd hdel)
  obtain ⟨-, hfour, hthree⟩ := delivered_of_acked (s := cluster (some (.live .null))) hpre hexec
    rfl rfl hacked
  refine ⟨hok, hacked, hthree, hfour.trans (congrArg Prod.fst hdel), ?_⟩
  -- the third replica does not hear of the delete
  have hmissed : deliverHint (flaky.write (nodeId 2).toText) (server (some (.live .null)))
      (hintOf session flaky (.delete "docs" key) .delete) =
      (server (some (.live .null)), .error "timeout") := by
    have hfailed : flaky.write (nodeId 2).toText = .failed "timeout" := by simp [flaky]
    rw [hfailed]
    rfl
  obtain ⟨hcluster, -, -⟩ := handleCommand_sent (s := cluster (some (.live .null))) hpre hexec rfl
    rfl le_rfl
  have hreplica : (nodeId 2).toText ∈ (coordinator 3).replicaPeerNodesForKey "db" "docs" key := by
    rw [replicas_key]
    simp
  have hlocal : (nodeId 2).toText ≠ (coordinator 3).localNodeId := by decide +kernel
  have hbefore := (cluster (some (.live .null))).servers_setServer_of_ne
    (server (some .tombstone)) hlocal
  show (handleCommand _ _ _ _ _).cluster.servers _ = _
  rw [hcluster]
  cases (fanOutOf_spec (coordinator 3) session flaky (cluster (some (.live .null)))
    (.delete "docs" key) .delete (server (some .tombstone))).1 _ hreplica with
  | acked hmem hdelivered hserver =>
    dsimp only at hdelivered
    rw [hbefore] at hdelivered
    cases (congrArg Prod.snd hmissed).symm.trans hdelivered
  | owed hmem hfail hserver hhint =>
    dsimp only at hserver
    rw [hbefore] at hserver
    rcases hserver with hserver | hserver
    · exact hserver
    · exact hserver.trans (congrArg Prod.fst hmissed)

omit [PayloadJson LwwSetPayload] [PayloadJson OrSetPayload] [PayloadJson MvrPayload] in
theorem converge_four {s : Cluster} {d : Option Doc} {canonical : String} {json : Json}
    (hfour : s.servers (nodeId 4).toText = server d)
    (hcanonical : SerdeJson.fromStr canonical = .ok json) :
    convergeRemote (coordinator 3) session calm "docs" key canonical s
      ((nodeId 4).toText, .ok none) =
        s.setServer (nodeId 4).toText (server (some (.live (jsonToValue json)))) := by
  obtain ⟨addr, haddr⟩ : ∃ addr, (coordinator 3).peerAddrs.get? (nodeId 4).toText = some addr :=
    isSome_iff_exists.mp (by decide +kernel)
  have hupsert : upsertPeerValue .answered (server d) ⟨"acme", "db", "docs", key⟩ canonical =
      (server (some (.live (jsonToValue json))), .ok ()) := by
    rw [upsertPeerValue, sendPeer, handle_upsert d hcanonical]
    rfl
  have hrepair : repairPeerValue (coordinator 3) calm s (nodeId 4).toText
      ⟨"acme", "db", "docs", key⟩ canonical =
      (s.setServer (nodeId 4).toText (server (some (.live (jsonToValue json)))), .ok ()) := by
    unfold repairPeerValue
    rw [haddr, hfour]
    show (s.setServer _ (upsertPeerValue .answered _ _ _).1,
      (upsertPeerValue .answered _ _ _).2) = _
    rw [hupsert]
  show convergeRemote.repair _ _ _ _ _ _ _ _ = _
  show (match repairPeerValue (coordinator 3) calm s (nodeId 4).toText
    ⟨"acme", "db", "docs", key⟩ canonical with | (s', .ok ()) => s' | (s', .error _) => _) = _
  rw [hrepair]

/-- A read with `R = 3` of a document that two replicas have deleted brings it back. -/
theorem read_stale {s : Cluster}
    (hthree : s.servers (coordinator 3).localNodeId = server (some .tombstone))
    (hfour : s.servers (nodeId 4).toText = server (some .tombstone))
    (htwo : s.servers (nodeId 2).toText = server (some (.live .null))) :
    let out := handleCommand (coordinator 3) session calm s ⟨.get "docs" key, some 3, none⟩
    out.response = .bulk (some (valueToJson .null)) ∧
      out.cluster.servers (nodeId 4).toText = server (some (.live .null)) := by
  have hreads : fanoutReadPeerValues (coordinator 3) session calm s "docs" key =
      [((nodeId 4).toText, .ok none),
        ((nodeId 2).toText, .ok (some (SerdeJson.toText .null)))] := by
    rw [fanout_key, map_cons, map_cons, hfour, htwo, fetch_server, fetch_server]
    rfl
  have hcanonical : chooseCanonicalJson [SerdeJson.toText .null] = SerdeJson.toText .null :=
    (plurality_eq_iff "" (by simp)).mpr (by simp [Wins])
  have hlocal : ((server (some .tombstone)).value "acme" "db" "docs" id).map valueToJson =
    none := by
    rw [value_server]
    simp [Docs.get]
  have hconverged : maybeConvergeReadQuorum (coordinator 3) session calm s "docs" key 3 none =
      (s.setServer (nodeId 4).toText (server (some (.live .null))),
        .bulk (some (SerdeJson.toText .null))) := by
    have hrepaired := converge_four hfour (SerdeJson.fromStr_toText .null trivial)
    unfold maybeConvergeReadQuorum
    rw [if_neg (by decide), hreads]
    simp only [toList_none, nil_append, filterMap_cons, filterMap_nil, answered,
      hcanonical, foldl_cons, foldl_nil, hthree, converge_tombstone]
    rw [← hthree, Cluster.setServer_self, ite_self, if_neg (by simp), hrepaired]
    simp [convergeRemote, jsonToValue]
  have hexec := execute_get (some .tombstone)
  rw [hlocal, ← hthree] at hexec
  intro out
  have hout : out = ⟨s.setServer (nodeId 4).toText (server (some (.live .null))),
      .bulk (some (SerdeJson.toText .null)), []⟩ := by
    show handleCommand _ _ _ _ _ = _
    rw [handleCommand_read (preflight_three _) hexec, Cluster.setServer_self]
    dsimp only [Command.collection, Command.key]
    rw [hconverged]
  rw [hout]
  exact ⟨rfl, Cluster.servers_setServer_self _ _ _⟩

end FourNodes

open FourNodes in
/-- A delete with `W = 2` that all replicas acknowledge, a read and a round of the worker. -/
theorem deleted_stays_deleted_calm :
    ∃ (_ : SerdeJson) (_ : PayloadJson LwwSetPayload) (_ : PayloadJson OrSetPayload)
      (_ : PayloadJson MvrPayload),
      let deleted := handleCommand (coordinator 3) session calm (cluster (some (.live .null)))
        ⟨.delete "docs" key, none, some 2⟩
      let reached := (⟨deleted.cluster, fun _ => []⟩ : RepairSystem).run
        [.get (coordinator 3) session calm "docs" key (some 3), .drain (coordinator 3).localNodeId,
          .retry (coordinator 3) calm]
      ∀ node ∈ (coordinator 3).owners "db" "docs" key,
        (reached.cluster.servers node).valueAt ⟨"acme", "db", "docs", id⟩ = none := by
  obtain ⟨⟨serde⟩, ⟨lww⟩, ⟨orSet⟩, ⟨mvr⟩⟩ := serializersExist
  refine ⟨serde, lww, orSet, mvr, ?_⟩
  have hexec := execute_delete .null
  have hdel : deliverHint .answered (server (some (.live .null)))
      (hintOf session calm (.delete "docs" key) .delete) = (server (some .tombstone), .ok ()) :=
    deliver_delete calm .null rfl rfl
  have hpre : preflight (coordinator 3) session calm (server (some (.live .null)))
      ⟨.delete "docs" key, none, some 2⟩ = .ok (1, 2) := preflight_two rfl rfl rfl calm _
  refine (deleted_stays_deleted (coordinator 3) session calm
    ⟨cluster (some (.live .null)), fun _ => []⟩ "docs" key id none (some 2) _ tryParse_key
    (response_ok_of_delivered calm hexec rfl rfl rfl rfl (congrArg Prod.snd hdel)).1 ?_ ?_ ?_).1
  · -- every other replica acknowledges
    intro node hnode hlocal hnot
    have hreplica := Coordinator.mem_replicaPeerNodesForKey.mpr ⟨hnode, hlocal⟩
    have haddr := peerAddrs_key node (replicas_key ▸ hreplica)
    exact absurd (acked_of_delivered (s := cluster (some (.live .null))) hpre hexec rfl rfl le_rfl
      hreplica haddr (congrArg Prod.snd hdel)) hnot
  · intro node intent hmem
    cases hmem
  · intro event hevent
    simp only [mem_cons, not_mem_nil, or_false] at hevent
    rcases hevent with rfl | rfl | rfl
    · exact fun _ => rfl
    · trivial
    · trivial

open FourNodes in
/-- **A read brings a deleted document back**: two of three replicas delete it, the third misses
the delete, and a read returns its copy and writes it to a replica that had acknowledged. -/
theorem deleted_comes_back : SerializersExist ∧
    ∀ (_ : SerdeJson) (_ : PayloadJson LwwSetPayload) (_ : PayloadJson OrSetPayload)
      (_ : PayloadJson MvrPayload),
      let deleted := handleCommand (coordinator 3) session flaky (cluster (some (.live .null)))
        ⟨.delete "docs" key, none, some 2⟩
      let read := handleCommand (coordinator 3) session calm deleted.cluster
        ⟨.get "docs" key, some 3, none⟩
      (coordinator 3).owners "db" "docs" key =
          [(nodeId 3).toText, (nodeId 4).toText, (nodeId 2).toText] ∧
        deleted.response = .ok "OK" ∧ (nodeId 4).toText ∈ deleted.acked ∧
        (deleted.cluster.servers (nodeId 4).toText).value "acme" "db" "docs" id = none ∧
        read.response = .bulk (some (valueToJson .null)) ∧
        (read.cluster.servers (nodeId 4).toText).value "acme" "db" "docs" id = some .null := by
  refine ⟨serializersExist, ?_⟩
  intro serde lww orSet mvr deleted read
  obtain ⟨hok, hacked, hthree, hfour, htwo⟩ := delete_flaky
  obtain ⟨hresponse, hback⟩ := read_stale hthree hfour htwo
  refine ⟨owners_key, hok, hacked, ?_, hresponse, ?_⟩
  · rw [hfour, value_server]
    simp [Docs.get]
  · rw [hback, value_server]
    simp [Docs.get]

end GrumpyDB
