/-
What a write leaves on the other replicas.

A write with `W > 1` is sent to every other replica of the key, and a hint is kept for each one
that does not acknowledge it; one with `W = 1`, the default, is sent to nobody. A replica that
acknowledges stores what it was sent, which for writes with a vector clock is the wrapper the
value was packed in.
-/
import GrumpyDB.Cluster.Placement

namespace GrumpyDB

open List Option

section Replication

variable {c : Coordinator} {sess : Session} {env : Env} {s : Cluster} {req : Request}

/-! ### What is known when a command is carried out -/

variable {server : Server} {r w : Nat}

theorem preflight_write (h : preflight c sess env server req = .ok (r, w))
    (hwrite : req.command.isWriteCommand) (hw : 2 ≤ w) :
    w ≤ (c.owners sess.database req.command.collection req.command.key).length := by
  simp only [preflight, except_bind_eq_ok] at h
  obtain ⟨_, -, ⟨r', w'⟩, -, _, hvalid, _, -, _, -, -, rfl⟩ := h
  -- the concern was given, for otherwise it would be 1
  have hsome : w'.isSome := by
    rcases w' with _ | x
    · simp [Coordinator.concern] at hw
    · rfl
  rw [validateWriteConcernRuntime, if_pos (by simp [hsome, hwrite])] at hvalid
  exact Coordinator.le_length_owners hvalid

variable [SerdeJson]

/-! ### Sending a write to the replicas -/

variable {hint : HintRecord}

/-- What became of a write for one replica: it was acknowledged, or a hint was kept. -/
inductive WriteSettled (c : Coordinator) (env : Env) (hint : HintRecord) (before after : FanOut)
    (node : String) : Prop
  | acked (hmem : node ∈ after.acked)
      (hok : (deliverHint (env.write node) (before.cluster.servers node) hint).2 = .ok ())
      (hserver : after.cluster.servers node =
        (deliverHint (env.write node) (before.cluster.servers node) hint).1)
  | owed (hmem : node ∉ after.acked)
      (hfail : c.peerAddrs.get? node = none ∨
        (deliverHint (env.write node) (before.cluster.servers node) hint).2 ≠ .ok ())
      (hserver : after.cluster.servers node = before.cluster.servers node ∨
        after.cluster.servers node =
          (deliverHint (env.write node) (before.cluster.servers node) hint).1)
      (hhint : after.cluster.hints c.localNodeId node =
        before.cluster.hints c.localNodeId node ++ [hint])

structure WriteUntouched (c : Coordinator) (before after : FanOut) (node : String) : Prop where
  acked : node ∈ after.acked ↔ node ∈ before.acked
  server : after.cluster.servers node = before.cluster.servers node
  hints : after.cluster.hints c.localNodeId node = before.cluster.hints c.localNodeId node

variable {f₁ f₂ f₃ : FanOut} {node : String}

omit [SerdeJson] in
theorem WriteUntouched.trans (h : WriteUntouched c f₁ f₂ node) (h' : WriteUntouched c f₂ f₃ node) :
    WriteUntouched c f₁ f₃ node :=
  ⟨h'.acked.trans h.acked, h'.server.trans h.server, h'.hints.trans h.hints⟩

theorem WriteUntouched.trans_settled (h : WriteUntouched c f₁ f₂ node)
    (h' : WriteSettled c env hint f₂ f₃ node) :
    WriteSettled c env hint f₁ f₃ node := by
  cases h' with
  | acked hmem hok hserver =>
    rw [h.server] at hok hserver
    exact .acked hmem hok hserver
  | owed hmem hfail hserver hhint =>
    rw [h.server] at hfail hserver
    exact .owed hmem hfail hserver (h.hints ▸ hhint)

theorem WriteSettled.trans_untouched (h : WriteSettled c env hint f₁ f₂ node)
    (h' : WriteUntouched c f₂ f₃ node) :
    WriteSettled c env hint f₁ f₃ node := by
  cases h with
  | acked hmem hok hserver => exact .acked (h'.acked.mpr hmem) hok (h'.server.trans hserver)
  | owed hmem hfail hserver hhint =>
    rw [← h'.server] at hserver
    exact .owed (mt h'.acked.mp hmem) hfail hserver (h'.hints.trans hhint)

theorem fanOutTo_self (f : FanOut) (hnew : node ∉ f.acked) :
    WriteSettled c env hint f (fanOutTo c env hint f node) node := by
  unfold fanOutTo replayHintToPeer
  rcases haddr : c.peerAddrs.get? node with _ | addr
  · exact .owed hnew (Or.inl haddr) (Or.inl rfl) (by simp [Cluster.appendHint])
  · rcases hdel : deliverHint (env.write node) (f.cluster.servers node) hint with ⟨server, e | ⟨⟩⟩
    · exact .owed hnew (Or.inr (by simp [hdel]))
        (Or.inr (by simp [Cluster.appendHint, hdel]))
        (by simp [Cluster.appendHint, Cluster.setServer])
    · exact .acked (by simp) (by rw [hdel]) (by simp [hdel])

theorem fanOutTo_other (f : FanOut) {node' : String} (hne : node' ≠ node) :
    WriteUntouched c f (fanOutTo c env hint f node) node' := by
  unfold fanOutTo replayHintToPeer
  rcases haddr : c.peerAddrs.get? node with _ | addr
  · exact ⟨Iff.rfl, rfl, by simp [Cluster.appendHint, hne]⟩
  · rcases hdel : deliverHint (env.write node) (f.cluster.servers node) hint with ⟨server, e | ⟨⟩⟩
    · exact ⟨Iff.rfl, by simp [Cluster.appendHint, Cluster.setServer, hne],
        by simp [Cluster.appendHint, Cluster.setServer, hne]⟩
    · exact ⟨by simp [hne], by simp [Cluster.setServer, hne], by simp [Cluster.setServer]⟩

theorem foldl_fanOutTo (c : Coordinator) (env : Env) (hint : HintRecord) {nodes : List String}
    (hnodup : nodes.Nodup) (f : FanOut)
    (hnew : ∀ node ∈ nodes, node ∉ f.acked) :
    (∀ node ∈ nodes, WriteSettled c env hint f (nodes.foldl (fanOutTo c env hint) f) node) ∧
      ∀ node ∉ nodes, WriteUntouched c f (nodes.foldl (fanOutTo c env hint) f) node := by
  induction nodes generalizing f with
  | nil => exact ⟨by simp, fun _ _ => ⟨Iff.rfl, rfl, rfl⟩⟩
  | cons node rest ih =>
    obtain ⟨hnode, hrest⟩ := nodup_cons.mp hnodup
    have hother : ∀ n ∈ rest, n ≠ node := fun n hn h => hnode (h ▸ hn)
    obtain ⟨hsettled, huntouched⟩ := ih hrest (fanOutTo c env hint f node) fun n hn => by
      rw [(fanOutTo_other f (hother n hn)).acked]
      exact hnew n (mem_cons_of_mem _ hn)
    refine ⟨?_, ?_⟩
    · intro n hn
      rcases mem_cons.mp hn with rfl | hn
      · exact (fanOutTo_self f (hnew n mem_cons_self)).trans_untouched (huntouched n hnode)
      · exact (fanOutTo_other f (hother n hn)).trans_settled (hsettled n hn)
    · intro n hn
      rw [mem_cons, not_or] at hn
      exact (fanOutTo_other f hn.1).trans (huntouched n hn.2)

variable {command : Command}

theorem exists_writeHintOperation (hwrite : command.isWriteCommand) :
    ∃ operation, writeHintOperation command = some operation := by
  cases command with
  | get collection key => cases hwrite
  | _ => exact ⟨_, rfl⟩

def fanOutOf (c : Coordinator) (sess : Session) (env : Env) (s : Cluster) (command : Command)
    (operation : HintOperation) (server : Server) : FanOut :=
  (c.replicaPeerNodesForKey sess.database command.collection command.key).foldl
    (fanOutTo c env (hintOf sess env command operation)) ⟨s.setServer c.localNodeId server, [], []⟩

/-- Each of the other replicas has acknowledged or is owed a hint, and no other node is touched. -/
theorem fanOutOf_spec (c : Coordinator) (sess : Session) (env : Env) (s : Cluster)
    (command : Command) (operation : HintOperation) (server : Server) :
    let before : FanOut := ⟨s.setServer c.localNodeId server, [], []⟩
    let after := fanOutOf c sess env s command operation server
    (∀ node ∈ c.replicaPeerNodesForKey sess.database command.collection command.key,
        WriteSettled c env (hintOf sess env command operation) before after node) ∧
      ∀ node ∉ c.replicaPeerNodesForKey sess.database command.collection command.key,
        WriteUntouched c before after node :=
  foldl_fanOutTo c env _ (c.nodup_replicaPeerNodesForKey _ _ _) _ (by simp)

theorem fromStr_wrapper (value vectorClock : String) :
    SerdeJson.fromStr (SerdeJson.toText (.object [("value", .string value),
      ("vector_clock", .string vectorClock)])) =
      .ok (.object [("value", .string value), ("vector_clock", .string vectorClock)]) := by
  apply SerdeJson.fromStr_toText
  simp only [Json.Plain, Json.PlainFields, pairwise_cons, mem_singleton, forall_eq]
  decide +kernel

theorem value_of_delivered_upsert {before : Server} {text : String} {id : Uuid} {json : Json}
    (h : (deliverHint (env.write node) before (hintOf sess env command (.upsert text))).2 = .ok ())
    (hid : Uuid.tryParse (utf8 command.key) = some id) (hjson : SerdeJson.fromStr text = .ok json) :
    (deliverHint (env.write node) before (hintOf sess env command (.upsert text))).1.value
      sess.tenant sess.database command.collection id = some (jsonToValue json) := by
  obtain ⟨uuid, json', huuid, hjson', hvalue⟩ := upsertPeerValue_acked h
  obtain rfl : id = uuid := some.inj (hid.symm.trans huuid)
  obtain rfl : json = json' := Except.ok.inj (hjson.symm.trans hjson')
  exact hvalue

theorem value_of_delivered_delete {before : Server} {id : Uuid}
    (h : (deliverHint (env.write node) before (hintOf sess env command .delete)).2 = .ok ())
    (hid : Uuid.tryParse (utf8 command.key) = some id) :
    (deliverHint (env.write node) before (hintOf sess env command .delete)).1.value
      sess.tenant sess.database command.collection id = none := by
  obtain ⟨uuid, huuid, hgone⟩ := deletePeerValue_acked h
  obtain rfl : id = uuid := some.inj (hid.symm.trans huuid)
  exact hgone

variable [PayloadJson LwwSetPayload] [PayloadJson OrSetPayload] [PayloadJson MvrPayload]

theorem mem_owners_of_executeCommand {result : Server × Response}
    (h : executeCommand c sess server command = .ok result) (hwrite : command.isWriteCommand) :
    c.localNodeId ∈ c.owners sess.database command.collection command.key := by
  simp only [executeCommand, except_bind_eq_ok] at h
  obtain ⟨_, -, _, hplace, -⟩ := h
  cases command with
  | get collection key => cases hwrite
  | _ => exact Coordinator.enforceLocalWriteReplica_eq_ok.mp hplace

/-- What a write leaves in the local store. -/
inductive Wrote (sess : Session) (server : Server) : Command → Prop
  | insert {collection key text : String} {uuid : Uuid} {v : Value}
      (hkey : parseUuid key = .ok uuid)
      (hparse : parseJsonValue text = .ok v)
      (hvalue : server.value sess.tenant sess.database collection uuid = some v) :
      Wrote sess server (.insert collection key text)
  | update {collection key text : String} {uuid : Uuid} {v : Value}
      (hkey : parseUuid key = .ok uuid)
      (hparse : parseJsonValue text = .ok v)
      (hvalue : server.value sess.tenant sess.database collection uuid = some v) :
      Wrote sess server (.update collection key text)
  | delete {collection key : String} {uuid : Uuid} (hkey : parseUuid key = .ok uuid)
      (hvalue : server.value sess.tenant sess.database collection uuid = none) :
      Wrote sess server (.delete collection key)
  | putWithVc {collection key text vectorClock : String} {uuid : Uuid} {v stored : Value}
      (hkey : parseUuid key = .ok uuid) (hparse : parseJsonValue text = .ok v)
      (hvalue : server.value sess.tenant sess.database collection uuid = some stored)
      (hstored : stored = v ∨ stored.isCrdt ∧ v.isCrdt) :
      Wrote sess server (.putWithVc collection key text vectorClock)

variable {server' : Server}

omit [SerdeJson] in
theorem value_of_putReconciled {collection : String} {uuid : Uuid} {v : Value}
    (h : server.putReconciled sess collection uuid v = .ok server') :
    ∃ stored, server'.value sess.tenant sess.database collection uuid = some stored ∧
      (stored = v ∨ stored.isCrdt ∧ v.isCrdt) := by
  simp only [Server.putReconciled, except_bind_eq_ok] at h
  obtain ⟨existing, -, h⟩ := h
  rcases existing with _ | existing
  · -- nothing there, or a tombstone
    refine ⟨v, Server.value_of_modify (except_mapError_eq_ok.mp h) ?_, Or.inl rfl⟩
    exact fun docs docs' hok => Docs.get_of_upsert hok
  · simp only [except_bind_eq_ok] at h
    obtain ⟨stored, hstored, h⟩ := h
    refine ⟨stored, Server.value_of_modify (except_mapError_eq_ok.mp h) ?_, ?_⟩
    · exact fun docs docs' hok => Docs.get_of_update hok
    · unfold reconcile at hstored
      split at hstored
      · rename_i hcrdt
        have hmerged := Crdt.isCrdt_of_mergeValues (except_mapError_eq_ok.mp hstored)
        exact Or.inr ⟨hmerged, (Bool.and_eq_true_iff.mp hcrdt).2⟩
      · exact Or.inl (Except.ok.inj hstored).symm

variable {response : Response}

theorem wrote_of_executeCommand
    (h : executeCommand c sess server command = .ok (server', response))
    (hwrite : command.isWriteCommand) : response = .ok "OK" ∧ Wrote sess server' command := by
  simp only [executeCommand, except_bind_eq_ok] at h
  obtain ⟨_, -, _, -, h⟩ := h
  cases command with
  | get collection key => cases hwrite
  | insert collection key text =>
    simp only [except_bind_eq_ok] at h
    obtain ⟨uuid, hkey, v, hparse, _, hmodify, rfl, rfl⟩ := h
    refine ⟨rfl, .insert hkey hparse (Server.value_of_modify (except_mapError_eq_ok.mp hmodify) ?_)⟩
    exact fun docs docs' hok => Docs.get_of_insert hok
  | update collection key text =>
    simp only [except_bind_eq_ok] at h
    obtain ⟨uuid, hkey, v, hparse, _, hmodify, rfl, rfl⟩ := h
    refine ⟨rfl, .update hkey hparse (Server.value_of_modify (except_mapError_eq_ok.mp hmodify) ?_)⟩
    exact fun docs docs' hok => Docs.get_of_update hok
  | delete collection key =>
    simp only [except_bind_eq_ok] at h
    obtain ⟨uuid, hkey, _, hmodify, rfl, rfl⟩ := h
    refine ⟨rfl, .delete hkey (Server.value_of_modify (except_mapError_eq_ok.mp hmodify) ?_)⟩
    exact fun docs docs' hok => Docs.get_of_delete hok
  | putWithVc collection key text vectorClock =>
    simp only [except_bind_eq_ok] at h
    obtain ⟨_, -, uuid, hkey, v, hparse, _, hput, rfl, rfl⟩ := h
    obtain ⟨stored, hvalue, hstored⟩ := value_of_putReconciled hput
    exact ⟨rfl, .putWithVc hkey hparse hvalue hstored⟩

theorem handleCommand_write (hpre : preflight c sess env (s.servers c.localNodeId) req = .ok (r, w))
    (hexec : executeCommand c sess (s.servers c.localNodeId) req.command = .ok (server, response))
    (hwrite : req.command.isWriteCommand) :
    let sent := waitForWriteAckQuorum c sess env (s.setServer c.localNodeId server) req.command w
    (handleCommand c sess env s req).cluster = sent.1.cluster ∧
      (handleCommand c sess env s req).acked = sent.1.acked ∧
      ((handleCommand c sess env s req).response = .ok "OK" ↔ sent.2 = .ok ()) := by
  obtain ⟨rfl, -⟩ := wrote_of_executeCommand hexec hwrite
  unfold handleCommand
  rw [hpre]
  dsimp only
  rw [hexec]
  dsimp only
  rcases waitForWriteAckQuorum c sess env (s.setServer c.localNodeId server) req.command w
    with ⟨f, e | ⟨⟩⟩
  · exact ⟨rfl, rfl, by simp⟩
  · exact ⟨rfl, rfl, by simp⟩

variable {operation : HintOperation}

theorem handleCommand_sent (hpre : preflight c sess env (s.servers c.localNodeId) req = .ok (r, w))
    (hexec : executeCommand c sess (s.servers c.localNodeId) req.command = .ok (server, response))
    (hwrite : req.command.isWriteCommand) (hop : writeHintOperation req.command = some operation)
    (hw : 2 ≤ w) :
    let f := fanOutOf c sess env s req.command operation server
    (handleCommand c sess env s req).cluster = f.cluster ∧
      (handleCommand c sess env s req).acked = f.acked ∧
      ((handleCommand c sess env s req).response = .ok "OK" ↔ w ≤ 1 + f.acked.length) := by
  obtain ⟨hcluster, hacked, hresponse⟩ := handleCommand_write hpre hexec hwrite
  -- the concern is covered, so the write is sent
  have henough : ¬ (c.replicaPeerNodesForKey sess.database req.command.collection
      req.command.key).length < w - 1 := by
    have hle := preflight_write hpre hwrite hw
    have hlen := Coordinator.length_replicaPeerNodesForKey
      (mem_owners_of_executeCommand hexec hwrite)
    omega
  have hsent : (waitForWriteAckQuorum c sess env (s.setServer c.localNodeId server)
      req.command w).1 = fanOutOf c sess env s req.command operation server ∧
      ((waitForWriteAckQuorum c sess env (s.setServer c.localNodeId server) req.command w).2 =
        .ok () ↔ w ≤ 1 + (fanOutOf c sess env s req.command operation server).acked.length) := by
    unfold waitForWriteAckQuorum
    rw [if_neg (by omega), hop]
    dsimp only
    rw [if_neg henough]
    split
    · rename_i hle
      exact ⟨rfl, iff_of_true rfl hle⟩
    · rename_i hlt
      exact ⟨rfl, iff_of_false (by simp) hlt⟩
  rw [hcluster, hacked, hresponse, hsent.1, hsent.2]
  exact ⟨rfl, rfl, Iff.rfl⟩

theorem handleCommand_unsent
    (hpre : preflight c sess env (s.servers c.localNodeId) req = .ok (r, w))
    (hexec : executeCommand c sess (s.servers c.localNodeId) req.command = .ok (server, response))
    (hwrite : req.command.isWriteCommand) (hw : w ≤ 1) :
    (handleCommand c sess env s req).cluster = s.setServer c.localNodeId server ∧
      (handleCommand c sess env s req).acked = [] ∧
      (handleCommand c sess env s req).response = .ok "OK" := by
  obtain ⟨hcluster, hacked, hresponse⟩ := handleCommand_write hpre hexec hwrite
  have hsent : waitForWriteAckQuorum c sess env (s.setServer c.localNodeId server) req.command w =
      (⟨s.setServer c.localNodeId server, [], []⟩, .ok ()) := by
    rw [waitForWriteAckQuorum, if_pos hw]
  rw [hcluster, hacked, hresponse, hsent]
  exact ⟨rfl, rfl, rfl⟩

/-- When the reply to a write is sent, a replica has acknowledged it or is owed a hint for it. -/
def ReachedOrOwed (c : Coordinator) (sess : Session) (env : Env) (s : Cluster) (req : Request)
    (node : String) : Prop :=
  node ∈ (handleCommand c sess env s req).acked ∨
    ∃ operation, writeHintOperation req.command = some operation ∧
      (handleCommand c sess env s req).cluster.hints c.localNodeId node =
        s.hints c.localNodeId node ++ [hintOf sess env req.command operation]

/-- **A write carried out on a replica reaches, or is owed to, every other replica exactly if its
write concern is above 1**, or there is no other replica. -/
theorem write_reaches_or_owed_iff (c : Coordinator) (sess : Session) (env : Env) (s : Cluster)
    (req : Request) (r w : Nat) (server : Server) (response : Response)
    (hwrite : req.command.isWriteCommand)
    (hpre : preflight c sess env (s.servers c.localNodeId) req = .ok (r, w))
    (hexec : executeCommand c sess (s.servers c.localNodeId) req.command =
      .ok (server, response)) :
    (∀ node ∈ c.owners sess.database req.command.collection req.command.key,
        node ≠ c.localNodeId → ReachedOrOwed c sess env s req node) ↔
      2 ≤ w ∨ ∀ node ∈ c.owners sess.database req.command.collection req.command.key,
        node = c.localNodeId := by
  constructor
  · intro h
    by_cases hw : 2 ≤ w
    · exact Or.inl hw
    · right
      intro node hnode
      by_contra hne
      obtain ⟨hcluster, hacked, -⟩ := handleCommand_unsent hpre hexec hwrite (by omega)
      rcases h node hnode hne with hmem | ⟨operation, -, hhint⟩
      · rw [hacked] at hmem
        cases hmem
      · rw [hcluster] at hhint
        simp [Cluster.setServer] at hhint
  · rintro (hw | hall) node hnode hne
    · obtain ⟨operation, hop⟩ := exists_writeHintOperation hwrite
      obtain ⟨hcluster, hacked, -⟩ := handleCommand_sent hpre hexec hwrite hop hw
      have hreplica := Coordinator.mem_replicaPeerNodesForKey.mpr ⟨hnode, hne⟩
      unfold ReachedOrOwed
      rw [hcluster, hacked]
      cases (fanOutOf_spec c sess env s req.command operation server).1 node hreplica with
      | acked hmem hok hserver => exact Or.inl hmem
      | owed hmem hfail hserver hhint => exact Or.inr ⟨operation, hop, hhint⟩
    · exact absurd (hall node hnode) hne

/-! ### What acknowledging replicas store -/

theorem exists_of_response_ok (h : (handleCommand c sess env s req).response = .ok "OK") :
    ∃ r w server response, preflight c sess env (s.servers c.localNodeId) req = .ok (r, w) ∧
      executeCommand c sess (s.servers c.localNodeId) req.command = .ok (server, response) := by
  unfold handleCommand at h
  rcases hpre : preflight c sess env (s.servers c.localNodeId) req with e | ⟨r, w⟩
  · simp [hpre] at h
  · rcases hexec : executeCommand c sess (s.servers c.localNodeId) req.command with e | ⟨srv, resp⟩
    · simp [hpre, hexec] at h
    · exact ⟨r, w, srv, resp, rfl, rfl⟩

theorem delivered_of_acked (hpre : preflight c sess env (s.servers c.localNodeId) req = .ok (r, w))
    (hexec : executeCommand c sess (s.servers c.localNodeId) req.command = .ok (server, response))
    (hwrite : req.command.isWriteCommand) (hop : writeHintOperation req.command = some operation)
    (hacked : node ∈ (handleCommand c sess env s req).acked) :
    let delivered := deliverHint (env.write node) (s.servers node)
      (hintOf sess env req.command operation)
    delivered.2 = .ok () ∧ (handleCommand c sess env s req).cluster.servers node = delivered.1 ∧
      (handleCommand c sess env s req).cluster.servers c.localNodeId = server := by
  -- only a write with `W > 1` is acknowledged by anyone
  have hw : 2 ≤ w := by
    by_contra hlt
    rw [(handleCommand_unsent hpre hexec hwrite (by omega)).2.1] at hacked
    cases hacked
  obtain ⟨hcluster, hackedEq, -⟩ := handleCommand_sent hpre hexec hwrite hop hw
  obtain ⟨hsettled, huntouched⟩ := fanOutOf_spec c sess env s req.command operation server
  rw [hackedEq] at hacked
  rw [hcluster]
  have hreplica : node ∈ c.replicaPeerNodesForKey sess.database req.command.collection
      req.command.key := by
    by_contra hnot
    have := (huntouched node hnot).acked.mp hacked
    cases this
  have hne := (Coordinator.mem_replicaPeerNodesForKey.mp hreplica).2
  have hbefore : (s.setServer c.localNodeId server).servers node = s.servers node := by
    simp [Cluster.setServer, hne]
  have hlocal := huntouched c.localNodeId
    (fun h => (Coordinator.mem_replicaPeerNodesForKey.mp h).2 rfl)
  cases hsettled node hreplica with
  | acked hmem hok hserver =>
    rw [← hbefore]
    exact ⟨hok, hserver, hlocal.server.trans (by simp [Cluster.setServer])⟩
  | owed hmem hfail hserver hhint => exact absurd hacked hmem

/-- The values of two nodes agree: they are equal, or CRDT values with the same decoded payload. -/
def AgreeUpToPayload : Option Value → Option Value → Prop
  | some (.crdt kind p), some (.crdt kind' q) => kind = kind' ∧ Crdt.SamePayload kind p q
  | v, v' => v = v'

omit [SerdeJson] in
theorem AgreeUpToPayload.refl (v : Option Value) : AgreeUpToPayload v v := by
  unfold AgreeUpToPayload
  split
  · exact ⟨rfl, Crdt.SamePayload.refl _ _⟩
  · rfl

omit [SerdeJson] in
theorem agrees_iff_of_ne {v : Option Value} {p : Prop} (hp : p) : AgreeUpToPayload v v ↔ p :=
  iff_of_true (.refl v) hp

theorem eq_wrapper_of_agree {stored : Value} {text vectorClock : String}
    (h : AgreeUpToPayload (some stored) (some (jsonToValue (.object [("value", .string text),
      ("vector_clock", .string vectorClock)])))) :
    stored = .object [("value", .string text), ("vector_clock", .string vectorClock)] := by
  have hwrapper : jsonToValue (.object [("value", .string text),
      ("vector_clock", .string vectorClock)]) =
      .object [("value", .string text), ("vector_clock", .string vectorClock)] := by
    simp [jsonToValue, crdtOfFields, Json.get?, jsonToFields]
  cases stored <;> exact some.inj h

/-- **A replica that acknowledged a write agrees with the coordinator exactly if the write was not
one with a vector clock.** -/
theorem acked_replica_agrees_iff (c : Coordinator) (sess : Session) (env : Env) (s : Cluster)
    (req : Request) (node : String) (id : Uuid) (hwrite : req.command.isWriteCommand)
    (hid : Uuid.tryParse (utf8 req.command.key) = some id)
    (hok : (handleCommand c sess env s req).response = .ok "OK")
    (hacked : node ∈ (handleCommand c sess env s req).acked) :
    let value n := ((handleCommand c sess env s req).cluster.servers n).value sess.tenant
      sess.database req.command.collection id
    AgreeUpToPayload (value c.localNodeId) (value node) ↔
      ∀ collection key text vectorClock,
        req.command ≠ .putWithVc collection key text vectorClock := by
  obtain ⟨r, w, server, response, hpre, hexec⟩ := exists_of_response_ok hok
  obtain ⟨operation, hop⟩ := exists_writeHintOperation hwrite
  obtain ⟨hdel, hnode, hlocal⟩ := delivered_of_acked hpre hexec hwrite hop hacked
  obtain ⟨-, hwrote⟩ := wrote_of_executeCommand hexec hwrite
  dsimp only
  rw [hnode, hlocal]
  clear hok hacked hnode hlocal hexec hpre
  obtain ⟨command, readConcern, writeConcern⟩ := req
  dsimp only at *
  cases hwrote with
  | insert hkey hparse hvalue | update hkey hparse hvalue =>
    obtain rfl := some.inj hop
    obtain rfl := some.inj (hid.symm.trans (parseUuid_eq_ok.mp hkey))
    obtain ⟨json, hjson, rfl⟩ := parseJsonValue_eq_ok.mp hparse
    rw [value_of_delivered_upsert hdel hid hjson]
    dsimp only [Command.collection]
    rw [hvalue]
    exact agrees_iff_of_ne (by simp)
  | delete hkey hvalue =>
    obtain rfl := some.inj hop
    obtain rfl := some.inj (hid.symm.trans (parseUuid_eq_ok.mp hkey))
    rw [value_of_delivered_delete hdel hid]
    dsimp only [Command.collection]
    rw [hvalue]
    exact agrees_iff_of_ne (by simp)
  | putWithVc hkey hparse hvalue hstored =>
    obtain rfl := some.inj hop
    obtain rfl := some.inj (hid.symm.trans (parseUuid_eq_ok.mp hkey))
    obtain ⟨json, hjson, rfl⟩ := parseJsonValue_eq_ok.mp hparse
    rw [value_of_delivered_upsert hdel hid (fromStr_wrapper _ _)]
    dsimp only [Command.collection]
    rw [hvalue]
    refine iff_of_false ?_ (fun h => h _ _ _ _ rfl)
    intro hagree
    obtain rfl := eq_wrapper_of_agree hagree
    rcases hstored with hstored | ⟨hcrdt, -⟩
    · exact string_not_mem_fields hjson hstored.symm (mem_cons_self)
    · cases hcrdt

theorem acked_of_delivered (hpre : preflight c sess env (s.servers c.localNodeId) req = .ok (r, w))
    (hexec : executeCommand c sess (s.servers c.localNodeId) req.command = .ok (server, response))
    (hwrite : req.command.isWriteCommand) (hop : writeHintOperation req.command = some operation)
    (hw : 2 ≤ w) (hreplica : node ∈ c.replicaPeerNodesForKey sess.database req.command.collection
      req.command.key) (haddr : c.peerAddrs.get? node ≠ none)
    (hdel : (deliverHint (env.write node) (s.servers node)
      (hintOf sess env req.command operation)).2 = .ok ()) :
    node ∈ (handleCommand c sess env s req).acked := by
  have hne := (Coordinator.mem_replicaPeerNodesForKey.mp hreplica).2
  rw [(handleCommand_sent hpre hexec hwrite hop hw).2.1]
  cases (fanOutOf_spec c sess env s req.command operation server).1 node hreplica with
  | acked hmem hok hserver => exact hmem
  | owed hmem hfail hserver hhint =>
    rcases hfail with hnone | hfail
    · exact absurd hnone haddr
    · have hbefore : (s.setServer c.localNodeId server).servers node = s.servers node := by
        simp [Cluster.setServer, hne]
      rw [hbefore] at hfail
      exact absurd hdel hfail

end Replication

/-! ### Four nodes with one document -/

def SerializersExist : Prop :=
  Nonempty SerdeJson ∧ Nonempty (PayloadJson LwwSetPayload) ∧ Nonempty (PayloadJson OrSetPayload) ∧
    Nonempty (PayloadJson MvrPayload)

theorem serializersExist : SerializersExist :=
  ⟨SerdeJson.nonempty, PayloadJson.nonempty_payloads⟩

namespace FourNodes

variable [SerdeJson]

theorem parseUuid_key : parseUuid key = .ok id := by
  rw [parseUuid, tryParse_key]

variable {command : Command}

omit [SerdeJson] in
theorem preflight_of_live (hcollection : command.collection = "docs") (hkey : command.key = key)
    (hwrite : command.isWriteCommand) {w : UInt16}
    (hconcerns : (coordinator 3).validateConcerns none (some w) = .ok ())
    (hlive : (coordinator 3).validateWriteConcernForKey "db" "docs" key (some w) = .ok ())
    (env : Env) (s : Server) :
    preflight (coordinator 3) session env s ⟨command, none, some w⟩ =
      .ok (1, Coordinator.concern (some w)) := by
  simp only [preflight, except_bind_eq_ok]
  refine ⟨(), ?_, (none, some w), rfl, (), ?_, (), ?_, (), ?_, rfl⟩
  · rw [validateConsistencyCommand, if_neg (by simp), if_neg (by simp [hwrite])]
    exact hconcerns
  · rw [validateWriteConcernRuntime, if_pos (by simp [hwrite]), hcollection, hkey]
    exact hlive
  · rfl
  · rw [waitForReadAckQuorum, if_pos hwrite]

omit [SerdeJson] in
theorem preflight_two (hcollection : command.collection = "docs") (hkey : command.key = key)
    (hwrite : command.isWriteCommand) (env : Env) (s : Server) :
    preflight (coordinator 3) session env s ⟨command, none, some 2⟩ = .ok (1, 2) :=
  preflight_of_live hcollection hkey hwrite (by decide +kernel) (by decide +kernel) env s

variable {text : String} {json : Json}

theorem handle_upsert (d : Option Doc) (htext : SerdeJson.fromStr text = .ok json) :
    handlePeerDataOp (server d) ⟨"acme", "db", "docs", key⟩ (.upsert text) =
      (server (some (.live (jsonToValue json))), .ack) := by
  have hmodify : (server d).modify "acme" "db" "docs" (Docs.upsert id (jsonToValue json)) =
      .ok (server (some (.live (jsonToValue json)))) := by
    apply modify_server
    rw [Docs.upsert_eq, Function.update_idem]
  unfold handlePeerDataOp
  simp only [tryParse_key, ensurePeerWriteTarget_server, htext, hmodify, ackOf]

omit [SerdeJson] in
theorem modify_delete (v : Value) : (server (some (.live v))).modify "acme" "db" "docs"
    (Docs.delete id) = .ok (server (some .tombstone)) := by
  apply modify_server
  rw [Docs.delete_of_live (Function.update_self id _ _), Function.update_idem]

theorem handle_delete (v : Value) :
    handlePeerDataOp (server (some (.live v))) ⟨"acme", "db", "docs", key⟩ .delete =
      (server (some .tombstone), .ack) := by
  unfold handlePeerDataOp
  simp only [tryParse_key, ensurePeerWriteTarget_server, modify_delete, ackOf]

theorem deliver_upsert (env : Env) (d : Option Doc) (hcollection : command.collection = "docs")
    (hkey : command.key = key) (htext : SerdeJson.fromStr text = .ok json) :
    deliverHint .answered (server d) (hintOf session env command (.upsert text)) =
      (server (some (.live (jsonToValue json))), .ok ()) := by
  show upsertPeerValue .answered (server d) ⟨"acme", "db", command.collection, command.key⟩ text = _
  rw [hcollection, hkey, upsertPeerValue, sendPeer, handle_upsert d htext]
  rfl

theorem deliver_delete (env : Env) (v : Value) (hcollection : command.collection = "docs")
    (hkey : command.key = key) :
    deliverHint .answered (server (some (.live v))) (hintOf session env command .delete) =
      (server (some .tombstone), .ok ()) := by
  show deletePeerValue .answered (server (some (.live v)))
    ⟨"acme", "db", command.collection, command.key⟩ = _
  rw [hcollection, hkey, deletePeerValue, sendPeer, handle_delete]
  rfl

variable [PayloadJson LwwSetPayload] [PayloadJson OrSetPayload] [PayloadJson MvrPayload]

/-- With `W = 2`, a write that the second replica takes is acknowledged by it and answered with
OK. -/
theorem response_ok_of_delivered (env : Env) {d : Option Doc} {operation : HintOperation}
    {server' : Server} {response : Response}
    (hexec : executeCommand (coordinator 3) session (server d) command = .ok (server', response))
    (hcollection : command.collection = "docs") (hkey : command.key = key)
    (hwrite : command.isWriteCommand) (hop : writeHintOperation command = some operation)
    (hdel : (deliverHint (env.write (nodeId 4).toText) (server d)
      (hintOf session env command operation)).2 = .ok ()) :
    let out := handleCommand (coordinator 3) session env (cluster d) ⟨command, none, some 2⟩
    out.response = .ok "OK" ∧ (nodeId 4).toText ∈ out.acked := by
  have hpre := preflight_two hcollection hkey hwrite env (server d)
  have hreplica : (nodeId 4).toText ∈ (coordinator 3).replicaPeerNodesForKey session.database
      command.collection command.key := by
    rw [hcollection, hkey]
    exact replicas_key ▸ mem_cons_self
  have hacked := acked_of_delivered (s := cluster d) hpre hexec hwrite hop le_rfl hreplica
    (by decide +kernel) hdel
  refine ⟨?_, hacked⟩
  obtain ⟨-, hackedEq, hresponse⟩ := handleCommand_sent (s := cluster d) hpre hexec hwrite hop
    le_rfl
  rw [hresponse, ← hackedEq]
  have := length_pos_of_mem hacked
  omega

theorem execute_delete (v : Value) :
    executeCommand (coordinator 3) session (server (some (.live v))) (.delete "docs" key) =
      .ok (server (some .tombstone), .ok "OK") := by
  simp only [executeCommand, except_bind_eq_ok]
  refine ⟨_, rfl, _, placement_key rfl rfl, id, parseUuid_key, _, ?_, rfl⟩
  exact except_mapError_eq_ok.mpr (modify_delete v)

theorem execute_put {vectorClock : String} {clock : Json}
    (htext : SerdeJson.fromStr text = .ok json)
    (hclock : SerdeJson.fromStr vectorClock = .ok clock) :
    ∃ server', executeCommand (coordinator 3) session (server none)
      (.putWithVc "docs" key text vectorClock) = .ok (server', .ok "OK") := by
  obtain ⟨server', hserver'⟩ := Server.exists_modify (docs_server none)
    (Docs.upsert_eq id (jsonToValue json) _)
  refine ⟨server', ?_⟩
  simp only [executeCommand, except_bind_eq_ok]
  refine ⟨_, rfl, _, placement_key rfl rfl, clock, except_mapError_eq_ok.mpr hclock, id,
    parseUuid_key, _, parseJsonValue_eq_ok.mpr ⟨json, htext, rfl⟩, server', ?_, rfl⟩
  simp only [Server.putReconciled, except_bind_eq_ok]
  refine ⟨none, except_mapError_eq_ok.mpr ?_, except_mapError_eq_ok.mpr hserver'⟩
  exact (get_server none).trans (by simp [Docs.get])

end FourNodes

open FourNodes in
/-- A delete with `W = 2` that reaches, or is owed to, all replicas. -/
theorem write_reaches_or_owed_iff_delete :
    ∃ (_ : SerdeJson) (_ : PayloadJson LwwSetPayload) (_ : PayloadJson OrSetPayload)
      (_ : PayloadJson MvrPayload),
      ∀ node ∈ (coordinator 3).owners "db" "docs" key, node ≠ (coordinator 3).localNodeId →
        ReachedOrOwed (coordinator 3) session calm (cluster (some (.live .null)))
          ⟨.delete "docs" key, none, some 2⟩ node := by
  obtain ⟨⟨serde⟩, ⟨lww⟩, ⟨orSet⟩, ⟨mvr⟩⟩ := serializersExist
  have hexec := execute_delete .null
  refine ⟨serde, lww, orSet, mvr, ?_⟩
  exact (write_reaches_or_owed_iff (coordinator 3) session calm (cluster (some (.live .null)))
    ⟨.delete "docs" key, none, some 2⟩ 1 2 _ _ rfl (by decide +kernel) hexec).mpr
    (Or.inl le_rfl)

open FourNodes in
/-- **A write with the default concern is neither sent nor owed**: a delete on one of three replicas
is answered with OK, and the second replica never hears of it. -/
theorem write_not_owed : SerializersExist ∧
    ∀ (_ : SerdeJson) (_ : PayloadJson LwwSetPayload) (_ : PayloadJson OrSetPayload)
      (_ : PayloadJson MvrPayload),
      (handleCommand (coordinator 3) session calm (cluster (some (.live .null)))
        ⟨.delete "docs" key, none, none⟩).response = .ok "OK" ∧
      (nodeId 4).toText ∈ (coordinator 3).owners "db" "docs" key ∧
      ¬ ReachedOrOwed (coordinator 3) session calm (cluster (some (.live .null)))
        ⟨.delete "docs" key, none, none⟩ (nodeId 4).toText := by
  refine ⟨serializersExist, ?_⟩
  intro serde lww orSet mvr
  have hexec := execute_delete .null
  have hpre : preflight (coordinator 3) session calm
      ((cluster (some (.live .null))).servers (coordinator 3).localNodeId)
      ⟨.delete "docs" key, none, none⟩ = .ok (1, 1) := by
    decide +kernel
  obtain ⟨hcluster, hacked, hresponse⟩ := handleCommand_unsent hpre hexec rfl le_rfl
  refine ⟨hresponse, by simp [owners_key], ?_⟩
  rintro (hmem | ⟨operation, -, hhint⟩)
  · rw [hacked] at hmem
    cases hmem
  · rw [hcluster] at hhint
    simp [Cluster.setServer, cluster] at hhint

open FourNodes in
/-- A delete with `W = 2` after which the second replica agrees. -/
theorem acked_replica_agrees_iff_delete :
    ∃ (_ : SerdeJson) (_ : PayloadJson LwwSetPayload) (_ : PayloadJson OrSetPayload)
      (_ : PayloadJson MvrPayload),
      let out := handleCommand (coordinator 3) session calm (cluster (some (.live .null)))
        ⟨.delete "docs" key, none, some 2⟩
      AgreeUpToPayload ((out.cluster.servers (coordinator 3).localNodeId).value "acme" "db"
        "docs" id)
        ((out.cluster.servers (nodeId 4).toText).value "acme" "db" "docs" id) := by
  obtain ⟨⟨serde⟩, ⟨lww⟩, ⟨orSet⟩, ⟨mvr⟩⟩ := serializersExist
  have hexec := execute_delete .null
  obtain ⟨hok, hacked⟩ := response_ok_of_delivered calm hexec rfl rfl rfl rfl
    (congrArg Prod.snd (deliver_delete calm .null rfl rfl))
  refine ⟨serde, lww, orSet, mvr, ?_⟩
  exact (acked_replica_agrees_iff (coordinator 3) session calm (cluster (some (.live .null)))
    ⟨.delete "docs" key, none, some 2⟩ (nodeId 4).toText id rfl tryParse_key hok hacked).mpr
    (by simp)

open FourNodes in
/-- **A write with a vector clock is stored differently by the replicas**: the coordinator stores
the number 1, and the replica that acknowledged an object with the text of the number in it. -/
theorem acked_replica_differs : SerializersExist ∧
    ∀ (_ : SerdeJson) (_ : PayloadJson LwwSetPayload) (_ : PayloadJson OrSetPayload)
      (_ : PayloadJson MvrPayload),
      let text := SerdeJson.toText (.number (.posInt 1))
      let vectorClock := SerdeJson.toText (.object [])
      let out := handleCommand (coordinator 3) session calm (cluster none)
        ⟨.putWithVc "docs" key text vectorClock, none, some 2⟩
      out.response = .ok "OK" ∧ (nodeId 4).toText ∈ out.acked ∧
        (out.cluster.servers (coordinator 3).localNodeId).value "acme" "db" "docs" id =
          some (.integer 1) ∧
        (out.cluster.servers (nodeId 4).toText).value "acme" "db" "docs" id =
          some (.object [("value", .string text), ("vector_clock", .string vectorClock)]) := by
  refine ⟨serializersExist, ?_⟩
  intro serde lww orSet mvr text vectorClock
  have htext : SerdeJson.fromStr text = .ok (.number (.posInt 1)) :=
    SerdeJson.fromStr_toText _ trivial
  have hclock : SerdeJson.fromStr vectorClock = .ok (.object []) :=
    SerdeJson.fromStr_toText _ ⟨by decide, List.Pairwise.nil, trivial⟩
  obtain ⟨server', hexec⟩ := execute_put htext hclock
  obtain ⟨hok, hacked⟩ := response_ok_of_delivered calm hexec rfl rfl rfl rfl
    (congrArg Prod.snd (deliver_upsert calm none rfl rfl (fromStr_wrapper _ _)))
  obtain ⟨hdel, hnode, hlocal⟩ := delivered_of_acked (preflight_two rfl rfl rfl _ _) hexec rfl rfl
    hacked
  obtain ⟨-, hwrote⟩ := wrote_of_executeCommand hexec rfl
  refine ⟨hok, hacked, ?_, ?_⟩
  · rw [hlocal]
    cases hwrote with
    | putWithVc hkey hparse hvalue hstored =>
      obtain ⟨json, hjson, rfl⟩ := parseJsonValue_eq_ok.mp hparse
      obtain rfl := Except.ok.inj (htext.symm.trans hjson)
      obtain rfl := Except.ok.inj (parseUuid_key.symm.trans hkey)
      rcases hstored with rfl | ⟨-, hcrdt⟩
      · exact hvalue
      · cases hcrdt
  · rw [hnode]
    exact value_of_delivered_upsert hdel tryParse_key (fromStr_wrapper _ _)

end GrumpyDB
