/-
What a node learns from the gossip of its peers.

Each entry of a peer's list is merged into the node's own view, field by field.
-/
import GrumpyDB.Cluster.Coordinator

namespace GrumpyDB

/-- What gossip knows of a peer, with the virtual nodes that it claims. -/
structure GossipPeer extends PeerRuntime where
  vnodeAssignments : List UInt32

/-- An entry of the list that a peer sends. -/
structure PeerGossipState where
  nodeId : String
  addr : String
  status : String
  lastSeenAtUnix : Option UInt64
  vnodeAssignments : List UInt32

structure ClusterHello where
  status : Option String
  lastSeenAtUnix : Option UInt64
  vnodeAssignments : List UInt32
  membership : List PeerGossipState

/-- The part of the coordinator that gossip changes. -/
structure Membership where
  localNodeId : String
  vnodesPerNode : UInt32
  peers : SortedMap String GossipPeer

def beforeLast (sep : Char) (s : String) : String :=
  match s.toList.reverse.dropWhile (· ≠ sep) with
  | [] => s
  | _ :: before => String.ofList before.reverse

/-- An address at which another node cannot reach the one that advertises it. -/
def isUnroutableAdvertisedAddr (addr : String) : Bool :=
  let host := beforeLast ':' addr
  host = "0.0.0.0" || host = "127.0.0.1" || host = "::" || host = "[::]"

example : isUnroutableAdvertisedAddr "[::]:7000" = true := by decide

example : isUnroutableAdvertisedAddr "10.0.0.2:7000" = false := by decide

namespace Membership

def defaultVnodeAssignments (vnodesPerNode : UInt32) : List UInt32 :=
  (List.range vnodesPerNode.toNat).map UInt32.ofNat

/-- Whether news are not older than what is known; news without a time never are. -/
def incomingIsFresher : Option UInt64 → Option UInt64 → Bool
  | none, some _ => true
  | some current, some newer => current ≤ newer
  | _, none => false

def mergeExisting (existing : GossipPeer) (addr status : String)
    (lastSeenAtUnix : Option UInt64) (vnodes : List UInt32) : GossipPeer :=
  let existing :=
    if addr ≠ "" ∧ (isUnroutableAdvertisedAddr addr = false ∨ existing.addr = "") then
      { existing with addr }
    else existing
  if incomingIsFresher existing.lastSeenAtUnix lastSeenAtUnix then
    -- A known status is not downgraded to `unknown`.
    { existing with
      status :=
        if status ≠ "unknown" ∨ eqIgnoreAsciiCase existing.status "unknown" then status
        else existing.status
      lastSeenAtUnix
      vnodeAssignments := vnodes }
  else existing

def mergePeerRuntime (peers : SortedMap String GossipPeer) (nodeId : String) (addr : Option String)
    (status : String) (lastSeenAtUnix : Option UInt64) (vnodeAssignments : List UInt32)
    (vnodesPerNode : UInt32) : SortedMap String GossipPeer :=
  let incomingStatus := canonicalStatus status lastSeenAtUnix
  let incomingVnodes :=
    if vnodeAssignments.isEmpty then defaultVnodeAssignments vnodesPerNode else vnodeAssignments
  let incomingAddr := addr.getD ""
  match peers.get? nodeId with
  | some existing => peers.insert nodeId
      (mergeExisting existing incomingAddr incomingStatus lastSeenAtUnix incomingVnodes)
  | none => peers.insert nodeId ⟨⟨incomingAddr, incomingStatus, lastSeenAtUnix⟩, incomingVnodes⟩

def mergeEntry (localNodeId : String) (vnodesPerNode : UInt32)
    (peers : SortedMap String GossipPeer) (entry : PeerGossipState) : SortedMap String GossipPeer :=
  if entry.nodeId = localNodeId then peers
  else mergePeerRuntime peers entry.nodeId (some entry.addr) entry.status entry.lastSeenAtUnix
    entry.vnodeAssignments vnodesPerNode

def mergeGossipFromPeer (c : Membership) (peerNodeId : String) (hello : ClusterHello)
    (observedAtUnix : Option UInt64) : Membership :=
  let srcStatus := hello.status.getD "up"
  let srcLastSeen := hello.lastSeenAtUnix <|> observedAtUnix
  let peers := mergePeerRuntime c.peers peerNodeId none srcStatus srcLastSeen
    hello.vnodeAssignments c.vnodesPerNode
  { c with peers := hello.membership.foldl (mergeEntry c.localNodeId c.vnodesPerNode) peers }

/-! ### Knowing a peer no less well -/

end Membership

namespace GossipPeer

/-- The peer is known no less well than before: it was last seen no earlier, its
status did not become `unknown`, and an address was not given up for none or for
one that cannot be reached. -/
structure KeepsUp (old new : GossipPeer) : Prop where
  lastSeen : ∀ t, old.lastSeenAtUnix = some t → ∃ t', new.lastSeenAtUnix = some t' ∧ t ≤ t'
  status : new.status = old.status ∨ eqIgnoreAsciiCase new.status "unknown" = false
  addr : old.addr ≠ "" → new.addr = old.addr ∨
    (new.addr ≠ "" ∧ isUnroutableAdvertisedAddr new.addr = false)

theorem KeepsUp.refl (p : GossipPeer) : KeepsUp p p :=
  ⟨fun t ht => ⟨t, ht, le_rfl⟩, .inl rfl, fun _ => .inl rfl⟩

theorem KeepsUp.trans {p q r : GossipPeer} (h : KeepsUp p q) (h' : KeepsUp q r) : KeepsUp p r := by
  refine ⟨fun t ht => ?_, ?_, fun hp => ?_⟩
  · obtain ⟨t₁, ht₁, hle₁⟩ := h.lastSeen t ht
    obtain ⟨t₂, ht₂, hle₂⟩ := h'.lastSeen t₁ ht₁
    exact ⟨t₂, ht₂, hle₁.trans hle₂⟩
  · rcases h'.status with heq | hknown
    · rw [heq]
      exact h.status
    · exact .inr hknown
  · rcases h.addr hp with heq | ⟨hne, hgood⟩
    · rw [← heq] at hp ⊢
      exact h'.addr hp
    · rcases h'.addr hne with heq' | hgood'
      · rw [heq']
        exact .inr ⟨hne, hgood⟩
      · exact .inr hgood'

end GossipPeer

namespace Membership

open GossipPeer

/-- News that count have a time, and a status with a time is not `unknown`. -/
theorem canonicalStatus_known (status : String) (t : UInt64) :
    eqIgnoreAsciiCase (canonicalStatus status (some t)) "unknown" = false := by
  unfold canonicalStatus
  by_cases h : eqIgnoreAsciiCase status "unknown" = true
  · simp only [h, Option.isSome_some, Bool.and_self, if_true]
    decide
  · simp [h]

theorem lastSeen_of_fresher {current incoming : Option UInt64}
    (h : incomingIsFresher current incoming = true) :
    ∃ t', incoming = some t' ∧ ∀ t, current = some t → t ≤ t' := by
  rcases incoming with _ | t'
  · cases current <;> cases h
  · refine ⟨t', rfl, fun t ht => ?_⟩
    subst ht
    exact of_decide_eq_true h

theorem mergeExisting_keepsUp (existing : GossipPeer) (addr status : String)
    (lastSeenAtUnix : Option UInt64) (vnodes : List UInt32) :
    KeepsUp existing (mergeExisting existing addr (canonicalStatus status lastSeenAtUnix)
      lastSeenAtUnix vnodes) := by
  -- First the address, then everything else.
  have haddr : KeepsUp existing (if addr ≠ "" ∧
      (isUnroutableAdvertisedAddr addr = false ∨ existing.addr = "") then
      { existing with addr } else existing) := by
    split
    · rename_i h
      refine ⟨fun t ht => ⟨t, ht, le_rfl⟩, .inl rfl, fun hne => .inr ⟨h.1, ?_⟩⟩
      exact h.2.resolve_right hne
    · exact KeepsUp.refl existing
  refine haddr.trans ?_
  unfold mergeExisting
  generalize (if addr ≠ "" ∧ (isUnroutableAdvertisedAddr addr = false ∨ existing.addr = "") then
    { existing with addr } else existing) = peer
  dsimp only
  split
  · rename_i hfresh
    obtain ⟨t', rfl, hle⟩ := lastSeen_of_fresher hfresh
    refine ⟨fun t ht => ⟨t', rfl, hle t ht⟩, ?_, fun _ => .inl rfl⟩
    split
    · exact .inr (canonicalStatus_known status t')
    · exact .inl rfl
  · exact KeepsUp.refl peer

/-- The peers of `m` are all in `m'`, and known no less well. -/
def Retains (m m' : SortedMap String GossipPeer) : Prop :=
  ∀ nodeId p, m.get? nodeId = some p → ∃ p', m'.get? nodeId = some p' ∧ KeepsUp p p'

theorem Retains.refl (m : SortedMap String GossipPeer) : Retains m m :=
  fun _ p hp => ⟨p, hp, KeepsUp.refl p⟩

theorem Retains.trans {m m₁ m₂ : SortedMap String GossipPeer} (h : Retains m m₁)
    (h' : Retains m₁ m₂) : Retains m m₂ := by
  intro nodeId p hp
  obtain ⟨p₁, hp₁, hk₁⟩ := h nodeId p hp
  obtain ⟨p₂, hp₂, hk₂⟩ := h' nodeId p₁ hp₁
  exact ⟨p₂, hp₂, hk₁.trans hk₂⟩

section Merge

variable (peers : SortedMap String GossipPeer) (localNodeId : String) (vnodesPerNode : UInt32)

theorem mergePeerRuntime_ne {nodeId other : String} (h : other ≠ nodeId) (addr : Option String)
    (status : String) (lastSeenAtUnix : Option UInt64) (vnodeAssignments : List UInt32) :
    (mergePeerRuntime peers nodeId addr status lastSeenAtUnix vnodeAssignments
      vnodesPerNode).get? other = peers.get? other := by
  unfold mergePeerRuntime
  dsimp only
  split <;> exact SortedMap.get?_insert_ne h

theorem mergePeerRuntime_retains (nodeId : String) (addr : Option String) (status : String)
    (lastSeenAtUnix : Option UInt64) (vnodeAssignments : List UInt32) :
    Retains peers (mergePeerRuntime peers nodeId addr status lastSeenAtUnix vnodeAssignments
      vnodesPerNode) := by
  intro other p hp
  by_cases h : other = nodeId
  · subst h
    unfold mergePeerRuntime
    rw [hp]
    exact ⟨_, SortedMap.get?_insert_self, mergeExisting_keepsUp p _ status lastSeenAtUnix _⟩
  · exact ⟨p, by rw [mergePeerRuntime_ne peers vnodesPerNode h, hp], KeepsUp.refl p⟩

theorem mergeEntry_retains (entry : PeerGossipState) :
    Retains peers (mergeEntry localNodeId vnodesPerNode peers entry) := by
  unfold mergeEntry
  split
  · exact Retains.refl peers
  · exact mergePeerRuntime_retains peers vnodesPerNode _ _ _ _ _

theorem mergeEntry_local (entry : PeerGossipState) :
    (mergeEntry localNodeId vnodesPerNode peers entry).get? localNodeId =
      peers.get? localNodeId := by
  unfold mergeEntry
  split
  · rfl
  · rename_i h
    exact mergePeerRuntime_ne peers vnodesPerNode (Ne.symm h) _ _ _ _

theorem mergeEntries_retains (entries : List PeerGossipState) :
    Retains peers (entries.foldl (mergeEntry localNodeId vnodesPerNode) peers) ∧
      (entries.foldl (mergeEntry localNodeId vnodesPerNode) peers).get? localNodeId =
        peers.get? localNodeId := by
  induction entries generalizing peers with
  | nil => exact ⟨Retains.refl peers, rfl⟩
  | cons entry entries ih =>
    obtain ⟨hretains, hlocal⟩ := ih (mergeEntry localNodeId vnodesPerNode peers entry)
    refine ⟨(mergeEntry_retains peers localNodeId vnodesPerNode entry).trans hretains, ?_⟩
    rw [List.foldl_cons, hlocal, mergeEntry_local]

end Merge

/-! ### Sequences of handshakes -/

structure Handshake where
  peerNodeId : String
  hello : ClusterHello
  observedAtUnix : Option UInt64

def mergeHandshakes (c : Membership) (handshakes : List Handshake) : Membership :=
  handshakes.foldl (fun c h => c.mergeGossipFromPeer h.peerNodeId h.hello h.observedAtUnix) c

theorem mergeGossipFromPeer_spec (c : Membership) {peerNodeId : String}
    (h : peerNodeId ≠ c.localNodeId) (hello : ClusterHello) (observedAtUnix : Option UInt64) :
    Retains c.peers (c.mergeGossipFromPeer peerNodeId hello observedAtUnix).peers ∧
      (c.mergeGossipFromPeer peerNodeId hello observedAtUnix).peers.get? c.localNodeId =
        c.peers.get? c.localNodeId := by
  set peers := mergePeerRuntime c.peers peerNodeId none (hello.status.getD "up")
    (hello.lastSeenAtUnix <|> observedAtUnix) hello.vnodeAssignments c.vnodesPerNode with hpeers
  obtain ⟨hretains, hlocal⟩ :=
    mergeEntries_retains peers c.localNodeId c.vnodesPerNode hello.membership
  refine ⟨(mergePeerRuntime_retains c.peers c.vnodesPerNode _ _ _ _ _).trans hretains, ?_⟩
  exact hlocal.trans (mergePeerRuntime_ne c.peers c.vnodesPerNode h.symm _ _ _ _)

/-- **Gossip is merged monotonically.**  After any sequence of handshakes with other
nodes, whatever they say, every peer that was known is known, no less well than
before, and the entry of the node itself is as it was. -/
theorem gossip_merge_monotone (c : Membership) (handshakes : List Handshake)
    (h : ∀ g ∈ handshakes, g.peerNodeId ≠ c.localNodeId) :
    (∀ nodeId p, c.peers.get? nodeId = some p →
      ∃ p', (c.mergeHandshakes handshakes).peers.get? nodeId = some p' ∧ KeepsUp p p') ∧
    (c.mergeHandshakes handshakes).peers.get? c.localNodeId = c.peers.get? c.localNodeId := by
  induction handshakes generalizing c with
  | nil => exact ⟨Retains.refl c.peers, rfl⟩
  | cons g handshakes ih =>
    obtain ⟨hretains, hlocal⟩ := mergeGossipFromPeer_spec c (h g List.mem_cons_self) g.hello
      g.observedAtUnix
    -- A handshake does not change who the node is.
    obtain ⟨hretains', hlocal'⟩ := ih
      (c.mergeGossipFromPeer g.peerNodeId g.hello g.observedAtUnix)
      fun g' hg' => h g' (List.mem_cons_of_mem g hg')
    exact ⟨Retains.trans hretains hretains', hlocal'.trans hlocal⟩

/-- A stale handshake of a peer that is known. -/
theorem gossip_merge_monotone_stale :
    let c : Membership := ⟨"a", 1, SortedMap.empty.insert "b" ⟨⟨"h:1", "up", some 5⟩, [0]⟩⟩
    let g : Handshake := ⟨"b", ⟨some "unknown", some 3, [],
      [⟨"b", "0.0.0.0:1", "down", some 4, []⟩]⟩,
      none⟩
    ∃ p', (c.mergeHandshakes [g]).peers.get? "b" = some p' ∧
      KeepsUp ⟨⟨"h:1", "up", some 5⟩, [0]⟩ p' :=
  (gossip_merge_monotone _ [_] fun g hg => by
    rw [List.mem_singleton.mp hg]
    exact fun h => absurd h (by decide)).1 "b" _ SortedMap.get?_insert_self

end Membership

end GrumpyDB
