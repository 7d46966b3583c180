/-
Frames read off a connection, and the handshake that opens a session.

No two byte strings stand for one frame, so what a peer takes off the stream are the frames that
were sent, however it is cut. In the handshake a piece may bring more than the first frame; the
rest stays in the buffer of the session.
-/
import GrumpyDB.Replication.Frame

namespace GrumpyDB

namespace Replication

open Frame List

/-! ### Only what was encoded is decoded -/

section Canonical

variable {kind : FrameType} {off w x : Nat} {payload buf : List UInt8} {frame : Frame}

theorem leBytes_slice_mod (h : off + w ≤ buf.length)
    (hx : x = leNat (slice off w buf) % 256 ^ w) : leBytes w x = slice off w buf :=
  leBytes_slice h (hx.trans (Nat.mod_eq_of_lt (leNat_slice_lt h)))

theorem leBytes_u16At (h : 2 ≤ payload.length) :
    leBytes 2 (UInt16.ofNat (leNat (slice 0 2 payload))).toNat = slice 0 2 payload :=
  leBytes_slice_mod (by omega) UInt16.toNat_ofNat'

theorem leBytes_u64At (h : off + 8 ≤ payload.length) :
    leBytes 8 (u64At off payload).toNat = slice off 8 payload :=
  leBytes_slice_mod h UInt64.toNat_ofNat'

theorem bytes_of_uuidAt {what : String} {u : Uuid} (h : uuidAt what off payload = .ok u) :
    u.bytes = slice off 16 payload := by
  rw [uuidAt, Uuid.ofBytes?] at h
  split at h
  · rename_i hu
    split at hu
    · cases hu
      cases h
      rfl
    · cases hu
  · cases h

theorem length_of_checkFixed {need : Nat} (h : checkFixed kind need payload = .ok ()) :
    payload.length = need := by
  by_contra hne
  rw [checkFixed, if_pos hne] at h
  split at h <;> cases h

theorem encodeText_of_decodeText {s : String} (h : decodeText kind off payload = .ok s) :
    off + 2 ≤ payload.length ∧ (utf8 s).length < 2 ^ 16 ∧
      slice off (payload.length - off) payload = encodeText s := by
  rw [decodeText] at h
  by_cases hhead : payload.length < off + 2
  · simp [hhead] at h
  have htwo : off + 2 ≤ payload.length := Nat.le_of_not_lt hhead
  have hn := leNat_slice_lt htwo
  have hback := leBytes_slice htwo rfl
  rw [if_neg hhead] at h
  dsimp only at h
  generalize leNat (slice off 2 payload) = n at h hn hback
  by_cases hlen : payload.length = off + 2 + n
  · rw [if_neg (by omega), if_neg (by simp [hlen]), Nat.add_sub_cancel_left] at h
    split at h
    · rename_i s' hs
      cases h
      have htext := utf8_of_fromUtf8? hs
      have hsize : (utf8 s).length = n := by rw [htext, length_slice hlen.ge]
      refine ⟨htwo, hsize ▸ hn, ?_⟩
      rw [encodeText, hsize, hback, htext, slice_append_slice]
      congr 1
      omega
    · cases h
  · split at h <;> cases h

/-- **A payload is the only one of its frame.** -/
theorem decodePayload_eq_ok (h : decodePayload kind payload = .ok frame) :
    frame.frameType = kind ∧ frame.encodePayload = payload ∧ frame.Fits := by
  cases kind with
  | hello =>
    simp only [decodePayload, except_bind_eq_ok, except_pure_eq_ok] at h
    obtain ⟨token, htoken, cluster, hcluster, node, hnode, rfl⟩ := h
    obtain ⟨hlen, hfits, htext⟩ := encodeText_of_decodeText htoken
    refine ⟨rfl, ?_, hfits⟩
    rw [encodePayload, leBytes_u16At (by omega), bytes_of_uuidAt hcluster, bytes_of_uuidAt hnode,
      ← htext, slice_append_slice, slice_append_slice, slice_append_slice]
    exact slice_self (by omega)
  | helloAck =>
    simp only [decodePayload, except_bind_eq_ok, except_pure_eq_ok] at h
    obtain ⟨_, hlen, node, hnode, rfl⟩ := h
    have hlen := length_of_checkFixed hlen
    refine ⟨rfl, ?_, trivial⟩
    rw [encodePayload, leBytes_u16At (by omega), bytes_of_uuidAt hnode, leBytes_u64At (by omega),
      slice_append_slice, slice_append_slice]
    exact slice_self hlen
  | subscribe | ack =>
    simp only [decodePayload, except_bind_eq_ok, except_pure_eq_ok] at h
    obtain ⟨_, hlen, node, hnode, rfl⟩ := h
    have hlen := length_of_checkFixed hlen
    refine ⟨rfl, ?_, trivial⟩
    rw [encodePayload, bytes_of_uuidAt hnode, leBytes_u64At (by omega), slice_append_slice]
    exact slice_self hlen
  | walRecord =>
    cases h
    exact ⟨rfl, rfl, trivial⟩
  | heartbeat =>
    simp only [decodePayload, except_bind_eq_ok, except_pure_eq_ok] at h
    obtain ⟨_, hlen, rfl⟩ := h
    have hlen := length_of_checkFixed hlen
    refine ⟨rfl, ?_, trivial⟩
    rw [encodePayload, leBytes_u64At (by omega)]
    exact slice_self hlen
  | bye =>
    simp only [decodePayload, except_bind_eq_ok, except_pure_eq_ok] at h
    obtain ⟨reason, hreason, rfl⟩ := h
    obtain ⟨hlen, hfits, htext⟩ := encodeText_of_decodeText hreason
    refine ⟨rfl, ?_, hfits⟩
    rw [encodePayload, ← htext]
    exact slice_self rfl

theorem asU8_of_fromU8 {b : UInt8} (h : FrameType.fromU8 b = .ok kind) : kind.asU8 = b := by
  rw [FrameType.fromU8] at h
  split at h
  · rename_i hfind
    cases h
    simpa using find?_some hfind
  · cases h

variable [Crc32] {n : Nat}

theorem decodeFrame_eq_some (h : decodeFrame buf = .ok (some (frame, n))) :
    frame.Sendable ∧ n ≤ buf.length ∧ frame.wire = buf.take n := by
  have hheader : FRAME_HEADER_SIZE = 5 := rfl
  have htrailer : FRAME_TRAILER_SIZE = 4 := rfl
  rw [decodeFrame] at h
  by_cases hhead : buf.length < FRAME_HEADER_SIZE
  · simp [hhead] at h
  rw [if_neg hhead] at h
  have hlen : leBytes 4 (leNat (slice 0 4 buf)) = slice 0 4 buf := leBytes_slice (by omega) rfl
  have hkind : [UInt8.ofNat (leNat (slice 4 1 buf))] = slice 4 1 buf :=
    leBytes_slice (w := 1) (by omega) rfl
  generalize leNat (slice 0 4 buf) = len at h hlen
  by_cases hmax : len > MAX_FRAME_PAYLOAD
  · simp [hmax] at h
  by_cases hall : buf.length < FRAME_HEADER_SIZE + len + FRAME_TRAILER_SIZE
  · simp [hmax, hall] at h
  simp only [if_neg hmax, if_neg hall, except_bind_eq_ok] at h
  obtain ⟨kind, hk, h⟩ := h
  split at h
  · cases h
  rename_i hcrc
  simp only [except_bind_eq_ok] at h
  obtain ⟨f, hpayload, hf⟩ := h
  cases hf
  obtain ⟨rfl, hp, hfits⟩ := decodePayload_eq_ok hpayload
  have hsize : frame.encodePayload.length = len := by rw [hp, length_slice (by omega)]
  refine ⟨⟨hfits, by omega⟩, by omega, ?_⟩
  rw [wire, envelope, hsize, hlen, asU8_of_fromU8 hk, hkind, hp, not_ne_iff.mp hcrc,
    leBytes_slice_mod (by omega) UInt32.toNat_ofNat', slice_append_slice, hheader,
    slice_append_slice]
  have hjoin : slice 0 (5 + len) buf ++ slice (0 + (5 + len)) 4 buf = slice 0 (5 + len + 4) buf :=
    slice_append_slice buf
  rwa [Nat.zero_add] at hjoin

theorem wire_append_inj {f g : Frame} {a b : List UInt8} (hf : f.Sendable)
    (hg : g.encodePayload.length ≤ MAX_FRAME_PAYLOAD) (h : f.wire ++ a = g.wire ++ b) :
    f = g ∧ a = b := by
  have hdecode := decodeFrame_wire hf a
  by_cases hfits : g.Fits
  · rw [h, decodeFrame_wire ⟨hfits, hg⟩] at hdecode
    have hpair := Prod.mk.inj (Option.some.inj (Except.ok.inj hdecode))
    obtain rfl := hpair.1
    exact ⟨rfl, append_cancel_left h⟩
  · obtain ⟨e, he⟩ := decodeFrame_of_not_fits hg hfits b
    rw [h, he] at hdecode
    cases hdecode

end Canonical

/-! ### Reading from a connection -/

inductive SessionError where
  | frame (e : FrameError)
  | refused (message : String)
  | unexpectedFrame (kind : FrameType)
  | closed
  | clusterMismatch (here remote : Uuid)
  | versionTooLow (peer min : UInt16)
  | versionTooHigh (peer max : UInt16)
  | authRejected (message : String)
  | nodeIdSpoofing (hello token : Uuid)

section Reading

variable [Crc32]

/-- The end of the stream, which is fine between two frames only. -/
def atEof (readBuf : List UInt8) : SessionError :=
  if readBuf = [] then .closed
  else .frame (.truncatedPayload .hello MAX_FRAME_PAYLOAD readBuf.length)

/-- The next frame, with the bytes left in the buffer and the pieces still to come.  An
empty read is the end of the stream. -/
def readOneFrame (readBuf : List UInt8) (pieces : List (List UInt8)) :
    Except SessionError (Frame × List UInt8 × List (List UInt8)) :=
  match decodeFrame readBuf, pieces with
  | .ok (some (frame, consumed)), pieces => .ok (frame, readBuf.drop consumed, pieces)
  | .error e, _ => .error (.frame e)
  | .ok none, [] => .error (atEof readBuf)
  | .ok none, piece :: pieces =>
    if piece = [] then .error (atEof readBuf) else readOneFrame (readBuf ++ piece) pieces

/-- As many frames as asked for, by one call of `recv_frame` each. -/
def recvFrames : Nat → List UInt8 → List (List UInt8) →
    Except SessionError (List Frame × List UInt8 × List (List UInt8))
  | 0, readBuf, pieces => .ok ([], readBuf, pieces)
  | n + 1, readBuf, pieces => do
    let (frame, readBuf, pieces) ← readOneFrame readBuf pieces
    let (frames, rest) ← recvFrames n readBuf pieces
    return (frame :: frames, rest)

variable {frame : Frame} {readBuf readBuf' tail : List UInt8} {pieces pieces' : List (List UInt8)}

theorem readOneFrame_found {n : Nat} (h : decodeFrame readBuf = .ok (some (frame, n))) :
    readOneFrame readBuf pieces = .ok (frame, readBuf.drop n, pieces) := by
  rw [readOneFrame.eq_def, h]

theorem readOneFrame_eq_ok (h : readOneFrame readBuf pieces = .ok (frame, readBuf', pieces')) :
    frame.Sendable ∧ readBuf ++ pieces.flatten = frame.wire ++ (readBuf' ++ pieces'.flatten) := by
  fun_induction readOneFrame readBuf pieces with
  | case1 readBuf frame consumed pieces hd =>
    cases h
    obtain ⟨hsend, -, hwire⟩ := decodeFrame_eq_some hd
    refine ⟨hsend, ?_⟩
    rw [hwire, ← append_assoc, take_append_drop]
  | case5 readBuf piece pieces hd hne ih => simpa using ih h
  | case2 => cases h
  | case3 => cases h
  | case4 => cases h

theorem readOneFrame_stream (hframe : frame.Sendable) (hpieces : ∀ p ∈ pieces, p ≠ [])
    (h : readBuf ++ pieces.flatten = frame.wire ++ tail) :
    ∃ readBuf' pieces', readOneFrame readBuf pieces = .ok (frame, readBuf', pieces') ∧
      (∀ p ∈ pieces', p ≠ []) ∧ readBuf' ++ pieces'.flatten = tail := by
  induction pieces generalizing readBuf with
  | nil =>
    obtain rfl : readBuf = frame.wire ++ tail := by simpa using h
    refine ⟨tail, [], ?_, hpieces, append_nil _⟩
    rw [readOneFrame_found (decodeFrame_wire hframe tail), drop_left]
  | cons piece pieces ih =>
    rcases prefix_append_cases ⟨_, h⟩ with ⟨rest, rfl, -⟩ | ⟨hcut, hlt⟩
    · refine ⟨rest, piece :: pieces, ?_, hpieces, ?_⟩
      · rw [readOneFrame_found (decodeFrame_wire hframe rest), drop_left]
      · rw [append_assoc] at h
        exact append_cancel_left h
    · rw [readOneFrame.eq_def, decodeFrame_cut hframe hcut hlt]
      simp only [if_neg (hpieces piece (by simp))]
      refine ih (fun p hp => hpieces p (by simp [hp])) ?_
      rw [append_assoc]
      exact h

variable {frames : List Frame}

theorem recvFrames_stream (hframes : ∀ f ∈ frames, f.Sendable) (hpieces : ∀ p ∈ pieces, p ≠ [])
    (h : readBuf ++ pieces.flatten = frames.flatMap Frame.wire) :
    recvFrames frames.length readBuf pieces = .ok (frames, [], []) := by
  induction frames generalizing readBuf pieces with
  | nil =>
    obtain ⟨rfl, hflat⟩ := append_eq_nil_iff.mp h
    obtain rfl : pieces = [] := by
      by_contra hne
      obtain ⟨p, hp⟩ := exists_mem_of_ne_nil _ hne
      exact hpieces p hp (flatten_eq_nil_iff.mp hflat p hp)
    rfl
  | cons f frames ih =>
    obtain ⟨readBuf', pieces', hread, hpieces', hrest⟩ :=
      readOneFrame_stream (hframes f (by simp)) hpieces h
    have hih := ih (fun g hg => hframes g (by simp [hg])) hpieces' hrest
    rw [length_cons, recvFrames, hread]
    show (do
      let (frames, rest) ← recvFrames frames.length readBuf' pieces'
      return (f :: frames, rest)) = _
    rw [hih]
    rfl

theorem encodings_eq {encodings : List (List UInt8)}
    (h : List.Forall₂ (fun f bytes => encodeFrame f = .ok bytes) frames encodings) :
    encodings = frames.map Frame.wire ∧
      ∀ f ∈ frames, f.encodePayload.length ≤ MAX_FRAME_PAYLOAD := by
  induction h with
  | nil => simp
  | cons hf _ ih =>
    obtain ⟨hsize, rfl⟩ := encodeFrame_eq_ok_iff.mp hf
    exact ⟨by rw [map_cons, ih.1], forall_mem_cons.mpr ⟨hsize, ih.2⟩⟩

/-- **Frames in a stream.**  A frame that is decoded is the one those bytes are the encoding of.
Frames whose texts fit are given back in order, in whatever pieces they arrive, and a part of an
encoding makes the decoder wait. -/
theorem frame_streaming :
    (∀ b frame n, decodeFrame b = .ok (some (frame, n)) →
      n ≤ b.length ∧ encodeFrame frame = .ok (b.take n)) ∧
    ∀ frames encodings, (∀ f ∈ frames, f.Fits) →
      List.Forall₂ (fun f bytes => encodeFrame f = .ok bytes) frames encodings →
      (∀ pieces : List (List UInt8), (∀ p ∈ pieces, p ≠ []) →
        pieces.flatten = encodings.flatten →
        recvFrames frames.length [] pieces = .ok (frames, [], [])) ∧
      ∀ bytes ∈ encodings, ∀ part, part <+: bytes → part ≠ bytes →
        decodeFrame part = .ok none := by
  refine ⟨fun b frame n h => ?_, fun frames encodings hfits henc => ?_⟩
  · obtain ⟨hsend, hn, hwire⟩ := decodeFrame_eq_some h
    exact ⟨hn, encodeFrame_eq_ok_iff.mpr ⟨hsend.size, hwire.symm⟩⟩
  obtain ⟨rfl, hsize⟩ := encodings_eq henc
  have hsend : ∀ f ∈ frames, f.Sendable := fun f hf => ⟨hfits f hf, hsize f hf⟩
  refine ⟨fun pieces hpieces hflat => ?_, fun bytes hbytes part hpart hne => ?_⟩
  · exact recvFrames_stream hsend hpieces (by rw [nil_append, hflat, flatMap])
  · obtain ⟨f, hf, rfl⟩ := mem_map.mp hbytes
    refine decodeFrame_cut (hsend f hf) hpart (lt_of_le_of_ne hpart.length_le fun hlen => hne ?_)
    exact hpart.eq_of_length hlen

end Reading

/-! ### The handshake -/

def PROTOCOL_VERSION : UInt16 := 1

def MIN_SUPPORTED_VERSION : UInt16 := 1

structure PeerIdentity where
  clusterId : Uuid
  nodeId : Uuid

/-- A session: what is still to come from the peer, and what is known of it. -/
structure PeerSession where
  pieces : List (List UInt8)
  remoteNodeId : Uuid
  remoteHighWaterHlc : Option UInt64
  negotiatedVersion : UInt16
  readBuf : List UInt8

section Handshake

variable [Crc32]

def writeBye (reason : String) : List UInt8 :=
  match encodeFrame (.bye reason) with
  | .ok bytes => bytes
  | .error _ => []

/-- Open a session over a stream that brings `pieces`.  The second component is what
is sent. -/
def connectInitiator (pieces : List (List UInt8)) (here : PeerIdentity) (token : String) :
    Except SessionError PeerSession × List UInt8 :=
  match encodeFrame (.hello ⟨PROTOCOL_VERSION, here.clusterId, here.nodeId, token⟩) with
  | .error e => (.error (.frame e), [])
  | .ok sent =>
    match readOneFrame [] pieces with
    | .error e => (.error e, sent)
    | .ok (.helloAck a, readBuf, pieces) =>
      if a.protocolVersion < MIN_SUPPORTED_VERSION then
        (.error (.versionTooLow a.protocolVersion MIN_SUPPORTED_VERSION), sent)
      else if a.protocolVersion > PROTOCOL_VERSION then
        (.error (.versionTooHigh a.protocolVersion PROTOCOL_VERSION), sent)
      else (.ok ⟨pieces, a.nodeId, some a.highWaterHlc, a.protocolVersion, readBuf⟩, sent)
    | .ok (.bye reason, _) => (.error (.refused ("responder closed: " ++ reason)), sent)
    | .ok (other, _) => (.error (.unexpectedFrame other.frameType), sent)

/-- Answer a peer that opens a session.  `verify` is what the authenticator says of a token. -/
def acceptResponder (pieces : List (List UInt8)) (here : PeerIdentity) (highWaterHlc : UInt64)
    (verify : String → Except String Uuid) : Except SessionError PeerSession × List UInt8 :=
  match readOneFrame [] pieces with
  | .error e => (.error e, [])
  | .ok (.hello h, readBuf, pieces) =>
    if h.clusterId ≠ here.clusterId then
      (.error (.clusterMismatch here.clusterId h.clusterId), writeBye "cluster_id mismatch")
    else if h.protocolVersion < MIN_SUPPORTED_VERSION then
      (.error (.versionTooLow h.protocolVersion MIN_SUPPORTED_VERSION),
        writeBye "protocol version below minimum")
    else
      let negotiated := min h.protocolVersion PROTOCOL_VERSION
      match verify h.token with
      | .error e => (.error (.authRejected e), writeBye "auth rejected")
      | .ok tokenNodeId =>
        if tokenNodeId ≠ h.nodeId then
          (.error (.nodeIdSpoofing h.nodeId tokenNodeId), writeBye "node_id spoofing")
        else
          match encodeFrame (.helloAck ⟨negotiated, here.nodeId, highWaterHlc⟩) with
          | .error e => (.error (.frame e), [])
          | .ok sent => (.ok ⟨pieces, h.nodeId, none, negotiated, readBuf⟩, sent)
  | .ok (other, _) => (.error (.unexpectedFrame other.frameType), writeBye "expected Hello")

variable {pieces : List (List UInt8)} {here : PeerIdentity} {token : String} {hlc : UInt64}
  {verify : String → Except String Uuid} {sess : PeerSession} {sent : List UInt8}

/-- An initiator that completes got a `HelloAck` of a version it supports. -/
theorem connectInitiator_eq_ok (h : connectInitiator pieces here token = (.ok sess, sent)) :
    ∃ ack, readOneFrame [] pieces = .ok (.helloAck ack, sess.readBuf, sess.pieces) ∧
      MIN_SUPPORTED_VERSION ≤ ack.protocolVersion ∧ ack.protocolVersion ≤ PROTOCOL_VERSION ∧
      sess.remoteNodeId = ack.nodeId ∧ sess.negotiatedVersion = ack.protocolVersion ∧
      encodeFrame (.hello ⟨PROTOCOL_VERSION, here.clusterId, here.nodeId, token⟩) = .ok sent := by
  rw [connectInitiator] at h
  split at h
  · cases h
  rename_i bytes hencode
  split at h
  · cases h
  · rename_i ack readBuf rest hread
    split at h
    · cases h
    rename_i hlow
    split at h
    · cases h
    rename_i hhigh
    cases h
    exact ⟨ack, hread, UInt16.not_lt.mp hlow, UInt16.not_lt.mp hhigh, rfl, rfl, hencode⟩
  · cases h
  · cases h

/-- A responder that completes got a `Hello` that passed its checks. -/
theorem acceptResponder_eq_ok (h : acceptResponder pieces here hlc verify = (.ok sess, sent)) :
    ∃ hello, readOneFrame [] pieces = .ok (.hello hello, sess.readBuf, sess.pieces) ∧
      hello.clusterId = here.clusterId ∧ MIN_SUPPORTED_VERSION ≤ hello.protocolVersion ∧
      verify hello.token = .ok hello.nodeId ∧ sess.remoteNodeId = hello.nodeId ∧
      sess.negotiatedVersion = min hello.protocolVersion PROTOCOL_VERSION ∧
      encodeFrame (.helloAck ⟨sess.negotiatedVersion, here.nodeId, hlc⟩) = .ok sent := by
  rw [acceptResponder] at h
  split at h
  · cases h
  · rename_i hello readBuf rest hread
    split at h
    · cases h
    rename_i hcluster
    split at h
    · cases h
    rename_i hlow
    dsimp only at h
    split at h
    · cases h
    rename_i node hverify
    split at h
    · cases h
    rename_i hnode
    obtain rfl := not_ne_iff.mp hnode
    split at h
    · cases h
    rename_i bytes hencode
    cases h
    exact ⟨hello, hread, not_ne_iff.mp hcluster, UInt16.not_lt.mp hlow, hverify, rfl, rfl, hencode⟩
  · cases h

theorem readOneFrame_first {frame first : Frame} {readBuf more : List UInt8}
    {rest : List (List UInt8)} (hread : readOneFrame [] pieces = .ok (frame, readBuf, rest))
    (hfirst : encodeFrame first = .ok sent) (hsent : pieces.flatten <+: sent ++ more) :
    frame = first := by
  obtain ⟨hsend, hbytes⟩ := readOneFrame_eq_ok hread
  obtain ⟨hsize, rfl⟩ := encodeFrame_eq_ok_iff.mp hfirst
  obtain ⟨unread, hunread⟩ := hsent
  rw [nil_append] at hbytes
  rw [hbytes, append_assoc] at hunread
  exact (wire_append_inj hsend hsize hunread).1

/-- **The handshake of two peers.**  A responder completes only on a `Hello` of its cluster, of a
version it supports, and with a token of the node it names, and keeps all that follows.  When both
complete on what the other one sent, they know each other and agree on the version. -/
theorem handshake_agreement :
    (∀ pieces here hlc verify sess sent frames encodings,
      acceptResponder pieces here hlc verify = (.ok sess, sent) →
      List.Forall₂ (fun f bytes => encodeFrame f = .ok bytes) frames encodings →
      pieces.flatten = encodings.flatten →
      ∃ hello rest, frames = .hello hello :: rest ∧ hello.clusterId = here.clusterId ∧
        MIN_SUPPORTED_VERSION ≤ hello.protocolVersion ∧ verify hello.token = .ok hello.nodeId ∧
        sess.readBuf ++ sess.pieces.flatten = rest.flatMap Frame.wire) ∧
    ∀ pieces pieces' here there token hlc verify sess sess' sent sent' more more',
      connectInitiator pieces here token = (.ok sess, sent) →
      acceptResponder pieces' there hlc verify = (.ok sess', sent') →
      pieces.flatten <+: sent' ++ more' → pieces'.flatten <+: sent ++ more →
      sess.remoteNodeId = there.nodeId ∧ sess'.remoteNodeId = here.nodeId ∧
      sess.negotiatedVersion = sess'.negotiatedVersion ∧
      MIN_SUPPORTED_VERSION ≤ sess.negotiatedVersion ∧
      sess.negotiatedVersion ≤ PROTOCOL_VERSION := by
  constructor
  · intro pieces here hlc verify sess sent frames encodings h henc hflat
    obtain ⟨hello, hread, hcluster, hversion, hverify, -⟩ := acceptResponder_eq_ok h
    obtain ⟨hsend, hbytes⟩ := readOneFrame_eq_ok hread
    obtain ⟨rfl, hsize⟩ := encodings_eq henc
    rw [hflat] at hbytes
    rcases frames with _ | ⟨f, rest⟩
    · have hlen := congrArg length hbytes
      simp only [map_nil, flatten_nil, length_nil, length_append, wire,
        length_envelope, FRAME_HEADER_SIZE] at hlen
      omega
    · obtain ⟨rfl, hrest⟩ := wire_append_inj hsend (hsize f (by simp)) hbytes.symm
      exact ⟨hello, rest, rfl, hcluster, hversion, hverify, hrest⟩
  · intro pieces pieces' here there token hlc verify sess sess' sent sent' more more' hi hr hin hin'
    obtain ⟨ack, hread, hmin, hmax, hnode, hver, hhello⟩ := connectInitiator_eq_ok hi
    obtain ⟨hello, hread', -, -, -, hnode', -, hack⟩ := acceptResponder_eq_ok hr
    cases readOneFrame_first hread hack hin
    cases readOneFrame_first hread' hhello hin'
    exact ⟨hnode, hnode', hver, hver ▸ hmin, hver ▸ hmax⟩

end Handshake

end Replication

end GrumpyDB
