/-
The frames peers exchange to replicate a log.

The token of a `Hello` and the reason of a `Bye` are texts with their length in two bytes in
front.
-/
import GrumpyDB.Page
import GrumpyDB.Lib.Except
import GrumpyDB.Lib.Framing
import GrumpyDB.Lib.Str

namespace GrumpyDB

open List Uuid

namespace Replication

def MAX_FRAME_PAYLOAD : Nat := 1 <<< 20

def FRAME_HEADER_SIZE : Nat := 5

def FRAME_TRAILER_SIZE : Nat := 4

inductive FrameType where
  | hello
  | helloAck
  | subscribe
  | walRecord
  | ack
  | heartbeat
  | bye
  deriving DecidableEq

inductive FrameError where
  | payloadTooLarge (len : UInt32)
  | unknownFrameType (b : UInt8)
  | truncatedPayload (kind : FrameType) (need got : Nat)
  | trailingBytes (n : Nat)
  | crcMismatch
  | invalidUtf8
  | invalidLengthPrefix (what : String)
  deriving DecidableEq

namespace FrameType

def asU8 : FrameType → UInt8
  | hello => 1
  | helloAck => 2
  | subscribe => 3
  | walRecord => 4
  | ack => 5
  | heartbeat => 6
  | bye => 7

def fromU8 (b : UInt8) : Except FrameError FrameType :=
  match [hello, helloAck, subscribe, walRecord, ack, heartbeat, bye].find? fun k => k.asU8 = b with
  | some kind => .ok kind
  | none => .error (.unknownFrameType b)

@[simp] theorem fromU8_asU8 (kind : FrameType) : fromU8 kind.asU8 = .ok kind := by
  cases kind <;> rfl

end FrameType

structure Hello where
  protocolVersion : UInt16
  clusterId : Uuid
  nodeId : Uuid
  token : String

structure HelloAck where
  protocolVersion : UInt16
  nodeId : Uuid
  highWaterHlc : UInt64

/-- A request for the records of one node from a clock reading on. -/
structure Subscribe where
  startNodeId : Uuid
  startHlc : UInt64

/-- How far a follower has applied the records of a node. -/
structure Ack where
  appliedNodeId : Uuid
  appliedHlc : UInt64

inductive Frame where
  | hello (h : Hello)
  | helloAck (a : HelloAck)
  | subscribe (s : Subscribe)
  | walRecord (raw : List UInt8)
  | ack (a : Ack)
  | heartbeat (senderHlc : UInt64)
  | bye (reason : String)

namespace Frame

def frameType : Frame → FrameType
  | hello _ => .hello
  | helloAck _ => .helloAck
  | subscribe _ => .subscribe
  | walRecord _ => .walRecord
  | ack _ => .ack
  | heartbeat _ => .heartbeat
  | bye _ => .bye

def encodeText (s : String) : List UInt8 := leBytes 2 (utf8 s).length ++ utf8 s

def encodePayload : Frame → List UInt8
  | hello h =>
    leBytes 2 h.protocolVersion.toNat ++ h.clusterId.bytes ++ h.nodeId.bytes ++ encodeText h.token
  | helloAck a =>
    leBytes 2 a.protocolVersion.toNat ++ a.nodeId.bytes ++ leBytes 8 a.highWaterHlc.toNat
  | subscribe s => s.startNodeId.bytes ++ leBytes 8 s.startHlc.toNat
  | walRecord raw => raw
  | ack a => a.appliedNodeId.bytes ++ leBytes 8 a.appliedHlc.toNat
  | heartbeat senderHlc => leBytes 8 senderHlc.toNat
  | bye reason => encodeText reason

end Frame

open Frame

/-- A payload that has to have exactly `need` bytes. -/
def checkFixed (kind : FrameType) (need : Nat) (payload : List UInt8) : Except FrameError Unit :=
  if payload.length ≠ need then
    if payload.length < need then .error (.truncatedPayload kind need payload.length)
    else .error (.trailingBytes (payload.length - need))
  else .ok ()

/-- The text at `off`, which ends the payload. -/
def decodeText (kind : FrameType) (off : Nat) (payload : List UInt8) : Except FrameError String :=
  if payload.length < off + 2 then .error (.truncatedPayload kind (off + 2) payload.length)
  else
    let total := off + 2 + leNat (slice off 2 payload)
    if payload.length < total then .error (.truncatedPayload kind total payload.length)
    else if payload.length ≠ total then .error (.trailingBytes (payload.length - total))
    else
      match fromUtf8? (slice (off + 2) (total - (off + 2)) payload) with
      | some s => .ok s
      | none => .error .invalidUtf8

def uuidAt (what : String) (off : Nat) (payload : List UInt8) : Except FrameError Uuid :=
  match Uuid.ofBytes? (slice off 16 payload) with
  | some u => .ok u
  | none => .error (.invalidLengthPrefix what)

def u64At (off : Nat) (payload : List UInt8) : UInt64 := UInt64.ofNat (leNat (slice off 8 payload))

def decodePayload (kind : FrameType) (payload : List UInt8) : Except FrameError Frame :=
  match kind with
  | .hello => do
    -- the checks of the text come first: the fields before it cannot fail after them
    let token ← decodeText kind 34 payload
    let clusterId ← uuidAt "cluster_id" 2 payload
    let nodeId ← uuidAt "node_id" 18 payload
    return .hello ⟨UInt16.ofNat (leNat (slice 0 2 payload)), clusterId, nodeId, token⟩
  | .helloAck => do
    checkFixed kind (2 + 16 + 8) payload
    let nodeId ← uuidAt "node_id" 2 payload
    return .helloAck ⟨UInt16.ofNat (leNat (slice 0 2 payload)), nodeId, u64At 18 payload⟩
  | .subscribe => do
    checkFixed kind (16 + 8) payload
    let startNodeId ← uuidAt "start_node_id" 0 payload
    return .subscribe ⟨startNodeId, u64At 16 payload⟩
  | .walRecord => .ok (.walRecord payload)
  | .ack => do
    checkFixed kind (16 + 8) payload
    let appliedNodeId ← uuidAt "applied_node_id" 0 payload
    return .ack ⟨appliedNodeId, u64At 16 payload⟩
  | .heartbeat => do
    checkFixed kind 8 payload
    return .heartbeat (u64At 0 payload)
  | .bye => do
    let reason ← decodeText kind 0 payload
    return .bye reason

section Wire

variable [Crc32]

def frameCrc (kind : FrameType) (payload : List UInt8) : UInt32 :=
  Crc32.crc32 (kind.asU8 :: payload)

def envelope (kind : FrameType) (payload : List UInt8) : List UInt8 :=
  leBytes 4 payload.length ++ [kind.asU8] ++ payload ++ leBytes 4 (frameCrc kind payload).toNat

def encodeFrame (frame : Frame) : Except FrameError (List UInt8) :=
  let payload := encodePayload frame
  if payload.length > MAX_FRAME_PAYLOAD then
    .error (.payloadTooLarge (UInt32.ofNat payload.length))
  else .ok (envelope frame.frameType payload)

/-- The frame at the head of a buffer and the number of bytes it takes; `none`
if it is not all there. -/
def decodeFrame (buf : List UInt8) : Except FrameError (Option (Frame × Nat)) :=
  if buf.length < FRAME_HEADER_SIZE then .ok none
  else
    let payloadLen := leNat (slice 0 4 buf)
    if payloadLen > MAX_FRAME_PAYLOAD then .error (.payloadTooLarge (UInt32.ofNat payloadLen))
    else
      let total := FRAME_HEADER_SIZE + payloadLen + FRAME_TRAILER_SIZE
      if buf.length < total then .ok none
      else do
        let kind ← FrameType.fromU8 (UInt8.ofNat (leNat (slice 4 1 buf)))
        let payload := slice FRAME_HEADER_SIZE payloadLen buf
        let onWireCrc := UInt32.ofNat (leNat (slice (FRAME_HEADER_SIZE + payloadLen) 4 buf))
        if frameCrc kind payload ≠ onWireCrc then .error .crcMismatch
        else do
          let frame ← decodePayload kind payload
          return some (frame, total)

end Wire

/-! ### Reading a frame back -/

/-- The length of a text fits the two bytes in front of it. -/
def Frame.Fits : Frame → Prop
  | .hello h => (utf8 h.token).length < 2 ^ 16
  | .bye reason => (utf8 reason).length < 2 ^ 16
  | _ => True

variable {kind : FrameType} {off : Nat}

theorem decodeText_encodeText {s : String} (pre : List UInt8) (hpre : pre.length = off)
    (hs : (utf8 s).length < 2 ^ 16) :
    decodeText kind off (pre ++ encodeText s) = .ok s := by
  have hlen : (pre ++ encodeText s).length = off + 2 + (utf8 s).length := by
    simp [encodeText]
    omega
  have hn : leNat (slice off 2 (pre ++ encodeText s)) = (utf8 s).length := by
    rw [encodeText, slice_field hpre (length_leBytes _ _), leNat_leBytes,
      Nat.mod_eq_of_lt (by omega)]
  have htext : slice (off + 2) (utf8 s).length (pre ++ encodeText s) = utf8 s := by
    have hbuf : pre ++ encodeText s = (pre ++ leBytes 2 (utf8 s).length) ++ (utf8 s ++ []) := by
      simp [encodeText]
    rw [hbuf, slice_field (by simp [hpre]) rfl]
  rw [decodeText, if_neg (by omega)]
  simp only [hn]
  rw [if_neg (by omega), if_neg (by simp only [not_not]; exact hlen), Nat.add_sub_cancel_left,
    htext, fromUtf8?_utf8]

theorem decodeText_encodeText_long {s : String} (pre : List UInt8) (hpre : pre.length = off)
    (hs : 2 ^ 16 ≤ (utf8 s).length) :
    ∃ e, decodeText kind off (pre ++ encodeText s) = .error e := by
  have hlen : (pre ++ encodeText s).length = off + 2 + (utf8 s).length := by
    simp [encodeText]
    omega
  have hn : leNat (slice off 2 (pre ++ encodeText s)) = (utf8 s).length % 2 ^ 16 := by
    rw [encodeText, slice_field hpre (length_leBytes _ _), leNat_leBytes,
      show 256 ^ 2 = 2 ^ 16 by rfl]
  rw [decodeText, if_neg (by omega)]
  rw [if_neg (by omega), if_pos (by omega)]
  exact ⟨_, rfl⟩

variable {payload : List UInt8}

theorem uuidAt_field {what : String} {u : Uuid} (pre post : List UInt8) (hpre : pre.length = off)
    (h : payload = pre ++ (u.bytes ++ post)) :
    uuidAt what off payload = .ok u := by
  rw [h, uuidAt, slice_field hpre u.size, ofBytes?_bytes]

theorem u16At_field {x : UInt16} (post : List UInt8) (h : payload = leBytes 2 x.toNat ++ post) :
    UInt16.ofNat (leNat (slice 0 2 payload)) = x := by
  rw [h, slice_append_self (length_leBytes _ _), ofNat_leNat_u16]

theorem u64At_field {x : UInt64} (pre post : List UInt8) (hpre : pre.length = off)
    (h : payload = pre ++ (leBytes 8 x.toNat ++ post)) :
    u64At off payload = x := by
  rw [h, u64At, slice_field hpre (length_leBytes _ _), ofNat_leNat_u64]

theorem checkFixed_of_length {need : Nat} (h : payload.length = need) :
    checkFixed kind need payload = .ok () := by
  simp [checkFixed, h]

theorem nodeHlc_field (kind : FrameType) (what : String) (u : Uuid) (hlc : UInt64) :
    checkFixed kind (16 + 8) (u.bytes ++ leBytes 8 hlc.toNat) = .ok () ∧
    uuidAt what 0 (u.bytes ++ leBytes 8 hlc.toNat) = .ok u ∧
    u64At 16 (u.bytes ++ leBytes 8 hlc.toNat) = hlc :=
  ⟨checkFixed_of_length (by simp [Uuid.size]), uuidAt_field [] _ rfl rfl,
    u64At_field u.bytes [] u.size (by simp)⟩

theorem decodePayload_encodePayload {frame : Frame} (h : frame.Fits) :
    decodePayload frame.frameType frame.encodePayload = .ok frame := by
  cases frame with
  | hello hello =>
    obtain ⟨version, cluster, node, token⟩ := hello
    let payload := leBytes 2 version.toNat ++ cluster.bytes ++ node.bytes ++ encodeText token
    have htoken : decodeText .hello 34 payload = .ok token :=
      decodeText_encodeText _ (by simp [size]) h
    have hversion : UInt16.ofNat (leNat (slice 0 2 payload)) = version :=
      u16At_field _ (by simp only [payload]; rfl)
    have hcluster : uuidAt "cluster_id" 2 payload = .ok cluster :=
      uuidAt_field (leBytes 2 version.toNat) (node.bytes ++ encodeText token) (by simp)
        (by simp [payload])
    have hnode : uuidAt "node_id" 18 payload = .ok node :=
      uuidAt_field (leBytes 2 version.toNat ++ cluster.bytes) (encodeText token)
        (by simp [size]) (by simp [payload])
    show (do
      let token ← decodeText .hello 34 payload
      let clusterId ← uuidAt "cluster_id" 2 payload
      let nodeId ← uuidAt "node_id" 18 payload
      return Frame.hello ⟨UInt16.ofNat (leNat (slice 0 2 payload)), clusterId, nodeId, token⟩) = _
    rw [htoken, hcluster, hnode, hversion]
    rfl
  | helloAck a =>
    obtain ⟨version, node, hlc⟩ := a
    let payload := leBytes 2 version.toNat ++ node.bytes ++ leBytes 8 hlc.toNat
    have hsize : checkFixed .helloAck (2 + 16 + 8) payload = .ok () :=
      checkFixed_of_length (by simp [payload, size])
    have hversion : UInt16.ofNat (leNat (slice 0 2 payload)) = version :=
      u16At_field _ (by simp only [payload]; rfl)
    have hnode : uuidAt "node_id" 2 payload = .ok node :=
      uuidAt_field (leBytes 2 version.toNat) (leBytes 8 hlc.toNat) (by simp) (by simp [payload])
    have hhlc : u64At 18 payload = hlc :=
      u64At_field (leBytes 2 version.toNat ++ node.bytes) [] (by simp [size])
        (by simp [payload])
    show (do
      checkFixed .helloAck (2 + 16 + 8) payload
      let nodeId ← uuidAt "node_id" 2 payload
      return Frame.helloAck ⟨UInt16.ofNat (leNat (slice 0 2 payload)), nodeId,
        u64At 18 payload⟩) = _
    rw [hsize, hnode, hversion, hhlc]
    rfl
  | subscribe s =>
    obtain ⟨hsize, hnode, hhlc⟩ := nodeHlc_field .subscribe "start_node_id" s.startNodeId s.startHlc
    simp only [decodePayload, frameType, encodePayload, hsize, hnode, hhlc]
    rfl
  | walRecord raw => rfl
  | ack a =>
    obtain ⟨hsize, hnode, hhlc⟩ := nodeHlc_field .ack "applied_node_id" a.appliedNodeId a.appliedHlc
    simp only [decodePayload, frameType, encodePayload, hsize, hnode, hhlc]
    rfl
  | heartbeat hlc =>
    have hsize : checkFixed .heartbeat 8 (leBytes 8 hlc.toNat) = .ok () :=
      checkFixed_of_length (by simp)
    have hhlc : u64At 0 (leBytes 8 hlc.toNat) = hlc := u64At_field [] [] rfl (by simp)
    simp only [decodePayload, encodePayload, hhlc]
    rfl
  | bye reason =>
    have hreason : decodeText .bye 0 (encodeText reason) = .ok reason :=
      decodeText_encodeText [] rfl h
    simp only [decodePayload, frameType, encodePayload, hreason]
    rfl

section Wire

variable [Crc32] {frame : Frame} {bytes : List UInt8}

/-- A frame that can be sent and is read back: its texts fit, and so does its payload. -/
structure Frame.Sendable (frame : Frame) : Prop where
  fits : frame.Fits
  size : frame.encodePayload.length ≤ MAX_FRAME_PAYLOAD

def Frame.wire (frame : Frame) : List UInt8 := envelope frame.frameType frame.encodePayload

theorem encodeFrame_eq_ok_iff :
    encodeFrame frame = .ok bytes ↔
      frame.encodePayload.length ≤ MAX_FRAME_PAYLOAD ∧ bytes = frame.wire := by
  rw [encodeFrame]
  by_cases h : frame.encodePayload.length ≤ MAX_FRAME_PAYLOAD
  · rw [if_neg (Nat.not_lt.mpr h)]
    simp only [h, Except.ok.injEq, true_and]
    exact eq_comm
  · rw [if_pos (Nat.lt_of_not_le h)]
    simp [h]

@[simp] theorem length_envelope (kind : FrameType) (payload : List UInt8) :
    (envelope kind payload).length =
      FRAME_HEADER_SIZE + payload.length + FRAME_TRAILER_SIZE := by
  simp only [envelope, length_append, length_leBytes, length_singleton,
    FRAME_HEADER_SIZE, FRAME_TRAILER_SIZE]

theorem leNat_envelope {kind : FrameType} {payload rest : List UInt8}
    (h : payload.length ≤ MAX_FRAME_PAYLOAD) :
    leNat (slice 0 4 (envelope kind payload ++ rest)) = payload.length := by
  have hlt : payload.length < 256 ^ 4 := h.trans_lt (by decide)
  rw [envelope, append_assoc, append_assoc, append_assoc,
    slice_append_self (length_leBytes _ _), leNat_leBytes, Nat.mod_eq_of_lt hlt]

/-- What is in the envelope is what the payload says, whatever follows it. -/
theorem decodeFrame_envelope (hsize : frame.encodePayload.length ≤ MAX_FRAME_PAYLOAD)
    (rest : List UInt8) :
    decodeFrame (frame.wire ++ rest) = (decodePayload frame.frameType frame.encodePayload).map
      fun f => some (f, frame.wire.length) := by
  let kind := frame.frameType
  let payload := frame.encodePayload
  have hlen : leNat (slice 0 4 (frame.wire ++ rest)) = payload.length := leNat_envelope hsize
  have hlength : (frame.wire ++ rest).length =
      FRAME_HEADER_SIZE + payload.length + FRAME_TRAILER_SIZE + rest.length := by
    rw [length_append, wire, length_envelope]
  have hkind : UInt8.ofNat (leNat (slice 4 1 (frame.wire ++ rest))) = kind.asU8 := by
    have hbuf : frame.wire ++ rest = leBytes 4 payload.length ++ ([kind.asU8] ++
        (payload ++ leBytes 4 (frameCrc kind payload).toNat ++ rest)) := by
      simp [wire, envelope, kind, payload]
    rw [hbuf, slice_field (length_leBytes _ _) (length_singleton)]
    simp [leNat]
  have hpayload : slice FRAME_HEADER_SIZE payload.length (frame.wire ++ rest) = payload := by
    have hbuf : frame.wire ++ rest = (leBytes 4 payload.length ++ [kind.asU8]) ++ (payload ++
        (leBytes 4 (frameCrc kind payload).toNat ++ rest)) := by
      simp [wire, envelope, kind, payload]
    rw [hbuf, slice_field (by simp [FRAME_HEADER_SIZE]) rfl]
  have hcrc : UInt32.ofNat (leNat (slice (FRAME_HEADER_SIZE + payload.length) 4
      (frame.wire ++ rest))) = frameCrc kind payload := by
    have hbuf : frame.wire ++ rest = (leBytes 4 payload.length ++ [kind.asU8] ++ payload) ++
        (leBytes 4 (frameCrc kind payload).toNat ++ rest) := by
      simp [wire, envelope, kind, payload]
    rw [hbuf, slice_field (by simp [FRAME_HEADER_SIZE]; omega) (length_leBytes _ _),
      ofNat_leNat_u32]
  rw [decodeFrame, if_neg (by omega)]
  simp only [hlen, hkind, hpayload, hcrc]
  rw [if_neg (Nat.not_lt.mpr hsize), if_neg (by omega), FrameType.fromU8_asU8]
  simp only [bind, Except.bind, ne_eq]
  rw [wire, length_envelope]
  rfl

theorem decodeFrame_wire (h : frame.Sendable) (rest : List UInt8) :
    decodeFrame (frame.wire ++ rest) = .ok (some (frame, frame.wire.length)) := by
  rw [decodeFrame_envelope h.size, decodePayload_encodePayload h.fits]
  rfl

omit [Crc32] in
theorem decodePayload_of_not_fits (h : ¬ frame.Fits) :
    ∃ e, decodePayload frame.frameType frame.encodePayload = .error e := by
  cases frame with
  | hello hello =>
    let front := leBytes 2 hello.protocolVersion.toNat ++ hello.clusterId.bytes ++
      hello.nodeId.bytes
    have hfront : front.length = 34 := by simp [front, size]
    obtain ⟨e, he⟩ : ∃ e, decodeText .hello 34 (front ++ encodeText hello.token) = .error e :=
      decodeText_encodeText_long front hfront (Nat.le_of_not_lt h)
    refine ⟨e, ?_⟩
    show (do
      let token ← decodeText .hello 34 (front ++ encodeText hello.token)
      _) = _
    rw [he]
    rfl
  | bye reason =>
    obtain ⟨e, he⟩ : ∃ e, decodeText .bye 0 (encodeText reason) = .error e :=
      decodeText_encodeText_long [] rfl (Nat.le_of_not_lt h)
    refine ⟨e, ?_⟩
    simp only [decodePayload, frameType, encodePayload, he]
    rfl
  | _ => exact absurd trivial h

theorem decodeFrame_of_not_fits (hsize : frame.encodePayload.length ≤ MAX_FRAME_PAYLOAD)
    (h : ¬ frame.Fits) (rest : List UInt8) : ∃ e, decodeFrame (frame.wire ++ rest) = .error e := by
  obtain ⟨e, he⟩ := decodePayload_of_not_fits h
  refine ⟨e, ?_⟩
  rw [decodeFrame_envelope hsize, he]
  rfl

/-- **Frames on the wire.**  What `encode_frame` gives for a frame is read back as
that frame, whatever follows, if and only if its text has less than 2 ^ 16 bytes. -/
theorem frame_round_trip_iff (h : encodeFrame frame = .ok bytes) :
    (∀ rest, decodeFrame (bytes ++ rest) = .ok (some (frame, bytes.length))) ↔ frame.Fits := by
  obtain ⟨hsize, rfl⟩ := encodeFrame_eq_ok_iff.mp h
  constructor
  · intro hround
    by_contra hnot
    obtain ⟨e, he⟩ := decodeFrame_of_not_fits hsize hnot []
    cases he.symm.trans (hround [])
  · exact fun hfits rest => decodeFrame_wire ⟨hfits, hsize⟩ rest

omit [Crc32] in
theorem frame_round_trip_heartbeat : ∃ (_ : Crc32) (bytes : List UInt8),
    encodeFrame (.heartbeat 7) = .ok bytes ∧
    ∀ rest, decodeFrame (bytes ++ rest) = .ok (some (.heartbeat 7, bytes.length)) := by
  let crc : Crc32 := ⟨fun _ => 0⟩
  have hok : encodeFrame (.heartbeat 7) = .ok (Frame.heartbeat 7).wire :=
    encodeFrame_eq_ok_iff.mpr ⟨by decide, rfl⟩
  exact ⟨crc, _, hok, (frame_round_trip_iff hok).mpr trivial⟩

omit [Crc32] in
theorem length_utf8_replicate (n : Nat) :
    (utf8 (String.ofList (List.replicate n 'a'))).length = n := by
  rw [length_utf8, String.toList_ofList]
  induction n with
  | zero => rfl
  | succ n ih =>
    rw [replicate_succ, String.utf8Len_cons, ih]
    rfl

omit [Crc32] in
/-- A reason of 2 ^ 16 bytes is sent, and cannot be read. -/
theorem long_reason_is_not_read : ∃ (_ : Crc32) (reason : String) (bytes : List UInt8)
    (e : FrameError), encodeFrame (.bye reason) = .ok bytes ∧ decodeFrame bytes = .error e := by
  let crc : Crc32 := ⟨fun _ => 0⟩
  let reason := String.ofList (replicate (2 ^ 16) 'a')
  have hlen : (utf8 reason).length = 2 ^ 16 := length_utf8_replicate _
  have hsize : (Frame.bye reason).encodePayload.length ≤ MAX_FRAME_PAYLOAD := by
    rw [encodePayload, encodeText, length_append, hlen]
    decide
  have hnot : ¬ (Frame.bye reason).Fits := by
    simp [Frame.Fits, hlen]
  obtain ⟨e, he⟩ := decodeFrame_of_not_fits hsize hnot []
  rw [append_nil] at he
  exact ⟨crc, reason, _, e, encodeFrame_eq_ok_iff.mpr ⟨hsize, rfl⟩, he⟩

theorem decodeFrame_cut (h : frame.Sendable) (hbytes : bytes <+: frame.wire)
    (hlt : bytes.length < frame.wire.length) : decodeFrame bytes = .ok none := by
  rw [decodeFrame]
  by_cases hhead : bytes.length < FRAME_HEADER_SIZE
  · rw [if_pos hhead]
  have hlen : leNat (slice 0 4 bytes) = frame.encodePayload.length := by
    obtain ⟨rest, hrest⟩ := hbytes
    have hfour : 0 + 4 ≤ bytes.length := by
      simp only [FRAME_HEADER_SIZE] at hhead
      omega
    rw [← slice_append_left hfour, hrest, ← append_nil frame.wire]
    exact leNat_envelope h.size
  have hsize : ¬ frame.encodePayload.length > MAX_FRAME_PAYLOAD := Nat.not_lt.mpr h.size
  rw [wire, length_envelope] at hlt
  rw [if_neg hhead]
  simp only [hlen]
  rw [if_neg hsize, if_pos hlt]

theorem framing : Framing Frame.Sendable Frame.wire decodeFrame (fun f => .ok (some f))
    (.ok none) where
  nil := rfl
  whole rest h := decodeFrame_wire h rest
  cut h hbytes hlt := decodeFrame_cut h hbytes hlt

end Wire

end Replication

end GrumpyDB
