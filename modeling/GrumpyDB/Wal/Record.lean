/-
The records of the write-ahead log and their bytes.

A record whose length fits the length field is read back whatever follows it, and a record that is
cut is not read at all.
-/
import GrumpyDB.Page
import GrumpyDB.Lib.Except
import GrumpyDB.Lib.Framing
import GrumpyDB.Lib.SortedMap
import Mathlib.Order.Fin.Basic

namespace GrumpyDB

open List

/-- An unsigned number of 128 bits. -/
abbrev U128 := Fin (2 ^ 128)

instance instNeZeroU128 : NeZero (2 ^ 128) := ⟨by decide⟩

/-- A packed reading of a hybrid logical clock: 48 bits of milliseconds, then a
16-bit counter. -/
abbrev Hlc := UInt64

/-! ### Vector clocks -/

def MAX_VCLOCK_ENTRIES : Nat := 4096

def VCLOCK_ENTRY_SIZE : Nat := 24

@[ext] structure VectorClock where
  entries : SortedMap U128 UInt64

inductive VClockError where
  | truncated (needed have_ : Nat)
  | tooManyEntries (n : UInt16)

def VClockError.display : VClockError → String
  | truncated needed have_ =>
    "truncated vector clock: need " ++ toString needed ++ " bytes, have " ++ toString have_
  | tooManyEntries n => "vector clock has too many entries: " ++ toString n ++ " (max 4096)"

namespace VectorClock

def singleton (nodeId : U128) (counter : UInt64) : VectorClock :=
  ⟨SortedMap.empty.insert nodeId counter⟩

def len (vc : VectorClock) : Nat := vc.entries.entries.length

def encodedLen (vc : VectorClock) : Nat := 2 + vc.len * VCLOCK_ENTRY_SIZE

def encodeEntry (e : U128 × UInt64) : List UInt8 := leBytes 16 e.1.val ++ leBytes 8 e.2.toNat

def encode (vc : VectorClock) : List UInt8 :=
  leBytes 2 vc.len ++ vc.entries.entries.flatMap encodeEntry

def decodeEntries : Nat → List UInt8 → SortedMap U128 UInt64 → SortedMap U128 UInt64
  | 0, _, m => m
  | n + 1, buf, m =>
    let node := Fin.ofNat _ (leNat (slice 0 16 buf))
    let counter := UInt64.ofNat (leNat (slice 16 8 buf))
    decodeEntries n (buf.drop VCLOCK_ENTRY_SIZE) (m.insert node counter)

def decode (buf : List UInt8) : Except VClockError (VectorClock × Nat) :=
  if buf.length < 2 then .error (.truncated 2 buf.length)
  else
    let n := leNat (slice 0 2 buf)
    if n > MAX_VCLOCK_ENTRIES then .error (.tooManyEntries (UInt16.ofNat n))
    else
      let total := 2 + n * VCLOCK_ENTRY_SIZE
      if buf.length < total then .error (.truncated total buf.length)
      else .ok (⟨decodeEntries n (buf.drop 2) SortedMap.empty⟩, total)

@[simp] theorem length_encodeEntry (e : U128 × UInt64) :
    (encodeEntry e).length = VCLOCK_ENTRY_SIZE := by
  simp [encodeEntry, VCLOCK_ENTRY_SIZE]

@[simp] theorem length_encode (vc : VectorClock) : vc.encode.length = vc.encodedLen := by
  rw [encode, length_append, length_leBytes,
    length_flatMap_const fun e _ => length_encodeEntry e, encodedLen, len]

@[simp] theorem len_singleton (nodeId : U128) (counter : UInt64) :
    (singleton nodeId counter).len = 1 := rfl

theorem decodeEntries_flatMap {es : List (U128 × UInt64)} {m : SortedMap U128 UInt64}
    (rest : List UInt8) (h : (m.entries ++ es).Pairwise fun x y => x.1 < y.1) :
    (decodeEntries es.length (es.flatMap encodeEntry ++ rest) m).entries = m.entries ++ es := by
  induction es generalizing m with
  | nil => simp [decodeEntries]
  | cons e es ih =>
    obtain ⟨node, counter⟩ := e
    have hnode : Fin.ofNat (2 ^ 128) (leNat (leBytes 16 node.val)) = node := by
      apply Fin.ext
      rw [leNat_leBytes, Fin.val_ofNat, Nat.mod_eq_of_lt (by omega), Nat.mod_eq_of_lt (by omega)]
    have hinsert : (m.insert node counter).entries = m.entries ++ [(node, counter)] := by
      refine SortedMap.entries_insert_of_lt fun x hx => ?_
      exact (pairwise_append.mp h).2.2 x hx (node, counter) (by simp)
    have hbuf : (((node, counter) :: es).flatMap encodeEntry ++ rest) =
        leBytes 16 node.val ++ (leBytes 8 counter.toNat ++ (es.flatMap encodeEntry ++ rest)) := by
      simp [encodeEntry]
    have hdrop : (((node, counter) :: es).flatMap encodeEntry ++ rest).drop VCLOCK_ENTRY_SIZE =
        es.flatMap encodeEntry ++ rest := by
      rw [flatMap_cons, append_assoc, drop_left' (length_encodeEntry _)]
    rw [length_cons, decodeEntries, hdrop, hbuf, slice_append_self (length_leBytes _ _),
      slice_append_right (by simp), length_leBytes, slice_append_self (length_leBytes _ _),
      hnode, ofNat_leNat_u64, ih, hinsert, append_assoc]
    · rfl
    · rwa [hinsert, append_assoc]

theorem decode_encode {vc : VectorClock} (h : vc.len ≤ MAX_VCLOCK_ENTRIES) (rest : List UInt8) :
    decode (vc.encode ++ rest) = .ok (vc, vc.encodedLen) := by
  have hn : leNat (slice 0 2 (vc.encode ++ rest)) = vc.len := by
    rw [encode, append_assoc, slice_append_self (length_leBytes _ _), leNat_leBytes]
    exact Nat.mod_eq_of_lt (by simp only [MAX_VCLOCK_ENTRIES] at h; omega)
  have hlen : (vc.encode ++ rest).length = vc.encodedLen + rest.length := by simp
  have htotal : 2 + vc.len * VCLOCK_ENTRY_SIZE = vc.encodedLen := rfl
  have hdrop : (vc.encode ++ rest).drop 2 = vc.entries.entries.flatMap encodeEntry ++ rest := by
    rw [encode, append_assoc, drop_left' (length_leBytes _ _)]
  have hentries : decodeEntries vc.len ((vc.encode ++ rest).drop 2) SortedMap.empty =
      vc.entries := by
    refine SortedMap.ext ?_
    rw [hdrop, len, decodeEntries_flatMap rest (by simpa [SortedMap.empty] using vc.entries.sorted)]
    rfl
  rw [decode, if_neg (by omega)]
  simp only [hn, htotal, hentries]
  rw [if_neg (by omega), if_neg (by omega)]

end VectorClock

/-! ### Records -/

inductive WalOpType where
  | pageWrite
  | commit
  | rollback
  | checkpoint
  deriving DecidableEq

namespace WalOpType

def asU8 : WalOpType → UInt8
  | pageWrite => 1
  | commit => 2
  | rollback => 3
  | checkpoint => 4

def fromU8 (v : UInt8) : Option WalOpType :=
  [pageWrite, commit, rollback, checkpoint].find? fun op => op.asU8 = v

@[simp] theorem fromU8_asU8 (op : WalOpType) : fromU8 op.asU8 = some op := by
  cases op <;> rfl

end WalOpType

def WAL_RECORD_HEADER_SIZE_V2 : Nat := 49

@[ext] structure WalRecord where
  recordLen : UInt32
  lsn : UInt64
  txId : UInt64
  opType : WalOpType
  originNodeId : U128
  hlc : Hlc
  vectorClock : VectorClock
  /-- The page written; 0 if none is. -/
  pageId : UInt32
  data : List UInt8
  checksum : UInt32

namespace WalRecord

def encodedV2Len (r : WalRecord) : Nat :=
  WAL_RECORD_HEADER_SIZE_V2 + r.vectorClock.encodedLen +
    if r.opType = .pageWrite then 4 + 4 + r.data.length else 0

def payloadBytes (r : WalRecord) : List UInt8 :=
  if r.opType = .pageWrite then
    leBytes 4 r.pageId.toNat ++ leBytes 4 r.data.length ++ r.data
  else []

def headBytes (r : WalRecord) : List UInt8 :=
  leBytes 4 r.recordLen.toNat ++ leBytes 8 r.lsn.toNat ++ leBytes 8 r.txId.toNat ++
    [r.opType.asU8] ++ leBytes 16 r.originNodeId.val ++ leBytes 8 r.hlc.toNat

def toBytes (r : WalRecord) : List UInt8 :=
  r.headBytes ++ r.vectorClock.encode ++ r.payloadBytes ++ leBytes 4 r.checksum.toNat

variable [Crc32]

/-- The checksum of all fields but the length and the checksum itself. -/
def computeChecksumV2 (r : WalRecord) : UInt32 :=
  Crc32.crc32 (leBytes 8 r.lsn.toNat ++ leBytes 8 r.txId.toNat ++ [r.opType.asU8] ++
    leBytes 16 r.originNodeId.val ++ leBytes 8 r.hlc.toNat ++ r.vectorClock.encode ++
    r.payloadBytes)

def finish (r : WalRecord) : WalRecord :=
  { r with recordLen := UInt32.ofNat r.encodedV2Len, checksum := r.computeChecksumV2 }

def pageWrite (lsn txId : UInt64) (originNodeId : U128) (hlc : Hlc) (vectorClock : VectorClock)
    (pageId : UInt32) (before after : List UInt8) : WalRecord :=
  finish ⟨0, lsn, txId, .pageWrite, originNodeId, hlc, vectorClock, pageId, after ++ before, 0⟩

def commit (lsn txId : UInt64) (originNodeId : U128) (hlc : Hlc) (vectorClock : VectorClock) :
    WalRecord :=
  finish ⟨0, lsn, txId, .commit, originNodeId, hlc, vectorClock, 0, [], 0⟩

def checkpoint (lsn : UInt64) (originNodeId : U128) (hlc : Hlc) (vectorClock : VectorClock) :
    WalRecord :=
  finish ⟨0, lsn, 0, .checkpoint, originNodeId, hlc, vectorClock, 0, [], 0⟩

def decodePayload (opType : WalOpType) (lsn : UInt64) (buf : List UInt8)
    (cursor payloadEnd : Nat) : Except GrumpyError (UInt32 × List UInt8 × Nat) :=
  if opType = .pageWrite then
    if cursor + 8 > payloadEnd then .error (.walCorrupted lsn)
    else
      let pageId := UInt32.ofNat (leNat (slice cursor 4 buf))
      let dataLen := leNat (slice (cursor + 4) 4 buf)
      if cursor + 8 + dataLen > payloadEnd then .error (.walCorrupted lsn)
      else .ok (pageId, slice (cursor + 8) dataLen buf, cursor + 8 + dataLen)
  else .ok (0, [], cursor)

def fromBytesV2 (buf : List UInt8) : Except GrumpyError (WalRecord × Nat) := do
  if buf.length < 4 then throw (.walCorrupted 0)
  let recordLen := leNat (slice 0 4 buf)
  if recordLen < WAL_RECORD_HEADER_SIZE_V2 ∨ buf.length < recordLen then throw (.walCorrupted 0)
  let lsn := UInt64.ofNat (leNat (slice 4 8 buf))
  let txId := UInt64.ofNat (leNat (slice 12 8 buf))
  let opType ← (WalOpType.fromU8 (UInt8.ofNat (leNat (slice 20 1 buf)))).elim
    (throw (.walCorrupted lsn)) pure
  let originNodeId : U128 := Fin.ofNat _ (leNat (slice 21 16 buf))
  let hlc := UInt64.ofNat (leNat (slice 37 8 buf))
  let payloadEnd := recordLen - 4
  let (vectorClock, consumed) ← (VectorClock.decode (slice 45 (payloadEnd - 45) buf)).mapError
    fun e => GrumpyError.vectorClock e.display
  let (pageId, data, cursor) ← decodePayload opType lsn buf (45 + consumed) payloadEnd
  if cursor ≠ payloadEnd then throw (.walCorrupted lsn)
  let checksum := UInt32.ofNat (leNat (slice cursor 4 buf))
  let record := ⟨UInt32.ofNat recordLen, lsn, txId, opType, originNodeId, hlc, vectorClock, pageId,
    data, checksum⟩
  if computeChecksumV2 record ≠ checksum then throw (.walCorrupted lsn)
  return (record, recordLen)

/-! ### Reading a record back -/

/-- A record that is what its bytes say: its length and its checksum are filled
in, and its length fits the length field. -/
structure Sealed (r : WalRecord) : Prop where
  recordLen : r.recordLen.toNat = r.encodedV2Len
  checksum : r.checksum = r.computeChecksumV2
  clock : r.vectorClock.len ≤ MAX_VCLOCK_ENTRIES
  payload : r.opType ≠ .pageWrite → r.pageId = 0 ∧ r.data = []

variable {r : WalRecord}

theorem sealed_finish (hlen : r.encodedV2Len < 2 ^ 32)
    (hclock : r.vectorClock.len ≤ MAX_VCLOCK_ENTRIES)
    (hpayload : r.opType ≠ .pageWrite → r.pageId = 0 ∧ r.data = []) : (finish r).Sealed where
  recordLen := by
    show (UInt32.ofNat r.encodedV2Len).toNat = _
    rw [UInt32.toNat_ofNat_of_lt' hlen]
    rfl
  checksum := rfl
  clock := hclock
  payload := hpayload

omit [Crc32] in
@[simp] theorem length_headBytes (r : WalRecord) : r.headBytes.length = 45 := by
  simp [headBytes]

omit [Crc32] in
theorem length_payloadBytes (r : WalRecord) :
    r.payloadBytes.length = if r.opType = .pageWrite then 4 + 4 + r.data.length else 0 := by
  by_cases h : r.opType = .pageWrite
  · simp [payloadBytes, h]
    omega
  · simp [payloadBytes, h]

omit [Crc32] in
@[simp] theorem length_toBytes (r : WalRecord) : r.toBytes.length = r.encodedV2Len := by
  simp only [toBytes, length_append, length_headBytes, VectorClock.length_encode,
    length_payloadBytes, length_leBytes, encodedV2Len, WAL_RECORD_HEADER_SIZE_V2]
  omega

omit [Crc32] in
theorem le_encodedV2Len (r : WalRecord) : WAL_RECORD_HEADER_SIZE_V2 + 2 ≤ r.encodedV2Len := by
  simp only [encodedV2Len, VectorClock.encodedLen]
  omega

/-- The fields in front of the vector clock, read back. -/
structure HeadRead (r : WalRecord) (buf : List UInt8) : Prop where
  recordLen : leNat (slice 0 4 buf) = r.recordLen.toNat
  lsn : UInt64.ofNat (leNat (slice 4 8 buf)) = r.lsn
  txId : UInt64.ofNat (leNat (slice 12 8 buf)) = r.txId
  opType : UInt8.ofNat (leNat (slice 20 1 buf)) = r.opType.asU8
  originNodeId : Fin.ofNat (2 ^ 128) (leNat (slice 21 16 buf)) = r.originNodeId
  hlc : UInt64.ofNat (leNat (slice 37 8 buf)) = r.hlc

omit [Crc32] in
theorem headRead (r : WalRecord) (rest : List UInt8) : r.HeadRead (r.headBytes ++ rest) := by
  have hfield (off len : Nat) (pre mid post : List UInt8) (h : r.headBytes = pre ++ mid ++ post)
      (hpre : pre.length = off) (hmid : mid.length = len) :
      slice off len (r.headBytes ++ rest) = mid := by
    rw [h, append_assoc, append_assoc, slice_append_right hpre.le, hpre, Nat.sub_self,
      slice_append_self hmid]
  have hlen : leNat (leBytes 4 r.recordLen.toNat) = r.recordLen.toNat := by
    rw [leNat_leBytes]
    exact Nat.mod_eq_of_lt r.recordLen.toNat_lt
  have horigin : Fin.ofNat (2 ^ 128) (leNat (leBytes 16 r.originNodeId.val)) = r.originNodeId := by
    apply Fin.ext
    rw [leNat_leBytes, Fin.val_ofNat, Nat.mod_eq_of_lt (by omega), Nat.mod_eq_of_lt (by omega)]
  constructor
  · rw [hfield 0 4 [] (leBytes 4 r.recordLen.toNat) _ (by simp [headBytes]; rfl) rfl
      (by simp), hlen]
  · rw [hfield 4 8 (leBytes 4 r.recordLen.toNat) (leBytes 8 r.lsn.toNat) _
      (by simp [headBytes]; rfl) (by simp) (by simp), ofNat_leNat_u64]
  · rw [hfield 12 8 (leBytes 4 r.recordLen.toNat ++ leBytes 8 r.lsn.toNat) (leBytes 8 r.txId.toNat)
      _ (by simp [headBytes]; rfl) (by simp) (by simp), ofNat_leNat_u64]
  · rw [hfield 20 1 (leBytes 4 r.recordLen.toNat ++ leBytes 8 r.lsn.toNat ++ leBytes 8 r.txId.toNat)
      [r.opType.asU8] _ (by simp [headBytes]; rfl) (by simp) (by simp)]
    simp [leNat]
  · rw [hfield 21 16 (leBytes 4 r.recordLen.toNat ++ leBytes 8 r.lsn.toNat ++
      leBytes 8 r.txId.toNat ++ [r.opType.asU8]) (leBytes 16 r.originNodeId.val) _
      (by simp [headBytes]; rfl) (by simp) (by simp), horigin]
  · rw [hfield 37 8 (leBytes 4 r.recordLen.toNat ++ leBytes 8 r.lsn.toNat ++
      leBytes 8 r.txId.toNat ++ [r.opType.asU8] ++ leBytes 16 r.originNodeId.val)
      (leBytes 8 r.hlc.toNat) [] (by simp [headBytes]) (by simp) (by simp), ofNat_leNat_u64]

theorem decodePayload_payloadBytes (h : r.Sealed) (pre rest : List UInt8) :
    decodePayload r.opType r.lsn (pre ++ r.payloadBytes ++ rest) pre.length
      (pre.length + r.payloadBytes.length) =
      .ok (r.pageId, r.data, pre.length + r.payloadBytes.length) := by
  rw [decodePayload]
  by_cases hop : r.opType = .pageWrite
  · have hpayload : r.payloadBytes.length = 8 + r.data.length := by
      simp [length_payloadBytes, hop]
    have hbuf : pre ++ r.payloadBytes ++ rest =
        pre ++ (leBytes 4 r.pageId.toNat ++ (leBytes 4 r.data.length ++ (r.data ++ rest))) := by
      simp [payloadBytes, hop]
    have hid : slice pre.length 4 (pre ++ r.payloadBytes ++ rest) = leBytes 4 r.pageId.toNat := by
      rw [hbuf, slice_append_right le_rfl, Nat.sub_self, slice_append_self (length_leBytes _ _)]
    have hlen : leNat (slice (pre.length + 4) 4 (pre ++ r.payloadBytes ++ rest)) =
        r.data.length := by
      have hfit := h.recordLen ▸ r.recordLen.toNat_lt
      simp only [encodedV2Len, hop, if_true] at hfit
      rw [hbuf, slice_append_right (by omega), slice_append_right (by simp)]
      simp only [length_leBytes, Nat.add_sub_cancel_left, Nat.sub_self]
      rw [slice_append_self (length_leBytes _ _), leNat_leBytes, Nat.mod_eq_of_lt (by omega)]
    have hdata : slice (pre.length + 8) r.data.length (pre ++ r.payloadBytes ++ rest) = r.data := by
      rw [hbuf, slice_append_right (by omega), slice_append_right (by simp),
        slice_append_right (by simp)]
      simp only [length_leBytes, Nat.add_sub_cancel_left]
      exact slice_append_self rfl
    simp only [hop, if_true, hid, hlen, hdata, ofNat_leNat_u32]
    rw [if_neg (by omega), if_neg (by omega), hpayload, Nat.add_assoc]
  · obtain ⟨hid, hdata⟩ := h.payload hop
    have hnil : r.payloadBytes = [] := by simp [payloadBytes, hop]
    simp [hop, hid, hdata, hnil]

/-- **A sealed record is read back**, whatever follows it. -/
theorem fromBytesV2_toBytes (h : r.Sealed) (rest : List UInt8) :
    fromBytesV2 (r.toBytes ++ rest) = .ok (r, r.encodedV2Len) := by
  obtain ⟨tail, htail⟩ : ∃ tail, r.toBytes ++ rest = r.headBytes ++ tail := by
    refine ⟨r.vectorClock.encode ++ r.payloadBytes ++ leBytes 4 r.checksum.toNat ++ rest, ?_⟩
    simp [toBytes]
  have hhead := htail ▸ r.headRead tail
  have hlen : (r.toBytes ++ rest).length = r.encodedV2Len + rest.length := by simp
  have hlow := r.le_encodedV2Len
  have hfour : 4 ≤ WAL_RECORD_HEADER_SIZE_V2 := by decide
  -- where the parts lie
  have hend : r.encodedV2Len - 4 =
      (r.headBytes ++ r.vectorClock.encode).length + r.payloadBytes.length := by
    simp only [encodedV2Len, length_payloadBytes, length_append, length_headBytes,
      VectorClock.length_encode, WAL_RECORD_HEADER_SIZE_V2]
    omega
  have hmid : slice 45 (r.encodedV2Len - 4 - 45) (r.toBytes ++ rest) =
      r.vectorClock.encode ++ r.payloadBytes := by
    have hbuf : r.toBytes ++ rest = r.headBytes ++ ((r.vectorClock.encode ++ r.payloadBytes) ++
        (leBytes 4 r.checksum.toNat ++ rest)) := by simp [toBytes]
    rw [hbuf, slice_append_right (by simp), length_headBytes, Nat.sub_self]
    apply slice_append_self
    simp only [length_append, length_headBytes] at hend ⊢
    omega
  have hpayload : decodePayload r.opType r.lsn (r.toBytes ++ rest) (45 + r.vectorClock.encodedLen)
      (r.encodedV2Len - 4) = .ok (r.pageId, r.data, r.encodedV2Len - 4) := by
    have := decodePayload_payloadBytes h (r.headBytes ++ r.vectorClock.encode)
      (leBytes 4 r.checksum.toNat ++ rest)
    rw [← hend] at this
    simpa [toBytes] using this
  have hsum : UInt32.ofNat (leNat (slice (r.encodedV2Len - 4) 4 (r.toBytes ++ rest))) =
      r.checksum := by
    have hbuf : r.toBytes ++ rest = (r.headBytes ++ r.vectorClock.encode ++ r.payloadBytes) ++
        (leBytes 4 r.checksum.toNat ++ rest) := by simp [toBytes]
    rw [hbuf, hend, ← length_append, slice_append_right le_rfl, Nat.sub_self,
      slice_append_self (length_leBytes _ _), ofNat_leNat_u32]
  have hrecord : (⟨UInt32.ofNat r.encodedV2Len, r.lsn, r.txId, r.opType, r.originNodeId, r.hlc,
      r.vectorClock, r.pageId, r.data, r.checksum⟩ : WalRecord) = r := by
    rw [← h.recordLen, UInt32.ofNat_toNat]
  rw [fromBytesV2]
  simp only [hhead.recordLen, hhead.lsn, hhead.txId, hhead.opType, hhead.originNodeId, hhead.hlc,
    h.recordLen, hmid, WalOpType.fromU8_asU8, VectorClock.decode_encode h.clock, Option.elim_some]
  rw [if_neg (by omega), if_neg (by omega)]
  simp only [Except.mapError, bind, Except.bind, pure, Except.pure, hpayload, hsum,
    hrecord, ← h.checksum, ne_eq, not_true_eq_false, if_false]

theorem fromBytesV2_cut (h : r.Sealed) {bytes : List UInt8} (hbytes : bytes <+: r.toBytes)
    (hlt : bytes.length < r.toBytes.length) : fromBytesV2 bytes = .error (.walCorrupted 0) := by
  rw [fromBytesV2]
  by_cases h4 : bytes.length < 4
  · rw [if_pos h4]
    rfl
  -- the length in front is all there
  have hlen : leNat (slice 0 4 bytes) = r.encodedV2Len := by
    obtain ⟨rest, hrest⟩ := hbytes
    rw [← slice_append_left (by omega), hrest, ← append_nil r.toBytes]
    have := (r.headRead (r.vectorClock.encode ++ r.payloadBytes ++ leBytes 4 r.checksum.toNat))
    rw [← h.recordLen, ← this.recordLen]
    simp [toBytes]
  rw [length_toBytes] at hlt
  simp only [hlen]
  rw [if_neg h4, if_pos (.inr hlt)]
  rfl

theorem framing : Framing Sealed toBytes (fun buf => (fromBytesV2 buf).toOption) some none where
  nil := rfl
  whole rest h := by rw [fromBytesV2_toBytes h, length_toBytes]; rfl
  cut h hbytes hlt := by rw [fromBytesV2_cut h hbytes hlt]; rfl

end WalRecord

/-! ### The header page -/

def WAL_MAGIC : List UInt8 := utf8 "GRUMPWAL"

def WAL_VERSION_V2 : Nat := 2

def WAL_VERSION_CURRENT : Nat := WAL_VERSION_V2

def WAL_HEADER_SIZE : Nat := PAGE_SIZE

def buildWalHeader (version : Nat) : List UInt8 :=
  WAL_MAGIC ++ leBytes 2 version ++ List.replicate (WAL_HEADER_SIZE - 10) 0

def parseWalHeader (hdr : List UInt8) : Except GrumpyError Nat :=
  if hdr.length < 10 then .error (.walCorrupted 0)
  else if hdr.take 8 ≠ WAL_MAGIC then .error (.walCorrupted 0)
  else
    let version := leNat (slice 8 2 hdr)
    if version > WAL_VERSION_CURRENT then .error (.unsupportedWalVersion (UInt16.ofNat version))
    else .ok version

@[simp] theorem length_WAL_MAGIC : WAL_MAGIC.length = 8 := by decide

@[simp] theorem length_buildWalHeader (version : Nat) :
    (buildWalHeader version).length = WAL_HEADER_SIZE := by
  have hsize : 10 ≤ WAL_HEADER_SIZE := by decide
  simp only [buildWalHeader, length_append, length_WAL_MAGIC, length_leBytes,
    length_replicate]
  omega

theorem parseWalHeader_buildWalHeader {n : Nat} (hn : 10 ≤ n) :
    parseWalHeader ((buildWalHeader WAL_VERSION_CURRENT).take n) = .ok WAL_VERSION_V2 := by
  have hbytes : (buildWalHeader WAL_VERSION_CURRENT).take n =
      WAL_MAGIC ++ (leBytes 2 2 ++ (replicate (WAL_HEADER_SIZE - 10) 0).take (n - 10)) := by
    rw [buildWalHeader, take_append, take_of_length_le (by simp; omega), append_assoc]
    congr 3
  rw [hbytes, parseWalHeader, if_neg (by simp; omega), take_left' length_WAL_MAGIC]
  have hversion : leNat (slice 8 2 (WAL_MAGIC ++
      (leBytes 2 2 ++ (replicate (WAL_HEADER_SIZE - 10) 0).take (n - 10)))) = 2 := by
    rw [slice_append_right (by simp), length_WAL_MAGIC, slice_append_self (length_leBytes _ _)]
    rfl
  rfl

end GrumpyDB
