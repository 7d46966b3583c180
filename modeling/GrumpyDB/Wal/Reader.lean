/-
Reading the log file.

`fromBytesV2Checked` is the decoder with every index into its buffer written out, with no answer
where one is out of range; it always answers.
-/
import GrumpyDB.Wal.Writer

namespace GrumpyDB

open List Option WalRecord UInt64

/-! ### Indices in range -/

/-- `buf[off..off + len]`; none where this is out of range. -/
def checkedSlice (off len : Nat) (buf : List UInt8) : Option (List UInt8) :=
  if off + len ≤ buf.length then some (slice off len buf) else none

theorem checkedSlice_eq {off len : Nat} {buf : List UInt8} (h : off + len ≤ buf.length) :
    checkedSlice off len buf = some (slice off len buf) := if_pos h

namespace VectorClock

def decodeEntriesChecked (buf : List UInt8) :
    Nat → Nat → SortedMap U128 UInt64 → Option (SortedMap U128 UInt64)
  | 0, _, m => some m
  | n + 1, cur, m => do
    let nid ← checkedSlice cur 16 buf
    let cb ← checkedSlice (cur + 16) 8 buf
    decodeEntriesChecked buf n (cur + 16 + 8)
      (m.insert (Fin.ofNat _ (leNat nid)) (UInt64.ofNat (leNat cb)))

def decodeChecked (buf : List UInt8) : Option (Except VClockError (VectorClock × Nat)) :=
  if buf.length < 2 then some (.error (.truncated 2 buf.length))
  else do
    let count ← checkedSlice 0 2 buf
    let n := leNat count
    if n > MAX_VCLOCK_ENTRIES then some (.error (.tooManyEntries (UInt16.ofNat n)))
    else
      let total := 2 + n * VCLOCK_ENTRY_SIZE
      if buf.length < total then some (.error (.truncated total buf.length))
      else do
        let entries ← decodeEntriesChecked buf n 2 SortedMap.empty
        return .ok (⟨entries⟩, total)

variable {buf : List UInt8}

theorem decodeEntriesChecked_eq {n cur : Nat} (m : SortedMap U128 UInt64)
    (h : cur + n * VCLOCK_ENTRY_SIZE ≤ buf.length) :
    decodeEntriesChecked buf n cur m = some (decodeEntries n (buf.drop cur) m) := by
  induction n generalizing cur m with
  | zero => rfl
  | succ n ih =>
    simp only [VCLOCK_ENTRY_SIZE] at h ih
    have hdrop : (buf.drop cur).drop VCLOCK_ENTRY_SIZE = buf.drop (cur + 16 + 8) := by
      rw [drop_drop, VCLOCK_ENTRY_SIZE]
    have hnode : slice 0 16 (buf.drop cur) = slice cur 16 buf := by simp [slice]
    have hcount : slice 16 8 (buf.drop cur) = slice (cur + 16) 8 buf := by simp [slice]
    rw [decodeEntriesChecked, checkedSlice_eq (by omega), checkedSlice_eq (by omega), decodeEntries,
      hdrop, hcount]
    exact ih _ (by omega)

theorem decodeChecked_eq (buf : List UInt8) : decodeChecked buf = some (decode buf) := by
  unfold decodeChecked decode
  split
  · rfl
  · next hlen =>
    rw [checkedSlice_eq (by omega)]
    show (if _ then _ else _) = some (if _ then _ else _)
    split
    · rfl
    · show (if _ then _ else _) = some (if _ then _ else _)
      split
      · rfl
      · next htotal =>
        rw [decodeEntriesChecked_eq _ (Nat.le_of_not_lt htotal)]
        rfl

theorem decode_ok {vc : VectorClock} {consumed : Nat} (h : decode buf = .ok (vc, consumed)) :
    consumed = 2 + leNat (slice 0 2 buf) * VCLOCK_ENTRY_SIZE ∧ consumed ≤ buf.length ∧
      vc.entries = decodeEntries (leNat (slice 0 2 buf)) (buf.drop 2) SortedMap.empty := by
  unfold decode at h
  split at h
  · cases h
  · dsimp only at h
    split at h
    · cases h
    · split at h
      · cases h
      · next htotal =>
        cases h
        exact ⟨rfl, Nat.le_of_not_lt htotal, rfl⟩

end VectorClock

namespace WalRecord

variable [Crc32]

def decodePayloadChecked (opType : WalOpType) (lsn : UInt64) (buf : List UInt8)
    (cursor payloadEnd : Nat) : Option (Except GrumpyError (UInt32 × List UInt8 × Nat)) :=
  if opType = .pageWrite then
    if cursor + 8 > payloadEnd then some (.error (.walCorrupted lsn))
    else do
      let pageId ← checkedSlice cursor 4 buf
      let dataLen ← checkedSlice (cursor + 4) 4 buf
      if cursor + 8 + leNat dataLen > payloadEnd then some (.error (.walCorrupted lsn))
      else do
        let data ← checkedSlice (cursor + 8) (leNat dataLen) buf
        return .ok (UInt32.ofNat (leNat pageId), data, cursor + 8 + leNat dataLen)
  else some (.ok (0, [], cursor))

def fromBytesV2Checked (buf : List UInt8) : Option (Except GrumpyError (WalRecord × Nat)) :=
  if buf.length < 4 then some (.error (.walCorrupted 0))
  else do
    let len ← checkedSlice 0 4 buf
    let recordLen := leNat len
    if recordLen < WAL_RECORD_HEADER_SIZE_V2 ∨ buf.length < recordLen then
      some (.error (.walCorrupted 0))
    else do
      let lsnBytes ← checkedSlice 4 8 buf
      let lsn := UInt64.ofNat (leNat lsnBytes)
      let txId ← checkedSlice 12 8 buf
      let op ← checkedSlice 20 1 buf
      match WalOpType.fromU8 (UInt8.ofNat (leNat op)) with
      | none => some (.error (.walCorrupted lsn))
      | some opType => do
        let origin ← checkedSlice 21 16 buf
        let hlc ← checkedSlice 37 8 buf
        let payloadEnd := recordLen - 4
        let clockBytes ← checkedSlice 45 (payloadEnd - 45) buf
        let clock ← VectorClock.decodeChecked clockBytes
        match clock with
        | .error e => some (.error (.vectorClock e.display))
        | .ok (vectorClock, consumed) => do
          let payload ← decodePayloadChecked opType lsn buf (45 + consumed) payloadEnd
          match payload with
          | .error e => some (.error e)
          | .ok (pageId, data, cursor) =>
            if cursor ≠ payloadEnd then some (.error (.walCorrupted lsn))
            else do
              let sum ← checkedSlice cursor 4 buf
              let checksum := UInt32.ofNat (leNat sum)
              let record := ⟨UInt32.ofNat recordLen, lsn, UInt64.ofNat (leNat txId), opType,
                Fin.ofNat _ (leNat origin), UInt64.ofNat (leNat hlc), vectorClock, pageId, data,
                checksum⟩
              if computeChecksumV2 record ≠ checksum then some (.error (.walCorrupted lsn))
              else some (.ok (record, recordLen))

variable {buf : List UInt8}

omit [Crc32] in
theorem decodePayloadChecked_eq (opType : WalOpType) (lsn : UInt64) (cursor : Nat)
    {payloadEnd : Nat} (h : payloadEnd ≤ buf.length) :
    decodePayloadChecked opType lsn buf cursor payloadEnd =
      some (decodePayload opType lsn buf cursor payloadEnd) := by
  unfold decodePayloadChecked decodePayload
  split
  · split
    · rfl
    · rw [checkedSlice_eq (by omega), checkedSlice_eq (by omega)]
      show (if _ then _ else _) = some (if _ then _ else _)
      split
      · rfl
      · rw [checkedSlice_eq (by omega)]
        rfl
  · rfl

/-- **The decoder never indexes out of range**, whatever the bytes are. -/
theorem fromBytesV2Checked_eq (buf : List UInt8) :
    fromBytesV2Checked buf = some (fromBytesV2 buf) := by
  unfold fromBytesV2Checked fromBytesV2
  by_cases h4 : buf.length < 4
  · rw [if_pos h4, if_pos h4]
    rfl
  rw [if_neg h4, if_neg h4, checkedSlice_eq (by omega)]
  simp only [bind_eq_bind, bind_some]
  by_cases hlen : leNat (slice 0 4 buf) < WAL_RECORD_HEADER_SIZE_V2 ∨
      buf.length < leNat (slice 0 4 buf)
  · rw [if_pos hlen, if_pos hlen]
    rfl
  have hsize : WAL_RECORD_HEADER_SIZE_V2 = 49 := rfl
  rw [if_neg hlen, if_neg hlen]
  simp only [bind_some, checkedSlice_eq (show 4 + 8 ≤ buf.length by omega),
    checkedSlice_eq (show 12 + 8 ≤ buf.length by omega),
    checkedSlice_eq (show 20 + 1 ≤ buf.length by omega)]
  rcases WalOpType.fromU8 (UInt8.ofNat (leNat (slice 20 1 buf))) with _ | opType
  · rfl
  simp only [bind_some, checkedSlice_eq (show 21 + 16 ≤ buf.length by omega),
    checkedSlice_eq (show 37 + 8 ≤ buf.length by omega),
    checkedSlice_eq (show 45 + (leNat (slice 0 4 buf) - 4 - 45) ≤ buf.length by omega),
    VectorClock.decodeChecked_eq]
  rcases VectorClock.decode (slice 45 (leNat (slice 0 4 buf) - 4 - 45) buf) with e | ⟨vc, consumed⟩
  · rfl
  simp only [decodePayloadChecked_eq opType _ _
    (show leNat (slice 0 4 buf) - 4 ≤ buf.length by omega), bind_some]
  rcases hpayload : decodePayload opType (ofNat (leNat (slice 4 8 buf))) buf (45 + consumed)
    (leNat (slice 0 4 buf) - 4) with e | ⟨pageId, data, cursor⟩
  · simp only [Option.elim, pure, Except.pure, bind, Except.bind, Except.mapError, hpayload]
  simp only [Option.elim, pure, Except.pure, bind, Except.bind, Except.mapError, hpayload]
  by_cases hcursor : cursor ≠ leNat (slice 0 4 buf) - 4
  · rw [if_pos hcursor, if_pos hcursor]
    rfl
  rw [if_neg hcursor, checkedSlice_eq (by omega)]
  simp only [Option.bind_some]
  split <;> rfl

/-! ### What an accepted record was read from -/

/-- What the bytes say that `r` was read from. -/
structure ReadFrom (buf : List UInt8) (r : WalRecord) (n : Nat) : Prop where
  length : n = leNat (slice 0 4 buf)
  low : WAL_RECORD_HEADER_SIZE_V2 ≤ n
  high : n ≤ buf.length
  recordLen : r.recordLen = UInt32.ofNat n
  lsn : r.lsn = UInt64.ofNat (leNat (slice 4 8 buf))
  txId : r.txId = UInt64.ofNat (leNat (slice 12 8 buf))
  opType : WalOpType.fromU8 (UInt8.ofNat (leNat (slice 20 1 buf))) = some r.opType
  originNodeId : r.originNodeId = Fin.ofNat _ (leNat (slice 21 16 buf))
  hlc : r.hlc = UInt64.ofNat (leNat (slice 37 8 buf))
  clock : ∃ consumed,
    VectorClock.decode (slice 45 (n - 4 - 45) buf) = .ok (r.vectorClock, consumed) ∧
    decodePayload r.opType r.lsn buf (45 + consumed) (n - 4) = .ok (r.pageId, r.data, n - 4)
  checksum : r.checksum = UInt32.ofNat (leNat (slice (n - 4) 4 buf))
  valid : r.computeChecksumV2 = r.checksum

variable {r : WalRecord} {n : Nat}

/-- **What the decoder accepts.** -/
theorem fromBytesV2_ok (h : fromBytesV2 buf = .ok (r, n)) : ReadFrom buf r n := by
  unfold fromBytesV2 at h
  by_cases h4 : buf.length < 4
  · rw [if_pos h4] at h
    cases h
  rw [if_neg h4] at h
  by_cases hlen : leNat (slice 0 4 buf) < WAL_RECORD_HEADER_SIZE_V2 ∨
      buf.length < leNat (slice 0 4 buf)
  · rw [if_pos hlen] at h
    cases h
  rw [if_neg hlen] at h
  obtain ⟨opType, hop, h⟩ := except_bind_eq_ok.1 h
  obtain ⟨⟨vc, consumed⟩, hclock, h⟩ := except_bind_eq_ok.1 h
  obtain ⟨⟨pageId, data, cursor⟩, hpayload, h⟩ := except_bind_eq_ok.1 h
  dsimp only at h
  by_cases hcursor : cursor ≠ leNat (slice 0 4 buf) - 4
  · rw [if_pos hcursor] at h
    cases h
  rw [if_neg hcursor] at h
  have hend := not_not.1 hcursor
  subst hend
  split at h
  · cases h
  · next hsum =>
    cases h
    refine ⟨rfl, by omega, by omega, rfl, rfl, rfl, ?_, rfl, rfl,
      ⟨consumed, except_mapError_eq_ok.1 hclock, hpayload⟩, rfl, not_not.1 hsum⟩
    rcases hop' : WalOpType.fromU8 (UInt8.ofNat (leNat (slice 20 1 buf))) with _ | op
    · rw [hop'] at hop
      cases hop
    · rw [hop'] at hop
      cases hop
      rfl

theorem takes_fromBytesV2 : Takes fun buf => (fromBytesV2 buf).toOption := by
  intro bytes r n h
  dsimp only at h
  rcases hread : fromBytesV2 bytes with e | ⟨r', n'⟩
  · rw [hread] at h
    cases h
  · rw [hread] at h
    cases h
    have hlow := (fromBytesV2_ok hread).low
    simp only [WAL_RECORD_HEADER_SIZE_V2] at hlow
    exact ⟨by omega, (fromBytesV2_ok hread).high⟩

/-! ### The bytes of an accepted record

A vector clock is accepted with its entries in any order, so the bytes of a record
that was read need not be those the record is written with.  With a single entry,
as the writer makes them, they are. -/

theorem ReadFrom.headBytes (h : ReadFrom buf r n) :
    r.headBytes = slice 0 45 buf := by
  have hlow := h.low
  have hhigh := h.high
  simp only [WAL_RECORD_HEADER_SIZE_V2] at hlow
  have hlen : leBytes 4 r.recordLen.toNat = slice 0 4 buf := by
    refine leBytes_slice (by omega) ?_
    rw [h.recordLen, ← h.length]
    exact UInt32.toNat_ofNat_of_lt' (h.length ▸ leNat_slice_lt (by omega))
  have hlsn : leBytes 8 r.lsn.toNat = slice 4 8 buf := by
    refine leBytes_slice (by omega) ?_
    rw [h.lsn]
    exact toNat_ofNat_of_lt' (leNat_slice_lt (by omega))
  have htx : leBytes 8 r.txId.toNat = slice 12 8 buf := by
    refine leBytes_slice (by omega) ?_
    rw [h.txId]
    exact toNat_ofNat_of_lt' (leNat_slice_lt (by omega))
  have horigin : leBytes 16 r.originNodeId.val = slice 21 16 buf := by
    refine leBytes_slice (by omega) ?_
    rw [h.originNodeId]
    exact Nat.mod_eq_of_lt (leNat_slice_lt (by omega))
  have hhlc : leBytes 8 r.hlc.toNat = slice 37 8 buf := by
    refine leBytes_slice (by omega) ?_
    rw [h.hlc]
    exact toNat_ofNat_of_lt' (leNat_slice_lt (by omega))
  have hop : [r.opType.asU8] = slice 20 1 buf := by
    have hbyte := find?_some h.opType
    rw [of_decide_eq_true hbyte]
    exact @leBytes_slice buf 20 1 _ (by omega) rfl
  have h12 : slice 0 4 buf ++ slice 4 8 buf = slice 0 12 buf := slice_append_slice buf
  have h20 : slice 0 12 buf ++ slice 12 8 buf = slice 0 20 buf := slice_append_slice buf
  have h21 : slice 0 20 buf ++ slice 20 1 buf = slice 0 21 buf := slice_append_slice buf
  have h37 : slice 0 21 buf ++ slice 21 16 buf = slice 0 37 buf := slice_append_slice buf
  have h45 : slice 0 37 buf ++ slice 37 8 buf = slice 0 45 buf := slice_append_slice buf
  rw [WalRecord.headBytes, hlen, hlsn, htx, hop, horigin, hhlc, h12, h20, h21, h37, h45]

omit [Crc32] in
theorem decodePayload_ok {op : WalOpType} {lsn : UInt64} {data : List UInt8}
    {cursor stop stop' : Nat} {pageId : UInt32} (hstop : stop ≤ buf.length)
    (h : decodePayload op lsn buf cursor stop = .ok (pageId, data, stop')) :
    (op = .pageWrite ∧ stop' = cursor + (4 + 4 + data.length) ∧
      leBytes 4 pageId.toNat ++ leBytes 4 data.length ++ data = slice cursor (stop' - cursor) buf) ∨
    (op ≠ .pageWrite ∧ stop' = cursor) := by
  unfold decodePayload at h
  split at h
  · next hop =>
    split at h
    · cases h
    · dsimp only at h
      split at h
      · cases h
      · next hlong hfits =>
        cases h
        have hdata := @length_slice _ (cursor + 8) (leNat (slice (cursor + 4) 4 buf)) buf (by omega)
        refine .inl ⟨hop, by omega, ?_⟩
        have hid : leBytes 4 (UInt32.ofNat (leNat (slice cursor 4 buf))).toNat
            = slice cursor 4 buf := by
          refine leBytes_slice (by omega) ?_
          exact UInt32.toNat_ofNat_of_lt' (leNat_slice_lt (by omega))
        rw [hid, hdata, leBytes_slice (by omega) rfl, slice_append_slice]
        have hjoin := @slice_append_slice _ cursor 8 (leNat (slice (cursor + 4) 4 buf)) buf
        rw [show cursor + 8 + leNat (slice (cursor + 4) 4 buf) - cursor
          = 8 + leNat (slice (cursor + 4) 4 buf) by omega]
        exact hjoin
  · next hop =>
    cases h
    exact .inr ⟨hop, rfl⟩

omit [Crc32] in
theorem encode_of_decode {vc : VectorClock} {consumed : Nat}
    (h : VectorClock.decode buf = .ok (vc, consumed)) (hone : consumed = 2 + VCLOCK_ENTRY_SIZE) :
    vc.encode = slice 0 consumed buf := by
  obtain ⟨htotal, hfits, hentries⟩ := VectorClock.decode_ok h
  simp only [VCLOCK_ENTRY_SIZE] at htotal hone
  have hcount : leNat (slice 0 2 buf) = 1 := by omega
  rw [hcount] at hentries
  obtain ⟨node, hnode⟩ : ∃ node : U128, node = Fin.ofNat _ (leNat (slice 0 16 (buf.drop 2))) :=
    ⟨_, rfl⟩
  obtain ⟨counter, hcounter⟩ : ∃ counter, counter = ofNat (leNat (slice 16 8 (buf.drop 2))) :=
    ⟨_, rfl⟩
  have hvc : vc.entries.entries = [(node, counter)] := by
    rw [hentries, hnode, hcounter]
    rfl
  have hslice2 : slice 0 16 (buf.drop 2) = slice 2 16 buf := by simp [slice]
  have hslice18 : slice 16 8 (buf.drop 2) = slice 18 8 buf := by simp [slice]
  have hlen : leBytes 2 vc.len = slice 0 2 buf := by
    refine leBytes_slice (by omega) ?_
    rw [VectorClock.len, hvc, hcount]
    rfl
  have hid : leBytes 16 node.val = slice 2 16 buf := by
    refine leBytes_slice (by omega) ?_
    rw [hnode, hslice2]
    exact Nat.mod_eq_of_lt (leNat_slice_lt (by omega))
  have hval : leBytes 8 counter.toNat = slice 18 8 buf := by
    refine leBytes_slice (by omega) ?_
    rw [hcounter, hslice18]
    exact toNat_ofNat_of_lt' (leNat_slice_lt (by omega))
  have h18 : slice 0 2 buf ++ slice 2 16 buf = slice 0 18 buf := slice_append_slice buf
  have h26 : slice 0 18 buf ++ slice 18 8 buf = slice 0 26 buf := slice_append_slice buf
  rw [VectorClock.encode, hlen, hvc]
  simp only [flatMap_cons, flatMap_nil, append_nil, VectorClock.encodeEntry]
  rw [hid, hval, ← append_assoc, h18, h26, hone]

/-- **An accepted record with one clock entry has been read from its own bytes.** -/
theorem take_eq_toBytes (h : fromBytesV2 buf = .ok (r, n)) (hsealed : r.Sealed)
    (hone : r.vectorClock.len = 1) :
    buf.take n = r.toBytes := by
  have hread := fromBytesV2_ok h
  have hlow := hread.low
  have hhigh := hread.high
  have hn : n = r.encodedV2Len := by
    rw [← hsealed.recordLen, hread.recordLen]
    exact (UInt32.toNat_ofNat_of_lt' (hread.length ▸ leNat_slice_lt
      (by simp only [WAL_RECORD_HEADER_SIZE_V2] at hlow; omega))).symm
  obtain ⟨consumed, hclock, hpayload⟩ := hread.clock
  have hsize := hn
  simp only [encodedV2Len, VectorClock.encodedLen, hone, WAL_RECORD_HEADER_SIZE_V2] at hsize hlow
  have hfits := (VectorClock.decode_ok hclock).2.1
  have hsum : leBytes 4 r.checksum.toNat = slice (n - 4) 4 buf := by
    refine leBytes_slice (by omega) ?_
    rw [hread.checksum]
    exact UInt32.toNat_ofNat_of_lt' (leNat_slice_lt (by omega))
  -- the parts lie behind each other
  have hparts : consumed = 2 + VCLOCK_ENTRY_SIZE ∧
      r.payloadBytes = slice (45 + consumed) (n - 4 - (45 + consumed)) buf := by
    rcases decodePayload_ok (by omega) hpayload with ⟨hop, hstop, hbytes⟩ | ⟨hop, hstop⟩
    · rw [if_pos hop] at hsize
      refine ⟨by simp only [VCLOCK_ENTRY_SIZE] at hsize ⊢; omega, ?_⟩
      rw [payloadBytes, if_pos hop, hbytes]
    · rw [if_neg hop] at hsize
      refine ⟨by simp only [VCLOCK_ENTRY_SIZE] at hsize ⊢; omega, ?_⟩
      rw [payloadBytes, if_neg hop, hstop, Nat.sub_self]
      rfl
  have hvc := encode_of_decode hclock hparts.1
  rw [slice_slice (by omega)] at hvc
  have h1 : slice 0 45 buf ++ slice 45 consumed buf = slice 0 (45 + consumed) buf :=
    slice_append_slice buf
  have h2 : slice 0 (45 + consumed) buf ++ slice (45 + consumed) (n - 4 - (45 + consumed)) buf
      = slice 0 (n - 4) buf := by
    have hjoin := @slice_append_slice _ 0 (45 + consumed) (n - 4 - (45 + consumed)) buf
    rwa [Nat.zero_add, show 45 + consumed + (n - 4 - (45 + consumed)) = n - 4 by omega] at hjoin
  have h3 : slice 0 (n - 4) buf ++ slice (n - 4) 4 buf = slice 0 n buf := by
    have hjoin := @slice_append_slice _ 0 (n - 4) 4 buf
    rwa [Nat.zero_add, show n - 4 + 4 = n by omega] at hjoin
  rw [toBytes, hread.headBytes, hvc, hparts.2, hsum, h1, h2, h3]
  rfl

end WalRecord

/-! ### The log reader -/

section Reader

variable [Crc32]

/-- The records behind the header of a log file, up to the first that is not
accepted. -/
def readV2RecordsFromFile (file : List UInt8) : List WalRecord :=
  if file.length ≤ WAL_HEADER_SIZE then []
  else readAll (fun buf => (WalRecord.fromBytesV2 buf).toOption) (file.drop WAL_HEADER_SIZE)

theorem readV2RecordsFromFile_append (body : List UInt8) :
    readV2RecordsFromFile (walHeader ++ body) =
      readAll (fun buf => (WalRecord.fromBytesV2 buf).toOption) body := by
  have hdrop : (walHeader ++ body).drop WAL_HEADER_SIZE = body :=
    drop_left' length_walHeader
  rw [readV2RecordsFromFile, hdrop]
  split
  · next h =>
    have hnil : body = [] := by
      rw [length_append, length_walHeader] at h
      exact eq_nil_of_length_eq_zero (by omega)
    rw [hnil]
    rfl
  · rfl

/-- **What the reader has read.**  Records with one clock entry each are what is read
from exactly those bytes that begin with theirs and go on with none. -/
theorem readAll_eq_iff {records : List WalRecord} {bytes : List UInt8}
    (hrecords : ∀ r ∈ records, r.Sealed ∧ r.vectorClock.len = 1) :
    readAll (fun buf => (WalRecord.fromBytesV2 buf).toOption) bytes = records ↔
      ∃ rest, bytes = records.flatMap WalRecord.toBytes ++ rest ∧
        (WalRecord.fromBytesV2 rest).toOption = none := by
  constructor
  · intro h
    induction records generalizing bytes with
    | nil => exact ⟨bytes, rfl, (readAll_eq_nil takes_fromBytesV2).1 h⟩
    | cons r records ih =>
      obtain ⟨n, hdecode, hrest⟩ := (readAll_eq_cons takes_fromBytesV2).1 h
      obtain ⟨rest, hbytes, hnone⟩ := ih (fun r' h => hrecords r' (mem_cons_of_mem r h)) hrest
      have hr := hrecords r mem_cons_self
      have htake := take_eq_toBytes (eq_ok_of_toOption hdecode) hr.1 hr.2
      refine ⟨rest, ?_, hnone⟩
      rw [← take_append_drop n bytes, htake, hbytes, flatMap_cons, append_assoc]
  · rintro ⟨rest, rfl, hnone⟩
    rw [framing.readAll_append takes_fromBytesV2
      (fun r h => (hrecords r h).1), readAll_none hnone, append_nil]

/-- The records that the constructors build, within the limits of the format. -/
inductive Built : WalRecord → Prop
  | pageWrite (lsn txId : UInt64) (originNodeId : U128) (hlc : Hlc) {vectorClock : VectorClock}
      (pageId : UInt32) {before after : List UInt8} (hclock : vectorClock.len ≤ MAX_VCLOCK_ENTRIES)
      (hdata : (after ++ before).length < 2 ^ 31) :
      Built (.pageWrite lsn txId originNodeId hlc vectorClock pageId before after)
  | commit (lsn txId : UInt64) (originNodeId : U128) (hlc : Hlc) {vectorClock : VectorClock}
      (hclock : vectorClock.len ≤ MAX_VCLOCK_ENTRIES) :
      Built (.commit lsn txId originNodeId hlc vectorClock)
  | checkpoint (lsn : UInt64) (originNodeId : U128) (hlc : Hlc) {vectorClock : VectorClock}
      (hclock : vectorClock.len ≤ MAX_VCLOCK_ENTRIES) :
      Built (.checkpoint lsn originNodeId hlc vectorClock)

theorem Built.sealed {r : WalRecord} (h : Built r) : r.Sealed := by
  cases h with
  | pageWrite lsn txId originNodeId hlc pageId hclock hdata =>
    refine sealed_finish ?_ hclock fun h => absurd rfl h
    simp only [encodedV2Len, WAL_RECORD_HEADER_SIZE_V2, VectorClock.encodedLen,
      VCLOCK_ENTRY_SIZE, MAX_VCLOCK_ENTRIES, if_true] at hclock ⊢
    omega
  | commit lsn txId originNodeId hlc hclock =>
    refine sealed_finish ?_ hclock fun _ => ⟨rfl, rfl⟩
    simp only [encodedV2Len, WAL_RECORD_HEADER_SIZE_V2, VectorClock.encodedLen,
      VCLOCK_ENTRY_SIZE, MAX_VCLOCK_ENTRIES, reduceCtorEq, if_false] at hclock ⊢
    omega
  | checkpoint lsn originNodeId hlc hclock =>
    refine sealed_finish ?_ hclock fun _ => ⟨rfl, rfl⟩
    simp only [encodedV2Len, WAL_RECORD_HEADER_SIZE_V2, VectorClock.encodedLen,
      VCLOCK_ENTRY_SIZE, MAX_VCLOCK_ENTRIES, reduceCtorEq, if_false] at hclock ⊢
    omega

/-- **Record framing.**  A built record is read back from its bytes, whatever follows; the log
reader gives back built records that are followed by a part of another; and on any bytes the
decoder stays in range. -/
theorem wal_record_framing :
    (∀ r rest, Built r →
      WalRecord.fromBytesV2 (r.toBytes ++ rest) = .ok (r, r.toBytes.length)) ∧
    (∀ (records : List WalRecord) (last : WalRecord) (t : List UInt8),
      (∀ r ∈ records, Built r) → Built last → t <+: last.toBytes → t ≠ last.toBytes →
      readV2RecordsFromFile (walHeader ++ (records.flatMap WalRecord.toBytes ++ t)) = records) ∧
    ∀ buf, WalRecord.fromBytesV2Checked buf = some (WalRecord.fromBytesV2 buf) ∧
      ∀ r n, WalRecord.fromBytesV2 buf = .ok (r, n) → n ≤ buf.length := by
  refine ⟨?_, ?_, ?_⟩
  · intro r rest hr
    rw [fromBytesV2_toBytes hr.sealed, length_toBytes]
  · intro records last t hrecords hlast ht hne
    have hlt : t.length < last.toBytes.length :=
      lt_of_le_of_ne ht.length_le fun h => hne (ht.eq_of_length h)
    rw [readV2RecordsFromFile_append]
    exact framing.readAll_cut takes_fromBytesV2
      (fun r hr => (hrecords r hr).sealed) hlast.sealed ht hlt
  · intro buf
    exact ⟨fromBytesV2Checked_eq buf, fun r n h => (fromBytesV2_ok h).high⟩

omit [Crc32] in
/-- A commit followed by a part of itself. -/
theorem wal_record_framing_commit : ∃ (_ : Crc32) (r : WalRecord), Built r ∧
    WalRecord.fromBytesV2 (r.toBytes ++ r.toBytes.take 5) = .ok (r, r.toBytes.length) ∧
    readV2RecordsFromFile (walHeader ++ ([r].flatMap WalRecord.toBytes ++ r.toBytes.take 5))
      = [r] := by
  let crc : Crc32 := ⟨fun _ => 0⟩
  have hr : Built (.commit 1 1 0 0 (.singleton 0 0)) := .commit 1 1 0 0 (by decide)
  refine ⟨crc, _, hr, wal_record_framing.1 _ _ hr, ?_⟩
  refine wal_record_framing.2.1 [_] _ _ ?_ hr ( take_prefix _ _) (by decide)
  intro r hmem
  rwa [mem_singleton.1 hmem]

end Reader

end GrumpyDB
