/-
Tailing the log.

A poll reads what is new and decodes one record, and gives nothing as long as the next record is
not all there. The writer also truncates the log, and then what is written next is skipped until
the file has grown past the old offset.
-/
import GrumpyDB.Wal.Writer
import GrumpyDB.Replication.Frame

namespace GrumpyDB

open List Option WalRecord

namespace Replication

/-- What an I/O error of the tailer is about. -/
inductive IoFailure where
  | headerParse (path : String) (e : GrumpyError)
  | unsupportedVersion (path : String) (version : Nat)
  | unexpectedEof
  deriving DecidableEq

inductive ReplicationError where
  | frame (e : FrameError)
  | io (e : IoFailure)
  deriving DecidableEq

structure TailedRecord where
  record : WalRecord
  raw : List UInt8

structure WalTailer where
  offset : Nat
  /-- Bytes read and not yet decoded. -/
  pending : List UInt8

namespace WalTailer

/-- Open a log.  The header of a file that is shorter than the header is not
looked at: it is still being written. -/
def openLog (path : String) (file : List UInt8) : Except ReplicationError WalTailer :=
  if file.length < WAL_HEADER_SIZE then .ok ⟨WAL_HEADER_SIZE, []⟩
  else
    match parseWalHeader (file.take 18) with
    | .error e => .error (.io (.headerParse path e))
    | .ok version =>
      if version ≠ WAL_VERSION_V2 then .error (.io (.unsupportedVersion path version))
      else .ok ⟨WAL_HEADER_SIZE, []⟩

variable {file : List UInt8}

theorem openLog_eq_ok {path : String} {t : WalTailer} (h : openLog path file = .ok t) :
    t = ⟨WAL_HEADER_SIZE, []⟩ := by
  rw [openLog] at h
  split at h
  · exact (Except.ok.inj h).symm
  · rcases hparse : parseWalHeader (file.take 18) with e | version
    · rw [hparse] at h
      cases h
    · simp only [hparse] at h
      split at h
      · cases h
      · exact (Except.ok.inj h).symm

/-- A log can be opened whatever it holds and even while its header is written. -/
theorem openLog_of_prefix {path : String} {records : List WalRecord}
    (h : file <+: logBytes records) : openLog path file = .ok ⟨WAL_HEADER_SIZE, []⟩ := by
  rw [openLog]
  by_cases hlen : file.length < WAL_HEADER_SIZE
  · rw [if_pos hlen]
  have hhead : file.take 18 = walHeader.take 18 := by
    obtain ⟨rest, hrest⟩ := h
    have h18 : 18 ≤ WAL_HEADER_SIZE := by decide
    rw [← take_append_of_le_length (by omega), hrest, logBytes,
      take_append_of_le_length (by simpa using h18)]
  rw [if_neg hlen, hhead, walHeader]
  rfl

/-- Read what is between the offset and the end of the file, which was at `len`
when the tailer asked.  A file that has become shorter gives an error and leaves
the zeros the buffer was filled up with. -/
def refillPending (t : WalTailer) (len : Nat) (file : List UInt8) :
    Except ReplicationError Unit × WalTailer :=
  if len ≤ t.offset then (.ok (), t)
  else
    let toRead := len - t.offset
    let bytes := slice t.offset toRead file
    if bytes.length < toRead then
      (.error (.io .unexpectedEof),
        { t with pending := t.pending ++ bytes ++ List.replicate (toRead - bytes.length) 0 })
    else (.ok (), ⟨t.offset + toRead, t.pending ++ bytes⟩)

/-- One poll.  A record that cannot be decoded is waited for. -/
def pollOnce [Crc32] (t : WalTailer) (len : Nat) (file : List UInt8) :
    Except ReplicationError (Option TailedRecord) × WalTailer :=
  match t.refillPending len file with
  | (.error e, t) => (.error e, t)
  | (.ok (), t) =>
    if t.pending = [] then (.ok none, t)
    else
      match WalRecord.fromBytesV2 t.pending with
      | .ok (record, consumed) =>
        (.ok (some ⟨record, t.pending.take consumed⟩),
          { t with pending := t.pending.drop consumed })
      | .error _ => (.ok none, t)

end WalTailer

def tailed (r : WalRecord) : TailedRecord := ⟨r, r.toBytes⟩

/-! ### Following a log that grows -/

/-- The tailer has given back the first `k` records and holds a part of what
comes next. -/
structure Follows (t : WalTailer) (records : List WalRecord) (k : Nat) : Prop where
  taken : k ≤ records.length
  pending : t.pending <+: (records.drop k).flatMap WalRecord.toBytes
  offset : t.offset = (logBytes (records.take k)).length + t.pending.length

namespace Follows

variable {t : WalTailer} {records : List WalRecord} {k len : Nat} {file : List UInt8}

theorem opened (records : List WalRecord) : Follows ⟨WAL_HEADER_SIZE, []⟩ records 0 where
  taken := Nat.zero_le _
  pending := List.nil_prefix
  offset := by simp [logBytes]

theorem append (h : Follows t records k) (more : List WalRecord) :
    Follows t (records ++ more) k where
  taken := h.taken.trans (by simp)
  pending := by
    rw [drop_append_of_le_length h.taken, flatMap_append]
    exact h.pending.trans (prefix_append _ _)
  offset := by rw [take_append_of_le_length h.taken, h.offset]

theorem read (h : Follows t records k) :
    ∃ rest, logBytes records = logBytes (records.take k) ++ t.pending ++ rest ∧
      (records.drop k).flatMap WalRecord.toBytes = t.pending ++ rest := by
  obtain ⟨rest, hrest⟩ := h.pending
  refine ⟨rest, ?_, hrest.symm⟩
  rw [append_assoc, hrest, ← logBytes_append, take_append_drop]

theorem eq_of_all (h : Follows t records records.length) :
    t = ⟨(logBytes records).length, []⟩ := by
  obtain ⟨offset, pending⟩ := t
  have hnil : pending = [] := by simpa using h.pending
  have hoff : offset = _ := h.offset
  rw [hnil, take_length, length_nil, Nat.add_zero] at hoff
  rw [hnil, hoff]

theorem refillPending (h : Follows t records k) (hfile : file <+: logBytes records)
    (hlen : len ≤ file.length ∨ len ≤ t.offset) :
    ∃ t', t.refillPending len file = (.ok (), t') ∧ Follows t' records k ∧ len ≤ t'.offset := by
  rw [WalTailer.refillPending]
  by_cases hle : len ≤ t.offset
  · exact ⟨t, by rw [if_pos hle], h, hle⟩
  rw [if_neg hle]
  obtain ⟨rest, hlog, hdrop⟩ := h.read
  -- the file goes on after what has been read
  have hoff : (logBytes (records.take k) ++ t.pending).length = t.offset := by
    rw [length_append, h.offset]
  obtain ⟨new, hnew⟩ : ∃ new, file = logBytes (records.take k) ++ t.pending ++ new := by
    have hpre : logBytes (records.take k) ++ t.pending <+: file := by
      refine prefix_of_prefix_length_le ⟨rest, hlog.symm⟩ hfile ?_
      omega
    obtain ⟨new, hnew⟩ := hpre
    exact ⟨new, hnew.symm⟩
  have hrest : new <+: rest := by
    rw [hlog, hnew] at hfile
    exact (prefix_append_right_inj _).mp hfile
  have hbytes : slice t.offset (len - t.offset) file = new.take (len - t.offset) := by
    rw [hnew, slice_append_right hoff.le, hoff, Nat.sub_self]
    rfl
  have hlength : (new.take (len - t.offset)).length = len - t.offset := by
    have hnewlen := congrArg length hnew
    rw [length_append] at hnewlen
    rw [length_take]
    omega
  simp only [hbytes, hlength, lt_irrefl]
  refine ⟨_, rfl, ⟨h.taken, ?_, ?_⟩, by show len ≤ t.offset + (len - t.offset); omega⟩
  · show t.pending ++ new.take (len - t.offset) <+: _
    rw [hdrop, prefix_append_right_inj]
    exact ( take_prefix _ _).trans hrest
  · show t.offset + (len - t.offset) = _ + (t.pending ++ new.take (len - t.offset)).length
    rw [length_append, hlength, h.offset, Nat.add_assoc]

variable [Crc32]

/-- **A poll of a log that only grows** gives back the next record or finds that
it is not all there. -/
theorem pollOnce (h : Follows t records k) (hseal : ∀ r ∈ records, r.Sealed)
    (hfile : file <+: logBytes records) (hlen : len ≤ file.length ∨ len ≤ t.offset) :
    (∃ t' r, records[k]? = some r ∧ t.pollOnce len file = (.ok (some (tailed r)), t') ∧
      Follows t' records (k + 1)) ∨
    (∃ t', t.pollOnce len file = (.ok none, t') ∧ Follows t' records k ∧
      ∀ j, k < j → j ≤ records.length → len < (logBytes (records.take j)).length) := by
  obtain ⟨t', hrefill, h', hoffset⟩ := h.refillPending hfile hlen
  rw [WalTailer.pollOnce, hrefill]
  have hgood : ∀ r ∈ records.drop k, r.Sealed := fun r hr => hseal r (mem_of_mem_drop hr)
  rcases WalRecord.framing.next hgood h'.pending with
    ⟨r, rest, tail, hdrop, hpending, hdecode, htail⟩ | ⟨hdecode, hshort⟩
  · -- the next record is all there
    left
    have hget : records[k]? = some r := by
      rw [← head?_drop, hdrop]
      rfl
    have htake : records.take (k + 1) = records.take k ++ [r] := by
      rw [take_add_one, hget]
      rfl
    have hdrop' : records.drop (k + 1) = rest := by
      rw [← tail_drop, hdrop]
      rfl
    have hk : k < records.length := (List.getElem?_eq_some_iff.mp hget).1
    have hne : t'.pending ≠ [] := by
      intro hnil
      have := congrArg length (hpending.symm.trans hnil)
      rw [length_append, length_toBytes, length_nil] at this
      have := r.le_encodedV2Len
      omega
    have hok : fromBytesV2 t'.pending = .ok (r, r.toBytes.length) := by
      rcases hd : fromBytesV2 t'.pending with e | x
      · simp [hd, Except.toOption] at hdecode
      · rw [hd] at hdecode
        exact congrArg Except.ok (some.inj hdecode)
    refine ⟨⟨t'.offset, tail⟩, r, hget, ?_, ⟨hk, hdrop' ▸ htail, ?_⟩⟩
    · simp only [hok]
      rw [hpending, take_left, drop_left]
      rfl
    · show t'.offset = _ + tail.length
      rw [h'.offset, hpending, htake, logBytes_append]
      simp only [length_append, flatMap_singleton]
      omega
  · -- a part of it is missing
    right
    refine ⟨t', ?_, h', ?_⟩
    · by_cases hnil : t'.pending = []
      · simp only [hnil, if_true]
      · simp only [hnil]
        rcases hd : fromBytesV2 t'.pending with e | x
        · rfl
        · simp [hd, Except.toOption] at hdecode
    · intro j hkj hj
      obtain ⟨r, rest, hcons⟩ : ∃ r rest, records.drop k = r :: rest :=
        exists_cons_of_ne_nil (by rw [ne_eq, drop_eq_nil_iff]; omega)
      have hlt := hshort r rest hcons
      obtain ⟨more, hmore⟩ : ∃ more, records.take j = records.take k ++ r :: more := by
        refine ⟨rest.take (j - k - 1), ?_⟩
        have hsplit : records.take j = records.take k ++ (records.drop k).take (j - k) := by
          rw [← take_add]
          congr 1
          omega
        rw [hsplit, hcons]
        obtain ⟨d, hd⟩ : ∃ d, j - k = d + 1 := ⟨j - k - 1, by omega⟩
        rw [hd, take_succ_cons, Nat.add_sub_cancel]
      have hoff := h'.offset
      rw [hmore, logBytes_append, length_append, flatMap_cons, length_append]
      omega

end Follows

theorem pollOnce_single [Crc32] {r : WalRecord} (hseal : r.Sealed) :
    WalTailer.pollOnce ⟨WAL_HEADER_SIZE, []⟩ (logBytes [r]).length (logBytes [r]) =
      (.ok (some (tailed r)), ⟨(logBytes [r]).length, []⟩) := by
  rcases (Follows.opened [r]).pollOnce (by simpa using hseal) prefix_rfl (.inl le_rfl) with
    ⟨t, x, hx, hres, hfollows⟩ | ⟨t, -, -, hshort⟩
  · obtain rfl : r = x := some.inj hx
    rw [hres, hfollows.eq_of_all]
  · exact absurd (hshort 1 one_pos le_rfl) (lt_irrefl _)

/-! ### A writer and a tailer on one file -/

structure Tail where
  tailer : WalTailer
  openedAt : Nat
  /-- The poll in progress: the length of the file it saw, and how many records
  were complete then. -/
  poll : Option (Nat × Nat)
  returned : List TailedRecord

/-- The log file with its writer and its tailer. -/
structure Tailing where
  writer : WalWriter
  log : LogFile
  appended : List WalRecord
  complete : Nat
  removed : Nat
  tail : Option Tail

inductive TailEvent where
  /-- The writer begins to append a record; `now` is what the clock gives. -/
  | log (call : LogCall) (now : Except GrumpyError Hlc)
  | chunk (n : Nat)
  | truncate
  | openTailer (path : String)
  | stat
  | read

namespace Tailing

def inFile (s : Tailing) : List WalRecord := s.appended.drop s.removed

def start (w : WalWriter) : Tailing := ⟨w, .create, [], 0, 0, none⟩

variable [Crc32]

/-- What can happen next.  The writer makes one call at a time, and it truncates
the log only when the tailer has given back every record in the file. -/
inductive Step (s : Tailing) : TailEvent → Tailing → Prop where
  | log {call : LogCall} {now : Except GrumpyError Hlc} {r : WalRecord} {w : WalWriter}
      (idle : s.log.writing = []) (h : s.writer.log now call = (.ok r, w)) :
      Step s (.log call now)
        { s with writer := w, log := s.log.append r, appended := s.appended ++ [r] }
  | clockFailed {call : LogCall} {now : Except GrumpyError Hlc} {e : GrumpyError} {w : WalWriter}
      (idle : s.log.writing = []) (h : s.writer.log now call = (.error e, w)) :
      Step s (.log call now) { s with writer := w }
  | chunk (n : Nat) :
      Step s (.chunk n)
        { s with
          log := s.log.chunk n
          complete := if (s.log.chunk n).writing = [] then s.appended.length else s.complete }
  | truncate (idle : s.log.writing = [])
      (h : ∀ t, s.tail = some t → ∀ r ∈ s.inFile, tailed r ∈ t.returned) :
      Step s .truncate { s with log := s.log.truncate, removed := s.appended.length }
  | openTailer {path : String} {t : WalTailer} (closed : s.tail = none)
      (h : WalTailer.openLog path s.log.file = .ok t) :
      Step s (.openTailer path) { s with tail := some ⟨t, s.appended.length, none, []⟩ }
  | stat {t : Tail} (h : s.tail = some t) (idle : t.poll = none) :
      Step s .stat { s with tail := some { t with poll := some (s.log.file.length, s.complete) } }
  | read {t : Tail} {len done : Nat} {result : Except ReplicationError (Option TailedRecord)}
      {tailer : WalTailer} (h : s.tail = some t) (busy : t.poll = some (len, done))
      (poll : t.tailer.pollOnce len s.log.file = (result, tailer)) :
      Step s .read
        { s with
          tail := some
            { t with
              tailer
              poll := none
              returned := t.returned ++ result.toOption.join.toList } }

/-- A run whose steps are all `Allowed`. -/
inductive Run (Allowed : Tailing → TailEvent → Prop) :
    Tailing → List TailEvent → Tailing → Prop where
  | nil (s : Tailing) : Run Allowed s [] s
  | cons {s s' s'' : Tailing} {e : TailEvent} {es : List TailEvent} (allowed : Allowed s e)
      (step : Step s e s') (run : Run Allowed s' es s'') : Run Allowed s (e :: es) s''

/-- What the tailer has given back are the records appended since it was opened,
in order and from the first on; and a poll that gives nothing back leaves out no
record that was completely written when it began. -/
structure Complete (s : Tailing) (t : Tail) : Prop where
  inOrder : t.returned <+: (s.appended.drop t.openedAt).map tailed
  caughtUp : ∀ len done, t.poll = some (len, done) →
    (t.tailer.pollOnce len s.log.file).1 = .ok none →
    ((s.appended.take done).drop t.openedAt).map tailed <+: t.returned

/-- The records fit the length field, the tailer is opened on a log without
records, and once it is open the log is truncated only if it has none. -/
def Calm (s : Tailing) : TailEvent → Prop
  | .log call _ => call.Fits
  | .truncate => s.tail.isSome → s.inFile = []
  | .openTailer _ => s.inFile = []
  | _ => True

/-! ### Without truncations of a log with records -/

/-- The tailer follows the records in the file. -/
structure TailInv (s : Tailing) (t : Tail) : Prop where
  opened : t.openedAt = s.removed
  follows : Follows t.tailer s.inFile t.returned.length
  returned : t.returned = (s.inFile.take t.returned.length).map tailed
  seen : ∀ len done, t.poll = some (len, done) →
    len ≤ s.log.file.length ∨ len ≤ t.tailer.offset
  done : ∀ len done, t.poll = some (len, done) → done ≤ s.appended.length ∧
    (done ≤ s.removed ∨ (logBytes ((s.appended.take done).drop s.removed)).length ≤ len)

structure Inv (s : Tailing) : Prop where
  sealed : ∀ r ∈ s.appended, r.Sealed
  removed : s.removed ≤ s.complete
  complete : s.complete ≤ s.appended.length
  holds : s.log.Holds s.inFile
  idle : s.log.writing = [] → s.complete = s.appended.length
  written : s.complete ≤ s.removed ∨
    (logBytes ((s.appended.take s.complete).drop s.removed)).length ≤ s.log.file.length
  tail : ∀ t, s.tail = some t → s.TailInv t

variable {s s' : Tailing} {e : TailEvent} {w : WalWriter} {t : Tail}

theorem inv_start (w : WalWriter) : (start w).Inv where
  sealed := by simp [start]
  removed := le_rfl
  complete := le_rfl
  holds := LogFile.holds_create
  idle _ := rfl
  written := .inl le_rfl
  tail := by simp [start]

omit [Crc32] in
theorem TailInv.log (h : s.TailInv t) (hremoved : s.removed ≤ s.appended.length) {r : WalRecord}
    (w : WalWriter) :
    TailInv { s with writer := w, log := s.log.append r, appended := s.appended ++ [r] } t := by
  have hin : (s.appended ++ [r]).drop s.removed = s.inFile ++ [r] := by
    rw [drop_append_of_le_length hremoved]
    rfl
  have htake (n : Nat) (hn : n ≤ s.inFile.length) : (s.inFile ++ [r]).take n = s.inFile.take n :=
    take_append_of_le_length hn
  refine ⟨h.opened, ?_, ?_, h.seen, ?_⟩
  · show Follows t.tailer ((s.appended ++ [r]).drop s.removed) _
    rw [hin]
    exact h.follows.append [r]
  · show t.returned = (((s.appended ++ [r]).drop s.removed).take _).map tailed
    rw [hin, htake _ h.follows.taken]
    exact h.returned
  · intro len done hpoll
    obtain ⟨hdone, hbytes⟩ := h.done len done hpoll
    refine ⟨hdone.trans (by simp), ?_⟩
    show done ≤ s.removed ∨ (logBytes (((s.appended ++ [r]).take done).drop s.removed)).length ≤ len
    rw [take_append_of_le_length hdone]
    exact hbytes

theorem Inv.log (h : s.Inv) {r : WalRecord} (w : WalWriter) (idle : s.log.writing = [])
    (hr : r.Sealed) :
    Inv { s with writer := w, log := s.log.append r, appended := s.appended ++ [r] } := by
  have hremoved : s.removed ≤ s.appended.length := h.removed.trans h.complete
  refine ⟨?_, h.removed, h.complete.trans (by simp), ?_, ?_, ?_, ?_⟩
  · intro x hx
    rcases mem_append.mp hx with hx | hx
    · exact h.sealed x hx
    · exact mem_singleton.mp hx ▸ hr
  · show (s.log.append r).Holds ((s.appended ++ [r]).drop s.removed)
    rw [drop_append_of_le_length hremoved]
    exact h.holds.append idle
  · intro hidle
    have hlen := congrArg length (show r.toBytes = [] from hidle)
    have hlow := r.le_encodedV2Len
    rw [length_toBytes, length_nil] at hlen
    omega
  · show _ ∨ (logBytes (((s.appended ++ [r]).take s.complete).drop s.removed)).length ≤ _
    rw [take_append_of_le_length h.complete]
    exact h.written
  · intro t ht
    exact (h.tail t ht).log hremoved w

theorem Inv.chunk (h : s.Inv) (n : Nat) :
    Inv { s with
      log := s.log.chunk n
      complete := if (s.log.chunk n).writing = [] then s.appended.length else s.complete } := by
  have hgrows : s.log.file.length ≤ (s.log.chunk n).file.length := by
    show _ ≤ (s.log.file ++ s.log.writing.take n).length
    simp
  have hholds := h.holds.chunk n
  have htail : ∀ t, s.tail = some t → ∀ c,
    TailInv { s with log := s.log.chunk n, complete := c } t := by
    intro t ht c
    have hinv := h.tail t ht
    refine ⟨hinv.opened, hinv.follows, hinv.returned, ?_, hinv.done⟩
    intro len done hpoll
    exact (hinv.seen len done hpoll).imp_left fun hle => hle.trans hgrows
  by_cases hdone : (s.log.chunk n).writing = []
  · simp only [hdone, if_true]
    refine ⟨h.sealed, h.removed.trans h.complete, le_rfl, hholds, fun _ => rfl, .inr ?_,
      fun t ht => htail t ht _⟩
    -- all that was appended is in the file now
    rw [LogFile.Holds, hdone, append_nil] at hholds
    show (logBytes ((s.appended.take s.appended.length).drop s.removed)).length ≤ _
    rw [take_length, hholds]
    rfl
  · simp only [hdone, if_false]
    exact ⟨h.sealed, h.removed, h.complete, hholds, fun hidle => absurd hidle hdone,
      h.written.imp_right fun hle => hle.trans hgrows, fun t ht => htail t ht _⟩

theorem Inv.truncate (h : s.Inv) (idle : s.log.writing = [])
    (hcalm : s.tail.isSome → s.inFile = []) :
    Inv { s with log := s.log.truncate, removed := s.appended.length } := by
  have hcomplete := h.idle idle
  refine ⟨h.sealed, hcomplete.ge, hcomplete.le, ?_, fun _ => hcomplete, .inl hcomplete.le, ?_⟩
  · show LogFile.create.Holds (s.appended.drop s.appended.length)
    rw [drop_length]
    exact LogFile.holds_create
  · intro t ht
    -- nothing was in the file, so nothing has changed for the tailer
    have hinv := h.tail t ht
    have hnil : s.inFile = [] := hcalm (by rw [show s.tail = some t from ht]; rfl)
    have hremoved : s.removed = s.appended.length :=
      le_antisymm (h.removed.trans h.complete) (drop_eq_nil_iff.mp hnil)
    have hfile : s.log.file = walHeader := by
      have := h.holds
      rw [LogFile.Holds, idle, hnil] at this
      simpa [logBytes] using this
    refine ⟨hinv.opened.trans hremoved, ?_, ?_, ?_, ?_⟩
    · show Follows t.tailer (s.appended.drop s.appended.length) _
      rw [← hremoved]
      exact hinv.follows
    · show _ = ((s.appended.drop s.appended.length).take _).map tailed
      rw [← hremoved]
      exact hinv.returned
    · intro len done hpoll
      right
      have hoff := hinv.follows.offset
      rw [hnil] at hoff
      have hlow : WAL_HEADER_SIZE ≤ t.tailer.offset := by
        simp only [take_nil, logBytes, flatMap_nil, append_nil,
          length_walHeader] at hoff
        omega
      rcases hinv.seen len done hpoll with hle | hle
      · rw [hfile, length_walHeader] at hle
        exact hle.trans hlow
      · exact hle
    · intro len done hpoll
      show _ ∧ (done ≤ s.appended.length ∨ _)
      exact ⟨(hinv.done len done hpoll).1, .inl (hinv.done len done hpoll).1⟩

theorem Inv.withTail (h : s.Inv) (ht : TailInv { s with tail := some t } t) :
    Inv { s with tail := some t } := by
  refine ⟨h.sealed, h.removed, h.complete, h.holds, h.idle, h.written, fun t' ht' => ?_⟩
  obtain rfl : t = t' := some.inj ht'
  exact ht

theorem Inv.openTailer (h : s.Inv) (hcalm : s.inFile = []) :
    Inv { s with tail := some ⟨⟨WAL_HEADER_SIZE, []⟩, s.appended.length, none, []⟩ } := by
  have hremoved : s.removed = s.appended.length :=
    le_antisymm (h.removed.trans h.complete) (drop_eq_nil_iff.mp hcalm)
  exact h.withTail ⟨hremoved.symm, .opened _, rfl, by simp, by simp⟩

theorem Inv.stat (h : s.Inv) (ht : s.tail = some t) :
    Inv { s with tail := some { t with poll := some (s.log.file.length, s.complete) } } := by
  have hinv := h.tail t ht
  refine h.withTail ⟨hinv.opened, hinv.follows, hinv.returned, ?_, ?_⟩
  · rintro len done hpoll
    obtain ⟨rfl, rfl⟩ := Prod.mk.inj (some.inj hpoll)
    exact .inl le_rfl
  · rintro len done hpoll
    obtain ⟨rfl, rfl⟩ := Prod.mk.inj (some.inj hpoll)
    exact ⟨h.complete, h.written⟩

theorem Inv.pollOnce (h : s.Inv) (ht : s.tail = some t) {len done : Nat}
    (hpoll : t.poll = some (len, done)) :
    (∃ t' r, s.inFile[t.returned.length]? = some r ∧
      t.tailer.pollOnce len s.log.file = (.ok (some (tailed r)), t') ∧
      Follows t' s.inFile (t.returned.length + 1)) ∨
    (∃ t', t.tailer.pollOnce len s.log.file = (.ok none, t') ∧
      Follows t' s.inFile t.returned.length ∧
      ∀ j, t.returned.length < j → j ≤ s.inFile.length →
        len < (logBytes (s.inFile.take j)).length) :=
  (h.tail t ht).follows.pollOnce (fun r hr => h.sealed r (List.mem_of_mem_drop hr))
    h.holds.isPrefix ((h.tail t ht).seen len done hpoll)

theorem Inv.read (h : s.Inv) (ht : s.tail = some t) {len done : Nat}
    (hpoll : t.poll = some (len, done)) {result : Except ReplicationError (Option TailedRecord)}
    {tailer : WalTailer} (hres : t.tailer.pollOnce len s.log.file = (result, tailer)) :
    Inv { s with
      tail := some
        { t with
          tailer
          poll := none
          returned := t.returned ++ result.toOption.join.toList } } := by
  have hinv := h.tail t ht
  rcases h.pollOnce ht hpoll with ⟨t', r, hr, hsome, hfollows⟩ | ⟨t', hnone, hfollows, -⟩
  · obtain ⟨rfl, rfl⟩ := Prod.mk.inj (hres.symm.trans hsome)
    have hlen : (t.returned ++ [tailed r]).length = t.returned.length + 1 := by simp
    refine h.withTail ⟨hinv.opened, ?_, ?_, by simp, by simp⟩
    · show Follows tailer s.inFile (t.returned ++ [tailed r]).length
      rw [hlen]
      exact hfollows
    · show t.returned ++ [tailed r] = (s.inFile.take (t.returned ++ [tailed r]).length).map tailed
      rw [hlen, take_add_one, hr, map_append, ← hinv.returned]
      rfl
  · obtain ⟨rfl, rfl⟩ := Prod.mk.inj (hres.symm.trans hnone)
    have hnil : t.returned ++ (Except.ok none : Except ReplicationError _).toOption.join.toList =
        t.returned := append_nil _
    refine h.withTail ⟨hinv.opened, ?_, ?_, by simp, by simp⟩
    · show Follows tailer s.inFile _
      rw [hnil]
      exact hfollows
    · show _ = (s.inFile.take _).map tailed
      rw [hnil]
      exact hinv.returned

theorem Inv.step (h : s.Inv) (hcalm : s.Calm e) (hstep : s.Step e s') : s'.Inv := by
  cases hstep with
  | log idle hlog => exact h.log _ idle (WalWriter.sealed_log hlog hcalm)
  | clockFailed idle hlog =>
    refine ⟨h.sealed, h.removed, h.complete, h.holds, h.idle, h.written, fun t ht => ?_⟩
    have hinv := h.tail t ht
    exact ⟨hinv.opened, hinv.follows, hinv.returned, hinv.seen, hinv.done⟩
  | chunk n => exact h.chunk n
  | truncate idle _ => exact h.truncate idle hcalm
  | openTailer _ hopen =>
    rw [WalTailer.openLog_eq_ok hopen]
    exact h.openTailer hcalm
  | stat ht _ => exact h.stat ht
  | read ht hpoll hres => exact h.read ht hpoll hres

theorem Inv.tailComplete (h : s.Inv) (ht : s.tail = some t) : s.Complete t := by
  have hinv := h.tail t ht
  refine ⟨?_, ?_⟩
  · rw [hinv.opened, hinv.returned]
    exact ( take_prefix _ _).map tailed
  · intro len done hpoll hnone
    rcases h.pollOnce ht hpoll with ⟨tailer, r, -, hres, -⟩ | ⟨tailer, -, -, hshort⟩
    · rw [hres] at hnone
      cases hnone
    have hdone : (s.appended.take done).drop t.openedAt = s.inFile.take (done - s.removed) := by
      rw [hinv.opened, drop_take]
      rfl
    have hle : done - s.removed ≤ t.returned.length := by
      obtain ⟨hlen, hbytes⟩ := hinv.done len done hpoll
      by_contra hlt
      rcases hbytes with hle | hbytes
      · omega
      · have := hshort (done - s.removed) (by omega) (by
          show _ ≤ (s.appended.drop s.removed).length
          rw [length_drop]
          omega)
        rw [drop_take] at hbytes
        exact absurd hbytes (Nat.not_le.mpr this)
    rw [hdone, hinv.returned]
    exact (take_prefix_take_left hle).map tailed

variable {es : List TailEvent}

theorem Inv.run (h : s.Inv) (hrun : Run Calm s es s') : s'.Inv := by
  induction hrun with
  | nil => exact h
  | cons hcalm hstep _ ih => exact ih (h.step hcalm hstep)

/-! ### A log that is truncated and grows again -/

theorem step_chunk_all (s : Tailing) :
    Step s (.chunk s.log.writing.length)
      { s with log := ⟨s.log.file ++ s.log.writing, []⟩, complete := s.appended.length } := by
  have hchunk : s.log.chunk s.log.writing.length = ⟨s.log.file ++ s.log.writing, []⟩ := by
    rw [LogFile.chunk, take_length, drop_length]
  have hstep := Step.chunk (s := s) s.log.writing.length
  rw [hchunk] at hstep
  exact hstep

def firstCommit (w : WalWriter) : WalRecord := w.logCommit w.nextLsn 1 1

/-- The writer creates a log, a tailer is opened, a commit is logged and polled. -/
def firstPoll (w : WalWriter) : List TailEvent :=
  [.chunk WAL_HEADER_SIZE, .openTailer "wal.log", .log (.commit 1) (.ok 1),
    .chunk (firstCommit w).toBytes.length, .stat, .read]

def polled (w : WalWriter) : Tailing :=
  ⟨{ w with nextLsn := w.nextLsn + 1 }, ⟨logBytes [firstCommit w], []⟩, [firstCommit w], 1, 0,
    some ⟨⟨(logBytes [firstCommit w]).length, []⟩, 0, none, [tailed (firstCommit w)]⟩⟩

theorem sealed_firstCommit (w : WalWriter) : (firstCommit w).Sealed :=
  WalWriter.sealed_log (show w.log (.ok 1) (.commit 1) = (.ok (firstCommit w), _) from rfl) trivial

theorem run_firstPoll (w : WalWriter) : Run Calm (start w) (firstPoll w) (polled w) := by
  let r := firstCommit w
  let w' : WalWriter := { w with nextLsn := w.nextLsn + 1 }
  let opened : Tail := ⟨⟨WAL_HEADER_SIZE, []⟩, 0, none, []⟩
  have hbytes : walHeader ++ r.toBytes = logBytes [r] := by simp [logBytes]
  have hpoll := pollOnce_single (sealed_firstCommit w)
  have hcreate : Step (start w) (.chunk WAL_HEADER_SIZE) ⟨w, ⟨walHeader, []⟩, [], 0, 0, none⟩ := by
    have := step_chunk_all (start w)
    rwa [show (start w).log.writing.length = WAL_HEADER_SIZE from length_walHeader] at this
  have hopen : Step ⟨w, ⟨walHeader, []⟩, [], 0, 0, none⟩ (.openTailer "wal.log")
      ⟨w, ⟨walHeader, []⟩, [], 0, 0, some opened⟩ :=
    .openTailer rfl (WalTailer.openLog_of_prefix
      (show walHeader <+: logBytes [] by simp [logBytes]))
  have hlog : Step ⟨w, ⟨walHeader, []⟩, [], 0, 0, some opened⟩ (.log (.commit 1) (.ok 1))
      ⟨w', ⟨walHeader, r.toBytes⟩, [r], 0, 0, some opened⟩ := .log rfl rfl
  have hchunk : Step ⟨w', ⟨walHeader, r.toBytes⟩, [r], 0, 0, some opened⟩
      (.chunk r.toBytes.length) ⟨w', ⟨logBytes [r], []⟩, [r], 1, 0, some opened⟩ :=
    hbytes ▸ step_chunk_all ⟨w', ⟨walHeader, r.toBytes⟩, [r], 0, 0, some opened⟩
  have hstat : Step ⟨w', ⟨logBytes [r], []⟩, [r], 1, 0, some opened⟩ .stat
      ⟨w', ⟨logBytes [r], []⟩, [r], 1, 0,
        some { opened with poll := some ((logBytes [r]).length, 1) }⟩ := .stat rfl rfl
  have hread := Step.read (s := ⟨w', ⟨logBytes [r], []⟩, [r], 1, 0,
    some { opened with poll := some ((logBytes [r]).length, 1) }⟩) rfl rfl hpoll
  exact .cons trivial hcreate (.cons rfl hopen (.cons trivial hlog (.cons trivial hchunk
    (.cons trivial hstat (.cons trivial hread (.nil _))))))

/-- **Tailing is complete as long as a log with records is not truncated.** -/
theorem tailing_complete {es : List TailEvent} (hrun : Run Calm (start w) es s)
    (ht : s.tail = some t) : s.Complete t :=
  ((inv_start w).run hrun).tailComplete ht

omit [Crc32] in
theorem tailing_complete_first_poll : ∃ _ : Crc32, ∃ t,
    Run Calm (start ⟨1, 0⟩) (firstPoll ⟨1, 0⟩) (polled ⟨1, 0⟩) ∧
    (polled ⟨1, 0⟩).tail = some t ∧ (polled ⟨1, 0⟩).Complete t := by
  let crc : Crc32 := ⟨fun _ => 0⟩
  exact ⟨crc, _, run_firstPoll _, rfl, tailing_complete (run_firstPoll _) rfl⟩

/-- What happens after the first poll: the log is truncated, another commit is
logged, and a poll begins. -/
def skipped (w : WalWriter) : List TailEvent :=
  [.truncate, .chunk WAL_HEADER_SIZE, .log (.commit 2) (.ok 2),
    .chunk (firstCommit w).toBytes.length, .stat]

theorem Run.append {Allowed : Tailing → TailEvent → Prop} {es es' : List TailEvent}
    {s s' s'' : Tailing} (h : Run Allowed s es s') (h' : Run Allowed s' es' s'') :
    Run Allowed s (es ++ es') s'' := by
  induction h with
  | nil => exact h'
  | cons hallowed hstep _ ih => exact .cons hallowed hstep (ih h')

theorem Run.mono {Allowed Allowed' : Tailing → TailEvent → Prop}
    (himp : ∀ s e, Allowed s e → Allowed' s e) (h : Run Allowed s es s') :
    Run Allowed' s es s' := by
  induction h with
  | nil s => exact .nil s
  | cons hallowed hstep _ ih => exact .cons (himp _ _ hallowed) hstep ih

omit [Crc32] in
/-- **A log that is truncated and grows again is not followed.**  The tailer has
given back all there was; after the truncation a record is completely written,
and a poll does not find it. -/
theorem truncated_log_is_skipped : Nonempty Crc32 ∧ ∀ (_ : Crc32), ∃ s t,
    Run (fun _ _ => True) (start ⟨1, 0⟩) (firstPoll ⟨1, 0⟩ ++ skipped ⟨1, 0⟩) s ∧
    s.tail = some t ∧ s.log.writing = [] ∧
    (∃ len, t.poll = some (len, 2) ∧ (t.tailer.pollOnce len s.log.file).1 = .ok none) ∧
    s.appended.length = 2 ∧ t.returned.length = 1 ∧ ¬ s.Complete t := by
  refine ⟨⟨⟨fun _ => 0⟩⟩, fun _ => ?_⟩
  let w : WalWriter := ⟨1, 0⟩
  let w' : WalWriter := ⟨2, 0⟩
  let r := firstCommit w
  let r' := w'.logCommit 2 2 2
  let t : Tail := ⟨⟨(logBytes [r]).length, []⟩, 0, none, [tailed r]⟩
  have hbytes : walHeader ++ r'.toBytes = logBytes [r'] := by simp [logBytes]
  have hsame : r'.toBytes.length = r.toBytes.length := by
    rfl
  have hlen : (logBytes [r']).length = (logBytes [r]).length := by
    simp only [logBytes, flatMap_singleton, length_append, hsame]
  have htruncate : Step (polled w) .truncate ⟨w', .create, [r], 1, 1, some t⟩ := by
    refine .truncate rfl fun t' ht' x hx => ?_
    obtain rfl := some.inj ht'
    rw [mem_singleton.mp hx]
    exact mem_singleton.mpr rfl
  have hheader : Step ⟨w', .create, [r], 1, 1, some t⟩ (.chunk WAL_HEADER_SIZE)
      ⟨w', ⟨walHeader, []⟩, [r], 1, 1, some t⟩ := by
    have := step_chunk_all ⟨w', .create, [r], 1, 1, some t⟩
    rwa [show LogFile.create.writing.length = WAL_HEADER_SIZE from length_walHeader] at this
  have hlog : Step ⟨w', ⟨walHeader, []⟩, [r], 1, 1, some t⟩ (.log (.commit 2) (.ok 2))
      ⟨⟨3, 0⟩, ⟨walHeader, r'.toBytes⟩, [r, r'], 1, 1, some t⟩ := .log rfl rfl
  have hchunk : Step ⟨⟨3, 0⟩, ⟨walHeader, r'.toBytes⟩, [r, r'], 1, 1, some t⟩
      (.chunk r.toBytes.length) ⟨⟨3, 0⟩, ⟨logBytes [r'], []⟩, [r, r'], 2, 1, some t⟩ :=
    hsame ▸ hbytes ▸ step_chunk_all ⟨⟨3, 0⟩, ⟨walHeader, r'.toBytes⟩, [r, r'], 1, 1, some t⟩
  let s : Tailing := ⟨⟨3, 0⟩, ⟨logBytes [r'], []⟩, [r, r'], 2, 1,
    some { t with poll := some ((logBytes [r']).length, 2) }⟩
  have hstat : Step ⟨⟨3, 0⟩, ⟨logBytes [r'], []⟩, [r, r'], 2, 1, some t⟩ .stat s := .stat rfl rfl
  -- the file is not longer than what the tailer has read
  have hpoll : (WalTailer.pollOnce ⟨(logBytes [r]).length, []⟩ (logBytes [r']).length
      (logBytes [r'])).1 = .ok none := by
    rw [WalTailer.pollOnce, WalTailer.refillPending, if_pos hlen.le]
    rfl
  have hrun : Run (fun _ _ => True) (polled w) (skipped w) s :=
    .cons trivial htruncate (.cons trivial hheader (.cons trivial hlog (.cons trivial hchunk
      (.cons trivial hstat (.nil _)))))
  refine ⟨s, _, ((run_firstPoll w).mono fun _ _ _ => trivial).append hrun, rfl, rfl,
    ⟨_, rfl, hpoll⟩, rfl, rfl, fun hcomplete => ?_⟩
  have hle : 2 ≤ 1 := (hcomplete.caughtUp _ _ rfl hpoll).length_le
  exact absurd hle (by decide)

end Tailing

end Replication

end GrumpyDB
