/-
A follower of one leader across any number of connections.

A connection can be lost at any point, and the follower may start anew; it then asks for the
records from the mark it has saved on. What it holds is a cut of the records of the node at its
mark, and what a connection carries is a piece of these records that starts inside of it.
-/
import GrumpyDB.Lib.Ledger
import GrumpyDB.Replication.Applier
import GrumpyDB.Replication.Tailer

namespace GrumpyDB

open List WalRecord

namespace Replication

/-! ### The leader -/

def shouldShip (rec : TailedRecord) (startNode : Uuid) (startHlc : Hlc) : Bool :=
  if rec.record.originNodeId ≠ startNode.asU128 then false else rec.record.hlc ≥ startHlc

theorem shouldShip_eq_true {r : WalRecord} {o : Uuid} {start : Hlc} :
    shouldShip (tailed r) o start = true ↔ r.originNodeId = o.asU128 ∧ start ≤ r.hlc := by
  by_cases h : r.originNodeId = o.asU128 <;> simp [shouldShip, tailed]

def updateHighWater (slot candidate : Hlc) : Hlc := if candidate > slot then candidate else slot

/-- The task of the leader for one follower. -/
structure LeaderTask where
  tailer : WalTailer
  subscribed : Option Subscribe
  peerHighWater : Hlc
  readBuf : List UInt8

namespace LeaderTask

def new (tailer : WalTailer) : LeaderTask := ⟨tailer, none, 0, []⟩

/-- What a frame from the follower does; `none` if the task ends. -/
def onFrame (l : LeaderTask) (frame : Frame) : Option LeaderTask :=
  match l.subscribed, frame with
  | none, .subscribe s => some { l with subscribed := some s }
  | none, _ => none
  | some sub, .ack a =>
    if a.appliedNodeId.asU128 = sub.startNodeId.asU128 then
      some { l with peerHighWater := updateHighWater l.peerHighWater a.appliedHlc }
    else some l
  | some _, .heartbeat _ => some l
  | some _, _ => none

variable {l : LeaderTask} {sub : Subscribe} {hlc : Hlc}

theorem onFrame_subscribe (h : l.subscribed = none) :
    l.onFrame (.subscribe sub) = some { l with subscribed := some sub } := by
  simp [onFrame, h]

theorem onFrame_ack (h : l.subscribed = some sub) :
    l.onFrame (.ack ⟨sub.startNodeId, hlc⟩) =
      some { l with peerHighWater := updateHighWater l.peerHighWater hlc } := by
  simp [onFrame, h]

def send [Crc32] (l : LeaderTask) (frame : Frame) : Option (LeaderTask × List UInt8) :=
  match encodeFrame frame with
  | .ok bytes => some (l, bytes)
  | .error _ => none

theorem send_eq_some [Crc32] {l' : LeaderTask} {frame : Frame} {bytes : List UInt8}
    (h : l.send frame = some (l', bytes)) :
    l' = l ∧ frame.encodePayload.length ≤ MAX_FRAME_PAYLOAD ∧ bytes = frame.wire := by
  rw [send] at h
  rcases hencode : encodeFrame frame with e | b
  · simp [hencode] at h
  · simp only [hencode] at h
    obtain ⟨rfl, rfl⟩ := h
    exact ⟨rfl, encodeFrame_eq_ok_iff.mp hencode⟩

/-- Pull one record and ship it; without one, `quiet` tells whether a heartbeat
is due.  The bytes are those sent, and `none` means that the task ends. -/
def pull [Crc32] (l : LeaderTask) (sub : Subscribe) (len : Nat) (file : List UInt8)
    (quiet : Bool) : Option (LeaderTask × List UInt8) :=
  match l.tailer.pollOnce len file with
  | (.error _, _) => none
  | (.ok (some rec), tailer) =>
    let l := { l with tailer }
    if shouldShip rec sub.startNodeId sub.startHlc then l.send (.walRecord rec.raw)
    else some (l, [])
  | (.ok none, tailer) =>
    let l := { l with tailer }
    if quiet then l.send (.heartbeat 0) else some (l, [])

end LeaderTask

/-! ### The follower -/

def resumeHlcFor [PayloadJson AppliedSet] (file : Option (List UInt8)) (origin : Uuid) :
    Except GrumpyError Hlc :=
  (AppliedSet.load file).map fun set => set.highWater origin.asU128

/-- What a frame from the leader does: the applier afterwards, and the task with
the reading it acknowledges, or `none` if the task ends.  The applier behind and
the save succeed. -/
def FollowerTask.onFrame [PayloadJson AppliedSet] (everyN : Nat) (elapsed : Bool)
    (task : FollowerTask) (applier : IdempotentApplier) (frame : Frame) :
    IdempotentApplier × Option (FollowerTask × Option Hlc) :=
  match frame with
  | .walRecord raw =>
    match applier.apply ⟨raw, .ok (), .ok (), elapsed⟩ with
    | (.ok (), applier) => (applier, some (task.applied everyN elapsed raw))
    | (.error _, applier) => (applier, none)
  | .heartbeat _ => (applier, some (task, none))
  | _ => (applier, none)

/-! ### Frames on their way -/

/-- The bytes are those of frames, one after the other. -/
structure Sends [Crc32] (bytes : List UInt8) (frames : List Frame) : Prop where
  bytes : bytes = frames.flatMap Frame.wire
  good : ∀ f ∈ frames, f.Sendable

namespace Sends

variable [Crc32] {buf rest bytes : List UInt8} {frames : List Frame} {frame : Frame}

theorem nil : Sends [] [] := ⟨rfl, by simp⟩

theorem append (h : Sends bytes frames) (hf : frame.Sendable) :
    Sends (bytes ++ frame.wire) (frames ++ [frame]) := by
  refine ⟨by simp [h.bytes], fun f hmem => ?_⟩
  rcases mem_append.mp hmem with hmem | hmem
  · exact h.good f hmem
  · exact mem_singleton.mp hmem ▸ hf

theorem read (h : Sends (buf ++ rest) frames) (n : Nat) :
    Sends (buf ++ rest.take n ++ rest.drop n) frames := by
  rwa [append_assoc, take_append_drop]

theorem next {n : Nat} (h : Sends (buf ++ rest) frames)
    (hdecoded : decodeFrame buf = .ok (some (frame, n))) :
    ∃ more, frames = frame :: more ∧ Sends (buf.drop n ++ rest) more := by
  rcases framing.next h.good ⟨rest, h.bytes⟩ with
    ⟨f, more, tail, rfl, rfl, hfound, -⟩ | ⟨hwaiting, -⟩
  · obtain ⟨rfl, rfl⟩ : f = frame ∧ f.wire.length = n := by
      simpa using Except.ok.inj (hfound.symm.trans hdecoded)
    have hbytes := h.bytes
    rw [append_assoc, flatMap_cons, append_cancel_left_eq] at hbytes
    exact ⟨more, rfl, by rwa [drop_left], fun g hg => h.good g (by simp [hg])⟩
  · cases hdecoded.symm.trans hwaiting

end Sends

/-! ### Both and the connection between them -/

/-- A connection: both tasks and the bytes on their way. -/
structure Connection where
  leader : LeaderTask
  follower : FollowerTask
  followerBuf : List UInt8
  toLeader : List UInt8
  toFollower : List UInt8

structure Replicating where
  log : LogFile
  records : List WalRecord
  applier : IdempotentApplier
  connection : Option Connection
  /-- The readings acknowledged so far. -/
  acks : List Hlc

namespace Replicating

def start (applier : IdempotentApplier) : Replicating := ⟨.create, [], applier, none, []⟩

variable [Crc32] [PayloadJson AppliedSet]

/-- What can happen next.  `o` is the node that is followed, `everyN` the number
of records after which an acknowledgement is due. -/
inductive Step (o : Uuid) (everyN : Nat) (s : Replicating) : Replicating → Prop where
  /-- The leader begins to append a record.  The readings of the node are positive
  and ascend. -/
  | append {r : WalRecord} (idle : s.log.writing = []) (hseal : r.Sealed)
      (ascends : r.originNodeId = o.asU128 → 0 < r.hlc ∧
        ∀ r' ∈ s.records, r'.originNodeId = o.asU128 → r'.hlc < r.hlc) :
      Step o everyN s { s with log := s.log.append r, records := s.records ++ [r] }
  | chunk (n : Nat) : Step o everyN s { s with log := s.log.chunk n }
  /-- The follower connects and asks for the records from its saved mark on. -/
  | connect {path : String} {tailer : WalTailer} {hlc : Hlc} {bytes : List UInt8}
      (closed : s.connection = none) (opened : WalTailer.openLog path s.log.file = .ok tailer)
      (resume : resumeHlcFor s.applier.file o = .ok hlc)
      (sent : encodeFrame (.subscribe ⟨o, hlc⟩) = .ok bytes) :
      Step o everyN s { s with connection := some ⟨.new tailer, .new, [], bytes, []⟩ }
  | disconnect : Step o everyN s { s with connection := none }
  | restart {a : IdempotentApplier}
      (h : IdempotentApplier.new s.applier.file s.applier.inner = .ok a) :
      Step o everyN s { s with applier := a, connection := none }
  | leaderReads {c : Connection} (n : Nat) (h : s.connection = some c) :
      Step o everyN s
        { s with
          connection := some
            { c with
              leader := { c.leader with readBuf := c.leader.readBuf ++ c.toLeader.take n }
              toLeader := c.toLeader.drop n } }
  | followerReads {c : Connection} (n : Nat) (h : s.connection = some c) :
      Step o everyN s
        { s with
          connection := some
            { c with
              followerBuf := c.followerBuf ++ c.toFollower.take n
              toFollower := c.toFollower.drop n } }
  | leaderFrame {c : Connection} {frame : Frame} {n : Nat} (h : s.connection = some c)
      (decoded : decodeFrame c.leader.readBuf = .ok (some (frame, n))) :
      Step o everyN s
        { s with
          connection :=
            ({ c.leader with readBuf := c.leader.readBuf.drop n }.onFrame frame).map
              fun leader => { c with leader } }
  | leaderFails {c : Connection} {e : FrameError} (h : s.connection = some c)
      (decoded : decodeFrame c.leader.readBuf = .error e) :
      Step o everyN s { s with connection := none }
  /-- The leader polls its log, which had `len` bytes when it asked. -/
  | leaderPulls {c : Connection} {sub : Subscribe} {len : Nat} (quiet : Bool)
      (h : s.connection = some c) (subscribed : c.leader.subscribed = some sub)
      (seen : len ≤ s.log.file.length) :
      Step o everyN s
        { s with
          connection := (c.leader.pull sub len s.log.file quiet).map fun sent =>
            { c with leader := sent.1, toFollower := c.toFollower ++ sent.2 } }
  | followerFrame {c : Connection} {frame : Frame} {n : Nat} {task : FollowerTask}
      {ack : Option Hlc} {a : IdempotentApplier} {bytes : List UInt8} (elapsed : Bool)
      (h : s.connection = some c)
      (decoded : decodeFrame c.followerBuf = .ok (some (frame, n)))
      (applied : c.follower.onFrame everyN elapsed s.applier frame = (a, some (task, ack)))
      (sent : ack.elim (.ok []) (fun hlc => encodeFrame (.ack ⟨o, hlc⟩)) = .ok bytes) :
      Step o everyN s
        { s with
          applier := a
          connection := some
            { c with
              follower := task
              followerBuf := c.followerBuf.drop n
              toLeader := c.toLeader ++ bytes }
          acks := s.acks ++ ack.toList }
  | followerEnds {c : Connection} {frame : Frame} {n : Nat} {a : IdempotentApplier}
      (elapsed : Bool) (h : s.connection = some c)
      (decoded : decodeFrame c.followerBuf = .ok (some (frame, n)))
      (applied : c.follower.onFrame everyN elapsed s.applier frame = (a, none)) :
      Step o everyN s { s with applier := a, connection := none }
  | followerFails {c : Connection} {e : FrameError} (h : s.connection = some c)
      (decoded : decodeFrame c.followerBuf = .error e) :
      Step o everyN s { s with connection := none }

inductive Run (o : Uuid) (everyN : Nat) : Replicating → Replicating → Prop where
  | nil (s : Replicating) : Run o everyN s s
  | step {s s' s'' : Replicating} (run : Run o everyN s s') (step : Step o everyN s' s'') :
      Run o everyN s s''

/-! ### What a connection carries -/

def ofNode (o : Uuid) (records : List WalRecord) : List WalRecord :=
  records.filter fun r => r.originNodeId = o.asU128

omit [Crc32] [PayloadJson AppliedSet] in
theorem ofNode_append (o : Uuid) (records more : List WalRecord) :
    ofNode o (records ++ more) = ofNode o records ++ ofNode o more := List.filter_append ..

/-- The reading is 0 or that of a record among `held`. -/
def IsHeld (held : List WalRecord) (hlc : Hlc) : Prop := hlc = 0 ∨ ∃ r ∈ held, r.hlc = hlc

def recordOf : Frame → Option (List UInt8)
  | .walRecord raw => some raw
  | _ => none

/-- The leader has polled the first `polled` records and shipped those of the
node from `start` on; the follower has taken in `received` of them, and `carried`
is on its way, in the frames `down`.  `up` is on its way to the leader. -/
structure Carries (o : Uuid) (s : Replicating) (held : List WalRecord) (c : Connection)
    (polled : Nat) (start : Hlc) (received carried : List WalRecord) (up down : List Frame) :
    Prop where
  follows : Follows c.leader.tailer s.records polled
  start_le : start ≤ s.applier.set.highWater o.asU128
  shipped : received ++ carried =
    (ofNode o (s.records.take polled)).filter fun r => start ≤ r.hlc
  begins : (ofNode o s.records).filter (fun r => r.hlc < start) ++ received <+: held
  upSent : Sends (c.leader.readBuf ++ c.toLeader) up
  downSent : Sends (c.followerBuf ++ c.toFollower) down
  downKinds : ∀ f ∈ down, (∃ raw, f = .walRecord raw) ∨ ∃ hlc, f = .heartbeat hlc
  records : down.filterMap recordOf = carried.map WalRecord.toBytes
  phase : (c.leader.subscribed = none ∧ up = [.subscribe ⟨o, start⟩] ∧ polled = 0) ∨
    (c.leader.subscribed = some ⟨o, start⟩ ∧
      ∀ f ∈ up, ∃ hlc, f = .ack ⟨o, hlc⟩ ∧ IsHeld held hlc)
  mark : IsHeld held c.follower.appliedHighWater
  peer : IsHeld held c.leader.peerHighWater

structure Inv (o : Uuid) (s : Replicating) (held : List WalRecord) : Prop where
  sealed : ∀ r ∈ s.records, r.Sealed
  ascending : (ofNode o s.records).Pairwise fun a b => a.hlc < b.hlc
  holds : s.log.Holds s.records
  cut : Cut WalRecord.hlc (ofNode o s.records) (s.applier.set.highWater o.asU128) held
  mark : IsHeld held (s.applier.set.highWater o.asU128)
  inner : s.applier.inner = held.map fun r => (r.toBytes, true)
  saved : ∃ set, AppliedSet.load s.applier.file = .ok set ∧
    set.highWater o.asU128 = s.applier.set.highWater o.asU128
  acks : ∀ hlc ∈ s.acks, ∃ r ∈ held, r.hlc = hlc
  connection : ∀ c, s.connection = some c → ∃ polled start received carried up down,
    Carries o s held c polled start received carried up down

variable {o : Uuid} {everyN : Nat} {s s' : Replicating} {held : List WalRecord} {c : Connection}
  {polled : Nat} {start : Hlc} {received carried : List WalRecord} {up down : List Frame}

variable {hlc : Hlc}

omit [Crc32] [PayloadJson AppliedSet] in
theorem IsHeld.mono {held' : List WalRecord} (h : IsHeld held hlc) (hsub : held ⊆ held') :
    IsHeld held' hlc :=
  h.imp_right fun ⟨r, hr, heq⟩ => ⟨r, hsub hr, heq⟩

theorem Inv.withConnection (h : Inv o s held) {c' : Option Connection}
    (hc : ∀ c, c' = some c → ∃ polled start received carried up down,
      Carries o { s with connection := c' } held c polled start received carried up down) :
    Inv o { s with connection := c' } held :=
  ⟨h.sealed, h.ascending, h.holds, h.cut, h.mark, h.inner, h.saved, h.acks, hc⟩

theorem Inv.disconnect (h : Inv o s held) : Inv o { s with connection := none } held :=
  h.withConnection (by simp)

variable {a : IdempotentApplier}

theorem inv_start {file : Option (List UInt8)} (hnew : IdempotentApplier.new file [] = .ok a)
    (hfresh : a.set.highWater o.asU128 = 0) :
    Inv o (Replicating.start a) [] := by
  obtain ⟨set, hload, rfl⟩ := except_map_eq_ok.mp hnew
  refine ⟨by simp [Replicating.start], List.Pairwise.nil, LogFile.holds_create,
    ⟨by simp, [], rfl, by simp⟩, .inl hfresh, rfl, ⟨set, hload, rfl⟩,
    by simp [Replicating.start], by simp [Replicating.start]⟩

/-! ### The log grows -/

variable {r : WalRecord}

theorem Inv.append (h : Inv o s held) (idle : s.log.writing = []) (hseal : r.Sealed)
    (hr : r.originNodeId = o.asU128 → 0 < r.hlc ∧
      ∀ r' ∈ s.records, r'.originNodeId = o.asU128 → r'.hlc < r.hlc) :
    Inv o { s with log := s.log.append r, records := s.records ++ [r] } held := by
  -- a record of the node is above the mark
  have hmem : ∀ x ∈ ofNode o [r], x = r ∧ r.originNodeId = o.asU128 := by
    intro x hx
    obtain ⟨hx, horigin⟩ := mem_filter.mp hx
    obtain rfl := mem_singleton.mp hx
    exact ⟨rfl, by simpa using horigin⟩
  have hof : ∀ x ∈ ofNode o s.records, x ∈ s.records ∧ x.originNodeId = o.asU128 := by
    simp [ofNode]
  have habove : ∀ x ∈ ofNode o [r], s.applier.set.highWater o.asU128 < x.hlc := by
    intro x hx
    obtain ⟨rfl, horigin⟩ := hmem x hx
    obtain ⟨hpos, hlast⟩ := hr horigin
    rcases h.mark with hzero | ⟨y, hy, heq⟩
    · rw [hzero]
      exact hpos
    · rw [← heq]
      obtain ⟨hy, hyo⟩ := hof y (h.cut.isPrefix.subset hy)
      exact hlast y hy hyo
  refine ⟨?_, ?_, ?_, ?_, h.mark, h.inner, h.saved, h.acks, ?_⟩
  · intro x hx
    rcases mem_append.mp hx with hx | hx
    · exact h.sealed x hx
    · exact mem_singleton.mp hx ▸ hseal
  · show (ofNode o (s.records ++ [r])).Pairwise _
    rw [ofNode_append]
    refine pairwise_append.mpr ⟨h.ascending, ?_, ?_⟩
    · exact (pairwise_singleton _ r).sublist filter_sublist
    · intro x hx y hy
      obtain ⟨rfl, horigin⟩ := hmem y hy
      obtain ⟨hx, hxo⟩ := hof x hx
      exact (hr horigin).2 x hx hxo
  · exact h.holds.append idle
  · show Cut hlc (ofNode o (s.records ++ [r])) _ held
    rw [ofNode_append]
    exact h.cut.append habove
  · intro c hc
    obtain ⟨polled, start, received, carried, up, down, hcar⟩ := h.connection c hc
    refine ⟨polled, start, received, carried, up, down, hcar.follows.append [r], hcar.start_le,
      ?_, ?_, hcar.upSent, hcar.downSent, hcar.downKinds,
      hcar.records, hcar.phase, hcar.mark, hcar.peer⟩
    · show received ++ carried = (ofNode o ((s.records ++ [r]).take polled)).filter _
      rw [take_append_of_le_length hcar.follows.taken]
      exact hcar.shipped
    · show (ofNode o (s.records ++ [r])).filter (fun r => r.hlc < start) ++ received <+: held
      have hnone : (ofNode o [r]).filter (fun r => r.hlc < start) = [] :=
        filter_eq_nil_iff.mpr fun x hx => by
          simpa using hcar.start_le.trans (habove x hx).le
      rw [ofNode_append, filter_append, hnone, append_nil]
      exact hcar.begins

theorem Inv.chunk (h : Inv o s held) (n : Nat) : Inv o { s with log := s.log.chunk n } held := by
  refine ⟨h.sealed, h.ascending, h.holds.chunk n, h.cut, h.mark, h.inner, h.saved, h.acks, ?_⟩
  intro c hc
  obtain ⟨polled, start, received, carried, up, down, hcar⟩ := h.connection c hc
  exact ⟨polled, start, received, carried, up, down, hcar.follows, hcar.start_le, hcar.shipped,
    hcar.begins, hcar.upSent, hcar.downSent, hcar.downKinds, hcar.records, hcar.phase, hcar.mark,
    hcar.peer⟩

/-! ### Connecting -/

variable {bytes : List UInt8}

theorem Inv.connect (h : Inv o s held) {path : String} {tailer : WalTailer}
    (opened : WalTailer.openLog path s.log.file = .ok tailer)
    (resume : resumeHlcFor s.applier.file o = .ok hlc)
    (sent : encodeFrame (.subscribe ⟨o, hlc⟩) = .ok bytes) :
    Inv o { s with connection := some ⟨.new tailer, .new, [], bytes, []⟩ } held := by
  refine h.withConnection fun c hc => ?_
  obtain rfl := Option.some.inj hc
  rw [WalTailer.openLog_eq_ok opened]
  -- the follower asks from its mark on
  have hmark : hlc = s.applier.set.highWater o.asU128 := by
    obtain ⟨set, hload, rfl⟩ := except_map_eq_ok.mp resume
    obtain ⟨set', hload', hsame⟩ := h.saved
    rw [← hsame, Except.ok.inj (hload.symm.trans hload')]
  obtain ⟨hsize, rfl⟩ := encodeFrame_eq_ok_iff.mp sent
  refine ⟨0, hlc, [], [], [.subscribe ⟨o, hlc⟩], [], .opened _, hmark.le, by simp [ofNode], ?_,
    Sends.nil.append ⟨trivial, hsize⟩, Sends.nil, by simp, rfl, .inl ⟨rfl, rfl, rfl⟩, .inl rfl,
    .inl rfl⟩
  show _ ++ [] <+: held
  rw [append_nil, hmark]
  exact h.cut.filter_lt_prefix h.ascending

theorem Inv.restart (h : Inv o s held)
    (hnew : IdempotentApplier.new s.applier.file s.applier.inner = .ok a) :
    Inv o { s with applier := a, connection := none } held := by
  obtain ⟨set, hload, rfl⟩ := except_map_eq_ok.mp hnew
  have hsame : set.highWater o.asU128 = s.applier.set.highWater o.asU128 := by
    obtain ⟨set', hload', hsame⟩ := h.saved
    rw [← hsame, Except.ok.inj (hload.symm.trans hload')]
  refine ⟨h.sealed, h.ascending, h.holds, ?_, ?_, h.inner, ⟨set, hload, rfl⟩, h.acks, by simp⟩
  · show Cut _ _ (set.highWater o.asU128) held
    rw [hsame]
    exact h.cut
  · show IsHeld held (set.highWater o.asU128)
    rw [hsame]
    exact h.mark

/-! ### The leader reads and ships -/

theorem Inv.leaderReads (h : Inv o s held) (hc : s.connection = some c) (n : Nat) :
    Inv o
      { s with
        connection := some
          { c with
            leader := { c.leader with readBuf := c.leader.readBuf ++ c.toLeader.take n }
            toLeader := c.toLeader.drop n } } held := by
  obtain ⟨polled, start, received, carried, up, down, hcar⟩ := h.connection c hc
  refine h.withConnection fun c' hc' => ?_
  obtain rfl := Option.some.inj hc'
  exact ⟨polled, start, received, carried, up, down, { hcar with upSent := hcar.upSent.read n }⟩

theorem Inv.followerReads (h : Inv o s held) (hc : s.connection = some c) (n : Nat) :
    Inv o
      { s with
        connection := some
          { c with
            followerBuf := c.followerBuf ++ c.toFollower.take n
            toFollower := c.toFollower.drop n } } held := by
  obtain ⟨polled, start, received, carried, up, down, hcar⟩ := h.connection c hc
  refine h.withConnection fun c' hc' => ?_
  obtain rfl := Option.some.inj hc'
  exact ⟨polled, start, received, carried, up, down, { hcar with downSent := hcar.downSent.read n }⟩

omit [Crc32] [PayloadJson AppliedSet] in
theorem IsHeld.updateHighWater {slot candidate : Hlc} (h : IsHeld held slot)
    (h' : IsHeld held candidate) : IsHeld held (updateHighWater slot candidate) := by
  rw [Replication.updateHighWater]
  split
  · exact h'
  · exact h

variable {frame : Frame} {n : Nat}

theorem Inv.leaderFrame (h : Inv o s held) (hc : s.connection = some c)
    (hdecoded : decodeFrame c.leader.readBuf = .ok (some (frame, n))) :
    Inv o
      { s with
        connection :=
          ({ c.leader with readBuf := c.leader.readBuf.drop n }.onFrame frame).map
            fun leader => { c with leader } } held := by
  obtain ⟨polled, start, received, carried, up, down, hcar⟩ := h.connection c hc
  obtain ⟨more, rfl, hsent⟩ := hcar.upSent.next hdecoded
  refine h.withConnection fun c' hc' => ?_
  obtain ⟨leader, hleader, rfl⟩ := Option.map_eq_some_iff.mp hc'
  rcases hcar.phase with ⟨hsub, hup, rfl⟩ | ⟨hsub, hup⟩
  · -- the follower subscribes
    obtain ⟨rfl, rfl⟩ := cons.inj hup
    obtain rfl := Option.some.inj
      ((LeaderTask.onFrame_subscribe (l := { c.leader with readBuf := c.leader.readBuf.drop n })
        hsub).symm.trans hleader)
    exact ⟨0, start, received, carried, [], down, { hcar with
      upSent := hsent
      phase := .inr ⟨rfl, by simp⟩
      peer := hcar.peer }⟩
  · -- it acknowledges
    obtain ⟨hlc, rfl, hheld⟩ := hup frame (by simp)
    obtain rfl := Option.some.inj
      ((LeaderTask.onFrame_ack (l := { c.leader with readBuf := c.leader.readBuf.drop n })
        hsub).symm.trans hleader)
    exact ⟨polled, start, received, carried, more, down, { hcar with
      upSent := hsent
      phase := .inr ⟨hsub, fun f hf => hup f (by simp [hf])⟩
      peer := hcar.peer.updateHighWater hheld }⟩

theorem Inv.leaderPulls (h : Inv o s held) (hc : s.connection = some c) {sub : Subscribe}
    {len : Nat} (quiet : Bool) (hsub : c.leader.subscribed = some sub)
    (hseen : len ≤ s.log.file.length) :
    Inv o
      { s with
        connection := (c.leader.pull sub len s.log.file quiet).map fun sent =>
          { c with leader := sent.1, toFollower := c.toFollower ++ sent.2 } } held := by
  obtain ⟨polled, start, received, carried, up, down, hcar⟩ := h.connection c hc
  have hphase : c.leader.subscribed = some ⟨o, start⟩ ∧
      ∀ f ∈ up, ∃ hlc, f = .ack ⟨o, hlc⟩ ∧ IsHeld held hlc :=
    hcar.phase.resolve_left fun hnone => by simp [hnone.1] at hsub
  obtain rfl : sub = ⟨o, start⟩ := Option.some.inj (hsub.symm.trans hphase.1)
  refine h.withConnection fun c' hc' => ?_
  obtain ⟨⟨leader, bytes⟩, hpull, rfl⟩ := Option.map_eq_some_iff.mp hc'
  rw [LeaderTask.pull] at hpull
  rcases hcar.follows.pollOnce h.sealed h.holds.isPrefix (.inl hseen) with
    ⟨tailer, r, hr, hpoll, hfollows⟩ | ⟨tailer, hpoll, hfollows, -⟩
  · -- a record
    have htake : s.records.take (polled + 1) = s.records.take polled ++ [r] := by
      rw [take_add_one, hr]
      rfl
    rw [hpoll] at hpull
    simp only at hpull
    split at hpull
    · -- it is shipped
      rename_i hship
      obtain ⟨rfl, hsize, rfl⟩ := LeaderTask.send_eq_some hpull
      obtain ⟨horigin, hstart⟩ := shouldShip_eq_true.mp hship
      have hone : (ofNode o [r]).filter (fun r => start ≤ r.hlc) = [r] := by
        simp [ofNode, horigin, hstart]
      refine ⟨polled + 1, start, received, carried ++ [r], up, down ++ [.walRecord r.toBytes],
        { hcar with
          follows := hfollows
          shipped := ?_
          downSent := ?_
          downKinds := ?_
          records := ?_
          phase := .inr ⟨hphase.1, hphase.2⟩ }⟩
      · show _ = (ofNode o (s.records.take (polled + 1))).filter _
        rw [htake, ofNode_append, filter_append, hone, ← hcar.shipped, append_assoc]
      · show Sends (c.followerBuf ++ (c.toFollower ++ (Frame.walRecord r.toBytes).wire)) _
        rw [← append_assoc]
        exact hcar.downSent.append ⟨trivial, hsize⟩
      · intro f hf
        rcases mem_append.mp hf with hf | hf
        · exact hcar.downKinds f hf
        · exact .inl ⟨_, mem_singleton.mp hf⟩
      · rw [filterMap_append, hcar.records]
        simp [recordOf]
    · -- it is not asked for
      rename_i hship
      obtain ⟨rfl, rfl⟩ := Prod.mk.inj (Option.some.inj hpull)
      have hnone : (ofNode o [r]).filter (fun r => start ≤ r.hlc) = [] := by
        refine filter_eq_nil_iff.mpr fun x hx => ?_
        obtain ⟨hx, horigin⟩ := mem_filter.mp hx
        obtain rfl := mem_singleton.mp hx
        simp only [decide_eq_true_eq] at horigin ⊢
        exact fun hstart => hship (shouldShip_eq_true.mpr ⟨horigin, hstart⟩)
      refine ⟨polled + 1, start, received, carried, up, down,
        { hcar with
          follows := hfollows
          shipped := ?_
          downSent := ?_
          phase := .inr ⟨hphase.1, hphase.2⟩ }⟩
      · show _ = (ofNode o (s.records.take (polled + 1))).filter _
        rw [htake, ofNode_append, filter_append, hnone, append_nil]
        exact hcar.shipped
      · show Sends (c.followerBuf ++ (c.toFollower ++ [])) _
        rw [append_nil]
        exact hcar.downSent
  · -- nothing new
    rw [hpoll] at hpull
    simp only at hpull
    split at hpull
    · obtain ⟨rfl, hsize, rfl⟩ := LeaderTask.send_eq_some hpull
      refine ⟨polled, start, received, carried, up, down ++ [.heartbeat 0],
        { hcar with
          follows := hfollows
          downSent := ?_
          downKinds := ?_
          records := ?_ }⟩
      · show Sends (c.followerBuf ++ (c.toFollower ++ (Frame.heartbeat 0).wire)) _
        rw [← append_assoc]
        exact hcar.downSent.append ⟨trivial, hsize⟩
      · intro f hf
        rcases mem_append.mp hf with hf | hf
        · exact hcar.downKinds f hf
        · exact .inr ⟨_, mem_singleton.mp hf⟩
      · rw [filterMap_append, hcar.records]
        simp [recordOf]
    · obtain ⟨rfl, rfl⟩ := Prod.mk.inj (Option.some.inj hpull)
      refine ⟨polled, start, received, carried, up, down,
        { hcar with
          follows := hfollows
          downSent := ?_ }⟩
      show Sends (c.followerBuf ++ (c.toFollower ++ [])) _
      rw [append_nil]
      exact hcar.downSent

/-! ### The follower applies -/

/-- What taking in the next record carried does to the applier. -/
structure Absorbed (o : Uuid) (s : Replicating) (held held' : List WalRecord)
    (a : IdempotentApplier) : Prop where
  grows : held <+: held'
  cut : Cut WalRecord.hlc (ofNode o s.records) (a.set.highWater o.asU128) held'
  mark : IsHeld held' (a.set.highWater o.asU128)
  le : s.applier.set.highWater o.asU128 ≤ a.set.highWater o.asU128
  inner : a.inner = held'.map fun r => (r.toBytes, true)
  saved : ∃ set, AppliedSet.load a.file = .ok set ∧
    set.highWater o.asU128 = a.set.highWater o.asU128

omit [PayloadJson AppliedSet] in
theorem Carries.next (hasc : (ofNode o s.records).Pairwise fun a b => a.hlc < b.hlc)
    (h : Carries o s held c polled start received (r :: carried) up down) :
    (ofNode o s.records).filter (fun r => r.hlc < start) ++ received ++ [r] <+:
      ofNode o s.records := by
  have hship : received ++ r :: carried <+:
      (ofNode o s.records).filter fun r => start ≤ r.hlc := by
    rw [h.shipped]
    refine List.IsPrefix.filter _ (List.IsPrefix.filter _ ?_)
    exact take_prefix _ _
  calc (ofNode o s.records).filter (fun r => r.hlc < start) ++ received ++ [r]
      <+: (ofNode o s.records).filter (fun r => r.hlc < start) ++ (received ++ r :: carried) := by
        rw [append_assoc, prefix_append_right_inj, prefix_append_right_inj]
        exact prefix_cons_inj r |>.mpr nil_prefix
    _ <+: (ofNode o s.records).filter (fun r => r.hlc < start) ++
        (ofNode o s.records).filter (fun r => start ≤ r.hlc) :=
      (prefix_append_right_inj _).mpr hship
    _ = ofNode o s.records := filter_lt_append_filter_ge start hasc

/-- The record is applied unless the follower holds it already. -/
theorem Inv.apply (h : Inv o s held)
    (hcar : Carries o s held c polled start received (r :: carried) up down) (elapsed : Bool) :
    ∃ held' a, s.applier.apply ⟨r.toBytes, .ok (), .ok (), elapsed⟩ = (.ok (), a) ∧
      Absorbed o s held held' a ∧
      (ofNode o s.records).filter (fun r => r.hlc < start) ++ (received ++ [r]) <+: held' := by
  have hnext := hcar.next h.ascending
  have hmem : r ∈ ofNode o s.records := hnext.subset (by simp)
  have horigin : r.originNodeId = o.asU128 := by simpa [ofNode] using (mem_filter.mp hmem).2
  have hp : peekOriginHlc r.toBytes = some (o.asU128, r.hlc) := by
    rw [peekOriginHlc_toBytes, horigin]
  have hwater : ((s.applier.set.observe o.asU128 r.hlc).2).highWater o.asU128 =
      max (s.applier.set.highWater o.asU128) r.hlc := by
    rw [AppliedSet.highWater_observe, if_pos rfl]
  rw [← append_assoc]
  rcases h.cut.next_cases hcar.begins hnext with ⟨hle, hin⟩ | ⟨hlt, hheld⟩
  · -- it is held
    have hsame := hwater.trans (max_eq_left hle)
    rcases IdempotentApplier.apply_cases
      (c := ⟨r.toBytes, .ok (), .ok (), elapsed⟩) hp with ⟨-, he⟩ | ⟨hlt, -⟩ | ⟨hlt, -⟩
    · refine ⟨held, _, he, ⟨prefix_rfl, ?_, ?_, hsame.ge, h.inner, ?_⟩, hin⟩
      · exact hsame.symm ▸ h.cut
      · exact hsame.symm ▸ h.mark
      · exact hsame.symm ▸ h.saved
    · exact absurd hlt hle.not_gt
    · exact absurd hlt hle.not_gt
  · -- it is new
    have hnew := hwater.trans (max_eq_right hlt.le)
    rcases IdempotentApplier.apply_cases
      (c := ⟨r.toBytes, .ok (), .ok (), elapsed⟩) hp with
      ⟨hle, -⟩ | ⟨-, hfail, -⟩ | ⟨-, -, result, hok, he⟩
    · exact absurd hlt hle.not_gt
    · cases hfail
    · obtain rfl : result = .ok () := by
        rcases result with e | ⟨⟨⟩⟩
        · cases hok
        · rfl
      have hnext' : held ++ [r] <+: ofNode o s.records := hheld ▸ hnext
      have hcut := h.cut.extend h.ascending hnext' hlt.le
      refine ⟨held ++ [r], _, he, ⟨prefix_append _ _, ?_, ?_, ?_, ?_, ?_⟩,
        by rw [hheld]⟩
      · exact hnew.symm ▸ hcut
      · exact .inr ⟨r, by simp, hnew.symm⟩
      · exact hnew.symm ▸ hlt.le
      · show s.applier.inner ++ [(r.toBytes, true)] = _
        rw [h.inner]
        simp
      · exact ⟨_, AppliedSet.load_toVec _, rfl⟩

omit [Crc32] [PayloadJson AppliedSet] in
theorem IsHeld.max_of_mem (h : IsHeld held hlc) (hr : r ∈ held) :
    ∃ x ∈ held, x.hlc = max hlc r.hlc := by
  rcases le_total hlc r.hlc with hle | hle
  · exact ⟨r, hr, (max_eq_right hle).symm⟩
  · rcases h with rfl | ⟨x, hx, heq⟩
    · have hzero : r.hlc = 0 := le_antisymm hle (UInt64.le_iff_toNat_le.mpr (Nat.zero_le _))
      exact ⟨r, hr, by rw [hzero, max_self]⟩
    · exact ⟨x, hx, heq.trans (max_eq_left hle).symm⟩

/-- The frames to the leader with an acknowledgement that may follow them. -/
def withAck (o : Uuid) (up : List Frame) (ack : Option Hlc) : List Frame :=
  up ++ (ack.map fun hlc => Frame.ack ⟨o, hlc⟩).toList

variable {ack : Option Hlc}

omit [PayloadJson AppliedSet] in
theorem sends_withAck {sent : List UInt8} (h : Sends sent up)
    (hack : ack.elim (.ok []) (fun hlc => encodeFrame (.ack ⟨o, hlc⟩)) = .ok bytes) :
    Sends (sent ++ bytes) (withAck o up ack) := by
  rcases ack with _ | hlc
  · obtain rfl : [] = bytes := Except.ok.inj hack
    rw [Replicating.withAck]
    simpa using h
  · obtain ⟨hsize, rfl⟩ := encodeFrame_eq_ok_iff.mp hack
    exact h.append ⟨trivial, hsize⟩

theorem Inv.absorb (h : Inv o s held) (elapsed : Bool)
    (hcar : Carries o s held c polled start received (r :: carried) up
      (.walRecord r.toBytes :: down))
    (hdecoded : decodeFrame c.followerBuf = .ok (some (.walRecord r.toBytes, n)))
    (hsent : (c.follower.applied everyN elapsed r.toBytes).2.elim (.ok [])
      (fun hlc => encodeFrame (.ack ⟨o, hlc⟩)) = .ok bytes) :
    ∃ held' a, s.applier.apply ⟨r.toBytes, .ok (), .ok (), elapsed⟩ = (.ok (), a) ∧
      Inv o
        { s with
          applier := a
          connection := some
            { c with
              follower := (c.follower.applied everyN elapsed r.toBytes).1
              followerBuf := c.followerBuf.drop n
              toLeader := c.toLeader ++ bytes }
          acks := s.acks ++ (c.follower.applied everyN elapsed r.toBytes).2.toList } held' := by
  obtain ⟨held', a, happly, habs, hbegins⟩ := h.apply hcar elapsed
  refine ⟨held', a, happly, ?_⟩
  have hr : r ∈ held' := hbegins.subset (by simp)
  -- what may be acknowledged is the reading of a record that is held
  have hpeek : (peekRecordHlc r.toBytes).getD 0 = r.hlc := by
    rw [peekRecordHlc_eq, peekOriginHlc_toBytes]
    rfl
  have hmark : ∃ x ∈ held',
      x.hlc = (c.follower.applied everyN elapsed r.toBytes).1.appliedHighWater := by
    rw [FollowerTask.appliedHighWater_applied, hpeek]
    exact (hcar.mark.mono habs.grows.subset).max_of_mem hr
  have hack : ∀ hlc ∈ (c.follower.applied everyN elapsed r.toBytes).2.toList,
      ∃ x ∈ held', x.hlc = hlc := by
    intro hlc hmem
    rw [Option.mem_toList] at hmem
    rw [FollowerTask.applied_ack hmem]
    exact hmark
  refine ⟨h.sealed, h.ascending, h.holds, habs.cut, habs.mark, habs.inner, habs.saved, ?_, ?_⟩
  · intro hlc hmem
    rcases mem_append.mp hmem with hold | hnew
    · obtain ⟨x, hx, heq⟩ := h.acks hlc hold
      exact ⟨x, habs.grows.subset hx, heq⟩
    · exact hack hlc hnew
  intro c' hc'
  obtain rfl := Option.some.inj hc'
  obtain ⟨more, hmore, hdown⟩ := hcar.downSent.next hdecoded
  obtain rfl : down = more := (cons.inj hmore).2
  -- a record is on its way, so the leader knows what the follower asked for
  have hphase : c.leader.subscribed = some ⟨o, start⟩ ∧
      ∀ f ∈ up, ∃ hlc, f = .ack ⟨o, hlc⟩ ∧ IsHeld held hlc := by
    refine hcar.phase.resolve_left fun hnone => ?_
    have hempty := hcar.shipped
    rw [hnone.2.2] at hempty
    simp [ofNode] at hempty
  refine ⟨polled, start, received ++ [r], carried,
    withAck o up (c.follower.applied everyN elapsed r.toBytes).2, down, { hcar with
      start_le := hcar.start_le.trans habs.le
      shipped := by rw [append_assoc]; exact hcar.shipped
      begins := hbegins
      upSent := ?_
      downSent := hdown
      downKinds := fun f hf => hcar.downKinds f (by simp [hf])
      records := tail_eq_of_cons_eq hcar.records
      phase := .inr ⟨hphase.1, ?_⟩
      mark := .inr hmark
      peer := hcar.peer.mono habs.grows.subset }⟩
  · show Sends (c.leader.readBuf ++ (c.toLeader ++ bytes)) _
    rw [← append_assoc]
    exact sends_withAck hcar.upSent hsent
  · intro f hf
    rcases mem_append.mp hf with hf | hf
    · obtain ⟨hlc, rfl, hheld⟩ := hphase.2 f hf
      exact ⟨hlc, rfl, hheld.mono habs.grows.subset⟩
    · obtain ⟨hlc, hmem, rfl⟩ := Option.map_eq_some_iff.mp (Option.mem_toList.mp hf)
      exact ⟨hlc, rfl, .inr (hack hlc (by simpa using hmem))⟩

theorem Inv.heartbeat (h : Inv o s held) (hc : s.connection = some c)
    (hdecoded : decodeFrame c.followerBuf = .ok (some (.heartbeat hlc, n))) :
    Inv o { s with connection := some { c with followerBuf := c.followerBuf.drop n } } held := by
  obtain ⟨polled, start, received, carried, up, down, hcar⟩ := h.connection c hc
  refine h.withConnection fun c' hc' => ?_
  obtain rfl := Option.some.inj hc'
  obtain ⟨more, rfl, hdown⟩ := hcar.downSent.next hdecoded
  exact ⟨polled, start, received, carried, up, more, { hcar with
    downSent := hdown
    downKinds := fun f hf => hcar.downKinds f (by simp [hf])
    records := hcar.records }⟩

theorem Inv.decoded (h : Inv o s held) (hc : s.connection = some c)
    (hdecoded : decodeFrame c.followerBuf = .ok (some (frame, n))) :
    (∃ hlc, frame = .heartbeat hlc) ∨
    ∃ r polled start received carried up down, frame = .walRecord r.toBytes ∧
      Carries o s held c polled start received (r :: carried) up
        (.walRecord r.toBytes :: down) := by
  obtain ⟨polled, start, received, carried, up, down, hcar⟩ := h.connection c hc
  obtain ⟨more, rfl, -⟩ := hcar.downSent.next hdecoded
  rcases hcar.downKinds frame (by simp) with ⟨raw, rfl⟩ | hbeat
  · right
    have hrecords := hcar.records
    rcases carried with _ | ⟨r, carried⟩
    · cases hrecords
    · obtain ⟨rfl, -⟩ := cons.inj hrecords
      exact ⟨r, polled, start, received, carried, up, more, rfl, hcar⟩
  · exact .inl hbeat

theorem Inv.onFrame (h : Inv o s held) (hc : s.connection = some c) {elapsed : Bool}
    {next : Option (FollowerTask × Option Hlc)}
    (hdecoded : decodeFrame c.followerBuf = .ok (some (frame, n)))
    (happlied : c.follower.onFrame everyN elapsed s.applier frame = (a, next)) :
    (∃ hlc, frame = .heartbeat hlc ∧ a = s.applier ∧ next = some (c.follower, none)) ∨
    ∃ r polled start received carried up down, frame = .walRecord r.toBytes ∧
      Carries o s held c polled start received (r :: carried) up (.walRecord r.toBytes :: down) ∧
      s.applier.apply ⟨r.toBytes, .ok (), .ok (), elapsed⟩ = (.ok (), a) ∧
      next = some (c.follower.applied everyN elapsed r.toBytes) := by
  rcases h.decoded hc hdecoded with
    ⟨hlc, rfl⟩ | ⟨r, polled, start, received, carried, up, down, rfl, hcar⟩
  · obtain ⟨rfl, rfl⟩ := Prod.mk.inj happlied
    exact .inl ⟨hlc, rfl, rfl, rfl⟩
  · obtain ⟨-, a', happly, -⟩ := h.apply hcar elapsed
    simp only [FollowerTask.onFrame, happly] at happlied
    obtain ⟨rfl, rfl⟩ := Prod.mk.inj happlied
    exact .inr ⟨r, polled, start, received, carried, up, down, rfl, hcar, happly, rfl⟩

theorem Inv.followerFrame (h : Inv o s held) (hc : s.connection = some c) {task : FollowerTask}
    {elapsed : Bool} (hdecoded : decodeFrame c.followerBuf = .ok (some (frame, n)))
    (happlied : c.follower.onFrame everyN elapsed s.applier frame = (a, some (task, ack)))
    (hsent : ack.elim (.ok []) (fun hlc => encodeFrame (.ack ⟨o, hlc⟩)) = .ok bytes) :
    ∃ held', Inv o
        { s with
          applier := a
          connection := some
            { c with
              follower := task
              followerBuf := c.followerBuf.drop n
              toLeader := c.toLeader ++ bytes }
          acks := s.acks ++ ack.toList } held' := by
  rcases h.onFrame hc hdecoded happlied with
    ⟨hlc, rfl, rfl, hnext⟩ |
    ⟨r, polled, start, received, carried, up, down, rfl, hcar, happly, hnext⟩
  · obtain ⟨rfl, rfl⟩ := Prod.mk.inj (Option.some.inj hnext)
    obtain rfl : [] = bytes := Except.ok.inj hsent
    refine ⟨held, ?_⟩
    simpa using h.heartbeat hc hdecoded
  · obtain ⟨rfl, rfl⟩ := Prod.mk.inj (Option.some.inj hnext)
    obtain ⟨held', a', happly', hinv⟩ := h.absorb elapsed hcar hdecoded hsent
    obtain rfl : a = a' := (Prod.mk.inj (happly.symm.trans happly')).2
    exact ⟨held', hinv⟩

/-! ### Whole runs -/

theorem Inv.step (h : Inv o s held) (hstep : Step o everyN s s') : ∃ held', Inv o s' held' := by
  cases hstep with
  | append idle hseal ascends => exact ⟨held, h.append idle hseal ascends⟩
  | chunk n => exact ⟨held, h.chunk n⟩
  | connect closed opened resume sent => exact ⟨held, h.connect opened resume sent⟩
  | disconnect => exact ⟨held, h.disconnect⟩
  | restart hnew => exact ⟨held, h.restart hnew⟩
  | leaderReads n hc => exact ⟨held, h.leaderReads hc n⟩
  | followerReads n hc => exact ⟨held, h.followerReads hc n⟩
  | leaderFrame hc decoded => exact ⟨held, h.leaderFrame hc decoded⟩
  | leaderFails _ _ => exact ⟨held, h.disconnect⟩
  | leaderPulls quiet hc subscribed seen => exact ⟨held, h.leaderPulls hc quiet subscribed seen⟩
  | followerFrame elapsed hc decoded applied sent => exact h.followerFrame hc decoded applied sent
  | followerEnds elapsed hc decoded applied =>
    rcases h.onFrame hc decoded applied with
      ⟨_, -, -, hnext⟩ | ⟨_, _, _, _, _, _, _, -, -, -, hnext⟩
    · cases hnext
    · cases hnext
  | followerFails _ _ => exact ⟨held, h.disconnect⟩

theorem Inv.run (h : Inv o s held) (hrun : Run o everyN s s') : ∃ held', Inv o s' held' := by
  induction hrun with
  | nil => exact ⟨held, h⟩
  | step _ hstep ih =>
    obtain ⟨held', h'⟩ := ih
    exact h'.step hstep

/-! ### The first record -/

theorem step_chunk_all (s : Replicating) :
    Step o everyN s { s with log := ⟨s.log.file ++ s.log.writing, []⟩ } := by
  have hstep : Step o everyN s _ := .chunk s.log.writing.length
  rwa [LogFile.chunk, take_length, drop_length] at hstep

def connected (a : IdempotentApplier) (r : WalRecord) (c : Connection) : Replicating :=
  ⟨⟨logBytes [r], []⟩, [r], a, some c, []⟩

section FirstRecord

variable {a : IdempotentApplier} {r : WalRecord}

omit [Crc32] [PayloadJson AppliedSet] in
theorem sendable_subscribe (o : Uuid) (hlc : Hlc) : (Frame.subscribe ⟨o, hlc⟩).Sendable :=
  ⟨trivial, by simp [Frame.encodePayload, MAX_FRAME_PAYLOAD, o.size]⟩

omit [Crc32] [PayloadJson AppliedSet] in
theorem sendable_ack (o : Uuid) (hlc : Hlc) : (Frame.ack ⟨o, hlc⟩).Sendable :=
  ⟨trivial, by simp [Frame.encodePayload, MAX_FRAME_PAYLOAD, o.size]⟩

theorem run_connected (hresume : resumeHlcFor a.file o = .ok 0) (hseal : r.Sealed)
    (hpos : 0 < r.hlc) :
    Run o everyN (.start a) (connected a r
      ⟨.new ⟨WAL_HEADER_SIZE, []⟩, .new, [], (Frame.subscribe ⟨o, 0⟩).wire, []⟩) := by
  have hbytes : walHeader ++ r.toBytes = logBytes [r] := by simp [logBytes]
  have hcreate : Step o everyN (.start a) ⟨⟨walHeader, []⟩, [], a, none, []⟩ :=
    step_chunk_all (.start a)
  have happend : Step o everyN ⟨⟨walHeader, []⟩, [], a, none, []⟩
      ⟨⟨walHeader, r.toBytes⟩, [r], a, none, []⟩ :=
    .append rfl hseal fun _ => ⟨hpos, by simp⟩
  have hchunk : Step o everyN ⟨⟨walHeader, r.toBytes⟩, [r], a, none, []⟩
      ⟨⟨logBytes [r], []⟩, [r], a, none, []⟩ :=
    hbytes ▸ step_chunk_all ⟨⟨walHeader, r.toBytes⟩, [r], a, none, []⟩
  have hopened : WalTailer.openLog "wal.log" (logBytes [r]) = .ok ⟨WAL_HEADER_SIZE, []⟩ :=
    WalTailer.openLog_of_prefix prefix_rfl
  have hconnect : Step o everyN ⟨⟨logBytes [r], []⟩, [r], a, none, []⟩ (connected a r _) :=
    .connect rfl hopened hresume (encodeFrame_eq_ok_iff.mpr ⟨(sendable_subscribe o 0).size, rfl⟩)
  exact .step (.step (.step (.step (.nil _) hcreate) happend) hchunk) hconnect

theorem run_subscribed {l : LeaderTask} (hbuf : l.readBuf = []) (hnone : l.subscribed = none) :
    ∃ s, Step o everyN (connected a r ⟨l, .new, [], (Frame.subscribe ⟨o, 0⟩).wire, []⟩) s ∧
      Step o everyN s (connected a r ⟨{ l with subscribed := some ⟨o, 0⟩ }, .new, [], [], []⟩) := by
  obtain ⟨frame, hframe⟩ : ∃ frame, frame = Frame.subscribe ⟨o, 0⟩ := ⟨_, rfl⟩
  rw [← hframe]
  refine ⟨connected a r ⟨{ l with readBuf := frame.wire }, .new, [], [], []⟩, ?_, ?_⟩
  · have hstep : Step o everyN (connected a r ⟨l, .new, [], frame.wire, []⟩) _ :=
      .leaderReads frame.wire.length rfl
    simpa [connected, hbuf] using hstep
  · have hdecoded : decodeFrame frame.wire = .ok (some (frame, frame.wire.length)) := by
      have hwire := decodeFrame_wire (hframe ▸ sendable_subscribe o 0) []
      rwa [append_nil] at hwire
    have hstep : Step o everyN
        (connected a r ⟨{ l with readBuf := frame.wire }, .new, [], [], []⟩) _ :=
      .leaderFrame rfl hdecoded
    simp only [drop_length, hframe,
      LeaderTask.onFrame_subscribe (l := { l with readBuf := [] }) hnone] at hstep
    simpa [connected, hbuf, hframe] using hstep

theorem step_shipped {l : LeaderTask} (htailer : l.tailer = ⟨WAL_HEADER_SIZE, []⟩)
    (hsub : l.subscribed = some ⟨o, 0⟩) (horigin : r.originNodeId = o.asU128)
    (hfits : r.toBytes.length ≤ MAX_FRAME_PAYLOAD) (hseal : r.Sealed) (hpos : 0 < r.hlc) :
    Step o everyN (connected a r ⟨l, .new, [], [], []⟩) (connected a r
      ⟨{ l with tailer := ⟨(logBytes [r]).length, []⟩ }, .new, [], [],
        (Frame.walRecord r.toBytes).wire⟩) := by
  have hship : shouldShip (tailed r) o 0 = true := shouldShip_eq_true.mpr ⟨horigin, hpos.le⟩
  have hencode : encodeFrame (.walRecord r.toBytes) = .ok (Frame.walRecord r.toBytes).wire :=
    encodeFrame_eq_ok_iff.mpr ⟨hfits, rfl⟩
  have hpull : l.pull ⟨o, 0⟩ (logBytes [r]).length (logBytes [r]) false =
      some ({ l with tailer := ⟨(logBytes [r]).length, []⟩ },
        (Frame.walRecord r.toBytes).wire) := by
    simp only [LeaderTask.pull, htailer, pollOnce_single hseal, hship, if_true]
    simp only [LeaderTask.send, tailed, hencode]
  have hstep : Step o everyN (connected a r ⟨l, .new, [], [], []⟩) _ :=
    .leaderPulls false rfl hsub le_rfl
  rwa [show (connected a r ⟨l, .new, [], [], []⟩).log.file = logBytes [r] from rfl, hpull] at hstep

theorem run_delivered (hmark : a.set.highWater o.asU128 = 0)
    (horigin : r.originNodeId = o.asU128) (hfits : r.toBytes.length ≤ MAX_FRAME_PAYLOAD)
    (hresume : resumeHlcFor a.file o = .ok 0) (hseal : r.Sealed) (hpos : 0 < r.hlc) :
    ∃ s, Run o 1 (.start a) s ∧ s.applier.inner = a.inner ++ [(r.toBytes, true)] ∧
      s.acks = [r.hlc] := by
  obtain ⟨s, hread, hsubscribed⟩ := run_subscribed (l := .new ⟨WAL_HEADER_SIZE, []⟩) rfl rfl
  have hshipped : Run o 1 (.start a) _ :=
    .step (.step (.step (run_connected hresume hseal hpos) hread) hsubscribed)
      (step_shipped rfl rfl horigin hfits hseal hpos)
  let frame : Frame := .walRecord r.toBytes
  have hread (leader) : Step o 1 (connected a r ⟨leader, .new, [], [], frame.wire⟩)
      (connected a r ⟨leader, .new, frame.wire, [], []⟩) := by
    have hstep : Step o 1 (connected a r ⟨leader, .new, [], [], frame.wire⟩) _ :=
      .followerReads frame.wire.length rfl
    simpa [connected] using hstep
  have hdecoded : decodeFrame frame.wire = .ok (some (frame, frame.wire.length)) := by
    have hwire := decodeFrame_wire (show frame.Sendable from ⟨trivial, hfits⟩) []
    rwa [append_nil] at hwire
  have happly : ∃ a', a.apply ⟨r.toBytes, .ok (), .ok (), false⟩ = (.ok (), a') ∧
      a'.inner = a.inner ++ [(r.toBytes, true)] := by
    have hp : peekOriginHlc r.toBytes = some (o.asU128, r.hlc) := by
      rw [peekOriginHlc_toBytes, horigin]
    rcases IdempotentApplier.apply_cases (c := ⟨r.toBytes, .ok (), .ok (), false⟩) hp with
      ⟨hle, -⟩ | ⟨-, hfail, -⟩ | ⟨-, -, _ | ⟨⟨⟩⟩, hok, he⟩
    · exact absurd (hmark ▸ hle) hpos.not_ge
    · cases hfail
    · cases hok
    · exact ⟨_, he, rfl⟩
  obtain ⟨a', happly, hinner⟩ := happly
  have hframe : FollowerTask.new.onFrame 1 false a frame =
      (a', some (⟨r.hlc, 0⟩, some r.hlc)) := by
    simp only [frame, FollowerTask.onFrame, happly]
    have hpeek : (peekRecordHlc r.toBytes).getD 0 = r.hlc := by
      rw [peekRecordHlc_eq, peekOriginHlc_toBytes]
      rfl
    simp [FollowerTask.applied, FollowerTask.new, hpeek, hpos]
  refine ⟨_, .step (.step hshipped (hread _)) (.followerFrame false rfl hdecoded hframe
    (encodeFrame_eq_ok_iff.mpr ⟨(sendable_ack o r.hlc).size, rfl⟩)), hinner, rfl⟩

end FirstRecord

/-- A reading the follower has sent in an acknowledgement, or that the leader has
noted from one. -/
def Acknowledged (s : Replicating) (hlc : Hlc) : Prop :=
  hlc ∈ s.acks ∨ 0 < hlc ∧ ∃ c, s.connection = some c ∧ c.leader.peerHighWater = hlc

theorem Inv.acknowledged (h : Inv o s held) (hack : s.Acknowledged hlc) :
    ∃ r ∈ held, r.hlc = hlc := by
  rcases hack with hsent | ⟨hpos, c, hc, rfl⟩
  · exact h.acks hlc hsent
  · obtain ⟨polled, start, received, carried, up, down, hcar⟩ := h.connection c hc
    exact hcar.peer.resolve_left hpos.ne'

/-- **What reaches the applier is a prefix of the leader's records of the node, in their order and
each once, however often the follower reconnects or starts anew.  What is acknowledged is the
reading of a record in this prefix.** -/
theorem replication_exactly_once {file : Option (List UInt8)} {a : IdempotentApplier}
    (hnew : IdempotentApplier.new file [] = .ok a) (hfresh : a.set.highWater o.asU128 = 0)
    (hrun : Run o everyN (Replicating.start a) s) :
    s.applier.inner.map Prod.fst <+: (ofNode o s.records).map WalRecord.toBytes ∧
    (∀ call ∈ s.applier.inner, call.2 = true) ∧
    (ofNode o s.records).Pairwise (fun r r' => r.hlc < r'.hlc) ∧
    ∀ hlc, s.Acknowledged hlc → ∃ k < s.applier.inner.length, ∃ r,
      (ofNode o s.records)[k]? = some r ∧ r.hlc = hlc := by
  obtain ⟨held, h⟩ := (inv_start hnew hfresh).run hrun
  have hprefix := h.cut.isPrefix
  refine ⟨?_, ?_, h.ascending, ?_⟩
  · rw [h.inner, map_map]
    exact hprefix.map toBytes
  · intro call hcall
    rw [h.inner] at hcall
    obtain ⟨r, -, rfl⟩ := mem_map.mp hcall
    rfl
  · intro hlc hack
    obtain ⟨r, hr, heq⟩ := h.acknowledged hack
    obtain ⟨k, hk, rfl⟩ := mem_iff_getElem.mp hr
    refine ⟨k, by simpa [h.inner] using hk, held[k], ?_, heq⟩
    obtain ⟨rest, hrest⟩ := hprefix
    rw [← hrest, getElem?_append_left hk, getElem?_eq_getElem hk]

theorem run_firstCommit (o : Uuid) :
    ∃ s, Run o 1 (Replicating.start Follower.fresh) s ∧ s.applier.inner.length = 1 := by
  let w : WalWriter := ⟨1, o.asU128⟩
  have hfits : (Tailing.firstCommit w).toBytes.length ≤ MAX_FRAME_PAYLOAD := by
    simp [encodedV2Len, Tailing.firstCommit, WalWriter.logCommit, commit,
      finish, WAL_RECORD_HEADER_SIZE_V2, VectorClock.encodedLen, VCLOCK_ENTRY_SIZE,
      MAX_FRAME_PAYLOAD]
  have hone : (0 : Hlc) < (Tailing.firstCommit w).hlc := by
    show (0 : UInt64) < 1
    decide
  obtain ⟨s, hrun, hinner, -⟩ := run_delivered (a := Follower.fresh) rfl rfl hfits rfl
    (Tailing.sealed_firstCommit w) hone
  exact ⟨s, hrun, by simp [hinner, Follower.fresh]⟩

omit [Crc32] [PayloadJson AppliedSet] in
theorem replication_first_record : ∃ (_ : Crc32) (_ : PayloadJson AppliedSet) (s : Replicating),
    IdempotentApplier.new none [] = .ok Follower.fresh ∧
    Run ⟨List.replicate 16 1, by decide⟩ 1 (Replicating.start Follower.fresh) s ∧
    s.applier.inner.length = 1 ∧
    s.applier.inner.map Prod.fst <+:
      (ofNode ⟨List.replicate 16 1, by decide⟩ s.records).map WalRecord.toBytes := by
  obtain ⟨json⟩ := AppliedSet.nonempty_payloadJson
  let crc : Crc32 := ⟨fun _ => 0⟩
  obtain ⟨s, hrun, hinner⟩ := run_firstCommit ⟨replicate 16 1, by decide⟩
  have hnew : IdempotentApplier.new none [] = .ok Follower.fresh := rfl
  exact ⟨crc, json, s, hnew, hrun, hinner, (replication_exactly_once hnew rfl hrun).1⟩

end Replicating

end Replication

end GrumpyDB
