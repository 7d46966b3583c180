/-
The caps on concurrently open connections.

Tasks interleave between any two accesses to a counter, so an acquisition and a release are cut
into one step for each access (`Phase`). The acquisition of an exempt loopback peer returns
before the counters are touched, but its release gives a slot back all the same, so the counters
drift.
-/
import GrumpyDB.Lib.Table
import Mathlib.Data.UInt

namespace GrumpyDB

open List UInt64

inductive IpAddr where
  | v4 (a b c d : UInt8)
  | v6 (addr : BitVec 128)
  deriving DecidableEq

def IpAddr.isLoopback : IpAddr → Bool
  | v4 a _ _ _ => a = 127
  | v6 addr => addr = 1

structure LimitsConfig where
  maxConnsPerIp : UInt64
  maxConnsGlobal : UInt64
  bypassLoopback : Bool

inductive AcquireConnError where
  | global
  | perIp
  deriving DecidableEq

structure Limits where
  connCountsPerIp : Table IpAddr UInt64
  globalConns : UInt64

namespace Limits

def new : Limits := ⟨Table.empty, 0⟩

def connCount (l : Limits) (addr : IpAddr) : UInt64 := (l.connCountsPerIp.get? addr).getD 0

end Limits

def LimitsConfig.isLoopbackBypass (cfg : LimitsConfig) (addr : IpAddr) : Bool :=
  cfg.bypassLoopback && addr.isLoopback

/-- Where the task of a connection stands. -/
inductive Phase where
  | acquireLoad
  /-- Acquiring: about to swap the global counter, loaded as `current`. -/
  | acquireSwap (current : UInt64)
  | acquireIp
  /-- Acquiring: about to give the global slot back, the address having none. -/
  | rollBack
  | refused (reason : AcquireConnError)
  | opened
  | releaseIp
  | releaseLoad
  /-- Releasing: about to swap the global counter, last seen as `current`. -/
  | releaseSwap (current : UInt64)
  | closed
  deriving DecidableEq

structure Conn where
  addr : IpAddr
  phase : Phase

/-- The counters and the tasks of all connections so far. -/
structure Listener where
  limits : Limits
  conns : List Conn

inductive ConnEvent where
  | accept (addr : IpAddr)
  /-- Task `i` makes its next access; a weak swap may fail for no reason. -/
  | advance (i : Nat) (spurious : Bool)
  /-- The open connection of task `i` ends. -/
  | hangUp (i : Nat)

namespace Limits

def reserveIp (cfg : LimitsConfig) (addr : IpAddr) (l : Limits) : Limits × Phase :=
  let entry := l.connCount addr
  if entry ≥ cfg.maxConnsPerIp then
    ({ l with connCountsPerIp := l.connCountsPerIp.insert addr entry }, .rollBack)
  else ({ l with connCountsPerIp := l.connCountsPerIp.insert addr (entry + 1) }, .opened)

/-- Give back a slot of an address; an entry that drops to zero is removed. -/
def returnIp (addr : IpAddr) (l : Limits) : Limits :=
  match l.connCountsPerIp.get? addr with
  | none => l
  | some c =>
    let c := if c > 0 then c - 1 else c
    if c = 0 then { l with connCountsPerIp := l.connCountsPerIp.erase addr }
    else { l with connCountsPerIp := l.connCountsPerIp.insert addr c }

def access (cfg : LimitsConfig) (spurious : Bool) (conn : Conn) (l : Limits) : Limits × Phase :=
  match conn.phase with
  | .acquireLoad =>
    if l.globalConns ≥ cfg.maxConnsGlobal then (l, .refused .global)
    else (l, .acquireSwap l.globalConns)
  | .acquireSwap current =>
    if l.globalConns = current then ({ l with globalConns := current + 1 }, .acquireIp)
    else (l, .acquireLoad)
  | .acquireIp => l.reserveIp cfg conn.addr
  | .rollBack => ({ l with globalConns := l.globalConns - 1 }, .refused .perIp)
  | .releaseIp => (l.returnIp conn.addr, .releaseLoad)
  | .releaseLoad => (l, .releaseSwap l.globalConns)
  | .releaseSwap current =>
    if current = 0 then (l, .closed)
    else if l.globalConns = current ∧ spurious = false then
      ({ l with globalConns := current - 1 }, .closed)
    else (l, .releaseSwap l.globalConns)
  | .refused reason => (l, .refused reason)
  | .opened => (l, .opened)
  | .closed => (l, .closed)

end Limits

namespace Listener

def new : Listener := ⟨Limits.new, []⟩

def arrival (cfg : LimitsConfig) (addr : IpAddr) : Conn :=
  ⟨addr, if cfg.isLoopbackBypass addr then .opened else .acquireLoad⟩

def step (cfg : LimitsConfig) (s : Listener) : ConnEvent → Listener
  | .accept addr => { s with conns := s.conns ++ [arrival cfg addr] }
  | .advance i spurious =>
    match s.conns[i]? with
    | none => s
    | some conn =>
      let (limits, phase) := s.limits.access cfg spurious conn
      ⟨limits, s.conns.set i { conn with phase }⟩
  | .hangUp i =>
    match s.conns[i]? with
    | some ⟨addr, .opened⟩ => { s with conns := s.conns.set i ⟨addr, .releaseIp⟩ }
    | _ => s

def run (cfg : LimitsConfig) (events : List ConnEvent) (s : Listener) : Listener :=
  events.foldl (step cfg) s

/-! ### What the counters should say -/

end Listener

def Phase.busy : Phase → Bool
  | refused _ | opened | closed => false
  | _ => true

def Conn.counts (cfg : LimitsConfig) (conn : Conn) : Bool :=
  conn.phase = .opened && !cfg.isLoopbackBypass conn.addr

namespace Listener

def Quiet (s : Listener) : Prop := ∀ conn ∈ s.conns, conn.phase.busy = false

instance decidableQuiet (s : Listener) : Decidable s.Quiet :=
  inferInstanceAs (Decidable (∀ conn ∈ s.conns, conn.phase.busy = false))

def openConns (cfg : LimitsConfig) (s : Listener) : Nat := s.conns.countP (Conn.counts cfg)

def openConnsOf (cfg : LimitsConfig) (s : Listener) (addr : IpAddr) : Nat :=
  s.conns.countP fun conn => conn.counts cfg && conn.addr = addr

/-- The counters are exact whenever no call is in progress, and the caps are kept. -/
structure CapsExact (cfg : LimitsConfig) (s : Listener) : Prop where
  global : s.Quiet → s.limits.globalConns.toNat = s.openConns cfg
  perIp : s.Quiet → ∀ addr, (s.limits.connCount addr).toNat = s.openConnsOf cfg addr
  capGlobal : s.openConns cfg ≤ cfg.maxConnsGlobal.toNat
  capPerIp : ∀ addr, s.openConnsOf cfg addr ≤ cfg.maxConnsPerIp.toNat

/-! ### Without exempt connections -/

end Listener

def Phase.holdsGlobal : Phase → Bool
  | acquireIp | rollBack | opened | releaseIp | releaseLoad | releaseSwap _ => true
  | _ => false

def Phase.holdsIp : Phase → Bool
  | opened | releaseIp => true
  | _ => false

/-- What a swap is about to rely on: an acquisition found room, a release found
something to give back. -/
def Phase.Sound (cfg : LimitsConfig) : Phase → Prop
  | acquireSwap current => current < cfg.maxConnsGlobal
  | releaseSwap current => current ≠ 0
  | _ => True

def Conn.holdsIpOf (addr : IpAddr) (conn : Conn) : Bool := conn.phase.holdsIp && conn.addr = addr

theorem countP_set_add {α : Type} {p : α → Bool} {l : List α} {i : Nat} {a b : α}
    (h : l[i]? = some a) :
    (l.set i b).countP p + (if p a then 1 else 0) = l.countP p + if p b then 1 else 0 := by
  obtain ⟨hi, rfl⟩ := List.getElem?_eq_some_iff.mp h
  have hle : (if p l[i] then 1 else 0) ≤ l.countP p := by
    split
    · rename_i hp
      exact countP_pos_iff.mpr ⟨_, getElem_mem hi, hp⟩
    · exact Nat.zero_le _
  rw [countP_set hi]
  omega

namespace Listener

/-- Every slot that is counted is held by a task, and the caps are kept. -/
structure Counted (cfg : LimitsConfig) (s : Listener) : Prop where
  fair : ∀ conn ∈ s.conns, cfg.isLoopbackBypass conn.addr = false
  sound : ∀ conn ∈ s.conns, conn.phase.Sound cfg
  global : s.limits.globalConns.toNat = s.conns.countP fun conn => conn.phase.holdsGlobal
  perIp : ∀ addr, (s.limits.connCount addr).toNat = s.conns.countP (Conn.holdsIpOf addr)
  capGlobal : s.limits.globalConns ≤ cfg.maxConnsGlobal
  capPerIp : ∀ addr, s.limits.connCount addr ≤ cfg.maxConnsPerIp

variable {cfg : LimitsConfig} {s : Listener} {conn : Conn} {i : Nat}

theorem counted_new : Counted cfg new where
  fair := by simp [new]
  sound := by simp [new]
  global := rfl
  perIp := fun _ => rfl
  capGlobal := UInt64.le_iff_toNat_le.mpr (Nat.zero_le _)
  capPerIp := fun _ => UInt64.le_iff_toNat_le.mpr (Nat.zero_le _)

theorem Counted.global_ne_zero (h : Counted cfg s) (hc : conn ∈ s.conns)
    (hh : conn.phase.holdsGlobal = true) : s.limits.globalConns ≠ 0 := by
  intro h0
  have hpos := countP_pos_iff (p := fun conn : Conn => conn.phase.holdsGlobal).mpr
    ⟨conn, hc, hh⟩
  rw [← h.global, h0] at hpos
  exact absurd hpos (lt_irrefl 0)

/-- What an access has to balance: the counters move with the slots the task holds. -/
structure Balanced (cfg : LimitsConfig) (l : Limits) (conn : Conn) (l' : Limits) (phase : Phase) :
    Prop where
  sound : phase.Sound cfg
  global : l'.globalConns.toNat + (if conn.phase.holdsGlobal then 1 else 0) =
    l.globalConns.toNat + if phase.holdsGlobal then 1 else 0
  perIp : (l'.connCount conn.addr).toNat + (if conn.phase.holdsIp then 1 else 0) =
    (l.connCount conn.addr).toNat + if phase.holdsIp then 1 else 0
  others : ∀ addr, addr ≠ conn.addr → l'.connCount addr = l.connCount addr
  capGlobal : l'.globalConns ≤ cfg.maxConnsGlobal
  capPerIp : l'.connCount conn.addr ≤ cfg.maxConnsPerIp

theorem Counted.set (h : Counted cfg s) (hi : s.conns[i]? = some conn) {l' : Limits} {phase : Phase}
    (hb : Balanced cfg s.limits conn l' phase) :
    Counted cfg ⟨l', s.conns.set i { conn with phase }⟩ := by
  have hmem : conn ∈ s.conns := mem_of_getElem? hi
  refine ⟨?_, ?_, ?_, ?_, hb.capGlobal, ?_⟩
  · intro c hc
    rcases mem_or_eq_of_mem_set hc with hc | rfl
    · exact h.fair c hc
    · exact h.fair conn hmem
  · intro c hc
    rcases mem_or_eq_of_mem_set hc with hc | rfl
    · exact h.sound c hc
    · exact hb.sound
  · have hcount := countP_set_add (p := fun conn => conn.phase.holdsGlobal)
      (b := { conn with phase }) hi
    have hglobal := hb.global
    have hold := h.global
    simp only at hcount ⊢
    omega
  · intro addr
    have hcount := countP_set_add (p := Conn.holdsIpOf addr) (b := { conn with phase }) hi
    have hold := h.perIp addr
    show (l'.connCount addr).toNat = _
    by_cases ha : conn.addr = addr
    · have hip := hb.perIp
      rw [ha] at hip
      simp only [Conn.holdsIpOf, ha, decide_true, Bool.and_true] at hcount hold ⊢
      omega
    · rw [hb.others addr (Ne.symm ha)]
      simp only [Conn.holdsIpOf, ha, decide_false, Bool.and_false]
        at hcount hold ⊢
      omega
  · intro addr
    by_cases ha : addr = conn.addr
    · rw [ha]
      exact hb.capPerIp
    · show l'.connCount addr ≤ _
      rw [hb.others addr ha]
      exact h.capPerIp addr

/-! ### The accesses are balanced -/

end Listener

namespace Limits

variable {l : Limits} {addr addr' : IpAddr} {c : UInt64}

theorem connCount_insert_self {g : UInt64} :
    (Limits.mk (l.connCountsPerIp.insert addr c) g).connCount addr = c := by
  simp [connCount]

theorem connCount_insert_of_ne (h : addr' ≠ addr) {g : UInt64} :
    (Limits.mk (l.connCountsPerIp.insert addr c) g).connCount addr' = l.connCount addr' := by
  simp [connCount, Table.get?_insert_ne h]

theorem connCount_returnIp (h : l.connCount addr ≠ 0) :
    (l.returnIp addr).connCount addr = l.connCount addr - 1 := by
  unfold returnIp
  rcases hget : l.connCountsPerIp.get? addr with _ | c
  · simp [connCount, hget] at h
  · have hc : l.connCount addr = c := by simp [connCount, hget]
    rw [hc] at h ⊢
    have hpos : c > 0 := UInt64.pos_iff_ne_zero.mpr h
    simp only [if_pos hpos]
    split
    · rename_i h0
      rw [h0]
      simp [connCount]
    · exact connCount_insert_self

theorem connCount_returnIp_of_ne (h : addr' ≠ addr) :
    (l.returnIp addr).connCount addr' = l.connCount addr' := by
  unfold returnIp
  split
  · rfl
  · rename_i c _
    rcases (if c > 0 then c - 1 else c).decEq 0 with h0 | h0
    · simp only [if_neg h0]
      exact connCount_insert_of_ne h
    · simp [if_pos h0, connCount, Table.get?_erase_ne h]

theorem globalConns_returnIp : (l.returnIp addr).globalConns = l.globalConns := by
  unfold returnIp
  split
  · rfl
  · dsimp only
    split <;> split <;> rfl

end Limits

namespace Listener

variable {cfg : LimitsConfig} {s : Listener} {conn : Conn} {i : Nat}

theorem toNat_succ {a b : UInt64} (h : a < b) : (a + 1).toNat = a.toNat + 1 := by
  have := UInt64.lt_iff_toNat_lt.mp h
  have := b.toNat_lt
  rw [UInt64.toNat_add]
  simp only [toNat_one]
  omega

theorem toNat_pred {a : UInt64} (h : a ≠ 0) : (a - 1).toNat + 1 = a.toNat := by
  have hpos : 0 < a.toNat := UInt64.lt_iff_toNat_lt.mp (UInt64.pos_iff_ne_zero.mpr h)
  have hle : 1 ≤ a := UInt64.le_iff_toNat_le.mpr hpos
  rw [UInt64.toNat_sub_of_le _ _ hle]
  simp only [toNat_one]
  omega

/-- **Accesses keep the books**: a counter moves exactly when the task takes or
gives up a slot. -/
theorem Counted.access (h : Counted cfg s) (hi : s.conns[i]? = some conn) (spurious : Bool) :
    Balanced cfg s.limits conn (s.limits.access cfg spurious conn).1
      (s.limits.access cfg spurious conn).2 := by
  obtain ⟨addr, phase⟩ := conn
  have hmem := mem_of_getElem? hi
  have hip := h.capPerIp addr
  have hsound := h.sound _ hmem
  cases phase with
  | acquireLoad =>
    simp only [Limits.access]
    split
    · exact ⟨trivial, rfl, rfl, fun _ _ => rfl, h.capGlobal, hip⟩
    · rename_i hroom
      exact ⟨UInt64.not_le.mp hroom, rfl, rfl, fun _ _ => rfl, h.capGlobal, hip⟩
  | acquireSwap current =>
    simp only [Limits.access]
    split
    · rename_i heq
      have hlt : current < cfg.maxConnsGlobal := hsound
      refine ⟨trivial, ?_, rfl, fun _ _ => rfl, ?_, hip⟩
      · simp only [Phase.holdsGlobal, Bool.false_eq_true, if_false, if_true, heq]
        rw [toNat_succ hlt]
      · show current + 1 ≤ _
        rw [le_iff_toNat_le, toNat_succ hlt]
        exact lt_iff_toNat_lt.mp hlt
    · exact ⟨trivial, rfl, rfl, fun _ _ => rfl, h.capGlobal, hip⟩
  | acquireIp =>
    simp only [Limits.access, Limits.reserveIp]
    split
    · refine ⟨trivial, rfl, ?_, fun a ha => ?_, h.capGlobal, ?_⟩
      · rw [Limits.connCount_insert_self]
        rfl
      · exact Limits.connCount_insert_of_ne ha
      · rw [Limits.connCount_insert_self]
        exact hip
    · rename_i hroom
      have hlt : s.limits.connCount addr < cfg.maxConnsPerIp := UInt64.not_le.mp hroom
      refine ⟨trivial, rfl, ?_, fun a ha => ?_, h.capGlobal, ?_⟩
      · rw [Limits.connCount_insert_self, toNat_succ hlt]
        rfl
      · exact Limits.connCount_insert_of_ne ha
      · rw [Limits.connCount_insert_self, le_iff_toNat_le, toNat_succ hlt]
        exact lt_iff_toNat_lt.mp hlt
  | rollBack =>
    have h0 : s.limits.globalConns ≠ 0 := h.global_ne_zero hmem rfl
    refine ⟨trivial, toNat_pred h0, rfl, fun _ _ => rfl, ?_, hip⟩
    show s.limits.globalConns - 1 ≤ _
    have hcap := le_iff_toNat_le.mp h.capGlobal
    have hpred := toNat_pred h0
    rw [le_iff_toNat_le]
    omega
  | releaseIp =>
    -- The slot the task holds is in the count of its address.
    have h0 : s.limits.connCount addr ≠ 0 := by
      intro h0
      have hpos := countP_pos_iff (p := Conn.holdsIpOf addr).mpr
        ⟨_, hmem, by simp [Conn.holdsIpOf, Phase.holdsIp]⟩
      rw [← h.perIp addr, h0] at hpos
      exact absurd hpos (lt_irrefl 0)
    refine ⟨trivial, ?_, ?_, fun a ha => Limits.connCount_returnIp_of_ne ha, ?_, ?_⟩
    · show (s.limits.returnIp addr).globalConns.toNat + _ = _
      rw [Limits.globalConns_returnIp]
      rfl
    · show ((s.limits.returnIp addr).connCount addr).toNat + 1 = _
      rw [Limits.connCount_returnIp h0]
      exact toNat_pred h0
    · show (s.limits.returnIp addr).globalConns ≤ _
      rw [Limits.globalConns_returnIp]
      exact h.capGlobal
    · show (s.limits.returnIp addr).connCount addr ≤ _
      have hcap := le_iff_toNat_le.mp hip
      have hpred := toNat_pred h0
      rw [Limits.connCount_returnIp h0, le_iff_toNat_le]
      omega
  | releaseLoad =>
    exact ⟨h.global_ne_zero hmem rfl, rfl, rfl, fun _ _ => rfl, h.capGlobal, hip⟩
  | releaseSwap current =>
    have h0 : current ≠ 0 := hsound
    simp only [Limits.access, if_neg h0]
    split
    · rename_i heq
      refine ⟨trivial, ?_, rfl, fun _ _ => rfl, ?_, hip⟩
      · rw [heq.1]
        exact toNat_pred h0
      · show current - 1 ≤ _
        have hcap := le_iff_toNat_le.mp h.capGlobal
        have hpred := toNat_pred h0
        rw [heq.1] at hcap
        rw [le_iff_toNat_le]
        omega
    · exact ⟨h.global_ne_zero hmem rfl, rfl, rfl, fun _ _ => rfl, h.capGlobal, hip⟩
  | refused reason => exact ⟨trivial, rfl, rfl, fun _ _ => rfl, h.capGlobal, hip⟩
  | opened => exact ⟨trivial, rfl, rfl, fun _ _ => rfl, h.capGlobal, hip⟩
  | closed => exact ⟨trivial, rfl, rfl, fun _ _ => rfl, h.capGlobal, hip⟩

/-- Every event keeps the books, as long as no exempt connection comes in. -/
theorem Counted.step (h : Counted cfg s) {e : ConnEvent}
    (he : ∀ addr, e = .accept addr → cfg.isLoopbackBypass addr = false) :
    Counted cfg (step cfg s e) := by
  cases e with
  | accept addr =>
    have hfair := he addr rfl
    have harr : arrival cfg addr = ⟨addr, .acquireLoad⟩ := by simp [arrival, hfair]
    refine ⟨?_, ?_, ?_, fun a => ?_, h.capGlobal, h.capPerIp⟩
    · intro c hc
      rcases mem_append.mp hc with hc | hc
      · exact h.fair c hc
      · rw [mem_singleton.mp hc]
        exact hfair
    · intro c hc
      rcases mem_append.mp hc with hc | hc
      · exact h.sound c hc
      · rw [mem_singleton.mp hc, harr]
        trivial
    · show s.limits.globalConns.toNat = _
      rw [h.global]
      simp [Listener.step, harr, Phase.holdsGlobal]
    · show (s.limits.connCount a).toNat = _
      rw [h.perIp a]
      simp [Listener.step, harr, Conn.holdsIpOf, Phase.holdsIp]
  | advance i spurious =>
    simp only [Listener.step]
    split
    · exact h
    · rename_i conn hi
      exact h.set hi (h.access hi spurious)
  | hangUp i =>
    simp only [Listener.step]
    split
    · -- Hanging up moves no slot yet.
      rename_i addr hi
      exact h.set hi ⟨trivial, rfl, rfl, fun _ _ => rfl, h.capGlobal, h.capPerIp addr⟩
    · exact h

theorem Counted.run (h : Counted cfg s) {events : List ConnEvent}
    (he : ∀ addr, .accept addr ∈ events → cfg.isLoopbackBypass addr = false) :
    Counted cfg (run cfg events s) := by
  induction events generalizing s with
  | nil => exact h
  | cons e events ih =>
    refine ih (h.step fun addr ha => he addr ?_) fun addr ha => he addr (by simp [ha])
    simp [ha]

theorem Counted.capsExact (h : Counted cfg s) : CapsExact cfg s := by
  have hcounts : ∀ conn ∈ s.conns, conn.counts cfg = decide (conn.phase = .opened) := by
    intro conn hc
    simp [Conn.counts, h.fair conn hc]
  have hquiet : s.Quiet → ∀ conn ∈ s.conns,
      conn.phase.holdsGlobal = decide (conn.phase = .opened) ∧
        conn.phase.holdsIp = decide (conn.phase = .opened) := by
    intro hq conn hc
    have hb := hq conn hc
    rcases hp : conn.phase <;> simp_all [Phase.busy, Phase.holdsGlobal, Phase.holdsIp]
  refine ⟨fun hq => ?_, fun hq addr => ?_, ?_, fun addr => ?_⟩
  · rw [h.global]
    refine countP_congr fun conn hc => ?_
    rw [hcounts conn hc, (hquiet hq conn hc).1]
  · rw [h.perIp]
    refine countP_congr fun conn hc => ?_
    rw [Conn.holdsIpOf, hcounts conn hc, (hquiet hq conn hc).2]
  · refine le_trans ?_ (le_iff_toNat_le.mp h.capGlobal)
    rw [h.global]
    refine countP_mono_left fun conn hc hopen => ?_
    rw [hcounts conn hc, decide_eq_true_eq] at hopen
    rw [hopen]
    rfl
  · refine le_trans ?_ (le_iff_toNat_le.mp (h.capPerIp addr))
    rw [h.perIp]
    refine countP_mono_left fun conn hc hopen => ?_
    rw [hcounts conn hc, Bool.and_eq_true, decide_eq_true_eq] at hopen
    simp [Conn.holdsIpOf, hopen.1, hopen.2, Phase.holdsIp]

/-! ### Without counted connections -/

end Listener

/-- Where the task of an exempt connection can stand while nothing is counted. -/
def Phase.Exempt : Phase → Prop
  | opened | releaseIp | releaseLoad | closed => True
  | releaseSwap current => current = 0
  | _ => False

/-- Where a task can stand that never gets a slot. -/
def Phase.Slotless : Phase → Prop
  | acquireLoad | refused _ => True
  | _ => False

namespace Listener

variable {cfg : LimitsConfig} {s : Listener}

/-- Nothing is counted: connections are exempt or never get a slot. -/
structure Unused (cfg : LimitsConfig) (s : Listener) : Prop where
  limits : s.limits = Limits.new
  exempt : ∀ conn ∈ s.conns, cfg.isLoopbackBypass conn.addr = true → conn.phase.Exempt
  others : ∀ conn ∈ s.conns, cfg.isLoopbackBypass conn.addr = false →
    conn.phase.Slotless ∧ cfg.maxConnsGlobal = 0

theorem unused_new : Unused cfg new := ⟨rfl, by simp [new], by simp [new]⟩

theorem Unused.set (h : Unused cfg s) {conn : Conn} {i : Nat} (hi : s.conns[i]? = some conn)
    {phase : Phase} (he : cfg.isLoopbackBypass conn.addr = true → phase.Exempt)
    (ho : cfg.isLoopbackBypass conn.addr = false → phase.Slotless) :
    Unused cfg ⟨Limits.new, s.conns.set i { conn with phase }⟩ := by
  have hmem : conn ∈ s.conns := mem_of_getElem? hi
  refine ⟨rfl, fun c hc hb => ?_, fun c hc hb => ?_⟩
  · rcases mem_or_eq_of_mem_set hc with hc | rfl
    · exact h.exempt c hc hb
    · exact he hb
  · rcases mem_or_eq_of_mem_set hc with hc | rfl
    · exact h.others c hc hb
    · exact ⟨ho hb, (h.others conn hmem hb).2⟩

theorem Unused.step (h : Unused cfg s) {e : ConnEvent}
    (he : cfg.maxConnsGlobal = 0 ∨ ∀ addr, e = .accept addr → cfg.isLoopbackBypass addr = true) :
    Unused cfg (step cfg s e) := by
  cases e with
  | accept addr =>
    refine ⟨h.limits, fun c hc hb => ?_, fun c hc hb => ?_⟩
    · rcases mem_append.mp hc with hc | hc
      · exact h.exempt c hc hb
      · rw [mem_singleton.mp hc] at hb ⊢
        change cfg.isLoopbackBypass addr = true at hb
        rw [arrival, if_pos hb]
        trivial
    · rcases mem_append.mp hc with hc | hc
      · exact h.others c hc hb
      · rw [mem_singleton.mp hc] at hb ⊢
        change cfg.isLoopbackBypass addr = false at hb
        rcases he with he | he
        · rw [arrival, if_neg (by rw [hb]; decide)]
          exact ⟨trivial, he⟩
        · rw [he addr rfl] at hb
          cases hb
  | advance i spurious =>
    simp only [Listener.step, h.limits]
    split
    · exact h
    · rename_i conn hi
      have hmem := mem_of_getElem? hi
      have hlimits : (Limits.new.access cfg spurious conn).1 = Limits.new ∧
          (cfg.isLoopbackBypass conn.addr = true →
            (Limits.new.access cfg spurious conn).2.Exempt) ∧
          (cfg.isLoopbackBypass conn.addr = false →
            (Limits.new.access cfg spurious conn).2.Slotless) := by
        rcases hb : cfg.isLoopbackBypass conn.addr with _ | _
        · obtain ⟨hs, h0⟩ := h.others conn hmem hb
          rcases hp : conn.phase <;> rw [hp] at hs <;>
            simp [Phase.Slotless] at hs <;> simp [Limits.access, hp, h0, Phase.Slotless]
        · have hx := h.exempt conn hmem hb
          rcases hp : conn.phase <;> rw [hp] at hx <;> simp [Phase.Exempt] at hx <;>
            simp [Limits.access, Limits.returnIp, Limits.new, hp, hx, Phase.Exempt]
      obtain ⟨hl, hx, ho⟩ := hlimits
      rw [hl]
      exact h.set hi hx ho
  | hangUp i =>
    simp only [Listener.step]
    split
    · rename_i addr hi
      rw [h.limits]
      refine h.set hi (fun _ => trivial) fun hb => ?_
      exact absurd (h.others _ (mem_of_getElem? hi) hb).1 id
    · exact h

theorem Unused.run (h : Unused cfg s) {events : List ConnEvent}
    (he : cfg.maxConnsGlobal = 0 ∨
      ∀ addr, .accept addr ∈ events → cfg.isLoopbackBypass addr = true) :
    Unused cfg (run cfg events s) := by
  induction events generalizing s with
  | nil => exact h
  | cons e events ih =>
    refine ih (h.step ?_) ?_
    · exact he.imp_right fun he addr ha => he addr (by simp [ha])
    · exact he.imp_right fun he addr ha => he addr (by simp [ha])

theorem Unused.capsExact (h : Unused cfg s) : CapsExact cfg s := by
  have hnone : ∀ conn ∈ s.conns, conn.counts cfg = false := by
    intro conn hc
    rcases hb : cfg.isLoopbackBypass conn.addr with _ | _
    · have hs := (h.others conn hc hb).1
      rcases hp : conn.phase <;> rw [hp] at hs <;> simp [Phase.Slotless] at hs <;>
        simp [Conn.counts, hp]
    · simp [Conn.counts, hb]
  have hopen : s.openConns cfg = 0 := countP_eq_zero.mpr fun conn hc => by simp [hnone conn hc]
  have hopenOf : ∀ addr, s.openConnsOf cfg addr = 0 := fun addr =>
    countP_eq_zero.mpr fun conn hc => by simp [hnone conn hc]
  refine ⟨fun _ => ?_, fun _ addr => ?_, ?_, fun addr => ?_⟩
  · rw [hopen, h.limits]
    rfl
  · rw [hopenOf, h.limits]
    rfl
  · rw [hopen]
    exact Nat.zero_le _
  · rw [hopenOf]
    exact Nat.zero_le _

/-! ### With both kinds -/

/-- A counted connection acquires its slots, and an exempt one ends meanwhile. -/
def drift (a b : IpAddr) : List ConnEvent :=
  [.accept a, .advance 0 false, .advance 0 false,
    .accept b, .hangUp 1, .advance 1 false, .advance 1 false, .advance 1 false,
    .advance 0 false, .advance 0 false]

theorem run_drift {a b : IpAddr} (ha : cfg.isLoopbackBypass a = false)
    (hb : cfg.isLoopbackBypass b = true) (hg : cfg.maxConnsGlobal ≠ 0) :
    ∃ s, run cfg (drift a b) new = s ∧
      ((cfg.maxConnsPerIp ≠ 0 ∧ s.conns = [⟨a, .opened⟩, ⟨b, .closed⟩] ∧ s.limits.globalConns = 0) ∨
        (cfg.maxConnsPerIp = 0 ∧ s.conns = [⟨a, .refused .perIp⟩, ⟨b, .closed⟩] ∧
          s.limits.globalConns = 0 - 1)) := by
  have hroom : ¬ cfg.maxConnsGlobal ≤ 0 := by
    rw [UInt64.not_le]
    exact UInt64.pos_iff_ne_zero.mpr hg
  by_cases hip : cfg.maxConnsPerIp = 0
  · refine ⟨_, rfl, .inr ⟨hip, ?_, ?_⟩⟩ <;>
      simp [run, drift, step, new, arrival, Limits.new, Limits.access, Limits.reserveIp,
        Limits.returnIp, ha, hb, hroom, hip]
  · have hipRoom : ¬ cfg.maxConnsPerIp ≤ 0 := by
      rw [UInt64.not_le]
      exact UInt64.pos_iff_ne_zero.mpr hip
    refine ⟨_, rfl, .inl ⟨hip, ?_, ?_⟩⟩ <;>
      simp [run, drift, step, new, arrival, Limits.new, Limits.access, Limits.reserveIp,
        Limits.returnIp, Limits.connCount, ha, hb, hroom, hipRoom]

theorem not_capsExact_drift {a b : IpAddr} (ha : cfg.isLoopbackBypass a = false)
    (hb : cfg.isLoopbackBypass b = true) (hg : cfg.maxConnsGlobal ≠ 0) :
    ¬ CapsExact cfg (run cfg (drift a b) new) := by
  obtain ⟨s, hs, hcase⟩ := run_drift ha hb hg
  rw [hs]
  intro h
  rcases hcase with ⟨-, hconns, h0⟩ | ⟨-, hconns, h0⟩
  · have hquiet : s.Quiet := by
      rw [Quiet, hconns]
      simp [Phase.busy]
    have hcount := h.global hquiet
    rw [openConns, hconns, h0] at hcount
    simp [Conn.counts, ha] at hcount
  · have hquiet : s.Quiet := by
      rw [Quiet, hconns]
      simp [Phase.busy]
    have hcount := h.global hquiet
    rw [openConns, hconns, h0] at hcount
    simp [Conn.counts] at hcount

/-- **When the caps are exact.**  For given addresses, every interleaving keeps the
counters exact and the caps, if loopback peers are not exempt, if there are no
loopback peers or no others, or if no connection is let in at all. -/
theorem caps_exact_iff (cfg : LimitsConfig) (addrs : Set IpAddr) :
    (∀ events, (∀ addr, .accept addr ∈ events → addr ∈ addrs) →
        CapsExact cfg (run cfg events new)) ↔
      cfg.bypassLoopback = false ∨ (∀ addr ∈ addrs, addr.isLoopback = false) ∨
        (∀ addr ∈ addrs, addr.isLoopback = true) ∨ cfg.maxConnsGlobal = 0 := by
  constructor
  · intro h
    by_contra hmixed
    simp only [not_or, not_forall] at hmixed
    obtain ⟨hbypass, ⟨b, hb, hloop⟩, ⟨a, ha, hfar⟩, hg⟩ := hmixed
    have hbypassA : cfg.isLoopbackBypass a = false := by
      simp [LimitsConfig.isLoopbackBypass, hfar]
    have hbypassB : cfg.isLoopbackBypass b = true := by
      simp [LimitsConfig.isLoopbackBypass, hbypass, hloop]
    refine not_capsExact_drift hbypassA hbypassB hg (h _ fun addr haddr => ?_)
    have haddr' : addr = a ∨ addr = b := by simpa [drift] using haddr
    rcases haddr' with rfl | rfl
    · exact ha
    · exact hb
  · intro h events hevents
    rcases hbypass : cfg.bypassLoopback with _ | _
    · refine (counted_new.run fun addr _ => ?_).capsExact
      simp [LimitsConfig.isLoopbackBypass, hbypass]
    · rcases h with h | h | h | h
      · rw [hbypass] at h
        cases h
      · refine (counted_new.run fun addr ha => ?_).capsExact
        simp [LimitsConfig.isLoopbackBypass, h addr (hevents addr ha)]
      · refine (unused_new.run (.inr fun addr ha => ?_)).capsExact
        simp [LimitsConfig.isLoopbackBypass, hbypass, h addr (hevents addr ha)]
      · exact (unused_new.run (.inl h)).capsExact

/-- With a cap of one connection, an exempt connection that ends lets a second one in. -/
theorem cap_exceeded : ∃ cfg events, cfg.maxConnsGlobal = 1 ∧ cfg.maxConnsPerIp = 100 ∧
    (run cfg events new).openConns cfg = 2 ∧ (run cfg events new).Quiet ∧
    (run cfg events new).limits.globalConns = 1 :=
  let a := IpAddr.v4 10 0 0 1
  let b := IpAddr.v4 10 0 0 2
  let acquire i := [ConnEvent.advance i false, .advance i false, .advance i false]
  ⟨⟨100, 1, true⟩, [.accept a] ++ acquire 0 ++ [.accept (.v4 127 0 0 1), .hangUp 1] ++ acquire 1 ++
    [.accept b] ++ acquire 2, rfl, rfl, by decide, by decide, by decide⟩

end Listener

end GrumpyDB
