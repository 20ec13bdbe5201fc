/-
  The way of a command from a master to the multiplexers: master translator, master agent, router,
  traffic limiter and demultiplexer.

  1. **Masters** — the signals of the data master and the instruction master.
  2. **Translator and agent** — `translate`, `cpData`: the packet of a command.
  3. **Demultiplexer** — `demux`, `demuxReady`; `port m k` is the output that leads to slave `k`.
  4. **Command** — `command`: what leaves the router.  `command_routed`: channel and destination are
     those of the slave at the address.
  5. **Limiter** — `Knows`: the limiter remembers a slave, by its destination and by its channel.
     `Knows.offered`: the command is valid at the slave it is for, and nowhere else.
-/
import GpsReceiver.Interconnect.Limiter
import GpsReceiver.Interconnect.Router

namespace GpsReceiver.Interconnect

open Lib.Wires

/-! ## Masters -/

inductive Master
  | data | instruction
  deriving DecidableEq

/-- `ID`. -/
def Master.id : Master → BitVec 3
  | .data => 0
  | .instruction => 1

/-- The signals of a master during a cycle. -/
structure AvMaster where
  read : Bool
  write : Bool
  address : BitVec 20
  writedata : BitVec 32
  byteenable : BitVec 4
  debugaccess : Bool
  lock : Bool
  deriving DecidableEq

/-- What the data master drives; `lock` is tied low. -/
structure DataMaster where
  read : Bool
  write : Bool
  address : BitVec 20
  writedata : BitVec 32
  byteenable : BitVec 4
  debugaccess : Bool
  deriving DecidableEq

/-- What the instruction master drives; it only reads. -/
structure InstructionMaster where
  read : Bool
  address : BitVec 20
  deriving DecidableEq

/-- The signals at the translator of the data master. -/
def DataMaster.av (d : DataMaster) : AvMaster where
  read := d.read
  write := d.write
  address := d.address
  writedata := d.writedata
  byteenable := d.byteenable
  debugaccess := d.debugaccess
  lock := false

/-- Those at the translator of the instruction master, which never writes. -/
def InstructionMaster.av (d : InstructionMaster) : AvMaster where
  read := d.read
  write := false
  address := d.address
  writedata := 0
  byteenable := 0b1111
  debugaccess := false
  lock := false

/-! ## Translator and agent -/

structure UavMaster where
  write : Bool
  read : Bool
  address : BitVec 20
  burstcount : BitVec 3
  byteenable : BitVec 4
  writedata : BitVec 32
  lock : Bool
  debugaccess : Bool

/-- `USE_WRITE`. -/
def useWrite : Master → Bool
  | .data => true
  | .instruction => false

/-- `altera_merlin_master_translator`: a burst is one word of four symbols. -/
def translate (m : Master) (a : AvMaster) : UavMaster where
  write := if useWrite m then a.write else false
  read := a.read
  address := a.address
  burstcount := 4
  byteenable := a.byteenable
  writedata := a.writedata
  lock := a.lock
  debugaccess := a.debugaccess

/-- `BURSTWRAP_VALUE`. -/
def burstwrapValue : Master → BitVec 3
  | .data => 7
  | .instruction => 3

/-- `BURSTING`: the longest burst, `1 << (AV_BURSTCOUNT_W - 1)`, is longer than a word. -/
def bursting : Bool := decide (1 <<< (3 - 1) > 4)

def isBurst (u : UavMaster) : Bool := bursting && decide (u.burstcount > 4)

/-- `altera_merlin_master_agent`: the packet of a command. -/
def cpData (m : Master) (u : UavMaster) : Packet where
  data := u.writedata
  byteen := u.byteenable
  addr := (u.address >>> 2) <<< 2
  transCompressedRead := u.read && isBurst u
  transPosted := u.write
  transWrite := u.write
  transRead := u.read
  transLock := u.lock
  transExclusive := false
  byteCnt := u.burstcount
  burstwrap := burstwrapValue m
  burstSize := 2
  burstType := if (burstwrapValue m).getLsbD 2 then 0b01 else 0b10
  addrSideband := 0
  dataSideband := 0
  beginBurst := false
  qos := 0
  srcId := m.id
  destId := 0
  threadId := 0
  protection := 0b0#1 ++ 0b1#1 ++ BitVec.ofBool u.debugaccess
  cache := 0
  responseStatus := 0
  oriBurstSize := 2

def cpValid (holdWaitrequest : Bool) (u : UavMaster) : Bool :=
  (u.write || u.read) && !holdWaitrequest

/-- `av_waitrequest`. -/
def agentWaitrequest (holdWaitrequest cpReady : Bool) : Bool := holdWaitrequest || !cpReady

/-! ## Demultiplexer -/

/-- Output `k` of the demultiplexers, which use `n` bits of the channel. -/
def demux (n : Nat) (sinkValid : BitVec 8) (b : Beat) (k : Nat) : Beat :=
  { b with
    valid := b.channel.getLsbD k && sinkValid.getLsbD k
    channel := b.channel >>> n }

/-- The source is ready when the output that is addressed is. -/
def demuxReady (channel ready : BitVec 8) : Bool := channel &&& ready != 0

namespace Master

/-- `NUM_OUTPUTS` of the demultiplexer. -/
def outputs : Master → Nat
  | .data => 8
  | .instruction => 2

/-- The output that leads to slave `k`. -/
def port : Master → Slave → Nat
  | .data, k => k
  | .instruction, k => if k = .debugMem then 0 else 1

/-- The slaves at the outputs. -/
def Reaches : Master → Slave → Prop
  | .data, _ => True
  | .instruction, k => k = .debugMem ∨ k = .onchipMemory

/-- `ready_vector`. -/
def readyVector (ready : Slave → Bool) : Master → BitVec 8
  | .data => bundle ready
  | .instruction => (bundle ![ready .debugMem, ready .onchipMemory]).setWidth 8

end Master

/-! ## Command -/

def routerOf : Master → Packet → BitVec 8 × Packet
  | .data => router
  | .instruction => router001

/-- The slave that an access is for. -/
def Master.target : Master → BitVec 20 → Bool → Slave
  | .data, addr, read => slaveAt addr read
  | .instruction, addr, _ => fetchAt addr

/-- What leaves the router of master `m`. -/
def command (m : Master) (holdWaitrequest : Bool) (a : AvMaster) : Beat where
  valid := cpValid holdWaitrequest (translate m a)
  data := (routerOf m (cpData m (translate m a))).2
  channel := (routerOf m (cpData m (translate m a))).1
  startofpacket := true
  endofpacket := true

/-- Different slaves are at different outputs of a demultiplexer. -/
theorem Master.port_inj {m : Master} {k k' : Slave} (hk : m.Reaches k) (hk' : m.Reaches k')
    (h : m.port k = m.port k') : k = k' := by
  cases m with
  | data => exact Fin.ext h
  | instruction =>
    rcases hk with rfl | rfl <;> rcases hk' with rfl | rfl
    · rfl
    · exact absurd h (by decide)
    · exact absurd h (by decide)
    · rfl

theorem Master.port_lt (m : Master) (k : Slave) : m.port k < 8 := by
  cases m with
  | data => exact k.isLt
  | instruction =>
    by_cases hk : k = .debugMem
    · rw [port, if_pos hk]
      decide
    · rw [port, if_neg hk]
      decide

theorem Master.readyVector_bit (m : Master) (ready : Slave → Bool) {k : Slave}
    (hk : m.Reaches k) : (m.readyVector ready).getLsbD (m.port k) = ready k := by
  cases m with
  | data => exact bundle_bit ready k
  | instruction =>
    rcases hk with rfl | rfl <;> rw [readyVector]
    · generalize ready .debugMem = x, ready .onchipMemory = y
      revert x y
      decide
    · generalize ready .debugMem = x, ready .onchipMemory = y
      revert x y
      decide

/-- The router decodes the address to words, whose borders the slaves keep. -/
theorem Master.target_aligned (m : Master) (addr : BitVec 20) (read : Bool) :
    m.target ((addr >>> 2) <<< 2) read = m.target addr read := by
  have haddr : ((addr >>> 2) <<< 2).toNat = addr.toNat / 4 * 4 := by
    rw [BitVec.toNat_shiftLeft, BitVec.toNat_ushiftRight, Nat.shiftRight_eq_div_pow,
      Nat.shiftLeft_eq, Nat.mod_eq_of_lt (by omega)]
  have hborder : ∀ c, (c * 4 ≤ addr.toNat / 4 * 4 ↔ c * 4 ≤ addr.toNat)
      ∧ (addr.toNat / 4 * 4 < c * 4 ↔ addr.toNat < c * 4) := fun c => by omega
  cases m with
  | data =>
    simp only [target, slaveAt, haddr, hborder 0x20412, hborder 0x20414, hborder 0x20410,
      hborder 0x2040c, hborder 0x20408, hborder 0x20404, hborder 0x20400, hborder 0x20200]
  | instruction =>
    simp only [target, fetchAt, haddr, hborder 0x20400, hborder 0x20200]

/-- The router leads a master to slaves it reaches only. -/
theorem Master.reaches_target (m : Master) (addr : BitVec 20) (read : Bool) :
    m.Reaches (m.target addr read) := by
  cases m with
  | data => trivial
  | instruction =>
    rw [target, fetchAt]
    split
    · exact Or.inl rfl
    · exact Or.inr rfl

/-- Channel and destination of a beat are those of slave `t`. -/
structure Routed (m : Master) (b : Beat) (t : Slave) : Prop where
  reaches : m.Reaches t
  channel : b.channel = BitVec.twoPow 8 (m.port t)
  destId : b.data.destId = t.destId

theorem routerOf_eq (m : Master) (p : Packet) :
    routerOf m p = (BitVec.twoPow 8 (m.port (m.target p.addr p.transRead)),
      { p with destId := (m.target p.addr p.transRead).destId }) := by
  cases m with
  | data => exact router_eq p
  | instruction =>
    show router001 p = _
    rw [router001_eq, Master.target, fetchAt]
    split <;> rfl

/-- The packet is the command with the destination of its slave. -/
theorem command_data (m : Master) (hold : Bool) (a : AvMaster) :
    (command m hold a).data
      = { cpData m (translate m a) with destId := (m.target a.address a.read).destId } := by
  show (routerOf m (cpData m (translate m a))).2 = _
  rw [routerOf_eq, ← m.target_aligned a.address a.read]
  rfl

/-- **The command is routed** to the slave at its address. -/
theorem command_routed (m : Master) (hold : Bool) (a : AvMaster) :
    Routed m (command m hold a) (m.target a.address a.read) := by
  have htarget := m.target_aligned a.address a.read
  refine ⟨m.reaches_target _ _, ?_, ?_⟩
  · show (routerOf m (cpData m (translate m a))).1 = _
    rw [routerOf_eq, ← htarget]
    rfl
  · rw [command_data]

/-! ## Limiter -/

namespace Limiter

variable {w : Nat} {m : Master} {l : Limiter w} {b : Beat} {t k : Slave}

/-- While responses are pending, the limiter has a slave in mind. -/
def Knows (m : Master) (l : Limiter w) : Prop :=
  l.hasPendingResponses = true →
    ∃ s, m.Reaches s ∧ l.lastDestId = s.destId ∧ l.lastChannel = BitVec.twoPow 8 (m.port s)

theorem knows_reset : Knows m (reset : Limiter w) := fun h => absurd h Bool.false_ne_true

/-- A response gets pending only through a command that is saved. -/
theorem Knows.posedge (h : Knows m l) {i : LimiterInput} (hb : Routed m i.cmdSink t) :
    Knows m (l.posedge i) := by
  intro hpending
  by_cases hsave : l.saveDestId i.cmdSink = true
  · refine ⟨t, hb.reaches, ?_, ?_⟩
    · show (if l.saveDestId i.cmdSink then _ else _ : BitVec 3) = _
      rw [if_pos hsave, hb.destId]
    · show (if l.saveDestId i.cmdSink then _ else _ : BitVec 8) = _
      rw [if_pos hsave, hb.channel]
  · have hacc : l.nonpostedCmdAccepted i = false := by
      refine (Bool.eq_false_or_eq_true _).resolve_left fun hacc => hsave ?_
      rw [nonpostedCmdAccepted, Bool.and_eq_true, Bool.and_eq_true, internalValid] at hacc
      obtain ⟨⟨hnon, hvalid⟩, _⟩ := hacc
      cases hsup : l.suppress i.cmdSink with
      | true =>
        rw [hsup, if_pos rfl] at hvalid
        exact absurd hvalid Bool.false_ne_true
      | false =>
        rw [hsup, if_neg Bool.false_ne_true] at hvalid
        rw [saveDestId, hvalid, hsup, hnon]
        rfl
    have hpending' : ((l.hasPendingResponses && !(l.pendingResponseCount == 1
        && responseAccepted i && !l.nonpostedCmdAccepted i))
        || (l.pendingResponseCount == 0 && l.nonpostedCmdAccepted i && !responseAccepted i)) = true :=
      hpending
    rw [hacc, Bool.and_false, Bool.false_and, Bool.or_false, Bool.and_eq_true] at hpending'
    obtain ⟨s, hreach, hdest, hchannel⟩ := h hpending'.1
    refine ⟨s, hreach, ?_, ?_⟩
    · show (if l.saveDestId i.cmdSink then _ else _ : BitVec 3) = _
      rw [if_neg hsave, hdest]
    · show (if l.saveDestId i.cmdSink then _ else _ : BitVec 8) = _
      rw [if_neg hsave, hchannel]

theorem port_bit (hk : m.Reaches k) (ht : m.Reaches t) :
    (BitVec.twoPow 8 (m.port t)).getLsbD (m.port k) = decide (k = t) := by
  rw [BitVec.getLsbD_twoPow, decide_eq_true (m.port_lt t), Bool.true_and, decide_eq_decide]
  exact ⟨fun h => Master.port_inj hk ht h.symm, fun h => by rw [h]⟩

/-- **A command is valid at the slave it is for**, unless it is held back, and nowhere else. -/
theorem Knows.offered (h : Knows m l) (hb : Routed m b t) (hk : m.Reaches k) :
    (demux m.outputs (l.cmdSrcValid b) b (m.port k)).valid
      = (b.valid && !l.suppress b && decide (k = t)) := by
  show (b.channel.getLsbD (m.port k) && (l.cmdSrcValid b).getLsbD (m.port k)) = _
  have hwide : (wideValid b).getLsbD (m.port k) = (b.valid && decide (k = t)) := by
    rw [wideValid, BitVec.and_comm]
    cases b.valid with
    | false => rw [and_fill_false, BitVec.ofNat_eq_ofNat, BitVec.getLsbD_zero, Bool.false_and]
    | true => rw [and_fill_true, hb.channel, port_bit hk hb.reaches, Bool.true_and]
  rw [hb.channel, port_bit hk hb.reaches]
  by_cases hkt : k = t
  · subst hkt
    rw [decide_eq_true rfl, Bool.true_and, Bool.and_true, cmdSrcValid, suppress]
    cases hnon : nonpostedCmd b && l.hasPendingResponses with
    | false => rw [if_neg Bool.false_ne_true, hwide]; simp
    | true =>
      obtain ⟨s, hreach, hdest, hchannel⟩ := h (Bool.and_eq_true_iff.mp hnon).2
      rw [if_pos rfl, BitVec.getLsbD_and, hwide, hchannel, port_bit hk hreach, destChanged, hdest,
        hb.destId, decide_eq_true rfl, Bool.and_true, Bool.true_and]
      congr 1
      by_cases hks : k = s
      · subst hks
        simp
      · have hne : s.destId ≠ k.destId := fun heq => hks (destId_inj heq).symm
        simp [hks, hne]
  · simp [hkt]

/-- **It is accepted** when this slave is ready. -/
theorem taken_eq (l : Limiter w) (hb : Routed m b t) (ready : Slave → Bool) :
    l.cmdSinkReady b (demuxReady b.channel (m.readyVector ready))
      = (!l.suppress b && ready t) := by
  have hready : demuxReady b.channel (m.readyVector ready) = ready t := by
    rw [demuxReady, hb.channel, show BitVec.twoPow 8 (m.port t)
      = grantOf (some (⟨m.port t, m.port_lt t⟩ : Fin 8)) from rfl, grantOf_and, Option.any_some]
    exact m.readyVector_bit ready hb.reaches
  rw [cmdSinkReady, hready]
  cases l.suppress b <;> rfl

end Limiter

end GpsReceiver.Interconnect
