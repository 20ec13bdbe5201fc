/-
  The bus interconnect as a whole (`nios_cpu_mm_interconnect_0`): two masters, eight slaves.

  1. **Response multiplexer** — `rspMux`: grants every request, so two responses at once would mix.
  2. **Program** — `Fabric`: the registers; one definition for each bundle of wires, from the masters
     to the cores and back; `posedge`: one clock edge.
  3. **Invariant** — `Inv f o`: `o k` is the read that slave `k` accepted in the cycle before.
  4. **Commands** — `Granted`: whose command a slave sees.
  5. **Responses** — at most one response for a master in a cycle (`Inv.owes_unique`), and it finds
     its way (`Inv.answer_eq`).
  6. **Results** — `fabric_delivers`: the transfers of the slaves are the commands the masters get
     accepted.  `fabric_answers`: a read is answered in the next cycle, with the word of its slave.
-/
import GpsReceiver.Interconnect.CmdMux
import GpsReceiver.Interconnect.MasterSide
import GpsReceiver.Interconnect.SlaveSide

namespace GpsReceiver.Interconnect

open Lib Lib.Wires

/-! ## Response multiplexer -/

section RspMux

variable {n : Nat} {sink : Fin n → Beat}

/-- The scheme is `"no-arb"` (`rspGrant_noArb`). -/
def rspGrant (sink : Fin n → Beat) : BitVec n := CmdMux.valid sink

/-- The response multiplexer: payloads masked by the grant and joined by `or`. -/
def rspMux (sink : Fin n → Beat) : Beat :=
  .ofPayload (rspGrant sink &&& CmdMux.valid sink != 0)
    (sumOfProducts (fun k => (sink k).payload) (rspGrant sink))

/-- A response is taken when it is granted. -/
def rspMuxReady (sink : Fin n → Beat) (srcReady : Bool) (k : Fin n) : Bool :=
  srcReady && (rspGrant sink).getLsbD k

/-- The arbitrator without arbitration grants what is requested. -/
theorem rspGrant_noArb (a : Arbitrator n) :
    rspGrant sink = a.grant .noArb (CmdMux.valid sink) := rfl

theorem rspGrant_eq : rspGrant sink = bundle fun k => (sink k).valid := rfl

/-- One valid response passes through. -/
theorem rspMux_some {k : Fin n} (h : ∀ j, (sink j).valid = decide (j = k)) :
    rspMux sink = sink k := by
  have hgrant : (bundle fun j => (sink j).valid) = grantOf (some k) :=
    bundle_eq_grantOf fun j => by
      rw [h j, decide_eq_decide, Option.some.injEq]
      exact eq_comm
  rw [rspMux, CmdMux.valid, rspGrant_eq, hgrant, sumOfProducts_some, Beat.ofPayload_payload,
    grantOf_and, Option.any_some, grantOf_bit, decide_eq_true rfl]
  have hk : (sink k).valid = true := by rw [h k, decide_eq_true rfl]
  rw [← hk]

/-- Without a response there is none at the output. -/
theorem rspMux_none (h : ∀ j, (sink j).valid = false) : (rspMux sink).valid = false := by
  have hgrant : (bundle fun j => (sink j).valid) = grantOf none :=
    bundle_eq_grantOf fun j => by rw [h j, decide_eq_false (Option.some_ne_none j).symm]
  show (rspGrant sink &&& CmdMux.valid sink != 0) = false
  rw [rspGrant_eq, hgrant, grantOf_and, Option.any_none]

/-- The masters are always ready, so every response is taken at once. -/
theorem rspMuxReady_eq (k : Fin n) : rspMuxReady sink true k = (sink k).valid := by
  rw [rspMuxReady, Bool.true_and, rspGrant_eq, bundle_bit]

end RspMux

/-! ## The program -/

/-- The slaves that both masters reach. -/
def Slave.shared (k : Slave) : Bool := k == .debugMem || k == .onchipMemory

/-- The sink of a master in a command multiplexer, and its source in a response demultiplexer. -/
def Master.sink : Master → Fin 2
  | .data => ⟨0, Nat.zero_lt_two⟩
  | .instruction => ⟨1, Nat.one_lt_two⟩

/-- The registers of the interconnect. -/
structure Fabric where
  holdWaitrequest : Master → Bool
  limiter : Master → Limiter 1
  cmdMux002 : CmdMux 2
  cmdMux004 : CmdMux 2
  slave : Slave → SlaveSide

/-- What the interconnect sees during a cycle. -/
structure FabricInput where
  dataMaster : DataMaster
  instructionMaster : InstructionMaster
  core : Slave → AvSlave

def FabricInput.av (i : FabricInput) : Master → AvMaster
  | .data => i.dataMaster.av
  | .instruction => i.instructionMaster.av

namespace Fabric

def reset : Fabric where
  holdWaitrequest := fun _ => true
  limiter := fun _ => .reset
  cmdMux002 := .reset
  cmdMux004 := .reset
  slave := fun _ => .reset

variable (f : Fabric) (i : FabricInput)

/-- The multiplexer of a shared slave. -/
def cmdMux (k : Slave) : CmdMux 2 := if k = .debugMem then f.cmdMux002 else f.cmdMux004

/-- The command of master `m` at its limiter. -/
def cmd (m : Master) : Beat := command m (f.holdWaitrequest m) (i.av m)

/-- The demultiplexer of master `m`, at the output that leads to slave `k`. -/
def offered (m : Master) (k : Slave) : Beat :=
  demux m.outputs ((f.limiter m).cmdSrcValid (f.cmd i m)) (f.cmd i m) (m.port k)

/-- The sinks of the multiplexer of a shared slave. -/
def sinks (k : Slave) : Fin 2 → Beat := ![f.offered i .data k, f.offered i .instruction k]

/-- The command at the agent of slave `k`. -/
def cp (k : Slave) : Beat :=
  if k.shared then (f.cmdMux k).src (f.sinks i k) else f.offered i .data k

/-- The router of a slave's responses. -/
def rspRouter (k : Slave) (p : Packet) : BitVec 8 := if k.shared then router004 p else router002 p

/-- The response of slave `k`. -/
def rp (k : Slave) : Beat where
  valid := (f.slave k).rpValid
  data := (f.slave k).rpData k.config (i.core k)
  channel := rspRouter k ((f.slave k).rpData k.config (i.core k))
  startofpacket := (f.slave k).rpStartofpacket
  endofpacket := (f.slave k).rpEndofpacket

/-- The response demultiplexer of slave `k`, at the source of master `m`. -/
def rspSrc (m : Master) (k : Slave) : Beat :=
  demux (if k.shared then 2 else 1) (fill 8 (f.rp i k).valid) (f.rp i k) m.sink

/-- The sinks of the response multiplexer of the instruction master. -/
def fetchSinks : Fin 2 → Beat :=
  ![f.rspSrc i .instruction .debugMem, f.rspSrc i .instruction .onchipMemory]

/-- The response at the limiter of master `m`; the agent is always ready for it. -/
def answer : Master → Beat
  | .data => rspMux (f.rspSrc i .data)
  | .instruction => rspMux (f.fetchSinks i)

/-- The response multiplexer of master `m` takes the response of slave `k`. -/
def rspTaken : Master → Slave → Bool
  | .data, k => rspMuxReady (f.rspSrc i .data) true k
  | .instruction, k => rspMuxReady (f.fetchSinks i) true (if k = .debugMem then ⟨0, Nat.zero_lt_two⟩
      else ⟨1, Nat.one_lt_two⟩)

/-- The response of slave `k` is taken: the response demultiplexer looks at the source it is for. -/
def rpReady (k : Slave) : Bool :=
  demuxReady (f.rp i k).channel
    (if k.shared then (bundle ![f.rspTaken i .data k, f.rspTaken i .instruction k]).setWidth 8
      else (bundle ![f.rspTaken i .data k]).setWidth 8)

/-- What the side of slave `k` sees. -/
def slaveInput (k : Slave) : SlaveInput where
  cp := f.cp i k
  rpReady := f.rpReady i k
  av := i.core k

/-- Slave `k` takes the command. -/
def cpReady (k : Slave) : Bool := (f.slave k).cpReady k.config (f.slaveInput i k)

/-- Slave `k` is ready for master `m`. -/
def cmdReady (m : Master) (k : Slave) : Bool :=
  if k.shared then (f.cmdMux k).sinkReady (f.cpReady i k) m.sink else f.cpReady i k

/-- What the limiter of master `m` sees. -/
def limiterInput (m : Master) : LimiterInput where
  cmdSink := f.cmd i m
  cmdSrcReady := demuxReady (f.cmd i m).channel (m.readyVector (f.cmdReady i m))
  rspSink := f.answer i m
  rspSrcReady := true

/-- What the multiplexer of a shared slave sees. -/
def muxInput (k : Slave) : MuxInput 2 where
  sink := f.sinks i k
  srcReady := f.cpReady i k

/-- One clock edge. -/
def posedge : Fabric where
  holdWaitrequest := fun _ => false
  limiter := fun m => (f.limiter m).posedge (f.limiterInput i m)
  cmdMux002 := f.cmdMux002.posedge (f.muxInput i .debugMem)
  cmdMux004 := f.cmdMux004.posedge (f.muxInput i .onchipMemory)
  slave := fun k => (f.slave k).posedge k.config (f.slaveInput i k)

def step (f : Fabric) (i : FabricInput) : Option Fabric := some (f.posedge i)

abbrev Reachable (f : Fabric) : Prop := Transition.Reachable step reset f

/-! ## What the masters and the cores see -/

/-- `waitrequest` of master `m`. -/
def waitrequest (m : Master) : Bool :=
  agentWaitrequest (f.holdWaitrequest m)
    ((f.limiter m).cmdSinkReady (f.cmd i m) (f.limiterInput i m).cmdSrcReady)

/-- `readdatavalid` of master `m`. -/
def readdatavalid (m : Master) : Bool := Limiter.rspSrcValid (f.answer i m)

def readdata (m : Master) : BitVec 32 := (f.answer i m).data.data

/-- The wires at core `k`. -/
def coreBus (k : Slave) : CoreBus := (f.slave k).coreBus k.config (f.slaveInput i k)

/-- Master `m` gets a command accepted. -/
def accepted (m : Master) : Bool := ((i.av m).read || (i.av m).write) && !f.waitrequest i m

/-- Slave `k` completes a transfer. -/
def completes (k : Slave) : Bool :=
  ((f.slave k).m0Read (f.slaveInput i k) || (f.slave k).m0Write (f.slaveInput i k))
    && !(f.slave k).uavWaitrequest k.config (f.slaveInput i k)

/-! ## The invariant -/

variable {f : Fabric} {i : FabricInput} {o : Slave → Option Token}

/-- Every slave owes at most one response, and no two owe one to the same master. -/
structure Inv (f : Fabric) (o : Slave → Option Token) : Prop where
  held : ∀ m k, f.holdWaitrequest m = (f.slave k).waitrequestResetOverride
  knows : ∀ m, (f.limiter m).Knows m
  granted002 : ∃ g p, f.cmdMux002.Inv g p
  granted004 : ∃ g p, f.cmdMux004.Inv g p
  slave : ∀ k, (f.slave k).Inv (o k)
  read : ∀ k t, o k = some t → t.data.transRead = true
  source : ∀ k t, o k = some t → ∃ m : Master, m.Reaches k ∧ t.data.srcId = m.id
  unique : ∀ k k' t t', o k = some t → o k' = some t' → t.data.srcId = t'.data.srcId → k = k'

/-- Nothing is on its way after reset. -/
theorem inv_reset : Inv reset fun _ => none where
  held := fun _ _ => rfl
  knows := fun _ => Limiter.knows_reset
  granted002 := ⟨none, 0, CmdMux.inv_reset Nat.one_lt_two⟩
  granted004 := ⟨none, 0, CmdMux.inv_reset Nat.one_lt_two⟩
  slave := fun _ => SlaveSide.inv_reset
  read := fun _ _ h => absurd h.symm (Option.some_ne_none _)
  source := fun _ _ h => absurd h.symm (Option.some_ne_none _)
  unique := fun _ _ _ _ h => absurd h.symm (Option.some_ne_none _)

/-! ## Commands -/

/-- The slave that master `m` wants. -/
def target (i : FabricInput) (m : Master) : Slave := m.target (i.av m).address (i.av m).read

/-- The router has given the command its channel and its destination. -/
theorem cmd_routed (m : Master) : Routed m (f.cmd i m) (target i m) := command_routed m _ _

theorem cmd_data (m : Master) : (f.cmd i m).data
    = { cpData m (translate m (i.av m)) with destId := (target i m).destId } :=
  command_data m (f.holdWaitrequest m) (i.av m)

theorem Master.reaches_shared {k : Slave} (h : k.shared = true) (m : Master) : m.Reaches k := by
  cases m with
  | data => trivial
  | instruction =>
    rw [Slave.shared, Bool.or_eq_true, beq_iff_eq, beq_iff_eq] at h
    exact h

/-- A slave that is not shared belongs to the data master. -/
theorem Master.data_of_not_shared {k : Slave} (h : k.shared = false) {m : Master}
    (hm : m.Reaches k) : m = .data := by
  cases m with
  | data => rfl
  | instruction =>
    rw [Slave.shared, Bool.or_eq_false_iff, beq_eq_false_iff_ne, beq_eq_false_iff_ne] at h
    rcases hm with rfl | rfl
    · exact absurd rfl h.1
    · exact absurd rfl h.2

namespace Inv

/-- A command is offered to the slave it is for, unless it is held back. -/
theorem offered_valid (h : Inv f o) {m : Master} {k : Slave} (hk : m.Reaches k) :
    (f.offered i m k).valid
      = ((f.cmd i m).valid && !(f.limiter m).suppress (f.cmd i m) && decide (k = target i m)) :=
  (h.knows m).offered (cmd_routed m) hk

theorem cmdMux_inv (h : Inv f o) (k : Slave) : ∃ g p, (f.cmdMux k).Inv g p := by
  rw [cmdMux]
  split
  · exact h.granted002
  · exact h.granted004

end Inv

/-- Slave `k` sees the command of master `g`, or none. -/
structure Granted (f : Fabric) (i : FabricInput) (k : Slave) (g : Option Master) : Prop where
  reaches : ∀ m, g = some m → m.Reaches k
  cp : ∀ m, g = some m → f.cp i k = f.offered i m k
  none : g = none → (f.cp i k).valid = false
  plain : SlaveSide.Plain (f.cp i k)
  ready : ∀ m : Master, m.Reaches k → f.cmdReady i m k = (f.cpReady i k && decide (g = some m))

/-- What is offered is the command, with the destination that the router gave it. -/
theorem offered_data (m : Master) (k : Slave) : (f.offered i m k).data
    = { cpData m (translate m (i.av m)) with destId := (target i m).destId } :=
  cmd_data (f := f) m

/-- The masters send single beats, and want no response to a write. -/
theorem offered_plain (m : Master) (k : Slave) : SlaveSide.Plain (f.offered i m k) := by
  refine ⟨?_, fun hwrite => ?_⟩
  · rw [offered_data]
    exact Bool.and_false _
  · rw [offered_data] at hwrite ⊢
    exact hwrite

theorem sinks_eq (m : Master) (k : Slave) : f.sinks i k m.sink = f.offered i m k := by
  cases m <;> rfl

theorem Master.exists_sink (j : Fin 2) : ∃ m : Master, m.sink = j := by
  revert j
  exact Fin.forall_fin_two.mpr ⟨⟨.data, rfl⟩, ⟨.instruction, rfl⟩⟩

theorem Master.sink_inj {m m' : Master} (h : m.sink = m'.sink) : m = m' := by
  cases m <;> cases m' <;> first | rfl | exact absurd h (by decide)

/-- **One command at a time** is in front of a slave: without a multiplexer that of the data master,
    with one that of the sink granted. -/
theorem Inv.granted (h : Inv f o) (k : Slave) : ∃ g, Granted f i k g := by
  cases hk : k.shared with
  | false =>
    have hcp : f.cp i k = f.offered i .data k := by rw [Fabric.cp, hk, if_neg Bool.false_ne_true]
    refine ⟨some .data, fun m hm => ?_, fun m hm => ?_, fun hn => absurd hn (Option.some_ne_none _),
      hcp ▸ offered_plain _ _, fun m hm => ?_⟩
    · obtain rfl := Option.some.inj hm
      trivial
    · obtain rfl := Option.some.inj hm
      exact hcp
    · rw [Master.data_of_not_shared hk hm, cmdReady, hk, if_neg Bool.false_ne_true,
        decide_eq_true rfl, Bool.and_true]
  | true =>
    obtain ⟨g, p, hmux⟩ := h.cmdMux_inv k
    have hcp : f.cp i k = (f.cmdMux k).src (f.sinks i k) := by rw [Fabric.cp, hk, if_pos rfl]
    have hready : ∀ m : Master,
        f.cmdReady i m k = (f.cpReady i k && decide (g = some m.sink)) := fun m => by
      rw [cmdReady, hk, if_pos rfl, hmux.sinkReady_eq]
    cases g with
    | none =>
      rw [hmux.src_none] at hcp
      refine ⟨none, fun _ hm => absurd hm.symm (Option.some_ne_none _),
        fun _ hm => absurd hm.symm (Option.some_ne_none _), fun _ => hcp ▸ rfl,
        hcp ▸ ⟨by decide, by decide⟩, fun m _ => ?_⟩
      rw [hready, decide_eq_false (Option.some_ne_none _).symm,
        decide_eq_false (Option.some_ne_none _).symm]
    | some j =>
      obtain ⟨m', rfl⟩ := Master.exists_sink j
      rw [hmux.src_eq, sinks_eq] at hcp
      refine ⟨some m', fun m _ => Master.reaches_shared hk m, fun m hm => ?_,
        fun hn => absurd hn (Option.some_ne_none _), hcp ▸ offered_plain _ _, fun m _ => ?_⟩
      · exact Option.some.inj hm ▸ hcp
      · rw [hready]
        congr 1
        rw [decide_eq_decide, Option.some.injEq, Option.some.injEq]
        exact ⟨Master.sink_inj, fun heq => heq ▸ rfl⟩

/-- A request is a command, but in the first cycle after reset. -/
theorem cmd_valid (m : Master) :
    (f.cmd i m).valid = (((i.av m).read || (i.av m).write) && !f.holdWaitrequest m) := by
  cases m with
  | data =>
    show (((i.av .data).write || (i.av .data).read) && _) = _
    rw [Bool.or_comm]
  | instruction =>
    show ((false || (i.av .instruction).read) && _) = (((i.av .instruction).read || false) && _)
    rw [Bool.or_comm]

/-- The command reads when the master does. -/
theorem offered_read (m : Master) (k : Slave) :
    (f.offered i m k).data.transRead = (i.av m).read := by
  rw [offered_data]
  rfl

theorem offered_write (m : Master) (k : Slave) :
    (f.offered i m k).data.transWrite = (i.av m).write := by
  rw [offered_data]
  cases m <;> rfl

/-- A command is accepted when it is valid, not held back, and its slave is ready for the master. -/
theorem accepted_eq (m : Master) :
    f.accepted i m = ((f.cmd i m).valid && !(f.limiter m).suppress (f.cmd i m)
      && f.cmdReady i m (target i m)) := by
  have htaken : (f.limiter m).cmdSinkReady (f.cmd i m) (f.limiterInput i m).cmdSrcReady = _ :=
    Limiter.taken_eq (f.limiter m) (cmd_routed m) (f.cmdReady i m)
  rw [accepted, waitrequest, agentWaitrequest, htaken, cmd_valid, Bool.not_or, Bool.not_not,
    Bool.and_assoc, Bool.and_assoc]

section

variable {m : Master} {k : Slave} {g : Option Master}

/-- A slave completes a transfer when it takes a command. -/
theorem Inv.completes_eq (h : Inv f o) (hg : Granted f i k g) :
    f.completes i k = ((f.cp i k).valid && f.cpReady i k) := by
  have hplain : SlaveSide.Plain (f.slaveInput i k).cp := hg.plain
  rw [completes, (h.slave k).m0Read_eq hplain, (h.slave k).m0Write_eq, cpReady,
    (h.slave k).cpReady_eq, ← Bool.and_or_distrib_left]
  show ((f.cp i k).valid && _ && _) = _
  cases hvalid : (f.cp i k).valid with
  | false => rw [Bool.false_and, Bool.false_and]
  | true =>
    cases g with
    | none => exact absurd (hvalid.symm.trans (hg.none rfl)) (by decide)
    | some m =>
      have hcp := hg.cp m rfl
      rw [hcp, h.offered_valid (hg.reaches m rfl), cmd_valid, Bool.and_eq_true, Bool.and_eq_true,
        Bool.and_eq_true] at hvalid
      have hrequest : ((f.slaveInput i k).cp.data.transRead
          || (f.slaveInput i k).cp.data.transWrite) = true := by
        show ((f.cp i k).data.transRead || (f.cp i k).data.transWrite) = true
        rw [hcp, offered_read, offered_write]
        exact hvalid.1.1.1
      rw [hrequest, Bool.true_and]

/-- A command is accepted when its slave sees it and completes it. -/
theorem Inv.accepted_iff (h : Inv f o) (hg : Granted f i (target i m) g) :
    f.accepted i m = true ↔ g = some m ∧ f.completes i (target i m) = true := by
  have hreach : m.Reaches (target i m) := m.reaches_target _ _
  rw [accepted_eq, hg.ready m hreach, h.completes_eq hg]
  constructor
  · intro hacc
    simp only [Bool.and_eq_true, decide_eq_true_eq] at hacc
    obtain ⟨⟨hvalid, hfree⟩, hready, hgm⟩ := hacc
    refine ⟨hgm, ?_⟩
    rw [hg.cp m hgm, h.offered_valid hreach, hvalid, hfree, hready, decide_eq_true rfl]
    rfl
  · rintro ⟨hgm, hcomplete⟩
    rw [hg.cp m hgm, h.offered_valid hreach, Bool.and_eq_true, Bool.and_eq_true] at hcomplete
    rw [hcomplete.1.1, hcomplete.2, decide_eq_true hgm]
    rfl

/-- The transfer that a slave completes is the command of a master. -/
theorem Inv.exists_accepted (h : Inv f o) (hg : Granted f i k g)
    (hcomplete : f.completes i k = true) : ∃ m, g = some m ∧ target i m = k := by
  rw [h.completes_eq hg, Bool.and_eq_true] at hcomplete
  cases g with
  | none => exact absurd (hcomplete.1.symm.trans (hg.none rfl)) (by decide)
  | some m =>
    have hvalid := hcomplete.1
    rw [hg.cp m rfl, h.offered_valid (hg.reaches m rfl), Bool.and_eq_true] at hvalid
    exact ⟨m, rfl, (of_decide_eq_true hvalid.2).symm⟩

end

/-- The wires of a core that gets the command of master `m`. -/
def commandBus (i : FabricInput) (m : Master) : CoreBus where
  address := ((i.av m).address >>> 2).toNat % 2 ^ (target i m).config.addressW
  read := wire (target i m).config.wires.read (i.av m).read
  write := wire (target i m).config.wires.write (i.av m).write
  writedata := wire (target i m).config.wires.writedata (i.av m).writedata
  byteenable := wire (target i m).config.wires.byteenable (i.av m).byteenable
  chipselect := wire (target i m).config.wires.chipselect true
  debugaccess := wire (target i m).config.wires.debugaccess (i.av m).debugaccess
  clken := wire (target i m).config.wires.clken true

/-- The address of a word loses its two lowest bits once. -/
theorem word_shift (x : BitVec 20) : ((x >>> 2) <<< 2) >>> 2 = x >>> 2 := by
  rw [← BitVec.toNat_inj]
  simp only [BitVec.toNat_ushiftRight, BitVec.toNat_shiftLeft, Nat.shiftRight_eq_div_pow,
    Nat.shiftLeft_eq]
  omega

/-- **The command arrives** at the core as the master gave it. -/
theorem Inv.coreBus_eq (h : Inv f o) {m : Master} (hacc : f.accepted i m = true) :
    f.coreBus i (target i m) = commandBus i m := by
  obtain ⟨g, hg⟩ := h.granted (target i m)
  obtain ⟨hgm, hcomplete⟩ := (h.accepted_iff hg).mp hacc
  have hcp : (f.slaveInput i (target i m)).cp = f.offered i m (target i m) := hg.cp m hgm
  have hwait : (f.slave (target i m)).uavWaitrequest (target i m).config
      (f.slaveInput i (target i m)) = false := by
    rw [completes, Bool.and_eq_true, Bool.not_eq_true'] at hcomplete
    exact hcomplete.2
  have hvalid : (f.offered i m (target i m)).valid = true := by
    rw [h.completes_eq hg, hg.cp m hgm, Bool.and_eq_true] at hcomplete
    exact hcomplete.1
  have hplain : SlaveSide.Plain (f.slaveInput i (target i m)).cp := hg.plain
  have hrequest : ((i.av m).read || (i.av m).write) = true := by
    rw [accepted, Bool.and_eq_true] at hacc
    exact hacc.1
  simp only [coreBus, SlaveSide.coreBus, commandBus, CoreBus.mk.injEq, SlaveSide.avRead_eq,
    SlaveSide.avWrite_eq hwait, (h.slave _).m0Read_eq hplain, (h.slave _).m0Write_eq, hcp, hvalid,
    Bool.true_and, offered_read, offered_write, hrequest, true_and, and_true]
  refine ⟨?_, ?_, ?_, ?_⟩
  · rw [offered_data]
    show (((((i.av m).address >>> 2) <<< 2) >>> 2 <<< 2) >>> 2).toNat % _ = _
    rw [word_shift, word_shift]
  · rw [offered_data]
    rfl
  · rw [offered_data]
    rfl
  · rw [offered_data]
    refine congrArg (wire _) ?_
    show (0b0#1 ++ 0b1#1 ++ BitVec.ofBool (i.av m).debugaccess).getLsbD 0 = _
    cases (i.av m).debugaccess <;> rfl

/-! ## Responses -/

/-- Slave `k` owes master `m` a response. -/
def owes (o : Slave → Option Token) (k : Slave) (m : Master) : Bool :=
  (o k).any fun t => t.data.srcId == m.id

theorem Master.id_inj {m m' : Master} (h : m.id = m'.id) : m = m' := by
  cases m <;> cases m' <;> first | rfl | exact absurd h (by decide)

/-- The response router leads back to the master. -/
theorem rspRouter_eq {m : Master} {k : Slave} {p : Packet} (hm : m.Reaches k)
    (hdest : p.destId = m.id) (hread : p.transRead = true) :
    rspRouter k p = BitVec.twoPow 8 m.sink := by
  cases hk : k.shared with
  | false =>
    obtain rfl := Master.data_of_not_shared hk hm
    rw [rspRouter, hk, if_neg Bool.false_ne_true, router002, hdest]
    rfl
  | true =>
    rw [rspRouter, hk, if_pos rfl, router004, hdest, hread]
    cases m <;> rfl

theorem sink_bit (m m' : Master) :
    (BitVec.twoPow 8 m'.sink).getLsbD m.sink = decide (m' = m) := by
  cases m <;> cases m' <;> rfl

namespace Inv

variable {m : Master} {k : Slave} {t : Token}

/-- The response to the read that waits. -/
theorem rp_owed (h : Inv f o) (hk : o k = some t) :
    (f.rp i k).valid = true ∧ (f.rp i k).data = { t.data with
      data := (f.slave k).uavReaddata k.config (i.core k)
      srcId := t.data.destId
      destId := t.data.srcId
      responseStatus := 0 } := by
  have hslave := hk ▸ h.slave k
  exact ⟨hslave.rpValid_eq, hslave.rp_eq _⟩

/-- The response takes the channel of the master that read. -/
theorem rp_channel (h : Inv f o) (hk : o k = some t) (hm : m.Reaches k)
    (hsrc : t.data.srcId = m.id) : (f.rp i k).channel = BitVec.twoPow 8 m.sink := by
  obtain ⟨_, hdata⟩ := h.rp_owed (i := i) hk
  refine rspRouter_eq hm ?_ ?_
  · exact (congrArg Packet.destId hdata).trans hsrc
  · exact (congrArg Packet.transRead hdata).trans (h.read k t hk)

/-- The response demultiplexer shows the response to the master that is owed one. -/
theorem rspSrc_valid (h : Inv f o) (m : Master) (k : Slave) :
    (f.rspSrc i m k).valid = owes o k m := by
  show ((f.rp i k).channel.getLsbD m.sink && (fill 8 (f.rp i k).valid).getLsbD m.sink) = _
  cases hk : o k with
  | none =>
    have hvalid : (f.rp i k).valid = false := (hk ▸ h.slave k).rpValid_eq
    have hfill : (fill 8 false).getLsbD m.sink = false := by cases m <;> rfl
    rw [hvalid, hfill, Bool.and_false, owes, hk, Option.any_none]
  | some t =>
    obtain ⟨m', hreach, hsrc⟩ := h.source k t hk
    have hfill : (fill 8 true).getLsbD m.sink = true := by cases m <;> rfl
    rw [(h.rp_owed hk).1, h.rp_channel hk hreach hsrc, sink_bit, hfill, Bool.and_true, owes, hk,
      Option.any_some, hsrc]
    cases m <;> cases m' <;> rfl

/-- One slave at most owes a master a response, -/
theorem owes_unique (h : Inv f o) {k' : Slave} (hk : owes o k m = true)
    (hk' : owes o k' m = true) : k = k' := by
  obtain ⟨t, ht, hsrc⟩ := (Option.any_eq_true _ _).mp hk
  obtain ⟨t', ht', hsrc'⟩ := (Option.any_eq_true _ _).mp hk'
  exact h.unique k k' t t' ht ht' ((eq_of_beq hsrc).trans (eq_of_beq hsrc').symm)

/-- and it is one that the master reaches. -/
theorem owes_reaches (h : Inv f o) (hk : owes o k m = true) : m.Reaches k := by
  obtain ⟨t, ht, hsrc⟩ := (Option.any_eq_true _ _).mp hk
  obtain ⟨m', hreach, hsrc'⟩ := h.source k t ht
  exact Master.id_inj ((eq_of_beq hsrc).symm.trans hsrc') ▸ hreach

/-- So of the responses for a master one is valid. -/
theorem rspSrc_eq (h : Inv f o) (hk : owes o k m = true) (k' : Slave) :
    (f.rspSrc i m k').valid = decide (k' = k) := by
  rw [h.rspSrc_valid]
  cases hk' : owes o k' m with
  | true => exact (decide_eq_true (h.owes_unique hk' hk)).symm
  | false => exact (decide_eq_false fun heq => by
      rw [heq, hk] at hk'
      exact Bool.false_ne_true hk'.symm).symm

/-- **One response at a time** reaches a master, from the slave that owes it. -/
theorem answer_eq (h : Inv f o) (hk : owes o k m = true) : f.answer i m = f.rspSrc i m k := by
  have hsrc := h.rspSrc_eq (i := i) hk
  cases m with
  | data => exact rspMux_some hsrc
  | instruction =>
    rcases h.owes_reaches hk with rfl | rfl
    · exact rspMux_some (k := ⟨0, Nat.zero_lt_two⟩) (Fin.forall_fin_two.mpr
        ⟨hsrc .debugMem, hsrc .onchipMemory⟩)
    · exact rspMux_some (k := ⟨1, Nat.one_lt_two⟩) (Fin.forall_fin_two.mpr
        ⟨hsrc .debugMem, hsrc .onchipMemory⟩)

/-- A master that nobody owes gets nothing. -/
theorem answer_none (h : Inv f o) (hnone : ∀ k, owes o k m = false) :
    (f.answer i m).valid = false := by
  cases m with
  | data => exact rspMux_none fun k => (h.rspSrc_valid _ k).trans (hnone k)
  | instruction =>
    exact rspMux_none (Fin.forall_fin_two.mpr
      ⟨(h.rspSrc_valid _ _).trans (hnone _), (h.rspSrc_valid _ _).trans (hnone _)⟩)

/-- The response is taken. -/
theorem rpReady_eq (h : Inv f o) (hk : (o k).isSome = true) : f.rpReady i k = true := by
  obtain ⟨t, ht⟩ := Option.isSome_iff_exists.mp hk
  obtain ⟨m, hreach, hsrc⟩ := h.source k t ht
  have howes : owes o k m = true := by
    rw [owes, ht, Option.any_some, hsrc]
    exact beq_self_eq_true _
  have htaken : f.rspTaken i m k = true := by
    have hvalid := (h.rspSrc_valid (i := i) m k).trans howes
    cases m with
    | data => exact (rspMuxReady_eq _).trans hvalid
    | instruction =>
      rcases hreach with rfl | rfl
      · exact (rspMuxReady_eq _).trans hvalid
      · exact (rspMuxReady_eq _).trans hvalid
  have hgrant : BitVec.twoPow 8 m.sink
      = grantOf (some (m.sink.castLE (by decide) : Fin 8)) := rfl
  rw [rpReady, demuxReady, h.rp_channel ht hreach hsrc, hgrant, grantOf_and, Option.any_some]
  cases hshared : k.shared with
  | false =>
    obtain rfl := Master.data_of_not_shared hshared hreach
    rw [if_neg Bool.false_ne_true, htaken]
    rfl
  | true =>
    rw [if_pos rfl]
    cases m with
    | data =>
      rw [htaken]
      cases f.rspTaken i .instruction k <;> rfl
    | instruction =>
      rw [htaken]
      cases f.rspTaken i .data k <;> rfl

end Inv

/-! ## The edge -/

/-- The reads that wait for a response after the edge. -/
def waiting (f : Fabric) (i : FabricInput) (k : Slave) : Option Token :=
  if f.completes i k && (f.cp i k).data.transRead then some (SlaveSide.token (f.cp i k)) else none

/-- No command is valid in the first cycle after reset, in which the translators still wait. -/
theorem Inv.held_of_valid (h : Inv f o) {k : Slave} {g : Option Master} (hg : Granted f i k g)
    (hvalid : (f.cp i k).valid = true) : (f.slave k).waitrequestResetOverride = false := by
  cases g with
  | none => exact absurd (hvalid.symm.trans (hg.none rfl)) (by decide)
  | some m =>
    rw [hg.cp m rfl, h.offered_valid (hg.reaches m rfl), cmd_valid, Bool.and_eq_true,
      Bool.and_eq_true, Bool.and_eq_true, Bool.not_eq_true'] at hvalid
    rw [← h.held m k]
    exact hvalid.1.1.2

/-- What waits after an edge is the read of a master. -/
theorem Inv.waiting_some (h : Inv f o) {k : Slave} {t : Token} (ht : waiting f i k = some t) :
    ∃ m : Master, m.Reaches k ∧ f.accepted i m = true ∧ target i m = k ∧ (i.av m).read = true
      ∧ t = SlaveSide.token (f.offered i m k) := by
  obtain ⟨hread, htoken⟩ := Option.ite_none_right_eq_some.mp ht
  rw [Bool.and_eq_true] at hread
  obtain ⟨g, hg⟩ := h.granted (i := i) k
  obtain ⟨m, hgm, htarget⟩ := h.exists_accepted hg hread.1
  have hcp := hg.cp m hgm
  refine ⟨m, hg.reaches m hgm, ?_, htarget, ?_, ?_⟩
  · subst htarget
    exact (h.accepted_iff hg).mpr ⟨hgm, hread.1⟩
  · rw [← offered_read m k, ← hcp]
    exact hread.2
  · rw [← hcp]
    exact (Option.some.inj htoken).symm

/-- And the read of a master waits after the edge at which it is accepted. -/
theorem Inv.waiting_of_accepted (h : Inv f o) {m : Master} (hacc : f.accepted i m = true)
    (hread : (i.av m).read = true) :
    waiting f i (target i m) = some (SlaveSide.token (f.offered i m (target i m))) := by
  obtain ⟨g, hg⟩ := h.granted (i := i) (target i m)
  obtain ⟨hgm, hcomplete⟩ := (h.accepted_iff hg).mp hacc
  rw [waiting, hg.cp m hgm, hcomplete, offered_read, hread]
  rfl

/-- The token remembers the master. -/
theorem token_srcId (m : Master) (k : Slave) :
    (SlaveSide.token (f.offered i m k)).data.srcId = m.id := by
  show (f.offered i m k).data.srcId = _
  rw [offered_data]
  rfl

/-- No two masters get a command accepted by the same slave. -/
theorem Inv.accepted_unique (h : Inv f o) {m m' : Master} (hm : f.accepted i m = true)
    (hm' : f.accepted i m' = true) (htarget : target i m = target i m') : m = m' := by
  obtain ⟨g, hg⟩ := h.granted (i := i) (target i m)
  have hgm := ((h.accepted_iff hg).mp hm).1
  have hgm' := ((h.accepted_iff (htarget ▸ hg)).mp hm').1
  exact Option.some.inj (hgm.symm.trans hgm')

/-- A response is owed for a read that was accepted. -/
theorem Inv.owes_waiting (h : Inv f o) {m : Master} {k : Slave} : owes (waiting f i) k m = true
    ↔ (f.accepted i m = true ∧ (i.av m).read = true) ∧ target i m = k := by
  constructor
  · intro howes
    obtain ⟨t, ht, hsrc⟩ := (Option.any_eq_true _ _).mp howes
    obtain ⟨m', _, hacc, htarget, hread, rfl⟩ := h.waiting_some ht
    rw [token_srcId] at hsrc
    obtain rfl := Master.id_inj (eq_of_beq hsrc)
    exact ⟨⟨hacc, hread⟩, htarget⟩
  · rintro ⟨⟨hacc, hread⟩, rfl⟩
    rw [owes, h.waiting_of_accepted hacc hread, Option.any_some, token_srcId]
    exact beq_self_eq_true _

theorem granted_posedge {x : CmdMux 2} (h : ∃ g p, x.Inv g p) (j : MuxInput 2) :
    ∃ g p, (x.posedge j).Inv g p := by
  obtain ⟨g, p, hmux⟩ := h
  obtain ⟨g', p', _, hnext⟩ := hmux.posedge (i := j) Nat.one_lt_two
  exact ⟨g', p', hnext⟩

/-- **Step.** What the slaves owe after the edge are the reads they have just completed; these are
    of different masters, so no response is in the way of another. -/
theorem Inv.posedge (h : Inv f o) : Inv (f.posedge i) (waiting f i) where
  held := fun _ _ => rfl
  knows := fun m => (h.knows m).posedge (cmd_routed m)
  granted002 := granted_posedge h.granted002 _
  granted004 := granted_posedge h.granted004 _
  slave := fun k => by
    obtain ⟨g, hg⟩ := h.granted (i := i) k
    have hnext := (h.slave k).posedge (c := k.config) (i := f.slaveInput i k) hg.plain
      (fun hk => h.rpReady_eq hk) fun hoverride => by
        refine (Bool.eq_false_or_eq_true _).resolve_left fun hvalid => ?_
        exact Bool.false_ne_true ((h.held_of_valid hg hvalid).symm.trans hoverride)
    have hread : (f.completes i k && (f.cp i k).data.transRead)
        = ((f.cp i k).valid && (f.cp i k).data.transRead
          && !(f.slave k).uavWaitrequest k.config (f.slaveInput i k)) := by
      rw [h.completes_eq hg, cpReady, (h.slave k).cpReady_eq, Bool.and_right_comm]
    rw [waiting, hread]
    exact hnext
  read := fun k t ht => by
    obtain ⟨m, _, _, _, hread, rfl⟩ := h.waiting_some ht
    exact (offered_read m k).trans hread
  source := fun k t ht => by
    obtain ⟨m, hreach, _, _, _, rfl⟩ := h.waiting_some ht
    exact ⟨m, hreach, token_srcId m k⟩
  unique := fun k k' t t' ht ht' hsrc => by
    obtain ⟨m, _, _, htarget, _, rfl⟩ := h.waiting_some ht
    obtain ⟨m', _, _, htarget', _, rfl⟩ := h.waiting_some ht'
    rw [token_srcId, token_srcId] at hsrc
    rw [← htarget, ← htarget', Master.id_inj hsrc]

/-- **Run.** The invariant holds in every reachable state. -/
theorem Reachable.inv (h : Reachable f) : ∃ o, Inv f o :=
  h.invariant (P := fun f => ∃ o, Inv f o) ⟨_, inv_reset⟩ fun s i s' _ ⟨_, hs⟩ hstep => by
    obtain rfl := Option.some.inj hstep
    exact ⟨_, hs.posedge⟩

/-! ## Results -/

/-- **Commands.**  In every cycle of every run, the transfers that the slaves complete are the
    commands that the masters get accepted, one to one; the core sees the command on those wires
    that are connected to it, and a core without waitrequest sees a write in no other cycle. -/
theorem fabric_delivers (h : Reachable f) (i : FabricInput) :
    (∀ k, f.completes i k = true ↔ ∃ m, f.accepted i m = true ∧ target i m = k)
      ∧ (∀ m m', f.accepted i m = true → f.accepted i m' = true → target i m = target i m' →
        m = m')
      ∧ (∀ m, f.accepted i m = true → f.coreBus i (target i m) = commandBus i m)
      ∧ ∀ k, k.config.useWaitrequest = false → (f.coreBus i k).write = some true →
        f.completes i k = true := by
  obtain ⟨o, hinv⟩ := h.inv
  refine ⟨fun k => ⟨fun hk => ?_, ?_⟩, fun m m' => hinv.accepted_unique,
    fun m => hinv.coreBus_eq, fun k hwait hwrite => ?_⟩
  · obtain ⟨g, hg⟩ := hinv.granted (i := i) k
    obtain ⟨m, hgm, htarget⟩ := hinv.exists_accepted hg hk
    subst htarget
    exact ⟨m, (hinv.accepted_iff hg).mpr ⟨hgm, hk⟩, rfl⟩
  · rintro ⟨m, hacc, rfl⟩
    obtain ⟨g, hg⟩ := hinv.granted (i := i) (target i m)
    exact ((hinv.accepted_iff hg).mp hacc).2
  · obtain ⟨g, hg⟩ := hinv.granted (i := i) k
    have hwire : (f.slave k).avWrite k.config (f.slaveInput i k) = true := eq_of_wire hwrite
    have hm0 : (f.slave k).m0Write (f.slaveInput i k) = true := by
      rw [SlaveSide.avWrite] at hwire
      split at hwire
      · rw [Bool.and_eq_true, Bool.and_eq_true] at hwire
        exact hwire.1.2
      · exact hwire
    have hvalid : (f.cp i k).valid = true := by
      rw [(hinv.slave k).m0Write_eq, Bool.and_eq_true] at hm0
      exact hm0.1
    rw [completes, hm0, Bool.or_true, Bool.true_and,
      SlaveSide.accepted_of_avWrite hwait (hinv.held_of_valid hg hvalid) hwire]
    rfl

/-- The data master makes a request, the instruction master none. -/
def request (read write : Bool) (address : BitVec 20) (writedata : BitVec 32) : FabricInput where
  dataMaster := { read, write, address, writedata, byteenable := 0b1111, debugaccess := false }
  instructionMaster := { read := false, address := 0 }
  core := fun _ => { readdata := 5, waitrequest := false }

def quiet : FabricInput := request false false 0 0

/-- The green LEDs are written. -/
def ledWrite : FabricInput := request false true 0x81030 1

/-- After the first cycle the green LEDs get a word at once. -/
theorem fabric_delivers_led :
    (reset.posedge quiet).accepted ledWrite .data = true
      ∧ (reset.posedge quiet).coreBus ledWrite .ledGreen
        = { address := 0, read := none, write := some true, writedata := some 1,
            byteenable := none, chipselect := some true, debugaccess := none, clken := none } := by
  have hacc : (reset.posedge quiet).accepted ledWrite .data = true := by decide +kernel
  obtain ⟨_, _, hbus, _⟩ := fabric_delivers (.next quiet .start rfl) ledWrite
  exact ⟨hacc, hbus .data hacc⟩

/-- **Answers.**  In every run, a master gets read data in a cycle exactly when it got a read
    accepted in the cycle before: the word that the slave it read from drove in that cycle, or, from
    the memory, drives in this one. -/
theorem fabric_answers (h : Reachable f) (i i' : FabricInput) (m : Master) :
    (f.posedge i).readdatavalid i' m = (f.accepted i m && (i.av m).read)
      ∧ (f.accepted i m = true → (i.av m).read = true →
        (f.posedge i).readdata i' m
          = if (target i m).config.readLatency ≠ 0 then (i'.core (target i m)).readdata
            else (i.core (target i m)).readdata) := by
  obtain ⟨o, hinv⟩ := h.inv
  have hnext := hinv.posedge (i := i)
  by_cases hread : f.accepted i m = true ∧ (i.av m).read = true
  · have hwaiting := hinv.waiting_of_accepted hread.1 hread.2
    have howes : owes (waiting f i) (target i m) m = true := hinv.owes_waiting.mpr ⟨hread, rfl⟩
    have hanswer : (f.posedge i).answer i' m = (f.posedge i).rspSrc i' m (target i m) :=
      hnext.answer_eq howes
    obtain ⟨_, hdata⟩ := hnext.rp_owed (i := i') hwaiting
    have hanswerData : ((f.posedge i).answer i' m).data
        = ((f.posedge i).rp i' (target i m)).data := by
      rw [hanswer]
      rfl
    refine ⟨?_, fun _ _ => ?_⟩
    · rw [readdatavalid, Limiter.rspSrcValid, hanswer, hnext.rspSrc_valid, howes, hread.1, hread.2]
      rfl
    · rw [readdata, hanswerData, hdata]
      rfl
  · have hnone : ∀ k, owes (waiting f i) k m = false := fun k =>
      (Bool.eq_false_or_eq_true _).resolve_left fun howes =>
        hread (hinv.owes_waiting.mp howes).1
    refine ⟨?_, fun hacc hr => absurd ⟨hacc, hr⟩ hread⟩
    rw [readdatavalid, Limiter.rspSrcValid, hnext.answer_none hnone]
    exact (Bool.eq_false_iff.mpr fun hboth => hread (Bool.and_eq_true_iff.mp hboth)).symm

/-- The switches are read. -/
def switchesRead : FabricInput := request true false 0x81010 0

/-- The switches are read in the second cycle of the request. -/
theorem fabric_answers_switches :
    (((reset.posedge quiet).posedge switchesRead).posedge switchesRead).readdatavalid quiet .data
        = true
      ∧ (((reset.posedge quiet).posedge switchesRead).posedge switchesRead).readdata quiet .data
        = 5 := by
  have hacc : ((reset.posedge quiet).posedge switchesRead).accepted switchesRead .data = true := by
    decide +kernel
  obtain ⟨hvalid, hdata⟩ := fabric_answers
    (.next switchesRead (.next quiet .start rfl) rfl) switchesRead quiet .data
  rw [hacc] at hvalid
  exact ⟨hvalid, (hdata hacc rfl).trans (ite_self _)⟩

end Fabric

end GpsReceiver.Interconnect
