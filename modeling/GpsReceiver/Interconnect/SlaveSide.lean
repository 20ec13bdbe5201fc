/-
  A slave's side of the interconnect: slave agent, its response FIFO, burst uncompressor, and the
  translator to the wires of the core.

  1. **Uncompressor** — `Uncompressor`: the beats of a response.  No read of this system is
     compressed, and every response is one beat.
  2. **Translator** — `SlaveConfig`: the timing of a core; waitrequest and the word that was read.
  3. **Agent** — `SlaveSide`: what a read leaves in the FIFO until its response.
  4. **Invariant** — `Inv s o`: `o` is the read accepted in the cycle before.  Its response is there
     in this cycle (`Inv.rp_eq`), and an edge makes room for the next one (`Inv.posedge`).
-/
import GpsReceiver.Interconnect.Packet
import GpsReceiver.Interconnect.Router
import GpsReceiver.Interconnect.ScFifo

namespace GpsReceiver.Interconnect

/-! ## Uncompressor -/

/-- The registers of `altera_merlin_burst_uncompressor`. -/
structure Uncompressor where
  busy : Bool
  byteCounter : BitVec 4
  addressBase : BitVec 20
  addressOffset : BitVec 20

/-- What the uncompressor sees during a cycle. -/
structure UncompressorInput where
  startofpacket : Bool
  endofpacket : Bool
  valid : Bool
  addr : BitVec 20
  burstwrap : BitVec 3
  byteCnt : BitVec 3
  isCompressed : Bool
  burstsize : BitVec 3
  sourceReady : Bool

namespace Uncompressor

def reset : Uncompressor where
  busy := false
  byteCounter := 0
  addressBase := 0
  addressOffset := 0

/-- `num_symbols`. -/
def numSymbols : BitVec 3 := 4

/-- `bytes_in_transfer`: the bytes of a beat, by the code of its size. -/
def bytesInTransfer (axsize : BitVec 3) : BitVec 64 := 1#64 <<< axsize.toNat

/-- `first_packet_beat`. -/
def firstPacketBeat (u : Uncompressor) (i : UncompressorInput) : Bool := i.valid && !u.busy

def byteCounterLint (u : Uncompressor) : BitVec 3 := u.byteCounter.setWidth 3

/-- `source_byte_cnt`: the count of the sink in the first beat, the one kept in the others. -/
def sourceByteCnt (u : Uncompressor) (i : UncompressorInput) : BitVec 3 :=
  if u.firstPacketBeat i then i.byteCnt else u.byteCounterLint

/-- `last_packet_beat`: every beat of a packet that is not compressed. -/
def lastPacketBeat (u : Uncompressor) (i : UncompressorInput) : Bool :=
  !i.isCompressed || (if u.busy then i.valid && u.byteCounterLint == numSymbols
    else i.valid && i.byteCnt == numSymbols)

/-- `addr_width_burstwrap`: the mask of the wrapping address, with its sign extended. -/
def addrWidthBurstwrap (i : UncompressorInput) : BitVec 20 := i.burstwrap.signExtend 20

/-- `source_addr`. -/
def sourceAddr (u : Uncompressor) (i : UncompressorInput) : BitVec 20 :=
  if u.firstPacketBeat i then i.addr else u.addressBase ||| u.addressOffset

def sourceStartofpacket (u : Uncompressor) (i : UncompressorInput) : Bool :=
  i.startofpacket && !u.busy

def sourceEndofpacket (u : Uncompressor) (i : UncompressorInput) : Bool :=
  i.endofpacket && u.lastPacketBeat i

/-- `sink_ready`: a packet is taken with its last beat. -/
def sinkReady (u : Uncompressor) (i : UncompressorInput) : Bool :=
  i.valid && i.sourceReady && u.lastPacketBeat i

/-- One clock edge. -/
def posedge (u : Uncompressor) (i : UncompressorInput) : Uncompressor where
  busy :=
    if i.valid && i.sourceReady then
      if u.lastPacketBeat i then false else true
    else u.busy
  byteCounter :=
    if i.valid && i.sourceReady then
      if u.lastPacketBeat i then 0
      else if u.busy then
        if u.byteCounter > 0 then u.byteCounterLint.setWidth 4 - 4 else i.byteCnt.setWidth 4 - 4
      else i.byteCnt.setWidth 4 - 4
    else u.byteCounter
  addressBase :=
    if u.firstPacketBeat i && i.sourceReady then i.addr &&& ~~~addrWidthBurstwrap i
    else u.addressBase
  addressOffset :=
    if i.sourceReady && i.valid then
      ((if u.firstPacketBeat i then i.addr else u.addressOffset)
        + (bytesInTransfer i.burstsize).setWidth 20) &&& addrWidthBurstwrap i
    else u.addressOffset

end Uncompressor

/-! ## The slave side -/

/-- The wires of a core that the interconnect connects besides address and read data; those of the
    other signals are left open. -/
structure CoreWires where
  read : Bool
  write : Bool
  writedata : Bool
  byteenable : Bool
  chipselect : Bool
  debugaccess : Bool
  clken : Bool

/-- The parameters of a translator, and the wires of its core. -/
structure SlaveConfig where
  /-- `AV_ADDRESS_W` -/
  addressW : Nat
  /-- `USE_WAITREQUEST` -/
  useWaitrequest : Bool
  /-- `AV_READLATENCY` -/
  readLatency : Nat
  /-- `AV_READ_WAIT_CYCLES` -/
  readWaitCycles : Nat
  wires : CoreWires

/-- A core that is only read has no other wires. -/
def readOnlyWires : CoreWires := ⟨false, false, false, false, false, false, false⟩

/-- A parallel port that is written tells a read from a write by `write`. -/
def portWires : CoreWires := ⟨false, true, true, false, true, false, false⟩

/-- The JTAG UART has both strobes, and a select. -/
def jtagUartWires : CoreWires := ⟨true, true, true, false, true, false, false⟩

/-- The debug memory is the only one to see `debugaccess`. -/
def debugMemWires : CoreWires := ⟨true, true, true, true, false, true, false⟩

/-- The on-chip memory has no `read`: its output register follows the address whenever the clock is
    enabled. -/
def memoryWires : CoreWires := ⟨false, true, true, true, true, false, true⟩

/-- The translators in the order of their slaves. -/
def Slave.config : Slave → SlaveConfig :=
  ![⟨1, true, 0, 1, jtagUartWires⟩, ⟨1, false, 0, 1, readOnlyWires⟩,
    ⟨9, true, 0, 1, debugMemWires⟩, ⟨2, false, 0, 1, portWires⟩, ⟨16, false, 1, 0, memoryWires⟩,
    ⟨2, false, 0, 1, portWires⟩, ⟨2, false, 0, 1, readOnlyWires⟩, ⟨2, false, 0, 1, portWires⟩]

/-- `for (clog2_plusone = 0; i > 0; clog2_plusone = clog2_plusone + 1) i = i >> 1`. -/
def clog2PlusOneFrom : Nat → Nat → Nat
  | 0, _ => 0
  | fuel + 1, i => if i > 0 then clog2PlusOneFrom fuel (i / 2) + 1 else 0

/-- `clog2_plusone`. -/
def clog2PlusOne (depth : Nat) : Nat := clog2PlusOneFrom 32 depth

/-- `LOG2_OF_LATENCY_SUM`, where setup, write and hold cycles are zero. -/
def SlaveConfig.log2OfLatencySum (c : SlaveConfig) : Nat :=
  max (clog2PlusOne (c.readWaitCycles + 1)) (clog2PlusOne 1)

/-- What the agent keeps of a command that is answered. -/
structure Token where
  synthesis : Bool
  data : Packet
  startofpacket : Bool
  endofpacket : Bool
  deriving DecidableEq

/-- What a core drives. -/
structure AvSlave where
  readdata : BitVec 32
  waitrequest : Bool

/-- What a core sees; a wire that is left open has no value. -/
structure CoreBus where
  address : Nat
  read : Option Bool
  write : Option Bool
  writedata : Option (BitVec 32)
  byteenable : Option (BitVec 4)
  chipselect : Option Bool
  debugaccess : Option Bool
  clken : Option Bool
  deriving DecidableEq

/-- A signal on a wire that may be left open. -/
def wire {α : Type} (connected : Bool) (x : α) : Option α := if connected then some x else none

/-- A wire with a value carries the signal. -/
theorem eq_of_wire {α : Type} {connected : Bool} {x y : α} (h : wire connected x = some y) :
    x = y :=
  Option.some.inj (Option.ite_none_right_eq_some.mp h).2

/-- The registers of a slave's agent, of its response FIFO and of its translator. -/
structure SlaveSide where
  rspFifo : ScFifo Token 1
  uncompressor : Uncompressor
  waitLatencyCounter : Nat
  waitrequestResetOverride : Bool
  avReaddataPre : BitVec 32
  readLatencyShiftReg : Bool

/-- What a slave side sees during a cycle. -/
structure SlaveInput where
  cp : Beat
  rpReady : Bool
  av : AvSlave

namespace SlaveSide

def reset : SlaveSide where
  rspFifo := .reset ⟨false, .unpack 0, false, false⟩
  uncompressor := .reset
  waitLatencyCounter := 0
  waitrequestResetOverride := true
  avReaddataPre := 0
  readLatencyShiftReg := false

variable (c : SlaveConfig) (s : SlaveSide) (i : SlaveInput)

/-- The token in front. -/
def rfSink : Token := s.rspFifo.outPayload

/-- `uav_readdatavalid`. -/
def readdatavalid : Bool := s.readLatencyShiftReg

/-- The wires from the FIFO to the uncompressor; the FIFO waits for the word that was read. -/
def uncompressorInput (rpReady : Bool) : UncompressorInput where
  startofpacket := if s.rfSink.data.transWrite then true else s.rfSink.startofpacket
  endofpacket := s.rfSink.endofpacket
  valid := s.rspFifo.outValid && (s.readdatavalid || s.rfSink.synthesis)
  addr := s.rfSink.data.addr
  burstwrap := s.rfSink.data.burstwrap
  byteCnt := s.rfSink.data.byteCnt
  isCompressed := s.rfSink.data.transCompressedRead
  burstsize := s.rfSink.data.burstSize
  sourceReady := rpReady

/-- `rf_sink_ready`: the token is taken with its response. -/
def rfSinkReady (rpReady : Bool) : Bool := s.uncompressor.sinkReady (s.uncompressorInput rpReady)

/-- `ready_for_command`: there is room for a token. -/
def readyForCommand (rpReady : Bool) : Bool := s.rspFifo.inReady (s.rfSinkReady rpReady)

/-- `m0_read`. -/
def m0Read : Bool :=
  s.readyForCommand i.rpReady
    && ((i.cp.valid && i.cp.data.transCompressedRead) || (i.cp.valid && i.cp.data.transRead))

/-- `m0_write`. -/
def m0Write : Bool := s.readyForCommand i.rpReady && (i.cp.valid && i.cp.data.transWrite)

/-- The counter decides in a translator with wait cycles. -/
def avWaitrequestGenerated : Bool :=
  if c.log2OfLatencySum = 1 then false
  else if 1 < c.log2OfLatencySum ∧ c.useWaitrequest = false then
    if s.m0Write i then decide (s.waitLatencyCounter ≠ 0)
    else decide (s.waitLatencyCounter ≠ c.readWaitCycles)
  else true

/-- `uav_waitrequest`: the core's own, or the counter's, and the latter is high after reset. -/
def uavWaitrequest : Bool :=
  if c.useWaitrequest then i.av.waitrequest
  else s.avWaitrequestGenerated c i || s.waitrequestResetOverride

/-- `av_read`; with wait cycles it starts after those of the setup, of which there are none. -/
def avRead : Bool :=
  if 1 < c.log2OfLatencySum ∧ c.useWaitrequest = false then
    decide (0 ≤ s.waitLatencyCounter) && s.m0Read i
  else s.m0Read i

/-- `av_write`; with wait cycles it ends after those of a write, of which there are none. -/
def avWrite : Bool :=
  if 1 < c.log2OfLatencySum ∧ c.useWaitrequest = false then
    decide (0 ≤ s.waitLatencyCounter) && s.m0Write i && decide (s.waitLatencyCounter ≤ 0)
  else s.m0Write i

/-- The wires of the core; the clock of the memory is always enabled. -/
def coreBus : CoreBus where
  address := (((i.cp.data.addr >>> 2) <<< 2) >>> 2).toNat % 2 ^ c.addressW
  read := wire c.wires.read (s.avRead c i)
  write := wire c.wires.write (s.avWrite c i)
  writedata := wire c.wires.writedata i.cp.data.data
  byteenable := wire c.wires.byteenable i.cp.data.byteen
  chipselect := wire c.wires.chipselect (s.m0Read i || s.m0Write i)
  debugaccess := wire c.wires.debugaccess (i.cp.data.protection.getLsbD 0)
  clken := wire c.wires.clken true

/-- `cp_ready`. -/
def cpReady : Bool := !s.uavWaitrequest c i && s.readyForCommand i.rpReady

/-- `nonposted_write_endofpacket`: the end of a write that wants a response. -/
def nonpostedWriteEndofpacket (cp : Beat) : Bool :=
  !cp.data.transPosted && (cp.valid && cp.data.transWrite) && cp.endofpacket

/-- `rf_source_valid`: the command that is taken leaves a token. -/
def rfSourceValid : Bool :=
  ((i.cp.valid && i.cp.data.transRead) || (i.cp.valid && i.cp.data.transCompressedRead)
      || nonpostedWriteEndofpacket i.cp)
    && s.readyForCommand i.rpReady && s.cpReady c i

/-- `rf_source_data`: the command without its data. -/
def token (cp : Beat) : Token where
  synthesis := nonpostedWriteEndofpacket cp
  data := { cp.data with
    data := 0
    protection := (cp.data.protection.extractLsb' 0 1).setWidth 3 }
  startofpacket := cp.startofpacket
  endofpacket := cp.endofpacket

/-- `uav_readdata`: the word of the core, or that of the cycle before. -/
def uavReaddata (av : AvSlave) : BitVec 32 :=
  if c.readLatency ≠ 0 then av.readdata else s.avReaddataPre

/-- `rp_valid`. -/
def rpValid : Bool := s.readdatavalid || (s.uncompressorInput false).valid

/-- The response: the token with what was read, sent back. -/
def rpData (av : AvSlave) : Packet :=
  { s.rfSink.data with
    data := s.uavReaddata c av
    srcId := s.rfSink.data.destId
    destId := s.rfSink.data.srcId
    addr := s.uncompressor.sourceAddr (s.uncompressorInput false)
    byteCnt := s.uncompressor.sourceByteCnt (s.uncompressorInput false)
    transRead := s.rfSink.data.transRead || s.rfSink.data.transCompressedRead
    transCompressedRead := false
    responseStatus := 0 }

def rpStartofpacket : Bool := s.uncompressor.sourceStartofpacket (s.uncompressorInput false)

def rpEndofpacket : Bool := s.uncompressor.sourceEndofpacket (s.uncompressorInput false)

/-- What the response FIFO sees. -/
def rspFifoInput : FifoInput Token where
  inValid := s.rfSourceValid c i
  inPayload := token i.cp
  outReady := s.rfSinkReady i.rpReady

/-- One clock edge. -/
def posedge : SlaveSide where
  rspFifo := s.rspFifo.posedge (s.rspFifoInput c i)
  uncompressor := s.uncompressor.posedge (s.uncompressorInput i.rpReady)
  waitLatencyCounter :=
    if !s.uavWaitrequest c i || s.waitrequestResetOverride then 0
    else if s.m0Read i || s.m0Write i then
      (s.waitLatencyCounter + 1) % 2 ^ c.log2OfLatencySum
    else 0
  waitrequestResetOverride := false
  avReaddataPre := i.av.readdata
  readLatencyShiftReg :=
    s.m0Read i && !s.uavWaitrequest c i && !s.waitrequestResetOverride

/-! ## Timing -/

section Timing

variable {c : SlaveConfig} {s : SlaveSide} {i : SlaveInput}

/-- The read strobe is the command's. -/
theorem avRead_eq : s.avRead c i = s.m0Read i := by
  rw [avRead, decide_eq_true (Nat.zero_le _), Bool.true_and, ite_self]

/-- A write that is accepted is on the wires. -/
theorem avWrite_eq (h : s.uavWaitrequest c i = false) : s.avWrite c i = s.m0Write i := by
  rw [avWrite]
  split
  · rename_i hwait
    rw [decide_eq_true (Nat.zero_le _), Bool.true_and]
    cases hw : s.m0Write i with
    | false => rfl
    | true =>
      rw [uavWaitrequest, hwait.2, if_neg Bool.false_ne_true, Bool.or_eq_false_iff,
        avWaitrequestGenerated, if_neg (Nat.ne_of_gt hwait.1), if_pos hwait, if_pos hw] at h
      have hcounter : s.waitLatencyCounter = 0 := not_not.mp (of_decide_eq_false h.1)
      rw [hcounter]
      rfl
  · rfl

theorem log2OfLatencySum_pos (c : SlaveConfig) : 1 ≤ c.log2OfLatencySum :=
  Nat.le_trans (by decide : 1 ≤ clog2PlusOne 1) (Nat.le_max_right _ _)

/-- **A core without waitrequest sees a write only in the cycle in which it is accepted.** -/
theorem accepted_of_avWrite (hwait : c.useWaitrequest = false)
    (hoverride : s.waitrequestResetOverride = false) (hw : s.avWrite c i = true) :
    s.uavWaitrequest c i = false := by
  rw [uavWaitrequest, hwait, if_neg Bool.false_ne_true, hoverride, Bool.or_false,
    avWaitrequestGenerated]
  by_cases hlog : c.log2OfLatencySum = 1
  · rw [if_pos hlog]
  · have hlong : 1 < c.log2OfLatencySum ∧ c.useWaitrequest = false :=
      ⟨Nat.lt_of_le_of_ne (log2OfLatencySum_pos c) (Ne.symm hlog), hwait⟩
    rw [avWrite, if_pos hlong, Bool.and_eq_true, Bool.and_eq_true, decide_eq_true_eq,
      decide_eq_true_eq] at hw
    rw [if_neg hlog, if_pos hlong, if_pos hw.1.2, Nat.le_zero.mp hw.2]
    rfl

end Timing

/-! ## The invariant -/

variable {c : SlaveConfig} {s : SlaveSide} {i : SlaveInput} {o : Option Token}

/-- The read accepted in the cycle before waits for its response. -/
structure Inv (s : SlaveSide) (o : Option Token) : Prop where
  fifo : s.rspFifo.Holds o.toList
  idle : s.uncompressor.busy = false
  shift : s.readLatencyShiftReg = o.isSome
  single : ∀ t, o = some t → t.synthesis = false ∧ t.data.transCompressedRead = false

/-- Nothing waits after reset. -/
theorem inv_reset : Inv reset none where
  fifo := ScFifo.holds_reset _
  idle := rfl
  shift := rfl
  single := fun _ h => absurd h.symm (Option.some_ne_none _)

/-- The commands of the masters: single beats, and no response to a write. -/
structure Plain (cp : Beat) : Prop where
  single : cp.data.transCompressedRead = false
  posted : cp.data.transWrite = true → cp.data.transPosted = true

/-- Such a command leaves no token for a write. -/
theorem Plain.nonposted (h : Plain i.cp) : nonpostedWriteEndofpacket i.cp = false := by
  rw [nonpostedWriteEndofpacket]
  cases hw : i.cp.data.transWrite with
  | false => rw [Bool.and_false, Bool.and_false, Bool.false_and]
  | true => rw [h.posted hw, Bool.not_true, Bool.false_and, Bool.false_and]

namespace Inv

/-- Of two slots at most one is taken. -/
theorem ready (h : Inv s o) (rpReady : Bool) : s.readyForCommand rpReady = true := by
  refine (h.fifo.inReady_iff _).mpr (Or.inl ?_)
  cases o with
  | none => exact Nat.zero_lt_two
  | some t => exact Nat.one_lt_two

/-- The FIFO shows a token exactly when a read waits. -/
theorem outValid (h : Inv s o) : s.rspFifo.outValid = o.isSome := by
  rw [h.fifo.outValid_eq]
  cases o <;> rfl

/-- It is the token of this read. -/
theorem rfSink_eq {t : Token} (h : Inv s (some t)) : s.rfSink = t :=
  (Option.some.inj (h.fifo.outPayload_eq (List.cons_ne_nil t []))).symm

/-- The word is there in the cycle in which the read waits. -/
theorem valid_eq (h : Inv s o) (rpReady : Bool) :
    (s.uncompressorInput rpReady).valid = o.isSome := by
  show (s.rspFifo.outValid && (s.readLatencyShiftReg || _)) = _
  rw [h.outValid, h.shift]
  cases o <;> rfl

theorem rpValid_eq (h : Inv s o) : s.rpValid = o.isSome := by
  rw [rpValid, h.valid_eq, readdatavalid, h.shift, Bool.or_self]

/-- **The response** to the read is the token with the word. -/
theorem rp_eq {t : Token} (h : Inv s (some t)) (av : AvSlave) :
    s.rpData c av = { t.data with
      data := s.uavReaddata c av
      srcId := t.data.destId
      destId := t.data.srcId
      responseStatus := 0 } := by
  have hfirst : s.uncompressor.firstPacketBeat (s.uncompressorInput false) = true := by
    rw [Uncompressor.firstPacketBeat, h.valid_eq, h.idle]
    rfl
  have hsingle := (h.single t rfl).2
  rw [rpData, Uncompressor.sourceAddr, Uncompressor.sourceByteCnt, if_pos hfirst, if_pos hfirst]
  simp only [uncompressorInput, h.rfSink_eq, hsingle, Bool.or_false]

/-- The response is a single beat. -/
theorem last (h : Inv s o) (rpReady : Bool) (ho : o.isSome = true) :
    s.uncompressor.lastPacketBeat (s.uncompressorInput rpReady) = true := by
  obtain ⟨t, rfl⟩ := Option.isSome_iff_exists.mp ho
  rw [Uncompressor.lastPacketBeat]
  simp only [uncompressorInput, h.rfSink_eq, (h.single t rfl).2, Bool.not_false, Bool.true_or]

theorem rpEndofpacket_eq {t : Token} (h : Inv s (some t)) : s.rpEndofpacket = t.endofpacket := by
  rw [rpEndofpacket, Uncompressor.sourceEndofpacket, h.last false rfl, Bool.and_true]
  exact congrArg Token.endofpacket h.rfSink_eq

/-- A response that is taken takes its token along. -/
theorem rfSinkReady_eq (h : Inv s o) {rpReady : Bool} (hrp : o.isSome = true → rpReady = true) :
    s.rfSinkReady rpReady = o.isSome := by
  rw [rfSinkReady, Uncompressor.sinkReady, h.valid_eq]
  cases ho : o.isSome with
  | false => rw [Bool.false_and, Bool.false_and]
  | true =>
    rw [h.last rpReady ho]
    show (true && rpReady && true) = true
    rw [hrp ho]
    rfl

/-- The core sees the commands as the network shows them: reads, -/
theorem m0Read_eq (h : Inv s o) (hp : Plain i.cp) :
    s.m0Read i = (i.cp.valid && i.cp.data.transRead) := by
  rw [m0Read, h.ready, hp.single, Bool.and_false, Bool.false_or, Bool.true_and]

/-- and writes. -/
theorem m0Write_eq (h : Inv s o) : s.m0Write i = (i.cp.valid && i.cp.data.transWrite) := by
  rw [m0Write, h.ready, Bool.true_and]

/-- A command is taken as soon as the core does not wait. -/
theorem cpReady_eq (h : Inv s o) : s.cpReady c i = !s.uavWaitrequest c i := by
  rw [cpReady, h.ready, Bool.and_true]

/-- A read is accepted in this cycle. -/
theorem rfSourceValid_eq (h : Inv s o) (hp : Plain i.cp) :
    s.rfSourceValid c i
      = (i.cp.valid && i.cp.data.transRead && !s.uavWaitrequest c i) := by
  rw [rfSourceValid, hp.single, hp.nonposted, h.ready, h.cpReady_eq, Bool.and_false, Bool.or_false,
    Bool.or_false, Bool.and_true]

/-- **The edge** turns the read that is accepted into the one that waits. -/
theorem posedge (h : Inv s o) (hp : Plain i.cp) (hrp : o.isSome = true → i.rpReady = true)
    (hoverride : s.waitrequestResetOverride = true → i.cp.valid = false) :
    Inv (s.posedge c i)
      (if i.cp.valid && i.cp.data.transRead && !s.uavWaitrequest c i then some (token i.cp)
        else none) := by
  have hsource := h.rfSourceValid_eq (c := c) hp
  refine ⟨?_, ?_, ?_, fun t ht => ?_⟩
  · have hwrite : s.rspFifo.write (s.rspFifoInput c i) = s.rfSourceValid c i := by
      have hready : s.rspFifo.inReady (s.rfSinkReady i.rpReady) = true := h.ready i.rpReady
      show (s.rspFifo.inReady (s.rfSinkReady i.rpReady) && s.rfSourceValid c i) = _
      rw [hready, Bool.true_and]
    have hread : s.rspFifo.read (s.rspFifoInput c i).outReady = o.isSome := by
      show s.rspFifo.read (s.rfSinkReady i.rpReady) = _
      rw [h.fifo.read_eq, h.rfSinkReady_eq hrp]
      cases o <;> rfl
    have hafter : s.rspFifo.after (s.rspFifoInput c i) o.toList
        = (if i.cp.valid && i.cp.data.transRead && !s.uavWaitrequest c i then some (token i.cp)
          else none).toList := by
      have hempty : (if o.isSome then o.toList.tail else o.toList) = [] := by cases o <;> rfl
      rw [ScFifo.after, hwrite, hread, hsource, hempty, List.nil_append]
      split <;> rfl
    exact hafter ▸ h.fifo.posedge
  · show (if (s.uncompressorInput i.rpReady).valid && i.rpReady then
      if s.uncompressor.lastPacketBeat (s.uncompressorInput i.rpReady) then false else true
      else s.uncompressor.busy) = false
    rw [h.valid_eq, h.idle]
    cases ho : o.isSome with
    | false => rw [Bool.false_and, if_neg Bool.false_ne_true]
    | true => rw [h.last i.rpReady ho, if_pos rfl, ite_self]
  · show (s.m0Read i && !s.uavWaitrequest c i && !s.waitrequestResetOverride) = _
    rw [h.m0Read_eq hp]
    cases ho : s.waitrequestResetOverride with
    | false =>
      rw [Bool.not_false, Bool.and_true]
      cases i.cp.valid && i.cp.data.transRead && !s.uavWaitrequest c i <;> rfl
    | true => rw [hoverride ho, Bool.false_and, Bool.false_and, Bool.false_and,
        if_neg Bool.false_ne_true, Option.isSome_none]
  · obtain ⟨_, htoken⟩ := Option.ite_none_right_eq_some.mp ht
    obtain rfl := Option.some.inj htoken
    exact ⟨hp.nonposted, hp.single⟩

end Inv

end SlaveSide

end GpsReceiver.Interconnect
