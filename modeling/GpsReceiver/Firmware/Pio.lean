/-
  The parallel I/O cores of the processor system, and the data bus they are on.

  1. **Data** — `Bus`, the signals a core sees in one clock cycle; the registers of each core.
  2. **Cores** — one definition for each `always` block and each `assign` of
     `nios_cpu_led_green.v`, `nios_cpu_led_red.v`, `nios_cpu_switches.v` and
     `nios_cpu_push_btns.v`.  The two LED cores differ only in their width.
  3. **Board** — the four cores at their base addresses; one cycle of the board is one access of
     the processor, or none.
  4. **Frame** — what a read returns and what a write changes: a read changes neither an output
     register nor the mask, and a write to a data register never changes the mask.
-/

namespace GpsReceiver.Firmware

/-! ## The cores -/

/-- The signals at a core's slave port during one clock cycle. -/
structure Bus where
  address : BitVec 2
  chipselect : Bool
  writeN : Bool
  writedata : BitVec 32

/-- The condition under which a core stores `writedata` in the register at address `a`. -/
def Bus.writes (bus : Bus) (a : BitVec 2) : Bool :=
  bus.chipselect && !bus.writeN && bus.address == a

/-- An output core: one register of `w` bits. -/
structure OutPio (w : Nat) where
  dataOut : BitVec w

namespace OutPio

variable {w : Nat}

/-- The register after `reset_n` was low. -/
def reset : OutPio w := { dataOut := 0 }

/-- A rising clock edge. -/
def posedge (r : OutPio w) (bus : Bus) : OutPio w :=
  if bus.writes 0 then { dataOut := bus.writedata.setWidth w } else r

/-- `readdata`, a combinational output. -/
def readdata (r : OutPio w) (address : BitVec 2) : BitVec 32 :=
  (if address = 0 then r.dataOut else 0).setWidth 32

end OutPio

/-- `nios_cpu_led_green`. -/
abbrev LedGreen := OutPio 8

/-- `nios_cpu_led_red`. -/
abbrev LedRed := OutPio 18

/-- `nios_cpu_switches`. -/
structure Switches where
  readdata : BitVec 32

namespace Switches

def reset : Switches := { readdata := 0 }

def readMuxOut (address : BitVec 2) (inPort : BitVec 18) : BitVec 18 :=
  if address = 0 then inPort else 0

/-- A rising clock edge; there is nothing to write. -/
def posedge (bus : Bus) (inPort : BitVec 18) : Switches :=
  { readdata := (readMuxOut bus.address inPort).setWidth 32 }

end Switches

/-- `nios_cpu_push_btns`. -/
structure PushBtns where
  readdata : BitVec 32
  irqMask : BitVec 4

namespace PushBtns

def reset : PushBtns := { readdata := 0, irqMask := 0 }

def readMuxOut (r : PushBtns) (address : BitVec 2) (inPort : BitVec 4) : BitVec 4 :=
  (if address = 0 then inPort else 0) ||| (if address = 2 then r.irqMask else 0)

/-- A rising clock edge. -/
def posedge (r : PushBtns) (bus : Bus) (inPort : BitVec 4) : PushBtns where
  readdata := (r.readMuxOut bus.address inPort).setWidth 32
  irqMask := if bus.writes 2 then bus.writedata.setWidth 4 else r.irqMask

/-- `irq`: some button is pressed and not masked. -/
def irq (r : PushBtns) (inPort : BitVec 4) : Bool := inPort &&& r.irqMask != 0

/-- With an empty mask the line never rises. -/
theorem irq_of_irqMask {r : PushBtns} (h : r.irqMask = 0) (inPort : BitVec 4) :
    r.irq inPort = false := by
  rw [irq, h]
  simp

end PushBtns

/-! ## The board -/

def pushBtnsBase : Nat := 0x81000
def switchesBase : Nat := 0x81010
def ledRedBase : Nat := 0x81020
def ledGreenBase : Nat := 0x81030

/-- What the processor does on its data bus in one clock cycle. -/
inductive Access
  | idle
  | read (addr : Nat)
  | write (addr : Nat) (data : BitVec 32)

/-- The register of a core that an address selects: cores span 16 bytes, registers 4. -/
def registerOf (addr : Nat) : BitVec 2 := BitVec.ofNat 2 (addr / 4)

/-- The core at `base` is addressed. -/
def selects (addr base : Nat) : Bool := addr / 16 == base / 16

/-- The signals the interconnect drives at the core at `base`. -/
def Access.bus (base : Nat) : Access → Bus
  | .idle => { address := 0, chipselect := false, writeN := true, writedata := 0 }
  | .read addr =>
    { address := registerOf addr, chipselect := selects addr base, writeN := true, writedata := 0 }
  | .write addr data =>
    { address := registerOf addr, chipselect := selects addr base, writeN := false,
      writedata := data }

/-- The input pins. -/
structure Pins where
  pushBtns : BitVec 4
  switches : BitVec 18

structure Board where
  pushBtns : PushBtns
  switches : Switches
  ledRed : LedRed
  ledGreen : LedGreen

namespace Board

def reset : Board :=
  { pushBtns := .reset, switches := .reset, ledRed := .reset, ledGreen := .reset }

/-- A rising clock edge of the whole board. -/
def posedge (b : Board) (a : Access) (pins : Pins) : Board where
  pushBtns := b.pushBtns.posedge (a.bus pushBtnsBase) pins.pushBtns
  switches := .posedge (a.bus switchesBase) pins.switches
  ledRed := b.ledRed.posedge (a.bus ledRedBase)
  ledGreen := b.ledGreen.posedge (a.bus ledGreenBase)

/-- The word the interconnect returns for a read of `addr`. -/
def readdata (b : Board) (addr : Nat) : BitVec 32 :=
  if selects addr pushBtnsBase then b.pushBtns.readdata
  else if selects addr switchesBase then b.switches.readdata
  else if selects addr ledRedBase then b.ledRed.readdata (registerOf addr)
  else if selects addr ledGreenBase then b.ledGreen.readdata (registerOf addr)
  else 0

/-- `IORD(base, regnum)`. -/
def iord (base regnum : Nat) (pins : Pins) (b : Board) : BitVec 32 × Board :=
  let b' := b.posedge (.read (base + regnum * 4)) pins
  (b'.readdata (base + regnum * 4), b')

/-- `IOWR(base, regnum, data)`. -/
def iowr (base regnum : Nat) (data : BitVec 32) (pins : Pins) (b : Board) : Board :=
  b.posedge (.write (base + regnum * 4) data) pins

/-- `IORD_ALTERA_AVALON_PIO_DATA(base)`. -/
def iordPioData (base : Nat) : Pins → Board → BitVec 32 × Board := iord base 0

/-- `IOWR_ALTERA_AVALON_PIO_DATA(base, data)`. -/
def iowrPioData (base : Nat) : BitVec 32 → Pins → Board → Board := iowr base 0

/-! ## Frame -/

/-- A read leaves every output register and the mask as they are. -/
theorem writes_read (base addr : Nat) (a : BitVec 2) :
    ((Access.read addr).bus base).writes a = false := by
  simp [Access.bus, Bus.writes]

@[simp] theorem iord_ledGreen (base regnum : Nat) (pins : Pins) (b : Board) :
    (iord base regnum pins b).2.ledGreen = b.ledGreen := by
  simp [iord, posedge, OutPio.posedge, writes_read]

@[simp] theorem iord_irqMask (base regnum : Nat) (pins : Pins) (b : Board) :
    (iord base regnum pins b).2.pushBtns.irqMask = b.pushBtns.irqMask := by
  simp [iord, posedge, PushBtns.posedge, writes_read]

@[simp] theorem posedge_idle_irqMask (pins : Pins) (b : Board) :
    (b.posedge .idle pins).pushBtns.irqMask = b.pushBtns.irqMask := rfl

/-- A write to a data register changes no mask, whichever core it goes to. -/
@[simp] theorem iowrPioData_irqMask {base : Nat} (hbase : registerOf base = 0) (data : BitVec 32)
    (pins : Pins) (b : Board) :
    (iowrPioData base data pins b).pushBtns.irqMask = b.pushBtns.irqMask := by
  simp [iowrPioData, iowr, posedge, PushBtns.posedge, Access.bus, Bus.writes, hbase]

/-- Reading the button core returns the pins. -/
theorem iordPioData_pushBtns (pins : Pins) (b : Board) :
    (iordPioData pushBtnsBase pins b).1 = pins.pushBtns.setWidth 32 := by
  have hreg : registerOf pushBtnsBase = 0 := rfl
  have hsel : selects pushBtnsBase pushBtnsBase = true := rfl
  simp [iordPioData, iord, posedge, readdata, PushBtns.posedge, PushBtns.readMuxOut, Access.bus,
    hreg, hsel]

/-- Reading the green LEDs returns their register. -/
theorem iordPioData_ledGreen (pins : Pins) (b : Board) :
    (iordPioData ledGreenBase pins b).1 = b.ledGreen.dataOut.setWidth 32 := by
  have hreg : registerOf ledGreenBase = 0 := rfl
  have hbtn : selects ledGreenBase pushBtnsBase = false := rfl
  have hsw : selects ledGreenBase switchesBase = false := rfl
  have hred : selects ledGreenBase ledRedBase = false := rfl
  have hgreen : selects ledGreenBase ledGreenBase = true := rfl
  show readdata (iord ledGreenBase 0 pins b).2 ledGreenBase = _
  simp [readdata, OutPio.readdata, hreg, hbtn, hsw, hred, hgreen]

/-- Writing the green LEDs keeps the low eight bits. -/
theorem iowrPioData_ledGreen (data : BitVec 32) (pins : Pins) (b : Board) :
    (iowrPioData ledGreenBase data pins b).ledGreen = { dataOut := data.setWidth 8 } := rfl

/-- Writing the red LEDs leaves the green ones. -/
theorem iowrPioData_ledRed (data : BitVec 32) (pins : Pins) (b : Board) :
    (iowrPioData ledRedBase data pins b).ledGreen = b.ledGreen := rfl

end Board

end GpsReceiver.Firmware
