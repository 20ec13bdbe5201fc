/-
  `nios_cpu_jtag_uart.v` — the JTAG UART, the console of the processor system.

  1. **Data** — `Scfifo`, what the core relies on of the FIFO megafunction it instantiates twice;
     `Jtag` and `Avalon`, the signals on both sides of the core in one clock cycle.
  2. **Core** — `posedge` is the `always` blocks, `readdata` and `irq` the outputs.  `Host` is what
     the other end of the cable has received, and which of its characters the core took.
  3. **Access** — the processor holds an access for two cycles, the first with `av_waitrequest`
     high; `access` is those two cycles, with any signals from the host in each.
  4. **Words** — `control_word` and `data_word`: the masks of `altera_avalon_jtag_uart_regs.h` read
     the fields the core packs.
  5. **Laws** — characters neither get lost nor change order in the core: `toHost` lists those that
     have left the processor, `Feeds` relates those from the host.  `idle_law` and `access_law`
     say what a cycle without access and an access do, `readControl_law` and `readData_law` what
     the values read are worth.
-/
import Mathlib.Data.List.Basic

namespace GpsReceiver.Firmware.JtagUart

/-- A character. -/
abbrev Byte := BitVec 8

/-! ## The FIFO megafunction -/

/-- `scfifo` with 64 words of eight bits, show-ahead, overflow and underflow checking off: `words`
    are the words it holds, oldest first.  The laws assume that it is not written while full nor
    read while empty; a read word is at the output `q` from the next cycle on. -/
structure Scfifo where
  State : Type
  aclr : State
  clock : State → Option Byte → Bool → State
  q : State → Byte
  empty : State → Bool
  full : State → Bool
  usedw : State → BitVec 6
  words : State → List Byte
  words_aclr : words aclr = []
  words_le : ∀ s, (words s).length ≤ 64
  words_clock : ∀ s w r, (w.isSome → (words s).length < 64) → (r = true → words s ≠ []) →
    words (clock s w r) = (if r then (words s).tail else words s) ++ w.toList
  q_clock : ∀ s w b bs, words s = b :: bs → q (clock s w true) = b
  empty_iff : ∀ s, empty s = true ↔ words s = []
  full_iff : ∀ s, full s = true ↔ (words s).length = 64
  usedw_eq : ∀ s, (usedw s).toNat = (words s).length % 64

/-- A FIFO that keeps its words in a list, and the word read last. -/
def listFifo : Scfifo where
  State := { s : List Byte × Byte // s.1.length ≤ 64 }
  aclr := ⟨([], 0), Nat.zero_le 64⟩
  clock s w r :=
    ⟨(((if r then s.1.1.tail else s.1.1) ++ w.toList).take 64,
      if r then s.1.1.headD s.1.2 else s.1.2), List.length_take_le 64 _⟩
  q s := s.1.2
  empty s := s.1.1.isEmpty
  full s := s.1.1.length == 64
  usedw s := BitVec.ofNat 6 s.1.1.length
  words s := s.1.1
  words_aclr := rfl
  words_le s := s.2
  words_clock s w r hw hr := by
    refine List.take_of_length_le ?_
    have hs := s.2
    cases w with
    | none => cases r <;> simp <;> omega
    | some b =>
      have hlt := hw rfl
      cases r <;> simp <;> omega
  q_clock s w b bs h := by
    show s.1.1.headD s.1.2 = b
    rw [h]
    rfl
  empty_iff s := List.isEmpty_iff
  full_iff s := beq_iff_eq
  usedw_eq s := BitVec.toNat_ofNat _ _

/-! ## The core -/

/-- The signals from the JTAG side in one clock cycle. -/
structure Jtag where
  rEna : Bool
  tEna : Bool
  tDat : Byte
  tPause : Bool

/-- The signals from the data bus in one clock cycle; address one is the control register. -/
structure Avalon where
  address : Bool
  chipselect : Bool
  read : Bool
  write : Bool
  writedata : BitVec 32

/-- The registers of the core and its two FIFOs.  `ienAE`, `ienAF` enable the interrupts for an
    almost empty write FIFO and an almost full read FIFO. -/
structure Core (Q : Scfifo) where
  ac : Bool
  fifoAE : Bool
  fifoAF : Bool
  fifoWr : Bool
  ienAE : Bool
  ienAF : Bool
  pauseIrq : Bool
  rVal : Bool
  read0 : Bool
  rvalid : Bool
  woverflow : Bool
  avWaitrequest : Bool
  wfifo : Q.State
  rfifo : Q.State

namespace Core

variable {Q : Scfifo}

/-- The registers after `rst_n` was low. -/
def reset : Core Q where
  ac := false
  fifoAE := false
  fifoAF := false
  fifoWr := false
  ienAE := false
  ienAF := false
  pauseIrq := false
  rVal := false
  read0 := false
  rvalid := false
  woverflow := false
  avWaitrequest := true
  wfifo := Q.aclr
  rfifo := Q.aclr

/-- `{full, used}`: the number of words in a FIFO. -/
def count (s : Q.State) : BitVec 7 := BitVec.ofBool (Q.full s) ++ Q.usedw s

/-- The condition under which an access acts on the registers. -/
def acts (d : Core Q) (bus : Avalon) (strobe address : Bool) : Bool :=
  bus.chipselect && strobe && d.avWaitrequest && (bus.address == address)

/-- A rising clock edge. -/
def posedge (d : Core Q) (bus : Avalon) (j : Jtag) : Core Q :=
  let activity := j.tPause || j.tEna
  let fifoEF := Q.empty d.rfifo
  let rd := j.rEna && !Q.empty d.wfifo
  let writesControl := d.acts bus bus.write true
  let writesData := d.acts bus bus.write false
  let readsData := d.acts bus bus.read false
  { ac := if writesControl && bus.writedata.getLsbD 10 && !activity then false else activity || d.ac
    fifoAE := count d.wfifo ≤ 8
    fifoAF := 0x40 - count d.rfifo ≤ 8
    fifoWr := writesData && !Q.full d.wfifo
    ienAE := if writesControl then bus.writedata.getLsbD 1 else d.ienAE
    ienAF := if writesControl then bus.writedata.getLsbD 0 else d.ienAF
    pauseIrq := if j.tPause && !fifoEF then true else if d.read0 then false else d.pauseIrq
    rVal := rd
    read0 := readsData
    rvalid := if readsData then !fifoEF else d.rvalid
    woverflow := if writesData then Q.full d.wfifo else d.woverflow
    avWaitrequest := !(bus.chipselect && (bus.write || bus.read) && d.avWaitrequest)
    wfifo := Q.clock d.wfifo (if d.fifoWr then some (bus.writedata.setWidth 8) else none) rd
    rfifo := Q.clock d.rfifo (if j.tEna && !Q.full d.rfifo then some j.tDat else none)
      (readsData && !fifoEF) }

/-- `ipen_AE`. -/
def ipenAE (d : Core Q) : Bool := d.ienAE && d.fifoAE

/-- `ipen_AF`. -/
def ipenAF (d : Core Q) : Bool := d.ienAF && (d.pauseIrq || d.fifoAF)

/-- `av_irq`. -/
def irq (d : Core Q) : Bool := d.ipenAE || d.ipenAF

/-- Bits 15 to 8 of both registers. -/
def status (d : Core Q) : Byte :=
  BitVec.ofBool d.rvalid ++ BitVec.ofBool d.woverflow ++ BitVec.ofBool (!Q.full d.wfifo)
    ++ BitVec.ofBool (!Q.empty d.rfifo) ++ BitVec.ofBool false ++ BitVec.ofBool d.ac
    ++ BitVec.ofBool d.ipenAE ++ BitVec.ofBool d.ipenAF

/-- `av_readdata`. -/
def readdata (d : Core Q) : BitVec 32 :=
  if d.read0 then (0#9 ++ count d.rfifo) ++ (d.status ++ Q.q d.rfifo)
  else (0#9 ++ (0x40 - count d.wfifo))
    ++ (d.status ++ (0#6 ++ BitVec.ofBool d.ienAE ++ BitVec.ofBool d.ienAF))

end Core

/-! ## Both ends of the cable -/

/-- What the host has received, and of what it has offered the characters that the core took. -/
structure Host where
  received : List Byte
  admitted : List Byte

/-- The core and the host. -/
structure Uart (Q : Scfifo) where
  core : Core Q
  host : Host

/-- An access of the processor. -/
inductive Op
  | readData
  | readControl
  | writeData (v : BitVec 32)
  | writeControl (v : BitVec 32)

namespace Op

/-- The bus during the access. -/
def bus : Op → Avalon
  | .readData => { address := false, chipselect := true, read := true, write := false,
                   writedata := 0 }
  | .readControl => { address := true, chipselect := true, read := true, write := false,
                      writedata := 0 }
  | .writeData v => { address := false, chipselect := true, read := false, write := true,
                      writedata := v }
  | .writeControl v => { address := true, chipselect := true, read := false, write := true,
                         writedata := v }

/-- The characters it sends, whether it takes one, and the enables it leaves. -/
def sent : Op → List Byte
  | .writeData v => [v.setWidth 8]
  | _ => []

def takes : Op → Bool
  | .readData => true
  | _ => false

def ienAF (op : Op) (ien : Bool) : Bool :=
  match op with
  | .writeControl v => v.getLsbD 0
  | _ => ien

def ienAE (op : Op) (ien : Bool) : Bool :=
  match op with
  | .writeControl v => v.getLsbD 1
  | _ => ien

end Op

/-- The bus without an access. -/
def idleBus : Avalon :=
  { address := false, chipselect := false, read := false, write := false, writedata := 0 }

namespace Uart

variable {Q : Scfifo}

/-- After reset, before the host has offered anything. -/
def reset : Uart Q := { core := .reset, host := { received := [], admitted := [] } }

/-- A clock cycle: while `r_val` is high the host takes `r_dat`, and while `t_ena` is high and the
    read FIFO not full the core takes `t_dat`. -/
def posedge (u : Uart Q) (bus : Avalon) (j : Jtag) : Uart Q where
  core := u.core.posedge bus j
  host :=
    { received := u.host.received ++ if u.core.rVal then [Q.q u.core.wfifo] else []
      admitted := u.host.admitted ++ if j.tEna && !Q.full u.core.rfifo then [j.tDat] else [] }

/-- The two cycles of an access, and the value on the bus in the second. -/
def access (u : Uart Q) (op : Op) (j j' : Jtag) : BitVec 32 × Uart Q :=
  let u' := u.posedge op.bus j
  (u'.core.readdata, u'.posedge op.bus j')

end Uart

/-! ## Words -/

/-- `ALTERA_AVALON_JTAG_UART_CONTROL_RE_MSK` and the other masks of the two registers. -/
def reMsk : BitVec 32 := 0x00000001
def weMsk : BitVec 32 := 0x00000002
def riMsk : BitVec 32 := 0x00000100
def wiMsk : BitVec 32 := 0x00000200
def wspaceMsk : BitVec 32 := 0xFFFF0000
def wspaceOfst : Nat := 16
def dataMsk : BitVec 32 := 0x000000FF
def rvalidMsk : BitVec 32 := 0x00008000
def ravailMsk : BitVec 32 := 0xFFFF0000
def ravailOfst : Nat := 16

/-- What setting and clearing the enables does to the two bits. -/
theorem or_reMsk_zero (x : BitVec 32) : (x ||| reMsk).getLsbD 0 = true := by
  rw [BitVec.getLsbD_or, Bool.or_eq_true]
  exact Or.inr (by decide)

theorem or_weMsk_one (x : BitVec 32) : (x ||| weMsk).getLsbD 1 = true := by
  rw [BitVec.getLsbD_or, Bool.or_eq_true]
  exact Or.inr (by decide)

theorem and_not_reMsk_zero (x : BitVec 32) : (x &&& ~~~reMsk).getLsbD 0 = false := by
  rw [BitVec.getLsbD_and, show (~~~reMsk).getLsbD 0 = false by decide, Bool.and_false]

theorem and_not_weMsk_one (x : BitVec 32) : (x &&& ~~~weMsk).getLsbD 1 = false := by
  rw [BitVec.getLsbD_and, show (~~~weMsk).getLsbD 1 = false by decide, Bool.and_false]

theorem or_weMsk_zero (x : BitVec 32) : (x ||| weMsk).getLsbD 0 = x.getLsbD 0 := by
  rw [BitVec.getLsbD_or, show weMsk.getLsbD 0 = false by decide, Bool.or_false]

theorem or_reMsk_one (x : BitVec 32) : (x ||| reMsk).getLsbD 1 = x.getLsbD 1 := by
  rw [BitVec.getLsbD_or, show reMsk.getLsbD 1 = false by decide, Bool.or_false]

theorem and_not_weMsk_zero (x : BitVec 32) : (x &&& ~~~weMsk).getLsbD 0 = x.getLsbD 0 := by
  rw [BitVec.getLsbD_and, show (~~~weMsk).getLsbD 0 = true by decide, Bool.and_true]

theorem and_not_reMsk_one (x : BitVec 32) : (x &&& ~~~reMsk).getLsbD 1 = x.getLsbD 1 := by
  rw [BitVec.getLsbD_and, show (~~~reMsk).getLsbD 1 = true by decide, Bool.and_true]

/-- Masking a single bit tests it. -/
theorem and_twoPow_ne_zero_iff {w : Nat} (x : BitVec w) {i : Nat} (hi : i < w) :
    x &&& BitVec.twoPow w i ≠ 0 ↔ x.getLsbD i = true := by
  have hne : BitVec.twoPow w i ≠ 0#w := by
    intro h
    have hbit : (BitVec.twoPow w i).getLsbD i = true := by simp [hi]
    rw [h] at hbit
    simp at hbit
  rw [BitVec.and_twoPow]
  cases h : x.getLsbD i
  · simp
  · simpa using hne

/-- The upper half of a word, masked and shifted down. -/
theorem upper_half (hi lo : BitVec 16) :
    (((hi ++ lo : BitVec 32) &&& 0xFFFF0000) >>> 16).toNat = hi.toNat := by
  have hmask : (0xFFFF0000 : BitVec 32) = (BitVec.allOnes 16 ++ 0#16 : BitVec 32) := by decide
  have hlt := hi.isLt
  rw [hmask, BitVec.and_append, BitVec.and_allOnes, BitVec.and_zero, BitVec.toNat_ushiftRight,
    BitVec.toNat_append]
  simp only [BitVec.toNat_ofNat, Nat.zero_mod, Nat.or_zero, Nat.shiftLeft_shiftRight]

/-- It is zero exactly when nothing is left of the word under the mask. -/
theorem upper_half_eq_zero_iff (hi lo : BitVec 16) :
    (hi ++ lo : BitVec 32) &&& 0xFFFF0000 = 0 ↔ hi = 0 := by
  have hmask : (0xFFFF0000 : BitVec 32) = (BitVec.allOnes 16 ++ 0#16 : BitVec 32) := by decide
  rw [hmask, BitVec.and_append, BitVec.and_allOnes, BitVec.and_zero]
  constructor
  · intro h
    have h := congrArg (BitVec.extractLsb' 16 16) h
    rwa [BitVec.extractLsb'_append_eq_left] at h
  · rintro rfl
    decide

/-- The lowest byte of a word. -/
theorem lowest_byte (hi : BitVec 16) (mid lo : Byte) :
    ((hi ++ (mid ++ lo) : BitVec 32) &&& 0x000000FF).setWidth 8 = lo := by
  apply BitVec.eq_of_getLsbD_eq
  intro i hi
  have hmask : ∀ i < 8, (0x000000FF : BitVec 32).getLsbD i = true := by decide
  rw [BitVec.getLsbD_setWidth, BitVec.getLsbD_and, hmask i hi, BitVec.getLsbD_append,
    if_pos (by omega), BitVec.getLsbD_append, if_pos hi, Bool.and_true]
  simp [hi]

/-- A bit of the byte above it. -/
theorem middle_bit (hi : BitVec 16) (mid lo : Byte) {k : Nat} (hk : k < 8) :
    (hi ++ (mid ++ lo) : BitVec 32).getLsbD (8 + k) = mid.getLsbD k := by
  rw [BitVec.getLsbD_append, if_pos (by omega), BitVec.getLsbD_append, if_neg (by omega),
    Nat.add_sub_cancel_left]

/-- A `char` on the bus. -/
theorem signExtend_byte (b : Byte) : (b.signExtend 32).setWidth 8 = b := by
  apply BitVec.eq_of_getLsbD_eq
  intro i hi
  rw [BitVec.getLsbD_setWidth, BitVec.getLsbD_signExtend, if_pos hi, decide_eq_true hi,
    decide_eq_true (show i < 32 by omega), Bool.true_and, Bool.true_and]

namespace Core

variable {Q : Scfifo}

/-- `{full, used}` counts the words. -/
theorem count_toNat (s : Q.State) : (count s).toNat = (Q.words s).length := by
  have hle := Q.words_le s
  have hused := Q.usedw_eq s
  have hfull := Q.full_iff s
  cases h : Q.full s with
  | true =>
    have hlen := hfull.mp h
    rw [hlen] at hused
    have hzero : Q.usedw s = 0#6 := BitVec.eq_of_toNat_eq hused
    rw [count, h, hzero, hlen]
    decide
  | false =>
    have hne : (Q.words s).length ≠ 64 := fun hlen => by
      rw [hfull.mpr hlen] at h
      nomatch h
    have happ : (BitVec.ofBool false ++ Q.usedw s : BitVec 7).toNat = (Q.usedw s).toNat := by
      rw [BitVec.toNat_append]
      exact Nat.zero_or _
    rw [count, h, happ, hused]
    omega

/-- There are at most 64 words in a FIFO. -/
theorem count_le (s : Q.State) : (count s).toNat ≤ 64 := by
  rw [count_toNat]
  exact Q.words_le s

/-- The space `0x40 - {full, used}`. -/
theorem space_toNat (s : Q.State) : (0x40 - count s).toNat = 64 - (Q.words s).length := by
  have hle := count_le s
  have hval := count_toNat s
  rw [BitVec.toNat_sub, ← hval]
  have h64 : (0x40 : BitVec 7).toNat = 64 := rfl
  omega

/-- The status bits: the read interrupt is pending, -/
theorem status_zero (d : Core Q) : d.status.getLsbD 0 = d.ipenAF := by
  rw [status, BitVec.getLsbD_append, if_pos (by decide)]
  cases d.ipenAF <;> rfl

/-- the write interrupt is pending, -/
theorem status_one (d : Core Q) : d.status.getLsbD 1 = d.ipenAE := by
  rw [status, BitVec.getLsbD_append, if_neg (by decide), BitVec.getLsbD_append, if_pos (by decide)]
  cases d.ipenAE <;> rfl

/-- and the word is a character. -/
theorem status_seven (d : Core Q) : d.status.getLsbD 7 = d.rvalid := by
  simp only [status, BitVec.getLsbD_append]
  cases d.rvalid <;> rfl

/-- What the control register says. -/
structure ControlWord (d : Core Q) (c : BitVec 32) : Prop where
  ri : c &&& riMsk ≠ 0 ↔ d.ipenAF = true
  wi : c &&& wiMsk ≠ 0 ↔ d.ipenAE = true
  none : c &&& (riMsk ||| wiMsk) = 0 ↔ d.ipenAF = false ∧ d.ipenAE = false
  wspace : ((c &&& wspaceMsk) >>> wspaceOfst).toNat = 64 - (Q.words d.wfifo).length

/-- **The control register** says which interrupts are pending, and how much space there is. -/
theorem control_word {d : Core Q} (h : d.read0 = false) : ControlWord d d.readdata := by
  have hread : d.readdata = ((0#9 ++ (0x40 - count d.wfifo))
      ++ (d.status ++ (0#6 ++ BitVec.ofBool d.ienAE ++ BitVec.ofBool d.ienAF)) : BitVec 32) := by
    rw [readdata, h]
    rfl
  have hri : d.readdata &&& riMsk ≠ 0 ↔ d.ipenAF = true := by
    rw [← status_zero, ← middle_bit _ d.status _ (by decide), ← hread]
    exact and_twoPow_ne_zero_iff (i := 8) _ (by decide)
  have hwi : d.readdata &&& wiMsk ≠ 0 ↔ d.ipenAE = true := by
    rw [← status_one, ← middle_bit _ d.status _ (by decide), ← hread]
    exact and_twoPow_ne_zero_iff (i := 9) _ (by decide)
  refine ⟨hri, hwi, ?_, ?_⟩
  · show _ = 0#32 ↔ _
    rw [BitVec.and_or_distrib_left, BitVec.or_eq_zero_iff, ← Bool.not_eq_true, ← Bool.not_eq_true,
      ← hri, ← hwi, not_not, not_not]
    rfl
  · rw [hread]
    show (((_ ++ _ : BitVec 32) &&& 0xFFFF0000) >>> 16).toNat = _
    rw [upper_half, BitVec.toNat_append, space_toNat]
    simp

/-- What the data register says. -/
structure DataWord (d : Core Q) (v : BitVec 32) : Prop where
  data : (v &&& dataMsk).setWidth 8 = Q.q d.rfifo
  rvalid : v &&& rvalidMsk ≠ 0 ↔ d.rvalid = true
  ravail : v &&& ravailMsk = 0 ↔ Q.words d.rfifo = []

/-- **The data register** says whether there was a character, which, and whether more are left. -/
theorem data_word {d : Core Q} (h : d.read0 = true) : DataWord d d.readdata := by
  have hread : d.readdata
      = ((0#9 ++ count d.rfifo) ++ (d.status ++ Q.q d.rfifo) : BitVec 32) := by
    rw [readdata, h]
    rfl
  refine ⟨?_, ?_, ?_⟩
  · rw [hread]
    exact lowest_byte _ _ _
  · rw [← status_seven, ← middle_bit _ d.status _ (by decide), ← hread]
    exact and_twoPow_ne_zero_iff (i := 15) _ (by decide)
  · have hzero : (0#9 ++ count d.rfifo : BitVec 16) = 0 ↔ (count d.rfifo).toNat = 0 := by
      rw [← BitVec.toNat_inj, BitVec.toNat_append]
      simp
    rw [hread]
    show (_ ++ _ : BitVec 32) &&& 0xFFFF0000 = 0 ↔ _
    rw [upper_half_eq_zero_iff, hzero, count_toNat, List.length_eq_zero_iff]

end Core

/-! ## Laws of one cycle -/

namespace Uart

variable {Q : Scfifo}

/-- The words in the write FIFO and in the read FIFO. -/
def pending (u : Uart Q) : List Byte := Q.words u.core.wfifo
def waiting (u : Uart Q) : List Byte := Q.words u.core.rfifo

/-- The characters that have left the processor: those the host has, the one at the output of the
    write FIFO, and those in it. -/
def toHost (u : Uart Q) : List Byte :=
  u.host.received ++ (if u.core.rVal then [Q.q u.core.wfifo] else []) ++ u.pending

/-- From `u` to `u'` the characters `taken` were read from the read FIFO; what the host put in
    meanwhile waits behind the others. -/
def Feeds (u u' : Uart Q) (taken : List Byte) : Prop :=
  ∃ new, u'.host.admitted = u.host.admitted ++ new ∧ taken ++ u'.waiting = u.waiting ++ new

/-- A raised flag of the read side says that there are characters. -/
structure Flags (u : Uart Q) : Prop where
  pause : u.core.pauseIrq = true → u.waiting ≠ []
  almostFull : u.core.fifoAF = true → 56 ≤ u.waiting.length

/-- Over two stretches of time. -/
theorem Feeds.trans {u v w : Uart Q} {s t : List Byte} (h : Feeds u v s) (h' : Feeds v w t) :
    Feeds u w (s ++ t) := by
  obtain ⟨new, hsent, hwait⟩ := h
  obtain ⟨new', hsent', hwait'⟩ := h'
  refine ⟨new ++ new', by rw [hsent', hsent, List.append_assoc], ?_⟩
  rw [List.append_assoc, hwait', ← List.append_assoc, hwait, List.append_assoc]

/-- **Transmit side of one cycle.**  A character leaves for the host in order; the one on the bus
    enters behind the others. -/
theorem posedge_toHost (u : Uart Q) (bus : Avalon) (j : Jtag)
    (hroom : u.core.fifoWr = true → u.pending.length < 64) :
    (u.posedge bus j).toHost
        = u.toHost ++ (if u.core.fifoWr then [bus.writedata.setWidth 8] else [])
      ∧ (u.posedge bus j).pending.length ≤ u.pending.length + u.core.fifoWr.toNat := by
  have hlegal : ∀ r : Bool, (r = true → Q.words u.core.wfifo ≠ []) →
      Q.words (Q.clock u.core.wfifo
          (if u.core.fifoWr then some (bus.writedata.setWidth 8) else none) r)
        = (if r then u.pending.tail else u.pending)
          ++ (if u.core.fifoWr then [bus.writedata.setWidth 8] else []) := by
    intro r hr
    rw [Q.words_clock _ _ _ (fun h => hroom (by cases hw : u.core.fifoWr <;> simp_all)) hr]
    cases u.core.fifoWr <;> rfl
  have hlen : (if u.core.fifoWr then [bus.writedata.setWidth 8] else []).length
      = u.core.fifoWr.toNat := by
    cases u.core.fifoWr <;> rfl
  unfold toHost
  cases hrd : (j.rEna && !Q.empty u.core.wfifo) with
  | false =>
    have hwords : (u.posedge bus j).pending = u.pending
        ++ (if u.core.fifoWr then [bus.writedata.setWidth 8] else []) := by
      show Q.words (Q.clock _ _ (j.rEna && !Q.empty u.core.wfifo)) = _
      rw [hrd]
      exact hlegal false (fun h => nomatch h)
    have hval : (u.posedge bus j).core.rVal = false := hrd
    rw [hval, hwords]
    refine ⟨?_, Nat.le_of_eq (by rw [List.length_append, hlen])⟩
    show (u.host.received ++ _) ++ [] ++ _ = _
    simp only [List.append_nil, List.append_assoc]
  | true =>
    -- the oldest word moves to the output of the FIFO
    have hne : Q.words u.core.wfifo ≠ [] := by
      intro hnil
      rw [(Q.empty_iff _).mpr hnil, Bool.not_true, Bool.and_false] at hrd
      nomatch hrd
    obtain ⟨b, bs, hbs⟩ := List.exists_cons_of_ne_nil hne
    have hpend : u.pending = b :: bs := hbs
    have hwords : (u.posedge bus j).pending = bs
        ++ (if u.core.fifoWr then [bus.writedata.setWidth 8] else []) := by
      show Q.words (Q.clock _ _ (j.rEna && !Q.empty u.core.wfifo)) = _
      rw [hrd, hlegal true (fun _ => hne), hpend]
      rfl
    have hq : Q.q (u.posedge bus j).core.wfifo = b := by
      show Q.q (Q.clock _ _ (j.rEna && !Q.empty u.core.wfifo)) = _
      rw [hrd]
      exact Q.q_clock _ _ _ _ hbs
    have hval : (u.posedge bus j).core.rVal = true := hrd
    rw [hval, hwords, hq, hpend]
    refine ⟨?_, by rw [List.length_append, hlen, List.length_cons]; omega⟩
    show (u.host.received ++ _) ++ [b] ++ _ = _
    simp only [List.append_assoc, List.cons_append, List.nil_append]

/-- **Receive side of one cycle.**  A read of the data register takes the oldest character, if
    there is one; a character of the host enters behind the others. -/
theorem posedge_feeds (u : Uart Q) (bus : Avalon) (j : Jtag) :
    Feeds u (u.posedge bus j)
      (if u.core.acts bus bus.read false then u.waiting.take 1 else []) := by
  have hwrite : (if j.tEna && !Q.full u.core.rfifo then some j.tDat else none).isSome →
      (Q.words u.core.rfifo).length < 64 := by
    intro h
    have hle := Q.words_le u.core.rfifo
    have hfull := (Q.full_iff u.core.rfifo).not
    cases hf : Q.full u.core.rfifo with
    | true =>
      rw [hf] at h
      simp at h
    | false =>
      rw [hf] at hfull
      have := hfull.mp (by decide)
      omega
  have hread : (u.core.acts bus bus.read false && !Q.empty u.core.rfifo) = true →
      Q.words u.core.rfifo ≠ [] := by
    intro h hnil
    rw [(Q.empty_iff _).mpr hnil, Bool.not_true, Bool.and_false] at h
    nomatch h
  have hwords : (u.posedge bus j).waiting = _ := Q.words_clock _ _ _ hwrite hread
  refine ⟨(if j.tEna && !Q.full u.core.rfifo then some j.tDat else none).toList, ?_, ?_⟩
  · show u.host.admitted ++ _ = _
    cases j.tEna && !Q.full u.core.rfifo <;> rfl
  · rw [hwords]
    cases hacts : u.core.acts bus bus.read false with
    | false => rfl
    | true =>
      cases hw : Q.words u.core.rfifo with
      | nil =>
        have hempty := (Q.empty_iff _).mpr hw
        simp [hempty, waiting, hw]
      | cons b bs =>
        have hempty : Q.empty u.core.rfifo = false := by
          rw [← Bool.not_eq_true, Q.empty_iff, hw]
          simp
        simp [hempty, waiting, hw]

/-- Nothing is taken without a read. -/
theorem Feeds.waiting_eq {u u' : Uart Q} (h : Feeds u u' []) :
    ∃ new, u'.waiting = u.waiting ++ new := by
  obtain ⟨new, _, hwait⟩ := h
  exact ⟨new, hwait⟩

/-- The flags of the next cycle, unless the data register is read in this one.  While `read_0` is
    high a flag left by the character just read goes down. -/
theorem posedge_flags {u : Uart Q} {bus : Avalon} {j : Jtag}
    (hread : u.core.acts bus bus.read false = false)
    (h : u.core.read0 = false → u.core.pauseIrq = true → u.waiting ≠ []) :
    Flags (u.posedge bus j) := by
  have hfeeds := posedge_feeds u bus j
  rw [hread] at hfeeds
  obtain ⟨new, hwait⟩ := hfeeds.waiting_eq
  constructor
  · intro hpause
    have hpause : (if j.tPause && !Q.empty u.core.rfifo then true
        else if u.core.read0 then false else u.core.pauseIrq) = true := hpause
    have hne : u.waiting ≠ [] := by
      intro hnil
      have hempty : Q.empty u.core.rfifo = true := (Q.empty_iff _).mpr hnil
      rw [hempty, Bool.not_true, Bool.and_false] at hpause
      cases hr : u.core.read0 with
      | true =>
        rw [hr] at hpause
        nomatch hpause
      | false =>
        rw [hr] at hpause
        exact h hr hpause hnil
    rw [hwait]
    exact List.append_ne_nil_of_left_ne_nil hne new
  · intro haf
    have haf : decide (0x40 - Core.count u.core.rfifo ≤ 8) = true := haf
    have hspace := Core.space_toNat u.core.rfifo
    have hle : (0x40 - Core.count u.core.rfifo).toNat ≤ 8 := BitVec.le_def.mp (of_decide_eq_true haf)
    have hlen : 56 ≤ u.waiting.length := by
      show 56 ≤ (Q.words u.core.rfifo).length
      omega
    rw [hwait, List.length_append]
    omega

/-! ## Laws of the accesses -/

/-- The core between two accesses. -/
structure Ready (u : Uart Q) : Prop where
  waitrequest : u.core.avWaitrequest = true
  fifoWr : u.core.fifoWr = false
  read0 : u.core.read0 = false

/-- What a cycle or an access does that sends the characters `sent` to the host, takes the
    characters `taken` from it and leaves the interrupt enables `af` and `ae`. -/
structure Effect (u u' : Uart Q) (sent taken : List Byte) (af ae : Bool) : Prop where
  ready : u'.Ready
  flags : u'.Flags
  toHost : u'.toHost = u.toHost ++ sent
  pending : u'.pending.length ≤ u.pending.length + sent.length
  feeds : Feeds u u' taken
  woverflow : u.core.woverflow = false → u'.core.woverflow = false
  ienAF : u'.core.ienAF = af
  ienAE : u'.core.ienAE = ae

/-- It does nothing but let time pass. -/
abbrev Quiet (u u' : Uart Q) : Prop := Effect u u' [] [] u.core.ienAF u.core.ienAE

/-- **A cycle without an access.** -/
theorem idle_law {u : Uart Q} (hready : u.Ready) (hflags : u.Flags) (j : Jtag) :
    Quiet u (u.posedge idleBus j) := by
  obtain ⟨_, hwr, _⟩ := hready
  obtain ⟨hhost, hpend⟩ := posedge_toHost u idleBus j (by rw [hwr]; intro h; nomatch h)
  rw [hwr] at hhost hpend
  exact ⟨⟨rfl, rfl, rfl⟩, posedge_flags rfl fun _ => hflags.pause, hhost, hpend,
    posedge_feeds u idleBus j, id, rfl, rfl⟩

/-- After the first cycle of an access the core no longer waits. -/
structure Accepted (op : Op) (u u' : Uart Q) : Prop where
  waitrequest : u'.core.avWaitrequest = false
  fifoWr : u'.core.fifoWr = match op with
    | .writeData _ => !Q.full u.core.wfifo
    | _ => false
  read0 : u'.core.read0 = op.takes
  reads : u.core.acts op.bus op.bus.read false = op.takes
  toHost : u'.toHost = u.toHost
  pending : u'.pending.length ≤ u.pending.length

/-- The first cycle of an access notes what the second will do. -/
theorem accepted {u : Uart Q} (hready : u.Ready) (op : Op) (j : Jtag) :
    Accepted op u (u.posedge op.bus j) := by
  obtain ⟨hwait, hwr, _⟩ := hready
  obtain ⟨hhost, hpend⟩ := posedge_toHost u op.bus j (by rw [hwr]; intro h; nomatch h)
  rw [hwr] at hhost hpend
  refine ⟨?_, ?_, ?_, ?_, by simpa using hhost, hpend⟩
  all_goals cases op <;> simp [Uart.posedge, Core.posedge, Core.acts, Op.bus, Op.takes, hwait]

/-- In the second cycle the bus acts on no register. -/
theorem acts_second {u : Uart Q} (h : u.core.avWaitrequest = false) (bus : Avalon)
    (strobe address : Bool) : u.core.acts bus strobe address = false := by
  simp [Core.acts, h]

/-- After the second cycle the core is ready for the next access. -/
theorem ready_second {u : Uart Q} (h : u.core.avWaitrequest = false) (bus : Avalon) (j : Jtag) :
    (u.posedge bus j).Ready := by
  refine ⟨?_, ?_, ?_⟩ <;> simp [Uart.posedge, Core.posedge, acts_second h, h]

/-- The flags in the second cycle. -/
theorem flags_second {u : Uart Q} (hready : u.Ready) (hflags : u.Flags) (op : Op) (j j' : Jtag) :
    (u.access op j j').2.Flags := by
  have hacc := accepted hready op j
  refine posedge_flags (acts_second hacc.waitrequest _ _ _) fun hread0 => ?_
  cases hop : op.takes with
  | true =>
    -- `read_0` is high: a flag left by the character just read goes down
    rw [hacc.read0, hop] at hread0
    nomatch hread0
  | false =>
    have hacts := hacc.reads
    rw [hop] at hacts
    exact (posedge_flags hacts fun _ => hflags.pause).pause

/-- **An access.**  A character written to the data register while there is space enters the FIFO
    in the second cycle; the host can only have made more space by then. -/
theorem access_law {u : Uart Q} (hready : u.Ready) (hflags : u.Flags) (op : Op)
    (hspace : op.sent ≠ [] → u.pending.length < 64) (j j' : Jtag) :
    Effect u (u.access op j j').2 op.sent (if op.takes then u.waiting.take 1 else [])
      (op.ienAF u.core.ienAF) (op.ienAE u.core.ienAE) := by
  have hwait := hready.waitrequest
  have hacc := accepted hready op j
  have hacts' := acts_second hacc.waitrequest op.bus op.bus.read false
  have hpend := hacc.pending
  -- the FIFO takes the character in the second cycle
  have hfull : op.sent ≠ [] → Q.full u.core.wfifo = false := by
    intro h
    rw [← Bool.not_eq_true, Q.full_iff]
    have hlen : (Q.words u.core.wfifo).length < 64 := hspace h
    omega
  have hwr : (if (u.posedge op.bus j).core.fifoWr then [op.bus.writedata.setWidth 8] else [])
      = op.sent := by
    rw [hacc.fifoWr]
    cases op with
    | writeData v =>
      have hnot : Q.full u.core.wfifo = false := hfull (List.cons_ne_nil _ _)
      rw [hnot]
      rfl
    | _ => rfl
  have hroom : (u.posedge op.bus j).core.fifoWr = true →
      (u.posedge op.bus j).pending.length < 64 := by
    intro h
    rw [h, if_pos rfl] at hwr
    have hlt := hspace (hwr ▸ List.cons_ne_nil _ _)
    omega
  obtain ⟨hhost', hpend'⟩ := posedge_toHost (u.posedge op.bus j) op.bus j' hroom
  rw [hwr, hacc.toHost] at hhost'
  have hsent : (u.posedge op.bus j).core.fifoWr.toNat = op.sent.length := by
    rw [← hwr]
    cases (u.posedge op.bus j).core.fifoWr <;> rfl
  rw [hsent] at hpend'
  have hfeeds := (posedge_feeds u op.bus j).trans
    (posedge_feeds (u.posedge op.bus j) op.bus j')
  rw [hacc.reads, hacts', if_neg Bool.false_ne_true, List.append_nil] at hfeeds
  refine ⟨ready_second hacc.waitrequest _ _, flags_second hready hflags op j j', hhost',
    Nat.le_trans hpend' (Nat.add_le_add_right hpend _), hfeeds, ?_, ?_, ?_⟩
  · intro hover
    cases op with
    | writeData v =>
      have hnot : Q.full u.core.wfifo = false := hfull (List.cons_ne_nil _ _)
      simp [access, Uart.posedge, Core.posedge, Core.acts, Op.bus, hwait, hnot]
    | _ => simp [access, Uart.posedge, Core.posedge, Core.acts, Op.bus, hover]
  all_goals
    cases op <;>
      simp [access, Uart.posedge, Core.posedge, Core.acts, Op.bus, Op.ienAF, Op.ienAE, hwait]

/-- What a value read from the control register promises after the access. -/
structure ControlValue (u : Uart Q) (c : BitVec 32) : Prop where
  ri : c &&& riMsk ≠ 0 → u.waiting ≠ [] ∧ u.core.ienAF = true
  wi : c &&& wiMsk ≠ 0 → u.core.ienAE = true ∧ 0 < ((c &&& wspaceMsk) >>> wspaceOfst).toNat
  wspace : ((c &&& wspaceMsk) >>> wspaceOfst).toNat + u.pending.length ≤ 64

/-- **A read of the control register.**  A pending read interrupt means that there are characters;
    the space was there and still is, and with a pending write interrupt there is some. -/
theorem readControl_law {u : Uart Q} (hready : u.Ready) (hflags : u.Flags) (j j' : Jtag) :
    ControlValue (u.access .readControl j j').2 (u.access .readControl j j').1 := by
  have hacc := accepted hready .readControl j
  have heff := access_law hready hflags .readControl nofun j j'
  have hflags' : (u.posedge Op.readControl.bus j).Flags :=
    posedge_flags hacc.reads fun _ => hflags.pause
  have hword := Core.control_word hacc.read0
  have hacts' := acts_second hacc.waitrequest Op.readControl.bus Op.readControl.bus.read false
  have hfeeds := posedge_feeds (u.posedge Op.readControl.bus j) Op.readControl.bus j'
  rw [hacts'] at hfeeds
  obtain ⟨new, hnew⟩ := hfeeds.waiting_eq
  have hspace : (((u.access .readControl j j').1 &&& wspaceMsk) >>> wspaceOfst).toNat
      = 64 - (u.posedge Op.readControl.bus j).pending.length := hword.wspace
  -- the access leaves the enables as they are
  have hien : (u.posedge Op.readControl.bus j).core.ienAF = u.core.ienAF
      ∧ (u.posedge Op.readControl.bus j).core.ienAE = u.core.ienAE := by
    constructor <;> simp [Uart.posedge, Core.posedge, Core.acts, Op.bus]
  refine ⟨fun hri => ?_, fun hwi => ?_, ?_⟩
  · have hpending := hword.ri.mp hri
    rw [Core.ipenAF, Bool.and_eq_true, Bool.or_eq_true] at hpending
    -- both causes of the interrupt say that there are characters
    have hne : (u.posedge Op.readControl.bus j).waiting ≠ [] := by
      rcases hpending.2 with hpause | haf
      · exact hflags'.pause hpause
      · intro hnil
        have hlen := hflags'.almostFull haf
        rw [hnil, List.length_nil] at hlen
        omega
    refine ⟨?_, heff.ienAF.trans (hien.1.symm.trans hpending.1)⟩
    show ((u.posedge Op.readControl.bus j).posedge Op.readControl.bus j').waiting ≠ []
    rw [hnew]
    exact List.append_ne_nil_of_left_ne_nil hne new
  · have hpending := hword.wi.mp hwi
    rw [Core.ipenAE, Bool.and_eq_true] at hpending
    refine ⟨heff.ienAE.trans (hien.2.symm.trans hpending.1), ?_⟩
    have hcount : Core.count u.core.wfifo ≤ 8 := of_decide_eq_true hpending.2
    rw [BitVec.le_def, Core.count_toNat] at hcount
    have hcount : u.pending.length ≤ 8 := hcount
    have hpend := hacc.pending
    omega
  · obtain ⟨_, hpend⟩ := posedge_toHost (u.posedge Op.readControl.bus j) Op.readControl.bus j'
      (by rw [hacc.fifoWr]; intro h; nomatch h)
    rw [hacc.fifoWr] at hpend
    have hle : (u.posedge Op.readControl.bus j).pending.length ≤ 64 := Q.words_le _
    have hpend : (u.access .readControl j j').2.pending.length
        ≤ (u.posedge Op.readControl.bus j).pending.length := hpend
    omega

/-- **A read of the data register** says whether there was a character, and which. -/
theorem readData_law {u : Uart Q} (hready : u.Ready) (j j' : Jtag) :
    ((u.access .readData j j').1 &&& rvalidMsk ≠ 0 ↔ u.waiting ≠ [])
      ∧ ∀ b ∈ u.waiting.head?, ((u.access .readData j j').1 &&& dataMsk).setWidth 8 = b := by
  have hacc := accepted hready .readData j
  have hacts : u.core.acts Op.readData.bus Op.readData.bus.read false = true := hacc.reads
  have hword := Core.data_word hacc.read0
  constructor
  · rw [show (u.access .readData j j').1 &&& rvalidMsk ≠ 0 ↔ _ from hword.rvalid]
    have hval : (u.posedge Op.readData.bus j).core.rvalid = !Q.empty u.core.rfifo := by
      show (if u.core.acts _ _ _ = true then _ else _) = _
      rw [if_pos hacts]
    rw [hval, Bool.not_eq_true', ← Bool.not_eq_true, Q.empty_iff]
    rfl
  · intro b hb
    rw [show ((u.access .readData j j').1 &&& dataMsk).setWidth 8 = _ from hword.data]
    obtain ⟨bs, hbs⟩ : ∃ bs, u.waiting = b :: bs := by
      cases hw : u.waiting with
      | nil =>
        rw [hw] at hb
        nomatch hb
      | cons c bs =>
        rw [hw] at hb
        exact ⟨bs, by rw [Option.some.inj hb]⟩
    have hempty : Q.empty u.core.rfifo = false := by
      rw [← Bool.not_eq_true, Q.empty_iff]
      intro hnil
      rw [show u.waiting = [] from hnil] at hbs
      nomatch hbs
    show Q.q (Q.clock _ _ (u.core.acts _ _ _ && !Q.empty u.core.rfifo)) = b
    rw [hacts, hempty]
    exact Q.q_clock _ _ _ _ hbs

end Uart

end GpsReceiver.Firmware.JtagUart
