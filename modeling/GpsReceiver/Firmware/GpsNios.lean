/-
  The firmware of the Nios II processor, `main.c`: a button press walks a light along the green
  LEDs, and the main loop copies the switches to the red ones.

  1. **State** — the board of `Firmware.Pio`; `Cpu`, the interrupt state of the processor and of its
     abstraction layer; the program point of `main`.
  2. **Program** — `pushBtnIsr`; `altIrqInit` and `altIcIsrRegister`, which touch the processor
     only; `mainStep`, one statement of `main`.  A run interleaves them in any order the hardware
     allows: `Step`, `Reachable`.
  3. **The light** — each reading `0x01` shifts the register of eight bits once, so after `n` such
     readings it is `1 <<< n` (`dataOut_isrRun`), one-hot for `n ≤ 7` and dark from then on:
     `walks_iff`.
  4. **The interrupt** — the button core's mask is zero at reset and no statement of `main` or
     `pushBtnIsr` writes it (`irqMask_step`), so it is zero in every reachable state
     (`irqMask_reachable`) and the line never rises: `irq_never_asserted`.
-/
import GpsReceiver.Firmware.Pio
import GpsReceiver.Lib.OneHot

namespace GpsReceiver.Firmware

open GpsReceiver.Lib Board

/-! ## The program -/

/-- The interrupt service routine.  `pins i` are the input pins at its `i`-th access. -/
def pushBtnIsr (pins : Nat → Pins) (b : Board) : Board :=
  let (pushBtnIn, b) := iordPioData pushBtnsBase (pins 0) b
  let (ledOut, b) := iordPioData ledGreenBase (pins 1) b
  if pushBtnIn = 0x01#32 then iowrPioData ledGreenBase (ledOut <<< 1) (pins 2) b else b

def pushBtnsIrq : Nat := 1

/-- The interrupt service routines of the program. -/
inductive Isr
  | pushBtnIsr
  | alteraAvalonJtagUartIrq
  deriving DecidableEq, Repr

/-- The interrupt state of the processor, `pie` and `ienable`, and of the abstraction layer. -/
structure Cpu where
  pie : Bool
  ienable : BitVec 32
  altIrqActive : BitVec 32
  altIrq : Nat → Option Isr

namespace Cpu

/-- `alt_irq_init(NULL)`. -/
def altIrqInit (c : Cpu) : Cpu := { c with ienable := 0, pie := true }

/-- `alt_irq_enable(id)`. -/
def altIrqEnable (id : Nat) (c : Cpu) : Cpu :=
  { c with
    altIrqActive := c.altIrqActive ||| 1#32 <<< id
    ienable := c.altIrqActive ||| 1#32 <<< id }

/-- `alt_irq_disable(id)`. -/
def altIrqDisable (id : Nat) (c : Cpu) : Cpu :=
  { c with
    altIrqActive := c.altIrqActive &&& ~~~(1#32 <<< id)
    ienable := c.altIrqActive &&& ~~~(1#32 <<< id) }

def altNirq : Nat := 32
def einval : Int := 22

/-- `alt_ic_isr_register(ic_id, irq, isr, NULL, NULL)`: its result and the state it leaves.  The
    bound is tested on `id`, a signed copy of `irq`: the numbers from `2^31` on pass, and then the
    program writes in front of the table, to none of its entries. -/
def altIcIsrRegister (irq : BitVec 32) (isr : Option Isr) (c : Cpu) : Int × Cpu :=
  let id : Int := irq.toInt
  if id < altNirq then
    let c := { c with altIrq := fun i => if (i : Int) = id then isr else c.altIrq i }
    (0, if isr.isSome then altIrqEnable irq.toNat c else altIrqDisable irq.toNat c)
  else (-einval, c)

end Cpu

/-- The program points of `main`; a read value waits to be written. -/
inductive Pc
  | writeLed
  | irqInit
  | isrRegister
  | readSwitches
  | writeRed (out : BitVec 32)

/-- The system: `result` holds what `alt_ic_isr_register` returned, once it has been called. -/
structure State where
  pc : Pc
  result : Option Int
  cpu : Cpu
  board : Board

/-- One statement of `main`. -/
def mainStep (pins : Pins) (s : State) : State :=
  match s.pc with
  | .writeLed =>
    { s with board := iowrPioData ledGreenBase 0x01 pins s.board, pc := .irqInit }
  | .irqInit => { s with cpu := s.cpu.altIrqInit, pc := .isrRegister }
  | .isrRegister =>
    let (result, cpu) := s.cpu.altIcIsrRegister (BitVec.ofNat 32 pushBtnsIrq) (some .pushBtnIsr)
    { s with cpu := cpu, result := some result, pc := .readSwitches }
  | .readSwitches =>
    let (input, board) := iordPioData switchesBase pins s.board
    { s with board := board, pc := .writeRed input }
  | .writeRed out =>
    { s with board := iowrPioData ledRedBase out pins s.board, pc := .readSwitches }

/-- The processor takes the button interrupt. -/
def pending (pins : Pins) (s : State) : Bool :=
  s.cpu.pie && s.cpu.ienable.getLsbD pushBtnsIrq && s.board.pushBtns.irq pins.pushBtns

/-- What can happen next: a statement of `main`, a cycle without an access (the processor computes
    or sleeps), or the interrupt service routine when its interrupt is pending. -/
inductive Step : State → State → Prop
  | main (s : State) (pins : Pins) : Step s (mainStep pins s)
  | clock (s : State) (pins : Pins) : Step s { s with board := s.board.posedge .idle pins }
  | interrupt (s : State) (now : Pins) (pins : Nat → Pins) (hpending : pending now s = true)
      (hisr : s.cpu.altIrq pushBtnsIrq = some .pushBtnIsr) :
      Step s { s with board := pushBtnIsr pins s.board }

/-- The state in which `main` is entered: the cores are reset, the processor is in any state. -/
def entry (cpu : Cpu) : State := { pc := .writeLed, result := none, cpu := cpu, board := .reset }

inductive Reachable : State → Prop
  | entry (cpu : Cpu) : Reachable (entry cpu)
  | step {s s' : State} : Reachable s → Step s s' → Reachable s'

/-! ## The walking light -/

/-- The invocations of `pushBtnIsr` one after the other. -/
def isrRun (invocations : List (Nat → Pins)) (b : Board) : Board :=
  invocations.foldl (fun b pins => pushBtnIsr pins b) b

/-- The invocation reads `0x01`. -/
def readsOne (pins : Nat → Pins) : Bool := (pins 0).pushBtns == 1

/-- After every invocation exactly one green LED is lit. -/
def Walks (b : Board) (invocations : List (Nat → Pins)) : Prop :=
  ∀ k, 1 ≤ k → k ≤ invocations.length →
    OneHot (isrRun (invocations.take k) b).ledGreen.dataOut

/-- The reading is `0x01` exactly when the four pins are. -/
theorem setWidth_eq_one_iff (x : BitVec 4) : x.setWidth 32 = 0x01#32 ↔ (x == 1) = true := by
  rw [beq_iff_eq]
  constructor
  · intro h
    have h4 := congrArg (BitVec.setWidth 4) h
    rw [BitVec.setWidth_setWidth_of_le x (by decide), BitVec.setWidth_eq] at h4
    exact h4
  · rintro rfl
    rfl

/-- Shifting the word read from the register and writing it back shifts the register. -/
theorem setWidth_shiftLeft_one (x : BitVec 8) : (x.setWidth 32 <<< 1).setWidth 8 = x <<< 1 := by
  ext i hi
  simp only [BitVec.getElem_setWidth, BitVec.getLsbD_shiftLeft, BitVec.getLsbD_setWidth,
    BitVec.getElem_shiftLeft]
  rw [← BitVec.getLsbD_eq_getElem]
  have h1 : i < 32 := by omega
  have h2 : i - 1 < 32 := by omega
  simp [h1, h2]

/-- One invocation: a reading of `0x01` shifts the register, any other leaves it. -/
theorem dataOut_pushBtnIsr (pins : Nat → Pins) (b : Board) :
    (pushBtnIsr pins b).ledGreen.dataOut
      = if readsOne pins then b.ledGreen.dataOut <<< 1 else b.ledGreen.dataOut := by
  have hled : (iordPioData pushBtnsBase (pins 0) b).2.ledGreen = b.ledGreen := iord_ledGreen ..
  have hled₂ : ∀ b', (iordPioData ledGreenBase (pins 1) b').2.ledGreen = b'.ledGreen :=
    fun b' => iord_ledGreen ..
  unfold pushBtnIsr
  simp only [iordPioData_pushBtns, iordPioData_ledGreen, setWidth_eq_one_iff]
  by_cases h : readsOne pins = true
  · rw [if_pos h, if_pos (show ((pins 0).pushBtns == 1) = true from h), iowrPioData_ledGreen, hled]
    exact setWidth_shiftLeft_one _
  · rw [if_neg h, if_neg (show ¬ ((pins 0).pushBtns == 1) = true from h), hled₂, hled]

/-- **The register after any number of invocations.** -/
theorem dataOut_isrRun : ∀ (invocations : List (Nat → Pins)) (b : Board),
    (isrRun invocations b).ledGreen.dataOut
      = b.ledGreen.dataOut <<< invocations.countP readsOne := by
  intro invocations
  induction invocations with
  | nil => intro b; simp [isrRun]
  | cons pins rest ih =>
    intro b
    show (isrRun rest (pushBtnIsr pins b)).ledGreen.dataOut = _
    rw [ih, dataOut_pushBtnIsr]
    by_cases h : readsOne pins = true
    · rw [if_pos h, List.countP_cons_of_pos h, Nat.add_comm, BitVec.shiftLeft_add]
    · rw [if_neg h, List.countP_cons_of_neg h]

/-- After `main` has written `0x01` the light is at the position that counts the presses. -/
theorem dataOut_isrRun_start (b : Board) (pins : Pins) (invocations : List (Nat → Pins)) :
    (isrRun invocations (iowrPioData ledGreenBase 0x01 pins b)).ledGreen.dataOut
      = 1#8 <<< invocations.countP readsOne := by
  rw [dataOut_isrRun, iowrPioData_ledGreen]
  rfl

/-- **The light walks exactly as long as there are at most seven presses.**  From the `0x01` that
    `main` writes, exactly one LED is lit after every invocation if and only if at most seven of
    the invocations read `0x01`. -/
theorem walks_iff (b : Board) (pins : Pins) (invocations : List (Nat → Pins)) :
    Walks (iowrPioData ledGreenBase 0x01 pins b) invocations
      ↔ invocations.countP readsOne ≤ 7 := by
  unfold Walks
  simp only [dataOut_isrRun_start, oneHot_one_shiftLeft_iff]
  constructor
  · intro h
    rcases Nat.eq_zero_or_pos invocations.length with hnil | hpos
    · have hle := invocations.countP_le_length (p := readsOne)
      omega
    · have hall := h invocations.length hpos (Nat.le_refl _)
      rw [List.take_length] at hall
      omega
  · intro h k _ _
    have hsub : (invocations.take k).countP readsOne ≤ invocations.countP readsOne :=
      (List.take_sublist k invocations).countP_le
    omega

/-- All pins low but the first button. -/
def firstButton : Nat → Pins := fun _ => { pushBtns := 1, switches := 0 }

/-- Eight presses of the first button leave all LEDs dark. -/
theorem walk_ends_dark :
    ¬ ∀ (b : Board) (pins : Pins) (invocations : List (Nat → Pins)),
      Walks (iowrPioData ledGreenBase 0x01 pins b) invocations := by
  intro h
  have hot := h .reset (firstButton 0) (List.replicate 8 firstButton) 8 (by decide) (by decide)
  rw [dataOut_isrRun_start] at hot
  exact absurd ((oneHot_one_shiftLeft_iff _).mp hot) (by decide)

/-! ## The interrupt line -/

/-- The interrupt service routine does not touch the mask. -/
theorem irqMask_pushBtnIsr (pins : Nat → Pins) (b : Board) :
    (pushBtnIsr pins b).pushBtns.irqMask = b.pushBtns.irqMask := by
  have hread : ∀ base p b', (iordPioData base p b').2.pushBtns.irqMask = b'.pushBtns.irqMask :=
    fun base p b' => iord_irqMask base 0 p b'
  have hgreen : registerOf ledGreenBase = 0 := rfl
  unfold pushBtnIsr
  dsimp only
  split
  · rw [iowrPioData_irqMask hgreen, hread, hread]
  · rw [hread, hread]

/-- Nor does any statement of `main`. -/
theorem irqMask_mainStep (pins : Pins) (s : State) :
    (mainStep pins s).board.pushBtns.irqMask = s.board.pushBtns.irqMask := by
  have hgreen : registerOf ledGreenBase = 0 := rfl
  have hred : registerOf ledRedBase = 0 := rfl
  obtain ⟨pc, result, cpu, board⟩ := s
  cases pc with
  | writeLed => exact iowrPioData_irqMask hgreen _ pins board
  | irqInit => rfl
  | isrRegister => rfl
  | readSwitches => exact iord_irqMask switchesBase 0 pins board
  | writeRed out => exact iowrPioData_irqMask hred _ pins board

/-- **No step of the system writes the mask.** -/
theorem irqMask_step {s s' : State} (h : Step s s') :
    s'.board.pushBtns.irqMask = s.board.pushBtns.irqMask := by
  cases h with
  | main pins => exact irqMask_mainStep pins s
  | clock pins => exact posedge_idle_irqMask pins s.board
  | interrupt now pins hpending hisr => exact irqMask_pushBtnIsr pins s.board

/-- It keeps its reset value in every reachable state. -/
theorem irqMask_reachable {s : State} (h : Reachable s) : s.board.pushBtns.irqMask = 0 := by
  induction h with
  | entry cpu => rfl
  | step hreach hstep ih => rw [irqMask_step hstep, ih]

/-- So the interrupt is never pending, and the interrupt service routine never runs. -/
theorem not_pending_reachable {s : State} (h : Reachable s) (pins : Pins) :
    pending pins s = false := by
  rw [pending, PushBtns.irq_of_irqMask (irqMask_reachable h), Bool.and_false]

/-- The processor is ready for the button interrupt. -/
structure Cpu.Ready (c : Cpu) : Prop where
  pie : c.pie = true
  ienable : c.ienable.getLsbD pushBtnsIrq = true
  altIrq : c.altIrq pushBtnsIrq = some .pushBtnIsr

/-- What holds of the processor at each point of `main`. -/
structure CpuInv (s : State) : Prop where
  enabled : s.pc = .isrRegister → s.cpu.pie = true
  called : s.result ≠ none → s.result = some 0 ∧ s.cpu.Ready
  before : s.pc = .writeLed ∨ s.pc = .irqInit ∨ s.pc = .isrRegister → s.result = none

theorem ready_altIcIsrRegister {c : Cpu} (h : c.pie = true) :
    (c.altIcIsrRegister (BitVec.ofNat 32 pushBtnsIrq) (some .pushBtnIsr)).1 = 0
      ∧ (c.altIcIsrRegister (BitVec.ofNat 32 pushBtnsIrq) (some .pushBtnIsr)).2.Ready := by
  refine ⟨rfl, ⟨h, ?_, rfl⟩⟩
  show (c.altIrqActive ||| 1#32 <<< 1).getLsbD 1 = true
  rw [BitVec.getLsbD_or, Bool.or_eq_true]
  right
  decide

theorem cpuInv_step {s s' : State} (hs : CpuInv s) (h : Step s s') : CpuInv s' := by
  cases h with
  | main pins =>
    obtain ⟨pc, result, cpu, board⟩ := s
    obtain ⟨enabled, called, before⟩ := hs
    cases pc with
    | writeLed => exact ⟨nofun, fun hc => absurd (before (.inl rfl)) hc, fun _ => before (.inl rfl)⟩
    | irqInit =>
      have hnone : result = none := before (.inr (.inl rfl))
      exact ⟨fun _ => rfl, fun hc => absurd hnone hc, fun _ => hnone⟩
    | isrRegister =>
      obtain ⟨hzero, hready⟩ := ready_altIcIsrRegister (c := cpu) (enabled rfl)
      exact ⟨nofun, fun _ => ⟨congrArg some hzero, hready⟩, nofun⟩
    | readSwitches => exact ⟨nofun, called, nofun⟩
    | writeRed out => exact ⟨nofun, called, nofun⟩
  | clock pins => exact ⟨hs.enabled, hs.called, hs.before⟩
  | interrupt now pins hpending hisr => exact ⟨hs.enabled, hs.called, hs.before⟩

theorem cpuInv_reachable {s : State} (h : Reachable s) : CpuInv s := by
  induction h with
  | entry cpu => exact ⟨nofun, fun hc => absurd rfl hc, fun _ => rfl⟩
  | step hreach hstep ih => exact cpuInv_step ih hstep

/-- Registration succeeds and leaves the processor ready for the interrupt. -/
theorem ready_reachable {s : State} (h : Reachable s) (hcalled : s.result ≠ none) :
    s.result = some 0 ∧ s.cpu.Ready :=
  (cpuInv_reachable h).called hcalled

/-- **The button interrupt is never asserted.**  In every reachable state after the call of
    `alt_ic_isr_register`, which returned 0, the line is low whichever buttons are pressed. -/
theorem irq_never_asserted {s : State} (h : Reachable s) (hcalled : s.result ≠ none) :
    s.result = some 0
      ∧ ∀ inPort : BitVec 4, inPort ≠ 0 → ¬ s.board.pushBtns.irq inPort = true := by
  refine ⟨(ready_reachable h hcalled).1, fun inPort _ hirq => ?_⟩
  rw [PushBtns.irq_of_irqMask (irqMask_reachable h)] at hirq
  nomatch hirq

/-- The processor as the reset leaves it. -/
def Cpu.reset : Cpu := { pie := false, ienable := 0, altIrqActive := 0, altIrq := fun _ => none }

/-- The state after the first three statements of `main`. -/
def registered : State :=
  mainStep (firstButton 0) (mainStep (firstButton 0) (mainStep (firstButton 0) (entry .reset)))

theorem reachable_registered : Reachable registered :=
  .step (.step (.step (.entry .reset) (.main _ _)) (.main _ _)) (.main _ _)

/-- The theorem on that state, with the first button pressed. -/
theorem irq_never_asserted_registered : ¬ registered.board.pushBtns.irq 1 = true :=
  (irq_never_asserted reachable_registered (by decide)).2 1 (by decide)

/-- A press of the first button is lost there. -/
theorem button_interrupt_lost :
    ¬ ∀ s : State, Reachable s → s.result ≠ none →
      ∀ inPort : BitVec 4, inPort ≠ 0 → s.board.pushBtns.irq inPort = true := by
  intro h
  have hirq := h registered reachable_registered (by decide) 1 (by decide)
  rw [PushBtns.irq_of_irqMask (irqMask_reachable reachable_registered)] at hirq
  nomatch hirq

end GpsReceiver.Firmware
