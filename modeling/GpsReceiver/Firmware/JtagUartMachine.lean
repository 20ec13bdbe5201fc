/-
  The machine — the processor with the driver of the console, its JTAG UART and the host.

  1. **Steps** — `step` runs the interrupt routine while it is active and the program otherwise.
     In every cycle the host may do as it pleases; stalls stand for all the other instructions.
  2. **Inversion** — `Does` and `Program.Does` list what a step can be.
  3. **Laws** — `perform_law`: an action has the effect of its access.  The frame lemmas say which
     variables each side leaves alone.
  4. **Base** — what holds of the core and of its enables in every state reached, and the induction
     over runs, `Reachable.invariant`.
  5. **History** — `accepted` are the characters that the program was told were written,
     `delivered` those that it was given, both by the values its calls returned.
-/
import GpsReceiver.Firmware.JtagUartDriver
import GpsReceiver.Lib.Transition

namespace GpsReceiver.Firmware.JtagUart

open Lib

/-! ## The machine -/

/-- The core with the host, the memory of the driver, the program, and the interrupt routine while
    it runs. -/
structure Machine (Q : Scfifo) where
  uart : Uart Q
  sp : JtagUartState
  program : Program
  isr : Option Isr

/-- What happens next: a cycle without effect, an interrupt, a step of the processor, or a call of
    the driver. -/
inductive Event
  | stall (j : Jtag)
  | interrupt (j : Jtag)
  | proceed (j j' : Jtag)
  | call (c : Call) (j : Jtag)

/-- The clock cycles of an action. -/
def Uart.perform {Q : Scfifo} {P : Type} (u : Uart Q) (j j' : Jtag) :
    Action P → Uart Q × JtagUartState × P
  | .cpu sp p => (u.posedge idleBus j, sp, p)
  | .io op k => ((u.access op j j').2, k (u.access op j j').1)

namespace Machine

variable {Q : Scfifo}

/-- After reset, before `alt_sys_init`. -/
def reset : Machine Q :=
  { uart := .reset, sp := jtagUartInstance, program := { log := [], main := .init }, isr := none }

/-- The core after a cycle without an access. -/
def stalled (m : Machine Q) (j : Jtag) : Uart Q := m.uart.posedge idleBus j

/-- The next state, or nothing when the event is not possible: an interrupt needs its line and
    enables, a call that no other is under way. -/
def step (m : Machine Q) : Event → Option (Machine Q)
  | .stall j => some { m with uart := m.stalled j }
  | .interrupt j =>
    if m.isr.isNone && m.program.main.armed && m.uart.core.irq then
      some { m with uart := m.stalled j, isr := some .poll }
    else none
  | .proceed j j' =>
    match m.isr with
    | some isr =>
      let r := m.uart.perform j j' (isr.step m.sp)
      some { m with uart := r.1, sp := r.2.1, isr := r.2.2 }
    | none => (m.program.step m.sp).map fun action =>
      let r := m.uart.perform j j' action
      { m with uart := r.1, sp := r.2.1, program := r.2.2 }
  | .call c j =>
    match m.isr, m.program.main with
    | none, .idle =>
      some { m with uart := m.stalled j, program := { m.program with main := c.start } }
    | _, _ => none

/-- The states reached. -/
abbrev Reachable (m : Machine Q) : Prop := Transition.Reachable step reset m

/-- What a step can be. -/
inductive Does (m : Machine Q) : Machine Q → Prop
  | stall (j : Jtag) : Does m { m with uart := m.stalled j }
  | interrupt (j : Jtag) (idle : m.isr = none) (armed : m.program.main.armed = true)
      (irq : m.uart.core.irq = true) :
      Does m { m with uart := m.stalled j, isr := some .poll }
  | routine (isr : Isr) (j j' : Jtag) (active : m.isr = some isr) :
      Does m
        { m with
          uart := (m.uart.perform j j' (isr.step m.sp)).1
          sp := (m.uart.perform j j' (isr.step m.sp)).2.1
          isr := (m.uart.perform j j' (isr.step m.sp)).2.2 }
  | program (action : Action Program) (j j' : Jtag) (idle : m.isr = none)
      (next : m.program.step m.sp = some action) :
      Does m
        { m with
          uart := (m.uart.perform j j' action).1
          sp := (m.uart.perform j j' action).2.1
          program := (m.uart.perform j j' action).2.2 }
  | call (c : Call) (j : Jtag) (idle : m.isr = none) (outside : m.program.main = .idle) :
      Does m { m with uart := m.stalled j, program := { m.program with main := c.start } }

/-- **Inversion.** The list is complete. -/
theorem step_does {m m' : Machine Q} {e : Event} (h : m.step e = some m') : Does m m' := by
  cases e with
  | stall j =>
    cases h
    exact .stall j
  | interrupt j =>
    simp only [step] at h
    split at h
    · rename_i hc
      rw [Bool.and_eq_true, Bool.and_eq_true, Option.isNone_iff_eq_none] at hc
      cases h
      exact .interrupt j hc.1.1 hc.1.2 hc.2
    · nomatch h
  | proceed j j' =>
    simp only [step] at h
    split at h
    · rename_i isr hisr
      cases h
      exact .routine isr j j' hisr
    · rename_i hisr
      obtain ⟨action, haction, rfl⟩ := Option.map_eq_some_iff.mp h
      exact .program action j j' hisr haction
  | call c j =>
    simp only [step] at h
    split at h
    · rename_i hisr hmain
      cases h
      exact .call c j hisr hmain
    · nomatch h

end Machine

/-! ## Laws of an action -/

namespace Action

variable {P P' : Type}

/-- What the access of an action does, if it has one. -/
def sent : Action P → List Byte
  | .cpu _ _ => []
  | .io op _ => op.sent

/-- It takes a character from the core. -/
def takes : Action P → Bool
  | .cpu _ _ => false
  | .io op _ => op.takes

/-- The enable of the read interrupt after it. -/
def ienAF (ien : Bool) : Action P → Bool
  | .cpu _ _ => ien
  | .io op _ => op.ienAF ien

/-- That of the write interrupt. -/
def ienAE (ien : Bool) : Action P → Bool
  | .cpu _ _ => ien
  | .io op _ => op.ienAE ien

/-- What is written to the control register is `irq_enable`. -/
def Consistent (sp : JtagUartState) : Action P → Prop
  | .cpu sp' _ => sp'.irqEnable = sp.irqEnable
  | .io (.writeControl v) k => ∀ x, (k x).1.irqEnable = v
  | .io _ k => ∀ x, (k x).1.irqEnable = sp.irqEnable

/-- What an action leaves in memory satisfies `Φ`, whatever value it reads. -/
def All (Φ : JtagUartState → P → Prop) : Action P → Prop
  | .cpu sp p => Φ sp p
  | .io _ k => ∀ v, Φ (k v).1 (k v).2

@[simp] theorem map_sent (f : P → P') (a : Action P) : (a.map f).sent = a.sent := by
  cases a <;> rfl

@[simp] theorem map_takes (f : P → P') (a : Action P) : (a.map f).takes = a.takes := by
  cases a <;> rfl

/-- What comes after an access does not matter to its laws. -/
theorem map_consistent (f : P → P') {sp : JtagUartState} {a : Action P} (h : a.Consistent sp) :
    (a.map f).Consistent sp := by
  cases a with
  | cpu sp' p => exact h
  | io op k => cases op <;> exact h

/-- A weaker property, -/
theorem All.mono {Φ Ψ : JtagUartState → P → Prop} {a : Action P} (h : a.All Φ)
    (himp : ∀ sp p, Φ sp p → Ψ sp p) : a.All Ψ := by
  cases a with
  | cpu sp p => exact himp _ _ h
  | io op k => exact fun v => himp _ _ (h v)

/-- two properties at once, -/
theorem All.and {Φ Ψ : JtagUartState → P → Prop} {a : Action P} (h : a.All Φ) (h' : a.All Ψ) :
    a.All fun sp p => Φ sp p ∧ Ψ sp p := by
  cases a with
  | cpu sp p => exact ⟨h, h'⟩
  | io op k => exact fun v => ⟨h v, h' v⟩

/-- and a property of what comes after. -/
theorem map_all (f : P → P') {Φ : JtagUartState → P' → Prop} {a : Action P}
    (h : a.All fun sp p => Φ sp (f p)) : (a.map f).All Φ := by
  cases a with
  | cpu sp p => exact h
  | io op k => exact h

end Action

namespace Uart

variable {Q : Scfifo} {P : Type} {u : Uart Q}

/-- **An action**, if it sends only while there is space. -/
theorem perform_law (hready : u.Ready) (hflags : u.Flags) (a : Action P)
    (hspace : a.sent ≠ [] → u.pending.length < 64) (j j' : Jtag) :
    Effect u (u.perform j j' a).1 a.sent (if a.takes then u.waiting.take 1 else [])
      (a.ienAF u.core.ienAF) (a.ienAE u.core.ienAE) := by
  cases a with
  | cpu sp p => exact idle_law hready hflags j
  | io op k => exact access_law hready hflags op hspace j j'

/-- What holds whatever value is read holds of the state that the cycles leave. -/
theorem perform_all {Φ : JtagUartState → P → Prop} {a : Action P} (h : a.All Φ) (j j' : Jtag) :
    Φ (u.perform j j' a).2.1 (u.perform j j' a).2.2 := by
  cases a with
  | cpu sp p => exact h
  | io op k => exact h _

/-- The enables stay those of `irq_enable`. -/
theorem perform_enables {sp : JtagUartState} {a : Action P} (ha : a.Consistent sp) (j j' : Jtag)
    (haf : sp.irqEnable.getLsbD 0 = u.core.ienAF) (hae : sp.irqEnable.getLsbD 1 = u.core.ienAE) :
    (u.perform j j' a).2.1.irqEnable.getLsbD 0 = a.ienAF u.core.ienAF
      ∧ (u.perform j j' a).2.1.irqEnable.getLsbD 1 = a.ienAE u.core.ienAE := by
  cases a with
  | cpu sp' p =>
    have ha : sp'.irqEnable = sp.irqEnable := ha
    show sp'.irqEnable.getLsbD 0 = _ ∧ sp'.irqEnable.getLsbD 1 = _
    rw [ha]
    exact ⟨haf, hae⟩
  | io op k =>
    have hirq : ∀ x, (k x).1.irqEnable.getLsbD 0 = op.ienAF u.core.ienAF
        ∧ (k x).1.irqEnable.getLsbD 1 = op.ienAE u.core.ienAE := by
      intro x
      cases op with
      | writeControl v =>
        have ha : ∀ x, (k x).1.irqEnable = v := ha
        rw [ha x]
        exact ⟨rfl, rfl⟩
      | _ =>
        have ha : ∀ x, (k x).1.irqEnable = sp.irqEnable := ha
        rw [ha x]
        exact ⟨haf, hae⟩
    exact hirq _

end Uart

/-! ## What each side leaves alone -/

/-- The receive side, the transmit side and the timer of two states agree. -/
structure SameRx (sp sp' : JtagUartState) : Prop where
  rxIn : sp'.rxIn = sp.rxIn
  rxOut : sp'.rxOut = sp.rxOut
  rxBuf : sp'.rxBuf = sp.rxBuf

/-- The transmit side of two states agrees. -/
structure SameTx (sp sp' : JtagUartState) : Prop where
  txIn : sp'.txIn = sp.txIn
  txOut : sp'.txOut = sp.txOut
  txBuf : sp'.txBuf = sp.txBuf

/-- And so does the timer. -/
structure SameTimer (sp sp' : JtagUartState) : Prop where
  timeout : sp'.timeout = sp.timeout
  hostInactive : sp'.hostInactive = sp.hostInactive

/-- A step of the program that neither sends nor takes a character. -/
structure Action.Local {P : Type} (sp : JtagUartState) (a : Action P) : Prop where
  sent : a.sent = []
  takes : a.takes = false
  consistent : a.Consistent sp

/-- The log does not change that. -/
theorem Action.Local.map {P P' : Type} {sp : JtagUartState} {a : Action P} (f : P → P')
    (h : a.Local sp) : (a.map f).Local sp :=
  ⟨(map_sent f a).trans h.sent, (map_takes f a).trans h.takes, map_consistent f h.consistent⟩

/-- A write touches its buffer only, and the enables. -/
theorem Write.step_local (sp : JtagUartState) (w : Write) : (w.step sp).Local sp := by
  unfold Write.step
  constructor <;> cases w.pc <;> simp only <;> (repeat' split) <;> first | rfl | exact fun _ => rfl

/-- It leaves the receive side, the timer and the other end of its buffer alone. -/
theorem Write.step_frame (sp : JtagUartState) (w : Write) :
    (w.step sp).All fun sp' _ =>
      SameRx sp sp' ∧ SameTimer sp sp' ∧ sp'.txOut = sp.txOut := by
  unfold Write.step
  cases w.pc <;> simp only <;> (repeat' split) <;>
    first
      | exact ⟨⟨rfl, rfl, rfl⟩, ⟨rfl, rfl⟩, rfl⟩
      | exact fun _ => ⟨⟨rfl, rfl, rfl⟩, ⟨rfl, rfl⟩, rfl⟩

/-- A read touches its buffer only, and the enables. -/
theorem Read.step_local (sp : JtagUartState) (r : Read) : (r.step sp).Local sp := by
  unfold Read.step
  constructor <;> cases r.pc <;> simp only <;> (repeat' split) <;> first | rfl | exact fun _ => rfl

/-- It leaves the transmit side, the timer and the other end of its buffer alone. -/
theorem Read.step_frame (sp : JtagUartState) (r : Read) :
    (r.step sp).All fun sp' _ =>
      SameTx sp sp' ∧ SameTimer sp sp' ∧ sp'.rxIn = sp.rxIn ∧ sp'.rxBuf = sp.rxBuf := by
  unfold Read.step
  cases r.pc <;> simp only <;> (repeat' split) <;>
    first
      | exact ⟨⟨rfl, rfl, rfl⟩, ⟨rfl, rfl⟩, rfl, rfl⟩
      | exact fun _ => ⟨⟨rfl, rfl, rfl⟩, ⟨rfl, rfl⟩, rfl, rfl⟩

/-- The call that returns is the one under way. -/
theorem Write.step_returns (sp : JtagUartState) (w : Write) :
    (w.step sp).All fun _ x => ∀ c, x = .inr c →
      c = w.completed ∧ (sp.hostInactive = 0 → w.count = 0 ∨ w.nonblock = true) := by
  unfold Write.step
  cases w.pc with
  | kick =>
    intro v c
    dsimp only
    split
    · nofun
    · rename_i hstop
      rintro ⟨⟩
      refine ⟨rfl, fun _ => ?_⟩
      rcases Nat.eq_zero_or_pos w.count with hzero | hpos
      · exact Or.inl hzero
      · exact Or.inr (Bool.not_eq_false _ ▸ fun hblock => hstop ⟨hpos, hblock⟩)
  | spin =>
    dsimp only
    split
    · nofun
    · split
      · rename_i hinactive
        rintro _ ⟨⟩
        exact ⟨rfl, fun hzero => absurd hzero hinactive⟩
      · nofun
  | _ =>
    dsimp only
    split <;> nofun

/-- A read returns at its end only. -/
theorem Read.step_returns (sp : JtagUartState) (r : Read) :
    (r.step sp).All fun _ x => ∀ c, x = .inr c → c = r.completed ∧ r.pc = .post := by
  unfold Read.step
  cases r.pc with
  | post =>
    dsimp only
    split
    · rintro _ _ ⟨⟩
      exact ⟨rfl, rfl⟩
    · rintro _ ⟨⟩
      exact ⟨rfl, rfl⟩
  | test => nofun
  | load => nofun
  | after => nofun
  | recheck => nofun
  | _ =>
    dsimp only
    split <;> nofun

/-- The routine writes the enables that it notes in `irq_enable`. -/
theorem Isr.step_consistent (sp : JtagUartState) (isr : Isr) : (isr.step sp).Consistent sp := by
  cases isr <;> unfold Isr.step <;> simp only <;> (repeat' split) <;>
    first
      | rfl
      | exact fun _ => rfl
      | (intro v; show (if _ then _ else _ : JtagUartState × Option Isr).1.irqEnable = _; split <;> rfl)

/-- It leaves the timer alone, and of the buffers the ends that belong to the program. -/
theorem Isr.step_frame (sp : JtagUartState) (isr : Isr) :
    (isr.step sp).All fun sp' _ =>
      SameTimer sp sp' ∧ sp'.rxOut = sp.rxOut ∧ sp'.txIn = sp.txIn ∧ sp'.txBuf = sp.txBuf := by
  cases isr <;> unfold Isr.step <;> simp only <;> (repeat' split) <;>
    first
      | exact ⟨⟨rfl, rfl⟩, rfl, rfl, rfl⟩
      | exact fun _ => ⟨⟨rfl, rfl⟩, rfl, rfl, rfl⟩
      | (intro v; dsimp only; split <;> exact ⟨⟨rfl, rfl⟩, rfl, rfl, rfl⟩)

/-- The characters that the interrupt routine may still send. -/
def Isr.claim : Isr → Nat
  | .drain control _ | .rxOff control | .rxDummy control => wspace control
  | .tx space => space
  | _ => 0

/-- The space read at the beginning is what the transmit part starts with. -/
theorem Isr.claim_afterRx (control : BitVec 32) : (afterRx control).claim ≤ wspace control := by
  unfold afterRx
  split
  · exact Nat.le_refl _
  · exact Nat.zero_le _

theorem Isr.claim_afterDrain (control data : BitVec 32) :
    (afterDrain control data).claim ≤ wspace control := by
  unfold afterDrain
  split
  · exact Nat.le_refl _
  · exact claim_afterRx control

/-- The routine returns, or goes on with the part whose interrupt is pending. -/
theorem Isr.afterPoll_cases (control : BitVec 32) :
    afterPoll control = none
      ∨ control &&& riMsk ≠ 0
        ∧ afterPoll control = some (.drain control ((1 : BitVec 32) <<< ravailOfst))
      ∨ control &&& wiMsk ≠ 0 ∧ afterPoll control = some (.tx (wspace control)) := by
  unfold afterPoll
  split
  · exact Or.inl rfl
  · rename_i hne
    right
    split
    · rename_i hri
      exact Or.inl ⟨hri, rfl⟩
    · rename_i hri
      have hwi : control &&& wiMsk ≠ 0 := fun hwi => by
        rw [not_not] at hri
        exact hne (by rw [BitVec.and_or_distrib_left, hri, hwi]; rfl)
      exact Or.inr ⟨hwi, congrArg some (if_pos hwi)⟩

/-- The routine sends only what it claims. -/
theorem Isr.step_sent (sp : JtagUartState) (isr : Isr) :
    (isr.step sp).sent.length ≤ isr.claim := by
  cases isr with
  | tx space =>
    simp only [Isr.step]
    split
    · rename_i h
      exact h.1
    · exact Nat.zero_le _
  | drain control data =>
    simp only [Isr.step]
    split <;> exact Nat.zero_le _
  | _ => exact Nat.zero_le _

/-- Without a system clock `ioctl` refuses every request. -/
theorem ioctl_started {sp : JtagUartState} (h : sp.timeout = intMax) (req : Req) :
    ioctl sp req = (sp, -enotty, none) := by
  cases req <;> simp [ioctl, h]

/-- After its read of the control register the routine claims no more than before, less what it
    sends. -/
theorem Isr.claim_all (sp : JtagUartState) (isr : Isr) (hpoll : isr ≠ .poll) :
    (isr.step sp).All fun _ next =>
      ∀ isr' ∈ next, isr'.claim + (isr.step sp).sent.length ≤ isr.claim := by
  cases isr with
  | poll => exact absurd rfl hpoll
  | drain control data =>
    simp only [Isr.step]
    split
    · rintro _ ⟨⟩
      exact claim_afterDrain control data
    · intro v isr' hisr'
      dsimp only at hisr'
      split at hisr' <;> cases hisr'
      · exact claim_afterDrain control v
      · exact Nat.le_refl _
  | rxOff control =>
    rintro v _ ⟨⟩
    exact Nat.le_refl _
  | rxDummy control =>
    rintro v _ ⟨⟩
    exact claim_afterRx control
  | tx space =>
    simp only [Isr.step]
    split
    · rename_i h
      rintro v _ ⟨⟩
      show space - 1 + 1 ≤ space
      omega
    · rintro _ ⟨⟩
      split <;> exact Nat.zero_le _
  | txOff =>
    rintro v _ ⟨⟩
    exact Nat.le_refl _
  | txDummy =>
    rintro v _ ⟨⟩
    exact Nat.le_refl _

/-- What a step of the program can be. -/
inductive Program.Does (sp : JtagUartState) (p : Program) : Action Program → Prop
  | init (at_init : p.main = .init) :
      Does sp p (.io (.writeControl reMsk) fun _ =>
        ({ sp with irqEnable := reMsk }, { p with main := .register }))
  | register (at_register : p.main = .register) :
      Does sp p (.cpu { sp with hostInactive := 0 } { p with main := .alarm })
  | alarm (at_alarm : p.main = .alarm) :
      Does sp p (.cpu { sp with timeout := intMax } { p with main := .idle })
  | write (w : Write) (at_write : p.main = .write w) :
      Does sp p ((w.step sp).map (.goto p.log .write))
  | read (r : Read) (at_read : p.main = .read r) :
      Does sp p ((r.step sp).map (.goto p.log .read))
  | close (nonblock : Bool) (at_close : p.main = .close nonblock) :
      Does sp p (.cpu sp (.goto p.log (fun _ => .close nonblock)
        (if sp.txOut ≠ sp.txIn ∧ sp.hostInactive < sp.timeout then
          if nonblock then .inr (.closed nonblock (-ewouldblock)) else .inl ()
        else .inr (.closed nonblock 0) : Unit ⊕ Completed)))
  | ioctl (req : Req) (at_ioctl : p.main = .ioctl req) :
      Does sp p (.cpu (JtagUart.ioctl sp req).1
        { log := p.log ++ [.ioctl req (JtagUart.ioctl sp req).2.1 (JtagUart.ioctl sp req).2.2]
          main := .idle })

/-- **Inversion** for the program. -/
theorem Program.step_does {sp : JtagUartState} {p : Program} {a : Action Program}
    (h : p.step sp = some a) : Does sp p a := by
  unfold Program.step at h
  cases hmain : p.main with
  | idle =>
    rw [hmain] at h
    nomatch h
  | init =>
    rw [hmain] at h
    obtain rfl := Option.some.inj h
    exact .init hmain
  | register =>
    rw [hmain] at h
    obtain rfl := Option.some.inj h
    exact .register hmain
  | alarm =>
    rw [hmain] at h
    obtain rfl := Option.some.inj h
    exact .alarm hmain
  | write w =>
    rw [hmain] at h
    obtain rfl := Option.some.inj h
    exact .write w hmain
  | read r =>
    rw [hmain] at h
    obtain rfl := Option.some.inj h
    exact .read r hmain
  | close nonblock =>
    rw [hmain] at h
    obtain rfl := Option.some.inj h
    exact .close nonblock hmain
  | ioctl req =>
    rw [hmain] at h
    obtain rfl := Option.some.inj h
    exact .ioctl req hmain

/-- The calls come after the initialisation. -/
theorem Program.goto_started {α : Type} (log : List Completed) (main : α → Main)
    (h : ∀ frame, (main frame).started = true) (x : α ⊕ Completed) :
    (Program.goto log main x).main.started = true := by
  cases x with
  | inl frame => exact h frame
  | inr c => rfl

/-- The timer after the steps of the program, and that no call returns before the alarm. -/
structure Program.Started (p : Program) (sp : JtagUartState) : Prop where
  hostInactive : sp.hostInactive = 0
  timeout : p.main.started = true → sp.timeout = intMax
  fresh : p.main.started = false → p.log = []

/-- No step of the program sends or takes a character, and each keeps the timer as the
    initialisation left it. -/
theorem Program.does_local {sp : JtagUartState} {p : Program} {a : Action Program}
    (hdoes : Does sp p a) (h : p.Started sp) :
    a.Local sp ∧ a.All fun sp' p' => p'.Started sp' := by
  cases hdoes with
  | init at_init =>
    exact ⟨⟨rfl, rfl, fun _ => rfl⟩,
      fun _ => ⟨h.hostInactive, nofun, fun _ => h.fresh (by rw [at_init]; rfl)⟩⟩
  | register at_register =>
    exact ⟨⟨rfl, rfl, rfl⟩, rfl, nofun, fun _ => h.fresh (by rw [at_register]; rfl)⟩
  | alarm => exact ⟨⟨rfl, rfl, rfl⟩, h.hostInactive, fun _ => rfl, nofun⟩
  | write w at_write =>
    refine ⟨(w.step_local sp).map _, Action.map_all _ ((w.step_frame sp).mono ?_)⟩
    rintro sp' x ⟨_, htime, _⟩
    have hstarted := goto_started p.log Main.write (fun _ => rfl) x
    exact ⟨htime.hostInactive.trans h.hostInactive,
      fun _ => htime.timeout.trans (h.timeout (by rw [at_write]; rfl)),
      fun hnot => absurd hstarted (by rw [hnot]; decide)⟩
  | read r at_read =>
    refine ⟨(r.step_local sp).map _, Action.map_all _ ((r.step_frame sp).mono ?_)⟩
    rintro sp' x ⟨_, htime, _⟩
    have hstarted := goto_started p.log Main.read (fun _ => rfl) x
    exact ⟨htime.hostInactive.trans h.hostInactive,
      fun _ => htime.timeout.trans (h.timeout (by rw [at_read]; rfl)),
      fun hnot => absurd hstarted (by rw [hnot]; decide)⟩
  | close nonblock at_close =>
    have hstarted := goto_started p.log (fun _ : Unit => Main.close nonblock) (fun _ => rfl)
      (if sp.txOut ≠ sp.txIn ∧ sp.hostInactive < sp.timeout then
        if nonblock then .inr (.closed nonblock (-ewouldblock)) else .inl ()
      else .inr (.closed nonblock 0))
    exact ⟨⟨rfl, rfl, rfl⟩, h.hostInactive, fun _ => h.timeout (by rw [at_close]; rfl),
      fun hnot => absurd hstarted (by rw [hnot]; decide)⟩
  | ioctl req at_ioctl =>
    have htimeout := h.timeout (by rw [at_ioctl]; rfl)
    rw [ioctl_started htimeout]
    exact ⟨⟨rfl, rfl, rfl⟩, h.hostInactive, fun _ => htimeout, nofun⟩

/-! ## Base -/

namespace Machine

open Uart

variable {Q : Scfifo}

/-- The core is between two accesses, never overflowed, and its enables are those of `irq_enable`;
    there is space for what the interrupt routine still sends; the host counts as active. -/
structure Base (m : Machine Q) : Prop where
  ready : m.uart.Ready
  flags : m.uart.Flags
  woverflow : m.uart.core.woverflow = false
  ienAF : m.sp.irqEnable.getLsbD 0 = m.uart.core.ienAF
  ienAE : m.sp.irqEnable.getLsbD 1 = m.uart.core.ienAE
  space : ∀ isr ∈ m.isr, isr.claim + m.uart.pending.length ≤ 64
  started : m.program.Started m.sp

/-- The base holds after reset. -/
theorem base_reset : Base (reset : Machine Q) where
  ready := ⟨rfl, rfl, rfl⟩
  flags := ⟨(fun h => nomatch h), (fun h => nomatch h)⟩
  woverflow := rfl
  ienAF := BitVec.getLsbD_zero
  ienAE := BitVec.getLsbD_zero
  space := fun _ h => nomatch h
  started := ⟨rfl, nofun, fun _ => rfl⟩

/-- What the interrupt routine claims after a step. -/
theorem claim_step {u : Uart Q} (hready : u.Ready) (hflags : u.Flags) {sp : JtagUartState}
    {isr : Isr} (hspace : isr.claim + u.pending.length ≤ 64) (j j' : Jtag) :
    ∀ isr' ∈ (u.perform j j' (isr.step sp)).2.2,
      isr'.claim + (u.perform j j' (isr.step sp)).1.pending.length ≤ 64 := by
  have hsent := isr.step_sent sp
  have heff := perform_law hready hflags (isr.step sp)
    (fun h => by have := List.length_pos_iff.mpr h; omega) j j'
  have hpend := heff.pending
  by_cases hpoll : isr = .poll
  · subst hpoll
    have hvalue := (readControl_law hready hflags j j').wspace
    intro isr' hisr'
    have hle : isr'.claim ≤ Isr.wspace (u.access .readControl j j').1 := by
      have hisr' : Isr.afterPoll _ = some isr' := hisr'
      rcases Isr.afterPoll_cases (u.access .readControl j j').1 with h | ⟨_, h⟩ | ⟨_, h⟩ <;>
        rw [h] at hisr' <;> cases hisr' <;> exact Nat.le_refl _
    exact Nat.le_trans (Nat.add_le_add_right hle _) hvalue
  · intro isr' hisr'
    have hclaim := perform_all (u := u) (isr.claim_all sp hpoll) j j' isr' hisr'
    omega

/-- A step without access and without effect on the driver. -/
theorem Base.stalled {m : Machine Q} (h : Base m) (j : Jtag) {isr : Option Isr}
    (hisr : ∀ i ∈ isr, i ∈ m.isr ∨ i = .poll) {program : Program}
    (hstarted : program.Started m.sp) :
    Base { m with uart := m.stalled j, isr := isr, program := program } := by
  have heff := idle_law h.ready h.flags j
  refine ⟨heff.ready, heff.flags, heff.woverflow h.woverflow, h.ienAF.trans heff.ienAF.symm,
    h.ienAE.trans heff.ienAE.symm, fun i hi => ?_, hstarted⟩
  have hpend : (m.stalled j).pending.length ≤ m.uart.pending.length := heff.pending
  rcases hisr i hi with hold | rfl
  · have := h.space i hold
    show i.claim + (m.stalled j).pending.length ≤ 64
    omega
  · show 0 + (m.stalled j).pending.length ≤ 64
    rw [Nat.zero_add]
    exact Q.words_le _

/-- **Step.** The claims of the routine are what makes the space suffice: it sends no more than it
    found free, and nobody else sends. -/
theorem Base.step {m m' : Machine Q} (h : Base m) (hstep : Does m m') : Base m' := by
  have hstarted := h.started
  cases hstep with
  | stall j => exact h.stalled j (fun i hi => Or.inl hi) hstarted
  | interrupt j idle armed irq =>
    exact h.stalled j (fun i hi => Or.inr (Option.some.inj hi).symm) hstarted
  | call c j idle outside =>
    refine h.stalled j (fun i hi => Or.inl hi)
      ⟨hstarted.hostInactive, fun _ => hstarted.timeout (by rw [outside]; rfl), fun hnot => ?_⟩
    cases c <;> nomatch hnot
  | routine isr j j' active =>
    have hspace := h.space isr active
    have hsent := isr.step_sent m.sp
    have heff := perform_law h.ready h.flags (isr.step m.sp)
      (fun hne => by have := List.length_pos_iff.mpr hne; omega) j j'
    have hien := perform_enables (isr.step_consistent m.sp) j j' h.ienAF h.ienAE
    obtain ⟨htime, _⟩ := perform_all (u := m.uart) (isr.step_frame m.sp) j j'
    exact ⟨heff.ready, heff.flags, heff.woverflow h.woverflow, hien.1.trans heff.ienAF.symm,
      hien.2.trans heff.ienAE.symm, claim_step h.ready h.flags hspace j j',
      htime.hostInactive.trans hstarted.hostInactive,
      fun hs => htime.timeout.trans (hstarted.timeout hs), hstarted.fresh⟩
  | program action j j' idle next =>
    obtain ⟨hlocal, hall⟩ := Program.does_local (Program.step_does next) hstarted
    have heff := perform_law h.ready h.flags action (fun hne => absurd hlocal.sent hne) j j'
    have hien := perform_enables hlocal.consistent j j' h.ienAF h.ienAE
    refine ⟨heff.ready, heff.flags, heff.woverflow h.woverflow, hien.1.trans heff.ienAF.symm,
      hien.2.trans heff.ienAE.symm, fun isr hisr => ?_, perform_all (u := m.uart) hall j j'⟩
    rw [idle] at hisr
    nomatch hisr

/-- **Invariants.**  What holds after reset and is kept by every step, holds in every state
    reached. -/
theorem Reachable.invariant {P : Machine Q → Prop} (hreset : P Machine.reset)
    (hstep : ∀ m m', Base m → P m → Does m m' → P m') {m : Machine Q} (h : Reachable m) :
    Base m ∧ P m := by
  refine Transition.Reachable.invariant (P := fun m => Base m ∧ P m) ⟨base_reset, hreset⟩ ?_ h
  intro m e m' _ hm hnext
  have hdoes := step_does hnext
  exact ⟨hm.1.step hdoes, hstep m m' hm.1 hm.2 hdoes⟩

/-! A run with a FIFO kept in a list, for the machines that the results below are tried on. -/

/-- No signal from the host, and a step of the processor meanwhile. -/
def noSignal : Jtag := { rEna := false, tEna := false, tDat := 0, tPause := false }

/-- The next step of the processor. -/
def go : Event := .proceed noSignal noSignal

/-- The initialisation. -/
def boot : List Event := [go, go, go]

/-- A run on this FIFO gives a reachable state. -/
theorem run_reaches (es : List Event) (P : Machine listFifo → Bool)
    (h : (Transition.run step reset es).any P = true) : ∃ m, Reachable m ∧ P m = true :=
  Transition.Reachable.exists_of_run h

end Machine

/-! ## History -/

/-- The characters a call reported as written, and those it reported as read. -/
def Completed.accepted : Completed → List Byte
  | .wrote data _ ret => data.take ret.toNat
  | _ => []

def Completed.delivered : Completed → List Byte
  | .read _ _ buffer ret => buffer.take ret.toNat
  | _ => []

/-- Those the call under way is going to report. -/
def Main.accepted : Main → List Byte
  | .write w => w.data.take w.done
  | _ => []

def Main.delivered : Main → List Byte
  | .read r => r.got
  | _ => []

/-- The write or the read under way. -/
def Main.asWrite : Main → Option Write
  | .write w => some w
  | _ => none

def Main.asRead : Main → Option Read
  | .read r => some r
  | _ => none

/-- A call is what it is taken for. -/
theorem Main.of_asWrite {a : Main} {w : Write} (h : a.asWrite = some w) : a = .write w := by
  cases a <;> simp_all [Main.asWrite]

theorem Main.of_asRead {a : Main} {r : Read} (h : a.asRead = some r) : a = .read r := by
  cases a <;> simp_all [Main.asRead]

namespace Program

/-- All characters that the program was told were written. -/
def accepted (p : Program) : List Byte := p.log.flatMap Completed.accepted ++ p.main.accepted

/-- All characters that the program was given. -/
def delivered (p : Program) : List Byte := p.log.flatMap Completed.delivered ++ p.main.delivered

end Program

/-- A write returns the number of characters it has put, errors counting as none, -/
theorem Write.ret_toNat (w : Write) : w.ret.toNat = w.done := by
  unfold Write.ret
  split
  · exact Int.toNat_natCast _
  · split <;> simp_all [ewouldblock, eio]

/-- a read the number of those it has got. -/
theorem Read.ret_toNat (r : Read) : r.ret.toNat = r.got.length := by
  unfold Read.ret
  split
  · exact Int.toNat_natCast _
  · split <;> simp_all [ewouldblock, eio]

/-- So what a write reports is what it has put, -/
theorem Write.completed_accepted (w : Write) : w.completed.accepted = w.data.take w.done := by
  show w.data.take w.ret.toNat = _
  rw [w.ret_toNat]

/-- and what a read reports is what it has got. -/
theorem Read.completed_delivered (r : Read) : r.completed.delivered = r.got := by
  show r.got.take r.ret.toNat = _
  rw [r.ret_toNat, List.take_length]

/-- A call of one kind adds nothing to the history of the other. -/
theorem Completed.accepted_read {c : Completed} {r : Read} (h : c = r.completed) :
    c.accepted = [] := by
  rw [h]
  rfl

theorem Completed.delivered_write {c : Completed} {w : Write} (h : c = w.completed) :
    c.delivered = [] := by
  rw [h]
  rfl

/-- The histories after a step of a call. -/
theorem Program.goto_accepted {α : Type} (log : List Completed) (main : α → Main)
    (x : α ⊕ Completed) :
    (Program.goto log main x).accepted = log.flatMap Completed.accepted
      ++ x.elim (fun frame => (main frame).accepted) Completed.accepted := by
  cases x with
  | inl frame => rfl
  | inr c => simp [Program.goto, Program.accepted, Main.accepted]

theorem Program.goto_delivered {α : Type} (log : List Completed) (main : α → Main)
    (x : α ⊕ Completed) :
    (Program.goto log main x).delivered = log.flatMap Completed.delivered
      ++ x.elim (fun frame => (main frame).delivered) Completed.delivered := by
  cases x with
  | inl frame => rfl
  | inr c => simp [Program.goto, Program.delivered, Main.delivered]

end GpsReceiver.Firmware.JtagUart
