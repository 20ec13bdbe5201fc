/-
  Termination of the interrupt routine `altera_avalon_jtag_uart_irq`.

  The routine returns only when the control register shows no pending interrupt, and the host may
  act between any two of its accesses.  While the host sends nothing, however it receives, every
  round of the routine makes progress:

  1. **Armed** — the routine is in its read part or its write part only while that interrupt is
     enabled, and it entered the write part with space in the FIFO.
  2. **Work** — `backlog` counts the characters that wait on both sides and the interrupts that are
     enabled.  A round takes a character, sends one or turns an interrupt off; `rank` orders the
     steps in between.
  3. **Run** — `routine_returns`: the routine is over when its work is done.
-/
import GpsReceiver.Firmware.JtagUartReceive
import GpsReceiver.Firmware.JtagUartTransmit

namespace GpsReceiver.Firmware.JtagUart

open Lib Lib.RingBuffer

/-- The host sends nothing. -/
def Event.silent : Event → Bool
  | .stall j | .interrupt j | .call _ j => !j.tEna
  | .proceed j j' => !j.tEna && !j'.tEna

/-- Steps of the processor. -/
def Event.steps : Event → Nat
  | .proceed _ _ => 1
  | _ => 0

section

variable {Q : Scfifo} {u u' : Uart Q}

open Uart

/-! ## Armed -/

/-- The write part that follows has its interrupt enabled and space to begin with. -/
def Isr.WriteArmed (u : Uart Q) (control : BitVec 32) : Prop :=
  control &&& wiMsk ≠ 0 → u.core.ienAE = true ∧ 0 < wspace control

/-- The interrupts that are enabled in each part of the routine. -/
def Isr.Armed (u : Uart Q) : Isr → Prop
  | .drain control _ | .rxOff control => u.core.ienAF = true ∧ WriteArmed u control
  | .rxDummy control => WriteArmed u control
  | .tx _ | .txOff => u.core.ienAE = true
  | .poll | .txDummy => True

theorem Isr.WriteArmed.keep {control : BitVec 32} (h : WriteArmed u control)
    (hae : u'.core.ienAE = u.core.ienAE) : WriteArmed u' control :=
  fun hwi => ⟨hae.trans (h hwi).1, (h hwi).2⟩

theorem Isr.armed_afterRx {control : BitVec 32} (h : WriteArmed u control) :
    (afterRx control).Armed u := by
  unfold afterRx
  split
  · rename_i hwi
    exact (h hwi).1
  · trivial

theorem Isr.armed_afterDrain {control data : BitVec 32} (haf : u.core.ienAF = true)
    (h : WriteArmed u control) : (afterDrain control data).Armed u := by
  unfold afterDrain
  split
  · exact ⟨haf, h⟩
  · exact armed_afterRx h

/-- What follows a step of the two loops. -/
theorem Isr.drain_next (sp : JtagUartState) (control data : BitVec 32) :
    ((drain control data).step sp).All fun _ next =>
      ∃ data', next = some (afterDrain control data') ∨ next = some (drain control data') := by
  simp only [Isr.step]
  split
  · exact ⟨data, Or.inl rfl⟩
  · intro v
    dsimp only
    split
    · exact ⟨v, Or.inl rfl⟩
    · exact ⟨v, Or.inr rfl⟩

theorem Isr.tx_next (sp : JtagUartState) (space : Nat) :
    ((tx space).step sp).All fun _ next =>
      next = some (tx (space - 1)) ∨ next = some txOff ∨ next = some poll := by
  simp only [Isr.step]
  split
  · exact fun _ => Or.inl rfl
  · split
    · exact Or.inr (Or.inl rfl)
    · exact Or.inr (Or.inr rfl)

/-- Only two steps change the enables. -/
theorem Isr.step_enables (sp : JtagUartState) {isr : Isr}
    (hrx : ∀ control, isr ≠ .rxOff control) (htx : isr ≠ .txOff) (ien : Bool) :
    (isr.step sp).ienAF ien = ien ∧ (isr.step sp).ienAE ien = ien := by
  cases isr with
  | rxOff control => exact absurd rfl (hrx control)
  | txOff => exact absurd rfl htx
  | drain control data =>
    simp only [Isr.step]
    split <;> exact ⟨rfl, rfl⟩
  | tx space =>
    simp only [Isr.step]
    split <;> exact ⟨rfl, rfl⟩
  | _ => exact ⟨rfl, rfl⟩

end

namespace Machine

open Uart

variable {Q : Scfifo} {m : Machine Q}

/-- The effect of a step of the routine. -/
theorem Base.routine {isr : Isr} (h : Base m) (hisr : m.isr = some isr) (j j' : Jtag) :
    Effect m.uart (m.uart.perform j j' (isr.step m.sp)).1 (isr.step m.sp).sent
      (if (isr.step m.sp).takes then m.uart.waiting.take 1 else [])
      ((isr.step m.sp).ienAF m.uart.core.ienAF) ((isr.step m.sp).ienAE m.uart.core.ienAE) := by
  have hsent := isr.step_sent m.sp
  have hspace := h.space isr hisr
  exact perform_law h.ready h.flags (isr.step m.sp)
    (fun hne => by have := List.length_pos_iff.mpr hne; omega) j j'

theorem armed_routine {isr : Isr} (hbase : Base m) (hisr : m.isr = some isr)
    (h : isr.Armed m.uart) (j j' : Jtag) :
    ∀ isr' ∈ (m.uart.perform j j' (isr.step m.sp)).2.2,
      isr'.Armed (m.uart.perform j j' (isr.step m.sp)).1 := by
  have heff := hbase.routine hisr j j'
  have haf := heff.ienAF
  have hae := heff.ienAE
  cases isr with
  | poll =>
    have hvalue := readControl_law hbase.ready hbase.flags j j'
    intro isr' hisr'
    have hisr' : Isr.afterPoll _ = some isr' := hisr'
    rcases Isr.afterPoll_cases (m.uart.access .readControl j j').1 with hp | ⟨hri, hp⟩ | ⟨hwi, hp⟩ <;>
      rw [hp] at hisr' <;> cases hisr'
    · exact ⟨(hvalue.ri hri).2, hvalue.wi⟩
    · exact (hvalue.wi hwi).1
  | drain control data =>
    have hen := (Isr.drain control data).step_enables m.sp nofun nofun
    rw [(hen _).1] at haf
    rw [(hen _).2] at hae
    intro isr' hisr'
    obtain ⟨data', hnext | hnext⟩ :=
      perform_all (u := m.uart) (Isr.drain_next m.sp control data) j j' <;>
      rw [hnext] at hisr' <;> obtain rfl := Option.some.inj hisr'
    · exact Isr.armed_afterDrain (haf.trans h.1) (h.2.keep hae)
    · exact ⟨haf.trans h.1, h.2.keep hae⟩
  | rxOff control =>
    rintro _ ⟨⟩
    exact h.2.keep (hae.trans ((and_not_reMsk_one _).trans hbase.ienAE))
  | rxDummy control =>
    rintro _ ⟨⟩
    exact Isr.armed_afterRx (h.keep hae)
  | tx space =>
    have hen := (Isr.tx space).step_enables m.sp nofun nofun
    rw [(hen _).2] at hae
    intro isr' hisr'
    rcases perform_all (u := m.uart) (Isr.tx_next m.sp space) j j' with hp | hp | hp <;>
      rw [hp] at hisr' <;> cases hisr'
    · exact hae.trans h
    · exact hae.trans h
    · trivial
  | txOff =>
    rintro _ ⟨⟩
    trivial
  | txDummy =>
    rintro _ ⟨⟩
    trivial

theorem Reachable.armed (h : Reachable m) : ∀ isr ∈ m.isr, isr.Armed m.uart := by
  refine (h.invariant (P := fun m => ∀ isr ∈ m.isr, isr.Armed m.uart) nofun ?_).2
  intro m m' hbase harmed hdoes
  cases hdoes with
  | stall j =>
    have heff := idle_law hbase.ready hbase.flags j
    intro isr hisr
    have h := harmed isr hisr
    cases isr with
    | drain control data => exact ⟨heff.ienAF.trans h.1, h.2.keep heff.ienAE⟩
    | rxOff control => exact ⟨heff.ienAF.trans h.1, h.2.keep heff.ienAE⟩
    | rxDummy control => exact h.keep heff.ienAE
    | tx space => exact heff.ienAE.trans h
    | txOff => exact heff.ienAE.trans h
    | _ => trivial
  | interrupt j idle armed irq =>
    rintro _ ⟨⟩
    trivial
  | call c j idle outside =>
    intro isr hisr
    rw [idle] at hisr
    nomatch hisr
  | program action j j' idle next =>
    intro isr hisr
    rw [idle] at hisr
    nomatch hisr
  | routine isr j j' active => exact armed_routine hbase active (harmed isr active) j j'

end Machine

/-! ## Work -/

/-- The characters that wait on both sides and the interrupts that are enabled. -/
def backlog {Q : Scfifo} (u : Uart Q) (p : Program) : Nat :=
  u.waiting.length + (p.accepted.length - u.toHost.length) + u.core.ienAF.toNat
    + u.core.ienAE.toNat

/-- The order of the steps of a round: low before one that makes progress, high after it. -/
def Isr.rank (sp : JtagUartState) (waiting : List Byte) : Isr → Nat
  | .poll => 10
  | .drain _ data =>
    if (sp.rxIn + 1) % bufLen = sp.rxOut then if data &&& ravailMsk ≠ 0 then 5 else 11
    else if waiting ≠ [] then 5 else 11
  | .rxOff _ => 4
  | .rxDummy _ => 11
  | .tx space => if 0 < space then 1 else 11
  | .txOff => 0
  | .txDummy => 11

/-- The work left to the routine. -/
def Machine.work {Q : Scfifo} (m : Machine Q) : Nat :=
  12 * backlog m.uart m.program + m.isr.elim 0 (Isr.rank m.sp m.uart.waiting)

section

variable {Q : Scfifo} {u u' : Uart Q} {sp : JtagUartState}

open Uart

theorem Isr.rank_le (sp : JtagUartState) (waiting : List Byte) (isr : Isr) :
    isr.rank sp waiting ≤ 11 := by
  unfold rank
  cases isr <;> simp only <;> (repeat' split) <;> decide

theorem Isr.rank_afterRx {control : BitVec 32} (h : WriteArmed u control)
    (sp : JtagUartState) (waiting : List Byte) :
    (afterRx control).rank sp waiting ≤ 10 := by
  unfold afterRx
  split
  · rename_i hwi
    show (if 0 < wspace control then 1 else 11) ≤ 10
    rw [if_pos (h hwi).2]
    decide
  · exact Nat.le_refl _

theorem Isr.rank_afterDrain {control : BitVec 32} (h : WriteArmed u control) (data : BitVec 32)
    (sp : JtagUartState) (waiting : List Byte) : (afterDrain control data).rank sp waiting ≤ 10 := by
  unfold afterDrain
  split
  · exact (by decide : 4 ≤ 10)
  · exact rank_afterRx h sp waiting

/-- The host sends nothing in a silent cycle. -/
theorem silent_posedge {bus : Avalon} {j : Jtag} (h : j.tEna = false) :
    (u.posedge bus j).host.admitted = u.host.admitted := by
  show u.host.admitted ++ (if j.tEna && !Q.full u.core.rfifo then [j.tDat] else []) = _
  rw [h]
  exact List.append_nil _

theorem silent_perform {P : Type} (a : Action P) {j j' : Jtag} (h : j.tEna = false)
    (h' : j'.tEna = false) : (u.perform j j' a).1.host.admitted = u.host.admitted := by
  cases a with
  | cpu sp p => exact silent_posedge h
  | io op k => exact (silent_posedge h').trans (silent_posedge h)

/-- What an effect does to the backlog while the host sends nothing. -/
theorem backlog_effect {sent taken : List Byte} {af ae : Bool} (heff : Effect u u' sent taken af ae)
    (hsilent : u'.host.admitted = u.host.admitted) (p : Program) :
    taken ++ u'.waiting = u.waiting
      ∧ backlog u' p = u'.waiting.length + (p.accepted.length - (u.toHost.length + sent.length))
        + af.toNat + ae.toNat := by
  obtain ⟨new, hsent, hwait⟩ := heff.feeds
  rw [hsilent] at hsent
  have hnil : new = [] := List.append_right_eq_self.mp hsent.symm
  rw [hnil, List.append_nil] at hwait
  refine ⟨hwait, ?_⟩
  unfold backlog
  rw [heff.toHost, heff.ienAF, heff.ienAE, List.length_append]

end

namespace Machine

open Uart

variable {Q : Scfifo} {m : Machine Q}

/-- The machine after a step of the routine. -/
def routine (m : Machine Q) (isr : Isr) (j j' : Jtag) : Machine Q :=
  { m with
    uart := (m.uart.perform j j' (isr.step m.sp)).1
    sp := (m.uart.perform j j' (isr.step m.sp)).2.1
    isr := (m.uart.perform j j' (isr.step m.sp)).2.2 }

/-- **Variant.**  A step of the routine ends it or does some of its work. -/
theorem work_routine {isr : Isr} (hbase : Base m)
    (htx : Tx m.sp m.program m.isr m.uart.toHost) (hisr : m.isr = some isr)
    (harmed : isr.Armed m.uart) {j j' : Jtag} (hj : j.tEna = false) (hj' : j'.tEna = false) :
    (m.routine isr j j').isr = none ∨ (m.routine isr j j').work + 1 ≤ m.work := by
  have heff := hbase.routine hisr j j'
  obtain ⟨hwait, hback⟩ := backlog_effect heff (silent_perform _ hj hj') m.program
  have hwork : m.work = 12 * backlog m.uart m.program + isr.rank m.sp m.uart.waiting := by
    rw [work, hisr]
    rfl
  have hwork' : ∀ isr', (m.routine isr j j').isr = some isr' →
      (m.routine isr j j').work = 12 * backlog (m.routine isr j j').uart m.program
        + isr'.rank (m.routine isr j j').sp (m.routine isr j j').uart.waiting := by
    intro isr' h
    rw [work, h]
    rfl
  -- without an access the backlog stays
  have hsame : (isr.step m.sp).sent = [] → (isr.step m.sp).takes = false →
      (∀ ien, (isr.step m.sp).ienAF ien = ien ∧ (isr.step m.sp).ienAE ien = ien) →
      backlog (m.routine isr j j').uart m.program = backlog m.uart m.program
        ∧ (m.routine isr j j').uart.waiting = m.uart.waiting := by
    intro hsent htakes hen
    rw [htakes, if_neg Bool.false_ne_true, List.nil_append] at hwait
    refine ⟨hback.trans ?_, hwait⟩
    rw [hwait, hsent, (hen _).1, (hen _).2]
    rfl
  cases isr with
  | poll =>
    obtain ⟨hb, hw⟩ := hsame rfl rfl fun _ => ⟨rfl, rfl⟩
    have hvalue := readControl_law hbase.ready hbase.flags j j'
    have hnext : (m.routine .poll j j').isr = Isr.afterPoll (m.uart.access .readControl j j').1 :=
      rfl
    rcases Isr.afterPoll_cases (m.uart.access .readControl j j').1 with hp | ⟨hri, hp⟩ | ⟨hwi, hp⟩
    · exact Or.inl (hnext.trans hp)
    · right
      have hrank : Isr.rank (m.routine .poll j j').sp (m.routine .poll j j').uart.waiting
          (.drain (m.uart.access .readControl j j').1 ((1 : BitVec 32) <<< ravailOfst)) = 5 := by
        have hne : (m.routine .poll j j').uart.waiting ≠ [] := (hvalue.ri hri).1
        have hravail : ((1 : BitVec 32) <<< ravailOfst) &&& ravailMsk ≠ 0 := by decide
        unfold Isr.rank
        simp only [if_pos hne, if_pos hravail, ite_self]
      rw [hwork' _ (hnext.trans hp), hwork, hb, hrank]
      show _ + 5 + 1 ≤ _ + 10
      omega
    · right
      have hrank : Isr.rank (m.routine .poll j j').sp (m.routine .poll j j').uart.waiting
          (.tx (Isr.wspace (m.uart.access .readControl j j').1)) = 1 := if_pos (hvalue.wi hwi).2
      rw [hwork' _ (hnext.trans hp), hwork, hb, hrank]
      show _ + 1 + 1 ≤ _ + 10
      omega
  | drain control data =>
    have hdrain : Isr.rank m.sp m.uart.waiting (.drain control data)
        = if (m.sp.rxIn + 1) % bufLen = m.sp.rxOut then if data &&& ravailMsk ≠ 0 then 5 else 11
          else if m.uart.waiting ≠ [] then 5 else 11 := rfl
    have hen := (Isr.drain control data).step_enables m.sp nofun nofun
    right
    by_cases hfull : (m.sp.rxIn + 1) % bufLen = m.sp.rxOut
    · have hstep : (Isr.drain control data).step m.sp
          = .cpu m.sp (some (Isr.afterDrain control data)) := if_pos hfull
      have hnext : (m.routine (.drain control data) j j').isr
          = some (Isr.afterDrain control data) := by
        show (m.uart.perform j j' _).2.2 = _
        rw [hstep]
        rfl
      obtain ⟨hb, _⟩ := hsame (by rw [hstep]; rfl) (by rw [hstep]; rfl) hen
      rw [hwork' _ hnext, hwork, hb, hdrain, if_pos hfull]
      by_cases hmore : data &&& ravailMsk ≠ 0
      · -- the buffer is full and more characters wait: the interrupt is turned off
        rw [Isr.afterDrain, if_pos hmore, if_pos hmore]
        show _ + 4 + 1 ≤ _
        omega
      · rw [if_neg hmore]
        have hle := Isr.rank_afterDrain harmed.2 data (m.routine (.drain control data) j j').sp
          (m.routine (.drain control data) j j').uart.waiting
        omega
    · have hstep : (Isr.drain control data).step m.sp = .io .readData fun v =>
          if v &&& rvalidMsk = 0 then (m.sp, some (Isr.afterDrain control v))
          else
            ({ m.sp with
                rxBuf := Function.update m.sp.rxBuf m.sp.rxIn ((v &&& dataMsk).setWidth 8)
                rxIn := (m.sp.rxIn + 1) % bufLen },
              some (.drain control v)) := if_neg hfull
      have hsent : ((Isr.drain control data).step m.sp).sent = [] := by
        rw [hstep]
        rfl
      have htakes : ((Isr.drain control data).step m.sp).takes = true := by
        rw [hstep]
        rfl
      have hnext : (m.routine (.drain control data) j j').isr
          = (if (m.uart.access .readData j j').1 &&& rvalidMsk = 0 then
              some (Isr.afterDrain control (m.uart.access .readData j j').1)
            else some (.drain control (m.uart.access .readData j j').1)) := by
        show (m.uart.perform j j' _).2.2 = _
        rw [hstep]
        show (if _ then (m.sp, _) else _ : JtagUartState × Option Isr).2 = _
        split <;> rfl
      obtain ⟨hvalid, _⟩ := readData_law hbase.ready j j'
      rw [htakes, if_pos rfl] at hwait
      rw [hsent, (hen _).1, (hen _).2] at hback
      have hback : backlog (m.routine (.drain control data) j j').uart m.program = _ := hback
      have hwait : m.uart.waiting.take 1 ++ (m.routine (.drain control data) j j').uart.waiting
        = m.uart.waiting := hwait
      cases hold : m.uart.waiting with
      | nil =>
        -- the last character was taken before
        rw [if_pos (by_contra fun hne => hvalid.mp hne hold)] at hnext
        rw [hold, List.take_nil, List.nil_append] at hwait
        have hb : backlog (m.routine (.drain control data) j j').uart m.program
            = backlog m.uart m.program := by
          rw [hback, backlog, hold]
          show (m.routine (.drain control data) j j').uart.waiting.length + _ + _ + _ = _
          rw [hwait]
          rfl
        have hle := Isr.rank_afterDrain harmed.2 (m.uart.access .readData j j').1
          (m.routine (.drain control data) j j').sp
          (m.routine (.drain control data) j j').uart.waiting
        rw [hwork' _ hnext, hwork, hb, hdrain, if_neg hfull, hold, if_neg (fun h => h rfl)]
        omega
      | cons b bs =>
        -- a character is taken
        have hne : m.uart.waiting ≠ [] := by
          rw [hold]
          exact List.cons_ne_nil b bs
        rw [if_neg (hvalid.mpr hne)] at hnext
        have hlen := congrArg List.length hwait
        rw [List.length_append, hold] at hlen
        have hlen : 1 + (m.routine (.drain control data) j j').uart.waiting.length = bs.length + 1 :=
          hlen
        have hb : backlog (m.routine (.drain control data) j j').uart m.program + 1
            = backlog m.uart m.program := by
          rw [hback, backlog, hold, List.length_nil, List.length_cons]
          show (m.routine (.drain control data) j j').uart.waiting.length + _ + _ + _ + 1 = _
          omega
        have hle := Isr.rank_le (m.routine (.drain control data) j j').sp
          (m.routine (.drain control data) j j').uart.waiting
          (.drain control (m.uart.access .readData j j').1)
        rw [hwork' _ hnext, hwork, hdrain, if_neg hfull, if_pos hne]
        omega
  | rxOff control =>
    right
    have haf : (Isr.rxOff control |>.step m.sp).ienAF m.uart.core.ienAF = false :=
      and_not_reMsk_zero _
    have hae : (Isr.rxOff control |>.step m.sp).ienAE m.uart.core.ienAE = m.uart.core.ienAE :=
      (and_not_reMsk_one _).trans hbase.ienAE
    rw [haf, hae] at hback
    have hwait : (m.routine (.rxOff control) j j').uart.waiting = m.uart.waiting := hwait
    have hback : backlog (m.routine (.rxOff control) j j').uart m.program = _ := hback
    rw [hwork' (.rxDummy control) rfl, hwork, hback]
    show 12 * ((m.routine (.rxOff control) j j').uart.waiting.length + (_ - (_ + 0)) + 0 + _) + 11 + 1
      ≤ 12 * backlog m.uart m.program + 4
    rw [hwait, backlog, harmed.1]
    show _ ≤ 12 * (_ + _ + 1 + _) + 4
    omega
  | rxDummy control =>
    right
    obtain ⟨hb, _⟩ := hsame rfl rfl fun _ => ⟨rfl, rfl⟩
    have hle := Isr.rank_afterRx harmed (m.routine (.rxDummy control) j j').sp
      (m.routine (.rxDummy control) j j').uart.waiting
    rw [hwork' (Isr.afterRx control) rfl, hwork, hb]
    show _ ≤ _ + 11
    omega
  | tx space =>
    right
    have hrank : Isr.rank m.sp m.uart.waiting (.tx space) = if 0 < space then 1 else 11 := rfl
    have hen := (Isr.tx space).step_enables m.sp nofun nofun
    by_cases hsend : 0 < space ∧ m.sp.txOut ≠ m.sp.txIn
    · -- a character is sent
      have hstep : (Isr.tx space).step m.sp
          = .io (.writeData ((m.sp.txBuf m.sp.txOut).signExtend 32)) fun _ =>
            ({ m.sp with txOut := (m.sp.txOut + 1) % bufLen }, some (.tx (space - 1))) :=
        if_pos hsend
      have hsent : ((Isr.tx space).step m.sp).sent.length = 1 := by
        rw [hstep]
        rfl
      have htakes : ((Isr.tx space).step m.sp).takes = false := by
        rw [hstep]
        rfl
      have hnext : (m.routine (.tx space) j j').isr = some (.tx (space - 1)) := by
        show (m.uart.perform j j' _).2.2 = _
        rw [hstep]
        rfl
      rw [htakes, if_neg Bool.false_ne_true, List.nil_append] at hwait
      rw [hsent, (hen _).1, (hen _).2, hwait] at hback
      have hback : backlog (m.routine (.tx space) j j').uart m.program = _ := hback
      have hmore : m.uart.toHost.length < m.program.accepted.length := by
        have hne := htx.window.inp_eq_out_iff.not.mp hsend.2.symm
        have hle := htx.window.le
        omega
      have hb : backlog (m.routine (.tx space) j j').uart m.program + 1
          = backlog m.uart m.program := by
        rw [hback, backlog]
        omega
      have hle := Isr.rank_le (m.routine (.tx space) j j').sp
        (m.routine (.tx space) j j').uart.waiting (.tx (space - 1))
      rw [hwork' _ hnext, hwork, hrank, if_pos hsend.1]
      omega
    · have hstep : (Isr.tx space).step m.sp = .cpu m.sp (some (if 0 < space then .txOff else .poll)) :=
        if_neg hsend
      have hnext : (m.routine (.tx space) j j').isr
          = some (if 0 < space then .txOff else .poll) := by
        show (m.uart.perform j j' _).2.2 = _
        rw [hstep]
        rfl
      obtain ⟨hb, _⟩ := hsame (by rw [hstep]; rfl) (by rw [hstep]; rfl) hen
      rw [hwork' _ hnext, hwork, hb, hrank]
      split
      · show _ + 0 + 1 ≤ _ + 1
        omega
      · show _ + 10 + 1 ≤ _ + 11
        omega
  | txOff =>
    right
    have haf : (Isr.txOff.step m.sp).ienAF m.uart.core.ienAF = m.uart.core.ienAF :=
      (and_not_weMsk_zero _).trans hbase.ienAF
    have hae : (Isr.txOff.step m.sp).ienAE m.uart.core.ienAE = false := and_not_weMsk_one _
    rw [haf, hae] at hback
    have hwait : (m.routine .txOff j j').uart.waiting = m.uart.waiting := hwait
    have hback : backlog (m.routine .txOff j j').uart m.program = _ := hback
    rw [hwork' .txDummy rfl, hwork, hback]
    show 12 * ((m.routine .txOff j j').uart.waiting.length + (_ - (_ + 0)) + _ + 0) + 11 + 1
      ≤ 12 * backlog m.uart m.program + 0
    rw [hwait, backlog, harmed]
    show _ ≤ 12 * (_ + _ + _ + 1) + 0
    omega
  | txDummy =>
    right
    obtain ⟨hb, _⟩ := hsame rfl rfl fun _ => ⟨rfl, rfl⟩
    rw [hwork' .poll rfl, hwork, hb]
    show _ + 10 + 1 ≤ _ + 11
    omega

/-- Time that passes does not add work. -/
theorem work_stalled (hbase : Base m) {j : Jtag} (hj : j.tEna = false) :
    ({ m with uart := m.stalled j } : Machine Q).work = m.work := by
  obtain ⟨hwait, hback⟩ := backlog_effect (idle_law hbase.ready hbase.flags j) (silent_posedge hj)
    m.program
  have hwait : (m.stalled j).waiting = m.uart.waiting := hwait
  have hback : backlog (m.stalled j) m.program = _ := hback
  show 12 * backlog (m.stalled j) m.program + m.isr.elim 0 (Isr.rank m.sp (m.stalled j).waiting) = _
  rw [hback, hwait]
  show 12 * ((m.stalled j).waiting.length + _ + _ + _) + _ = _
  rw [hwait]
  rfl

/-- The work is bounded. -/
theorem work_lt (h : Reachable m) : m.work < 25368 := by
  obtain ⟨_, htx⟩ := h.tx
  have hrank : m.isr.elim 0 (Isr.rank m.sp m.uart.waiting) ≤ 11 := by
    cases m.isr with
    | none => exact Nat.zero_le _
    | some isr => exact Isr.rank_le _ _ isr
  have hwait : m.uart.waiting.length ≤ 64 := Q.words_le _
  have hlt := htx.window.lt
  have haf := Bool.toNat_le m.uart.core.ienAF
  have hae := Bool.toNat_le m.uart.core.ienAE
  have hN : bufLen = 2048 := rfl
  show 12 * (_ + _ + _ + _) + _ < _
  omega

/-- **The interrupt routine returns.**  Its work is bounded, and while the host sends nothing,
    whatever it takes meanwhile and however long the processor is stalled, the routine is over
    before it has taken more steps. -/
theorem routine_returns (h : Reachable m) :
    m.work < 25368 ∧ ∀ es m', (∀ e ∈ es, e.silent = true) → m.work < (es.map Event.steps).sum →
      Transition.run step m es = some m' →
      ∃ es₁ m₁, es₁ <+: es ∧ Transition.run step m es₁ = some m₁ ∧ m₁.isr = none := by
  refine ⟨work_lt h, fun es m' hsilent hsteps hrun =>
    Transition.exists_prefix Event.steps work ?_ h hsilent hsteps hrun⟩
  intro m e m' hreach hactive hsilent hstep
  obtain ⟨hbase, htx⟩ := Reachable.tx hreach
  refine ⟨Transition.Reachable.next e hreach hstep, ?_⟩
  obtain ⟨isr, hisr⟩ := Option.ne_none_iff_exists'.mp hactive
  cases e with
  | stall j =>
    obtain rfl := Option.some.inj hstep
    exact Or.inr (Nat.le_of_eq (work_stalled hbase (Bool.not_eq_true' _ ▸ hsilent)))
  | interrupt j =>
    simp [step, hisr] at hstep
  | call c j =>
    simp [step, hisr] at hstep
  | proceed j j' =>
    simp only [step, hisr] at hstep
    obtain rfl := Option.some.inj hstep
    have hsilent : (!j.tEna && !j'.tEna) = true := hsilent
    rw [Bool.and_eq_true, Bool.not_eq_true', Bool.not_eq_true'] at hsilent
    exact work_routine hbase htx hisr (hreach.armed isr hisr) hsilent.1 hsilent.2

/-- The routine is entered while a `read` waits, and sends one character. -/
theorem routine_returns_one :
    ∃ m m₁ : Machine listFifo, Reachable m ∧ m.isr.isSome = true
      ∧ (∃ es₁, es₁ <+: List.replicate 47 go ∧ Transition.run step m es₁ = some m₁)
      ∧ m₁.isr = none := by
  obtain ⟨m, hm, htest⟩ := run_reaches
    (boot ++ [.call (.write [72] false) noSignal] ++ List.replicate 6 go
      ++ [.call (.read 1 false) noSignal] ++ List.replicate 5 go ++ [.interrupt noSignal])
    (fun m => m.isr.isSome && decide (m.work = 46)
      && (Transition.run step m (List.replicate 47 go)).isSome) (by decide +kernel)
  rw [Bool.and_eq_true, Bool.and_eq_true] at htest
  obtain ⟨⟨hactive, hwork⟩, hrun⟩ := htest
  obtain ⟨m', hrun⟩ := Option.isSome_iff_exists.mp hrun
  have hwork := of_decide_eq_true hwork
  obtain ⟨es₁, m₁, hpre, hrun₁, hdone⟩ := (routine_returns hm).2 (List.replicate 47 go) m'
    (fun e he => by rw [List.eq_of_mem_replicate he]; rfl) (by rw [hwork]; decide) hrun
  exact ⟨m, m₁, hm, hactive, ⟨es₁, hpre, hrun₁⟩, hdone⟩

end Machine

end GpsReceiver.Firmware.JtagUart
