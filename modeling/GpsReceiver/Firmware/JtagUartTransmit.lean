/-
  The transmit side of the console: `write`, the ring buffer `tx_buf` and the write part of the
  interrupt routine.

  1. **Invariant** — `Tx`: the buffer holds what was accepted and has not left the processor; what
     has left is the beginning of it.  A call under way may know an old `tx_out` only
     (`Write.Sending`); it then sees less room than there is.
  2. **Steps** — `Write.step_tx` and `Isr.step_tx`, one for each side; every other step leaves the
     transmit side alone (`Tx.keep`).
  3. **Runs** — no character is lost, doubled or reordered (`transmit_conserves`), and a call that
     waits for room will be interrupted (`transmit_wakes`).
-/
import GpsReceiver.Firmware.JtagUartMachine

namespace GpsReceiver.Firmware.JtagUart

open Lib.RingBuffer

/-! ## Invariant -/

/-- The buffer was full when `tx_out` had the value `out`, or is full now. -/
def Full (out len taken : Nat) : Prop :=
  ∃ old, old ≤ taken ∧ out = old % bufLen ∧ len + 1 = old + bufLen

/-- A `memcpy` into the buffer. -/
structure Write.Copying (sp : JtagUartState) (w : Write) (len taken : Nat) : Prop where
  inp : w.inp = sp.txIn
  n_pos : 0 < w.n
  n_le : w.n ≤ w.count
  i_le : w.i ≤ w.n
  room : len + w.n < taken + bufLen
  fits : w.inp + w.n ≤ bufLen
  cell : ∀ k < w.i, sp.txBuf (w.inp + k) = w.data.getD (w.done + k) 0

/-- What a call knows at each point, when `len` characters were accepted and `taken` have left. -/
def Write.Assertion (sp : JtagUartState) (w : Write) (len taken : Nat) : Prop :=
  match w.pc with
  | .test => True
  | .loadOut => w.inp = sp.txIn ∧ 0 < w.count
  | .copy => w.Copying sp len taken
  | .kick => 0 < w.count → Full w.out len taken
  | .spin => 0 < w.count ∧ w.nonblock = false ∧ Full w.out len taken

structure Write.Sending (sp : JtagUartState) (w : Write) (len taken : Nat) : Prop where
  done_le : w.done ≤ w.data.length
  holds : w.Assertion sp len taken

/-- The transmit side, when `host` has left the processor.  While the buffer is not empty, write
    interrupts are enabled, or the call that filled it has yet to enable them. -/
structure Tx (sp : JtagUartState) (p : Program) (isr : Option Isr) (host : List Byte) : Prop where
  window : Window bufLen sp.txBuf sp.txIn sp.txOut p.accepted host.length
  sent : host = p.accepted.take host.length
  frame : ∀ w, p.main = .write w → w.Sending sp p.accepted.length host.length
  off : isr = some .txOff → host.length = p.accepted.length
  wake : host.length < p.accepted.length →
    sp.irqEnable.getLsbD 1 = true ∨ ∃ w, p.main = .write w ∧ w.pc ≠ .spin

section

variable {sp sp' : JtagUartState} {p p' : Program} {isr isr' : Option Isr} {host : List Byte}

theorem Full.mono {out len taken taken' : Nat} (h : Full out len taken) (hle : taken ≤ taken') :
    Full out len taken' := by
  obtain ⟨old, hold, hout, hfull⟩ := h
  exact ⟨old, Nat.le_trans hold hle, hout, hfull⟩

/-- Characters that leave meanwhile do not disturb a call. -/
theorem Write.Sending.mono {w : Write} {len taken taken' : Nat} (h : w.Sending sp len taken)
    (hle : taken ≤ taken') (hin : sp'.txIn = sp.txIn) (hbuf : sp'.txBuf = sp.txBuf) :
    w.Sending sp' len taken' := by
  refine ⟨h.done_le, ?_⟩
  have hholds := h.holds
  unfold Assertion at hholds ⊢
  cases hpc : w.pc <;> rw [hpc] at hholds <;> simp only at hholds ⊢
  · exact ⟨hholds.1.trans hin.symm, hholds.2⟩
  · obtain ⟨hinp, hpos, hn, hi, hroom, hfits, hcell⟩ := hholds
    refine ⟨hinp.trans hin.symm, hpos, hn, hi, by omega, hfits, fun k hk => ?_⟩
    rw [hbuf]
    exact hcell k hk
  · exact fun hcount => (hholds hcount).mono hle
  · exact ⟨hholds.1, hholds.2.1, hholds.2.2.mono hle⟩

/-- A step that has nothing to do with the transmit side. -/
theorem Tx.keep (h : Tx sp p isr host) (htx : SameTx sp sp')
    (hen : sp'.irqEnable.getLsbD 1 = sp.irqEnable.getLsbD 1) (hacc : p'.accepted = p.accepted)
    (hmain : ∀ w, p'.main = .write w ↔ p.main = .write w) (hisr : isr' ≠ some .txOff) :
    Tx sp' p' isr' host where
  window := by
    rw [htx.txIn, htx.txOut, htx.txBuf, hacc]
    exact h.window
  sent := by
    rw [hacc]
    exact h.sent
  frame := fun w hw => by
    rw [hacc]
    exact (h.frame w ((hmain w).mp hw)).mono (Nat.le_refl _) htx.txIn htx.txBuf
  off := fun hoff => absurd hoff hisr
  wake := fun hlt => by
    rw [hacc] at hlt
    rcases h.wake hlt with hon | ⟨w, hw, hpc⟩
    · exact Or.inl (hen.trans hon)
    · exact Or.inr ⟨w, (hmain w).mpr hw, hpc⟩

/-- A step of a call that neither stores nor transfers. -/
theorem Tx.goto {log : List Completed} {w w' : Write}
    (h : Tx sp { log := log, main := .write w } none host)
    (hdata : w'.data = w.data) (hdone : w'.done = w.done)
    (hholds : w'.Assertion sp ({ log := log, main := .write w } : Program).accepted.length
      host.length)
    (hwake : w'.pc = .spin → w.pc = .spin) :
    Tx sp { log := log, main := .write w' } none host := by
  have hacc : ({ log := log, main := .write w' } : Program).accepted
      = ({ log := log, main := .write w } : Program).accepted := by
    show _ ++ w'.data.take w'.done = _ ++ w.data.take w.done
    rw [hdata, hdone]
  refine ⟨hacc ▸ h.window, hacc ▸ h.sent, fun v hv => ?_, fun hoff => (nomatch hoff), fun hlt => ?_⟩
  · cases hv
    rw [hacc]
    exact ⟨by rw [hdone, hdata]; exact (h.frame w rfl).done_le, hholds⟩
  · rw [hacc] at hlt
    rcases h.wake hlt with hon | ⟨v, hv, hpc⟩
    · exact Or.inl hon
    · cases hv
      exact Or.inr ⟨w', rfl, fun hspin => hpc (hwake hspin)⟩

/-- A character of a `memcpy` goes to a free cell. -/
theorem Tx.store {log : List Completed} {w : Write}
    (h : Tx sp { log := log, main := .write w } none host)
    (hcopy : w.Copying sp ({ log := log, main := .write w } : Program).accepted.length host.length)
    (hi : w.i < w.n) :
    Tx { sp with txBuf := Function.update sp.txBuf (w.inp + w.i) (w.data.getD (w.done + w.i) 0) }
      { log := log, main := .write { w with pc := .copy, i := w.i + 1 } } none host := by
  obtain ⟨hinp, hpos, hn, _, hroom, hfits, hcell⟩ := hcopy
  have hindex : w.inp + w.i
      = (({ log := log, main := .write w } : Program).accepted.length + w.i) % bufLen := by
    rw [hinp, h.window.inp_eq] at hfits ⊢
    exact (mod_add_of_lt (by omega)).symm
  refine ⟨h.window.store (by omega) hindex _, h.sent, ?_, nofun, fun _ => Or.inr ⟨_, rfl, nofun⟩⟩
  rintro v ⟨⟩
  refine ⟨(h.frame w rfl).done_le, hinp, hpos, hn, hi, hroom, hfits, fun k hk => ?_⟩
  rcases Nat.lt_or_eq_of_le (Nat.le_of_lt_succ hk) with hlt | heq
  · have hne : w.inp + k ≠ w.inp + w.i := by omega
    exact (Function.update_of_ne hne _ _).trans (hcell k hlt)
  · rw [heq]
    exact Function.update_self _ _ _

/-- The characters of the `memcpy` that ends move from the call to the buffer. -/
theorem Tx.commit {log : List Completed} {w : Write}
    (h : Tx sp { log := log, main := .write w } none host)
    (hcopy : w.Copying sp ({ log := log, main := .write w } : Program).accepted.length host.length)
    (hi : w.i = w.n) :
    Tx { sp with txIn := (w.inp + w.n) % bufLen }
      { log := log, main := .write { w with pc := .test, done := w.done + w.n } } none host := by
  obtain ⟨hinp, hpos, hn, _, hroom, hfits, hcell⟩ := hcopy
  have hn : w.n ≤ w.data.length - w.done := hn
  have hacc : ({ log := log, main := .write { w with pc := .test, done := w.done + w.n } }
      : Program).accepted
      = ({ log := log, main := .write w } : Program).accepted ++ (w.data.drop w.done).take w.n := by
    show _ ++ w.data.take (w.done + w.n) = (_ ++ w.data.take w.done) ++ _
    rw [List.take_add, List.append_assoc]
  have hlen : ((w.data.drop w.done).take w.n).length = w.n := by
    rw [List.length_take, List.length_drop, Nat.min_eq_left hn]
  have hpublish := h.window.publish ((w.data.drop w.done).take w.n) (by rwa [hlen]) <| by
    intro j hj
    rw [hlen] at hj
    rw [hinp, h.window.inp_eq] at hfits hcell
    rw [mod_add_of_lt (by omega), hcell j (by omega), List.getElem_take, List.getElem_drop]
    exact (List.getElem_eq_getD 0).symm
  rw [hlen, ← hinp] at hpublish
  have hle := h.window.le
  refine ⟨hacc ▸ hpublish, ?_, ?_, nofun, fun _ => Or.inr ⟨_, rfl, nofun⟩⟩
  · rw [hacc, List.take_append_of_le_length hle]
    exact h.sent
  · rintro v ⟨⟩
    refine ⟨?_, trivial⟩
    have := (h.frame w rfl).done_le
    show w.done + w.n ≤ w.data.length
    omega

/-- A call returns when write interrupts are enabled or the buffer is empty. -/
theorem Tx.leave {log : List Completed} {w : Write}
    (h : Tx sp { log := log, main := .write w } none host) (htx : SameTx sp sp')
    (hon : host.length < ({ log := log, main := .write w } : Program).accepted.length →
      sp'.irqEnable.getLsbD 1 = true) :
    Tx sp' (Program.goto log .write (.inr w.completed)) none host := by
  have hacc : (Program.goto log .write (.inr w.completed)).accepted
      = ({ log := log, main := .write w } : Program).accepted := by
    rw [Program.goto_accepted]
    exact congrArg _ w.completed_accepted
  refine ⟨?_, hacc ▸ h.sent, nofun, nofun, fun hlt => Or.inl (hon (hacc ▸ hlt))⟩
  rw [htx.txIn, htx.txOut, htx.txBuf, hacc]
  exact h.window

/-- After filling the buffer a call enables write interrupts. -/
theorem Tx.kicked {log : List Completed} {w : Write}
    (h : Tx sp { log := log, main := .write w } none host) (hpc : w.pc = .kick) :
    Tx { sp with irqEnable := sp.irqEnable ||| weMsk }
      (Program.goto log .write
        (if 0 < w.count ∧ w.nonblock = false then .inl { w with pc := .spin }
          else .inr w.completed)) none host := by
  have hholds := (h.frame w rfl).holds
  unfold Write.Assertion at hholds
  rw [hpc] at hholds
  split
  · rename_i hwait
    refine ⟨h.window, h.sent, ?_, nofun, fun _ => Or.inl (or_weMsk_one _)⟩
    rintro v ⟨⟩
    exact ⟨(h.frame w rfl).done_le, hwait.1, hwait.2, hholds hwait.1⟩
  · exact h.leave ⟨rfl, rfl, rfl⟩ fun _ => or_weMsk_one _

/-- **Write.**  Every step of a call keeps the transmit side. -/
theorem Write.step_tx {log : List Completed} {w : Write}
    (h : Tx sp { log := log, main := .write w } none host) :
    (w.step sp).All fun sp' x => Tx sp' (Program.goto log .write x) none host := by
  have hholds := (h.frame w rfl).holds
  have hwin := h.window
  unfold Write.step
  unfold Assertion at hholds
  cases hpc : w.pc <;> rw [hpc] at hholds <;> simp only at hholds ⊢
  case test =>
    split
    · rename_i hcount
      exact h.goto rfl rfl ⟨rfl, hcount⟩ nofun
    · rename_i hcount
      exact h.goto rfl rfl (fun hpos => absurd hpos hcount) nofun
  case loadOut =>
    obtain ⟨hinp, hcount⟩ := hholds
    have hroom := room_spec hwin.le hwin.lt
    rw [← hwin.inp_eq, ← hwin.out_eq, ← hinp] at hroom
    split
    · rename_i hzero
      exact h.goto rfl rfl (fun _ => ⟨_, Nat.le_refl _, hwin.out_eq, hroom.2.2.mp hzero⟩) nofun
    · rename_i hpos
      refine h.goto rfl rfl ⟨hinp, ?_, Nat.min_le_right _ _, Nat.zero_le _, ?_, ?_, nofun⟩ nofun
      · show 0 < min _ w.count
        omega
      · show _ + min _ w.count < _
        omega
      · show w.inp + min _ w.count ≤ _
        omega
  case copy =>
    split
    · rename_i hi
      exact h.store hholds hi
    · rename_i hi
      exact h.commit hholds (Nat.le_antisymm hholds.i_le (Nat.le_of_not_lt hi))
  case kick => exact fun _ => h.kicked hpc
  case spin =>
    split
    · exact h
    · split
      · refine h.leave ⟨rfl, rfl, rfl⟩ fun hlt => (h.wake hlt).resolve_right ?_
        rintro ⟨v, ⟨⟩, hspin⟩
        exact hspin hpc
      · exact h.goto rfl rfl trivial nofun

theorem Isr.afterRx_ne (control : BitVec 32) : afterRx control ≠ .txOff := by
  unfold afterRx
  split <;> nofun

theorem Isr.afterDrain_ne (control data : BitVec 32) : afterDrain control data ≠ .txOff := by
  unfold afterDrain
  split
  · nofun
  · exact afterRx_ne control

/-- **Interrupt routine.**  It sends the oldest characters of the buffer, and turns write interrupts
    off only when none is left. -/
theorem Isr.step_tx {isr : Isr} (h : Tx sp p (some isr) host) :
    (isr.step sp).All fun sp' isr' => Tx sp' p isr' (host ++ (isr.step sp).sent) := by
  have hwin := h.window
  have hquiet : ∀ {sp' isr'}, SameTx sp sp' →
      sp'.irqEnable.getLsbD 1 = sp.irqEnable.getLsbD 1 → isr' ≠ some .txOff →
      Tx sp' p isr' (host ++ []) := by
    intro sp' isr' htx hen hisr
    rw [List.append_nil]
    exact h.keep htx hen rfl (fun _ => Iff.rfl) hisr
  cases isr with
  | poll =>
    refine fun v => hquiet ⟨rfl, rfl, rfl⟩ rfl ?_
    show afterPoll v ≠ _
    rcases afterPoll_cases v with h | ⟨_, h⟩ | ⟨_, h⟩ <;> rw [h] <;> simp
  | drain control data =>
    simp only [Isr.step]
    split
    · exact hquiet ⟨rfl, rfl, rfl⟩ rfl fun heq => afterDrain_ne _ _ (Option.some.inj heq)
    · intro v
      dsimp only
      split
      · exact hquiet ⟨rfl, rfl, rfl⟩ rfl fun heq => afterDrain_ne _ _ (Option.some.inj heq)
      · exact hquiet ⟨rfl, rfl, rfl⟩ rfl (by simp)
  | rxOff control => exact fun v => hquiet ⟨rfl, rfl, rfl⟩ (and_not_reMsk_one _) (by simp)
  | rxDummy control =>
    exact fun v => hquiet ⟨rfl, rfl, rfl⟩ rfl fun heq => afterRx_ne _ (Option.some.inj heq)
  | tx space =>
    simp only [Isr.step]
    split
    · rename_i hsend
      intro v
      have hlt : host.length < p.accepted.length := by
        have hne := hwin.inp_eq_out_iff.not.mp hsend.2.symm
        have hle := hwin.le
        omega
      have hbyte : ((sp.txBuf sp.txOut).signExtend 32).setWidth 8 = p.accepted[host.length] := by
        rw [← hwin.head hlt]
        exact signExtend_byte _
      have hhost : host ++ [((sp.txBuf sp.txOut).signExtend 32).setWidth 8]
          = p.accepted.take (host.length + 1) := by
        rw [hbyte, List.take_succ_eq_append_getElem hlt, ← h.sent]
      have hlen : (host ++ [((sp.txBuf sp.txOut).signExtend 32).setWidth 8]).length
          = host.length + 1 := List.length_append
      have htake := hwin.take (n := 1) hlt
      refine ⟨?_, ?_, fun w hw => ?_, by simp, fun hmore => h.wake (by omega)⟩
      · show Window _ _ _ _ _ (host ++ [_]).length
        rw [hlen]
        exact htake
      · show host ++ [_] = p.accepted.take (host ++ [_]).length
        rw [hlen]
        exact hhost
      · show w.Sending _ _ (host ++ [_]).length
        rw [hlen]
        exact (h.frame w hw).mono (Nat.le_succ _) rfl rfl
    · rename_i hstop
      split
      · rename_i hspace
        have hempty : sp.txIn = sp.txOut := by
          by_contra hne
          exact hstop ⟨hspace, Ne.symm hne⟩
        have hdone := hwin.inp_eq_out_iff.mp hempty
        show Tx sp p (some .txOff) (host ++ [])
        rw [List.append_nil]
        exact ⟨hwin, h.sent, h.frame, fun _ => hdone, h.wake⟩
      · exact hquiet ⟨rfl, rfl, rfl⟩ rfl (by simp)
  | txOff =>
    have hoff := h.off rfl
    intro v
    show Tx _ p (some .txDummy) (host ++ [])
    rw [List.append_nil]
    refine ⟨hwin, h.sent, fun w hw => (h.frame w hw).mono (Nat.le_refl _) rfl rfl, by simp, ?_⟩
    intro hlt
    omega
  | txDummy => exact fun v => hquiet ⟨rfl, rfl, rfl⟩ rfl (by simp)

/-- Reading leaves write interrupts alone. -/
theorem Read.step_ienAE (r : Read) :
    (r.step sp).All fun sp' _ => sp'.irqEnable.getLsbD 1 = sp.irqEnable.getLsbD 1 := by
  unfold Read.step
  cases r.pc <;> simp only <;> (repeat' split) <;>
    first | rfl | exact fun _ => or_reMsk_one _

/-- **Program.**  Every step keeps the transmit side. -/
theorem Program.does_tx {a : Action Program} (h : Tx sp p none host) (hstarted : p.Started sp)
    (hdoes : Does sp p a) : a.All fun sp' p' => Tx sp' p' none host := by
  -- a call that is no `write`, before and after
  have hother : ∀ {sp' p'}, SameTx sp sp' → sp'.irqEnable.getLsbD 1 = sp.irqEnable.getLsbD 1 →
      p'.accepted = p.accepted → (∀ w, p'.main ≠ .write w) → (∀ w, p.main ≠ .write w) →
      Tx sp' p' none host := fun htx hen hacc hafter hbefore =>
    h.keep htx hen hacc (fun w => ⟨fun hw => absurd hw (hafter w), fun hw => absurd hw (hbefore w)⟩)
      nofun
  have haccepted : ∀ {main}, p.main = main →
      p.accepted = p.log.flatMap Completed.accepted ++ main.accepted := by
    rintro _ rfl
    rfl
  cases hdoes with
  | init at_init =>
    have hempty : p.accepted = [] := by
      rw [haccepted at_init, hstarted.fresh (by rw [at_init]; rfl)]
      rfl
    have hempty' : ({ p with main := .register } : Program).accepted = [] :=
      (haccepted at_init).symm.trans hempty
    refine fun _ => ⟨?_, ?_, nofun, nofun, fun hlt => ?_⟩
    · rw [hempty', ← hempty]
      exact h.window
    · rw [hempty', ← hempty]
      exact h.sent
    · rw [hempty'] at hlt
      exact absurd hlt (Nat.not_lt_zero _)
  | register at_register =>
    exact hother ⟨rfl, rfl, rfl⟩ rfl (haccepted at_register).symm nofun
      (by rw [at_register]; exact nofun)
  | alarm at_alarm =>
    exact hother ⟨rfl, rfl, rfl⟩ rfl (haccepted at_alarm).symm nofun (by rw [at_alarm]; exact nofun)
  | write w at_write =>
    have hp : p = { log := p.log, main := .write w } := by rw [← at_write]
    rw [hp] at h
    exact Action.map_all _ (w.step_tx h)
  | read r at_read =>
    refine Action.map_all _ (((r.step_frame sp).and (r.step_ienAE.and (r.step_returns sp))).mono ?_)
    rintro sp' x ⟨⟨htx, _⟩, hen, hreturn⟩
    refine hother htx hen ?_ ?_ (by rw [at_read]; exact nofun)
    · rw [Program.goto_accepted, haccepted at_read]
      cases x with
      | inl r' => rfl
      | inr c => exact congrArg _ (Completed.accepted_read (hreturn c rfl).1)
    · cases x <;> nofun
  | close nonblock at_close =>
    refine hother ⟨rfl, rfl, rfl⟩ rfl ?_ ?_ (by rw [at_close]; exact nofun)
    · rw [Program.goto_accepted, haccepted at_close]
      split
      · split <;> rfl
      · rfl
    · split
      · split <;> nofun
      · nofun
  | ioctl req at_ioctl =>
    rw [ioctl_started (hstarted.timeout (by rw [at_ioctl]; rfl))]
    refine hother ⟨rfl, rfl, rfl⟩ rfl ?_ nofun (by rw [at_ioctl]; exact nofun)
    rw [haccepted at_ioctl]
    simp [Program.accepted, Completed.accepted, Main.accepted]

/-- A call starts. -/
theorem Tx.start (h : Tx sp p none host) (hidle : p.main = .idle) (c : Call) :
    Tx sp { p with main := c.start } none host := by
  have hacc : ({ p with main := c.start } : Program).accepted = p.accepted := by
    show _ ++ c.start.accepted = _ ++ p.main.accepted
    rw [hidle]
    cases c <;> rfl
  refine ⟨hacc ▸ h.window, hacc ▸ h.sent, fun w hw => ?_, nofun, fun hlt => ?_⟩
  · cases c <;> cases hw
    exact ⟨Nat.zero_le _, trivial⟩
  · refine Or.inl ((h.wake (hacc ▸ hlt)).resolve_right ?_)
    rintro ⟨w, hw, _⟩
    rw [hidle] at hw
    nomatch hw

end

/-! ## Runs -/

/-- The characters in `tx_buf`. -/
def JtagUartState.txWaiting (sp : JtagUartState) : List Byte :=
  contents bufLen sp.txBuf sp.txIn sp.txOut

namespace Machine

open Uart

variable {Q : Scfifo}

theorem tx_step {m m' : Machine Q} (hbase : Base m)
    (h : Tx m.sp m.program m.isr m.uart.toHost) (hdoes : Does m m') :
    Tx m'.sp m'.program m'.isr m'.uart.toHost := by
  have hstall : ∀ j, (m.stalled j).toHost = m.uart.toHost := fun j =>
    ((idle_law hbase.ready hbase.flags j).toHost).trans (List.append_nil _)
  cases hdoes with
  | stall j =>
    show Tx m.sp m.program m.isr (m.stalled j).toHost
    rw [hstall]
    exact h
  | interrupt j idle armed irq =>
    show Tx m.sp m.program (some .poll) (m.stalled j).toHost
    rw [hstall]
    exact h.keep ⟨rfl, rfl, rfl⟩ rfl rfl (fun _ => Iff.rfl) nofun
  | call c j idle outside =>
    show Tx m.sp _ m.isr (m.stalled j).toHost
    rw [hstall, idle]
    exact (idle ▸ h).start outside c
  | routine isr j j' active =>
    have hspace := hbase.space isr active
    have hsent := isr.step_sent m.sp
    have heff := perform_law hbase.ready hbase.flags (isr.step m.sp)
      (fun hne => by have := List.length_pos_iff.mpr hne; omega) j j'
    show Tx _ m.program _ (m.uart.perform j j' (isr.step m.sp)).1.toHost
    rw [heff.toHost]
    exact perform_all (u := m.uart) (Isr.step_tx (active ▸ h)) j j'
  | program action j j' idle next =>
    have hprogram := Program.step_does next
    obtain ⟨hlocal, _⟩ := Program.does_local hprogram hbase.started
    have heff := perform_law hbase.ready hbase.flags action (fun hne => absurd hlocal.sent hne) j j'
    show Tx _ _ m.isr (m.uart.perform j j' action).1.toHost
    rw [heff.toHost, hlocal.sent, List.append_nil, idle]
    exact perform_all (u := m.uart) (Program.does_tx (idle ▸ h) hbase.started hprogram) j j'

theorem reset_toHost : (Uart.reset : Uart Q).toHost = [] := by
  show [] ++ [] ++ Q.words Q.aclr = []
  rw [Q.words_aclr]
  rfl

theorem Reachable.tx {m : Machine Q} (h : Reachable m) :
    Base m ∧ Tx m.sp m.program m.isr m.uart.toHost := by
  refine h.invariant ?_ fun _ _ => tx_step
  show Tx jtagUartInstance _ none (Uart.reset : Uart Q).toHost
  rw [reset_toHost]
  exact ⟨window_empty (by decide) _, rfl, nofun, nofun, nofun⟩

/-- **Transmission conserves characters.**  What the host has received, the character at the output
    of the write FIFO, those in it and those in the buffer are together, in this order, what the
    program was told was written. -/
theorem transmit_conserves {m : Machine Q} (h : Reachable m) :
    m.uart.host.received ++ (if m.uart.core.rVal then [Q.q m.uart.core.wfifo] else [])
      ++ Q.words m.uart.core.wfifo ++ m.sp.txWaiting = m.program.accepted := by
  obtain ⟨_, htx⟩ := h.tx
  have hcontents : m.sp.txWaiting = m.program.accepted.drop m.uart.toHost.length :=
    htx.window.contents_eq
  show m.uart.toHost ++ m.sp.txWaiting = _
  rw [hcontents]
  exact (congrArg (· ++ _) htx.sent).trans (List.take_append_drop _ _)

/-- Two characters are written; the first has reached the host, the second is at the output. -/
theorem transmit_conserves_two :
    ∃ m : Machine listFifo, Reachable m ∧ m.uart.host.received = [72]
      ∧ m.uart.host.received
        ++ (if m.uart.core.rVal then [listFifo.q m.uart.core.wfifo] else [])
        ++ listFifo.words m.uart.core.wfifo ++ m.sp.txWaiting = [72, 105] := by
  obtain ⟨m, hm, htest⟩ := run_reaches
    (boot ++ [.call (.write [72, 105] false) noSignal] ++ List.replicate 7 go
      ++ [.stall noSignal, .interrupt noSignal] ++ List.replicate 4 go
      ++ List.replicate 2 (.stall { noSignal with rEna := true }))
    (fun m => m.uart.host.received == [72] && m.program.accepted == [72, 105]) (by decide +kernel)
  rw [Bool.and_eq_true, beq_iff_eq, beq_iff_eq] at htest
  exact ⟨m, hm, htest.1, (transmit_conserves hm).trans htest.2⟩

/-- **A call that waits for room is woken.**  Unless `tx_out` has moved already, the buffer is full
    and write interrupts are enabled: once the write FIFO is almost empty, the core interrupts. -/
theorem transmit_wakes {m : Machine Q} (h : Reachable m) {w : Write}
    (hmain : m.program.main = .write w) (hpc : w.pc = .spin) :
    w.out ≠ m.sp.txOut
      ∨ m.sp.txWaiting.length + 1 = bufLen
        ∧ ∀ j, (Q.words m.uart.core.wfifo).length ≤ 8 → (m.stalled j).core.irq = true := by
  obtain ⟨hbase, htx⟩ := h.tx
  by_cases hout : w.out = m.sp.txOut
  · right
    have hholds := (htx.frame w hmain).holds
    unfold Write.Assertion at hholds
    rw [hpc] at hholds
    obtain ⟨_, _, old, hold, hmod, hfull⟩ := hholds
    -- `out` is the present value of `tx_out`, so that the buffer is still full
    have hle := htx.window.le
    have hlt := htx.window.lt
    have hold : old = m.uart.toHost.length :=
      eq_of_mod_eq hold (by omega) (hmod.symm.trans (hout.trans htx.window.out_eq))
    have hN : 1 < bufLen := by decide
    have hon : m.sp.irqEnable.getLsbD 1 = true := by
      refine (htx.wake (by omega)).resolve_right ?_
      rintro ⟨v, hv, hspin⟩
      rw [hmain] at hv
      cases hv
      exact hspin hpc
    refine ⟨?_, fun j hempty => ?_⟩
    · unfold JtagUartState.txWaiting
      rw [htx.window.contents_eq, List.length_drop]
      omega
    · have hcount : Core.count m.uart.core.wfifo ≤ 8 := by
        rw [BitVec.le_def, Core.count_toNat]
        exact hempty
      show ((m.uart.core.ienAE && decide (Core.count m.uart.core.wfifo ≤ 8)) || _) = true
      rw [← hbase.ienAE, hon, decide_eq_true hcount]
      rfl
  · exact Or.inl hout

/-- A `write` of 2050 characters waits after 2047. -/
theorem transmit_wakes_full :
    ∃ m : Machine listFifo, Reachable m ∧ m.sp.txWaiting.length + 1 = bufLen
      ∧ ∀ j, (listFifo.words m.uart.core.wfifo).length ≤ 8 → (m.stalled j).core.irq = true := by
  obtain ⟨m, hm, htest⟩ := run_reaches
    (boot ++ [.call (.write (List.replicate 2050 7) false) noSignal] ++ List.replicate 2053 go)
    (fun m => m.program.main.asWrite.any fun (w : Write) => decide (w.pc = .spin ∧ w.out = m.sp.txOut))
    (by decide +kernel)
  obtain ⟨w, hmain, htest⟩ := (Option.any_eq_true _ _).mp htest
  obtain ⟨hpc, hout⟩ := of_decide_eq_true htest
  exact ⟨m, hm, (transmit_wakes hm (Main.of_asWrite hmain) hpc).resolve_left fun hne => hne hout⟩

end Machine

end GpsReceiver.Firmware.JtagUart
