/-
  The receive side of the console: the read part of the interrupt routine, the ring buffer `rx_buf`
  and `read`.

  1. **Invariant** — `Rx`: of the characters the host has put into the core, those not in its FIFO
     went to the buffer; those not in the buffer were given to the program.  A call under way may
     know an old `rx_in` only (`Read.Receiving`); it then sees fewer characters than there are.
  2. **Steps** — `Isr.step_rx` and `Read.step_rx`, one for each side; every other step leaves the
     receive side alone (`Rx.keep`).
  3. **Wake** — read interrupts are off only while the buffer is not empty or a call is about to
     enable them.  The routine turns them off when the last word it read said that there are more
     characters.  That may also be the case when it stopped at a word without a character; it has
     stored one before then, because the control register never announces characters in vain.
  4. **Runs** — `receive_conserves` and `receive_wakes`.
-/
import GpsReceiver.Firmware.JtagUartMachine

namespace GpsReceiver.Firmware.JtagUart

open Lib.RingBuffer

/-! ## Invariant -/

/-- A `memcpy` out of the buffer. -/
structure Read.Copying (sp : JtagUartState) (r : Read) (log : List Byte) (taken : Nat) : Prop where
  out : r.out = sp.rxOut
  n_pos : 0 < r.n
  n_le : r.n ≤ r.left
  avail : taken + r.n ≤ log.length
  fits : r.out + r.n ≤ bufLen
  chunk_le : r.chunk.length ≤ r.n
  chunk : r.chunk = (log.drop taken).take r.chunk.length

/-- What a call knows at each point, when the `log` has reached the buffer and `taken` characters
    of it were given to the program. -/
def Read.Assertion (sp : JtagUartState) (r : Read) (log : List Byte) (taken : Nat) : Prop :=
  match r.pc with
  | .test => True
  | .load => 0 < r.left
  | .loadOut => 0 < r.left ∧ ∃ len, taken ≤ len ∧ len ≤ log.length ∧ r.inp = len % bufLen
  | .copy => r.Copying sp log taken
  | .after => r.got = [] → 0 < r.left ∧ r.inp = sp.rxOut
  | .spin => r.got = [] ∧ r.nonblock = false ∧ r.inp = sp.rxOut
  | .recheck => r.inp = sp.rxOut ∧ taken < log.length
  | .post => r.got = [] → r.nonblock = true ∨ r.space = 0

structure Read.Receiving (sp : JtagUartState) (r : Read) (log : List Byte) (taken : Nat) : Prop where
  got_le : r.got.length ≤ r.space
  holds : r.Assertion sp log taken

/-- The receive side, when the core has taken the characters of `log` from the host, of which those
    `waiting` are still in its FIFO. -/
structure Rx (sp : JtagUartState) (p : Program) (isr : Option Isr) (log waiting : List Byte) :
    Prop where
  window : Window bufLen sp.rxBuf sp.rxIn sp.rxOut log p.delivered.length
  delivered : p.delivered = log.take p.delivered.length
  frame : ∀ r, p.main = .read r → r.Receiving sp log p.delivered.length
  drain : ∀ c d, isr = some (.drain c d) → p.delivered.length < log.length ∨ waiting ≠ []
  off : ∀ c, isr = some (.rxOff c) → p.delivered.length < log.length
  wake : sp.irqEnable.getLsbD 0 = false → p.main = .init ∨ p.delivered.length < log.length
    ∨ ∃ r, p.main = .read r ∧ r.got ≠ []

section

variable {sp sp' : JtagUartState} {p p' : Program} {isr isr' : Option Isr}
  {log waiting waiting' : List Byte}

/-- Characters that arrive meanwhile do not disturb a call. -/
theorem Read.Receiving.mono {r : Read} {taken : Nat} (h : r.Receiving sp log taken)
    (new : List Byte) (hout : sp'.rxOut = sp.rxOut) : r.Receiving sp' (log ++ new) taken := by
  refine ⟨h.got_le, ?_⟩
  have hholds := h.holds
  have hlen : log.length ≤ (log ++ new).length := by
    rw [List.length_append]
    exact Nat.le_add_right _ _
  unfold Assertion at hholds ⊢
  cases hpc : r.pc <;> rw [hpc] at hholds <;> simp only at hholds ⊢
  case load => exact hholds
  case loadOut =>
    obtain ⟨hleft, len, hle, hlen', hinp⟩ := hholds
    exact ⟨hleft, len, hle, Nat.le_trans hlen' hlen, hinp⟩
  case copy =>
    obtain ⟨hcout, hpos, hn, havail, hfits, hchunk, heq⟩ := hholds
    refine ⟨hcout.trans hout.symm, hpos, hn, Nat.le_trans havail hlen, hfits, hchunk, ?_⟩
    rw [List.drop_append_of_le_length (by omega), List.take_append_of_le_length]
    · exact heq
    · rw [List.length_drop]
      omega
  case after => exact fun hgot => ⟨(hholds hgot).1, (hholds hgot).2.trans hout.symm⟩
  case spin => exact ⟨hholds.1, hholds.2.1, hholds.2.2.trans hout.symm⟩
  case recheck => exact ⟨hholds.1.trans hout.symm, Nat.lt_of_lt_of_le hholds.2 hlen⟩
  case post => exact hholds

/-- A step that has nothing to do with the receive side. -/
theorem Rx.keep (h : Rx sp p isr log waiting) (hrx : SameRx sp sp')
    (hen : sp'.irqEnable.getLsbD 0 = sp.irqEnable.getLsbD 0) (hdel : p'.delivered = p.delivered)
    (hmain : ∀ r, p'.main = .read r ↔ p.main = .read r) (hinit : p.main = .init → p'.main = .init)
    (hdrain : ∀ c d, isr' = some (.drain c d) → p.delivered.length < log.length ∨ waiting' ≠ [])
    (hoff : ∀ c, isr' = some (.rxOff c) → p.delivered.length < log.length) :
    Rx sp' p' isr' log waiting' where
  window := by
    rw [hrx.rxIn, hrx.rxOut, hrx.rxBuf, hdel]
    exact h.window
  delivered := by
    rw [hdel]
    exact h.delivered
  frame := fun r hr => by
    rw [hdel, ← List.append_nil log]
    exact (h.frame r ((hmain r).mp hr)).mono [] hrx.rxOut
  drain := by
    rw [hdel]
    exact hdrain
  off := by
    rw [hdel]
    exact hoff
  wake := fun hwake => by
    rw [hdel]
    rcases h.wake (hen.symm.trans hwake) with hi | hlt | ⟨r, hr, hgot⟩
    · exact Or.inl (hinit hi)
    · exact Or.inr (Or.inl hlt)
    · exact Or.inr (Or.inr ⟨r, (hmain r).mpr hr, hgot⟩)

/-- A step of a call that takes nothing from the buffer. -/
theorem Rx.goto {calls : List Completed} {r r' : Read}
    (h : Rx sp { log := calls, main := .read r } none log waiting)
    (hgot : r'.got = r.got) (hspace : r'.space = r.space)
    (hholds : r'.Assertion sp log ({ log := calls, main := .read r } : Program).delivered.length) :
    Rx sp { log := calls, main := .read r' } none log waiting := by
  have hdel : ({ log := calls, main := .read r' } : Program).delivered
      = ({ log := calls, main := .read r } : Program).delivered := by
    show _ ++ r'.got = _ ++ r.got
    rw [hgot]
  refine ⟨hdel ▸ h.window, hdel ▸ h.delivered, fun v hv => ?_, nofun, nofun, fun hoff => ?_⟩
  · cases hv
    rw [hdel]
    exact ⟨by rw [hgot, hspace]; exact (h.frame r rfl).got_le, hholds⟩
  · rw [hdel]
    rcases h.wake hoff with hi | hlt | ⟨v, hv, hne⟩
    · nomatch hi
    · exact Or.inr (Or.inl hlt)
    · cases hv
      exact Or.inr (Or.inr ⟨r', rfl, by rwa [hgot]⟩)

/-- A `memcpy` reads cells that hold characters. -/
theorem Rx.fetch {calls : List Completed} {r : Read}
    (h : Rx sp { log := calls, main := .read r } none log waiting)
    (hcopy : r.Copying sp log ({ log := calls, main := .read r } : Program).delivered.length)
    (hn : r.chunk.length < r.n) :
    Rx sp { log := calls, main := .read { r with
        pc := .copy, chunk := r.chunk ++ [sp.rxBuf (r.out + r.chunk.length)] } }
      none log waiting := by
  obtain ⟨hout, hpos, hleft, havail, hfits, _, hchunk⟩ := hcopy
  have hlen : (r.chunk ++ [sp.rxBuf (r.out + r.chunk.length)]).length = r.chunk.length + 1 :=
    List.length_append
  refine h.goto rfl rfl ⟨hout, hpos, hleft, havail, hfits, by rw [hlen]; exact hn, ?_⟩
  show r.chunk ++ [sp.rxBuf (r.out + r.chunk.length)] = (log.drop _).take (r.chunk ++ [_]).length
  rw [hout, h.window.out_eq] at hfits hlen ⊢
  rw [hlen, List.take_succ_eq_append_getElem (by rw [List.length_drop]; omega), List.getElem_drop,
    ← hchunk, ← mod_add_of_lt (by omega), h.window.cell _ (Nat.le_add_right _ _) (by omega)]

/-- The characters of the `memcpy` that ends move from the buffer to the call. -/
theorem Rx.commit {calls : List Completed} {r : Read} {pc : ReadPc}
    (h : Rx sp { log := calls, main := .read r } none log waiting)
    (hcopy : r.Copying sp log ({ log := calls, main := .read r } : Program).delivered.length)
    (hn : r.chunk.length = r.n) (hpc : pc = if 0 < r.left - r.n then .load else .after) :
    Rx { sp with rxOut := (r.out + r.n) % bufLen }
      { log := calls, main := .read { r with pc := pc, got := r.got ++ r.chunk, chunk := [] } }
      none log waiting := by
  obtain ⟨hout, hpos, hleft, havail, _, _, hchunk⟩ := hcopy
  rw [hn] at hchunk
  have hleft : r.n ≤ r.space - r.got.length := hleft
  have hdel : ({ log := calls, main := .read { r with pc := pc, got := r.got ++ r.chunk, chunk := [] } }
      : Program).delivered
      = ({ log := calls, main := .read r } : Program).delivered ++ r.chunk := by
    show _ ++ (r.got ++ r.chunk) = (_ ++ r.got) ++ r.chunk
    rw [List.append_assoc]
  have hlen : (({ log := calls, main := .read r } : Program).delivered ++ r.chunk).length
      = ({ log := calls, main := .read r } : Program).delivered.length + r.n := by
    rw [List.length_append, hn]
  have hgot : r.got ++ r.chunk ≠ [] := by
    intro hnil
    have := (List.append_eq_nil_iff.mp hnil).2
    rw [this, List.length_nil] at hn
    omega
  refine ⟨?_, ?_, ?_, nofun, nofun, fun _ => Or.inr (Or.inr ⟨_, rfl, hgot⟩)⟩
  · rw [hdel, hlen, hout]
    exact h.window.take havail
  · rw [hdel, hlen, List.take_add, ← hchunk]
    exact congrArg (· ++ r.chunk) h.delivered
  · rintro v ⟨⟩
    have hbound : (r.got ++ r.chunk).length ≤ r.space := by
      rw [List.length_append, hn]
      omega
    refine ⟨hbound, ?_⟩
    unfold Read.Assertion
    simp only [hpc]
    split <;> rename_i heq <;> split at heq <;> cases heq
    · rename_i hmore
      show 0 < r.space - (r.got ++ r.chunk).length
      have hmore : 0 < r.space - r.got.length - r.n := hmore
      rw [List.length_append, hn]
      omega
    · exact fun hnil => absurd hnil hgot

/-- A call returns when read interrupts are enabled or the buffer is not empty. -/
theorem Rx.leave {calls : List Completed} {r : Read}
    (h : Rx sp { log := calls, main := .read r } none log waiting) (hrx : SameRx sp sp')
    (hon : sp'.irqEnable.getLsbD 0 = false →
      ({ log := calls, main := .read r } : Program).delivered.length < log.length) :
    Rx sp' (Program.goto calls .read (.inr r.completed)) none log waiting := by
  have hdel : (Program.goto calls .read (.inr r.completed)).delivered
      = ({ log := calls, main := .read r } : Program).delivered := by
    rw [Program.goto_delivered]
    exact congrArg _ r.completed_delivered
  refine ⟨?_, hdel ▸ h.delivered, nofun, nofun, nofun, fun hoff => ?_⟩
  · rw [hrx.rxIn, hrx.rxOut, hrx.rxBuf, hdel]
    exact h.window
  · rw [hdel]
    exact Or.inr (Or.inl (hon hoff))

/-- **Read.**  Every step of a call keeps the receive side. -/
theorem Read.step_rx {calls : List Completed} {r : Read}
    (h : Rx sp { log := calls, main := .read r } none log waiting)
    (htimer : sp.hostInactive < sp.timeout) :
    (r.step sp).All fun sp' x => Rx sp' (Program.goto calls .read x) none log waiting := by
  have hholds := (h.frame r rfl).holds
  have hwin := h.window
  unfold Read.step
  unfold Assertion at hholds
  cases hpc : r.pc <;> rw [hpc] at hholds <;> simp only at hholds ⊢
  case test =>
    split
    · rename_i hleft
      exact h.goto rfl rfl hleft
    · rename_i hleft
      refine h.goto rfl rfl fun hgot => Or.inr ?_
      have hleft : ¬0 < r.space - r.got.length := hleft
      rw [show r.got = [] from hgot, List.length_nil] at hleft
      show r.space = 0
      omega
  case load => exact h.goto rfl rfl ⟨hholds, _, hwin.le, Nat.le_refl _, hwin.inp_eq⟩
  case loadOut =>
    obtain ⟨hleft, len, hle, hlen, hinp⟩ := hholds
    have hlt := hwin.lt
    have havail := avail_spec (N := bufLen) hle (by omega)
    rw [← hinp, ← hwin.out_eq] at havail
    split
    · rename_i hzero
      refine h.goto rfl rfl fun _ => ⟨hleft, ?_⟩
      show r.inp = sp.rxOut
      rw [hinp, hwin.out_eq, havail.2.2.mp hzero]
    · rename_i hpos
      refine h.goto rfl rfl ⟨rfl, ?_, Nat.min_le_right _ _, ?_, ?_, Nat.zero_le _, rfl⟩
      · show 0 < min _ r.left
        omega
      · show _ + min _ r.left ≤ _
        omega
      · show sp.rxOut + min _ r.left ≤ _
        omega
  case copy =>
    split
    · rename_i hchunk
      exact h.fetch hholds hchunk
    · rename_i hchunk
      exact h.commit hholds (Nat.le_antisymm hholds.chunk_le (Nat.le_of_not_lt hchunk)) rfl
  case after =>
    split
    · rename_i hstop
      exact h.goto rfl rfl fun hgot => Or.inl (hstop.resolve_left fun hne => hne hgot)
    · rename_i hgo
      rw [not_or, not_not, Bool.not_eq_true] at hgo
      exact h.goto rfl rfl ⟨hgo.1, hgo.2, (hholds hgo.1).2⟩
  case spin =>
    split
    · exact h
    · rename_i hmoved
      have hne : sp.rxIn ≠ sp.rxOut := fun heq => hmoved ⟨hholds.2.2.trans heq.symm, htimer⟩
      have hneq := hwin.inp_eq_out_iff.not.mp hne
      have hle := hwin.le
      exact h.goto rfl rfl ⟨hholds.2.2, by omega⟩
  case recheck =>
    split
    · rename_i hsame
      have heq := hwin.inp_eq_out_iff.mp (hsame.symm.trans hholds.1)
      have hlt := hholds.2
      omega
    · exact h.goto rfl rfl trivial
  case post =>
    split
    · exact fun _ => h.leave ⟨rfl, rfl, rfl⟩ fun hoff => by
        rw [or_reMsk_zero] at hoff
        nomatch hoff
    · rename_i hgot
      refine h.leave ⟨rfl, rfl, rfl⟩ fun hoff => ?_
      rcases h.wake hoff with hi | hlt | ⟨v, ⟨⟩, hne⟩
      · nomatch hi
      · exact hlt
      · exact absurd hne hgot

/-- A character goes from the FIFO of the core to the buffer. -/
theorem Rx.push {c d : BitVec 32} (h : Rx sp p isr log waiting)
    (hroom : (sp.rxIn + 1) % bufLen ≠ sp.rxOut) (b : Byte) :
    Rx { sp with rxBuf := Function.update sp.rxBuf sp.rxIn b, rxIn := (sp.rxIn + 1) % bufLen } p
      (some (.drain c d)) (log ++ [b]) waiting' := by
  have hwin := h.window
  have hlt : log.length + [b].length < p.delivered.length + bufLen := by
    have hne := hwin.next_eq_out_iff.not.mp hroom
    have := hwin.lt
    rw [List.length_singleton]
    omega
  have hstore := hwin.store (j := 0) (i := sp.rxIn) (by omega) hwin.inp_eq b
  have hpublish := hstore.publish [b] hlt <| by
    intro j hj
    obtain rfl : j = 0 := Nat.lt_one_iff.mp hj
    rw [Nat.add_zero, ← hwin.inp_eq]
    exact Function.update_self _ _ _
  have hmore : p.delivered.length < (log ++ [b]).length := by
    have := hwin.le
    rw [List.length_append, List.length_singleton]
    omega
  refine ⟨hpublish, ?_, fun r hr => (h.frame r hr).mono [b] rfl, fun _ _ _ => Or.inl hmore, nofun,
    fun _ => Or.inr (Or.inl hmore)⟩
  rw [List.take_append_of_le_length hwin.le]
  exact h.delivered

theorem Isr.afterRx_eq (control : BitVec 32) :
    (∀ c d, some (afterRx control) ≠ some (.drain c d))
      ∧ ∀ c, some (afterRx control) ≠ some (.rxOff c) := by
  unfold afterRx
  split <;> exact ⟨nofun, nofun⟩

theorem Isr.afterDrain_eq (control data : BitVec 32) (c d : BitVec 32) :
    some (afterDrain control data) ≠ some (.drain c d) := by
  unfold afterDrain
  split
  · nofun
  · exact (afterRx_eq control).1 c d

end

namespace Uart

variable {Q : Scfifo}

/-- What was taken from the host is in the history of the buffer or waits. -/
theorem Feeds.admitted_eq {u u' : Uart Q} {log taken : List Byte} (h : Feeds u u' taken)
    (hadm : u.host.admitted = log ++ u.waiting) : u'.host.admitted = log ++ taken ++ u'.waiting := by
  obtain ⟨new, hnew, hwait⟩ := h
  rw [hnew, hadm, List.append_assoc, List.append_assoc, hwait]

theorem Feeds.waiting_ne {u u' : Uart Q} (h : Feeds u u' []) (hne : u.waiting ≠ []) :
    u'.waiting ≠ [] := by
  obtain ⟨new, hnew⟩ := h.waiting_eq
  rw [hnew]
  exact List.append_ne_nil_of_left_ne_nil hne new

end Uart

section

variable {Q : Scfifo} {u : Uart Q} {sp : JtagUartState} {p : Program} {log : List Byte}

open Uart

/-- A step of the routine without a read of the data register. -/
theorem Isr.quiet_rx {isr : Isr} (hready : u.Ready) (hflags : u.Flags)
    (hspace : isr.claim + u.pending.length ≤ 64) (hadm : u.host.admitted = log ++ u.waiting)
    (htakes : (isr.step sp).takes = false) (j j' : Jtag)
    (h : ∀ waiting', (u.waiting ≠ [] → waiting' ≠ []) →
      Rx (u.perform j j' (isr.step sp)).2.1 p (u.perform j j' (isr.step sp)).2.2 log waiting') :
    ∃ log', (u.perform j j' (isr.step sp)).1.host.admitted
        = log' ++ (u.perform j j' (isr.step sp)).1.waiting
      ∧ Rx (u.perform j j' (isr.step sp)).2.1 p (u.perform j j' (isr.step sp)).2.2 log'
        (u.perform j j' (isr.step sp)).1.waiting := by
  have hlen := isr.step_sent sp
  have heff := perform_law hready hflags (isr.step sp)
    (fun hne => by have := List.length_pos_iff.mpr hne; omega) j j'
  have hfeeds := heff.feeds
  rw [htakes, if_neg Bool.false_ne_true] at hfeeds
  refine ⟨log, ?_, h _ hfeeds.waiting_ne⟩
  have hadm' := hfeeds.admitted_eq hadm
  rwa [List.append_nil] at hadm'

/-- **Interrupt routine.**  It moves the characters that wait to the buffer while there is room. -/
theorem Isr.step_rx {isr : Isr} (hready : u.Ready) (hflags : u.Flags)
    (hspace : isr.claim + u.pending.length ≤ 64) (hadm : u.host.admitted = log ++ u.waiting)
    (h : Rx sp p (some isr) log u.waiting) (j j' : Jtag) :
    ∃ log', (u.perform j j' (isr.step sp)).1.host.admitted
        = log' ++ (u.perform j j' (isr.step sp)).1.waiting
      ∧ Rx (u.perform j j' (isr.step sp)).2.1 p (u.perform j j' (isr.step sp)).2.2 log'
        (u.perform j j' (isr.step sp)).1.waiting := by
  have hkeep : ∀ {sp' isr' waiting'}, SameRx sp sp' →
      sp'.irqEnable.getLsbD 0 = sp.irqEnable.getLsbD 0 →
      (∀ c d, isr' = some (.drain c d) → p.delivered.length < log.length ∨ waiting' ≠ []) →
      (∀ c, isr' = some (.rxOff c) → p.delivered.length < log.length) →
      Rx sp' p isr' log waiting' := fun hrx hen hdrain hoff =>
    h.keep hrx hen rfl (fun _ => Iff.rfl) id hdrain hoff
  cases isr with
  | poll =>
    have heff := perform_law (P := Option Isr) hready hflags (Isr.poll.step sp) nofun j j'
    have hvalue := readControl_law hready hflags j j'
    have hadm' := heff.feeds.admitted_eq hadm
    rw [if_neg (by exact Bool.false_ne_true), List.append_nil] at hadm'
    refine ⟨log, hadm', hkeep ⟨rfl, rfl, rfl⟩ rfl (fun c d heq => ?_) fun c heq => ?_⟩
    · have heq : afterPoll _ = some (drain c d) := heq
      rcases afterPoll_cases (u.access .readControl j j').1 with hp | ⟨hri, _⟩ | ⟨_, hp⟩
      · rw [hp] at heq
        nomatch heq
      · exact Or.inr (hvalue.ri hri).1
      · rw [hp] at heq
        nomatch heq
    · have heq : afterPoll _ = some (rxOff c) := heq
      rcases afterPoll_cases (u.access .readControl j j').1 with hp | ⟨_, hp⟩ | ⟨_, hp⟩ <;>
        rw [hp] at heq <;> nomatch heq
  | drain control data =>
    have hdrain := h.drain control data rfl
    by_cases hfull : (sp.rxIn + 1) % bufLen = sp.rxOut
    · -- no room: the characters stay in the core
      have hstep : (drain control data).step sp = .cpu sp (some (afterDrain control data)) :=
        if_pos hfull
      have hlen := h.window.next_eq_out_iff.mp hfull
      have hN : 1 < bufLen := by decide
      refine quiet_rx hready hflags hspace hadm (by rw [hstep]; rfl) j j' fun waiting' _ => ?_
      rw [hstep]
      exact hkeep ⟨rfl, rfl, rfl⟩ rfl (fun c d heq => absurd heq (afterDrain_eq _ _ c d))
        fun _ _ => by omega
    · have hstep : (drain control data).step sp = .io .readData fun v =>
          if v &&& rvalidMsk = 0 then (sp, some (afterDrain control v))
          else
            ({ sp with
                rxBuf := Function.update sp.rxBuf sp.rxIn ((v &&& dataMsk).setWidth 8)
                rxIn := (sp.rxIn + 1) % bufLen },
              some (drain control v)) := if_neg hfull
      have hfeeds := (access_law hready hflags .readData nofun j j').feeds
      obtain ⟨hvalid, hdata⟩ := readData_law hready j j'
      cases hwait : u.waiting with
      | nil =>
        -- no character: the routine has stored one before
        have hzero : (u.access .readData j j').1 &&& rvalidMsk = 0 := by
          by_contra hne
          exact hvalid.mp hne hwait
        have hlt := hdrain.resolve_right (fun hne => hne hwait)
        have hres : (u.perform j j' ((drain control data).step sp)).2
            = (sp, some (afterDrain control (u.access .readData j j').1)) := by
          rw [hstep]
          exact if_pos hzero
        have hadm' := hfeeds.admitted_eq hadm
        rw [hwait, List.take_nil, ite_self, List.append_nil] at hadm'
        rw [hres, hstep]
        refine ⟨log, hadm', ?_⟩
        exact hkeep ⟨rfl, rfl, rfl⟩ rfl (fun c d heq => absurd heq (afterDrain_eq _ _ c d))
          fun _ _ => hlt
      | cons b bs =>
        have hone : (u.access .readData j j').1 &&& rvalidMsk ≠ 0 :=
          hvalid.mpr (by rw [hwait]; exact List.cons_ne_nil b bs)
        have hb := hdata b (by rw [hwait]; rfl)
        have hres : (u.perform j j' ((drain control data).step sp)).2
            = ({ sp with
                rxBuf := Function.update sp.rxBuf sp.rxIn b, rxIn := (sp.rxIn + 1) % bufLen },
              some (drain control (u.access .readData j j').1)) := by
          rw [hstep, ← hb]
          exact if_neg hone
        have hadm' := hfeeds.admitted_eq hadm
        rw [hwait] at hadm'
        rw [hres, hstep]
        exact ⟨log ++ [b], hadm', h.push hfull b⟩
  | rxOff control =>
    have hlt := h.off control rfl
    refine quiet_rx hready hflags hspace hadm rfl j j' fun waiting' hwait => ?_
    refine ⟨h.window, h.delivered, fun r hr => ?_, nofun, nofun, fun _ => Or.inr (Or.inl hlt)⟩
    rw [← List.append_nil log]
    exact (h.frame r hr).mono [] rfl
  | rxDummy control =>
    exact quiet_rx hready hflags hspace hadm rfl j j' fun waiting' _ =>
      hkeep ⟨rfl, rfl, rfl⟩ rfl (fun c d heq => absurd heq ((afterRx_eq control).1 c d))
        fun c heq => absurd heq ((afterRx_eq control).2 c)
  | tx space =>
    by_cases hsend : 0 < space ∧ sp.txOut ≠ sp.txIn
    · have hstep : (tx space).step sp = .io (.writeData ((sp.txBuf sp.txOut).signExtend 32)) fun _ =>
          ({ sp with txOut := (sp.txOut + 1) % bufLen }, some (.tx (space - 1))) := if_pos hsend
      refine quiet_rx hready hflags hspace hadm (by rw [hstep]; rfl) j j' fun waiting' _ => ?_
      rw [hstep]
      exact hkeep ⟨rfl, rfl, rfl⟩ rfl nofun nofun
    · have hstep : (tx space).step sp = .cpu sp (some (if 0 < space then .txOff else .poll)) :=
        if_neg hsend
      refine quiet_rx hready hflags hspace hadm (by rw [hstep]; rfl) j j' fun waiting' _ => ?_
      rw [hstep]
      refine hkeep ⟨rfl, rfl, rfl⟩ rfl (fun c d heq => ?_) fun c heq => ?_
      · split at heq <;> nomatch heq
      · split at heq <;> nomatch heq
  | txOff =>
    exact quiet_rx hready hflags hspace hadm rfl j j' fun waiting' _ =>
      hkeep ⟨rfl, rfl, rfl⟩ (and_not_weMsk_zero _) nofun nofun
  | txDummy =>
    exact quiet_rx hready hflags hspace hadm rfl j j' fun waiting' _ =>
      hkeep ⟨rfl, rfl, rfl⟩ rfl nofun nofun

end

section

variable {sp : JtagUartState} {p : Program} {log waiting : List Byte}

/-- Writing leaves read interrupts alone. -/
theorem Write.step_ienAF (w : Write) :
    (w.step sp).All fun sp' _ => sp'.irqEnable.getLsbD 0 = sp.irqEnable.getLsbD 0 := by
  unfold Write.step
  cases w.pc <;> simp only <;> (repeat' split) <;>
    first | rfl | exact fun _ => or_weMsk_zero _

/-- **Program.**  Every step keeps the receive side. -/
theorem Program.does_rx {a : Action Program} (h : Rx sp p none log waiting)
    (hstarted : p.Started sp) (hdoes : Does sp p a) :
    a.All fun sp' p' => Rx sp' p' none log waiting := by
  -- a call that is no `read`, before and after
  have hother : ∀ {sp' p'}, SameRx sp sp' → sp'.irqEnable.getLsbD 0 = sp.irqEnable.getLsbD 0 →
      p'.delivered = p.delivered → (∀ r, p'.main ≠ .read r) → (∀ r, p.main ≠ .read r) →
      p.main ≠ .init → Rx sp' p' none log waiting := fun hrx hen hdel hafter hbefore hinit =>
    h.keep hrx hen hdel
      (fun r => ⟨fun hr => absurd hr (hafter r), fun hr => absurd hr (hbefore r)⟩)
      (fun hi => absurd hi hinit) nofun nofun
  have hdelivered : ∀ {main}, p.main = main →
      p.delivered = p.log.flatMap Completed.delivered ++ main.delivered := by
    rintro _ rfl
    rfl
  cases hdoes with
  | init at_init =>
    have hdel : ({ p with main := .register } : Program).delivered = p.delivered :=
      (hdelivered at_init).symm
    refine fun _ => ⟨hdel ▸ h.window, hdel ▸ h.delivered, nofun, nofun, nofun, fun hoff => ?_⟩
    have hon : reMsk.getLsbD 0 = true := by decide
    rw [hon] at hoff
    nomatch hoff
  | register at_register =>
    exact hother ⟨rfl, rfl, rfl⟩ rfl (hdelivered at_register).symm nofun
      (by rw [at_register]; exact nofun) (by rw [at_register]; exact nofun)
  | alarm at_alarm =>
    exact hother ⟨rfl, rfl, rfl⟩ rfl (hdelivered at_alarm).symm nofun
      (by rw [at_alarm]; exact nofun) (by rw [at_alarm]; exact nofun)
  | read r at_read =>
    have hp : p = { log := p.log, main := .read r } := by rw [← at_read]
    have htimer : sp.hostInactive < sp.timeout := by
      rw [hstarted.hostInactive, hstarted.timeout (by rw [at_read]; rfl)]
      decide
    rw [hp] at h
    exact Action.map_all _ (r.step_rx h htimer)
  | write w at_write =>
    refine Action.map_all _ (((w.step_frame sp).and (w.step_ienAF.and (w.step_returns sp))).mono ?_)
    rintro sp' x ⟨⟨hrx, _⟩, hen, hreturn⟩
    refine hother hrx hen ?_ ?_ (by rw [at_write]; exact nofun) (by rw [at_write]; exact nofun)
    · rw [Program.goto_delivered, hdelivered at_write]
      cases x with
      | inl w' => rfl
      | inr c => exact congrArg _ (Completed.delivered_write (hreturn c rfl).1)
    · cases x <;> nofun
  | close nonblock at_close =>
    refine hother ⟨rfl, rfl, rfl⟩ rfl ?_ ?_ (by rw [at_close]; exact nofun)
      (by rw [at_close]; exact nofun)
    · rw [Program.goto_delivered, hdelivered at_close]
      split
      · split <;> rfl
      · rfl
    · split
      · split <;> nofun
      · nofun
  | ioctl req at_ioctl =>
    rw [ioctl_started (hstarted.timeout (by rw [at_ioctl]; rfl))]
    refine hother ⟨rfl, rfl, rfl⟩ rfl ?_ nofun (by rw [at_ioctl]; exact nofun)
      (by rw [at_ioctl]; exact nofun)
    rw [hdelivered at_ioctl]
    simp [Program.delivered, Completed.delivered, Main.delivered]

/-- A call starts. -/
theorem Rx.start (h : Rx sp p none log waiting) (hidle : p.main = .idle) (c : Call)
    (waiting' : List Byte) : Rx sp { p with main := c.start } none log waiting' := by
  have hdel : ({ p with main := c.start } : Program).delivered = p.delivered := by
    show _ ++ c.start.delivered = _ ++ p.main.delivered
    rw [hidle]
    cases c <;> rfl
  refine ⟨hdel ▸ h.window, hdel ▸ h.delivered, fun r hr => ?_, nofun, nofun, fun hoff => ?_⟩
  · cases c <;> cases hr
    exact ⟨Nat.zero_le _, trivial⟩
  · rw [hdel]
    rcases h.wake hoff with hi | hlt | ⟨r, hr, _⟩
    · rw [hidle] at hi
      nomatch hi
    · exact Or.inr (Or.inl hlt)
    · rw [hidle] at hr
      nomatch hr

end

/-! ## Runs -/

/-- The characters in `rx_buf`. -/
def JtagUartState.rxWaiting (sp : JtagUartState) : List Byte :=
  contents bufLen sp.rxBuf sp.rxIn sp.rxOut

namespace Machine

open Uart

variable {Q : Scfifo}

/-- The receive side of a machine, with the history of the buffer. -/
def Received (m : Machine Q) (log : List Byte) : Prop :=
  m.uart.host.admitted = log ++ m.uart.waiting ∧ Rx m.sp m.program m.isr log m.uart.waiting

theorem rx_step {m m' : Machine Q} (hbase : Base m) (h : ∃ log, m.Received log)
    (hdoes : Does m m') : ∃ log, m'.Received log := by
  obtain ⟨log, hadm, hrx⟩ := h
  have hstall : ∀ j, Feeds m.uart (m.stalled j) [] := fun j =>
    (idle_law hbase.ready hbase.flags j).feeds
  have hadm' : ∀ j, (m.stalled j).host.admitted = log ++ (m.stalled j).waiting := fun j => by
    have hadm := (hstall j).admitted_eq hadm
    rwa [List.append_nil] at hadm
  cases hdoes with
  | stall j =>
    refine ⟨log, hadm' j, hrx.keep ⟨rfl, rfl, rfl⟩ rfl rfl (fun _ => Iff.rfl) id ?_ hrx.off⟩
    exact fun c d heq => (hrx.drain c d heq).imp_right (hstall j).waiting_ne
  | interrupt j idle armed irq =>
    exact ⟨log, hadm' j, hrx.keep ⟨rfl, rfl, rfl⟩ rfl rfl (fun _ => Iff.rfl) id nofun nofun⟩
  | call c j idle outside =>
    refine ⟨log, hadm' j, ?_⟩
    show Rx m.sp _ m.isr _ _
    rw [idle]
    exact (idle ▸ hrx).start outside c _
  | routine isr j j' active =>
    exact Isr.step_rx hbase.ready hbase.flags (hbase.space isr active) hadm (active ▸ hrx) j j'
  | program action j j' idle next =>
    have hprogram := Program.step_does next
    obtain ⟨hlocal, _⟩ := Program.does_local hprogram hbase.started
    have heff := perform_law hbase.ready hbase.flags action (fun hne => absurd hlocal.sent hne) j j'
    have hfeeds := heff.feeds
    rw [hlocal.takes, if_neg Bool.false_ne_true] at hfeeds
    have hadm := hfeeds.admitted_eq hadm
    rw [List.append_nil] at hadm
    have hkept := perform_all (u := m.uart)
      (Program.does_rx (idle ▸ hrx) hbase.started hprogram) j j'
    refine ⟨log, hadm, ?_⟩
    show Rx _ _ m.isr _ _
    rw [idle]
    exact hkept.keep ⟨rfl, rfl, rfl⟩ rfl rfl (fun _ => Iff.rfl) id nofun nofun

theorem Reachable.rx {m : Machine Q} (h : Reachable m) : Base m ∧ ∃ log, m.Received log := by
  refine h.invariant ⟨[], ?_, window_empty (by decide) _, rfl, nofun, nofun, nofun, ?_⟩
    fun _ _ => rx_step
  · exact Q.words_aclr.symm
  · exact fun _ => Or.inl rfl

/-- **Reception conserves characters.**  What the program was given, the characters in the buffer
    and those in the read FIFO are together, in this order, what the core has taken from the host. -/
theorem receive_conserves {m : Machine Q} (h : Reachable m) :
    m.program.delivered ++ m.sp.rxWaiting ++ Q.words m.uart.core.rfifo = m.uart.host.admitted := by
  obtain ⟨_, log, hadm, hrx⟩ := h.rx
  have hcontents : m.sp.rxWaiting = log.drop m.program.delivered.length :=
    hrx.window.contents_eq
  rw [hadm, hcontents]
  refine congrArg (· ++ _) ?_
  exact (congrArg (· ++ _) hrx.delivered).trans (List.take_append_drop _ _)

/-- Of two characters the program was given one; the other is in the buffer. -/
theorem receive_conserves_two :
    ∃ m : Machine listFifo, Reachable m ∧ m.program.delivered = [65]
      ∧ m.program.delivered ++ m.sp.rxWaiting ++ listFifo.words m.uart.core.rfifo = [65, 66] := by
  obtain ⟨m, hm, htest⟩ := run_reaches
    (boot ++ [.call (.read 1 false) noSignal] ++ List.replicate 5 go
      ++ [.stall { noSignal with tEna := true, tDat := 65 },
        .stall { noSignal with tEna := true, tDat := 66 },
        .stall { noSignal with tPause := true }, .interrupt noSignal] ++ List.replicate 13 go)
    (fun m => m.program.delivered == [65] && m.uart.host.admitted == [65, 66]) (by decide +kernel)
  rw [Bool.and_eq_true, beq_iff_eq, beq_iff_eq] at htest
  exact ⟨m, hm, htest.1, (receive_conserves hm).trans htest.2⟩

/-- **A call that waits for characters is woken.**  Unless `rx_in` has moved already, read interrupts
    are enabled: when the host ends a burst (`t_pause`), or the read FIFO is almost full, the core
    interrupts. -/
theorem receive_wakes {m : Machine Q} (h : Reachable m) {r : Read}
    (hmain : m.program.main = .read r) (hpc : r.pc = .spin) :
    r.inp ≠ m.sp.rxIn
      ∨ m.sp.rxWaiting = []
        ∧ ∀ j, (j.tPause = true ∧ Q.words m.uart.core.rfifo ≠ []
            ∨ 56 ≤ (Q.words m.uart.core.rfifo).length) → (m.stalled j).core.irq = true := by
  obtain ⟨hbase, log, _, hrx⟩ := h.rx
  by_cases hinp : r.inp = m.sp.rxIn
  · right
    have hholds := (hrx.frame r hmain).holds
    unfold Read.Assertion at hholds
    rw [hpc] at hholds
    obtain ⟨hgot, _, hout⟩ := hholds
    -- `in` is the present value of `rx_in`, so that the buffer is still empty
    have hempty := hrx.window.inp_eq_out_iff.mp (hinp.symm.trans hout)
    have hon : m.sp.irqEnable.getLsbD 0 = true := by
      rw [← Bool.not_eq_false]
      intro hoff
      rcases hrx.wake hoff with hi | hlt | ⟨v, hv, hne⟩
      · rw [hmain] at hi
        nomatch hi
      · omega
      · rw [hmain] at hv
        cases hv
        exact hne hgot
    refine ⟨?_, fun j hj => ?_⟩
    · unfold JtagUartState.rxWaiting
      rw [hrx.window.contents_eq, hempty, List.drop_length]
    · have hcause : ((m.stalled j).core.pauseIrq || (m.stalled j).core.fifoAF) = true := by
        rw [Bool.or_eq_true]
        rcases hj with ⟨hpause, hne⟩ | hfull
        · have hef : Q.empty m.uart.core.rfifo = false := by
            rw [← Bool.not_eq_true, Q.empty_iff]
            exact hne
          left
          show (if j.tPause && !Q.empty m.uart.core.rfifo then true else _) = true
          rw [hpause, hef]
          rfl
        · right
          refine decide_eq_true (BitVec.le_def.mpr ?_)
          rw [Core.space_toNat]
          show 64 - (Q.words m.uart.core.rfifo).length ≤ 8
          omega
      show (_ || (m.uart.core.ienAF && ((m.stalled j).core.pauseIrq || (m.stalled j).core.fifoAF)))
        = true
      rw [hcause, ← hbase.ienAF, hon, Bool.and_true, Bool.or_true]
  · exact Or.inl hinp

/-- A `read` waits before the host has offered anything. -/
theorem receive_wakes_empty :
    ∃ m : Machine listFifo, Reachable m ∧ m.sp.rxWaiting = []
      ∧ ∀ j, (j.tPause = true ∧ listFifo.words m.uart.core.rfifo ≠ []
          ∨ 56 ≤ (listFifo.words m.uart.core.rfifo).length) → (m.stalled j).core.irq = true := by
  obtain ⟨m, hm, htest⟩ := run_reaches
    (boot ++ [.call (.read 1 false) noSignal] ++ List.replicate 5 go)
    (fun m => m.program.main.asRead.any fun (r : Read) => decide (r.pc = .spin ∧ r.inp = m.sp.rxIn))
    (by decide +kernel)
  obtain ⟨r, hmain, htest⟩ := (Option.any_eq_true _ _).mp htest
  obtain ⟨hpc, hinp⟩ := of_decide_eq_true htest
  exact ⟨m, hm, (receive_wakes hm (Main.of_asRead hmain) hpc).resolve_left fun hne => hne hinp⟩

end Machine

end GpsReceiver.Firmware.JtagUart
