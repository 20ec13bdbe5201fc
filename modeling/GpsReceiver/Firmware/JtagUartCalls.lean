/-
  What the program is told by the calls of the console driver.

  1. **Returns** — a step of the machine logs at most one call, and `Returns` says in which state
     each kind of call returns.
  2. **Values** — `calls_right`: a blocking `write` of at least one character reports all of them,
     a blocking `read` for at least one reports at least one, and no call reports more than it was
     asked for.
  3. **Close** — `close_flushes`: after `close` reports success the buffer is empty, and everything
     that was reported as written has left the processor.
  4. **Memory** — `transfers_in_bounds`: indices and transfers stay inside the buffers.
-/
import GpsReceiver.Firmware.JtagUartReceive
import GpsReceiver.Firmware.JtagUartTransmit

namespace GpsReceiver.Firmware.JtagUart

open Lib.RingBuffer

/-- What a call may report. -/
def Completed.Right : Completed → Prop
  | .wrote data nonblock ret =>
    if nonblock then ret = -ewouldblock ∨ 0 < ret ∧ ret ≤ data.length
    else if data = [] then ret = -eio else ret = data.length
  | .read space nonblock buffer ret =>
    0 < ret ∧ ret ≤ space ∧ ret = buffer.length
      ∨ buffer = [] ∧ if nonblock then ret = -ewouldblock else space = 0 ∧ ret = -eio
  | .closed nonblock ret => ret = 0 ∨ nonblock = true ∧ ret = -ewouldblock
  | .ioctl _ ret arg => ret = -enotty ∧ arg = none

theorem Write.right {w : Write} (hle : w.done ≤ w.data.length)
    (hstop : w.count = 0 ∨ w.nonblock = true) : w.completed.Right := by
  have hcount : w.count = w.data.length - w.done := rfl
  show if w.nonblock then _ else _
  unfold Write.ret
  cases hblock : w.nonblock with
  | true =>
    simp only [if_true]
    split
    · right
      omega
    · exact Or.inl rfl
  | false =>
    have hzero := hstop.resolve_right (by rw [hblock]; decide)
    simp only [Bool.false_eq_true, if_false]
    split
    · rename_i hnil
      rw [hnil, List.length_nil] at hle
      rw [if_neg (by omega)]
    · rename_i hne
      have hpos := List.length_pos_iff.mpr hne
      rw [if_pos (by omega)]
      omega

theorem Read.right {r : Read} (hle : r.got.length ≤ r.space)
    (hpost : r.got = [] → r.nonblock = true ∨ r.space = 0) : r.completed.Right := by
  show _ ∨ _ ∧ if r.nonblock then r.ret = _ else _ ∧ r.ret = _
  unfold Read.ret
  by_cases hgot : r.got = []
  · right
    refine ⟨hgot, ?_⟩
    simp only [hgot, ne_eq, not_true_eq_false, if_false]
    cases hblock : r.nonblock with
    | true => rfl
    | false => exact ⟨(hpost hgot).resolve_left (by rw [hblock]; decide), rfl⟩
  · left
    rw [if_pos hgot]
    have hpos := List.length_pos_iff.mpr hgot
    omega

namespace Machine

open Uart

variable {Q : Scfifo}

/-- The states in which a call returns. -/
inductive Returns (m m' : Machine Q) : Completed → Prop
  | wrote (w : Write) (main : m.program.main = .write w) (stop : w.count = 0 ∨ w.nonblock = true) :
      Returns m m' w.completed
  | read (r : Read) (main : m.program.main = .read r) (pc : r.pc = .post) : Returns m m' r.completed
  | closed (nonblock : Bool) (memory : m'.sp = m.sp) (empty : m.sp.txOut = m.sp.txIn) :
      Returns m m' (.closed nonblock 0)
  | refused : Returns m m' (.closed true (-ewouldblock))
  | ioctl (req : Req) : Returns m m' (.ioctl req (-enotty) none)

/-- A step of a call logs nothing, or the call. -/
theorem goto_log {α : Type} (log : List Completed) (main : α → Main) {Φ : Completed → Prop}
    {a : Action (α ⊕ Completed)} (h : a.All fun _ x => ∀ c, x = .inr c → Φ c) :
    (a.map (Program.goto log main)).All fun _ p' =>
      p'.log = log ∨ ∃ c, p'.log = log ++ [c] ∧ Φ c := by
  refine Action.map_all _ (h.mono ?_)
  intro _ x hx
  cases x with
  | inl frame => exact Or.inl rfl
  | inr c => exact Or.inr ⟨c, rfl, hx c rfl⟩

theorem log_step {m m' : Machine Q} (hbase : Base m) (hdoes : Does m m') :
    m'.program.log = m.program.log
      ∨ ∃ c, m'.program.log = m.program.log ++ [c] ∧ Returns m m' c := by
  have hstarted := hbase.started
  cases hdoes with
  | program action j j' idle next =>
    cases Program.step_does next with
    | init => exact Or.inl rfl
    | register => exact Or.inl rfl
    | alarm => exact Or.inl rfl
    | write w at_write =>
      refine (perform_all (goto_log _ _ (w.step_returns m.sp)) j j').imp_right ?_
      rintro ⟨c, hlog, rfl, hstop⟩
      exact ⟨_, hlog, .wrote w at_write (hstop hstarted.hostInactive)⟩
    | read r at_read =>
      refine (perform_all (goto_log _ _ (r.step_returns m.sp)) j j').imp_right ?_
      rintro ⟨c, hlog, rfl, hpc⟩
      exact ⟨_, hlog, .read r at_read hpc⟩
    | close nonblock at_close =>
      have htimer : m.sp.hostInactive < m.sp.timeout := by
        rw [hstarted.hostInactive, hstarted.timeout (by rw [at_close]; rfl)]
        decide
      have hclose : ∀ x : Unit ⊕ Completed, x =
          (if m.sp.txOut ≠ m.sp.txIn ∧ m.sp.hostInactive < m.sp.timeout then
            if nonblock then .inr (.closed nonblock (-ewouldblock)) else .inl ()
          else .inr (.closed nonblock 0)) → ∀ c, x = .inr c →
            c = .closed true (-ewouldblock) ∨ c = .closed nonblock 0 ∧ m.sp.txOut = m.sp.txIn := by
        rintro _ rfl c hc
        split at hc
        · split at hc
          · rename_i hnonblock
            cases hc
            exact Or.inl (by rw [hnonblock])
          · nomatch hc
        · rename_i hempty
          cases hc
          exact Or.inr ⟨rfl, by_contra fun hne => hempty ⟨hne, htimer⟩⟩
      have hlog := goto_log m.program.log (fun _ : Unit => .close nonblock) (a := .cpu m.sp _)
        (hclose _ rfl)
      refine Or.imp_right ?_ hlog
      rintro ⟨c, hlog, rfl | ⟨rfl, hempty⟩⟩
      · exact ⟨_, hlog, .refused⟩
      · exact ⟨_, hlog, .closed nonblock rfl hempty⟩
    | ioctl req at_ioctl =>
      have hrefuse := ioctl_started (hstarted.timeout (by rw [at_ioctl]; rfl)) req
      right
      refine ⟨_, rfl, ?_⟩
      rw [hrefuse]
      exact .ioctl req
  | _ => exact Or.inl rfl

/-- **Values.**  Every call that has returned reported what it should. -/
theorem calls_right {m : Machine Q} (h : Reachable m) : ∀ c ∈ m.program.log, c.Right := by
  induction h with
  | start => nofun
  | @next m m' e hm hstep ih =>
    obtain ⟨hbase, htx⟩ := Reachable.tx hm
    obtain ⟨_, log, _, hrx⟩ := Reachable.rx hm
    intro c hc
    rcases log_step hbase (step_does hstep) with heq | ⟨c', heq, hreturn⟩
    · rw [heq] at hc
      exact ih c hc
    · rw [heq, List.mem_append, List.mem_singleton] at hc
      rcases hc with hold | rfl
      · exact ih c hold
      · cases hreturn with
        | wrote w main stop => exact w.right (htx.frame w main).done_le stop
        | read r main pc =>
          have hholds := (hrx.frame r main).holds
          unfold Read.Assertion at hholds
          rw [pc] at hholds
          exact r.right (hrx.frame r main).got_le hholds
        | closed nonblock memory empty => exact Or.inl rfl
        | refused => exact Or.inr ⟨rfl, rfl⟩
        | ioctl req => exact ⟨rfl, rfl⟩

/-- A `write` of two characters has returned. -/
theorem calls_right_wrote :
    ∃ m : Machine listFifo, Reachable m ∧ m.program.log = [.wrote [72, 105] false 2]
      ∧ ∀ c ∈ m.program.log, c.Right := by
  obtain ⟨m, hm, hlog⟩ := run_reaches
    (boot ++ [.call (.write [72, 105] false) noSignal] ++ List.replicate 7 go)
    (fun m => decide (m.program.log = [.wrote [72, 105] false 2])) (by decide +kernel)
  exact ⟨m, hm, of_decide_eq_true hlog, calls_right hm⟩

/-- **Close.**  When `close` reports success, everything that was reported as written has left the
    processor. -/
theorem close_flushes {m m' : Machine Q} (h : Reachable m) {e : Event} (hstep : m.step e = some m')
    {nonblock : Bool} (hlog : m'.program.log = m.program.log ++ [.closed nonblock 0]) :
    m'.uart.host.received ++ (if m'.uart.core.rVal then [Q.q m'.uart.core.wfifo] else [])
      ++ Q.words m'.uart.core.wfifo = m'.program.accepted := by
  obtain ⟨hbase, _⟩ := h.tx
  have hconserve := transmit_conserves (.next e h hstep)
  have hempty : m'.sp.txIn = m'.sp.txOut := by
    rcases log_step hbase (step_does hstep) with heq | ⟨c, heq, hreturn⟩
    · rw [heq] at hlog
      exact absurd hlog (by simp)
    · rw [heq, List.append_cancel_left_eq, List.singleton_inj] at hlog
      subst hlog
      cases hreturn with
      | closed _ memory empty => rw [memory, empty]
  unfold JtagUartState.txWaiting at hconserve
  rwa [hempty, contents_self, List.append_nil] at hconserve

/-- A `close` after a `write` of one character, which the host takes from the core. -/
theorem close_flushes_one :
    ∃ m m' : Machine listFifo, Reachable m ∧ m.step go = some m'
      ∧ m'.program.log = [.wrote [72] false 1, .closed false 0]
      ∧ m'.uart.host.received
        ++ (if m'.uart.core.rVal then [listFifo.q m'.uart.core.wfifo] else [])
        ++ listFifo.words m'.uart.core.wfifo = m'.program.accepted := by
  obtain ⟨m, hm, htest⟩ := run_reaches
    (boot ++ [.call (.write [72] false) noSignal] ++ List.replicate 6 go
      ++ [.stall noSignal, .interrupt noSignal] ++ List.replicate 6 go
      ++ [.call (.close false) noSignal])
    (fun m => decide (m.program.log = [.wrote [72] false 1])
      && (m.step go).any fun m' : Machine listFifo =>
        decide (m'.program.log = [.wrote [72] false 1, .closed false 0]))
    (by decide +kernel)
  rw [Bool.and_eq_true, Option.any_eq_true] at htest
  obtain ⟨hlog, m', hstep, hlog'⟩ := htest
  have hlog := of_decide_eq_true hlog
  have hlog' := of_decide_eq_true hlog'
  exact ⟨m, m', hm, hstep, hlog', close_flushes hm hstep (by rw [hlog', hlog]; rfl)⟩

/-- **Memory.**  The indices and the transfers under way stay inside the buffers and inside the
    caller's. -/
theorem transfers_in_bounds {m : Machine Q} (h : Reachable m) :
    m.sp.rxIn < bufLen ∧ m.sp.rxOut < bufLen ∧ m.sp.txIn < bufLen ∧ m.sp.txOut < bufLen
      ∧ (∀ w, m.program.main = .write w → w.pc = .copy → w.i < w.n →
          w.inp + w.i < bufLen ∧ w.done + w.i < w.data.length)
      ∧ ∀ r, m.program.main = .read r → r.pc = .copy → r.chunk.length < r.n →
          r.out + r.chunk.length < bufLen ∧ r.got.length + r.chunk.length < r.space := by
  obtain ⟨_, htx⟩ := h.tx
  obtain ⟨_, log, _, hrx⟩ := h.rx
  refine ⟨hrx.window.inp_lt, hrx.window.out_lt, htx.window.inp_lt, htx.window.out_lt, ?_, ?_⟩
  · intro w hmain hpc hi
    have hholds := (htx.frame w hmain).holds
    unfold Write.Assertion at hholds
    rw [hpc] at hholds
    have hfits := hholds.fits
    have hn : w.n ≤ w.data.length - w.done := hholds.n_le
    omega
  · intro r hmain hpc hn
    have hholds := (hrx.frame r hmain).holds
    unfold Read.Assertion at hholds
    rw [hpc] at hholds
    have hfits := hholds.fits
    have hleft : r.n ≤ r.space - r.got.length := hholds.n_le
    omega

/-- In the `memcpy` of a `write`. -/
theorem transfers_in_bounds_copy :
    ∃ (m : Machine listFifo) (w : Write), Reachable m ∧ m.program.main = .write w ∧ w.i = 1
      ∧ w.inp + w.i < bufLen ∧ w.done + w.i < w.data.length := by
  obtain ⟨m, hm, htest⟩ := run_reaches
    (boot ++ [.call (.write [72, 105] false) noSignal] ++ List.replicate 3 go)
    (fun m => m.program.main.asWrite.any fun (w : Write) => decide (w.pc = .copy ∧ w.i = 1 ∧ w.n = 2))
    (by decide +kernel)
  obtain ⟨w, hwrite, htest⟩ := (Option.any_eq_true _ _).mp htest
  obtain ⟨hpc, hi, hn⟩ := of_decide_eq_true htest
  have hmain := Main.of_asWrite hwrite
  exact ⟨m, w, hm, hmain, hi,
    (transfers_in_bounds hm).2.2.2.2.1 w hmain hpc (by rw [hi, hn]; decide)⟩

/-- **The write FIFO never overflows**: the interrupt routine sends no more than there is space for. -/
theorem never_overflows {m : Machine Q} (h : Reachable m) :
    m.uart.core.woverflow = false
      ∧ ∀ space, m.isr = some (.tx space) → space + (Q.words m.uart.core.wfifo).length ≤ 64 := by
  obtain ⟨hbase, _⟩ := h.tx
  exact ⟨hbase.woverflow, fun space hisr => hbase.space _ hisr⟩

/-- With all the space of an empty FIFO. -/
theorem never_overflows_tx :
    ∃ m : Machine listFifo, Reachable m ∧ m.uart.core.woverflow = false
      ∧ 64 + (listFifo.words m.uart.core.wfifo).length ≤ 64 := by
  obtain ⟨m, hm, htest⟩ := run_reaches
    (boot ++ [.call (.write [72, 105] false) noSignal] ++ List.replicate 7 go
      ++ [.stall noSignal, .interrupt noSignal, go])
    (fun m => match m.isr with
      | some (.tx space) => decide (space = 64)
      | _ => false) (by decide +kernel)
  split at htest
  · rename_i space hisr
    have hspace := (never_overflows hm).2 space hisr
    rw [of_decide_eq_true htest] at hspace
    exact ⟨m, hm, (never_overflows hm).1, hspace⟩
  · nomatch htest

end Machine

end GpsReceiver.Firmware.JtagUart
