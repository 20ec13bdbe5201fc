/-
  `altera_avalon_jtag_uart_init.c`, `…_write.c`, `…_read.c` and `…_ioctl.c` — the interrupt driven
  driver of the console.

  1. **Data** — `JtagUartState` is the structure `sp` points to.
  2. **Steps** — one for each load or store of a variable that both sides use and for each access
     to the core (`Action`), so that an interrupt falls between any two of them.
  3. **Functions** — a call keeps its arguments and local variables in `Write` or `Read`, the
     interrupt routine its own in `Isr`; `step` is what each does next, in the order of the source.
  4. **Program** — `Program.step` runs the initialisation and then the calls, of which it keeps a
     log.
-/
import GpsReceiver.Firmware.JtagUart
import GpsReceiver.Lib.RingBuffer

namespace GpsReceiver.Firmware.JtagUart

open Lib.RingBuffer

/-! ## Data -/

/-- `ALTERA_AVALON_JTAG_UART_BUF_LEN`, `ALTERA_AVALON_JTAG_UART_DEFAULT_TIMEOUT` and `INT_MAX`. -/
def bufLen : Nat := 2048
def defaultTimeout : Nat := 10
def intMax : Nat := 2147483647

/-- The error numbers. -/
def eio : Int := 5
def ewouldblock : Int := 11
def enotty : Int := 25
def enotsup : Int := 134

/-- `altera_avalon_jtag_uart_state`. -/
structure JtagUartState where
  timeout : Nat
  irqEnable : BitVec 32
  hostInactive : Nat
  rxIn : Nat
  rxOut : Nat
  txIn : Nat
  txOut : Nat
  rxBuf : Nat → Byte
  txBuf : Nat → Byte

/-- `ALTERA_AVALON_JTAG_UART_STATE_INSTANCE`. -/
def jtagUartInstance : JtagUartState where
  timeout := defaultTimeout
  irqEnable := 0
  hostInactive := 0
  rxIn := 0
  rxOut := 0
  txIn := 0
  txOut := 0
  rxBuf := fun _ => 0
  txBuf := fun _ => 0

/-- A request of `ioctl`, with what its argument points to. -/
inductive Req
  | tiocstimeout (arg : Int)
  | tiocgconnected
  | other
deriving DecidableEq

/-- A call that has returned. -/
inductive Completed
  | wrote (data : List Byte) (nonblock : Bool) (ret : Int)
  | read (space : Nat) (nonblock : Bool) (buffer : List Byte) (ret : Int)
  | closed (nonblock : Bool) (ret : Int)
  | ioctl (req : Req) (ret : Int) (arg : Option Int)
deriving DecidableEq

/-- What a step does: instructions only, or an access whose value it goes on with. -/
inductive Action (P : Type)
  | cpu (sp : JtagUartState) (next : P)
  | io (op : Op) (k : BitVec 32 → JtagUartState × P)

/-! ## `altera_avalon_jtag_uart_write` -/

inductive WritePc
  | test
  | loadOut
  | copy
  | kick
  | spin
deriving DecidableEq

/-- A call that writes `data`; `done` characters are in the buffer and `i` of `n` in the `memcpy`
    under way. -/
structure Write where
  pc : WritePc
  data : List Byte
  nonblock : Bool
  done : Nat
  inp : Nat
  out : Nat
  n : Nat
  i : Nat

namespace Write

def start (data : List Byte) (nonblock : Bool) : Write :=
  { pc := .test, data := data, nonblock := nonblock, done := 0, inp := 0, out := 0, n := 0, i := 0 }

/-- The variable `count`. -/
def count (w : Write) : Nat := w.data.length - w.done

/-- The value returned. -/
def ret (w : Write) : Int :=
  if w.done ≠ 0 then w.done else if w.nonblock then -ewouldblock else -eio

def completed (w : Write) : Completed := .wrote w.data w.nonblock w.ret

/-- One step; `inr` returns. -/
def step (sp : JtagUartState) (w : Write) : Action (Write ⊕ Completed) :=
  match w.pc with
  | .test =>
    if 0 < w.count then .cpu sp (.inl { w with pc := .loadOut, inp := sp.txIn })
    else .cpu sp (.inl { w with pc := .kick })
  | .loadOut =>
    let n := room bufLen w.inp sp.txOut
    if n = 0 then .cpu sp (.inl { w with pc := .kick, out := sp.txOut, n := 0 })
    else .cpu sp (.inl { w with pc := .copy, out := sp.txOut, n := min n w.count, i := 0 })
  | .copy =>
    if w.i < w.n then
      .cpu { sp with txBuf := Function.update sp.txBuf (w.inp + w.i) (w.data.getD (w.done + w.i) 0) }
        (.inl { w with i := w.i + 1 })
    else
      .cpu { sp with txIn := (w.inp + w.n) % bufLen }
        (.inl { w with pc := .test, done := w.done + w.n })
  | .kick =>
    -- between `alt_irq_disable_all` and `alt_irq_enable_all`
    let irqEnable := sp.irqEnable ||| weMsk
    .io (.writeControl irqEnable) fun _ =>
      ({ sp with irqEnable := irqEnable },
        if 0 < w.count ∧ w.nonblock = false then .inl { w with pc := .spin } else .inr w.completed)
  | .spin =>
    if w.out = sp.txOut ∧ sp.hostInactive < sp.timeout then .cpu sp (.inl w)
    else if sp.hostInactive ≠ 0 then .cpu sp (.inr w.completed)
    else .cpu sp (.inl { w with pc := .test })

end Write

/-! ## `altera_avalon_jtag_uart_read` -/

inductive ReadPc
  | test
  | load
  | loadOut
  | copy
  | after
  | spin
  | recheck
  | post
deriving DecidableEq

/-- A call with room for `space` characters: `got` are those before `ptr`, and `chunk` those of the
    `memcpy` of `n` under way. -/
structure Read where
  pc : ReadPc
  space : Nat
  nonblock : Bool
  got : List Byte
  chunk : List Byte
  inp : Nat
  out : Nat
  n : Nat

namespace Read

def start (space : Nat) (nonblock : Bool) : Read :=
  { pc := .test, space := space, nonblock := nonblock, got := [], chunk := [], inp := 0, out := 0,
    n := 0 }

/-- The value returned. -/
def ret (r : Read) : Int :=
  if r.got ≠ [] then r.got.length else if r.nonblock then -ewouldblock else -eio

def completed (r : Read) : Completed := .read r.space r.nonblock r.got r.ret

/-- The variable `space` counts down from the argument. -/
def left (r : Read) : Nat := r.space - r.got.length

/-- One step; `inr` returns. -/
def step (sp : JtagUartState) (r : Read) : Action (Read ⊕ Completed) :=
  match r.pc with
  | .test => .cpu sp (.inl { r with pc := if 0 < r.left then .load else .post })
  | .load => .cpu sp (.inl { r with pc := .loadOut, inp := sp.rxIn })
  | .loadOut =>
    let n := avail bufLen r.inp sp.rxOut
    if n = 0 then .cpu sp (.inl { r with pc := .after, out := sp.rxOut, n := 0 })
    else .cpu sp (.inl { r with pc := .copy, out := sp.rxOut, n := min n r.left, chunk := [] })
  | .copy =>
    if r.chunk.length < r.n then
      .cpu sp (.inl { r with chunk := r.chunk ++ [sp.rxBuf (r.out + r.chunk.length)] })
    else
      .cpu { sp with rxOut := (r.out + r.n) % bufLen }
        (.inl { r with
          pc := if 0 < r.left - r.n then .load else .after
          got := r.got ++ r.chunk
          chunk := [] })
  | .after =>
    .cpu sp (.inl { r with pc := if r.got ≠ [] ∨ r.nonblock = true then .post else .spin })
  | .spin =>
    if r.inp = sp.rxIn ∧ sp.hostInactive < sp.timeout then .cpu sp (.inl r)
    else .cpu sp (.inl { r with pc := .recheck })
  | .recheck => .cpu sp (.inl { r with pc := if r.inp = sp.rxIn then .post else .test })
  | .post =>
    if r.got ≠ [] then
      -- between `alt_irq_disable_all` and `alt_irq_enable_all`
      let irqEnable := sp.irqEnable ||| reMsk
      .io (.writeControl irqEnable) fun _ => ({ sp with irqEnable := irqEnable }, .inr r.completed)
    else .cpu sp (.inr r.completed)

end Read

/-! ## `altera_avalon_jtag_uart_irq` -/

/-- The interrupt routine; `control`, `data` and `space` are its variables. -/
inductive Isr
  | poll
  | drain (control data : BitVec 32)
  | rxOff (control : BitVec 32)
  | rxDummy (control : BitVec 32)
  | tx (space : Nat)
  | txOff
  | txDummy

namespace Isr

/-- The variable `space`. -/
def wspace (control : BitVec 32) : Nat := ((control &&& wspaceMsk) >>> wspaceOfst).toNat

/-- After the read part. -/
def afterRx (control : BitVec 32) : Isr :=
  if control &&& wiMsk ≠ 0 then .tx (wspace control) else .poll

/-- After the loop of the read part. -/
def afterDrain (control data : BitVec 32) : Isr :=
  if data &&& ravailMsk ≠ 0 then .rxOff control else afterRx control

/-- After the read of the control register. -/
def afterPoll (control : BitVec 32) : Option Isr :=
  if control &&& (riMsk ||| wiMsk) = 0 then none
  else if control &&& riMsk ≠ 0 then some (.drain control ((1 : BitVec 32) <<< ravailOfst))
  else some (afterRx control)

/-- One step; `none` returns. -/
def step (sp : JtagUartState) : Isr → Action (Option Isr)
  | .poll => .io .readControl fun control => (sp, afterPoll control)
  | .drain control data =>
    if (sp.rxIn + 1) % bufLen = sp.rxOut then .cpu sp (some (afterDrain control data))
    else .io .readData fun data =>
      if data &&& rvalidMsk = 0 then (sp, some (afterDrain control data))
      else
        ({ sp with
            rxBuf := Function.update sp.rxBuf sp.rxIn ((data &&& dataMsk).setWidth 8)
            rxIn := (sp.rxIn + 1) % bufLen },
          some (.drain control data))
  | .rxOff control =>
    let irqEnable := sp.irqEnable &&& ~~~reMsk
    .io (.writeControl irqEnable) fun _ =>
      ({ sp with irqEnable := irqEnable }, some (.rxDummy control))
  | .rxDummy control => .io .readControl fun _ => (sp, some (afterRx control))
  | .tx space =>
    if 0 < space ∧ sp.txOut ≠ sp.txIn then
      .io (.writeData ((sp.txBuf sp.txOut).signExtend 32)) fun _ =>
        ({ sp with txOut := (sp.txOut + 1) % bufLen }, some (.tx (space - 1)))
    else .cpu sp (some (if 0 < space then .txOff else .poll))
  | .txOff =>
    let irqEnable := sp.irqEnable &&& ~~~weMsk
    .io (.writeControl irqEnable) fun _ => ({ sp with irqEnable := irqEnable }, some .txDummy)
  | .txDummy => .io .readControl fun _ => (sp, some .poll)

end Isr

/-! ## The program -/

/-- `alt_alarm_start`, when no system clock ticks. -/
def altAlarmStart (ticksPerSecond : Nat) : Int := if ticksPerSecond ≠ 0 then 0 else -enotsup

/-- `alt_ticks_per_second`: the board support package has `ALT_SYS_CLK none`. -/
def altTicksPerSecond : Nat := 0

/-- `altera_avalon_jtag_uart_ioctl`: the state, the value returned and the one stored at the
    argument. -/
def ioctl (sp : JtagUartState) : Req → JtagUartState × Int × Option Int
  | .tiocstimeout arg =>
    if sp.timeout ≠ intMax then
      ({ sp with timeout := if 2 ≤ arg ∧ arg < intMax then arg.toNat else intMax - 1 }, 0, none)
    else (sp, -enotty, none)
  | .tiocgconnected =>
    if sp.timeout ≠ intMax then
      (sp, 0, some (if sp.hostInactive < sp.timeout then 1 else 0))
    else (sp, -enotty, none)
  | .other => (sp, -enotty, none)

/-- Where the program is: in the three parts of `altera_avalon_jtag_uart_init`, outside the driver
    or in one of its functions. -/
inductive Main
  | init
  | register
  | alarm
  | idle
  | write (w : Write)
  | read (r : Read)
  | close (nonblock : Bool)
  | ioctl (req : Req)

/-- The program and the calls that have returned. -/
structure Program where
  log : List Completed
  main : Main

/-- A call. -/
inductive Call
  | write (data : List Byte) (nonblock : Bool)
  | read (space : Nat) (nonblock : Bool)
  | close (nonblock : Bool)
  | ioctl (req : Req)

def Call.start : Call → Main
  | .write data nonblock => .write (.start data nonblock)
  | .read space nonblock => .read (.start space nonblock)
  | .close nonblock => .close nonblock
  | .ioctl req => .ioctl req

/-- The next state of the program. -/
def Program.goto {α : Type} (log : List Completed) (main : α → Main) : α ⊕ Completed → Program
  | .inl frame => { log := log, main := main frame }
  | .inr c => { log := log ++ [c], main := .idle }

def Action.map {P P' : Type} (f : P → P') : Action P → Action P'
  | .cpu sp p => .cpu sp (f p)
  | .io op k => .io op fun v => ((k v).1, f (k v).2)

/-- One step of the program, unless it is outside the driver. -/
def Program.step (sp : JtagUartState) (p : Program) : Option (Action Program) :=
  match p.main with
  | .init => some (.io (.writeControl reMsk) fun _ =>
      ({ sp with irqEnable := reMsk }, { p with main := .register }))
  | .register => some (.cpu { sp with hostInactive := 0 } { p with main := .alarm })
  | .alarm =>
    let timeout := if altAlarmStart altTicksPerSecond < 0 then intMax else sp.timeout
    some (.cpu { sp with timeout := timeout } { p with main := .idle })
  | .idle => none
  | .write w => some ((w.step sp).map (.goto p.log .write))
  | .read r => some ((r.step sp).map (.goto p.log .read))
  | .close nonblock =>
    let c : Unit ⊕ Completed :=
      if sp.txOut ≠ sp.txIn ∧ sp.hostInactive < sp.timeout then
        if nonblock then .inr (.closed nonblock (-ewouldblock)) else .inl ()
      else .inr (.closed nonblock 0)
    some (.cpu sp (.goto p.log (fun _ => .close nonblock) c))
  | .ioctl req =>
    let r := JtagUart.ioctl sp req
    some (.cpu r.1 { log := p.log ++ [.ioctl req r.2.1 r.2.2], main := .idle })

/-- The handler is registered. -/
def Main.armed : Main → Bool
  | .init | .register => false
  | _ => true

/-- The alarm was asked for. -/
def Main.started : Main → Bool
  | .init | .register | .alarm => false
  | _ => true

end GpsReceiver.Firmware.JtagUart
