/-
  The single-threaded rate-monotonic scheduler (`scheduler.c`, `THREAD_SINGLE` build).

  1. **State** — the global `int nRmsSchedulerClock`, a `BitVec 32` with wrapping increment.
  2. **Program** — `rmsSchedulerInit` and `loopBody`, one iteration of the `while` loop of
     `RmsSchedulerRun`; the C operator `%` truncates, which is `BitVec.srem`.  A run is `clockAt`
     and `callsAt`, the clock before and the thread functions called in each iteration.
  3. **Specification** — `RateLaw n`: over the 1000 iterations from the `n`-th on, the four thread
     functions are called 1000, 100, 10 times and once.
  4. **What holds** — the clock is the iteration number reduced to a signed 32-bit value
     (`toInt_clockAt`), so each rate fires on the multiples of its period, and a window without the
     wrap is right.  The wrap goes from `2^31 - 1` to `-2^31`; `2^32` is no multiple of 10, 100 or
     1000, so the spacing of the multiples breaks there.  `WrapEvens` is the exact condition under
     which a window across the wrap is right all the same (`rateLaw_iff`).
-/
import GpsReceiver.Lib.Multiples

namespace GpsReceiver.Rms

open GpsReceiver.Lib

/-! ## The program -/

/-- The rate groups. -/
inductive Rate
  | hz1000
  | hz100
  | hz10
  | hz1
  deriving DecidableEq, Repr

/-- The clock `RmsSchedulerInit` leaves; the `Init` functions of the threads it also calls have
    empty bodies. -/
def rmsSchedulerInit : BitVec 32 := 0#32

/-- One iteration of the loop of `RmsSchedulerRun`: the thread functions called, in order, and
    the clock afterwards. -/
def loopBody (nRmsSchedulerClock : BitVec 32) : List Rate × BitVec 32 :=
  ([.hz1000]
      ++ (if nRmsSchedulerClock.srem 10#32 = 0#32 then [.hz100] else [])
      ++ (if nRmsSchedulerClock.srem 100#32 = 0#32 then [.hz10] else [])
      ++ (if nRmsSchedulerClock.srem 1000#32 = 0#32 then [.hz1] else []),
    nRmsSchedulerClock + 1#32)

/-- The clock at the start of iteration `n` of a run started by `RmsSchedulerInit`. -/
def clockAt : Nat → BitVec 32
  | 0 => rmsSchedulerInit
  | n + 1 => (loopBody (clockAt n)).2

/-- The thread functions called in iteration `n`. -/
def callsAt (n : Nat) : List Rate := (loopBody (clockAt n)).1

/-- The calls of the 1000 iterations from the `n`-th on. -/
def windowCalls (n : Nat) : List Rate := (List.range 1000).flatMap (fun i => callsAt (n + i))

/-! ## Specification -/

/-- Each thread runs at its rate over the window that starts with iteration `n`. -/
structure RateLaw (n : Nat) : Prop where
  hz1000 : (windowCalls n).count .hz1000 = 1000
  hz100 : (windowCalls n).count .hz100 = 100
  hz10 : (windowCalls n).count .hz10 = 10
  hz1 : (windowCalls n).count .hz1 = 1

/-! ## The clock -/

theorem clockAt_eq (n : Nat) : clockAt n = BitVec.ofNat 32 n := by
  induction n with
  | zero => rfl
  | succ n ih =>
    show clockAt n + 1#32 = _
    rw [ih, BitVec.ofNat_add]

/-- The clock of a later iteration: `i` further on, or that reduced by `2^32` after the wrap. -/
theorem toInt_clockAt (n : Nat) {i : Nat} (hi : i < 1000) :
    (clockAt (n + i)).toInt
      = if (i : Int) < 2 ^ 31 - (clockAt n).toInt then (clockAt n).toInt + i
        else (clockAt n).toInt + i - 2 ^ 32 := by
  rw [clockAt_eq, clockAt_eq, BitVec.toInt_ofNat', BitVec.toInt_ofNat', Int.bmod_def, Int.bmod_def]
  push_cast
  -- both clocks and the stated value are each on one side of the wrap
  split <;> split <;> split <;> omega

/-- A remainder is zero exactly on the multiples, also for negative clocks. -/
theorem srem_eq_zero_iff (c d : BitVec 32) : c.srem d = 0#32 ↔ d.toInt ∣ c.toInt := by
  rw [← BitVec.toInt_inj, BitVec.toInt_srem, BitVec.toInt_zero]
  exact (Int.dvd_iff_tmod_eq_zero).symm

/-! ## Counting the calls of a window -/

theorem count_hz1000_callsAt (n : Nat) : (callsAt n).count .hz1000 = 1 := by
  simp only [callsAt, loopBody, List.count_append]
  split_ifs <;> rfl

/-- The iteration calls a slower thread when its period divides the clock. -/
theorem count_callsAt (n : Nat) :
    (callsAt n).count .hz100 = (decide ((10 : Int) ∣ (clockAt n).toInt)).toNat
    ∧ (callsAt n).count .hz10 = (decide ((100 : Int) ∣ (clockAt n).toInt)).toNat
    ∧ (callsAt n).count .hz1 = (decide ((1000 : Int) ∣ (clockAt n).toInt)).toNat := by
  have h10 := srem_eq_zero_iff (clockAt n) 10#32
  have h100 := srem_eq_zero_iff (clockAt n) 100#32
  have h1000 := srem_eq_zero_iff (clockAt n) 1000#32
  rw [show (10#32).toInt = 10 from rfl] at h10
  rw [show (100#32).toInt = 100 from rfl] at h100
  rw [show (1000#32).toInt = 1000 from rfl] at h1000
  simp only [callsAt, loopBody, List.count_append, h10, h100, h1000]
  refine ⟨?_, ?_, ?_⟩ <;> split_ifs <;> simp_all

/-- The values the clock takes in a window, seen from its first one. -/
def windowClock (c : Int) (i : Nat) : Int :=
  if (i : Int) < 2 ^ 31 - c then c + i else c + i - 2 ^ 32

/-- The calls of a thread with period `m` in a window are the multiples of `m` among its clocks. -/
theorem count_windowCalls (n : Nat) {r : Rate} {m : Int}
    (h : ∀ k, (callsAt k).count r = (decide (m ∣ (clockAt k).toInt)).toNat) :
    (windowCalls n).count r
      = (List.range 1000).countP (fun i : Nat => m ∣ windowClock (clockAt n).toInt i) := by
  rw [windowCalls, count_flatMap_eq_countP (fun i => h (n + i))]
  refine List.countP_congr fun i hi => ?_
  rw [toInt_clockAt n (List.mem_range.mp hi)]
  rfl

/-- The multiples met in a window that does not reach the wrap. -/
theorem countP_windowClock {m : Int} (hm : 0 < m) {c : Int} (hc : c + 1000 ≤ 2 ^ 31) :
    ((List.range 1000).countP (fun i : Nat => m ∣ windowClock c i) : Int)
      = (c + 999) / m - (c - 1) / m := by
  have hplain := countP_dvd hm c 1000
  rw [show c + ((1000 : Nat) : Int) - 1 = c + 999 by omega] at hplain
  rw [← hplain]
  refine congrArg (Nat.cast : Nat → Int) (List.countP_congr fun i hi => ?_)
  have hi' := List.mem_range.mp hi
  have hbefore : (i : Int) < 2 ^ 31 - c := by omega
  simp only [windowClock, if_pos hbefore]

/-- The multiples met in a window with `a` ticks left before the wrap. -/
theorem countP_windowClock_wrap {m : Int} (hm : 0 < m) {a : Nat} (ha : a ≤ 1000) :
    ((List.range 1000).countP (fun i : Nat => m ∣ windowClock (2 ^ 31 - a) i) : Int)
      = ((2 ^ 31 - 1) / m - (2 ^ 31 - a - 1) / m)
        + ((999 - 2 ^ 31 - a) / m - (-2 ^ 31 - 1) / m) := by
  have hjump := countP_dvd_jump hm (2 ^ 31 - (a : Int)) (2 ^ 32) ha
  rw [show (2 ^ 31 - (a : Int)) + a - 1 = 2 ^ 31 - 1 by omega,
    show (2 ^ 31 - (a : Int)) + ((1000 : Nat) : Int) - 2 ^ 32 - 1 = 999 - 2 ^ 31 - a by omega,
    show (2 ^ 31 - (a : Int)) + a - 2 ^ 32 - 1 = -2 ^ 31 - 1 by omega] at hjump
  rw [← hjump]
  refine congrArg (Nat.cast : Nat → Int) (List.countP_congr fun i _ => ?_)
  have hiff : (i : Int) < 2 ^ 31 - (2 ^ 31 - (a : Int)) ↔ i < a := by omega
  simp only [windowClock, hiff]

/-! ## When the rates are right -/

/-- With `a` ticks of the window left before the wrap, the multiples of every period that the jump
    skips or repeats cancel out. -/
def WrapEvens (a : Int) : Prop :=
  (a % 10 ≤ 1 ∨ 8 ≤ a % 10) ∧ (a % 100 ≤ 47 ∨ 52 ≤ a % 100) ∧ (a ≤ 351 ∨ 648 ≤ a)

/-- The condition on the clock at the start of a window: the window does not reach the wrap, or it
    straddles the wrap evenly. -/
def WindowEven (clock : BitVec 32) : Prop :=
  clock.toInt + 1000 ≤ 2 ^ 31 ∨ WrapEvens (2 ^ 31 - clock.toInt)

instance (a : Int) : Decidable (WrapEvens a) := inferInstanceAs (Decidable (_ ∧ _ ∧ _))

instance (c : BitVec 32) : Decidable (WindowEven c) := inferInstanceAs (Decidable (_ ∨ _))

example : WindowEven 2147482990#32 ∧ ¬ WindowEven 2147483001#32 := by decide

/-- All three counts of a window from clock `c` are right. -/
def CountsRight (c : Int) : Prop :=
  (List.range 1000).countP (fun i : Nat => (10 : Int) ∣ windowClock c i) = 100
  ∧ (List.range 1000).countP (fun i : Nat => (100 : Int) ∣ windowClock c i) = 10
  ∧ (List.range 1000).countP (fun i : Nat => (1000 : Int) ∣ windowClock c i) = 1

theorem countsRight_of_no_wrap {c : Int} (hc : c + 1000 ≤ 2 ^ 31) : CountsRight c := by
  have h10 := countP_windowClock (m := 10) (by omega) hc
  have h100 := countP_windowClock (m := 100) (by omega) hc
  have h1000 := countP_windowClock (m := 1000) (by omega) hc
  exact ⟨by omega, by omega, by omega⟩

/-- Across the wrap each period has its own condition on the ticks left. -/
theorem countsRight_wrap_iff {a : Nat} (ha : a ≤ 1000) :
    CountsRight (2 ^ 31 - a) ↔ WrapEvens a := by
  have h10 := countP_windowClock_wrap (m := 10) (by omega) ha
  have h100 := countP_windowClock_wrap (m := 100) (by omega) ha
  have h1000 := countP_windowClock_wrap (m := 1000) (by omega) ha
  -- the three conditions are independent, so each period is decided by its own count
  refine and_congr ?_ (and_congr ?_ ?_)
  · clear h100 h1000
    omega
  · clear h10 h1000
    omega
  · clear h10 h100
    omega

/-- The arithmetic of one window: all three counts are right exactly under the condition. -/
theorem countsRight_iff {c : Int} (hc : c < 2 ^ 31) :
    CountsRight c ↔ (c + 1000 ≤ 2 ^ 31 ∨ WrapEvens (2 ^ 31 - c)) := by
  by_cases hplain : c + 1000 ≤ 2 ^ 31
  · exact ⟨fun _ => Or.inl hplain, fun _ => countsRight_of_no_wrap hplain⟩
  · obtain ⟨a, ha⟩ : ∃ a : Nat, (a : Int) = 2 ^ 31 - c := ⟨(2 ^ 31 - c).toNat, by omega⟩
    have hiff := countsRight_wrap_iff (a := a) (by omega)
    rw [show (2 ^ 31 : Int) - a = c by omega] at hiff
    rw [hiff, ← ha]
    exact ⟨Or.inr, fun h => h.resolve_left hplain⟩

/-- **Rate law.**  In every run started by `RmsSchedulerInit`, the window of 1000 iterations from
    the `n`-th on calls the four thread functions 1000, 100, 10 times and once exactly when it does
    not contain the wrap of the clock, or contains it at a place where the skipped and the repeated
    multiples of all three periods cancel. -/
theorem rateLaw_iff (n : Nat) : RateLaw n ↔ WindowEven (clockAt n) := by
  have h1000 : (windowCalls n).count .hz1000 = 1000 := by
    rw [windowCalls, count_flatMap_eq_countP (p := fun _ => true)
      (fun i => count_hz1000_callsAt (n + i))]
    simp
  have h100 := count_windowCalls n (fun k => (count_callsAt k).1)
  have h10 := count_windowCalls n (fun k => (count_callsAt k).2.1)
  have h1 := count_windowCalls n (fun k => (count_callsAt k).2.2)
  have hiff := countsRight_iff (c := (clockAt n).toInt) BitVec.toInt_lt
  constructor
  · intro h
    exact hiff.mp ⟨h100.symm.trans h.hz100, h10.symm.trans h.hz10, h1.symm.trans h.hz1⟩
  · intro h
    obtain ⟨e100, e10, e1⟩ := hiff.mpr h
    exact ⟨h1000, h100.trans e100, h10.trans e10, h1.trans e1⟩

/-- The window that starts 647 ticks before the clock wraps never calls the 1 Hz thread. -/
theorem rateLaw_fails_at_wrap : ¬ RateLaw 2147483001 := by
  intro h
  have h1 := h.hz1
  rw [count_windowCalls _ (fun k => (count_callsAt k).2.2), clockAt_eq,
    show (BitVec.ofNat 32 2147483001).toInt = 2147483001 from rfl] at h1
  have hcount := countP_windowClock_wrap (m := 1000) (a := 647) (by omega) (by omega)
  rw [show (2 ^ 31 - ((647 : Nat) : Int)) = 2147483001 from rfl] at hcount
  omega

end GpsReceiver.Rms
