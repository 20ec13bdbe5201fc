/-
  `CACODE` — the C/A code generator of the FPGA (`cacode.v`).

  1. **State** — the two registers `g1`, `g2`, declared `[10:1]`: Verilog index `i` is bit `i - 1`
     of a `BitVec 10` (`sel`).
  2. **Inputs** — a clock edge carries the values of `rst` and `rd` (`Edge`); the tap selections
     `T0`, `T1` are four-bit inputs of the combinational output.
  3. **Program** — `posedge` is the `always` block, `chip` the `assign`.  A bit select outside
     `[10:1]` reads `x` in Verilog and `x` propagates through `^`; `chip` returns `none` then.
     `Tap` packages the selections for which the output is a bit.
  4. **Runs** — `run` folds `posedge` over any sequence of edges from any power-up contents.

  `g1Register` and `g2Register` certify that both feedback polynomials are primitive: each shift
  register is a `MaxLength` register of width ten.
-/
import GpsReceiver.Lib.MaxLength

namespace GpsReceiver.CaCode

open GpsReceiver.Lib

/-! ## Registers, edges and the clocked block -/

/-- The registers `g1` and `g2`. -/
@[ext] structure Regs where
  g1 : BitVec 10
  g2 : BitVec 10
  deriving DecidableEq, Repr

/-- The inputs sampled at one rising clock edge. -/
structure Edge where
  rst : Bool
  rd : Bool
  deriving DecidableEq, Repr

/-- `g[i]` of a register declared `[10:1]`. -/
def sel (g : BitVec 10) (i : Nat) : Bool := g.getLsbD (i - 1)

/-- The reset value `10'b1111111111`. -/
def ones : BitVec 10 := 0b1111111111#10

/-- The concatenation `{g[9:1], b}`. -/
def shiftIn (g : BitVec 10) (b : Bool) : BitVec 10 := g.extractLsb' 0 9 ++ BitVec.ofBool b

/-- `{g1[9:1], g1[3] ^ g1[10]}`. -/
def shiftG1 (g1 : BitVec 10) : BitVec 10 := shiftIn g1 (sel g1 3 ^^ sel g1 10)

/-- `{g2[9:1], g2[2] ^ g2[3] ^ g2[6] ^ g2[8] ^ g2[9] ^ g2[10]}`. -/
def shiftG2 (g2 : BitVec 10) : BitVec 10 :=
  shiftIn g2 (sel g2 2 ^^ sel g2 3 ^^ sel g2 6 ^^ sel g2 8 ^^ sel g2 9 ^^ sel g2 10)

/-- The `always @ (posedge clk)` block. -/
def posedge (r : Regs) (e : Edge) : Regs :=
  if e.rst then { g1 := ones, g2 := ones }
  else if e.rd then { g1 := shiftG1 r.g1, g2 := shiftG2 r.g2 }
  else r

/-! ## The output -/

/-- The bit select `g2[T]`; `none` is the `x` read outside the declared range. -/
def bitSelect (g : BitVec 10) (T : BitVec 4) : Option Bool :=
  if 1 ≤ T.toNat ∧ T.toNat ≤ 10 then some (sel g T.toNat) else none

/-- `assign chip = g1[10] ^ g2[T0] ^ g2[T1]`. -/
def chip (T0 T1 : BitVec 4) (r : Regs) : Option Bool := do
  let a ← bitSelect r.g2 T0
  let b ← bitSelect r.g2 T1
  return sel r.g1 10 ^^ a ^^ b

/-- A tap selection inside the declared range of `g2`. -/
structure Tap where
  input : BitVec 4
  in_range : 1 ≤ input.toNat ∧ input.toNat ≤ 10
  deriving DecidableEq

namespace Tap

/-- The position `1 .. 10` the tap reads. -/
def pos (T : Tap) : Nat := T.input.toNat

theorem pos_bounds (T : Tap) : 1 ≤ T.pos ∧ T.pos ≤ 10 := T.in_range

theorem pos_inj {T T' : Tap} : T.pos = T'.pos ↔ T = T' := by
  constructor
  · intro h
    cases T
    cases T'
    simp only [mk.injEq]
    exact BitVec.eq_of_toNat_eq h
  · rintro rfl
    rfl

/-- The tap at position `p`. -/
def ofPos (p : Nat) (h : 1 ≤ p ∧ p ≤ 10) : Tap where
  input := BitVec.ofNat 4 p
  in_range := by
    rw [BitVec.toNat_ofNat, Nat.mod_eq_of_lt (by omega)]
    exact h

@[simp] theorem pos_ofPos (p : Nat) (h : 1 ≤ p ∧ p ≤ 10) : (ofPos p h).pos = p := by
  show (BitVec.ofNat 4 p).toNat = p
  rw [BitVec.toNat_ofNat, Nat.mod_eq_of_lt (by omega)]

end Tap

@[simp] theorem bitSelect_tap (g : BitVec 10) (T : Tap) :
    bitSelect g T.input = some (sel g T.pos) :=
  if_pos T.in_range

theorem chip_tap (T0 T1 : Tap) (r : Regs) :
    chip T0.input T1.input r = some (sel r.g1 10 ^^ sel r.g2 T0.pos ^^ sel r.g2 T1.pos) := by
  simp [chip]

/-- The chip is `x` exactly when one of the two selections misses the register. -/
theorem chip_eq_none_iff (T0 T1 : BitVec 4) (r : Regs) :
    chip T0 T1 r = none ↔
      ¬ ((1 ≤ T0.toNat ∧ T0.toNat ≤ 10) ∧ (1 ≤ T1.toNat ∧ T1.toNat ≤ 10)) := by
  by_cases h0 : 1 ≤ T0.toNat ∧ T0.toNat ≤ 10 <;> by_cases h1 : 1 ≤ T1.toNat ∧ T1.toNat ≤ 10 <;>
    simp [chip, bitSelect, h0, h1]

/-- The output bit under two valid selections. -/
def chipBit (T0 T1 : Tap) (r : Regs) : Bool :=
  (chip T0.input T1.input r).get (by rw [chip_tap]; rfl)

theorem chipBit_eq (T0 T1 : Tap) (r : Regs) :
    chipBit T0 T1 r = (sel r.g1 10 ^^ sel r.g2 T0.pos ^^ sel r.g2 T1.pos) := by
  simp only [chipBit, chip_tap, Option.get_some]

/-! ## Runs -/

/-- The registers after a sequence of edges. -/
def run (r : Regs) (es : List Edge) : Regs := es.foldl posedge r

@[simp] theorem run_nil (r : Regs) : run r [] = r := rfl
@[simp] theorem run_cons (r : Regs) (e : Edge) (es : List Edge) :
    run r (e :: es) = run (posedge r e) es := rfl

theorem run_append (r : Regs) (es es' : List Edge) : run r (es ++ es') = run (run r es) es' :=
  List.foldl_append

/-- An edge that reloads the registers. -/
def resetEdge : Edge := { rst := true, rd := false }

/-- An edge that advances the code by one chip. -/
def readEdge : Edge := { rst := false, rd := true }

/-! ## Both shift registers have maximal length -/

theorem sel_xor (x y : BitVec 10) (i : Nat) : sel (x ^^^ y) i = (sel x i ^^ sel y i) :=
  BitVec.getLsbD_xor

/-- The incoming bit enters at position one. -/
@[simp] theorem sel_shiftIn_one (g : BitVec 10) (b : Bool) : sel (shiftIn g b) 1 = b := by
  simp only [shiftIn, sel, BitVec.getLsbD_append, BitVec.getLsbD_ofBool]
  simp

/-- Every other bit moves one position up. -/
theorem sel_shiftIn (g : BitVec 10) (b : Bool) {i : Nat} (h1 : 1 ≤ i) (h9 : i ≤ 9) :
    sel (shiftIn g b) (i + 1) = sel g i := by
  have hlow : ¬ i < 1 := by omega
  have hin : i - 1 < 9 := by omega
  simp only [shiftIn, sel, Nat.add_sub_cancel, BitVec.getLsbD_append, if_neg hlow,
    BitVec.getLsbD_extractLsb', hin, decide_true, Bool.true_and, Nat.zero_add]

/-- Two registers are equal when all ten positions agree. -/
theorem eq_of_sel {x y : BitVec 10} (h : ∀ i, 1 ≤ i → i ≤ 10 → sel x i = sel y i) : x = y := by
  apply BitVec.eq_of_getLsbD_eq
  intro i hi
  simpa [sel] using h (i + 1) (by omega) (by omega)

theorem shiftIn_xor (x y : BitVec 10) (a b : Bool) :
    shiftIn (x ^^^ y) (a ^^ b) = shiftIn x a ^^^ shiftIn y b := by
  apply eq_of_sel
  intro i h1 h10
  rcases Nat.lt_or_eq_of_le h1 with h | rfl
  · obtain ⟨j, rfl⟩ := Nat.exists_eq_add_of_lt h
    have hj : 1 ≤ 1 + j ∧ 1 + j ≤ 9 := by omega
    simp only [sel_xor, sel_shiftIn _ _ hj.1 hj.2]
  · simp only [sel_xor, sel_shiftIn_one]

theorem shiftG1_xor (x y : BitVec 10) : shiftG1 (x ^^^ y) = shiftG1 x ^^^ shiftG1 y := by
  simp only [shiftG1, ← shiftIn_xor, sel_xor]
  congr 1
  ac_rfl

theorem shiftG2_xor (x y : BitVec 10) : shiftG2 (x ^^^ y) = shiftG2 x ^^^ shiftG2 y := by
  simp only [shiftG2, ← shiftIn_xor, sel_xor]
  congr 1
  ac_rfl

theorem prime_dvd_1023 {q : Nat} (hq : q.Prime) (h : q ∣ 1023) : q = 3 ∨ q = 11 ∨ q = 31 := by
  have h' : q ∣ 3 * (11 * 31) := h
  rcases hq.dvd_mul.mp h' with h3 | h'
  · exact Or.inl ((Nat.prime_dvd_prime_iff_eq hq (by decide)).mp h3)
  · rcases hq.dvd_mul.mp h' with h11 | h31
    · exact Or.inr (Or.inl ((Nat.prime_dvd_prime_iff_eq hq (by decide)).mp h11))
    · exact Or.inr (Or.inr ((Nat.prime_dvd_prime_iff_eq hq (by decide)).mp h31))

/-- `1 + x^3 + x^10` is primitive: the `g1` register runs through all 1023 non-zero words. -/
def g1Register : MaxLength 10 where
  step := shiftG1
  seed := ones
  step_xor := shiftG1_xor
  seed_ne := by decide
  period := by decide +kernel
  primitive := by
    intro q hq hdvd
    rcases prime_dvd_1023 hq hdvd with rfl | rfl | rfl <;> decide +kernel

/-- `1 + x^2 + x^3 + x^6 + x^8 + x^9 + x^10` is primitive. -/
def g2Register : MaxLength 10 where
  step := shiftG2
  seed := ones
  step_xor := shiftG2_xor
  seed_ne := by decide
  period := by decide +kernel
  primitive := by
    intro q hq hdvd
    rcases prime_dvd_1023 hq hdvd with rfl | rfl | rfl <;> decide +kernel

@[simp] theorem g1Register_step : g1Register.step = shiftG1 := rfl
@[simp] theorem g2Register_step : g2Register.step = shiftG2 := rfl
@[simp] theorem g1Register_len : g1Register.len = 1023 := rfl
@[simp] theorem g2Register_len : g2Register.len = 1023 := rfl

end GpsReceiver.CaCode
