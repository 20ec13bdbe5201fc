/-
  `cacodegen.m` — the C/A code generator of the MATLAB receiver — and its simulation of `CACODE`.

  1. **Data** — `g1`, `g2` are row vectors of ten numbers, `sv` a row vector of PRN numbers,
     `ph_sel` the table of tap pairs, `ca` the two-row result.
  2. **Program** — `chips` is the part of the loop body that reads the output, `feedback` the
     statement that pushes a weighted sum modulo two in front of a register, `loopBody` one
     iteration with its table look-ups and the column assignment, `cacodegen` the function.
  3. **Simulation relation** — `toRow g`: the MATLAB vector whose element `i` is the bit at Verilog
     position `i`.  `feedback_toRow_g1`, `feedback_toRow_g2` and `chips_toRow` are the parts of one
     iteration.
  4. **Specification** — `genRun_simulates`: over any sequence of clock edges, resets and pauses
     included, the chips of the hardware are the chips of the loop body iterated as often as the
     hardware was read, and the registers stay related.
-/
import GpsReceiver.CaCode.Reachable
import GpsReceiver.Lib.Mat

namespace GpsReceiver.CaCode

open GpsReceiver.Lib GpsReceiver.Lib.Matlab

/-! ## The program -/

/-- `ph_sel`: the two taps of each PRN as `cacodegen.m` lists them. -/
def phSel : List (Int × Int) :=
  [(2, 6), (3, 7), (4, 8), (5, 9), (1, 0), (2, 10), (1, 8), (2, 9), (3, 10), (2, 3), (3, 4), (5, 6),
   (6, 7), (7, 8), (8, 9), (9, 10), (1, 4), (2, 5), (3, 6), (4, 7), (5, 8), (6, 9), (1, 3), (4, 6),
   (5, 7), (6, 8), (7, 9), (8, 10), (1, 6), (2, 7), (3, 8), (4, 9), (5, 10), (4, 10), (1, 7),
   (2, 8), (4, 10)]

/-- The weights `s` of `1 + x^3 + x^10`. -/
def sWeights : List Nat := [0, 0, 1, 0, 0, 0, 0, 0, 0, 1]

/-- The weights `t` of `1 + x^2 + x^3 + x^6 + x^8 + x^9 + x^10`. -/
def tWeights : List Nat := [0, 1, 1, 0, 0, 1, 0, 1, 1, 1]

/-- `ones(1, n)` with `n = length(s)`. -/
def onesRow : List Nat := List.replicate sWeights.length 1

/-- MATLAB's `xor` of two numbers. -/
def xorNum (a b : Nat) : Nat := ((a != 0) ^^ (b != 0)).toNat

/-- `xor(g1(n), xor(g2(taps0), g2(taps1)))`. -/
def chips (taps0 taps1 : List Int) (g1 g2 : List Nat) : Except Error (List Nat) := do
  let g1out ← elem g1 sWeights.length
  let a ← elems g2 taps0
  let b ← elems g2 taps1
  let g2out ← elementwise xorNum a b
  elementwise xorNum [g1out] g2out

/-- `[mod(sum(g.*w), 2) g(1:9)]`. -/
def feedback (w g : List Nat) : Except Error (List Nat) := do
  let products ← elementwise (· * ·) g w
  let tail ← slice g 1 9
  return products.sum % 2 :: tail

/-- The variables the loop carries. -/
structure GenState where
  g1 : List Nat
  g2 : List Nat
  ca : Mat Nat

/-- One iteration of `for cnt = 1:chips`. -/
def loopBody (sv : List Int) (st : GenState) (cnt : Int) : Except Error GenState := do
  let taps0 ← elems (phSel.map Prod.fst) sv
  let taps1 ← elems (phSel.map Prod.snd) sv
  let out ← chips taps0 taps1 st.g1 st.g2
  let ca ← st.ca.setCol cnt out
  let g1 ← feedback sWeights st.g1
  let g2 ← feedback tWeights st.g2
  return { g1 := g1, g2 := g2, ca := ca }

/-- `chips = 2^n - 1`. -/
def numChips : Nat := 2 ^ sWeights.length - 1

/-- `ca = cacodegen(sv)`. -/
def cacodegen (sv : List Int) : Except Error (Mat Nat) := do
  let st ← forLoop (colon 1 numChips)
    { g1 := onesRow, g2 := onesRow, ca := Mat.zeros 2 numChips } (loopBody sv)
  return st.ca

/-! ## The simulation relation -/

/-- The row vector that holds the bit at Verilog position `i` as its element `i`. -/
def toRow (g : BitVec 10) : List Nat := (List.range 10).map (fun i => (sel g (i + 1)).toNat)

@[simp] theorem length_toRow (g : BitVec 10) : (toRow g).length = 10 := by simp [toRow]

theorem getElem_toRow (g : BitVec 10) {i : Nat} (h : i < (toRow g).length) :
    (toRow g)[i] = (sel g (i + 1)).toNat := by simp [toRow]

theorem toRow_ones : toRow ones = onesRow := by decide

/-- Reading a tap of the vector reads the bit of the register. -/
theorem elem_toRow (g : BitVec 10) (T : Tap) : elem (toRow g) T.pos = .ok (sel g T.pos).toNat := by
  obtain ⟨h1, h10⟩ := T.pos_bounds
  obtain ⟨i, hi⟩ : ∃ i, T.pos = i + 1 := ⟨T.pos - 1, by omega⟩
  rw [hi]
  push_cast
  rw [elem_ok (toRow g) (by rw [length_toRow]; omega), getElem_toRow]

theorem toRow_shiftIn (g : BitVec 10) (b : Bool) :
    toRow (shiftIn g b) = b.toNat :: (toRow g).take 9 := by
  apply List.ext_getElem
  · simp
  · intro i hi hi'
    rw [length_toRow] at hi
    rw [getElem_toRow]
    cases i with
    | zero => simp
    | succ j =>
      rw [sel_shiftIn g b (by omega) (by omega), List.getElem_cons_succ, List.getElem_take,
        getElem_toRow]

theorem xorNum_toNat (a b : Bool) : xorNum a.toNat b.toNat = (a ^^ b).toNat := by
  cases a <;> cases b <;> rfl

theorem add_toNat_mod (a b : Bool) : (a.toNat + b.toNat) % 2 = (a ^^ b).toNat := by
  cases a <;> cases b <;> rfl

/-- The statement that shifts a register, on vectors of length ten. -/
theorem feedback_eq {w g : List Nat} (hg : g.length = 10) (hw : w.length = 10) :
    feedback w g = .ok ((List.zipWith (· * ·) g w).sum % 2 :: g.take 9) := by
  have hslice := slice_ok g 9 0 (by omega)
  rw [List.drop_zero] at hslice
  rw [feedback, elementwise_ok _ (by rw [hg, hw]), ok_bind,
    show slice g 1 9 = .ok (g.take 9) from hslice]
  rfl

theorem toRow_eq (g : BitVec 10) : toRow g =
    [(sel g 1).toNat, (sel g 2).toNat, (sel g 3).toNat, (sel g 4).toNat, (sel g 5).toNat,
     (sel g 6).toNat, (sel g 7).toNat, (sel g 8).toNat, (sel g 9).toNat, (sel g 10).toNat] := rfl

/-- The weighted sum modulo two of `g1` is the exclusive or of its two feedback taps. -/
theorem feedback_toRow_g1 (g : BitVec 10) :
    feedback sWeights (toRow g) = .ok (toRow (shiftG1 g)) := by
  rw [feedback_eq (length_toRow g) rfl, shiftG1, toRow_shiftIn]
  have hsum : (List.zipWith (· * ·) (toRow g) sWeights).sum
      = (sel g 3).toNat + (sel g 10).toNat := by
    rw [toRow_eq]
    simp [sWeights]
  rw [hsum, add_toNat_mod]

theorem feedback_toRow_g2 (g : BitVec 10) :
    feedback tWeights (toRow g) = .ok (toRow (shiftG2 g)) := by
  rw [feedback_eq (length_toRow g) rfl, shiftG2, toRow_shiftIn]
  have hsum : (List.zipWith (· * ·) (toRow g) tWeights).sum = (sel g 2).toNat + (sel g 3).toNat
      + (sel g 6).toNat + (sel g 8).toNat + (sel g 9).toNat + (sel g 10).toNat := by
    rw [toRow_eq]
    simp [tWeights, Nat.add_assoc]
  have hmod : ∀ (n : Nat) (a b : Bool), n % 2 = a.toNat →
      (n + b.toNat) % 2 = (a ^^ b).toNat := by
    intro n a b h
    rw [← add_toNat_mod, ← h, Nat.mod_add_mod]
  rw [hsum, hmod _ _ _ (hmod _ _ _ (hmod _ _ _ (hmod _ _ _ (add_toNat_mod _ _))))]

/-- The chips of a list of tap pairs: each is the output of the hardware under those taps. -/
theorem chips_toRow (taps : List (Tap × Tap)) (r : Regs) :
    chips (taps.map fun p => (p.1.pos : Int)) (taps.map fun p => (p.2.pos : Int))
        (toRow r.g1) (toRow r.g2)
      = .ok (taps.map fun p => (chipBit p.1 p.2 r).toNat) := by
  have hout : elem (toRow r.g1) sWeights.length = .ok (sel r.g1 10).toNat :=
    elem_toRow r.g1 (Tap.ofPos 10 (by decide))
  have htaps : ∀ f : Tap × Tap → Tap, elems (toRow r.g2) (taps.map fun p => ((f p).pos : Int))
      = .ok (taps.map fun p => (sel r.g2 (f p).pos).toNat) := by
    intro f
    induction taps with
    | nil => rfl
    | cons p ps ih =>
      rw [List.map_cons, elems_cons, elem_toRow, ih]
      rfl
  rw [chips, hout, ok_bind, htaps Prod.fst, ok_bind, htaps Prod.snd, ok_bind,
    elementwise_ok _ (by simp), ok_bind, elementwise_scalar]
  congr 1
  rw [List.zipWith_map, List.map_zipWith, List.zipWith_self]
  refine List.map_congr_left fun p _ => ?_
  rw [xorNum_toNat, xorNum_toNat, chipBit_eq, Bool.xor_assoc]

/-! ## The two generators in lock step -/

/-- The loop body without the table and the result: one chip vector and the shifted registers. -/
def genStep (taps0 taps1 : List Int) (g : List Nat × List Nat) :
    Except Error (List Nat × List Nat × List Nat) := do
  let out ← chips taps0 taps1 g.1 g.2
  let g1 ← feedback sWeights g.1
  let g2 ← feedback tWeights g.2
  return (out, g1, g2)

/-- The body iterated `n` times: the chip vectors in order, and the final registers. -/
def genRun (taps0 taps1 : List Int) : Nat → List Nat × List Nat →
    Except Error (List (List Nat) × List Nat × List Nat)
  | 0, g => .ok ([], g)
  | n + 1, g => do
    let (out, g') ← genStep taps0 taps1 g
    let (outs, g'') ← genRun taps0 taps1 n g'
    return (out :: outs, g'')

theorem genStep_toRow (taps : List (Tap × Tap)) (r : Regs) :
    genStep (taps.map fun p => (p.1.pos : Int)) (taps.map fun p => (p.2.pos : Int))
        (toRow r.g1, toRow r.g2)
      = .ok (taps.map fun p => (chipBit p.1 p.2 r).toNat,
          toRow (shiftG1 r.g1), toRow (shiftG2 r.g2)) := by
  rw [genStep, chips_toRow, ok_bind, feedback_toRow_g1, ok_bind, feedback_toRow_g2]
  rfl

/-- From the state after `k` reads, `n` iterations give the chips of the next `n` reads. -/
theorem genRun_codeState (p q : Tap) (n : Nat) : ∀ k : Nat,
    genRun [(p.pos : Int)] [(q.pos : Int)] n (toRow (codeState k).g1, toRow (codeState k).g2)
      = .ok ((List.range n).map (fun i => [(chipBit p q (codeState (i + k))).toNat]),
          toRow (codeState (n + k)).g1, toRow (codeState (n + k)).g2) := by
  induction n with
  | zero =>
    intro k
    rw [Nat.zero_add]
    rfl
  | succ n ih =>
    intro k
    -- the first iteration is a read of the hardware, the others start one read later
    have hstep := genStep_toRow [(p, q)] (codeState k)
    have hnext : posedge (codeState k) readEdge = codeState (k + 1) := posedge_codeState k readEdge
    have hg1 : shiftG1 (codeState k).g1 = (codeState (k + 1)).g1 := congrArg Regs.g1 hnext
    have hg2 : shiftG2 (codeState k).g2 = (codeState (k + 1)).g2 := congrArg Regs.g2 hnext
    rw [hg1, hg2] at hstep
    rw [genRun, show genStep [(p.pos : Int)] [(q.pos : Int)]
        (toRow (codeState k).g1, toRow (codeState k).g2) = _ from hstep, ok_bind]
    simp only [ih (k + 1), ok_bind, List.range_succ_eq_map, List.map_cons, List.map_map,
      List.map_nil, Nat.zero_add]
    rw [show n + (k + 1) = n + 1 + k by omega]
    show Except.ok (_ :: _, _) = _
    congr 3
    refine List.map_congr_left fun i _ => ?_
    show [(chipBit p q (codeState (i + (k + 1)))).toNat]
      = [(chipBit p q (codeState (i + 1 + k))).toNat]
    rw [show i + (k + 1) = i + 1 + k by omega]

/-- One edge for an observer of the output: reads append the chip present before them, a reset
    starts the list afresh. -/
def observe (T0 T1 : BitVec 4) (acc : Regs × List (Option Bool)) (e : Edge) :
    Regs × List (Option Bool) :=
  (posedge acc.1 e, if e.rst then [] else if e.rd then acc.2 ++ [chip T0 T1 acc.1] else acc.2)

/-- The values of `chip` just before each edge with `rd = 1`, `rst = 0` since the last reset. -/
def chipsSinceReset (T0 T1 : BitVec 4) (r₀ : Regs) (es : List Edge) : List (Option Bool) :=
  (es.foldl (observe T0 T1) (r₀, [])).2

/-- The registers and the observed chips `k` reads after a reset. -/
def observedState (p q : Tap) (k : Nat) : Regs × List (Option Bool) :=
  (codeState k, (List.range k).map (fun i => some (chipBit p q (codeState i))))

theorem observe_observedState (p q : Tap) (k : Nat) (e : Edge) :
    observe p.input q.input (observedState p q k) e = observedState p q (countEdge k e) := by
  have hchip : chip p.input q.input (codeState k) = some (chipBit p q (codeState k)) := by
    rw [chip_tap, chipBit_eq]
  show (posedge (codeState k) e, _) = _
  rw [posedge_codeState]
  cases hrst : e.rst with
  | true =>
    rw [countEdge_reset hrst]
    rfl
  | false =>
    cases hrd : e.rd with
    | true =>
      rw [countEdge_eq_add hrst, hrd]
      simp only [observedState, hchip, Bool.false_eq_true, if_false, if_true, Bool.toNat_true,
        List.range_succ, List.map_append, List.map_cons, List.map_nil]
    | false =>
      rw [countEdge_eq_add hrst, hrd]
      simp only [observedState, Bool.false_eq_true, if_false, Bool.toNat_false, Nat.add_zero]

theorem foldl_observe (p q : Tap) (es : List Edge) (k : Nat) :
    es.foldl (observe p.input q.input) (observedState p q k)
      = observedState p q (es.foldl countEdge k) := by
  induction es generalizing k with
  | nil => rfl
  | cons e es ih => rw [List.foldl_cons, List.foldl_cons, observe_observedState, ih]

/-- **Simulation.**  For every pair of taps and every sequence of clock edges that starts with a
    reset, the chips of `CACODE` read since the last reset are, one by one, the chips of the loop
    body of `cacodegen` iterated from the all-ones vectors, and after as many iterations as reads
    the row vectors hold the registers. -/
theorem genRun_simulates (p q : Tap) (r₀ : Regs) (e₀ : Edge) (es : List Edge)
    (hreset : e₀.rst = true) :
    ∃ cs : List Bool,
      chipsSinceReset p.input q.input r₀ (e₀ :: es) = cs.map some
      ∧ cs.length = readsSinceReset (e₀ :: es)
      ∧ genRun [(p.pos : Int)] [(q.pos : Int)] (readsSinceReset (e₀ :: es)) (onesRow, onesRow)
          = .ok (cs.map (fun c => [c.toNat]),
              toRow (run r₀ (e₀ :: es)).g1, toRow (run r₀ (e₀ :: es)).g2) := by
  have hcount : readsSinceReset (e₀ :: es) = es.foldl countEdge 0 := by
    rw [readsSinceReset, List.foldl_cons, countEdge_reset hreset]
  have hrun : run r₀ (e₀ :: es) = codeState (readsSinceReset (e₀ :: es)) :=
    run_of_reset ⟨e₀, List.mem_cons_self, hreset⟩ r₀
  refine ⟨(List.range (readsSinceReset (e₀ :: es))).map (fun i => chipBit p q (codeState i)),
    ?_, ?_, ?_⟩
  · have hstart : observe p.input q.input (r₀, []) e₀ = observedState p q 0 := by
      rw [observe, posedge_reset hreset, if_pos hreset]
      rfl
    rw [chipsSinceReset, List.foldl_cons, hstart, foldl_observe, List.map_map, hcount]
    rfl
  · simp
  · have hgen := genRun_codeState p q (readsSinceReset (e₀ :: es)) 0
    rw [hrun, List.map_map]
    rw [← toRow_ones]
    exact hgen

/-- Taps of PRN 22 over a reset, a read, a pause and another read. -/
theorem genRun_simulates_prn22 :
    ∃ cs : List Bool,
      chipsSinceReset 6#4 9#4 ⟨0#10, 0#10⟩ [resetEdge, readEdge, ⟨false, false⟩, readEdge]
        = cs.map some
      ∧ cs.length = 2
      ∧ genRun [6] [9] 2 (onesRow, onesRow)
          = .ok (cs.map (fun c => [c.toNat]),
              toRow (run ⟨0#10, 0#10⟩ [resetEdge, readEdge, ⟨false, false⟩, readEdge]).g1,
              toRow (run ⟨0#10, 0#10⟩ [resetEdge, readEdge, ⟨false, false⟩, readEdge]).g2) :=
  genRun_simulates (Tap.ofPos 6 (by decide)) (Tap.ofPos 9 (by decide)) ⟨0#10, 0#10⟩ resetEdge
    [readEdge, ⟨false, false⟩, readEdge] rfl

end GpsReceiver.CaCode
