/-
  Which lists of satellites `cacodegen.m` generates correct codes for.

  1. **Specification** — `GeneratesCodes sv`: the call finishes, has one row of 1023 chips for each
     entry of `sv`, and row `r` is what `CACODE` outputs after a reset under the two taps that the
     reference table `tap` of `cacode_original.m` gives for PRN `sv(r)`.
  2. **Sufficient** — `generatesCodes_of_pair`: two PRNs, neither of them 5.  The loop invariant
     `GenInv` says that the registers are related to the hardware after as many reads as
     iterations and that the columns written so far hold its chips.
  3. **Necessary** — the result always has the two preallocated rows (`rows_of_cacodegen`), and the
     table entry of PRN 5 names tap 0, which no vector has (`not_mem_five_of_cacodegen`).
  4. `generatesCodes_iff` puts both directions together.
-/
import GpsReceiver.CaCode.Cacodegen

namespace GpsReceiver.CaCode

open GpsReceiver.Lib GpsReceiver.Lib.Matlab

/-! ## Specification -/

/-- `tap`: the two taps of each PRN as `cacode_original.m` lists them. -/
def tap : List (Int × Int) :=
  [(2, 6), (3, 7), (4, 8), (5, 9), (1, 9), (2, 10), (1, 8), (2, 9), (3, 10), (2, 3), (3, 4), (5, 6),
   (6, 7), (7, 8), (8, 9), (9, 10), (1, 4), (2, 5), (3, 6), (4, 7), (5, 8), (6, 9), (1, 3), (4, 6),
   (5, 7), (6, 8), (7, 9), (8, 10), (1, 6), (2, 7), (3, 8), (4, 9), (5, 10), (4, 10), (1, 7),
   (2, 8), (4, 10)]

/-- Entry `(r, k)` of `M`, counted from zero, is chip `k` of the hardware under the reference taps
    of PRN `prn`. -/
def HoldsChip (M : Mat Nat) (prn : Int) (r k : Nat) : Prop :=
  ∃ T c, elem tap prn = .ok T
    ∧ (∀ r₀ : Regs, chip (BitVec.ofInt 4 T.1) (BitVec.ofInt 4 T.2)
        (run r₀ (resetEdge :: List.replicate k readEdge)) = some c)
    ∧ M.elem ((r : Int) + 1) ((k : Int) + 1) = .ok c.toNat

/-- `cacodegen(sv)` finishes with one correct row of 1023 chips for each entry of `sv`. -/
def GeneratesCodes (sv : List Int) : Prop :=
  ∃ M, cacodegen sv = .ok M ∧ M.rows = sv.length ∧ M.cols = 1023
    ∧ ∀ (r : Nat) (hr : r < sv.length) (k : Nat), k < 1023 → HoldsChip M sv[r] r k

/-! ## The two tables -/

/-- The tables differ in the row of PRN 5 only, and the reference table names taps 1 to 10. -/
theorem tables_agree : ∀ i < 37, i ≠ 4 → phSel[i]? = tap[i]? := by decide

theorem tap_in_range : ∀ T ∈ tap, (1 ≤ T.1 ∧ T.1 ≤ 10) ∧ 1 ≤ T.2 ∧ T.2 ≤ 10 := by decide

theorem phSel_five : elem (phSel.map Prod.snd) 5 = .ok 0 := rfl

/-- The two taps of a PRN other than 5, as both tables give them. -/
theorem taps_of_prn {prn : Int} (h : 1 ≤ prn ∧ prn ≤ 37) (h5 : prn ≠ 5) :
    ∃ p : Tap × Tap, elem tap prn = .ok ((p.1.pos : Int), (p.2.pos : Int))
      ∧ elem (phSel.map Prod.fst) prn = .ok (p.1.pos : Int)
      ∧ elem (phSel.map Prod.snd) prn = .ok (p.2.pos : Int) := by
  obtain ⟨i, rfl⟩ : ∃ i : Nat, prn = (i : Int) + 1 := ⟨(prn - 1).toNat, by omega⟩
  have hi : i < tap.length := by show i < 37; omega
  have hi' : i < phSel.length := by show i < 37; omega
  have hsame : phSel[i] = tap[i] := by
    have h := tables_agree i hi (by omega)
    rwa [List.getElem?_eq_getElem hi, List.getElem?_eq_getElem hi', Option.some.injEq] at h
  rcases tap_in_range _ (List.getElem_mem hi) with ⟨⟨h1, h1'⟩, h2, h2'⟩
  refine ⟨(Tap.ofPos tap[i].1.toNat (by omega), Tap.ofPos tap[i].2.toNat (by omega)), ?_, ?_, ?_⟩
  · rw [elem_ok tap hi, Tap.pos_ofPos, Tap.pos_ofPos, Int.toNat_of_nonneg (by omega),
      Int.toNat_of_nonneg (by omega)]
    rfl
  · rw [elem_ok _ (by simpa using hi'), List.getElem_map, hsame, Tap.pos_ofPos,
      Int.toNat_of_nonneg (by omega)]
  · rw [elem_ok _ (by simpa using hi'), List.getElem_map, hsame, Tap.pos_ofPos,
      Int.toNat_of_nonneg (by omega)]

/-- The table look-ups of the loop body for a list of PRNs other than 5. -/
theorem taps_of_prns : ∀ {sv : List Int}, (∀ prn ∈ sv, 1 ≤ prn ∧ prn ≤ 37) → 5 ∉ sv →
    ∃ ps : List (Tap × Tap), ps.length = sv.length
      ∧ elems (phSel.map Prod.fst) sv = .ok (ps.map fun p => (p.1.pos : Int))
      ∧ elems (phSel.map Prod.snd) sv = .ok (ps.map fun p => (p.2.pos : Int))
      ∧ ∀ (r : Nat) (hr : r < sv.length) (hr' : r < ps.length),
          elem tap sv[r] = .ok ((ps[r].1.pos : Int), (ps[r].2.pos : Int)) := by
  intro sv
  induction sv with
  | nil => intro _ _; exact ⟨[], rfl, rfl, rfl, fun r hr => absurd hr (Nat.not_lt_zero r)⟩
  | cons prn sv ih =>
    intro hrange h5
    obtain ⟨ps, hlen, h0, h1, htap⟩ := ih (fun i hi => hrange i (List.mem_cons_of_mem prn hi))
      (fun h => h5 (List.mem_cons_of_mem prn h))
    obtain ⟨p, hp, hp0, hp1⟩ := taps_of_prn (hrange prn List.mem_cons_self)
      (fun h => h5 (h ▸ List.mem_cons_self))
    refine ⟨p :: ps, by simp only [List.length_cons, hlen], ?_, ?_, ?_⟩
    · rw [elems_cons, hp0, h0]
      rfl
    · rw [elems_cons, hp1, h1]
      rfl
    · intro r hr hr'
      cases r with
      | zero => exact hp
      | succ r => exact htap r (Nat.lt_of_succ_lt_succ hr) (Nat.lt_of_succ_lt_succ hr')

/-! ## Two satellites, neither of them PRN 5 -/

/-- The state of the loop after `k` iterations under the tap pairs `ps`: the registers are the
    hardware's after `k` reads, and the first `k` columns hold its chips. -/
structure GenInv (ps : List (Tap × Tap)) (k : Nat) (st : GenState) : Prop where
  g1 : st.g1 = toRow (codeState k).g1
  g2 : st.g2 = toRow (codeState k).g2
  rows : st.ca.rows = ps.length
  cols : st.ca.cols = 1023
  done : ∀ j, j < k → ∀ (r : Nat) (hr : r < ps.length),
    st.ca.elem ((r : Int) + 1) ((j : Int) + 1)
      = .ok (chipBit ps[r].1 ps[r].2 (codeState j)).toNat

/-- **Iteration.**  One pass of the loop body writes the next column and clocks the registers. -/
theorem loopBody_inv {sv : List Int} {ps : List (Tap × Tap)}
    (h0 : elems (phSel.map Prod.fst) sv = .ok (ps.map fun p => (p.1.pos : Int)))
    (h1 : elems (phSel.map Prod.snd) sv = .ok (ps.map fun p => (p.2.pos : Int)))
    {k : Nat} (hk : k < 1023) {st : GenState} (hinv : GenInv ps k st) :
    ∃ st', loopBody sv st ((k : Int) + 1) = .ok st' ∧ GenInv ps (k + 1) st' := by
  let out := ps.map fun p => (chipBit p.1 p.2 (codeState k)).toNat
  have hout : out.length = st.ca.rows := by rw [hinv.rows]; simp [out]
  rcases st.ca.setCol_ok (by rw [hinv.cols]; exact hk) hout with ⟨ca, hset, hrows, hcols, hread⟩
  have hnext : posedge (codeState k) readEdge = codeState (k + 1) := posedge_codeState k readEdge
  refine ⟨{ g1 := toRow (codeState (k + 1)).g1, g2 := toRow (codeState (k + 1)).g2, ca := ca },
    ?_, ⟨rfl, rfl, hrows.trans hinv.rows, hcols.trans hinv.cols, ?_⟩⟩
  · rw [loopBody, h0, ok_bind, h1, ok_bind, hinv.g1, hinv.g2, chips_toRow, ok_bind, hset, ok_bind,
      feedback_toRow_g1, ok_bind, feedback_toRow_g2, ok_bind,
      show shiftG1 (codeState k).g1 = (codeState (k + 1)).g1 from congrArg Regs.g1 hnext,
      show shiftG2 (codeState k).g2 = (codeState (k + 1)).g2 from congrArg Regs.g2 hnext]
    rfl
  · intro j hj r hr
    rw [hread r j (by rw [hinv.rows]; exact hr) (by rw [hinv.cols]; omega)]
    by_cases hjk : j = k
    · subst hjk
      rw [if_pos rfl, elem_ok out (by simpa [out] using hr)]
      simp [out]
    · rw [if_neg hjk]
      exact hinv.done j (by omega) r hr

theorem genInv_start {ps : List (Tap × Tap)} (hlen : ps.length = 2) :
    GenInv ps 0 { g1 := onesRow, g2 := onesRow, ca := Mat.zeros 2 numChips } where
  g1 := toRow_ones.symm
  g2 := toRow_ones.symm
  rows := hlen.symm
  cols := rfl
  done := fun j hj => absurd hj (Nat.not_lt_zero j)

/-- **Sufficient.**  Two PRNs other than 5 get their codes. -/
theorem generatesCodes_of_pair {sv : List Int} (hrange : ∀ prn ∈ sv, 1 ≤ prn ∧ prn ≤ 37)
    (hlen : sv.length = 2) (h5 : 5 ∉ sv) : GeneratesCodes sv := by
  rcases taps_of_prns hrange h5 with ⟨ps, hps, h0, h1, htap⟩
  obtain ⟨st, hloop, hend⟩ := forLoop_colon (loopBody sv) (GenInv ps) (b := numChips) (n := 1023)
    rfl (genInv_start (hps.trans hlen)) fun k hk st hinv => loopBody_inv h0 h1 hk hinv
  refine ⟨st.ca, ?_, hend.rows.trans hps, hend.cols, ?_⟩
  · rw [cacodegen, hloop]
    rfl
  · intro r hr k hk
    have hr' : r < ps.length := hps ▸ hr
    refine ⟨_, chipBit ps[r].1 ps[r].2 (codeState k), htap r hr hr', fun r₀ => ?_,
      hend.done k hk r hr'⟩
    have hinput : ∀ T : Tap, BitVec.ofInt 4 (T.pos : Int) = T.input := by
      intro T
      rw [BitVec.ofInt_natCast]
      exact BitVec.ofNat_toNat _ _
    rw [hinput, hinput, chip_tap, chipBit_eq, run_reset_reads]

/-! ## What a correct result needs -/

/-- The result has the two rows that were preallocated. -/
theorem rows_of_cacodegen {sv : List Int} {M : Mat Nat} (h : cacodegen sv = .ok M) :
    M.rows = 2 := by
  rcases bind_ok_iff.mp h with ⟨st, hloop, hst⟩
  cases hst
  refine forLoop_ok_inv (fun st => st.ca.rows = 2) ?_ rfl hloop
  intro st cnt st' hrows hbody
  -- of the six steps of the body only the column assignment touches the matrix
  rcases bind_ok_iff.mp hbody with ⟨_, _, hbody⟩
  rcases bind_ok_iff.mp hbody with ⟨_, _, hbody⟩
  rcases bind_ok_iff.mp hbody with ⟨_, _, hbody⟩
  rcases bind_ok_iff.mp hbody with ⟨ca, hset, hbody⟩
  rcases bind_ok_iff.mp hbody with ⟨_, _, hbody⟩
  rcases bind_ok_iff.mp hbody with ⟨_, _, hbody⟩
  cases hbody
  exact (Mat.of_setCol_ok hset).1.trans hrows

/-- A call for PRN 5 stops at the look-up of tap 0 in the first iteration. -/
theorem not_mem_five_of_cacodegen {sv : List Int} {M : Mat Nat} (h : cacodegen sv = .ok M) :
    5 ∉ sv := by
  intro h5
  rcases bind_ok_iff.mp h with ⟨st, hloop, _⟩
  rw [colon_cons (show (1 : Int) ≤ (numChips : Int) by decide)] at hloop
  rcases forLoop_ok_head hloop with ⟨st₁, hbody⟩
  rcases bind_ok_iff.mp hbody with ⟨taps0, _, hbody⟩
  rcases bind_ok_iff.mp hbody with ⟨taps1, htaps1, hbody⟩
  rcases bind_ok_iff.mp hbody with ⟨out, hchips, _⟩
  rcases bind_ok_iff.mp hchips with ⟨_, _, hchips⟩
  rcases bind_ok_iff.mp hchips with ⟨_, _, hchips⟩
  rcases bind_ok_iff.mp hchips with ⟨b, hb, _⟩
  rcases mem_of_elems_ok htaps1 h5 with ⟨x, hx, hx5⟩
  -- the second tap of PRN 5 is 0, and no vector has an element 0
  rw [phSel_five] at hx5
  cases hx5
  have hzero := (of_elems_ok hb).2 0 hx
  omega

theorem pair_of_generatesCodes {sv : List Int} (h : GeneratesCodes sv) :
    sv.length = 2 ∧ 5 ∉ sv := by
  rcases h with ⟨M, hM, hrows, _, _⟩
  exact ⟨hrows.symm.trans (rows_of_cacodegen hM), not_mem_five_of_cacodegen hM⟩

/-- **When the generated codes are right.**  For every list of PRNs in `1 .. 37`, the call returns
    the reference codes, one row each, exactly when the list has two entries and neither is 5. -/
theorem generatesCodes_iff (sv : List Int) (hrange : ∀ prn ∈ sv, 1 ≤ prn ∧ prn ≤ 37) :
    GeneratesCodes sv ↔ sv.length = 2 ∧ 5 ∉ sv :=
  ⟨pair_of_generatesCodes, fun h => generatesCodes_of_pair hrange h.1 h.2⟩

/-- The pair the homework runs. -/
theorem generatesCodes_iff_hw1 : GeneratesCodes [22, 27] :=
  (generatesCodes_iff [22, 27] (by decide)).mpr ⟨rfl, by decide⟩

/-- PRN 5 next to another one, a single PRN, and three PRNs. -/
theorem cacodegen_misses_codes :
    ¬ GeneratesCodes [5, 22] ∧ ¬ GeneratesCodes [22] ∧ ¬ GeneratesCodes [1, 2, 3] := by
  refine ⟨fun h => ?_, fun h => ?_, fun h => ?_⟩
  · exact absurd (pair_of_generatesCodes h).2 (by decide)
  · exact absurd (pair_of_generatesCodes h).1 (by decide)
  · exact absurd (pair_of_generatesCodes h).1 (by decide)

end GpsReceiver.CaCode
