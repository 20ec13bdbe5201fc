/-
  `hw1.m` from end to end: the correlations of two C/A codes.

  1. **Program** — `hw1 sv` runs `cacodegen`, `BPSK` and `corr` in the order of the script, and reads
     the extreme values it reports off the results.  The script fixes `sv = [22 27]`.
  2. **Signals** — `codeSigns p`: the chips of a tap pair as plus and minus ones.  Two rows of the
     signal are two of these (`signals_ok`).
  3. **Correlation** — `cross_values`: off the pair of zero words the sign sum of the two registers
     is `-65`, `-1` or `63`.  `correlationAt_codes` reduces the correlation of two signals to it.
  4. **Results** — `hw1_correlations` is the headline.
-/
import GpsReceiver.Acquisition.Bpsk
import GpsReceiver.CaCode.CacodeOriginal
import GpsReceiver.CaCode.Gold
import GpsReceiver.Correlator.DirectLaws

namespace GpsReceiver.Acquisition

open GpsReceiver.CaCode GpsReceiver.Correlator GpsReceiver.Lib GpsReceiver.Lib.Matlab
open Finset (range)

/-! ## The program -/

/-- The value of `max` or `min` of a vector; of an empty one it is empty, which no scalar use
    accepts. -/
def scalar (m : Option ℚ) : Except Error ℚ :=
  match m with
  | some x => .ok x
  | none => .error .dimMismatch

/-- What the script leaves in the workspace.  `prn2227_p2` is assigned twice; the first value is
    lost. -/
structure Hw1 where
  prn22_corr : List ℚ
  prn22_p1 : ℚ
  prn22_p2 : ℚ
  prn22_p3 : ℚ
  prn27_corr : List ℚ
  prn27_p1 : ℚ
  prn27_p2 : ℚ
  prn2227_corr : List ℚ
  prn2227_p1 : ℚ
  prn2227_p2 : ℚ

/-- `max(v(a:b))`. -/
def maxOver (v : List ℚ) (a b : Int) : Except Error ℚ := do
  let part ← slice v a b
  scalar part.max?

/-- `min(v(a:b))`. -/
def minOver (v : List ℚ) (a b : Int) : Except Error ℚ := do
  let part ← slice v a b
  scalar part.min?

/-- A row of the signal as the correlator gets it. -/
def signalRow (bpsk : Mat Int) (i : Int) : Except Error (List ℚ) := do
  let row ← bpsk.row i
  return row.map Int.cast

/-- The script. -/
def hw1 (sv : List Int) : Except Error Hw1 := do
  let ca ← cacodegen sv
  let bpsk ← bpsk ca
  let first ← signalRow bpsk 1
  let second ← signalRow bpsk 2
  let prn22_corr ← corr first none
  let prn22_p1 ← maxOver prn22_corr 1 5
  let prn22_p2 ← minOver prn22_corr 5 10
  let prn22_p3 ← maxOver prn22_corr 9 11
  let prn27_corr ← corr second none
  let prn27_p1 ← minOver prn27_corr 6 8
  let prn27_p2 ← maxOver prn27_corr 8 12
  let prn2227_corr ← corr first (some second)
  let prn2227_p1 ← maxOver prn2227_corr 1 10
  let _ ← maxOver prn2227_corr 10 19
  let prn2227_p2 ← scalar prn2227_corr.min?
  return { prn22_corr, prn22_p1, prn22_p2, prn22_p3, prn27_corr, prn27_p1, prn27_p2,
           prn2227_corr, prn2227_p1, prn2227_p2 }

/-! ## The signals -/

/-- The chips of a tap pair as plus and minus ones. -/
def codeSigns (p : Tap × Tap) : List ℚ :=
  (List.range 1023).map fun k => ((sgn (chipBit p.1 p.2 (codeState k)) : Int) : ℚ)

@[simp] theorem length_codeSigns (p : Tap × Tap) : (codeSigns p).length = 1023 := by
  simp [codeSigns]

/-- The chips of a tap pair repeat with the period of the registers. -/
theorem chipBit_mod (p : Tap × Tap) (k : Nat) :
    chipBit p.1 p.2 (codeState (k % 1023)) = chipBit p.1 p.2 (codeState k) := by
  have h1 := g1Register.state_mod k
  have h2 := g2Register.state_mod k
  rw [g1Register_len] at h1
  rw [g2Register_len] at h2
  rw [chipBit_eq, chipBit_eq, codeState_g1, codeState_g1, codeState_g2, codeState_g2, h1, h2]

theorem getD_codeSigns (p : Tap × Tap) {k : Nat} (hk : k < 1023) :
    (codeSigns p).getD k 0 = ((sgn (chipBit p.1 p.2 (codeState k)) : Int) : ℚ) := by
  rw [List.getD_eq_getElem _ _ (by rwa [length_codeSigns])]
  simp [codeSigns]

/-! ## The correlation of two signals -/

/-- The sign sum of the two registers takes four values, the largest from the two zero words
    only. -/
theorem cross_values (x y : BitVec 10) :
    (x = 0#10 ∧ y = 0#10 ∧ MaxLength.cross g1Register g2Register 9 x y = 1023)
    ∨ (¬ (x = 0#10 ∧ y = 0#10)
      ∧ MaxLength.cross g1Register g2Register 9 x y ∈ ([-65, -1, 63] : List Int)) := by
  by_cases hx : x = 0#10 <;> by_cases hy : y = 0#10
  · subst hx hy
    exact Or.inl ⟨rfl, rfl, MaxLength.cross_zero_zero _ _⟩
  · subst hx
    refine Or.inr ⟨fun h => hy h.2, ?_⟩
    rw [MaxLength.cross_zero_left _ _ (by decide) hy]
    decide
  · subst hy
    refine Or.inr ⟨fun h => hx h.1, ?_⟩
    rw [MaxLength.cross_zero_right _ _ (by decide) hx]
    decide
  · -- both registers run, at some phase of the preferred pair
    obtain ⟨p, hp, hcross⟩ := MaxLength.cross_phase g1Register g2Register (i := 9) hx hy
    rw [hcross]
    exact Or.inr ⟨fun h => hx h.1, preferred_pair hp⟩

/-- The lag counted forwards. -/
def forward (L : Int) : Nat := (L % 1023).toNat

/-- **The correlation of two signals is the sign sum of the registers.** -/
theorem correlationAt_codes (p q : Tap × Tap) (L : Int) :
    correlationAt (codeSigns p) (codeSigns q) L
      = ((MaxLength.cross g1Register g2Register 9 (lagWord (forward L))
          (selectionWord p.1 p.2 q.1 q.2 (forward L)) : Int) : ℚ) / 1023 := by
  have hl : ((forward L : Nat) : Int) = L % 1023 ∧ forward L < 1023 := by
    unfold forward
    omega
  -- the chips as functions of any index
  let f : Nat → Int := fun k => sgn (chipBit p.1 p.2 (codeState k))
  let g : Nat → Int := fun k => sgn (chipBit q.1 q.2 (codeState k))
  have hperiod : ∀ (r : Tap × Tap) (k : Nat),
      chipBit r.1 r.2 (codeState (k + 1023)) = chipBit r.1 r.2 (codeState k) := by
    intro r k
    rw [← chipBit_mod r (k + 1023), Nat.add_mod_right, chipBit_mod]
  have hterm : ∀ k ∈ range 1023, (codeSigns p).getD k 0
      * (codeSigns q).getD (((k : Int) - L) % 1023).toNat 0
        = ((f k * g (k + (1023 - forward L)) : Int) : ℚ) := by
    intro k hk
    have hidx : (((k : Int) - L) % 1023).toNat = (k + (1023 - forward L)) % 1023 := by omega
    rw [getD_codeSigns p (Finset.mem_range.mp hk), hidx,
      getD_codeSigns q (Nat.mod_lt _ (by decide)), chipBit_mod, Int.cast_mul]
  have hshift : ∑ k ∈ range 1023, f k * g (k + (1023 - forward L))
      = ∑ k ∈ range 1023, f (k + forward L) * g k := by
    have h := sum_range_shift (n := 1023) (g := fun k => f k * g (k + (1023 - forward L))) (by
      intro k
      have hf : f (k + 1023) = f k := congrArg sgn (hperiod p k)
      have hg : g (k + 1023 + (1023 - forward L)) = g (k + (1023 - forward L)) := by
        rw [show k + 1023 + (1023 - forward L) = k + (1023 - forward L) + 1023 by omega]
        exact congrArg sgn (hperiod q _)
      rw [hf, hg]) (forward L)
    rw [← h]
    refine Finset.sum_congr rfl fun k _ => ?_
    rw [show k + forward L + (1023 - forward L) = k + 1023 by omega,
      show g (k + 1023) = g k from congrArg sgn (hperiod q k)]
  have hcross := correlation_eq_cross ⟨ones, ones⟩ ⟨ones, ones⟩ p.1 p.2 q.1 q.2 (forward L)
  have hcode : ∀ (r : Tap × Tap) (k : Nat),
      chipAt ⟨ones, ones⟩ r.1 r.2 k = chipBit r.1 r.2 (codeState k) := by
    intro r k
    rw [chipAt, run_reset_reads]
  have hsum : ∑ k ∈ range 1023, f (k + forward L) * g k
      = CaCode.correlation ⟨ones, ones⟩ ⟨ones, ones⟩ p.1 p.2 q.1 q.2 (forward L) := by
    unfold CaCode.correlation
    refine Finset.sum_congr rfl fun k _ => ?_
    rw [hcode p, hcode q, ← sgn_xor]
    rfl
  rw [correlationAt, length_codeSigns]
  push_cast
  rw [Finset.sum_congr rfl hterm, ← Int.cast_sum, hshift, hsum, hcross, div_eq_inv_mul]

/-- The values of a correlation off its peak. -/
def SideLobe (r : ℚ) : Prop := r = -65 / 1023 ∨ r = -1 / 1023 ∨ r = 63 / 1023

theorem SideLobe.lt_one {r : ℚ} (h : SideLobe r) : r < 1 := by
  rcases h with rfl | rfl | rfl <;> norm_num

theorem dvd_forward {L : Int} : 1023 ∣ forward L ↔ (1023 : Int) ∣ L := by
  unfold forward
  omega

/-- Two signals correlate to one at multiples of the period when they carry the same code, and to a
    side lobe everywhere else. -/
theorem correlationAt_cases (p q : Tap × Tap) (L : Int) :
    ((1023 : Int) ∣ L ∧ SameCode p.1 p.2 q.1 q.2
      ∧ correlationAt (codeSigns p) (codeSigns q) L = 1)
    ∨ (¬ ((1023 : Int) ∣ L ∧ SameCode p.1 p.2 q.1 q.2)
      ∧ SideLobe (correlationAt (codeSigns p) (codeSigns q) L)) := by
  rw [correlationAt_codes]
  rcases cross_values (lagWord (forward L)) (selectionWord p.1 p.2 q.1 q.2 (forward L)) with
    ⟨hlag, hsel, hval⟩ | ⟨hne, hval⟩
  · have hdvd := lagWord_eq_zero_iff.mp hlag
    refine Or.inl ⟨dvd_forward.mp hdvd, (selectionWord_eq_zero_iff hdvd).mp hsel, ?_⟩
    rw [hval]
    norm_num
  · refine Or.inr ⟨?_, ?_⟩
    · rintro ⟨hL, hsame⟩
      have hdvd := dvd_forward.mpr hL
      exact hne ⟨lagWord_eq_zero_iff.mpr hdvd, (selectionWord_eq_zero_iff hdvd).mpr hsame⟩
    · simp only [List.mem_cons, List.not_mem_nil, or_false] at hval
      rcases hval with hval | hval | hval <;> rw [hval]
      · exact Or.inl (by norm_num)
      · exact Or.inr (Or.inl (by norm_num))
      · exact Or.inr (Or.inr (by norm_num))

/-- The table names the smaller tap first. -/
theorem tap_ordered : ∀ T ∈ tap, T.1 < T.2 := by decide

theorem elem_mem {α : Type} {v : List α} {i : Int} {x : α} (h : elem v i = .ok x) : x ∈ v := by
  unfold elem at h
  split at h
  · cases h
    exact List.get_mem _ _
  · nomatch h

/-- Two satellites carry the same code exactly when the table gives them the same taps. -/
theorem sameCode_iff {a b : Int} {p q : Tap × Tap}
    (hp : elem tap a = .ok ((p.1.pos : Int), (p.2.pos : Int)))
    (hq : elem tap b = .ok ((q.1.pos : Int), (q.2.pos : Int))) :
    SameCode p.1 p.2 q.1 q.2 ↔ elem tap a = elem tap b := by
  have hpo : (p.1.pos : Int) < p.2.pos := tap_ordered _ (elem_mem hp)
  have hqo : (q.1.pos : Int) < q.2.pos := tap_ordered _ (elem_mem hq)
  rw [hp, hq, SameCode, Sym2.eq_iff]
  simp only [Except.ok.injEq, Prod.mk.injEq, Nat.cast_inj, Tap.pos_inj]
  constructor
  · rintro ((h | ⟨h1, h2⟩) | ⟨h, _⟩)
    · exact h
    · rw [h1, h2] at hpo
      omega
    · rw [h] at hpo
      omega
  · intro h
    exact Or.inl (Or.inl h)

/-! ## The script -/

/-- The two rows of the signal are the signals of the two tap pairs. -/
theorem signals_ok {a b : Int} {p q : Tap × Tap}
    (hp : elem tap a = .ok ((p.1.pos : Int), (p.2.pos : Int)))
    (hq : elem tap b = .ok ((q.1.pos : Int), (q.2.pos : Int)))
    (hgen : GeneratesCodes [a, b]) :
    ∃ ca B, cacodegen [a, b] = .ok ca ∧ bpsk ca = .ok B
      ∧ signalRow B 1 = .ok (codeSigns p) ∧ signalRow B 2 = .ok (codeSigns q) := by
  obtain ⟨ca, hca, hrows, hcols, hchip⟩ := hgen
  have hrows : ca.rows = 2 := hrows
  obtain ⟨B, hB, hinv⟩ := bpsk_ok hrows (by omega)
  -- row `r` of the signal, from the chips of its satellite
  have hrow : ∀ (r : Nat) (hr : r < [a, b].length) (t : Tap × Tap),
      elem tap [a, b][r] = .ok ((t.1.pos : Int), (t.2.pos : Int)) →
      signalRow B ((r : Int) + 1) = .ok (codeSigns t) := by
    intro r hr t ht
    have hr2 : r < 2 := hr
    have hBcols := hinv.cols
    have hread : B.row ((r : Int) + 1)
        = .ok ((List.range 1023).map fun k => sgn (chipBit t.1 t.2 (codeState k))) := by
      refine B.row_eq_of_elem (by rw [hinv.rows]; exact hr2) (by simp; omega) fun k hk => ?_
      have hk : k < 1023 := by simpa using hk
      obtain ⟨T, c, hT, hc, helem⟩ := hchip r hr k hk
      obtain rfl : c = chipBit t.1 t.2 (codeState k) :=
        isChip_unique ⟨T, hT, hc⟩ (isChip_of_tap ht k)
      rw [hinv.done r k hr2 (by omega), helem, List.getElem_map, List.getElem_range]
      show Except.ok (bpskChip _) = _
      cases chipBit t.1 t.2 (codeState k) <;> rfl
    rw [signalRow, hread, ok_bind, codeSigns]
    show Except.ok (List.map _ (List.map _ _)) = _
    rw [List.map_map]
    rfl
  exact ⟨ca, B, hca, hB, hrow 0 (Nat.zero_lt_succ 1) p hp,
    hrow 1 (Nat.lt_succ_self 1) q hq⟩

/-- `m` is the largest element of `v` at the indices from `a` to `b`. -/
structure Largest (v : List ℚ) (a b : Int) (m : ℚ) : Prop where
  attained : ∃ i, a ≤ i ∧ i ≤ b ∧ elem v i = .ok m
  bound : ∀ i x, a ≤ i → i ≤ b → elem v i = .ok x → x ≤ m

/-- `m` is the smallest element of `v` at the indices from `a` to `b`. -/
structure Smallest (v : List ℚ) (a b : Int) (m : ℚ) : Prop where
  attained : ∃ i, a ≤ i ∧ i ≤ b ∧ elem v i = .ok m
  bound : ∀ i x, a ≤ i → i ≤ b → elem v i = .ok x → m ≤ x

theorem maxOver_ok {v : List ℚ} {a b : Int} (ha : 1 ≤ a) (hab : a ≤ b) (hb : b ≤ v.length) :
    ∃ m, maxOver v a b = .ok m ∧ Largest v a b m := by
  obtain ⟨part, hpart, hne, hmem⟩ := exists_slice v ha hab hb
  obtain ⟨m, hm⟩ := Option.isSome_iff_exists.mp (List.isSome_max?_of_ne_nil hne)
  obtain ⟨hin, hle⟩ := List.max?_eq_some_iff.mp hm
  refine ⟨m, ?_, (hmem m).mp hin, fun i x hlo hhi hx => hle x ((hmem x).mpr ⟨i, hlo, hhi, hx⟩)⟩
  rw [maxOver, hpart, ok_bind, hm]
  rfl

theorem minOver_ok {v : List ℚ} {a b : Int} (ha : 1 ≤ a) (hab : a ≤ b) (hb : b ≤ v.length) :
    ∃ m, minOver v a b = .ok m ∧ Smallest v a b m := by
  obtain ⟨part, hpart, hne, hmem⟩ := exists_slice v ha hab hb
  obtain ⟨m, hm⟩ := Option.isSome_iff_exists.mp (List.isSome_min?_of_ne_nil hne)
  obtain ⟨hin, hge⟩ := List.min?_eq_some_iff.mp hm
  refine ⟨m, ?_, (hmem m).mp hin, fun i x hlo hhi hx => hge x ((hmem x).mpr ⟨i, hlo, hhi, hx⟩)⟩
  rw [minOver, hpart, ok_bind, hm]
  rfl

/-- `min(v)` is the smallest element over all indices. -/
theorem min_ok {v : List ℚ} {n : Nat} (hn : v.length = n) (hpos : 0 < n) :
    ∃ m, scalar v.min? = .ok m ∧ Smallest v 1 n m := by
  have hne : v ≠ [] := List.ne_nil_of_length_pos (hn ▸ hpos)
  obtain ⟨m, hm⟩ := Option.isSome_iff_exists.mp (List.isSome_min?_of_ne_nil hne)
  obtain ⟨hin, hge⟩ := List.min?_eq_some_iff.mp hm
  refine ⟨m, by rw [hm]; rfl, ?_, fun i x _ _ hx => hge x (elem_mem hx)⟩
  obtain ⟨k, hk, hget⟩ := List.getElem_of_mem hin
  exact ⟨(k : Int) + 1, by omega, by omega, by rw [elem_ok v hk, hget]⟩

/-- The results of the script for the satellites `a` and `b`. -/
structure Correlates (a b : Int) (out : Hw1) : Prop where
  auto22 : ∀ t : Int, |t| ≤ 10 → ∃ r, elem out.prn22_corr (t + 11) = .ok r
    ∧ if t = 0 then r = 1 else SideLobe r
  auto27 : ∀ t : Int, |t| ≤ 10 → ∃ r, elem out.prn27_corr (t + 11) = .ok r
    ∧ if t = 0 then r = 1 else SideLobe r
  cross : ∀ t : Int, -10 ≤ t → t ≤ 14 → ∃ r, elem out.prn2227_corr (t + 11) = .ok r
    ∧ if t = 0 ∧ elem tap a = elem tap b then r = 1 else SideLobe r
  largest : Largest out.prn22_corr 1 5 out.prn22_p1 ∧ Largest out.prn22_corr 9 11 out.prn22_p3
    ∧ Largest out.prn27_corr 8 12 out.prn27_p2 ∧ Largest out.prn2227_corr 1 10 out.prn2227_p1
  smallest : Smallest out.prn22_corr 5 10 out.prn22_p2 ∧ Smallest out.prn27_corr 6 8 out.prn27_p1
    ∧ Smallest out.prn2227_corr 1 25 out.prn2227_p2
  peaks : out.prn22_p3 = 1 ∧ out.prn27_p2 = 1
  sideLobes : SideLobe out.prn22_p1 ∧ SideLobe out.prn22_p2 ∧ SideLobe out.prn27_p1
  crossLobes : SideLobe out.prn2227_p1 ∧ SideLobe out.prn2227_p2

/-- The lags of the script are less than a period apart. -/
theorem value_at_lag (p q : Tap × Tap) {t : Int} (ht : |t| ≤ 14) :
    (t = 0 ∧ SameCode p.1 p.2 q.1 q.2 ∧ correlationAt (codeSigns p) (codeSigns q) t = 1)
    ∨ (¬ (t = 0 ∧ SameCode p.1 p.2 q.1 q.2)
      ∧ SideLobe (correlationAt (codeSigns p) (codeSigns q) t)) := by
  rw [abs_le] at ht
  rcases correlationAt_cases p q t with ⟨hdvd, hval⟩ | ⟨hne, hval⟩
  · exact Or.inl ⟨by omega, hval⟩
  · refine Or.inr ⟨?_, hval⟩
    rintro ⟨rfl, hsame⟩
    exact hne ⟨Int.dvd_zero _, hsame⟩

/-- A vector with itself. -/
theorem value_at_lag_self (p : Tap × Tap) {t : Int} (ht : |t| ≤ 14) :
    if t = 0 then correlationAt (codeSigns p) (codeSigns p) t = 1
    else SideLobe (correlationAt (codeSigns p) (codeSigns p) t) := by
  have hsame : SameCode p.1 p.2 p.1 p.2 := Or.inl rfl
  rcases value_at_lag p p ht with ⟨h0, _, hval⟩ | ⟨hne, hval⟩
  · rw [if_pos h0]
    exact hval
  · rw [if_neg fun h0 => hne ⟨h0, hsame⟩]
    exact hval

/-- The maximum of an auto-correlation over indices that include lag zero is one, over others it is
    a side lobe. -/
theorem maxOver_auto {p : Tap × Tap} {m : Nat} {R : List ℚ}
    (h : CorrInv (codeSigns p) (codeSigns p) m R) (hm : m = 21) {a b : Int} (ha : 1 ≤ a)
    (hab : a ≤ b) (hb : b ≤ 21) :
    ∃ x, maxOver R a b = .ok x ∧ Largest R a b x
      ∧ if a ≤ 11 ∧ 11 ≤ b then x = 1 else SideLobe x := by
  have hlen := h.length
  obtain ⟨x, hrun, hmax⟩ := maxOver_ok (v := R) ha hab (by omega)
  obtain ⟨i, hlo, hhi, hx⟩ := hmax.attained
  have hread := elem_of_corrInv h (t := i - 11) (by omega) (by omega)
  have hval := value_at_lag_self p (t := i - 11) (abs_le.mpr ⟨by omega, by omega⟩)
  rw [show i - 11 + 11 = i by omega, hx] at hread
  injection hread with hread
  rw [← hread] at hval
  refine ⟨x, hrun, hmax, ?_⟩
  by_cases hpeak : a ≤ 11 ∧ 11 ≤ b
  · rw [if_pos hpeak]
    have hzero := elem_of_corrInv h (t := 0) (by omega) (by omega)
    have hone := value_at_lag_self p (t := 0) (by decide)
    rw [if_pos rfl] at hone
    rw [hone] at hzero
    have hle := hmax.bound 11 1 hpeak.1 hpeak.2 hzero
    split at hval
    · exact hval
    · exact absurd hle (not_le.mpr hval.lt_one)
  · rw [if_neg hpeak]
    rwa [if_neg (by omega)] at hval

/-- A minimum of an auto-correlation over indices on one side of lag zero. -/
theorem minOver_auto {p : Tap × Tap} {m : Nat} {R : List ℚ}
    (h : CorrInv (codeSigns p) (codeSigns p) m R) (hm : m = 21) {a b : Int} (ha : 1 ≤ a)
    (hab : a ≤ b) (hb : b ≤ 10) :
    ∃ x, minOver R a b = .ok x ∧ Smallest R a b x ∧ SideLobe x := by
  have hlen := h.length
  obtain ⟨x, hrun, hmin⟩ := minOver_ok (v := R) ha hab (by omega)
  obtain ⟨i, hlo, hhi, hx⟩ := hmin.attained
  have hread := elem_of_corrInv h (t := i - 11) (by omega) (by omega)
  have hval := value_at_lag_self p (t := i - 11) (abs_le.mpr ⟨by omega, by omega⟩)
  rw [show i - 11 + 11 = i by omega, hx] at hread
  injection hread with hread
  rw [if_neg (by omega), ← hread] at hval
  exact ⟨x, hrun, hmin, hval⟩

/-- The extreme values of a cross-correlation. -/
theorem cross_extremes {p q : Tap × Tap} {m : Nat} {R : List ℚ}
    (h : CorrInv (codeSigns p) (codeSigns q) m R) (hm : m = 25) :
    (∃ x, maxOver R 1 10 = .ok x ∧ Largest R 1 10 x ∧ SideLobe x) ∧ (∃ x, maxOver R 10 19 = .ok x)
      ∧ ∃ x, scalar R.min? = .ok x ∧ Smallest R 1 25 x ∧ SideLobe x := by
  have hlen := h.length
  have hlag : ∀ i : Int, 1 ≤ i → i ≤ 25 → ∀ x, elem R i = .ok x →
      x = 1 ∧ i = 11 ∨ SideLobe x := by
    intro i hlo hhi x hx
    have hread := elem_of_corrInv h (t := i - 11) (by omega) (by omega)
    rw [show i - 11 + 11 = i by omega, hx] at hread
    injection hread with hread
    rw [hread]
    rcases value_at_lag p q (t := i - 11) (abs_le.mpr ⟨by omega, by omega⟩) with
      ⟨h0, _, hval⟩ | ⟨_, hval⟩
    · exact Or.inl ⟨hval, by omega⟩
    · exact Or.inr hval
  refine ⟨?_, ?_, ?_⟩
  · obtain ⟨x, hrun, hmax⟩ :=
      maxOver_ok (v := R) (a := 1) (b := 10) (by omega) (by omega) (by omega)
    obtain ⟨i, hlo, hhi, hx⟩ := hmax.attained
    rcases hlag i hlo (by omega) x hx with ⟨_, h11⟩ | hside
    · omega
    · exact ⟨x, hrun, hmax, hside⟩
  · obtain ⟨x, hrun, _⟩ :=
      maxOver_ok (v := R) (a := 10) (b := 19) (by omega) (by omega) (by omega)
    exact ⟨x, hrun⟩
  · -- the smallest value is no larger than the one at the first lag
    obtain ⟨x, hrun, hmin⟩ := min_ok (v := R) (n := 25) (by omega) (by decide)
    obtain ⟨i, hlo, hhi, hx⟩ := hmin.attained
    refine ⟨x, hrun, hmin, ?_⟩
    rcases hlag i hlo hhi x hx with ⟨hone, _⟩ | hside
    · have hfirst := elem_ok R (i := 0) (by omega)
      rcases hlag 1 (by omega) (by omega) _ hfirst with ⟨_, h11⟩ | hside
      · omega
      · have hle := hmin.bound 1 _ (by omega) (by omega) hfirst
        rw [hone] at hle
        exact absurd hle (not_le.mpr hside.lt_one)
    · exact hside

/-- The correlator of one signal runs. -/
theorem corr_auto_ok (p : Tap × Tap) :
    ∃ R, corr (codeSigns p) none = .ok R ∧ CorrInv (codeSigns p) (codeSigns p) 21 R := by
  obtain ⟨R, hrun, hinv⟩ := corrLoop_ok (x := codeSigns p) rfl (m := 21)
    (by rw [length_codeSigns]; omega) (by rw [length_codeSigns]; omega)
  rw [show ((21 : Nat) : Int) - 11 = 10 by norm_num] at hrun
  exact ⟨R, hrun, hinv⟩

/-- The correlator of two signals runs. -/
theorem corr_cross_ok (p q : Tap × Tap) :
    ∃ R, corr (codeSigns p) (some (codeSigns q)) = .ok R
      ∧ CorrInv (codeSigns p) (codeSigns q) 25 R := by
  obtain ⟨R, hrun, hinv⟩ := corrLoop_ok (x := codeSigns p) (y := codeSigns q)
    (by rw [length_codeSigns, length_codeSigns]) (m := 25)
    (by rw [length_codeSigns]; omega) (by rw [length_codeSigns]; omega)
  rw [show ((25 : Nat) : Int) - 11 = 14 by norm_num] at hrun
  exact ⟨R, hrun, hinv⟩

/-- **The homework from end to end.**  For every two satellites other than PRN 5 the script runs,
    both auto-correlations are one at lag zero and `-65/1023`, `-1/1023` or `63/1023` at every other
    lag, and so is the cross-correlation, which is one only at lag zero and only when the table
    gives both satellites the same taps.  The values it reports are the largest and the smallest
    elements of the slices it names, two of them peaks and the others side lobes. -/
theorem hw1_correlations {a b : Int} (ha : 1 ≤ a ∧ a ≤ 37) (hb : 1 ≤ b ∧ b ≤ 37) (ha5 : a ≠ 5)
    (hb5 : b ≠ 5) : ∃ out, hw1 [a, b] = .ok out ∧ Correlates a b out := by
  obtain ⟨p, hp⟩ := tap_of_prn ha
  obtain ⟨q, hq⟩ := tap_of_prn hb
  have hgen : GeneratesCodes [a, b] := by
    refine generatesCodes_of_pair (fun prn h => ?_) rfl fun h => ?_
    · rcases List.mem_cons.mp h with rfl | h
      · exact ha
      · rw [List.mem_singleton.mp h]
        exact hb
    · rcases List.mem_cons.mp h with h | h
      · exact ha5 h.symm
      · exact hb5 (List.mem_singleton.mp h).symm
  obtain ⟨ca, B, hca, hB, hfirst, hsecond⟩ := signals_ok hp hq hgen
  -- the three correlators
  obtain ⟨R22, hR22, hinv22⟩ := corr_auto_ok p
  obtain ⟨R27, hR27, hinv27⟩ := corr_auto_ok q
  obtain ⟨Rx, hRx, hinvx⟩ := corr_cross_ok p q
  -- the values read off them
  obtain ⟨p1, hp1, hp1', hside1⟩ := maxOver_auto hinv22 rfl (a := 1) (b := 5) (by omega) (by omega)
    (by omega)
  obtain ⟨p2, hp2, hp2', hside2⟩ := minOver_auto hinv22 rfl (a := 5) (b := 10) (by omega) (by omega)
    (by omega)
  obtain ⟨p3, hp3, hp3', hpeak3⟩ := maxOver_auto hinv22 rfl (a := 9) (b := 11) (by omega) (by omega)
    (by omega)
  obtain ⟨q1, hq1, hq1', hsideq1⟩ := minOver_auto hinv27 rfl (a := 6) (b := 8) (by omega) (by omega)
    (by omega)
  obtain ⟨q2, hq2, hq2', hpeakq2⟩ := maxOver_auto hinv27 rfl (a := 8) (b := 12) (by omega) (by omega)
    (by omega)
  obtain ⟨⟨x1, hx1, hx1', hsidex1⟩, ⟨x2, hx2⟩, x3, hx3, hx3', hsidex3⟩ := cross_extremes hinvx rfl
  refine ⟨⟨R22, p1, p2, p3, R27, q1, q2, Rx, x1, x3⟩, ?_, ?_, ?_, ?_, ?_, ?_, ?_, ?_, ?_⟩
  · rw [hw1, hca, ok_bind, hB, ok_bind, hfirst, ok_bind, hsecond, ok_bind, hR22, ok_bind, hp1,
      ok_bind, hp2, ok_bind, hp3, ok_bind, hR27, ok_bind, hq1, ok_bind, hq2, ok_bind, hRx, ok_bind,
      hx1, ok_bind, hx2, ok_bind, hx3, ok_bind]
    rfl
  · intro t ht
    have hbound := abs_le.mp ht
    exact ⟨_, elem_of_corrInv hinv22 (by omega) (by omega), value_at_lag_self p (by omega)⟩
  · intro t ht
    have hbound := abs_le.mp ht
    exact ⟨_, elem_of_corrInv hinv27 (by omega) (by omega), value_at_lag_self q (by omega)⟩
  · intro t hlo hhi
    refine ⟨_, elem_of_corrInv hinvx hlo (by omega), ?_⟩
    rcases value_at_lag p q (t := t) (abs_le.mpr ⟨by omega, by omega⟩) with
      ⟨h0, hsame, hval⟩ | ⟨hne, hval⟩
    · rw [if_pos ⟨h0, (sameCode_iff hp hq).mp hsame⟩]
      exact hval
    · rw [if_neg fun h => hne ⟨h.1, (sameCode_iff hp hq).mpr h.2⟩]
      exact hval
  · exact ⟨hp1', hp3', hq2', hx1'⟩
  · exact ⟨hp2', hq1', hx3'⟩
  · exact ⟨hpeak3, hpeakq2⟩
  · exact ⟨hside1, hside2, hsideq1⟩
  · exact ⟨hsidex1, hsidex3⟩

/-- The two satellites of the script. -/
theorem hw1_correlations_22_27 : ∃ out, hw1 [22, 27] = .ok out ∧ Correlates 22 27 out :=
  hw1_correlations (by decide) (by decide) (by decide) (by decide)

end GpsReceiver.Acquisition
