/-
  The ambiguity search of `hw2.m`: Doppler frequency and code delay of two satellites in a recorded
  signal.

  1. **Data** — the recorded row vector `hw2Data`, the codes of PRN 22 and 27 as `Replica` samples
     them, the 121 Doppler frequencies `fd`.
  2. **Program** — `search`, for one satellite: for each Doppler frequency the in-phase and
     quadrature correlations by `circcorr`, the magnitude `Z`, the maximum of each row, the best
     row, the best column of that row.  The script interleaves the two satellites; neither uses a
     variable of the other.
  3. **Specification** — `AcquisitionLaw`: the pair found is a maximiser over the whole grid, the
     reported Doppler is that of its row, the reported delay that of its column.
  4. **What holds** — the first two always.  The delay is computed from the centre index 14285,
     while `circcorr` has lag zero at the 1-based column 14286: `search_ok` gives the one sample
     between them.
-/
import GpsReceiver.Acquisition.Replica
import GpsReceiver.CaCode.SatelliteCodes
import GpsReceiver.Correlator.Circular

namespace GpsReceiver.Acquisition

open GpsReceiver.Lib GpsReceiver.Lib.Matlab GpsReceiver.CaCode GpsReceiver.Correlator

/-! ## The program -/

/-- The intermediate frequency. -/
def fi : ℚ := 1.405e6

/-- The Doppler frequencies searched, `-6e3:100:6e3`. -/
def fd : List ℚ := colonStep (-6e3) 100 6e3

/-- `sqrt(2)*sin(2*pi*(fi+f)*t).*code`, and the same with `cos`. -/
noncomputable def carrier (trig : ℝ → ℝ) (f : ℚ) (code : List Int) : Except Error (List ℝ) :=
  elementwise (· * ·)
    (t.map fun s : ℚ => √2 * trig (2 * Real.pi * ((fi : ℝ) + (f : ℝ)) * (s : ℝ)))
    (code.map fun c : Int => (c : ℝ))

/-- The variables of one satellite the loop over the Doppler frequencies fills. -/
structure Grid where
  RI : List (List ℝ)
  RQ : List (List ℝ)
  ILag : List ℝ

/-- One iteration: row `n` of both correlation matrices is added, the lags are overwritten.  The
    values of `circcorr` are real (`circcorr_real`) and are stored as such. -/
noncomputable def searchStep (hw2Data : List ℝ) (code : List Int) (g : Grid) (n : Int) :
    Except Error Grid := do
  let f ← elem fd n
  let Il ← carrier Real.sin f code
  let Ql ← carrier Real.cos f code
  let (RI, ILag) ← circcorr hw2Data Il Ts
  let (RQ, _) ← circcorr hw2Data Ql Ts
  pure
    { RI := g.RI ++ [RI.map Complex.re]
      RQ := g.RQ ++ [RQ.map Complex.re]
      ILag := ILag }

/-- `sqrt(R_I.^2 + R_Q.^2)`. -/
noncomputable def magnitude (RI RQ : List (List ℝ)) : List (List ℝ) :=
  List.zipWith (List.zipWith fun a b => √(a ^ 2 + b ^ 2)) RI RQ

/-- What the script computes and reports for one satellite. -/
structure Report where
  Z : List (List ℝ)
  ILag : List ℝ
  i : Int
  j : Int
  dopLag : ℚ
  tLag : ℝ

/-- `maxZ`: the maximum of each row. -/
noncomputable def rowMaxima (Z : List (List ℝ)) : Except Error (List ℝ) :=
  Z.mapM fun row => do
    let (m, _) ← maxIndex row
    pure m

/-- The best row, the best column of that row, and the values reported for them. -/
noncomputable def report (Z : List (List ℝ)) (ILag : List ℝ) : Except Error Report := do
  let maxZ ← rowMaxima Z
  let (_, i) ← maxIndex maxZ
  let dopLag ← elem fd i
  let row ← elem Z i
  let (_, j) ← maxIndex row
  pure
    { Z := Z, ILag := ILag, i := i, j := j, dopLag := dopLag
      tLag := ((j : ℝ) - 14285) * Ts }

/-- The search for one satellite. -/
noncomputable def search (hw2Data : List ℝ) (code : List Int) : Except Error Report := do
  let g ← forLoop (colon 1 fd.length) { RI := [], RQ := [], ILag := [] }
    (searchStep hw2Data code)
  report (magnitude g.RI g.RQ) g.ILag

/-- The script, from the recorded signal to the results for PRN 22 and PRN 27. -/
noncomputable def hw2 (hw2Data : List ℝ) : Except Error (Report × Report) := do
  let ca ← cacodegen [22, 27]
  let signal ← replica ca
  let code22 ← signal.row 1
  let code27 ← signal.row 2
  let prn22 ← search hw2Data code22
  let prn27 ← search hw2Data code27
  pure (prn22, prn27)

/-! ## Specification -/

/-- The grid covers every searched Doppler frequency and every lag, and the element at `(i, j)` is
    one of its maxima. -/
structure GlobalMaximiser (r : Report) : Prop where
  rows : r.Z.length = fd.length
  cols : ∀ row ∈ r.Z, row.length = r.ILag.length
  attained : ∃ row z, elem r.Z r.i = .ok row ∧ elem row r.j = .ok z
    ∧ ∀ row' ∈ r.Z, ∀ z' ∈ row', z' ≤ z

/-- The reported values are those of the maximiser's row and column. -/
structure AcquisitionLaw (r : Report) : Prop where
  maximiser : GlobalMaximiser r
  doppler : elem fd r.i = .ok r.dopLag
  delay : elem r.ILag r.j = .ok r.tLag

/-! ## The correlation grid -/

theorem length_fd : fd.length = 121 := by
  have hfloor : ⌊((6e3 - -6e3) / 100 : ℚ)⌋ = 120 := by
    rw [Int.floor_eq_iff]
    norm_num
  rw [fd, colonStep, List.length_map, List.length_range, hfloor]
  rfl

/-- After `k` Doppler frequencies: `k` rows as long as the recorded signal. -/
structure GridInv (N k : Nat) (g : Grid) : Prop where
  rowsI : g.RI.length = k
  rowsQ : g.RQ.length = k
  colsI : ∀ row ∈ g.RI, row.length = N
  colsQ : ∀ row ∈ g.RQ, row.length = N
  lag : 0 < k → g.ILag = (lagRange N).map fun L : Int => (L : ℝ) * (Ts : ℝ)

section

variable {N : Nat} {hw2Data : List ℝ} {code : List Int}

theorem carrier_ok (trig : ℝ → ℝ) (f : ℚ) (ht : t.length = N) (hcode : code.length = N) :
    ∃ x, carrier trig f code = .ok x ∧ x.length = N := by
  unfold carrier
  rw [elementwise_ok _ (by rw [List.length_map, List.length_map, ht, hcode])]
  exact ⟨_, rfl, by rw [List.length_zipWith, List.length_map, List.length_map, ht, hcode,
    Nat.min_self]⟩

/-- The FFT correlator on rows of one length: its sizes and its lags. -/
theorem circcorr_sizes {x y : List ℝ} (hN : 1 ≤ N) (hx : x.length = N)
    (hy : y.length = N) :
    ∃ R : List ℂ, circcorr x y Ts = .ok (R, (lagRange N).map fun L : Int => (L : ℝ) * (Ts : ℝ))
      ∧ R.length = N := by
  subst hx
  exact ⟨_, circcorr_ok hN hy Ts, by rw [List.length_map, List.length_range]⟩

theorem searchStep_inv (hN : 1 ≤ N) (ht : t.length = N) (hdata : hw2Data.length = N)
    (hcode : code.length = N) {k : Nat} (hk : k < fd.length) {g : Grid} (h : GridInv N k g) :
    ∃ g', searchStep hw2Data code g ((k : Int) + 1) = .ok g' ∧ GridInv N (k + 1) g' := by
  obtain ⟨Il, hIl, hIlen⟩ := carrier_ok Real.sin fd[k] ht hcode
  rcases carrier_ok Real.cos fd[k] ht hcode with ⟨Ql, hQl, hQlen⟩
  obtain ⟨RI, hI, hRI⟩ := circcorr_sizes hN hdata hIlen
  rcases circcorr_sizes hN hdata hQlen with ⟨RQ, hQ, hRQ⟩
  refine ⟨{ RI := g.RI ++ [RI.map Complex.re], RQ := g.RQ ++ [RQ.map Complex.re],
            ILag := (lagRange N).map fun L : Int => (L : ℝ) * (Ts : ℝ) }, ?_, ?_⟩
  · unfold searchStep
    rw [elem_ok fd hk, ok_bind, hIl, ok_bind, hQl, ok_bind, hI, ok_bind, hQ]
    rfl
  · constructor
    · rw [List.length_append, h.rowsI, List.length_singleton]
    · rw [List.length_append, h.rowsQ, List.length_singleton]
    · intro row hrow
      rcases List.mem_append.mp hrow with hrow | hrow
      · exact h.colsI row hrow
      · rw [List.mem_singleton.mp hrow, List.length_map, hRI]
    · intro row hrow
      rcases List.mem_append.mp hrow with hrow | hrow
      · exact h.colsQ row hrow
      · rw [List.mem_singleton.mp hrow, List.length_map, hRQ]
    · intro _
      rfl

theorem grid_ok (hN : 1 ≤ N) (ht : t.length = N) (hdata : hw2Data.length = N)
    (hcode : code.length = N) :
    ∃ g, forLoop (colon 1 fd.length) { RI := [], RQ := [], ILag := [] }
        (searchStep hw2Data code) = .ok g ∧ GridInv N fd.length g := by
  refine forLoop_colon (searchStep hw2Data code) (GridInv N) (by omega)
    ⟨rfl, rfl, fun _ h => absurd h List.not_mem_nil, fun _ h => absurd h List.not_mem_nil,
      fun h => absurd h (Nat.lt_irrefl 0)⟩ ?_
  intro k hk g hg
  exact searchStep_inv hN ht hdata hcode hk hg

/-- The magnitude grid has the sizes of the two correlation grids. -/
theorem magnitude_sizes {k : Nat} {g : Grid} (h : GridInv N k g) :
    (magnitude g.RI g.RQ).length = k ∧ ∀ row ∈ magnitude g.RI g.RQ, row.length = N := by
  constructor
  · rw [magnitude, List.length_zipWith, h.rowsI, h.rowsQ, Nat.min_self]
  · intro row hrow
    obtain ⟨n, hn, rfl⟩ := List.mem_iff_getElem.mp hrow
    have hn' := hn
    rw [magnitude, List.length_zipWith, h.rowsI, h.rowsQ, Nat.min_self] at hn'
    simp only [magnitude, List.getElem_zipWith, List.length_zipWith]
    rw [h.colsI _ (List.getElem_mem _), h.colsQ _ (List.getElem_mem _), Nat.min_self]

end

/-! ## The two-stage maximum -/

/-- Maxima of the rows of a matrix without empty rows. -/
theorem rowMaxima_ok : ∀ {Z : List (List ℝ)}, (∀ row ∈ Z, row ≠ []) →
    ∃ ms : List ℝ, rowMaxima Z = .ok ms
      ∧ ms.length = Z.length
      ∧ ∀ (r : Nat) (hr : r < Z.length) (hr' : r < ms.length),
        ∃ i, maxIndex Z[r] = .ok (ms[r], i) := by
  intro Z
  induction Z with
  | nil =>
    intro _
    exact ⟨[], rfl, rfl, fun r hr => absurd hr (Nat.not_lt_zero r)⟩
  | cons row Z ih =>
    intro hne
    rcases maxIndex_ok (hne row List.mem_cons_self) with ⟨m, k, _, hm, _, _⟩
    obtain ⟨ms, hms, hlen, hrows⟩ := ih fun r hr => hne r (List.mem_cons_of_mem row hr)
    refine ⟨m :: ms, ?_, by rw [List.length_cons, List.length_cons, hlen], ?_⟩
    · rw [rowMaxima, List.mapM_cons, hm, ok_bind, ← rowMaxima, hms]
      rfl
    · intro r hr hr'
      cases r with
      | zero => exact ⟨_, hm⟩
      | succ r => exact hrows r (Nat.lt_of_succ_lt_succ hr) (Nat.lt_of_succ_lt_succ hr')

/-- **The best row, then its best column.**  The element found bounds every element. -/
theorem twoStage_ok {Z : List (List ℝ)} (hZ : Z ≠ []) (hne : ∀ row ∈ Z, row ≠ []) :
    ∃ (ms : List ℝ) (m a : ℝ) (r c : Nat) (hr : r < Z.length) (hc : c < Z[r].length),
      rowMaxima Z = .ok ms
      ∧ maxIndex ms = .ok (m, (r : Int) + 1) ∧ maxIndex Z[r] = .ok (a, (c : Int) + 1)
      ∧ ∀ row ∈ Z, ∀ z ∈ row, z ≤ Z[r][c] := by
  rcases rowMaxima_ok hne with ⟨ms, hms, hlen, hrows⟩
  have hms0 : ms ≠ [] := by
    rintro rfl
    exact hZ (List.eq_nil_of_length_eq_zero hlen.symm)
  obtain ⟨m, r, hr, hm, hmr, hmmax⟩ := maxIndex_ok hms0
  have hrZ : r < Z.length := by omega
  rcases maxIndex_ok (hne Z[r] (List.getElem_mem hrZ)) with ⟨a, c, hc, ha, hac, hamax⟩
  refine ⟨ms, m, a, r, c, hrZ, hc, hms, hm, ha, fun row hrow z hz => ?_⟩
  obtain ⟨q, hq, rfl⟩ := List.mem_iff_getElem.mp hrow
  have hqms : q < ms.length := by omega
  -- the maximum of the row `q` is below the greatest of the maxima, the one of the row `r`
  rcases maxIndex_ok (hne Z[q] (List.getElem_mem hq)) with ⟨b, k, _, hb, _, hbmax⟩
  obtain ⟨i, hi⟩ := hrows q hq hqms
  rcases hrows r hrZ hr with ⟨i', hi'⟩
  have hbq : b = ms[q] := by
    rw [hb] at hi
    cases hi
    rfl
  have har : a = ms[r] := by
    rw [ha] at hi'
    cases hi'
    rfl
  calc z ≤ b := hbmax z hz
    _ = ms[q] := hbq
    _ ≤ m := hmmax _ (List.getElem_mem hqms)
    _ = ms[r] := hmr.symm
    _ = a := har.symm
    _ = Z[r][c] := hac.symm

/-! ## The reported values -/

/-- What one search returns: a maximiser of the grid, its Doppler frequency, and a delay that is
    one sample above the lag of its column. -/
structure OneSampleLate (r : Report) : Prop where
  maximiser : GlobalMaximiser r
  doppler : elem fd r.i = .ok r.dopLag
  delay : elem r.ILag r.j = .ok (r.tLag - Ts)

/-- **One satellite.** -/
theorem search_ok {N : Nat} (hN : N = 28570) {hw2Data : List ℝ} {code : List Int}
    (hdata : hw2Data.length = N) (hcode : code.length = N) :
    ∃ r, search hw2Data code = .ok r ∧ OneSampleLate r := by
  obtain ⟨g, hloop, hg⟩ := grid_ok (by omega) (length_t.trans hN.symm) hdata hcode
  rcases magnitude_sizes hg with ⟨hrows, hcols⟩
  have hlag := hg.lag (by rw [length_fd]; omega)
  have hZ : magnitude g.RI g.RQ ≠ [] :=
    List.ne_nil_of_length_pos (by rw [hrows, length_fd]; omega)
  have hne : ∀ row ∈ magnitude g.RI g.RQ, row ≠ [] := fun row hrow =>
    List.ne_nil_of_length_pos (by rw [hcols row hrow]; omega)
  obtain ⟨ms, m, a, r, c, hr, hc, hms, hm, ha, hmax⟩ := twoStage_ok hZ hne
  have hrfd : r < fd.length := by omega
  have hcN : c < N := by rwa [hcols _ (List.getElem_mem hr)] at hc
  refine ⟨{ Z := magnitude g.RI g.RQ, ILag := g.ILag, i := (r : Int) + 1, j := (c : Int) + 1,
            dopLag := fd[r], tLag := ((((c : Int) + 1 : Int) : ℝ) - 14285) * Ts }, ?_, ?_⟩
  · unfold search report
    rw [hloop, ok_bind, hms, ok_bind, hm, ok_bind]
    dsimp only
    rw [elem_ok fd hrfd, ok_bind, elem_ok _ hr, ok_bind, ha]
    rfl
  · refine ⟨⟨hrows, fun row hrow => ?_, ?_⟩, elem_ok fd hrfd, ?_⟩
    · rw [hcols row hrow, hlag, lagRange_eq, List.length_map, List.length_map, List.length_range]
    · exact ⟨_, _, elem_ok _ hr, elem_ok _ hc, hmax⟩
    · -- column `c`, counted from zero, has the lag `c - 14285`; the index reported is `c + 1`
      have hcl : c < g.ILag.length := by
        rwa [hlag, lagRange_eq, List.length_map, List.length_map, List.length_range]
      have hcentre : lagAt N c = (c : Int) - 14285 := by
        unfold lagAt
        omega
      rw [elem_ok _ hcl]
      congr 1
      simp only [hlag, lagRange_eq, List.getElem_map, List.getElem_range, hcentre]
      push_cast
      ring

/-- The law fails for a report that is late: the sampling interval is not zero. -/
theorem not_law_of_late {r : Report} (h : OneSampleLate r) : ¬ AcquisitionLaw r := by
  intro hlaw
  have hdelay := hlaw.delay
  rw [h.delay] at hdelay
  injection hdelay with hdelay
  have hTs : (Ts : ℝ) = 0 := by linarith
  have hTs' : Ts = 0 := by exact_mod_cast hTs
  rw [Ts, fs] at hTs'
  norm_num at hTs'

/-- The law for both satellites, on one recorded signal. -/
def AcquisitionHolds (hw2Data : List ℝ) : Prop :=
  ∃ prn22 prn27, hw2 hw2Data = .ok (prn22, prn27) ∧ AcquisitionLaw prn22 ∧ AcquisitionLaw prn27

/-- The script runs through and both its reports are one sample late. -/
theorem hw2_ok {hw2Data : List ℝ} (hdata : hw2Data.length = 28570) :
    ∃ prn22 prn27, hw2 hw2Data = .ok (prn22, prn27) ∧ OneSampleLate prn22
      ∧ OneSampleLate prn27 := by
  have hcodes : GeneratesCodes [22, 27] := generatesCodes_of_pair (by decide) rfl (by decide)
  rcases hcodes with ⟨ca, hca, hrows, hcols, _⟩
  obtain ⟨signal, hsignal, hsrows, hscols⟩ := replica_ok hrows hcols
  have hlen : ∀ r : Fin signal.rows, (List.ofFn (signal.entry r)).length = 28570 := by
    intro r
    rw [List.length_ofFn, hscols]
  have hrow22 : signal.row 1 = .ok _ := signal.row_ok (i := 0) (by omega)
  have hrow27 : signal.row 2 = .ok _ := signal.row_ok (i := 1) (by omega)
  obtain ⟨prn22, h22, hlate22⟩ := search_ok rfl hdata (hlen ⟨0, by omega⟩)
  obtain ⟨prn27, h27, hlate27⟩ := search_ok rfl hdata (hlen ⟨1, by omega⟩)
  refine ⟨prn22, prn27, ?_, hlate22, hlate27⟩
  unfold hw2
  rw [hca, ok_bind, hsignal, ok_bind, hrow22, ok_bind, hrow27, ok_bind, h22, ok_bind, h27, ok_bind]
  rfl

theorem not_acquisitionHolds {hw2Data : List ℝ} (hdata : hw2Data.length = 28570) :
    ¬ AcquisitionHolds hw2Data := by
  rintro ⟨p22, p27, hrun, hlaw, _⟩
  rcases hw2_ok hdata with ⟨prn22, prn27, hrun', hlate, _⟩
  rw [hrun'] at hrun
  cases hrun
  exact not_law_of_late hlate hlaw

/-- **Acquisition.**  For every recorded signal both searches return a maximiser of the whole grid
    with its Doppler frequency, and report a delay one sample above the lag `circcorr` attaches to
    the column; so the law holds for no signal. -/
theorem acquisition_one_sample_late {hw2Data : List ℝ} (hdata : hw2Data.length = 28570) :
    (∃ prn22 prn27, hw2 hw2Data = .ok (prn22, prn27) ∧ OneSampleLate prn22
      ∧ OneSampleLate prn27) ∧ ¬ AcquisitionHolds hw2Data :=
  ⟨hw2_ok hdata, not_acquisitionHolds hdata⟩

/-- The theorem at a recording with one pulse, in its first sample. -/
theorem acquisition_one_sample_late_pulse :
    ∃ prn22 prn27, hw2 (1 :: List.replicate 28569 0) = .ok (prn22, prn27)
      ∧ OneSampleLate prn22 ∧ OneSampleLate prn27 :=
  (acquisition_one_sample_late (by rw [List.length_cons, List.length_replicate])).1

/-- The law fails on a silent signal. -/
theorem acquisition_fails_on_silence : ¬ AcquisitionHolds (List.replicate 28570 0) :=
  not_acquisitionHolds List.length_replicate

end GpsReceiver.Acquisition
