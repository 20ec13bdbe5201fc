/-
  `cacode_original.m` — the reference code generator, with its argument checks and its resampling.

  1. **Data** — `sv` is a matrix, `fs` the number of samples for each chip, one when it is left out.
     Numbers are exact, in any ordered field with a floor; in the doubles of the program a multiple
     of `1/fs` may come out just above an integer, and the sample then holds the next chip.
  2. **Program** — `check` the argument checks, `toIntegers` the rounding with its warning, `tapSel`
     the table look-up, `origBody` one iteration of the two registers, `holdBody` one of the
     zero-order hold; `cacodeOriginal` the function, with its default for `fs`.  A failed call
     carries the text of `error` or the kind of run-time error.
  3. **Specification** — `Accepts`: the arguments a call returns for; `Samples`: the matrix it
     returns, sample `k` of a row being chip `⌈k / fs⌉` of what `CACODE` outputs.
  4. **Results** — `cacodeOriginal_ok_iff` decides which calls return and what;
     `cacodeOriginal_upsamples` relates a call with `fs` to the call without.
-/
import GpsReceiver.CaCode.SatelliteCodes
import GpsReceiver.Lib.ZeroOrderHold
import Mathlib.Data.Rat.Floor
import Mathlib.Tactic.NormNum

namespace GpsReceiver.CaCode

open GpsReceiver.Lib GpsReceiver.Lib.Matlab GpsReceiver.Lib.ZeroOrderHold

/-! ## The program -/

/-- How a call ends without a result. -/
inductive Failure
  /-- `error(msg)`. -/
  | error (msg : String)
  /-- An operand of `||` is not a scalar. -/
  | operand
  /-- A variable is read that no statement assigned. -/
  | undefined (name : String)
  /-- A run-time error of an array operation. -/
  | array (e : Error)
  deriving DecidableEq, Repr

def svMessage : String := "sv must be a row or column vector with integers between 1 and 37\\n"

def fsMessage : String := "fs must be 1 or greater\\n"

def roundMessage : String := "non-integer value entered for sv, rounding to closest integer\\n"

section

variable {κ : Type} [Field κ] [LinearOrder κ] [FloorRing κ]

/-- The elements in the order of one subscript, column by column. -/
def elements {α : Type} (A : Mat α) : List α :=
  (List.finRange A.cols).flatMap fun c => (List.finRange A.rows).map fun r => A.entry r c

/-- `max` or `min` of `A` as a scalar; for a matrix that is no vector, and for an empty one, the
    value is no scalar. -/
def scalarOf (f : List κ → Option κ) (A : Mat κ) : Option κ :=
  if A.rows = 1 ∨ A.cols = 1 then f (elements A) else none

/-- The two argument checks. -/
def check (sv : Mat κ) (fs : κ) : Except Failure Unit :=
  match scalarOf List.max? sv, scalarOf List.min? sv with
  | some high, some low =>
    if ((37 : Nat) : κ) < high ∨ low < 1 ∨ min sv.rows sv.cols ≠ 1 then .error (.error svMessage)
    else if fs < 1 then .error (.error fsMessage)
    else .ok ()
  | _, _ => .error .operand

/-- `round`: to the nearest integer, halves away from zero. -/
def roundAway (x : κ) : Int :=
  if 0 ≤ x then ⌊x + 1 / ((2 : Nat) : κ)⌋ else ⌈x - 1 / ((2 : Nat) : κ)⌉

/-- `testint`, the warning and the rounding.  An `if` on a vector wants all of its elements to be
    non-zero. -/
def toIntegers (sv : List κ) : List κ × List String :=
  let testint := sv.map fun x => (roundAway x : κ) - x
  if testint ≠ [] ∧ ∀ d ∈ testint, d ≠ 0 then
    (sv.map fun x => (roundAway x : κ), [roundMessage])
  else (sv, [])

/-- A number used as an index. -/
def subscript (x : κ) : Except Error Int := if (⌊x⌋ : κ) = x then .ok ⌊x⌋ else .error .badIndex

/-- `tap(sv,:)`. -/
def tapSel (sv : List κ) : Except Error (List (Int × Int)) := sv.mapM fun x => do
  let i ← subscript x
  elem tap i

/-- The variables of the generator loop; `g` does not exist before its first column. -/
structure OrigState where
  g1 : List Nat
  q : List Nat
  g : Option (Mat Nat)

/-- One iteration of `for inc=1:L`. -/
def origBody (tap_sel : List (Int × Int)) (st : OrigState) (inc : Int) :
    Except Error OrigState := do
  let first ← elems st.q (tap_sel.map Prod.fst)
  let second ← elems st.q (tap_sel.map Prod.snd)
  let g2 := List.zipWith (fun a b => (a + b) % 2) first second
  let out ← elem st.g1 sWeights.length
  let g ← Mat.growCol st.g inc (g2.map fun b => (out + b) % 2)
  let g1 ← feedback sWeights st.g1
  let q ← feedback tWeights st.q
  return { g1 := g1, q := q, g := some g }

/-- The variables of the resampling loop. -/
structure HoldState where
  index : Nat
  gfs : Option (Mat Nat)

/-- One iteration of `for cnt = 1/fs:1/fs:L`.  Here `cnt` is the exact multiple of `1/fs`, which the
    program computes in doubles. -/
def holdBody (g : Mat Nat) (st : HoldState) (cnt : κ) : Except Error HoldState := do
  let index := st.index + 1
  let col ← if (numChips : Int) < ⌈cnt⌉ then g.col numChips else g.col ⌈cnt⌉
  let gfs ← Mat.growCol st.gfs index col
  return { index := index, gfs := some gfs }

/-- An array statement inside the function. -/
def ofArray {α : Type} (x : Except Error α) : Except Failure α := x.mapError .array

/-- The value of a variable that is assigned under a loop. -/
def defined {α : Type} (name : String) : Option α → Except Failure α
  | some a => .ok a
  | none => .error (.undefined name)

/-- The function after the default of `fs`, with the warnings of the call. -/
def generate (sv : Mat κ) (fs : κ) : Except Failure (Mat Nat × List String) := do
  check sv fs
  let (svs, warnings) := toIntegers (elements sv)
  let tap_sel ← ofArray (tapSel svs)
  let st ← ofArray (forLoop (colon 1 numChips) { g1 := onesRow, q := onesRow, g := none }
    (origBody tap_sel))
  let g ← defined "g" st.g
  if fs ≠ 1 then
    let hold ← ofArray (forLoop (colonStep (1 / fs) (1 / fs) (numChips : κ))
      { index := 0, gfs := none } (holdBody g))
    let gfs ← defined "gfs" hold.gfs
    return (gfs, warnings)
  else return (g, warnings)

/-- `g=cacode_original(sv,fs)`; `fs` is one when it is left out. -/
def cacodeOriginal (sv : Mat κ) (fs : Option κ) : Except Failure (Mat Nat × List String) :=
  generate sv (fs.getD 1)

end

section

variable {α β : Type}

theorem run_ok (a : α) (f : α → Except Failure β) : ((.ok a : Except Failure α) >>= f) = f a := rfl

theorem ofArray_ok (a : α) : ofArray (.ok a) = .ok a := rfl

theorem defined_some (name : String) (a : α) : defined name (some a) = .ok a := rfl

end

/-! ## Specification -/

section

variable {κ : Type} [Field κ] [LinearOrder κ] [FloorRing κ]

/-- `c` is chip `k`, counted from zero, of the hardware under the reference taps of PRN `prn`. -/
def IsChip (prn : Int) (k : Nat) (c : Bool) : Prop :=
  ∃ T, elem tap prn = .ok T
    ∧ ∀ r₀ : Regs, chip (BitVec.ofInt 4 T.1) (BitVec.ofInt 4 T.2)
        (run r₀ (resetEdge :: List.replicate k readEdge)) = some c

/-- A number without a fractional part. -/
def IsInteger (x : κ) : Prop := (⌊x⌋ : κ) = x

/-- The arguments of a call that returns.  Numbers with and without fractional parts do not mix:
    the rounding is left out as soon as one of them is an integer. -/
structure Accepts (sv : Mat κ) (fs : κ) : Prop where
  vector : sv.rows = 1 ∨ sv.cols = 1
  nonempty : elements sv ≠ []
  range : ∀ x ∈ elements sv, 1 ≤ x ∧ x ≤ ((37 : Nat) : κ)
  rate : 1 ≤ fs
  integers : (∀ x ∈ elements sv, IsInteger x) ∨ ∀ x ∈ elements sv, ¬ IsInteger x

/-- One row for each satellite, and in it `⌊1023 * fs⌋` samples; sample `k`, counted from one, is
    chip `⌈k / fs⌉` of the satellite. -/
structure Samples (sv : List κ) (fs : κ) (g : Mat Nat) : Prop where
  rows : g.rows = sv.length
  cols : (g.cols : Int) = ⌊((numChips : Nat) : κ) * fs⌋
  sample : ∀ (r : Nat) (hr : r < sv.length) (k : Nat), k < g.cols →
    ∃ c, IsChip (roundAway sv[r]) ((held fs (k + 1)).toNat - 1) c
      ∧ g.elem ((r : Int) + 1) ((k : Int) + 1) = .ok c.toNat

end

/-! ## The argument checks -/

section

variable {κ : Type} [Field κ] [LinearOrder κ]

/-- A matrix with an element has a row and a column. -/
theorem size_pos_of_elements {α : Type} {A : Mat α} (h : elements A ≠ []) :
    0 < A.rows ∧ 0 < A.cols := by
  obtain ⟨x, hx⟩ := List.exists_mem_of_ne_nil _ h
  obtain ⟨c, _, hx⟩ := List.mem_flatMap.mp hx
  obtain ⟨r, _, _⟩ := List.mem_map.mp hx
  exact ⟨r.pos, c.pos⟩

/-- The two checks pass for a row or column of at least one number between 1 and 37, and a rate of
    at least one. -/
theorem check_ok_iff {sv : Mat κ} {fs : κ} :
    check sv fs = .ok () ↔ (sv.rows = 1 ∨ sv.cols = 1) ∧ elements sv ≠ []
      ∧ (∀ x ∈ elements sv, 1 ≤ x ∧ x ≤ ((37 : Nat) : κ)) ∧ 1 ≤ fs := by
  by_cases hvec : sv.rows = 1 ∨ sv.cols = 1
  · by_cases hnil : elements sv = []
    · have hmax : scalarOf List.max? sv = none := by rw [scalarOf, if_pos hvec, hnil]; rfl
      rw [check, hmax]
      exact iff_of_false (by intro h; nomatch h) (fun h => h.2.1 hnil)
    · -- both extrema are scalars
      obtain ⟨high, hhigh⟩ := Option.isSome_iff_exists.mp (List.isSome_max?_of_ne_nil hnil)
      obtain ⟨low, hlow⟩ := Option.isSome_iff_exists.mp (List.isSome_min?_of_ne_nil hnil)
      have hmax : scalarOf List.max? sv = some high := by rw [scalarOf, if_pos hvec, hhigh]
      have hmin : scalarOf List.min? sv = some low := by rw [scalarOf, if_pos hvec, hlow]
      obtain ⟨hhigh, hle⟩ := List.max?_eq_some_iff.mp hhigh
      obtain ⟨hlow, hge⟩ := List.min?_eq_some_iff.mp hlow
      have hsize : min sv.rows sv.cols = 1 := by
        have hpos := size_pos_of_elements hnil
        omega
      rw [check, hmax, hmin]
      dsimp only
      constructor
      · intro h
        split at h
        · nomatch h
        · rename_i hrange
          split at h
          · nomatch h
          · rename_i hfs
            simp only [not_or, not_lt] at hrange hfs
            exact ⟨hvec, hnil,
              fun x hx => ⟨hrange.2.1.trans (hge x hx), (hle x hx).trans hrange.1⟩, hfs⟩
      · rintro ⟨_, _, hrange, hfs⟩
        have hin : ¬ (((37 : Nat) : κ) < high ∨ low < 1 ∨ min sv.rows sv.cols ≠ 1) := by
          simp only [not_or, not_lt, not_not]
          exact ⟨(hrange high hhigh).2, (hrange low hlow).1, hsize⟩
        rw [if_neg hin, if_neg (not_lt.mpr hfs)]
  · have hmax : scalarOf List.max? sv = none := if_neg hvec
    rw [check, hmax]
    exact iff_of_false (by intro h; nomatch h) (fun h => hvec h.1)

end

/-! ## Rounding and the table -/

section

variable {κ : Type} [Field κ] [LinearOrder κ] [IsStrictOrderedRing κ] [FloorRing κ]

/-- Rounding returns integers as they are. -/
theorem roundAway_intCast (n : Int) : roundAway (n : κ) = n := by
  have htwo : (0 : κ) < ((2 : Nat) : κ) := Nat.cast_pos.mpr (by decide)
  have hpos : 0 < 1 / ((2 : Nat) : κ) := one_div_pos.mpr htwo
  have hlt : 1 / ((2 : Nat) : κ) < 1 := by
    rw [div_lt_one htwo]
    exact Nat.one_lt_cast.mpr (by decide)
  unfold roundAway
  split
  · rw [Int.floor_intCast_add, Int.floor_eq_zero_iff.mpr ⟨hpos.le, hlt⟩, add_zero]
  · rw [Int.ceil_eq_iff]
    exact ⟨by linarith, by linarith⟩

theorem isInteger_iff {x : κ} : IsInteger x ↔ (roundAway x : κ) - x = 0 := by
  constructor
  · intro h
    rw [← h, roundAway_intCast, sub_self]
  · intro h
    rw [IsInteger, ← sub_eq_zero.mp h, Int.floor_intCast]

/-- Rounding stays between 1 and 37. -/
theorem roundAway_range {x : κ} (h : 1 ≤ x ∧ x ≤ ((37 : Nat) : κ)) :
    1 ≤ roundAway x ∧ roundAway x ≤ 37 := by
  have htwo : (0 : κ) < ((2 : Nat) : κ) := Nat.cast_pos.mpr (by decide)
  have hpos : 0 < 1 / ((2 : Nat) : κ) := one_div_pos.mpr htwo
  have hlt : 1 / ((2 : Nat) : κ) < 1 := by
    rw [div_lt_one htwo]
    exact Nat.one_lt_cast.mpr (by decide)
  rw [roundAway, if_pos (zero_le_one.trans h.1)]
  constructor
  · rw [Int.le_floor]
    push_cast
    linarith [h.1]
  · have hbound : x + 1 / ((2 : Nat) : κ) < ((37 + 1 : Int) : κ) := by
      push_cast
      push_cast at h hlt
      linarith [h.2]
    have hfloor := Int.floor_lt.mpr hbound
    omega

/-- The satellites, all of them integers or none, are looked up by their rounded numbers; the call
    warns in the second case. -/
theorem toIntegers_ok {sv : List κ} (hne : sv ≠ [])
    (h : (∀ x ∈ sv, IsInteger x) ∨ ∀ x ∈ sv, ¬ IsInteger x) :
    ∃ w, toIntegers sv = ((sv.map roundAway).map (Int.cast : Int → κ), w)
      ∧ (w = [] ↔ ∀ x ∈ sv, IsInteger x) := by
  obtain ⟨x, hx⟩ := List.exists_mem_of_ne_nil _ hne
  have hdiff : (∀ d ∈ sv.map fun x => (roundAway x : κ) - x, d ≠ 0)
      ↔ ∀ x ∈ sv, ¬ IsInteger x := by
    simp only [List.mem_map, forall_exists_index, and_imp, forall_apply_eq_imp_iff₂, isInteger_iff,
      ne_eq]
  have hmap : (sv.map fun x => (roundAway x : κ) - x) ≠ [] := by simpa using hne
  rcases h with hall | hnone
  · refine ⟨[], ?_, iff_of_true rfl hall⟩
    have hfalse : ¬ ∀ x ∈ sv, ¬ IsInteger x := fun h => h x hx (hall x hx)
    rw [toIntegers, if_neg (fun h => hfalse (hdiff.mp h.2)), List.map_map]
    congr 1
    conv_lhs => rw [← List.map_id sv]
    refine List.map_congr_left fun y hy => ?_
    exact (sub_eq_zero.mp (isInteger_iff.mp (hall y hy))).symm
  · refine ⟨[roundMessage], ?_, iff_of_false (by simp) (fun hall => hnone x hx (hall x hx))⟩
    rw [toIntegers, if_pos ⟨hmap, hdiff.mpr hnone⟩, List.map_map]
    rfl

/-- Integer subscripts look up the table. -/
theorem tapSel_intCast (is : List Int) :
    tapSel (is.map (Int.cast : Int → κ)) = elems tap is := by
  have hsub : ∀ i : Int, subscript (i : κ) = .ok i := by
    intro i
    rw [subscript, Int.floor_intCast, if_pos rfl]
  rw [tapSel, elems]
  induction is with
  | nil => rfl
  | cons i is ih =>
    rw [List.map_cons, List.mapM_cons, List.mapM_cons, ih, hsub]
    rfl

omit [IsStrictOrderedRing κ] in
/-- A number with a fractional part among integers is no subscript. -/
theorem tapSel_error {sv : List κ} {x : κ} (hx : x ∈ sv) (hfrac : ¬ IsInteger x) :
    ∀ taps, tapSel sv ≠ .ok taps := by
  induction sv with
  | nil => exact absurd hx List.not_mem_nil
  | cons y sv ih =>
    intro taps h
    rw [tapSel, List.mapM_cons] at h
    obtain ⟨t, ht, h⟩ := bind_ok_iff.mp h
    obtain ⟨ts, hts, _⟩ := bind_ok_iff.mp h
    rcases List.mem_cons.mp hx with rfl | hx
    · have hsub : subscript x = .error .badIndex := if_neg hfrac
      rw [hsub] at ht
      nomatch ht
    · exact ih hx ts hts

end

/-- The two taps of a PRN in the reference table. -/
theorem tap_of_prn {prn : Int} (h : 1 ≤ prn ∧ prn ≤ 37) :
    ∃ p : Tap × Tap, elem tap prn = .ok ((p.1.pos : Int), (p.2.pos : Int)) := by
  obtain ⟨i, rfl⟩ : ∃ i : Nat, prn = (i : Int) + 1 := ⟨(prn - 1).toNat, by omega⟩
  have hi : i < tap.length := by show i < 37; omega
  rcases tap_in_range _ (List.getElem_mem hi) with ⟨⟨h1, h1'⟩, h2, h2'⟩
  refine ⟨(Tap.ofPos tap[i].1.toNat (by omega), Tap.ofPos tap[i].2.toNat (by omega)), ?_⟩
  rw [elem_ok tap hi, Tap.pos_ofPos, Tap.pos_ofPos, Int.toNat_of_nonneg (by omega),
    Int.toNat_of_nonneg (by omega)]

/-- The tap pairs `ps` are those of the PRNs `is`. -/
def TapsOf (is : List Int) (ps : List (Tap × Tap)) : Prop :=
  List.Forall₂ (fun i p => elem tap i = .ok ((p.1.pos : Int), (p.2.pos : Int))) is ps

theorem exists_tapsOf : ∀ {is : List Int}, (∀ i ∈ is, 1 ≤ i ∧ i ≤ 37) → ∃ ps, TapsOf is ps := by
  intro is
  induction is with
  | nil => exact fun _ => ⟨[], List.Forall₂.nil⟩
  | cons i is ih =>
    intro h
    obtain ⟨p, hp⟩ := tap_of_prn (h i List.mem_cons_self)
    obtain ⟨ps, hps⟩ := ih fun j hj => h j (List.mem_cons_of_mem i hj)
    exact ⟨p :: ps, List.Forall₂.cons hp hps⟩

theorem elems_tapsOf {is : List Int} {ps : List (Tap × Tap)} (h : TapsOf is ps) :
    elems tap is = .ok (ps.map fun p => ((p.1.pos : Int), (p.2.pos : Int))) := by
  induction h with
  | nil => rfl
  | cons hp _ ih =>
    rw [elems_cons, hp, ih]
    rfl

/-! ## The two loops -/

/-- Chip `k`, counted from zero, under each tap pair. -/
def chipColumn (ps : List (Tap × Tap)) (k : Nat) : List Nat :=
  ps.map fun p => (chipBit p.1 p.2 (codeState k)).toNat

@[simp] theorem length_chipColumn (ps : List (Tap × Tap)) (k : Nat) :
    (chipColumn ps k).length = ps.length := List.length_map _

/-- Reading taps of the vector reads bits of the register. -/
theorem elems_toRow (g : BitVec 10) (Ts : List Tap) :
    elems (toRow g) (Ts.map fun T => (T.pos : Int)) = .ok (Ts.map fun T => (sel g T.pos).toNat) := by
  induction Ts with
  | nil => rfl
  | cons T Ts ih =>
    rw [List.map_cons, elems_cons, elem_toRow, ih]
    rfl

/-- After `k` iterations the registers are the hardware's after `k` reads, and `g` has the first
    `k` columns. -/
structure OrigInv (ps : List (Tap × Tap)) (k : Nat) (st : OrigState) : Prop where
  g1 : st.g1 = toRow (codeState k).g1
  q : st.q = toRow (codeState k).g2
  g : Mat.HasCols st.g ps.length ((List.range k).map (chipColumn ps))

/-- The sums modulo two of one iteration are the chips of the hardware. -/
theorem chipColumn_eq (ps : List (Tap × Tap)) (k : Nat) :
    (List.zipWith (fun a b => (a + b) % 2)
        (ps.map fun p => (sel (codeState k).g2 p.1.pos).toNat)
        (ps.map fun p => (sel (codeState k).g2 p.2.pos).toNat)).map
          (fun b => ((sel (codeState k).g1 10).toNat + b) % 2) = chipColumn ps k := by
  rw [List.zipWith_map, List.zipWith_self, List.map_map]
  refine List.map_congr_left fun p _ => ?_
  show ((sel (codeState k).g1 10).toNat + (_ + _) % 2) % 2 = _
  rw [add_toNat_mod, add_toNat_mod, chipBit_eq, Bool.xor_assoc]

theorem origBody_inv {ps : List (Tap × Tap)} {k : Nat} {st : OrigState} (h : OrigInv ps k st) :
    ∃ st', origBody (ps.map fun p => ((p.1.pos : Int), (p.2.pos : Int))) st ((k : Int) + 1) = .ok st'
      ∧ OrigInv ps (k + 1) st' := by
  have hfirst := elems_toRow (codeState k).g2 (ps.map Prod.fst)
  have hsecond := elems_toRow (codeState k).g2 (ps.map Prod.snd)
  have hout : elem (toRow (codeState k).g1) sWeights.length = .ok (sel (codeState k).g1 10).toNat :=
    elem_toRow (codeState k).g1 (Tap.ofPos 10 (by decide))
  rw [List.map_map, List.map_map] at hfirst hsecond
  obtain ⟨g, hgrow, hcols⟩ := Mat.growCol_ok h.g (length_chipColumn ps k)
  rw [List.length_map, List.length_range] at hgrow
  have hnext : posedge (codeState k) readEdge = codeState (k + 1) := posedge_codeState k readEdge
  refine ⟨{ g1 := toRow (codeState (k + 1)).g1, q := toRow (codeState (k + 1)).g2, g := some g },
    ?_, ⟨rfl, rfl, ?_⟩⟩
  · rw [origBody, h.g1, h.q, List.map_map, List.map_map,
      show elems _ (ps.map (Prod.fst ∘ fun p => ((p.1.pos : Int), (p.2.pos : Int)))) = _ from hfirst,
      ok_bind,
      show elems _ (ps.map (Prod.snd ∘ fun p => ((p.1.pos : Int), (p.2.pos : Int)))) = _ from hsecond,
      ok_bind, hout, ok_bind]
    show (Mat.growCol st.g _ ((List.zipWith _ (ps.map fun p => (sel (codeState k).g2 p.1.pos).toNat)
      (ps.map fun p => (sel (codeState k).g2 p.2.pos).toNat)).map _) >>= _) = _
    rw [chipColumn_eq, hgrow, ok_bind, feedback_toRow_g1, ok_bind, feedback_toRow_g2, ok_bind,
      show shiftG1 (codeState k).g1 = (codeState (k + 1)).g1 from congrArg Regs.g1 hnext,
      show shiftG2 (codeState k).g2 = (codeState (k + 1)).g2 from congrArg Regs.g2 hnext]
    rfl
  · rw [List.range_succ, List.map_append]
    exact hcols

/-- **The generator loop.**  It succeeds and leaves 1023 columns of chips. -/
theorem origLoop_ok (ps : List (Tap × Tap)) :
    ∃ st, forLoop (colon 1 numChips) { g1 := onesRow, q := onesRow, g := none }
        (origBody (ps.map fun p => ((p.1.pos : Int), (p.2.pos : Int)))) = .ok st
      ∧ OrigInv ps 1023 st :=
  forLoop_colon _ (OrigInv ps) rfl ⟨toRow_ones.symm, toRow_ones.symm, rfl⟩
    fun _ _ _ h => origBody_inv h

section

variable {κ : Type} [Field κ] [LinearOrder κ] [IsStrictOrderedRing κ] [FloorRing κ]

/-- The chip, counted from zero, that sample `k`, counted from zero, holds. -/
def heldChip (fs : κ) (k : Nat) : Nat := (held fs (k + 1)).toNat - 1

/-- After `k` iterations `gfs` has the held columns of the first `k` samples. -/
structure HoldInv (ps : List (Tap × Tap)) (fs : κ) (k : Nat) (st : HoldState) : Prop where
  index : st.index = k
  gfs : Mat.HasCols st.gfs ps.length ((List.range k).map fun i => chipColumn ps (heldChip fs i))

theorem holdBody_inv {ps : List (Tap × Tap)} {g : Mat Nat}
    (hg : Mat.HasCols (some g) ps.length ((List.range 1023).map (chipColumn ps))) {fs : κ}
    (hfs : 0 < fs) {k : Nat} (hk : (k : Int) < before fs 1023) {st : HoldState}
    (h : HoldInv ps fs k st) :
    ∃ st', holdBody g st (((k + 1 : Nat) : κ) / fs) = .ok st' ∧ HoldInv ps fs (k + 1) st' := by
  have hlow := held_pos hfs (show 1 ≤ k + 1 by omega)
  have hhigh := held_le hfs (k := k + 1) (L := 1023) (by push_cast; omega)
  have hidx : held fs (k + 1) = ((heldChip fs k : Nat) : Int) + 1 := by
    unfold heldChip
    omega
  have hcol : g.col (held fs (k + 1)) = .ok (chipColumn ps (heldChip fs k)) := by
    obtain ⟨_, _, hread⟩ := hg
    have hread := hread (heldChip fs k) (by rw [List.length_map, List.length_range]; omega)
    rw [List.getElem_map, List.getElem_range, ← hidx] at hread
    exact hread
  -- in exact arithmetic the trap for a column past the last one never closes
  have htrap : ¬ (numChips : Int) < ⌈((k + 1 : Nat) : κ) / fs⌉ := by
    show ¬ (numChips : Int) < held fs (k + 1)
    rw [show (numChips : Int) = 1023 from rfl]
    omega
  obtain ⟨gfs, hgrow, hcols⟩ := Mat.growCol_ok h.gfs (length_chipColumn ps (heldChip fs k))
  rw [List.length_map, List.length_range] at hgrow
  refine ⟨{ index := k + 1, gfs := some gfs }, ?_, ⟨rfl, ?_⟩⟩
  · rw [holdBody, h.index, if_neg htrap]
    show (g.col (held fs (k + 1)) >>= _) = _
    rw [hcol, ok_bind]
    show (Mat.growCol st.gfs (((k + 1 : Nat) : Int)) _ >>= _) = _
    rw [Nat.cast_succ, hgrow]
    rfl
  · rw [List.range_succ, List.map_append]
    exact hcols

/-- **The resampling loop.**  It succeeds and leaves `⌊1023 * fs⌋` columns. -/
theorem holdLoop_ok {ps : List (Tap × Tap)} {g : Mat Nat}
    (hg : Mat.HasCols (some g) ps.length ((List.range 1023).map (chipColumn ps))) {fs : κ}
    (hfs : 0 < fs) :
    ∃ st, forLoop (colonStep (1 / fs) (1 / fs) ((numChips : Nat) : κ)) { index := 0, gfs := none }
        (holdBody g) = .ok st ∧ HoldInv ps fs (before fs 1023).toNat st := by
  have hspec := forLoop_spec (holdBody g) (HoldInv ps fs)
    (colonStep (1 / fs) (1 / fs) ((numChips : Nat) : κ)) { index := 0, gfs := none } 0 ⟨rfl, rfl⟩ ?_
  · rw [colonStep_hold hfs, List.length_map, List.length_range, Nat.zero_add] at hspec
    rw [colonStep_hold hfs]
    exact hspec
  · intro k hk st hst
    simp only [colonStep_hold hfs, List.length_map, List.length_range] at hk
    simp only [colonStep_hold hfs, List.getElem_map, List.getElem_range]
    rw [Nat.zero_add] at hst ⊢
    have hk' : (k : Int) < before fs 1023 := by
      have hnum : before fs numChips = before fs 1023 := rfl
      omega
    exact holdBody_inv hg hfs hk' hst

/-- Without resampling the columns are those of a hold with one sample for each chip. -/
theorem heldChip_one (k : Nat) : heldChip (1 : κ) k = k := by
  rw [heldChip, held, div_one, Int.ceil_natCast, Int.toNat_natCast, Nat.add_sub_cancel]

theorem before_one (L : Nat) : before (1 : κ) L = L := by
  rw [before, mul_one, Int.floor_natCast]

/-! ## Which calls return, and what -/

/-- An accepted call returns the held columns under the taps of the rounded numbers. -/
theorem generate_ok {sv : Mat κ} {fs : κ} (h : Accepts sv fs)
    {ps : List (Tap × Tap)} (hps : TapsOf ((elements sv).map roundAway) ps) :
    ∃ g, generate sv fs = .ok (g, (toIntegers (elements sv)).2)
      ∧ Mat.HasCols (some g) ps.length ((List.range (before fs 1023).toNat).map
          fun k => chipColumn ps (heldChip fs k)) := by
  have hcheck : check sv fs = .ok () :=
    check_ok_iff.mpr ⟨h.vector, h.nonempty, h.range, h.rate⟩
  obtain ⟨w, hint, _⟩ := toIntegers_ok h.nonempty h.integers
  obtain ⟨st, hloop, hinv⟩ := origLoop_ok ps
  obtain ⟨g, hg⟩ : ∃ g, st.g = some g := by
    cases hst : st.g with
    | none =>
      have hcols := hinv.g
      rw [hst] at hcols
      have hnil : (List.range 1023).map (chipColumn ps) = [] := hcols
      rw [List.map_eq_nil_iff, List.range_eq_nil] at hnil
      exact absurd hnil (by decide)
    | some g => exact ⟨g, rfl⟩
  have hcols := hinv.g
  rw [hg] at hcols
  -- the statements up to the resampling
  have hrun : generate sv fs = (if fs ≠ 1 then (do
      let hold ← ofArray (forLoop (colonStep (1 / fs) (1 / fs)
        ((numChips : Nat) : κ)) { index := 0, gfs := none } (holdBody g))
      let gfs ← defined "gfs" hold.gfs
      return (gfs, w)) else return (g, w)) := by
    unfold generate
    rw [hcheck, run_ok, hint]
    dsimp only
    rw [tapSel_intCast, elems_tapsOf hps, ofArray_ok, run_ok, hloop, ofArray_ok, run_ok, hg,
      defined_some, run_ok]
  rw [hrun, hint]
  by_cases hone : fs = 1
  · rw [if_neg (not_not.mpr hone), hone]
    refine ⟨g, rfl, ?_⟩
    rw [before_one, Int.toNat_natCast]
    simp only [heldChip_one]
    exact hcols
  · rw [if_pos hone]
    have hfs : 0 < fs := zero_lt_one.trans_le h.rate
    obtain ⟨hold, hholdLoop, hhold⟩ := holdLoop_ok hcols hfs
    have hgfs := hhold.gfs
    rw [hholdLoop]
    cases hst : hold.gfs with
    | none =>
      -- the loop has an iteration, the rate being positive
      rw [hst] at hgfs
      have hnil : (List.range (before fs 1023).toNat).map
        (fun i => chipColumn ps (heldChip fs i)) = [] := hgfs
      rw [List.map_eq_nil_iff, List.range_eq_nil] at hnil
      have hzero := before_lt h.rate 0
      have hmono : before fs 1 ≤ before fs 1023 := by
        unfold before
        exact Int.floor_le_floor (mul_le_mul_of_nonneg_right (Nat.cast_le.mpr (by decide)) hfs.le)
      rw [before_zero] at hzero
      have hzero : 0 < before fs 1 := hzero
      omega
    | some gfs =>
      rw [hst] at hgfs
      refine ⟨gfs, ?_, hgfs⟩
      rw [ofArray_ok, run_ok, hst, defined_some, run_ok]
      rfl

/-- A call that returns passed the checks and found every subscript. -/
theorem accepts_of_generate {sv : Mat κ} {fs : κ} {out : Mat Nat × List String}
    (h : generate sv fs = .ok out) : Accepts sv fs := by
  have hcheck : check sv fs = .ok () := by
    cases hc : check sv fs with
    | ok u => rfl
    | error e =>
      unfold generate at h
      rw [hc] at h
      nomatch h
  obtain ⟨hvec, hne, hrange, hrate⟩ := check_ok_iff.mp hcheck
  refine ⟨hvec, hne, hrange, hrate, ?_⟩
  by_contra hmixed
  rw [not_or] at hmixed
  obtain ⟨hall, hnone⟩ := hmixed
  push Not at hall hnone
  obtain ⟨x, hx, hfrac⟩ := hall
  obtain ⟨y, hy, hint⟩ := hnone
  -- an integer among the numbers keeps the rounding from happening
  have hkeep : toIntegers (elements sv) = (elements sv, []) := by
    refine if_neg fun hif => hif.2 _ (List.mem_map_of_mem hy) (isInteger_iff.mp hint)
  unfold generate at h
  rw [hcheck, hkeep] at h
  have h : (ofArray (tapSel (elements sv)) >>= _) = .ok out := h
  cases htap : tapSel (elements sv) with
  | ok taps => exact tapSel_error hx hfrac taps htap
  | error e =>
    rw [htap] at h
    nomatch h

end

/-- A tap pair outputs the chips of its PRN. -/
theorem isChip_of_tap {prn : Int} {p : Tap × Tap}
    (h : elem tap prn = .ok ((p.1.pos : Int), (p.2.pos : Int))) (k : Nat) :
    IsChip prn k (chipBit p.1 p.2 (codeState k)) := by
  have hinput : ∀ T : Tap, BitVec.ofInt 4 (T.pos : Int) = T.input := by
    intro T
    rw [BitVec.ofInt_natCast]
    exact BitVec.ofNat_toNat _ _
  refine ⟨_, h, fun r₀ => ?_⟩
  rw [hinput, hinput, chip_tap, chipBit_eq, run_reset_reads]

/-- A PRN has one chip at each position. -/
theorem isChip_unique {prn : Int} {k : Nat} {c c' : Bool} (h : IsChip prn k c)
    (h' : IsChip prn k c') : c = c' := by
  obtain ⟨T, hT, hc⟩ := h
  obtain ⟨T', hT', hc'⟩ := h'
  rw [hT] at hT'
  cases hT'
  have heq := (hc ⟨ones, ones⟩).symm.trans (hc' ⟨ones, ones⟩)
  injection heq

section

variable {κ : Type} [Field κ] [LinearOrder κ] [IsStrictOrderedRing κ] [FloorRing κ]

/-- The taps of the satellites of an accepted call. -/
theorem exists_tapsOf_accepts {sv : Mat κ} {fs : κ} (h : Accepts sv fs) :
    ∃ ps, TapsOf ((elements sv).map roundAway) ps := by
  refine exists_tapsOf fun i hi => ?_
  obtain ⟨x, hx, rfl⟩ := List.mem_map.mp hi
  exact roundAway_range (h.range x hx)

/-- The held columns are the samples of the satellites. -/
theorem samples_of_hasCols {sv : List κ} {fs : κ} (hfs : 0 ≤ fs) {ps : List (Tap × Tap)}
    (hps : TapsOf (sv.map roundAway) ps) {g : Mat Nat}
    (hg : Mat.HasCols (some g) ps.length ((List.range (before fs 1023).toNat).map
      fun k => chipColumn ps (heldChip fs k))) : Samples sv fs g := by
  obtain ⟨hrows, hcols, hread⟩ := hg
  rw [List.length_map, List.length_range] at hcols
  have hlen : sv.length = ps.length := by
    rw [← List.length_map (f := roundAway)]
    exact List.Forall₂.length_eq hps
  have hpos : 0 ≤ before fs 1023 := Int.floor_nonneg.mpr (mul_nonneg (Nat.cast_nonneg _) hfs)
  refine ⟨hrows.trans hlen.symm, ?_, ?_⟩
  · show (g.cols : Int) = before fs 1023
    omega
  · intro r hr k hk
    have hr' : r < ps.length := hlen ▸ hr
    have hk' : k < ((List.range (before fs 1023).toNat).map
        fun k => chipColumn ps (heldChip fs k)).length := by
      rw [List.length_map, List.length_range]
      omega
    have htap := (List.forall₂_iff_get.mp hps).2 r (by rwa [List.length_map]) hr'
    simp only [List.get_eq_getElem, List.getElem_map] at htap
    refine ⟨_, isChip_of_tap htap (heldChip fs k), ?_⟩
    have hcol := hread k hk'
    rw [List.getElem_map, List.getElem_range] at hcol
    rw [Mat.elem_of_col hcol (by omega), elem_ok _ (by rwa [length_chipColumn])]
    simp [chipColumn]

/-- **Which calls of the reference generator return, and what**, in exact arithmetic.  Exactly the
    accepted ones do; the matrix then has one row for each satellite and in it the samples of its
    code at the rate `fs`, and there is a warning exactly when no number was an integer. -/
theorem cacodeOriginal_ok_iff (sv : Mat κ) (fs : Option κ) :
    ((∃ out, cacodeOriginal sv fs = .ok out) ↔ Accepts sv (fs.getD 1))
    ∧ ∀ g w, cacodeOriginal sv fs = .ok (g, w) →
        Samples (elements sv) (fs.getD 1) g ∧ (w = [] ↔ ∀ x ∈ elements sv, IsInteger x) := by
  have hok : Accepts sv (fs.getD 1) → ∃ g w, cacodeOriginal sv fs = .ok (g, w)
      ∧ Samples (elements sv) (fs.getD 1) g ∧ (w = [] ↔ ∀ x ∈ elements sv, IsInteger x) := by
    intro h
    obtain ⟨ps, hps⟩ := exists_tapsOf_accepts h
    obtain ⟨g, hrun, hcols⟩ := generate_ok h hps
    obtain ⟨w, hint, hwarn⟩ := toIntegers_ok h.nonempty h.integers
    rw [hint] at hrun
    exact ⟨g, w, hrun, samples_of_hasCols (zero_le_one.trans h.rate) hps hcols, hwarn⟩
  refine ⟨⟨?_, ?_⟩, ?_⟩
  · rintro ⟨out, hrun⟩
    exact accepts_of_generate hrun
  · intro h
    obtain ⟨g, w, hrun, _⟩ := hok h
    exact ⟨_, hrun⟩
  · intro g w hrun
    obtain ⟨g', w', hrun', hspec⟩ := hok (accepts_of_generate hrun)
    rw [hrun] at hrun'
    cases hrun'
    exact hspec

/-! ## A resampled code and the code itself -/

/-- The samples of chip `c + 1` hold chip `c + 1`. -/
theorem heldChip_eq {fs : κ} (hfs : 0 < fs) {k c : Nat} (hlo : before fs c < k)
    (hhi : (k : Int) ≤ before fs (c + 1)) {j : Nat} (hj : k = j + 1) : heldChip fs j = c := by
  have hheld := (held_eq_iff hfs).mpr ⟨hlo, hhi⟩
  subst hj
  rw [heldChip, hheld]
  omega

/-- **A resampled code is the code with every chip held**, in exact arithmetic.  With the same
    arguments and any rate `fs` of at least one, chip `c + 1` of the code stands in the columns
    after `⌊c * fs⌋` and up to `⌊(c + 1) * fs⌋`, one at least, `⌊fs⌋` or `⌈fs⌉` in number; there are
    no other columns. -/
theorem cacodeOriginal_upsamples {sv : Mat κ} {fs : κ} (h : Accepts sv fs) :
    ∃ g g₁ w, cacodeOriginal sv (some fs) = .ok (g, w) ∧ cacodeOriginal sv none = .ok (g₁, w)
      ∧ g₁.cols = 1023 ∧ before fs 0 = 0 ∧ before fs 1023 = g.cols
      ∧ ∀ c < 1023, before fs c < before fs (c + 1)
        ∧ ⌊fs⌋ ≤ before fs (c + 1) - before fs c ∧ before fs (c + 1) - before fs c ≤ ⌈fs⌉
        ∧ ∀ k : Nat, before fs c < k → (k : Int) ≤ before fs (c + 1) →
            g.col k = g₁.col ((c : Int) + 1) := by
  have hfs : 0 < fs := zero_lt_one.trans_le h.rate
  obtain ⟨ps, hps⟩ := exists_tapsOf_accepts h
  have h₁ : Accepts sv 1 := ⟨h.vector, h.nonempty, h.range, le_refl 1, h.integers⟩
  obtain ⟨g, hrun, hrows, hcols, hread⟩ := generate_ok h hps
  obtain ⟨g₁, hrun₁, hrows₁, hcols₁, hread₁⟩ := generate_ok h₁ hps
  rw [List.length_map, List.length_range] at hcols hcols₁
  rw [before_one, Int.toNat_natCast] at hcols₁
  have hlast : before fs 1023 = g.cols := by
    have hpos : 0 ≤ before fs 1023 := Int.floor_nonneg.mpr (mul_nonneg (Nat.cast_nonneg _) hfs.le)
    omega
  refine ⟨g, g₁, _, hrun, hrun₁, hcols₁, before_zero fs, hlast, fun c hc =>
    ⟨before_lt h.rate c, floor_le_width fs c, width_le_ceil fs c, fun k hlo hhi => ?_⟩⟩
  have hstart : 0 ≤ before fs c := Int.floor_nonneg.mpr (mul_nonneg (Nat.cast_nonneg _) hfs.le)
  have hend : before fs (c + 1) ≤ before fs 1023 :=
    Int.floor_le_floor (mul_le_mul_of_nonneg_right (Nat.cast_le.mpr hc) hfs.le)
  obtain ⟨j, rfl⟩ : ∃ j, k = j + 1 := ⟨k - 1, by omega⟩
  have hcol := hread j (by rw [List.length_map, List.length_range]; omega)
  have hcol₁ := hread₁ c (by
    rw [List.length_map, List.length_range, before_one, Int.toNat_natCast]
    exact hc)
  rw [List.getElem_map, List.getElem_range, heldChip_eq hfs hlo hhi rfl] at hcol
  rw [List.getElem_map, List.getElem_range, heldChip_one] at hcol₁
  rw [hcol₁, Nat.cast_succ, hcol]

end

/-- A row vector of one PRN. -/
def single (x : ℚ) : Mat ℚ := { rows := 1, cols := 1, entry := fun _ _ => x }

/-- The samples for each chip at 5 MHz. -/
def fiveMHz : ℚ := 5 / 1.023

theorem isInteger_six : IsInteger (6 : ℚ) := congrArg Int.cast (Int.floor_natCast (R := ℚ) 6)

theorem accepts_single : Accepts (single 6) fiveMHz where
  vector := Or.inl rfl
  nonempty := by decide
  range := by
    intro x hx
    obtain rfl : x = 6 := List.mem_singleton.mp hx
    norm_num
  rate := by norm_num [fiveMHz]
  integers := by
    refine Or.inl fun x hx => ?_
    obtain rfl : x = 6 := List.mem_singleton.mp hx
    exact isInteger_six

/-- The call for PRN 6 at 5 MHz returns, without a warning, 5000 samples of its code. -/
theorem cacodeOriginal_ok_iff_prn6 :
    ∃ g, cacodeOriginal (single 6) (some fiveMHz) = .ok (g, []) ∧ g.rows = 1 ∧ g.cols = 5000
      ∧ Samples [6] fiveMHz g := by
  obtain ⟨hreturns, hwhat⟩ := cacodeOriginal_ok_iff (single 6) (some fiveMHz)
  obtain ⟨⟨g, w⟩, hrun⟩ := hreturns.mpr accepts_single
  obtain ⟨hsamples, hwarn⟩ := hwhat g w hrun
  obtain rfl : w = [] := hwarn.mpr fun x hx => by
    obtain rfl : x = 6 := List.mem_singleton.mp hx
    exact isInteger_six
  have hcols : (g.cols : Int) = 5000 := by
    have hchips : numChips = 1023 := rfl
    refine hsamples.cols.trans (Int.floor_eq_iff.mpr ?_)
    norm_num [fiveMHz, hchips]
  exact ⟨g, hrun, hsamples.rows, by omega, hsamples⟩

/-- The code of PRN 6 at 5 MHz, as in the help text of the function. -/
theorem cacodeOriginal_upsamples_prn6 :
    ∃ g g₁ w, cacodeOriginal (single 6) (some fiveMHz) = .ok (g, w)
      ∧ cacodeOriginal (single 6) none = .ok (g₁, w)
      ∧ g₁.cols = 1023 ∧ before fiveMHz 0 = 0 ∧ before fiveMHz 1023 = g.cols
      ∧ ∀ c < 1023, before fiveMHz c < before fiveMHz (c + 1)
        ∧ ⌊fiveMHz⌋ ≤ before fiveMHz (c + 1) - before fiveMHz c
        ∧ before fiveMHz (c + 1) - before fiveMHz c ≤ ⌈fiveMHz⌉
        ∧ ∀ k : Nat, before fiveMHz c < k → (k : Int) ≤ before fiveMHz (c + 1) →
            g.col k = g₁.col ((c : Int) + 1) :=
  cacodeOriginal_upsamples accepts_single

end GpsReceiver.CaCode
