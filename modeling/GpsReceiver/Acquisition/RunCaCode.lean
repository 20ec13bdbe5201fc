/-
  The BPSK loops of `run_CA_code.m`.

  1. **Program** — a code is one column and is modulated in place: at each element a zero becomes
     one and a one becomes minus one.  The loops for `PRN_22` and `PRN_27` differ in the names of
     their variables only.
  2. **Correctness** — `modulates_chips`: the loop exits after one iteration for each chip, and then
     every chip is a sign.  The invariant `Modulated` splits the code into the part done and the
     rest.
  3. **Agreement** — `modulates_row`: where `BPSK.m` maps two codes, its rows are what the loops
     make of them.
-/
import GpsReceiver.Acquisition.BpskLaws
import GpsReceiver.Lib.While

namespace GpsReceiver.Acquisition.RunCaCode

open GpsReceiver.Acquisition (bpsk codes signs bpsk_codes)
open GpsReceiver.Lib (sgn sgn_eq_one_sub)
open GpsReceiver.Lib.Matlab
open GpsReceiver.Lib.While

/-! ## The program -/

/-- The variables of the loop. -/
structure Vars where
  prn : List Int
  n : Int

/-- `n <= length(PRN)`. -/
def cond (s : Vars) : Prop := s.n ≤ s.prn.length

/-- The replacement of one chip. -/
def replace (prn : List Int) (n chip : Int) : Except Error (List Int) :=
  if chip = 0 then assign prn n 1
  else if chip = 1 then assign prn n (-1)
  else .ok prn

/-- One iteration; the element is displayed at its end. -/
def body (s : Vars) : Except Error Vars := do
  let chip ← elem s.prn s.n
  let prn ← replace s.prn s.n chip
  let _ ← elem prn s.n
  pure { prn := prn, n := s.n + 1 }

/-- The loop exits after `n` iterations with the code `prn'`. -/
def Modulates (prn : List Int) (n : Nat) (prn' : List Int) : Prop :=
  ∃ m : Int, ExitsAt (Guard cond) (orError body) (.ok { prn := prn, n := 1 }) n
    ∧ (orError body)^[n] (.ok { prn := prn, n := 1 }) = .ok { prn := prn', n := m }

/-! ## Correctness -/

/-- Bits as the program has them. -/
def chips (bits : List Bool) : List Int := bits.map fun b => (b.toNat : Int)

/-- After `k` iterations the first `k` chips are signs. -/
def Modulated (bits : List Bool) (k : Nat) (s : Except Error Vars) : Prop :=
  ∃ done rest, bits = done ++ rest ∧ done.length = k
    ∧ s = .ok { prn := done.map sgn ++ chips rest, n := (k : Int) + 1 }

theorem replace_ok (u v : List Int) (b : Bool) :
    replace (u ++ (b.toNat : Int) :: v) ((u.length : Int) + 1) (b.toNat : Int)
      = .ok (u ++ sgn b :: v) := by
  cases b with
  | false => exact assign_append u v 0 1
  | true => exact assign_append u v 1 (-1)

/-- An iteration makes the next chip a sign. -/
theorem body_ok (u v : List Int) (b : Bool) :
    body { prn := u ++ (b.toNat : Int) :: v, n := (u.length : Int) + 1 }
      = .ok { prn := u ++ sgn b :: v, n := (u.length : Int) + 1 + 1 } := by
  unfold body
  rw [elem_append, ok_bind, replace_ok, ok_bind, elem_append, ok_bind]
  rfl

theorem modulated_step {bits : List Bool} {k : Nat} (hk : k < bits.length) {s : Except Error Vars}
    (h : Modulated bits k s) : Guard cond s ∧ Modulated bits (k + 1) (orError body s) := by
  obtain ⟨done, rest, rfl, rfl, rfl⟩ := h
  cases rest with
  | nil =>
    rw [List.append_nil] at hk
    exact absurd hk (Nat.lt_irrefl _)
  | cons b rest =>
    have hdone : (done.map sgn).length = done.length := List.length_map _
    have hbody := body_ok (done.map sgn) (chips rest) b
    rw [hdone] at hbody
    refine ⟨?_, done ++ [b], rest, by simp, by simp, ?_⟩
    · show (done.length : Int) + 1 ≤ ((done.map sgn ++ chips (b :: rest)).length : Int)
      rw [List.length_append, hdone, chips, List.length_map, List.length_cons]
      omega
    · rw [orError_ok]
      refine hbody.trans ?_
      rw [List.map_append, List.append_assoc]
      rfl

/-- With as many iterations as chips nothing is left. -/
theorem eq_of_modulated {bits : List Bool} {s : Except Error Vars}
    (h : Modulated bits bits.length s) :
    s = .ok { prn := bits.map sgn, n := (bits.length : Int) + 1 } := by
  obtain ⟨done, rest, rfl, hlen, rfl⟩ := h
  have hrest : rest = [] := by
    rw [List.length_append] at hlen
    exact List.eq_nil_of_length_eq_zero (by omega)
  subst hrest
  rw [List.append_nil, chips, List.map_nil, List.append_nil]

/-- **Every code is modulated chip by chip**, with one iteration for each chip. -/
theorem modulates_chips (bits : List Bool) :
    Modulates (chips bits) bits.length (bits.map sgn) := by
  have h0 : Modulated bits 0 (.ok { prn := chips bits, n := 1 }) := ⟨[], bits, rfl, rfl, rfl⟩
  have hstop : ∀ s, Modulated bits bits.length s → ¬ Guard cond s := by
    intro s hs hcond
    rw [eq_of_modulated hs] at hcond
    have hcond : (bits.length : Int) + 1 ≤ ((bits.map sgn).length : Int) := hcond
    rw [List.length_map] at hcond
    omega
  obtain ⟨hexit, hend⟩ :=
    exitsAt_of_inv (Modulated bits) h0 (fun k hk s hs => modulated_step hk hs) hstop
  exact ⟨_, hexit, eq_of_modulated hend⟩

/-! ## Agreement -/

/-- **The two programs agree on two codes.**  The loops make of the codes the rows that `BPSK.m`
    returns. -/
theorem modulates_row {n : Nat} (hn : 2 ≤ n) (c : Fin 2 → Fin n → Bool) (i : Fin 2) :
    ∃ B row, bpsk (codes c) = .ok B ∧ B.row ((i : Int) + 1) = .ok row
      ∧ Modulates (chips (List.ofFn (c i))) n row := by
  refine ⟨signs c, (List.ofFn (c i)).map sgn, bpsk_codes rfl hn c, ?_, ?_⟩
  · rw [(signs c).row_ok i.isLt, List.map_ofFn]
    refine congrArg (fun f => Except.ok (List.ofFn f)) ?_
    funext j
    exact (sgn_eq_one_sub (c i j)).symm
  · have hloop := modulates_chips (List.ofFn (c i))
    rwa [List.length_ofFn] at hloop

end GpsReceiver.Acquisition.RunCaCode
