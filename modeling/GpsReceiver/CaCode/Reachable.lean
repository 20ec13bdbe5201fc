/-
  The reachable states of `CACODE`.

  1. **Data** — an arbitrary sequence of edges, with resets and read pauses anywhere in it.
  2. **Abstraction** — `readsSinceReset`, one counter: cleared by a reset, advanced by a read.
  3. **Invariant** — `codeState k`, the registers `k` reads after a reset.  `posedge_codeState` is
     what one edge does to it; `run_codeState` is the run lemma; `run_of_reset` drops whatever
     came before the first reset, the power-up contents included.
  4. **Specification** — `reachable_state_law`: the counter determines the registers, they are
     never zero, they repeat exactly every 1023 reads, and any 1023 reads meet every non-zero
     word once in each register.  The last two parts are `MaxLength` facts about the feedback
     polynomials.
-/
import GpsReceiver.CaCode.Cacode

namespace GpsReceiver.CaCode

open GpsReceiver.Lib

/-! ## Counting reads -/

/-- The effect of one edge on the number of reads since the last reset. -/
def countEdge (k : Nat) (e : Edge) : Nat :=
  if e.rst then 0 else if e.rd then k + 1 else k

/-- The number of edges with `rst = 0` and `rd = 1` since the last edge with `rst = 1`. -/
def readsSinceReset (es : List Edge) : Nat := es.foldl countEdge 0

theorem countEdge_reset {e : Edge} (h : e.rst = true) (k : Nat) : countEdge k e = 0 := if_pos h

theorem countEdge_eq_add {e : Edge} (h : e.rst = false) (k : Nat) :
    countEdge k e = k + e.rd.toNat := by
  cases hd : e.rd <;> simp [countEdge, h, hd]

/-- What precedes a reset does not count. -/
theorem readsSinceReset_append {e : Edge} (h : e.rst = true) (pre post : List Edge) :
    readsSinceReset (pre ++ e :: post) = readsSinceReset post := by
  rw [readsSinceReset, List.foldl_append, List.foldl_cons, countEdge_reset h]
  rfl

/-! ## The state after a given number of reads -/

/-- The registers `k` reads after a reset. -/
def codeState (k : Nat) : Regs := { g1 := shiftG1^[k] ones, g2 := shiftG2^[k] ones }

@[simp] theorem codeState_g1 (k : Nat) : (codeState k).g1 = g1Register.state k := rfl
@[simp] theorem codeState_g2 (k : Nat) : (codeState k).g2 = g2Register.state k := rfl

theorem posedge_reset {e : Edge} (h : e.rst = true) (r : Regs) : posedge r e = codeState 0 :=
  if_pos h

/-- **Step.**  An edge moves the state exactly as it moves the counter. -/
theorem posedge_codeState (k : Nat) (e : Edge) :
    posedge (codeState k) e = codeState (countEdge k e) := by
  cases hrst : e.rst with
  | true => rw [posedge_reset hrst, countEdge_reset hrst]
  | false =>
    cases hrd : e.rd with
    | true =>
      simp only [posedge, countEdge, hrst, hrd, if_true, Bool.false_eq_true, if_false, codeState,
        Function.iterate_succ_apply']
    | false =>
      -- a pause moves neither the registers nor the counter
      simp only [posedge, countEdge, hrst, hrd, Bool.false_eq_true, if_false]

/-- **Run.**  From the state after `k` reads, a run ends in the state the counter says. -/
theorem run_codeState (k : Nat) (es : List Edge) :
    run (codeState k) es = codeState (es.foldl countEdge k) := by
  induction es generalizing k with
  | nil => rfl
  | cons e es ih => rw [run_cons, posedge_codeState, ih, List.foldl_cons]

/-- After a reset anywhere in the run, the power-up contents no longer matter. -/
theorem run_of_reset {es : List Edge} (h : ∃ e ∈ es, e.rst = true) (r : Regs) :
    run r es = codeState (readsSinceReset es) := by
  obtain ⟨e, hmem, hrst⟩ := h
  obtain ⟨pre, post, rfl⟩ := List.append_of_mem hmem
  rw [run_append, run_cons, posedge_reset hrst, run_codeState, readsSinceReset_append hrst]
  rfl

theorem foldl_countEdge_replicate (k j : Nat) :
    (List.replicate k readEdge).foldl countEdge j = j + k := by
  induction k generalizing j with
  | zero => rfl
  | succ k ih =>
    rw [List.replicate_succ, List.foldl_cons, ih, countEdge_eq_add rfl]
    show j + 1 + k = j + (k + 1)
    omega

/-- A reset followed by `k` reads. -/
theorem run_reset_reads (r₀ : Regs) (k : Nat) :
    run r₀ (resetEdge :: List.replicate k readEdge) = codeState k := by
  rw [run_cons, posedge_reset rfl, run_codeState, foldl_countEdge_replicate, Nat.zero_add]

/-! ## What is read along a run -/

/-- The values of `f` on the registers just before each reading edge. -/
def readTrace {α : Type} (f : Regs → α) : Regs → List Edge → List α
  | _, [] => []
  | r, e :: es =>
    if e.rst = false ∧ e.rd = true then f r :: readTrace f (posedge r e) es
    else readTrace f (posedge r e) es

/-- Without a reset, the reads of a segment see consecutive states, however they are paused. -/
theorem readTrace_codeState {α : Type} (f : Regs → α) (es : List Edge)
    (hq : ∀ e ∈ es, e.rst = false) (k : Nat) :
    readTrace f (codeState k) es
      = (List.range (es.countP (·.rd))).map (fun i => f (codeState (i + k))) := by
  induction es generalizing k with
  | nil => rfl
  | cons e es ih =>
    have hrst := hq e List.mem_cons_self
    have htail := ih (fun e' he' => hq e' (List.mem_cons_of_mem e he'))
    rw [readTrace, posedge_codeState, countEdge_eq_add hrst, htail, List.countP_cons]
    cases hrd : e.rd with
    | true =>
      simp only [hrst, and_self, if_true, Bool.toNat_true, List.range_succ_eq_map, List.map_cons,
        List.map_map, Nat.zero_add]
      congr 1
      refine List.map_congr_left fun i _ => ?_
      show f (codeState (i + (k + 1))) = f (codeState (i + 1 + k))
      rw [Nat.add_right_comm, Nat.add_assoc]
    | false => simp

/-! ## The reachable states -/

/-- **Reachable-state law.**  After any sequence of edges that contains a reset, with `k` reads
    since the last one, the registers are the seed shifted `k` times; they are non-zero; either
    register repeats exactly when the read counts agree modulo 1023; and the 1023 reads of any
    later segment without a reset, however paused, see every non-zero word exactly once in each
    register. -/
theorem reachable_state_law (r₀ : Regs) (es : List Edge) (hreset : ∃ e ∈ es, e.rst = true) :
    run r₀ es = { g1 := shiftG1^[readsSinceReset es] ones,
                  g2 := shiftG2^[readsSinceReset es] ones }
    ∧ (run r₀ es).g1 ≠ 0#10 ∧ (run r₀ es).g2 ≠ 0#10
    ∧ (∀ (r₁ : Regs) (es' : List Edge), (∃ e ∈ es', e.rst = true) →
        (run r₀ es = run r₁ es' ↔ readsSinceReset es ≡ readsSinceReset es' [MOD 1023])
        ∧ ((run r₀ es).g1 = (run r₁ es').g1 ↔
            readsSinceReset es ≡ readsSinceReset es' [MOD 1023])
        ∧ ((run r₀ es).g2 = (run r₁ es').g2 ↔
            readsSinceReset es ≡ readsSinceReset es' [MOD 1023]))
    ∧ (∀ seg : List Edge, (∀ e ∈ seg, e.rst = false) → seg.countP (·.rd) = 1023 →
        ∀ v : BitVec 10, v ≠ 0#10 →
          (readTrace Regs.g1 (run r₀ es) seg).count v = 1
          ∧ (readTrace Regs.g2 (run r₀ es) seg).count v = 1) := by
  have hrun := run_of_reset hreset r₀
  refine ⟨hrun, ?_, ?_, ?_, ?_⟩
  · rw [hrun]
    exact g1Register.state_ne_zero _
  · rw [hrun]
    exact g2Register.state_ne_zero _
  · intro r₁ es' hreset'
    rw [hrun, run_of_reset hreset' r₁]
    have hg1 := g1Register.state_eq_iff (i := readsSinceReset es) (j := readsSinceReset es')
    have hg2 := g2Register.state_eq_iff (i := readsSinceReset es) (j := readsSinceReset es')
    refine ⟨⟨fun h => ?_, fun h => ?_⟩, hg1, hg2⟩
    · exact hg1.mp (congrArg Regs.g1 h)
    · exact Regs.ext (hg1.mpr h) (hg2.mpr h)
  · intro seg hq hcount v hv
    rw [hrun, readTrace_codeState _ _ hq, readTrace_codeState _ _ hq, hcount]
    exact ⟨g1Register.count_run _ hv, g2Register.count_run _ hv⟩

/-- A power-up with cleared registers, a paused read before the reset, one read after it. -/
theorem reachable_state_law_paused :
    run ⟨0#10, 0#10⟩ [readEdge, resetEdge, readEdge, ⟨false, false⟩]
        = { g1 := shiftG1^[1] ones, g2 := shiftG2^[1] ones }
      ∧ (readTrace Regs.g1 (run ⟨0#10, 0#10⟩ [readEdge, resetEdge, readEdge, ⟨false, false⟩])
          (List.replicate 1023 readEdge)).count 1#10 = 1 := by
  have h := reachable_state_law ⟨0#10, 0#10⟩ [readEdge, resetEdge, readEdge, ⟨false, false⟩]
    ⟨resetEdge, by decide, rfl⟩
  refine ⟨h.1, (h.2.2.2.2 (List.replicate 1023 readEdge) ?_ ?_ 1#10 (by decide)).1⟩
  · intro e he
    rw [List.eq_of_mem_replicate he]
    rfl
  · rw [List.countP_replicate]
    rfl

end GpsReceiver.CaCode
