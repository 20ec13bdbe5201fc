/-
  The arbitrator of the bus interconnect (`altera_merlin_arbitrator` and `altera_merlin_arb_adder`),
  for any number of requesters.

  1. **Adder** — `arbAdder`: up to eight bits it is written out as a ripple of full adders, above it
     is `+`.  Both add (`arbAdder_eq`).
  2. **Grant** — `grant`: two copies of the requests, and the sum of their complement and the top
     priority, have a one in common at the first request from the top priority on.
  3. **Top priority** — `posedge`: it moves past the requester granted.  With `PIPELINE` it waits
     when nobody requests, without it moves on, and can be made to stay at the grant.
  4. **Results** — for two requesters at least, and in runs of which every input is `Legal`: saving
     an empty grant would leave the top priority zero for ever.  `arbitrator_grants`: the top
     priority is one bit in every reachable state, and the grant is the winner of the round-robin
     order.  `arbitrator_fair`: who keeps requesting is granted before the top priority has gone
     round once.
-/
import GpsReceiver.Lib.FirstBit
import GpsReceiver.Lib.Transition

namespace GpsReceiver.Interconnect

open Lib Lib.RoundRobin Lib.FirstBit

/-! ## `altera_merlin_arb_adder` -/

variable {w n : Nat}

/-- The carries of the full adders. -/
def cout (a b : BitVec w) : Nat → Bool
  | 0 => a.getLsbD 0 && b.getLsbD 0
  | i + 1 => (a.getLsbD (i + 1) && b.getLsbD (i + 1))
      || (cout a b i && (a.getLsbD (i + 1) ^^ b.getLsbD (i + 1)))

/-- The sum bits of the full adders. -/
def fullAdderBit (a b : BitVec w) : Nat → Bool
  | 0 => a.getLsbD 0 ^^ b.getLsbD 0
  | i + 1 => (a.getLsbD (i + 1) ^^ b.getLsbD (i + 1)) ^^ cout a b i

/-- The sum for widths up to eight. -/
def fullAdder (a b : BitVec w) : BitVec w :=
  (BitVec.ofBoolListLE ((List.range w).map (fullAdderBit a b))).setWidth w

/-- The sum has one bit more, which is dropped. -/
def carryChain (a b : BitVec w) : BitVec w :=
  (a.setWidth (w + 1) + b.setWidth (w + 1)).setWidth w

/-- `altera_merlin_arb_adder`. -/
def arbAdder (a b : BitVec w) : BitVec w := if w ≤ 8 then fullAdder a b else carryChain a b

/-- The carries of the full adders are those of an addition. -/
theorem cout_eq (a b : BitVec w) : ∀ i, cout a b i = BitVec.carry (i + 1) a b false
  | 0 => by simp [cout, BitVec.carry_succ]
  | i + 1 => by
    rw [cout, cout_eq a b i, BitVec.carry_succ (i + 1)]
    cases a.getLsbD (i + 1) <;> cases b.getLsbD (i + 1) <;> simp

/-- So the full adders add. -/
theorem fullAdder_eq (a b : BitVec w) : fullAdder a b = a + b := by
  refine BitVec.eq_of_getLsbD_eq fun i hi => ?_
  have hbit : (fullAdder a b).getLsbD i = fullAdderBit a b i := by
    rw [fullAdder, BitVec.getLsbD_setWidth, decide_eq_true hi, Bool.true_and,
      BitVec.getLsbD_ofBoolListLE, List.getD_eq_getElem?_getD, List.getElem?_map,
      List.getElem?_range hi]
    rfl
  rw [hbit, BitVec.getLsbD_add hi]
  cases i with
  | zero => simp [fullAdderBit]
  | succ i => rw [fullAdderBit, cout_eq, Bool.xor_assoc]

/-- And the sum with the additional bit dropped is the sum of the width. -/
theorem carryChain_eq (a b : BitVec w) : carryChain a b = a + b := by
  have hle : w ≤ w + 1 := Nat.le_succ w
  rw [carryChain, BitVec.setWidth_add _ _ hle, BitVec.setWidth_setWidth_of_le _ hle,
    BitVec.setWidth_setWidth_of_le _ hle, BitVec.setWidth_eq, BitVec.setWidth_eq]

/-- The two adders agree. -/
theorem arbAdder_eq (a b : BitVec w) : arbAdder a b = a + b := by
  rw [arbAdder, fullAdder_eq, carryChain_eq, ite_self]

/-! ## `altera_merlin_arbitrator` -/

/-- The parameter `SCHEME`. -/
inductive Scheme
  | roundRobin | fixedPriority | noArb
  deriving DecidableEq

/-- The register of the arbitrator. -/
structure Arbitrator (n : Nat) where
  topPriorityReg : BitVec n
  deriving DecidableEq

/-- What the arbitrator sees at a clock edge. -/
structure ArbInput (n : Nat) where
  request : BitVec n
  incrementTopPriority : Bool
  saveTopPriority : Bool

namespace Arbitrator

def reset : Arbitrator n := { topPriorityReg := 1#n }

/-- The top priority in use: the register counts in the round-robin scheme only, and only among
    several requesters. -/
def topPriority (scheme : Scheme) (a : Arbitrator n) : BitVec n :=
  if scheme = .roundRobin ∧ 1 < n then a.topPriorityReg else 1#n

/-- The requesters granted, one at most unless there is no arbitration. -/
def grant (scheme : Scheme) (a : Arbitrator n) (request : BitVec n) : BitVec n :=
  let result := arbAdder (~~~request ++ ~~~request) (0#n ++ a.topPriority scheme)
  if scheme = .noArb then request
  else
    let grantDoubleVector := (request ++ request) &&& result
    grantDoubleVector.extractLsb' 0 n ||| grantDoubleVector.extractLsb' n n

/-- The register after a clock edge. -/
def posedge (scheme : Scheme) (pipeline : Bool) (a : Arbitrator n) (i : ArbInput n) :
    Arbitrator n where
  topPriorityReg :=
    let grant := a.grant scheme i.request
    if pipeline then
      if i.incrementTopPriority then
        if i.request ≠ 0#n then grant.rotateLeft 1 else a.topPriorityReg
      else a.topPriorityReg
    else if i.incrementTopPriority then
      if i.request ≠ 0#n then grant.rotateLeft 1 else a.topPriorityReg.rotateLeft 1
    else if i.saveTopPriority then grant
    else a.topPriorityReg

end Arbitrator

/-- A grant is saved only when there is one; the pipelined arbitrator never saves. -/
def ArbInput.Legal (pipeline : Bool) (i : ArbInput n) : Prop :=
  pipeline = true ∨ (i.saveTopPriority = true → i.request ≠ 0#n)

instance (pipeline : Bool) (i : ArbInput n) : Decidable (i.Legal pipeline) :=
  inferInstanceAs (Decidable (_ ∨ (_ → _)))

namespace Arbitrator

/-- A clock edge with inputs the surrounding multiplexers can give. -/
def step (pipeline : Bool) (a : Arbitrator n) (i : ArbInput n) : Option (Arbitrator n) :=
  if i.Legal pipeline then some (a.posedge .roundRobin pipeline i) else none

/-! ## The grant -/

/-- Requester `j` requests. -/
abbrev Requests (request : BitVec n) (j : Nat) : Prop := request.getLsbD j = true

/-- The top priority of the round-robin scheme is requester `p`. -/
structure TopAt (a : Arbitrator n) (p : Nat) : Prop where
  lt : p < n
  reg : a.topPriorityReg = BitVec.twoPow n p

/-- A request that is not zero is somebody's. -/
theorem requests_of_ne_zero {request : BitVec n} (h : request ≠ 0#n) :
    ∃ k < n, Requests request k := by
  by_contra hnone
  refine h (BitVec.eq_of_getLsbD_eq fun i hi => ?_)
  rw [BitVec.getLsbD_zero]
  exact Bool.eq_false_iff.mpr fun hreq => hnone ⟨i, hi, hreq⟩

theorem not_double (x : BitVec n) : ~~~x ++ ~~~x = ~~~(x ++ x) := BitVec.not_append.symm

/-- The top priority is added to the lower copy of the requests. -/
theorem zero_append_twoPow {p : Nat} (hp : p < n) :
    0#n ++ BitVec.twoPow n p = BitVec.twoPow (n + n) p := by
  refine BitVec.eq_of_getLsbD_eq fun i hi => ?_
  rw [BitVec.getLsbD_append, BitVec.getLsbD_twoPow, BitVec.getLsbD_twoPow, BitVec.getLsbD_zero,
    decide_eq_true (show p < n + n by omega), Bool.true_and]
  split
  · rw [decide_eq_true hp, Bool.true_and]
  · exact (decide_eq_false (by omega)).symm

/-- The grant is the search that goes round. -/
theorem grant_eq {scheme : Scheme} (hscheme : scheme ≠ .noArb) {a : Arbitrator n} {p : Nat}
    (hp : p < n) (htop : a.topPriority scheme = BitVec.twoPow n p) (request : BitVec n) :
    a.grant scheme request = circular request p := by
  unfold grant
  rw [if_neg hscheme, arbAdder_eq, htop, zero_append_twoPow hp, not_double]
  rfl

/-- Among several requesters the register is the top priority. -/
theorem topPriority_roundRobin (hn : 1 < n) (a : Arbitrator n) :
    a.topPriority .roundRobin = a.topPriorityReg :=
  if_pos ⟨rfl, hn⟩

/-- The winner is granted, and nobody else. -/
theorem TopAt.grant_of_wins {a : Arbitrator n} {p j : Nat} (hn : 1 < n) (h : a.TopAt p)
    {request : BitVec n} (hj : Wins n p (Requests request) j) :
    a.grant .roundRobin request = BitVec.twoPow n j := by
  rw [grant_eq (by decide) h.lt ((topPriority_roundRobin hn a).trans h.reg),
    circular_eq request h.lt hj]

/-- Nobody is granted who did not request. -/
theorem TopAt.grant_zero {a : Arbitrator n} {p : Nat} (hn : 1 < n) (h : a.TopAt p) :
    a.grant .roundRobin 0#n = 0#n := by
  rw [grant_eq (by decide) h.lt ((topPriority_roundRobin hn a).trans h.reg), circular_zero h.lt]

/-- Every request has a winner. -/
theorem TopAt.exists_wins {a : Arbitrator n} {p : Nat} (h : a.TopAt p) {request : BitVec n}
    (hreq : request ≠ 0#n) : ∃ j, Wins n p (Requests request) j := by
  obtain ⟨k, hk, hreqk⟩ := requests_of_ne_zero hreq
  exact RoundRobin.exists_wins h.lt hk hreqk

/-! ## The top priority -/

/-- Rotating the top priority passes it to the next requester, from the last to the first. -/
theorem rotateLeft_twoPow (hn : 1 < n) {j : Nat} (hj : j < n) :
    (BitVec.twoPow n j).rotateLeft 1 = BitVec.twoPow n ((j + 1) % n) := by
  refine BitVec.eq_of_getLsbD_eq fun i hi => ?_
  rw [BitVec.getLsbD_rotateLeft_of_le hn, BitVec.getLsbD_twoPow, BitVec.getLsbD_twoPow,
    BitVec.getLsbD_twoPow, decide_eq_true hj, decide_eq_true (Nat.mod_lt (j + 1) (by omega)),
    decide_eq_true hi, Bool.true_and, Bool.true_and, Bool.true_and]
  rcases Nat.lt_or_ge (j + 1) n with hlt | hge
  · rw [Nat.mod_eq_of_lt hlt]
    cases i with
    | zero =>
      show decide (j = n - 1 + 0) = decide (j + 1 = 0)
      rw [decide_eq_decide]
      omega
    | succ i =>
      show decide (j = i + 1 - 1) = decide (j + 1 = i + 1)
      rw [decide_eq_decide]
      omega
  · rw [show j + 1 = n by omega, Nat.mod_self]
    cases i with
    | zero =>
      show decide (j = n - 1 + 0) = decide (0 = 0)
      rw [decide_eq_decide]
      omega
    | succ i =>
      show decide (j = i + 1 - 1) = decide (0 = i + 1)
      rw [decide_eq_decide]
      omega

variable {pipeline : Bool} {a : Arbitrator n} {p : Nat} {i : ArbInput n}

/-- The position advances past the winner. -/
theorem TopAt.increment (hn : 1 < n) (h : a.TopAt p) (hinc : i.incrementTopPriority = true) {j : Nat}
    (hj : Wins n p (Requests i.request) j) :
    (a.posedge .roundRobin pipeline i).TopAt ((j + 1) % n) := by
  have hne : i.request ≠ 0#n := by
    intro hzero
    have hreq := hj.requests
    rw [Requests, hzero, BitVec.getLsbD_zero] at hreq
    exact Bool.false_ne_true hreq
  refine ⟨Nat.mod_lt _ (by omega), ?_⟩
  show (if pipeline then _ else _) = _
  rw [if_pos hinc, if_pos hne, if_pos hinc, if_pos hne, ite_self, h.grant_of_wins hn hj,
    rotateLeft_twoPow hn hj.lt]

/-- Nobody requests. -/
theorem TopAt.idle (hn : 1 < n) (h : a.TopAt p) (hlegal : i.Legal pipeline)
    (hzero : i.request = 0#n) : ∃ q, (a.posedge .roundRobin pipeline i).TopAt q := by
  have hsave : pipeline = true ∨ i.saveTopPriority = false := hlegal.imp_right fun h' =>
    Bool.eq_false_iff.mpr fun hsave => h' hsave hzero
  have hrotate : a.topPriorityReg.rotateLeft 1 = BitVec.twoPow n ((p + 1) % n) := by
    rw [h.reg, rotateLeft_twoPow hn h.lt]
  have hnot : ¬ i.request ≠ 0#n := fun hne => hne hzero
  by_cases hmove : pipeline = false ∧ i.incrementTopPriority = true
  · refine ⟨(p + 1) % n, Nat.mod_lt _ (by omega), ?_⟩
    show (if pipeline then _ else _) = _
    rw [hmove.1, if_neg Bool.false_ne_true, if_pos hmove.2, if_neg hnot, hrotate]
  · refine ⟨p, h.lt, ?_⟩
    show (if pipeline then _ else _) = _
    rw [if_neg hnot, ite_self]
    rcases hsave with hpipe | hsave
    · rw [if_pos hpipe, h.reg]
    · rw [hsave, if_neg Bool.false_ne_true]
      cases hpipe : pipeline with
      | true => rw [if_pos rfl, h.reg]
      | false =>
        rw [if_neg Bool.false_ne_true, if_neg fun hinc => hmove ⟨hpipe, hinc⟩, h.reg]

/-- The position does not advance. -/
theorem TopAt.hold (hn : 1 < n) (h : a.TopAt p) (hinc : i.incrementTopPriority = false) {j : Nat}
    (hj : Wins n p (Requests i.request) j) :
    (a.posedge .roundRobin pipeline i).TopAt p ∨ (a.posedge .roundRobin pipeline i).TopAt j := by
  have hoff : ¬ i.incrementTopPriority = true := by rw [hinc]; exact Bool.false_ne_true
  by_cases hsave : pipeline = false ∧ i.saveTopPriority = true
  · refine Or.inr ⟨hj.lt, ?_⟩
    show (if pipeline then _ else _) = _
    rw [hsave.1, if_neg Bool.false_ne_true, if_neg hoff, if_pos hsave.2, h.grant_of_wins hn hj]
  · refine Or.inl ⟨h.lt, ?_⟩
    show (if pipeline then _ else _) = _
    rw [if_neg hoff, if_neg hoff]
    cases hpipe : pipeline with
    | true => rw [if_pos rfl, h.reg]
    | false => rw [if_neg Bool.false_ne_true, if_neg fun hsv => hsave ⟨hpipe, hsv⟩, h.reg]

/-- With the pipeline the position waits. -/
theorem posedge_pipeline (h : i.incrementTopPriority = false ∨ i.request = 0#n) :
    a.posedge .roundRobin true i = a := by
  obtain ⟨r⟩ := a
  refine congrArg Arbitrator.mk ?_
  rcases h with hinc | hzero
  · rw [if_pos rfl, hinc, if_neg Bool.false_ne_true]
  · have hnot : ¬ i.request ≠ 0#n := fun hne => hne hzero
    rw [if_pos rfl, if_neg hnot, ite_self]

/-- The reset gives the top priority to the first requester. -/
theorem topAt_reset (hn : 1 < n) : (reset : Arbitrator n).TopAt 0 :=
  ⟨by omega, BitVec.twoPow_zero.symm⟩

/-- **Step.** The top priority stays one bit. -/
theorem TopAt.step (hn : 1 < n) (h : a.TopAt p) {a' : Arbitrator n}
    (hstep : a.step pipeline i = some a') : ∃ q, a'.TopAt q := by
  obtain ⟨hlegal, heq⟩ := Option.ite_none_right_eq_some.mp hstep
  obtain rfl := Option.some.inj heq
  by_cases hzero : i.request = 0#n
  · exact h.idle hn hlegal hzero
  · obtain ⟨j, hj⟩ := h.exists_wins hzero
    cases hinc : i.incrementTopPriority with
    | true => exact ⟨_, h.increment hn hinc hj⟩
    | false => exact (h.hold hn hinc hj).elim (fun hp => ⟨_, hp⟩) fun hq => ⟨_, hq⟩

/-- The states that legal inputs lead to from the reset. -/
abbrev Reachable (pipeline : Bool) (a : Arbitrator n) : Prop :=
  Transition.Reachable (Arbitrator.step pipeline) reset a

/-- **Run.** It is one bit in every reachable state. -/
theorem Reachable.topAt (hn : 1 < n) (h : Reachable pipeline a) : ∃ p, a.TopAt p :=
  h.invariant (P := fun a => ∃ p, a.TopAt p) ⟨0, topAt_reset hn⟩
    fun _ _ _ _ ⟨_, htop⟩ hstep => htop.step hn hstep

/-! ## Results -/

/-- **Grants.**  Among at least two requesters, in every state that inputs which save no empty grant
    lead to, the top priority is one requester's, nobody is granted when nobody requests, and
    otherwise the winner of the round-robin order is. -/
theorem arbitrator_grants (hn : 1 < n) (h : Reachable pipeline a) :
    ∃ p < n, a.topPriorityReg = BitVec.twoPow n p ∧ a.grant .roundRobin 0#n = 0#n
      ∧ ∀ request, request ≠ 0#n → ∃ j, Wins n p (Requests request) j
        ∧ a.grant .roundRobin request = BitVec.twoPow n j := by
  obtain ⟨p, htop⟩ := h.topAt hn
  refine ⟨p, htop.lt, htop.reg, htop.grant_zero hn, fun request hne => ?_⟩
  obtain ⟨j, hj⟩ := htop.exists_wins hne
  exact ⟨j, hj, htop.grant_of_wins hn hj⟩

/-- Ten requesters, after requester 7 was granted. -/
theorem arbitrator_grants_past_seven :
    ∃ p < 10, BitVec.twoPow 10 8 = BitVec.twoPow 10 p
      ∧ ({ topPriorityReg := BitVec.twoPow 10 8 } : Arbitrator 10).grant .roundRobin 0#10 = 0#10
      ∧ ∀ request, request ≠ 0#10 → ∃ j, Wins 10 p (Requests request) j
        ∧ ({ topPriorityReg := BitVec.twoPow 10 8 } : Arbitrator 10).grant .roundRobin request
          = BitVec.twoPow 10 j :=
  arbitrator_grants (by decide) (Transition.Reachable.start.next
    { request := 0x280#10, incrementTopPriority := true, saveTopPriority := false } (by decide) :
      Reachable true _)

/-- Fairness from a known position, by induction on the run: each increment that grants somebody
    else brings the position nearer to `k`, and no other step takes it further away. -/
theorem TopAt.fair (hn : 1 < n) {k : Nat} (hk : k < n) :
    ∀ {is : List (ArbInput n)} {a : Arbitrator n} {p : Nat} {a' : Arbitrator n}, a.TopAt p →
      Transition.run (Arbitrator.step pipeline) a is = some a' →
      (∀ i ∈ is, Requests i.request k) →
      ahead n p k < is.countP (fun i => i.incrementTopPriority) →
      ∃ before i after b, is = before ++ i :: after
        ∧ Transition.run (Arbitrator.step pipeline) a before = some b
        ∧ i.incrementTopPriority = true ∧ b.grant .roundRobin i.request = BitVec.twoPow n k
  | [], _, _, _, _, _, _, hcount => absurd hcount (Nat.not_lt_zero _)
  | i :: is, a, p, a', htop, hrun, hreq, hcount => by
    obtain ⟨t, hstep, hrest⟩ := Transition.run_cons_iff.mp hrun
    have hreqk := hreq i List.mem_cons_self
    have hne : i.request ≠ 0#n := by
      intro hzero
      rw [Requests, hzero, BitVec.getLsbD_zero] at hreqk
      exact Bool.false_ne_true hreqk
    obtain ⟨j, hj⟩ := htop.exists_wins hne
    have ht : t = a.posedge .roundRobin pipeline i :=
      (Option.some.inj (Option.ite_none_right_eq_some.mp hstep).2).symm
    have hlater : ∀ q, t.TopAt q → ahead n q k < is.countP (fun i => i.incrementTopPriority) →
        ∃ before i' after b, i :: is = before ++ i' :: after
          ∧ Transition.run (Arbitrator.step pipeline) a before = some b
          ∧ i'.incrementTopPriority = true ∧ b.grant .roundRobin i'.request = BitVec.twoPow n k := by
      intro q hq hlt
      obtain ⟨before, i', after, b, hsplit, hrun', hinc, hgrant⟩ :=
        TopAt.fair hn hk hq hrest (fun i' hi' => hreq i' (List.mem_cons_of_mem i hi')) hlt
      exact ⟨i :: before, i', after, b, by rw [hsplit, List.cons_append],
        Transition.run_cons_iff.mpr ⟨t, hstep, hrun'⟩, hinc, hgrant⟩
    rw [List.countP_cons] at hcount
    cases hinc : i.incrementTopPriority with
    | true =>
      by_cases hkj : k = j
      · exact ⟨[], i, is, a, rfl, rfl, hinc, hkj ▸ htop.grant_of_wins hn hj⟩
      · refine hlater _ (ht ▸ htop.increment hn hinc hj) ?_
        have hnext := hj.ahead_next htop.lt hk hreqk hkj
        rw [hinc, if_pos rfl] at hcount
        omega
    | false =>
      rw [hinc, if_neg Bool.false_ne_true, Nat.add_zero] at hcount
      have hhold : (a.posedge .roundRobin pipeline i).TopAt p
          ∨ (a.posedge .roundRobin pipeline i).TopAt j := htop.hold hn hinc hj
      rcases hhold with hp | hq
      · exact hlater _ (ht ▸ hp) hcount
      · exact hlater _ (ht ▸ hq) (Nat.lt_of_le_of_lt (hj.ahead_le htop.lt hk hreqk) hcount)

/-- **Fairness.**  Among at least two requesters, who requests throughout a run in which no empty
    grant is saved and the top priority is incremented `n` times is granted at one of these times,
    whatever the others do. -/
theorem arbitrator_fair (hn : 1 < n) (h : Reachable pipeline a) {k : Nat} (hk : k < n)
    {is : List (ArbInput n)} {a' : Arbitrator n}
    (hrun : Transition.run (Arbitrator.step pipeline) a is = some a')
    (hreq : ∀ i ∈ is, Requests i.request k)
    (hcount : n ≤ is.countP (fun i => i.incrementTopPriority)) :
    ∃ before i after b, is = before ++ i :: after
      ∧ Transition.run (Arbitrator.step pipeline) a before = some b
      ∧ i.incrementTopPriority = true ∧ b.grant .roundRobin i.request = BitVec.twoPow n k := by
  obtain ⟨p, htop⟩ := h.topAt hn
  exact htop.fair hn hk hrun hreq (Nat.lt_of_lt_of_le (ahead_lt (by omega)) hcount)

/-- Three requesters that never stop. -/
theorem arbitrator_fair_three :
    ∃ before i after b,
      List.replicate 3 { request := 7#3, incrementTopPriority := true, saveTopPriority := false }
          = before ++ i :: after
        ∧ Transition.run (Arbitrator.step true) reset before = some b
        ∧ i.incrementTopPriority = true ∧ b.grant .roundRobin i.request = BitVec.twoPow 3 2 :=
  arbitrator_fair (by decide) .start (k := 2) (by decide) rfl
    (fun i hi => by rw [List.eq_of_mem_replicate hi]; rfl) (by decide)

end Arbitrator

end GpsReceiver.Interconnect
