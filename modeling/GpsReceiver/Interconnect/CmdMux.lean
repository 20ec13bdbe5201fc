/-
  The command multiplexer of the slaves that both masters reach
  (`nios_cpu_mm_interconnect_0_cmd_mux_002`), for any number `n` of sinks (`NUM_INPUTS`, there 2).

  1. **Program** — `CmdMux`: the registers; `posedge`: one clock edge.  The grant is a register, so
     that it takes effect one cycle after the arbitration.
  2. **Invariant** — `Inv m g p`: `g` is granted, nobody or one sink, and one while a packet is in
     progress; the arbitrator is at `p`, which is past the sink granted.
  3. **Wires** — what the multiplexer does in a cycle, by the sink granted.
  4. **Traffic** — `Traffic`: the multiplexer with what its sinks have handed over and its source has
     passed on.
  5. **Results** — `mux_packets`: the source passes on the beats of the sinks, packet by packet.
     `mux_fair`: while a sink waits, every other sink completes at most one packet, counting those
     that end without holding the lock.  A sink that ends all its packets with the lock keeps the
     grant, and the one that waits may wait for ever.
-/
import GpsReceiver.Interconnect.Arbitrator
import GpsReceiver.Interconnect.Packet
import GpsReceiver.Lib.Wires
import Mathlib.Data.List.Chain

namespace GpsReceiver.Interconnect

open Lib Lib.RoundRobin Lib.Wires Arbitrator

/-! ## The program -/

variable {n : Nat}

/-- What the multiplexer sees during a cycle. -/
structure MuxInput (n : Nat) where
  sink : Fin n → Beat
  srcReady : Bool

/-- The registers of the multiplexer. -/
structure CmdMux (n : Nat) where
  savedGrant : BitVec n
  packetInProgress : Bool
  locked : BitVec n
  shareCount : BitVec 1
  shareCountZeroFlag : Bool
  arb : Arbitrator n
  deriving DecidableEq

namespace CmdMux

def reset : CmdMux n where
  savedGrant := 0
  packetInProgress := false
  locked := 0
  shareCount := 0
  shareCountZeroFlag := true
  arb := .reset

/-- The sinks that have a beat, one bit each. -/
def valid (sink : Fin n → Beat) : BitVec n := bundle fun k => (sink k).valid
def lock (sink : Fin n → Beat) : BitVec n := bundle fun k => (sink k).data.transLock

/-- `src_valid`: the sink granted has a beat. -/
def srcValid (m : CmdMux n) (sink : Fin n → Beat) : Bool := m.savedGrant &&& valid sink != 0

/-- `src_payload`: the payloads, masked by the grant and joined by `or`. -/
def srcPayload (m : CmdMux n) (sink : Fin n → Beat) : BitVec 106 :=
  sumOfProducts (fun k => (sink k).payload) m.savedGrant

/-- The beat at the source. -/
def src (m : CmdMux n) (sink : Fin n → Beat) : Beat :=
  .ofPayload (m.srcValid sink) (m.srcPayload sink)

/-- `sink_ready`: only the sink granted is taken from. -/
def sinkReady (m : CmdMux n) (srcReady : Bool) (k : Fin n) : Bool :=
  srcReady && m.savedGrant.getLsbD k

/-- `last_cycle`: the beat that goes through ends a packet, and the sink granted holds no lock. -/
def lastCycle (m : CmdMux n) (i : MuxInput n) : Bool :=
  m.srcValid i.sink && i.srcReady && (m.src i.sink).endofpacket && !(lock i.sink &&& m.savedGrant != 0)

/-- `request`: a sink that was granted with a lock keeps requesting. -/
def request (m : CmdMux n) (sink : Fin n → Beat) : BitVec n := valid sink ||| m.locked

/-- `next_grant`. -/
def nextGrant (m : CmdMux n) (sink : Fin n → Beat) : BitVec n :=
  m.arb.grant .roundRobin (m.request sink)

/-- `update_grant`: between packets while nothing is valid, and at the end of a packet. -/
def updateGrant (m : CmdMux n) (i : MuxInput n) : Bool :=
  (!m.packetInProgress && !m.srcValid i.sink) || (m.lastCycle i && m.shareCountZeroFlag)

/-- Every sink has one share, for which the counter is loaded with zero. -/
def share (_ : Fin n) : BitVec 1 := 0

def nextGrantShare (m : CmdMux n) (sink : Fin n → Beat) : BitVec 1 :=
  sumOfProducts share (m.nextGrant sink)

/-- `p1_share_count`. -/
def p1ShareCount (m : CmdMux n) : BitVec 1 := if m.shareCountZeroFlag then 0 else m.shareCount - 1

def arbInput (m : CmdMux n) (i : MuxInput n) : ArbInput n where
  request := m.request i.sink
  incrementTopPriority := m.updateGrant i
  saveTopPriority := m.srcValid i.sink

/-- One clock edge. -/
def posedge (m : CmdMux n) (i : MuxInput n) : CmdMux n where
  savedGrant := if m.updateGrant i then m.nextGrant i.sink else m.savedGrant
  packetInProgress :=
    if m.lastCycle i then false else if m.srcValid i.sink then true else m.packetInProgress
  locked := m.nextGrant i.sink &&& lock i.sink
  shareCount :=
    if m.updateGrant i then m.nextGrantShare i.sink
    else if m.lastCycle i then m.p1ShareCount else m.shareCount
  shareCountZeroFlag :=
    if m.updateGrant i then m.nextGrantShare i.sink == 0
    else if m.lastCycle i then m.p1ShareCount == 0 else m.shareCountZeroFlag
  arb := m.arb.posedge .roundRobin true (m.arbInput i)

/-! ## The invariant -/

/-- Sink `g` is granted, and the arbitrator is at `p`. -/
structure Inv (m : CmdMux n) (g : Option (Fin n)) (p : Nat) : Prop where
  grant : m.savedGrant = grantOf g
  busy : m.packetInProgress = true → g ≠ none
  flag : m.shareCountZeroFlag = true
  top : m.arb.TopAt p
  past : ∀ j, g = some j → p = (j + 1) % n

/-- The reset grants nobody. -/
theorem inv_reset (hn : 1 < n) : Inv (reset : CmdMux n) none 0 where
  grant := rfl
  busy := fun h => absurd h Bool.false_ne_true
  flag := rfl
  top := topAt_reset hn
  past := fun _ h => absurd h.symm (Option.some_ne_none _)

/-! ## Wires -/

variable {m : CmdMux n} {g : Option (Fin n)} {p : Nat} {i : MuxInput n} {sink : Fin n → Beat}

/-- The source is valid with the sink granted. -/
theorem Inv.srcValid_eq (h : Inv m g p) : m.srcValid sink = g.any fun k => (sink k).valid := by
  rw [srcValid, h.grant, grantOf_and]
  simp only [valid, bundle_bit]

theorem Inv.sinkReady_eq (h : Inv m g p) (ready : Bool) (k : Fin n) :
    m.sinkReady ready k = (ready && decide (g = some k)) := by
  rw [sinkReady, h.grant, grantOf_bit]

/-- The source shows the beat of the sink granted. -/
theorem Inv.src_eq {k : Fin n} (h : Inv m (some k) p) : m.src sink = sink k := by
  rw [src, srcPayload, h.grant, sumOfProducts_some, Beat.ofPayload_payload, h.srcValid_eq]
  rfl

/-- Without a grant the source shows nothing. -/
theorem Inv.src_none (h : Inv m none p) : m.src sink = .ofPayload false 0 := by
  rw [src, srcPayload, h.grant, sumOfProducts_none, h.srcValid_eq]
  rfl

theorem Inv.lastCycle_none (h : Inv m none p) : m.lastCycle i = false := by
  rw [lastCycle, h.srcValid_eq]
  rfl

/-- The last cycle of the sink granted: its beat goes through, and closes. -/
theorem Inv.lastCycle_some {k : Fin n} (h : Inv m (some k) p) :
    m.lastCycle i = ((i.sink k).valid && i.srcReady && (i.sink k).closes) := by
  have hlock : (lock i.sink &&& m.savedGrant != 0) = (i.sink k).data.transLock := by
    rw [BitVec.and_comm, h.grant, grantOf_and]
    simp only [lock, bundle_bit]
    rfl
  rw [lastCycle, h.src_eq, hlock, h.srcValid_eq, Bool.and_assoc]
  rfl

/-- With one share each, the grant may change at the end of every packet. -/
theorem Inv.updateGrant_eq (h : Inv m g p) :
    m.updateGrant i = ((!m.packetInProgress && !m.srcValid i.sink) || m.lastCycle i) := by
  rw [updateGrant, h.flag, Bool.and_true]

theorem nextGrantShare_eq (o : Option (Fin n)) (h : m.nextGrant i.sink = grantOf o) :
    m.nextGrantShare i.sink = 0 := by
  rw [nextGrantShare, h]
  cases o with
  | none => exact sumOfProducts_none _
  | some k => exact sumOfProducts_some _ k

/-! ## The edge -/

/-- What an edge does to the grant. -/
inductive Turns (m : CmdMux n) (i : MuxInput n) (g : Option (Fin n)) (p : Nat) :
    Option (Fin n) → Nat → Prop
  | stays (keeps : m.updateGrant i = false) : Turns m i g p g p
  | frees (update : m.updateGrant i = true) (idle : m.request i.sink = 0#n) : Turns m i g p none p
  | wins (update : m.updateGrant i = true) (j : Fin n)
      (first : Wins n p (Requests (m.request i.sink)) j) : Turns m i g p (some j) ((j + 1) % n)

/-- An edge without an update keeps the grant. -/
theorem Inv.posedge_stays (h : Inv m g p) (hkeep : m.updateGrant i = false) :
    Inv (m.posedge i) g p := by
  have hbusy : (!m.packetInProgress && !m.srcValid i.sink) = false ∧ m.lastCycle i = false := by
    rwa [h.updateGrant_eq, Bool.or_eq_false_iff] at hkeep
  refine ⟨?_, fun hpip hg => ?_, ?_, ?_, h.past⟩
  · show (if m.updateGrant i then _ else _ : BitVec n) = _
    rw [hkeep, if_neg Bool.false_ne_true, h.grant]
  · -- nobody is granted, so nothing is valid and nothing was in progress
    subst hg
    have hpip : (if m.lastCycle i then false
      else if m.srcValid i.sink then true else m.packetInProgress) = true := hpip
    rw [hbusy.2, if_neg Bool.false_ne_true, h.srcValid_eq, Option.any_none,
      if_neg Bool.false_ne_true] at hpip
    exact h.busy hpip rfl
  · show (if m.updateGrant i then _ else if m.lastCycle i then _ else _ : Bool) = true
    rw [hkeep, if_neg Bool.false_ne_true, hbusy.2, if_neg Bool.false_ne_true, h.flag]
  · have harb : (m.posedge i).arb = m.arb := posedge_pipeline (Or.inl hkeep)
    exact harb ▸ h.top

/-- One with an update passes it to the sink that the arbitration chose. -/
theorem Inv.posedge_updates (h : Inv m g p) (hupdate : m.updateGrant i = true)
    {g' : Option (Fin n)} {p' : Nat} (hnext : m.nextGrant i.sink = grantOf g')
    (htop : (m.posedge i).arb.TopAt p') (hpast : ∀ j, g' = some j → p' = (j + 1) % n) :
    Inv (m.posedge i) g' p' := by
  refine ⟨?_, fun hpip => absurd hpip ?_, ?_, htop, hpast⟩
  · show (if m.updateGrant i then _ else _ : BitVec n) = _
    rw [if_pos hupdate, hnext]
  · show ¬ (if m.lastCycle i then false
      else if m.srcValid i.sink then true else m.packetInProgress) = true
    rw [h.updateGrant_eq, Bool.or_eq_true, Bool.and_eq_true, Bool.not_eq_true',
      Bool.not_eq_true'] at hupdate
    rcases hupdate with ⟨hpip, hsrc⟩ | hlast
    · rw [hsrc, hpip, if_neg Bool.false_ne_true, ite_self]
      exact Bool.false_ne_true
    · rw [if_pos hlast]
      exact Bool.false_ne_true
  · show (if m.updateGrant i then _ else _ : Bool) = true
    rw [if_pos hupdate, nextGrantShare_eq g' hnext]
    rfl

/-- **Step.** The edge does one of the three things, and the invariant holds again. -/
theorem Inv.posedge (hn : 1 < n) (h : Inv m g p) :
    ∃ g' p', Turns m i g p g' p' ∧ Inv (m.posedge i) g' p' := by
  cases hupdate : m.updateGrant i with
  | false => exact ⟨g, p, .stays hupdate, h.posedge_stays hupdate⟩
  | true =>
    by_cases hidle : m.request i.sink = 0#n
    · refine ⟨none, p, .frees hupdate hidle, h.posedge_updates hupdate ?_ ?_ ?_⟩
      · rw [nextGrant, hidle, h.top.grant_zero hn]
        rfl
      · have harb : (m.posedge i).arb = m.arb := posedge_pipeline (Or.inr hidle)
        exact harb ▸ h.top
      · exact fun _ hj => absurd hj.symm (Option.some_ne_none _)
    · obtain ⟨j, hj⟩ := h.top.exists_wins hidle
      refine ⟨some ⟨j, hj.lt⟩, (j + 1) % n, .wins hupdate ⟨j, hj.lt⟩ hj,
        h.posedge_updates hupdate ?_ ?_ ?_⟩
      · exact h.top.grant_of_wins hn hj
      · exact h.top.increment hn hupdate hj
      · rintro _ ⟨⟩
        rfl

/-- A packet that does not end keeps the grant. -/
theorem Inv.keeps (h : Inv m g p) (hlast : m.lastCycle i = false)
    (hbusy : m.srcValid i.sink = true ∨ m.packetInProgress = true) {g' : Option (Fin n)} {p' : Nat}
    (hturns : Turns m i g p g' p') :
    m.updateGrant i = false ∧ (m.posedge i).packetInProgress = true ∧ g' = g ∧ p' = p := by
  have hkeep : m.updateGrant i = false := by
    rw [h.updateGrant_eq, hlast, Bool.or_false]
    rcases hbusy with hsrc | hpip
    · rw [hsrc, Bool.not_true, Bool.and_false]
    · rw [hpip, Bool.not_true, Bool.false_and]
  have hpip' : (m.posedge i).packetInProgress = true := by
    show (if m.lastCycle i then false
      else if m.srcValid i.sink then true else m.packetInProgress) = true
    rw [hlast, if_neg Bool.false_ne_true]
    rcases hbusy with hsrc | hpip
    · rw [if_pos hsrc]
    · rw [hpip, ite_self]
  cases hturns with
  | stays _ => exact ⟨hkeep, hpip', rfl, rfl⟩
  | frees hupdate _ => exact absurd (hkeep.symm.trans hupdate) Bool.false_ne_true
  | wins hupdate _ _ => exact absurd (hkeep.symm.trans hupdate) Bool.false_ne_true

end CmdMux

/-! ## Traffic -/

/-- The multiplexer, the beats its source has passed on and those each sink has handed over. -/
structure Traffic (n : Nat) where
  mux : CmdMux n
  sent : List Beat
  taken : Fin n → List Beat

namespace Traffic

open CmdMux

def reset : Traffic n := { mux := .reset, sent := [], taken := fun _ => [] }

/-- One cycle: what is valid and ready on both sides of a wire has gone over. -/
def next (t : Traffic n) (i : MuxInput n) : Traffic n where
  mux := t.mux.posedge i
  sent := if t.mux.srcValid i.sink && i.srcReady then t.sent ++ [t.mux.src i.sink] else t.sent
  taken := fun k =>
    if (i.sink k).valid && t.mux.sinkReady i.srcReady k then t.taken k ++ [i.sink k] else t.taken k

def step (t : Traffic n) (i : MuxInput n) : Option (Traffic n) := some (t.next i)

abbrev Reachable (t : Traffic n) : Prop := Transition.Reachable step reset t

variable {t t' : Traffic n} {g : Option (Fin n)} {p : Nat} {i : MuxInput n}

/-- Sink `j` hands over its beat. -/
structure Moves (t : Traffic n) (i : MuxInput n) (g : Option (Fin n)) (j : Fin n) : Prop where
  granted : g = some j
  valid : (i.sink j).valid = true
  ready : i.srcReady = true
  sent : (t.next i).sent = t.sent ++ [i.sink j]
  taken : (t.next i).taken j = t.taken j ++ [i.sink j]
  others : ∀ k, k ≠ j → (t.next i).taken k = t.taken k

/-- Nobody does. -/
structure Rests (t : Traffic n) (i : MuxInput n) (g : Option (Fin n)) : Prop where
  unready : ∀ j, g = some j → (i.sink j).valid = false ∨ i.srcReady = false
  sent : (t.next i).sent = t.sent
  taken : (t.next i).taken = t.taken

/-- **In a cycle one beat at most goes through**, from the sink granted. -/
theorem moves_or_rests (h : Inv t.mux g p) (i : MuxInput n) :
    (∃ j, Moves t i g j) ∨ Rests t i g := by
  have hsent : (t.next i).sent
      = if t.mux.srcValid i.sink && i.srcReady then t.sent ++ [t.mux.src i.sink] else t.sent := rfl
  have htaken : ∀ k, (t.next i).taken k = if (i.sink k).valid && (i.srcReady && decide (g = some k))
      then t.taken k ++ [i.sink k] else t.taken k := fun k => by
    rw [← h.sinkReady_eq]
    rfl
  cases g with
  | none =>
    refine Or.inr ⟨fun _ hj => absurd hj.symm (Option.some_ne_none _), ?_, funext fun k => ?_⟩
    · rw [hsent, h.srcValid_eq]
      rfl
    · rw [htaken, decide_eq_false (Option.some_ne_none k).symm, Bool.and_false, Bool.and_false]
      rfl
  | some j =>
    have hother : ∀ k, k ≠ j → (t.next i).taken k = t.taken k := fun k hk => by
      rw [htaken, decide_eq_false fun heq => hk (Option.some.inj heq).symm, Bool.and_false,
        Bool.and_false]
      rfl
    rw [h.srcValid_eq, Option.any_some, h.src_eq] at hsent
    have htakenj := htaken j
    rw [decide_eq_true rfl, Bool.and_true] at htakenj
    by_cases hmove : ((i.sink j).valid && i.srcReady) = true
    · rw [if_pos hmove] at hsent htakenj
      have hboth := (Bool.and_eq_true _ _).mp hmove
      exact Or.inl ⟨j, rfl, hboth.1, hboth.2, hsent, htakenj, hother⟩
    · rw [if_neg hmove] at hsent htakenj
      refine Or.inr ⟨?_, hsent, funext fun k => ?_⟩
      · rintro _ ⟨⟩
        rwa [Bool.not_eq_true, Bool.and_eq_false_iff] at hmove
      · by_cases hk : k = j
        · rw [hk, htakenj]
        · exact hother k hk

/-! ## Packets -/

/-- A beat of another sink begins a packet. -/
def Follows (x y : Fin n × Beat) : Prop := x.2.closes = true ∨ x.1 = y.1

/-- The beats in the order in which they went through, each with its sink. -/
structure Trace (t : Traffic n) (g : Option (Fin n)) (trace : List (Fin n × Beat)) : Prop where
  sent : t.sent = trace.map Prod.snd
  taken : ∀ k, t.taken k = (trace.filter fun x => x.1 = k).map Prod.snd
  chain : trace.IsChain Follows
  open_ : ∀ x ∈ trace.getLast?, x.2.closes = true
    ∨ (t.mux.packetInProgress = true ∧ g = some x.1)

/-- A beat that goes through ends the packet exactly when it closes. -/
theorem Moves.lastCycle_eq {j : Fin n} (h : Inv t.mux g p) (hmoves : Moves t i g j) :
    t.mux.lastCycle i = (i.sink j).closes := by
  have hgranted := hmoves.granted
  subst hgranted
  rw [h.lastCycle_some, hmoves.valid, hmoves.ready]
  rfl

theorem Moves.srcValid_eq {j : Fin n} (h : Inv t.mux g p) (hmoves : Moves t i g j) :
    t.mux.srcValid i.sink = true := by
  rw [h.srcValid_eq, hmoves.granted, Option.any_some, hmoves.valid]

theorem Rests.lastCycle_eq (h : Inv t.mux g p) (hrests : Rests t i g) :
    t.mux.lastCycle i = false := by
  cases g with
  | none => exact h.lastCycle_none
  | some j =>
    rw [h.lastCycle_some]
    rcases hrests.unready j rfl with hvalid | hready
    · rw [hvalid, Bool.false_and, Bool.false_and]
    · rw [hready, Bool.and_false, Bool.false_and]

/-- **Step.** A cycle extends the trace by the beat that goes through, if any.  Where its sink is
    another one than before, the grant has changed, so that the beat before closed. -/
theorem Trace.next (hn : 1 < n) (h : Inv t.mux g p) {trace : List (Fin n × Beat)}
    (htrace : Trace t g trace) :
    ∃ g' p' trace', Inv (t.next i).mux g' p' ∧ Trace (t.next i) g' trace' := by
  obtain ⟨g', p', hturns, hinv⟩ := h.posedge (i := i) hn
  rcases moves_or_rests h i with ⟨j, hmoves⟩ | hrests
  · refine ⟨g', p', trace ++ [(j, i.sink j)], hinv, ?_, fun k => ?_, ?_, fun x hx => ?_⟩
    · rw [hmoves.sent, htrace.sent, List.map_append]
      rfl
    · rw [List.filter_append, List.map_append, ← htrace.taken k]
      by_cases hk : k = j
      · rw [hk, hmoves.taken, List.filter_cons_of_pos (by simp)]
        rfl
      · rw [hmoves.others k hk, List.filter_cons_of_neg (by simpa using fun h => hk h.symm)]
        exact (List.append_nil _).symm
    · refine List.isChain_append.mpr ⟨htrace.chain, List.isChain_singleton _, fun x hx y hy => ?_⟩
      obtain rfl : (j, i.sink j) = y := Option.some.inj hy
      exact (htrace.open_ x hx).imp_right fun hopen =>
        Option.some.inj (hopen.2.symm.trans hmoves.granted)
    · rw [List.getLast?_append_of_ne_nil _ (List.cons_ne_nil _ _)] at hx
      obtain rfl : (j, i.sink j) = x := Option.some.inj hx
      by_cases hcloses : (i.sink j).closes = true
      · exact Or.inl hcloses
      · rw [Bool.not_eq_true, ← hmoves.lastCycle_eq h] at hcloses
        obtain ⟨_, hpip, rfl, _⟩ := h.keeps hcloses (Or.inl (hmoves.srcValid_eq h)) hturns
        exact Or.inr ⟨hpip, hmoves.granted⟩
  · refine ⟨g', p', trace, hinv, hrests.sent ▸ htrace.sent, fun k => ?_, htrace.chain,
      fun x hx => (htrace.open_ x hx).imp_right fun ⟨hpip, hg⟩ => ?_⟩
    · rw [hrests.taken, htrace.taken k]
    · obtain ⟨_, hpip', rfl, _⟩ := h.keeps (hrests.lastCycle_eq h) (Or.inr hpip) hturns
      exact ⟨hpip', hg⟩

/-- **Packets.**  What the source has passed on are the beats its sinks have handed over, each
    sink's in its order, and no packet is broken into: another sink's beat follows only a beat that
    ends a packet without a lock. -/
theorem mux_packets (hn : 1 < n) (h : Reachable t) :
    ∃ trace : List (Fin n × Beat), t.sent = trace.map Prod.snd
      ∧ (∀ k, t.taken k = (trace.filter fun x => x.1 = k).map Prod.snd)
      ∧ trace.IsChain fun x y => x.2.closes = true ∨ x.1 = y.1 := by
  have hinv : ∃ g p trace, Inv t.mux g p ∧ Trace t g trace := by
    refine h.invariant (P := fun t => ∃ g p trace, Inv t.mux g p ∧ Trace t g trace)
      ⟨none, 0, [], inv_reset hn, rfl, fun _ => rfl, List.isChain_nil, fun x hx => ?_⟩ ?_
    · exact absurd hx (by simp)
    · rintro s i s' _ ⟨g, p, trace, hinv, htrace⟩ hstep
      obtain rfl := Option.some.inj hstep
      exact htrace.next hn hinv
  obtain ⟨g, p, trace, _, htrace⟩ := hinv
  exact ⟨trace, htrace.sent, htrace.taken, htrace.chain⟩

/-- Both sinks have a word, which they send again and again. -/
def bothSinks : MuxInput 2 where
  sink := fun k =>
    { valid := true, data := { Packet.unpack 0 with data := if k = 0 then 1 else 2 }, channel := 0,
      startofpacket := true, endofpacket := true }
  srcReady := true

/-- After `c` cycles of this. -/
def both (c : Nat) : Traffic 2 := (Traffic.next · bothSinks)^[c] reset

theorem both_reachable : ∀ c, Reachable (both c)
  | 0 => .start
  | c + 1 => (both_reachable c).next bothSinks
    (congrArg some (Function.iterate_succ_apply' (Traffic.next · bothSinks) c reset).symm)

/-- The words alternate. -/
theorem mux_packets_both :
    (both 4).sent.map (fun b => b.data.data) = [1, 2, 1]
      ∧ ∃ trace : List (Fin 2 × Beat), (both 4).sent = trace.map Prod.snd
        ∧ (∀ k, (both 4).taken k = (trace.filter fun x => x.1 = k).map Prod.snd)
        ∧ trace.IsChain fun x y => x.2.closes = true ∨ x.1 = y.1 :=
  ⟨by decide, mux_packets (by decide) (both_reachable 4)⟩

/-! ## Waiting -/

/-- The packets that may go through before it is the turn of sink `k`. -/
def turnsBefore (g : Option (Fin n)) (p : Nat) (k : Fin n) : Nat :=
  match g with
  | none => ahead n p k
  | some j => if j = k then 0 else ahead n p k + 1

variable {k : Fin n} {g' : Option (Fin n)} {p' : Nat}

/-- No more than each of the other sinks once. -/
theorem turnsBefore_le (hn : 1 < n) (h : Inv t.mux g p) : turnsBefore g p k ≤ n - 1 := by
  cases g with
  | none =>
    have hlt : ahead n p k < n := ahead_lt (by omega)
    show ahead n p k ≤ n - 1
    omega
  | some j =>
    rw [turnsBefore]
    split
    · exact Nat.zero_le _
    · rename_i hjk
      have hsucc := ahead_succ j.isLt k.isLt fun heq => hjk (Fin.ext heq.symm)
      have hlt : ahead n j k < n := ahead_lt (by omega)
      rw [h.past j rfl]
      omega

/-- The sink that waits requests. -/
theorem requests_of_valid (hvalid : (i.sink k).valid = true) : Requests (t.mux.request i.sink) k := by
  rw [Requests, request, BitVec.getLsbD_or, valid, bundle_bit, hvalid, Bool.true_or]

/-- An arbitration brings the turn of the sink that waits closer. -/
theorem turnsBefore_wins (h : Inv t.mux g p) (hvalid : (i.sink k).valid = true)
    (hupdate : t.mux.updateGrant i = true) (hturns : Turns t.mux i g p g' p') :
    turnsBefore g' p' k ≤ ahead n p k := by
  cases hturns with
  | stays hkeep => exact absurd (hkeep.symm.trans hupdate) Bool.false_ne_true
  | frees _ hidle =>
    have hreq := requests_of_valid (t := t) hvalid
    rw [Requests, hidle, BitVec.getLsbD_zero] at hreq
    exact absurd hreq Bool.false_ne_true
  | wins _ j hj =>
    rw [turnsBefore]
    split
    · exact Nat.zero_le _
    · rename_i hjk
      exact hj.ahead_next h.top.lt k.isLt (requests_of_valid hvalid) fun heq => hjk (Fin.ext heq.symm)

/-- **Step.** While sink `k` waits, a packet that closes uses up a turn before its own. -/
theorem turnsBefore_next (h : Inv t.mux g p) (hturns : Turns t.mux i g p g' p')
    (hvalid : (i.sink k).valid = true) (hwait : (t.next i).taken k = t.taken k) :
    turnsBefore g' p' k + (t.next i).sent.countP Beat.closes
      ≤ turnsBefore g p k + t.sent.countP Beat.closes := by
  rcases moves_or_rests h i with ⟨j, hmoves⟩ | hrests
  · have hjk : j ≠ k := by
      rintro rfl
      rw [hmoves.taken] at hwait
      exact absurd hwait (by simp)
    rw [hmoves.sent, List.countP_append, List.countP_singleton]
    by_cases hcloses : (i.sink j).closes = true
    · have hupdate : t.mux.updateGrant i = true := by
        rw [h.updateGrant_eq, hmoves.lastCycle_eq h, hcloses, Bool.or_true]
      have hturn := turnsBefore_wins h hvalid hupdate hturns
      have hother : turnsBefore g p k = ahead n p k + 1 := by
        rw [hmoves.granted, turnsBefore, if_neg hjk]
      rw [if_pos hcloses]
      omega
    · rw [if_neg hcloses]
      rw [Bool.not_eq_true, ← hmoves.lastCycle_eq h] at hcloses
      obtain ⟨_, _, rfl, rfl⟩ := h.keeps hcloses (Or.inl (hmoves.srcValid_eq h)) hturns
      exact Nat.le_refl _
  · rw [hrests.sent]
    refine Nat.add_le_add_right ?_ _
    by_cases hbusy : t.mux.srcValid i.sink = true ∨ t.mux.packetInProgress = true
    · obtain ⟨_, _, rfl, rfl⟩ := h.keeps (hrests.lastCycle_eq h) hbusy hturns
      exact Nat.le_refl _
    · rw [not_or, Bool.not_eq_true, Bool.not_eq_true] at hbusy
      have hupdate : t.mux.updateGrant i = true := by
        rw [h.updateGrant_eq, hbusy.1, hbusy.2]
        rfl
      refine Nat.le_trans (turnsBefore_wins h hvalid hupdate hturns) ?_
      cases g with
      | none => exact Nat.le_refl _
      | some j =>
        have hjk : j ≠ k := by
          rintro rfl
          rw [h.srcValid_eq, Option.any_some, hvalid] at hbusy
          exact absurd hbusy.1.symm Bool.false_ne_true
        rw [turnsBefore, if_neg hjk]
        exact Nat.le_succ _

theorem taken_next (t : Traffic n) (i : MuxInput n) (k : Fin n) :
    (t.next i).taken k = t.taken k ∨ (t.next i).taken k = t.taken k ++ [i.sink k] := by
  show (if _ then _ else _) = _ ∨ (if _ then _ else _) = _
  split
  · exact Or.inr rfl
  · exact Or.inl rfl

/-- What has been handed over stays so. -/
theorem length_taken_le : ∀ {is : List (MuxInput n)} {t t' : Traffic n},
    Transition.run step t is = some t' → (t.taken k).length ≤ (t'.taken k).length
  | [], _, _, hrun => Nat.le_of_eq (by rw [Option.some.inj hrun])
  | i :: _, t, _, hrun => by
    obtain ⟨s, hstep, hrest⟩ := Transition.run_cons_iff.mp hrun
    obtain rfl := Option.some.inj hstep
    refine Nat.le_trans ?_ (length_taken_le hrest)
    rcases taken_next t i k with h | h
    · exact Nat.le_of_eq (by rw [h])
    · rw [h, List.length_append]
      exact Nat.le_add_right _ _

/-- **Run.** By induction: the packets that close are at most the turns before that of sink `k`. -/
theorem completed_le (hn : 1 < n) :
    ∀ {is : List (MuxInput n)} {t : Traffic n} {g : Option (Fin n)} {p : Nat}, Inv t.mux g p →
      Transition.run step t is = some t' → (∀ i ∈ is, (i.sink k).valid = true) →
      t'.taken k = t.taken k →
      t'.sent.countP Beat.closes ≤ turnsBefore g p k + t.sent.countP Beat.closes
  | [], _, _, _, _, hrun, _, _ => by
    obtain rfl := Option.some.inj hrun
    exact Nat.le_add_left _ _
  | i :: is, t, g, p, h, hrun, hvalid, hwait => by
    obtain ⟨s, hstep, hrest⟩ := Transition.run_cons_iff.mp hrun
    obtain rfl := Option.some.inj hstep
    have hsame : (t.next i).taken k = t.taken k := by
      refine (taken_next t i k).resolve_right fun hmore => ?_
      have hle := length_taken_le (k := k) hrest
      rw [hwait, hmore, List.length_append, List.length_singleton] at hle
      omega
    obtain ⟨g', p', hturns, hinv⟩ := h.posedge (i := i) hn
    have hnext := turnsBefore_next h hturns (hvalid i List.mem_cons_self) hsame
    have hlater := completed_le hn hinv hrest (fun i' hi' => hvalid i' (List.mem_cons_of_mem i hi'))
      (hwait.trans hsame.symm)
    omega

/-- The invariant holds in every reachable state. -/
theorem Reachable.inv (hn : 1 < n) (h : Reachable t) : ∃ g p, Inv t.mux g p := by
  refine h.invariant (P := fun t => ∃ g p, Inv t.mux g p) ⟨none, 0, inv_reset hn⟩ ?_
  rintro s i s' _ ⟨g, p, hinv⟩ hstep
  obtain rfl := Option.some.inj hstep
  obtain ⟨g', p', _, hinv'⟩ := hinv.posedge (i := i) hn
  exact ⟨g', p', hinv'⟩

/-- **Fairness.**  While a sink waits with a beat, at most `n - 1` packets end at the source without
    holding the lock, whatever the other sinks and the slave do.  Packets that end with the lock do
    not count: after them the grant stays where it is. -/
theorem mux_fair (hn : 1 < n) (h : Reachable t) {is : List (MuxInput n)}
    (hrun : Transition.run step t is = some t') (hvalid : ∀ i ∈ is, (i.sink k).valid = true)
    (hwait : t'.taken k = t.taken k) :
    t'.sent.countP Beat.closes ≤ t.sent.countP Beat.closes + (n - 1) := by
  obtain ⟨g, p, hinv⟩ := h.inv hn
  have hwaits := completed_le hn hinv hrun hvalid hwait
  have hturns : turnsBefore g p k ≤ n - 1 := turnsBefore_le hn hinv
  omega

/-- Sink 1 waits while sink 0 sends its word. -/
theorem mux_fair_both : (both 2).sent.countP Beat.closes ≤ (both 1).sent.countP Beat.closes + 1 :=
  mux_fair (k := 1) (by decide) (both_reachable 1)
    (rfl : Transition.run step (both 1) [bothSinks] = some (both 2))
    (fun i hi => by rw [List.mem_singleton.mp hi]; rfl) (by decide)

end Traffic

end GpsReceiver.Interconnect
