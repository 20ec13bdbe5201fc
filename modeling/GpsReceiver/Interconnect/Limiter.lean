/-
  The traffic limiter of a master (`altera_merlin_traffic_limiter`, unpipelined, without reordering
  and hazard prevention), for a counter of any width `w`.

  1. **Program** — `Limiter`: a command that wants a response is held back while a response from
     another slave is pending.  Responses pass through (`rspSrcValid`): only hazard prevention would
     drop those of writes.
  2. **Outstanding** — `Inv l out`: `out` are the slaves that still owe a response, oldest first.
     The counter counts them, and all are the slave addressed last.
  3. **Results** — `limiter_orders`: this holds in every run whose inputs are `Legal`, that is, in
     which no response comes unasked and at most `2 ^ w` are pending.  The limiter enforces neither.
-/
import GpsReceiver.Interconnect.Packet
import GpsReceiver.Lib.Transition
import GpsReceiver.Lib.Wires

namespace GpsReceiver.Interconnect

open Lib Lib.Wires

/-! ## The program -/

variable {w : Nat}

/-- The registers of the limiter. -/
structure Limiter (w : Nat) where
  lastDestId : BitVec 3
  lastChannel : BitVec 8
  hasPendingResponses : Bool
  pendingResponseCount : BitVec w
  deriving DecidableEq

/-- What the limiter sees during a cycle. -/
structure LimiterInput where
  cmdSink : Beat
  cmdSrcReady : Bool
  rspSink : Beat
  rspSrcReady : Bool

namespace Limiter

def reset : Limiter w where
  lastDestId := 0
  lastChannel := 0
  hasPendingResponses := false
  pendingResponseCount := 0

/-- A response is wanted. -/
def nonpostedCmd (b : Beat) : Bool := !b.data.transPosted

/-- `dest_changed`: the command goes to another slave than the last one saved. -/
def destChanged (l : Limiter w) (b : Beat) : Bool := l.lastDestId != b.data.destId

/-- `suppress`: the command has to wait.  With `REORDER` off this is so until all responses of the
    last slave have come. -/
def suppress (l : Limiter w) (b : Beat) : Bool :=
  nonpostedCmd b && l.hasPendingResponses && l.destChanged b

/-- `save_dest_id`: the slave of the command is noted, also while it is not taken yet. -/
def saveDestId (l : Limiter w) (b : Beat) : Bool := b.valid && !l.suppress b && nonpostedCmd b

/-- `internal_valid`. -/
def internalValid (l : Limiter w) (b : Beat) : Bool := if l.suppress b then false else b.valid

/-- `cmd_sink_ready`. -/
def cmdSinkReady (l : Limiter w) (b : Beat) (cmdSrcReady : Bool) : Bool :=
  if l.suppress b then false else cmdSrcReady

def wideValid (b : Beat) : BitVec 8 := fill 8 b.valid &&& b.channel

/-- One bit for each slave. -/
def cmdSrcValid (l : Limiter w) (b : Beat) : BitVec 8 :=
  if nonpostedCmd b && l.hasPendingResponses then wideValid b &&& l.lastChannel else wideValid b

/-- `nonposted_cmd_accepted`: the command that is taken will be answered. -/
def nonpostedCmdAccepted (l : Limiter w) (i : LimiterInput) : Bool :=
  nonpostedCmd i.cmdSink && l.internalValid i.cmdSink
    && (i.cmdSrcReady && i.cmdSink.endofpacket)

/-- `response_accepted`: the last beat of a response is taken. -/
def responseAccepted (i : LimiterInput) : Bool :=
  i.rspSink.valid && i.rspSrcReady && i.rspSink.endofpacket

/-- Responses pass through. -/
def rspSrcValid (b : Beat) : Bool := b.valid

/-- `next_pending_response_count`; the counter may go round. -/
def nextPendingResponseCount (l : Limiter w) (i : LimiterInput) : BitVec w :=
  if l.nonpostedCmdAccepted i && responseAccepted i then l.pendingResponseCount
  else if responseAccepted i then l.pendingResponseCount - 1
  else if l.nonpostedCmdAccepted i then l.pendingResponseCount + 1
  else l.pendingResponseCount

/-- One clock edge.  The flag is kept apart from the counter, which is zero both for no responses
    and for `2 ^ w`. -/
def posedge (l : Limiter w) (i : LimiterInput) : Limiter w where
  lastDestId := if l.saveDestId i.cmdSink then i.cmdSink.data.destId else l.lastDestId
  lastChannel := if l.saveDestId i.cmdSink then i.cmdSink.channel else l.lastChannel
  hasPendingResponses :=
    (l.hasPendingResponses && !(l.pendingResponseCount == 1 && responseAccepted i
      && !l.nonpostedCmdAccepted i))
    || (l.pendingResponseCount == 0 && l.nonpostedCmdAccepted i && !responseAccepted i)
  pendingResponseCount := l.nextPendingResponseCount i

/-! ## Outstanding responses -/

/-- The slaves that owe a response, after an edge. -/
def owing (l : Limiter w) (i : LimiterInput) (out : List (BitVec 3)) : List (BitVec 3) :=
  (if responseAccepted i then out.tail else out)
    ++ if l.nonpostedCmdAccepted i then [i.cmdSink.data.destId] else []

/-- The slaves in `out` owe a response. -/
structure Inv (l : Limiter w) (out : List (BitVec 3)) : Prop where
  pending : l.hasPendingResponses = !out.isEmpty
  count : l.pendingResponseCount = BitVec.ofNat w out.length
  last : ∀ d ∈ out, d = l.lastDestId

/-- Nobody owes anything after reset. -/
theorem inv_reset : Inv (reset : Limiter w) [] where
  pending := rfl
  count := rfl
  last := fun _ h => absurd h List.not_mem_nil

variable {l : Limiter w} {out : List (BitVec 3)} {i : LimiterInput}

/-- A command that is not suppressed goes to the slave that owes. -/
theorem Inv.suppress_eq_false (h : Inv l out) {b : Beat} (hnon : nonpostedCmd b = true)
    (hfree : l.suppress b = false) : ∀ d ∈ out, d = b.data.destId := by
  intro d hd
  have hpending : l.hasPendingResponses = true := by
    rw [h.pending, List.isEmpty_eq_false_iff.mpr (List.ne_nil_of_mem hd)]
    rfl
  rw [suppress, hnon, hpending, destChanged] at hfree
  rw [h.last d hd]
  exact bne_eq_false_iff_eq.mp hfree

/-- A command that is accepted is saved, and goes to the slave that owes the others. -/
theorem Inv.accepted (h : Inv l out) (hacc : l.nonpostedCmdAccepted i = true) :
    l.saveDestId i.cmdSink = true ∧ ∀ d ∈ out, d = i.cmdSink.data.destId := by
  rw [nonpostedCmdAccepted, Bool.and_eq_true, Bool.and_eq_true, internalValid] at hacc
  obtain ⟨⟨hnon, hvalid⟩, _⟩ := hacc
  have hfree : l.suppress i.cmdSink = false := (Bool.eq_false_or_eq_true _).resolve_left fun hsup => by
    rw [hsup, if_pos rfl] at hvalid
    exact Bool.false_ne_true hvalid
  rw [hfree, if_neg Bool.false_ne_true] at hvalid
  refine ⟨?_, h.suppress_eq_false hnon hfree⟩
  rw [saveDestId, hvalid, hfree, hnon]
  rfl

/-- What is saved does not change which slave owes. -/
theorem Inv.posedge_last (h : Inv l out) :
    ∀ d ∈ l.owing i out, d = (l.posedge i).lastDestId := by
  have hsame : ∀ d ∈ out, d = (l.posedge i).lastDestId := by
    intro d hd
    show d = if l.saveDestId i.cmdSink then i.cmdSink.data.destId else l.lastDestId
    split
    · rename_i hsave
      rw [saveDestId, Bool.and_eq_true, Bool.and_eq_true, Bool.not_eq_true'] at hsave
      exact h.suppress_eq_false hsave.2 hsave.1.2 d hd
    · exact h.last d hd
  intro d hd
  rcases List.mem_append.mp hd with hold | hnew
  · refine hsame d ?_
    split at hold
    · exact List.mem_of_mem_tail hold
    · exact hold
  · split at hnew
    · rename_i hacc
      rw [List.mem_singleton.mp hnew]
      exact (if_pos (h.accepted hacc).1).symm
    · exact absurd hnew List.not_mem_nil

/-- Up to `2 ^ w` a counter is one for one. -/
theorem ofNat_beq_one (hw : 0 < w) {n : Nat} (hn : n ≤ 2 ^ w) :
    (BitVec.ofNat w n == 1) = decide (n = 1) := by
  have hone : 1 < 2 ^ w := Nat.one_lt_two_pow (by omega)
  rw [Bool.eq_iff_iff, beq_iff_eq, decide_eq_true_iff, ← BitVec.toNat_inj, BitVec.toNat_ofNat,
    BitVec.ofNat_eq_ofNat, BitVec.toNat_ofNat, Nat.mod_eq_of_lt hone]
  rcases Nat.lt_or_eq_of_le hn with hlt | rfl
  · rw [Nat.mod_eq_of_lt hlt]
  · rw [Nat.mod_self]
    omega

/-- The counter counts the responses owed, modulo `2 ^ w`. -/
theorem Inv.posedge_count (h : Inv l out) (howed : responseAccepted i = true → out ≠ []) :
    (l.posedge i).pendingResponseCount = BitVec.ofNat w (l.owing i out).length := by
  show l.nextPendingResponseCount i = _
  rw [nextPendingResponseCount, owing, List.length_append, h.count]
  cases hr : responseAccepted i with
  | false =>
    rw [Bool.and_false, if_neg Bool.false_ne_true, if_neg Bool.false_ne_true,
      if_neg Bool.false_ne_true]
    cases l.nonpostedCmdAccepted i with
    | false => rfl
    | true => exact (BitVec.ofNat_add out.length 1).symm
  | true =>
    obtain ⟨d, rest, rfl⟩ := List.exists_cons_of_ne_nil (howed hr)
    rw [Bool.and_true, if_pos rfl, if_pos rfl]
    cases l.nonpostedCmdAccepted i with
    | true => rfl
    | false =>
      rw [if_neg Bool.false_ne_true, if_neg Bool.false_ne_true, List.length_cons, List.tail_cons,
        BitVec.ofNat_add]
      exact BitVec.add_sub_cancel _ _

/-- The flag tells whether there are any: up to `2 ^ w` of them the counter is one, or zero with the
    flag off, for one number only. -/
theorem Inv.posedge_pending (hw : 0 < w) (h : Inv l out) (hroom : out.length ≤ 2 ^ w)
    (howed : responseAccepted i = true → out ≠ []) :
    (l.posedge i).hasPendingResponses = !(l.owing i out).isEmpty := by
  show ((l.hasPendingResponses && !(l.pendingResponseCount == 1 && responseAccepted i
      && !l.nonpostedCmdAccepted i))
    || (l.pendingResponseCount == 0 && l.nonpostedCmdAccepted i && !responseAccepted i)) = _
  rw [owing, h.pending, h.count, ofNat_beq_one hw hroom]
  cases hr : responseAccepted i with
  | false =>
    cases l.nonpostedCmdAccepted i with
    | false => simp
    | true => cases out <;> simp
  | true =>
    obtain ⟨d, rest, rfl⟩ := List.exists_cons_of_ne_nil (howed hr)
    cases l.nonpostedCmdAccepted i with
    | true => simp
    | false => cases rest <;> simp

/-- **An edge** keeps the account of the responses that are owed. -/
theorem Inv.posedge (hw : 0 < w) (h : Inv l out) (hroom : out.length ≤ 2 ^ w)
    (howed : responseAccepted i = true → out ≠ []) : Inv (l.posedge i) (l.owing i out) :=
  ⟨h.posedge_pending hw hroom howed, h.posedge_count howed, h.posedge_last⟩

end Limiter

/-! ## Runs -/

/-- The limiter and the slaves that owe a response. -/
structure Account (w : Nat) where
  limiter : Limiter w
  owed : List (BitVec 3)
  deriving DecidableEq

namespace Account

open Limiter

def reset : Account w := { limiter := .reset, owed := [] }

/-- Nobody responds unasked, and not more than `2 ^ w` responses are pending. -/
def Legal (a : Account w) (i : LimiterInput) : Prop :=
  (responseAccepted i = true → a.owed ≠ []) ∧ (a.limiter.owing i a.owed).length ≤ 2 ^ w

instance (a : Account w) (i : LimiterInput) : Decidable (a.Legal i) :=
  inferInstanceAs (Decidable ((_ → _) ∧ _))

/-- A clock edge with legal inputs. -/
def step (a : Account w) (i : LimiterInput) : Option (Account w) :=
  if a.Legal i then
    some { limiter := a.limiter.posedge i, owed := a.limiter.owing i a.owed }
  else none

/-- The states that legal inputs lead to. -/
abbrev Reachable (a : Account w) : Prop := Transition.Reachable step reset a

/-- **Run.** The account agrees with the registers in every reachable state. -/
theorem Reachable.inv (hw : 0 < w) {a : Account w} (h : Reachable a) :
    Inv a.limiter a.owed ∧ a.owed.length ≤ 2 ^ w := by
  refine h.invariant (P := fun a => Inv a.limiter a.owed ∧ a.owed.length ≤ 2 ^ w)
    ⟨inv_reset, Nat.zero_le _⟩ fun s i s' _ ⟨hs, hroom⟩ hstep => ?_
  obtain ⟨hlegal, heq⟩ := Option.ite_none_right_eq_some.mp hstep
  obtain rfl := Option.some.inj heq
  exact ⟨hs.posedge hw hroom hlegal.1, hlegal.2⟩

/-- **Order.**  As long as no response comes unasked and at most `2 ^ w` are pending, the limiter
    knows whether a response is pending, all pending responses are owed by the slave addressed last,
    and it takes no command that wants a response from another slave before they have come. -/
theorem limiter_orders (hw : 0 < w) {a : Account w} (h : Reachable a) :
    (a.limiter.hasPendingResponses = true ↔ a.owed ≠ [])
      ∧ (∀ d ∈ a.owed, d = a.limiter.lastDestId)
      ∧ ∀ b ready, nonpostedCmd b = true → a.limiter.cmdSinkReady b ready = true →
        ∀ d ∈ a.owed, d = b.data.destId := by
  have hinv := h.inv hw
  refine ⟨?_, hinv.1.last, fun b ready hnon hready => hinv.1.suppress_eq_false hnon ?_⟩
  · rw [hinv.1.pending, Bool.not_eq_true', List.isEmpty_eq_false_iff]
  · refine (Bool.eq_false_or_eq_true _).resolve_left fun hsup => ?_
    rw [cmdSinkReady, if_pos hsup] at hready
    exact Bool.false_ne_true hready

/-- A read of slave 4 that is taken at once, and no response. -/
def readFour : LimiterInput where
  cmdSink :=
    { valid := true, data := { Packet.unpack 0 with transRead := true, destId := 4 }, channel := 16,
      startofpacket := true, endofpacket := true }
  cmdSrcReady := true
  rspSink :=
    { valid := false, data := Packet.unpack 0, channel := 0, startofpacket := true,
      endofpacket := true }
  rspSrcReady := true

/-- Two reads are pending, as many as the counter of one bit allows. -/
def twoReads : Account 1 :=
  { limiter := (Limiter.reset.posedge readFour).posedge readFour, owed := [4, 4] }

theorem limiter_orders_two :
    (twoReads.limiter.hasPendingResponses = true ↔ twoReads.owed ≠ [])
      ∧ (∀ d ∈ twoReads.owed, d = twoReads.limiter.lastDestId)
      ∧ ∀ b ready, nonpostedCmd b = true → twoReads.limiter.cmdSinkReady b ready = true →
        ∀ d ∈ twoReads.owed, d = b.data.destId :=
  limiter_orders (by decide) ((Transition.Reachable.start.next readFour
    (by decide : step reset readFour = some ⟨Limiter.reset.posedge readFour, [4]⟩)).next readFour
    (by decide))

end Account

end GpsReceiver.Interconnect
