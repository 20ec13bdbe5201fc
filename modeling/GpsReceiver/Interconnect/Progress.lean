/-
  No access waits for ever: what the limiters hold back, and what the wait states cost.

  1. **Requests** — `proper`: no master reads and writes at once.  The limiter does not count a read
     that is also a write, but the slave answers it.  `Slave.simple`: a core that cannot wait.
  2. **Invariant** — `Served f o`: every limiter makes a run of `Account`, and has at most one
     response to wait for: the one that comes in this cycle.
  3. **Wait states** — `Free`: the limiter lets the command through.  Then the translator counts, and
     accepts when the count is `goal` (`accepted_goal`, `counter_next`).
  4. **Requests over time** — `Keeps`; `serves_free` is the induction on the cycles left to wait.
  5. **Results** — `fabric_releases`: a command is held back for at most one cycle.
     `fabric_serves`: an access to a simple core is accepted in one of four cycles.
-/
import GpsReceiver.Interconnect.Fabric

namespace GpsReceiver.Interconnect

open Lib

/-! ## Requests -/

/-- The instruction master does not write at all. -/
def FabricInput.proper (i : FabricInput) : Bool := !(i.dataMaster.read && i.dataMaster.write)

/-- A master that reads does not write. -/
theorem FabricInput.write_of_read {i : FabricInput} (h : i.proper = true) {m : Master}
    (hread : (i.av m).read = true) : (i.av m).write = false := by
  cases m with
  | data =>
    have hread' : i.dataMaster.read = true := hread
    rw [proper, hread', Bool.true_and, Bool.not_eq_true'] at h
    exact h
  | instruction => rfl

/-- A core of the data master alone that cannot wait by itself: a parallel port, or the system ID. -/
def Slave.simple (k : Slave) : Prop := k.shared = false ∧ k.config.useWaitrequest = false

/-- Such a core has a counter of two bits and one wait cycle for a read. -/
theorem Slave.simple_config : ∀ k : Slave, k.simple →
    k.config.log2OfLatencySum = 2 ∧ k.config.readWaitCycles = 1 := by
  unfold Slave.simple
  decide

namespace Fabric

/-- A clock edge with a proper request. -/
def properStep (f : Fabric) (i : FabricInput) : Option Fabric :=
  if i.proper then some (f.posedge i) else none

abbrev ProperReachable (f : Fabric) : Prop := Transition.Reachable properStep reset f

/-! ## The invariant -/

variable {f : Fabric} {i : FabricInput} {o : Slave → Option Token} {m : Master}

/-- The account of a limiter: of the responses that are owed to its master. -/
structure Accounts (f : Fabric) (o : Slave → Option Token) (m : Master) (a : Account 1) : Prop where
  reachable : a.Reachable
  limiter : a.limiter = f.limiter m
  single : a.owed.length ≤ 1
  owed : a.owed ≠ [] ↔ ∃ k, owes o k m = true

/-- No slave owes what the limiter of its master has not counted. -/
structure Served (f : Fabric) (o : Slave → Option Token) : Prop where
  inv : Inv f o
  closes : ∀ k t, o k = some t → t.endofpacket = true
  account : ∀ m, ∃ a, Accounts f o m a

/-- What the limiter of master `m` sees during a run. -/
def limiterInputs (m : Master) : Fabric → List FabricInput → List LimiterInput
  | _, [] => []
  | f, i :: rest => f.limiterInput i m :: limiterInputs m (f.posedge i) rest

/-- The accounts start empty. -/
theorem accounts_reset (m : Master) : Accounts reset (fun _ => none) m .reset :=
  ⟨.start, rfl, Nat.zero_le _, fun h => absurd rfl h, fun ⟨_, h⟩ => absurd h Bool.false_ne_true⟩

theorem served_reset : Served reset fun _ => none where
  inv := inv_reset
  closes := fun _ _ h => absurd h.symm (Option.some_ne_none _)
  account := fun m => ⟨.reset, accounts_reset m⟩

/-- A command is counted when it is accepted, and wants a response. -/
theorem nonpostedCmdAccepted_eq : (f.limiter m).nonpostedCmdAccepted (f.limiterInput i m)
    = (f.accepted i m && !(i.av m).write) := by
  have htaken : (f.limiter m).cmdSinkReady (f.cmd i m) (f.limiterInput i m).cmdSrcReady = _ :=
    Limiter.taken_eq (f.limiter m) (cmd_routed m) (f.cmdReady i m)
  have hposted : (f.cmd i m).data.transPosted = (i.av m).write := by
    rw [cmd_data]
    cases m <;> rfl
  show (!(f.cmd i m).data.transPosted && (f.limiter m).internalValid (f.cmd i m)
    && ((f.limiterInput i m).cmdSrcReady && true)) = _
  rw [hposted, accepted_eq, Bool.and_true, Limiter.internalValid]
  rw [Limiter.cmdSinkReady] at htaken
  cases hsup : (f.limiter m).suppress (f.cmd i m) with
  | true =>
    rw [if_pos rfl, Bool.and_false, Bool.not_true, Bool.and_false, Bool.false_and, Bool.false_and,
      Bool.false_and]
  | false =>
    rw [hsup, if_neg Bool.false_ne_true, Bool.not_false, Bool.true_and] at htaken
    rw [if_neg Bool.false_ne_true, htaken, Bool.not_false, Bool.and_true, Bool.and_comm (!_),
      Bool.and_right_comm]

/-- An accepted command that does not write reads. -/
theorem read_of_accepted (hacc : f.accepted i m = true) (hwrite : (i.av m).write = false) :
    (i.av m).read = true := by
  rw [accepted, hwrite, Bool.or_false, Bool.and_eq_true] at hacc
  exact hacc.1

namespace Served

/-- The response that is owed comes in this cycle. -/
theorem answer_valid (h : Served f o) :
    (f.answer i m).valid = true ↔ ∃ k, owes o k m = true := by
  constructor
  · intro hvalid
    by_contra hnone
    have hfalse := h.inv.answer_none (i := i) (m := m) fun k =>
      (Bool.eq_false_or_eq_true _).resolve_left fun howes => hnone ⟨k, howes⟩
    exact Bool.false_ne_true (hfalse.symm.trans hvalid)
  · rintro ⟨k, howes⟩
    rw [h.inv.answer_eq howes, h.inv.rspSrc_valid, howes]

/-- It is a whole packet. -/
theorem answer_closes (h : Served f o) (hvalid : (f.answer i m).valid = true) :
    (f.answer i m).endofpacket = true := by
  obtain ⟨k, howes⟩ := h.answer_valid.mp hvalid
  obtain ⟨t, ht, _⟩ := (Option.any_eq_true _ _).mp howes
  rw [h.inv.answer_eq howes]
  show (f.slave k).rpEndofpacket = true
  rw [(ht ▸ h.inv.slave k : (f.slave k).Inv (some t)).rpEndofpacket_eq]
  exact h.closes k t ht

/-- So the limiter counts down in this cycle. -/
theorem responseAccepted_iff (h : Served f o) :
    Limiter.responseAccepted (f.limiterInput i m) = true ↔ ∃ k, owes o k m = true := by
  show ((f.answer i m).valid && true && (f.answer i m).endofpacket) = true ↔ _
  rw [Bool.and_true, ← h.answer_valid (i := i), Bool.and_eq_true]
  exact ⟨And.left, fun hvalid => ⟨hvalid, h.answer_closes hvalid⟩⟩

/-- What was owed has come; what is owed next is the command that is counted. -/
theorem owing_eq (h : Served f o) {a : Account 1} (ha : Accounts f o m a) :
    a.limiter.owing (f.limiterInput i m) a.owed
      = if f.accepted i m && !(i.av m).write then [(f.cmd i m).data.destId] else [] := by
  have hempty : (if Limiter.responseAccepted (f.limiterInput i m) then a.owed.tail else a.owed)
      = [] := by
    split
    · refine List.length_eq_zero_iff.mp ?_
      rw [List.length_tail]
      exact Nat.sub_eq_zero_of_le ha.single
    · rename_i hnone
      exact not_not.mp fun howed => hnone (h.responseAccepted_iff.mpr (ha.owed.mp howed))
  rw [Limiter.owing, hempty, List.nil_append, ha.limiter, nonpostedCmdAccepted_eq]
  rfl

/-- **The interconnect keeps the limiter's rules**: it sends no response that is not owed, and
    accepts no second read before the first is answered. -/
theorem legal (h : Served f o) {a : Account 1} (ha : Accounts f o m a) :
    a.Legal (f.limiterInput i m) := by
  refine ⟨fun hresponse => ha.owed.mpr (h.responseAccepted_iff.mp hresponse), ?_⟩
  rw [h.owing_eq ha]
  split
  · exact Nat.one_le_two_pow
  · exact Nat.zero_le _

/-- The account after the edge. -/
theorem reachable_next (h : Served f o) {a : Account 1} (ha : Accounts f o m a) :
    Account.Reachable ⟨a.limiter.posedge (f.limiterInput i m),
      a.limiter.owing (f.limiterInput i m) a.owed⟩ :=
  ha.reachable.next (f.limiterInput i m) (if_pos (h.legal ha))

/-- **Step.** The account goes on: what is owed after the edge is the read that is accepted in this
    cycle. -/
theorem accounts_next (h : Served f o) (hproper : i.proper = true) {a : Account 1}
    (ha : Accounts f o m a) : Accounts (f.posedge i) (waiting f i) m
      ⟨a.limiter.posedge (f.limiterInput i m), a.limiter.owing (f.limiterInput i m) a.owed⟩ := by
  refine ⟨h.reachable_next ha, ?_, ?_, ?_⟩
  · show a.limiter.posedge _ = (f.limiter m).posedge _
    rw [ha.limiter]
  · show (a.limiter.owing _ a.owed).length ≤ 1
    rw [h.owing_eq ha]
    split
    · exact Nat.le_refl 1
    · exact Nat.zero_le 1
  · show a.limiter.owing _ a.owed ≠ [] ↔ _
    rw [h.owing_eq ha]
    constructor
    · intro hne
      have hacc : (f.accepted i m && !(i.av m).write) = true :=
        not_not.mp fun hnot => hne (if_neg hnot)
      rw [Bool.and_eq_true, Bool.not_eq_true'] at hacc
      exact ⟨target i m, h.inv.owes_waiting.mpr
        ⟨⟨hacc.1, read_of_accepted hacc.1 hacc.2⟩, rfl⟩⟩
    · rintro ⟨k, howes⟩
      obtain ⟨⟨hacc, hread⟩, _⟩ := h.inv.owes_waiting.mp howes
      rw [hacc, FabricInput.write_of_read hproper hread, Bool.not_false, Bool.and_true,
        if_pos rfl]
      exact List.cons_ne_nil _ _

/-- **Step.** And so does the invariant. -/
theorem posedge (h : Served f o) (hproper : i.proper = true) :
    Served (f.posedge i) (waiting f i) where
  inv := h.inv.posedge
  closes := fun k t ht => by
    obtain ⟨m, _, _, _, _, rfl⟩ := h.inv.waiting_some ht
    rfl
  account := fun m => by
    obtain ⟨a, ha⟩ := h.account m
    exact ⟨_, h.accounts_next hproper ha⟩

/-- **The account runs along.**  A run of the interconnect is a run of each limiter's account. -/
theorem run_account (h : Served f o) {a : Account 1} (ha : Accounts f o m a)
    {inputs : List FabricInput} {f' : Fabric}
    (hrun : Transition.run properStep f inputs = some f') :
    ∃ o' a', Served f' o' ∧ Accounts f' o' m a'
      ∧ Transition.run Account.step a (limiterInputs m f inputs) = some a' := by
  induction inputs generalizing f o a with
  | nil => exact ⟨o, a, Option.some.inj hrun ▸ h, Option.some.inj hrun ▸ ha, rfl⟩
  | cons i rest ih =>
    obtain ⟨f₁, hstep, hrest⟩ := Transition.run_cons_iff.mp hrun
    obtain ⟨hproper, heq⟩ := Option.ite_none_right_eq_some.mp hstep
    obtain rfl := Option.some.inj heq
    obtain ⟨o', a', hs', ha', hrun'⟩ := ih (h.posedge hproper) (h.accounts_next hproper ha) hrest
    exact ⟨o', a', hs', ha', Transition.run_cons_iff.mpr ⟨_, if_pos (h.legal ha), hrun'⟩⟩

end Served

/-- **Run.** The invariant holds in every state that proper requests lead to. -/
theorem ProperReachable.served (h : ProperReachable f) : ∃ o, Served f o :=
  h.invariant (P := fun f => ∃ o, Served f o) ⟨_, served_reset⟩ fun s i s' _ ⟨_, hs⟩ hstep => by
    obtain ⟨hproper, heq⟩ := Option.ite_none_right_eq_some.mp hstep
    obtain rfl := Option.some.inj heq
    exact ⟨_, hs.posedge hproper⟩

/-! ## Wait states -/

/-- The counter of a translator has `LOG2_OF_LATENCY_SUM` bits. -/
theorem counter_lt (h : ProperReachable f) (k : Slave) :
    (f.slave k).waitLatencyCounter < 2 ^ k.config.log2OfLatencySum := by
  have hpos : ∀ k : Slave, 0 < 2 ^ k.config.log2OfLatencySum := fun k => Nat.two_pow_pos _
  refine h.invariant
    (P := fun f => ∀ k, (f.slave k).waitLatencyCounter < 2 ^ k.config.log2OfLatencySum)
    hpos (fun s i s' _ hs hstep k => ?_) k
  obtain ⟨_, heq⟩ := Option.ite_none_right_eq_some.mp hstep
  obtain rfl := Option.some.inj heq
  show (if _ then 0 else if _ then (_ + 1) % 2 ^ k.config.log2OfLatencySum else 0) < _
  split
  · exact hpos k
  · split
    · exact Nat.mod_lt _ (hpos k)
    · exact hpos k

/-- Nothing holds the command of the data master back. -/
structure Free (f : Fabric) (i : FabricInput) : Prop where
  held : f.holdWaitrequest .data = false
  released : (f.limiter .data).suppress (f.cmd i .data) = false

/-- The data master accesses the simple core `k`. -/
structure Access (i : FabricInput) (d : DataMaster) (k : Slave) : Prop where
  drives : i.dataMaster = d
  request : (d.read || d.write) = true
  target : target i .data = k
  simple : k.simple

/-- The count at which an access is accepted. -/
def goal (d : DataMaster) : Nat := if d.write then 0 else 1

section

variable {d : DataMaster} {k : Slave}

theorem Access.cp_eq (h : Access i d k) : f.cp i k = f.offered i .data k := by
  rw [Fabric.cp, h.simple.1, if_neg Bool.false_ne_true]

theorem Access.cmd_valid (h : Access i d k) :
    (f.cmd i .data).valid = !f.holdWaitrequest .data := by
  rw [Fabric.cmd_valid]
  show ((i.dataMaster.read || i.dataMaster.write) && _) = _
  rw [h.drives, h.request, Bool.true_and]

namespace Served

/-- The core's command is valid when nothing holds it back. -/
theorem cp_valid (h : Served f o) (ha : Access i d k) : (f.cp i k).valid
    = (!f.holdWaitrequest .data && !(f.limiter .data).suppress (f.cmd i .data)) := by
  rw [ha.cp_eq, h.inv.offered_valid (show Master.data.Reaches k from trivial), ha.cmd_valid,
    ha.target, decide_eq_true rfl, Bool.and_true]

/-- Whether the core is accessed. -/
theorem m0_eq (h : Served f o) (ha : Access i d k) :
    ((f.slave k).m0Read (f.slaveInput i k) || (f.slave k).m0Write (f.slaveInput i k))
      = (f.cp i k).valid := by
  have hplain : SlaveSide.Plain (f.slaveInput i k).cp := by
    show SlaveSide.Plain (f.cp i k)
    exact ha.cp_eq ▸ offered_plain _ _
  rw [(h.inv.slave k).m0Read_eq hplain, (h.inv.slave k).m0Write_eq, ← Bool.and_or_distrib_left]
  show ((f.cp i k).valid && ((f.cp i k).data.transRead || (f.cp i k).data.transWrite)) = _
  rw [ha.cp_eq, offered_read, offered_write]
  show (_ && (i.dataMaster.read || i.dataMaster.write)) = _
  rw [ha.drives, ha.request, Bool.and_true]

/-- The translator waits until the count is the goal. -/
theorem uavWaitrequest_eq (h : Served f o) (ha : Access i d k) (hfree : Free f i) :
    (f.slave k).uavWaitrequest k.config (f.slaveInput i k)
      = decide ((f.slave k).waitLatencyCounter ≠ goal d) := by
  obtain ⟨hlog, hcycles⟩ := Slave.simple_config _ ha.simple
  have hwrite : (f.slave k).m0Write (f.slaveInput i k) = d.write := by
    rw [(h.inv.slave _).m0Write_eq]
    show ((f.cp i k).valid && (f.cp i k).data.transWrite) = _
    rw [h.cp_valid ha, hfree.held, hfree.released, ha.cp_eq, offered_write, ← ha.drives]
    rfl
  rw [SlaveSide.uavWaitrequest, ha.simple.2, if_neg Bool.false_ne_true,
    ← h.inv.held .data k, hfree.held, Bool.or_false, SlaveSide.avWaitrequestGenerated, hlog,
    if_neg (by decide), if_pos ⟨by decide, ha.simple.2⟩, hwrite, hcycles, goal]
  split <;> rfl

/-- **Accepted at the goal.** Nothing else is in the way of a command that is free. -/
theorem accepted_goal (h : Served f o) (ha : Access i d k) (hfree : Free f i) :
    f.accepted i .data = decide ((f.slave k).waitLatencyCounter = goal d) := by
  rw [accepted_eq, ha.cmd_valid, hfree.held, hfree.released, ha.target, cmdReady, ha.simple.1,
    if_neg Bool.false_ne_true, cpReady, (h.inv.slave k).cpReady_eq, h.uavWaitrequest_eq ha hfree,
    decide_not, Bool.not_not]
  rfl

/-- A cycle of waiting counts. -/
theorem counter_next (h : Served f o) (ha : Access i d k) (hfree : Free f i)
    (hacc : f.accepted i .data = false) : ((f.posedge i).slave k).waitLatencyCounter
      = ((f.slave k).waitLatencyCounter + 1) % 4 := by
  rw [h.accepted_goal ha hfree, decide_eq_false_iff_not] at hacc
  show (if !(f.slave k).uavWaitrequest k.config (f.slaveInput i k)
      || (f.slave k).waitrequestResetOverride then 0
    else if (f.slave k).m0Read (f.slaveInput i k) || (f.slave k).m0Write (f.slaveInput i k) then
      ((f.slave k).waitLatencyCounter + 1) % 2 ^ k.config.log2OfLatencySum else 0) = _
  rw [h.uavWaitrequest_eq ha hfree, decide_eq_true hacc, ← h.inv.held .data k, hfree.held,
    h.m0_eq ha, h.cp_valid ha, hfree.held, hfree.released, (Slave.simple_config _ ha.simple).1]
  rfl

/-- A cycle in which the command is held back resets the count. -/
theorem counter_zero (h : Served f o) (ha : Access i d k) (hfree : ¬Free f i) :
    ((f.posedge i).slave k).waitLatencyCounter = 0 := by
  have hinvalid : (f.cp i k).valid = false := by
    refine (Bool.eq_false_or_eq_true _).resolve_left fun hvalid => hfree ?_
    rw [h.cp_valid ha, Bool.and_eq_true, Bool.not_eq_true', Bool.not_eq_true'] at hvalid
    exact ⟨hvalid.1, hvalid.2⟩
  show (if _ then 0
    else if (f.slave k).m0Read (f.slaveInput i k) || (f.slave k).m0Write (f.slaveInput i k) then _
    else 0) = 0
  rw [h.m0_eq ha, hinvalid, if_neg Bool.false_ne_true, ite_self]

/-- The limiter waits exactly while its master is owed. -/
theorem pending_eq (h : Served f o) :
    (f.limiter m).hasPendingResponses = true ↔ ∃ k, owes o k m = true := by
  obtain ⟨a, ha⟩ := h.account m
  rw [← ha.limiter, (ha.reachable.inv Nat.one_pos).1.pending, ← ha.owed, Bool.not_eq_true',
    List.isEmpty_eq_false_iff]

/-- After a cycle in which nothing is accepted nothing is held back. -/
theorem free_next (h : Served f o) (hproper : i.proper = true)
    (hacc : f.accepted i .data = false) (i' : FabricInput) : Free (f.posedge i) i' := by
  refine ⟨rfl, ?_⟩
  have hpending : ((f.posedge i).limiter .data).hasPendingResponses = false := by
    refine (Bool.eq_false_or_eq_true _).resolve_left fun hpending => ?_
    obtain ⟨k, howes⟩ := (h.posedge hproper).pending_eq.mp hpending
    exact Bool.false_ne_true (hacc.symm.trans (h.inv.owes_waiting.mp howes).1.1)
  rw [Limiter.suppress, hpending, Bool.and_false, Bool.false_and]

end Served

/-- An accepted command was free. -/
theorem free_of_accepted (hacc : f.accepted i .data = true) : Free f i := by
  rw [accepted_eq, Fabric.cmd_valid, Bool.and_eq_true, Bool.and_eq_true, Bool.and_eq_true,
    Bool.not_eq_true', Bool.not_eq_true'] at hacc
  exact ⟨hacc.1.1.2, hacc.1.2⟩

end

/-! ## Requests over time -/

/-- The states of a run. -/
def after (f : Fabric) (inputs : Nat → FabricInput) : Nat → Fabric
  | 0 => f
  | n + 1 => after (f.posedge (inputs 0)) (fun j => inputs (j + 1)) n

/-- The data master drives `d` until it is accepted. -/
def Keeps (f : Fabric) (inputs : Nat → FabricInput) (d : DataMaster) : Prop :=
  ∀ n, (∀ j < n, (f.after inputs j).accepted (inputs j) .data = false) →
    (inputs n).dataMaster = d

/-- A read or a write of a simple core. -/
structure Request (d : DataMaster) : Prop where
  asks : (d.read || d.write) = true
  single : (d.read && d.write) = false
  simple : (slaveAt d.address d.read).simple

section

variable {d : DataMaster} {inputs : Nat → FabricInput}

/-- The request goes on after a cycle in which it is not accepted. -/
theorem Keeps.next (h : Keeps f inputs d) (hacc : f.accepted (inputs 0) .data = false) :
    Keeps (f.posedge (inputs 0)) (fun j => inputs (j + 1)) d := fun n hn =>
  h (n + 1) fun j hj => by
    cases j with
    | zero => exact hacc
    | succ j => exact hn j (Nat.lt_of_succ_lt_succ hj)

theorem Keeps.drives (h : Keeps f inputs d) : (inputs 0).dataMaster = d :=
  h 0 fun _ hj => absurd hj (Nat.not_lt_zero _)

/-- In each of its cycles it is an access of the core. -/
theorem Keeps.access (h : Keeps f inputs d) (hd : Request d) :
    Access (inputs 0) d (slaveAt d.address d.read) := by
  refine ⟨h.drives, hd.asks, ?_, hd.simple⟩
  show slaveAt (inputs 0).dataMaster.address (inputs 0).dataMaster.read = _
  rw [h.drives]

theorem Keeps.proper (h : Keeps f inputs d) (hd : Request d) : (inputs 0).proper = true := by
  rw [FabricInput.proper, h.drives, hd.single]
  rfl

/-- The count of a simple core is one of four. -/
theorem counter_lt_four (h : ProperReachable f) (hd : Request d) :
    (f.slave (slaveAt d.address d.read)).waitLatencyCounter < 4 := by
  have hlt := counter_lt h (slaveAt d.address d.read)
  rw [(Slave.simple_config _ hd.simple).1] at hlt
  exact hlt

/-- Once nothing holds it back, an access is accepted when the count has come round to its goal. -/
theorem serves_free (hd : Request d) {j : Nat} (h : ProperReachable f) (hkeeps : Keeps f inputs d)
    (hfree : Free f (inputs 0))
    (hgoal : ((f.slave (slaveAt d.address d.read)).waitLatencyCounter + j) % 4 = goal d) :
    ∃ n ≤ j, (f.after inputs n).accepted (inputs n) .data = true := by
  induction j generalizing f inputs with
  | zero =>
    obtain ⟨o, hs⟩ := h.served
    rw [Nat.add_zero, Nat.mod_eq_of_lt (counter_lt_four h hd)] at hgoal
    exact ⟨0, Nat.le_refl 0,
      (hs.accepted_goal (hkeeps.access hd) hfree).trans (decide_eq_true hgoal)⟩
  | succ j ih =>
    obtain ⟨o, hs⟩ := h.served
    have hproper := hkeeps.proper hd
    cases hacc : f.accepted (inputs 0) .data with
    | true => exact ⟨0, Nat.zero_le _, hacc⟩
    | false =>
      obtain ⟨n, hn, hserved⟩ := ih (h.next (inputs 0) (if_pos hproper)) (hkeeps.next hacc)
        (hs.free_next hproper hacc _) (by
          rw [hs.counter_next (hkeeps.access hd) hfree hacc]
          omega)
      exact ⟨n + 1, Nat.succ_le_succ hn, hserved⟩

end

/-! ## The results -/

/-- **Release.**  In every run without an access that reads and writes at once, what each limiter
    sees is a legal run of its account, with at most one response pending, and legal for the account
    to go on with.  The limiter has a response pending exactly when it is there in this cycle, and
    what it holds back in a cycle it does not hold back in the next. -/
theorem fabric_releases {inputs : List FabricInput}
    (h : Transition.run properStep reset inputs = some f) (i i' : FabricInput) (m : Master) :
    (∃ a : Account 1,
        Transition.run Account.step .reset (limiterInputs m reset inputs) = some a
          ∧ a.limiter = f.limiter m ∧ a.owed.length ≤ 1 ∧ a.Legal (f.limiterInput i m))
      ∧ (f.limiter m).hasPendingResponses = (f.answer i m).valid
      ∧ ((f.limiter m).suppress (f.cmd i m) = true →
        ((f.posedge i).limiter m).suppress ((f.posedge i).cmd i' m) = false) := by
  obtain ⟨o, a, hs, ha, hrun⟩ := served_reset.run_account (accounts_reset m) h
  refine ⟨⟨a, hrun, ha.limiter, ha.single, hs.legal ha⟩, ?_, fun hheld => ?_⟩
  · rw [Bool.eq_iff_iff, hs.answer_valid, hs.pending_eq]
  · -- nothing is accepted in this cycle, so nothing is pending in the next
    have hpending : (a.limiter.posedge (f.limiterInput i m)).hasPendingResponses
        = !(a.limiter.owing (f.limiterInput i m) a.owed).isEmpty :=
      ((hs.reachable_next ha).inv Nat.one_pos).1.pending
    have hacc : f.accepted i m = false := by
      rw [accepted_eq, hheld, Bool.not_true, Bool.and_false, Bool.false_and]
    rw [hs.owing_eq ha, hacc, Bool.false_and, if_neg Bool.false_ne_true, ha.limiter] at hpending
    show (_ && ((f.limiter m).posedge (f.limiterInput i m)).hasPendingResponses && _) = false
    rw [hpending, List.isEmpty_nil, Bool.not_true, Bool.and_false, Bool.false_and]

/-- The switches are read, and the word is on its way. -/
def switchesPending : Fabric :=
  ((reset.posedge quiet).posedge switchesRead).posedge switchesRead

def ledRead : FabricInput := request true false 0x81030 0

/-- A read of the green LEDs right after it has to wait for a cycle. -/
theorem fabric_releases_led :
    (switchesPending.limiter .data).suppress (switchesPending.cmd ledRead .data) = true
      ∧ ((switchesPending.posedge ledRead).limiter .data).suppress
        ((switchesPending.posedge ledRead).cmd ledRead .data) = false := by
  have hheld : (switchesPending.limiter .data).suppress (switchesPending.cmd ledRead .data)
      = true := by decide +kernel
  have hrun : Transition.run properStep reset [quiet, switchesRead, switchesRead]
      = some switchesPending := rfl
  obtain ⟨_, _, hreleased⟩ := fabric_releases hrun ledRead ledRead .data
  exact ⟨hheld, hreleased hheld⟩

/-- **Service.**  In every state that such a run reaches, and whatever the instruction master and
    the cores do, an access of the data master to a core that cannot wait by itself is accepted in
    one of four cycles, if the data master keeps it until then. -/
theorem fabric_serves (h : ProperReachable f) {d : DataMaster} (hd : Request d)
    {inputs : Nat → FabricInput} (hkeeps : Keeps f inputs d) :
    ∃ n < 4, (f.after inputs n).accepted (inputs n) .data = true := by
  have hlt := counter_lt_four h hd
  have hgoal : goal d ≤ 1 := by
    rw [goal]
    split
    · exact Nat.zero_le 1
    · exact Nat.le_refl 1
  by_cases hfree : Free f (inputs 0)
  · obtain ⟨n, hn, hserved⟩ := serves_free hd
      (j := (goal d + 4 - (f.slave (slaveAt d.address d.read)).waitLatencyCounter) % 4)
      h hkeeps hfree (by omega)
    exact ⟨n, by omega, hserved⟩
  · -- held back for this cycle, after which the count starts at zero
    obtain ⟨o, hs⟩ := h.served
    have hacc : f.accepted (inputs 0) .data = false :=
      (Bool.eq_false_or_eq_true _).resolve_left fun hacc => hfree (free_of_accepted hacc)
    have hproper := hkeeps.proper hd
    obtain ⟨n, hn, hserved⟩ := serves_free hd (j := goal d) (h.next (inputs 0) (if_pos hproper))
      (hkeeps.next hacc) (hs.free_next hproper hacc _) (by
        rw [hs.counter_zero (hkeeps.access hd) hfree]
        omega)
    exact ⟨n + 1, by omega, hserved⟩

/-- The green LEDs are written from reset on. -/
theorem fabric_serves_led :
    ∃ n < 4, (reset.after (fun _ => ledWrite) n).accepted ledWrite .data = true := by
  have hkeeps : Keeps reset (fun _ => ledWrite) ledWrite.dataMaster := fun _ _ => rfl
  exact fabric_serves .start ⟨rfl, rfl, by decide, by decide⟩ hkeeps

end Fabric

end GpsReceiver.Interconnect
