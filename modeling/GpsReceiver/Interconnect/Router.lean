/-
  The routers of the bus interconnect: which slave an address belongs to.

  1. **Regions** — `Region`: an address range of the decoder, a power of two in size and aligned to
     it, so that the decoder compares the address bits above the range (`Region.hits_iff`).
  2. **Commands** — `router` and `router_001`: the last range hit sets channel and destination, and
     the on-chip memory takes what no range claims.
  3. **Responses** — `router_002` and `router_004`: the channel by the destination.
  4. **Memory map** — `slaveAt`: the slaves as the program sees them.
  5. **Results** — `router_map`: the routers decode the memory map.
-/
import GpsReceiver.Interconnect.Packet
import GpsReceiver.Lib.Wires
import Mathlib.Data.Fin.VecNotation
import Mathlib.Tactic.FinCases

namespace GpsReceiver.Interconnect

open Lib.Wires

/-! ## Regions -/

/-- `while (i < val) i = i << 1`, counting, on registers of 66 bits. -/
def log2ceilFrom (val : Nat) : Nat → Nat → Nat
  | 0, _ => 0
  | fuel + 1, i => if i < val then log2ceilFrom val fuel (2 * i) + 1 else 0

/-- `log2ceil`: the number of bits that tell `val` addresses apart. -/
def log2ceil (val : Nat) : Nat := log2ceilFrom val 66 1

/-- One branch of an address decoder. -/
structure Region where
  first : Nat
  last : Nat
  readOnly : Bool
  channel : BitVec 8
  destId : BitVec 3
  size : first + 2 ^ log2ceil (last - first) = last := by decide
  aligned : 2 ^ log2ceil (last - first) ∣ first := by decide
  inside : last ≤ 2 ^ 20 := by decide

namespace Region

/-- `PAD`: the bits below those compared. -/
def pad (r : Region) : Nat := log2ceil (r.last - r.first)

/-- `{address[RG:PAD], {PAD{1'b0}}} == first`, and the condition on the transaction. -/
def hits (r : Region) (p : Packet) : Bool :=
  (p.addr >>> r.pad) <<< r.pad == BitVec.ofNat 20 r.first && (!r.readOnly || p.transRead)

/-- **A branch decodes its range**: comparing the bits above an aligned power of two is the same as
    comparing with both ends. -/
theorem hits_iff (r : Region) (p : Packet) :
    r.hits p = true ↔ (r.first ≤ p.addr.toNat ∧ p.addr.toNat < r.last)
      ∧ (r.readOnly = true → p.transRead = true) := by
  have hsize : r.first + 2 ^ r.pad = r.last := r.size
  have hinside := r.inside
  have hpos : 0 < 2 ^ r.pad := Nat.two_pow_pos _
  have hlt := p.addr.isLt
  obtain ⟨c, hc⟩ : 2 ^ r.pad ∣ r.first := r.aligned
  have hmod := Nat.div_add_mod p.addr.toNat (2 ^ r.pad)
  have hrem := Nat.mod_lt p.addr.toNat hpos
  rw [hits, Bool.and_eq_true, beq_iff_eq, Bool.or_eq_true, Bool.not_eq_true']
  refine and_congr ?_ (by cases r.readOnly <;> simp)
  rw [← BitVec.toNat_inj, BitVec.toNat_shiftLeft, BitVec.toNat_ushiftRight, BitVec.toNat_ofNat,
    Nat.shiftRight_eq_div_pow, Nat.shiftLeft_eq, Nat.mul_comm, Nat.mod_eq_of_lt (by omega),
    Nat.mod_eq_of_lt (by omega), hc]
  constructor
  · intro heq
    omega
  · rintro ⟨hge, hlt'⟩
    have hle : c ≤ p.addr.toNat / 2 ^ r.pad := (Nat.le_div_iff_mul_le hpos).mpr (by
      rw [Nat.mul_comm]; omega)
    have hlt'' : p.addr.toNat / 2 ^ r.pad < c + 1 := (Nat.div_lt_iff_lt_mul hpos).mpr (by
      rw [Nat.add_mul, Nat.one_mul, Nat.mul_comm]; omega)
    rw [show p.addr.toNat / 2 ^ r.pad = c by omega]

end Region

/-! ## Commands -/

/-- Channel and packet after the branches of the decoder. -/
def route (regions : List Region) (defaultChannel : Nat) (defaultDestId : BitVec 3) (p : Packet) :
    BitVec 8 × Packet :=
  regions.foldl (fun src r => if r.hits p then (r.channel, { src.2 with destId := r.destId }) else src)
    (1#8 <<< defaultChannel, { p with destId := defaultDestId })

/-- The branches of `nios_cpu_mm_interconnect_0_router`. -/
def routerRegions : List Region :=
  [{ first := 0x40000, last := 0x80000, readOnly := false, channel := 0b00010000, destId := 4 },
   { first := 0x80800, last := 0x81000, readOnly := false, channel := 0b00000100, destId := 3 },
   { first := 0x81000, last := 0x81010, readOnly := false, channel := 0b10000000, destId := 5 },
   { first := 0x81010, last := 0x81020, readOnly := true, channel := 0b01000000, destId := 6 },
   { first := 0x81020, last := 0x81030, readOnly := false, channel := 0b00100000, destId := 2 },
   { first := 0x81030, last := 0x81040, readOnly := false, channel := 0b00001000, destId := 1 },
   { first := 0x81040, last := 0x81048, readOnly := true, channel := 0b00000010, destId := 7 },
   { first := 0x81048, last := 0x81050, readOnly := false, channel := 0b00000001, destId := 0 }]

/-- `nios_cpu_mm_interconnect_0_router`, of the data master. -/
def router (p : Packet) : BitVec 8 × Packet := route routerRegions 4 4 p

/-- The branches of `nios_cpu_mm_interconnect_0_router_001`. -/
def router001Regions : List Region :=
  [{ first := 0x40000, last := 0x80000, readOnly := false, channel := 0b10, destId := 4 },
   { first := 0x80800, last := 0x81000, readOnly := false, channel := 0b01, destId := 3 }]

/-- `nios_cpu_mm_interconnect_0_router_001`, of the instruction master. -/
def router001 (p : Packet) : BitVec 8 × Packet := route router001Regions 1 4 p

/-! ## Responses -/

/-- `nios_cpu_mm_interconnect_0_router_002`, of a slave that only the data master reaches. -/
def router002 (p : Packet) : BitVec 8 := if p.destId = 0 then 1#8 else 1#8 <<< 0

/-- `nios_cpu_mm_interconnect_0_router_004`, of a slave that both masters reach: the second branch
    is for reads. -/
def router004 (p : Packet) : BitVec 8 :=
  let channel := if p.destId = 0 then 0b01#8 else 1#8 <<< 0
  if p.destId = 1 ∧ p.transRead = true then 0b10#8 else channel

/-! ## The memory map -/

/-- The slaves, by the channel of the data master. -/
abbrev Slave := Fin 8

namespace Slave

def jtagUart : Slave := 0
def sysid : Slave := 1
def debugMem : Slave := 2
def ledGreen : Slave := 3
def onchipMemory : Slave := 4
def ledRed : Slave := 5
def switches : Slave := 6
def pushBtns : Slave := 7

/-- The number of the slave in `PKT_DEST_ID`. -/
def destId : Slave → BitVec 3 := ![0, 7, 3, 1, 4, 2, 6, 5]

end Slave

/-- The slave at an address.  What nobody claims, and a write to a slave that only reads, goes to the
    memory. -/
def slaveAt (addr : BitVec 20) (read : Bool) : Slave :=
  if 0x81048 ≤ addr.toNat ∧ addr.toNat < 0x81050 then .jtagUart
  else if (0x81040 ≤ addr.toNat ∧ addr.toNat < 0x81048) ∧ read = true then .sysid
  else if 0x81030 ≤ addr.toNat ∧ addr.toNat < 0x81040 then .ledGreen
  else if 0x81020 ≤ addr.toNat ∧ addr.toNat < 0x81030 then .ledRed
  else if (0x81010 ≤ addr.toNat ∧ addr.toNat < 0x81020) ∧ read = true then .switches
  else if 0x81000 ≤ addr.toNat ∧ addr.toNat < 0x81010 then .pushBtns
  else if 0x80800 ≤ addr.toNat ∧ addr.toNat < 0x81000 then .debugMem
  else .onchipMemory

/-- The slave that an instruction is fetched from. -/
def fetchAt (addr : BitVec 20) : Slave :=
  if 0x80800 ≤ addr.toNat ∧ addr.toNat < 0x81000 then .debugMem else .onchipMemory

/-- The channel of the instruction master for a slave. -/
def fetchChannel (s : Slave) : BitVec 8 := if s = .debugMem then 0b01 else 0b10

/-- The packet passes through but for its destination. -/
theorem route_eq (regions : List Region) (c : Nat) (d : BitVec 3) (p : Packet) :
    route regions c d p
      = ((regions.foldl (fun o r => if r.hits p then (r.channel, r.destId) else o) (1#8 <<< c, d)).1,
        { p with destId := (regions.foldl (fun o r => if r.hits p then (r.channel, r.destId) else o)
          (1#8 <<< c, d)).2 }) := by
  unfold route
  generalize 1#8 <<< c = channel
  induction regions generalizing channel d with
  | nil => rfl
  | cons r rs ih =>
    rw [List.foldl_cons, List.foldl_cons]
    cases r.hits p with
    | true => exact ih r.destId r.channel
    | false => exact ih d channel

/-- The branches of the data master, taken together, are the memory map. -/
theorem router_eq (p : Packet) :
    router p = (grantOf (some (slaveAt p.addr p.transRead)),
      { p with destId := (slaveAt p.addr p.transRead).destId }) := by
  rw [router, route_eq]
  have hroute : routerRegions.foldl (fun o r => if r.hits p then (r.channel, r.destId) else o)
      (1#8 <<< 4, 4) = (grantOf (some (slaveAt p.addr p.transRead)),
        (slaveAt p.addr p.transRead).destId) := by
    simp only [routerRegions, List.foldl_cons, List.foldl_nil, Region.hits_iff, Bool.false_eq_true,
      false_implies, and_true, true_implies, slaveAt]
    split_ifs <;> rfl
  rw [hroute]

/-- Those of the instruction master are the map of the two memories. -/
theorem router001_eq (p : Packet) :
    router001 p = (fetchChannel (fetchAt p.addr), { p with destId := (fetchAt p.addr).destId }) := by
  rw [router001, route_eq]
  have hroute : router001Regions.foldl (fun o r => if r.hits p then (r.channel, r.destId) else o)
      (1#8 <<< 1, 4) = (fetchChannel (fetchAt p.addr), (fetchAt p.addr).destId) := by
    simp only [router001Regions, List.foldl_cons, List.foldl_nil, Region.hits_iff,
      Bool.false_eq_true, false_implies, and_true, fetchAt]
    split_ifs <;> rfl
  rw [hroute]

/-- Below the cores the two masters see the same memory map. -/
theorem fetchAt_eq (addr : BitVec 20) (read : Bool) (h : addr.toNat < 0x81000) :
    fetchAt addr = slaveAt addr read := by
  unfold fetchAt slaveAt
  split_ifs <;> first | rfl | omega

/-- The slaves have different numbers. -/
theorem destId_inj {s t : Slave} (h : s.destId = t.destId) : s = t := by
  revert s t
  decide

/-! ## Results -/

namespace Slave

/-- `…_BASE`. -/
def base : Slave → Nat :=
  ![0x81048, 0x81040, 0x80800, 0x81030, 0x40000, 0x81020, 0x81010, 0x81000]

/-- `…_SPAN`. -/
def span : Slave → Nat := ![8, 8, 2048, 16, 204800, 16, 16, 16]

/-- The slave has nothing to write. -/
def readOnly (s : Slave) : Bool := s == sysid || s == switches

/-- The program accesses the slave. -/
def Claims (s : Slave) (p : Packet) : Prop :=
  s.base ≤ p.addr.toNat ∧ p.addr.toNat < s.base + s.span
    ∧ (s.readOnly = true → p.transRead = true)

instance (s : Slave) (p : Packet) : Decidable (s.Claims p) :=
  inferInstanceAs (Decidable (_ ∧ _ ∧ (_ → _)))

end Slave

/-- The spans are disjoint. -/
theorem Slave.disjoint : ∀ s t : Slave, s ≠ t →
    s.base + s.span ≤ t.base ∨ t.base + t.span ≤ s.base := by
  decide

/-- So no two slaves claim one access. -/
theorem Slave.Claims.unique {s t : Slave} {p : Packet} (hs : s.Claims p) (ht : t.Claims p) :
    s = t := by
  by_contra hne
  have hs' := hs.2.1
  have ht' := ht.2.1
  rcases Slave.disjoint s t hne with hle | hle
  · exact absurd ht.1 (by omega)
  · exact absurd hs.1 (by omega)

/-- Outside of its last branch the map names a slave that claims the access. -/
theorem claims_slaveAt {p : Packet} (h : slaveAt p.addr p.transRead ≠ .onchipMemory) :
    (slaveAt p.addr p.transRead).Claims p := by
  unfold slaveAt at h ⊢
  split_ifs at h ⊢ with h0 h1 h2 h3 h4 h5 h6
  · exact ⟨h0.1, h0.2, fun hro => absurd hro (by decide)⟩
  · exact ⟨h1.1.1, h1.1.2, fun _ => h1.2⟩
  · exact ⟨h2.1, h2.2, fun hro => absurd hro (by decide)⟩
  · exact ⟨h3.1, h3.2, fun hro => absurd hro (by decide)⟩
  · exact ⟨h4.1.1, h4.1.2, fun _ => h4.2⟩
  · exact ⟨h5.1, h5.2, fun hro => absurd hro (by decide)⟩
  · exact ⟨h6.1, h6.2, fun hro => absurd hro (by decide)⟩
  · exact absurd rfl h

/-- In the last branch of the map no other slave claims the access. -/
theorem unclaimed_of_slaveAt {p : Packet} (h : slaveAt p.addr p.transRead = .onchipMemory)
    (s : Slave) (hs : s ≠ .onchipMemory) : ¬ s.Claims p := by
  rintro ⟨hbase, hspan, hread⟩
  unfold slaveAt at h
  split_ifs at h with h0 h1 h2 h3 h4 h5 h6
  all_goals first | exact absurd h (by decide) | skip
  fin_cases s
  · exact h0 ⟨hbase, hspan⟩
  · exact h1 ⟨⟨hbase, hspan⟩, hread rfl⟩
  · exact h6 ⟨hbase, hspan⟩
  · exact h2 ⟨hbase, hspan⟩
  · exact hs rfl
  · exact h3 ⟨hbase, hspan⟩
  · exact h4 ⟨⟨hbase, hspan⟩, hread rfl⟩
  · exact h5 ⟨hbase, hspan⟩

/-- The map gives an access to the slave that claims it, -/
theorem slaveAt_of_claims {s : Slave} {p : Packet} (h : s.Claims p) :
    slaveAt p.addr p.transRead = s := by
  by_cases hmem : slaveAt p.addr p.transRead = .onchipMemory
  · by_contra hne
    exact unclaimed_of_slaveAt hmem s (fun heq => hne (hmem.trans heq.symm)) h
  · exact (claims_slaveAt hmem).unique h

/-- and one that none of the other slaves claims to the memory. -/
theorem slaveAt_of_unclaimed {p : Packet}
    (h : ∀ s : Slave, s ≠ .onchipMemory → ¬ s.Claims p) :
    slaveAt p.addr p.transRead = .onchipMemory := by
  by_contra hne
  exact h _ hne (claims_slaveAt hne)

/-- **The memory map.**  The router of the data master leads an access in the span of a slave to this
    slave, and every other one, with the writes to the slaves that only read, to the memory. -/
theorem router_map (p : Packet) :
    (∀ s : Slave, s.Claims p → router p = (grantOf (some s), { p with destId := s.destId }))
      ∧ ((∀ s : Slave, s ≠ .onchipMemory → ¬ s.Claims p) →
        router p
        = (grantOf (some Slave.onchipMemory), { p with destId := Slave.onchipMemory.destId })) := by
  refine ⟨fun s hs => ?_, fun hs => ?_⟩
  · rw [router_eq, slaveAt_of_claims hs]
  · rw [router_eq, slaveAt_of_unclaimed hs]

end GpsReceiver.Interconnect
