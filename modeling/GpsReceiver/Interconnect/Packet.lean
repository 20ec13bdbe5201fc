/-
  The packets of the bus interconnect.

  1. **Layout** — `Packet` names the fields of the 96 bits, lowest first; `pack` and `unpack` are the
     two views (`unpack_pack`, `pack_unpack`).
  2. **Beats** — `Beat`: a packet with the signals of the streaming interface.  `payload` is the word
     in which the multiplexers pass it on.
-/
import Mathlib.Data.BitVec

namespace GpsReceiver.Interconnect

/-! ## Layout -/

/-- The fields of a packet, by the parameters `PKT_…`. -/
structure Packet where
  data : BitVec 32
  byteen : BitVec 4
  addr : BitVec 20
  transCompressedRead : Bool
  transPosted : Bool
  transWrite : Bool
  transRead : Bool
  transLock : Bool
  transExclusive : Bool
  byteCnt : BitVec 3
  burstwrap : BitVec 3
  burstSize : BitVec 3
  burstType : BitVec 2
  addrSideband : BitVec 1
  dataSideband : BitVec 1
  beginBurst : Bool
  qos : BitVec 1
  srcId : BitVec 3
  destId : BitVec 3
  threadId : BitVec 1
  protection : BitVec 3
  cache : BitVec 4
  responseStatus : BitVec 2
  oriBurstSize : BitVec 3
  deriving DecidableEq

namespace Packet

/-- The word on the wires, highest field first. -/
def pack (p : Packet) : BitVec 96 :=
  p.oriBurstSize ++ p.responseStatus ++ p.cache ++ p.protection ++ p.threadId ++ p.destId
    ++ p.srcId ++ p.qos ++ BitVec.ofBool p.beginBurst ++ p.dataSideband ++ p.addrSideband
    ++ p.burstType ++ p.burstSize ++ p.burstwrap ++ p.byteCnt ++ BitVec.ofBool p.transExclusive
    ++ BitVec.ofBool p.transLock ++ BitVec.ofBool p.transRead ++ BitVec.ofBool p.transWrite
    ++ BitVec.ofBool p.transPosted ++ BitVec.ofBool p.transCompressedRead ++ p.addr ++ p.byteen
    ++ p.data

/-- The fields of a word, by the positions `PKT_…_H` and `PKT_…_L`. -/
def unpack (w : BitVec 96) : Packet where
  data := w.extractLsb' 0 32
  byteen := w.extractLsb' 32 4
  addr := w.extractLsb' 36 20
  transCompressedRead := w.getLsbD 56
  transPosted := w.getLsbD 57
  transWrite := w.getLsbD 58
  transRead := w.getLsbD 59
  transLock := w.getLsbD 60
  transExclusive := w.getLsbD 61
  byteCnt := w.extractLsb' 62 3
  burstwrap := w.extractLsb' 65 3
  burstSize := w.extractLsb' 68 3
  burstType := w.extractLsb' 71 2
  addrSideband := w.extractLsb' 73 1
  dataSideband := w.extractLsb' 74 1
  beginBurst := w.getLsbD 75
  qos := w.extractLsb' 76 1
  srcId := w.extractLsb' 77 3
  destId := w.extractLsb' 80 3
  threadId := w.extractLsb' 83 1
  protection := w.extractLsb' 84 3
  cache := w.extractLsb' 87 4
  responseStatus := w.extractLsb' 91 2
  oriBurstSize := w.extractLsb' 93 3

/-! ## The two views -/

variable {n : Nat}

theorem ofBool_beq (b : Bool) : (BitVec.ofBool b == 1#1) = b := by cases b <;> rfl

theorem bit_eq (w : BitVec n) (i : Nat) : w.getLsbD i = (w.extractLsb' i 1 == 1#1) :=
  BitVec.getLsbD_eq_extractLsb' w i

/-- A flag and the slice of one bit are the same. -/
theorem ofBool_bit (w : BitVec n) (i : Nat) : BitVec.ofBool (w.getLsbD i) = w.extractLsb' i 1 := by
  rw [bit_eq]
  generalize w.extractLsb' i 1 = b
  revert b
  decide

/-- **Nothing is lost in packing.** The fields do not overlap. -/
theorem unpack_pack (p : Packet) : unpack p.pack = p := by
  obtain ⟨data, byteen, addr, compressed, posted, write, read, lock, exclusive, byteCnt, burstwrap,
    burstSize, burstType, addrSideband, dataSideband, beginBurst, qos, srcId, destId, threadId,
    protection, cache, responseStatus, oriBurstSize⟩ := p
  simp (disch := omega) only [unpack, pack, bit_eq, BitVec.extractLsb'_append_eq_of_le,
    BitVec.extractLsb'_append_eq_of_add_le, Nat.reduceSub, BitVec.extractLsb'_eq_self]
  simp only [ofBool_beq]

/-- Every word is that of some packet: the fields leave no bit out. -/
theorem pack_unpack (w : BitVec 96) : (unpack w).pack = w := by
  simp only [unpack, pack, ofBool_bit]
  simp (disch := omega) only [BitVec.extractLsb'_append_extractLsb'_eq_extractLsb']
  exact BitVec.extractLsb'_eq_self

end Packet

/-! ## Beats -/

/-- One beat of a packet. -/
structure Beat where
  valid : Bool
  data : Packet
  channel : BitVec 8
  startofpacket : Bool
  endofpacket : Bool
  deriving DecidableEq

namespace Beat

/-- What the multiplexers pass on: all signals but `valid`. -/
def payload (b : Beat) : BitVec 106 :=
  b.channel ++ b.data.pack ++ BitVec.ofBool b.startofpacket ++ BitVec.ofBool b.endofpacket

/-- The beat a payload stands for. -/
def ofPayload (valid : Bool) (p : BitVec 106) : Beat where
  valid := valid
  data := .unpack (p.extractLsb' 2 96)
  channel := p.extractLsb' 98 8
  startofpacket := p.getLsbD 1
  endofpacket := p.getLsbD 0

/-- A multiplexer that passes a payload on passes the beat on. -/
theorem ofPayload_payload (b : Beat) (valid : Bool) :
    ofPayload valid b.payload = { b with valid := valid } := by
  simp (disch := omega) only [ofPayload, payload, Packet.bit_eq,
    BitVec.extractLsb'_append_eq_of_le, BitVec.extractLsb'_append_eq_of_add_le, Nat.reduceSub,
    BitVec.extractLsb'_eq_self, Packet.ofBool_beq, Packet.unpack_pack]

/-- The last beat of a packet after which the arbitration is not locked. -/
def closes (b : Beat) : Bool := b.endofpacket && !b.data.transLock

end Beat

end GpsReceiver.Interconnect
