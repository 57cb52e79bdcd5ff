import Ns3Pedca.Bytes
import Ns3Pedca.Wifi.BlockAckWindow

/-!
# MAC headers

The fields of `WifiMacHeader` that sequence numbers, fragments and duplicates are handled by :
the addresses, the QoS control field of a QoS data frame, the sequence control field, and
what the size of the header depends on. On the air the sequence number has 12 bits and the
fragment number 4.
-/

namespace Ns3Pedca

/-- A packet, as its bytes. -/
abbrev Packet := List UInt8

/-- `Mac48Address`. -/
structure Mac48Address where
  address : Vector UInt8 6
  deriving DecidableEq

namespace Mac48Address

/-- `IsGroup`. -/
def isGroup (a : Mac48Address) : Bool :=
  a.address[0] &&& 0x01 = 0x01

/-- `IsBroadcast`. -/
def isBroadcast (a : Mac48Address) : Bool :=
  a = ⟨#v[0xff, 0xff, 0xff, 0xff, 0xff, 0xff]⟩

/-- The address of a station, by its last octet. -/
def station (n : UInt8) : Mac48Address :=
  ⟨#v[0, 0, 0, 0, 0, n]⟩

end Mac48Address

/-- The QoS control field. -/
structure QosControl where
  qosTid : Fin 16
  isQosAmsdu : Bool := false
  deriving DecidableEq

/-- `WifiMacHeader`. -/
structure WifiMacHeader where
  /-- A management frame, or a data frame. -/
  isMgt : Bool := false
  isToDs : Bool := false
  isFromDs : Bool := false
  addr1 : Mac48Address
  addr2 : Mac48Address
  /-- The QoS control field of a QoS data frame, `none` in other frames. -/
  qosControl : Option QosControl := none
  sequenceNumber : SeqNo
  fragmentNumber : Fin 16 := 0
  isMoreFragments : Bool := false
  isRetry : Bool := false
  deriving DecidableEq

namespace WifiMacHeader

variable (hdr : WifiMacHeader)

/-- `GetSize`, in bytes. -/
def getSize : ℕ :=
  if hdr.isMgt then 2 + 2 + 6 + 6 + 6 + 2
  else 2 + 2 + 6 + 6 + 6 + 2 + (if hdr.isToDs && hdr.isFromDs then 6 else 0) +
    if hdr.qosControl.isSome then 2 else 0

/-- `IsFragment` of an MPDU with this header. -/
def isFragment : Bool :=
  hdr.isMoreFragments || 0 < hdr.fragmentNumber

/-- `GetSequenceControl`. -/
def getSequenceControl : ℕ :=
  hdr.sequenceNumber.val <<< 4 ||| hdr.fragmentNumber.val

theorem getSequenceControl_eq :
    hdr.getSequenceControl = 16 * hdr.sequenceNumber.val + hdr.fragmentNumber.val := by
  rw [getSequenceControl, ← Nat.shiftLeft_add_eq_or_of_lt hdr.fragmentNumber.isLt,
    Nat.shiftLeft_eq, Nat.mul_comm]

theorem getSize_le : hdr.getSize ≤ 32 := by
  unfold getSize
  split_ifs <;> decide

theorem even_getSize : Even hdr.getSize := by
  unfold getSize
  split_ifs <;> decide

@[simp] theorem getSequenceControl_shiftRight :
    hdr.getSequenceControl >>> 4 = hdr.sequenceNumber.val := by
  rw [getSequenceControl_eq, Nat.shiftRight_eq_div_pow]
  omega

@[simp] theorem getSequenceControl_and :
    hdr.getSequenceControl &&& 0x0f = hdr.fragmentNumber.val := by
  rw [getSequenceControl_eq, show (0x0f : ℕ) = 2 ^ 4 - 1 from rfl, Nat.and_two_pow_sub_one_eq_mod]
  omega

end WifiMacHeader

end Ns3Pedca
