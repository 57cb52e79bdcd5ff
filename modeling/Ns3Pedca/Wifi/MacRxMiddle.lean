import Ns3Pedca.Runs
import Ns3Pedca.Wifi.WifiMacHeader

/-!
# The middle of the receiving MAC

`MacRxMiddle` discards duplicates and puts fragments together. It keeps an
`OriginatorRxStatus` for every originator, that is for every transmitter, and for every TID
of its QoS data; group addressed QoS data has the group address in place of the transmitter.

The state of the model lists what was received and what was forwarded up. A forwarded MPDU is
the received one or a new one with its header, which are told apart by nothing here but the
packet. The link is left out : it is only passed on.
-/

namespace Ns3Pedca

/-- A received MPDU : its header is that of the original MPDU. -/
structure RxMpdu where
  header : WifiMacHeader
  packet : Packet
  /-- The destination of the first MSDU of an A-MSDU. -/
  destinationAddr : Mac48Address := header.addr1
  deriving DecidableEq

/-- `OriginatorRxStatus` : there are no fragments while it is not defragmenting. -/
structure OriginatorRxStatus where
  isDeFragmenting : Bool
  lastSequenceControl : ℕ
  fragments : List Packet
  fragments_eq_nil : isDeFragmenting = false → fragments = []

namespace OriginatorRxStatus

variable (originator : OriginatorRxStatus) (packet : Packet)

/-- The constructor. -/
def init : OriginatorRxStatus where
  isDeFragmenting := false
  lastSequenceControl := 0xffff
  fragments := []
  fragments_eq_nil _ := rfl

/-- `AccumulateFirstFragment` and `AccumulateFragment`. -/
def accumulateFragment : OriginatorRxStatus where
  isDeFragmenting := true
  lastSequenceControl := originator.lastSequenceControl
  fragments := originator.fragments ++ [packet]
  fragments_eq_nil := by simp

/-- The packet returned by `AccumulateLastFragment`. -/
def fullPacket : Packet :=
  (originator.fragments ++ [packet]).flatten

/-- The state after `AccumulateLastFragment`. -/
def accumulateLastFragment : OriginatorRxStatus where
  isDeFragmenting := false
  lastSequenceControl := originator.lastSequenceControl
  fragments := []
  fragments_eq_nil _ := rfl

/-- `IsNextFragment`. -/
def isNextFragment (sequenceControl : ℕ) : Bool :=
  sequenceControl >>> 4 = originator.lastSequenceControl >>> 4 ∧
    sequenceControl &&& 0x0f = (originator.lastSequenceControl &&& 0x0f) + 1

/-- `SetSequenceControl`. -/
def setSequenceControl (sequenceControl : ℕ) : OriginatorRxStatus :=
  { originator with lastSequenceControl := sequenceControl }

end OriginatorRxStatus

/-- The keys of the two maps of statuses. -/
inductive OriginatorKey
  | qosOriginatorStatus (address : Mac48Address) (tid : Fin 16)
  | originatorStatus (source : Mac48Address)
  deriving DecidableEq

/-- `MacRxMiddle`. -/
structure MacRxMiddle where
  status : OriginatorKey → OriginatorRxStatus
  /-- What was received. -/
  received : List RxMpdu := []
  /-- What was forwarded up. -/
  forwarded : List RxMpdu := []

namespace MacRxMiddle

variable (rx : MacRxMiddle) (mpdu : RxMpdu)

/-- A status that is not in its map yet is a new one. -/
def init : MacRxMiddle where
  status _ := .init

/-- The key that `Lookup` looks an MPDU up with. -/
def lookupKey : OriginatorKey :=
  match mpdu.header.qosControl with
  | some qos =>
    if mpdu.header.addr1.isGroup then
      .qosOriginatorStatus
        (if qos.isQosAmsdu then mpdu.destinationAddr else mpdu.header.addr1) qos.qosTid
    else .qosOriginatorStatus mpdu.header.addr2 qos.qosTid
  | none => .originatorStatus mpdu.header.addr2

/-- `Lookup`. -/
def lookup : OriginatorRxStatus :=
  rx.status (lookupKey mpdu)

/-- `IsDuplicate`. -/
def isDuplicate (hdr : WifiMacHeader) (originator : OriginatorRxStatus) : Bool :=
  hdr.isRetry && originator.lastSequenceControl = hdr.getSequenceControl

/-- `HandleFragments` : the packet to forward up, if any, and the new status. -/
def handleFragments (packet : Packet) (hdr : WifiMacHeader) (originator : OriginatorRxStatus) :
    Option Packet × OriginatorRxStatus :=
  if originator.isDeFragmenting then
    if hdr.isMoreFragments then
      if originator.isNextFragment hdr.getSequenceControl then
        (none, (originator.accumulateFragment packet).setSequenceControl hdr.getSequenceControl)
      else (none, originator)
    else if originator.isNextFragment hdr.getSequenceControl then
      (some (originator.fullPacket packet),
        originator.accumulateLastFragment.setSequenceControl hdr.getSequenceControl)
    else (none, originator)
  else if hdr.isMoreFragments then
    (none, (originator.accumulateFragment packet).setSequenceControl hdr.getSequenceControl)
  else (some packet, originator)

/-- What `Receive` does with the status of the originator : the packet to forward up, if any,
and the new status. -/
def receiveFrom (originator : OriginatorRxStatus) : Option Packet × OriginatorRxStatus :=
  if isDuplicate mpdu.header originator then (none, originator)
  else
    match handleFragments mpdu.packet mpdu.header originator with
    | (some aggregate, originator') =>
      (some aggregate, originator'.setSequenceControl mpdu.header.getSequenceControl)
    | (none, originator') => (none, originator')

/-- `Receive`. -/
def receive : MacRxMiddle where
  status := Function.update rx.status (lookupKey mpdu) (receiveFrom mpdu (rx.lookup mpdu)).2
  received := rx.received ++ [mpdu]
  forwarded := rx.forwarded ++
    ((receiveFrom mpdu (rx.lookup mpdu)).1.map fun aggregate =>
      { mpdu with packet := aggregate }).toList

end MacRxMiddle

end Ns3Pedca
