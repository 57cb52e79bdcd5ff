import Ns3Pedca.Pieces
import Ns3Pedca.Runs
import Ns3Pedca.Wifi.WifiMacHeader

/-!
# Fragments of an MSDU

`WifiRemoteStationManager` says how large the fragments of an MSDU are. A frame exchange
manager makes the first one with it. The next one is made when a fragment is acknowledged :
its offset and size follow from the size of the acknowledged fragment and from
`fragmentedPacket`, the MSDU the manager remembers. A fragment takes the place of the MSDU in
the queue, from where it is sent again if it is not acknowledged, by any frame exchange
manager of the MAC.

`FrameExchangeManagers` is the state of all of them, one for each link, with the MSDUs. It
lists the fragments of each MSDU that were sent.
-/

set_option linter.unusedSectionVars false

namespace Ns3Pedca

/-- `CreateFragment`. -/
def createFragment (packet : Packet) (start length : ℕ) : Packet :=
  (packet.drop start).take length

/-- An MSDU and its header. The size of a packet has 32 bits. -/
structure Msdu where
  header : WifiMacHeader
  packet : Packet
  length_lt : packet.length < 2 ^ 32

/-- A fragment : `m_seqFrag` is an `uint8_t`. -/
structure Fragment where
  sequenceNumber : SeqNo
  fragmentNumber : UInt8
  isMoreFragments : Bool
  packet : Packet

/-- `WIFI_MAC_FCS_LENGTH`. -/
abbrev wifiMacFcsLength : ℕ := 4

/-- `WIFI_MIN_FRAG_THRESHOLD`. -/
abbrev wifiMinFragThreshold : ℕ := 256

/-- `WifiRemoteStationManager` : the threshold is even, and not below the minimum. -/
structure WifiRemoteStationManager where
  fragmentationThreshold : ℕ
  le_threshold : wifiMinFragThreshold ≤ fragmentationThreshold
  even_threshold : Even fragmentationThreshold

namespace WifiRemoteStationManager

/-- `DoSetFragmentationThreshold`. -/
def doSetFragmentationThreshold (threshold : ℕ) : WifiRemoteStationManager :=
  if hmin : threshold < wifiMinFragThreshold then ⟨wifiMinFragThreshold, le_rfl, by decide⟩
  else
    have hle : 256 ≤ threshold := not_lt.1 hmin
    if hodd : threshold % 2 ≠ 0 then
      ⟨threshold - 1, by change 256 ≤ _; omega, by rw [Nat.even_iff]; omega⟩
    else ⟨threshold, hle, by rw [Nat.even_iff]; omega⟩

variable (rsm : WifiRemoteStationManager) (msdu : Msdu) (fragmentNumber : ℕ)

/-- The number of bytes a fragment can hold. -/
def capacity : ℕ :=
  rsm.fragmentationThreshold - msdu.header.getSize - wifiMacFcsLength

/-- `NeedFragmentation`. -/
def needFragmentation : Bool :=
  !msdu.header.addr1.isGroup &&
    rsm.fragmentationThreshold < msdu.packet.length + msdu.header.getSize + wifiMacFcsLength

/-- `GetNFragments`. -/
def getNFragments : ℕ :=
  msdu.packet.length / rsm.capacity msdu +
    if 0 < msdu.packet.length % rsm.capacity msdu then 1 else 0

/-- `GetFragmentSize`. -/
def getFragmentSize : ℕ :=
  if rsm.getNFragments msdu ≤ fragmentNumber then 0
  else if fragmentNumber = rsm.getNFragments msdu - 1 then
    msdu.packet.length - fragmentNumber * rsm.capacity msdu
  else rsm.capacity msdu

/-- `GetFragmentOffset`. -/
def getFragmentOffset : ℕ :=
  fragmentNumber * rsm.capacity msdu

/-- `IsLastFragment`. -/
def isLastFragment : Bool :=
  fragmentNumber = rsm.getNFragments msdu - 1

end WifiRemoteStationManager

/-- A frame exchange manager. -/
structure FrameExchangeManager (ι : Type*) where
  /-- The MSDU being fragmented. -/
  fragmentedPacket : Option Packet := none
  /-- The MSDU that a frame of is exchanged, and whether the frame has been sent. -/
  mpdu : Option (ι × Bool) := none

/-- An MSDU in a queue of the MAC. -/
structure QueuedMsdu where
  msdu : Msdu
  isQueued : Bool := true
  /-- The fragment that has taken the place of the MSDU. -/
  fragment : Option Fragment := none
  /-- The fragments sent. -/
  sent : List Fragment := []

/-- The frame exchange managers of a MAC. -/
structure FrameExchangeManagers (L ι : Type*) where
  rsm : WifiRemoteStationManager
  fem : L → FrameExchangeManager ι
  queue : ι → QueuedMsdu

/-- What happens to the frame exchanges. -/
inductive FragmentEvent (L ι : Type*)
  /-- An EDCAF has the MSDU transmitted, with this sequence number if it is no fragment. -/
  | startFrameExchange (link : L) (m : ι) (sequenceNumber : SeqNo)
  | sendMpdu (link : L)
  | receivedNormalAck (link : L)
  /-- No CTS or no Ack is received. -/
  | missedResponse (link : L)
  /-- The MSDU is dropped, at the retry limit or at the end of its lifetime. -/
  | drop (m : ι)

namespace FrameExchangeManagers

variable {L ι : Type*} [DecidableEq L] [DecidableEq ι] (s : FrameExchangeManagers L ι)

/-- A queued MSDU is changed. -/
def modifyQueue (m : ι) (f : QueuedMsdu → QueuedMsdu) : FrameExchangeManagers L ι :=
  { s with queue := Function.update s.queue m (f (s.queue m)) }

/-- A frame exchange manager is changed. -/
def modifyFem (link : L) (f : FrameExchangeManager ι → FrameExchangeManager ι) :
    FrameExchangeManagers L ι :=
  { s with fem := Function.update s.fem link (f (s.fem link)) }

@[simp] theorem queue_modifyQueue_self (m : ι) (f : QueuedMsdu → QueuedMsdu) :
    (s.modifyQueue m f).queue m = f (s.queue m) :=
  Function.update_self ..

theorem queue_modifyQueue_of_ne {m x : ι} (h : x ≠ m) (f : QueuedMsdu → QueuedMsdu) :
    (s.modifyQueue m f).queue x = s.queue x :=
  Function.update_of_ne h ..

@[simp] theorem fem_modifyQueue (m : ι) (f : QueuedMsdu → QueuedMsdu) :
    (s.modifyQueue m f).fem = s.fem :=
  rfl

@[simp] theorem queue_modifyFem (link : L)
    (f : FrameExchangeManager ι → FrameExchangeManager ι) :
    (s.modifyFem link f).queue = s.queue :=
  rfl

@[simp] theorem fem_modifyFem_self (link : L)
    (f : FrameExchangeManager ι → FrameExchangeManager ι) :
    (s.modifyFem link f).fem link = f (s.fem link) :=
  Function.update_self ..

theorem fem_modifyFem_of_ne {link l : L} (h : l ≠ link)
    (f : FrameExchangeManager ι → FrameExchangeManager ι) :
    (s.modifyFem link f).fem l = s.fem l :=
  Function.update_of_ne h ..

/-- The fragment created by `GetFirstFragmentIfNeeded`. -/
def firstFragment (msdu : Msdu) (sequenceNumber : SeqNo) : Fragment where
  sequenceNumber := sequenceNumber
  fragmentNumber := 0
  isMoreFragments := true
  packet := createFragment msdu.packet 0 (s.rsm.getFragmentSize msdu 0)

/-- `GetFirstFragmentIfNeeded`. -/
def getFirstFragmentIfNeeded (link : L) (m : ι) (sequenceNumber : SeqNo) :
    FrameExchangeManagers L ι :=
  if (s.queue m).fragment.isNone && s.rsm.needFragmentation (s.queue m).msdu then
    (s.modifyFem link fun fem => { fem with fragmentedPacket := some (s.queue m).msdu.packet })
      |>.modifyQueue m fun queued =>
        { queued with fragment := some (s.firstFragment queued.msdu sequenceNumber) }
  else s

/-- `StartFrameExchange`. The manager has no exchange under way, and the MSDU is not in flight
on another link. -/
def startFrameExchange [Fintype L] (link : L) (m : ι) (sequenceNumber : SeqNo) :
    FrameExchangeManagers L ι :=
  if (s.queue m).isQueued = true ∧ (s.fem link).mpdu = none ∧
      ∀ l, (s.fem l).mpdu.all (fun e => e.1 ≠ m) = true then
    (s.getFirstFragmentIfNeeded link m sequenceNumber).modifyFem link fun fem =>
      { fem with mpdu := some (m, false) }
  else s

/-- `SendMpdu`, of an MSDU or a fragment. -/
def sendMpdu (link : L) : FrameExchangeManagers L ι :=
  match (s.fem link).mpdu with
  | some (m, _) =>
    (s.modifyFem link fun fem => { fem with mpdu := some (m, true) }).modifyQueue m fun queued =>
      { queued with sent := queued.sent ++ queued.fragment.toList }
  | none => s

/-- The fragment returned by `GetNextFragment`, made from the packet the manager remembers. -/
def getNextFragment (fragmentedPacket : Packet) (fragment : Fragment) : Fragment :=
  let startOffset := (fragment.fragmentNumber + 1).toNat * fragment.packet.length % 2 ^ 32
  let size := (fragmentedPacket.length + 2 ^ 32 - startOffset) % 2 ^ 32
  { sequenceNumber := fragment.sequenceNumber
    fragmentNumber := fragment.fragmentNumber + 1
    isMoreFragments := fragment.packet.length < size
    packet := createFragment fragmentedPacket startOffset (min size fragment.packet.length) }

/-- The queue after `ReceivedNormalAck` : without a packet to fragment there is no next
fragment. -/
def acknowledge (fragmentedPacket : Option Packet) (queued : QueuedMsdu) : QueuedMsdu :=
  match queued.fragment with
  | some fragment =>
    if fragment.isMoreFragments then
      match fragmentedPacket with
      | some packet => { queued with fragment := some (getNextFragment packet fragment) }
      | none => { queued with isQueued := false }
    else { queued with isQueued := false }
  | none => { queued with isQueued := false }

/-- `ReceivedNormalAck`, of a frame that was sent. -/
def receivedNormalAck (link : L) : FrameExchangeManagers L ι :=
  match (s.fem link).mpdu with
  | some (m, true) =>
    (s.modifyQueue m (acknowledge (s.fem link).fragmentedPacket)).modifyFem link fun fem =>
      { fem with mpdu := none }
  | _ => s

/-- One step of the frame exchange managers. -/
def step [Fintype L] (s : FrameExchangeManagers L ι) :
    FragmentEvent L ι → FrameExchangeManagers L ι
  | .startFrameExchange link m sequenceNumber => s.startFrameExchange link m sequenceNumber
  | .sendMpdu link => s.sendMpdu link
  | .receivedNormalAck link => s.receivedNormalAck link
  | .missedResponse link => s.modifyFem link fun fem => { fem with mpdu := none }
  | .drop m => s.modifyQueue m fun queued => { queued with isQueued := false }

/-- No MSDU has been transmitted yet. -/
def init (rsm : WifiRemoteStationManager) (msdu : ι → Msdu) : FrameExchangeManagers L ι where
  rsm := rsm
  fem _ := {}
  queue m := { msdu := msdu m }

end FrameExchangeManagers

end Ns3Pedca
