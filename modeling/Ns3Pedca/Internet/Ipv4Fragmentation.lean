import Ns3Pedca.Internet.FragmentList

/-!
# Fragmentation and reassembly of IPv4

`doFragmentation` cuts the payload of a packet to the MTU of an interface, and a router may
cut a fragment again. `processFragment` keeps the fragments that arrive in one list for each
datagram, and returns the payload when the list is entire.

A function returns `none` where the program is stopped by an `NS_ABORT`, would loop for ever,
or follows an iterator past the end. An `NS_ASSERT` is not part of an optimized build and is
left out. The headers have no options, as `DoFragmentation` assumes.
-/

namespace Ns3Pedca

open Packet (getSize createFragment)

/-- `Ipv4Header`. -/
structure Ipv4Header where
  source : UInt32
  destination : UInt32
  identification : UInt16
  protocol : UInt8
  payloadSize : UInt16
  moreFragments : Bool := false
  fragmentOffset : UInt16 := 0
  deriving DecidableEq

namespace Ipv4Header

/-- `GetSerializedSize`. -/
def serializedSize : UInt32 :=
  5 * 4

/-- `SetMoreFragments`. -/
def setMoreFragments (h : Ipv4Header) : Ipv4Header :=
  { h with moreFragments := true }

/-- `SetLastFragment`. -/
def setLastFragment (h : Ipv4Header) : Ipv4Header :=
  { h with moreFragments := false }

/-- `IsLastFragment`. -/
def isLastFragment (h : Ipv4Header) : Bool :=
  !h.moreFragments

/-- `SetFragmentOffset`, which aborts unless the offset is a multiple of 8. -/
def setFragmentOffset (h : Ipv4Header) (offsetBytes : UInt16) : Option Ipv4Header :=
  if offsetBytes &&& 7 ≠ 0 then none else some { h with fragmentOffset := offsetBytes }

/-- `SetPayloadSize`. -/
def setPayloadSize (h : Ipv4Header) (size : UInt16) : Ipv4Header :=
  { h with payloadSize := size }

end Ipv4Header

namespace Ipv4L3Protocol

/-- A payload with its header. -/
abbrev PayloadHeaderPair := Packet × Ipv4Header

section DoFragmentation

variable (p : Packet) (ipv4Header : Ipv4Header) (fragmentSize : UInt32)

/-- The size of the fragment at `offset`, whether fragments follow it, and its flags. -/
def fragmentAt (offset : UInt16) : UInt32 × Bool × Ipv4Header :=
  if offset.toUInt32 + fragmentSize < getSize p then
    (fragmentSize, true, ipv4Header.setMoreFragments)
  else
    (getSize p - offset.toUInt32, false,
      if ¬ ipv4Header.isLastFragment then ipv4Header.setMoreFragments
      else ipv4Header.setLastFragment)

/-- The loop of `DoFragmentation`, with a bound on the fragments. -/
def fragmentsFrom : ℕ → UInt16 → Option (List PayloadHeaderPair)
  | 0, _ => none
  | fuel + 1, offset => do
    let (currentFragmentablePartSize, moreFragment, fragmentHeader) :=
      fragmentAt p ipv4Header fragmentSize offset
    let fragment := createFragment p offset.toUInt32 currentFragmentablePartSize
    let fragmentHeader ←
      fragmentHeader.setFragmentOffset (offset + ipv4Header.fragmentOffset)
    let fragmentHeader := fragmentHeader.setPayloadSize currentFragmentablePartSize.toUInt16
    let rest ← if moreFragment then
        fragmentsFrom fuel (offset + currentFragmentablePartSize.toUInt16)
      else some []
    return (fragment, fragmentHeader) :: rest

/-- `DoFragmentation`. -/
def doFragmentation (outIfaceMtu : UInt32) : Option (List PayloadHeaderPair) :=
  fragmentsFrom p ipv4Header ((outIfaceMtu - Ipv4Header.serializedSize) &&& ~~~7) (p.length + 1) 0

end DoFragmentation

end Ipv4L3Protocol

namespace FragmentList

/-- The loop of `IsEntire`. -/
def entireFrom : UInt16 → List (Packet × UInt16) → Bool
  | _, [] => true
  | lastEndOffset, it :: fragments =>
    if lastEndOffset < it.2 then false
    else entireFrom (max lastEndOffset (getSize it.1 + it.2.toUInt32).toUInt16) fragments

/-- `IsEntire`. -/
def isEntire (l : FragmentList) : Bool :=
  (!l.moreFragment && !l.fragments.isEmpty) && entireFrom 0 l.fragments

/-- The loop of `GetPacket`. -/
def packetFrom : Packet → UInt16 → List (Packet × UInt16) → Packet
  | p, _, [] => p
  | p, lastEndOffset, it :: fragments =>
    let p :=
      if it.2 < lastEndOffset then
        let newStart := lastEndOffset.toUInt32 - it.2.toUInt32
        if newStart < getSize it.1 then
          p ++ createFragment it.1 newStart (getSize it.1 - newStart)
        else p
      else p ++ it.1
    packetFrom p (getSize p).toUInt16 fragments

/-- `GetPacket`. -/
def getPacket (l : FragmentList) : Option Packet :=
  match l.fragments with
  | [] => none
  | it :: fragments => some (packetFrom it.1 (getSize it.1).toUInt16 fragments)

end FragmentList

namespace Ipv4L3Protocol

/-- `FragmentKey_t` : the addresses, and the identification with the protocol. -/
structure FragmentKey where
  addressCombination : UInt64
  idProto : UInt32
  deriving DecidableEq

/-- The key of a header. -/
def keyOf (ipHeader : Ipv4Header) : FragmentKey where
  addressCombination :=
    ipHeader.source.toUInt64 <<< 32 ||| ipHeader.destination.toUInt64
  idProto := ipHeader.identification.toUInt32 <<< 16 ||| ipHeader.protocol.toUInt32

/-- `m_fragments`. -/
abbrev Buffers := FragmentKey → Option FragmentList

/-- What `ProcessFragment` returns, with the packet it leaves. -/
structure Processed where
  ret : Bool
  packet : Packet
  fragments : Buffers

/-- `ProcessFragment`. -/
def processFragment (m : Buffers) (packet : Packet) (ipHeader : Ipv4Header) : Option Processed :=
  let key := keyOf ipHeader
  let fragments := ((m key).getD {}).addFragment packet ipHeader.fragmentOffset
    (!ipHeader.isLastFragment)
  if fragments.isEntire then
    fragments.getPacket.map fun p => ⟨true, p, Function.update m key none⟩
  else some ⟨false, packet, Function.update m key (some fragments)⟩

/-- `HandleFragmentsTimeout`. -/
def handleFragmentsTimeout (m : Buffers) (key : FragmentKey) : Buffers :=
  Function.update m key none

end Ipv4L3Protocol

end Ns3Pedca
