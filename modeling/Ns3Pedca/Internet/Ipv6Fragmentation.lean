import Ns3Pedca.Internet.FragmentList

/-!
# Fragmentation and reassembly of IPv6

`getFragments` takes the extension headers of the unfragmentable part off a packet, cuts the
rest into fragments, and puts a fragment header and the extension headers in front of each.
`process` keeps the fragments that arrive in one list for each packet, and returns the packet
when the list is entire.

A function returns `none` where the program reads behind the end of a packet, follows a null
pointer or would loop for ever. An `NS_ASSERT` is not part of an optimized build and is left
out. A `CopyData` from an empty packet leaves the byte as it was, which is taken as zero.
-/

namespace Ns3Pedca

open Packet (getSize createFragment)

/-- `Ipv6Address`. -/
abbrev Ipv6Address := BitVec 128

/-- `Ipv6Header`. -/
structure Ipv6Header where
  source : Ipv6Address
  nextHeader : UInt8
  payloadLength : UInt16
  deriving DecidableEq

namespace Ipv6Header

/-- `IPV6_EXT_HOP_BY_HOP`. -/
abbrev extHopByHop : UInt8 := 0

/-- `IPV6_EXT_ROUTING`. -/
abbrev extRouting : UInt8 := 43

/-- `IPV6_EXT_FRAGMENTATION`. -/
abbrev extFragmentation : UInt8 := 44

/-- `IPV6_EXT_DESTINATION`. -/
abbrev extDestination : UInt8 := 60

/-- `GetSerializedSize`. -/
abbrev serializedSize : UInt8 := 40

end Ipv6Header

open Ipv6Header

/-! ## Extension headers -/

/-- The extension headers of the unfragmentable part : `Ipv6ExtensionHopByHopHeader`,
`Ipv6ExtensionLooseRoutingHeader` and `Ipv6ExtensionDestinationHeader`. -/
inductive ExtensionHeader
  | hopByHop (nextHeader length : UInt8) (optionData : List UInt8)
  | routing (nextHeader length typeRouting segmentsLeft : UInt8) (routersAddress : List UInt8)
  | destination (nextHeader length : UInt8) (optionData : List UInt8)
  deriving DecidableEq

namespace ExtensionHeader

/-- `GetNextHeader`. -/
def nextHeader : ExtensionHeader → UInt8
  | hopByHop next _ _ => next
  | routing next _ _ _ _ => next
  | destination next _ _ => next

/-- `SetNextHeader`. -/
def setNextHeader (next : UInt8) : ExtensionHeader → ExtensionHeader
  | hopByHop _ length data => hopByHop next length data
  | routing _ length type left addresses => routing next length type left addresses
  | destination _ length data => destination next length data

/-- `m_length`. -/
def length : ExtensionHeader → UInt8
  | hopByHop _ length _ => length
  | routing _ length _ _ _ => length
  | destination _ length _ => length

/-- `GetLength`. -/
def getLength (h : ExtensionHeader) : UInt16 :=
  (h.length.toUInt16 + 1) <<< 3

/-- `OptionField::Deserialize` of a header with options, with the size it has in the packet :
`GetLength` bytes, and no fill, since these are a multiple of 8. -/
def deserializeOptions (make : UInt8 → UInt8 → List UInt8 → ExtensionHeader) :
    Packet → Option (ExtensionHeader × Packet)
  | nextHeader :: length :: rest =>
    let dataLength := (length.toNat + 1) * 8 - 2
    if dataLength ≤ rest.length then
      some (make nextHeader length (rest.take dataLength), rest.drop dataLength)
    else none
  | _ => none

/-- `Ipv6ExtensionLooseRoutingHeader::Deserialize`. -/
def deserializeRouting : Packet → Option (ExtensionHeader × Packet)
  | nextHeader :: length :: typeRouting :: segmentsLeft :: _ :: _ :: _ :: _ :: rest =>
    let dataLength := length.toNat / 2 * 16
    if dataLength ≤ rest.length then
      some (routing nextHeader length typeRouting segmentsLeft (rest.take dataLength),
        rest.drop dataLength)
    else none
  | _ => none

/-- `Serialize`. -/
def serialize : ExtensionHeader → Packet
  | hopByHop next _ data => next :: UInt8.ofNat ((2 + data.length) / 8 - 1) :: data
  | routing next _ type left addresses =>
    next :: UInt8.ofNat (addresses.length / 16 * 2) :: type :: left :: 0 :: 0 :: 0 :: 0 :: addresses
  | destination next _ data => next :: UInt8.ofNat ((2 + data.length) / 8 - 1) :: data

end ExtensionHeader

/-- `Ipv6ExtensionFragmentHeader`. -/
structure FragmentHeader where
  nextHeader : UInt8 := 0
  offset : UInt16 := 0
  identification : UInt32 := 0
  deriving DecidableEq

namespace FragmentHeader

/-- `GetSerializedSize`. -/
abbrev serializedSize : UInt8 := 8

/-- `SetOffset`. -/
def setOffset (h : FragmentHeader) (offset : UInt16) : FragmentHeader :=
  { h with offset := h.offset &&& 1 ||| offset &&& ~~~7 }

/-- `SetMoreFragment`. -/
def setMoreFragment (h : FragmentHeader) (moreFragment : Bool) : FragmentHeader :=
  { h with offset := if moreFragment then h.offset ||| 1 else h.offset &&& ~~~1 }

/-- `GetOffset`. -/
def getOffset (h : FragmentHeader) : UInt16 :=
  h.offset &&& ~~~1

/-- `GetMoreFragment`. -/
def getMoreFragment (h : FragmentHeader) : Bool :=
  h.offset &&& 1 ≠ 0

/-- `Serialize`. -/
def serialize (h : FragmentHeader) : Packet :=
  [h.nextHeader, 0, UInt8.ofNat (h.offset.toNat / 2 ^ 8), UInt8.ofNat h.offset.toNat,
    UInt8.ofNat (h.identification.toNat / 2 ^ 24), UInt8.ofNat (h.identification.toNat / 2 ^ 16),
    UInt8.ofNat (h.identification.toNat / 2 ^ 8), UInt8.ofNat h.identification.toNat]

/-- `Deserialize`. -/
def deserialize : Packet → Option (FragmentHeader × Packet)
  | nextHeader :: _ :: o1 :: o0 :: i3 :: i2 :: i1 :: i0 :: rest =>
    some ({
      nextHeader := nextHeader
      offset := UInt16.ofNat (o1.toNat * 2 ^ 8 + o0.toNat)
      identification := UInt32.ofNat
        (i3.toNat * 2 ^ 24 + i2.toNat * 2 ^ 16 + i1.toNat * 2 ^ 8 + i0.toNat) }, rest)
  | _ => none

end FragmentHeader

namespace Ipv6ExtensionFragment

/-! ## Fragmentation -/

/-- A payload with its header. -/
abbrev PayloadHeaderPair := Packet × Ipv6Header

/-- The header that follows, of the type `nextHeader` and with the first byte `type`, belongs to
the unfragmentable part. -/
def isUnfragmentable (nextHeader type : UInt8) : Bool :=
  nextHeader = extHopByHop ∨ nextHeader = extRouting ∨
    nextHeader = extDestination ∧ type = extRouting

/-- `RemoveHeader` of an extension header of the type `nextHeader`. The routing header is that of
the type in its third byte, and there is only type 0. -/
def removeHeader (nextHeader : UInt8) (p : Packet) : Option (ExtensionHeader × Packet) :=
  if nextHeader = extHopByHop then ExtensionHeader.deserializeOptions .hopByHop p
  else if nextHeader = extRouting then
    if p.getD 2 0 = 0 then ExtensionHeader.deserializeRouting p else none
  else if nextHeader = extDestination then ExtensionHeader.deserializeOptions .destination p
  else none

/-- The unfragmentable part of a packet, and what is left of it. -/
structure Parts where
  unfragmentablePart : List ExtensionHeader
  unfragmentablePartSize : UInt32
  nextHeader : UInt8
  p : Packet
  deriving DecidableEq

/-- The loop of `GetFragments` that removes the unfragmentable part, with a bound on the
headers. -/
def split : ℕ → UInt8 → Packet → Option Parts
  | 0, _, _ => none
  | fuel + 1, nextHeader, p => do
    let (header, p) ← removeHeader nextHeader p
    let extensionHeaderLength := header.getLength.toUInt8
    if isUnfragmentable header.nextHeader (p.headD 0) then
      let parts ← split fuel header.nextHeader p
      return { parts with
        unfragmentablePart := header :: parts.unfragmentablePart
        unfragmentablePartSize := extensionHeaderLength.toUInt32 + parts.unfragmentablePartSize }
    else
      return ⟨[header.setNextHeader extFragmentation], extensionHeaderLength.toUInt32,
        header.nextHeader, p⟩

/-- The headers in front of a fragment, after one `AddHeader` for each of the unfragmentable
part. -/
def addHeaders (unfragmentablePart : List ExtensionHeader) (fragment : Packet) : Packet :=
  unfragmentablePart.foldl (fun fragment header => header.serialize ++ fragment) fragment

section Loop

variable (parts : Parts) (ipv6Header : Ipv6Header) (maxFragmentablePartSize identification : UInt32)

/-- The loop of `GetFragments` that cuts the fragments, with a bound on their number. -/
def fragmentsFrom : ℕ → FragmentHeader → UInt16 → Option (List PayloadHeaderPair)
  | 0, _, _ => none
  | fuel + 1, fragmentHeader, offset => do
    let moreFragment := offset.toUInt32 + maxFragmentablePartSize < getSize parts.p
    let currentFragmentablePartSize :=
      if moreFragment then maxFragmentablePartSize - maxFragmentablePartSize % 8
      else getSize parts.p - offset.toUInt32
    let fragmentHeader := { (({ fragmentHeader with
        nextHeader := parts.nextHeader }.setOffset offset).setMoreFragment moreFragment) with
      identification := identification }
    let fragment := createFragment parts.p offset.toUInt32 currentFragmentablePartSize
    let fragment := addHeaders parts.unfragmentablePart (fragmentHeader.serialize ++ fragment)
    let rest ← if moreFragment then
        fragmentsFrom fuel fragmentHeader (offset + currentFragmentablePartSize.toUInt16)
      else some []
    return (fragment, { ipv6Header with payloadLength := (getSize fragment).toUInt16 }) :: rest

end Loop

/-- `GetFragments`, for the identification that was drawn. -/
def getFragments (packet : Packet) (ipv6Header : Ipv6Header)
    (maxFragmentSize identification : UInt32) : Option (List PayloadHeaderPair) := do
  let moreHeader := isUnfragmentable ipv6Header.nextHeader (packet.headD 0)
  let parts ← if moreHeader then split (packet.length + 1) ipv6Header.nextHeader packet
    else some ⟨[], 0, ipv6Header.nextHeader, packet⟩
  let ipv6Header := if moreHeader then ipv6Header
    else { ipv6Header with nextHeader := extFragmentation }
  let maxFragmentablePartSize := maxFragmentSize - serializedSize.toUInt32 -
    parts.unfragmentablePartSize - FragmentHeader.serializedSize.toUInt32
  fragmentsFrom parts ipv6Header maxFragmentablePartSize identification (parts.p.length + 1) {} 0

end Ipv6ExtensionFragment

/-! ## Reassembly -/

/-- `Ipv6ExtensionFragment::Fragments`. -/
structure Ipv6Fragments extends FragmentList where
  unfragmentable : Option Packet := none
  deriving DecidableEq

namespace Ipv6Fragments

/-- `AddFragment`. -/
def addFragment (l : Ipv6Fragments) (fragment : Packet) (fragmentOffset : UInt16)
    (moreFragment : Bool) : Ipv6Fragments :=
  { l with toFragmentList := l.toFragmentList.addFragment fragment fragmentOffset moreFragment }

/-- `SetUnfragmentablePart`. -/
def setUnfragmentablePart (l : Ipv6Fragments) (unfragmentablePart : Packet) : Ipv6Fragments :=
  { l with unfragmentable := some unfragmentablePart }

/-- The loop of `IsEntire`. -/
def entireFrom : UInt16 → List (Packet × UInt16) → Bool
  | _, [] => true
  | lastEndOffset, it :: fragments =>
    if lastEndOffset ≠ it.2 then false
    else entireFrom (lastEndOffset + (getSize it.1).toUInt16) fragments

/-- `IsEntire`. -/
def isEntire (l : Ipv6Fragments) : Bool :=
  (!l.moreFragment && !l.fragments.isEmpty) && entireFrom 0 l.fragments

/-- `GetPacket`. -/
def getPacket (l : Ipv6Fragments) : Option Packet :=
  l.unfragmentable.map (· ++ l.fragments.flatMap Prod.fst)

end Ipv6Fragments

namespace Ipv6ExtensionFragment

/-- `FragmentKey_t`. -/
abbrev FragmentKey := Ipv6Address × UInt32

/-- `m_fragments`. -/
abbrev Buffers := FragmentKey → Option Ipv6Fragments

/-- What `Process` sets. -/
structure Processed where
  stopProcessing : Bool
  nextHeader : UInt8
  packet : Packet
  fragments : Buffers

/-- `Process`. -/
def process (m : Buffers) (packet : Packet) (offset : UInt8) (ipv6Header : Ipv6Header) :
    Option Processed := do
  let (fragmentHeader, p) ← FragmentHeader.deserialize (Packet.removeAtStart packet offset.toUInt32)
  let moreFragment := fragmentHeader.getMoreFragment
  let fragmentOffset := fragmentHeader.getOffset
  let fragmentKey := (ipv6Header.source, fragmentHeader.identification)
  let fragments := (m fragmentKey).getD {}
  let fragments := if fragmentOffset = 0 then
      fragments.setUnfragmentablePart
        (Packet.removeAtEnd packet (getSize packet - offset.toUInt32))
    else fragments
  let fragments := fragments.addFragment p fragmentOffset moreFragment
  if fragments.isEntire then
    let packet ← fragments.getPacket
    return ⟨false, fragmentHeader.nextHeader, packet, Function.update m fragmentKey none⟩
  else
    return ⟨true, fragmentHeader.nextHeader, packet,
      Function.update m fragmentKey (some fragments)⟩

/-- `HandleFragmentsTimeout`. -/
def handleFragmentsTimeout (m : Buffers) (fragmentKey : FragmentKey) : Buffers :=
  Function.update m fragmentKey none

end Ipv6ExtensionFragment

end Ns3Pedca
