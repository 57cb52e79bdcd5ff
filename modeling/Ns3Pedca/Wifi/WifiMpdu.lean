import Ns3Pedca.PaddedConcat
import Ns3Pedca.Wifi.MacHeader

/-!
# MPDUs and A-MSDUs

A `WifiMpdu` is a header and a packet. `aggregate` appends an MSDU to it : the first time, the
packet becomes the first subframe of an A-MSDU. A subframe has a header with two addresses and a
length, and is padded to a multiple of four bytes before the next one is added, so an A-MSDU is the
padded concatenation of its subframes (`WifiMpdu.doAggregatePacket_eq`). `deaggregate` reads the
subframes one after another (`deaggregate_concat`).
-/

namespace Ns3Pedca

namespace Aggregation

open Bytes CtrlBAckResponseHeader PaddedConcat

/-! ## Subframes -/

theorem length_of_readAddress {bytes rest : List UInt8} {address : Mac48Address}
    (h : readAddress bytes = some (address, rest)) : bytes.length = 6 + rest.length := by
  unfold readAddress at h
  split at h
  · obtain ⟨-, rfl⟩ := Prod.mk.inj (Option.some.inj h)
    simp only [List.length_cons]
    omega
  · cases h

theorem length_of_readNtohU16 {bytes rest : List UInt8} {data : ℕ}
    (h : readNtohU16 bytes = some (data, rest)) : bytes.length = 2 + rest.length := by
  unfold readNtohU16 at h
  split at h
  · rw [readU16] at h
    obtain ⟨-, rfl⟩ := Prod.mk.inj (Option.some.inj h)
    simp only [List.length_cons]
    omega
  · cases h

/-- `AmsduSubframeHeader`. -/
structure AmsduSubframeHeader where
  destinationAddr : Mac48Address
  sourceAddr : Mac48Address
  length : UInt16 := 0
  deriving DecidableEq

namespace AmsduSubframeHeader

/-- `Serialize`. -/
def serialize (hdr : AmsduSubframeHeader) : List UInt8 :=
  writeAddress hdr.destinationAddr ++ writeAddress hdr.sourceAddr ++ writeHtonU16 hdr.length.toNat

/-- `Deserialize`, and the bytes behind the header. -/
def deserialize (bytes : List UInt8) : Option (AmsduSubframeHeader × List UInt8) := do
  let (destinationAddr, bytes) ← readAddress bytes
  let (sourceAddr, bytes) ← readAddress bytes
  let (length, bytes) ← readNtohU16 bytes
  return ({ destinationAddr, sourceAddr, length := .ofNat length }, bytes)

theorem length_serialize (hdr : AmsduSubframeHeader) : hdr.serialize.length = 14 := by
  simp [serialize, length_writeAddress, writeHtonU16]

theorem deserialize_serialize (hdr : AmsduSubframeHeader) (rest : List UInt8) :
    deserialize (hdr.serialize ++ rest) = some (hdr, rest) := by
  rw [deserialize, serialize, List.append_assoc, List.append_assoc, readAddress_writeAddress]
  simp only [Option.bind_eq_bind, Option.bind_some, readAddress_writeAddress,
    readNtohU16_writeHtonU16 hdr.length.toNat_lt, UInt16.ofNat_toNat, Option.pure_def]

theorem length_of_deserialize {bytes rest : List UInt8} {hdr : AmsduSubframeHeader}
    (h : deserialize bytes = some (hdr, rest)) : bytes.length = 14 + rest.length := by
  obtain ⟨x, hx, h⟩ := Option.bind_eq_some_iff.1 h
  obtain ⟨y, hy, h⟩ := Option.bind_eq_some_iff.1 h
  obtain ⟨z, hz, h⟩ := Option.bind_eq_some_iff.1 h
  obtain ⟨-, rfl⟩ := Prod.mk.inj (Option.some.inj h)
  rw [length_of_readAddress hx, length_of_readAddress hy, length_of_readNtohU16 hz]
  omega

end AmsduSubframeHeader

namespace MsduAggregator

/-- `CalculatePadding`. -/
def calculatePadding (amsduSize : UInt16) : ℕ :=
  padding 4 amsduSize.toNat

/-- `GetSizeIfAggregated` : the header of a subframe has 14 bytes. -/
def getSizeIfAggregated (msduSize amsduSize : UInt16) : UInt16 :=
  amsduSize + .ofNat (calculatePadding amsduSize) + 14 + msduSize

/-- A subframe is removed from the front : its header, and the MSDU that is as long as the header
says. A header or an MSDU that is cut off fails an assertion. -/
def readSubframe (packet : Packet) : Option ((Packet × AmsduSubframeHeader) × Packet) := do
  let (hdr, packet) ← AmsduSubframeHeader.deserialize packet
  let extractedLength := hdr.length.toNat
  guard (extractedLength ≤ packet.length)
  return ((packet.take extractedLength, hdr), packet.drop extractedLength)

/-- The loop of `Deaggregate`, with the bytes that are left and the number of those that were
read. -/
def deaggregateLoop (maxSize : ℕ) :
    ℕ → ℕ → Packet → Option (List (Packet × AmsduSubframeHeader))
  | 0, deserialized, _ => if deserialized < maxSize then none else some []
  | rounds + 1, deserialized, packet =>
    if deserialized < maxSize then
      (readSubframe packet).bind fun (msdu, packet) =>
        let extractedLength := msdu.2.length.toNat
        let deserialized := deserialized + (14 + extractedLength)
        let pad := (4 - (extractedLength + 14) % 4) % 4
        (if 0 < pad ∧ deserialized < maxSize then
            deaggregateLoop maxSize rounds (deserialized + pad) (packet.drop pad)
          else deaggregateLoop maxSize rounds deserialized packet).map (msdu :: ·)
    else some []

/-- `Deaggregate`. -/
def deaggregate (aggregatedPacket : Packet) : Option (List (Packet × AmsduSubframeHeader)) :=
  deaggregateLoop aggregatedPacket.length aggregatedPacket.length 0 aggregatedPacket

/-- The bytes of a subframe. -/
def subframe (msdu : Packet × AmsduSubframeHeader) : Packet :=
  msdu.2.serialize ++ msdu.1

theorem length_subframe (msdu : Packet × AmsduSubframeHeader) :
    (subframe msdu).length = 14 + msdu.1.length := by
  rw [subframe, List.length_append, AmsduSubframeHeader.length_serialize]

theorem readSubframe_subframe {msdu : Packet × AmsduSubframeHeader}
    (hlen : msdu.2.length.toNat = msdu.1.length) (rest : Packet) :
    readSubframe (subframe msdu ++ rest) = some (msdu, rest) := by
  rw [readSubframe, subframe, List.append_assoc, AmsduSubframeHeader.deserialize_serialize]
  simp [hlen]

/-- The bytes that reading a subframe consumes. -/
theorem length_of_readSubframe {packet rest : Packet} {msdu : Packet × AmsduSubframeHeader}
    (h : readSubframe packet = some (msdu, rest)) :
    packet.length = 14 + msdu.2.length.toNat + rest.length := by
  obtain ⟨⟨hdr, bytes⟩, hhdr, h⟩ := Option.bind_eq_some_iff.1 h
  obtain ⟨u, hguard, h⟩ := Option.bind_eq_some_iff.1 h
  obtain ⟨rfl, rfl⟩ := Prod.mk.inj (Option.some.inj h)
  have hle : hdr.length.toNat ≤ bytes.length := by simpa [guard] using hguard
  rw [AmsduSubframeHeader.length_of_deserialize hhdr, List.length_drop, Nat.add_assoc,
    Nat.add_sub_of_le hle]

/-- The loop reads the subframes one after another and skips their padding. -/
theorem deaggregateLoop_eq {maxSize : ℕ} (rounds : ℕ) {deserialized : ℕ} {packet : Packet}
    (hlen : packet.length = maxSize - deserialized) :
    deaggregateLoop maxSize rounds deserialized packet =
      splitLoop 4 readSubframe rounds packet := by
  induction rounds generalizing deserialized packet with
  | zero =>
    cases packet with
    | nil => exact if_neg (by simp at hlen; omega)
    | cons a as => exact if_pos (by simp at hlen; omega)
  | succ n ih =>
    cases packet with
    | nil => exact if_neg (by simp at hlen; omega)
    | cons a as =>
      rw [deaggregateLoop, if_pos (by simp at hlen; omega), splitLoop]
      cases hread : readSubframe (a :: as) with
      | none => rfl
      | some x =>
        obtain ⟨msdu, rest⟩ := x
        have hconsumed := length_of_readSubframe hread
        have hsub : (a :: as).length - rest.length = 14 + msdu.2.length.toNat := by omega
        have hpad : (4 - (msdu.2.length.toNat + 14) % 4) % 4 =
            padding 4 (14 + msdu.2.length.toNat) := by
          rw [padding, Nat.add_comm]
        have hrest : rest.length = maxSize - (deserialized + (14 + msdu.2.length.toNat)) := by
          omega
        simp only [Option.bind_some, hsub, hpad]
        congr 1
        split_ifs with hmore
        · exact ih (by rw [List.length_drop]; omega)
        · -- nothing is skipped, or nothing is left
          rw [ih hrest]
          rcases Nat.eq_zero_or_pos (padding 4 (14 + msdu.2.length.toNat)) with hzero | hpos
          · rw [hzero, List.drop_zero]
          · have hnil : rest = [] := List.eq_nil_of_length_eq_zero (by omega)
            rw [hnil, List.drop_nil]

/-- An A-MSDU that is not empty has a subframe. -/
theorem ne_nil_of_deaggregate {packet : Packet} {msdus : List (Packet × AmsduSubframeHeader)}
    (h : deaggregate packet = some msdus) (hne : packet ≠ []) : msdus ≠ [] := by
  obtain ⟨a, as, rfl⟩ := List.exists_cons_of_ne_nil hne
  rw [deaggregate, List.length_cons, deaggregateLoop, if_pos (Nat.succ_pos _)] at h
  obtain ⟨⟨msdu, rest⟩, -, h⟩ := Option.bind_eq_some_iff.1 h
  obtain ⟨others, -, rfl⟩ := Option.map_eq_some_iff.1 h
  exact List.cons_ne_nil _ _

/-- The subframes of an A-MSDU are read back. -/
theorem deaggregate_concat {msdus : List (Packet × AmsduSubframeHeader)}
    (hlen : ∀ msdu ∈ msdus, msdu.2.length.toNat = msdu.1.length) :
    deaggregate (concat 4 0 (msdus.map subframe)) = some msdus := by
  have hne : ∀ msdu ∈ msdus, subframe msdu ≠ [] := by
    intro msdu _ hnil
    have hzero := length_subframe msdu
    rw [hnil, List.length_nil] at hzero
    omega
  have hrounds : msdus.length ≤ (concat 4 0 (msdus.map subframe)).length := by
    rw [← List.length_map subframe]
    refine length_le_length_concat fun p hp => ?_
    obtain ⟨msdu, hmsdu, rfl⟩ := List.mem_map.1 hp
    exact hne msdu hmsdu
  rw [deaggregate, deaggregateLoop_eq _ (Nat.sub_zero _).symm]
  exact splitLoop_concat (by decide) msdus hrounds
    (fun msdu hmsdu => readSubframe_subframe (hlen _ hmsdu)) hne

end MsduAggregator

/-! ## MPDUs -/

open MsduAggregator

/-- `WifiMpdu`, with the packet and the MSDUs of its `OriginalInfo`. -/
structure WifiMpdu where
  header : MacHeader
  packet : Packet
  msduList : List (Packet × AmsduSubframeHeader)
  /-- An A-MSDU has MSDUs. -/
  msduList_ne_nil : header.isQosAmsdu = true → packet ≠ [] → msduList ≠ []
  /-- Only an A-MSDU has MSDUs. -/
  amsduPresent : msduList ≠ [] → header.amsduPresent = true
  deriving DecidableEq

namespace WifiMpdu

/-- The constructor. -/
def create (packet : Packet) (header : MacHeader) : Option WifiMpdu :=
  if hamsdu : header.isQosAmsdu = true then
    match hmsdus : deaggregate packet with
    | none => none
    | some msdus =>
      some ⟨header, packet, msdus, fun _ hne => ne_nil_of_deaggregate hmsdus hne,
        fun _ => (Bool.and_eq_true_iff.1 hamsdu).2⟩
  else some ⟨header, packet, [], fun h => absurd h hamsdu, fun h => absurd rfl h⟩

variable (mpdu msdu : WifiMpdu)

/-- `GetPacketSize`. -/
def getPacketSize : UInt32 :=
  .ofNat mpdu.packet.length

/-- `GetSize`. -/
def getSize : UInt32 :=
  mpdu.getPacketSize + .ofNat mpdu.header.getSize + 4

/-- `GetProtocolDataUnit` : `AddWifiMacTrailer` appends a frame check sequence of zeros. -/
def getProtocolDataUnit : Packet :=
  mpdu.header.serialize ++ mpdu.packet ++ [0, 0, 0, 0]

/-- The header of the subframe that `DoAggregate` makes for an MSDU. -/
def amsduSubframeHeader : AmsduSubframeHeader where
  destinationAddr := if msdu.header.isToDs then msdu.header.addr3 else msdu.header.addr1
  sourceAddr :=
    if !msdu.header.isFromDs then msdu.header.addr2
    else if !msdu.header.isToDs then msdu.header.addr3
    else msdu.header.addr4
  length := .ofNat msdu.packet.length

/-- The packet that `DoAggregate` makes. -/
def doAggregatePacket (packet : Packet) : Packet :=
  (if 0 < packet.length then
      packet ++ List.replicate (calculatePadding (.ofNat packet.length)) 0
    else packet) ++
    (msdu.amsduSubframeHeader.serialize ++ msdu.packet)

/-- `DoAggregate` on an A-MSDU. -/
def doAggregate (h : mpdu.msduList ≠ []) : WifiMpdu where
  header := mpdu.header
  packet := msdu.doAggregatePacket mpdu.packet
  msduList := mpdu.msduList ++ [(msdu.packet, msdu.amsduSubframeHeader)]
  msduList_ne_nil _ _ := List.append_ne_nil_of_right_ne_nil _ (List.cons_ne_nil _ _)
  amsduPresent _ := mpdu.amsduPresent h

/-- The header of an A-MSDU : the third address is the BSSID. -/
def amsduHeader : MacHeader :=
  let header := mpdu.header.setQosAmsdu
  if header.isToDs && !header.isFromDs then { header with addr3 := header.addr1 }
  else if !header.isToDs && header.isFromDs then { header with addr3 := header.addr2 }
  else header

theorem amsduPresent_amsduHeader : mpdu.amsduHeader.amsduPresent = true := by
  rw [amsduHeader]
  split_ifs <;> rfl

/-- What `Aggregate` does first : an MPDU that is not an A-MSDU becomes one, with one subframe. -/
def makeAmsdu : WifiMpdu :=
  if mpdu.msduList = [] then
    { header := mpdu.amsduHeader
      packet := mpdu.doAggregatePacket []
      msduList := [(mpdu.packet, mpdu.amsduSubframeHeader)]
      msduList_ne_nil _ _ := List.cons_ne_nil _ _
      amsduPresent _ := mpdu.amsduPresent_amsduHeader }
  else mpdu

theorem msduList_makeAmsdu : mpdu.makeAmsdu.msduList ≠ [] := by
  rw [makeAmsdu]
  split_ifs with h
  · exact List.cons_ne_nil _ _
  · exact h

/-- `Aggregate`, of an MSDU or of none. -/
def aggregate : Option WifiMpdu → Option WifiMpdu
  | none => some mpdu.makeAmsdu
  | some msdu =>
    if !msdu.header.isQosData || msdu.header.isQosAmsdu then none
    else some (mpdu.makeAmsdu.doAggregate msdu mpdu.msduList_makeAmsdu)

/-! ## The bytes of an A-MSDU -/

/-- The subframe of an MSDU. -/
def amsduSubframe : Packet :=
  subframe (msdu.packet, msdu.amsduSubframeHeader)

/-- An MSDU is added behind the padding of what is there : the 16 bits that the size is counted in
do not matter. -/
theorem doAggregatePacket_eq (packet : Packet) :
    msdu.doAggregatePacket packet = append 4 0 packet msdu.amsduSubframe := by
  have hpad : calculatePadding (.ofNat packet.length) = padding 4 packet.length := by
    rw [calculatePadding, UInt16.toNat_ofNat', padding_mod (by decide)]
  rw [doAggregatePacket, append, pad, hpad]
  split_ifs with h
  · rfl
  · obtain rfl : packet = [] := List.eq_nil_of_length_eq_zero (Nat.eq_zero_of_not_pos h)
    rw [List.length_nil, padding_zero]
    rfl

theorem length_amsduSubframe : msdu.amsduSubframe.length = 14 + msdu.packet.length :=
  length_subframe _

/-- The bytes of an MPDU are as many as `GetSize` says, counted in 32 bits. -/
theorem length_getProtocolDataUnit : mpdu.getProtocolDataUnit.length =
    mpdu.packet.length + mpdu.header.getSize + 4 := by
  simp only [getProtocolDataUnit, List.length_append, MacHeader.length_serialize, List.length_cons,
    List.length_nil]
  omega

theorem toNat_getSize :
    mpdu.getSize.toNat = mpdu.getProtocolDataUnit.length % 2 ^ 32 := by
  rw [length_getProtocolDataUnit, getSize, getPacketSize, ← UInt32.ofNat_add]
  change (UInt32.ofNat (_ + _) + UInt32.ofNat 4).toNat = _
  rw [← UInt32.ofNat_add, UInt32.toNat_ofNat']

end WifiMpdu

end Aggregation

end Ns3Pedca
