import Ns3Pedca.Wifi.BlockAckTransport

/-!
# The BlockAckReq frame

`CtrlBAckRequestHeader` has the ack policy, the variant and the TID in its control field, then the
starting sequence number, and a group address in the GCR variant. A frame is read back from its
bytes but for the ack policy (`deserialize_serialize`) : `getBarControl` does not write it, and
`setBarControl` reads it, so a header survives exactly if it asks for no HT
immediate Ack (`roundTrips_iff`).
-/

namespace Ns3Pedca

/-- `BlockAckReqType::Variant`. -/
inductive BlockAckReqVariant
  | basic
  | compressed
  | extendedCompressed
  | multiTid
  | gcr
  deriving DecidableEq

/-- `CtrlBAckRequestHeader`. -/
structure CtrlBAckRequestHeader where
  barAckPolicy : Bool := false
  barType : BlockAckReqVariant := .basic
  tidInfo : ℕ := 0
  startingSeq : ℕ := 0
  gcrAddress : Mac48Address := .station 0
  deriving DecidableEq

namespace CtrlBAckRequestHeader

open Bytes CtrlBAckResponseHeader

variable (hdr : CtrlBAckRequestHeader)

/-! ## The frame -/

/-- `GetSerializedSize`. -/
def getSerializedSize : ℕ :=
  match hdr.barType with
  | .basic | .compressed | .extendedCompressed => 2 + 2
  | .multiTid => 2 + (2 + 2) * (hdr.tidInfo + 1)
  | .gcr => 2 + (2 + 6)

/-- The code of a variant in the BAR Control field. -/
def variantCode : BlockAckReqVariant → ℕ
  | .basic => 0x00
  | .compressed => 0x02
  | .extendedCompressed => 0x01
  | .multiTid => 0x03
  | .gcr => 0x06

/-- `GetBarControl`. -/
def getBarControl : ℕ :=
  variantCode hdr.barType <<< 1 ||| (hdr.tidInfo <<< 12 &&& 0xf <<< 12)

/-- The variant of a code. -/
def variantOfCode (code : ℕ) : BlockAckReqVariant :=
  if code = 0x06 then .gcr
  else if code = 0x03 then .multiTid
  else if code = 0x01 then .extendedCompressed
  else if code = 0x02 then .compressed
  else .basic

/-- `SetBarControl`. -/
def setBarControl (bar : ℕ) : CtrlBAckRequestHeader :=
  { hdr with
    barAckPolicy := bar &&& 0x01 = 1
    barType := variantOfCode (bar >>> 1 &&& 0x0f)
    tidInfo := bar >>> 12 &&& 0x0f }

/-- `GetStartingSequenceControl`. -/
def getStartingSequenceControl : ℕ :=
  hdr.startingSeq <<< 4 &&& 0xfff0

/-- `SetStartingSequenceControl`. -/
def setStartingSequenceControl (seqControl : ℕ) : CtrlBAckRequestHeader :=
  { hdr with startingSeq := seqControl >>> 4 &&& 0x0fff }

/-- `Serialize`. The Multi-TID variant is not supported. -/
def serialize : Option (List UInt8) :=
  match hdr.barType with
  | .basic | .compressed | .extendedCompressed =>
    some (writeU16 hdr.getBarControl ++ writeU16 hdr.getStartingSequenceControl)
  | .multiTid => none
  | .gcr =>
    some (writeU16 hdr.getBarControl ++ (writeU16 hdr.getStartingSequenceControl ++
      writeAddress hdr.gcrAddress))

/-- What `Deserialize` reads behind the BAR Control field. -/
def deserializeBarInfo (bytes : List UInt8) : Option (CtrlBAckRequestHeader × List UInt8) :=
  match hdr.barType with
  | .basic | .compressed | .extendedCompressed => do
    let (control, bytes) ← readU16 bytes
    return (hdr.setStartingSequenceControl control, bytes)
  | .multiTid => none
  | .gcr => do
    let (control, bytes) ← readU16 bytes
    let (address, bytes) ← readAddress bytes
    return ({ hdr.setStartingSequenceControl control with gcrAddress := address }, bytes)

/-- `Deserialize` : the header and the number of bytes read. -/
def deserialize (start : List UInt8) : Option (CtrlBAckRequestHeader × ℕ) := do
  let (bar, bytes) ← readU16 start
  let (hdr, bytes) ← (hdr.setBarControl bar).deserializeBarInfo bytes
  return (hdr, start.length - bytes.length)

/-! ## Reading a frame back -/

/-- Two headers have the same fields. Only the GCR variant has an address. -/
structure Agrees (hdr hdr' : CtrlBAckRequestHeader) : Prop where
  barAckPolicy : hdr'.barAckPolicy = hdr.barAckPolicy
  barType : hdr'.barType = hdr.barType
  tidInfo : hdr'.tidInfo = hdr.tidInfo
  startingSeq : hdr'.startingSeq = hdr.startingSeq
  gcrAddress : hdr.barType = .gcr → hdr'.gcrAddress = hdr.gcrAddress

/-- A header has a serialization of `GetSerializedSize` bytes, and these are what is read back from
any buffer that starts with them, into any header : all fields agree. -/
def RoundTrips : Prop :=
  ∃ bytes, hdr.serialize = some bytes ∧ bytes.length = hdr.getSerializedSize ∧
    ∀ (old : CtrlBAckRequestHeader) (rest : List UInt8), ∃ hdr',
      old.deserialize (bytes ++ rest) = some (hdr', hdr.getSerializedSize) ∧ hdr.Agrees hdr'

variable {hdr} {old : CtrlBAckRequestHeader}

/-- What the BAR Control field keeps. -/
theorem barControl_fields (htid : hdr.tidInfo < 16) :
    hdr.getBarControl < 2 ^ 16 ∧ old.setBarControl hdr.getBarControl =
      { old with barAckPolicy := false, barType := hdr.barType, tidInfo := hdr.tidInfo } := by
  have hfields : ∀ (variant : BlockAckReqVariant) (tid : Fin 16),
      (variantCode variant <<< 1 ||| (tid.val <<< 12 &&& 0xf <<< 12)) < 2 ^ 16 ∧
      (variantCode variant <<< 1 ||| (tid.val <<< 12 &&& 0xf <<< 12)) &&& 0x01 = 0 ∧
      variantOfCode ((variantCode variant <<< 1 ||| (tid.val <<< 12 &&& 0xf <<< 12)) >>> 1 &&&
        0x0f) = variant ∧
      (variantCode variant <<< 1 ||| (tid.val <<< 12 &&& 0xf <<< 12)) >>> 12 &&& 0x0f =
        tid.val := by
    intro variant
    cases variant <;> decide
  obtain ⟨hlt, hpolicy, hvariant, htid'⟩ := hfields hdr.barType ⟨hdr.tidInfo, htid⟩
  refine ⟨hlt, ?_⟩
  rw [setBarControl, getBarControl, hpolicy, hvariant, htid']
  rfl

/-- What the starting sequence control keeps. -/
theorem startingSequenceControl_field (hseq : hdr.startingSeq < 4096) :
    hdr.getStartingSequenceControl < 2 ^ 16 ∧
      old.setStartingSequenceControl hdr.getStartingSequenceControl =
        { old with startingSeq := hdr.startingSeq } := by
  obtain ⟨hlt, -, hfield⟩ := startingSequenceControl_fields hseq
    (show 0 < 16 by decide) (Nat.or_zero _).symm
  refine ⟨hlt, ?_⟩
  rw [setStartingSequenceControl, getStartingSequenceControl, hfield]

theorem serialize_eq (hvariant : hdr.barType ≠ .multiTid) :
    ∃ address, hdr.serialize = some (writeU16 hdr.getBarControl ++
        (writeU16 hdr.getStartingSequenceControl ++ address)) ∧
      4 + address.length = hdr.getSerializedSize ∧
      (hdr.barType = .gcr ∧ address = writeAddress hdr.gcrAddress ∨
        hdr.barType ≠ .gcr ∧ address = []) := by
  rw [serialize, getSerializedSize]
  cases htype : hdr.barType with
  | multiTid => exact absurd htype hvariant
  | gcr =>
    refine ⟨writeAddress hdr.gcrAddress, rfl, ?_, Or.inl ⟨rfl, rfl⟩⟩
    rw [length_writeAddress]
  | _ => exact ⟨[], by rw [List.append_nil], rfl, Or.inr ⟨by decide, rfl⟩⟩

/-- What follows the BAR Control field is read back. -/
theorem deserializeBarInfo_append (hvariant : old.barType ≠ .multiTid)
    (hseq : hdr.startingSeq < 4096) {address rest : List UInt8}
    (haddress : old.barType = .gcr ∧ address = writeAddress hdr.gcrAddress ∨
      old.barType ≠ .gcr ∧ address = []) :
    old.deserializeBarInfo (writeU16 hdr.getStartingSequenceControl ++ address ++ rest) = some
      ({ old with
        startingSeq := hdr.startingSeq
        gcrAddress := if old.barType = .gcr then hdr.gcrAddress else old.gcrAddress }, rest) := by
  obtain ⟨hlt, hset⟩ := @startingSequenceControl_field hdr old hseq
  rw [deserializeBarInfo, List.append_assoc, readU16_writeU16 hlt]
  rcases haddress with ⟨hgcr, rfl⟩ | ⟨hne, rfl⟩
  · rw [if_pos hgcr, hgcr]
    change (readAddress (writeAddress hdr.gcrAddress ++ rest)).bind _ = _
    rw [readAddress_writeAddress, Option.bind_some, hset, ← hgcr]
    rfl
  · rw [if_neg hne]
    cases htype : old.barType with
    | multiTid => exact absurd htype hvariant
    | gcr => exact absurd htype hne
    | _ =>
      change some (old.setStartingSequenceControl _, rest) = _
      rw [hset, htype]

/-- A frame is read back but for its ack policy. -/
theorem deserialize_serialize (hvariant : hdr.barType ≠ .multiTid) (htid : hdr.tidInfo < 16)
    (hseq : hdr.startingSeq < 4096) :
    ∃ bytes, hdr.serialize = some bytes ∧ bytes.length = hdr.getSerializedSize ∧
      ∀ (old : CtrlBAckRequestHeader) (rest : List UInt8), old.deserialize (bytes ++ rest) = some
        ({ hdr with
          barAckPolicy := false
          gcrAddress := if hdr.barType = .gcr then hdr.gcrAddress else old.gcrAddress },
          hdr.getSerializedSize) := by
  obtain ⟨address, hbytes, hsize, haddress⟩ := serialize_eq hvariant
  refine ⟨_, hbytes, ?_, fun old rest => ?_⟩
  · rw [List.length_append, List.length_append, length_writeU16, length_writeU16]
    omega
  · obtain ⟨hlt, hset⟩ := @barControl_fields hdr old htid
    have hinfo := @deserializeBarInfo_append hdr (old.setBarControl hdr.getBarControl)
      (by rwa [hset]) hseq address rest (by rwa [hset])
    rw [deserialize, List.append_assoc, readU16_writeU16 hlt]
    change ((old.setBarControl hdr.getBarControl).deserializeBarInfo _).bind _ = _
    rw [hinfo, Option.bind_some, hset]
    refine congrArg some (Prod.ext rfl ?_)
    rw [List.length_append, List.length_append, List.length_append, length_writeU16,
      length_writeU16]
    omega

/-- A header is read back exactly if it asks for no HT immediate Ack. -/
theorem roundTrips_iff (hdr : CtrlBAckRequestHeader) (hvariant : hdr.barType ≠ .multiTid)
    (htid : hdr.tidInfo < 16) (hseq : hdr.startingSeq < 4096) :
    hdr.RoundTrips ↔ hdr.barAckPolicy = false := by
  obtain ⟨bytes, hbytes, hsize, hread⟩ := deserialize_serialize hvariant htid hseq
  constructor
  · rintro ⟨bytes', hbytes', -, hread'⟩
    obtain rfl := Option.some.inj (hbytes.symm.trans hbytes')
    obtain ⟨hdr', hdeserialize, hagrees⟩ := hread' {} []
    rw [hread {} []] at hdeserialize
    obtain ⟨rfl, -⟩ := Prod.mk.inj (Option.some.inj hdeserialize)
    exact hagrees.barAckPolicy.symm
  · intro hpolicy
    refine ⟨bytes, hbytes, hsize, fun old rest => ⟨_, hread old rest, ?_⟩⟩
    exact ⟨hpolicy.symm, rfl, rfl, rfl, fun hgcr => if_pos hgcr⟩

/-- With the GCR variant. -/
theorem roundTrips_gcr :
    RoundTrips { barType := .gcr, tidInfo := 5, startingSeq := 4095, gcrAddress := .station 7 } :=
  (roundTrips_iff { barType := .gcr, tidInfo := 5, startingSeq := 4095, gcrAddress := .station 7 }
    (by decide) (by decide) (by decide)).2 rfl

/-- The bit of an HT immediate Ack is lost. -/
theorem not_roundTrips : ¬∀ hdr : CtrlBAckRequestHeader, hdr.barType ≠ .multiTid →
    hdr.tidInfo < 16 → hdr.startingSeq < 4096 → hdr.RoundTrips := by
  intro h
  obtain ⟨bytes, hbytes, -, hread⟩ :=
    h { barAckPolicy := true } (by decide) (by decide) (by decide)
  obtain rfl := Option.some.inj hbytes
  obtain ⟨hdr', hdeserialize, hagrees⟩ := hread {} []
  obtain ⟨rfl, -⟩ := Prod.mk.inj (Option.some.inj hdeserialize)
  exact absurd hagrees.barAckPolicy (by decide)

end CtrlBAckRequestHeader

end Ns3Pedca
