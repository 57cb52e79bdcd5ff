import Ns3Pedca.Wifi.WifiMpdu

/-!
# Transmit parameters of a frame

`WifiTxParameters` records the MPDUs and MSDUs that are added to a frame before it is sent. For each
receiver it keeps the size of the last (A-)MSDU, and apart from it the size of the A-MPDU that
comes before (`PsduInfo`). What the last call has changed can be undone once. There is no tag that
tells whether that call has added the first MPDU of a receiver : it has if the two sizes that are
kept to undo it are zero.
-/

namespace Ns3Pedca

namespace Aggregation

open PaddedConcat

/-- `WifiModulationClass`. -/
inductive WifiModulationClass
  | unknown
  | dsss
  | hrDsss
  | erpOfdm
  | ofdm
  | ht
  | vht
  | dmgCtrl
  | dmgOfdm
  | dmgSc
  | dmgLpSc
  | he
  | eht
  deriving DecidableEq

/-- The enumeration is ordered : `GetModulationClass() >= WIFI_MOD_CLASS_VHT`. -/
def WifiModulationClass.isVhtOrLater : WifiModulationClass → Bool
  | unknown | dsss | hrDsss | erpOfdm | ofdm | ht => false
  | vht | dmgCtrl | dmgOfdm | dmgSc | dmgLpSc | he | eht => true

namespace MpduAggregator

/-- `CalculatePadding`. -/
def calculatePadding (ampduSize : UInt32) : ℕ :=
  padding 4 ampduSize.toNat

/-- `GetSizeIfAggregated` : the header of a subframe has 4 bytes. -/
def getSizeIfAggregated (mpduSize ampduSize : UInt32) : UInt32 :=
  ampduSize + .ofNat (calculatePadding ampduSize) + 4 + mpduSize

end MpduAggregator

/-! ## What is recorded of a receiver -/

/-- The sequence numbers that are recorded for each TID :
`std::map<uint8_t, std::set<uint16_t>>`. -/
abbrev SeqNumbers := Fin 16 → Option (Finset UInt16)

namespace SeqNumbers

/-- The map without entries. -/
def empty : SeqNumbers :=
  fun _ => none

/-- The sequence number of a QoS data frame is recorded. -/
def record (seqNumbers : SeqNumbers) (hdr : MacHeader) : SeqNumbers :=
  if hdr.isQosData then
    match seqNumbers hdr.qosTid with
    | none => Function.update seqNumbers hdr.qosTid (some {hdr.sequenceNumber})
    | some set => Function.update seqNumbers hdr.qosTid (some (insert hdr.sequenceNumber set))
  else seqNumbers

/-- The first key : `begin()->first`. -/
def firstTid (seqNumbers : SeqNumbers) : Option (Fin 16) :=
  (List.finRange 16).find? fun tid => (seqNumbers tid).isSome

end SeqNumbers

/-- `PsduInfo`. -/
structure PsduInfo where
  /-- The header of the last MPDU. -/
  header : MacHeader
  /-- The size of the (A-)MSDU in the last MPDU. -/
  amsduSize : UInt32
  /-- The size of the A-MPDU before the last MPDU, zero if there is none. -/
  ampduSize : UInt32
  seqNumbers : SeqNumbers

/-- The size of the last MPDU. -/
def PsduInfo.mpduSize (info : PsduInfo) : UInt32 :=
  .ofNat info.header.getSize + info.amsduSize + 4

/-- `m_undoInfo` : the map of its sequence numbers has at most the one to remove. -/
structure UndoInfo where
  header : MacHeader
  amsduSize : UInt32
  ampduSize : UInt32
  seqNumber : Option (Fin 16 × UInt16)

/-- The last call added the first MPDU of a receiver, as far as the two sizes tell. -/
def UndoInfo.isFirst (undo : UndoInfo) : Bool :=
  undo.amsduSize = 0 && undo.ampduSize = 0

/-- The sequence number that was recorded is erased. -/
def UndoInfo.restoreSeqNumbers (undo : UndoInfo) (seqNumbers : SeqNumbers) : Option SeqNumbers :=
  match undo.seqNumber with
  | none => some seqNumbers
  | some (tid, seq) =>
    (seqNumbers tid).map fun set => Function.update seqNumbers tid (some (set.erase seq))

/-- `m_info`, `m_undoInfo` and `m_lastInfoIt`. -/
structure Psdus where
  info : Mac48Address → Option PsduInfo := fun _ => none
  undoInfo : UndoInfo := ⟨default, 0, 0, none⟩
  lastInfo : Option Mac48Address := none

namespace Psdus

variable (psdus : Psdus) (mpdu msdu : WifiMpdu)

/-- `AddMpdu`. -/
def addMpdu : Option Psdus :=
  let hdr := mpdu.header
  match psdus.info hdr.addr1 with
  | none =>
    -- an MPDU that starts a new PSDU
    let info := ⟨hdr, mpdu.getPacketSize, 0, SeqNumbers.empty.record hdr⟩
    some
      { info := Function.update psdus.info hdr.addr1 (some info)
        undoInfo := ⟨default, 0, 0, none⟩
        lastInfo := some hdr.addr1 }
  | some info =>
    if hdr.isQosData && !hdr.hasData || 0 < info.amsduSize then
      let info' : PsduInfo :=
        { header := hdr
          amsduSize := mpdu.getPacketSize
          ampduSize := MpduAggregator.getSizeIfAggregated info.mpduSize info.ampduSize
          seqNumbers := info.seqNumbers.record hdr }
      some
        { info := Function.update psdus.info hdr.addr1 (some info')
          undoInfo :=
            { header := info.header
              amsduSize := info.amsduSize
              ampduSize := info.ampduSize
              seqNumber := if hdr.isQosData then some (hdr.qosTid, hdr.sequenceNumber) else none }
          lastInfo := some hdr.addr1 }
    else none

/-- `UndoAddMpdu`. -/
def undoAddMpdu : Option Psdus :=
  psdus.lastInfo.bind fun receiver =>
    if psdus.undoInfo.isFirst then
      some { psdus with info := Function.update psdus.info receiver none, lastInfo := none }
    else
      (psdus.info receiver).bind fun lastInfo =>
        (psdus.undoInfo.restoreSeqNumbers lastInfo.seqNumbers).map fun seqNumbers =>
          let info : PsduInfo :=
            { header := psdus.undoInfo.header
              amsduSize := psdus.undoInfo.amsduSize
              ampduSize := psdus.undoInfo.ampduSize
              seqNumbers }
          { psdus with info := Function.update psdus.info receiver (some info), lastInfo := none }

/-- `LastAddedIsFirstMpdu`. -/
def lastAddedIsFirstMpdu (receiver : Mac48Address) : Option Bool := do
  guard (psdus.info receiver).isSome
  guard (psdus.lastInfo = some receiver)
  return psdus.undoInfo.isFirst

/-- `GetSizeIfAddMpdu`. -/
def getSizeIfAddMpdu (modulation : WifiModulationClass) : UInt32 :=
  match psdus.info mpdu.header.addr1 with
  | none =>
    if modulation.isVhtOrLater then MpduAggregator.getSizeIfAggregated mpdu.getSize 0
    else mpdu.getSize
  | some info =>
    MpduAggregator.getSizeIfAggregated mpdu.getSize
      (MpduAggregator.getSizeIfAggregated info.mpduSize info.ampduSize)

/-- `GetSizeIfAggregateMsdu` : the size of the A-MSDU. -/
def getSizeIfAggregateMsdu : Option UInt32 := do
  guard msdu.header.isQosData
  let info ← psdus.info msdu.header.addr1
  guard (0 < info.amsduSize)
  guard info.header.isQosData
  guard (info.header.qosTid = msdu.header.qosTid)
  guard (info.seqNumbers msdu.header.qosTid).isSome
  let currAmsduSize :=
    if !info.header.isQosAmsdu then
      MsduAggregator.getSizeIfAggregated info.amsduSize.toUInt16 0
    else info.amsduSize.toUInt16
  return (MsduAggregator.getSizeIfAggregated msdu.getPacketSize.toUInt16 currAmsduSize).toUInt32

/-- `AggregateMsdu`. -/
def aggregateMsdu : Option Psdus := do
  let info ← psdus.info msdu.header.addr1
  let amsduSize ← psdus.getSizeIfAggregateMsdu msdu
  return {
    info := Function.update psdus.info msdu.header.addr1
      (some { info with amsduSize, header := info.header.setQosAmsdu })
    undoInfo := ⟨info.header, info.amsduSize, info.ampduSize, none⟩
    lastInfo := some msdu.header.addr1 }

/-- `GetSize`. -/
def getSize (modulation : WifiModulationClass) (receiver : Mac48Address) : UInt32 :=
  match psdus.info receiver with
  | none => 0
  | some info =>
    if 0 < info.ampduSize || modulation.isVhtOrLater then
      MpduAggregator.getSizeIfAggregated info.mpduSize info.ampduSize
    else info.mpduSize

variable {psdus psdus' : Psdus} {mpdu msdu : WifiMpdu} {info : PsduInfo}

/-! ## What the calls do -/

theorem addMpdu_of_none (hnone : psdus.info mpdu.header.addr1 = none) :
    psdus.addMpdu mpdu = some
      { info := Function.update psdus.info mpdu.header.addr1
          (some ⟨mpdu.header, mpdu.getPacketSize, 0, SeqNumbers.empty.record mpdu.header⟩)
        undoInfo := ⟨default, 0, 0, none⟩
        lastInfo := some mpdu.header.addr1 } := by
  rw [addMpdu, hnone]

theorem addMpdu_of_some (hsome : psdus.info mpdu.header.addr1 = some info)
    (hadd : psdus.addMpdu mpdu = some psdus') :
    ((mpdu.header.isQosData && !mpdu.header.hasData) = true ∨ 0 < info.amsduSize) ∧
      psdus' =
        { info := Function.update psdus.info mpdu.header.addr1
            (some ⟨mpdu.header, mpdu.getPacketSize,
              MpduAggregator.getSizeIfAggregated info.mpduSize info.ampduSize,
              info.seqNumbers.record mpdu.header⟩)
          undoInfo := ⟨info.header, info.amsduSize, info.ampduSize,
            if mpdu.header.isQosData then some (mpdu.header.qosTid, mpdu.header.sequenceNumber)
            else none⟩
          lastInfo := some mpdu.header.addr1 } := by
  rw [addMpdu, hsome] at hadd
  obtain ⟨hassert, heq⟩ := Option.ite_none_right_eq_some.1 hadd
  exact ⟨by simpa using hassert, (Option.some.inj heq).symm⟩

/-- The size of the A-MSDU, and what is asserted of the MPDU that is there. -/
theorem getSizeIfAggregateMsdu_eq_some {n : UInt32} :
    psdus.getSizeIfAggregateMsdu msdu = some n ↔
      msdu.header.isQosData = true ∧ ∃ info, psdus.info msdu.header.addr1 = some info ∧
        0 < info.amsduSize ∧ info.header.isQosData = true ∧
        info.header.qosTid = msdu.header.qosTid ∧
        (info.seqNumbers msdu.header.qosTid).isSome = true ∧
        (MsduAggregator.getSizeIfAggregated msdu.getPacketSize.toUInt16
          (if !info.header.isQosAmsdu then
              MsduAggregator.getSizeIfAggregated info.amsduSize.toUInt16 0
            else info.amsduSize.toUInt16)).toUInt32 = n := by
  simp only [getSizeIfAggregateMsdu, Option.bind_eq_bind, Option.bind_eq_some_iff,
    Option.guard_eq_some', Option.pure_def, exists_const, Option.some.injEq]

theorem aggregateMsdu_eq_some :
    psdus.aggregateMsdu msdu = some psdus' ↔
      ∃ info, psdus.info msdu.header.addr1 = some info ∧
        ∃ amsduSize, psdus.getSizeIfAggregateMsdu msdu = some amsduSize ∧
          { info := Function.update psdus.info msdu.header.addr1
              (some { info with amsduSize, header := info.header.setQosAmsdu })
            undoInfo := ⟨info.header, info.amsduSize, info.ampduSize, none⟩
            lastInfo := some msdu.header.addr1 } = psdus' := by
  simp only [aggregateMsdu, Option.bind_eq_bind, Option.bind_eq_some_iff, Option.pure_def,
    Option.some.injEq]

end Psdus

/-- A call that adds to the frame. -/
inductive Addition
  | mpdu (mpdu : WifiMpdu)
  | msdu (msdu : WifiMpdu)

namespace Addition

/-- The frame that is added. -/
def frame : Addition → WifiMpdu
  | .mpdu m => m
  | .msdu m => m

/-- The receiver of the frame. -/
def receiver (call : Addition) : Mac48Address :=
  call.frame.header.addr1

/-- The call, `none` if it fails an assertion. -/
def apply : Addition → Psdus → Option Psdus
  | .mpdu m, psdus => psdus.addMpdu m
  | .msdu m, psdus => psdus.aggregateMsdu m

end Addition

end Aggregation

end Ns3Pedca
