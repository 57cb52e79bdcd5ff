import Ns3Pedca.Core
import Ns3Pedca.Wifi.WifiTxParameters

/-!
# Frames that are refused

`HtFrameExchangeManager` tries an MPDU or MSDU : it adds it to the transmit parameters, swaps in the
protection and acknowledgment methods that the frame needs, and checks the limits. If they are
exceeded, it takes everything back. Managers, durations and the limits of the recipient are
parameters.

A frame that is refused leaves the parameters as they were, and the limit on A-MPDU sizes is checked
for all but the first MPDU of a receiver, exactly if two kinds of MPDUs are left out
(`restored_iff`). If what the receiver has is one MPDU without payload, both sizes are zero, and the
next MPDU is taken for the first. If the MPDU is the first of its TID, an empty set of sequence
numbers stays behind. In a run without these, the PSDUs are those of the accepted frames alone
(`Trace.info_eq`).
-/

namespace Ns3Pedca

namespace Aggregation

/-! ## Trying a frame -/

/-- `WifiTxParameters`, with the PSDUs, and protection and acknowledgment methods of types `P`
and `A`. -/
structure WifiTxParameters (P A : Type) where
  modulationClass : WifiModulationClass
  protection : Option P
  acknowledgment : Option A
  txDuration : Option Time
  psdus : Psdus

/-- A protection or acknowledgment manager. -/
structure MethodManager (M Params : Type) where
  /-- `TryAddMpdu` : the method to change to, if any. -/
  tryAddMpdu : WifiMpdu → Params → Option M
  /-- `TryAggregateMsdu`. -/
  tryAggregateMsdu : WifiMpdu → Params → Option M
  /-- `CalculateProtectionTime` or `CalculateAcknowledgmentTime`. -/
  calculateTime : M → M
  /-- `protectionTime` or `acknowledgmentTime`. -/
  time : M → Option Time

/-- What `HtFrameExchangeManager` asks others. -/
structure HtFrameExchangeManager (P A : Type) where
  getTxDuration : UInt32 → Mac48Address → WifiTxParameters P A → Time
  protectionManager : MethodManager P (WifiTxParameters P A)
  ackManager : MethodManager A (WifiTxParameters P A)
  getMaxAmpduSize : Mac48Address → Fin 16 → WifiModulationClass → UInt32
  getMaxAmsduSize : Mac48Address → Fin 16 → WifiModulationClass → UInt16
  /-- `none` stands for `Time::Min()`, no limit. -/
  isWithinSizeAndTimeLimits : UInt32 → Mac48Address → WifiTxParameters P A → Option Time → Bool

/-- A method pointer after the swap with a proposed one : what is installed, and what the local
pointer holds if they were swapped. -/
structure Swapped (M : Type) where
  installed : Option M
  previous : Option (Option M)

/-- A method that is proposed is swapped with the current one. -/
def swapMethod {M : Type} (calculate : M → M) (current proposed : Option M) : Swapped M :=
  match proposed with
  | some method => ⟨some (calculate method), some current⟩
  | none => ⟨current, none⟩

/-- The methods are swapped back if they were swapped. -/
def Swapped.restored {M : Type} (s : Swapped M) : Option M :=
  s.previous.getD s.installed

@[simp] theorem restored_swapMethod {M : Type} (calculate : M → M) (current proposed : Option M) :
    (swapMethod calculate current proposed).restored = current := by
  cases proposed <;> rfl

namespace HtFrameExchangeManager

variable {P A : Type} (fem : HtFrameExchangeManager P A)

/-- `UpdateTxDuration`. -/
def updateTxDuration (receiver : Mac48Address) (p : WifiTxParameters P A) : WifiTxParameters P A :=
  { p with
    txDuration :=
      some (fem.getTxDuration (p.psdus.getSize p.modulationClass receiver) receiver p) }

/-- `IsWithinAmpduSizeLimit`. -/
def isWithinAmpduSizeLimit (ampduSize : UInt32) (receiver : Mac48Address) (tid : Fin 16)
    (modulation : WifiModulationClass) : Bool :=
  let maxAmpduSize := fem.getMaxAmpduSize receiver tid modulation
  if maxAmpduSize = 0 then false else !(maxAmpduSize < ampduSize)

/-- The TID that the limit of an A-MPDU is looked up for, `none` if the code aborts. -/
def limitTid (psdus : Psdus) (mpdu : WifiMpdu) : Option (Fin 16) :=
  if mpdu.header.isQosData then some mpdu.header.qosTid
  else (psdus.info mpdu.header.addr1).bind fun info => info.seqNumbers.firstTid

/-- `IsWithinLimitsIfAddMpdu`. -/
def isWithinLimitsIfAddMpdu (mpdu : WifiMpdu) (p : WifiTxParameters P A)
    (ppduDurationLimit : Option Time) : Option Bool := do
  let receiver := mpdu.header.addr1
  let ampduSize := p.psdus.getSize p.modulationClass receiver
  let isFirst ← p.psdus.lastAddedIsFirstMpdu receiver
  if isFirst then
    return fem.isWithinSizeAndTimeLimits ampduSize receiver p ppduDurationLimit
  else
    let tid ← limitTid p.psdus mpdu
    return fem.isWithinAmpduSizeLimit ampduSize receiver tid p.modulationClass &&
      fem.isWithinSizeAndTimeLimits ampduSize receiver p ppduDurationLimit

/-- `IsWithinLimitsIfAggregateMsdu`. -/
def isWithinLimitsIfAggregateMsdu (msdu : WifiMpdu) (p : WifiTxParameters P A)
    (ppduDurationLimit : Option Time) : Option Bool := do
  guard msdu.header.isQosData
  let receiver := msdu.header.addr1
  let tid := msdu.header.qosTid
  let psduInfo ← p.psdus.info receiver
  let maxAmsduSize := fem.getMaxAmsduSize receiver tid p.modulationClass
  if maxAmsduSize = 0 ∨ maxAmsduSize.toUInt32 < psduInfo.amsduSize then
    return false
  let ampduSize := p.psdus.getSize p.modulationClass receiver
  if 0 < psduInfo.ampduSize ∧
      fem.isWithinAmpduSizeLimit ampduSize receiver tid p.modulationClass = false then
    return false
  return fem.isWithinSizeAndTimeLimits ampduSize receiver p ppduDurationLimit

/-- What `TryAddMpdu` and `TryAggregateMsdu` do after the frame is added : the methods are swapped,
and the limits checked. -/
def checkLimits (proposedProtection : WifiTxParameters P A → Option P)
    (proposedAck : WifiTxParameters P A → Option A)
    (limits : WifiTxParameters P A → Option Time → Option Bool) (availableTime : Option Time)
    (prevTxDuration : Option Time) (p : WifiTxParameters P A) :
    Option (Bool × WifiTxParameters P A) := do
  let protection :=
    swapMethod fem.protectionManager.calculateTime p.protection (proposedProtection p)
  let p := { p with protection := protection.installed }
  let protectionTime ← p.protection.bind fem.protectionManager.time
  let acknowledgment :=
    swapMethod fem.ackManager.calculateTime p.acknowledgment (proposedAck p)
  let p := { p with acknowledgment := acknowledgment.installed }
  let acknowledgmentTime ← p.acknowledgment.bind fem.ackManager.time
  let ppduDurationLimit := availableTime.map fun time => time - protectionTime - acknowledgmentTime
  let within ← limits p ppduDurationLimit
  if within then
    return (true, p)
  else
    let psdus ← p.psdus.undoAddMpdu
    return (false,
      { p with
        psdus
        txDuration := prevTxDuration
        protection := protection.restored
        acknowledgment := acknowledgment.restored })

/-- `TryAddMpdu`. -/
def tryAddMpdu (mpdu : WifiMpdu) (availableTime : Option Time) (p : WifiTxParameters P A) :
    Option (Bool × WifiTxParameters P A) := do
  let psdus ← p.psdus.addMpdu mpdu
  fem.checkLimits (fem.protectionManager.tryAddMpdu mpdu) (fem.ackManager.tryAddMpdu mpdu)
    (fem.isWithinLimitsIfAddMpdu mpdu) availableTime p.txDuration
    (fem.updateTxDuration mpdu.header.addr1 { p with psdus })

/-- `TryAggregateMsdu`, which needs the methods to be set before. -/
def tryAggregateMsdu (msdu : WifiMpdu) (availableTime : Option Time) (p : WifiTxParameters P A) :
    Option (Bool × WifiTxParameters P A) := do
  guard msdu.header.isQosData
  let psdus ← p.psdus.aggregateMsdu msdu
  guard p.protection.isSome
  guard p.acknowledgment.isSome
  fem.checkLimits (fem.protectionManager.tryAggregateMsdu msdu)
    (fem.ackManager.tryAggregateMsdu msdu) (fem.isWithinLimitsIfAggregateMsdu msdu) availableTime
    p.txDuration (fem.updateTxDuration msdu.header.addr1 { p with psdus })

/-- `TryAddMpdu` or `TryAggregateMsdu`. -/
def tryAdd : Addition → Option Time → WifiTxParameters P A → Option (Bool × WifiTxParameters P A)
  | .mpdu mpdu => fem.tryAddMpdu mpdu
  | .msdu msdu => fem.tryAggregateMsdu msdu

end HtFrameExchangeManager

/-! ## Undoing an addition -/

namespace SeqNumbers

variable {seqNumbers : SeqNumbers} {hdr : MacHeader}

/-- A sequence number that was not recorded is erased again, if its TID had an entry. -/
theorem restore_record (h₀ : MacHeader) (n m : UInt32)
    (hnew : hdr.isQosData = true → ∀ set, seqNumbers hdr.qosTid = some set →
      hdr.sequenceNumber ∉ set)
    (htid : hdr.isQosData = true → (seqNumbers hdr.qosTid).isSome) :
    UndoInfo.restoreSeqNumbers
      ⟨h₀, n, m, if hdr.isQosData then some (hdr.qosTid, hdr.sequenceNumber) else none⟩
      (seqNumbers.record hdr) = some seqNumbers := by
  rw [UndoInfo.restoreSeqNumbers, record]
  cases hqos : hdr.isQosData with
  | false => simp
  | true =>
    obtain ⟨set, hset⟩ := Option.isSome_iff_exists.1 (htid hqos)
    simp only [hset, if_true, Function.update_self, Option.map_some,
      Finset.erase_insert (hnew hqos set hset), Function.update_idem]
    rw [← hset, Function.update_eq_self]

/-- If its TID had no entry, an empty set stays. -/
theorem restore_record_of_none (h₀ : MacHeader) (n m : UInt32) (hqos : hdr.isQosData = true)
    (htid : seqNumbers hdr.qosTid = none) :
    UndoInfo.restoreSeqNumbers
      ⟨h₀, n, m, if hdr.isQosData then some (hdr.qosTid, hdr.sequenceNumber) else none⟩
      (seqNumbers.record hdr) = some (Function.update seqNumbers hdr.qosTid (some ∅)) := by
  rw [UndoInfo.restoreSeqNumbers, record]
  simp [hqos, htid]

end SeqNumbers

namespace Psdus

variable {psdus psdus' : Psdus} {mpdu msdu : WifiMpdu} {info : PsduInfo}

/-- The first MPDU of a receiver is taken away with its entry. -/
theorem undo_of_none (hnone : psdus.info mpdu.header.addr1 = none)
    (hadd : psdus.addMpdu mpdu = some psdus') :
    ∃ u, psdus'.undoAddMpdu = some u ∧ u.info = psdus.info := by
  obtain rfl := Option.some.inj ((addMpdu_of_none hnone).symm.trans hadd)
  refine ⟨_, rfl, ?_⟩
  change Function.update (Function.update psdus.info _ _) _ none = _
  rw [Function.update_idem, ← hnone, Function.update_eq_self]

/-- If a size that is kept is not zero, undoing restores what was there but for the sequence
numbers. -/
theorem undo_of_some (psdus : Psdus) (receiver : Mac48Address) (info' : PsduInfo)
    (seqNumber : Option (Fin 16 × UInt16)) {seqNumbers : SeqNumbers}
    (hsize : ¬(info.amsduSize = 0 ∧ info.ampduSize = 0))
    (hseq : UndoInfo.restoreSeqNumbers ⟨info.header, info.amsduSize, info.ampduSize, seqNumber⟩
      info'.seqNumbers = some seqNumbers) :
    ∃ u, undoAddMpdu
        { info := Function.update psdus.info receiver (some info')
          undoInfo := ⟨info.header, info.amsduSize, info.ampduSize, seqNumber⟩
          lastInfo := some receiver } = some u ∧
      u.info = Function.update psdus.info receiver (some { info with seqNumbers }) := by
  have hfirst :
      UndoInfo.isFirst ⟨info.header, info.amsduSize, info.ampduSize, seqNumber⟩ = false := by
    simpa [UndoInfo.isFirst] using hsize
  rw [undoAddMpdu, Option.bind_some, hfirst, if_neg (by simp)]
  dsimp only
  rw [Function.update_self, Option.bind_some, hseq]
  exact ⟨_, rfl, Function.update_idem ..⟩

/-- An MSDU that is aggregated leaves the sequence numbers as they are. -/
theorem undo_of_aggregateMsdu (hadd : psdus.aggregateMsdu msdu = some psdus') :
    ∃ u, psdus'.undoAddMpdu = some u ∧ u.info = psdus.info := by
  obtain ⟨info, hinfo, amsduSize, hsize, rfl⟩ := aggregateMsdu_eq_some.1 hadd
  obtain ⟨-, info₀, hinfo₀, hpos, -⟩ := getSizeIfAggregateMsdu_eq_some.1 hsize
  obtain rfl := Option.some.inj (hinfo.symm.trans hinfo₀)
  have hne : ¬(info.amsduSize = 0 ∧ info.ampduSize = 0) := fun h => absurd hpos (by simp [h.1])
  obtain ⟨u, hu, huinfo⟩ := undo_of_some psdus msdu.header.addr1
    { info with amsduSize, header := info.header.setQosAmsdu } none hne rfl
  refine ⟨u, hu, huinfo.trans ?_⟩
  rw [Function.update_eq_self_iff, hinfo]

/-- The last call is taken for the first one of the receiver if nothing tells otherwise. -/
theorem lastAdded_of_none (hnone : psdus.info mpdu.header.addr1 = none)
    (hadd : psdus.addMpdu mpdu = some psdus') :
    psdus'.lastAddedIsFirstMpdu mpdu.header.addr1 = some true := by
  obtain rfl := Option.some.inj ((addMpdu_of_none hnone).symm.trans hadd)
  simp [lastAddedIsFirstMpdu, UndoInfo.isFirst, guard]

theorem lastAdded_of_some (hsome : psdus.info mpdu.header.addr1 = some info)
    (hadd : psdus.addMpdu mpdu = some psdus') :
    psdus'.lastAddedIsFirstMpdu mpdu.header.addr1 =
      some (info.amsduSize = 0 && info.ampduSize = 0) := by
  obtain ⟨-, rfl⟩ := addMpdu_of_some hsome hadd
  simp [lastAddedIsFirstMpdu, UndoInfo.isFirst, guard]

end Psdus

/-! ## Frames that are refused -/

namespace HtFrameExchangeManager

variable {P A : Type} {fem : HtFrameExchangeManager P A} {p s : WifiTxParameters P A}
  {proposedProtection : WifiTxParameters P A → Option P}
  {proposedAck : WifiTxParameters P A → Option A}
  {limits : WifiTxParameters P A → Option Time → Option Bool}
  {availableTime prevTxDuration : Option Time}

/-- If the limits are exceeded, the addition is undone and the methods are as before. -/
theorem checkLimits_false (h : fem.checkLimits proposedProtection proposedAck limits availableTime
      prevTxDuration p = some (false, s)) :
    p.psdus.undoAddMpdu = some s.psdus ∧ s.txDuration = prevTxDuration ∧
      s.protection = p.protection ∧ s.acknowledgment = p.acknowledgment := by
  obtain ⟨protectionTime, -, h⟩ := Option.bind_eq_some_iff.1 h
  obtain ⟨acknowledgmentTime, -, h⟩ := Option.bind_eq_some_iff.1 h
  obtain ⟨within, -, h⟩ := Option.bind_eq_some_iff.1 h
  cases within with
  | true => cases h
  | false =>
    obtain ⟨psdus, hundo, h⟩ := Option.bind_eq_some_iff.1 h
    obtain rfl := (Prod.mk.inj (Option.some.inj h)).2
    exact ⟨hundo, rfl, restored_swapMethod .., restored_swapMethod ..⟩

/-- Otherwise they have been checked. -/
theorem checkLimits_true (h : fem.checkLimits proposedProtection proposedAck limits availableTime
      prevTxDuration p = some (true, s)) :
    s.psdus = p.psdus ∧ ∃ limit, limits s limit = some true := by
  obtain ⟨protectionTime, -, h⟩ := Option.bind_eq_some_iff.1 h
  obtain ⟨acknowledgmentTime, -, h⟩ := Option.bind_eq_some_iff.1 h
  obtain ⟨within, hwithin, h⟩ := Option.bind_eq_some_iff.1 h
  cases within with
  | true =>
    obtain rfl := (Prod.mk.inj (Option.some.inj h)).2
    exact ⟨rfl, _, hwithin⟩
  | false =>
    obtain ⟨psdus, hundo, h⟩ := Option.bind_eq_some_iff.1 h
    cases (Prod.mk.inj (Option.some.inj h)).1

theorem tryAdd_false {call : Addition} {psdus' : Psdus} (hadd : call.apply p.psdus = some psdus')
    (h : fem.tryAdd call availableTime p = some (false, s)) :
    psdus'.undoAddMpdu = some s.psdus ∧ s.txDuration = p.txDuration ∧
      s.protection = p.protection ∧ s.acknowledgment = p.acknowledgment := by
  cases call with
  | mpdu mpdu =>
    obtain ⟨psdus, hpsdus, h⟩ := Option.bind_eq_some_iff.1 h
    obtain rfl := Option.some.inj (hadd.symm.trans hpsdus)
    exact checkLimits_false h
  | msdu msdu =>
    obtain ⟨u₁, -, h⟩ := Option.bind_eq_some_iff.1 h
    obtain ⟨psdus, hpsdus, h⟩ := Option.bind_eq_some_iff.1 h
    obtain rfl := Option.some.inj (hadd.symm.trans hpsdus)
    obtain ⟨u₂, -, h⟩ := Option.bind_eq_some_iff.1 h
    obtain ⟨u₃, -, h⟩ := Option.bind_eq_some_iff.1 h
    exact checkLimits_false h

/-- An MPDU that is accepted and is not taken for the first one is within the limit on A-MPDU
sizes. -/
theorem tryAddMpdu_true {mpdu : WifiMpdu} {psdus' : Psdus}
    (hadd : p.psdus.addMpdu mpdu = some psdus')
    (hfirst : psdus'.lastAddedIsFirstMpdu mpdu.header.addr1 = some false)
    (h : fem.tryAddMpdu mpdu availableTime p = some (true, s)) :
    ∃ tid, limitTid s.psdus mpdu = some tid ∧
      fem.isWithinAmpduSizeLimit (s.psdus.getSize s.modulationClass mpdu.header.addr1)
        mpdu.header.addr1 tid s.modulationClass = true := by
  obtain ⟨psdus, hpsdus, h⟩ := Option.bind_eq_some_iff.1 h
  obtain rfl := Option.some.inj (hadd.symm.trans hpsdus)
  obtain ⟨heq, limit, hlimit⟩ := checkLimits_true h
  rw [isWithinLimitsIfAddMpdu, heq] at hlimit
  change (psdus'.lastAddedIsFirstMpdu mpdu.header.addr1).bind _ = _ at hlimit
  rw [hfirst, Option.bind_some, if_neg (by simp)] at hlimit
  obtain ⟨tid, htid, hlimit⟩ := Option.bind_eq_some_iff.1 hlimit
  have hand := Bool.and_eq_true_iff.1 (Option.some.inj hlimit)
  exact ⟨tid, heq ▸ htid, heq ▸ hand.1⟩

end HtFrameExchangeManager

/-- The sequence number of the frame is not recorded yet. -/
def Addition.IsNew (call : Addition) (psdus : Psdus) : Prop :=
  call.frame.header.isQosData = true → ∀ info, psdus.info call.receiver = some info →
    ∀ set, info.seqNumbers call.frame.header.qosTid = some set →
      call.frame.header.sequenceNumber ∉ set

/-- A frame is added, and refused without a trace. Or it is accepted : if it is an MPDU, it is only
taken for the first one of the receiver if it is, and otherwise the size of the A-MPDU is within
the limit. -/
structure Restored (P A : Type) (call : Addition) (psdus psdus' : Psdus) : Prop where
  undo : ∃ u, psdus'.undoAddMpdu = some u ∧ u.info = psdus.info
  refused : ∀ (fem : HtFrameExchangeManager P A) (availableTime : Option Time)
    (p s : WifiTxParameters P A), p.psdus = psdus →
      fem.tryAdd call availableTime p = some (false, s) →
        s.psdus.info = p.psdus.info ∧ s.txDuration = p.txDuration ∧
          s.protection = p.protection ∧ s.acknowledgment = p.acknowledgment
  first : ∀ mpdu, call = .mpdu mpdu →
    psdus'.lastAddedIsFirstMpdu call.receiver = some (psdus.info call.receiver).isNone
  limited : ∀ mpdu, call = .mpdu mpdu → (psdus.info call.receiver).isSome →
    ∀ (fem : HtFrameExchangeManager P A) (availableTime : Option Time)
      (p s : WifiTxParameters P A), p.psdus = psdus →
        fem.tryAddMpdu mpdu availableTime p = some (true, s) →
          ∃ tid, HtFrameExchangeManager.limitTid s.psdus mpdu = some tid ∧
            fem.isWithinAmpduSizeLimit (s.psdus.getSize s.modulationClass call.receiver)
              call.receiver tid s.modulationClass = true

/-- What the receiver of an MPDU has is not a single frame without payload, and if the MPDU is a QoS
data frame, its TID has an entry. -/
def Addition.Undoable (call : Addition) (psdus : Psdus) : Prop :=
  ∀ mpdu, call = .mpdu mpdu → ∀ info, psdus.info call.receiver = some info →
    ¬(info.amsduSize = 0 ∧ info.ampduSize = 0) ∧
      (mpdu.header.isQosData = true → (info.seqNumbers mpdu.header.qosTid).isSome)

variable {P A : Type} {call : Addition} {psdus psdus' : Psdus}

/-- Undoing an addition restores the PSDUs if it is undoable. -/
theorem Addition.Undoable.undo (h : call.Undoable psdus) (hadd : call.apply psdus = some psdus')
    (hnew : call.IsNew psdus) : ∃ u, psdus'.undoAddMpdu = some u ∧ u.info = psdus.info := by
  cases call with
  | msdu msdu => exact Psdus.undo_of_aggregateMsdu hadd
  | mpdu mpdu =>
    cases hinfo : psdus.info mpdu.header.addr1 with
    | none => exact Psdus.undo_of_none hinfo hadd
    | some info =>
      obtain ⟨hsize, htid⟩ := h mpdu rfl info hinfo
      obtain ⟨-, rfl⟩ := Psdus.addMpdu_of_some hinfo hadd
      have hrecorded : mpdu.header.isQosData = true → ∀ set,
          info.seqNumbers mpdu.header.qosTid = some set → mpdu.header.sequenceNumber ∉ set :=
        fun hqos set hset => hnew hqos info hinfo set hset
      have hseq :=
        SeqNumbers.restore_record info.header info.amsduSize info.ampduSize hrecorded htid
      obtain ⟨u, hu, huinfo⟩ := Psdus.undo_of_some psdus mpdu.header.addr1
        ⟨mpdu.header, mpdu.getPacketSize,
          MpduAggregator.getSizeIfAggregated info.mpduSize info.ampduSize,
          info.seqNumbers.record mpdu.header⟩ _ hsize hseq
      refine ⟨u, hu, huinfo.trans ?_⟩
      rw [Function.update_eq_self_iff, hinfo]

/-- Undoing an addition does not restore the PSDUs if it is not undoable. -/
theorem Addition.undoable_of_undo (hadd : call.apply psdus = some psdus') {u : Psdus}
    (hu : psdus'.undoAddMpdu = some u) (hundone : u.info = psdus.info) : call.Undoable psdus := by
  rintro mpdu rfl info hinfo
  change psdus.info mpdu.header.addr1 = some info at hinfo
  have hrestored : u.info mpdu.header.addr1 = some info := hundone ▸ hinfo
  obtain ⟨-, rfl⟩ := Psdus.addMpdu_of_some hinfo hadd
  have hsize : ¬(info.amsduSize = 0 ∧ info.ampduSize = 0) := by
    rintro ⟨hamsdu, hampdu⟩
    -- the entry is erased
    rw [Psdus.undoAddMpdu, Option.bind_some,
      if_pos (by simp [UndoInfo.isFirst, hamsdu, hampdu])] at hu
    obtain rfl := Option.some.inj hu
    dsimp only at hrestored
    rw [Function.update_self] at hrestored
    cases hrestored
  refine ⟨hsize, fun hqos => Option.isSome_iff_ne_none.2 fun hnone => ?_⟩
  -- an empty set stays
  obtain ⟨u', hu', hinfo'⟩ := Psdus.undo_of_some psdus mpdu.header.addr1
    ⟨mpdu.header, mpdu.getPacketSize,
      MpduAggregator.getSizeIfAggregated info.mpduSize info.ampduSize,
      info.seqNumbers.record mpdu.header⟩ _ hsize
    (SeqNumbers.restore_record_of_none info.header info.amsduSize info.ampduSize hqos hnone)
  obtain rfl := Option.some.inj (hu.symm.trans hu')
  rw [hinfo', Function.update_self] at hrestored
  have hseq := congrArg PsduInfo.seqNumbers (Option.some.inj hrestored)
  have htid := congrFun hseq mpdu.header.qosTid
  dsimp only at htid
  rw [Function.update_self, hnone] at htid
  cases htid

/-- The last MPDU is taken for the first one of the receiver exactly if it is. -/
theorem lastAdded_of_undoable {mpdu : WifiMpdu} (h : (Addition.mpdu mpdu).Undoable psdus)
    (hadd : psdus.addMpdu mpdu = some psdus') :
    psdus'.lastAddedIsFirstMpdu mpdu.header.addr1 =
      some (psdus.info mpdu.header.addr1).isNone := by
  cases hinfo : psdus.info mpdu.header.addr1 with
  | none => exact Psdus.lastAdded_of_none hinfo hadd
  | some info =>
    rw [Psdus.lastAdded_of_some hinfo hadd]
    have hsize := (h mpdu rfl info hinfo).1
    simpa using hsize

/-- A frame that is refused leaves the parameters as they were, and the limit on A-MPDU sizes is
checked for all but the first MPDU of a receiver, exactly if the addition is undoable. -/
theorem restored_iff (hadd : call.apply psdus = some psdus') (hnew : call.IsNew psdus) :
    Restored P A call psdus psdus' ↔ call.Undoable psdus := by
  constructor
  · intro h
    obtain ⟨u, hu, hinfo⟩ := h.undo
    exact Addition.undoable_of_undo hadd hu hinfo
  · intro h
    obtain ⟨u, hu, hinfo⟩ := h.undo hadd hnew
    refine ⟨⟨u, hu, hinfo⟩, ?_, ?_, ?_⟩
    · rintro fem availableTime p s rfl htry
      obtain ⟨hs, hmethods⟩ := HtFrameExchangeManager.tryAdd_false hadd htry
      obtain rfl := Option.some.inj (hu.symm.trans hs)
      exact ⟨hinfo, hmethods⟩
    · rintro mpdu rfl
      exact lastAdded_of_undoable h hadd
    · rintro mpdu rfl hsome fem availableTime p s rfl htry
      have hlast := lastAdded_of_undoable h hadd
      change (p.psdus.info mpdu.header.addr1).isSome = true at hsome
      rw [Option.isNone_eq_false_iff.2 hsome] at hlast
      exact HtFrameExchangeManager.tryAddMpdu_true hadd hlast htry

/-- A QoS Null frame, or a QoS data frame with a payload of one byte, to one receiver. -/
def exampleMpdu (tid : Fin 16) (sequenceNumber : UInt16) (data : Bool) : WifiMpdu where
  header :=
    { frameType := if data then .qosData else .qosDataNull
      addr1 := .station 1
      qosTid := tid
      sequenceNumber }
  packet := if data then [0] else []
  msduList := []
  msduList_ne_nil h := absurd h (by simp [MacHeader.isQosAmsdu])
  amsduPresent h := absurd rfl h

/-- The PSDUs after calls on empty parameters. -/
def Reached (psdus : Psdus) : Prop :=
  ∃ calls : List Addition, calls.foldlM (fun s call => call.apply s) {} = some psdus

/-- The PSDUs after a first MPDU. -/
def examplePsdus (data : Bool) : Psdus :=
  ((Addition.mpdu (exampleMpdu 0 0 data)).apply {}).getD {}

theorem reached_examplePsdus (data : Bool) : Reached (examplePsdus data) :=
  ⟨[.mpdu (exampleMpdu 0 0 data)], by cases data <;> rfl⟩

theorem restored_iff_data : ∃ psdus', Reached (examplePsdus true) ∧
    (Addition.mpdu (exampleMpdu 0 1 true)).apply (examplePsdus true) = some psdus' ∧
      Restored Unit Unit (.mpdu (exampleMpdu 0 1 true)) (examplePsdus true) psdus' := by
  refine ⟨_, reached_examplePsdus true, rfl, (restored_iff rfl ?_).2 ?_⟩
  · intro _ info hinfo set hset
    obtain rfl := Option.some.inj hinfo
    obtain rfl := Option.some.inj hset
    decide
  · rintro mpdu hmpdu info hinfo
    obtain rfl := Addition.mpdu.inj hmpdu
    obtain rfl := Option.some.inj hinfo
    exact ⟨by decide, fun _ => rfl⟩

/-- Two QoS Null frames of different TIDs : if the second is refused, the first is gone as well. -/
theorem not_restored_qosNull : ¬∀ psdus, Reached psdus → ∀ call psdus',
    Addition.apply call psdus = some psdus' → call.IsNew psdus →
      Restored Unit Unit call psdus psdus' := by
  intro h
  have hrestored := h _ (reached_examplePsdus false) (.mpdu (exampleMpdu 1 0 false)) _ rfl
    (fun _ info hinfo set hset => by
      obtain rfl := Option.some.inj hinfo
      cases hset)
  obtain ⟨u, hu, hinfo⟩ := hrestored.undo
  obtain rfl := Option.some.inj hu
  cases congrFun hinfo (.station 1)

/-! ## Runs -/

/-- Frames are accepted, or refused where that can be undone. -/
inductive Trace : Psdus → List (Addition × Bool) → Psdus → Prop
  | nil {s : Psdus} : Trace s [] s
  | accepted {s t u : Psdus} {call : Addition} {events : List (Addition × Bool)} :
      call.apply s = some t → Trace t events u → Trace s ((call, true) :: events) u
  | refused {s t u v : Psdus} {call : Addition} {events : List (Addition × Bool)} :
      call.apply s = some t → call.IsNew s → call.Undoable s → t.undoAddMpdu = some u →
        Trace u events v → Trace s ((call, false) :: events) v

/-- A call does not depend on what would undo the last one. -/
theorem Addition.apply_congr (h : psdus'.info = psdus.info) :
    call.apply psdus' = call.apply psdus := by
  cases call with
  | mpdu mpdu => rw [apply, apply, Psdus.addMpdu, Psdus.addMpdu, h]
  | msdu msdu =>
    rw [apply, apply, Psdus.aggregateMsdu, Psdus.aggregateMsdu, Psdus.getSizeIfAggregateMsdu,
      Psdus.getSizeIfAggregateMsdu, h]

/-- Frames that are refused leave no trace : the PSDUs are those after the accepted frames alone. -/
theorem Trace.info_eq {events : List (Addition × Bool)} (h : Trace psdus events psdus') :
    ∀ {s : Psdus}, s.info = psdus.info →
      ∃ t, ((events.filter Prod.snd).map Prod.fst).foldlM (fun s call => Addition.apply call s) s =
          some t ∧
        t.info = psdus'.info := by
  induction h with
  | nil => exact fun hs => ⟨_, rfl, hs⟩
  | accepted happly _ ih =>
    intro s hs
    obtain ⟨t, ht, hinfo⟩ := ih rfl
    refine ⟨t, ?_, hinfo⟩
    change (Addition.apply _ s).bind _ = some t
    rw [Addition.apply_congr hs, happly]
    exact ht
  | refused happly hnew hundoable hundo _ ih =>
    intro s hs
    obtain ⟨u, hu, hinfo⟩ := hundoable.undo happly hnew
    obtain rfl := Option.some.inj (hundo.symm.trans hu)
    exact ih (hs.trans hinfo.symm)

end Aggregation

end Ns3Pedca
