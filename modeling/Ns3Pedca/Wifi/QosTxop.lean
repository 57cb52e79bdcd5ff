import Ns3Pedca.Wifi.Txop

/-!
# EDCA functions and the calls that reach their links

The methods of `QosTxop` that act on a link, P-EDCA included. P-EDCA is the voice access
category's way out of repeated failures : after `QsrcThreshold` of them the EDCAF sends a
CTS-to-self with no backoff and then contends for the data frame, at most `PsrcThreshold`
times, after which it returns to plain EDCA.

`TxopCall` lists what the frame exchange manager, the channel access manager and the MAC do
to one link of a `Txop`, each with the environment (`LinkEnv`) it happens in, and
`TxopCall.exec` is its effect. The two blocks that `TransmissionSucceeded` and
`TransmissionFailed` of `QosFrameExchangeManager` open with are the calls `pedcaSucceeded`
and `pedcaFailed`. `startPedcaCts` is the consumption of the pending CTS-to-self by
`StartTransmission`, together with what `SendPedcaCtsAndRecontend` then does to the link.

`generateBackoff_outcome` says everything `QosTxop::GenerateBackoff` can do to a link, one
constructor of `BackoffOutcome` for each branch. The proofs about P-EDCA case on it.
-/

namespace Ns3Pedca

/-- Class and attributes of a `Txop`. -/
structure TxopAttrs where
  isQosTxop : Bool := true
  ac : AcIndex := .vo
  enableUhrPedca : Bool := true
  distributePedcaAcrossLinks : Bool := false
  preferredPedcaLinkId : UInt8 := 0
  randomTxopLimitEnabled : Bool := false
  randomTxopLimitMin : Time := microSeconds 1500
  randomTxopLimitMax : Time := microSeconds 5000

/-- Attributes `QsrcThreshold` and `PsrcThreshold` of a `QosTxop`. -/
structure PedcaThresholds where
  qsrcThreshold : UInt32 := 2
  psrcThreshold : UInt32 := 2

/-- What a method of a `Txop` finds around it : the object's attributes, the MAC, the PHY of
the link (`none` if no PHY operates on it), the clock, the random stream, whether the queue
is empty once expired MPDUs are removed, and `GetGenerateBackoffOnNoTx`. -/
structure LinkEnv where
  attrs : TxopAttrs := {}
  mac : MacConfig := {}
  phyStandard : Option WifiStandard := none
  now : Time := 0
  rng : UniformRandomVariable := UniformRandomVariable.lowest
  queueEmpty : Bool := true
  generateBackoffOnNoTx : Bool := false

/-- A link of a `QosTxop` on which nothing has happened yet. -/
def QosLinkEntity.fresh (base : LinkEntity) : QosLinkEntity :=
  { base with }

namespace QosTxop

/-! ## P-EDCA counters and flags -/

section Counters

variable (t : PedcaThresholds) (link : QosLinkEntity)

/-- `QosTxop::RecordPedcaEligibilityCheck`. -/
def recordPedcaEligibilityCheck (triggerCount : UInt32) : QosLinkEntity :=
  { link with
    pedcaEligibilityChecks := link.pedcaEligibilityChecks + 1
    pedcaMaxTriggerCount := max link.pedcaMaxTriggerCount triggerCount }

/-- `QosTxop::RecordPedcaReset`. -/
def recordPedcaReset : QosLinkEntity :=
  { link with pedcaResets := link.pedcaResets + 1 }

/-- `QosTxop::RecordPedcaSuccess`. -/
def recordPedcaSuccess : QosLinkEntity :=
  { link with pedcaSuccesses := link.pedcaSuccesses + 1 }

/-- `QosTxop::RecordPedcaFailure`. -/
def recordPedcaFailure : QosLinkEntity :=
  { link with pedcaFailures := link.pedcaFailures + 1 }

/-- `QosTxop::IncrementPedcaTriggerCount`. -/
def incrementPedcaTriggerCount : QosLinkEntity :=
  let link := { link with
    pedcaTriggerCount := link.pedcaTriggerCount + 1
    pedcaMaxTriggerCount := max link.pedcaMaxTriggerCount (link.pedcaTriggerCount + 1) }
  if t.qsrcThreshold ≤ link.pedcaTriggerCount && !link.pedcaMode then
    { link with pedcaMode := true, pedcaSelections := link.pedcaSelections + 1 }
  else link

/-- `QosTxop::ResetPedcaCounters`. -/
def resetPedcaCounters : QosLinkEntity :=
  { link with
    staRetryCount := 0
    psrc := 0
    pedcaTriggerCount := 0
    pedcaCtsPending := false
    pedcaMode := false
    pedcaAfterCts := false }

/-- `QosTxop::SetPedcaAfterCts`. -/
def setPedcaAfterCts (enabled : Bool) : QosLinkEntity :=
  { link with pedcaAfterCts := enabled }

/-- `QosTxop::IncrementPsrcCount`. -/
def incrementPsrcCount : QosLinkEntity :=
  { link with psrc := link.psrc + 1 }

end Counters

/-! ## Backoff -/

section Backoff

variable (t : PedcaThresholds) (v : LinkEnv) (link : QosLinkEntity)

/-- `isUhrVo` of `QosTxop::GenerateBackoff` : whether the EDCAF is eligible for P-EDCA. -/
def isUhrVo : Bool :=
  v.attrs.enableUhrPedca && v.attrs.ac == .vo && v.phyStandard == some .s80211uhr

/-- P-EDCA is distributed across the links and this link is not the designated one. -/
def pedcaOnOtherLink : Bool :=
  v.attrs.distributePedcaAcrossLinks && v.mac.typeOfStation == .sta && v.mac.nLinks > 1 &&
    v.mac.linkId != v.attrs.preferredPedcaLinkId % v.mac.nLinks

/-- `QosTxop::GenerateUhrVoBackoff` : the CTS-to-self is sent with no backoff. -/
def generateUhrVoBackoff : QosLinkEntity :=
  Txop.startBackoffNow v.now 0
    { link with pedcaCtsPending := true, pedcaCtsAttempts := link.pedcaCtsAttempts + 1 }

/-- `QosTxop::GenerateBackoff`. -/
def generateBackoff : QosLinkEntity :=
  if isUhrVo v then
    if pedcaOnOtherLink v then
      Txop.generateBackoff v.rng v.now
        { link with pedcaMode := false, pedcaAfterCts := false, pedcaCtsPending := false }
    else
      let triggerCount := link.pedcaTriggerCount
      let psrc := link.psrc
      let link := recordPedcaEligibilityCheck link triggerCount
      if t.qsrcThreshold ≤ triggerCount || link.pedcaMode then
        if psrc == t.psrcThreshold then
          Txop.generateBackoff v.rng v.now (resetPedcaCounters (recordPedcaReset link))
        else
          let link := { link with pedcaMode := true }
          if link.pedcaAfterCts then Txop.generateBackoff v.rng v.now link
          else generateUhrVoBackoff v link
      else
        Txop.generateBackoff v.rng v.now { link with pedcaMode := false, pedcaAfterCts := false }
  else Txop.generateBackoff v.rng v.now link

/-- The virtual `GenerateBackoff` of a `Txop`. -/
def generateBackoffOf : QosLinkEntity :=
  if v.attrs.isQosTxop then generateBackoff t v link
  else Txop.generateBackoff v.rng v.now link

/-- `Txop::NotifyChannelReleased`, with the virtual `GenerateBackoff`. -/
def txopNotifyChannelReleased : QosLinkEntity :=
  generateBackoffOf t v { link with access := .notRequested }

/-- Whether `QosTxop::NotifyChannelReleased` generates a backoff : some frame was
transmitted, or the queue is not empty and a backoff is wanted even so. -/
def backoffOnRelease : Bool :=
  link.startTxop.any (· < v.now) || !v.queueEmpty && v.generateBackoffOnNoTx

/-- `QosTxop::NotifyChannelReleased`. -/
def notifyChannelReleased : QosLinkEntity :=
  let link := if backoffOnRelease v link then generateBackoff t v link else link
  { link with startTxop := none, access := .notRequested }

/-- The virtual `NotifyChannelReleased` of a `Txop`. -/
def notifyChannelReleasedOf : QosLinkEntity :=
  if v.attrs.isQosTxop then notifyChannelReleased t v link
  else txopNotifyChannelReleased t v link

/-- `QosTxop::NotifyChannelAccessed`, or that of `Txop` for a plain one. -/
def notifyChannelAccessedOf (txopDuration : Time) : QosLinkEntity :=
  if v.attrs.isQosTxop then
    Txop.notifyChannelAccessed { link with startTxop := some v.now, txopDuration := txopDuration }
  else Txop.notifyChannelAccessed link

end Backoff

/-- `QosTxop::GetRemainingTxop`. The source asserts that the TXOP start time is set. -/
def getRemainingTxop (now : Time) (link : QosLinkEntity) : Time :=
  match link.startTxop with
  | some startTxop => max 0 (link.txopDuration - (now - startTxop))
  | none => 0

/-- Conversion of a signed 64-bit value to `uint64_t`. -/
def toUint64 (x : ℤ) : ℕ :=
  (x % 2 ^ 64).toNat

/-- `minTicks` and `maxTicks` of `QosTxop::UpdateRandomTxopLimit`, in units of 32
microseconds. -/
def randomTxopLimitTicks (attrs : TxopAttrs) : ℕ × ℕ :=
  let a := attrs.randomTxopLimitMin.tdiv 1000
  let b := attrs.randomTxopLimitMax.tdiv 1000
  let minUs := if b < a then b else a
  let maxUs := if b < a then a else b
  let minTicks := max 1 (toUint64 ((minUs + 31).tdiv 32))
  (minTicks, max minTicks (toUint64 (maxUs.tdiv 32)))

/-- `QosTxop::UpdateRandomTxopLimit` : a multiple of 32 microseconds. -/
def updateRandomTxopLimit (v : LinkEnv) (link : QosLinkEntity) : QosLinkEntity :=
  if v.attrs.randomTxopLimitEnabled then
    let ticks := randomTxopLimitTicks v.attrs
    { link with txopLimit := microSeconds (v.rng.getInteger ticks.1 ticks.2 * 32) }
  else link

end QosTxop

/-! ## Calls -/

/-- A call that reaches one link of a `Txop`. -/
inductive TxopCall
  /-- `Txop::ResetCw`. -/
  | resetCw
  /-- `Txop::UpdateFailedCw`. -/
  | updateFailedCw
  /-- The virtual `GenerateBackoff`. -/
  | generateBackoff
  /-- `Txop::NotifyChannelReleased`, also of a `QosTxop`. -/
  | txopNotifyChannelReleased
  /-- The virtual `NotifyChannelReleased`. -/
  | notifyChannelReleased
  /-- The virtual `NotifyChannelAccessed`. -/
  | notifyChannelAccessed (txopDuration : Time)
  /-- `Txop::NotifyAccessRequested`. -/
  | notifyAccessRequested
  /-- `QosTxop::UpdateRandomTxopLimit`. -/
  | updateRandomTxopLimit
  /-- `Txop::UpdateBackoffSlotsNow`. -/
  | updateBackoffSlotsNow (nSlots : UInt32) (backoffUpdateBound : Time)
  /-- `Txop::StartBackoffNow`. -/
  | startBackoffNow (nSlots : UInt32)
  /-- `ChannelAccessManager::ResetBackoff`. -/
  | resetBackoff
  /-- `ConsumePedcaCtsPending`, and if a CTS-to-self was pending the calls of
  `SendPedcaCtsAndRecontend`. -/
  | startPedcaCts
  /-- The P-EDCA block of `QosFrameExchangeManager::TransmissionSucceeded`. -/
  | pedcaSucceeded
  /-- The P-EDCA block of `QosFrameExchangeManager::TransmissionFailed`. -/
  | pedcaFailed
  deriving DecidableEq

namespace QosTxop

/-- What `SendPedcaCtsAndRecontend` does to the link of its EDCAF. -/
def sendPedcaCts (v : LinkEnv) (link : QosLinkEntity) : QosLinkEntity :=
  setPedcaAfterCts (incrementPsrcCount (notifyChannelAccessedOf v link 0)) true

/-- `ConsumePedcaCtsPending` followed by `SendPedcaCtsAndRecontend` if it returns true. -/
def startPedcaCts (v : LinkEnv) (link : QosLinkEntity) : QosLinkEntity :=
  let pending := link.pedcaCtsPending
  let link := { link with pedcaCtsPending := false }
  if pending then sendPedcaCts v link else link

/-- The P-EDCA block of `TransmissionSucceeded`. -/
def pedcaSucceeded (link : QosLinkEntity) : QosLinkEntity :=
  if link.pedcaMode then resetPedcaCounters (recordPedcaSuccess link) else link

/-- The P-EDCA block of `TransmissionFailed`. -/
def pedcaFailed (t : PedcaThresholds) (link : QosLinkEntity) : QosLinkEntity :=
  if link.pedcaMode then recordPedcaFailure (setPedcaAfterCts link false)
  else incrementPedcaTriggerCount t link

end QosTxop

/-- The effect of a call on the link. -/
def TxopCall.exec (t : PedcaThresholds) (link : QosLinkEntity) (i : LinkEnv × TxopCall) :
    QosLinkEntity :=
  match i.2 with
  | resetCw => Txop.resetCw i.1.now link
  | updateFailedCw => Txop.updateFailedCw i.1.mac i.1.now link
  | generateBackoff => QosTxop.generateBackoffOf t i.1 link
  | txopNotifyChannelReleased => QosTxop.txopNotifyChannelReleased t i.1 link
  | notifyChannelReleased => QosTxop.notifyChannelReleasedOf t i.1 link
  | notifyChannelAccessed txopDuration => QosTxop.notifyChannelAccessedOf i.1 link txopDuration
  | notifyAccessRequested => Txop.notifyAccessRequested link
  | updateRandomTxopLimit => QosTxop.updateRandomTxopLimit i.1 link
  | updateBackoffSlotsNow nSlots bound => Txop.updateBackoffSlotsNow nSlots bound link
  | startBackoffNow nSlots => Txop.startBackoffNow i.1.now nSlots link
  | resetBackoff => Txop.resetBackoff i.1.now link
  | startPedcaCts => QosTxop.startPedcaCts i.1 link
  | pedcaSucceeded => QosTxop.pedcaSucceeded link
  | pedcaFailed => QosTxop.pedcaFailed t link

/-! ## What a backoff generation can do -/

/-- The results of `QosTxop::GenerateBackoff` on a link, by branch. -/
inductive BackoffOutcome (t : PedcaThresholds) (v : LinkEnv) (link : QosLinkEntity) :
    QosLinkEntity → Prop
  | ineligible (h : QosTxop.isUhrVo v = false) :
      BackoffOutcome t v link (Txop.generateBackoff v.rng v.now link)
  | otherLink (h : QosTxop.isUhrVo v = true) (ho : QosTxop.pedcaOnOtherLink v = true) :
      BackoffOutcome t v link (Txop.generateBackoff v.rng v.now
        { link with pedcaMode := false, pedcaAfterCts := false, pedcaCtsPending := false })
  | budgetSpent (h : QosTxop.isUhrVo v = true) (ho : QosTxop.pedcaOnOtherLink v = false)
      (hdue : t.qsrcThreshold ≤ link.pedcaTriggerCount ∨ link.pedcaMode = true)
      (hpsrc : link.psrc = t.psrcThreshold) :
      BackoffOutcome t v link (Txop.generateBackoff v.rng v.now (QosTxop.resetPedcaCounters
        (QosTxop.recordPedcaReset
          (QosTxop.recordPedcaEligibilityCheck link link.pedcaTriggerCount))))
  | afterCts (h : QosTxop.isUhrVo v = true) (ho : QosTxop.pedcaOnOtherLink v = false)
      (hdue : t.qsrcThreshold ≤ link.pedcaTriggerCount ∨ link.pedcaMode = true)
      (hpsrc : link.psrc ≠ t.psrcThreshold) (hafter : link.pedcaAfterCts = true) :
      BackoffOutcome t v link (Txop.generateBackoff v.rng v.now
        { QosTxop.recordPedcaEligibilityCheck link link.pedcaTriggerCount with pedcaMode := true })
  | sendCts (h : QosTxop.isUhrVo v = true) (ho : QosTxop.pedcaOnOtherLink v = false)
      (hdue : t.qsrcThreshold ≤ link.pedcaTriggerCount ∨ link.pedcaMode = true)
      (hpsrc : link.psrc ≠ t.psrcThreshold) (hafter : link.pedcaAfterCts = false) :
      BackoffOutcome t v link (QosTxop.generateUhrVoBackoff v
        { QosTxop.recordPedcaEligibilityCheck link link.pedcaTriggerCount with pedcaMode := true })
  | notDue (h : QosTxop.isUhrVo v = true) (ho : QosTxop.pedcaOnOtherLink v = false)
      (htrig : ¬t.qsrcThreshold ≤ link.pedcaTriggerCount) (hmode : link.pedcaMode = false) :
      BackoffOutcome t v link (Txop.generateBackoff v.rng v.now
        { QosTxop.recordPedcaEligibilityCheck link link.pedcaTriggerCount with
          pedcaMode := false, pedcaAfterCts := false })

theorem generateBackoff_outcome (t : PedcaThresholds) (v : LinkEnv) (link : QosLinkEntity) :
    BackoffOutcome t v link (QosTxop.generateBackoff t v link) := by
  simp only [QosTxop.generateBackoff, QosTxop.recordPedcaEligibilityCheck, Bool.or_eq_true,
    decide_eq_true_eq, beq_iff_eq]
  split
  next h =>
    split
    next ho => exact .otherLink h ho
    next ho =>
      replace ho := Bool.eq_false_iff.2 ho
      split
      next hdue =>
        split
        next hpsrc => exact .budgetSpent h ho hdue hpsrc
        next hpsrc =>
          by_cases hafter : link.pedcaAfterCts = true
          · convert BackoffOutcome.afterCts h ho hdue hpsrc hafter using 1
            exact if_pos hafter
          · convert BackoffOutcome.sendCts h ho hdue hpsrc (Bool.eq_false_iff.2 hafter) using 1
            exact if_neg hafter
      next hdue =>
        rw [not_or, Bool.not_eq_true] at hdue
        exact .notDue h ho hdue.1 hdue.2
  next h => exact .ineligible (Bool.eq_false_iff.2 h)

/-- The virtual `GenerateBackoff` of any `Txop` : the draw of a plain one is that of an
EDCAF that is not eligible. -/
theorem generateBackoffOf_outcome (t : PedcaThresholds) (v : LinkEnv) (link : QosLinkEntity) :
    BackoffOutcome t v link (QosTxop.generateBackoffOf t v link) ∨
      v.attrs.isQosTxop = false ∧
        QosTxop.generateBackoffOf t v link = Txop.generateBackoff v.rng v.now link := by
  unfold QosTxop.generateBackoffOf
  split_ifs with h
  · exact Or.inl (generateBackoff_outcome t v link)
  · exact Or.inr ⟨by simpa using h, rfl⟩

end Ns3Pedca
