import Ns3Pedca.Core

/-!
# The per-link state of a channel access function

`Txop` keeps one `LinkEntity` per link, `QosTxop` one `QosLinkEntity` with the fields of
EDCA, of the MU EDCA timer and of P-EDCA on top. The methods below work on the entity of
one link. `Txop::ResetCw` and `Txop::UpdateFailedCw` read the contention window bounds
through the virtual `GetMinCw` and `GetMaxCw`, so the methods of both classes are defined
on `QosLinkEntity` : a plain `Txop` leaves the fields of `QosTxop` at their defaults, where
the overrides agree with the base class. Trace sources and log files are left out.

`1 << staRetryCount` in `UpdateFailedCw` shifts an `int` : from 32 on C++ leaves the result
undefined, and `MacConfig.shiftOverflow` stands for whatever it is.
-/

namespace Ns3Pedca

/-- Access categories (`AcIndex`). -/
inductive AcIndex
  | be | bk | vi | vo | beNqos | beacon | undef
  deriving DecidableEq, Repr

/-- PHY standards (`WifiStandard`). -/
inductive WifiStandard
  | unspecified | s80211a | s80211b | s80211g | s80211p | s80211n | s80211ac | s80211ad
  | s80211ax | s80211be | s80211uhr
  deriving DecidableEq, Repr

/-- Types of station (`TypeOfStation`). -/
inductive TypeOfStation
  | sta | ap | adhocSta | mesh | ocb
  deriving DecidableEq, Repr

/-- Channel access status of a `Txop` on a link. -/
inductive ChannelAccessStatus
  | notRequested | requested | granted
  deriving DecidableEq, Repr

/-- `Txop::LinkEntity`. -/
structure LinkEntity where
  backoffSlots : UInt32 := 0
  backoffStart : Time := 0
  cw : UInt32 := 0
  cwMin : UInt32 := 0
  cwMax : UInt32 := 0
  aifsn : UInt8 := 0
  txopLimit : Time := 0
  staRetryCount : ℕ := 0
  access : ChannelAccessStatus := .notRequested

/-- `QosTxop::QosLinkEntity`, without `pedcaResetOnNextTxop`, which no method acts on. -/
structure QosLinkEntity extends LinkEntity where
  startTxop : Option Time := none
  txopDuration : Time := 0
  psrc : UInt32 := 0
  pedcaTriggerCount : UInt32 := 0
  pedcaCtsPending : Bool := false
  pedcaMode : Bool := false
  pedcaAfterCts : Bool := false
  pedcaSelections : UInt32 := 0
  pedcaCtsAttempts : UInt32 := 0
  pedcaSuccesses : UInt32 := 0
  pedcaFailures : UInt32 := 0
  pedcaResets : UInt32 := 0
  pedcaEligibilityChecks : UInt32 := 0
  pedcaMaxTriggerCount : UInt32 := 0
  muCwMin : UInt32 := 0
  muCwMax : UInt32 := 0
  muAifsn : UInt8 := 0
  muEdcaTimer : Time := 0
  muEdcaTimerStartTime : Time := 0

/-- What the methods of a `Txop` ask `WifiMac` on a link. -/
structure MacConfig where
  frameRetryLimit : UInt32 := 7
  typeOfStation : TypeOfStation := .sta
  nLinks : UInt8 := 1
  linkId : UInt8 := 0
  /-- The value of `1 << n` for `n ≥ 32`, which C++ leaves undefined. -/
  shiftOverflow : ℕ → UInt32 := fun _ => 0

/-- `1 << n` on an `int`, read as the `uint32_t` it is multiplied with. -/
def MacConfig.shiftOne (mac : MacConfig) (n : ℕ) : UInt32 :=
  if n < 32 then UInt32.ofNat (2 ^ n) else mac.shiftOverflow n

namespace QosTxop

variable (now : Time) (link : QosLinkEntity)

/-- `QosTxop::MuEdcaTimerRunning`. -/
def muEdcaTimerRunning : Bool :=
  0 < link.muEdcaTimerStartTime && 0 < link.muEdcaTimer &&
    now < link.muEdcaTimerStartTime + link.muEdcaTimer

/-- `QosTxop::EdcaDisabled`. -/
def edcaDisabled : Bool :=
  muEdcaTimerRunning now link && link.muAifsn == 0

/-- `QosTxop::GetMinCw`, less its assertion that EDCA is not disabled. -/
def getMinCw : UInt32 :=
  if muEdcaTimerRunning now link then link.muCwMin else link.cwMin

/-- `QosTxop::GetMaxCw`, less its assertion that EDCA is not disabled. -/
def getMaxCw : UInt32 :=
  if muEdcaTimerRunning now link then link.muCwMax else link.cwMax

/-- `QosTxop::GetEdcaAifsn`. -/
def getEdcaAifsn : UInt8 :=
  if muEdcaTimerRunning now link then link.muAifsn else link.aifsn

/-- `QosTxop::PEDCA_DSAIFS_REDUCTION`. -/
def pedcaDsaifsReduction : UInt8 := 1

/-- `QosTxop::GetAifsn` : one less than the EDCA value while a P-EDCA CTS-to-self is to be
sent. -/
def getAifsn : UInt8 :=
  let edcaAifsn := getEdcaAifsn now link
  if link.pedcaCtsPending && !link.pedcaAfterCts && edcaAifsn > pedcaDsaifsReduction then
    edcaAifsn - pedcaDsaifsReduction
  else edcaAifsn

end QosTxop

namespace Txop

/-- `Txop::ResetCw`. -/
def resetCw (now : Time) (link : QosLinkEntity) : QosLinkEntity :=
  { link with cw := QosTxop.getMinCw now link, staRetryCount := 0 }

/-- `Txop::UpdateFailedCw`. -/
def updateFailedCw (mac : MacConfig) (now : Time) (link : QosLinkEntity) : QosLinkEntity :=
  if link.staRetryCount < mac.frameRetryLimit.toNat then
    { link with
      staRetryCount := link.staRetryCount + 1
      cw := min (QosTxop.getMaxCw now link)
        (mac.shiftOne (link.staRetryCount + 1) * (QosTxop.getMinCw now link + 1) - 1) }
  else
    { link with staRetryCount := 0, cw := QosTxop.getMinCw now link }

/-- `Txop::UpdateBackoffSlotsNow`. -/
def updateBackoffSlotsNow (nSlots : UInt32) (backoffUpdateBound : Time) (link : QosLinkEntity) :
    QosLinkEntity :=
  { link with backoffSlots := link.backoffSlots - nSlots, backoffStart := backoffUpdateBound }

/-- `Txop::StartBackoffNow`. -/
def startBackoffNow (now : Time) (nSlots : UInt32) (link : QosLinkEntity) : QosLinkEntity :=
  { link with backoffSlots := nSlots, backoffStart := now }

/-- `Txop::GenerateBackoff`. -/
def generateBackoff (rng : UniformRandomVariable) (now : Time) (link : QosLinkEntity) :
    QosLinkEntity :=
  startBackoffNow now (UInt32.ofNat (rng.getInteger 0 link.cw.toNat)) link

/-- `ChannelAccessManager::ResetBackoff`. -/
def resetBackoff (now : Time) (link : QosLinkEntity) : QosLinkEntity :=
  let remainingSlots := link.backoffSlots
  let link := if 0 < remainingSlots then updateBackoffSlotsNow remainingSlots now link else link
  { resetCw now link with access := .notRequested }

/-- `Txop::NotifyAccessRequested`. -/
def notifyAccessRequested (link : QosLinkEntity) : QosLinkEntity :=
  { link with access := .requested }

/-- `Txop::NotifyChannelAccessed`. -/
def notifyChannelAccessed (link : QosLinkEntity) : QosLinkEntity :=
  { link with access := .granted }

end Txop

end Ns3Pedca
