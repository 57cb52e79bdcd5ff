import Ns3Pedca.Wifi.QosFrameExchangeManager

/-!
# The channel access manager

`ChannelAccessManager` on one link, with the `Txop`s of type `ι` it arbitrates between.
`Medium` holds what it has been notified of the medium and its PHY, of which only the
primary channel matters here : the idle periods and secondary channels that give the width
of a transmission are left out. `Station` fixes the attributes of the `Txop`s.

`getAccessGrantStart` is the end of the last busy condition plus a SIFS, from which on each
`Txop` counts its AIFS and its backoff slots down. `updateBackoff` takes the slots elapsed
off every `Txop`, `doGrantDcfAccess` offers access to the `Txop`s in priority order. What
`StartTransmission` makes of an offer is an argument (`FemStart`) : it returns whether a
frame was transmitted, and the links.

A quotient of two times is its integer part. It becomes a `uint32_t` where the source has
one, and wraps there.
-/

set_option linter.unusedSectionVars false

namespace Ns3Pedca

/-! ## The medium -/

/-- `Timespan`, from `start` to `finish`. -/
structure Timespan where
  start : Time := 0
  finish : Time := 0

/-- What the manager asks of its PHY. -/
structure WifiPhy where
  sifs : Time := microSeconds 16
  slot : Time := microSeconds 9
  slot_pos : 0 < slot := by decide
  isStateSleep : Bool := false
  isStateOff : Bool := false

/-- What the manager knows of the medium. -/
structure Medium where
  phy : Option WifiPhy := some {}
  cachedSifs : Time := 0
  cachedSlot : Time := 0
  cachedSlot_nonneg : 0 ≤ cachedSlot := by decide
  lastAckTimeoutEnd : Time := 0
  lastCtsTimeoutEnd : Time := 0
  lastNavEnd : Time := 0
  lastRx : Timespan := {}
  lastRxReceivedOk : Bool := true
  lastTxEnd : Time := 0
  /-- `m_lastBusyEnd` of the primary channel. -/
  lastBusyEnd : Time := 0
  lastSwitchingEnd : Time := 0
  lastNoPhy : Timespan := {}
  lastSleep : Timespan := {}
  lastOff : Timespan := {}
  eifsNoDifs : Time := 0

namespace Medium

variable (m : Medium) (now : Time)

/-- `GetSifs`. -/
def getSifs : Time :=
  match m.phy with
  | some phy => phy.sifs
  | none => m.cachedSifs

/-- `GetSlot`. -/
def getSlot : Time :=
  match m.phy with
  | some phy => phy.slot
  | none => m.cachedSlot

theorem getSlot_nonneg : 0 ≤ m.getSlot := by
  unfold getSlot
  split
  · exact (WifiPhy.slot_pos _).le
  · exact m.cachedSlot_nonneg

/-- There is no PHY, or it is in sleep mode or off. -/
def noPhySleepOrOff : Bool :=
  match m.phy with
  | some phy => phy.isStateSleep || phy.isStateOff
  | none => true

theorem getSlot_pos (h : m.noPhySleepOrOff = false) : 0 < m.getSlot := by
  unfold noPhySleepOrOff at h
  unfold getSlot
  split
  next phy _ => exact phy.slot_pos
  next hp => simp [hp] at h

/-- `IsBusy`. -/
def isBusy : Bool :=
  now < m.lastRx.finish || now < m.lastTxEnd || now < m.lastNavEnd || now < m.lastBusyEnd

/-- `DoGetAccessGrantStart`, without the reasons. -/
def doGetAccessGrantStart (ignoreNav : Bool := false) : List Time :=
  [m.lastBusyEnd,
    m.lastRx.finish +
      if m.lastRx.finish ≤ now ∧ m.lastRxReceivedOk = false then m.eifsNoDifs else 0,
    m.lastTxEnd,
    if ignoreNav then 0 else m.lastNavEnd,
    m.lastAckTimeoutEnd,
    m.lastCtsTimeoutEnd,
    m.lastSwitchingEnd,
    if m.phy.isSome then m.lastNoPhy.finish else now,
    if m.lastSleep.finish < m.lastSleep.start then now else m.lastSleep.finish,
    if m.lastOff.finish < m.lastOff.start then now else m.lastOff.finish]

/-- `GetAccessGrantStart`. -/
def getAccessGrantStart (ignoreNav : Bool := false) : Time :=
  (m.doGetAccessGrantStart now ignoreNav).foldl max m.lastBusyEnd + m.getSifs

theorem le_foldl_max {t : Time} {ts : List Time} :
    ∀ {a : Time}, t ≤ a ∨ t ∈ ts → t ≤ ts.foldl max a := by
  induction ts with
  | nil =>
    intro a h
    simpa using h
  | cons t' ts ih =>
    intro a h
    rw [List.foldl_cons]
    apply ih
    rcases h with h | h
    · exact .inl (h.trans (le_max_left a t'))
    · rcases List.mem_cons.1 h with rfl | h
      · exact .inl (le_max_right a t)
      · exact .inr h

end Medium

/-! ## Backoff -/

/-- Whether access was ever offered to a `Txop` whose EDCA was disabled, and whether one was
ever the loser of an internal collision. -/
structure GrantHistory where
  disabledOffered : Bool := false
  disabledCollided : Bool := false

/-- `ChannelAccessManager`. -/
structure ChannelAccessManager (ι : Type*) where
  now : Time := 0
  medium : Medium := {}
  /-- `m_txops`, by decreasing priority. -/
  txops : List ι
  txops_nodup : txops.Nodup
  links : ι → QosLinkEntity
  proactiveBackoff : Bool := false
  resetBackoffThreshold : Time := 0
  hist : GrantHistory := {}

namespace ChannelAccessManager

variable {ι : Type*} [DecidableEq ι] (st : Station ι)

section Backoff

variable (now : Time) (m : Medium) (e : ι) (link : QosLinkEntity)

/-- The virtual `GetAifsn`. -/
def getAifsn : UInt8 :=
  if (st.attrs e).isQosTxop then QosTxop.getAifsn now link else link.aifsn

/-- `GetBackoffStartFor`. -/
def getBackoffStartFor (accessGrantStart : Time) : Time :=
  max link.backoffStart (accessGrantStart + (getAifsn st now e link).toNat * m.getSlot)

/-- `GetBackoffEndFor`. -/
def getBackoffEndFor (accessGrantStart : Time) : Time :=
  getBackoffStartFor st now m e link accessGrantStart + link.backoffSlots.toNat * m.getSlot

/-- The slots `UpdateBackoff` counts from the backoff start of a `Txop` on : one more for an
EDCAF, which loses one at the end of the AIFS. -/
def nIntSlots (backoffStart : Time) : UInt32 :=
  let nIntSlots := UInt32.ofNat ((now - backoffStart) / m.getSlot).toNat
  if (st.attrs e).isQosTxop then nIntSlots + 1 else nIntSlots

/-- `UpdateBackoff` for one `Txop`. -/
def updateBackoffOf (accessGrantStart : Time) : QosLinkEntity :=
  let backoffStart := getBackoffStartFor st now m e link accessGrantStart
  if backoffStart ≤ now then
    let n := min (nIntSlots st now m e backoffStart) link.backoffSlots
    Txop.updateBackoffSlotsNow n (backoffStart + n.toNat * m.getSlot) link
  else link

end Backoff

variable (c : ChannelAccessManager ι)

/-- `UpdateBackoff`. -/
def updateBackoff : ChannelAccessManager ι :=
  let accessGrantStart := c.medium.getAccessGrantStart c.now
  { c with
    links := c.txops.foldl (fun links e => Function.update links e
      (updateBackoffOf st c.now c.medium e (links e) accessGrantStart)) c.links }

/-- A change made to the link of each `Txop` of a list, one after the other. -/
theorem foldl_update_links (f : ι → QosLinkEntity → QosLinkEntity) :
    ∀ {es : List ι} {links : ι → QosLinkEntity}, es.Nodup → ∀ e,
      es.foldl (fun links e => Function.update links e (f e (links e))) links e =
        if e ∈ es then f e (links e) else links e
  | [], _, _, _ => rfl
  | e' :: es, links, hnd, e => by
    obtain ⟨hnot, hnd'⟩ := List.nodup_cons.1 hnd
    rw [List.foldl_cons, foldl_update_links f hnd' e]
    by_cases he : e = e'
    · subst he
      simp [hnot]
    · simp [he]

theorem updateBackoff_links (e : ι) : (updateBackoff st c).links e =
    if e ∈ c.txops then
      updateBackoffOf st c.now c.medium e (c.links e) (c.medium.getAccessGrantStart c.now)
    else c.links e :=
  foldl_update_links (fun e link => updateBackoffOf st c.now c.medium e link
    (c.medium.getAccessGrantStart c.now)) c.txops_nodup e

/-! ## Requests -/

/-- What `StartTransmission` makes of an offer to a `Txop` : whether a frame was transmitted,
and the links. -/
abbrev FemStart (ι : Type*) := ι → (ι → QosLinkEntity) → Bool × (ι → QosLinkEntity)

end ChannelAccessManager

/-- What a method of the manager finds around it. -/
structure CamEnv (ι : Type*) where
  fem : FemEnv ι := {}
  hasFramesToTransmit : ι → Bool := fun _ => true
  startTransmission : ChannelAccessManager.FemStart ι := fun _ links => (false, links)

namespace ChannelAccessManager

variable {ι : Type*} [DecidableEq ι] (st : Station ι) (v : CamEnv ι) (c : ChannelAccessManager ι)

/-- A change of the link of `e`. -/
def onLink (e : ι) (f : QosLinkEntity → QosLinkEntity) : ChannelAccessManager ι :=
  { c with links := Function.update c.links e (f (c.links e)) }

@[simp] theorem onLink_links_self (e : ι) (f : QosLinkEntity → QosLinkEntity) :
    (onLink c e f).links e = f (c.links e) :=
  Function.update_self ..

theorem onLink_links_of_ne {e e' : ι} (f : QosLinkEntity → QosLinkEntity) (h : e' ≠ e) :
    (onLink c e f).links e' = c.links e' :=
  Function.update_of_ne h ..

/-- A call on the link of `e`. -/
def call (e : ι) (t : TxopCall) : ChannelAccessManager ι :=
  onLink c e fun link => TxopCall.exec (st.thresholds e) link
    (QosFrameExchangeManager.linkEnv st v.fem c.now e, t)

/-- The condition of `NeedBackoffUponAccess` : the first frames for a `Txop` whose backoff
counter is zero. -/
def firstFrames (e : ι) (hadFramesToTransmit : Bool) : Bool :=
  !hadFramesToTransmit && v.hasFramesToTransmit e && (c.links e).access != .granted &&
    (c.links e).backoffSlots == 0

/-- `NeedBackoffUponAccess`. -/
def needBackoffUponAccess (e : ι) (hadFramesToTransmit checkMediumBusy : Bool) :
    Bool × ChannelAccessManager ι :=
  if c.medium.noPhySleepOrOff then (false, c)
  else
    let c := updateBackoff st c
    if firstFrames v c e hadFramesToTransmit then
      if checkMediumBusy && !c.medium.isBusy c.now then
        let delay := if (st.attrs e).isQosTxop then 0 else
          c.medium.getSifs + (getAifsn st c.now e (c.links e)).toNat * c.medium.getSlot
        (false, onLink c e (Txop.updateBackoffSlotsNow 0 (c.now + delay)))
      else (true, c)
    else (false, c)

/-- The start of the next slot, on the grid that starts at `accessGrantStart`, at or after
`backoffStart`. -/
def nextSlotBoundary (m : Medium) (accessGrantStart backoffStart : Time) : Time :=
  let diff := backoffStart - accessGrantStart
  let nIntSlots := UInt32.ofNat ((diff / m.getSlot).toNat + if 0 < diff % m.getSlot then 1 else 0)
  accessGrantStart + nIntSlots.toNat * m.getSlot

/-- The alignment of the backoff start of an EDCAF by `RequestAccess`. -/
def alignBackoffStart (e : ι) : ChannelAccessManager ι :=
  let accessGrantStart := c.medium.getAccessGrantStart c.now +
    (getAifsn st c.now e (c.links e)).toNat * c.medium.getSlot
  if (st.attrs e).isQosTxop ∧ 0 < (c.links e).backoffStart - accessGrantStart then
    onLink c e (Txop.updateBackoffSlotsNow 0
      (nextSlotBoundary c.medium accessGrantStart (c.links e).backoffStart))
  else c

/-! ## Grants -/

/-- Access offered to a `Txop` : its link when it was selected, and whether it transmitted. -/
structure Offer (ι : Type*) where
  txop : ι
  links : ι → QosLinkEntity
  transmitted : Bool

/-- What one call of `DoGrantDcfAccess` did : the links it leaves, the `Txop`s its loop
visited, the offers it made, and the internal collisions it notified with the link each was
notified on. -/
structure Grant (ι : Type*) where
  links : ι → QosLinkEntity
  visited : List ι := []
  offers : List (Offer ι) := []
  collisions : List (ι × QosLinkEntity) := []

section Grant

variable (now : Time) (m : Medium) (accessGrantStart : Time) (links : ι → QosLinkEntity)

/-- A `Txop` that requested access and whose backoff has expired. -/
def backoffExpired (e : ι) : Bool :=
  (links e).access == .requested &&
    getBackoffEndFor st now m e (links e) accessGrantStart ≤ now

/-- The EDCA of a `QosTxop` is disabled. -/
def disabled (e : ι) (link : QosLinkEntity) : Bool :=
  (st.attrs e).isQosTxop && QosTxop.edcaDisabled now link

/-- `FrameExchangeManager::NotifyInternalCollision`, on the link of the loser. -/
def notifyInternalCollision (e : ι) (link : QosLinkEntity) : QosLinkEntity :=
  let v := QosFrameExchangeManager.linkEnv st v.fem now e
  QosTxop.txopNotifyChannelReleased (st.thresholds e) v (Txop.updateFailedCw st.mac now link)

/-- The notifications of internal collisions, one after the other. -/
def notifyCollisions : List ι → (ι → QosLinkEntity) → Grant ι
  | [], links => { links }
  | e :: es, links =>
    let g := notifyCollisions es
      (Function.update links e (notifyInternalCollision st v now e (links e)))
    { g with collisions := (e, links e) :: g.collisions }

/-- The loop of `DoGrantDcfAccess`. -/
def grantLoop : List ι → (ι → QosLinkEntity) → Grant ι
  | [], links => { links }
  | e :: es, links =>
    if backoffExpired st now m accessGrantStart links e && !disabled st now e (links e) then
      let internalCollisionTxops := es.filter (backoffExpired st now m accessGrantStart links)
      let r := v.startTransmission e links
      if r.1 then
        let g := notifyCollisions st v now internalCollisionTxops r.2
        { g with visited := [e], offers := [⟨e, links, true⟩] }
      else
        let g := grantLoop es
          (Function.update r.2 e (Txop.updateBackoffSlotsNow 0 now (r.2 e)))
        { g with visited := e :: g.visited, offers := ⟨e, links, false⟩ :: g.offers }
    else
      let g := grantLoop es links
      { g with visited := e :: g.visited }

end Grant

/-- `DoGrantDcfAccess`. -/
def doGrantDcfAccess : Grant ι :=
  let accessGrantStart := c.medium.getAccessGrantStart c.now
  if c.now < accessGrantStart then { links := c.links }
  else grantLoop st v c.now c.medium accessGrantStart c.txops c.links

/-- The manager once `DoGrantDcfAccess` returns. -/
def grantAccess : ChannelAccessManager ι :=
  let g := doGrantDcfAccess st v c
  { c with
    links := g.links
    hist := {
      disabledOffered := c.hist.disabledOffered ||
        g.offers.any fun o => disabled st c.now o.txop (o.links o.txop)
      disabledCollided := c.hist.disabledCollided ||
        g.collisions.any fun p => disabled st c.now p.1 p.2 } }

/-- `RequestAccess`. -/
def requestAccess (e : ι) : ChannelAccessManager ι :=
  if c.medium.noPhySleepOrOff then c
  else
    let c := updateBackoff st (alignBackoffStart st c e)
    grantAccess st v (call st v c e .notifyAccessRequested)

/-- `Txop::StartAccessAfterEvent`. -/
def startAccessAfterEvent (e : ι) (hadFramesToTransmit checkMediumBusy : Bool) :
    ChannelAccessManager ι :=
  if c.medium.phy.isSome ∧ (c.links e).access = .notRequested ∧ v.hasFramesToTransmit e then
    let (backoff, c) := needBackoffUponAccess st v c e hadFramesToTransmit checkMediumBusy
    requestAccess st v (if backoff then call st v c e .generateBackoff else c) e
  else c

/-- `ResetAllBackoffs`. -/
def resetAllBackoffs : ChannelAccessManager ι :=
  { c with
    links := c.txops.foldl (fun links e => Function.update links e
      (Txop.resetBackoff c.now (links e))) c.links }

/-- No PHY has operated on the link, or it has been asleep or off, for too long. -/
def idleForTooLong : Bool :=
  match c.medium.phy with
  | none => c.resetBackoffThreshold < c.now - c.medium.lastNoPhy.start
  | some phy =>
    phy.isStateSleep && c.resetBackoffThreshold < c.now - c.medium.lastSleep.start ||
      phy.isStateOff && c.resetBackoffThreshold < c.now - c.medium.lastOff.start

/-- `AccessTimeout`. -/
def accessTimeout : ChannelAccessManager ι :=
  if idleForTooLong c then resetAllBackoffs c else grantAccess st v (updateBackoff st c)

/-- `DisableEdcaFor`. -/
def disableEdcaFor (e : ι) (duration : Time) : ChannelAccessManager ι :=
  onLink (updateBackoff st c) e (Txop.updateBackoffSlotsNow 0 (c.now + duration))

/-- `QosTxop::StartMuEdcaTimerNow`. -/
def startMuEdcaTimerNow (e : ι) : ChannelAccessManager ι :=
  let c := onLink c e fun link => { link with muEdcaTimerStartTime := c.now }
  if QosTxop.edcaDisabled c.now (c.links e) then disableEdcaFor st c e (c.links e).muEdcaTimer
  else c

/-! ## Notifications -/

/-- The manager with a medium changed. -/
def onMedium (f : Medium → Medium) : ChannelAccessManager ι :=
  { c with medium := f c.medium }

/-- What the PHY, the frame exchange manager and the MAC notify the manager of. A CCA busy
period is `primary` if it concerns the primary channel. -/
inductive Notification
  | rxStart (duration : Time)
  | rxEndOk
  | rxEndError (estimatedAckTxTime : Time)
  | txStart (duration : Time)
  | ccaBusyStart (duration : Time) (primary : Bool)
  | switchingStart (duration : Time)
  | sleep
  | off
  | wakeup
  | on
  | navReset (duration : Time)
  | navStart (duration : Time)
  | ackTimeoutStart (duration : Time)
  | ackTimeoutReset
  | ctsTimeoutStart (duration : Time)
  | ctsTimeoutReset
  /-- `SetupPhyListener`, of a PHY whose listener is registered already if `reactivated`. -/
  | setupPhyListener (phy : WifiPhy) (reactivated : Bool)
  /-- `RemovePhyListener` of the active PHY. -/
  | removePhyListener

/-- `ResetState`, on the medium. -/
def resetState (now : Time) (m : Medium) : Medium :=
  { m with
    lastRxReceivedOk := true
    lastRx := { m.lastRx with finish := min m.lastRx.finish now }
    lastNavEnd := min m.lastNavEnd now
    lastAckTimeoutEnd := min m.lastAckTimeoutEnd now
    lastCtsTimeoutEnd := min m.lastCtsTimeoutEnd now
    lastNoPhy := { m.lastNoPhy with finish := min m.lastNoPhy.finish now }
    lastSleep := { m.lastSleep with finish := min m.lastSleep.finish now }
    lastOff := { m.lastOff with finish := min m.lastOff.finish now }
    lastBusyEnd := now }

/-- The proactive backoff of `NotifyCcaBusyStartNow` : a new value for every `Txop` that is
not carrying out a TXOP and whose counter is zero. -/
def generateProactiveBackoff : ChannelAccessManager ι :=
  if c.proactiveBackoff then
    { c with
      links := c.txops.foldl (fun links e => Function.update links e
        (if (links e).access ≠ .granted ∧ (links e).backoffSlots = 0 then
          QosTxop.generateBackoffOf (st.thresholds e)
            (QosFrameExchangeManager.linkEnv st v.fem c.now e) (links e)
        else links e)) c.links }
  else c

/-- All backoffs are reset if the PHY was missing, asleep or off for too long. -/
def resetIfLonger (since : Time) : ChannelAccessManager ι :=
  if c.resetBackoffThreshold < c.now - since then resetAllBackoffs c else c

/-- The manager after a notification. `NotifyWakeupNow` and `NotifyOnNow` go on to call
`StartAccessAfterEvent` for each `Txop`. -/
def notify : Notification → ChannelAccessManager ι
  | .rxStart duration => onMedium (updateBackoff st c) fun m =>
    { m with lastRx := ⟨c.now, c.now + duration⟩, lastRxReceivedOk := true }
  | .rxEndOk => onMedium c fun m =>
    { m with lastRx := { m.lastRx with finish := c.now }, lastRxReceivedOk := true }
  | .rxEndError estimatedAckTxTime => onMedium c fun m =>
    { m with
      lastRx := { m.lastRx with finish := c.now }
      lastRxReceivedOk := false
      eifsNoDifs := m.getSifs + estimatedAckTxTime }
  | .txStart duration =>
    let c := onMedium c fun m =>
      { m with
        lastRxReceivedOk := true
        lastRx := { m.lastRx with finish := min m.lastRx.finish c.now } }
    onMedium (updateBackoff st c) fun m => { m with lastTxEnd := c.now + duration }
  | .ccaBusyStart duration primary =>
    let c := updateBackoff st c
    let c := if primary then onMedium c fun m => { m with lastBusyEnd := c.now + duration } else c
    generateProactiveBackoff st v c
  | .switchingStart duration =>
    onMedium (resetAllBackoffs (onMedium c (resetState c.now))) fun m =>
      { m with lastSwitchingEnd := c.now + duration }
  | .sleep => onMedium (updateBackoff st c) fun m =>
    { m with
      phy := m.phy.map fun phy => { phy with isStateSleep := true }
      lastSleep := { m.lastSleep with start := c.now } }
  | .off => onMedium (updateBackoff st c) fun m =>
    { m with
      phy := m.phy.map fun phy => { phy with isStateOff := true }
      lastOff := { m.lastOff with start := c.now } }
  | .wakeup =>
    let c := onMedium c fun m =>
      { m with
        phy := m.phy.map fun phy => { phy with isStateSleep := false }
        lastSleep := { m.lastSleep with finish := c.now } }
    resetIfLonger c c.medium.lastSleep.start
  | .on =>
    let c := onMedium c fun m =>
      { m with
        phy := m.phy.map fun phy => { phy with isStateOff := false }
        lastOff := { m.lastOff with finish := c.now } }
    resetIfLonger c c.medium.lastOff.start
  | .navReset duration =>
    if c.medium.phy.isNone then c
    else onMedium (updateBackoff st c) fun m => { m with lastNavEnd := c.now + duration }
  | .navStart duration => onMedium (updateBackoff st c) fun m =>
    { m with lastNavEnd := max m.lastNavEnd (c.now + duration) }
  | .ackTimeoutStart duration => onMedium c fun m =>
    { m with lastAckTimeoutEnd := c.now + duration }
  | .ackTimeoutReset => onMedium c fun m => { m with lastAckTimeoutEnd := c.now }
  | .ctsTimeoutStart duration => onMedium c fun m =>
    { m with lastCtsTimeoutEnd := c.now + duration }
  | .ctsTimeoutReset => onMedium c fun m => { m with lastCtsTimeoutEnd := c.now }
  | .setupPhyListener phy reactivated =>
    let c :=
      if reactivated then onMedium c fun m =>
        { m with lastNoPhy := { m.lastNoPhy with start := m.lastNoPhy.finish } }
      else if c.medium.phy.isNone then
        let c := onMedium c fun m =>
          { m with
            lastSwitchingEnd := c.now
            lastNoPhy := { m.lastNoPhy with finish := c.now } }
        resetIfLonger c c.medium.lastNoPhy.start
      else c
    onMedium c fun m => { m with phy := some phy }
  | .removePhyListener => onMedium (updateBackoff st c) fun m =>
    { m with
      phy := none
      cachedSifs := m.getSifs
      cachedSlot := m.getSlot
      cachedSlot_nonneg := m.getSlot_nonneg
      lastNoPhy := { m.lastNoPhy with start := c.now } }

end ChannelAccessManager

/-! ## Events -/

/-- An event of a run of the manager. -/
inductive CamEvent (ι : Type*)
  /-- Time passes. -/
  | elapse (d : ℕ)
  | notify (n : ChannelAccessManager.Notification)
  /-- `StartAccessAfterEvent`, for a packet enqueued or a PHY that is active again. -/
  | startAccess (e : ι) (hadFramesToTransmit checkMediumBusy : Bool)
  /-- `Txop::RequestAccess`, after the channel was released. -/
  | requestAccess (e : ι)
  | accessTimeout
  /-- The frame exchange manager or the MAC calls a method of a `Txop`. -/
  | call (e : ι) (t : TxopCall)
  | startMuEdcaTimerNow (e : ι)
  /-- `SetMuCwMin`, `SetMuCwMax`, `SetMuAifsn` and `SetMuEdcaTimer`. -/
  | setMuEdcaParameters (e : ι) (cwMin cwMax : UInt32) (aifsn : UInt8) (timer : Time)

namespace ChannelAccessManager

variable {ι : Type*} [DecidableEq ι] (st : Station ι)

/-- The setters of the MU EDCA parameters. -/
def setMuEdcaParameters (cwMin cwMax : UInt32) (aifsn : UInt8) (timer : Time)
    (link : QosLinkEntity) : QosLinkEntity :=
  { link with muCwMin := cwMin, muCwMax := cwMax, muAifsn := aifsn, muEdcaTimer := timer }

/-- One step of the manager. -/
def step (c : ChannelAccessManager ι) (i : CamEnv ι × CamEvent ι) : ChannelAccessManager ι :=
  match i.2 with
  | .elapse d => { c with now := c.now + d }
  | .notify n => notify st i.1 c n
  | .startAccess e hadFramesToTransmit checkMediumBusy =>
    startAccessAfterEvent st i.1 c e hadFramesToTransmit checkMediumBusy
  | .requestAccess e =>
    if (c.links e).access = .notRequested then requestAccess st i.1 c e else c
  | .accessTimeout => accessTimeout st i.1 c
  | .call e t => call st i.1 c e t
  | .startMuEdcaTimerNow e => startMuEdcaTimerNow st c e
  | .setMuEdcaParameters e cwMin cwMax aifsn timer =>
    onLink c e (setMuEdcaParameters cwMin cwMax aifsn timer)

/-- A manager nothing has happened to yet, for `Txop`s with links of the given parameters. -/
def init (txops : List ι) (h : txops.Nodup) (base : ι → LinkEntity) : ChannelAccessManager ι where
  txops := txops
  txops_nodup := h
  links e := .fresh (base e)

end ChannelAccessManager

end Ns3Pedca
