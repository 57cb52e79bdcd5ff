import Ns3Pedca.Wifi.PedcaBudget

/-!
# The QoS frame exchange manager

`QosFrameExchangeManager` on one link, with the `Txop`s of type `ι` it serves. The state
holds the members that decide what happens next, among them `m_edca`, `m_dcf`,
`m_edcaBackingOff` and `m_initialFrame`, and the phase : what the simulator has scheduled
for it, or that the outcome of a frame exchange is awaited.

A run is a list of events. The medium is busy while a CTS-to-self or a CF-End is sent and
inside the SIFS between two frames of a TXOP, so access is granted in the other phases
only, and only to a `Txop` that has requested it; an event that cannot occur leaves the
state as it is. What a method cannot compute here (whether a frame fits the TXOP and is
sent, whether a CF-End fits the TXNAV, whether the medium was idle for a PIFS, what the
queue holds, the draws) is part of the environment `FemEnv` of each event. Protection,
acknowledgment, the NAV and the logs are left out.

`History` records what the fields do not : the CTS-to-self frames sent on each link, which
of them have their data attempt still to complete, whether the exchange under way started
after a CTS-to-self, outcomes recorded for an exchange that did not, and the assertions of
`StartTransmission` that failed on a resumed TXOP.

Every step acts on the link of a `Txop` by calls of `TxopCall` (`step_reaches`), so what
holds along all runs of calls holds in every state of the manager.
-/

set_option linter.unusedSectionVars false

namespace Ns3Pedca

open QosTxop

/-- What stays fixed : the MAC, the `Txop`s, `PifsRecovery` and the SIFS. -/
structure Station (ι : Type*) where
  mac : MacConfig := {}
  attrs : ι → TxopAttrs
  thresholds : ι → PedcaThresholds := fun _ => {}
  pifsRecovery : Bool := true
  sifs : Time := microSeconds 16

/-- What an event finds around it. -/
structure FemEnv (ι : Type*) where
  phyStandard : Option WifiStandard := some .s80211uhr
  rng : ι → UniformRandomVariable := fun _ => .lowest
  queueEmpty : ι → Bool := fun _ => false
  generateBackoffOnNoTx : Bool := false
  /-- `StartFrameExchange` sends a frame, or the queue of a plain `Txop` is not empty. -/
  frameStarted : Bool := true
  /-- The remaining TXNAV is long enough for a CF-End. -/
  cfEndFits : Bool := false
  /-- The primary channel was idle for the last PIFS. -/
  idleForPifs : Bool := true

/-- What is scheduled, or awaited. -/
inductive Phase (ι : Type*)
  | idle
  /-- A frame was sent and its outcome is awaited. -/
  | exchange
  /-- `StartTransmission` of an EDCAF continuing its TXOP, in a SIFS. -/
  | nextInSifs (e : ι)
  /-- `StartTransmission` of a plain `Txop` for its next fragment, in a SIFS. -/
  | nextFragment (d : ι)
  /-- `PifsRecovery`, in a PIFS. -/
  | pifs (forceCurrentCw : Bool)
  /-- The end of the CTS-to-self sent for an EDCAF. -/
  | pedcaCts (e : ι)
  /-- The end of the CF-End sent for an EDCAF. -/
  | cfEnd (e : ι)
  deriving DecidableEq

/-- The assertions made by `StartTransmission` when an EDCAF resumes its TXOP. -/
inductive ResumeAssert
  | txopLimit | txopStartTime | noPifsRecovery | notInitialFrame
  deriving DecidableEq

/-- History variables. -/
structure History (ι : Type*) where
  ctsSent : ι → ℕ := fun _ => 0
  openAttempt : ι → Bool := fun _ => false
  exchangeAfterCts : Bool := false
  strayRecord : Bool := false
  failedAsserts : List ResumeAssert := []

/-- `QosFrameExchangeManager`. -/
structure QosFrameExchangeManager (ι : Type*) where
  now : Time := 0
  links : ι → QosLinkEntity
  dcf : Option ι := none
  edca : Option ι := none
  edcaBackingOff : Option ι := none
  initialFrame : Bool := false
  moreFragments : Bool := false
  phase : Phase ι := .idle
  hist : History ι := {}

namespace QosFrameExchangeManager

variable {ι : Type*} [DecidableEq ι] (st : Station ι) (v : FemEnv ι)

/-! ## Calls on links -/

/-- The environment of a call on `e`. -/
def linkEnv (now : Time) (e : ι) : LinkEnv where
  attrs := st.attrs e
  mac := st.mac
  phyStandard := v.phyStandard
  now := now
  rng := v.rng e
  queueEmpty := v.queueEmpty e
  generateBackoffOnNoTx := v.generateBackoffOnNoTx

variable (s : QosFrameExchangeManager ι)

/-- A call on the link of `e`. -/
def call (e : ι) (c : TxopCall) : QosFrameExchangeManager ι :=
  { s with
    links := Function.update s.links e
      (TxopCall.exec (st.thresholds e) (s.links e) (linkEnv st v s.now e, c)) }

/-- A call on the link of the `Txop` a member points to, if it does. -/
def callOpt (e : Option ι) (c : TxopCall) : QosFrameExchangeManager ι :=
  match e with
  | some e => call st v s e c
  | none => s

/-! ## Starting a transmission -/

/-- A frame was sent : its outcome is awaited. -/
def beginExchange (e : ι) : QosFrameExchangeManager ι :=
  { s with
    phase := .exchange
    hist := { s.hist with exchangeAfterCts := (s.links e).pedcaAfterCts } }

/-- `NotifyChannelReleased(m_edca)` and `m_edca = nullptr`. -/
def releaseEdca (e : ι) : QosFrameExchangeManager ι :=
  { call st v s e .notifyChannelReleased with edca := none, phase := .idle }

/-- `SendCfEndIfNeeded`. -/
def sendCfEndIfNeeded (e : ι) : QosFrameExchangeManager ι :=
  if v.cfEndFits then { s with phase := .cfEnd e } else releaseEdca st v s e

/-- `CancelPifsRecovery`. -/
def cancelPifsRecovery : QosFrameExchangeManager ι :=
  { callOpt st v s s.edca .notifyChannelReleased with phase := .idle }

/-- `SendPedcaCtsAndRecontend`, after `ConsumePedcaCtsPending` returned true. -/
def sendPedcaCtsAndRecontend (e : ι) : QosFrameExchangeManager ι :=
  { call st v s e .startPedcaCts with
    phase := .pedcaCts e
    hist := { s.hist with
      ctsSent := Function.update s.hist.ctsSent e (s.hist.ctsSent e + 1)
      openAttempt := Function.update s.hist.openAttempt e true } }

/-- The assertions that fail when `e` resumes its TXOP. -/
def resumeAsserts (e : ι) : List ResumeAssert :=
  (if 0 < (s.links e).txopLimit then [] else [.txopLimit]) ++
  (if (s.links e).startTxop.isSome then [] else [.txopStartTime]) ++
  (if st.pifsRecovery then [.noPifsRecovery] else []) ++
  (if s.initialFrame then [.notInitialFrame] else [])

/-- `StartTransmission(edca, txopDuration)`, once no CTS-to-self is pending. -/
def startTxopTransmission (e : ι) (txopDuration : Time) : QosFrameExchangeManager ι :=
  let backingOff := s.edcaBackingOff = some e
  let s := if backingOff then
      { s with
        edcaBackingOff := none
        hist := { s.hist with failedAsserts := s.hist.failedAsserts ++ resumeAsserts st s e } }
    else s
  if 0 < (s.links e).txopLimit then
    if (s.links e).startTxop = none ∨ backingOff ∧ getRemainingTxop s.now (s.links e) = 0 then
      -- starting a new TXOP
      let s := call st v s e (.notifyChannelAccessed txopDuration)
      if v.frameStarted then { beginExchange s e with initialFrame := true }
      else releaseEdca st v s e
    else if v.frameStarted then beginExchange s e
    else sendCfEndIfNeeded st v s e
  else
    let s := { s with initialFrame := true }
    if v.frameStarted then call st v (beginExchange s e) e (.notifyChannelAccessed 0)
    else releaseEdca st v s e

/-- `StartTransmission(edca, txopDuration)` of the QoS manager. -/
def startQosTransmission (e : ι) (txopDuration : Time) : QosFrameExchangeManager ι :=
  let s := { s with dcf := some e, edca := some e }
  if (s.links e).pedcaCtsPending then sendPedcaCtsAndRecontend st v s e
  else startTxopTransmission st v s e txopDuration

/-- `FrameExchangeManager::StartTransmission`, for a plain `Txop`. -/
def startDcfTransmission (d : ι) : QosFrameExchangeManager ι :=
  let s := { s with dcf := some d }
  if v.frameStarted then beginExchange (call st v s d (.notifyChannelAccessed 0)) d
  else { call st v s d .notifyChannelReleased with dcf := none, phase := .idle }

/-- Whether `m_pifsRecoveryEvent` is pending. -/
def pifsRecoveryPending : Bool :=
  match s.phase with
  | .pifs _ => true
  | _ => false

/-- The manager once access is granted to `e` : a pending PIFS recovery is cancelled and a
random TXOP limit drawn. -/
def accessGranted (e : ι) : QosFrameExchangeManager ι :=
  let s := if pifsRecoveryPending s then cancelPifsRecovery st v s else s
  if (st.attrs e).isQosTxop then call st v s e .updateRandomTxopLimit else { s with edca := none }

/-- `StartTransmission(edca, allowedWidth)`, which the channel access manager calls. -/
def startTransmission (e : ι) : QosFrameExchangeManager ι :=
  let s := accessGranted st v s e
  if (st.attrs e).isQosTxop then startQosTransmission st v s e (s.links e).txopLimit
  else startDcfTransmission st v s e

/-! ## Outcomes -/

/-- What the history keeps of the outcome of an exchange of `e`, which is recorded as a
success or a failure of P-EDCA if the link is in P-EDCA mode. -/
def noteOutcome (e : ι) : QosFrameExchangeManager ι :=
  { s with
    hist := { s.hist with
      openAttempt := Function.update s.hist.openAttempt e false
      strayRecord := s.hist.strayRecord ||
        (s.links e).pedcaMode && !s.hist.exchangeAfterCts } }

/-- `FrameExchangeManager::TransmissionSucceeded`. -/
def dcfTransmissionSucceeded : QosFrameExchangeManager ι :=
  match s.dcf with
  | some d =>
    if s.moreFragments then { s with phase := .nextFragment d, moreFragments := false }
    else { call st v s d .notifyChannelReleased with dcf := none, phase := .idle }
  | none => { s with phase := .idle }

/-- `TransmissionSucceeded`. -/
def transmissionSucceeded : QosFrameExchangeManager ι :=
  match s.edca with
  | some e =>
    let s := call st v (noteOutcome s e) e .pedcaSucceeded
    let s := if 0 < (s.links e).txopLimit ∧ st.sifs < getRemainingTxop s.now (s.links e) then
        { s with phase := .nextInSifs e }
      else releaseEdca st v s e
    { s with initialFrame := false }
  | none => dcfTransmissionSucceeded st v s

/-- `FrameExchangeManager::TransmissionFailed`. -/
def dcfTransmissionFailed (forceCurrentCw : Bool) : QosFrameExchangeManager ι :=
  let s := if forceCurrentCw then s else callOpt st v s s.dcf .updateFailedCw
  { callOpt st v s s.dcf .notifyChannelReleased with dcf := none, phase := .idle }

/-- `TransmissionFailed`. -/
def transmissionFailed (forceCurrentCw : Bool) : QosFrameExchangeManager ι :=
  match s.edca with
  | some e =>
    let s := call st v (noteOutcome s e) e .pedcaFailed
    let s := if s.initialFrame then
        let s := if forceCurrentCw then s else call st v s e .updateFailedCw
        releaseEdca st v s e
      else if st.pifsRecovery then { s with phase := .pifs forceCurrentCw }
      else
        let s := call st v s e .txopNotifyChannelReleased
        let s := if forceCurrentCw then s else call st v s e .updateFailedCw
        { s with edcaBackingOff := some e, edca := none, phase := .idle }
    { s with initialFrame := false }
  | none => dcfTransmissionFailed st v s forceCurrentCw

/-- `PifsRecovery`. -/
def pifsRecovery (forceCurrentCw : Bool) : QosFrameExchangeManager ι :=
  match s.edca with
  | some e =>
    if v.idleForPifs then startQosTransmission st v s e 0
    else
      let s := call st v s e .notifyChannelReleased
      let s := if forceCurrentCw then s else call st v s e .updateFailedCw
      { s with edca := none, phase := .idle }
  | none => { s with phase := .idle }

/-- What the simulator has scheduled. -/
def fire : QosFrameExchangeManager ι :=
  match s.phase with
  | .idle => s
  | .exchange => s
  | .nextInSifs e => startQosTransmission st v s e 0
  | .nextFragment d => startTransmission st v s d
  | .pifs forceCurrentCw => pifsRecovery st v s forceCurrentCw
  | .pedcaCts e =>
    { call st v s e .notifyChannelReleased with edca := none, dcf := none, phase := .idle }
  | .cfEnd e => { call st v s e .notifyChannelReleased with phase := .idle }

end QosFrameExchangeManager

/-! ## Events -/

/-- Calls of the channel access manager on a link. -/
inductive CamCall
  | updateBackoffSlotsNow (nSlots : UInt32) (backoffUpdateBound : Time)
  | startBackoffNow (nSlots : UInt32)
  | resetBackoff

/-- The call on the link. -/
def CamCall.toTxopCall : CamCall → TxopCall
  | updateBackoffSlotsNow nSlots bound => .updateBackoffSlotsNow nSlots bound
  | startBackoffNow nSlots => .startBackoffNow nSlots
  | resetBackoff => .resetBackoff

/-- An event of a run. -/
inductive FemEvent (ι : Type*)
  /-- Time passes. -/
  | elapse (d : ℕ)
  /-- A `Txop` requests access, and generates a backoff first if one is needed. -/
  | requestAccess (e : ι) (backoff : Bool)
  /-- The channel access manager calls a method of a `Txop`. -/
  | cam (e : ι) (c : CamCall)
  /-- Access is granted to a `Txop`. -/
  | grant (e : ι)
  /-- A `Txop` loses an internal collision. -/
  | internalCollision (e : ι)
  /-- The frame was sent and, if `acked`, acknowledged. -/
  | succeeded (acked moreFragments : Bool)
  /-- No response was received. -/
  | failed (forceCurrentCw : Bool)
  /-- The scheduled event occurs. -/
  | fire
  /-- `FrameExchangeManager::Reset`. -/
  | reset

namespace QosFrameExchangeManager

variable {ι : Type*} [DecidableEq ι] (st : Station ι) (v : FemEnv ι)
  (s : QosFrameExchangeManager ι)

/-- Access can be granted to `e`. -/
def grantable (e : ι) : Bool :=
  (s.links e).access == .requested &&
    match s.phase with
    | .idle => true
    | .exchange => true
    | .pifs _ => true
    | _ => false

/-- One step of the manager. -/
def step (s : QosFrameExchangeManager ι) (i : FemEnv ι × FemEvent ι) :
    QosFrameExchangeManager ι :=
  match i.2 with
  | .elapse d => { s with now := s.now + d }
  | .requestAccess e backoff =>
    if (s.links e).access = .notRequested then
      let s := if backoff then call st i.1 s e .generateBackoff else s
      call st i.1 s e .notifyAccessRequested
    else s
  | .cam e c => call st i.1 s e c.toTxopCall
  | .grant e => if grantable s e then startTransmission st i.1 s e else s
  | .internalCollision e =>
    if (s.links e).access = .requested then
      call st i.1 (call st i.1 s e .updateFailedCw) e .txopNotifyChannelReleased
    else s
  | .succeeded acked moreFragments =>
    if s.phase = .exchange then
      let s := if acked then
          { callOpt st i.1 s s.dcf .resetCw with moreFragments := moreFragments }
        else s
      transmissionSucceeded st i.1 s
    else s
  | .failed forceCurrentCw =>
    if s.phase = .exchange then transmissionFailed st i.1 s forceCurrentCw else s
  | .fire => fire st i.1 s
  | .reset =>
    { s with dcf := none, phase := if s.phase = .exchange then .idle else s.phase }

/-- A manager nothing has happened to yet, with links of the given parameters. -/
def init (base : ι → LinkEntity) : QosFrameExchangeManager ι :=
  { links := fun e => .fresh (base e) }

/-! ## What a step does to the links -/

section Fields

variable (e : ι) (c : TxopCall)

@[simp] theorem call_now : (call st v s e c).now = s.now := rfl

@[simp] theorem call_dcf : (call st v s e c).dcf = s.dcf := rfl

@[simp] theorem call_edca : (call st v s e c).edca = s.edca := rfl

@[simp] theorem call_edcaBackingOff : (call st v s e c).edcaBackingOff = s.edcaBackingOff := rfl

@[simp] theorem call_initialFrame : (call st v s e c).initialFrame = s.initialFrame := rfl

@[simp] theorem call_phase : (call st v s e c).phase = s.phase := rfl

@[simp] theorem call_hist : (call st v s e c).hist = s.hist := rfl

@[simp] theorem call_links_self : (call st v s e c).links e =
    TxopCall.exec (st.thresholds e) (s.links e) (linkEnv st v s.now e, c) :=
  Function.update_self ..

theorem call_links_of_ne {e' : ι} (h : e' ≠ e) : (call st v s e c).links e' = s.links e' :=
  Function.update_of_ne h ..

theorem callOpt_members (d : Option ι) : (callOpt st v s d c).dcf = s.dcf ∧
    (callOpt st v s d c).edca = s.edca ∧
    (callOpt st v s d c).edcaBackingOff = s.edcaBackingOff ∧
    (callOpt st v s d c).initialFrame = s.initialFrame ∧
    (callOpt st v s d c).phase = s.phase ∧ (callOpt st v s d c).hist = s.hist := by
  cases d <;> exact ⟨rfl, rfl, rfl, rfl, rfl, rfl⟩

end Fields

/-- A call that sends no CTS-to-self and is no outcome of an exchange. -/
def isPlainCall (c : TxopCall) : Bool :=
  !(c == .startPedcaCts || c == .pedcaSucceeded || c == .pedcaFailed)

/-- The histories agree on the CTS-to-self frames, the attempts and the records. -/
structure SameAccount (h h' : History ι) : Prop where
  ctsSent : h'.ctsSent = h.ctsSent
  openAttempt : h'.openAttempt = h.openAttempt
  strayRecord : h'.strayRecord = h.strayRecord

theorem SameAccount.rfl {h : History ι} : SameAccount h h :=
  ⟨Eq.refl _, Eq.refl _, Eq.refl _⟩

/-- The second state is reached from the first by plain calls on links and by changes of
members that leave the links and the account alone. -/
inductive Acts (st : Station ι) (s : QosFrameExchangeManager ι) :
    QosFrameExchangeManager ι → Prop
  | refl : Acts st s s
  | members {s₁ s₂} (h : Acts st s s₁) (hlinks : s₂.links = s₁.links)
      (hhist : SameAccount s₁.hist s₂.hist) : Acts st s s₂
  | call {s₁} (h : Acts st s s₁) (v : FemEnv ι) (e : ι) {c : TxopCall}
      (hc : isPlainCall c = true) : Acts st s (call st v s₁ e c)

namespace Acts

variable {st : Station ι} {v : FemEnv ι} {s s₁ : QosFrameExchangeManager ι}

theorem trans {s₂ : QosFrameExchangeManager ι} (h : Acts st s s₁) (h' : Acts st s₁ s₂) :
    Acts st s s₂ := by
  induction h' with
  | refl => exact h
  | members _ hlinks hhist ih => exact ih.members hlinks hhist
  | call _ v e hc ih => exact ih.call v e hc

theorem sameAccount (h : Acts st s s₁) : SameAccount s.hist s₁.hist := by
  induction h with
  | refl => exact .rfl
  | members _ _ hhist ih =>
    exact ⟨hhist.ctsSent.trans ih.ctsSent, hhist.openAttempt.trans ih.openAttempt,
      hhist.strayRecord.trans ih.strayRecord⟩
  | call _ _ _ _ ih => exact ih

theorem callOpt (h : Acts st s s₁) (v : FemEnv ι) (e : Option ι) {c : TxopCall}
    (hc : isPlainCall c = true) : Acts st s (callOpt st v s₁ e c) := by
  cases e with
  | none => exact h
  | some e => exact h.call v e hc

theorem beginExchange (h : Acts st s s₁) (e : ι) : Acts st s (beginExchange s₁ e) :=
  h.members rfl ⟨rfl, rfl, rfl⟩

theorem releaseEdca (h : Acts st s s₁) (v : FemEnv ι) (e : ι) :
    Acts st s (releaseEdca st v s₁ e) :=
  (h.call v e rfl).members rfl .rfl

theorem sendCfEndIfNeeded (h : Acts st s s₁) (v : FemEnv ι) (e : ι) :
    Acts st s (sendCfEndIfNeeded st v s₁ e) := by
  unfold QosFrameExchangeManager.sendCfEndIfNeeded
  split
  · exact h.members rfl .rfl
  · exact h.releaseEdca v e

theorem cancelPifsRecovery (h : Acts st s s₁) (v : FemEnv ι) :
    Acts st s (cancelPifsRecovery st v s₁) :=
  (h.callOpt v s₁.edca rfl).members rfl .rfl

theorem accessGranted (h : Acts st s s₁) (v : FemEnv ι) (e : ι) :
    Acts st s (accessGranted st v s₁ e) := by
  have hcancel : Acts st s (if pifsRecoveryPending s₁ then
      QosFrameExchangeManager.cancelPifsRecovery st v s₁ else s₁) := by
    split
    · exact h.cancelPifsRecovery v
    · exact h
  simp only [QosFrameExchangeManager.accessGranted]
  generalize (if pifsRecoveryPending s₁ then _ else s₁) = s₂ at hcancel ⊢
  split
  · exact hcancel.call v e rfl
  · exact hcancel.members rfl .rfl

theorem startTxopTransmission (h : Acts st s s₁) (v : FemEnv ι) (e : ι) (txopDuration : Time) :
    Acts st s (startTxopTransmission st v s₁ e txopDuration) := by
  have hresume : Acts st s (if s₁.edcaBackingOff = some e then
      { s₁ with
        edcaBackingOff := none
        hist := { s₁.hist with failedAsserts := s₁.hist.failedAsserts ++ resumeAsserts st s₁ e } }
      else s₁) := by
    split
    · exact h.members rfl ⟨rfl, rfl, rfl⟩
    · exact h
  simp only [QosFrameExchangeManager.startTxopTransmission]
  generalize (if s₁.edcaBackingOff = some e then _ else s₁) = s₂ at hresume ⊢
  split
  · split
    · split
      · exact ((hresume.call v e rfl).beginExchange e).members rfl .rfl
      · exact (hresume.call v e rfl).releaseEdca v e
    · split
      · exact hresume.beginExchange e
      · exact hresume.sendCfEndIfNeeded v e
  · have hinitial : Acts st s { s₂ with initialFrame := true } := hresume.members rfl .rfl
    split
    · exact (hinitial.beginExchange e).call v e rfl
    · exact hinitial.releaseEdca v e

theorem startDcfTransmission (h : Acts st s s₁) (v : FemEnv ι) (d : ι) :
    Acts st s (startDcfTransmission st v s₁ d) := by
  have hdcf : Acts st s { s₁ with dcf := some d } := h.members rfl .rfl
  simp only [QosFrameExchangeManager.startDcfTransmission]
  split
  · exact (hdcf.call v d rfl).beginExchange d
  · exact (hdcf.call v d rfl).members rfl .rfl

theorem startQosTransmission (h : Acts st s s₁) (v : FemEnv ι) (e : ι) (txopDuration : Time)
    (hp : (s₁.links e).pedcaCtsPending = false) :
    Acts st s (startQosTransmission st v s₁ e txopDuration) := by
  have hmembers : Acts st s { s₁ with dcf := some e, edca := some e } := h.members rfl .rfl
  simp only [QosFrameExchangeManager.startQosTransmission, hp, Bool.false_eq_true, if_false]
  exact hmembers.startTxopTransmission v e txopDuration

theorem dcfTransmissionSucceeded (h : Acts st s s₁) (v : FemEnv ι) :
    Acts st s (dcfTransmissionSucceeded st v s₁) := by
  unfold QosFrameExchangeManager.dcfTransmissionSucceeded
  split
  · split
    · exact h.members rfl .rfl
    · exact (h.call v _ rfl).members rfl .rfl
  · exact h.members rfl .rfl

/-- The release and the update of the window that end a failed exchange, in either order. -/
theorem updateFailedCw (h : Acts st s s₁) (v : FemEnv ι) (e : Option ι) (forceCurrentCw : Bool) :
    Acts st s (if forceCurrentCw then s₁
      else QosFrameExchangeManager.callOpt st v s₁ e .updateFailedCw) := by
  split
  · exact h
  · exact h.callOpt v e rfl

theorem dcfTransmissionFailed (h : Acts st s s₁) (v : FemEnv ι) (forceCurrentCw : Bool) :
    Acts st s (dcfTransmissionFailed st v s₁ forceCurrentCw) := by
  have hcw := h.updateFailedCw v s₁.dcf forceCurrentCw
  simp only [QosFrameExchangeManager.dcfTransmissionFailed]
  generalize (if forceCurrentCw then s₁ else _) = s₂ at hcw ⊢
  exact (hcw.callOpt v s₂.dcf rfl).members rfl .rfl

end Acts

/-- The state and the EDCAF with which a step enters `StartTransmission` of the QoS manager,
if it does. -/
def qosStart (s : QosFrameExchangeManager ι) (i : FemEnv ι × FemEvent ι) :
    Option (QosFrameExchangeManager ι × ι) :=
  match i.2 with
  | .grant e =>
    if grantable s e ∧ (st.attrs e).isQosTxop then some (accessGranted st i.1 s e, e) else none
  | .fire =>
    match s.phase with
    | .nextInSifs e => some (s, e)
    | .nextFragment d =>
      if (st.attrs d).isQosTxop then some (accessGranted st i.1 s d, d) else none
    | .pifs _ => if i.1.idleForPifs then s.edca.map fun e => (s, e) else none
    | _ => none
  | _ => none

/-- Whether an event ends an exchange. -/
def isOutcome : FemEvent ι → Bool
  | .succeeded _ _ => true
  | .failed _ => true
  | _ => false

/-- The outcomes of a step, as far as links and account go. -/
inductive StepOutcome (s : QosFrameExchangeManager ι) (i : FemEnv ι × FemEvent ι) :
    QosFrameExchangeManager ι → Prop
  | acts {s'} (h : Acts st s s') : StepOutcome s i s'
  | cts {s₁ e} (hstart : qosStart st s i = some (s₁, e)) (h : Acts st s s₁)
      (hp : (s₁.links e).pedcaCtsPending = true) :
      StepOutcome s i
        (sendPedcaCtsAndRecontend st i.1 { s₁ with dcf := some e, edca := some e } e)
  | outcome {s₁ s' e c} (hev : isOutcome i.2 = true) (hphase : s.phase = .exchange)
      (hedca : s.edca = some e) (h : Acts st s s₁) (hhist : s₁.hist = s.hist)
      (hpedca : (s₁.links e).pedca = (s.links e).pedca)
      (hc : c = .pedcaSucceeded ∨ c = .pedcaFailed)
      (h' : Acts st (call st i.1 (noteOutcome s₁ e) e c) s') : StepOutcome s i s'

theorem callOpt_resetCw_pedca (d : Option ι) (e : ι) :
    ((callOpt st v s d .resetCw).links e).pedca = (s.links e).pedca := by
  cases d with
  | none => rfl
  | some d =>
    by_cases h : e = d
    · subst h
      simp only [callOpt, call_links_self]
      rfl
    · simp only [callOpt, call_links_of_ne st v s d _ h]

theorem startQosTransmission_outcome {i : FemEnv ι × FemEvent ι} {s₁ : QosFrameExchangeManager ι}
    {e : ι} (hstart : qosStart st s i = some (s₁, e)) (h : Acts st s s₁) (txopDuration : Time) :
    StepOutcome st s i (startQosTransmission st i.1 s₁ e txopDuration) := by
  rcases Bool.eq_false_or_eq_true (s₁.links e).pedcaCtsPending with hp | hp
  · simp only [startQosTransmission, hp, if_true]
    exact .cts hstart h hp
  · exact .acts (h.startQosTransmission i.1 e txopDuration hp)

theorem grant_outcome {i : FemEnv ι × FemEvent ι} {e : ι}
    (hstart : (st.attrs e).isQosTxop → qosStart st s i = some (accessGranted st i.1 s e, e)) :
    StepOutcome st s i (startTransmission st i.1 s e) := by
  have hgranted : Acts st s (accessGranted st i.1 s e) := Acts.refl.accessGranted i.1 e
  simp only [startTransmission]
  split
  next hq => exact startQosTransmission_outcome st s (hstart hq) hgranted _
  next hq => exact .acts (hgranted.startDcfTransmission i.1 e)

theorem transmissionSucceeded_outcome {i : FemEnv ι × FemEvent ι}
    {s₁ : QosFrameExchangeManager ι} (hev : isOutcome i.2 = true) (hphase : s.phase = .exchange)
    (h : Acts st s s₁)
    (hedca : s₁.edca = s.edca) (hhist : s₁.hist = s.hist)
    (hpedca : ∀ e, (s₁.links e).pedca = (s.links e).pedca) :
    StepOutcome st s i (transmissionSucceeded st i.1 s₁) := by
  unfold transmissionSucceeded
  split
  next e he =>
    refine .outcome hev hphase (hedca ▸ he) h hhist (hpedca e) (.inl rfl) ?_
    simp only
    split
    · exact Acts.refl.members rfl .rfl
    · exact (Acts.refl.releaseEdca i.1 e).members rfl .rfl
  next he => exact .acts (h.dcfTransmissionSucceeded i.1)

theorem transmissionFailed_outcome {i : FemEnv ι × FemEvent ι} (hev : isOutcome i.2 = true)
    (hphase : s.phase = .exchange) (forceCurrentCw : Bool) :
    StepOutcome st s i (transmissionFailed st i.1 s forceCurrentCw) := by
  unfold transmissionFailed
  split
  next e he =>
    refine .outcome hev hphase he .refl rfl rfl (.inr rfl) ?_
    have hcw : ∀ {s₀ s₁ : QosFrameExchangeManager ι}, Acts st s₀ s₁ →
        Acts st s₀ (if forceCurrentCw then s₁ else call st i.1 s₁ e .updateFailedCw) :=
      fun h => h.updateFailedCw i.1 (some e) forceCurrentCw
    simp only
    split
    · exact ((hcw .refl).releaseEdca i.1 e).members rfl .rfl
    · split
      · exact Acts.refl.members rfl .rfl
      · exact (hcw (Acts.refl.call i.1 e rfl)).members rfl .rfl
  next he => exact .acts (Acts.refl.dcfTransmissionFailed i.1 forceCurrentCw)

theorem pifsRecovery_outcome {i : FemEnv ι × FemEvent ι} {forceCurrentCw : Bool}
    (hstart : ∀ e, s.edca = some e → i.1.idleForPifs = true → qosStart st s i = some (s, e)) :
    StepOutcome st s i (pifsRecovery st i.1 s forceCurrentCw) := by
  unfold pifsRecovery
  split
  next e he =>
    split
    next hidle => exact startQosTransmission_outcome st s (hstart e he hidle) .refl _
    next hidle =>
      have hrelease : Acts st s (call st i.1 s e .notifyChannelReleased) :=
        Acts.refl.call i.1 e rfl
      exact .acts ((hrelease.updateFailedCw i.1 (some e) forceCurrentCw).members rfl .rfl)
  next he => exact .acts (Acts.refl.members rfl .rfl)

/-- Every step has one of these outcomes. -/
theorem step_outcome (i : FemEnv ι × FemEvent ι) : StepOutcome st s i (step st s i) := by
  rcases i with ⟨v, ev⟩
  cases ev with
  | elapse d => exact .acts (Acts.refl.members rfl .rfl)
  | requestAccess e backoff =>
    simp only [step]
    split
    · cases backoff with
      | true => exact .acts ((Acts.refl.call v e rfl).call v e rfl)
      | false => exact .acts (Acts.refl.call v e rfl)
    · exact .acts .refl
  | cam e c => exact .acts (Acts.refl.call v e (by cases c <;> rfl))
  | grant e =>
    simp only [step]
    split
    next hg => exact grant_outcome st s fun hq => by simp [qosStart, hg, hq]
    next hg => exact .acts .refl
  | internalCollision e =>
    simp only [step]
    split
    · exact .acts ((Acts.refl.call v e rfl).call v e rfl)
    · exact .acts .refl
  | succeeded acked moreFragments =>
    simp only [step]
    split
    next hphase =>
      cases acked with
      | true =>
        refine transmissionSucceeded_outcome st s rfl hphase
          ((Acts.refl.callOpt v s.dcf rfl).members rfl .rfl) ?_ ?_ ?_
        · exact (callOpt_members st v s _ s.dcf).2.1
        · exact (callOpt_members st v s _ s.dcf).2.2.2.2.2
        · exact callOpt_resetCw_pedca st v s s.dcf
      | false =>
        exact transmissionSucceeded_outcome st s rfl hphase .refl rfl rfl fun _ => rfl
    next hphase => exact .acts .refl
  | failed forceCurrentCw =>
    simp only [step]
    split
    next hphase => exact transmissionFailed_outcome st s rfl hphase forceCurrentCw
    next hphase => exact .acts .refl
  | fire =>
    simp only [step, fire]
    split
    next hphase => exact .acts .refl
    next hphase => exact .acts .refl
    next e hphase =>
      exact startQosTransmission_outcome st s (by simp [qosStart, hphase]) .refl _
    next d hphase => exact grant_outcome st s fun hq => by simp [qosStart, hphase, hq]
    next f hphase =>
      refine pifsRecovery_outcome st s fun e he hidle => ?_
      simp only at hidle
      simp [qosStart, hphase, he, hidle]
    next e hphase => exact .acts ((Acts.refl.call v e rfl).members rfl .rfl)
    next e hphase => exact .acts ((Acts.refl.call v e rfl).members rfl .rfl)
  | reset => exact .acts (Acts.refl.members rfl .rfl)

/-! ## Links of a manager run on calls -/

variable {st s}

theorem call_reaches (v : FemEnv ι) (e e' : ι) (c : TxopCall) :
    Runs.Reaches (TxopCall.exec (st.thresholds e')) (s.links e') ((call st v s e c).links e') := by
  by_cases h : e' = e
  · subst h
    rw [call_links_self]
    exact .single _ _
  · rw [call_links_of_ne st v s e c h]
    exact .refl _

theorem Acts.reaches {s' : QosFrameExchangeManager ι} (h : Acts st s s') (e : ι) :
    Runs.Reaches (TxopCall.exec (st.thresholds e)) (s.links e) (s'.links e) := by
  induction h with
  | refl => exact .refl _
  | members _ hlinks _ ih =>
    rw [hlinks]
    exact ih
  | call _ v e' _ ih => exact ih.trans (call_reaches v e' e _)

/-- A step takes the link of a `Txop` through a run of calls. -/
theorem step_reaches (i : FemEnv ι × FemEvent ι) (e : ι) :
    Runs.Reaches (TxopCall.exec (st.thresholds e)) (s.links e) ((step st s i).links e) := by
  have hout := step_outcome st s i
  generalize step st s i = s' at hout ⊢
  cases hout with
  | acts h => exact h.reaches e
  | cts hstart h hp => exact (h.reaches e).trans (call_reaches i.1 _ e .startPedcaCts)
  | outcome hev hphase hedca h hhist hpedca hc h' =>
    exact ((h.reaches e).trans (call_reaches i.1 _ e _)).trans (h'.reaches e)

/-- What every call keeps on the links of the `Txop`s, every run of the manager keeps. -/
theorem links_of_exec {P : ι → QosLinkEntity → Prop}
    (hP : ∀ e link i, P e link → P e (TxopCall.exec (st.thresholds e) link i))
    (h : ∀ e, P e (s.links e)) (evs : List (FemEnv ι × FemEvent ι)) (e : ι) :
    P e ((Runs.run (step st) s evs).links e) :=
  (Runs.Reaches.of_projection (fun s => s.links e) (fun _ i => step_reaches i e) s evs).invariant
    (fun link i => hP e link i) (h e)

/-- The P-EDCA fields keep their invariant on every link of a manager. -/
theorem links_pedca_inv (base : ι → LinkEntity) (evs : List (FemEnv ι × FemEvent ι)) (e : ι) :
    ((Runs.run (step st) (init base) evs).links e).pedca.Inv (st.thresholds e) :=
  links_of_exec (s := init base) (P := fun e link => link.pedca.Inv (st.thresholds e))
    (fun _ _ i h => inv_exec i h) (fun e => PedcaState.inv_init (st.thresholds e)) evs e

/-! ## A voice EDCAF -/

/-- A station whose attributes are the defaults, with one EDCAF for each access category. -/
def defaultStation : Station AcIndex where
  attrs ac := { ac := ac }

/-- The parameters of the voice EDCAF, for all. -/
def voiceBase (_ : AcIndex) : LinkEntity :=
  { cw := 3, cwMin := 3, cwMax := 7, aifsn := 2 }

/-- An event in the default environment : frames to send, and the lowest draws. -/
def voiceEvent (ev : FemEvent AcIndex) : FemEnv AcIndex × FemEvent AcIndex :=
  ({}, ev)

/-- One access of the voice EDCAF : a request, a grant, and the event `ev` that follows. -/
def voiceAccess (ev : FemEvent AcIndex) : List (FemEnv AcIndex × FemEvent AcIndex) :=
  [.requestAccess .vo false, .elapse 100000, .grant .vo, .elapse 100000, ev].map voiceEvent

end QosFrameExchangeManager

end Ns3Pedca
