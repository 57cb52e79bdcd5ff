import Ns3Pedca.Wifi.QosFrameExchangeManager

/-!
# Paused TXOPs

When a frame other than the initial one of a TXOP fails and PIFS recovery is disabled, the
EDCAF backs off without ending its TXOP : `m_edcaBackingOff` keeps it until it is granted
access again. `StartTransmission` asserts then that its TXOP limit is positive, that the
TXOP has a start time, that PIFS recovery is disabled and that `m_initialFrame` is not set.

`PausedConsistent` says that the EDCAF backing off has a TXOP start time and that none of
the assertions has failed. It breaks in three ways, which `keepsPaused` rules out : the
CTS-to-self of P-EDCA goes first and releases the channel, an EDCAF with a null TXOP limit
sets `m_initialFrame` and sends nothing, or the initial frame of an exchange is abandoned.
Every run without such steps stays consistent (`pausedConsistent_of_each`), by the
invariant `Paused`. `pausedConsistent_broken` is a voice EDCAF that pauses its TXOP with a
CTS-to-self due.
-/

set_option linter.unusedSectionVars false

namespace Ns3Pedca

open QosTxop

/-! ## Start time and limit of a TXOP -/

section Link

variable {t : PedcaThresholds} {v : LinkEnv} {link : QosLinkEntity}

theorem generateBackoffOf_startTxop :
    (generateBackoffOf t v link).startTxop = link.startTxop ∧
      (generateBackoffOf t v link).txopLimit = link.txopLimit := by
  rcases generateBackoffOf_outcome t v link with hout | ⟨-, heq⟩
  · generalize generateBackoffOf t v link = link' at hout ⊢
    cases hout <;> exact ⟨rfl, rfl⟩
  · rw [heq]
    exact ⟨rfl, rfl⟩

/-- Only a release of the channel clears the start time of a TXOP. -/
theorem exec_startTxop {c : TxopCall} (hc : c ≠ .notifyChannelReleased)
    (h : link.startTxop.isSome = true) : (TxopCall.exec t link (v, c)).startTxop.isSome = true := by
  cases c with
  | notifyChannelReleased => exact absurd rfl hc
  | generateBackoff =>
    simp only [TxopCall.exec, generateBackoffOf_startTxop, h]
  | txopNotifyChannelReleased =>
    simp only [TxopCall.exec, txopNotifyChannelReleased, generateBackoffOf_startTxop, h]
  | updateFailedCw =>
    simp only [TxopCall.exec, Txop.updateFailedCw]
    split <;> exact h
  | notifyChannelAccessed txopDuration =>
    simp only [TxopCall.exec, notifyChannelAccessedOf]
    split
    · rfl
    · exact h
  | updateRandomTxopLimit =>
    simp only [TxopCall.exec, updateRandomTxopLimit]
    split <;> exact h
  | resetBackoff =>
    simp only [TxopCall.exec, Txop.resetBackoff]
    split <;> exact h
  | startPedcaCts =>
    simp only [TxopCall.exec, startPedcaCts, sendPedcaCts, notifyChannelAccessedOf]
    split
    · split
      · rfl
      · exact h
    · exact h
  | pedcaSucceeded =>
    simp only [TxopCall.exec, pedcaSucceeded]
    split <;> exact h
  | pedcaFailed =>
    simp only [TxopCall.exec, pedcaFailed, incrementPedcaTriggerCount]
    split
    · exact h
    · split <;> exact h
  | resetCw | notifyAccessRequested | updateBackoffSlotsNow | startBackoffNow => exact h

/-- A random TXOP limit is at least one unit of 32 microseconds. -/
theorem updateRandomTxopLimit_pos (h : 0 < link.txopLimit ∨ v.attrs.randomTxopLimitEnabled = true) :
    0 < (updateRandomTxopLimit v link).txopLimit := by
  have hone : 1 ≤ (randomTxopLimitTicks v.attrs).1 := le_max_left ..
  have hle : (randomTxopLimitTicks v.attrs).1 ≤ (randomTxopLimitTicks v.attrs).2 := le_max_left ..
  have hdraw := (v.rng.getInteger_mem hle).1
  unfold updateRandomTxopLimit
  split
  next hr =>
    have hpos : (0 : ℤ) < v.rng.getInteger (randomTxopLimitTicks v.attrs).1
        (randomTxopLimitTicks v.attrs).2 := by
      exact_mod_cast lt_of_lt_of_le hone hdraw
    exact mul_pos (by norm_num) (mul_pos hpos (by norm_num))
  next hr => exact h.resolve_right hr

/-- No call makes a positive TXOP limit null. -/
theorem exec_txopLimit_pos (c : TxopCall) (h : 0 < link.txopLimit) :
    0 < (TxopCall.exec t link (v, c)).txopLimit := by
  cases c with
  | updateRandomTxopLimit => exact updateRandomTxopLimit_pos (.inl h)
  | generateBackoff =>
    simp only [TxopCall.exec, generateBackoffOf_startTxop, h]
  | txopNotifyChannelReleased =>
    simp only [TxopCall.exec, txopNotifyChannelReleased, generateBackoffOf_startTxop, h]
  | notifyChannelReleased =>
    have hgen : ∀ l : QosLinkEntity, v.attrs.isQosTxop = true →
        (QosTxop.generateBackoff t v l).txopLimit = l.txopLimit := by
      intro l hq
      have hsame : (generateBackoffOf t v l).txopLimit = l.txopLimit :=
        generateBackoffOf_startTxop.2
      rwa [generateBackoffOf, if_pos hq] at hsame
    simp only [TxopCall.exec, notifyChannelReleasedOf]
    split
    next hq =>
      simp only [notifyChannelReleased]
      split
      · exact (hgen link hq) ▸ h
      · exact h
    next hq => simp only [txopNotifyChannelReleased, generateBackoffOf_startTxop, h]
  | updateFailedCw =>
    simp only [TxopCall.exec, Txop.updateFailedCw]
    split <;> exact h
  | notifyChannelAccessed txopDuration =>
    simp only [TxopCall.exec, notifyChannelAccessedOf]
    split <;> exact h
  | resetBackoff =>
    simp only [TxopCall.exec, Txop.resetBackoff]
    split <;> exact h
  | startPedcaCts =>
    simp only [TxopCall.exec, startPedcaCts, sendPedcaCts, notifyChannelAccessedOf]
    split
    · split <;> exact h
    · exact h
  | pedcaSucceeded =>
    simp only [TxopCall.exec, pedcaSucceeded]
    split <;> exact h
  | pedcaFailed =>
    simp only [TxopCall.exec, pedcaFailed, incrementPedcaTriggerCount]
    split
    · exact h
    · split <;> exact h
  | resetCw | notifyAccessRequested | updateBackoffSlotsNow | startBackoffNow => exact h

end Link

namespace QosFrameExchangeManager

variable {ι : Type*} [DecidableEq ι]

/-! ## The invariant -/

/-- The EDCAF that backs off within its TXOP has a TXOP start time, and no assertion on a
resumed TXOP has failed. -/
def PausedConsistent (s : QosFrameExchangeManager ι) : Prop :=
  (∀ e, s.edcaBackingOff = some e → (s.links e).startTxop.isSome = true) ∧
    s.hist.failedAsserts = []

/-- The EDCAF on whose behalf something is awaited or scheduled. -/
def holder (s : QosFrameExchangeManager ι) : Option ι :=
  match s.phase with
  | .idle => none
  | .exchange => s.edca
  | .nextInSifs e => some e
  | .nextFragment _ => none
  | .pifs _ => s.edca
  | .pedcaCts e => some e
  | .cfEnd e => some e

/-- What holds of the EDCAF that backs off, in any phase. -/
structure PausedTxop (st : Station ι) (s : QosFrameExchangeManager ι) : Prop where
  startTxop : ∀ e, s.edcaBackingOff = some e → (s.links e).startTxop.isSome = true
  txopLimit : ∀ e, s.edcaBackingOff = some e → 0 < (s.links e).txopLimit
  isQosTxop : ∀ e, s.edcaBackingOff = some e → (st.attrs e).isQosTxop = true
  noPifs : s.edcaBackingOff.isSome = true → st.pifsRecovery = false
  asserts : s.hist.failedAsserts = []
  edca : ∀ e, s.edca = some e → (st.attrs e).isQosTxop = true

/-- The invariant : the EDCAF that backs off is not the one being served, `m_initialFrame` is
set only during an exchange of an EDCAF, and an exchange without it continues a TXOP. -/
structure Paused (st : Station ι) (s : QosFrameExchangeManager ι) : Prop
    extends PausedTxop st s where
  holder : ∀ e, s.edcaBackingOff = some e → s.holder ≠ some e
  initialFrame : s.edcaBackingOff.isSome = true → ¬(s.phase = .exchange ∧ s.edca.isSome = true) →
    s.initialFrame = false
  continued : ∀ e, s.phase = .exchange → s.edca = some e → s.initialFrame = false →
    (s.links e).startTxop.isSome = true ∧ 0 < (s.links e).txopLimit
  next : ∀ e, s.phase = .nextInSifs e → (st.attrs e).isQosTxop = true ∧ 0 < (s.links e).txopLimit
  pifs : ∀ f, s.phase = .pifs f → st.pifsRecovery = true
  dcf : s.phase = .exchange → s.edca = none → ∀ d, s.dcf = some d → (st.attrs d).isQosTxop = false
  fragment : ∀ d, s.phase = .nextFragment d → (st.attrs d).isQosTxop = false

section Paused

variable {st : Station ι} {v : FemEnv ι} {s s' : QosFrameExchangeManager ι} {e : ι}

theorem Paused.consistent (h : Paused st s) : PausedConsistent s :=
  ⟨h.startTxop, h.asserts⟩

theorem call_startTxop {c : TxopCall} {e' : ι} (hc : c ≠ .notifyChannelReleased ∨ e' ≠ e)
    (h : (s.links e').startTxop.isSome = true) :
    ((call st v s e c).links e').startTxop.isSome = true := by
  by_cases he : e' = e
  · subst he
    rw [call_links_self]
    exact exec_startTxop (hc.resolve_right (by simp)) h
  · rwa [call_links_of_ne st v s e c he]

theorem call_txopLimit (c : TxopCall) {e' : ι} (h : 0 < (s.links e').txopLimit) :
    0 < ((call st v s e c).links e').txopLimit := by
  by_cases he : e' = e
  · subst he
    rw [call_links_self]
    exact exec_txopLimit_pos c h
  · rwa [call_links_of_ne st v s e c he]

/-- A call keeps the paused TXOP unless it is its release. -/
theorem PausedTxop.call (h : PausedTxop st s) {c : TxopCall}
    (hc : c ≠ .notifyChannelReleased ∨ s.edcaBackingOff ≠ some e) :
    PausedTxop st (call st v s e c) where
  startTxop e' he' := by
    refine call_startTxop (hc.imp_right fun hne heq => hne ?_) (h.startTxop e' he')
    exact heq ▸ he'
  txopLimit e' he' := call_txopLimit c (h.txopLimit e' he')
  isQosTxop := h.isQosTxop
  noPifs := h.noPifs
  asserts := h.asserts
  edca := h.edca

theorem PausedTxop.callOpt (h : PausedTxop st s) {c : TxopCall} {d : Option ι}
    (hc : c ≠ .notifyChannelReleased ∨ ∀ e, d = some e → s.edcaBackingOff ≠ some e) :
    PausedTxop st (callOpt st v s d c) := by
  cases d with
  | none => exact h
  | some d => exact h.call (hc.imp_right fun hne => hne d rfl)

/-- A call other than a release keeps the invariant. -/
theorem Paused.call (h : Paused st s) {c : TxopCall} (hc : c ≠ .notifyChannelReleased) :
    Paused st (call st v s e c) where
  toPausedTxop := h.toPausedTxop.call (.inl hc)
  holder := h.holder
  initialFrame := h.initialFrame
  continued e' hp he' hi :=
    have hcont := h.continued e' hp he' hi
    ⟨call_startTxop (.inl hc) hcont.1, call_txopLimit c hcont.2⟩
  next e' hp := ⟨(h.next e' hp).1, call_txopLimit c (h.next e' hp).2⟩
  pifs := h.pifs
  dcf := h.dcf
  fragment := h.fragment

/-- A state in which nothing is awaited or scheduled. -/
theorem PausedTxop.idle (h : PausedTxop st s) (hphase : s.phase = .idle)
    (hinitial : s.edcaBackingOff.isSome = true → s.initialFrame = false) : Paused st s where
  toPausedTxop := h
  holder _ _ := by simp [QosFrameExchangeManager.holder, hphase]
  initialFrame hb _ := hinitial hb
  continued _ hp := by simp [hphase] at hp
  next _ hp := by simp [hphase] at hp
  pifs _ hp := by simp [hphase] at hp
  dcf hp := by simp [hphase] at hp
  fragment _ hp := by simp [hphase] at hp

/-- A state in which the outcome of an exchange of `e` is awaited. -/
theorem PausedTxop.exchange (h : PausedTxop st s) (hphase : s.phase = .exchange)
    (hedca : s.edca = some e) (hne : s.edcaBackingOff ≠ some e)
    (hcont : s.initialFrame = false →
      (s.links e).startTxop.isSome = true ∧ 0 < (s.links e).txopLimit) : Paused st s where
  toPausedTxop := h
  holder e' he' := by
    rw [QosFrameExchangeManager.holder, hphase]
    intro heq
    exact hne (he'.trans (heq.symm.trans hedca))
  initialFrame _ hex := absurd ⟨hphase, by simp [hedca]⟩ hex
  continued e' _ he' hi := by
    obtain rfl : e = e' := Option.some_inj.1 (hedca.symm.trans he')
    exact hcont hi
  next _ hp := by simp [hphase] at hp
  pifs _ hp := by simp [hphase] at hp
  dcf _ hnone := by simp [hedca] at hnone
  fragment _ hp := by simp [hphase] at hp

/-- A state in which a CTS-to-self or a CF-End of `e` is being sent. -/
theorem PausedTxop.sending (h : PausedTxop st s)
    (hphase : s.phase = .pedcaCts e ∨ s.phase = .cfEnd e) (hne : s.edcaBackingOff ≠ some e)
    (hinitial : s.edcaBackingOff.isSome = true → s.initialFrame = false) : Paused st s where
  toPausedTxop := h
  holder e' he' := by
    have hholder : s.holder = some e := by
      rcases hphase with hp | hp <;> rw [QosFrameExchangeManager.holder, hp]
    rw [hholder]
    intro heq
    exact hne (he'.trans heq.symm)
  initialFrame hb _ := hinitial hb
  continued _ hp := by rcases hphase with h' | h' <;> simp [h'] at hp
  next _ hp := by rcases hphase with h' | h' <;> simp [h'] at hp
  pifs _ hp := by rcases hphase with h' | h' <;> simp [h'] at hp
  dcf hp := by rcases hphase with h' | h' <;> simp [h'] at hp
  fragment _ hp := by rcases hphase with h' | h' <;> simp [h'] at hp

/-- Ending the TXOP of an EDCAF other than the one that backs off. -/
theorem PausedTxop.releaseEdca (h : PausedTxop st s) (hne : s.edcaBackingOff ≠ some e)
    (hinitial : s.edcaBackingOff.isSome = true → s.initialFrame = false) :
    Paused st (releaseEdca st v s e) := by
  have hcall := h.call (v := v) (c := .notifyChannelReleased) (.inr hne)
  exact PausedTxop.idle ⟨hcall.startTxop, hcall.txopLimit, hcall.isQosTxop, hcall.noPifs,
    hcall.asserts, (by rintro _ ⟨⟩)⟩ rfl hinitial

theorem PausedTxop.sendCfEndIfNeeded (h : PausedTxop st s) (hne : s.edcaBackingOff ≠ some e)
    (hinitial : s.edcaBackingOff.isSome = true → s.initialFrame = false) :
    Paused st (sendCfEndIfNeeded st v s e) := by
  unfold QosFrameExchangeManager.sendCfEndIfNeeded
  split
  · exact PausedTxop.sending ⟨h.startTxop, h.txopLimit, h.isQosTxop, h.noPifs, h.asserts, h.edca⟩
      (.inr rfl) hne hinitial
  · exact h.releaseEdca hne hinitial

/-! ## Starting a transmission -/

theorem resumeAsserts_eq_nil (h : PausedTxop st s) (he : s.edcaBackingOff = some e)
    (hinitial : s.initialFrame = false) : resumeAsserts st s e = [] := by
  simp [resumeAsserts, h.startTxop e he, h.txopLimit e he, h.noPifs (by simp [he]), hinitial]

/-- What a transmission of `e` without a CTS-to-self needs while an EDCAF backs off. -/
structure StartsPaused (v : FemEnv ι) (s : QosFrameExchangeManager ι) (e : ι) : Prop where
  resumed : s.edcaBackingOff = some e → s.initialFrame = false
  stale : s.edcaBackingOff.isSome = true → s.edcaBackingOff ≠ some e →
    s.initialFrame = false ∨ v.frameStarted = true
  nullLimit : s.edcaBackingOff.isSome = true → s.edcaBackingOff ≠ some e →
    0 < (s.links e).txopLimit ∨ v.frameStarted = true

theorem PausedTxop.startTxopTransmission (h : PausedTxop st s) (hedca : s.edca = some e)
    (hok : StartsPaused v s e) (txopDuration : Time) :
    Paused st (startTxopTransmission st v s e txopDuration) := by
  have hresume : ∃ s₂, (if s.edcaBackingOff = some e then
      { s with
        edcaBackingOff := none
        hist := { s.hist with failedAsserts := s.hist.failedAsserts ++ resumeAsserts st s e } }
      else s) = s₂ ∧ PausedTxop st s₂ ∧ s₂.edca = some e ∧ s₂.edcaBackingOff ≠ some e ∧
      (s₂.edcaBackingOff.isSome = true → (s₂.initialFrame = false ∨ v.frameStarted = true) ∧
        (0 < (s₂.links e).txopLimit ∨ v.frameStarted = true)) := by
    split
    next he =>
      refine ⟨_, rfl, ⟨by simp, by simp, by simp, by simp, ?_, h.edca⟩, hedca, by simp, by simp⟩
      simp [h.asserts, resumeAsserts_eq_nil h he (hok.resumed he)]
    next he => exact ⟨_, rfl, h, hedca, he, fun hb => ⟨hok.stale hb he, hok.nullLimit hb he⟩⟩
  obtain ⟨s₂, heq, h₂, hedca₂, hne, hother⟩ := hresume
  simp only [QosFrameExchangeManager.startTxopTransmission, heq]
  split
  next hlimit =>
    split
    next hnew =>
      have hcall := h₂.call (v := v) (e := e) (c := .notifyChannelAccessed txopDuration)
        (.inl (by simp))
      split
      next hstarted =>
        exact PausedTxop.exchange ⟨hcall.startTxop, hcall.txopLimit, hcall.isQosTxop, hcall.noPifs,
          hcall.asserts, hcall.edca⟩ rfl hedca₂ hne (by rintro ⟨⟩)
      next hstarted =>
        exact hcall.releaseEdca hne fun hb => (hother hb).1.resolve_right hstarted
    next hnew =>
      split
      next hstarted =>
        refine PausedTxop.exchange ⟨h₂.startTxop, h₂.txopLimit, h₂.isQosTxop, h₂.noPifs,
          h₂.asserts, h₂.edca⟩ rfl hedca₂ hne fun _ => ⟨?_, hlimit⟩
        exact Option.isSome_iff_ne_none.2 fun hnone => hnew (.inl hnone)
      next hstarted =>
        exact h₂.sendCfEndIfNeeded hne fun hb => (hother hb).1.resolve_right hstarted
  next hlimit =>
    have hinitial : PausedTxop st { s₂ with initialFrame := true } :=
      ⟨h₂.startTxop, h₂.txopLimit, h₂.isQosTxop, h₂.noPifs, h₂.asserts, h₂.edca⟩
    split
    next hstarted =>
      have hexchange : Paused st (beginExchange { s₂ with initialFrame := true } e) :=
        PausedTxop.exchange ⟨h₂.startTxop, h₂.txopLimit, h₂.isQosTxop, h₂.noPifs,
          h₂.asserts, h₂.edca⟩ rfl hedca₂ hne (by rintro ⟨⟩)
      exact hexchange.call (by simp)
    next hstarted =>
      refine hinitial.releaseEdca hne fun hb => ?_
      exact absurd ((hother hb).2.resolve_right hstarted) hlimit

/-- What a transmission of `e` needs while an EDCAF backs off. -/
structure StartsQosPaused (v : FemEnv ι) (s : QosFrameExchangeManager ι) (e : ι) : Prop where
  cts : (s.links e).pedcaCtsPending = true → s.edcaBackingOff ≠ some e ∧
    (s.edcaBackingOff.isSome = true → s.initialFrame = false)
  noCts : (s.links e).pedcaCtsPending = false → StartsPaused v s e

theorem PausedTxop.startQosTransmission (h : PausedTxop st s)
    (hq : (st.attrs e).isQosTxop = true) (hok : StartsQosPaused v s e) (txopDuration : Time) :
    Paused st (startQosTransmission st v s e txopDuration) := by
  have hedca : ∀ e', some e = some e' → (st.attrs e').isQosTxop = true := by
    rintro e' ⟨⟩
    exact hq
  have hstart : PausedTxop st { s with dcf := some e, edca := some e } :=
    ⟨h.startTxop, h.txopLimit, h.isQosTxop, h.noPifs, h.asserts, hedca⟩
  simp only [QosFrameExchangeManager.startQosTransmission]
  split
  next hp =>
    have hcall := hstart.call (v := v) (e := e) (c := .startPedcaCts) (.inl (by simp))
    exact PausedTxop.sending ⟨hcall.startTxop, hcall.txopLimit, hcall.isQosTxop, hcall.noPifs,
      hcall.asserts, hcall.edca⟩ (.inl rfl) (hok.cts hp).1 (hok.cts hp).2
  next hp =>
    have hno := hok.noCts (Bool.eq_false_iff.2 hp)
    exact hstart.startTxopTransmission rfl ⟨hno.resumed, hno.stale, hno.nullLimit⟩ txopDuration

/-- A plain `Txop` is not the EDCAF that backs off. -/
theorem PausedTxop.ne_of_dcf (h : PausedTxop st s) {d : ι}
    (hd : (st.attrs d).isQosTxop = false) : s.edcaBackingOff ≠ some d := by
  intro he
  exact absurd (hd.symm.trans (h.isQosTxop d he)) (by decide)

theorem PausedTxop.startDcfTransmission (h : PausedTxop st s) {d : ι}
    (hd : (st.attrs d).isQosTxop = false) (hedca : s.edca = none)
    (hinitial : s.edcaBackingOff.isSome = true → s.initialFrame = false) :
    Paused st (startDcfTransmission st v s d) := by
  have hdcf : PausedTxop st { s with dcf := some d } :=
    ⟨h.startTxop, h.txopLimit, h.isQosTxop, h.noPifs, h.asserts, h.edca⟩
  simp only [QosFrameExchangeManager.startDcfTransmission]
  split
  · have hcall := hdcf.call (v := v) (e := d) (c := .notifyChannelAccessed 0) (.inl (by simp))
    refine ⟨⟨hcall.startTxop, hcall.txopLimit, hcall.isQosTxop, hcall.noPifs, hcall.asserts,
      hcall.edca⟩, ?_, fun hb _ => hinitial hb, ?_, (by rintro _ ⟨⟩), (by rintro _ ⟨⟩), ?_,
      (by rintro _ ⟨⟩)⟩
    · intro e' _ he'
      exact absurd (hedca.symm.trans he') (by simp)
    · intro e' _ he'
      exact absurd (hedca.symm.trans he') (by simp)
    · rintro - - d' ⟨⟩
      exact hd
  · have hcall := hdcf.call (v := v) (e := d) (c := .notifyChannelReleased) (.inr (h.ne_of_dcf hd))
    exact PausedTxop.idle ⟨hcall.startTxop, hcall.txopLimit, hcall.isQosTxop, hcall.noPifs,
      hcall.asserts, hcall.edca⟩ rfl hinitial

/-! ## Outcomes -/

theorem Paused.ne_holder (h : Paused st s) (he : s.holder = some e) :
    s.edcaBackingOff ≠ some e :=
  fun hb => h.holder e hb he

theorem Paused.dcfTransmissionSucceeded (h : Paused st s) (hphase : s.phase = .exchange)
    (hedca : s.edca = none) : Paused st (dcfTransmissionSucceeded st v s) := by
  have hinitial : s.edcaBackingOff.isSome = true → s.initialFrame = false :=
    fun hb => h.initialFrame hb (by simp [hedca])
  unfold QosFrameExchangeManager.dcfTransmissionSucceeded
  split
  next d hd =>
    have hdq := h.dcf hphase hedca d hd
    split
    · refine ⟨⟨h.startTxop, h.txopLimit, h.isQosTxop, h.noPifs, h.asserts, h.edca⟩,
        (by rintro _ _ ⟨⟩), fun hb _ => hinitial hb, by simp, by simp, by simp, by simp, ?_⟩
      rintro d' ⟨⟩
      exact hdq
    · have hcall := h.toPausedTxop.call (v := v) (e := d) (c := .notifyChannelReleased)
        (.inr (h.ne_of_dcf hdq))
      exact PausedTxop.idle ⟨hcall.startTxop, hcall.txopLimit, hcall.isQosTxop, hcall.noPifs,
        hcall.asserts, hcall.edca⟩ rfl hinitial
  next hd =>
    exact PausedTxop.idle ⟨h.startTxop, h.txopLimit, h.isQosTxop, h.noPifs, h.asserts, h.edca⟩
      rfl hinitial

theorem Paused.transmissionSucceeded (h : Paused st s) (hphase : s.phase = .exchange) :
    Paused st (transmissionSucceeded st v s) := by
  unfold QosFrameExchangeManager.transmissionSucceeded
  split
  next e he =>
    have hne : s.edcaBackingOff ≠ some e :=
      h.ne_holder (by rw [QosFrameExchangeManager.holder, hphase, he])
    have hnote : PausedTxop st (noteOutcome s e) :=
      ⟨h.startTxop, h.txopLimit, h.isQosTxop, h.noPifs, h.asserts, h.edca⟩
    have hcall := hnote.call (v := v) (e := e) (c := .pedcaSucceeded) (.inl (by simp))
    simp only
    split
    next hmore =>
      refine ⟨⟨hcall.startTxop, hcall.txopLimit, hcall.isQosTxop, hcall.noPifs, hcall.asserts,
        hcall.edca⟩, ?_, fun _ _ => rfl, by simp, ?_, by simp, by simp, by simp⟩
      · rintro e' he' ⟨⟩
        exact hne he'
      · rintro e' ⟨⟩
        exact ⟨h.edca e he, hmore.1⟩
    next hmore =>
      have hrelease := (hcall.call (v := v) (e := e) (c := .notifyChannelReleased) (.inr hne))
      exact PausedTxop.idle ⟨hrelease.startTxop, hrelease.txopLimit, hrelease.isQosTxop,
        hrelease.noPifs, hrelease.asserts, (by rintro _ ⟨⟩)⟩ rfl fun _ => rfl
  next he => exact h.dcfTransmissionSucceeded hphase he

/-- The window of the EDCAF whose exchange failed is updated unless `forceCurrentCw`. -/
theorem PausedTxop.updateFailedCw (h : PausedTxop st s) (forceCurrentCw : Bool) :
    ∃ s₁, (if forceCurrentCw then s
        else QosFrameExchangeManager.call st v s e .updateFailedCw) = s₁ ∧
      PausedTxop st s₁ ∧ s₁.edcaBackingOff = s.edcaBackingOff ∧
      ((s.links e).startTxop.isSome = true ∧ 0 < (s.links e).txopLimit →
        (s₁.links e).startTxop.isSome = true ∧ 0 < (s₁.links e).txopLimit) := by
  split
  · exact ⟨_, rfl, h, rfl, id⟩
  · exact ⟨_, rfl, h.call (.inl (by simp)), rfl,
      fun hs => ⟨call_startTxop (.inl (by simp)) hs.1, call_txopLimit _ hs.2⟩⟩

theorem Paused.dcfTransmissionFailed (h : Paused st s) (hphase : s.phase = .exchange)
    (hedca : s.edca = none) (forceCurrentCw : Bool) :
    Paused st (dcfTransmissionFailed st v s forceCurrentCw) := by
  have hne : ∀ d, s.dcf = some d → s.edcaBackingOff ≠ some d :=
    fun d hd => h.ne_of_dcf (h.dcf hphase hedca d hd)
  have hcw : ∃ s₁, (if forceCurrentCw then s
      else QosFrameExchangeManager.callOpt st v s s.dcf .updateFailedCw) = s₁ ∧
      PausedTxop st s₁ ∧ s₁.edcaBackingOff = s.edcaBackingOff ∧ s₁.dcf = s.dcf ∧
      s₁.initialFrame = s.initialFrame := by
    split
    · exact ⟨_, rfl, h.toPausedTxop, rfl, rfl, rfl⟩
    · obtain ⟨hdcf, -, hback, hinit, -, -⟩ := callOpt_members st v s .updateFailedCw s.dcf
      exact ⟨_, rfl, h.toPausedTxop.callOpt (.inl (by simp)), hback, hdcf, hinit⟩
  obtain ⟨s₁, heq, h₁, hback, hdcf, hinit⟩ := hcw
  simp only [QosFrameExchangeManager.dcfTransmissionFailed, heq]
  have hcall : PausedTxop st (QosFrameExchangeManager.callOpt st v s₁ s₁.dcf
      .notifyChannelReleased) := by
    refine h₁.callOpt (.inr fun d hd => ?_)
    rw [hback]
    exact hne d (hdcf ▸ hd)
  obtain ⟨-, -, hback', hinit', -, -⟩ := callOpt_members st v s₁ .notifyChannelReleased s₁.dcf
  refine PausedTxop.idle ⟨hcall.startTxop, hcall.txopLimit, hcall.isQosTxop, hcall.noPifs,
    hcall.asserts, hcall.edca⟩ rfl fun hb => ?_
  rw [hinit', hinit]
  refine h.initialFrame ?_ (by simp [hedca])
  rw [← hback, ← hback']
  exact hb

theorem Paused.transmissionFailed (h : Paused st s) (hphase : s.phase = .exchange)
    (forceCurrentCw : Bool) : Paused st (transmissionFailed st v s forceCurrentCw) := by
  unfold QosFrameExchangeManager.transmissionFailed
  split
  next e he =>
    have hne : s.edcaBackingOff ≠ some e :=
      h.ne_holder (by rw [QosFrameExchangeManager.holder, hphase, he])
    have hnote : PausedTxop st (noteOutcome s e) :=
      ⟨h.startTxop, h.txopLimit, h.isQosTxop, h.noPifs, h.asserts, h.edca⟩
    have hcall := hnote.call (v := v) (e := e) (c := .pedcaFailed) (.inl (by simp))
    simp only
    split
    next hinitial =>
      obtain ⟨s₁, heq, h₁, hback, -⟩ := hcall.updateFailedCw (v := v) (e := e) forceCurrentCw
      have hrelease := h₁.call (v := v) (e := e) (c := .notifyChannelReleased)
        (.inr (by rw [hback]; exact hne))
      rw [heq]
      exact PausedTxop.idle ⟨hrelease.startTxop, hrelease.txopLimit, hrelease.isQosTxop,
        hrelease.noPifs, hrelease.asserts, (by rintro _ ⟨⟩)⟩ rfl fun _ => rfl
    next hinitial =>
      have hcont : (s.links e).startTxop.isSome = true ∧ 0 < (s.links e).txopLimit :=
        h.continued e hphase he (Bool.eq_false_iff.2 hinitial)
      split
      next hpifs =>
        have hnone : ∀ e', s.edcaBackingOff = some e' → False := by
          intro e' he'
          have := h.noPifs (by simp [he'])
          exact absurd (hpifs.symm.trans this) (by decide)
        refine ⟨⟨hcall.startTxop, hcall.txopLimit, hcall.isQosTxop, hcall.noPifs,
          hcall.asserts, hcall.edca⟩, fun e' he' => (hnone e' he').elim, fun _ _ => rfl, by simp,
          by simp, fun _ _ => hpifs, by simp, by simp⟩
      next hpifs =>
        -- the TXOP of `e` is paused here
        have hback := hcall.call (v := v) (e := e) (c := .txopNotifyChannelReleased)
          (.inl (by simp))
        obtain ⟨s₁, heq, h₁, -, hkeep⟩ := hback.updateFailedCw (v := v) (e := e) forceCurrentCw
        have hstart := hkeep ⟨call_startTxop (.inl (by simp))
            (call_startTxop (.inl (by simp)) hcont.1),
          call_txopLimit _ (call_txopLimit _ hcont.2)⟩
        rw [heq]
        refine PausedTxop.idle ⟨?_, ?_, ?_, fun _ => Bool.eq_false_iff.2 hpifs, h₁.asserts,
          (by rintro _ ⟨⟩)⟩ rfl fun _ => rfl
        · rintro e' ⟨⟩
          exact hstart.1
        · rintro e' ⟨⟩
          exact hstart.2
        · rintro e' ⟨⟩
          exact h.edca e he
  next he => exact h.dcfTransmissionFailed hphase he forceCurrentCw

/-! ## Steps -/

/-- The exchange under way is that of the initial frame of a TXOP. -/
def initialExchange (s : QosFrameExchangeManager ι) : Bool :=
  s.phase == .exchange && s.edca.isSome && s.initialFrame

/-- What keeps a paused TXOP consistent at a step. A grant starts no CTS-to-self of the EDCAF
that backs off, starts no frameless TXOP of another EDCAF with a null TXOP limit, and
abandons no exchange of an initial frame unless for another one; a reset abandons none. -/
def keepsPaused (st : Station ι) (s : QosFrameExchangeManager ι) (i : FemEnv ι × FemEvent ι) :
    Bool :=
  match s.edcaBackingOff, i.2 with
  | some e, .grant e' =>
    !grantable s e' ||
      if (st.attrs e').isQosTxop then
        if (s.links e').pedcaCtsPending then decide (e' ≠ e) && !initialExchange s
        else if e' = e then !initialExchange s
        else i.1.frameStarted ||
          !initialExchange s &&
            (decide (0 < (s.links e').txopLimit) || (st.attrs e').randomTxopLimitEnabled)
      else !initialExchange s
  | some _, .reset => !initialExchange s
  | _, _ => true

theorem Paused.initialFrame_eq_false (h : Paused st s) (hex : initialExchange s = false)
    (hb : s.edcaBackingOff.isSome = true) : s.initialFrame = false := by
  by_cases hp : s.phase = .exchange ∧ s.edca.isSome = true
  · simpa [initialExchange, hp.1, hp.2] using hex
  · exact h.initialFrame hb hp

/-- Outside an exchange, an EDCAF that backs off finds `m_initialFrame` cleared. -/
theorem Paused.initialFrame_of_phase (h : Paused st s) (hp : s.phase ≠ .exchange)
    (hb : s.edcaBackingOff.isSome = true) : s.initialFrame = false :=
  h.initialFrame hb fun hex => hp hex.1

/-- While an EDCAF backs off no PIFS recovery is pending. -/
theorem Paused.pifsRecoveryPending_eq_false (h : Paused st s)
    (hb : s.edcaBackingOff.isSome = true) : pifsRecoveryPending s = false := by
  rw [pifsRecoveryPending]
  split
  next f hp => exact absurd ((h.pifs f hp).symm.trans (h.noPifs hb)) (by decide)
  next => rfl

theorem Paused.accessGranted (h : Paused st s) (e : ι) :
    PausedTxop st (accessGranted st v s e) ∧
      (accessGranted st v s e).edcaBackingOff = s.edcaBackingOff ∧
      (accessGranted st v s e).initialFrame = s.initialFrame := by
  have hcancel : ∃ s₁, (if pifsRecoveryPending s then cancelPifsRecovery st v s else s) = s₁ ∧
      PausedTxop st s₁ ∧ s₁.edcaBackingOff = s.edcaBackingOff ∧
      s₁.initialFrame = s.initialFrame := by
    split
    next hp =>
      have hholder : s.holder = s.edca := by
        rw [pifsRecoveryPending] at hp
        split at hp
        next f hphase => rw [QosFrameExchangeManager.holder, hphase]
        next => exact absurd hp (by simp)
      have hcall := h.toPausedTxop.callOpt (v := v) (d := s.edca) (c := .notifyChannelReleased)
        (.inr fun e he => h.ne_holder (hholder.trans he))
      obtain ⟨-, -, hback, hinit, -, -⟩ := callOpt_members st v s .notifyChannelReleased s.edca
      exact ⟨_, rfl, ⟨hcall.startTxop, hcall.txopLimit, hcall.isQosTxop, hcall.noPifs,
        hcall.asserts, hcall.edca⟩, hback, hinit⟩
    next hp => exact ⟨_, rfl, h.toPausedTxop, rfl, rfl⟩
  obtain ⟨s₁, heq, h₁, hback, hinit⟩ := hcancel
  simp only [QosFrameExchangeManager.accessGranted, heq]
  split
  · exact ⟨h₁.call (.inl (by simp)), hback, hinit⟩
  · exact ⟨⟨h₁.startTxop, h₁.txopLimit, h₁.isQosTxop, h₁.noPifs, h₁.asserts,
      (by rintro _ ⟨⟩)⟩, hback, hinit⟩

/-- The link of `e` once access is granted to it while an EDCAF backs off. -/
theorem Paused.accessGranted_link (h : Paused st s) (hb : s.edcaBackingOff.isSome = true)
    (hq : (st.attrs e).isQosTxop = true) :
    (QosFrameExchangeManager.accessGranted st v s e).links e =
      updateRandomTxopLimit (linkEnv st v s.now e) (s.links e) := by
  simp only [QosFrameExchangeManager.accessGranted, h.pifsRecoveryPending_eq_false hb,
    Bool.false_eq_true, if_false, hq, if_true, call_links_self]
  rfl

theorem updateRandomTxopLimit_pedcaCtsPending (v : LinkEnv) (link : QosLinkEntity) :
    (updateRandomTxopLimit v link).pedcaCtsPending = link.pedcaCtsPending := by
  unfold updateRandomTxopLimit
  split <;> rfl

theorem Paused.grant (h : Paused st s) (hg : grantable s e = true)
    (hok : keepsPaused st s (v, .grant e) = true) : Paused st (startTransmission st v s e) := by
  obtain ⟨hgranted, hback, hinit⟩ := h.accessGranted (v := v) e
  simp only [startTransmission]
  split
  next hq =>
    refine hgranted.startQosTransmission hq ?_ _
    cases hb : s.edcaBackingOff with
    | none =>
      rw [hb] at hback
      exact ⟨fun _ => by simp [hback], fun _ => ⟨by simp [hback], by simp [hback], by simp [hback]⟩⟩
    | some b =>
      have hsome : s.edcaBackingOff.isSome = true := by simp [hb]
      have hlink := h.accessGranted_link (v := v) hsome hq
      have hpending : ((QosFrameExchangeManager.accessGranted st v s e).links e).pedcaCtsPending =
          (s.links e).pedcaCtsPending := by
        rw [hlink, updateRandomTxopLimit_pedcaCtsPending]
      simp only [keepsPaused, hb, hg, Bool.not_true, hq, if_true, Bool.false_or] at hok
      constructor
      · intro hp
        rw [hpending] at hp
        simp only [hp, if_true, Bool.and_eq_true, decide_eq_true_eq, Bool.not_eq_true'] at hok
        rw [hback, hb, hinit]
        exact ⟨fun heq => hok.1 (Option.some_inj.1 heq).symm,
          fun _ => h.initialFrame_eq_false hok.2 hsome⟩
      · intro hp
        rw [hpending] at hp
        simp only [hp, Bool.false_eq_true, if_false] at hok
        by_cases heb : e = b
        · rw [if_pos heb, Bool.not_eq_true'] at hok
          have heq : (QosFrameExchangeManager.accessGranted st v s e).edcaBackingOff = some e := by
            rw [hback, hb, heb]
          exact ⟨fun _ => hinit.trans (h.initialFrame_eq_false hok hsome),
            fun _ hne => absurd heq hne, fun _ hne => absurd heq hne⟩
        · simp only [if_neg heb, Bool.or_eq_true, Bool.and_eq_true, Bool.not_eq_true',
            decide_eq_true_eq] at hok
          refine ⟨fun heq => ?_, fun _ _ => ?_, fun _ _ => ?_⟩
          · rw [hback, hb] at heq
            exact absurd (Option.some_inj.1 heq).symm heb
          · exact (hok.imp_right fun hfree =>
              hinit.trans (h.initialFrame_eq_false hfree.1 hsome)).symm
          · rw [hlink]
            exact (hok.imp_right fun hfree => updateRandomTxopLimit_pos hfree.2).symm
  next hq =>
    have hedca : (QosFrameExchangeManager.accessGranted st v s e).edca = none := by
      simp [QosFrameExchangeManager.accessGranted, hq]
    refine hgranted.startDcfTransmission (Bool.eq_false_iff.2 hq) hedca fun hb => ?_
    rw [hback] at hb
    rw [hinit]
    obtain ⟨b, hb'⟩ := Option.isSome_iff_exists.1 hb
    simp only [keepsPaused, hb', hg, Bool.not_true, hq, Bool.false_eq_true, if_false,
      Bool.false_or, Bool.not_eq_true'] at hok
    exact h.initialFrame_eq_false hok hb

theorem Paused.pifsRecovery (h : Paused st s) {f : Bool} (hphase : s.phase = .pifs f) :
    Paused st (pifsRecovery st v s f) := by
  have hnone : ∀ b, s.edcaBackingOff ≠ some b := by
    intro b hb
    exact absurd ((h.pifs f hphase).symm.trans (h.noPifs (by simp [hb]))) (by decide)
  have hisSome : ¬s.edcaBackingOff.isSome = true := by
    rw [Option.isSome_iff_exists]
    exact fun ⟨b, hb⟩ => hnone b hb
  unfold QosFrameExchangeManager.pifsRecovery
  split
  next e he =>
    split
    · exact h.toPausedTxop.startQosTransmission (h.edca e he) ⟨fun _ => ⟨hnone e,
        fun hb => absurd hb hisSome⟩, fun _ => ⟨fun hb => absurd hb (hnone e),
        fun hb => absurd hb hisSome, fun hb => absurd hb hisSome⟩⟩ 0
    · have hcall := h.toPausedTxop.call (v := v) (e := e) (c := .notifyChannelReleased)
        (.inr (hnone e))
      obtain ⟨s₁, heq, h₁, hback, -⟩ := hcall.updateFailedCw (v := v) (e := e) f
      simp only [heq]
      refine PausedTxop.idle ⟨h₁.startTxop, h₁.txopLimit, h₁.isQosTxop, h₁.noPifs, h₁.asserts,
        (by rintro _ ⟨⟩)⟩ rfl fun hb => ?_
      rw [hback] at hb
      exact absurd hb hisSome
  next he =>
    exact PausedTxop.idle ⟨h.startTxop, h.txopLimit, h.isQosTxop, h.noPifs, h.asserts, h.edca⟩
      rfl fun hb => absurd hb hisSome

theorem Paused.fire (h : Paused st s) : Paused st (fire st v s) := by
  unfold QosFrameExchangeManager.fire
  split
  next => exact h
  next => exact h
  next e hphase =>
    have hinitial := h.initialFrame_of_phase (by simp [hphase])
    have hne := h.ne_holder (e := e) (by rw [QosFrameExchangeManager.holder, hphase])
    exact h.toPausedTxop.startQosTransmission (h.next e hphase).1
      ⟨fun _ => ⟨hne, hinitial⟩, fun _ => ⟨fun hb => absurd hb hne, fun hb _ => .inl (hinitial hb),
        fun _ _ => .inl (h.next e hphase).2⟩⟩ 0
  next d hphase =>
    have hd := h.fragment d hphase
    obtain ⟨hgranted, hback, hinit⟩ := h.accessGranted (v := v) d
    simp only [startTransmission, hd, Bool.false_eq_true, if_false]
    refine hgranted.startDcfTransmission hd (by simp [QosFrameExchangeManager.accessGranted, hd]) ?_
    rw [hback, hinit]
    exact h.initialFrame_of_phase (by simp [hphase])
  next f hphase => exact h.pifsRecovery hphase
  next e hphase =>
    have hcall := h.toPausedTxop.call (v := v) (e := e) (c := .notifyChannelReleased)
      (.inr (h.ne_holder (by rw [QosFrameExchangeManager.holder, hphase])))
    exact PausedTxop.idle ⟨hcall.startTxop, hcall.txopLimit, hcall.isQosTxop, hcall.noPifs,
      hcall.asserts, (by rintro _ ⟨⟩)⟩ rfl (h.initialFrame_of_phase (by simp [hphase]))
  next e hphase =>
    have hcall := h.toPausedTxop.call (v := v) (e := e) (c := .notifyChannelReleased)
      (.inr (h.ne_holder (by rw [QosFrameExchangeManager.holder, hphase])))
    exact PausedTxop.idle ⟨hcall.startTxop, hcall.txopLimit, hcall.isQosTxop, hcall.noPifs,
      hcall.asserts, hcall.edca⟩ rfl (h.initialFrame_of_phase (by simp [hphase]))

theorem Paused.reset (h : Paused st s) (hok : keepsPaused st s (v, .reset) = true) :
    Paused st (step st s (v, .reset)) := by
  have hfree : s.edcaBackingOff.isSome = true → initialExchange s = false := by
    intro hb
    obtain ⟨b, hb'⟩ := Option.isSome_iff_exists.1 hb
    simpa [keepsPaused, hb'] using hok
  by_cases hphase : s.phase = .exchange
  · refine PausedTxop.idle ⟨h.startTxop, h.txopLimit, h.isQosTxop, h.noPifs, h.asserts, h.edca⟩
      (by simp [step, hphase]) fun hb => h.initialFrame_eq_false (hfree hb) hb
  · have hkeep : step st s (v, .reset) = { s with dcf := none } := by simp [step, hphase]
    rw [hkeep]
    exact ⟨⟨h.startTxop, h.txopLimit, h.isQosTxop, h.noPifs, h.asserts, h.edca⟩, h.holder,
      h.initialFrame, h.continued, h.next, h.pifs, fun hp => absurd hp hphase, h.fragment⟩

/-- A step as `keepsPaused` says keeps the invariant. -/
theorem Paused.step (h : Paused st s) {i : FemEnv ι × FemEvent ι}
    (hok : keepsPaused st s i = true) : Paused st (step st s i) := by
  rcases i with ⟨v, ev⟩
  cases ev with
  | elapse d =>
    exact ⟨⟨h.startTxop, h.txopLimit, h.isQosTxop, h.noPifs, h.asserts, h.edca⟩, h.holder,
      h.initialFrame, h.continued, h.next, h.pifs, h.dcf, h.fragment⟩
  | requestAccess e backoff =>
    simp only [QosFrameExchangeManager.step]
    split
    · cases backoff with
      | true => exact (h.call (c := .generateBackoff) (by simp)).call (by simp)
      | false => exact h.call (by simp)
    · exact h
  | cam e c => exact h.call (by cases c <;> simp [CamCall.toTxopCall])
  | grant e =>
    simp only [QosFrameExchangeManager.step]
    split
    next hg => exact h.grant hg hok
    next => exact h
  | internalCollision e =>
    simp only [QosFrameExchangeManager.step]
    split
    · exact (h.call (c := .updateFailedCw) (by simp)).call (by simp)
    · exact h
  | succeeded acked moreFragments =>
    simp only [QosFrameExchangeManager.step]
    split
    next hphase =>
      cases acked with
      | true =>
        have hreset : Paused st (callOpt st v s s.dcf .resetCw) := by
          cases s.dcf with
          | none => exact h
          | some d => exact h.call (by simp)
        have hmembers : Paused st { callOpt st v s s.dcf .resetCw with
            moreFragments := moreFragments } :=
          ⟨⟨hreset.startTxop, hreset.txopLimit, hreset.isQosTxop, hreset.noPifs, hreset.asserts,
            hreset.edca⟩, hreset.holder, hreset.initialFrame, hreset.continued, hreset.next,
            hreset.pifs, hreset.dcf, hreset.fragment⟩
        exact hmembers.transmissionSucceeded
          ((callOpt_members st v s .resetCw s.dcf).2.2.2.2.1.trans hphase)
      | false => exact h.transmissionSucceeded hphase
    next => exact h
  | failed forceCurrentCw =>
    simp only [QosFrameExchangeManager.step]
    split
    next hphase => exact h.transmissionFailed hphase forceCurrentCw
    next => exact h
  | fire => exact h.fire
  | reset => exact h.reset hok

end Paused

theorem init_paused (st : Station ι) (base : ι → LinkEntity) : Paused st (init base) :=
  PausedTxop.idle ⟨nofun, nofun, nofun, nofun, rfl, nofun⟩ rfl nofun

/-- Along a run whose steps are as `keepsPaused` says, the EDCAF that backs off has a TXOP
start time and no assertion on a resumed TXOP fails. -/
theorem pausedConsistent_of_each (st : Station ι) (base : ι → LinkEntity)
    (evs : List (FemEnv ι × FemEvent ι))
    (h : Runs.Each (step st) (fun s i => keepsPaused st s i = true) (init base) evs) :
    Runs.Always (step st) PausedConsistent (init base) evs :=
  (h.always (P := Paused st) (fun _ _ hp hok => hp.step hok) (init_paused st base)).mono
    fun _ hp => hp.consistent

/-- The default station with PIFS recovery disabled. -/
def backoffStation : Station AcIndex :=
  { defaultStation with pifsRecovery := false }

/-- The parameters of the voice EDCAF with a TXOP limit of 2080 microseconds. -/
def voiceTxopBase (ac : AcIndex) : LinkEntity :=
  { voiceBase ac with txopLimit := microSeconds 2080 }

/-- The initial frame of a TXOP fails, the second frame of the next TXOP fails, and a
CTS-to-self comes before the EDCAF resumes that TXOP. -/
def pausedByCts : List (FemEnv AcIndex × FemEvent AcIndex) :=
  voiceAccess (.failed false) ++ voiceAccess (.succeeded true false) ++
    [voiceEvent .fire, voiceEvent (.elapse 100000), voiceEvent (.failed false)] ++
    voiceAccess .fire ++ (voiceAccess .fire).take 3

theorem pausedConsistent_of_each_secondFrame :
    Runs.Always (step backoffStation) PausedConsistent (init voiceTxopBase)
      (pausedByCts.take 13) :=
  pausedConsistent_of_each backoffStation voiceTxopBase (pausedByCts.take 13) (by decide)

/-- The voice EDCAF resumes a TXOP that has no start time. -/
theorem pausedConsistent_broken :
    ¬Runs.Always (step backoffStation) PausedConsistent (init voiceTxopBase) pausedByCts :=
  fun h => absurd h.last.2 (by decide)

end QosFrameExchangeManager

end Ns3Pedca
