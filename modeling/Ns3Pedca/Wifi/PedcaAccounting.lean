import Ns3Pedca.Wifi.QosFrameExchangeManager

/-!
# Outcomes of CTS-to-self frames

Each CTS-to-self of P-EDCA is to lead to one data attempt, which is counted as a success or
a failure. `Accounted` says that the CTS-to-self frames sent on a link are those counted and
the one whose attempt is still open. `strayRecord` of the history tells of an outcome
counted for an exchange that no CTS-to-self preceded.

Outcomes are counted while the link is in P-EDCA mode, which is switched on by failures and
switched off when the budget is spent. A run whose steps are as `keepsAccount` says (no
CTS-to-self spends the last of the budget, no exchange ends in P-EDCA mode but those that
follow a CTS-to-self) keeps the account (`accounted_of_each`). Its invariant is
`AccountInv` : an attempt is open exactly while `pedcaAfterCts` is set. `accounted_broken`
is a voice EDCAF with default thresholds whose second CTS-to-self is never counted.
-/

set_option linter.unusedSectionVars false

namespace Ns3Pedca

open QosTxop

/-! ## One link -/

/-- What holds on a link whose attempts are counted, and that is the designated one for
P-EDCA unless `other`. -/
structure AttemptInv (t : PedcaThresholds) (other : Bool) (link : QosLinkEntity) : Prop where
  pedca : link.pedca.Inv t
  budget : link.pedcaAfterCts = true → link.psrc < t.psrcThreshold
  designated : other = true → link.pedcaCtsPending = false ∧ link.pedcaAfterCts = false

/-- The links have the same outcomes counted and the same attempt open. -/
structure SameAttempt (link link' : QosLinkEntity) : Prop where
  afterCts : link'.pedcaAfterCts = link.pedcaAfterCts
  successes : link'.pedcaSuccesses = link.pedcaSuccesses
  failures : link'.pedcaFailures = link.pedcaFailures

section Link

variable {t : PedcaThresholds} {v : LinkEnv} {link link' : QosLinkEntity}

theorem AttemptInv.of_pedca_eq {o : Bool} (h : AttemptInv t o link)
    (hp : link'.pedca = link.pedca) : AttemptInv t o link' := by
  have hpsrc : link'.psrc = link.psrc := congrArg PedcaState.psrc hp
  have hpending : link'.pedcaCtsPending = link.pedcaCtsPending := congrArg PedcaState.ctsPending hp
  have hafter : link'.pedcaAfterCts = link.pedcaAfterCts := congrArg PedcaState.afterCts hp
  refine ⟨hp ▸ h.pedca, ?_, ?_⟩
  · rw [hafter, hpsrc]
    exact h.budget
  · rw [hafter, hpending]
    exact h.designated

theorem generateBackoff_attempt (h : AttemptInv t (pedcaOnOtherLink v) link) :
    AttemptInv t (pedcaOnOtherLink v) (QosTxop.generateBackoff t v link) ∧
      SameAttempt link (QosTxop.generateBackoff t v link) := by
  have hinv : (QosTxop.generateBackoff t v link).pedca.Inv t :=
    (generateBackoff_pedcaStep t v link).inv h.pedca
  have hout := generateBackoff_outcome t v link
  generalize QosTxop.generateBackoff t v link = link' at hinv hout ⊢
  cases hout with
  | ineligible hv => exact ⟨h.of_pedca_eq rfl, rfl, rfl, rfl⟩
  | otherLink hv ho =>
    exact ⟨⟨hinv, nofun, fun _ => ⟨rfl, rfl⟩⟩, (h.designated ho).2.symm, rfl, rfl⟩
  | budgetSpent hv ho hdue hpsrc =>
    -- the budget is spent by no attempt that is still open
    have hafter : link.pedcaAfterCts = false := by
      refine Bool.eq_false_iff.2 fun hafter => ?_
      have hlt := h.budget hafter
      rw [hpsrc] at hlt
      exact absurd hlt (UInt32.lt_irrefl _)
    exact ⟨⟨hinv, nofun, fun _ => ⟨rfl, rfl⟩⟩, hafter.symm, rfl, rfl⟩
  | afterCts hv ho hdue hpsrc hafter =>
    exact ⟨⟨hinv, h.budget, fun hc => h.designated hc⟩, rfl, rfl, rfl⟩
  | sendCts hv ho hdue hpsrc hafter =>
    refine ⟨⟨hinv, h.budget, fun hc => ?_⟩, rfl, rfl, rfl⟩
    rw [ho] at hc
    exact absurd hc (by decide)
  | notDue hv ho htrig hmode =>
    have hafter : link.pedcaAfterCts = false := by
      refine Bool.eq_false_iff.2 fun hafter => ?_
      have hon : link.pedcaMode = true := h.pedca.afterCts_mode hafter
      exact absurd (hmode.symm.trans hon) (by decide)
    refine ⟨⟨hinv, nofun, fun hc => ⟨(h.designated hc).1, rfl⟩⟩, hafter.symm, rfl, rfl⟩

theorem generateBackoffOf_attempt (h : AttemptInv t (pedcaOnOtherLink v) link) :
    AttemptInv t (pedcaOnOtherLink v) (generateBackoffOf t v link) ∧
      SameAttempt link (generateBackoffOf t v link) := by
  unfold generateBackoffOf
  split
  · exact generateBackoff_attempt h
  · exact ⟨h.of_pedca_eq rfl, rfl, rfl, rfl⟩

theorem txopNotifyChannelReleased_attempt (h : AttemptInv t (pedcaOnOtherLink v) link) :
    AttemptInv t (pedcaOnOtherLink v) (txopNotifyChannelReleased t v link) ∧
      SameAttempt link (txopNotifyChannelReleased t v link) := by
  have h' : AttemptInv t (pedcaOnOtherLink v) { link with access := .notRequested } :=
    h.of_pedca_eq rfl
  obtain ⟨hinv, hsame⟩ := generateBackoffOf_attempt h'
  exact ⟨hinv, hsame.afterCts, hsame.successes, hsame.failures⟩

theorem notifyChannelReleasedOf_attempt (h : AttemptInv t (pedcaOnOtherLink v) link) :
    AttemptInv t (pedcaOnOtherLink v) (notifyChannelReleasedOf t v link) ∧
      SameAttempt link (notifyChannelReleasedOf t v link) := by
  unfold notifyChannelReleasedOf
  split
  · simp only [notifyChannelReleased]
    split
    · obtain ⟨hinv, hsame⟩ := generateBackoff_attempt h
      exact ⟨hinv.of_pedca_eq rfl, hsame.afterCts, hsame.successes, hsame.failures⟩
    · exact ⟨h.of_pedca_eq rfl, rfl, rfl, rfl⟩
  · exact txopNotifyChannelReleased_attempt h

/-- A call that sends no CTS-to-self and is no outcome counts nothing and neither opens nor
closes an attempt. -/
theorem exec_attempt {c : TxopCall} (hc : QosFrameExchangeManager.isPlainCall c = true)
    (h : AttemptInv t (pedcaOnOtherLink v) link) :
    AttemptInv t (pedcaOnOtherLink v) (TxopCall.exec t link (v, c)) ∧
      SameAttempt link (TxopCall.exec t link (v, c)) := by
  cases c with
  | startPedcaCts | pedcaSucceeded | pedcaFailed => exact absurd hc (by decide)
  | generateBackoff => exact generateBackoffOf_attempt h
  | txopNotifyChannelReleased => exact txopNotifyChannelReleased_attempt h
  | notifyChannelReleased => exact notifyChannelReleasedOf_attempt h
  | updateFailedCw =>
    simp only [TxopCall.exec, Txop.updateFailedCw]
    split <;> exact ⟨h.of_pedca_eq rfl, rfl, rfl, rfl⟩
  | notifyChannelAccessed txopDuration =>
    simp only [TxopCall.exec, notifyChannelAccessedOf]
    split <;> exact ⟨h.of_pedca_eq rfl, rfl, rfl, rfl⟩
  | updateRandomTxopLimit =>
    simp only [TxopCall.exec, updateRandomTxopLimit]
    split <;> exact ⟨h.of_pedca_eq rfl, rfl, rfl, rfl⟩
  | resetBackoff =>
    simp only [TxopCall.exec, Txop.resetBackoff]
    split <;> exact ⟨h.of_pedca_eq rfl, rfl, rfl, rfl⟩
  | resetCw | notifyAccessRequested | updateBackoffSlotsNow | startBackoffNow =>
    exact ⟨h.of_pedca_eq rfl, rfl, rfl, rfl⟩

/-- A CTS-to-self that leaves some of the budget opens an attempt. -/
theorem startPedcaCts_attempt {o : Bool} (h : AttemptInv t o link)
    (hp : link.pedcaCtsPending = true) (hbudget : link.psrc.toNat + 1 < t.psrcThreshold.toNat) :
    AttemptInv t o (startPedcaCts v link) ∧ (startPedcaCts v link).pedcaAfterCts = true ∧
      (startPedcaCts v link).pedcaSuccesses = link.pedcaSuccesses ∧
      (startPedcaCts v link).pedcaFailures = link.pedcaFailures := by
  have hpedca := startPedcaCts_pedca v link hp
  have hpsrc : (startPedcaCts v link).psrc = link.psrc + 1 := congrArg PedcaState.psrc hpedca
  refine ⟨⟨inv_exec (v, .startPedcaCts) h.pedca, fun _ => ?_, fun ho => ?_⟩,
    congrArg PedcaState.afterCts hpedca, ?_, ?_⟩
  · have hlt : link.psrc < t.psrcThreshold := h.pedca.pending_psrc hp
    rw [hpsrc, UInt32.lt_iff_toNat_lt, toNat_succ_of_lt hlt]
    exact hbudget
  · exact absurd ((h.designated ho).1.symm.trans hp) (by decide)
  · rw [startPedcaCts, hp, if_pos rfl, sendPedcaCts, notifyChannelAccessedOf]
    split <;> rfl
  · rw [startPedcaCts, hp, if_pos rfl, sendPedcaCts, notifyChannelAccessedOf]
    split <;> rfl

theorem toNat_succ_of_toNat_lt {a : UInt32} (h : a.toNat + 1 < 2 ^ 32) :
    (a + 1).toNat = a.toNat + 1 := by
  rw [UInt32.toNat_add, UInt32.toNat_one]
  omega

theorem incrementPedcaTriggerCount_same {l : QosLinkEntity} :
    SameAttempt l (incrementPedcaTriggerCount t l) ∧
      (incrementPedcaTriggerCount t l).pedcaCtsPending = l.pedcaCtsPending := by
  simp only [incrementPedcaTriggerCount]
  split <;> exact ⟨⟨rfl, rfl, rfl⟩, rfl⟩

/-- An outcome that is in P-EDCA mode after a CTS-to-self only closes the attempt if one is
open, and counts it then. -/
theorem outcome_attempt {o : Bool} {c : TxopCall} (h : AttemptInv t o link)
    (hrecord : link.pedcaMode = true → link.pedcaAfterCts = true)
    (hlt : link.pedcaSuccesses.toNat + link.pedcaFailures.toNat + link.pedcaAfterCts.toNat < 2 ^ 32)
    (hc : c = .pedcaSucceeded ∨ c = .pedcaFailed) :
    AttemptInv t o (TxopCall.exec t link (v, c)) ∧
      (TxopCall.exec t link (v, c)).pedcaAfterCts = false ∧
      (TxopCall.exec t link (v, c)).pedcaSuccesses.toNat +
          (TxopCall.exec t link (v, c)).pedcaFailures.toNat =
        link.pedcaSuccesses.toNat + link.pedcaFailures.toNat + link.pedcaAfterCts.toNat := by
  have hinv := inv_exec (v, c) h.pedca
  rcases Bool.eq_false_or_eq_true link.pedcaMode with hm | hm
  · have hafter := hrecord hm
    rw [hafter, Bool.toNat_true] at hlt
    rcases hc with rfl | rfl
    · have hs : (link.pedcaSuccesses + 1).toNat = link.pedcaSuccesses.toNat + 1 :=
        toNat_succ_of_toNat_lt (by omega)
      simp only [TxopCall.exec, pedcaSucceeded, hm, if_true] at hinv ⊢
      refine ⟨⟨hinv, fun hon => absurd hon Bool.false_ne_true, fun _ => ⟨rfl, rfl⟩⟩, rfl, ?_⟩
      simp only [resetPedcaCounters, recordPedcaSuccess, hs, hafter, Bool.toNat_true]
      omega
    · have hf : (link.pedcaFailures + 1).toNat = link.pedcaFailures.toNat + 1 :=
        toNat_succ_of_toNat_lt (by omega)
      simp only [TxopCall.exec, pedcaFailed, hm, if_true] at hinv ⊢
      refine ⟨⟨hinv, fun hon => absurd hon Bool.false_ne_true,
        fun ho => ⟨(h.designated ho).1, rfl⟩⟩, rfl, ?_⟩
      simp only [recordPedcaFailure, setPedcaAfterCts, hf, hafter, Bool.toNat_true]
      omega
  · have hafter : link.pedcaAfterCts = false := by
      refine Bool.eq_false_iff.2 fun hafter => ?_
      have hon : link.pedcaMode = true := h.pedca.afterCts_mode hafter
      exact absurd (hm.symm.trans hon) (by decide)
    rcases hc with rfl | rfl
    · simp only [TxopCall.exec, pedcaSucceeded, hm, Bool.false_eq_true, if_false]
      exact ⟨h, hafter, by rw [hafter]; rfl⟩
    · obtain ⟨hsame, hpending⟩ := incrementPedcaTriggerCount_same (t := t) (l := link)
      simp only [TxopCall.exec, pedcaFailed, hm, Bool.false_eq_true, if_false] at hinv ⊢
      have hafter' : (incrementPedcaTriggerCount t link).pedcaAfterCts = false :=
        hsame.afterCts.trans hafter
      refine ⟨⟨hinv, fun hon => ?_, fun ho => ⟨?_, hafter'⟩⟩, hafter', ?_⟩
      · exact absurd (hafter'.symm.trans hon) (by decide)
      · exact hpending.trans (h.designated ho).1
      · rw [hsame.successes, hsame.failures, hafter]
        rfl

end Link

namespace QosFrameExchangeManager

variable {ι : Type*} [DecidableEq ι]

/-! ## The account of a manager -/

/-- The CTS-to-self frames sent for `e` are those whose attempt was counted as a success or
a failure, and the one whose attempt is still open. -/
def Accounted (s : QosFrameExchangeManager ι) (e : ι) : Prop :=
  s.hist.ctsSent e = (s.links e).pedcaSuccesses.toNat + (s.links e).pedcaFailures.toNat +
    (s.hist.openAttempt e).toNat

instance (s : QosFrameExchangeManager ι) (e : ι) : Decidable (Accounted s e) :=
  inferInstanceAs (Decidable (_ = _))

/-- What keeps the account at a step : a CTS-to-self it sends leaves some of the budget, and
is less than the `2^32`th; an exchange it ends in P-EDCA mode is one after a CTS-to-self. -/
def keepsAccount (st : Station ι) (s : QosFrameExchangeManager ι) (i : FemEnv ι × FemEvent ι) :
    Bool :=
  ((qosStart st s i).all fun p =>
    !(p.1.links p.2).pedcaCtsPending ||
      ((p.1.links p.2).psrc.toNat + 1 < (st.thresholds p.2).psrcThreshold.toNat &&
        s.hist.ctsSent p.2 + 1 < 2 ^ 32)) &&
  (!isOutcome i.2 || s.phase != .exchange ||
    s.edca.all fun e => !(s.links e).pedcaMode || (s.links e).pedcaAfterCts)

/-- P-EDCA is distributed across the links, and this link is not the designated one of `e`. -/
def onOtherLink (st : Station ι) (e : ι) : Bool :=
  pedcaOnOtherLink { attrs := st.attrs e, mac := st.mac }

/-- The invariant of the account of `e`. -/
structure AccountInv (st : Station ι) (s : QosFrameExchangeManager ι) (e : ι) : Prop where
  link : AttemptInv (st.thresholds e) (onOtherLink st e) (s.links e)
  accounted : Accounted s e
  ctsSent_lt : s.hist.ctsSent e < 2 ^ 32
  open_eq : s.hist.openAttempt e = (s.links e).pedcaAfterCts

section Account

variable {st : Station ι} {v : FemEnv ι} {s s' : QosFrameExchangeManager ι} {e : ι}

/-- The account is a matter of the link and the history of `e`. -/
theorem AccountInv.of_same (h : AccountInv st s e)
    (hlink : AttemptInv (st.thresholds e) (onOtherLink st e) (s'.links e))
    (hsame : SameAttempt (s.links e) (s'.links e))
    (hcts : s'.hist.ctsSent e = s.hist.ctsSent e)
    (hopen : s'.hist.openAttempt e = s.hist.openAttempt e) : AccountInv st s' e where
  link := hlink
  accounted := by
    rw [Accounted, hcts, hopen, hsame.successes, hsame.failures]
    exact h.accounted
  ctsSent_lt := hcts ▸ h.ctsSent_lt
  open_eq := by rw [hopen, hsame.afterCts, h.open_eq]

/-- Plain calls and changes of members keep the account, and every attempt open or closed. -/
theorem Acts.accountInv (h : Acts st s s') (hs : ∀ e, AccountInv st s e) :
    (∀ e, AccountInv st s' e) ∧ s'.hist.strayRecord = s.hist.strayRecord ∧
      ∀ e, (s'.links e).pedcaAfterCts = (s.links e).pedcaAfterCts := by
  induction h with
  | refl => exact ⟨hs, rfl, fun _ => rfl⟩
  | members _ hlinks hhist ih =>
    obtain ⟨hinv, hstray, hafter⟩ := ih
    refine ⟨fun e => ?_, hhist.strayRecord.trans hstray, fun e => by rw [hlinks, hafter e]⟩
    refine (hinv e).of_same (hlinks ▸ (hinv e).link) ?_ (by rw [hhist.ctsSent])
      (by rw [hhist.openAttempt])
    rw [hlinks]
    exact ⟨rfl, rfl, rfl⟩
  | @call s₁ _ v e c hc ih =>
    obtain ⟨hinv, hstray, hafter⟩ := ih
    obtain ⟨hlink, hsame⟩ :=
      exec_attempt (v := linkEnv st v s₁.now e) hc (hinv e).link
    rw [← call_links_self] at hlink hsame
    refine ⟨fun e' => ?_, hstray, fun e' => ?_⟩ <;> by_cases he : e' = e
    · subst he
      exact (hinv e').of_same hlink hsame rfl rfl
    · refine (hinv e').of_same ?_ ?_ rfl rfl <;> rw [call_links_of_ne st v s₁ e c he]
      · exact (hinv e').link
      · exact ⟨rfl, rfl, rfl⟩
    · subst he
      rw [hsame.afterCts, hafter]
    · rw [call_links_of_ne st v s₁ e c he, hafter]

/-- A CTS-to-self that leaves some of the budget opens an attempt. -/
theorem sendPedcaCts_accountInv (hs : ∀ e, AccountInv st s e)
    (hp : (s.links e).pedcaCtsPending = true)
    (hbudget : (s.links e).psrc.toNat + 1 < (st.thresholds e).psrcThreshold.toNat)
    (hlt : s.hist.ctsSent e + 1 < 2 ^ 32) (e' : ι) :
    AccountInv st (sendPedcaCtsAndRecontend st v s e) e' := by
  by_cases he : e' = e
  · subst he
    have hopen : s.hist.openAttempt e' = false :=
      (hs e').open_eq.trans ((hs e').link.pedca.pending_afterCts hp)
    have hself : (sendPedcaCtsAndRecontend st v s e').links e' =
        startPedcaCts (linkEnv st v s.now e') (s.links e') :=
      call_links_self st v s e' .startPedcaCts
    obtain ⟨hinv, hafter, hsucc, hfail⟩ :=
      startPedcaCts_attempt (v := linkEnv st v s.now e') (hs e').link hp hbudget
    have hcts : (sendPedcaCtsAndRecontend st v s e').hist.ctsSent e' = s.hist.ctsSent e' + 1 :=
      Function.update_self ..
    have hattempt : (sendPedcaCtsAndRecontend st v s e').hist.openAttempt e' = true :=
      Function.update_self ..
    refine ⟨hself ▸ hinv, ?_, hcts ▸ hlt, ?_⟩
    · have hacc := (hs e').accounted
      rw [Accounted, hopen] at hacc
      rw [Accounted, hcts, hattempt, hself, hsucc, hfail, hacc]
      rfl
    · rw [hattempt, hself, hafter]
  · have hlink : (sendPedcaCtsAndRecontend st v s e).links e' = s.links e' :=
      call_links_of_ne st v s e .startPedcaCts he
    refine (hs e').of_same (hlink ▸ (hs e').link) (hlink ▸ ⟨rfl, rfl, rfl⟩) ?_ ?_
    · exact Function.update_of_ne he ..
    · exact Function.update_of_ne he ..

/-- The outcome of an exchange of `e` that is in P-EDCA mode after a CTS-to-self only closes
the attempt if one is open, and counts it then. -/
theorem outcome_accountInv {c : TxopCall} (hs : ∀ e, AccountInv st s e)
    (hrecord : (s.links e).pedcaMode = true → (s.links e).pedcaAfterCts = true)
    (hc : c = .pedcaSucceeded ∨ c = .pedcaFailed) (e' : ι) :
    AccountInv st (call st v (noteOutcome s e) e c) e' := by
  by_cases he : e' = e
  · subst he
    have hself : (call st v (noteOutcome s e') e' c).links e' =
        TxopCall.exec (st.thresholds e') (s.links e') (linkEnv st v s.now e', c) :=
      call_links_self st v (noteOutcome s e') e' c
    have hacc := (hs e').accounted
    rw [Accounted, (hs e').open_eq] at hacc
    obtain ⟨hinv, hafter, hcount⟩ := outcome_attempt (v := linkEnv st v s.now e') (hs e').link
      hrecord (hacc ▸ (hs e').ctsSent_lt) hc
    have hopen : (call st v (noteOutcome s e') e' c).hist.openAttempt e' = false :=
      Function.update_self ..
    refine ⟨hself ▸ hinv, ?_, (hs e').ctsSent_lt, ?_⟩
    · rw [Accounted, hopen, hself, hcount]
      exact hacc
    · rw [hopen, hself, hafter]
  · have hlink : (call st v (noteOutcome s e) e c).links e' = s.links e' :=
      call_links_of_ne st v (noteOutcome s e) e c he
    refine (hs e').of_same (hlink ▸ (hs e').link) (hlink ▸ ⟨rfl, rfl, rfl⟩) rfl ?_
    exact Function.update_of_ne he ..

/-! ## The exchange under way -/

/-- If an attempt of the EDCAF that transmits is open, its exchange started after the
CTS-to-self. -/
def StartedAfterCts (s : QosFrameExchangeManager ι) : Prop :=
  ∀ e, s.phase = .exchange → s.edca = some e → (s.links e).pedcaAfterCts = true →
    s.hist.exchangeAfterCts = true

theorem startedAfterCts_of_phase (h : s.phase ≠ .exchange) : StartedAfterCts s :=
  fun _ hphase => absurd hphase h

theorem startedAfterCts_of_edca (h : s.edca = none) : StartedAfterCts s :=
  fun _ _ hedca => absurd (h.symm.trans hedca) nofun

theorem startedAfterCts_beginExchange (h : s.edca = some e) :
    StartedAfterCts (beginExchange s e) := by
  intro e' _ hedca hafter
  obtain rfl : e = e' := Option.some_inj.1 (h.symm.trans hedca)
  exact hafter

/-- Calls that neither open nor close an attempt leave the exchange as it is. -/
theorem StartedAfterCts.of_same (h : StartedAfterCts s) (hphase : s'.phase = s.phase)
    (hedca : s'.edca = s.edca) (hhist : s'.hist.exchangeAfterCts = s.hist.exchangeAfterCts)
    (hafter : ∀ e, (s'.links e).pedcaAfterCts = (s.links e).pedcaAfterCts) :
    StartedAfterCts s' := by
  intro e hp he ha
  rw [hhist]
  exact h e (hphase ▸ hp) (hedca ▸ he) (hafter e ▸ ha)

theorem releaseEdca_startedAfterCts : StartedAfterCts (releaseEdca st v s e) :=
  startedAfterCts_of_phase (by rintro ⟨⟩)

theorem sendCfEndIfNeeded_startedAfterCts : StartedAfterCts (sendCfEndIfNeeded st v s e) := by
  unfold sendCfEndIfNeeded
  split
  · exact startedAfterCts_of_phase (by rintro ⟨⟩)
  · exact releaseEdca_startedAfterCts

theorem call_notifyChannelAccessed_startedAfterCts (h : StartedAfterCts s) (txopDuration : Time) :
    StartedAfterCts (call st v s e (.notifyChannelAccessed txopDuration)) := by
  refine h.of_same rfl rfl rfl fun e' => ?_
  by_cases he : e' = e
  · subst he
    simp only [call_links_self, TxopCall.exec, notifyChannelAccessedOf]
    split <;> rfl
  · rw [call_links_of_ne st v s e _ he]

theorem startTxopTransmission_startedAfterCts (h : s.edca = some e) (txopDuration : Time) :
    StartedAfterCts (startTxopTransmission st v s e txopDuration) := by
  have hresume : (if s.edcaBackingOff = some e then
      { s with
        edcaBackingOff := none
        hist := { s.hist with failedAsserts := s.hist.failedAsserts ++ resumeAsserts st s e } }
      else s).edca = some e := by
    split <;> exact h
  simp only [startTxopTransmission]
  generalize (if s.edcaBackingOff = some e then _ else s) = s₂ at hresume ⊢
  split
  · split
    · split
      · have hstart : StartedAfterCts
            (beginExchange (call st v s₂ e (.notifyChannelAccessed txopDuration)) e) :=
          startedAfterCts_beginExchange hresume
        exact hstart.of_same rfl rfl rfl fun _ => rfl
      · exact releaseEdca_startedAfterCts
    · split
      · exact startedAfterCts_beginExchange hresume
      · exact sendCfEndIfNeeded_startedAfterCts
  · split
    · have hstart : StartedAfterCts (beginExchange { s₂ with initialFrame := true } e) :=
        startedAfterCts_beginExchange hresume
      exact call_notifyChannelAccessed_startedAfterCts hstart 0
    · exact releaseEdca_startedAfterCts

theorem startQosTransmission_startedAfterCts (txopDuration : Time) :
    StartedAfterCts (startQosTransmission st v s e txopDuration) := by
  simp only [startQosTransmission]
  split
  · exact startedAfterCts_of_phase (by rintro ⟨⟩)
  · exact startTxopTransmission_startedAfterCts rfl txopDuration

theorem startTransmission_startedAfterCts :
    StartedAfterCts (startTransmission st v s e) := by
  simp only [startTransmission]
  split
  next hq => exact startQosTransmission_startedAfterCts _
  next hq =>
    have hedca : (accessGranted st v s e).edca = none := by
      simp [accessGranted, hq]
    simp only [startDcfTransmission]
    split
    · exact startedAfterCts_of_edca hedca
    · exact startedAfterCts_of_phase (by rintro ⟨⟩)

theorem transmissionSucceeded_startedAfterCts :
    StartedAfterCts (transmissionSucceeded st v s) := by
  unfold transmissionSucceeded
  split
  · simp only
    split <;> exact startedAfterCts_of_phase (by rintro ⟨⟩)
  · unfold dcfTransmissionSucceeded
    split
    · split <;> exact startedAfterCts_of_phase (by rintro ⟨⟩)
    · exact startedAfterCts_of_phase (by rintro ⟨⟩)

theorem transmissionFailed_startedAfterCts (forceCurrentCw : Bool) :
    StartedAfterCts (transmissionFailed st v s forceCurrentCw) := by
  unfold transmissionFailed
  split
  · simp only
    split
    · exact startedAfterCts_of_phase (by rintro ⟨⟩)
    · split <;> exact startedAfterCts_of_phase (by rintro ⟨⟩)
  · exact startedAfterCts_of_phase (by rintro ⟨⟩)

theorem fire_startedAfterCts (h : StartedAfterCts s) : StartedAfterCts (fire st v s) := by
  unfold fire
  split
  · exact h
  · exact h
  · exact startQosTransmission_startedAfterCts _
  · exact startTransmission_startedAfterCts
  · unfold pifsRecovery
    split
    · split
      · exact startQosTransmission_startedAfterCts _
      · exact startedAfterCts_of_phase (by rintro ⟨⟩)
    · exact startedAfterCts_of_phase (by rintro ⟨⟩)
  · exact startedAfterCts_of_phase (by rintro ⟨⟩)
  · exact startedAfterCts_of_phase (by rintro ⟨⟩)

/-- What plain calls on links leave of the exchange under way. -/
theorem Acts.startedAfterCts (h : Acts st s s') (hs : ∀ e, AccountInv st s e)
    (hstart : StartedAfterCts s) (hphase : s'.phase = s.phase) (hedca : s'.edca = s.edca)
    (hhist : s'.hist.exchangeAfterCts = s.hist.exchangeAfterCts) : StartedAfterCts s' :=
  hstart.of_same hphase hedca hhist (h.accountInv hs).2.2

theorem step_startedAfterCts (hs : ∀ e, AccountInv st s e) (h : StartedAfterCts s)
    (i : FemEnv ι × FemEvent ι) : StartedAfterCts (step st s i) := by
  rcases i with ⟨v, ev⟩
  cases ev with
  | elapse d => exact h.of_same rfl rfl rfl fun _ => rfl
  | requestAccess e backoff =>
    simp only [step]
    split
    · cases backoff with
      | true => exact ((Acts.refl.call v e rfl).call v e rfl).startedAfterCts hs h rfl rfl rfl
      | false => exact (Acts.refl.call v e rfl).startedAfterCts hs h rfl rfl rfl
    · exact h
  | cam e c =>
    exact (Acts.refl.call v e (by cases c <;> rfl)).startedAfterCts hs h rfl rfl rfl
  | grant e =>
    simp only [step]
    split
    · exact startTransmission_startedAfterCts
    · exact h
  | internalCollision e =>
    simp only [step]
    split
    · exact ((Acts.refl.call v e rfl).call v e rfl).startedAfterCts hs h rfl rfl rfl
    · exact h
  | succeeded acked moreFragments =>
    simp only [step]
    split
    · exact transmissionSucceeded_startedAfterCts
    · exact h
  | failed forceCurrentCw =>
    simp only [step]
    split
    · exact transmissionFailed_startedAfterCts forceCurrentCw
    · exact h
  | fire => exact fire_startedAfterCts h
  | reset =>
    refine startedAfterCts_of_phase ?_
    simp only [step]
    split
    next hp => simp
    next hp => exact hp

/-! ## Runs -/

/-- A step as `keepsAccount` says keeps the account, and records no outcome of an exchange
that no CTS-to-self preceded. -/
theorem step_account {i : FemEnv ι × FemEvent ι} (hs : ∀ e, AccountInv st s e)
    (hstart : StartedAfterCts s) (hok : keepsAccount st s i = true) :
    (∀ e, AccountInv st (step st s i) e) ∧
      (step st s i).hist.strayRecord = s.hist.strayRecord := by
  have hout := step_outcome st s i
  generalize step st s i = s' at hout ⊢
  simp only [keepsAccount, Bool.and_eq_true] at hok
  obtain ⟨hbudget, hrecord⟩ := hok
  cases hout with
  | acts h =>
    obtain ⟨hinv, hstray, -⟩ := h.accountInv hs
    exact ⟨hinv, hstray⟩
  | @cts s₁ e hqos h hp =>
    obtain ⟨hinv, hstray, -⟩ := h.accountInv hs
    have hinv' : ∀ e', AccountInv st { s₁ with dcf := some e, edca := some e } e' :=
      fun e' => (hinv e').of_same (hinv e').link ⟨rfl, rfl, rfl⟩ rfl rfl
    simp only [hqos, Option.all_some, hp, Bool.not_true, Bool.false_or, Bool.and_eq_true,
      decide_eq_true_eq] at hbudget
    have hlt : s₁.hist.ctsSent e + 1 < 2 ^ 32 := by
      rw [h.sameAccount.ctsSent]
      exact hbudget.2
    exact ⟨sendPedcaCts_accountInv hinv' hp hbudget.1 hlt, hstray⟩
  | @outcome s₁ _ e c hev hphase hedca h hhist hpedca hc h' =>
    have hinv := (h.accountInv hs).1
    simp only [hev, hphase, hedca, Bool.not_true, bne_self_eq_false, Bool.false_or,
      Option.all_some, Bool.or_eq_true, Bool.not_eq_true'] at hrecord
    have hmode : (s₁.links e).pedcaMode = (s.links e).pedcaMode := congrArg PedcaState.mode hpedca
    have hafter : (s₁.links e).pedcaAfterCts = (s.links e).pedcaAfterCts :=
      congrArg PedcaState.afterCts hpedca
    have hrecord' : (s₁.links e).pedcaMode = true → (s₁.links e).pedcaAfterCts = true := by
      rw [hmode, hafter]
      intro hm
      exact hrecord.resolve_left (by simp [hm])
    obtain ⟨hinv', hstray, -⟩ := h'.accountInv (outcome_accountInv hinv hrecord' hc)
    refine ⟨hinv', hstray.trans ?_⟩
    simp only [call_hist, noteOutcome, hhist]
    rcases Bool.eq_false_or_eq_true (s₁.links e).pedcaMode with hm | hm
    · have hexch := hstart e hphase hedca (hafter ▸ hrecord' hm)
      simp [hexch]
    · simp [hm]

end Account

theorem init_accountInv (st : Station ι) (base : ι → LinkEntity) (e : ι) :
    AccountInv st (init base) e where
  link := ⟨PedcaState.inv_init _, nofun, fun _ => ⟨rfl, rfl⟩⟩
  accounted := rfl
  ctsSent_lt := by simp [init]
  open_eq := rfl

/-- Along a run whose steps are as `keepsAccount` says, the CTS-to-self frames sent are those
whose attempt was counted and the one whose attempt is open, and every outcome counted is
that of an exchange after a CTS-to-self. -/
theorem accounted_of_each (st : Station ι) (base : ι → LinkEntity)
    (evs : List (FemEnv ι × FemEvent ι))
    (h : Runs.Each (step st) (fun s i => keepsAccount st s i = true) (init base) evs) :
    Runs.Always (step st) (fun s => (∀ e, Accounted s e) ∧ s.hist.strayRecord = false)
      (init base) evs := by
  have hstep : ∀ (s : QosFrameExchangeManager ι) i,
      (∀ e, AccountInv st s e) ∧ StartedAfterCts s ∧ s.hist.strayRecord = false →
      keepsAccount st s i = true →
      (∀ e, AccountInv st (step st s i) e) ∧ StartedAfterCts (step st s i) ∧
        (step st s i).hist.strayRecord = false := by
    rintro s i ⟨hs, hstart, hstray⟩ hok
    obtain ⟨hs', hstray'⟩ := step_account hs hstart hok
    exact ⟨hs', step_startedAfterCts hs hstart i, hstray'.trans hstray⟩
  have hinit : (∀ e, AccountInv st (init base) e) ∧ StartedAfterCts (init base) ∧
      (init base).hist.strayRecord = false :=
    ⟨init_accountInv st base, startedAfterCts_of_phase (by rintro ⟨⟩), rfl⟩
  exact (h.always hstep hinit).mono fun s hs => ⟨fun e => (hs.1 e).accounted, hs.2.2⟩

/-- Two failures, a CTS-to-self with a failed data attempt, a second CTS-to-self with a
successful one. -/
def secondCts : List (FemEnv AcIndex × FemEvent AcIndex) :=
  voiceAccess (.failed false) ++ voiceAccess (.failed false) ++ voiceAccess .fire ++
    voiceAccess (.failed false) ++ voiceAccess .fire ++ voiceAccess (.succeeded true false)

theorem accounted_of_each_firstCts :
    Runs.Always (step defaultStation) (fun s => (∀ e, Accounted s e) ∧ s.hist.strayRecord = false)
      (init voiceBase) (secondCts.take 20) :=
  accounted_of_each defaultStation voiceBase (secondCts.take 20) (by decide)

/-- Two CTS-to-self frames were sent, both data attempts are over, and one is counted. -/
theorem accounted_broken :
    ¬Runs.Always (step defaultStation)
      (fun s => (∀ e, Accounted s e) ∧ s.hist.strayRecord = false) (init voiceBase) secondCts :=
  fun h => absurd (h.last.1 .vo) (by decide)

end QosFrameExchangeManager

end Ns3Pedca
