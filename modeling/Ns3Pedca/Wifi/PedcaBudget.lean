import Ns3Pedca.Wifi.QosTxop

/-!
# The P-EDCA budget

The P-EDCA fields of a link form a state machine of their own (`PedcaState`, `PedcaStep`) :
a CTS-to-self falls due, is sent, its data attempt succeeds or fails, the counters are
reset. Every call on a link is one transition of it (`exec_pedcaStep`), whatever the
environment of the call.

`PedcaState.Inv` is the invariant of the machine. Its strict bound on `psrc` while a
CTS-to-self is pending is what keeps the equality test of `GenerateBackoff` from being
jumped over. `pedcaInv_and_budget` is the invariant along every run of calls on a fresh
link, and the bound it puts on the CTS-to-self frames between two resets.
-/

namespace Ns3Pedca

/-- The P-EDCA fields of a link. -/
structure PedcaState where
  psrc : UInt32
  triggerCount : UInt32
  ctsPending : Bool
  mode : Bool
  afterCts : Bool

/-- The P-EDCA fields of `link`. -/
def QosLinkEntity.pedca (link : QosLinkEntity) : PedcaState where
  psrc := link.psrc
  triggerCount := link.pedcaTriggerCount
  ctsPending := link.pedcaCtsPending
  mode := link.pedcaMode
  afterCts := link.pedcaAfterCts

/-- What a transition shows : a CTS-to-self sent, the counters reset, or neither. -/
inductive PedcaEvent
  | cts | reset | other
  deriving DecidableEq

/-- The transitions of the P-EDCA fields. -/
inductive PedcaStep (t : PedcaThresholds) : PedcaState → PedcaEvent → PedcaState → Prop
  | stay (s : PedcaState) : PedcaStep t s .other s
  | trigger (s : PedcaState) (hmode : s.mode = false) (mode : Bool) :
      PedcaStep t s .other { s with triggerCount := s.triggerCount + 1, mode := mode }
  | notDue (s : PedcaState) (hmode : s.mode = false) :
      PedcaStep t s .other { s with mode := false, afterCts := false }
  | due (s : PedcaState) (hpsrc : s.psrc ≠ t.psrcThreshold) (hafter : s.afterCts = false) :
      PedcaStep t s .other { s with mode := true, ctsPending := true }
  | contend (s : PedcaState) (hafter : s.afterCts = true) :
      PedcaStep t s .other { s with mode := true }
  | send (s : PedcaState) (hpending : s.ctsPending = true) :
      PedcaStep t s .cts { s with ctsPending := false, psrc := s.psrc + 1, afterCts := true }
  | fail (s : PedcaState) : PedcaStep t s .other { s with afterCts := false }
  | leave (s : PedcaState) :
      PedcaStep t s .other { s with ctsPending := false, mode := false, afterCts := false }
  | reset (s : PedcaState) : PedcaStep t s .reset ⟨0, 0, false, false, false⟩

/-! ## The calls take these transitions -/

namespace QosTxop

variable (t : PedcaThresholds) (v : LinkEnv) (link : QosLinkEntity)

/-- Whether `GenerateBackoff` calls `ResetPedcaCounters`. -/
def backoffResets : Bool :=
  isUhrVo v && !pedcaOnOtherLink v &&
    (t.qsrcThreshold ≤ link.pedcaTriggerCount || link.pedcaMode) && link.psrc == t.psrcThreshold

/-- Whether a call executes `ResetPedcaCounters`. -/
def resetsPedca (link : QosLinkEntity) (i : LinkEnv × TxopCall) : Bool :=
  match i.2 with
  | .generateBackoff => i.1.attrs.isQosTxop && backoffResets t i.1 link
  | .txopNotifyChannelReleased => i.1.attrs.isQosTxop && backoffResets t i.1 link
  | .notifyChannelReleased =>
    i.1.attrs.isQosTxop && backoffOnRelease i.1 link && backoffResets t i.1 link
  | .pedcaSucceeded => link.pedcaMode
  | _ => false

/-- Whether a call sends a P-EDCA CTS-to-self. -/
def sendsPedcaCts (link : QosLinkEntity) (i : LinkEnv × TxopCall) : Bool :=
  i.2 == .startPedcaCts && link.pedcaCtsPending

/-- What a call shows of P-EDCA. -/
def pedcaEvent (link : QosLinkEntity) (i : LinkEnv × TxopCall) : PedcaEvent :=
  if sendsPedcaCts link i then .cts else if resetsPedca t link i then .reset else .other

theorem generateBackoff_pedcaStep :
    PedcaStep t link.pedca (if backoffResets t v link then .reset else .other)
      (generateBackoff t v link).pedca := by
  have hout := generateBackoff_outcome t v link
  generalize generateBackoff t v link = link' at hout ⊢
  cases hout with
  | ineligible h =>
    rw [if_neg (by simp [backoffResets, h])]
    exact .stay _
  | otherLink h ho =>
    rw [if_neg (by simp [backoffResets, h, ho])]
    exact .leave _
  | budgetSpent h ho hdue hpsrc =>
    rw [if_pos (by simpa [backoffResets, h, ho, hpsrc] using hdue)]
    exact .reset _
  | afterCts h ho hdue hpsrc hafter =>
    rw [if_neg (by simp [backoffResets, hpsrc])]
    exact .contend link.pedca hafter
  | sendCts h ho hdue hpsrc hafter =>
    rw [if_neg (by simp [backoffResets, hpsrc])]
    exact .due link.pedca hpsrc hafter
  | notDue h ho htrig hmode =>
    rw [if_neg (by simp [backoffResets, htrig, hmode])]
    exact .notDue link.pedca hmode

theorem generateBackoffOf_pedcaStep :
    PedcaStep t link.pedca
      (if v.attrs.isQosTxop && backoffResets t v link then .reset else .other)
      (generateBackoffOf t v link).pedca := by
  rcases Bool.eq_false_or_eq_true v.attrs.isQosTxop with hq | hq
  · rw [generateBackoffOf, if_pos hq, hq, Bool.true_and]
    exact generateBackoff_pedcaStep t v link
  · rw [generateBackoffOf, hq, Bool.false_and]
    exact .stay _

theorem notifyChannelReleasedOf_pedcaStep :
    PedcaStep t link.pedca
      (if v.attrs.isQosTxop && backoffOnRelease v link && backoffResets t v link then .reset
        else .other) (notifyChannelReleasedOf t v link).pedca := by
  rcases Bool.eq_false_or_eq_true v.attrs.isQosTxop with hq | hq
  · rw [notifyChannelReleasedOf, if_pos hq, notifyChannelReleased, hq, Bool.true_and]
    rcases Bool.eq_false_or_eq_true (backoffOnRelease v link) with hb | hb
    · rw [if_pos hb, hb, Bool.true_and]
      exact generateBackoff_pedcaStep t v link
    · rw [hb, Bool.false_and]
      exact .stay _
  · rw [notifyChannelReleasedOf, hq, Bool.false_and, Bool.false_and, txopNotifyChannelReleased,
      generateBackoffOf, hq]
    exact .stay _

theorem incrementPedcaTriggerCount_pedcaStep (hmode : link.pedcaMode = false) :
    PedcaStep t link.pedca .other (incrementPedcaTriggerCount t link).pedca := by
  simp only [incrementPedcaTriggerCount]
  split
  · exact .trigger link.pedca hmode true
  · exact .trigger link.pedca hmode link.pedcaMode

theorem startPedcaCts_pedca (hp : link.pedcaCtsPending = true) : (startPedcaCts v link).pedca =
    { link.pedca with ctsPending := false, psrc := link.psrc + 1, afterCts := true } := by
  rw [startPedcaCts, hp, if_pos rfl, sendPedcaCts, notifyChannelAccessedOf]
  split <;> rfl

end QosTxop

open QosTxop

/-- Every call on a link is one transition of its P-EDCA fields. -/
theorem exec_pedcaStep (t : PedcaThresholds) (link : QosLinkEntity) (i : LinkEnv × TxopCall) :
    PedcaStep t link.pedca (pedcaEvent t link i) (TxopCall.exec t link i).pedca := by
  rcases i with ⟨v, call⟩
  cases call with
  | resetCw => exact .stay _
  | updateFailedCw =>
    have hkeep : (Txop.updateFailedCw v.mac v.now link).pedca = link.pedca := by
      unfold Txop.updateFailedCw
      split <;> rfl
    simp only [TxopCall.exec, hkeep]
    exact .stay link.pedca
  | generateBackoff => exact generateBackoffOf_pedcaStep t v link
  | txopNotifyChannelReleased =>
    exact generateBackoffOf_pedcaStep t v { link with access := .notRequested }
  | notifyChannelReleased => exact notifyChannelReleasedOf_pedcaStep t v link
  | notifyChannelAccessed txopDuration =>
    have hkeep : (notifyChannelAccessedOf v link txopDuration).pedca = link.pedca := by
      unfold notifyChannelAccessedOf
      split <;> rfl
    simp only [TxopCall.exec, hkeep]
    exact .stay link.pedca
  | notifyAccessRequested => exact .stay _
  | updateRandomTxopLimit =>
    have hkeep : (updateRandomTxopLimit v link).pedca = link.pedca := by
      unfold updateRandomTxopLimit
      split <;> rfl
    simp only [TxopCall.exec, hkeep]
    exact .stay link.pedca
  | updateBackoffSlotsNow nSlots bound => exact .stay _
  | startBackoffNow nSlots => exact .stay _
  | resetBackoff =>
    have hkeep : (Txop.resetBackoff v.now link).pedca = link.pedca := by
      simp only [Txop.resetBackoff]
      split <;> rfl
    simp only [TxopCall.exec, hkeep]
    exact .stay link.pedca
  | startPedcaCts =>
    rcases Bool.eq_false_or_eq_true link.pedcaCtsPending with hp | hp
    · have hevent : pedcaEvent t link (v, .startPedcaCts) = .cts := by
        simp [pedcaEvent, sendsPedcaCts, hp]
      simp only [TxopCall.exec, startPedcaCts_pedca v link hp, hevent]
      exact .send link.pedca hp
    · have hkeep : (startPedcaCts v link).pedca = link.pedca := by
        rw [startPedcaCts, hp]
        simp [QosLinkEntity.pedca, hp]
      simp only [TxopCall.exec, hkeep, pedcaEvent, sendsPedcaCts, hp, Bool.and_false]
      exact .stay link.pedca
  | pedcaSucceeded =>
    rcases Bool.eq_false_or_eq_true link.pedcaMode with hm | hm
    · simp only [TxopCall.exec, pedcaEvent, sendsPedcaCts, resetsPedca, pedcaSucceeded, hm, if_true]
      exact .reset link.pedca
    · simp only [TxopCall.exec, pedcaEvent, sendsPedcaCts, resetsPedca, pedcaSucceeded, hm,
        Bool.false_eq_true, if_false]
      exact .stay link.pedca
  | pedcaFailed =>
    rcases Bool.eq_false_or_eq_true link.pedcaMode with hm | hm
    · simp only [TxopCall.exec, pedcaFailed, hm, if_true]
      exact .fail link.pedca
    · simp only [TxopCall.exec, pedcaFailed, hm, Bool.false_eq_true, if_false]
      exact incrementPedcaTriggerCount_pedcaStep t link hm

/-! ## The invariant and the budget -/

/-- The invariant of the P-EDCA fields. -/
structure PedcaState.Inv (t : PedcaThresholds) (s : PedcaState) : Prop where
  psrc_le : s.psrc ≤ t.psrcThreshold
  pending_mode : s.ctsPending = true → s.mode = true
  pending_afterCts : s.ctsPending = true → s.afterCts = false
  pending_psrc : s.ctsPending = true → s.psrc < t.psrcThreshold
  afterCts_mode : s.afterCts = true → s.mode = true

variable {t : PedcaThresholds} {s s' : PedcaState} {e : PedcaEvent}

theorem PedcaState.inv_init (t : PedcaThresholds) : Inv t ⟨0, 0, false, false, false⟩ where
  psrc_le := by simp [UInt32.le_iff_toNat_le]
  pending_mode := by simp
  pending_afterCts := by simp
  pending_psrc := by simp
  afterCts_mode := by simp

theorem PedcaStep.inv (h : PedcaStep t s e s') (hi : s.Inv t) : s'.Inv t := by
  obtain ⟨hle, hmode, hafter, hlt, hon⟩ := hi
  cases h with
  | stay => exact ⟨hle, hmode, hafter, hlt, hon⟩
  | trigger hoff mode =>
    -- neither flag stands outside P-EDCA mode
    have hp : s.ctsPending = false := by
      by_contra hp
      simp [hmode (by simpa using hp)] at hoff
    have ha : s.afterCts = false := by
      by_contra ha
      simp [hon (by simpa using ha)] at hoff
    exact ⟨hle, by simp [hp], by simp [hp], by simp [hp], by simp [ha]⟩
  | notDue hoff =>
    have hp : s.ctsPending = false := by
      by_contra hp
      simp [hmode (by simpa using hp)] at hoff
    exact ⟨hle, by simp [hp], by simp, by simp [hp], by simp⟩
  | due hpsrc ha =>
    exact ⟨hle, by simp, by simp [ha], fun _ => lt_of_le_of_ne_uint32 hle hpsrc, by simp⟩
  | contend ha => exact ⟨hle, by simp, hafter, hlt, by simp⟩
  | send hp =>
    have hsucc := toNat_succ_of_lt (hlt hp)
    have hlt' := UInt32.lt_iff_toNat_lt.1 (hlt hp)
    refine ⟨?_, by simp, by simp, by simp, fun _ => hmode hp⟩
    rw [UInt32.le_iff_toNat_le, hsucc]
    exact hlt'
  | fail => exact ⟨hle, hmode, by simp, hlt, by simp⟩
  | leave => exact ⟨hle, by simp, by simp, by simp, by simp⟩
  | reset => exact PedcaState.inv_init t

/-- A CTS-to-self raises `psrc` by one, and only a reset lowers it. -/
theorem PedcaStep.cts_add_psrc_le (h : PedcaStep t s e s') (hi : s.Inv t) (he : e ≠ .reset) :
    (decide (e = .cts)).toNat + s.psrc.toNat ≤ s'.psrc.toNat := by
  cases h with
  | send hp =>
    rw [toNat_succ_of_lt (hi.pending_psrc hp)]
    simp [Nat.add_comm]
  | reset => exact absurd rfl he
  | _ => simp

/-- A run of calls on the P-EDCA link of thresholds `t`. -/
abbrev runCalls (t : PedcaThresholds) : QosLinkEntity → List (LinkEnv × TxopCall) → QosLinkEntity :=
  Runs.run (TxopCall.exec t)

theorem inv_exec {link : QosLinkEntity} (i : LinkEnv × TxopCall) (h : link.pedca.Inv t) :
    (TxopCall.exec t link i).pedca.Inv t :=
  (exec_pedcaStep t link i).inv h

/-- From a state of the invariant, a run without a reset sends at most `PsrcThreshold`
CTS-to-self frames. -/
theorem count_sendsPedcaCts_le {link : QosLinkEntity} {bs : List (LinkEnv × TxopCall)}
    (h : link.pedca.Inv t)
    (hbs : Runs.Each (TxopCall.exec t) (fun l i => resetsPedca t l i = false) link bs) :
    Runs.count (TxopCall.exec t) sendsPedcaCts link bs ≤ t.psrcThreshold.toNat := by
  have hstep : ∀ (l : QosLinkEntity) (i : LinkEnv × TxopCall), l.pedca.Inv t →
      resetsPedca t l i = false → (TxopCall.exec t l i).pedca.Inv t ∧
        (sendsPedcaCts l i).toNat + l.psrc.toNat ≤ (TxopCall.exec t l i).psrc.toNat := by
    intro l i hl hr
    refine ⟨inv_exec i hl, ?_⟩
    have hle := (exec_pedcaStep t l i).cts_add_psrc_le hl (by
      unfold pedcaEvent
      split <;> simp [hr])
    have hs : (decide (pedcaEvent t l i = .cts)) = sendsPedcaCts l i := by
      unfold pedcaEvent
      split <;> simp_all
    rwa [hs] at hle
  have hcount := Runs.count_add_le (P := fun l : QosLinkEntity => l.pedca.Inv t)
    (m := fun l => l.psrc.toNat) hstep h hbs
  have hend := (Runs.run_of_step (P := fun l : QosLinkEntity => l.pedca.Inv t)
    (fun _ i => inv_exec i) h bs).psrc_le
  rw [UInt32.le_iff_toNat_le] at hend
  exact le_trans (Nat.le_of_add_right_le hcount) hend

/-- In every run of calls on a fresh link the P-EDCA fields keep their invariant, and from
any state of the run at most `PsrcThreshold` CTS-to-self frames are sent before the next
`ResetPedcaCounters`. -/
theorem pedcaInv_and_budget (t : PedcaThresholds) (base : LinkEntity)
    (as : List (LinkEnv × TxopCall)) :
    Runs.Always (TxopCall.exec t) (fun l => l.pedca.Inv t) (.fresh base) as ∧
      ∀ bs, Runs.Each (TxopCall.exec t) (fun l i => resetsPedca t l i = false)
        (runCalls t (.fresh base) as) bs →
        Runs.count (TxopCall.exec t) sendsPedcaCts (runCalls t (.fresh base) as) bs ≤
          t.psrcThreshold.toNat := by
  have hfresh : (QosLinkEntity.fresh base).pedca.Inv t := PedcaState.inv_init t
  have halways := Runs.always_of_step (P := fun l : QosLinkEntity => l.pedca.Inv t)
    (fun _ i => inv_exec i) hfresh as
  exact ⟨halways, fun bs hbs => count_sendsPedcaCts_le halways.last hbs⟩

end Ns3Pedca
