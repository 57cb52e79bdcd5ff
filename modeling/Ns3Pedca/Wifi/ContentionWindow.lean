import Ns3Pedca.Wifi.PedcaBudget

/-!
# The contention window and the retry count

`cw` and `staRetryCount` of a link are written together by `ResetCw` and `UpdateFailedCw`,
and `staRetryCount` alone by `ResetPedcaCounters`. `exec_window` says what any call does to
the pair, `exec_edcaParams` that no call touches the parameters they are computed from.

`CwInStep` is the rule quoted in `UpdateFailedCw` : `cw` is CWmax or
`2^staRetryCount * (CWmin + 1) - 1`, whichever is less. A run keeps it exactly when its
steps are as `KeepsCwInStep` says (`cwInStep_of_each`), and a step that resets the P-EDCA
counters does only if the window stands at CWmin. `cwInStep_broken` is a voice link with
default thresholds on which the budget of CTS-to-self frames runs out. `setsExactCw_iff` is
about a single retry, for all bounds and counts.
-/

namespace Ns3Pedca

open QosTxop

/-! ## Parameters -/

/-- The EDCA and MU EDCA parameters of a link. -/
structure EdcaParams where
  cwMin : UInt32
  cwMax : UInt32
  aifsn : UInt8
  muCwMin : UInt32
  muCwMax : UInt32
  muAifsn : UInt8
  muEdcaTimer : Time
  muEdcaTimerStartTime : Time

/-- The EDCA and MU EDCA parameters of `link`. -/
def QosLinkEntity.edcaParams (link : QosLinkEntity) : EdcaParams where
  cwMin := link.cwMin
  cwMax := link.cwMax
  aifsn := link.aifsn
  muCwMin := link.muCwMin
  muCwMax := link.muCwMax
  muAifsn := link.muAifsn
  muEdcaTimer := link.muEdcaTimer
  muEdcaTimerStartTime := link.muEdcaTimerStartTime

section Params

variable (t : PedcaThresholds) (v : LinkEnv) (link : QosLinkEntity)

theorem generateBackoff_edcaParams :
    (QosTxop.generateBackoff t v link).edcaParams = link.edcaParams := by
  have hout := generateBackoff_outcome t v link
  generalize QosTxop.generateBackoff t v link = link' at hout ⊢
  cases hout <;> rfl

theorem generateBackoffOf_edcaParams :
    (generateBackoffOf t v link).edcaParams = link.edcaParams := by
  unfold generateBackoffOf
  split
  · exact generateBackoff_edcaParams t v link
  · rfl

theorem notifyChannelReleasedOf_edcaParams :
    (notifyChannelReleasedOf t v link).edcaParams = link.edcaParams := by
  unfold notifyChannelReleasedOf
  split
  · simp only [notifyChannelReleased]
    split
    · exact generateBackoff_edcaParams t v link
    · rfl
  · exact generateBackoffOf_edcaParams t v { link with access := .notRequested }

/-- No call changes the parameters of its link. -/
theorem exec_edcaParams (i : LinkEnv × TxopCall) :
    (TxopCall.exec t link i).edcaParams = link.edcaParams := by
  rcases i with ⟨v, call⟩
  cases call with
  | generateBackoff => exact generateBackoffOf_edcaParams t v link
  | txopNotifyChannelReleased =>
    exact generateBackoffOf_edcaParams t v { link with access := .notRequested }
  | notifyChannelReleased => exact notifyChannelReleasedOf_edcaParams t v link
  | updateFailedCw =>
    simp only [TxopCall.exec, Txop.updateFailedCw]
    split <;> rfl
  | notifyChannelAccessed txopDuration =>
    simp only [TxopCall.exec, notifyChannelAccessedOf]
    split <;> rfl
  | updateRandomTxopLimit =>
    simp only [TxopCall.exec, updateRandomTxopLimit]
    split <;> rfl
  | resetBackoff =>
    simp only [TxopCall.exec, Txop.resetBackoff]
    split <;> rfl
  | startPedcaCts =>
    simp only [TxopCall.exec, startPedcaCts, sendPedcaCts, notifyChannelAccessedOf]
    split
    · split <;> rfl
    · rfl
  | pedcaSucceeded =>
    simp only [TxopCall.exec, pedcaSucceeded]
    split <;> rfl
  | pedcaFailed =>
    simp only [TxopCall.exec, pedcaFailed, incrementPedcaTriggerCount]
    split
    · rfl
    · split <;> rfl
  | resetCw | notifyAccessRequested | updateBackoffSlotsNow | startBackoffNow => rfl

theorem run_edcaParams (as : List (LinkEnv × TxopCall)) :
    (runCalls t link as).edcaParams = link.edcaParams :=
  Runs.run_of_step (P := fun l : QosLinkEntity => l.edcaParams = link.edcaParams)
    (fun l i h => (exec_edcaParams t l i).trans h) rfl as

end Params

/-! ## The window -/

/-- The contention window of a link and the retry count it belongs to. -/
def QosLinkEntity.window (link : QosLinkEntity) : UInt32 × ℕ :=
  (link.cw, link.staRetryCount)

/-- What a call makes of the window and the retry count. -/
def windowAfter (t : PedcaThresholds) (link : QosLinkEntity) (i : LinkEnv × TxopCall) :
    UInt32 × ℕ :=
  match i.2 with
  | .resetCw => (getMinCw i.1.now link, 0)
  | .resetBackoff => (getMinCw i.1.now link, 0)
  | .updateFailedCw => (Txop.updateFailedCw i.1.mac i.1.now link).window
  | _ => if resetsPedca t link i then (link.cw, 0) else link.window

/-- A call that does not write the window itself leaves it to P-EDCA. -/
theorem windowAfter_eq (t : PedcaThresholds) (link : QosLinkEntity) (i : LinkEnv × TxopCall)
    (hi : i.2 ≠ .resetCw ∧ i.2 ≠ .resetBackoff ∧ i.2 ≠ .updateFailedCw) :
    windowAfter t link i = if resetsPedca t link i then (link.cw, 0) else link.window := by
  rcases i with ⟨v, call⟩
  obtain ⟨h₁, h₂, h₃⟩ := hi
  cases call with
  | resetCw => exact absurd rfl h₁
  | resetBackoff => exact absurd rfl h₂
  | updateFailedCw => exact absurd rfl h₃
  | _ => rfl

section Window

variable (t : PedcaThresholds) (v : LinkEnv) (link : QosLinkEntity)

theorem generateBackoff_window : (QosTxop.generateBackoff t v link).window =
    if backoffResets t v link then (link.cw, 0) else link.window := by
  have hout := generateBackoff_outcome t v link
  generalize QosTxop.generateBackoff t v link = link' at hout ⊢
  cases hout with
  | budgetSpent h ho hdue hpsrc =>
    rw [if_pos (by simpa [backoffResets, h, ho, hpsrc] using hdue)]
    rfl
  | ineligible h =>
    rw [if_neg (by simp [backoffResets, h])]
    rfl
  | otherLink h ho =>
    rw [if_neg (by simp [backoffResets, ho])]
    rfl
  | afterCts h ho hdue hpsrc hafter | sendCts h ho hdue hpsrc hafter =>
    rw [if_neg (by simp [backoffResets, hpsrc])]
    rfl
  | notDue h ho htrig hmode =>
    rw [if_neg (by simp [backoffResets, htrig, hmode])]
    rfl

theorem generateBackoffOf_window : (generateBackoffOf t v link).window =
    if v.attrs.isQosTxop && backoffResets t v link then (link.cw, 0) else link.window := by
  rcases Bool.eq_false_or_eq_true v.attrs.isQosTxop with hq | hq
  · rw [generateBackoffOf, if_pos hq, hq, Bool.true_and]
    exact generateBackoff_window t v link
  · rw [generateBackoffOf, hq, Bool.false_and]
    rfl

theorem notifyChannelReleasedOf_window : (notifyChannelReleasedOf t v link).window =
    if v.attrs.isQosTxop && backoffOnRelease v link && backoffResets t v link then (link.cw, 0)
    else link.window := by
  rcases Bool.eq_false_or_eq_true v.attrs.isQosTxop with hq | hq
  · rw [notifyChannelReleasedOf, if_pos hq, notifyChannelReleased, hq, Bool.true_and]
    rcases Bool.eq_false_or_eq_true (backoffOnRelease v link) with hb | hb
    · rw [if_pos hb, hb, Bool.true_and]
      exact generateBackoff_window t v link
    · rw [hb, Bool.false_and]
      rfl
  · rw [notifyChannelReleasedOf, hq, Bool.false_and, Bool.false_and, txopNotifyChannelReleased,
      generateBackoffOf, hq]
    rfl

/-- What a call does to the window and the retry count. -/
theorem exec_window (i : LinkEnv × TxopCall) :
    (TxopCall.exec t link i).window = windowAfter t link i := by
  rcases i with ⟨v, call⟩
  cases call with
  | generateBackoff => exact generateBackoffOf_window t v link
  | txopNotifyChannelReleased =>
    exact generateBackoffOf_window t v { link with access := .notRequested }
  | notifyChannelReleased => exact notifyChannelReleasedOf_window t v link
  | notifyChannelAccessed txopDuration =>
    simp only [TxopCall.exec, notifyChannelAccessedOf]
    split <;> rfl
  | updateRandomTxopLimit =>
    simp only [TxopCall.exec, updateRandomTxopLimit]
    split <;> rfl
  | resetBackoff =>
    simp only [TxopCall.exec, Txop.resetBackoff]
    split <;> rfl
  | startPedcaCts =>
    simp only [TxopCall.exec, startPedcaCts, sendPedcaCts, notifyChannelAccessedOf]
    split
    · split <;> rfl
    · rfl
  | pedcaSucceeded =>
    have hr : resetsPedca t link (v, .pedcaSucceeded) = link.pedcaMode := rfl
    simp only [TxopCall.exec, pedcaSucceeded, windowAfter, hr]
    split <;> rfl
  | pedcaFailed =>
    simp only [TxopCall.exec, pedcaFailed, incrementPedcaTriggerCount]
    split
    · rfl
    · split <;> rfl
  | resetCw | notifyAccessRequested | updateBackoffSlotsNow | startBackoffNow
  | updateFailedCw => rfl

end Window

/-! ## The rule -/

/-- `cw` is CWmax or `2^staRetryCount * (CWmin + 1) - 1`, whichever is less. -/
def CwInStep (link : QosLinkEntity) : Prop :=
  link.cw.toNat = min link.cwMax.toNat (2 ^ link.staRetryCount * (link.cwMin.toNat + 1) - 1)

instance (link : QosLinkEntity) : Decidable (CwInStep link) :=
  inferInstanceAs (Decidable (_ = _))

/-- `2^n * (CWmin + 1) - 1` fits 32 bits, or its low 32 bits still reach CWmax. -/
def WindowFits (link : QosLinkEntity) (n : ℕ) : Prop :=
  2 ^ n * (link.cwMin.toNat + 1) ≤ 2 ^ 32 ∨
    link.cwMax.toNat ≤ (2 ^ n * (link.cwMin.toNat + 1) - 1) % 2 ^ 32

instance (link : QosLinkEntity) (n : ℕ) : Decidable (WindowFits link n) :=
  inferInstanceAs (Decidable (_ ∨ _))

/-- What keeps a call in step : a retry does not shift past 31 bits and its window fits, and
the counters of P-EDCA are reset only while the window stands at CWmin. -/
def KeepsCwInStep (t : PedcaThresholds) (link : QosLinkEntity) (i : LinkEnv × TxopCall) : Prop :=
  (i.2 = .updateFailedCw → link.staRetryCount < i.1.mac.frameRetryLimit.toNat →
    link.staRetryCount + 1 < 32 ∧ WindowFits link (link.staRetryCount + 1)) ∧
  (resetsPedca t link i = true → link.cw = link.cwMin)

instance (t : PedcaThresholds) (link : QosLinkEntity) (i : LinkEnv × TxopCall) :
    Decidable (KeepsCwInStep t link i) :=
  inferInstanceAs (Decidable (_ ∧ _))

section Rule

variable {t : PedcaThresholds} {v : LinkEnv} {link : QosLinkEntity}

theorem cwInStep_of_window {w : UInt32 × ℕ} (hw : link.window = w) : CwInStep link ↔
    w.1.toNat = min link.cwMax.toNat (2 ^ w.2 * (link.cwMin.toNat + 1) - 1) := by
  subst hw
  rfl

/-- At a retry count of zero the rule asks for CWmin. -/
theorem cwInStep_of_window_zero {cw : UInt32} (hle : link.cwMin ≤ link.cwMax)
    (hw : link.window = (cw, 0)) : CwInStep link ↔ cw = link.cwMin := by
  rw [UInt32.le_iff_toNat_le] at hle
  rw [cwInStep_of_window hw, ← UInt32.toNat_inj]
  simp [hle]

theorem shiftOne_window_toNat (mac : MacConfig) (w : UInt32) {n : ℕ} (hn : n < 32) :
    (mac.shiftOne n * (w + 1) - 1).toNat = (2 ^ n * (w.toNat + 1) - 1) % 2 ^ 32 := by
  have hpow : 2 ^ n < 2 ^ 32 := Nat.pow_lt_pow_right (by norm_num) hn
  have hpos : 1 ≤ 2 ^ n * (w.toNat + 1) := Nat.mul_pos (by positivity) (by omega)
  have hshift : (mac.shiftOne n).toNat = 2 ^ n := by
    rw [MacConfig.shiftOne, if_pos hn, UInt32.toNat_ofNat_of_lt' hpow]
  rw [UInt32.toNat_sub, UInt32.toNat_mul, UInt32.toNat_add, hshift, UInt32.toNat_one,
    Nat.mul_mod_mod]
  omega

/-- A retry is in step exactly if its window fits. -/
theorem min_window_eq_iff (n : ℕ) (link : QosLinkEntity) :
    min link.cwMax.toNat ((2 ^ n * (link.cwMin.toNat + 1) - 1) % 2 ^ 32) =
        min link.cwMax.toNat (2 ^ n * (link.cwMin.toNat + 1) - 1) ↔ WindowFits link n := by
  have hmax := link.cwMax.toNat_lt
  have hpos : 1 ≤ 2 ^ n * (link.cwMin.toNat + 1) := Nat.mul_pos (by positivity) (by omega)
  unfold WindowFits
  generalize 2 ^ n * (link.cwMin.toNat + 1) = x at hpos ⊢
  omega

theorem cwInStep_updateFailedCw (hmu : muEdcaTimerRunning v.now link = false)
    (hle : link.cwMin ≤ link.cwMax) (hn : link.staRetryCount < v.mac.frameRetryLimit.toNat →
      link.staRetryCount + 1 < 32) :
    CwInStep (Txop.updateFailedCw v.mac v.now link) ↔
      (link.staRetryCount < v.mac.frameRetryLimit.toNat →
        WindowFits link (link.staRetryCount + 1)) := by
  by_cases hr : link.staRetryCount < v.mac.frameRetryLimit.toNat
  · rw [forall_prop_of_true hr, ← min_window_eq_iff,
      ← shiftOne_window_toNat v.mac link.cwMin (hn hr), ← uint32_toNat_min]
    simp [CwInStep, Txop.updateFailedCw, hr, getMaxCw, getMinCw, hmu]
  · have hw : (Txop.updateFailedCw v.mac v.now link).window = (link.cwMin, 0) := by
      simp [QosLinkEntity.window, Txop.updateFailedCw, hr, getMinCw, hmu]
    have hp := exec_edcaParams {} link (v, .updateFailedCw)
    simp only [TxopCall.exec, QosLinkEntity.edcaParams, EdcaParams.mk.injEq] at hp
    rw [cwInStep_of_window_zero (by rw [hp.1, hp.2.1]; exact hle) hw, hp.1]
    simp [hr]

/-- A call that leaves the window to P-EDCA keeps in step unless it resets the counters at
another window than CWmin. -/
theorem cwInStep_of_resetsPedca {link' : QosLinkEntity} (i : LinkEnv × TxopCall)
    (hp : link'.edcaParams = link.edcaParams) (hle : link.cwMin ≤ link.cwMax)
    (hin : CwInStep link)
    (hw : link'.window = if resetsPedca t link i then (link.cw, 0) else link.window) :
    CwInStep link' ↔ (resetsPedca t link i = true → link.cw = link.cwMin) := by
  simp only [QosLinkEntity.edcaParams, EdcaParams.mk.injEq] at hp
  split at hw
  next hr =>
    rw [cwInStep_of_window_zero (by rw [hp.1, hp.2.1]; exact hle) hw, hp.1]
    simp [hr]
  next hr =>
    rw [cwInStep_of_window hw, hp.1, hp.2.1]
    simp only [hr, Bool.false_eq_true, false_imp_iff, iff_true]
    exact hin

/-- A step from a state in step, with no undefined shift, ends in step exactly if it is as
`KeepsCwInStep` says. -/
theorem cwInStep_exec {i : LinkEnv × TxopCall} (hmu : muEdcaTimerRunning i.1.now link = false)
    (hn : i.2 = .updateFailedCw → link.staRetryCount < i.1.mac.frameRetryLimit.toNat →
      link.staRetryCount + 1 < 32)
    (hle : link.cwMin ≤ link.cwMax) (hin : CwInStep link) :
    CwInStep (TxopCall.exec t link i) ↔ KeepsCwInStep t link i := by
  have hp := exec_edcaParams t link i
  have hw := exec_window t link i
  rcases i with ⟨v, call⟩
  simp only at hmu hn
  have hmin : ∀ link' : QosLinkEntity, link'.edcaParams = link.edcaParams →
      link'.window = (getMinCw v.now link, 0) → CwInStep link' := by
    intro link' hp' hw'
    simp only [QosLinkEntity.edcaParams, EdcaParams.mk.injEq] at hp'
    refine (cwInStep_of_window_zero (by rw [hp'.1, hp'.2.1]; exact hle) hw').2 ?_
    simp [getMinCw, hmu, hp'.1]
  cases call with
  | resetCw | resetBackoff => simp [KeepsCwInStep, resetsPedca, hmin _ hp hw]
  | updateFailedCw =>
    refine (cwInStep_updateFailedCw hmu hle (hn rfl)).trans ?_
    simp only [KeepsCwInStep, resetsPedca, Bool.false_eq_true, false_imp_iff, and_true,
      true_imp_iff]
    exact ⟨fun h hr => ⟨hn rfl hr, h hr⟩, fun h hr => (h hr).2⟩
  | _ =>
    rw [cwInStep_of_resetsPedca _ hp hle hin (hw.trans (windowAfter_eq t link _ (by simp)))]
    simp [KeepsCwInStep]

/-- A link after `Txop::DoInitialize`. -/
def doInitialize (t : PedcaThresholds) (v : LinkEnv) (link : QosLinkEntity) : QosLinkEntity :=
  generateBackoffOf t v (Txop.resetCw v.now link)

theorem muEdcaTimerRunning_congr {link' : QosLinkEntity} (now : Time)
    (hp : link'.edcaParams = link.edcaParams) :
    muEdcaTimerRunning now link' = muEdcaTimerRunning now link := by
  simp only [QosLinkEntity.edcaParams, EdcaParams.mk.injEq] at hp
  obtain ⟨-, -, -, -, -, -, htimer, hstart⟩ := hp
  rw [muEdcaTimerRunning, muEdcaTimerRunning, htimer, hstart]

theorem doInitialize_edcaParams (t : PedcaThresholds) (v : LinkEnv) (link : QosLinkEntity) :
    (doInitialize t v link).edcaParams = link.edcaParams :=
  generateBackoffOf_edcaParams t v (Txop.resetCw v.now link)

theorem doInitialize_window (t : PedcaThresholds) (hmu : muEdcaTimerRunning v.now link = false) :
    (doInitialize t v link).window = (link.cwMin, 0) := by
  rw [doInitialize, generateBackoffOf_window]
  have hcw : (Txop.resetCw v.now link).cw = link.cwMin := by
    simp [Txop.resetCw, getMinCw, hmu]
  split
  · rw [hcw]
  · rw [QosLinkEntity.window, hcw]
    rfl

end Rule

/-- On a link whose MU EDCA timer does not run, the window and the retry count stay in step
from initialization on if CWmin is at most CWmax and every step is as `KeepsCwInStep` says,
and only then as long as no step shifts past 31 bits. -/
theorem cwInStep_of_each (t : PedcaThresholds) (link : QosLinkEntity) (v : LinkEnv)
    (as : List (LinkEnv × TxopCall)) (hmu₀ : muEdcaTimerRunning v.now link = false)
    (hmu : ∀ i ∈ as, muEdcaTimerRunning i.1.now link = false) :
    (link.cwMin ≤ link.cwMax →
        Runs.Each (TxopCall.exec t) (KeepsCwInStep t) (doInitialize t v link) as →
        Runs.Always (TxopCall.exec t) CwInStep (doInitialize t v link) as) ∧
      ((∀ i ∈ as, i.1.mac.frameRetryLimit < 32) →
        Runs.Always (TxopCall.exec t) CwInStep (doInitialize t v link) as →
        link.cwMin ≤ link.cwMax ∧
          Runs.Each (TxopCall.exec t) (KeepsCwInStep t) (doInitialize t v link) as) := by
  have hp₀ := doInitialize_edcaParams t v link
  have hw₀ := doInitialize_window t hmu₀
  have hrun : ∀ {l : QosLinkEntity} {i : LinkEnv × TxopCall}, l.edcaParams = link.edcaParams →
      muEdcaTimerRunning i.1.now link = false → muEdcaTimerRunning i.1.now l = false :=
    fun hp h => (muEdcaTimerRunning_congr _ hp).trans h
  have hkeep : ∀ (l : QosLinkEntity) i, l.edcaParams = link.edcaParams →
      (TxopCall.exec t l i).edcaParams = link.edcaParams :=
    fun l i hp => (exec_edcaParams t l i).trans hp
  have hle : ∀ {l : QosLinkEntity}, l.edcaParams = link.edcaParams →
      link.cwMin ≤ link.cwMax → l.cwMin ≤ l.cwMax := by
    intro l hp h
    simp only [QosLinkEntity.edcaParams, EdcaParams.mk.injEq] at hp
    rw [hp.1, hp.2.1]
    exact h
  have hcwMin : (doInitialize t v link).cwMin = link.cwMin := congrArg EdcaParams.cwMin hp₀
  have hcwMax : (doInitialize t v link).cwMax = link.cwMax := congrArg EdcaParams.cwMax hp₀
  constructor
  · intro hb heach
    have hstep : ∀ (l : QosLinkEntity) i, l.edcaParams = link.edcaParams ∧ CwInStep l →
        KeepsCwInStep t l i ∧ muEdcaTimerRunning i.1.now link = false →
        (TxopCall.exec t l i).edcaParams = link.edcaParams ∧ CwInStep (TxopCall.exec t l i) :=
      fun l i h hok => ⟨hkeep l i h.1, (cwInStep_exec (hrun h.1 hok.2)
        (fun hc hr => (hok.1.1 hc hr).1) (hle h.1 hb) h.2).2 hok.1⟩
    have hin₀ : CwInStep (doInitialize t v link) :=
      (cwInStep_of_window_zero (hle hp₀ hb) hw₀).2 hcwMin.symm
    exact ((heach.and_of_mem hmu).always hstep ⟨hp₀, hin₀⟩).mono fun _ h => h.2
  · intro hlimit halways
    have hin₀ := halways.first
    have hb : link.cwMin ≤ link.cwMax := by
      rw [cwInStep_of_window hw₀, hcwMin, hcwMax] at hin₀
      rw [UInt32.le_iff_toNat_le]
      simp only [pow_zero, one_mul, Nat.add_sub_cancel] at hin₀
      omega
    refine ⟨hb, (Runs.always_iff_each (I := fun l => l.edcaParams = link.edcaParams)
      (D := fun i : LinkEnv × TxopCall => i.1.mac.frameRetryLimit < 32 ∧
        muEdcaTimerRunning i.1.now link = false)
      hkeep (fun l i hD hp hin => ?_) (fun i hi => ⟨hlimit i hi, hmu i hi⟩) hp₀ hin₀).1 halways⟩
    refine cwInStep_exec (hrun hp hD.2) (fun _ hr => ?_) (hle hp hb) hin
    have := UInt32.lt_iff_toNat_lt.1 hD.1
    simp only [UInt32.reduceToNat] at this
    omega

/-- A voice link with its default parameters. -/
def voiceLink : QosLinkEntity :=
  { QosLinkEntity.fresh { cwMin := 3, cwMax := 7, aifsn := 2 } with }

/-- A voice EDCAF of a UHR station, `us` microseconds into the simulation. -/
def voiceEnv (us : ℤ) : LinkEnv :=
  { phyStandard := some .s80211uhr, now := microSeconds us }

/-- Two failed exchanges, and two CTS-to-self frames with a failed data attempt between
them. -/
def voiceBudgetSpent : List (LinkEnv × TxopCall) :=
  [(voiceEnv 100, .notifyChannelAccessed 0), (voiceEnv 200, .pedcaFailed),
    (voiceEnv 200, .updateFailedCw), (voiceEnv 200, .notifyChannelReleased),
    (voiceEnv 300, .notifyChannelAccessed 0), (voiceEnv 400, .pedcaFailed),
    (voiceEnv 400, .updateFailedCw), (voiceEnv 400, .notifyChannelReleased),
    (voiceEnv 500, .startPedcaCts), (voiceEnv 550, .notifyChannelReleased),
    (voiceEnv 600, .notifyChannelAccessed 0), (voiceEnv 700, .pedcaFailed),
    (voiceEnv 700, .updateFailedCw), (voiceEnv 700, .notifyChannelReleased),
    (voiceEnv 800, .startPedcaCts), (voiceEnv 850, .notifyChannelReleased)]

theorem cwInStep_of_each_voice :
    Runs.Always (TxopCall.exec {}) CwInStep (doInitialize {} (voiceEnv 1) voiceLink)
      (voiceBudgetSpent.take 14) :=
  (cwInStep_of_each {} voiceLink (voiceEnv 1) (voiceBudgetSpent.take 14) (by decide)
    (by decide)).1 (by decide) (by decide)

/-- Once the budget is spent the retry count of the voice link is 0 and its window is 7. -/
theorem cwInStep_broken :
    ¬Runs.Always (TxopCall.exec {}) CwInStep (doInitialize {} (voiceEnv 1) voiceLink)
      voiceBudgetSpent :=
  fun h => absurd h.last (by decide)

/-! ## One retry -/

/-- A link with the bounds that `GetMinCw` and `GetMaxCw` return. -/
def QosLinkEntity.inForce (now : Time) (link : QosLinkEntity) : QosLinkEntity :=
  { link with cwMin := getMinCw now link, cwMax := getMaxCw now link }

/-- `UpdateFailedCw` shifts by less than the 32 bits of an `int`, and sets `cw` to CWmax or
`2^(staRetryCount + 1) * (CWmin + 1) - 1`, whichever is less. -/
def SetsExactCw (mac : MacConfig) (now : Time) (link : QosLinkEntity) : Prop :=
  link.staRetryCount + 1 < 32 ∧
    (Txop.updateFailedCw mac now link).cw.toNat = min (getMaxCw now link).toNat
      (2 ^ (link.staRetryCount + 1) * ((getMinCw now link).toNat + 1) - 1)

/-- A retry below the limit is exact if and only if its shift is in range and its window
fits. -/
theorem setsExactCw_iff (mac : MacConfig) (now : Time) (link : QosLinkEntity)
    (hr : link.staRetryCount < mac.frameRetryLimit.toNat) :
    SetsExactCw mac now link ↔ link.staRetryCount + 1 < 32 ∧
      WindowFits (link.inForce now) (link.staRetryCount + 1) := by
  refine and_congr_right fun hn => ?_
  have hcw : (Txop.updateFailedCw mac now link).cw = min (getMaxCw now link)
      (mac.shiftOne (link.staRetryCount + 1) * (getMinCw now link + 1) - 1) := by
    rw [Txop.updateFailedCw, if_pos hr]
  rw [hcw, uint32_toNat_min, shiftOne_window_toNat mac _ hn]
  exact min_window_eq_iff _ (link.inForce now)

/-- The first retry of a voice link. -/
theorem setsExactCw_voice : SetsExactCw {} 0 voiceLink :=
  (setsExactCw_iff {} 0 voiceLink (by decide)).2 (by decide)

/-- At the seventh retry `2^7 * (CWmin + 1)` is `2^32 + 128` for a CWmin of `2^25`, and `cw` is
127. -/
theorem not_setsExactCw : ¬∀ (mac : MacConfig) (now : Time) (link : QosLinkEntity),
    1 ≤ mac.frameRetryLimit → mac.frameRetryLimit ≤ 65535 → getMinCw now link ≤ getMaxCw now link →
      link.staRetryCount < mac.frameRetryLimit.toNat → SetsExactCw mac now link := by
  intro h
  have hexact := (h {} 0 { cwMin := 2 ^ 25, cwMax := 2 ^ 26, staRetryCount := 6 } (by decide)
    (by decide) (by decide) (by decide)).2
  exact absurd hexact (by decide)

end Ns3Pedca
