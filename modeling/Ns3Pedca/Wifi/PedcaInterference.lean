import Ns3Pedca.Wifi.ContentionWindow

/-!
# P-EDCA on links that are not eligible for it

`TransmissionSucceeded` and `TransmissionFailed` of `QosFrameExchangeManager` count
failures and reset counters for every EDCAF, and only `GenerateBackoff` asks whether the
EDCAF is eligible for P-EDCA (`Ineligible` says when it is not). `withoutPedca` takes their
P-EDCA blocks out of a run. `PedcaInert` says that P-EDCA shows nowhere in a run : the mode
stays off and the window and the retry count are those of the run without the blocks.

A run of an EDCAF that is not eligible is inert exactly while it holds fewer failures than
switch the mode on (`pedcaInert_iff`). `pedcaInert_broken` is a best effort EDCAF with two
failures and a group-addressed frame after them.
-/

namespace Ns3Pedca

open QosTxop

/-- The EDCAF is not to use P-EDCA : by attribute, by access category or by PHY. -/
def Ineligible (v : LinkEnv) : Prop :=
  v.attrs.enableUhrPedca = false ∨ v.attrs.ac ≠ .vo ∨ v.phyStandard ≠ some .s80211uhr

instance (v : LinkEnv) : Decidable (Ineligible v) :=
  inferInstanceAs (Decidable (_ ∨ _))

theorem isUhrVo_eq_false_iff {v : LinkEnv} : isUhrVo v = false ↔ Ineligible v := by
  simp only [isUhrVo, Ineligible, Bool.and_eq_false_iff, beq_eq_false_iff_ne, or_assoc]

/-- Whether a call is a P-EDCA block of `TransmissionSucceeded` or `TransmissionFailed`. -/
def isPedcaBlock (i : LinkEnv × TxopCall) : Bool :=
  i.2 == .pedcaSucceeded || i.2 == .pedcaFailed

/-- The same calls with the P-EDCA blocks taken out. -/
def withoutPedca (as : List (LinkEnv × TxopCall)) : List (LinkEnv × TxopCall) :=
  as.filter fun i => !isPedcaBlock i

/-- Number of failed transmissions. -/
def failures (as : List (LinkEnv × TxopCall)) : ℕ :=
  as.countP fun i => i.2 == .pedcaFailed

/-- The mode stays off along `as` from `s`, and the window and the retry count of the link
are at every point those of the run without P-EDCA blocks from `p`. -/
def PedcaInert (t : PedcaThresholds) (s p : QosLinkEntity) (as : List (LinkEnv × TxopCall)) :
    Prop :=
  ∀ n ≤ as.length, (runCalls t s (as.take n)).pedcaMode = false ∧
    (runCalls t s (as.take n)).window = (runCalls t p (withoutPedca (as.take n))).window

section Inert

variable {t : PedcaThresholds} {s p : QosLinkEntity} {as : List (LinkEnv × TxopCall)}

theorem pedcaInert_nil :
    PedcaInert t s p [] ↔ s.pedcaMode = false ∧ s.window = p.window := by
  simp [PedcaInert, withoutPedca]

theorem PedcaInert.mode (h : PedcaInert t s p as) : s.pedcaMode = false := by
  simpa using (h 0 (Nat.zero_le _)).1

theorem pedcaInert_cons {i : LinkEnv × TxopCall} :
    PedcaInert t s p (i :: as) ↔ (s.pedcaMode = false ∧ s.window = p.window) ∧
      PedcaInert t (TxopCall.exec t s i)
        (if isPedcaBlock i then p else TxopCall.exec t p i) as := by
  have hskip : ∀ bs, runCalls t p (withoutPedca (i :: bs)) =
      runCalls t (if isPedcaBlock i then p else TxopCall.exec t p i) (withoutPedca bs) := by
    intro bs
    rcases Bool.eq_false_or_eq_true (isPedcaBlock i) with hb | hb <;>
      simp [withoutPedca, hb]
  constructor
  · intro h
    refine ⟨by simpa [withoutPedca] using h 0 (Nat.zero_le _), fun n hn => ?_⟩
    have hn' := h (n + 1) (by simpa using hn)
    rwa [List.take_succ_cons, hskip] at hn'
  · rintro ⟨h0, h⟩ n hn
    rcases n with _ | n
    · simpa [withoutPedca] using h0
    · rw [List.take_succ_cons, hskip]
      exact h n (by simpa using hn)

end Inert

/-! ## One call of an EDCAF that is not eligible -/

section Step

variable {t : PedcaThresholds} {v : LinkEnv} {link s p : QosLinkEntity}

theorem generateBackoffOf_of_ineligible (hv : Ineligible v) :
    generateBackoffOf t v link = Txop.generateBackoff v.rng v.now link := by
  rw [← isUhrVo_eq_false_iff] at hv
  simp [generateBackoffOf, QosTxop.generateBackoff, hv]

theorem notifyChannelReleasedOf_pedca_of_ineligible (hv : Ineligible v) :
    (notifyChannelReleasedOf t v link).pedca = link.pedca := by
  have hgen : ∀ l : QosLinkEntity, v.attrs.isQosTxop = true →
      QosTxop.generateBackoff t v l = Txop.generateBackoff v.rng v.now l := by
    intro l hq
    rw [← generateBackoffOf_of_ineligible (t := t) hv, generateBackoffOf, if_pos hq]
  unfold notifyChannelReleasedOf
  split
  next hq =>
    simp only [notifyChannelReleased, hgen link hq]
    split <;> rfl
  next hq =>
    rw [txopNotifyChannelReleased, generateBackoffOf_of_ineligible hv]
    rfl

/-- Outside the two blocks, an EDCAF that is not eligible and has no CTS-to-self pending
does not touch the P-EDCA fields. -/
theorem exec_pedca_of_ineligible {i : LinkEnv × TxopCall} (hv : Ineligible i.1)
    (hb : isPedcaBlock i = false) (hp : link.pedcaCtsPending = false) :
    (TxopCall.exec t link i).pedca = link.pedca := by
  rcases i with ⟨v, call⟩
  cases call with
  | generateBackoff =>
    simp only [TxopCall.exec, generateBackoffOf_of_ineligible hv]
    rfl
  | txopNotifyChannelReleased =>
    simp only [TxopCall.exec, txopNotifyChannelReleased, generateBackoffOf_of_ineligible hv]
    rfl
  | notifyChannelReleased => exact notifyChannelReleasedOf_pedca_of_ineligible hv
  | updateFailedCw =>
    simp only [TxopCall.exec, Txop.updateFailedCw]
    split <;> rfl
  | notifyChannelAccessed txopDuration =>
    simp only [TxopCall.exec, notifyChannelAccessedOf]
    split <;> rfl
  | updateRandomTxopLimit =>
    simp only [TxopCall.exec, updateRandomTxopLimit]
    split <;> rfl
  | resetBackoff =>
    simp only [TxopCall.exec, Txop.resetBackoff]
    split <;> rfl
  | startPedcaCts =>
    rw [TxopCall.exec, startPedcaCts, hp]
    simp [QosLinkEntity.pedca, hp]
  | pedcaSucceeded | pedcaFailed => exact absurd hb (by simp [isPedcaBlock])
  | resetCw | notifyAccessRequested | updateBackoffSlotsNow | startBackoffNow => rfl

/-- Outside the two blocks, an EDCAF that is not eligible resets no P-EDCA counter. -/
theorem resetsPedca_of_ineligible {i : LinkEnv × TxopCall} (hv : Ineligible i.1)
    (hb : isPedcaBlock i = false) : resetsPedca t link i = false := by
  rcases i with ⟨v, call⟩
  rw [← isUhrVo_eq_false_iff] at hv
  simp only at hv
  cases call with
  | pedcaSucceeded | pedcaFailed => exact absurd hb (by simp [isPedcaBlock])
  | _ => simp [resetsPedca, backoffResets, hv]

theorem windowAfter_congr {i : LinkEnv × TxopCall} (hs : resetsPedca t s i = false)
    (hp : resetsPedca t p i = false) (hw : s.window = p.window)
    (hparams : s.edcaParams = p.edcaParams) : windowAfter t s i = windowAfter t p i := by
  have hrun := muEdcaTimerRunning_congr i.1.now hparams
  simp only [QosLinkEntity.edcaParams, EdcaParams.mk.injEq] at hparams
  obtain ⟨hcwMin, hcwMax, -, hmuMin, hmuMax, -⟩ := hparams
  have hmin : getMinCw i.1.now s = getMinCw i.1.now p := by
    rw [getMinCw, getMinCw, hrun, hcwMin, hmuMin]
  have hmax : getMaxCw i.1.now s = getMaxCw i.1.now p := by
    rw [getMaxCw, getMaxCw, hrun, hcwMax, hmuMax]
  have hretry : s.staRetryCount = p.staRetryCount := congrArg Prod.snd hw
  rcases i with ⟨v, call⟩
  simp only at hmin hmax
  cases call with
  | resetCw | resetBackoff => simp only [windowAfter, hmin]
  | updateFailedCw =>
    simp only [windowAfter, Txop.updateFailedCw, hretry, hmin, hmax]
    split <;> rfl
  | _ => simp [windowAfter, hs, hp, hw]

end Step

/-! ## Runs -/

/-- The link `s` outside P-EDCA mode, beside the link `p` of the run without the blocks. -/
structure Agrees (s p : QosLinkEntity) : Prop where
  mode : s.pedcaMode = false
  pending : s.pedcaCtsPending = false
  window : s.window = p.window
  params : s.edcaParams = p.edcaParams

section Run

variable {t : PedcaThresholds} {s p : QosLinkEntity} {i : LinkEnv × TxopCall}

theorem Agrees.exec (h : Agrees s p) (hv : Ineligible i.1) (hb : isPedcaBlock i = false) :
    Agrees (TxopCall.exec t s i) (TxopCall.exec t p i) := by
  have hpedca := exec_pedca_of_ineligible (t := t) hv hb h.pending
  refine ⟨(congrArg PedcaState.mode hpedca).trans h.mode,
    (congrArg PedcaState.ctsPending hpedca).trans h.pending, ?_, ?_⟩
  · rw [exec_window, exec_window]
    exact windowAfter_congr (resetsPedca_of_ineligible hv hb) (resetsPedca_of_ineligible hv hb)
      h.window h.params
  · rw [exec_edcaParams, exec_edcaParams, h.params]

/-- While failures are too few to switch the mode on, a failure only counts. -/
theorem Agrees.pedcaFailed (h : Agrees s p) {v : LinkEnv}
    (hlt : s.pedcaTriggerCount.toNat < max 1 t.qsrcThreshold.toNat) :
    let s' := TxopCall.exec t s (v, .pedcaFailed)
    s'.pedcaTriggerCount.toNat = s.pedcaTriggerCount.toNat + 1 ∧
      (s.pedcaTriggerCount.toNat + 1 < max 1 t.qsrcThreshold.toNat → Agrees s' p) ∧
      (max 1 t.qsrcThreshold.toNat ≤ s.pedcaTriggerCount.toNat + 1 → s'.pedcaMode = true) := by
  have hq := t.qsrcThreshold.toNat_lt
  have hsucc : (s.pedcaTriggerCount + 1).toNat = s.pedcaTriggerCount.toNat + 1 := by
    rw [UInt32.toNat_add, UInt32.toNat_one]
    omega
  have hle : t.qsrcThreshold ≤ s.pedcaTriggerCount + 1 ↔
      t.qsrcThreshold.toNat ≤ s.pedcaTriggerCount.toNat + 1 := by
    rw [UInt32.le_iff_toNat_le, hsucc]
  have hfail : TxopCall.exec t s (v, .pedcaFailed) = incrementPedcaTriggerCount t s := by
    simp [TxopCall.exec, QosTxop.pedcaFailed, h.mode]
  simp only [hfail, incrementPedcaTriggerCount, h.mode, hle]
  by_cases hdue : t.qsrcThreshold.toNat ≤ s.pedcaTriggerCount.toNat + 1
  · simp only [hdue, decide_true, Bool.not_false, Bool.and_true, if_true, hsucc, true_and]
    exact ⟨fun _ => by omega, fun _ => trivial⟩
  · simp only [hdue, decide_false, Bool.false_and, Bool.false_eq_true, if_false, hsucc, true_and]
    exact ⟨fun _ => ⟨rfl, h.pending, h.window, h.params⟩, fun hm => by omega⟩

/-- From a link outside P-EDCA mode, a run is inert exactly while the failures counted so
far and those of the run are too few to switch the mode on. -/
theorem Agrees.pedcaInert_iff_failures (as : List (LinkEnv × TxopCall))
    (hv : ∀ i ∈ as, Ineligible i.1) (h : Agrees s p)
    (hlt : s.pedcaTriggerCount.toNat < max 1 t.qsrcThreshold.toNat) :
    PedcaInert t s p as ↔
      s.pedcaTriggerCount.toNat + failures as < max 1 t.qsrcThreshold.toNat := by
  induction as generalizing s p with
  | nil => simpa [pedcaInert_nil, h.mode, h.window, failures] using hlt
  | cons i as ih =>
    obtain ⟨hvi, hvas⟩ := List.forall_mem_cons.1 hv
    rw [pedcaInert_cons, and_iff_right ⟨h.mode, h.window⟩]
    rcases i with ⟨v, call⟩
    by_cases hfail : call = .pedcaFailed
    · subst hfail
      obtain ⟨hcount, hstay, hon⟩ := h.pedcaFailed (v := v) hlt
      have hblock : isPedcaBlock (v, .pedcaFailed) = true := rfl
      have hfailures : failures ((v, .pedcaFailed) :: as) = failures as + 1 := by
        simp [failures]
      rw [if_pos hblock, hfailures]
      by_cases hmore : s.pedcaTriggerCount.toNat + 1 < max 1 t.qsrcThreshold.toNat
      · rw [ih hvas (hstay hmore) (hcount ▸ hmore), hcount]
        omega
      · refine iff_of_false (fun hinert => ?_) (by omega)
        exact absurd hinert.mode (by simp [hon (by omega)])
    · have hfailures : failures ((v, call) :: as) = failures as := by
        simp [failures, hfail]
      rw [hfailures]
      by_cases hsucc : call = .pedcaSucceeded
      · subst hsucc
        have hkeep : TxopCall.exec t s (v, .pedcaSucceeded) = s := by
          simp [TxopCall.exec, pedcaSucceeded, h.mode]
        have hblock : isPedcaBlock (v, .pedcaSucceeded) = true := rfl
        rw [hkeep, if_pos hblock]
        exact ih hvas h hlt
      · have hb : isPedcaBlock (v, call) = false := by simp [isPedcaBlock, hfail, hsucc]
        have hpedca := exec_pedca_of_ineligible (t := t) hvi hb h.pending
        have htrig : (TxopCall.exec t s (v, call)).pedcaTriggerCount = s.pedcaTriggerCount :=
          congrArg PedcaState.triggerCount hpedca
        rw [if_neg (by simp [hb]), ih hvas (h.exec hvi hb) (by rw [htrig]; exact hlt), htrig]

end Run

/-- On an EDCAF that is not eligible P-EDCA shows nowhere in a run exactly if the run holds
fewer failures than switch the mode on. -/
theorem pedcaInert_iff (t : PedcaThresholds) (base : LinkEntity)
    (as : List (LinkEnv × TxopCall)) (hv : ∀ i ∈ as, Ineligible i.1) :
    PedcaInert t (.fresh base) (.fresh base) as ↔ failures as < max 1 t.qsrcThreshold.toNat := by
  have h : Agrees (.fresh base) (.fresh base) := ⟨rfl, rfl, rfl, rfl⟩
  rw [h.pedcaInert_iff_failures as hv (by simp [QosLinkEntity.fresh])]
  simp [QosLinkEntity.fresh]

/-- A best effort EDCAF of a UHR station, `us` microseconds into the simulation. -/
def bestEffortEnv (us : ℤ) : LinkEnv :=
  { attrs := { ac := .be }, phyStandard := some .s80211uhr, now := microSeconds us }

/-- Two failed exchanges of a best effort EDCAF, then a group-addressed frame. -/
def groupcastAfterFailures : List (LinkEnv × TxopCall) :=
  [(bestEffortEnv 0, .resetCw), (bestEffortEnv 100, .notifyChannelAccessed 0),
    (bestEffortEnv 200, .pedcaFailed), (bestEffortEnv 200, .updateFailedCw),
    (bestEffortEnv 200, .notifyChannelReleased), (bestEffortEnv 300, .notifyChannelAccessed 0),
    (bestEffortEnv 400, .pedcaFailed), (bestEffortEnv 400, .updateFailedCw),
    (bestEffortEnv 400, .notifyChannelReleased), (bestEffortEnv 500, .notifyChannelAccessed 0),
    (bestEffortEnv 600, .pedcaSucceeded), (bestEffortEnv 600, .notifyChannelReleased)]

theorem pedcaInert_oneFailure :
    PedcaInert {} (.fresh { cwMin := 15, cwMax := 1023 }) (.fresh { cwMin := 15, cwMax := 1023 })
      (groupcastAfterFailures.take 5) :=
  (pedcaInert_iff {} { cwMin := 15, cwMax := 1023 } (groupcastAfterFailures.take 5)
    (by decide)).2 (by decide)

/-- After the group-addressed frame the retry count is 0 with P-EDCA and 2 without it. -/
theorem pedcaInert_broken :
    (∀ i ∈ groupcastAfterFailures, Ineligible i.1) ∧
      ¬PedcaInert {} (.fresh { cwMin := 15, cwMax := 1023 })
        (.fresh { cwMin := 15, cwMax := 1023 }) groupcastAfterFailures ∧
      (runCalls {} (.fresh { cwMin := 15, cwMax := 1023 }) groupcastAfterFailures).window =
        (63, 0) ∧
      (runCalls {} (.fresh { cwMin := 15, cwMax := 1023 })
        (withoutPedca groupcastAfterFailures)).window = (63, 2) := by
  refine ⟨by decide, fun h => ?_, by decide, by decide⟩
  exact absurd (h 12 (by decide)).2 (by decide)

end Ns3Pedca
