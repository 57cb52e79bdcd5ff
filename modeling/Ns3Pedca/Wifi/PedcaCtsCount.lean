import Ns3Pedca.Wifi.PedcaBudget

/-!
# The count of CTS-to-self frames

`pedcaCtsAttempts` of a link is raised when a zero backoff is generated, and the CTS-to-self is sent
later. It equals the number of CTS-to-self frames sent and the one that is pending exactly as long
as no backoff is generated for a CTS-to-self while one is pending, none that is pending is dropped,
and the counter does not wrap (`ctsCounted_iff`). A frame enqueued while the medium is busy is
enough to count one CTS-to-self twice (`not_ctsCounted`).
-/

namespace Ns3Pedca

open QosTxop

/-! ## What a call does to the count -/

/-- `QosTxop::GenerateBackoff` is reached by a call. -/
def generatesBackoff (link : QosLinkEntity) (i : LinkEnv × TxopCall) : Bool :=
  match i.2 with
  | .generateBackoff => i.1.attrs.isQosTxop
  | .txopNotifyChannelReleased => i.1.attrs.isQosTxop
  | .notifyChannelReleased => i.1.attrs.isQosTxop && backoffOnRelease i.1 link
  | _ => false

/-- `GenerateBackoff` calls `GenerateUhrVoBackoff`. -/
def backoffForCts (t : PedcaThresholds) (v : LinkEnv) (link : QosLinkEntity) : Bool :=
  isUhrVo v && !pedcaOnOtherLink v &&
    (t.qsrcThreshold ≤ link.pedcaTriggerCount || link.pedcaMode) &&
    link.psrc != t.psrcThreshold && !link.pedcaAfterCts

/-- A call makes a CTS-to-self pending. -/
def pendsCts (t : PedcaThresholds) (link : QosLinkEntity) (i : LinkEnv × TxopCall) : Bool :=
  generatesBackoff link i && backoffForCts t i.1 link

/-- A call leaves no CTS-to-self pending and sends none : the counters are reset, or P-EDCA is left
to another link. -/
def dropsCts (t : PedcaThresholds) (link : QosLinkEntity) (i : LinkEnv × TxopCall) : Bool :=
  resetsPedca t link i || generatesBackoff link i && (isUhrVo i.1 && pedcaOnOtherLink i.1)

/-- The count and the pending CTS-to-self of a link. -/
def QosLinkEntity.cts (link : QosLinkEntity) : UInt32 × Bool :=
  (link.pedcaCtsAttempts, link.pedcaCtsPending)

/-- What a call makes of them. -/
def ctsAfter (t : PedcaThresholds) (link : QosLinkEntity) (i : LinkEnv × TxopCall) :
    UInt32 × Bool :=
  if pendsCts t link i then (link.pedcaCtsAttempts + 1, true)
  else if dropsCts t link i || sendsPedcaCts link i then (link.pedcaCtsAttempts, false)
  else link.cts

theorem ctsAfter_of_ne {t : PedcaThresholds} {link : QosLinkEntity} {i : LinkEnv × TxopCall}
    (h : i.2 ≠ .startPedcaCts) : ctsAfter t link i =
      if pendsCts t link i then (link.pedcaCtsAttempts + 1, true)
      else if dropsCts t link i then (link.pedcaCtsAttempts, false)
      else link.cts := by
  have hsends : sendsPedcaCts link i = false := by
    rw [sendsPedcaCts, beq_eq_false_iff_ne.2 h, Bool.false_and]
  rw [ctsAfter, hsends, Bool.or_false]

section Calls

variable (t : PedcaThresholds) (v : LinkEnv) (link : QosLinkEntity)

theorem generateBackoff_cts : (QosTxop.generateBackoff t v link).cts =
    if backoffForCts t v link then (link.pedcaCtsAttempts + 1, true)
    else if backoffResets t v link || isUhrVo v && pedcaOnOtherLink v then
      (link.pedcaCtsAttempts, false)
    else link.cts := by
  have hout := generateBackoff_outcome t v link
  generalize QosTxop.generateBackoff t v link = link' at hout ⊢
  cases hout with
  | ineligible h =>
    rw [if_neg (by simp [backoffForCts, h]), if_neg (by simp [backoffResets, h])]
    rfl
  | otherLink h ho =>
    rw [if_neg (by simp [backoffForCts, ho]), if_pos (by simp [h, ho])]
    rfl
  | budgetSpent h ho hdue hpsrc =>
    rw [if_neg (by simp [backoffForCts, hpsrc]),
      if_pos (by simpa [backoffResets, h, ho, hpsrc] using hdue)]
    rfl
  | afterCts h ho hdue hpsrc hafter =>
    rw [if_neg (by simp [backoffForCts, hafter]), if_neg (by simp [backoffResets, ho, hpsrc])]
    rfl
  | sendCts h ho hdue hpsrc hafter =>
    rw [if_pos (by simpa [backoffForCts, h, ho, hpsrc, hafter] using hdue)]
    rfl
  | notDue h ho htrig hmode =>
    rw [if_neg (by simp [backoffForCts, htrig, hmode]),
      if_neg (by simp [backoffResets, ho, htrig, hmode])]
    rfl

theorem generateBackoffOf_cts : (generateBackoffOf t v link).cts =
    if v.attrs.isQosTxop && backoffForCts t v link then (link.pedcaCtsAttempts + 1, true)
    else if v.attrs.isQosTxop && backoffResets t v link ||
        v.attrs.isQosTxop && (isUhrVo v && pedcaOnOtherLink v) then
      (link.pedcaCtsAttempts, false)
    else link.cts := by
  rcases Bool.eq_false_or_eq_true v.attrs.isQosTxop with hq | hq
  · rw [generateBackoffOf, if_pos hq, generateBackoff_cts, hq, Bool.true_and, Bool.true_and,
      Bool.true_and]
  · rw [generateBackoffOf, hq, Bool.false_and, Bool.false_and, Bool.false_and]
    rfl

theorem notifyChannelReleasedOf_cts : (notifyChannelReleasedOf t v link).cts =
    if (v.attrs.isQosTxop && backoffOnRelease v link) && backoffForCts t v link then
      (link.pedcaCtsAttempts + 1, true)
    else if v.attrs.isQosTxop && backoffOnRelease v link && backoffResets t v link ||
        (v.attrs.isQosTxop && backoffOnRelease v link) && (isUhrVo v && pedcaOnOtherLink v) then
      (link.pedcaCtsAttempts, false)
    else link.cts := by
  rcases Bool.eq_false_or_eq_true v.attrs.isQosTxop with hq | hq
  · rw [notifyChannelReleasedOf, if_pos hq, notifyChannelReleased, hq, Bool.true_and]
    rcases Bool.eq_false_or_eq_true (backoffOnRelease v link) with hb | hb
    · rw [if_pos hb, hb, Bool.true_and, Bool.true_and, Bool.true_and]
      exact generateBackoff_cts t v link
    · rw [hb]
      rfl
  · rw [notifyChannelReleasedOf, hq, txopNotifyChannelReleased, generateBackoffOf, hq]
    rfl

/-- What a call does to the count and the pending CTS-to-self. -/
theorem exec_cts (i : LinkEnv × TxopCall) : (TxopCall.exec t link i).cts = ctsAfter t link i := by
  rcases i with ⟨v, call⟩
  cases call with
  | generateBackoff =>
    rw [ctsAfter_of_ne (by simp)]
    exact generateBackoffOf_cts t v link
  | txopNotifyChannelReleased =>
    rw [ctsAfter_of_ne (by simp)]
    exact generateBackoffOf_cts t v { link with access := .notRequested }
  | notifyChannelReleased =>
    rw [ctsAfter_of_ne (by simp)]
    exact notifyChannelReleasedOf_cts t v link
  | updateFailedCw =>
    simp only [TxopCall.exec, Txop.updateFailedCw]
    split <;> rfl
  | notifyChannelAccessed txopDuration =>
    simp only [TxopCall.exec, notifyChannelAccessedOf]
    split <;> rfl
  | updateRandomTxopLimit =>
    simp only [TxopCall.exec, updateRandomTxopLimit]
    split <;> rfl
  | resetBackoff =>
    simp only [TxopCall.exec, Txop.resetBackoff]
    split <;> rfl
  | startPedcaCts =>
    rcases Bool.eq_false_or_eq_true link.pedcaCtsPending with hp | hp
    · have hafter : ctsAfter t link (v, .startPedcaCts) = (link.pedcaCtsAttempts, false) := by
        simp [ctsAfter, pendsCts, generatesBackoff, sendsPedcaCts, hp]
      change (startPedcaCts v link).cts = _
      rw [hafter, startPedcaCts, hp, if_pos rfl, sendPedcaCts, notifyChannelAccessedOf]
      split <;> rfl
    · have hafter : ctsAfter t link (v, .startPedcaCts) = link.cts := by
        simp [ctsAfter, pendsCts, dropsCts, generatesBackoff, resetsPedca, sendsPedcaCts, hp]
      change (startPedcaCts v link).cts = _
      rw [hafter, startPedcaCts, hp, QosLinkEntity.cts, QosLinkEntity.cts, hp]
      rfl
  | pedcaSucceeded =>
    rw [ctsAfter_of_ne (by simp)]
    simp only [TxopCall.exec, pedcaSucceeded]
    rcases Bool.eq_false_or_eq_true link.pedcaMode with hm | hm
    · have hdrops : dropsCts t link (v, .pedcaSucceeded) = true := by
        rw [dropsCts, resetsPedca, hm, Bool.true_or]
      rw [hdrops, if_pos hm]
      rfl
    · have hdrops : dropsCts t link (v, .pedcaSucceeded) = false := by
        rw [dropsCts, resetsPedca, hm]
        rfl
      rw [hdrops, hm]
      rfl
  | pedcaFailed =>
    simp only [TxopCall.exec, pedcaFailed, incrementPedcaTriggerCount]
    split
    · rfl
    · split <;> rfl
  | resetCw | notifyAccessRequested | updateBackoffSlotsNow | startBackoffNow => rfl

end Calls

/-! ## Runs -/

/-- A link with the number of CTS-to-self frames sent on it. -/
structure CountedLink where
  link : QosLinkEntity
  sent : ℕ

namespace CountedLink

/-- A call on the link. -/
def step (t : PedcaThresholds) (s : CountedLink) (i : LinkEnv × TxopCall) : CountedLink :=
  ⟨TxopCall.exec t s.link i, s.sent + (sendsPedcaCts s.link i).toNat⟩

/-- The attempts counted are the CTS-to-self frames sent and the one that is pending. -/
def CtsCounted (s : CountedLink) : Prop :=
  s.link.pedcaCtsAttempts.toNat = s.sent + s.link.pedcaCtsPending.toNat

instance (s : CountedLink) : Decidable (CtsCounted s) :=
  inferInstanceAs (Decidable (_ = _))

/-- What keeps the count at a call : it makes a CTS-to-self pending only if none is and the counter
does not wrap, and it drops none. -/
def KeepsCtsCount (t : PedcaThresholds) (s : CountedLink) (i : LinkEnv × TxopCall) : Prop :=
  (pendsCts t s.link i = true →
    s.link.pedcaCtsPending = false ∧ s.link.pedcaCtsAttempts.toNat + 1 < 2 ^ 32) ∧
  (pendsCts t s.link i = false → dropsCts t s.link i = true → s.link.pedcaCtsPending = false)

variable {t : PedcaThresholds} {s : CountedLink} {i : LinkEnv × TxopCall}

/-- No call sends a CTS-to-self and drops one or makes one pending. -/
theorem sendsPedcaCts_eq_false (h : pendsCts t s.link i = true ∨ dropsCts t s.link i = true) :
    sendsPedcaCts s.link i = false := by
  rcases i with ⟨v, call⟩
  cases call with
  | startPedcaCts => simp [pendsCts, dropsCts, generatesBackoff, resetsPedca] at h
  | _ => rfl

/-- A call keeps the count exactly under this condition. -/
theorem ctsCounted_step (h : CtsCounted s) :
    CtsCounted (step t s i) ↔ KeepsCtsCount t s i := by
  have hexec := exec_cts t s.link i
  have hattempts : (TxopCall.exec t s.link i).pedcaCtsAttempts = (ctsAfter t s.link i).1 :=
    congrArg Prod.fst hexec
  have hpending : (TxopCall.exec t s.link i).pedcaCtsPending = (ctsAfter t s.link i).2 :=
    congrArg Prod.snd hexec
  rw [CtsCounted] at h
  rw [CtsCounted, KeepsCtsCount, step, hattempts, hpending, ctsAfter]
  dsimp only
  have hlt := s.link.pedcaCtsAttempts.toNat_lt
  rcases Bool.eq_false_or_eq_true (pendsCts t s.link i) with hpends | hpends
  · -- the counter is raised : one CTS-to-self more is pending than before, and none sent
    rw [if_pos hpends, hpends, sendsPedcaCts_eq_false (Or.inl hpends)]
    have hadd : (s.link.pedcaCtsAttempts + 1).toNat =
        (s.link.pedcaCtsAttempts.toNat + 1) % 2 ^ 32 := by
      rw [UInt32.toNat_add, UInt32.toNat_one]
    dsimp only
    rw [hadd]
    rcases Bool.eq_false_or_eq_true s.link.pedcaCtsPending with hp | hp
    · rw [hp] at h ⊢
      simp only [Bool.toNat_true, Bool.toNat_false] at h ⊢
      simp only [Bool.true_eq_false, false_and, imp_false, not_true_eq_false, iff_false]
      omega
    · rw [hp] at h ⊢
      simp only [Bool.toNat_true, Bool.toNat_false] at h ⊢
      simp only [true_and, forall_const, implies_true, and_true]
      omega
  · rw [if_neg (by simp [hpends]), hpends]
    rcases Bool.eq_false_or_eq_true (dropsCts t s.link i) with hdrops | hdrops
    · rw [hdrops, sendsPedcaCts_eq_false (Or.inr hdrops), Bool.true_or, if_pos rfl]
      have hiff : s.link.pedcaCtsPending = false ↔ s.link.pedcaCtsPending.toNat = 0 := by
        cases s.link.pedcaCtsPending <;> decide
      simp only [Bool.false_eq_true, false_imp_iff, true_imp_iff, true_and, hiff,
        Bool.toNat_false]
      omega
    · have hkeeps : (false = true → s.link.pedcaCtsPending = false ∧
          s.link.pedcaCtsAttempts.toNat + 1 < 2 ^ 32) ∧
          (false = false → false = true → s.link.pedcaCtsPending = false) :=
        ⟨fun hfalse => absurd hfalse Bool.false_ne_true,
          fun _ hfalse => absurd hfalse Bool.false_ne_true⟩
      rw [hdrops, iff_true_right hkeeps, Bool.false_or]
      rcases Bool.eq_false_or_eq_true (sendsPedcaCts s.link i) with hsends | hsends
      · have hp : s.link.pedcaCtsPending = true := (Bool.and_eq_true_iff.1 hsends).2
        rw [hp, Bool.toNat_true] at h
        rw [if_pos hsends, hsends, Bool.toNat_true]
        exact h
      · rw [if_neg (by simp [hsends]), hsends]
        exact h

/-- In a run of calls on a fresh link, the attempts counted are at all times the CTS-to-self frames
sent and the one that is pending, if and only if every call keeps the count. -/
theorem ctsCounted_iff (t : PedcaThresholds) (base : LinkEntity)
    (as : List (LinkEnv × TxopCall)) :
    Runs.Always (step t) CtsCounted ⟨.fresh base, 0⟩ as ↔
      Runs.Each (step t) (KeepsCtsCount t) ⟨.fresh base, 0⟩ as :=
  Runs.always_iff_each (I := fun _ => True) (D := fun _ => True) (fun _ _ _ => trivial)
    (fun _ _ _ _ h => ctsCounted_step h) (fun _ _ => trivial) trivial rfl

/-- A voice EDCAF that fails twice and has nothing left to send, and a frame that is enqueued while
the medium is busy. -/
def enqueuedWhileBusy : List (LinkEnv × TxopCall) :=
  [({ phyStandard := some .s80211uhr, now := 100 }, .notifyChannelAccessed 0),
    ({ phyStandard := some .s80211uhr, now := 200 }, .pedcaFailed),
    ({ phyStandard := some .s80211uhr, now := 200 }, .notifyChannelReleased),
    ({ phyStandard := some .s80211uhr, now := 300 }, .notifyChannelAccessed 0),
    ({ phyStandard := some .s80211uhr, now := 400 }, .pedcaFailed),
    ({ phyStandard := some .s80211uhr, now := 400 }, .notifyChannelReleased),
    ({ phyStandard := some .s80211uhr, now := 500, queueEmpty := false }, .generateBackoff)]

/-- Its zero backoff is generated a second time, and counted again. -/
theorem not_ctsCounted : ¬∀ (t : PedcaThresholds) (base : LinkEntity)
    (as : List (LinkEnv × TxopCall)), Runs.Always (step t) CtsCounted ⟨.fresh base, 0⟩ as := by
  intro h
  exact absurd (h {} {} enqueuedWhileBusy).last (by decide)

end CountedLink

end Ns3Pedca
