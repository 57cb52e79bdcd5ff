import Ns3Pedca.Wifi.AccessGrant
import Ns3Pedca.Wifi.ContentionWindow

/-!
# A disabled EDCAF and contention

While its MU EDCA timer runs with AIFSN 0, the EDCA of a `QosTxop` is disabled.
`DoGrantDcfAccess` tests this for the `Txop` it offers access to, and not for the losers of
an internal collision : these are protected by `DisableEdcaFor`, which moves their backoff
start to the end of the timer. `Shielded` says that it is there, or later.

A run stays clear of grants to disabled EDCAFs and of collisions between them as long as no
step moves the backoff start of one back (`disabledEdca_of_each`). `movesShield` lists the
steps that do : a packet for an EDCAF whose counter is zero, a new backoff value, a reset of
all backoffs. `disabledEdca_broken` is the first of these.
-/

set_option linter.unusedSectionVars false

namespace Ns3Pedca

namespace ChannelAccessManager

variable {ι : Type*} [DecidableEq ι] (st : Station ι)

/-! ## Shielded links -/

/-- The backoff of a disabled EDCAF starts no earlier than its MU EDCA timer ends. -/
def Shielded (now : Time) (e : ι) (link : QosLinkEntity) : Prop :=
  disabled st now e link = true →
    link.muEdcaTimerStartTime + link.muEdcaTimer ≤ link.backoffStart

/-- A change of a link that leaves its parameters alone, and does not move the backoff start
back if EDCA is disabled. -/
structure KeepsShield (now : Time) (e : ι) (link link' : QosLinkEntity) : Prop where
  edcaParams : link'.edcaParams = link.edcaParams
  backoffStart : disabled st now e link = true → link.backoffStart ≤ link'.backoffStart

section Links

variable {st} {now : Time} {e : ι} {link link' link'' : QosLinkEntity}

theorem disabled_congr (h : link'.edcaParams = link.edcaParams) :
    disabled st now e link' = disabled st now e link := by
  simp only [QosLinkEntity.edcaParams, EdcaParams.mk.injEq] at h
  obtain ⟨-, -, -, -, -, haifsn, htimer, hstart⟩ := h
  simp [disabled, QosTxop.edcaDisabled, QosTxop.muEdcaTimerRunning, haifsn, htimer, hstart]

theorem KeepsShield.rfl : KeepsShield st now e link link :=
  ⟨Eq.refl _, fun _ => le_rfl⟩

theorem KeepsShield.trans (h : KeepsShield st now e link link')
    (h' : KeepsShield st now e link' link'') : KeepsShield st now e link link'' :=
  ⟨h'.edcaParams.trans h.edcaParams, fun hd =>
    (h.backoffStart hd).trans (h'.backoffStart ((disabled_congr h.edcaParams).trans hd))⟩

theorem KeepsShield.of_not_disabled (h : link'.edcaParams = link.edcaParams)
    (hd : disabled st now e link = false) : KeepsShield st now e link link' :=
  ⟨h, fun hd' => absurd (hd'.symm.trans hd) (by decide)⟩

theorem Shielded.keeps (hs : Shielded st now e link) (h : KeepsShield st now e link link') :
    Shielded st now e link' := by
  intro hd
  have hd' : disabled st now e link = true := (disabled_congr h.edcaParams).symm.trans hd
  have hle := (hs hd').trans (h.backoffStart hd')
  have hp := h.edcaParams
  simp only [QosLinkEntity.edcaParams, EdcaParams.mk.injEq] at hp
  obtain ⟨-, -, -, -, -, -, htimer, hstart⟩ := hp
  rwa [htimer, hstart]

theorem Shielded.of_not_disabled (hd : disabled st now e link = false) :
    Shielded st now e link :=
  fun hd' => absurd (hd'.symm.trans hd) (by decide)

/-- The MU EDCA timer of a disabled EDCAF has not expired. -/
theorem lt_of_disabled (hd : disabled st now e link = true) :
    now < link.muEdcaTimerStartTime + link.muEdcaTimer := by
  simp only [disabled, QosTxop.edcaDisabled, QosTxop.muEdcaTimerRunning, Bool.and_eq_true,
    decide_eq_true_eq] at hd
  exact hd.2.1.2

/-- A shielded backoff starts in the future. -/
theorem Shielded.lt_backoffStart (hs : Shielded st now e link)
    (hd : disabled st now e link = true) : now < link.backoffStart :=
  (lt_of_disabled hd).trans_le (hs hd)

/-- An EDCAF that is disabled was disabled before, if its timer was started before. -/
theorem Shielded.elapse (hs : Shielded st now e link) (d : ℕ) :
    Shielded st (now + d) e link := by
  intro hd
  apply hs
  have hlt := lt_of_disabled hd
  simp only [disabled, QosTxop.edcaDisabled, QosTxop.muEdcaTimerRunning, Bool.and_eq_true,
    decide_eq_true_eq] at hd ⊢
  obtain ⟨hqos, ⟨⟨hstart, htimer⟩, -⟩, haifsn⟩ := hd
  have hd0 : (0 : ℤ) ≤ d := Int.natCast_nonneg d
  exact ⟨hqos, ⟨⟨hstart, htimer⟩, by linarith⟩, haifsn⟩

/-- The backoff of a shielded EDCAF has not expired while it is disabled. -/
theorem Shielded.not_expired {links : ι → QosLinkEntity} {m : Medium} {accessGrantStart : Time}
    (hs : Shielded st now e (links e))
    (hexp : backoffExpired st now m accessGrantStart links e = true) :
    disabled st now e (links e) = false := by
  by_contra hd
  have hlt := hs.lt_backoffStart (by simpa using hd)
  have hend : getBackoffEndFor st now m e (links e) accessGrantStart ≤ now := by
    simpa using (Bool.and_eq_true_iff.1 hexp).2
  have hslots : 0 ≤ ((links e).backoffSlots.toNat : ℤ) * m.getSlot :=
    mul_nonneg (Int.natCast_nonneg _) m.getSlot_nonneg
  have hmax : (links e).backoffStart ≤ getBackoffStartFor st now m e (links e) accessGrantStart :=
    le_max_left ..
  unfold getBackoffEndFor at hend
  linarith

end Links

/-! ## What moves a shield -/

/-- The call moves the backoff start of its link back, unless it starts it now. -/
def overwritesBackoffStart (v : LinkEnv) (link : QosLinkEntity) : TxopCall → Bool
  | .generateBackoff => true
  | .txopNotifyChannelReleased => true
  | .notifyChannelReleased => !v.attrs.isQosTxop || QosTxop.backoffOnRelease v link
  | .startBackoffNow _ => true
  | .resetBackoff => 0 < link.backoffSlots
  | .updateBackoffSlotsNow _ bound => bound < link.backoffStart
  | _ => false

theorem backoffStart_le_exec (t : PedcaThresholds) {v : LinkEnv} {link : QosLinkEntity}
    {call : TxopCall} (h : overwritesBackoffStart v link call = false) :
    link.backoffStart ≤ (TxopCall.exec t link (v, call)).backoffStart := by
  cases call with
  | generateBackoff => nomatch h
  | txopNotifyChannelReleased => nomatch h
  | startBackoffNow nSlots => nomatch h
  | updateBackoffSlotsNow nSlots bound => exact not_lt.1 (of_decide_eq_false h)
  | notifyChannelReleased =>
    obtain ⟨hqos, hrelease⟩ := Bool.or_eq_false_iff.1 h
    replace hqos : v.attrs.isQosTxop = true := by simpa using hqos
    refine le_of_eq ?_
    simp only [TxopCall.exec, QosTxop.notifyChannelReleasedOf, hqos, if_true,
      QosTxop.notifyChannelReleased, hrelease, Bool.false_eq_true, if_false]
  | resetBackoff =>
    have hzero : ¬0 < link.backoffSlots := of_decide_eq_false h
    refine le_of_eq ?_
    simp only [TxopCall.exec, Txop.resetBackoff, hzero, if_false]
    rfl
  | updateFailedCw =>
    refine le_of_eq ?_
    simp only [TxopCall.exec, Txop.updateFailedCw]
    split <;> rfl
  | notifyChannelAccessed txopDuration =>
    refine le_of_eq ?_
    simp only [TxopCall.exec, QosTxop.notifyChannelAccessedOf]
    split <;> rfl
  | updateRandomTxopLimit =>
    refine le_of_eq ?_
    simp only [TxopCall.exec, QosTxop.updateRandomTxopLimit]
    split <;> rfl
  | startPedcaCts =>
    refine le_of_eq ?_
    simp only [TxopCall.exec, QosTxop.startPedcaCts, QosTxop.sendPedcaCts,
      QosTxop.notifyChannelAccessedOf]
    split
    · split <;> rfl
    · rfl
  | pedcaSucceeded =>
    refine le_of_eq ?_
    simp only [TxopCall.exec, QosTxop.pedcaSucceeded]
    split <;> rfl
  | pedcaFailed =>
    refine le_of_eq ?_
    simp only [TxopCall.exec, QosTxop.pedcaFailed, QosTxop.incrementPedcaTriggerCount]
    split
    · rfl
    · split <;> rfl
  | resetCw | notifyAccessRequested => exact le_of_eq rfl

theorem KeepsShield.exec {st : Station ι} {now : Time} {e : ι} (t : PedcaThresholds)
    {v : LinkEnv} {link : QosLinkEntity} {call : TxopCall}
    (h : disabled st now e link = true → overwritesBackoffStart v link call = false) :
    KeepsShield st now e link (TxopCall.exec t link (v, call)) :=
  ⟨exec_edcaParams t link (v, call), fun hd => backoffStart_le_exec t (h hd)⟩

/-- `RequestAccess` aligns a backoff start fewer than `2^32` slots ahead. -/
def alignFits (c : ChannelAccessManager ι) (e : ι) : Bool :=
  let accessGrantStart := c.medium.getAccessGrantStart c.now +
    (getAifsn st c.now e (c.links e)).toNat * c.medium.getSlot
  (((c.links e).backoffStart - accessGrantStart) / c.medium.getSlot).toNat + 1 < 2 ^ 32

/-- A reset of all backoffs moves the shield of an EDCAF with slots left. -/
def resetMovesShield (c : ChannelAccessManager ι) : Bool :=
  c.txops.any fun e => disabled st c.now e (c.links e) && 0 < (c.links e).backoffSlots

/-- The notification moves the backoff start of a disabled EDCAF. -/
def notificationMovesShield (c : ChannelAccessManager ι) : Notification → Bool
  | .ccaBusyStart _ _ => c.proactiveBackoff && c.txops.any fun e =>
    disabled st c.now e (c.links e) && (c.links e).access != .granted &&
      (c.links e).backoffSlots == 0
  | .switchingStart _ => resetMovesShield st c
  | .wakeup =>
    c.resetBackoffThreshold < c.now - c.medium.lastSleep.start && resetMovesShield st c
  | .on => c.resetBackoffThreshold < c.now - c.medium.lastOff.start && resetMovesShield st c
  | .setupPhyListener _ reactivated => !reactivated && c.medium.phy.isNone &&
    c.resetBackoffThreshold < c.now - c.medium.lastNoPhy.start && resetMovesShield st c
  | _ => false

/-- The event moves the backoff start of a disabled EDCAF back, or disables an EDCAF without
moving it. -/
def movesShield (c : ChannelAccessManager ι) (i : CamEnv ι × CamEvent ι) : Bool :=
  match i.2 with
  | .elapse _ => false
  | .notify n => notificationMovesShield st c n
  | .startAccess e hadFramesToTransmit _ =>
    disabled st c.now e (c.links e) && i.1.hasFramesToTransmit e &&
      (c.links e).access == .notRequested && !c.medium.noPhySleepOrOff &&
      (firstFrames i.1 c e hadFramesToTransmit || !alignFits st c e)
  | .requestAccess e => disabled st c.now e (c.links e) &&
    (c.links e).access == .notRequested && !c.medium.noPhySleepOrOff && !alignFits st c e
  | .accessTimeout => idleForTooLong c && resetMovesShield st c
  | .call e t => disabled st c.now e (c.links e) &&
    overwritesBackoffStart (QosFrameExchangeManager.linkEnv st i.1.fem c.now e) (c.links e) t
  | .startMuEdcaTimerNow _ => false
  | .setMuEdcaParameters e cwMin cwMax aifsn timer =>
    disabled st c.now e (setMuEdcaParameters cwMin cwMax aifsn timer (c.links e)) &&
      (c.links e).backoffStart < (c.links e).muEdcaTimerStartTime + timer

/-- `StartTransmission` of a `Txop` whose EDCA is not disabled leaves every shield in
place. -/
def Spares (fem : FemStart ι) : Prop :=
  ∀ now e links, disabled st now e (links e) = false →
    ∀ e', KeepsShield st now e' (links e') ((fem e links).2 e')

/-! ## Grants -/

section Grants

variable {st} {v : CamEnv ι} {now : Time} {m : Medium} {accessGrantStart : Time}

theorem KeepsShield.notifyInternalCollision {e : ι} {link : QosLinkEntity}
    (hd : disabled st now e link = false) :
    KeepsShield st now e link (notifyInternalCollision st v now e link) := by
  refine .of_not_disabled ?_ hd
  let env := QosFrameExchangeManager.linkEnv st v.fem now e
  have hcw := exec_edcaParams (st.thresholds e) link (env, .updateFailedCw)
  exact (exec_edcaParams (st.thresholds e) _ (env, .txopNotifyChannelReleased)).trans hcw

/-- Losers that are not disabled when they are selected are not when they are notified. -/
theorem notifyCollisions_shielded {es : List ι} {links : ι → QosLinkEntity}
    (hd : ∀ e ∈ es, disabled st now e (links e) = false)
    (hs : ∀ e, Shielded st now e (links e)) :
    (∀ e, Shielded st now e ((notifyCollisions st v now es links).links e)) ∧
      ∀ p ∈ (notifyCollisions st v now es links).collisions, disabled st now p.1 p.2 = false := by
  induction es generalizing links with
  | nil => exact ⟨hs, fun p hp => absurd hp List.not_mem_nil⟩
  | cons e es ih =>
    obtain ⟨hd₁, hd'⟩ := List.forall_mem_cons.1 hd
    have hkeep : ∀ e', KeepsShield st now e' (links e') (Function.update links e
        (ChannelAccessManager.notifyInternalCollision st v now e (links e)) e') := by
      intro e'
      by_cases he : e' = e
      · subst he
        rw [Function.update_self]
        exact .notifyInternalCollision hd₁
      · rw [Function.update_of_ne he]
        exact .rfl
    obtain ⟨ihs, ihd⟩ := ih
      (fun e' he' => (disabled_congr (hkeep e').edcaParams).trans (hd' e' he'))
      (fun e' => (hs e').keeps (hkeep e'))
    exact ⟨ihs, List.forall_mem_cons.2 ⟨hd₁, ihd⟩⟩

theorem grantLoop_shielded (hspares : Spares st v.startTransmission) {es : List ι}
    {links : ι → QosLinkEntity} (hs : ∀ e, Shielded st now e (links e)) :
    (∀ e, Shielded st now e ((grantLoop st v now m accessGrantStart es links).links e)) ∧
      ∀ p ∈ (grantLoop st v now m accessGrantStart es links).collisions,
        disabled st now p.1 p.2 = false := by
  induction es generalizing links with
  | nil => exact ⟨hs, fun p hp => absurd hp List.not_mem_nil⟩
  | cons e es ih =>
    rcases hsel : backoffExpired st now m accessGrantStart links e &&
        !disabled st now e (links e) with _ | _
    · simp only [grantLoop, hsel, Bool.false_eq_true, if_false]
      exact ih hs
    have hdis : disabled st now e (links e) = false := by
      simpa using (Bool.and_eq_true_iff.1 hsel).2
    have hkeep := hspares now e links hdis
    have hs' : ∀ e', Shielded st now e' ((v.startTransmission e links).2 e') :=
      fun e' => (hs e').keeps (hkeep e')
    rcases htx : (v.startTransmission e links).1 with _ | _
    · simp only [grantLoop, hsel, htx, if_true, Bool.false_eq_true, if_false]
      refine ih fun e' => ?_
      by_cases he : e' = e
      · subst he
        rw [Function.update_self]
        refine .of_not_disabled ?_
        exact (disabled_congr rfl).trans ((disabled_congr (hkeep e').edcaParams).trans hdis)
      · rw [Function.update_of_ne he]
        exact hs' e'
    · -- a `Txop` whose backoff has expired is not shielded, hence not disabled
      simp only [grantLoop, hsel, htx, if_true]
      refine notifyCollisions_shielded (fun e' he' => ?_) hs'
      have hexp := (List.mem_filter.1 he').2
      exact (disabled_congr (hkeep e').edcaParams).trans ((hs e').not_expired hexp)

end Grants

/-! ## The invariant -/

/-- All EDCAFs are shielded, and no disabled one has taken part in contention. -/
structure ShieldInv (c : ChannelAccessManager ι) : Prop where
  shielded : ∀ e, Shielded st c.now e (c.links e)
  hist : c.hist = {}

namespace ShieldInv

variable {st} {v : CamEnv ι} {c c' : ChannelAccessManager ι}

theorem of_keeps (h : ShieldInv st c) (hnow : c'.now = c.now) (hhist : c'.hist = c.hist)
    (hkeep : ∀ e, KeepsShield st c.now e (c.links e) (c'.links e)) : ShieldInv st c' :=
  ⟨fun e => hnow ▸ (h.shielded e).keeps (hkeep e), hhist.trans h.hist⟩

theorem onLink (h : ShieldInv st c) {e : ι} {f : QosLinkEntity → QosLinkEntity}
    (hf : KeepsShield st c.now e (c.links e) (f (c.links e))) : ShieldInv st (c.onLink e f) := by
  refine h.of_keeps rfl rfl fun e' => ?_
  by_cases he : e' = e
  · subst he
    rw [onLink_links_self]
    exact hf
  · rw [onLink_links_of_ne c f he]
    exact .rfl

theorem onMedium (h : ShieldInv st c) (f : Medium → Medium) : ShieldInv st (c.onMedium f) :=
  ⟨h.shielded, h.hist⟩

/-- A change made to the link of every `Txop`, one after the other. -/
theorem onTxops (h : ShieldInv st c) (f : ι → QosLinkEntity → QosLinkEntity)
    (hf : ∀ e ∈ c.txops, KeepsShield st c.now e (c.links e) (f e (c.links e))) :
    ShieldInv st { c with
      links := c.txops.foldl (fun links e => Function.update links e (f e (links e)))
        c.links } := by
  refine h.of_keeps rfl rfl fun e => ?_
  simp only [foldl_update_links f c.txops_nodup]
  split
  next he => exact hf e he
  next he => exact .rfl

theorem call (h : ShieldInv st c) {e : ι} {t : TxopCall}
    (ht : disabled st c.now e (c.links e) = true →
      overwritesBackoffStart (QosFrameExchangeManager.linkEnv st v.fem c.now e) (c.links e) t =
        false) : ShieldInv st (call st v c e t) :=
  h.onLink (.exec _ ht)

end ShieldInv

/-- `UpdateBackoff` passes over a shielded EDCAF that is disabled. -/
theorem updateBackoff_links_of_disabled {st : Station ι} {c : ChannelAccessManager ι} {e : ι}
    (hs : Shielded st c.now e (c.links e)) (hd : disabled st c.now e (c.links e) = true) :
    (updateBackoff st c).links e = c.links e := by
  rw [updateBackoff_links]
  split
  · have hlt : c.now < getBackoffStartFor st c.now c.medium e (c.links e)
        (c.medium.getAccessGrantStart c.now) :=
      (hs.lt_backoffStart hd).trans_le (le_max_left ..)
    exact if_neg hlt.not_ge
  · rfl

theorem updateBackoff_edcaParams {st : Station ι} {c : ChannelAccessManager ι} {e : ι} :
    ((updateBackoff st c).links e).edcaParams = (c.links e).edcaParams := by
  rw [updateBackoff_links]
  split
  · unfold updateBackoffOf
    dsimp only
    split <;> rfl
  · rfl

theorem updateBackoff_keeps {st : Station ι} {c : ChannelAccessManager ι} {e : ι}
    (hs : Shielded st c.now e (c.links e)) :
    KeepsShield st c.now e (c.links e) ((updateBackoff st c).links e) :=
  ⟨updateBackoff_edcaParams, fun hd => by rw [updateBackoff_links_of_disabled hs hd]⟩

/-- The next slot boundary is no earlier, if its slot number fits a `uint32_t`. -/
theorem le_nextSlotBoundary {m : Medium} {accessGrantStart backoffStart : Time}
    (hslot : 0 < m.getSlot) (hdiff : 0 < backoffStart - accessGrantStart)
    (hfit : ((backoffStart - accessGrantStart) / m.getSlot).toNat + 1 < 2 ^ 32) :
    backoffStart ≤ nextSlotBoundary m accessGrantStart backoffStart := by
  unfold nextSlotBoundary
  dsimp only
  generalize hd : backoffStart - accessGrantStart = diff at hdiff hfit ⊢
  have hq : 0 ≤ diff / m.getSlot := Int.ediv_nonneg hdiff.le hslot.le
  have hsum : m.getSlot * (diff / m.getSlot) + diff % m.getSlot = diff := Int.mul_ediv_add_emod ..
  have hmod : diff % m.getSlot < m.getSlot := Int.emod_lt_of_pos diff hslot
  have hle : diff ≤ ((UInt32.ofNat ((diff / m.getSlot).toNat +
      if 0 < diff % m.getSlot then 1 else 0)).toNat : ℤ) * m.getSlot := by
    rw [UInt32.toNat_ofNat_of_lt' (by rw [UInt32.size]; split <;> omega), Nat.cast_add,
      Int.toNat_of_nonneg hq]
    split
    · rw [Nat.cast_one, add_mul, one_mul, mul_comm]
      linarith
    · rw [Nat.cast_zero, add_zero, mul_comm]
      linarith
  linarith

namespace ShieldInv

variable {st} {v : CamEnv ι} {c : ChannelAccessManager ι} {e : ι}

theorem updateBackoff (h : ShieldInv st c) : ShieldInv st (updateBackoff st c) :=
  h.of_keeps rfl rfl fun e => updateBackoff_keeps (h.shielded e)

theorem alignBackoffStart (h : ShieldInv st c) (hphy : c.medium.noPhySleepOrOff = false)
    (hfit : disabled st c.now e (c.links e) = true → alignFits st c e = true) :
    ShieldInv st (alignBackoffStart st c e) := by
  unfold ChannelAccessManager.alignBackoffStart
  dsimp only
  split
  next hdiff =>
    refine h.onLink ⟨rfl, fun hd => ?_⟩
    exact le_nextSlotBoundary (c.medium.getSlot_pos hphy) hdiff.2 (of_decide_eq_true (hfit hd))
  next => exact h

theorem grantAccess (h : ShieldInv st c) (hspares : Spares st v.startTransmission) :
    ShieldInv st (grantAccess st v c) := by
  have hgrants : (∀ e, Shielded st c.now e ((doGrantDcfAccess st v c).links e)) ∧
      ∀ p ∈ (doGrantDcfAccess st v c).collisions, disabled st c.now p.1 p.2 = false := by
    unfold doGrantDcfAccess
    dsimp only
    split
    · exact ⟨h.shielded, fun p hp => absurd hp List.not_mem_nil⟩
    · exact grantLoop_shielded hspares h.shielded
  have hoffers : ∀ o ∈ (doGrantDcfAccess st v c).offers,
      disabled st c.now o.txop (o.links o.txop) = false := by
    unfold doGrantDcfAccess
    dsimp only
    split
    · exact fun o ho => absurd ho List.not_mem_nil
    · exact fun o ho => ((grantLoop_safe st v _ _ _ c.links c.txops_nodup).offered o ho).2.2.1
  refine ⟨hgrants.1, ?_⟩
  have hhist : c.hist = {} := h.hist
  simp only [ChannelAccessManager.grantAccess, hhist, Bool.false_or]
  congr 1
  · exact List.any_eq_false.2 fun o ho => by simp [hoffers o ho]
  · exact List.any_eq_false.2 fun p hp => by simp [hgrants.2 p hp]

theorem requestAccess (h : ShieldInv st c) (hspares : Spares st v.startTransmission)
    (hfit : c.medium.noPhySleepOrOff = false → disabled st c.now e (c.links e) = true →
      alignFits st c e = true) : ShieldInv st (requestAccess st v c e) := by
  unfold ChannelAccessManager.requestAccess
  split
  next => exact h
  next hphy =>
    replace hphy := Bool.eq_false_iff.2 hphy
    have hupdate := (h.alignBackoffStart hphy (hfit hphy)).updateBackoff
    exact (hupdate.call (v := v) (t := .notifyAccessRequested) fun _ => rfl).grantAccess hspares

/-- `NeedBackoffUponAccess` and the backoff generated if it is needed leave the link of a
disabled EDCAF alone, unless these are the first frames of one whose counter is zero. -/
theorem needBackoffUponAccess (h : ShieldInv st c) (hadFramesToTransmit checkMediumBusy : Bool)
    (hfirst : c.medium.noPhySleepOrOff = false → disabled st c.now e (c.links e) = true →
      firstFrames v c e hadFramesToTransmit = false) :
    let r := needBackoffUponAccess st v c e hadFramesToTransmit checkMediumBusy
    let c' := if r.1 then ChannelAccessManager.call st v r.2 e .generateBackoff else r.2
    ShieldInv st c' ∧ c'.now = c.now ∧ c'.medium = c.medium ∧
      (disabled st c'.now e (c'.links e) = true → c'.links e = c.links e) := by
  unfold ChannelAccessManager.needBackoffUponAccess
  by_cases hphy : c.medium.noPhySleepOrOff = true
  · simp only [hphy, if_true, Bool.false_eq_true, if_false]
    exact ⟨h, trivial, trivial, fun _ => trivial⟩
  replace hphy := Bool.eq_false_iff.2 hphy
  simp only [hphy, Bool.false_eq_true, if_false]
  have hup := h.updateBackoff
  by_cases hd : disabled st c.now e (c.links e) = true
  · have hlink := updateBackoff_links_of_disabled (h.shielded e) hd
    have hno : firstFrames v (ChannelAccessManager.updateBackoff st c) e hadFramesToTransmit =
        false := by
      rw [← hfirst hphy hd]
      simp only [firstFrames, hlink]
    simp only [hno, Bool.false_eq_true, if_false]
    exact ⟨hup, rfl, rfl, fun _ => hlink⟩
  have hnot : disabled st c.now e ((ChannelAccessManager.updateBackoff st c).links e) = false :=
    (disabled_congr updateBackoff_edcaParams).trans (Bool.eq_false_iff.2 hd)
  have hstill : ∀ {link : QosLinkEntity}, link.edcaParams =
      ((ChannelAccessManager.updateBackoff st c).links e).edcaParams →
      disabled st c.now e link = true → link = c.links e := fun hp hd' =>
    absurd (((disabled_congr hp).symm.trans hd').symm.trans hnot) (by decide)
  split
  · split
    · simp only [Bool.false_eq_true, if_false]
      refine ⟨hup.onLink (.of_not_disabled rfl hnot), rfl, rfl, hstill ?_⟩
      rw [onLink_links_self]
      rfl
    · simp only [if_true]
      refine ⟨hup.call fun hd' => absurd (hd'.symm.trans hnot) (by decide), rfl, rfl, hstill ?_⟩
      rw [ChannelAccessManager.call, onLink_links_self]
      exact exec_edcaParams _ _ _
  · simp only [Bool.false_eq_true, if_false]
    exact ⟨hup, rfl, rfl, hstill rfl⟩

theorem startAccessAfterEvent (h : ShieldInv st c) (hspares : Spares st v.startTransmission)
    {hadFramesToTransmit checkMediumBusy : Bool}
    (hkeep : movesShield st c (v, .startAccess e hadFramesToTransmit checkMediumBusy) = false) :
    ShieldInv st (startAccessAfterEvent st v c e hadFramesToTransmit checkMediumBusy) := by
  unfold ChannelAccessManager.startAccessAfterEvent
  split
  next hstart =>
    obtain ⟨-, haccess, hframes⟩ := hstart
    have hmoves : c.medium.noPhySleepOrOff = false → disabled st c.now e (c.links e) = true →
        firstFrames v c e hadFramesToTransmit = false ∧ alignFits st c e = true := by
      intro hphy hd
      change (_ && _ && _ && _ && _) = false at hkeep
      rw [hd, hframes, haccess, hphy] at hkeep
      simpa using hkeep
    obtain ⟨h', hnow, hmedium, hlink⟩ :=
      h.needBackoffUponAccess hadFramesToTransmit checkMediumBusy fun hphy hd =>
        (hmoves hphy hd).1
    refine h'.requestAccess hspares fun hphy hd => ?_
    have hsame := hlink hd
    rw [hmedium] at hphy
    rw [hnow, hsame] at hd
    have hfit := (hmoves hphy hd).2
    unfold alignFits at hfit ⊢
    rwa [hnow, hmedium, hsame]
  next => exact h

theorem resetAllBackoffs (h : ShieldInv st c) (hkeep : resetMovesShield st c = false) :
    ShieldInv st (resetAllBackoffs c) := by
  refine h.onTxops (fun _ link => Txop.resetBackoff c.now link) fun e he => ?_
  have hreset : disabled st c.now e (c.links e) = true →
      overwritesBackoffStart { now := c.now } (c.links e) .resetBackoff = false := by
    intro hd
    have hno := List.any_eq_false.1 hkeep e he
    rw [hd, Bool.true_and] at hno
    exact Bool.eq_false_iff.2 hno
  exact .exec {} hreset

theorem accessTimeout (h : ShieldInv st c) (hspares : Spares st v.startTransmission)
    (hkeep : movesShield st c (v, .accessTimeout) = false) :
    ShieldInv st (accessTimeout st v c) := by
  unfold ChannelAccessManager.accessTimeout
  split
  next hidle => exact h.resetAllBackoffs (by simpa [movesShield, hidle] using hkeep)
  next => exact h.updateBackoff.grantAccess hspares

/-- `DisableEdcaFor` shields an EDCAF whose MU EDCA timer has just been started. -/
theorem shielded_disableEdcaFor (hstart : (c.links e).muEdcaTimerStartTime = c.now) :
    Shielded st c.now e
      ((ChannelAccessManager.disableEdcaFor st c e (c.links e).muEdcaTimer).links e) := by
  rw [ChannelAccessManager.disableEdcaFor, onLink_links_self]
  have hp : ((ChannelAccessManager.updateBackoff st c).links e).edcaParams =
      (c.links e).edcaParams := updateBackoff_edcaParams
  simp only [QosLinkEntity.edcaParams, EdcaParams.mk.injEq] at hp
  obtain ⟨-, -, -, -, -, -, htimer, hstart'⟩ := hp
  intro _
  change ((ChannelAccessManager.updateBackoff st c).links e).muEdcaTimerStartTime +
    ((ChannelAccessManager.updateBackoff st c).links e).muEdcaTimer ≤
      c.now + (c.links e).muEdcaTimer
  rw [hstart', htimer, hstart]

theorem disableEdcaFor (hhist : c.hist = {}) {e : ι}
    (hother : ∀ e', e' ≠ e → Shielded st c.now e' (c.links e'))
    (hstart : (c.links e).muEdcaTimerStartTime = c.now) :
    ShieldInv st (disableEdcaFor st c e (c.links e).muEdcaTimer) where
  hist := hhist
  shielded e' := by
    change Shielded st c.now e' _
    by_cases he : e' = e
    · subst he
      exact shielded_disableEdcaFor hstart
    · rw [ChannelAccessManager.disableEdcaFor, onLink_links_of_ne _ _ he]
      exact (hother e' he).keeps (updateBackoff_keeps (hother e' he))

theorem startMuEdcaTimerNow (h : ShieldInv st c) : ShieldInv st (startMuEdcaTimerNow st c e) := by
  unfold ChannelAccessManager.startMuEdcaTimerNow
  generalize hc' : c.onLink e (fun link => { link with muEdcaTimerStartTime := c.now }) = c'
  have hnow : c'.now = c.now := by rw [← hc']; rfl
  have hhist : c'.hist = {} := by rw [← hc']; exact h.hist
  have hlink : (c'.links e).muEdcaTimerStartTime = c'.now := by
    rw [hnow, ← hc', onLink_links_self]
  have hother : ∀ e', e' ≠ e → Shielded st c'.now e' (c'.links e') := by
    intro e' he
    rw [hnow, ← hc', onLink_links_of_ne c _ he]
    exact h.shielded e'
  dsimp only
  split
  next => exact disableEdcaFor hhist hother hlink
  next hd =>
    refine ⟨fun e' => ?_, hhist⟩
    by_cases he : e' = e
    · subst he
      exact .of_not_disabled (Bool.and_eq_false_iff.2 (.inr (Bool.eq_false_iff.2 hd)))
    · exact hother e' he

theorem setMuEdcaParameters (h : ShieldInv st c) {cwMin cwMax : UInt32} {aifsn : UInt8}
    {timer : Time}
    (hkeep : movesShield st c (v, .setMuEdcaParameters e cwMin cwMax aifsn timer) = false) :
    ShieldInv st (c.onLink e (setMuEdcaParameters cwMin cwMax aifsn timer)) := by
  refine ⟨fun e' => ?_, h.hist⟩
  by_cases he : e' = e
  · subst he
    rw [onLink_links_self]
    intro hd
    replace hd : disabled st c.now e'
        (ChannelAccessManager.setMuEdcaParameters cwMin cwMax aifsn timer (c.links e')) = true := hd
    have hle := (Bool.and_eq_false_iff.1 hkeep).resolve_left (by rw [hd]; decide)
    exact not_lt.1 (of_decide_eq_false hle)
  · rw [onLink_links_of_ne c _ he]
    exact h.shielded e'

/-! ## Notifications -/

theorem resetIfLonger (h : ShieldInv st c) (since : Time)
    (hkeep : (decide (c.resetBackoffThreshold < c.now - since) && resetMovesShield st c) = false) :
    ShieldInv st (resetIfLonger c since) := by
  unfold ChannelAccessManager.resetIfLonger
  split
  next hlong => exact h.resetAllBackoffs (by simpa [hlong] using hkeep)
  next => exact h

theorem generateProactiveBackoff (h : ShieldInv st c)
    (hkeep : notificationMovesShield st c (.ccaBusyStart 0 true) = false) :
    ShieldInv st (generateProactiveBackoff st v c) := by
  unfold ChannelAccessManager.generateProactiveBackoff
  split
  next hpro =>
    refine h.onTxops (fun e link => if link.access ≠ .granted ∧ link.backoffSlots = 0 then
      QosTxop.generateBackoffOf (st.thresholds e)
        (QosFrameExchangeManager.linkEnv st v.fem c.now e) link else link) fun e he => ?_
    have hno := (Bool.and_eq_false_iff.1 hkeep).resolve_left (by simp [hpro])
    have hno' := List.any_eq_false.1 hno e he
    split
    next hgen =>
      refine .of_not_disabled (exec_edcaParams _ _ (_, .generateBackoff)) ?_
      simpa [hgen.1, hgen.2] using hno'
    next => exact .rfl
  next => exact h

theorem notify (h : ShieldInv st c) (n : Notification)
    (hkeep : notificationMovesShield st c n = false) : ShieldInv st (notify st v c n) := by
  cases n with
  | rxStart | sleep | off | navStart | removePhyListener =>
    simp only [ChannelAccessManager.notify]
    exact h.updateBackoff.onMedium _
  | rxEndOk | rxEndError | ackTimeoutStart | ackTimeoutReset | ctsTimeoutStart
    | ctsTimeoutReset =>
    simp only [ChannelAccessManager.notify]
    exact h.onMedium _
  | txStart duration =>
    simp only [ChannelAccessManager.notify]
    exact (h.onMedium _).updateBackoff.onMedium _
  | ccaBusyStart duration primary =>
    have hup := h.updateBackoff
    have hmoves : notificationMovesShield st (ChannelAccessManager.updateBackoff st c)
        (.ccaBusyStart 0 true) = false := by
      refine Bool.and_eq_false_iff.2 ((Bool.and_eq_false_iff.1 hkeep).imp_right fun hno => ?_)
      refine List.any_eq_false.2 fun e he hgen => List.any_eq_false.1 hno e he ?_
      have hd := (Bool.and_eq_true_iff.1 (Bool.and_eq_true_iff.1 hgen).1).1
      have hd' : disabled st c.now e (c.links e) = true :=
        (disabled_congr updateBackoff_edcaParams).symm.trans hd
      rwa [updateBackoff_links_of_disabled (h.shielded e) hd'] at hgen
    simp only [ChannelAccessManager.notify]
    cases primary with
    | true => exact (hup.onMedium _).generateProactiveBackoff hmoves
    | false => exact hup.generateProactiveBackoff hmoves
  | switchingStart duration =>
    simp only [ChannelAccessManager.notify]
    exact ((h.onMedium _).resetAllBackoffs hkeep).onMedium _
  | wakeup =>
    simp only [ChannelAccessManager.notify]
    exact (h.onMedium _).resetIfLonger _ hkeep
  | on =>
    simp only [ChannelAccessManager.notify]
    exact (h.onMedium _).resetIfLonger _ hkeep
  | navReset duration =>
    simp only [ChannelAccessManager.notify]
    split
    · exact h
    · exact h.updateBackoff.onMedium _
  | setupPhyListener phy reactivated =>
    simp only [ChannelAccessManager.notify]
    refine ShieldInv.onMedium ?_ _
    split
    · exact h.onMedium _
    next hre =>
      split
      next hno =>
        have hreset : (decide (c.resetBackoffThreshold < c.now - c.medium.lastNoPhy.start) &&
            resetMovesShield st c) = false := by
          simpa [notificationMovesShield, hre, hno] using hkeep
        exact (h.onMedium _).resetIfLonger _ hreset
      next => exact h

/-- A step that moves no shield keeps the invariant. -/
theorem step (h : ShieldInv st c) {i : CamEnv ι × CamEvent ι}
    (hspares : Spares st i.1.startTransmission) (hkeep : movesShield st c i = false) :
    ShieldInv st (step st c i) := by
  rcases i with ⟨v, ev⟩
  cases ev with
  | elapse d => exact ⟨fun e => (h.shielded e).elapse d, h.hist⟩
  | notify n => exact h.notify n hkeep
  | startAccess e hadFramesToTransmit checkMediumBusy => exact h.startAccessAfterEvent hspares hkeep
  | requestAccess e =>
    simp only [ChannelAccessManager.step]
    split
    next haccess =>
      refine h.requestAccess hspares fun hphy hd => ?_
      change (_ && _ && _ && _) = false at hkeep
      rw [hd, haccess, hphy] at hkeep
      simpa using hkeep
    next => exact h
  | accessTimeout => exact h.accessTimeout hspares hkeep
  | call e t =>
    refine h.call fun hd => ?_
    change (_ && _) = false at hkeep
    rwa [hd, Bool.true_and] at hkeep
  | startMuEdcaTimerNow e => exact h.startMuEdcaTimerNow
  | setMuEdcaParameters e cwMin cwMax aifsn timer => exact h.setMuEdcaParameters hkeep

end ShieldInv

/-! ## The frame exchange manager -/

section FrameExchange

open QosFrameExchangeManager

variable (v : FemEnv ι) (s : QosFrameExchangeManager ι)

/-- `StartTransmission` of the frame exchange manager `s`, with the links of the channel
access manager. -/
def femStart : FemStart ι := fun e links =>
  let s' := QosFrameExchangeManager.step st { s with links := links } (v, .grant e)
  (s'.phase ≠ .idle, s'.links)

variable {st v s} {e e' : ι}

theorem startTxopTransmission_links_of_ne (he : e' ≠ e) (txopDuration : Time) :
    (startTxopTransmission st v s e txopDuration).links e' = s.links e' := by
  have hcf : ∀ s : QosFrameExchangeManager ι,
      (sendCfEndIfNeeded st v s e).links e' = s.links e' := by
    intro s
    unfold sendCfEndIfNeeded
    split
    · rfl
    · exact call_links_of_ne st v s e _ he
  unfold startTxopTransmission
  dsimp only
  split_ifs <;> simp [beginExchange, releaseEdca, hcf, call_links_of_ne st v _ e _ he]

theorem startTransmission_links_of_ne (hpifs : pifsRecoveryPending s = false) (he : e' ≠ e) :
    (startTransmission st v s e).links e' = s.links e' := by
  have hcall : ∀ (s : QosFrameExchangeManager ι) (t : TxopCall),
      (QosFrameExchangeManager.call st v s e t).links e' = s.links e' :=
    fun s t => call_links_of_ne st v s e t he
  have hgranted : (accessGranted st v s e).links e' = s.links e' := by
    simp only [accessGranted, hpifs, Bool.false_eq_true, if_false]
    split
    · exact hcall s _
    · rfl
  unfold startTransmission
  dsimp only
  split
  · unfold startQosTransmission
    dsimp only
    split
    · exact (hcall _ _).trans hgranted
    · exact (startTxopTransmission_links_of_ne he _).trans hgranted
  · unfold startDcfTransmission
    dsimp only
    split <;> exact (hcall _ _).trans hgranted

/-- Unless it cancels a PIFS recovery, `StartTransmission` acts on no other link than that of
the `Txop` it is called for. -/
theorem spares_femStart (hpifs : pifsRecoveryPending s = false) : Spares st (femStart st v s) := by
  intro now e links hd e'
  refine ⟨?_, fun hd' => ?_⟩
  · exact (step_reaches (v, .grant e) e').invariant
      (P := fun link : QosLinkEntity => link.edcaParams = (links e').edcaParams)
      (fun link i h => (exec_edcaParams _ link i).trans h) rfl
  · have he : e' ≠ e := fun he => absurd (hd.symm.trans (he ▸ hd')) (by decide)
    refine le_of_eq ?_
    simp only [femStart, QosFrameExchangeManager.step]
    split
    · rw [startTransmission_links_of_ne (s := { s with links := links }) hpifs he]
    · rfl

end FrameExchange

/-! ## Runs -/

/-- In a run whose steps move no shield, no EDCAF is offered access or loses an internal
collision while its EDCA is disabled. -/
theorem disabledEdca_of_each (txops : List ι) (hnd : txops.Nodup) (base : ι → LinkEntity)
    (is : List (CamEnv ι × CamEvent ι)) (hspares : ∀ i ∈ is, Spares st i.1.startTransmission)
    (hkeep : Runs.Each (step st) (fun c i => movesShield st c i = false) (init txops hnd base) is) :
    Runs.Always (step st)
      (fun c => c.hist.disabledOffered = false ∧ c.hist.disabledCollided = false)
      (init txops hnd base) is := by
  have hinit : ShieldInv st (init txops hnd base) :=
    ⟨fun e => .of_not_disabled (by simp [disabled, QosTxop.edcaDisabled,
      QosTxop.muEdcaTimerRunning, init, QosLinkEntity.fresh]), rfl⟩
  have hinv : Runs.Always (step st) (ShieldInv st) (init txops hnd base) is :=
    (hkeep.and_of_mem hspares).always (fun c i h hok => h.step hok.2 hok.1) hinit
  exact hinv.mono fun c h => by simp [h.hist]

/-! ## A packet for a disabled EDCAF -/

open QosFrameExchangeManager

/-- The parameters of the voice and best effort EDCAFs. -/
def edcaBase : AcIndex → LinkEntity
  | .vo => { cw := 3, cwMin := 3, cwMax := 7, aifsn := 2 }
  | _ => { cw := 15, cwMin := 15, cwMax := 1023, aifsn := 3 }

/-- A station with these two EDCAFs. -/
def voBeManager : ChannelAccessManager AcIndex :=
  init [.vo, .be] (by decide) edcaBase

/-- An event, with the frame exchange manager idle and frames in every queue. -/
def camEvent (ev : CamEvent AcIndex) : CamEnv AcIndex × CamEvent AcIndex :=
  ({ startTransmission := femStart defaultStation {} (QosFrameExchangeManager.init edcaBase) }, ev)

/-- The MU EDCA timer of the best effort EDCAF starts, with AIFSN 0. A packet is enqueued
for it, another for the voice EDCAF, whose backoff expires. -/
def bePacketWhileDisabled : List (CamEnv AcIndex × CamEvent AcIndex) :=
  [.elapse 100000, .setMuEdcaParameters .be 15 1023 0 (microSeconds 8192),
    .startMuEdcaTimerNow .be, .elapse 100000, .startAccess .be false true, .elapse 9000,
    .startAccess .vo false true, .elapse 9000, .accessTimeout].map camEvent

/-- The same without the packet for the best effort EDCAF. -/
def voPacketWhileBeDisabled : List (CamEnv AcIndex × CamEvent AcIndex) :=
  [.elapse 100000, .setMuEdcaParameters .be 15 1023 0 (microSeconds 8192),
    .startMuEdcaTimerNow .be, .elapse 109000, .startAccess .vo false true, .elapse 9000,
    .accessTimeout].map camEvent

theorem disabledEdca_of_each_voPacket :
    Runs.Always (step defaultStation)
      (fun c => c.hist.disabledOffered = false ∧ c.hist.disabledCollided = false) voBeManager
      voPacketWhileBeDisabled :=
  disabledEdca_of_each defaultStation [.vo, .be] (by decide) edcaBase voPacketWhileBeDisabled
    (fun i hi => by
      obtain ⟨ev, -, rfl⟩ := List.mem_map.1 hi
      exact spares_femStart rfl)
    (by decide)

/-- The best effort EDCAF loses an internal collision while it is disabled. -/
theorem disabledEdca_broken :
    ¬Runs.Always (step defaultStation)
      (fun c => c.hist.disabledOffered = false ∧ c.hist.disabledCollided = false) voBeManager
      bePacketWhileDisabled :=
  fun h => absurd h.last.2 (by decide)

end ChannelAccessManager

end Ns3Pedca
