import Ns3Pedca.Wifi.QosTxop

/-!
# The Duration/ID of a P-EDCA CTS-to-self

`SendPedcaCtsAndRecontend` asks `GetCtsToSelfDurationId` for a duration that covers a SIFS and the
AIFS of the contention that follows. With a TXOP limit of zero it gets that; with a positive one it
gets what remains of the TXOP, which has just been started with a duration of zero, so the
CTS-to-self protects nothing (`protectsWindow_iff`).
-/

namespace Ns3Pedca

open QosTxop

/-- What `QosFrameExchangeManager` knows about a CTS-to-self : the time it takes on the air is that
of its TXVECTOR. -/
structure CtsToSelf where
  sifs : Time
  slot : Time
  ctsTxDuration : Time
  protectSingleExchange : Bool := false
  singleExchangeProtectionSurplus : Time := 0

namespace CtsToSelf

variable (c : CtsToSelf) (now : Time)

/-- `FrameExchangeManager::GetCtsToSelfDurationId`. -/
def dcfCtsToSelfDurationId (txDuration response : Time) : Time :=
  c.sifs + txDuration + response

/-- `GetCtsToSelfDurationId`, for the link of `m_edca` if it is not null. -/
def getCtsToSelfDurationId (edca : Option QosLinkEntity) (txDuration response : Time) : Time :=
  let singleDurationId := c.dcfCtsToSelfDurationId txDuration response
  match edca with
  | none => singleDurationId
  | some link =>
    if link.txopLimit = 0 then singleDurationId
    else
      let duration := max (getRemainingTxop now link - c.ctsTxDuration) 0
      if c.protectSingleExchange then
        min duration (singleDurationId + c.singleExchangeProtectionSurplus)
      else duration

/-- The duration of the CTS-to-self that `SendPedcaCtsAndRecontend` sends for the EDCAF of a
link. -/
def pedcaCtsDuration (v : LinkEnv) (link : QosLinkEntity) : Time :=
  let link := notifyChannelAccessedOf v link 0
  let edcaDeferWindow := c.slot * (getEdcaAifsn v.now link).toNat
  c.getCtsToSelfDurationId v.now (some link) edcaDeferWindow 0

/-- `SetDuration` : in microseconds, rounded up. It asserts that the field can hold them. -/
def setDuration (duration : Time) : Option ℕ :=
  let durationUs := -(-duration / 1000)
  if 0 ≤ durationUs ∧ durationUs ≤ 0x7fff then some durationUs.toNat else none

/-! ## The window -/

/-- A SIFS, and the slots of the AIFSN of EDCA. -/
def window (v : LinkEnv) (link : QosLinkEntity) : Time :=
  c.sifs + c.slot * (getEdcaAifsn v.now link).toNat

/-- `ProtectSingleExchange` lowers the duration that the TXOP limit asks for. -/
def Capped (v : LinkEnv) (link : QosLinkEntity) : Prop :=
  c.protectSingleExchange = true ∧ link.txopLimit ≠ 0 ∧
    c.window v link + c.singleExchangeProtectionSurplus <
      max (getRemainingTxop v.now (notifyChannelAccessedOf v link 0) - c.ctsTxDuration) 0

/-- The Duration/ID in the CTS-to-self is at least the window, unless it is capped. -/
def ProtectsWindow (v : LinkEnv) (link : QosLinkEntity) : Prop :=
  ∀ durationUs, setDuration (c.pedcaCtsDuration v link) = some durationUs →
    c.Capped v link ∨ c.window v link ≤ microSeconds durationUs

variable {c} {v : LinkEnv} {link : QosLinkEntity}

/-- The field is rounded up. -/
theorem le_of_setDuration {duration : Time} {durationUs : ℕ}
    (h : setDuration duration = some durationUs) : duration ≤ microSeconds durationUs := by
  rw [setDuration] at h
  split_ifs at h with hfits
  obtain rfl := Option.some.inj h
  have hceil : ∀ d : ℤ, 0 ≤ -(-d / 1000) → d ≤ 1000 * ((-(-d / 1000)).toNat : ℤ) := by omega
  exact hceil duration hfits.1

/-- A TXOP that was started now with a duration of zero has nothing left. -/
theorem getRemainingTxop_accessed (hq : v.attrs.isQosTxop = true) :
    getRemainingTxop v.now (notifyChannelAccessedOf v link 0) = 0 := by
  rw [notifyChannelAccessedOf, if_pos hq]
  change max (0 : ℤ) (0 - (v.now - v.now)) = 0
  rw [sub_self, sub_zero, max_self]

theorem getEdcaAifsn_accessed :
    getEdcaAifsn v.now (notifyChannelAccessedOf v link 0) = getEdcaAifsn v.now link := by
  rw [notifyChannelAccessedOf]
  split_ifs <;> rfl

theorem txopLimit_accessed : (notifyChannelAccessedOf v link 0).txopLimit = link.txopLimit := by
  rw [notifyChannelAccessedOf]
  split_ifs <;> rfl

/-- The duration for a TXOP limit of zero, and for any other. -/
theorem pedcaCtsDuration_eq (hq : v.attrs.isQosTxop = true) (hcts : 0 ≤ c.ctsTxDuration) :
    c.pedcaCtsDuration v link = if link.txopLimit = 0 then c.window v link
      else if c.protectSingleExchange then
        min 0 (c.window v link + c.singleExchangeProtectionSurplus)
      else 0 := by
  have hmax : max (0 - c.ctsTxDuration) 0 = 0 := max_eq_right (sub_nonpos.2 hcts)
  rw [pedcaCtsDuration, getCtsToSelfDurationId]
  dsimp only
  rw [getRemainingTxop_accessed hq, getEdcaAifsn_accessed, txopLimit_accessed, hmax,
    dcfCtsToSelfDurationId, add_zero]
  rfl

/-- The CTS-to-self of an EDCAF protects the window exactly if the TXOP limit is zero, or if the cap
of `ProtectSingleExchange` is below zero. -/
theorem protectsWindow_iff (c : CtsToSelf) (v : LinkEnv) (link : QosLinkEntity)
    (hq : v.attrs.isQosTxop = true) (hsifs : 0 < c.sifs) (hslot : 0 ≤ c.slot)
    (hcts : 0 ≤ c.ctsTxDuration) :
    c.ProtectsWindow v link ↔ link.txopLimit = 0 ∨
      c.protectSingleExchange = true ∧
        c.window v link + c.singleExchangeProtectionSurplus < 0 := by
  have hwindow : 0 < c.window v link := by
    have hslots : 0 ≤ c.slot * ((getEdcaAifsn v.now link).toNat : ℤ) :=
      mul_nonneg hslot (Int.natCast_nonneg _)
    exact add_pos_of_pos_of_nonneg hsifs hslots
  have hcapped : c.Capped v link ↔ c.protectSingleExchange = true ∧ link.txopLimit ≠ 0 ∧
      c.window v link + c.singleExchangeProtectionSurplus < 0 := by
    rw [Capped, getRemainingTxop_accessed hq, max_eq_right (sub_nonpos.2 hcts)]
  rw [ProtectsWindow, hcapped, pedcaCtsDuration_eq hq hcts]
  constructor
  · intro h
    by_cases hlimit : link.txopLimit = 0
    · exact Or.inl hlimit
    · refine Or.inr ?_
      by_contra hcap
      -- the duration is zero
      have hzero : (if c.protectSingleExchange = true then
          min 0 (c.window v link + c.singleExchangeProtectionSurplus) else 0) = 0 := by
        split_ifs with hprotect
        · exact min_eq_left (not_lt.1 fun hneg => hcap ⟨hprotect, hneg⟩)
        · rfl
      rw [if_neg hlimit, hzero] at h
      rcases h 0 rfl with ⟨hprotect, -, hneg⟩ | hle
      · exact hcap ⟨hprotect, hneg⟩
      · exact absurd hwindow (not_lt.2 hle)
  · rintro h durationUs hdur
    by_cases hlimit : link.txopLimit = 0
    · rw [if_pos hlimit] at hdur
      exact Or.inr (le_of_setDuration hdur)
    · obtain ⟨hprotect, hneg⟩ := h.resolve_left hlimit
      exact Or.inl ⟨hprotect, hlimit, hneg⟩

/-- A CTS-to-self at 6 Mb/s in the 5 GHz band. -/
def ctsAt6Mbps : CtsToSelf :=
  { sifs := microSeconds 16, slot := microSeconds 9, ctsTxDuration := microSeconds 44 }

/-- With a TXOP limit of zero. -/
theorem protectsWindow_noLimit : ctsAt6Mbps.ProtectsWindow {} { aifsn := 2 } :=
  (protectsWindow_iff ctsAt6Mbps {} { aifsn := 2 } rfl (by decide) (by decide) (by decide)).2
    (Or.inl rfl)

/-- With the default TXOP limit of the voice access category the Duration/ID is zero. -/
theorem not_protectsWindow : ¬∀ (c : CtsToSelf) (v : LinkEnv) (link : QosLinkEntity),
    v.attrs.isQosTxop = true → 0 < c.sifs → 0 ≤ c.slot → 0 ≤ c.ctsTxDuration →
      c.ProtectsWindow v link := by
  intro h
  have hprotects := h ctsAt6Mbps {} { aifsn := 2, txopLimit := microSeconds 2080 } rfl (by decide)
    (by decide) (by decide) 0 (by decide)
  rcases hprotects with ⟨hprotect, -⟩ | hle
  · exact absurd hprotect (by decide)
  · exact absurd hle (by decide)

end CtsToSelf

end Ns3Pedca
