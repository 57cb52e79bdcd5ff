import Ns3Pedca.Wifi.QosTxop

/-!
# P-EDCA on one link

With `DistributePedcaAcrossLinks` a station is to use P-EDCA on one of its links. `GenerateBackoff`
picks it by comparing the ID of a link with `PreferredPedcaLinkId` modulo the number of links. The
IDs of the links are those that the AP gave them, so the index it computes may be the ID of no
link : exactly one link is picked if it is one (`usedOnOneLink_iff`), and none otherwise.
-/

namespace Ns3Pedca

open QosTxop

/-- The IDs of the links of a multi-link device. `GetNLinks` returns an 8-bit number. -/
structure LinkIds where
  ids : Finset UInt8
  two_le : 2 ≤ ids.card
  card_lt : ids.card < 2 ^ 8

namespace LinkIds

variable (links : LinkIds)

/-- `GetNLinks`. -/
def getNLinks : UInt8 :=
  .ofNat links.ids.card

/-- The environment of a `QosTxop` on one of the links. -/
def linkEnv (v : LinkEnv) (linkId : UInt8) : LinkEnv :=
  { v with mac := { v.mac with nLinks := links.getNLinks, linkId := linkId } }

/-- `GenerateBackoff` can leave a link in P-EDCA mode. -/
def CanUsePedca (t : PedcaThresholds) (v : LinkEnv) : Prop :=
  ∃ link, (QosTxop.generateBackoff t v link).pedcaMode = true

/-- One link passes the test of `GenerateBackoff`, and P-EDCA is used on one link and on no
other. -/
def UsedOnOneLink (t : PedcaThresholds) (v : LinkEnv) : Prop :=
  (∃! linkId, linkId ∈ links.ids ∧ linkId = v.attrs.preferredPedcaLinkId % links.getNLinks) ∧
    ∃! linkId, linkId ∈ links.ids ∧ CanUsePedca t (links.linkEnv v linkId)

variable {links} {t : PedcaThresholds} {v : LinkEnv}

/-- An EDCAF that is eligible uses P-EDCA on a link unless it leaves it to another one. -/
theorem canUsePedca_iff (hv : isUhrVo v = true) :
    CanUsePedca t v ↔ pedcaOnOtherLink v = false := by
  constructor
  · rintro ⟨link, hmode⟩
    refine Bool.eq_false_iff.2 fun hother => ?_
    rw [QosTxop.generateBackoff, if_pos hv, if_pos hother] at hmode
    exact Bool.false_ne_true hmode
  · intro hother
    -- a link in P-EDCA mode whose budget is not spent
    refine ⟨{ pedcaMode := true, pedcaAfterCts := true, psrc := t.psrcThreshold + 1 }, ?_⟩
    have hpsrc : ¬(t.psrcThreshold + 1 == t.psrcThreshold) = true := by
      rw [beq_iff_eq]
      simp
    rw [QosTxop.generateBackoff, if_pos hv, if_neg (by simp [hother])]
    dsimp only [recordPedcaEligibilityCheck]
    rw [if_pos (by simp), if_neg hpsrc, if_pos rfl]
    rfl

/-- The test of `GenerateBackoff`. -/
theorem pedcaOnOtherLink_linkEnv (hdistribute : v.attrs.distributePedcaAcrossLinks = true)
    (hsta : v.mac.typeOfStation = .sta) (linkId : UInt8) :
    pedcaOnOtherLink (links.linkEnv v linkId) = false ↔
      linkId = v.attrs.preferredPedcaLinkId % links.getNLinks := by
  have hn : links.getNLinks > 1 := by
    have hlt := links.card_lt
    have hle := links.two_le
    rw [gt_iff_lt, UInt8.lt_iff_toNat_lt, getNLinks, UInt8.toNat_ofNat_of_lt' hlt]
    exact hle
  rw [pedcaOnOtherLink, linkEnv]
  simp [hdistribute, hsta, hn]

/-- With P-EDCA distributed across the links of a station, it is used on exactly one link if and
only if the preferred ID modulo the number of links is the ID of a link. -/
theorem usedOnOneLink_iff (links : LinkIds) (t : PedcaThresholds) (v : LinkEnv)
    (hv : isUhrVo v = true) (hdistribute : v.attrs.distributePedcaAcrossLinks = true)
    (hsta : v.mac.typeOfStation = .sta) :
    links.UsedOnOneLink t v ↔ v.attrs.preferredPedcaLinkId % links.getNLinks ∈ links.ids := by
  have hcan : ∀ linkId, CanUsePedca t (links.linkEnv v linkId) ↔
      linkId = v.attrs.preferredPedcaLinkId % links.getNLinks := by
    intro linkId
    rw [canUsePedca_iff (v := links.linkEnv v linkId) hv]
    exact pedcaOnOtherLink_linkEnv hdistribute hsta linkId
  have hone : (∃! linkId, linkId ∈ links.ids ∧
      linkId = v.attrs.preferredPedcaLinkId % links.getNLinks) ↔
      v.attrs.preferredPedcaLinkId % links.getNLinks ∈ links.ids := by
    constructor
    · rintro ⟨linkId, ⟨hmem, rfl⟩, -⟩
      exact hmem
    · intro hmem
      exact ⟨_, ⟨hmem, rfl⟩, fun linkId h => h.2⟩
  simp only [UsedOnOneLink, hcan, hone, and_self]

/-- A voice EDCAF of a UHR station that distributes P-EDCA. -/
def distributedEnv : LinkEnv :=
  { attrs := { distributePedcaAcrossLinks := true }, phyStandard := some .s80211uhr }

/-- With the link IDs 0 and 1. -/
theorem usedOnOneLink_zeroOne :
    UsedOnOneLink ⟨{0, 1}, by decide, by decide⟩ {} distributedEnv :=
  (usedOnOneLink_iff ⟨{0, 1}, by decide, by decide⟩ {} distributedEnv (by decide) rfl rfl).2
    (by decide)

/-- With the link IDs 1 and 2 no link has the index 0. -/
theorem not_usedOnOneLink : ¬∀ (links : LinkIds) (t : PedcaThresholds) (v : LinkEnv),
    isUhrVo v = true → v.attrs.distributePedcaAcrossLinks = true → v.mac.typeOfStation = .sta →
      links.UsedOnOneLink t v := by
  intro h
  obtain ⟨⟨linkId, ⟨hmem, heq⟩, -⟩, -⟩ :=
    h ⟨{1, 2}, by decide, by decide⟩ {} distributedEnv (by decide) rfl rfl
  rw [heq] at hmem
  exact absurd hmem (by decide)

end LinkIds

end Ns3Pedca
