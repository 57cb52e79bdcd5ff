import Ns3Pedca.Wifi.MacTxMiddle

/-!
# Sequence numbers are not shared

Two MPDUs of one space should not hold the same number unless the counter has gone around
between them (`NotShared`). A release sets the counter back to the number of the released
MPDU. That is right for the MPDU that was numbered last, and gives the numbers of all MPDUs
that were numbered after it a second time if it was not. `notShared_of_releasesLast` :
numbers are not shared in a run that releases no MPDU while one numbered after it holds its
number, and no fragment, which keeps its number. The test of the HT override ensures this
for MPDUs numbered less than a turn ago (`Unwrapped.releasesLast`).

`Unwrapped` keeps the counters and the numbers without the wrap.
-/

set_option linter.unusedSectionVars false

namespace Ns3Pedca

namespace MacTxMiddle

open Runs

variable {ι : Type*} [DecidableEq ι] {tx : MacTxMiddle ι} {m x y : ι}

/-- Of two MPDUs of a space, the later one of which was numbered less than a turn after the
other, the numbers differ. -/
def NotShared (tx : MacTxMiddle ι) : Prop :=
  ∀ x y t t', x ≠ y → tx.space x = tx.space y → (tx.mpdu x).numbered = some t →
    (tx.mpdu y).numbered = some t' → t' < t + seqnoSpaceSize → t < t' + seqnoSpaceSize →
    (tx.mpdu x).header.sequenceNumber ≠ (tx.mpdu y).header.sequenceNumber

/-- The MPDU is no fragment, and holds the number that was given last of those that are held
in its space. -/
def HoldsLast (tx : MacTxMiddle ι) (m : ι) : Prop :=
  (tx.mpdu m).header.isFragment = false ∧ ∃ t, (tx.mpdu m).numbered = some t ∧
    ∀ x t', tx.space x = tx.space m → (tx.mpdu x).numbered = some t' → t' ≤ t

/-- Every MPDU that the step releases holds the last number of its space then. -/
def ReleasesLast (tx : MacTxMiddle ι) : SequenceEvent ι → Prop
  | .releaseSequenceNumbers agreementEstablished psdu =>
    Each (fun tx m => tx.releaseIf m agreementEstablished)
      (fun tx m => releaseTest agreementEstablished tx m = true → tx.HoldsLast m) tx
      (releaseOrder agreementEstablished psdu)
  | _ => True

/-! ## Numbers without the wrap -/

/-- `u` and `t` are the number of an MPDU without the wrap and when it was given. The later of
two MPDUs has the greater number, by no more than were given in the meantime. -/
def Before (u t u' t' : ℕ) : Prop :=
  t < t' ∧ u < u' ∧ u' + t ≤ u + t'

/-- The counters `count` and the numbers `u` without the wrap. -/
structure Unwrapped (tx : MacTxMiddle ι) (count : SequenceSpace → ℕ) (u : ι → ℕ) : Prop where
  sequence : ∀ space, (tx.sequence space).val = count space % seqnoSpaceSize
  sequenceNumber : ∀ x t, (tx.mpdu x).numbered = some t →
    (tx.mpdu x).header.sequenceNumber.val = u x % seqnoSpaceSize
  before_next : ∀ x t, (tx.mpdu x).numbered = some t →
    Before (u x) t (count (tx.space x)) (tx.numberings (tx.space x))
  before_or : ∀ x y t t', x ≠ y → tx.space x = tx.space y → (tx.mpdu x).numbered = some t →
    (tx.mpdu y).numbered = some t' → Before (u x) t (u y) t' ∨ Before (u y) t' (u x) t

theorem Before.ne {u t u' t' : ℕ} (h : Before u t u' t') (hlt : t' < t + seqnoSpaceSize) :
    u % seqnoSpaceSize ≠ u' % seqnoSpaceSize := by
  obtain ⟨-, hu, hle⟩ := h
  change t' < t + 4096 at hlt
  change u % 4096 ≠ u' % 4096
  omega

namespace Unwrapped

variable {count : SequenceSpace → ℕ} {u : ι → ℕ}

theorem init (header : ι → WifiMacHeader) :
    Unwrapped (init header) (fun _ => 0) (fun _ => 0) where
  sequence _ := rfl
  sequenceNumber _ _ h := by cases h
  before_next _ _ h := by cases h
  before_or _ _ _ _ _ _ h := by cases h

theorem notShared (h : Unwrapped tx count u) : NotShared tx := by
  intro x y t t' hne hspace hx hy hlt hlt' heq
  have hmod : u x % seqnoSpaceSize = u y % seqnoSpaceSize := by
    rw [← h.sequenceNumber x t hx, ← h.sequenceNumber y t' hy, heq]
  rcases h.before_or x y t t' hne hspace hx hy with hb | hb
  · exact hb.ne hlt hmod
  · exact hb.ne hlt' hmod.symm

/-! ## Steps -/

theorem modify (h : Unwrapped tx count u) {f : TxMpdu → TxMpdu}
    (hspace : (f (tx.mpdu m)).header.sequenceSpace = (tx.mpdu m).header.sequenceSpace)
    (hseq : (f (tx.mpdu m)).header.sequenceNumber = (tx.mpdu m).header.sequenceNumber)
    (hnum : ∀ t, (f (tx.mpdu m)).numbered = some t → (tx.mpdu m).numbered = some t) :
    Unwrapped (tx.modify m f) count u := by
  have hmpdu : ∀ x, (tx.modify m f).space x = tx.space x ∧
      ((tx.modify m f).mpdu x).header.sequenceNumber = (tx.mpdu x).header.sequenceNumber ∧
      ∀ t, ((tx.modify m f).mpdu x).numbered = some t → (tx.mpdu x).numbered = some t := by
    intro x
    rcases eq_or_ne x m with rfl | hx
    · rw [space, mpdu_modify_self]
      exact ⟨hspace, hseq, hnum⟩
    · rw [space, mpdu_modify_of_ne tx m f hx]
      exact ⟨rfl, rfl, fun _ => id⟩
  constructor
  · exact h.sequence
  · intro x t hx
    rw [(hmpdu x).2.1]
    exact h.sequenceNumber x t ((hmpdu x).2.2 t hx)
  · intro x t hx
    rw [(hmpdu x).1]
    exact h.before_next x t ((hmpdu x).2.2 t hx)
  · intro x y t t' hne hxy hx hy
    rw [(hmpdu x).1, (hmpdu y).1] at hxy
    exact h.before_or x y t t' hne hxy ((hmpdu x).2.2 t hx) ((hmpdu y).2.2 t' hy)

/-- Numbering an MPDU, which thereby gives up a number it held. -/
theorem number (h : Unwrapped tx count u) (m : ι) (assigned : Bool) :
    Unwrapped (tx.number m assigned)
      (Function.update count (tx.space m) (count (tx.space m) + 1))
      (Function.update u m (count (tx.space m))) := by
  have hspace : ∀ x, (tx.number m assigned).space x = tx.space x := by
    intro x
    rcases eq_or_ne x m with rfl | hx
    · rw [space, mpdu_number_self]
      rfl
    · rw [space, mpdu_number_of_ne tx m assigned hx, space]
  -- an MPDU that holds its number comes before the one that is numbered
  have hbefore : ∀ x t, tx.space x = tx.space m → (tx.mpdu x).numbered = some t →
      Before (u x) t (count (tx.space m)) (tx.numberings (tx.space m)) := by
    intro x t hx hnum
    rw [← hx]
    exact h.before_next x t hnum
  constructor
  · intro space
    change (Function.update tx.sequence (tx.space m) _ space).val = _
    rcases eq_or_ne space (tx.space m) with rfl | hne
    · rw [Function.update_self, Function.update_self]
      change ((tx.sequence (tx.space m)).val + 1) % seqnoSpaceSize = _
      rw [h.sequence, Nat.mod_add_mod]
    · rw [Function.update_of_ne hne, Function.update_of_ne hne]
      exact h.sequence space
  · intro x t hx
    rcases eq_or_ne x m with rfl | hne
    · rw [mpdu_number_self, Function.update_self]
      exact h.sequence _
    · rw [mpdu_number_of_ne tx m assigned hne] at hx ⊢
      rw [Function.update_of_ne hne]
      exact h.sequenceNumber x t hx
  · intro x t hx
    rw [hspace]
    change Before _ t _ (Function.update tx.numberings (tx.space m) _ (tx.space x))
    rcases eq_or_ne x m with rfl | hne
    · rw [mpdu_number_self] at hx
      cases hx
      rw [Function.update_self, Function.update_self, Function.update_self]
      exact ⟨Nat.lt_succ_self _, Nat.lt_succ_self _, by omega⟩
    · rw [mpdu_number_of_ne tx m assigned hne] at hx
      rw [Function.update_of_ne hne]
      rcases eq_or_ne (tx.space x) (tx.space m) with hxm | hxm
      · obtain ⟨ht, hu, hle⟩ := hbefore x t hxm hx
        rw [hxm, Function.update_self, Function.update_self]
        exact ⟨by omega, by omega, by omega⟩
      · rw [Function.update_of_ne hxm, Function.update_of_ne hxm]
        exact h.before_next x t hx
  · intro x y t t' hne hxy hx hy
    rw [hspace, hspace] at hxy
    rcases eq_or_ne x m with rfl | hxm
    · rw [mpdu_number_self] at hx
      cases hx
      rw [mpdu_number_of_ne tx x assigned hne.symm] at hy
      rw [Function.update_self, Function.update_of_ne hne.symm]
      exact .inr (hbefore y t' hxy.symm hy)
    · rw [mpdu_number_of_ne tx m assigned hxm] at hx
      rw [Function.update_of_ne hxm]
      rcases eq_or_ne y m with rfl | hym
      · rw [mpdu_number_self] at hy
        cases hy
        rw [Function.update_self]
        exact .inl (hbefore x t hxy hx)
      · rw [mpdu_number_of_ne tx m assigned hym] at hy
        rw [Function.update_of_ne hym]
        exact h.before_or x y t t' hne hxy hx hy

/-- Releasing the MPDU that holds the last number sets the counter back to it. -/
theorem release (h : Unwrapped tx count u) (hlast : tx.HoldsLast m) :
    Unwrapped (tx.release m) (Function.update count (tx.space m) (u m)) u := by
  obtain ⟨hfrag, t, ht, hmax⟩ := hlast
  obtain ⟨htn, -, hle⟩ := h.before_next m t ht
  have hself : (tx.release m).mpdu m =
      { tx.mpdu m with seqNoAssigned := false, numbered := none } := by
    rw [MacTxMiddle.release, mpdu_modify_self]
    change { tx.mpdu m with
      seqNoAssigned := false
      numbered := if (tx.mpdu m).header.isFragment then (tx.mpdu m).numbered else none } = _
    rw [hfrag]
    rfl
  have hother : ∀ x, x ≠ m → (tx.release m).mpdu x = tx.mpdu x :=
    fun x hx => mpdu_modify_of_ne _ _ _ hx
  have hspace : ∀ x, (tx.release m).space x = tx.space x := by
    intro x
    rcases eq_or_ne x m with rfl | hx
    · rw [space, hself]
      rfl
    · rw [space, hother x hx, space]
  have hnum : ∀ x t', ((tx.release m).mpdu x).numbered = some t' →
      x ≠ m ∧ (tx.mpdu x).numbered = some t' := by
    intro x t' hx
    rcases eq_or_ne x m with rfl | hxm
    · rw [hself] at hx
      cases hx
    · rw [hother x hxm] at hx
      exact ⟨hxm, hx⟩
  constructor
  · intro space
    change (Function.update tx.sequence (tx.space m) _ space).val = _
    rcases eq_or_ne space (tx.space m) with rfl | hne
    · rw [Function.update_self, Function.update_self]
      exact h.sequenceNumber m t ht
    · rw [Function.update_of_ne hne, Function.update_of_ne hne]
      exact h.sequence space
  · intro x t' hx
    obtain ⟨hxm, hx⟩ := hnum x t' hx
    rw [hother x hxm]
    exact h.sequenceNumber x t' hx
  · intro x t' hx
    obtain ⟨hxm, hx⟩ := hnum x t' hx
    rw [hspace]
    change Before _ t' _ (tx.numberings (tx.space x))
    rcases eq_or_ne (tx.space x) (tx.space m) with hspaces | hspaces
    · -- the others hold numbers given before that of `m`
      have hle' := hmax x t' hspaces hx
      rcases h.before_or x m t' t hxm hspaces hx ht with ⟨hlt, hu, hb⟩ | ⟨hlt, -, -⟩
      · rw [hspaces, Function.update_self]
        exact ⟨by omega, hu, by omega⟩
      · omega
    · rw [Function.update_of_ne hspaces]
      exact h.before_next x t' hx
  · intro x y t' t'' hne hxy hx hy
    rw [hspace, hspace] at hxy
    exact h.before_or x y t' t'' hne hxy (hnum x t' hx).2 (hnum y t'' hy).2

/-- The test of the HT override finds the MPDU that holds the last number, if the MPDU was
numbered less than a turn ago. -/
theorem holdsLast (h : Unwrapped tx count u) {t : ℕ} (ht : (tx.mpdu m).numbered = some t)
    (hfrag : (tx.mpdu m).header.isFragment = false)
    (hrecent : tx.numberings (tx.space m) ≤ t + seqnoSpaceSize)
    (htest : tx.isReleasedHt m = true) : tx.HoldsLast m := by
  obtain ⟨htn, hu, hle⟩ := h.before_next m t ht
  simp only [isReleasedHt, Bool.and_eq_true, decide_eq_true_eq] at htest
  have hnext : ((tx.mpdu m).header.sequenceNumber.val + 1) % seqnoSpaceSize =
      (tx.sequence (tx.space m)).val :=
    congrArg Fin.val htest.2
  rw [h.sequenceNumber m t ht, h.sequence, Nat.mod_add_mod] at hnext
  have hcount : count (tx.space m) = u m + 1 := by
    change (u m + 1) % 4096 = count (tx.space m) % 4096 at hnext
    change tx.numberings (tx.space m) ≤ t + 4096 at hrecent
    omega
  refine ⟨hfrag, t, ht, fun x t' hspace hx => ?_⟩
  by_contra hlt
  have hxm : x ≠ m := by
    rintro rfl
    rw [ht] at hx
    cases hx
    omega
  obtain ⟨-, hux, -⟩ := h.before_next x t' hx
  rw [hspace] at hux
  rcases h.before_or x m t' t hxm hspace hx ht with ⟨hb, -, -⟩ | ⟨-, hb, -⟩ <;> omega

end Unwrapped

/-- The numbers can be unwrapped. -/
def SequenceInv (tx : MacTxMiddle ι) : Prop :=
  ∃ count u, Unwrapped tx count u

theorem SequenceInv.releaseIf (h : SequenceInv tx) {agreementEstablished : Bool}
    (hlast : releaseTest agreementEstablished tx m = true → tx.HoldsLast m) :
    SequenceInv (tx.releaseIf m agreementEstablished) := by
  rw [MacTxMiddle.releaseIf]
  split
  next htest =>
    obtain ⟨count, u, h⟩ := h
    exact ⟨_, _, h.release (hlast htest)⟩
  next => exact h

theorem SequenceInv.number (h : SequenceInv tx) (m : ι) (assigned : Bool) :
    SequenceInv (tx.number m assigned) := by
  obtain ⟨count, u, h⟩ := h
  exact ⟨_, _, h.number m assigned⟩

theorem SequenceInv.modify (h : SequenceInv tx) {f : TxMpdu → TxMpdu}
    (hspace : (f (tx.mpdu m)).header.sequenceSpace = (tx.mpdu m).header.sequenceSpace)
    (hseq : (f (tx.mpdu m)).header.sequenceNumber = (tx.mpdu m).header.sequenceNumber)
    (hnum : ∀ t, (f (tx.mpdu m)).numbered = some t → (tx.mpdu m).numbered = some t) :
    SequenceInv (tx.modify m f) := by
  obtain ⟨count, u, h⟩ := h
  exact ⟨count, u, h.modify hspace hseq hnum⟩

/-- Every step keeps the unwrapped numbers, if it releases only last ones. -/
theorem SequenceInv.step (h : SequenceInv tx) {event : SequenceEvent ι}
    (hlast : tx.ReleasesLast event) : SequenceInv (tx.step event) := by
  cases event with
  | assignSequenceNumber m =>
    rw [MacTxMiddle.step, assignSequenceNumber]
    split
    · exact h.number m true
    · exact h
  | startTransmission m =>
    rw [MacTxMiddle.step, startTransmission]
    split
    · exact h.number m true
    · exact h
  | sendAddBaRequest m => exact h.number m false
  | releaseSequenceNumbers agreementEstablished psdu =>
    exact Each.invariant (fun _ _ hinv hok => hinv.releaseIf hok) hlast h
  | setInfo m isRetry isInFlight =>
    rw [MacTxMiddle.step]
    exact h.modify rfl rfl fun _ ht => ht
  | replace m fragmentNumber isMoreFragments =>
    rw [MacTxMiddle.step]
    exact h.modify rfl rfl fun _ ht => ht
  | discard m =>
    rw [MacTxMiddle.step]
    refine h.modify rfl rfl fun _ ht => ?_
    cases ht

/-- Numbers are not shared along a run that releases an MPDU only while it holds the last
number of its space. -/
theorem notShared_of_releasesLast (header : ι → WifiMacHeader)
    (events : List (SequenceEvent ι)) (h : Each step ReleasesLast (init header) events) :
    Always step NotShared (init header) events := by
  have hinit : SequenceInv (init header) := ⟨_, _, Unwrapped.init header⟩
  refine (h.always (fun _ _ hinv hok => hinv.step hok) hinit).mono ?_
  rintro tx ⟨count, u, hinv⟩
  exact hinv.notShared

/-- Four management frames of a station. -/
def managementFrames (_ : Fin 4) : WifiMacHeader where
  addr1 := .station 1
  addr2 := .station 2
  sequenceNumber := 0

theorem notShared_reuse : Always step NotShared (init managementFrames)
    [.startTransmission 0, .startTransmission 1, .releaseSequenceNumbers false [1],
      .startTransmission 2] := by
  have hmax : ∀ x, ((run step (init managementFrames)
      [.startTransmission 0, .startTransmission 1]).mpdu x).numbered.all (· ≤ 1) = true := by
    decide
  refine notShared_of_releasesLast _ _ ⟨trivial, trivial, ⟨fun _ => ⟨rfl, 1, rfl, ?_⟩, trivial⟩,
    trivial, trivial⟩
  intro x t hspace ht
  have hx := hmax x
  rw [run_cons, run_cons, run_nil, ht] at hx
  exact of_decide_eq_true hx

/-- The first of two frames is released, and its number and then that of the second one are
given again. -/
theorem not_notShared : ¬ ∀ events, Always step NotShared (init managementFrames) events := by
  intro h
  have hlast := (h [.startTransmission 0, .startTransmission 1, .releaseSequenceNumbers false [0],
    .startTransmission 2, .startTransmission 3]).last
  exact hlast 1 3 1 3 (by decide) rfl rfl rfl (by decide) (by decide) rfl

end MacTxMiddle

end Ns3Pedca
