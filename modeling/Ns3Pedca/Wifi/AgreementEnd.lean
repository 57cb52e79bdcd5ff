import Ns3Pedca.Wifi.Reordering

/-!
# The end of a recipient agreement

`DestroyRecipientAgreement` flushes the reordering buffer, and `CreateRecipientAgreement` overwrites
an agreement of the same key. A flush passes up what is before the start of the scoreboard, and then
goes on in sequence from there, so a buffered MPDU behind a gap that the scoreboard has not left
behind is lost, and an agreement that is overwritten loses all that it has buffered
(`allPassedUp_iff`).
-/

namespace Ns3Pedca

namespace RecipientBlockAckAgreement

open Circular

variable {α : Type*}

/-- `Flush`. -/
def flush (a : RecipientBlockAckAgreement α) : RecipientBlockAckAgreement α :=
  passBufferedMpdusUntilFirstLost
    (passBufferedMpdusWithSeqNumberLessThan a a.scoreboard.winStart)

/-- What ends an agreement. -/
inductive AgreementEnd
  | destroyRecipientAgreement
  | createRecipientAgreement
  deriving DecidableEq

/-- What an agreement has passed up when it ends. -/
def endAgreement (a : RecipientBlockAckAgreement α) : AgreementEnd → RxHistory α
  | .destroyRecipientAgreement => (flush a).hist
  | .createRecipientAgreement => a.hist

/-- All buffered MPDUs are passed up at the end, and in increasing order. -/
def AllPassedUp (a : RecipientBlockAckAgreement α) (e : AgreementEnd) : Prop :=
  (endAgreement a e).passedUp.map Prod.snd = a.hist.passedUp.map Prod.snd ++ a.bufferedMpdus ∧
    ((endAgreement a e).passedUp.map Prod.fst).Pairwise (· < ·)

/-- From the start of the scoreboard up to a buffered MPDU no number is missing, if the buffer is
flushed. Otherwise there is none. -/
def Flushable (a : RecipientBlockAckAgreement α) : AgreementEnd → Prop
  | .destroyRecipientAgreement =>
    ∀ mpdu ∈ a.bufferedMpdus, ∀ d, getDistance a.scoreboard.winStart a.winStartB ≤ d →
      d ≤ getDistance mpdu.seqNumber a.winStartB →
      ∃ mpdu' ∈ a.bufferedMpdus, getDistance mpdu'.seqNumber a.winStartB = d
  | .createRecipientAgreement => a.bufferedMpdus = []

/-! ## Nothing is made up -/

variable {a : RecipientBlockAckAgreement α} {W : ℕ}

/-- The MPDUs passed up and those buffered, in this order. -/
def allMpdus (a : RecipientBlockAckAgreement α) : List (WifiMpdu α) :=
  a.hist.passedUp.map Prod.snd ++ a.bufferedMpdus

theorem passedUp_receive (mpdu : WifiMpdu α) : (receive a mpdu).hist.passedUp.map Prod.snd =
    a.hist.passedUp.map Prod.snd ++ [mpdu] :=
  List.map_append

theorem allMpdus_passUntilFirstLost (mpdus : List (WifiMpdu α))
    (a : RecipientBlockAckAgreement α) :
    allMpdus (passUntilFirstLost mpdus a) = a.hist.passedUp.map Prod.snd ++ mpdus := by
  induction mpdus generalizing a with
  | nil => rfl
  | cons mpdu mpdus ih =>
    unfold passUntilFirstLost
    split
    · rw [ih]
      change (receive a mpdu).hist.passedUp.map Prod.snd ++ mpdus = _
      rw [passedUp_receive, List.append_assoc, List.singleton_append]
    · rfl

theorem allMpdus_passWithSeqNumberLessThan (s : SeqNo) (mpdus : List (WifiMpdu α))
    (a : RecipientBlockAckAgreement α) :
    allMpdus (passWithSeqNumberLessThan s mpdus a) = a.hist.passedUp.map Prod.snd ++ mpdus := by
  induction mpdus generalizing a with
  | nil => rfl
  | cons mpdu mpdus ih =>
    unfold passWithSeqNumberLessThan
    split
    · rw [ih, passedUp_receive, List.append_assoc, List.singleton_append]
    · rfl

/-- A flush moves MPDUs from the front of the buffer to those passed up. -/
theorem allMpdus_flush : allMpdus (flush a) = allMpdus a := by
  rw [flush, passBufferedMpdusUntilFirstLost, allMpdus_passUntilFirstLost]
  change allMpdus (passWithSeqNumberLessThan _ _ _) = _
  rw [allMpdus_passWithSeqNumberLessThan]
  rfl

/-! ## A flush -/

/-- A flush is a move of the window to the start of the scoreboard. -/
theorem toBuffer_flush (h : RxInv W a) (hW : W ≤ seqnoSpaceHalfSize) :
    toBuffer (flush a) = ReorderBuffer.moveTo
      (a.hist.progress + getDistance a.scoreboard.winStart a.winStartB) (toBuffer a) :=
  (moveWinStartB_spec h.unwrapped (h.noOldMpdus hW) h.buffer.pending_sorted _).1

theorem passedUp_flush_sorted (h : RxInv W a) (hW : W ≤ seqnoSpaceHalfSize) :
    ((flush a).hist.passedUp.map Prod.fst).Pairwise (· < ·) := by
  change (toBuffer (flush a)).released.Pairwise (· < ·)
  rw [toBuffer_flush h hW]
  have hmem : ∀ u ∈ (toBuffer a).pending, (toBuffer a).start ≤ u ∧
      u < (toBuffer a).start + getDistance a.scoreboard.winStart a.winStartB + W := by
    intro u hu
    obtain ⟨hlt, hlt'⟩ := h.buffer.pending_mem u hu
    exact ⟨hlt.le, hlt'.trans_le (Nat.add_le_add_right (Nat.le_add_right _ _) W)⟩
  exact (ReorderBuffer.moveTo_spec h.buffer.pending_sorted hmem h.buffer.released_sorted
    h.buffer.released_lt (Nat.le_add_right _ _)).inv.released_sorted

theorem bufferedMpdus_flush_eq_nil (h : RxInv W a) (hW : W ≤ seqnoSpaceHalfSize) :
    (flush a).bufferedMpdus = [] ↔ Flushable a .destroyRecipientAgreement := by
  have hpending : (flush a).bufferedMpdus = [] ↔ (toBuffer (flush a)).pending = [] :=
    List.map_eq_nil_iff.symm
  generalize hn : a.hist.progress + getDistance a.scoreboard.winStart a.winStartB = n
  have hmem : ∀ u, u ∈ (toBuffer a).pending ↔ ∃ mpdu ∈ a.bufferedMpdus,
      a.hist.progress + getDistance mpdu.seqNumber a.winStartB = u := by
    intro u
    rw [toBuffer, List.mem_map]
    simp only [h.unwrapped.number_eq]
  rw [hpending, toBuffer_flush h hW, hn, ReorderBuffer.moveTo,
    ReorderBuffer.pending_releaseRun_eq_nil (h.buffer.pending_sorted.filter _)
      fun u hu => of_decide_eq_true (List.mem_filter.1 hu).2]
  constructor
  · intro hrun mpdu hmpdu d hd hle
    have hin : a.hist.progress + getDistance mpdu.seqNumber a.winStartB ∈
        (toBuffer a).pending.filter (n ≤ ·) :=
      List.mem_filter.2 ⟨(hmem _).2 ⟨mpdu, hmpdu, rfl⟩, decide_eq_true (by omega)⟩
    have hnext := hrun _ hin (a.hist.progress + d) (by omega) (by omega)
    obtain ⟨mpdu', hmpdu', heq⟩ := (hmem _).1 (List.mem_filter.1 hnext).1
    exact ⟨mpdu', hmpdu', by omega⟩
  · intro hflush u hu u' hle hle'
    obtain ⟨mpdu, hmpdu, rfl⟩ := (hmem _).1 (List.mem_filter.1 hu).1
    obtain ⟨mpdu', hmpdu', heq⟩ := hflush mpdu hmpdu (u' - a.hist.progress) (by omega) (by omega)
    exact List.mem_filter.2 ⟨(hmem _).2 ⟨mpdu', hmpdu', by omega⟩, decide_eq_true hle⟩

theorem allPassedUp_iff_of_inv (h : RxInv W a) (hW : W ≤ seqnoSpaceHalfSize) (e : AgreementEnd) :
    AllPassedUp a e ↔ Flushable a e := by
  cases e with
  | destroyRecipientAgreement =>
    have hall : (flush a).hist.passedUp.map Prod.snd ++ (flush a).bufferedMpdus =
        a.hist.passedUp.map Prod.snd ++ a.bufferedMpdus := allMpdus_flush
    rw [← bufferedMpdus_flush_eq_nil h hW, AllPassedUp, endAgreement,
      and_iff_left (passedUp_flush_sorted h hW), ← hall]
    exact List.self_eq_append_right
  | createRecipientAgreement =>
    have hsorted : (a.hist.passedUp.map Prod.fst).Pairwise (· < ·) := h.buffer.released_sorted
    rw [AllPassedUp, endAgreement, Flushable, and_iff_left hsorted]
    exact List.self_eq_append_right

/-- An agreement that ends after any receptions has passed up all it had buffered if and only if
its buffer is as `Flushable` says. -/
theorem allPassedUp_iff (hW : 1 ≤ W ∧ W ≤ 1024) (startingSeq : SeqNo)
    (evs : List (BlockAckEvent α)) (e : AgreementEnd) :
    AllPassedUp (Runs.run RecipientBlockAckAgreement.step (init W startingSeq) evs) e ↔
      Flushable (Runs.run RecipientBlockAckAgreement.step (init W startingSeq) evs) e := by
  have hhalf : W ≤ seqnoSpaceHalfSize := hW.2.trans (by decide)
  have hinv : RxInv W (Runs.run RecipientBlockAckAgreement.step
      (init W startingSeq : RecipientBlockAckAgreement α) evs) :=
    Runs.run_of_step (fun a ev h => h.step hW.1 hhalf ev) (rxInv_init startingSeq) evs
  exact allPassedUp_iff_of_inv hinv hhalf e

/-- The MPDU before the only buffered one, at the end of the number space, is missing. -/
theorem allPassedUp_behindGap :
    AllPassedUp (Runs.run RecipientBlockAckAgreement.step (init 2 4095)
        [.mpdu ⟨0, ()⟩]) .destroyRecipientAgreement ↔
      Flushable (Runs.run RecipientBlockAckAgreement.step (init 2 4095)
        [.mpdu ⟨0, ()⟩]) .destroyRecipientAgreement :=
  allPassedUp_iff (by decide) 4095 _ _

/-- Whatever way an agreement ends, all that is buffered is passed up in order. -/
def NothingLost : Prop :=
  ∀ (W : ℕ) (startingSeq : SeqNo) (evs : List (BlockAckEvent Unit)) (e : AgreementEnd),
    1 ≤ W ∧ W ≤ 1024 →
      AllPassedUp (Runs.run RecipientBlockAckAgreement.step (init W startingSeq) evs) e

/-- An MPDU behind a gap is lost when the agreement is destroyed. -/
theorem not_nothingLost : ¬ NothingLost := by
  intro hall
  have hpassed := (hall 2 0 [.mpdu ⟨1, ()⟩] .destroyRecipientAgreement (by decide)).1
  exact absurd (congrArg List.length hpassed) (by decide)

end RecipientBlockAckAgreement

end Ns3Pedca
