import Ns3Pedca.Wifi.BlockAckWindow

/-!
# The transmit window of an originator

`OriginatorBlockAckAgreement` moves the start of its window past an MPDU that is discarded, up to an
MPDU beyond the window that is transmitted, and then on to the first number that is not
acknowledged (`winStart_advanceTxWindow`).
-/

namespace Ns3Pedca

namespace BlockAckWindow

variable (w : BlockAckWindow)

/-- The loop of `AdvanceTxWindow`, of at most so many rounds. -/
def advanceTxWindowLoop : ℕ → BlockAckWindow → BlockAckWindow
  | 0, w => w
  | n + 1, w => if w.getAt 0 then advanceTxWindowLoop n (w.advance 1) else w

/-- `AdvanceTxWindow`. -/
def advanceTxWindow : BlockAckWindow :=
  advanceTxWindowLoop w.getWinSize w

/-- `NotifyTransmittedMpdu`. -/
def notifyTransmittedMpdu (mpduSeqNumber : SeqNo) : BlockAckWindow :=
  let distance := getDistance mpduSeqNumber w.winStart
  if seqnoSpaceHalfSize ≤ distance then w
  else if w.getWinSize ≤ distance then
    (w.advance (distance - w.getWinSize + 1)).advanceTxWindow
  else w

/-- `NotifyAckedMpdu`. -/
def notifyAckedMpdu (mpduSeqNumber : SeqNo) : BlockAckWindow :=
  let distance := getDistance mpduSeqNumber w.winStart
  if seqnoSpaceHalfSize ≤ distance then w
  else (w.setAt distance).advanceTxWindow

/-- `NotifyDiscardedMpdu`. -/
def notifyDiscardedMpdu (mpduSeqNumber : SeqNo) : BlockAckWindow :=
  let distance := getDistance mpduSeqNumber w.winStart
  if seqnoSpaceHalfSize ≤ distance then w
  else (w.advance (distance + 1)).advanceTxWindow

/-- How many of the next `n` numbers from `distance` on are acknowledged without a gap. -/
def ackedFrom (distance : ℕ) : ℕ → ℕ
  | 0 => 0
  | n + 1 =>
    if distance < w.getWinSize ∧ w.getAt distance then ackedFrom (distance + 1) n + 1 else 0

variable {w} {d count n : ℕ} {mpduSeqNumber : SeqNo}

theorem ackedFrom_advance : (w.advance count).ackedFrom d n = w.ackedFrom (d + count) n := by
  induction n generalizing d with
  | zero => rfl
  | succ n ih =>
    have hiff : (d < (w.advance count).getWinSize ∧ (w.advance count).getAt d = true) ↔
        d + count < w.getWinSize ∧ w.getAt (d + count) = true := by
      rw [getWinSize_advance]
      constructor
      · rintro ⟨hlt, hacked⟩
        rw [getAt_advance hlt] at hacked
        split at hacked
        next hlt' => exact ⟨hlt', hacked⟩
        next => cases hacked
      · rintro ⟨hlt, hacked⟩
        have hd : d < w.getWinSize := (Nat.le_add_right _ _).trans_lt hlt
        rw [getAt_advance hd, if_pos hlt]
        exact ⟨hd, hacked⟩
    rw [ackedFrom, ackedFrom, ih, Nat.add_right_comm]
    exact if_congr hiff rfl rfl

theorem add_ackedFrom_le : d + w.ackedFrom d n ≤ max d w.getWinSize := by
  induction n generalizing d with
  | zero => exact le_max_left _ _
  | succ n ih =>
    rw [ackedFrom]
    split
    next hacked =>
      have hle := ih (d := d + 1)
      omega
    next => exact le_max_left _ _

theorem getWinSize_advanceTxWindowLoop :
    (advanceTxWindowLoop n w).getWinSize = w.getWinSize := by
  induction n generalizing w with
  | zero => rfl
  | succ n ih =>
    rw [advanceTxWindowLoop]
    split
    · rw [ih, getWinSize_advance]
    · rfl

@[simp] theorem getWinSize_advanceTxWindow : w.advanceTxWindow.getWinSize = w.getWinSize :=
  getWinSize_advanceTxWindowLoop

theorem pos_of_getAt (hacked : w.getAt d = true) : 0 < w.getWinSize := by
  rw [getAt, List.getD_eq_getElem?_getD] at hacked
  by_contra hnot
  have hnil : w.window = [] := List.length_eq_zero_iff.1 (Nat.eq_zero_of_not_pos hnot)
  rw [hnil] at hacked
  cases hacked

theorem winStart_advanceTxWindowLoop : (advanceTxWindowLoop n w).winStart =
    .ofNat (w.winStart + w.ackedFrom 0 n) := by
  induction n generalizing w with
  | zero => exact Fin.ext (Nat.mod_eq_of_lt w.winStart.isLt).symm
  | succ n ih =>
    rw [advanceTxWindowLoop, ackedFrom]
    by_cases hhead : w.getAt 0 = true
    · rw [if_pos hhead, if_pos ⟨pos_of_getAt hhead, hhead⟩, ih, winStart_advance,
        ackedFrom_advance]
      refine Fin.ext ?_
      change ((w.winStart + 1) % seqnoSpaceSize + _) % seqnoSpaceSize = _ % seqnoSpaceSize
      rw [Nat.mod_add_mod, Nat.add_assoc, Nat.add_comm 1]
    · rw [if_neg hhead, if_neg fun hacked => hhead hacked.2]
      exact Fin.ext (Nat.mod_eq_of_lt w.winStart.isLt).symm

/-- The start of the window moves on to the first number that is not acknowledged. -/
theorem winStart_advanceTxWindow : w.advanceTxWindow.winStart =
    .ofNat (w.winStart + w.ackedFrom 0 w.getWinSize) :=
  winStart_advanceTxWindowLoop

theorem ackedFrom_of_getAt_loop (hsize : 0 < w.getWinSize)
    (hhead : (advanceTxWindowLoop n w).getAt 0 = true) : w.ackedFrom 0 (n + 1) = n + 1 := by
  induction n generalizing w with
  | zero =>
    have hacked : w.getAt 0 = true := hhead
    rw [ackedFrom, if_pos ⟨hsize, hacked⟩, ackedFrom]
  | succ n ih =>
    rw [advanceTxWindowLoop] at hhead
    split at hhead
    next hacked =>
      have hnext := ih (by rwa [getWinSize_advance]) hhead
      rw [ackedFrom_advance] at hnext
      rw [ackedFrom, if_pos ⟨hsize, hacked⟩, hnext]
    next hnot => exact absurd hhead hnot

/-- A round for each bit is enough. -/
theorem getAt_advanceTxWindow (hsize : 0 < w.getWinSize) :
    w.advanceTxWindow.getAt 0 = false := by
  rw [← Bool.not_eq_true]
  intro hhead
  have hall := ackedFrom_of_getAt_loop hsize hhead
  have hle := add_ackedFrom_le (w := w) (d := 0) (n := w.getWinSize + 1)
  omega

theorem getWinSize_notifyDiscardedMpdu :
    (w.notifyDiscardedMpdu mpduSeqNumber).getWinSize = w.getWinSize := by
  unfold notifyDiscardedMpdu
  dsimp only
  split
  · rfl
  · rw [getWinSize_advanceTxWindow, getWinSize_advance]

theorem getWinSize_notifyAckedMpdu :
    (w.notifyAckedMpdu mpduSeqNumber).getWinSize = w.getWinSize := by
  unfold notifyAckedMpdu
  dsimp only
  split
  · rfl
  · rw [getWinSize_advanceTxWindow, getWinSize_setAt]

theorem getWinSize_notifyTransmittedMpdu :
    (w.notifyTransmittedMpdu mpduSeqNumber).getWinSize = w.getWinSize := by
  unfold notifyTransmittedMpdu
  dsimp only
  split_ifs
  · rfl
  · rw [getWinSize_advanceTxWindow, getWinSize_advance]
  · rfl

end BlockAckWindow

end Ns3Pedca
