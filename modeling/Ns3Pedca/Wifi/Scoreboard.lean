import Ns3Pedca.Wifi.Reordering

/-!
# The scoreboard and the reordering buffer

The recipient acknowledges what its scoreboard marks, and keeps what it has passed up or
buffered. The two windows start together and then move apart : the scoreboard stays where it
is when MPDUs are passed up in sequence, the reordering buffer when a BlockAckReq is behind
`winStartB`.

`Marks` reads the scoreboard from a number `r` on, `InStep` relates it to the buffer :
`winStartB` is at most the window size ahead of `r`, and nothing is missing between the two.
`scoreboard_acksKept` says that this holds along every run in which no sequence number is too
far from `winStartB` (`Conforms`), ahead of it or behind it.
-/

namespace Ns3Pedca

namespace RecipientBlockAckAgreement

open Circular

variable {α : Type*} {W r : ℕ} {has has' : ℕ → Prop} {w : BlockAckWindow} {s : SeqNo}

/-! ## Marks -/

/-- The window starts at the number `r` and marks the numbers that satisfy `has`, which all
are before its end. -/
structure Marks (w : BlockAckWindow) (W r : ℕ) (has : ℕ → Prop) : Prop where
  winStart : r % seqnoSpaceSize = w.winStart
  winSize : w.getWinSize = W
  getAt : ∀ d < W, w.getAt d = true ↔ has (r + d)
  has_lt : ∀ u, has u → u < r + W

theorem Marks.congr (h : Marks w W r has) (hiff : ∀ u, has u ↔ has' u) : Marks w W r has' :=
  ⟨h.winStart, h.winSize, fun d hd => (h.getAt d hd).trans (hiff _),
    fun u hu => h.has_lt u ((hiff u).2 hu)⟩

theorem Marks.setAt (h : Marks w W r has) {d : ℕ} (hd : d < W) :
    Marks (w.setAt d) W r (fun u => u = r + d ∨ has u) where
  winStart := h.winStart
  winSize := BlockAckWindow.getWinSize_setAt.trans h.winSize
  getAt d' hd' := by
    rw [BlockAckWindow.getAt_setAt (by rwa [h.winSize]) (by rwa [h.winSize]), Bool.or_eq_true,
      decide_eq_true_iff, h.getAt d' hd', Nat.add_left_cancel_iff]
  has_lt u hu := by
    rcases hu with rfl | hu
    · omega
    · exact h.has_lt u hu

/-- Moving the window marks nothing, and forgets only what is before its start. -/
theorem Marks.advance (h : Marks w W r has) (count : ℕ) :
    Marks (w.advance count) W (r + count) has where
  winStart := by
    rw [BlockAckWindow.winStart_advance, ← Nat.mod_add_mod, h.winStart]
    rfl
  winSize := BlockAckWindow.getWinSize_advance.trans h.winSize
  getAt d hd := by
    rw [BlockAckWindow.getAt_advance (by rwa [h.winSize]), h.winSize]
    split
    next hlt => rw [h.getAt _ hlt, Nat.add_comm d, ← Nat.add_assoc]
    next hge =>
      refine ⟨fun hc => absurd hc (by decide), fun hu => ?_⟩
      have := h.has_lt _ hu
      omega
  has_lt u hu := by
    have := h.has_lt u hu
    omega

/-- A reset to a number beyond the window is an advance. -/
theorem Marks.reset (h : Marks w W r has) {d : ℕ} (hd : W ≤ d)
    (hs : (r + d) % seqnoSpaceSize = s) : Marks (w.reset s) W (r + d) has := by
  have hadvance := h.advance d
  have heq : w.advance d = w.reset (.ofNat (w.winStart + d)) := if_pos (h.winSize.trans_le hd)
  rw [heq] at hadvance
  have hstart : SeqNo.ofNat (w.winStart + d) = s := by
    refine Fin.ext (Eq.trans ?_ hs)
    rw [← h.winStart]
    exact Nat.mod_add_mod ..
  rwa [hstart] at hadvance

/-! ## Receptions on the scoreboard -/

/-- The reception of the MPDU numbered `r + d` marks it. -/
theorem Marks.scoreboardMpdu (h : Marks w W r has) (hpos : 0 < W) {d : ℕ}
    (hd : getDistance s w.winStart = d) (hhalf : d < seqnoSpaceHalfSize) :
    Marks (scoreboardMpdu w s) W (max r (r + d + 1 - W)) (fun u => u = r + d ∨ has u) := by
  unfold RecipientBlockAckAgreement.scoreboardMpdu
  dsimp only
  rw [hd, h.winSize]
  by_cases hin : d < W
  · rw [if_pos hin, max_eq_left (by omega)]
    exact h.setAt hin
  · rw [if_neg hin, if_pos hhalf, max_eq_right (by omega)]
    have hmarks := (h.advance (d - W + 1)).setAt (Nat.sub_lt hpos Nat.one_pos)
    have hlast : r + (d - W + 1) + (W - 1) = r + d := by omega
    have hstart : r + (d - W + 1) = r + d + 1 - W := by omega
    rwa [hlast, hstart] at hmarks

/-- The reception of a BlockAckReq for the number `r + d` moves the scoreboard there. -/
theorem Marks.scoreboardBar (h : Marks w W r has) {d : ℕ} (hd : getDistance s w.winStart = d)
    (hhalf : d < seqnoSpaceHalfSize) (hs : (r + d) % seqnoSpaceSize = s) :
    Marks (scoreboardBar w s) W (r + d) has := by
  unfold RecipientBlockAckAgreement.scoreboardBar
  dsimp only
  rw [hd, h.winSize]
  rcases Nat.eq_zero_or_pos d with rfl | hpos
  · rw [if_neg (fun hc => absurd hc.1 (by decide)), if_neg (fun hc => absurd hc.1 (by decide))]
    exact h
  by_cases hin : d < W
  · rw [if_pos ⟨hpos, hin⟩]
    exact h.advance d
  · rw [if_neg (fun hc => hin hc.2), if_pos ⟨hpos, hhalf⟩]
    exact h.reset (not_lt.1 hin) hs

theorem scoreboardMpdu_of_le (hW : w.getWinSize ≤ seqnoSpaceHalfSize)
    (h : seqnoSpaceHalfSize ≤ getDistance s w.winStart) : scoreboardMpdu w s = w := by
  unfold scoreboardMpdu
  dsimp only
  rw [if_neg (by omega), if_neg (by omega)]

theorem scoreboardBar_of_le (hW : w.getWinSize ≤ seqnoSpaceHalfSize)
    (h : seqnoSpaceHalfSize ≤ getDistance s w.winStart) : scoreboardBar w s = w := by
  unfold scoreboardBar
  dsimp only
  rw [if_neg (by omega), if_neg (by omega)]

/-! ## The two windows -/

variable {a : RecipientBlockAckAgreement α}

/-- The scoreboard starts at `r`, at most `W` before `winStartB`, marks what was passed up
or is buffered, and everything from `r` up to `winStartB` was. -/
structure InStep (W r : ℕ) (a : RecipientBlockAckAgreement α) : Prop where
  marks : Marks a.scoreboard W r (toBuffer a).Has
  le : r ≤ a.hist.progress
  le_add : a.hist.progress ≤ r + W
  has : ∀ u, r ≤ u → u < a.hist.progress → (toBuffer a).Has u

/-- `s` is less than `2048 - W` away from `winStartB`, ahead of it or behind it. -/
def Conforms (W : ℕ) (a : RecipientBlockAckAgreement α) (s : SeqNo) : Prop :=
  getDistance s a.winStartB < seqnoSpaceHalfSize - W ∨
    getDistance a.winStartB s < seqnoSpaceHalfSize - W

instance : Decidable (Conforms W a s) :=
  inferInstanceAs (Decidable (_ ∨ _))

/-- The relation after a move of the window that knows of every number that is marked. -/
theorem InStep.of_movesTo {n : ℕ} (hmarks : Marks a.scoreboard W r has)
    (hmove : ReorderBuffer.MovesTo W n has (toBuffer a)) (hle : r ≤ n) (hadd : n ≤ r + W)
    (hhas : ∀ u, r ≤ u → u < n → has u) : InStep W r a where
  marks := hmarks.congr fun u => (hmove.has_iff u).symm
  le := hle.trans hmove.le_start
  le_add := hmove.start_le hadd hmarks.has_lt
  has u hu hlt := by
    rcases lt_or_ge u n with hn | hn
    · exact (hmove.has_iff u).2 (hhas u hu hn)
    · exact .inl (hmove.released u hn hlt)

/-- The relation when only the scoreboard has moved, not beyond `winStartB`. -/
theorem InStep.of_toBuffer_eq {a' : RecipientBlockAckAgreement α} {r' : ℕ} (h : InStep W r a)
    (hrx : RxInv W a) (hbuf : toBuffer a' = toBuffer a)
    (hmarks : Marks a'.scoreboard W r' (toBuffer a).Has) (hle : r ≤ r')
    (hle' : r' ≤ a.hist.progress) : InStep W r' a' := by
  refine .of_movesTo hmarks (n := a.hist.progress) ?_ hle' ?_ fun u hu => ?_
  · rw [hbuf]
    exact hrx.buffer.movesTo_start
  · exact h.le_add.trans (Nat.add_le_add_right hle W)
  · exact h.has u (hle.trans hu)

/-- The distance of `s` from the start of the scoreboard, if it is ahead of `winStartB`. -/
theorem InStep.getDistance_of_ahead (h : InStep W r a) (hunw : Unwrapped a)
    (hW : W ≤ seqnoSpaceHalfSize) {d : ℕ} (hd : getDistance s a.winStartB = d)
    (hlt : d < seqnoSpaceHalfSize - W) :
    getDistance s a.scoreboard.winStart = a.hist.progress + d - r := by
  have hmod : (a.hist.progress + d) % seqnoSpaceSize = s := hd ▸ hunw.mod_eq s
  have hsize : seqnoSpaceHalfSize + seqnoSpaceHalfSize = seqnoSpaceSize := rfl
  have hle := h.le
  have hadd := h.le_add
  rw [getDistance, ← hmod, ← h.marks.winStart]
  exact dist_of_le (by omega) (by omega)

/-- A conforming sequence number that is not ahead of `winStartB` is too old for the
scoreboard, or between its start and `winStartB`. -/
theorem InStep.getDistance_of_behind (h : InStep W r a) (hunw : Unwrapped a)
    (hW : W ≤ seqnoSpaceHalfSize) (hconf : Conforms W a s)
    (hbehind : ¬getDistance s a.winStartB < seqnoSpaceHalfSize - W) :
    seqnoSpaceHalfSize ≤ getDistance s a.winStartB ∧
      (seqnoSpaceHalfSize ≤ getDistance s a.scoreboard.winStart ∨
        ∃ d, getDistance s a.scoreboard.winStart = d ∧ (r + d) % seqnoSpaceSize = s ∧
          r + d < a.hist.progress) := by
  have hsize : seqnoSpaceHalfSize + seqnoSpaceHalfSize = seqnoSpaceSize := rfl
  have hback := hconf.resolve_left hbehind
  have hne : (s : ℕ) ≠ a.winStartB := by
    intro heq
    obtain rfl : s = a.winStartB := Fin.ext heq
    exact hbehind hback
  have hturn : getDistance s a.winStartB + getDistance a.winStartB s = seqnoSpaceSize :=
    dist_add_dist s.isLt a.winStartB.isLt hne
  generalize hd : getDistance s a.winStartB = d at hturn hbehind
  have hmod : (a.hist.progress + d) % seqnoSpaceSize = s := hd ▸ hunw.mod_eq s
  have hle := h.le
  have hadd := h.le_add
  have hdlt : d < seqnoSpaceSize := hd ▸ getDistance_lt ..
  refine ⟨by omega, ?_⟩
  rcases lt_or_ge (a.hist.progress + d) (r + seqnoSpaceSize) with hlt | hge
  · left
    rw [getDistance, ← hmod, ← h.marks.winStart, dist_of_le (by omega) hlt]
    omega
  · right
    have hmod' : (a.hist.progress + d - seqnoSpaceSize) % seqnoSpaceSize = s := by
      rw [← hmod, ← Nat.mod_eq_sub_mod (by omega)]
    refine ⟨a.hist.progress + d - seqnoSpaceSize - r, ?_, ?_, by omega⟩
    · rw [getDistance, ← hmod', ← h.marks.winStart]
      exact dist_of_le (by omega) (by omega)
    · rw [show r + (a.hist.progress + d - seqnoSpaceSize - r) =
        a.hist.progress + d - seqnoSpaceSize by omega]
      exact hmod'

/-! ## Steps -/

theorem InStep.notifyReceivedMpdu (h : InStep W r a) (hrx : RxInv W a) (hpos : 0 < W)
    (hW : W ≤ seqnoSpaceHalfSize) {mpdu : WifiMpdu α} (hconf : Conforms W a mpdu.seqNumber) :
    ∃ r', InStep W r' (notifyReceivedMpdu a mpdu) := by
  obtain ⟨hbuf, -, hscore⟩ := toBuffer_notifyReceivedMpdu hrx hpos hW
    (Eq.refl (getDistance mpdu.seqNumber a.winStartB))
  have hle := h.le
  have hadd := h.le_add
  by_cases hahead : getDistance mpdu.seqNumber a.winStartB < seqnoSpaceHalfSize - W
  · generalize hd : getDistance mpdu.seqNumber a.winStartB = d at hbuf hahead
    rw [if_pos (by omega)] at hbuf
    have hmarks := h.marks.scoreboardMpdu hpos
      (h.getDistance_of_ahead hrx.unwrapped hW hd hahead) (by omega)
    have hmove := ReorderBuffer.receive_spec hrx.buffer (u := a.hist.progress + d)
      (Nat.le_add_right ..)
    rw [← hscore, show r + (a.hist.progress + d - r) = a.hist.progress + d by omega] at hmarks
    rw [← hbuf] at hmove
    refine ⟨_, .of_movesTo hmarks hmove ?_ ?_ fun u hu hlt => .inr (h.has u ?_ ?_)⟩
    all_goals
      dsimp only [toBuffer] at *
      omega
  · obtain ⟨hold, hscoreboard⟩ := h.getDistance_of_behind hrx.unwrapped hW hconf hahead
    rw [if_neg (not_lt.2 hold)] at hbuf
    refine ⟨r, h.of_toBuffer_eq hrx hbuf ?_ le_rfl h.le⟩
    rw [hscore]
    rcases hscoreboard with hold' | ⟨d, hd, -, hlt⟩
    · rw [scoreboardMpdu_of_le (h.marks.winSize.trans_le hW) hold']
      exact h.marks
    · -- the number was received before, and is marked again
      have hmarks := h.marks.scoreboardMpdu hpos hd (by omega)
      rw [max_eq_left (by omega)] at hmarks
      refine hmarks.congr fun u => ⟨?_, .inr⟩
      rintro (rfl | hu)
      · exact h.has _ (Nat.le_add_right ..) hlt
      · exact hu

theorem InStep.notifyReceivedBar (h : InStep W r a) (hrx : RxInv W a)
    (hW : W ≤ seqnoSpaceHalfSize) (hconf : Conforms W a s) :
    ∃ r', InStep W r' (notifyReceivedBar a s) := by
  obtain ⟨hbuf, -, hscore⟩ := toBuffer_notifyReceivedBar hrx hW
    (Eq.refl (getDistance s a.winStartB))
  have hle := h.le
  have hadd := h.le_add
  by_cases hahead : getDistance s a.winStartB < seqnoSpaceHalfSize - W
  · have hmod := hrx.unwrapped.mod_eq s
    generalize hd : getDistance s a.winStartB = d at hbuf hahead hmod
    rw [if_pos (by omega)] at hbuf
    have hr : r + (a.hist.progress + d - r) = a.hist.progress + d := by omega
    have hmarks := h.marks.scoreboardBar (h.getDistance_of_ahead hrx.unwrapped hW hd hahead)
      (by omega) (hr.symm ▸ hmod)
    have hmove := ReorderBuffer.advance_spec hrx.buffer (n := a.hist.progress + d)
      (Nat.le_add_right ..)
    rw [← hscore, hr] at hmarks
    rw [← hbuf] at hmove
    exact ⟨_, .of_movesTo hmarks hmove le_rfl (Nat.le_add_right ..)
      fun u hu hlt => absurd hlt (not_lt.2 hu)⟩
  · obtain ⟨hold, hscoreboard⟩ := h.getDistance_of_behind hrx.unwrapped hW hconf hahead
    rw [if_neg (not_lt.2 hold)] at hbuf
    rcases hscoreboard with hold' | ⟨d, hd, hmod, hlt⟩
    · rw [scoreboardBar_of_le (h.marks.winSize.trans_le hW) hold'] at hscore
      exact ⟨r, h.of_toBuffer_eq hrx hbuf (hscore.symm ▸ h.marks) le_rfl h.le⟩
    · have hmarks := h.marks.scoreboardBar hd (by omega) hmod
      rw [← hscore] at hmarks
      exact ⟨r + d, h.of_toBuffer_eq hrx hbuf hmarks (Nat.le_add_right ..) hlt.le⟩

/-! ## Runs -/

theorem inStep_init (startingSeq : SeqNo) :
    InStep W startingSeq (init W startingSeq : RecipientBlockAckAgreement α) where
  marks := {
    winStart := Nat.mod_eq_of_lt startingSeq.isLt
    winSize := BlockAckWindow.getWinSize_init ..
    getAt _ _ := ⟨fun hbit => absurd (hbit.symm.trans (BlockAckWindow.getAt_init ..)) nofun,
      nofun⟩
    has_lt := nofun }
  le := le_rfl
  le_add := Nat.le_add_right ..
  has _ hu hlt := absurd hlt (not_lt.2 hu)

theorem InStep.step (h : InStep W r a) (hrx : RxInv W a) (hpos : 0 < W)
    (hW : W ≤ seqnoSpaceHalfSize) {ev : BlockAckEvent α} (hconf : Conforms W a ev.seqNumber) :
    ∃ r', InStep W r' (step a ev) := by
  cases ev with
  | mpdu mpdu => exact h.notifyReceivedMpdu hrx hpos hW hconf
  | bar s => exact h.notifyReceivedBar hrx hW hconf

/-- The MPDU that the bit at `distance` is about was passed up or is buffered. -/
def Kept (a : RecipientBlockAckAgreement α) (distance : ℕ) : Prop :=
  (∃ mpdu, (a.hist.progress - getDistance a.winStartB a.scoreboard.winStart + distance, mpdu) ∈
    a.hist.passedUp) ∨
  ∃ mpdu ∈ a.bufferedMpdus, mpdu.seqNumber = .ofNat (a.scoreboard.winStart + distance)

/-- The scoreboard starts at most `W` before `winStartB`, marks everything between the two,
and marks in its window exactly what is kept. -/
structure AcksKept (W : ℕ) (a : RecipientBlockAckAgreement α) : Prop where
  distance_le : getDistance a.winStartB a.scoreboard.winStart ≤ W
  getAt_of_lt : ∀ d < getDistance a.winStartB a.scoreboard.winStart, a.scoreboard.getAt d = true
  getAt_iff : ∀ d < W, a.scoreboard.getAt d = true ↔ Kept a d

theorem InStep.getDistance_eq (h : InStep W r a) (hunw : Unwrapped a)
    (hW : W ≤ seqnoSpaceHalfSize) :
    getDistance a.winStartB a.scoreboard.winStart = a.hist.progress - r := by
  have hsize : seqnoSpaceHalfSize + seqnoSpaceHalfSize = seqnoSpaceSize := rfl
  have hpos : 0 < seqnoSpaceHalfSize := by decide
  have hadd := h.le_add
  rw [getDistance, ← hunw.winStartB, ← h.marks.winStart]
  exact dist_of_le h.le (by omega)

/-- A sequence number of the scoreboard's window is that of a buffered MPDU if the number it
stands for there is. -/
theorem InStep.mem_pending_iff (h : InStep W r a) (hrx : RxInv W a) (hW : W ≤ 1024) {d : ℕ}
    (hd : d < W) : r + d ∈ (toBuffer a).pending ↔
      ∃ mpdu ∈ a.bufferedMpdus, mpdu.seqNumber = .ofNat (a.scoreboard.winStart + d) := by
  have hle := h.le
  have hadd := h.le_add
  have hmod : (r + d) % seqnoSpaceSize = (SeqNo.ofNat (a.scoreboard.winStart + d) : SeqNo) := by
    rw [← Nat.mod_add_mod, h.marks.winStart]
    rfl
  constructor
  · intro hmem
    obtain ⟨mpdu, hmpdu, hnum⟩ := List.mem_map.1 hmem
    refine ⟨mpdu, hmpdu, Fin.ext ?_⟩
    rw [← hmod, ← hnum, hrx.unwrapped.number_eq, hrx.unwrapped.mod_eq]
  · rintro ⟨mpdu, hmpdu, hseq⟩
    have hmem : number a.hist.progress mpdu ∈ (toBuffer a).pending := List.mem_map_of_mem hmpdu
    obtain ⟨hlo, hhi⟩ := hrx.buffer.pending_mem _ hmem
    have hmod' : number a.hist.progress mpdu % seqnoSpaceSize = (r + d) % seqnoSpaceSize := by
      rw [hrx.unwrapped.number_eq, hrx.unwrapped.mod_eq, hseq, hmod]
    have heq : number a.hist.progress mpdu = r + d := by
      change _ % 4096 = _ % 4096 at hmod'
      dsimp only [toBuffer] at hlo hhi
      omega
    rwa [← heq]

theorem InStep.acksKept (h : InStep W r a) (hrx : RxInv W a) (hW : W ≤ 1024) : AcksKept W a := by
  have hle := h.le
  have hadd := h.le_add
  have hdist := h.getDistance_eq hrx.unwrapped (hW.trans (by decide))
  refine ⟨by omega, fun d hd => ?_, fun d hd => ?_⟩
  · rw [h.marks.getAt d (by omega)]
    exact h.has _ (Nat.le_add_right ..) (by omega)
  · rw [h.marks.getAt d hd, ReorderBuffer.Buffer.Has, h.mem_pending_iff hrx hW hd, Kept, hdist,
      Nat.sub_sub_self h.le]
    refine or_congr_left ?_
    change r + d ∈ a.hist.passedUp.map Prod.fst ↔ _
    rw [List.mem_map]
    constructor
    · rintro ⟨⟨u, mpdu⟩, hmem, rfl⟩
      exact ⟨mpdu, hmem⟩
    · rintro ⟨mpdu, hmem⟩
      exact ⟨_, hmem, rfl⟩

/-- What the recipient acknowledges it keeps, along every run whose sequence numbers are not
too far from `winStartB`. -/
theorem scoreboard_acksKept (hW : 1 ≤ W ∧ W ≤ 1024) (startingSeq : SeqNo)
    (evs : List (BlockAckEvent α))
    (hconf : Runs.Each RecipientBlockAckAgreement.step (fun a ev => Conforms W a ev.seqNumber)
      (init W startingSeq) evs) :
    Runs.Always RecipientBlockAckAgreement.step (AcksKept W) (init W startingSeq) evs := by
  have hhalf : W ≤ seqnoSpaceHalfSize := hW.2.trans (by decide)
  have hinv : Runs.Always RecipientBlockAckAgreement.step (fun a => RxInv W a ∧ ∃ r, InStep W r a)
      (init W startingSeq : RecipientBlockAckAgreement α) evs := by
    refine hconf.always ?_ ⟨rxInv_init startingSeq, startingSeq, inStep_init startingSeq⟩
    rintro a ev ⟨hrx, r, h⟩ hev
    exact ⟨hrx.step hW.1 hhalf ev, h.step hrx hW.1 hhalf hev⟩
  refine hinv.mono ?_
  rintro a ⟨hrx, r, h⟩
  exact h.acksKept hrx hW.2

/-- A window of two MPDUs around the end of the sequence number space : one beyond the
window, one that fills the gap, a repeated one and a BlockAckReq. -/
theorem scoreboard_acksKept_two : Runs.Always RecipientBlockAckAgreement.step (AcksKept 2)
    (init 2 4094)
    [.mpdu ⟨4095, ()⟩, .mpdu ⟨1, ()⟩, .mpdu ⟨0, ()⟩, .mpdu ⟨4095, ()⟩, .bar 5, .mpdu ⟨6, ()⟩] :=
  scoreboard_acksKept (by decide) 4094 _ (by decide +kernel)

end RecipientBlockAckAgreement

end Ns3Pedca
