import Ns3Pedca.ReorderBuffer
import Ns3Pedca.Wifi.RecipientBlockAckAgreement

/-!
# Reordering of received MPDUs

The sequence number of an MPDU is read as the first number from `progress` on with the same
12 bits (`number`). Read so, the agreement is a reordering buffer of natural numbers
(`toBuffer`) : an MPDU less than half a turn ahead of `winStartB` is received there
(`toBuffer_notifyReceivedMpdu`), a BlockAckReq moves the window
(`toBuffer_notifyReceivedBar`), and everything else is ignored. The readings of buffered
MPDUs do not change as `winStartB` moves, so their order in the map survives the moves.

`reordering` is what follows from `ReorderBuffer.Inv` : MPDUs are passed up in strictly
increasing order whatever is received.
-/

namespace Ns3Pedca

namespace RecipientBlockAckAgreement

open Circular

variable {α : Type*}

/-- The number that the sequence number of an MPDU stands for. -/
def number (progress : ℕ) (mpdu : WifiMpdu α) : ℕ :=
  unwrap seqnoSpaceSize progress mpdu.seqNumber

/-- The agreement as a reordering buffer. -/
def toBuffer (a : RecipientBlockAckAgreement α) : ReorderBuffer.Buffer where
  start := a.hist.progress
  pending := a.bufferedMpdus.map (number a.hist.progress)
  released := a.hist.passedUp.map Prod.fst

/-- The history counts modulo `SEQNO_SPACE_SIZE` what the agreement has. -/
structure Unwrapped (a : RecipientBlockAckAgreement α) : Prop where
  winStartB : a.hist.progress % seqnoSpaceSize = a.winStartB
  passedUp : ∀ p ∈ a.hist.passedUp, p.1 % seqnoSpaceSize = p.2.seqNumber

variable {a : RecipientBlockAckAgreement α} {mpdu : WifiMpdu α} {mpdus : List (WifiMpdu α)}

theorem Unwrapped.unwrap_eq (h : Unwrapped a) (s : SeqNo) :
    unwrap seqnoSpaceSize a.hist.progress s = a.hist.progress + getDistance s a.winStartB := by
  rw [unwrap, h.winStartB]
  rfl

theorem Unwrapped.number_eq (h : Unwrapped a) (mpdu : WifiMpdu α) :
    number a.hist.progress mpdu = a.hist.progress + getDistance mpdu.seqNumber a.winStartB :=
  h.unwrap_eq mpdu.seqNumber

theorem Unwrapped.mod_eq (h : Unwrapped a) (s : SeqNo) :
    (a.hist.progress + getDistance s a.winStartB) % seqnoSpaceSize = s := by
  rw [← h.unwrap_eq]
  exact unwrap_mod s.isLt

theorem Unwrapped.getDistance_eq (h : Unwrapped a) {s : SeqNo} {u : ℕ}
    (hs : u % seqnoSpaceSize = s) (hle : a.hist.progress ≤ u)
    (hlt : u < a.hist.progress + seqnoSpaceSize) :
    getDistance s a.winStartB = u - a.hist.progress := by
  rw [getDistance, ← hs, ← h.winStartB]
  exact dist_of_le hle hlt

theorem getDistance_lt (s s' : SeqNo) : getDistance s s' < seqnoSpaceSize :=
  dist_lt (by decide) ..

/-! ## The history keeps up -/

theorem Unwrapped.receive (h : Unwrapped a) (mpdu : WifiMpdu α) : Unwrapped (receive a mpdu) where
  winStartB := h.winStartB
  passedUp p hp := by
    rcases List.mem_append.1 hp with hp | hp
    · exact h.passedUp p hp
    · obtain rfl := List.mem_singleton.1 hp
      exact h.mod_eq mpdu.seqNumber

theorem Unwrapped.setWinStartB (h : Unwrapped a) (s : SeqNo) : Unwrapped (setWinStartB a s) :=
  ⟨h.mod_eq s, h.passedUp⟩

theorem Unwrapped.passUntilFirstLost (h : Unwrapped a) (mpdus : List (WifiMpdu α)) :
    Unwrapped (passUntilFirstLost mpdus a) := by
  induction mpdus generalizing a with
  | nil => exact ⟨h.winStartB, h.passedUp⟩
  | cons mpdu mpdus ih =>
    unfold RecipientBlockAckAgreement.passUntilFirstLost
    split
    · exact ih ((h.receive mpdu).setWinStartB _)
    · exact ⟨h.winStartB, h.passedUp⟩

theorem Unwrapped.passWithSeqNumberLessThan (h : Unwrapped a) (s : SeqNo)
    (mpdus : List (WifiMpdu α)) : Unwrapped (passWithSeqNumberLessThan s mpdus a) := by
  induction mpdus generalizing a with
  | nil => exact ⟨h.winStartB, h.passedUp⟩
  | cons mpdu mpdus ih =>
    unfold RecipientBlockAckAgreement.passWithSeqNumberLessThan
    split
    · exact ih (h.receive mpdu)
    · exact ⟨h.winStartB, h.passedUp⟩

/-- What no operation on the buffer changes. -/
structure SameWindow (a a' : RecipientBlockAckAgreement α) : Prop where
  scoreboard : a'.scoreboard = a.scoreboard
  winSizeB : a'.winSizeB = a.winSizeB
  assertsHold : a'.hist.assertsHold = a.hist.assertsHold

theorem SameWindow.trans {a' a'' : RecipientBlockAckAgreement α} (h : SameWindow a a')
    (h' : SameWindow a' a'') : SameWindow a a'' :=
  ⟨h'.scoreboard.trans h.scoreboard, h'.winSizeB.trans h.winSizeB,
    h'.assertsHold.trans h.assertsHold⟩

theorem sameWindow_passUntilFirstLost (mpdus : List (WifiMpdu α))
    (a : RecipientBlockAckAgreement α) : SameWindow a (passUntilFirstLost mpdus a) := by
  induction mpdus generalizing a with
  | nil => exact ⟨rfl, rfl, rfl⟩
  | cons mpdu mpdus ih =>
    unfold passUntilFirstLost
    split
    · have h := ih (setWinStartB (receive a mpdu) (.ofNat (a.winStartB + 1)))
      exact ⟨h.scoreboard, h.winSizeB, h.assertsHold⟩
    · exact ⟨rfl, rfl, rfl⟩

/-! ## Passing up -/

/-- Passing up MPDUs in sequence releases the items in sequence. -/
theorem toBuffer_passUntilFirstLost (h : Unwrapped a)
    (hs : (mpdus.map (number a.hist.progress)).Pairwise (· < ·)) :
    toBuffer (passUntilFirstLost mpdus a) = ReorderBuffer.releaseRun a.hist.progress
      (a.hist.passedUp.map Prod.fst) (mpdus.map (number a.hist.progress)) := by
  induction mpdus generalizing a with
  | nil => rfl
  | cons mpdu mpdus ih =>
    obtain ⟨hlt, hs'⟩ := List.pairwise_cons.1 hs
    have hfirst : number a.hist.progress mpdu = a.hist.progress ↔ mpdu.seqNumber = a.winStartB := by
      constructor
      · intro hn
        have hmod := h.mod_eq mpdu.seqNumber
        rw [← h.number_eq, hn, h.winStartB] at hmod
        exact (Fin.ext hmod).symm
      · intro heq
        rw [h.number_eq, heq, h.getDistance_eq h.winStartB le_rfl
          (Nat.lt_add_of_pos_right (by decide)), Nat.sub_self, Nat.add_zero]
    unfold passUntilFirstLost
    rw [List.map_cons, ReorderBuffer.releaseRun]
    by_cases heq : mpdu.seqNumber = a.winStartB
    · rw [if_pos heq, if_pos (hfirst.2 heq)]
      have hnum := hfirst.2 heq
      generalize ha' : setWinStartB (receive a mpdu) (.ofNat (a.winStartB + 1)) = a'
      have hunw : Unwrapped a' := ha' ▸ (h.receive mpdu).setWinStartB _
      have hstep : getDistance (.ofNat (a.winStartB + 1)) a.winStartB = 1 := by
        have hnext : (a.hist.progress + 1) % seqnoSpaceSize =
            (SeqNo.ofNat (a.winStartB + 1) : SeqNo) := by
          rw [← Nat.mod_add_mod, h.winStartB]
          rfl
        rw [h.getDistance_eq hnext (Nat.le_succ _) (Nat.add_lt_add_left (by decide) _),
          Nat.add_sub_cancel_left]
      have hprog : a'.hist.progress = a.hist.progress + 1 := by
        rw [← ha']
        exact congrArg (a.hist.progress + ·) hstep
      have hpassed : a'.hist.passedUp.map Prod.fst =
          a.hist.passedUp.map Prod.fst ++ [a.hist.progress] := by
        rw [← ha']
        change List.map Prod.fst (a.hist.passedUp ++ [(a.hist.progress + _, mpdu)]) = _
        rw [List.map_append, ← h.number_eq, hnum]
        rfl
      have hrest : mpdus.map (number a'.hist.progress) = mpdus.map (number a.hist.progress) := by
        refine List.map_congr_left fun m hm => ?_
        have hafter : number a.hist.progress mpdu < number a.hist.progress m :=
          hlt _ (List.mem_map_of_mem hm)
        rw [hprog]
        exact unwrap_eq_of_le m.seqNumber.isLt (by omega) (by
          rw [hnum] at hafter
          exact hafter)
      rw [ih hunw (by rw [hrest]; exact hs'), hprog, hpassed, ← hprog, hrest, hnum]
    · rw [if_neg heq, if_neg (fun hn => heq (hfirst.1 hn))]
      rfl

theorem passWithSeqNumberLessThan_members (s : SeqNo) (mpdus : List (WifiMpdu α))
    (a : RecipientBlockAckAgreement α) : SameWindow a (passWithSeqNumberLessThan s mpdus a) ∧
      (passWithSeqNumberLessThan s mpdus a).winStartB = a.winStartB ∧
      (passWithSeqNumberLessThan s mpdus a).hist.progress = a.hist.progress := by
  induction mpdus generalizing a with
  | nil => exact ⟨⟨rfl, rfl, rfl⟩, rfl, rfl⟩
  | cons mpdu mpdus ih =>
    unfold passWithSeqNumberLessThan
    split
    · obtain ⟨h, hstart, hprog⟩ := ih (receive a mpdu)
      exact ⟨⟨h.scoreboard, h.winSizeB, h.assertsHold⟩, hstart, hprog⟩
    · exact ⟨⟨rfl, rfl, rfl⟩, rfl, rfl⟩

/-- Passing up the MPDUs before a number releases the items below it. -/
theorem toBuffer_passWithSeqNumberLessThan (h : Unwrapped a) (s : SeqNo)
    (hs : (mpdus.map (number a.hist.progress)).Pairwise (· < ·)) :
    let n := a.hist.progress + getDistance s a.winStartB
    toBuffer (passWithSeqNumberLessThan s mpdus a) =
      { start := a.hist.progress
        pending := (mpdus.map (number a.hist.progress)).filter (n ≤ ·)
        released := a.hist.passedUp.map Prod.fst ++
          (mpdus.map (number a.hist.progress)).filter (· < n) } := by
  intro n
  induction mpdus generalizing a with
  | nil => simp [passWithSeqNumberLessThan, toBuffer]
  | cons mpdu mpdus ih =>
    obtain ⟨hlt, hs'⟩ := List.pairwise_cons.1 hs
    have hnum := h.number_eq mpdu
    unfold passWithSeqNumberLessThan
    split
    next hless =>
      have hbelow : number a.hist.progress mpdu < n := by
        rw [hnum]
        exact Nat.add_lt_add_left hless _
      have hpassed : (receive a mpdu).hist.passedUp.map Prod.fst =
          a.hist.passedUp.map Prod.fst ++ [number a.hist.progress mpdu] := by
        rw [hnum]
        exact List.map_append
      have hpending : ((mpdu :: mpdus).map (number a.hist.progress)).filter (n ≤ ·) =
          (mpdus.map (number a.hist.progress)).filter (n ≤ ·) :=
        List.filter_cons_of_neg (by simpa using hbelow)
      have hreleased : ((mpdu :: mpdus).map (number a.hist.progress)).filter (· < n) =
          number a.hist.progress mpdu :: (mpdus.map (number a.hist.progress)).filter (· < n) :=
        List.filter_cons_of_pos (by simpa using hbelow)
      rw [ih (h.receive mpdu) hs', hpassed, hpending, hreleased, List.append_assoc]
      rfl
    next hmore =>
      have habove : n ≤ number a.hist.progress mpdu := by
        rw [hnum]
        exact Nat.add_le_add_left (not_lt.1 hmore) _
      have hall : ∀ u ∈ (mpdu :: mpdus).map (number a.hist.progress), n ≤ u := by
        rw [List.map_cons]
        exact List.forall_mem_cons.2 ⟨habove, fun u hu => habove.trans (hlt u hu).le⟩
      have hpending : ((mpdu :: mpdus).map (number a.hist.progress)).filter (n ≤ ·) =
          (mpdu :: mpdus).map (number a.hist.progress) :=
        List.filter_eq_self.2 fun u hu => decide_eq_true (hall u hu)
      have hreleased : ((mpdu :: mpdus).map (number a.hist.progress)).filter (· < n) = [] :=
        List.filter_eq_nil_iff.2 fun u hu => by simpa using hall u hu
      rw [hpending, hreleased, List.append_nil]
      rfl

/-- Moving `winStartB` past no buffered MPDU changes the reading of none. -/
theorem toBuffer_setWinStartB (s : SeqNo)
    (hle : ∀ u ∈ (toBuffer a).pending, a.hist.progress + getDistance s a.winStartB ≤ u) :
    toBuffer (setWinStartB a s) =
      { toBuffer a with start := a.hist.progress + getDistance s a.winStartB } := by
  refine ReorderBuffer.Buffer.ext rfl (List.map_congr_left fun m hm => ?_) rfl
  exact unwrap_eq_of_le m.seqNumber.isLt (Nat.le_add_right ..) (hle _ (List.mem_map_of_mem hm))

/-- No buffered MPDU is old. -/
def NoOldMpdus (a : RecipientBlockAckAgreement α) : Prop :=
  ∀ u ∈ (toBuffer a).pending, u < a.hist.progress + seqnoSpaceHalfSize

theorem assertNoOldMpdus_eq (h : Unwrapped a) (hold : NoOldMpdus a) : assertNoOldMpdus a = a := by
  have hall : (a.bufferedMpdus.getLast?.all fun mpdu =>
      decide (getDistance mpdu.seqNumber a.winStartB < seqnoSpaceHalfSize)) = true := by
    rcases hlast : a.bufferedMpdus.getLast? with _ | mpdu
    · rfl
    · have hmem := hold _ (List.mem_map_of_mem (List.mem_of_getLast? hlast))
      rw [h.number_eq] at hmem
      exact decide_eq_true (Nat.lt_of_add_lt_add_left hmem)
  unfold assertNoOldMpdus
  rw [hall, Bool.and_true]

/-- The passing of MPDUs at the end of every operation on the buffer. -/
theorem passBufferedMpdusUntilFirstLost_spec (h : Unwrapped a) (hold : NoOldMpdus a)
    (hs : (toBuffer a).pending.Pairwise (· < ·)) :
    toBuffer (passBufferedMpdusUntilFirstLost a) = ReorderBuffer.releaseRun (toBuffer a).start
      (toBuffer a).released (toBuffer a).pending ∧
    Unwrapped (passBufferedMpdusUntilFirstLost a) ∧
    SameWindow a (passBufferedMpdusUntilFirstLost a) := by
  rw [passBufferedMpdusUntilFirstLost, assertNoOldMpdus_eq h hold]
  exact ⟨toBuffer_passUntilFirstLost h hs, h.passUntilFirstLost _,
    sameWindow_passUntilFirstLost _ a⟩

/-- `winStartB` moved to `s`, as the receptions of an MPDU beyond the window and of a
BlockAckReq do. -/
theorem moveWinStartB_spec (h : Unwrapped a) (hold : NoOldMpdus a)
    (hs : (toBuffer a).pending.Pairwise (· < ·)) (s : SeqNo) :
    let a' := passBufferedMpdusUntilFirstLost (passBufferedMpdusWithSeqNumberLessThan a s)
    toBuffer a' =
      ReorderBuffer.moveTo (a.hist.progress + getDistance s a.winStartB) (toBuffer a) ∧
    Unwrapped a' ∧ SameWindow a a' := by
  intro a'
  obtain ⟨hsame, hstart, hprog⟩ := passWithSeqNumberLessThan_members s a.bufferedMpdus a
  have hunw := h.passWithSeqNumberLessThan s a.bufferedMpdus
  have hbuf := toBuffer_passWithSeqNumberLessThan h s hs
  have ha' : a' = passBufferedMpdusUntilFirstLost
      (setWinStartB (passWithSeqNumberLessThan s a.bufferedMpdus a) s) := by
    change passBufferedMpdusUntilFirstLost (passBufferedMpdusWithSeqNumberLessThan a s) = _
    rw [passBufferedMpdusWithSeqNumberLessThan, assertNoOldMpdus_eq h hold]
  clear_value a'
  subst ha'
  generalize passWithSeqNumberLessThan s a.bufferedMpdus a = b at hsame hstart hprog hunw hbuf ⊢
  generalize hn : a.hist.progress + getDistance s a.winStartB = n at hbuf ⊢
  have hnb : b.hist.progress + getDistance s b.winStartB = n := by rw [hprog, hstart, hn]
  have hmoved : toBuffer (setWinStartB b s) = { toBuffer b with start := n } := by
    rw [← hnb]
    refine toBuffer_setWinStartB s fun u hu => ?_
    rw [hbuf] at hu
    rw [hnb]
    simpa using (List.mem_filter.1 hu).2
  have hunw' := hunw.setWinStartB s
  have hold' : NoOldMpdus (setWinStartB b s) := by
    intro u hu
    rw [hmoved, hbuf] at hu
    have hlt := hold u (List.mem_filter.1 hu).1
    have hle : a.hist.progress ≤ (setWinStartB b s).hist.progress := by
      change _ ≤ b.hist.progress + _
      rw [hprog]
      exact Nat.le_add_right ..
    omega
  have hsorted : (toBuffer (setWinStartB b s)).pending.Pairwise (· < ·) := by
    rw [hmoved, hbuf]
    exact hs.filter _
  obtain ⟨hrun, hunw'', hsame'⟩ := passBufferedMpdusUntilFirstLost_spec hunw' hold' hsorted
  refine ⟨?_, hunw'', hsame.trans ⟨hsame'.scoreboard, hsame'.winSizeB, hsame'.assertsHold⟩⟩
  rw [hrun, hmoved, hbuf]
  rfl

/-! ## Receptions -/

/-- The map of buffered MPDUs is ordered as the numbers are. -/
theorem map_number_insertMpdu (h : Unwrapped a) (mpdu : WifiMpdu α) (mpdus : List (WifiMpdu α)) :
    (insertMpdu a.winStartB mpdu mpdus).map (number a.hist.progress) =
      ReorderBuffer.insert (number a.hist.progress mpdu) (mpdus.map (number a.hist.progress)) := by
  have hcompare : ∀ m m' : WifiMpdu α, compare a.winStartB m.seqNumber m'.seqNumber = true ↔
      number a.hist.progress m < number a.hist.progress m' := by
    intro m m'
    rw [h.number_eq, h.number_eq, Nat.add_lt_add_iff_left]
    exact decide_eq_true_iff
  induction mpdus with
  | nil => rfl
  | cons m mpdus ih =>
    simp only [insertMpdu, List.map_cons, ReorderBuffer.insert, hcompare]
    split_ifs
    · rfl
    · rw [List.map_cons, ih]
    · rfl

/-- What the agreement keeps, whatever is received. -/
structure RxInv (W : ℕ) (a : RecipientBlockAckAgreement α) : Prop where
  unwrapped : Unwrapped a
  buffer : ReorderBuffer.Inv W (toBuffer a)
  winSizeB : a.winSizeB = W
  assertsHold : a.hist.assertsHold = true

theorem RxInv.of_sameWindow {W : ℕ} {a' : RecipientBlockAckAgreement α} (h : RxInv W a)
    (hunw : Unwrapped a') (hbuf : ReorderBuffer.Inv W (toBuffer a')) (hsame : SameWindow a a') :
    RxInv W a' :=
  ⟨hunw, hbuf, hsame.winSizeB.trans h.winSizeB, hsame.assertsHold.trans h.assertsHold⟩

theorem RxInv.noOldMpdus {W : ℕ} (h : RxInv W a) (hW : W ≤ seqnoSpaceHalfSize) : NoOldMpdus a :=
  fun u hu => (h.buffer.pending_mem u hu).2.trans_le (Nat.add_le_add_left hW _)

section Receptions

variable {W : ℕ}

/-- An MPDU less than half a turn ahead is received in the buffer, any other is ignored. -/
theorem bufferMpdu_spec (h : RxInv W a) (hpos : 0 < W) (hW : W ≤ seqnoSpaceHalfSize)
    {mpdu : WifiMpdu α} {d : ℕ} (hd : getDistance mpdu.seqNumber a.winStartB = d) :
    (toBuffer (bufferMpdu a mpdu) = if d < seqnoSpaceHalfSize then
        ReorderBuffer.receive W (a.hist.progress + d) (toBuffer a)
      else toBuffer a) ∧
    Unwrapped (bufferMpdu a mpdu) ∧ SameWindow a (bufferMpdu a mpdu) := by
  have hnum : number a.hist.progress mpdu = a.hist.progress + d := by
    rw [h.unwrapped.number_eq, hd]
  unfold bufferMpdu
  dsimp only
  generalize ha' : ({ a with bufferedMpdus := insertMpdu a.winStartB mpdu a.bufferedMpdus } :
    RecipientBlockAckAgreement α) = a'
  rw [h.winSizeB, hd]
  have hprog : a'.hist.progress = a.hist.progress := by rw [← ha']
  have hunw : Unwrapped a' := ha' ▸ ⟨h.unwrapped.winStartB, h.unwrapped.passedUp⟩
  have hsame : SameWindow a a' := ha' ▸ ⟨rfl, rfl, rfl⟩
  have hbuf : toBuffer a' = { toBuffer a with
      pending := ReorderBuffer.insert (a.hist.progress + d) (toBuffer a).pending } := by
    rw [← ha', ← hnum]
    exact ReorderBuffer.Buffer.ext rfl (map_number_insertMpdu h.unwrapped mpdu _) rfl
  have hsorted : (toBuffer a').pending.Pairwise (· < ·) := by
    rw [hbuf]
    exact ReorderBuffer.insert_sorted h.buffer.pending_sorted
  have hold : d < seqnoSpaceHalfSize → NoOldMpdus a' := by
    intro hhalf u hu
    rw [hbuf] at hu
    rw [hprog]
    rcases ReorderBuffer.mem_insert.1 hu with rfl | hu
    · exact Nat.add_lt_add_left hhalf _
    · exact h.noOldMpdus hW u hu
  by_cases hin : d < W
  · obtain ⟨hrun, hunw', hsame'⟩ :=
      passBufferedMpdusUntilFirstLost_spec hunw (hold (hin.trans_le hW)) hsorted
    rw [if_pos hin, if_pos (hin.trans_le hW)]
    refine ⟨?_, hunw', hsame.trans hsame'⟩
    rw [hrun, hbuf]
    exact (ReorderBuffer.receive_of_lt (b := toBuffer a) (Nat.le_add_right _ d)
      (Nat.add_lt_add_left hin _)).symm
  rw [if_neg hin]
  by_cases hhalf : d < seqnoSpaceHalfSize
  · rw [if_pos hhalf, if_pos hhalf]
    generalize hs : SeqNo.ofNat (mpdu.seqNumber + 1 + seqnoSpaceSize - W) = s
    obtain ⟨hmove, hunw', hsame'⟩ := moveWinStartB_spec hunw (hold hhalf) hsorted s
    refine ⟨?_, hunw', hsame.trans hsame'⟩
    -- the new start is the number `W - 1` before that of the MPDU
    have hsize : seqnoSpaceHalfSize + seqnoSpaceHalfSize = seqnoSpaceSize := rfl
    have hmod : (a'.hist.progress + d + 1 - W) % seqnoSpaceSize = s := by
      have hsub := Circular.sub_mod (m := seqnoSpaceSize) (x := a.hist.progress + d) (k := W - 1)
        (by omega) (by omega)
      rw [← hd, h.unwrapped.mod_eq, hd] at hsub
      rw [hprog, ← hs, show a.hist.progress + d + 1 - W = a.hist.progress + d - (W - 1) by omega,
        hsub]
      change _ = (mpdu.seqNumber + 1 + seqnoSpaceSize - W) % seqnoSpaceSize
      congr 1
      omega
    have hdist : a'.hist.progress + getDistance s a'.winStartB = a.hist.progress + d + 1 - W := by
      rw [hunw.getDistance_eq hmod (by omega) (by omega), hprog]
      omega
    rw [hmove, hdist, hbuf]
    exact (ReorderBuffer.receive_of_ge (b := toBuffer a) (Nat.le_add_right _ d)
      (Nat.add_le_add_left (not_lt.1 hin) _)).symm
  · rw [if_neg hhalf, if_neg hhalf]
    exact ⟨rfl, h.unwrapped, ⟨rfl, rfl, rfl⟩⟩

/-- A BlockAckReq for a number less than half a turn ahead moves the window to it. -/
theorem bufferBar_spec (h : RxInv W a) (hW : W ≤ seqnoSpaceHalfSize) {s : SeqNo} {d : ℕ}
    (hd : getDistance s a.winStartB = d) :
    (toBuffer (bufferBar a s) = if d < seqnoSpaceHalfSize then
        ReorderBuffer.advance (a.hist.progress + d) (toBuffer a)
      else toBuffer a) ∧
    Unwrapped (bufferBar a s) ∧ SameWindow a (bufferBar a s) := by
  unfold bufferBar
  dsimp only
  rw [hd]
  by_cases hhalf : d < seqnoSpaceHalfSize
  · rw [if_pos hhalf, ReorderBuffer.advance]
    by_cases hpos : 0 < d
    · rw [if_pos ⟨hpos, hhalf⟩, if_pos (by simpa [toBuffer] using hpos), ← hd]
      exact moveWinStartB_spec h.unwrapped (h.noOldMpdus hW) h.buffer.pending_sorted s
    · rw [if_neg (fun hc => hpos hc.1), if_neg (by simpa [toBuffer] using hpos)]
      exact ⟨rfl, h.unwrapped, ⟨rfl, rfl, rfl⟩⟩
  · rw [if_neg (fun hc => hhalf hc.2), if_neg hhalf]
    exact ⟨rfl, h.unwrapped, ⟨rfl, rfl, rfl⟩⟩

theorem RxInv.onScoreboard (h : RxInv W a) (scoreboard : BlockAckWindow) :
    RxInv W { a with scoreboard := scoreboard } :=
  ⟨⟨h.unwrapped.winStartB, h.unwrapped.passedUp⟩, h.buffer, h.winSizeB, h.assertsHold⟩

/-- The reception of an MPDU at distance `d`. -/
theorem toBuffer_notifyReceivedMpdu (h : RxInv W a) (hpos : 0 < W) (hW : W ≤ seqnoSpaceHalfSize)
    {mpdu : WifiMpdu α} {d : ℕ} (hd : getDistance mpdu.seqNumber a.winStartB = d) :
    (toBuffer (notifyReceivedMpdu a mpdu) = if d < seqnoSpaceHalfSize then
        ReorderBuffer.receive W (a.hist.progress + d) (toBuffer a)
      else toBuffer a) ∧
    RxInv W (notifyReceivedMpdu a mpdu) ∧
    (notifyReceivedMpdu a mpdu).scoreboard = scoreboardMpdu a.scoreboard mpdu.seqNumber := by
  unfold notifyReceivedMpdu
  have h' := h.onScoreboard (scoreboardMpdu a.scoreboard mpdu.seqNumber)
  obtain ⟨hbuf, hunw, hsame⟩ := bufferMpdu_spec h' hpos hW hd
  refine ⟨hbuf, h'.of_sameWindow hunw ?_ hsame, hsame.scoreboard⟩
  rw [hbuf]
  split
  · exact h'.buffer.receive _
  · exact h'.buffer

/-- The reception of a BlockAckReq at distance `d`. -/
theorem toBuffer_notifyReceivedBar (h : RxInv W a) (hW : W ≤ seqnoSpaceHalfSize) {s : SeqNo}
    {d : ℕ} (hd : getDistance s a.winStartB = d) :
    (toBuffer (notifyReceivedBar a s) = if d < seqnoSpaceHalfSize then
        ReorderBuffer.advance (a.hist.progress + d) (toBuffer a)
      else toBuffer a) ∧
    RxInv W (notifyReceivedBar a s) ∧
    (notifyReceivedBar a s).scoreboard = scoreboardBar a.scoreboard s := by
  unfold notifyReceivedBar
  have h' := h.onScoreboard (scoreboardBar a.scoreboard s)
  obtain ⟨hbuf, hunw, hsame⟩ := bufferBar_spec h' hW hd
  refine ⟨hbuf, h'.of_sameWindow hunw ?_ hsame, hsame.scoreboard⟩
  rw [hbuf]
  split
  · exact h'.buffer.advance _
  · exact h'.buffer

end Receptions

/-! ## Runs -/

section Runs

variable {W : ℕ}

theorem rxInv_init (startingSeq : SeqNo) :
    RxInv W (init W startingSeq : RecipientBlockAckAgreement α) :=
  ⟨⟨Nat.mod_eq_of_lt startingSeq.isLt, nofun⟩,
    ⟨List.Pairwise.nil, nofun, List.Pairwise.nil, nofun⟩, rfl, rfl⟩

/-- Every reception keeps the invariant. -/
theorem RxInv.step (h : RxInv W a) (hpos : 0 < W) (hW : W ≤ seqnoSpaceHalfSize)
    (ev : BlockAckEvent α) : RxInv W (step a ev) := by
  cases ev with
  | mpdu mpdu => exact (toBuffer_notifyReceivedMpdu h hpos hW rfl).2.1
  | bar s => exact (toBuffer_notifyReceivedBar h hW rfl).2.1

/-- `winStartB` only moves ahead. -/
theorem RxInv.progress_le_step (h : RxInv W a) (hpos : 0 < W) (hW : W ≤ seqnoSpaceHalfSize)
    (ev : BlockAckEvent α) :
    a.hist.progress ≤ (RecipientBlockAckAgreement.step a ev).hist.progress := by
  change (toBuffer a).start ≤ (toBuffer (RecipientBlockAckAgreement.step a ev)).start
  cases ev with
  | mpdu mpdu =>
    rw [RecipientBlockAckAgreement.step, (toBuffer_notifyReceivedMpdu h hpos hW rfl).1]
    split
    · exact h.buffer.start_le_receive _
    · exact le_rfl
  | bar s =>
    rw [RecipientBlockAckAgreement.step, (toBuffer_notifyReceivedBar h hW rfl).1]
    split
    · exact h.buffer.start_le_advance _
    · exact le_rfl

/-- MPDUs were passed up in order and none twice, and those buffered are inside the
window. -/
structure InOrder (W : ℕ) (a : RecipientBlockAckAgreement α) : Prop where
  progress : a.hist.progress % seqnoSpaceSize = a.winStartB
  passedUp_seqNumber : ∀ p ∈ a.hist.passedUp, p.1 % seqnoSpaceSize = p.2.seqNumber
  passedUp_increasing : (a.hist.passedUp.map Prod.fst).Pairwise (· < ·)
  passedUp_lt : ∀ p ∈ a.hist.passedUp, p.1 < a.hist.progress
  buffered_nodup : (a.bufferedMpdus.map WifiMpdu.seqNumber).Nodup
  buffered_distance : ∀ mpdu ∈ a.bufferedMpdus,
    1 ≤ getDistance mpdu.seqNumber a.winStartB ∧ getDistance mpdu.seqNumber a.winStartB ≤ W - 1
  buffered_length : a.bufferedMpdus.length ≤ W - 1
  assertsHold : a.hist.assertsHold = true

theorem RxInv.inOrder (h : RxInv W a) : InOrder W a where
  progress := h.unwrapped.winStartB
  passedUp_seqNumber := h.unwrapped.passedUp
  passedUp_increasing := h.buffer.released_sorted
  passedUp_lt p hp := h.buffer.released_lt p.1 (List.mem_map_of_mem hp)
  buffered_nodup := by
    have hnodup : (toBuffer a).pending.Nodup := h.buffer.pending_sorted.imp Nat.ne_of_lt
    refine List.Nodup.of_map (fun s : SeqNo => unwrap seqnoSpaceSize a.hist.progress s) ?_
    rw [List.map_map]
    exact hnodup
  buffered_distance mpdu hmpdu := by
    have hmem := h.buffer.pending_mem _ (List.mem_map_of_mem hmpdu)
    rw [h.unwrapped.number_eq] at hmem
    change a.hist.progress < _ ∧ _ < a.hist.progress + W at hmem
    omega
  buffered_length := by
    have hlen := h.buffer.length_pending_le
    rwa [toBuffer, List.length_map] at hlen
  assertsHold := h.assertsHold

/-- Whatever is received, MPDUs are passed up in strictly increasing order of the numbers
their sequence numbers stand for. -/
theorem reordering (hW : 1 ≤ W ∧ W ≤ 1024) (startingSeq : SeqNo) (evs : List (BlockAckEvent α)) :
    Runs.Always RecipientBlockAckAgreement.step (InOrder W) (init W startingSeq) evs ∧
    Runs.Each RecipientBlockAckAgreement.step
      (fun a ev => a.hist.progress ≤ (RecipientBlockAckAgreement.step a ev).hist.progress)
      (init W startingSeq) evs := by
  have hhalf : W ≤ seqnoSpaceHalfSize := hW.2.trans (by decide)
  have hinv : Runs.Always RecipientBlockAckAgreement.step (RxInv W)
      (init W startingSeq : RecipientBlockAckAgreement α) evs :=
    Runs.always_of_step (fun a ev h => h.step hW.1 hhalf ev) (rxInv_init startingSeq) evs
  exact ⟨hinv.mono fun a h => h.inOrder,
    hinv.each fun a ev h => h.progress_le_step hW.1 hhalf ev⟩

/-- A window of two MPDUs around the end of the sequence number space, with an MPDU beyond it,
a repeated one and an old BlockAckReq. -/
theorem reordering_two :
    Runs.Always RecipientBlockAckAgreement.step (InOrder 2) (init 2 4094)
      [.mpdu ⟨4095, ()⟩, .mpdu ⟨1, ()⟩, .mpdu ⟨1, ()⟩, .mpdu ⟨0, ()⟩, .bar 4000] ∧
    Runs.Each RecipientBlockAckAgreement.step
      (fun a ev => a.hist.progress ≤ (RecipientBlockAckAgreement.step a ev).hist.progress)
      (init 2 4094)
      [.mpdu ⟨4095, ()⟩, .mpdu ⟨1, ()⟩, .mpdu ⟨1, ()⟩, .mpdu ⟨0, ()⟩, .bar 4000] :=
  reordering (by decide) 4094 _

end Runs

end RecipientBlockAckAgreement

end Ns3Pedca
