import Ns3Pedca.Circular

/-!
# The block ack window

`BlockAckWindow` is a window of bits over the 12-bit sequence numbers, kept in a circular
vector : `head` is the position of the bit for `winStart`. `getAt_setAt` and `getAt_advance`
say what the bits are after each operation, wherever the head stands.
-/

namespace Ns3Pedca

/-- `SEQNO_SPACE_SIZE`. -/
abbrev seqnoSpaceSize : ℕ := 4096

/-- `SEQNO_SPACE_HALF_SIZE`. -/
abbrev seqnoSpaceHalfSize : ℕ := seqnoSpaceSize / 2

/-- A 12-bit sequence number. -/
abbrev SeqNo := Fin seqnoSpaceSize

instance seqnoSpaceSize_neZero : NeZero seqnoSpaceSize :=
  ⟨by decide⟩

/-- A number modulo `SEQNO_SPACE_SIZE`. -/
def SeqNo.ofNat (n : ℕ) : SeqNo :=
  ⟨n % seqnoSpaceSize, Nat.mod_lt _ (by decide)⟩

/-- `BlockAckAgreement::GetDistance`. -/
def getDistance (seqNumber startingSeqNumber : SeqNo) : ℕ :=
  Circular.dist seqnoSpaceSize seqNumber startingSeqNumber

/-- `BlockAckWindow`. -/
structure BlockAckWindow where
  winStart : SeqNo
  window : List Bool
  head : ℕ
  head_lt : 0 < window.length → head < window.length

namespace BlockAckWindow

variable (w : BlockAckWindow)

/-- `Init`. -/
def init (winStart : SeqNo) (winSize : ℕ) : BlockAckWindow where
  winStart := winStart
  window := List.replicate winSize false
  head := 0
  head_lt h := h

/-- `GetWinSize`. -/
def getWinSize : ℕ :=
  w.window.length

/-- `Reset`. -/
def reset (winStart : SeqNo) : BlockAckWindow :=
  init winStart w.getWinSize

/-- The position of the bit at `distance` from the start. -/
def index (distance : ℕ) : ℕ :=
  (w.head + distance) % w.getWinSize

/-- `At(distance)`. -/
def getAt (distance : ℕ) : Bool :=
  w.window.getD (w.index distance) false

/-- `At(distance) = true`. -/
def setAt (distance : ℕ) : BlockAckWindow where
  winStart := w.winStart
  window := w.window.set (w.index distance) true
  head := w.head
  head_lt h := by
    rw [List.length_set] at h ⊢
    exact w.head_lt h

/-- The body of the loop of `Advance`. -/
def advanceOne : BlockAckWindow where
  winStart := w.winStart
  window := w.window.set w.head false
  head := (w.head + 1) % w.getWinSize
  head_lt h := by
    rw [List.length_set] at h ⊢
    exact Nat.mod_lt _ h

/-- `Advance`. -/
def advance (count : ℕ) : BlockAckWindow :=
  if w.getWinSize ≤ count then w.reset (.ofNat (w.winStart + count))
  else { advanceOne^[count] w with winStart := .ofNat (w.winStart + count) }

variable {w} {d d' count : ℕ}

@[simp] theorem getWinSize_init (winStart : SeqNo) (winSize : ℕ) :
    (init winStart winSize).getWinSize = winSize :=
  List.length_replicate

@[simp] theorem getAt_init (winStart : SeqNo) (winSize : ℕ) :
    (init winStart winSize).getAt d = false := by
  simp only [getAt, init, List.getD_eq_getElem?_getD, List.getElem?_replicate]
  split <;> rfl

@[simp] theorem getWinSize_setAt : (w.setAt d).getWinSize = w.getWinSize :=
  List.length_set

theorem index_inj (hd : d < w.getWinSize) (hd' : d' < w.getWinSize) :
    w.index d = w.index d' ↔ d = d' := by
  have hhead : w.head < w.getWinSize := w.head_lt (Nat.zero_lt_of_lt hd)
  constructor
  · intro h
    have hmod : d % w.getWinSize = d' % w.getWinSize := Nat.ModEq.add_left_cancel' w.head h
    rwa [Nat.mod_eq_of_lt hd, Nat.mod_eq_of_lt hd'] at hmod
  · rintro rfl
    rfl

theorem index_lt (hd : d < w.getWinSize) : w.index d' < w.window.length :=
  Nat.mod_lt _ (Nat.zero_lt_of_lt hd)

theorem getAt_setAt (hd : d < w.getWinSize) (hd' : d' < w.getWinSize) :
    (w.setAt d).getAt d' = (decide (d' = d) || w.getAt d') := by
  have hindex : (w.setAt d).index d' = w.index d' := by
    rw [index, index, getWinSize_setAt]
    rfl
  rw [getAt, hindex]
  change (w.window.set (w.index d) true).getD (w.index d') false = _
  by_cases h : d' = d
  · subst h
    simp [List.getD_eq_getElem?_getD, List.getElem?_set_self (index_lt hd)]
  · have hne : w.index d ≠ w.index d' := fun he => h ((index_inj hd hd').1 he).symm
    simp [List.getD_eq_getElem?_getD, List.getElem?_set_ne hne, getAt, h]

@[simp] theorem getWinSize_advanceOne : w.advanceOne.getWinSize = w.getWinSize :=
  List.length_set

theorem getAt_advanceOne (hd : d < w.getWinSize) :
    w.advanceOne.getAt d = if d + 1 < w.getWinSize then w.getAt (d + 1) else false := by
  have hhead : w.head < w.getWinSize := w.head_lt (Nat.zero_lt_of_lt hd)
  have hindex : w.advanceOne.index d = w.index (d + 1) := by
    rw [index, index, getWinSize_advanceOne]
    change ((w.head + 1) % w.getWinSize + d) % w.getWinSize = _
    rw [Nat.mod_add_mod]
    congr 1
    omega
  have hhead_eq : w.index 0 = w.head := Nat.mod_eq_of_lt hhead
  rw [getAt, hindex]
  change (w.window.set w.head false).getD (w.index (d + 1)) false = _
  split
  next hlt =>
    have hne : w.head ≠ w.index (d + 1) := by
      intro he
      rw [← hhead_eq] at he
      exact absurd ((index_inj (by omega) hlt).1 he) (by omega)
    simp [List.getD_eq_getElem?_getD, List.getElem?_set_ne hne, getAt]
  next hge =>
    -- the bit of the last number is the one that was cleared
    have hlast : w.index (d + 1) = w.head := by
      have hd1 : d + 1 = w.getWinSize := by omega
      rw [index, hd1, Nat.add_mod_right, Nat.mod_eq_of_lt hhead]
    rw [hlast]
    simp [List.getD_eq_getElem?_getD, List.getElem?_set_self hhead]

theorem getWinSize_iterate_advanceOne (count : ℕ) :
    (advanceOne^[count] w).getWinSize = w.getWinSize := by
  induction count with
  | zero => rfl
  | succ count ih => rw [Function.iterate_succ_apply', getWinSize_advanceOne, ih]

theorem getAt_iterate_advanceOne (hd : d < w.getWinSize) (count : ℕ) :
    (advanceOne^[count] w).getAt d =
      if d + count < w.getWinSize then w.getAt (d + count) else false := by
  induction count generalizing d with
  | zero => simp [hd]
  | succ count ih =>
    have hsize := getWinSize_iterate_advanceOne (w := w) count
    rw [Function.iterate_succ_apply', getAt_advanceOne (by rw [hsize]; exact hd), hsize]
    split
    next hlt => rw [ih hlt, show d + 1 + count = d + (count + 1) by omega]
    next hge => rw [if_neg (by omega)]

@[simp] theorem getWinSize_advance : (w.advance count).getWinSize = w.getWinSize := by
  unfold advance
  split
  · exact getWinSize_init ..
  · exact getWinSize_iterate_advanceOne count

@[simp] theorem winStart_advance : (w.advance count).winStart = .ofNat (w.winStart + count) := by
  unfold advance
  split <;> rfl

/-- `Advance` shifts the bits, and clears those that enter. -/
theorem getAt_advance (hd : d < w.getWinSize) :
    (w.advance count).getAt d =
      if d + count < w.getWinSize then w.getAt (d + count) else false := by
  by_cases hcount : w.getWinSize ≤ count
  · rw [advance, if_pos hcount, reset, getAt_init, if_neg (by omega)]
  · rw [advance, if_neg hcount]
    exact getAt_iterate_advanceOne hd count

end BlockAckWindow

end Ns3Pedca
