import Ns3Pedca.Runs
import Ns3Pedca.Wifi.BlockAckWindow

/-!
# The numbers that a block ack window marks

A window is initialized, reset, advanced, and its bits are set, in any order. A sequence number
enters it when the window is new and when the end of the window moves past it, and is marked if it
was set since it last entered (`Marked`).

In every run a window of at most 4096 bits has the bits of the numbers that are marked
(`getAt_iff_marked`), and `Advance` moves its start and keeps the bits of the numbers that stay
(`refines_marked`). Two bits of a longer window are for one number, and only one of them is set
with it (`longWindow_not_marked`).
-/

namespace Ns3Pedca

/-- A call of a `BlockAckWindow` that changes it. -/
inductive BlockAckWindowCall
  | init (winStart : SeqNo) (winSize : ℕ)
  | reset (winStart : SeqNo)
  | set (distance : ℕ)
  | advance (count : ℕ)

namespace BlockAckWindow

/-- The window after a call. -/
def step (w : BlockAckWindow) : BlockAckWindowCall → BlockAckWindow
  | .init winStart winSize => init winStart winSize
  | .reset winStart => w.reset winStart
  | .set distance => w.setAt distance
  | .advance count => w.advance count

/-- A window has a bit, and a bit that is set is in the window. -/
def StepOk (w : BlockAckWindow) : BlockAckWindowCall → Prop
  | .init _ winSize => 0 < winSize
  | .reset _ => True
  | .set distance => distance < w.getWinSize
  | .advance _ => True

/-- The sequence number at a distance from the start. -/
def number (w : BlockAckWindow) (distance : ℕ) : SeqNo :=
  .ofNat (w.winStart + distance)

/-- The distance, in the window after a call, of the first number that enters with it. -/
def firstEntered (w : BlockAckWindow) : BlockAckWindowCall → ℕ
  | .init _ _ => 0
  | .reset _ => 0
  | .set _ => w.getWinSize
  | .advance count => w.getWinSize - count

/-- The call sets the bit of the number. -/
def Sets (x : SeqNo) (w : BlockAckWindow) (call : BlockAckWindowCall) : Prop :=
  ∃ distance, call = .set distance ∧ w.number distance = x

/-- The number enters with the call. -/
def Enters (x : SeqNo) (w : BlockAckWindow) (call : BlockAckWindowCall) : Prop :=
  ∃ d < (w.step call).getWinSize, w.firstEntered call ≤ d ∧ (w.step call).number d = x

/-- The number was set in a run since it last entered. -/
def Marked (w : BlockAckWindow) (calls : List BlockAckWindowCall) (x : SeqNo) : Prop :=
  Runs.Since step (Sets x) (Enters x) w calls

variable {w : BlockAckWindow} {d d' n : ℕ} {x : SeqNo} {calls : List BlockAckWindowCall}

/-- A window of at most 4096 bits has no number twice. -/
theorem number_inj (hsize : w.getWinSize ≤ seqnoSpaceSize) (hd : d < w.getWinSize)
    (hd' : d' < w.getWinSize) : w.number d = w.number d' ↔ d = d' := by
  constructor
  · intro h
    have hmod : (w.winStart + d) % seqnoSpaceSize = (w.winStart + d') % seqnoSpaceSize :=
      congrArg Fin.val h
    have hcancel : d % seqnoSpaceSize = d' % seqnoSpaceSize := Nat.ModEq.add_left_cancel' _ hmod
    rwa [Nat.mod_eq_of_lt (hd.trans_le hsize), Nat.mod_eq_of_lt (hd'.trans_le hsize)] at hcancel
  · rintro rfl
    rfl

/-- The number of a bit after `Advance`. -/
theorem number_advance (count : ℕ) : (w.advance count).number d = w.number (d + count) := by
  have hmod : ((w.winStart + count) % seqnoSpaceSize + d) % seqnoSpaceSize =
      (w.winStart + (d + count)) % seqnoSpaceSize := by
    rw [Nat.mod_add_mod]
    congr 1
    omega
  rw [number, winStart_advance]
  exact Fin.ext hmod

theorem enters_init {winStart : SeqNo} {winSize : ℕ} (hd : d < winSize) :
    Enters ((init winStart winSize).number d) w (.init winStart winSize) :=
  ⟨d, hd.trans_eq (getWinSize_init _ _).symm, Nat.zero_le d, rfl⟩

theorem not_enters_set {distance : ℕ} : ¬ Enters x w (.set distance) := by
  rintro ⟨d, hd, hle, -⟩
  have hsize : (w.setAt distance).getWinSize = w.getWinSize := getWinSize_setAt
  exact absurd (hd.trans_eq hsize) (Nat.not_lt.2 hle)

theorem not_sets_advance {count : ℕ} : ¬ Sets x w (.advance count) := by
  rintro ⟨distance, h, -⟩
  exact BlockAckWindowCall.noConfusion h

theorem enters_advance_iff {count : ℕ} (hsize : w.getWinSize ≤ seqnoSpaceSize)
    (hd : d < w.getWinSize) : Enters ((w.advance count).number d) w (.advance count) ↔
      w.getWinSize ≤ d + count := by
  have hadvance : (w.advance count).getWinSize = w.getWinSize := getWinSize_advance
  constructor
  · rintro ⟨d', hd', hle, heq⟩
    change d' < (w.advance count).getWinSize at hd'
    change w.getWinSize - count ≤ d' at hle
    rw [hadvance] at hd'
    obtain rfl := (number_inj (hadvance.trans_le hsize) (hd'.trans_eq hadvance.symm)
      (hd.trans_eq hadvance.symm)).1 heq
    omega
  · intro hle
    have hfirst : w.getWinSize - count ≤ d := by omega
    exact ⟨d, hd.trans_eq hadvance.symm, hfirst, rfl⟩

theorem marked_append_singleton {call : BlockAckWindowCall} :
    Marked w (calls ++ [call]) x ↔ Sets x (Runs.run step w calls) call ∨
      Marked w calls x ∧ ¬ Enters x (Runs.run step w calls) call :=
  Runs.since_append_singleton

/-- The bits of a new window stand for what is marked if all its numbers enter. -/
theorem getAt_iff_of_enters {winStart : SeqNo} {winSize : ℕ} {call : BlockAckWindowCall}
    (hstep : (Runs.run step w calls).step call = init winStart winSize)
    (hsets : ¬ Sets ((init winStart winSize).number d) (Runs.run step w calls) call)
    (henters : Enters ((init winStart winSize).number d) (Runs.run step w calls) call) :
    ((Runs.run step w calls).step call).getAt d = true ↔
      Marked w (calls ++ [call]) (((Runs.run step w calls).step call).number d) := by
  rw [hstep, getAt_init, marked_append_singleton]
  refine ⟨fun h => absurd h Bool.false_ne_true, ?_⟩
  rintro (h | ⟨-, h⟩)
  · exact absurd h hsets
  · exact absurd henters h

/-- In every run, the bits stand for the numbers that are marked. -/
theorem getAt_iff_marked {winStart : SeqNo} {winSize : ℕ} :
    Runs.Each step StepOk (init winStart winSize) calls →
      (Runs.run step (init winStart winSize) calls).getWinSize ≤ seqnoSpaceSize →
        ∀ d < (Runs.run step (init winStart winSize) calls).getWinSize,
          (Runs.run step (init winStart winSize) calls).getAt d = true ↔
            Marked (init winStart winSize) calls
              ((Runs.run step (init winStart winSize) calls).number d) := by
  induction calls using List.reverseRecOn with
  | nil =>
    intro _ _ d _
    rw [Runs.run_nil, getAt_init]
    exact iff_of_false Bool.false_ne_true (Runs.not_since_nil _)
  | append_singleton calls call ih =>
    intro hok
    rw [Runs.each_append] at hok
    obtain ⟨hcalls, hcall, -⟩ := hok
    rw [Runs.run_append, Runs.run_cons, Runs.run_nil]
    cases call with
    | init start size =>
      intro _ d hd
      have hlt : d < size := hd.trans_eq (getWinSize_init _ _)
      refine getAt_iff_of_enters rfl ?_ (enters_init hlt)
      rintro ⟨distance, h, -⟩
      exact BlockAckWindowCall.noConfusion h
    | reset start =>
      intro _ d hd
      have hreset : ∀ w : BlockAckWindow, w.step (.reset start) = init start w.getWinSize :=
        fun w => rfl
      refine getAt_iff_of_enters (hreset _) ?_ ⟨d, hd, Nat.zero_le d, rfl⟩
      rintro ⟨distance, h, -⟩
      exact BlockAckWindowCall.noConfusion h
    | set distance =>
      intro hsize d hd
      have hsame : ∀ w : BlockAckWindow, (w.setAt distance).getWinSize = w.getWinSize :=
        fun w => getWinSize_setAt
      change (setAt _ distance).getWinSize ≤ _ at hsize
      change d < (setAt _ distance).getWinSize at hd
      rw [hsame] at hsize hd
      change (setAt _ distance).getAt d = true ↔ Marked _ _ (number _ d)
      rw [getAt_setAt hcall hd, Bool.or_eq_true, decide_eq_true_eq, ih hcalls hsize d hd,
        marked_append_singleton, and_iff_left not_enters_set]
      refine or_congr_left ⟨?_, ?_⟩
      · rintro rfl
        exact ⟨d, rfl, rfl⟩
      · rintro ⟨distance', h, heq⟩
        obtain rfl := BlockAckWindowCall.set.inj h
        exact ((number_inj hsize hcall hd).1 heq).symm
    | advance count =>
      intro hsize d hd
      change (advance _ count).getWinSize ≤ _ at hsize
      change d < (advance _ count).getWinSize at hd
      rw [getWinSize_advance] at hsize hd
      change (advance _ count).getAt d = true ↔ Marked _ _ ((advance _ count).number d)
      rw [getAt_advance hd, marked_append_singleton, enters_advance_iff hsize hd,
        or_iff_right not_sets_advance]
      split_ifs with hin
      · rw [ih hcalls hsize _ hin, number_advance, and_iff_left (Nat.not_le.2 hin)]
      · exact iff_of_false id fun h => h.2 (Nat.not_lt.1 hin)

/-- A run of a window with at least one bit: its bits are those of the marked numbers if no number
is in it twice, and `Advance` keeps the bits of the numbers that stay. -/
theorem refines_marked {winStart : SeqNo} {winSize : ℕ} (hpos : 0 < winSize)
    (hok : Runs.Each step StepOk (init winStart winSize) calls) :
    0 < (Runs.run step (init winStart winSize) calls).getWinSize ∧
      ((Runs.run step (init winStart winSize) calls).getWinSize ≤ seqnoSpaceSize →
        ∀ d < (Runs.run step (init winStart winSize) calls).getWinSize,
          (Runs.run step (init winStart winSize) calls).getAt d = true ↔
            Marked (init winStart winSize) calls
              ((Runs.run step (init winStart winSize) calls).number d)) ∧
      ∀ count, ((Runs.run step (init winStart winSize) calls).advance count).winStart =
          .ofNat ((Runs.run step (init winStart winSize) calls).winStart + count) ∧
        ∀ d < (Runs.run step (init winStart winSize) calls).getWinSize,
          ((Runs.run step (init winStart winSize) calls).advance count).number d =
            (Runs.run step (init winStart winSize) calls).number (d + count) ∧
          ((Runs.run step (init winStart winSize) calls).advance count).getAt d =
            if d + count < (Runs.run step (init winStart winSize) calls).getWinSize then
              (Runs.run step (init winStart winSize) calls).getAt (d + count)
            else false := by
  refine ⟨?_, getAt_iff_marked hok, fun count => ⟨winStart_advance, fun d hd =>
    ⟨number_advance count, getAt_advance hd⟩⟩⟩
  refine hok.invariant (P := fun w => 0 < w.getWinSize) (fun w call hw hcall => ?_) ?_
  · cases call with
    | init start size => exact hcall.trans_eq (getWinSize_init _ _).symm
    | reset start => exact hw.trans_eq (getWinSize_init _ _).symm
    | set distance => exact hw.trans_eq getWinSize_setAt.symm
    | advance count => exact hw.trans_eq getWinSize_advance.symm
  · exact hpos.trans_eq (getWinSize_init _ _).symm

/-- The bit of the number 4095 is moved to the front of a window of two bits. -/
theorem shortWindow_refines_marked : 0 < 2 ∧
    (Runs.run step (init 4094 2) [.set 1, .advance 1]).getAt 0 = true ∧
    Marked (init 4094 2) [.set 1, .advance 1] 4095 := by
  have hok : Runs.Each step StepOk (init 4094 2) [.set 1, .advance 1] :=
    ⟨Nat.one_lt_two, trivial, trivial⟩
  have hrefines := refines_marked Nat.zero_lt_two hok
  have hbit : (Runs.run step (init 4094 2) [.set 1, .advance 1]).getAt 0 = true := by decide
  exact ⟨Nat.zero_lt_two, hbit, (hrefines.2.1 (by decide) 0 hrefines.1).1 hbit⟩

/-- In a window of 4097 bits the first and the last are for one number. Only the first is set. -/
theorem longWindow_not_marked : 1 ≤ 4097 ∧
    Runs.Each step StepOk (init 0 4097) [.set 0] ∧
    4096 < (Runs.run step (init 0 4097) [.set 0]).getWinSize ∧
    ¬ ((Runs.run step (init 0 4097) [.set 0]).getAt 4096 = true ↔
      Marked (init 0 4097) [.set 0] ((Runs.run step (init 0 4097) [.set 0]).number 4096)) := by
  have hsize : (init 0 4097).getWinSize = 4097 := getWinSize_init 0 4097
  have hset : ((init 0 4097).setAt 0).getWinSize = 4097 := getWinSize_setAt.trans hsize
  have hbit : ((init 0 4097).setAt 0).getAt 4096 = false := by
    rw [getAt_setAt (by rw [hsize]; norm_num) (by rw [hsize]; norm_num), getAt_init]
    rfl
  refine ⟨by norm_num, ⟨by rw [StepOk, hsize]; norm_num, trivial⟩, ?_, fun h => ?_⟩
  · change 4096 < ((init 0 4097).setAt 0).getWinSize
    rw [hset]
    norm_num
  · have hnumber (w : BlockAckWindow) : w.number 0 = (w.setAt 0).number 4096 :=
      Fin.ext (Nat.add_mod_right (w.winStart + 0) seqnoSpaceSize).symm
    have hmarked : Marked (init 0 4097) [.set 0]
        ((Runs.run step (init 0 4097) [.set 0]).number 4096) :=
      ⟨[], .set 0, [], rfl, ⟨0, rfl, hnumber _⟩, trivial⟩
    exact absurd (hbit.symm.trans (h.2 hmarked)) Bool.false_ne_true

end BlockAckWindow

end Ns3Pedca
