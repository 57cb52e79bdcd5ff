import Ns3Pedca.Internet.TcpShift

/-!
# The transmit buffer and the initial sequence number

Two runs of the buffer, the second with all sequence numbers increased by `d`. As long as the
numbers of each call lie in a window of less than half of the number space, and the answer of
no call depends on where the window lies (`Steady`), the results are the same but for the shift,
and so are the buffers (`run_shift`).

Three calls are not steady everywhere (`not_run_shift`). `CopyFromSequence` compares two numbers
with no regard to the wrap, and `IsLost` and `NextSeg` take the number 0 for no number.
-/

set_option linter.unusedSectionVars false

namespace Ns3Pedca

open Runs
open SequenceNumber32 (offset offset_add)

namespace TcpTxBuffer

variable {b b' : TcpTxBuffer} {w seq start : SequenceNumber32} {d s numBytes : UInt32} {now n : ℕ}
  {apps l l1 l2 after : List TcpTxItem} {t head : TcpTxItem}

/-! ## The highest SACK -/

/-- The highest SACK is less than `n` behind `w`, or no SACK has been seen. -/
def Highest (w : SequenceNumber32) (n : ℕ) (sackSeen : Bool) :
    Option ℕ × SequenceNumber32 → Prop
  | (none, seq) => seq = ⟨0⟩ ∧ sackSeen = false
  | (some _, seq) => sackSeen = true ∧ offset w seq < n

/-- The highest SACK is in the buffer. -/
def HighestInv (b : TcpTxBuffer) : Prop :=
  Highest b.firstByteSeq b.size.toNat b.sackSeen b.highestSack

section Highest

variable {sackSeen : Bool} {highest : Option ℕ × SequenceNumber32} {m : ℕ}

theorem highest_reset (w : SequenceNumber32) (n : ℕ) : Highest w n false (none, ⟨0⟩) :=
  ⟨rfl, rfl⟩

theorem Highest.mono (h : Highest w n sackSeen highest) (hnm : n ≤ m) :
    Highest w m sackSeen highest := by
  obtain ⟨node, seq⟩ := highest
  cases node with
  | none => exact h
  | some node => exact ⟨h.1, lt_of_lt_of_le h.2 hnm⟩

theorem offset_trans (w seq : SequenceNumber32) (h : offset w seq + offset seq start < 2 ^ 32) :
    offset w start = offset w seq + offset seq start := by
  have hadd : start = seq + (start - seq) := (SequenceNumber32.add_sub_cancel seq start).symm
  rw [hadd, offset_add]
  · rw [← hadd]
    rfl
  · exact h

theorem Highest.of_window (h : Highest seq n sackSeen highest) (hn : offset w seq + n < 2 ^ 32) :
    Highest w (offset w seq + n) sackSeen highest := by
  obtain ⟨node, highestSeq⟩ := highest
  cases node with
  | none => exact h
  | some node =>
    obtain ⟨hseen, hlt⟩ := h
    refine ⟨hseen, ?_⟩
    rw [offset_trans w seq (by omega)]
    omega

theorem HighestInv.window (h : HighestInv b) (hw : Window w b) :
    Highest w (2 ^ 31) b.sackSeen b.highestSack := by
  unfold Window at hw
  exact (Highest.of_window h (by omega)).mono hw.le

end Highest

/-- A byte of an item of a list is as far behind the start as there are bytes before it. -/
theorem offset_startSeq (hplaced : Placed start (l1 ++ t :: l2))
    (hwindow : offset w start + allBytes (l1 ++ t :: l2) < 2 ^ 32) :
    offset w t.startSeq = offset w start + allBytes l1 := by
  rw [allBytes_append, allBytes_cons] at hwindow
  have htoNat := UInt32.toNat_ofNat_of_lt' (n := allBytes l1) (show _ < 2 ^ 32 by omega)
  rw [startSeq_of_placed hplaced, offset_add (by omega), htoNat]

theorem offset_mem (hplaced : Placed start l) (hwindow : offset w start + allBytes l < 2 ^ 32)
    (ht : t ∈ l) : offset w t.startSeq + t.packet.length ≤ offset w start + allBytes l := by
  obtain ⟨l1, l2, rfl⟩ := List.append_of_mem ht
  rw [offset_startSeq hplaced hwindow, allBytes_append, allBytes_cons]
  omega

/-! ## Acknowledgments -/

theorem shifted_of_moved (happ : List.Forall₂ TcpTxItem.Alike b.appList apps) :
    Shifted d b (b.moved d apps) :=
  ⟨apps, happ, rfl⟩

theorem refill_moved (now : ℕ) (numBytes : UInt32) (h : StreamInv b) (hw : Window w b)
    (happ : List.Forall₂ TcpTxItem.Alike b.appList apps) :
    Option.Rel (Shifted d) (b.refill now numBytes) ((b.moved d apps).refill now numBytes) := by
  have hlist : (b.moved d apps).sentList = b.sentList.map (TcpTxItem.shift d) := rfl
  unfold refill
  rw [hlist]
  cases hl : b.sentList with
  | cons t l => exact .some (shifted_of_moved happ)
  | nil =>
    have hfirst : offset w b.firstByteSeq < 2 ^ 31 := lt_of_le_of_lt (Nat.le_add_right ..) hw
    have hsentEnd : b.sentEnd = b.firstByteSeq := by
      rw [sentEnd, h.sentSize, hl]
      exact SequenceNumber32.add_zero _
    -- nothing has been sent, and the request is not cut
    have hcut : CutAlike d b numBytes b.firstByteSeq := by
      intro hlt _
      rw [hsentEnd] at hlt
      exact absurd hlt (SequenceNumber32.not_lt.2 (SequenceNumber32.le_refl _))
    have hcopy := copyFromSequence_moved now h hw hfirst happ hcut
    have hhead : (b.moved d apps).firstByteSeq = b.firstByteSeq + d := rfl
    simp only [List.map_nil, hhead]
    generalize b.copyFromSequence now numBytes b.firstByteSeq = r at hcopy
    generalize (b.moved d apps).copyFromSequence now numBytes (b.firstByteSeq + d) = r' at hcopy
    cases hcopy with
    | none => exact .none
    | @some r r' hr =>
      obtain ⟨item, b₁⟩ := r
      obtain ⟨item', b₁'⟩ := r'
      obtain ⟨hitem, hshifted⟩ := hr
      cases item with
      | none =>
        cases hitem
        exact .none
      | some item =>
        cases hitem
        exact .some hshifted

theorem discardHead_moved :
    (b.moved d apps).discardHead (head.shift d) (after.map (TcpTxItem.shift d)) =
      (b.discardHead head after).moved d apps := by
  unfold discardHead removeFromCounts moved
  simp only [SequenceNumber32.add_right_comm b.firstByteSeq d]
  rfl

theorem discardStart_moved :
    (b.moved d apps).discardStart (head.shift d) (after.map (TcpTxItem.shift d)) s =
      (b.discardStart head after s).moved d apps := by
  have hsplit : (head.shift d).splitSecond s = (head.splitSecond s).shift d :=
    (respected_shift d).splitSecond s rfl
  unfold discardStart removeFromCounts moved
  simp only [SequenceNumber32.add_right_comm b.firstByteSeq d, hsplit, List.map_cons]
  rfl

theorem Window.of_same (hw : Window w b) (h : StreamInv b) (hsame : SameBuffer b b') :
    Window w b' := by
  unfold Window
  rw [hsame.inv.length_bytes, hsame.bytes, ← h.length_bytes, hsame.head]
  exact hw

theorem Window.discardHead (hw : Window w b) (h : StreamInv b) (hl : b.sentList = head :: after) :
    Window w (b.discardHead head after) := by
  have hlength := h.length_bytes
  rw [TcpTxBuffer.bytes, length_payload, allBytes_append, hl, allBytes_cons] at hlength
  have hsize := h.toNat_size (t := head) (by simp [hl])
  unfold Window at hw ⊢
  change offset w (b.firstByteSeq + head.size) + (b.size - head.size).toNat < 2 ^ 31
  rw [offset_add (by omega), UInt32.toNat_sub_of_le _ _ (UInt32.le_iff_toNat_le.2 (by omega))]
  omega

/-- The loop of `DiscardUpTo` in the two runs. -/
theorem discard_moved :
    ∀ {fuel : ℕ} {offset : UInt32} {b : TcpTxBuffer} {apps : List TcpTxItem}, StreamInv b →
      Window w b → List.Forall₂ TcpTxItem.Alike b.appList apps →
      Option.Rel (Shifted d) (discard now fuel offset b) (discard now fuel offset (b.moved d apps))
  | 0, _, _, _, _, _, _ => .none
  | fuel + 1, offset, b, apps, h, hw, happ => by
    have hsize : (b.moved d apps).size = b.size := rfl
    unfold discard
    rw [hsize]
    by_cases hpos : 0 < b.size ∧ 0 < offset
    · rw [if_pos hpos, if_pos hpos]
      have hrefill := refill_moved now offset (d := d) h hw happ
      cases hb₁ : b.refill now offset with
      | none =>
        rw [hb₁] at hrefill
        generalize (b.moved d apps).refill now offset = r' at hrefill ⊢
        cases hrefill
        exact .none
      | some b₁ =>
        obtain hsame := h.refill hb₁
        rw [hb₁] at hrefill
        generalize (b.moved d apps).refill now offset = r' at hrefill ⊢
        cases hrefill with
        | some hshifted =>
          obtain ⟨apps₁, happ₁, rfl⟩ := hshifted
          have hw₁ := hw.of_same h hsame
          have hlist : (b₁.moved d apps₁).sentList = b₁.sentList.map (TcpTxItem.shift d) := rfl
          simp only [hlist]
          cases hl : b₁.sentList with
          | nil => exact .none
          | cons head after =>
            have hheadSize : (head.shift d).size = head.size := rfl
            simp only [List.map_cons, hheadSize]
            by_cases hle : head.size ≤ offset
            · rw [if_pos hle, if_pos hle, discardHead_moved]
              exact discard_moved (hsame.inv.discardHead hl).1 (hw₁.discardHead hsame.inv hl) happ₁
            · rw [if_neg hle, if_neg hle, discardStart_moved]
              exact .some (shifted_of_moved happ₁)
    · rw [if_neg hpos, if_neg hpos]
      exact .some (shifted_of_moved happ)

/-- The highest SACK stays as it is. -/
def SameHighest (b b' : TcpTxBuffer) : Prop :=
  b'.highestSack = b.highestSack ∧ b'.sackSeen = b.sackSeen

theorem copyFromSequence_highest {r : Option TcpTxItem}
    (hcopy : b.copyFromSequence now numBytes seq = some (r, b')) : SameHighest b b' := by
  cases copyFromSequence_step hcopy with
  | null => exact ⟨rfl, rfl⟩
  | transmitted hne hend hget =>
    obtain ⟨found, -, -, rfl⟩ := getTransmittedSegment_found hget
    exact ⟨rfl, rfl⟩
  | new hne hend hget =>
    obtain ⟨found, -, -, rfl⟩ := getNewSegment_found hget
    exact ⟨rfl, rfl⟩

theorem refill_highest (hrefill : b.refill now numBytes = some b') : SameHighest b b' := by
  unfold refill at hrefill
  split at hrefill
  next =>
    split at hrefill
    next item b'' hcopy =>
      cases hrefill
      exact copyFromSequence_highest hcopy
    next => cases hrefill
  next =>
    cases hrefill
    exact ⟨rfl, rfl⟩

theorem discard_highest :
    ∀ {fuel : ℕ} {offset : UInt32} {b b' : TcpTxBuffer},
      discard now fuel offset b = some b' → SameHighest b b'
  | 0, _, _, _, hdiscard => by cases hdiscard
  | fuel + 1, offset, b, b', hdiscard => by
    unfold discard at hdiscard
    split at hdiscard
    next =>
      split at hdiscard
      next => cases hdiscard
      next b₁ hrefill =>
        obtain ⟨hhighest, hseen⟩ := refill_highest hrefill
        split at hdiscard
        next => cases hdiscard
        next head after hl =>
          split at hdiscard
          next =>
            obtain ⟨hhighest', hseen'⟩ := discard_highest hdiscard
            exact ⟨hhighest'.trans hhighest, hseen'.trans hseen⟩
          next =>
            cases hdiscard
            exact ⟨hhighest, hseen⟩
    next =>
      cases hdiscard
      exact ⟨rfl, rfl⟩

/-! ## Flags of one item -/

theorem sackFirst_shift (d : UInt32) :
    ∀ l : List TcpTxItem, sackFirst (l.map (TcpTxItem.shift d)) =
      (sackFirst l).map fun r => (r.1.map (TcpTxItem.shift d), r.2.shift d)
  | [] => rfl
  | t :: l => by
    have hsacked : (t.shift d).sacked = t.sacked := rfl
    rw [List.map_cons]
    unfold sackFirst
    rw [hsacked]
    by_cases h : t.sacked = true
    · rw [if_pos h, if_pos h, sackFirst_shift d l, Option.map_map, Option.map_map]
      rfl
    · rw [if_neg h, if_neg h]
      rfl

theorem addRenoSack_moved :
    (b.moved d apps).addRenoSack = b.addRenoSack.map fun b => b.moved d apps := by
  have hlist : (b.moved d apps).sentList = b.sentList.map (TcpTxItem.shift d) := rfl
  unfold addRenoSack
  rw [hlist]
  cases hl : b.sentList with
  | nil => rfl
  | cons head after =>
    simp only [List.map_cons, sackFirst_shift]
    cases sackFirst after with
    | none =>
      simp only [Option.map_none, Option.map_some]
    | some r => rfl

theorem markHeadAsLost_moved :
    (b.moved d apps).markHeadAsLost = b.markHeadAsLost.moved d apps := by
  have hlist : (b.moved d apps).sentList = b.sentList.map (TcpTxItem.shift d) := rfl
  unfold markHeadAsLost
  rw [hlist]
  cases hl : b.sentList with
  | nil => rfl
  | cons head after => rfl

theorem moveHeadSack_moved :
    (b.moved d apps).moveHeadSack = b.moveHeadSack.map fun b => b.moved d apps := by
  have hlist : (b.moved d apps).sentList = b.sentList.map (TcpTxItem.shift d) := rfl
  unfold moveHeadSack
  rw [hlist]
  cases hl : b.sentList with
  | nil => rfl
  | cons head after =>
    have hsacked : (head.shift d).sacked = head.sacked := rfl
    simp only [List.map_cons, hsacked]
    by_cases h : head.sacked = true
    · rw [if_pos h, if_pos h]
      let cleared : TcpTxBuffer := { b with
        sentList := { head with sacked := false } :: after
        sackedOut := b.sackedOut - head.size }
      change Option.map markHeadAsLost (cleared.moved d apps).addRenoSack =
        (Option.map markHeadAsLost cleared.addRenoSack).map _
      rw [addRenoSack_moved, Option.map_map, Option.map_map]
      congr 1
      funext b
      exact markHeadAsLost_moved
    · rw [if_neg h, if_neg h]
      rfl

theorem addRenoSack_appList (hadd : b.addRenoSack = some b') : b'.appList = b.appList := by
  unfold addRenoSack at hadd
  split at hadd
  · cases hadd
  · split at hadd <;> cases hadd <;> rfl

theorem markHeadAsLost_appList : b.markHeadAsLost.appList = b.appList := by
  unfold markHeadAsLost
  split <;> rfl

theorem moveHeadSack_appList (hmove : b.moveHeadSack = some b') : b'.appList = b.appList := by
  unfold moveHeadSack at hmove
  split at hmove
  · cases hmove
    rfl
  · split at hmove
    · obtain ⟨b₁, hadd, rfl⟩ := Option.map_eq_some_iff.1 hmove
      rw [markHeadAsLost_appList, addRenoSack_appList hadd]
    · cases hmove
      rfl

theorem markHeadAsLost_highest : SameHighest b b.markHeadAsLost := by
  unfold markHeadAsLost
  split <;> exact ⟨rfl, rfl⟩

/-- A new highest SACK is that of an item of the sent list. -/
theorem addRenoSack_highest (h : StreamInv b) (hhighest : Highest w n b.sackSeen b.highestSack)
    (hn : offset w b.firstByteSeq + allBytes b.sentList ≤ n) (hlt : n < 2 ^ 32)
    (hadd : b.addRenoSack = some b') : Highest w n b'.sackSeen b'.highestSack := by
  unfold addRenoSack at hadd
  split at hadd
  · cases hadd
  next head after hl =>
    split at hadd
    next after' t hsack =>
      cases hadd
      obtain ⟨-, -, l1, l2, rfl, rfl⟩ := sackFirst_some hsack
      have ht : t ∈ b.sentList := by
        rw [hl]
        simp
      have hoffset := offset_mem h.placed (lt_of_le_of_lt hn hlt) ht
      have hpos := List.length_pos_iff.2 (h.nonempty t (List.mem_append_left _ ht))
      exact ⟨rfl, by omega⟩
    next =>
      cases hadd
      exact hhighest

theorem moveHeadSack_highest (h : StreamInv b) (hhighest : Highest w n b.sackSeen b.highestSack)
    (hn : offset w b.firstByteSeq + allBytes b.sentList ≤ n) (hlt : n < 2 ^ 32)
    (hmove : b.moveHeadSack = some b') : Highest w n b'.sackSeen b'.highestSack := by
  unfold moveHeadSack at hmove
  split at hmove
  · cases hmove
    exact hhighest
  next head after hl =>
    split at hmove
    next =>
      obtain ⟨b₁, hadd, rfl⟩ := Option.map_eq_some_iff.1 hmove
      obtain ⟨hmark, hseen⟩ := b₁.markHeadAsLost_highest
      rw [hmark, hseen]
      let cleared : TcpTxBuffer := { b with
        sentList := { head with sacked := false } :: after
        sackedOut := b.sackedOut - head.size }
      have hdata : cleared.sentList.map data = b.sentList.map data := by
        rw [hl]
        rfl
      have hcleared : SameBuffer b cleared := h.sameBuffer hdata rfl rfl rfl rfl rfl
      refine addRenoSack_highest hcleared.inv hhighest ?_ hlt hadd
      rw [allBytes_of_data hdata]
      exact hn
    next =>
      cases hmove
      exact hhighest

/-- If no SACK has been seen, there is nothing to reset. -/
theorem resetHighestSack_eq (h : Highest w n b.sackSeen b.highestSack)
    (hnone : b.highestSack.1 = none) : b.resetHighestSack = b := by
  obtain ⟨apps, sent, maxBuffer, size, sentSize, first, ⟨node, highest⟩⟩ := b
  cases hnone
  obtain ⟨rfl, rfl⟩ := h
  rfl

/-- The end of `DiscardUpTo` in the two runs. -/
theorem resetIfBelow_moved (h : Highest w (2 ^ 31) b.sackSeen b.highestSack)
    (hfirst : offset w b.firstByteSeq < 2 ^ 31) :
    (if (b.moved d apps).highestSack.2 ≤ (b.moved d apps).firstByteSeq then
      (b.moved d apps).resetHighestSack else b.moved d apps) =
      (if b.highestSack.2 ≤ b.firstByteSeq then b.resetHighestSack else b).moved d apps := by
  have hmoved : (b.moved d apps).resetHighestSack = b.resetHighestSack.moved d apps := rfl
  rw [hmoved]
  cases hnode : b.highestSack.1 with
  | none =>
    rw [resetHighestSack_eq h hnode, ite_self, ite_self]
  | some node =>
    obtain ⟨seq, hseq⟩ : ∃ seq, b.highestSack = (some node, seq) := ⟨b.highestSack.2, by
      rw [← hnode]⟩
    have hle : (b.moved d apps).highestSack.2 ≤ (b.moved d apps).firstByteSeq ↔
        b.highestSack.2 ≤ b.firstByteSeq := by
      change (shiftHighest d b.highestSack).2 ≤ b.firstByteSeq + d ↔ _
      rw [hseq] at h ⊢
      exact SequenceNumber32.add_le_add_iff (w := w) h.2 hfirst
    by_cases hbelow : b.highestSack.2 ≤ b.firstByteSeq
    · rw [if_pos hbelow, if_pos (hle.2 hbelow)]
    · rw [if_neg hbelow, if_neg fun h' => hbelow (hle.1 h')]

/-- A highest SACK that `DiscardUpTo` keeps is in the buffer. -/
theorem highestInv_resetIfBelow (h : Highest w n b.sackSeen b.highestSack)
    (hn : n ≤ offset w b.firstByteSeq + b.size.toNat) (hw : Window w b) :
    HighestInv (if b.highestSack.2 ≤ b.firstByteSeq then b.resetHighestSack else b) := by
  unfold Window at hw
  split
  · exact highest_reset _ _
  next habove =>
    unfold HighestInv
    generalize b.highestSack = highest at h habove
    obtain ⟨node, seq⟩ := highest
    cases node with
    | none => exact h
    | some node =>
      obtain ⟨hseen, hlt⟩ := h
      change ¬ seq ≤ b.firstByteSeq at habove
      refine ⟨hseen, ?_⟩
      rw [SequenceNumber32.not_le, SequenceNumber32.lt_iff (w := w) (by omega) (by omega)]
        at habove
      have hdist := SequenceNumber32.toNat_sub_of_offset_le habove.le
      change offset b.firstByteSeq seq = _ at hdist
      omega

/-- What the loop of `DiscardUpTo` leaves, before the flags of the head are looked at. -/
theorem highest_discard {b₃ : TcpTxBuffer} (h : StreamInv b) (hhighest : HighestInv b)
    (hw : Window w b) (hseq : offset w seq < 2 ^ 31) (hnew : ¬ seq ≤ b.firstByteSeq)
    (hloop : discard now (b.size.toNat + 1) (seq - b.firstByteSeq) b = some b')
    (hb₃ : (if b'.size = 0 then { b' with firstByteSeq := seq } else b') = b₃)
    (h₃ : StreamInv b₃) (hbytes : b₃.bytes = b.bytes.drop (seq - b.firstByteSeq).toNat)
    (hfirst : b₃.firstByteSeq = seq) :
    Window w b₃ ∧ Highest w (offset w b₃.firstByteSeq + b₃.size.toNat) b₃.sackSeen
      b₃.highestSack := by
  have hsize := h₃.length_bytes
  unfold Window at hw
  rw [SequenceNumber32.not_le, SequenceNumber32.lt_iff (w := w) (by omega) hseq] at hnew
  rw [hbytes, List.length_drop, ← h.length_bytes,
    SequenceNumber32.toNat_sub_of_offset_le hnew.le] at hsize
  have hsame : SameHighest b b₃ := by
    obtain ⟨hsack, hseen⟩ := discard_highest hloop
    rw [← hb₃]
    split <;> exact ⟨hsack, hseen⟩
  unfold Window
  rw [hfirst, hsame.1, hsame.2]
  refine ⟨by omega, ?_⟩
  exact (Highest.of_window (w := w) hhighest (by omega)).mono (by omega)

/-- `DiscardUpTo` of the two runs. -/
theorem discardUpTo_moved (h : StreamInv b) (hhighest : HighestInv b) (hw : Window w b)
    (hseq : offset w seq < 2 ^ 31) (happ : List.Forall₂ TcpTxItem.Alike b.appList apps) :
    Option.Rel (Shifted d) (b.discardUpTo now seq)
      ((b.moved d apps).discardUpTo now (seq + d)) := by
  have hle : seq + d ≤ (b.moved d apps).firstByteSeq ↔ seq ≤ b.firstByteSeq :=
    SequenceNumber32.add_le_add_iff (w := w) hseq (lt_of_le_of_lt (Nat.le_add_right ..) hw)
  unfold discardUpTo
  by_cases hnew : seq ≤ b.firstByteSeq
  · rw [if_pos hnew, if_pos (hle.2 hnew)]
    exact .some (shifted_of_moved happ)
  rw [if_neg hnew, if_neg fun h' => hnew (hle.1 h')]
  have hsub : seq + d - (b.moved d apps).firstByteSeq = seq - b.firstByteSeq :=
    SequenceNumber32.add_sub_add ..
  have hloop : Option.Rel (Shifted d)
      (discard now (b.size.toNat + 1) (seq - b.firstByteSeq) b)
      (discard now (b.size.toNat + 1) (seq - b.firstByteSeq) (b.moved d apps)) :=
    discard_moved h hw happ
  have hsize : (b.moved d apps).size = b.size := rfl
  rw [hsub, hsize]
  cases hb₁ : discard now (b.size.toNat + 1) (seq - b.firstByteSeq) b with
  | none =>
    rw [hb₁] at hloop
    generalize discard now (b.size.toNat + 1) (seq - b.firstByteSeq) (b.moved d apps) = r'
      at hloop ⊢
    cases hloop
    exact .none
  | some b₁ =>
    obtain ⟨b₃, hb₃, h₃, hbytes, -, hfirst⟩ := h.discard_first hb₁
    obtain ⟨hw₃, hhighest₃⟩ := highest_discard h hhighest hw hseq hnew hb₁ hb₃ h₃ hbytes hfirst
    rw [hb₁] at hloop
    generalize discard now (b.size.toNat + 1) (seq - b.firstByteSeq) (b.moved d apps) = r'
      at hloop ⊢
    cases hloop with
    | some hshifted =>
      obtain ⟨apps₁, happ₁, rfl⟩ := hshifted
      have hmoved : (if (b₁.moved d apps₁).size = 0 then
          { b₁.moved d apps₁ with firstByteSeq := seq + d } else b₁.moved d apps₁) =
          b₃.moved d apps₁ := by
        rw [← hb₃]
        have hsize₁ : (b₁.moved d apps₁).size = b₁.size := rfl
        rw [hsize₁]
        split <;> rfl
      have happ₃ : List.Forall₂ TcpTxItem.Alike b₃.appList apps₁ := by
        rw [← hb₃]
        split <;> exact happ₁
      simp only [hmoved, hb₃, moveHeadSack_moved, Option.map_map]
      cases hmove : b₃.moveHeadSack with
      | none => exact .none
      | some b₂ =>
        have hsame := h₃.moveHeadSack hmove
        have hw₂ := hw₃.of_same h₃ hsame
        have hsent := hw₃.sent h₃
        have hlength := h₃.length_bytes
        rw [TcpTxBuffer.bytes, length_payload, allBytes_append] at hlength
        unfold Window at hw₃ hw₂
        have hhighest₂ := moveHeadSack_highest h₃ hhighest₃ (by omega) (by omega) hmove
        refine .some ⟨apps₁, ?_, ?_⟩
        · have happ₂ := moveHeadSack_appList hmove
          change List.Forall₂ _
            (if b₂.highestSack.2 ≤ b₂.firstByteSeq then b₂.resetHighestSack else b₂).appList _
          split
          · exact happ₂ ▸ happ₃
          · exact happ₂ ▸ happ₃
        · exact resetIfBelow_moved (hhighest₂.mono (by omega)) (by omega)

/-- After `DiscardUpTo` the highest SACK is in the buffer. -/
theorem HighestInv.discardUpTo (hhighest : HighestInv b) (h : StreamInv b) (hw : Window w b)
    (hseq : offset w seq < 2 ^ 31) (hdiscard : b.discardUpTo now seq = some b') :
    HighestInv b' := by
  unfold TcpTxBuffer.discardUpTo at hdiscard
  split at hdiscard
  · cases hdiscard
    exact hhighest
  next hnew =>
    split at hdiscard
    · cases hdiscard
    next b₁ hloop =>
      obtain ⟨b₂, hmove, heq⟩ := Option.map_eq_some_iff.1 hdiscard
      obtain ⟨b₃, hb₃, h₃, hbytes, -, hfirst⟩ := h.discard_first hloop
      obtain ⟨hw₃, hhighest₃⟩ :=
        highest_discard h hhighest hw hseq hnew hloop hb₃ h₃ hbytes hfirst
      rw [hb₃] at hmove
      have hsame := h₃.moveHeadSack hmove
      have hw₂ := hw₃.of_same h₃ hsame
      have hlength := h₃.length_bytes
      have hsize : b₂.size = b₃.size := by
        rw [← UInt32.toNat_inj, hsame.inv.length_bytes, hsame.bytes, hlength]
      rw [TcpTxBuffer.bytes, length_payload, allBytes_append] at hlength
      have hlt := hw₃
      unfold Window at hlt
      have hhighest₂ := moveHeadSack_highest h₃ hhighest₃ (by omega) (by omega) hmove
      rw [← heq]
      exact highestInv_resetIfBelow hhighest₂ (by rw [hsize, hsame.head]) hw₂

/-! ## Selective acknowledgments -/

section Updates

variable {block : SequenceNumber32 × SequenceNumber32} {marks : Marks}

/-- The marks of the second run. -/
def Marks.shift (d : UInt32) (marks : Marks) : Marks :=
  { marks with highestSack := shiftHighest d marks.highestSack }

/-- The block, with its sequence numbers increased. -/
def shiftBlock (d : UInt32) (block : SequenceNumber32 × SequenceNumber32) :
    SequenceNumber32 × SequenceNumber32 :=
  (block.1 + d, block.2 + d)

theorem markSacked_shift (hhighest : Highest w (2 ^ 31) marks.sackSeen marks.highestSack)
    (hend : offset w (start + t.size) < 2 ^ 31) :
    markSacked (start + d) (t.shift d) (marks.shift d) = (markSacked start t marks).shift d := by
  have hsacked : (t.shift d).sacked = t.sacked := rfl
  have hnew : ((marks.shift d).highestSack.1.isNone ||
      decide ((marks.shift d).highestSack.2 ≤ start + d + (t.shift d).size)) =
      (marks.highestSack.1.isNone || decide (marks.highestSack.2 ≤ start + t.size)) := by
    obtain ⟨lostOut, sackedOut, bytesSacked, sackSeen, ⟨node, seq⟩⟩ := marks
    cases node with
    | none => rfl
    | some node =>
      have hle : seq + d ≤ start + d + t.size ↔ seq ≤ start + t.size := by
        rw [SequenceNumber32.add_right_comm]
        exact SequenceNumber32.add_le_add_iff (w := w) hhighest.2 hend
      exact decide_eq_decide.2 hle
  unfold markSacked
  rw [hsacked]
  by_cases h : t.sacked = true
  · rw [if_pos h, if_pos h]
  · rw [if_neg h, if_neg h]
    simp only [hnew]
    generalize (marks.highestSack.1.isNone || decide (marks.highestSack.2 ≤ start + t.size)) =
      isHighest
    cases isHighest <;> rfl

theorem Highest.markSacked (hhighest : Highest w n marks.sackSeen marks.highestSack)
    (hstart : offset w start < n) :
    Highest w n (markSacked start t marks).sackSeen (markSacked start t marks).highestSack := by
  unfold TcpTxBuffer.markSacked
  split
  · exact hhighest
  · dsimp only
    split
    · exact ⟨rfl, hstart⟩
    · exact hhighest

/-- The loop of `Update` over the items in the two runs. -/
theorem updateBlock_shift (hblock : offset w block.1 < 2 ^ 31 ∧ offset w block.2 < 2 ^ 31) :
    ∀ (l : List TcpTxItem) (start : SequenceNumber32) (marks : Marks),
      offset w start + allBytes l < 2 ^ 31 →
      Highest w (2 ^ 31) marks.sackSeen marks.highestSack →
      updateBlock (shiftBlock d block) (start + d) (l.map (TcpTxItem.shift d)) (marks.shift d) =
        ((updateBlock block start l marks).1.map (TcpTxItem.shift d),
          (updateBlock block start l marks).2.shift d)
  | [], _, _, _, _ => rfl
  | t :: l, start, marks, hwindow, hhighest => by
    rw [allBytes_cons] at hwindow
    have hsize := t.toNat_size_le
    have hend : offset w (start + t.size) = offset w start + t.size.toNat :=
      offset_add (by omega)
    have hcover : (shiftBlock d block).1 ≤ start + d ∧
        start + d + (t.shift d).size ≤ (shiftBlock d block).2 ↔
        block.1 ≤ start ∧ start + t.size ≤ block.2 := by
      refine and_congr ?_ ?_
      · exact SequenceNumber32.add_le_add_iff (w := w) hblock.1 (by omega)
      · change start + d + t.size ≤ block.2 + d ↔ _
        rw [SequenceNumber32.add_right_comm]
        exact SequenceNumber32.add_le_add_iff (w := w) (by omega) hblock.2
    have hpast : (shiftBlock d block).2 < start + d + (t.shift d).size ↔
        block.2 < start + t.size := by
      change block.2 + d < start + d + t.size ↔ _
      rw [SequenceNumber32.add_right_comm]
      exact SequenceNumber32.add_lt_add_iff (w := w) hblock.2 (by omega)
    have hstart : start + d + (t.shift d).size = start + t.size + d :=
      SequenceNumber32.add_right_comm start d t.size
    have hsacked : (t.shift d).sacked = t.sacked := rfl
    rw [List.map_cons]
    unfold updateBlock
    by_cases hcovered : block.1 ≤ start ∧ start + t.size ≤ block.2
    · have ih := updateBlock_shift hblock l (start + t.size) (markSacked start t marks) (by omega)
        (hhighest.markSacked (by omega))
      rw [if_pos hcovered, if_pos (hcover.2 hcovered), hstart,
        markSacked_shift hhighest (by omega), ih, hsacked]
      dsimp only
      split <;> rfl
    · rw [if_neg hcovered, if_neg fun h => hcovered (hcover.1 h)]
      by_cases hlast : block.2 < start + t.size
      · rw [if_pos hlast, if_pos (hpast.2 hlast)]
        rfl
      · have ih := updateBlock_shift hblock l (start + t.size) marks (by omega) hhighest
        rw [if_neg hlast, if_neg fun h => hlast (hpast.1 h), hstart, ih]
        rfl

/-- A highest SACK that the loop sets is the start of an item. -/
theorem Highest.updateBlock :
    ∀ {l : List TcpTxItem} {start : SequenceNumber32} {marks : Marks},
      (∀ t ∈ l, t.packet ≠ []) → n < 2 ^ 32 → offset w start + allBytes l ≤ n →
      Highest w n marks.sackSeen marks.highestSack →
      Highest w n (updateBlock block start l marks).2.sackSeen
        (updateBlock block start l marks).2.highestSack
  | [], _, _, _, _, _, hhighest => hhighest
  | t :: l, start, marks, hl, hn, hwindow, hhighest => by
    rw [allBytes_cons] at hwindow
    have hsize := t.toNat_size_le
    have hpos := List.length_pos_iff.2 (hl t (List.mem_cons_self ..))
    have hrest : ∀ x ∈ l, x.packet ≠ [] := fun x hx => hl x (List.mem_cons_of_mem t hx)
    have hend : offset w (start + t.size) = offset w start + t.size.toNat :=
      offset_add (by omega)
    unfold TcpTxBuffer.updateBlock
    split
    · exact Highest.updateBlock hrest hn (by omega) (hhighest.markSacked (by omega))
    · split
      · exact hhighest
      · exact Highest.updateBlock hrest hn (by omega) hhighest

theorem updateBlock_data (start : SequenceNumber32) (l : List TcpTxItem) (marks : Marks) :
    (updateBlock block start l marks).1.map data = l.map data := by
  have hsacks := (updateBlock_spec (List.mem_singleton_self block) start l marks).1
  refine map_data_of_forall₂ hsacks.forall₂ ?_
  rintro t t' (rfl | rfl) <;> rfl

theorem Highest.updateBlocks (h : StreamInv b) (hn : n < 2 ^ 32)
    (hwindow : offset w b.firstByteSeq + allBytes b.sentList ≤ n) :
    ∀ (blocks : List (SequenceNumber32 × SequenceNumber32)) (items : List TcpTxItem)
      (marks : Marks), items.map data = b.sentList.map data →
      Highest w n marks.sackSeen marks.highestSack →
      Highest w n (b.updateBlocks blocks items marks).1.2.sackSeen
        (b.updateBlocks blocks items marks).1.2.highestSack
  | [], _, _, _, hhighest => hhighest
  | block :: blocks, items, marks, hitems, hhighest => by
    have hnonempty : ∀ t ∈ items, t.packet ≠ [] :=
      nonempty_of_data hitems fun t ht => h.nonempty t (List.mem_append_left _ ht)
    unfold TcpTxBuffer.updateBlocks
    split
    · exact hhighest
    · refine Highest.updateBlocks h hn hwindow _ _ _ ((updateBlock_data _ _ _).trans hitems) ?_
      refine hhighest.updateBlock hnonempty hn ?_
      rw [allBytes_of_data hitems]
      exact hwindow

/-- The loop of `Update` over the blocks in the two runs. -/
theorem updateBlocks_shift (h : StreamInv b) (hw : Window w b) :
    ∀ {blocks : List (SequenceNumber32 × SequenceNumber32)} {items : List TcpTxItem}
      (marks : Marks),
      (∀ block ∈ blocks, offset w block.1 < 2 ^ 31 ∧ offset w block.2 < 2 ^ 31) →
      items.map data = b.sentList.map data →
      Highest w (2 ^ 31) marks.sackSeen marks.highestSack →
      (b.moved d apps).updateBlocks (blocks.map (shiftBlock d))
          (items.map (TcpTxItem.shift d)) (marks.shift d) =
        (((b.updateBlocks blocks items marks).1.1.map (TcpTxItem.shift d),
          (b.updateBlocks blocks items marks).1.2.shift d), (b.updateBlocks blocks items marks).2)
  | [], _, _, _, _, _ => rfl
  | block :: blocks, items, marks, hblocks, hitems, hhighest => by
    have hblock := hblocks block (List.mem_cons_self ..)
    have hsent := hw.sent h
    have hsentEnd := hw.offset_sentEnd h
    have hall : allBytes items = allBytes b.sentList := allBytes_of_data hitems
    have hnonempty : ∀ t ∈ items, t.packet ≠ [] :=
      nonempty_of_data hitems fun t ht => h.nonempty t (List.mem_append_left _ ht)
    have houtside : (b.moved d apps).sentEnd < (shiftBlock d block).1 ↔ b.sentEnd < block.1 := by
      rw [sentEnd_moved]
      exact SequenceNumber32.add_lt_add_iff (w := w) (by omega) hblock.1
    rw [List.map_cons]
    unfold updateBlocks
    by_cases hout : b.sentEnd < block.1
    · rw [if_pos hout, if_pos (houtside.2 hout)]
    · have hone := updateBlock_shift (d := d) hblock items b.firstByteSeq marks (by omega)
        hhighest
      have hfirst : (b.moved d apps).firstByteSeq = b.firstByteSeq + d := rfl
      rw [if_neg hout, if_neg fun h' => hout (houtside.1 h'), hfirst, hone]
      exact updateBlocks_shift h hw _ (fun x hx => hblocks x (List.mem_cons_of_mem block hx))
        ((updateBlock_data _ _ _).trans hitems)
        (hhighest.updateBlock hnonempty (by decide) (by omega))

theorem updateLostItems_shift (first : ℕ) (dupAckThresh lostOut d : UInt32) :
    ∀ l : List TcpTxItem,
      updateLostItems first dupAckThresh lostOut (l.map (TcpTxItem.shift d)) =
        (updateLostItems first dupAckThresh lostOut l).map fun r =>
          (r.1.map (TcpTxItem.shift d), r.2)
  | [] => rfl
  | t :: l => by
    have hnode : (t.shift d).node = t.node := rfl
    have hsacked : (t.shift d).sacked = t.sacked := rfl
    have hlost : (t.shift d).lost = t.lost := rfl
    rw [List.map_cons]
    unfold updateLostItems
    rw [hnode, hsacked, hlost, updateLostItems_shift first dupAckThresh lostOut d l]
    by_cases hfirst : t.node = first
    · rw [if_pos hfirst, if_pos hfirst]
      simp only [Option.map_some]
      generalize (if t.sacked = true then (0 : UInt32) + 1 else 0) = sacked
      split <;> rfl
    · rw [if_neg hfirst, if_neg hfirst, Option.map_map, Option.map_map]
      congr 1
      funext r
      obtain ⟨after, sacked, lostOut⟩ := r
      dsimp only [Function.comp]
      generalize (if t.sacked = true then sacked + 1 else sacked) = sacked
      split <;> rfl

theorem updateLostCount_moved :
    (b.moved d apps).updateLostCount = b.updateLostCount.map fun b => b.moved d apps := by
  have hlist : (b.moved d apps).sentList = b.sentList.map (TcpTxItem.shift d) := rfl
  have hhighest : (b.moved d apps).highestSack.1 = b.highestSack.1 := by
    change (shiftHighest d b.highestSack).1 = _
    obtain ⟨node, seq⟩ := b.highestSack
    cases node <;> rfl
  unfold updateLostCount
  rw [hlist, hhighest]
  cases hl : b.sentList with
  | nil => rfl
  | cons head after =>
    cases b.highestSack.1 with
    | none => rfl
    | some first =>
      have hnode : (head.shift d).node = head.node := rfl
      have hlost : (head.shift d).lost = head.lost := rfl
      have hdup : (b.moved d apps).dupAckThresh = b.dupAckThresh := rfl
      have hlostOut : (b.moved d apps).lostOut = b.lostOut := rfl
      simp only [List.map_cons, hnode, hlost, hdup, hlostOut, updateLostItems_shift]
      by_cases hfirst : head.node = first
      · rw [if_pos hfirst, if_pos hfirst]
        simp only [Option.map_some]
        split <;> rfl
      · rw [if_neg hfirst, if_neg hfirst, Option.map_map, Option.map_map]
        congr 1
        funext r
        obtain ⟨after, sacked, lostOut⟩ := r
        dsimp only [Function.comp]
        split <;> rfl

theorem updateLostCount_frame (hcount : b.updateLostCount = some b') :
    b'.appList = b.appList ∧ SameHighest b b' ∧ b'.firstByteSeq = b.firstByteSeq ∧
      b'.size = b.size := by
  unfold updateLostCount at hcount
  split at hcount
  next head after first hl hfirst =>
    obtain ⟨⟨after', sacked, lostOut⟩, -, heq⟩ := Option.map_eq_some_iff.1 hcount
    change (if _ then _ else _) = _ at heq
    split at heq <;> rw [← heq] <;> exact ⟨rfl, ⟨rfl, rfl⟩, rfl, rfl⟩
  next => cases hcount

/-- `Update` of the two runs. -/
theorem update_moved {list : List (SequenceNumber32 × SequenceNumber32)} (h : StreamInv b)
    (hhighest : HighestInv b) (hw : Window w b)
    (hlist : ∀ block ∈ list, offset w block.1 < 2 ^ 31 ∧ offset w block.2 < 2 ^ 31)
    (happ : List.Forall₂ TcpTxItem.Alike b.appList apps) :
    Option.Rel (fun r r' => r'.1 = r.1 ∧ Shifted d r.2 r'.2) (b.update list)
      ((b.moved d apps).update (list.map (shiftBlock d))) := by
  have hblocks : (b.moved d apps).updateBlocks (list.map (shiftBlock d))
      (b.moved d apps).sentList ⟨b.lostOut, b.sackedOut, 0, b.sackSeen,
        (b.moved d apps).highestSack⟩ = _ :=
    updateBlocks_shift h hw ⟨b.lostOut, b.sackedOut, 0, b.sackSeen, b.highestSack⟩ hlist rfl
      (hhighest.window hw)
  unfold update
  have hlostOut : (b.moved d apps).lostOut = b.lostOut := rfl
  have hsackedOut : (b.moved d apps).sackedOut = b.sackedOut := rfl
  have hseen : (b.moved d apps).sackSeen = b.sackSeen := rfl
  rw [hlostOut, hsackedOut, hseen]
  dsimp only
  rw [hblocks]
  generalize b.updateBlocks list b.sentList
    ⟨b.lostOut, b.sackedOut, 0, b.sackSeen, b.highestSack⟩ = r
  obtain ⟨⟨items, marks⟩, completed⟩ := r
  have hmarks : (b.moved d apps).withMarks (items.map (TcpTxItem.shift d)) (marks.shift d) =
      (b.withMarks items marks).moved d apps := rfl
  have hbytes : (marks.shift d).bytesSacked = marks.bytesSacked := rfl
  dsimp only
  rw [hmarks, hbytes]
  by_cases hcount : completed = true ∧ 0 < marks.bytesSacked
  · rw [if_pos hcount, if_pos hcount, updateLostCount_moved, Option.map_map]
    cases hupdate : (b.withMarks items marks).updateLostCount with
    | none => exact .none
    | some b₁ =>
      refine .some ⟨rfl, apps, ?_, rfl⟩
      rw [(updateLostCount_frame hupdate).1]
      exact happ
  · rw [if_neg hcount, if_neg hcount]
    exact .some ⟨rfl, apps, happ, rfl⟩

/-- After `Update` the highest SACK is in the buffer. -/
theorem HighestInv.update {list : List (SequenceNumber32 × SequenceNumber32)} {r : UInt32}
    (hhighest : HighestInv b) (h : StreamInv b) (hupdate : b.update list = some (r, b')) :
    HighestInv b' := by
  have hsize := h.length_bytes
  rw [TcpTxBuffer.bytes, length_payload, allBytes_append] at hsize
  have hmarks := Highest.updateBlocks h b.size.toNat_lt
    (by rw [SequenceNumber32.offset_self]; omega) list b.sentList
    ⟨b.lostOut, b.sackedOut, 0, b.sackSeen, b.highestSack⟩ rfl hhighest
  unfold TcpTxBuffer.update at hupdate
  dsimp only at hupdate
  split at hupdate
  next =>
    obtain ⟨b₁, hcount, heq⟩ := Option.map_eq_some_iff.1 hupdate
    cases heq
    obtain ⟨-, hsame, hfirst, hsize'⟩ := updateLostCount_frame hcount
    unfold HighestInv
    rw [hsame.1, hsame.2, hfirst, hsize']
    exact hmarks
  next =>
    cases hupdate
    exact hmarks

end Updates

/-! ## Losses -/

/-- An item holds the byte at `seq`. -/
def Holds (t : TcpTxItem) (seq : SequenceNumber32) : Prop :=
  t.startSeq ≤ seq ∧ seq < t.startSeq + t.size

instance Holds.decidable (t : TcpTxItem) (seq : SequenceNumber32) : Decidable (Holds t seq) :=
  inferInstanceAs (Decidable (_ ∧ _))

/-- A SACK has been seen, or no item at `seq` is lost, or `seq` is on the same side of the
number 0 in both runs. -/
def LostAlike (d : UInt32) (b : TcpTxBuffer) (seq : SequenceNumber32) : Prop :=
  b.highestSack.1 = none → (∃ t ∈ b.sentList, Holds t seq ∧ t.lost = true) →
    ((⟨0⟩ : SequenceNumber32) ≤ seq ↔ (⟨0⟩ : SequenceNumber32) ≤ seq + d)

instance LostAlike.decidable (d : UInt32) (b : TcpTxBuffer) (seq : SequenceNumber32) :
    Decidable (LostAlike d b seq) :=
  inferInstanceAs (Decidable (_ → _ → _))

theorem isLost_search_shift (hseq : offset w seq < 2 ^ 31) :
    ∀ {l : List TcpTxItem}, (∀ t ∈ l, offset w t.startSeq + t.packet.length < 2 ^ 31) →
      isLost.search (seq + d) (l.map (TcpTxItem.shift d)) = isLost.search seq l
  | [], _ => rfl
  | t :: l, hl => by
    have ht := hl t (List.mem_cons_self ..)
    have hsize := t.toNat_size_le
    have hholds : (t.shift d).startSeq ≤ seq + d ∧
        seq + d < (t.shift d).startSeq + (t.shift d).size ↔
        t.startSeq ≤ seq ∧ seq < t.startSeq + t.size := by
      refine and_congr ?_ ?_
      · exact SequenceNumber32.add_le_add_iff (w := w) (by omega) hseq
      · change seq + d < t.startSeq + d + t.size ↔ _
        rw [SequenceNumber32.add_right_comm]
        exact SequenceNumber32.add_lt_add_iff (w := w) hseq (by rw [offset_add] <;> omega)
    have hlost : (t.shift d).lost = t.lost := rfl
    have hsacked : (t.shift d).sacked = t.sacked := rfl
    have ih := isLost_search_shift hseq fun x hx => hl x (List.mem_cons_of_mem t hx)
    rw [List.map_cons]
    unfold isLost.search
    rw [hlost, hsacked, ih]
    by_cases h : t.startSeq ≤ seq ∧ seq < t.startSeq + t.size
    · rw [if_pos h, if_pos (hholds.2 h)]
    · rw [if_neg h, if_neg fun h' => h (hholds.1 h')]

theorem exists_of_isLost_search :
    ∀ {l : List TcpTxItem}, isLost.search seq l = true →
      ∃ t ∈ l, Holds t seq ∧ t.lost = true
  | [], h => by cases h
  | t :: l, h => by
    have hrest : isLost.search seq l = true →
        ∃ x ∈ t :: l, Holds x seq ∧ x.lost = true := by
      intro h
      obtain ⟨x, hx, hlost⟩ := exists_of_isLost_search h
      exact ⟨x, List.mem_cons_of_mem t hx, hlost⟩
    unfold isLost.search at h
    split at h
    next hholds =>
      split at h
      next hlost => exact ⟨t, List.mem_cons_self .., hholds, hlost⟩
      next =>
        split at h
        · cases h
        · exact hrest h
    next => exact hrest h

theorem sent_window (h : StreamInv b) (hw : Window w b) :
    ∀ t ∈ b.sentList, offset w t.startSeq + t.packet.length < 2 ^ 31 := by
  intro t ht
  have hsent := hw.sent h
  exact lt_of_le_of_lt (offset_mem h.placed (by omega) ht) hsent

/-- `IsLost` of the two runs. -/
theorem isLost_moved (h : StreamInv b) (hhighest : HighestInv b) (hw : Window w b)
    (hseq : offset w seq < 2 ^ 31) (hlost : LostAlike d b seq) :
    (b.moved d apps).isLost (seq + d) = b.isLost seq := by
  have hsearch := isLost_search_shift (d := d) hseq (sent_window h hw)
  have hwindow := hhighest.window hw
  unfold isLost
  change (if (shiftHighest d b.highestSack).2 ≤ seq + d then false
    else isLost.search (seq + d) (b.sentList.map (TcpTxItem.shift d))) = _
  rw [hsearch]
  unfold LostAlike at hlost
  generalize b.highestSack = highest at hwindow hlost
  obtain ⟨node, highestSeq⟩ := highest
  cases node with
  | none =>
    obtain ⟨rfl, -⟩ := hwindow
    cases hfound : isLost.search seq b.sentList with
    | false => rw [ite_self, ite_self]
    | true =>
      have hiff := hlost rfl (exists_of_isLost_search hfound)
      change (if (⟨0⟩ : SequenceNumber32) ≤ seq + d then false else true) =
        if (⟨0⟩ : SequenceNumber32) ≤ seq then false else true
      by_cases hzero : (⟨0⟩ : SequenceNumber32) ≤ seq
      · rw [if_pos hzero, if_pos (hiff.1 hzero)]
      · rw [if_neg hzero, if_neg fun h' => hzero (hiff.2 h')]
  | some node =>
    have hle : (shiftHighest d (some node, highestSeq)).2 ≤ seq + d ↔ highestSeq ≤ seq :=
      SequenceNumber32.add_le_add_iff (w := w) hwindow.2 hseq
    by_cases habove : highestSeq ≤ seq
    · rw [if_pos habove, if_pos (hle.2 habove)]
    · rw [if_neg habove, if_neg fun h' => habove (hle.1 h')]

/-! ## The next segment -/

/-- If all data has been sent, the first candidate of `NextSeg` is lost, or does not begin at
the number 0 in either run. -/
def Rule3Alike (d : UInt32) (b : TcpTxBuffer) (isRecovery : Bool) : Prop :=
  isRecovery = true → b.sizeFromSequence b.sentEnd = 0 →
    ∀ t ∈ b.sentList.find? b.isCandidate,
      t.lost = true ∨ t.startSeq.value ≠ 0 ∧ (t.startSeq + d).value ≠ 0

instance Rule3Alike.decidable (d : UInt32) (b : TcpTxBuffer) (isRecovery : Bool) :
    Decidable (Rule3Alike d b isRecovery) :=
  inferInstanceAs (Decidable (_ → _ → _))

theorem isCandidate_moved (d : UInt32) (apps : List TcpTxItem)
    (h : Highest w (2 ^ 31) b.sackSeen b.highestSack)
    (ht : offset w t.startSeq < 2 ^ 31) :
    (b.moved d apps).isCandidate (t.shift d) = b.isCandidate t := by
  have hlt : b.sackSeen = true →
      ((t.shift d).startSeq < (b.moved d apps).highestSack.2 ↔ t.startSeq < b.highestSack.2) := by
    intro hseen
    change t.startSeq + d < (shiftHighest d b.highestSack).2 ↔ _
    generalize b.highestSack = highest at h
    obtain ⟨node, seq⟩ := highest
    cases node with
    | none => exact absurd (hseen.symm.trans h.2) (by decide)
    | some node => exact SequenceNumber32.add_lt_add_iff (w := w) ht h.2
  have hretrans : (t.shift d).retrans = t.retrans := rfl
  have hsacked : (t.shift d).sacked = t.sacked := rfl
  have hseen : (b.moved d apps).sackSeen = b.sackSeen := rfl
  unfold isCandidate
  rw [hretrans, hsacked, hseen]
  cases hs : b.sackSeen with
  | false => rfl
  | true => rw [decide_eq_decide.2 (hlt hs)]

/-- What the loops of `NextSeg` find in the two runs. -/
inductive CandidateRel (d : UInt32) (sentAll : Prop) : Candidate → Candidate → Prop
  | lost (seq : SequenceNumber32) : CandidateRel d sentAll (.lost seq) (.lost (seq + d))
  | rule3 (seq : SequenceNumber32) :
    CandidateRel d sentAll (.rule3 true seq) (.rule3 true (seq + d))
  | none (seq seq' : SequenceNumber32) :
    CandidateRel d sentAll (.rule3 false seq) (.rule3 false seq')
  /-- The number is not looked at. -/
  | unsent (h : ¬ sentAll) (valid valid' : Bool) (seq seq' : SequenceNumber32) :
    CandidateRel d sentAll (.rule3 valid seq) (.rule3 valid' seq')

/-- What the loops of `NextSeg` have found, before the rest of the list. -/
inductive Saved (d : UInt32) (isCandidate : TcpTxItem → Bool) (isRecovery : Bool)
    (l : List TcpTxItem) : Bool → SequenceNumber32 → Bool → SequenceNumber32 → Prop
  /-- The number of a candidate. -/
  | seq (seq : SequenceNumber32) (h : seq.value ≠ 0) (h' : (seq + d).value ≠ 0) :
    Saved d isCandidate isRecovery l true seq true (seq + d)
  /-- Nothing, and the first candidate will do. -/
  | none (h : isRecovery = true → ∀ t ∈ l.find? isCandidate,
      t.lost = true ∨ t.startSeq.value ≠ 0 ∧ (t.startSeq + d).value ≠ 0) :
    Saved d isCandidate isRecovery l false ⟨0⟩ false ⟨0⟩

/-- The loop of `NextSeg` in the two runs. -/
theorem nextCandidate_moved (h : Highest w (2 ^ 31) b.sackSeen b.highestSack) {sentAll : Prop}
    {isRecovery : Bool} :
    ∀ {l : List TcpTxItem} {start : SequenceNumber32} {valid valid' : Bool}
      {seq seq' : SequenceNumber32}, Placed start l →
      offset w start + allBytes l < 2 ^ 31 →
      (sentAll → Saved d b.isCandidate isRecovery l valid seq valid' seq') →
      CandidateRel d sentAll (b.nextCandidate isRecovery start l valid seq)
        ((b.moved d apps).nextCandidate isRecovery (start + d) (l.map (TcpTxItem.shift d)) valid'
          seq')
  | [], _, valid, valid', seq, seq', _, _, hsaved => by
    by_cases hall : sentAll
    · cases hsaved hall with
      | seq seq h h' => exact .rule3 seq
      | none h => exact .none _ _
    · exact .unsent hall valid valid' seq seq'
  | t :: l, start, valid, valid', seq, seq', hplaced, hwindow, hsaved => by
    rw [allBytes_cons] at hwindow
    obtain ⟨rfl, hplaced⟩ := hplaced
    have hsize := t.toNat_size_le
    have hend : offset w (t.startSeq + t.size) = offset w t.startSeq + t.size.toNat :=
      offset_add (by omega)
    have hstart : t.startSeq + d + (t.shift d).size = t.startSeq + t.size + d :=
      SequenceNumber32.add_right_comm ..
    have hcandidate := isCandidate_moved d apps h (t := t) (by omega)
    have hlost : (t.shift d).lost = t.lost := rfl
    rw [List.map_cons]
    unfold nextCandidate
    rw [hcandidate, hlost, hstart]
    have hrest := @nextCandidate_moved h sentAll isRecovery l (t.startSeq + t.size)
    by_cases hc : b.isCandidate t = true
    · rw [if_pos hc, if_pos hc]
      by_cases hl : t.lost = true
      · rw [if_pos hl, if_pos hl]
        exact .lost _
      rw [if_neg hl, if_neg hl]
      by_cases hall : sentAll
      · cases hsaved hall with
        | seq seq hne hne' =>
          rw [if_neg fun h' => hne h'.1, if_neg fun h' => hne' h'.1]
          exact hrest hplaced (by omega) fun _ => .seq seq hne hne'
        | none hfirst =>
          by_cases hrecovery : isRecovery = true
          · have ht := (hfirst hrecovery t (List.find?_cons_of_pos hc)).resolve_left hl
            rw [if_pos ⟨rfl, hrecovery⟩, if_pos ⟨rfl, hrecovery⟩]
            exact hrest hplaced (by omega) fun _ => .seq t.startSeq ht.1 ht.2
          · rw [if_neg fun h' => hrecovery h'.2, if_neg fun h' => hrecovery h'.2]
            exact hrest hplaced (by omega) fun _ => .none fun h' => absurd h' hrecovery
      -- what is saved is not looked at
      · split <;> split <;> exact hrest hplaced (by omega) fun h' => absurd h' hall
    · rw [if_neg hc, if_neg hc]
      refine hrest hplaced (by omega) fun hall => ?_
      cases hsaved hall with
      | seq seq hne hne' => exact .seq seq hne hne'
      | none hfirst =>
        refine .none fun hrecovery => ?_
        rw [List.find?_cons_of_neg hc] at hfirst
        exact hfirst hrecovery

/-- `NextSeg` of the two runs. -/
theorem nextSeg_moved {isRecovery : Bool} {rWnd : UInt32} (h : StreamInv b)
    (hhighest : HighestInv b) (hw : Window w b) (hrule3 : Rule3Alike d b isRecovery) :
    (b.moved d apps).nextSeg isRecovery rWnd = (b.nextSeg isRecovery rWnd).map (shiftBlock d) := by
  have hsent := hw.sent h
  have hsentEnd := hw.offset_sentEnd h
  have hsize : (b.moved d apps).sizeFromSequence (b.sentEnd + d) = b.sizeFromSequence b.sentEnd :=
    sizeFromSequence_moved hw (by omega)
  have hcandidate : CandidateRel d (b.sizeFromSequence b.sentEnd = 0)
      (b.nextCandidate isRecovery b.firstByteSeq b.sentList false ⟨0⟩)
      ((b.moved d apps).nextCandidate isRecovery (b.firstByteSeq + d)
        (b.sentList.map (TcpTxItem.shift d)) false ⟨0⟩) :=
    nextCandidate_moved (hhighest.window hw) h.placed hsent
      fun hall => .none fun hrecovery => hrule3 hrecovery hall
  have hfirst : (b.moved d apps).firstByteSeq = b.firstByteSeq + d := rfl
  have hlist : (b.moved d apps).sentList = b.sentList.map (TcpTxItem.shift d) := rfl
  have hsegment : (b.moved d apps).segmentSize = b.segmentSize := rfl
  have hsentSize : (b.moved d apps).sentSize = b.sentSize := rfl
  unfold nextSeg
  rw [hfirst, hlist, sentEnd_moved, hsize, hsegment, hsentSize]
  generalize b.nextCandidate isRecovery b.firstByteSeq b.sentList false ⟨0⟩ = c at hcandidate
  generalize (b.moved d apps).nextCandidate isRecovery (b.firstByteSeq + d)
    (b.sentList.map (TcpTxItem.shift d)) false ⟨0⟩ = c' at hcandidate
  have hrange : ∀ (seq : SequenceNumber32) (n : UInt32),
      (seq + d, seq + d + n) = shiftBlock d (seq, seq + n) := by
    intro seq n
    rw [shiftBlock, SequenceNumber32.add_right_comm]
  cases hcandidate with
  | lost seq => simp only [Option.map_some, hrange]
  | rule3 seq =>
    simp only [hrange]
    split
    · split <;> rfl
    · rfl
  | none seq seq' =>
    simp only [hrange]
    split
    · split <;> rfl
    · rfl
  | unsent hunsent valid valid' seq seq' =>
    have hpos : 0 < b.sizeFromSequence b.sentEnd := UInt32.pos_iff_ne_zero.2 hunsent
    simp only [hrange, if_pos hpos]
    split <;> rfl

/-! ## The other calls -/

theorem alike_refl (l : List TcpTxItem) : List.Forall₂ TcpTxItem.Alike l l :=
  List.forall₂_same.2 fun t _ => ⟨t.startSeq, rfl⟩

theorem alike_shift (l : List TcpTxItem) :
    List.Forall₂ TcpTxItem.Alike l (l.map (TcpTxItem.shift d)) :=
  List.forall₂_map_right_iff.2 (List.forall₂_same.2 fun t _ => ⟨t.startSeq + d, rfl⟩)

theorem map_shift_map {f : TcpTxItem → TcpTxItem} (hf : ∀ t, f (t.shift d) = (f t).shift d)
    (l : List TcpTxItem) :
    (l.map (TcpTxItem.shift d)).map f = (l.map f).map (TcpTxItem.shift d) := by
  rw [List.map_map, List.map_map]
  exact List.map_congr_left fun t _ => hf t

theorem add_moved {p : Packet} (happ : List.Forall₂ TcpTxItem.Alike b.appList apps) :
    ((b.moved d apps).add p).1 = (b.add p).1 ∧
      Shifted d (b.add p).2 ((b.moved d apps).add p).2 := by
  have havailable : (b.moved d apps).available = b.available := rfl
  unfold add
  rw [havailable]
  split
  · split
    · exact ⟨rfl, apps ++ [{ node := b.nextNode, packet := p }],
        List.rel_append happ (alike_refl _), rfl⟩
    · exact ⟨rfl, shifted_of_moved happ⟩
  · exact ⟨rfl, shifted_of_moved happ⟩

theorem resetRenoSack_moved :
    (b.moved d apps).resetRenoSack = b.resetRenoSack.moved d apps := by
  have hmap := map_shift_map (d := d) (f := fun t => { t with sacked := false })
    (fun _ => rfl) b.sentList
  unfold resetRenoSack moved
  dsimp only
  rw [hmap]
  rfl

theorem countLost_shift :
    ∀ (l : List TcpTxItem) (lostOut : UInt32),
      countLost (l.map (TcpTxItem.shift d)) lostOut = countLost l lostOut
  | [], _ => rfl
  | t :: l, lostOut => by
    rw [List.map_cons]
    unfold countLost
    exact countLost_shift l _

theorem setSentListLost_moved (resetSack : Bool) :
    (b.moved d apps).setSentListLost resetSack = (b.setSentListLost resetSack).moved d apps := by
  cases resetSack with
  | true =>
    have hmap := map_shift_map (d := d)
      (f := fun t => { t with sacked := false, lost := true, retrans := false })
      (fun _ => rfl) b.sentList
    unfold setSentListLost moved
    rw [if_pos rfl, if_pos rfl]
    dsimp only
    rw [hmap]
    rfl
  | false =>
    have hmap := map_shift_map (d := d)
      (f := fun t => { t with lost := t.lost || !t.sacked, retrans := false })
      (fun _ => rfl) b.sentList
    unfold setSentListLost moved
    rw [if_neg Bool.false_ne_true, if_neg Bool.false_ne_true]
    dsimp only
    rw [hmap, countLost_shift]

theorem deleteRetransmittedFlagFromHead_moved :
    (b.moved d apps).deleteRetransmittedFlagFromHead =
      b.deleteRetransmittedFlagFromHead.moved d apps := by
  have hsent : (b.moved d apps).sentSize = b.sentSize := rfl
  have hlist : (b.moved d apps).sentList = b.sentList.map (TcpTxItem.shift d) := rfl
  unfold deleteRetransmittedFlagFromHead
  rw [hsent, hlist]
  split
  · rfl
  · cases hl : b.sentList with
    | nil => rfl
    | cons head after =>
      have hretrans : (head.shift d).retrans = head.retrans := rfl
      simp only [List.map_cons, hretrans]
      split <;> rfl

theorem resetSentList_moved (happ : List.Forall₂ TcpTxItem.Alike b.appList apps) :
    Shifted d b.resetSentList (b.moved d apps).resetSentList := by
  have hmap := map_shift_map (d := d)
    (f := fun t => { t with retrans := false, sacked := false, lost := false })
    (fun _ => rfl) b.sentList
  refine ⟨(b.moved d apps).resetSentList.appList, ?_, rfl⟩
  unfold resetSentList moved
  dsimp only
  rw [hmap]
  exact List.rel_append (alike_shift _) happ

theorem resetLastSegmentSent_moved (happ : List.Forall₂ TcpTxItem.Alike b.appList apps) :
    Shifted d b.resetLastSegmentSent (b.moved d apps).resetLastSegmentSent := by
  have hlist : (b.moved d apps).sentList = b.sentList.map (TcpTxItem.shift d) := rfl
  unfold resetLastSegmentSent
  rw [hlist, List.getLast?_map]
  cases b.sentList.getLast? with
  | none => exact shifted_of_moved happ
  | some item =>
    have hretrans : (item.shift d).retrans = item.retrans := rfl
    refine ⟨item.shift d :: apps, .cons ⟨item.startSeq + d, rfl⟩ happ, ?_⟩
    simp only [Option.map_some, ← List.map_dropLast, hretrans]
    rfl

theorem deleteRetransmittedFlagFromHead_frame :
    b.deleteRetransmittedFlagFromHead.appList = b.appList ∧
      SameHighest b b.deleteRetransmittedFlagFromHead := by
  unfold deleteRetransmittedFlagFromHead
  split
  · exact ⟨rfl, rfl, rfl⟩
  · split
    · exact ⟨rfl, rfl, rfl⟩
    · split <;> exact ⟨rfl, rfl, rfl⟩

theorem resetLastSegmentSent_highest : SameHighest b b.resetLastSegmentSent := by
  unfold resetLastSegmentSent
  split <;> exact ⟨rfl, rfl⟩

theorem HighestInv.of_same (hhighest : HighestInv b) (h : StreamInv b) (hsame : SameBuffer b b')
    (hsack : SameHighest b b') : HighestInv b' := by
  have hsize : b'.size = b.size := by
    rw [← UInt32.toNat_inj, hsame.inv.length_bytes, hsame.bytes, h.length_bytes]
  unfold HighestInv
  rw [hsack.1, hsack.2, hsame.head, hsize]
  exact hhighest

theorem HighestInv.addRenoSack (hhighest : HighestInv b) (h : StreamInv b)
    (hadd : b.addRenoSack = some b') : HighestInv b' := by
  have hsize := h.length_bytes
  have hsame := h.addRenoSack hadd
  have hsize' : b'.size = b.size := by
    rw [← UInt32.toNat_inj, hsame.inv.length_bytes, hsame.bytes, h.length_bytes]
  rw [TcpTxBuffer.bytes, length_payload, allBytes_append] at hsize
  unfold HighestInv
  rw [hsame.head, hsize']
  exact addRenoSack_highest h hhighest (by rw [SequenceNumber32.offset_self]; omega)
    b.size.toNat_lt hadd

/-- A buffer holds a stream of its own bytes. -/
theorem StreamInv.refines (h : StreamInv b) :
    Refines b ⟨b.maxBuffer.toNat, b.firstByteSeq, b.bytes, 0⟩ :=
  ⟨h, rfl, rfl, rfl, Nat.zero_le _⟩

theorem HighestInv.add {p : Packet} (hhighest : HighestInv b) (h : StreamInv b)
    (hp : p.length < 2 ^ 32) : HighestInv (b.add p).2 := by
  have hadd := h.refines.add hp
  have hsize : b.size.toNat ≤ (b.add p).2.size.toNat := by
    rw [hadd.inv.length_bytes, hadd.bytes, h.length_bytes]
    unfold ByteStream.add
    split
    · change _ ≤ (b.bytes ++ p).length
      rw [List.length_append]
      exact Nat.le_add_right ..
    · exact Nat.le_refl _
  have hsack : SameHighest b (b.add p).2 ∧ (b.add p).2.firstByteSeq = b.firstByteSeq := by
    unfold TcpTxBuffer.add
    split
    · split <;> exact ⟨⟨rfl, rfl⟩, rfl⟩
    · exact ⟨⟨rfl, rfl⟩, rfl⟩
  unfold HighestInv
  rw [hsack.1.1, hsack.1.2, hsack.2]
  exact Highest.mono hhighest hsize

/-! ## Runs -/

/-- The call, with its sequence numbers increased. -/
def Call.shift (d : UInt32) : Call → Call
  | .copyFromSequence now numBytes seq => .copyFromSequence now numBytes (seq + d)
  | .discardUpTo now seq => .discardUpTo now (seq + d)
  | .update list => .update (list.map (shiftBlock d))
  | .isLost seq => .isLost (seq + d)
  | call => call

/-- The result, with its sequence numbers increased. -/
def Result.shift (d : UInt32) : Result → Result
  | .item t => .item (t.map (TcpTxItem.shift d))
  | .segment range => .segment (range.map (shiftBlock d))
  | r => r

/-- The sequence numbers that a call is given. -/
def Call.numbers : Call → List SequenceNumber32
  | .copyFromSequence _ _ seq => [seq]
  | .discardUpTo _ seq => [seq]
  | .update list => list.flatMap fun block => [block.1, block.2]
  | .isLost seq => [seq]
  | _ => []

/-- The numbers of the buffer and of the call are in the window that begins at one of them. -/
def InWindow (b : TcpTxBuffer) (call : Call) : Prop :=
  ∃ w ∈ b.firstByteSeq :: call.numbers,
    offset w b.firstByteSeq + b.size.toNat < 2 ^ 31 ∧ ∀ seq ∈ call.numbers, offset w seq < 2 ^ 31

instance InWindow.decidable (b : TcpTxBuffer) (call : Call) : Decidable (InWindow b call) := by
  unfold InWindow
  infer_instance

/-- The answer of the call does not depend on where the window lies. -/
def Steady (d : UInt32) (b : TcpTxBuffer) : Call → Prop
  | .copyFromSequence _ numBytes seq => CutAlike d b numBytes seq
  | .isLost seq => LostAlike d b seq
  | .nextSeg isRecovery _ => Rule3Alike d b isRecovery
  | _ => True

instance Steady.decidable (d : UInt32) (b : TcpTxBuffer) :
    (call : Call) → Decidable (Steady d b call)
  | .copyFromSequence _ numBytes seq => inferInstanceAs (Decidable (CutAlike d b numBytes seq))
  | .isLost seq => inferInstanceAs (Decidable (LostAlike d b seq))
  | .nextSeg isRecovery _ => inferInstanceAs (Decidable (Rule3Alike d b isRecovery))
  | .add .. | .discardUpTo .. | .update _ | .addRenoSack | .resetRenoSack | .markHeadAsLost
  | .setSentListLost _ | .deleteRetransmittedFlagFromHead | .resetSentList
  | .resetLastSegmentSent => inferInstanceAs (Decidable True)

/-- Results and buffers of the two runs. -/
def CallRel (d : UInt32) (r r' : Result × TcpTxBuffer) : Prop :=
  r'.1 = r.1.shift d ∧ Shifted d r.2 r'.2

theorem offset_of_numbers {list : List (SequenceNumber32 × SequenceNumber32)}
    (h : ∀ seq ∈ (Call.update list).numbers, offset w seq < 2 ^ 31) :
    ∀ block ∈ list, offset w block.1 < 2 ^ 31 ∧ offset w block.2 < 2 ^ 31 := by
  intro block hblock
  have hmem : ∀ seq ∈ [block.1, block.2], seq ∈ (Call.update list).numbers :=
    fun seq hseq => List.mem_flatMap.2 ⟨block, hblock, hseq⟩
  exact ⟨h _ (hmem _ (by simp)), h _ (hmem _ (by simp))⟩

/-- One call of the two runs. -/
theorem call_shift {call : Call} (h : StreamInv b) (hhighest : HighestInv b)
    (hwindow : InWindow b call) (hsteady : Steady d b call) (hb : Shifted d b b') :
    Option.Rel (CallRel d) (b.call call) (b'.call (call.shift d)) := by
  obtain ⟨apps, happ, rfl⟩ := hb
  obtain ⟨w, -, hw, hnumbers⟩ := hwindow
  have hw : Window w b := hw
  cases call with
  | add p hp =>
    obtain ⟨hadded, hshifted⟩ := add_moved (d := d) (p := p) happ
    exact .some ⟨congrArg Result.bool hadded, hshifted⟩
  | copyFromSequence now numBytes seq =>
    have hseq := hnumbers seq (List.mem_singleton_self seq)
    refine optionRel_map (copyFromSequence_moved now h hw hseq happ hsteady) ?_
    rintro r r' ⟨hitem, hshifted⟩
    exact ⟨congrArg Result.item hitem, hshifted⟩
  | discardUpTo now seq =>
    have hseq := hnumbers seq (List.mem_singleton_self seq)
    refine optionRel_map (discardUpTo_moved h hhighest hw hseq happ) ?_
    exact fun r r' hshifted => ⟨rfl, hshifted⟩
  | update list =>
    refine optionRel_map (update_moved h hhighest hw (offset_of_numbers hnumbers) happ) ?_
    rintro r r' ⟨hbytes, hshifted⟩
    exact ⟨congrArg Result.bytes hbytes, hshifted⟩
  | addRenoSack =>
    change Option.Rel _ _ ((b.moved d apps).addRenoSack.map fun b => (Result.unit, b))
    rw [addRenoSack_moved, Option.map_map]
    change Option.Rel _ (b.addRenoSack.map fun b => (Result.unit, b)) _
    cases hadd : b.addRenoSack with
    | none => exact .none
    | some b₁ => exact .some ⟨rfl, apps, (addRenoSack_appList hadd) ▸ happ, rfl⟩
  | resetRenoSack => exact .some ⟨rfl, apps, happ, resetRenoSack_moved⟩
  | markHeadAsLost =>
    refine .some ⟨rfl, apps, ?_, markHeadAsLost_moved⟩
    rw [markHeadAsLost_appList]
    exact happ
  | setSentListLost resetSack =>
    refine .some ⟨rfl, apps, ?_, setSentListLost_moved resetSack⟩
    cases resetSack <;> exact happ
  | deleteRetransmittedFlagFromHead =>
    refine .some ⟨rfl, apps, ?_, deleteRetransmittedFlagFromHead_moved⟩
    rw [deleteRetransmittedFlagFromHead_frame.1]
    exact happ
  | resetSentList => exact .some ⟨rfl, resetSentList_moved happ⟩
  | resetLastSegmentSent => exact .some ⟨rfl, resetLastSegmentSent_moved happ⟩
  | isLost seq =>
    have hseq := hnumbers seq (List.mem_singleton_self seq)
    exact .some ⟨congrArg Result.bool (isLost_moved h hhighest hw hseq hsteady),
      shifted_of_moved happ⟩
  | nextSeg isRecovery rWnd =>
    exact .some ⟨congrArg Result.segment (nextSeg_moved h hhighest hw hsteady),
      shifted_of_moved happ⟩

/-- What a call leaves of the highest SACK is in the buffer. -/
theorem HighestInv.call {call : Call} {r : Result} (hhighest : HighestInv b) (h : StreamInv b)
    (hwindow : InWindow b call) (hcall : b.call call = some (r, b')) : HighestInv b' := by
  obtain ⟨w, -, hw, hnumbers⟩ := hwindow
  have hw : Window w b := hw
  cases call with
  | add p hp =>
    cases hcall
    exact hhighest.add h hp
  | copyFromSequence now numBytes seq =>
    obtain ⟨⟨item, b''⟩, hcopy, heq⟩ := Option.map_eq_some_iff.1 hcall
    cases heq
    exact hhighest.of_same h (h.copyFromSequence hcopy) (copyFromSequence_highest hcopy)
  | discardUpTo now seq =>
    obtain ⟨b'', hdiscard, heq⟩ := Option.map_eq_some_iff.1 hcall
    cases heq
    exact hhighest.discardUpTo h hw (hnumbers seq (List.mem_singleton_self seq)) hdiscard
  | update list =>
    obtain ⟨⟨n, b''⟩, hupdate, heq⟩ := Option.map_eq_some_iff.1 hcall
    cases heq
    exact hhighest.update h hupdate
  | addRenoSack =>
    obtain ⟨b'', hadd, heq⟩ := Option.map_eq_some_iff.1 hcall
    cases heq
    exact hhighest.addRenoSack h hadd
  | resetRenoSack =>
    cases hcall
    exact highest_reset _ _
  | markHeadAsLost =>
    cases hcall
    exact hhighest.of_same h h.markHeadAsLost markHeadAsLost_highest
  | setSentListLost resetSack =>
    cases hcall
    cases resetSack with
    | true => exact highest_reset _ _
    | false => exact hhighest
  | deleteRetransmittedFlagFromHead =>
    cases hcall
    exact hhighest.of_same h h.deleteRetransmittedFlagFromHead
      deleteRetransmittedFlagFromHead_frame.2
  | resetSentList =>
    cases hcall
    exact highest_reset _ _
  | resetLastSegmentSent =>
    cases hcall
    exact hhighest.of_same h h.resetLastSegmentSent resetLastSegmentSent_highest
  | isLost seq =>
    cases hcall
    exact hhighest
  | nextSeg isRecovery rWnd =>
    cases hcall
    exact hhighest

/-- What the calls of a run return, none once the program has stopped. -/
def results : Option TcpTxBuffer → List Call → List (Option Result)
  | _, [] => []
  | b, call :: calls =>
    (b.bind fun b => (b.call call).map Prod.fst) :: results (step b call) calls

/-- One step of the two runs. -/
theorem step_shift {b b' : Option TcpTxBuffer} {call : Call}
    (h : ∀ x ∈ b, StreamInv x ∧ HighestInv x) (hb : Option.Rel (Shifted d) b b')
    (hcall : ∀ x ∈ b, InWindow x call ∧ Steady d x call) :
    (b'.bind fun b => (b.call (call.shift d)).map Prod.fst) =
        (b.bind fun b => (b.call call).map Prod.fst).map (Result.shift d) ∧
      Option.Rel (Shifted d) (step b call) (step b' (call.shift d)) ∧
      ∀ x ∈ step b call, StreamInv x ∧ HighestInv x := by
  cases hb with
  | none => exact ⟨rfl, .none, by rintro x ⟨⟩⟩
  | @some x x' hx =>
    obtain ⟨hstream, hhighest⟩ := h x rfl
    obtain ⟨hwindow, hsteady⟩ := hcall x rfl
    have hrel := call_shift hstream hhighest hwindow hsteady hx
    change ((x'.call (call.shift d)).map Prod.fst) = ((x.call call).map Prod.fst).map _ ∧
      Option.Rel _ ((x.call call).map Prod.snd) ((x'.call (call.shift d)).map Prod.snd) ∧
      ∀ y ∈ (x.call call).map Prod.snd, _
    generalize hr' : x'.call (call.shift d) = r' at hrel
    cases hr : x.call call with
    | none =>
      rw [hr] at hrel
      cases hrel
      exact ⟨rfl, .none, by rintro y ⟨⟩⟩
    | some r =>
      rw [hr] at hrel
      obtain ⟨result, y⟩ := r
      cases hrel with
      | some hpair =>
        refine ⟨congrArg some hpair.1, .some hpair.2, ?_⟩
        rintro y' ⟨⟩
        exact ⟨(hstream.refines.call hr).inv, hhighest.call hstream hwindow hr⟩

theorem run_shift_of (calls : List Call) :
    ∀ {b b' : Option TcpTxBuffer}, (∀ x ∈ b, StreamInv x ∧ HighestInv x) →
      Option.Rel (Shifted d) b b' →
      Each step (fun b call => ∀ x ∈ b, InWindow x call ∧ Steady d x call) b calls →
      results b' (calls.map (Call.shift d)) = (results b calls).map (Option.map (Result.shift d)) ∧
        Option.Rel (Shifted d) (run step b calls) (run step b' (calls.map (Call.shift d))) := by
  induction calls with
  | nil => exact fun _ hb _ => ⟨rfl, hb⟩
  | cons call calls ih =>
    intro b b' h hb heach
    obtain ⟨hresult, hnext, hinv⟩ := step_shift h hb heach.1
    obtain ⟨hresults, hrun⟩ := ih hinv hnext heach.2
    rw [List.map_cons, results, results, List.map_cons, hresult, hresults]
    exact ⟨rfl, hrun⟩

/-- The initial sequence number does not matter. -/
theorem run_shift (seq : SequenceNumber32) (d maxBuffer dupAckThresh segmentSize : UInt32)
    (calls : List Call)
    (h : Each step (fun b call => ∀ x ∈ b, InWindow x call ∧ Steady d x call)
      (some (init seq maxBuffer dupAckThresh segmentSize)) calls) :
    results (some (init (seq + d) maxBuffer dupAckThresh segmentSize)) (calls.map (Call.shift d)) =
        (results (some (init seq maxBuffer dupAckThresh segmentSize)) calls).map
          (Option.map (Result.shift d)) ∧
      Option.Rel (Shifted d)
        (run step (some (init seq maxBuffer dupAckThresh segmentSize)) calls)
        (run step (some (init (seq + d) maxBuffer dupAckThresh segmentSize))
          (calls.map (Call.shift d))) := by
  refine run_shift_of calls ?_ (.some ⟨[], .nil, rfl⟩) h
  rintro x ⟨⟩
  exact ⟨(Refines.at_init seq maxBuffer dupAckThresh segmentSize).inv, highest_reset _ _⟩

/-- Data is sent, sacked, lost, sent again and acknowledged, and the second run passes the
wrap. -/
theorem run_shift_across_wrap :
    results (some (init ⟨0xfffffffd⟩ 6 3 2))
        [.add [1, 2, 3, 4, 5] (by decide), .copyFromSequence 0 2 ⟨0xfffffffd⟩,
          .copyFromSequence 1 2 ⟨0xffffffff⟩, .update [(⟨0xffffffff⟩, ⟨1⟩)], .markHeadAsLost,
          .isLost ⟨0xfffffffe⟩, .nextSeg true 9, .copyFromSequence 2 2 ⟨0xfffffffd⟩,
          .discardUpTo 4 ⟨0⟩] =
      (results (some (init ⟨0⟩ 6 3 2))
        [.add [1, 2, 3, 4, 5] (by decide), .copyFromSequence 0 2 ⟨0⟩, .copyFromSequence 1 2 ⟨2⟩,
          .update [(⟨2⟩, ⟨4⟩)], .markHeadAsLost, .isLost ⟨1⟩, .nextSeg true 9,
          .copyFromSequence 2 2 ⟨0⟩, .discardUpTo 4 ⟨3⟩]).map
            (Option.map (Result.shift 0xfffffffd)) :=
  (run_shift ⟨0⟩ 0xfffffffd 6 3 2
    [.add [1, 2, 3, 4, 5] (by decide), .copyFromSequence 0 2 ⟨0⟩, .copyFromSequence 1 2 ⟨2⟩,
      .update [(⟨2⟩, ⟨4⟩)], .markHeadAsLost, .isLost ⟨1⟩, .nextSeg true 9,
      .copyFromSequence 2 2 ⟨0⟩, .discardUpTo 4 ⟨3⟩] (by decide +kernel)).1

/-- Of four bytes one has been sent. A copy of all four finds nothing if they lie across the
wrap, and the sent byte if they do not. -/
theorem not_run_shift :
    ¬ ∀ (seq : SequenceNumber32) (d maxBuffer dupAckThresh segmentSize : UInt32)
        (calls : List Call),
      Each step (fun b call => ∀ x ∈ b, InWindow x call)
        (some (init seq maxBuffer dupAckThresh segmentSize)) calls →
      results (some (init (seq + d) maxBuffer dupAckThresh segmentSize))
          (calls.map (Call.shift d)) =
        (results (some (init seq maxBuffer dupAckThresh segmentSize)) calls).map
          (Option.map (Result.shift d)) := by
  intro h
  have hsame := h ⟨0⟩ 0xfffffffe 6 3 2 [.add [1, 2, 3, 4] (by decide), .copyFromSequence 0 1 ⟨0⟩,
    .copyFromSequence 1 4 ⟨0⟩] (by decide +kernel)
  exact absurd hsame (by decide +kernel)

/-- An item that is lost, with no SACK seen : `IsLost` says so if its number is before 0. -/
example : (results (some (init ⟨0⟩ 6 3 2)) [.add [1, 2] (by decide), .copyFromSequence 0 2 ⟨0⟩,
      .markHeadAsLost, .isLost ⟨0⟩]).getLast? = some (some (.bool false)) ∧
    (results (some (init ⟨0x80000001⟩ 6 3 2)) [.add [1, 2] (by decide),
      .copyFromSequence 0 2 ⟨0x80000001⟩, .markHeadAsLost, .isLost ⟨0x80000001⟩]).getLast? =
      some (some (.bool true)) := by
  decide +kernel

/-- Two items that are not lost : the third rule of `NextSeg` gives the first one, unless it
begins at 0. -/
example : (results (some (init ⟨0⟩ 6 3 2)) [.add [1, 2] (by decide), .copyFromSequence 0 1 ⟨0⟩,
      .copyFromSequence 0 1 ⟨1⟩, .nextSeg true 9]).getLast? =
      some (some (.segment (some (⟨1⟩, ⟨3⟩)))) ∧
    (results (some (init ⟨5⟩ 6 3 2)) [.add [1, 2] (by decide), .copyFromSequence 0 1 ⟨5⟩,
      .copyFromSequence 0 1 ⟨6⟩, .nextSeg true 9]).getLast? =
      some (some (.segment (some (⟨5⟩, ⟨7⟩)))) := by
  decide +kernel

end TcpTxBuffer

end Ns3Pedca
