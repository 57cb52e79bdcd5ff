import Ns3Pedca.Internet.TcpSender

/-!
# The counter of duplicate acknowledgments

The counter is 0 whenever the congestion state is CA_OPEN between two events, and the assertions
of `DupAck`, `EnterCwr` and `EnterRecovery` hold, in every run with a threshold other than 0 in
which no acknowledgment goes wrong at the end of CA_CWR (`dupAckCount_of_run`). Duplicate
acknowledgments are counted in CA_CWR, and `ReceivedAck` leaves it for CA_OPEN with the count as
it is : if the same acknowledgment reports data not SACKed before, `DupAck` finds another count
than 1.

`Inv` is the invariant between two events, and `Mid` is what is left of it while an
acknowledgment is processed.
-/

namespace Ns3Pedca

open Runs TcpTxBuffer

namespace TcpSocketBase

variable {γ : Type} {ops : CongestionOps γ} {s s' : TcpSocketBase γ} {now : ℕ}
  {ack old : SequenceNumber32} {d n : UInt32} {seg : AckSegment}

/-- What holds between two events. -/
structure Inv (s : TcpSocketBase γ) : Prop where
  stream : StreamInv s.txBuffer
  threshold : s.retxThresh ≠ 0
  checked : s.checked = true
  caOpen : s.congState = .caOpen → s.dupAckCount = 0 ∧ s.recoverActive = false
  caDisorder : s.congState = .caDisorder →
    s.dupAckCount < s.retxThresh ∧ s.recoverActive = false
  caCwr : s.congState = .caCwr → ¬ s.recover < s.txBuffer.firstByteSeq
  caLoss : s.congState = .caLoss → s.dupAckCount = 0

theorem Inv.of_same (h : s.Inv) (hsame : Same s s') : s'.Inv where
  stream := (hsame.buffer h.stream).inv
  threshold := hsame.retxThresh ▸ h.threshold
  checked := hsame.checked ▸ h.checked
  caOpen hstate := by
    rw [hsame.dupAckCount, hsame.recoverActive]
    exact h.caOpen (hsame.congState ▸ hstate)
  caDisorder hstate := by
    rw [hsame.dupAckCount, hsame.retxThresh, hsame.recoverActive]
    exact h.caDisorder (hsame.congState ▸ hstate)
  caCwr hstate := by
    rw [hsame.recover, hsame.head h.stream]
    exact h.caCwr (hsame.congState ▸ hstate)
  caLoss hstate := by
    rw [hsame.dupAckCount]
    exact h.caLoss (hsame.congState ▸ hstate)

/-- What holds while `ack` is processed, which has moved the head from `old`. If it is beyond the
recovery point, CA_CWR has just been left. -/
structure Mid (ack old : SequenceNumber32) (s : TcpSocketBase γ) : Prop where
  stream : StreamInv s.txBuffer
  threshold : s.retxThresh ≠ 0
  checked : s.checked = true
  head : s.txBuffer.firstByteSeq = ack
  caOpen : s.congState = .caOpen →
    (s.dupAckCount = 0 ∧ s.recoverActive = false) ∨ (old < ack ∧ s.recover ≤ ack)
  caDisorder : s.congState = .caDisorder → s.dupAckCount < s.retxThresh ∧
    (s.recoverActive = false ∨ (old < ack ∧ s.recover ≤ ack))
  caCwr : s.congState = .caCwr → ¬ s.recover < ack
  caLoss : s.congState = .caLoss → s.dupAckCount = 0

theorem Mid.of_same (h : Mid ack old s) (hsame : Same s s') : Mid ack old s' where
  stream := (hsame.buffer h.stream).inv
  threshold := hsame.retxThresh ▸ h.threshold
  checked := hsame.checked ▸ h.checked
  head := (hsame.head h.stream).trans h.head
  caOpen hstate := by
    rw [hsame.dupAckCount, hsame.recoverActive, hsame.recover]
    exact h.caOpen (hsame.congState ▸ hstate)
  caDisorder hstate := by
    rw [hsame.dupAckCount, hsame.retxThresh, hsame.recoverActive, hsame.recover]
    exact h.caDisorder (hsame.congState ▸ hstate)
  caCwr hstate := by
    rw [hsame.recover]
    exact h.caCwr (hsame.congState ▸ hstate)
  caLoss hstate := by
    rw [hsame.dupAckCount]
    exact h.caLoss (hsame.congState ▸ hstate)

/-- An acknowledgment that does not move the head leaves the invariant. -/
theorem Mid.inv_of_eq (h : Mid ack old s) (heq : ¬ old < ack) : s.Inv where
  stream := h.stream
  threshold := h.threshold
  checked := h.checked
  caOpen hstate := (h.caOpen hstate).resolve_right fun hmoved => heq hmoved.1
  caDisorder hstate :=
    ⟨(h.caDisorder hstate).1, (h.caDisorder hstate).2.resolve_right fun hmoved => heq hmoved.1⟩
  caCwr hstate := h.head ▸ h.caCwr hstate
  caLoss := h.caLoss

/-! ## Duplicate acknowledgments -/

/-- CA_RECOVERY has begun. -/
structure Recovering (s s' : TcpSocketBase γ) : Prop where
  congState : s'.congState = .caRecovery
  retxThresh : s'.retxThresh = s.retxThresh
  checked : s'.checked = (s.checked && decide (s.congState ≠ .caRecovery))
  buffer : SameBuffer s.txBuffer s'.txBuffer

theorem enterRecovery_recovering (hs : StreamInv s.txBuffer)
    (henter : s.enterRecovery ops now d = some s') : Recovering s s' := by
  obtain ⟨b, hhead, hsend⟩ := Option.bind_eq_some_iff.1 henter
  obtain ⟨⟨sz, s''⟩, hpacket, rfl⟩ := Option.map_eq_some_iff.1 hsend
  have hb := sameBuffer_loseHead hhead hs
  let begun := ((s.check (s.congState ≠ .caRecovery)).withBuffer b).beginRecovery ops
  have hbegun : StreamInv begun.txBuffer := hb.inv
  have hcontrolled : Same begun _ :=
    (Same.of_withWindows begun.cWnd begun.cWndInfl (ops.getSsThresh begun
      (if begun.sackEnabled then b.bytesInFlight else b.bytesInFlight + begun.segmentSize))).trans
      (@Same.of_invokeIf _ ops _ (ops.hasCongControl = false) _
        (.enterRecovery begun.dupAckCount begun.unAckDataCount d))
  obtain ⟨hsent, hpos⟩ := sendDataPacket_same (hcontrolled.buffer hbegun).inv hpacket
  have hall := hcontrolled.trans hsent
  refine ⟨hall.congState, hall.retxThresh, ?_, hb.trans (hall.buffer hbegun)⟩
  change (s''.checked && decide (0 < sz)) = _
  rw [decide_eq_true hpos, Bool.and_true]
  exact hall.checked

theorem Recovering.of_same {s₁ : TcpSocketBase γ} (h : Recovering s₁ s') (hsame : Same s s₁)
    (hs : StreamInv s.txBuffer) : Recovering s s' where
  congState := h.congState
  retxThresh := h.retxThresh.trans hsame.retxThresh
  checked := by rw [h.checked, hsame.checked, hsame.congState]
  buffer := (hsame.buffer hs).trans h.buffer

theorem Same.of_addRenoSack (hadd : s.addRenoSack = some s') : Same s s' := by
  obtain ⟨b, hreno, rfl⟩ := Option.map_eq_some_iff.1 hadd
  exact .of_withBuffer fun h => h.addRenoSack hreno

/-- What `DupAck` does in the state CA_DISORDER. -/
theorem dupAckDisorder_cases (hs : StreamInv s.txBuffer)
    (hcheck : s.dupAckCount ≤ s.retxThresh ∨ s.recoverActive = true)
    (hdup : s.dupAckDisorder ops now d = some s') :
    Recovering s s' ∨ Same s s' ∧
      ¬ (s.dupAckCount = s.retxThresh ∧
        (s.recover ≤ s.highRxAckMark ∨ s.recoverActive = false)) := by
  have hchecked : Same s (s.check (s.dupAckCount ≤ s.retxThresh ∨ s.recoverActive = true)) := by
    refine ⟨rfl, rfl, rfl, rfl, rfl, ?_, rfl, rfl, rfl, .refl⟩
    change (s.checked && decide _) = s.checked
    rw [decide_eq_true hcheck, Bool.and_true]
  have hstream := (hchecked.buffer hs).inv
  unfold dupAckDisorder at hdup
  dsimp only at hdup
  split_ifs at hdup with hfack hlost hreno
  · exact .inl ((enterRecovery_recovering hstream hdup).of_same hchecked hs)
  · exact .inl ((enterRecovery_recovering hstream hdup).of_same hchecked hs)
  · exact .inr ⟨hchecked.trans (.of_addRenoSack hdup), fun hcount => hfack (.inr hcount)⟩
  · cases hdup
    exact .inr ⟨hchecked, fun hcount => hfack (.inr hcount)⟩

/-- What `DupAck` needs of the counter and the recovery point. -/
structure Ready (s : TcpSocketBase γ) : Prop where
  caOpen : s.congState = .caOpen → s.dupAckCount = 0 ∧
    (1 < s.retxThresh ∨ s.recover ≤ s.highRxAckMark ∨ s.recoverActive = false)
  caDisorder : s.congState = .caDisorder → s.recoverActive = false

theorem Ready.of_same (h : s.Ready) (hsame : Same s s') : s'.Ready where
  caOpen hstate := by
    rw [hsame.dupAckCount, hsame.retxThresh, hsame.recover, hsame.highRxAckMark,
      hsame.recoverActive]
    exact h.caOpen (hsame.congState ▸ hstate)
  caDisorder hstate := by
    rw [hsame.recoverActive]
    exact h.caDisorder (hsame.congState ▸ hstate)

theorem Inv.ready (h : s.Inv) : s.Ready :=
  ⟨fun hstate => ⟨(h.caOpen hstate).1, .inr (.inr (h.caOpen hstate).2)⟩,
    fun hstate => (h.caDisorder hstate).2⟩

theorem Mid.of_recovering (hthreshold : s.retxThresh ≠ 0) (hchecked : s.checked = true)
    (hhead : s.txBuffer.firstByteSeq = ack) (hstate : s.congState ≠ .caRecovery)
    (hrec : Recovering s s') : Mid ack old s' ∧ s'.congState ≠ .caOpen := by
  have hne (state : CongState) (hne : state ≠ .caRecovery) (heq : s'.congState = state) : False :=
    hne (heq.symm.trans hrec.congState)
  refine ⟨⟨hrec.buffer.inv, hrec.retxThresh ▸ hthreshold, ?_, hrec.buffer.head.trans hhead,
    fun heq => (hne _ (by decide) heq).elim, fun heq => (hne _ (by decide) heq).elim,
    fun heq => (hne _ (by decide) heq).elim, fun heq => (hne _ (by decide) heq).elim⟩,
    fun heq => hne _ (by decide) heq⟩
  rw [hrec.checked, hchecked, decide_eq_true hstate, Bool.and_true]

/-- `DupAck` in the state CA_DISORDER, with the new count. -/
theorem Mid.of_disorder (hs : StreamInv s.txBuffer) (hthreshold : s.retxThresh ≠ 0)
    (hchecked : s.checked = true) (hhead : s.txBuffer.firstByteSeq = ack)
    (hstate : s.congState = .caDisorder) (hle : s.dupAckCount ≤ s.retxThresh)
    (heq : s.dupAckCount = s.retxThresh → s.recover ≤ s.highRxAckMark ∨ s.recoverActive = false)
    (hactive : s.recoverActive = false ∨ (old < ack ∧ s.recover ≤ ack))
    (hdup : s.dupAckDisorder ops now d = some s') : Mid ack old s' ∧ s'.congState ≠ .caOpen := by
  rcases dupAckDisorder_cases hs (.inl hle) hdup with hrec | ⟨hsame, hnot⟩
  · exact Mid.of_recovering hthreshold hchecked hhead (by rw [hstate]; decide) hrec
  · have hlt : s.dupAckCount < s.retxThresh :=
      UInt32.lt_of_le_of_ne hle fun hcount => hnot ⟨hcount, heq hcount⟩
    have hstate' (state : CongState) (hne : state ≠ .caDisorder) : s.congState ≠ state := by
      rw [hstate]
      exact hne.symm
    have hmid : Mid ack old s :=
      ⟨hs, hthreshold, hchecked, hhead, fun hopen => absurd hopen (hstate' _ (by decide)),
        fun _ => ⟨hlt, hactive⟩, fun hcwr => absurd hcwr (hstate' _ (by decide)),
        fun hloss => absurd hloss (hstate' _ (by decide))⟩
    exact ⟨hmid.of_same hsame, hsame.congState ▸ hstate' _ (by decide)⟩

/-- `DupAck` keeps the invariant, and is not in CA_OPEN afterwards. -/
theorem Mid.dupAck (h : Mid ack old s) (hready : s.Ready)
    (hdup : s.dupAck ops now d = some s') : Mid ack old s' ∧ s'.congState ≠ .caOpen := by
  unfold TcpSocketBase.dupAck at hdup
  split at hdup
  next hstate =>
    cases hdup
    exact ⟨h, by rw [hstate]; decide⟩
  next hstate =>
    obtain ⟨s₁, hreno, rfl⟩ := Option.map_eq_some_iff.1 hdup
    have hsame : Same s s₁ := by
      split at hreno
      · cases hreno
        exact .refl s
      · exact .of_addRenoSack hreno
    have hall : Same s _ := hsame.trans
      (@Same.of_invokeIf _ ops _ (ops.hasCongControl = false) _ (.doRecovery d true))
    exact ⟨h.of_same hall, by rw [hall.congState, hstate]; decide⟩
  next hstate =>
    cases hdup
    have hne (state : CongState) (hne : state ≠ .caCwr) : s.congState ≠ state := by
      rw [hstate]
      exact hne.symm
    exact ⟨⟨h.stream, h.threshold, h.checked, h.head, fun hopen => absurd hopen (hne _ (by decide)),
      fun hdisorder => absurd hdisorder (hne _ (by decide)), h.caCwr,
      fun hloss => absurd hloss (hne _ (by decide))⟩, hne _ (by decide)⟩
  next hstate =>
    obtain ⟨hlt, hactive⟩ := h.caDisorder hstate
    have hle : s.dupAckCount + 1 ≤ s.retxThresh := by grind
    exact Mid.of_disorder (s := s.withDupAckCount (s.dupAckCount + 1)) h.stream h.threshold
      h.checked h.head hstate hle (fun _ => .inr (hready.caDisorder hstate)) hactive hdup
  next hstate =>
    obtain ⟨hzero, hpoint⟩ := hready.caOpen hstate
    have hone : s.dupAckCount + 1 = 1 := by rw [hzero]; rfl
    have hle : s.dupAckCount + 1 ≤ s.retxThresh := by
      have hthreshold := h.threshold
      rw [hone]
      grind
    have hactive : s.recoverActive = false ∨ (old < ack ∧ s.recover ≤ ack) :=
      (h.caOpen hstate).imp And.right id
    let counted := s.withDupAckCount (s.dupAckCount + 1)
    let x := ((counted.check (counted.dupAckCount = 1)).invoke ops
      (.congestionStateSet .caDisorder)).withCongState .caDisorder
    refine Mid.of_disorder (s := x) h.stream h.threshold ?_ h.head rfl hle ?_ hactive hdup
    · change (s.checked && decide (s.dupAckCount + 1 = 1)) = true
      rw [h.checked, decide_eq_true hone, Bool.and_true]
    · intro hcount
      refine hpoint.resolve_left fun hlt => ?_
      change s.dupAckCount + 1 = s.retxThresh at hcount
      rw [← hcount, hone] at hlt
      exact absurd hlt (by decide)

/-! ## Acknowledgments of new data -/

theorem Inv.of_caOpen (hs : StreamInv s.txBuffer) (hthreshold : s.retxThresh ≠ 0)
    (hchecked : s.checked = true) (hstate : s.congState = .caOpen) (hcount : s.dupAckCount = 0)
    (hactive : s.recoverActive = false) : s.Inv := by
  have hne (state : CongState) (hne : state ≠ .caOpen) : s.congState ≠ state := by
    rw [hstate]
    exact hne.symm
  exact ⟨hs, hthreshold, hchecked, fun _ => ⟨hcount, hactive⟩,
    fun hdisorder => absurd hdisorder (hne _ (by decide)),
    fun hcwr => absurd hcwr (hne _ (by decide)), fun _ => hcount⟩

theorem recoverActive_clearRecover (h : s.recoverActive = false ∨ s.recover ≤ ack) :
    (s.clearRecover ack).recoverActive = false := by
  change (if s.recover ≤ ack then false else s.recoverActive) = false
  split
  · rfl
  next hnot => exact h.resolve_right hnot

theorem Same.of_exitFastRecovery : Same s (s.exitFastRecovery ops ack) :=
  ((Same.of_newAck true).trans (.of_withWindows ..)).trans (.of_invoke _)

theorem Same.of_growWindow : Same s (s.growWindow ops ack n) :=
  ((Same.of_invoke _).trans (.of_withWindows ..)).trans (.of_newAck true)

/-- After the congestion state is left and the recovery point cleared, the invariant holds. -/
theorem Mid.leaveCongState (h : Mid ack old s) (hstate : s.congState ≠ .caCwr)
    (hpoint : s.congState = .caRecovery ∨ s.congState = .caLoss → s.recover ≤ ack)
    {isDupack : Bool} (hdup : isDupack = true → s.congState ≠ .caOpen)
    (hcount : isDupack = false → s.dupAckCount = 0) (segsAcked oldDupAckCount : UInt32) :
    ((s.leaveCongState ops ack old isDupack segsAcked oldDupAckCount).2.clearRecover ack).Inv := by
  unfold TcpSocketBase.leaveCongState
  split
  next hopen =>
    have hzero : s.dupAckCount = 0 := by
      cases isDupack with
      | true => exact absurd hopen (hdup rfl)
      | false => exact hcount rfl
    refine Inv.of_caOpen h.stream h.threshold h.checked hopen hzero ?_
    exact recoverActive_clearRecover ((h.caOpen hopen).imp And.right And.right)
  next hdisorder =>
    obtain ⟨hlt, hactive⟩ := h.caDisorder hdisorder
    let told := s.invokeIf ops (oldDupAckCount ≤ segsAcked)
      (.pktsAcked (segsAcked - oldDupAckCount))
    have hsame : Same s told := .of_invokeIf _ _
    have htold := h.of_same hsame
    have hcleared : s.recoverActive = false ∨ s.recover ≤ ack := hactive.imp id And.right
    rw [← hsame.recoverActive, ← hsame.recover] at hcleared
    cases isDupack with
    | true =>
      have hne (state : CongState) (hne : state ≠ .caDisorder) : told.congState ≠ state := by
        rw [hsame.congState, hdisorder]
        exact hne.symm
      refine ⟨htold.stream, htold.threshold, htold.checked,
        fun hopen => absurd hopen (hne _ (by decide)), fun _ => ⟨?_, ?_⟩,
        fun hcwr => absurd hcwr (hne _ (by decide)), fun hloss => absurd hloss (hne _ (by decide))⟩
      · exact (htold.caDisorder (hsame.congState.trans hdisorder)).1
      · exact recoverActive_clearRecover hcleared
    | false =>
      refine Inv.of_caOpen htold.stream htold.threshold htold.checked rfl ?_ ?_
      · exact hsame.dupAckCount.trans (hcount rfl)
      · exact recoverActive_clearRecover hcleared
  next hrecovery =>
    exact Inv.of_caOpen h.stream h.threshold h.checked rfl rfl
      (recoverActive_clearRecover (.inr (hpoint (.inl hrecovery))))
  next hloss =>
    exact Inv.of_caOpen h.stream h.threshold h.checked rfl (h.caLoss hloss)
      (recoverActive_clearRecover (.inr (hpoint (.inr hloss))))
  next hcwr => exact absurd hcwr hstate

/-- An acknowledgment of new data that is not a partial one restores the invariant. -/
theorem Mid.completeAck (h : Mid ack old s) (hstate : s.congState ≠ .caCwr)
    (hpoint : s.congState = .caRecovery ∨ s.congState = .caLoss → s.recover ≤ ack)
    {isDupack : Bool} (hdup : isDupack = true → s.congState ≠ .caOpen)
    (hcount : isDupack = false → s.dupAckCount = 0) (segsAcked oldDupAckCount : UInt32) :
    (s.completeAck ops ack old isDupack segsAcked oldDupAckCount).Inv := by
  have hleft := @Mid.leaveCongState γ ops s ack old h hstate hpoint isDupack hdup hcount segsAcked
    oldDupAckCount
  unfold TcpSocketBase.completeAck
  dsimp only
  generalize (s.leaveCongState ops ack old isDupack segsAcked oldDupAckCount).2.clearRecover ack =
    left at hleft ⊢
  split_ifs
  · exact (hleft.of_same .of_exitFastRecovery).of_same .of_growWindow
  · exact hleft.of_same .of_exitFastRecovery
  · exact hleft.of_same .of_growWindow
  · exact hleft

/-- CA_RECOVERY, CA_LOSS and CA_CWR are not left. -/
theorem Mid.inv_of_state (h : Mid ack old s) (hopen : s.congState ≠ .caOpen)
    (hdisorder : s.congState ≠ .caDisorder) : s.Inv where
  stream := h.stream
  threshold := h.threshold
  checked := h.checked
  caOpen hstate := absurd hstate hopen
  caDisorder hstate := absurd hstate hdisorder
  caCwr hstate := h.head ▸ h.caCwr hstate
  caLoss := h.caLoss

/-- The counter is cleared by an acknowledgment that is no duplicate. -/
theorem Mid.countAcked (h : Mid ack old s) (isDupack : Bool) :
    Mid ack old (s.countAcked d isDupack).2.2 := by
  cases isDupack with
  | true =>
    exact ⟨h.stream, h.threshold, h.checked, h.head, h.caOpen, h.caDisorder, h.caCwr, h.caLoss⟩
  | false =>
    refine ⟨h.stream, h.threshold, h.checked, h.head, fun hopen => ?_, fun hdisorder => ⟨?_, ?_⟩,
      h.caCwr, fun _ => rfl⟩
    · exact (h.caOpen hopen).imp (fun hcount => ⟨rfl, hcount.2⟩) id
    · have hthreshold := h.threshold
      change (0 : UInt32) < s.retxThresh
      grind
    · exact (h.caDisorder hdisorder).2

/-- The congestion state machine restores the invariant. -/
theorem Mid.processNewData (h : Mid ack old s) {isDupack : Bool}
    (hdup : isDupack = true → s.congState ≠ .caOpen)
    (hcount : isDupack = false → s.dupAckCount = 0) {segsAcked bytesAcked oldDupAckCount : UInt32}
    (hnew : s.processNewData ops now ack old isDupack d segsAcked bytesAcked oldDupAckCount =
      some s') : s'.Inv := by
  unfold TcpSocketBase.processNewData at hnew
  split_ifs at hnew with hpart hloss hcwr
  · refine (h.inv_of_state ?_ ?_).of_same (partialAck_same h.stream hnew) <;>
      rw [hpart.2] <;> decide
  · cases hnew
    refine (h.inv_of_state ?_ ?_).of_same
      (((Same.of_invoke _).trans (.of_invoke _)).trans (.of_newAck true)) <;>
      rw [hloss.2] <;> decide
  · cases hnew
    refine (h.inv_of_state ?_ ?_).of_same
      (((Same.of_invoke _).trans (.of_invokeIf _ _)).trans (.of_newAck true)) <;>
      rw [hcwr] <;> decide
  · cases hnew
    refine h.completeAck hcwr ?_ hdup hcount _ _
    rintro (hrec | hlost)
    · exact SequenceNumber32.not_lt.1 fun hlt => hpart ⟨hlt, hrec⟩
    · exact SequenceNumber32.not_lt.1 fun hlt => hloss ⟨hlt, hlost⟩

/-- An acknowledgment of new data restores the invariant. -/
theorem Mid.advance (h : Mid ack old s) {isDupack : Bool}
    (hdup : isDupack = true → s.congState ≠ .caOpen) {oldDupAckCount : UInt32}
    (hadvance : s.advance ops now ack old isDupack d oldDupAckCount = some s') : s'.Inv := by
  refine (h.countAcked isDupack).processNewData hdup (fun hno => ?_) hadvance
  rw [hno]
  rfl

/-- The branches after the duplicate acknowledgment end with the invariant. -/
theorem Mid.processNumber (h : Mid ack old s) (hle : ¬ ack < old) {isDupack : Bool}
    (hdup : isDupack = true → s.congState ≠ .caOpen) {oldDupAckCount : UInt32}
    (hnumber : s.processNumber ops now ack old isDupack d oldDupAckCount = some s') : s'.Inv := by
  unfold TcpSocketBase.processNumber at hnumber
  have hsame (heq : ack = old) : ¬ old < ack := fun hlt => SequenceNumber32.ne_of_lt hlt heq
  split_ifs at hnumber with hmark hfin hold hnew
  · cases hnumber
    exact h.inv_of_eq (hsame hmark.1)
  · cases hnumber
    exact (h.inv_of_eq (hsame hfin.1)).of_same (.of_withNext ack)
  · cases hnumber
    exact (h.inv_of_eq (hsame hold)).of_same (.of_invoke _)
  · exact h.advance hdup hnumber
  · exact absurd (SequenceNumber32.lt_of_le_of_ne (SequenceNumber32.not_lt.1 hle) (Ne.symm hold))
      hnew

/-! ## The end of CA_CWR -/

/-- CA_CWR begins. -/
theorem Mid.enterCwr (h : Mid ack old s) (hstate : s.congState ≠ .caCwr)
    (hmark : ¬ s.highTxMark < ack) :
    Mid ack old (s.enterCwr ops d) ∧ (s.enterCwr ops d).congState = .caCwr := by
  let begun := ((s.withWindows s.cWnd (ops.getSsThresh s s.txBuffer.bytesInFlight)
    (ops.getSsThresh s s.txBuffer.bytesInFlight)).check (s.congState ≠ .caCwr)).beginCwr
  have hsame : Same begun (s.enterCwr ops d) := .of_invokeIf _ _
  have hchecked : begun.checked = true := by
    change (s.checked && decide (s.congState ≠ .caCwr)) = true
    rw [h.checked, decide_eq_true hstate, Bool.and_true]
  have hbegun : Mid ack old begun :=
    ⟨h.stream, h.threshold, hchecked, h.head, by rintro ⟨⟩, by rintro ⟨⟩, fun _ => hmark,
      by rintro ⟨⟩⟩
  exact ⟨hbegun.of_same hsame, hsame.congState⟩

/-- The acknowledgment carries a new echo of congestion. -/
def Echoes (s : TcpSocketBase γ) (seg : AckSegment) : Prop :=
  s.ecnState ≠ .disabled ∧ seg.ece = true ∧ s.ecnEchoSeq < seg.ackNumber

instance (s : TcpSocketBase γ) (seg : AckSegment) : Decidable (s.Echoes seg) :=
  instDecidableAnd

/-- The acknowledgment ends CA_CWR, and no new one begins. -/
def EndsCwr (s : TcpSocketBase γ) (seg : AckSegment) : Prop :=
  s.congState = .caCwr ∧ s.recover < seg.ackNumber ∧ ¬ s.Echoes seg

instance (s : TcpSocketBase γ) (seg : AckSegment) : Decidable (s.EndsCwr seg) :=
  instDecidableAnd

/-- The counter and the recovery point are such that `DupAck` may be called at the end of
CA_CWR. -/
def MayCount (s : TcpSocketBase γ) : Prop :=
  s.dupAckCount = 0 ∧
    (1 < s.retxThresh ∨ s.recover ≤ s.highRxAckMark ∨ s.recoverActive = false)

instance (s : TcpSocketBase γ) : Decidable s.MayCount :=
  instDecidableAnd

theorem processEce_cases (h : Mid ack old s) (hmark : ¬ s.highTxMark < ack) (ece : Bool) :
    (Mid ack old (s.processEce ops ack old ece d) ∧
      (s.processEce ops ack old ece d).congState = .caCwr) ∨
    Same s (s.processEce ops ack old ece d) ∧
      (old < ack → s.congState ≠ .caCwr →
        ¬ (s.ecnState ≠ .disabled ∧ ece = true ∧ s.ecnEchoSeq < ack)) := by
  have hnote : Same s (s.noteEcho ack) := ⟨rfl, rfl, rfl, rfl, rfl, rfl, rfl, rfl, rfl, .refl⟩
  unfold processEce
  split_ifs with hnew hecho hstate hidle
  · exact .inl ((h.of_same hnote).enterCwr hstate hmark)
  · exact .inr ⟨hnote, fun _ hstate' => absurd hstate' hstate⟩
  · exact .inr ⟨.refl s, fun _ _ hechoes => hecho hechoes.2.2⟩
  · exact .inr ⟨⟨rfl, rfl, rfl, rfl, rfl, rfl, rfl, rfl, rfl, .refl⟩,
      fun hlt _ hechoes => hnew ⟨hlt, hechoes.1, hechoes.2.1⟩⟩
  · exact .inr ⟨.refl s, fun hlt _ hechoes => hnew ⟨hlt, hechoes.1, hechoes.2.1⟩⟩

/-- What the end of CA_CWR leaves as it is. -/
theorem leaveCwr_fields : (s.leaveCwr ops ack).highTxMark = s.highTxMark ∧
    (s.leaveCwr ops ack).ecnState = s.ecnState ∧
    (s.leaveCwr ops ack).ecnEchoSeq = s.ecnEchoSeq := by
  unfold leaveCwr
  dsimp only
  split_ifs <;> exact ⟨rfl, rfl, rfl⟩

/-- CA_CWR ends. -/
theorem leaveCwr_left (hstate : s.congState = .caCwr) (hlt : s.recover < ack) :
    Same (s.withCongState .caOpen) (s.leaveCwr ops ack) := by
  unfold leaveCwr
  rw [if_pos ⟨hstate, hlt⟩]
  dsimp only
  split
  · exact .refl _
  · exact ((Same.of_withWindows ..).trans (.of_invoke _)).trans (.of_invoke _)

/-- The head moves, and CA_CWR may end. -/
theorem Inv.leaveCwr (h : s.Inv) {b : TcpTxBuffer} (hstream : StreamInv b)
    (hhead : b.firstByteSeq = ack) (hold : ¬ ack < s.txBuffer.firstByteSeq) :
    Mid ack s.txBuffer.firstByteSeq (((s.withBuffer b).withDelivered d).leaveCwr ops ack) ∧
      (¬ (s.congState = .caCwr ∧ s.recover < ack) ∨ s.MayCount →
        (((s.withBuffer b).withDelivered d).leaveCwr ops ack).Ready) := by
  by_cases hleft : s.congState = .caCwr ∧ s.recover < ack
  · obtain ⟨hstate, hlt⟩ := hleft
    have hsame := @leaveCwr_left γ ops ((s.withBuffer b).withDelivered d) ack hstate hlt
    have hnew : s.txBuffer.firstByteSeq < ack := by
      refine SequenceNumber32.lt_of_le_of_ne (SequenceNumber32.not_lt.1 hold) fun heq => ?_
      exact h.caCwr hstate (heq ▸ hlt)
    have hopen : Mid ack s.txBuffer.firstByteSeq
        (((s.withBuffer b).withDelivered d).withCongState .caOpen) :=
      ⟨hstream, h.threshold, h.checked, hhead,
        fun _ => .inr ⟨hnew, SequenceNumber32.le_of_lt hlt⟩, by rintro ⟨⟩, by rintro ⟨⟩,
        by rintro ⟨⟩⟩
    refine ⟨hopen.of_same hsame, fun hcount => Ready.of_same ?_ hsame⟩
    have hmay := hcount.resolve_left fun hnot => hnot ⟨hstate, hlt⟩
    exact ⟨fun _ => hmay, by rintro ⟨⟩⟩
  · have heq : ((s.withBuffer b).withDelivered d).leaveCwr ops ack =
        (s.withBuffer b).withDelivered d := if_neg hleft
    rw [heq]
    refine ⟨⟨hstream, h.threshold, h.checked, hhead, fun hstate => .inl (h.caOpen hstate),
      fun hstate => ⟨(h.caDisorder hstate).1, .inl (h.caDisorder hstate).2⟩,
      fun hstate hlt => hleft ⟨hstate, hlt⟩, h.caLoss⟩, fun _ => ?_⟩
    exact ⟨h.ready.caOpen, h.ready.caDisorder⟩

/-- The head moves, CA_CWR ends or begins, and `DupAck` may be called unless CA_CWR has ended with
a count. -/
theorem Inv.acknowledge (h : s.Inv) (hack : ¬ seg.ackNumber < s.txBuffer.firstByteSeq)
    (hmark : ¬ s.highTxMark < seg.ackNumber)
    (hgo : s.acknowledge ops now seg d = some s') :
    Mid seg.ackNumber s.txBuffer.firstByteSeq s' ∧
      ((s.EndsCwr seg → s.MayCount) → s'.Ready) := by
  obtain ⟨b, hdiscard, rfl⟩ := Option.map_eq_some_iff.1 hgo
  obtain ⟨hstream, hhead⟩ := head_of_discardUpTo h.stream hack hdiscard
  obtain ⟨hmid, hready⟩ := @Inv.leaveCwr γ ops s seg.ackNumber d h b hstream hhead hack
  let discarded := (s.withBuffer b).withDelivered d
  obtain ⟨hhigh, hecn, hecho⟩ := @leaveCwr_fields γ ops discarded seg.ackNumber
  have hmark' : ¬ (discarded.leaveCwr ops seg.ackNumber).highTxMark < seg.ackNumber := by
    rw [hhigh]
    exact hmark
  rcases @processEce_cases γ ops _ _ _ d hmid hmark' seg.ece with ⟨hcwr, hstate⟩ | ⟨hsame, hnone⟩
  · refine ⟨hcwr, fun _ => ⟨fun hopen => ?_, fun hdisorder => ?_⟩⟩
    · rw [hstate] at hopen
      cases hopen
    · rw [hstate] at hdisorder
      cases hdisorder
  · refine ⟨hmid.of_same hsame, fun hclean => (hready ?_).of_same hsame⟩
    by_cases hleft : s.congState = .caCwr ∧ s.recover < seg.ackNumber
    · refine .inr (hclean ⟨hleft.1, hleft.2, fun hechoes => ?_⟩)
      have hopen : (discarded.leaveCwr ops seg.ackNumber).congState = .caOpen :=
        (@leaveCwr_left γ ops discarded seg.ackNumber hleft.1 hleft.2).congState
      rw [hecn, hecho] at hnone
      refine hnone ?_ (by rw [hopen]; decide) hechoes
      refine SequenceNumber32.lt_of_le_of_ne (SequenceNumber32.not_lt.1 hack) fun heq => ?_
      exact h.caCwr hleft.1 (heq ▸ hleft.2)
    · exact .inl hleft

theorem sackEnabled_enterCwr : (s.enterCwr ops d).sackEnabled = s.sackEnabled := by
  unfold TcpSocketBase.enterCwr
  dsimp only
  rw [(Same.of_invokeIf _ _).sackEnabled]
  rfl

theorem sackEnabled_leaveCwr : (s.leaveCwr ops ack).sackEnabled = s.sackEnabled := by
  unfold TcpSocketBase.leaveCwr
  dsimp only
  split_ifs <;> rfl

theorem sackEnabled_acknowledge (hgo : s.acknowledge ops now seg d = some s') :
    s'.sackEnabled = s.sackEnabled := by
  obtain ⟨b, -, rfl⟩ := Option.map_eq_some_iff.1 hgo
  refine Eq.trans ?_ (@sackEnabled_leaveCwr γ ops ((s.withBuffer b).withDelivered d) seg.ackNumber)
  unfold processEce
  split_ifs
  · exact sackEnabled_enterCwr
  · rfl
  · rfl
  · rfl
  · rfl

/-! ## A segment -/

/-- `ProcessAck` restores the invariant, if `DupAck` may be called for a duplicate. -/
theorem Mid.processAck (h : Mid ack old s) (hle : ¬ ack < old) {updated received : Bool}
    (hready : s.isDupack ack old updated received = true → s.Ready)
    (hack : s.processAck ops now ack updated d old received = some s') : s'.Inv := by
  unfold TcpSocketBase.processAck at hack
  dsimp only at hack
  have hsame : Same s { s with lastAckedSeq := ack } :=
    ⟨rfl, rfl, rfl, rfl, rfl, rfl, rfl, rfl, rfl, .refl⟩
  have hmid := h.of_same hsame
  obtain ⟨s₁, hdup, hnumber⟩ := Option.bind_eq_some_iff.1 hack
  cases hisDup : s.isDupack ack old updated received with
  | true =>
    rw [hisDup] at hdup hnumber
    obtain ⟨hdone, hopen⟩ := hmid.dupAck ((hready hisDup).of_same hsame) hdup
    exact hdone.processNumber hle (fun _ => hopen) hnumber
  | false =>
    rw [hisDup] at hdup hnumber
    cases hdup
    exact hmid.processNumber hle (fun hno => absurd hno (by decide)) hnumber

/-- An acknowledgment keeps the invariant, if it does not end CA_CWR with a count while it reports
new data. -/
theorem Inv.receivedAck (h : s.Inv) (hmark : ¬ s.highTxMark < seg.ackNumber)
    (hclean : s.EndsCwr seg → s.sackEnabled = true →
      (∃ reported ∈ sackedBy seg.sacks 0 s.txBuffer, 0 < reported) → s.MayCount)
    (hgo : s.receivedAck ops now seg d = some s') : s'.Inv := by
  obtain ⟨⟨reported, s₁⟩, hread, hgo⟩ := Option.bind_eq_some_iff.1 hgo
  obtain ⟨hsacked, fack, b, rfl⟩ := readOptions_eq hread
  have hinv := h.of_same (readOptions_same hread)
  dsimp only at hgo hinv
  split_ifs at hgo with hold
  · cases hgo
    exact hinv.of_same .of_receivedData
  · obtain ⟨s₂, hacknowledge, hgo⟩ := Option.bind_eq_some_iff.1 hgo
    obtain ⟨s₃, hprocess, rfl⟩ := Option.map_eq_some_iff.1 hgo
    have hsearched := hinv.of_same (@Same.of_findRetransDataAcked _ _ seg.ackNumber)
    obtain ⟨found, heq⟩ := @findRetransDataAcked_eq _
      { s with sndFack := fack, txBuffer := b } seg.ackNumber
    rw [heq] at hacknowledge hsearched
    obtain ⟨hmid, hready⟩ := hsearched.acknowledge hold hmark hacknowledge
    refine (hmid.processAck hold (fun hdup => hready fun hends => ?_) hprocess).of_same
      .of_finishAck
    unfold TcpSocketBase.isDupack at hdup
    split_ifs at hdup with hsack
    · rw [sackEnabled_acknowledge hacknowledge] at hsack
      exact hclean hends hsack ⟨reported, hsacked, of_decide_eq_true hdup⟩
    · -- A duplicate acknowledgment is at the head, and the recovery point of CA_CWR is not below.
      rw [Bool.and_eq_true, Bool.and_eq_true] at hdup
      have hhead := of_decide_eq_true hdup.1.1
      exact absurd (hhead ▸ hends.2.1) (hinv.caCwr hends.1)

theorem Inv.of_kept (h : s.Inv) (hkept : Kept s s') : s'.Inv where
  stream := hkept.txBuffer ▸ h.stream
  threshold := hkept.retxThresh ▸ h.threshold
  checked := hkept.checked ▸ h.checked
  caOpen hstate := by
    rw [hkept.dupAckCount, hkept.recoverActive]
    exact h.caOpen (hkept.congState ▸ hstate)
  caDisorder hstate := by
    rw [hkept.dupAckCount, hkept.retxThresh, hkept.recoverActive]
    exact h.caDisorder (hkept.congState ▸ hstate)
  caCwr hstate := by
    rw [hkept.recover, hkept.txBuffer]
    exact h.caCwr (hkept.congState ▸ hstate)
  caLoss hstate := by
    rw [hkept.dupAckCount]
    exact h.caLoss (hkept.congState ▸ hstate)

/-- An acknowledgment that ends CA_CWR and reports data not SACKed before finds a count of 0, and
a threshold or a recovery point at which `DupAck` does not stop short of CA_RECOVERY. -/
def CleanAck (s : TcpSocketBase γ) (seg : AckSegment) : Prop :=
  s.Accepts seg → (s.receiveCwr seg).EndsCwr seg → s.sackEnabled = true →
    (∃ reported ∈ sackedBy seg.sacks 0 s.txBuffer, 0 < reported) →
    (s.updateWindowSize seg).MayCount

instance (s : TcpSocketBase γ) (seg : AckSegment) : Decidable (s.CleanAck seg) :=
  instDecidableForall

/-- A segment that arrives is clean. -/
def Clean (s : Option (TcpSocketBase γ)) : Event → Prop
  | .receive _ seg _ => ∀ x ∈ s, x.CleanAck seg
  | _ => True

instance (s : Option (TcpSocketBase γ)) : (event : Event) → Decidable (Clean s event)
  | .receive _ seg _ => inferInstanceAs (Decidable (∀ x ∈ s, x.CleanAck seg))
  | .receiveCodepoint _ | .outOfRange | .send .. | .sendPendingData _ | .reTxTimeout
  | .delAckTimeout | .persistTimeout _ => .isTrue trivial

theorem Inv.doForwardUp (h : s.Inv) (hclean : Clean (some s) (.receive now seg d))
    (hgo : s.doForwardUp ops now seg d = some s') : s'.Inv := by
  rcases doForwardUp_cases hgo with ⟨-, hkept⟩ | ⟨haccepts, s₁, hreceived, rfl⟩
  · exact h.of_kept hkept
  · have hkept := @arrive_kept γ ops s now seg
    refine Inv.of_same ?_ .of_endPersist
    refine (h.of_kept hkept).receivedAck (hkept.highTxMark ▸ haccepts.unsent)
      (fun hends hsack hreported => ?_) hreceived
    rw [hkept.txBuffer] at hreported
    rw [hkept.sackEnabled] at hsack
    obtain ⟨hstate, hlt, hnone⟩ := hends
    rw [hkept.congState] at hstate
    rw [hkept.recover] at hlt
    unfold Echoes at hnone
    rw [ecnState_arrive, hkept.ecnEchoSeq] at hnone
    have hcwr := @Kept.of_receiveCwr γ s seg
    have hends' : (s.receiveCwr seg).EndsCwr seg := by
      refine ⟨hcwr.congState.trans hstate, hcwr.recover ▸ hlt, ?_⟩
      unfold Echoes
      rw [hcwr.ecnEchoSeq]
      exact hnone
    obtain ⟨hcount, hpoint⟩ := hclean s rfl haccepts hends' hsack hreported
    refine ⟨hkept.dupAckCount.trans hcount, ?_⟩
    rw [hkept.retxThresh, hkept.recover, highRxAckMark_arrive, hkept.recoverActive]
    exact hpoint

/-! ## Runs -/

/-- A timeout of the retransmission timer ends in CA_LOSS, with the count 0. -/
theorem Inv.reTxTimeout (h : s.Inv) (hgo : s.reTxTimeout ops = some s') : s'.Inv := by
  unfold TcpSocketBase.reTxTimeout at hgo
  split_ifs at hgo with hempty hretries
  · cases hgo
    exact ⟨h.stream, h.threshold, h.checked, h.caOpen, h.caDisorder, h.caCwr, h.caLoss⟩
  · have hlost : SameBuffer s.txBuffer s.loseSent.txBuffer := by
      unfold loseSent
      dsimp only
      split
      · exact h.stream.setSentListLost _
      · have hreset := h.stream.resetRenoSack
        exact hreset.trans (hreset.inv.setSentListLost _)
    cases hgo
    exact ⟨hlost.inv, h.threshold, h.checked, by rintro ⟨⟩, by rintro ⟨⟩, by rintro ⟨⟩,
      fun _ => rfl⟩

/-- One event keeps the invariant. -/
theorem Inv.handle (h : s.Inv) {event : Event} (hclean : Clean (some s) event)
    (hgo : s.handle ops event = some s') : s'.Inv := by
  cases event with
  | receiveCodepoint ce =>
    cases hgo
    exact h.of_same .of_receiveCodepoint
  | outOfRange =>
    cases hgo
    exact h.of_same .of_sendEmptyPacket
  | receive now seg d => exact h.doForwardUp hclean hgo
  | send p hp =>
    cases hgo
    exact ⟨h.stream.add hp, h.threshold, h.checked, h.caOpen, h.caDisorder,
      fun hstate => (firstByteSeq_add ..).symm ▸ h.caCwr hstate, h.caLoss⟩
  | sendPendingData now => exact h.of_same (sendPendingData_same h.stream hgo)
  | reTxTimeout => exact h.reTxTimeout hgo
  | delAckTimeout =>
    cases hgo
    exact h.of_same .of_delAckTimeout
  | persistTimeout now =>
    unfold TcpSocketBase.handle at hgo
    dsimp only at hgo
    split_ifs at hgo
    · exact h.of_same (persistTimeout_same hgo)
    · cases hgo
      exact h

theorem Inv.of_established (setup : Setup γ) (hthreshold : setup.retxThresh ≠ 0) :
    (established setup).Inv :=
  ⟨(Refines.at_init ..).inv, hthreshold, rfl, fun _ => ⟨rfl, rfl⟩, by rintro ⟨⟩, by rintro ⟨⟩,
    by rintro ⟨⟩⟩

/-- What the counter and the assertions promise between two events. -/
structure Counted (s : TcpSocketBase γ) : Prop where
  dupAckCount : s.congState = .caOpen → s.dupAckCount = 0
  checked : s.checked = true

/-- The counter is 0 in CA_OPEN and no assertion fails, in every state of a run whose segments are
all clean. -/
theorem dupAckCount_of_run (ops : CongestionOps γ) (setup : Setup γ)
    (hthreshold : setup.retxThresh ≠ 0) (events : List Event)
    (hclean : Each (after ops) Clean (some (established setup)) events) :
    Always (after ops) (fun s => ∀ x ∈ s, x.Counted) (some (established setup)) events := by
  have hstep : ∀ (s : Option (TcpSocketBase γ)) (event : Event), (∀ x ∈ s, x.Inv) →
      Clean s event → ∀ x ∈ after ops s event, x.Inv := by
    intro s event hinv hok x hx
    obtain ⟨s', rfl, hgo⟩ := Option.bind_eq_some_iff.1 hx
    exact (hinv s' rfl).handle hok hgo
  refine (hclean.always hstep ?_).mono fun s hinv x hx => ?_
  · rintro x ⟨⟩
    exact Inv.of_established setup hthreshold
  · exact ⟨fun hopen => ((hinv x hx).caOpen hopen).1, (hinv x hx).checked⟩

/-- Three of ten bytes are sent, and an echo of congestion begins CA_CWR. -/
def untilCwr : List Event :=
  [.send [1, 2, 3, 4, 5, 6, 7, 8, 9, 10] length_tenBytes, .sendPendingData 1, .sendPendingData 1,
    .sendPendingData 1, .receive 2 (ackOf 2 none true) 1]

/-- An acknowledgment that ends CA_CWR, with a SACK block. -/
def endCwr : List Event :=
  [.sendPendingData 4, .sendPendingData 4, .sendPendingData 4, .sendPendingData 4,
    .receive 5 (ackOf 6 (some (7, 8)) false) 1]

/-- CA_CWR ends with a count of 0, and the timer expires. -/
theorem dupAckCount_of_clean :
    Always (after halvingOps) (fun s => ∀ x ∈ s, x.Counted) (some (established byteSetup))
      (untilCwr ++ endCwr ++ [.reTxTimeout]) :=
  dupAckCount_of_run halvingOps byteSetup (by decide) (untilCwr ++ endCwr ++ [.reTxTimeout])
    (by decide +kernel)

/-- A duplicate acknowledgment is counted in CA_CWR, and its end reports another block. -/
theorem not_dupAckCount_of_run :
    ¬ ∀ (ops : CongestionOps Unit) (setup : Setup Unit), setup.retxThresh ≠ 0 →
      ∀ events : List Event, Always (after ops) (fun s => ∀ x ∈ s, x.Counted)
        (some (established setup)) events := by
  intro h
  let events : List Event :=
    untilCwr ++ [.receive 3 (ackOf 2 (some (3, 4)) false) 1] ++ endCwr
  have hfacts : (run (after halvingOps) (some (established byteSetup)) events).map
      (fun s => s.checked) = some false := by
    decide +kernel
  obtain ⟨s, hs, hfailed⟩ := Option.map_eq_some_iff.1 hfacts
  have hcounted := (h halvingOps byteSetup (by decide) events).last s hs
  rw [hcounted.checked] at hfailed
  cases hfailed

end TcpSocketBase

end Ns3Pedca
