import Ns3Pedca.Internet.TcpHighTxMark

/-!
# Unacceptable acknowledgments

`ProcessEstablished` ignores a segment whose acknowledgment number is below the head of the
transmit buffer or above the highest number sent, but `DoForwardUp` has estimated the round trip
and updated the window from it before. `ignores_iff` says which of these segments change nothing :
the number does not raise `m_highRxAckMark`, it covers no transmission whose round trip is
measured, the window does not open, and the timeout is the estimated one if an acknowledgment is
sent in return.

`Bounded` holds in every state of a run in which no unacceptable number raises the mark
(`unacceptable_ignored`). The acknowledgment of a zero-window probe is one that does : the probe is
not counted by `m_highTxMark`.
-/

namespace Ns3Pedca

open Runs SequenceNumber32 TcpTxBuffer

namespace TcpSocketBase

variable {γ : Type} {ops : CongestionOps γ} {s s' : TcpSocketBase γ} {now : ℕ}
  {ack : SequenceNumber32} {d : UInt32} {seg : AckSegment}

/-- The segment is dropped for want of a timestamp. -/
def Dropped (s : TcpSocketBase γ) (seg : AckSegment) : Prop :=
  s.timestampEnabled = true ∧ seg.tsEcho = none

instance (s : TcpSocketBase γ) (seg : AckSegment) : Decidable (s.Dropped seg) :=
  instDecidableAnd

/-- The send side is as it was. -/
structure Unchanged (s s' : TcpSocketBase γ) : Prop where
  highRxAckMark : s'.highRxAckMark = s.highRxAckMark
  txBuffer : s'.txBuffer = s.txBuffer
  history : s'.history = s.history
  rtt : s'.rtt = s.rtt
  lastRtt : s'.lastRtt = s.lastRtt
  srtt : s'.srtt = s.srtt
  minRtt : s'.minRtt = s.minRtt
  rto : s'.rto = s.rto
  congState : s'.congState = s.congState
  cWnd : s'.cWnd = s.cWnd

/-- `DoForwardUp` leaves the send side as it was, and does not go on to `SendPendingData`. -/
def Ignores (ops : CongestionOps γ) (now : ℕ) (seg : AckSegment) (d : UInt32)
    (s : TcpSocketBase γ) : Prop :=
  (∃ s', s.doForwardUp ops now seg d = some s' ∧ Unchanged s s') ∧
    (s.Dropped seg ∨ ∀ s₁, (s.arrive ops now seg).processEstablished ops now seg d = some s₁ →
      ¬ (s₁.rWnd ≠ 0 ∧ s₁.persistEvent = true))

/-- The number of an unacceptable segment raises no mark and covers no transmission, the window
does not open for a pending persist timer, and an acknowledgment in return would leave the timeout
as it is. -/
structure Harmless (s : TcpSocketBase γ) (seg : AckSegment) : Prop where
  mark : ¬ s.highRxAckMark < seg.ackNumber
  history : ∀ i ∈ s.history.head?, seg.ackNumber < i.seq + i.count
  window : s.persistEvent = true → (s.updateWindowSize seg).rWnd = 0
  timeout : ¬ seg.ackNumber < s.txBuffer.firstByteSeq → s.rto = s.estimatedRto

instance (s : TcpSocketBase γ) (seg : AckSegment) : Decidable (s.Harmless seg) :=
  decidable_of_iff
    (¬ s.highRxAckMark < seg.ackNumber ∧
      (∀ i ∈ s.history.head?, seg.ackNumber < i.seq + i.count) ∧
      (s.persistEvent = true → (s.updateWindowSize seg).rWnd = 0) ∧
      (¬ seg.ackNumber < s.txBuffer.firstByteSeq → s.rto = s.estimatedRto))
    ⟨fun h => ⟨h.1, h.2.1, h.2.2.1, h.2.2.2⟩, fun h => ⟨h.1, h.2, h.3, h.4⟩⟩

/-! ## The estimate of the round trip -/

/-- Nothing is estimated if the number does not cover the first transmission. -/
theorem estimateRtt_of_uncovered (h : ∀ i ∈ s.history.head?, seg.ackNumber < i.seq + i.count) :
    s.estimateRtt ops now seg = s := by
  unfold estimateRtt
  split
  · rfl
  next earliest rest hhistory =>
    rw [hhistory] at h
    have hlt := h earliest rfl
    have hnone : s.calculateRttSample now seg earliest = 0 :=
      if_neg (SequenceNumber32.not_le.2 hlt)
    have hkept : removeAcked seg.ackNumber earliest (earliest :: rest) =
        (earliest, earliest :: rest) := if_pos hlt
    dsimp only
    rw [hkept, hnone]
    unfold addRttSample
    rw [if_pos rfl, if_pos rfl, ← hhistory]

theorem length_removeAcked (ack : SequenceNumber32) : ∀ (latest : RttHistory)
    (history : List RttHistory), (removeAcked ack latest history).2.length ≤ history.length
  | _, [] => le_rfl
  | latest, i :: rest => by
    unfold removeAcked
    split
    · exact le_rfl
    · exact (length_removeAcked ack i rest).trans (Nat.le_succ _)

theorem history_addRttSample {rtt : ℤ} : (s.addRttSample ops rtt).history = s.history := by
  unfold addRttSample
  split <;> rfl

/-- A transmission that is covered is removed. -/
theorem uncovered_of_history (h : (s.estimateRtt ops now seg).history = s.history) :
    ∀ i ∈ s.history.head?, seg.ackNumber < i.seq + i.count := by
  intro i hi
  by_contra hcovered
  unfold estimateRtt at h
  split at h
  next hempty =>
    rw [hempty] at hi
    cases hi
  next earliest rest hhistory =>
    rw [hhistory] at hi h
    obtain rfl : i = earliest := (Option.some.inj hi).symm
    rw [history_addRttSample] at h
    have hremoved : removeAcked seg.ackNumber i (i :: rest) = removeAcked seg.ackNumber i rest :=
      if_neg hcovered
    dsimp only at h
    rw [hremoved] at h
    have hlength := length_removeAcked seg.ackNumber i rest
    rw [h, List.length_cons] at hlength
    exact Nat.not_succ_le_self _ hlength

/-! ## The common path -/

/-- The common path, when nothing is estimated. -/
def noted (seg : AckSegment) (s : TcpSocketBase γ) : TcpSocketBase γ :=
  ((s.receiveCwr seg).updateWindowSize seg).startPersist

theorem history_receiveCwr : (s.receiveCwr seg).history = s.history := by
  unfold receiveCwr
  split <;> rfl

theorem history_arrive :
    (s.arrive ops now seg).history = ((s.receiveCwr seg).estimateRtt ops now seg).history := by
  unfold arrive startPersist
  split <;> rfl

theorem arrive_of_uncovered (h : ∀ i ∈ s.history.head?, seg.ackNumber < i.seq + i.count) :
    s.arrive ops now seg = s.noted seg := by
  unfold arrive noted
  rw [estimateRtt_of_uncovered]
  rwa [history_receiveCwr]

/-- The common path changes the mark and the window only. -/
theorem noted_unchanged (h : ¬ s.highRxAckMark < seg.ackNumber) : Unchanged s (s.noted seg) := by
  have hmark : (s.updateWindowSize seg).highRxAckMark = s.highRxAckMark := if_neg h
  unfold noted startPersist receiveCwr
  split_ifs <;> exact ⟨hmark, rfl, rfl, rfl, rfl, rfl, rfl, rfl, rfl, rfl⟩

theorem highRxAckMark_noted :
    (s.noted seg).highRxAckMark = (s.updateWindowSize seg).highRxAckMark := by
  unfold noted startPersist receiveCwr
  split_ifs <;> rfl

theorem estimatedRto_noted : (s.noted seg).estimatedRto = s.estimatedRto := by
  unfold noted startPersist receiveCwr
  split_ifs <;> rfl

theorem resumes_startPersist : s.startPersist.rWnd ≠ 0 ∧ s.startPersist.persistEvent = true ↔
    s.persistEvent = true ∧ s.rWnd ≠ 0 := by
  unfold startPersist
  split
  next hzero => exact ⟨fun h => absurd hzero.1 h.1, fun h => absurd hzero.1 h.2⟩
  next => exact and_comm

/-- The persist timer is pending with an open window, if it was pending before. -/
theorem resumes_noted : (s.noted seg).rWnd ≠ 0 ∧ (s.noted seg).persistEvent = true ↔
    s.persistEvent = true ∧ (s.updateWindowSize seg).rWnd ≠ 0 := by
  refine resumes_startPersist.trans ?_
  unfold receiveCwr
  split <;> rfl

/-- What an unacceptable segment leads to, if it is not dropped. -/
def answered (seg : AckSegment) (s : TcpSocketBase γ) (arrived : TcpSocketBase γ) :
    TcpSocketBase γ :=
  if seg.ackNumber < s.txBuffer.firstByteSeq then arrived else arrived.sendEmptyPacket

theorem history_answered (x : TcpSocketBase γ) : (s.answered seg x).history = x.history := by
  unfold answered
  split <;> rfl

theorem highRxAckMark_answered (x : TcpSocketBase γ) :
    (s.answered seg x).highRxAckMark = x.highRxAckMark := by
  unfold answered
  split <;> rfl

theorem resumes_answered (x : TcpSocketBase γ) :
    (s.answered seg x).rWnd ≠ 0 ∧ (s.answered seg x).persistEvent = true ↔
      x.rWnd ≠ 0 ∧ x.persistEvent = true := by
  unfold answered
  split <;> rfl

theorem processEstablished_of_unacceptable
    (hun : seg.ackNumber < s.txBuffer.firstByteSeq ∨ s.highTxMark < seg.ackNumber) :
    (s.arrive ops now seg).processEstablished ops now seg d =
      some (s.answered seg (s.arrive ops now seg)) := by
  have hkept := @arrive_kept γ ops s now seg
  unfold processEstablished answered
  rw [hkept.txBuffer, hkept.highTxMark]
  split_ifs with hold hunsent
  · rfl
  · rfl
  · exact absurd hun (not_or.2 ⟨hold, hunsent⟩)

theorem doForwardUp_of_unacceptable (hdropped : ¬ s.Dropped seg)
    (hun : seg.ackNumber < s.txBuffer.firstByteSeq ∨ s.highTxMark < seg.ackNumber) :
    s.doForwardUp ops now seg d = some (s.answered seg (s.arrive ops now seg)).endPersist := by
  refine (if_neg hdropped).trans ?_
  rw [processEstablished_of_unacceptable hun]
  rfl

theorem endPersist_unchanged : Unchanged s s.endPersist := by
  unfold endPersist
  split <;> exact ⟨rfl, rfl, rfl, rfl, rfl, rfl, rfl, rfl, rfl, rfl⟩

theorem Unchanged.trans {s'' : TcpSocketBase γ} (h : Unchanged s s') (h' : Unchanged s' s'') :
    Unchanged s s'' :=
  ⟨h'.1.trans h.1, h'.2.trans h.2, h'.3.trans h.3, h'.4.trans h.4, h'.5.trans h.5,
    h'.6.trans h.6, h'.7.trans h.7, h'.8.trans h.8, h'.9.trans h.9, h'.10.trans h.10⟩

/-- An unacceptable segment changes nothing if and only if it is dropped or harmless. -/
theorem ignores_iff
    (hun : seg.ackNumber < s.txBuffer.firstByteSeq ∨ s.highTxMark < seg.ackNumber) :
    s.Ignores ops now seg d ↔ s.Dropped seg ∨ s.Harmless seg := by
  by_cases hdropped : s.Dropped seg
  · refine iff_of_true ⟨⟨s.receiveCwr seg, if_pos hdropped, ?_⟩, .inl hdropped⟩ (.inl hdropped)
    unfold receiveCwr
    split <;> exact ⟨rfl, rfl, rfl, rfl, rfl, rfl, rfl, rfl, rfl, rfl⟩
  · unfold Ignores
    rw [doForwardUp_of_unacceptable hdropped hun, processEstablished_of_unacceptable hun]
    constructor
    · rintro ⟨⟨s', heq, hsame⟩, hresume⟩
      cases heq
      have hend := @endPersist_unchanged γ (s.answered seg (s.arrive ops now seg))
      have hhistory := hend.history.symm.trans hsame.history
      rw [history_answered, history_arrive, ← @history_receiveCwr γ s seg] at hhistory
      have huncovered := uncovered_of_history hhistory
      rw [history_receiveCwr] at huncovered
      have hresume := hresume.resolve_left hdropped
      rw [arrive_of_uncovered huncovered] at hsame hend hresume
      refine .inr ⟨fun hlt => ?_, huncovered, fun hpending => ?_, fun hold => ?_⟩
      · have hmark := hend.highRxAckMark.symm.trans hsame.highRxAckMark
        rw [highRxAckMark_answered, highRxAckMark_noted] at hmark
        exact ne_of_lt hlt ((if_pos hlt).symm.trans hmark)
      · by_contra hopen
        exact hresume _ rfl ((resumes_answered _).2 (resumes_noted.2 ⟨hpending, hopen⟩))
      · have hrto := hend.rto.symm.trans hsame.rto
        unfold answered at hrto
        rw [if_neg hold] at hrto
        exact hrto.symm.trans estimatedRto_noted
    · intro h
      have hharmless := h.resolve_left hdropped
      have hnoted := noted_unchanged hharmless.mark
      rw [arrive_of_uncovered hharmless.history]
      refine ⟨⟨_, rfl, Unchanged.trans ?_ endPersist_unchanged⟩, .inr ?_⟩
      · unfold answered
        split
        · exact hnoted
        next hold =>
          have hrto : (s.noted seg).sendEmptyPacket.rto = s.rto :=
            estimatedRto_noted.trans (hharmless.timeout hold).symm
          exact ⟨hnoted.1, hnoted.2, hnoted.3, hnoted.4, hnoted.5, hnoted.6, hnoted.7, hrto,
            hnoted.9, hnoted.10⟩
      · rintro s₁ heq hresumes
        cases heq
        rw [resumes_answered, resumes_noted] at hresumes
        exact hresumes.2 (hharmless.window hresumes.1)

/-! ## Runs -/

/-- The mark lies between the head and the highest number sent. -/
structure Bounded (s : TcpSocketBase γ) : Prop where
  unacknowledged : s.txBuffer.firstByteSeq ≤ s.highRxAckMark
  sent : s.highRxAckMark ≤ s.highTxMark

/-- The mark is the number of a byte in the buffer. -/
def Held (s : TcpSocketBase γ) : Prop :=
  offset s.txBuffer.firstByteSeq s.highRxAckMark < s.txBuffer.size.toNat

/-- The state in which `ProcessAck` calls `DupAck`, if it does. -/
def atDupAck (ops : CongestionOps γ) (now : ℕ) (seg : AckSegment) (d : UInt32)
    (s : TcpSocketBase γ) : Option (TcpSocketBase γ) :=
  if s.Accepts seg then
    (readOptions seg.sacks 0 (s.arrive ops now seg)).bind fun r =>
      ((r.2.findRetransDataAcked seg.ackNumber).acknowledge ops now seg d).bind fun y =>
        if y.isDupack seg.ackNumber r.2.txBuffer.firstByteSeq (decide (0 < r.1))
            (decide (0 < seg.size)) then
          some { y with lastAckedSeq := seg.ackNumber }
        else none
  else none

/-- An unacceptable number does not raise the mark, and an acknowledgment that reports data not
SACKed before does not cover all of the buffer. -/
structure Orderly (s : TcpSocketBase γ) (seg : AckSegment) : Prop where
  mark : ¬ s.Accepts seg → s.Dropped seg ∨ ¬ s.highRxAckMark < seg.ackNumber
  held : s.Accepts seg → (∃ reported ∈ sackedBy seg.sacks 0 s.txBuffer, 0 < reported) →
    seg.ackNumber ≠ s.txBuffer.tailSequence

instance (s : TcpSocketBase γ) (seg : AckSegment) : Decidable (s.Orderly seg) :=
  decidable_of_iff
    ((¬ s.Accepts seg → s.Dropped seg ∨ ¬ s.highRxAckMark < seg.ackNumber) ∧
      (s.Accepts seg → (∃ reported ∈ sackedBy seg.sacks 0 s.txBuffer, 0 < reported) →
        seg.ackNumber ≠ s.txBuffer.tailSequence))
    ⟨fun h => ⟨h.1, h.2⟩, fun h => ⟨h.1, h.2⟩⟩

/-- A segment that arrives is orderly. -/
def OrderlyEvent (s : Option (TcpSocketBase γ)) : Event → Prop
  | .receive _ seg _ => ∀ x ∈ s, x.Orderly seg
  | _ => True

instance (s : Option (TcpSocketBase γ)) : (event : Event) → Decidable (OrderlyEvent s event)
  | .receive _ seg _ => inferInstanceAs (Decidable (∀ x ∈ s, x.Orderly seg))
  | .receiveCodepoint _ | .outOfRange | .send .. | .sendPendingData _ | .reTxTimeout
  | .delAckTimeout | .persistTimeout _ => .isTrue trivial

/-- Where `DupAck` is called, the mark is the number of a byte in the buffer. -/
def Recovers (ops : CongestionOps γ) (s : Option (TcpSocketBase γ)) : Event → Prop
  | .receive now seg d => ∀ x ∈ s, ∀ y ∈ x.atDupAck ops now seg d, y.Held
  | _ => True

/-- The mark is at the head. -/
structure AtHead (s : TcpSocketBase γ) : Prop where
  marked : s.Marked
  head : s.highRxAckMark = s.txBuffer.firstByteSeq

theorem AtHead.bounded (h : s.AtHead) : s.Bounded := by
  have hsize := h.marked.size_lt
  have hmark := h.marked.mark
  refine ⟨h.head ▸ SequenceNumber32.le_refl _, ?_⟩
  rw [h.head, le_iff (w := s.txBuffer.firstByteSeq) (by rw [offset_self]; omega) (by omega),
    offset_self]
  exact Nat.zero_le _

theorem AtHead.of_moved (h : s.AtHead) (hm : Moved 0 s s') : s'.AtHead :=
  ⟨hm.marked, (hm.highRxAckMark.trans h.head).trans hm.head.symm⟩

/-- The common path sets the mark to an acceptable number. -/
theorem AtHead.highRxAckMark_arrive (h : s.AtHead) (haccepts : s.Accepts seg) :
    (s.arrive ops now seg).highRxAckMark = seg.ackNumber := by
  rw [TcpSocketBase.highRxAckMark_arrive]
  change (if s.highRxAckMark < seg.ackNumber then seg.ackNumber else s.highRxAckMark) = _
  rw [h.head]
  split
  · rfl
  next hnot =>
    by_contra hne
    exact hnot (lt_of_le_of_ne (SequenceNumber32.not_lt.1 haccepts.old) hne)

/-- The mark does not move for a segment that is ignored in order. -/
theorem AtHead.ignored (h : s.AtHead) (hord : s.Orderly seg) (hnot : ¬ s.Accepts seg)
    (hgo : s.doForwardUp ops now seg d = some s') : s'.AtHead := by
  rcases doForwardUp_cases hgo with ⟨-, hkept⟩ | ⟨haccepts, -⟩
  · refine ⟨h.marked.of_kept hkept, ?_⟩
    rw [hkept.txBuffer, ← h.head]
    by_cases hdropped : s.Dropped seg
    · unfold doForwardUp at hgo
      rw [if_pos (by exact hdropped)] at hgo
      cases hgo
      exact Same.of_receiveCwr.highRxAckMark
    · have hun : seg.ackNumber < s.txBuffer.firstByteSeq ∨ s.highTxMark < seg.ackNumber := by
        by_contra hacceptable
        rw [not_or] at hacceptable
        exact hnot ⟨hdropped, hacceptable.1, hacceptable.2⟩
      rw [doForwardUp_of_unacceptable hdropped hun] at hgo
      cases hgo
      rw [endPersist_unchanged.highRxAckMark, highRxAckMark_answered,
        TcpSocketBase.highRxAckMark_arrive]
      exact if_neg ((hord.mark hnot).resolve_left hdropped)
  · exact absurd haccepts hnot

/-- An acceptable segment moves the head and the mark to its number. -/
theorem AtHead.accepted (h : s.AtHead) (haccepts : s.Accepts seg)
    (hgo : s.doForwardUp ops now seg d = some s') : s'.AtHead := by
  rcases doForwardUp_cases hgo with ⟨hnot, -⟩ | ⟨-, s₀, hreceived, rfl⟩
  · exact absurd haccepts hnot
  · have hkept := @arrive_kept γ ops s now seg
    obtain ⟨reported, s₁, s₂, s₃, hread, hacked, hprocess, rfl⟩ := receivedAck_acked
      (h.marked.of_kept hkept) (hkept.txBuffer ▸ haccepts.old)
      (hkept.highTxMark ▸ haccepts.unsent) hreceived
    have hmoved := processAck_marks hprocess hacked.marked
    have hfinish : Marks seg.ackNumber.value s₃ (s₃.finishAck ops seg).endPersist :=
      finishAck_marks.trans endPersist_marks
    have hall := (hacked.trans hmoved).trans (hfinish hmoved.marked)
    refine ⟨hall.marked, ?_⟩
    rw [hall.highRxAckMark, (readOptions_same hread).highRxAckMark,
      h.highRxAckMark_arrive haccepts, hall.head]

/-- One event keeps the mark at the head. -/
theorem AtHead.handle (h : s.AtHead) {event : Event} (hord : OrderlyEvent (some s) event)
    (hgo : s.handle ops event = some s') : s'.AtHead := by
  cases event with
  | receive now seg d =>
    by_cases haccepts : s.Accepts seg
    · exact h.accepted haccepts hgo
    · exact h.ignored (hord s rfl) haccepts hgo
  | receiveCodepoint ce =>
    cases hgo
    exact h.of_moved (receiveCodepoint_marks h.marked)
  | outOfRange =>
    cases hgo
    exact h.of_moved (Marks.of_sendEmptyPacket h.marked)
  | send p hp =>
    cases hgo
    exact ⟨h.marked.send hp, h.head.trans (firstByteSeq_add _ _).symm⟩
  | sendPendingData now => exact h.of_moved (sendPendingData_marks hgo h.marked)
  | reTxTimeout => exact h.of_moved (reTxTimeout_marks hgo h.marked)
  | delAckTimeout =>
    cases hgo
    exact h.of_moved (((Marks.of_invoke _).trans .of_sendEmptyPacket) h.marked)
  | persistTimeout now =>
    unfold TcpSocketBase.handle at hgo
    dsimp only at hgo
    split_ifs at hgo
    · exact h.of_moved (persistTimeout_marks hgo h.marked)
    · cases hgo
      exact h

/-- Where `DupAck` is called, there is data behind the number acknowledged. -/
theorem AtHead.atDupAck (h : s.AtHead) (hord : s.Orderly seg) {y : TcpSocketBase γ}
    (hat : s.atDupAck ops now seg d = some y) : y.Held := by
  unfold TcpSocketBase.atDupAck at hat
  split_ifs at hat with haccepts
  obtain ⟨⟨reported, s₁⟩, hread, hat⟩ := Option.bind_eq_some_iff.1 hat
  obtain ⟨y₀, hacknowledge, hat⟩ := Option.bind_eq_some_iff.1 hat
  split at hat
  next hdup =>
    cases hat
    have hkept := @arrive_kept γ ops s now seg
    have hmarked := h.marked.of_kept hkept
    obtain ⟨hmarked₁, hhead₁, hhigh₁⟩ := readOptions_marked hmarked hread
    have hsize₁ := SameBuffer.size hmarked.stream ((readOptions_same hread).buffer hmarked.stream)
    rw [hkept.txBuffer] at hhead₁ hsize₁
    rw [hkept.highTxMark] at hhigh₁
    have hsearched : Moved 0 s₁ (s₁.findRetransDataAcked seg.ackNumber) :=
      findRetransDataAcked_marks hmarked₁
    have hacked : Acked seg.ackNumber s₁ y₀ := by
      refine (acknowledge_acked hsearched.marked ?_ ?_ hacknowledge).of_searched
      · rw [hsearched.head, hhead₁]
        exact haccepts.old
      · rw [highTxMark_findRetransDataAcked, hhigh₁]
        exact haccepts.unsent
    have hmark : y₀.highRxAckMark = seg.ackNumber := by
      rw [hacked.highRxAckMark, (readOptions_same hread).highRxAckMark,
        h.highRxAckMark_arrive haccepts]
    change offset y₀.txBuffer.firstByteSeq y₀.highRxAckMark < y₀.txBuffer.size.toNat
    rw [hacked.head, hmark, offset_self]
    unfold isDupack at hdup
    split_ifs at hdup with hsack
    · have hle := (h.marked.offset_ack haccepts.old haccepts.unsent).trans h.marked.mark
      obtain ⟨hsacked, -⟩ := readOptions_eq hread
      rw [hkept.txBuffer] at hsacked
      have hne := hord.held haccepts ⟨reported, hsacked, of_decide_eq_true hdup⟩
      have hsize := hacked.size
      rw [hhead₁, hsize₁] at hsize
      have htail : offset s.txBuffer.firstByteSeq s.txBuffer.tailSequence =
          s.txBuffer.size.toNat := by
        rw [offset, tailSequence, add_sub_self]
      rw [ne_eq, ← offset_inj (w := s.txBuffer.firstByteSeq), htail] at hne
      omega
    · rw [Bool.and_eq_true, Bool.and_eq_true] at hdup
      have hbelow := hacked.marked.mark
      rw [hacked.head] at hbelow
      have hne := ne_of_lt (of_decide_eq_true hdup.1.2)
      rw [ne_eq, ← offset_inj (w := seg.ackNumber), offset_self] at hne
      omega
  next => cases hat

theorem AtHead.of_established (setup : Setup γ) (hmark : setup.highRxAckMark = setup.headSequence)
    (hsmall : setup.maxBuffer.toNat < 2 ^ 31) : (established setup).AtHead := by
  refine ⟨⟨(Refines.at_init ..).inv, hsmall, ?_⟩, hmark⟩
  change offset setup.headSequence setup.headSequence ≤ 0
  rw [offset_self]

/-- An unacceptable segment changes nothing exactly if it is dropped or harmless, and in every run
of a connection opened here in which the segments are orderly, the mark stays between the head
and the highest number sent, and recovery begins at a byte of the buffer. -/
theorem unacceptable_ignored (ops : CongestionOps γ) :
    (∀ (s : TcpSocketBase γ) (seg : AckSegment) (now : ℕ) (d : UInt32),
      seg.ackNumber < s.txBuffer.firstByteSeq ∨ s.highTxMark < seg.ackNumber →
        (s.Ignores ops now seg d ↔ s.Dropped seg ∨ s.Harmless seg)) ∧
    ∀ setup : Setup γ, setup.highRxAckMark = setup.headSequence →
      setup.maxBuffer.toNat < 2 ^ 31 → ∀ events : List Event,
        Each (after ops) OrderlyEvent (some (established setup)) events →
          Always (after ops) (fun s => ∀ x ∈ s, x.Bounded) (some (established setup)) events ∧
          Each (after ops) (Recovers ops) (some (established setup)) events := by
  refine ⟨fun s seg now d hun => ignores_iff hun, fun setup hmark hsmall events hord => ?_⟩
  have hstep : ∀ (s : Option (TcpSocketBase γ)) (event : Event), (∀ x ∈ s, x.AtHead) →
      OrderlyEvent s event → ∀ x ∈ after ops s event, x.AtHead := by
    intro s event hinv hok x hx
    obtain ⟨s', rfl, hgo⟩ := Option.bind_eq_some_iff.1 hx
    exact (hinv s' rfl).handle hok hgo
  have hfirst : ∀ x ∈ some (established setup), x.AtHead := by
    rintro x ⟨⟩
    exact AtHead.of_established setup hmark hsmall
  have halways := hord.always hstep hfirst
  refine ⟨halways.mono fun s hinv x hx => (hinv x hx).bounded, ?_⟩
  refine hord.imp hstep (fun s event hinv hok => ?_) hfirst
  cases event with
  | receive now seg d => exact fun x hx y hy => (hinv x hx).atDupAck (hok x hx) hy
  | _ => trivial

/-- Five of ten bytes are sent, the second is lost, and an old acknowledgment arrives late. -/
def oneLost : List Event :=
  [.send [1, 2, 3, 4, 5, 6, 7, 8, 9, 10] length_tenBytes, .sendPendingData 1, .sendPendingData 1,
    .sendPendingData 1, .sendPendingData 1, .sendPendingData 1, .receive 2 (ackOf 2 none false) 1,
    .receive 3 (ackOf 2 (some (3, 4)) false) 1, .receive 3 (ackOf 2 (some (3, 5)) false) 1,
    .receive 3 (ackOf 2 (some (3, 6)) false) 1, .receive 4 (ackOf 1 none false) 0]

theorem unacceptable_ignored_oneLost :
    ((established byteSetup).Ignores halvingOps 1 (ackOf 0 none false) 0 ↔
      (established byteSetup).Dropped (ackOf 0 none false) ∨
        (established byteSetup).Harmless (ackOf 0 none false)) ∧
    Always (after halvingOps) (fun s => ∀ x ∈ s, x.Bounded) (some (established byteSetup)) oneLost ∧
    Each (after halvingOps) (Recovers halvingOps) (some (established byteSetup)) oneLost :=
  ⟨(unacceptable_ignored halvingOps).1 (established byteSetup) (ackOf 0 none false) 1 0
      (.inl (by decide)),
    (unacceptable_ignored halvingOps).2 byteSetup rfl (by decide) oneLost (by decide +kernel)⟩

/-- A probe of the zero window is acknowledged. -/
def probeAcked : AckSegment where
  sequenceNumber := ⟨0⟩
  ackNumber := ⟨3⟩
  windowSize := 50

/-- A byte is sent and acknowledged with a window of zero, the next one is sent as a probe. -/
def probed : List Event :=
  [.send [1, 2, 3] (by decide), .sendPendingData 1,
    .receive 2 { sequenceNumber := ⟨0⟩, ackNumber := ⟨2⟩, windowSize := 0 } 1, .persistTimeout 3]

/-- The acknowledgment of a probe is above the highest number sent, and raises the mark. -/
theorem not_unacceptable_ignored :
    ∃ s ∈ run (after halvingOps) (some (established byteSetup)) probed,
      s.highTxMark < probeAcked.ackNumber ∧ ¬ s.Ignores halvingOps 4 probeAcked 0 ∧
        ∃ s' ∈ s.handle halvingOps (.receive 4 probeAcked 0), ¬ s'.Bounded := by
  have hfacts : (run (after halvingOps) (some (established byteSetup)) probed).map
      (fun s => (decide (s.highTxMark < probeAcked.ackNumber), decide (s.Dropped probeAcked),
        decide (s.Harmless probeAcked), (s.handle halvingOps (.receive 4 probeAcked 0)).map
          fun s' => decide (s'.highRxAckMark ≤ s'.highTxMark))) =
      some (true, false, false, some false) := by
    decide +kernel
  obtain ⟨s, hs, heq⟩ := Option.map_eq_some_iff.1 hfacts
  simp only [Prod.mk.injEq, decide_eq_true_eq, decide_eq_false_iff_not,
    Option.map_eq_some_iff] at heq
  obtain ⟨hunsent, hdropped, hharmless, s', hs', habove⟩ := heq
  refine ⟨s, hs, hunsent, fun hignores => ?_, s', hs', fun hbounded => habove hbounded.sent⟩
  exact ((ignores_iff (.inr hunsent)).1 hignores).elim hdropped hharmless

end TcpSocketBase

end Ns3Pedca
