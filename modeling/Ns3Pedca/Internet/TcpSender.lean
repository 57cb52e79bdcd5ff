import Ns3Pedca.Internet.TcpSocketBase

/-!
# What the functions of the sender leave as it is

`Same` relates two states of a socket with the same congestion state, the same counter and
recovery point, and a buffer of the same bytes. A transmission and a call of the congestion
objects are of this kind (`sendDataPacket_same`, `doRetransmit_same`, `Same.of_invoke`), and so is
all that happens to an acknowledgment before its number is looked at.
-/

namespace Ns3Pedca

open TcpTxBuffer

namespace SequenceNumber32

theorem le_of_lt {a b : SequenceNumber32} (h : a < b) : a ≤ b := by
  change cmp a b = .lt at h
  change cmp a b ≠ .gt
  rw [h]
  decide

theorem lt_of_le_of_ne {a b : SequenceNumber32} (h : a ≤ b) (hne : a ≠ b) : a < b := by
  change cmp a b ≠ .gt at h
  change cmp a b = .lt
  have hvalue : a.value ≠ b.value := fun heq => hne (ext_value heq)
  unfold cmp at h ⊢
  rw [if_neg hvalue] at h ⊢
  split_ifs at h ⊢
  · exact absurd rfl h
  · rfl

end SequenceNumber32

namespace TcpTxBuffer

/-- An item that is copied is not empty. -/
theorem StreamInv.size_of_copy {b b' : TcpTxBuffer} (h : StreamInv b) {now : ℕ}
    {numBytes : UInt32} {seq : SequenceNumber32} {item : TcpTxItem}
    (hcopy : b.copyFromSequence now numBytes seq = some (some item, b')) : 0 < item.size := by
  have hinv := (h.copyFromSequence hcopy).inv
  have hmem : item ∈ b'.sentList ++ b'.appList := by
    cases copyFromSequence_step hcopy with
    | transmitted hne hend hget =>
      obtain ⟨found, -, -, rfl⟩ := getTransmittedSegment_found hget
      simp
    | new hne hend hget =>
      obtain ⟨found, -, -, rfl⟩ := getNewSegment_found hget
      simp
  have hpos := List.length_pos_iff.2 (hinv.nonempty item hmem)
  rw [UInt32.lt_iff_toNat_lt, hinv.toNat_size hmem]
  exact hpos

theorem StreamInv.add {b : TcpTxBuffer} (h : StreamInv b) {p : Packet} (hp : p.length < 2 ^ 32) :
    StreamInv (b.add p).2 := by
  have hrefines : Refines b ⟨b.maxBuffer.toNat, b.firstByteSeq, b.bytes, 0⟩ :=
    ⟨h, rfl, rfl, rfl, Nat.zero_le _⟩
  exact (hrefines.add hp).inv

theorem firstByteSeq_add (b : TcpTxBuffer) (p : Packet) :
    (b.add p).2.firstByteSeq = b.firstByteSeq := by
  unfold TcpTxBuffer.add
  split_ifs <;> rfl

/-- The bytes that the last of some SACK options reports. -/
def sackedBy : List (List (SequenceNumber32 × SequenceNumber32)) → UInt32 → TcpTxBuffer →
    Option UInt32
  | [], n, _ => some n
  | list :: sacks, _, b => (b.update list).bind fun r => sackedBy sacks r.1 r.2

/-- The head is at the number acknowledged. -/
theorem head_of_discardUpTo {now : ℕ} {ack : SequenceNumber32} {b b' : TcpTxBuffer}
    (hs : StreamInv b) (hack : ¬ ack < b.firstByteSeq)
    (hdiscard : b.discardUpTo now ack = some b') : StreamInv b' ∧ b'.firstByteSeq = ack := by
  by_cases hle : ack ≤ b.firstByteSeq
  · have heq : ack = b.firstByteSeq := by
      by_contra hne
      exact hack (SequenceNumber32.lt_of_le_of_ne hle hne)
    unfold TcpTxBuffer.discardUpTo at hdiscard
    rw [if_pos hle] at hdiscard
    cases hdiscard
    exact ⟨hs, heq.symm⟩
  · obtain ⟨hinv, -, -, hhead⟩ := hs.discardUpTo hle hdiscard
    exact ⟨hinv, hhead⟩

end TcpTxBuffer

namespace TcpSocketBase

variable {γ : Type}

/-- The congestion state, its counter and its recovery point are the same, and so are the bytes
of the buffer. -/
structure Same (s s' : TcpSocketBase γ) : Prop where
  congState : s'.congState = s.congState
  dupAckCount : s'.dupAckCount = s.dupAckCount
  retxThresh : s'.retxThresh = s.retxThresh
  recover : s'.recover = s.recover
  recoverActive : s'.recoverActive = s.recoverActive
  checked : s'.checked = s.checked
  highRxAckMark : s'.highRxAckMark = s.highRxAckMark
  sackEnabled : s'.sackEnabled = s.sackEnabled
  fackEnabled : s'.fackEnabled = s.fackEnabled
  buffer : StreamInv s.txBuffer → SameBuffer s.txBuffer s'.txBuffer

variable {ops : CongestionOps γ} {s s' s'' : TcpSocketBase γ} {now : ℕ}
  {seq ack : SequenceNumber32} {n sz : UInt32}

theorem Same.refl (s : TcpSocketBase γ) : Same s s :=
  ⟨rfl, rfl, rfl, rfl, rfl, rfl, rfl, rfl, rfl, .refl⟩

theorem Same.trans (h : Same s s') (h' : Same s' s'') : Same s s'' :=
  ⟨h'.congState.trans h.congState, h'.dupAckCount.trans h.dupAckCount,
    h'.retxThresh.trans h.retxThresh, h'.recover.trans h.recover,
    h'.recoverActive.trans h.recoverActive, h'.checked.trans h.checked,
    h'.highRxAckMark.trans h.highRxAckMark, h'.sackEnabled.trans h.sackEnabled,
    h'.fackEnabled.trans h.fackEnabled,
    fun hs => (h.buffer hs).trans (h'.buffer (h.buffer hs).inv)⟩

theorem Same.head (h : Same s s') (hs : StreamInv s.txBuffer) :
    s'.txBuffer.firstByteSeq = s.txBuffer.firstByteSeq :=
  (h.buffer hs).head

theorem Same.of_invoke (call : ControlCall) : Same s (s.invoke ops call) :=
  ⟨rfl, rfl, rfl, rfl, rfl, rfl, rfl, rfl, rfl, .refl⟩

theorem Same.of_invokeIf (p : Prop) [Decidable p] (call : ControlCall) :
    Same s (s.invokeIf ops p call) := by
  unfold invokeIf
  split
  · exact .of_invoke call
  · exact .refl s

theorem Same.of_withNext (next : SequenceNumber32) : Same s (s.withNext next) :=
  ⟨rfl, rfl, rfl, rfl, rfl, rfl, rfl, rfl, rfl, .refl⟩

theorem Same.of_withWindows (cWnd cWndInfl ssThresh : UInt32) :
    Same s (s.withWindows cWnd cWndInfl ssThresh) :=
  ⟨rfl, rfl, rfl, rfl, rfl, rfl, rfl, rfl, rfl, .refl⟩

theorem Same.of_withFirstPartialAck (isFirst : Bool) : Same s (s.withFirstPartialAck isFirst) :=
  ⟨rfl, rfl, rfl, rfl, rfl, rfl, rfl, rfl, rfl, .refl⟩

theorem Same.of_withBuffer {b : TcpTxBuffer} (hb : StreamInv s.txBuffer → SameBuffer s.txBuffer b) :
    Same s (s.withBuffer b) :=
  ⟨rfl, rfl, rfl, rfl, rfl, rfl, rfl, rfl, rfl, hb⟩

theorem Same.of_newAck (resetRTO : Bool) : Same s (s.newAck ack resetRTO) :=
  ⟨rfl, rfl, rfl, rfl, rfl, rfl, rfl, rfl, rfl, .refl⟩

theorem Same.of_sendEmptyPacket : Same s s.sendEmptyPacket :=
  ⟨rfl, rfl, rfl, rfl, rfl, rfl, rfl, rfl, rfl, .refl⟩

theorem Same.of_startReTxTimer : Same s s.startReTxTimer :=
  ⟨rfl, rfl, rfl, rfl, rfl, rfl, rfl, rfl, rfl, .refl⟩

theorem Same.of_raiseHighTxMark (mark : SequenceNumber32) : Same s (s.raiseHighTxMark mark) :=
  ⟨rfl, rfl, rfl, rfl, rfl, rfl, rfl, rfl, rfl, .refl⟩

theorem Same.of_updateRttHistory (isRetransmission : Bool) :
    Same s (s.updateRttHistory now seq n isRetransmission) :=
  ⟨rfl, rfl, rfl, rfl, rfl, rfl, rfl, rfl, rfl, .refl⟩

theorem Same.of_sendCwr (isRetransmission : Bool) : Same s (s.sendCwr seq isRetransmission) := by
  unfold sendCwr
  split
  · exact ⟨rfl, rfl, rfl, rfl, rfl, rfl, rfl, rfl, rfl, .refl⟩
  · exact .refl s

/-! ## Transmission -/

theorem sendDataPacket_same (hs : StreamInv s.txBuffer)
    (hsend : s.sendDataPacket ops now seq n = some (sz, s')) : Same s s' ∧ 0 < sz := by
  unfold sendDataPacket at hsend
  split at hsend
  next item b hcopy =>
    obtain ⟨rfl, rfl⟩ := Prod.mk.inj (Option.some.inj hsend)
    refine ⟨?_, hs.size_of_copy hcopy⟩
    have hcopied : Same s (s.withBuffer b) := .of_withBuffer fun h => h.copyFromSequence hcopy
    exact ((((hcopied.trans .of_startReTxTimer).trans (.of_sendCwr _)).trans
      (.of_updateRttHistory _)).trans (.of_invokeIf _ _)).trans (.of_raiseHighTxMark _)
  next => cases hsend

theorem doRetransmit_same (hs : StreamInv s.txBuffer)
    (hsend : s.doRetransmit ops now = some s') : Same s s' := by
  obtain ⟨⟨sz, s''⟩, hpacket, rfl⟩ := Option.map_eq_some_iff.1 hsend
  have hnext : Same s (s.withNext s.retransmission.1) := .of_withNext _
  exact hnext.trans (sendDataPacket_same (hnext.buffer hs).inv hpacket).1

theorem sendPendingData_same (hs : StreamInv s.txBuffer)
    (hsend : s.sendPendingData ops now = some s') : Same s s' := by
  unfold sendPendingData at hsend
  split at hsend
  · cases hsend
    exact .refl s
  · split at hsend
    next =>
      cases hsend
      exact .refl s
    next next nextHigh hseg =>
      dsimp only at hsend
      split at hsend
      · cases hsend
        exact .refl s
      · obtain ⟨⟨sz, s''⟩, hpacket, rfl⟩ := Option.map_eq_some_iff.1 hsend
        have hbefore : Same s ((s.withNext next).invokeIf ops (s.txBuffer.bytesInFlight = 0)
            (.cwndEvent .txStart)) := (Same.of_withNext next).trans (.of_invokeIf _ _)
        exact (hbefore.trans (sendDataPacket_same (hbefore.buffer hs).inv hpacket).1).trans
          (.of_withNext _)

theorem persistTimeout_same (hprobe : s.persistTimeout now = some s') : Same s s' := by
  unfold persistTimeout at hprobe
  split at hprobe
  next item b hcopy =>
    cases hprobe
    refine .of_withBuffer fun h => ?_
    have hcopied := h.copyFromSequence hcopy
    exact hcopied.trans hcopied.inv.resetLastSegmentSent
  next => cases hprobe

/-! ## Acknowledgments -/

theorem sameBuffer_loseHead {b : TcpTxBuffer} (hlose : s.loseHead = some b)
    (h : StreamInv s.txBuffer) : SameBuffer s.txBuffer b := by
  unfold loseHead at hlose
  split_ifs at hlose
  · cases hlose
    exact .refl h
  · cases hlose
    exact h.markHeadAsLost
  · obtain ⟨b', hreno, rfl⟩ := Option.map_eq_some_iff.1 hlose
    have hadded := h.addRenoSack hreno
    exact hadded.trans hadded.inv.markHeadAsLost

theorem retransmitNext_same {bytesAcked : UInt32} (hs : StreamInv s.txBuffer)
    (hsend : s.retransmitNext ops now ack bytesAcked = some s') : Same s s' := by
  unfold retransmitNext at hsend
  split at hsend
  · cases hsend
    exact .refl s
  · obtain ⟨s'', hretransmit, rfl⟩ := Option.map_eq_some_iff.1 hsend
    exact (doRetransmit_same hs hretransmit).trans (.of_withWindows ..)

theorem partialAck_same {segsAcked bytesAcked currentDelivered : UInt32}
    (hs : StreamInv s.txBuffer)
    (hpart : s.partialAck ops now ack segsAcked bytesAcked currentDelivered = some s') :
    Same s s' := by
  obtain ⟨s'', hsend, rfl⟩ := Option.map_eq_some_iff.1 hpart
  have hbuffer : Same s (s.withBuffer
      (if s.sackEnabled then s.txBuffer else s.txBuffer.markHeadAsLost)) := by
    refine .of_withBuffer fun h => ?_
    split
    · exact .refl h
    · exact h.markHeadAsLost
  have hbefore := hbuffer.trans (@Same.of_invokeIf _ ops _
    (ops.hasCongControl = false ∧ 1 ≤ segsAcked) _ (.doRecovery currentDelivered false))
  have hsent := hbefore.trans (retransmitNext_same (hbefore.buffer hs).inv hsend)
  exact ((hsent.trans (.of_invoke _)).trans (.of_newAck _)).trans (.of_withFirstPartialAck _)

theorem processOptionSack_same {list : List (SequenceNumber32 × SequenceNumber32)}
    (hsack : s.processOptionSack list = some (n, s')) : Same s s' := by
  obtain ⟨⟨n', b⟩, hupdate, heq⟩ := Option.map_eq_some_iff.1 hsack
  obtain ⟨-, rfl⟩ := Prod.mk.inj heq
  exact ⟨rfl, rfl, rfl, rfl, rfl, rfl, rfl, rfl, rfl, fun h => h.update hupdate⟩

theorem readOptions_same :
    ∀ {sacks : List (List (SequenceNumber32 × SequenceNumber32))} {m : UInt32}
      {s : TcpSocketBase γ}, readOptions sacks m s = some (n, s') → Same s s'
  | [], _, _, h => by
    cases h
    exact .refl _
  | _ :: _, _, _, h => by
    obtain ⟨⟨m, s₁⟩, hsack, hrest⟩ := Option.bind_eq_some_iff.1 h
    exact (processOptionSack_same hsack).trans (readOptions_same hrest)

/-- The options change the buffer and the forward-most number only. -/
theorem readOptions_eq :
    ∀ {sacks : List (List (SequenceNumber32 × SequenceNumber32))} {m : UInt32}
      {s : TcpSocketBase γ}, readOptions sacks m s = some (n, s') →
        sackedBy sacks m s.txBuffer = some n ∧
        ∃ fack b, s' = { s with sndFack := fack, txBuffer := b }
  | [], _, s, h => by
    cases h
    exact ⟨rfl, _, _, rfl⟩
  | list :: sacks, _, s, h => by
    obtain ⟨⟨m, s₁⟩, hsack, hrest⟩ := Option.bind_eq_some_iff.1 h
    obtain ⟨⟨m', b⟩, hupdate, heq⟩ := Option.map_eq_some_iff.1 hsack
    obtain ⟨rfl, rfl⟩ := Prod.mk.inj heq
    obtain ⟨hsacked, fack, b', rfl⟩ := readOptions_eq hrest
    refine ⟨?_, fack, b', rfl⟩
    unfold sackedBy
    rw [hupdate]
    exact hsacked

theorem findRetransDataAcked_eq :
    ∃ found, s.findRetransDataAcked ack = { s with isRetransDataAcked := found } := by
  unfold findRetransDataAcked
  split
  · exact ⟨_, rfl⟩
  · exact ⟨s.isRetransDataAcked, rfl⟩

theorem Same.of_findRetransDataAcked : Same s (s.findRetransDataAcked ack) := by
  unfold findRetransDataAcked
  split
  · exact ⟨rfl, rfl, rfl, rfl, rfl, rfl, rfl, rfl, rfl, .refl⟩
  · exact .refl s

theorem Same.of_receivedData {seg : AckSegment} : Same s (s.receivedData ops seg) := by
  unfold receivedData
  split_ifs
  · exact .refl s
  · exact (Same.of_invoke _).trans .of_sendEmptyPacket
  · exact .of_invoke _

theorem Same.of_finishAck {seg : AckSegment} : Same s (s.finishAck ops seg) := by
  have hflag : Same s { s with isRetransDataAcked := false } :=
    ⟨rfl, rfl, rfl, rfl, rfl, rfl, rfl, rfl, rfl, .refl⟩
  exact (hflag.trans (.of_invokeIf _ _)).trans .of_receivedData

/-! ## The common path -/

theorem Same.of_receiveCwr {seg : AckSegment} : Same s (s.receiveCwr seg) := by
  unfold receiveCwr
  split
  · exact ⟨rfl, rfl, rfl, rfl, rfl, rfl, rfl, rfl, rfl, .refl⟩
  · exact .refl s

theorem Same.of_addRttSample {rtt : ℤ} : Same s (s.addRttSample ops rtt) := by
  unfold addRttSample
  split
  · exact .refl s
  · exact ⟨rfl, rfl, rfl, rfl, rfl, rfl, rfl, rfl, rfl, .refl⟩

theorem Same.of_estimateRtt {seg : AckSegment} : Same s (s.estimateRtt ops now seg) := by
  unfold estimateRtt
  split
  · exact .refl s
  · refine Same.trans ?_ .of_addRttSample
    exact ⟨rfl, rfl, rfl, rfl, rfl, rfl, rfl, rfl, rfl, .refl⟩

theorem Same.of_startPersist : Same s s.startPersist := by
  unfold startPersist
  split
  · exact ⟨rfl, rfl, rfl, rfl, rfl, rfl, rfl, rfl, rfl, .refl⟩
  · exact .refl s

theorem Same.of_endPersist : Same s s.endPersist := by
  unfold endPersist
  split
  · exact ⟨rfl, rfl, rfl, rfl, rfl, rfl, rfl, rfl, rfl, .refl⟩
  · exact .refl s

/-- What the handler of a segment looks at is not changed before, but for the state of ECN and the
highest acknowledgment. -/
structure Kept (s s' : TcpSocketBase γ) : Prop where
  congState : s'.congState = s.congState
  dupAckCount : s'.dupAckCount = s.dupAckCount
  retxThresh : s'.retxThresh = s.retxThresh
  recover : s'.recover = s.recover
  recoverActive : s'.recoverActive = s.recoverActive
  checked : s'.checked = s.checked
  sackEnabled : s'.sackEnabled = s.sackEnabled
  fackEnabled : s'.fackEnabled = s.fackEnabled
  sndFack : s'.sndFack = s.sndFack
  txBuffer : s'.txBuffer = s.txBuffer
  highTxMark : s'.highTxMark = s.highTxMark
  ecnEchoSeq : s'.ecnEchoSeq = s.ecnEchoSeq

theorem Kept.refl (s : TcpSocketBase γ) : Kept s s :=
  ⟨rfl, rfl, rfl, rfl, rfl, rfl, rfl, rfl, rfl, rfl, rfl, rfl⟩

theorem Kept.trans (h : Kept s s') (h' : Kept s' s'') : Kept s s'' :=
  ⟨h'.congState.trans h.congState, h'.dupAckCount.trans h.dupAckCount,
    h'.retxThresh.trans h.retxThresh, h'.recover.trans h.recover,
    h'.recoverActive.trans h.recoverActive, h'.checked.trans h.checked,
    h'.sackEnabled.trans h.sackEnabled, h'.fackEnabled.trans h.fackEnabled,
    h'.sndFack.trans h.sndFack, h'.txBuffer.trans h.txBuffer, h'.highTxMark.trans h.highTxMark,
    h'.ecnEchoSeq.trans h.ecnEchoSeq⟩

variable {seg : AckSegment}

theorem Kept.of_receiveCwr : Kept s (s.receiveCwr seg) := by
  unfold receiveCwr
  split
  · exact ⟨rfl, rfl, rfl, rfl, rfl, rfl, rfl, rfl, rfl, rfl, rfl, rfl⟩
  · exact .refl s

theorem Kept.of_addRttSample {rtt : ℤ} : Kept s (s.addRttSample ops rtt) := by
  unfold addRttSample
  split
  · exact .refl s
  · exact ⟨rfl, rfl, rfl, rfl, rfl, rfl, rfl, rfl, rfl, rfl, rfl, rfl⟩

theorem Kept.of_estimateRtt : Kept s (s.estimateRtt ops now seg) := by
  unfold estimateRtt
  split
  · exact .refl s
  · refine Kept.trans ?_ .of_addRttSample
    exact ⟨rfl, rfl, rfl, rfl, rfl, rfl, rfl, rfl, rfl, rfl, rfl, rfl⟩

theorem Kept.of_updateWindowSize : Kept s (s.updateWindowSize seg) :=
  ⟨rfl, rfl, rfl, rfl, rfl, rfl, rfl, rfl, rfl, rfl, rfl, rfl⟩

theorem Kept.of_startPersist : Kept s s.startPersist := by
  unfold startPersist
  split
  · exact ⟨rfl, rfl, rfl, rfl, rfl, rfl, rfl, rfl, rfl, rfl, rfl, rfl⟩
  · exact .refl s

theorem Kept.of_endPersist : Kept s s.endPersist := by
  unfold endPersist
  split
  · exact ⟨rfl, rfl, rfl, rfl, rfl, rfl, rfl, rfl, rfl, rfl, rfl, rfl⟩
  · exact .refl s

theorem Kept.of_sendEmptyPacket : Kept s s.sendEmptyPacket :=
  ⟨rfl, rfl, rfl, rfl, rfl, rfl, rfl, rfl, rfl, rfl, rfl, rfl⟩

theorem arrive_kept : Kept s (s.arrive ops now seg) :=
  ((Kept.of_receiveCwr.trans .of_estimateRtt).trans .of_updateWindowSize).trans .of_startPersist

theorem ecnState_estimateRtt : (s.estimateRtt ops now seg).ecnState = s.ecnState := by
  unfold estimateRtt addRttSample
  split
  · rfl
  · dsimp only
    split_ifs <;> rfl

theorem ecnState_arrive : (s.arrive ops now seg).ecnState = (s.receiveCwr seg).ecnState := by
  refine Eq.trans ?_ (@ecnState_estimateRtt γ ops (s.receiveCwr seg) now seg)
  unfold arrive startPersist
  split <;> rfl

theorem highRxAckMark_arrive :
    (s.arrive ops now seg).highRxAckMark = (s.updateWindowSize seg).highRxAckMark := by
  have hsame : Same s ((s.receiveCwr seg).estimateRtt ops now seg) :=
    Same.of_receiveCwr.trans .of_estimateRtt
  unfold arrive
  rw [Same.of_startPersist.highRxAckMark]
  unfold updateWindowSize
  rw [hsame.highRxAckMark]

/-- The segment is not dropped, and its acknowledgment is processed. -/
structure Accepts (s : TcpSocketBase γ) (seg : AckSegment) : Prop where
  timestamp : ¬ (s.timestampEnabled = true ∧ seg.tsEcho = none)
  old : ¬ seg.ackNumber < s.txBuffer.firstByteSeq
  unsent : ¬ s.highTxMark < seg.ackNumber

instance (s : TcpSocketBase γ) (seg : AckSegment) : Decidable (s.Accepts seg) :=
  decidable_of_iff
    (¬ (s.timestampEnabled = true ∧ seg.tsEcho = none) ∧ ¬ seg.ackNumber < s.txBuffer.firstByteSeq ∧
      ¬ s.highTxMark < seg.ackNumber)
    ⟨fun h => ⟨h.1, h.2.1, h.2.2⟩, fun h => ⟨h.1, h.2, h.3⟩⟩

/-- What happens to a segment. -/
theorem doForwardUp_cases (hgo : s.doForwardUp ops now seg n = some s') :
    (¬ s.Accepts seg ∧ Kept s s') ∨
    s.Accepts seg ∧ ∃ s₁, (s.arrive ops now seg).receivedAck ops now seg n = some s₁ ∧
      s' = s₁.endPersist := by
  unfold doForwardUp at hgo
  split_ifs at hgo with htimestamp
  · cases hgo
    exact .inl ⟨fun h => h.timestamp htimestamp, .of_receiveCwr⟩
  · obtain ⟨s₁, hestablished, rfl⟩ := Option.map_eq_some_iff.1 hgo
    have hkept := @arrive_kept γ ops s now seg
    unfold processEstablished at hestablished
    rw [hkept.txBuffer, hkept.highTxMark] at hestablished
    split_ifs at hestablished with hold hunsent
    · cases hestablished
      exact .inl ⟨fun h => h.old hold, hkept.trans .of_endPersist⟩
    · cases hestablished
      exact .inl ⟨fun h => h.unsent hunsent, (hkept.trans .of_sendEmptyPacket).trans .of_endPersist⟩
    · exact .inr ⟨⟨htimestamp, hold, hunsent⟩, s₁, hestablished, rfl⟩

theorem Same.of_receiveCodepoint {ce : Bool} : Same s (s.receiveCodepoint ops ce) := by
  unfold receiveCodepoint
  split
  · refine Same.trans ?_ (.of_invoke _)
    exact ⟨rfl, rfl, rfl, rfl, rfl, rfl, rfl, rfl, rfl, .refl⟩
  · exact .of_invokeIf _ _

theorem Same.of_delAckTimeout : Same s (s.delAckTimeout ops) :=
  (Same.of_invoke _).trans .of_sendEmptyPacket

/-! ## A small socket -/

/-- Objects that halve the window, and do nothing else. -/
def halvingOps : CongestionOps Unit where
  hasCongControl := false
  getSsThresh s _ := s.cWnd / 2
  call _ s := ((), s.cWnd, s.cWndInfl, s.ssThresh)
  measurement rtt m := ⟨m, 0, rtt.nSamples + 1⟩

/-- A socket with SACK and ECN, and segments of one byte. -/
def byteSetup : Setup Unit where
  headSequence := ⟨1⟩
  maxBuffer := 100
  segmentSize := 1
  retxThresh := 3
  sackEnabled := true
  fackEnabled := false
  limitedTx := true
  noDelay := true
  timestampEnabled := false
  ecnEnabled := true
  control := ()
  cWnd := 12
  ssThresh := 0xffffffff
  highRxAckMark := ⟨1⟩
  highRxMark := ⟨0⟩
  rWnd := 50
  sndWindShift := 0
  rtt := ⟨1000, 0, 1⟩
  minRtt := 1000000
  rto := 1000
  minRto := 100
  clockGranularity := 1
  dataRetries := 6

/-- Ten bytes to send. -/
theorem length_tenBytes : ([1, 2, 3, 4, 5, 6, 7, 8, 9, 10] : Packet).length < 2 ^ 32 := by
  decide

/-- An acknowledgment with at most one SACK block. -/
def ackOf (number : UInt32) (block : Option (UInt32 × UInt32)) (ece : Bool) : AckSegment where
  sequenceNumber := ⟨0⟩
  ackNumber := ⟨number⟩
  windowSize := 50
  ece := ece
  sacks := block.toList.map fun b => [(⟨b.1⟩, ⟨b.2⟩)]

end TcpSocketBase

end Ns3Pedca
