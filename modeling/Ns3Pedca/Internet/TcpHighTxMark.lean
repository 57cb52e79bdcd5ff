import Ns3Pedca.Internet.TcpSender

/-!
# The highest number sent

`m_highTxMark` lies between the head of the transmit buffer and the end of its data
(`Marked`), and does not go back. `Marks a` relates two states between which data may have been
sent, again or for the first time : the head is the same, and `m_sndFack` is the same or has been
raised to `a`. All of `ProcessAck` is of this kind (`processAck_marks`), and `Acked` is the same for
an acknowledgment, which moves the head (`receivedAck_acked`).
-/

namespace Ns3Pedca

open TcpTxBuffer

namespace SequenceNumber32

variable {w a b : SequenceNumber32}

/-- A number that is neither before a window nor behind a number in it. -/
theorem offset_le_of_between (hb : offset w b < 2 ^ 31) (ha : ¬ a < w) (hab : ¬ b < a) :
    offset w a ≤ offset w b := by
  change ¬ cmp a w = .lt at ha
  change ¬ cmp b a = .lt at hab
  rw [offset, sub_def, UInt32.toNat_sub] at hb ⊢
  rw [offset, sub_def, UInt32.toNat_sub]
  have hlta := a.value.toNat_lt
  have hltb := b.value.toNat_lt
  have hltw := w.value.toNat_lt
  have hhalf : halfMaxValue.toNat = 2 ^ 31 - 1 := rfl
  unfold cmp at ha hab
  simp only [← UInt32.toNat_inj, UInt32.lt_iff_toNat_lt, UInt32.le_iff_toNat_le, UInt32.toNat_sub,
    hhalf] at ha hab
  split_ifs at ha hab <;> simp at ha hab <;> omega

end SequenceNumber32

open SequenceNumber32

namespace TcpTxBuffer

variable {b b' : TcpTxBuffer} {now : ℕ} {numBytes : UInt32} {seq : SequenceNumber32}
  {item : TcpTxItem}

theorem SameBuffer.size (h : StreamInv b) (hsame : SameBuffer b b') : b'.size = b.size := by
  rw [← UInt32.toNat_inj, hsame.inv.length_bytes, hsame.bytes, h.length_bytes]

/-- An item that is found in a list lies in it. -/
theorem allBytes_of_found {found : Found} {l : List TcpTxItem} {start : SequenceNumber32}
    {node : ℕ} {r : UInt32} (hpos : numBytes ≠ 0)
    (hget : getPacketFromList numBytes seq node l start r = some found) :
    seq = start + UInt32.ofNat (allBytes found.before) ∧
      allBytes found.before + found.item.packet.length ≤ allBytes l := by
  obtain ⟨hsame, hseq⟩ := sameStream_getPacketFromList hpos hget
  have hall : allBytes found.list = allBytes l := by
    rw [← length_payload, hsame.payload, length_payload]
  rw [Found.list, allBytes_append, allBytes_cons] at hall
  exact ⟨hseq, by omega⟩

/-- A copy that begins at `seq` ends in the buffer. -/
theorem StreamInv.offset_of_copy (h : StreamInv b)
    (hcopy : b.copyFromSequence now numBytes seq = some (some item, b')) :
    offset b.firstByteSeq seq + item.size.toNat ≤ b.size.toNat := by
  have hbound := lt_of_le_of_lt h.bound b.maxBuffer.toNat_lt
  have hsize : b.size.toNat = allBytes b.sentList + allBytes b.appList := by
    rw [h.size, UInt32.toNat_ofNat_of_lt' hbound]
  cases copyFromSequence_step hcopy with
  | transmitted hne hend hget =>
    obtain ⟨found, hfound, rfl, -⟩ := getTransmittedSegment_found hget
    have hlimit := (segmentLimit_spec seq hne
      (fun t ht => h.nonempty t (List.mem_append_left _ ht))
      (lt_of_le_of_lt (Nat.le_add_right ..) hbound)).1
    obtain ⟨hseq, hall⟩ := allBytes_of_found hlimit hfound
    have hitem : found.item.size.toNat = found.item.packet.length :=
      UInt32.toNat_ofNat_of_lt' (show _ < 2 ^ 32 by omega)
    have hbefore : (UInt32.ofNat (allBytes found.before)).toNat = allBytes found.before :=
      UInt32.toNat_ofNat_of_lt' (show _ < 2 ^ 32 by omega)
    change offset b.firstByteSeq seq + found.item.size.toNat ≤ _
    rw [offset, hseq, add_sub_self, hitem, hbefore]
    omega
  | new hne hend hget =>
    obtain ⟨found, hfound, rfl, -⟩ := getNewSegment_found hget
    obtain ⟨-, hall⟩ := allBytes_of_found hne hfound
    have hitem : found.item.size.toNat = found.item.packet.length :=
      UInt32.toNat_ofNat_of_lt' (show _ < 2 ^ 32 by omega)
    have hsent : offset b.firstByteSeq seq = b.sentSize.toNat := by
      rw [← hend]
      exact congrArg UInt32.toNat (add_sub_self b.firstByteSeq b.sentSize)
    change offset b.firstByteSeq seq + found.item.size.toNat ≤ _
    rw [hsent, h.toNat_sentSize, hitem]
    omega

end TcpTxBuffer

namespace TcpSocketBase

variable {γ : Type} {ops : CongestionOps γ} {s s' s'' : TcpSocketBase γ} {now : ℕ}
  {seq ack old : SequenceNumber32} {a d n sz : UInt32} {seg : AckSegment}

/-- The highest number sent is one of the buffer, which holds less than half of all numbers. -/
structure Marked (s : TcpSocketBase γ) : Prop where
  stream : StreamInv s.txBuffer
  small : s.txBuffer.maxBuffer.toNat < 2 ^ 31
  mark : offset s.txBuffer.firstByteSeq s.highTxMark ≤ s.txBuffer.size.toNat

theorem Marked.size_lt (h : s.Marked) : s.txBuffer.size.toNat < 2 ^ 31 := by
  have hbound := h.stream.bound
  have hsmall := h.small
  rw [h.stream.size, UInt32.toNat_ofNat_of_lt' (show _ < 2 ^ 32 by omega)]
  omega

/-- The greater of two numbers, compared as they are. -/
def rawMax (m n : UInt32) : UInt32 :=
  if m < n then n else m

theorem toNat_rawMax (m n : UInt32) : (rawMax m n).toNat = max m.toNat n.toNat := by
  unfold rawMax
  split_ifs with hlt
  · rw [UInt32.lt_iff_toNat_lt] at hlt
    omega
  · rw [UInt32.lt_iff_toNat_lt] at hlt
    omega

theorem rawMax_rawMax_self (m n : UInt32) : rawMax (rawMax m n) n = rawMax m n := by
  rw [← UInt32.toNat_inj, toNat_rawMax, toNat_rawMax]
  omega

/-- Data has been sent, and the forward-most number may have been raised to `a`. -/
structure Moved (a : UInt32) (s s' : TcpSocketBase γ) : Prop where
  marked : s'.Marked
  sackEnabled : s'.sackEnabled = s.sackEnabled
  fackEnabled : s'.fackEnabled = s.fackEnabled
  highRxAckMark : s'.highRxAckMark = s.highRxAckMark
  sndFack : s'.sndFack = s.sndFack ∨ s'.sndFack = rawMax s.sndFack a
  head : s'.txBuffer.firstByteSeq = s.txBuffer.firstByteSeq
  size : s'.txBuffer.size = s.txBuffer.size
  highTxMark : offset s.txBuffer.firstByteSeq s.highTxMark ≤
    offset s.txBuffer.firstByteSeq s'.highTxMark

/-- From a state whose highest number is right, data may be sent and the forward-most number
raised to `a`. -/
def Marks (a : UInt32) (s s' : TcpSocketBase γ) : Prop :=
  s.Marked → Moved a s s'

theorem Marks.of_eq (hsack : s'.sackEnabled = s.sackEnabled)
    (hfack : s'.fackEnabled = s.fackEnabled)
    (hack : s'.highRxAckMark = s.highRxAckMark)
    (hforward : s'.sndFack = s.sndFack ∨ s'.sndFack = rawMax s.sndFack a)
    (hbuffer : s'.txBuffer = s.txBuffer) (hmark : s'.highTxMark = s.highTxMark) :
    Marks a s s' := by
  intro h
  refine ⟨⟨hbuffer ▸ h.stream, hbuffer ▸ h.small, ?_⟩, hsack, hfack, hack, hforward,
    congrArg _ hbuffer, congrArg _ hbuffer, by rw [hmark]⟩
  rw [hbuffer, hmark]
  exact h.mark

theorem Marks.refl (s : TcpSocketBase γ) : Marks a s s :=
  .of_eq rfl rfl rfl (.inl rfl) rfl rfl

theorem Marks.trans (h : Marks a s s') (h' : Marks a s' s'') : Marks a s s'' := by
  intro hs
  have hfirst := h hs
  have hsecond := h' hfirst.marked
  refine ⟨hsecond.marked, hsecond.sackEnabled.trans hfirst.sackEnabled,
    hsecond.fackEnabled.trans hfirst.fackEnabled, hsecond.highRxAckMark.trans hfirst.highRxAckMark,
    ?_, hsecond.head.trans hfirst.head, hsecond.size.trans hfirst.size,
    hfirst.highTxMark.trans ?_⟩
  · rcases hfirst.sndFack with heq | heq <;> rcases hsecond.sndFack with heq' | heq' <;>
      rw [heq', heq]
    · exact .inl rfl
    · exact .inr rfl
    · exact .inr rfl
    · exact .inr (rawMax_rawMax_self _ _)
  · rw [← hfirst.head]
    exact hsecond.highTxMark

theorem Marks.of_withBuffer {b : TcpTxBuffer}
    (hb : StreamInv s.txBuffer → SameBuffer s.txBuffer b) : Marks a s (s.withBuffer b) := by
  intro h
  have hsame := hb h.stream
  have hsize := SameBuffer.size h.stream hsame
  refine ⟨⟨hsame.inv, hsame.maxBuffer.symm ▸ h.small, ?_⟩, rfl, rfl, rfl, .inl rfl, hsame.head,
    hsize, le_rfl⟩
  change offset b.firstByteSeq s.highTxMark ≤ b.size.toNat
  rw [hsame.head, hsize]
  exact h.mark

theorem Marks.of_invoke (call : ControlCall) : Marks a s (s.invoke ops call) :=
  .of_eq rfl rfl rfl (.inl rfl) rfl rfl

theorem Marks.of_invokeIf (p : Prop) [Decidable p] (call : ControlCall) :
    Marks a s (s.invokeIf ops p call) := by
  unfold invokeIf
  split
  · exact .of_invoke call
  · exact .refl s

theorem Marks.of_withWindows (cWnd cWndInfl ssThresh : UInt32) :
    Marks a s (s.withWindows cWnd cWndInfl ssThresh) :=
  .of_eq rfl rfl rfl (.inl rfl) rfl rfl

theorem Marks.of_withCongState (state : CongState) : Marks a s (s.withCongState state) :=
  .of_eq rfl rfl rfl (.inl rfl) rfl rfl

theorem Marks.of_withDupAckCount (count : UInt32) : Marks a s (s.withDupAckCount count) :=
  .of_eq rfl rfl rfl (.inl rfl) rfl rfl

theorem Marks.of_withNext (next : SequenceNumber32) : Marks a s (s.withNext next) :=
  .of_eq rfl rfl rfl (.inl rfl) rfl rfl

theorem Marks.of_withFirstPartialAck (isFirst : Bool) :
    Marks a s (s.withFirstPartialAck isFirst) :=
  .of_eq rfl rfl rfl (.inl rfl) rfl rfl

theorem Marks.of_check (p : Prop) [Decidable p] : Marks a s (s.check p) :=
  .of_eq rfl rfl rfl (.inl rfl) rfl rfl

theorem Marks.of_sendEmptyPacket : Marks a s s.sendEmptyPacket :=
  .of_eq rfl rfl rfl (.inl rfl) rfl rfl

theorem sndFack_newAck (resetRTO : Bool) (hfack : s.fackEnabled = true) :
    (s.newAck ack resetRTO).sndFack = rawMax s.sndFack ack.value := by
  change (if s.fackEnabled = true ∧ s.sndFack < ack.value then ack.value else s.sndFack) = _
  unfold rawMax
  rw [hfack]
  exact if_congr (and_iff_right rfl) rfl rfl

theorem Marks.of_newAck (resetRTO : Bool) : Marks ack.value s (s.newAck ack resetRTO) := by
  refine .of_eq rfl rfl rfl ?_ rfl rfl
  cases hfack : s.fackEnabled with
  | true => exact .inr (sndFack_newAck resetRTO hfack)
  | false =>
    left
    change (if s.fackEnabled = true ∧ s.sndFack < ack.value then ack.value else s.sndFack) = _
    exact if_neg fun h => absurd (hfack.symm.trans h.1) (by decide)

/-! ## Transmission -/

theorem Marks.of_sendCwr (isRetransmission : Bool) :
    Marks a s (s.sendCwr seq isRetransmission) := by
  unfold sendCwr
  split
  · exact .of_eq rfl rfl rfl (.inl rfl) rfl rfl
  · exact .refl s

/-- The mark is raised to a number of the buffer. -/
theorem Marks.of_raiseHighTxMark {mark : SequenceNumber32}
    (hmark : offset s.txBuffer.firstByteSeq mark ≤ s.txBuffer.size.toNat) :
    Marks a s (s.raiseHighTxMark mark) := by
  intro h
  have hsize := h.size_lt
  have hold := h.mark
  refine ⟨⟨h.stream, h.small, ?_⟩, rfl, rfl, rfl, .inl rfl, rfl, rfl, ?_⟩
  · change offset s.txBuffer.firstByteSeq (if mark < s.highTxMark then s.highTxMark else mark) ≤ _
    split
    · exact hold
    · exact hmark
  · change _ ≤ offset s.txBuffer.firstByteSeq (if mark < s.highTxMark then s.highTxMark else mark)
    split
    · exact le_rfl
    next hnot =>
      rw [not_lt, le_iff (w := s.txBuffer.firstByteSeq) (by omega) (by omega)] at hnot
      exact hnot

theorem sendDataPacket_marks (hsend : s.sendDataPacket ops now seq n = some (sz, s')) :
    Marks a s s' := by
  unfold sendDataPacket at hsend
  split at hsend
  next item b hcopy =>
    obtain ⟨rfl, rfl⟩ := Prod.mk.inj (Option.some.inj hsend)
    intro h
    have hend := h.stream.offset_of_copy hcopy
    have hcopied : Marks a s (s.withBuffer b) := .of_withBuffer fun h => h.copyFromSequence hcopy
    have hstarted : Marks a (s.withBuffer b) (s.withBuffer b).startReTxTimer :=
      .of_eq rfl rfl rfl (.inl rfl) rfl rfl
    let noted := ((s.withBuffer b).startReTxTimer.sendCwr seq item.retrans).updateRttHistory now
      seq item.size item.retrans
    have hnoted : Marks a s noted :=
      ((hcopied.trans hstarted).trans (.of_sendCwr _)).trans
        (.of_eq rfl rfl rfl (.inl rfl) rfl rfl)
    have hsent : Marks a s (noted.invokeIf ops
        (noted.congState = .caRecovery ∨ noted.congState = .caCwr)
        (.updateBytesSent item.size)) := hnoted.trans (.of_invokeIf _ _)
    refine hsent.trans (.of_raiseHighTxMark ?_) h
    have hsize := h.size_lt
    rw [(hsent h).head, (hsent h).size, offset_add (by omega)]
    exact hend
  next => cases hsend

theorem doRetransmit_marks (hsend : s.doRetransmit ops now = some s') : Marks a s s' := by
  obtain ⟨⟨sz, s''⟩, hpacket, rfl⟩ := Option.map_eq_some_iff.1 hsend
  exact (Marks.of_withNext _).trans (sendDataPacket_marks hpacket)

theorem sendPendingData_marks (hsend : s.sendPendingData ops now = some s') : Marks a s s' := by
  unfold sendPendingData at hsend
  split at hsend
  · cases hsend
    exact .refl s
  · split at hsend
    next =>
      cases hsend
      exact .refl s
    next next nextHigh hseg =>
      dsimp only at hsend
      split at hsend
      · cases hsend
        exact .refl s
      · obtain ⟨⟨sz, s''⟩, hpacket, rfl⟩ := Option.map_eq_some_iff.1 hsend
        have hbefore : Marks a s ((s.withNext next).invokeIf ops (s.txBuffer.bytesInFlight = 0)
            (.cwndEvent .txStart)) := (Marks.of_withNext next).trans (.of_invokeIf _ _)
        exact (hbefore.trans (sendDataPacket_marks hpacket)).trans (.of_withNext _)

theorem persistTimeout_marks (hprobe : s.persistTimeout now = some s') : Marks a s s' := by
  unfold persistTimeout at hprobe
  split at hprobe
  next item b hcopy =>
    cases hprobe
    refine .of_withBuffer fun h => ?_
    have hcopied := h.copyFromSequence hcopy
    exact hcopied.trans hcopied.inv.resetLastSegmentSent
  next => cases hprobe

theorem reTxTimeout_marks (hgo : s.reTxTimeout ops = some s') : Marks a s s' := by
  unfold reTxTimeout at hgo
  split_ifs at hgo with hempty hretries
  · cases hgo
    exact .of_eq rfl rfl rfl (.inl rfl) rfl rfl
  · let b := (if s.sackEnabled then s.txBuffer else s.txBuffer.resetRenoSack).setSentListLost
      (!s.sackEnabled)
    have hlost : Marks a s (s.withBuffer b) := by
      refine .of_withBuffer fun h => ?_
      dsimp only [b]
      split
      · exact h.setSentListLost _
      · exact h.resetRenoSack.trans (h.resetRenoSack.inv.setSentListLost _)
    cases hgo
    exact hlost.trans (.of_eq rfl rfl rfl (.inl rfl) rfl rfl)

/-! ## Duplicate acknowledgments -/

theorem addRenoSack_marks (hadd : s.addRenoSack = some s') : Marks a s s' := by
  obtain ⟨b, hreno, rfl⟩ := Option.map_eq_some_iff.1 hadd
  exact .of_withBuffer fun h => h.addRenoSack hreno

theorem enterRecovery_marks (henter : s.enterRecovery ops now d = some s') : Marks a s s' := by
  obtain ⟨b, hlose, hsend⟩ := Option.bind_eq_some_iff.1 henter
  obtain ⟨⟨sz, s''⟩, hpacket, rfl⟩ := Option.map_eq_some_iff.1 hsend
  have hbuffer : Marks a s (s.withBuffer b) := .of_withBuffer (sameBuffer_loseHead hlose)
  have hbegun : Marks a (s.withBuffer b)
      (((s.check (s.congState ≠ .caRecovery)).withBuffer b).beginRecovery ops) :=
    .of_eq rfl rfl rfl (.inl rfl) rfl rfl
  exact ((((hbuffer.trans hbegun).trans (.of_withWindows _ _ _)).trans (.of_invokeIf _ _)).trans
    (sendDataPacket_marks hpacket)).trans (.of_check _)

theorem dupAckDisorder_marks (hdup : s.dupAckDisorder ops now d = some s') : Marks a s s' := by
  unfold dupAckDisorder at hdup
  dsimp only at hdup
  refine (Marks.of_check (s.dupAckCount ≤ s.retxThresh ∨ s.recoverActive = true)).trans ?_
  split_ifs at hdup
  · exact enterRecovery_marks hdup
  · exact enterRecovery_marks hdup
  · exact addRenoSack_marks hdup
  · cases hdup
    exact .refl _

theorem dupAck_marks (hdup : s.dupAck ops now d = some s') : Marks a s s' := by
  unfold dupAck at hdup
  split at hdup
  · cases hdup
    exact .refl s
  · obtain ⟨s₁, hreno, rfl⟩ := Option.map_eq_some_iff.1 hdup
    have hadded : Marks a s s₁ := by
      split at hreno
      · cases hreno
        exact .refl s
      · exact addRenoSack_marks hreno
    exact hadded.trans (.of_invokeIf _ _)
  · cases hdup
    exact .of_withDupAckCount _
  · exact (Marks.of_withDupAckCount _).trans (dupAckDisorder_marks hdup)
  · exact ((((Marks.of_withDupAckCount _).trans (.of_check _)).trans (.of_invoke _)).trans
      (.of_withCongState _)).trans (dupAckDisorder_marks hdup)

/-! ## Acknowledgments of new data -/

theorem retransmitNext_marks {bytesAcked : UInt32}
    (hsend : s.retransmitNext ops now ack bytesAcked = some s') : Marks a s s' := by
  unfold retransmitNext at hsend
  split at hsend
  · cases hsend
    exact .refl s
  · obtain ⟨s'', hretransmit, rfl⟩ := Option.map_eq_some_iff.1 hsend
    exact (doRetransmit_marks hretransmit).trans (.of_withWindows _ _ _)

variable {isDupack : Bool} {segsAcked bytesAcked oldDupAckCount : UInt32}

theorem partialAck_marks
    (hpart : s.partialAck ops now ack segsAcked bytesAcked d = some s') :
    Marks ack.value s s' := by
  obtain ⟨s'', hsend, rfl⟩ := Option.map_eq_some_iff.1 hpart
  have hbuffer : Marks ack.value s (s.withBuffer
      (if s.sackEnabled then s.txBuffer else s.txBuffer.markHeadAsLost)) := by
    refine .of_withBuffer fun h => ?_
    split
    · exact .refl h
    · exact h.markHeadAsLost
  have hsent := (hbuffer.trans (.of_invokeIf _ _)).trans (retransmitNext_marks hsend)
  exact ((hsent.trans (.of_invoke _)).trans (.of_newAck _)).trans (.of_withFirstPartialAck _)

theorem leaveCongState_marks :
    Marks a s (s.leaveCongState ops ack old isDupack segsAcked oldDupAckCount).2 := by
  unfold leaveCongState
  split
  · exact .of_invoke _
  · dsimp only
    split
    · exact .of_invokeIf _ _
    · exact ((Marks.of_invokeIf _ _).trans (.of_invoke _)).trans (.of_withCongState _)
  · exact (((((Marks.of_withFirstPartialAck _).trans (.of_invoke _)).trans (.of_invoke _)).trans
      (.of_invoke _)).trans (.of_withCongState _)).trans (.of_withDupAckCount _)
  · exact (((Marks.of_withFirstPartialAck _).trans (.of_invoke _)).trans (.of_invoke _)).trans
      (.of_withCongState _)
  · exact .refl s

theorem exitFastRecovery_marks : Marks ack.value s (s.exitFastRecovery ops ack) :=
  ((Marks.of_newAck true).trans (.of_withWindows _ _ _)).trans (.of_invoke _)

theorem growWindow_marks : Marks ack.value s (s.growWindow ops ack n) :=
  ((Marks.of_invoke _).trans (.of_withWindows _ _ _)).trans (.of_newAck true)

theorem completeAck_marks :
    Marks ack.value s (s.completeAck ops ack old isDupack segsAcked oldDupAckCount) := by
  have hcleared : Marks ack.value s
      ((s.leaveCongState ops ack old isDupack segsAcked oldDupAckCount).2.clearRecover ack) :=
    leaveCongState_marks.trans (.of_eq rfl rfl rfl (.inl rfl) rfl rfl)
  unfold completeAck
  dsimp only
  split_ifs
  · exact (hcleared.trans exitFastRecovery_marks).trans growWindow_marks
  · exact hcleared.trans exitFastRecovery_marks
  · exact hcleared.trans growWindow_marks
  · exact hcleared

theorem processNewData_marks (hnew : s.processNewData ops now ack old isDupack d segsAcked
    bytesAcked oldDupAckCount = some s') : Marks ack.value s s' := by
  unfold processNewData at hnew
  split_ifs at hnew
  · exact partialAck_marks hnew
  · cases hnew
    exact ((Marks.of_invoke _).trans (.of_invoke _)).trans (.of_newAck true)
  · cases hnew
    exact ((Marks.of_invoke _).trans (.of_invokeIf _ _)).trans (.of_newAck true)
  · cases hnew
    exact completeAck_marks

theorem countAcked_marks : Marks a s (s.countAcked d isDupack).2.2 :=
  .of_eq rfl rfl rfl (.inl rfl) rfl rfl

theorem processNumber_marks
    (hnumber : s.processNumber ops now ack old isDupack d oldDupAckCount = some s') :
    Marks ack.value s s' := by
  unfold processNumber at hnumber
  split_ifs at hnumber
  · cases hnumber
    exact .refl s
  · cases hnumber
    exact .of_withNext ack
  · cases hnumber
    exact .of_invoke _
  · exact countAcked_marks.trans (processNewData_marks hnumber)
  · cases hnumber
    exact .refl s

theorem processAck_marks {updated received : Bool}
    (hack : s.processAck ops now ack updated d old received = some s') :
    Marks ack.value s s' := by
  unfold processAck at hack
  dsimp only at hack
  have hnoted : Marks ack.value s { s with lastAckedSeq := ack } :=
    .of_eq rfl rfl rfl (.inl rfl) rfl rfl
  obtain ⟨s₁, hdup, hnumber⟩ := Option.bind_eq_some_iff.1 hack
  refine hnoted.trans (Marks.trans ?_ (processNumber_marks hnumber))
  split at hdup
  · exact dupAck_marks hdup
  · cases hdup
    exact .refl _

theorem leaveCwr_marks : Marks a s (s.leaveCwr ops ack) := by
  unfold leaveCwr
  dsimp only
  split_ifs
  · exact .of_withCongState _
  · exact (((Marks.of_withCongState _).trans (.of_withWindows _ _ _)).trans (.of_invoke _)).trans
      (.of_invoke _)
  · exact .refl s

theorem enterCwr_marks : Marks a s (s.enterCwr ops d) := by
  have hbegun : Marks a s (((s.withWindows s.cWnd (ops.getSsThresh s s.txBuffer.bytesInFlight)
      (ops.getSsThresh s s.txBuffer.bytesInFlight)).check (s.congState ≠ .caCwr)).beginCwr) :=
    .of_eq rfl rfl rfl (.inl rfl) rfl rfl
  exact hbegun.trans (.of_invokeIf _ _)

theorem processEce_marks {ece : Bool} : Marks a s (s.processEce ops ack old ece d) := by
  have hnoted : Marks a s (s.noteEcho ack) := .of_eq rfl rfl rfl (.inl rfl) rfl rfl
  unfold processEce
  split_ifs
  · exact hnoted.trans enterCwr_marks
  · exact hnoted
  · exact .refl s
  · exact .of_eq rfl rfl rfl (.inl rfl) rfl rfl
  · exact .refl s

theorem receivedData_marks : Marks a s (s.receivedData ops seg) := by
  unfold receivedData
  split_ifs
  · exact .refl s
  · exact (Marks.of_invoke _).trans .of_sendEmptyPacket
  · exact .of_invoke _

theorem finishAck_marks : Marks a s (s.finishAck ops seg) := by
  have hflag : Marks a s { s with isRetransDataAcked := false } :=
    .of_eq rfl rfl rfl (.inl rfl) rfl rfl
  exact (hflag.trans (.of_invokeIf _ _)).trans receivedData_marks

/-! ## A segment -/

theorem Marked.of_sameBuffer {b : TcpTxBuffer} (h : s.Marked)
    (hsame : SameBuffer s.txBuffer b) : (s.withBuffer b).Marked :=
  (@Marks.of_withBuffer γ s 0 b (fun _ => hsame) h).marked

/-- Of two acceptable numbers, the one acknowledged is not above the highest one sent. -/
theorem Marked.offset_ack (h : s.Marked) (hold : ¬ ack < s.txBuffer.firstByteSeq)
    (hunsent : ¬ s.highTxMark < ack) :
    offset s.txBuffer.firstByteSeq ack ≤ offset s.txBuffer.firstByteSeq s.highTxMark :=
  offset_le_of_between (h.mark.trans_lt h.size_lt) hold hunsent

/-- The head moves to the number acknowledged, with the data before it. -/
theorem Marked.discard {b : TcpTxBuffer} (h : s.Marked) (hold : ¬ ack < s.txBuffer.firstByteSeq)
    (hunsent : ¬ s.highTxMark < ack) (hdiscard : s.txBuffer.discardUpTo now ack = some b) :
    (s.withBuffer b).Marked ∧ b.firstByteSeq = ack ∧
      b.size.toNat = s.txBuffer.size.toNat - offset s.txBuffer.firstByteSeq ack := by
  have hle := h.offset_ack hold hunsent
  obtain ⟨hstream, hhead⟩ := head_of_discardUpTo h.stream hold hdiscard
  by_cases hnew : ack ≤ s.txBuffer.firstByteSeq
  · unfold TcpTxBuffer.discardUpTo at hdiscard
    rw [if_pos hnew] at hdiscard
    cases hdiscard
    refine ⟨h, hhead, ?_⟩
    rw [hhead, offset_self, Nat.sub_zero]
  · obtain ⟨-, hbytes, hmax, -⟩ := h.stream.discardUpTo hnew hdiscard
    have hsize : b.size.toNat =
        s.txBuffer.size.toNat - offset s.txBuffer.firstByteSeq ack := by
      rw [hstream.length_bytes, hbytes, List.length_drop, ← h.stream.length_bytes]
      rfl
    have hoffset : offset ack s.highTxMark = offset s.txBuffer.firstByteSeq s.highTxMark -
        offset s.txBuffer.firstByteSeq ack := toNat_sub_of_offset_le hle
    refine ⟨⟨hstream, hmax.symm ▸ h.small, ?_⟩, hhead, hsize⟩
    change offset b.firstByteSeq s.highTxMark ≤ b.size.toNat
    rw [hhead, hoffset, hsize]
    exact Nat.sub_le_sub_right h.mark _

/-- The head has moved to `ack`, and data may have been sent. -/
structure Acked (ack : SequenceNumber32) (s s' : TcpSocketBase γ) : Prop where
  marked : s'.Marked
  head : s'.txBuffer.firstByteSeq = ack
  sackEnabled : s'.sackEnabled = s.sackEnabled
  fackEnabled : s'.fackEnabled = s.fackEnabled
  highRxAckMark : s'.highRxAckMark = s.highRxAckMark
  sndFack : s'.sndFack = s.sndFack ∨ s'.sndFack = rawMax s.sndFack ack.value
  highTxMark : offset ack s.highTxMark ≤ offset ack s'.highTxMark
  size : s'.txBuffer.size.toNat =
    s.txBuffer.size.toNat - offset s.txBuffer.firstByteSeq ack

theorem Acked.of_moved {b : TcpTxBuffer} (hhead : b.firstByteSeq = ack)
    (hsize : b.size.toNat = s.txBuffer.size.toNat - offset s.txBuffer.firstByteSeq ack)
    (hm : Moved ack.value (s.withBuffer b) s') : Acked ack s s' where
  size := (congrArg UInt32.toNat hm.size).trans hsize
  marked := hm.marked
  head := hm.head.trans hhead
  sackEnabled := hm.sackEnabled
  fackEnabled := hm.fackEnabled
  highRxAckMark := hm.highRxAckMark
  sndFack := hm.sndFack
  highTxMark := by
    have hraised := hm.highTxMark
    change offset b.firstByteSeq s.highTxMark ≤ offset b.firstByteSeq s'.highTxMark at hraised
    rwa [hhead] at hraised

theorem Acked.trans (h : Acked ack s s') (hm : Moved ack.value s' s'') : Acked ack s s'' where
  size := (congrArg UInt32.toNat hm.size).trans h.size
  marked := hm.marked
  head := hm.head.trans h.head
  sackEnabled := hm.sackEnabled.trans h.sackEnabled
  fackEnabled := hm.fackEnabled.trans h.fackEnabled
  highRxAckMark := hm.highRxAckMark.trans h.highRxAckMark
  sndFack := by
    rcases h.sndFack with heq | heq <;> rcases hm.sndFack with heq' | heq' <;> rw [heq', heq]
    · exact .inl rfl
    · exact .inr rfl
    · exact .inr rfl
    · exact .inr (rawMax_rawMax_self _ _)
  highTxMark := by
    refine h.highTxMark.trans ?_
    rw [← h.head]
    exact hm.highTxMark

theorem acknowledge_acked (h : s.Marked) (hold : ¬ seg.ackNumber < s.txBuffer.firstByteSeq)
    (hunsent : ¬ s.highTxMark < seg.ackNumber)
    (hgo : s.acknowledge ops now seg d = some s') : Acked seg.ackNumber s s' := by
  obtain ⟨b, hdiscard, rfl⟩ := Option.map_eq_some_iff.1 hgo
  obtain ⟨hmarked, hhead, hsize⟩ := h.discard hold hunsent hdiscard
  have hcounted : Marks seg.ackNumber.value (s.withBuffer b) ((s.withBuffer b).withDelivered d) :=
    .of_eq rfl rfl rfl (.inl rfl) rfl rfl
  exact .of_moved hhead hsize (((hcounted.trans leaveCwr_marks).trans processEce_marks) hmarked)

/-- The options leave the highest number as it is. -/
theorem readOptions_marked (h : s.Marked) (hread : readOptions seg.sacks 0 s = some (n, s')) :
    s'.Marked ∧ s'.txBuffer.firstByteSeq = s.txBuffer.firstByteSeq ∧
      s'.highTxMark = s.highTxMark := by
  have hsame := (readOptions_same hread).buffer h.stream
  obtain ⟨-, fack, b, rfl⟩ := readOptions_eq hread
  have hmarked := h.of_sameBuffer hsame
  exact ⟨⟨hmarked.stream, hmarked.small, hmarked.mark⟩, hsame.head, rfl⟩

theorem findRetransDataAcked_marks : Marks a s (s.findRetransDataAcked ack) := by
  unfold findRetransDataAcked
  split
  · exact .of_eq rfl rfl rfl (.inl rfl) rfl rfl
  · exact .refl s

theorem Acked.of_searched {number : SequenceNumber32}
    (h : Acked ack (s.findRetransDataAcked number) s') : Acked ack s s' := by
  obtain ⟨found, heq⟩ := @findRetransDataAcked_eq γ s number
  rw [heq] at h
  exact ⟨h.marked, h.head, h.sackEnabled, h.fackEnabled, h.highRxAckMark, h.sndFack, h.highTxMark,
    h.size⟩

theorem highTxMark_findRetransDataAcked :
    (s.findRetransDataAcked ack).highTxMark = s.highTxMark := by
  unfold findRetransDataAcked
  split <;> rfl

/-- An acknowledgment, from the options to the end of `ReceivedAck`. -/
theorem receivedAck_acked (h : s.Marked) (hold : ¬ seg.ackNumber < s.txBuffer.firstByteSeq)
    (hunsent : ¬ s.highTxMark < seg.ackNumber) (hgo : s.receivedAck ops now seg d = some s') :
    ∃ reported s₁ s₂ s₃, readOptions seg.sacks 0 s = some (reported, s₁) ∧
      Acked seg.ackNumber s₁ s₂ ∧
      s₂.processAck ops now seg.ackNumber (decide (0 < reported)) d s.txBuffer.firstByteSeq
        (decide (0 < seg.size)) = some s₃ ∧ s' = s₃.finishAck ops seg := by
  obtain ⟨⟨reported, s₁⟩, hread, hgo⟩ := Option.bind_eq_some_iff.1 hgo
  obtain ⟨hmarked, hhead, hhigh⟩ := readOptions_marked h hread
  dsimp only at hgo
  rw [hhead, if_neg hold] at hgo
  obtain ⟨s₂, hacknowledge, hgo⟩ := Option.bind_eq_some_iff.1 hgo
  obtain ⟨s₃, hprocess, rfl⟩ := Option.map_eq_some_iff.1 hgo
  have hsearched : Moved 0 s₁ (s₁.findRetransDataAcked seg.ackNumber) :=
    findRetransDataAcked_marks hmarked
  have hacked := acknowledge_acked hsearched.marked (by rwa [hsearched.head, hhead])
    (by rwa [highTxMark_findRetransDataAcked, hhigh]) hacknowledge
  exact ⟨reported, s₁, s₂, s₃, hread, hacked.of_searched, hprocess, rfl⟩

theorem receiveCodepoint_marks {ce : Bool} : Marks a s (s.receiveCodepoint ops ce) := by
  unfold receiveCodepoint
  split
  · refine Marks.trans ?_ (.of_invoke _)
    exact .of_eq rfl rfl rfl (.inl rfl) rfl rfl
  · exact .of_invokeIf _ _

theorem endPersist_marks : Marks a s s.endPersist := by
  unfold endPersist
  split
  · exact .of_eq rfl rfl rfl (.inl rfl) rfl rfl
  · exact .refl s

theorem Marked.of_kept (h : s.Marked) (hkept : Kept s s') : s'.Marked := by
  refine ⟨hkept.txBuffer ▸ h.stream, hkept.txBuffer ▸ h.small, ?_⟩
  rw [hkept.txBuffer, hkept.highTxMark]
  exact h.mark

/-- Data that is added comes after the highest number sent. -/
theorem Marked.send (h : s.Marked) {p : Packet} (hp : p.length < 2 ^ 32) :
    ({ s with txBuffer := (s.txBuffer.add p).2 } : TcpSocketBase γ).Marked := by
  have hrefines : Refines s.txBuffer
      ⟨s.txBuffer.maxBuffer.toNat, s.txBuffer.firstByteSeq, s.txBuffer.bytes, 0⟩ :=
    ⟨h.stream, rfl, rfl, rfl, Nat.zero_le _⟩
  have hadded := hrefines.add hp
  have hmax : (s.txBuffer.add p).2.maxBuffer.toNat = s.txBuffer.maxBuffer.toNat := by
    rw [hadded.capacity]
    unfold ByteStream.add
    split <;> rfl
  have hsize : s.txBuffer.size.toNat ≤ (s.txBuffer.add p).2.size.toNat := by
    rw [hadded.inv.length_bytes, h.stream.length_bytes, hadded.bytes]
    unfold ByteStream.add ByteStream.bytes
    split
    · rw [List.drop_zero, List.length_append]
      exact Nat.le_add_right _ _
    · rw [List.drop_zero]
  refine ⟨hadded.inv, hmax.symm ▸ h.small, ?_⟩
  change offset (s.txBuffer.add p).2.firstByteSeq s.highTxMark ≤ (s.txBuffer.add p).2.size.toNat
  rw [firstByteSeq_add]
  exact h.mark.trans hsize

end TcpSocketBase

end Ns3Pedca
