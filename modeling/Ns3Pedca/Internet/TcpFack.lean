import Ns3Pedca.Internet.TcpHighTxMark

/-!
# Forward acknowledgment

With FACK the socket estimates the data in the network from `m_sndFack`, the forward-most number
that the receiver is known to hold. `Observed` is a socket together with that number : the
greatest, in sequence order, of the heads and the right edges of the SACK blocks so far.

`m_sndFack` is a plain integer, which begins at 0, and is compared as one. It is the forward-most
number once that has left the first number of the connection, in every run in which the numbers
that are sent do not wrap and the acknowledgments are fair (`sndFack_of_run`). Where they wrap it
stays behind, and the window is closed for good.
-/

namespace Ns3Pedca

open Runs SequenceNumber32 TcpTxBuffer

/-- The later of two numbers. -/
def later (a b : SequenceNumber32) : SequenceNumber32 :=
  if a < b then b else a

/-- The right edges of the SACK blocks of a segment. -/
def rightEdges (seg : AckSegment) : List SequenceNumber32 :=
  seg.sacks.flatten.map Prod.snd

/-- A number is not above another one, with no wrap between them. -/
def Behind (high e : SequenceNumber32) : Prop :=
  e.value ≤ high.value ∧ (high.value - e.value).toNat < 2 ^ 31

instance (high e : SequenceNumber32) : Decidable (Behind high e) :=
  instDecidableAnd

namespace TcpSocketBase

variable {γ : Type} {ops : CongestionOps γ} {s s' : TcpSocketBase γ} {now : ℕ}
  {f high e ack start : SequenceNumber32} {n m k d : UInt32} {seg : AckSegment}
  {edges : List SequenceNumber32}

/-! ## The two comparisons -/

/-- What `ProcessOptionSack` makes of the right edges. -/
def rawFold (edges : List SequenceNumber32) (m : UInt32) : UInt32 :=
  edges.foldl (fun m e => rawMax m e.value) m

theorem rawFold_cons : rawFold (e :: edges) m = rawFold edges (rawMax m e.value) :=
  rfl

theorem le_rawFold : ∀ (edges : List SequenceNumber32) (m : UInt32),
    m.toNat ≤ (rawFold edges m).toNat
  | [], _ => le_rfl
  | e :: edges, m => by
    refine le_trans ?_ (le_rawFold edges (rawMax m e.value))
    rw [toNat_rawMax]
    exact le_max_left _ _

theorem le_rawFold_of_mem : ∀ {edges : List SequenceNumber32} {m : UInt32}, e ∈ edges →
    e.value.toNat ≤ (rawFold edges m).toNat
  | [], _, h => absurd h List.not_mem_nil
  | e' :: edges, m, h => by
    rcases List.mem_cons.1 h with rfl | hmem
    · refine le_trans ?_ (le_rawFold edges (rawMax m e.value))
      rw [toNat_rawMax]
      exact le_max_right _ _
    · rw [rawFold_cons]
      exact le_rawFold_of_mem hmem

theorem rawFold_rawMax : ∀ (edges : List SequenceNumber32) (m k : UInt32),
    rawFold edges (rawMax m k) = rawMax (rawFold edges m) k
  | [], _, _ => rfl
  | e :: edges, m, k => by
    have hswap : rawMax (rawMax m k) e.value = rawMax (rawMax m e.value) k := by
      rw [← UInt32.toNat_inj]
      simp only [toNat_rawMax]
      omega
    rw [rawFold_cons, rawFold_cons, hswap, rawFold_rawMax edges]

theorem toNat_sub_of_behind (h : Behind high e) :
    e.value.toNat ≤ high.value.toNat ∧ high.value.toNat - e.value.toNat < 2 ^ 31 := by
  have hle := UInt32.le_iff_toNat_le.1 h.1
  have hlt := h.2
  rw [UInt32.toNat_sub_of_le _ _ h.1] at hlt
  exact ⟨hle, hlt⟩

/-- Two numbers behind a third one are compared the same way as plain integers. -/
theorem lt_iff_of_behind (hf : Behind high f) (he : Behind high e) :
    f < e ↔ f.value < e.value := by
  obtain ⟨hfle, hflt⟩ := toNat_sub_of_behind hf
  obtain ⟨hele, helt⟩ := toNat_sub_of_behind he
  have hhigh := high.value.toNat_lt
  change SequenceNumber32.cmp f e = .lt ↔ _
  have hhalf : halfMaxValue.toNat = 2 ^ 31 - 1 := rfl
  unfold SequenceNumber32.cmp
  simp only [← UInt32.toNat_inj, UInt32.lt_iff_toNat_lt, UInt32.le_iff_toNat_le, UInt32.toNat_sub,
    hhalf]
  split_ifs <;> simp <;> omega

theorem value_later (hf : Behind high f) (he : Behind high e) :
    (later f e).value = rawMax f.value e.value := by
  unfold later rawMax
  rw [apply_ite SequenceNumber32.value]
  exact if_congr (lt_iff_of_behind hf he) rfl rfl

theorem behind_later (hf : Behind high f) (he : Behind high e) : Behind high (later f e) := by
  unfold later
  split
  · exact he
  · exact hf

/-- The latest of some edges is the greatest of their values. -/
theorem value_foldl_later : ∀ {edges : List SequenceNumber32} {f : SequenceNumber32},
    Behind high f → (∀ e ∈ edges, Behind high e) →
      (edges.foldl later f).value = rawFold edges f.value ∧ Behind high (edges.foldl later f)
  | [], _, hf, _ => ⟨rfl, hf⟩
  | e :: edges, f, hf, hedges => by
    obtain ⟨he, hrest⟩ := List.forall_mem_cons.1 hedges
    rw [List.foldl_cons, rawFold_cons, ← value_later hf he]
    exact value_foldl_later (behind_later hf he) hrest

/-- Edges that are behind the forward-most number do not move it. -/
theorem foldl_later_of_behind : ∀ {edges : List SequenceNumber32},
    (∀ e ∈ edges, Behind f e) → edges.foldl later f = f
  | [], _ => rfl
  | e :: edges, hedges => by
    obtain ⟨he, hrest⟩ := List.forall_mem_cons.1 hedges
    have hself : Behind f f := ⟨UInt32.le_refl _, by rw [UInt32.sub_self]; decide⟩
    have hlater : later f e = f := by
      refine if_neg fun hlt => ?_
      rw [lt_iff_of_behind hself he, UInt32.lt_iff_toNat_lt] at hlt
      exact absurd (toNat_sub_of_behind he).1 (not_le_of_gt hlt)
    rw [List.foldl_cons, hlater]
    exact foldl_later_of_behind hrest

theorem readOptions_sndFack :
    ∀ {sacks : List (List (SequenceNumber32 × SequenceNumber32))} {m : UInt32}
      {s : TcpSocketBase γ}, s.fackEnabled = true → readOptions sacks m s = some (n, s') →
        s'.sndFack = rawFold (sacks.flatten.map Prod.snd) s.sndFack
  | [], _, _, _, h => by
    cases h
    rfl
  | list :: sacks, _, s, hfack, h => by
    obtain ⟨⟨m, s₁⟩, hsack, hrest⟩ := Option.bind_eq_some_iff.1 h
    obtain ⟨⟨m', b⟩, hupdate, heq⟩ := Option.map_eq_some_iff.1 hsack
    obtain ⟨rfl, rfl⟩ := Prod.mk.inj heq
    have hfold := readOptions_sndFack (by exact hfack) hrest
    rw [hfold, List.flatten_cons, List.map_append, rawFold, rawFold,
      List.foldl_append, List.foldl_map (l := list)]
    dsimp only
    rw [if_pos hfack]
    rfl

/-- An acknowledgment of new data that is no duplicate raises `m_sndFack`. -/
theorem sndFack_processNewData {old : SequenceNumber32} {segsAcked bytesAcked count : UInt32}
    (h : s.Marked) (hfack : s.fackEnabled = true)
    (hnew : s.processNewData ops now ack old false d segsAcked bytesAcked count = some s') :
    s'.sndFack = rawMax s.sndFack ack.value := by
  have hraised {s₁ : TcpSocketBase γ} (hm : Moved ack.value s s₁) (resetRTO : Bool) :
      (s₁.newAck ack resetRTO).sndFack = rawMax s.sndFack ack.value := by
    rw [sndFack_newAck resetRTO (hm.fackEnabled.trans hfack)]
    rcases hm.sndFack with heq | heq <;> rw [heq]
    exact rawMax_rawMax_self _ _
  unfold processNewData at hnew
  split_ifs at hnew with hpart hloss hcwr
  · obtain ⟨s'', hsend, rfl⟩ := Option.map_eq_some_iff.1 hnew
    have hbuffer : Marks ack.value s (s.withBuffer
        (if s.sackEnabled then s.txBuffer else s.txBuffer.markHeadAsLost)) := by
      refine .of_withBuffer fun h => ?_
      split
      · exact .refl h
      · exact h.markHeadAsLost
    exact hraised ((((hbuffer.trans (.of_invokeIf _ _)).trans (retransmitNext_marks hsend)).trans
      (.of_invoke (.pktsAcked 1))) h) s''.isFirstPartialAck
  · cases hnew
    exact hraised (((Marks.of_invoke (.pktsAcked segsAcked)).trans
      (.of_invoke (.increaseWindow segsAcked))) h) _
  · cases hnew
    exact hraised (((Marks.of_invoke (.pktsAcked segsAcked)).trans (.of_invokeIf _ _)) h) _
  · cases hnew
    have hopen : (s.leaveCongState ops ack old false segsAcked count).2.congState = .caOpen := by
      unfold leaveCongState
      split
      next hstate => exact hstate
      next => rfl
      next => rfl
      next => rfl
      next hstate => exact absurd hstate hcwr
    have hcleared : Marks ack.value s
        ((s.leaveCongState ops ack old false segsAcked count).2.clearRecover ack) :=
      leaveCongState_marks.trans (.of_eq rfl rfl rfl (.inl rfl) rfl rfl)
    have hgrown {s₁ : TcpSocketBase γ} (hm : Marks ack.value s s₁) (n : UInt32) :
        (s₁.growWindow ops ack n).sndFack = rawMax s.sndFack ack.value :=
      hraised (((hm.trans (.of_invoke (.increaseWindow n))).trans (.of_withWindows _ _ _)) h) _
    unfold completeAck
    dsimp only
    split_ifs with hrecovery hleft hleft
    · exact hgrown (hcleared.trans exitFastRecovery_marks) _
    · exact absurd hopen hleft
    · exact hgrown hcleared _
    · exact absurd hopen hleft

/-- Unless the acknowledgment is at the head or reports new data, it raises `m_sndFack`. -/
theorem sndFack_processAck {old : SequenceNumber32} {received : Bool} (h : s.Marked)
    (hsack : s.sackEnabled = true) (hfack : s.fackEnabled = true) (hold : ¬ ack < old)
    (hne : ack ≠ old) (hack : s.processAck ops now ack false d old received = some s') :
    s'.sndFack = rawMax s.sndFack ack.value := by
  have hdup : s.isDupack ack old false received = false := by
    unfold isDupack
    rw [if_pos hsack]
  unfold processAck at hack
  rw [hdup] at hack
  obtain ⟨s₁, hstart, hnumber⟩ := Option.bind_eq_some_iff.1 hack
  cases hstart
  unfold processNumber at hnumber
  have hlt := lt_of_le_of_ne (SequenceNumber32.not_lt.1 hold) (Ne.symm hne)
  rw [if_neg fun heq => hne heq.1, if_neg fun heq => hne heq.1, if_neg hne, if_pos hlt] at hnumber
  have hcounted : Marked (countAcked d false { s with lastAckedSeq := ack }).2.2 :=
    ⟨h.stream, h.small, h.mark⟩
  have hraised := sndFack_processNewData hcounted (by exact hfack) hnumber
  exact hraised

end TcpSocketBase

/-! ## Runs -/

/-- A socket, and the forward-most number that the receiver is known to hold. -/
structure Observed (γ : Type) where
  socket : TcpSocketBase γ
  forward : SequenceNumber32

namespace Observed

open TcpSocketBase

variable {γ : Type} {ops : CongestionOps γ} {o o' : Observed γ} {s' : TcpSocketBase γ} {now : ℕ}
  {ack start : SequenceNumber32} {d : UInt32} {seg : AckSegment}

/-- The right edges that an event brings. -/
def edgesOf : TcpSocketBase.Event → List SequenceNumber32
  | .receive _ seg _ => rightEdges seg
  | _ => []

/-- One event, with the right edges that it brings and the head after it. -/
def observe (ops : CongestionOps γ) (o : Option (Observed γ)) (event : TcpSocketBase.Event) :
    Option (Observed γ) :=
  o.bind fun o => (o.socket.handle ops event).map fun s =>
    ⟨s, later ((edgesOf event).foldl later o.forward) s.txBuffer.firstByteSeq⟩

/-- A connection that has just been established. -/
def init (setup : Setup γ) : Observed γ :=
  ⟨established setup, setup.headSequence⟩

/-- What FACK counts. -/
structure Accounted (o : Observed γ) : Prop where
  sndFack : o.socket.sndFack = o.forward.value
  awnd : o.socket.fackAwnd = o.socket.highTxMark - o.forward + o.socket.txBuffer.retrans
  bound : o.socket.fackAwnd.toNat ≤
    o.socket.unAckDataCount.toNat + o.socket.txBuffer.retrans.toNat
  /-- With nothing outstanding, all of the window is available. -/
  idle : o.socket.unAckDataCount = 0 → o.socket.txBuffer.retrans = 0 →
    o.socket.txBuffer.bytesInFlight = 0 → o.socket.availableWindow = o.socket.window

/-- An acknowledgment is fair : what is outstanding does not wrap, no right edge is above the
highest number sent, and if new data is reported, some right edge is not below the number
acknowledged. -/
structure FairAck (o : Observed γ) (seg : AckSegment) : Prop where
  unbroken : o.socket.txBuffer.firstByteSeq.value ≤ o.socket.highTxMark.value
  edges : ∀ e ∈ rightEdges seg, Behind o.socket.highTxMark e
  reported : (∃ reported ∈ sackedBy seg.sacks 0 o.socket.txBuffer, 0 < reported) →
    ∃ e ∈ rightEdges seg, seg.ackNumber.value ≤ e.value

instance (o : Observed γ) (seg : AckSegment) : Decidable (o.FairAck seg) :=
  decidable_of_iff
    (o.socket.txBuffer.firstByteSeq.value ≤ o.socket.highTxMark.value ∧
      (∀ e ∈ rightEdges seg, Behind o.socket.highTxMark e) ∧
      ((∃ reported ∈ sackedBy seg.sacks 0 o.socket.txBuffer, 0 < reported) →
        ∃ e ∈ rightEdges seg, seg.ackNumber.value ≤ e.value))
    ⟨fun h => ⟨h.1, h.2.1, h.2.2⟩, fun h => ⟨h.1, h.2, h.3⟩⟩

/-- A segment that is processed is fair, and one that is not brings no edge above the forward-most
number. -/
def Fair (o : Option (Observed γ)) : TcpSocketBase.Event → Prop
  | .receive _ seg _ => ∀ x ∈ o, (x.socket.Accepts seg → x.FairAck seg) ∧
      (¬ x.socket.Accepts seg → ∀ e ∈ rightEdges seg, Behind x.forward e)
  | _ => True

instance (o : Option (Observed γ)) : (event : TcpSocketBase.Event) → Decidable (Fair o event)
  | .receive _ seg _ => inferInstanceAs (Decidable (∀ x ∈ o,
      (x.socket.Accepts seg → x.FairAck seg) ∧
        (¬ x.socket.Accepts seg → ∀ e ∈ rightEdges seg, Behind x.forward e)))
  | .receiveCodepoint _ | .outOfRange | .send .. | .sendPendingData _ | .reTxTimeout
  | .delAckTimeout | .persistTimeout _ => .isTrue trivial

/-- The forward-most number is `m_sndFack`, once it has left the first number, and lies between
the head and the highest number sent. -/
structure Inv (start : SequenceNumber32) (o : Observed γ) : Prop where
  marked : o.socket.Marked
  sackEnabled : o.socket.sackEnabled = true
  fackEnabled : o.socket.fackEnabled = true
  forward : o.forward.value = rawMax o.socket.sndFack start.value
  between : offset o.socket.txBuffer.firstByteSeq o.forward ≤
    offset o.socket.txBuffer.firstByteSeq o.socket.highTxMark

/-- The head is not beyond the forward-most number. -/
theorem Inv.later_head (h : Inv start o) :
    later o.forward o.socket.txBuffer.firstByteSeq = o.forward := by
  refine if_neg fun hlt => ?_
  have hsize := h.marked.size_lt
  have hmark := h.marked.mark
  have hbetween := h.between
  rw [lt_iff (w := o.socket.txBuffer.firstByteSeq) (by omega) (by rw [offset_self]; omega),
    offset_self] at hlt
  exact Nat.not_lt_zero _ hlt

theorem rawMax_zero (n : UInt32) : rawMax n 0 = n := by
  rw [← UInt32.toNat_inj, toNat_rawMax, UInt32.toNat_zero]
  omega

/-- An event that brings no edge, and moves no head. -/
theorem Inv.of_moved (h : Inv start o) (hm : Moved 0 o.socket s') :
    Inv start ⟨s', later o.forward s'.txBuffer.firstByteSeq⟩ := by
  have hlater : later o.forward s'.txBuffer.firstByteSeq = o.forward := hm.head ▸ h.later_head
  refine ⟨hm.marked, hm.sackEnabled.trans h.sackEnabled, hm.fackEnabled.trans h.fackEnabled, ?_, ?_⟩
  · have hsame : s'.sndFack = o.socket.sndFack := by
      rcases hm.sndFack with heq | heq
      · exact heq
      · rw [heq, rawMax_zero]
    change (later o.forward s'.txBuffer.firstByteSeq).value = rawMax s'.sndFack start.value
    rw [hlater, hsame]
    exact h.forward
  · change offset s'.txBuffer.firstByteSeq (later o.forward s'.txBuffer.firstByteSeq) ≤
      offset s'.txBuffer.firstByteSeq s'.highTxMark
    rw [hlater, hm.head]
    exact h.between.trans hm.highTxMark

theorem Inv.accounted (h : Inv start o) (hleft : o.forward ≠ start ∨ start.value = 0) :
    o.Accounted := by
  have hforward : o.socket.sndFack = o.forward.value := by
    have heq := h.forward
    rcases hleft with hne | hzero
    · have hvalue : o.forward.value ≠ start.value := fun heq => hne (ext_value heq)
      unfold rawMax at heq
      split at heq
      · exact absurd heq hvalue
      · exact heq.symm
    · rw [hzero, rawMax_zero] at heq
      exact heq.symm
  have hawnd : o.socket.fackAwnd =
      o.socket.highTxMark - o.forward + o.socket.txBuffer.retrans := by
    unfold fackAwnd
    rw [hforward, sub_def]
  have hbeyond : (o.socket.highTxMark - o.forward).toNat =
      offset o.socket.txBuffer.firstByteSeq o.socket.highTxMark -
        offset o.socket.txBuffer.firstByteSeq o.forward := toNat_sub_of_offset_le h.between
  have hunacked : o.socket.unAckDataCount.toNat =
      offset o.socket.txBuffer.firstByteSeq o.socket.highTxMark := rfl
  refine ⟨hforward, hawnd, ?_, fun hnone hretrans hflight => ?_⟩
  · rw [hawnd, hunacked, UInt32.toNat_add, hbeyond]
    refine (Nat.mod_le _ _).trans ?_
    omega
  · rw [hnone, UInt32.toNat_zero] at hunacked
    have hempty : o.socket.fackAwnd = 0 := by
      rw [hawnd, hretrans, ← UInt32.toNat_inj, UInt32.toNat_add, hbeyond, UInt32.toNat_zero]
      omega
    unfold availableWindow
    rw [hempty, hflight]
    grind

/-! ## A segment -/

theorem offset_of_le {w a : SequenceNumber32} (h : w.value ≤ a.value) :
    offset w a = a.value.toNat - w.value.toNat := by
  rw [offset, sub_def, UInt32.toNat_sub_of_le _ _ h]

/-- A number between the head and the highest number sent, where these do not wrap. -/
theorem behind_of_offset_le {s : TcpSocketBase γ} (h : s.Marked)
    (hle : s.txBuffer.firstByteSeq.value ≤ s.highTxMark.value) {e : SequenceNumber32}
    (he : offset s.txBuffer.firstByteSeq e ≤ offset s.txBuffer.firstByteSeq s.highTxMark) :
    Behind s.highTxMark e ∧ s.txBuffer.firstByteSeq.value.toNat ≤ e.value.toNat := by
  have hsize := h.size_lt
  have hmark := h.mark
  have hvalue := UInt32.le_iff_toNat_le.1 hle
  have hhigh := s.highTxMark.value.toNat_lt
  have he' := e.value.toNat_lt
  rw [offset_of_le hle] at he hmark
  rw [offset, sub_def, UInt32.toNat_sub] at he
  have hbehind : e.value ≤ s.highTxMark.value := UInt32.le_iff_toNat_le.2 (by omega)
  refine ⟨⟨hbehind, ?_⟩, by omega⟩
  rw [UInt32.toNat_sub_of_le _ _ hbehind]
  omega

/-- The number acknowledged is not above the edges, or it raises `m_sndFack`. -/
theorem sndFack_receivedAck {s₁ s₂ s₃ : TcpSocketBase γ} {reported : UInt32}
    (hacked : Acked ack s₁ s₂) (hsack : s₁.sackEnabled = true) (hfack : s₁.fackEnabled = true)
    {old : SequenceNumber32} {received : Bool} (hold : ¬ ack < old)
    (hprocess : s₂.processAck ops now ack (decide (0 < reported)) d old received = some s₃) :
    ack = old ∨ 0 < reported ∨ s₃.sndFack = rawMax s₁.sndFack ack.value := by
  by_cases hne : ack = old
  · exact .inl hne
  · by_cases hreported : 0 < reported
    · exact .inr (.inl hreported)
    · rw [decide_eq_false hreported] at hprocess
      refine .inr (.inr ?_)
      rw [sndFack_processAck hacked.marked (hacked.sackEnabled.trans hsack)
        (hacked.fackEnabled.trans hfack) hold hne hprocess]
      rcases hacked.sndFack with heq | heq <;> rw [heq]
      exact rawMax_rawMax_self _ _

/-- A fair acknowledgment keeps the invariant. -/
theorem Inv.accepted (h : Inv start o) (hfair : o.FairAck seg) (haccepts : o.socket.Accepts seg)
    {s₀ : TcpSocketBase γ}
    (hgo : (o.socket.arrive ops now seg).receivedAck ops now seg d = some s₀)
    (hs' : s' = s₀.endPersist) :
    Inv start ⟨s', later ((rightEdges seg).foldl later o.forward) s'.txBuffer.firstByteSeq⟩ := by
  have hkept := @arrive_kept γ ops o.socket now seg
  have hmarked := h.marked.of_kept hkept
  obtain ⟨reported, s₁, s₂, s₃, hread, hacked, hprocess, rfl⟩ := receivedAck_acked hmarked
    (hkept.txBuffer ▸ haccepts.old) (hkept.highTxMark ▸ haccepts.unsent) hgo
  obtain ⟨hmarked₁, -, hhigh⟩ := readOptions_marked hmarked hread
  obtain ⟨hsacked, fack, b, hs₁⟩ := readOptions_eq hread
  have hsack₁ : s₁.sackEnabled = true := by
    rw [hs₁]
    exact hkept.sackEnabled.trans h.sackEnabled
  have hfack₁ : s₁.fackEnabled = true := by
    rw [hs₁]
    exact hkept.fackEnabled.trans h.fackEnabled
  have hmoved := processAck_marks hprocess hacked.marked
  have hfinished : Moved seg.ackNumber.value s₃ s' := by
    rw [hs']
    exact (Marks.trans (finishAck_marks) endPersist_marks) hmoved.marked
  have hall := (hacked.trans hmoved).trans hfinished
  -- The values of the numbers, of which none wraps.
  obtain ⟨hforward, hhead⟩ := behind_of_offset_le h.marked hfair.unbroken h.between
  obtain ⟨hack, hhead'⟩ := behind_of_offset_le h.marked hfair.unbroken
    (h.marked.offset_ack haccepts.old haccepts.unsent)
  obtain ⟨hfold, hbehind⟩ := value_foldl_later hforward hfair.edges
  have hvalue := value_later hbehind hack
  have hsndFack : s₁.sndFack = rawFold (rightEdges seg) o.socket.sndFack := by
    rw [readOptions_sndFack (hkept.fackEnabled.trans h.fackEnabled) hread, hkept.sndFack]
    rfl
  have hraised : s'.sndFack = rawMax s₁.sndFack seg.ackNumber.value ∨
      seg.ackNumber.value.toNat ≤ ((rightEdges seg).foldl later o.forward).value.toNat := by
    rw [hfold]
    rcases sndFack_receivedAck hacked hsack₁ hfack₁ (hkept.txBuffer ▸ haccepts.old) hprocess with
      heq | hreported | hraised
    · right
      rw [heq, hkept.txBuffer]
      exact hhead.trans (le_rawFold _ _)
    · obtain ⟨e, hmem, hle⟩ := hfair.reported ⟨reported, hkept.txBuffer ▸ hsacked, hreported⟩
      exact .inr ((UInt32.le_iff_toNat_le.1 hle).trans (le_rawFold_of_mem hmem))
    · left
      rcases hfinished.sndFack with heq | heq <;> rw [heq, hraised]
      exact rawMax_rawMax_self _ _
  rw [h.forward, rawFold_rawMax, ← hsndFack] at hfold
  refine ⟨hall.marked, hall.sackEnabled.trans hsack₁, hall.fackEnabled.trans hfack₁, ?_, ?_⟩
  · change (later _ s'.txBuffer.firstByteSeq).value = rawMax s'.sndFack start.value
    rw [hall.head, hvalue, ← UInt32.toNat_inj]
    rcases hall.sndFack with heq | heq
    · rcases hraised with heq' | hle
      · rw [heq', hfold]
        simp only [toNat_rawMax]
        omega
      · rw [heq, ← hfold, toNat_rawMax]
        omega
    · rw [heq, hfold]
      simp only [toNat_rawMax]
      omega
  · have hlater : Behind o.socket.highTxMark
        (later ((rightEdges seg).foldl later o.forward) seg.ackNumber) := behind_later hbehind hack
    have hle : seg.ackNumber.value ≤
        (later ((rightEdges seg).foldl later o.forward) seg.ackNumber).value := by
      rw [hvalue, UInt32.le_iff_toNat_le, toNat_rawMax]
      exact le_max_right _ _
    have hmark := hall.highTxMark
    rw [hhigh, hkept.highTxMark, offset_of_le hack.1] at hmark
    change offset s'.txBuffer.firstByteSeq (later _ s'.txBuffer.firstByteSeq) ≤
      offset s'.txBuffer.firstByteSeq s'.highTxMark
    rw [hall.head, offset_of_le hle]
    exact (Nat.sub_le_sub_right (UInt32.le_iff_toNat_le.1 hlater.1) _).trans hmark

/-- A segment that is not processed keeps the invariant, if it brings no edge above the
forward-most number. -/
theorem Inv.ignored (h : Inv start o) (hedges : ∀ e ∈ rightEdges seg, Behind o.forward e)
    (hkept : Kept o.socket s') :
    Inv start ⟨s', later ((rightEdges seg).foldl later o.forward) s'.txBuffer.firstByteSeq⟩ := by
  rw [foldl_later_of_behind hedges]
  have hlater : later o.forward s'.txBuffer.firstByteSeq = o.forward :=
    hkept.txBuffer ▸ h.later_head
  refine ⟨h.marked.of_kept hkept, hkept.sackEnabled.trans h.sackEnabled,
    hkept.fackEnabled.trans h.fackEnabled, ?_, ?_⟩
  · change (later o.forward s'.txBuffer.firstByteSeq).value = rawMax s'.sndFack start.value
    rw [hlater, hkept.sndFack]
    exact h.forward
  · change offset s'.txBuffer.firstByteSeq (later o.forward s'.txBuffer.firstByteSeq) ≤
      offset s'.txBuffer.firstByteSeq s'.highTxMark
    rw [hlater, hkept.txBuffer, hkept.highTxMark]
    exact h.between

/-! ## The invariant -/

/-- One event keeps the invariant. -/
theorem Inv.observe (h : Inv start o) {event : TcpSocketBase.Event} (hfair : Fair (some o) event)
    (hgo : observe ops (some o) event = some o') : Inv start o' := by
  obtain ⟨s', hhandle, rfl⟩ := Option.map_eq_some_iff.1 hgo
  cases event with
  | receive now seg d =>
    obtain ⟨haccepted, hignored⟩ := hfair o rfl
    rcases doForwardUp_cases hhandle with ⟨hnot, hkept⟩ | ⟨haccepts, s₀, hreceived, hs'⟩
    · exact h.ignored (hignored hnot) hkept
    · exact h.accepted (haccepted haccepts) haccepts hreceived hs'
  | receiveCodepoint ce =>
    cases hhandle
    exact h.of_moved (receiveCodepoint_marks h.marked)
  | outOfRange =>
    cases hhandle
    exact h.of_moved (Marks.of_sendEmptyPacket h.marked)
  | send p hp =>
    cases hhandle
    have hlater : later o.forward (o.socket.txBuffer.add p).2.firstByteSeq = o.forward := by
      rw [firstByteSeq_add]
      exact h.later_head
    refine ⟨Marked.send h.marked hp, h.sackEnabled, h.fackEnabled, ?_, ?_⟩
    · change (later o.forward _).value = _
      rw [hlater]
      exact h.forward
    · change offset (o.socket.txBuffer.add p).2.firstByteSeq (later o.forward _) ≤
        offset (o.socket.txBuffer.add p).2.firstByteSeq o.socket.highTxMark
      rw [hlater, firstByteSeq_add]
      exact h.between
  | sendPendingData now => exact h.of_moved (sendPendingData_marks hhandle h.marked)
  | reTxTimeout => exact h.of_moved (reTxTimeout_marks hhandle h.marked)
  | delAckTimeout =>
    cases hhandle
    exact h.of_moved (((Marks.of_invoke _).trans .of_sendEmptyPacket) h.marked)
  | persistTimeout now =>
    unfold TcpSocketBase.handle at hhandle
    dsimp only at hhandle
    split_ifs at hhandle
    · exact h.of_moved (persistTimeout_marks hhandle h.marked)
    · cases hhandle
      exact h.of_moved (Marks.refl _ h.marked)

theorem Inv.of_init (setup : Setup γ) (hsack : setup.sackEnabled = true)
    (hfack : setup.fackEnabled = true) (hsmall : setup.maxBuffer.toNat < 2 ^ 31) :
    Inv setup.headSequence (init setup) := by
  refine ⟨⟨(Refines.at_init ..).inv, hsmall, ?_⟩, hsack, hfack, ?_, le_rfl⟩
  · change offset setup.headSequence setup.headSequence ≤ 0
    rw [offset_self]
  · change setup.headSequence.value = rawMax 0 setup.headSequence.value
    rw [← UInt32.toNat_inj, toNat_rawMax, UInt32.toNat_zero]
    omega

/-- FACK counts right in every state of a fair run in which the forward-most number has left the
first number of the connection, or that is 0. -/
theorem sndFack_of_run (ops : CongestionOps γ) (setup : Setup γ)
    (hsack : setup.sackEnabled = true) (hfack : setup.fackEnabled = true)
    (hsmall : setup.maxBuffer.toNat < 2 ^ 31) (events : List TcpSocketBase.Event)
    (hfair : Each (observe ops) Fair (some (init setup)) events) :
    Always (observe ops) (fun s => ∀ o ∈ s, o.forward ≠ setup.headSequence ∨
      setup.headSequence.value = 0 → o.Accounted) (some (init setup)) events := by
  have hstep : ∀ (s : Option (Observed γ)) (event : TcpSocketBase.Event),
      (∀ o ∈ s, Inv setup.headSequence o) → Fair s event →
      ∀ o ∈ observe ops s event, Inv setup.headSequence o := by
    intro s event hinv hok o' ho'
    cases s with
    | none => cases ho'
    | some o => exact (hinv o rfl).observe hok ho'
  refine (hfair.always hstep ?_).mono fun s hinv o ho hleft => (hinv o ho).accounted hleft
  rintro o ⟨⟩
  exact Inv.of_init setup hsack hfack hsmall

/-- A socket with FACK. -/
def fackSetup (headSequence : SequenceNumber32) : Setup Unit :=
  { byteSetup with
    fackEnabled := true
    headSequence := headSequence
    highRxAckMark := headSequence }

/-- Seven of ten bytes are sent. The second one is lost, and acknowledged in CA_RECOVERY with
the others. Two more bytes are sent and acknowledged. -/
def nineAcked (head : UInt32) : List TcpSocketBase.Event :=
  [.send [1, 2, 3, 4, 5, 6, 7, 8, 9, 10] length_tenBytes, .sendPendingData 1, .sendPendingData 1,
    .sendPendingData 1, .sendPendingData 1, .sendPendingData 1, .sendPendingData 1,
    .sendPendingData 1, .receive 2 (ackOf (head + 1) none false) 1,
    .receive 3 (ackOf (head + 1) (some (head + 2, head + 3)) false) 1,
    .receive 4 (ackOf (head + 1) (some (head + 2, head + 4)) false) 1,
    .receive 5 (ackOf (head + 1) (some (head + 2, head + 5)) false) 1,
    .receive 6 (ackOf (head + 7) none false) 3, .sendPendingData 7, .sendPendingData 7,
    .receive 8 (ackOf (head + 9) none false) 2]

theorem sndFack_of_first :
    Always (observe halvingOps) (fun s => ∀ o ∈ s, o.forward ≠ (fackSetup ⟨1⟩).headSequence ∨
      (fackSetup ⟨1⟩).headSequence.value = 0 → o.Accounted) (some (init (fackSetup ⟨1⟩)))
      (nineAcked 1) :=
  sndFack_of_run halvingOps (fackSetup ⟨1⟩) rfl rfl (by decide) (nineAcked 1)
    (by decide +kernel)

/-- The numbers wrap, and the window is closed with nothing outstanding. -/
theorem not_sndFack_of_run :
    ¬ ∀ (ops : CongestionOps Unit) (setup : Setup Unit), setup.sackEnabled = true →
      setup.fackEnabled = true → setup.maxBuffer.toNat < 2 ^ 31 →
      ∀ events : List TcpSocketBase.Event,
        Always (observe ops) (fun s => ∀ o ∈ s, o.forward ≠ setup.headSequence ∨
          setup.headSequence.value = 0 → o.Accounted) (some (init setup)) events := by
  intro h
  have hfacts : (run (observe halvingOps) (some (init (fackSetup ⟨0xfffffffc⟩)))
      (nineAcked 0xfffffffc)).map (fun o => (decide (o.forward ≠ ⟨0xfffffffc⟩),
        o.socket.unAckDataCount, o.socket.txBuffer.retrans, o.socket.txBuffer.bytesInFlight,
        o.socket.availableWindow, o.socket.window)) = some (true, 0, 0, 0, 0, 6) := by
    decide +kernel
  obtain ⟨o, ho, heq⟩ := Option.map_eq_some_iff.1 hfacts
  simp only [Prod.mk.injEq, decide_eq_true_eq] at heq
  obtain ⟨hleft, hunacked, hretrans, hflight, hclosed, hwindow⟩ := heq
  have hlast := h halvingOps (fackSetup ⟨0xfffffffc⟩) rfl rfl (by decide) (nineAcked 0xfffffffc)
  have hidle := (hlast.last o ho (.inl hleft)).idle hunacked hretrans hflight
  rw [hclosed, hwindow] at hidle
  exact absurd hidle (by decide)

end Observed

end Ns3Pedca
