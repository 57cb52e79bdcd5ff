import Ns3Pedca.Internet.TcpStream

/-!
# Zero-window probes

When the peer advertises a window of zero, `DoForwardUp` starts the persist timer, and
`PersistTimeout` sends one byte of the transmit buffer : it copies the byte at
`m_nextTxSequence`, and takes the segment that was sent last back into the unsent data.

The two undo each other if the byte is the first one of the unsent data, and its item has not
been taken back after a retransmission before. In every other state with a pending timer the
probe fails, or leaves another buffer behind (`harmless_probe_iff`). With no byte to send,
`CopyFromSequence` returns the null pointer, and it is followed.
-/

namespace Ns3Pedca

open Runs

namespace TcpTxBuffer

/-- The stream, the boundary of the sent data and the counters of the scoreboard are as they
were. -/
structure Harmless (b b' : TcpTxBuffer) : Prop where
  bytes : b'.bytes = b.bytes
  firstByteSeq : b'.firstByteSeq = b.firstByteSeq
  sentSize : b'.sentSize = b.sentSize
  lostOut : b'.lostOut = b.lostOut
  sackedOut : b'.sackedOut = b.sackedOut
  retrans : b'.retrans = b.retrans

/-- The byte at `seq` is the first of the unsent data, and its item is not marked as
retransmitted. -/
structure Probeable (b : TcpTxBuffer) (seq : SequenceNumber32) : Prop where
  next : b.sentEnd = seq
  started : ¬ seq < b.firstByteSeq
  unsent : b.sizeFromSequence seq ≠ 0
  unmarked : ∀ t ∈ b.appList.head?, t.retrans = false

/-! ## The segment of one byte -/

section Copy

variable {b b' : TcpTxBuffer} {t item : TcpTxItem} {rest : List TcpTxItem} {now : ℕ}
  {seq : SequenceNumber32} {retrans : UInt32} {node : ℕ}

/-- What is left of an item without its first byte. -/
def withoutFirst (t : TcpTxItem) : List TcpTxItem :=
  if t.size = 1 then [] else [t.splitSecond 1]

/-- The first byte of an item. -/
def firstOf (node : ℕ) (t : TcpTxItem) : TcpTxItem :=
  if t.size = 1 then t else t.splitFirst node 1

theorem getPacketFromList_one (hin : seq < seq + t.size) (hle : seq + (1 : UInt32) ≤ seq + t.size)
    (hone : (1 : UInt32) ≤ t.size) :
    getPacketFromList 1 seq node (t :: rest) seq retrans =
      some ⟨[], firstOf node t, withoutFirst t ++ rest, retrans, node + 1⟩ := by
  have hsearch : search 1 seq node seq (t :: rest) =
      .found [] (firstOf node t) (withoutFirst t ++ rest) := by
    unfold search searchEnd firstOf withoutFirst
    rw [if_pos hin, if_pos rfl, if_pos hle]
    by_cases hsize : t.size = 1
    · rw [if_pos hsize.symm, if_pos hsize, if_pos hsize, List.nil_append]
    · have hlt : (1 : UInt32) < t.size := by grind
      rw [if_neg (Ne.symm hsize), if_neg hsize, if_neg hsize, if_pos hlt, List.singleton_append]
  unfold getPacketFromList
  rw [List.length_cons, getPacketFromListWithin, hsearch]

/-- Numbers between two that are in order are in order with the first one and with each other. -/
theorem in_order_of_le {m n : UInt32} (hle : seq ≤ seq + n) (hone : (1 : UInt32) ≤ m)
    (hmn : m ≤ n) : seq < seq + m ∧ seq + (1 : UInt32) ≤ seq + m := by
  change SequenceNumber32.cmp seq (seq + n) ≠ .gt at hle
  change SequenceNumber32.cmp seq (seq + m) = .lt ∧
    SequenceNumber32.cmp (seq + (1 : UInt32)) (seq + m) ≠ .gt
  have hseq := seq.value.toNat_lt
  have hn := n.toNat_lt
  have hhalf : SequenceNumber32.halfMaxValue.toNat = 2 ^ 31 - 1 := rfl
  have hnum : (1 : UInt32).toNat = 1 := rfl
  unfold SequenceNumber32.cmp at hle ⊢
  simp only [SequenceNumber32.value_add, ← UInt32.toNat_inj, UInt32.lt_iff_toNat_lt,
    UInt32.le_iff_toNat_le, UInt32.toNat_sub, UInt32.toNat_add, hhalf, hnum] at hle hone hmn ⊢
  constructor <;> split_ifs at hle ⊢ <;> simp at hle ⊢ <;> omega

theorem size_firstOf (hone : (1 : UInt32) ≤ t.size) : (firstOf node t).size = 1 := by
  unfold firstOf
  split
  next hsize => exact hsize
  next =>
    have hle := (UInt32.le_iff_toNat_le.1 hone).trans t.toNat_size_le
    exact TcpTxItem.size_splitFirst _ _ hle

/-- The last sent item comes back. -/
theorem resetLastSegmentSent_append {l : List TcpTxItem} (hl : b.sentList = l ++ [item]) :
    b.resetLastSegmentSent = { b with
      appList := item :: b.appList
      sentList := l
      sentSize := b.sentSize - item.size
      retrans := if item.retrans then b.retrans - item.size else b.retrans } := by
  unfold resetLastSegmentSent
  rw [hl, List.getLast?_concat, List.dropLast_concat]

/-- A new segment of one byte is taken back. -/
theorem getNewSegment_one (happ : b.appList = t :: rest)
    (hget : getPacketFromList 1 b.sentEnd b.nextNode (t :: rest) b.sentEnd b.retrans =
      some ⟨[], firstOf b.nextNode t, withoutFirst t ++ rest, b.retrans, b.nextNode + 1⟩)
    (hone : (1 : UInt32) ≤ t.size) :
    ∃ item b', b.getNewSegment now 1 = some (item, b') ∧
      b'.resetLastSegmentSent = { b with
        appList := item :: b'.appList
        retrans := if t.retrans then b.retrans - 1 else b.retrans
        nextNode := b'.nextNode } := by
  let item := { firstOf b.nextNode t with
    node := b.nextNode + 1, startSeq := b.sentEnd, lastSent := (now : WithTop ℕ) }
  let b' := { b with
    appList := withoutFirst t ++ rest
    sentList := b.sentList ++ [item]
    sentSize := b.sentSize + item.size
    nextNode := b.nextNode + 2 }
  have hsize : item.size = 1 := size_firstOf hone
  have hretrans : item.retrans = t.retrans := by
    change (firstOf b.nextNode t).retrans = t.retrans
    unfold firstOf
    split <;> rfl
  refine ⟨item, b', ?_, ?_⟩
  · unfold getNewSegment
    rw [happ, hget]
    rfl
  · have hreset : b'.resetLastSegmentSent = _ := resetLastSegmentSent_append rfl
    have hsent : b'.sentSize - item.size = b.sentSize := UInt32.add_sub_cancel ..
    rw [hreset, hsent, hsize, hretrans]

/-- What a probe of the first unsent byte does : the byte is taken from its item, and comes back
as an item of its own. -/
theorem StreamInv.probe_unsent (h : StreamInv b) (hnext : b.sentEnd = seq)
    (hstarted : ¬ seq < b.firstByteSeq) (hunsent : b.sizeFromSequence seq ≠ 0) :
    ∃ t ∈ b.appList.head?, ∃ item b', b.copyFromSequence now 1 seq = some (some item, b') ∧
      b'.resetLastSegmentSent = { b with
        appList := item :: b'.appList
        retrans := if t.retrans then b.retrans - 1 else b.retrans
        nextNode := b'.nextNode } := by
  subst hnext
  have hbound := lt_of_le_of_lt h.bound b.maxBuffer.toNat_lt
  have htail : b.tailSequence = b.sentEnd + UInt32.ofNat (allBytes b.appList) := by
    rw [tailSequence, sentEnd, SequenceNumber32.add_assoc, h.sentSize, h.size, UInt32.ofNat_add]
  unfold sizeFromSequence at hunsent
  split at hunsent
  next hle =>
    rw [htail] at hle
    cases happ : b.appList with
    | nil =>
      rw [htail, happ, SequenceNumber32.add_sub_self] at hunsent
      exact absurd rfl hunsent
    | cons t rest =>
      have hmem : t ∈ b.sentList ++ b.appList := by simp [happ]
      have htoNat := h.toNat_size hmem
      have hpos := List.length_pos_iff.2 (h.nonempty t hmem)
      have hall : allBytes b.appList = t.packet.length + allBytes rest := by
        rw [happ, allBytes_cons]
      have hone : (1 : UInt32) ≤ t.size := by
        rw [UInt32.le_iff_toNat_le, htoNat]
        exact hpos
      have hsizes : t.size ≤ UInt32.ofNat (allBytes b.appList) := by
        rw [UInt32.le_iff_toNat_le, htoNat, UInt32.toNat_ofNat_of_lt' (show _ < 2 ^ 32 by omega),
          hall]
        exact Nat.le_add_right ..
      obtain ⟨hin, hfirst⟩ := in_order_of_le hle hone hsizes
      have hmin : min 1 (b.sizeFromSequence b.sentEnd) = 1 := by
        unfold sizeFromSequence
        rw [if_pos (htail ▸ hle)]
        refine if_pos ?_
        rw [UInt32.le_iff_toNat_le]
        exact Nat.one_le_iff_ne_zero.2 fun hzero => hunsent (UInt32.toNat_inj.1 hzero)
      have hget := @getPacketFromList_one t rest b.sentEnd b.retrans b.nextNode hin hfirst hone
      have hsent : ¬ b.sentEnd + (1 : UInt32) ≤ b.sentEnd :=
        SequenceNumber32.not_le.2 (in_order_of_le hle (UInt32.le_refl 1)
          (UInt32.le_trans hone hsizes)).1
      obtain ⟨item, b', hnew, hreset⟩ := @getNewSegment_one b t rest now happ hget hone
      refine ⟨t, rfl, item, b', ?_, hreset⟩
      unfold TcpTxBuffer.copyFromSequence copyFromSequenceWithin copyBranches
      rw [if_neg hstarted, hmin, if_neg (by decide), if_neg hsent,
        if_pos (SequenceNumber32.le_refl _), if_pos rfl, hnew]
      rfl
  next => exact absurd rfl hunsent

theorem started_of_copy {numBytes : UInt32} {r : Option TcpTxItem}
    (hcopy : b.copyFromSequence now numBytes seq = some (r, b')) : ¬ seq < b.firstByteSeq := by
  intro hlt
  unfold copyFromSequence copyFromSequenceWithin at hcopy
  rw [if_pos hlt] at hcopy
  cases hcopy

/-- A byte that was sent before stays where it is, and another item is taken back. -/
theorem StreamInv.sentSize_of_transmitted (h : StreamInv b) {s : UInt32} (hs : s ≠ 0)
    (hget : b.getTransmittedSegment now s seq = some (item, b')) :
    b'.resetLastSegmentSent.sentSize ≠ b.sentSize := by
  have hsame := h.getTransmittedSegment hs hget
  obtain ⟨found, -, -, rfl⟩ := getTransmittedSegment_found hget
  intro heq
  unfold TcpTxBuffer.resetLastSegmentSent at heq
  split at heq
  next last hlast =>
    have hmem := List.mem_append_left b.appList (List.mem_of_getLast? hlast)
    have hsize := size_ne_zero (hsame.inv.nonempty last hmem) ?_
    · change b.sentSize - last.size = b.sentSize at heq
      exact hsize (by grind)
    · rw [← hsame.inv.toNat_size hmem]
      exact last.size.toNat_lt
  next hnone =>
    rw [List.getLast?_eq_none_iff] at hnone
    exact List.cons_ne_nil _ _ (List.append_eq_nil_iff.1 hnone).2

/-- A probe leaves the buffer as it was if and only if it sends the first unsent byte, and its
item is not marked. -/
theorem StreamInv.harmless_iff (h : StreamInv b) :
    (∃ item b', b.copyFromSequence now 1 seq = some (some item, b') ∧
      Harmless b b'.resetLastSegmentSent) ↔ b.Probeable seq := by
  constructor
  · rintro ⟨item, b', hcopy, hharmless⟩
    have hstarted := started_of_copy hcopy
    cases copyFromSequence_step hcopy with
    | transmitted hne hend hget =>
      exact absurd hharmless.sentSize (h.sentSize_of_transmitted hne hget)
    | new hne hend hget =>
      have hunsent : b.sizeFromSequence seq ≠ 0 := by
        rintro hzero
        exact hne (by rw [hzero]; rfl)
      refine ⟨hend, hstarted, hunsent, ?_⟩
      obtain ⟨t, ht, item', b'', hcopy', hreset⟩ :=
        @StreamInv.probe_unsent b now seq h hend hstarted hunsent
      rw [hcopy] at hcopy'
      cases hcopy'
      intro t' ht'
      obtain rfl : t = t' := Option.some.inj (ht.symm.trans ht')
      cases hmark : t.retrans with
      | false => rfl
      | true =>
        have hretrans := hharmless.retrans
        rw [hreset, hmark] at hretrans
        exact absurd hretrans (by grind)
  · rintro ⟨hnext, hstarted, hunsent, hunmarked⟩
    obtain ⟨t, ht, item, b', hcopy, hreset⟩ :=
      @StreamInv.probe_unsent b now seq h hnext hstarted hunsent
    have hcopied := h.copyFromSequence hcopy
    have hsame := hcopied.trans hcopied.inv.resetLastSegmentSent
    refine ⟨item, b', hcopy, hsame.bytes, hsame.head, ?_, ?_, ?_, ?_⟩
    · rw [hreset]
    · rw [hreset]
    · rw [hreset]
    · rw [hreset, hunmarked t ht]
      rfl

end Copy

end TcpTxBuffer

/-! ## The persist timer -/

open TcpTxBuffer

/-- What `TcpSocketBase` has for its zero-window probes. -/
structure ProbingSocket where
  txBuffer : TcpTxBuffer
  nextTxSequence : SequenceNumber32
  rWnd : UInt32
  /-- `m_persistTimeout`, in nanoseconds. -/
  persistDelay : ℕ
  /-- The delay that the pending `m_persistEvent` was scheduled with. -/
  persistEvent : Option ℕ := none

namespace ProbingSocket

/-- `PersistTimeout`, at time `now` : the number and the byte of the segment. -/
def persistTimeout (s : ProbingSocket) (now : ℕ) :
    Option ((SequenceNumber32 × Packet) × ProbingSocket) :=
  let delay := min 60000000000 (2 * s.persistDelay)
  match s.txBuffer.copyFromSequence now 1 s.nextTxSequence with
  | some (some item, b) => some ((s.nextTxSequence, item.packet), { s with
      txBuffer := b.resetLastSegmentSent
      persistDelay := delay
      persistEvent := some delay })
  | _ => none

/-- `DoForwardUp` with the window that `UpdateWindowSize` comes to. The handler of the state
makes the calls, and leaves `next`. -/
def doForwardUp (s : ProbingSocket) (rWnd : UInt32) (calls : List Call)
    (next : SequenceNumber32) : Option ProbingSocket :=
  let pending := if rWnd = 0 ∧ s.persistEvent = none then some s.persistDelay else s.persistEvent
  (run step (some s.txBuffer) calls).map fun b => { s with
    txBuffer := b
    nextTxSequence := next
    rWnd := rWnd
    persistEvent := if rWnd ≠ 0 then none else pending }

/-- What happens to a socket. -/
inductive Event
  | doForwardUp (rWnd : UInt32) (calls : List Call) (next : SequenceNumber32)
  /-- The application or another timer uses the buffer. -/
  | calls (calls : List Call) (next : SequenceNumber32)
  /-- The persist timer fires, if it is pending. -/
  | persistTimeout (now : ℕ)

/-- One event. -/
def handle (s : ProbingSocket) : Event → Option ProbingSocket
  | .doForwardUp rWnd calls next => s.doForwardUp rWnd calls next
  | .calls calls next => (run step (some s.txBuffer) calls).map fun b =>
    { s with txBuffer := b, nextTxSequence := next }
  | .persistTimeout now =>
    if s.persistEvent.isSome then (s.persistTimeout now).map Prod.snd else some s

/-- The socket after an event, if the program has not stopped. -/
def after (s : Option ProbingSocket) (event : Event) : Option ProbingSocket :=
  s.bind fun s => s.handle event

/-- A socket whose buffer has just been given its first number. -/
def init (seq next : SequenceNumber32) (maxBuffer dupAckThresh segmentSize rWnd : UInt32)
    (persistDelay : ℕ) : ProbingSocket where
  txBuffer := .init seq maxBuffer dupAckThresh segmentSize
  nextTxSequence := next
  rWnd := rWnd
  persistDelay := persistDelay

/-- The buffer is in order, and the timer is pending only while the window is zero. -/
structure Inv (s : ProbingSocket) : Prop where
  stream : StreamInv s.txBuffer
  zero : s.persistEvent.isSome → s.rWnd = 0

variable {s s' : ProbingSocket}

theorem streamInv_of_calls {b : TcpTxBuffer} (h : StreamInv b) (calls : List Call) :
    ∀ b' ∈ run step (some b) calls, StreamInv b' := by
  intro b' hb'
  have hrefines : ∀ x ∈ some b, Refines x ⟨b.maxBuffer.toNat, b.firstByteSeq, b.bytes, 0⟩ := by
    rintro x ⟨⟩
    exact ⟨h, rfl, rfl, rfl, Nat.zero_le _⟩
  exact (Refines.after_run calls hrefines b' hb').inv

theorem persistTimeout_eq_some {now : ℕ} {segment : SequenceNumber32 × Packet} :
    s.persistTimeout now = some (segment, s') ↔
      ∃ item b, s.txBuffer.copyFromSequence now 1 s.nextTxSequence = some (some item, b) ∧
        segment = (s.nextTxSequence, item.packet) ∧ s' = { s with
          txBuffer := b.resetLastSegmentSent
          persistDelay := min 60000000000 (2 * s.persistDelay)
          persistEvent := some (min 60000000000 (2 * s.persistDelay)) } := by
  unfold persistTimeout
  cases s.txBuffer.copyFromSequence now 1 s.nextTxSequence with
  | none => simp
  | some copied =>
    obtain ⟨item, b⟩ := copied
    cases item with
    | none => simp
    | some item => simp [eq_comm]

theorem Inv.handle (h : s.Inv) {event : Event} (hhandle : s.handle event = some s') : s'.Inv := by
  cases event with
  | doForwardUp rWnd calls next =>
    obtain ⟨b, hb, rfl⟩ := Option.map_eq_some_iff.1 hhandle
    refine ⟨streamInv_of_calls h.stream calls b hb, fun hpending => ?_⟩
    by_contra hwindow
    change (if rWnd ≠ 0 then none else _ : Option ℕ).isSome = true at hpending
    rw [if_pos hwindow] at hpending
    cases hpending
  | calls calls next =>
    obtain ⟨b, hb, rfl⟩ := Option.map_eq_some_iff.1 hhandle
    exact ⟨streamInv_of_calls h.stream calls b hb, h.zero⟩
  | persistTimeout now =>
    change (if s.persistEvent.isSome then _ else _) = _ at hhandle
    by_cases hpending : s.persistEvent.isSome
    · rw [if_pos hpending] at hhandle
      obtain ⟨⟨segment, s''⟩, hprobe, rfl⟩ := Option.map_eq_some_iff.1 hhandle
      obtain ⟨item, b, hcopy, -, rfl⟩ := persistTimeout_eq_some.1 hprobe
      exact ⟨(h.stream.copyFromSequence hcopy).inv.resetLastSegmentSent.inv,
        fun _ => h.zero hpending⟩
    · rw [if_neg hpending] at hhandle
      cases hhandle
      exact h

theorem Inv.after_run (h : s.Inv) (events : List Event) :
    ∀ s' ∈ run after (some s) events, s'.Inv := by
  refine @run_of_step _ _ after (fun s => ∀ s' ∈ s, s'.Inv) ?_ (some s) ?_ events
  · intro s event hs s' hs'
    obtain ⟨x, rfl, hx⟩ := Option.bind_eq_some_iff.1 hs'
    exact (hs x rfl).handle hx
  · rintro s' ⟨⟩
    exact h

/-- Whenever the timer fires, the window is zero, and the probe is sent and leaves the buffer as
it was if and only if it takes the first unsent byte from an item that is not marked. -/
theorem harmless_probe_iff (seq next : SequenceNumber32)
    (maxBuffer dupAckThresh segmentSize rWnd : UInt32) (persistDelay : ℕ) (events : List Event) :
    ∀ s ∈ run after (some (init seq next maxBuffer dupAckThresh segmentSize rWnd persistDelay))
        events, s.persistEvent.isSome → ∀ now,
      s.rWnd = 0 ∧ ((∃ segment s', s.persistTimeout now = some (segment, s') ∧
        Harmless s.txBuffer s'.txBuffer) ↔ s.txBuffer.Probeable s.nextTxSequence) := by
  intro s hs hpending now
  have hinit : (init seq next maxBuffer dupAckThresh segmentSize rWnd persistDelay).Inv := by
    refine ⟨(Refines.at_init seq maxBuffer dupAckThresh segmentSize).inv, ?_⟩
    rintro ⟨⟩
  have h := hinit.after_run events s hs
  refine ⟨h.zero hpending, ?_⟩
  rw [← @StreamInv.harmless_iff s.txBuffer now s.nextTxSequence h.stream]
  constructor
  · rintro ⟨segment, s', hprobe, hharmless⟩
    obtain ⟨item, b, hcopy, -, rfl⟩ := persistTimeout_eq_some.1 hprobe
    exact ⟨item, b, hcopy, hharmless⟩
  · rintro ⟨item, b, hcopy, hharmless⟩
    exact ⟨_, _, persistTimeout_eq_some.2 ⟨item, b, hcopy, rfl, rfl⟩, hharmless⟩

/-- Two of four bytes have been sent and acknowledged, and the window is zero. -/
def halfAcked : List Event :=
  [.calls [.add [1, 2, 3, 4] (by decide), .copyFromSequence 0 2 ⟨0⟩] ⟨2⟩,
    .doForwardUp 0 [.discardUpTo 1 ⟨2⟩] ⟨2⟩]

/-- The third byte is sent as a probe, and nothing changes. -/
theorem harmless_probe_half :
    ∃ s ∈ run after (some (init ⟨0⟩ ⟨0⟩ 6 3 2 10 6000000000)) halfAcked, s.rWnd = 0 ∧
      ∃ segment s', s.persistTimeout 2 = some (segment, s') ∧
        Harmless s.txBuffer s'.txBuffer := by
  have hfacts : (run after (some (init ⟨0⟩ ⟨0⟩ 6 3 2 10 6000000000)) halfAcked).map
      (fun s => (decide (s.txBuffer.sentEnd = s.nextTxSequence),
        decide (s.nextTxSequence < s.txBuffer.firstByteSeq),
        s.txBuffer.sizeFromSequence s.nextTxSequence,
        s.txBuffer.appList.map TcpTxItem.retrans, s.persistEvent.isSome)) =
      some (true, false, 2, [false], true) := by
    decide +kernel
  obtain ⟨s, hs, heq⟩ := Option.map_eq_some_iff.1 hfacts
  simp only [Prod.mk.injEq, decide_eq_true_eq, decide_eq_false_iff_not] at heq
  obtain ⟨hnext, hstarted, hunsent, hmarks, hpending⟩ := heq
  obtain ⟨hzero, hiff⟩ := harmless_probe_iff ⟨0⟩ ⟨0⟩ 6 3 2 10 6000000000 halfAcked s hs hpending 2
  refine ⟨s, hs, hzero, hiff.2 ⟨hnext, hstarted, by rw [hunsent]; decide, fun t ht => ?_⟩⟩
  have hmem := List.mem_map_of_mem (f := TcpTxItem.retrans) (List.mem_of_head? ht)
  rw [hmarks] at hmem
  exact List.mem_singleton.1 hmem

/-- All bytes have been sent and acknowledged, and the window is zero : the probe finds no item.
-/
theorem not_harmless_probe :
    ¬ ∀ (seq next : SequenceNumber32) (maxBuffer dupAckThresh segmentSize rWnd : UInt32)
        (persistDelay : ℕ) (events : List Event),
      ∀ s ∈ run after (some (init seq next maxBuffer dupAckThresh segmentSize rWnd persistDelay))
          events, s.persistEvent.isSome → ∀ now,
        ∃ segment s', s.persistTimeout now = some (segment, s') ∧
          Harmless s.txBuffer s'.txBuffer := by
  intro h
  let events : List Event :=
    [.calls [.add [1, 2] (by decide), .copyFromSequence 0 2 ⟨0⟩] ⟨2⟩,
      .doForwardUp 0 [.discardUpTo 1 ⟨2⟩] ⟨2⟩]
  have hfacts : (run after (some (init ⟨0⟩ ⟨0⟩ 6 3 2 10 6000000000)) events).map
      (fun s => (s.persistEvent.isSome, (s.persistTimeout 2).isNone)) = some (true, true) := by
    decide +kernel
  obtain ⟨s, hs, heq⟩ := Option.map_eq_some_iff.1 hfacts
  obtain ⟨hpending, hnone⟩ := Prod.mk.inj heq
  obtain ⟨segment, s', hprobe, -⟩ := h ⟨0⟩ ⟨0⟩ 6 3 2 10 6000000000 events s hs hpending 2
  rw [hprobe] at hnone
  cases hnone

end ProbingSocket

end Ns3Pedca
