import Ns3Pedca.Runs
import Ns3Pedca.Wifi.OriginatorBlockAckAgreement

/-!
# The in-flight queue of an originator

`BlockAckManager` keeps the MPDUs of an agreement that are in flight in a list. `DoStorePacket`
inserts an MPDU by a scan from the back that compares distances from the start of the window, and
`HandleDiscardedMpdu` removes old MPDUs from the front, up to the first that is not old. An MPDU
that the window has left behind is at a distance of almost the whole number space, so the scan
passes it as if it came later, and an MPDU that is inserted before it hides it from the removal.
The list is in order, and a removal is complete, in runs without such an insertion
(`inOrder_of_reached`). What is asked of an insertion and of a removal is exact
(`InFlightInv.doStorePacket_inOrder_iff`, `InFlightInv.oldRemoved_iff`).

`number` is the count an MPDU's sequence number stands for, and `progress` that of the start of the
window. The loops over the list are taken one MPDU a step.
-/

namespace Ns3Pedca

/-- The sequence control field of an MPDU. -/
structure SequenceControl where
  sequenceNumber : SeqNo
  fragmentNumber : Fin 16
  deriving DecidableEq

/-- An MPDU in flight. -/
structure InFlightMpdu where
  sequenceControl : SequenceControl
  number : ℕ
  deriving DecidableEq

/-- What is done with an MPDU. -/
inductive MpduStatus
  | toRetransmit
  | stayInflight
  | acknowledged
  deriving DecidableEq

/-- What is found out about an MPDU in flight when it is handled. -/
structure MpduInfo where
  isQueued : Bool
  inFlightLinkIds : List ℕ
  isRetryOrInFlight : Bool
  ttlExceeded : Bool

/-- A loop over the in-flight queue, with the position of its iterator. -/
inductive QueueLoop
  | acknowledge (linkId : ℕ) (isPacketReceived : SeqNo → Bool) (pos : ℕ)
  | retransmitOnlyOn (linkId pos : ℕ)
  | retransmitAllOn (linkId pos : ℕ)

/-- An established agreement of an originator, with its in-flight queue. -/
structure OriginatorAgreement where
  txWindow : BlockAckWindow
  packetQueue : List InFlightMpdu := []
  queueLoop : Option QueueLoop := none
  progress : ℕ
  oldRemoved : Bool := true

/-- What can happen to the agreement. -/
inductive OriginatorEvent
  | storePacket (mpdu : SequenceControl)
  | notifyGotAck (sequenceNumber : SeqNo)
  | notifyMissedAck (sequenceNumber : SeqNo) (info : MpduInfo)
  | notifyGotBlockAck (linkId : ℕ) (isPacketReceived : SeqNo → Bool)
  | notifyMissedBlockAck (linkId : ℕ)
  | nextMpdu (info : MpduInfo)
  | notifyDiscardedMpdu (sequenceNumber : SeqNo) (isRetryOrInFlight : Bool)

namespace OriginatorAgreement

/-- The agreement when it is established. -/
def init (bufferSize : ℕ) (startingSeq : SeqNo) : OriginatorAgreement where
  txWindow := .init startingSeq bufferSize
  progress := startingSeq

variable (s : OriginatorAgreement)

/-- `GetDistance`. -/
def distance (sequenceNumber : SeqNo) : ℕ :=
  getDistance sequenceNumber s.txWindow.winStart

/-- The window has changed. -/
def setTxWindow (w : BlockAckWindow) : OriginatorAgreement :=
  { s with
    txWindow := w
    progress := s.progress + getDistance w.winStart s.txWindow.winStart }

/-! ## Storing -/

/-- The test that ends the scan : `mpdu'` is to stay before `mpdu`. -/
def staysBefore (mpdu' mpdu : SequenceControl) : Bool :=
  s.distance mpdu'.sequenceNumber < s.distance mpdu.sequenceNumber ∨
    s.distance mpdu.sequenceNumber = s.distance mpdu'.sequenceNumber ∧
      mpdu'.fragmentNumber < mpdu.fragmentNumber

/-- The scan, over the queue from its back. There is no result if the MPDU is found. -/
def insertBackward (mpdu : InFlightMpdu) : List InFlightMpdu → Option (List InFlightMpdu)
  | [] => some [mpdu]
  | mpdu' :: mpdus =>
    if mpdu.sequenceControl = mpdu'.sequenceControl then none
    else if s.staysBefore mpdu'.sequenceControl mpdu.sequenceControl then
      some (mpdu :: mpdu' :: mpdus)
    else (insertBackward mpdu mpdus).map (mpdu' :: ·)

/-- The MPDU that is stored, with its count. -/
def toInFlight (mpdu : SequenceControl) : InFlightMpdu where
  sequenceControl := mpdu
  number := s.progress + s.distance mpdu.sequenceNumber

/-- `DoStorePacket`. -/
def doStorePacket (mpdu : SequenceControl) : OriginatorAgreement :=
  if seqnoSpaceHalfSize ≤ s.distance mpdu.sequenceNumber then s
  else match s.insertBackward (s.toInFlight mpdu) s.packetQueue.reverse with
  | none => s
  | some mpdus =>
    setTxWindow { s with packetQueue := mpdus.reverse }
      (s.txWindow.notifyTransmittedMpdu mpdu.sequenceNumber)

/-! ## Discarding -/

/-- The removal of old MPDUs from the front. -/
def removeOldMpdus : OriginatorAgreement :=
  let packetQueue := s.packetQueue.dropWhile fun mpdu =>
    seqnoSpaceHalfSize ≤ s.distance mpdu.sequenceControl.sequenceNumber
  { s with
    packetQueue := packetQueue
    oldRemoved := s.oldRemoved && packetQueue.all fun mpdu => s.progress ≤ mpdu.number }

/-- `HandleDiscardedMpdu`. -/
def handleDiscardedMpdu (sequenceNumber : SeqNo) : OriginatorAgreement :=
  if seqnoSpaceHalfSize ≤ s.distance sequenceNumber then s
  else (s.setTxWindow (s.txWindow.notifyDiscardedMpdu sequenceNumber)).removeOldMpdus

/-- `NotifyDiscardedMpdu`. -/
def notifyDiscardedMpdu (sequenceNumber : SeqNo) (isRetryOrInFlight : Bool) :
    OriginatorAgreement :=
  if isRetryOrInFlight then s.handleDiscardedMpdu sequenceNumber else s

/-! ## Handling what is in flight -/

/-- `erase`. -/
def eraseAt (pos : ℕ) : OriginatorAgreement :=
  { s with packetQueue := s.packetQueue.eraseIdx pos }

/-- `HandleInFlightMpdu`, with the iterator it returns. When the lifetime has expired, this is the
position after the MPDU before, and it fails if that one has been removed too. -/
def handleInFlightMpdu (pos : ℕ) (mpdu : InFlightMpdu) (status : MpduStatus) (info : MpduInfo) :
    Option (OriginatorAgreement × ℕ) :=
  if ¬ info.isQueued then some (s.eraseAt pos, pos)
  else if status = .acknowledged then some (s.eraseAt pos, pos)
  else if seqnoSpaceHalfSize ≤ s.distance mpdu.sequenceControl.sequenceNumber then
    some (s.eraseAt pos, pos)
  else if info.ttlExceeded then
    let t := s.notifyDiscardedMpdu mpdu.sequenceControl.sequenceNumber info.isRetryOrInFlight
    let removed := s.packetQueue.length - t.packetQueue.length
    if pos = 0 then some (t, 0) else if removed < pos then some (t, pos - removed) else none
  else if status = .stayInflight then some (s, pos + 1)
  else some (s.eraseAt pos, pos)

/-- The first MPDU of the sequence number. -/
def findMpdu (sequenceNumber : SeqNo) : Option ℕ :=
  s.packetQueue.findIdx? (·.sequenceControl.sequenceNumber = sequenceNumber)

/-- `NotifyGotAck`. -/
def notifyGotAck (sequenceNumber : SeqNo) : OriginatorAgreement :=
  let t := s.setTxWindow (s.txWindow.notifyAckedMpdu sequenceNumber)
  match t.findMpdu sequenceNumber with
  | none => t
  | some pos => t.eraseAt pos

/-- `NotifyMissedAck`. -/
def notifyMissedAck (sequenceNumber : SeqNo) (info : MpduInfo) : Option OriginatorAgreement :=
  match s.findMpdu sequenceNumber with
  | none => some s
  | some pos => do
    let mpdu ← s.packetQueue[pos]?
    let (t, _) ← s.handleInFlightMpdu pos mpdu .toRetransmit info
    return t

/-- One round of a loop, or its end. -/
def nextMpdu (queueLoop : QueueLoop) (info : MpduInfo) : Option OriginatorAgreement :=
  match queueLoop with
  | .acknowledge linkId isPacketReceived pos =>
    match s.packetQueue[pos]? with
    | none => some { s with queueLoop := some (.retransmitOnlyOn linkId 0) }
    | some mpdu =>
      if isPacketReceived mpdu.sequenceControl.sequenceNumber then do
        let t := s.setTxWindow (s.txWindow.notifyAckedMpdu mpdu.sequenceControl.sequenceNumber)
        let (t, pos) ← t.handleInFlightMpdu pos mpdu .acknowledged info
        return { t with queueLoop := some (.acknowledge linkId isPacketReceived pos) }
      else some { s with queueLoop := some (.acknowledge linkId isPacketReceived (pos + 1)) }
  | .retransmitOnlyOn linkId pos =>
    match s.packetQueue[pos]? with
    | none => some { s with queueLoop := none }
    | some mpdu => do
      let (t, pos) ← s.handleInFlightMpdu pos mpdu
        (if info.inFlightLinkIds = [linkId] then .toRetransmit else .stayInflight) info
      return { t with queueLoop := some (.retransmitOnlyOn linkId pos) }
  | .retransmitAllOn linkId pos =>
    match s.packetQueue[pos]? with
    | none => some { s with queueLoop := none }
    | some mpdu => do
      let (t, pos) ← s.handleInFlightMpdu pos mpdu
        (if linkId ∈ info.inFlightLinkIds then .toRetransmit else .stayInflight) info
      return { t with queueLoop := some (.retransmitAllOn linkId pos) }

/-- One step. While a loop runs, its rounds are the only steps. -/
def step : OriginatorEvent → Option OriginatorAgreement
  | .nextMpdu info => do
    let queueLoop ← s.queueLoop
    s.nextMpdu queueLoop info
  | .storePacket mpdu => do
    guard (s.queueLoop.isNone)
    return s.doStorePacket mpdu
  | .notifyGotAck sequenceNumber => do
    guard (s.queueLoop.isNone)
    return s.notifyGotAck sequenceNumber
  | .notifyMissedAck sequenceNumber info => do
    guard (s.queueLoop.isNone)
    s.notifyMissedAck sequenceNumber info
  | .notifyGotBlockAck linkId isPacketReceived => do
    guard (s.queueLoop.isNone)
    return { s with queueLoop := some (.acknowledge linkId isPacketReceived 0) }
  | .notifyMissedBlockAck linkId => do
    guard (s.queueLoop.isNone)
    return { s with queueLoop := some (.retransmitAllOn linkId 0) }
  | .notifyDiscardedMpdu sequenceNumber isRetryOrInFlight => do
    guard (s.queueLoop.isNone)
    return s.notifyDiscardedMpdu sequenceNumber isRetryOrInFlight

/-! ## The order of the queue -/

end OriginatorAgreement

/-- `mpdu` is to stand before `mpdu'` in the queue. -/
def InFlightMpdu.Before (mpdu mpdu' : InFlightMpdu) : Prop :=
  mpdu.number < mpdu'.number ∨ mpdu.number = mpdu'.number ∧
    mpdu.sequenceControl.fragmentNumber < mpdu'.sequenceControl.fragmentNumber

instance InFlightMpdu.before_decidable (mpdu mpdu' : InFlightMpdu) :
    Decidable (mpdu.Before mpdu') :=
  inferInstanceAs (Decidable (_ ∨ _))

theorem InFlightMpdu.Before.asymm {mpdu mpdu' : InFlightMpdu} (h : mpdu.Before mpdu') :
    ¬ mpdu'.Before mpdu := by
  unfold Before at *
  omega

theorem InFlightMpdu.Before.trans {mpdu mpdu' mpdu'' : InFlightMpdu} (h : mpdu.Before mpdu')
    (h' : mpdu'.Before mpdu'') : mpdu.Before mpdu'' := by
  unfold Before at *
  omega

namespace OriginatorAgreement

/-- The queue is in increasing order, without two MPDUs of the same sequence control, and no
removal of old MPDUs has left one. -/
structure InOrder (s : OriginatorAgreement) : Prop where
  sequenceNumber : ∀ mpdu ∈ s.packetQueue,
    mpdu.number % seqnoSpaceSize = mpdu.sequenceControl.sequenceNumber
  sorted : s.packetQueue.Pairwise InFlightMpdu.Before
  nodup : (s.packetQueue.map InFlightMpdu.sequenceControl).Nodup
  oldRemoved : s.oldRemoved = true

/-- Either the MPDU is old, or the scan finds it in the queue. Otherwise its sequence control is not
in the queue, and the last MPDU that is to stand before it is one that the scan stops at. -/
def StoreOk (s : OriginatorAgreement) (mpdu : SequenceControl) : Prop :=
  seqnoSpaceHalfSize ≤ s.distance mpdu.sequenceNumber ∨
    (∃ mpdu' ∈ s.packetQueue, mpdu'.sequenceControl = mpdu ∧
      ∀ mpdu'' ∈ s.packetQueue, mpdu' = mpdu'' ∨ mpdu'.Before mpdu'' →
        ¬ s.staysBefore mpdu''.sequenceControl mpdu) ∨
    (∀ mpdu' ∈ s.packetQueue, mpdu'.sequenceControl ≠ mpdu) ∧
      ∀ mpdu' ∈ s.packetQueue, mpdu'.Before (s.toInFlight mpdu) →
        ∃ mpdu'' ∈ s.packetQueue, (mpdu' = mpdu'' ∨ mpdu'.Before mpdu'') ∧
          s.staysBefore mpdu''.sequenceControl mpdu

instance storeOk_decidable (s : OriginatorAgreement) (mpdu : SequenceControl) :
    Decidable (s.StoreOk mpdu) :=
  inferInstanceAs (Decidable (_ ∨ _ ∨ _))

/-- How far the window moves when an MPDU is discarded : past it, and past what is acknowledged
after it. -/
def discardCount (s : OriginatorAgreement) (sequenceNumber : SeqNo) : ℕ :=
  let next := s.distance sequenceNumber + 1
  next + s.txWindow.ackedFrom next s.txWindow.getWinSize

/-- Every MPDU that the window moves past is old for the new start of the window. -/
def DiscardOk (s : OriginatorAgreement) (sequenceNumber : SeqNo) : Prop :=
  seqnoSpaceHalfSize ≤ s.distance sequenceNumber ∨
    ∀ mpdu ∈ s.packetQueue, mpdu.number < s.progress + s.discardCount sequenceNumber →
      seqnoSpaceHalfSize ≤ getDistance mpdu.sequenceControl.sequenceNumber
        (.ofNat (s.txWindow.winStart + s.discardCount sequenceNumber))

instance discardOk_decidable (s : OriginatorAgreement) (sequenceNumber : SeqNo) :
    Decidable (s.DiscardOk sequenceNumber) :=
  inferInstanceAs (Decidable (_ ∨ _))

/-- If the MPDU at the position is discarded because it has expired, its discard is as it should
be. -/
def ExpiryOk (s : OriginatorAgreement) (pos : ℕ) (info : MpduInfo) : Prop :=
  info.isQueued = true ∧ info.ttlExceeded = true ∧ info.isRetryOrInFlight = true →
    ∀ mpdu ∈ s.packetQueue[pos]?, s.DiscardOk mpdu.sequenceControl.sequenceNumber

/-- The steps after which the queue is still in order. -/
def StepOk (s : OriginatorAgreement) : OriginatorEvent → Prop
  | .storePacket mpdu => s.StoreOk mpdu
  | .notifyDiscardedMpdu sequenceNumber isRetryOrInFlight =>
    isRetryOrInFlight = true → s.DiscardOk sequenceNumber
  | .notifyMissedAck sequenceNumber info => ∀ pos ∈ s.findMpdu sequenceNumber, s.ExpiryOk pos info
  | .nextMpdu info =>
    match s.queueLoop with
    | some (.retransmitOnlyOn _ pos) => s.ExpiryOk pos info
    | some (.retransmitAllOn _ pos) => s.ExpiryOk pos info
    | _ => True
  | _ => True

/-- What the steps keep. -/
structure InFlightInv (s : OriginatorAgreement) : Prop where
  inOrder : s.InOrder
  winSize : s.txWindow.getWinSize ≤ 1024
  winStart : s.progress % seqnoSpaceSize = s.txWindow.winStart
  lt : ∀ mpdu ∈ s.packetQueue, mpdu.number < s.progress + seqnoSpaceHalfSize

/-- Only the window has moved, and MPDUs have been removed. -/
structure Removes (s t : OriginatorAgreement) : Prop where
  packetQueue : t.packetQueue.Sublist s.packetQueue
  winSize : t.txWindow.getWinSize = s.txWindow.getWinSize
  winStart : t.progress % seqnoSpaceSize = t.txWindow.winStart
  progress : s.progress ≤ t.progress
  oldRemoved : t.oldRemoved = true

variable {s t : OriginatorAgreement} {mpdu : SequenceControl} {sequenceNumber : SeqNo}
  {info : MpduInfo} {pos : ℕ}

theorem inFlightInv_init {bufferSize : ℕ} (h : bufferSize ≤ 1024) (startingSeq : SeqNo) :
    (init bufferSize startingSeq).InFlightInv where
  inOrder := ⟨fun _ hmem => absurd hmem List.not_mem_nil, List.Pairwise.nil, List.nodup_nil, rfl⟩
  winSize := (BlockAckWindow.getWinSize_init startingSeq bufferSize).trans_le h
  winStart := Nat.mod_eq_of_lt startingSeq.isLt
  lt _ hmem := absurd hmem List.not_mem_nil

theorem InFlightInv.removes (h : s.InFlightInv) (ht : s.Removes t) : t.InFlightInv where
  inOrder :=
    { sequenceNumber := fun mpdu hmem => h.inOrder.sequenceNumber mpdu (ht.packetQueue.subset hmem)
      sorted := h.inOrder.sorted.sublist ht.packetQueue
      nodup := h.inOrder.nodup.sublist (ht.packetQueue.map _)
      oldRemoved := ht.oldRemoved }
  winSize := ht.winSize.trans_le h.winSize
  winStart := ht.winStart
  lt mpdu hmem := (h.lt mpdu (ht.packetQueue.subset hmem)).trans_le
    (Nat.add_le_add_right ht.progress _)

theorem Removes.trans {u : OriginatorAgreement} (h : s.Removes t) (h' : t.Removes u) :
    s.Removes u where
  packetQueue := h'.packetQueue.trans h.packetQueue
  winSize := h'.winSize.trans h.winSize
  winStart := h'.winStart
  progress := h.progress.trans h'.progress
  oldRemoved := h'.oldRemoved

theorem InFlightInv.removes_self (h : s.InFlightInv) : s.Removes s :=
  ⟨List.Sublist.refl _, rfl, h.winStart, le_rfl, h.inOrder.oldRemoved⟩

theorem InFlightInv.removes_setTxWindow (h : s.InFlightInv) {w : BlockAckWindow}
    (hw : w.getWinSize = s.txWindow.getWinSize) : s.Removes (s.setTxWindow w) where
  packetQueue := List.Sublist.refl _
  winSize := hw
  winStart := by
    change (s.progress + Circular.dist seqnoSpaceSize w.winStart s.txWindow.winStart) % _ = _
    rw [← h.winStart]
    exact Circular.unwrap_mod w.winStart.isLt
  progress := Nat.le_add_right _ _
  oldRemoved := h.inOrder.oldRemoved

theorem InFlightInv.removes_eraseAt (h : s.InFlightInv) : s.Removes (s.eraseAt pos) :=
  ⟨List.eraseIdx_sublist _ _, rfl, h.winStart, le_rfl, h.inOrder.oldRemoved⟩

/-! ## Discarding -/

/-- The window that a discard moves starts `discardCount` numbers further on. -/
theorem winStart_notifyDiscardedMpdu (hnew : ¬ seqnoSpaceHalfSize ≤ s.distance sequenceNumber) :
    (s.txWindow.notifyDiscardedMpdu sequenceNumber).winStart =
      .ofNat (s.txWindow.winStart + s.discardCount sequenceNumber) := by
  unfold BlockAckWindow.notifyDiscardedMpdu
  change (if seqnoSpaceHalfSize ≤ s.distance sequenceNumber then s.txWindow
    else (s.txWindow.advance (s.distance sequenceNumber + 1)).advanceTxWindow).winStart = _
  rw [if_neg hnew, BlockAckWindow.winStart_advanceTxWindow, BlockAckWindow.winStart_advance,
    BlockAckWindow.ackedFrom_advance, BlockAckWindow.getWinSize_advance, Nat.zero_add]
  refine Fin.ext ?_
  change ((s.txWindow.winStart + (s.distance sequenceNumber + 1)) % seqnoSpaceSize + _) %
    seqnoSpaceSize = _ % seqnoSpaceSize
  rw [Nat.mod_add_mod, Nat.add_assoc]
  rfl

theorem InFlightInv.discardCount_lt (h : s.InFlightInv)
    (hnew : ¬ seqnoSpaceHalfSize ≤ s.distance sequenceNumber) :
    s.discardCount sequenceNumber < seqnoSpaceSize := by
  have hle := BlockAckWindow.add_ackedFrom_le (w := s.txWindow)
    (d := s.distance sequenceNumber + 1) (n := s.txWindow.getWinSize)
  have hsize := h.winSize
  have hhalf : seqnoSpaceHalfSize = 2048 := rfl
  rw [discardCount, show seqnoSpaceSize = 4096 from rfl]
  omega

theorem InFlightInv.progress_discard (h : s.InFlightInv)
    (hnew : ¬ seqnoSpaceHalfSize ≤ s.distance sequenceNumber) :
    (s.setTxWindow (s.txWindow.notifyDiscardedMpdu sequenceNumber)).progress =
      s.progress + s.discardCount sequenceNumber := by
  have hlt := h.discardCount_lt hnew
  change s.progress + Circular.dist seqnoSpaceSize _ _ = _
  rw [winStart_notifyDiscardedMpdu hnew, ← h.winStart]
  change s.progress + Circular.dist seqnoSpaceSize ((_ + _) % seqnoSpaceSize) _ = _
  rw [Nat.mod_add_mod, Circular.dist_of_le (Nat.le_add_right _ _) (by omega),
    Nat.add_sub_cancel_left]

/-- The distance of an MPDU that the window has not left behind. -/
theorem InFlightInv.distance_eq (h : s.InFlightInv) {mpdu : InFlightMpdu}
    (hmem : mpdu ∈ s.packetQueue) (hle : s.progress ≤ mpdu.number) :
    s.distance mpdu.sequenceControl.sequenceNumber = mpdu.number - s.progress := by
  have hlt := h.lt mpdu hmem
  have hhalf : seqnoSpaceHalfSize < seqnoSpaceSize := by decide
  rw [distance, getDistance, ← h.inOrder.sequenceNumber mpdu hmem, ← h.winStart]
  exact Circular.dist_of_le hle (hlt.trans (Nat.add_lt_add_left hhalf _))

theorem mem_dropWhile_of_sorted {q : List InFlightMpdu} {p : InFlightMpdu → Bool} {n : ℕ}
    (hsorted : q.Pairwise InFlightMpdu.Before) (hp : ∀ mpdu ∈ q, mpdu.number < n → p mpdu = true) :
    ∀ mpdu ∈ q.dropWhile p, n ≤ mpdu.number := by
  induction q with
  | nil => exact fun _ hmem => absurd hmem List.not_mem_nil
  | cons mpdu q ih =>
    obtain ⟨hbefore, hsorted⟩ := List.pairwise_cons.1 hsorted
    obtain ⟨hhead, htail⟩ := List.forall_mem_cons.1 hp
    rw [List.dropWhile_cons]
    split
    next => exact ih hsorted htail
    next hnot =>
      have hle : n ≤ mpdu.number := not_lt.1 fun hlt => hnot (hhead hlt)
      refine List.forall_mem_cons.2 ⟨hle, fun mpdu' hmem => ?_⟩
      have hlater := hbefore mpdu' hmem
      unfold InFlightMpdu.Before at hlater
      omega

theorem InFlightInv.removes_handleDiscardedMpdu (h : s.InFlightInv)
    (hok : s.DiscardOk sequenceNumber) : s.Removes (s.handleDiscardedMpdu sequenceNumber) := by
  rw [handleDiscardedMpdu]
  split
  next => exact h.removes_self
  next hnew =>
    have hset := h.removes_setTxWindow
      (w := s.txWindow.notifyDiscardedMpdu sequenceNumber)
      BlockAckWindow.getWinSize_notifyDiscardedMpdu
    refine hset.trans ?_
    have hleft := mem_dropWhile_of_sorted (p := fun mpdu => decide (seqnoSpaceHalfSize ≤
      (s.setTxWindow (s.txWindow.notifyDiscardedMpdu sequenceNumber)).distance
        mpdu.sequenceControl.sequenceNumber)) h.inOrder.sorted fun mpdu hmem hlt => by
      rw [decide_eq_true_iff]
      change _ ≤ getDistance _ (s.txWindow.notifyDiscardedMpdu sequenceNumber).winStart
      rw [winStart_notifyDiscardedMpdu hnew]
      exact hok.resolve_left hnew mpdu hmem hlt
    refine ⟨List.dropWhile_sublist _, rfl, hset.winStart, le_rfl, ?_⟩
    rw [removeOldMpdus, Bool.and_eq_true, List.all_eq_true]
    refine ⟨h.inOrder.oldRemoved, fun mpdu hmem => decide_eq_true ?_⟩
    rw [h.progress_discard hnew]
    exact hleft mpdu hmem

theorem InFlightInv.removes_notifyDiscardedMpdu {isRetryOrInFlight : Bool} (h : s.InFlightInv)
    (hok : isRetryOrInFlight = true → s.DiscardOk sequenceNumber) :
    s.Removes (s.notifyDiscardedMpdu sequenceNumber isRetryOrInFlight) := by
  unfold OriginatorAgreement.notifyDiscardedMpdu
  split
  next hretry => exact h.removes_handleDiscardedMpdu (hok hretry)
  next => exact h.removes_self

/-! ## Storing -/

theorem insertBackward_sorted {mpdu : InFlightMpdu} {q : List InFlightMpdu}
    (hsorted : q.Pairwise fun x y => y.Before x)
    (hstays : ∀ x ∈ q, s.staysBefore x.sequenceControl mpdu.sequenceControl = true → x.Before mpdu)
    (htotal : ∀ x ∈ q, x.Before mpdu ∨ mpdu.Before x)
    (hne : ∀ x ∈ q, x.sequenceControl ≠ mpdu.sequenceControl)
    (hlast : ∀ x ∈ q, x.Before mpdu → ∃ y ∈ q, (x = y ∨ x.Before y) ∧
      s.staysBefore y.sequenceControl mpdu.sequenceControl = true) :
    ∃ q', s.insertBackward mpdu q = some q' ∧ q'.Perm (mpdu :: q) ∧
      q'.Pairwise fun x y => y.Before x := by
  induction q with
  | nil => exact ⟨[mpdu], rfl, List.Perm.refl _, List.pairwise_singleton _ _⟩
  | cons x q ih =>
    obtain ⟨hbefore, hsorted'⟩ := List.pairwise_cons.1 hsorted
    rw [insertBackward, if_neg (hne x List.mem_cons_self).symm]
    by_cases hstop : s.staysBefore x.sequenceControl mpdu.sequenceControl = true
    · have hx : x.Before mpdu := hstays x List.mem_cons_self hstop
      have hall : ∀ y ∈ x :: q, y.Before mpdu :=
        List.forall_mem_cons.2 ⟨hx, fun y hy => (hbefore y hy).trans hx⟩
      exact ⟨_, if_pos hstop, List.Perm.refl _, List.pairwise_cons.2 ⟨hall, hsorted⟩⟩
    · have hnot : ¬ x.Before mpdu := by
        intro hx
        obtain ⟨y, hy, hor, hstop'⟩ := hlast x List.mem_cons_self hx
        rcases List.mem_cons.1 hy with rfl | hy
        · exact hstop hstop'
        · rcases hor with rfl | hxy
          · exact hstop hstop'
          · exact hxy.asymm (hbefore y hy)
      have hx : mpdu.Before x := (htotal x List.mem_cons_self).resolve_left hnot
      have hlast' : ∀ z ∈ q, z.Before mpdu → ∃ y ∈ q, (z = y ∨ z.Before y) ∧
          s.staysBefore y.sequenceControl mpdu.sequenceControl = true := by
        intro z hz hzm
        obtain ⟨y, hy, hor, hstop'⟩ := hlast z (List.mem_cons_of_mem x hz) hzm
        rcases List.mem_cons.1 hy with rfl | hy
        · exact absurd hstop' hstop
        · exact ⟨y, hy, hor, hstop'⟩
      obtain ⟨q', hq', hperm, hsorted''⟩ := ih hsorted' (List.forall_mem_cons.1 hstays).2
        (List.forall_mem_cons.1 htotal).2 (List.forall_mem_cons.1 hne).2 hlast'
      refine ⟨x :: q', by rw [if_neg hstop, hq']; rfl,
        (hperm.cons x).trans (List.Perm.swap mpdu x q), List.pairwise_cons.2 ⟨fun y hy => ?_,
          hsorted''⟩⟩
      rcases List.mem_cons.1 (hperm.mem_iff.1 hy) with rfl | hy
      · exact hx
      · exact hbefore y hy

theorem insertBackward_eq_none {mpdu x : InFlightMpdu} {q : List InFlightMpdu}
    (hsorted : q.Pairwise fun x y => y.Before x) (hx : x ∈ q)
    (heq : x.sequenceControl = mpdu.sequenceControl)
    (hnot : ∀ y ∈ q, x = y ∨ x.Before y →
      ¬ s.staysBefore y.sequenceControl mpdu.sequenceControl = true) :
    s.insertBackward mpdu q = none := by
  induction q with
  | nil => exact absurd hx List.not_mem_nil
  | cons y q ih =>
    obtain ⟨hbefore, hsorted'⟩ := List.pairwise_cons.1 hsorted
    rw [insertBackward]
    by_cases hy : mpdu.sequenceControl = y.sequenceControl
    · exact if_pos hy
    · have hxq : x ∈ q := by
        rcases List.mem_cons.1 hx with rfl | hxq
        · exact absurd heq.symm hy
        · exact hxq
      rw [if_neg hy, if_neg (hnot y List.mem_cons_self (Or.inr (hbefore x hxq))),
        ih hsorted' hxq fun z hz => hnot z (List.mem_cons_of_mem y hz)]
      rfl

theorem InFlightInv.toInFlight_number (h : s.InFlightInv) :
    (s.toInFlight mpdu).number % seqnoSpaceSize = mpdu.sequenceNumber := by
  change (s.progress + Circular.dist seqnoSpaceSize _ s.txWindow.winStart) % _ = _
  rw [← h.winStart]
  exact Circular.unwrap_mod mpdu.sequenceNumber.isLt

/-- The scan stops at an MPDU only if it is to stand before the one that is stored. -/
theorem InFlightInv.before_of_staysBefore (h : s.InFlightInv) {x : InFlightMpdu}
    (hx : x ∈ s.packetQueue) (hstays : s.staysBefore x.sequenceControl mpdu = true) :
    x.Before (s.toInFlight mpdu) := by
  rw [staysBefore, decide_eq_true_iff] at hstays
  rw [InFlightMpdu.Before]
  change _ < s.progress + s.distance mpdu.sequenceNumber ∨
    _ = s.progress + s.distance mpdu.sequenceNumber ∧ _ < mpdu.fragmentNumber
  rcases lt_or_ge x.number s.progress with hlt | hge
  · exact Or.inl (hlt.trans_le (Nat.le_add_right _ _))
  · rw [h.distance_eq hx hge] at hstays
    omega

theorem InFlightInv.before_total (h : s.InFlightInv) {x : InFlightMpdu} (hx : x ∈ s.packetQueue)
    (hne : x.sequenceControl ≠ mpdu) :
    x.Before (s.toInFlight mpdu) ∨ (s.toInFlight mpdu).Before x := by
  rcases lt_trichotomy x.number (s.toInFlight mpdu).number with hlt | heq | hgt
  · exact Or.inl (Or.inl hlt)
  · have hseq : x.sequenceControl.sequenceNumber = mpdu.sequenceNumber := by
      refine Fin.ext ?_
      rw [← h.inOrder.sequenceNumber x hx, heq, h.toInFlight_number]
    have hfrag : x.sequenceControl.fragmentNumber ≠ mpdu.fragmentNumber := by
      intro hfrag
      apply hne
      cases hc : x.sequenceControl
      cases mpdu
      rw [hc] at hseq hfrag
      exact congrArg₂ SequenceControl.mk hseq hfrag
    rcases lt_or_gt_of_ne hfrag with hlt | hgt
    · exact Or.inl (Or.inr ⟨heq, hlt⟩)
    · exact Or.inr (Or.inr ⟨heq.symm, hgt⟩)
  · exact Or.inr (Or.inl hgt)

/-- A queue with the MPDU inserted in order. -/
theorem InFlightInv.insert (h : s.InFlightInv) {q : List InFlightMpdu}
    (hnew : ¬ seqnoSpaceHalfSize ≤ s.distance mpdu.sequenceNumber)
    (hne : ∀ x ∈ s.packetQueue, x.sequenceControl ≠ mpdu)
    (hperm : q.Perm (s.toInFlight mpdu :: s.packetQueue))
    (hsorted : q.Pairwise InFlightMpdu.Before) : InFlightInv { s with packetQueue := q } where
  inOrder :=
    { sequenceNumber := fun x hx => by
        rcases List.mem_cons.1 (hperm.mem_iff.1 hx) with rfl | hx
        · exact h.toInFlight_number
        · exact h.inOrder.sequenceNumber x hx
      sorted := hsorted
      nodup := by
        refine (hperm.map _).nodup_iff.2 (List.nodup_cons.2 ⟨fun hmem => ?_, h.inOrder.nodup⟩)
        obtain ⟨x, hx, heq⟩ := List.mem_map.1 hmem
        exact hne x hx heq
      oldRemoved := h.inOrder.oldRemoved }
  winSize := h.winSize
  winStart := h.winStart
  lt x hx := by
    rcases List.mem_cons.1 (hperm.mem_iff.1 hx) with rfl | hx
    · exact Nat.add_lt_add_left (not_le.1 hnew) _
    · exact h.lt x hx

theorem InFlightInv.doStorePacket (h : s.InFlightInv) (hok : s.StoreOk mpdu) :
    (s.doStorePacket mpdu).InFlightInv := by
  have hreverse : s.packetQueue.reverse.Pairwise fun x y => y.Before x :=
    List.pairwise_reverse.2 h.inOrder.sorted
  have hmem : ∀ x, x ∈ s.packetQueue.reverse ↔ x ∈ s.packetQueue := fun x => List.mem_reverse
  unfold OriginatorAgreement.doStorePacket
  split_ifs with hold
  · exact h
  · rcases hok.resolve_left hold with ⟨x, hx, heq, hnot⟩ | ⟨hne, hlast⟩
    · have hnone : s.insertBackward (s.toInFlight mpdu) s.packetQueue.reverse = none :=
        insertBackward_eq_none hreverse ((hmem x).2 hx) heq fun y hy =>
          hnot y ((hmem y).1 hy)
      rw [hnone]
      exact h
    · obtain ⟨q, hq, hperm, hsorted⟩ := @insertBackward_sorted s (s.toInFlight mpdu) _ hreverse
        (fun x hx => h.before_of_staysBefore ((hmem x).1 hx))
        (fun x hx => h.before_total ((hmem x).1 hx) (hne x ((hmem x).1 hx)))
        (fun x hx => hne x ((hmem x).1 hx)) fun x hx hbefore => by
          obtain ⟨y, hy, hor, hstays⟩ := hlast x ((hmem x).1 hx) hbefore
          exact ⟨y, (hmem y).2 hy, hor, hstays⟩
      rw [hq]
      have hinsert := h.insert hold hne
        ((q.reverse_perm.trans hperm).trans ((s.packetQueue.reverse_perm).cons _))
        (List.pairwise_reverse.2 hsorted)
      exact hinsert.removes (hinsert.removes_setTxWindow
        BlockAckWindow.getWinSize_notifyTransmittedMpdu)

/-! ## The conditions are exact -/

/-- A removal of old MPDUs is complete if and only if all that the window moves past are old for
its new start. -/
theorem InFlightInv.oldRemoved_iff (h : s.InFlightInv) :
    (s.handleDiscardedMpdu sequenceNumber).oldRemoved = true ↔ s.DiscardOk sequenceNumber := by
  refine ⟨fun hremoved => ?_, fun hok => (h.removes_handleDiscardedMpdu hok).oldRemoved⟩
  by_cases hnew : seqnoSpaceHalfSize ≤ s.distance sequenceNumber
  · exact Or.inl hnew
  · refine Or.inr fun x hx hlt => ?_
    rw [handleDiscardedMpdu, if_neg hnew, removeOldMpdus, Bool.and_eq_true,
      List.all_eq_true] at hremoved
    rw [← winStart_notifyDiscardedMpdu hnew]
    by_contra hyoung
    have hleft := List.takeWhile_append_dropWhile (l := s.packetQueue) (p := fun mpdu =>
      decide (seqnoSpaceHalfSize ≤ getDistance mpdu.sequenceControl.sequenceNumber
        (s.txWindow.notifyDiscardedMpdu sequenceNumber).winStart))
    rw [← hleft] at hx
    rcases List.mem_append.1 hx with hx | hx
    · have hold := List.mem_takeWhile_imp hx
      exact hyoung (of_decide_eq_true hold)
    · have hle := of_decide_eq_true (hremoved.2 x hx)
      rw [h.progress_discard hnew] at hle
      exact absurd hlt (not_lt.2 hle)

theorem insertBackward_perm {mpdu : InFlightMpdu} {q q' : List InFlightMpdu}
    (hq' : s.insertBackward mpdu q = some q') : q'.Perm (mpdu :: q) := by
  induction q generalizing q' with
  | nil =>
    cases hq'
    exact List.Perm.refl _
  | cons x q ih =>
    rw [insertBackward] at hq'
    split_ifs at hq'
    · cases hq'
      exact List.Perm.refl _
    · obtain ⟨q'', hq'', rfl⟩ := Option.map_eq_some_iff.1 hq'
      exact ((ih hq'').cons x).trans (List.Perm.swap mpdu x q)

theorem last_of_insertBackward {mpdu : InFlightMpdu} {q q' : List InFlightMpdu}
    (hsorted : q.Pairwise fun x y => y.Before x) (hq' : s.insertBackward mpdu q = some q')
    (hsorted' : q'.Pairwise fun x y => y.Before x) :
    ∀ x ∈ q, x.Before mpdu → ∃ y ∈ q, (x = y ∨ x.Before y) ∧
      s.staysBefore y.sequenceControl mpdu.sequenceControl = true := by
  induction q generalizing q' with
  | nil => exact fun x hx => absurd hx List.not_mem_nil
  | cons z q ih =>
    obtain ⟨hbefore, htail⟩ := List.pairwise_cons.1 hsorted
    intro x hx hxm
    rw [insertBackward] at hq'
    split_ifs at hq' with heq hstop
    · rcases List.mem_cons.1 hx with rfl | hx
      · exact ⟨x, List.mem_cons_self, Or.inl rfl, hstop⟩
      · exact ⟨z, List.mem_cons_self, Or.inr (hbefore x hx), hstop⟩
    · obtain ⟨q'', hq'', rfl⟩ := Option.map_eq_some_iff.1 hq'
      obtain ⟨hbefore', htail'⟩ := List.pairwise_cons.1 hsorted'
      have hz : mpdu.Before z :=
        hbefore' mpdu ((insertBackward_perm hq'').mem_iff.2 List.mem_cons_self)
      rcases List.mem_cons.1 hx with rfl | hx
      · exact absurd hz hxm.asymm
      · obtain ⟨y, hy, hor, hstays⟩ := ih htail hq'' htail' x hx hxm
        exact ⟨y, List.mem_cons_of_mem z hy, hor, hstays⟩

theorem found_of_insertBackward {mpdu : InFlightMpdu} {q : List InFlightMpdu}
    (hsorted : q.Pairwise fun x y => y.Before x) (hnone : s.insertBackward mpdu q = none) :
    ∃ x ∈ q, x.sequenceControl = mpdu.sequenceControl ∧ ∀ y ∈ q, x = y ∨ x.Before y →
      ¬ s.staysBefore y.sequenceControl mpdu.sequenceControl = true := by
  induction q with
  | nil => cases hnone
  | cons z q ih =>
    obtain ⟨hbefore, htail⟩ := List.pairwise_cons.1 hsorted
    rw [insertBackward] at hnone
    split_ifs at hnone with heq hstop
    · refine ⟨z, List.mem_cons_self, heq.symm, fun y hy hor => ?_⟩
      rcases List.mem_cons.1 hy with rfl | hy
      · rw [← heq, staysBefore]
        simp
      · rcases hor with rfl | hzy
        · rw [← heq, staysBefore]
          simp
        · exact absurd (hbefore y hy) hzy.asymm
    · obtain ⟨x, hx, hcontrol, hnot⟩ := ih htail (Option.map_eq_none_iff.1 hnone)
      refine ⟨x, List.mem_cons_of_mem z hx, hcontrol, fun y hy hor => ?_⟩
      rcases List.mem_cons.1 hy with rfl | hy
      · exact hstop
      · exact hnot y hy hor

/-- The queue is in order after an MPDU is stored if and only if the scan goes as it should. -/
theorem InFlightInv.doStorePacket_inOrder_iff (h : s.InFlightInv) :
    (s.doStorePacket mpdu).InOrder ↔ s.StoreOk mpdu := by
  refine ⟨fun horder => ?_, fun hok => (h.doStorePacket hok).inOrder⟩
  have hreverse : s.packetQueue.reverse.Pairwise fun x y => y.Before x :=
    List.pairwise_reverse.2 h.inOrder.sorted
  have hmem : ∀ x, x ∈ s.packetQueue.reverse ↔ x ∈ s.packetQueue := fun x => List.mem_reverse
  unfold OriginatorAgreement.doStorePacket at horder
  split_ifs at horder with hold
  · exact Or.inl hold
  · refine Or.inr ?_
    cases hq : s.insertBackward (s.toInFlight mpdu) s.packetQueue.reverse with
    | none =>
      obtain ⟨x, hx, hcontrol, hnot⟩ := found_of_insertBackward hreverse hq
      exact Or.inl ⟨x, (hmem x).1 hx, hcontrol, fun y hy => hnot y ((hmem y).2 hy)⟩
    | some q =>
      rw [hq] at horder
      refine Or.inr ⟨fun x hx hcontrol => ?_, fun x hx hbefore => ?_⟩
      · have hperm : (q.reverse.map InFlightMpdu.sequenceControl).Perm
            (mpdu :: s.packetQueue.map InFlightMpdu.sequenceControl) :=
          ((q.reverse_perm.trans (insertBackward_perm hq)).trans
            ((s.packetQueue.reverse_perm).cons _)).map _
        have hnodup := (List.nodup_cons.1 (hperm.nodup_iff.1 horder.nodup)).1
        exact hnodup (hcontrol ▸ List.mem_map_of_mem hx)
      · obtain ⟨y, hy, hor, hstays⟩ := last_of_insertBackward hreverse hq
          (List.pairwise_reverse.1 horder.sorted) x ((hmem x).2 hx) hbefore
        exact ⟨y, (hmem y).1 hy, hor, hstays⟩

/-! ## Handling what is in flight -/

theorem InFlightInv.handleInFlightMpdu {mpdu : InFlightMpdu} {status : MpduStatus}
    {r : OriginatorAgreement × ℕ} (h : s.InFlightInv)
    (hok : status ≠ .acknowledged → info.isQueued = true ∧ info.ttlExceeded = true ∧
      info.isRetryOrInFlight = true → s.DiscardOk mpdu.sequenceControl.sequenceNumber)
    (hr : s.handleInFlightMpdu pos mpdu status info = some r) : s.Removes r.1 := by
  have herase : ∀ r, some (s.eraseAt pos, pos) = some r → s.Removes r.1 := by
    rintro r ⟨⟩
    exact h.removes_eraseAt
  unfold OriginatorAgreement.handleInFlightMpdu at hr
  dsimp only at hr
  split_ifs at hr with hqueued hacked hold hexpired hpos hremoved
  · exact herase r hr
  · exact herase r hr
  · cases hr
    exact h.removes_notifyDiscardedMpdu fun hretry => hok hacked ⟨hqueued, hexpired, hretry⟩
  · cases hr
    exact h.removes_notifyDiscardedMpdu fun hretry => hok hacked ⟨hqueued, hexpired, hretry⟩
  · cases hr
    exact h.removes_self
  · exact herase r hr
  · exact herase r hr

theorem InFlightInv.notifyGotAck (h : s.InFlightInv) :
    s.Removes (s.notifyGotAck sequenceNumber) := by
  have hset := h.removes_setTxWindow (w := s.txWindow.notifyAckedMpdu sequenceNumber)
    BlockAckWindow.getWinSize_notifyAckedMpdu
  unfold OriginatorAgreement.notifyGotAck
  dsimp only
  split
  · exact hset
  · exact hset.trans (h.removes hset).removes_eraseAt

theorem Removes.setLoop {queueLoop : Option QueueLoop} (h : s.Removes t) :
    s.Removes { t with queueLoop := queueLoop } :=
  ⟨h.packetQueue, h.winSize, h.winStart, h.progress, h.oldRemoved⟩

theorem InFlightInv.nextMpdu {queueLoop : QueueLoop} (h : s.InFlightInv)
    (hloop : s.queueLoop = some queueLoop) (hok : s.StepOk (.nextMpdu info))
    (ht : s.nextMpdu queueLoop info = some t) : s.Removes t := by
  rw [StepOk, hloop] at hok
  cases queueLoop with
  | acknowledge linkId isPacketReceived pos =>
    unfold OriginatorAgreement.nextMpdu at ht
    dsimp only at ht
    split at ht
    next =>
      cases ht
      exact h.removes_self.setLoop
    next mpdu hmpdu =>
      split at ht
      next =>
        obtain ⟨r, hr, ht⟩ := Option.bind_eq_some_iff.1 ht
        cases ht
        have hset := h.removes_setTxWindow
          (w := s.txWindow.notifyAckedMpdu mpdu.sequenceControl.sequenceNumber)
          BlockAckWindow.getWinSize_notifyAckedMpdu
        exact (hset.trans ((h.removes hset).handleInFlightMpdu (fun hne => absurd rfl hne)
          hr)).setLoop
      next =>
        cases ht
        exact h.removes_self.setLoop
  | retransmitOnlyOn linkId pos =>
    unfold OriginatorAgreement.nextMpdu at ht
    dsimp only at ht hok
    split at ht
    next =>
      cases ht
      exact h.removes_self.setLoop
    next mpdu hmpdu =>
      obtain ⟨r, hr, ht⟩ := Option.bind_eq_some_iff.1 ht
      cases ht
      exact (h.handleInFlightMpdu (fun _ hexpired => hok hexpired mpdu hmpdu) hr).setLoop
  | retransmitAllOn linkId pos =>
    unfold OriginatorAgreement.nextMpdu at ht
    dsimp only at ht hok
    split at ht
    next =>
      cases ht
      exact h.removes_self.setLoop
    next mpdu hmpdu =>
      obtain ⟨r, hr, ht⟩ := Option.bind_eq_some_iff.1 ht
      cases ht
      exact (h.handleInFlightMpdu (fun _ hexpired => hok hexpired mpdu hmpdu) hr).setLoop

/-! ## Runs -/

theorem InFlightInv.step {ev : OriginatorEvent} (h : s.InFlightInv) (hok : s.StepOk ev)
    (ht : s.step ev = some t) : t.InFlightInv := by
  cases ev with
  | storePacket mpdu =>
    obtain ⟨_, _, ht⟩ := Option.bind_eq_some_iff.1 ht
    cases ht
    exact h.doStorePacket hok
  | notifyGotAck sequenceNumber =>
    obtain ⟨_, _, ht⟩ := Option.bind_eq_some_iff.1 ht
    cases ht
    exact h.removes h.notifyGotAck
  | notifyMissedAck sequenceNumber info =>
    obtain ⟨_, _, ht⟩ := Option.bind_eq_some_iff.1 ht
    unfold OriginatorAgreement.notifyMissedAck at ht
    split at ht
    next =>
      cases ht
      exact h
    next pos hpos =>
      obtain ⟨mpdu, hmpdu, ht⟩ := Option.bind_eq_some_iff.1 ht
      obtain ⟨r, hr, ht⟩ := Option.bind_eq_some_iff.1 ht
      cases ht
      exact h.removes (h.handleInFlightMpdu (fun _ hexpired => hok pos hpos hexpired mpdu hmpdu) hr)
  | notifyGotBlockAck linkId isPacketReceived =>
    obtain ⟨_, _, ht⟩ := Option.bind_eq_some_iff.1 ht
    cases ht
    exact h.removes h.removes_self.setLoop
  | notifyMissedBlockAck linkId =>
    obtain ⟨_, _, ht⟩ := Option.bind_eq_some_iff.1 ht
    cases ht
    exact h.removes h.removes_self.setLoop
  | nextMpdu info =>
    obtain ⟨queueLoop, hloop, ht⟩ := Option.bind_eq_some_iff.1 ht
    exact h.removes (h.nextMpdu hloop hok ht)
  | notifyDiscardedMpdu sequenceNumber isRetryOrInFlight =>
    obtain ⟨_, _, ht⟩ := Option.bind_eq_some_iff.1 ht
    cases ht
    exact h.removes (h.removes_notifyDiscardedMpdu hok)

/-- In a run of such steps the queue is always in order, and every removal of old MPDUs has been
complete. -/
theorem inOrder_of_reached {bufferSize : ℕ} (hsize : bufferSize ≤ 1024) (startingSeq : SeqNo)
    (hs : Runs.Reached OriginatorAgreement.step StepOk (init bufferSize startingSeq) s) :
    s.InOrder :=
  (hs.invariant (fun _ _ _ h hok ht => h.step hok ht) (inFlightInv_init hsize startingSeq)).inOrder

/-- With a window of four numbers, MPDU 5 makes MPDU 0 old, and MPDU 3 is inserted after MPDU 2. The
discard of MPDU 2 removes the first two. -/
theorem inOrder_discard : ∃ s, Runs.Reached OriginatorAgreement.step StepOk (init 4 0) s ∧
    s.packetQueue.map InFlightMpdu.number = [3, 5] ∧ s.InOrder := by
  have hsteps : (((init 4 0).step (.storePacket ⟨0, 0⟩)).any fun t =>
      (t.step (.storePacket ⟨2, 0⟩)).any fun u => (u.step (.storePacket ⟨5, 0⟩)).any fun v =>
        (v.step (.storePacket ⟨3, 0⟩)).any fun w =>
          (w.step (.notifyDiscardedMpdu 2 true)).any fun x =>
            (init 4 0).StoreOk ⟨0, 0⟩ ∧ t.StoreOk ⟨2, 0⟩ ∧ u.StoreOk ⟨5, 0⟩ ∧
              v.StoreOk ⟨3, 0⟩ ∧ w.DiscardOk 2 ∧
              x.packetQueue.map InFlightMpdu.number = [3, 5]) = true := by
    decide +kernel
  obtain ⟨t, ht, htu⟩ := (Option.any_eq_true _ _).1 hsteps
  obtain ⟨u, hu, huv⟩ := (Option.any_eq_true _ _).1 htu
  obtain ⟨v, hv, hvw⟩ := (Option.any_eq_true _ _).1 huv
  obtain ⟨w, hw, hwx⟩ := (Option.any_eq_true _ _).1 hvw
  obtain ⟨x, hx, hall⟩ := (Option.any_eq_true _ _).1 hwx
  obtain ⟨hok0, hok2, hok5, hok3, hok, hqueue⟩ := of_decide_eq_true hall
  have hstore : Runs.Reached OriginatorAgreement.step StepOk (init 4 0) v :=
    ((Runs.Reached.start.step (a := .storePacket ⟨0, 0⟩) hok0 ht).step
      (a := .storePacket ⟨2, 0⟩) hok2 hu).step (a := .storePacket ⟨5, 0⟩) hok5 hv
  have hrun : Runs.Reached OriginatorAgreement.step StepOk (init 4 0) x :=
    (hstore.step (a := OriginatorEvent.storePacket ⟨3, 0⟩) hok3 hw).step
      (a := OriginatorEvent.notifyDiscardedMpdu 2 true) (fun _ => hok) hx
  exact ⟨x, hrun, hqueue, inOrder_of_reached (by decide) 0 hrun⟩

/-- MPDU 10 makes MPDU 0 old, MPDU 8 is then inserted before it, and the discard of MPDU 7 stops at
MPDU 8. -/
theorem not_inOrder : ¬ ∀ (bufferSize : ℕ) (startingSeq : SeqNo) (s : OriginatorAgreement),
    bufferSize ≤ 1024 →
      Runs.Reached OriginatorAgreement.step (fun _ _ => True) (init bufferSize startingSeq) s →
        s.InOrder := by
  intro hall
  have hsteps : (((init 4 0).step (.storePacket ⟨0, 0⟩)).any fun t =>
      (t.step (.storePacket ⟨10, 0⟩)).any fun u => (u.step (.storePacket ⟨8, 0⟩)).any fun v =>
        (v.step (.notifyDiscardedMpdu 7 true)).any fun w =>
          w.packetQueue.map InFlightMpdu.number = [8, 0, 10] ∧ w.oldRemoved = false) = true := by
    decide +kernel
  obtain ⟨t, ht, htu⟩ := (Option.any_eq_true _ _).1 hsteps
  obtain ⟨u, hu, huv⟩ := (Option.any_eq_true _ _).1 htu
  obtain ⟨v, hv, hvw⟩ := (Option.any_eq_true _ _).1 huv
  obtain ⟨w, hw, hqueue⟩ := (Option.any_eq_true _ _).1 hvw
  have hold : w.oldRemoved = false := (of_decide_eq_true hqueue).2
  have hrun : Runs.Reached OriginatorAgreement.step (fun _ _ => True) (init 4 0) w :=
    (((Runs.Reached.start.step trivial ht).step trivial hu).step trivial hv).step trivial hw
  have hremoved := (hall 4 0 w (by decide) hrun).oldRemoved
  rw [hold] at hremoved
  cases hremoved

end OriginatorAgreement

end Ns3Pedca
