import Ns3Pedca.Internet.TcpStream

/-!
# The sender of an established connection

`TcpSocketBase` in the state ESTABLISHED, as far as it sends data : the transmit buffer with its
scoreboard, the marks of what has been sent and acknowledged, the congestion state and the
counter of duplicate acknowledgments, and the estimate of the round trip.

The congestion control and the recovery algorithm are objects of other classes. `CongestionOps`
has their functions, which may read all of the socket and set their own state and the windows.
`check` records whether the assertions of `EnterCwr`, `EnterRecovery` and `DupAck` have held so
far, and the function goes on. A function returns `none` where the transmit buffer does, when it
follows a null item, and when the connection is given up.

An acknowledgment is processed up to the call of `SendPendingData`, each pass of which is an event
of its own. Whether a data segment is acknowledged at once and how many bytes the rate
estimation calls delivered are inputs.
-/

namespace Ns3Pedca

/-- `TcpCongState_t`. -/
inductive CongState
  | caOpen
  | caDisorder
  | caCwr
  | caRecovery
  | caLoss
  deriving DecidableEq

/-- `EcnState_t`. -/
inductive EcnState
  | disabled
  | idle
  | ceRcvd
  | sendingEce
  | eceRcvd
  | cwrSent
  deriving DecidableEq

/-- `TcpCAEvent_t`. -/
inductive CaEvent
  | txStart
  | completeCwr
  | loss
  | ecnNoCe
  | ecnIsCe
  | delayedAck
  | nonDelayedAck

/-- `RttHistory`. -/
structure RttHistory where
  seq : SequenceNumber32
  count : UInt32
  time : ℤ
  retx : Bool := false
  deriving DecidableEq

/-- What `RttEstimator` keeps, in nanoseconds. -/
structure RttEstimator where
  estimatedRtt : ℤ
  estimatedVariation : ℤ
  nSamples : UInt32
  deriving DecidableEq

/-- A call of the congestion control, or of the recovery algorithm. -/
inductive ControlCall
  | pktsAcked (segmentsAcked : UInt32)
  | increaseWindow (segmentsAcked : UInt32)
  | congestionStateSet (state : CongState)
  | cwndEvent (event : CaEvent)
  | congControl
  | enterRecovery (dupAckCount unAckDataCount deliveredBytes : UInt32)
  | doRecovery (deliveredBytes : UInt32) (isDupAck : Bool)
  | exitRecovery
  | updateBytesSent (bytesSent : UInt32)

/-- `TcpSocketBase`, with congestion objects of state `γ`. -/
structure TcpSocketBase (γ : Type) where
  txBuffer : TcpTxBuffer
  control : γ
  cWnd : UInt32
  cWndInfl : UInt32
  ssThresh : UInt32
  segmentSize : UInt32
  congState : CongState := .caOpen
  ecnState : EcnState
  ecnEchoSeq : SequenceNumber32 := ⟨0⟩
  ecnCWRSeq : SequenceNumber32 := ⟨0⟩
  highTxMark : SequenceNumber32
  nextTxSequence : SequenceNumber32
  lastAckedSeq : SequenceNumber32 := ⟨0⟩
  lastAckedSackedBytes : UInt32 := 0
  isRetransDataAcked : Bool := false
  dupAckCount : UInt32 := 0
  retxThresh : UInt32
  recover : SequenceNumber32 := ⟨0⟩
  recoverActive : Bool := false
  isFirstPartialAck : Bool := true
  bytesAckedNotProcessed : UInt32 := 0
  highRxAckMark : SequenceNumber32
  highRxMark : SequenceNumber32
  rWnd : UInt32
  sndWindShift : UInt32
  sndFack : UInt32 := 0
  sackEnabled : Bool
  fackEnabled : Bool
  limitedTx : Bool
  noDelay : Bool
  timestampEnabled : Bool
  history : List RttHistory := []
  rtt : RttEstimator
  lastRtt : ℤ := 0
  srtt : ℤ := 0
  minRtt : ℤ
  rto : ℤ
  minRto : ℤ
  clockGranularity : ℤ
  dataRetries : UInt32
  dataRetrCount : UInt32
  /-- The retransmission timer is pending. -/
  retxEvent : Bool := false
  /-- The persist timer is pending. -/
  persistEvent : Bool := false
  /-- The assertions have held. -/
  checked : Bool := true

/-- The functions of the congestion control, the recovery algorithm and the estimator of the
round trip. -/
structure CongestionOps (γ : Type) where
  hasCongControl : Bool
  getSsThresh : TcpSocketBase γ → UInt32 → UInt32
  /-- The state of the objects, and `m_cWnd`, `m_cWndInfl` and `m_ssThresh`. -/
  call : ControlCall → TcpSocketBase γ → γ × UInt32 × UInt32 × UInt32
  measurement : RttEstimator → ℤ → RttEstimator

/-- A segment with the flag ACK, and neither SYN, FIN nor RST. -/
structure AckSegment where
  sequenceNumber : SequenceNumber32
  ackNumber : SequenceNumber32
  windowSize : UInt32
  cwr : Bool := false
  ece : Bool := false
  /-- The echo of the timestamp option, if there is one. -/
  tsEcho : Option UInt32 := none
  /-- The blocks of each SACK option. -/
  sacks : List (List (SequenceNumber32 × SequenceNumber32)) := []
  /-- The bytes of data. -/
  size : ℕ := 0
  /-- `ReceivedData` acknowledges the data at once. -/
  answered : Bool := false

namespace TcpTxBuffer

/-- `IsRetransmittedDataAcked`. -/
def isRetransmittedDataAcked (b : TcpTxBuffer) (ack : SequenceNumber32) : Bool :=
  b.sentList.any fun t => decide (t.startSeq + t.size = ack) && !t.sacked && t.retrans

/-- `IsHeadRetransmitted`. -/
def isHeadRetransmitted (b : TcpTxBuffer) : Bool :=
  if b.sentSize = 0 then false else b.sentList.head?.any (·.retrans)

end TcpTxBuffer

namespace TcpSocketBase

variable {γ : Type} (ops : CongestionOps γ)

/-- An assertion. -/
def check (p : Prop) [Decidable p] (s : TcpSocketBase γ) : TcpSocketBase γ :=
  { s with checked := s.checked && decide p }

/-- A call of the congestion objects. -/
def invoke (call : ControlCall) (s : TcpSocketBase γ) : TcpSocketBase γ :=
  let r := ops.call call s
  { s with control := r.1, cWnd := r.2.1, cWndInfl := r.2.2.1, ssThresh := r.2.2.2 }

/-- A call that is made on a condition. -/
def invokeIf (p : Prop) [Decidable p] (call : ControlCall) (s : TcpSocketBase γ) :
    TcpSocketBase γ :=
  if p then s.invoke ops call else s

def withBuffer (b : TcpTxBuffer) (s : TcpSocketBase γ) : TcpSocketBase γ :=
  { s with txBuffer := b }

def withNext (next : SequenceNumber32) (s : TcpSocketBase γ) : TcpSocketBase γ :=
  { s with nextTxSequence := next }

def withCongState (state : CongState) (s : TcpSocketBase γ) : TcpSocketBase γ :=
  { s with congState := state }

def withDupAckCount (count : UInt32) (s : TcpSocketBase γ) : TcpSocketBase γ :=
  { s with dupAckCount := count }

def withWindows (cWnd cWndInfl ssThresh : UInt32) (s : TcpSocketBase γ) : TcpSocketBase γ :=
  { s with cWnd := cWnd, cWndInfl := cWndInfl, ssThresh := ssThresh }

def withDelivered (bytes : UInt32) (s : TcpSocketBase γ) : TcpSocketBase γ :=
  { s with lastAckedSackedBytes := bytes }

def withFirstPartialAck (isFirst : Bool) (s : TcpSocketBase γ) : TcpSocketBase γ :=
  { s with isFirstPartialAck := isFirst }

/-- `UnAckDataCount`. -/
def unAckDataCount (s : TcpSocketBase γ) : UInt32 :=
  s.highTxMark - s.txBuffer.firstByteSeq

/-- `Window`. -/
def window (s : TcpSocketBase γ) : UInt32 :=
  min s.rWnd s.cWnd

/-- The estimate of the data outstanding of `AvailableWindow` with FACK. -/
def fackAwnd (s : TcpSocketBase γ) : UInt32 :=
  s.highTxMark.value - s.sndFack + s.txBuffer.retrans

/-- `AvailableWindow`. -/
def availableWindow (s : TcpSocketBase γ) : UInt32 :=
  if s.sackEnabled = true ∧ s.fackEnabled = true ∧ s.ssThresh ≤ s.window then
    if s.fackAwnd < s.window then s.window - s.fackAwnd else 0
  else if s.window ≤ s.txBuffer.bytesInFlight then 0
  else s.window - s.txBuffer.bytesInFlight

/-- The retransmission timeout that the estimate of the round trip gives. -/
def estimatedRto (s : TcpSocketBase γ) : ℤ :=
  max (s.rtt.estimatedRtt + max s.clockGranularity (s.rtt.estimatedVariation * 4)) s.minRto

/-- `SendEmptyPacket` with the flag ACK, and ECE if the state asks for it. -/
def sendEmptyPacket (s : TcpSocketBase γ) : TcpSocketBase γ :=
  { s with
    rto := s.estimatedRto
    ecnState :=
      if s.ecnState = .ceRcvd ∨ s.ecnState = .sendingEce then .sendingEce else s.ecnState }

/-! ## Transmission -/

/-- The loop of `UpdateRttHistory`, for a retransmission. -/
def markRetransmitted (seq : SequenceNumber32) (sz : UInt32) : List RttHistory → List RttHistory
  | [] => []
  | i :: rest =>
    if i.seq ≤ seq ∧ seq < i.seq + i.count then
      { i with retx := true, count := seq + sz - i.seq } :: rest
    else i :: markRetransmitted seq sz rest

/-- `UpdateRttHistory`. -/
def updateRttHistory (s : TcpSocketBase γ) (now : ℕ) (seq : SequenceNumber32) (sz : UInt32)
    (isRetransmission : Bool) : TcpSocketBase γ :=
  { s with
    history :=
      if isRetransmission then markRetransmitted seq sz s.history
      else s.history ++ [{ seq := seq, count := sz, time := now }] }

/-- The part of `SendDataPacket` that answers an echo of congestion. -/
def sendCwr (seq : SequenceNumber32) (isRetransmission : Bool) (s : TcpSocketBase γ) :
    TcpSocketBase γ :=
  if s.ecnState = .eceRcvd ∧ s.ecnCWRSeq < s.ecnEchoSeq ∧ isRetransmission = false then
    { s with ecnState := .cwrSent, ecnCWRSeq := seq }
  else s

/-- The retransmission timer is pending. -/
def startReTxTimer (s : TcpSocketBase γ) : TcpSocketBase γ :=
  { s with retxEvent := true }

/-- The update of `m_highTxMark`. -/
def raiseHighTxMark (mark : SequenceNumber32) (s : TcpSocketBase γ) : TcpSocketBase γ :=
  { s with highTxMark := if mark < s.highTxMark then s.highTxMark else mark }

/-- `SendDataPacket` : the bytes sent. -/
def sendDataPacket (now : ℕ) (seq : SequenceNumber32) (maxSize : UInt32) (s : TcpSocketBase γ) :
    Option (UInt32 × TcpSocketBase γ) :=
  match s.txBuffer.copyFromSequence now maxSize seq with
  | some (some item, b) =>
    let s := ((s.withBuffer b).startReTxTimer.sendCwr seq item.retrans).updateRttHistory
      now seq item.size item.retrans
    let s := s.invokeIf ops (s.congState = .caRecovery ∨ s.congState = .caCwr)
      (.updateBytesSent item.size)
    some (item.size, s.raiseHighTxMark (seq + item.size))
  | _ => none

/-- What `DoRetransmit` sends : the first segment that is lost, or else the head. -/
def retransmission (s : TcpSocketBase γ) : SequenceNumber32 × UInt32 :=
  match s.txBuffer.nextSeg false s.rWnd with
  | some (seq, seqHigh) => (seq, seqHigh - seq)
  | none => (s.txBuffer.firstByteSeq, s.segmentSize)

/-- `DoRetransmit`. -/
def doRetransmit (now : ℕ) (s : TcpSocketBase γ) : Option (TcpSocketBase γ) :=
  ((s.withNext s.retransmission.1).sendDataPacket ops now s.retransmission.1
    s.retransmission.2).map Prod.snd

/-- One pass of the loop of `SendPendingData`. (What the application adds when it is told of the
free space is an event before.) -/
def sendPendingData (now : ℕ) (s : TcpSocketBase γ) : Option (TcpSocketBase γ) :=
  if s.txBuffer.size = 0 ∨ s.availableWindow = 0 then some s
  else
    match s.txBuffer.nextSeg (s.sackEnabled && decide (s.congState = .caRecovery)) s.rWnd with
    | none => some s
    | some (next, nextHigh) =>
      let availableData := s.txBuffer.sizeFromSequence next
      if (s.availableWindow < s.segmentSize ∧ s.availableWindow < availableData) ∨
          (s.noDelay = false ∧ 0 < s.unAckDataCount ∧ availableData < s.segmentSize) then
        some s
      else
        let size := min (min s.availableWindow s.segmentSize) (nextHigh - next)
        (((s.withNext next).invokeIf ops (s.txBuffer.bytesInFlight = 0)
          (.cwndEvent .txStart)).sendDataPacket ops now next size).map fun r =>
            r.2.withNext (r.2.nextTxSequence + r.1)

/-- `PersistTimeout`. -/
def persistTimeout (now : ℕ) (s : TcpSocketBase γ) : Option (TcpSocketBase γ) :=
  match s.txBuffer.copyFromSequence now 1 s.nextTxSequence with
  | some (some _, b) => some (s.withBuffer b.resetLastSegmentSent)
  | _ => none

/-- What `ReTxTimeout` does before the congestion control is told. -/
def loseSent (s : TcpSocketBase γ) : TcpSocketBase γ :=
  let b := if s.sackEnabled then s.txBuffer else s.txBuffer.resetRenoSack
  { s with
    retxEvent := false
    dataRetrCount := s.dataRetrCount - 1
    dupAckCount := 0
    txBuffer := b.setSentListLost (!s.sackEnabled)
    recover := s.highTxMark
    recoverActive := true
    rto := min (s.rto + s.rto) 60000000000
    history := [] }

/-- `ReTxTimeout`. -/
def reTxTimeout (s : TcpSocketBase γ) : Option (TcpSocketBase γ) :=
  if s.txBuffer.size = 0 then some { s with retxEvent := false }
  else if s.dataRetrCount = 0 then none
  else
    let inFlightBeforeRto := s.txBuffer.bytesInFlight
    let s := s.loseSent
    let ssThresh :=
      if s.congState ≠ .caLoss ∨ s.txBuffer.isHeadRetransmitted = false then
        ops.getSsThresh s inFlightBeforeRto
      else s.ssThresh
    let s := ((s.withWindows s.cWnd s.cWndInfl ssThresh).invoke ops (.cwndEvent .loss)).invoke ops
      (.congestionStateSet .caLoss)
    some ((s.withCongState .caLoss).withWindows s.segmentSize s.segmentSize s.ssThresh)

/-! ## Duplicate acknowledgments -/

/-- `AddRenoSack` of the buffer. -/
def addRenoSack (s : TcpSocketBase γ) : Option (TcpSocketBase γ) :=
  s.txBuffer.addRenoSack.map fun b => s.withBuffer b

/-- CA_CWR up to all that has been sent. -/
def beginCwr (s : TcpSocketBase γ) : TcpSocketBase γ :=
  { s with congState := .caCwr, recover := s.highTxMark }

/-- `EnterCwr`. -/
def enterCwr (currentDelivered : UInt32) (s : TcpSocketBase γ) : TcpSocketBase γ :=
  let ssThresh := ops.getSsThresh s s.txBuffer.bytesInFlight
  let s := ((s.withWindows s.cWnd ssThresh ssThresh).check (s.congState ≠ .caCwr)).beginCwr
  s.invokeIf ops (ops.hasCongControl = false)
    (.enterRecovery s.dupAckCount s.unAckDataCount currentDelivered)

/-- The head is lost. -/
def loseHead (s : TcpSocketBase γ) : Option TcpTxBuffer :=
  if s.sackEnabled then
    if s.txBuffer.isLost s.txBuffer.firstByteSeq then some s.txBuffer
    else some s.txBuffer.markHeadAsLost
  else s.txBuffer.addRenoSack.map TcpTxBuffer.markHeadAsLost

/-- CA_RECOVERY up to all that has been sent. -/
def beginRecovery (s : TcpSocketBase γ) : TcpSocketBase γ :=
  ({ s with recover := s.highTxMark, recoverActive := true }.invoke ops
    (.congestionStateSet .caRecovery)).withCongState .caRecovery

/-- `EnterRecovery`. -/
def enterRecovery (now : ℕ) (currentDelivered : UInt32) (s : TcpSocketBase γ) :
    Option (TcpSocketBase γ) :=
  s.loseHead.bind fun b =>
    let s := ((s.check (s.congState ≠ .caRecovery)).withBuffer b).beginRecovery ops
    let bytesInFlight :=
      if s.sackEnabled then b.bytesInFlight else b.bytesInFlight + s.segmentSize
    let s := s.withWindows s.cWnd s.cWndInfl (ops.getSsThresh s bytesInFlight)
    let s := s.invokeIf ops (ops.hasCongControl = false)
      (.enterRecovery s.dupAckCount s.unAckDataCount currentDelivered)
    (s.sendDataPacket ops now s.highRxAckMark s.segmentSize).map fun r => r.2.check (0 < r.1)

/-- How far the forward-most acknowledgment is beyond the head. -/
def fackDiff (s : TcpSocketBase γ) : UInt32 :=
  if s.txBuffer.firstByteSeq.value < s.sndFack then s.sndFack - s.txBuffer.firstByteSeq.value
  else 0

/-- `DupAck` in the state CA_DISORDER. -/
def dupAckDisorder (now : ℕ) (currentDelivered : UInt32) (s : TcpSocketBase γ) :
    Option (TcpSocketBase γ) :=
  let s := s.check (s.dupAckCount ≤ s.retxThresh ∨ s.recoverActive = true)
  if (s.fackEnabled = true ∧ s.segmentSize * 3 < s.fackDiff) ∨
      (s.dupAckCount = s.retxThresh ∧ (s.recover ≤ s.highRxAckMark ∨ s.recoverActive = false)) then
    s.enterRecovery ops now currentDelivered
  else if s.txBuffer.isLost s.highRxAckMark then s.enterRecovery ops now currentDelivered
  else if s.sackEnabled = false ∧ s.limitedTx = true then s.addRenoSack
  else some s

/-- `DupAck`. -/
def dupAck (now : ℕ) (currentDelivered : UInt32) (s : TcpSocketBase γ) :
    Option (TcpSocketBase γ) :=
  match s.congState with
  | .caLoss => some s
  | .caRecovery =>
    (if s.sackEnabled then some s else s.addRenoSack).map fun s =>
      s.invokeIf ops (ops.hasCongControl = false) (.doRecovery currentDelivered true)
  | .caCwr => some (s.withDupAckCount (s.dupAckCount + 1))
  | .caDisorder =>
    (s.withDupAckCount (s.dupAckCount + 1)).dupAckDisorder ops now currentDelivered
  | .caOpen =>
    let s := s.withDupAckCount (s.dupAckCount + 1)
    let s := (s.check (s.dupAckCount = 1)).invoke ops (.congestionStateSet .caDisorder)
    (s.withCongState .caDisorder).dupAckDisorder ops now currentDelivered

/-! ## Acknowledgments -/

/-- `NewAck`. -/
def newAck (ack : SequenceNumber32) (resetRTO : Bool) (s : TcpSocketBase γ) : TcpSocketBase γ :=
  { s with
    dataRetrCount := s.dataRetries
    sndFack := if s.fackEnabled = true ∧ s.sndFack < ack.value then ack.value else s.sndFack
    rto := if resetRTO then s.estimatedRto else s.rto
    retxEvent := if s.txBuffer.size = 0 then false else resetRTO || s.retxEvent
    nextTxSequence := if s.nextTxSequence < ack then ack else s.nextTxSequence }

/-- The retransmission after a partial acknowledgment. -/
def retransmitNext (now : ℕ) (ack : SequenceNumber32) (bytesAcked : UInt32)
    (s : TcpSocketBase γ) : Option (TcpSocketBase γ) :=
  if s.txBuffer.isRetransmittedDataAcked (ack + s.segmentSize) then some s
  else (s.doRetransmit ops now).map fun s =>
    s.withWindows s.cWnd (if bytesAcked < s.cWndInfl then s.cWndInfl - bytesAcked else 0) s.ssThresh

/-- An acknowledgment of new data in the state CA_RECOVERY, below the recovery point. -/
def partialAck (now : ℕ) (ack : SequenceNumber32) (segsAcked bytesAcked currentDelivered : UInt32)
    (s : TcpSocketBase γ) : Option (TcpSocketBase γ) :=
  let b := if s.sackEnabled then s.txBuffer else s.txBuffer.markHeadAsLost
  let s := (s.withBuffer b).invokeIf ops (ops.hasCongControl = false ∧ 1 ≤ segsAcked)
    (.doRecovery currentDelivered false)
  (s.retransmitNext ops now ack bytesAcked).map fun s =>
    ((s.invoke ops (.pktsAcked 1)).newAck ack s.isFirstPartialAck).withFirstPartialAck false

/-- The congestion state after an acknowledgment of new data that is not a partial one, with the
segments that it acknowledges. -/
def leaveCongState (ack old : SequenceNumber32) (isDupack : Bool)
    (segsAcked oldDupAckCount : UInt32) (s : TcpSocketBase γ) : UInt32 × TcpSocketBase γ :=
  match s.congState with
  | .caOpen => (segsAcked, s.invoke ops (.pktsAcked segsAcked))
  | .caDisorder =>
    let s := s.invokeIf ops (oldDupAckCount ≤ segsAcked) (.pktsAcked (segsAcked - oldDupAckCount))
    (segsAcked, if isDupack then s
      else (s.invoke ops (.congestionStateSet .caOpen)).withCongState .caOpen)
  | .caRecovery =>
    let segs := (ack - old) / s.segmentSize
    let s := ((s.withFirstPartialAck true).invoke ops (.pktsAcked segs)).invoke ops
      (.cwndEvent .completeCwr)
    (segs, ((s.invoke ops (.congestionStateSet .caOpen)).withCongState .caOpen).withDupAckCount 0)
  | .caLoss =>
    let segs := (ack - s.recover) / s.segmentSize
    let s := (s.withFirstPartialAck true).invoke ops (.pktsAcked segs)
    (segs, (s.invoke ops (.congestionStateSet .caOpen)).withCongState .caOpen)
  | .caCwr => (segsAcked, s)

/-- The recovery point is reached. -/
def clearRecover (ack : SequenceNumber32) (s : TcpSocketBase γ) : TcpSocketBase γ :=
  { s with recoverActive := if s.recover ≤ ack then false else s.recoverActive }

/-- The end of fast recovery. -/
def exitFastRecovery (ack : SequenceNumber32) (s : TcpSocketBase γ) : TcpSocketBase γ :=
  let s := s.newAck ack true
  (s.withWindows s.ssThresh s.cWndInfl s.ssThresh).invoke ops .exitRecovery

/-- The window grows in the state CA_OPEN. -/
def growWindow (ack : SequenceNumber32) (segsAcked : UInt32) (s : TcpSocketBase γ) :
    TcpSocketBase γ :=
  let s := s.invoke ops (.increaseWindow segsAcked)
  (s.withWindows s.cWnd s.cWnd s.ssThresh).newAck ack true

/-- The last branch of `ProcessAck`. -/
def completeAck (ack old : SequenceNumber32) (isDupack : Bool)
    (segsAcked oldDupAckCount : UInt32) (s : TcpSocketBase γ) : TcpSocketBase γ :=
  let r := s.leaveCongState ops ack old isDupack segsAcked oldDupAckCount
  let left := r.2.clearRecover ack
  let left := if s.congState = .caRecovery then left.exitFastRecovery ops ack else left
  if left.congState = .caOpen then left.growWindow ops ack r.1 else left

/-- The segments and the bytes that an acknowledgment of new data counts, and the counters after
it. -/
def countAcked (currentDelivered : UInt32) (isDupack : Bool) (s : TcpSocketBase γ) :
    UInt32 × UInt32 × TcpSocketBase γ :=
  let rest := currentDelivered % s.segmentSize
  let notProcessed := s.bytesAckedNotProcessed + rest
  let more := s.segmentSize ≤ notProcessed
  (currentDelivered / s.segmentSize + (if more then 1 else 0),
    currentDelivered - rest + (if more then s.segmentSize else 0), { s with
      bytesAckedNotProcessed := notProcessed - (if more then s.segmentSize else 0)
      dupAckCount := if isDupack then s.dupAckCount else 0 })

/-- The congestion state machine of `ProcessAck`, for an acknowledgment of new data. -/
def processNewData (now : ℕ) (ack old : SequenceNumber32) (isDupack : Bool)
    (currentDelivered segsAcked bytesAcked oldDupAckCount : UInt32) (s : TcpSocketBase γ) :
    Option (TcpSocketBase γ) :=
  if ack < s.recover ∧ s.congState = .caRecovery then
    s.partialAck ops now ack segsAcked bytesAcked currentDelivered
  else if ack < s.recover ∧ s.congState = .caLoss then
    some (((s.invoke ops (.pktsAcked segsAcked)).invoke ops (.increaseWindow segsAcked)).newAck
      ack true)
  else if s.congState = .caCwr then
    some (((s.invoke ops (.pktsAcked segsAcked)).invokeIf ops
      (ops.hasCongControl = false ∧ 1 ≤ segsAcked) (.doRecovery currentDelivered false)).newAck
        ack true)
  else some (s.completeAck ops ack old isDupack segsAcked oldDupAckCount)

/-- The branch of `ProcessAck` for an acknowledgment of new data. -/
def advance (now : ℕ) (ack old : SequenceNumber32) (isDupack : Bool)
    (currentDelivered oldDupAckCount : UInt32) (s : TcpSocketBase γ) :
    Option (TcpSocketBase γ) :=
  let r := s.countAcked currentDelivered isDupack
  r.2.2.processNewData ops now ack old isDupack currentDelivered r.1 r.2.1 oldDupAckCount

/-- The branches of `ProcessAck` after the duplicate acknowledgment. -/
def processNumber (now : ℕ) (ack old : SequenceNumber32) (isDupack : Bool)
    (currentDelivered oldDupAckCount : UInt32) (s : TcpSocketBase γ) :
    Option (TcpSocketBase γ) :=
  if ack = old ∧ ack = s.highTxMark then some s
  else if ack = old ∧ s.highTxMark < ack then some (s.withNext ack)
  else if ack = old then some (s.invoke ops (.pktsAcked 1))
  else if old < ack then s.advance ops now ack old isDupack currentDelivered oldDupAckCount
  else some s

/-- `isDupack` of `ProcessAck`. -/
def isDupack (ack old : SequenceNumber32) (scoreboardUpdated receivedData : Bool)
    (s : TcpSocketBase γ) : Bool :=
  if s.sackEnabled then scoreboardUpdated
  else decide (ack = old) && decide (ack < s.highTxMark) && !receivedData

/-- `ProcessAck`. -/
def processAck (now : ℕ) (ack : SequenceNumber32) (scoreboardUpdated : Bool)
    (currentDelivered : UInt32) (old : SequenceNumber32) (receivedData : Bool)
    (s : TcpSocketBase γ) : Option (TcpSocketBase γ) :=
  let isDupack := s.isDupack ack old scoreboardUpdated receivedData
  let oldDupAckCount := s.dupAckCount
  let s := { s with lastAckedSeq := ack }
  (if isDupack then s.dupAck ops now currentDelivered else some s).bind fun s =>
    s.processNumber ops now ack old isDupack currentDelivered oldDupAckCount

/-- `ProcessOptionSack`. -/
def processOptionSack (list : List (SequenceNumber32 × SequenceNumber32))
    (s : TcpSocketBase γ) : Option (UInt32 × TcpSocketBase γ) :=
  let sndFack :=
    if s.fackEnabled then
      list.foldl (fun fack (block : SequenceNumber32 × SequenceNumber32) =>
        if fack < block.2.value then block.2.value else fack) s.sndFack
    else s.sndFack
  (s.txBuffer.update list).map fun r => (r.1, { s with sndFack := sndFack, txBuffer := r.2 })

/-- `ReadOptions`. -/
def readOptions : List (List (SequenceNumber32 × SequenceNumber32)) → UInt32 → TcpSocketBase γ →
    Option (UInt32 × TcpSocketBase γ)
  | [], bytesSacked, s => some (bytesSacked, s)
  | list :: sacks, _, s =>
    (s.processOptionSack list).bind fun r => readOptions sacks r.1 r.2

/-- The loop of `ReceivedAck` that looks for an acknowledgment of a retransmission. -/
def findRetransDataAcked (ack : SequenceNumber32) (s : TcpSocketBase γ) : TcpSocketBase γ :=
  if s.txBuffer.firstByteSeq < ack ∧ ack < s.recover ∧ s.congState = .caRecovery then
    let segAcked := (ack - s.txBuffer.firstByteSeq) / s.segmentSize
    let found := (List.range segAcked.toNat).any fun i =>
      s.txBuffer.isRetransmittedDataAcked ⟨ack.value - .ofNat i * s.segmentSize⟩
    { s with isRetransDataAcked := found || s.isRetransDataAcked }
  else s

/-- The end of CA_CWR in `ReceivedAck`. -/
def leaveCwr (ack : SequenceNumber32) (s : TcpSocketBase γ) : TcpSocketBase γ :=
  if s.congState = .caCwr ∧ s.recover < ack then
    let s := s.withCongState .caOpen
    if ops.hasCongControl then s
    else
      ((s.withWindows s.ssThresh s.cWndInfl s.ssThresh).invoke ops .exitRecovery).invoke ops
        (.cwndEvent .completeCwr)
  else s

/-- An echo of congestion is noted. -/
def noteEcho (ack : SequenceNumber32) (s : TcpSocketBase γ) : TcpSocketBase γ :=
  { s with ecnEchoSeq := ack, ecnState := .eceRcvd }

/-- The part of `ReceivedAck` about the echo of congestion. -/
def processEce (ack old : SequenceNumber32) (ece : Bool) (currentDelivered : UInt32)
    (s : TcpSocketBase γ) : TcpSocketBase γ :=
  if old < ack ∧ s.ecnState ≠ .disabled ∧ ece = true then
    if s.ecnEchoSeq < ack then
      if s.congState ≠ .caCwr then (s.noteEcho ack).enterCwr ops currentDelivered
      else s.noteEcho ack
    else s
  else if s.ecnState = .eceRcvd ∧ ece = false then { s with ecnState := .idle }
  else s

/-- What `ReceivedData` does to the sender. -/
def receivedData (seg : AckSegment) (s : TcpSocketBase γ) : TcpSocketBase γ :=
  if seg.size = 0 then s
  else if seg.answered then (s.invoke ops (.cwndEvent .nonDelayedAck)).sendEmptyPacket
  else s.invoke ops (.cwndEvent .delayedAck)

/-- The end of `ReceivedAck`. -/
def finishAck (seg : AckSegment) (s : TcpSocketBase γ) : TcpSocketBase γ :=
  (({ s with isRetransDataAcked := false }.invokeIf ops (ops.hasCongControl = true)
    .congControl)).receivedData ops seg

/-- The head of the buffer moves to the number acknowledged, and CA_CWR may end or begin. -/
def acknowledge (now : ℕ) (seg : AckSegment) (currentDelivered : UInt32)
    (s : TcpSocketBase γ) : Option (TcpSocketBase γ) :=
  let old := s.txBuffer.firstByteSeq
  (s.txBuffer.discardUpTo now seg.ackNumber).map fun b =>
    (((s.withBuffer b).withDelivered currentDelivered).leaveCwr ops seg.ackNumber).processEce ops
      seg.ackNumber old seg.ece currentDelivered

/-- `ReceivedAck`, up to `SendPendingData`. -/
def receivedAck (now : ℕ) (seg : AckSegment) (currentDelivered : UInt32)
    (s : TcpSocketBase γ) : Option (TcpSocketBase γ) :=
  (readOptions seg.sacks 0 s).bind fun r =>
    let old := r.2.txBuffer.firstByteSeq
    if seg.ackNumber < old then some (r.2.receivedData ops seg)
    else
      ((r.2.findRetransDataAcked seg.ackNumber).acknowledge ops now seg currentDelivered).bind
        fun s => (s.processAck ops now seg.ackNumber (decide (0 < r.1)) currentDelivered old
          (decide (0 < seg.size))).map fun s => s.finishAck ops seg

/-- `ProcessEstablished`. -/
def processEstablished (now : ℕ) (seg : AckSegment) (currentDelivered : UInt32)
    (s : TcpSocketBase γ) : Option (TcpSocketBase γ) :=
  if seg.ackNumber < s.txBuffer.firstByteSeq then some s
  else if s.highTxMark < seg.ackNumber then some s.sendEmptyPacket
  else s.receivedAck ops now seg currentDelivered

/-! ## The common path -/

/-- `CalculateRttSample`, where a result of 0 is no sample. -/
def calculateRttSample (now : ℕ) (seg : AckSegment) (rttHistory : RttHistory)
    (s : TcpSocketBase γ) : ℤ :=
  if rttHistory.seq + rttHistory.count ≤ seg.ackNumber then
    match seg.tsEcho with
    | some echo =>
      if s.timestampEnabled then
        let now32 := UInt32.ofNat (now / 1000000)
        if echo < now32 then (now32 - echo).toNat * 1000000 else 1000
      else if rttHistory.retx then 0 else now - rttHistory.time
    | none => if rttHistory.retx then 0 else now - rttHistory.time
  else 0

/-- The loop of `EstimateRtt` : the history that is left, and the last one removed. -/
def removeAcked (ack : SequenceNumber32) : RttHistory → List RttHistory →
    RttHistory × List RttHistory
  | latest, [] => (latest, [])
  | latest, i :: rest =>
    if ack < i.seq + i.count then (latest, i :: rest) else removeAcked ack i rest

/-- The last part of `EstimateRtt`. -/
def addRttSample (rtt : ℤ) (s : TcpSocketBase γ) : TcpSocketBase γ :=
  if rtt = 0 then s
  else
    let s := { s with rtt := ops.measurement s.rtt rtt }
    { s with
      rto := s.estimatedRto
      srtt := s.rtt.estimatedRtt
      minRtt := min s.rtt.estimatedRtt s.minRtt }

/-- `EstimateRtt`. -/
def estimateRtt (now : ℕ) (seg : AckSegment) (s : TcpSocketBase γ) : TcpSocketBase γ :=
  match s.history with
  | [] => s
  | earliest :: rest =>
    let rtt := s.calculateRttSample now seg earliest
    let left := removeAcked seg.ackNumber earliest (earliest :: rest)
    let lastRtt := s.calculateRttSample now seg left.1
    { s with
      history := left.2
      lastRtt := if lastRtt = 0 then s.lastRtt else lastRtt }.addRttSample ops rtt

/-- `UpdateWindowSize`. -/
def updateWindowSize (seg : AckSegment) (s : TcpSocketBase γ) : TcpSocketBase γ :=
  let receivedWindow := seg.windowSize <<< s.sndWindShift
  let update := (seg.ackNumber = s.highRxAckMark ∧ s.rWnd < receivedWindow) ∨
    s.highRxAckMark < seg.ackNumber ∨ s.highRxMark < seg.sequenceNumber
  { s with
    highRxAckMark := if s.highRxAckMark < seg.ackNumber then seg.ackNumber else s.highRxAckMark
    highRxMark := if s.highRxMark < seg.sequenceNumber then seg.sequenceNumber else s.highRxMark
    rWnd := if update then receivedWindow else s.rWnd }

/-- The persist timer starts, in `DoForwardUp`. -/
def startPersist (s : TcpSocketBase γ) : TcpSocketBase γ :=
  if s.rWnd = 0 ∧ s.persistEvent = false then { s with retxEvent := false, persistEvent := true }
  else s

/-- The persist timer is cancelled, in `DoForwardUp`. -/
def endPersist (s : TcpSocketBase γ) : TcpSocketBase γ :=
  if s.rWnd ≠ 0 ∧ s.persistEvent = true then { s with persistEvent := false } else s

/-- The flag CWR of a segment, in `DoForwardUp`. -/
def receiveCwr (seg : AckSegment) (s : TcpSocketBase γ) : TcpSocketBase γ :=
  if seg.cwr = true ∧ s.ecnState ≠ .ceRcvd then { s with ecnState := .idle } else s

/-- The common part of `DoForwardUp`, before the handler of the state. -/
def arrive (now : ℕ) (seg : AckSegment) (s : TcpSocketBase γ) : TcpSocketBase γ :=
  (((s.receiveCwr seg).estimateRtt ops now seg).updateWindowSize seg).startPersist

/-- `DoForwardUp`, up to `SendPendingData`. -/
def doForwardUp (now : ℕ) (seg : AckSegment) (currentDelivered : UInt32)
    (s : TcpSocketBase γ) : Option (TcpSocketBase γ) :=
  if s.timestampEnabled = true ∧ seg.tsEcho = none then some (s.receiveCwr seg)
  else
    ((s.arrive ops now seg).processEstablished ops now seg currentDelivered).map endPersist

/-- The codepoint of an IP header, in `ForwardUp` : congestion experienced for the first time
since `m_ecnCESeq`, or another one of a capable transport. -/
def receiveCodepoint (ce : Bool) (s : TcpSocketBase γ) : TcpSocketBase γ :=
  if ce then { s with ecnState := .ceRcvd }.invoke ops (.cwndEvent .ecnIsCe)
  else s.invokeIf ops (s.ecnState ≠ .disabled) (.cwndEvent .ecnNoCe)

/-- `DelAckTimeout`. -/
def delAckTimeout (s : TcpSocketBase γ) : TcpSocketBase γ :=
  (s.invoke ops (.cwndEvent .delayedAck)).sendEmptyPacket

/-! ## Runs -/

/-- What happens to the socket. -/
inductive Event
  /-- `ForwardUp` looks at the IP header of a segment. -/
  | receiveCodepoint (ce : Bool)
  /-- `ForwardUp` answers a segment out of the window. -/
  | outOfRange
  /-- A segment arrives, and the rate estimation counts `currentDelivered` bytes. -/
  | receive (now : ℕ) (seg : AckSegment) (currentDelivered : UInt32)
  /-- The application adds data to the buffer. -/
  | send (p : Packet) (h : p.length < 2 ^ 32)
  | sendPendingData (now : ℕ)
  | reTxTimeout
  | delAckTimeout
  /-- The persist timer fires, if it is pending. -/
  | persistTimeout (now : ℕ)

/-- One event. -/
def handle (s : TcpSocketBase γ) : Event → Option (TcpSocketBase γ)
  | .receiveCodepoint ce => some (s.receiveCodepoint ops ce)
  | .outOfRange => some s.sendEmptyPacket
  | .delAckTimeout => some (s.delAckTimeout ops)
  | .receive now seg currentDelivered => s.doForwardUp ops now seg currentDelivered
  | .send p _ => some { s with txBuffer := (s.txBuffer.add p).2 }
  | .sendPendingData now => s.sendPendingData ops now
  | .reTxTimeout => s.reTxTimeout ops
  | .persistTimeout now => if s.persistEvent then s.persistTimeout now else some s

/-- The socket after an event, if the connection goes on. -/
def after (s : Option (TcpSocketBase γ)) (event : Event) : Option (TcpSocketBase γ) :=
  s.bind fun s => s.handle ops event

/-- The attributes of a socket, and what the handshake has left. -/
structure Setup (γ : Type) where
  /-- The number of the first byte. -/
  headSequence : SequenceNumber32
  maxBuffer : UInt32
  segmentSize : UInt32
  retxThresh : UInt32
  sackEnabled : Bool
  fackEnabled : Bool
  limitedTx : Bool
  noDelay : Bool
  timestampEnabled : Bool
  ecnEnabled : Bool
  control : γ
  cWnd : UInt32
  ssThresh : UInt32
  /-- `m_highRxAckMark`, which an active open has set to the head. -/
  highRxAckMark : SequenceNumber32
  highRxMark : SequenceNumber32
  rWnd : UInt32
  sndWindShift : UInt32
  rtt : RttEstimator
  minRtt : ℤ
  rto : ℤ
  minRto : ℤ
  clockGranularity : ℤ
  dataRetries : UInt32

/-- A connection that has just been established. -/
def established (setup : Setup γ) : TcpSocketBase γ where
  txBuffer := .init setup.headSequence setup.maxBuffer setup.retxThresh setup.segmentSize
  control := setup.control
  cWnd := setup.cWnd
  cWndInfl := setup.cWnd
  ssThresh := setup.ssThresh
  segmentSize := setup.segmentSize
  ecnState := if setup.ecnEnabled then .idle else .disabled
  highTxMark := setup.headSequence
  nextTxSequence := setup.headSequence
  retxThresh := setup.retxThresh
  highRxAckMark := setup.highRxAckMark
  highRxMark := setup.highRxMark
  rWnd := setup.rWnd
  sndWindShift := setup.sndWindShift
  sackEnabled := setup.sackEnabled
  fackEnabled := setup.fackEnabled
  limitedTx := setup.limitedTx
  noDelay := setup.noDelay
  timestampEnabled := setup.timestampEnabled
  rtt := setup.rtt
  minRtt := setup.minRtt
  rto := setup.rto
  minRto := setup.minRto
  clockGranularity := setup.clockGranularity
  dataRetries := setup.dataRetries
  dataRetrCount := setup.dataRetries

end TcpSocketBase

end Ns3Pedca
