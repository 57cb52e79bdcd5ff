import Ns3Pedca.Runs
import Ns3Pedca.Wifi.BlockAckWindow

/-!
# The recipient of a block ack agreement

`RecipientBlockAckAgreement` updates two windows when an MPDU or a BlockAckReq is received :
the scoreboard, which it acknowledges from, and the reordering buffer, from which MPDUs are
passed up in order. `bufferedMpdus` lists the map of buffered MPDUs in its order, that of
`Compare` : by distance from `winStartB`, which moves.

`RxHistory` counts how far `winStartB` has moved (`progress`), and keeps the MPDUs passed up
with the number that each sequence number stood for then, counted as `progress` is. It also
keeps whether the assertions that no buffered MPDU is old have held. Addresses, timeouts and
the capabilities of the stations are left out.
-/

namespace Ns3Pedca

/-- An MPDU : its sequence number, and the rest of it. -/
structure WifiMpdu (α : Type*) where
  seqNumber : SeqNo
  packet : α

/-- History variables. -/
structure RxHistory (α : Type*) where
  progress : ℕ
  passedUp : List (ℕ × WifiMpdu α) := []
  assertsHold : Bool := true

/-- `RecipientBlockAckAgreement`. -/
structure RecipientBlockAckAgreement (α : Type*) where
  scoreboard : BlockAckWindow
  winStartB : SeqNo
  winSizeB : ℕ
  bufferedMpdus : List (WifiMpdu α) := []
  hist : RxHistory α

/-- What is received. -/
inductive BlockAckEvent (α : Type*)
  | mpdu (mpdu : WifiMpdu α)
  | bar (startingSequenceNumber : SeqNo)

/-- The sequence number of what is received. -/
def BlockAckEvent.seqNumber {α : Type*} : BlockAckEvent α → SeqNo
  | .mpdu m => m.seqNumber
  | .bar startingSequenceNumber => startingSequenceNumber

namespace RecipientBlockAckAgreement

variable {α : Type*}

/-- The agreement when it is established. -/
def init (bufferSize : ℕ) (startingSeq : SeqNo) : RecipientBlockAckAgreement α where
  scoreboard := .init startingSeq bufferSize
  winStartB := startingSeq
  winSizeB := bufferSize
  hist := { progress := startingSeq }

/-! ## The scoreboard -/

/-- What `NotifyReceivedMpdu` does to the scoreboard. -/
def scoreboardMpdu (scoreboard : BlockAckWindow) (mpduSeqNumber : SeqNo) : BlockAckWindow :=
  let distance := getDistance mpduSeqNumber scoreboard.winStart
  if distance < scoreboard.getWinSize then scoreboard.setAt distance
  else if distance < seqnoSpaceHalfSize then
    (scoreboard.advance (distance - scoreboard.getWinSize + 1)).setAt (scoreboard.getWinSize - 1)
  else scoreboard

/-- What `NotifyReceivedBar` does to the scoreboard. -/
def scoreboardBar (scoreboard : BlockAckWindow) (startingSequenceNumber : SeqNo) :
    BlockAckWindow :=
  let distance := getDistance startingSequenceNumber scoreboard.winStart
  if 0 < distance ∧ distance < scoreboard.getWinSize then scoreboard.advance distance
  else if 0 < distance ∧ distance < seqnoSpaceHalfSize then
    scoreboard.reset startingSequenceNumber
  else scoreboard

/-! ## The reordering buffer -/

/-- `Compare`. -/
def compare (winStartB : SeqNo) (a b : SeqNo) : Bool :=
  getDistance a winStartB < getDistance b winStartB

/-- `m_bufferedMpdus.insert` : nothing if an MPDU with the same sequence number is there. -/
def insertMpdu (winStartB : SeqNo) (mpdu : WifiMpdu α) : List (WifiMpdu α) → List (WifiMpdu α)
  | [] => [mpdu]
  | mpdu' :: mpdus =>
    if compare winStartB mpdu.seqNumber mpdu'.seqNumber then mpdu :: mpdu' :: mpdus
    else if compare winStartB mpdu'.seqNumber mpdu.seqNumber then
      mpdu' :: insertMpdu winStartB mpdu mpdus
    else mpdu' :: mpdus

variable (a : RecipientBlockAckAgreement α)

/-- `m_rxMiddle->Receive`. -/
def receive (mpdu : WifiMpdu α) : RecipientBlockAckAgreement α :=
  { a with hist := { a.hist with
      passedUp := a.hist.passedUp ++
        [(a.hist.progress + getDistance mpdu.seqNumber a.winStartB, mpdu)] } }

/-- `m_winStartB` set to a number ahead of it. -/
def setWinStartB (winStartB : SeqNo) : RecipientBlockAckAgreement α :=
  { a with
    winStartB := winStartB
    hist := { a.hist with progress := a.hist.progress + getDistance winStartB a.winStartB } }

/-- The assertion that no buffered MPDU is old, made for the last one. -/
def assertNoOldMpdus : RecipientBlockAckAgreement α :=
  { a with hist := { a.hist with
      assertsHold := a.hist.assertsHold && a.bufferedMpdus.getLast?.all fun mpdu =>
        getDistance mpdu.seqNumber a.winStartB < seqnoSpaceHalfSize } }

/-- The loop of `PassBufferedMpdusUntilFirstLost`, over the buffered MPDUs. -/
def passUntilFirstLost : List (WifiMpdu α) → RecipientBlockAckAgreement α →
    RecipientBlockAckAgreement α
  | [], a => { a with bufferedMpdus := [] }
  | mpdu :: mpdus, a =>
    if mpdu.seqNumber = a.winStartB then
      passUntilFirstLost mpdus (setWinStartB (receive a mpdu) (.ofNat (a.winStartB + 1)))
    else { a with bufferedMpdus := mpdu :: mpdus }

/-- `PassBufferedMpdusUntilFirstLost`. -/
def passBufferedMpdusUntilFirstLost : RecipientBlockAckAgreement α :=
  passUntilFirstLost a.bufferedMpdus (assertNoOldMpdus a)

/-- The loop of `PassBufferedMpdusWithSeqNumberLessThan`. -/
def passWithSeqNumberLessThan (newWinStartB : SeqNo) : List (WifiMpdu α) →
    RecipientBlockAckAgreement α → RecipientBlockAckAgreement α
  | [], a => { a with bufferedMpdus := [] }
  | mpdu :: mpdus, a =>
    if getDistance mpdu.seqNumber a.winStartB < getDistance newWinStartB a.winStartB then
      passWithSeqNumberLessThan newWinStartB mpdus (receive a mpdu)
    else { a with bufferedMpdus := mpdu :: mpdus }

/-- `PassBufferedMpdusWithSeqNumberLessThan`. -/
def passBufferedMpdusWithSeqNumberLessThan (newWinStartB : SeqNo) :
    RecipientBlockAckAgreement α :=
  setWinStartB (passWithSeqNumberLessThan newWinStartB a.bufferedMpdus (assertNoOldMpdus a))
    newWinStartB

/-- What `NotifyReceivedMpdu` does to the reordering buffer. -/
def bufferMpdu (mpdu : WifiMpdu α) : RecipientBlockAckAgreement α :=
  let distance := getDistance mpdu.seqNumber a.winStartB
  let a' := { a with bufferedMpdus := insertMpdu a.winStartB mpdu a.bufferedMpdus }
  if distance < a.winSizeB then passBufferedMpdusUntilFirstLost a'
  else if distance < seqnoSpaceHalfSize then
    passBufferedMpdusUntilFirstLost (passBufferedMpdusWithSeqNumberLessThan a'
      (.ofNat (mpdu.seqNumber + 1 + seqnoSpaceSize - a.winSizeB)))
  else a

/-- What `NotifyReceivedBar` does to the reordering buffer. -/
def bufferBar (startingSequenceNumber : SeqNo) : RecipientBlockAckAgreement α :=
  let distance := getDistance startingSequenceNumber a.winStartB
  if 0 < distance ∧ distance < seqnoSpaceHalfSize then
    passBufferedMpdusUntilFirstLost
      (passBufferedMpdusWithSeqNumberLessThan a startingSequenceNumber)
  else a

/-- `NotifyReceivedMpdu`. -/
def notifyReceivedMpdu (mpdu : WifiMpdu α) : RecipientBlockAckAgreement α :=
  bufferMpdu { a with scoreboard := scoreboardMpdu a.scoreboard mpdu.seqNumber } mpdu

/-- `NotifyReceivedBar`. -/
def notifyReceivedBar (startingSequenceNumber : SeqNo) : RecipientBlockAckAgreement α :=
  bufferBar { a with scoreboard := scoreboardBar a.scoreboard startingSequenceNumber }
    startingSequenceNumber

/-- One step of the agreement. -/
def step (a : RecipientBlockAckAgreement α) : BlockAckEvent α → RecipientBlockAckAgreement α
  | .mpdu mpdu => notifyReceivedMpdu a mpdu
  | .bar startingSequenceNumber => notifyReceivedBar a startingSequenceNumber

end RecipientBlockAckAgreement

end Ns3Pedca
