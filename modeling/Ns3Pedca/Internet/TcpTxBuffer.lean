import Ns3Pedca.Internet.SequenceNumber
import Ns3Pedca.Wifi.WifiMacHeader

/-!
# The transmit buffer of TCP

`TcpTxBuffer` keeps the data that the application has written and the peer has not
acknowledged : the items sent, and behind them the items not sent yet. A request for data is
served by splitting and joining items until one of them is what was asked for
(`getPacketFromList`). The sent items carry three flags, and the buffer counts the bytes of
the items that have each of them.

An iterator of the sent list is the node it points to. A function returns `none` where the
program is stopped or goes astray : at an `NS_ABORT` or `NS_FATAL_ERROR`, when it follows a
null pointer or an iterator whose node is gone. An `NS_ASSERT` is not part of an optimized
build and is left out.
-/

namespace Ns3Pedca

/-- `TcpTxItem`. -/
structure TcpTxItem where
  /-- The node of the list that holds the item. -/
  node : ℕ
  /-- The sequence number of the item, if it has been transmitted. -/
  startSeq : SequenceNumber32 := ⟨0⟩
  packet : Packet
  lost : Bool := false
  retrans : Bool := false
  sacked : Bool := false
  lastSent : WithTop ℕ := ⊤
  deriving DecidableEq

namespace TcpTxItem

/-- `m_packet->GetSize()`. -/
def size (t : TcpTxItem) : UInt32 :=
  .ofNat t.packet.length

/-- The item `t1` of `SplitItems`, in a node of its own. -/
def splitFirst (node : ℕ) (t2 : TcpTxItem) (size : UInt32) : TcpTxItem :=
  { t2 with node := node, packet := t2.packet.take size.toNat }

/-- The item `t2` after `SplitItems`. -/
def splitSecond (t2 : TcpTxItem) (size : UInt32) : TcpTxItem :=
  { t2 with startSeq := t2.startSeq + size, packet := t2.packet.drop size.toNat }

/-- The item `t1` after `MergeItems`. -/
def merge (t1 t2 : TcpTxItem) : TcpTxItem :=
  { t1 with
    retrans := if t1.retrans ≠ t2.retrans then false else t1.retrans
    lastSent := if t1.lastSent < t2.lastSent then t2.lastSent else t1.lastSent
    packet := t1.packet ++ t2.packet }

/-- What `MergeItems` takes from the count of retransmitted bytes. -/
def uncounted (t1 t2 : TcpTxItem) : UInt32 :=
  if t1.retrans ≠ t2.retrans then if t1.retrans then t1.size else t2.size else 0

end TcpTxItem

/-- What one search of a list leads to. -/
inductive Search
  /-- An item of the list is returned, between the others. -/
  | found (before : List TcpTxItem) (item : TcpTxItem) (after : List TcpTxItem)
  /-- The list has been edited, and is searched again. -/
  | edited (items : List TcpTxItem) (uncounted : UInt32)
  | fatal

/-- An item that the search has passed. -/
def Search.cons (t : TcpTxItem) : Search → Search
  | found before item after => found (t :: before) item after
  | edited items uncounted => edited (t :: items) uncounted
  | fatal => fatal

section GetPacketFromList

variable (numBytes : UInt32) (seq : SequenceNumber32) (node : ℕ)

/-- The second half of the loop body of `GetPacketFromList`, for an item that begins at `seq`.
(`outItem` is `currentItem` here, since the loop ends with the item it is set to. The last
branch does not advance the loop.) -/
def searchEnd (t : TcpTxItem) (after : List TcpTxItem) : Search :=
  if seq + numBytes ≤ seq + t.size then
    if numBytes = t.size then .found [] t after
    else if numBytes < t.size then
      .found [] (t.splitFirst node numBytes) (t.splitSecond numBytes :: after)
    else .fatal
  else
    match after with
    | [] => .found [] t []
    | next :: after => .edited (t.merge next :: after) (t.uncounted next)

/-- The loop of `GetPacketFromList`. -/
def search : SequenceNumber32 → List TcpTxItem → Search
  | _, [] => .fatal
  | start, t :: after =>
    if seq < start + t.size then
      if seq = start then searchEnd numBytes seq node t after
      else if start < seq then
        .edited (t.splitFirst node (seq - start) :: t.splitSecond (seq - start) :: after) 0
      else .fatal
    else (search (start + t.size) after).cons t

/-- The result of `GetPacketFromList` : the item and its list, the count of retransmitted
bytes, and the next node. -/
structure Found where
  before : List TcpTxItem
  item : TcpTxItem
  after : List TcpTxItem
  retrans : UInt32
  nextNode : ℕ

/-- The list that the item was found in. -/
def Found.list (found : Found) : List TcpTxItem :=
  found.before ++ found.item :: found.after

/-- `GetPacketFromList`, with a bound on the searches. -/
def getPacketFromListWithin (start : SequenceNumber32) :
    ℕ → List TcpTxItem → UInt32 → ℕ → Option Found
  | 0, _, _, _ => none
  | fuel + 1, list, retrans, node =>
    match search numBytes seq node start list with
    | .found before item after => some ⟨before, item, after, retrans, node + 1⟩
    | .edited list uncounted =>
      getPacketFromListWithin start fuel list (retrans - uncounted) (node + 1)
    | .fatal => none

/-- `GetPacketFromList`. -/
def getPacketFromList (list : List TcpTxItem) (start : SequenceNumber32) (retrans : UInt32) :
    Option Found :=
  getPacketFromListWithin numBytes seq start (list.length + 2) list retrans node

end GetPacketFromList

/-- `TcpTxBuffer`. -/
structure TcpTxBuffer where
  appList : List TcpTxItem := []
  sentList : List TcpTxItem := []
  maxBuffer : UInt32
  size : UInt32 := 0
  sentSize : UInt32 := 0
  firstByteSeq : SequenceNumber32
  /-- The node of the highest SACK, none for the end of the list, and its sequence number. -/
  highestSack : Option ℕ × SequenceNumber32 := (none, ⟨0⟩)
  lostOut : UInt32 := 0
  sackedOut : UInt32 := 0
  retrans : UInt32 := 0
  dupAckThresh : UInt32
  segmentSize : UInt32
  sackSeen : Bool := false
  nextNode : ℕ := 0

namespace TcpTxBuffer

variable (b : TcpTxBuffer)

/-- The first sequence number that has not been sent. -/
def sentEnd : SequenceNumber32 :=
  b.firstByteSeq + b.sentSize

/-- `TailSequence`. -/
def tailSequence : SequenceNumber32 :=
  b.firstByteSeq + b.size

/-- `Available`. -/
def available : UInt32 :=
  b.maxBuffer - b.size

/-- `Add`. -/
def add (p : Packet) : Bool × TcpTxBuffer :=
  if .ofNat p.length ≤ b.available then
    if 0 < UInt32.ofNat p.length then
      (true, { b with
        appList := b.appList ++ [{ node := b.nextNode, packet := p }]
        size := b.size + .ofNat p.length
        nextNode := b.nextNode + 1 })
    else (true, b)
  else (false, b)

/-- `SizeFromSequence`. -/
def sizeFromSequence (seq : SequenceNumber32) : UInt32 :=
  if seq ≤ b.tailSequence then b.tailSequence - seq else 0

/-- `GetNewSegment`, at time `now`. -/
def getNewSegment (now : ℕ) (numBytes : UInt32) : Option (TcpTxItem × TcpTxBuffer) :=
  (getPacketFromList numBytes b.sentEnd b.nextNode b.appList b.sentEnd b.retrans).map
    fun found =>
      let item := { found.item with
        node := found.nextNode
        startSeq := b.sentEnd
        lastSent := now }
      (item, { b with
        appList := found.before ++ found.after
        sentList := b.sentList ++ [item]
        sentSize := b.sentSize + item.size
        retrans := found.retrans
        nextNode := found.nextNode + 1 })

/-- The bound that `GetTransmittedSegment` puts on the size : an item is joined with the next
one only if that one is not sacked and the two are both lost or both not. -/
def segmentLimit (seq : SequenceNumber32) (s : UInt32) : List TcpTxItem → UInt32
  | [] => s
  | t :: after =>
    if t.startSeq = seq then
      match after with
      | next :: _ =>
        if !next.sacked && t.lost = next.lost then min s (t.size + next.size) else min s t.size
      | [] => min s t.size
    else segmentLimit seq s after

/-- `GetTransmittedSegment`, at time `now`. -/
def getTransmittedSegment (now : ℕ) (numBytes : UInt32) (seq : SequenceNumber32) :
    Option (TcpTxItem × TcpTxBuffer) :=
  (getPacketFromList (segmentLimit seq numBytes b.sentList) seq b.nextNode b.sentList
    b.firstByteSeq b.retrans).map fun found =>
      let item := { found.item with retrans := true, lastSent := now }
      (item, { b with
        sentList := found.before ++ item :: found.after
        retrans := if found.item.retrans then found.retrans else found.retrans + item.size
        nextNode := found.nextNode })

/-- The branches of `CopyFromSequence` for `s` bytes, where `again` is the call with fewer
bytes. The first component is the item returned, none for the null pointer. -/
def copyBranches (now : ℕ) (s : UInt32) (seq : SequenceNumber32)
    (again : UInt32 → Option (Option TcpTxItem × TcpTxBuffer)) :
    Option (Option TcpTxItem × TcpTxBuffer) :=
  if s = 0 then some (none, b)
  else if seq + s ≤ b.sentEnd then
    (b.getTransmittedSegment now s seq).map fun sent => (sent.1, sent.2)
  else if b.sentEnd ≤ seq then
    if b.sentEnd = seq then (b.getNewSegment now s).map fun sent => (sent.1, sent.2) else none
  -- the numbers are compared as they are here, with no regard to the wrap
  else if seq.value < b.sentEnd.value ∧ b.sentEnd.value < seq.value + s then
    again (b.sentEnd.value - seq.value)
  else none

/-- `CopyFromSequence`, with a bound on the calls. -/
def copyFromSequenceWithin (now : ℕ) (seq : SequenceNumber32) :
    ℕ → UInt32 → Option (Option TcpTxItem × TcpTxBuffer)
  | 0, _ => none
  | fuel + 1, numBytes =>
    if seq < b.firstByteSeq then none
    else
      b.copyBranches now (min numBytes (b.sizeFromSequence seq)) seq
        (copyFromSequenceWithin now seq fuel)

/-- `CopyFromSequence`, at time `now`. -/
def copyFromSequence (now : ℕ) (numBytes : UInt32) (seq : SequenceNumber32) :
    Option (Option TcpTxItem × TcpTxBuffer) :=
  b.copyFromSequenceWithin now seq 2 numBytes

/-- `RemoveFromCounts`. -/
def removeFromCounts (t : TcpTxItem) (size : UInt32) : TcpTxBuffer :=
  { b with
    sackedOut := if t.sacked then b.sackedOut - size else b.sackedOut
    retrans := if t.retrans then b.retrans - size else b.retrans
    lostOut := if t.lost then b.lostOut - size else b.lostOut }

/-- No SACK has been seen. -/
def resetHighestSack : TcpTxBuffer :=
  { b with sackSeen := false, highestSack := (none, ⟨0⟩) }

/-- The first item that is not sacked becomes sacked, with its node and sequence number. -/
def sackFirst : List TcpTxItem → Option (List TcpTxItem × TcpTxItem)
  | [] => none
  | t :: after =>
    if t.sacked then (sackFirst after).map fun r => (t :: r.1, r.2)
    else some ({ t with sacked := true } :: after, t)

/-- `AddRenoSack`. -/
def addRenoSack : Option TcpTxBuffer :=
  match b.sentList with
  | [] => none
  | head :: after =>
    match sackFirst after with
    | some (after, t) => some { b with
        sentList := head :: after
        sackedOut := b.sackedOut + t.size
        sackSeen := true
        highestSack := (some t.node, t.startSeq) }
    | none => some b

/-- `MarkHeadAsLost`. -/
def markHeadAsLost : TcpTxBuffer :=
  match b.sentList with
  | [] => b
  | head :: after => { b with
      sentList := { head with sacked := false, retrans := false, lost := true } :: after
      sackedOut := if head.sacked then b.sackedOut - head.size else b.sackedOut
      retrans := if head.retrans then b.retrans - head.size else b.retrans
      lostOut := if head.lost then b.lostOut else b.lostOut + head.size }

/-- The head leaves the buffer. -/
def discardHead (head : TcpTxItem) (after : List TcpTxItem) : TcpTxBuffer :=
  { b with
    sentList := after
    size := b.size - head.size
    sentSize := b.sentSize - head.size
    firstByteSeq := b.firstByteSeq + head.size }.removeFromCounts head head.size

/-- The first bytes of the head leave the buffer. -/
def discardStart (head : TcpTxItem) (after : List TcpTxItem) (offset : UInt32) : TcpTxBuffer :=
  { b with
    sentList := head.splitSecond offset :: after
    size := b.size - offset
    sentSize := b.sentSize - offset
    firstByteSeq := b.firstByteSeq + offset }.removeFromCounts head offset

/-- If the sent list is empty, data of the application list is moved there. -/
def refill (now : ℕ) (offset : UInt32) : Option TcpTxBuffer :=
  match b.sentList with
  | [] =>
    match b.copyFromSequence now offset b.firstByteSeq with
    | some (some _, b) => some b
    | _ => none
  | _ :: _ => some b

/-- The loop of `DiscardUpTo`, with a bound on its steps. -/
def discard (now : ℕ) : ℕ → UInt32 → TcpTxBuffer → Option TcpTxBuffer
  | 0, _, _ => none
  | fuel + 1, offset, b =>
    if 0 < b.size ∧ 0 < offset then
      match b.refill now offset with
      | none => none
      | some b =>
        match b.sentList with
        | [] => none
        | head :: after =>
          if head.size ≤ offset then
            discard now fuel (offset - head.size) (b.discardHead head after)
          else some (b.discardStart head after offset)
    else some b

/-- A head that is sacked : the SACK is given to another item. -/
def moveHeadSack : Option TcpTxBuffer :=
  match b.sentList with
  | [] => some b
  | head :: after =>
    if head.sacked then
      ({ b with
        sentList := { head with sacked := false } :: after
        sackedOut := b.sackedOut - head.size } : TcpTxBuffer).addRenoSack.map markHeadAsLost
    else some b

/-- `DiscardUpTo`, at time `now`. -/
def discardUpTo (now : ℕ) (seq : SequenceNumber32) : Option TcpTxBuffer :=
  if seq ≤ b.firstByteSeq then some b
  else
    match discard now (b.size.toNat + 1) (seq - b.firstByteSeq) b with
    | none => none
    | some b =>
      (if b.size = 0 then { b with firstByteSeq := seq } else b).moveHeadSack.map fun b =>
        if b.highestSack.2 ≤ b.firstByteSeq then b.resetHighestSack else b

/-- What `Update` changes while it goes through the items. -/
structure Marks where
  lostOut : UInt32
  sackedOut : UInt32
  bytesSacked : UInt32
  sackSeen : Bool
  highestSack : Option ℕ × SequenceNumber32

/-- An item that a block covers is marked as sacked. -/
def markSacked (start : SequenceNumber32) (t : TcpTxItem) (marks : Marks) : Marks :=
  if t.sacked then marks
  else
    let highest :=
      marks.highestSack.1.isNone || marks.highestSack.2 ≤ start + t.size
    { lostOut := if t.lost then marks.lostOut - t.size else marks.lostOut
      sackedOut := marks.sackedOut + t.size
      bytesSacked := marks.bytesSacked + t.size
      sackSeen := if highest then true else marks.sackSeen
      highestSack := if highest then (some t.node, start) else marks.highestSack }

/-- The loop of `Update` over the items, for one block of the option. -/
def updateBlock (block : SequenceNumber32 × SequenceNumber32) :
    SequenceNumber32 → List TcpTxItem → Marks → List TcpTxItem × Marks
  | _, [], marks => ([], marks)
  | start, t :: after, marks =>
    if block.1 ≤ start ∧ start + t.size ≤ block.2 then
      let rest := updateBlock block (start + t.size) after (markSacked start t marks)
      (if t.sacked then t :: rest.1 else { t with lost := false, sacked := true } :: rest.1,
        rest.2)
    else if block.2 < start + t.size then (t :: after, marks)
    else
      let rest := updateBlock block (start + t.size) after marks
      (t :: rest.1, rest.2)

/-- The loop of `Update` over the blocks, and whether it came to its end : a block outside the
sent list ends the function. -/
def updateBlocks : List (SequenceNumber32 × SequenceNumber32) → List TcpTxItem → Marks →
    (List TcpTxItem × Marks) × Bool
  | [], items, marks => ((items, marks), true)
  | block :: blocks, items, marks =>
    if b.sentEnd < block.1 then ((items, marks), false)
    else
      let next := updateBlock block b.firstByteSeq items marks
      updateBlocks blocks next.1 next.2

/-- The loop of `UpdateLostCount`, from the node of the highest SACK back to the second item :
the items, how many are sacked, and the count of lost bytes. -/
def updateLostItems (first : ℕ) (dupAckThresh lostOut : UInt32) :
    List TcpTxItem → Option (List TcpTxItem × UInt32 × UInt32)
  | [] => none
  | t :: after =>
    let later :=
      if t.node = first then some (after, 0, lostOut)
      else updateLostItems first dupAckThresh lostOut after
    later.map fun (after, sacked, lostOut) =>
      let sacked := if t.sacked then sacked + 1 else sacked
      if dupAckThresh ≤ sacked ∧ t.sacked = false ∧ t.lost = false then
        ({ t with lost := true } :: after, sacked, lostOut + t.size)
      else (t :: after, sacked, lostOut)

/-- `UpdateLostCount`. -/
def updateLostCount : Option TcpTxBuffer :=
  match b.sentList, b.highestSack.1 with
  | head :: after, some first =>
    let loop :=
      if head.node = first then some (after, 0, b.lostOut)
      else updateLostItems first b.dupAckThresh b.lostOut after
    loop.map fun (after, sacked, lostOut) =>
      if b.dupAckThresh ≤ sacked ∧ head.lost = false then
        { b with
          sentList := { head with lost := true } :: after
          lostOut := lostOut + head.size }
      else { b with sentList := head :: after, lostOut := lostOut }
  | _, _ => none

/-- The buffer with its items marked. -/
def withMarks (items : List TcpTxItem) (marks : Marks) : TcpTxBuffer :=
  { b with
    sentList := items
    lostOut := marks.lostOut
    sackedOut := marks.sackedOut
    sackSeen := marks.sackSeen
    highestSack := marks.highestSack }

/-- `Update` : the number of bytes sacked, and the buffer. -/
def update (list : List (SequenceNumber32 × SequenceNumber32)) : Option (UInt32 × TcpTxBuffer) :=
  let r := b.updateBlocks list b.sentList
    ⟨b.lostOut, b.sackedOut, 0, b.sackSeen, b.highestSack⟩
  let bytesSacked := r.1.2.bytesSacked
  if r.2 = true ∧ 0 < bytesSacked then
    (b.withMarks r.1.1 r.1.2).updateLostCount.map fun b => (bytesSacked, b)
  else some (bytesSacked, b.withMarks r.1.1 r.1.2)

/-- `IsLost`. -/
def isLost (seq : SequenceNumber32) : Bool :=
  if b.highestSack.2 ≤ seq then false
  else search b.sentList
where
  /-- The loop over the items. -/
  search : List TcpTxItem → Bool
    | [] => false
    | t :: after =>
      if t.startSeq ≤ seq ∧ seq < t.startSeq + t.size then
        if t.lost then true else if t.sacked then false else search after
      else search after

/-- Conditions 1.a and 1.b of `NextSeg`. -/
def isCandidate (t : TcpTxItem) : Bool :=
  !t.retrans && !t.sacked &&
    ((b.sackSeen && t.startSeq < b.highestSack.2) || !b.sackSeen)

/-- What the loop of `NextSeg` finds. -/
inductive Candidate
  | lost (seq : SequenceNumber32)
  /-- No candidate is lost. -/
  | rule3 (isSeqPerRule3Valid : Bool) (seqPerRule3 : SequenceNumber32)

/-- The loop of `NextSeg`. -/
def nextCandidate (isRecovery : Bool) :
    SequenceNumber32 → List TcpTxItem → Bool → SequenceNumber32 → Candidate
  | _, [], valid, seqPerRule3 => .rule3 valid seqPerRule3
  | start, t :: after, valid, seqPerRule3 =>
    if b.isCandidate t then
      if t.lost then .lost start
      -- the number 0 stands for no number
      else if seqPerRule3.value = 0 ∧ isRecovery = true then
        nextCandidate isRecovery (start + t.size) after true start
      else nextCandidate isRecovery (start + t.size) after valid seqPerRule3
    else nextCandidate isRecovery (start + t.size) after valid seqPerRule3

/-- `NextSeg`, with the window of the receiver : `seq` and `seqHigh`, none if there is nothing
to send. -/
def nextSeg (isRecovery : Bool) (rWnd : UInt32) : Option (SequenceNumber32 × SequenceNumber32) :=
  match b.nextCandidate isRecovery b.firstByteSeq b.sentList false ⟨0⟩ with
  | .lost seq => some (seq, seq + b.segmentSize)
  | .rule3 valid seq =>
    if 0 < b.sizeFromSequence b.sentEnd then
      if b.sentSize < rWnd then
        some (b.sentEnd, b.sentEnd + min b.segmentSize (rWnd - b.sentSize))
      else none
    else if valid then some (seq, seq + b.segmentSize)
    else none

/-- `BytesInFlight`. -/
def bytesInFlight : UInt32 :=
  b.sentSize - (b.sackedOut + b.lostOut) + b.retrans

/-- `ResetRenoSack`. -/
def resetRenoSack : TcpTxBuffer :=
  { b.resetHighestSack with
    sackedOut := 0
    sentList := b.sentList.map fun t => { t with sacked := false } }

/-- `ResetSentList`. -/
def resetSentList : TcpTxBuffer :=
  { b.resetHighestSack with
    appList := (b.sentList.map fun t => { t with retrans := false, sacked := false, lost := false })
      ++ b.appList
    sentList := []
    sentSize := 0
    lostOut := 0
    retrans := 0
    sackedOut := 0 }

/-- `ResetLastSegmentSent`. -/
def resetLastSegmentSent : TcpTxBuffer :=
  match b.sentList.getLast? with
  | some item => { b with
      sentList := b.sentList.dropLast
      sentSize := b.sentSize - item.size
      retrans := if item.retrans then b.retrans - item.size else b.retrans
      appList := item :: b.appList }
  | none => b

/-- The loop of `SetSentListLost` without `resetSack`. -/
def countLost : List TcpTxItem → UInt32 → UInt32
  | [], lostOut => lostOut
  | t :: after, lostOut =>
    countLost after (if t.lost || !t.sacked then lostOut + t.size else lostOut)

/-- `SetSentListLost`. -/
def setSentListLost (resetSack : Bool) : TcpTxBuffer :=
  if resetSack then
    { b.resetHighestSack with
      retrans := 0
      sackedOut := 0
      lostOut := b.sentSize
      sentList := b.sentList.map fun t =>
        { t with sacked := false, lost := true, retrans := false } }
  else
    { b with
      retrans := 0
      lostOut := countLost b.sentList 0
      sentList := b.sentList.map fun t =>
        { t with lost := t.lost || !t.sacked, retrans := false } }

/-- `DeleteRetransmittedFlagFromHead`. -/
def deleteRetransmittedFlagFromHead : TcpTxBuffer :=
  if b.sentSize = 0 then b
  else
    match b.sentList with
    | [] => b
    | head :: after =>
      if head.retrans then
        { b with
          sentList := { head with retrans := false } :: after
          retrans := b.retrans - head.size }
      else b

/-- A call of a function of the buffer. -/
inductive Call
  | add (p : Packet) (h : p.length < 2 ^ 32)
  | copyFromSequence (now : ℕ) (numBytes : UInt32) (seq : SequenceNumber32)
  | discardUpTo (now : ℕ) (seq : SequenceNumber32)
  | update (list : List (SequenceNumber32 × SequenceNumber32))
  | addRenoSack
  | resetRenoSack
  | markHeadAsLost
  | setSentListLost (resetSack : Bool)
  | deleteRetransmittedFlagFromHead
  | resetSentList
  | resetLastSegmentSent
  | isLost (seq : SequenceNumber32)
  | nextSeg (isRecovery : Bool) (rWnd : UInt32)

/-- What a call returns. -/
inductive Result
  | unit
  | bool (value : Bool)
  | bytes (value : UInt32)
  | item (item : Option TcpTxItem)
  | segment (range : Option (SequenceNumber32 × SequenceNumber32))
  deriving DecidableEq

/-- One call. -/
def call (b : TcpTxBuffer) : Call → Option (Result × TcpTxBuffer)
  | .add p _ => some (.bool (b.add p).1, (b.add p).2)
  | .copyFromSequence now numBytes seq =>
    (b.copyFromSequence now numBytes seq).map fun r => (.item r.1, r.2)
  | .discardUpTo now seq => (b.discardUpTo now seq).map fun b => (.unit, b)
  | .update list => (b.update list).map fun r => (.bytes r.1, r.2)
  | .addRenoSack => b.addRenoSack.map fun b => (.unit, b)
  | .resetRenoSack => some (.unit, b.resetRenoSack)
  | .markHeadAsLost => some (.unit, b.markHeadAsLost)
  | .setSentListLost resetSack => some (.unit, b.setSentListLost resetSack)
  | .deleteRetransmittedFlagFromHead => some (.unit, b.deleteRetransmittedFlagFromHead)
  | .resetSentList => some (.unit, b.resetSentList)
  | .resetLastSegmentSent => some (.unit, b.resetLastSegmentSent)
  | .isLost seq => some (.bool (b.isLost seq), b)
  | .nextSeg isRecovery rWnd => some (.segment (b.nextSeg isRecovery rWnd), b)

/-- The buffer of a connection that begins, after `SetHeadSequence`. -/
def init (firstByteSeq : SequenceNumber32) (maxBuffer dupAckThresh segmentSize : UInt32) :
    TcpTxBuffer where
  maxBuffer := maxBuffer
  firstByteSeq := firstByteSeq
  dupAckThresh := dupAckThresh
  segmentSize := segmentSize

end TcpTxBuffer

end Ns3Pedca
