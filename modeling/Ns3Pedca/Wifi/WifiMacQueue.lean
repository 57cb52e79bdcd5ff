import Ns3Pedca.Multimap
import Ns3Pedca.Wifi.ContainerInvariant

/-!
# The MAC queue and its scheduler

`WifiMacQueue` puts MPDUs in the queues of a container, and keeps the counters of the base class
`Queue`. The scheduler sorts the container queues that are not empty by priority. For
`FcfsWifiQueueScheduler` this is the time stamp of the first MPDU. The scheduler is told
of every MPDU that goes, and then looks at the queue the MPDU was in, which may extract
expired MPDUs, of which the scheduler is told in turn (`notifyRemove`).

A step that violates an assertion fails, as does one that follows an iterator to an element that is
not there. Which MPDU the scheduler drops is part of the input. The orders in which a `std::set` and
an `unordered_map` go through container queues are given by two comparisons of which nothing is
known.
-/

namespace Ns3Pedca

/-- `FcfsPrio`. -/
structure FcfsPrio where
  priority : Time
  type : WifiContainerQueueType
  deriving DecidableEq

/-- `operator<`. -/
def FcfsPrio.lt (lhs rhs : FcfsPrio) : Bool :=
  if lhs.type = .ctl ∧ rhs.type ≠ .ctl then true
  else if lhs.type ≠ .ctl ∧ rhs.type = .ctl then false
  else if lhs.type = .mgt ∧ rhs.type ≠ .mgt then true
  else if lhs.type ≠ .mgt ∧ rhs.type = .mgt then false
  else lhs.priority < rhs.priority

/-- The priority of a queue with this MPDU at its head. -/
def WifiMacQueueElem.prio (e : WifiMacQueueElem) : FcfsPrio :=
  ⟨e.timestamp, e.queueId.type⟩

/-- A control frame. -/
def WifiMacQueueElem.isCtl (e : WifiMacQueueElem) : Bool :=
  e.header.type = .ctl

/-- The orders in which container queues are gone through. -/
structure QueueOrders where
  set : WifiContainerQueueId → WifiContainerQueueId → Bool
  map : WifiContainerQueueId → WifiContainerQueueId → Bool

/-- The queues of a `std::set`, in order. -/
def QueueOrders.ofSet (orders : QueueOrders) (l : List WifiContainerQueueId) :
    List WifiContainerQueueId :=
  l.dedup.insertionSort fun q q' => orders.set q q' = true

/-- The keys of an `unordered_map`, in the order in which it is iterated. -/
def QueueOrders.ofMap (orders : QueueOrders) (l : List WifiContainerQueueId) :
    List WifiContainerQueueId :=
  l.insertionSort fun q q' => orders.map q q' = true

/-- What `HasToDropBeforeEnqueue` returns when the queue is full : the new MPDU, a queued one, or
none. -/
inductive DropChoice
  | nothing
  | item
  | queued (id : ℕ)

/-- `Time::Max()`. -/
def timeMax : Time :=
  2 ^ 63 - 1

/-- `WifiMacQueue`, with the sorted queues of the scheduler for its access category. -/
structure WifiMacQueue where
  container : WifiMacQueueContainer := {}
  nPackets : ℕ := 0
  nBytes : ℕ := 0
  maxSize : ℕ := 500
  maxDelay : Time := microSeconds 500000
  sortedQueues : List (FcfsPrio × WifiContainerQueueId) := []
  now : Time := 0

namespace WifiMacQueue

variable (orders : QueueOrders) (s : WifiMacQueue)

/-! ## The scheduler is told -/

/-- The MPDU at the head of a container queue. -/
def head? (queueId : WifiContainerQueueId) : Option WifiMacQueueElem :=
  (s.container.queues queueId).head?

/-- The entry of a queue is taken out of the sorted queues. -/
def unsort (queueId : WifiContainerQueueId) : WifiMacQueue :=
  { s with sortedQueues := s.sortedQueues.filter (·.2 ≠ queueId) }

/-- An entry is put into the sorted queues. -/
def sort (queueId : WifiContainerQueueId) (priority : FcfsPrio) : WifiMacQueue :=
  { s with sortedQueues := Multimap.insert FcfsPrio.lt (priority, queueId) s.sortedQueues }

/-- `SetPriority`. -/
def setPriority (queueId : WifiContainerQueueId) (priority : FcfsPrio) : Option WifiMacQueue :=
  if s.container.getNBytes queueId = 0 then none
  else match s.sortedQueues.find? (·.2 = queueId) with
    | some entry =>
      if entry.1 = priority then some s else some ((s.unsort queueId).sort queueId priority)
    | none => some (s.sort queueId priority)

/-- A queue that has become empty is taken out of the sorted queues. -/
def eraseIfEmpty (queueId : WifiContainerQueueId) : WifiMacQueue :=
  if s.container.getNBytes queueId = 0 then s.unsort queueId else s

/-- `ExtractExpiredMpdus`, with what tells the scheduler. -/
def extractExpired (notify : List WifiContainerQueueId → WifiMacQueue → Option WifiMacQueue)
    (queueId : WifiContainerQueueId) : Option WifiMacQueue :=
  (s.container.doExtractExpiredMpdus s.now queueId).bind fun (container, first, last) =>
    let mpdus := container.range first last
    let s := { s with container }
    if mpdus = [] then some s else notify (mpdus.map WifiMacQueueElem.queueId) s

/-- A round of the loops of `DoNotifyRemove` and `DoNotifyDequeue` : the queue is peeked at, and its
priority is set. -/
def updatePriority (notify : List WifiContainerQueueId → WifiMacQueue → Option WifiMacQueue)
    (s : WifiMacQueue) (queueId : WifiContainerQueueId) : Option WifiMacQueue :=
  (s.extractExpired notify queueId).bind fun s =>
    match s.head? queueId with
    | some e => s.setPriority queueId e.prio
    | none => some s

/-- `NotifyRemove`, and `NotifyDequeue`, which does the same, with a bound on how deep the
notifications are nested. -/
def notifyRemove : ℕ → List WifiContainerQueueId → WifiMacQueue → Option WifiMacQueue
  | 0, _, _ => none
  | depth + 1, queueIds, s =>
    ((orders.ofSet queueIds).foldlM (updatePriority (notifyRemove depth)) s).map fun s =>
      queueIds.foldl eraseIfEmpty s

/-- `ExtractExpiredMpdus`. -/
def extractExpiredMpdus (queueId : WifiContainerQueueId) : Option WifiMacQueue :=
  s.extractExpired (notifyRemove orders 2) queueId

/-- `ExtractAllExpiredMpdus`. -/
def extractAllExpiredMpdus : Option WifiMacQueue :=
  (s.container.extractAllExpiredMpdus s.now (orders.ofMap s.container.keys)).bind
    fun (container, first, last) =>
      let mpdus := container.range first last
      let s := { s with container }
      if mpdus = [] then some s
      else notifyRemove orders 2 (mpdus.map WifiMacQueueElem.queueId) s

/-- `NotifyEnqueue`. -/
def notifyEnqueue (queueId : WifiContainerQueueId) : Option WifiMacQueue :=
  (s.extractExpiredMpdus orders queueId).bind fun s =>
    (s.head? queueId).bind fun e => s.setPriority queueId e.prio

/-! ## Taking MPDUs out -/

/-- `DoDequeue` and `DoRemove` of `Queue`, which differ in a trace. -/
def takeOut (id : ℕ) : Option (WifiMacQueue × Option WifiMacQueueElem) :=
  if s.nPackets = 0 then some (s, none)
  else (s.container.find? id).bind fun e =>
    (s.container.erase id).bind fun container =>
      if e.size ≤ s.nBytes then
        some ({ s with container, nBytes := s.nBytes - e.size, nPackets := s.nPackets - 1 }, some e)
      else none

/-- `SetMaxSize`. -/
def setMaxSize (size : ℕ) : Option WifiMacQueue :=
  if size = 0 then some s
  else if size < s.nPackets then none
  else some { s with maxSize := size }

/-- The room made for a control frame is taken back. -/
def shrink (e : WifiMacQueueElem) : Option WifiMacQueue :=
  if e.isCtl then if s.maxSize = 0 then none else s.setMaxSize (s.maxSize - 1)
  else some s

/-- `DoRemove`. -/
def doRemove (id : ℕ) : Option WifiMacQueue :=
  (s.takeOut id).bind fun (s, item) =>
    match item with
    | none => some s
    | some e => (s.shrink e).bind (notifyRemove orders 2 [e.queueId])

/-- A round of the loop of `DoDequeue`, with the MPDUs dequeued. -/
def dequeueNext (x : WifiMacQueue × List WifiMacQueueElem) (id : ℕ) :
    Option (WifiMacQueue × List WifiMacQueueElem) :=
  (x.1.takeOut id).bind fun (s, item) =>
    match item with
    | none => some (s, x.2)
    | some e => (s.shrink e).map fun s => (s, x.2 ++ [e])

/-- `DoDequeue`. -/
def doDequeue (ids : List ℕ) : Option WifiMacQueue :=
  (ids.foldlM dequeueNext (s, [])).bind fun (s, items) =>
    if items = [] then some s
    else notifyRemove orders 2 (items.map WifiMacQueueElem.queueId) s

/-- `WipeAllExpiredMpdus`. -/
def wipeAllExpiredMpdus : Option WifiMacQueue :=
  (s.extractAllExpiredMpdus orders).bind fun s =>
    (s.container.expiredQueue.map (·.id)).foldlM (fun s id => (s.takeOut id).map Prod.fst) s

/-! ## Searching -/

/-- The queue after this one in the sorted list. -/
def nextQueue (queueId : WifiContainerQueueId) : Option WifiContainerQueueId :=
  (s.sortedQueues.dropWhile (·.2 ≠ queueId)).tail.head?.map Prod.snd

/-- The queue before this one in the sorted list. -/
def prevQueue (queueId : WifiContainerQueueId) : Option WifiContainerQueueId :=
  (s.sortedQueues.takeWhile (·.2 ≠ queueId)).getLast?.map Prod.snd

/-- The first of the sorted queues. -/
def firstQueue : Option WifiContainerQueueId :=
  s.sortedQueues.head?.map Prod.snd

/-- The loop of `DoGetNext`, from a queue or the end of the sorted queues on. The test says that the
queue is not skipped because it is blocked. -/
def doGetNext (test : WifiContainerQueueId → Bool) :
    ℕ → Option WifiContainerQueueId → WifiMacQueue →
      Option (WifiMacQueue × Option WifiContainerQueueId)
  | 0, _, _ => none
  | _ + 1, none, s => some (s, none)
  | rounds + 1, some queueId, s =>
    if test queueId then
      (s.extractExpiredMpdus orders queueId).bind fun t =>
        if t.container.getNBytes queueId = 0 then
          let next := match s.prevQueue queueId with
            | some prev => t.nextQueue prev
            | none => t.firstQueue
          doGetNext test rounds (if next = some queueId then t.nextQueue queueId else next) t
        else some (t, some queueId)
    else doGetNext test rounds (s.nextQueue queueId) s

/-- `GetNext`, from the first queue on or from the one after a queue, which must be in the list. -/
def getNext (test : WifiContainerQueueId → Bool) :
    Option WifiContainerQueueId → Option (WifiMacQueue × Option WifiContainerQueueId)
  | none => doGetNext orders test (s.sortedQueues.length + 1) s.firstQueue s
  | some prevQueueId =>
    if prevQueueId ∈ s.sortedQueues.map Prod.snd then
      doGetNext orders test (s.sortedQueues.length + 1) (s.nextQueue prevQueueId) s
    else none

/-- `Remove` without an argument. -/
def remove : Option WifiMacQueue :=
  (s.getNext orders (fun _ => true) none).bind fun (s, queueId) =>
    match queueId with
    | none => some s
    | some queueId => (s.head? queueId).bind fun e => s.doRemove orders e.id

/-- The loop of `Flush` of the base class. -/
def flushLoop : ℕ → WifiMacQueue → Option WifiMacQueue
  | 0, _ => none
  | rounds + 1, s =>
    if s.nPackets = 0 then some s else (s.remove orders).bind (flushLoop rounds)

/-- `Flush`, with a bound on the rounds of the loop. -/
def flush (rounds : ℕ) : Option WifiMacQueue :=
  (s.wipeAllExpiredMpdus orders).bind (flushLoop orders rounds)

/-! ## Inserting -/

/-- `GetIt`. The MPDU must be queued, which it is as well in the expired queue. -/
def getIt (id : ℕ) : Option WifiMacQueueElem :=
  s.container.find? id

/-- The begin of a container queue. -/
def begin (queueId : WifiContainerQueueId) : ElemIterator :=
  match s.head? queueId with
  | some e => .elem e.id
  | none => .queueEnd queueId

/-- `std::next` of an element of a container queue. -/
def next (queueId : WifiContainerQueueId) (id : ℕ) : ElemIterator :=
  match ((s.container.queues queueId).dropWhile (·.id ≠ id)).tail.head? with
  | some e => .elem e.id
  | none => .queueEnd queueId

/-- `std::next` of an element of the expired queue. -/
def nextExpired (id : ℕ) : ElemIterator :=
  match (s.container.expiredQueue.dropWhile (·.id ≠ id)).tail.head? with
  | some e => .elem e.id
  | none => .expiredEnd

/-- The position is moved on if the MPDU that it is at has to be dropped. -/
def dropPos (pos : ElemIterator) (queueId : WifiContainerQueueId) (id : ℕ) : Option ElemIterator :=
  match pos with
  | .elem p => (s.container.find? p).map fun _ => if p = id then s.next queueId id else pos
  | .queueEnd q => if q = queueId then some pos else none
  | .expiredEnd => none

/-- The base class inserts the MPDU only if there is room. -/
def roomFor (currSize : ℕ) (pos : ElemIterator) : Option (WifiMacQueue × Option ElemIterator) :=
  if s.maxSize < s.nPackets + 1 then (s.setMaxSize currSize).map fun s => (s, none)
  else some (s, some pos)

/-- `DoEnqueue` up to the call of the base class, with the size to return to : there is no position
if the MPDU is not inserted. -/
def makeRoom (currSize : ℕ) (drop : DropChoice) (pos : ElemIterator) (item : WifiMacQueueElem) :
    Option (WifiMacQueue × Option ElemIterator) :=
  -- the scheduler drops nothing if the queue is not full
  match if s.nPackets < s.maxSize then DropChoice.nothing else drop with
  | .item => (s.setMaxSize currSize).map fun s => (s, none)
  | .nothing => s.roomFor currSize pos
  | .queued id =>
    (s.getIt id).bind fun _ => (s.dropPos pos item.queueId id).bind fun pos =>
      (s.doRemove orders id).bind fun s => s.roomFor currSize pos

/-- A control frame does not take up room. -/
def grow (item : WifiMacQueueElem) : Option WifiMacQueue :=
  if item.isCtl then s.setMaxSize (s.maxSize + 1) else some s

/-- The position of `Insert` in a full queue, before the expired MPDUs are removed. -/
def stalePos (pos : ElemIterator) (item : WifiMacQueueElem) : Option ElemIterator :=
  if pos = .queueEnd item.queueId then some pos
  else match pos with
    | .elem id => (s.container.find? id).bind fun e =>
      if e.queueId ≠ item.queueId then none
      else if e.expiryTime ≤ s.now then some (s.begin item.queueId) else some pos
    | _ => none

/-- `Insert` up to the call of the base class. -/
def insertPos (drop : DropChoice) (pos : ElemIterator) (item : WifiMacQueueElem) :
    Option (WifiMacQueue × Option ElemIterator) :=
  if s.nPackets < s.maxSize then
    (s.grow item).bind fun t => t.makeRoom orders s.maxSize drop pos item
  else
    (s.stalePos pos item).bind fun pos =>
      (s.wipeAllExpiredMpdus orders).bind fun s =>
        (s.grow item).bind fun t => t.makeRoom orders s.maxSize drop pos item

/-- The MPDU with the time at which its lifetime expires. -/
def stamp (item : WifiMacQueueElem) : WifiMacQueueElem :=
  { item with expiryTime := if item.isCtl then timeMax else s.now + s.maxDelay }

/-- `DoEnqueue` from the call of the base class on. -/
def enqueueAt (pos : ElemIterator) (item : WifiMacQueueElem) : Option WifiMacQueue :=
  (s.container.insert pos (s.stamp item)).bind fun container =>
    notifyEnqueue orders
      { s with container, nBytes := s.nBytes + item.size, nPackets := s.nPackets + 1 } item.queueId

/-- `Insert`, which says whether the MPDU has been inserted. -/
def insert (drop : DropChoice) (pos : ElemIterator) (item : WifiMacQueueElem) :
    Option (WifiMacQueue × Bool) :=
  (s.insertPos orders drop pos item).bind fun (s, pos) =>
    match pos with
    | none => some (s, false)
    | some pos => (s.enqueueAt orders pos item).map fun s => (s, true)

/-- `Replace`. -/
def replace (drop : DropChoice) (id : ℕ) (newItem : WifiMacQueueElem) : Option WifiMacQueue :=
  (s.getIt id).bind fun e =>
    (s.doDequeue orders [id]).bind fun t =>
      let pos := if e.expired then s.nextExpired id else s.next e.queueId id
      (t.insert orders drop pos newItem).bind fun (s, inserted) =>
        if inserted ∧ (s.getIt newItem.id).isSome then
          some { s with container :=
            s.container.modify newItem.id fun e' => { e' with expiryTime := e.expiryTime } }
        else none

end WifiMacQueue

end Ns3Pedca
