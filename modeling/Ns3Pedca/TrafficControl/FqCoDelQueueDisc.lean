import Ns3Pedca.TrafficControl.CoDelQueueDisc

/-!
# FQ-CoDel

`FqCoDelQueueDisc` has a CoDel queue for every flow queue that a packet was classified into, and
serves them by deficit round robin : the queues of the list of new flows first. The flow queue of a
packet is found from its hash, with the set associative hash also from the tags of the flow queues
and from which of them are active. A flow queue is known by its position among the classes of the
queue disc.
-/

namespace Ns3Pedca

/-- `FqCoDelFlow::FlowStatus`. -/
inductive FlowStatus
  | inactive
  | newFlow
  | oldFlow
  deriving DecidableEq

/-- `FqCoDelFlow`. -/
structure FqCoDelFlow where
  deficit : Int32 := 0
  status : FlowStatus := .inactive
  index : UInt32 := 0
  queueDisc : CoDelQueueDisc := {}
  deriving DecidableEq

/-- `FqCoDelQueueDisc`, with its attributes, and the flow hash of a packet : the one that the packet
filters give it, or that of its headers. -/
structure FqCoDelParams where
  hash : ℕ → Option UInt32
  useEcn : Bool := true
  useL4s : Bool := false
  interval : ℕ := 100000000
  target : ℕ := 5000000
  ceThreshold : ℕ := 2 ^ 63 - 1
  maxSize : UInt32 := 10240
  flows : UInt32 := 1024
  dropBatchSize : UInt32 := 64
  enableSetAssociativeHash : Bool := false
  setWays : UInt32 := 8
  quantum : UInt32 := 1500

/-- The CoDel queue disc of a flow queue. -/
def FqCoDelParams.codel (p : FqCoDelParams) : CoDelParams where
  useEcn := p.useEcn
  useL4s := p.useL4s
  interval := p.interval
  target := p.target
  ceThreshold := p.ceThreshold
  maxSize := .packets p.maxSize

/-- `FqCoDelQueueDisc`, with its classes. The lists of flows hold positions of classes. -/
structure FqCoDelQueueDisc where
  classes : List FqCoDelFlow := []
  flowsIndices : UInt32 → Option ℕ := fun _ => none
  tags : UInt32 → Option UInt32 := fun _ => none
  newFlows : List ℕ := []
  oldFlows : List ℕ := []

namespace FqCoDelQueueDisc

variable (p : FqCoDelParams) (now : ℕ) (s : FqCoDelQueueDisc)

/-- The class at a position. -/
def flow (k : ℕ) : FqCoDelFlow :=
  s.classes.getD k {}

def setFlow (k : ℕ) (flow : FqCoDelFlow) : FqCoDelQueueDisc :=
  { s with classes := s.classes.set k flow }

/-! ## Enqueueing -/

/-- A queue of a set that `SetAssociativeHash` takes : it has not been created yet, or is associated
with the flow, or is inactive. -/
def usable (flowHash i : UInt32) : Bool :=
  match s.flowsIndices i with
  | none => true
  | some k => s.tags i = some flowHash ∨ (s.flow k).status = .inactive

/-- The first queue of the set of a hash. -/
def outerHash (flowHash : UInt32) : UInt32 :=
  flowHash % p.flows - flowHash % p.flows % p.setWays

/-- The queues of the set of a hash. -/
def set (flowHash : UInt32) : List UInt32 :=
  (List.range ((outerHash p flowHash + p.setWays).toNat - (outerHash p flowHash).toNat)).map
    (outerHash p flowHash + .ofNat ·)

/-- `SetAssociativeHash`. -/
def setAssociativeHash (flowHash : UInt32) : FqCoDelQueueDisc × UInt32 :=
  let i := ((set p flowHash).find? (s.usable flowHash)).getD (outerHash p flowHash)
  ({ s with tags := Function.update s.tags i (some flowHash) }, i)

/-- The queue that a hash is classified into. The remainders have to be defined. -/
def classify (flowHash : UInt32) : Option (FqCoDelQueueDisc × UInt32) :=
  if p.flows = 0 then none
  else if p.enableSetAssociativeHash then
    if p.setWays = 0 then none else some (s.setAssociativeHash p flowHash)
  else some (s, flowHash % p.flows)

/-- The class of a queue, which is created if there is none. -/
def getFlow (h : UInt32) : FqCoDelQueueDisc × ℕ :=
  match s.flowsIndices h with
  | some k => (s, k)
  | none =>
    ({ s with
      classes := s.classes ++ [{ index := h }]
      flowsIndices := Function.update s.flowsIndices h (some s.classes.length) }, s.classes.length)

/-- An inactive flow becomes a new one. -/
def activate (k : ℕ) : FqCoDelQueueDisc :=
  let flow := s.flow k
  if flow.status = .inactive then
    { s.setFlow k { flow with status := .newFlow, deficit := p.quantum.toInt32 } with
      newFlows := s.newFlows ++ [k] }
  else s

/-- `Enqueue` of the queue disc of a class. -/
def enqueueFlow (k : ℕ) (item : QueueDiscItem) : FqCoDelQueueDisc :=
  let flow := s.flow k
  s.setFlow k { flow with queueDisc := (flow.queueDisc.enqueue p.codel now item).1 }

/-- The number of packets that are queued. -/
def nPackets : ℕ :=
  (s.classes.map (·.queueDisc.queue.length)).sum

/-- The class with the largest backlog, of those from a position on, and its backlog. -/
def fatFlow : List FqCoDelFlow → ℕ → ℕ → UInt32 → ℕ × UInt32
  | [], _, index, maxBacklog => (index, maxBacklog)
  | flow :: classes, i, index, maxBacklog =>
    let bytes := CoDelQueueDisc.nBytes flow.queueDisc.queue
    if bytes > maxBacklog then fatFlow classes (i + 1) i bytes
    else fatFlow classes (i + 1) index maxBacklog

/-- The loop of `FqCoDelDrop`. It reads the item that it takes, also if there is none. -/
def dropBatch (threshold : UInt32) : List QueueDiscItem → UInt32 → UInt32 →
    Option (List QueueDiscItem)
  | [], _, _ => none
  | item :: queue, count, len =>
    let len := len + item.size
    let count := count + 1
    if count < p.dropBatchSize ∧ len < threshold then dropBatch threshold queue count len
    else some queue

/-- `FqCoDelDrop`. -/
def fqCoDelDrop : Option FqCoDelQueueDisc :=
  let (k, maxBacklog) := fatFlow s.classes 0 0 0
  let flow := s.flow k
  (dropBatch p (maxBacklog >>> 1) flow.queueDisc.queue 0 0).map fun queue =>
    s.setFlow k { flow with queueDisc := { flow.queueDisc with queue := queue } }

/-- `DoEnqueue`. A packet that is not classified is dropped. -/
def doEnqueue (item : QueueDiscItem) : Option FqCoDelQueueDisc :=
  match p.hash item.packet with
  | none => some s
  | some flowHash => do
    let (s, h) ← s.classify p flowHash
    let (s, k) := s.getFlow h
    let s := (s.activate p k).enqueueFlow p now k item
    if UInt32.ofNat s.nPackets > p.maxSize then s.fqCoDelDrop p else some s

/-! ## Dequeueing -/

/-- `IncreaseDeficit`. -/
def increaseDeficit (k : ℕ) (deficit : Int32) : FqCoDelQueueDisc :=
  let flow := s.flow k
  s.setFlow k { flow with deficit := flow.deficit + deficit }

/-- `SetStatus`. -/
def setStatus (k : ℕ) (status : FlowStatus) : FqCoDelQueueDisc :=
  s.setFlow k { s.flow k with status := status }

/-- `Dequeue` of the queue disc of a class. -/
def dequeueFlow (k : ℕ) : Option (FqCoDelQueueDisc × Option QueueDiscItem) :=
  let flow := s.flow k
  (flow.queueDisc.doDequeue p.codel now).map fun r =>
    (s.setFlow k { flow with queueDisc := r.1 }, r.2.item)

/-- A class without a packet is moved on to the next state. -/
def retire (k : ℕ) : FqCoDelQueueDisc :=
  match s.newFlows with
  | _ :: newFlows =>
    { s.setStatus k .oldFlow with newFlows := newFlows, oldFlows := s.oldFlows ++ [k] }
  | [] => { s.setStatus k .inactive with oldFlows := s.oldFlows.tail }

/-- `DoDequeue`. Each of its loops goes on with the front of the first list that is not empty, so
that they are one loop here, with a bound for the number of its rounds. -/
def doDequeue : ℕ → FqCoDelQueueDisc → Option (FqCoDelQueueDisc × Option QueueDiscItem)
  | 0, _ => none
  | fuel + 1, s =>
    let serve (k : ℕ) := do
      let (s, item) ← s.dequeueFlow p now k
      match item with
      | none => doDequeue fuel (s.retire k)
      | some item => some (s.increaseDeficit k (-item.size.toInt32), some item)
    match s.newFlows, s.oldFlows with
    | k :: newFlows, oldFlows =>
      if (s.flow k).deficit ≤ 0 then
        doDequeue fuel { (s.increaseDeficit k p.quantum.toInt32).setStatus k .oldFlow with
          newFlows := newFlows, oldFlows := oldFlows ++ [k] }
      else serve k
    | [], k :: oldFlows =>
      if (s.flow k).deficit ≤ 0 then
        doDequeue fuel { s.increaseDeficit k p.quantum.toInt32 with oldFlows := oldFlows ++ [k] }
      else serve k
    | [], [] => some (s, none)

/-! ## Runs -/

/-- A packet is enqueued, or one is dequeued, at a time. -/
inductive FqCoDelEvent
  | enqueue (now : ℕ) (item : QueueDiscItem)
  | dequeue (now : ℕ)

/-- The queue disc after an event, and the packet that has left it. -/
def step (fuel : ℕ) : FqCoDelEvent → Option (FqCoDelQueueDisc × Option QueueDiscItem)
  | .enqueue now item => (s.doEnqueue p now item).map (·, none)
  | .dequeue now => s.doDequeue p now fuel

/-- The queue disc after a run, and the packets that have left it. -/
def run (fuel : ℕ) : FqCoDelQueueDisc → List FqCoDelEvent → Option (FqCoDelQueueDisc × List ℕ)
  | s, [] => some (s, [])
  | s, e :: events => do
    let (s, item) ← s.step p fuel e
    let (s, packets) ← run fuel s events
    some (s, (item.map (·.packet)).toList ++ packets)

/-- The packets that are enqueued in a run. -/
def enqueued : List FqCoDelEvent → List ℕ
  | [] => []
  | .enqueue _ item :: events => item.packet :: enqueued events
  | .dequeue _ :: events => enqueued events

end FqCoDelQueueDisc

end Ns3Pedca
