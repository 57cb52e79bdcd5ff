import Ns3Pedca.Simulator.Scheduler

/-!
# The calendar scheduler

`CalendarScheduler` keeps the events in buckets, each for the times of one slot of a year. The
next event is looked for from the bucket of the last one on, over one year, and if there is none
it is the least one of all buckets. The number of buckets is doubled and halved with the number of
events, and then the width of a slot is found from the first events, which are taken out of the
buckets and put back.

A function returns `none` where the program reads a bucket that is not there.
-/

namespace Ns3Pedca

/-- `CalendarScheduler`. The bucket at a position behind `nBuckets` is not part of it. -/
structure CalendarScheduler where
  reverse : Bool
  buckets : ℕ → List Event
  nBuckets : ℕ
  width : UInt64
  lastBucket : ℕ
  bucketTop : UInt64
  lastPrio : UInt64
  qSize : UInt32

namespace CalendarScheduler

/-! ## The order of a bucket -/

section Reverse

variable (reverse : Bool)

/-- `NextEvent`. -/
def nextEvent (bucket : List Event) : Option Event :=
  if reverse then bucket.getLast? else bucket.head?

/-- `Order`. -/
def order (a b : EventKey) : Bool :=
  if reverse then b.lt a else a.lt b

/-- `Pop`. -/
def pop (bucket : List Event) : List Event :=
  if reverse then bucket.dropLast else bucket.tail

/-- The loop of `DoInsert`. -/
def insertIn (ev : Event) : List Event → List Event
  | [] => [ev]
  | i :: bucket =>
    if order reverse ev.key i.key then ev :: i :: bucket else i :: insertIn ev bucket

end Reverse

variable (s : CalendarScheduler)

/-- `Hash`. -/
def hash (ts : UInt64) : ℕ :=
  (ts / s.width).toNat % s.nBuckets

/-- `Init`, without the buckets. -/
def init (nBuckets : ℕ) (width startPrio : UInt64) : CalendarScheduler :=
  { s with
    buckets := fun _ => []
    nBuckets := nBuckets
    width := width
    lastPrio := startPrio
    lastBucket := (startPrio / width).toNat % nBuckets
    bucketTop := (startPrio / width + 1) * width }

/-- `DoInsert`. -/
def doInsert (ev : Event) : CalendarScheduler :=
  { s with
    buckets := Function.update s.buckets (s.hash ev.key.ts)
      (insertIn s.reverse ev (s.buckets (s.hash ev.key.ts))) }

/-- What the loop that looks for the next event ends with : an event of this year, or the least
event of all buckets. -/
inductive Found
  | thisYear (i : ℕ) (bucketTop : UInt64) (next : Event)
  | least (minBucket : Option ℕ) (minEvent : Event)

/-- The loop of `PeekNext` and `DoRemoveNext`, with a bound on its steps. -/
def search : ℕ → ℕ → UInt64 → Option ℕ → Event → Option Found
  | 0, _, _, _, _ => none
  | fuel + 1, i, bucketTop, minBucket, minEvent =>
    let next? := nextEvent s.reverse (s.buckets i)
    let found := next?.filter fun next => next.key.ts < bucketTop
    let less := next?.filter fun next => next.key.lt minEvent.key
    match found with
    | some next => some (.thisYear i bucketTop next)
    | none =>
      let minBucket := if less.isSome then some i else minBucket
      let minEvent := less.getD minEvent
      let i' := (i + 1) % s.nBuckets
      if i' ≠ s.lastBucket then search fuel i' (bucketTop + s.width) minBucket minEvent
      else some (.least minBucket minEvent)

/-- The event that `PeekNext` begins with. -/
def peekStart : Event :=
  ⟨0, 0xffffffffffffffff, 0xffffffff, 0⟩

/-- `PeekNext`. -/
def peekNext : Option Event :=
  (s.search s.nBuckets s.lastBucket s.bucketTop none peekStart).map fun
    | .thisYear _ _ next => next
    | .least _ minEvent => minEvent

/-- The key that `DoRemoveNext` begins with. -/
def removeStart : Event :=
  ⟨0, 0xffffffffffffffff, 0, 0xffffffff⟩

/-- `DoRemoveNext`. -/
def doRemoveNext : Option (Event × CalendarScheduler) := do
  match ← s.search s.nBuckets s.lastBucket s.bucketTop none removeStart with
  | .thisYear i bucketTop next =>
    return (next, { s with
      lastBucket := i
      lastPrio := next.key.ts
      bucketTop := bucketTop
      buckets := Function.update s.buckets i (pop s.reverse (s.buckets i)) })
  | .least minBucket minEvent =>
    let minBucket ← minBucket
    let next ← nextEvent s.reverse (s.buckets minBucket)
    return (next, { s with
      lastPrio := minEvent.key.ts
      lastBucket := s.hash minEvent.key.ts
      bucketTop := (minEvent.key.ts / s.width + 1) * s.width
      buckets := Function.update s.buckets minBucket (pop s.reverse (s.buckets minBucket)) })

/-! ## Resizing -/

/-- The samples of `CalculateNewWidth`. -/
def takeSamples : ℕ → CalendarScheduler → Option (List Event × CalendarScheduler)
  | 0, s => some ([], s)
  | n + 1, s => do
    let (ev, s) ← s.doRemoveNext
    let (samples, s) ← takeSamples n s
    return (ev :: samples, s)

/-- The times between the samples. -/
def separations : List Event → List UInt64
  | cur :: next :: samples => (next.key.ts - cur.key.ts) :: separations (next :: samples)
  | _ => []

/-- The width that `CalculateNewWidth` finds from the samples. -/
def widthOf (nSamples : ℕ) (samples : List Event) : UInt64 :=
  let totalSeparation := (separations samples).sum
  let twiceAvg := totalSeparation / UInt64.ofNat (nSamples - 1) * 2
  let totalSeparation := ((separations samples).filter fun diff => diff ≤ twiceAvg).sum
  max (totalSeparation * 3) 1

/-- `CalculateNewWidth`. -/
def calculateNewWidth : Option (UInt64 × CalendarScheduler) :=
  if s.qSize < 2 then some (1, s)
  else do
    let nSamples := min 25
      (if s.qSize ≤ 5 then s.qSize.toNat else 5 + s.qSize.toNat / 10)
    let (samples, sampled) ← takeSamples nSamples s
    let restored := samples.foldl doInsert sampled
    return (widthOf nSamples samples, { restored with
      lastBucket := s.lastBucket
      bucketTop := s.bucketTop
      lastPrio := s.lastPrio })

/-- `DoResize`. -/
def doResize (newSize : ℕ) (newWidth : UInt64) : CalendarScheduler :=
  ((List.range s.nBuckets).flatMap s.buckets).foldl doInsert (s.init newSize newWidth s.lastPrio)

/-- `Resize`. -/
def resize (newSize : ℕ) : Option CalendarScheduler :=
  s.calculateNewWidth.map fun r => r.2.doResize newSize r.1

/-- `ResizeUp`. -/
def resizeUp : Option CalendarScheduler :=
  if s.qSize.toNat > s.nBuckets * 2 ∧ s.nBuckets < 32768 then s.resize (s.nBuckets * 2) else some s

/-- `ResizeDown`. -/
def resizeDown : Option CalendarScheduler :=
  if s.qSize.toNat < s.nBuckets / 2 then s.resize (s.nBuckets / 2) else some s

/-! ## The operations -/

/-- `Insert`. -/
def insert (ev : Event) : Option CalendarScheduler :=
  { s.doInsert ev with qSize := s.qSize + 1 }.resizeUp

/-- `IsEmpty`. -/
def isEmpty : Bool :=
  s.qSize = 0

/-- `RemoveNext`. -/
def removeNext : Option (Event × CalendarScheduler) := do
  let (ev, s) ← s.doRemoveNext
  let s ← { s with qSize := s.qSize - 1 }.resizeDown
  return (ev, s)

/-- `Remove`. -/
def remove (ev : Event) : Option CalendarScheduler :=
  let bucket := s.hash ev.key.ts
  if (s.buckets bucket).any fun i => i.key.uid = ev.key.uid then
    { s with
      buckets := Function.update s.buckets bucket
        ((s.buckets bucket).eraseP fun i => i.key.uid = ev.key.uid)
      qSize := s.qSize - 1 }.resizeDown
  else some s

/-- The constructor, with the attribute `Reverse`. -/
def new (reverse : Bool) : CalendarScheduler where
  reverse := reverse
  buckets _ := []
  nBuckets := 2
  width := 1
  lastBucket := 0
  bucketTop := 1
  lastPrio := 0
  qSize := 0

end CalendarScheduler

/-- `CalendarScheduler`. -/
def calendarScheduler : Scheduler CalendarScheduler where
  insert s ev := s.insert ev
  isEmpty s := s.isEmpty
  peekNext s := s.peekNext
  removeNext s := s.removeNext
  remove s ev := s.remove ev

end Ns3Pedca
