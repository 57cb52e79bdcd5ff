import Mathlib

/-!
# CoDel

`CoDelQueueDisc` drops or marks packets that have been in the queue for too long. Its clock has 32
bits, a unit of it is 1024 ns, and 0 is the value of `m_firstAboveTime` that is not a time. Times
are numbers of nanoseconds.
-/

namespace Ns3Pedca

/-- A `QueueDiscItem` : the packet, its size, the field IP_DSFIELD if there is one, and the time at
which it was enqueued. -/
structure QueueDiscItem where
  packet : ℕ
  size : UInt32
  dsField : Option UInt8 := none
  timeStamp : ℕ := 0
  deriving DecidableEq

/-- `Mark` of the item, with the item if it was marked. -/
def QueueDiscItem.mark (item : QueueDiscItem) : Option QueueDiscItem :=
  match item.dsField with
  | none => none
  | some tos => if tos &&& 3 ≠ 0 then some { item with dsField := some (tos ||| 3) } else none

/-- `QueueSize`. -/
inductive QueueSize
  | packets (value : UInt32)
  | bytes (value : UInt32)

/-- `CoDelQueueDisc`, with its attributes. -/
structure CoDelParams where
  useEcn : Bool := false
  useL4s : Bool := false
  minBytes : UInt32 := 1500
  interval : ℕ := 100000000
  target : ℕ := 5000000
  ceThreshold : ℕ := 2 ^ 63 - 1
  maxSize : QueueSize := .bytes 1500000

/-- `CoDelQueueDisc`, with its internal queue. -/
structure CoDelQueueDisc where
  queue : List QueueDiscItem := []
  count : UInt32 := 0
  lastCount : UInt32 := 0
  dropping : Bool := false
  recInvSqrt : UInt16 := 0xffff
  firstAboveTime : UInt32 := 0
  dropNext : UInt32 := 0
  deriving DecidableEq

namespace CoDelQueueDisc

/-! ## Times -/

/-- `CoDelGetTime`. -/
def coDelGetTime (now : ℕ) : UInt32 :=
  .ofNat (now / 1024)

/-- `Time2CoDel`. -/
def time2CoDel (t : ℤ) : UInt32 :=
  .ofInt (t / 1024)

/-- `CoDelTimeAfter`. -/
def coDelTimeAfter (a b : UInt32) : Bool :=
  (a.toNat : ℤ) - b.toNat > 0

/-- `CoDelTimeAfterEq`. -/
def coDelTimeAfterEq (a b : UInt32) : Bool :=
  (a.toNat : ℤ) - b.toNat ≥ 0

/-- `CoDelTimeBefore`. -/
def coDelTimeBefore (a b : UInt32) : Bool :=
  (a.toNat : ℤ) - b.toNat < 0

/-- `ReciprocalDivide`. -/
def reciprocalDivide (a r : UInt32) : UInt32 :=
  ((a.toUInt64 * r.toUInt64) >>> 32).toUInt32

/-- `NewtonStep`. -/
def newtonStep (recInvSqrt : UInt16) (count : UInt32) : UInt16 :=
  let invsqrt := recInvSqrt.toUInt32 <<< 16
  let invsqrt2 := ((invsqrt.toUInt64 * invsqrt.toUInt64) >>> 32).toUInt32
  let val := ((3 : UInt64) <<< 32) - count.toUInt64 * invsqrt2.toUInt64
  let val := val >>> 2
  let val := (val * invsqrt.toUInt64) >>> (32 - 2 + 1)
  (val >>> 16).toUInt16

/-- `ControlLaw`. -/
def controlLaw (t interval : UInt32) (recInvSqrt : UInt16) : UInt32 :=
  t + reciprocalDivide interval (recInvSqrt.toUInt32 <<< 16)

/-! ## Enqueueing -/

variable (p : CoDelParams) (now : ℕ) (s : CoDelQueueDisc)

/-- The bytes of some items, as `GetNBytes` counts them. -/
def nBytes : List QueueDiscItem → UInt32
  | [] => 0
  | item :: queue => item.size + nBytes queue

/-- The queue would be greater than `GetMaxSize` with another item. -/
def full (item : QueueDiscItem) : Bool :=
  match p.maxSize with
  | .packets value => UInt32.ofNat s.queue.length + 1 > value
  | .bytes value => nBytes s.queue + item.size > value

/-- `Enqueue`, with whether the item was not dropped. -/
def enqueue (item : QueueDiscItem) : CoDelQueueDisc × Bool :=
  if s.full p item then (s, false)
  else ({ s with queue := s.queue ++ [{ item with timeStamp := now }] }, true)

/-! ## Dequeueing -/

/-- The sojourn time of an item. -/
def sojournTime (item : QueueDiscItem) : UInt32 :=
  time2CoDel ((now : ℤ) - item.timeStamp)

/-- `OkToDrop`, for an item that was taken out of the queue. -/
def okToDrop : Option QueueDiscItem → Bool × CoDelQueueDisc
  | none => (false, { s with firstAboveTime := 0 })
  | some item =>
    if coDelTimeBefore (sojournTime now item) (time2CoDel p.target) ||
        nBytes s.queue < p.minBytes then
      (false, { s with firstAboveTime := 0 })
    else if s.firstAboveTime = 0 then
      (false, { s with firstAboveTime := coDelGetTime now + time2CoDel p.interval })
    else (coDelTimeAfter (coDelGetTime now) s.firstAboveTime, s)

/-- `Dequeue` of the internal queue. -/
def pop : Option QueueDiscItem × CoDelQueueDisc :=
  match s.queue with
  | [] => (none, s)
  | item :: queue => (some item, { s with queue := queue })

/-- Why a packet was marked. -/
inductive MarkReason
  | targetExceeded
  | ceThresholdExceeded
  deriving DecidableEq

/-- What `DoDequeue` has done : the packets that it dropped, the one that it returns, and why it was
marked. -/
structure Dequeued where
  dropped : List QueueDiscItem := []
  item : Option QueueDiscItem := none
  marked : Option MarkReason := none
  deriving DecidableEq

/-- The loop of the dropping state, for an item that was taken out of the queue. -/
def dropLoop : List QueueDiscItem → CoDelQueueDisc → List QueueDiscItem → QueueDiscItem →
    CoDelQueueDisc × Dequeued
  | queue, s, dropped, item =>
    if s.dropping && coDelTimeAfterEq (coDelGetTime now) s.dropNext then
      let s := { s with count := s.count + 1 }
      let s := { s with recInvSqrt := newtonStep s.recInvSqrt s.count }
      let interval := time2CoDel p.interval
      match if p.useEcn then item.mark else none with
      | some item =>
        ({ s with dropNext := controlLaw (coDelGetTime now) interval s.recInvSqrt },
          ⟨dropped, some item, some .targetExceeded⟩)
      | none =>
        match queue with
        | [] =>
          let (_, s) := s.okToDrop p now none
          ({ s with dropping := false }, ⟨dropped ++ [item], none, none⟩)
        | next :: queue =>
          let (ok, s) := okToDrop p now { s with queue := queue } (some next)
          if !ok then ({ s with dropping := false }, ⟨dropped ++ [item], some next, none⟩)
          else dropLoop queue { s with dropNext := controlLaw s.dropNext interval s.recInvSqrt }
            (dropped ++ [item]) next
    else (s, ⟨dropped, some item, none⟩)

/-- The dropping state is entered. -/
def enterDropping : CoDelQueueDisc :=
  let now := coDelGetTime now
  let interval := time2CoDel p.interval
  let s := { s with dropping := true }
  let delta := (s.count - s.lastCount).toInt32
  let s :=
    if delta > 1 && coDelTimeBefore (now - s.dropNext) (16 * interval) then
      let s := { s with count := delta.toUInt32 }
      { s with recInvSqrt := newtonStep s.recInvSqrt s.count }
    else { s with count := 1, recInvSqrt := 0xffff }
  let s := { s with lastCount := s.count }
  { s with dropNext := controlLaw now interval s.recInvSqrt }

/-- What `DoDequeue` does with an item if packets are not dropped, and one may be. -/
def firstDrop (item : QueueDiscItem) : CoDelQueueDisc × Dequeued :=
  match if p.useEcn then item.mark else none with
  | some item => (s.enterDropping p now, ⟨[], some item, some .targetExceeded⟩)
  | none =>
    let (next, s) := s.pop
    let (_, s) := s.okToDrop p now next
    (s.enterDropping p now, ⟨[item], next, none⟩)

/-- `DoDequeue` up to the label `end`, for an item that was taken out of the queue. -/
def dropPhase (item : QueueDiscItem) : CoDelQueueDisc × Dequeued :=
  let (okToDrop, s) := s.okToDrop p now (some item)
  if s.dropping then
    if !okToDrop then ({ s with dropping := false }, ⟨[], some item, none⟩)
    else s.dropLoop p now s.queue [] item
  else if okToDrop then s.firstDrop p now item
  else (s, ⟨[], some item, none⟩)

/-- `DoDequeue` behind the label `end`. It reads the item, also if there is none. -/
def endPhase (r : Dequeued) : Option Dequeued :=
  match r.item with
  | none => none
  | some item =>
    if r.marked = none ∧ !p.useL4s ∧ p.useEcn ∧
        coDelTimeAfter (sojournTime now item) (time2CoDel p.ceThreshold) then
      match item.mark with
      | some item => some { r with item := some item, marked := some .ceThresholdExceeded }
      | none => some r
    else some r

/-- `DoDequeue` for a packet with ECT(1) or CE, if L4S is used. -/
def l4sPhase (item : QueueDiscItem) : Dequeued :=
  if coDelTimeAfter (sojournTime now item) (time2CoDel p.ceThreshold) then
    match item.mark with
    | some item => ⟨[], some item, some .ceThresholdExceeded⟩
    | none => ⟨[], some item, none⟩
  else ⟨[], some item, none⟩

/-- An item of the L4S service. -/
def isL4s (item : QueueDiscItem) : Bool :=
  match item.dsField with
  | none => false
  | some tos => tos &&& 3 = 1 ∨ tos &&& 3 = 3

/-- `DoDequeue`. -/
def doDequeue : Option (CoDelQueueDisc × Dequeued) :=
  match s.pop with
  | (none, s) => some ({ s with dropping := false }, {})
  | (some item, s) =>
    if p.useL4s && isL4s item then some (s, l4sPhase p now item)
    else
      let (s, r) := s.dropPhase p now item
      (endPhase p now r).map fun r => (s, r)

/-! ## Lemmas for the functions -/

/-- Another packet is dropped or marked in the dropping state. -/
def nextCount : CoDelQueueDisc :=
  { s with count := s.count + 1, recInvSqrt := newtonStep s.recInvSqrt (s.count + 1) }

variable {p now s} {queue dropped : List QueueDiscItem} {item marked next : QueueDiscItem}

theorem okToDrop_dropping (p : CoDelParams) (now : ℕ) (s : CoDelQueueDisc)
    (item : Option QueueDiscItem) :
    (s.okToDrop p now item).2.dropping = s.dropping := by
  cases item with
  | none => rfl
  | some item =>
    rw [okToDrop]
    split_ifs <;> rfl

theorem okToDrop_queue (p : CoDelParams) (now : ℕ) (s : CoDelQueueDisc)
    (item : Option QueueDiscItem) :
    (s.okToDrop p now item).2.queue = s.queue := by
  cases item with
  | none => rfl
  | some item =>
    rw [okToDrop]
    split_ifs <;> rfl

theorem dropLoop_of_not_due
    (h : (s.dropping && coDelTimeAfterEq (coDelGetTime now) s.dropNext) = false) :
    s.dropLoop p now queue dropped item = (s, ⟨dropped, some item, none⟩) := by
  unfold dropLoop
  rw [h]
  rfl

theorem dropLoop_of_mark
    (h : (s.dropping && coDelTimeAfterEq (coDelGetTime now) s.dropNext) = true)
    (hm : (if p.useEcn then item.mark else none) = some marked) :
    s.dropLoop p now queue dropped item =
      ({ s.nextCount with
        dropNext := controlLaw (coDelGetTime now) (time2CoDel p.interval) s.nextCount.recInvSqrt },
        ⟨dropped, some marked, some .targetExceeded⟩) := by
  unfold dropLoop
  rw [h, hm]
  rfl

theorem dropLoop_nil
    (h : (s.dropping && coDelTimeAfterEq (coDelGetTime now) s.dropNext) = true)
    (hm : (if p.useEcn then item.mark else none) = none) :
    s.dropLoop p now [] dropped item =
      ({ (s.nextCount.okToDrop p now none).2 with dropping := false },
        ⟨dropped ++ [item], none, none⟩) := by
  rw [dropLoop, h, hm]
  rfl

theorem dropLoop_cons
    (h : (s.dropping && coDelTimeAfterEq (coDelGetTime now) s.dropNext) = true)
    (hm : (if p.useEcn then item.mark else none) = none) :
    s.dropLoop p now (next :: queue) dropped item =
      let r := okToDrop p now { s.nextCount with queue := queue } (some next)
      if !r.1 then ({ r.2 with dropping := false }, ⟨dropped ++ [item], some next, none⟩)
      else dropLoop p now queue { r.2 with
        dropNext := controlLaw r.2.dropNext (time2CoDel p.interval) r.2.recInvSqrt }
        (dropped ++ [item]) next := by
  rw [dropLoop, h, hm]
  rfl

/-- The new count of the drops, if the last dropping state was left recently or not. -/
theorem enterDropping_eq (recent : Bool)
    (h : (decide ((s.count - s.lastCount).toInt32 > 1) &&
      coDelTimeBefore (coDelGetTime now - s.dropNext) (16 * time2CoDel p.interval)) = recent) :
    s.enterDropping p now =
      let count := if recent then (s.count - s.lastCount).toInt32.toUInt32 else 1
      let recInvSqrt := if recent then newtonStep s.recInvSqrt count else 0xffff
      ⟨s.queue, count, count, true, recInvSqrt, s.firstAboveTime,
        controlLaw (coDelGetTime now) (time2CoDel p.interval) recInvSqrt⟩ := by
  simp only [enterDropping]
  rw [h]
  cases recent <;> rfl

/-! ## Runs -/

variable (p s)

/-- A packet is enqueued, or one is dequeued, at a time. -/
inductive CoDelEvent
  | enqueue (now : ℕ) (item : QueueDiscItem)
  | dequeue (now : ℕ)

/-- What is seen of an event. -/
inductive CoDelOutput
  | enqueued (b : Bool)
  | dequeued (r : Dequeued)
  deriving DecidableEq

/-- The queue disc after an event, and what is seen of it. -/
def step : CoDelEvent → Option (CoDelQueueDisc × CoDelOutput)
  | .enqueue now item =>
    let (s, b) := s.enqueue p now item
    some (s, .enqueued b)
  | .dequeue now => (s.doDequeue p now).map fun r => (r.1, .dequeued r.2)

/-- What is seen of the events of a run. -/
def outputs : CoDelQueueDisc → List CoDelEvent → Option (List CoDelOutput)
  | _, [] => some []
  | s, e :: events => do
    let (s, out) ← s.step p e
    let outs ← outputs s events
    some (out :: outs)

end CoDelQueueDisc

end Ns3Pedca
