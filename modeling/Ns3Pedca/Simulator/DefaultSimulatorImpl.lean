import Ns3Pedca.Simulator.Scheduler

/-!
# The simulator

`DefaultSimulatorImpl` takes one event after the other from its scheduler and invokes it. An
event may call the functions of the simulator again. The scheduler is any one with the virtual
functions of `Scheduler`, and a state of it may be of any of its classes.

Next to the state stands what has happened (`SimulatorHistory`), which no function reads. An
addition of times wraps around, as the processor does it.
-/

namespace Ns3Pedca

/-- `EventId`, with the fields of the event it belongs to. -/
abbrev EventId := Event

namespace EventId

/-- `UID::DESTROY`. -/
abbrev destroy : UInt32 := 2

/-- `UID::VALID`. -/
abbrev valid : UInt32 := 4

end EventId

/-- `EventWithContext`. -/
structure EventWithContext where
  context : UInt32
  timestamp : UInt64
  event : ℕ
  deriving DecidableEq

/-- What has happened : the events that were put into the scheduler, those that were taken out to
be executed, those of them that were invoked, the ones that were cancelled or removed before they
were executed, the events that were scheduled for the end, and those of them that were executed or
removed. -/
structure SimulatorHistory where
  scheduled : List Event := []
  started : List Event := []
  invoked : List Event := []
  revoked : List EventId := []
  scheduledDestroy : List EventId := []
  gone : List EventId := []

/-- `DefaultSimulatorImpl`, with the flags `m_cancel` of the events. -/
structure Simulator (σ : Type) where
  stop : Bool := false
  events : σ
  uid : UInt32 := EventId.valid
  currentUid : UInt32 := 0
  currentTs : UInt64 := 0
  currentContext : UInt32 := 0xffffffff
  eventCount : UInt64 := 0
  unscheduledEvents : Int32 := 0
  eventsWithContext : List EventWithContext := []
  eventsWithContextEmpty : Bool := true
  destroyEvents : List EventId := []
  cancelled : ℕ → Bool := fun _ => false
  history : SimulatorHistory := {}

namespace Simulator

variable {σ : Type} (S : Scheduler σ) (s : Simulator σ)

/-! ## Scheduling -/

/-- What `Schedule`, `ScheduleWithContext` and `ProcessEventsWithContext` do with an event. -/
def insertEvent (ts : UInt64) (context : UInt32) (event : ℕ) : Option (Simulator σ × EventId) := do
  let ev : Event := ⟨event, ts, s.uid, context⟩
  let events ← S.insert s.events ev
  return ({ s with
    events := events
    uid := s.uid + 1
    unscheduledEvents := s.unscheduledEvents + 1
    history := { s.history with scheduled := s.history.scheduled ++ [ev] } }, ev)

/-- `Schedule`. -/
def schedule (delay : Int64) (event : ℕ) : Option (Simulator σ × EventId) :=
  let tAbsolute := delay + s.currentTs.toInt64
  s.insertEvent S tAbsolute.toUInt64 s.currentContext event

/-- `ScheduleWithContext` in the main thread. -/
def scheduleWithContext (context : UInt32) (delay : Int64) (event : ℕ) :
    Option (Simulator σ × EventId) :=
  let tAbsolute := delay + s.currentTs.toInt64
  s.insertEvent S tAbsolute.toUInt64 context event

/-- `ScheduleWithContext` in another thread. -/
def postWithContext (context : UInt32) (delay : Int64) (event : ℕ) : Simulator σ :=
  { s with
    eventsWithContext := s.eventsWithContext ++ [⟨context, delay.toUInt64, event⟩]
    eventsWithContextEmpty := false }

/-- `ScheduleDestroy`. -/
def scheduleDestroy (event : ℕ) : Simulator σ :=
  let id : EventId := ⟨event, s.currentTs, EventId.destroy, 0xffffffff⟩
  { s with
    destroyEvents := s.destroyEvents ++ [id]
    uid := s.uid + 1
    history := { s.history with scheduledDestroy := s.history.scheduledDestroy ++ [id] } }

/-- `ProcessEventsWithContext`. -/
def processEventsWithContext : Option (Simulator σ) :=
  if s.eventsWithContextEmpty then some s
  else s.eventsWithContext.foldlM
    (fun s event => (s.insertEvent S (s.currentTs + event.timestamp) event.context event.event).map
      Prod.fst)
    { s with eventsWithContext := [], eventsWithContextEmpty := true }

/-! ## Expired events -/

/-- `IsExpired`. -/
def isExpired (id : EventId) : Bool :=
  if id.key.uid = EventId.destroy then
    if id.impl = 0 ∨ s.cancelled id.impl then true
    else !s.destroyEvents.any fun i => i = id
  else id.impl = 0 ∨ id.key.ts < s.currentTs ∨
    id.key.ts = s.currentTs ∧ id.key.uid ≤ s.currentUid ∨ s.cancelled id.impl

/-- `GetDelayLeft`. -/
def getDelayLeft (id : EventId) : UInt64 :=
  if s.isExpired id then 0 else id.key.ts - s.currentTs

/-- The event of `id` is to be executed. -/
def pending (id : EventId) : Bool :=
  if id.key.uid = EventId.destroy then s.destroyEvents.contains id
  else s.history.scheduled.contains id && !s.history.started.contains id

/-- The record of a call of `Cancel` or `Remove`. -/
def recordRevoked (id : EventId) : SimulatorHistory :=
  if s.pending id then { s.history with revoked := s.history.revoked ++ [id] } else s.history

/-- `Cancel`. -/
def cancel (id : EventId) : Simulator σ :=
  if !s.isExpired id then
    { s with
      cancelled := Function.update s.cancelled id.impl true
      history := s.recordRevoked id }
  else { s with history := s.recordRevoked id }

/-- `Remove`. -/
def remove (id : EventId) : Option (Simulator σ) :=
  if id.key.uid = EventId.destroy then
    some { s with
      destroyEvents := s.destroyEvents.erase id
      history := if s.pending id then { s.history with gone := s.history.gone ++ [id] }
        else s.history }
  else if s.isExpired id then some { s with history := s.recordRevoked id }
  else do
    let events ← S.remove s.events id
    return { s with
      events := events
      cancelled := Function.update s.cancelled id.impl true
      unscheduledEvents := s.unscheduledEvents - 1
      history := s.recordRevoked id }

/-! ## Other schedulers -/

/-- The loop of `SetScheduler`, with a bound on the events. -/
def moveEvents : ℕ → σ → σ → Option σ
  | 0, _, _ => none
  | fuel + 1, events, scheduler =>
    if S.isEmpty events then some scheduler
    else do
      let (next, events) ← S.removeNext events
      let scheduler ← S.insert scheduler next
      moveEvents fuel events scheduler

/-- `SetScheduler`, with the scheduler that is created. There are no more events in the scheduler
than have been put into it. -/
def setScheduler (scheduler : σ) : Option (Simulator σ) :=
  (moveEvents S (s.history.scheduled.length + 1) s.events scheduler).map fun events =>
    { s with events := events }

/-! ## Calls -/

/-- A call of a function of the simulator, by an event, by the main program or by another
thread. -/
inductive Call (σ : Type)
  | schedule (delay : Int64) (event : ℕ)
  | scheduleWithContext (context : UInt32) (delay : Int64) (event : ℕ)
  | postWithContext (context : UInt32) (delay : Int64) (event : ℕ)
  | scheduleDestroy (event : ℕ)
  | cancel (id : EventId)
  | remove (id : EventId)
  | setScheduler (scheduler : σ)
  | stop

/-- The simulator after a call. -/
def call : Call σ → Option (Simulator σ)
  | .schedule delay event => (s.schedule S delay event).map Prod.fst
  | .scheduleWithContext context delay event =>
    (s.scheduleWithContext S context delay event).map Prod.fst
  | .postWithContext context delay event => some (s.postWithContext context delay event)
  | .scheduleDestroy event => some (s.scheduleDestroy event)
  | .cancel id => some (s.cancel id)
  | .remove id => s.remove S id
  | .setScheduler scheduler => s.setScheduler S scheduler
  | .stop => some { s with stop := true }

/-- The simulator after some calls. -/
def callAll (s : Simulator σ) (calls : List (Call σ)) : Option (Simulator σ) :=
  calls.foldlM (fun s c => s.call S c) s

/-! ## Running -/

/-- `ProcessOneEvent` up to the call of `Invoke`. -/
def takeNext : Option (Event × Simulator σ) := do
  let (next, events) ← S.removeNext s.events
  return (next, { s with
    events := events
    unscheduledEvents := s.unscheduledEvents - 1
    eventCount := s.eventCount + 1
    currentTs := next.key.ts
    currentContext := next.key.context
    currentUid := next.key.uid
    history := { s.history with
      started := s.history.started ++ [next]
      invoked := if s.cancelled next.impl then s.history.invoked
        else s.history.invoked ++ [next] } })

/-- `ProcessOneEvent`, if `Notify` of the event makes the calls `calls`. -/
def processOneEvent (calls : List (Call σ)) : Option (Simulator σ) := do
  let (next, s) ← s.takeNext S
  let s ← if s.cancelled next.impl then some s else s.callAll S calls
  s.processEventsWithContext S

/-- `Run` up to its loop. -/
def beginRun : Option (Simulator σ) :=
  (s.processEventsWithContext S).map fun s => { s with stop := false }

/-- A round of the loop of `Run`. -/
def round (calls : List (Call σ)) : Option (Simulator σ) :=
  if !S.isEmpty s.events && !s.stop then s.processOneEvent S calls else some s

/-- A round of the loop of `Destroy`. -/
def destroyNext (calls : List (Call σ)) : Option (Simulator σ) :=
  match s.destroyEvents with
  | [] => some s
  | ev :: destroyEvents =>
    let s := { s with
      destroyEvents := destroyEvents
      history := { s.history with gone := s.history.gone ++ [ev] } }
    if s.cancelled ev.impl then some s else s.callAll S calls

/-- What a program does with the simulator : a call, the beginning of `Run`, and a round of the
loops of `Run` and `Destroy`. -/
inductive Step (σ : Type)
  | call (c : Call σ)
  | beginRun
  | round (calls : List (Call σ))
  | destroyNext (calls : List (Call σ))

/-- The simulator after a step. -/
def step : Step σ → Option (Simulator σ)
  | .call c => s.call S c
  | .beginRun => s.beginRun S
  | .round calls => s.round S calls
  | .destroyNext calls => s.destroyNext S calls

/-- The simulator after a run of steps. -/
def runSteps (s : Simulator σ) (steps : List (Step σ)) : Option (Simulator σ) :=
  steps.foldlM (fun s a => s.step S a) s

end Simulator

end Ns3Pedca
