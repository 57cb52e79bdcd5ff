import Ns3Pedca.Mpi.RemoteChannels

/-!
# The null message simulator

Each rank executes its events up to its safe time, the least of the times that its neighbours have
guaranteed. A message carries a guarantee of its sender : `Min(Next(), GetSafeTime())` plus the
delay of the bundle. A packet carries the time at which it arrives as well, a null message has `0`
there. MPI delivers the messages from one rank to another in the order in which they were sent,
and as late as it likes.

A `Turn` is one passage of the loop of `Run` on one rank. The environment chooses the rank, what
the handler of the event does if it is an event of the models, and which messages have arrived.
The assertions of the code are the `MpiFault`s.
-/

namespace Ns3Pedca

/-- The assertions that a turn may violate. -/
inductive MpiFault
  /-- `Next` : `NS_ASSERT(!m_events->IsEmpty())`. -/
  | noNextEvent
  /-- `ScheduleWithContext` of an arriving packet : `NS_ASSERT(tAbsolute >= m_currentTs)`. -/
  | pastPacket
  /-- `RemoteChannelBundle::SetGuaranteeTime` : `NS_ASSERT(time >= Simulator::Now())`. -/
  | pastGuarantee
  /-- `CalculateSafeTime` : `NS_ASSERT(m_safeTime >= Time(m_currentTs))`. -/
  | pastSafeTime
  deriving DecidableEq

/-- What the two simulators have in common of a call that a handler makes : `Schedule` after
`delay`, `Remove` of an event, `Stop`, and `PointToPointRemoteChannel::TransmitStart` on a remote
channel of the rank, by its place in the list. -/
inductive HandlerCall
  | schedule (delay : ℕ)
  | remove (uid : ℕ)
  | transmit (channel : ℕ) (txTime : ℕ)
  | stop
  deriving DecidableEq

/-- A message in flight : `rxTime`, `0` in a null message, and the guarantee. -/
structure NullMessage where
  time : ℕ
  guaranteeUpdate : ℕ
  deriving DecidableEq

/-- `NullMessageSimulatorImpl` with the bundles of its rank : `m_guaranteeTime` and
`m_nullEventId` of each. The content of an event is the remote rank if it is
`NullMessageEventHandler`, else `none`. -/
structure NullMessageSimulatorImpl (ι : Type) where
  lp : LogicalProcess (Option ι)
  safeTime : ℕ
  guaranteeTime : ι → ℕ
  nullEventId : ι → ℕ

/-- All ranks, and the messages on their way from one to another. -/
structure NullMessageSystem (ι : Type) where
  rank : ι → NullMessageSimulatorImpl ι
  inFlight : ι → ι → List NullMessage

/-- The remote channels, and for each bundle `Time(m_schedulerTune * GetDelay())`. The attribute
`SchedulerTune` is at most `1`. -/
structure NullMessageNetwork (ι : Type) [DecidableEq ι] extends RemoteChannels ι where
  nullDelay : ι → ι → ℕ
  nullDelay_le : ∀ i j, nullDelay i j ≤ toRemoteChannels.delay i j

namespace NullMessageSystem

variable {ι : Type} [DecidableEq ι]

/-- The state with another rank `i`. -/
def setRank (s : NullMessageSystem ι) (i : ι) (r : NullMessageSimulatorImpl ι) :
    NullMessageSystem ι :=
  { s with rank := Function.update s.rank i r }

/-- The state with other messages from `i` to `j`. -/
def setInFlight (s : NullMessageSystem ι) (i j : ι) (ms : List NullMessage) :
    NullMessageSystem ι :=
  { s with inFlight := Function.update s.inFlight i (Function.update (s.inFlight i) j ms) }

/-- The state with another event queue of the rank `i`. -/
def setLp (s : NullMessageSystem ι) (i : ι) (lp : LogicalProcess (Option ι)) :
    NullMessageSystem ι :=
  s.setRank i { s.rank i with lp := lp }

/-- `MPI_Isend`. -/
def push (s : NullMessageSystem ι) (i j : ι) (m : NullMessage) : NullMessageSystem ι :=
  s.setInFlight i j (s.inFlight i j ++ [m])

variable (net : NullMessageNetwork ι)

/-- `ScheduleNullMessageEvent` on the rank `i` for the bundle to `j`. -/
def scheduleNullMessageEvent (s : NullMessageSystem ι) (i j : ι) : NullMessageSystem ι :=
  let r := s.rank i
  s.setRank i { r with
    lp := r.lp.schedule (net.nullDelay i j) (some j)
    nullEventId := Function.update r.nullEventId j r.lp.uid }

/-- `RescheduleNullMessageEvent`. -/
def rescheduleNullMessageEvent (s : NullMessageSystem ι) (i j : ι) : NullMessageSystem ι :=
  scheduleNullMessageEvent net (s.setLp i ((s.rank i).lp.cancel ((s.rank i).nullEventId j))) i j

/-- `CalculateGuaranteeTime`. -/
def calculateGuaranteeTime (s : NullMessageSystem ι) (i j : ι) : Except MpiFault ℕ :=
  match (s.rank i).lp.next with
  | none => .error .noNextEvent
  | some n => .ok (min n (s.rank i).safeTime + net.delay i j)

/-- `PointToPointRemoteChannel::TransmitStart` and `NullMessageMpiInterface::SendPacket`, on the
remote channel number `c` of the rank `i`. -/
def sendPacket (s : NullMessageSystem ι) (i : ι) (c txTime : ℕ) :
    Except MpiFault (NullMessageSystem ι) :=
  match (net.channels i)[c]? with
  | none => .ok s
  | some (j, d) => do
    let guaranteeUpdate ← calculateGuaranteeTime net s i j
    let rxTime := (s.rank i).lp.currentTs + txTime + d
    return rescheduleNullMessageEvent net (s.push i j ⟨rxTime, guaranteeUpdate⟩) i j

/-- `NullMessageEventHandler` of the rank `i` for the bundle to `j`. -/
def nullMessageEventHandler (s : NullMessageSystem ι) (i j : ι) :
    Except MpiFault (NullMessageSystem ι) := do
  let time ← calculateGuaranteeTime net s i j
  return scheduleNullMessageEvent net (s.push i j ⟨0, time⟩) i j

/-- One call of a handler on the rank `i`. The identifiers of null message events are private to
the simulator, so a handler removes none of them. -/
def call (i : ι) (s : NullMessageSystem ι) : HandlerCall → Except MpiFault (NullMessageSystem ι)
  | .schedule delay => .ok (s.setLp i ((s.rank i).lp.schedule delay none))
  | .remove uid =>
    .ok (s.setLp i ((s.rank i).lp.remove fun e => e.uid == uid && e.impl.isNone))
  | .transmit c txTime => sendPacket net s i c txTime
  | .stop => .ok (s.setLp i (s.rank i).lp.setStop)

/-- `ProcessOneEvent` of the rank `i`. `handler` is what the event does if it is no null message
event. -/
def processOneEvent (s : NullMessageSystem ι) (i : ι) (handler : List HandlerCall) :
    Except MpiFault (NullMessageSystem ι) :=
  match (s.rank i).lp.removeNext with
  | none => .ok s
  | some (e, lp) =>
    if e.cancelled then .ok (s.setLp i lp)
    else match e.impl with
      | none => handler.foldlM (call net i) (s.setLp i lp)
      | some j => nullMessageEventHandler net (s.setLp i lp) i j

/-- The body of the loop of `ReceiveMessages` on the rank `i`, for the next message from `j`. -/
def receiveMessage (i : ι) (s : NullMessageSystem ι) (j : ι) :
    Except MpiFault (NullMessageSystem ι) :=
  match s.inFlight j i with
  | [] => .ok s
  | m :: ms => do
    let s := s.setInFlight j i ms
    let lp := (s.rank i).lp
    let s ←
      if 0 < m.time then
        if h : lp.currentTs ≤ m.time then .ok (s.setLp i (lp.scheduleAt m.time h none))
        else .error .pastPacket
      else .ok s
    if (s.rank i).lp.currentTs ≤ m.guaranteeUpdate then
      .ok (s.setRank i { s.rank i with
        guaranteeTime := Function.update (s.rank i).guaranteeTime j m.guaranteeUpdate })
    else .error .pastGuarantee

/-- `RemoteChannelBundleManager::GetSafeTime` of the rank `i`. -/
def remoteSafeTime (s : NullMessageSystem ι) (i : ι) : ℕ :=
  ((net.ranks i).map (s.rank i).guaranteeTime).foldl min net.maxTime

/-- `CalculateSafeTime`. -/
def calculateSafeTime (s : NullMessageSystem ι) (i : ι) :
    Except MpiFault (NullMessageSystem ι) :=
  let safeTime := remoteSafeTime net s i
  if (s.rank i).lp.currentTs ≤ safeTime then
    .ok (s.setRank i { s.rank i with safeTime := safeTime })
  else .error .pastSafeTime

/-- A passage of the loop of `Run` on `rank`. `arrivals` names the senders of the messages that
`ReceiveMessages` finds, in this order. -/
structure Turn (ι : Type) where
  rank : ι
  handler : List HandlerCall
  arrivals : List ι

/-- Whether the rank `i` may process its next event : `Next() <= GetSafeTime()`. -/
def ready (s : NullMessageSystem ι) (i : ι) : Bool :=
  (s.rank i).lp.next.any fun n => n ≤ (s.rank i).safeTime

/-- One passage of the loop of `Run`. A rank that waits in `HandleArrivingMessagesBlocking` stays
as it is until a message arrives. -/
def turn (s : NullMessageSystem ι) (t : Turn ι) : Except MpiFault (NullMessageSystem ι) :=
  if (s.rank t.rank).lp.isFinished then .ok s
  else if s.ready t.rank then do
    let s ← processOneEvent net s t.rank t.handler
    let s ← t.arrivals.foldlM (receiveMessage t.rank) s
    calculateSafeTime net s t.rank
  else if net.ranks t.rank = [] then calculateSafeTime net s t.rank
  else match t.arrivals.find? fun j => s.inFlight j t.rank ≠ [] with
    | none => .ok s
    | some j => do
      let s ← receiveMessage t.rank s j
      calculateSafeTime net s t.rank

/-- `InitializeNullMessageEvents` of the rank `i`, for the bundle to `j`. -/
def initializeBundle (i : ι) (s : NullMessageSystem ι) (j : ι) : NullMessageSystem ι :=
  scheduleNullMessageEvent net (s.push i j ⟨0, net.delay i j⟩) i j

/-- `InitializeNullMessageEvents` of the rank `i`. -/
def initializeNullMessageEvents (s : NullMessageSystem ι) (i : ι) : NullMessageSystem ι :=
  (net.ranks i).foldl (initializeBundle net i) s

/-- The ranks before `Run`. `models i` are the times of the events that the models of the rank `i`
have scheduled. -/
def beforeRun (models : ι → List ℕ) : NullMessageSystem ι where
  rank := fun i => {
    lp := (models i).foldl (fun lp ts => lp.schedule ts none) (LogicalProcess.empty _)
    safeTime := 0
    guaranteeTime := fun _ => 0
    nullEventId := fun _ => 0 }
  inFlight := fun _ _ => []

/-- All ranks at the start of the loop of `Run`. -/
def start (models : ι → List ℕ) : NullMessageSystem ι where
  rank := fun i => (initializeNullMessageEvents net (beforeRun models) i).rank i
  inFlight := fun i => (initializeNullMessageEvents net (beforeRun models) i).inFlight i

/-- The turns, one after the other, up to the first that violates an assertion. -/
def run (s : NullMessageSystem ι) (turns : List (Turn ι)) :
    Except MpiFault (NullMessageSystem ι) :=
  turns.foldlM (turn net) s

/-! ## Updates -/

section
variable (s : NullMessageSystem ι) (i j : ι) (r : NullMessageSimulatorImpl ι)
  (ms : List NullMessage) (lp : LogicalProcess (Option ι))

@[simp] theorem rank_setRank_self : (s.setRank i r).rank i = r :=
  Function.update_self _ _ _

@[simp] theorem inFlight_setRank : (s.setRank i r).inFlight = s.inFlight :=
  rfl

@[simp] theorem rank_setInFlight : (s.setInFlight i j ms).rank = s.rank :=
  rfl

@[simp] theorem inFlight_setInFlight_self : (s.setInFlight i j ms).inFlight i j = ms := by
  simp [setInFlight]

@[simp] theorem rank_setLp_self : (s.setLp i lp).rank i = { s.rank i with lp := lp } :=
  rank_setRank_self _ _ _

@[simp] theorem inFlight_setLp : (s.setLp i lp).inFlight = s.inFlight :=
  rfl

@[simp] theorem rank_push (m : NullMessage) : (s.push i j m).rank = s.rank :=
  rfl

variable {s i r} {k : ι}

theorem rank_setRank_of_ne (h : k ≠ i) : (s.setRank i r).rank k = s.rank k :=
  Function.update_of_ne h _ _

theorem inFlight_setInFlight_of_ne {j ms} {l : ι} (h : ¬ (k = i ∧ l = j)) :
    (s.setInFlight i j ms).inFlight k l = s.inFlight k l := by
  by_cases hk : k = i
  · subst hk
    have hl : l ≠ j := fun h' => h ⟨rfl, h'⟩
    simp [setInFlight, hl]
  · simp [setInFlight, hk]

end

end NullMessageSystem

end Ns3Pedca
