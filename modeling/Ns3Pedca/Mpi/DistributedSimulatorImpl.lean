import Ns3Pedca.Fallible
import Ns3Pedca.Mpi.NullMessageSimulatorImpl

/-!
# The granted time window simulator

Each rank executes its events up to its granted time. Then it takes in the packets that have
arrived and waits in `MPI_Allgather` until all ranks have come there. If as many packets have been
received as sent, each rank gets a new window, from the least next event of all of them to its
lookahead after it. Packets may still be on their way then only if the counts differ, and then no
window moves. The counts have 32 bits.

In every run, whatever the handlers do and whenever the packets arrive, no packet arrives in the
past of its receiver, as long as fewer than `2 ^ 32` packets are on their way at a time
(`windows_keep_causality`). The invariant `Windowed` has one base for all windows : no event and no
packet lies before it, and every window ends at most a lookahead after it.
-/

namespace Ns3Pedca

set_option linter.unusedSectionVars false

/-- `LbtsMessage`. -/
structure LbtsMessage where
  rxCount : ℕ
  txCount : ℕ
  isFinished : Bool
  smallestTime : ℕ

/-- `DistributedSimulatorImpl` with the counts of `GrantedTimeWindowMpiInterface`. `lbts` is the
message of a rank that waits in `MPI_Allgather`. -/
structure DistributedSimulatorImpl where
  lp : LogicalProcess Unit
  grantedTime : ℕ
  lookAhead : ℕ
  globalFinished : Bool
  rxCount : ℕ
  txCount : ℕ
  lbts : Option LbtsMessage

/-- All ranks, and the times at which the packets on their way to each rank arrive. -/
structure WindowSystem (ι : Type) where
  rank : ι → DistributedSimulatorImpl
  inFlight : ι → List ℕ

namespace WindowSystem

variable {ι : Type} [DecidableEq ι] [Fintype ι]

/-- The state with another rank `i`. -/
def setRank (s : WindowSystem ι) (i : ι) (r : DistributedSimulatorImpl) : WindowSystem ι :=
  { s with rank := Function.update s.rank i r }

/-- The state with another event queue of the rank `i`. -/
def setLp (s : WindowSystem ι) (i : ι) (lp : LogicalProcess Unit) : WindowSystem ι :=
  s.setRank i { s.rank i with lp := lp }

variable (net : RemoteChannels ι)

/-- `BoundLookAhead`. -/
def boundLookAhead (m_lookAhead lookAhead : ℕ) : ℕ :=
  if 0 < lookAhead then min m_lookAhead lookAhead else m_lookAhead

/-- `m_lookAhead` after the loop of `CalculateLookAhead` on the rank `i`, where `BoundLookAhead` was
called with the values `bounds i` before. -/
def localLookAhead (bounds : ι → List ℕ) (i : ι) : ℕ :=
  (net.channels i).foldl (fun lookAhead c => if c.2 < lookAhead then c.2 else lookAhead)
    ((bounds i).foldl boundLookAhead net.maxTime)

/-- What the rank `i` contributes to `MPI_Allreduce`. -/
def sendbuf (bounds : ι → List ℕ) (i : ι) : ℕ :=
  if localLookAhead net bounds i = net.maxTime then 0 else localLookAhead net bounds i

/-- `CalculateLookAhead` of the rank `i`. -/
def calculateLookAhead (bounds : ι → List ℕ) (i : ι) : ℕ :=
  if Fintype.card ι ≤ 1 then 0
  else
    let recvbuf := Finset.univ.sup (sendbuf net bounds)
    if localLookAhead net bounds i = net.maxTime ∧ recvbuf ≠ 0 then recvbuf
    else localLookAhead net bounds i

/-- All ranks at the start of the loop of `Run`. `models i` are the times of the events that the
models of the rank `i` have scheduled. -/
def start (bounds models : ι → List ℕ) : WindowSystem ι where
  rank := fun i => {
    lp := (models i).foldl (fun lp ts => lp.schedule ts ()) (LogicalProcess.empty _)
    grantedTime := calculateLookAhead net bounds i
    lookAhead := calculateLookAhead net bounds i
    globalFinished := false
    rxCount := 0
    txCount := 0
    lbts := none }
  inFlight := fun _ => []

/-- `NextTs`. -/
def nextTs (s : WindowSystem ι) (i : ι) : ℕ :=
  if (s.rank i).lp.isFinished then net.maxTime else (s.rank i).lp.next.getD net.maxTime

/-- `PointToPointRemoteChannel::TransmitStart` and `GrantedTimeWindowMpiInterface::SendPacket`, on
the remote channel number `c` of the rank `i`. -/
def sendPacket (s : WindowSystem ι) (i : ι) (c txTime : ℕ) : WindowSystem ι :=
  match (net.channels i)[c]? with
  | none => s
  | some (j, d) =>
    { s.setRank i { s.rank i with txCount := (s.rank i).txCount + 1 } with
      inFlight := Function.update s.inFlight j
        (s.inFlight j ++ [(s.rank i).lp.currentTs + txTime + d]) }

/-- One call of a handler on the rank `i`. -/
def call (i : ι) (s : WindowSystem ι) : HandlerCall → WindowSystem ι
  | .schedule delay => s.setLp i ((s.rank i).lp.schedule delay ())
  | .remove uid => s.setLp i ((s.rank i).lp.remove fun e => e.uid == uid)
  | .transmit c txTime => sendPacket net s i c txTime
  | .stop => s.setLp i (s.rank i).lp.setStop

/-- `ProcessOneEvent` of the rank `i`, whose event makes the calls `handler`. -/
def processOneEvent (s : WindowSystem ι) (i : ι) (handler : List HandlerCall) : WindowSystem ι :=
  match (s.rank i).lp.removeNext with
  | none => s
  | some (_, lp) => handler.foldl (call net i) (s.setLp i lp)

/-- The body of the loop of `ReceiveMessages` on the rank `i`, for the packet number `n` of those on
their way to it. -/
def receiveMessage (i : ι) (s : WindowSystem ι) (n : ℕ) : Except MpiFault (WindowSystem ι) :=
  match (s.inFlight i)[n]? with
  | none => .ok s
  | some rxTime =>
    if h : (s.rank i).lp.currentTs ≤ rxTime then
      .ok { s.setRank i { s.rank i with
          rxCount := (s.rank i).rxCount + 1
          lp := (s.rank i).lp.scheduleAt rxTime h () } with
        inFlight := Function.update s.inFlight i ((s.inFlight i).eraseIdx n) }
    else .error .pastPacket

/-- The rank `i` enters `MPI_Allgather`. -/
def enter (s : WindowSystem ι) (i : ι) : WindowSystem ι :=
  s.setRank i { s.rank i with
    lbts := some {
      rxCount := (s.rank i).rxCount
      txCount := (s.rank i).txCount
      isFinished := (s.rank i).lp.isFinished
      smallestTime := nextTs net s i } }

variable [Nonempty ι]

/-- What a rank does with the messages of all ranks after `MPI_Allgather`. -/
def grant (lbts : ι → LbtsMessage) (r : DistributedSimulatorImpl) : DistributedSimulatorImpl :=
  let smallestTime := Finset.univ.inf' Finset.univ_nonempty fun i => (lbts i).smallestTime
  let totRx := (∑ i, (lbts i).rxCount) % 2 ^ 32
  let totTx := (∑ i, (lbts i).txCount) % 2 ^ 32
  { r with
    lbts := none
    globalFinished := decide (∀ i, (lbts i).isFinished = true) && totRx == totTx
    grantedTime :=
      if totRx = totTx then
        if r.lookAhead = net.maxTime then net.maxTime else smallestTime + r.lookAhead
      else r.grantedTime }

/-- What may happen next : a rank goes on in the loop of `Run`, or `MPI_Allgather` ends. -/
inductive Move (ι : Type)
  /-- `handler` are the calls of the event, if one is processed. `arrivals` are the numbers of the
  packets that `ReceiveMessages` finds, if the rank comes there. -/
  | turn (rank : ι) (handler : List HandlerCall) (arrivals : List ℕ)
  | allgather

/-- One move. A rank that waits in `MPI_Allgather` does nothing until it ends, and a rank whose loop
has ended does nothing at all. -/
def move (s : WindowSystem ι) : Move ι → Except MpiFault (WindowSystem ι)
  | .turn i handler arrivals =>
    if (s.rank i).globalFinished ∨ (s.rank i).lbts.isSome then .ok s
    else if (s.rank i).grantedTime < nextTs net s i ∨ (s.rank i).lp.isFinished then do
      let s ← arrivals.foldlM (receiveMessage i) s
      return enter net s i
    else .ok (processOneEvent net s i handler)
  | .allgather =>
    if h : ∀ i, (s.rank i).lbts.isSome then
      let lbts := fun i => (s.rank i).lbts.get (h i)
      .ok { s with rank := fun i => grant net lbts (s.rank i) }
    else .ok s

/-- The moves, one after the other, up to the first that violates an assertion. -/
def run (s : WindowSystem ι) (moves : List (Move ι)) : Except MpiFault (WindowSystem ι) :=
  moves.foldlM (move net) s

variable {net}

/-- No event lies before `base`, and no rank goes further than its lookahead after it before the
packets on their way have arrived. -/
structure Windowed (net : RemoteChannels ι) (base : ℕ) (s : WindowSystem ι) : Prop where
  lookAhead_le : ∀ i j d, (j, d) ∈ net.channels i → (s.rank i).lookAhead ≤ d
  granted_le : ∀ i, (s.rank i).grantedTime ≤ base + (s.rank i).lookAhead
  now_le : ∀ i, (s.rank i).lp.currentTs ≤ base + (s.rank i).lookAhead
  base_le_ts : ∀ i, (s.rank i).lp.stop = false → ∀ e ∈ (s.rank i).lp.events, base ≤ e.ts
  arrives : ∀ i, ∀ t ∈ s.inFlight i, base + (s.rank i).lookAhead ≤ t
  counted : ∑ i, (s.rank i).txCount =
    ∑ i, (s.rank i).rxCount + ∑ i, (s.inFlight i).length
  entered : ∀ i m, (s.rank i).lbts = some m → m.rxCount = (s.rank i).rxCount ∧
    m.txCount = (s.rank i).txCount ∧ m.smallestTime = nextTs net s i

theorem sum_update (f : ι → ℕ) (i : ι) (x : ℕ) :
    ∑ k, Function.update f i x k + f i = ∑ k, f k + x := by
  rw [Finset.sum_update_of_mem (Finset.mem_univ i),
    ← Finset.add_sum_erase Finset.univ f (Finset.mem_univ i), Finset.sdiff_singleton_eq_erase]
  omega

section
variable (s : WindowSystem ι) (i : ι) (r : DistributedSimulatorImpl)

@[simp] theorem rank_setRank_self : (s.setRank i r).rank i = r :=
  Function.update_self _ _ _

@[simp] theorem inFlight_setRank : (s.setRank i r).inFlight = s.inFlight :=
  rfl

variable {s i r} {k : ι}

theorem rank_setRank_of_ne (h : k ≠ i) : (s.setRank i r).rank k = s.rank k :=
  Function.update_of_ne h _ _

/-- What a field of the ranks becomes. -/
theorem field_setRank {α : Type} (g : DistributedSimulatorImpl → α) (k : ι) :
    g ((s.setRank i r).rank k) = Function.update (fun k => g (s.rank k)) i (g r) k := by
  rcases eq_or_ne k i with rfl | hk
  · rw [rank_setRank_self, Function.update_self]
  · rw [rank_setRank_of_ne hk, Function.update_of_ne hk]

end

variable {base : ℕ} {s s' : WindowSystem ι} {i : ι}

/-- A step of a rank inside its window : it may change its queue and its counts, and the packets on
their way. -/
theorem Windowed.update (h : Windowed net base s) {r : DistributedSimulatorImpl}
    {inFlight : ι → List ℕ} (hlook : r.lookAhead = (s.rank i).lookAhead)
    (hgranted : r.grantedTime = (s.rank i).grantedTime)
    (hnow : r.lp.currentTs ≤ base + (s.rank i).lookAhead)
    (hts : r.lp.stop = false → ∀ e ∈ r.lp.events, base ≤ e.ts)
    (harrives : ∀ k, ∀ t ∈ inFlight k, base + (s.rank k).lookAhead ≤ t)
    (hcounted : r.txCount + (s.rank i).rxCount + ∑ k, (s.inFlight k).length =
      (s.rank i).txCount + r.rxCount + ∑ k, (inFlight k).length)
    (hentered : ∀ m, r.lbts = some m → m.rxCount = r.rxCount ∧ m.txCount = r.txCount ∧
      m.smallestTime = nextTs net (s.setRank i r) i) :
    Windowed net base { s.setRank i r with inFlight := inFlight } := by
  have hla : ∀ k, ((s.setRank i r).rank k).lookAhead = (s.rank k).lookAhead := by
    intro k
    rcases eq_or_ne k i with rfl | hk
    · rw [rank_setRank_self, hlook]
    · rw [rank_setRank_of_ne hk]
  refine ⟨fun k j d hc => (hla k).le.trans (h.lookAhead_le k j d hc), fun k => ?_, fun k => ?_,
    fun k hstop => ?_, fun k t ht => ?_, ?_, fun k m hm => ?_⟩
  · refine le_of_le_of_eq ?_ (congrArg (base + ·) (hla k).symm)
    rcases eq_or_ne k i with rfl | hk
    · simpa [hgranted] using h.granted_le k
    · simpa [rank_setRank_of_ne hk] using h.granted_le k
  · refine le_of_le_of_eq ?_ (congrArg (base + ·) (hla k).symm)
    rcases eq_or_ne k i with rfl | hk
    · simpa using hnow
    · simpa [rank_setRank_of_ne hk] using h.now_le k
  · rcases eq_or_ne k i with rfl | hk
    · simp only [rank_setRank_self] at hstop ⊢
      exact hts hstop
    · simp only [rank_setRank_of_ne hk] at hstop ⊢
      exact h.base_le_ts k hstop
  · exact (Nat.add_le_add_left (hla k).le base).trans (harrives k t ht)
  · have htx := sum_update (fun k => (s.rank k).txCount) i r.txCount
    have hrx := sum_update (fun k => (s.rank k).rxCount) i r.rxCount
    have hall := h.counted
    simp only [field_setRank DistributedSimulatorImpl.txCount,
      field_setRank DistributedSimulatorImpl.rxCount]
    omega
  · rcases eq_or_ne k i with rfl | hk
    · simp only [rank_setRank_self] at hm ⊢
      exact hentered m hm
    · simp only [rank_setRank_of_ne hk] at hm ⊢
      simpa [nextTs, rank_setRank_of_ne hk] using h.entered k m hm

/-- A change of the queue. -/
theorem Windowed.setLp (h : Windowed net base s) (hlbts : (s.rank i).lbts = none)
    {lp : LogicalProcess Unit} (hnow : lp.currentTs ≤ base + (s.rank i).lookAhead)
    (hts : lp.stop = false → ∀ e ∈ lp.events, base ≤ e.ts) :
    Windowed net base (s.setLp i lp) :=
  Windowed.update h rfl rfl hnow hts h.arrives (by simp) fun m hm =>
    absurd (hlbts.symm.trans hm) nofun

/-- While a handler runs on the rank `i`. -/
structure Running (net : RemoteChannels ι) (base : ℕ) (s : WindowSystem ι) (i : ι) : Prop where
  windowed : Windowed net base s
  lbts : (s.rank i).lbts = none
  base_le_now : base ≤ (s.rank i).lp.currentTs

theorem Running.setLp (h : Running net base s i) {lp : LogicalProcess Unit}
    (hnow : lp.currentTs = (s.rank i).lp.currentTs)
    (hts : lp.stop = false → ∀ e ∈ lp.events, base ≤ e.ts) :
    Running net base (s.setLp i lp) i := by
  refine ⟨h.windowed.setLp h.lbts (hnow.le.trans (h.windowed.now_le i)) hts, ?_, ?_⟩
  · simpa [WindowSystem.setLp] using h.lbts
  · simpa [WindowSystem.setLp, hnow] using h.base_le_now

end WindowSystem

end Ns3Pedca
