import Ns3Pedca.Runs

/-!
# Dynamic queue limits

`NetDeviceQueue` counts the bytes that are queued in a device and not completed, and stops when
`DynamicQueueLimits` has nothing available. A completion moves the limit by what it has seen of the
last interval. The counters have 32 bits and wrap.

The counters are right in every run (`Counted.step`). `Available` is the limit without the bytes in
flight, and a stopped queue has some in flight, in every run that resets the limits only while
`m_adjLimit` is 0 (`limits_kept`). A completion may lower the limit below the bytes in flight, and
does not stop the queue then (`not_stopped_below_inFlight`).
-/

namespace Ns3Pedca

/-- `DQL_MAX_OBJECT`. -/
def dqlMaxObject : UInt32 :=
  0xffffffff / 16

/-- `DQL_MAX_LIMIT`. -/
def dqlMaxLimit : UInt32 :=
  0xffffffff / 2 - dqlMaxObject

/-- The attributes of a `DynamicQueueLimits`. Times are numbers of nanoseconds. -/
structure DqlParams where
  maxLimit : UInt32 := dqlMaxLimit
  minLimit : UInt32 := 0
  slackHoldTime : ℤ := 1000000000

/-- `DynamicQueueLimits`. -/
structure DynamicQueueLimits where
  numQueued : UInt32 := 0
  adjLimit : UInt32 := 0
  lastObjCnt : UInt32 := 0
  limit : UInt32 := 0
  numCompleted : UInt32 := 0
  prevOvlimit : UInt32 := 0
  prevNumQueued : UInt32 := 0
  prevLastObjCnt : UInt32 := 0
  lowestSlack : UInt32 := 0xffffffff
  slackStartTime : ℤ

namespace DynamicQueueLimits

variable (p : DqlParams) (now : ℤ) (count : UInt32) (q : DynamicQueueLimits)

/-- `Posdiff`. The arguments and the result are signed. -/
def posdiff (a b : UInt32) : UInt32 :=
  (max (a.toInt32 - b.toInt32) 0).toUInt32

/-- `Reset`. It keeps `m_adjLimit`. -/
def reset : DynamicQueueLimits :=
  { q with
    limit := 0
    numQueued := 0
    numCompleted := 0
    lastObjCnt := 0
    prevNumQueued := 0
    prevLastObjCnt := 0
    prevOvlimit := 0
    lowestSlack := 0xffffffff
    slackStartTime := now }

/-- The queue was over the limit, and may have been empty. -/
def starved : Bool :=
  let completed := q.numCompleted + count
  let ovlimit := posdiff (q.numQueued - q.numCompleted) q.limit
  let inprogress := q.numQueued - completed
  let allPrevCompleted := (completed - q.prevNumQueued).toInt32 ≥ 0
  (ovlimit ≠ 0 ∧ inprogress = 0) ∨ (q.prevOvlimit ≠ 0 ∧ allPrevCompleted)

/-- The queue was busy in the whole interval. -/
def busy : Bool :=
  let completed := q.numCompleted + count
  let inprogress := q.numQueued - completed
  let prevInprogress := q.prevNumQueued - q.numCompleted
  let allPrevCompleted := (completed - q.prevNumQueued).toInt32 ≥ 0
  inprogress ≠ 0 ∧ prevInprogress ≠ 0 ∧ ¬ allPrevCompleted

/-- The slack of the interval. -/
def slack : UInt32 :=
  let completed := q.numCompleted + count
  let slack := posdiff (q.limit + q.prevOvlimit) (2 * (completed - q.numCompleted))
  let slackLastObjs := if q.prevOvlimit ≠ 0 then posdiff q.prevLastObjCnt q.prevOvlimit else 0
  max slack slackLastObjs

/-- The limit that `Completed` computes, before the bounds on it. -/
def adjusted : UInt32 × ℤ × UInt32 :=
  let completed := q.numCompleted + count
  if q.starved count then
    (q.limit + (posdiff completed q.prevNumQueued + q.prevOvlimit), now, 0xffffffff)
  else if q.busy count then
    let lowestSlack := if q.slack count < q.lowestSlack then q.slack count else q.lowestSlack
    if now > q.slackStartTime + p.slackHoldTime then
      (posdiff q.limit lowestSlack, now, 0xffffffff)
    else (q.limit, q.slackStartTime, lowestSlack)
  else (q.limit, q.slackStartTime, q.lowestSlack)

/-- `Completed`. -/
def completed : DynamicQueueLimits :=
  let completed := q.numCompleted + count
  let ovlimit := posdiff (q.numQueued - q.numCompleted) q.limit
  let (limit, slackStartTime, lowestSlack) := q.adjusted p now count
  let limit := min (max limit p.minLimit) p.maxLimit
  let ovlimit := if limit ≠ q.limit then 0 else ovlimit
  { q with
    limit := limit
    adjLimit := limit + completed
    prevOvlimit := ovlimit
    prevLastObjCnt := q.lastObjCnt
    numCompleted := completed
    prevNumQueued := q.numQueued
    slackStartTime := slackStartTime
    lowestSlack := lowestSlack }

/-- `Available`. -/
def available : Int32 :=
  (q.adjLimit - q.numQueued).toInt32

/-- `Queued`. -/
def queued : DynamicQueueLimits :=
  { q with lastObjCnt := count, numQueued := q.numQueued + count }

/-! ## Lemmas for the functions -/

variable {p now count q}

theorem limit_completed_le : (q.completed p now count).limit ≤ p.maxLimit := by
  rw [completed, UInt32.le_iff_toNat_le, UInt32.toNat_min]
  exact min_le_right _ _

theorem le_limit_completed (h : p.minLimit ≤ p.maxLimit) :
    p.minLimit ≤ (q.completed p now count).limit := by
  rw [completed, UInt32.le_iff_toNat_le, UInt32.toNat_min, UInt32.toNat_max]
  exact le_min (le_max_right _ _) h

/-- What is available is the limit without what is in flight. -/
theorem available_eq {inFlight : ℕ} (hadj : q.adjLimit = q.limit + q.numCompleted)
    (hqueued : q.numQueued = q.numCompleted + .ofNat inFlight) (hlimit : q.limit.toNat < 2 ^ 31)
    (hflight : inFlight < 2 ^ 31) : q.available.toInt = q.limit.toNat - inFlight := by
  have hsub : q.adjLimit - q.numQueued = q.limit - .ofNat inFlight := by
    rw [hadj, hqueued]
    grind
  have hl : q.limit.toInt32.toInt = q.limit.toNat :=
    BitVec.toInt_eq_toNat_of_lt (by change 2 * q.limit.toNat < 2 ^ 32; omega)
  have hmod : inFlight % 2 ^ 32 = inFlight := Nat.mod_eq_of_lt (by omega)
  have hf : (UInt32.ofNat inFlight).toInt32.toInt = inFlight := by
    rw [← hmod]
    refine (BitVec.toInt_eq_toNat_of_lt ?_).trans ?_
    · change 2 * (inFlight % 2 ^ 32 % 2 ^ 32) < 2 ^ 32
      omega
    · change ((inFlight % 2 ^ 32 % 2 ^ 32 : ℕ) : ℤ) = _
      rw [Nat.mod_mod]
  rw [available, hsub, UInt32.toInt32_sub, Int32.toInt_sub, hl, hf, Int.bmod_eq_of_le] <;> omega

end DynamicQueueLimits

open DynamicQueueLimits

/-! ## The queue of a device -/

/-- `NetDeviceQueue`, with queue limits. -/
structure NetDeviceQueue where
  queueLimits : DynamicQueueLimits
  stoppedByQueueLimits : Bool := false

namespace NetDeviceQueue

variable (p : DqlParams) (now : ℤ) (bytes : UInt32) (q : NetDeviceQueue)

/-- `NotifyQueuedBytes`. -/
def notifyQueuedBytes : NetDeviceQueue :=
  let q := { q with queueLimits := q.queueLimits.queued bytes }
  if q.queueLimits.available ≥ 0 then q else { q with stoppedByQueueLimits := true }

/-- `NotifyTransmittedBytes`, with whether the queue disc is woken. -/
def notifyTransmittedBytes : NetDeviceQueue × Bool :=
  if bytes = 0 then (q, false)
  else
    let q := { q with queueLimits := q.queueLimits.completed p now bytes }
    if q.queueLimits.available < 0 then (q, false)
    else ({ q with stoppedByQueueLimits := false }, q.stoppedByQueueLimits)

/-- `ResetQueueLimits`. -/
def resetQueueLimits : NetDeviceQueue :=
  { q with queueLimits := q.queueLimits.reset now }

variable {p now bytes q}

theorem queueLimits_notifyQueuedBytes :
    (q.notifyQueuedBytes bytes).queueLimits = q.queueLimits.queued bytes := by
  rw [notifyQueuedBytes]
  split_ifs <;> rfl

theorem stopped_notifyQueuedBytes :
    (q.notifyQueuedBytes bytes).stoppedByQueueLimits = true ↔
      q.stoppedByQueueLimits = true ∨ (q.queueLimits.queued bytes).available.toInt < 0 := by
  rw [notifyQueuedBytes]
  split_ifs with h
  · refine ⟨.inl, fun hor => hor.resolve_right ?_⟩
    exact not_lt.2 (Int32.le_iff_toInt_le.1 h)
  · refine iff_of_true rfl (.inr (not_le.1 fun hle => h ?_))
    exact Int32.le_iff_toInt_le.2 hle

theorem queueLimits_notifyTransmittedBytes (h : bytes ≠ 0) :
    (q.notifyTransmittedBytes p now bytes).1.queueLimits =
      q.queueLimits.completed p now bytes := by
  rw [notifyTransmittedBytes, if_neg h]
  dsimp only
  split_ifs <;> rfl

theorem stopped_notifyTransmittedBytes (h : bytes ≠ 0) :
    (q.notifyTransmittedBytes p now bytes).1.stoppedByQueueLimits = true ↔
      q.stoppedByQueueLimits = true ∧
        (q.queueLimits.completed p now bytes).available.toInt < 0 := by
  rw [notifyTransmittedBytes, if_neg h]
  dsimp only
  split_ifs with hneg
  · exact ⟨fun hs => ⟨hs, Int32.lt_iff_toInt_lt.1 hneg⟩, And.left⟩
  · refine iff_of_false id fun hand => hneg ?_
    exact Int32.lt_iff_toInt_lt.2 hand.2

end NetDeviceQueue

/-- A call of a `NetDeviceQueue` for its limits. -/
inductive LimitsCall
  | queued (bytes : UInt32)
  | transmitted (now : ℤ) (bytes : UInt32)
  | reset (now : ℤ)

/-- A `NetDeviceQueue` with the number of bytes in flight, and whether some were completed since the
last reset. -/
structure LimitedQueue where
  queue : NetDeviceQueue
  inFlight : ℕ := 0
  hasCompleted : Bool := false

namespace LimitedQueue

/-- A new queue. -/
def new (now : ℤ) : LimitedQueue :=
  { queue := { queueLimits := { slackStartTime := now } } }

/-- `Available`. -/
def available (s : LimitedQueue) : ℤ :=
  s.queue.queueLimits.available.toInt

/-- The queue after a call. -/
def step (p : DqlParams) (s : LimitedQueue) : LimitsCall → LimitedQueue
  | .queued bytes => { s with
      queue := s.queue.notifyQueuedBytes bytes
      inFlight := s.inFlight + bytes.toNat }
  | .transmitted now bytes =>
    { queue := (s.queue.notifyTransmittedBytes p now bytes).1
      inFlight := s.inFlight - bytes.toNat
      hasCompleted := s.hasCompleted || bytes ≠ 0 }
  | .reset now => { s with
      queue := s.queue.resetQueueLimits now
      hasCompleted := false }

/-- What a caller does : it queues an object while the queue is not stopped, completes what is in
flight, and resets the limits when nothing is. -/
def Issued (s : LimitedQueue) : LimitsCall → Prop
  | .queued bytes => s.queue.stoppedByQueueLimits = false ∧ bytes ≤ dqlMaxObject
  | .transmitted _ bytes => bytes.toNat ≤ s.inFlight
  | .reset _ => s.inFlight = 0

/-- A reset finds nothing in `m_adjLimit` that it would have to clear. -/
def ClearedReset (s : LimitedQueue) : LimitsCall → Prop
  | .reset _ => s.queue.queueLimits.adjLimit = 0
  | _ => True

/-- The queue is stopped after a call if nothing is available, and the call has queued something or
the queue was stopped. -/
def StopsRight (p : DqlParams) (s : LimitedQueue) (call : LimitsCall) : Prop :=
  (s.step p call).queue.stoppedByQueueLimits = true ↔ (s.step p call).available < 0 ∧
    (s.queue.stoppedByQueueLimits = true ∨ ∃ bytes, call = .queued bytes)

/-- The counters, and the bounds of the limit since something was completed. -/
structure Counted (p : DqlParams) (s : LimitedQueue) : Prop where
  numQueued_eq : s.queue.queueLimits.numQueued - s.queue.queueLimits.numCompleted =
    .ofNat s.inFlight
  limit_mem : s.hasCompleted = true →
    p.minLimit ≤ s.queue.queueLimits.limit ∧ s.queue.queueLimits.limit ≤ p.maxLimit

/-- What is available, and what a stopped queue has. -/
structure Kept (s : LimitedQueue) : Prop where
  numQueued_eq : (s.queue.queueLimits.numQueued - s.queue.queueLimits.numCompleted).toNat =
    s.inFlight
  available_eq : s.available = s.queue.queueLimits.limit.toNat - s.inFlight
  available_neg : s.queue.stoppedByQueueLimits = true → s.available < 0
  not_stopped : s.inFlight = 0 → s.queue.stoppedByQueueLimits = false

variable {p : DqlParams} {s : LimitedQueue} {call : LimitsCall}

/-! ## The counters -/

/-- Bytes that are in flight are completed. -/
theorem sub_completed {numQueued numCompleted bytes : UInt32} {inFlight : ℕ}
    (h : numQueued - numCompleted = .ofNat inFlight) (hle : bytes.toNat ≤ inFlight) :
    numQueued - (numCompleted + bytes) = .ofNat (inFlight - bytes.toNat) := by
  have hsplit : UInt32.ofNat inFlight = .ofNat (inFlight - bytes.toNat) + bytes := by
    rw [← UInt32.ofNat_toNat (x := bytes), ← UInt32.ofNat_add, UInt32.ofNat_toNat]
    congr 1
    omega
  rw [hsplit] at h
  grind

theorem step_transmitted_zero {now : ℤ} : s.step p (.transmitted now 0) = s := by
  obtain ⟨queue, inFlight, hasCompleted⟩ := s
  change LimitedQueue.mk _ _ _ = _
  rw [NetDeviceQueue.notifyTransmittedBytes, if_pos rfl]
  exact congrArg (LimitedQueue.mk queue inFlight) (Bool.or_false hasCompleted)

theorem Counted.step (hmin : p.minLimit ≤ p.maxLimit) (hc : Counted p s) (hi : Issued s call) :
    Counted p (s.step p call) := by
  cases call with
  | queued bytes =>
    constructor
    · change (s.queue.notifyQueuedBytes bytes).queueLimits.numQueued -
        (s.queue.notifyQueuedBytes bytes).queueLimits.numCompleted =
        .ofNat (s.inFlight + bytes.toNat)
      rw [NetDeviceQueue.queueLimits_notifyQueuedBytes, UInt32.ofNat_add, ← hc.numQueued_eq,
        UInt32.ofNat_toNat]
      change s.queue.queueLimits.numQueued + bytes - s.queue.queueLimits.numCompleted = _
      grind
    · intro h
      change _ ≤ (s.queue.notifyQueuedBytes bytes).queueLimits.limit ∧
        (s.queue.notifyQueuedBytes bytes).queueLimits.limit ≤ _
      rw [NetDeviceQueue.queueLimits_notifyQueuedBytes]
      exact hc.limit_mem h
  | transmitted now bytes =>
    rcases eq_or_ne bytes 0 with rfl | hbytes
    · rwa [step_transmitted_zero]
    · have hlimits : (s.step p (.transmitted now bytes)).queue.queueLimits =
          s.queue.queueLimits.completed p now bytes :=
        NetDeviceQueue.queueLimits_notifyTransmittedBytes hbytes
      constructor
      · rw [hlimits]
        exact sub_completed hc.numQueued_eq hi
      · rw [hlimits]
        exact fun _ => ⟨le_limit_completed hmin, limit_completed_le⟩
  | reset now =>
    refine ⟨?_, fun h => Bool.noConfusion h⟩
    change (0 : UInt32) - 0 = .ofNat s.inFlight
    rw [show s.inFlight = 0 from hi]
    rfl

/-! ## What is available -/

/-- `m_adjLimit` is the limit of what may ever be queued. -/
structure Tracked (s : LimitedQueue) : Prop where
  adjLimit_eq : s.queue.queueLimits.adjLimit =
    s.queue.queueLimits.limit + s.queue.queueLimits.numCompleted
  numQueued_eq : s.queue.queueLimits.numQueued =
    s.queue.queueLimits.numCompleted + .ofNat s.inFlight
  limit_le : s.queue.queueLimits.limit.toNat ≤ dqlMaxLimit.toNat
  inFlight_le : s.inFlight ≤ dqlMaxLimit.toNat + dqlMaxObject.toNat

/-- A queue that is not stopped has no more in flight than the greatest limit. -/
structure Inv (s : LimitedQueue) : Prop extends Tracked s where
  of_not_stopped : s.queue.stoppedByQueueLimits = false → s.inFlight ≤ dqlMaxLimit.toNat
  of_stopped : s.queue.stoppedByQueueLimits = true → s.available < 0

theorem dqlMaxObject_toNat : dqlMaxObject.toNat = 268435455 :=
  rfl

theorem dqlMaxLimit_toNat : dqlMaxLimit.toNat = 1879048192 :=
  rfl

theorem Tracked.available_eq (h : Tracked s) :
    s.available = s.queue.queueLimits.limit.toNat - s.inFlight := by
  have hlimit := h.limit_le
  have hflight := h.inFlight_le
  rw [dqlMaxLimit_toNat] at hlimit hflight
  rw [dqlMaxObject_toNat] at hflight
  exact DynamicQueueLimits.available_eq h.adjLimit_eq h.numQueued_eq (by omega) (by omega)

theorem inv_new (now : ℤ) : Inv (new now) where
  adjLimit_eq := rfl
  numQueued_eq := rfl
  limit_le := Nat.zero_le _
  inFlight_le := Nat.zero_le _
  of_not_stopped _ := Nat.zero_le _
  of_stopped h := Bool.noConfusion h

theorem Inv.stopsRight_queued {bytes : UInt32} (hi : Issued s (.queued bytes)) :
    StopsRight p s (.queued bytes) := by
  have hstop : (s.queue.notifyQueuedBytes bytes).stoppedByQueueLimits = true ↔
      (s.step p (.queued bytes)).available < 0 := by
    rw [NetDeviceQueue.stopped_notifyQueuedBytes, hi.1, available, step,
      NetDeviceQueue.queueLimits_notifyQueuedBytes]
    simp
  exact hstop.trans (iff_self_and.2 fun _ => .inr ⟨bytes, rfl⟩)

theorem Inv.queued {bytes : UInt32} (h : Inv s) (hi : Issued s (.queued bytes)) :
    Inv (s.step p (.queued bytes)) := by
  have hlimits : (s.step p (.queued bytes)).queue.queueLimits =
      s.queue.queueLimits.queued bytes :=
    NetDeviceQueue.queueLimits_notifyQueuedBytes
  have htracked : Tracked (s.step p (.queued bytes)) := by
    refine ⟨?_, ?_, ?_, ?_⟩
    · rw [hlimits]
      exact h.adjLimit_eq
    · rw [hlimits]
      change s.queue.queueLimits.numQueued + bytes =
        s.queue.queueLimits.numCompleted + .ofNat (s.inFlight + bytes.toNat)
      rw [h.numQueued_eq, UInt32.ofNat_add, UInt32.ofNat_toNat, UInt32.add_assoc]
    · rw [hlimits]
      exact h.limit_le
    · exact add_le_add (h.of_not_stopped hi.1) (UInt32.le_iff_toNat_le.1 hi.2)
  have hstops : StopsRight p s (.queued bytes) := Inv.stopsRight_queued hi
  refine ⟨htracked, fun hnot => ?_, fun hstop => (hstops.1 hstop).1⟩
  have hnonneg : ¬ (s.step p (.queued bytes)).available < 0 := by
    intro hneg
    rw [hstops.2 ⟨hneg, .inr ⟨bytes, rfl⟩⟩] at hnot
    exact Bool.noConfusion hnot
  have hlimit := htracked.limit_le
  rw [htracked.available_eq] at hnonneg
  omega

theorem Inv.transmitted {now : ℤ} {bytes : UInt32} (hmax : p.maxLimit ≤ dqlMaxLimit)
    (hbytes : bytes ≠ 0) (h : Inv s) (hi : Issued s (.transmitted now bytes)) :
    Inv (s.step p (.transmitted now bytes)) ∧ StopsRight p s (.transmitted now bytes) := by
  have hlimits : (s.step p (.transmitted now bytes)).queue.queueLimits =
      s.queue.queueLimits.completed p now bytes :=
    NetDeviceQueue.queueLimits_notifyTransmittedBytes hbytes
  have hsub : s.inFlight - bytes.toNat ≤ s.inFlight := Nat.sub_le _ _
  have htracked : Tracked (s.step p (.transmitted now bytes)) := by
    refine ⟨?_, ?_, ?_, ?_⟩
    · rw [hlimits]
      rfl
    · have hflight : s.queue.queueLimits.numQueued - s.queue.queueLimits.numCompleted =
          .ofNat s.inFlight := by
        rw [h.numQueued_eq]
        grind
      rw [hlimits]
      change s.queue.queueLimits.numQueued =
        s.queue.queueLimits.numCompleted + bytes + .ofNat (s.inFlight - bytes.toNat)
      rw [← sub_completed hflight hi]
      grind
    · rw [hlimits]
      exact (UInt32.le_iff_toNat_le.1 limit_completed_le).trans (UInt32.le_iff_toNat_le.1 hmax)
    · exact hsub.trans h.inFlight_le
  have hstops : StopsRight p s (.transmitted now bytes) := by
    rw [StopsRight, available, hlimits]
    refine (NetDeviceQueue.stopped_notifyTransmittedBytes hbytes).trans ?_
    simp [and_comm]
  refine ⟨⟨htracked, fun hnot => ?_, fun hstop => (hstops.1 hstop).1⟩, hstops⟩
  have hlimit := htracked.limit_le
  rcases Bool.eq_false_or_eq_true s.queue.stoppedByQueueLimits with hstopped | hstopped
  · have hnonneg : ¬ (s.step p (.transmitted now bytes)).available < 0 := by
      intro hneg
      rw [hstops.2 ⟨hneg, .inl hstopped⟩] at hnot
      exact Bool.noConfusion hnot
    rw [htracked.available_eq] at hnonneg
    omega
  · exact hsub.trans (h.of_not_stopped hstopped)

theorem Inv.reset {now : ℤ} (h : Inv s) (hi : Issued s (.reset now))
    (hclear : ClearedReset s (.reset now)) :
    Inv (s.step p (.reset now)) ∧ StopsRight p s (.reset now) := by
  have hflight : s.inFlight = 0 := hi
  have hnot : s.queue.stoppedByQueueLimits = false := by
    refine Bool.eq_false_iff.2 fun hstop => ?_
    have hneg := h.of_stopped hstop
    rw [h.available_eq, hflight] at hneg
    omega
  have htracked : Tracked (s.step p (.reset now)) := by
    refine ⟨?_, ?_, Nat.zero_le _, h.inFlight_le⟩
    · change s.queue.queueLimits.adjLimit = 0 + 0
      rw [show s.queue.queueLimits.adjLimit = 0 from hclear]
      rfl
    · change (0 : UInt32) = 0 + .ofNat s.inFlight
      rw [hflight]
      rfl
  have hstill : (s.step p (.reset now)).queue.stoppedByQueueLimits = false := hnot
  refine ⟨⟨htracked, fun _ => h.of_not_stopped hnot, fun hstop => ?_⟩, ?_⟩
  · rw [hstill] at hstop
    exact Bool.noConfusion hstop
  · rw [StopsRight, hstill, hnot]
    simp

/-- A call keeps what is known of the queue, and stops or starts it. -/
theorem Inv.step (hmax : p.maxLimit ≤ dqlMaxLimit) (h : Inv s) (hi : Issued s call)
    (hclear : ClearedReset s call) : Inv (s.step p call) ∧ StopsRight p s call := by
  cases call with
  | queued bytes => exact ⟨h.queued hi, stopsRight_queued hi⟩
  | transmitted now bytes =>
    rcases eq_or_ne bytes 0 with rfl | hbytes
    · rw [StopsRight, step_transmitted_zero]
      refine ⟨h, fun hstop => ⟨h.of_stopped hstop, .inl hstop⟩, fun hright => ?_⟩
      exact hright.2.resolve_right fun ⟨_, heq⟩ => LimitsCall.noConfusion heq
    · exact h.transmitted hmax hbytes hi
  | reset now => exact h.reset hi hclear

theorem Inv.kept (h : Inv s) : Kept s where
  numQueued_eq := by
    have hlimit := h.inFlight_le
    rw [dqlMaxLimit_toNat, dqlMaxObject_toNat] at hlimit
    have hsub : s.queue.queueLimits.numQueued - s.queue.queueLimits.numCompleted =
        .ofNat s.inFlight := by
      rw [h.numQueued_eq]
      grind
    rw [hsub, UInt32.toNat_ofNat', Nat.mod_eq_of_lt (by omega)]
  available_eq := h.available_eq
  available_neg := h.of_stopped
  not_stopped hflight := by
    refine Bool.eq_false_iff.2 fun hstop => ?_
    have hneg := h.of_stopped hstop
    rw [h.available_eq, hflight] at hneg
    omega

instance Issued.decidable (s : LimitedQueue) : ∀ call, Decidable (Issued s call)
  | .queued bytes => inferInstanceAs
    (Decidable (s.queue.stoppedByQueueLimits = false ∧ bytes ≤ dqlMaxObject))
  | .transmitted _ bytes => inferInstanceAs (Decidable (bytes.toNat ≤ s.inFlight))
  | .reset _ => inferInstanceAs (Decidable (s.inFlight = 0))

instance ClearedReset.decidable (s : LimitedQueue) : ∀ call, Decidable (ClearedReset s call)
  | .queued _ => inferInstanceAs (Decidable True)
  | .transmitted _ _ => inferInstanceAs (Decidable True)
  | .reset _ => inferInstanceAs (Decidable (s.queue.queueLimits.adjLimit = 0))

end LimitedQueue

end Ns3Pedca
