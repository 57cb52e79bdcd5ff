import Mathlib

/-!
# A rank of a distributed simulation

The simulators of `src/mpi` keep, on every MPI rank, the current time, the events of the rank and
the identifier of the next event. `LogicalProcess` is this part, the same in both of them, for
events with any content. It carries what the rest relies on : the events are in the order of
`EventKey`, none of them lies in the past, and their identifiers are distinct and below the next
one. So the assertion of `ProcessOneEvent` that time does not go back holds in every state that can
be built.

Times and identifiers are natural numbers.
-/

namespace Ns3Pedca

/-- `Scheduler::Event`, with the flag `m_cancel` of its `EventImpl`. -/
structure LpEvent (κ : Type) where
  ts : ℕ
  uid : ℕ
  impl : κ
  cancelled : Bool := false
  deriving DecidableEq

namespace LpEvent

variable {κ : Type}

/-- `operator<` of `EventKey`. -/
def keyLt (a b : LpEvent κ) : Prop :=
  a.ts < b.ts ∨ a.ts = b.ts ∧ a.uid < b.uid

instance (a b : LpEvent κ) : Decidable (keyLt a b) :=
  inferInstanceAs (Decidable (_ ∨ _))

/-- `Insert` of the scheduler. -/
def insert (ev : LpEvent κ) : List (LpEvent κ) → List (LpEvent κ)
  | [] => [ev]
  | e :: es => if keyLt ev e then ev :: e :: es else e :: insert ev es

theorem insert_perm (ev : LpEvent κ) (es : List (LpEvent κ)) :
    (insert ev es).Perm (ev :: es) := by
  induction es with
  | nil => exact List.Perm.refl _
  | cons e es ih =>
    rw [insert]
    split_ifs
    · exact List.Perm.refl _
    · exact (ih.cons e).trans (List.Perm.swap ev e es)

theorem mem_insert {ev e : LpEvent κ} {es : List (LpEvent κ)} :
    e ∈ insert ev es ↔ e = ev ∨ e ∈ es := by
  rw [(insert_perm ev es).mem_iff, List.mem_cons]

/-- The events by their times. -/
def Sorted (es : List (LpEvent κ)) : Prop :=
  es.Pairwise fun a b => a.ts ≤ b.ts

theorem Sorted.insert {es : List (LpEvent κ)} (h : Sorted es) (ev : LpEvent κ) :
    Sorted (insert ev es) := by
  induction es with
  | nil => exact List.pairwise_singleton _ _
  | cons e es ih =>
    obtain ⟨hhead, htail⟩ := List.pairwise_cons.1 h
    rw [LpEvent.insert]
    split_ifs with hlt
    · have hle : ev.ts ≤ e.ts := hlt.elim le_of_lt fun h' => h'.1.le
      refine List.pairwise_cons.2 ⟨fun b hb => ?_, h⟩
      rcases List.mem_cons.1 hb with rfl | hb
      · exact hle
      · exact hle.trans (hhead b hb)
    · have hle : e.ts ≤ ev.ts := not_lt.1 fun h' => hlt (.inl h')
      refine List.pairwise_cons.2 ⟨fun b hb => ?_, ih htail⟩
      rcases mem_insert.1 hb with rfl | hb
      · exact hle
      · exact hhead b hb

/-- `Cancel` of the event with the identifier `uid`. -/
def cancelIn (uid : ℕ) (e : LpEvent κ) : LpEvent κ :=
  if e.uid = uid then { e with cancelled := true } else e

@[simp] theorem cancelIn_ts (uid : ℕ) (e : LpEvent κ) : (cancelIn uid e).ts = e.ts := by
  unfold cancelIn
  split_ifs <;> rfl

@[simp] theorem cancelIn_uid (uid : ℕ) (e : LpEvent κ) : (cancelIn uid e).uid = e.uid := by
  unfold cancelIn
  split_ifs <;> rfl

@[simp] theorem cancelIn_impl (uid : ℕ) (e : LpEvent κ) : (cancelIn uid e).impl = e.impl := by
  unfold cancelIn
  split_ifs <;> rfl

theorem cancelIn_of_ne {uid : ℕ} {e : LpEvent κ} (h : e.uid ≠ uid) : cancelIn uid e = e :=
  if_neg h

end LpEvent

/-- `m_currentTs`, `m_uid`, `m_events` and `m_stop` of a rank. -/
structure LogicalProcess (κ : Type) where
  currentTs : ℕ
  uid : ℕ
  events : List (LpEvent κ)
  stop : Bool
  sorted : LpEvent.Sorted events
  future : ∀ e ∈ events, currentTs ≤ e.ts
  uid_lt : ∀ e ∈ events, e.uid < uid
  uid_nodup : (events.map LpEvent.uid).Nodup

namespace LogicalProcess

variable {κ : Type}

/-- A rank before the first event : `EventId::UID::VALID` is the first identifier. -/
def empty (κ : Type) : LogicalProcess κ where
  currentTs := 0
  uid := 4
  events := []
  stop := false
  sorted := List.Pairwise.nil
  future := fun _ h => absurd h List.not_mem_nil
  uid_lt := fun _ h => absurd h List.not_mem_nil
  uid_nodup := List.nodup_nil

instance : Inhabited (LogicalProcess κ) :=
  ⟨empty κ⟩

/-- `Schedule` and `ScheduleWithContext` at the absolute time `ts`, which their assertion asks not
to be in the past. -/
def scheduleAt (lp : LogicalProcess κ) (ts : ℕ) (h : lp.currentTs ≤ ts) (impl : κ) :
    LogicalProcess κ where
  currentTs := lp.currentTs
  uid := lp.uid + 1
  events := LpEvent.insert { ts := ts, uid := lp.uid, impl := impl } lp.events
  stop := lp.stop
  sorted := lp.sorted.insert _
  future := fun e he => by
    rcases LpEvent.mem_insert.1 he with rfl | he
    · exact h
    · exact lp.future e he
  uid_lt := fun e he => by
    rcases LpEvent.mem_insert.1 he with rfl | he
    · exact Nat.lt_succ_self _
    · exact (lp.uid_lt e he).trans (Nat.lt_succ_self _)
  uid_nodup := by
    refine ((LpEvent.insert_perm _ _).map LpEvent.uid).nodup_iff.2 (List.nodup_cons.2 ⟨?_, ?_⟩)
    · rintro hmem
      obtain ⟨e, he, heq⟩ := List.mem_map.1 hmem
      exact (lp.uid_lt e he).ne heq
    · exact lp.uid_nodup

/-- `Schedule` with the relative time `delay`. -/
def schedule (lp : LogicalProcess κ) (delay : ℕ) (impl : κ) : LogicalProcess κ :=
  lp.scheduleAt (lp.currentTs + delay) (Nat.le_add_right _ _) impl

/-- `Cancel` : the event stays in the queue. -/
def cancel (lp : LogicalProcess κ) (uid : ℕ) : LogicalProcess κ where
  currentTs := lp.currentTs
  uid := lp.uid
  events := lp.events.map (LpEvent.cancelIn uid)
  stop := lp.stop
  sorted := List.pairwise_map.2 (lp.sorted.imp fun h => by simpa using h)
  future := fun e he => by
    obtain ⟨e', he', rfl⟩ := List.mem_map.1 he
    simpa using lp.future e' he'
  uid_lt := fun e he => by
    obtain ⟨e', he', rfl⟩ := List.mem_map.1 he
    simpa using lp.uid_lt e' he'
  uid_nodup := by
    have heq : LpEvent.uid ∘ LpEvent.cancelIn uid = (LpEvent.uid : LpEvent κ → ℕ) :=
      funext fun e => LpEvent.cancelIn_uid uid e
    rw [List.map_map, heq]
    exact lp.uid_nodup

/-- `Remove` of the events that satisfy `p`. -/
def remove (lp : LogicalProcess κ) (p : LpEvent κ → Bool) : LogicalProcess κ where
  currentTs := lp.currentTs
  uid := lp.uid
  events := lp.events.filter fun e => !p e
  stop := lp.stop
  sorted := lp.sorted.filter _
  future := fun e he => lp.future e (List.mem_filter.1 he).1
  uid_lt := fun e he => lp.uid_lt e (List.mem_filter.1 he).1
  uid_nodup := lp.uid_nodup.sublist (List.filter_sublist.map _)

/-- `Stop`. -/
def setStop (lp : LogicalProcess κ) : LogicalProcess κ :=
  { lp with stop := true }

/-- The state in which `ProcessOneEvent` invokes the event `e`, the first of the queue. -/
def advance (lp : LogicalProcess κ) (e : LpEvent κ) (es : List (LpEvent κ))
    (h : lp.events = e :: es) : LogicalProcess κ where
  currentTs := e.ts
  uid := lp.uid
  events := es
  stop := lp.stop
  sorted := (List.pairwise_cons.1 (h ▸ lp.sorted)).2
  future := (List.pairwise_cons.1 (h ▸ lp.sorted)).1
  uid_lt := fun e' he' => lp.uid_lt e' (h ▸ List.mem_cons_of_mem e he')
  uid_nodup := by
    have hnodup := lp.uid_nodup
    rw [h, List.map_cons] at hnodup
    exact (List.nodup_cons.1 hnodup).2

/-- The first event of the queue, and the state in which it is invoked. -/
def removeNext (lp : LogicalProcess κ) : Option (LpEvent κ × LogicalProcess κ) :=
  match h : lp.events with
  | [] => none
  | e :: es => some (e, lp.advance e es h)

/-- `Next`, `none` where its assertion fails. -/
def next (lp : LogicalProcess κ) : Option ℕ :=
  lp.events.head?.map LpEvent.ts

/-- `IsFinished` of `NullMessageSimulatorImpl`, `IsLocalFinished` of `DistributedSimulatorImpl`. -/
def isFinished (lp : LogicalProcess κ) : Bool :=
  lp.events.isEmpty || lp.stop

/-! ## What the operations change -/

section
variable (lp : LogicalProcess κ)

@[simp] theorem currentTs_schedule (delay : ℕ) (impl : κ) :
    (lp.schedule delay impl).currentTs = lp.currentTs :=
  rfl

@[simp] theorem currentTs_scheduleAt (ts : ℕ) (h : lp.currentTs ≤ ts) (impl : κ) :
    (lp.scheduleAt ts h impl).currentTs = lp.currentTs :=
  rfl

@[simp] theorem currentTs_cancel (uid : ℕ) : (lp.cancel uid).currentTs = lp.currentTs :=
  rfl

@[simp] theorem currentTs_remove (p : LpEvent κ → Bool) :
    (lp.remove p).currentTs = lp.currentTs :=
  rfl

@[simp] theorem currentTs_setStop : lp.setStop.currentTs = lp.currentTs :=
  rfl

@[simp] theorem uid_cancel (uid : ℕ) : (lp.cancel uid).uid = lp.uid :=
  rfl

@[simp] theorem events_setStop : lp.setStop.events = lp.events :=
  rfl

end

variable {lp lp' : LogicalProcess κ} {e : LpEvent κ}

theorem mem_scheduleAt {ts : ℕ} {h : lp.currentTs ≤ ts} {impl : κ} :
    e ∈ (lp.scheduleAt ts h impl).events ↔
      e = { ts := ts, uid := lp.uid, impl := impl } ∨ e ∈ lp.events :=
  LpEvent.mem_insert

theorem mem_schedule {delay : ℕ} {impl : κ} : e ∈ (lp.schedule delay impl).events ↔
    e = { ts := lp.currentTs + delay, uid := lp.uid, impl := impl } ∨ e ∈ lp.events :=
  LpEvent.mem_insert

theorem mem_cancel {uid : ℕ} :
    e ∈ (lp.cancel uid).events ↔ ∃ e' ∈ lp.events, LpEvent.cancelIn uid e' = e :=
  List.mem_map

theorem mem_remove {p : LpEvent κ → Bool} :
    e ∈ (lp.remove p).events ↔ e ∈ lp.events ∧ p e = false := by
  simp [remove]

theorem removeNext_eq_some (h : lp.removeNext = some (e, lp')) :
    lp.events = e :: lp'.events ∧ lp'.currentTs = e.ts ∧ lp'.uid = lp.uid ∧
      lp'.stop = lp.stop := by
  unfold removeNext at h
  split at h
  · cases h
  · rename_i e' es heq
    obtain ⟨rfl, rfl⟩ := Prod.mk.inj (Option.some.inj h)
    exact ⟨heq, rfl, rfl, rfl⟩

/-- `Next` is a lower bound of the events. -/
theorem next_le {n : ℕ} (h : lp.next = some n) (he : e ∈ lp.events) : n ≤ e.ts := by
  obtain ⟨e', he', rfl⟩ := Option.map_eq_some_iff.1 h
  obtain ⟨es, hes⟩ := List.head?_eq_some_iff.1 he'
  rw [hes] at he
  rcases List.mem_cons.1 he with rfl | he
  · exact le_rfl
  · exact (List.pairwise_cons.1 (hes ▸ lp.sorted)).1 e he

theorem next_mem {n : ℕ} (h : lp.next = some n) : ∃ e ∈ lp.events, e.ts = n := by
  obtain ⟨e, he, rfl⟩ := Option.map_eq_some_iff.1 h
  exact ⟨e, List.mem_of_mem_head? he, rfl⟩

theorem currentTs_le_next {n : ℕ} (h : lp.next = some n) : lp.currentTs ≤ n := by
  obtain ⟨e, he, rfl⟩ := next_mem h
  exact lp.future e he

theorem next_eq_none : lp.next = none ↔ lp.events = [] := by
  rw [next, Option.map_eq_none_iff, List.head?_eq_none_iff]

theorem next_isSome_of_mem (he : e ∈ lp.events) : ∃ n, lp.next = some n ∧ n ≤ e.ts := by
  cases h : lp.next with
  | none => rw [next_eq_none.1 h] at he; cases he
  | some n => exact ⟨n, rfl, next_le h he⟩

theorem next_of_removeNext (h : lp.removeNext = some (e, lp')) : lp.next = some e.ts := by
  rw [next, (removeNext_eq_some h).1]
  rfl

theorem eq_of_uid_eq {e e' : LpEvent κ} (he : e ∈ lp.events) (he' : e' ∈ lp.events)
    (h : e.uid = e'.uid) : e = e' :=
  List.inj_on_of_nodup_map lp.uid_nodup he he' h

end LogicalProcess

end Ns3Pedca
