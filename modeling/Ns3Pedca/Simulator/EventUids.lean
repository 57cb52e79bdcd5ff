import Ns3Pedca.Simulator.EventOrder

/-!
# The uids of events

The counter of uids has 32 bits. While an event is put into the scheduler, the counter has to
be past the reserved values, no pending event may have come to the same uid, and those of the same
time have to have lesser ones (`Apart`). In a run with that condition every new event gets a uid of
its own, and events of one time are executed in the order in which they were scheduled
(`unambiguous_of_safe`). After 2 ^ 32 - 4 events it fails (`not_unambiguous`).
-/

namespace Ns3Pedca.Simulator

variable {σ : Type} (S : Scheduler σ) (R : σ → List Event → UInt64 → Prop)

/-! ## What a run does with the scheduler -/

/-- What is done with the scheduler : an event is put into it, an event is removed, or there is
another scheduler. -/
inductive Access (σ : Type)
  | insert (ts : UInt64) (context : UInt32) (event : ℕ)
  | remove (id : EventId)
  | replace (scheduler : σ)

section Accesses

variable (P : Simulator σ → Access σ → Prop)

/-- What a call does has the property. -/
def CallHas (s : Simulator σ) : Call σ → Prop
  | .schedule delay event =>
    P s (.insert (delay + s.currentTs.toInt64).toUInt64 s.currentContext event)
  | .scheduleWithContext context delay event =>
    P s (.insert (delay + s.currentTs.toInt64).toUInt64 context event)
  | .remove id => P s (.remove id)
  | .setScheduler scheduler => P s (.replace scheduler)
  | .postWithContext _ _ _ => True
  | .scheduleDestroy _ => True
  | .cancel _ => True
  | .stop => True

/-- What some calls do has it. -/
def CallsHas : Simulator σ → List (Call σ) → Prop
  | _, [] => True
  | s, c :: calls => CallHas P s c ∧ ∀ s', s.call S c = some s' → CallsHas s' calls

/-- So does what happens to the events of other threads. -/
def PostedHas : Simulator σ → List EventWithContext → Prop
  | _, [] => True
  | s, e :: es => P s (.insert (s.currentTs + e.timestamp) e.context e.event) ∧
      ∀ s' id, s.insertEvent S (s.currentTs + e.timestamp) e.context e.event = some (s', id) →
        PostedHas s' es

/-- What `ProcessEventsWithContext` does has it. -/
def ProcessHas (s : Simulator σ) : Prop :=
  s.eventsWithContextEmpty = false →
    PostedHas S P { s with eventsWithContext := [], eventsWithContextEmpty := true }
      s.eventsWithContext

/-- What a step does has it. -/
def StepHas (s : Simulator σ) : Step σ → Prop
  | .call c => CallHas P s c
  | .beginRun => ProcessHas S P s
  | .round calls => (!S.isEmpty s.events && !s.stop) = true → ∀ next s₁,
      s.takeNext S = some (next, s₁) →
        (s₁.cancelled next.impl = false → CallsHas S P s₁ calls) ∧
        ∀ s₂, (if s₁.cancelled next.impl then some s₁ else s₁.callAll S calls) = some s₂ →
          ProcessHas S P s₂
  | .destroyNext calls => ∀ ev destroyEvents, s.destroyEvents = ev :: destroyEvents →
      s.cancelled ev.impl = false → CallsHas S P { s with
        destroyEvents := destroyEvents
        history := { s.history with gone := s.history.gone ++ [ev] } } calls

/-- What a run does has it. -/
def RunHas : Simulator σ → List (Step σ) → Prop
  | _, [] => True
  | s, a :: steps => StepHas S P s a ∧ ∀ s', s.step S a = some s' → RunHas s' steps

end Accesses

/-! ## Uids that stay apart -/

/-- The events that `RemoveNext` returns until the scheduler is empty. -/
def drain : ℕ → σ → List Event
  | 0, _ => []
  | n + 1, events =>
    match S.removeNext events with
    | none => []
    | some (next, events') => if S.isEmpty events then [] else next :: drain n events'

/-- The pending events. -/
def pendingEvents (s : Simulator σ) : List Event :=
  drain S s.history.scheduled.length s.events

/-- The counter of uids, if it had any number of bits. -/
def uids (s : Simulator σ) : ℕ :=
  4 + s.history.scheduled.length + s.history.scheduledDestroy.length

/-- What a program has to see to : an event is not scheduled for the past, and a new scheduler is
empty. -/
def Called (s : Simulator σ) : Access σ → Prop
  | .insert ts _ _ => s.currentTs ≤ ts
  | .remove _ => True
  | .replace scheduler => R scheduler [] 0

/-- For a new event, the counter is not at one of its first four values after it has wrapped
around, no pending event had it at the same value, and those of the same time had it at lesser
ones. `Remove` gets the id of a pending event, or one that is expired. -/
def Apart (s : Simulator σ) : Access σ → Prop
  | .insert ts _ _ => 4 ≤ s.uids % 2 ^ 32 ∧ ∀ ev ∈ s.pendingEvents S,
      ev.key.uid.toNat ≠ s.uids % 2 ^ 32 ∧
      (ev.key.ts = ts → ev.key.uid.toNat < s.uids % 2 ^ 32)
  | .remove id => id.key.uid = EventId.destroy ∨ s.isExpired id = true ∨ id ∈ s.pendingEvents S
  | .replace _ => True

/-- Both of these. -/
def Safe (s : Simulator σ) (a : Access σ) : Prop :=
  s.Called R a ∧ s.Apart S a

/-- The uid of a new event is not reserved, and no pending event has it. -/
def Unambiguous (s : Simulator σ) : Access σ → Prop
  | .insert ts context event => ∀ s' id, s.insertEvent S ts context event = some (s', id) →
      EventId.valid ≤ id.key.uid ∧ ∀ ev ∈ s.pendingEvents S, ev.key.uid ≠ id.key.uid
  | .remove _ => True
  | .replace _ => True

/-- The events of the list with the timestamp `ts`. -/
def ofTime (ts : UInt64) (es : List Event) : List Event :=
  es.filter fun ev => ev.key.ts = ts

/-- Events of one time are executed in the order in which they were scheduled. -/
def InOrder (s : Simulator σ) : Prop :=
  ∀ ts, (ofTime ts s.history.invoked).Sublist (ofTime ts s.history.scheduled)

variable {S : Scheduler σ} {R : σ → List Event → UInt64 → Prop} {s : Simulator σ}
  {l : List Event} {last ts : UInt64} {ev : Event}

theorem drain_eq (hS : Implements S R fun _ _ => True) {events : σ} {n : ℕ} (hn : l.length ≤ n)
    (h : R events l last) (hq : Queue l last) : drain S n events = l := by
  induction n generalizing events l last with
  | zero =>
    rw [List.eq_nil_of_length_eq_zero (Nat.le_zero.1 hn)]
    rfl
  | succ n ih =>
    rw [drain, hS.isEmpty h]
    cases l with
    | nil => cases S.removeNext events <;> rfl
    | cons next l =>
      obtain ⟨events', heq, h'⟩ := hS.removeNext h hq trivial
      rw [heq]
      have hrest := ih (Nat.le_of_succ_le_succ hn) h'
        (hq.step .removeNext (List.cons_ne_nil _ _))
      simp only [List.isEmpty_cons, Bool.false_eq_true, if_false, hrest]

theorem ofTime_append {a b : List Event} : ofTime ts (a ++ b) = ofTime ts a ++ ofTime ts b :=
  List.filter_append a b

/-- An event that comes behind those of its time is the last of them in the queue. -/
theorem ofTime_insert (h : SortedEvents l) (hne : ∀ x ∈ l, x.key.uid ≠ ev.key.uid)
    (hlt : ∀ x ∈ l, x.key.ts = ev.key.ts → x.key.uid.toNat < ev.key.uid.toNat) :
    ofTime ts (ListScheduler.insert ev l) = ofTime ts l ++ ofTime ts [ev] := by
  refine sorted_unique ?_ ((h.insert hne).ordered.sublist List.filter_sublist) ?_
  · rw [← ofTime_append]
    exact (ListScheduler.perm_insert.trans (List.perm_append_singleton ev l).symm).filter _
  · refine List.pairwise_append.2 ⟨h.ordered.sublist List.filter_sublist,
      (List.pairwise_singleton _ ev).sublist List.filter_sublist, fun x hx y hy => ?_⟩
    obtain ⟨hxl, hxts⟩ := List.mem_filter.1 hx
    obtain ⟨hy, hyts⟩ := List.mem_filter.1 hy
    obtain rfl := List.mem_singleton.1 hy
    have hts : x.key.ts = y.key.ts :=
      (of_decide_eq_true hxts).trans (of_decide_eq_true hyts).symm
    have huid := hlt x hxl hts
    rw [Event.rank, Event.rank, EventKey.rank, EventKey.rank, hts]
    omega

/-! ## The invariant -/

/-- What holds in every state of a run, if `l` are the events in the scheduler. -/
structure UidInv (R : σ → List Event → UInt64 → Prop) (s : Simulator σ) (l : List Event)
    (last : UInt64) : Prop where
  rep : R s.events l last
  queue : Queue l last
  last_le : last ≤ s.currentTs
  uid_eq : s.uid.toNat = s.uids % 2 ^ 32
  length_le : l.length ≤ s.history.scheduled.length
  order : ∀ ts, (ofTime ts (s.history.started ++ l)).Sublist (ofTime ts s.history.scheduled)
  invoked : s.history.invoked.Sublist s.history.started

/-- The invariant, with the events in the scheduler left open. -/
def UidSound (R : σ → List Event → UInt64 → Prop) (s : Simulator σ) : Prop :=
  ∃ l last, UidInv R s l last

theorem UidInv.pendingEvents_eq (h : UidInv R s l last) (hS : Implements S R fun _ _ => True) :
    s.pendingEvents S = l :=
  drain_eq hS h.length_le h.rep h.queue

theorem UidInv.inOrder (h : UidInv R s l last) : InOrder s := by
  intro ts
  refine (h.invoked.filter _).trans (List.Sublist.trans ?_ (h.order ts))
  exact (List.sublist_append_left _ _).filter _

theorem toNat_succ {uid : UInt32} {n : ℕ} (h : uid.toNat = n % 2 ^ 32) :
    (uid + 1).toNat = (n + 1) % 2 ^ 32 := by
  have hone : (1 : UInt32).toNat = 1 := rfl
  rw [UInt32.toNat_add, h, hone]
  omega

/-- An event is put into the scheduler. -/
theorem UidInv.insertEvent (h : UidInv R s l last) (hS : Implements S R fun _ _ => True)
    {context : UInt32} {event : ℕ} (hsafe : Safe S R s (.insert ts context event)) :
    Unambiguous S s (.insert ts context event) ∧ ∃ s' id,
      s.insertEvent S ts context event = some (s', id) ∧ UidSound R s' := by
  obtain ⟨hts, hfour, hpending⟩ := hsafe
  rw [h.pendingEvents_eq hS, ← h.uid_eq] at hpending
  rw [← h.uid_eq] at hfour
  obtain ⟨ev, hev⟩ : ∃ ev, ev = s.newEvent ts context event := ⟨_, rfl⟩
  have huid : ev.key.uid = s.uid := by
    rw [hev]
    rfl
  have hne : ∀ x ∈ l, x.key.uid ≠ ev.key.uid := by
    intro x hx heq
    exact (hpending x hx).1 (by rw [heq, huid])
  have hlt : ∀ x ∈ l, x.key.ts = ev.key.ts → x.key.uid.toNat < ev.key.uid.toNat := by
    intro x hx heq
    rw [huid]
    refine (hpending x hx).2 (heq.trans ?_)
    rw [hev]
    rfl
  have hallowed : Allowed l last (.insert ev) := by
    refine ⟨UInt64.le_trans h.last_le ?_, hne⟩
    rw [hev]
    exact hts
  obtain ⟨events, hinsert, hrep⟩ := hS.insert h.rep h.queue hallowed trivial
  have heq : s.insertEvent S ts context event = some ({ s with
      events := events
      uid := s.uid + 1
      unscheduledEvents := s.unscheduledEvents + 1
      history := { s.history with scheduled := s.history.scheduled ++ [ev] } }, ev) := by
    rw [Simulator.insertEvent]
    change (S.insert s.events (s.newEvent ts context event)).bind _ = _
    rw [← hev, hinsert, hev]
    rfl
  refine ⟨fun s' id hid => ?_, _, ev, heq, ListScheduler.insert ev l, last, ?_⟩
  · rw [heq] at hid
    obtain rfl : ev = id := congrArg Prod.snd (Option.some.inj hid)
    rw [h.pendingEvents_eq hS, huid]
    refine ⟨UInt32.le_iff_toNat_le.2 hfour, fun x hx => ?_⟩
    rw [← huid]
    exact hne x hx
  · exact {
      rep := hrep
      queue := h.queue.step _ hallowed
      last_le := h.last_le
      uid_eq := by
        change (s.uid + 1).toNat = (4 + (s.history.scheduled ++ [ev]).length +
          s.history.scheduledDestroy.length) % 2 ^ 32
        rw [toNat_succ h.uid_eq, uids, List.length_append, List.length_singleton]
        congr 1
        omega
      length_le := by
        change (ListScheduler.insert ev l).length ≤ (s.history.scheduled ++ [ev]).length
        rw [ListScheduler.perm_insert.length_eq, List.length_cons, List.length_append,
          List.length_singleton]
        exact Nat.succ_le_succ h.length_le
      order := fun t => by
        change (ofTime t (s.history.started ++ ListScheduler.insert ev l)).Sublist
          (ofTime t (s.history.scheduled ++ [ev]))
        have hold := h.order t
        rw [ofTime_append] at hold
        rw [ofTime_append, ofTime_append, ofTime_insert h.queue.toSortedEvents hne hlt,
          ← List.append_assoc]
        exact hold.append (List.Sublist.refl _)
      invoked := h.invoked }

/-- The events of other threads are put into the scheduler. -/
theorem UidSound.insertEvents (hS : Implements S R fun _ _ => True) (es : List EventWithContext)
    (h : UidSound R s) (hes : PostedHas S (Safe S R) s es) :
    PostedHas S (Unambiguous S) s es ∧ ∃ s', es.foldlM (fun s event =>
        (s.insertEvent S (s.currentTs + event.timestamp) event.context event.event).map Prod.fst)
          s = some s' ∧ UidSound R s' := by
  induction es generalizing s with
  | nil => exact ⟨trivial, s, rfl, h⟩
  | cons e es ih =>
    obtain ⟨l, last, h⟩ := h
    obtain ⟨hsafe, hrest⟩ := hes
    obtain ⟨hunambiguous, s₁, id, heq, h₁⟩ := h.insertEvent hS hsafe
    obtain ⟨hposted, s', heq', h'⟩ := ih h₁ (hrest s₁ id heq)
    refine ⟨⟨hunambiguous, fun s₂ id₂ heq₂ => ?_⟩, s', ?_, h'⟩
    · rw [heq] at heq₂
      obtain rfl : s₁ = s₂ := congrArg Prod.fst (Option.some.inj heq₂)
      exact hposted
    · rw [List.foldlM_cons, heq]
      exact heq'

theorem UidSound.processEventsWithContext (hS : Implements S R fun _ _ => True)
    (h : UidSound R s) (hsafe : ProcessHas S (Safe S R) s) :
    ProcessHas S (Unambiguous S) s ∧
      ∃ s', s.processEventsWithContext S = some s' ∧ UidSound R s' := by
  rw [Simulator.processEventsWithContext]
  by_cases hflag : s.eventsWithContextEmpty = true
  · rw [if_pos hflag]
    refine ⟨fun hfalse => ?_, s, rfl, h⟩
    rw [hflag] at hfalse
    exact absurd hfalse.symm Bool.false_ne_true
  · rw [if_neg hflag]
    rw [Bool.not_eq_true] at hflag
    obtain ⟨l, last, h⟩ := h
    have hempty : UidSound R
        { s with eventsWithContext := [], eventsWithContextEmpty := true } :=
      ⟨l, last, { h with }⟩
    obtain ⟨hposted, hs'⟩ := hempty.insertEvents hS s.eventsWithContext (hsafe hflag)
    exact ⟨fun _ => hposted, hs'⟩

/-! ## Calls -/

theorem UidInv.scheduleDestroy (h : UidInv R s l last) {event : ℕ} :
    UidInv R (s.scheduleDestroy event) l last :=
  { h with
    uid_eq := by
      change (s.uid + 1).toNat = (4 + s.history.scheduled.length +
        (s.history.scheduledDestroy ++ [_]).length) % 2 ^ 32
      rw [toNat_succ h.uid_eq, uids, List.length_append, List.length_singleton]
      rfl }

/-- The record of a call of `Cancel` or `Remove` is of no account. -/
theorem UidInv.recordRevoked (h : UidInv R s l last) {id : EventId} {cancelled : ℕ → Bool} :
    UidInv R { s with cancelled := cancelled, history := s.recordRevoked id } l last := by
  rw [Simulator.recordRevoked]
  split_ifs
  · exact { h with }
  · exact { h with }

theorem UidInv.cancel (h : UidInv R s l last) {id : EventId} : UidInv R (s.cancel id) l last := by
  rw [Simulator.cancel]
  split_ifs
  · exact h.recordRevoked
  · exact h.recordRevoked

/-- An event is removed that is pending, or nothing happens. -/
theorem UidInv.remove (h : UidInv R s l last) (hS : Implements S R fun _ _ => True)
    {id : EventId} (hsafe : Safe S R s (.remove id)) :
    ∃ s', s.remove S id = some s' ∧ UidSound R s' := by
  rw [Simulator.remove]
  by_cases huid : id.key.uid = EventId.destroy
  · rw [if_pos huid]
    refine ⟨_, rfl, l, last, ?_⟩
    split_ifs
    · exact { h with }
    · exact { h with }
  · rw [if_neg huid]
    by_cases hexpired : s.isExpired id = true
    · rw [if_pos hexpired]
      exact ⟨_, rfl, l, last, h.recordRevoked⟩
    · rw [if_neg hexpired]
      have hin : id ∈ l := by
        rw [← h.pendingEvents_eq hS]
        exact (hsafe.2.resolve_left huid).resolve_left hexpired
      obtain ⟨events, heq, hrep⟩ := hS.remove h.rep h.queue hin trivial
      have hsub : (ListScheduler.remove id l).Sublist l := List.eraseP_sublist
      rw [heq]
      refine ⟨_, rfl, ListScheduler.remove id l, last, ?_⟩
      have hrecord : UidInv R { s with
          cancelled := Function.update s.cancelled id.impl true
          history := s.recordRevoked id } l last := h.recordRevoked
      exact { hrecord with
        rep := hrep
        queue := h.queue.step (.remove id) hin
        uid_eq := hrecord.uid_eq
        length_le := hsub.length_le.trans hrecord.length_le
        order := fun t => List.Sublist.trans (((List.Sublist.refl _).append hsub).filter _)
          (hrecord.order t) }

theorem UidInv.setScheduler (h : UidInv R s l last) (hS : Implements S R fun _ _ => True)
    {scheduler : σ} (hnew : R scheduler [] 0) :
    ∃ s', s.setScheduler S scheduler = some s' ∧ UidSound R s' := by
  obtain ⟨scheduler', l', heq, hrep, hqueue, hperm⟩ := moveEvents_spec hS
    (s.history.scheduled.length + 1) (Nat.lt_succ_of_le h.length_le) h.rep h.queue hnew .nil
    (by rw [List.append_nil]; exact h.queue.uids)
  rw [List.append_nil] at hperm
  obtain rfl : l' = l := sorted_unique hperm hqueue.ordered h.queue.ordered
  refine ⟨{ s with events := scheduler' }, ?_, l', 0, ?_⟩
  · rw [Simulator.setScheduler, heq]
    rfl
  · exact { h with
      rep := hrep
      queue := hqueue
      last_le := UInt64.zero_le }

/-- A call keeps the invariant. -/
theorem UidSound.call (hS : Implements S R fun _ _ => True) (h : UidSound R s) {c : Call σ}
    (hsafe : CallHas (Safe S R) s c) :
    CallHas (Unambiguous S) s c ∧ ∃ s', s.call S c = some s' ∧ UidSound R s' := by
  obtain ⟨l, last, h⟩ := h
  cases c with
  | schedule delay event =>
    obtain ⟨hunambiguous, s', id, heq, h'⟩ := h.insertEvent hS hsafe
    exact ⟨hunambiguous, s', congrArg (Option.map Prod.fst) heq, h'⟩
  | scheduleWithContext context delay event =>
    obtain ⟨hunambiguous, s', id, heq, h'⟩ := h.insertEvent hS hsafe
    exact ⟨hunambiguous, s', congrArg (Option.map Prod.fst) heq, h'⟩
  | postWithContext context delay event => exact ⟨trivial, _, rfl, l, last, { h with }⟩
  | scheduleDestroy event => exact ⟨trivial, _, rfl, l, last, h.scheduleDestroy⟩
  | cancel id => exact ⟨trivial, _, rfl, l, last, h.cancel⟩
  | remove id => exact ⟨trivial, h.remove hS hsafe⟩
  | setScheduler scheduler => exact ⟨trivial, h.setScheduler hS hsafe.1⟩
  | stop => exact ⟨trivial, _, rfl, l, last, { h with }⟩

/-- So do the calls of an event. -/
theorem UidSound.callAll (hS : Implements S R fun _ _ => True) {calls : List (Call σ)}
    (h : UidSound R s) (hsafe : CallsHas S (Safe S R) s calls) :
    CallsHas S (Unambiguous S) s calls ∧ ∃ s', s.callAll S calls = some s' ∧ UidSound R s' := by
  induction calls generalizing s with
  | nil => exact ⟨trivial, s, rfl, h⟩
  | cons c calls ih =>
    obtain ⟨hc, hrest⟩ := hsafe
    obtain ⟨hunambiguous, s₁, heq, h₁⟩ := h.call hS hc
    obtain ⟨hcalls, s', heq', h'⟩ := ih h₁ (hrest s₁ heq)
    refine ⟨⟨hunambiguous, fun s₂ heq₂ => ?_⟩, s', ?_, h'⟩
    · rw [heq] at heq₂
      obtain rfl := Option.some.inj heq₂
      exact hcalls
    · rw [Simulator.callAll, List.foldlM_cons, heq]
      exact heq'

/-! ## Steps -/

/-- The next event is taken out of the scheduler, behind those that were executed. -/
theorem UidInv.takeNext {next : Event} (h : UidInv R s (next :: l) last)
    (hS : Implements S R fun _ _ => True) :
    ∃ s', s.takeNext S = some (next, s') ∧ UidSound R s' := by
  obtain ⟨events, heq, hrep⟩ := hS.removeNext h.rep h.queue trivial
  rw [Simulator.takeNext, heq]
  refine ⟨_, rfl, l, next.key.ts, ?_⟩
  exact { h with
    rep := hrep
    queue := h.queue.step .removeNext (List.cons_ne_nil _ _)
    last_le := UInt64.le_refl _
    uid_eq := h.uid_eq
    length_le := (Nat.le_succ _).trans h.length_le
    order := fun t => by
      have hold := h.order t
      rw [List.append_cons] at hold
      exact hold
    invoked := by
      change List.Sublist (if s.cancelled next.impl = true then _ else _) _
      split_ifs
      · exact h.invoked.trans (List.sublist_append_left _ _)
      · exact h.invoked.append (List.Sublist.refl _) }

/-- An event is executed. -/
theorem UidSound.processOneEvent (hS : Implements S R fun _ _ => True) (h : UidSound R s)
    {calls : List (Call σ)} (hgo : (!S.isEmpty s.events && !s.stop) = true)
    (hsafe : StepHas S (Safe S R) s (.round calls)) :
    StepHas S (Unambiguous S) s (.round calls) ∧
      ∃ s', s.processOneEvent S calls = some s' ∧ UidSound R s' := by
  obtain ⟨l, last, h⟩ := h
  have hevents : S.isEmpty s.events = false := by
    rw [Bool.and_eq_true, Bool.not_eq_true'] at hgo
    exact hgo.1
  rw [hS.isEmpty h.rep] at hevents
  cases l with
  | nil => exact absurd hevents.symm Bool.false_ne_true
  | cons next l =>
    obtain ⟨s₁, htake, h₁⟩ := h.takeNext hS
    obtain ⟨hcalls, hprocess⟩ := hsafe hgo next s₁ htake
    -- the calls of the event, if it is not cancelled
    obtain ⟨hcalls', s₂, heq₂, h₂⟩ :
        (s₁.cancelled next.impl = false → CallsHas S (Unambiguous S) s₁ calls) ∧
        ∃ s₂, (if s₁.cancelled next.impl then some s₁ else s₁.callAll S calls) = some s₂ ∧
          UidSound R s₂ := by
      by_cases hc : s₁.cancelled next.impl = true
      · rw [if_pos hc]
        exact ⟨fun hfalse => absurd (hfalse.symm.trans hc) Bool.false_ne_true, s₁, rfl, h₁⟩
      · rw [if_neg hc]
        rw [Bool.not_eq_true] at hc
        obtain ⟨hunambiguous, hs₂⟩ := h₁.callAll hS (hcalls hc)
        exact ⟨fun _ => hunambiguous, hs₂⟩
    obtain ⟨hprocess', s', heq', h'⟩ := h₂.processEventsWithContext hS (hprocess s₂ heq₂)
    refine ⟨fun _ next₁ s₃ heq₃ => ?_, s', ?_, h'⟩
    · obtain ⟨rfl, rfl⟩ := Prod.mk.inj (Option.some.inj (htake.symm.trans heq₃))
      refine ⟨hcalls', fun s₄ heq₄ => ?_⟩
      obtain rfl := Option.some.inj (heq₂.symm.trans heq₄)
      exact hprocess'
    · rw [Simulator.processOneEvent, htake]
      simp only [Option.bind_eq_bind, Option.bind_some]
      by_cases hc : s₁.cancelled next.impl = true
      · rw [if_pos hc] at heq₂ ⊢
        obtain rfl := Option.some.inj heq₂
        exact heq'
      · rw [if_neg hc] at heq₂ ⊢
        rw [heq₂]
        exact heq'

/-- Every step keeps the invariant. -/
theorem UidSound.step (hS : Implements S R fun _ _ => True) (h : UidSound R s) {a : Step σ}
    (hsafe : StepHas S (Safe S R) s a) :
    StepHas S (Unambiguous S) s a ∧ ∃ s', s.step S a = some s' ∧ UidSound R s' := by
  cases a with
  | call c => exact h.call hS hsafe
  | beginRun =>
    obtain ⟨hprocess, s₁, heq, l, last, h₁⟩ := h.processEventsWithContext hS hsafe
    refine ⟨hprocess, { s₁ with stop := false }, ?_, l, last, { h₁ with }⟩
    rw [Simulator.step, Simulator.beginRun, heq]
    rfl
  | round calls =>
    rw [Simulator.step, Simulator.round]
    by_cases hgo : (!S.isEmpty s.events && !s.stop) = true
    · rw [if_pos hgo]
      exact h.processOneEvent hS hgo hsafe
    · rw [if_neg hgo]
      exact ⟨fun hgo' => absurd hgo' hgo, s, rfl, h⟩
  | destroyNext calls =>
    obtain ⟨l, last, h⟩ := h
    rw [Simulator.step, Simulator.destroyNext]
    cases hevents : s.destroyEvents with
    | nil =>
      refine ⟨fun ev destroyEvents heq => ?_, s, rfl, l, last, h⟩
      rw [hevents] at heq
      exact absurd heq.symm (List.cons_ne_nil _ _)
    | cons ev destroyEvents =>
      have hgone : UidSound R { s with
          destroyEvents := destroyEvents
          history := { s.history with gone := s.history.gone ++ [ev] } } :=
        ⟨l, last, { h with }⟩
      by_cases hc : s.cancelled ev.impl = true
      · simp only [hc, if_true]
        refine ⟨fun ev₁ destroyEvents₁ heq₁ hfalse => ?_, _, rfl, hgone⟩
        obtain ⟨rfl, rfl⟩ := List.cons.inj (hevents.symm.trans heq₁)
        exact absurd (hfalse.symm.trans hc) Bool.false_ne_true
      · rw [Bool.not_eq_true] at hc
        obtain ⟨hcalls, s', heq, h'⟩ := hgone.callAll hS (hsafe ev destroyEvents hevents hc)
        simp only [hc]
        refine ⟨fun ev₁ destroyEvents₁ heq₁ _ => ?_, s', heq, h'⟩
        obtain ⟨rfl, rfl⟩ := List.cons.inj (hevents.symm.trans heq₁)
        exact hcalls

/-- So does every run. -/
theorem UidSound.runSteps (hS : Implements S R fun _ _ => True) {steps : List (Step σ)}
    (h : UidSound R s) (hsafe : RunHas S (Safe S R) s steps) :
    RunHas S (Unambiguous S) s steps ∧ ∃ s', s.runSteps S steps = some s' ∧ UidSound R s' := by
  induction steps generalizing s with
  | nil => exact ⟨trivial, s, rfl, h⟩
  | cons a steps ih =>
    obtain ⟨ha, hrest⟩ := hsafe
    obtain ⟨hunambiguous, s₁, heq, h₁⟩ := h.step hS ha
    obtain ⟨hsteps, s', heq', h'⟩ := ih h₁ (hrest s₁ heq)
    refine ⟨⟨hunambiguous, fun s₂ heq₂ => ?_⟩, s', ?_, h'⟩
    · obtain rfl := Option.some.inj (heq.symm.trans heq₂)
      exact hsteps
    · rw [Simulator.runSteps, List.foldlM_cons, heq]
      exact heq'

/-! ## New simulators -/

theorem uidSound_new {events : σ} (h : R events [] 0) : UidSound R (new events) := by
  refine ⟨[], 0, ?_⟩
  exact {
    rep := h
    queue := .nil
    last_le := UInt64.le_refl _
    uid_eq := rfl
    length_le := Nat.le_refl _
    order := fun _ => List.Sublist.refl _
    invoked := List.Sublist.refl _ }

/-- In a run in which the uids stay apart, every event gets a uid that is not reserved and that
no pending event has, and events of one time are executed in the order in which they were
scheduled. -/
theorem unambiguous_of_safe (hS : Implements S R fun _ _ => True) {events : σ}
    (hevents : R events [] 0) {steps : List (Step σ)}
    (hsafe : RunHas S (Safe S R) (new events) steps) :
    RunHas S (Unambiguous S) (new events) steps ∧
      ∃ s, (new events).runSteps S steps = some s ∧ InOrder s := by
  obtain ⟨hunambiguous, s, heq, l, last, h⟩ :=
    (uidSound_new hevents).runSteps hS hsafe
  exact ⟨hunambiguous, s, heq, h.inOrder⟩

/-! ## Examples -/

theorem runHas_append {P : Simulator σ → Access σ → Prop} {s' : Simulator σ}
    {steps more : List (Step σ)} (h : s.runSteps S steps = some s') :
    RunHas S P s (steps ++ more) ↔ RunHas S P s steps ∧ RunHas S P s' more := by
  induction steps generalizing s with
  | nil =>
    obtain rfl := Option.some.inj h
    exact (and_iff_right trivial).symm
  | cons a steps ih =>
    cases hstep : s.step S a with
    | none =>
      rw [Simulator.runSteps, List.foldlM_cons, hstep] at h
      exact absurd h.symm (Option.some_ne_none s')
    | some s₁ =>
      rw [Simulator.runSteps, List.foldlM_cons, hstep] at h
      rw [List.cons_append, RunHas, RunHas, hstep, and_assoc]
      refine and_congr_right fun _ => ⟨fun hall => ?_, fun hall s₂ hs₂ => ?_⟩
      · obtain ⟨hsteps, hmore⟩ := (ih h).1 (hall s₁ rfl)
        refine ⟨fun s₂ hs₂ => ?_, hmore⟩
        obtain rfl := Option.some.inj hs₂
        exact hsteps
      · obtain rfl := Option.some.inj hs₂
        exact (ih h).2 ⟨hall.1 s₁ rfl, hall.2⟩

/-- The event that is scheduled at the time 0 after `i` others. -/
def numbered (i : ℕ) : Event :=
  ⟨1, 0, UInt32.ofNat (4 + i), 0xffffffff⟩

/-- Events have been scheduled at the time 0, and none has been executed. -/
structure Filled (n : ℕ) (s : Simulator (List Event)) : Prop where
  events : s.events.Perm ((List.range n).map numbered)
  scheduled : s.history.scheduled = (List.range n).map numbered
  uid : s.uid = UInt32.ofNat (4 + n)
  currentTs : s.currentTs = 0
  currentContext : s.currentContext = 0xffffffff
  empty : s.eventsWithContextEmpty = true
  stop : s.stop = false
  cancelled : s.cancelled 1 = false
  invoked : s.history.invoked = []

theorem Filled.schedule {n : ℕ} {s : Simulator (List Event)} (h : Filled n s) : ∃ s',
    s.step listScheduler (.call (.schedule 0 1)) = some s' ∧ Filled (n + 1) s' ∧
      s'.events = ListScheduler.insert (numbered n) s.events ∧
      s.insertEvent listScheduler 0 0xffffffff 1 = some (s', numbered n) := by
  have hzero : ((0 : Int64) + (0 : UInt64).toInt64).toUInt64 = 0 := by decide
  have hschedule : s.schedule listScheduler 0 1 = s.insertEvent listScheduler 0 0xffffffff 1 := by
    rw [Simulator.schedule, h.currentTs, h.currentContext]
    simp only [hzero]
  have hinsert : s.insertEvent listScheduler 0 0xffffffff 1 = some ({ s with
      events := ListScheduler.insert (numbered n) s.events
      uid := s.uid + 1
      unscheduledEvents := s.unscheduledEvents + 1
      history := { s.history with scheduled := s.history.scheduled ++ [numbered n] } },
      numbered n) := by
    rw [numbered, ← h.uid]
    rfl
  refine ⟨{ s with
    events := ListScheduler.insert (numbered n) s.events
    uid := s.uid + 1
    unscheduledEvents := s.unscheduledEvents + 1
    history := { s.history with scheduled := s.history.scheduled ++ [numbered n] } }, ?_, ?_, rfl,
    hinsert⟩
  · rw [Simulator.step, Simulator.call, hschedule, hinsert]
    rfl
  · have hrange : (List.range (n + 1)).map numbered = (List.range n).map numbered ++ [numbered n] :=
      by rw [List.range_succ, List.map_append, List.map_singleton]
    exact { h with
      events := by
        rw [hrange]
        refine ListScheduler.perm_insert.trans ?_
        exact (h.events.cons _).trans (List.perm_append_singleton _ _).symm
      scheduled := by rw [hrange, h.scheduled]
      uid := by
        change s.uid + UInt32.ofNat 1 = _
        rw [h.uid, ← UInt32.ofNat_add]
        rfl }

/-- Some more events are scheduled. -/
theorem Filled.scheduleAll (n : ℕ) {k : ℕ} {s : Simulator (List Event)} (h : Filled k s) : ∃ s',
    s.runSteps listScheduler (List.replicate n (.call (.schedule 0 1))) = some s' ∧
      Filled (k + n) s' ∧
      RunHas listScheduler (Called Listed) s (List.replicate n (.call (.schedule 0 1))) := by
  induction n generalizing k s with
  | zero => exact ⟨s, rfl, h, trivial⟩
  | succ n ih =>
    obtain ⟨s₁, heq, h₁, -, -⟩ := h.schedule
    obtain ⟨s', heq', h', hrun⟩ := ih h₁
    refine ⟨s', ?_, ?_, ?_, fun s₂ heq₂ => ?_⟩
    · rw [List.replicate_succ, Simulator.runSteps, List.foldlM_cons, heq]
      exact heq'
    · rw [Nat.add_right_comm] at h'
      exact h'
    · change s.currentTs ≤ (0 + s.currentTs.toInt64).toUInt64
      rw [h.currentTs]
      decide
    · obtain rfl := Option.some.inj (heq.symm.trans heq₂)
      exact hrun

theorem ListScheduler.insert_first {l : List Event} {ev : Event}
    (h : ∀ x ∈ l, ev.key.lt x.key = true) : ListScheduler.insert ev l = ev :: l := by
  cases l with
  | nil => rfl
  | cons x l => exact if_pos (h x List.mem_cons_self)

/-- A simulator in which the next event is executed, whatever it is. -/
structure Ready (s : Simulator (List Event)) : Prop where
  cancelled : s.cancelled 1 = false
  empty : s.eventsWithContextEmpty = true
  stop : s.stop = false

theorem Ready.round {s : Simulator (List Event)} (h : Ready s) {next : Event} {l : List Event}
    (hevents : s.events = next :: l) (himpl : next.impl = 1) : ∃ s',
    s.step listScheduler (.round []) = some s' ∧ Ready s' ∧ s'.events = l ∧
      s'.history.scheduled = s.history.scheduled ∧
      s'.history.invoked = s.history.invoked ++ [next] := by
  have hgo : (!listScheduler.isEmpty s.events && !s.stop) = true := by
    rw [hevents, h.stop]
    rfl
  have htake : listScheduler.removeNext s.events = some (next, l) := by
    rw [hevents]
    rfl
  refine ⟨{ s with
    events := l
    unscheduledEvents := s.unscheduledEvents - 1
    eventCount := s.eventCount + 1
    currentTs := next.key.ts
    currentContext := next.key.context
    currentUid := next.key.uid
    history := { s.history with
      started := s.history.started ++ [next]
      invoked := s.history.invoked ++ [next] } }, ?_, ⟨h.cancelled, h.empty, h.stop⟩, rfl, rfl, rfl⟩
  have hcancelled : ¬ s.cancelled next.impl = true := by
    rw [himpl, h.cancelled]
    exact Bool.false_ne_true
  rw [Simulator.step, Simulator.round, if_pos hgo, Simulator.processOneEvent, Simulator.takeNext,
    htake]
  simp only [Option.bind_eq_bind, Option.bind_some, Option.pure_def, if_neg hcancelled]
  exact if_pos h.empty

/-- A round without calls and without events of other threads does nothing with the scheduler
after it has taken its event. -/
theorem Ready.roundHas {P : Simulator (List Event) → Access (List Event) → Prop}
    {s : Simulator (List Event)} (h : Ready s) : StepHas listScheduler P s (.round []) := by
  intro _ next s₁ htake
  have hempty : s₁.eventsWithContextEmpty = true := by
    rw [Simulator.takeNext] at htake
    cases hremove : listScheduler.removeNext s.events with
    | none =>
      rw [hremove] at htake
      exact absurd htake.symm (Option.some_ne_none _)
    | some r =>
      rw [hremove] at htake
      obtain ⟨-, rfl⟩ := Prod.mk.inj (Option.some.inj htake)
      exact h.empty
  refine ⟨fun _ => trivial, fun s₂ heq hfalse => ?_⟩
  obtain rfl : s₁ = s₂ := by
    split_ifs at heq
    · exact Option.some.inj heq
    · exact Option.some.inj heq
  exact absurd (hfalse.symm.trans hempty) Bool.false_ne_true

/-- Two events of one time are scheduled, and the first one is executed. -/
def twoEvents : List (Step (List Event)) :=
  [.call (.schedule 5 1), .call (.schedule 5 2), .round []]

/-- Their uids are different. -/
theorem unambiguous_twoEvents :
    RunHas listScheduler (Unambiguous listScheduler) (new []) twoEvents ∧
      ∃ s, (new []).runSteps listScheduler twoEvents = some s ∧ InOrder s := by
  refine unambiguous_of_safe ListScheduler.implements rfl ⟨⟨?_, ?_, ?_⟩, fun s hs => ?_⟩
  · change (0 : UInt64) ≤ ((5 : Int64) + (0 : UInt64).toInt64).toUInt64
    decide
  · decide
  · exact fun ev hev => absurd hev List.not_mem_nil
  · obtain rfl := Option.some.inj hs
    refine ⟨⟨?_, ?_, ?_⟩, fun s' hs' => ?_⟩
    · change (0 : UInt64) ≤ ((5 : Int64) + (0 : UInt64).toInt64).toUInt64
      decide
    · decide
    · decide
    · obtain rfl := Option.some.inj hs'
      exact ⟨Ready.roundHas ⟨rfl, rfl, rfl⟩, fun _ _ => trivial⟩

theorem Filled.ready {n : ℕ} {s : Simulator (List Event)} (h : Filled n s) : Ready s :=
  ⟨h.cancelled, h.empty, h.stop⟩

/-- The uid of an event before the counter wraps around. -/
theorem toNat_numbered {i : ℕ} (h : i < 2 ^ 32 - 4) :
    (numbered i).key.uid.toNat = 4 + i := by
  change (UInt32.ofNat (4 + i)).toNat = 4 + i
  rw [UInt32.toNat_ofNat', Nat.mod_eq_of_lt (by omega)]

/-- The counter has wrapped around. -/
theorem numbered_wrapped {n : ℕ} (h : n = 2 ^ 32 - 4) :
    numbered n = ⟨1, 0, 0, 0xffffffff⟩ := by
  rw [numbered, h]
  decide

/-- An event is not executed in its turn, if it gets the uid 0. -/
theorem Filled.exists_disorder {n : ℕ} (hn : n = 2 ^ 32 - 4) {s : Simulator (List Event)}
    (h : Filled n s) : ∃ s', s.runSteps listScheduler
        [.call (.schedule 0 1), .round [], .round []] = some s' ∧
      RunHas listScheduler (Called Listed) s [.call (.schedule 0 1), .round [], .round []] ∧
      ¬ InOrder s' := by
  obtain ⟨s₁, heq₁, h₁, hevents₁, -⟩ := h.schedule
  have huids : ∀ x ∈ s.events, ∃ i, i < n ∧ x = numbered i := by
    intro x hx
    obtain ⟨i, hi, rfl⟩ := List.mem_map.1 (h.events.mem_iff.1 hx)
    exact ⟨i, List.mem_range.1 hi, rfl⟩
  have hfirst : ∀ x ∈ s.events, (numbered n).key.lt x.key = true := by
    intro x hx
    obtain ⟨i, hi, rfl⟩ := huids x hx
    rw [EventKey.lt_iff, numbered_wrapped hn, EventKey.rank, EventKey.rank,
      toNat_numbered (hn ▸ hi)]
    exact Nat.add_lt_add_left (Nat.add_pos_left (by decide) i) _
  rw [ListScheduler.insert_first hfirst] at hevents₁
  obtain ⟨s₂, heq₂, h₂, hevents₂, hscheduled₂, hinvoked₂⟩ := h₁.ready.round hevents₁ rfl
  obtain ⟨x, l, hl⟩ : ∃ x l, s.events = x :: l := by
    refine List.exists_cons_of_ne_nil fun hnil => ?_
    have hlen := h.events.length_eq
    rw [hnil, List.length_nil, List.length_map, List.length_range, hn] at hlen
    exact absurd hlen (by decide)
  obtain ⟨i, hi, rfl⟩ := huids x (hl ▸ List.mem_cons_self)
  obtain ⟨s', heq', h', -, hscheduled', hinvoked'⟩ := h₂.round (hevents₂.trans hl) rfl
  refine ⟨s', ?_, ⟨?_, ?_⟩, fun horder => ?_⟩
  · rw [Simulator.runSteps, List.foldlM_cons, heq₁]
    change (s₁.step listScheduler (.round [])).bind _ = _
    rw [heq₂]
    change (s₂.step listScheduler (.round [])).bind _ = _
    rw [heq']
    rfl
  · change s.currentTs ≤ (0 + s.currentTs.toInt64).toUInt64
    rw [h.currentTs]
    decide
  · intro s₁' heq₁'
    obtain rfl := Option.some.inj (heq₁.symm.trans heq₁')
    refine ⟨h₁.ready.roundHas, fun s₂' heq₂' => ?_⟩
    obtain rfl := Option.some.inj (heq₂.symm.trans heq₂')
    exact ⟨h₂.roundHas, fun _ _ => trivial⟩
  · have hsub := horder 0
    rw [hinvoked', hinvoked₂, h₁.invoked, hscheduled', hscheduled₂, h₁.scheduled,
      List.range_succ, List.map_append] at hsub
    have hall : ofTime 0 ((List.range n).map numbered ++ [n].map numbered) =
        (List.range n).map numbered ++ [numbered n] := by
      refine List.filter_eq_self.2 fun y hy => ?_
      rw [← List.map_append] at hy
      obtain ⟨j, -, rfl⟩ := List.mem_map.1 hy
      exact decide_eq_true rfl
    rw [hall] at hsub
    change [numbered n, numbered i].Sublist _ at hsub
    obtain ⟨a, b, hab, ha, hb⟩ := List.sublist_append_iff.1 hsub
    cases a with
    | nil =>
      have hlen := hb.length_le
      rw [← List.nil_append b, ← hab] at hlen
      exact absurd hlen (by simp)
    | cons y a =>
      obtain ⟨rfl, -⟩ := List.cons.inj hab
      obtain ⟨j, hj, heq⟩ := List.mem_map.1 (ha.subset List.mem_cons_self)
      have huid := toNat_numbered (hn ▸ List.mem_range.1 hj)
      rw [heq, numbered_wrapped hn] at huid
      change 0 = 4 + j at huid
      omega

/-- After 2 ^ 32 - 4 events the counter is at a reserved value, and an event that gets it is
executed before those that were scheduled for its time before it. -/
theorem not_unambiguous :
    (∃ steps, RunHas listScheduler (Called Listed) (new []) steps ∧
      ¬ RunHas listScheduler (Unambiguous listScheduler) (new []) steps) ∧
    ∃ steps s, RunHas listScheduler (Called Listed) (new []) steps ∧
      (new []).runSteps listScheduler steps = some s ∧ ¬ InOrder s := by
  obtain ⟨n, hn⟩ : ∃ n : ℕ, n = 2 ^ 32 - 4 := ⟨_, rfl⟩
  have hnew : Filled 0 (new []) :=
    ⟨List.Perm.refl _, rfl, rfl, rfl, rfl, rfl, rfl, rfl, rfl⟩
  obtain ⟨s, heq, h, hrun⟩ := hnew.scheduleAll n
  rw [Nat.zero_add] at h
  obtain ⟨s', heq', hrun', hnot⟩ := h.exists_disorder hn
  have hall := (runHas_append heq).2 ⟨hrun, hrun'⟩
  refine ⟨⟨_, hall, fun hunambiguous => ?_⟩, _, s', hall, ?_, hnot⟩
  · obtain ⟨hstep, -⟩ := ((runHas_append heq).1 hunambiguous).2
    obtain ⟨s₁, -, -, -, hinsert⟩ := h.schedule
    have hvalid := (hstep s₁ (numbered n) (by
      rw [h.currentTs, h.currentContext]
      exact hinsert)).1
    rw [numbered_wrapped hn] at hvalid
    exact absurd hvalid (by decide)
  · rw [Simulator.runSteps, List.foldlM_append]
    change ((new []).runSteps listScheduler _).bind _ = _
    rw [heq]
    exact heq'

end Ns3Pedca.Simulator
