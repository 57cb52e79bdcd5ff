import Ns3Pedca.Simulator.DefaultSimulatorImpl

/-!
# Runs of the simulator

Every event in the scheduler comes after the event that is executed, and every event that was
executed does not (`Inv`). So the pair of the timestamp and the uid tells whether an event has
been executed. Each call keeps that (`Inv.call`), also a call of an event that is executed
(`Inv.callAll`), and so does each step (`Inv.step`).
-/

namespace Ns3Pedca.Simulator

variable {σ : Type} {S : Scheduler σ} {R : σ → List Event → UInt64 → Prop} {s s' : Simulator σ}
  {l : List Event} {last : UInt64} {ev id : Event}

/-- The event of `id`, or another one with the same `EventImpl`, was cancelled or removed before
its turn. -/
def Revoked (s : Simulator σ) (id : EventId) : Prop :=
  ∃ c ∈ s.history.revoked, c.impl = id.impl

/-- The rank of the event that is executed. -/
def now (s : Simulator σ) : ℕ :=
  s.currentTs.toNat * 2 ^ 32 + s.currentUid.toNat

/-- The number of events that have been scheduled. -/
def total (s : Simulator σ) : ℕ :=
  s.history.scheduled.length + s.history.scheduledDestroy.length + s.eventsWithContext.length

/-- What every call keeps, if `l` are the events in the scheduler. -/
structure Inv (R : σ → List Event → UInt64 → Prop) (s : Simulator σ) (l : List Event)
    (last : UInt64) : Prop where
  rep : R s.events l last
  queue : Queue l last
  last_le : last ≤ s.currentTs
  scheduled : ∀ ev ∈ l, ev ∈ s.history.scheduled
  ahead : ∀ ev ∈ l, s.now < ev.rank
  count : s.unscheduledEvents = Int32.ofNat l.length
  past : ∀ ev ∈ s.history.started, ev.rank ≤ s.now
  started : ∀ ev ∈ s.history.started, ev ∈ s.history.scheduled
  ordered : s.history.started.Pairwise fun a b => a.rank < b.rank
  all : ∀ ev ∈ s.history.scheduled, ev ∈ l ∨ ev ∈ s.history.started ∨ s.Revoked ev
  uids : s.history.scheduled.Pairwise fun a b => a.key.uid.toNat < b.key.uid.toNat
  uid_eq : s.uid.toNat = 4 + s.history.scheduled.length + s.history.scheduledDestroy.length
  uid_lt : ∀ ev ∈ s.history.scheduled, 4 ≤ ev.key.uid.toNat ∧ ev.key.uid.toNat < s.uid.toNat
  current_lt : s.currentUid.toNat < s.uid.toNat
  room : s.total < 2 ^ 32 - 4
  impl : ∀ ev ∈ s.history.scheduled, ev.impl ≠ 0
  posted : ∀ e ∈ s.eventsWithContext, e.event ≠ 0
  flag : s.eventsWithContextEmpty = true → s.eventsWithContext = []
  marks : ∀ i, s.cancelled i = true ↔ ∃ c ∈ s.history.revoked, c.impl = i
  invoked : s.history.invoked.Sublist s.history.started
  executed : ∀ ev ∈ s.history.started, ev ∈ s.history.invoked ∨ s.Revoked ev
  unmarked : ∀ c ∈ s.history.revoked, c ∉ s.history.invoked
  destroys : ∀ ev ∈ s.history.scheduledDestroy, ev.key.uid = EventId.destroy ∧ ev.impl ≠ 0
  gone : s.history.scheduledDestroy.Perm (s.destroyEvents ++ s.history.gone)

/-! ## Scheduling -/

theorem Inv.toNat_uid_succ (h : Inv R s l last) (hroom : s.total + 1 < 2 ^ 32 - 4) :
    (s.uid + 1).toNat = s.uid.toNat + 1 := by
  have huid := h.uid_eq
  have hone : (1 : UInt32).toNat = 1 := rfl
  rw [total] at hroom
  rw [UInt32.toNat_add, hone]
  omega

/-- The event that `insertEvent` makes. -/
def newEvent (s : Simulator σ) (ts : UInt64) (context : UInt32) (event : ℕ) : Event :=
  ⟨event, ts, s.uid, context⟩

/-- An event that is not in the past is put into the scheduler. -/
theorem Inv.insertEvent (h : Inv R s l last) (hS : Implements S R fun _ _ => True)
    (context : UInt32) {ts : UInt64} {event : ℕ} (hts : s.currentTs ≤ ts) (hevent : event ≠ 0)
    (hroom : s.total + 1 < 2 ^ 32 - 4) :
    ∃ s', s.insertEvent S ts context event = some (s', s.newEvent ts context event) ∧
      Inv R s' (ListScheduler.insert (s.newEvent ts context event) l) last ∧
      s'.currentTs = s.currentTs ∧ s'.eventsWithContext = s.eventsWithContext ∧
      s'.history = { s.history with
        scheduled := s.history.scheduled ++ [s.newEvent ts context event] } := by
  obtain ⟨ev, hev⟩ : ∃ ev, ev = s.newEvent ts context event := ⟨_, rfl⟩
  rw [← hev]
  have huid : ev.key.uid = s.uid := by rw [hev]; rfl
  have hallowed : Allowed l last (.insert ev) := by
    refine ⟨?_, fun x hx heq => ?_⟩
    · rw [hev]
      exact UInt64.le_trans h.last_le hts
    · have hlt := (h.uid_lt x (h.scheduled x hx)).2
      rw [heq, huid] at hlt
      exact absurd hlt (lt_irrefl _)
  obtain ⟨events, hinsert, hrep⟩ := hS.insert h.rep h.queue hallowed trivial
  have hsucc := h.toNat_uid_succ hroom
  have hmem : ∀ x, x ∈ ListScheduler.insert ev l ↔ x = ev ∨ x ∈ l := fun x => by
    rw [ListScheduler.perm_insert.mem_iff, List.mem_cons]
  have hnew : ∀ x, x ∈ s.history.scheduled ++ [ev] ↔ x ∈ s.history.scheduled ∨ x = ev := by simp
  refine ⟨{ s with
    events := events
    uid := s.uid + 1
    unscheduledEvents := s.unscheduledEvents + 1
    history := { s.history with scheduled := s.history.scheduled ++ [ev] } }, ?_, ?_, rfl, rfl, rfl⟩
  · rw [Simulator.insertEvent]
    change (S.insert s.events (s.newEvent ts context event)).bind _ = _
    rw [← hev, hinsert, hev]
    rfl
  · exact { h with
      rep := hrep
      queue := h.queue.step _ hallowed
      scheduled := fun x hx => (hnew x).2 ((hmem x).1 hx |>.symm |>.imp_left (h.scheduled x))
      ahead := fun x hx => by
        rcases (hmem x).1 hx with rfl | hx
        · have hlt := h.current_lt
          have hle := UInt64.le_iff_toNat_le.1 hts
          change s.currentTs.toNat * 2 ^ 32 + s.currentUid.toNat < x.rank
          rw [hev]
          change _ < ts.toNat * 2 ^ 32 + s.uid.toNat
          omega
        · exact h.ahead x hx
      count := by
        rw [ListScheduler.perm_insert.length_eq, List.length_cons]
        change s.unscheduledEvents + 1 = _
        rw [h.count, Int32.ofNat_add]
        rfl
      started := fun x hx => (hnew x).2 (Or.inl (h.started x hx))
      all := fun x hx => by
        rcases (hnew x).1 hx with hx | rfl
        · exact (h.all x hx).imp_left fun hin => (hmem x).2 (Or.inr hin)
        · exact Or.inl ((hmem x).2 (Or.inl rfl))
      uids := by
        refine List.pairwise_append.2 ⟨h.uids, List.pairwise_singleton _ _, fun a ha b hb => ?_⟩
        rw [List.mem_singleton.1 hb, huid]
        exact (h.uid_lt a ha).2
      uid_eq := by
        have heq := h.uid_eq
        change (s.uid + 1).toNat = 4 + (s.history.scheduled ++ [ev]).length +
          s.history.scheduledDestroy.length
        rw [hsucc, List.length_append, List.length_singleton]
        omega
      uid_lt := fun x hx => by
        change _ ∧ _ < (s.uid + 1).toNat
        have heq := h.uid_eq
        rcases (hnew x).1 hx with hx | rfl
        · have hlt := h.uid_lt x hx
          omega
        · rw [huid]
          omega
      current_lt := by
        have hlt := h.current_lt
        change s.currentUid.toNat < (s.uid + 1).toNat
        omega
      room := by
        rw [total] at hroom ⊢
        change (s.history.scheduled ++ [ev]).length + s.history.scheduledDestroy.length +
          s.eventsWithContext.length < _
        rw [List.length_append, List.length_singleton]
        omega
      impl := fun x hx => by
        rcases (hnew x).1 hx with hx | rfl
        · exact h.impl x hx
        · rw [hev]
          exact hevent }

/-- A time that is `delay` from now is not in the past. -/
theorem le_add {current : UInt64} {delay : UInt64}
    (h : current.toNat + delay.toNat < 2 ^ 64) : current ≤ current + delay := by
  rw [UInt64.le_iff_toNat_le, UInt64.toNat_add, Nat.mod_eq_of_lt h]
  exact Nat.le_add_right _ _

theorem le_toUInt64_add {current : UInt64} {delay : Int64} (hdelay : 0 ≤ delay)
    (h : current.toNat + delay.toNatClampNeg < 2 ^ 64) :
    current ≤ (delay + current.toInt64).toUInt64 := by
  rw [Int64.toUInt64_add, UInt64.toUInt64_toInt64, UInt64.add_comm]
  exact le_add (by rwa [Int64.toNat_toUInt64_of_le hdelay])

/-- Events of the second queue are put into the scheduler. -/
theorem Inv.insertEvents (hS : Implements S R fun _ _ => True) (es : List EventWithContext)
    (h : Inv R s l last) (hroom : s.total + es.length < 2 ^ 32 - 4)
    (hes : ∀ e ∈ es, e.event ≠ 0 ∧ s.currentTs.toNat + e.timestamp.toNat < 2 ^ 64) :
    ∃ s' l', es.foldlM (fun s event =>
        (s.insertEvent S (s.currentTs + event.timestamp) event.context event.event).map Prod.fst)
          s = some s' ∧
      Inv R s' l' last ∧ s'.currentTs = s.currentTs := by
  induction es generalizing s l with
  | nil => exact ⟨s, l, rfl, h, rfl⟩
  | cons e es ih =>
    obtain ⟨⟨hevent, htime⟩, hrest⟩ := List.forall_mem_cons.1 hes
    rw [List.length_cons] at hroom
    obtain ⟨s₁, heq, h₁, hts, hposted, hhistory⟩ := h.insertEvent hS e.context (le_add htime)
      hevent (by omega)
    have htotal : s₁.total = s.total + 1 := by
      rw [total, total, hposted, hhistory]
      change (s.history.scheduled ++ [_]).length + s.history.scheduledDestroy.length +
        s.eventsWithContext.length = _
      rw [List.length_append, List.length_singleton]
      omega
    obtain ⟨s', l', heq', h', hts'⟩ := ih h₁ (by omega) (by rw [hts]; exact hrest)
    refine ⟨s', l', ?_, h', hts'.trans hts⟩
    rw [List.foldlM_cons, heq]
    exact heq'

/-- `ProcessEventsWithContext` empties the second queue. -/
theorem Inv.processEventsWithContext (h : Inv R s l last) (hS : Implements S R fun _ _ => True)
    (htimes : ∀ e ∈ s.eventsWithContext, s.currentTs.toNat + e.timestamp.toNat < 2 ^ 64) :
    ∃ s' l', s.processEventsWithContext S = some s' ∧ Inv R s' l' last ∧
      s'.currentTs = s.currentTs := by
  rw [Simulator.processEventsWithContext]
  by_cases hflag : s.eventsWithContextEmpty = true
  · rw [if_pos hflag]
    exact ⟨s, l, rfl, h, rfl⟩
  · rw [if_neg hflag]
    have hroom := h.room
    rw [total] at hroom
    have hempty : Inv R { s with eventsWithContext := [], eventsWithContextEmpty := true } l last :=
      { h with
        room := by
          rw [total]
          change s.history.scheduled.length + s.history.scheduledDestroy.length + 0 < _
          omega
        posted := fun e he => absurd he List.not_mem_nil
        flag := fun _ => rfl }
    refine hempty.insertEvents hS s.eventsWithContext hroom fun e he => ?_
    exact ⟨h.posted e he, htimes e he⟩

/-- `postWithContext`. -/
theorem Inv.postWithContext (h : Inv R s l last) (hroom : s.total + 1 < 2 ^ 32 - 4)
    {context : UInt32} {delay : Int64} {event : ℕ} (hevent : event ≠ 0) :
    Inv R (s.postWithContext context delay event) l last :=
  { h with
    room := by
      rw [total] at hroom ⊢
      change s.history.scheduled.length + s.history.scheduledDestroy.length +
        (s.eventsWithContext ++ [_]).length < _
      rw [List.length_append, List.length_singleton]
      omega
    posted := fun e he => by
      rcases List.mem_append.1 he with he | he
      · exact h.posted e he
      · rw [List.mem_singleton.1 he]
        exact hevent
    flag := fun hflag => absurd hflag Bool.false_ne_true }

theorem Inv.scheduleDestroy (h : Inv R s l last) (hroom : s.total + 1 < 2 ^ 32 - 4) {event : ℕ}
    (hevent : event ≠ 0) : Inv R (s.scheduleDestroy event) l last := by
  have hsucc := h.toNat_uid_succ hroom
  have huid := h.uid_eq
  exact { h with
    uid_eq := by
      change (s.uid + 1).toNat = 4 + s.history.scheduled.length +
        (s.history.scheduledDestroy ++ [_]).length
      rw [hsucc, List.length_append, List.length_singleton]
      omega
    uid_lt := fun x hx => by
      have hlt := h.uid_lt x hx
      change _ ∧ _ < (s.uid + 1).toNat
      omega
    current_lt := by
      have hlt := h.current_lt
      change s.currentUid.toNat < (s.uid + 1).toNat
      omega
    room := by
      rw [total] at hroom ⊢
      change s.history.scheduled.length + (s.history.scheduledDestroy ++ [_]).length +
        s.eventsWithContext.length < _
      rw [List.length_append, List.length_singleton]
      omega
    destroys := fun x hx => by
      rcases List.mem_append.1 hx with hx | hx
      · exact h.destroys x hx
      · rw [List.mem_singleton.1 hx]
        exact ⟨rfl, hevent⟩
    gone := by
      refine (h.gone.append_right _).trans ?_
      change (s.destroyEvents ++ s.history.gone ++ [_]).Perm
        (s.destroyEvents ++ [_] ++ s.history.gone)
      rw [List.append_assoc, List.append_assoc]
      exact (List.perm_append_comm).append_left _ }

/-! ## Expired events -/

/-- An event in the scheduler is not expired unless it was revoked, and one that is not there is
expired. -/
theorem Inv.isExpired_iff (h : Inv R s l last) (hid : id ∈ s.history.scheduled) :
    s.isExpired id = true ↔ id ∈ s.history.started ∨ s.Revoked id := by
  have hlt := h.uid_lt id hid
  have hdestroy : id.key.uid ≠ EventId.destroy := by
    intro heq
    rw [heq] at hlt
    exact absurd hlt.1 (by decide)
  have hmark : s.cancelled id.impl = true ↔ s.Revoked id := h.marks id.impl
  have hnow : (id.key.ts < s.currentTs ∨ id.key.ts = s.currentTs ∧ id.key.uid ≤ s.currentUid) ↔
      id.rank ≤ s.now := by
    have huid := id.key.uid.toNat_lt
    have hcurrent := s.currentUid.toNat_lt
    rw [Event.rank, EventKey.rank, now, UInt64.lt_iff_toNat_lt, UInt32.le_iff_toNat_le,
      ← UInt64.toNat_inj]
    omega
  have hpast : id.rank ≤ s.now → id ∈ s.history.started ∨ s.Revoked id := by
    intro hle
    rcases h.all id hid with hin | hgone
    · exact absurd (h.ahead id hin) (Nat.not_lt.2 hle)
    · exact hgone
  rw [isExpired, if_neg hdestroy, decide_eq_true_eq, hmark]
  constructor
  · rintro (hzero | hts | huid | hrevoked)
    · exact absurd hzero (h.impl id hid)
    · exact hpast (hnow.1 (Or.inl hts))
    · exact hpast (hnow.1 (Or.inr huid))
    · exact Or.inr hrevoked
  · rintro (hstarted | hrevoked)
    · rcases hnow.2 (h.past id hstarted) with hts | huid
      · exact Or.inr (Or.inl hts)
      · exact Or.inr (Or.inr (Or.inl huid))
    · exact Or.inr (Or.inr (Or.inr hrevoked))

/-- An event for the end is expired if and only if it was revoked or is no longer there. -/
theorem Inv.isExpired_destroy_iff (h : Inv R s l last) (hid : id ∈ s.history.scheduledDestroy) :
    s.isExpired id = true ↔ s.Revoked id ∨ id ∉ s.destroyEvents := by
  obtain ⟨huid, himpl⟩ := h.destroys id hid
  have hmark : s.cancelled id.impl = true ↔ s.Revoked id := h.marks id.impl
  have hany : (s.destroyEvents.any fun i => decide (i = id)) = true ↔ id ∈ s.destroyEvents := by
    simp
  rw [isExpired, if_pos huid]
  by_cases hrevoked : s.Revoked id
  · rw [if_pos (Or.inr (hmark.2 hrevoked))]
    exact iff_of_true rfl (Or.inl hrevoked)
  · rw [if_neg fun hor => hor.elim himpl fun hm => hrevoked (hmark.1 hm), Bool.not_eq_true',
      ← Bool.not_eq_true, hany]
    exact (or_iff_right hrevoked).symm

/-- An id that a program has : an empty one, or one that was returned to it. -/
def Known (s : Simulator σ) (id : EventId) : Prop :=
  id.impl = 0 ∨ id ∈ s.history.scheduled ∨ id ∈ s.history.scheduledDestroy

theorem Inv.mem_gone (h : Inv R s l last) (hid : id ∈ s.destroyEvents) :
    id ∈ s.history.scheduledDestroy :=
  h.gone.mem_iff.2 (List.mem_append_left _ hid)

theorem Inv.uid_ne_destroy (h : Inv R s l last) (hid : id ∈ s.history.scheduled) :
    id.key.uid ≠ EventId.destroy := by
  intro heq
  have hlt := h.uid_lt id hid
  rw [heq] at hlt
  exact absurd hlt.1 (by decide)

/-- What `pending` tells. -/
theorem Inv.pending_iff (h : Inv R s l last) : s.pending id = true ↔
    id ∈ s.destroyEvents ∨ id ∈ s.history.scheduled ∧ id ∉ s.history.started := by
  rw [pending]
  by_cases huid : id.key.uid = EventId.destroy
  · rw [if_pos huid, List.contains_iff_mem]
    exact (or_iff_left fun hin => h.uid_ne_destroy hin.1 huid).symm
  · rw [if_neg huid, Bool.and_eq_true, Bool.not_eq_true', ← Bool.not_eq_true,
      List.contains_iff_mem, List.contains_iff_mem]
    exact (or_iff_right fun hin => huid (h.destroys id (h.mem_gone hin)).1).symm

/-- An event that is not expired is pending. -/
theorem Inv.pending_of_not_expired (h : Inv R s l last) (hid : s.Known id)
    (hexpired : ¬ s.isExpired id = true) : s.pending id = true := by
  rw [h.pending_iff]
  rcases hid with hzero | hid | hid
  · refine absurd ?_ hexpired
    rw [isExpired]
    split_ifs
    · rfl
    · rename_i hnot
      exact absurd (Or.inl hzero) hnot
    · exact decide_eq_true (Or.inl hzero)
  · rw [h.isExpired_iff hid, not_or] at hexpired
    exact Or.inr ⟨hid, hexpired.1⟩
  · rw [h.isExpired_destroy_iff hid, not_or, not_not] at hexpired
    exact Or.inl hexpired.2

/-- A pending event that is expired has its mark. -/
theorem Inv.revoked_of_expired (h : Inv R s l last) (hpending : s.pending id = true)
    (hexpired : s.isExpired id = true) : s.Revoked id := by
  rcases h.pending_iff.1 hpending with hin | ⟨hin, hnot⟩
  · exact ((h.isExpired_destroy_iff (h.mem_gone hin)).1 hexpired).resolve_right (not_not_intro hin)
  · exact ((h.isExpired_iff hin).1 hexpired).resolve_left hnot

/-- The record of a call of `Cancel` or `Remove`, and the mark of the event. -/
theorem Inv.mark (h : Inv R s l last) (hid : s.Known id) : Inv R { s with
    cancelled := if s.isExpired id then s.cancelled else Function.update s.cancelled id.impl true
    history := s.recordRevoked id } l last := by
  have hnotInvoked : s.pending id = true → id ∉ s.history.invoked := by
    intro hpending hin
    have hstarted := h.invoked.subset hin
    rcases h.pending_iff.1 hpending with hend | ⟨-, hnot⟩
    · exact h.uid_ne_destroy (h.started id hstarted) (h.destroys id (h.mem_gone hend)).1
    · exact hnot hstarted
  by_cases hpending : s.pending id = true
  · have hrecord : s.recordRevoked id =
        { s.history with revoked := s.history.revoked ++ [id] } := if_pos hpending
    have hnew : ∀ x, x ∈ s.history.revoked ++ [id] ↔ x ∈ s.history.revoked ∨ x = id := by simp
    have hkeep : ∀ x, s.Revoked x → ∃ c ∈ s.history.revoked ++ [id], c.impl = x.impl := by
      rintro x ⟨c, hc, himpl⟩
      exact ⟨c, (hnew c).2 (Or.inl hc), himpl⟩
    rw [hrecord]
    exact { h with
      all := fun x hx => (h.all x hx).imp_right (Or.imp_right (hkeep x))
      executed := fun x hx => (h.executed x hx).imp_right (hkeep x)
      marks := fun i => by
        have hmark := h.marks i
        have hiff : (∃ c ∈ s.history.revoked ++ [id], c.impl = i) ↔
            (∃ c ∈ s.history.revoked, c.impl = i) ∨ id.impl = i := by
          constructor
          · rintro ⟨c, hc, rfl⟩
            rcases (hnew c).1 hc with hc | rfl
            · exact Or.inl ⟨c, hc, rfl⟩
            · exact Or.inr rfl
          · rintro (⟨c, hc, rfl⟩ | rfl)
            · exact ⟨c, (hnew c).2 (Or.inl hc), rfl⟩
            · exact ⟨id, (hnew id).2 (Or.inr rfl), rfl⟩
        change (if s.isExpired id = true then s.cancelled
          else Function.update s.cancelled id.impl true) i = true ↔ _
        rw [hiff, ← hmark]
        by_cases hexpired : s.isExpired id = true
        · rw [if_pos hexpired]
          refine ⟨Or.inl, fun hor => hor.elim (fun hm => hm) ?_⟩
          rintro rfl
          exact (h.marks _).2 (h.revoked_of_expired hpending hexpired)
        · rw [if_neg hexpired]
          by_cases hi : i = id.impl
          · rw [hi, Function.update_self]
            exact iff_of_true rfl (Or.inr rfl)
          · rw [Function.update_of_ne hi]
            exact ⟨Or.inl, fun hor => hor.elim (fun hm => hm) fun heq => absurd heq.symm hi⟩
      unmarked := fun c hc => by
        rcases (hnew c).1 hc with hc | rfl
        · exact h.unmarked c hc
        · exact hnotInvoked hpending }
  · have hexpired : s.isExpired id = true := by
      by_contra hnot
      exact hpending (h.pending_of_not_expired hid hnot)
    have hrecord : s.recordRevoked id = s.history := if_neg hpending
    rw [hrecord, if_pos hexpired]
    exact h

theorem Inv.cancel (h : Inv R s l last) (hid : s.Known id) : Inv R (s.cancel id) l last := by
  have hmark := h.mark hid
  rw [Simulator.cancel]
  by_cases hexpired : s.isExpired id = true
  · rw [if_pos hexpired] at hmark
    rw [if_neg (by rw [hexpired]; exact Bool.false_ne_true)]
    exact hmark
  · rw [if_neg hexpired] at hmark
    rw [if_pos (by rw [Bool.not_eq_true', ← Bool.not_eq_true]; exact hexpired)]
    exact hmark

/-- An event that is not expired is in the scheduler. -/
theorem Inv.mem_of_not_expired (h : Inv R s l last) (hid : id ∈ s.history.scheduled)
    (hexpired : ¬ s.isExpired id = true) : id ∈ l := by
  rw [h.isExpired_iff hid] at hexpired
  exact (h.all id hid).resolve_right hexpired

theorem sub_one_ofNat {n : Int32} {k : ℕ} (h : n = Int32.ofNat (k + 1)) :
    n - 1 = Int32.ofNat k := by
  rw [h, Int32.ofNat_add]
  exact Int32.add_sub_cancel _ _

theorem Inv.remove (h : Inv R s l last) (hS : Implements S R fun _ _ => True)
    (hid : s.Known id) :
    ∃ s' l', s.remove S id = some s' ∧ Inv R s' l' last ∧ s'.currentTs = s.currentTs ∧
      s'.eventsWithContext = s.eventsWithContext := by
  rw [Simulator.remove]
  by_cases huid : id.key.uid = EventId.destroy
  · rw [if_pos huid]
    refine ⟨_, l, rfl, ?_, rfl, rfl⟩
    by_cases hin : id ∈ s.destroyEvents
    · rw [if_pos (h.pending_iff.2 (Or.inl hin))]
      exact { h with
        gone := by
          refine h.gone.trans (((List.perm_cons_erase hin).append_right _).trans ?_)
          change (id :: (s.destroyEvents.erase id ++ s.history.gone)).Perm
            (s.destroyEvents.erase id ++ (s.history.gone ++ [id]))
          rw [← List.append_assoc]
          exact (List.perm_append_singleton _ _).symm }
    · have hpending : ¬ s.pending id = true := by
        rw [h.pending_iff]
        exact fun hor => hor.elim hin fun hs => h.uid_ne_destroy hs.1 huid
      rw [if_neg hpending]
      exact { h with
        gone := by
          change s.history.scheduledDestroy.Perm (s.destroyEvents.erase id ++ s.history.gone)
          rw [List.erase_of_not_mem hin]
          exact h.gone }
  · rw [if_neg huid]
    have hmark := h.mark hid
    by_cases hexpired : s.isExpired id = true
    · rw [if_pos hexpired] at hmark ⊢
      exact ⟨_, l, rfl, hmark, rfl, rfl⟩
    · rw [if_neg hexpired] at hmark ⊢
      have hpending := h.pending_of_not_expired hid hexpired
      have hscheduled : id ∈ s.history.scheduled := by
        rcases h.pending_iff.1 hpending with hin | hin
        · exact absurd (h.destroys id (h.mem_gone hin)).1 huid
        · exact hin.1
      have hin := h.mem_of_not_expired hscheduled hexpired
      obtain ⟨events, heq, hrep⟩ := hS.remove h.rep h.queue hin trivial
      obtain ⟨-, hperm⟩ := h.queue.toSortedEvents.remove hin
      have hsub : ∀ x ∈ ListScheduler.remove id l, x ∈ l := fun x hx =>
        hperm.mem_iff.2 (List.mem_cons_of_mem _ hx)
      have hrecord : s.recordRevoked id =
          { s.history with revoked := s.history.revoked ++ [id] } := if_pos hpending
      rw [hrecord] at hmark
      refine ⟨{ s with
        events := events
        cancelled := Function.update s.cancelled id.impl true
        unscheduledEvents := s.unscheduledEvents - 1
        history := { s.history with revoked := s.history.revoked ++ [id] } },
        ListScheduler.remove id l, ?_, ?_, rfl, rfl⟩
      · rw [heq, hrecord]
        rfl
      · exact { hmark with
          rep := hrep
          queue := h.queue.step (.remove id) hin
          scheduled := fun x hx => h.scheduled x (hsub x hx)
          ahead := fun x hx => h.ahead x (hsub x hx)
          count := by
            refine sub_one_ofNat (h.count.trans ?_)
            rw [hperm.length_eq, List.length_cons]
          all := fun x hx => by
            rcases hmark.all x hx with hx | hx
            · rcases List.mem_cons.1 (hperm.mem_iff.1 hx) with rfl | hx
              · exact Or.inr (Or.inr ⟨_, List.mem_append_right _ List.mem_cons_self, rfl⟩)
              · exact Or.inl hx
            · exact Or.inr hx }

/-! ## Other schedulers -/

/-- The loop of `SetScheduler` moves all events. -/
theorem moveEvents_spec (hS : Implements S R fun _ _ => True) (fuel : ℕ) {events scheduler : σ}
    {moved : List Event} (hfuel : l.length < fuel) (hl : R events l last) (hq : Queue l last)
    (hm : R scheduler moved 0) (hqm : Queue moved 0)
    (huids : ((l ++ moved).map fun ev => ev.key.uid).Nodup) :
    ∃ scheduler' l', moveEvents S fuel events scheduler = some scheduler' ∧ R scheduler' l' 0 ∧
      Queue l' 0 ∧ l'.Perm (l ++ moved) := by
  induction fuel generalizing events scheduler l moved last with
  | zero => exact absurd hfuel (Nat.not_lt_zero _)
  | succ fuel ih =>
    rw [moveEvents, hS.isEmpty hl]
    cases l with
    | nil => exact ⟨scheduler, moved, rfl, hm, hqm, List.Perm.refl _⟩
    | cons next l =>
      obtain ⟨events', hremove, hl'⟩ := hS.removeNext hl hq trivial
      have hallowed : Allowed moved 0 (.insert next) := by
        refine ⟨UInt64.zero_le, fun x hx heq => ?_⟩
        rw [List.cons_append, List.map_cons, List.nodup_cons] at huids
        exact huids.1 (heq ▸ List.mem_map_of_mem (f := fun ev : Event => ev.key.uid)
          (List.mem_append_right l hx))
      obtain ⟨scheduler₁, hinsert, hm₁⟩ := hS.insert hm hqm hallowed trivial
      have hperm : (l ++ ListScheduler.insert next moved).Perm (next :: l ++ moved) :=
        (ListScheduler.perm_insert.append_left l).trans List.perm_middle
      obtain ⟨scheduler', l', heq, hrep, hqueue, hperm'⟩ := ih
        (by rw [List.length_cons] at hfuel; omega) hl'
        (hq.step .removeNext (List.cons_ne_nil _ _)) hm₁ (hqm.step _ hallowed)
        ((hperm.map _).nodup_iff.2 huids)
      refine ⟨scheduler', l', ?_, hrep, hqueue, hperm'.trans hperm⟩
      simp only [List.isEmpty_cons, Bool.false_eq_true, if_false, hremove, hinsert,
        Option.bind_eq_bind, Option.bind_some]
      exact heq

theorem Inv.setScheduler (h : Inv R s l last) (hS : Implements S R fun _ _ => True)
    {scheduler : σ} (hnew : R scheduler [] 0) :
    ∃ s', s.setScheduler S scheduler = some s' ∧ Inv R s' l 0 ∧ s'.currentTs = s.currentTs ∧
      s'.eventsWithContext = s.eventsWithContext := by
  have huids := h.queue.uids
  have hlen : l.length ≤ s.history.scheduled.length :=
    (List.subperm_of_subset (List.Nodup.of_map _ huids) fun x hx => h.scheduled x hx).length_le
  obtain ⟨scheduler', l', heq, hrep, hqueue, hperm⟩ := moveEvents_spec hS
    (s.history.scheduled.length + 1) (Nat.lt_succ_of_le hlen) h.rep h.queue hnew .nil
    (by rwa [List.append_nil])
  rw [List.append_nil] at hperm
  obtain rfl : l' = l := sorted_unique hperm hqueue.ordered h.queue.ordered
  refine ⟨{ s with events := scheduler' }, ?_, ?_, rfl, rfl⟩
  · rw [Simulator.setScheduler, heq]
    rfl
  · exact { h with
      rep := hrep
      queue := hqueue
      last_le := UInt64.zero_le }

/-! ## Executing an event -/

/-- The event with the least key is executed, at a time that is not before the current one. -/
theorem Inv.takeNext {next : Event} (h : Inv R s (next :: l) last)
    (hS : Implements S R fun _ _ => True) :
    ∃ s', s.takeNext S = some (next, s') ∧ Inv R s' l next.key.ts ∧
      s.currentTs ≤ s'.currentTs ∧ s'.cancelled = s.cancelled := by
  obtain ⟨events, heq, hrep⟩ := hS.removeNext h.rep h.queue trivial
  have hahead := h.ahead next List.mem_cons_self
  have hin := h.scheduled next List.mem_cons_self
  have hnext : ∀ x, x ∈ s.history.started ++ [next] ↔ x ∈ s.history.started ∨ x = next := by simp
  have hmark : s.cancelled next.impl = true ↔ s.Revoked next := h.marks next.impl
  refine ⟨{ s with
    events := events
    unscheduledEvents := s.unscheduledEvents - 1
    eventCount := s.eventCount + 1
    currentTs := next.key.ts
    currentContext := next.key.context
    currentUid := next.key.uid
    history := { s.history with
      started := s.history.started ++ [next]
      invoked := if s.cancelled next.impl then s.history.invoked
        else s.history.invoked ++ [next] } }, ?_, ?_, ?_, rfl⟩
  · rw [Simulator.takeNext, heq]
    rfl
  · exact { h with
      rep := hrep
      queue := h.queue.step .removeNext (List.cons_ne_nil _ _)
      last_le := UInt64.le_refl _
      scheduled := fun x hx => h.scheduled x (List.mem_cons_of_mem _ hx)
      ahead := fun x hx => (List.pairwise_cons.1 h.queue.ordered).1 x hx
      count := sub_one_ofNat h.count
      past := fun x hx => by
        rcases (hnext x).1 hx with hx | rfl
        · exact (h.past x hx).trans hahead.le
        · exact le_rfl
      started := fun x hx => by
        rcases (hnext x).1 hx with hx | rfl
        · exact h.started x hx
        · exact hin
      ordered := by
        refine List.pairwise_append.2 ⟨h.ordered, List.pairwise_singleton _ _, fun a ha b hb => ?_⟩
        rw [List.mem_singleton.1 hb]
        exact (h.past a ha).trans_lt hahead
      all := fun x hx => by
        rcases h.all x hx with hx | hx | hx
        · rcases List.mem_cons.1 hx with rfl | hx
          · exact Or.inr (Or.inl ((hnext _).2 (Or.inr rfl)))
          · exact Or.inl hx
        · exact Or.inr (Or.inl ((hnext x).2 (Or.inl hx)))
        · exact Or.inr (Or.inr hx)
      current_lt := (h.uid_lt next hin).2
      invoked := by
        change List.Sublist (if s.cancelled next.impl = true then _ else _) _
        split_ifs
        · exact h.invoked.trans (List.sublist_append_left _ _)
        · exact h.invoked.append (List.Sublist.refl _)
      executed := fun x hx => by
        change x ∈ (if s.cancelled next.impl = true then _ else _) ∨ s.Revoked x
        by_cases hc : s.cancelled next.impl = true
        · rw [if_pos hc]
          rcases (hnext x).1 hx with hx | rfl
          · exact h.executed x hx
          · exact Or.inr (hmark.1 hc)
        · rw [if_neg hc]
          rcases (hnext x).1 hx with hx | rfl
          · exact (h.executed x hx).imp_left (List.mem_append_left _)
          · exact Or.inl (List.mem_append_right _ List.mem_cons_self)
      unmarked := fun c hc => by
        change c ∉ (if s.cancelled next.impl = true then _ else _)
        by_cases hm : s.cancelled next.impl = true
        · rw [if_pos hm]
          exact h.unmarked c hc
        · rw [if_neg hm, List.mem_append, not_or]
          refine ⟨h.unmarked c hc, fun hmem => hm (hmark.2 ?_)⟩
          exact ⟨c, hc, congrArg Event.impl (List.mem_singleton.1 hmem)⟩ }
  · have hnow := hahead
    have huid := next.key.uid.toNat_lt
    rw [now, Event.rank, EventKey.rank] at hnow
    change s.currentTs ≤ next.key.ts
    rw [UInt64.le_iff_toNat_le]
    omega

/-! ## Calls -/

/-- What a call asks for, if absolute times have to be below `limit` : delays are not negative,
there is room for one more uid, an id is known, and a new scheduler is empty. -/
def CallOk (R : σ → List Event → UInt64 → Prop) (limit : ℕ) (s : Simulator σ) : Call σ → Prop
  | .schedule delay event => 0 ≤ delay ∧ s.currentTs.toNat + delay.toNatClampNeg < limit ∧
      event ≠ 0 ∧ s.total + 1 < 2 ^ 32 - 4
  | .scheduleWithContext _ delay event => 0 ≤ delay ∧
      s.currentTs.toNat + delay.toNatClampNeg < limit ∧ event ≠ 0 ∧ s.total + 1 < 2 ^ 32 - 4
  | .postWithContext _ delay event => 0 ≤ delay ∧ event ≠ 0 ∧ s.total + 1 < 2 ^ 32 - 4
  | .scheduleDestroy event => event ≠ 0 ∧ s.total + 1 < 2 ^ 32 - 4
  | .cancel id => s.Known id
  | .remove id => s.Known id
  | .setScheduler scheduler => R scheduler [] 0
  | .stop => True

/-- Each of some calls is right. -/
def CallsOk (S : Scheduler σ) (R : σ → List Event → UInt64 → Prop) (limit : ℕ) :
    Simulator σ → List (Call σ) → Prop
  | _, [] => True
  | s, c :: calls => CallOk R limit s c ∧
      match s.call S c with
      | none => True
      | some s => CallsOk S R limit s calls

/-- The events of other threads get times below `limit`. -/
def PostedOk (limit : ℕ) (s : Simulator σ) : Prop :=
  ∀ e ∈ s.eventsWithContext, s.currentTs.toNat + e.timestamp.toNat < limit

/-- The invariant, with the events in the scheduler left open. -/
def Sound (R : σ → List Event → UInt64 → Prop) (s : Simulator σ) : Prop :=
  ∃ l last, Inv R s l last

/-- Every call keeps the invariant, and the time. -/
theorem Inv.call (h : Inv R s l last) (hS : Implements S R fun _ _ => True) {c : Call σ}
    (hc : CallOk R (2 ^ 64) s c) :
    ∃ s', s.call S c = some s' ∧ Sound R s' ∧ s'.currentTs = s.currentTs := by
  cases c with
  | schedule delay event =>
    obtain ⟨hdelay, htime, hevent, hroom⟩ := hc
    obtain ⟨s', heq, h', hts, -, -⟩ := h.insertEvent hS s.currentContext
      (le_toUInt64_add hdelay htime) hevent hroom
    exact ⟨s', congrArg (Option.map Prod.fst) heq, ⟨_, _, h'⟩, hts⟩
  | scheduleWithContext context delay event =>
    obtain ⟨hdelay, htime, hevent, hroom⟩ := hc
    obtain ⟨s', heq, h', hts, -, -⟩ := h.insertEvent hS context
      (le_toUInt64_add hdelay htime) hevent hroom
    exact ⟨s', congrArg (Option.map Prod.fst) heq, ⟨_, _, h'⟩, hts⟩
  | postWithContext context delay event =>
    exact ⟨_, rfl, ⟨_, _, h.postWithContext hc.2.2 hc.2.1⟩, rfl⟩
  | scheduleDestroy event => exact ⟨_, rfl, ⟨_, _, h.scheduleDestroy hc.2 hc.1⟩, rfl⟩
  | cancel id =>
    refine ⟨_, rfl, ⟨_, _, h.cancel hc⟩, ?_⟩
    rw [Simulator.cancel]
    split_ifs <;> rfl
  | remove id =>
    obtain ⟨s', l', heq, h', hts, -⟩ := h.remove hS hc
    exact ⟨s', heq, ⟨l', last, h'⟩, hts⟩
  | setScheduler scheduler =>
    obtain ⟨s', heq, h', hts, -⟩ := h.setScheduler hS hc
    exact ⟨s', heq, ⟨l, 0, h'⟩, hts⟩
  | stop => exact ⟨_, rfl, ⟨l, last, { h with }⟩, rfl⟩

/-- So do the calls of an event. -/
theorem Sound.callAll (hS : Implements S R fun _ _ => True) {calls : List (Call σ)}
    (h : Sound R s) (hcalls : CallsOk S R (2 ^ 64) s calls) :
    ∃ s', s.callAll S calls = some s' ∧ Sound R s' ∧ s'.currentTs = s.currentTs := by
  induction calls generalizing s with
  | nil => exact ⟨s, rfl, h, rfl⟩
  | cons c calls ih =>
    obtain ⟨l, last, h⟩ := h
    obtain ⟨hc, hrest⟩ := hcalls
    obtain ⟨s₁, heq, h₁, hts⟩ := h.call hS hc
    rw [heq] at hrest
    obtain ⟨s', heq', h', hts'⟩ := ih h₁ hrest
    refine ⟨s', ?_, h', hts'.trans hts⟩
    rw [Simulator.callAll, List.foldlM_cons, heq]
    exact heq'

/-! ## Steps -/

/-- What the calls of an event ask for, and the events of other threads that come behind them. -/
def EventOk (S : Scheduler σ) (R : σ → List Event → UInt64 → Prop) (limit : ℕ)
    (calls : List (Call σ)) : Event × Simulator σ → Prop
  | (next, s) => if s.cancelled next.impl then PostedOk limit s
      else CallsOk S R limit s calls ∧ ∀ s', s.callAll S calls = some s' → PostedOk limit s'

/-- What a step asks for. -/
def StepOk (S : Scheduler σ) (R : σ → List Event → UInt64 → Prop) (limit : ℕ) (s : Simulator σ) :
    Step σ → Prop
  | .call c => CallOk R limit s c
  | .beginRun => PostedOk limit s
  | .round calls => !S.isEmpty s.events && !s.stop → ∀ r, s.takeNext S = some r →
      EventOk S R limit calls r
  | .destroyNext calls => ∀ ev destroyEvents, s.destroyEvents = ev :: destroyEvents →
      s.cancelled ev.impl = false → CallsOk S R limit { s with
        destroyEvents := destroyEvents
        history := { s.history with gone := s.history.gone ++ [ev] } } calls

/-- What a run asks for. -/
def RunOk (S : Scheduler σ) (R : σ → List Event → UInt64 → Prop) (limit : ℕ) :
    Simulator σ → List (Step σ) → Prop
  | _, [] => True
  | s, a :: steps => StepOk S R limit s a ∧
      match s.step S a with
      | none => True
      | some s => RunOk S R limit s steps

theorem Sound.processEventsWithContext (h : Sound R s) (hS : Implements S R fun _ _ => True)
    (htimes : PostedOk (2 ^ 64) s) : ∃ s', s.processEventsWithContext S = some s' ∧ Sound R s' ∧
      s'.currentTs = s.currentTs := by
  obtain ⟨l, last, h⟩ := h
  obtain ⟨s', l', heq, h', hts⟩ := h.processEventsWithContext hS htimes
  exact ⟨s', heq, ⟨l', last, h'⟩, hts⟩

/-- An event is executed. -/
theorem Sound.processOneEvent (h : Sound R s) (hS : Implements S R fun _ _ => True)
    {calls : List (Call σ)} (hevents : S.isEmpty s.events = false)
    (hok : ∀ r, s.takeNext S = some r → EventOk S R (2 ^ 64) calls r) :
    ∃ s', s.processOneEvent S calls = some s' ∧ Sound R s' ∧ s.currentTs ≤ s'.currentTs := by
  obtain ⟨l, last, h⟩ := h
  rw [hS.isEmpty h.rep] at hevents
  cases l with
  | nil => exact absurd hevents.symm Bool.false_ne_true
  | cons next l =>
    obtain ⟨s₁, htake, h₁, hts₁, hcancelled⟩ := h.takeNext hS
    have hevent := hok _ htake
    rw [EventOk] at hevent
    rw [Simulator.processOneEvent, htake]
    simp only [Option.bind_eq_bind, Option.bind_some]
    by_cases hc : s₁.cancelled next.impl = true
    · rw [if_pos hc] at hevent ⊢
      obtain ⟨s', heq, h', hts⟩ := Sound.processEventsWithContext ⟨l, _, h₁⟩ hS hevent
      exact ⟨s', heq, h', hts ▸ hts₁⟩
    · rw [if_neg hc] at hevent ⊢
      obtain ⟨hcalls, hposted⟩ := hevent
      obtain ⟨s₂, heq₂, h₂, hts₂⟩ := Sound.callAll hS ⟨l, _, h₁⟩ hcalls
      obtain ⟨s', heq, h', hts⟩ := h₂.processEventsWithContext hS (hposted s₂ heq₂)
      refine ⟨s', ?_, h', (hts.trans hts₂) ▸ hts₁⟩
      rw [heq₂]
      exact heq

/-- Every step keeps the invariant, and the time does not decrease. -/
theorem Sound.step (h : Sound R s) (hS : Implements S R fun _ _ => True) {a : Step σ}
    (ha : StepOk S R (2 ^ 64) s a) :
    ∃ s', s.step S a = some s' ∧ Sound R s' ∧ s.currentTs ≤ s'.currentTs := by
  cases a with
  | call c =>
    obtain ⟨l, last, h⟩ := h
    obtain ⟨s', heq, h', hts⟩ := h.call hS ha
    exact ⟨s', heq, h', hts ▸ UInt64.le_refl _⟩
  | beginRun =>
    obtain ⟨s₁, heq, ⟨l, last, h₁⟩, hts⟩ := h.processEventsWithContext hS ha
    refine ⟨{ s₁ with stop := false }, ?_, ⟨l, last, { h₁ with }⟩, hts ▸ UInt64.le_refl _⟩
    rw [Simulator.step, Simulator.beginRun, heq]
    rfl
  | round calls =>
    rw [Simulator.step, Simulator.round]
    by_cases hgo : (!S.isEmpty s.events && !s.stop) = true
    · rw [if_pos hgo]
      have hevents : S.isEmpty s.events = false := by
        rw [Bool.and_eq_true, Bool.not_eq_true'] at hgo
        exact hgo.1
      exact h.processOneEvent hS hevents (ha hgo)
    · rw [if_neg hgo]
      exact ⟨s, rfl, h, UInt64.le_refl _⟩
  | destroyNext calls =>
    obtain ⟨l, last, h⟩ := h
    rw [Simulator.step, Simulator.destroyNext]
    cases hevents : s.destroyEvents with
    | nil => exact ⟨s, rfl, ⟨l, last, h⟩, UInt64.le_refl _⟩
    | cons ev destroyEvents =>
      have hgone : Inv R { s with
          destroyEvents := destroyEvents
          history := { s.history with gone := s.history.gone ++ [ev] } } l last :=
        { h with
          gone := by
            have hperm := h.gone
            rw [hevents] at hperm
            refine hperm.trans ?_
            change (ev :: (destroyEvents ++ s.history.gone)).Perm
              (destroyEvents ++ (s.history.gone ++ [ev]))
            rw [← List.append_assoc]
            exact (List.perm_append_singleton _ _).symm }
      by_cases hc : s.cancelled ev.impl = true
      · simp only [hc, if_true]
        exact ⟨_, rfl, ⟨l, last, hgone⟩, UInt64.le_refl _⟩
      · have hcalls := ha ev destroyEvents hevents (by rwa [Bool.not_eq_true] at hc)
        obtain ⟨s', heq, h', hts⟩ := Sound.callAll hS ⟨l, last, hgone⟩ hcalls
        simp only [hc]
        exact ⟨s', heq, h', hts ▸ UInt64.le_refl _⟩

/-- So does every run. -/
theorem Sound.runSteps (hS : Implements S R fun _ _ => True) {steps : List (Step σ)}
    (h : Sound R s) (hsteps : RunOk S R (2 ^ 64) s steps) :
    ∃ s', s.runSteps S steps = some s' ∧ Sound R s' ∧ s.currentTs ≤ s'.currentTs := by
  induction steps generalizing s with
  | nil => exact ⟨s, rfl, h, UInt64.le_refl _⟩
  | cons a steps ih =>
    obtain ⟨ha, hrest⟩ := hsteps
    obtain ⟨s₁, heq, h₁, hts⟩ := h.step hS ha
    rw [heq] at hrest
    obtain ⟨s', heq', h', hts'⟩ := ih h₁ hrest
    refine ⟨s', ?_, h', UInt64.le_trans hts hts'⟩
    rw [Simulator.runSteps, List.foldlM_cons, heq]
    exact heq'

end Ns3Pedca.Simulator
