import Mathlib

/-!
# Schedulers of events

A scheduler keeps events and gives back the one with the least key. `ListScheduler` is the
simplest one : it keeps them in a sorted list.

A scheduler implements the list if a relation between its states and sorted lists is kept by
every operation (`Implements`). Then it returns the same events as the list, over every run of
operations that the list allows (`Implements.outputs_eq`), and these are the events with the
least key (`right_outputs`).
-/

namespace Ns3Pedca

/-- `EventKey`. -/
structure EventKey where
  ts : UInt64
  uid : UInt32
  context : UInt32
  deriving DecidableEq

/-- `Scheduler::Event`. The address of an `EventImpl` is a number, and zero for `nullptr`. -/
structure Event where
  impl : ℕ
  key : EventKey
  deriving DecidableEq

instance : Inhabited Event :=
  ⟨⟨0, 0, 0, 0⟩⟩

/-- `operator<` of keys. -/
def EventKey.lt (a b : EventKey) : Bool :=
  a.ts < b.ts ∨ a.ts = b.ts ∧ a.uid < b.uid

/-- A number that is less for a lesser key. -/
def EventKey.rank (a : EventKey) : ℕ :=
  a.ts.toNat * 2 ^ 32 + a.uid.toNat

/-- The rank of the key. -/
def Event.rank (ev : Event) : ℕ :=
  ev.key.rank

theorem EventKey.lt_iff {a b : EventKey} : a.lt b = true ↔ a.rank < b.rank := by
  have ha := a.uid.toNat_lt
  have hb := b.uid.toNat_lt
  rw [lt, decide_eq_true_eq, rank, rank, UInt64.lt_iff_toNat_lt, UInt32.lt_iff_toNat_lt,
    ← UInt64.toNat_inj]
  omega

theorem EventKey.rank_ne {a b : EventKey} (h : a.uid ≠ b.uid) : a.rank ≠ b.rank := by
  have ha := a.uid.toNat_lt
  have hb := b.uid.toNat_lt
  rw [Ne, ← UInt32.toNat_inj] at h
  rw [rank, rank]
  omega

theorem EventKey.ts_le {a b : EventKey} (h : a.rank ≤ b.rank) : a.ts ≤ b.ts := by
  have ha := a.uid.toNat_lt
  have hb := b.uid.toNat_lt
  rw [rank, rank] at h
  rw [UInt64.le_iff_toNat_le]
  omega

/-! ## The operations of a scheduler -/

/-- The virtual functions of a `Scheduler`. A function returns `none` where the program reads
what is not there. -/
structure Scheduler (σ : Type) where
  insert : σ → Event → Option σ
  isEmpty : σ → Bool
  peekNext : σ → Option Event
  removeNext : σ → Option (Event × σ)
  remove : σ → Event → Option σ

/-- A call of a function of a scheduler. -/
inductive SchedulerOp
  | insert (ev : Event)
  | isEmpty
  | peekNext
  | removeNext
  | remove (ev : Event)

/-- What a call returns. -/
inductive Returned
  | nothing
  | empty (b : Bool)
  | event (ev : Event)
  deriving DecidableEq

namespace Scheduler

variable {σ : Type}

/-- What a call returns, and the state after it. -/
def call (S : Scheduler σ) (s : σ) : SchedulerOp → Option (Returned × σ)
  | .insert ev => (S.insert s ev).map fun s => (.nothing, s)
  | .isEmpty => some (.empty (S.isEmpty s), s)
  | .peekNext => (S.peekNext s).map fun ev => (.event ev, s)
  | .removeNext => (S.removeNext s).map fun r => (.event r.1, r.2)
  | .remove ev => (S.remove s ev).map fun s => (.nothing, s)

/-- What the calls of a run return. -/
def outputs (S : Scheduler σ) : σ → List SchedulerOp → Option (List Returned)
  | _, [] => some []
  | s, op :: ops => do
    let (returned, s) ← S.call s op
    let rest ← S.outputs s ops
    return returned :: rest

end Scheduler

/-! ## The sorted list -/

namespace ListScheduler

/-- `Insert`. -/
def insert (ev : Event) : List Event → List Event
  | [] => [ev]
  | i :: events => if ev.key.lt i.key then ev :: i :: events else i :: insert ev events

/-- `Remove`. -/
def remove (ev : Event) (events : List Event) : List Event :=
  events.eraseP fun i => i.key.uid = ev.key.uid

end ListScheduler

/-- `ListScheduler`, on `m_events`. -/
def listScheduler : Scheduler (List Event) where
  insert events ev := some (ListScheduler.insert ev events)
  isEmpty events := events.isEmpty
  peekNext events := events.head?
  removeNext
    | [] => none
    | next :: events => some (next, events)
  remove events ev := some (ListScheduler.remove ev events)

/-! ## Runs that are allowed -/

/-- A call that the queue `l` allows, if `last` is the timestamp of the last event that was
returned by `RemoveNext` : an event that is inserted is not before it and has a uid of its own,
an event that is removed is in the queue, and there is an event to be returned. -/
def Allowed (l : List Event) (last : UInt64) : SchedulerOp → Prop
  | .insert ev => last ≤ ev.key.ts ∧ ∀ x ∈ l, x.key.uid ≠ ev.key.uid
  | .isEmpty => True
  | .peekNext => l ≠ []
  | .removeNext => l ≠ []
  | .remove ev => ev ∈ l

/-- The sorted list after a call, and the timestamp of the last event that was returned. -/
def listStep (s : List Event × UInt64) : SchedulerOp → List Event × UInt64
  | .insert ev => (ListScheduler.insert ev s.1, s.2)
  | .isEmpty => s
  | .peekNext => s
  | .removeNext =>
    match s.1 with
    | [] => s
    | next :: l => (l, next.key.ts)
  | .remove ev => (ListScheduler.remove ev s.1, s.2)

/-- A run that the list allows. -/
def AllowedRun : List Event × UInt64 → List SchedulerOp → Prop
  | _, [] => True
  | s, op :: ops => Allowed s.1 s.2 op ∧ AllowedRun (listStep s op) ops

instance Allowed.decidable (l : List Event) (last : UInt64) :
    ∀ op, Decidable (Allowed l last op)
  | .insert ev => inferInstanceAs (Decidable (last ≤ ev.key.ts ∧ ∀ x ∈ l, x.key.uid ≠ ev.key.uid))
  | .isEmpty => inferInstanceAs (Decidable True)
  | .peekNext => inferInstanceAs (Decidable (l ≠ []))
  | .removeNext => inferInstanceAs (Decidable (l ≠ []))
  | .remove ev => inferInstanceAs (Decidable (ev ∈ l))

instance AllowedRun.decidable :
    ∀ (s : List Event × UInt64) (ops : List SchedulerOp), Decidable (AllowedRun s ops)
  | _, [] => inferInstanceAs (Decidable True)
  | s, op :: ops =>
    have := AllowedRun.decidable (listStep s op) ops
    inferInstanceAs (Decidable (Allowed s.1 s.2 op ∧ AllowedRun (listStep s op) ops))

/-- The events are in the order of their keys, with different uids. -/
structure SortedEvents (l : List Event) : Prop where
  ordered : l.Pairwise fun a b => a.rank < b.rank
  uids : (l.map fun ev => ev.key.uid).Nodup

variable {l : List Event} {ev x : Event} {last : UInt64}

/-- Two lists in the order of the keys with the same events are the same. -/
theorem sorted_unique {l' : List Event} (hperm : l.Perm l')
    (hl : l.Pairwise fun a b => a.rank < b.rank) (hl' : l'.Pairwise fun a b => a.rank < b.rank) :
    l = l' :=
  List.Perm.eq_of_pairwise (fun _ _ _ _ hab hba => absurd (hab.trans hba) (lt_irrefl _)) hl hl'
    hperm

theorem ListScheduler.perm_insert : (ListScheduler.insert ev l).Perm (ev :: l) := by
  induction l with
  | nil => exact List.Perm.refl _
  | cons i l ih =>
    rw [ListScheduler.insert]
    split_ifs
    · exact List.Perm.refl _
    · exact (ih.cons i).trans (List.Perm.swap _ _ _)

theorem SortedEvents.nil : SortedEvents [] :=
  ⟨List.Pairwise.nil, List.nodup_nil⟩

theorem SortedEvents.insert (h : SortedEvents l) (hev : ∀ x ∈ l, x.key.uid ≠ ev.key.uid) :
    SortedEvents (ListScheduler.insert ev l) := by
  refine ⟨?_, ?_⟩
  · have hordered := h.ordered
    clear h
    induction l with
    | nil => exact List.pairwise_singleton _ _
    | cons i l ih =>
      obtain ⟨hi, hl⟩ := List.pairwise_cons.1 hordered
      obtain ⟨hne, hall⟩ := List.forall_mem_cons.1 hev
      rw [ListScheduler.insert]
      by_cases hlt : ev.key.lt i.key = true
      · rw [if_pos hlt]
        have hrank : ev.rank < i.rank := EventKey.lt_iff.1 hlt
        refine List.pairwise_cons.2 ⟨List.forall_mem_cons.2 ⟨hrank, fun x hx => ?_⟩, hordered⟩
        exact hrank.trans (hi x hx)
      · rw [if_neg hlt]
        have hrank : i.rank < ev.rank := lt_of_le_of_ne
          (Nat.not_lt.1 fun hn => hlt (EventKey.lt_iff.2 hn)) (EventKey.rank_ne hne)
        refine List.pairwise_cons.2 ⟨fun x hx => ?_, ih hall hl⟩
        rcases List.mem_cons.1 (ListScheduler.perm_insert.mem_iff.1 hx) with rfl | hx
        · exact hrank
        · exact hi x hx
  · rw [(ListScheduler.perm_insert.map _).nodup_iff, List.map_cons, List.nodup_cons]
    refine ⟨fun hmem => ?_, h.uids⟩
    obtain ⟨x, hx, heq⟩ := List.mem_map.1 hmem
    exact hev x hx heq

/-- With different uids, an event is found by its uid. -/
theorem eraseP_uid (huids : (l.map fun ev => ev.key.uid).Nodup) (hev : ev ∈ l) :
    (l.eraseP fun i => i.key.uid = ev.key.uid) = l.erase ev := by
  induction l with
  | nil => exact absurd hev List.not_mem_nil
  | cons i l ih =>
    rw [List.map_cons, List.nodup_cons] at huids
    obtain ⟨hi, hl⟩ := huids
    rcases List.mem_cons.1 hev with rfl | hmem
    · simp
    · have hne : i.key.uid ≠ ev.key.uid := fun heq =>
        hi (heq ▸ List.mem_map_of_mem (f := fun ev : Event => ev.key.uid) hmem)
      have hnei : i ≠ ev := fun heq => hne (heq ▸ rfl)
      rw [List.eraseP_cons_of_neg (by simpa using hne), ih hl hmem,
        List.erase_cons_tail (by simpa using hnei)]

theorem SortedEvents.remove (h : SortedEvents l) (hev : ev ∈ l) :
    SortedEvents (ListScheduler.remove ev l) ∧
      l.Perm (ev :: ListScheduler.remove ev l) := by
  rw [ListScheduler.remove, eraseP_uid h.uids hev]
  refine ⟨⟨h.ordered.sublist List.erase_sublist, ?_⟩, List.perm_cons_erase hev⟩
  exact h.uids.sublist (List.erase_sublist.map _)

theorem SortedEvents.tail (h : SortedEvents (x :: l)) : SortedEvents l :=
  ⟨(List.pairwise_cons.1 h.ordered).2, (List.nodup_cons.1 h.uids).2⟩

/-- The first event has the least key. -/
theorem SortedEvents.head_le (h : SortedEvents (x :: l)) (hev : ev ∈ x :: l) :
    x.rank ≤ ev.rank := by
  rcases List.mem_cons.1 hev with rfl | hev
  · exact le_rfl
  · exact ((List.pairwise_cons.1 h.ordered).1 ev hev).le

/-! ## Implementations of the list -/

/-- A queue of events, none of them before the last one that was returned. -/
structure Queue (l : List Event) (last : UInt64) : Prop extends SortedEvents l where
  after : ∀ x ∈ l, last ≤ x.key.ts

theorem Queue.nil : Queue [] last :=
  ⟨.nil, fun _ hx => absurd hx List.not_mem_nil⟩

/-- A call keeps the queue. -/
theorem Queue.step (h : Queue l last) (op : SchedulerOp) (hop : Allowed l last op) :
    Queue (listStep (l, last) op).1 (listStep (l, last) op).2 := by
  cases op with
  | insert ev =>
    refine ⟨h.insert hop.2, fun x hx => ?_⟩
    rcases List.mem_cons.1 (ListScheduler.perm_insert.mem_iff.1 hx) with rfl | hx
    · exact hop.1
    · exact h.after x hx
  | isEmpty => exact h
  | peekNext => exact h
  | removeNext =>
    cases l with
    | nil => exact h
    | cons next l =>
      exact ⟨h.tail, fun x hx => EventKey.ts_le (h.head_le (List.mem_cons_of_mem _ hx))⟩
  | remove ev =>
    obtain ⟨hsorted, hperm⟩ := h.remove hop
    exact ⟨hsorted, fun x hx => h.after x (hperm.mem_iff.2 (List.mem_cons_of_mem _ hx))⟩

/-- A scheduler does what the list does, if its states are related to lists by `R` and every call
satisfies `ok`. -/
structure Implements {σ : Type} (S : Scheduler σ) (R : σ → List Event → UInt64 → Prop)
    (ok : σ → SchedulerOp → Prop) : Prop where
  insert : ∀ {s l last ev}, R s l last → Queue l last → Allowed l last (.insert ev) →
    ok s (.insert ev) → ∃ s', S.insert s ev = some s' ∧ R s' (ListScheduler.insert ev l) last
  isEmpty : ∀ {s l last}, R s l last → S.isEmpty s = l.isEmpty
  peekNext : ∀ {s next l last}, R s (next :: l) last → Queue (next :: l) last → ok s .peekNext →
    S.peekNext s = some next
  removeNext : ∀ {s next l last}, R s (next :: l) last → Queue (next :: l) last →
    ok s .removeNext → ∃ s', S.removeNext s = some (next, s') ∧ R s' l next.key.ts
  remove : ∀ {s l last ev}, R s l last → Queue l last → ev ∈ l → ok s (.remove ev) →
    ∃ s', S.remove s ev = some s' ∧ R s' (ListScheduler.remove ev l) last

/-- The list does what it does. -/
theorem ListScheduler.implements : Implements listScheduler (fun s l _ => s = l)
    fun _ _ => True where
  insert hs _ _ _ := ⟨_, rfl, congrArg _ hs⟩
  isEmpty hs := congrArg _ hs
  peekNext hs _ _ := congrArg List.head? hs
  removeNext hs _ _ := by
    subst hs
    exact ⟨_, rfl, rfl⟩
  remove hs _ _ _ := ⟨_, rfl, congrArg _ hs⟩

/-- Every call of a run satisfies `ok`. -/
def Scheduler.OkRun {σ : Type} (S : Scheduler σ) (ok : σ → SchedulerOp → Prop) :
    σ → List SchedulerOp → Prop
  | _, [] => True
  | s, op :: ops => ok s op ∧
      match S.call s op with
      | none => True
      | some (_, s) => S.OkRun ok s ops

section Runs

variable {σ : Type} {S : Scheduler σ} {R : σ → List Event → UInt64 → Prop}
  {ok : σ → SchedulerOp → Prop} {s : σ} {op : SchedulerOp} {ops : List SchedulerOp}

/-- A call returns what it returns of the list. -/
theorem Implements.call_eq (h : Implements S R ok) (hs : R s l last) (hl : Queue l last)
    (hop : Allowed l last op) (hok : ok s op) : ∃ returned s',
      S.call s op = some (returned, s') ∧
      listScheduler.call l op = some (returned, (listStep (l, last) op).1) ∧
      R s' (listStep (l, last) op).1 (listStep (l, last) op).2 := by
  cases op with
  | insert ev =>
    obtain ⟨s', heq, hR⟩ := h.insert hs hl hop hok
    exact ⟨.nothing, s', by rw [Scheduler.call, heq]; rfl, rfl, hR⟩
  | isEmpty => exact ⟨.empty l.isEmpty, s, by rw [Scheduler.call, h.isEmpty hs], rfl, hs⟩
  | peekNext =>
    obtain ⟨next, l, rfl⟩ := List.exists_cons_of_ne_nil hop
    exact ⟨.event next, s, by rw [Scheduler.call, h.peekNext hs hl hok]; rfl, rfl, hs⟩
  | removeNext =>
    obtain ⟨next, l, rfl⟩ := List.exists_cons_of_ne_nil hop
    obtain ⟨s', heq, hR⟩ := h.removeNext hs hl hok
    exact ⟨.event next, s', by rw [Scheduler.call, heq]; rfl, rfl, hR⟩
  | remove ev =>
    obtain ⟨s', heq, hR⟩ := h.remove hs hl hop hok
    exact ⟨.nothing, s', by rw [Scheduler.call, heq]; rfl, rfl, hR⟩

/-- Over a run that the list allows, a scheduler returns what the list returns. -/
theorem Implements.outputs_eq (h : Implements S R ok) (hs : R s l last) (hl : Queue l last)
    (hops : AllowedRun (l, last) ops) (hok : S.OkRun ok s ops) :
    S.outputs s ops = listScheduler.outputs l ops := by
  induction ops generalizing s l last with
  | nil => rfl
  | cons op ops ih =>
    obtain ⟨hop, hops⟩ := hops
    obtain ⟨hokop, hok⟩ := hok
    obtain ⟨returned, s', heq, hlist, hR⟩ := h.call_eq hs hl hop hokop
    rw [heq] at hok
    rw [Scheduler.outputs, Scheduler.outputs, heq, hlist]
    simp only [Option.bind_eq_bind, Option.bind_some]
    rw [ih hR (hl.step _ hop) hops hok]

/-- What the calls of a run should return, if `m` are the events in the queue : the events with
the least key, each one once. -/
def Right : Multiset Event → List SchedulerOp → List Returned → Prop
  | _, [], outs => outs = []
  | m, .insert ev :: ops, outs => ∃ rest, outs = .nothing :: rest ∧ Right (ev ::ₘ m) ops rest
  | m, .isEmpty :: ops, outs => ∃ b rest, outs = .empty b :: rest ∧ (b = true ↔ m = 0) ∧
      Right m ops rest
  | m, .peekNext :: ops, outs => ∃ next rest, outs = .event next :: rest ∧ next ∈ m ∧
      (∀ x ∈ m, x.key.lt next.key = false) ∧ Right m ops rest
  | m, .removeNext :: ops, outs => ∃ next rest, outs = .event next :: rest ∧ next ∈ m ∧
      (∀ x ∈ m, x.key.lt next.key = false) ∧ Right (m.erase next) ops rest
  | m, .remove ev :: ops, outs => ∃ rest, outs = .nothing :: rest ∧ Right (m.erase ev) ops rest

theorem SortedEvents.least (h : SortedEvents (x :: l)) :
    x ∈ ((x :: l : List Event) : Multiset Event) ∧
      ∀ ev ∈ ((x :: l : List Event) : Multiset Event), ev.key.lt x.key = false := by
  refine ⟨Multiset.mem_coe.2 List.mem_cons_self, fun ev hev => ?_⟩
  rw [← Bool.not_eq_true, EventKey.lt_iff]
  exact Nat.not_lt.2 (h.head_le (Multiset.mem_coe.1 hev))

theorem Scheduler.outputs_cons {returned : Returned} {s' : σ} {outs : List Returned}
    (h : S.call s op = some (returned, s')) (houts : S.outputs s' ops = some outs) :
    S.outputs s (op :: ops) = some (returned :: outs) := by
  rw [Scheduler.outputs, h]
  simp only [Option.bind_eq_bind, Option.bind_some, houts]
  rfl

/-- The list returns the events with the least key. -/
theorem right_outputs (hl : Queue l last) (hops : AllowedRun (l, last) ops) :
    ∃ outs, listScheduler.outputs l ops = some outs ∧ Right (l : Multiset Event) ops outs := by
  induction ops generalizing l last with
  | nil => exact ⟨[], rfl, rfl⟩
  | cons op ops ih =>
    obtain ⟨hop, hops⟩ := hops
    obtain ⟨outs, houts, hright⟩ := ih (hl.step _ hop) hops
    cases op with
    | insert ev =>
      refine ⟨.nothing :: outs, Scheduler.outputs_cons rfl houts, outs, rfl, ?_⟩
      rw [Multiset.cons_coe, ← Multiset.coe_eq_coe.2 ListScheduler.perm_insert]
      exact hright
    | isEmpty =>
      refine ⟨.empty l.isEmpty :: outs, Scheduler.outputs_cons rfl houts, _, outs, rfl, ?_, hright⟩
      rw [List.isEmpty_iff, Multiset.coe_eq_zero]
    | peekNext =>
      obtain ⟨next, l, rfl⟩ := List.exists_cons_of_ne_nil hop
      obtain ⟨hmem, hleast⟩ := hl.least
      exact ⟨.event next :: outs, Scheduler.outputs_cons rfl houts, next, outs, rfl, hmem, hleast,
        hright⟩
    | removeNext =>
      obtain ⟨next, l, rfl⟩ := List.exists_cons_of_ne_nil hop
      obtain ⟨hmem, hleast⟩ := hl.least
      refine ⟨.event next :: outs, Scheduler.outputs_cons rfl houts, next, outs, rfl, hmem, hleast,
        ?_⟩
      rw [Multiset.coe_erase, List.erase_cons_head]
      exact hright
    | remove ev =>
      refine ⟨.nothing :: outs, Scheduler.outputs_cons rfl houts, outs, rfl, ?_⟩
      rw [Multiset.coe_erase, ← eraseP_uid hl.uids hop]
      exact hright

end Runs

end Ns3Pedca
