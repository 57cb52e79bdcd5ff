import Ns3Pedca.Simulator.SimulatorRuns

/-!
# The order of events

In every run of the simulator, events are invoked in the order of their times, those of one time
in the order in which they were scheduled, each one once unless it was revoked, and an event is
expired if and only if it was executed or revoked (`executes`). Absolute times have to stay below
2 ^ 64, and the number of events in the scheduler is counted as an `int` : otherwise the time
goes back, and the count is negative (`not_executes`).
-/

namespace Ns3Pedca.Simulator

variable {σ : Type} {S : Scheduler σ} {R : σ → List Event → UInt64 → Prop} {s s' : Simulator σ}
  {l : List Event} {last : UInt64} {ev id a b : Event}

/-- What holds in every state of a run. -/
structure Executes (S : Scheduler σ) (R : σ → List Event → UInt64 → Prop) (s : Simulator σ) :
    Prop where
  order : s.history.invoked.Pairwise fun a b =>
    a.key.ts < b.key.ts ∨ a.key.ts = b.key.ts ∧ [a, b].Sublist s.history.scheduled
  once : s.history.invoked.Nodup
  scheduled : ∀ ev ∈ s.history.invoked, ev ∈ s.history.scheduled
  unrevoked : ∀ id ∈ s.history.revoked, id ∉ s.history.invoked
  held : ∃ l last, R s.events l last ∧ s.unscheduledEvents = Int32.ofNat l.length ∧
    ∀ ev ∈ s.history.scheduled, ev ∈ l ∨ ev ∈ s.history.invoked ∨ s.Revoked ev
  ended : S.isEmpty s.events = true →
    ∀ ev ∈ s.history.scheduled, ev ∈ s.history.invoked ∨ s.Revoked ev
  expired : ∀ id ∈ s.history.scheduled, s.isExpired id = true ↔
    id ∈ s.history.started ∨ s.Revoked id
  expiredDestroy : ∀ id ∈ s.history.scheduledDestroy, s.isExpired id = true ↔
    s.Revoked id ∨ s.history.scheduledDestroy.count id = s.history.gone.count id

/-- Of two events the one with the lower uid was scheduled first. -/
theorem sublist_of_uids {es : List Event}
    (h : es.Pairwise fun a b => a.key.uid.toNat < b.key.uid.toNat) (ha : a ∈ es) (hb : b ∈ es)
    (hlt : a.key.uid.toNat < b.key.uid.toNat) : [a, b].Sublist es := by
  induction es with
  | nil => exact absurd ha List.not_mem_nil
  | cons x es ih =>
    obtain ⟨hx, hes⟩ := List.pairwise_cons.1 h
    rcases List.mem_cons.1 ha with rfl | ha'
    · rcases List.mem_cons.1 hb with rfl | hb'
      · exact absurd hlt (lt_irrefl _)
      · exact (List.singleton_sublist.2 hb').cons_cons _
    · rcases List.mem_cons.1 hb with rfl | hb'
      · exact absurd (hx a ha') (Nat.lt_asymm hlt)
      · exact (ih hes ha' hb').cons _

/-- The invariant tells what is asked for. -/
theorem Inv.told (h : Inv R s l last) (hS : Implements S R fun _ _ => True) :
    Executes S R s where
  order := by
    have hsub := h.invoked.subset
    refine (h.ordered.sublist h.invoked).imp_of_mem fun {a b} ha hb hlt => ?_
    have ha' := h.started a (hsub ha)
    have hb' := h.started b (hsub hb)
    have hauid := a.key.uid.toNat_lt
    have hbuid := b.key.uid.toNat_lt
    rw [Event.rank, Event.rank, EventKey.rank, EventKey.rank] at hlt
    rcases Nat.lt_or_ge a.key.ts.toNat b.key.ts.toNat with hts | hts
    · exact Or.inl (UInt64.lt_iff_toNat_lt.2 hts)
    · have heq : a.key.ts.toNat = b.key.ts.toNat := by omega
      exact Or.inr ⟨UInt64.toNat_inj.1 heq, sublist_of_uids h.uids ha' hb' (by omega)⟩
  once := (h.ordered.sublist h.invoked).imp fun hlt heq => by
    rw [heq] at hlt
    exact lt_irrefl _ hlt
  scheduled ev hev := h.started ev (h.invoked.subset hev)
  unrevoked := h.unmarked
  held := by
    refine ⟨l, last, h.rep, h.count, fun ev hev => (h.all ev hev).imp_right ?_⟩
    rintro (hstarted | hrevoked)
    · exact h.executed ev hstarted
    · exact Or.inr hrevoked
  ended hempty ev hev := by
    rw [hS.isEmpty h.rep, List.isEmpty_iff] at hempty
    rcases h.all ev hev with hin | hstarted | hrevoked
    · rw [hempty] at hin
      exact absurd hin List.not_mem_nil
    · exact h.executed ev hstarted
    · exact Or.inr hrevoked
  expired id hid := h.isExpired_iff hid
  expiredDestroy id hid := by
    have hcount := h.gone.count_eq id
    rw [List.count_append] at hcount
    rw [h.isExpired_destroy_iff hid, ← List.count_eq_zero (a := id) (l := s.destroyEvents)]
    exact or_congr_right (by omega)

/-- A new simulator. -/
def new (events : σ) : Simulator σ where
  events := events

theorem inv_new {events : σ} (h : R events [] 0) : Inv R (new events) [] 0 where
  rep := h
  queue := .nil
  last_le := UInt64.le_refl _
  scheduled _ hev := absurd hev List.not_mem_nil
  ahead _ hev := absurd hev List.not_mem_nil
  count := rfl
  past _ hev := absurd hev List.not_mem_nil
  started _ hev := absurd hev List.not_mem_nil
  ordered := List.Pairwise.nil
  all _ hev := absurd hev List.not_mem_nil
  uids := List.Pairwise.nil
  uid_eq := rfl
  uid_lt _ hev := absurd hev List.not_mem_nil
  current_lt := show (0 : UInt32).toNat < (4 : UInt32).toNat by decide
  room := show 0 < 2 ^ 32 - 4 by decide
  impl _ hev := absurd hev List.not_mem_nil
  posted _ he := absurd he List.not_mem_nil
  flag _ := rfl
  marks i := by
    refine ⟨fun hi => absurd hi Bool.false_ne_true, ?_⟩
    rintro ⟨c, hc, -⟩
    exact absurd hc List.not_mem_nil
  invoked := List.Sublist.refl _
  executed _ hev := absurd hev List.not_mem_nil
  unmarked _ hc := absurd hc List.not_mem_nil
  destroys _ hev := absurd hev List.not_mem_nil
  gone := List.Perm.refl _

theorem runOk_append {limit : ℕ} {steps more : List (Step σ)}
    (h : RunOk S R limit s (steps ++ more)) : RunOk S R limit s steps ∧
      ∀ s', s.runSteps S steps = some s' → RunOk S R limit s' more := by
  induction steps generalizing s with
  | nil =>
    refine ⟨trivial, fun s' hs' => ?_⟩
    obtain rfl : s = s' := Option.some.inj hs'
    exact h
  | cons a steps ih =>
    obtain ⟨ha, hrest⟩ := h
    cases hstep : s.step S a with
    | none =>
      refine ⟨⟨ha, ?_⟩, fun s' hs' => ?_⟩
      · rw [hstep]
        trivial
      · rw [Simulator.runSteps, List.foldlM_cons, hstep] at hs'
        exact absurd hs'.symm (Option.some_ne_none s')
    | some s₁ =>
      simp only [hstep] at hrest
      obtain ⟨hsteps, hmore⟩ := ih hrest
      refine ⟨⟨ha, ?_⟩, fun s' hs' => hmore s' ?_⟩
      · rw [hstep]
        exact hsteps
      · rw [Simulator.runSteps, List.foldlM_cons, hstep] at hs'
        exact hs'

/-- In every state of a run events have been executed as they should, and the time does not
decrease. -/
theorem executes (hS : Implements S R fun _ _ => True) {events : σ} (hevents : R events [] 0)
    {steps more : List (Step σ)} (hok : RunOk S R (2 ^ 64) (new events) (steps ++ more)) :
    ∃ s s', (new events).runSteps S steps = some s ∧ s.runSteps S more = some s' ∧
      Executes S R s ∧ s.currentTs ≤ s'.currentTs := by
  obtain ⟨hsteps, hmore⟩ := runOk_append hok
  obtain ⟨s, heq, hs, -⟩ := Sound.runSteps hS ⟨[], 0, inv_new hevents⟩ hsteps
  obtain ⟨s', heq', -, hts⟩ := Sound.runSteps hS hs (hmore s heq)
  obtain ⟨l, last, h⟩ := hs
  exact ⟨s, s', heq, heq', h.told hS, hts⟩

/-! ## Examples -/

/-- The states of the list are the queues. -/
abbrev Listed (s l : List Event) (_ : UInt64) : Prop := s = l

theorem RunOk.cons {limit : ℕ} {a : Step σ} {steps : List (Step σ)} (ha : StepOk S R limit s a)
    (hstep : s.step S a = some s') (h : RunOk S R limit s' steps) :
    RunOk S R limit s (a :: steps) := by
  refine ⟨ha, ?_⟩
  rw [hstep]
  exact h

/-- An event that schedules another one, and one at its own time, and cancels the first of them. -/
def cancelOne : List (Step (List Event)) :=
  [.call (.schedule 5 1), .beginRun,
    .round [.schedule 2 2, .schedule 0 3, .cancel ⟨2, 7, 5, 0xffffffff⟩]]

/-- It is executed as it should be, and so is the one at its time. -/
theorem executes_cancelOne : ∃ s s', (new []).runSteps listScheduler cancelOne = some s ∧
    s.runSteps listScheduler [.round []] = some s' ∧ Executes listScheduler Listed s ∧
    s.currentTs ≤ s'.currentTs := by
  refine executes ListScheduler.implements rfl ?_
  refine .cons ⟨by decide, by decide, by decide, by decide⟩ rfl ?_
  refine .cons (fun e he => absurd he List.not_mem_nil) rfl ?_
  refine .cons (fun _ r hr => ?_) rfl (.cons (fun _ r hr => ?_) rfl trivial)
  · obtain rfl := Option.some.inj hr
    refine ⟨⟨⟨by decide, by decide, by decide, by decide⟩,
      ⟨by decide, by decide, by decide, by decide⟩, ?_, trivial⟩, fun s' hs' => ?_⟩
    · exact Or.inr (Or.inl (List.mem_append_left _ (List.mem_append_right _ List.mem_cons_self)))
    · obtain rfl := Option.some.inj hs'
      exact fun e he => absurd he List.not_mem_nil
  · obtain rfl := Option.some.inj hr
    refine ⟨trivial, fun s' hs' => ?_⟩
    obtain rfl := Option.some.inj hs'
    exact fun e he => absurd he List.not_mem_nil

/-- The steps of a program whose time goes past the end. -/
def pastTheEnd : List (Step (List Event)) :=
  [.call (.schedule 0x7fffffffffffffff 1), .round [.schedule 0x7fffffffffffffff 2],
    .round [.schedule 2 3]]

theorem runOk_pastTheEnd :
    RunOk listScheduler Listed (2 ^ 65) (new []) (pastTheEnd ++ [.round []]) := by
  have hposted : ∀ {s : Simulator (List Event)}, s.eventsWithContext = [] →
      PostedOk (2 ^ 65) s := by
    intro s hs e he
    rw [hs] at he
    exact absurd he List.not_mem_nil
  refine .cons ⟨by decide, by decide, by decide, by decide⟩ rfl ?_
  refine .cons (fun _ r hr => ?_) rfl (.cons (fun _ r hr => ?_) rfl
    (.cons (fun _ r hr => ?_) rfl trivial))
  · obtain rfl := Option.some.inj hr
    refine ⟨⟨⟨by decide, by decide, by decide, by decide⟩, trivial⟩, fun s' hs' => hposted ?_⟩
    obtain rfl := Option.some.inj hs'
    rfl
  · obtain rfl := Option.some.inj hr
    refine ⟨⟨⟨by decide, by decide, by decide, by decide⟩, trivial⟩, fun s' hs' => hposted ?_⟩
    obtain rfl := Option.some.inj hs'
    rfl
  · obtain rfl := Option.some.inj hr
    refine ⟨trivial, fun s' hs' => hposted ?_⟩
    obtain rfl := Option.some.inj hs'
    rfl

/-- Events at the time 0 are scheduled one after the other. -/
theorem exists_scheduled (n : ℕ) {s : Simulator (List Event)} {l : List Event}
    (h : Inv Listed s l 0) (hts : s.currentTs = 0) (hroom : s.total + n < 2 ^ 32 - 4) :
    ∃ s' l', Inv Listed s' l' 0 ∧
      RunOk listScheduler Listed (2 ^ 64) s (List.replicate n (.call (.schedule 0 1))) ∧
      s.runSteps listScheduler (List.replicate n (.call (.schedule 0 1))) = some s' ∧
      l'.length = l.length + n := by
  induction n generalizing s l with
  | zero => exact ⟨s, l, h, trivial, rfl, rfl⟩
  | succ n ih =>
    have hle : s.currentTs ≤ (0 + s.currentTs.toInt64).toUInt64 :=
      le_toUInt64_add Int64.le_rfl (by rw [hts]; decide)
    obtain ⟨s₁, heq, h₁, hts₁, hposted, hhistory⟩ := h.insertEvent ListScheduler.implements
      s.currentContext hle one_ne_zero (by omega)
    have htotal : s₁.total = s.total + 1 := by
      rw [total, total, hposted, hhistory]
      change (s.history.scheduled ++ [_]).length + s.history.scheduledDestroy.length +
        s.eventsWithContext.length = _
      rw [List.length_append, List.length_singleton]
      omega
    obtain ⟨s', l', h', hrun, heq', hlen⟩ := ih h₁ (hts₁.trans hts) (by omega)
    have hstep : s.step listScheduler (.call (.schedule 0 1)) = some s₁ :=
      congrArg (Option.map Prod.fst) heq
    refine ⟨s', l', h', ?_, ?_, ?_⟩
    · refine .cons ⟨by decide, ?_, one_ne_zero, by omega⟩ hstep hrun
      rw [hts]
      decide
    · rw [List.replicate_succ, Simulator.runSteps, List.foldlM_cons, hstep]
      exact heq'
    · rw [hlen, ListScheduler.perm_insert.length_eq, List.length_cons]
      omega

/-- An event at the time 2 ^ 64 - 2 schedules one that is executed at the time 0. After 2 ^ 31
events have been scheduled, their number is negative. -/
theorem not_executes :
    (∃ steps more s s', RunOk listScheduler Listed (2 ^ 65) (new []) (steps ++ more) ∧
      (new []).runSteps listScheduler steps = some s ∧
      s.runSteps listScheduler more = some s' ∧ s'.currentTs < s.currentTs) ∧
    ∃ steps s, RunOk listScheduler Listed (2 ^ 64) (new []) steps ∧
      (new []).runSteps listScheduler steps = some s ∧
      s.unscheduledEvents.toInt ≠ s.events.length := by
  refine ⟨⟨pastTheEnd, [.round []], _, _, runOk_pastTheEnd, rfl, rfl, by decide⟩, ?_⟩
  obtain ⟨n, hn⟩ : ∃ n : ℕ, n = 2 ^ 31 := ⟨_, rfl⟩
  obtain ⟨s, l, h, hrun, heq, hlen⟩ := exists_scheduled n (inv_new rfl) rfl (by
    rw [hn]
    change 0 + 2 ^ 31 < 2 ^ 32 - 4
    decide)
  rw [List.length_nil, Nat.zero_add] at hlen
  refine ⟨_, s, hrun, heq, ?_⟩
  rw [h.rep, h.count, hlen, hn]
  decide

end Ns3Pedca.Simulator
