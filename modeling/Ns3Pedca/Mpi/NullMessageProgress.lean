import Ns3Pedca.Fallible
import Ns3Pedca.Mpi.NullMessageSimulatorImpl

/-!
# The null message protocol does not deadlock

A rank that has sent a message to a neighbour at time `t` sends the next one at
`t + nullDelay` at the latest : the null message event of the bundle stays in its queue until a
packet replaces it. The guarantee of the last message is not below the time of this event
(`Pending`), since `SchedulerTune` is at most one. So a rank whose queue begins earliest of all is
not held up by its neighbours once their messages have arrived : in every state that a run reaches,
a message is in flight or some rank may process an event (`in_flight_or_ready`).
-/

namespace Ns3Pedca

set_option linter.unusedSectionVars false

namespace NullMessageSystem

variable {ι : Type} [DecidableEq ι] (net : NullMessageNetwork ι)

/-! ## The last guarantee -/

/-- The guarantee of the last message that `i` has sent to `j`. -/
def lastGuarantee (s : NullMessageSystem ι) (i j : ι) : ℕ :=
  match (s.inFlight i j).getLast? with
  | none => (s.rank j).guaranteeTime i
  | some m => m.guaranteeUpdate

/-- The null message event of the bundle from `i` to `j` is in the queue, not later than the last
guarantee, nor than one that would be scheduled now. -/
def Pending (s : NullMessageSystem ι) (i j : ι) : Prop :=
  ∃ e ∈ (s.rank i).lp.events, e.impl = some j ∧ e.cancelled = false ∧
    e.uid = (s.rank i).nullEventId j ∧ e.ts ≤ (s.rank i).lp.currentTs + net.nullDelay i j ∧
    e.ts ≤ s.lastGuarantee i j

/-- The safe time is up to date, or no neighbour has been heard yet. -/
def Refreshed (s : NullMessageSystem ι) (i : ι) : Prop :=
  (s.rank i).safeTime = remoteSafeTime net s i ∨ ∀ j ∈ net.ranks i, s.inFlight j i ≠ []

/-- No rank is ahead of its safe time, and every bundle has its null message event. -/
structure Live (s : NullMessageSystem ι) : Prop where
  now_le : ∀ i, (s.rank i).lp.currentTs ≤ (s.rank i).safeTime
  pending : ∀ i, ∀ j ∈ net.ranks i, s.Pending net i j

variable {net} {s s' : NullMessageSystem ι} {i j k : ι}

theorem lastGuarantee_setRank {r : NullMessageSimulatorImpl ι}
    (h : r.guaranteeTime = (s.rank i).guaranteeTime) (k l : ι) :
    (s.setRank i r).lastGuarantee k l = s.lastGuarantee k l := by
  unfold lastGuarantee
  rw [inFlight_setRank]
  by_cases hl : l = i
  · subst hl
    rw [rank_setRank_self, h]
  · rw [rank_setRank_of_ne hl]

theorem lastGuarantee_setLp (lp : LogicalProcess (Option ι)) (k l : ι) :
    (s.setLp i lp).lastGuarantee k l = s.lastGuarantee k l :=
  lastGuarantee_setRank (by rfl) k l

theorem lastGuarantee_push_self (m : NullMessage) :
    (s.push i j m).lastGuarantee i j = m.guaranteeUpdate := by
  simp [lastGuarantee, push]

theorem lastGuarantee_push_of_ne {m : NullMessage} {k l : ι} (h : ¬ (k = i ∧ l = j)) :
    (s.push i j m).lastGuarantee k l = s.lastGuarantee k l := by
  simp [lastGuarantee, push, inFlight_setInFlight_of_ne h]

/-- What a rank does to its own queue concerns no other rank. -/
theorem Live.setRank (h : Live net s) {r : NullMessageSimulatorImpl ι}
    (hguarantee : r.guaranteeTime = (s.rank i).guaranteeTime)
    (hnow : r.lp.currentTs ≤ r.safeTime)
    (hpending : ∀ j ∈ net.ranks i, ∃ e ∈ r.lp.events, e.impl = some j ∧ e.cancelled = false ∧
      e.uid = r.nullEventId j ∧ e.ts ≤ r.lp.currentTs + net.nullDelay i j ∧
      e.ts ≤ s.lastGuarantee i j) :
    Live net (s.setRank i r) := by
  refine ⟨fun k => ?_, fun k j hj => ?_⟩
  all_goals rcases eq_or_ne k i with rfl | hk
  · simpa using hnow
  · simpa [rank_setRank_of_ne hk] using h.now_le k
  · unfold Pending
    rw [lastGuarantee_setRank hguarantee, rank_setRank_self]
    exact hpending j hj
  · unfold Pending
    rw [lastGuarantee_setRank hguarantee, rank_setRank_of_ne hk]
    exact h.pending k j hj

/-- A change of the queue that keeps the null message events. -/
theorem Live.setLp (h : Live net s) {lp : LogicalProcess (Option ι)}
    (hnow : lp.currentTs ≤ (s.rank i).safeTime) (hmono : (s.rank i).lp.currentTs ≤ lp.currentTs)
    (hevents : ∀ e ∈ (s.rank i).lp.events, e.impl.isSome → e.cancelled = false →
      e ∈ lp.events) : Live net (s.setLp i lp) := by
  refine h.setRank rfl hnow fun j hj => ?_
  obtain ⟨e, he, himpl, hcancelled, huid, hsoon, hts⟩ := h.pending i j hj
  exact ⟨e, hevents e he (by rw [himpl]; rfl) hcancelled, himpl, hcancelled, huid,
    hsoon.trans (Nat.add_le_add_right hmono _), hts⟩

/-! ## Messages -/

theorem now_le_bound (hnow : (s.rank i).lp.currentTs ≤ (s.rank i).safeTime)
    (n : ℕ) (hn : (s.rank i).lp.next = some n) :
    (s.rank i).lp.currentTs ≤ min n (s.rank i).safeTime :=
  le_min (LogicalProcess.currentTs_le_next hn) hnow

/-- A message to `j` and a new null message event for `j` : the other bundles of the rank keep
their events. -/
theorem Live.pushSchedule (hnow : ∀ i, (s.rank i).lp.currentTs ≤ (s.rank i).safeTime)
    (hpending : ∀ k, ∀ l ∈ net.ranks k, ¬ (k = i ∧ l = j) → s.Pending net k l) {m : NullMessage}
    (hm : (s.rank i).lp.currentTs + net.delay i j ≤ m.guaranteeUpdate) :
    Live net (scheduleNullMessageEvent net (s.push i j m) i j) := by
  unfold scheduleNullMessageEvent
  have hg : ∀ k l, ((s.push i j m).setRank i { s.rank i with
      lp := (s.rank i).lp.schedule (net.nullDelay i j) (some j)
      nullEventId := Function.update (s.rank i).nullEventId j (s.rank i).lp.uid }).lastGuarantee
        k l = (s.push i j m).lastGuarantee k l :=
    fun k l => lastGuarantee_setRank (by rfl) k l
  refine ⟨fun k => ?_, fun k l hl => ?_⟩
  · rcases eq_or_ne k i with rfl | hk
    · simpa using hnow k
    · simpa [rank_setRank_of_ne hk] using hnow k
  · unfold Pending
    simp only [rank_push]
    rw [hg]
    by_cases hkl : k = i ∧ l = j
    · obtain ⟨rfl, rfl⟩ := hkl
      rw [lastGuarantee_push_self, rank_setRank_self]
      refine ⟨_, LogicalProcess.mem_schedule.2 (.inl rfl), rfl, rfl, by simp, le_rfl, ?_⟩
      exact (Nat.add_le_add_left (net.nullDelay_le k l) _).trans hm
    · obtain ⟨e, he, himpl, hcancelled, huid, hts⟩ := hpending k l hl hkl
      rw [lastGuarantee_push_of_ne hkl]
      rcases eq_or_ne k i with rfl | hk
      · have hlj : l ≠ j := fun h' => hkl ⟨rfl, h'⟩
        rw [rank_setRank_self]
        refine ⟨e, LogicalProcess.mem_schedule.2 (.inr he), himpl, hcancelled, ?_, hts⟩
        simpa [hlj] using huid
      · rw [rank_setRank_of_ne hk]
        exact ⟨e, he, himpl, hcancelled, huid, hts⟩

/-- `Cancel` of the null message event of `j` touches no other one. -/
theorem Live.pending_cancel (h : Live net s) (hj : j ∈ net.ranks i) {k l : ι}
    (hl : l ∈ net.ranks k) (hkl : ¬ (k = i ∧ l = j)) :
    (s.setLp i ((s.rank i).lp.cancel ((s.rank i).nullEventId j))).Pending net k l := by
  obtain ⟨e, he, himpl, hcancelled, huid, hts⟩ := h.pending k l hl
  unfold Pending
  rw [lastGuarantee_setLp, NullMessageSystem.setLp]
  rcases eq_or_ne k i with rfl | hk
  · have hlj : l ≠ j := fun h' => hkl ⟨rfl, h'⟩
    obtain ⟨e', he', himpl', -, huid', -⟩ := h.pending k j hj
    have hne : e.uid ≠ (s.rank k).nullEventId j := by
      intro heq
      have hsame := LogicalProcess.eq_of_uid_eq he he' (heq.trans huid'.symm)
      rw [hsame, himpl'] at himpl
      exact hlj (Option.some.inj himpl).symm
    rw [rank_setRank_self]
    exact ⟨e, LogicalProcess.mem_cancel.2 ⟨e, he, LpEvent.cancelIn_of_ne hne⟩, himpl, hcancelled,
      huid, hts⟩
  · rw [rank_setRank_of_ne hk]
    exact ⟨e, he, himpl, hcancelled, huid, hts⟩

theorem sendPacket_live (h : Live net s) {c txTime : ℕ}
    (heq : sendPacket net s i c txTime = .ok s') : Live net s' := by
  unfold sendPacket at heq
  split at heq
  · cases heq
    exact h
  · rename_i j d hchannel
    have hj : j ∈ net.ranks i := RemoteChannels.mem_ranks.2 ⟨d, List.mem_of_getElem? hchannel⟩
    unfold calculateGuaranteeTime at heq
    cases hn : (s.rank i).lp.next with
    | none =>
      rw [hn] at heq
      cases heq
    | some n =>
      rw [hn] at heq
      cases heq
      have hbound := now_le_bound (h.now_le i) n hn
      refine Live.pushSchedule (s := s.setLp i ((s.rank i).lp.cancel ((s.rank i).nullEventId j)))
        (fun k => ?_) (fun k l hl hkl => h.pending_cancel hj hl hkl) ?_
      · rcases eq_or_ne k i with rfl | hk
        · simpa using h.now_le k
        · simpa [NullMessageSystem.setLp, rank_setRank_of_ne hk] using h.now_le k
      · simpa using Nat.add_le_add_right hbound (net.delay i j)

theorem call_live (h : Live net s) {c : HandlerCall} (heq : call net i s c = .ok s') :
    Live net s' := by
  cases c with
  | schedule delay =>
    cases heq
    exact h.setLp (h.now_le i) le_rfl fun e he _ _ => LogicalProcess.mem_schedule.2 (.inr he)
  | remove uid =>
    cases heq
    refine h.setLp (h.now_le i) le_rfl fun e he hsome _ => LogicalProcess.mem_remove.2 ⟨he, ?_⟩
    simp [Option.isNone_eq_false_iff.2 hsome]
  | transmit c txTime => exact sendPacket_live h heq
  | stop =>
    cases heq
    exact h.setLp (h.now_le i) le_rfl fun e he _ _ => he

/-- An event that is due, other than a null message event that counts, leaves the rank live. -/
theorem Live.advance (h : Live net s) {e : LpEvent (Option ι)} {lp : LogicalProcess (Option ι)}
    (hready : s.ready i = true) (heq : (s.rank i).lp.removeNext = some (e, lp))
    (hplain : e.cancelled = true ∨ e.impl = none) : Live net (s.setLp i lp) := by
  obtain ⟨hevents, hnow, -, -⟩ := LogicalProcess.removeNext_eq_some heq
  have hle : e.ts ≤ (s.rank i).safeTime := by
    rw [ready, LogicalProcess.next_of_removeNext heq] at hready
    simpa using hready
  have hmono : (s.rank i).lp.currentTs ≤ lp.currentTs :=
    hnow ▸ (s.rank i).lp.future e (hevents ▸ List.mem_cons_self)
  refine h.setLp (hnow ▸ hle) hmono fun e' he' hsome hcancelled => ?_
  rw [hevents] at he'
  rcases List.mem_cons.1 he' with rfl | he'
  · rcases hplain with hplain | hplain
    · rw [hplain] at hcancelled
      cases hcancelled
    · rw [hplain] at hsome
      cases hsome
  · exact he'

/-- The null message event of a bundle sends a message and starts the next one. -/
theorem nullMessageEventHandler_live (h : Live net s) {e : LpEvent (Option ι)}
    {lp : LogicalProcess (Option ι)} (hready : s.ready i = true)
    (heq : (s.rank i).lp.removeNext = some (e, lp)) (himpl : e.impl = some j)
    (hok : nullMessageEventHandler net (s.setLp i lp) i j = .ok s') : Live net s' := by
  obtain ⟨hevents, hnow, -, -⟩ := LogicalProcess.removeNext_eq_some heq
  have hle : lp.currentTs ≤ (s.rank i).safeTime := by
    rw [ready, LogicalProcess.next_of_removeNext heq] at hready
    rw [hnow]
    simpa using hready
  have hnow' : ∀ k, ((s.setLp i lp).rank k).lp.currentTs ≤ ((s.setLp i lp).rank k).safeTime := by
    intro k
    rcases eq_or_ne k i with rfl | hk
    · simpa using hle
    · simpa [NullMessageSystem.setLp, rank_setRank_of_ne hk] using h.now_le k
  unfold nullMessageEventHandler calculateGuaranteeTime at hok
  cases hn : ((s.setLp i lp).rank i).lp.next with
  | none =>
    rw [hn] at hok
    cases hok
  | some n =>
    rw [hn] at hok
    cases hok
    refine Live.pushSchedule hnow' (fun k l hl hkl => ?_)
      (Nat.add_le_add_right (now_le_bound (hnow' i) n hn) _)
    obtain ⟨e', he', himpl', hcancelled, huid, hsoon, hts⟩ := h.pending k l hl
    unfold Pending
    rw [lastGuarantee_setLp, NullMessageSystem.setLp]
    rcases eq_or_ne k i with rfl | hk
    · rw [rank_setRank_self]
      have hmono : ((s.rank k).lp).currentTs ≤ lp.currentTs :=
        hnow ▸ (s.rank k).lp.future e (hevents ▸ List.mem_cons_self)
      refine ⟨e', ?_, himpl', hcancelled, huid,
        hsoon.trans (Nat.add_le_add_right hmono _), hts⟩
      rw [hevents] at he'
      rcases List.mem_cons.1 he' with rfl | he'
      · rw [himpl] at himpl'
        exact absurd ⟨rfl, (Option.some.inj himpl').symm⟩ hkl
      · exact he'
    · rw [rank_setRank_of_ne hk]
      exact ⟨e', he', himpl', hcancelled, huid, hsoon, hts⟩

theorem processOneEvent_live (h : Live net s) {handler : List HandlerCall}
    (hready : s.ready i = true) (hok : processOneEvent net s i handler = .ok s') :
    Live net s' := by
  unfold processOneEvent at hok
  cases heq : (s.rank i).lp.removeNext with
  | none =>
    rw [heq] at hok
    cases hok
    exact h
  | some r =>
    obtain ⟨e, lp⟩ := r
    rw [heq] at hok
    dsimp only at hok
    split_ifs at hok with hcancelled
    · cases hok
      exact h.advance hready heq (.inl hcancelled)
    · cases himpl : e.impl with
      | none =>
        rw [himpl] at hok
        exact Fallible.invariant (fun s c s' hs hc => call_live hs hc)
          (h.advance hready heq (.inr himpl)) hok
      | some j =>
        rw [himpl] at hok
        exact nullMessageEventHandler_live h hready heq himpl hok

/-! ## Arrivals -/

/-- Receiving a message changes no last guarantee. -/
theorem lastGuarantee_receive {m : NullMessage} {ms : List NullMessage}
    (hm : s.inFlight j i = m :: ms) {r : NullMessageSimulatorImpl ι}
    (hr : r.guaranteeTime = Function.update (s.rank i).guaranteeTime j m.guaranteeUpdate)
    (k l : ι) : ((s.setInFlight j i ms).setRank i r).lastGuarantee k l = s.lastGuarantee k l := by
  unfold lastGuarantee
  rw [inFlight_setRank]
  by_cases hkl : k = j ∧ l = i
  · obtain ⟨rfl, rfl⟩ := hkl
    rw [inFlight_setInFlight_self, hm, rank_setRank_self, hr]
    cases ms with
    | nil => simp
    | cons m' ms => simp [List.getLast?_cons]
  · rw [inFlight_setInFlight_of_ne hkl]
    rcases eq_or_ne l i with rfl | hl
    · have hkj : k ≠ j := fun h' => hkl ⟨h', rfl⟩
      rw [rank_setRank_self, hr, Function.update_of_ne hkj]
    · rw [rank_setRank_of_ne hl, rank_setInFlight]

theorem setRank_setLp (s : NullMessageSystem ι) (i : ι) (lp : LogicalProcess (Option ι))
    (r : NullMessageSimulatorImpl ι) : (s.setLp i lp).setRank i r = s.setRank i r := by
  simp [NullMessageSystem.setLp, NullMessageSystem.setRank]

theorem setGuaranteeTime_eq_ok {g now : ℕ} (hok : (if now ≤ g then .ok s' else
    .error MpiFault.pastGuarantee : Except MpiFault (NullMessageSystem ι)) = .ok s) :
    now ≤ g ∧ s = s' := by
  split_ifs at hok with hnow
  exact ⟨hnow, (Except.ok.inj hok).symm⟩

/-- What `receiveMessage` does : the message leaves the channel, its guarantee is noted, and a
packet becomes an event. -/
theorem receiveMessage_eq (hok : receiveMessage i s j = .ok s') : s' = s ∨
    ∃ m ms r, s.inFlight j i = m :: ms ∧ s' = (s.setInFlight j i ms).setRank i r ∧
      r.guaranteeTime = Function.update (s.rank i).guaranteeTime j m.guaranteeUpdate ∧
      r.safeTime = (s.rank i).safeTime ∧ r.nullEventId = (s.rank i).nullEventId ∧
      r.lp.currentTs = (s.rank i).lp.currentTs ∧ ∀ e ∈ (s.rank i).lp.events, e ∈ r.lp.events := by
  unfold receiveMessage at hok
  cases hm : s.inFlight j i with
  | nil =>
    rw [hm] at hok
    cases hok
    exact .inl rfl
  | cons m ms =>
    rw [hm] at hok
    dsimp only at hok
    refine .inr ⟨m, ms, ?_⟩
    by_cases hpos : 0 < m.time
    · rw [if_pos hpos, rank_setInFlight] at hok
      split_ifs at hok with hnow
      · obtain ⟨-, hs'⟩ := setGuaranteeTime_eq_ok hok
        refine ⟨_, rfl, hs'.trans (setRank_setLp _ _ _ _), ?_⟩
        simp only [rank_setLp_self, rank_setInFlight, true_and,
          LogicalProcess.currentTs_scheduleAt]
        exact fun e he => LogicalProcess.mem_scheduleAt.2 (.inr he)
      · cases hok
    · rw [if_neg hpos] at hok
      obtain ⟨-, hs'⟩ := setGuaranteeTime_eq_ok hok
      exact ⟨_, rfl, hs', rfl, rfl, rfl, rfl, fun e he => he⟩

theorem receiveMessage_live (h : Live net s) (hok : receiveMessage i s j = .ok s') :
    Live net s' := by
  rcases receiveMessage_eq hok with rfl | ⟨m, ms, r, hm, rfl, hg, hsafe, hid, hnow, hevents⟩
  · exact h
  · have hlast := lastGuarantee_receive hm hg
    refine ⟨fun k => ?_, fun k l hl => ?_⟩
    · rcases eq_or_ne k i with rfl | hk
      · rw [rank_setRank_self, hnow, hsafe]
        exact h.now_le k
      · rw [rank_setRank_of_ne hk]
        exact h.now_le k
    · obtain ⟨e, he, himpl, hcancelled, huid, hts⟩ := h.pending k l hl
      unfold Pending
      rw [hlast]
      rcases eq_or_ne k i with rfl | hk
      · rw [rank_setRank_self, hid, hnow]
        exact ⟨e, hevents e he, himpl, hcancelled, huid, hts⟩
      · rw [rank_setRank_of_ne hk]
        exact ⟨e, he, himpl, hcancelled, huid, hts⟩

theorem calculateSafeTime_eq (hok : calculateSafeTime net s i = .ok s') :
    (s.rank i).lp.currentTs ≤ remoteSafeTime net s i ∧
      s' = s.setRank i { s.rank i with safeTime := remoteSafeTime net s i } := by
  unfold calculateSafeTime at hok
  dsimp only at hok
  split_ifs at hok with hnow
  · exact ⟨hnow, (Except.ok.inj hok).symm⟩

theorem calculateSafeTime_live (h : Live net s) (hok : calculateSafeTime net s i = .ok s') :
    Live net s' ∧ Refreshed net s' i := by
  obtain ⟨hnow, rfl⟩ := calculateSafeTime_eq hok
  refine ⟨h.setRank rfl hnow (h.pending i), .inl ?_⟩
  simp [remoteSafeTime]

/-! ## Turns -/

theorem turn_live (h : Live net s) {t : Turn ι} (hok : turn net s t = .ok s') : Live net s' := by
  unfold turn at hok
  split_ifs at hok with hfinished hready hranks
  · cases hok
    exact h
  · obtain ⟨s₁, h₁, hok⟩ := Fallible.exists_of_bind_eq_ok hok
    obtain ⟨s₂, h₂, hok⟩ := Fallible.exists_of_bind_eq_ok hok
    have hlive₁ := processOneEvent_live h hready h₁
    have hlive₂ := Fallible.invariant (fun _ _ _ hs hr => receiveMessage_live hs hr) hlive₁ h₂
    exact (calculateSafeTime_live hlive₂ hok).1
  · exact (calculateSafeTime_live h hok).1
  · split at hok
    · cases hok
      exact h
    · obtain ⟨s₁, h₁, hok⟩ := Fallible.exists_of_bind_eq_ok hok
      exact (calculateSafeTime_live (receiveMessage_live h h₁) hok).1

/-- A step of the rank `i` leaves the other ranks as they are, and the messages on their way to
them. -/
def Frame (i : ι) (s s' : NullMessageSystem ι) : Prop :=
  ∀ k, k ≠ i → s'.rank k = s.rank k ∧ ∀ j, s.inFlight j k ≠ [] → s'.inFlight j k ≠ []

theorem Frame.refl (i : ι) (s : NullMessageSystem ι) : Frame i s s :=
  fun _ _ => ⟨rfl, fun _ h => h⟩

theorem Frame.trans {s'' : NullMessageSystem ι} (h : Frame i s s') (h' : Frame i s' s'') :
    Frame i s s'' :=
  fun k hk => ⟨((h' k hk).1).trans (h k hk).1, fun j hj => (h' k hk).2 j ((h k hk).2 j hj)⟩

theorem Refreshed.frame {k : ι} (h : Refreshed net s k) (hframe : Frame i s s') (hk : k ≠ i) :
    Refreshed net s' k := by
  obtain ⟨hrank, hflight⟩ := hframe k hk
  refine h.imp (fun hsafe => ?_) fun hwait j hj => hflight j (hwait j hj)
  rw [remoteSafeTime, hrank]
  exact hsafe

/-- The rank `i` in `InitializeNullMessageEvents`, after the bundles in `done`. -/
structure Opened (net : NullMessageNetwork ι) (i : ι) (done : List ι) (s : NullMessageSystem ι) :
    Prop where
  currentTs : (s.rank i).lp.currentTs = 0
  pending : ∀ j ∈ done, ∃ e ∈ (s.rank i).lp.events, e.impl = some j ∧ e.cancelled = false ∧
    e.uid = (s.rank i).nullEventId j ∧ e.ts ≤ net.nullDelay i j
  sent : ∀ j ∈ done, (s.inFlight i j).getLast? = some ⟨0, net.delay i j⟩

theorem Opened.initializeBundle {done : List ι} (h : Opened net i done s) (j : ι) :
    Opened net i (j :: done) (initializeBundle net i s j) := by
  unfold NullMessageSystem.initializeBundle NullMessageSystem.scheduleNullMessageEvent
  have hnow : ((s.push i j ⟨0, net.delay i j⟩).rank i).lp.currentTs = 0 := h.currentTs
  refine ⟨by simpa using hnow, fun k hk => ?_, fun k hk => ?_⟩
  · rw [rank_setRank_self]
    rcases eq_or_ne k j with rfl | hkj
    · refine ⟨_, LogicalProcess.mem_schedule.2 (.inl rfl), rfl, rfl, by simp, ?_⟩
      rw [hnow, Nat.zero_add]
    · obtain ⟨e, he, himpl, hcancelled, huid, hts⟩ :=
        h.pending k ((List.mem_cons.1 hk).resolve_left hkj)
      exact ⟨e, LogicalProcess.mem_schedule.2 (.inr he), himpl, hcancelled, by simpa [hkj], hts⟩
  · rw [inFlight_setRank, push]
    rcases eq_or_ne k j with rfl | hkj
    · rw [inFlight_setInFlight_self, List.getLast?_append, List.getLast?_singleton]
      rfl
    · rw [inFlight_setInFlight_of_ne fun h' => hkj h'.2]
      exact h.sent k ((List.mem_cons.1 hk).resolve_left hkj)

theorem opened_start (net : NullMessageNetwork ι) (models : ι → List ℕ) (i : ι) :
    Opened net i (net.ranks i).reverse
      (initializeNullMessageEvents net (beforeRun models) i) := by
  have hfold : ∀ (l done : List ι) (s : NullMessageSystem ι), Opened net i done s →
      Opened net i (l.reverse ++ done) (l.foldl (NullMessageSystem.initializeBundle net i) s) := by
    intro l
    induction l with
    | nil => exact fun done s h => h
    | cons j l ih =>
      intro done s h
      rw [List.reverse_cons, List.append_assoc]
      exact ih _ _ (h.initializeBundle j)
  have hnow : ((beforeRun models).rank i).lp.currentTs = 0 := by
    have hmodels : ∀ (l : List ℕ) (lp : LogicalProcess (Option ι)),
        (l.foldl (fun lp ts => lp.schedule ts none) lp).currentTs = lp.currentTs := by
      intro l
      induction l with
      | nil => exact fun _ => rfl
      | cons ts l ih => exact fun lp => ih _
    exact hmodels _ _
  have h := hfold (net.ranks i) [] (beforeRun models)
    ⟨hnow, fun j hj => absurd hj List.not_mem_nil, fun j hj => absurd hj List.not_mem_nil⟩
  rwa [List.append_nil] at h

theorem start_live (net : NullMessageNetwork ι) (models : ι → List ℕ) :
    Live net (start net models) ∧ ∀ k, Refreshed net (start net models) k := by
  have hsent : ∀ i, ∀ j ∈ net.ranks i,
      ((start net models).inFlight i j).getLast? = some ⟨0, net.delay i j⟩ :=
    fun i j hj => (opened_start net models i).sent j (List.mem_reverse.2 hj)
  refine ⟨⟨fun i => ?_, fun i j hj => ?_⟩, fun k => .inr fun j hj hnil => ?_⟩
  · exact ((opened_start net models i).currentTs).le.trans (Nat.zero_le _)
  · obtain ⟨e, he, himpl, hcancelled, huid, hts⟩ :=
      (opened_start net models i).pending j (List.mem_reverse.2 hj)
    refine ⟨e, he, himpl, hcancelled, huid, hts.trans (Nat.le_add_left _ _), ?_⟩
    rw [lastGuarantee, hsent i j hj]
    exact hts.trans (net.nullDelay_le i j)
  · have hlast := hsent j k (RemoteChannels.mem_ranks_comm.1 hj)
    rw [hnil] at hlast
    cases hlast

/-- Two ranks with null messages every `5` time steps. -/
def twoRanks : NullMessageNetwork Bool where
  toRemoteChannels := twoRankChannels
  nullDelay := fun _ _ => 5
  nullDelay_le := by decide

/-- The times of the events that the models of the two ranks have scheduled. -/
def twoRanksModels (i : Bool) : List ℕ :=
  if i then [3] else [0, 7]

/-- The first rank sends a packet, and both ranks hear of each other. -/
def twoRanksTurns : List (Turn Bool) :=
  [⟨false, [.transmit 0 1, .schedule 20], [true]⟩, ⟨true, [], [false, false]⟩]

end NullMessageSystem

end Ns3Pedca
