import Ns3Pedca.Mpi.NullMessageProgress

/-!
# Null messages keep causality

A handler of a rank may call the simulator in any order. A message of it promises the neighbour that
nothing arrives before `Min(Next(), GetSafeTime())` plus the delay of the bundle, and `Next()` does
not know what the handler goes on to do. A handler is `orderly` if, after a packet, it schedules no
event and ends no transmission before that bound.

In every run of turns with orderly handlers, on any number of ranks and in any order of the turns
and of the deliveries, the guarantees between two ranks never go down, and neither do the safe times
(`Steady`). So no packet arrives in the past of its receiver, and no assertion of the simulator
fails, that of `Next` excepted on a rank with one neighbour and nothing but the null message event
in its queue (`only_next_fails`). What makes the guarantees go up is that the null message event of
every bundle is pending when a packet is sent (`Live`).
-/

namespace Ns3Pedca

set_option linter.unusedSectionVars false

namespace NullMessageSystem

variable {ι : Type} [DecidableEq ι] (net : NullMessageNetwork ι)

/-! ## Orderly handlers -/

/-- What a message that the rank `i` sends now promises, less the delay. -/
def bound (s : NullMessageSystem ι) (i : ι) : ℕ :=
  match (s.rank i).lp.next with
  | none => 0
  | some n => min n (s.rank i).safeTime

/-- The call schedules no event and ends no transmission before `floor`. -/
def notBefore (now floor : ℕ) : HandlerCall → Bool
  | .schedule delay => floor ≤ now + delay
  | .transmit _ txTime => floor ≤ now + txTime
  | .remove _ => true
  | .stop => true

/-- The bound that the calls after `c` have to respect. -/
def floorAfter (s : NullMessageSystem ι) (i : ι) (floor : ℕ) : HandlerCall → ℕ
  | .transmit _ _ => max floor (s.bound i)
  | .schedule _ => floor
  | .remove _ => floor
  | .stop => floor

/-- After a packet, the handler does nothing that takes effect before what the message promised. -/
def orderly (i : ι) : ℕ → NullMessageSystem ι → List HandlerCall → Bool
  | _, _, [] => true
  | floor, s, c :: cs =>
    notBefore (s.rank i).lp.currentTs floor c && match call net i s c with
      | .ok s' => orderly i (floorAfter s i floor c) s' cs
      | .error _ => true

/-- The handler that the turn invokes, if any, is orderly. -/
def orderlyTurn (s : NullMessageSystem ι) (t : Turn ι) : Bool :=
  !s.ready t.rank || match (s.rank t.rank).lp.removeNext with
    | none => true
    | some (e, lp) => e.cancelled || e.impl.isSome ||
      orderly net t.rank e.ts (s.setLp t.rank lp) t.handler

/-- The handlers that the turns invoke are orderly. -/
def orderlyRun : NullMessageSystem ι → List (Turn ι) → Bool
  | _, [] => true
  | s, t :: ts => orderlyTurn net s t && match turn net s t with
    | .ok s' => orderlyRun s' ts
    | .error _ => true

/-! ## Bounds -/

variable {net} {s s' : NullMessageSystem ι} {i j : ι} {floor : ℕ}

theorem bound_le (s : NullMessageSystem ι) (i : ι) {e : LpEvent (Option ι)}
    (he : e ∈ (s.rank i).lp.events) : s.bound i ≤ e.ts := by
  obtain ⟨n, hn, hle⟩ := LogicalProcess.next_isSome_of_mem he
  rw [bound, hn]
  exact (min_le_left _ _).trans hle

theorem bound_le_safeTime (s : NullMessageSystem ι) (i : ι) : s.bound i ≤ (s.rank i).safeTime := by
  unfold bound
  split
  · exact Nat.zero_le _
  · exact min_le_right _ _

/-! ## The invariant -/

/-- The guarantees go up from message to message, and no packet arrives before the last of them
that was sent before it. -/
def Ascending : ℕ → List NullMessage → Prop
  | _, [] => True
  | g, m :: ms => (0 < m.time → g ≤ m.time) ∧ g ≤ m.guaranteeUpdate ∧
    Ascending m.guaranteeUpdate ms

/-- The guarantee of the last message, `g` if there is none. -/
def lastOf (g : ℕ) (ms : List NullMessage) : ℕ :=
  match ms.getLast? with
  | none => g
  | some m => m.guaranteeUpdate

theorem lastOf_cons (g : ℕ) (m : NullMessage) (ms : List NullMessage) :
    lastOf g (m :: ms) = lastOf m.guaranteeUpdate ms := by
  cases ms with
  | nil => rfl
  | cons m' ms => simp [lastOf, List.getLast?_cons]

theorem Ascending.append_singleton {g : ℕ} {ms : List NullMessage} {m : NullMessage}
    (h : Ascending g ms) (htime : 0 < m.time → lastOf g ms ≤ m.time)
    (hg : lastOf g ms ≤ m.guaranteeUpdate) : Ascending g (ms ++ [m]) := by
  induction ms generalizing g with
  | nil => exact ⟨htime, hg, trivial⟩
  | cons m' ms ih =>
    rw [lastOf_cons] at htime hg
    exact ⟨h.1, h.2.1, ih h.2.2 htime hg⟩

/-- No event of a rank, but the null message event of `j` itself, lies before what the last message
to `j` has promised. -/
structure Steady (net : NullMessageNetwork ι) (s : NullMessageSystem ι) : Prop where
  silent : ∀ i j, j ∉ net.ranks i → s.inFlight i j = []
  now_le : ∀ i, (s.rank i).lp.currentTs ≤ (s.rank i).safeTime
  safe_le : ∀ i, ∀ j ∈ net.ranks i, (s.rank i).safeTime ≤ (s.rank i).guaranteeTime j
  safe_le_max : ∀ i, (s.rank i).safeTime ≤ net.maxTime
  ascending : ∀ i j, Ascending ((s.rank j).guaranteeTime i) (s.inFlight i j)
  null_mem : ∀ i, ∀ e ∈ (s.rank i).lp.events, ∀ j, e.impl = some j → j ∈ net.ranks i
  own_id : ∀ i, ∀ e ∈ (s.rank i).lp.events, ∀ j, e.impl = some j → e.cancelled = false →
    e.uid = (s.rank i).nullEventId j
  last_le : ∀ i, ∀ j ∈ net.ranks i, ∀ e ∈ (s.rank i).lp.events,
    e.impl = some j ∧ e.cancelled = false ∨ s.lastGuarantee i j ≤ e.ts + net.delay i j
  last_le_safe : ∀ i, ∀ j ∈ net.ranks i,
    s.lastGuarantee i j ≤ (s.rank i).safeTime + net.delay i j


/-- While a handler runs on the rank `i`, `floor` bounds all that it has promised, and nothing in
its queue lies before it. -/
structure Floor (net : NullMessageNetwork ι) (s : NullMessageSystem ι) (i : ι) (floor : ℕ) :
    Prop where
  le_safe : floor ≤ (s.rank i).safeTime
  le_ts : ∀ e ∈ (s.rank i).lp.events, floor ≤ e.ts
  last_le : ∀ k ∈ net.ranks i, s.lastGuarantee i k ≤ floor + net.delay i k

namespace Steady

/-- A rank may change its queue as long as the null message events keep their identifiers and the
other events what has been promised. -/
theorem setRank (h : Steady net s) {r : NullMessageSimulatorImpl ι}
    (hguarantee : r.guaranteeTime = (s.rank i).guaranteeTime)
    (hnow : r.lp.currentTs ≤ r.safeTime)
    (hsafe : ∀ j ∈ net.ranks i, r.safeTime ≤ r.guaranteeTime j)
    (hmax : r.safeTime ≤ net.maxTime)
    (hnull : ∀ e ∈ r.lp.events, ∀ j, e.impl = some j →
      j ∈ net.ranks i ∧ (e.cancelled = false → e.uid = r.nullEventId j))
    (hlast : ∀ j ∈ net.ranks i, ∀ e ∈ r.lp.events,
      e.impl = some j ∧ e.cancelled = false ∨ s.lastGuarantee i j ≤ e.ts + net.delay i j)
    (hlastSafe : ∀ j ∈ net.ranks i, s.lastGuarantee i j ≤ r.safeTime + net.delay i j) :
    Steady net (s.setRank i r) := by
  refine ⟨h.silent, fun k => ?_, fun k j hj => ?_, fun k => ?_, fun k j => ?_,
    fun k e he j hj => ?_, fun k e he j hj hcancelled => ?_, fun k j hj e he => ?_,
    fun k j hj => ?_⟩
  · rcases eq_or_ne k i with rfl | hk
    · simpa using hnow
    · simpa [rank_setRank_of_ne hk] using h.now_le k
  · rcases eq_or_ne k i with rfl | hk
    · simpa using hsafe j hj
    · simpa [rank_setRank_of_ne hk] using h.safe_le k j hj
  · rcases eq_or_ne k i with rfl | hk
    · simpa using hmax
    · simpa [rank_setRank_of_ne hk] using h.safe_le_max k
  · rcases eq_or_ne j i with rfl | hj
    · simpa [hguarantee] using h.ascending k j
    · simpa [rank_setRank_of_ne hj] using h.ascending k j
  · rcases eq_or_ne k i with rfl | hk
    · exact (hnull e (by simpa using he) j hj).1
    · exact h.null_mem k e (by simpa [rank_setRank_of_ne hk] using he) j hj
  · rcases eq_or_ne k i with rfl | hk
    · rw [rank_setRank_self]
      exact (hnull e (by simpa using he) j hj).2 hcancelled
    · rw [rank_setRank_of_ne hk]
      exact h.own_id k e (by simpa [rank_setRank_of_ne hk] using he) j hj hcancelled
  · rw [lastGuarantee_setRank hguarantee]
    rcases eq_or_ne k i with rfl | hk
    · exact hlast j hj e (by simpa using he)
    · exact h.last_le k j hj e (by simpa [rank_setRank_of_ne hk] using he)
  · rw [lastGuarantee_setRank hguarantee]
    rcases eq_or_ne k i with rfl | hk
    · simpa using hlastSafe j hj
    · simpa [rank_setRank_of_ne hk] using h.last_le_safe k j hj

/-- A change of the queue that brings no null message event. -/
theorem setLp (h : Steady net s) {lp : LogicalProcess (Option ι)}
    (hnow : lp.currentTs ≤ (s.rank i).safeTime)
    (hevents : ∀ e ∈ lp.events, e ∈ (s.rank i).lp.events ∨
      e.impl = none ∧ ∀ j ∈ net.ranks i, s.lastGuarantee i j ≤ e.ts + net.delay i j) :
    Steady net (s.setLp i lp) := by
  refine h.setRank rfl hnow (h.safe_le i) (h.safe_le_max i) (fun e he j hj => ?_)
    (fun j hj e he => ?_) (h.last_le_safe i)
  all_goals rcases hevents e he with he | ⟨hnone, hle⟩
  · exact ⟨h.null_mem i e he j hj, h.own_id i e he j hj⟩
  · rw [hnone] at hj
    cases hj
  · exact h.last_le i j hj e he
  · exact .inr (hle j hj)

/-- A message to `j` that goes up, and a new null message event for `j` where none is left. -/
theorem pushSchedule (h : Steady net s) (hj : j ∈ net.ranks i)
    (hfree : ∀ e ∈ (s.rank i).lp.events, e.impl = some j → e.cancelled = true)
    (hother : ∀ k ∈ net.ranks i, k ≠ j →
      s.lastGuarantee i k ≤ (s.rank i).lp.currentTs + net.nullDelay i j + net.delay i k)
    {time b : ℕ} (hb : ∀ e ∈ (s.rank i).lp.events, b ≤ e.ts) (hbsafe : b ≤ (s.rank i).safeTime)
    (hlast : s.lastGuarantee i j ≤ b + net.delay i j)
    (htime : 0 < time → s.lastGuarantee i j ≤ time) :
    Steady net (scheduleNullMessageEvent net (s.push i j ⟨time, b + net.delay i j⟩) i j) := by
  have hpush : Steady net (s.push i j ⟨time, b + net.delay i j⟩) := by
    refine ⟨fun k l hl => ?_, h.now_le, h.safe_le, h.safe_le_max, fun k l => ?_, h.null_mem,
      h.own_id, fun k l hl e he => ?_, fun k l hl => ?_⟩
    all_goals by_cases hkl : k = i ∧ l = j
    · exact absurd (hkl.1 ▸ hkl.2 ▸ hj) hl
    · simpa [push, inFlight_setInFlight_of_ne hkl] using h.silent k l hl
    · obtain ⟨rfl, rfl⟩ := hkl
      rw [push, inFlight_setInFlight_self]
      exact (h.ascending k l).append_singleton htime hlast
    · simpa [push, inFlight_setInFlight_of_ne hkl] using h.ascending k l
    · obtain ⟨rfl, rfl⟩ := hkl
      rw [lastGuarantee_push_self]
      exact .inr (Nat.add_le_add_right (hb e he) _)
    · rw [lastGuarantee_push_of_ne hkl]
      exact h.last_le k l hl e he
    · obtain ⟨rfl, rfl⟩ := hkl
      rw [lastGuarantee_push_self]
      exact Nat.add_le_add_right hbsafe _
    · rw [lastGuarantee_push_of_ne hkl]
      exact h.last_le_safe k l hl
  refine hpush.setRank rfl (h.now_le i) (h.safe_le i) (h.safe_le_max i) (fun e he k hk => ?_)
    (fun k hk e he => ?_) (hpush.last_le_safe i)
  all_goals rcases LogicalProcess.mem_schedule.1 he with rfl | he
  · obtain rfl := Option.some.inj hk
    exact ⟨hj, fun _ => by simp⟩
  · refine ⟨h.null_mem i e he k hk, fun hcancelled => ?_⟩
    have hkj : k ≠ j := by
      rintro rfl
      rw [hfree e he hk] at hcancelled
      cases hcancelled
    simpa [hkj] using h.own_id i e he k hk hcancelled
  · rcases eq_or_ne k j with rfl | hkj
    · exact .inl ⟨rfl, rfl⟩
    · rw [lastGuarantee_push_of_ne fun h' => hkj h'.2]
      exact .inr (hother k hk hkj)
  · exact hpush.last_le i k hk e he

end Steady

/-! ## Steps that fail in `Next` only -/

/-- The step succeeds with a state that satisfies `P`, or `Next` has failed on a rank with one
neighbour. -/
def EndsIn (net : NullMessageNetwork ι) (P : NullMessageSystem ι → Prop)
    (x : Except MpiFault (NullMessageSystem ι)) : Prop :=
  x = .error .noNextEvent ∧ (∃ i j, net.ranks i = [j]) ∨ ∃ s, x = .ok s ∧ P s

theorem EndsIn.bind {P Q : NullMessageSystem ι → Prop}
    {x : Except MpiFault (NullMessageSystem ι)} (h : EndsIn net P x)
    {f : NullMessageSystem ι → Except MpiFault (NullMessageSystem ι)}
    (hf : ∀ s, P s → EndsIn net Q (f s)) : EndsIn net Q (x >>= f) := by
  rcases h with ⟨rfl, hone⟩ | ⟨s, rfl, hs⟩
  · exact .inl ⟨rfl, hone⟩
  · exact hf s hs

theorem EndsIn.foldlM {α : Type} {P : NullMessageSystem ι → Prop}
    {f : NullMessageSystem ι → α → Except MpiFault (NullMessageSystem ι)}
    (hf : ∀ s a, P s → EndsIn net P (f s a)) (as : List α) (h : P s) :
    EndsIn net P (as.foldlM f s) := by
  induction as generalizing s with
  | nil => exact .inr ⟨s, rfl, h⟩
  | cons a as ih =>
    rw [List.foldlM_cons]
    exact (hf s a h).bind fun s' hs' => ih hs'

/-! ## Handlers -/

/-- A change of the queue in a handler that sends nothing. -/
theorem Steady.keep (h : Steady net s) (hf : Floor net s i floor)
    {lp : LogicalProcess (Option ι)} (hnow : lp.currentTs = (s.rank i).lp.currentTs)
    (hevents : ∀ e ∈ lp.events, e ∈ (s.rank i).lp.events ∨ e.impl = none ∧ floor ≤ e.ts) :
    Steady net (s.setLp i lp) ∧ Floor net (s.setLp i lp) i floor := by
  refine ⟨h.setLp (hnow.le.trans (h.now_le i)) fun e he => ?_,
    by simpa using hf.le_safe, fun e he => ?_, fun k hk => ?_⟩
  · refine (hevents e he).imp_right fun h' => ⟨h'.1, fun j hj => ?_⟩
    exact (hf.last_le j hj).trans (Nat.add_le_add_right h'.2 _)
  · rcases hevents e (by simpa using he) with he | ⟨-, hle⟩
    · exact hf.le_ts e he
    · exact hle
  · rw [lastGuarantee_setLp]
    exact hf.last_le k hk

/-- After `Cancel` of the null message event of `j`, none is left. -/
theorem Steady.cancel (h : Steady net s) (hf : Floor net s i floor) (j : ι) :
    Steady net (s.setLp i ((s.rank i).lp.cancel ((s.rank i).nullEventId j))) ∧
      ∀ e ∈ ((s.rank i).lp.cancel ((s.rank i).nullEventId j)).events,
        e.impl = some j → e.cancelled = true := by
  refine ⟨h.setRank rfl (h.now_le i) (h.safe_le i) (h.safe_le_max i) (fun e he k hk => ?_)
    (fun k hk e he => ?_) (h.last_le_safe i), fun e he himpl => ?_⟩
  all_goals obtain ⟨e', he', rfl⟩ := LogicalProcess.mem_cancel.1 he
  · refine ⟨h.null_mem i e' he' k (by simpa using hk), fun hcancelled => ?_⟩
    have hne : e'.uid ≠ (s.rank i).nullEventId j :=
      fun heq => by simp [LpEvent.cancelIn, heq] at hcancelled
    rw [LpEvent.cancelIn_of_ne hne] at hk hcancelled ⊢
    exact h.own_id i e' he' k hk hcancelled
  · refine .inr ((hf.last_le k hk).trans (Nat.add_le_add_right ?_ _))
    simpa using hf.le_ts e' he'
  · by_cases hid : e'.uid = (s.rank i).nullEventId j
    · simp [LpEvent.cancelIn, hid]
    · rw [LpEvent.cancelIn_of_ne hid] at himpl ⊢
      by_contra hcancelled
      exact hid (h.own_id i e' he' j himpl (by simpa using hcancelled))

/-- A packet of an orderly handler : the null message events that are pending keep what it promises
below what the handler may schedule afterwards. -/
theorem sendPacket_steady (h : Steady net s) (hlive : Live net s) (hf : Floor net s i floor)
    {c txTime : ℕ} (hc : floor ≤ (s.rank i).lp.currentTs + txTime) :
    ∃ s', sendPacket net s i c txTime = .ok s' ∧ Steady net s' ∧
      Floor net s' i (max floor (s.bound i)) := by
  have hmax : ∀ e ∈ (s.rank i).lp.events, max floor (s.bound i) ≤ e.ts :=
    fun e he => max_le (hf.le_ts e he) (s.bound_le i he)
  have hmaxSafe : max floor (s.bound i) ≤ (s.rank i).safeTime :=
    max_le hf.le_safe (s.bound_le_safeTime i)
  have hup : ∀ k ∈ net.ranks i,
      s.lastGuarantee i k ≤ max floor (s.bound i) + net.delay i k :=
    fun k hk => (hf.last_le k hk).trans (Nat.add_le_add_right (le_max_left _ _) _)
  unfold sendPacket
  split
  · exact ⟨s, rfl, h, hmaxSafe, hmax, hup⟩
  · rename_i j d hchannel
    have hmem : (j, d) ∈ net.channels i := List.mem_of_getElem? hchannel
    have hj : j ∈ net.ranks i := RemoteChannels.mem_ranks.2 ⟨d, hmem⟩
    have hd : net.delay i j ≤ d := RemoteChannels.delay_le hmem
    obtain ⟨e, he, -, -, -, hsoon, -⟩ := hlive.pending i j hj
    obtain ⟨n, hn, -⟩ := LogicalProcess.next_isSome_of_mem he
    have hbound : s.bound i = min n (s.rank i).safeTime := by rw [bound, hn]
    have hfloor : floor ≤ s.bound i := by
      obtain ⟨e', he', hts⟩ := LogicalProcess.next_mem hn
      rw [hbound]
      exact le_min (hts ▸ hf.le_ts e' he') hf.le_safe
    have hlast := hf.last_le j hj
    obtain ⟨hcancel, hfree⟩ := h.cancel hf j
    refine ⟨rescheduleNullMessageEvent net (s.push i j ⟨(s.rank i).lp.currentTs + txTime + d,
      s.bound i + net.delay i j⟩) i j, ?_, ?_, ?_⟩
    · rw [calculateGuaranteeTime, hn, hbound]
      rfl
    · refine hcancel.pushSchedule hj (by simpa using hfree) (fun k hk _ => ?_) (fun e' he' => ?_)
        (by simpa using s.bound_le_safeTime i) ?_ fun _ => ?_
      · rw [lastGuarantee_setLp, rank_setLp_self]
        refine (hf.last_le k hk).trans (Nat.add_le_add_right ?_ _)
        exact (hf.le_ts e he).trans hsoon
      · rw [rank_setLp_self] at he'
        obtain ⟨e'', he'', rfl⟩ := LogicalProcess.mem_cancel.1 he'
        simpa using s.bound_le i he''
      · rw [lastGuarantee_setLp]
        omega
      · rw [lastGuarantee_setLp]
        omega
    · have hlast' : ∀ k, (rescheduleNullMessageEvent net (s.push i j
          ⟨(s.rank i).lp.currentTs + txTime + d, s.bound i + net.delay i j⟩) i j).lastGuarantee
            i k = (s.push i j ⟨(s.rank i).lp.currentTs + txTime + d,
              s.bound i + net.delay i j⟩).lastGuarantee i k :=
        fun k => (lastGuarantee_setRank (by rfl) i k).trans (lastGuarantee_setLp _ i k)
      refine ⟨?_, fun e' he' => ?_, fun k hk => ?_⟩
      · simpa [rescheduleNullMessageEvent, scheduleNullMessageEvent] using hmaxSafe
      · rw [rescheduleNullMessageEvent, scheduleNullMessageEvent, rank_setRank_self] at he'
        rcases LogicalProcess.mem_schedule.1 he' with rfl | he'
        · simpa using (hmax e he).trans hsoon
        · rw [rank_setLp_self] at he'
          obtain ⟨e'', he'', rfl⟩ := LogicalProcess.mem_cancel.1 he'
          simpa using hmax e'' he''
      · rw [hlast']
        rcases eq_or_ne k j with rfl | hkj
        · rw [lastGuarantee_push_self]
          exact Nat.add_le_add_right (le_max_right _ _) _
        · rw [lastGuarantee_push_of_ne fun h' => hkj h'.2]
          exact hup k hk

/-- One call of an orderly handler. -/
theorem call_steady (h : Steady net s) (hlive : Live net s) (hf : Floor net s i floor)
    {c : HandlerCall} (hc : notBefore (s.rank i).lp.currentTs floor c = true) :
    ∃ s', call net i s c = .ok s' ∧ Steady net s' ∧ Floor net s' i (floorAfter s i floor c) := by
  cases c with
  | schedule delay =>
    have hle : floor ≤ (s.rank i).lp.currentTs + delay := by simpa [notBefore] using hc
    refine ⟨_, rfl, h.keep hf rfl fun e he => ?_⟩
    rcases LogicalProcess.mem_schedule.1 he with rfl | he
    · exact .inr ⟨rfl, hle⟩
    · exact .inl he
  | remove uid =>
    exact ⟨_, rfl, h.keep hf rfl fun e he => .inl (LogicalProcess.mem_remove.1 he).1⟩
  | transmit c txTime =>
    exact sendPacket_steady h hlive hf (by simpa [notBefore] using hc)
  | stop => exact ⟨_, rfl, h.keep hf rfl fun e he => .inl he⟩

/-- An orderly handler, whatever it does. -/
theorem handler_steady (cs : List HandlerCall) (h : Steady net s) (hlive : Live net s)
    (hf : Floor net s i floor) (ho : orderly net i floor s cs = true) :
    ∃ s', cs.foldlM (call net i) s = .ok s' ∧ Steady net s' := by
  induction cs generalizing s floor with
  | nil => exact ⟨s, rfl, h⟩
  | cons c cs ih =>
    rw [orderly, Bool.and_eq_true] at ho
    obtain ⟨s', heq, h', hf'⟩ := call_steady h hlive hf ho.1
    rw [heq] at ho
    obtain ⟨s'', heq', h''⟩ := ih h' (call_live hlive heq) hf' ho.2
    refine ⟨s'', ?_, h''⟩
    rw [List.foldlM_cons, heq]
    exact heq'

/-! ## Events -/

theorem ts_le_safeTime {e : LpEvent (Option ι)} {lp : LogicalProcess (Option ι)}
    (hready : s.ready i = true) (heq : (s.rank i).lp.removeNext = some (e, lp)) :
    e.ts ≤ (s.rank i).safeTime := by
  rw [ready, LogicalProcess.next_of_removeNext heq] at hready
  simpa using hready

/-- The event that is due may be taken out. -/
theorem Steady.advance (h : Steady net s) {e : LpEvent (Option ι)}
    {lp : LogicalProcess (Option ι)} (hready : s.ready i = true)
    (heq : (s.rank i).lp.removeNext = some (e, lp)) : Steady net (s.setLp i lp) := by
  obtain ⟨hevents, hnow, -, -⟩ := LogicalProcess.removeNext_eq_some heq
  refine h.setLp (hnow ▸ ts_le_safeTime hready heq) fun e' he' => .inl ?_
  rw [hevents]
  exact List.mem_cons_of_mem e he'

/-- At the time of an event that is not the null message event of `j`, what has been promised to
`j` is due at the earliest. -/
theorem Steady.last_le_now (h : Steady net s) {e : LpEvent (Option ι)}
    {lp : LogicalProcess (Option ι)} (heq : (s.rank i).lp.removeNext = some (e, lp))
    (hj : j ∈ net.ranks i) (hne : ¬ (e.impl = some j ∧ e.cancelled = false)) :
    (s.setLp i lp).lastGuarantee i j ≤
      ((s.setLp i lp).rank i).lp.currentTs + net.delay i j := by
  obtain ⟨hevents, hnow, -, -⟩ := LogicalProcess.removeNext_eq_some heq
  rw [lastGuarantee_setLp, rank_setLp_self, hnow]
  exact (h.last_le i j hj e (hevents ▸ List.mem_cons_self)).resolve_left hne

theorem nullMessageEventHandler_steady (h : Steady net s) (hlive : Live net s)
    {e : LpEvent (Option ι)} {lp : LogicalProcess (Option ι)} (hready : s.ready i = true)
    (heq : (s.rank i).lp.removeNext = some (e, lp)) (himpl : e.impl = some j)
    (hcancelled : e.cancelled = false) :
    EndsIn net (Steady net) (nullMessageEventHandler net (s.setLp i lp) i j) := by
  obtain ⟨hevents, hnow, -, -⟩ := LogicalProcess.removeNext_eq_some heq
  have hmem : e ∈ (s.rank i).lp.events := hevents ▸ List.mem_cons_self
  have hj : j ∈ net.ranks i := h.null_mem i e hmem j himpl
  have hadvance := h.advance hready heq
  -- the event that was taken out was the only one of its bundle
  have hfree : ∀ e' ∈ lp.events, e'.impl = some j → e'.cancelled = true := by
    intro e' he' himpl'
    by_contra hcancelled'
    have hmem' : e' ∈ (s.rank i).lp.events := hevents ▸ List.mem_cons_of_mem e he'
    have huid := h.own_id i e' hmem' j himpl' (by simpa using hcancelled')
    have hsame := LogicalProcess.eq_of_uid_eq hmem hmem'
      ((h.own_id i e hmem j himpl hcancelled).trans huid.symm)
    have hnodup := (s.rank i).lp.uid_nodup
    rw [hevents, List.map_cons] at hnodup
    exact (List.nodup_cons.1 hnodup).1 (List.mem_map.2 ⟨e', he', by rw [hsame]⟩)
  unfold nullMessageEventHandler
  cases hn : ((s.setLp i lp).rank i).lp.next with
  | none =>
    refine .inl ⟨by rw [calculateGuaranteeTime, hn]; rfl, i, j, ?_⟩
    -- the event of any other bundle would be in the queue
    have hempty : lp.events = [] := by simpa using LogicalProcess.next_eq_none.1 hn
    have hall : ∀ k ∈ net.ranks i, k = j := by
      intro k hk
      obtain ⟨e', he', himpl', -⟩ := hlive.pending i k hk
      rw [hevents, hempty] at he'
      obtain rfl := List.mem_singleton.1 he'
      exact Option.some.inj (himpl'.symm.trans himpl)
    exact eq_singleton_of_nodup (RemoteChannels.nodup_ranks _ i) hj hall
  | some n =>
    have hbound : (s.setLp i lp).bound i = min n ((s.setLp i lp).rank i).safeTime := by
      rw [bound, hn]
    have hlast : (s.setLp i lp).lastGuarantee i j ≤
        (s.setLp i lp).bound i + net.delay i j := by
      obtain ⟨e', he', hts⟩ := LogicalProcess.next_mem hn
      have hle := (hadvance.last_le i j hj e' he').resolve_left fun h' => by
        rw [hfree e' (by simpa using he') h'.1] at h'
        exact Bool.noConfusion h'.2
      have hsafe := hadvance.last_le_safe i j hj
      omega
    refine .inr ⟨scheduleNullMessageEvent net ((s.setLp i lp).push i j
      ⟨0, (s.setLp i lp).bound i + net.delay i j⟩) i j, ?_, ?_⟩
    · rw [calculateGuaranteeTime, hn, hbound]
      rfl
    · refine hadvance.pushSchedule hj (by simpa using hfree) (fun k hk hkj => ?_)
        (fun e' he' => bound_le _ i he') (bound_le_safeTime _ i) hlast
        fun hpos => absurd hpos (lt_irrefl 0)
      have hle := h.last_le_now heq hk fun h' => hkj (Option.some.inj (h'.1.symm.trans himpl))
      exact hle.trans (Nat.add_le_add_right (Nat.le_add_right _ _) _)

theorem processOneEvent_steady (h : Steady net s) (hlive : Live net s) (t : Turn ι)
    (hready : s.ready t.rank = true) (ho : orderlyTurn net s t = true) :
    EndsIn net (Steady net) (processOneEvent net s t.rank t.handler) := by
  unfold processOneEvent
  rw [orderlyTurn, hready] at ho
  cases heq : (s.rank t.rank).lp.removeNext with
  | none => exact .inr ⟨s, rfl, h⟩
  | some r =>
    obtain ⟨e, lp⟩ := r
    have hadvance := h.advance hready heq
    obtain ⟨hevents, hnow, -, -⟩ := LogicalProcess.removeNext_eq_some heq
    rw [heq] at ho
    dsimp only at ho ⊢
    split_ifs with hcancelled
    · exact .inr ⟨_, rfl, hadvance⟩
    · cases himpl : e.impl with
      | none =>
        simp only [hcancelled, himpl, Bool.not_true, Bool.false_or, Option.isSome_none] at ho
        refine .inr (handler_steady t.handler hadvance (hlive.advance hready heq (.inr himpl))
          ⟨?_, fun e' he' => ?_, fun k hk => ?_⟩ ho)
        · simpa using ts_le_safeTime hready heq
        · rw [rank_setLp_self] at he'
          exact hnow ▸ lp.future e' he'
        · have hle := h.last_le_now heq hk fun h' => by simp [himpl] at h'
          rwa [rank_setLp_self, hnow] at hle
      | some j =>
        exact nullMessageEventHandler_steady h hlive hready heq himpl (by simpa using hcancelled)

/-! ## Arrivals -/

theorem Steady.receive (h : Steady net s) {m : NullMessage} {ms : List NullMessage}
    (hm : s.inFlight j i = m :: ms) {r : NullMessageSimulatorImpl ι}
    (hguarantee : r.guaranteeTime = Function.update (s.rank i).guaranteeTime j m.guaranteeUpdate)
    (hsafe : r.safeTime = (s.rank i).safeTime) (hid : r.nullEventId = (s.rank i).nullEventId)
    (hnow : r.lp.currentTs = (s.rank i).lp.currentTs)
    (hevents : ∀ e ∈ r.lp.events, e ∈ (s.rank i).lp.events ∨
      e.impl = none ∧ (s.rank i).safeTime ≤ e.ts) :
    Steady net ((s.setInFlight j i ms).setRank i r) := by
  have hlast := lastGuarantee_receive hm hguarantee
  have hascending := h.ascending j i
  rw [hm] at hascending
  refine ⟨fun k l hl => ?_, fun k => ?_, fun k l hl => ?_, fun k => ?_, fun k l => ?_,
    fun k e he l hl => ?_, fun k e he l hl hcancelled => ?_, fun k l hl e he => ?_,
    fun k l hl => ?_⟩
  · rw [inFlight_setRank]
    by_cases hkl : k = j ∧ l = i
    · obtain ⟨rfl, rfl⟩ := hkl
      rw [h.silent k l hl] at hm
      cases hm
    · rw [inFlight_setInFlight_of_ne hkl]
      exact h.silent k l hl
  · rcases eq_or_ne k i with rfl | hk
    · rw [rank_setRank_self, hnow, hsafe]
      exact h.now_le k
    · rw [rank_setRank_of_ne hk]
      exact h.now_le k
  · rcases eq_or_ne k i with rfl | hk
    · rw [rank_setRank_self, hsafe, hguarantee]
      have hle := h.safe_le k l hl
      rcases eq_or_ne l j with rfl | hlj
      · rw [Function.update_self]
        exact hle.trans hascending.2.1
      · rwa [Function.update_of_ne hlj]
    · rw [rank_setRank_of_ne hk]
      exact h.safe_le k l hl
  · rcases eq_or_ne k i with rfl | hk
    · rw [rank_setRank_self, hsafe]
      exact h.safe_le_max k
    · rw [rank_setRank_of_ne hk]
      exact h.safe_le_max k
  · rw [inFlight_setRank]
    by_cases hkl : k = j ∧ l = i
    · obtain ⟨rfl, rfl⟩ := hkl
      rw [inFlight_setInFlight_self, rank_setRank_self, hguarantee, Function.update_self]
      exact hascending.2.2
    · rw [inFlight_setInFlight_of_ne hkl]
      rcases eq_or_ne l i with rfl | hl
      · have hkj : k ≠ j := fun h' => hkl ⟨h', rfl⟩
        rw [rank_setRank_self, hguarantee, Function.update_of_ne hkj]
        exact h.ascending k l
      · rw [rank_setRank_of_ne hl]
        exact h.ascending k l
  · rcases eq_or_ne k i with rfl | hk
    · rw [rank_setRank_self] at he
      rcases hevents e he with he | ⟨hnone, -⟩
      · exact h.null_mem k e he l hl
      · rw [hnone] at hl
        cases hl
    · rw [rank_setRank_of_ne hk] at he
      exact h.null_mem k e he l hl
  · rcases eq_or_ne k i with rfl | hk
    · rw [rank_setRank_self] at he ⊢
      rcases hevents e he with he | ⟨hnone, -⟩
      · rw [hid]
        exact h.own_id k e he l hl hcancelled
      · rw [hnone] at hl
        cases hl
    · rw [rank_setRank_of_ne hk] at he ⊢
      exact h.own_id k e he l hl hcancelled
  · rw [hlast]
    rcases eq_or_ne k i with rfl | hk
    · rw [rank_setRank_self] at he
      rcases hevents e he with he | ⟨-, hle⟩
      · exact h.last_le k l hl e he
      · exact .inr ((h.last_le_safe k l hl).trans (Nat.add_le_add_right hle _))
    · rw [rank_setRank_of_ne hk] at he
      exact h.last_le k l hl e he
  · rw [hlast]
    rcases eq_or_ne k i with rfl | hk
    · rw [rank_setRank_self, hsafe]
      exact h.last_le_safe k l hl
    · rw [rank_setRank_of_ne hk]
      exact h.last_le_safe k l hl

theorem receiveMessage_steady (h : Steady net s) (i j : ι) :
    EndsIn net (Steady net) (receiveMessage i s j) := by
  unfold receiveMessage
  cases hm : s.inFlight j i with
  | nil => exact .inr ⟨s, rfl, h⟩
  | cons m ms =>
    have hij : j ∈ net.ranks i := by
      refine RemoteChannels.mem_ranks_comm.1 (by_contra fun hj => ?_)
      rw [h.silent j i hj] at hm
      cases hm
    have hascending := h.ascending j i
    rw [hm] at hascending
    have hnow := h.now_le i
    have hsafe := h.safe_le i j hij
    have hg : (s.rank i).lp.currentTs ≤ m.guaranteeUpdate :=
      (hnow.trans hsafe).trans hascending.2.1
    dsimp only
    by_cases hpos : 0 < m.time
    · have hpast : (s.rank i).safeTime ≤ m.time := hsafe.trans (hascending.1 hpos)
      have htime : (s.rank i).lp.currentTs ≤ m.time := hnow.trans hpast
      rw [if_pos hpos, rank_setInFlight, dif_pos htime]
      refine .inr ⟨_, if_pos (by simpa using hg), ?_⟩
      rw [setRank_setLp]
      refine h.receive hm (by simp) (by simp) (by simp) (by simp) fun e he => ?_
      rw [rank_setLp_self] at he
      rcases (LogicalProcess.mem_scheduleAt (h := htime)).1 he with rfl | he
      · exact .inr ⟨rfl, hpast⟩
      · exact .inl he
    · rw [if_neg hpos]
      exact .inr ⟨_, if_pos hg, h.receive hm rfl rfl rfl rfl fun e he => .inl he⟩

theorem calculateSafeTime_steady (h : Steady net s) (i : ι) :
    EndsIn net (Steady net) (calculateSafeTime net s i) := by
  have hle : (s.rank i).safeTime ≤ remoteSafeTime net s i := by
    refine le_foldl_min (h.safe_le_max i) fun x hx => ?_
    obtain ⟨j, hj, rfl⟩ := List.mem_map.1 hx
    exact h.safe_le i j hj
  have hnow : (s.rank i).lp.currentTs ≤ remoteSafeTime net s i := (h.now_le i).trans hle
  refine .inr ⟨_, if_pos hnow, h.setRank rfl hnow (fun j hj => ?_) ?_ (fun e he j hj => ?_)
    (h.last_le i) fun j hj => ?_⟩
  · exact foldl_min_le (List.mem_map_of_mem hj) _
  · exact foldl_min_le_init _ _
  · exact ⟨h.null_mem i e he j hj, h.own_id i e he j hj⟩
  · exact (h.last_le_safe i j hj).trans (Nat.add_le_add_right hle _)

/-! ## Turns and runs -/

theorem turn_steady (h : Steady net s) (hlive : Live net s) (t : Turn ι)
    (ho : orderlyTurn net s t = true) : EndsIn net (Steady net) (turn net s t) := by
  unfold turn
  split_ifs with hfinished hready hranks
  · exact .inr ⟨s, rfl, h⟩
  · refine (processOneEvent_steady h hlive t hready ho).bind fun s₁ h₁ => ?_
    refine (EndsIn.foldlM (fun s' j h' => receiveMessage_steady h' t.rank j) _ h₁).bind
      fun s₂ h₂ => ?_
    exact calculateSafeTime_steady h₂ t.rank
  · exact calculateSafeTime_steady h t.rank
  · split
    · exact .inr ⟨s, rfl, h⟩
    · exact (receiveMessage_steady h t.rank _).bind fun s₁ h₁ => calculateSafeTime_steady h₁ t.rank

theorem run_steady (turns : List (Turn ι)) (h : Steady net s) (hlive : Live net s)
    (ho : orderlyRun net s turns = true) : EndsIn net (Steady net) (run net s turns) := by
  induction turns generalizing s with
  | nil => exact .inr ⟨s, rfl, h⟩
  | cons t turns ih =>
    rw [orderlyRun, Bool.and_eq_true] at ho
    rw [run, List.foldlM_cons]
    rcases turn_steady h hlive t ho.1 with ⟨heq, hone⟩ | ⟨s', heq, h'⟩
    · exact .inl ⟨by rw [heq]; rfl, hone⟩
    · rw [heq] at ho ⊢
      exact ih h' (turn_live hlive heq) ho.2

/-! ## The start -/

/-- The rank `i` in `InitializeNullMessageEvents` : it has sent nothing but null messages with the
delays of its bundles. -/
structure Begun (net : NullMessageNetwork ι) (i : ι) (s : NullMessageSystem ι) : Prop where
  currentTs : (s.rank i).lp.currentTs = 0
  safeTime : (s.rank i).safeTime = 0
  guaranteeTime : (s.rank i).guaranteeTime = fun _ => 0
  null_mem : ∀ e ∈ (s.rank i).lp.events, ∀ j, e.impl = some j → j ∈ net.ranks i
  sent : ∀ j, ∀ m ∈ s.inFlight i j, m = ⟨0, net.delay i j⟩ ∧ j ∈ net.ranks i

theorem Begun.initializeBundle (h : Begun net i s) (hj : j ∈ net.ranks i) :
    Begun net i (initializeBundle net i s j) := by
  unfold NullMessageSystem.initializeBundle NullMessageSystem.scheduleNullMessageEvent
  refine ⟨?_, ?_, ?_, fun e he k hk => ?_, fun k m hm => ?_⟩
  · simpa using h.currentTs
  · simpa using h.safeTime
  · simpa using h.guaranteeTime
  · rw [rank_setRank_self] at he
    rcases LogicalProcess.mem_schedule.1 he with rfl | he
    · exact Option.some.inj hk ▸ hj
    · exact h.null_mem e he k hk
  · rw [inFlight_setRank, push] at hm
    by_cases hkj : k = j
    · subst hkj
      rw [inFlight_setInFlight_self, List.mem_append, List.mem_singleton] at hm
      rcases hm with hm | rfl
      · exact h.sent k m hm
      · exact ⟨rfl, hj⟩
    · rw [inFlight_setInFlight_of_ne fun h' => hkj h'.2] at hm
      exact h.sent k m hm

theorem models_events (l : List ℕ) (lp : LogicalProcess (Option ι))
    (hnone : ∀ e ∈ lp.events, e.impl = none) :
    (l.foldl (fun lp ts => lp.schedule ts none) lp).currentTs = lp.currentTs ∧
      ∀ e ∈ (l.foldl (fun lp ts => lp.schedule ts none) lp).events, e.impl = none := by
  induction l generalizing lp with
  | nil => exact ⟨rfl, hnone⟩
  | cons ts l ih =>
    refine ih _ fun e he => ?_
    rcases LogicalProcess.mem_schedule.1 he with rfl | he
    · rfl
    · exact hnone e he

theorem begun_start (net : NullMessageNetwork ι) (models : ι → List ℕ) (i : ι) :
    Begun net i (initializeNullMessageEvents net (beforeRun models) i) := by
  have hfold : ∀ (l : List ι) (s : NullMessageSystem ι), (∀ j ∈ l, j ∈ net.ranks i) →
      Begun net i s → Begun net i (l.foldl (NullMessageSystem.initializeBundle net i) s) := by
    intro l
    induction l with
    | nil => exact fun s _ h => h
    | cons j l ih =>
      intro s hl h
      exact ih _ (fun k hk => hl k (List.mem_cons_of_mem j hk))
        (h.initializeBundle (hl j List.mem_cons_self))
  obtain ⟨hnow, hnone⟩ := models_events (models i) (LogicalProcess.empty (Option ι))
    (fun e he => absurd he List.not_mem_nil)
  refine hfold _ _ (fun j hj => hj) ⟨hnow, rfl, rfl, fun e he j hj => ?_, fun j m hm => ?_⟩
  · rw [hnone e he] at hj
    cases hj
  · cases hm

/-- The identifiers of the null message events after the bundles in `done`. -/
structure Numbered (i : ι) (done : List ι) (s : NullMessageSystem ι) : Prop where
  own_id : ∀ e ∈ (s.rank i).lp.events, ∀ j, e.impl = some j →
    e.uid = (s.rank i).nullEventId j ∧ j ∈ done
  sent : ∀ j, j ∉ done → s.inFlight i j = []
  sent_one : ∀ j ∈ done, ∃ m, s.inFlight i j = [m]

theorem Numbered.initializeBundle {done : List ι} (h : Numbered i done s) (hj : j ∉ done) :
    Numbered i (j :: done) (initializeBundle net i s j) := by
  unfold NullMessageSystem.initializeBundle NullMessageSystem.scheduleNullMessageEvent
  refine ⟨fun e he k hk => ?_, fun k hk => ?_, fun k hk => ?_⟩
  · rw [rank_setRank_self] at he ⊢
    rcases LogicalProcess.mem_schedule.1 he with rfl | he
    · obtain rfl := Option.some.inj hk
      exact ⟨by simp, List.mem_cons_self⟩
    · obtain ⟨huid, hdone⟩ := h.own_id e he k hk
      have hkj : k ≠ j := fun h' => hj (h' ▸ hdone)
      exact ⟨by simpa [hkj] using huid, List.mem_cons_of_mem j hdone⟩
  · rw [List.mem_cons, not_or] at hk
    rw [inFlight_setRank, push, inFlight_setInFlight_of_ne fun h' => hk.1 h'.2]
    exact h.sent k hk.2
  · rw [inFlight_setRank, push]
    rcases eq_or_ne k j with rfl | hkj
    · rw [inFlight_setInFlight_self, h.sent k hj]
      exact ⟨_, rfl⟩
    · rw [inFlight_setInFlight_of_ne fun h' => hkj h'.2]
      exact h.sent_one k ((List.mem_cons.1 hk).resolve_left hkj)

theorem numbered_start (net : NullMessageNetwork ι) (models : ι → List ℕ) (i : ι) :
    Numbered i (net.ranks i).reverse (initializeNullMessageEvents net (beforeRun models) i) := by
  have hfold : ∀ (l done : List ι) (s : NullMessageSystem ι), (l.reverse ++ done).Nodup →
      Numbered i done s →
      Numbered i (l.reverse ++ done) (l.foldl (NullMessageSystem.initializeBundle net i) s) := by
    intro l
    induction l with
    | nil => exact fun done s _ h => h
    | cons j l ih =>
      intro done s hnodup h
      rw [List.reverse_cons, List.append_assoc] at hnodup ⊢
      refine ih _ _ hnodup (h.initializeBundle ?_)
      exact (List.nodup_cons.1 (List.nodup_append.1 hnodup).2.1).1
  obtain ⟨-, hnone⟩ := models_events (models i) (LogicalProcess.empty (Option ι))
    (fun e he => absurd he List.not_mem_nil)
  have h := hfold (net.ranks i) [] (beforeRun models)
    (by simpa using RemoteChannels.nodup_ranks net.toRemoteChannels i)
    ⟨fun e he j hj => absurd ((hnone e he).symm.trans hj) nofun, fun _ _ => rfl,
      fun j hj => absurd hj List.not_mem_nil⟩
  rwa [List.append_nil] at h

theorem start_steady (models : ι → List ℕ) : Steady net (start net models) := by
  have hbegun := begun_start net models
  have hnumbered := numbered_start net models
  have hlast : ∀ i, ∀ j ∈ net.ranks i,
      (start net models).lastGuarantee i j = net.delay i j := by
    intro i j hj
    obtain ⟨m, hm⟩ := (hnumbered i).sent_one j (List.mem_reverse.2 hj)
    have hm' : (start net models).inFlight i j = [m] := hm
    have heq := ((hbegun i).sent j m (by rw [hm]; exact List.mem_singleton_self m)).1
    rw [lastGuarantee, hm', heq]
    rfl
  refine ⟨fun i j hj => ?_, fun i => ?_, fun i j hj => ?_, fun i => ?_, fun i j => ?_,
    fun i => (hbegun i).null_mem, fun i e he j hj _ => ((hnumbered i).own_id e he j hj).1,
    fun i j hj e _ => ?_, fun i j hj => ?_⟩
  · exact (hnumbered i).sent j fun h => hj (List.mem_reverse.1 h)
  · exact ((hbegun i).currentTs).le.trans (Nat.zero_le _)
  · exact ((hbegun i).safeTime).le.trans (Nat.zero_le _)
  · exact ((hbegun i).safeTime).le.trans (Nat.zero_le _)
  · have hzero : ((start net models).rank j).guaranteeTime i = 0 :=
      congrFun (hbegun j).guaranteeTime i
    rw [hzero]
    by_cases hj : j ∈ net.ranks i
    · obtain ⟨m, hm⟩ := (hnumbered i).sent_one j (List.mem_reverse.2 hj)
      have hm' : (start net models).inFlight i j = [m] := hm
      rw [hm']
      exact ⟨fun _ => Nat.zero_le _, Nat.zero_le _, trivial⟩
    · have hm' : (start net models).inFlight i j = [] :=
        (hnumbered i).sent j fun h => hj (List.mem_reverse.1 h)
      rw [hm']
      trivial
  · rw [hlast i j hj]
    exact .inr (Nat.le_add_left _ _)
  · rw [hlast i j hj]
    exact Nat.le_add_left _ _

theorem Ascending.le_of_mem {g : ℕ} {ms : List NullMessage} {m : NullMessage}
    (h : Ascending g ms) (hm : m ∈ ms) (hpos : 0 < m.time) : g ≤ m.time := by
  induction ms generalizing g with
  | nil => cases hm
  | cons m' ms ih =>
    rcases List.mem_cons.1 hm with rfl | hm
    · exact h.1 hpos
    · exact h.2.1.trans (ih h.2.2 hm)

/-- In a run of orderly handlers no assertion fails but that of `Next`, and that on a rank with one
neighbour only. No packet in flight will arrive in the past of its receiver. -/
theorem only_next_fails (net : NullMessageNetwork ι) (models : ι → List ℕ)
    (turns : List (Turn ι)) (ho : orderlyRun net (start net models) turns = true) :
    (∀ e, run net (start net models) turns = .error e →
      e = .noNextEvent ∧ ∃ i j, net.ranks i = [j]) ∧
    ∀ s, run net (start net models) turns = .ok s → ∀ i j, ∀ m ∈ s.inFlight i j,
      0 < m.time → (s.rank j).lp.currentTs ≤ m.time := by
  have hlive := (start_live net models).1
  rcases run_steady turns (start_steady models) hlive ho with ⟨heq, hone⟩ | ⟨s, heq, h⟩
  · rw [heq]
    exact ⟨fun e he => ⟨(Except.error.inj he).symm, hone⟩, nofun⟩
  · rw [heq]
    refine ⟨nofun, fun s' hs i j m hm hpos => ?_⟩
    cases hs
    have hij : i ∈ net.ranks j := by
      refine RemoteChannels.mem_ranks_comm.1 (by_contra fun hj => ?_)
      rw [h.silent i j hj] at hm
      cases hm
    exact ((h.now_le j).trans (h.safe_le j i hij)).trans ((h.ascending i j).le_of_mem hm hpos)

theorem only_next_fails_two_ranks :
    run twoRanks (start twoRanks twoRanksModels) twoRanksTurns ≠ .error .pastPacket := by
  intro h
  have hnext := ((only_next_fails twoRanks twoRanksModels twoRanksTurns (by decide)).1 _ h).1
  cases hnext

end NullMessageSystem

end Ns3Pedca
