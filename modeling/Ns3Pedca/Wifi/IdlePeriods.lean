import Ns3Pedca.Wifi.ChannelAccessManager

/-!
# Idle periods

`ChannelAccessManager` keeps the last idle period of each part of the operating channel, and makes
it up from the ends of the last busy conditions whenever one of these is about to change
(`UpdateLastIdlePeriod`). `GetLargestIdlePrimaryChannel` reads them in order.

`announced` collects what the PHY has announced. What is announced holds until it is replaced : a
new reception, transmission or CCA busy period of a channel ends the one before, a reception ends
with its notification and when a transmission or a switch starts, and a switch leaves the channels.
`largestIdlePrimaryChannel_idle` is about every run : nothing announced for the parts of a channel
that is returned overlaps with the interval.
-/

namespace Ns3Pedca

/-- `WifiChannelListType`. -/
inductive WifiChannelListType
  | primary
  | secondary
  | secondary40
  | secondary80
  | secondary160
  deriving DecidableEq

namespace WifiChannelListType

/-- The types, in the order of the enumeration. -/
def all : List WifiChannelListType :=
  [.primary, .secondary, .secondary40, .secondary80, .secondary160]

/-- The width of the primary channel that a part completes. -/
def width : WifiChannelListType → ℕ
  | .primary => 20
  | .secondary => 40
  | .secondary40 => 80
  | .secondary80 => 160
  | .secondary160 => 320

/-- The parts that make up the primary channel of a width. -/
def partsOf (w : ℕ) : List WifiChannelListType :=
  all.filter fun type => type.width ≤ w

theorem mem_all (type : WifiChannelListType) : type ∈ all := by
  cases type <;> decide

end WifiChannelListType

/-- What the PHY operates on. -/
structure OperatingChannel where
  isOfdm : Bool
  width : ℕ

/-- What the PHY announces periods of. -/
inductive Activity
  | rx
  | tx
  | switching
  | cca (type : WifiChannelListType)
  deriving DecidableEq

/-- The busy and idle times that the manager keeps. -/
structure ChannelTimes where
  now : Time := 0
  phy : Option OperatingChannel := none
  lastRx : Timespan := {}
  lastTxEnd : Time := 0
  lastSwitchingEnd : Time := 0
  lastNoPhy : Timespan := {}
  lastSleep : Timespan := {}
  lastOff : Timespan := {}
  lastBusyEnd : WifiChannelListType → Option Time
  lastIdle : WifiChannelListType → Option Timespan
  announced : Activity → List Timespan := fun _ => []

/-- What happens to the manager. -/
inductive ChannelEvent
  | elapse (d : ℕ)
  | rxStart (duration : ℕ)
  | rxEnd
  | txStart (duration : ℕ)
  | ccaBusyStart (duration : ℕ) (type : WifiChannelListType)
  | switchingStart (duration : ℕ) (channel : OperatingChannel)
  | sleep
  | wakeup
  | off
  | on
  | setupPhyListener (channel : OperatingChannel) (reactivated : Bool)
  | removePhyListener
  | getLargestIdlePrimaryChannel

namespace ChannelTimes

variable (s : ChannelTimes)

/-! ## What is announced -/

/-- A period that does not go on after `now`. -/
def cut (now : Time) (p : Timespan) : Timespan :=
  { p with finish := min p.finish now }

/-- The announced periods of some activities end. -/
def endActivities (which : Activity → Bool) : ChannelTimes :=
  { s with announced := fun a =>
      if which a then (s.announced a).map (cut s.now) else s.announced a }

/-- A period is announced, and replaces what is left of the one before. -/
def announce (a : Activity) (duration : ℕ) : ChannelTimes :=
  { s with announced := fun b =>
      if b = a then (s.announced b).map (cut s.now) ++ [⟨s.now, s.now + duration⟩]
      else s.announced b }

/-! ## The manager -/

/-- The last idle period of a part, if nothing else has kept it busy since `idleStart`. -/
def idlePeriod (idleStart : Time) (type : WifiChannelListType) : Option Timespan :=
  match s.lastBusyEnd type with
  | some busyEnd =>
    if busyEnd < s.now then (s.lastIdle type).map fun _ => ⟨max idleStart busyEnd, s.now⟩
    else s.lastIdle type
  | none => s.lastIdle type

/-- `UpdateLastIdlePeriod`. -/
def updateLastIdlePeriod : ChannelTimes :=
  let idleStart := [s.lastRx.finish, s.lastSwitchingEnd, s.lastNoPhy.finish, s.lastSleep.finish,
    s.lastOff.finish].foldl max s.lastTxEnd
  if s.now ≤ idleStart then s
  else { s with lastIdle := s.idlePeriod idleStart }

/-- The `emplace`s and `erase`s of `ResizeLastBusyStructs` on one of the two maps. -/
def resizeMap {α : Type} (phy : Option OperatingChannel) (value : α)
    (m : WifiChannelListType → Option α) (type : WifiChannelListType) : Option α :=
  if type = .primary then some ((m type).getD value)
  else match phy with
    | some channel =>
      if channel.isOfdm then
        if type.width ≤ channel.width then some ((m type).getD value) else none
      else m type
    | none => m type

/-- `ResizeLastBusyStructs`. The announcements for a channel that is left end. -/
def resizeLastBusyStructs : ChannelTimes :=
  let lastBusyEnd := resizeMap s.phy s.now s.lastBusyEnd
  { s with
    lastBusyEnd := lastBusyEnd
    lastIdle := resizeMap s.phy ⟨s.now, s.now⟩ s.lastIdle
    announced := fun a =>
      match a with
      | .cca type =>
        if (lastBusyEnd type).isNone then (s.announced a).map (cut s.now) else s.announced a
      | _ => s.announced a }

/-- `InitLastBusyStructs`. -/
def initLastBusyStructs : ChannelTimes :=
  let s := resizeLastBusyStructs s
  { s with
    lastBusyEnd := fun type => (s.lastBusyEnd type).map fun _ => s.now
    lastIdle := fun type => (s.lastIdle type).map fun _ => ⟨s.now, s.now⟩ }

/-- `ResetState`. -/
def resetState : ChannelTimes :=
  let s := updateLastIdlePeriod s
  initLastBusyStructs { s with
    lastRx := cut s.now s.lastRx
    lastNoPhy := cut s.now s.lastNoPhy
    lastSleep := cut s.now s.lastSleep
    lastOff := cut s.now s.lastOff }

/-- The loop of `GetLargestIdlePrimaryChannel`. -/
def idleWidth (interval finish : Time) : List Timespan → ℕ → ℕ
  | [], width => width
  | lastIdle :: rest, width =>
    if lastIdle.start ≤ finish - interval ∧ finish ≤ lastIdle.finish then
      idleWidth interval finish rest (if width = 0 then 20 else 2 * width)
    else width

/-- `GetLargestIdlePrimaryChannel`. -/
def getLargestIdlePrimaryChannel (interval finish : Time) : ℕ :=
  idleWidth interval finish
    (WifiChannelListType.all.filterMap (updateLastIdlePeriod s).lastIdle) 0

/-- `NotifyRxStartNow`. -/
def notifyRxStartNow (duration : ℕ) : ChannelTimes :=
  announce { updateLastIdlePeriod s with lastRx := ⟨s.now, s.now + duration⟩ } .rx duration

/-- `NotifyRxEndOkNow` and `NotifyRxEndErrorNow`. -/
def notifyRxEndNow : ChannelTimes :=
  endActivities { s with lastRx := { s.lastRx with finish := s.now } } (· = .rx)

/-- `NotifyTxStartNow`. -/
def notifyTxStartNow (duration : ℕ) : ChannelTimes :=
  let s :=
    if s.now < s.lastRx.finish then { s with lastRx := { s.lastRx with finish := s.now } }
    else updateLastIdlePeriod s
  announce (endActivities { s with lastTxEnd := s.now + duration } (· = .rx)) .tx duration

/-- `NotifyCcaBusyStartNow`, which asserts that there is such a channel. -/
def notifyCcaBusyStartNow (duration : ℕ) (type : WifiChannelListType) : Option ChannelTimes :=
  if (s.lastBusyEnd type).isSome then
    some (announce { updateLastIdlePeriod s with
      lastBusyEnd := Function.update s.lastBusyEnd type (some (s.now + duration)) }
      (.cca type) duration)
  else none

/-- `NotifySwitchingStartNow`, unless the PHY leaves for another link. -/
def notifySwitchingStartNow (duration : ℕ) (channel : OperatingChannel) : ChannelTimes :=
  let s := resetState (endActivities { s with phy := s.phy.map fun _ => channel } (· ≠ .tx))
  announce { s with lastSwitchingEnd := s.now + duration } .switching duration

/-- `SetupPhyListener`. -/
def setupPhyListener (channel : OperatingChannel) (reactivated : Bool) : ChannelTimes :=
  let s :=
    if reactivated then { s with lastNoPhy := { s.lastNoPhy with start := s.lastNoPhy.finish } }
    else if s.phy.isSome then s
    else endActivities { s with
      lastSwitchingEnd := s.now
      lastNoPhy := { s.lastNoPhy with finish := s.now } } (· = .switching)
  resizeLastBusyStructs { s with phy := some channel }

/-- One step. -/
def step : ChannelEvent → Option ChannelTimes
  | .elapse d => some { s with now := s.now + d }
  | .rxStart duration => some (notifyRxStartNow s duration)
  | .rxEnd => some (notifyRxEndNow s)
  | .txStart duration => some (notifyTxStartNow s duration)
  | .ccaBusyStart duration type => notifyCcaBusyStartNow s duration type
  | .switchingStart duration channel => some (notifySwitchingStartNow s duration channel)
  | .sleep => some { updateLastIdlePeriod s with lastSleep := { s.lastSleep with start := s.now } }
  | .wakeup => some { s with lastSleep := { s.lastSleep with finish := s.now } }
  | .off => some { updateLastIdlePeriod s with lastOff := { s.lastOff with start := s.now } }
  | .on => some { s with lastOff := { s.lastOff with finish := s.now } }
  | .setupPhyListener channel reactivated => some (setupPhyListener s channel reactivated)
  | .removePhyListener =>
    some { updateLastIdlePeriod s with
      phy := none
      lastNoPhy := { s.lastNoPhy with start := s.now } }
  | .getLargestIdlePrimaryChannel => some (updateLastIdlePeriod s)

/-- A manager without a PHY. -/
def init : ChannelTimes :=
  initLastBusyStructs { lastBusyEnd := fun _ => none, lastIdle := fun _ => none }

/-! ## The invariant -/

/-- The end of the last period of an activity, as the manager has it. -/
def lastEnd : Activity → Time
  | .rx => s.lastRx.finish
  | .tx => s.lastTxEnd
  | .switching => s.lastSwitchingEnd
  | .cca type => (s.lastBusyEnd type).getD s.now

/-- The activities that keep a part of the channel from being idle. -/
def activities (type : WifiChannelListType) : List Activity :=
  [.rx, .tx, .switching, .cca type]

/-- The times that the manager keeps are those of what is announced. -/
structure Tracks : Prop where
  started : ∀ a, ∀ p ∈ s.announced a, p.start ≤ s.now
  ends : ∀ a, ∀ p ∈ s.announced a, p.finish ≤ s.lastEnd a
  idle_le : ∀ type idle, s.lastIdle type = some idle → idle.finish ≤ s.now
  idle : ∀ type idle, s.lastIdle type = some idle → idle.start < idle.finish →
    ∀ a ∈ activities type, ∀ p ∈ s.announced a, p.finish ≤ idle.start ∨ idle.finish ≤ p.start
  closed : ∀ type type', type.width ≤ type'.width → s.lastIdle type = none →
    s.lastIdle type' = none

variable {s} {t : ChannelTimes}

/-- A change that shortens what is announced, and adds what starts now. -/
theorem Tracks.of_announced (h : s.Tracks) (hnow : t.now = s.now) (hidle : t.lastIdle = s.lastIdle)
    (hann : ∀ a, ∀ p' ∈ t.announced a, p'.start = s.now ∨
      ∃ p ∈ s.announced a, p'.start = p.start ∧ p'.finish ≤ p.finish)
    (hends : ∀ a, ∀ p' ∈ t.announced a, p'.finish ≤ t.lastEnd a) : t.Tracks where
  started a p' hp' := by
    rw [hnow]
    rcases hann a p' hp' with heq | ⟨p, hp, heq, -⟩
    · exact heq.le
    · exact heq.trans_le (h.started a p hp)
  ends := hends
  idle_le type idle hi := by
    rw [hidle] at hi
    rw [hnow]
    exact h.idle_le type idle hi
  idle type idle hi hpos a ha p' hp' := by
    rw [hidle] at hi
    rcases hann a p' hp' with heq | ⟨p, hp, heq, hle⟩
    · exact Or.inr ((h.idle_le type idle hi).trans heq.ge)
    · rw [heq]
      exact (h.idle type idle hi hpos a ha p hp).imp hle.trans id
  closed type type' hle hnone := by
    rw [hidle] at hnone ⊢
    exact h.closed type type' hle hnone

/-- A change of other times. -/
theorem Tracks.of_same (h : s.Tracks) (hnow : t.now = s.now) (hidle : t.lastIdle = s.lastIdle)
    (hann : t.announced = s.announced) (hends : ∀ a, s.lastEnd a ≤ t.lastEnd a) : t.Tracks := by
  refine h.of_announced hnow hidle (fun a p hp => Or.inr ⟨p, ?_, rfl, le_rfl⟩) fun a p hp => ?_
  · rwa [hann] at hp
  · rw [hann] at hp
    exact (h.ends a p hp).trans (hends a)

theorem idlePeriod_cases {idleStart : Time} {type : WifiChannelListType} {idle : Timespan}
    (hi : s.idlePeriod idleStart type = some idle) : s.lastIdle type = some idle ∨
      ∃ busyEnd, s.lastBusyEnd type = some busyEnd ∧ idle = ⟨max idleStart busyEnd, s.now⟩ := by
  unfold idlePeriod at hi
  split at hi
  next busyEnd hbusy =>
    split at hi
    · obtain ⟨_, -, rfl⟩ := Option.map_eq_some_iff.1 hi
      exact Or.inr ⟨busyEnd, hbusy, rfl⟩
    · exact Or.inl hi
  next => exact Or.inl hi

theorem idlePeriod_eq_none {idleStart : Time} {type : WifiChannelListType} :
    s.idlePeriod idleStart type = none ↔ s.lastIdle type = none := by
  unfold idlePeriod
  split
  · split
    · exact Option.map_eq_none_iff
    · exact Iff.rfl
  · exact Iff.rfl

theorem Tracks.updateLastIdlePeriod (h : s.Tracks) : s.updateLastIdlePeriod.Tracks := by
  unfold ChannelTimes.updateLastIdlePeriod
  dsimp only
  generalize hstart : [s.lastRx.finish, s.lastSwitchingEnd, s.lastNoPhy.finish, s.lastSleep.finish,
    s.lastOff.finish].foldl max s.lastTxEnd = idleStart
  have hle : s.lastRx.finish ≤ idleStart ∧ s.lastTxEnd ≤ idleStart ∧
      s.lastSwitchingEnd ≤ idleStart := by
    rw [← hstart]
    refine ⟨Medium.le_foldl_max (Or.inr (by simp)), Medium.le_foldl_max (Or.inl le_rfl),
      Medium.le_foldl_max (Or.inr (by simp))⟩
  split
  · exact h
  · refine ⟨h.started, h.ends, fun type idle hi => ?_, fun type idle hi hpos a ha p hp => ?_,
      fun type type' hwidth hnone => ?_⟩
    · rcases idlePeriod_cases hi with hi | ⟨busyEnd, -, rfl⟩
      · exact h.idle_le type idle hi
      · exact le_rfl
    · rcases idlePeriod_cases hi with hi | ⟨busyEnd, hbusy, rfl⟩
      · exact h.idle type idle hi hpos a ha p hp
      · -- what is announced has ended where the new period starts
        have hend := h.ends a p hp
        refine Or.inl (hend.trans ?_)
        simp only [activities, List.mem_cons, List.not_mem_nil, or_false] at ha
        rcases ha with rfl | rfl | rfl | rfl
        · exact hle.1.trans (le_max_left _ _)
        · exact hle.2.1.trans (le_max_left _ _)
        · exact hle.2.2.trans (le_max_left _ _)
        · rw [lastEnd, hbusy]
          exact le_max_right _ _
    · exact idlePeriod_eq_none.2 (h.closed type type' hwidth (idlePeriod_eq_none.1 hnone))

theorem mem_announce {a b : Activity} {duration : ℕ} {p : Timespan}
    (hp : p ∈ (s.announce a duration).announced b) :
    (b = a ∧ p = ⟨s.now, s.now + duration⟩) ∨
      ∃ q ∈ s.announced b, (b = a → p = cut s.now q) ∧ (b ≠ a → p = q) := by
  change p ∈ (if b = a then _ else _) at hp
  split_ifs at hp with hb
  · rcases List.mem_append.1 hp with hp | hp
    · obtain ⟨q, hq, rfl⟩ := List.mem_map.1 hp
      exact Or.inr ⟨q, hq, fun _ => rfl, fun hne => absurd hb hne⟩
    · exact Or.inl ⟨hb, List.mem_singleton.1 hp⟩
  · exact Or.inr ⟨p, hp, fun heq => absurd heq hb, fun _ => rfl⟩

theorem mem_endActivities {which : Activity → Bool} {a : Activity} {p : Timespan}
    (hp : p ∈ (s.endActivities which).announced a) :
    ∃ q ∈ s.announced a, (which a = true → p = cut s.now q) ∧ (which a = false → p = q) := by
  change p ∈ (if which a = true then _ else _) at hp
  split_ifs at hp with ha
  · obtain ⟨q, hq, rfl⟩ := List.mem_map.1 hp
    refine ⟨q, hq, fun _ => rfl, fun hno => ?_⟩
    rw [ha] at hno
    cases hno
  · exact ⟨p, hp, fun heq => absurd heq ha, fun _ => rfl⟩

/-- A new period of an activity, with the other ends as they were. -/
theorem Tracks.announce (h : s.Tracks) {a : Activity} {duration : ℕ} (hnow : t.now = s.now)
    (hidle : t.lastIdle = s.lastIdle) (hann : t.announced = s.announced)
    (hend : t.lastEnd a = s.now + duration) (hends : ∀ b, b ≠ a → s.lastEnd b ≤ t.lastEnd b) :
    (t.announce a duration).Tracks := by
  refine h.of_announced hnow hidle (fun b p hp => ?_) fun b p hp => ?_
  · rcases mem_announce hp with ⟨-, rfl⟩ | ⟨q, hq, hcut, hsame⟩
    · exact Or.inl hnow
    · rw [hann] at hq
      refine Or.inr ⟨q, hq, ?_⟩
      by_cases hb : b = a
      · rw [hcut hb]
        exact ⟨rfl, min_le_left _ _⟩
      · rw [hsame hb]
        exact ⟨rfl, le_rfl⟩
  · change _ ≤ t.lastEnd b
    rcases mem_announce hp with ⟨rfl, rfl⟩ | ⟨q, hq, hcut, hsame⟩
    · rw [hend, hnow]
    · rw [hann] at hq
      by_cases hb : b = a
      · rw [hcut hb, hb, hend]
        exact (min_le_right _ _).trans (hnow.trans_le (le_add_of_nonneg_right
          (Int.natCast_nonneg duration)))
      · rw [hsame hb]
        exact (h.ends b q hq).trans (hends b hb)

/-- Activities end now, with the other ends as they were. -/
theorem Tracks.endActivities (h : s.Tracks) (which : Activity → Bool) (hnow : t.now = s.now)
    (hidle : t.lastIdle = s.lastIdle) (hann : t.announced = s.announced)
    (hends : ∀ a, min (s.lastEnd a) s.now ≤ t.lastEnd a)
    (hother : ∀ a, which a = false → s.lastEnd a ≤ t.lastEnd a) :
    (t.endActivities which).Tracks := by
  refine h.of_announced hnow hidle (fun a p hp => ?_) fun a p hp => ?_
  · obtain ⟨q, hq, hcut, hsame⟩ := mem_endActivities hp
    rw [hann] at hq
    refine Or.inr ⟨q, hq, ?_⟩
    cases hwhich : which a with
    | true =>
      rw [hcut hwhich]
      exact ⟨rfl, min_le_left _ _⟩
    | false =>
      rw [hsame hwhich]
      exact ⟨rfl, le_rfl⟩
  · change _ ≤ t.lastEnd a
    obtain ⟨q, hq, hcut, hsame⟩ := mem_endActivities hp
    rw [hann] at hq
    cases hwhich : which a with
    | true =>
      rw [hcut hwhich]
      exact (min_le_min (h.ends a q hq) hnow.le).trans (hends a)
    | false =>
      rw [hsame hwhich]
      exact (h.ends a q hq).trans (hother a hwhich)

/-! ## The two maps -/

theorem eq_getD_of_resizeMap {α : Type} {phy : Option OperatingChannel} {value x : α}
    {m : WifiChannelListType → Option α} {type : WifiChannelListType}
    (hx : resizeMap phy value m type = some x) : x = (m type).getD value := by
  unfold resizeMap at hx
  split_ifs at hx with hprimary
  · exact (Option.some_inj.1 hx).symm
  · cases phy with
    | none =>
      dsimp only at hx
      rw [hx, Option.getD_some]
    | some channel =>
      dsimp only at hx
      split_ifs at hx
      · exact (Option.some_inj.1 hx).symm
      · rw [hx, Option.getD_some]

theorem resizeMap_closed {α : Type} {phy : Option OperatingChannel} {value : α}
    {m : WifiChannelListType → Option α} {type type' : WifiChannelListType}
    (hm : m type = none → m type' = none) (hwidth : type.width ≤ type'.width)
    (hnone : resizeMap phy value m type = none) : resizeMap phy value m type' = none := by
  unfold resizeMap at hnone ⊢
  split_ifs at hnone with hprimary
  have hprimary' : type' ≠ .primary := by
    rintro rfl
    cases type with
    | primary => exact hprimary rfl
    | secondary => exact absurd hwidth (by decide)
    | secondary40 => exact absurd hwidth (by decide)
    | secondary80 => exact absurd hwidth (by decide)
    | secondary160 => exact absurd hwidth (by decide)
  rw [if_neg hprimary']
  cases phy with
  | none => exact hm hnone
  | some channel =>
    dsimp only at hnone ⊢
    split_ifs at hnone ⊢ with hofdm hle hle'
    · exact absurd (hwidth.trans hle) hle'
    · rfl
    · exact hm hnone

theorem mem_resizeLastBusyStructs {a : Activity} {p : Timespan}
    (hp : p ∈ s.resizeLastBusyStructs.announced a) :
    ∃ q ∈ s.announced a, p = q ∨ p = cut s.now q := by
  cases a with
  | cca type =>
    change p ∈ (if _ then _ else _) at hp
    split_ifs at hp
    · obtain ⟨q, hq, rfl⟩ := List.mem_map.1 hp
      exact ⟨q, hq, Or.inr rfl⟩
    · exact ⟨p, hp, Or.inl rfl⟩
  | rx => exact ⟨p, hp, Or.inl rfl⟩
  | tx => exact ⟨p, hp, Or.inl rfl⟩
  | switching => exact ⟨p, hp, Or.inl rfl⟩

theorem Tracks.resizeLastBusyStructs (h : s.Tracks) : s.resizeLastBusyStructs.Tracks where
  started a p hp := by
    obtain ⟨q, hq, rfl | rfl⟩ := mem_resizeLastBusyStructs hp
    · exact h.started a p hq
    · exact h.started a q hq
  ends a p hp := by
    cases a with
    | cca type =>
      change p ∈ (if _ then _ else _) at hp
      change p.finish ≤ (resizeMap s.phy s.now s.lastBusyEnd type).getD s.now
      cases hbusy : resizeMap s.phy s.now s.lastBusyEnd type with
      | none =>
        rw [hbusy, Option.isNone_none, if_pos rfl] at hp
        obtain ⟨q, hq, rfl⟩ := List.mem_map.1 hp
        exact min_le_right _ _
      | some busyEnd =>
        rw [hbusy] at hp
        rw [Option.getD_some, eq_getD_of_resizeMap hbusy]
        exact h.ends (.cca type) p hp
    | rx => exact h.ends .rx p hp
    | tx => exact h.ends .tx p hp
    | switching => exact h.ends .switching p hp
  idle_le type idle hi := by
    have heq := eq_getD_of_resizeMap hi
    cases hold : s.lastIdle type with
    | none =>
      rw [heq, hold]
      exact le_rfl
    | some idle' =>
      rw [heq, hold]
      exact h.idle_le type idle' hold
  idle type idle hi hpos a ha p hp := by
    have heq := eq_getD_of_resizeMap hi
    cases hold : s.lastIdle type with
    | none =>
      rw [heq, hold] at hpos
      exact absurd hpos (lt_irrefl s.now)
    | some idle' =>
      rw [hold, Option.getD_some] at heq
      rw [heq] at hpos ⊢
      obtain ⟨q, hq, rfl | rfl⟩ := mem_resizeLastBusyStructs hp
      · exact h.idle type idle' hold hpos a ha p hq
      · exact (h.idle type idle' hold hpos a ha q hq).imp (min_le_left _ _).trans id
  closed type type' hwidth hnone :=
    resizeMap_closed (h.closed type type' hwidth) hwidth hnone

theorem Tracks.initLastBusyStructs (h : s.Tracks)
    (hcut : ∀ type, ∀ p ∈ s.announced (.cca type), p.finish ≤ s.now) :
    s.initLastBusyStructs.Tracks where
  started := h.resizeLastBusyStructs.started
  ends a p hp := by
    cases a with
    | cca type =>
      change p.finish ≤ ((s.resizeLastBusyStructs.lastBusyEnd type).map fun _ => s.now).getD s.now
      have hend : ((s.resizeLastBusyStructs.lastBusyEnd type).map fun _ => s.now).getD s.now =
          s.now := by
        cases s.resizeLastBusyStructs.lastBusyEnd type <;> rfl
      have hp' : p ∈ s.resizeLastBusyStructs.announced (.cca type) := hp
      rw [hend]
      obtain ⟨q, hq, rfl | rfl⟩ := mem_resizeLastBusyStructs hp'
      · exact hcut type p hq
      · exact min_le_right _ _
    | rx => exact h.resizeLastBusyStructs.ends .rx p hp
    | tx => exact h.resizeLastBusyStructs.ends .tx p hp
    | switching => exact h.resizeLastBusyStructs.ends .switching p hp
  idle_le type idle hi := by
    obtain ⟨_, -, rfl⟩ := Option.map_eq_some_iff.1 hi
    exact le_rfl
  idle type idle hi hpos a ha p hp := by
    obtain ⟨_, -, rfl⟩ := Option.map_eq_some_iff.1 hi
    exact absurd hpos (lt_irrefl _)
  closed type type' hwidth hnone := Option.map_eq_none_iff.2
    (h.resizeLastBusyStructs.closed type type' hwidth (Option.map_eq_none_iff.1 hnone))

/-! ## Steps -/

/-- `UpdateLastIdlePeriod` changes the idle periods only. -/
theorem updateLastIdlePeriod_eq : ∃ lastIdle,
    s.updateLastIdlePeriod = { s with lastIdle := lastIdle } := by
  unfold ChannelTimes.updateLastIdlePeriod
  dsimp only
  split
  · exact ⟨s.lastIdle, rfl⟩
  · exact ⟨_, rfl⟩

theorem Tracks.notifyRxStartNow (h : s.Tracks) (duration : ℕ) :
    (s.notifyRxStartNow duration).Tracks := by
  have hupdate := h.updateLastIdlePeriod
  obtain ⟨lastIdle, heq⟩ := updateLastIdlePeriod_eq (s := s)
  unfold ChannelTimes.notifyRxStartNow
  rw [heq] at hupdate ⊢
  refine hupdate.announce rfl rfl rfl rfl fun b hb => ?_
  cases b with
  | rx => exact absurd rfl hb
  | tx => exact le_rfl
  | switching => exact le_rfl
  | cca type => exact le_rfl

theorem Tracks.endRx (h : s.Tracks) :
    (ChannelTimes.endActivities { s with lastRx := { s.lastRx with finish := s.now } }
      (· = .rx)).Tracks := by
  refine h.endActivities _ rfl rfl rfl (fun a => ?_) fun a ha => ?_
  · cases a with
    | rx => exact min_le_right _ _
    | tx => exact min_le_left _ _
    | switching => exact min_le_left _ _
    | cca type => exact min_le_left _ _
  · cases a with
    | rx => cases ha
    | tx => exact le_rfl
    | switching => exact le_rfl
    | cca type => exact le_rfl

theorem Tracks.notifyTxStartNow (h : s.Tracks) (duration : ℕ) :
    (s.notifyTxStartNow duration).Tracks := by
  have hends : ∀ u t : ChannelTimes, t.lastRx.finish = u.lastRx.finish →
      t.lastSwitchingEnd = u.lastSwitchingEnd → t.lastBusyEnd = u.lastBusyEnd → t.now = u.now →
        ∀ b, b ≠ .tx → u.lastEnd b ≤ t.lastEnd b := by
    intro u t hrx hswitching hbusy hnow b hb
    cases b with
    | rx => exact hrx.ge
    | tx => exact absurd rfl hb
    | switching => exact hswitching.ge
    | cca type =>
      rw [lastEnd, lastEnd, hbusy, hnow]
  unfold ChannelTimes.notifyTxStartNow
  split
  · exact h.endRx.announce rfl rfl rfl rfl (hends _ _ rfl rfl rfl rfl)
  · have hupdate := h.updateLastIdlePeriod
    obtain ⟨lastIdle, heq⟩ := updateLastIdlePeriod_eq (s := s)
    rw [heq] at hupdate ⊢
    have hrx := hupdate.endActivities (· = .rx) rfl rfl rfl
      (fun a => min_le_left _ _) fun a _ => le_rfl
    exact hrx.announce rfl rfl rfl rfl (hends _ _ rfl rfl rfl rfl)

theorem Tracks.notifyCcaBusyStartNow (h : s.Tracks) {duration : ℕ} {type : WifiChannelListType}
    (ht : s.notifyCcaBusyStartNow duration type = some t) : t.Tracks := by
  have hupdate := h.updateLastIdlePeriod
  obtain ⟨lastIdle, heq⟩ := updateLastIdlePeriod_eq (s := s)
  unfold ChannelTimes.notifyCcaBusyStartNow at ht
  rw [heq] at hupdate ht
  split at ht
  next hsome =>
    cases ht
    refine hupdate.announce rfl rfl rfl ?_ fun b hb => ?_
    · rw [lastEnd]
      dsimp only
      rw [Function.update_self, Option.getD_some]
    · cases b with
      | rx => exact le_rfl
      | tx => exact le_rfl
      | switching => exact le_rfl
      | cca type' =>
        rw [lastEnd, lastEnd]
        dsimp only
        rw [Function.update_of_ne fun htype => hb (congrArg Activity.cca htype)]
  next => cases ht

theorem Tracks.notifySwitchingStartNow (h : s.Tracks) (duration : ℕ) (channel : OperatingChannel) :
    (s.notifySwitchingStartNow duration channel).Tracks := by
  have hphy : ({ s with phy := s.phy.map fun _ => channel } : ChannelTimes).Tracks :=
    h.of_same rfl rfl rfl fun _ => le_rfl
  have hend := hphy.endActivities (· ≠ .tx) rfl rfl rfl (fun a => min_le_left _ _)
    fun a _ => le_rfl
  -- all that has been announced is over, up to transmissions
  have hover : ∀ a, a ≠ .tx → ∀ p ∈ (ChannelTimes.endActivities
      { s with phy := s.phy.map fun _ => channel } (· ≠ .tx)).announced a, p.finish ≤ s.now := by
    intro a ha p hp
    obtain ⟨q, -, hcut, -⟩ := mem_endActivities hp
    rw [hcut (decide_eq_true ha)]
    exact min_le_right _ _
  unfold ChannelTimes.notifySwitchingStartNow resetState
  dsimp only
  generalize hu : ChannelTimes.endActivities { s with phy := s.phy.map fun _ => channel }
    (· ≠ .tx) = u at hend hover
  have hnow : u.now = s.now := by
    rw [← hu]
    rfl
  rw [← hnow] at hover
  have hupdate := hend.updateLastIdlePeriod
  obtain ⟨lastIdle, heq⟩ := updateLastIdlePeriod_eq (s := u)
  rw [heq] at hupdate ⊢
  have hreset : ({ u with
      lastIdle := lastIdle
      lastRx := cut u.now u.lastRx
      lastNoPhy := cut u.now u.lastNoPhy
      lastSleep := cut u.now u.lastSleep
      lastOff := cut u.now u.lastOff } : ChannelTimes).Tracks := by
    refine hupdate.of_announced rfl rfl (fun a p hp => Or.inr ⟨p, hp, rfl, le_rfl⟩) fun a p hp => ?_
    cases a with
    | rx => exact le_min (hupdate.ends .rx p hp) (hover .rx (by decide) p hp)
    | tx => exact hupdate.ends .tx p hp
    | switching => exact hupdate.ends .switching p hp
    | cca type => exact hupdate.ends (.cca type) p hp
  refine (hreset.initLastBusyStructs fun type p hp => hover (.cca type) (by simp) p hp).announce
    rfl rfl rfl rfl fun b hb => ?_
  cases b with
  | rx => exact le_rfl
  | tx => exact le_rfl
  | switching => exact absurd rfl hb
  | cca type => exact le_rfl

theorem Tracks.setupPhyListener (h : s.Tracks) (channel : OperatingChannel) (reactivated : Bool) :
    (s.setupPhyListener channel reactivated).Tracks := by
  have hset : ∀ u : ChannelTimes, u.Tracks →
      ({ u with phy := some channel } : ChannelTimes).Tracks :=
    fun u hu => hu.of_same rfl rfl rfl fun _ => le_rfl
  unfold ChannelTimes.setupPhyListener
  refine Tracks.resizeLastBusyStructs (hset _ ?_)
  split_ifs
  · exact h.of_same rfl rfl rfl fun _ => le_rfl
  · exact h
  · refine h.endActivities _ rfl rfl rfl (fun a => ?_) fun a ha => ?_
    · cases a with
      | rx => exact min_le_left _ _
      | tx => exact min_le_left _ _
      | switching => exact min_le_right _ _
      | cca type => exact min_le_left _ _
    · cases a with
      | rx => exact le_rfl
      | tx => exact le_rfl
      | switching => cases ha
      | cca type => exact le_rfl

theorem Tracks.step {ev : ChannelEvent} (h : s.Tracks) (ht : s.step ev = some t) : t.Tracks := by
  have hupdate := h.updateLastIdlePeriod
  cases ev with
  | elapse d =>
    cases ht
    have hle : s.now ≤ s.now + d := le_add_of_nonneg_right (Int.natCast_nonneg d)
    refine ⟨fun a p hp => (h.started a p hp).trans hle, fun a p hp => (h.ends a p hp).trans ?_,
      fun type idle hi => (h.idle_le type idle hi).trans hle, h.idle, h.closed⟩
    cases a with
    | rx => exact le_rfl
    | tx => exact le_rfl
    | switching => exact le_rfl
    | cca type =>
      change (s.lastBusyEnd type).getD s.now ≤ (s.lastBusyEnd type).getD (s.now + d)
      cases s.lastBusyEnd type with
      | none => exact hle
      | some busyEnd => exact le_rfl
  | rxStart duration =>
    cases ht
    exact h.notifyRxStartNow duration
  | rxEnd =>
    cases ht
    exact h.endRx
  | txStart duration =>
    cases ht
    exact h.notifyTxStartNow duration
  | ccaBusyStart duration type => exact h.notifyCcaBusyStartNow ht
  | switchingStart duration channel =>
    cases ht
    exact h.notifySwitchingStartNow duration channel
  | sleep =>
    cases ht
    exact hupdate.of_same rfl rfl rfl fun _ => le_rfl
  | wakeup =>
    cases ht
    exact h.of_same rfl rfl rfl fun _ => le_rfl
  | off =>
    cases ht
    exact hupdate.of_same rfl rfl rfl fun _ => le_rfl
  | on =>
    cases ht
    exact h.of_same rfl rfl rfl fun _ => le_rfl
  | setupPhyListener channel reactivated =>
    cases ht
    exact h.setupPhyListener channel reactivated
  | removePhyListener =>
    cases ht
    exact hupdate.of_same rfl rfl rfl fun _ => le_rfl
  | getLargestIdlePrimaryChannel =>
    cases ht
    exact hupdate

/-! ## The largest idle channel -/

/-- Each part doubles the width that the parts before it make up. -/
def Doubles : ℕ → List WifiChannelListType → Prop
  | _, [] => True
  | width, type :: types =>
    width < type.width ∧ type.width = (if width = 0 then 20 else 2 * width) ∧
      Doubles type.width types

instance doubles_decidable : ∀ (width : ℕ) (types : List WifiChannelListType),
    Decidable (Doubles width types)
  | _, [] => inferInstanceAs (Decidable True)
  | _, type :: types =>
    have := doubles_decidable type.width types
    inferInstanceAs (Decidable (_ ∧ _ ∧ _))

theorem Doubles.lt {width : ℕ} {types : List WifiChannelListType} (h : Doubles width types) :
    ∀ type ∈ types, width < type.width := by
  induction types generalizing width with
  | nil => exact fun _ hmem => absurd hmem List.not_mem_nil
  | cons type types ih =>
    refine List.forall_mem_cons.2 ⟨h.1, fun type' hmem => ?_⟩
    exact h.1.trans (ih h.2.2 type' hmem)

/-- The parts of the channel of the width that the loop returns have been idle. -/
theorem idle_of_le_idleWidth {interval finish : Time} {lastIdle : WifiChannelListType →
    Option Timespan} {types : List WifiChannelListType} {width : ℕ} (hdouble : Doubles width types)
    (hclosed : ∀ type type', type.width ≤ type'.width → lastIdle type = none →
      lastIdle type' = none) :
    ∀ type ∈ types, type.width ≤ idleWidth interval finish (types.filterMap lastIdle) width →
      ∃ idle, lastIdle type = some idle ∧ idle.start ≤ finish - interval ∧
        finish ≤ idle.finish := by
  induction types generalizing width with
  | nil => exact fun _ hmem => absurd hmem List.not_mem_nil
  | cons type types ih =>
    have hlt := hdouble.lt
    obtain ⟨-, hnext, hrest⟩ := hdouble
    intro type' hmem hle
    cases hidle : lastIdle type with
    | none =>
      have hnil : (type :: types).filterMap lastIdle = [] := by
        refine List.filterMap_eq_nil_iff.2 (List.forall_mem_cons.2 ⟨hidle, fun type'' hmem' => ?_⟩)
        exact hclosed type type'' (hrest.lt type'' hmem').le hidle
      rw [hnil, idleWidth] at hle
      exact absurd hle (not_le.2 (hlt type' hmem))
    | some idle =>
      rw [List.filterMap_cons_some hidle, idleWidth, ← hnext] at hle
      split at hle
      next htest =>
        rcases List.mem_cons.1 hmem with rfl | hmem
        · exact ⟨idle, hidle, htest⟩
        · exact ih hrest type' hmem hle
      next => exact absurd hle (not_le.2 (hlt type' hmem))

theorem le_idleWidth {interval finish : Time} (l : List Timespan) (width : ℕ) :
    width ≤ idleWidth interval finish l width := by
  induction l generalizing width with
  | nil => exact le_rfl
  | cons idle l ih =>
    rw [idleWidth]
    split
    · refine le_trans ?_ (ih _)
      split <;> omega
    · exact le_rfl

/-- The primary 20 MHz channel is part of whatever channel is returned. -/
theorem largestIdlePrimaryChannel_eq_zero {interval finish : Time}
    (h : ¬ WifiChannelListType.primary.width ≤ s.getLargestIdlePrimaryChannel interval finish) :
    s.getLargestIdlePrimaryChannel interval finish = 0 := by
  unfold getLargestIdlePrimaryChannel at h ⊢
  generalize WifiChannelListType.all.filterMap s.updateLastIdlePeriod.lastIdle = l at h ⊢
  cases l with
  | nil => rfl
  | cons idle l =>
    rw [idleWidth, if_pos rfl] at h ⊢
    split at h
    next => exact absurd (le_idleWidth l 20) h
    next hnot => exact if_neg hnot

/-- A period has some time in common with the interval up to `finish`. -/
def Overlaps (interval finish : Time) (p : Timespan) : Prop :=
  p.start < finish ∧ finish - interval < p.finish

theorem Tracks.not_overlaps (h : s.Tracks) {interval finish : Time} (hinterval : 0 < interval)
    {type : WifiChannelListType} (hle : type.width ≤ s.getLargestIdlePrimaryChannel interval finish)
    {a : Activity} (ha : a ∈ activities type) {p : Timespan} (hp : p ∈ s.announced a) :
    ¬ Overlaps interval finish p := by
  have hupdate := h.updateLastIdlePeriod
  obtain ⟨idle, hidle, hstart, hfinish⟩ := idle_of_le_idleWidth (by decide) hupdate.closed type
    (WifiChannelListType.mem_all type) hle
  obtain ⟨lastIdle, heq⟩ := updateLastIdlePeriod_eq (s := s)
  have hpos : idle.start < idle.finish :=
    (hstart.trans_lt (sub_lt_self finish hinterval)).trans_le hfinish
  have hann : s.updateLastIdlePeriod.announced = s.announced := by rw [heq]
  rw [← hann] at hp
  rintro ⟨hbefore, hafter⟩
  rcases hupdate.idle type idle hidle hpos a ha p hp with hend | hbegin
  · exact absurd (hend.trans hstart) (not_le.2 hafter)
  · exact absurd (hfinish.trans hbegin) (not_le.2 hbefore)

theorem tracks_init : init.Tracks := by
  refine Tracks.initLastBusyStructs ⟨fun _ _ hp => absurd hp List.not_mem_nil,
    fun _ _ hp => absurd hp List.not_mem_nil, fun _ _ hi => ?_, fun _ _ hi => ?_,
    fun _ _ _ _ => rfl⟩ fun _ _ hp => absurd hp List.not_mem_nil
  · cases hi
  · cases hi

/-- After any run, nothing that has been announced for the parts of the channel that is returned
overlaps with the interval, and if something for the primary 20 MHz channel does, none is
returned. -/
theorem largestIdlePrimaryChannel_idle {interval : Time} (hinterval : 0 < interval) (finish : Time)
    (hs : Runs.Reached ChannelTimes.step (fun _ _ => True) init s) :
    (∀ type ∈ WifiChannelListType.partsOf (s.getLargestIdlePrimaryChannel interval finish),
      ∀ a ∈ activities type, ∀ p ∈ s.announced a, ¬ Overlaps interval finish p) ∧
    ((∃ a ∈ activities .primary, ∃ p ∈ s.announced a, Overlaps interval finish p) →
      s.getLargestIdlePrimaryChannel interval finish = 0) := by
  have htracks : s.Tracks := hs.invariant (fun _ _ _ h _ ht => h.step ht) tracks_init
  refine ⟨fun type htype a ha p hp => ?_, ?_⟩
  · have hle := (List.mem_filter.1 htype).2
    exact htracks.not_overlaps hinterval (of_decide_eq_true hle) ha hp
  · rintro ⟨a, ha, p, hp, hoverlaps⟩
    exact largestIdlePrimaryChannel_eq_zero fun hle =>
      htracks.not_overlaps hinterval hle ha hp hoverlaps

/-- A channel of 80 MHz, where the secondary 40 MHz channel is busy for a while. -/
def busySecondary40 : List ChannelEvent :=
  [.setupPhyListener ⟨true, 80⟩ false, .elapse 100, .ccaBusyStart 50 .secondary40, .elapse 200,
    .rxStart 30, .rxEnd, .elapse 25]

/-- After the reception all the parts have been idle. -/
theorem largestIdlePrimaryChannel_busySecondary40 : ∃ s,
    Runs.Reached ChannelTimes.step (fun _ _ => True) init s ∧
      s.getLargestIdlePrimaryChannel 20 s.now = 80 ∧
      ∀ type ∈ WifiChannelListType.partsOf 80, ∀ a ∈ activities type, ∀ p ∈ s.announced a,
        ¬ Overlaps 20 s.now p := by
  have hrun : (busySecondary40.foldlM ChannelTimes.step init).any
      (fun s => s.getLargestIdlePrimaryChannel 20 s.now = 80) = true := by
    decide +kernel
  obtain ⟨s, hs, hwidth⟩ := (Option.any_eq_true _ _).1 hrun
  have hreached := Runs.Reached.start.of_foldlM hs
  have hidle := (largestIdlePrimaryChannel_idle (show (0 : Time) < 20 by decide) s.now hreached).1
  rw [of_decide_eq_true hwidth] at hidle
  exact ⟨s, hreached, of_decide_eq_true hwidth, hidle⟩

end ChannelTimes

end Ns3Pedca
