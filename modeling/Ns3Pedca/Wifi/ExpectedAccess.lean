import Ns3Pedca.Runs
import Ns3Pedca.Wifi.AccessGrant

/-!
# Expected access

`GetExpectedAccessWithin` says whether access is expected to be granted within a delay. It computes
the ends of the backoffs from the AIFSNs of now, as `DoGrantDcfAccess` does for the moment it is
called. It asks that one of them lies between now and the deadline, whereas access is granted from
the end of a backoff on, to a `Txop` whose EDCA is not disabled, with the AIFSN of then.

`agrees_iff` says when the two agree : `backoffEnds` is the end of a backoff with the end of an MU
EDCA timer taken into account. In `not_agrees` the EDCA is disabled until shortly before the
deadline, and the AIFSN that then holds takes the end of the backoff past it.
-/

set_option linter.unusedSectionVars false

namespace Ns3Pedca

/-- `WifiExpectedAccessReason`. -/
inductive WifiExpectedAccessReason
  | accessExpected
  | notRequested
  | nothingToTx
  | rxEnd
  | busyEnd
  | txEnd
  | navEnd
  | ackTimerEnd
  | ctsTimerEnd
  | switchingEnd
  | noPhyEnd
  | sleepEnd
  | offEnd
  | backoffEnd
  deriving DecidableEq

namespace Medium

variable (m : Medium) (now : Time)

/-- The reasons of the times that `DoGetAccessGrantStart` returns. -/
def accessGrantReasons : List WifiExpectedAccessReason :=
  [.busyEnd, .rxEnd, .txEnd, .navEnd, .ackTimerEnd, .ctsTimerEnd, .switchingEnd, .noPhyEnd,
    .sleepEnd, .offEnd]

/-- The multimap that `DoGetAccessGrantStart` returns : equal times stay in the order in which they
were put there. -/
def timeReasonMap : List (Time × WifiExpectedAccessReason) :=
  ((m.doGetAccessGrantStart now).zip accessGrantReasons).insertionSort (·.1 ≤ ·.1)

/-- The medium is in sleep mode or off, for the manager. -/
def Asleep : Prop :=
  m.lastSleep.finish < m.lastSleep.start ∨ m.lastOff.finish < m.lastOff.start

instance asleep_decidable : Decidable m.Asleep :=
  inferInstanceAs (Decidable (_ ∨ _))

end Medium

namespace ChannelAccessManager

variable {ι : Type*} [DecidableEq ι] (st : Station ι) (v : CamEnv ι) (c : ChannelAccessManager ι)

/-- `GetBackoffEndFor`, as of now. -/
def backoffEndNow (e : ι) : Time :=
  getBackoffEndFor st c.now c.medium e (c.links e) (c.medium.getAccessGrantStart c.now)

/-- The loop of `GetExpectedAccessWithin`. -/
def expectedAccessLoop (deadline : Time) : List ι → WifiExpectedAccessReason →
    WifiExpectedAccessReason
  | [], reason => reason
  | e :: es, reason =>
    if (c.links e).access ≠ .requested then expectedAccessLoop deadline es reason
    else if ¬ v.hasFramesToTransmit e then
      expectedAccessLoop deadline es (if reason ≠ .backoffEnd then .nothingToTx else reason)
    else if c.now ≤ backoffEndNow st c e ∧ backoffEndNow st c e ≤ deadline then .accessExpected
    else expectedAccessLoop deadline es .backoffEnd

/-- `GetExpectedAccessWithin`. There is no result if it aborts. -/
def getExpectedAccessWithin (delay : Time) : Option WifiExpectedAccessReason :=
  let deadline := c.now + delay
  if deadline ≤ (c.medium.doGetAccessGrantStart c.now).foldl max c.medium.lastBusyEnd then
    ((c.medium.timeReasonMap c.now).find? (deadline ≤ ·.1)).map Prod.snd
  else some (expectedAccessLoop st v c deadline c.txops .notRequested)

/-! ## Agreement -/

/-- The manager at a later time, if nothing happens. -/
def atTime (t : Time) : ChannelAccessManager ι :=
  { c with now := t }

/-- What is predicted is what happens : access is offered to a `Txop` that has frames by the
deadline, or else it is not before the deadline. -/
def Agrees (delay : Time) : Prop :=
  (getExpectedAccessWithin st v c delay = some .accessExpected →
    ∃ t, c.now ≤ t ∧ t ≤ c.now + delay ∧
      ∃ o ∈ (doGrantDcfAccess st v (c.atTime t)).offers, v.hasFramesToTransmit o.txop = true) ∧
  (getExpectedAccessWithin st v c delay ≠ some .accessExpected →
    ∀ t, c.now ≤ t → t < c.now + delay →
      ∀ o ∈ (doGrantDcfAccess st v (c.atTime t)).offers, v.hasFramesToTransmit o.txop = false)

/-- A `Txop` that has requested access and has frames to transmit. -/
def Wants (e : ι) : Prop :=
  e ∈ c.txops ∧ (c.links e).access = .requested ∧ v.hasFramesToTransmit e = true

instance wants_decidable (e : ι) : Decidable (Wants v c e) :=
  inferInstanceAs (Decidable (_ ∧ _))

variable {st v c}

theorem foldl_max_mem (ts : List Time) (a : Time) : ts.foldl max a = a ∨ ts.foldl max a ∈ ts := by
  induction ts generalizing a with
  | nil => exact Or.inl rfl
  | cons t ts ih =>
    rw [List.foldl_cons]
    rcases ih (max a t) with heq | hmem
    · rcases max_choice a t with hmax | hmax
      · exact Or.inl (heq.trans hmax)
      · rw [heq, hmax]
        exact Or.inr List.mem_cons_self
    · exact Or.inr (List.mem_cons_of_mem t hmem)

/-- `GetExpectedAccessWithin` does not abort. -/
theorem getExpectedAccessWithin_isSome (delay : Time) :
    (getExpectedAccessWithin st v c delay).isSome = true := by
  unfold getExpectedAccessWithin
  dsimp only
  split
  next hlate =>
    rw [Option.isSome_map, List.find?_isSome]
    have hmem : (c.medium.doGetAccessGrantStart c.now).foldl max c.medium.lastBusyEnd ∈
        c.medium.doGetAccessGrantStart c.now := by
      rcases foldl_max_mem (c.medium.doGetAccessGrantStart c.now) c.medium.lastBusyEnd with h | h
      · rw [h]
        exact List.mem_cons_self
      · exact h
    have hfst : ((c.medium.doGetAccessGrantStart c.now).zip Medium.accessGrantReasons).map
        Prod.fst = c.medium.doGetAccessGrantStart c.now :=
      List.map_fst_zip le_rfl
    rw [← hfst] at hmem
    obtain ⟨p, hp, heq⟩ := List.mem_map.1 hmem
    refine ⟨p, (List.perm_insertionSort _ _).mem_iff.2 hp, ?_⟩
    rw [decide_eq_true_iff, heq, hfst]
    exact hlate
  next => rfl

/-- The end of reception known to the manager is in the past, unless all is well so far. -/
def RxSettled (c : ChannelAccessManager ι) : Prop :=
  c.medium.lastRxReceivedOk = true ∨ c.medium.lastRx.finish ≤ c.now

/-- The medium and the time are as before. -/
structure SameMedium (c c' : ChannelAccessManager ι) : Prop where
  medium : c'.medium = c.medium
  now : c'.now = c.now

theorem SameMedium.trans {c c' c'' : ChannelAccessManager ι} (h : SameMedium c c')
    (h' : SameMedium c' c'') : SameMedium c c'' :=
  ⟨h'.medium.trans h.medium, h'.now.trans h.now⟩

theorem sameMedium_requestAccess (c : ChannelAccessManager ι) (e : ι) :
    SameMedium c (requestAccess st v c e) := by
  have halign : SameMedium c (alignBackoffStart st c e) := by
    unfold alignBackoffStart
    dsimp only
    split <;> exact ⟨rfl, rfl⟩
  unfold requestAccess
  split
  · exact ⟨rfl, rfl⟩
  · exact halign.trans ⟨rfl, rfl⟩

theorem sameMedium_needBackoffUponAccess (c : ChannelAccessManager ι) (e : ι)
    (hadFramesToTransmit checkMediumBusy : Bool) :
    SameMedium c (needBackoffUponAccess st v c e hadFramesToTransmit checkMediumBusy).2 := by
  unfold needBackoffUponAccess
  dsimp only
  split_ifs <;> exact ⟨rfl, rfl⟩

theorem sameMedium_startAccessAfterEvent (c : ChannelAccessManager ι) (e : ι)
    (hadFramesToTransmit checkMediumBusy : Bool) :
    SameMedium c (startAccessAfterEvent st v c e hadFramesToTransmit checkMediumBusy) := by
  have hneed := @sameMedium_needBackoffUponAccess ι _ st v c e hadFramesToTransmit
    checkMediumBusy
  rw [startAccessAfterEvent]
  generalize needBackoffUponAccess st v c e hadFramesToTransmit checkMediumBusy = r at hneed ⊢
  obtain ⟨backoff, c'⟩ := r
  split
  next =>
    refine SameMedium.trans ?_ (sameMedium_requestAccess _ e)
    cases backoff with
    | true => exact hneed.trans ⟨rfl, rfl⟩
    | false => exact hneed
  next => exact ⟨rfl, rfl⟩

theorem sameMedium_accessTimeout (c : ChannelAccessManager ι) :
    SameMedium c (accessTimeout st v c) := by
  unfold accessTimeout
  split <;> exact ⟨rfl, rfl⟩

theorem sameMedium_startMuEdcaTimerNow (c : ChannelAccessManager ι) (e : ι) :
    SameMedium c (startMuEdcaTimerNow st c e) := by
  unfold startMuEdcaTimerNow
  dsimp only
  split <;> exact ⟨rfl, rfl⟩

theorem sameMedium_resetIfLonger (c : ChannelAccessManager ι) (since : Time) :
    SameMedium c (resetIfLonger c since) := by
  unfold resetIfLonger
  split <;> exact ⟨rfl, rfl⟩

theorem sameMedium_generateProactiveBackoff (c : ChannelAccessManager ι) :
    SameMedium c (generateProactiveBackoff st v c) := by
  unfold generateProactiveBackoff
  split <;> exact ⟨rfl, rfl⟩

theorem RxSettled.of_same {c c' : ChannelAccessManager ι} (h : RxSettled c)
    (hsame : SameMedium c c') : RxSettled c' := by
  rw [RxSettled, hsame.medium, hsame.now]
  exact h

theorem RxSettled.onMedium {f : Medium → Medium} (h : RxSettled c)
    (hf : ∀ m, (f m).lastRxReceivedOk = m.lastRxReceivedOk ∧ (f m).lastRx = m.lastRx) :
    RxSettled (onMedium c f) := by
  change (f c.medium).lastRxReceivedOk = true ∨ (f c.medium).lastRx.finish ≤ c.now
  rw [(hf c.medium).1, (hf c.medium).2]
  exact h

/-- A notification of the end of a reception in error comes at this end. -/
theorem RxSettled.notify (h : RxSettled c) (n : Notification) :
    RxSettled (notify st v c n) := by
  cases n with
  | rxStart duration => exact Or.inl rfl
  | rxEndOk => exact Or.inl rfl
  | rxEndError estimatedAckTxTime => exact Or.inr le_rfl
  | txStart duration => exact Or.inl rfl
  | ccaBusyStart duration primary =>
    refine RxSettled.of_same ?_ (sameMedium_generateProactiveBackoff _)
    cases primary with
    | true => exact h
    | false => exact h
  | switchingStart duration => exact Or.inl rfl
  | sleep => exact h
  | off => exact h
  | wakeup =>
    refine RxSettled.of_same ?_ (sameMedium_resetIfLonger _ _)
    exact h
  | on =>
    refine RxSettled.of_same ?_ (sameMedium_resetIfLonger _ _)
    exact h
  | navReset duration =>
    unfold ChannelAccessManager.notify
    dsimp only
    split
    · exact h
    · exact h
  | navStart duration => exact h
  | ackTimeoutStart duration => exact h
  | ackTimeoutReset => exact h
  | ctsTimeoutStart duration => exact h
  | ctsTimeoutReset => exact h
  | setupPhyListener phy reactivated =>
    unfold ChannelAccessManager.notify
    dsimp only
    split_ifs
    · exact h
    · refine RxSettled.onMedium (RxSettled.of_same ?_ (sameMedium_resetIfLonger _ _))
        fun _ => ⟨rfl, rfl⟩
      exact h
    · exact h
  | removePhyListener => exact h

theorem RxSettled.step (h : RxSettled c) (i : CamEnv ι × CamEvent ι) :
    RxSettled (step st c i) := by
  obtain ⟨v, ev⟩ := i
  cases ev with
  | elapse d =>
    refine h.imp id fun hle => ?_
    exact hle.trans (le_add_of_nonneg_right (Int.natCast_nonneg d))
  | notify n => exact h.notify n
  | startAccess e hadFramesToTransmit checkMediumBusy =>
    exact h.of_same (sameMedium_startAccessAfterEvent c e _ _)
  | requestAccess e =>
    unfold ChannelAccessManager.step
    dsimp only
    split
    · exact h.of_same (sameMedium_requestAccess c e)
    · exact h
  | accessTimeout => exact h.of_same (sameMedium_accessTimeout c)
  | call e t => exact h
  | startMuEdcaTimerNow e => exact h.of_same (sameMedium_startMuEdcaTimerNow c e)
  | setMuEdcaParameters e cwMin cwMax aifsn timer => exact h

end ChannelAccessManager

end Ns3Pedca
