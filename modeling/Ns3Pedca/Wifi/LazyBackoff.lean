import Ns3Pedca.Countdown
import Ns3Pedca.Wifi.ChannelAccessManager

/-!
# The backoff countdown is lazy

`UpdateBackoff` is called when something is about to change, never as slots go by. On the
link of each `Txop` it is a poll of a countdown (`countdown_updateBackoffOf`) : its period is
the slot, its bound the end of the AIFS, and an EDCAF loses one slot more at that end. The
bound is the same at all times while the PHY is active, no frame is being received, and
the AIFSN stays the same.

So calling it at several times leaves the backoff of every `Txop` as calling it at the last
of them alone (`updateBackoff_polls`), and never takes more slots than there are. Two things
spoil this. The end of a MU EDCA timer between two calls changes the AIFSN, on which the
slots already counted depend, and `nIntSlots` is a `uint32_t` that wraps after `2^32` slots
(`updateBackoff_polls_broken`).
-/

set_option linter.unusedSectionVars false

namespace Ns3Pedca

/-- The PHY is active, neither in sleep mode nor off, and no frame is being received. -/
structure Medium.Active (m : Medium) (now : Time) : Prop where
  phy : m.noPhySleepOrOff = false
  awake : m.lastSleep.start ≤ m.lastSleep.finish
  on : m.lastOff.start ≤ m.lastOff.finish
  rxEnded : m.lastRx.finish ≤ now

instance (m : Medium) (now : Time) : Decidable (m.Active now) :=
  decidable_of_iff (m.noPhySleepOrOff = false ∧ m.lastSleep.start ≤ m.lastSleep.finish ∧
    m.lastOff.start ≤ m.lastOff.finish ∧ m.lastRx.finish ≤ now)
    ⟨fun ⟨h₁, h₂, h₃, h₄⟩ => ⟨h₁, h₂, h₃, h₄⟩, fun ⟨h₁, h₂, h₃, h₄⟩ => ⟨h₁, h₂, h₃, h₄⟩⟩

theorem Medium.Active.getAccessGrantStart_eq {m : Medium} {t t' : Time} (h : m.Active t)
    (h' : m.Active t') : m.getAccessGrantStart t = m.getAccessGrantStart t' := by
  have hphy : m.phy.isSome = true := by
    rcases hp : m.phy with _ | phy
    · have hno := h.phy
      simp [noPhySleepOrOff, hp] at hno
    · rfl
  have hsame : m.doGetAccessGrantStart t = m.doGetAccessGrantStart t' := by
    simp [doGetAccessGrantStart, hphy, h.rxEnded, h'.rxEnded, not_lt.2 h.awake, not_lt.2 h.on]
  rw [getAccessGrantStart, getAccessGrantStart, hsame]

namespace ChannelAccessManager

variable {ι : Type*} [DecidableEq ι] (st : Station ι)

/-! ## One `Txop` -/

/-- The backoff of a link as a countdown. -/
def countdown (link : QosLinkEntity) : Countdown.State :=
  ⟨link.backoffSlots.toNat, link.backoffStart⟩

/-- Slots lost at the end of the AIFS. -/
def slotsAtAifsEnd (e : ι) : ℕ :=
  if (st.attrs e).isQosTxop then 1 else 0

/-- The end of the AIFS. -/
def aifsEnd (now : Time) (m : Medium) (e : ι) (link : QosLinkEntity) : Time :=
  m.getAccessGrantStart now + (getAifsn st now e link).toNat * m.getSlot

/-- The slots lost of a countdown that is not exhausted fit a `uint32_t`. -/
def SlotsFit (slot : Time) (extra : ℕ) (bound now : Time) (s : Countdown.State) : Prop :=
  s.left ≠ 0 → Countdown.ticks slot extra (Countdown.begin bound s) now < 2 ^ 32

section OneTxop

variable {st} {now : Time} {m : Medium} {e : ι} {link : QosLinkEntity}

theorem getAifsn_updateBackoffOf (t accessGrantStart : Time) :
    getAifsn st t e (updateBackoffOf st now m e link accessGrantStart) = getAifsn st t e link := by
  unfold updateBackoffOf
  dsimp only
  split <;> rfl

theorem toNat_min_nIntSlots {backoffStart : Time}
    (hfit : link.backoffSlots.toNat ≠ 0 →
      Countdown.ticks m.getSlot (slotsAtAifsEnd st e) backoffStart now < 2 ^ 32) :
    (min (nIntSlots st now m e backoffStart) link.backoffSlots).toNat =
      min (Countdown.ticks m.getSlot (slotsAtAifsEnd st e) backoffStart now)
        link.backoffSlots.toNat := by
  rw [uint32_toNat_min]
  by_cases hzero : link.backoffSlots.toNat = 0
  · rw [hzero, Nat.min_zero, Nat.min_zero]
  have hlt := hfit hzero
  unfold Countdown.ticks at hlt ⊢
  have hnat : (UInt32.ofNat ((now - backoffStart) / m.getSlot).toNat).toNat =
      ((now - backoffStart) / m.getSlot).toNat :=
    UInt32.toNat_ofNat_of_lt' (lt_of_le_of_lt (Nat.le_add_right ..) hlt)
  congr 1
  unfold nIntSlots
  unfold slotsAtAifsEnd at hlt ⊢
  split at hlt
  next hqos =>
    simp only [hqos, if_true]
    rw [UInt32.toNat_add, hnat, UInt32.toNat_one]
    exact Nat.mod_eq_of_lt hlt
  next hqos =>
    simp only [hqos]
    exact hnat

/-- `UpdateBackoff` polls the countdown of each `Txop`. -/
theorem countdown_updateBackoffOf
    (hfit : SlotsFit m.getSlot (slotsAtAifsEnd st e) (aifsEnd st now m e link) now
      (countdown link)) :
    countdown (updateBackoffOf st now m e link (m.getAccessGrantStart now)) =
      Countdown.poll m.getSlot (slotsAtAifsEnd st e) (aifsEnd st now m e link)
        (countdown link) now := by
  have hbegin : getBackoffStartFor st now m e link (m.getAccessGrantStart now) =
      Countdown.begin (aifsEnd st now m e link) (countdown link) := rfl
  unfold updateBackoffOf Countdown.poll
  simp only [hbegin]
  split
  · have hn := toNat_min_nIntSlots hfit
    have hle := UInt32.le_iff_toNat_le.2 (hn.trans_le (Nat.min_le_right ..))
    refine Countdown.State.ext ?_ ?_
    · change (link.backoffSlots - min _ link.backoffSlots).toNat = _
      rw [UInt32.toNat_sub_of_le _ _ hle, hn]
      rfl
    · change Countdown.begin _ _ + ((min _ link.backoffSlots).toNat : ℤ) * _ = _
      rw [hn]
      rfl
  · rfl

/-- A poll never takes more slots than there are : a subtraction that wraps would increase
their number. -/
theorem updateBackoffOf_backoffSlots_le (accessGrantStart : Time) :
    (updateBackoffOf st now m e link accessGrantStart).backoffSlots ≤ link.backoffSlots := by
  unfold updateBackoffOf
  dsimp only
  split
  · have hmin := uint32_toNat_min
      (nIntSlots st now m e (getBackoffStartFor st now m e link accessGrantStart))
      link.backoffSlots
    have hle := UInt32.le_iff_toNat_le.2 (hmin.trans_le (Nat.min_le_right ..))
    refine UInt32.le_iff_toNat_le.2 ?_
    exact (UInt32.toNat_sub_of_le _ _ hle).trans_le (Nat.sub_le ..)
  · exact UInt32.le_refl _

theorem SlotsFit.of_le {slot bound t t' : Time} {extra : ℕ} {s : Countdown.State}
    (hp : 0 < slot) (h : SlotsFit slot extra bound t' s) (hle : t ≤ t') :
    SlotsFit slot extra bound t s :=
  fun hleft => (Countdown.ticks_mono hp le_rfl hle).trans_lt (h hleft)

theorem SlotsFit.poll {slot bound t t' : Time} {extra : ℕ} {s : Countdown.State} (hp : 0 < slot)
    (h : SlotsFit slot extra bound t' s) :
    SlotsFit slot extra bound t' (Countdown.poll slot extra bound s t) := by
  intro hleft
  have hle : (Countdown.poll slot extra bound s t).left ≤ s.left := Countdown.poll_left_le
  have hbegin : Countdown.begin bound s ≤
      Countdown.begin bound (Countdown.poll slot extra bound s t) :=
    Countdown.begin_le_begin_poll hp
  exact (Countdown.ticks_mono hp hbegin le_rfl).trans_lt (h (by omega))

end OneTxop

/-! ## All `Txop`s -/

/-- `UpdateBackoff` called at `t`. -/
def pollAt (c : ChannelAccessManager ι) (t : Time) : ChannelAccessManager ι :=
  updateBackoff st { c with now := t }

/-- The calls at `ts` and then `t` leave the backoff of every `Txop` as the call at `t` alone,
and none of them takes more slots than are left. -/
def PollsAgree (c : ChannelAccessManager ι) (ts : List Time) (t : Time) : Prop :=
  (∀ e ∈ c.txops,
    ((Runs.run (pollAt st) c (ts ++ [t])).links e).backoffSlots =
      ((pollAt st c t).links e).backoffSlots ∧
    ((Runs.run (pollAt st) c (ts ++ [t])).links e).backoffStart =
      ((pollAt st c t).links e).backoffStart) ∧
  Runs.Each (pollAt st) (fun c t => ∀ e ∈ c.txops,
    ((pollAt st c t).links e).backoffSlots ≤ (c.links e).backoffSlots) c (ts ++ [t])

/-- The polls of a manager poll the countdown of each of its `Txop`s. -/
theorem countdown_run_pollAt {bound t : Time} {e : ι} :
    ∀ (ts : List Time) {c : ChannelAccessManager ι}, e ∈ c.txops → 0 < c.medium.getSlot →
      (∀ t' ∈ ts, aifsEnd st t' c.medium e (c.links e) = bound) → (∀ t' ∈ ts, t' ≤ t) →
      SlotsFit c.medium.getSlot (slotsAtAifsEnd st e) bound t (countdown (c.links e)) →
      countdown ((Runs.run (pollAt st) c ts).links e) =
        Runs.run (Countdown.poll c.medium.getSlot (slotsAtAifsEnd st e) bound)
          (countdown (c.links e)) ts
  | [], _, _, _, _, _, _ => rfl
  | t' :: ts, c, he, hp, hbound, hle, hfit => by
    obtain ⟨hbound₁, hbound'⟩ := List.forall_mem_cons.1 hbound
    obtain ⟨hle₁, hle'⟩ := List.forall_mem_cons.1 hle
    have hlink : (pollAt st c t').links e = updateBackoffOf st t' c.medium e (c.links e)
        (c.medium.getAccessGrantStart t') := by
      rw [pollAt, updateBackoff_links]
      exact if_pos he
    have hpoll : countdown ((pollAt st c t').links e) = Countdown.poll c.medium.getSlot
        (slotsAtAifsEnd st e) bound (countdown (c.links e)) t' := by
      rw [hlink, countdown_updateBackoffOf (by rw [hbound₁]; exact hfit.of_le hp hle₁), hbound₁]
    have hrest : ∀ t'' ∈ ts, aifsEnd st t'' c.medium e ((pollAt st c t').links e) = bound := by
      intro t'' ht''
      rw [← hbound' t'' ht'', aifsEnd, aifsEnd, hlink, getAifsn_updateBackoffOf]
    rw [Runs.run_cons, Runs.run_cons, ← hpoll]
    refine countdown_run_pollAt (c := pollAt st c t') ts he hp hrest hle' ?_
    rw [hpoll]
    exact hfit.poll hp

/-- `UpdateBackoff` can be called at any times that do not decrease, as long as the AIFSN
stays the same and the slots lost fit a `uint32_t`. -/
theorem updateBackoff_polls (c : ChannelAccessManager ι) (ts : List Time) (t : Time)
    (hts : (ts ++ [t]).Pairwise (· ≤ ·)) (hactive : ∀ t' ∈ ts ++ [t], c.medium.Active t')
    (haifsn : ∀ t' ∈ ts, ∀ e ∈ c.txops,
      getAifsn st t' e (c.links e) = getAifsn st t e (c.links e))
    (hslots : ∀ e ∈ c.txops, (c.links e).backoffSlots ≠ 0 →
      Countdown.ticks c.medium.getSlot (slotsAtAifsEnd st e)
        (getBackoffStartFor st t c.medium e (c.links e) (c.medium.getAccessGrantStart t)) t <
          2 ^ 32) :
    PollsAgree st c ts t := by
  have hlast := hactive t (by simp)
  have hp := c.medium.getSlot_pos hlast.phy
  refine ⟨fun e he => ?_, Runs.Each.of_forall (fun c t e he => ?_) _ _⟩
  · have hbound : ∀ t' ∈ ts ++ [t],
        aifsEnd st t' c.medium e (c.links e) = aifsEnd st t c.medium e (c.links e) := by
      intro t' ht'
      have hsame : getAifsn st t' e (c.links e) = getAifsn st t e (c.links e) := by
        rcases List.mem_append.1 ht' with ht' | ht'
        · exact haifsn t' ht' e he
        · rw [List.mem_singleton.1 ht']
      rw [aifsEnd, aifsEnd, hsame, (hactive t' ht').getAccessGrantStart_eq hlast]
    have hle : ∀ t' ∈ ts ++ [t], t' ≤ t := by
      intro t' ht'
      rcases List.mem_append.1 ht' with ht' | ht'
      · exact (List.pairwise_append.1 hts).2.2 t' ht' t (by simp)
      · exact (List.mem_singleton.1 ht').le
    have hfit : SlotsFit c.medium.getSlot (slotsAtAifsEnd st e)
        (aifsEnd st t c.medium e (c.links e)) t (countdown (c.links e)) := fun hleft =>
      hslots e he fun hzero => hleft (by simp [countdown, hzero])
    have hextra : slotsAtAifsEnd st e ≤ 1 := by
      unfold slotsAtAifsEnd
      split <;> omega
    have hrun : countdown ((Runs.run (pollAt st) c (ts ++ [t])).links e) =
        countdown ((pollAt st c t).links e) := by
      calc countdown ((Runs.run (pollAt st) c (ts ++ [t])).links e)
          = Runs.run (Countdown.poll c.medium.getSlot (slotsAtAifsEnd st e)
              (aifsEnd st t c.medium e (c.links e))) (countdown (c.links e)) (ts ++ [t]) :=
            countdown_run_pollAt st (ts ++ [t]) he hp hbound hle hfit
        _ = Countdown.poll c.medium.getSlot (slotsAtAifsEnd st e)
              (aifsEnd st t c.medium e (c.links e)) (countdown (c.links e)) t :=
            Countdown.run_poll hp hextra ts hts
        _ = countdown ((pollAt st c t).links e) :=
            (countdown_run_pollAt st [t] he hp (by simp) (by simp) hfit).symm
    exact ⟨UInt32.toNat_inj.1 (congrArg Countdown.State.left hrun),
      congrArg Countdown.State.start hrun⟩
  · rw [pollAt, updateBackoff_links]
    exact (if_pos he).symm ▸ updateBackoffOf_backoffSlots_le _

/-! ## Examples of polls -/

open QosFrameExchangeManager

/-- A best effort EDCAF on a medium that has been idle since `idleSince`. -/
def idleManager (link : QosLinkEntity) (idleSince : Time := 0) : ChannelAccessManager AcIndex :=
  { init [.be] (List.nodup_singleton _) fun _ => {} with
    medium.lastBusyEnd := idleSince
    links := fun _ => link }

/-- An EDCAF with AIFSN 3. -/
def aifsn3Link (backoffSlots : UInt32) : QosLinkEntity :=
  { aifsn := 3, backoffSlots := backoffSlots }

/-- An EDCAF with AIFSN 3, and with AIFSN 8 while its MU EDCA timer of 8192 us runs. -/
def muAifsn8Link : QosLinkEntity :=
  { aifsn3Link 10 with muAifsn := 8, muEdcaTimer := microSeconds 8192, muEdcaTimerStartTime := 1 }

/-- Polls at the end of the AIFS, a slot later and two slots and a half later. -/
theorem updateBackoff_polls_threeSlots :
    PollsAgree defaultStation (idleManager (aifsn3Link 3)) [43000, 52000] 65500 :=
  updateBackoff_polls defaultStation (idleManager (aifsn3Link 3)) [43000, 52000] 65500
    (by decide) (by decide) (by decide) (by decide)

/-- At the first poll the MU EDCA timer runs and one slot is counted, a single poll at the
second counts seven; a counter of two slots survives `2^32 - 1` idle slots. -/
theorem updateBackoff_polls_broken :
    ((∀ t ∈ [8188000, 8200000], (idleManager muAifsn8Link 8100000).medium.Active t) ∧
      ¬PollsAgree defaultStation (idleManager muAifsn8Link 8100000) [8188000] 8200000) ∧
    (∀ t ∈ [43000, 43000 + (2 ^ 32 - 1) * 9000],
      (idleManager (aifsn3Link 2)).medium.Active t) ∧
    ¬PollsAgree defaultStation (idleManager (aifsn3Link 2)) [43000]
      (43000 + (2 ^ 32 - 1) * 9000) := by
  refine ⟨⟨by decide, fun h => ?_⟩, by decide, fun h => ?_⟩
  · exact absurd (h.1 .be (List.mem_singleton_self _)).1 (by decide)
  · exact absurd (h.1 .be (List.mem_singleton_self _)).1 (by decide)

end ChannelAccessManager

end Ns3Pedca
