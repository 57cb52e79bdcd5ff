import Ns3Pedca.Runs

/-!
# Countdowns updated lazily

A countdown loses one unit at the end of each period, and `extra` more at its start, once
the time has reached its start and a bound. It is not updated as time passes but when it is
polled : `poll` takes off what has elapsed since the last poll and moves the start past it.

`poll_poll` says that a poll undoes the traces of the ones before it, so that a run of polls
at times that do not decrease leaves what its last poll alone leaves (`run_poll`). The
reason is `ticks_add_ticks` : the whole periods before and after a cut add up, because a
poll moves the start by a whole number of periods and never past the first boundary after
the time it polls at.
-/

namespace Countdown

/-- A counter and the time its countdown starts. -/
@[ext]
structure State where
  left : ℕ
  start : ℤ

/-- Units lost between `start` and `now`. -/
def ticks (period : ℤ) (extra : ℕ) (start now : ℤ) : ℕ :=
  ((now - start) / period).toNat + extra

/-- The countdown starts at its own start, or at the bound if that is later. -/
def begin (bound : ℤ) (c : State) : ℤ :=
  max c.start bound

/-- The countdown polled at `now`. -/
def poll (period : ℤ) (extra : ℕ) (bound : ℤ) (c : State) (now : ℤ) : State :=
  if begin bound c ≤ now then
    let n := min (ticks period extra (begin bound c) now) c.left
    { left := c.left - n, start := begin bound c + n * period }
  else c

variable {period bound : ℤ} {extra : ℕ} {c : State} {t t' : ℤ}

theorem poll_of_le (h : begin bound c ≤ t) : poll period extra bound c t =
    { left := c.left - min (ticks period extra (begin bound c) t) c.left
      start := begin bound c + (min (ticks period extra (begin bound c) t) c.left : ℕ) * period } :=
  if_pos h

theorem poll_of_lt (h : t < begin bound c) : poll period extra bound c t = c :=
  if_neg (not_le.2 h)

/-- A counter is never taken below zero. -/
theorem poll_left_le : (poll period extra bound c t).left ≤ c.left := by
  unfold poll
  split
  · exact Nat.sub_le _ _
  · exact le_rfl

/-- A poll does not move the beginning of a countdown back. -/
theorem begin_le_begin_poll (hp : 0 < period) :
    begin bound c ≤ begin bound (poll period extra bound c t) := by
  unfold poll
  split
  · exact le_max_of_le_left (le_add_of_nonneg_right (by positivity))
  · exact le_rfl

theorem ticks_mono (hp : 0 < period) {start start' : ℤ} (hs : start' ≤ start) (h : t ≤ t') :
    ticks period extra start t ≤ ticks period extra start' t' := by
  have hdiv : (t - start) / period ≤ (t' - start') / period :=
    Int.ediv_le_ediv hp (by omega)
  unfold ticks
  omega

/-- Cutting at the boundary the ticks lead to, the ticks before and after the cut add up. -/
theorem ticks_add_ticks (hp : 0 < period) {start : ℤ} (hs : start ≤ t)
    (hcut : start + (ticks period extra start t : ℕ) * period ≤ t') :
    ticks period extra start t +
        ticks period extra (start + (ticks period extra start t : ℕ) * period) t' =
      ticks period extra start t' := by
  have hk : 0 ≤ (t - start) / period := Int.ediv_nonneg (by omega) hp.le
  generalize hm : ticks period extra start t = m at hcut ⊢
  have hshift : (t' - (start + m * period)) / period = (t' - start) / period - m := by
    rw [show t' - (start + m * period) = t' - start + -m * period by ring,
      Int.add_mul_ediv_right _ _ hp.ne']
    ring
  have hafter : 0 ≤ (t' - (start + m * period)) / period := Int.ediv_nonneg (by omega) hp.le
  unfold ticks
  rw [hshift] at hafter ⊢
  omega

/-- Before that boundary nothing more elapses, if at most one unit is lost at the start. -/
theorem ticks_eq_of_lt (hp : 0 < period) (hextra : extra ≤ 1) {start : ℤ} (hs : start ≤ t)
    (h : t ≤ t') (hcut : t' < start + (ticks period extra start t : ℕ) * period) :
    ticks period extra start t' = ticks period extra start t := by
  have hk : 0 ≤ (t - start) / period := Int.ediv_nonneg (by omega) hp.le
  have hmono : (t - start) / period ≤ (t' - start) / period :=
    Int.ediv_le_ediv hp (by omega)
  have hlt : (t' - start) / period < (ticks period extra start t : ℕ) :=
    Int.ediv_lt_of_lt_mul hp (by omega)
  unfold ticks at hlt ⊢
  omega

/-- A poll undoes the traces of an earlier one. -/
theorem poll_poll (hp : 0 < period) (hextra : extra ≤ 1) (h : t ≤ t') :
    poll period extra bound (poll period extra bound c t) t' = poll period extra bound c t' := by
  rcases lt_or_ge t (begin bound c) with hb | hb
  · rw [poll_of_lt hb]
  have hle : ticks period extra (begin bound c) t ≤ ticks period extra (begin bound c) t' :=
    ticks_mono hp le_rfl h
  have hbegin : ∀ n : ℕ, begin bound ⟨c.left - n, begin bound c + n * period⟩ =
      begin bound c + n * period := by
    intro n
    have hbound : bound ≤ begin bound c := le_max_right ..
    have hn : 0 ≤ (n : ℤ) * period := by positivity
    exact max_eq_left (show bound ≤ begin bound c + n * period by omega)
  rw [poll_of_le (hb.trans h), poll_of_le hb]
  generalize hn : ticks period extra (begin bound c) t = n at hle
  rcases le_or_gt c.left n with hleft | hleft
  · -- the counter is exhausted at the first poll
    rw [min_eq_right hleft, min_eq_right (hleft.trans hle)]
    unfold poll
    split
    · rw [hbegin]
      simp
    · rfl
  · rw [min_eq_left hleft.le]
    rcases lt_or_ge t' (begin bound c + n * period) with hcut | hcut
    · have hsame : ticks period extra (begin bound c) t' = n := by
        rw [ticks_eq_of_lt hp hextra hb h (by rw [hn]; exact hcut), hn]
      have hlt : t' < begin bound ⟨c.left - n, begin bound c + n * period⟩ := by
        rw [hbegin]
        exact hcut
      rw [poll_of_lt hlt, hsame, min_eq_left hleft.le]
    · have hadd : n + ticks period extra (begin bound c + n * period) t' =
          ticks period extra (begin bound c) t' := by
        rw [← hn] at hcut ⊢
        exact ticks_add_ticks hp hb hcut
      have hge : begin bound ⟨c.left - n, begin bound c + n * period⟩ ≤ t' := by
        rw [hbegin]
        exact hcut
      rw [poll_of_le hge, hbegin, ← hadd]
      generalize ticks period extra (begin bound c + n * period) t' = k
      have hmin : min (n + k) c.left = n + min k (c.left - n) := by omega
      rw [hmin]
      refine State.ext (Nat.sub_sub ..) ?_
      push_cast
      ring

/-- Polls at times that do not decrease leave what the last one alone leaves. -/
theorem run_poll (hp : 0 < period) (hextra : extra ≤ 1) (ts : List ℤ)
    (hts : (ts ++ [t]).Pairwise (· ≤ ·)) :
    Runs.run (poll period extra bound) c (ts ++ [t]) = poll period extra bound c t := by
  induction ts generalizing c with
  | nil => rfl
  | cons t₁ ts ih =>
    obtain ⟨hle, hts'⟩ := List.pairwise_cons.1 hts
    rw [List.cons_append, Runs.run_cons, ih hts', poll_poll hp hextra (hle t (by simp))]

end Countdown
