import Mathlib

/-!
# Reordering buffers

Items numbered 0, 1, 2, … arrive in any order and are released in increasing order. Those
that are held back wait in a list `pending`, the number that is awaited is `start`, and at
most `size` numbers from it on can wait. `receive` puts an item in, and moves the window when
the item is beyond its end; `advance` moves it to a given number, whatever is still missing.
Numbers behind the window are ignored.

`Inv` is what every operation keeps : items are released in strictly increasing order, and
those that wait have distinct numbers strictly inside the window. `MovesTo` says what a move
of the window to a number does besides (`receive_spec`, `advance_spec`) : nothing is lost or
made up, and the window moves on over items in sequence, which are all released.
-/

namespace ReorderBuffer

/-- A reordering buffer : the number awaited, the numbers waiting and those released. -/
@[ext]
structure Buffer where
  start : ℕ
  pending : List ℕ
  released : List ℕ

/-- The item has arrived : it was released, or waits. -/
def Buffer.Has (b : Buffer) (u : ℕ) : Prop :=
  u ∈ b.released ∨ u ∈ b.pending

/-- `u` is put among the numbers `us`, which increase, unless it is there already. -/
def insert (u : ℕ) : List ℕ → List ℕ
  | [] => [u]
  | u' :: us => if u < u' then u :: u' :: us else if u' < u then u' :: insert u us else u' :: us

/-- The items in sequence from `start` on are released. -/
def releaseRun (start : ℕ) (released : List ℕ) : List ℕ → Buffer
  | [] => ⟨start, [], released⟩
  | u :: us =>
    if u = start then releaseRun (start + 1) (released ++ [u]) us else ⟨start, u :: us, released⟩

/-- The window moves to `n`, and on over the items in sequence. -/
def moveTo (n : ℕ) (b : Buffer) : Buffer :=
  releaseRun n (b.released ++ b.pending.filter (· < n)) (b.pending.filter (n ≤ ·))

/-- The item `u` arrives. -/
def receive (size u : ℕ) (b : Buffer) : Buffer :=
  if u < b.start then b
  else
    let pending := insert u b.pending
    if u < b.start + size then releaseRun b.start b.released pending
    else moveTo (u + 1 - size) { b with pending := pending }

/-- The items below `n` are no longer awaited. -/
def advance (n : ℕ) (b : Buffer) : Buffer :=
  if b.start < n then moveTo n b else b

theorem receive_of_lt {size u : ℕ} {b : Buffer} (hu : b.start ≤ u) (h : u < b.start + size) :
    receive size u b = releaseRun b.start b.released (insert u b.pending) := by
  rw [receive, if_neg (not_lt.2 hu)]
  exact if_pos h

theorem receive_of_ge {size u : ℕ} {b : Buffer} (hu : b.start ≤ u) (h : b.start + size ≤ u) :
    receive size u b = moveTo (u + 1 - size) { b with pending := insert u b.pending } := by
  rw [receive, if_neg (not_lt.2 hu)]
  exact if_neg (not_lt.2 h)

/-- What every operation keeps. -/
structure Inv (size : ℕ) (b : Buffer) : Prop where
  pending_sorted : b.pending.Pairwise (· < ·)
  pending_mem : ∀ u ∈ b.pending, b.start < u ∧ u < b.start + size
  released_sorted : b.released.Pairwise (· < ·)
  released_lt : ∀ u ∈ b.released, u < b.start

/-- `b` is where a move of the window to `n` ends, with the items `has`. -/
structure MovesTo (size n : ℕ) (has : ℕ → Prop) (b : Buffer) : Prop where
  inv : Inv size b
  le_start : n ≤ b.start
  start_le : ∀ {e}, n ≤ e → (∀ u, has u → u < e) → b.start ≤ e
  has_iff : ∀ u, b.Has u ↔ has u
  released : ∀ u, n ≤ u → u < b.start → u ∈ b.released

variable {size n u u' start : ℕ} {us released : List ℕ} {b : Buffer}

/-- An item behind the window that has arrived was released. -/
theorem Inv.mem_released (h : Inv size b) (hu : u < b.start) (hhas : b.Has u) :
    u ∈ b.released := by
  rcases hhas with hrel | hpen
  · exact hrel
  · exact absurd (h.pending_mem u hpen).1 (by omega)

/-- Fewer than `size` items wait. -/
theorem Inv.length_pending_le (h : Inv size b) : b.pending.length ≤ size - 1 := by
  have hnodup : b.pending.Nodup := h.pending_sorted.imp Nat.ne_of_lt
  have hsub : b.pending.toFinset ⊆ Finset.Ioo b.start (b.start + size) := fun u hu =>
    Finset.mem_Ioo.2 (h.pending_mem u (List.mem_toFinset.1 hu))
  have hcard := Finset.card_le_card hsub
  rwa [List.toFinset_card_of_nodup hnodup, Nat.card_Ioo, Nat.add_sub_cancel_left] at hcard

/-! ## Insertion -/

theorem mem_insert : u' ∈ insert u us ↔ u' = u ∨ u' ∈ us := by
  induction us with
  | nil => simp [insert]
  | cons a us ih =>
    unfold insert
    split_ifs with hlt hgt
    · simp
    · simp only [List.mem_cons, ih]
      tauto
    · obtain rfl : a = u := by omega
      simp only [List.mem_cons]
      tauto

theorem insert_sorted (h : us.Pairwise (· < ·)) : (insert u us).Pairwise (· < ·) := by
  induction us with
  | nil => simp [insert]
  | cons a us ih =>
    obtain ⟨ha, hus⟩ := List.pairwise_cons.1 h
    unfold insert
    split_ifs with hlt hgt
    · refine List.pairwise_cons.2 ⟨fun u' hu' => ?_, h⟩
      rcases List.mem_cons.1 hu' with rfl | hu'
      · exact hlt
      · exact hlt.trans (ha u' hu')
    · refine List.pairwise_cons.2 ⟨fun u' hu' => ?_, ih hus⟩
      rcases mem_insert.1 hu' with rfl | hu'
      · exact hgt
      · exact ha u' hu'
    · exact h

/-! ## Moves of the window -/

theorem sorted_concat (hrel : released.Pairwise (· < ·)) (hlt : ∀ u' ∈ released, u' < u) :
    (released ++ [u]).Pairwise (· < ·) := by
  refine List.pairwise_append.2 ⟨hrel, List.pairwise_singleton .., fun u' hu' x hx => ?_⟩
  rw [List.mem_singleton.1 hx]
  exact hlt u' hu'

theorem releaseRun_spec (hus : us.Pairwise (· < ·))
    (hmem : ∀ u ∈ us, start ≤ u ∧ u < start + size) (hrel : released.Pairwise (· < ·))
    (hlt : ∀ u ∈ released, u < start) :
    MovesTo size start (fun u => u ∈ released ∨ u ∈ us) (releaseRun start released us) := by
  induction us generalizing start released with
  | nil =>
    exact ⟨⟨List.Pairwise.nil, nofun, hrel, hlt⟩, le_rfl, fun h _ => h, fun u => Iff.rfl,
      fun u h h' => absurd h' (not_lt.2 h)⟩
  | cons a us ih =>
    obtain ⟨ha, hus'⟩ := List.pairwise_cons.1 hus
    obtain ⟨hmem₁, hmem'⟩ := List.forall_mem_cons.1 hmem
    unfold releaseRun
    split
    next heq =>
      -- the awaited item is released, and the next one awaited
      subst heq
      have hlt' : ∀ u ∈ released ++ [a], u < a + 1 := by
        intro u hu
        rcases List.mem_append.1 hu with hu | hu
        · exact (hlt u hu).trans (Nat.lt_succ_self a)
        · rw [List.mem_singleton.1 hu]
          exact Nat.lt_succ_self a
      have h := ih hus' (fun u hu => ⟨ha u hu, by have := hmem' u hu; omega⟩)
        (sorted_concat hrel hlt) hlt'
      refine ⟨h.inv, (Nat.le_succ a).trans h.le_start, fun he hall => ?_, fun u => ?_,
        fun u hu hu' => ?_⟩
      · refine h.start_le (hall a (.inr List.mem_cons_self)) fun u hu => hall u ?_
        rcases hu with hu | hu
        · rcases List.mem_append.1 hu with hu | hu
          · exact .inl hu
          · exact .inr (List.mem_singleton.1 hu ▸ List.mem_cons_self)
        · exact .inr (List.mem_cons_of_mem _ hu)
      · rw [h.has_iff u]
        simp only [List.mem_append, List.mem_cons, List.not_mem_nil, or_false]
        tauto
      · rcases Nat.eq_or_lt_of_le hu with rfl | hu
        · exact h.inv.mem_released hu' ((h.has_iff _).2 (.inl (by simp)))
        · exact h.released u hu hu'
    next hne =>
      have hlt_a : start < a := lt_of_le_of_ne hmem₁.1 (Ne.symm hne)
      refine ⟨⟨hus, fun u hu => ⟨?_, (hmem u hu).2⟩, hrel, hlt⟩, le_rfl, fun he _ => he,
        fun u => Iff.rfl, fun u h h' => absurd h' (not_lt.2 h)⟩
      rcases List.mem_cons.1 hu with rfl | hu
      · exact hlt_a
      · exact hlt_a.trans (ha u hu)

/-- All items are released if they are in sequence from `start` on, and only then. -/
theorem pending_releaseRun_eq_nil (hus : us.Pairwise (· < ·)) (hle : ∀ u ∈ us, start ≤ u) :
    (releaseRun start released us).pending = [] ↔
      ∀ u ∈ us, ∀ u', start ≤ u' → u' ≤ u → u' ∈ us := by
  induction us generalizing start released with
  | nil => exact ⟨fun _ u hu => absurd hu List.not_mem_nil, fun _ => rfl⟩
  | cons a us ih =>
    obtain ⟨ha, hus'⟩ := List.pairwise_cons.1 hus
    unfold releaseRun
    split
    next heq =>
      subst heq
      rw [ih hus' fun u hu => ha u hu]
      constructor
      · intro h u hu u' hstart hu'
        rcases Nat.eq_or_lt_of_le hstart with rfl | hlt
        · exact List.mem_cons_self
        · rcases List.mem_cons.1 hu with rfl | hu
          · exact absurd hlt (not_lt.2 hu')
          · exact List.mem_cons_of_mem _ (h u hu u' hlt hu')
      · intro h u hu u' hstart hu'
        rcases List.mem_cons.1 (h u (List.mem_cons_of_mem _ hu) u' (Nat.le_of_lt hstart) hu') with
          rfl | hmem
        · exact absurd hstart (Nat.not_succ_le_self _)
        · exact hmem
    next hne =>
      -- `start` itself is missing
      refine ⟨fun h => absurd h (List.cons_ne_nil _ _), fun h => ?_⟩
      have hmem := h a List.mem_cons_self start le_rfl (hle a List.mem_cons_self)
      rcases List.mem_cons.1 hmem with heq | hmem
      · exact absurd heq.symm hne
      · exact absurd (ha start hmem) (not_lt.2 (hle a List.mem_cons_self))

theorem moveTo_spec (hpen : b.pending.Pairwise (· < ·))
    (hmem : ∀ u ∈ b.pending, b.start ≤ u ∧ u < n + size) (hrel : b.released.Pairwise (· < ·))
    (hlt : ∀ u ∈ b.released, u < b.start) (hn : b.start ≤ n) :
    MovesTo size n b.Has (moveTo n b) := by
  have hrel' : (b.released ++ b.pending.filter (· < n)).Pairwise (· < ·) := by
    refine List.pairwise_append.2 ⟨hrel, hpen.filter _, fun u hu u' hu' => ?_⟩
    exact (hlt u hu).trans_le (hmem u' (List.mem_filter.1 hu').1).1
  have hlt' : ∀ u ∈ b.released ++ b.pending.filter (· < n), u < n := by
    intro u hu
    rcases List.mem_append.1 hu with hu | hu
    · exact (hlt u hu).trans_le hn
    · simpa using (List.mem_filter.1 hu).2
  have hmem' : ∀ u ∈ b.pending.filter (n ≤ ·), n ≤ u ∧ u < n + size := by
    intro u hu
    obtain ⟨hu, hle⟩ := List.mem_filter.1 hu
    exact ⟨by simpa using hle, (hmem u hu).2⟩
  have hhas : ∀ u, (u ∈ b.released ++ b.pending.filter (· < n) ∨ u ∈ b.pending.filter (n ≤ ·)) ↔
      b.Has u := by
    intro u
    have hor := lt_or_ge u n
    simp only [Buffer.Has, List.mem_append, List.mem_filter, decide_eq_true_eq]
    tauto
  have h := releaseRun_spec (hpen.filter (n ≤ ·)) hmem' hrel' hlt'
  exact ⟨h.inv, h.le_start, fun he hall => h.start_le he fun u hu => hall u ((hhas u).1 hu),
    fun u => (h.has_iff u).trans (hhas u), h.released⟩

/-! ## Operations -/

/-- An item from the window on moves it to where the item is inside. -/
theorem receive_spec (h : Inv size b) (hu : b.start ≤ u) :
    MovesTo size (max b.start (u + 1 - size)) (fun u' => u' = u ∨ b.Has u') (receive size u b) := by
  have hsorted := insert_sorted (u := u) h.pending_sorted
  rcases lt_or_ge u (b.start + size) with hin | hout
  · rw [receive_of_lt hu hin, max_eq_left (by omega)]
    have hmem : ∀ u' ∈ insert u b.pending, b.start ≤ u' ∧ u' < b.start + size := by
      intro u' hu'
      rcases mem_insert.1 hu' with rfl | hu'
      · exact ⟨hu, hin⟩
      · exact ⟨(h.pending_mem u' hu').1.le, (h.pending_mem u' hu').2⟩
    have hrun := releaseRun_spec hsorted hmem h.released_sorted h.released_lt
    have hhas : ∀ u', (u' ∈ b.released ∨ u' ∈ insert u b.pending) ↔ u' = u ∨ b.Has u' := by
      intro u'
      rw [mem_insert, Buffer.Has]
      tauto
    exact ⟨hrun.inv, hrun.le_start,
      fun he hall => hrun.start_le he fun u' hu' => hall u' ((hhas u').1 hu'),
      fun u' => (hrun.has_iff u').trans (hhas u'), hrun.released⟩
  · rw [receive_of_ge hu hout, max_eq_right (by omega)]
    have hmem : ∀ u' ∈ insert u b.pending, b.start ≤ u' ∧ u' < u + 1 - size + size := by
      intro u' hu'
      rcases mem_insert.1 hu' with rfl | hu'
      · exact ⟨hu, by omega⟩
      · have := h.pending_mem u' hu'
        omega
    have hmove := moveTo_spec (b := { b with pending := insert u b.pending }) hsorted hmem
      h.released_sorted h.released_lt (by dsimp only; omega)
    have hhas : ∀ u', Buffer.Has { b with pending := insert u b.pending } u' ↔
        u' = u ∨ b.Has u' := by
      intro u'
      rw [Buffer.Has, mem_insert, Buffer.Has]
      tauto
    exact ⟨hmove.inv, hmove.le_start,
      fun he hall => hmove.start_le he fun u' hu' => hall u' ((hhas u').1 hu'),
      fun u' => (hmove.has_iff u').trans (hhas u'), hmove.released⟩

theorem Inv.movesTo_start (h : Inv size b) : MovesTo size b.start b.Has b :=
  ⟨h, le_rfl, fun he _ => he, fun _ => Iff.rfl, fun _ hu hu' => absurd hu' (not_lt.2 hu)⟩

/-- A move to a number that is not behind the window. -/
theorem advance_spec (h : Inv size b) (hn : b.start ≤ n) :
    MovesTo size n b.Has (advance n b) := by
  unfold advance
  rcases Nat.eq_or_lt_of_le hn with rfl | hlt
  · rw [if_neg (lt_irrefl _)]
    exact h.movesTo_start
  · rw [if_pos hlt]
    refine moveTo_spec h.pending_sorted (fun u hu => ?_) h.released_sorted h.released_lt hn
    have := h.pending_mem u hu
    omega

theorem Inv.receive (h : Inv size b) (u : ℕ) :
    Inv size (receive size u b) := by
  rcases lt_or_ge u b.start with hu | hu
  · rw [ReorderBuffer.receive, if_pos hu]
    exact h
  · exact (receive_spec h hu).inv

theorem Inv.advance (h : Inv size b) (n : ℕ) : Inv size (advance n b) := by
  rcases lt_or_ge n b.start with hn | hn
  · rw [ReorderBuffer.advance, if_neg (not_lt.2 hn.le)]
    exact h
  · exact (advance_spec h hn).inv

theorem Inv.start_le_receive (h : Inv size b) (u : ℕ) :
    b.start ≤ (ReorderBuffer.receive size u b).start := by
  rcases lt_or_ge u b.start with hu | hu
  · rw [ReorderBuffer.receive, if_pos hu]
  · exact (le_max_left ..).trans (receive_spec h hu).le_start

theorem Inv.start_le_advance (h : Inv size b) (n : ℕ) :
    b.start ≤ (ReorderBuffer.advance n b).start := by
  rcases lt_or_ge n b.start with hn | hn
  · rw [ReorderBuffer.advance, if_neg (not_lt.2 hn.le)]
  · exact hn.trans (advance_spec h hn).le_start

end ReorderBuffer
