import Mathlib

/-!
# Ranges that are joined where they touch

A range has a first end, which belongs to it, and a last one, which does not. `joinFirst` looks
in a list for a range that ends where a given one begins, or begins where it ends, and `joinAll`
joins such ranges to the given one until there is no other. If the ranges of the list are `Apart`
from each other and the given one lies `Beside` them, then all are apart at the end, and they hold
what they held before (`joinAll_spec`).
-/

namespace Ranges

/-! ## Joining -/

section Join

variable {α β : Type*} [DecidableEq α] [DecidableEq β] {x y : α × α} {l rest : List (α × α)}

/-- The range `x` with the first one in the list that touches it, and the others. -/
def joinFirst (x : α × α) : List (α × α) → Option ((α × α) × List (α × α))
  | [] => none
  | a :: l =>
    if x.1 = a.2 then some ((a.1, x.2), l)
    else if x.2 = a.1 then some ((x.1, a.2), l)
    else (joinFirst x l).map fun found => (found.1, a :: found.2)

/-- The range `x` with up to `n` others that touch it one after another, before the rest. -/
def joinAll : ℕ → α × α → List (α × α) → List (α × α)
  | 0, x, l => x :: l
  | n + 1, x, l =>
    match joinFirst x l with
    | none => x :: l
    | some (y, rest) => joinAll n y rest

theorem joinFirst_none (h : joinFirst x l = none) : ∀ a ∈ l, x.1 ≠ a.2 ∧ x.2 ≠ a.1 := by
  induction l with
  | nil => exact fun a ha => absurd ha List.not_mem_nil
  | cons a l ih =>
    rw [joinFirst] at h
    split_ifs at h with hleft hright
    exact List.forall_mem_cons.2 ⟨⟨hleft, hright⟩, ih (Option.map_eq_none_iff.1 h)⟩

theorem joinFirst_some (h : joinFirst x l = some (y, rest)) :
    ∃ a, l.Perm (a :: rest) ∧ (x.1 = a.2 ∧ y = (a.1, x.2) ∨ x.2 = a.1 ∧ y = (x.1, a.2)) := by
  induction l generalizing y rest with
  | nil => cases h
  | cons a l ih =>
    rw [joinFirst] at h
    split_ifs at h with hleft hright
    · cases h
      exact ⟨a, List.Perm.refl _, Or.inl ⟨hleft, rfl⟩⟩
    · cases h
      exact ⟨a, List.Perm.refl _, Or.inr ⟨hright, rfl⟩⟩
    · obtain ⟨found, hfound, heq⟩ := Option.map_eq_some_iff.1 h
      cases heq
      obtain ⟨c, hperm, hjoin⟩ := ih hfound
      exact ⟨c, (hperm.cons a).trans (List.Perm.swap c a _), hjoin⟩

/-- Joining under another name of the ends. -/
theorem joinFirst_map (f : α → β) (hf : ∀ a ∈ l, (f x.1 = f a.2 ↔ x.1 = a.2) ∧
    (f x.2 = f a.1 ↔ x.2 = a.1)) :
    joinFirst (Prod.map f f x) (l.map (Prod.map f f)) =
      (joinFirst x l).map fun found => (Prod.map f f found.1, found.2.map (Prod.map f f)) := by
  induction l with
  | nil => rfl
  | cons a l ih =>
    obtain ⟨⟨hleft, hright⟩, hl⟩ := List.forall_mem_cons.1 hf
    rw [List.map_cons, joinFirst, joinFirst, ih hl]
    change (if f x.1 = f a.2 then _ else if f x.2 = f a.1 then _ else _) = _
    simp only [hleft, hright]
    split_ifs
    · rfl
    · rfl
    · rw [Option.map_map, Option.map_map]
      rfl

theorem joinAll_map (f : α → β) {s : Set α} (hf : Set.InjOn f s) {n : ℕ}
    (hx : x.1 ∈ s ∧ x.2 ∈ s) (hl : ∀ a ∈ l, a.1 ∈ s ∧ a.2 ∈ s) :
    joinAll n (Prod.map f f x) (l.map (Prod.map f f)) =
      (joinAll n x l).map (Prod.map f f) := by
  induction n generalizing x l with
  | zero => rfl
  | succ n ih =>
    have hmap := joinFirst_map f (x := x) (l := l) fun a ha =>
      ⟨hf.eq_iff hx.1 (hl a ha).2, hf.eq_iff hx.2 (hl a ha).1⟩
    rw [joinAll, joinAll, hmap]
    cases hfirst : joinFirst x l with
    | none => rfl
    | some found =>
      obtain ⟨y, rest⟩ := found
      obtain ⟨a, hperm, hjoin⟩ := joinFirst_some hfirst
      have ha := hl a (hperm.mem_iff.2 List.mem_cons_self)
      refine ih ?_ fun c hc => hl c (hperm.mem_iff.2 (List.mem_cons_of_mem a hc))
      rcases hjoin with ⟨-, rfl⟩ | ⟨-, rfl⟩
      · exact ⟨ha.1, hx.2⟩
      · exact ⟨hx.1, ha.2⟩

theorem length_joinAll_le (n : ℕ) (x : α × α) (l : List (α × α)) :
    (joinAll n x l).length ≤ l.length + 1 := by
  induction n generalizing x l with
  | zero => exact le_rfl
  | succ n ih =>
    rw [joinAll]
    cases hfirst : joinFirst x l with
    | none => exact le_rfl
    | some found =>
      obtain ⟨a, hperm, -⟩ := joinFirst_some hfirst
      have hlen := hperm.length_eq
      have hle := ih found.1 found.2
      rw [List.length_cons] at hlen
      change (joinAll n found.1 found.2).length ≤ _
      omega

end Join

/-! ## Ranges of an order -/

section Order

variable {α : Type*} [LinearOrder α] {a b x y : α × α} {l rest : List (α × α)} {q : α}

/-- Something of the order lies between the two ranges. -/
def Apart (a b : α × α) : Prop :=
  a.2 < b.1 ∨ b.2 < a.1

/-- The two ranges share nothing. -/
def Beside (a b : α × α) : Prop :=
  a.2 ≤ b.1 ∨ b.2 ≤ a.1

/-- `q` is in one of the ranges. -/
def Holds (l : List (α × α)) (q : α) : Prop :=
  ∃ a ∈ l, a.1 ≤ q ∧ q < a.2

theorem Apart.symm (h : Apart a b) : Apart b a :=
  Or.symm h

instance : Std.Symm (Apart (α := α)) :=
  ⟨fun _ _ h => h.symm⟩

theorem holds_cons : Holds (a :: l) q ↔ (a.1 ≤ q ∧ q < a.2) ∨ Holds l q := by
  simp [Holds]

theorem Holds.mono (h : Holds l q) (hl : ∀ a ∈ l, a ∈ rest) : Holds rest q :=
  h.imp fun a ha => ⟨hl a ha.1, ha.2⟩

/-- What joining the range `x` to the list makes of it. -/
structure Joined (x : α × α) (l : List (α × α)) (y : α × α) (rest : List (α × α)) : Prop where
  le : y.1 ≤ x.1 ∧ x.2 ≤ y.2
  lt : ∀ a ∈ y :: rest, a.1 < a.2
  apart : (y :: rest).Pairwise Apart
  holds_iff : ∀ q, Holds (y :: rest) q ↔ (x.1 ≤ q ∧ q < x.2) ∨ Holds l q

/-- A range joined to one that touches it. -/
structure Touched (x a y : α × α) : Prop where
  le : y.1 ≤ x.1 ∧ x.2 ≤ y.2
  holds_iff : ∀ q, y.1 ≤ q ∧ q < y.2 ↔ (x.1 ≤ q ∧ q < x.2) ∨ a.1 ≤ q ∧ q < a.2
  beside : ∀ c : α × α, c.1 < c.2 → Apart a c → Beside x c → Beside y c

theorem touched (hx : x.1 < x.2) (ha : a.1 < a.2)
    (h : x.1 = a.2 ∧ y = (a.1, x.2) ∨ x.2 = a.1 ∧ y = (x.1, a.2)) : Touched x a y := by
  rcases h with ⟨heq, rfl⟩ | ⟨heq, rfl⟩
  · refine ⟨⟨by order, le_rfl⟩, fun q => ⟨fun hq => ?_, fun hq => ?_⟩,
      fun c hc hac hxc => ?_⟩
    · rcases lt_or_ge q x.1 with hlt | hge
      · exact Or.inr ⟨hq.1, heq ▸ hlt⟩
      · exact Or.inl ⟨hge, hq.2⟩
    · rcases hq with hq | hq
      · exact ⟨by order, hq.2⟩
      · exact ⟨hq.1, by order⟩
    · rcases hxc with hxc | hxc
      · exact Or.inl hxc
      · rcases hac with hac | hac
        · order
        · exact Or.inr hac.le
  · refine ⟨⟨le_rfl, by order⟩, fun q => ⟨fun hq => ?_, fun hq => ?_⟩,
      fun c hc hac hxc => ?_⟩
    · rcases lt_or_ge q x.2 with hlt | hge
      · exact Or.inl ⟨hq.1, hlt⟩
      · exact Or.inr ⟨heq ▸ hge, hq.2⟩
    · rcases hq with hq | hq
      · exact ⟨hq.1, by order⟩
      · exact ⟨by order, hq.2⟩
    · rcases hxc with hxc | hxc
      · rcases hac with hac | hac
        · exact Or.inl hac.le
        · order
      · exact Or.inr hxc

/-- A range beside ranges that are apart, joined to them, is apart from the others. -/
theorem joinAll_spec {n : ℕ} (hn : l.length ≤ n) (hx : x.1 < x.2) (hl : ∀ a ∈ l, a.1 < a.2)
    (hapart : l.Pairwise Apart) (hbeside : ∀ a ∈ l, Beside x a) :
    ∃ y rest, joinAll n x l = y :: rest ∧ Joined x l y rest := by
  induction n generalizing x l with
  | zero =>
    obtain rfl := List.eq_nil_of_length_eq_zero (Nat.le_zero.1 hn)
    exact ⟨x, [], rfl, ⟨le_rfl, le_rfl⟩, List.forall_mem_singleton.2 hx,
      List.pairwise_singleton _ _, fun q => holds_cons⟩
  | succ n ih =>
    rw [joinAll]
    cases hfirst : joinFirst x l with
    | none =>
      refine ⟨x, l, rfl, ⟨le_rfl, le_rfl⟩, List.forall_mem_cons.2 ⟨hx, hl⟩,
        List.pairwise_cons.2 ⟨fun a ha => ?_, hapart⟩, fun q => holds_cons⟩
      obtain ⟨hleft, hright⟩ := joinFirst_none hfirst a ha
      exact (hbeside a ha).imp (fun hle => hle.lt_of_ne hright) fun hle => hle.lt_of_ne' hleft
    | some found =>
      obtain ⟨z, others⟩ := found
      obtain ⟨a, hperm, hjoin⟩ := joinFirst_some hfirst
      have hmem (c : α × α) (hc : c ∈ others) : c ∈ l :=
        hperm.mem_iff.2 (List.mem_cons_of_mem a hc)
      have hal : a ∈ l := hperm.mem_iff.2 List.mem_cons_self
      have htouched := touched hx (hl a hal) hjoin
      obtain ⟨haothers, hothers⟩ :=
        List.pairwise_cons.1 ((hperm.pairwise_iff fun h => h.symm).1 hapart)
      have hlen := hperm.length_eq
      rw [List.length_cons] at hlen
      have hz : z.1 < z.2 := htouched.le.1.trans_lt (hx.trans_le htouched.le.2)
      obtain ⟨y, rest, heq, hjoined⟩ := ih (by omega) hz (fun c hc => hl c (hmem c hc)) hothers
        fun c hc => htouched.beside c (hl c (hmem c hc)) (haothers c hc) (hbeside c (hmem c hc))
      refine ⟨y, rest, heq, ⟨hjoined.le.1.trans htouched.le.1, htouched.le.2.trans hjoined.le.2⟩,
        hjoined.lt, hjoined.apart, fun q => ?_⟩
      have hholds : Holds l q ↔ Holds (a :: others) q :=
        ⟨fun h => h.mono fun c hc => hperm.mem_iff.1 hc,
          fun h => h.mono fun c hc => hperm.mem_iff.2 hc⟩
      rw [hjoined.holds_iff, htouched.holds_iff, hholds, holds_cons, or_assoc]

end Order

end Ranges
