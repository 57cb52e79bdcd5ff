import Mathlib

/-!
# Queues side by side

A server has several queues, its lanes, and items of several kinds. As long as the lanes hold the
items of a kind in one of them only (`Kept.apart`), the items of a kind leave in the order in which
they came (`Kept.order`), whichever lane is served next and whatever is lost on the way.
-/

namespace Ns3Pedca.Lanes

variable {α κ : Type*} [DecidableEq κ] (kind : α → κ)

/-- The items of a kind are in one lane, and those that have left and those in a lane have come in
this order. -/
structure Kept (input output : List α) (lanes : ℕ → List α) : Prop where
  apart : ∀ k k' x x', x ∈ lanes k → x' ∈ lanes k' → kind x = kind x' → k = k'
  sublist : ∀ k c, ((output ++ lanes k).filter (kind · = c)).Sublist
    (input.filter (kind · = c))

variable {kind} {input output lane : List α} {lanes : ℕ → List α} {k : ℕ} {x : α}

theorem Kept.order (h : Kept kind input output lanes) (c : κ) :
    (output.filter (kind · = c)).Sublist (input.filter (kind · = c)) := by
  have hsub := h.sublist 0 c
  rw [List.filter_append] at hsub
  exact (List.sublist_append_left _ _).trans hsub

theorem kept_nil : Kept kind [] [] fun _ => [] := by
  refine ⟨?_, ?_⟩
  · intro _ _ _ _ hx
    cases hx
  · intro _ _
    exact List.Sublist.refl _

/-- Items are lost from the lanes, or have come and are not in a lane. -/
theorem Kept.lose (h : Kept kind input output lanes) {input' : List α} {lanes' : ℕ → List α}
    (hlanes : ∀ k, (lanes' k).Sublist (lanes k)) (hinput : input.Sublist input') :
    Kept kind input' output lanes' := by
  refine ⟨?_, ?_⟩
  · intro k k' x x' hx hx' heq
    exact h.apart k k' x x' ((hlanes k).mem hx) ((hlanes k').mem hx') heq
  · intro k c
    have hlane : ((output ++ lanes' k).filter (kind · = c)).Sublist
        ((output ++ lanes k).filter (kind · = c)) :=
      ((List.Sublist.refl output).append (hlanes k)).filter _
    exact (hlane.trans (h.sublist k c)).trans (hinput.filter _)

/-- An item comes into a lane, and no other lane holds items of its kind. -/
theorem Kept.push (h : Kept kind input output lanes)
    (hx : ∀ j y, y ∈ lanes j → kind y = kind x → j = k) :
    Kept kind (input ++ [x]) output (Function.update lanes k (lanes k ++ [x])) := by
  have hmem : ∀ j y, y ∈ Function.update lanes k (lanes k ++ [x]) j →
      y ∈ lanes j ∨ y = x ∧ j = k := by
    intro j y hy
    rcases eq_or_ne j k with rfl | hj
    · rw [Function.update_self, List.mem_append, List.mem_singleton] at hy
      exact hy.imp_right (⟨·, rfl⟩)
    · rw [Function.update_of_ne hj] at hy
      exact Or.inl hy
  refine ⟨?_, ?_⟩
  · intro i j y z hy hz heq
    rcases hmem i y hy with hyi | ⟨hy, hi⟩
    · rcases hmem j z hz with hzj | ⟨hz, hj⟩
      · exact h.apart i j y z hyi hzj heq
      · exact (hx i y hyi (heq.trans (congrArg kind hz))).trans hj.symm
    · rcases hmem j z hz with hzj | ⟨hz, hj⟩
      · exact hi.trans (hx j z hzj (heq.symm.trans (congrArg kind hy))).symm
      · exact hi.trans hj.symm
  · intro j c
    rw [List.filter_append]
    rcases eq_or_ne j k with rfl | hj
    · rw [Function.update_self, List.filter_append, ← List.append_assoc, ← List.filter_append,
        List.filter_append input]
      exact (h.sublist j c).append (List.Sublist.refl _)
    · rw [Function.update_of_ne hj, ← List.filter_append]
      exact (h.sublist j c).trans ((List.sublist_append_left input [x]).filter _)

/-- An item leaves its lane from behind those that are lost. -/
theorem Kept.take (h : Kept kind input output lanes) (hx : (x :: lane).Sublist (lanes k)) :
    Kept kind input (output ++ [x]) (Function.update lanes k lane) := by
  have hlane : lane.Sublist (lanes k) := (List.sublist_cons_self x lane).trans hx
  have hmem : x ∈ lanes k := hx.mem List.mem_cons_self
  refine ⟨?_, ?_⟩
  · refine Kept.apart (h.lose ?_ (List.Sublist.refl _))
    intro j
    rcases eq_or_ne j k with rfl | hj
    · rw [Function.update_self]
      exact hlane
    · rw [Function.update_of_ne hj]
  · intro j c
    rw [List.append_assoc]
    rcases eq_or_ne j k with rfl | hj
    · rw [Function.update_self]
      refine List.Sublist.trans ?_ (h.sublist j c)
      exact ((List.Sublist.refl output).append hx).filter _
    · rw [Function.update_of_ne hj]
      by_cases hc : kind x = c
      · -- the other lane holds nothing of the kind of the item
        have hnone : (lanes j).filter (kind · = c) = [] := by
          rw [List.filter_eq_nil_iff]
          intro y hy hyc
          exact hj (h.apart j k y x hy hmem ((of_decide_eq_true hyc).trans hc.symm))
        refine List.Sublist.trans ?_ (h.sublist k c)
        rw [List.filter_append, List.filter_append, hnone, List.append_nil, ← List.filter_append]
        exact ((List.Sublist.refl output).append (List.singleton_sublist.2 hmem)).filter _
      · rw [List.filter_append, List.filter_append, List.filter_singleton, decide_eq_false hc,
          cond_false, List.nil_append, ← List.filter_append]
        exact h.sublist j c

end Ns3Pedca.Lanes
