import Mathlib

/-!
# Linked lists with shared tails

A list starts at a head and goes on from node to node, and several lists may have a tail in
common. A slot is what holds a pointer : a head, or the pointer of a node. If the nodes are those
of the lists (`Forest`), a node to which two slots point is in two lists (`Forest.exists_other`),
the nodes before the first such node are in one list only (`Forest.not_mem_other`), and no node
has more slots that point to it than there are lists (`Forest.refs_le`).

A list is changed behind a prefix of its own with `Forest.retail`.
-/

set_option linter.unusedSectionVars false

namespace Ns3Pedca.SharedLists

/-- What holds a pointer. -/
inductive Slot (ι α : Type*)
  | head (i : ι)
  | next (a : α)
  deriving DecidableEq

variable {ι α : Type*} [DecidableEq ι] [DecidableEq α] {S S' : Finset (Slot ι α)}
  {p p' : Slot ι α → Option α} {sl : Slot ι α} {a b : α} {i j : ι} {l l' pre post : List α}
  {c : ι → List α}

/-! ## References -/

/-- The number of slots that point to `a`. -/
def refs (S : Finset (Slot ι α)) (p : Slot ι α → Option α) (a : α) : ℕ :=
  (S.filter fun sl => p sl = some a).card

theorem refs_congr (h : ∀ sl ∈ S, p sl = p' sl) : refs S p a = refs S p' a := by
  rw [refs, refs, Finset.filter_congr fun sl hsl => by rw [h sl hsl]]

theorem refs_insert (hsl : sl ∉ S) :
    refs (insert sl S) p a = refs S p a + if p sl = some a then 1 else 0 := by
  rw [refs, refs, Finset.filter_insert]
  split_ifs
  · rw [Finset.card_insert_of_notMem fun h => hsl (Finset.mem_filter.1 h).1]
  · rfl

theorem refs_erase (hsl : sl ∈ S) :
    refs S p a = refs (S.erase sl) p a + if p sl = some a then 1 else 0 := by
  rw [← refs_insert (Finset.notMem_erase sl S), Finset.insert_erase hsl]

/-- A slot that is overwritten gives up one reference and takes another one. -/
theorem refs_update (hsl : sl ∈ S) (v : Option α) :
    refs S (Function.update p sl v) a + (if p sl = some a then 1 else 0) =
      refs S p a + if v = some a then 1 else 0 := by
  have hcongr : refs (S.erase sl) (Function.update p sl v) a = refs (S.erase sl) p a :=
    refs_congr fun x hx => Function.update_of_ne (Finset.ne_of_mem_erase hx) _ _
  rw [refs_erase hsl, refs_erase (p := p) hsl, hcongr, Function.update_self]
  omega

theorem refs_eq_zero (h : ∀ sl ∈ S, p sl ≠ some a) : refs S p a = 0 := by
  rw [refs, Finset.filter_false_of_mem h, Finset.card_empty]

theorem two_le_refs {sl' : Slot ι α} (hsl : sl ∈ S) (hsl' : sl' ∈ S) (hne : sl ≠ sl')
    (hp : p sl = some a) (hp' : p sl' = some a) : 2 ≤ refs S p a :=
  Finset.one_lt_card.2
    ⟨sl, Finset.mem_filter.2 ⟨hsl, hp⟩, sl', Finset.mem_filter.2 ⟨hsl', hp'⟩, hne⟩

/-! ## Chains -/

/-- The nodes behind a slot. -/
def IsChain (p : Slot ι α → Option α) : Slot ι α → List α → Prop
  | sl, [] => p sl = none
  | sl, a :: l => p sl = some a ∧ IsChain p (.next a) l

/-- The slot behind a prefix. -/
def after : Slot ι α → List α → Slot ι α
  | sl, [] => sl
  | _, a :: l => after (.next a) l

theorem after_append_singleton : after sl (pre ++ [a]) = .next a := by
  induction pre generalizing sl with
  | nil => rfl
  | cons b pre ih => exact ih

theorem after_cases (sl : Slot ι α) (pre : List α) :
    pre = [] ∧ after sl pre = sl ∨ ∃ q a, pre = q ++ [a] ∧ after sl pre = .next a := by
  rcases List.eq_nil_or_concat pre with rfl | ⟨q, a, rfl⟩
  · exact Or.inl ⟨rfl, rfl⟩
  · exact Or.inr ⟨q, a, List.concat_eq_append, by
      rw [List.concat_eq_append, after_append_singleton]⟩

/-- What is behind a slot is fixed. -/
theorem IsChain.unique (h : IsChain p sl l) (h' : IsChain p sl l') : l = l' := by
  induction l generalizing sl l' with
  | nil =>
    cases l' with
    | nil => rfl
    | cons b l' => exact absurd (h.symm.trans h'.1) (Option.some_ne_none b).symm
  | cons a l ih =>
    cases l' with
    | nil => exact absurd (h'.symm.trans h.1) (Option.some_ne_none a).symm
    | cons b l' =>
      obtain rfl : a = b := Option.some.inj (h.1.symm.trans h'.1)
      rw [ih h.2 h'.2]

theorem IsChain.drop (h : IsChain p sl (pre ++ l)) : IsChain p (after sl pre) l := by
  induction pre generalizing sl with
  | nil => exact h
  | cons a pre ih => exact ih h.2

theorem IsChain.nodup (h : IsChain p sl l) : l.Nodup := by
  induction l generalizing sl with
  | nil => exact List.nodup_nil
  | cons a l ih =>
    refine List.nodup_cons.2 ⟨fun hmem => ?_, ih h.2⟩
    obtain ⟨q, r, rfl⟩ := List.append_of_mem hmem
    have hr : IsChain p (.next a) r := by
      have hdrop : IsChain p (after (.next a) (q ++ [a])) r :=
        IsChain.drop (by rw [List.append_assoc]; exact h.2)
      rwa [after_append_singleton] at hdrop
    have hlen := congrArg List.length (hr.unique h.2)
    rw [List.length_append, List.length_cons] at hlen
    omega

/-- The same nodes behind a slot that holds the same pointer. -/
theorem IsChain.congr {sl' : Slot ι α} (h : IsChain p sl l) (hsl : p' sl' = p sl)
    (hl : ∀ a ∈ l, p' (.next a) = p (.next a)) : IsChain p' sl' l := by
  induction l generalizing sl sl' with
  | nil => exact hsl.trans h
  | cons a l ih =>
    obtain ⟨ha, hl⟩ := List.forall_mem_cons.1 hl
    exact ⟨hsl.trans h.1, ih h.2 ha hl⟩

/-- Another tail behind a prefix whose pointers stay. -/
theorem IsChain.splice (h : IsChain p sl (pre ++ l)) (hl' : IsChain p' (after sl pre) l')
    (hsame : ∀ q a r, pre = q ++ a :: r → p' (after sl q) = p (after sl q)) :
    IsChain p' sl (pre ++ l') := by
  induction pre generalizing sl with
  | nil => exact hl'
  | cons a pre ih =>
    refine ⟨(hsame [] a pre rfl).trans h.1, ih h.2 hl' fun q b r heq => ?_⟩
    exact hsame (a :: q) b r (by rw [heq, List.cons_append])

/-- The slot before a node of a list. -/
theorem IsChain.pred_unique {pre' post' : List α} (h : IsChain p sl (pre ++ a :: post))
    (heq : pre ++ a :: post = pre' ++ a :: post') : pre = pre' := by
  have hnodup := h.nodup
  induction pre generalizing sl pre' with
  | nil =>
    cases pre' with
    | nil => rfl
    | cons b pre' =>
      obtain ⟨rfl, htail⟩ := List.cons.inj heq
      change (a :: post).Nodup at hnodup
      rw [show post = pre' ++ a :: post' from htail] at hnodup
      exact absurd (List.mem_append_right _ List.mem_cons_self) (List.nodup_cons.1 hnodup).1
  | cons b pre ih =>
    cases pre' with
    | nil =>
      obtain ⟨rfl, -⟩ := List.cons.inj heq
      exact absurd (List.mem_append_right _ List.mem_cons_self) (List.nodup_cons.1 hnodup).1
    | cons d pre' =>
      obtain ⟨rfl, htail⟩ := List.cons.inj heq
      rw [ih h.2 htail h.2.nodup]

/-! ## Forests -/

/-- The lists `c`, with their nodes. -/
structure Forest (S : Finset (Slot ι α)) (p : Slot ι α → Option α) (c : ι → List α) : Prop where
  chain : ∀ i, .head i ∈ S → IsChain p (.head i) (c i)
  nodes : ∀ a, .next a ∈ S ↔ ∃ i, .head i ∈ S ∧ a ∈ c i

/-- A slot that points to a node is before that node in a list. -/
theorem Forest.exists_pred (h : Forest S p c) (hsl : sl ∈ S) (hp : p sl = some a) :
    ∃ i, .head i ∈ S ∧ ∃ pre post, c i = pre ++ a :: post ∧ sl = after (.head i) pre := by
  cases sl with
  | head i =>
    have hchain := h.chain i hsl
    cases hc : c i with
    | nil =>
      rw [hc] at hchain
      exact absurd (hchain.symm.trans hp) (Option.some_ne_none a).symm
    | cons b post =>
      rw [hc] at hchain
      obtain rfl : b = a := Option.some.inj (hchain.1.symm.trans hp)
      exact ⟨i, hsl, [], post, hc, rfl⟩
  | next b =>
    obtain ⟨i, hi, hmem⟩ := (h.nodes b).1 hsl
    obtain ⟨q, r, hc⟩ := List.append_of_mem hmem
    have hchain := h.chain i hi
    rw [hc] at hchain
    have hr := hchain.drop.2
    cases r with
    | nil => exact absurd (hr.symm.trans hp) (Option.some_ne_none a).symm
    | cons d post =>
      obtain rfl : d = a := Option.some.inj (hr.1.symm.trans hp)
      refine ⟨i, hi, q ++ [b], post, ?_, after_append_singleton.symm⟩
      rw [hc, List.append_assoc, List.cons_append, List.nil_append]

/-- The slot before a node of a list points to it. -/
theorem Forest.pred (h : Forest S p c) (hi : .head i ∈ S) (hc : c i = pre ++ a :: post) :
    after (.head i) pre ∈ S ∧ p (after (.head i) pre) = some a := by
  have hchain := h.chain i hi
  rw [hc] at hchain
  refine ⟨?_, hchain.drop.1⟩
  rcases after_cases (.head i) pre with ⟨-, heq⟩ | ⟨q, b, rfl, heq⟩
  · rwa [heq]
  · rw [heq]
    refine (h.nodes b).2 ⟨i, hi, ?_⟩
    rw [hc]
    exact List.mem_append_left _ (List.mem_append_right _ List.mem_cons_self)

theorem Forest.pred_eq {pre' post' : List α} (h : Forest S p c) (hi : .head i ∈ S)
    (hc : c i = pre ++ a :: post) (hc' : c i = pre' ++ a :: post') : pre = pre' := by
  have hchain := h.chain i hi
  rw [hc] at hchain
  exact hchain.pred_unique (hc.symm.trans hc')

/-- A node to which two slots point is in two lists. -/
theorem Forest.exists_other (h : Forest S p c) (hrefs : 2 ≤ refs S p a) (i : ι) :
    ∃ j, j ≠ i ∧ .head j ∈ S ∧ a ∈ c j := by
  obtain ⟨x, hx, y, hy, hne⟩ := Finset.one_lt_card.1 hrefs
  obtain ⟨hx, hpx⟩ := Finset.mem_filter.1 hx
  obtain ⟨hy, hpy⟩ := Finset.mem_filter.1 hy
  obtain ⟨j, hj, pre, post, hc, rfl⟩ := h.exists_pred hx hpx
  obtain ⟨k, hk, pre', post', hc', rfl⟩ := h.exists_pred hy hpy
  by_cases hji : j = i
  · by_cases hki : k = i
    · subst hji hki
      exact absurd (by rw [h.pred_eq hj hc hc']) hne
    · exact ⟨k, hki, hk, by rw [hc']; simp⟩
  · exact ⟨j, hji, hj, by rw [hc]; simp⟩

/-- No node has more slots that point to it than there are lists. -/
theorem Forest.refs_le (h : Forest S p c) {I : Finset ι} (hI : ∀ i, .head i ∈ S → i ∈ I) :
    refs S p a ≤ I.card := by
  refine Finset.card_le_card_of_forall_subsingleton
    (fun sl i => .head i ∈ S ∧ ∃ pre post, c i = pre ++ a :: post ∧ sl = after (.head i) pre)
    (fun sl hsl => ?_) fun i _ x hx y hy => ?_
  · obtain ⟨hsl, hp⟩ := Finset.mem_filter.1 hsl
    obtain ⟨i, hi, hpre⟩ := h.exists_pred hsl hp
    exact ⟨i, hI i hi, hi, hpre⟩
  · obtain ⟨-, hi, pre, post, hc, rfl⟩ := hx
    obtain ⟨-, -, pre', post', hc', rfl⟩ := hy
    rw [h.pred_eq hi hc hc']

/-- The nodes of a list before the first one with two references are in no other list. -/
theorem Forest.not_mem_other (h : Forest S p c) (hi : .head i ∈ S) (hc : c i = pre ++ l)
    (hone : ∀ a ∈ pre, refs S p a ≤ 1) (hj : .head j ∈ S) (hne : j ≠ i) : ∀ a ∈ pre, a ∉ c j := by
  induction pre using List.reverseRecOn generalizing l with
  | nil => exact fun a ha => absurd ha List.not_mem_nil
  | append_singleton q b ih =>
    have hc' : c i = q ++ b :: l := by rw [hc, List.append_assoc]; rfl
    have hq := ih hc' fun a ha => hone a (List.mem_append_left _ ha)
    intro a ha hmem
    rcases List.mem_append.1 ha with ha | ha
    · exact hq a ha hmem
    · obtain rfl := List.mem_singleton.1 ha
      obtain ⟨pre', post', hcj⟩ := List.append_of_mem hmem
      obtain ⟨hS, hp⟩ := h.pred hi hc'
      obtain ⟨hS', hp'⟩ := h.pred hj hcj
      have hslots : after (.head i) q ≠ after (.head j) pre' := by
        intro heq
        rcases after_cases (.head i) q with ⟨-, hi'⟩ | ⟨q', x, rfl, hi'⟩
        · rcases after_cases (.head j) pre' with ⟨-, hj'⟩ | ⟨q'', y, -, hj'⟩
          · rw [hi', hj'] at heq
            exact hne (Slot.head.inj heq).symm
          · rw [hi', hj'] at heq
            cases heq
        · rcases after_cases (.head j) pre' with ⟨-, hj'⟩ | ⟨q'', y, rfl, hj'⟩
          · rw [hi', hj'] at heq
            cases heq
          · rw [hi', hj'] at heq
            obtain rfl := Slot.next.inj heq
            refine hq x (List.mem_append_right _ List.mem_cons_self) ?_
            rw [hcj]
            simp
      have htwo := two_le_refs hS hS' hslots hp hp'
      have hle := hone a (List.mem_append_right _ List.mem_cons_self)
      omega

/-- The slot behind a prefix is not one behind it. -/
theorem after_ne_next (hnodup : (pre ++ l).Nodup) (ha : a ∈ l) :
    after (Slot.head i) pre ≠ .next a := by
  intro h
  rcases after_cases (Slot.head i) pre with ⟨-, hp⟩ | ⟨q, x, rfl, hp⟩
  · rw [hp] at h
    cases h
  · rw [hp] at h
    obtain rfl := Slot.next.inj h
    exact (List.nodup_append.1 hnodup).2.2 x (List.mem_append_right _ List.mem_cons_self) x ha rfl

/-- Nor is it one before it. -/
theorem after_ne {q r : List α} (hnodup : pre.Nodup) (heq : pre = q ++ a :: r) :
    after (Slot.head i) q ≠ after (Slot.head i) pre := by
  subst heq
  rcases List.eq_nil_or_concat r with rfl | ⟨r, b, rfl⟩
  · rw [after_append_singleton]
    exact after_ne_next hnodup List.mem_cons_self
  · have hb : after (Slot.head i) (q ++ a :: r.concat b) = .next b := by
      rw [List.concat_eq_append, ← List.cons_append, ← List.append_assoc, after_append_singleton]
    rw [hb]
    exact after_ne_next hnodup (by simp)

/-- A list gets another tail behind a prefix whose nodes are in no other list. -/
theorem Forest.retail (h : Forest S p c) (hi : .head i ∈ S) (hc : c i = pre ++ l)
    (hother : ∀ j, .head j ∈ S → j ≠ i → ∀ a ∈ pre, a ∉ c j)
    (hheads : ∀ j, .head j ∈ S' ↔ .head j ∈ S)
    (hnodes : ∀ a, .next a ∈ S' ↔ a ∈ pre ++ l' ∨ ∃ j, j ≠ i ∧ .head j ∈ S ∧ a ∈ c j)
    (hsame : ∀ sl ∈ S, sl ∈ S' → sl ≠ after (.head i) pre → p' sl = p sl)
    (htail : IsChain p' (after (.head i) pre) l') :
    Forest S' p' (Function.update c i (pre ++ l')) := by
  have hchain := h.chain i hi
  rw [hc] at hchain
  have hnodup : pre.Nodup := (List.nodup_append.1 hchain.nodup).1
  refine ⟨fun j hj => ?_, fun a => ?_⟩
  · by_cases hji : j = i
    · subst hji
      rw [Function.update_self]
      refine hchain.splice htail fun q a r heq => hsame _ ?_ ?_ (after_ne hnodup heq)
      · exact (h.pred hi (hc.trans (by rw [heq, List.append_assoc, List.cons_append]))).1
      · rcases after_cases (Slot.head j) q with ⟨-, hq⟩ | ⟨q, x, rfl, hq⟩
        · rwa [hq]
        · rw [hq, hnodes, heq]
          exact Or.inl (by simp)
    · rw [Function.update_of_ne hji]
      have hjS := (hheads j).1 hj
      refine (h.chain j hjS).congr (hsame _ hjS hj fun heq => ?_) fun a ha => hsame _ ?_ ?_ ?_
      · rcases after_cases (Slot.head i) pre with ⟨-, hp⟩ | ⟨q, x, rfl, hp⟩
        · rw [hp] at heq
          exact hji (Slot.head.inj heq)
        · rw [hp] at heq
          cases heq
      · exact (h.nodes a).2 ⟨j, hjS, ha⟩
      · exact (hnodes a).2 (Or.inr ⟨j, hji, hjS, ha⟩)
      · intro heq
        rcases after_cases (Slot.head i) pre with ⟨-, hp⟩ | ⟨q, x, rfl, hp⟩
        · rw [hp] at heq
          cases heq
        · rw [hp] at heq
          obtain rfl := Slot.next.inj heq
          exact hother j hjS hji a (List.mem_append_right _ List.mem_cons_self) ha
  · rw [hnodes]
    constructor
    · rintro (hmem | ⟨j, hji, hj, hmem⟩)
      · exact ⟨i, (hheads i).2 hi, by rwa [Function.update_self]⟩
      · exact ⟨j, (hheads j).2 hj, by rwa [Function.update_of_ne hji]⟩
    · rintro ⟨j, hj, hmem⟩
      by_cases hji : j = i
      · subst hji
        rw [Function.update_self] at hmem
        exact Or.inl hmem
      · rw [Function.update_of_ne hji] at hmem
        exact Or.inr ⟨j, hji, (hheads j).1 hj, hmem⟩

end Ns3Pedca.SharedLists
