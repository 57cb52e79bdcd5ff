import Mathlib

/-!
# Binary heaps in a list

The positions of a heap begin at one : the list has an item at the position zero which is no
part of it, and the parent of the position `i` is `i / 2`. A heap is in order if no item ranks
below its parent (`InOrder`). `siftUp` repairs one item that may rank below its parent
(`siftUp_spec`), and `siftDown` one that may rank above its children (`siftDown_spec`). An item
that takes the place of another one in the middle may be either.
-/

namespace BinaryHeap

variable {α β : Type*} [Inhabited α] [LinearOrder β] (r : α → β)

/-- The item at a position. -/
def item (l : List α) (i : ℕ) : α :=
  l.getD i default

/-- The list with two items exchanged. -/
def exch (l : List α) (a b : ℕ) : List α :=
  (l.set a (item l b)).set b (item l a)

/-- The item at the position `index` goes up while it ranks below its parent. -/
def siftUp : ℕ → ℕ → List α → List α
  | 0, _, l => l
  | fuel + 1, index, l =>
    if index ≠ 1 ∧ r (item l index) < r (item l (index / 2)) then
      siftUp fuel (index / 2) (exch l index (index / 2))
    else l

/-- The child with the lowest rank. -/
def leastChild (l : List α) (index : ℕ) : ℕ :=
  if index * 2 + 1 < l.length then
    if r (item l (index * 2)) < r (item l (index * 2 + 1)) then index * 2 else index * 2 + 1
  else index * 2

/-- The item at the position `index` goes down until it ranks below its children. -/
def siftDown : ℕ → ℕ → List α → List α
  | 0, _, l => l
  | fuel + 1, index, l =>
    if index * 2 < l.length then
      if r (item l index) < r (item l (leastChild r l index)) then l
      else siftDown fuel (leastChild r l index) (exch l index (leastChild r l index))
    else l

/-- No item below the position `lo` ranks below its parent. -/
def InOrder (lo : ℕ) (l : List α) : Prop :=
  ∀ i, 2 ≤ i → i < l.length → lo ≤ i / 2 → r (item l (i / 2)) ≤ r (item l i)

/-- The heap is in order but for the item at `hole`, which may rank below its parent. -/
structure UpOrder (hole : ℕ) (l : List α) : Prop where
  others : ∀ i, 2 ≤ i → i < l.length → i ≠ hole → r (item l (i / 2)) ≤ r (item l i)
  around : ∀ c, c < l.length → c / 2 = hole → 2 ≤ hole → r (item l (hole / 2)) ≤ r (item l c)

/-- The heap is in order but for the item at `hole`, which may rank above its children. -/
structure DownOrder (lo hole : ℕ) (l : List α) : Prop where
  others : ∀ i, 2 ≤ i → i < l.length → lo ≤ i / 2 → i / 2 ≠ hole →
    r (item l (i / 2)) ≤ r (item l i)
  around : ∀ c, c < l.length → c / 2 = hole → 2 ≤ hole → lo ≤ hole / 2 →
    r (item l (hole / 2)) ≤ r (item l c)

variable {r} {l : List α} {a b i lo hole : ℕ}

/-! ## Exchanged items -/

@[simp] theorem length_exch : (exch l a b).length = l.length := by
  simp [exch]

theorem item_exch (ha : a < l.length) (hb : b < l.length) :
    item (exch l a b) i = if i = b then item l a else if i = a then item l b else item l i := by
  simp only [item, exch, List.getD_eq_getElem?_getD, List.getElem?_set, List.length_set]
  by_cases hib : b = i
  · simp [hib, hib ▸ hb]
  · by_cases hia : a = i
    · simp [hia, hib, hia ▸ ha, Ne.symm hib]
    · simp [hia, hib, Ne.symm hib, Ne.symm hia]

theorem perm_exch (ha : a < l.length) (hb : b < l.length) : (exch l a b).Perm l := by
  have hperm := List.set_set_perm ha hb
  rwa [exch, item, item, List.getD_eq_getElem _ _ ha, List.getD_eq_getElem _ _ hb]

theorem head_exch (ha : a ≠ 0) (hb : b ≠ 0) : item (exch l a b) 0 = item l 0 := by
  simp [item, exch, List.getD_eq_getElem?_getD, ha, hb]

/-! ## Sifting up -/

theorem UpOrder.inOrder (h : UpOrder r hole l)
    (hstop : 2 ≤ hole → hole < l.length → r (item l (hole / 2)) ≤ r (item l hole)) :
    InOrder r 1 l := by
  intro i hi hlt _
  by_cases hhole : i = hole
  · rw [hhole] at hi hlt ⊢
    exact hstop hi hlt
  · exact h.others i hi hlt hhole

/-- An exchange with the parent moves the hole to the parent. -/
theorem UpOrder.exch (h : UpOrder r hole l) (hole2 : 2 ≤ hole) (hlt : hole < l.length)
    (hbelow : r (item l hole) < r (item l (hole / 2))) :
    UpOrder r (hole / 2) (exch l hole (hole / 2)) := by
  have hitem : ∀ i, item (BinaryHeap.exch l hole (hole / 2)) i =
      if i = hole / 2 then item l hole else if i = hole then item l (hole / 2) else item l i :=
    fun i => item_exch hlt (by omega)
  refine ⟨fun i hi hilt hne => ?_, fun c hclt hc hp => ?_⟩
  · rw [length_exch] at hilt
    rw [hitem i, hitem (i / 2), if_neg hne]
    by_cases hih : i = hole
    · rw [if_pos hih, if_pos (by rw [hih])]
      exact hbelow.le
    · rw [if_neg hih]
      by_cases hip : i / 2 = hole / 2
      · rw [if_pos hip]
        exact hbelow.le.trans (hip ▸ h.others i hi hilt hih)
      · rw [if_neg hip]
        by_cases hi2 : i / 2 = hole
        · rw [if_pos hi2]
          exact h.around i hilt hi2 hole2
        · rw [if_neg hi2]
          exact h.others i hi hilt hih
  · rw [length_exch] at hclt
    have hparent := h.others (hole / 2) hp (by omega) (by omega)
    rw [hitem (hole / 2 / 2), hitem c, if_neg (by omega), if_neg (by omega),
      if_neg (show c ≠ hole / 2 by omega)]
    by_cases hch : c = hole
    · rw [if_pos hch]
      exact hparent
    · rw [if_neg hch]
      have hchild := h.others c (by omega) hclt hch
      rw [hc] at hchild
      exact hparent.trans hchild

/-- `siftUp` puts the items in order. -/
theorem siftUp_spec (fuel : ℕ) (h : UpOrder r hole l) (hfuel : hole ≤ fuel) (hpos : 1 ≤ hole)
    (hlt : hole < l.length) : InOrder r 1 (siftUp r fuel hole l) ∧
      (siftUp r fuel hole l).Perm l ∧ item (siftUp r fuel hole l) 0 = item l 0 := by
  induction fuel generalizing hole l with
  | zero => omega
  | succ fuel ih =>
    rw [siftUp]
    by_cases hgo : hole ≠ 1 ∧ r (item l hole) < r (item l (hole / 2))
    · rw [if_pos hgo]
      obtain ⟨horder, hperm, hhead⟩ := ih (h.exch (by omega) hlt hgo.2) (by omega) (by omega)
        (by rw [length_exch]; omega)
      exact ⟨horder, hperm.trans (perm_exch hlt (by omega)),
        hhead.trans (head_exch (by omega) (by omega))⟩
    · rw [if_neg hgo]
      refine ⟨h.inOrder fun hole2 _ => ?_, List.Perm.refl _, rfl⟩
      exact le_of_not_gt fun hbelow => hgo ⟨by omega, hbelow⟩

/-! ## Sifting down -/

theorem leastChild_spec (hlt : hole * 2 < l.length) : leastChild r l hole < l.length ∧
    leastChild r l hole / 2 = hole ∧
    ∀ c, c < l.length → c / 2 = hole → 2 ≤ c → r (item l (leastChild r l hole)) ≤ r (item l c) := by
  rw [leastChild]
  by_cases hright : hole * 2 + 1 < l.length
  · rw [if_pos hright]
    by_cases hleft : r (item l (hole * 2)) < r (item l (hole * 2 + 1))
    · rw [if_pos hleft]
      refine ⟨hlt, by omega, fun c hc hp hc2 => ?_⟩
      rcases (by omega : c = hole * 2 ∨ c = hole * 2 + 1) with rfl | rfl
      · exact le_rfl
      · exact hleft.le
    · rw [if_neg hleft]
      refine ⟨hright, by omega, fun c hc hp hc2 => ?_⟩
      rcases (by omega : c = hole * 2 ∨ c = hole * 2 + 1) with rfl | rfl
      · exact le_of_not_gt hleft
      · exact le_rfl
  · rw [if_neg hright]
    refine ⟨hlt, by omega, fun c hc hp hc2 => ?_⟩
    obtain rfl : c = hole * 2 := by omega
    exact le_rfl

theorem DownOrder.inOrder (h : DownOrder r lo hole l)
    (hstop : ∀ c, c < l.length → c / 2 = hole → 2 ≤ c → r (item l hole) ≤ r (item l c)) :
    InOrder r lo l := by
  intro i hi hlt hlo
  by_cases hhole : i / 2 = hole
  · rw [hhole]
    exact hstop i hlt hhole hi
  · exact h.others i hi hlt hlo hhole

/-- An exchange with the least child moves the hole to the child. -/
theorem DownOrder.exch (h : DownOrder r lo hole l) (hpos : 1 ≤ hole) (hlo : lo ≤ hole)
    (hlt : hole * 2 < l.length)
    (habove : r (item l (leastChild r l hole)) ≤ r (item l hole)) :
    DownOrder r lo (leastChild r l hole) (exch l hole (leastChild r l hole)) := by
  obtain ⟨hclt, hparent, hleast⟩ := leastChild_spec (r := r) hlt
  generalize leastChild r l hole = c at hclt hparent hleast habove
  have hitem : ∀ i, item (BinaryHeap.exch l hole c) i =
      if i = c then item l hole else if i = hole then item l c else item l i :=
    fun i => item_exch (by omega) hclt
  refine ⟨fun i hi hilt hilo hne => ?_, fun d hdlt hd hc2 hlo2 => ?_⟩
  · rw [length_exch] at hilt
    rw [hitem i, hitem (i / 2), if_neg hne]
    by_cases hi2 : i / 2 = hole
    · rw [if_pos hi2]
      by_cases hic : i = c
      · rw [if_pos hic]
        exact habove
      · rw [if_neg hic, if_neg (by omega)]
        exact hleast i hilt hi2 hi
    · rw [if_neg hi2, if_neg (show i ≠ c by omega)]
      by_cases hih : i = hole
      · rw [if_pos hih, hih]
        exact h.around c hclt hparent (by omega) (by omega)
      · rw [if_neg hih]
        exact h.others i hi hilt hilo hi2
  · rw [length_exch] at hdlt
    rw [hitem d, hitem (c / 2), if_neg (by omega), if_pos hparent, if_neg (by omega),
      if_neg (by omega)]
    have hchild := h.others d (by omega) hdlt (by omega) (by omega)
    rwa [hd] at hchild

/-- `siftDown` puts the items in order. -/
theorem siftDown_spec (fuel : ℕ) (h : DownOrder r lo hole l) (hpos : 1 ≤ hole) (hlo : lo ≤ hole)
    (hfuel : l.length ≤ hole + fuel) : InOrder r lo (siftDown r fuel hole l) ∧
      (siftDown r fuel hole l).Perm l ∧ item (siftDown r fuel hole l) 0 = item l 0 := by
  induction fuel generalizing hole l with
  | zero => exact ⟨h.inOrder fun c hc hp _ => by omega, List.Perm.refl _, rfl⟩
  | succ fuel ih =>
    rw [siftDown]
    by_cases hlt : hole * 2 < l.length
    · obtain ⟨hclt, hparent, hleast⟩ := leastChild_spec (r := r) hlt
      rw [if_pos hlt]
      by_cases hstop : r (item l hole) < r (item l (leastChild r l hole))
      · rw [if_pos hstop]
        refine ⟨h.inOrder fun c hc hp hc2 => ?_, List.Perm.refl _, rfl⟩
        exact hstop.le.trans (hleast c hc hp hc2)
      · rw [if_neg hstop]
        obtain ⟨horder, hperm, hhead⟩ := ih (h.exch hpos hlo hlt (le_of_not_gt hstop)) (by omega)
          (by omega) (by rw [length_exch]; omega)
        exact ⟨horder, hperm.trans (perm_exch (by omega) hclt),
          hhead.trans (head_exch (by omega) (by omega))⟩
    · rw [if_neg hlt]
      exact ⟨h.inOrder fun c hc hp _ => by omega, List.Perm.refl _, rfl⟩

/-! ## The least item -/

/-- The item at the root ranks lowest. -/
theorem InOrder.root_le (h : InOrder r 1 l) (hi : 1 ≤ i) (hlt : i < l.length) :
    r (item l 1) ≤ r (item l i) := by
  induction i using Nat.strong_induction_on with
  | _ i ih =>
    rcases (by omega : i = 1 ∨ 2 ≤ i) with rfl | hi2
    · exact le_rfl
    · exact (ih (i / 2) (by omega) (by omega) (by omega)).trans (h i hi2 hlt (by omega))

theorem InOrder.least (h : InOrder r 1 l) {x : α} (hx : x ∈ l.tail) : r (item l 1) ≤ r x := by
  obtain ⟨i, hi, rfl⟩ := List.getElem_of_mem hx
  rw [List.length_tail] at hi
  have hitem : l.tail[i] = item l (i + 1) := by
    rw [List.getElem_tail, item, List.getD_eq_getElem]
  rw [hitem]
  exact h.root_le (by omega) (by omega)

/-! ## Items that come and go -/

/-- Lists with the same items and the same item at the position zero. -/
theorem tail_perm {l' : List α} (hl : l ≠ []) (hperm : l'.Perm l) (hhead : item l' 0 = item l 0) :
    l' ≠ [] ∧ l'.tail.Perm l.tail := by
  obtain ⟨a, t, rfl⟩ := List.exists_cons_of_ne_nil hl
  cases l' with
  | nil => exact absurd hperm.symm.eq_nil (List.cons_ne_nil a t)
  | cons a' t' =>
    obtain rfl : a' = a := hhead
    exact ⟨List.cons_ne_nil _ _, (List.perm_cons _).1 hperm⟩

/-- A new item at the end may rank below its parent. -/
theorem InOrder.append (h : InOrder r 1 l) (x : α) : UpOrder r l.length (l ++ [x]) := by
  have hitem : ∀ i < l.length, item (l ++ [x]) i = item l i := fun i hi => by
    rw [item, item, List.getD_append _ _ _ _ hi]
  refine ⟨fun i hi hilt hne => ?_, fun c hc hp hole2 => ?_⟩
  · rw [List.length_append, List.length_singleton] at hilt
    rw [hitem i (by omega), hitem (i / 2) (by omega)]
    exact h i hi (by omega) (by omega)
  · rw [List.length_append, List.length_singleton] at hc
    omega

/-- The list without the item at `i`, in whose place comes the last one. -/
def replace (l : List α) (i : ℕ) : List α :=
  (exch l i (l.length - 1)).dropLast

theorem length_replace : (replace l i).length = l.length - 1 := by
  rw [replace, List.length_dropLast, length_exch]

theorem item_replace {j : ℕ} (hi : i < l.length) (hj : j < l.length - 1) :
    item (replace l i) j = if j = i then item l (l.length - 1) else item l j := by
  have hexch : item (replace l i) j = item (exch l i (l.length - 1)) j := by
    rw [replace, item, item, List.getD_eq_getElem?_getD, List.getD_eq_getElem?_getD,
      List.getElem?_dropLast, length_exch, if_pos hj]
  rw [hexch, item_exch hi (by omega), if_neg (by omega)]

theorem perm_replace (hi : i < l.length) : (item l i :: replace l i).Perm l := by
  have hne : exch l i (l.length - 1) ≠ [] := List.ne_nil_of_length_pos (by rw [length_exch]; omega)
  have hlast : (exch l i (l.length - 1)).getLast hne = item l i := by
    have hitem := item_exch (i := l.length - 1) hi (show l.length - 1 < l.length by omega)
    rw [if_pos rfl] at hitem
    have hlt : l.length - 1 < (exch l i (l.length - 1)).length := by rw [length_exch]; omega
    rw [List.getLast_eq_getElem, ← hitem, item, List.getD_eq_getElem _ _ hlt]
    simp only [length_exch]
  have happend := List.dropLast_append_getLast hne
  rw [hlast] at happend
  have hperm := perm_exch hi (show l.length - 1 < l.length by omega)
  rw [← happend] at hperm
  exact (List.perm_append_singleton _ _).symm.trans hperm

/-- Without the item at `i`, the list has the same items behind the position zero. -/
theorem tail_replace (hi : 1 ≤ i) (hlt : i < l.length) :
    replace l i ≠ [] ∧ l.tail.Perm (item l i :: (replace l i).tail) := by
  have hhead : item (replace l i) 0 = item l 0 := by
    rw [item_replace hlt (by omega), if_neg (by omega)]
  have hne : replace l i ≠ [] := List.ne_nil_of_length_pos (by rw [length_replace]; omega)
  refine ⟨hne, ?_⟩
  have hperm := perm_replace hlt
  obtain ⟨a, t, ha⟩ := List.exists_cons_of_ne_nil hne
  obtain ⟨b, u, rfl⟩ := List.exists_cons_of_ne_nil
    (List.ne_nil_of_length_pos (show 0 < l.length by omega))
  rw [ha] at hperm hhead ⊢
  obtain rfl : a = b := hhead
  exact ((List.perm_cons a).1 ((List.Perm.swap _ _ _).trans hperm)).symm

/-- The last item in the place of another one may rank above its children, and below its parent
unless it is asked not to. -/
theorem InOrder.replace (h : InOrder r 1 l) (hi : 1 ≤ i) (hlt : i < l.length)
    (hfits : i = 1 ∨ r (item l (i / 2)) ≤ r (item l (l.length - 1))) :
    DownOrder r 1 i (replace l i) := by
  refine ⟨fun j hj hjlt hlo hne => ?_, fun c hc hp hi2 hlo => ?_⟩
  · rw [length_replace] at hjlt
    rw [item_replace hlt hjlt, item_replace hlt (by omega), if_neg hne]
    by_cases hji : j = i
    · rw [if_pos hji, hji]
      exact hfits.resolve_left (by omega)
    · rw [if_neg hji]
      exact h j hj (by omega) hlo
  · rw [length_replace] at hc
    rw [item_replace hlt hc, item_replace hlt (by omega), if_neg (by omega), if_neg (by omega)]
    have hparent := h i hi2 hlt hlo
    have hchild := h c (by omega) (by omega) (by omega)
    rw [hp] at hchild
    exact hparent.trans hchild

/-! ## Making a heap -/

variable (r) in
/-- The items from the position `k` on down to the root go down, one after the other. -/
def heapify : ℕ → List α → List α
  | 0, l => l
  | k + 1, l => heapify k (siftDown r l.length (k + 1) l)

/-- `heapify` puts the items in order. -/
theorem heapify_spec {k : ℕ} (h : InOrder r (k + 1) l) : InOrder r 1 (heapify r k l) ∧
    (heapify r k l).Perm l ∧ item (heapify r k l) 0 = item l 0 := by
  induction k generalizing l with
  | zero => exact ⟨h, List.Perm.refl _, rfl⟩
  | succ k ih =>
    have hdown : DownOrder r (k + 1) (k + 1) l :=
      ⟨fun i hi hlt hlo hne => h i hi hlt (by omega), fun c hc hp hk hlo => by omega⟩
    obtain ⟨horder, hperm, hhead⟩ := siftDown_spec l.length hdown (by omega) le_rfl (by omega)
    obtain ⟨horder', hperm', hhead'⟩ := ih horder
    exact ⟨horder', hperm'.trans hperm, hhead'.trans hhead⟩

/-- Leaves are in order. -/
theorem inOrder_leaves {k : ℕ} (h : l.length ≤ 2 * k + 2) : InOrder r (k + 1) l :=
  fun i hi hlt hlo => by omega

end BinaryHeap
