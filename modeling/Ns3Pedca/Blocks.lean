import Mathlib

/-!
# Blocks of a stream

A receiver that gets the pieces of a stream in any order keeps them as blocks : a position
of the stream and the elements from there on. `covered` is the set of positions that a list
of blocks holds, and a `Sorted` list holds none of them twice, so that their number is the
sum of the lengths (`card_covered`).

Blocks that may overlap are `Ordered` by their first positions. They have no gap if none of
them begins behind what the ones before it reach (`gapless_iff`), and then `join`, which
leaves out what is there already, is the beginning of the stream (`join_eq`). With gaps, and with
blocks of no common stream, `joinReached` is the beginning that they hold
(`beginning_joinReached`).

`put` inserts a block between the others. `advance` moves a position on over the blocks that
follow it without a gap, to the first position that is not held (`advance_spec`). `serve`
takes elements from the front of the blocks, and what it gives is what the stream has there
(`serve_spec`).
-/

namespace Blocks

/-- Elements of a stream and the position of the first one. -/
structure Block (β : Type*) where
  first : ℕ
  data : List β

variable {β : Type*} {S : List β} {b : Block β} {l : List (Block β)} {p : ℕ}

/-- The position behind the block. -/
def Block.last (b : Block β) : ℕ :=
  b.first + b.data.length

/-- The positions of a block. -/
def Block.positions (b : Block β) : Finset ℕ :=
  Finset.Ico b.first b.last

/-- The `n` elements of `S` from position `k` on. -/
def slice (S : List β) (k n : ℕ) : List β :=
  (S.drop k).take n

/-- A block of the stream `S`, which may be empty. -/
structure Block.In (S : List β) (b : Block β) : Prop where
  data_eq : b.data = slice S b.first b.data.length
  last_le : b.last ≤ S.length

/-- A block of the stream `S`. -/
structure Block.Of (S : List β) (b : Block β) : Prop extends Block.In S b where
  ne_nil : b.data ≠ []

/-- The positions that the blocks hold. -/
def covered (l : List (Block β)) : Finset ℕ :=
  l.foldr (fun b s => b.positions ∪ s) ∅

/-- The number of elements in the blocks. -/
def total (l : List (Block β)) : ℕ :=
  (l.map fun b => b.data.length).sum

/-- The blocks come in order and do not overlap. -/
def Sorted (l : List (Block β)) : Prop :=
  l.Pairwise fun a b => a.last ≤ b.first

@[simp] theorem mem_positions : p ∈ b.positions ↔ b.first ≤ p ∧ p < b.last :=
  Finset.mem_Ico

@[simp] theorem covered_nil : covered ([] : List (Block β)) = ∅ :=
  rfl

@[simp] theorem covered_cons : covered (b :: l) = b.positions ∪ covered l :=
  rfl

@[simp] theorem total_nil : total ([] : List (Block β)) = 0 :=
  rfl

@[simp] theorem total_cons : total (b :: l) = b.data.length + total l :=
  rfl

theorem mem_covered : p ∈ covered l ↔ ∃ b ∈ l, b.first ≤ p ∧ p < b.last := by
  induction l with
  | nil => simp
  | cons b l ih => simp [ih]

theorem first_le_last (b : Block β) : b.first ≤ b.last :=
  Nat.le_add_right _ _

theorem Block.Of.first_lt_last (h : b.Of S) : b.first < b.last := by
  have hpos := List.length_pos_iff.2 h.ne_nil
  rw [Block.last]
  omega

theorem Block.Of.first_mem (h : b.Of S) : b.first ∈ b.positions :=
  mem_positions.2 ⟨le_rfl, h.first_lt_last⟩

/-! ## Slices -/

theorem length_slice (S : List β) (k n : ℕ) : (slice S k n).length = min n (S.length - k) := by
  rw [slice, List.length_take, List.length_drop]

theorem length_slice_of_le {k n : ℕ} (h : k + n ≤ S.length) : (slice S k n).length = n := by
  rw [length_slice]
  omega

@[simp] theorem slice_zero (S : List β) (k : ℕ) : slice S k 0 = [] :=
  List.take_zero

/-- A slice of a slice. -/
theorem take_drop_slice (S : List β) (k n i m : ℕ) (h : i + m ≤ n) :
    ((slice S k n).drop i).take m = slice S (k + i) m := by
  rw [slice, slice, List.drop_take, List.take_take, List.drop_drop, Nat.min_eq_left (by omega)]

theorem drop_slice (S : List β) (k n i : ℕ) : (slice S k n).drop i = slice S (k + i) (n - i) := by
  rw [slice, slice, List.drop_take, List.drop_drop]

theorem take_slice (S : List β) (k n i : ℕ) (h : i ≤ n) : (slice S k n).take i = slice S k i := by
  rw [slice, slice, List.take_take, Nat.min_eq_left h]

theorem slice_append_slice (S : List β) (k m n : ℕ) :
    slice S k m ++ slice S (k + m) n = slice S k (m + n) := by
  rw [slice, slice, slice, ← List.drop_drop, List.take_add]

theorem take_append_slice (S : List β) (k n : ℕ) : S.take k ++ slice S k n = S.take (k + n) := by
  rw [slice, List.take_add]

theorem Block.of_slice {k n : ℕ} (h : k + n ≤ S.length) (hn : 0 < n) :
    Block.Of S ⟨k, slice S k n⟩ where
  data_eq := by rw [length_slice_of_le h]
  last_le := by rw [Block.last, length_slice_of_le h]; exact h
  ne_nil := by
    refine List.ne_nil_of_length_pos ?_
    rw [length_slice_of_le h]
    exact hn

/-- The elements of a block from its `n`-th on. -/
def Block.rest (b : Block β) (n : ℕ) : Block β :=
  ⟨b.first + n, b.data.drop n⟩

theorem Block.last_rest {n : ℕ} (h : n ≤ b.data.length) : (b.rest n).last = b.last := by
  change b.first + n + (b.data.drop n).length = b.first + b.data.length
  rw [List.length_drop]
  omega

theorem Block.Of.rest (h : b.Of S) {n : ℕ} (hn : n < b.data.length) : (b.rest n).Of S where
  data_eq := by
    change b.data.drop n = slice S (b.first + n) (b.data.drop n).length
    rw [List.length_drop, ← drop_slice, ← h.data_eq]
  last_le := by
    rw [Block.last_rest hn.le]
    exact h.last_le
  ne_nil := by
    refine List.ne_nil_of_length_pos ?_
    change 0 < (b.data.drop n).length
    rw [List.length_drop]
    omega

/-! ## Sorted lists -/

theorem Sorted.tail (h : Sorted (b :: l)) : Sorted l :=
  (List.pairwise_cons.1 h).2

theorem Sorted.last_le (h : Sorted (b :: l)) {a : Block β} (ha : a ∈ l) : b.last ≤ a.first :=
  (List.pairwise_cons.1 h).1 a ha

theorem Sorted.last_le_of_mem (h : Sorted (b :: l)) (hp : p ∈ covered l) : b.last ≤ p := by
  obtain ⟨a, ha, hfirst, -⟩ := mem_covered.1 hp
  exact (h.last_le ha).trans hfirst

theorem Sorted.disjoint (h : Sorted (b :: l)) : Disjoint b.positions (covered l) := by
  refine Finset.disjoint_left.2 fun p hb hl => ?_
  have hle := h.last_le_of_mem hl
  have hlt := (mem_positions.1 hb).2
  omega

/-- The positions held by a sorted list, counted. -/
theorem card_covered (h : Sorted l) : (covered l).card = total l := by
  induction l with
  | nil => rfl
  | cons b l ih =>
    have hcard : b.positions.card = b.data.length := by
      rw [Block.positions, Nat.card_Ico, Block.last]
      omega
    rw [covered_cons, Finset.card_union_of_disjoint h.disjoint, ih h.tail, hcard, total_cons]

/-! ## Inserting a block -/

/-- The block `b` between the blocks before it and behind it. -/
def put (b : Block β) : List (Block β) → List (Block β)
  | [] => [b]
  | a :: l => if b.first < a.first then b :: a :: l else a :: put b l

theorem mem_put {a : Block β} : a ∈ put b l ↔ a = b ∨ a ∈ l := by
  induction l with
  | nil => simp [put]
  | cons c l ih =>
    rw [put]
    split_ifs
    · simp
    · rw [List.mem_cons, ih, List.mem_cons]
      tauto

theorem covered_put : covered (put b l) = b.positions ∪ covered l := by
  ext p
  rw [Finset.mem_union, mem_covered, mem_covered, mem_positions]
  simp only [mem_put, or_and_right, exists_or, exists_eq_left]

theorem total_put : total (put b l) = b.data.length + total l := by
  induction l with
  | nil => rfl
  | cons a l ih =>
    rw [put]
    split_ifs
    · rfl
    · rw [total_cons, ih, total_cons]
      omega

theorem Sorted.put (h : Sorted l) (hapart : ∀ a ∈ l, a.last ≤ b.first ∨ b.last ≤ a.first)
    (hb : b.first < b.last) (hl : ∀ a ∈ l, a.first < a.last) : Sorted (put b l) := by
  induction l with
  | nil => exact List.pairwise_singleton _ _
  | cons a l ih =>
    have ha := hapart a List.mem_cons_self
    have hla := hl a List.mem_cons_self
    rw [Blocks.put]
    by_cases hlt : b.first < a.first
    · rw [if_pos hlt]
      have hle : b.last ≤ a.first := by omega
      refine List.pairwise_cons.2 ⟨fun c hc => ?_, h⟩
      rcases List.mem_cons.1 hc with rfl | hc
      · exact hle
      · have hac := h.last_le hc
        omega
    · rw [if_neg hlt]
      refine List.pairwise_cons.2 ⟨fun c hc => ?_, ih h.tail
        (fun c hc => hapart c (List.mem_cons_of_mem _ hc))
        (fun c hc => hl c (List.mem_cons_of_mem _ hc))⟩
      rcases mem_put.1 hc with rfl | hc
      · omega
      · exact h.last_le hc

/-! ## Cutting off what is held -/

/-- A range of positions and the blocks beside it. -/
structure Cut (β : Type*) where
  kept : List (Block β)
  head : ℕ
  tail : ℕ

/-- Cut off both ends of the range from `h` to `t` what the blocks hold, and drop the blocks
that lie within it. -/
def cut (h t : ℕ) : List (Block β) → Cut β
  | [] => ⟨[], h, t⟩
  | b :: l =>
    if b.first ≤ t then
      if h < b.last then
        if h < b.first ∧ b.last < t then cut h t l
        else
          let c := cut (if b.first ≤ h then b.last else h) (if t ≤ b.last then b.first else t) l
          { c with kept := b :: c.kept }
      else
        let c := cut h t l
        { c with kept := b :: c.kept }
    else ⟨b :: l, h, t⟩

/-- The range left by `cut` is what the blocks do not hold of the range, with the dropped
blocks inside. If nothing is left, nothing has been dropped. -/
structure CutOff (l : List (Block β)) (h t : ℕ) (c : Cut β) : Prop where
  sublist : c.kept.Sublist l
  covers : ∀ p, p ∈ covered c.kept ∨ c.head ≤ p ∧ p < c.tail ↔ p ∈ covered l ∨ h ≤ p ∧ p < t
  apart : c.head < c.tail → ∀ b ∈ c.kept, b.last ≤ c.head ∨ c.tail ≤ b.first
  le_head : h ≤ c.head
  tail_le : c.tail ≤ t
  head_from : c.head = h ∨ ∃ b ∈ l, c.head = b.last
  tail_from : c.tail = t ∨ ∃ b ∈ l, c.tail = b.first
  kept_eq : c.tail ≤ c.head → c.kept = l

/-- A block that is kept in front, with what it takes of the range. -/
theorem CutOff.keep {h t h' t' : ℕ} {c : Cut β} (hc : CutOff l h' t' c)
    (hcovers : ∀ p, (b.first ≤ p ∧ p < b.last) ∨ h' ≤ p ∧ p < t' ↔
      (b.first ≤ p ∧ p < b.last) ∨ h ≤ p ∧ p < t) (hh : h ≤ h') (ht : t' ≤ t)
    (hb : b.last ≤ c.head ∨ c.tail ≤ b.first) (hhead : h' = h ∨ h' = b.last)
    (htail : t' = t ∨ t' = b.first) : CutOff (b :: l) h t { c with kept := b :: c.kept } where
  sublist := hc.sublist.cons_cons b
  covers p := by
    rw [covered_cons, covered_cons, Finset.mem_union, Finset.mem_union, mem_positions, or_assoc,
      or_assoc]
    exact (or_congr_right (hc.covers p)).trans
      (or_left_comm.trans ((or_congr_right (hcovers p)).trans or_left_comm))
  apart hlt := List.forall_mem_cons.2 ⟨hb, hc.apart hlt⟩
  le_head := hh.trans hc.le_head
  tail_le := hc.tail_le.trans ht
  head_from := by
    rcases hc.head_from with hfrom | ⟨a, ha, hfrom⟩
    · rcases hhead with heq | heq
      · exact Or.inl (hfrom.trans heq)
      · exact Or.inr ⟨b, List.mem_cons_self, hfrom.trans heq⟩
    · exact Or.inr ⟨a, List.mem_cons_of_mem _ ha, hfrom⟩
  tail_from := by
    rcases hc.tail_from with hfrom | ⟨a, ha, hfrom⟩
    · rcases htail with heq | heq
      · exact Or.inl (hfrom.trans heq)
      · exact Or.inr ⟨b, List.mem_cons_self, hfrom.trans heq⟩
    · exact Or.inr ⟨a, List.mem_cons_of_mem _ ha, hfrom⟩
  kept_eq hge := congrArg _ (hc.kept_eq hge)

theorem cut_of_lt {h t : ℕ} (hl : ∀ b ∈ l, t < b.first) : cut h t l = ⟨l, h, t⟩ := by
  cases l with
  | nil => rfl
  | cons b l =>
    have hb := hl b List.mem_cons_self
    rw [cut, if_neg (by omega)]

/-- Blocks behind the head do not move it, and leave something of the range. -/
theorem head_cut {h t : ℕ} (hl : ∀ b ∈ l, h < b.first) (hlt : h < t) :
    (cut h t l).head = h ∧ h < (cut h t l).tail := by
  induction l generalizing t with
  | nil => exact ⟨rfl, hlt⟩
  | cons b l ih =>
    obtain ⟨hb, hl⟩ := List.forall_mem_cons.1 hl
    have hle := first_le_last b
    rw [cut]
    by_cases h1 : b.first ≤ t
    · rw [if_pos h1, if_pos (by omega)]
      by_cases h2 : h < b.first ∧ b.last < t
      · rw [if_pos h2]
        exact ih hl hlt
      · rw [if_neg h2, if_neg (by omega), if_pos (by omega)]
        exact ih hl hb
    · rw [if_neg h1]
      exact ⟨rfl, hlt⟩

theorem cutOff_nil (h t : ℕ) : CutOff ([] : List (Block β)) h t (cut h t []) :=
  ⟨List.Sublist.refl _, fun _ => Iff.rfl, fun _ _ hb => absurd hb List.not_mem_nil, le_rfl, le_rfl,
    Or.inl rfl, Or.inl rfl, fun _ => rfl⟩

theorem cutOff_cut (hsorted : Sorted l) (hlen : ∀ b ∈ l, b.first < b.last) {h t : ℕ}
    (hle : h ≤ t) : CutOff l h t (cut h t l) := by
  induction l generalizing h t with
  | nil => exact cutOff_nil h t
  | cons b l ih =>
    obtain ⟨hb, hl⟩ := List.forall_mem_cons.1 hlen
    have hbehind : ∀ a ∈ l, b.last ≤ a.first := fun a ha => hsorted.last_le ha
    rw [cut]
    by_cases h1 : b.first ≤ t
    · rw [if_pos h1]
      by_cases h2 : h < b.last
      · rw [if_pos h2]
        by_cases h3 : h < b.first ∧ b.last < t
        · -- the block lies within the range, and is dropped
          rw [if_pos h3]
          have hc := ih hsorted.tail hl hle
          refine ⟨hc.sublist.cons b, fun p => ?_, hc.apart, hc.le_head, hc.tail_le,
            hc.head_from.imp_right ?_, hc.tail_from.imp_right ?_, fun hge => ?_⟩
          · rw [hc.covers, covered_cons, Finset.mem_union, mem_positions]
            constructor
            · rintro (hp | hp)
              · exact Or.inl (Or.inr hp)
              · exact Or.inr hp
            · rintro ((hp | hp) | hp)
              · exact Or.inr (by omega)
              · exact Or.inl hp
              · exact Or.inr hp
          · rintro ⟨a, ha, hfrom⟩
            exact ⟨a, List.mem_cons_of_mem _ ha, hfrom⟩
          · rintro ⟨a, ha, hfrom⟩
            exact ⟨a, List.mem_cons_of_mem _ ha, hfrom⟩
          · have hbound : ∀ a ∈ l, h < a.first := fun a ha => by
              have hage := hbehind a ha
              omega
            obtain ⟨hhead, htail⟩ := head_cut hbound (by omega : h < t)
            omega
        · rw [if_neg h3]
          by_cases h4 : b.first ≤ h
          · rw [if_pos h4]
            by_cases h5 : t ≤ b.last
            · -- the block covers the range
              rw [if_pos h5, cut_of_lt (fun a ha => by
                have hage := hbehind a ha
                omega)]
              refine ⟨List.Sublist.refl _, fun p => ?_, fun hlt => ?_, h2.le, h1,
                Or.inr ⟨b, List.mem_cons_self, rfl⟩, Or.inr ⟨b, List.mem_cons_self, rfl⟩,
                fun _ => rfl⟩
              · change p ∈ covered (b :: l) ∨ b.last ≤ p ∧ p < b.first ↔ _
                rw [covered_cons, Finset.mem_union, mem_positions]
                constructor
                · rintro (hp | hp)
                  · exact Or.inl hp
                  · omega
                · rintro (hp | hp)
                  · exact Or.inl hp
                  · exact Or.inl (Or.inl (by omega))
              · change b.last < b.first at hlt
                omega
            · -- the block overlaps the head
              rw [if_neg h5]
              have hc := ih hsorted.tail hl (by omega : b.last ≤ t)
              exact hc.keep (fun p => by omega) h2.le le_rfl (Or.inl hc.le_head) (Or.inr rfl)
                (Or.inl rfl)
          · -- the block overlaps the tail
            rw [if_neg h4, if_pos (by omega)]
            have hc := ih hsorted.tail hl (by omega : h ≤ b.first)
            exact hc.keep (fun p => by omega) le_rfl h1 (Or.inr hc.tail_le) (Or.inl rfl)
              (Or.inr rfl)
      · -- the block lies before the range
        rw [if_neg h2]
        have hc := ih hsorted.tail hl hle
        exact hc.keep (fun p => by omega) le_rfl le_rfl (Or.inl (by
          have hhead := hc.le_head
          omega)) (Or.inl rfl) (Or.inl rfl)
    · rw [if_neg h1]
      refine ⟨List.Sublist.refl _, fun p => Iff.rfl, fun _ a ha => Or.inr ?_, le_rfl, le_rfl,
        Or.inl rfl, Or.inl rfl, fun _ => rfl⟩
      rcases List.mem_cons.1 ha with rfl | ha
      · change t ≤ _
        omega
      · have hage := hbehind a ha
        change t ≤ _
        omega

/-- A block that is dropped begins behind the head that is left, and ends before the tail. -/
theorem cut_dropped (hsorted : Sorted l) (hlen : ∀ b ∈ l, b.first < b.last) {h t : ℕ}
    (hle : h ≤ t) : ∀ b ∈ l, b ∈ (cut h t l).kept ∨ (cut h t l).head < b.first ∧ b.last < t := by
  induction l generalizing h t with
  | nil => exact fun b hb => absurd hb List.not_mem_nil
  | cons b l ih =>
    obtain ⟨hb, hl⟩ := List.forall_mem_cons.1 hlen
    have hbehind : ∀ a ∈ l, b.last ≤ a.first := fun a ha => hsorted.last_le ha
    have hkeep {h' t' : ℕ} (hle' : h' ≤ t') (ht : t' ≤ t) :
        ∀ a ∈ b :: l, a ∈ b :: (cut h' t' l).kept ∨ (cut h' t' l).head < a.first ∧ a.last < t :=
      List.forall_mem_cons.2 ⟨Or.inl List.mem_cons_self, fun a ha =>
        (ih hsorted.tail hl hle' a ha).imp (List.mem_cons_of_mem b)
          fun hdrop => ⟨hdrop.1, hdrop.2.trans_le ht⟩⟩
    rw [cut]
    by_cases h1 : b.first ≤ t
    · rw [if_pos h1]
      by_cases h2 : h < b.last
      · rw [if_pos h2]
        by_cases h3 : h < b.first ∧ b.last < t
        · rw [if_pos h3]
          refine List.forall_mem_cons.2 ⟨Or.inr ?_, ih hsorted.tail hl hle⟩
          have hhead := head_cut (fun a ha => h2.trans_le (hbehind a ha)) (by omega : h < t)
          exact ⟨hhead.1.trans_lt h3.1, h3.2⟩
        · rw [if_neg h3]
          by_cases h4 : b.first ≤ h
          · rw [if_pos h4]
            by_cases h5 : t ≤ b.last
            · rw [if_pos h5, cut_of_lt fun a ha => by
                have hage := hbehind a ha
                omega]
              exact fun a ha => Or.inl ha
            · rw [if_neg h5]
              exact hkeep (by omega) le_rfl
          · rw [if_neg h4, if_pos (by omega)]
            exact hkeep (by omega) h1
      · rw [if_neg h2]
        exact hkeep hle le_rfl
    · rw [if_neg h1]
      exact fun a ha => Or.inl ha

/-! ## Moving on over the blocks -/

/-- The position behind the blocks that follow `r` without a gap. -/
def advance : List (Block β) → ℕ → ℕ
  | [], r => r
  | b :: l, r =>
    if b.first < r then advance l r
    else if r < b.first then r
    else advance l b.last

/-- No block holds a position before `r` and one from `r` on. -/
def Split (l : List (Block β)) (r : ℕ) : Prop :=
  ∀ b ∈ l, b.last ≤ r ∨ r ≤ b.first

theorem split_of_notMem (h : p ∉ covered l) : Split l p := by
  intro b hb
  by_contra hcross
  exact h (mem_covered.2 ⟨b, hb, by omega, by omega⟩)

theorem le_advance (hlen : ∀ b ∈ l, b.first < b.last) {r : ℕ} : r ≤ advance l r := by
  induction l generalizing r with
  | nil => exact le_rfl
  | cons b l ih =>
    obtain ⟨hb, hl⟩ := List.forall_mem_cons.1 hlen
    rw [advance]
    split_ifs
    · exact ih hl
    · exact le_rfl
    · have hle := ih hl (r := b.last)
      omega

/-- `advance` finds the first position from `r` on that no block holds. -/
theorem advance_spec (h : Sorted l) (hlen : ∀ b ∈ l, b.first < b.last) {r : ℕ}
    (hsplit : Split l r) :
    (∀ p, r ≤ p → p < advance l r → p ∈ covered l) ∧ advance l r ∉ covered l := by
  induction l generalizing r with
  | nil =>
    refine ⟨fun p hrp hp => ?_, Finset.notMem_empty _⟩
    rw [advance] at hp
    omega
  | cons b l ih =>
    obtain ⟨hb, hl⟩ := List.forall_mem_cons.1 hlen
    obtain ⟨hsb, hsl⟩ := List.forall_mem_cons.1 hsplit
    rw [advance]
    by_cases hlt : b.first < r
    · rw [if_pos hlt]
      obtain ⟨hin, hout⟩ := ih h.tail hl hsl
      have hle := le_advance hl (r := r)
      refine ⟨fun p hrp hp => Finset.mem_union_right _ (hin p hrp hp), fun hmem => ?_⟩
      rcases Finset.mem_union.1 hmem with hmem | hmem
      · have hlast := (mem_positions.1 hmem).2
        omega
      · exact hout hmem
    · rw [if_neg hlt]
      by_cases hgt : r < b.first
      · rw [if_pos hgt]
        refine ⟨fun p hrp hp => by omega, fun hmem => ?_⟩
        rcases Finset.mem_union.1 hmem with hmem | hmem
        · have hfirst := (mem_positions.1 hmem).1
          omega
        · have hle := h.last_le_of_mem hmem
          omega
      · rw [if_neg hgt]
        have hsl' : Split l b.last := fun a ha => Or.inr (h.last_le ha)
        obtain ⟨hin, hout⟩ := ih h.tail hl hsl'
        have hle := le_advance hl (r := b.last)
        refine ⟨fun p hrp hp => ?_, fun hmem => ?_⟩
        · by_cases hpb : p < b.last
          · exact Finset.mem_union_left _ (mem_positions.2 ⟨by omega, hpb⟩)
          · exact Finset.mem_union_right _ (hin p (by omega) hp)
        · rcases Finset.mem_union.1 hmem with hmem | hmem
          · have hlast := (mem_positions.1 hmem).2
            omega
          · exact hout hmem

/-! ## Taking elements from the front -/

/-- The first `n` elements of the blocks, and the blocks that are left. -/
def serve : List (Block β) → ℕ → List β × List (Block β)
  | [], _ => ([], [])
  | b :: l, n =>
    if n = 0 then ([], b :: l)
    else if b.data.length ≤ n then
      (b.data ++ (serve l (n - b.data.length)).1, (serve l (n - b.data.length)).2)
    else (b.data.take n, b.rest n :: l)

/-- The first block begins where the elements do. -/
theorem first_eq (h : Sorted (b :: l)) (hlen : ∀ a ∈ b :: l, a.first < a.last) {k n : ℕ}
    (hn : n ≠ 0) (hfrom : ∀ p ∈ covered (b :: l), k ≤ p)
    (hin : ∀ p, k ≤ p → p < k + n → p ∈ covered (b :: l)) : b.first = k := by
  have hb := hlen b List.mem_cons_self
  have hle := hfrom b.first (Finset.mem_union_left _ (mem_positions.2 ⟨le_rfl, hb⟩))
  rcases Finset.mem_union.1 (hin k le_rfl (by omega)) with hmem | hmem
  · have hge := (mem_positions.1 hmem).1
    omega
  · have hge := h.last_le_of_mem hmem
    omega

/-- Behind the first block, the elements go on. -/
theorem mem_covered_tail {k n : ℕ} (hlast : b.last = k + b.data.length)
    (hin : ∀ p, k ≤ p → p < k + n → p ∈ covered (b :: l)) (hle : b.data.length ≤ n) :
    ∀ p, k + b.data.length ≤ p → p < k + b.data.length + (n - b.data.length) →
      p ∈ covered l := by
  intro p hp hlt
  rcases Finset.mem_union.1 (hin p (by omega) (by omega)) with hmem | hmem
  · have hge := (mem_positions.1 hmem).2
    omega
  · exact hmem

/-- Blocks that hold `n` positions from `k` on, and none before, are left with the others. -/
theorem serve_apart (h : Sorted l) (hlen : ∀ b ∈ l, b.first < b.last) {k n : ℕ}
    (hfrom : ∀ p ∈ covered l, k ≤ p) (hin : ∀ p, k ≤ p → p < k + n → p ∈ covered l) :
    Sorted (serve l n).2 ∧ (∀ b ∈ (serve l n).2, b.first < b.last) ∧
      (∀ p, p ∈ covered (serve l n).2 ↔ k + n ≤ p ∧ p ∈ covered l) ∧
      total (serve l n).2 + n = total l := by
  induction l generalizing k n with
  | nil =>
    have hn : n = 0 := by
      by_contra hne
      exact Finset.notMem_empty _ (hin k le_rfl (by omega))
    subst hn
    simp [serve, Sorted]
  | cons b l ih =>
    by_cases hn : n = 0
    · subst hn
      rw [serve, if_pos rfl]
      refine ⟨h, hlen, fun p => ?_, rfl⟩
      exact ⟨fun hp => ⟨hfrom p hp, hp⟩, And.right⟩
    rw [serve, if_neg hn]
    have hfirst : b.first = k := first_eq h hlen hn hfrom hin
    have hlast : b.last = k + b.data.length := by rw [Block.last, hfirst]
    obtain ⟨hb, hl⟩ := List.forall_mem_cons.1 hlen
    by_cases hle : b.data.length ≤ n
    · rw [if_pos hle]
      have hsum : k + b.data.length + (n - b.data.length) = k + n := by omega
      have hbehind : ∀ p ∈ covered l, k + b.data.length ≤ p := by
        intro p hp
        have hge := h.last_le_of_mem hp
        omega
      obtain ⟨hsorted, hpos, hcov, htotal⟩ :=
        ih h.tail hl hbehind (mem_covered_tail hlast hin hle)
      refine ⟨hsorted, hpos, fun p => ?_, ?_⟩
      · rw [hcov, hsum, covered_cons, Finset.mem_union, mem_positions]
        constructor
        · rintro ⟨hge, hmem⟩
          exact ⟨hge, Or.inr hmem⟩
        · rintro ⟨hge, hmem | hmem⟩
          · omega
          · exact ⟨hge, hmem⟩
      · change total (serve l (n - b.data.length)).2 + n = _
        rw [total_cons]
        omega
    · rw [if_neg hle]
      have hlastRest := Block.last_rest (b := b) (n := n) (by omega)
      refine ⟨?_, ?_, fun p => ?_, ?_⟩
      · refine List.pairwise_cons.2 ⟨fun a ha => ?_, h.tail⟩
        rw [hlastRest]
        exact h.last_le ha
      · refine List.forall_mem_cons.2 ⟨?_, hl⟩
        rw [hlastRest]
        change b.first + n < _
        omega
      · rw [covered_cons, covered_cons, Finset.mem_union, Finset.mem_union, mem_positions,
          mem_positions, hlastRest, hfirst]
        change (b.first + n ≤ p ∧ _ ∨ _) ↔ _
        constructor
        · rintro (hmem | hmem)
          · exact ⟨by omega, Or.inl (by omega)⟩
          · have hge := h.last_le_of_mem hmem
            exact ⟨by omega, Or.inr hmem⟩
        · rintro ⟨hge, hmem | hmem⟩
          · exact Or.inl (by omega)
          · exact Or.inr hmem
      · rw [total_cons, total_cons]
        change (b.data.drop n).length + _ + _ = _
        rw [List.length_drop]
        omega

/-- What the blocks of a stream serve is what the stream has there. -/
theorem serve_slice (h : Sorted l) (hS : ∀ b ∈ l, b.Of S) {k n : ℕ}
    (hfrom : ∀ p ∈ covered l, k ≤ p) (hin : ∀ p, k ≤ p → p < k + n → p ∈ covered l) :
    (serve l n).1 = slice S k n ∧ ∀ b ∈ (serve l n).2, b.Of S := by
  induction l generalizing k n with
  | nil =>
    have hn : n = 0 := by
      by_contra hne
      exact Finset.notMem_empty _ (hin k le_rfl (by omega))
    subst hn
    simp [serve]
  | cons b l ih =>
    by_cases hn : n = 0
    · subst hn
      rw [serve, if_pos rfl]
      exact ⟨(slice_zero S k).symm, hS⟩
    rw [serve, if_neg hn]
    have hfirst : b.first = k :=
      first_eq h (fun a ha => (hS a ha).first_lt_last) hn hfrom hin
    have hlast : b.last = k + b.data.length := by rw [Block.last, hfirst]
    obtain ⟨hb, hl⟩ := List.forall_mem_cons.1 hS
    by_cases hle : b.data.length ≤ n
    · rw [if_pos hle]
      have hbehind : ∀ p ∈ covered l, k + b.data.length ≤ p := by
        intro p hp
        have hge := h.last_le_of_mem hp
        omega
      obtain ⟨hout, hof⟩ := ih h.tail hl hbehind (mem_covered_tail hlast hin hle)
      refine ⟨?_, hof⟩
      calc b.data ++ (serve l (n - b.data.length)).1
          = slice S k b.data.length ++ slice S (k + b.data.length) (n - b.data.length) := by
            rw [hout, ← hfirst, ← hb.data_eq]
        _ = slice S k n := by rw [slice_append_slice, Nat.add_sub_cancel' hle]
    · rw [if_neg hle]
      refine ⟨?_, List.forall_mem_cons.2 ⟨hb.rest (by omega), hl⟩⟩
      change b.data.take n = _
      rw [hb.data_eq, hfirst, take_slice _ _ _ _ (by omega)]

/-- Blocks that hold `n` elements from `k` on, and nothing before, serve these. -/
theorem serve_spec (h : Sorted l) (hS : ∀ b ∈ l, b.Of S) {k n : ℕ}
    (hfrom : ∀ p ∈ covered l, k ≤ p) (hin : ∀ p, k ≤ p → p < k + n → p ∈ covered l) :
    (serve l n).1 = slice S k n ∧ Sorted (serve l n).2 ∧ (∀ b ∈ (serve l n).2, b.Of S) ∧
      (∀ p, p ∈ covered (serve l n).2 ↔ k + n ≤ p ∧ p ∈ covered l) ∧
      total (serve l n).2 + n = total l := by
  obtain ⟨hout, hof⟩ := serve_slice h hS hfrom hin
  obtain ⟨hsorted, -, hcov, htotal⟩ :=
    serve_apart h (fun b hb => (hS b hb).first_lt_last) hfrom hin
  exact ⟨hout, hsorted, hof, hcov, htotal⟩

/-! ## Blocks that overlap -/

/-- The blocks come in the order of their first positions. -/
def Ordered (l : List (Block β)) : Prop :=
  l.Pairwise fun a b => a.first ≤ b.first

/-- How far the blocks reach from a beginning of length `e`. -/
def reach (e : ℕ) : List (Block β) → ℕ
  | [] => e
  | b :: l => reach (max e b.last) l

/-- No block begins behind what a beginning of length `e` and the blocks before it reach. -/
def gapless (e : ℕ) : List (Block β) → Bool
  | [] => true
  | b :: l => decide (b.first ≤ e) && gapless (max e b.last) l

/-- The blocks joined to a beginning, without what it has of them. -/
def join (start : List β) : List (Block β) → List β
  | [] => start
  | b :: l => join (start ++ b.data.drop (start.length - b.first)) l

theorem le_reach (e : ℕ) (l : List (Block β)) : e ≤ reach e l := by
  induction l generalizing e with
  | nil => exact le_rfl
  | cons b l ih => exact (Nat.le_max_left _ _).trans (ih _)

theorem last_le_reach {e : ℕ} (hb : b ∈ l) : b.last ≤ reach e l := by
  induction l generalizing e with
  | nil => exact absurd hb List.not_mem_nil
  | cons a l ih =>
    rcases List.mem_cons.1 hb with rfl | hb
    · exact (Nat.le_max_right _ _).trans (le_reach _ _)
    · exact ih hb

theorem reach_le {e n : ℕ} (he : e ≤ n) (hl : ∀ b ∈ l, b.last ≤ n) : reach e l ≤ n := by
  induction l generalizing e with
  | nil => exact he
  | cons b l ih =>
    obtain ⟨hb, hl⟩ := List.forall_mem_cons.1 hl
    exact ih (Nat.max_le.2 ⟨he, hb⟩) hl

/-- Ordered blocks have no gap if and only if they hold every position up to where they
reach. -/
theorem gapless_iff (h : Ordered l) {e : ℕ} :
    gapless e l = true ↔ ∀ p, e ≤ p → p < reach e l → p ∈ covered l := by
  induction l generalizing e with
  | nil =>
    refine ⟨fun _ p hge hlt => ?_, fun _ => rfl⟩
    change p < e at hlt
    omega
  | cons b l ih =>
    obtain ⟨hb, hl⟩ := List.pairwise_cons.1 h
    have hle := first_le_last b
    rw [gapless, Bool.and_eq_true, decide_eq_true_eq, ih hl]
    constructor
    · rintro ⟨hfirst, hin⟩ p hge hlt
      by_cases hp : p < max e b.last
      · exact Finset.mem_union_left _ (mem_positions.2 ⟨by omega, by omega⟩)
      · exact Finset.mem_union_right _ (hin p (by omega) hlt)
    · intro hin
      have hmax : max e b.last ≤ reach (max e b.last) l := le_reach _ _
      refine ⟨?_, fun p hge hlt => ?_⟩
      · by_contra hgap
        have hlt : e < reach (max e b.last) l := by omega
        rcases Finset.mem_union.1 (hin e le_rfl hlt) with hmem | hmem
        · have hfirst := (mem_positions.1 hmem).1
          omega
        · obtain ⟨a, ha, hfirst, -⟩ := mem_covered.1 hmem
          have hba := hb a ha
          omega
      · rcases Finset.mem_union.1 (hin p (by omega) hlt) with hmem | hmem
        · have hlast := (mem_positions.1 hmem).2
          omega
        · exact hmem

/-- Blocks of a stream without a gap, joined to its beginning, are its beginning. -/
theorem join_eq (hl : ∀ b ∈ l, b.In S) {e : ℕ} (he : e ≤ S.length) (h : gapless e l = true) :
    join (S.take e) l = S.take (reach e l) := by
  induction l generalizing e with
  | nil => rfl
  | cons b l ih =>
    obtain ⟨hb, hl⟩ := List.forall_mem_cons.1 hl
    rw [gapless, Bool.and_eq_true, decide_eq_true_eq] at h
    have hlast := hb.last_le
    have hsum : e + (b.data.length - (e - b.first)) = max e b.last := by
      rw [Block.last]
      omega
    have hdrop : b.data.drop (e - b.first) = slice S e (b.data.length - (e - b.first)) := by
      conv_lhs => rw [hb.data_eq]
      rw [drop_slice, Nat.add_sub_cancel' h.1]
    rw [join, List.length_take, Nat.min_eq_left he, hdrop, take_append_slice, hsum,
      ih hl (by omega) h.2, reach]

/-! ## The beginning that blocks hold -/

/-- The elements are what some block holds at their positions, and the next position is held by
no block. -/
structure Beginning (l : List (Block β)) (p : List β) : Prop where
  held : ∀ q x, p[q]? = some x → ∃ b ∈ l, b.first ≤ q ∧ b.data[q - b.first]? = some x
  stops : p.length ∉ covered l

theorem Beginning.of_mem_iff {l' : List (Block β)} {p : List β} (h : Beginning l p)
    (hmem : ∀ b, b ∈ l ↔ b ∈ l') : Beginning l' p where
  held q x hx := by
    obtain ⟨b, hb, hin⟩ := h.held q x hx
    exact ⟨b, (hmem b).1 hb, hin⟩
  stops hin := by
    obtain ⟨b, hb, hpos⟩ := mem_covered.1 hin
    exact h.stops (mem_covered.2 ⟨b, (hmem b).2 hb, hpos⟩)

/-- A beginning with a block joined to it, if it reaches the block. -/
def joinOne (start : List β) (b : Block β) : List β :=
  if b.first ≤ start.length then start ++ b.data.drop (start.length - b.first) else start

/-- The blocks that are reached, joined to a beginning. -/
def joinReached (start : List β) (l : List (Block β)) : List β :=
  l.foldl joinOne start

theorem joinReached_cons (start : List β) :
    joinReached start (b :: l) = joinReached (joinOne start b) l :=
  rfl

theorem length_joinOne (start : List β) (b : Block β) : (joinOne start b).length =
    if b.first ≤ start.length then max start.length b.last else start.length := by
  unfold joinOne
  split
  · rw [List.length_append, List.length_drop, Block.last]
    omega
  · rfl

theorem le_length_joinReached (start : List β) (l : List (Block β)) :
    start.length ≤ (joinReached start l).length := by
  induction l generalizing start with
  | nil => exact le_rfl
  | cons b l ih =>
    refine le_trans ?_ (ih (joinOne start b))
    rw [length_joinOne]
    split <;> omega

/-- Blocks behind a gap are not joined. -/
theorem joinReached_of_lt {start : List β} (hl : ∀ b ∈ l, start.length < b.first) :
    joinReached start l = start := by
  induction l with
  | nil => rfl
  | cons b l ih =>
    obtain ⟨hb, hl⟩ := List.forall_mem_cons.1 hl
    rw [joinReached_cons, joinOne, if_neg (by omega)]
    exact ih hl

/-- Each block ends within what is joined, or begins behind a gap. -/
theorem joinReached_apart (h : Ordered l) (start : List β) :
    ∀ b ∈ l, b.last ≤ (joinReached start l).length ∨ (joinReached start l).length < b.first := by
  induction l generalizing start with
  | nil => exact fun b hb => absurd hb List.not_mem_nil
  | cons b l ih =>
    obtain ⟨hb, hl⟩ := List.pairwise_cons.1 h
    by_cases hreached : b.first ≤ start.length
    · refine List.forall_mem_cons.2 ⟨.inl ?_, ih hl (joinOne start b)⟩
      refine le_trans ?_ (le_length_joinReached (joinOne start b) l)
      rw [length_joinOne, if_pos hreached]
      exact Nat.le_max_right _ _
    · have hgap : ∀ a ∈ b :: l, start.length < a.first := by
        intro a ha
        rcases List.mem_cons.1 ha with rfl | ha
        · omega
        · have hle := hb a ha
          omega
      rw [joinReached_of_lt hgap]
      exact fun a ha => .inr (hgap a ha)

/-- What is joined comes from the beginning or from the blocks. -/
theorem joinReached_held (start : List β) (l : List (Block β)) {q : ℕ} {x : β}
    (hx : (joinReached start l)[q]? = some x) :
    start[q]? = some x ∨ ∃ b ∈ l, b.first ≤ q ∧ b.data[q - b.first]? = some x := by
  induction l generalizing start with
  | nil => exact .inl hx
  | cons b l ih =>
    rcases ih (joinOne start b) hx with hone | ⟨a, ha, hin⟩
    · by_cases hreached : b.first ≤ start.length
      · rw [joinOne, if_pos hreached] at hone
        by_cases hq : q < start.length
        · rw [List.getElem?_append_left hq] at hone
          exact .inl hone
        · rw [List.getElem?_append_right (by omega), List.getElem?_drop] at hone
          refine .inr ⟨b, List.mem_cons_self, by omega, ?_⟩
          rwa [show start.length - b.first + (q - start.length) = q - b.first by omega] at hone
      · rw [joinOne, if_neg hreached] at hone
        exact .inl hone
    · exact .inr ⟨a, List.mem_cons_of_mem _ ha, hin⟩

/-- Ordered blocks that are joined as far as they are reached give what they hold of the
beginning. -/
theorem beginning_joinReached (h : Ordered l) : Beginning l (joinReached [] l) where
  held q x hx := by
    rcases joinReached_held [] l hx with hnone | hheld
    · rw [List.getElem?_nil] at hnone
      cases hnone
    · exact hheld
  stops hin := by
    obtain ⟨b, hb, hfirst, hlast⟩ := mem_covered.1 hin
    rcases joinReached_apart h [] b hb with hle | hlt <;> omega

end Blocks
