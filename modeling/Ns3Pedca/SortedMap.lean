import Mathlib

/-!
# Maps sorted by key

A map that is iterated in the order of its keys is the list of its entries, with the keys in
strictly increasing order. An insertion replaces the entry that has the key (`mem_insert`), so the
entry of a key is unique (`eq_of_key`), and a search finds it (`find?_eq_some`).
-/

/-- The entries of a map, in the order of the keys. -/
structure SortedMap (α β : Type*) [LinearOrder α] where
  entries : List (α × β)
  sorted : entries.Pairwise fun x y => x.1 < y.1
  deriving DecidableEq

namespace SortedMap

variable {α β : Type*} [LinearOrder α]

/-- The map without entries. -/
def empty : SortedMap α β :=
  ⟨[], List.Pairwise.nil⟩

/-- The entry is put in its place, or replaces the one with the same key. -/
def insertEntry (k : α) (v : β) : List (α × β) → List (α × β)
  | [] => [(k, v)]
  | x :: l =>
    if k < x.1 then (k, v) :: x :: l
    else if x.1 < k then x :: insertEntry k v l
    else (k, v) :: l

theorem mem_insertEntry {k : α} {v : β} {x : α × β} : ∀ {l : List (α × β)},
    (l.Pairwise fun x y => x.1 < y.1) →
      (x ∈ insertEntry k v l ↔ x = (k, v) ∨ x ∈ l ∧ x.1 ≠ k)
  | [], _ => by simp [insertEntry]
  | y :: l, h => by
    obtain ⟨hy, hl⟩ := List.pairwise_cons.1 h
    have ih := mem_insertEntry (k := k) (v := v) (x := x) hl
    have hne : ∀ z ∈ l, k ≤ y.1 → z.1 ≠ k := fun z hz hle heq =>
      absurd (hy z hz) (not_lt.2 (heq ▸ hle))
    rw [insertEntry]
    split_ifs with hlt hgt
    · rw [List.mem_cons]
      refine or_congr_right ⟨fun hx => ⟨hx, ?_⟩, And.left⟩
      rcases List.mem_cons.1 hx with rfl | hx
      · exact hlt.ne'
      · exact hne x hx hlt.le
    · rw [List.mem_cons, ih, List.mem_cons]
      constructor
      · rintro (rfl | rfl | ⟨hx, hk⟩)
        · exact Or.inr ⟨Or.inl rfl, hgt.ne⟩
        · exact Or.inl rfl
        · exact Or.inr ⟨Or.inr hx, hk⟩
      · rintro (rfl | ⟨rfl | hx, hk⟩)
        · exact Or.inr (Or.inl rfl)
        · exact Or.inl rfl
        · exact Or.inr (Or.inr ⟨hx, hk⟩)
    · have heq : y.1 = k := le_antisymm (not_lt.1 hlt) (not_lt.1 hgt)
      rw [List.mem_cons, List.mem_cons]
      refine or_congr_right ⟨fun hx => ⟨Or.inr hx, hne x hx heq.ge⟩, ?_⟩
      rintro ⟨rfl | hx, hk⟩
      · exact absurd heq hk
      · exact hx

theorem sorted_insertEntry (k : α) (v : β) : ∀ {l : List (α × β)},
    (l.Pairwise fun x y => x.1 < y.1) → (insertEntry k v l).Pairwise fun x y => x.1 < y.1
  | [], _ => List.pairwise_singleton _ _
  | y :: l, h => by
    obtain ⟨hy, hl⟩ := List.pairwise_cons.1 h
    rw [insertEntry]
    split_ifs with hlt hgt
    · refine List.pairwise_cons.2 ⟨fun x hx => ?_, h⟩
      rcases List.mem_cons.1 hx with rfl | hx
      · exact hlt
      · exact hlt.trans (hy x hx)
    · refine List.pairwise_cons.2 ⟨fun x hx => ?_, sorted_insertEntry k v hl⟩
      rcases (mem_insertEntry hl).1 hx with rfl | ⟨hx, -⟩
      · exact hgt
      · exact hy x hx
    · have heq : y.1 = k := le_antisymm (not_lt.1 hlt) (not_lt.1 hgt)
      exact List.pairwise_cons.2 ⟨fun x hx => heq ▸ hy x hx, hl⟩

variable (m : SortedMap α β)

/-- `insert_or_assign`. -/
def insert (k : α) (v : β) : SortedMap α β :=
  ⟨insertEntry k v m.entries, sorted_insertEntry k v m.sorted⟩

/-- `erase`. -/
def erase (k : α) : SortedMap α β :=
  ⟨m.entries.filter fun x => x.1 ≠ k, m.sorted.filter _⟩

/-- `find`. -/
def find? (k : α) : Option β :=
  (m.entries.find? fun x => x.1 = k).map Prod.snd

/-- The values are changed, each by what its key says. -/
def mapValues (f : α → β → β) : SortedMap α β :=
  ⟨m.entries.map fun x => (x.1, f x.1 x.2), List.pairwise_map.2 m.sorted⟩

variable {m} {k : α} {v : β} {x y : α × β}

theorem mem_insert :
    x ∈ (m.insert k v).entries ↔ x = (k, v) ∨ x ∈ m.entries ∧ x.1 ≠ k :=
  mem_insertEntry m.sorted

theorem mem_erase : x ∈ (m.erase k).entries ↔ x ∈ m.entries ∧ x.1 ≠ k := by
  rw [erase, List.mem_filter, decide_eq_true_iff]

/-- An entry is the only one with its key. -/
theorem eq_of_key (hx : x ∈ m.entries) (hy : y ∈ m.entries) (h : x.1 = y.1) : x = y := by
  have hkeys : (m.entries.map Prod.fst).Nodup :=
    List.pairwise_map.2 (m.sorted.imp fun h => h.ne)
  exact List.inj_on_of_nodup_map hkeys hx hy h

theorem find?_eq_some : m.find? k = some v ↔ (k, v) ∈ m.entries := by
  rw [find?, Option.map_eq_some_iff]
  constructor
  · rintro ⟨⟨k', v'⟩, hfind, rfl⟩
    have hkey := List.find?_some hfind
    obtain rfl : k' = k := of_decide_eq_true hkey
    exact List.mem_of_find?_eq_some hfind
  · intro hmem
    cases hfind : m.entries.find? fun x => x.1 = k with
    | none => exact absurd (decide_eq_true rfl) (List.find?_eq_none.1 hfind _ hmem)
    | some z =>
      have hsome := List.find?_some hfind
      have hkey : z.1 = k := of_decide_eq_true hsome
      have hz := eq_of_key (List.mem_of_find?_eq_some hfind) hmem hkey
      exact ⟨z, rfl, by rw [hz]⟩

theorem find?_eq_none : m.find? k = none ↔ ∀ x ∈ m.entries, x.1 ≠ k := by
  rw [Option.eq_none_iff_forall_ne_some]
  constructor
  · rintro h ⟨k', v⟩ hmem rfl
    exact h v (find?_eq_some.2 hmem)
  · intro h v hfind
    exact h _ (find?_eq_some.1 hfind) rfl

theorem find?_insert (k' : α) :
    (m.insert k v).find? k' = if k' = k then some v else m.find? k' := by
  refine Option.ext fun w => ?_
  rw [find?_eq_some, mem_insert]
  split_ifs with heq
  · subst heq
    simp [eq_comm]
  · rw [find?_eq_some]
    simp [heq]

theorem find?_erase (k' : α) : (m.erase k).find? k' = if k' = k then none else m.find? k' := by
  refine Option.ext fun w => ?_
  rw [find?_eq_some, mem_erase]
  split_ifs with heq
  · simp [heq]
  · rw [find?_eq_some]
    simp [heq]

theorem find?_mapValues (f : α → β → β) (k : α) :
    (m.mapValues f).find? k = (m.find? k).map (f k) := by
  refine Option.ext fun w => ?_
  rw [find?_eq_some, Option.map_eq_some_iff]
  constructor
  · intro hmem
    obtain ⟨x, hx, heq⟩ := List.mem_map.1 hmem
    obtain ⟨rfl, rfl⟩ := Prod.mk.inj heq
    exact ⟨x.2, find?_eq_some.2 hx, rfl⟩
  · rintro ⟨v, hv, rfl⟩
    exact List.mem_map.2 ⟨_, find?_eq_some.1 hv, rfl⟩

theorem find?_empty (k : α) : (empty : SortedMap α β).find? k = none :=
  rfl

end SortedMap
