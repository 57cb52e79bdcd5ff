import Mathlib

/-!
# Reading and writing a memory

A memory is a function from addresses to cells. `readAt` reads a row of cells, and `writeAt` writes
one. What was written is read back (`readAt_writeAt`), and a row outside the written cells is read
as before (`readAt_writeAt_of_disjoint`).
-/

namespace ByteMemory

variable {α : Type*}

/-- The `n` cells of `m` from the address `a` on. -/
def readAt (m : ℕ → α) (a n : ℕ) : List α :=
  (List.range n).map fun k => m (a + k)

/-- `m` with the cells `bs` from the address `a` on. -/
def writeAt (m : ℕ → α) (a : ℕ) (bs : List α) : ℕ → α :=
  fun k => if h : a ≤ k ∧ k - a < bs.length then bs.get ⟨k - a, h.2⟩ else m k

variable {m m' : ℕ → α} {a b n k : ℕ} {bs : List α}

@[simp] theorem length_readAt (m : ℕ → α) (a n : ℕ) : (readAt m a n).length = n := by
  simp [readAt]

@[simp] theorem writeAt_nil (m : ℕ → α) (a : ℕ) : writeAt m a [] = m := by
  funext k
  simp [writeAt]

theorem readAt_congr (h : ∀ k, a ≤ k → k < a + n → m k = m' k) :
    readAt m a n = readAt m' a n := by
  refine List.map_congr_left fun k hk => h (a + k) (Nat.le_add_right _ _) ?_
  exact Nat.add_lt_add_left (List.mem_range.1 hk) a

/-- A row is the row of its first cells and the row of the others. -/
theorem readAt_add (m : ℕ → α) (a n k : ℕ) :
    readAt m a (n + k) = readAt m a n ++ readAt m (a + n) k := by
  rw [readAt, List.range_add, List.map_append, List.map_map]
  refine congrArg _ (List.map_congr_left fun j _ => ?_)
  exact congrArg m (Nat.add_assoc a n j).symm

theorem take_readAt (m : ℕ → α) (a n k : ℕ) : (readAt m a n).take k = readAt m a (min k n) := by
  rcases le_total k n with hle | hle
  · obtain ⟨j, rfl⟩ := Nat.exists_eq_add_of_le hle
    rw [readAt_add, Nat.min_eq_left hle]
    exact List.take_left' (length_readAt m a k)
  · rw [Nat.min_eq_right hle]
    exact List.take_of_length_le (by rwa [length_readAt])

theorem getElem?_readAt (h : k < n) : (readAt m a n)[k]? = some (m (a + k)) := by
  simp [readAt, h]

theorem writeAt_of_lt (h : k < a) : writeAt m a bs k = m k :=
  dif_neg fun h' => absurd h'.1 (by omega)

theorem writeAt_of_le (h : a + bs.length ≤ k) : writeAt m a bs k = m k :=
  dif_neg fun h' => by omega

theorem writeAt_get (h : k < bs.length) : writeAt m a bs (a + k) = bs.get ⟨k, h⟩ := by
  have hk : a + k - a = k := Nat.add_sub_cancel_left a k
  rw [writeAt, dif_pos ⟨Nat.le_add_right a k, hk.symm ▸ h⟩]
  exact congrArg bs.get (Fin.ext hk)

/-- What was written is read back. -/
theorem readAt_writeAt (m : ℕ → α) (a : ℕ) (bs : List α) :
    readAt (writeAt m a bs) a bs.length = bs := by
  refine List.ext_get (length_readAt _ _ _) fun k hk hk' => ?_
  have hget := getElem?_readAt (m := writeAt m a bs) (a := a) hk'
  rw [writeAt_get hk', List.getElem?_eq_getElem hk] at hget
  simpa using hget

/-- A row outside the written cells. -/
theorem readAt_writeAt_of_disjoint (h : b + n ≤ a ∨ a + bs.length ≤ b) :
    readAt (writeAt m a bs) b n = readAt m b n := by
  refine readAt_congr fun k hle hlt => ?_
  rcases h with h | h
  · exact writeAt_of_lt (by omega)
  · exact writeAt_of_le (by omega)

end ByteMemory
