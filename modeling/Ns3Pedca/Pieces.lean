import Mathlib

/-!
# A whole sent in pieces

A whole is sent in pieces numbered from `0` on, and every piece but the last says that more
pieces follow. `Begun` holds of the first pieces of a whole, `Whole` of all of them. A whole
is begun with no pieces, grows by one piece at a time (`Begun.snoc`) and ends with the first
piece that has nothing after it (`Begun.whole`).

A sender that waits for each piece to be acknowledged may send it several times, but goes
through the pieces in turn : `InTurn`.
-/

namespace Pieces

variable {α : Type*} {number : α → ℕ} {more : α → Bool} {xs ys : List α} {x : α}

/-- The first pieces of a whole : numbered from `0` on, with more to follow. -/
structure Begun (number : α → ℕ) (more : α → Bool) (xs : List α) : Prop where
  numbered : xs.map number = List.range xs.length
  more : ∀ x ∈ xs, more x = true

/-- All the pieces of a whole. -/
def Whole (number : α → ℕ) (more : α → Bool) (xs : List α) : Prop :=
  ∃ ys x, xs = ys ++ [x] ∧ Begun number more ys ∧ number x = ys.length ∧ more x = false

theorem Begun.nil : Begun number more [] :=
  ⟨rfl, by simp⟩

theorem Begun.snoc (h : Begun number more xs) (hx : number x = xs.length) (hmore : more x = true) :
    Begun number more (xs ++ [x]) where
  numbered := by
    rw [List.map_append, h.numbered, List.length_append, List.length_singleton, List.range_succ,
      List.map_singleton, hx]
  more y hy := by
    rcases List.mem_append.1 hy with hy | hy
    · exact h.more y hy
    · rw [List.mem_singleton.1 hy, hmore]

theorem Begun.whole (h : Begun number more xs) (hx : number x = xs.length)
    (hmore : more x = false) : Whole number more (xs ++ [x]) :=
  ⟨xs, x, rfl, h, hx, hmore⟩

theorem Begun.of_append (h : Begun number more (xs ++ ys)) : Begun number more xs where
  numbered := by
    have hlen : (xs.map number).length = xs.length := List.length_map _
    have htake := congrArg (List.take xs.length) h.numbered
    rw [List.map_append, List.take_left' hlen, List.length_append, List.take_range,
      min_eq_left (Nat.le_add_right _ _)] at htake
    exact htake
  more x hx := h.more x (List.mem_append_left _ hx)

theorem Begun.number_snoc (h : Begun number more (xs ++ [x])) : number x = xs.length := by
  have hlast := congrArg List.getLast? h.numbered
  simpa [List.range_succ] using hlast

theorem whole_singleton (hx : number x = 0) (hmore : more x = false) :
    Whole number more [x] :=
  Begun.nil.whole hx hmore

theorem Whole.ne_nil (h : Whole number more xs) : xs ≠ [] := by
  obtain ⟨ys, x, rfl, -⟩ := h
  simp

/-- The pieces of a whole are numbered in order. -/
theorem Whole.numbered (h : Whole number more xs) : xs.map number = List.range xs.length := by
  obtain ⟨ys, x, rfl, hys, hx, -⟩ := h
  rw [List.map_append, hys.numbered, List.length_append, List.length_singleton, List.range_succ,
    List.map_singleton, hx]

/-! ## Cutting a list in pieces -/

/-- The first `k` pieces of length `n` of a list, put together. -/
theorem flatten_slices (xs : List α) (n : ℕ) :
    ∀ k, ((List.range k).map fun i => (xs.drop (i * n)).take n).flatten = xs.take (k * n)
  | 0 => by simp
  | k + 1 => by
    rw [List.range_succ, List.map_append, List.flatten_append, flatten_slices xs n k,
      Nat.succ_mul, List.take_add]
    simp

/-! ## Sending pieces in turn -/

/-- After the pieces with the numbers `is`, piece `i` is sent : the last one again or the one
after it. -/
def Follows (is : List ℕ) (i : ℕ) : Prop :=
  match is.getLast? with
  | none => i = 0
  | some j => i = j ∨ i = j + 1

/-- The numbers of the pieces sent, from the first piece on. -/
inductive InTurn : List ℕ → Prop
  | nil : InTurn []
  | snoc {is : List ℕ} {i : ℕ} (h : InTurn is) (hi : Follows is i) : InTurn (is ++ [i])

theorem follows_snoc {is : List ℕ} {i j : ℕ} : Follows (is ++ [j]) i ↔ i = j ∨ i = j + 1 := by
  simp [Follows]

theorem follows_nil {i : ℕ} : Follows [] i ↔ i = 0 :=
  Iff.rfl

end Pieces
