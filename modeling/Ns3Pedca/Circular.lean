import Mathlib

/-!
# Numbers sent modulo `m`

A sender counts up and sends its count modulo `m`. `dist m a b` is the distance from `b` to
`a` around the circle. A receiver that knows a count `p` reads a number as the first count
from `p` on with that remainder : `unwrap m p a`.

The distance of two remainders is the difference of the counts, for counts less than a turn
apart (`dist_of_le`), and the rest of the turn if the first is the earlier one
(`dist_of_lt`). What a number is read as does not change when `p` grows up to it
(`unwrap_eq_of_le`).
-/

namespace Circular

/-- The distance from `b` to `a`, counting up modulo `m`. -/
def dist (m a b : ℕ) : ℕ :=
  (a + m - b) % m

/-- The first number from `p` on that is `a` modulo `m`. -/
def unwrap (m p a : ℕ) : ℕ :=
  p + dist m a (p % m)

variable {m p p' u : ℕ}

theorem dist_lt (hm : 0 < m) (a b : ℕ) : dist m a b < m :=
  Nat.mod_lt _ hm

theorem dist_add_dist {a b : ℕ} (ha : a < m) (hb : b < m) (h : a ≠ b) :
    dist m a b + dist m b a = m := by
  wlog hlt : a < b generalizing a b
  · rw [Nat.add_comm]
    exact this hb ha h.symm (by omega)
  · rw [dist, dist, Nat.mod_eq_of_lt (by omega : a + m - b < m),
      show b + m - a = b - a + m by omega, Nat.add_mod_right, Nat.mod_eq_of_lt (by omega)]
    omega

theorem dist_of_le (h : p ≤ u) (hu : u < p + m) : dist m (u % m) (p % m) = u - p := by
  have hm : 0 < m := by omega
  have hp := Nat.mod_lt p hm
  obtain ⟨d, rfl⟩ := Nat.exists_eq_add_of_le h
  have hd : d < m := by omega
  rw [dist, Nat.add_sub_cancel_left, Nat.add_mod, Nat.mod_eq_of_lt hd]
  rcases lt_or_ge (p % m + d) m with hlt | hge
  · rw [Nat.mod_eq_of_lt hlt, show p % m + d + m - p % m = d + m by omega,
      Nat.add_mod_right, Nat.mod_eq_of_lt hd]
  · rw [Nat.mod_eq_sub_mod hge, Nat.mod_eq_of_lt (by omega : p % m + d - m < m),
      show p % m + d - m + m - p % m = d by omega, Nat.mod_eq_of_lt hd]

theorem dist_of_lt (h : u < p) (hu : p < u + m) : dist m (u % m) (p % m) = m - (p - u) := by
  have hturn : dist m ((u + m) % m) (p % m) = u + m - p := dist_of_le (by omega) (by omega)
  rw [Nat.add_mod_right] at hturn
  omega

theorem sub_mod {x k : ℕ} (hk : k ≤ x) (hkm : k ≤ m) : (x - k) % m = (x % m + m - k) % m := by
  have hx : m * (x / m) + x % m = x := Nat.div_add_mod x m
  calc (x - k) % m = (x - k + m) % m := (Nat.add_mod_right ..).symm
    _ = (x % m + m - k + m * (x / m)) % m := by congr 1; omega
    _ = (x % m + m - k) % m := Nat.add_mul_mod_self_left ..

theorem le_unwrap (a : ℕ) : p ≤ unwrap m p a :=
  Nat.le_add_right ..

theorem unwrap_lt (hm : 0 < m) (a : ℕ) : unwrap m p a < p + m :=
  Nat.add_lt_add_left (dist_lt hm _ _) p

theorem unwrap_sub (a : ℕ) : unwrap m p a - p = dist m a (p % m) :=
  Nat.add_sub_cancel_left ..

/-- A count less than a turn ahead is what its remainder is read as. -/
theorem unwrap_mod_of_le (h : p ≤ u) (hu : u < p + m) : unwrap m p (u % m) = u := by
  rw [unwrap, dist_of_le h hu]
  omega

theorem unwrap_mod {a : ℕ} (ha : a < m) : unwrap m p a % m = a := by
  have hp := Nat.mod_lt p (by omega : 0 < m)
  rw [unwrap, dist, Nat.add_mod_mod, ← Nat.mod_add_mod, show p % m + (a + m - p % m) = a + m by
    omega, Nat.add_mod_right, Nat.mod_eq_of_lt ha]

theorem unwrap_eq_of_le {a : ℕ} (ha : a < m) (h : p ≤ p') (hle : p' ≤ unwrap m p a) :
    unwrap m p' a = unwrap m p a := by
  have hlt : unwrap m p a < p' + m := by
    have := unwrap_lt (p := p) (by omega : 0 < m) a
    omega
  have hread := unwrap_mod_of_le hle hlt
  rwa [unwrap_mod ha] at hread

/-- A count that has been passed is read as the one a turn later. -/
theorem unwrap_mod_of_lt (h : u < p) (hu : p ≤ u + m) : unwrap m p (u % m) = u + m := by
  have hread := unwrap_mod_of_le hu (Nat.add_lt_add_right h m)
  rwa [Nat.add_mod_right] at hread

/-- The number with the turns of `p`, or one turn later. -/
theorem unwrap_eq_ite {a : ℕ} (ha : a < m) :
    unwrap m p a = if p / m * m + a < p then p / m * m + a + m else p / m * m + a := by
  have hp : m * (p / m) + p % m = p := Nat.div_add_mod p m
  have hlt : p % m < m := Nat.mod_lt p (by omega)
  rw [Nat.mul_comm] at hp
  have hmod : (p / m * m + a) % m = a := by
    rw [Nat.mul_add_mod', Nat.mod_eq_of_lt ha]
  split_ifs with hbefore
  · have hread := unwrap_mod_of_le (m := m) (p := p) (u := p / m * m + a + m) (by omega) (by omega)
    rwa [Nat.add_mod_right, hmod] at hread
  · have hread := unwrap_mod_of_le (m := m) (p := p) (u := p / m * m + a) (by omega) (by omega)
    rwa [hmod] at hread

end Circular
