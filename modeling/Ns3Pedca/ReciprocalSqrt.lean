import Mathlib

/-!
# Reciprocal square roots in fixed point

`newton scale r n` is one step of Newton's iteration for `√(scale / n)` from `r`, with the divisions
truncated. It does not overestimate the root, from any `r` for which the difference in it is not
negative (`newton_sq_mul_le`). A root that is positive and not overestimated stays so if the number
grows by one, or does not grow (`Below.next`, `Below.newton`).
-/

namespace ReciprocalSqrt

variable {scale r n m : ℕ}

/-- A step of Newton's iteration. -/
def newton (scale r n : ℕ) : ℕ :=
  (3 * scale - n * r ^ 2) / 4 * r / (scale / 2)

/-- A positive number that is not above `√(scale / n)`. -/
structure Below (scale r n : ℕ) : Prop where
  pos : 1 ≤ r
  sq_mul_le : r ^ 2 * n ≤ scale

/-- `t (3 - t²)` is at most 2. -/
theorem mul_sub_sq_le {s y : ℤ} (hs : 0 ≤ s) (hy : y ≤ 3 * s) :
    y * (3 * s - y) ^ 2 ≤ 4 * s ^ 3 := by
  have hfactor : 4 * s ^ 3 - y * (3 * s - y) ^ 2 = (s - y) ^ 2 * (4 * s - y) := by ring
  have hnonneg : 0 ≤ (s - y) ^ 2 * (4 * s - y) := mul_nonneg (sq_nonneg _) (by omega)
  omega

theorem two_mul_newton_le (hscale : 4 ∣ scale) :
    2 * scale * newton scale r n ≤ (3 * scale - n * r ^ 2) * r := by
  have hhalf : 2 * scale = 4 * (scale / 2) := by omega
  calc 2 * scale * newton scale r n
      = 4 * ((3 * scale - n * r ^ 2) / 4 * r / (scale / 2) * (scale / 2)) := by
        rw [hhalf, newton]
        ring
    _ ≤ 4 * ((3 * scale - n * r ^ 2) / 4 * r) := Nat.mul_le_mul_left _ (Nat.div_mul_le_self _ _)
    _ = (3 * scale - n * r ^ 2) / 4 * 4 * r := by ring
    _ ≤ (3 * scale - n * r ^ 2) * r := Nat.mul_le_mul_right _ (Nat.div_mul_le_self _ _)

theorem newton_sq_mul_le (hscale : 4 ∣ scale) (hpos : 0 < scale) (h : n * r ^ 2 ≤ 3 * scale) :
    newton scale r n ^ 2 * n ≤ scale := by
  have hnewton : (2 * scale * newton scale r n : ℤ) ≤ (3 * scale - n * r ^ 2) * r := by
    have hle := two_mul_newton_le (r := r) (n := n) hscale
    zify [h] at hle
    exact hle
  have hcubic : (n * r ^ 2 * (3 * scale - n * r ^ 2) ^ 2 : ℤ) ≤ 4 * scale ^ 3 :=
    mul_sub_sq_le (by omega) (by exact_mod_cast h)
  have hsq : ((2 * scale * newton scale r n) ^ 2 : ℤ) ≤ ((3 * scale - n * r ^ 2) * r) ^ 2 :=
    pow_le_pow_left₀ (by positivity) hnewton 2
  have hmul : (4 * scale ^ 2 * (newton scale r n ^ 2 * n) : ℤ) ≤ 4 * scale ^ 2 * scale := by
    calc (4 * scale ^ 2 * (newton scale r n ^ 2 * n) : ℤ)
        = (2 * scale * newton scale r n) ^ 2 * n := by ring
      _ ≤ ((3 * scale - n * r ^ 2) * r) ^ 2 * n := mul_le_mul_of_nonneg_right hsq (by omega)
      _ = n * r ^ 2 * (3 * scale - n * r ^ 2) ^ 2 := by ring
      _ ≤ 4 * scale ^ 3 := hcubic
      _ = 4 * scale ^ 2 * scale := by ring
  have hfour : (0 : ℤ) < 4 * scale ^ 2 := by positivity
  exact_mod_cast le_of_mul_le_mul_left hmul hfour

theorem one_le_newton (hscale : 4 ∣ scale) (hpos : 0 < scale) (hr : 1 ≤ r) (hn : n ≤ scale)
    (h : n * r ^ 2 ≤ 2 * scale) : 1 ≤ newton scale r n := by
  rw [newton, Nat.le_div_iff_mul_le (by omega), one_mul]
  obtain rfl | hr : r = 1 ∨ 2 ≤ r := by omega
  · omega
  · have hquarter : scale / 4 ≤ (3 * scale - n * r ^ 2) / 4 := by omega
    calc scale / 2 = scale / 4 * 2 := by omega
      _ ≤ (3 * scale - n * r ^ 2) / 4 * r := Nat.mul_le_mul hquarter hr

theorem Below.sq_le (h : Below scale r n) (hn : 1 ≤ n) : r ^ 2 ≤ scale :=
  (Nat.le_mul_of_pos_right _ hn).trans h.sq_mul_le

/-- The number grows by one. -/
theorem Below.mul_succ_le (h : Below scale r n) (hn : 1 ≤ n) :
    (n + 1) * r ^ 2 ≤ 2 * scale := by
  have hle := h.sq_mul_le
  have hsq := h.sq_le hn
  calc (n + 1) * r ^ 2 = r ^ 2 * n + r ^ 2 := by ring
    _ ≤ 2 * scale := by omega

theorem Below.next (hscale : 4 ∣ scale) (hpos : 0 < scale) (h : Below scale r n) (hn : 1 ≤ n)
    (hlt : n < scale) : Below scale (newton scale r (n + 1)) (n + 1) where
  pos := one_le_newton hscale hpos h.pos hlt (h.mul_succ_le hn)
  sq_mul_le := newton_sq_mul_le hscale hpos ((h.mul_succ_le hn).trans (by omega))

/-- The number does not grow. -/
theorem Below.mul_le (h : Below scale r n) (hm : m ≤ n) : m * r ^ 2 ≤ scale := by
  rw [mul_comm]
  exact (Nat.mul_le_mul_left _ hm).trans h.sq_mul_le

theorem Below.newton (hscale : 4 ∣ scale) (hpos : 0 < scale) (h : Below scale r n) (hm : m ≤ n) :
    Below scale (newton scale r m) m := by
  have hle := h.mul_le hm
  have hm' : m ≤ scale := (Nat.le_mul_of_pos_right _ (pow_pos h.pos 2)).trans hle
  exact ⟨one_le_newton hscale hpos h.pos hm' (by omega), newton_sq_mul_le hscale hpos (by omega)⟩

/-- A length that is divided by the root of `n`, with `base` for one. -/
theorem Below.scaled_sq_mul_le {base : ℕ} (h : Below (base ^ 2) r n) (hbase : 0 < base)
    (length : ℕ) : (length * r / base) ^ 2 * n ≤ length ^ 2 := by
  have hle : length * r / base * base ≤ length * r := Nat.div_mul_le_self _ _
  have hsq : (length * r / base * base) ^ 2 ≤ (length * r) ^ 2 := Nat.pow_le_pow_left hle 2
  refine Nat.le_of_mul_le_mul_left ?_ (pow_pos hbase 2)
  calc base ^ 2 * ((length * r / base) ^ 2 * n) = (length * r / base * base) ^ 2 * n := by ring
    _ ≤ (length * r) ^ 2 * n := Nat.mul_le_mul_right _ hsq
    _ = length ^ 2 * (r ^ 2 * n) := by ring
    _ ≤ length ^ 2 * base ^ 2 := Nat.mul_le_mul_left _ h.sq_mul_le
    _ = base ^ 2 * length ^ 2 := by ring

end ReciprocalSqrt
