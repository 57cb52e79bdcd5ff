import Ns3Pedca.Runs

/-!
# Simulation time, random draws, and 32-bit counters

`Time` counts ticks of one nanosecond, the default resolution of the simulator. A
`UniformRandomVariable` is a stream of draws : `GetInteger(min, max)` returns an integer
between its bounds, and nothing else is known of it. Counters declared `uint32_t` in the
source are `UInt32`, so an increment past `2^32 - 1` wraps as it does there.
-/

namespace Ns3Pedca

/-- Simulation time, in ticks. -/
abbrev Time := ℤ

/-- `MicroSeconds(us)`. -/
def microSeconds (us : ℤ) : Time :=
  1000 * us

/-- A random stream : `GetInteger` draws between its two bounds. -/
structure UniformRandomVariable where
  getInteger : ℕ → ℕ → ℕ
  getInteger_mem : ∀ {min max : ℕ}, min ≤ max → min ≤ getInteger min max ∧ getInteger min max ≤ max

/-- The stream that always draws the lower bound. -/
def UniformRandomVariable.lowest : UniformRandomVariable where
  getInteger min _ := min
  getInteger_mem h := ⟨le_rfl, h⟩

instance : Inhabited UniformRandomVariable :=
  ⟨UniformRandomVariable.lowest⟩

/-- An increment of a counter below its bound does not wrap. -/
theorem toNat_succ_of_lt {a b : UInt32} (h : a < b) : (a + 1).toNat = a.toNat + 1 := by
  have hab := UInt32.lt_iff_toNat_lt.1 h
  have hb := b.toNat_lt
  rw [UInt32.toNat_add, UInt32.toNat_one]
  omega

theorem lt_of_le_of_ne_uint32 {a b : UInt32} (hle : a ≤ b) (hne : a ≠ b) : a < b := by
  rw [UInt32.lt_iff_toNat_lt]
  rw [UInt32.le_iff_toNat_le] at hle
  have : a.toNat ≠ b.toNat := fun h => hne (UInt32.toNat_inj.1 h)
  omega

theorem uint32_toNat_min (a b : UInt32) : (min a b).toNat = min a.toNat b.toNat := by
  change (if a ≤ b then a else b).toNat = _
  split
  next h => rw [min_eq_left (UInt32.le_iff_toNat_le.1 h)]
  next h =>
    rw [UInt32.le_iff_toNat_le, not_le] at h
    rw [min_eq_right h.le]

theorem uint16_toNat_max (a b : UInt16) : (max a b).toNat = max a.toNat b.toNat := by
  change (if a ≤ b then b else a).toNat = _
  split
  next h => rw [max_eq_right (UInt16.le_iff_toNat_le.1 h)]
  next h =>
    rw [UInt16.le_iff_toNat_le, not_le] at h
    rw [max_eq_left h.le]

/-- `x & 7` is the remainder by 8. -/
theorem and_seven (x : UInt16) : x &&& 7 = 0 ↔ x.toNat % 8 = 0 := by
  rw [← UInt16.toNat_inj, UInt16.toNat_and]
  change x.toNat &&& (2 ^ 3 - 1) = 0 ↔ _
  rw [Nat.and_two_pow_sub_one_eq_mod]

/-- A mask without its lowest `k` bits gives the multiple of `2 ^ k` below. -/
theorem and_high_bits {x w : ℕ} (hx : x < 2 ^ w) {k : ℕ} (hk : k ≤ w) :
    x &&& (2 ^ w - 2 ^ k) = x / 2 ^ k * 2 ^ k := by
  have hpos := Nat.two_pow_pos k
  have hmask : 2 ^ w - 2 ^ k = 2 ^ w - ((2 ^ k - 1) + 1) := by rw [Nat.sub_add_cancel hpos]
  have hlt : 2 ^ k - 1 < 2 ^ w := by
    have hle := Nat.pow_le_pow_right (n := 2) (by decide) hk
    omega
  rw [hmask]
  refine Nat.eq_of_testBit_eq fun i => ?_
  rw [Nat.testBit_and, Nat.testBit_two_pow_sub_succ hlt, Nat.testBit_two_pow_sub_one,
    Nat.testBit_mul_two_pow, Nat.testBit_div_two_pow]
  by_cases hi : k ≤ i
  · rw [Nat.sub_add_cancel hi]
    by_cases hbound : i < w
    · simp [hi, hbound]
    · rw [Nat.testBit_lt_two_pow (lt_of_lt_of_le hx (Nat.pow_le_pow_right (by decide)
        (Nat.not_lt.1 hbound)))]
      simp
  · simp [hi, Nat.not_le.1 hi]

/-- `x & ~7` is the multiple of 8 below `x`. -/
theorem and_not_seven (x : UInt32) : (x &&& ~~~7).toNat = x.toNat / 2 ^ 3 * 2 ^ 3 := by
  rw [UInt32.toNat_and]
  exact and_high_bits (k := 3) x.toNat_lt (by decide)

end Ns3Pedca
