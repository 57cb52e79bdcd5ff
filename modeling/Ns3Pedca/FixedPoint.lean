import Mathlib

/-!
# Fixed-point arithmetic with words

A product of two numbers is put together from the products of their words, and only the lowest
of these is truncated (`mul_div_words`).

A quotient is found digit by digit. A long division with the divisor `den * 2 ^ s` is `Partway`
when it has `digis` digits of the fraction, and `p` more are pending in the remainder. A round
takes any number of digits at once (`Partway.round`), and with all digits, or without a remainder,
the quotient is exact up to truncation (`Partway.result_eq`, `Partway.result_of_rem_eq_zero`).

A division by `r` can be a multiplication with its reciprocal, rounded up to two words. Then the
multiples of `r` that fit in a word are divided exactly (`mul_reciprocal`).

Digits of a fraction are written from the first one (`Expansion.cons`), and read from the last one
with a rounded division for each (`readDigits`). The errors of the divisions add up to less than
one unit (`readDigits_error`).
-/

namespace FixedPoint

/-- A product of two numbers in words of size `w`, without its lowest word. -/
theorem mul_div_words {w : ℕ} (hw : 0 < w) (ah al bh bl : ℕ) :
    (ah * w + al) * (bh * w + bl) / w = ah * bh * w + (ah * bl + al * bh) + al * bl / w := by
  have hmul : (ah * w + al) * (bh * w + bl) =
      al * bl + w * (ah * bh * w + (ah * bl + al * bh)) := by ring
  rw [hmul, Nat.add_mul_div_left _ _ hw, Nat.add_comm]

/-- A number without a low word, times one in words. -/
theorem mul_words {w : ℕ} (hw : 0 < w) (a bh bl : ℕ) :
    a * bh + a * bl / w = a * (bh * w + bl) / w := by
  rw [show a * (bh * w + bl) = a * bl + w * (a * bh) by ring, Nat.add_mul_div_left _ _ hw,
    Nat.add_comm]

/-! ## Reciprocals -/

/-- Of `r` the number `inv` is the reciprocal, with two words of fraction and rounded up. -/
def IsReciprocal (w r inv : ℕ) : Prop :=
  w * w ≤ inv * r ∧ inv * r < w * w + r

/-- The quotient, with one added if it is not exact. -/
theorem isReciprocal_div {w r : ℕ} (hr : 0 < r) :
    IsReciprocal w r (if w * w / r * r = w * w then w * w / r else w * w / r + 1) := by
  have hdiv := Nat.div_add_mod (w * w) r
  have hmod := Nat.mod_lt (w * w) hr
  rw [Nat.mul_comm] at hdiv
  split_ifs with hexact
  · exact ⟨hexact.ge, by omega⟩
  · refine ⟨?_, ?_⟩ <;> rw [Nat.add_mul, Nat.one_mul] <;> omega

theorem IsReciprocal.le_half {w r inv half : ℕ} (h : IsReciprocal w r inv) (hr : 2 ≤ r)
    (hhalf : w * w = 2 * half) : inv ≤ half := by
  by_contra hlt
  have hlow : (half + 1) * r ≤ inv * r := Nat.mul_le_mul_right r (not_le.1 hlt)
  have htwo : half * 2 ≤ half * r := Nat.mul_le_mul_left half hr
  have hup := h.2
  rw [Nat.add_mul, Nat.one_mul] at hlow
  omega

/-- A multiple that fits in a word is divided exactly. -/
theorem mul_reciprocal {w r inv n : ℕ} (h : IsReciprocal w r inv) (hn : n * r ≤ w) :
    n * r * inv / w = n * w := by
  obtain ⟨e, he⟩ := Nat.exists_eq_add_of_le h.1
  have helt : e < r := by
    have hlt := h.2
    omega
  have hmul : n * r * inv = n * e + n * w * w := by
    rw [Nat.mul_assoc, Nat.mul_comm r, he]
    ring
  rcases Nat.eq_zero_or_pos n with hzero | hpos
  · rw [hzero]
    simp
  · have hsmall : n * e < w := (Nat.mul_lt_mul_of_pos_left helt hpos).trans_le hn
    rw [hmul, Nat.add_mul_div_right _ _ (Nat.zero_lt_of_lt hsmall), Nat.div_eq_of_lt hsmall,
      Nat.zero_add]

/-! ## Long division -/

/-- The state of a division of `a` by `den * 2 ^ s` : `result` has `digis` digits of the fraction,
and `rem` over `den` has `p` more. -/
structure Partway (a den s digis p result rem : ℕ) : Prop where
  eq : a * 2 ^ (digis + p) = (den * 2 ^ p * result + rem) * 2 ^ s
  lt : rem < den * 2 ^ p

variable {a den s digis p result rem d : ℕ}

/-- Before the first round, with the zero bits of the divisor cast off. -/
theorem partway_start (hden : 0 < den) (a s : ℕ) :
    Partway a den s 0 s (a / (den * 2 ^ s)) (a % (den * 2 ^ s)) where
  eq := by rw [Nat.div_add_mod, Nat.zero_add]
  lt := Nat.mod_lt _ (Nat.mul_pos hden (Nat.two_pow_pos s))

theorem Partway.den_pos (h : Partway a den s digis p result rem) : 0 < den := by
  refine Nat.pos_of_ne_zero fun hzero => ?_
  have hlt := h.lt
  rw [hzero, Nat.zero_mul] at hlt
  exact absurd hlt (Nat.not_lt_zero _)

/-- A round, after the remainder has been shifted by `k` more digits. -/
theorem Partway.round (h : Partway a den s digis p result rem) (k : ℕ) :
    Partway a den s (digis + (p + k)) 0 (result * 2 ^ (p + k) + rem * 2 ^ k / den)
      (rem * 2 ^ k % den) where
  eq := by
    have hdiv := Nat.div_add_mod (rem * 2 ^ k) den
    calc a * 2 ^ (digis + (p + k) + 0) = a * 2 ^ (digis + p) * 2 ^ k := by
          rw [Nat.add_zero, ← Nat.add_assoc, pow_add _ (digis + p), Nat.mul_assoc]
      _ = (den * 2 ^ p * result * 2 ^ k + rem * 2 ^ k) * 2 ^ s := by
          rw [h.eq]
          ring
      _ = (den * 2 ^ p * result * 2 ^ k +
            (den * (rem * 2 ^ k / den) + rem * 2 ^ k % den)) * 2 ^ s := by rw [hdiv]
      _ = (den * 2 ^ 0 * (result * 2 ^ (p + k) + rem * 2 ^ k / den) + rem * 2 ^ k % den) *
            2 ^ s := by
          rw [pow_add]
          ring
  lt := by
    rw [pow_zero, Nat.mul_one]
    exact Nat.mod_lt _ h.den_pos

/-- The digits of a round fit their places. -/
theorem Partway.quo_lt (h : Partway a den s digis p result rem) (k : ℕ) :
    rem * 2 ^ k / den < 2 ^ (p + k) := by
  refine Nat.div_lt_of_lt_mul ?_
  rw [pow_add, ← Nat.mul_assoc]
  exact Nat.mul_lt_mul_of_pos_right h.lt (Nat.two_pow_pos k)

/-- With all digits. -/
theorem Partway.result_eq (h : Partway a den s d 0 result rem) :
    result = a * 2 ^ d / (den * 2 ^ s) := by
  have heq := h.eq
  have hlt := h.lt
  rw [pow_zero, Nat.mul_one] at heq hlt
  rw [Nat.add_zero] at heq
  refine (Nat.div_eq_of_lt_le ?_ ?_).symm
  · calc result * (den * 2 ^ s) ≤ (den * result + rem) * 2 ^ s := by
          rw [Nat.add_mul, ← Nat.mul_assoc, Nat.mul_comm result den]
          exact Nat.le_add_right _ _
      _ = a * 2 ^ d := heq.symm
  · calc a * 2 ^ d = (den * result + rem) * 2 ^ s := heq
      _ < (den * result + den) * 2 ^ s :=
          Nat.mul_lt_mul_of_pos_right (Nat.add_lt_add_left hlt _) (Nat.two_pow_pos s)
      _ = (result + 1) * (den * 2 ^ s) := by ring

/-- Without a remainder the other digits are zero. -/
theorem Partway.result_of_rem_eq_zero (h : Partway a den s digis p result 0)
    (hle : digis ≤ d) : result * 2 ^ (d - digis) = a * 2 ^ d / (den * 2 ^ s) := by
  have hexact : a * 2 ^ digis = result * (den * 2 ^ s) := by
    refine Nat.eq_of_mul_eq_mul_right (Nat.two_pow_pos p) ?_
    rw [Nat.mul_assoc, ← pow_add, h.eq, Nat.add_zero]
    ring
  have hsplit : a * 2 ^ d = result * 2 ^ (d - digis) * (den * 2 ^ s) := by
    rw [show d = digis + (d - digis) by omega, pow_add, ← Nat.mul_assoc, hexact,
      show digis + (d - digis) - digis = d - digis by omega]
    ring
  rw [hsplit, Nat.mul_div_cancel _ (Nat.mul_pos h.den_pos (Nat.two_pow_pos s))]

/-! ## Digits of a fraction -/

/-- The first digits `ds` in base `b` of the fraction `a / w`, with `rem` left. -/
structure Expansion (b w a : ℕ) (ds : List ℕ) (rem : ℕ) : Prop where
  lt : ∀ d ∈ ds, d < b
  eq : a * b ^ ds.length = Nat.ofDigits b ds.reverse * w + rem

variable {b w : ℕ} {ds : List ℕ}

theorem expansion_nil (b w a : ℕ) : Expansion b w a [] a where
  lt := fun _ h => absurd h List.not_mem_nil
  eq := by simp

theorem Expansion.cons {a a' d : ℕ} (h : Expansion b w a' ds rem) (hd : d < b)
    (ha : a * b = d * w + a') : Expansion b w a (d :: ds) rem where
  lt := List.forall_mem_cons.2 ⟨hd, h.lt⟩
  eq := by
    rw [List.length_cons, pow_succ', ← mul_assoc, ha, Nat.add_mul, h.eq, List.reverse_cons,
      Nat.ofDigits_append, Nat.ofDigits_singleton, List.length_reverse]
    ring

/-- Digits are read from the last one, with a rounded division for each. -/
def readDigits (b w : ℕ) (ds : List ℕ) (low : ℕ) : ℕ :=
  ds.foldl (fun low d => (low + d * w + b / 2) / b) low

theorem readDigits_cons (d : ℕ) (low : ℕ) :
    readDigits b w (d :: ds) low = readDigits b w ds ((low + d * w + b / 2) / b) :=
  rfl

theorem abs_rounded_div_le (hb : 0 < b) (x : ℕ) :
    |(((x + b / 2) / b : ℕ) : ℤ) * b - x| ≤ ((b / 2 : ℕ) : ℤ) := by
  have hdiv := Nat.div_add_mod (x + b / 2) b
  have hmod := Nat.mod_lt (x + b / 2) hb
  have hcast : (((x + b / 2) / b : ℕ) : ℤ) * b = ((b * ((x + b / 2) / b) : ℕ) : ℤ) := by
    push_cast
    ring
  rw [hcast, abs_le]
  omega

/-- The error after some digits, in units of the last place of the digits. -/
theorem readDigits_error (hb : 0 < b) (ds : List ℕ) : ∀ low m j : ℕ,
    ((b : ℤ) - 1) * |(low : ℤ) * b ^ j - m * w| ≤ ((b / 2 : ℕ) : ℤ) * (b ^ j - 1) →
    ((b : ℤ) - 1) * |(readDigits b w ds low : ℤ) * b ^ (j + ds.length) -
        ((m + b ^ j * Nat.ofDigits b ds : ℕ) : ℤ) * w| ≤
      ((b / 2 : ℕ) : ℤ) * (b ^ (j + ds.length) - 1) := by
  induction ds with
  | nil =>
    intro low m j h
    simpa [readDigits] using h
  | cons d ds ih =>
    intro low m j h
    have hround := abs_rounded_div_le hb (low + d * w)
    have hnext := ih ((low + d * w + b / 2) / b) (m + b ^ j * d) (j + 1) (by
      generalize (low + d * w + b / 2) / b = low' at hround ⊢
      have hsplit : (low' : ℤ) * b ^ (j + 1) - ((m + b ^ j * d : ℕ) : ℤ) * w =
          ((low' : ℤ) * b - ((low + d * w : ℕ) : ℤ)) * b ^ j + ((low : ℤ) * b ^ j - m * w) := by
        push_cast
        ring
      have hpow : (0 : ℤ) ≤ (b : ℤ) ^ j := by positivity
      have hb1 : (0 : ℤ) ≤ (b : ℤ) - 1 := by omega
      rw [hsplit]
      calc ((b : ℤ) - 1) * |((low' : ℤ) * b - ((low + d * w : ℕ) : ℤ)) * b ^ j +
              ((low : ℤ) * b ^ j - m * w)|
          ≤ ((b : ℤ) - 1) * (|(low' : ℤ) * b - ((low + d * w : ℕ) : ℤ)| * b ^ j +
              |(low : ℤ) * b ^ j - m * w|) := by
            refine mul_le_mul_of_nonneg_left ((abs_add_le _ _).trans ?_) hb1
            rw [abs_mul, abs_of_nonneg hpow]
        _ ≤ ((b : ℤ) - 1) * (((b / 2 : ℕ) : ℤ) * b ^ j) +
              ((b / 2 : ℕ) : ℤ) * (b ^ j - 1) := by
            rw [mul_add]
            exact add_le_add (mul_le_mul_of_nonneg_left
              (mul_le_mul_of_nonneg_right hround hpow) hb1) h
        _ = ((b / 2 : ℕ) : ℤ) * (b ^ (j + 1) - 1) := by ring)
    have hlen : j + (d :: ds).length = j + 1 + ds.length := by
      rw [List.length_cons]
      omega
    have hval : m + b ^ j * Nat.ofDigits b (d :: ds) =
        m + b ^ j * d + b ^ (j + 1) * Nat.ofDigits b ds := by
      rw [Nat.ofDigits_cons]
      ring
    rw [hlen, hval, readDigits_cons]
    exact hnext

/-- Decimal digits that are off by at most six tenths of the last place are read right, if the last
place is fine enough. -/
theorem readDigits_of_near {a : ℕ} (h : 10 * |(Nat.ofDigits 10 ds * w : ℕ) -
      ((a * 10 ^ ds.length : ℕ) : ℤ)| ≤ 6 * w ∧ 27 * w < 20 * 10 ^ ds.length ∨
    Nat.ofDigits 10 ds * w = a * 10 ^ ds.length) : readDigits 10 w ds 0 = a := by
  have herr := @readDigits_error 10 w (by decide) ds 0 0 0 (by simp)
  have hpow : (0 : ℤ) < 10 ^ ds.length := by positivity
  generalize readDigits 10 w ds 0 = r at herr ⊢
  generalize Nat.ofDigits 10 ds = n at herr h
  have hread : 9 * |(r : ℤ) * 10 ^ ds.length - n * w| ≤ 5 * (10 ^ ds.length - 1) := by
    simpa using herr
  by_contra hne
  have hone : 1 ≤ |(r : ℤ) - a| := Int.one_le_abs (by omega)
  have hunit := mul_le_mul_of_nonneg_right hone hpow.le
  rw [one_mul, ← abs_of_pos hpow, ← abs_mul, abs_of_pos hpow, sub_mul] at hunit
  obtain ⟨hnear, hfine⟩ | hexact := h
  · have htriangle := abs_sub_le ((r : ℤ) * 10 ^ ds.length) (n * w) (a * 10 ^ ds.length)
    push_cast at hnear
    have hfine' : 27 * (w : ℤ) < 20 * 10 ^ ds.length := by exact_mod_cast hfine
    linarith
  · have hexact' : (n : ℤ) * w = a * 10 ^ ds.length := by exact_mod_cast hexact
    rw [hexact'] at hread
    linarith

end FixedPoint
