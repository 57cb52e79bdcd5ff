import Ns3Pedca.FixedPoint

/-!
# Multiplication and division of `int64x64_t`

`int64x64_t` is a number with 64 bits of fraction in a 128-bit integer. `mul` puts the product
together from the products of the words, and fails where an assertion does. `div` is a long
division that takes several bits in each round.

A product that can be represented is found without an overflow on the way, and of one that
cannot be an assertion fails (`mul_eq`). The loop that casts off bits of the divisor does nothing
when it is reached (`castOff_eq`), so every round is exact, and it takes at least one bit
(`divideDigits_eq`). Both results are exact up to truncation (`mul_div_exact`).
-/

namespace Ns3Pedca

open FixedPoint

/-- `uint128_t`, and `int128_t` in two's complement. -/
abbrev UInt128 := BitVec 128

/-- `int64x64_t`. -/
structure Int64x64 where
  v : UInt128
  deriving DecidableEq

namespace Int64x64

/-- `HP128_MASK_HI_BIT`. -/
def maskHiBit : UInt128 :=
  (1 : UInt128) <<< 127

/-- `HP_MASK_LO`. -/
def maskLo : UInt128 :=
  0xffffffffffffffff

/-- `output_sign` : whether the result is negative, and the magnitudes. -/
def outputSign (sa sb : UInt128) : Bool × UInt128 × UInt128 :=
  let negA := decide (sa.toInt < 0)
  let negB := decide (sb.toInt < 0)
  (negA != negB, if negA then -sa else sa, if negB then -sb else sb)

/-- The low word : `al` and `bl` in `Umul`. -/
def low (a : UInt128) : UInt128 :=
  a &&& maskLo

/-- The high word : `ah` and `bh` in `Umul`. -/
def high (a : UInt128) : UInt128 :=
  a >>> 64

/-- `mid` in `Umul`. -/
def mid (a b : UInt128) : UInt128 :=
  high a * low b + low a * high b

/-- `Umul`, which fails if an assertion does. -/
def umul (a b : UInt128) : Option UInt128 :=
  let res := (low a * low b) >>> 64
  let res := res + mid a b
  let highest := high a * high b
  if highest ≤ (1 : UInt128) <<< 63 then
    let highest := highest <<< 64
    if res ≤ res + highest then some (res + highest) else none
  else none

/-- `Mul`, which fails if an assertion does. -/
def mul (x o : Int64x64) : Option Int64x64 :=
  let (negative, a, b) := outputSign x.v o.v
  (umul a b).bind fun result =>
    if negative then
      if result ≤ maskHiBit then some ⟨-result⟩ else none
    else
      if result < maskHiBit then some ⟨result⟩ else none

/-- `DIGITS`. -/
def digits : ℕ :=
  64

/-- The loop that skips trailing zeros in the divisor, with the number of digits that may be
taken. -/
def skipTrailing : ℕ → UInt128 → ℕ × UInt128
  | 0, den => (0, den)
  | n + 1, den =>
    if den &&& 1 = 0 then
      let r := skipTrailing n (den >>> 1)
      (r.1 + 1, r.2)
    else (0, den)

/-- The loop that skips leading zeros in the remainder. -/
def skipLeading : ℕ → UInt128 → ℕ × UInt128
  | 0, rem => (0, rem)
  | n + 1, rem =>
    if rem &&& maskHiBit = 0 then
      let r := skipLeading n (rem <<< 1)
      (r.1 + 1, r.2)
    else (0, rem)

/-- The loop that casts off bits of the divisor. -/
def castOff (rem : UInt128) : ℕ → UInt128 → ℕ × UInt128
  | 0, den => (0, den)
  | n + 1, den =>
    if den &&& 1 = 0 ∨ rem < den then
      let r := castOff rem n (den >>> 1)
      (r.1 + 1, r.2)
    else (0, den)

/-- The loop of `Udiv` over the digits, with a bound on its rounds, and the digits that are
missing when the remainder has run out. -/
def divideDigits : ℕ → ℕ → ℕ → UInt128 → UInt128 → UInt128 → Option UInt128
  | 0, _, _, _, _, _ => none
  | fuel + 1, digis, shift, den, rem, result =>
    if digis < digits ∧ rem ≠ 0 then
      let leading := skipLeading (digits - (digis + shift)) rem
      let shift := shift + leading.1
      let rem := leading.2
      let cast := castOff rem (digits - (digis + shift)) den
      let shift := shift + cast.1
      let den := cast.2
      divideDigits fuel (digis + shift) 0 den (rem % den) (result <<< shift + rem / den)
    else some (if digis < digits then result <<< (digits - digis) else result)

/-- `Udiv`, which fails if `b` is zero. -/
def udiv (fuel : ℕ) (a b : UInt128) : Option UInt128 :=
  if b = 0 then none
  else if a % b < b then
    let trailing := skipTrailing digits b
    divideDigits fuel 0 trailing.1 trailing.2 (a % b) (a / b)
  else none

/-- `Div`. -/
def div (fuel : ℕ) (x o : Int64x64) : Option Int64x64 :=
  let (negative, a, b) := outputSign x.v o.v
  (udiv fuel a b).map fun result => ⟨if negative then -result else result⟩

/-! ## What the results should be -/

/-- A number is that of some 128-bit integer. -/
def Representable (z : ℤ) : Prop :=
  -2 ^ 127 ≤ z ∧ z < 2 ^ 127

/-- The product, truncated to 64 bits of fraction. -/
def product (x o : Int64x64) : ℤ :=
  x.v.toInt.sign * o.v.toInt.sign * ((x.v.toInt.natAbs * o.v.toInt.natAbs / 2 ^ 64 : ℕ) : ℤ)

/-- The quotient, truncated to 64 bits of fraction. -/
def quotient (x o : Int64x64) : ℤ :=
  x.v.toInt.sign * o.v.toInt.sign * ((x.v.toInt.natAbs * 2 ^ 64 / o.v.toInt.natAbs : ℕ) : ℤ)

/-- The products of the words and the sums of the lower ones do not go over 128 bits. -/
structure PartsFit (a b : UInt128) : Prop where
  lowest : (low a * low b).toNat = (low a).toNat * (low b).toNat
  highLow : (high a * low b).toNat = (high a).toNat * (low b).toNat
  lowHigh : (low a * high b).toNat = (low a).toNat * (high b).toNat
  mid : (mid a b).toNat = (high a * low b).toNat + (low a * high b).toNat
  res : ((low a * low b) >>> 64 + Int64x64.mid a b).toNat =
    ((low a * low b) >>> 64).toNat + (Int64x64.mid a b).toNat
  highest : (high a * high b).toNat = (high a).toNat * (high b).toNat

/-- No operation of `Umul` goes over 128 bits. -/
structure NoOverflow (a b : UInt128) : Prop extends PartsFit a b where
  shifted : ((high a * high b) <<< 64).toNat = (high a * high b).toNat * 2 ^ 64
  total : ((low a * low b) >>> 64 + Int64x64.mid a b + (high a * high b) <<< 64).toNat =
    ((low a * low b) >>> 64 + Int64x64.mid a b).toNat + ((high a * high b) <<< 64).toNat

/-! ## Words -/

variable {a b den rem : UInt128}

theorem toNat_low (a : UInt128) : (low a).toNat = a.toNat % 2 ^ 64 := by
  rw [low, BitVec.toNat_and, show maskLo.toNat = 2 ^ 64 - 1 from rfl,
    Nat.and_two_pow_sub_one_eq_mod]

theorem toNat_high (a : UInt128) : (high a).toNat = a.toNat / 2 ^ 64 := by
  rw [high, BitVec.toNat_ushiftRight, Nat.shiftRight_eq_div_pow]

theorem toNat_mul_of_lt (h : a.toNat * b.toNat < 2 ^ 128) :
    (a * b).toNat = a.toNat * b.toNat := by
  rw [BitVec.toNat_mul, Nat.mod_eq_of_lt h]

theorem toNat_add_of_lt (h : a.toNat + b.toNat < 2 ^ 128) :
    (a + b).toNat = a.toNat + b.toNat := by
  rw [BitVec.toNat_add, Nat.mod_eq_of_lt h]

theorem toNat_shiftLeft_of_lt {k : ℕ} (h : a.toNat * 2 ^ k < 2 ^ 128) :
    (a <<< k).toNat = a.toNat * 2 ^ k := by
  rw [BitVec.toNat_shiftLeft, Nat.shiftLeft_eq, Nat.mod_eq_of_lt h]

/-- The magnitude of a number. -/
theorem toNat_magnitude (x : UInt128) :
    (if decide (x.toInt < 0) then -x else x).toNat = x.toInt.natAbs ∧
      x.toInt.natAbs ≤ 2 ^ 127 := by
  have hx := x.isLt
  have hint := BitVec.toInt_eq_toNat_cond x
  split_ifs with hneg
  · rw [decide_eq_true_eq] at hneg
    rw [BitVec.toNat_neg]
    split_ifs at hint <;> omega
  · rw [decide_eq_true_eq] at hneg
    split_ifs at hint <;> omega

theorem toInt_neg_of_le {n : UInt128} (h : n.toNat ≤ 2 ^ 127) : (-n).toInt = -(n.toNat : ℤ) := by
  have hint := BitVec.toInt_eq_toNat_cond (-n)
  rw [BitVec.toNat_neg] at hint
  have hn := n.isLt
  split_ifs at hint <;> omega

theorem toInt_of_lt {n : UInt128} (h : n.toNat < 2 ^ 127) : n.toInt = n.toNat := by
  have hint := BitVec.toInt_eq_toNat_cond n
  split_ifs at hint <;> omega

/-! ## Multiplication -/

theorem partsFit (ha : a.toNat ≤ 2 ^ 127) (hb : b.toNat ≤ 2 ^ 127) : PartsFit a b := by
  have hal : (low a).toNat ≤ 2 ^ 64 - 1 := by
    rw [toNat_low]
    omega
  have hbl : (low b).toNat ≤ 2 ^ 64 - 1 := by
    rw [toNat_low]
    omega
  have hah : (high a).toNat ≤ 2 ^ 63 := by
    rw [toNat_high]
    omega
  have hbh : (high b).toNat ≤ 2 ^ 63 := by
    rw [toNat_high]
    omega
  have hll := Nat.mul_le_mul hal hbl
  have hhl := Nat.mul_le_mul hah hbl
  have hlh := Nat.mul_le_mul hal hbh
  have hhh := Nat.mul_le_mul hah hbh
  have hlowest := toNat_mul_of_lt (a := low a) (b := low b) (by omega)
  have hhighLow := toNat_mul_of_lt (a := high a) (b := low b) (by omega)
  have hlowHigh := toNat_mul_of_lt (a := low a) (b := high b) (by omega)
  have hhighest := toNat_mul_of_lt (a := high a) (b := high b) (by omega)
  have hmid : (mid a b).toNat = (high a * low b).toNat + (low a * high b).toNat :=
    toNat_add_of_lt (by omega)
  have hshift : ((low a * low b) >>> 64).toNat = (low a).toNat * (low b).toNat / 2 ^ 64 := by
    rw [BitVec.toNat_ushiftRight, Nat.shiftRight_eq_div_pow, hlowest]
  exact ⟨hlowest, hhighLow, hlowHigh, hmid, toNat_add_of_lt (by omega), hhighest⟩

/-- The product in its parts. -/
theorem PartsFit.product (h : PartsFit a b) : a.toNat * b.toNat / 2 ^ 64 =
    (high a * high b).toNat * 2 ^ 64 + ((low a * low b) >>> 64 + Int64x64.mid a b).toNat := by
  have hwords : ∀ x : UInt128, x.toNat = (high x).toNat * 2 ^ 64 + (low x).toNat := by
    intro x
    rw [toNat_high, toNat_low]
    omega
  rw [hwords a, hwords b, mul_div_words (by decide), h.res, h.mid, h.highLow, h.lowHigh,
    h.highest, BitVec.toNat_ushiftRight, Nat.shiftRight_eq_div_pow, h.lowest]
  omega

/-- What passes the assertions of `Umul` is the product. -/
theorem toNat_of_umul (ha : a.toNat ≤ 2 ^ 127) (hb : b.toNat ≤ 2 ^ 127) {r : UInt128}
    (hr : umul a b = some r) : r.toNat = a.toNat * b.toNat / 2 ^ 64 := by
  have hparts := partsFit ha hb
  rw [umul] at hr
  dsimp only at hr
  split_ifs at hr with hhigh hle
  obtain rfl := Option.some.inj hr
  have hshifted : ((high a * high b) <<< 64).toNat = (high a * high b).toNat * 2 ^ 64 := by
    refine toNat_shiftLeft_of_lt ?_
    have hle63 : (high a * high b).toNat ≤ 2 ^ 63 := hhigh
    omega
  have hlt := ((low a * low b) >>> 64 + mid a b).isLt
  rw [BitVec.le_def, BitVec.toNat_add ((low a * low b) >>> 64 + mid a b), hshifted] at hle
  rw [BitVec.toNat_add ((low a * low b) >>> 64 + mid a b), hshifted, hparts.product]
  have hle63 : (high a * high b).toNat ≤ 2 ^ 63 := hhigh
  omega

/-- A product below the highest bit passes the assertions, without an overflow. -/
theorem umul_of_le (ha : a.toNat ≤ 2 ^ 127) (hb : b.toNat ≤ 2 ^ 127)
    (hle : a.toNat * b.toNat / 2 ^ 64 ≤ 2 ^ 127) :
    (∃ r, umul a b = some r) ∧ NoOverflow a b := by
  have hparts := partsFit ha hb
  rw [hparts.product] at hle
  have hshifted : ((high a * high b) <<< 64).toNat = (high a * high b).toNat * 2 ^ 64 :=
    toNat_shiftLeft_of_lt (by omega)
  have htotal : ((low a * low b) >>> 64 + mid a b + (high a * high b) <<< 64).toNat =
      ((low a * low b) >>> 64 + mid a b).toNat + ((high a * high b) <<< 64).toNat :=
    toNat_add_of_lt (by omega)
  refine ⟨?_, hparts, hshifted, htotal⟩
  have hhigh : high a * high b ≤ (1 : UInt128) <<< 63 := by
    rw [BitVec.le_def]
    change (high a * high b).toNat ≤ 2 ^ 63
    omega
  have hcarry : (low a * low b) >>> 64 + mid a b ≤
      (low a * low b) >>> 64 + mid a b + (high a * high b) <<< 64 := by
    rw [BitVec.le_def, htotal]
    exact Nat.le_add_right _ _
  exact ⟨_, (if_pos hhigh).trans (if_pos hcarry)⟩

/-- The sign of a result. -/
theorem sign_mul_eq {sa sb : ℤ} {n : ℕ} (h : sa = 0 ∨ sb = 0 → n = 0) :
    sa.sign * sb.sign * n =
      if (decide (sa < 0) != decide (sb < 0)) = true then -(n : ℤ) else n := by
  rcases lt_trichotomy sa 0 with ha | ha | ha
  · rcases lt_trichotomy sb 0 with hb | hb | hb
    · simp [Int.sign_eq_neg_one_of_neg, ha, hb]
    · simp [h (.inr hb)]
    · simp [Int.sign_eq_neg_one_of_neg, Int.sign_eq_one_of_pos, ha, hb, hb.le]
  · simp [h (.inl ha)]
  · rcases lt_trichotomy sb 0 with hb | hb | hb
    · simp [Int.sign_eq_neg_one_of_neg, Int.sign_eq_one_of_pos, ha, hb, ha.le]
    · simp [h (.inr hb)]
    · simp [Int.sign_eq_one_of_pos, ha, hb, not_lt.2 ha.le, not_lt.2 hb.le]

variable {x o : Int64x64}

/-- A product that can be represented is found, and of one that cannot an assertion fails. -/
theorem mul_eq (x o : Int64x64) : (Representable (product x o) →
      (∃ y, x.mul o = some y ∧ y.v.toInt = product x o) ∧
        NoOverflow (outputSign x.v o.v).2.1 (outputSign x.v o.v).2.2) ∧
    (¬ Representable (product x o) → x.mul o = none) := by
  obtain ⟨ha, haLe⟩ := toNat_magnitude x.v
  obtain ⟨hb, hbLe⟩ := toNat_magnitude o.v
  have hproduct := @sign_mul_eq x.v.toInt o.v.toInt
    (x.v.toInt.natAbs * o.v.toInt.natAbs / 2 ^ 64) (by
      rintro (hzero | hzero) <;> rw [hzero] <;> simp)
  change product x o = _ at hproduct
  rw [mul, outputSign]
  dsimp only
  generalize (decide (x.v.toInt < 0) != decide (o.v.toInt < 0)) = negative at hproduct ⊢
  rw [← ha] at haLe hproduct
  rw [← hb] at hbLe hproduct
  generalize (if decide (x.v.toInt < 0) = true then -x.v else x.v) = a at haLe hproduct ⊢
  generalize (if decide (o.v.toInt < 0) = true then -o.v else o.v) = b at hbLe hproduct ⊢
  have hmask : maskHiBit.toNat = 2 ^ 127 := rfl
  constructor
  · intro hrep
    rw [hproduct, Representable] at hrep
    have hle : a.toNat * b.toNat / 2 ^ 64 ≤ 2 ^ 127 := by
      cases negative <;> simp only [Bool.false_eq_true, if_false, if_true] at hrep <;> omega
    obtain ⟨⟨r, hr⟩, hno⟩ := umul_of_le haLe hbLe hle
    have hvalue := toNat_of_umul haLe hbLe hr
    refine ⟨?_, hno⟩
    rw [hr, Option.bind_some, hproduct]
    cases negative with
    | true =>
      rw [if_pos rfl, if_pos (BitVec.le_def.2 (by omega)), if_pos rfl, ← hvalue]
      exact ⟨_, rfl, toInt_neg_of_le (by omega)⟩
    | false =>
      simp only [Bool.false_eq_true, if_false] at hrep ⊢
      rw [if_pos (BitVec.lt_def.2 (by omega)), ← hvalue]
      exact ⟨_, rfl, @toInt_of_lt r (by omega)⟩
  · intro hrep
    cases hr : umul a b with
    | none => rfl
    | some r =>
      have hvalue := toNat_of_umul haLe hbLe hr
      rw [hproduct, ← hvalue, Representable] at hrep
      rw [Option.bind_some]
      cases negative with
      | true =>
        rw [if_pos rfl] at hrep
        rw [if_pos rfl, if_neg]
        rw [BitVec.le_def]
        omega
      | false =>
        simp only [Bool.false_eq_true, if_false] at hrep ⊢
        rw [if_neg]
        rw [BitVec.lt_def]
        omega

/-! ## Division -/

theorem and_one_eq_zero_iff : den &&& 1 = 0 ↔ den.toNat % 2 = 0 := by
  rw [← BitVec.toNat_inj, BitVec.toNat_and]
  change den.toNat &&& 1 = 0 ↔ _
  rw [Nat.and_one_is_mod]

theorem and_maskHiBit_eq_zero_iff : rem &&& maskHiBit = 0 ↔ rem.toNat < 2 ^ 127 := by
  have hlt := rem.isLt
  rw [← BitVec.toNat_inj, BitVec.toNat_and]
  change rem.toNat &&& 2 ^ 127 = 0 ↔ _
  rw [Nat.and_two_pow, Nat.testBit_eq_decide_div_mod_eq]
  by_cases hbit : rem.toNat / 2 ^ 127 % 2 = 1
  · rw [decide_eq_true hbit, Bool.toNat_true]
    omega
  · rw [decide_eq_false hbit, Bool.toNat_false]
    omega

/-- The zero bits of the divisor are skipped, unless there are enough of them. -/
theorem skipTrailing_spec (n : ℕ) : ∀ den : UInt128, (skipTrailing n den).1 ≤ n ∧
    den.toNat = (skipTrailing n den).2.toNat * 2 ^ (skipTrailing n den).1 ∧
    ((skipTrailing n den).1 = n ∨ (skipTrailing n den).2.toNat % 2 = 1) := by
  induction n with
  | zero =>
    intro den
    exact ⟨le_rfl, by simp [skipTrailing], .inl rfl⟩
  | succ n ih =>
    intro den
    rw [skipTrailing]
    by_cases heven : den &&& 1 = 0
    · rw [if_pos heven]
      obtain ⟨hle, heq, hodd⟩ := ih (den >>> 1)
      rw [and_one_eq_zero_iff] at heven
      rw [BitVec.toNat_ushiftRight, Nat.shiftRight_eq_div_pow, pow_one] at heq
      refine ⟨Nat.succ_le_succ hle, ?_, hodd.imp (congrArg Nat.succ) id⟩
      dsimp only
      rw [pow_succ, ← Nat.mul_assoc, ← heq]
      omega
    · rw [if_neg heven]
      rw [and_one_eq_zero_iff] at heven
      exact ⟨Nat.zero_le _, by simp, .inr (by dsimp only; omega)⟩

/-- The remainder is shifted to the highest bit, unless there are enough digits before. -/
theorem skipLeading_spec (n : ℕ) : ∀ rem : UInt128, (skipLeading n rem).1 ≤ n ∧
    (skipLeading n rem).2.toNat = rem.toNat * 2 ^ (skipLeading n rem).1 ∧
    ((skipLeading n rem).1 = n ∨ 2 ^ 127 ≤ (skipLeading n rem).2.toNat) ∧
    (0 < n → rem.toNat < 2 ^ 127 → 0 < (skipLeading n rem).1) := by
  induction n with
  | zero =>
    intro rem
    exact ⟨le_rfl, by simp [skipLeading], .inl rfl, fun h => absurd h (lt_irrefl 0)⟩
  | succ n ih =>
    intro rem
    rw [skipLeading]
    by_cases hlow : rem &&& maskHiBit = 0
    · rw [if_pos hlow]
      obtain ⟨hle, heq, hhigh, -⟩ := ih (rem <<< 1)
      rw [and_maskHiBit_eq_zero_iff] at hlow
      rw [toNat_shiftLeft_of_lt (by omega), pow_one] at heq
      refine ⟨Nat.succ_le_succ hle, ?_, hhigh.imp (congrArg Nat.succ) id,
        fun _ _ => Nat.succ_pos _⟩
      dsimp only
      rw [heq, pow_succ]
      ring
    · rw [if_neg hlow]
      rw [and_maskHiBit_eq_zero_iff] at hlow
      exact ⟨Nat.zero_le _, by simp, .inr (by dsimp only; omega),
        fun _ hlt => absurd hlt hlow⟩

/-- No bit of the divisor is cast off, if it is odd and not above the remainder. -/
theorem castOff_eq {n : ℕ} (h : n = 0 ∨ den.toNat % 2 = 1 ∧ den.toNat ≤ rem.toNat) :
    castOff rem n den = (0, den) := by
  cases n with
  | zero => rfl
  | succ n =>
    obtain ⟨hodd, hle⟩ := h.resolve_left (Nat.succ_ne_zero n)
    rw [castOff, if_neg]
    rw [and_one_eq_zero_iff, BitVec.lt_def]
    omega

theorem ofNat_shiftLeft (n k : ℕ) :
    (BitVec.ofNat 128 n) <<< k = BitVec.ofNat 128 (n * 2 ^ k) := by
  refine BitVec.eq_of_toNat_eq ?_
  rw [BitVec.toNat_shiftLeft, Nat.shiftLeft_eq, BitVec.toNat_ofNat, BitVec.toNat_ofNat,
    Nat.mod_mul_mod]

/-- The loop finds all digits, within one round for each. -/
theorem divideDigits_eq {a s : ℕ} (fuel : ℕ) : ∀ {digis shift result : ℕ} {den rem : UInt128},
    Partway a den.toNat s digis shift result rem.toNat → digis + shift ≤ digits →
    digis + shift = digits ∨ den.toNat % 2 = 1 → den.toNat ≤ 2 ^ 127 → digits - digis < fuel →
    divideDigits fuel digis shift den rem (BitVec.ofNat 128 result) =
      some (BitVec.ofNat 128 (a * 2 ^ 64 / (den.toNat * 2 ^ s))) := by
  induction fuel with
  | zero => exact fun _ _ _ _ h => absurd h (Nat.not_lt_zero _)
  | succ fuel ih =>
    intro digis shift result den rem hpart hle hodd hden hfuel
    rw [divideDigits]
    by_cases hmore : digis < digits ∧ rem ≠ 0
    · rw [if_pos hmore]
      obtain ⟨hn, hrem, htop, hpos⟩ := skipLeading_spec (digits - (digis + shift)) rem
      generalize skipLeading (digits - (digis + shift)) rem = leading at hn hrem htop hpos ⊢
      have hinert : castOff leading.2 (digits - (digis + (shift + leading.1))) den = (0, den) := by
        refine castOff_eq ?_
        by_cases hall : digis + (shift + leading.1) = digits
        · exact .inl (by omega)
        · exact .inr ⟨hodd.resolve_left (by omega), hden.trans (htop.resolve_left (by omega))⟩
      dsimp only
      rw [hinert]
      dsimp only
      have hround := hpart.round leading.1
      rw [← hrem, ← BitVec.toNat_umod, ← BitVec.toNat_udiv] at hround
      have hresult : (BitVec.ofNat 128 result) <<< (shift + leading.1 + 0) + leading.2 / den =
          BitVec.ofNat 128 (result * 2 ^ (shift + leading.1) + (leading.2 / den).toNat) := by
        rw [Nat.add_zero, ofNat_shiftLeft, BitVec.ofNat_add, BitVec.ofNat_toNat,
          BitVec.setWidth_eq]
      rw [hresult, Nat.add_zero]
      refine ih hround (by omega) (hodd.imp (fun hall => by omega) id) hden ?_
      have hprogress : 0 < shift + leading.1 := by
        rcases Nat.eq_zero_or_pos shift with hzero | hshift
        · have hlt := hpart.lt
          rw [hzero, pow_zero, Nat.mul_one] at hlt
          have hfirst := hpos (by omega) (by omega)
          omega
        · omega
      omega
    · rw [if_neg hmore]
      refine congrArg some ?_
      by_cases hlt : digis < digits
      · have hzero : rem = 0 := by
          by_contra hne
          exact hmore ⟨hlt, hne⟩
        rw [hzero] at hpart
        rw [if_pos hlt, ofNat_shiftLeft]
        exact congrArg _ (hpart.result_of_rem_eq_zero hlt.le)
      · obtain rfl : digis = 64 := by
          change digis + shift ≤ 64 at hle
          change ¬ digis < 64 at hlt
          omega
        obtain rfl : shift = 0 := by
          change 64 + shift ≤ 64 at hle
          omega
        rw [if_neg hlt, hpart.result_eq]

/-- `Udiv` finds the quotient, within 65 rounds. -/
theorem udiv_eq (hb : b.toNat ≤ 2 ^ 127) (hne : b ≠ 0) {fuel : ℕ} (hfuel : 65 ≤ fuel) :
    udiv fuel a b = some (BitVec.ofNat 128 (a.toNat * 2 ^ 64 / b.toNat)) := by
  obtain ⟨hn, heq, hodd⟩ := skipTrailing_spec digits b
  have hpos : 0 < b.toNat := by
    refine Nat.pos_of_ne_zero fun hzero => hne (BitVec.eq_of_toNat_eq ?_)
    rw [hzero]
    rfl
  have hlt : a % b < b := by
    rw [BitVec.lt_def, BitVec.toNat_umod]
    exact Nat.mod_lt _ hpos
  rw [udiv, if_neg hne, if_pos hlt]
  dsimp only
  generalize skipTrailing digits b = trailing at hn heq hodd ⊢
  have hden : 0 < trailing.2.toNat := by
    refine Nat.pos_of_ne_zero fun hzero => ?_
    rw [hzero, Nat.zero_mul] at heq
    omega
  have hstart := partway_start hden a.toNat trailing.1
  rw [← heq, ← BitVec.toNat_umod] at hstart
  have hle : trailing.2.toNat ≤ b.toNat := by
    rw [heq]
    exact Nat.le_mul_of_pos_right _ (Nat.two_pow_pos _)
  have hquo : a / b = BitVec.ofNat 128 (a.toNat / b.toNat) := by
    rw [← BitVec.toNat_udiv, BitVec.ofNat_toNat, BitVec.setWidth_eq]
  rw [hquo, divideDigits_eq fuel hstart (by omega) (hodd.imp_left fun h => by omega)
    (hle.trans hb) (by change 64 - 0 < fuel; omega), ← heq]

/-- A quotient that can be represented is found. -/
theorem div_eq (hne : o.v ≠ 0) (hrep : Representable (quotient x o)) :
    ∃ y, (∀ fuel ≥ 65, x.div fuel o = some y) ∧ y.v.toInt = quotient x o := by
  obtain ⟨ha, haLe⟩ := toNat_magnitude x.v
  obtain ⟨hb, hbLe⟩ := toNat_magnitude o.v
  have hneInt : o.v.toInt ≠ 0 := fun hzero => hne (BitVec.eq_of_toInt_eq (by rw [hzero]; rfl))
  have hnatAbs := Int.natAbs_ne_zero.2 hneInt
  have hquotient := @sign_mul_eq x.v.toInt o.v.toInt
    (x.v.toInt.natAbs * 2 ^ 64 / o.v.toInt.natAbs) (by
      rintro (hzero | hzero)
      · rw [hzero]
        simp
      · exact absurd hzero hneInt)
  have hdiv : ∀ fuel, x.div fuel o =
      (udiv fuel (outputSign x.v o.v).2.1 (outputSign x.v o.v).2.2).map fun result =>
        ⟨if (outputSign x.v o.v).1 then -result else result⟩ := fun _ => rfl
  change quotient x o = if (outputSign x.v o.v).1 = true then _ else _ at hquotient
  change (outputSign x.v o.v).2.1.toNat = _ at ha
  change (outputSign x.v o.v).2.2.toNat = _ at hb
  simp only [hdiv]
  generalize outputSign x.v o.v = s at hquotient ha hb ⊢
  obtain ⟨negative, a, b⟩ := s
  dsimp only at hquotient ha hb ⊢
  rw [← ha] at haLe hquotient
  rw [← hb] at hbLe hquotient hnatAbs
  have hb0 : b ≠ 0 := fun hzero => hnatAbs (by rw [hzero]; rfl)
  refine ⟨_, fun fuel hfuel => by rw [udiv_eq hbLe hb0 hfuel, Option.map_some], ?_⟩
  rw [hquotient, Representable] at hrep
  have hvalue : (BitVec.ofNat 128 (a.toNat * 2 ^ 64 / b.toNat)).toNat =
      a.toNat * 2 ^ 64 / b.toNat := by
    rw [BitVec.toNat_ofNat, Nat.mod_eq_of_lt]
    cases negative <;> simp only [Bool.false_eq_true, if_false, if_true] at hrep <;> omega
  rw [hquotient]
  generalize a.toNat * 2 ^ 64 / b.toNat = q at hrep hvalue ⊢
  generalize BitVec.ofNat 128 q = r at hvalue ⊢
  subst hvalue
  cases negative with
  | true =>
    simp only [if_true] at hrep ⊢
    exact @toInt_neg_of_le r (by omega)
  | false =>
    simp only [Bool.false_eq_true, if_false] at hrep ⊢
    exact @toInt_of_lt r (by omega)

/-- Products and quotients are exact up to truncation : a product that can be represented is found
without an overflow, of one that cannot an assertion fails, and a quotient that can be represented
is found within 65 rounds. -/
theorem mul_div_exact (x o : Int64x64) :
    (Representable (product x o) → (∃ y, x.mul o = some y ∧ y.v.toInt = product x o) ∧
      NoOverflow (outputSign x.v o.v).2.1 (outputSign x.v o.v).2.2) ∧
    (¬ Representable (product x o) → x.mul o = none) ∧
    (o.v ≠ 0 → Representable (quotient x o) →
      ∃ y, (∀ fuel ≥ 65, x.div fuel o = some y) ∧ y.v.toInt = quotient x o) :=
  ⟨(mul_eq x o).1, (mul_eq x o).2, div_eq⟩

end Int64x64

end Ns3Pedca
