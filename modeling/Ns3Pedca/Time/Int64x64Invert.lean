import Ns3Pedca.Time.Int64x64

/-!
# Division by multiplication with an inverse

`invert` is the inverse of an integer with 128 bits of fraction, rounded up, and `mulByInvert`
completes a division by it, without the lowest product of the words. A multiple of the integer is
divided exactly (`mulByInvert_ofInt64`). The product of integers is exact, or an assertion
fails (`mul_ofInt64`), and rounding leaves an integer as it is (`round_ofInt64`).
-/

namespace Ns3Pedca

open FixedPoint

namespace Int64x64

/-- The constructor from a signed integer. -/
def ofInt64 (v : BitVec 64) : Int64x64 :=
  ⟨v.signExtend 128 <<< 64⟩

/-- The constructor from the words. -/
def ofWords (hi lo : BitVec 64) : Int64x64 :=
  ⟨hi.signExtend 128 <<< 64 ||| lo.setWidth 128⟩

/-- `GetHigh`. -/
def getHigh (x : Int64x64) : BitVec 64 :=
  (x.v.sshiftRight 64).setWidth 64

/-- `GetLow`. -/
def getLow (x : Int64x64) : BitVec 64 :=
  (x.v &&& maskLo).setWidth 64

/-- The unary `operator-`. -/
def neg (x : Int64x64) : Int64x64 :=
  ⟨-x.v⟩

/-- `operator+=`. -/
def add (x o : Int64x64) : Int64x64 :=
  ⟨x.v + o.v⟩

/-- `Round`. -/
def round (x : Int64x64) : BitVec 64 :=
  let negative := decide (x.v.toInt < 0)
  let value := if negative then x.neg else x
  let half := ofWords 0 ((1 : BitVec 64) <<< 63)
  let retval := (value.add half).getHigh
  if negative then -retval else retval

/-- `UmulByInvert`, which fails if its assertion does. -/
def umulByInvert (a b : UInt128) : Option UInt128 :=
  if b ≤ maskHiBit then some (high a * high b + mid a b >>> 64) else none

/-- `MulByInvert`. -/
def mulByInvert (x o : Int64x64) : Option Int64x64 :=
  let negResult := decide (x.v.toInt < 0)
  let a := if negResult then -x.v else x.v
  (umulByInvert a o.v).map fun result => ⟨if negResult then -result else result⟩

/-- `Invert`. -/
def invert (v : BitVec 64) : Option Int64x64 :=
  if 1 < v then
    (udiv 65 ((1 : UInt128) <<< 64) (v.setWidth 128)).bind fun result =>
      ((ofWords v 0).mulByInvert ⟨result⟩).map fun tmp =>
        ⟨if tmp.getHigh ≠ 1 then result + 1 else result⟩
  else none

/-! ## Integers -/

variable {x inv : Int64x64} {v n z : BitVec 64}

theorem toInt_bounds (v : BitVec 64) : -2 ^ 63 ≤ v.toInt ∧ v.toInt < 2 ^ 63 :=
  ⟨BitVec.le_toInt v, BitVec.toInt_lt⟩

theorem toInt_ofInt64 (v : BitVec 64) : (ofInt64 v).v.toInt = v.toInt * 2 ^ 64 := by
  obtain ⟨hle, hlt⟩ := toInt_bounds v
  have hext := @BitVec.toInt_signExtend_of_le 64 128 v (by decide)
  have hcond := BitVec.toInt_eq_toNat_cond (v.signExtend 128)
  have hshift := BitVec.toInt_eq_toNat_cond (v.signExtend 128 <<< 64)
  have hx := (v.signExtend 128).isLt
  rw [BitVec.toNat_shiftLeft, Nat.shiftLeft_eq] at hshift
  change (v.signExtend 128 <<< 64).toInt = _
  rw [hshift]
  split_ifs at hcond ⊢ <;> omega

theorem eq_ofInt64 (h : x.v.toInt = v.toInt * 2 ^ 64) : x = ofInt64 v := by
  have heq : x.v = (ofInt64 v).v := BitVec.eq_of_toInt_eq (h.trans (toInt_ofInt64 v).symm)
  cases x
  exact congrArg Int64x64.mk heq

theorem toInt_getHigh (x : Int64x64) : x.getHigh.toInt = x.v.toInt / 2 ^ 64 := by
  have hle := BitVec.le_toInt x.v
  have hlt := @BitVec.toInt_lt 128 x.v
  have hshift := @BitVec.toInt_sshiftRight 128 x.v 64
  rw [Int.shiftRight_eq_div_pow] at hshift
  have hcond := BitVec.toInt_eq_toNat_cond (x.v.sshiftRight 64)
  have hhigh := BitVec.toInt_eq_toNat_cond ((x.v.sshiftRight 64).setWidth 64)
  have hx := (x.v.sshiftRight 64).isLt
  rw [BitVec.toNat_setWidth] at hhigh
  change ((x.v.sshiftRight 64).setWidth 64).toInt = _
  rw [hhigh]
  split_ifs at hcond ⊢ <;> omega

theorem toInt_neg64 (v : BitVec 64) :
    (-v).toInt = if v.toInt = -2 ^ 63 then -2 ^ 63 else -v.toInt := by
  have hv := v.isLt
  have hcond := BitVec.toInt_eq_toNat_cond v
  have hneg := BitVec.toInt_eq_toNat_cond (-v)
  rw [BitVec.toNat_neg] at hneg
  split_ifs at * <;> omega

theorem toInt_neg128 (v : UInt128) :
    (-v).toInt = if v.toInt = -2 ^ 127 then -2 ^ 127 else -v.toInt := by
  have hv := v.isLt
  have hcond := BitVec.toInt_eq_toNat_cond v
  have hneg := BitVec.toInt_eq_toNat_cond (-v)
  rw [BitVec.toNat_neg] at hneg
  split_ifs at * <;> omega

/-- The half is added without an overflow, if the number is not too large. -/
theorem toInt_add_half (h : x.v.toInt < 2 ^ 127 - 2 ^ 63) :
    (x.add (ofWords 0 ((1 : BitVec 64) <<< 63))).v.toInt = x.v.toInt + 2 ^ 63 := by
  have hx := x.v.isLt
  have hcond := BitVec.toInt_eq_toNat_cond x.v
  have hsum := BitVec.toInt_eq_toNat_cond (x.add (ofWords 0 ((1 : BitVec 64) <<< 63))).v
  have hhalf : (x.add (ofWords 0 ((1 : BitVec 64) <<< 63))).v.toNat =
      (x.v.toNat + 2 ^ 63) % 2 ^ 128 := BitVec.toNat_add _ _
  rw [hhalf] at hsum
  split_ifs at hcond hsum <;> omega

/-- An integer is rounded to itself. -/
theorem round_ofInt64 (z : BitVec 64) : (ofInt64 z).round = z := by
  obtain ⟨hle, hlt⟩ := toInt_bounds z
  have hint := toInt_ofInt64 z
  have hneg := toInt_neg128 (ofInt64 z).v
  refine BitVec.eq_of_toInt_eq ?_
  rw [round]
  by_cases hz : (ofInt64 z).v.toInt < 0
  · simp only [hz, decide_true, if_true]
    have hsum := @toInt_add_half (ofInt64 z).neg (by
      change (-(ofInt64 z).v).toInt < _
      rw [hneg]
      split_ifs <;> omega)
    change _ = (-(ofInt64 z).v).toInt + _ at hsum
    rw [toInt_neg64, toInt_getHigh, hsum, hneg]
    split_ifs <;> omega
  · simp only [hz, decide_false, Bool.false_eq_true, if_false]
    rw [toInt_getHigh, toInt_add_half (by omega)]
    omega

theorem product_ofInt64 (v w : BitVec 64) :
    product (ofInt64 v) (ofInt64 w) = v.toInt * w.toInt * 2 ^ 64 := by
  have hsign (a : ℤ) : (a * 2 ^ 64).sign = a.sign := by
    rw [Int.sign_mul, show Int.sign (2 ^ 64) = 1 from rfl, Int.mul_one]
  have habs (a : ℤ) : (a * 2 ^ 64).natAbs = a.natAbs * 2 ^ 64 := Int.natAbs_mul _ _
  have hdiv : v.toInt.natAbs * 2 ^ 64 * (w.toInt.natAbs * 2 ^ 64) / 2 ^ 64 =
      v.toInt.natAbs * w.toInt.natAbs * 2 ^ 64 := by
    rw [← Nat.mul_assoc, Nat.mul_div_cancel _ (Nat.two_pow_pos 64)]
    ring
  rw [product, toInt_ofInt64, toInt_ofInt64, hsign, hsign, habs, habs, hdiv]
  calc v.toInt.sign * w.toInt.sign * ((v.toInt.natAbs * w.toInt.natAbs * 2 ^ 64 : ℕ) : ℤ)
      = v.toInt.sign * v.toInt.natAbs * (w.toInt.sign * w.toInt.natAbs) * 2 ^ 64 := by
        push_cast
        ring
    _ = v.toInt * w.toInt * 2 ^ 64 := by
        rw [Int.sign_mul_natAbs, Int.sign_mul_natAbs]

/-- A product of integers is exact, or an assertion fails. -/
theorem mul_ofInt64 (v w : BitVec 64) :
    (∃ z : BitVec 64, z.toInt = v.toInt * w.toInt ∧
      (ofInt64 v).mul (ofInt64 w) = some (ofInt64 z)) ∨
    ¬ (-2 ^ 63 ≤ v.toInt * w.toInt ∧ v.toInt * w.toInt < 2 ^ 63) ∧
      (ofInt64 v).mul (ofInt64 w) = none := by
  have hproduct : product (ofInt64 v) (ofInt64 w) = v.toInt * w.toInt * 2 ^ 64 :=
    product_ofInt64 v w
  obtain ⟨hyes, hno⟩ := mul_eq (ofInt64 v) (ofInt64 w)
  rw [hproduct, Representable] at hyes hno
  by_cases hrep : -2 ^ 63 ≤ v.toInt * w.toInt ∧ v.toInt * w.toInt < 2 ^ 63
  · obtain ⟨⟨y, hy, hvalue⟩, -⟩ := hyes (by omega)
    have hz : (BitVec.ofInt 64 (v.toInt * w.toInt)).toInt = v.toInt * w.toInt := by
      rw [BitVec.toInt_ofInt, Int.bmod_eq_of_le (by omega) (by omega)]
    refine .inl ⟨_, hz, ?_⟩
    rw [hy, eq_ofInt64 (hvalue.trans (by rw [hz]))]
  · exact .inr ⟨hrep, hno (by omega)⟩

/-! ## Inverses -/

/-- Without a low word of the number the truncated product is that of all words. -/
theorem umulByInvert_eq {a b : UInt128} {k : ℕ} (ha : a.toNat = k * 2 ^ 64) (hk : k ≤ 2 ^ 63)
    (hb : b.toNat ≤ 2 ^ 127) :
    ∃ r, umulByInvert a b = some r ∧ r.toNat = k * b.toNat / 2 ^ 64 := by
  have hparts := @partsFit a b (by omega) hb
  have hlow : (low a).toNat = 0 := by
    rw [toNat_low]
    omega
  have hhigh : (high a).toNat = k := by
    rw [toNat_high]
    omega
  have hmid : (mid a b >>> 64).toNat = k * (b.toNat % 2 ^ 64) / 2 ^ 64 := by
    rw [BitVec.toNat_ushiftRight, Nat.shiftRight_eq_div_pow, hparts.mid, hparts.highLow,
      hparts.lowHigh, hlow, hhigh, toNat_low, Nat.zero_mul, Nat.add_zero]
  have hproduct : k * (b.toNat / 2 ^ 64) + k * (b.toNat % 2 ^ 64) / 2 ^ 64 =
      k * b.toNat / 2 ^ 64 := by
    rw [mul_words (Nat.two_pow_pos 64), Nat.div_add_mod']
  have hsum : (high a * high b + mid a b >>> 64).toNat = k * b.toNat / 2 ^ 64 := by
    have hle : k * b.toNat ≤ 2 ^ 63 * 2 ^ 127 := Nat.mul_le_mul hk hb
    have htop : (high a * high b).toNat = k * (b.toNat / 2 ^ 64) := by
      rw [hparts.highest, hhigh, toNat_high]
    rw [toNat_add_of_lt (by omega), htop, hmid, hproduct]
  exact ⟨_, if_pos (BitVec.le_def.2 hb), hsum⟩

/-- A multiple of an integer times the inverse of that integer. -/
theorem mulByInvert_ofInt64 {r : ℕ} (hinv : IsReciprocal (2 ^ 64) r inv.v.toNat)
    (hle : inv.v.toNat ≤ 2 ^ 127) (hz : z.toInt = n.toInt * r) (hr : 0 < r) :
    (ofInt64 z).mulByInvert inv = some (ofInt64 n) := by
  obtain ⟨hmag, -⟩ := toNat_magnitude (ofInt64 z).v
  obtain ⟨hzLe, hzLt⟩ := toInt_bounds z
  have habs : z.toInt.natAbs = n.toInt.natAbs * r := by
    rw [hz, Int.natAbs_mul, Int.natAbs_natCast]
  rw [toInt_ofInt64, Int.natAbs_mul] at hmag
  obtain ⟨result, hresult, hvalue⟩ := umulByInvert_eq hmag (by omega) hle
  rw [habs, mul_reciprocal hinv (by omega)] at hvalue
  have hnLe : n.toInt.natAbs ≤ 2 ^ 63 := by
    have hmul := Nat.le_mul_of_pos_right n.toInt.natAbs hr
    omega
  have hneg : z.toInt < 0 ↔ n.toInt < 0 := by
    rw [hz, ← not_le, ← not_le, mul_nonneg_iff_of_pos_right (Int.natCast_pos.2 hr)]
  rw [mulByInvert]
  rw [toInt_ofInt64, hresult, Option.map_some]
  refine congrArg some (eq_ofInt64 ?_)
  dsimp only
  split_ifs with hsign
  · rw [decide_eq_true_eq] at hsign
    rw [@toInt_neg_of_le result (by omega)]
    omega
  · rw [decide_eq_true_eq] at hsign
    obtain ⟨-, hnLt⟩ := toInt_bounds n
    rw [@toInt_of_lt result (by omega)]
    omega

theorem ofWords_zero (v : BitVec 64) : ofWords v 0 = ofInt64 v :=
  congrArg Int64x64.mk BitVec.or_zero

/-- The inverse of an integer is rounded up. -/
theorem invert_eq (hv : 1 < v.toInt) : ∃ inv, invert v = some inv ∧
    IsReciprocal (2 ^ 64) v.toNat inv.v.toNat ∧ inv.v.toNat ≤ 2 ^ 127 := by
  have hlt := v.isLt
  have hcond := BitVec.toInt_eq_toNat_cond v
  have hnat : 1 < v.toNat ∧ v.toNat < 2 ^ 63 := by
    split_ifs at hcond <;> omega
  have hwide : (v.setWidth 128).toNat = v.toNat := by
    rw [BitVec.toNat_setWidth]
    omega
  have hne : v.setWidth 128 ≠ 0 := by
    intro hzero
    rw [hzero] at hwide
    change 0 = v.toNat at hwide
    omega
  have hudiv := @udiv_eq ((1 : UInt128) <<< 64) (v.setWidth 128) (by omega) hne 65 le_rfl
  have hone : ((1 : UInt128) <<< 64).toNat = 2 ^ 64 := rfl
  rw [hwide, hone] at hudiv
  have hquo : (BitVec.ofNat 128 (2 ^ 64 * 2 ^ 64 / v.toNat)).toNat =
      2 ^ 64 * 2 ^ 64 / v.toNat := by
    have hdiv : 2 ^ 64 * 2 ^ 64 / v.toNat < 2 ^ 128 := Nat.div_lt_self (by decide) hnat.1
    rw [BitVec.toNat_ofNat, Nat.mod_eq_of_lt hdiv]
  have hrecip := @isReciprocal_div (2 ^ 64) v.toNat (by omega)
  have hmul : 2 ^ 64 * 2 ^ 64 / v.toNat * v.toNat ≤ 2 ^ 64 * 2 ^ 64 := Nat.div_mul_le_self _ _
  have hhalf : 2 ^ 64 * 2 ^ 64 / v.toNat ≤ 2 ^ 127 :=
    Nat.div_le_of_le_mul (by omega)
  have hlt1 : 1 < v := BitVec.lt_def.2 hnat.1
  rw [invert, if_pos hlt1, hudiv, Option.bind_some, ofWords_zero]
  clear hudiv
  generalize 2 ^ 64 * 2 ^ 64 / v.toNat = quo at hquo hrecip hmul hhalf ⊢
  generalize BitVec.ofNat 128 quo = result at hquo ⊢
  subst hquo
  have hint := toInt_ofInt64 v
  have hwords : (ofInt64 v).v.toNat = v.toNat * 2 ^ 64 := by
    have hwide := BitVec.toInt_eq_toNat_cond (ofInt64 v).v
    split_ifs at hwide hcond <;> omega
  obtain ⟨tmp, htmp, hvalue⟩ := umulByInvert_eq hwords (by omega) hhalf
  have hsign : decide ((ofInt64 v).v.toInt < 0) = false := decide_eq_false (by omega)
  rw [mulByInvert, hsign, if_neg Bool.false_ne_true, htmp, Option.map_some, Option.map_some]
  have hhigh : (⟨tmp⟩ : Int64x64).getHigh = 1 ↔
      result.toNat * v.toNat = 2 ^ 64 * 2 ^ 64 := by
    rw [Nat.mul_comm] at hvalue
    have htmpLt : tmp.toNat < 2 ^ 127 := by omega
    rw [← BitVec.toInt_inj, toInt_getHigh, toInt_of_lt htmpLt, hvalue]
    change _ = (1 : ℤ) ↔ _
    omega
  have hsucc : (result + 1).toNat = result.toNat + 1 := toNat_add_of_lt (by
    change result.toNat + 1 < 2 ^ 128
    omega)
  refine ⟨_, rfl, ?_⟩
  have hspec : (if (⟨tmp⟩ : Int64x64).getHigh ≠ 1 then result + 1 else result).toNat =
      if result.toNat * v.toNat = 2 ^ 64 * 2 ^ 64 then result.toNat else result.toNat + 1 := by
    rw [ite_not, apply_ite BitVec.toNat, hsucc]
    exact if_congr hhigh rfl rfl
  have hinv : IsReciprocal (2 ^ 64) v.toNat
      (if (⟨tmp⟩ : Int64x64).getHigh ≠ 1 then result + 1 else result).toNat := by
    rw [hspec]
    exact hrecip
  exact ⟨hinv, hinv.le_half hnat.1 (by norm_num)⟩

end Int64x64

end Ns3Pedca
