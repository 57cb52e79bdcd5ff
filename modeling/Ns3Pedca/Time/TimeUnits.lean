import Ns3Pedca.Time.Int64x64Invert

/-!
# Conversions of time units

`Time` counts units of the resolution. `information` is what `SetResolution` stores for a unit :
the ratio of both units, and whether a conversion multiplies with it or with its inverse.
`fromInteger` and `toInteger` convert integers, `fromInt64x64` and `toInt64x64` fixed-point
numbers.

The fixed-point conversions are exact where the result is an integer (`fromInt64x64_of_exact`,
`toInt64x64_of_exact`), so rounding to a unit is idempotent (`roundTo_of_roundTo`). The integer
path takes an unsigned argument. A negative one is converted right only if the path multiplies
(`fromInteger_eq_iff`).
-/

namespace Ns3Pedca

open FixedPoint Int64x64

namespace NsTime

/-- `Time::Unit`. -/
inductive Unit
  | y | d | h | min | s | ms | us | ns | ps | fs
  deriving DecidableEq

/-- `UNIT_POWER`. -/
def unitPower : Unit → ℕ
  | .y => 17
  | .d => 17
  | .h => 17
  | .min => 16
  | .s => 15
  | .ms => 12
  | .us => 9
  | .ns => 6
  | .ps => 3
  | .fs => 0

/-- `UNIT_COEFF`. -/
def unitCoeff : Unit → ℕ
  | .y => 315360
  | .d => 864
  | .h => 36
  | .min => 6
  | _ => 1

/-- `Scale`. -/
def scale (u : Unit) : ℕ :=
  unitCoeff u * 10 ^ unitPower u

/-- `Time::Information`. -/
structure Information where
  toMul : Bool
  fromMul : Bool
  factor : BitVec 64
  timeTo : Int64x64
  timeFrom : Int64x64
  isValid : Bool
  deriving DecidableEq

/-- `quotient` in `SetResolution`, which fails if an assertion does. -/
def quotient (unit i : Unit) : Option ℕ :=
  if unitCoeff unit < unitCoeff i then
    let quotient := unitCoeff i / unitCoeff unit
    if quotient * unitCoeff unit = unitCoeff i then some quotient else none
  else if unitCoeff i < unitCoeff unit then
    let quotient := unitCoeff unit / unitCoeff i
    if quotient * unitCoeff i = unitCoeff unit then some quotient else none
  else some 1

/-- `shift` in `SetResolution`. -/
def shift (unit i : Unit) : ℤ :=
  unitPower i - unitPower unit

/-- What `SetResolution` for `unit` stores for the unit `i`, if no assertion fails. -/
def information (unit i : Unit) : Option Information :=
  (quotient unit i).bind fun quotient =>
    if 2 ^ 63 < 10 ^ (shift unit i).natAbs * quotient then
      some ⟨false, false, 0, ⟨0⟩, ⟨0⟩, false⟩
    else
      let factor := BitVec.ofNat 64 (10 ^ (shift unit i).natAbs * quotient)
      let realFactor : ℚ := 10 ^ shift unit i * unitCoeff i / unitCoeff unit
      if shift unit i = 0 ∧ quotient = 1 then
        some ⟨true, true, factor, ofInt64 1, ofInt64 1, true⟩
      else if 1 < realFactor then
        (invert factor).map fun inverse =>
          ⟨false, true, factor, inverse, ofInt64 factor, true⟩
      else if realFactor < 1 then
        (invert factor).map fun inverse =>
          ⟨true, false, factor, ofInt64 factor, inverse, true⟩
      else none

/-- `PeekInformation`, if the unit is available. -/
def peekInformation (resolution unit : Unit) : Option Information :=
  (information resolution unit).filter Information.isValid

/-- `FromInteger`. -/
def fromInteger (resolution : Unit) (value : BitVec 64) (unit : Unit) : Option (BitVec 64) :=
  if value = 0 then some 0
  else (peekInformation resolution unit).map fun info =>
    if info.fromMul then value * info.factor else value / info.factor

/-- `From`. -/
def fromInt64x64 (resolution : Unit) (value : Int64x64) (unit : Unit) : Option (BitVec 64) :=
  if value.v = 0 then some 0
  else (peekInformation resolution unit).bind fun info =>
    (if info.fromMul then value.mul info.timeFrom else value.mulByInvert info.timeFrom).map
      round

/-- `ToInteger`. -/
def toInteger (resolution : Unit) (data : BitVec 64) (unit : Unit) : Option (BitVec 64) :=
  if data = 0 then some 0
  else (peekInformation resolution unit).map fun info =>
    if info.toMul then data * info.factor else data.sdiv info.factor

/-- `To`. -/
def toInt64x64 (resolution : Unit) (data : BitVec 64) (unit : Unit) : Option Int64x64 :=
  if data = 0 then some (ofInt64 0)
  else (peekInformation resolution unit).bind fun info =>
    if info.toMul then (ofInt64 data).mul info.timeTo
    else (ofInt64 data).mulByInvert info.timeTo

/-- `RoundTo`. -/
def roundTo (resolution : Unit) (data : BitVec 64) (unit : Unit) : Option (BitVec 64) :=
  (toInt64x64 resolution data unit).bind fun value =>
    fromInt64x64 resolution (ofInt64 value.round) unit

/-- The unit is available. -/
def Valid (resolution unit : Unit) : Prop :=
  (peekInformation resolution unit).isSome = true

/-- A conversion multiplies with the factor, or with its inverse. -/
structure Multiplies (mul : Bool) (factor : BitVec 64) (t : Int64x64) : Prop where
  eq : mul = true → t = ofInt64 factor
  inverse : mul = false → IsReciprocal (2 ^ 64) factor.toNat t.v.toNat ∧ t.v.toNat ≤ 2 ^ 127

/-- What is stored for a unit. -/
structure Describes (resolution unit : Unit) (info : Information) : Prop where
  pos : 0 < info.factor.toInt
  coarser : scale resolution ≤ scale unit →
    (scale unit : ℤ) = info.factor.toInt * scale resolution
  finer : scale unit ≤ scale resolution →
    (scale resolution : ℤ) = info.factor.toInt * scale unit
  fromMul : info.fromMul = true ↔ scale resolution ≤ scale unit
  toMul : info.toMul = true ↔ scale unit ≤ scale resolution
  timeFrom : Multiplies info.fromMul info.factor info.timeFrom
  timeTo : Multiplies info.toMul info.factor info.timeTo

/-! ## The stored information -/

variable {resolution unit i u : Unit} {info : Information} {v z t : BitVec 64}

/-- The ratio of two units, of whichever is coarser to the other. -/
def ratio (unit i : Unit) : ℕ :=
  10 ^ (shift unit i).natAbs *
    (max (unitCoeff unit) (unitCoeff i) / min (unitCoeff unit) (unitCoeff i))

theorem quotient_eq (unit i : Unit) : quotient unit i =
    some (max (unitCoeff unit) (unitCoeff i) / min (unitCoeff unit) (unitCoeff i)) := by
  cases unit <;> cases i <;> rfl

theorem ratio_mul (unit i : Unit) :
    ratio unit i * min (scale unit) (scale i) = max (scale unit) (scale i) := by
  cases unit <;> cases i <;> decide

theorem scale_pos (u : Unit) : 0 < scale u := by
  cases u <;> decide

/-- Only the same unit has neither a shift nor a quotient. -/
theorem scale_eq_iff (unit i : Unit) : shift unit i = 0 ∧
    max (unitCoeff unit) (unitCoeff i) / min (unitCoeff unit) (unitCoeff i) = 1 ↔
      scale unit = scale i := by
  cases unit <;> cases i <;> decide

theorem realFactor_eq (unit i : Unit) :
    (10 : ℚ) ^ shift unit i * unitCoeff i / unitCoeff unit = scale i / scale unit := by
  rw [shift, zpow_sub₀ (by norm_num), zpow_natCast, zpow_natCast, scale, scale]
  push_cast
  rw [div_mul_eq_mul_div, div_div, mul_comm (unitCoeff i : ℚ), mul_comm (unitCoeff unit : ℚ)]

/-- The ratio is the factor, and fits in a word. -/
theorem toInt_ratio {n : ℕ} (h : ¬ 2 ^ 63 < n) (hne : n ≠ 2 ^ 63) :
    (BitVec.ofNat 64 n).toInt = n := by
  have hcond := BitVec.toInt_eq_toNat_cond (BitVec.ofNat 64 n)
  rw [BitVec.toNat_ofNat] at hcond
  split_ifs at hcond <;> omega

theorem ratio_ne (unit i : Unit) : ratio unit i ≠ 2 ^ 63 := by
  cases unit <;> cases i <;> decide

theorem multiplies_ofInt64 (v : BitVec 64) : Multiplies true v (ofInt64 v) :=
  ⟨fun _ => rfl, fun h => absurd h Bool.false_ne_true.symm⟩

theorem multiplies_invert {inv : Int64x64} (hv : 1 < v.toInt) (h : invert v = some inv) :
    Multiplies false v inv := by
  obtain ⟨inv', hinv, hspec⟩ := invert_eq hv
  rw [h] at hinv
  obtain rfl := Option.some.inj hinv
  exact ⟨fun h => absurd h Bool.false_ne_true, fun _ => hspec⟩

theorem information_eq (unit i : Unit) : information unit i =
    if 2 ^ 63 < ratio unit i then some ⟨false, false, 0, ⟨0⟩, ⟨0⟩, false⟩
    else if scale unit = scale i then
      some ⟨true, true, BitVec.ofNat 64 (ratio unit i), ofInt64 1, ofInt64 1, true⟩
    else if scale unit < scale i then
      (invert (BitVec.ofNat 64 (ratio unit i))).map fun inverse =>
        ⟨false, true, BitVec.ofNat 64 (ratio unit i), inverse,
          ofInt64 (BitVec.ofNat 64 (ratio unit i)), true⟩
    else if scale i < scale unit then
      (invert (BitVec.ofNat 64 (ratio unit i))).map fun inverse =>
        ⟨true, false, BitVec.ofNat 64 (ratio unit i),
          ofInt64 (BitVec.ofNat 64 (ratio unit i)), inverse, true⟩
    else none := by
  have hunit : (0 : ℚ) < scale unit := Nat.cast_pos.2 (scale_pos unit)
  rw [information, quotient_eq, Option.bind_some]
  simp only [scale_eq_iff, realFactor_eq, one_lt_div hunit, div_lt_one hunit, Nat.cast_lt]
  rfl

/-- Different units have a ratio above one. -/
theorem one_lt_ratio {n a b : ℕ} (hmul : n * a = b) (hlt : a < b) : 1 < n := by
  by_contra hle
  have hb := Nat.mul_le_mul_right a (not_lt.1 hle)
  omega

/-- What an available unit stores. -/
theorem describes (h : peekInformation resolution unit = some info) :
    Describes resolution unit info := by
  obtain ⟨hinfo, hvalid⟩ := Option.filter_eq_some_iff.1 h
  clear h
  rw [information_eq] at hinfo
  have hmul := ratio_mul resolution unit
  have hne := ratio_ne resolution unit
  by_cases hbig : 2 ^ 63 < ratio resolution unit
  · rw [if_pos hbig] at hinfo
    obtain rfl := Option.some.inj hinfo
    exact absurd hvalid Bool.false_ne_true
  rw [if_neg hbig] at hinfo
  have hfactor := toInt_ratio hbig hne
  generalize BitVec.ofNat 64 (ratio resolution unit) = factor at hinfo hfactor
  rcases lt_trichotomy (scale resolution) (scale unit) with hlt | hsame | hlt
  · rw [if_neg hlt.ne, if_pos hlt] at hinfo
    rw [min_eq_left hlt.le, max_eq_right hlt.le] at hmul
    have hone : 1 < factor.toInt := by
      have hratio := one_lt_ratio hmul hlt
      omega
    obtain ⟨inv, hinv, rfl⟩ := Option.map_eq_some_iff.1 hinfo
    exact {
      pos := zero_lt_one.trans hone
      coarser := fun _ => by rw [hfactor, ← hmul, Nat.cast_mul]
      finer := fun hle => absurd hlt (not_lt.2 hle)
      fromMul := iff_of_true rfl hlt.le
      toMul := iff_of_false Bool.false_ne_true (not_le.2 hlt)
      timeFrom := multiplies_ofInt64 _
      timeTo := multiplies_invert hone hinv }
  · rw [if_pos hsame] at hinfo
    rw [hsame, min_self, max_self, Nat.mul_eq_right (scale_pos unit).ne'] at hmul
    have hone : factor = 1 := BitVec.eq_of_toInt_eq (by rw [hfactor, hmul]; rfl)
    obtain rfl := Option.some.inj hinfo
    subst hone
    exact {
      pos := by decide
      coarser := fun _ => by rw [hsame, hfactor, hmul, Nat.cast_one, one_mul]
      finer := fun _ => by rw [hsame, hfactor, hmul, Nat.cast_one, one_mul]
      fromMul := iff_of_true rfl hsame.le
      toMul := iff_of_true rfl hsame.ge
      timeFrom := multiplies_ofInt64 1
      timeTo := multiplies_ofInt64 1 }
  · rw [if_neg hlt.ne', if_neg (lt_asymm hlt), if_pos hlt] at hinfo
    rw [min_eq_right hlt.le, max_eq_left hlt.le] at hmul
    have hone : 1 < factor.toInt := by
      have hratio := one_lt_ratio hmul hlt
      omega
    obtain ⟨inv, hinv, rfl⟩ := Option.map_eq_some_iff.1 hinfo
    exact {
      pos := zero_lt_one.trans hone
      coarser := fun hle => absurd hlt (not_lt.2 hle)
      finer := fun _ => by rw [hfactor, ← hmul, Nat.cast_mul]
      fromMul := iff_of_false Bool.false_ne_true (not_le.2 hlt)
      toMul := iff_of_true rfl hlt.le
      timeFrom := multiplies_invert hone hinv
      timeTo := multiplies_ofInt64 _ }

/-! ## The fixed-point path -/

/-- A conversion, if it is exact. -/
theorem convert_ofInt64 {mul : Bool} {factor x y : BitVec 64} {t : Int64x64}
    (ht : Multiplies mul factor t) (hpos : 0 < factor.toInt)
    (hmul : mul = true → y.toInt = x.toInt * factor.toInt)
    (hdiv : mul = false → x.toInt = y.toInt * factor.toInt) :
    (if mul then (ofInt64 x).mul t else (ofInt64 x).mulByInvert t) = some (ofInt64 y) := by
  cases mul with
  | true =>
    rw [if_pos rfl, ht.eq rfl]
    obtain ⟨w, hw, hproduct⟩ | ⟨hnot, -⟩ := mul_ofInt64 x factor
    · rw [hproduct, BitVec.eq_of_toInt_eq (hw.trans (hmul rfl).symm)]
    · rw [← hmul rfl] at hnot
      exact absurd (toInt_bounds y) hnot
  | false =>
    rw [if_neg Bool.false_ne_true]
    obtain ⟨hinv, hle⟩ := ht.inverse rfl
    have hcond := BitVec.toInt_eq_toNat_cond factor
    have hlt := factor.isLt
    have hnat : factor.toInt = factor.toNat := by
      split_ifs at hcond <;> omega
    rw [hnat] at hdiv
    exact mulByInvert_ofInt64 hinv hle (hdiv rfl) (by omega)

/-- What a value in the unit is in the resolution. -/
def Exact (resolution unit : Unit) (v z : BitVec 64) : Prop :=
  v.toInt * scale unit = z.toInt * scale resolution

theorem Exact.coarser (h : Exact resolution unit v z) (hinfo : Describes resolution unit info)
    (hle : scale resolution ≤ scale unit) : z.toInt = v.toInt * info.factor.toInt := by
  rw [Exact, hinfo.coarser hle, ← mul_assoc] at h
  exact (mul_right_cancel₀ (Nat.cast_ne_zero.2 (scale_pos resolution).ne') h).symm

theorem Exact.finer (h : Exact resolution unit v z) (hinfo : Describes resolution unit info)
    (hle : scale unit ≤ scale resolution) : v.toInt = z.toInt * info.factor.toInt := by
  rw [Exact, hinfo.finer hle, ← mul_assoc] at h
  exact mul_right_cancel₀ (Nat.cast_ne_zero.2 (scale_pos unit).ne') h

theorem Exact.eq_zero_iff (h : Exact resolution unit v z) : v = 0 ↔ z = 0 := by
  have hunit : (scale unit : ℤ) ≠ 0 := Nat.cast_ne_zero.2 (scale_pos unit).ne'
  have hres : (scale resolution : ℤ) ≠ 0 := Nat.cast_ne_zero.2 (scale_pos resolution).ne'
  rw [← BitVec.toInt_inj, ← BitVec.toInt_inj]
  change v.toInt = (0 : ℤ) ↔ z.toInt = (0 : ℤ)
  constructor <;> intro hzero
  · rw [Exact, hzero, zero_mul, zero_eq_mul] at h
    exact h.resolve_right hres
  · rw [Exact, hzero, zero_mul, mul_eq_zero] at h
    exact h.resolve_right hunit

theorem ofInt64_v_eq_zero_iff : (ofInt64 v).v = 0 ↔ v = 0 := by
  rw [← BitVec.toInt_inj, ← BitVec.toInt_inj, toInt_ofInt64]
  change _ = (0 : ℤ) ↔ _ = (0 : ℤ)
  omega

/-- `From` is exact, if the result is an integer. -/
theorem fromInt64x64_of_exact (hvalid : Valid resolution unit) (h : Exact resolution unit v z) :
    fromInt64x64 resolution (ofInt64 v) unit = some z := by
  obtain ⟨info, hpeek⟩ := Option.isSome_iff_exists.1 hvalid
  have hinfo := describes hpeek
  by_cases hv : v = 0
  · rw [fromInt64x64, if_pos (ofInt64_v_eq_zero_iff.2 hv), h.eq_zero_iff.1 hv]
  · have hconv := convert_ofInt64 hinfo.timeFrom hinfo.pos
      (fun hmul => h.coarser hinfo (hinfo.fromMul.1 hmul))
      (fun hdiv => h.finer hinfo (by
        by_contra hle
        rw [hinfo.fromMul.2 (not_le.1 hle).le] at hdiv
        exact Bool.noConfusion hdiv))
    rw [fromInt64x64, if_neg (fun hzero => hv (ofInt64_v_eq_zero_iff.1 hzero)), hpeek,
      Option.bind_some, hconv, Option.map_some, round_ofInt64]

/-- `To` is exact, if the result is an integer. -/
theorem toInt64x64_of_exact (hvalid : Valid resolution unit) (h : Exact resolution unit v z) :
    toInt64x64 resolution z unit = some (ofInt64 v) := by
  obtain ⟨info, hpeek⟩ := Option.isSome_iff_exists.1 hvalid
  have hinfo := describes hpeek
  by_cases hz : z = 0
  · rw [toInt64x64, if_pos hz, h.eq_zero_iff.2 hz]
  · have hconv := convert_ofInt64 hinfo.timeTo hinfo.pos
      (fun hmul => h.finer hinfo (hinfo.toMul.1 hmul))
      (fun hdiv => h.coarser hinfo (by
        by_contra hle
        rw [hinfo.toMul.2 (not_le.1 hle).le] at hdiv
        exact Bool.noConfusion hdiv))
    rw [toInt64x64, if_neg hz, hpeek, Option.bind_some, hconv]

theorem roundTo_of_exact (hvalid : Valid resolution unit) (h : Exact resolution unit v z) :
    roundTo resolution z unit = some z := by
  rw [roundTo, toInt64x64_of_exact hvalid h, Option.bind_some, round_ofInt64,
    fromInt64x64_of_exact hvalid h]

theorem roundTo_zero (resolution unit : Unit) : roundTo resolution 0 unit = some 0 := by
  rw [roundTo, toInt64x64, if_pos rfl, Option.bind_some, round_ofInt64, fromInt64x64,
    if_pos (ofInt64_v_eq_zero_iff.2 rfl)]

/-- A product of integers that passes the assertions. -/
theorem ofInt64_of_mul {v w : BitVec 64} {x : Int64x64}
    (h : (ofInt64 v).mul (ofInt64 w) = some x) :
    ∃ z : BitVec 64, z.toInt = v.toInt * w.toInt ∧ x = ofInt64 z := by
  obtain ⟨z, hz, hproduct⟩ | ⟨-, hnone⟩ := mul_ofInt64 v w
  · rw [hproduct] at h
    exact ⟨z, hz, (Option.some.inj h).symm⟩
  · rw [hnone] at h
    exact absurd h (Option.some_ne_none x).symm

/-- A rounded time is a whole number of units. -/
theorem exact_of_roundTo (h : roundTo resolution t unit = some z) (ht : t ≠ 0) (hz : z ≠ 0) :
    Valid resolution unit ∧ ∃ n, Exact resolution unit n z := by
  rw [roundTo, toInt64x64, if_neg ht] at h
  obtain ⟨y, hy, hfrom⟩ := Option.bind_eq_some_iff.1 h
  obtain ⟨info, hpeek, hto⟩ := Option.bind_eq_some_iff.1 hy
  have hinfo := describes hpeek
  have hvalid : Valid resolution unit := Option.isSome_iff_exists.2 ⟨info, hpeek⟩
  refine ⟨hvalid, ?_⟩
  rcases le_total (scale resolution) (scale unit) with hle | hle
  · have hmul := hinfo.fromMul.2 hle
    have hne : ¬ (ofInt64 y.round).v = 0 := by
      intro hzero
      rw [fromInt64x64, if_pos hzero] at hfrom
      exact hz (Option.some.inj hfrom).symm
    rw [fromInt64x64, if_neg hne, hpeek, Option.bind_some, if_pos hmul,
      hinfo.timeFrom.eq hmul] at hfrom
    obtain ⟨p, hp, hround⟩ := Option.map_eq_some_iff.1 hfrom
    obtain ⟨w, hw, rfl⟩ := ofInt64_of_mul hp
    rw [round_ofInt64] at hround
    subst hround
    exact ⟨y.round, by rw [Exact, hw, hinfo.coarser hle, mul_assoc]⟩
  · have hmul := hinfo.toMul.2 hle
    rw [if_pos hmul, hinfo.timeTo.eq hmul] at hto
    obtain ⟨w, hw, rfl⟩ := ofInt64_of_mul hto
    have hexact : Exact resolution unit w t := by
      rw [Exact, hw, hinfo.finer hle, mul_assoc]
    rw [round_ofInt64, fromInt64x64_of_exact hvalid hexact] at hfrom
    obtain rfl := Option.some.inj hfrom
    exact ⟨w, hexact⟩

/-- A time that is rounded already stays. -/
theorem roundTo_of_roundTo (h : roundTo resolution t unit = some z) :
    roundTo resolution z unit = some z := by
  by_cases ht : t = 0
  · rw [ht, roundTo_zero] at h
    obtain rfl := Option.some.inj h
    exact roundTo_zero resolution unit
  · by_cases hz : z = 0
    · rw [hz, roundTo_zero]
    · obtain ⟨hvalid, n, hexact⟩ := exact_of_roundTo h ht hz
      exact roundTo_of_exact hvalid hexact

/-! ## The integer path -/

theorem toNat_of_toInt_nonneg (h : 0 ≤ v.toInt) : (v.toNat : ℤ) = v.toInt := by
  have hlt := v.isLt
  have hcond := BitVec.toInt_eq_toNat_cond v
  split_ifs at hcond <;> omega

/-- An unsigned division is right for the numbers that are not negative. -/
theorem udiv_eq_iff {factor : BitVec 64} (hfactor : 1 < factor.toInt)
    (h : v.toInt = z.toInt * factor.toInt) : v / factor = z ↔ 0 ≤ v.toInt := by
  have hf := @toNat_of_toInt_nonneg factor (by omega)
  have hnonneg : 0 ≤ v.toInt ↔ 0 ≤ z.toInt := by
    rw [h, mul_nonneg_iff_of_pos_right (by omega)]
  rw [← BitVec.toNat_inj, BitVec.toNat_udiv]
  constructor
  · intro heq
    by_contra hneg
    have hz := BitVec.toInt_eq_toNat_cond z
    have hlt := z.isLt
    have hvlt := v.isLt
    have hhalf : v.toNat / factor.toNat ≤ v.toNat / 2 :=
      Nat.div_le_div_left (by omega) (by decide)
    split_ifs at hz <;> omega
  · intro hv
    have hvn := toNat_of_toInt_nonneg hv
    have hzn := toNat_of_toInt_nonneg (hnonneg.1 hv)
    refine Nat.div_eq_of_eq_mul_left (by omega) ?_
    rw [← hvn, ← hzn, ← hf] at h
    exact_mod_cast h

/-- `FromInteger` is right, unless it divides a negative number. -/
theorem fromInteger_eq_iff (hvalid : Valid resolution unit) (h : Exact resolution unit v z) :
    fromInteger resolution v unit = some z ↔ 0 ≤ v.toInt ∨ scale resolution ≤ scale unit := by
  obtain ⟨info, hpeek⟩ := Option.isSome_iff_exists.1 hvalid
  have hinfo := describes hpeek
  by_cases hv : v = 0
  · rw [fromInteger, if_pos hv, h.eq_zero_iff.1 hv, hv]
    exact iff_of_true rfl (.inl le_rfl)
  rw [fromInteger, if_neg hv, hpeek, Option.map_some, Option.some_inj]
  by_cases hle : scale resolution ≤ scale unit
  · rw [if_pos (hinfo.fromMul.2 hle)]
    refine iff_of_true (BitVec.eq_of_toInt_eq ?_) (.inr hle)
    rw [BitVec.toInt_mul, ← h.coarser hinfo hle, BitVec.toInt_bmod_cancel]
  · have hlt := not_le.1 hle
    have hone : 1 < info.factor.toInt := by
      by_contra hsmall
      have hpos := hinfo.pos
      have hratio := hinfo.finer hlt.le
      rw [show info.factor.toInt = 1 by omega] at hratio
      omega
    rw [if_neg (fun hmul => hle (hinfo.fromMul.1 hmul)),
      udiv_eq_iff hone (h.finer hinfo hlt.le)]
    exact ⟨.inl, fun hor => hor.resolve_right hle⟩

/-! ## The conversions together -/

theorem getHigh_ofInt64 (v : BitVec 64) : (ofInt64 v).getHigh = v := by
  refine BitVec.eq_of_toInt_eq ?_
  rw [toInt_getHigh, toInt_ofInt64, Int.mul_ediv_cancel _ (by decide)]

/-- The fixed-point conversions of a value `v` in a unit that is `z` in the resolution. -/
structure FixedPointExact (resolution unit : Unit) (v z : BitVec 64) : Prop where
  fromUnit : fromInt64x64 resolution (ofInt64 v) unit = some z
  toUnit : (toInt64x64 resolution z unit).map getHigh = some v
  roundTo : ∀ t t', roundTo resolution t unit = some t' → roundTo resolution t' unit = some t'
  inverse : ∀ r n m : BitVec 64, 1 < r.toInt → m.toInt = n.toInt * r.toInt →
    ∃ inv, invert r = some inv ∧ (ofInt64 m).mulByInvert inv = some (ofInt64 n)

/-- The fixed-point path is exact where the result is an integer, and the integer path agrees with
it, unless it divides a negative number. -/
theorem conversions_agree_iff (hvalid : Valid resolution unit)
    (h : Exact resolution unit v z) : FixedPointExact resolution unit v z ∧
      (fromInteger resolution v unit = fromInt64x64 resolution (ofInt64 v) unit ↔
        0 ≤ v.toInt ∨ scale resolution ≤ scale unit) := by
  have hfrom := fromInt64x64_of_exact hvalid h
  refine ⟨{
    fromUnit := hfrom
    toUnit := ?_
    roundTo := fun _ _ => roundTo_of_roundTo
    inverse := ?_ }, ?_⟩
  · rw [toInt64x64_of_exact hvalid h, Option.map_some, getHigh_ofInt64]
  · intro r n m hr hm
    obtain ⟨inv, hinv, hrecip, hle⟩ := invert_eq hr
    have hnat := @toNat_of_toInt_nonneg r (by omega)
    rw [← hnat] at hm
    exact ⟨inv, hinv, mulByInvert_ofInt64 hrecip hle hm (by omega)⟩
  · rw [hfrom, fromInteger_eq_iff hvalid h]

/-- A millisecond is converted to nanoseconds on both paths. -/
theorem conversions_agree_ms : FixedPointExact .ns .ms (-1) (-1000000) ∧
    (fromInteger .ns (-1) .ms = fromInt64x64 .ns (ofInt64 (-1)) .ms ↔
      0 ≤ (-1 : BitVec 64).toInt ∨ scale .ns ≤ scale .ms) :=
  conversions_agree_iff (by unfold Valid; decide +kernel) (by unfold Exact; decide)

/-- The integer path converts a thousand picoseconds in the past to a time in the future. -/
theorem fromInteger_negative : Valid .ns .ps ∧ Exact .ns .ps (-1000) (-1) ∧
    fromInteger .ns (-1000) .ps = some 18446744073709550 ∧
    fromInt64x64 .ns (ofInt64 (-1000)) .ps = some (-1) :=
  ⟨by unfold Valid; decide +kernel, by unfold Exact; decide, by decide +kernel,
    by decide +kernel⟩

end NsTime

end Ns3Pedca
