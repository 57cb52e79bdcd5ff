import Ns3Pedca.Time.Int64x64Invert

/-!
# Printing and reading `int64x64_t`

`print` is `operator<<` with the default flags : at most 20 digits of the fraction, and a last one
that is rounded in the text, where a carry walks backwards. `read` is `operator>>`. It divides for
each digit of the fraction, from the last one.

The text is off by at most six tenths of its last place, which is a ninth of the last bit, and the
divisions by five ninths of it. So the fraction is read as it was (`printMagnitude_eq`), and the
number as well (`read_print`).
-/

namespace Ns3Pedca

open FixedPoint

namespace Int64x64

/-- `operator-=`. -/
def sub (x o : Int64x64) : Int64x64 :=
  ⟨x.v - o.v⟩

/-! ## Printing -/

/-- The next digit in `operator<<`, and what is left, if no assertion fails. -/
def takeDigit (low : Int64x64) : Option (BitVec 64 × Int64x64) :=
  (low.mul (ofInt64 10)).bind fun low =>
    let digit := low.getHigh
    if 0 ≤ digit.toInt ∧ digit.toInt ≤ 9 then some (digit, low.sub (ofInt64 digit)) else none

/-- What `oss << digit` prints. -/
def showDigit (digit : BitVec 64) : List Char :=
  Nat.toDigits 10 digit.toNat

/-- The loop over the places. After the next one `n` more may be printed. The results are the text,
the last digit, and what is left. -/
def printDigits : ℕ → Int64x64 → Option (List Char × BitVec 64 × Int64x64)
  | 0, low => (takeDigit low).map fun s => (showDigit s.1, s)
  | n + 1, low =>
    (takeDigit low).bind fun s =>
      if s.2.getLow ≠ 0 then
        (printDigits n s.2).map fun r => (showDigit s.1 ++ r.1, r.2)
      else some (showDigit s.1, s)

/-- `++` on a character. -/
def nextChar (c : Char) : Char :=
  Char.ofNat (c.toNat + 1)

/-- The walk of a carry over the reversed text, and whether it is still there at the end. -/
def walkCarry : List Char → List Char × Bool
  | [] => ([], true)
  | c :: rest =>
    if c = '.' then
      let r := walkCarry rest
      ('.' :: r.1, r.2)
    else if nextChar c ≤ '9' then (nextChar c :: rest, false)
    else
      let r := walkCarry rest
      ('0' :: r.1, r.2)

/-- The text with the last digit rounded up. -/
def roundUp (digits : List Char) : List Char :=
  let r := walkCarry digits.reverse
  if r.2 then '1' :: r.1.reverse else r.1.reverse

/-- The integer and the fraction that are printed. -/
def magnitude (value : Int64x64) : BitVec 64 × Int64x64 :=
  if value ≠ ofWords ((1 : BitVec 64) <<< 63) 0 then
    let absVal := if value.v.toInt < 0 then value.neg else value
    (absVal.getHigh, ofWords 0 absVal.getLow)
  else ((1 : BitVec 64) <<< 63, ⟨0⟩)

/-- `operator<<` without the sign. -/
def printMagnitude (hi : BitVec 64) (low : Int64x64) : Option (List Char) :=
  (printDigits 19 low).bind fun r =>
    let digits := Nat.toDigits 10 hi.toNat ++ '.' :: r.1
    (r.2.2.mul (ofInt64 10)).map fun low =>
      let nextDigit := low.getHigh
      if 5 < nextDigit.toInt ∨ nextDigit.toInt = 5 ∧ r.2.1.toInt.tmod 2 = 1 then roundUp digits
      else digits

/-- `operator<<`. -/
def print (value : Int64x64) : Option (List Char) :=
  let m := magnitude value
  (printMagnitude m.1 m.2).map fun digits =>
    (if value.v.toInt < 0 then '-' else '+') :: digits

/-! ## Reading -/

/-- `ReadHiDigits`. -/
def readHiDigits (str : List Char) : BitVec 64 :=
  str.foldl (fun retval c => retval * 10 + BitVec.ofInt 64 (c.toNat - 48)) 0

/-- A round of `ReadLoDigits`, if no assertion fails. -/
def readLoDigit (low : Int64x64) (c : Char) : Option Int64x64 :=
  let digit : ℤ := c.toNat - 48
  if 0 ≤ digit ∧ digit ≤ 9 then
    ((low.add (ofInt64 (BitVec.ofInt 64 digit))).add (ofWords 0 5)).div 65 (ofInt64 10)
  else none

/-- `ReadLoDigits`. -/
def readLoDigits (str : List Char) : Option (BitVec 64) :=
  (str.reverse.foldlM readLoDigit ⟨0⟩).map getLow

/-- `operator>>` after the sign. -/
def readMagnitude (str : List Char) : Option Int64x64 :=
  if '.' ∈ str then
    (readLoDigits (str.dropWhile (· ≠ '.')).tail).map
      (ofWords (readHiDigits (str.takeWhile (· ≠ '.'))))
  else some (ofWords (readHiDigits str) 0)

/-- `operator>>`. -/
def read (str : List Char) : Option Int64x64 :=
  let str := str.dropWhile (· = ' ')
  if '-' ∈ str then (readMagnitude (str.dropWhile (· ≠ '-')).tail).map neg
  else if '+' ∈ str then readMagnitude (str.dropWhile (· ≠ '+')).tail
  else readMagnitude str

/-! ## Digits -/

variable {low : Int64x64} {d : ℕ} {ds : List ℕ} {text : List Char}

theorem toNat_eq_of_toInt {x : UInt128} {n : ℕ} (h : x.toInt = n) : x.toNat = n := by
  have hcond := BitVec.toInt_eq_toNat_cond x
  have hlt := x.isLt
  split_ifs at hcond <;> omega

theorem toInt_ofInt64_ofNat (hd : d < 2 ^ 63) :
    (ofInt64 (BitVec.ofNat 64 d)).v.toInt = d * 2 ^ 64 := by
  have hcond := BitVec.toInt_eq_toNat_cond (BitVec.ofNat 64 d)
  rw [BitVec.toNat_ofNat] at hcond
  rw [toInt_ofInt64]
  split_ifs at hcond <;> omega

/-- A fraction times ten. -/
theorem mul_ten (h : low.v.toNat < 2 ^ 64) :
    ∃ y, low.mul (ofInt64 10) = some y ∧ y.v.toNat = low.v.toNat * 10 := by
  have hlow := @toInt_of_lt low.v (by omega)
  have hproduct : product low (ofInt64 10) = ((low.v.toNat * 10 : ℕ) : ℤ) := by
    rw [product, hlow, toInt_ofInt64, Int.natAbs_natCast]
    change (low.v.toNat : ℤ).sign * 1 * ((low.v.toNat * (10 * 2 ^ 64) / 2 ^ 64 : ℕ) : ℤ) = _
    rw [← Nat.mul_assoc, Nat.mul_div_cancel _ (Nat.two_pow_pos 64), mul_one]
    rcases Nat.eq_zero_or_pos low.v.toNat with hzero | hpos
    · rw [hzero]
      rfl
    · rw [Int.sign_eq_one_of_pos (Int.natCast_pos.2 hpos), one_mul]
  obtain ⟨⟨y, hy, hvalue⟩, -⟩ := (mul_eq low (ofInt64 10)).1 (by
    rw [hproduct, Representable]
    omega)
  rw [hproduct] at hvalue
  exact ⟨y, hy, toNat_eq_of_toInt hvalue⟩

/-- The integer part. -/
theorem getHigh_of_lt (h : low.v.toNat < 2 ^ 127) :
    low.getHigh = BitVec.ofNat 64 (low.v.toNat / 2 ^ 64) := by
  have hcond := BitVec.toInt_eq_toNat_cond (BitVec.ofNat 64 (low.v.toNat / 2 ^ 64))
  rw [BitVec.toNat_ofNat] at hcond
  refine BitVec.eq_of_toInt_eq ?_
  rw [toInt_getHigh, toInt_of_lt h]
  split_ifs at hcond <;> omega

theorem getLow_toNat (x : Int64x64) : x.getLow.toNat = x.v.toNat % 2 ^ 64 := by
  rw [getLow, BitVec.toNat_setWidth, ← low, toNat_low, Nat.mod_mod]

theorem toInt_digit (hd : d < 10) : (BitVec.ofNat 64 d).toInt = d := by
  interval_cases d <;> rfl

/-- A digit comes off exactly. -/
theorem takeDigit_eq (h : low.v.toNat < 2 ^ 64) : ∃ d rest, takeDigit low =
    some (BitVec.ofNat 64 d, rest) ∧ d < 10 ∧ rest.v.toNat < 2 ^ 64 ∧
      low.v.toNat * 10 = d * 2 ^ 64 + rest.v.toNat := by
  obtain ⟨y, hy, hvalue⟩ := mul_ten h
  have hd : y.v.toNat / 2 ^ 64 < 10 := by omega
  have hrest : (y.sub (ofInt64 (BitVec.ofNat 64 (y.v.toNat / 2 ^ 64)))).v.toNat =
      y.v.toNat % 2 ^ 64 := by
    have hten := @toInt_ofInt64_ofNat (y.v.toNat / 2 ^ 64) (by omega)
    have hsub := BitVec.toNat_sub y.v (ofInt64 (BitVec.ofNat 64 (y.v.toNat / 2 ^ 64))).v
    have hnat := @toNat_eq_of_toInt _ (y.v.toNat / 2 ^ 64 * 2 ^ 64) (by rw [hten]; push_cast; rfl)
    rw [hnat] at hsub
    change (y.v - _).toNat = _
    rw [hsub]
    omega
  refine ⟨_, y.sub (ofInt64 (BitVec.ofNat 64 (y.v.toNat / 2 ^ 64))), ?_, hd, ?_, ?_⟩
  · rw [takeDigit, hy, Option.bind_some, getHigh_of_lt (by omega)]
    dsimp only
    rw [toInt_digit hd, if_pos (by omega)]
  · rw [hrest]
    omega
  · rw [hrest, ← hvalue, Nat.div_add_mod']

theorem showDigit_eq (hd : d < 10) : showDigit (BitVec.ofNat 64 d) = [d.digitChar] := by
  rw [showDigit, BitVec.toNat_ofNat, Nat.mod_eq_of_lt (by omega), Nat.toDigits_of_lt_base hd]

/-- The loop prints the expansion of the fraction, either all of it or to the last place. -/
theorem printDigits_eq (n : ℕ) : ∀ low : Int64x64, low.v.toNat < 2 ^ 64 → ∃ ds d rest,
    printDigits n low = some ((ds ++ [d]).map Nat.digitChar, BitVec.ofNat 64 d, rest) ∧
      Expansion 10 (2 ^ 64) low.v.toNat (ds ++ [d]) rest.v.toNat ∧ rest.v.toNat < 2 ^ 64 ∧
      (rest.v.toNat = 0 ∨ ds.length = n) := by
  induction n with
  | zero =>
    intro low h
    obtain ⟨d, rest, htake, hd, hrest, heq⟩ := takeDigit_eq h
    refine ⟨[], d, rest, ?_, (expansion_nil _ _ _).cons hd heq, hrest, .inr rfl⟩
    rw [printDigits, htake, Option.map_some, showDigit_eq hd]
    rfl
  | succ n ih =>
    intro low h
    obtain ⟨d, rest, htake, hd, hrest, heq⟩ := takeDigit_eq h
    rw [printDigits, htake, Option.bind_some]
    by_cases hmore : rest.getLow ≠ 0
    · obtain ⟨ds, d', rest', hprint, hexp, hrest', hend⟩ := ih rest hrest
      refine ⟨d :: ds, d', rest', ?_, hexp.cons hd heq, hrest',
        hend.imp_right (congrArg Nat.succ)⟩
      rw [if_pos hmore, hprint, Option.map_some, showDigit_eq hd]
      rfl
    · refine ⟨[], d, rest, ?_, (expansion_nil _ _ _).cons hd heq, hrest, .inl ?_⟩
      · rw [if_neg hmore, showDigit_eq hd]
        rfl
      · rw [not_ne_iff, ← BitVec.toNat_inj, getLow_toNat, Nat.mod_eq_of_lt hrest] at hmore
        exact hmore

/-! ## Carry -/

theorem nextChar_digitChar (hd : d < 9) : nextChar d.digitChar = (d + 1).digitChar := by
  interval_cases d <;> rfl

theorem digitChar_ne_dot (hd : d < 10) : d.digitChar ≠ '.' := by
  interval_cases d <;> decide

theorem digitChar_le_nine (hd : d < 10) : d.digitChar ≤ '9' := by
  interval_cases d <;> decide

theorem toNat_digitChar (hd : d < 10) : (d.digitChar.toNat : ℤ) - 48 = d := by
  interval_cases d <;> rfl

/-- The carry stops within the digits, unless all are nines. -/
theorem walkCarry_digits (rest : List Char) (ds : List ℕ) : (∀ d ∈ ds, d < 10) →
    Nat.ofDigits 10 ds + 1 < 10 ^ ds.length → ∃ ds',
      walkCarry (ds.map Nat.digitChar ++ rest) = (ds'.map Nat.digitChar ++ rest, false) ∧
        (∀ d ∈ ds', d < 10) ∧ ds'.length = ds.length ∧
        Nat.ofDigits 10 ds' = Nat.ofDigits 10 ds + 1 := by
  induction ds with
  | nil =>
    intro _ h
    exact absurd h (by simp)
  | cons d ds ih =>
    intro hds h
    obtain ⟨hd, htail⟩ := List.forall_mem_cons.1 hds
    rw [Nat.ofDigits_cons, List.length_cons, pow_succ] at h
    rw [List.map_cons, List.cons_append, walkCarry, if_neg (digitChar_ne_dot hd)]
    by_cases hnine : d < 9
    · rw [nextChar_digitChar hnine, if_pos (digitChar_le_nine (by omega))]
      refine ⟨(d + 1) :: ds, rfl, List.forall_mem_cons.2 ⟨by omega, htail⟩, rfl, ?_⟩
      rw [Nat.ofDigits_cons, Nat.ofDigits_cons]
      ring
    · obtain rfl : d = 9 := by omega
      obtain ⟨ds', hwalk, hds', hlen, hval⟩ := ih htail (by omega)
      rw [if_neg (by decide), hwalk]
      refine ⟨0 :: ds', rfl, List.forall_mem_cons.2 ⟨by omega, hds'⟩,
        congrArg Nat.succ hlen, ?_⟩
      rw [Nat.ofDigits_cons, Nat.ofDigits_cons, hval]
      ring

/-! ## Digits that are read -/

theorem toNat_add_ofWords (h : low.v.toNat ≤ 2 ^ 64) (hd : d < 10) :
    ((low.add (ofInt64 (BitVec.ofNat 64 d))).add (ofWords 0 5)).v.toNat =
      low.v.toNat + d * 2 ^ 64 + 5 := by
  have hnat := @toNat_eq_of_toInt _ (d * 2 ^ 64) (by
    rw [@toInt_ofInt64_ofNat d (by omega)]
    push_cast
    rfl)
  have hfirst : (low.v + (ofInt64 (BitVec.ofNat 64 d)).v).toNat = low.v.toNat + d * 2 ^ 64 := by
    rw [toNat_add_of_lt (by omega), hnat]
  have hfive : (ofWords 0 5).v.toNat = 5 := by decide
  change (low.v + (ofInt64 (BitVec.ofNat 64 d)).v + (ofWords 0 5).v).toNat = _
  rw [toNat_add_of_lt (by omega), hfirst, hfive]

/-- A digit is read with a rounded division. -/
theorem readLoDigit_eq (h : low.v.toNat ≤ 2 ^ 64) (hd : d < 10) :
    ∃ next, readLoDigit low d.digitChar = some next ∧
      next.v.toNat = (low.v.toNat + d * 2 ^ 64 + 10 / 2) / 10 ∧ next.v.toNat ≤ 2 ^ 64 := by
  have hsum := toNat_add_ofWords h hd
  have hdigit : BitVec.ofInt 64 d = BitVec.ofNat 64 d := BitVec.ofInt_natCast 64 d
  rw [readLoDigit, toNat_digitChar hd, if_pos (by omega), hdigit]
  generalize (low.add (ofInt64 (BitVec.ofNat 64 d))).add (ofWords 0 5) = sum at hsum ⊢
  have hint := @toInt_of_lt sum.v (by omega)
  have hquotient : quotient sum (ofInt64 10) = ((sum.v.toNat / 10 : ℕ) : ℤ) := by
    rw [quotient, hint, toInt_ofInt64, Int.natAbs_natCast,
      Int.sign_eq_one_of_pos (Int.natCast_pos.2 (by omega))]
    change 1 * 1 * ((sum.v.toNat * 2 ^ 64 / (10 * 2 ^ 64) : ℕ) : ℤ) = _
    rw [Nat.mul_div_mul_right _ _ (Nat.two_pow_pos 64), one_mul, one_mul]
  obtain ⟨next, hnext, hvalue⟩ := @div_eq sum (ofInt64 10) (by decide) (by
    rw [hquotient, Representable]
    omega)
  rw [hquotient] at hvalue
  have hnat := toNat_eq_of_toInt hvalue
  rw [hsum] at hnat
  exact ⟨next, hnext 65 le_rfl, hnat, by omega⟩

theorem foldlM_readLoDigit (ds : List ℕ) : (∀ d ∈ ds, d < 10) → ∀ low : Int64x64,
    low.v.toNat ≤ 2 ^ 64 → ∃ next, (ds.map Nat.digitChar).foldlM readLoDigit low = some next ∧
      next.v.toNat = readDigits 10 (2 ^ 64) ds low.v.toNat := by
  induction ds with
  | nil => exact fun _ low _ => ⟨low, rfl, rfl⟩
  | cons d ds ih =>
    intro hds low h
    obtain ⟨hd, hds⟩ := List.forall_mem_cons.1 hds
    obtain ⟨next, hnext, hvalue, hle⟩ := readLoDigit_eq h hd
    obtain ⟨last, hlast, heq⟩ := ih hds next hle
    refine ⟨last, ?_, ?_⟩
    · rw [List.map_cons, List.foldlM_cons, hnext]
      exact hlast
    · rw [readDigits_cons, heq, hvalue]

/-- The digits of a fraction are read. -/
theorem readLoDigits_eq (hds : ∀ d ∈ ds, d < 10) : readLoDigits (ds.map Nat.digitChar) =
    some (BitVec.ofNat 64 (readDigits 10 (2 ^ 64) ds.reverse 0)) := by
  obtain ⟨next, hnext, hvalue⟩ := foldlM_readLoDigit ds.reverse
    (fun d hd => hds d (List.mem_reverse.1 hd)) ⟨0⟩ (by decide)
  rw [readLoDigits, ← List.map_reverse, hnext, Option.map_some]
  refine congrArg some (BitVec.eq_of_toNat_eq ?_)
  rw [getLow_toNat, hvalue, BitVec.toNat_ofNat]
  rfl

theorem le_toNat_of_isDigit {c : Char} (h : c.isDigit = true) : 48 ≤ c.toNat := by
  rw [Char.isDigit, Bool.and_eq_true, decide_eq_true_eq] at h
  exact h.1

theorem foldl_digit (text : List Char) : (∀ c ∈ text, c.isDigit = true) → ∀ n : ℕ,
    text.foldl (fun retval c => retval * 10 + BitVec.ofInt 64 (c.toNat - 48))
        (BitVec.ofNat 64 n) = BitVec.ofNat 64 (Nat.ofDigitChars 10 text n) := by
  induction text with
  | nil => exact fun _ n => rfl
  | cons c text ih =>
    intro htext n
    obtain ⟨hc, htail⟩ := List.forall_mem_cons.1 htext
    have hle := le_toNat_of_isDigit hc
    have hstep : BitVec.ofNat 64 n * 10 + BitVec.ofInt 64 (c.toNat - 48) =
        BitVec.ofNat 64 (10 * n + (c.toNat - '0'.toNat)) := by
      have hcast : (c.toNat : ℤ) - 48 = ((c.toNat - 48 : ℕ) : ℤ) := by omega
      rw [hcast, BitVec.ofInt_natCast, BitVec.ofNat_add, Nat.mul_comm, BitVec.ofNat_mul]
      rfl
    rw [List.foldl_cons, hstep, ih htail, Nat.ofDigitChars_cons]

/-- The digits of an integer are read. -/
theorem readHiDigits_toDigits (n : ℕ) :
    readHiDigits (Nat.toDigits 10 n) = BitVec.ofNat 64 n := by
  have hfold := foldl_digit (Nat.toDigits 10 n)
    (fun c hc => Nat.isDigit_of_mem_toDigits (by decide) (by decide) hc) 0
  rw [Nat.ofDigitChars_ten_toDigits] at hfold
  exact hfold

/-! ## The round trip -/

/-- What is printed is near the fraction. -/
theorem printMagnitude_eq (hi : BitVec 64) (h : low.v.toNat < 2 ^ 64) : ∃ ds : List ℕ,
    printMagnitude hi low = some (Nat.toDigits 10 hi.toNat ++ '.' :: ds.map Nat.digitChar) ∧
      (∀ d ∈ ds, d < 10) ∧ readDigits 10 (2 ^ 64) ds.reverse 0 = low.v.toNat := by
  obtain ⟨ds, d, rest, hprint, hexp, hrest, hend⟩ := printDigits_eq 19 low h
  obtain ⟨y, hy, hvalue⟩ := mul_ten hrest
  have hd : d < 10 := hexp.lt d (List.mem_append_right _ (List.mem_singleton_self d))
  have hnext := @toInt_digit (y.v.toNat / 2 ^ 64) (by omega)
  have heq := hexp.eq
  have hlen : (ds ++ [d]).length = ds.length + 1 := List.length_append
  have hlt := hexp.lt
  rw [printMagnitude, hprint, Option.bind_some]
  dsimp only
  rw [hy, Option.map_some, getHigh_of_lt (by omega), toInt_digit hd, hnext]
  generalize ds ++ [d] = digits at heq hlen hlt ⊢
  by_cases hround : (5 : ℤ) < ((y.v.toNat / 2 ^ 64 : ℕ) : ℤ) ∨
      ((y.v.toNat / 2 ^ 64 : ℕ) : ℤ) = 5 ∧ (d : ℤ).tmod 2 = 1
  · rw [if_pos hround]
    have hfive : 5 ≤ y.v.toNat / 2 ^ 64 := by omega
    have hall : digits.length = 20 := by omega
    rw [hall] at heq
    obtain ⟨ds', hwalk, hds', hlen', hval⟩ := walkCarry_digits
      ('.' :: (Nat.toDigits 10 hi.toNat).reverse) digits.reverse
      (fun d hd => hlt d (List.mem_reverse.1 hd)) (by
        rw [List.length_reverse, hall]
        omega)
    refine ⟨ds'.reverse, ?_, fun d hd => hds' d (List.mem_reverse.1 hd), ?_⟩
    · have hrev : (Nat.toDigits 10 hi.toNat ++ '.' :: digits.map Nat.digitChar).reverse =
          digits.reverse.map Nat.digitChar ++ '.' :: (Nat.toDigits 10 hi.toNat).reverse := by
        rw [List.reverse_append, List.reverse_cons, List.append_assoc, List.map_reverse]
        rfl
      rw [roundUp, hrev, hwalk]
      dsimp only
      rw [if_neg Bool.false_ne_true, List.reverse_append, List.reverse_cons, List.reverse_reverse,
        List.append_assoc, List.map_reverse]
      rfl
    · rw [List.reverse_reverse]
      rw [List.length_reverse] at hlen'
      refine readDigits_of_near (.inl ⟨?_, by rw [hlen', hall]; decide⟩)
      have habs : ((Nat.ofDigits 10 ds' * 2 ^ 64 : ℕ) : ℤ) -
          ((low.v.toNat * 10 ^ ds'.length : ℕ) : ℤ) = 2 ^ 64 - rest.v.toNat := by
        rw [hval, hlen', hall]
        omega
      rw [habs, abs_of_nonneg (by omega)]
      omega
  · rw [if_neg hround]
    refine ⟨digits, rfl, hlt, readDigits_of_near ?_⟩
    rw [List.length_reverse]
    rcases hend with hzero | hfull
    · exact .inr (by rw [heq, hzero, Nat.add_zero])
    · have hall : digits.length = 20 := by omega
      rw [hall] at heq ⊢
      have habs : ((Nat.ofDigits 10 digits.reverse * 2 ^ 64 : ℕ) : ℤ) -
          ((low.v.toNat * 10 ^ 20 : ℕ) : ℤ) = -(rest.v.toNat : ℤ) := by omega
      have hfive : y.v.toNat / 2 ^ 64 ≤ 5 := by omega
      rw [habs, abs_neg, Nat.abs_cast]
      exact .inl ⟨by omega, by decide⟩

theorem digitChar_ne_sign (hd : d < 10) : d.digitChar ≠ '-' ∧ d.digitChar ≠ '+' := by
  interval_cases d <;> decide

theorem ne_of_mem_toDigits {c : Char} {n : ℕ} (hc : c ∈ Nat.toDigits 10 n) :
    c ≠ '.' ∧ c ≠ '-' ∧ c ≠ '+' := by
  have hdigit := Nat.isDigit_of_mem_toDigits (by decide) (by decide) hc
  refine ⟨?_, ?_, ?_⟩ <;> rintro rfl <;> exact absurd hdigit (by decide)

theorem readMagnitude_eq (hi : BitVec 64) (hds : ∀ d ∈ ds, d < 10) :
    readMagnitude (Nat.toDigits 10 hi.toNat ++ '.' :: ds.map Nat.digitChar) =
      some (ofWords hi (BitVec.ofNat 64 (readDigits 10 (2 ^ 64) ds.reverse 0))) := by
  have hdigits : ∀ c ∈ Nat.toDigits 10 hi.toNat, (decide (c ≠ '.')) = true :=
    fun c hc => decide_eq_true (ne_of_mem_toDigits hc).1
  rw [readMagnitude, if_pos (List.mem_append_right _ List.mem_cons_self),
    List.dropWhile_append_of_pos hdigits, List.takeWhile_append_of_pos hdigits,
    List.dropWhile_cons_of_neg (by decide), List.takeWhile_cons_of_neg (by decide),
    List.tail_cons, List.append_nil, readLoDigits_eq hds, Option.map_some,
    readHiDigits_toDigits, BitVec.ofNat_toNat, BitVec.setWidth_eq]

theorem getLsbD_maskLo {i : ℕ} (hi : i < 64) : maskLo.getLsbD i = true := by
  have hmask : maskLo = (BitVec.allOnes 64).setWidth 128 := rfl
  rw [hmask, BitVec.getLsbD_setWidth, BitVec.getLsbD_allOnes, decide_eq_true hi,
    decide_eq_true (by omega), Bool.and_true]

/-- The words of a number. -/
theorem ofWords_getHigh_getLow (x : Int64x64) : ofWords x.getHigh x.getLow = x := by
  have hbits : (ofWords x.getHigh x.getLow).v = x.v := by
    change ((x.v.sshiftRight 64).setWidth 64).signExtend 128 <<< 64 |||
      ((x.v &&& maskLo).setWidth 64).setWidth 128 = x.v
    ext i hi
    by_cases hlow : i < 64
    · have hmask := getLsbD_maskLo hlow
      rw [BitVec.getLsbD_eq_getElem hi] at hmask
      simp [hlow, hmask, BitVec.getLsbD_eq_getElem hi]
    · have hshift : 64 + (i - 64) = i := by omega
      have hword : i - 64 < 64 := by omega
      have hwide : ¬ 128 ≤ i - 64 := by omega
      simp [hi, hlow, hshift, hword, hwide, BitVec.getElem_signExtend,
        BitVec.getLsbD_sshiftRight]
  cases x
  exact congrArg Int64x64.mk hbits

theorem toNat_ofWords_zero (lo : BitVec 64) : (ofWords 0 lo).v.toNat = lo.toNat := by
  have hlo := lo.isLt
  have hv : (ofWords 0 lo).v = lo.setWidth 128 := BitVec.zero_or
  rw [hv, BitVec.toNat_setWidth, Nat.mod_eq_of_lt (by omega)]

theorem getLow_ofWords_zero (lo : BitVec 64) : (ofWords 0 lo).getLow = lo := by
  refine BitVec.eq_of_toNat_eq ?_
  rw [getLow_toNat, toNat_ofWords_zero, Nat.mod_eq_of_lt lo.isLt]

theorem magnitude_lt (value : Int64x64) : (magnitude value).2.v.toNat < 2 ^ 64 := by
  by_cases hmin : value ≠ ofWords ((1 : BitVec 64) <<< 63) 0
  · rw [magnitude, if_pos hmin]
    dsimp only
    rw [toNat_ofWords_zero]
    exact BitVec.isLt _
  · rw [magnitude, if_neg hmin]
    exact Nat.two_pow_pos 64

theorem neg_neg_eq (x : Int64x64) : x.neg.neg = x :=
  congrArg Int64x64.mk (BitVec.neg_neg)

/-- The words that are read have the magnitude, and the sign gives back the number. -/
theorem ofWords_magnitude (value : Int64x64) :
    (if value.v.toInt < 0 then (ofWords (magnitude value).1 (magnitude value).2.getLow).neg
      else ofWords (magnitude value).1 (magnitude value).2.getLow) = value := by
  by_cases hmin : value ≠ ofWords ((1 : BitVec 64) <<< 63) 0
  · rw [magnitude, if_pos hmin]
    dsimp only
    rw [getLow_ofWords_zero, ofWords_getHigh_getLow]
    split_ifs
    · exact neg_neg_eq value
    · rfl
  · rw [not_ne_iff.1 hmin]
    decide

/-- Every number that is printed is read again. -/
theorem read_print (value : Int64x64) : (print value).bind read = some value := by
  obtain ⟨ds, hprint, hds, hlow⟩ := printMagnitude_eq (magnitude value).1 (magnitude_lt value)
  have hread := readMagnitude_eq (magnitude value).1 hds
  have hvalue := ofWords_magnitude value
  have hword : BitVec.ofNat 64 (readDigits 10 (2 ^ 64) ds.reverse 0) =
      (magnitude value).2.getLow := by
    refine BitVec.eq_of_toNat_eq ?_
    rw [hlow, getLow_toNat, BitVec.toNat_ofNat]
  have hsign : ∀ c ∈ Nat.toDigits 10 (magnitude value).1.toNat ++ '.' :: ds.map Nat.digitChar,
      c ≠ '-' ∧ c ≠ '+' := by
    intro c hc
    rcases List.mem_append.1 hc with hhi | hlo
    · exact (ne_of_mem_toDigits hhi).2
    · rcases List.mem_cons.1 hlo with rfl | hfrac
      · exact ⟨by decide, by decide⟩
      · obtain ⟨d, hd, rfl⟩ := List.mem_map.1 hfrac
        exact digitChar_ne_sign (hds d hd)
  rw [hword] at hread
  rw [print, hprint, Option.map_some, Option.bind_some]
  generalize Nat.toDigits 10 (magnitude value).1.toNat ++ '.' :: ds.map Nat.digitChar = text
    at hread hsign ⊢
  by_cases hneg : value.v.toInt < 0
  · rw [if_pos hneg] at hvalue ⊢
    rw [read, List.dropWhile_cons_of_neg (by decide)]
    rw [if_pos List.mem_cons_self, List.dropWhile_cons_of_neg (by decide), List.tail_cons, hread,
      Option.map_some, hvalue]
  · rw [if_neg hneg] at hvalue ⊢
    have hminus : ¬ '-' ∈ '+' :: text := by
      rw [List.mem_cons, not_or]
      exact ⟨by decide, fun hc => (hsign _ hc).1 rfl⟩
    rw [read, List.dropWhile_cons_of_neg (by decide)]
    rw [if_neg hminus, if_pos List.mem_cons_self, List.dropWhile_cons_of_neg (by decide),
      List.tail_cons, hread, hvalue]

end Int64x64

end Ns3Pedca
