import Mathlib

/-!
# Bits of octets

`bits` are the eight bits of an octet, the most significant first, and `mask i` selects bit `i`. An
octet whose bits after the first ones are zero takes one more (`bits_or_mask`), and a shift to the
left drops the first ones (`bits_shiftLeft`).

`bitset n` are the `n` low bits of a number, the least significant first, and `value` is the number
that bits stand for (`value_bitset`).
-/

namespace OctetBits

/-- The bits of an octet, the most significant first. -/
def bits (octet : UInt8) : List Bool :=
  (List.range 8).map fun i => octet.toNat.testBit (7 - i)

/-- The mask of bit `i`, counted from the most significant. -/
def mask (i : ℕ) : UInt8 :=
  0x80 >>> UInt8.ofNat i

/-- The low bits of a number, the least significant first. -/
def bitset (n a : ℕ) : List Bool :=
  (List.range n).map a.testBit

/-- The number that bits stand for, the least significant first. -/
def value (data : List Bool) : ℕ :=
  data.foldr (fun bit a => bit.toNat + 2 * a) 0

variable {octet : UInt8} {front : List Bool} {i k : ℕ} {v : Bool}

@[simp] theorem length_bits (octet : UInt8) : (bits octet).length = 8 := by
  rw [bits, List.length_map, List.length_range]

theorem getElem_bits (hi : i < (bits octet).length) :
    (bits octet)[i] = octet.toNat.testBit (7 - i) := by
  simp [bits]

theorem bits_zero : bits 0 = List.replicate 8 false :=
  rfl

theorem eq_zero_of_bits (h : bits octet = List.replicate 8 false) : octet = 0 := by
  refine UInt8.toNat_inj.1 (Nat.eq_of_testBit_eq fun i => ?_)
  have hzero : (0 : UInt8).toNat.testBit i = false := Nat.zero_testBit i
  rw [hzero]
  by_cases hi : i < 8
  · have hlt : 7 - i < (bits octet).length := by
      rw [length_bits]
      omega
    have hget := getElem_bits hlt
    simp only [h, List.getElem_replicate] at hget
    rw [show 7 - (7 - i) = i by omega] at hget
    exact hget.symm
  · exact Nat.testBit_lt_two_pow (octet.toNat_lt.trans_le
      (Nat.pow_le_pow_right Nat.zero_lt_two (Nat.le_of_not_lt hi)))

theorem toNat_mask (hi : i < 8) : (mask i).toNat = 2 ^ (7 - i) := by
  interval_cases i <;> rfl

/-- The mask after `mask i`. -/
theorem next_mask (hi : i < 7) : mask i >>> 1 &&& ~~~mask i = mask (i + 1) := by
  interval_cases i <;> rfl

theorem shiftRight_mask (hi : i < 7) : mask i >>> 1 = mask (i + 1) := by
  interval_cases i <;> rfl

theorem and_mask (hi : i < (bits octet).length) :
    octet &&& mask i ≠ 0 ↔ (bits octet)[i] = true := by
  have hlt : i < 8 := hi.trans_eq (length_bits octet)
  rw [getElem_bits, Ne, ← UInt8.toNat_inj, UInt8.toNat_and, toNat_mask hlt, Nat.and_two_pow]
  cases octet.toNat.testBit (7 - i) <;> simp

/-- The next bit of an octet. -/
theorem bits_or_mask (h : bits octet = front ++ List.replicate (k + 1) false) :
    bits (octet ||| if v then mask front.length else 0) =
      front ++ v :: List.replicate k false := by
  have hlen : front.length + (k + 1) = 8 := by
    have htotal := congrArg List.length h
    rw [length_bits, List.length_append, List.length_replicate] at htotal
    exact htotal.symm
  have hold (i : ℕ) (hi : i < 8) : octet.toNat.testBit (7 - i) = front.getD i false := by
    have hget := @getElem_bits octet i (hi.trans_eq (length_bits octet).symm)
    rw [← hget, List.getD_eq_getElem?_getD]
    simp only [h]
    rw [List.getElem_append]
    split_ifs with hfront
    · rw [List.getElem?_eq_getElem hfront]
      rfl
    · rw [List.getElem_replicate, List.getElem?_eq_none (Nat.le_of_not_lt hfront)]
      rfl
  refine List.ext_getElem ?_ fun i hi _ => ?_
  · rw [length_bits, List.length_append, List.length_cons, List.length_replicate]
    omega
  · have hlt : i < 8 := hi.trans_eq (length_bits _)
    have hmask : (if v then mask front.length else 0).toNat.testBit (7 - i) =
        (v && decide (i = front.length)) := by
      cases v with
      | false => exact Nat.zero_testBit _
      | true =>
        rw [if_pos rfl, toNat_mask (by omega), Nat.testBit_two_pow, Bool.true_and,
          decide_eq_decide]
        omega
    rw [getElem_bits, UInt8.toNat_or, Nat.testBit_or, hold i hlt, hmask, List.getElem_append,
      List.getD_eq_getElem?_getD]
    split_ifs with hfront
    · rw [List.getElem?_eq_getElem hfront, decide_eq_false (by omega), Bool.and_false,
        Bool.or_false]
      rfl
    · rw [List.getElem?_eq_none (Nat.le_of_not_lt hfront), Option.getD_none, Bool.false_or]
      rcases Nat.eq_or_lt_of_le (Nat.le_of_not_lt hfront) with heq | hgt
      · simp [heq]
      · obtain ⟨j, hj⟩ := Nat.exists_eq_add_of_lt hgt
        simp [hj, Nat.add_assoc]

/-- A shift to the left drops bits. -/
theorem bits_shiftLeft (hk : k < 8) :
    bits (octet <<< UInt8.ofNat k) = (bits octet).drop k ++ List.replicate k false := by
  have hshift : (octet <<< UInt8.ofNat k).toNat = octet.toNat <<< k % 2 ^ 8 := by
    rw [UInt8.toNat_shiftLeft, UInt8.toNat_ofNat', Nat.mod_eq_of_lt (show k < 2 ^ 8 by omega),
      Nat.mod_eq_of_lt hk]
  refine List.ext_getElem ?_ fun i hi _ => ?_
  · rw [length_bits, List.length_append, List.length_drop, length_bits, List.length_replicate]
    omega
  · have hlt : i < 8 := hi.trans_eq (length_bits _)
    rw [getElem_bits, hshift, Nat.testBit_mod_two_pow, Nat.testBit_shiftLeft, List.getElem_append,
      decide_eq_true (by omega), Bool.true_and]
    split_ifs with hdrop
    · rw [List.length_drop, length_bits] at hdrop
      rw [List.getElem_drop, getElem_bits, decide_eq_true (by omega), Bool.true_and]
      congr 1
      omega
    · rw [List.length_drop, length_bits] at hdrop
      rw [List.getElem_replicate, decide_eq_false (by omega), Bool.false_and]

/-- The bits of octets one after the other. -/
theorem length_flatMap_bits (octets : List UInt8) :
    (octets.flatMap bits).length = 8 * octets.length := by
  induction octets with
  | nil => rfl
  | cons octet octets ih =>
    rw [List.flatMap_cons, List.length_append, length_bits, ih, List.length_cons]
    omega

/-! ## Numbers -/

@[simp] theorem length_bitset (n a : ℕ) : (bitset n a).length = n := by
  rw [bitset, List.length_map, List.length_range]

theorem bitset_succ (n a : ℕ) : bitset (n + 1) a = a.testBit 0 :: bitset n (a / 2) := by
  rw [bitset, List.range_succ_eq_map, List.map_cons, List.map_map, bitset]
  congr 1
  exact List.map_congr_left fun i _ => Nat.testBit_succ a i

/-- A number is the value of its bits. -/
theorem value_bitset {n a : ℕ} (h : a < 2 ^ n) : value (bitset n a) = a := by
  induction n generalizing a with
  | zero =>
    rw [Nat.pow_zero] at h
    exact (Nat.lt_one_iff.1 h).symm
  | succ n ih =>
    have hhalf := ih (show a / 2 < 2 ^ n by rw [Nat.pow_succ] at h; omega)
    rw [bitset_succ]
    change (a.testBit 0).toNat + 2 * value (bitset n (a / 2)) = a
    rw [hhalf, Nat.testBit_zero]
    rcases Nat.mod_two_eq_zero_or_one a with hmod | hmod
    · rw [hmod]
      change 0 + _ = _
      omega
    · rw [hmod]
      change 1 + _ = _
      omega

end OctetBits
