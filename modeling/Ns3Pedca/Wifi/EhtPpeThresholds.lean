import Ns3Pedca.Bytes

/-!
# The EHT PPE thresholds

`EhtPpeThresholds` is written bit by bit : a header of 9 bits, and then values of three bits, with
no regard to the borders of the bytes. The writer keeps the bits of the byte that is not full, and
the reader the byte that it is at, which it reads when the one before is used up.

The bytes written, as one number, are the header and the values as digits of base 8
(`Written.foldl`), and the reader divides this number by 8 for each value (`readPpet_spec`). The
bits written are never a whole number of bytes, so the reader does not go beyond them
(`deserialize_thresholds`).
-/

namespace Ns3Pedca

/-- `EhtPpeThresholdsInfo`, of two fields of three bits. -/
structure EhtPpeThresholdsInfo where
  ppetMax : Fin 8
  ppet8 : Fin 8
  deriving DecidableEq

/-- `EhtPpeThresholds`. The first two fields have four bits and five. -/
structure EhtPpeThresholds where
  nssPe : Fin 16 := 0
  ruIndexBitmask : Fin 32 := 0
  ppeThresholdsInfo : List EhtPpeThresholdsInfo := []
  deriving DecidableEq

/-- The variables of `Serialize` : the bytes written, the bits of the next one, and the number of
bits. -/
structure PpeWriter where
  written : List UInt8
  val : UInt8
  nBitsNoPadding : ℕ

/-- The variables of `Deserialize` : the byte that has been read last, the bytes after it, and the
number of bits. -/
structure PpeReader where
  val : UInt8
  i : List UInt8
  nBitsNoPadding : ℕ

namespace EhtPpeThresholds

open Bytes

variable (e : EhtPpeThresholds)

/-- `std::bitset<5>::count`. -/
def numBitsSet (ruIndexBitmask : Fin 32) : ℕ :=
  (List.range 5).countP fun i => ruIndexBitmask.val.testBit i

/-- The number of bits of the header and the values. -/
def nBits (nssPe : Fin 16) (ruIndexBitmask : Fin 32) : ℕ :=
  4 + 5 + 6 * numBitsSet ruIndexBitmask * (nssPe + 1)

/-- `GetSize`. -/
def getSize : ℕ :=
  (nBits e.nssPe e.ruIndexBitmask + 7) / 8

/-! ## Writing -/

/-- A half of the loop body of `Serialize`. -/
def writePpet (w : PpeWriter) (ppet : Fin 8) : PpeWriter :=
  let offset := w.nBitsNoPadding % 8
  let bitsLeft := 8 - offset
  let bitMask := 1 <<< bitsLeft - 1
  let val := w.val ||| UInt8.ofNat ((ppet.val &&& bitMask) <<< offset)
  let nBitsNoPadding := w.nBitsNoPadding + min bitsLeft 3
  if nBitsNoPadding % 8 = 0 then
    if bitsLeft < 3 then
      let remainingBits := 3 - bitsLeft
      let bitMask := 1 <<< remainingBits - 1
      ⟨w.written ++ [val], .ofNat (ppet.val >>> bitsLeft &&& bitMask),
        nBitsNoPadding + remainingBits⟩
    else ⟨w.written ++ [val], 0, nBitsNoPadding⟩
  else ⟨w.written, val, nBitsNoPadding⟩

/-- The loop body of `Serialize`. -/
def writeInfo (w : PpeWriter) (info : EhtPpeThresholdsInfo) : PpeWriter :=
  writePpet (writePpet w info.ppetMax) info.ppet8

/-- The header : a byte and a bit. -/
def writeHeader : PpeWriter where
  written := [.ofNat (e.nssPe.val ||| (e.ruIndexBitmask.val &&& 0x0f) <<< 4)]
  val := .ofNat ((e.ruIndexBitmask.val &&& 0x10) >>> 4)
  nBitsNoPadding := 9

/-- The byte that is not full is written too. -/
def flush (w : PpeWriter) : List UInt8 :=
  if 0 < w.nBitsNoPadding % 8 then w.written ++ [w.val] else w.written

/-- `Serialize`. -/
def serialize : List UInt8 :=
  flush (e.ppeThresholdsInfo.foldl writeInfo e.writeHeader)

/-! ## Reading -/

/-- A half of the loop body of `Deserialize`. -/
def readPpet (r : PpeReader) : Option (Fin 8 × PpeReader) :=
  let offset := r.nBitsNoPadding % 8
  let bitsLeft := 8 - offset
  let bitMask := 1 <<< bitsLeft - 1
  let ppet := Fin.ofNat 8 (r.val.toNat >>> offset &&& bitMask)
  let nBitsNoPadding := r.nBitsNoPadding + min bitsLeft 3
  if nBitsNoPadding % 8 = 0 then
    match r.i with
    | [] => none
    | val :: i =>
      if bitsLeft < 3 then
        let remainingBits := 3 - bitsLeft
        let bitMask := 1 <<< remainingBits - 1
        some (.ofNat 8 (ppet.val ||| (val.toNat &&& bitMask) <<< bitsLeft),
          ⟨val, i, nBitsNoPadding + remainingBits⟩)
      else some (ppet, ⟨val, i, nBitsNoPadding⟩)
  else some (ppet, ⟨r.val, r.i, nBitsNoPadding⟩)

/-- The loop of `Deserialize`, with a bound on its rounds. -/
def readInfos (bitsToDeserialize : ℕ) :
    ℕ → PpeReader → List EhtPpeThresholdsInfo → Option (List EhtPpeThresholdsInfo × PpeReader)
  | 0, _, _ => none
  | rounds + 1, r, infos =>
    if r.nBitsNoPadding < bitsToDeserialize then
      (readPpet r).bind fun (ppetMax, r) => (readPpet r).bind fun (ppet8, r) =>
        readInfos bitsToDeserialize rounds r (infos ++ [⟨ppetMax, ppet8⟩])
    else some (infos, r)

/-- `Deserialize` : the subfield, the number of bytes it says have been read, and the bytes that
have not been. -/
def deserialize (start : List UInt8) : Option (EhtPpeThresholds × ℕ × List UInt8) :=
  match start with
  | val :: val' :: i =>
    let nssPe := Fin.ofNat 16 (val.toNat &&& 0x0f)
    let ruIndexBitmask :=
      Fin.ofNat 32 ((val.toNat >>> 4 &&& 0x0f) ||| (val'.toNat &&& 0x01) <<< 4)
    let bitsToDeserialize := nBits nssPe ruIndexBitmask
    (readInfos bitsToDeserialize bitsToDeserialize ⟨val', i, 9⟩ e.ppeThresholdsInfo).map
      fun (infos, r) => (⟨nssPe, ruIndexBitmask, infos⟩, (bitsToDeserialize + 7) / 8, r.i)
  | _ => none

/-! ## The bits that are written -/

variable {e} {w : PpeWriter} {r : PpeReader} {n : ℕ}

theorem and_bitMask (x b : ℕ) : x &&& (1 <<< b - 1) = x % 2 ^ b := by
  rw [Nat.one_shiftLeft, Nat.and_two_pow_sub_one_eq_mod]

/-- Bits are put above those that are there. -/
theorem toNat_or_bits {val : UInt8} {offset m : ℕ} (hoffset : offset < 8)
    (hval : val.toNat < 2 ^ offset) (hm : m < 2 ^ (8 - offset)) :
    (val ||| UInt8.ofNat (m <<< offset)).toNat = val.toNat + 2 ^ offset * m := by
  have hbits : m <<< offset < 2 ^ 8 := by
    have hpow : 2 ^ 8 = 2 ^ offset * 2 ^ (8 - offset) := by
      rw [← Nat.pow_add, Nat.add_sub_cancel' hoffset.le]
    rw [Nat.shiftLeft_eq, hpow, Nat.mul_comm]
    exact Nat.mul_lt_mul_of_pos_left hm (Nat.two_pow_pos _)
  rw [UInt8.toNat_or, UInt8.toNat_ofNat_of_lt' hbits, Nat.or_comm,
    ← Nat.shiftLeft_add_eq_or_of_lt hval, Nat.shiftLeft_eq, Nat.mul_comm, Nat.add_comm]

/-- The bits written are those of the number. -/
structure Written (w : PpeWriter) (n : ℕ) : Prop where
  length : w.written.length = w.nBitsNoPadding / 8
  val : w.val.toNat < 2 ^ (w.nBitsNoPadding % 8)
  number : number w.written + 256 ^ w.written.length * w.val.toNat = n

/-- A value is written above what has been written. -/
theorem Written.writePpet (h : Written w n) (x : Fin 8) :
    Written (writePpet w x) (n + 2 ^ w.nBitsNoPadding * x) ∧
      (EhtPpeThresholds.writePpet w x).nBitsNoPadding = w.nBitsNoPadding + 3 := by
  obtain ⟨written, val, nBits⟩ := w
  obtain ⟨x, hx⟩ := x
  obtain ⟨hlength, hval, hnumber⟩ := h
  dsimp only at hlength hval hnumber ⊢
  set k := nBits / 8
  set o := nBits % 8 with ho
  have ho8 : o < 8 := Nat.mod_lt _ (by decide)
  have hnBits : 8 * k + o = nBits := Nat.div_add_mod nBits 8
  have hbyte : 2 ^ o * 2 ^ (8 - o) = 256 := by
    rw [← Nat.pow_add, Nat.add_sub_cancel' ho8.le]
  have hpow : 2 ^ nBits * x = 256 ^ written.length * (2 ^ o * x) := by
    rw [← hnBits, hlength, Nat.pow_add, Nat.pow_mul, Nat.mul_assoc]
  have hor := toNat_or_bits ho8 hval (Nat.mod_lt x (Nat.two_pow_pos (8 - o)))
  rw [← and_bitMask] at hor
  rw [EhtPpeThresholds.writePpet]
  dsimp only
  rw [← ho, hpow, ← hnumber]
  by_cases hsplit : 8 - o < 3
  · -- the value straddles the border of two bytes
    have hfull : (nBits + min (8 - o) 3) % 8 = 0 := by omega
    have hhigh : x >>> (8 - o) &&& (1 <<< (3 - (8 - o)) - 1) = x / 2 ^ (8 - o) := by
      rw [and_bitMask, Nat.shiftRight_eq_div_pow, Nat.mod_eq_of_lt]
      rw [Nat.div_lt_iff_lt_mul (Nat.two_pow_pos _), ← Nat.pow_add, Nat.sub_add_cancel hsplit.le]
      exact hx
    have hrest : x / 2 ^ (8 - o) < 2 ^ (3 - (8 - o)) := by
      rw [Nat.div_lt_iff_lt_mul (Nat.two_pow_pos _), ← Nat.pow_add, Nat.sub_add_cancel hsplit.le]
      exact hx
    have hlt : x / 2 ^ (8 - o) < 2 ^ 8 := lt_of_le_of_lt (Nat.div_le_self _ _) (by omega)
    have hparts : 2 ^ o * (x % 2 ^ (8 - o)) + 256 * (x / 2 ^ (8 - o)) = 2 ^ o * x := by
      rw [← hbyte, Nat.mul_assoc, ← Nat.mul_add, Nat.mod_add_div]
    have hrem : (nBits + min (8 - o) 3 + (3 - (8 - o))) % 8 = 3 - (8 - o) := by omega
    rw [if_pos hfull, if_pos hsplit, hhigh]
    refine ⟨⟨?_, ?_, ?_⟩, by dsimp only; omega⟩
    · dsimp only
      rw [List.length_append, List.length_singleton]
      omega
    · dsimp only
      rwa [hrem, UInt8.toNat_ofNat_of_lt' hlt]
    · dsimp only
      rw [number_append, number_singleton, hor, List.length_append, List.length_singleton,
        UInt8.toNat_ofNat_of_lt' hlt, and_bitMask, ← hparts]
      ring
  · have hwhole : x &&& (1 <<< (8 - o) - 1) = x := by
      rw [and_bitMask, Nat.mod_eq_of_lt]
      exact lt_of_lt_of_le hx (Nat.pow_le_pow_right Nat.zero_lt_two (Nat.not_lt.1 hsplit))
    rw [hwhole] at hor ⊢
    by_cases hfull : (nBits + min (8 - o) 3) % 8 = 0
    · rw [if_pos hfull, if_neg hsplit]
      refine ⟨⟨?_, ?_, ?_⟩, by dsimp only; omega⟩
      · dsimp only
        rw [List.length_append, List.length_singleton]
        omega
      · exact Nat.two_pow_pos _
      · dsimp only
        rw [number_append, number_singleton, hor, UInt8.toNat_zero]
        ring
    · have hrem : (nBits + min (8 - o) 3) % 8 = o + 3 := by omega
      rw [if_neg hfull]
      refine ⟨⟨?_, ?_, ?_⟩, by dsimp only; omega⟩
      · dsimp only
        omega
      · dsimp only
        rw [hor, hrem, Nat.pow_add]
        have hle : 2 ^ o * (x + 1) ≤ 2 ^ o * 2 ^ 3 := Nat.mul_le_mul_left _ hx
        rw [Nat.mul_add, Nat.mul_one] at hle
        omega
      · dsimp only
        rw [hor]
        ring

/-- The digits of the values. -/
def ppets (infos : List EhtPpeThresholdsInfo) : List ℕ :=
  infos.flatMap fun info => [info.ppetMax.val, info.ppet8.val]

theorem Written.foldl (h : Written w n) (infos : List EhtPpeThresholdsInfo) :
    Written (infos.foldl writeInfo w) (n + 2 ^ w.nBitsNoPadding * Nat.ofDigits 8 (ppets infos)) ∧
      (infos.foldl writeInfo w).nBitsNoPadding = w.nBitsNoPadding + 6 * infos.length := by
  induction infos generalizing w n with
  | nil => exact ⟨h, rfl⟩
  | cons info infos ih =>
    obtain ⟨hmax, hbits⟩ := h.writePpet info.ppetMax
    obtain ⟨h8, hbits8⟩ := hmax.writePpet info.ppet8
    obtain ⟨hall, hbitsAll⟩ := ih h8
    have hnumber : n + 2 ^ w.nBitsNoPadding * Nat.ofDigits 8 (ppets (info :: infos)) =
        n + 2 ^ w.nBitsNoPadding * info.ppetMax.val +
          2 ^ (w.nBitsNoPadding + 3) * info.ppet8.val +
            2 ^ (w.nBitsNoPadding + 3 + 3) * Nat.ofDigits 8 (ppets infos) := by
      have hdigits : Nat.ofDigits 8 (ppets (info :: infos)) = info.ppetMax.val +
          8 * (info.ppet8.val + 8 * Nat.ofDigits 8 (ppets infos)) := by
        rw [ppets, List.flatMap_cons, List.cons_append, List.singleton_append, Nat.ofDigits_cons,
          Nat.ofDigits_cons]
        rfl
      rw [hdigits]
      ring
    rw [hbits8, hbits] at hall hbitsAll
    rw [hnumber]
    refine ⟨hall, ?_⟩
    rw [List.foldl_cons, List.length_cons]
    change (infos.foldl writeInfo (EhtPpeThresholds.writePpet (EhtPpeThresholds.writePpet w
      info.ppetMax) info.ppet8)).nBitsNoPadding = _
    rw [hbitsAll]
    omega

/-! ## Reading the values -/

/-- The number that the reader still has, from its position on. -/
def remaining (r : PpeReader) : ℕ :=
  (r.val.toNat + 256 * number r.i) / 2 ^ (r.nBitsNoPadding % 8)

/-- The bits that the reader still has. -/
def bitsAhead (r : PpeReader) : ℕ :=
  8 - r.nBitsNoPadding % 8 + 8 * r.i.length

/-- The number of which the first bits have been read, when it goes on with another byte. -/
theorem readPpet_split {val val' : UInt8} {i : List UInt8} {nBits : ℕ} (hsplit : 5 < nBits % 8) :
    readPpet ⟨val, val' :: i, nBits⟩ =
      some (.ofNat 8 (remaining ⟨val, val' :: i, nBits⟩), ⟨val', i, nBits + 3⟩) := by
  have hfull : (nBits + min (8 - nBits % 8) 3) % 8 = 0 := by omega
  have hbits : nBits + min (8 - nBits % 8) 3 + (3 - (8 - nBits % 8)) = nBits + 3 := by omega
  have hval := val.toNat_lt
  have hval' := val'.toNat_lt
  simp only [readPpet, remaining]
  rw [if_pos hfull, if_pos (by omega), hbits]
  refine congrArg some (Prod.ext (Fin.ext ?_) rfl)
  simp only [Fin.ofNat, and_bitMask, Nat.shiftRight_eq_div_pow, number_cons]
  have hoffset : nBits % 8 = 6 ∨ nBits % 8 = 7 := by omega
  rcases hoffset with h6 | h7
  · rw [h6]
    have hlow : val.toNat / 2 ^ 6 % 2 ^ (8 - 6) % 8 < 2 ^ 2 := by omega
    rw [Nat.or_comm, ← Nat.shiftLeft_add_eq_or_of_lt hlow, Nat.shiftLeft_eq]
    omega
  · rw [h7]
    have hlow : val.toNat / 2 ^ 7 % 2 ^ (8 - 7) % 8 < 2 ^ 1 := by omega
    rw [Nat.or_comm, ← Nat.shiftLeft_add_eq_or_of_lt hlow, Nat.shiftLeft_eq]
    omega

theorem readPpet_last {val val' : UInt8} {i : List UInt8} {nBits : ℕ} (hlast : nBits % 8 = 5) :
    readPpet ⟨val, val' :: i, nBits⟩ =
      some (.ofNat 8 (remaining ⟨val, val' :: i, nBits⟩), ⟨val', i, nBits + 3⟩) := by
  have hval := val.toNat_lt
  simp only [readPpet, remaining]
  rw [if_pos (by omega), if_neg (by omega), hlast]
  refine congrArg some (Prod.ext (Fin.ext ?_) rfl)
  simp only [Fin.ofNat, and_bitMask, Nat.shiftRight_eq_div_pow]
  omega

theorem readPpet_within {val : UInt8} {i : List UInt8} {nBits : ℕ} (hwithin : nBits % 8 < 5) :
    readPpet ⟨val, i, nBits⟩ =
      some (.ofNat 8 (remaining ⟨val, i, nBits⟩), ⟨val, i, nBits + 3⟩) := by
  have hval := val.toNat_lt
  have hbits : nBits + min (8 - nBits % 8) 3 = nBits + 3 := by omega
  simp only [readPpet, remaining]
  rw [if_neg (by omega), hbits]
  refine congrArg some (Prod.ext (Fin.ext ?_) rfl)
  simp only [Fin.ofNat, and_bitMask, Nat.shiftRight_eq_div_pow]
  generalize nBits % 8 = o at hwithin ⊢
  interval_cases o <;> omega

/-- A value is read from the number, if there are bits behind it. -/
theorem readPpet_spec (h : 3 < bitsAhead r) :
    ∃ r', readPpet r = some (.ofNat 8 (remaining r), r') ∧
      remaining r' = remaining r / 8 ∧ r'.nBitsNoPadding = r.nBitsNoPadding + 3 ∧
      bitsAhead r' + 3 = bitsAhead r ∧ r'.i <:+ r.i := by
  obtain ⟨val, i, nBits⟩ := r
  have hval := val.toNat_lt
  rcases lt_or_ge (nBits % 8) 5 with hwithin | hge
  · refine ⟨_, readPpet_within hwithin, ?_, rfl, ?_, List.suffix_rfl⟩
    · have hrem : (nBits + 3) % 8 = nBits % 8 + 3 := by omega
      simp only [remaining]
      rw [hrem, Nat.pow_add, ← Nat.div_div_eq_div_mul]
    · simp only [bitsAhead]
      omega
  · cases i with
    | nil =>
      rw [bitsAhead] at h
      dsimp only [List.length_nil] at h
      omega
    | cons val' i =>
      have hread : readPpet ⟨val, val' :: i, nBits⟩ =
          some (.ofNat 8 (remaining ⟨val, val' :: i, nBits⟩), ⟨val', i, nBits + 3⟩) := by
        rcases Nat.eq_or_lt_of_le hge with hlast | hsplit
        · exact readPpet_last hlast.symm
        · exact readPpet_split hsplit
      refine ⟨_, hread, ?_, rfl, ?_, List.suffix_cons _ _⟩
      · have hrem : (nBits + 3) % 8 = nBits % 8 - 5 := by omega
        simp only [remaining, number_cons]
        rw [hrem]
        have hlt : nBits % 8 < 8 := Nat.mod_lt _ (by decide)
        generalize nBits % 8 = o at hge hlt
        interval_cases o <;> omega
      · simp only [bitsAhead, List.length_cons]
        omega

/-- All values are read, if the number has their digits and there are bits behind them. -/
theorem readInfos_spec {infos : List EhtPpeThresholdsInfo} {rounds c : ℕ}
    (hrounds : infos.length < rounds)
    (hnumber : remaining r = Nat.ofDigits 8 (ppets infos) + 8 ^ (2 * infos.length) * c)
    (hbits : 6 * infos.length < bitsAhead r) (read : List EhtPpeThresholdsInfo) :
    ∃ r', readInfos (r.nBitsNoPadding + 6 * infos.length) rounds r read =
        some (read ++ infos, r') ∧
      bitsAhead r' + 6 * infos.length = bitsAhead r ∧ r'.i <:+ r.i := by
  induction infos generalizing r rounds read with
  | nil =>
    obtain ⟨rounds, rfl⟩ := Nat.exists_eq_succ_of_ne_zero (Nat.ne_of_gt hrounds)
    refine ⟨r, ?_, rfl, List.suffix_rfl⟩
    rw [readInfos, if_neg (by simp), List.append_nil]
  | cons info infos ih =>
    obtain ⟨rounds, rfl⟩ := Nat.exists_eq_succ_of_ne_zero (Nat.ne_of_gt (Nat.zero_lt_of_lt hrounds))
    rw [List.length_cons] at hrounds hbits hnumber ⊢
    obtain ⟨r1, hread1, hnumber1, hn1, hahead1, hsuffix1⟩ := readPpet_spec (r := r) (by omega)
    obtain ⟨r2, hread2, hnumber2, hn2, hahead2, hsuffix2⟩ := readPpet_spec (r := r1) (by omega)
    have hmax := info.ppetMax.isLt
    have h8 := info.ppet8.isLt
    have hdigits : remaining r = info.ppetMax.val + 8 * (info.ppet8.val +
        8 * (Nat.ofDigits 8 (ppets infos) + 8 ^ (2 * infos.length) * c)) := by
      rw [hnumber, ppets, List.flatMap_cons, List.cons_append, List.singleton_append,
        Nat.ofDigits_cons, Nat.ofDigits_cons, ← ppets]
      ring
    have hppetMax : Fin.ofNat 8 (remaining r) = info.ppetMax := Fin.ext (by
      change remaining r % 8 = _
      omega)
    have hppet8 : Fin.ofNat 8 (remaining r1) = info.ppet8 := Fin.ext (by
      change remaining r1 % 8 = _
      omega)
    obtain ⟨r3, hread3, hahead3, hsuffix3⟩ := @ih r2 rounds (by omega) (by omega)
      (by omega) (read ++ [info])
    refine ⟨r3, ?_, by omega, hsuffix3.trans (hsuffix2.trans hsuffix1)⟩
    have hend : r.nBitsNoPadding + 6 * (infos.length + 1) =
        r2.nBitsNoPadding + 6 * infos.length := by omega
    rw [readInfos, if_pos (by omega), hread1, Option.bind_some]
    dsimp only
    rw [hread2, Option.bind_some]
    dsimp only
    rw [hppetMax, hppet8, hend, hread3, List.append_assoc]
    rfl

/-! ## Reading a subfield back -/

theorem written_writeHeader (e : EhtPpeThresholds) :
    Written e.writeHeader (e.nssPe + 16 * e.ruIndexBitmask) := by
  have hheader : ∀ (nssPe : Fin 16) (mask : Fin 32),
      (UInt8.ofNat ((mask.val &&& 0x10) >>> 4)).toNat < 2 ^ 1 ∧
        (UInt8.ofNat (nssPe.val ||| (mask.val &&& 0x0f) <<< 4)).toNat +
          256 * (UInt8.ofNat ((mask.val &&& 0x10) >>> 4)).toNat = nssPe + 16 * mask := by
    decide
  obtain ⟨hval, hnumber⟩ := hheader e.nssPe e.ruIndexBitmask
  have hnine : e.writeHeader.nBitsNoPadding = 9 := rfl
  constructor
  · rw [hnine]
    rfl
  · rw [hnine]
    exact hval
  · rw [← hnumber, writeHeader, number_singleton]
    rfl

/-- The bytes are as many as `GetSize` says, and their number is the header and the values. -/
theorem serialize_spec (h : e.ppeThresholdsInfo.length =
      numBitsSet e.ruIndexBitmask * (e.nssPe + 1)) :
    e.serialize.length = e.getSize ∧ number e.serialize = e.nssPe + 16 * e.ruIndexBitmask +
      2 ^ 9 * Nat.ofDigits 8 (ppets e.ppeThresholdsInfo) := by
  obtain ⟨hwritten, hbits⟩ := (written_writeHeader e).foldl e.ppeThresholdsInfo
  have hnine : e.writeHeader.nBitsNoPadding = 9 := rfl
  have hsize : nBits e.nssPe e.ruIndexBitmask = 9 + 6 * e.ppeThresholdsInfo.length := by
    rw [nBits, h, Nat.mul_assoc]
  rw [hnine] at hwritten hbits
  rw [serialize, flush, if_pos (by omega), getSize, hsize]
  constructor
  · rw [List.length_append, List.length_singleton, hwritten.length, hbits]
    omega
  · rw [number_append, number_singleton, hwritten.number]

theorem header_read {nssPe : Fin 16} {mask : Fin 32} {val val' : UInt8}
    (hval : val.toNat = nssPe + 16 * (mask.val % 16)) (hval' : val'.toNat % 2 = mask / 16) :
    Fin.ofNat 16 (val.toNat &&& 0x0f) = nssPe ∧
      Fin.ofNat 32 ((val.toNat >>> 4 &&& 0x0f) ||| (val'.toNat &&& 0x01) <<< 4) = mask := by
  have hn := nssPe.isLt
  have hm := mask.isLt
  have hlow : ∀ x : ℕ, x &&& 0x0f = x % 16 := fun x => Nat.and_two_pow_sub_one_eq_mod x 4
  have hbit : ∀ x : ℕ, x &&& 0x01 = x % 2 := fun x => Nat.and_two_pow_sub_one_eq_mod x 1
  constructor
  · refine Fin.ext ?_
    change (val.toNat &&& 0x0f) % 16 = _
    rw [hlow]
    omega
  · refine Fin.ext ?_
    change (_ ||| _) % 32 = _
    have hlt : mask.val % 16 < 2 ^ 4 := Nat.mod_lt _ (by decide)
    have hhigh : val.toNat >>> 4 &&& 0x0f = mask.val % 16 := by
      rw [hlow, Nat.shiftRight_eq_div_pow]
      omega
    rw [hhigh, hbit, hval', Nat.or_comm, ← Nat.shiftLeft_add_eq_or_of_lt hlt, Nat.shiftLeft_eq]
    omega

/-- A subfield is written with `GetSize` bytes, and these are the bytes that are read, none behind
them. The same subfield is read. -/
theorem deserialize_thresholds (e old : EhtPpeThresholds) (h : e.ppeThresholdsInfo.length =
      numBitsSet e.ruIndexBitmask * (e.nssPe + 1)) (hold : old.ppeThresholdsInfo = [])
    (tail : List UInt8) : e.serialize.length = e.getSize ∧
      old.deserialize (e.serialize ++ tail) = some (e, e.getSize, tail) := by
  obtain ⟨hlength, hnumber⟩ := serialize_spec h
  refine ⟨hlength, ?_⟩
  set n := e.ppeThresholdsInfo.length with hn
  have hsize : nBits e.nssPe e.ruIndexBitmask = 9 + 6 * n := by
    rw [nBits, h, Nat.mul_assoc]
  rw [getSize, hsize] at hlength
  have hn16 := e.nssPe.isLt
  have hm32 := e.ruIndexBitmask.isLt
  rcases hbytes : e.serialize with - | ⟨val, - | ⟨val', i⟩⟩
  · rw [hbytes, List.length_nil] at hlength
    omega
  · rw [hbytes, List.length_singleton] at hlength
    omega
  rw [hbytes, number_cons, number_cons] at hnumber
  rw [hbytes, List.length_cons, List.length_cons] at hlength
  have hval := val.toNat_lt
  have hval' := val'.toNat_lt
  obtain ⟨hnssPe, hmask⟩ := @header_read e.nssPe e.ruIndexBitmask val val' (by omega)
    (by omega)
  have hremaining : remaining ⟨val', i ++ tail, 9⟩ = Nat.ofDigits 8 (ppets e.ppeThresholdsInfo) +
      8 ^ (2 * n) * (2 ^ (8 * (i.length + 2) - (9 + 6 * n)) * number tail) := by
    have hpow : 2 ^ (9 % 8) * (8 ^ (2 * n) * 2 ^ (8 * (i.length + 2) - (9 + 6 * n))) =
        256 * 256 ^ i.length := by
      have h8 : 8 ^ (2 * n) = 2 ^ (6 * n) := by
        rw [show 8 = 2 ^ 3 from rfl, ← Nat.pow_mul]
        congr 1
        omega
      have h256 : 256 * 256 ^ i.length = 2 ^ (8 + 8 * i.length) := by
        rw [Nat.pow_add, Nat.pow_mul]
      rw [h8, h256, ← Nat.pow_add, ← Nat.pow_add]
      congr 1
      omega
    simp only [remaining]
    rw [number_append, Nat.mul_add, ← Nat.mul_assoc 256, ← hpow, ← Nat.add_assoc, Nat.mul_assoc,
      Nat.add_mul_div_left _ _ (Nat.two_pow_pos _), Nat.mul_assoc]
    congr 1
    change (val'.toNat + 256 * number i) / 2 = _
    omega
  obtain ⟨r', hread, hahead, hsuffix⟩ := @readInfos_spec ⟨val', i ++ tail, 9⟩ _
    (9 + 6 * n) _ (by omega) hremaining (by
      simp only [bitsAhead, List.length_append]
      omega) []
  have htail : r'.i = tail := by
    have hlen : r'.i.length = tail.length := by
      simp only [bitsAhead, List.length_append] at hahead
      omega
    exact ((List.suffix_of_suffix_length_le hsuffix (List.suffix_append _ _) hlen.le).eq_of_length
      hlen)
  rw [List.cons_append, List.cons_append, deserialize]
  dsimp only
  rw [hnssPe, hmask, hold, hsize, hread, Option.map_some, getSize, hsize, htail]
  rfl

/-- Two RU sizes and two spatial streams. -/
theorem deserialize_thresholds_four :
    deserialize {} (serialize ⟨1, 0x11, [⟨1, 2⟩, ⟨3, 4⟩, ⟨5, 6⟩, ⟨7, 0⟩]⟩ ++ [0xff]) =
      some (⟨1, 0x11, [⟨1, 2⟩, ⟨3, 4⟩, ⟨5, 6⟩, ⟨7, 0⟩]⟩, 5, [0xff]) :=
  (deserialize_thresholds ⟨1, 0x11, [⟨1, 2⟩, ⟨3, 4⟩, ⟨5, 6⟩, ⟨7, 0⟩]⟩ {} (by decide) rfl [0xff]).2

end EhtPpeThresholds

end Ns3Pedca
