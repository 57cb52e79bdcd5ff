import Mathlib

/-!
# Fields and bitmaps in bytes

Integers are written to a buffer in little-endian order, and read from the front of one. A
read returns what was written and leaves what follows it (`readU16_writeU16`,
`readUInt_writeUInt`). The fields of an integer are added up (`or_shiftLeft`). A bitmap is a
list of bytes : bit `i` is bit `i % 8` of byte `i / 8`, so setting it and testing any other bit
are independent (`getBit_setBit`).
-/

namespace Bytes

/-! ## Sizes of fields -/

instance four_neZero : NeZero (4 : ℕ) :=
  ⟨by decide⟩

instance eight_neZero : NeZero (8 : ℕ) :=
  ⟨by decide⟩

instance sixteen_neZero : NeZero (16 : ℕ) :=
  ⟨by decide⟩

instance thirtyTwo_neZero : NeZero (32 : ℕ) :=
  ⟨by decide⟩

/-! ## Integers -/

/-- The two bytes of `data`. -/
def writeU16 (data : ℕ) : List UInt8 :=
  [.ofNat data, .ofNat (data >>> 8)]

/-- The integer in the first two bytes, and the bytes after them. -/
def readU16 : List UInt8 → Option (ℕ × List UInt8)
  | lo :: hi :: rest => some (lo.toNat ||| hi.toNat <<< 8, rest)
  | _ => none

/-- The two bytes of `data`, the most significant first : `WriteHtonU16`. -/
def writeHtonU16 (data : ℕ) : List UInt8 :=
  [.ofNat (data >>> 8), .ofNat data]

/-- `ReadNtohU16`, and the bytes after it. -/
def readNtohU16 : List UInt8 → Option (ℕ × List UInt8)
  | hi :: lo :: rest => readU16 (lo :: hi :: rest)
  | _ => none

/-- `ReadNtohU32`, and the bytes after it. -/
def readNtohU32 (bytes : List UInt8) : Option (ℕ × List UInt8) := do
  let (high, bytes) ← readNtohU16 bytes
  let (low, bytes) ← readNtohU16 bytes
  return (high <<< 16 ||| low, bytes)

/-- `WriteHtonU32`. -/
def writeHtonU32 (data : ℕ) : List UInt8 :=
  [.ofNat (data >>> 24), .ofNat (data >>> 16), .ofNat (data >>> 8), .ofNat data]

/-- The first `n` bytes, and the bytes after them. -/
def readBytes (n : ℕ) (bytes : List UInt8) : Option (List UInt8 × List UInt8) :=
  if n ≤ bytes.length then some (bytes.take n, bytes.drop n) else none

theorem readU16_writeU16 {data : ℕ} (h : data < 2 ^ 16) (rest : List UInt8) :
    readU16 (writeU16 data ++ rest) = some (data, rest) := by
  have hlo : (UInt8.ofNat data).toNat = data % 2 ^ 8 := UInt8.toNat_ofNat'
  have hhi : (UInt8.ofNat (data >>> 8)).toNat = data / 2 ^ 8 := by
    rw [UInt8.toNat_ofNat', Nat.shiftRight_eq_div_pow]
    exact Nat.mod_eq_of_lt (by omega)
  have hor : data % 2 ^ 8 ||| (data / 2 ^ 8) <<< 8 = data := by
    rw [Nat.or_comm, ← Nat.shiftLeft_add_eq_or_of_lt (Nat.mod_lt _ (by decide)),
      Nat.shiftLeft_eq, Nat.mul_comm]
    exact Nat.div_add_mod data (2 ^ 8)
  change some ((UInt8.ofNat data).toNat ||| (UInt8.ofNat (data >>> 8)).toNat <<< 8, rest) = _
  rw [hlo, hhi, hor]

theorem readNtohU16_writeHtonU16 {data : ℕ} (h : data < 2 ^ 16) (rest : List UInt8) :
    readNtohU16 (writeHtonU16 data ++ rest) = some (data, rest) :=
  readU16_writeU16 h rest

theorem length_writeHtonU16 (data : ℕ) : (writeHtonU16 data).length = 2 :=
  rfl

theorem length_writeHtonU32 (data : ℕ) : (writeHtonU32 data).length = 4 :=
  rfl

/-- Only the lower 16 bits are written. -/
theorem writeHtonU16_mod (data : ℕ) : writeHtonU16 (data % 2 ^ 16) = writeHtonU16 data := by
  have hlo : UInt8.ofNat (data % 2 ^ 16) = .ofNat data := by
    rw [← UInt8.toNat_inj, UInt8.toNat_ofNat', UInt8.toNat_ofNat']
    omega
  have hhi : UInt8.ofNat ((data % 2 ^ 16) >>> 8) = .ofNat (data >>> 8) := by
    rw [← UInt8.toNat_inj, UInt8.toNat_ofNat', UInt8.toNat_ofNat', Nat.shiftRight_eq_div_pow,
      Nat.shiftRight_eq_div_pow]
    omega
  rw [writeHtonU16, writeHtonU16, hlo, hhi]

theorem writeHtonU32_eq (data : ℕ) :
    writeHtonU32 data = writeHtonU16 (data >>> 16) ++ writeHtonU16 data := by
  rw [writeHtonU16, ← Nat.shiftRight_add]
  rfl

theorem readNtohU32_writeHtonU32 {data : ℕ} (h : data < 2 ^ 32) (rest : List UInt8) :
    readNtohU32 (writeHtonU32 data ++ rest) = some (data, rest) := by
  have hhigh : data >>> 16 < 2 ^ 16 := by
    rw [Nat.shiftRight_eq_div_pow]
    omega
  have hlow : data % 2 ^ 16 < 2 ^ 16 := Nat.mod_lt _ (by norm_num)
  have hor : (data >>> 16) <<< 16 ||| data % 2 ^ 16 = data := by
    rw [← Nat.shiftLeft_add_eq_or_of_lt hlow, Nat.shiftLeft_eq, Nat.shiftRight_eq_div_pow,
      Nat.mul_comm]
    exact Nat.div_add_mod data (2 ^ 16)
  rw [writeHtonU32_eq, ← writeHtonU16_mod data, List.append_assoc, readNtohU32,
    readNtohU16_writeHtonU16 hhigh]
  dsimp only [Option.bind_eq_bind, Option.bind_some]
  rw [readNtohU16_writeHtonU16 hlow]
  dsimp only [Option.bind_eq_bind, Option.bind_some]
  rw [hor]
  rfl

theorem readNtohU16_cons (hi lo : UInt8) (rest : List UInt8) :
    readNtohU16 (hi :: lo :: rest) = some (lo.toNat ||| hi.toNat <<< 8, rest) :=
  rfl

/-- Two bytes are read, if they are there. -/
theorem readNtohU16_of_le {bytes : List UInt8} (h : 2 ≤ bytes.length) :
    ∃ data, readNtohU16 bytes = some (data, bytes.drop 2) := by
  obtain ⟨hi, rest, rfl⟩ := List.exists_cons_of_length_pos (show 0 < bytes.length by omega)
  obtain ⟨lo, rest, rfl⟩ :=
    List.exists_cons_of_length_pos (Nat.lt_of_succ_le (Nat.le_of_succ_le_succ h))
  exact ⟨_, readNtohU16_cons hi lo rest⟩

/-- Four bytes are read, if they are there. -/
theorem readNtohU32_of_le {bytes : List UInt8} (h : 4 ≤ bytes.length) :
    ∃ data, readNtohU32 bytes = some (data, bytes.drop 4) := by
  obtain ⟨high, hhigh⟩ := readNtohU16_of_le (show 2 ≤ bytes.length by omega)
  obtain ⟨low, hlow⟩ :=
    @readNtohU16_of_le (bytes.drop 2) (by rw [List.length_drop]; omega)
  refine ⟨high <<< 16 ||| low, ?_⟩
  rw [readNtohU32, hhigh]
  dsimp only [Option.bind_eq_bind, Option.bind_some]
  rw [hlow]
  dsimp only [Option.bind_eq_bind, Option.bind_some]
  rw [List.drop_drop]
  rfl

theorem readNtohU16_eq_none {bytes : List UInt8} (h : bytes.length < 2) :
    readNtohU16 bytes = none := by
  rcases bytes with _ | ⟨a, _ | ⟨b, rest⟩⟩
  · rfl
  · rfl
  · rw [List.length_cons, List.length_cons] at h
    omega

theorem readNtohU32_eq_none {bytes : List UInt8} (h : bytes.length < 4) :
    readNtohU32 bytes = none := by
  rw [readNtohU32]
  by_cases htwo : 2 ≤ bytes.length
  · obtain ⟨high, hhigh⟩ := readNtohU16_of_le htwo
    have hlow : readNtohU16 (bytes.drop 2) = none :=
      readNtohU16_eq_none (by rw [List.length_drop]; omega)
    rw [hhigh]
    dsimp only [Option.bind_eq_bind, Option.bind_some]
    rw [hlow]
    rfl
  · rw [readNtohU16_eq_none (not_le.mp htwo)]
    rfl

theorem length_writeU16 (data : ℕ) : (writeU16 data).length = 2 :=
  rfl

theorem readBytes_append (bytes rest : List UInt8) :
    readBytes bytes.length (bytes ++ rest) = some (bytes, rest) := by
  rw [readBytes, if_pos (by simp), List.take_left, List.drop_left]

/-! ## Bytes as digits -/

/-- The number whose digits are the bytes, the least significant first. -/
def number (bytes : List UInt8) : ℕ :=
  Nat.ofDigits 256 (bytes.map UInt8.toNat)

@[simp] theorem number_nil : number [] = 0 :=
  rfl

theorem number_cons (byte : UInt8) (bytes : List UInt8) :
    number (byte :: bytes) = byte.toNat + 256 * number bytes := by
  rw [number, number, List.map_cons, Nat.ofDigits_cons]

theorem number_append (bytes rest : List UInt8) :
    number (bytes ++ rest) = number bytes + 256 ^ bytes.length * number rest := by
  rw [number, number, number, List.map_append, Nat.ofDigits_append, List.length_map]

theorem number_singleton (byte : UInt8) : number [byte] = byte.toNat := by
  rw [number_cons, number_nil, Nat.mul_zero, Nat.add_zero]

/-- The `n` bytes of `data`, the least significant first. -/
def writeUInt : ℕ → ℕ → List UInt8
  | 0, _ => []
  | n + 1, data => .ofNat data :: writeUInt n (data >>> 8)

/-- The integer in the first `n` bytes, and the bytes after them. -/
def readUInt (n : ℕ) (bytes : List UInt8) : Option (ℕ × List UInt8) :=
  (readBytes n bytes).map fun (field, rest) => (number field, rest)

theorem length_writeUInt (n data : ℕ) : (writeUInt n data).length = n := by
  induction n generalizing data with
  | zero => rfl
  | succ n ih => rw [writeUInt, List.length_cons, ih]

theorem number_writeUInt (n data : ℕ) : number (writeUInt n data) = data % 256 ^ n := by
  induction n generalizing data with
  | zero => rw [writeUInt, number_nil, pow_zero, Nat.mod_one]
  | succ n ih =>
    rw [writeUInt, number_cons, ih, UInt8.toNat_ofNat', Nat.shiftRight_eq_div_pow, pow_succ' 256]
    exact Nat.mod_mul.symm

theorem readUInt_writeUInt {n data : ℕ} (h : data < 256 ^ n) (rest : List UInt8) :
    readUInt n (writeUInt n data ++ rest) = some (data, rest) := by
  have hread := readBytes_append (writeUInt n data) rest
  rw [length_writeUInt] at hread
  rw [readUInt, hread, Option.map_some]
  dsimp only
  rw [number_writeUInt, Nat.mod_eq_of_lt h]

/-- The first two bytes of a longer integer. -/
theorem readU16_writeUInt {n : ℕ} (data : ℕ) (rest : List UInt8) :
    ∃ after, readU16 (writeUInt (n + 2) data ++ rest) = some (data % 2 ^ 16, after) := by
  refine ⟨writeUInt n (data >>> 8 >>> 8) ++ rest, ?_⟩
  have hread := @readNtohU16_writeHtonU16 (data % 2 ^ 16) (Nat.mod_lt _ (by norm_num))
    (writeUInt n (data >>> 8 >>> 8) ++ rest)
  rw [writeHtonU16_mod] at hread
  exact hread

/-! ## Bit fields -/

/-- A field above those that are there. -/
theorem or_shiftLeft {low k : ℕ} (h : low < 2 ^ k) (high : ℕ) :
    low ||| high <<< k = low + 2 ^ k * high := by
  rw [Nat.or_comm, ← Nat.shiftLeft_add_eq_or_of_lt h, Nat.shiftLeft_eq, Nat.mul_comm, Nat.add_comm]

theorem and_mask {mask width : ℕ} (h : mask + 1 = 2 ^ width) (word : ℕ) :
    word &&& mask = word % 2 ^ width := by
  rw [show mask = 2 ^ width - 1 by omega, Nat.and_two_pow_sub_one_eq_mod]

/-- A field of `width` bits, selected by a mask. -/
theorem shiftRight_and {mask width : ℕ} (h : mask + 1 = 2 ^ width) (word k : ℕ) :
    word >>> k &&& mask = word / 2 ^ k % 2 ^ width := by
  rw [and_mask h, Nat.shiftRight_eq_div_pow]

/-- A flag is a field of one bit. -/
theorem ite_shiftLeft (flag : Bool) (k : ℕ) :
    (if flag then 1 <<< k else 0) = flag.toNat <<< k := by
  cases flag
  · exact (Nat.zero_shiftLeft k).symm
  · rfl

/-! ## Bitmaps -/

/-- Bit `i` is set to `1`. -/
def setBit (bitmap : List UInt8) (i : ℕ) : List UInt8 :=
  bitmap.modify (i / 8) fun byte => byte ||| 1 <<< UInt8.ofNat (i % 8)

/-- Bit `i` is `1`. -/
def getBit (bitmap : List UInt8) (i : ℕ) : Bool :=
  bitmap.getD (i / 8) 0 &&& 1 <<< UInt8.ofNat (i % 8) ≠ 0

@[simp] theorem length_setBit (bitmap : List UInt8) (i : ℕ) :
    (setBit bitmap i).length = bitmap.length :=
  List.length_modify ..

theorem toNat_mask {k : ℕ} (hk : k < 8) : ((1 : UInt8) <<< UInt8.ofNat k).toNat = 2 ^ k := by
  interval_cases k <;> rfl

/-- A mask of one bit selects that bit. -/
theorem and_mask_ne_zero {byte : UInt8} {k : ℕ} (hk : k < 8) :
    byte &&& 1 <<< UInt8.ofNat k ≠ 0 ↔ byte.toNat.testBit k = true := by
  rw [Ne, ← UInt8.toNat_inj, UInt8.toNat_and, toNat_mask hk, Nat.and_two_pow]
  cases byte.toNat.testBit k <;> simp

theorem getBit_eq (bitmap : List UInt8) (i : ℕ) :
    getBit bitmap i = (bitmap.getD (i / 8) 0).toNat.testBit (i % 8) := by
  rw [Bool.eq_iff_iff, getBit, decide_eq_true_iff]
  exact and_mask_ne_zero (Nat.mod_lt _ (by decide))

theorem getBit_replicate (n i : ℕ) : getBit (List.replicate n 0) i = false := by
  have hbyte : (List.replicate n (0 : UInt8)).getD (i / 8) 0 = 0 := by
    rw [List.getD_eq_getElem?_getD, List.getElem?_replicate]
    split <;> rfl
  rw [getBit_eq, hbyte]
  exact Nat.zero_testBit _

/-- Setting a bit leaves the others. -/
theorem getBit_setBit {bitmap : List UInt8} {i : ℕ} (hi : i < bitmap.length * 8) (j : ℕ) :
    getBit (setBit bitmap i) j = (decide (j = i) || getBit bitmap j) := by
  have hlt : i / 8 < bitmap.length := by omega
  rw [getBit_eq, getBit_eq, setBit]
  by_cases hbyte : j / 8 = i / 8
  · have hget : (bitmap.modify (i / 8) fun byte => byte ||| 1 <<< UInt8.ofNat (i % 8)).getD
        (j / 8) 0 = bitmap.getD (j / 8) 0 ||| 1 <<< UInt8.ofNat (i % 8) := by
      rw [hbyte, List.getD_eq_getElem?_getD, List.getElem?_modify_eq, List.getD_eq_getElem?_getD,
        List.getElem?_eq_getElem hlt]
      rfl
    rw [hget, UInt8.toNat_or, toNat_mask (Nat.mod_lt _ (by decide)), Nat.testBit_or,
      Nat.testBit_two_pow, Bool.or_comm]
    congr 1
    rw [decide_eq_decide]
    omega
  · have hget : (bitmap.modify (i / 8) fun byte => byte ||| 1 <<< UInt8.ofNat (i % 8)).getD
        (j / 8) 0 = bitmap.getD (j / 8) 0 := by
      rw [List.getD_eq_getElem?_getD, List.getElem?_modify_ne _ _ (Ne.symm hbyte),
        List.getD_eq_getElem?_getD]
    have hne : j ≠ i := fun h => hbyte (congrArg (· / 8) h)
    rw [hget, decide_eq_false hne, Bool.false_or]

/-- A bitmap in which the bits of a list are set one after another has these bits, and those it
had. -/
theorem getBit_foldl_setBit {bits : List ℕ} {bitmap : List UInt8}
    (hbits : ∀ i ∈ bits, i < bitmap.length * 8) (j : ℕ) :
    getBit (bits.foldl setBit bitmap) j = (decide (j ∈ bits) || getBit bitmap j) := by
  induction bits generalizing bitmap with
  | nil => simp
  | cons i bits ih =>
    have hi : i < bitmap.length * 8 := hbits i (List.mem_cons_self ..)
    have htail : ∀ k ∈ bits, k < (setBit bitmap i).length * 8 := by
      intro k hk
      rw [length_setBit]
      exact hbits k (List.mem_cons_of_mem i hk)
    rw [List.foldl_cons, ih htail, getBit_setBit hi, ← Bool.or_assoc]
    congr 1
    rw [Bool.eq_iff_iff]
    simp only [Bool.or_eq_true, decide_eq_true_eq, List.mem_cons]
    exact or_comm

theorem length_foldl_setBit (bits : List ℕ) (bitmap : List UInt8) :
    (bits.foldl setBit bitmap).length = bitmap.length := by
  induction bits generalizing bitmap with
  | nil => rfl
  | cons i bits ih => rw [List.foldl_cons, ih, length_setBit]

theorem getBit_append_right (octet : UInt8) (bitmap : List UInt8) (i : ℕ) :
    getBit (octet :: bitmap) (8 + i) = getBit bitmap i := by
  have hbyte : (8 + i) / 8 = i / 8 + 1 := by omega
  have hbit : (8 + i) % 8 = i % 8 := by omega
  rw [getBit, getBit, hbyte, hbit, List.getD_cons_succ]

end Bytes
