import Ns3Pedca.Bytes

/-!
# Parsing a TCP header

`TcpHeader::Deserialize` reads 20 bytes, of which four bits are the data offset, and then options
as long as the option area is not used up. An option is decoded first, and its size is compared
with what is left of the area afterwards. The size that is returned is computed from the options
that have been kept.

So a decoder can read beyond the area, an unknown option whose length octet is 0 is decoded again
and again (`not_parses_of_stuck`), and the padding behind an END option is missing from the
size. `Parsable` is what an option area has to be like for none of this to happen
(`parsesHeader_iff`).
-/

namespace Ns3Pedca

open Bytes

/-- `TcpOption`, by its kinds. -/
inductive TcpOption
  | endOfList
  | nop
  | mss (mss : ℕ)
  | winScale (scale : UInt8)
  | sackPermitted
  | sack (sackList : List (ℕ × ℕ))
  | ts (timestamp echo : ℕ)
  | unknown (kind : UInt8) (size : ℕ) (content : List UInt8)
  deriving DecidableEq

namespace TcpOption

/-- `GetSerializedSize`. -/
def getSerializedSize : TcpOption → ℕ
  | endOfList => 1
  | nop => 1
  | mss _ => 4
  | winScale _ => 3
  | sackPermitted => 2
  | sack sackList => 2 + sackList.length * 8
  | ts _ _ => 10
  | unknown _ size _ => size

end TcpOption

/-- What a decoder does : the option, the size that it returns, and how many bytes it reads. -/
structure Decoded where
  option : TcpOption
  optionSize : ℕ
  bytesRead : ℕ
  deriving DecidableEq

/-! ## The decoders -/

/-- `TcpOptionMSS::Deserialize`, from the length octet on. It aborts on another size. -/
def decodeMSS (size : UInt8) (i : List UInt8) : Option Decoded :=
  if size ≠ 4 then none
  else (readNtohU16 i).map fun (mss, _) => ⟨.mss mss, 4, 4⟩

/-- `TcpOptionWinScale::Deserialize`. -/
def decodeWinScale (size : UInt8) (i : List UInt8) : Option Decoded :=
  if size ≠ 3 then some ⟨.winScale 0, 0, 2⟩
  else i.head?.map fun scale => ⟨.winScale scale, 3, 3⟩

/-- `TcpOptionSackPermitted::Deserialize`. -/
def decodeSackPermitted (size : UInt8) : Option Decoded :=
  if size ≠ 2 then some ⟨.sackPermitted, 0, 2⟩ else some ⟨.sackPermitted, 2, 2⟩

/-- `TcpOptionTS::Deserialize`. -/
def decodeTS (size : UInt8) (i : List UInt8) : Option Decoded :=
  if size ≠ 10 then some ⟨.ts 0 0, 0, 2⟩
  else do
    let (timestamp, i) ← readNtohU32 i
    let (echo, _) ← readNtohU32 i
    return ⟨.ts timestamp echo, 10, 10⟩

/-- The loop over the blocks of a SACK option. -/
def readSackBlocks : ℕ → List UInt8 → Option (List (ℕ × ℕ))
  | 0, _ => some []
  | sackCount + 1, i => do
    let (leftEdge, i) ← readNtohU32 i
    let (rightEdge, i) ← readNtohU32 i
    let sackList ← readSackBlocks sackCount i
    return (leftEdge, rightEdge) :: sackList

/-- `TcpOptionSack::Deserialize`. The division is that of C, so that sizes below 2 give 0 blocks. -/
def decodeSack (size : UInt8) (i : List UInt8) : Option Decoded :=
  let sackCount := (size.toNat - 2) / 8
  (readSackBlocks sackCount i).map fun sackList =>
    ⟨.sack sackList, (TcpOption.sack sackList).getSerializedSize, 2 + sackCount * 8⟩

/-- `TcpOptionUnknown::Deserialize`. -/
def decodeUnknown (kind size : UInt8) (i : List UInt8) : Option Decoded :=
  if size.toNat < 2 ∨ size.toNat > 40 then some ⟨.unknown kind size.toNat [], 0, 2⟩
  else (readBytes (size.toNat - 2) i).map fun (content, _) =>
    ⟨.unknown kind size.toNat content, size.toNat, size.toNat⟩

/-- The decoder that `CreateOption` finds for a kind, behind the length octet. -/
def decodeContent (kind size : UInt8) (i : List UInt8) : Option Decoded :=
  match kind.toNat with
  | 2 => decodeMSS size i
  | 3 => decodeWinScale size i
  | 4 => decodeSackPermitted size
  | 5 => decodeSack size i
  | 8 => decodeTS size i
  | _ => decodeUnknown kind size i

/-- `Deserialize` of the option at the front of the buffer. -/
def decodeOption (i : List UInt8) : Option Decoded := do
  let kind ← i.head?
  match kind.toNat with
  | 0 => return ⟨.endOfList, 1, 1⟩
  | 1 => return ⟨.nop, 1, 1⟩
  | _ =>
    let size ← (i.drop 1).head?
    decodeContent kind size (i.drop 2)

/-- A decoder needs `n` more bytes, and finds an option that goes to their end. -/
structure Takes (decode : List UInt8 → Option Decoded) (n : ℕ) : Prop where
  short : ∀ i : List UInt8, i.length < n → decode i = none
  long : ∀ i : List UInt8, n ≤ i.length → ∃ op, decode i = some ⟨op, 2 + n, 2 + n⟩ ∧
    op.getSerializedSize = 2 + n ∧ op ≠ .endOfList

theorem Takes.congr {decode decode' : List UInt8 → Option Decoded} {n : ℕ}
    (h : Takes decode' n) (hsame : ∀ i, decode i = decode' i) : Takes decode n := by
  rwa [funext hsame]

theorem takes_decodeMSS : Takes (decodeMSS 4) 2 where
  short i h := by
    rw [decodeMSS, if_neg (not_not.mpr rfl), readNtohU16_eq_none h, Option.map_none]
  long i h := by
    obtain ⟨mss, hmss⟩ := readNtohU16_of_le h
    refine ⟨.mss mss, ?_, rfl, by rintro ⟨⟩⟩
    rw [decodeMSS, if_neg (not_not.mpr rfl), hmss, Option.map_some]

theorem takes_decodeWinScale : Takes (decodeWinScale 3) 1 where
  short i h := by
    obtain rfl := List.length_eq_zero_iff.mp (Nat.lt_one_iff.mp h)
    rfl
  long i h := by
    obtain ⟨scale, i, rfl⟩ := List.exists_cons_of_length_pos h
    exact ⟨.winScale scale, rfl, rfl, by rintro ⟨⟩⟩

theorem takes_decodeSackPermitted : Takes (fun _ => decodeSackPermitted 2) 0 where
  short i h := absurd h (Nat.not_lt_zero _)
  long i _ := ⟨.sackPermitted, rfl, rfl, by rintro ⟨⟩⟩

theorem takes_decodeTS : Takes (decodeTS 10) 8 where
  short i h := by
    rw [decodeTS, if_neg (not_not.mpr rfl)]
    by_cases hfour : 4 ≤ i.length
    · obtain ⟨timestamp, htimestamp⟩ := readNtohU32_of_le hfour
      have hecho : readNtohU32 (i.drop 4) = none :=
        readNtohU32_eq_none (by rw [List.length_drop]; omega)
      rw [htimestamp]
      dsimp only [Option.bind_eq_bind, Option.bind_some]
      rw [hecho]
      rfl
    · rw [readNtohU32_eq_none (not_le.mp hfour)]
      rfl
  long i h := by
    obtain ⟨timestamp, htimestamp⟩ := readNtohU32_of_le (show 4 ≤ i.length by omega)
    obtain ⟨echo, hecho⟩ := @readNtohU32_of_le (i.drop 4) (by rw [List.length_drop]; omega)
    refine ⟨.ts timestamp echo, ?_, rfl, by rintro ⟨⟩⟩
    rw [decodeTS, if_neg (not_not.mpr rfl), htimestamp]
    dsimp only [Option.bind_eq_bind, Option.bind_some]
    rw [hecho]
    rfl

theorem readSackBlocks_spec (sackCount : ℕ) (i : List UInt8) :
    (i.length < sackCount * 8 → readSackBlocks sackCount i = none) ∧
      (sackCount * 8 ≤ i.length → ∃ sackList, readSackBlocks sackCount i = some sackList ∧
        sackList.length = sackCount) := by
  induction sackCount generalizing i with
  | zero => exact ⟨fun h => by omega, fun _ => ⟨[], rfl, rfl⟩⟩
  | succ sackCount ih =>
    obtain ⟨hshort, hlong⟩ := ih (i.drop 8)
    rw [List.length_drop] at hshort hlong
    rw [readSackBlocks]
    by_cases hfour : 4 ≤ i.length
    · obtain ⟨leftEdge, hleft⟩ := readNtohU32_of_le hfour
      rw [hleft]
      dsimp only [Option.bind_eq_bind, Option.bind_some]
      by_cases height : 8 ≤ i.length
      · obtain ⟨rightEdge, hright⟩ :=
          @readNtohU32_of_le (i.drop 4) (by rw [List.length_drop]; omega)
        rw [hright]
        dsimp only [Option.bind_eq_bind, Option.bind_some]
        rw [List.drop_drop]
        constructor
        · intro h
          rw [hshort (by omega)]
          rfl
        · intro h
          obtain ⟨sackList, hread, hcount⟩ := hlong (by omega)
          rw [hread]
          exact ⟨_, rfl, congrArg (· + 1) hcount⟩
      · have hright : readNtohU32 (i.drop 4) = none :=
          readNtohU32_eq_none (by rw [List.length_drop]; omega)
        rw [hright]
        exact ⟨fun _ => rfl, fun h => by omega⟩
    · rw [readNtohU32_eq_none (not_le.mp hfour)]
      exact ⟨fun _ => rfl, fun h => by omega⟩

theorem takes_decodeSack (size : UInt8) :
    Takes (decodeSack size) ((size.toNat - 2) / 8 * 8) where
  short i h := by
    simp only [decodeSack]
    rw [(readSackBlocks_spec _ i).1 h, Option.map_none]
  long i h := by
    obtain ⟨sackList, hread, hcount⟩ := (readSackBlocks_spec _ i).2 h
    refine ⟨.sack sackList, ?_, ?_, by rintro ⟨⟩⟩
    · simp only [decodeSack]
      rw [hread, Option.map_some, TcpOption.getSerializedSize, hcount]
    · rw [TcpOption.getSerializedSize, hcount]

theorem takes_decodeUnknown (kind : UInt8) {size : UInt8} (hmin : 2 ≤ size.toNat)
    (hmax : size.toNat ≤ 40) : Takes (decodeUnknown kind size) (size.toNat - 2) where
  short i h := by
    rw [decodeUnknown, if_neg (by omega), readBytes, if_neg (by omega), Option.map_none]
  long i h := by
    refine ⟨.unknown kind size.toNat (i.take (size.toNat - 2)), ?_, ?_, by rintro ⟨⟩⟩
    · rw [decodeUnknown, if_neg (by omega), readBytes, if_pos h, Option.map_some,
        Nat.add_sub_cancel' hmin]
    · exact (Nat.add_sub_cancel' hmin).symm

/-- Every decoder reads the kind and the length octet. -/
theorem two_le_bytesRead {kind size : UInt8} {i : List UInt8} {decoded : Decoded}
    (h : decodeContent kind size i = some decoded) : 2 ≤ decoded.bytesRead := by
  rw [decodeContent] at h
  split at h
  · rw [decodeMSS] at h
    split at h
    · cases h
    · obtain ⟨mss, -, rfl⟩ := Option.map_eq_some_iff.mp h
      exact Nat.le_of_ble_eq_true rfl
  · rw [decodeWinScale] at h
    split at h
    · rw [← Option.some.inj h]
    · obtain ⟨scale, -, rfl⟩ := Option.map_eq_some_iff.mp h
      exact Nat.le_of_ble_eq_true rfl
  · rw [decodeSackPermitted] at h
    split at h <;> rw [← Option.some.inj h]
  · obtain ⟨sackList, -, rfl⟩ := Option.map_eq_some_iff.mp h
    exact Nat.le_add_right ..
  · rw [decodeTS] at h
    split at h
    · rw [← Option.some.inj h]
    · obtain ⟨timestamp, -, h⟩ := Option.bind_eq_some_iff.mp h
      obtain ⟨echo, -, h⟩ := Option.bind_eq_some_iff.mp h
      rw [← Option.some.inj h]
      exact Nat.le_of_ble_eq_true rfl
  · rw [decodeUnknown] at h
    split at h
    · rw [← Option.some.inj h]
    · next hsize =>
      obtain ⟨content, -, rfl⟩ := Option.map_eq_some_iff.mp h
      exact not_lt.mp fun hlt => hsize (Or.inl hlt)

/-! ## The header -/

/-- `TcpHeader`. -/
structure TcpHeader where
  sourcePort : ℕ
  destinationPort : ℕ
  sequenceNumber : ℕ
  ackNumber : ℕ
  length : ℕ
  flags : ℕ
  windowSize : ℕ
  urgentPointer : ℕ
  options : List TcpOption := []
  optionsLen : ℕ := 0

namespace TcpHeader

/-- `m_maxOptionsLen`. -/
def maxOptionsLen : ℕ := 40

/-- `CalculateHeaderLength`, in words. -/
def calculateHeaderLength (options : List TcpOption) : ℕ :=
  let len := 20 + (options.map (·.getSerializedSize)).sum
  (if len % 4 ≠ 0 then len + (4 - len % 4) else len) >>> 2

/-- The variables of the loop : the options, `m_optionsLen`, `optionLen`, and how many bytes
of the option area have been read. -/
structure Parse where
  options : List TcpOption := []
  optionsLen : ℕ := 0
  optionLen : ℕ
  bytesRead : ℕ := 0

/-- An option that fits is taken over. -/
def Parse.accept (p : Parse) (op : TcpOption) (optionSize : ℕ) : Parse :=
  { p with
    options := p.options ++ [op]
    optionsLen := p.optionsLen + optionSize
    optionLen := p.optionLen - optionSize }

/-- The bytes that a decoder reads. -/
def Parse.read (p : Parse) (bytesRead : ℕ) : Parse :=
  { p with bytesRead := max p.bytesRead (p.optionsLen + bytesRead) }

/-- The padding behind an END option is skipped. -/
def Parse.skip (p : Parse) : Parse :=
  { p with optionsLen := p.optionsLen + p.optionLen, optionLen := 0 }

/-- The loop of `Deserialize`, of at most `fuel` rounds. It leaves an `optionLen` that is not 0
where it gives up. -/
def parseOptions : ℕ → Parse → List UInt8 → Option Parse
  | 0, _, _ => none
  | fuel + 1, p, i =>
    if p.optionLen = 0 then some p
    else
      (decodeOption i).bind fun decoded =>
        let p := p.read decoded.bytesRead
        if decoded.optionSize ≠ decoded.option.getSerializedSize then some p
        else if p.optionLen ≥ decoded.optionSize then
          let p := p.accept decoded.option decoded.optionSize
          let p := if decoded.option = .endOfList then p.skip else p
          parseOptions fuel p (i.drop decoded.optionSize)
        else some p

/-- The first 20 bytes, of which those of the checksum are skipped, and what follows them. -/
def deserializeFixed (start : List UInt8) : Option (TcpHeader × List UInt8) := do
  let (sourcePort, i) ← readNtohU16 start
  let (destinationPort, i) ← readNtohU16 i
  let (sequenceNumber, i) ← readNtohU32 i
  let (ackNumber, i) ← readNtohU32 i
  let (field, i) ← readNtohU16 i
  let (windowSize, i) ← readNtohU16 i
  let (_, i) ← readBytes 2 i
  let (urgentPointer, i) ← readNtohU16 i
  return ({
    sourcePort := sourcePort
    destinationPort := destinationPort
    sequenceNumber := sequenceNumber
    ackNumber := ackNumber
    flags := field &&& 0xff
    length := field >>> 12
    windowSize := windowSize
    urgentPointer := urgentPointer }, i)

/-- The length of the option area for a data offset, of 32 bits. -/
def optionLength (length : ℕ) : ℕ :=
  ((length + 2 ^ 32 - 5) * 4) % 2 ^ 32

/-- `Deserialize` : the header, the size that is returned, and the loop when it has ended. The
options are discarded where the data offset is too small. -/
def deserialize (fuel : ℕ) (start : List UInt8) : Option (TcpHeader × ℕ × Parse) :=
  (deserializeFixed start).bind fun (header, i) =>
    let optionLen := optionLength header.length
    if optionLen > maxOptionsLen then some (header, 20, { optionLen := optionLen })
    else
      (parseOptions fuel { optionLen := optionLen } i).map fun p =>
        ({ header with options := p.options, optionsLen := p.optionsLen },
          4 * calculateHeaderLength p.options, p)

/-! ## What the options have to be like -/

/-- The data offset of a header, in words. -/
def dataOffset (start : List UInt8) : ℕ :=
  (start.getD 12 0).toNat >>> 4

/-- The option area of a header. -/
def optionArea (start : List UInt8) : List UInt8 :=
  (start.drop 20).take (4 * (dataOffset start - 5))

/-- An option area whose options are complete. An option whose size is refused ends the parsing,
and the rest of the area may be anything. -/
def Parsable : List UInt8 → Prop
  | [] => True
  | kind :: i =>
    match kind.toNat with
    | 0 => i.length < 4
    | 1 => Parsable i
    | known =>
      match i with
      | [] => False
      | size :: i =>
        match known with
        | 2 => size = 4 ∧ 2 ≤ i.length ∧ Parsable (i.drop 2)
        | 3 => size = 3 → 1 ≤ i.length ∧ Parsable (i.drop 1)
        | 4 => size = 2 → Parsable i
        | 5 => (size.toNat - 2) / 8 * 8 ≤ i.length ∧ Parsable (i.drop ((size.toNat - 2) / 8 * 8))
        | 8 => size = 10 → 8 ≤ i.length ∧ Parsable (i.drop 8)
        | _ => size ≠ 0 ∧ (2 ≤ size.toNat → size.toNat ≤ 40 →
            size.toNat - 2 ≤ i.length ∧ Parsable (i.drop (size.toNat - 2)))
  termination_by area => area.length

/-! ## The rounds of the loop -/

/-- The options that have been kept make up what has been read of the area. -/
structure Parse.At (p : Parse) (area : List UInt8) : Prop where
  optionLen : p.optionLen = area.length
  bytesRead : p.bytesRead ≤ p.optionsLen
  sizes : (p.options.map (·.getSerializedSize)).sum = p.optionsLen
  words : 4 ∣ p.optionsLen + area.length

/-- The loop ends, reads no byte behind the area, and has the announced length if it takes all
options. -/
def Parses (p : Parse) (area rest : List UInt8) : Prop :=
  ∃ fuel r, parseOptions fuel p (area ++ rest) = some r ∧
    r.bytesRead ≤ p.optionsLen + area.length ∧
    (r.optionLen = 0 → 4 * calculateHeaderLength r.options = 20 + p.optionsLen + area.length)

variable {p r : Parse} {area i rest : List UInt8} {kind size : UInt8}

theorem parseOptions_succ {op : TcpOption} {optionSize n : ℕ} (fuel : ℕ) (hlen : p.optionLen ≠ 0)
    (hdecode : decodeOption i = some ⟨op, optionSize, n⟩) : parseOptions (fuel + 1) p i =
      if optionSize ≠ op.getSerializedSize then some (p.read n)
      else if p.optionLen ≥ optionSize then
        parseOptions fuel
          (if op = .endOfList then ((p.read n).accept op optionSize).skip
          else (p.read n).accept op optionSize) (i.drop optionSize)
      else some (p.read n) := by
  rw [parseOptions, if_neg hlen, hdecode]
  rfl

theorem optionLen_skip (p : Parse) : p.skip.optionLen = 0 :=
  rfl

theorem le_bytesRead_read (n : ℕ) : p.bytesRead ≤ (p.read n).bytesRead :=
  Nat.le_max_left ..

/-- What has been read stays read. -/
theorem bytesRead_le {fuel : ℕ} (h : parseOptions fuel p i = some r) :
    p.bytesRead ≤ r.bytesRead := by
  induction fuel generalizing p i with
  | zero => cases h
  | succ fuel ih =>
    by_cases hlen : p.optionLen = 0
    · rw [parseOptions, if_pos hlen] at h
      rw [Option.some.inj h]
    · cases hdecode : decodeOption i with
      | none =>
        rw [parseOptions, if_neg hlen, hdecode] at h
        cases h
      | some decoded =>
        rw [parseOptions_succ fuel hlen hdecode] at h
        split at h
        · rw [← Option.some.inj h]
          exact le_bytesRead_read _
        · split at h
          · refine le_trans (le_bytesRead_read decoded.bytesRead) (le_trans ?_ (ih h))
            split <;> exact le_refl _
          · rw [← Option.some.inj h]
            exact le_bytesRead_read _

theorem calculateHeaderLength_eq {options : List TcpOption} {n : ℕ}
    (hsizes : (options.map (·.getSerializedSize)).sum = n) :
    4 * calculateHeaderLength options = (23 + n) / 4 * 4 := by
  simp only [calculateHeaderLength]
  rw [hsizes, Nat.shiftRight_eq_div_pow]
  split <;> omega

theorem Parse.At.parses_nil (hp : p.At []) : Parses p [] rest := by
  have hwords := hp.words
  refine ⟨1, p, ?_, hp.bytesRead, ?_⟩
  · rw [parseOptions, if_pos (show p.optionLen = 0 from hp.optionLen)]
  · intro _
    rw [calculateHeaderLength_eq hp.sizes]
    rw [List.length_nil] at hwords ⊢
    omega

/-- An option that is not known to its end is not read in the area. -/
theorem not_parses_of_over {decoded : Decoded} (hlen : p.optionLen ≠ 0)
    (hdecode : decodeOption (area ++ rest) = some decoded)
    (hover : area.length < decoded.bytesRead) : ¬Parses p area rest := by
  rintro ⟨fuel, r, hparse, hread, -⟩
  have hlast : p.optionsLen + decoded.bytesRead ≤ (p.read decoded.bytesRead).bytesRead :=
    Nat.le_max_right ..
  obtain _ | fuel := fuel
  · cases hparse
  · rw [parseOptions_succ fuel hlen hdecode] at hparse
    have hmono : (p.read decoded.bytesRead).bytesRead ≤ r.bytesRead := by
      split at hparse
      · rw [Option.some.inj hparse]
      · split at hparse
        · refine le_trans ?_ (bytesRead_le hparse)
          split <;> exact le_refl _
        · rw [Option.some.inj hparse]
    omega

theorem not_parses_of_none (hlen : p.optionLen ≠ 0) (hdecode : decodeOption (area ++ rest) = none) :
    ¬Parses p area rest := by
  rintro ⟨fuel, r, hparse, -⟩
  obtain _ | fuel := fuel
  · cases hparse
  · rw [parseOptions, if_neg hlen, hdecode] at hparse
    cases hparse

/-- A decoder that refuses the size ends the loop. -/
theorem parses_of_stop {op : TcpOption} {n : ℕ} (hp : p.At area) (hlen : p.optionLen ≠ 0)
    (hdecode : decodeOption (area ++ rest) = some ⟨op, 0, n⟩) (hop : op.getSerializedSize ≠ 0)
    (hn : n ≤ area.length) : Parses p area rest := by
  have hread := hp.bytesRead
  refine ⟨1, p.read n, ?_, ?_, ?_⟩
  · rw [parseOptions_succ 0 hlen hdecode, if_pos hop.symm]
  · exact max_le (by omega) (by omega)
  · intro hzero
    exact absurd hzero hlen

/-- An unknown option without a size is decoded again and again. -/
theorem not_parses_of_stuck (hlen : p.optionLen ≠ 0)
    (hdecode : decodeOption (area ++ rest) = some ⟨.unknown kind 0 [], 0, 2⟩) :
    ¬Parses p area rest := by
  have hsame : ¬0 ≠ (TcpOption.unknown kind 0 []).getSerializedSize := not_not.mpr rfl
  have hstuck : ∀ (fuel : ℕ) (q : Parse), q.optionLen ≠ 0 →
      parseOptions fuel q (area ++ rest) = none := by
    intro fuel
    induction fuel with
    | zero => exact fun q _ => rfl
    | succ fuel ih =>
      intro q hq
      rw [parseOptions_succ fuel hq hdecode, if_neg hsame, if_pos (Nat.zero_le _),
        if_neg (by rintro ⟨⟩), List.drop_zero]
      exact ih _ hq
  rintro ⟨fuel, r, hparse, -⟩
  rw [hstuck fuel p hlen] at hparse
  cases hparse

/-- An option that is complete is taken over, and the loop goes on behind it. -/
theorem Parse.At.parses_accept {op : TcpOption} {bytes : List UInt8} (rest : List UInt8)
    (hp : p.At (bytes ++ area)) (hpos : 0 < bytes.length)
    (hdecode : decodeOption (bytes ++ (area ++ rest)) = some ⟨op, bytes.length, bytes.length⟩)
    (hop : op.getSerializedSize = bytes.length) (hend : op ≠ .endOfList) :
    ((p.read bytes.length).accept op bytes.length).At area ∧
      (Parses p (bytes ++ area) rest ↔
        Parses ((p.read bytes.length).accept op bytes.length) area rest) := by
  obtain ⟨hlen, hread, hsizes, hwords⟩ := hp
  rw [List.length_append] at hlen hwords
  have hround : ∀ fuel, parseOptions (fuel + 1) p (bytes ++ area ++ rest) =
      parseOptions fuel ((p.read bytes.length).accept op bytes.length) (area ++ rest) := by
    intro fuel
    rw [List.append_assoc, parseOptions_succ fuel (by omega) hdecode,
      if_neg (not_not.mpr hop.symm), if_pos (show p.optionLen ≥ bytes.length by omega),
      if_neg hend, List.drop_left]
  have hlength : p.optionsLen + (bytes ++ area).length =
      p.optionsLen + bytes.length + area.length := by
    rw [List.length_append, Nat.add_assoc]
  refine ⟨⟨?_, ?_, ?_, ?_⟩, ?_⟩
  · change p.optionLen - bytes.length = area.length
    omega
  · change max p.bytesRead (p.optionsLen + bytes.length) ≤ p.optionsLen + bytes.length
    exact max_le (by omega) (le_refl _)
  · change ((p.options ++ [op]).map (·.getSerializedSize)).sum = p.optionsLen + bytes.length
    rw [List.map_append, List.sum_append, hsizes, List.map_singleton, List.sum_singleton, hop]
  · change 4 ∣ p.optionsLen + bytes.length + area.length
    rwa [Nat.add_assoc]
  · constructor
    · rintro ⟨fuel, r, hparse, hr, hsize⟩
      obtain _ | fuel := fuel
      · cases hparse
      · rw [hround] at hparse
        rw [hlength] at hr
        refine ⟨fuel, r, hparse, hr, ?_⟩
        intro hzero
        rw [hsize hzero, Nat.add_assoc, hlength]
        exact (Nat.add_assoc ..).symm
    · rintro ⟨fuel, r, hparse, hr, hsize⟩
      refine ⟨fuel + 1, r, by rw [hround, hparse], by rwa [hlength], ?_⟩
      intro hzero
      rw [hsize hzero, Nat.add_assoc 20 p.optionsLen, hlength]
      exact Nat.add_assoc ..

/-- The padding behind an END option is counted up to the next word only. -/
theorem Parse.At.parses_endOfList {padding : List UInt8} (hp : p.At (0 :: padding)) :
    Parses p (0 :: padding) rest ↔ padding.length < 4 := by
  obtain ⟨hlen, hread, hsizes, hwords⟩ := hp
  rw [List.length_cons] at hlen hwords
  have hdecode : decodeOption (0 :: padding ++ rest) = some ⟨.endOfList, 1, 1⟩ := rfl
  have hsame : ¬1 ≠ TcpOption.endOfList.getSerializedSize := not_not.mpr rfl
  have hround : ∀ fuel, parseOptions (fuel + 2) p (0 :: padding ++ rest) =
      some ((p.read 1).accept .endOfList 1).skip := by
    intro fuel
    rw [parseOptions_succ (fuel + 1) (by omega) hdecode, if_neg hsame,
      if_pos (show p.optionLen ≥ 1 by omega), if_pos rfl, parseOptions, if_pos (optionLen_skip _)]
  have hkept : (((p.read 1).accept .endOfList 1).skip.options.map
      (·.getSerializedSize)).sum = p.optionsLen + 1 := by
    change ((p.options ++ [TcpOption.endOfList]).map (·.getSerializedSize)).sum = _
    rw [List.map_append, List.sum_append, hsizes]
    rfl
  constructor
  · rintro ⟨fuel, r, hparse, -, hsize⟩
    obtain _ | _ | fuel := fuel
    · cases hparse
    · rw [parseOptions_succ 0 (by omega) hdecode, if_neg hsame,
        if_pos (show p.optionLen ≥ 1 by omega), if_pos rfl] at hparse
      cases hparse
    · rw [hround] at hparse
      obtain rfl := Option.some.inj hparse
      have hcalc := hsize rfl
      rw [calculateHeaderLength_eq hkept, List.length_cons] at hcalc
      omega
  · intro hshort
    refine ⟨2, _, hround 0, ?_, ?_⟩
    · rw [List.length_cons]
      exact max_le (by omega) (by omega)
    · intro _
      rw [calculateHeaderLength_eq hkept, List.length_cons]
      omega

/-! ## The whole area -/

theorem decodeOption_cons (hkind : 2 ≤ kind.toNat) (size : UInt8) (j : List UInt8) :
    decodeOption (kind :: size :: j) = decodeContent kind size j := by
  simp only [decodeOption, List.head?_cons, List.drop_succ_cons, List.drop_zero,
    Option.bind_eq_bind, Option.bind_some]
  split
  · omega
  · omega
  · rfl

/-- What is left of the area behind an option is done right exactly if it is `Parsable`. -/
def Settled (i rest : List UInt8) : Prop :=
  ∀ (n : ℕ) (q : Parse), q.At (i.drop n) → (Parses q (i.drop n) rest ↔ Parsable (i.drop n))

/-- An option of `n` bytes behind the length octet, and the area after it. -/
theorem Parse.At.parses_takes {n : ℕ} (hp : p.At (kind :: size :: i)) (hkind : 2 ≤ kind.toNat)
    (htakes : Takes (decodeContent kind size) n) (hi : Settled i rest) :
    Parses p (kind :: size :: i) rest ↔ n ≤ i.length ∧ Parsable (i.drop n) := by
  have hlen : p.optionLen ≠ 0 := by
    rw [hp.optionLen]
    exact Nat.succ_ne_zero _
  have hdecode := decodeOption_cons hkind size
  by_cases hn : n ≤ i.length
  · rw [and_iff_right hn]
    obtain ⟨op, hop, hsize, hend⟩ := htakes.long (i ++ rest) (by rw [List.length_append]; omega)
    have hbytes : (kind :: size :: i.take n).length = 2 + n := by
      rw [List.length_cons, List.length_cons, List.length_take, Nat.min_eq_left hn]
      omega
    have hsplit : kind :: size :: i = (kind :: size :: i.take n) ++ i.drop n := by
      rw [List.cons_append, List.cons_append, List.take_append_drop]
    rw [hsplit] at hp ⊢
    obtain ⟨hat, hiff⟩ := hp.parses_accept rest (by rw [hbytes]; omega)
      (by
        rw [hbytes, ← List.append_assoc, ← hsplit, List.cons_append, List.cons_append, hdecode]
        exact hop)
      (by rw [hsize, hbytes]) hend
    rw [hiff, hi n _ hat]
  · refine iff_of_false ?_ (fun h => hn h.1)
    by_cases hrest : n ≤ (i ++ rest).length
    · obtain ⟨op, hop, -, -⟩ := htakes.long (i ++ rest) hrest
      have hread : decodeOption (kind :: size :: i ++ rest) = some ⟨op, 2 + n, 2 + n⟩ := by
        rw [List.cons_append, List.cons_append, hdecode, hop]
      refine not_parses_of_over hlen hread ?_
      change i.length + 1 + 1 < 2 + n
      omega
    · refine not_parses_of_none hlen ?_
      rw [List.cons_append, List.cons_append, hdecode]
      exact htakes.short _ (not_le.mp hrest)

/-- A refused size ends the parsing, whatever follows. -/
theorem Parse.At.parses_refused (hp : p.At (kind :: size :: i)) (hkind : 2 ≤ kind.toNat)
    (op : TcpOption) (hdecode : ∀ j, decodeContent kind size j = some ⟨op, 0, 2⟩)
    (hop : op.getSerializedSize ≠ 0) : Parses p (kind :: size :: i) rest := by
  have hlen : p.optionLen ≠ 0 := by
    rw [hp.optionLen]
    exact Nat.succ_ne_zero _
  have hread : decodeOption (kind :: size :: i ++ rest) = some ⟨op, 0, 2⟩ := by
    rw [List.cons_append, List.cons_append, decodeOption_cons hkind, hdecode]
  refine parses_of_stop hp hlen hread hop ?_
  rw [List.length_cons, List.length_cons]
  omega

theorem Parse.At.parses_mss (hp : p.At (kind :: size :: i)) (hkind : kind.toNat = 2)
    (hi : Settled i rest) : Parses p (kind :: size :: i) rest ↔
      size = 4 ∧ 2 ≤ i.length ∧ Parsable (i.drop 2) := by
  have hcontent : ∀ j, decodeContent kind size j = decodeMSS size j := by
    intro j
    rw [decodeContent, hkind]
    rfl
  by_cases hsize : size = 4
  · subst hsize
    rw [hp.parses_takes hkind.ge (takes_decodeMSS.congr hcontent) hi, and_iff_right rfl]
  · -- the decoder aborts
    have hlen : p.optionLen ≠ 0 := by
      rw [hp.optionLen]
      exact Nat.succ_ne_zero _
    refine iff_of_false (not_parses_of_none hlen ?_) (fun h => hsize h.1)
    rw [List.cons_append, List.cons_append, decodeOption_cons hkind.ge, hcontent, decodeMSS,
      if_pos hsize]

theorem Parse.At.parses_winScale (hp : p.At (kind :: size :: i)) (hkind : kind.toNat = 3)
    (hi : Settled i rest) : Parses p (kind :: size :: i) rest ↔
      (size = 3 → 1 ≤ i.length ∧ Parsable (i.drop 1)) := by
  have hmin : 2 ≤ kind.toNat := by omega
  have hcontent : ∀ j, decodeContent kind size j = decodeWinScale size j := by
    intro j
    rw [decodeContent, hkind]
    rfl
  by_cases hsize : size = 3
  · subst hsize
    rw [hp.parses_takes hmin (takes_decodeWinScale.congr hcontent) hi]
    exact (imp_iff_right rfl).symm
  · refine iff_of_true (hp.parses_refused hmin (.winScale 0) ?_ (Nat.succ_ne_zero _))
      (fun h => absurd h hsize)
    intro j
    rw [hcontent, decodeWinScale, if_pos hsize]

theorem Parse.At.parses_sackPermitted (hp : p.At (kind :: size :: i)) (hkind : kind.toNat = 4)
    (hi : Settled i rest) : Parses p (kind :: size :: i) rest ↔ (size = 2 → Parsable i) := by
  have hmin : 2 ≤ kind.toNat := by omega
  have hcontent : ∀ j, decodeContent kind size j = decodeSackPermitted size := by
    intro j
    rw [decodeContent, hkind]
    rfl
  by_cases hsize : size = 2
  · subst hsize
    rw [hp.parses_takes hmin (takes_decodeSackPermitted.congr hcontent) hi,
      and_iff_right (Nat.zero_le _)]
    exact (imp_iff_right rfl).symm
  · refine iff_of_true (hp.parses_refused hmin .sackPermitted ?_ (Nat.succ_ne_zero _))
      (fun h => absurd h hsize)
    intro j
    rw [hcontent, decodeSackPermitted, if_pos hsize]

theorem Parse.At.parses_sack (hp : p.At (kind :: size :: i)) (hkind : kind.toNat = 5)
    (hi : Settled i rest) : Parses p (kind :: size :: i) rest ↔
      (size.toNat - 2) / 8 * 8 ≤ i.length ∧ Parsable (i.drop ((size.toNat - 2) / 8 * 8)) := by
  have hcontent : ∀ j, decodeContent kind size j = decodeSack size j := by
    intro j
    rw [decodeContent, hkind]
    rfl
  exact hp.parses_takes (by omega) ((takes_decodeSack size).congr hcontent) hi

theorem Parse.At.parses_ts (hp : p.At (kind :: size :: i)) (hkind : kind.toNat = 8)
    (hi : Settled i rest) : Parses p (kind :: size :: i) rest ↔
      (size = 10 → 8 ≤ i.length ∧ Parsable (i.drop 8)) := by
  have hmin : 2 ≤ kind.toNat := by omega
  have hcontent : ∀ j, decodeContent kind size j = decodeTS size j := by
    intro j
    rw [decodeContent, hkind]
    rfl
  by_cases hsize : size = 10
  · subst hsize
    rw [hp.parses_takes hmin (takes_decodeTS.congr hcontent) hi]
    exact (imp_iff_right rfl).symm
  · refine iff_of_true (hp.parses_refused hmin (.ts 0 0) ?_ (Nat.succ_ne_zero _))
      (fun h => absurd h hsize)
    intro j
    rw [hcontent, decodeTS, if_pos hsize]

theorem Parse.At.parses_unknown (hp : p.At (kind :: size :: i)) (hkind : 2 ≤ kind.toNat)
    (hcontent : ∀ j, decodeContent kind size j = decodeUnknown kind size j)
    (hi : Settled i rest) : Parses p (kind :: size :: i) rest ↔
      size ≠ 0 ∧ (2 ≤ size.toNat → size.toNat ≤ 40 →
        size.toNat - 2 ≤ i.length ∧ Parsable (i.drop (size.toNat - 2))) := by
  have hlen : p.optionLen ≠ 0 := by
    rw [hp.optionLen]
    exact Nat.succ_ne_zero _
  by_cases hzero : size = 0
  · subst hzero
    refine iff_of_false (@not_parses_of_stuck p _ rest kind hlen ?_) (fun h => h.1 rfl)
    rw [List.cons_append, List.cons_append, decodeOption_cons hkind, hcontent]
    rfl
  · rw [and_iff_right hzero]
    by_cases hsize : 2 ≤ size.toNat ∧ size.toNat ≤ 40
    · obtain ⟨hmin, hmax⟩ := hsize
      rw [hp.parses_takes hkind ((takes_decodeUnknown kind hmin hmax).congr hcontent) hi,
        imp_iff_right hmin, imp_iff_right hmax]
    · have hpos : size.toNat ≠ 0 := fun h => hzero (UInt8.toNat_inj.mp h)
      refine iff_of_true (hp.parses_refused hkind (.unknown kind size.toNat []) ?_ hpos)
        (fun hmin hmax => absurd ⟨hmin, hmax⟩ hsize)
      intro j
      rw [hcontent, decodeUnknown, if_pos (by omega)]

/-- The kind alone is not an option that has a size. -/
theorem Parse.At.not_parses_kind (hp : p.At [kind]) (hkind : 2 ≤ kind.toNat) :
    ¬Parses p [kind] rest := by
  have hlen : p.optionLen ≠ 0 := by
    rw [hp.optionLen]
    exact Nat.succ_ne_zero _
  cases hdecode : decodeOption ([kind] ++ rest) with
  | none => exact not_parses_of_none hlen hdecode
  | some decoded =>
    refine not_parses_of_over hlen hdecode ?_
    cases rest with
    | nil =>
      simp only [decodeOption, List.append_nil, List.head?_cons, List.drop_succ_cons,
        List.drop_zero, List.head?_nil, Option.bind_eq_bind, Option.bind_some,
        Option.bind_none] at hdecode
      split at hdecode
      · omega
      · omega
      · cases hdecode
    | cons size rest =>
      rw [List.singleton_append, decodeOption_cons hkind] at hdecode
      exact two_le_bytesRead hdecode

/-- The loop does what it should exactly on the areas whose options are complete. -/
theorem Parse.At.parses_iff (hp : p.At area) : Parses p area rest ↔ Parsable area := by
  induction hn : area.length using Nat.strongRecOn generalizing p area with
  | ind n ih =>
    subst hn
    have hsettled : ∀ i : List UInt8, i.length < area.length → Settled i rest := by
      intro i hi m q hq
      have hshort : (i.drop m).length < area.length := by
        rw [List.length_drop]
        omega
      exact ih _ hshort hq rfl
    clear ih
    cases area with
    | nil =>
      rw [Parsable]
      exact iff_of_true hp.parses_nil trivial
    | cons kind i =>
      rw [Parsable]
      split
      · next hkind =>
        obtain rfl : kind = 0 := UInt8.toNat_inj.mp hkind
        exact hp.parses_endOfList
      · next hkind =>
        obtain rfl : kind = 1 := UInt8.toNat_inj.mp hkind
        obtain ⟨hat, hiff⟩ := @Parse.At.parses_accept p i .nop [1] rest hp Nat.one_pos rfl rfl
          (by rintro ⟨⟩)
        exact hiff.trans (hsettled i (Nat.lt_succ_self _) 0 _ hat)
      · next hzero hone =>
        have hkind : 2 ≤ kind.toNat := (Nat.two_le_iff _).mpr ⟨hzero, hone⟩
        cases i with
        | nil => exact iff_of_false (hp.not_parses_kind hkind) id
        | cons size i =>
          have hi : Settled i rest := hsettled i (by rw [List.length_cons, List.length_cons]; omega)
          dsimp only
          split
          · next hmss => exact hp.parses_mss hmss hi
          · next hwinScale => exact hp.parses_winScale hwinScale hi
          · next hsackPermitted => exact hp.parses_sackPermitted hsackPermitted hi
          · next hsack => exact hp.parses_sack hsack hi
          · next hts => exact hp.parses_ts hts hi
          · next htwo hthree hfour hfive height =>
            refine hp.parses_unknown hkind ?_ hi
            intro j
            rw [decodeContent]
            split
            · next h => exact absurd h htwo
            · next h => exact absurd h hthree
            · next h => exact absurd h hfour
            · next h => exact absurd h hfive
            · next h => exact absurd h height
            · rfl

/-! ## The whole header -/

/-- `Deserialize` ends, reads no byte behind the option area, and returns the announced length if
the options are accepted. -/
def ParsesHeader (start : List UInt8) : Prop :=
  ∃ fuel header size p, deserialize fuel start = some (header, size, p) ∧
    p.bytesRead ≤ 4 * (dataOffset start - 5) ∧ (p.optionLen = 0 → size = 4 * dataOffset start)

variable {start : List UInt8}

/-- The upper four bits of the field of the data offset. -/
theorem readNtohU16_shiftRight (h : 2 ≤ i.length) :
    ∃ field, readNtohU16 i = some (field, i.drop 2) ∧ field >>> 12 = (i.getD 0 0).toNat >>> 4 := by
  obtain ⟨hi, j, rfl⟩ := List.exists_cons_of_length_pos (show 0 < i.length by omega)
  obtain ⟨lo, j, rfl⟩ := List.exists_cons_of_length_pos
    (Nat.lt_of_succ_le (Nat.le_of_succ_le_succ h))
  refine ⟨_, readNtohU16_cons hi lo j, ?_⟩
  have hlo : lo.toNat < 2 ^ 8 := lo.toNat_lt
  rw [or_shiftLeft hlo, Nat.shiftRight_eq_div_pow, Nat.shiftRight_eq_div_pow, List.getD_cons_zero]
  omega

/-- The header without options, with the announced length. -/
theorem deserializeFixed_of_le (h : 20 ≤ start.length) :
    ∃ header : TcpHeader, deserializeFixed start = some (header, start.drop 20) ∧
      header.length = dataOffset start := by
  have hat : ∀ n k, n + k ≤ 20 → k ≤ (start.drop n).length := by
    intro n k hn
    rw [List.length_drop]
    omega
  obtain ⟨sourcePort, hsource⟩ := readNtohU16_of_le (hat 0 2 (by omega))
  obtain ⟨destinationPort, hdestination⟩ := readNtohU16_of_le (hat 2 2 (by omega))
  obtain ⟨sequenceNumber, hsequence⟩ := readNtohU32_of_le (hat 4 4 (by omega))
  obtain ⟨ackNumber, hack⟩ := readNtohU32_of_le (hat 8 4 (by omega))
  obtain ⟨field, hfield, hoffset⟩ := readNtohU16_shiftRight (hat 12 2 (by omega))
  obtain ⟨windowSize, hwindow⟩ := readNtohU16_of_le (hat 14 2 (by omega))
  have hchecksum : readBytes 2 (start.drop 16) = some ((start.drop 16).take 2, start.drop 18) := by
    rw [readBytes, if_pos (hat 16 2 (by omega)), List.drop_drop]
  obtain ⟨urgentPointer, hurgent⟩ := readNtohU16_of_le (hat 18 2 (by omega))
  rw [List.drop_drop] at hdestination hsequence hack hfield hwindow hurgent
  rw [List.drop_zero] at hsource
  refine ⟨{
    sourcePort := sourcePort
    destinationPort := destinationPort
    sequenceNumber := sequenceNumber
    ackNumber := ackNumber
    flags := field &&& 0xff
    length := field >>> 12
    windowSize := windowSize
    urgentPointer := urgentPointer }, ?_, ?_⟩
  · rw [deserializeFixed, hsource]
    dsimp only [Option.bind_eq_bind, Option.bind_some]
    rw [hdestination]
    dsimp only [Option.bind_eq_bind, Option.bind_some]
    rw [hsequence]
    dsimp only [Option.bind_eq_bind, Option.bind_some]
    rw [hack]
    dsimp only [Option.bind_eq_bind, Option.bind_some]
    rw [hfield]
    dsimp only [Option.bind_eq_bind, Option.bind_some]
    rw [hwindow]
    dsimp only [Option.bind_eq_bind, Option.bind_some]
    rw [hchecksum]
    dsimp only [Option.bind_eq_bind, Option.bind_some]
    rw [hurgent]
    rfl
  · rw [dataOffset, hoffset, List.getD_eq_getElem?_getD, List.getD_eq_getElem?_getD,
      List.getElem?_drop]

theorem dataOffset_lt (start : List UInt8) : dataOffset start < 16 := by
  have hbyte := (start.getD 12 0).toNat_lt
  rw [dataOffset, Nat.shiftRight_eq_div_pow]
  omega

theorem optionLength_eq {length : ℕ} (hmin : 5 ≤ length) (hmax : length < 16) :
    optionLength length = 4 * (length - 5) := by
  rw [optionLength]
  omega

theorem optionLength_gt {length : ℕ} (h : length < 5) : optionLength length > maxOptionsLen := by
  rw [optionLength, maxOptionsLen]
  omega

theorem length_optionArea (harea : 4 * dataOffset start ≤ start.length) :
    (optionArea start).length = 4 * (dataOffset start - 5) := by
  rw [optionArea, List.length_take, List.length_drop]
  omega

/-- The variables before the first option. -/
def Parse.initial (area : List UInt8) : Parse where
  optionLen := area.length

theorem Parse.at_initial {area : List UInt8} (h : 4 ∣ area.length) :
    (Parse.initial area).At area := by
  refine ⟨rfl, le_refl 0, rfl, ?_⟩
  rwa [Parse.initial, Nat.zero_add]

/-- With room for the header, what is left to do is to parse the option area. -/
theorem parsesHeader_iff_parses (hfixed : 20 ≤ start.length)
    (harea : 4 * dataOffset start ≤ start.length) (hmin : 5 ≤ dataOffset start) :
    ParsesHeader start ↔ Parses (Parse.initial (optionArea start)) (optionArea start)
      ((start.drop 20).drop (4 * (dataOffset start - 5))) := by
  obtain ⟨header, hheader, hlength⟩ := deserializeFixed_of_le hfixed
  have hsize := length_optionArea harea
  have hlen : optionLength header.length = (optionArea start).length := by
    rw [hlength, optionLength_eq hmin (dataOffset_lt start), hsize]
  have hfits : ¬optionLength header.length > maxOptionsLen := by
    have hlt := dataOffset_lt start
    rw [hlen, hsize, maxOptionsLen]
    omega
  have hsplit : optionArea start ++ (start.drop 20).drop (4 * (dataOffset start - 5)) =
      start.drop 20 := List.take_append_drop ..
  have hdeserialize : ∀ fuel, deserialize fuel start =
      (parseOptions fuel (Parse.initial (optionArea start)) (start.drop 20)).map fun p =>
        ({ header with options := p.options, optionsLen := p.optionsLen },
          4 * calculateHeaderLength p.options, p) := by
    intro fuel
    rw [deserialize, hheader, Option.bind_some]
    dsimp only
    rw [if_neg hfits, hlen, Parse.initial]
  have hwhole : 20 + (Parse.initial (optionArea start)).optionsLen + (optionArea start).length =
      4 * dataOffset start := by
    rw [hsize]
    change 20 + 0 + _ = _
    omega
  have hread : (Parse.initial (optionArea start)).optionsLen + (optionArea start).length =
      4 * (dataOffset start - 5) := by
    rw [hsize]
    exact Nat.zero_add _
  rw [ParsesHeader, Parses, hsplit, hwhole, hread]
  constructor
  · rintro ⟨fuel, header', size, p, hparse, hbytes, hreturn⟩
    rw [hdeserialize] at hparse
    obtain ⟨q, hq, hsame⟩ := Option.map_eq_some_iff.mp hparse
    cases hsame
    exact ⟨fuel, _, hq, hbytes, hreturn⟩
  · rintro ⟨fuel, p, hparse, hbytes, hreturn⟩
    have hresult := hdeserialize fuel
    rw [hparse, Option.map_some] at hresult
    exact ⟨fuel, _, _, p, hresult, hbytes, hreturn⟩

/-- A header is parsed as it should be exactly if the options in its area are complete. -/
theorem parsesHeader_iff (start : List UInt8) (hfixed : 20 ≤ start.length)
    (harea : 4 * dataOffset start ≤ start.length) :
    ParsesHeader start ↔ Parsable (optionArea start) := by
  by_cases hmin : 5 ≤ dataOffset start
  · rw [parsesHeader_iff_parses hfixed harea hmin]
    refine Parse.At.parses_iff (Parse.at_initial ?_)
    rw [length_optionArea harea]
    exact Nat.dvd_mul_right ..
  · -- the options are discarded
    obtain ⟨header, hheader, hlength⟩ := deserializeFixed_of_le hfixed
    have hlong := optionLength_gt (not_le.mp hmin)
    have hempty : optionArea start = [] := by
      rw [optionArea, show dataOffset start - 5 = 0 by omega, Nat.mul_zero, List.take_zero]
    rw [hempty, Parsable]
    refine iff_of_true ⟨0, header, 20, { optionLen := optionLength header.length }, ?_, ?_, ?_⟩
      trivial
    · rw [deserialize, hheader, Option.bind_some]
      dsimp only
      rw [if_pos (by rwa [hlength])]
    · exact Nat.zero_le _
    · intro hzero
      rw [← hlength, show optionLength header.length = 0 from hzero] at hlong
      exact absurd hlong (Nat.not_lt_zero _)

/-- A NOP, the maximum segment size, and an END option with two bytes of padding. -/
theorem parsesHeader_iff_mss : ParsesHeader
    [0, 80, 0, 81, 0, 0, 0, 1, 0, 0, 0, 2, 0x70, 2, 255, 255, 0, 0, 0, 0,
      1, 2, 4, 5, 180, 0, 0, 0] := by
  rw [parsesHeader_iff _ (by decide) (by decide)]
  change Parsable [1, 2, 4, 5, 180, 0, 0, 0]
  rw [Parsable]
  change Parsable [2, 4, 5, 180, 0, 0, 0]
  rw [Parsable]
  refine ⟨rfl, by decide, ?_⟩
  change Parsable [0, 0, 0]
  rw [Parsable]
  exact Nat.le_of_ble_eq_true rfl

/-- An unknown option with the length octet 0. -/
theorem not_parsesHeader : ¬∀ start : List UInt8, 20 ≤ start.length →
    4 * dataOffset start ≤ start.length → ParsesHeader start := by
  intro h
  have hparses := h [0, 80, 0, 81, 0, 0, 0, 1, 0, 0, 0, 2, 0x60, 2, 255, 255, 0, 0, 0, 0,
    77, 0, 0, 0] (by decide) (by decide)
  rw [parsesHeader_iff_parses (by decide) (by decide) (by decide)] at hparses
  exact @not_parses_of_stuck _ _ _ 77 (by decide) rfl hparses

end TcpHeader

end Ns3Pedca
