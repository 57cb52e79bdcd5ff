import Ns3Pedca.Internet.TcpHeader

/-!
# Writing a TCP header

`TcpHeader::AppendOption` keeps the data offset up to date, and `TcpHeader::Serialize` writes the
options one after the other and fills the last word with END octets. `Deserialize` takes the first
of these for an option. Its size fits into the same word, so that both sides agree on the length
of the header (`serialized_header_read_back`).
-/

namespace Ns3Pedca

open Bytes

namespace TcpOption

/-- `GetKind`. -/
def getKind : TcpOption → UInt8
  | endOfList => 0
  | nop => 1
  | mss _ => 2
  | winScale _ => 3
  | sackPermitted => 4
  | sack _ => 5
  | ts _ _ => 8
  | unknown kind _ _ => kind

/-- `IsKindKnown`. -/
def isKindKnown (kind : UInt8) : Bool :=
  kind ∈ [0, 1, 2, 3, 4, 5, 8]

/-- `Serialize`. -/
def serialize : TcpOption → List UInt8
  | endOfList => [0]
  | nop => [1]
  | mss value => [2, 4] ++ writeHtonU16 value
  | winScale scale => [3, 3, scale]
  | sackPermitted => [4, 2]
  | sack sackList => [5, .ofNat (sackList.length * 8 + 2)] ++
      sackList.flatMap fun block => writeHtonU32 block.1 ++ writeHtonU32 block.2
  | ts timestamp echo => [8, 10] ++ writeHtonU32 timestamp ++ writeHtonU32 echo
  | unknown kind size content =>
    if size = 0 then [] else [kind, .ofNat size] ++ content.take (size - 2)

/-- The fields have the types of the source, and an unknown option is of a kind of its own. -/
def InRange : TcpOption → Prop
  | mss value => value < 2 ^ 16
  | sack sackList => ∀ block ∈ sackList, block.1 < 2 ^ 32 ∧ block.2 < 2 ^ 32
  | ts timestamp echo => timestamp < 2 ^ 32 ∧ echo < 2 ^ 32
  | unknown kind _ _ => isKindKnown kind = false
  | endOfList => True
  | nop => True
  | winScale _ => True
  | sackPermitted => True

end TcpOption

namespace TcpHeader

/-- A new header, after its fields have been set. -/
def new (sourcePort destinationPort sequenceNumber ackNumber flags windowSize
    urgentPointer : ℕ) : TcpHeader where
  sourcePort := sourcePort
  destinationPort := destinationPort
  sequenceNumber := sequenceNumber
  ackNumber := ackNumber
  length := 5
  flags := flags
  windowSize := windowSize
  urgentPointer := urgentPointer

/-- `AppendOption`. -/
def appendOption (h : TcpHeader) (option : TcpOption) : Bool × TcpHeader :=
  if h.optionsLen + option.getSerializedSize ≤ maxOptionsLen then
    if !TcpOption.isKindKnown option.getKind then (false, h)
    else if option.getKind ≠ 0 then
      let optionsLen := h.optionsLen + option.getSerializedSize
      (true, { h with
        options := h.options ++ [option]
        optionsLen := optionsLen
        length := (20 + 3 + optionsLen) >>> 2 })
    else (true, h)
  else (false, h)

/-- Options are appended, and all of them are accepted. -/
def appendOptions (h : TcpHeader) : List TcpOption → Option TcpHeader
  | [] => some h
  | option :: options =>
    match h.appendOption option with
    | (false, _) => none
    | (true, h) => h.appendOptions options

/-- `GetSerializedSize`. -/
def getSerializedSize (h : TcpHeader) : ℕ :=
  calculateHeaderLength h.options * 4

/-- The loop that fills the last word with END octets. -/
def pad (optionLen : ℕ) : List UInt8 :=
  if optionLen % 4 = 0 then [] else 0 :: pad (optionLen + 1)
  termination_by (4 - optionLen % 4) % 4

/-- `Serialize`, with what stands in the place of the checksum in the end. -/
def serialize (h : TcpHeader) (checksum : ℕ) : List UInt8 :=
  writeHtonU16 h.sourcePort ++ writeHtonU16 h.destinationPort ++ writeHtonU32 h.sequenceNumber ++
    writeHtonU32 h.ackNumber ++ writeHtonU16 (h.length <<< 12 ||| h.flags) ++
    writeHtonU16 h.windowSize ++ writeHtonU16 checksum ++ writeHtonU16 h.urgentPointer ++
    h.options.flatMap (·.serialize) ++ pad (h.options.map (·.getSerializedSize)).sum

/-- The fields have the types of the source. -/
structure InRange (h : TcpHeader) : Prop where
  sourcePort : h.sourcePort < 2 ^ 16
  destinationPort : h.destinationPort < 2 ^ 16
  sequenceNumber : h.sequenceNumber < 2 ^ 32
  ackNumber : h.ackNumber < 2 ^ 32
  flags : h.flags < 2 ^ 8
  windowSize : h.windowSize < 2 ^ 16
  urgentPointer : h.urgentPointer < 2 ^ 16

/-- The same fields, apart from the options. -/
structure SameFields (h h' : TcpHeader) : Prop where
  sourcePort : h.sourcePort = h'.sourcePort
  destinationPort : h.destinationPort = h'.destinationPort
  sequenceNumber : h.sequenceNumber = h'.sequenceNumber
  ackNumber : h.ackNumber = h'.ackNumber
  length : h.length = h'.length
  flags : h.flags = h'.flags
  windowSize : h.windowSize = h'.windowSize
  urgentPointer : h.urgentPointer = h'.urgentPointer

/-! ## Options -/

/-- An option that `AppendOption` puts into the header. -/
structure Kept (option : TcpOption) : Prop where
  inRange : option.InRange
  known : TcpOption.isKindKnown option.getKind = true
  kind_ne : option.getKind ≠ 0
  size_le : option.getSerializedSize ≤ maxOptionsLen

theorem length_flatMap_blocks (sackList : List (ℕ × ℕ)) :
    (sackList.flatMap fun block => writeHtonU32 block.1 ++ writeHtonU32 block.2).length =
      sackList.length * 8 := by
  induction sackList with
  | nil => rfl
  | cons block sackList ih =>
    rw [List.flatMap_cons, List.length_append, ih, List.length_append, length_writeHtonU32,
      length_writeHtonU32, List.length_cons]
    omega

theorem readSackBlocks_write {sackList : List (ℕ × ℕ)}
    (h : ∀ block ∈ sackList, block.1 < 2 ^ 32 ∧ block.2 < 2 ^ 32) (rest : List UInt8) :
    readSackBlocks sackList.length
        ((sackList.flatMap fun block => writeHtonU32 block.1 ++ writeHtonU32 block.2) ++ rest) =
      some sackList := by
  induction sackList with
  | nil => rfl
  | cons block sackList ih =>
    obtain ⟨⟨hleft, hright⟩, hrest⟩ := List.forall_mem_cons.mp h
    rw [List.length_cons, readSackBlocks, List.flatMap_cons, List.append_assoc, List.append_assoc,
      readNtohU32_writeHtonU32 hleft]
    dsimp only [Option.bind_eq_bind, Option.bind_some]
    rw [readNtohU32_writeHtonU32 hright]
    dsimp only [Option.bind_eq_bind, Option.bind_some]
    rw [ih hrest]
    rfl

/-- What is written of an option has its size. -/
theorem Kept.length_serialize {option : TcpOption} (h : Kept option) :
    option.serialize.length = option.getSerializedSize := by
  cases option with
  | sack sackList =>
    rw [TcpOption.serialize, List.length_append, length_flatMap_blocks]
    rfl
  | unknown kind size content => exact absurd (h.inRange.symm.trans h.known) Bool.false_ne_true
  | _ => rfl

/-- An option that was written is read again. -/
theorem Kept.decodeOption_serialize {option : TcpOption} (h : Kept option) (rest : List UInt8) :
    decodeOption (option.serialize ++ rest) =
      some ⟨option, option.getSerializedSize, option.getSerializedSize⟩ := by
  have hrange := h.inRange
  cases option with
  | endOfList => exact absurd rfl h.kind_ne
  | nop => rfl
  | mss mss =>
    change decodeMSS 4 (writeHtonU16 mss ++ rest) = _
    rw [decodeMSS, if_neg (not_not.mpr rfl), readNtohU16_writeHtonU16 hrange]
    rfl
  | winScale scale => rfl
  | sackPermitted => rfl
  | sack sackList =>
    have hsize := h.size_le
    rw [TcpOption.getSerializedSize, maxOptionsLen] at hsize
    have hcount : ((UInt8.ofNat (sackList.length * 8 + 2)).toNat - 2) / 8 = sackList.length := by
      rw [UInt8.toNat_ofNat']
      omega
    change decodeSack (.ofNat (sackList.length * 8 + 2)) ((sackList.flatMap fun block =>
      writeHtonU32 block.1 ++ writeHtonU32 block.2) ++ rest) = _
    simp only [decodeSack]
    rw [hcount, readSackBlocks_write hrange]
    rfl
  | ts timestamp echo =>
    change decodeTS 10 (writeHtonU32 timestamp ++ writeHtonU32 echo ++ rest) = _
    rw [decodeTS, if_neg (not_not.mpr rfl), List.append_assoc,
      readNtohU32_writeHtonU32 hrange.1]
    dsimp only [Option.bind_eq_bind, Option.bind_some]
    rw [readNtohU32_writeHtonU32 hrange.2]
    rfl
  | unknown kind size content => exact absurd (hrange.symm.trans h.known) Bool.false_ne_true

theorem Kept.size_pos {option : TcpOption} (h : Kept option) : 0 < option.getSerializedSize := by
  cases option with
  | unknown kind size content => exact absurd (h.inRange.symm.trans h.known) Bool.false_ne_true
  | sack sackList => exact Nat.add_pos_left (by decide) _
  | _ => exact Nat.succ_pos _

theorem Kept.ne_endOfList {option : TcpOption} (h : Kept option) : option ≠ .endOfList := by
  rintro rfl
  exact h.kind_ne rfl

theorem pad_eq (optionLen : ℕ) : pad optionLen = List.replicate ((4 - optionLen % 4) % 4) 0 := by
  induction optionLen using pad.induct with
  | case1 optionLen hzero =>
    rw [pad, if_pos hzero, hzero]
    rfl
  | case2 optionLen hne ih =>
    rw [pad, if_neg hne, ih, ← List.replicate_succ]
    congr 1
    omega

/-! ## The loop -/

/-- The options that were written are read again, and the first END octet behind them. -/
theorem parseOptions_serialize {options : List TcpOption} (h : ∀ option ∈ options, Kept option)
    (k : ℕ) (rest : List UInt8) {p : Parse}
    (hp : p.optionLen = (options.map (·.getSerializedSize)).sum + k) : ∃ fuel r,
      parseOptions fuel p (options.flatMap (·.serialize) ++ (List.replicate k 0 ++ rest)) = some r ∧
      r.optionLen = 0 ∧ r.options = p.options ++ options ++ if k = 0 then [] else [.endOfList] := by
  induction options generalizing p with
  | nil =>
    rw [List.map_nil, List.sum_nil, Nat.zero_add] at hp
    obtain _ | k := k
    · refine ⟨1, p, ?_, hp, ?_⟩
      · rw [parseOptions, if_pos hp]
      · rw [if_pos rfl, List.append_nil, List.append_nil]
    · have hdecode : decodeOption (List.replicate (k + 1) 0 ++ rest) = some ⟨.endOfList, 1, 1⟩ :=
        rfl
      have hsame : ¬1 ≠ TcpOption.endOfList.getSerializedSize := not_not.mpr rfl
      refine ⟨2, ((p.read 1).accept .endOfList 1).skip, ?_, rfl, ?_⟩
      · rw [List.flatMap_nil, List.nil_append, parseOptions_succ 1 (by omega) hdecode,
          if_neg hsame, if_pos (show p.optionLen ≥ 1 by omega), if_pos rfl, parseOptions,
          if_pos (optionLen_skip _)]
      · rw [if_neg (Nat.succ_ne_zero k), List.append_nil]
        rfl
  | cons option options ih =>
    obtain ⟨hoption, hrest⟩ := List.forall_mem_cons.mp h
    rw [List.map_cons, List.sum_cons] at hp
    have hpos := hoption.size_pos
    obtain ⟨fuel, r, hparse, hlen, hr⟩ := @ih hrest
      ((p.read option.getSerializedSize).accept option option.getSerializedSize) (by
        change p.optionLen - option.getSerializedSize = _
        omega)
    refine ⟨fuel + 1, r, ?_, hlen, ?_⟩
    · rw [List.flatMap_cons, List.append_assoc,
        parseOptions_succ fuel (by omega) (hoption.decodeOption_serialize _),
        if_neg (not_not.mpr rfl), if_pos (show p.optionLen ≥ option.getSerializedSize by omega),
        if_neg hoption.ne_endOfList, ← hoption.length_serialize, List.drop_left,
        hoption.length_serialize]
      exact hparse
    · rw [hr]
      change p.options ++ [option] ++ options ++ _ = _
      rw [List.append_assoc p.options, List.singleton_append]

/-! ## The header -/

variable {h h' : TcpHeader} {options : List TcpOption} {checksum : ℕ}

/-- What `AppendOption` keeps. -/
structure Appended (h : TcpHeader) : Prop where
  kept : ∀ option ∈ h.options, Kept option
  sizes : (h.options.map (·.getSerializedSize)).sum = h.optionsLen
  optionsLen_le : h.optionsLen ≤ maxOptionsLen
  length_eq : h.length = (23 + h.optionsLen) / 4

/-- An option that is accepted is the last one in the header, if it is not an END option. -/
theorem Appended.appendOption (hh : h.Appended) {option : TcpOption} (hoption : option.InRange)
    (heq : h.appendOption option = (true, h')) :
    h'.Appended ∧ (h.InRange → h'.InRange) ∧
      h'.options = h.options ++ [option].filter (· ≠ .endOfList) := by
  rw [TcpHeader.appendOption] at heq
  split_ifs at heq with hsize hunknown hkind
  · exact absurd (congrArg Prod.fst heq) Bool.false_ne_true
  · obtain rfl := congrArg Prod.snd heq
    have hknown : TcpOption.isKindKnown option.getKind = true := by
      rw [Bool.not_eq_true', Bool.not_eq_false] at hunknown
      exact hunknown
    have hkept : Kept option :=
      ⟨hoption, hknown, hkind, (Nat.le_add_left _ _).trans hsize⟩
    have hfilter : [option].filter (· ≠ .endOfList) = [option] :=
      List.filter_cons_of_pos (decide_eq_true hkept.ne_endOfList)
    refine ⟨⟨fun op hop => ?_, ?_, hsize, ?_⟩, fun hr => { hr with }, ?_⟩
    · rcases List.mem_append.mp hop with hop | hop
      · exact hh.kept op hop
      · rwa [List.mem_singleton.mp hop]
    · change ((h.options ++ [option]).map (·.getSerializedSize)).sum = _
      rw [List.map_append, List.sum_append, hh.sizes, List.map_singleton, List.sum_singleton]
    · exact Nat.shiftRight_eq_div_pow _ 2
    · rw [hfilter]
  · obtain rfl := congrArg Prod.snd heq
    have hend : option = .endOfList := by
      rw [not_not] at hkind
      cases option with
      | endOfList => rfl
      | unknown kind size content =>
        change kind = 0 at hkind
        change TcpOption.isKindKnown kind = false at hoption
        rw [hkind] at hoption
        exact absurd hoption (by decide)
      | nop => exact absurd hkind (show (1 : UInt8) ≠ 0 by decide)
      | mss value => exact absurd hkind (show (2 : UInt8) ≠ 0 by decide)
      | winScale scale => exact absurd hkind (show (3 : UInt8) ≠ 0 by decide)
      | sackPermitted => exact absurd hkind (show (4 : UInt8) ≠ 0 by decide)
      | sack sackList => exact absurd hkind (show (5 : UInt8) ≠ 0 by decide)
      | ts timestamp echo => exact absurd hkind (show (8 : UInt8) ≠ 0 by decide)
    refine ⟨hh, fun hr => hr, ?_⟩
    rw [hend]
    exact (List.append_nil _).symm
  · exact absurd (congrArg Prod.fst heq) Bool.false_ne_true

/-- So it is for a list of options. -/
theorem Appended.appendOptions (hh : h.Appended) (hoptions : ∀ option ∈ options, option.InRange)
    (heq : h.appendOptions options = some h') :
    h'.Appended ∧ (h.InRange → h'.InRange) ∧
      h'.options = h.options ++ options.filter (· ≠ .endOfList) := by
  induction options generalizing h with
  | nil =>
    obtain rfl := Option.some.inj heq
    exact ⟨hh, fun hr => hr, (List.append_nil _).symm⟩
  | cons option options ih =>
    obtain ⟨hoption, hrest⟩ := List.forall_mem_cons.mp hoptions
    rw [TcpHeader.appendOptions] at heq
    obtain ⟨accepted, h₁, hfirst⟩ : ∃ accepted h₁, h.appendOption option = (accepted, h₁) :=
      ⟨_, _, rfl⟩
    rw [hfirst] at heq
    cases accepted with
    | false => exact absurd heq.symm (Option.some_ne_none h')
    | true =>
      obtain ⟨hh₁, hrange₁, hkept₁⟩ := hh.appendOption hoption hfirst
      obtain ⟨hh', hrange', hkept'⟩ := ih hh₁ hrest heq
      refine ⟨hh', fun hr => hrange' (hrange₁ hr), ?_⟩
      rw [hkept', hkept₁, List.append_assoc, ← List.filter_append, List.singleton_append]

/-- The data offset is the length of the header in words. -/
theorem Appended.getSerializedSize_eq (hh : h.Appended) : h.getSerializedSize = h.length * 4 := by
  rw [getSerializedSize, Nat.mul_comm, calculateHeaderLength_eq hh.sizes, hh.length_eq]

theorem length_flatMap_serialize (hoptions : ∀ option ∈ options, Kept option) :
    (options.flatMap (·.serialize)).length = (options.map (·.getSerializedSize)).sum := by
  rw [List.length_flatMap]
  congr 1
  exact List.map_congr_left fun option hoption => (hoptions option hoption).length_serialize

/-- What is written is as long as announced. -/
theorem Appended.length_serialize (hh : h.Appended) :
    (h.serialize checksum).length = h.getSerializedSize := by
  rw [hh.getSerializedSize_eq, hh.length_eq, serialize, pad_eq]
  simp only [List.length_append, length_writeHtonU16, length_writeHtonU32, List.length_replicate,
    length_flatMap_serialize hh.kept, hh.sizes]
  omega

/-- The first 20 bytes are read again. -/
theorem deserializeFixed_serialize (hrange : h.InRange) (hlength : h.length < 16)
    (rest : List UInt8) : deserializeFixed (h.serialize checksum ++ rest) =
      some ({ h with options := [], optionsLen := 0 }, h.options.flatMap (·.serialize) ++
        (pad (h.options.map (·.getSerializedSize)).sum ++ rest)) := by
  have hflags := hrange.flags
  have hfield : h.length <<< 12 ||| h.flags = h.flags + 2 ^ 12 * h.length := by
    rw [Nat.or_comm]
    exact or_shiftLeft (hflags.trans (by norm_num)) h.length
  have hlt : h.length <<< 12 ||| h.flags < 2 ^ 16 := by
    rw [hfield]
    omega
  have hand : (h.length <<< 12 ||| h.flags) &&& 0xff = h.flags := by
    rw [and_mask (show 0xff + 1 = 2 ^ 8 by norm_num), hfield]
    omega
  have hshift : (h.length <<< 12 ||| h.flags) >>> 12 = h.length := by
    rw [Nat.shiftRight_eq_div_pow, hfield]
    omega
  have hchecksum : ∀ i, readBytes 2 (writeHtonU16 checksum ++ i) =
      some (writeHtonU16 checksum, i) := fun i => readBytes_append (writeHtonU16 checksum) i
  simp only [serialize, List.append_assoc]
  rw [deserializeFixed, readNtohU16_writeHtonU16 hrange.sourcePort]
  dsimp only [Option.bind_eq_bind, Option.bind_some]
  rw [readNtohU16_writeHtonU16 hrange.destinationPort]
  dsimp only [Option.bind_eq_bind, Option.bind_some]
  rw [readNtohU32_writeHtonU32 hrange.sequenceNumber]
  dsimp only [Option.bind_eq_bind, Option.bind_some]
  rw [readNtohU32_writeHtonU32 hrange.ackNumber]
  dsimp only [Option.bind_eq_bind, Option.bind_some]
  rw [readNtohU16_writeHtonU16 hlt]
  dsimp only [Option.bind_eq_bind, Option.bind_some]
  rw [readNtohU16_writeHtonU16 hrange.windowSize]
  dsimp only [Option.bind_eq_bind, Option.bind_some]
  rw [hchecksum]
  dsimp only [Option.bind_eq_bind, Option.bind_some]
  rw [readNtohU16_writeHtonU16 hrange.urgentPointer]
  dsimp only [Option.bind_eq_bind, Option.bind_some, Option.pure_def]
  rw [hand, hshift]

/-- The options that `Deserialize` finds have the size of those that were written. -/
theorem calculateHeaderLength_append_end {n : ℕ}
    (hsizes : (options.map (·.getSerializedSize)).sum = n) :
    calculateHeaderLength (options ++ if (4 - n % 4) % 4 = 0 then [] else [.endOfList]) =
      calculateHeaderLength options := by
  have hleft := calculateHeaderLength_eq hsizes
  by_cases hzero : (4 - n % 4) % 4 = 0
  · rw [if_pos hzero, List.append_nil]
  · have hsum : ((options ++ [TcpOption.endOfList]).map (·.getSerializedSize)).sum = n + 1 := by
      rw [List.map_append, List.sum_append, hsizes]
      rfl
    have hright := calculateHeaderLength_eq hsum
    rw [if_neg hzero]
    omega

/-- A header that was written is read again, with the same fields, the same options and at most an
END option behind them, and its length. -/
theorem serialized_header_read_back
    {sourcePort destinationPort sequenceNumber ackNumber flags windowSize urgentPointer : ℕ}
    (hnew : (new sourcePort destinationPort sequenceNumber ackNumber flags windowSize
      urgentPointer).InRange) (hoptions : ∀ option ∈ options, option.InRange)
    (happend : (new sourcePort destinationPort sequenceNumber ackNumber flags windowSize
      urgentPointer).appendOptions options = some h) (checksum : ℕ) (rest : List UInt8) :
    h.options = options.filter (· ≠ .endOfList) ∧
      h.length = h.getSerializedSize / 4 ∧
      (h.serialize checksum).length = h.getSerializedSize ∧
      ∃ fuel h' p, deserialize fuel (h.serialize checksum ++ rest) =
          some (h', h.getSerializedSize, p) ∧ SameFields h h' ∧ p.optionLen = 0 ∧
        (h'.options = h.options ∨ h'.options = h.options ++ [.endOfList]) := by
  have hinitial : (new sourcePort destinationPort sequenceNumber ackNumber flags windowSize
      urgentPointer).Appended :=
    ⟨fun option hoption => absurd hoption List.not_mem_nil, rfl, Nat.zero_le _,
      show 5 = (23 + 0) / 4 by decide⟩
  obtain ⟨hh, hrange, hkept⟩ := hinitial.appendOptions hoptions happend
  have hsize := hh.getSerializedSize_eq
  have hle := hh.optionsLen_le
  have hlength := hh.length_eq
  rw [maxOptionsLen] at hle
  refine ⟨hkept, by omega, hh.length_serialize, ?_⟩
  have hlen : optionLength h.length = (h.options.map (·.getSerializedSize)).sum +
      (4 - h.optionsLen % 4) % 4 := by
    rw [optionLength_eq (by omega) (by omega), hh.sizes]
    omega
  obtain ⟨fuel, p, hparse, hdone, hp⟩ := @parseOptions_serialize _ hh.kept
    ((4 - h.optionsLen % 4) % 4) rest { optionLen := optionLength h.length } hlen
  have hp' : p.options = h.options ++
      if (4 - h.optionsLen % 4) % 4 = 0 then [] else [.endOfList] := hp
  refine ⟨fuel, { h with options := p.options, optionsLen := p.optionsLen }, p, ?_,
    ⟨rfl, rfl, rfl, rfl, rfl, rfl, rfl, rfl⟩, hdone, ?_⟩
  · rw [deserialize, deserializeFixed_serialize (hrange hnew) (by omega), Option.bind_some]
    dsimp only
    rw [if_neg (by rw [hlen, hh.sizes, maxOptionsLen]; omega), pad_eq, hh.sizes, hparse,
      Option.map_some, getSerializedSize, hp', calculateHeaderLength_append_end hh.sizes,
      Nat.mul_comm]
  · rw [hp']
    split_ifs
    · exact Or.inl (List.append_nil _)
    · exact Or.inr rfl

/-- Some options whose last word is not full. -/
def someOptions : List TcpOption :=
  [.mss 1460, .winScale 2, .sack [(1, 0xffffffff)]]

/-- A header with them. -/
def withOptions : TcpHeader :=
  { new 49152 80 0xffffffff 1 0x12 65535 0 with
    options := someOptions, optionsLen := 17, length := 10 }

/-- An END option is read behind them. -/
theorem serialized_header_read_back_some :
    withOptions.options = someOptions.filter (· ≠ .endOfList) ∧
      withOptions.length = withOptions.getSerializedSize / 4 ∧
      (withOptions.serialize 0).length = withOptions.getSerializedSize ∧
      ∃ fuel h' p, deserialize fuel (withOptions.serialize 0 ++ []) =
          some (h', withOptions.getSerializedSize, p) ∧ SameFields withOptions h' ∧
        p.optionLen = 0 ∧ (h'.options = withOptions.options ∨
          h'.options = withOptions.options ++ [.endOfList]) := by
  refine @serialized_header_read_back withOptions someOptions 49152 80 0xffffffff 1 0x12 65535 0
    ?_ ?_ rfl 0 []
  · exact ⟨by decide, by decide, by decide, by decide, by decide, by decide, by decide⟩
  · intro option hoption
    rcases List.mem_cons.mp hoption with rfl | hoption
    · exact show 1460 < 2 ^ 16 by decide
    · rcases List.mem_cons.mp hoption with rfl | hoption
      · trivial
      · rw [List.mem_singleton.mp hoption]
        exact show ∀ block ∈ [(1, 0xffffffff)], block.1 < 2 ^ 32 ∧ block.2 < 2 ^ 32 by decide

end TcpHeader

end Ns3Pedca
