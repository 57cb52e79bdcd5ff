import Ns3Pedca.Readers

/-!
# TLVs of PacketBB

A `PbbTlv` is written with flags for the fields it has, and a TLV block is the size of its TLVs and
these one after the other. The multivalue flag is written and never read, and the size of the block
has 16 bits.

A TLV is read back if and only if it is `Faithful` (`reads_deserialize`, `returns_deserialize`),
and a block if and only if its TLVs are, and those before the last one are shorter than the size
that is written (`run_deserialize_iff`).
-/

namespace Ns3Pedca

open Bytes Readers

/-- `PbbTlv`, with the fields it has. -/
structure PbbTlv where
  type : UInt8
  typeExt : Option UInt8
  indexStart : Option UInt8
  indexStop : Option UInt8
  isMultivalue : Bool
  value : Option (List UInt8)
  deriving DecidableEq

namespace PbbTlv

/-- `THAS_TYPE_EXT`. -/
def thasTypeExt : UInt8 := 0x80

/-- `THAS_SINGLE_INDEX`. -/
def thasSingleIndex : UInt8 := 0x40

/-- `THAS_MULTI_INDEX`. -/
def thasMultiIndex : UInt8 := 0x20

/-- `THAS_VALUE`. -/
def thasValue : UInt8 := 0x10

/-- `THAS_EXT_LEN`. -/
def thasExtLen : UInt8 := 0x08

/-- `TIS_MULTIVALUE`. -/
def tisMultivalue : UInt8 := 0x04

/-- `GetSerializedSize`. -/
def getSerializedSize (t : PbbTlv) : BitVec 32 :=
  2 + (if t.typeExt.isSome then 1 else 0) + (if t.indexStart.isSome then 1 else 0) +
    (if t.indexStop.isSome then 1 else 0) +
    t.value.elim 0 fun value =>
      (if 255 < value.length then 2 else 1) + BitVec.ofNat 32 value.length

/-- `flags` in `Serialize`. -/
def flags (t : PbbTlv) : UInt8 :=
  (if t.typeExt.isSome then thasTypeExt else 0) |||
    (if t.indexStart.isSome then
      if t.indexStop.isSome then thasMultiIndex else thasSingleIndex
    else 0) |||
    t.value.elim 0 fun value =>
      thasValue ||| (if 255 < value.length then thasExtLen else 0) |||
        (if t.isMultivalue then tisMultivalue else 0)

/-- The indices that `Serialize` writes. -/
def writeIndices (t : PbbTlv) : List UInt8 :=
  t.indexStart.elim [] fun index => index :: t.indexStop.toList

/-- The length of a value and its bytes. -/
def writeValue (value : List UInt8) : List UInt8 :=
  (if 255 < value.length then writeHtonU16 value.length else [UInt8.ofNat value.length]) ++ value

/-- `Serialize`. -/
def serialize (t : PbbTlv) : List UInt8 :=
  [t.type] ++ ([t.flags] ++ (t.typeExt.toList ++ (t.writeIndices ++ t.value.elim [] writeValue)))

/-- The indices that `Deserialize` reads. -/
def readIndices (flags : UInt8) : Reader (Option UInt8 × Option UInt8) :=
  if flags &&& thasMultiIndex ≠ 0 then do
    let start ← readU8
    let stop ← readU8
    return (some start, some stop)
  else if flags &&& thasSingleIndex ≠ 0 then do
    let start ← readU8
    return (some start, none)
  else
    return (none, none)

/-- `len` in `Deserialize`. -/
def readLength (flags : UInt8) : Reader ℕ :=
  if flags &&& thasExtLen ≠ 0 then readNtohU16 else UInt8.toNat <$> readU8

/-- The value that `Deserialize` reads. -/
def readValue (flags : UInt8) : Reader (List UInt8) := do
  let len ← readLength flags
  readBytes len

/-- `Deserialize` of a new TLV. -/
def deserialize : Reader PbbTlv := do
  let type ← readU8
  let flags ← readU8
  let typeExt ← readIf (flags &&& thasTypeExt ≠ 0) readU8
  let indices ← readIndices flags
  let value ← readIf (flags &&& thasValue ≠ 0) (readValue flags)
  return ⟨type, typeExt, indices.1, indices.2, false, value⟩

/-- The number of bytes of a TLV. -/
def size (t : PbbTlv) : ℕ :=
  2 + t.typeExt.toList.length + t.writeIndices.length +
    t.value.elim 0 fun value => (if 255 < value.length then 2 else 1) + value.length

/-- All of a TLV is in its bytes. -/
structure Faithful (t : PbbTlv) : Prop where
  multivalue : t.isMultivalue = false
  indices : t.indexStop.isSome = true → t.indexStart.isSome = true
  value : ∀ value ∈ t.value, value.length < 2 ^ 16

/-! ## One TLV -/

variable {t : PbbTlv}

theorem length_serialize (t : PbbTlv) : t.serialize.length = t.size := by
  obtain ⟨type, typeExt, indexStart, indexStop, isMultivalue, value⟩ := t
  rw [serialize, size]
  cases value with
  | none =>
    simp
    omega
  | some value =>
    simp only [List.length_append, Option.elim_some, writeValue]
    split_ifs <;> simp [length_writeHtonU16] <;> omega

theorem size_pos (t : PbbTlv) : 0 < t.size := by
  rw [size]
  omega

theorem Faithful.size_lt (h : t.Faithful) : t.size < 2 ^ 17 := by
  have hvalue := h.value
  have hext : t.typeExt.toList.length ≤ 1 := by
    cases t.typeExt <;> simp
  have hindices : t.writeIndices.length ≤ 2 := by
    rw [writeIndices]
    cases t.indexStart <;> cases t.indexStop <;> simp
  have hlast : (t.value.elim 0 fun value => (if 255 < value.length then 2 else 1) + value.length) <
      2 ^ 16 + 2 := by
    cases hv : t.value with
    | none => exact Nat.zero_lt_succ _
    | some value =>
      have hlen := hvalue value hv
      rw [Option.elim_some]
      split_ifs <;> omega
  rw [PbbTlv.size]
  omega

theorem getSerializedSize_eq (h : t.indexStop.isSome = true → t.indexStart.isSome = true) :
    t.getSerializedSize = BitVec.ofNat 32 t.size := by
  obtain ⟨type, typeExt, indexStart, indexStop, isMultivalue, value⟩ := t
  have hindices : (if indexStart.isSome then (1 : BitVec 32) else 0) +
      (if indexStop.isSome then 1 else 0) =
        BitVec.ofNat 32 (indexStart.elim [] fun index => index :: indexStop.toList).length := by
    cases indexStart with
    | none =>
      cases indexStop with
      | none => rfl
      | some stop => exact absurd (h rfl) Bool.false_ne_true
    | some start => cases indexStop <;> rfl
  have hext : (if typeExt.isSome then (1 : BitVec 32) else 0) =
      BitVec.ofNat 32 typeExt.toList.length := by
    cases typeExt <;> rfl
  have hvalue : (value.elim 0 fun value =>
      (if 255 < value.length then (2 : BitVec 32) else 1) + BitVec.ofNat 32 value.length) =
        BitVec.ofNat 32
          (value.elim 0 fun value => (if 255 < value.length then 2 else 1) + value.length) := by
    cases value with
    | none => rfl
    | some value =>
      rw [Option.elim_some, Option.elim_some, BitVec.ofNat_add]
      split_ifs <;> rfl
  rw [getSerializedSize, size]
  dsimp only
  rw [BitVec.ofNat_add, BitVec.ofNat_add, BitVec.ofNat_add, ← hvalue, ← hext, writeIndices,
    ← hindices]
  simp only [BitVec.add_assoc]
  rfl

/-! ## Flags -/

/-- The flags from what a TLV has. -/
def flagBits (ext start stop value long multi : Bool) : UInt8 :=
  (if ext then thasTypeExt else 0) |||
    (if start then if stop then thasMultiIndex else thasSingleIndex else 0) |||
    (if value then
      thasValue ||| (if long then thasExtLen else 0) ||| (if multi then tisMultivalue else 0)
    else 0)

theorem flags_eq (t : PbbTlv) : t.flags = flagBits t.typeExt.isSome t.indexStart.isSome
    t.indexStop.isSome t.value.isSome (t.value.elim false fun value => 255 < value.length)
    t.isMultivalue := by
  obtain ⟨type, typeExt, indexStart, indexStop, isMultivalue, value⟩ := t
  cases value <;> simp [flags, flagBits]

theorem flagBits_ext : ∀ ext start stop value long multi : Bool,
    flagBits ext start stop value long multi &&& thasTypeExt ≠ 0 ↔ ext = true := by
  decide

theorem flagBits_multi : ∀ ext start stop value long multi : Bool,
    flagBits ext start stop value long multi &&& thasMultiIndex ≠ 0 ↔
      start = true ∧ stop = true := by
  decide

theorem flagBits_single : ∀ ext start stop value long multi : Bool,
    flagBits ext start stop value long multi &&& thasSingleIndex ≠ 0 ↔
      start = true ∧ stop = false := by
  decide

theorem flagBits_value : ∀ ext start stop value long multi : Bool,
    flagBits ext start stop value long multi &&& thasValue ≠ 0 ↔ value = true := by
  decide

theorem flagBits_long : ∀ ext start stop value long multi : Bool,
    flagBits ext start stop value long multi &&& thasExtLen ≠ 0 ↔
      value = true ∧ long = true := by
  decide

/-! ## The round trip of a TLV -/

theorem reads_readIndices (h : t.indexStop.isSome = true → t.indexStart.isSome = true) :
    Reads (readIndices t.flags) t.writeIndices (t.indexStart, t.indexStop) := by
  have hmulti := flagBits_multi t.typeExt.isSome t.indexStart.isSome t.indexStop.isSome
    t.value.isSome (t.value.elim false fun value => 255 < value.length) t.isMultivalue
  have hsingle := flagBits_single t.typeExt.isSome t.indexStart.isSome t.indexStop.isSome
    t.value.isSome (t.value.elim false fun value => 255 < value.length) t.isMultivalue
  rw [← flags_eq] at hmulti hsingle
  rw [readIndices, writeIndices]
  cases hstart : t.indexStart with
  | none =>
    have hstop : t.indexStop = none := by
      cases hstop : t.indexStop with
      | none => rfl
      | some stop =>
        rw [hstart, hstop] at h
        exact absurd (h rfl) Bool.false_ne_true
    rw [hstart] at hmulti hsingle
    rw [if_neg (by simp [hmulti]), if_neg (by simp [hsingle]), hstop]
    exact reads_pure _
  | some start =>
    cases hstop : t.indexStop with
    | none =>
      rw [hstart, hstop] at hmulti hsingle
      rw [if_neg (by simp [hmulti]), if_pos (hsingle.2 ⟨rfl, rfl⟩)]
      exact (reads_readU8 start).bind (reads_pure _)
    | some stop =>
      rw [hstart, hstop] at hmulti
      rw [if_pos (hmulti.2 ⟨rfl, rfl⟩)]
      exact (reads_readU8 start).bind ((reads_readU8 stop).bind (reads_pure _))

theorem reads_readBytes (bytes : List UInt8) :
    Reads (readBytes bytes.length : Reader (List UInt8)) bytes bytes :=
  readBytes_append bytes

theorem reads_readNtohU16 {data : ℕ} (h : data < 2 ^ 16) :
    Reads (readNtohU16 : Reader ℕ) (writeHtonU16 data) data :=
  readNtohU16_writeHtonU16 h

theorem reads_readValue {value : List UInt8} (hvalue : value ∈ t.value)
    (h : value.length < 2 ^ 16) : Reads (readValue t.flags) (writeValue value) value := by
  have hlong := flagBits_long t.typeExt.isSome t.indexStart.isSome t.indexStop.isSome
    t.value.isSome (t.value.elim false fun value => 255 < value.length) t.isMultivalue
  rw [← flags_eq, Option.mem_def.1 hvalue, Option.elim_some, decide_eq_true_eq] at hlong
  refine Reads.bind ?_ (reads_readBytes value)
  rw [readLength]
  by_cases hlen : 255 < value.length
  · rw [if_pos hlen, if_pos (hlong.2 ⟨rfl, hlen⟩)]
    exact reads_readNtohU16 h
  · rw [if_neg hlen, if_neg (fun hflag => hlen (hlong.1 hflag).2)]
    have hbyte : value.length = (UInt8.ofNat value.length).toNat := by
      rw [UInt8.toNat_ofNat', Nat.mod_eq_of_lt (by omega)]
    have hread := (reads_readU8 (UInt8.ofNat value.length)).map UInt8.toNat
    rw [← hbyte] at hread
    exact hread

/-- A faithful TLV is read from its bytes. -/
theorem reads_deserialize (h : t.Faithful) : Reads deserialize t.serialize t := by
  have hext := flagBits_ext t.typeExt.isSome t.indexStart.isSome t.indexStop.isSome
    t.value.isSome (t.value.elim false fun value => 255 < value.length) t.isMultivalue
  have hvalue := flagBits_value t.typeExt.isSome t.indexStart.isSome t.indexStop.isSome
    t.value.isSome (t.value.elim false fun value => 255 < value.length) t.isMultivalue
  rw [← flags_eq] at hext hvalue
  obtain ⟨type, typeExt, indexStart, indexStop, isMultivalue, value⟩ := t
  have hread := @reads_readIf UInt8 readU8 _ _ typeExt (fun ext => [ext]) hext
    fun ext _ => reads_readU8 ext
  have hlast := @reads_readIf (List UInt8) _ _ _ value writeValue hvalue fun v hv =>
    @reads_readValue ⟨type, typeExt, indexStart, indexStop, isMultivalue, value⟩ v hv (h.value v hv)
  have htoList : typeExt.toList = typeExt.elim [] fun ext => [ext] := by
    cases typeExt <;> rfl
  obtain rfl : isMultivalue = false := h.multivalue
  rw [serialize, htoList, ← List.append_nil (value.elim [] writeValue)]
  exact (reads_readU8 type).bind ((reads_readU8 _).bind (hread.bind
    ((reads_readIndices h.indices).bind (hlast.bind (reads_pure _)))))

/-! ## What is read -/

theorem returns_readNtohU16 : Returns (readNtohU16 : Reader ℕ) fun data => data < 2 ^ 16 := by
  intro bytes data rest hrun
  by_cases hlen : 2 ≤ bytes.length
  · obtain ⟨hi, tail, rfl⟩ := List.exists_cons_of_length_pos (show 0 < bytes.length by omega)
    obtain ⟨lo, tail, rfl⟩ :=
      List.exists_cons_of_length_pos (Nat.lt_of_succ_le (Nat.le_of_succ_le_succ hlen))
    obtain ⟨rfl, -⟩ := Prod.mk.inj (Option.some.inj hrun)
    refine Nat.or_lt_two_pow (lo.toNat_lt.trans (by norm_num)) ?_
    rw [Nat.shiftLeft_eq]
    have hhi := hi.toNat_lt
    omega
  · rw [StateT.run, readNtohU16_eq_none (not_le.1 hlen)] at hrun
    exact absurd hrun (Option.some_ne_none _).symm

theorem returns_readBytes (n : ℕ) :
    Returns (readBytes n : Reader (List UInt8)) fun bytes => bytes.length = n := by
  intro bytes field rest hrun
  change (if n ≤ bytes.length then some (bytes.take n, bytes.drop n) else none) = _ at hrun
  split_ifs at hrun with hle
  obtain ⟨rfl, -⟩ := Prod.mk.inj (Option.some.inj hrun)
  exact List.length_take_of_le hle

theorem returns_readLength (flags : UInt8) :
    Returns (readLength flags) fun len => len < 2 ^ 16 := by
  rw [readLength]
  split_ifs
  · exact returns_readNtohU16
  · exact (returns_true readU8).map _ fun byte _ => byte.toNat_lt.trans (by norm_num)

theorem returns_readValue (flags : UInt8) :
    Returns (readValue flags) fun value => value.length < 2 ^ 16 :=
  (returns_readLength flags).bind fun len hlen bytes value rest hrun =>
    (returns_readBytes len bytes value rest hrun).trans_lt hlen

/-- Indices that are read are a range, or start only. -/
theorem returns_readIndices (flags : UInt8) :
    Returns (readIndices flags) fun i => i.2.isSome = true → i.1.isSome = true := by
  rw [readIndices]
  split_ifs
  · exact (returns_true _).bind fun _ _ => (returns_true _).bind fun _ _ =>
      returns_pure fun _ => rfl
  · exact (returns_true _).bind fun _ _ => returns_pure fun _ => rfl
  · exact returns_pure id

/-- Only faithful TLVs are read. -/
theorem returns_deserialize : Returns deserialize Faithful := by
  refine (returns_true _).bind fun type _ => (returns_true _).bind fun flags _ =>
    (returns_true _).bind fun typeExt _ =>
      (returns_readIndices flags).bind fun indices hindices => ?_
  refine Returns.bind (returns_readIf (returns_readValue flags)) fun value hvalue => ?_
  exact returns_pure ⟨rfl, hindices, hvalue⟩

end PbbTlv

/-! ## Blocks -/

namespace PbbTlvBlock

/-- `GetSerializedSize`. -/
def getSerializedSize (tlvs : List PbbTlv) : BitVec 32 :=
  tlvs.foldl (fun size t => size + t.getSerializedSize) 2

/-- `Serialize`. -/
def serialize (tlvs : List PbbTlv) : List UInt8 :=
  if tlvs.isEmpty then writeHtonU16 0
  else writeHtonU16 (tlvs.flatMap PbbTlv.serialize).length ++ tlvs.flatMap PbbTlv.serialize

/-- `Deserialize` of a new block. -/
def deserialize : Reader (List PbbTlv) := do
  let size ← readNtohU16
  readItems PbbTlv.deserialize size size

/-- The number of bytes of TLVs. -/
def size (tlvs : List PbbTlv) : ℕ :=
  (tlvs.map PbbTlv.size).sum

/-- The size of the block, in its 16 bits, is above that of the TLVs before the last one. -/
def Fits (tlvs : List PbbTlv) : Prop :=
  tlvs = [] ∨ size tlvs.dropLast < size tlvs % 2 ^ 16

/-- All of the TLVs is in the bytes of the block. -/
structure Faithful (tlvs : List PbbTlv) : Prop where
  tlv : ∀ t ∈ tlvs, t.Faithful
  fits : Fits tlvs

variable {tlvs : List PbbTlv}

theorem length_flatMap (tlvs : List PbbTlv) :
    (tlvs.flatMap PbbTlv.serialize).length = size tlvs := by
  rw [List.length_flatMap, size]
  exact congrArg List.sum (List.map_congr_left fun t _ => t.length_serialize)

theorem length_serialize (tlvs : List PbbTlv) : (serialize tlvs).length = 2 + size tlvs := by
  rw [serialize]
  split_ifs with hempty
  · rw [List.isEmpty_iff.1 hempty]
    rfl
  · rw [List.length_append, length_writeHtonU16, length_flatMap]

theorem serialize_eq (tlvs : List PbbTlv) : serialize tlvs =
    writeHtonU16 (size tlvs % 2 ^ 16) ++ tlvs.flatMap PbbTlv.serialize := by
  rw [serialize, writeHtonU16_mod, ← length_flatMap]
  split_ifs with hempty
  · rw [List.isEmpty_iff.1 hempty]
    rfl
  · rfl

theorem getSerializedSize_eq (h : ∀ t ∈ tlvs, t.Faithful) :
    getSerializedSize tlvs = BitVec.ofNat 32 (2 + size tlvs) := by
  have hfold : ∀ n : ℕ, tlvs.foldl (fun size t => size + t.getSerializedSize)
      (BitVec.ofNat 32 n) = BitVec.ofNat 32 (n + size tlvs) := by
    induction tlvs with
    | nil => exact fun n => rfl
    | cons t tlvs ih =>
      intro n
      obtain ⟨ht, htlvs⟩ := List.forall_mem_cons.1 h
      have hsum : size (t :: tlvs) = t.size + size tlvs := List.sum_cons
      rw [List.foldl_cons, PbbTlv.getSerializedSize_eq ht.indices, ← BitVec.ofNat_add, ih htlvs,
        hsum, Nat.add_assoc]
  exact hfold 2

/-- A block whose size fits its 16 bits. -/
theorem fits_of_lt (h : size tlvs < 2 ^ 16) : Fits tlvs := by
  rcases List.eq_nil_or_concat tlvs with rfl | ⟨init, last, rfl⟩
  · exact .inl rfl
  · refine .inr ?_
    have hlast := last.size_pos
    rw [Nat.mod_eq_of_lt h, List.concat_eq_append, List.dropLast_concat, size, size,
      List.map_append, List.sum_append]
    simp only [List.map_cons, List.map_nil, List.sum_cons, List.sum_nil]
    omega

/-- Only faithful TLVs are read. -/
theorem returns_deserialize : Returns deserialize fun tlvs => ∀ t ∈ tlvs, t.Faithful :=
  (returns_true _).bind fun size _ => returns_readItems PbbTlv.returns_deserialize size size

/-- A block is read back, if and only if all of it is in its bytes. -/
theorem run_deserialize_iff (tlvs : List PbbTlv) (rest : List UInt8) :
    deserialize.run (serialize tlvs ++ rest) = some (tlvs, rest) ↔ Faithful tlvs := by
  have hsize : (deserialize.run (serialize tlvs ++ rest)) =
      (readItems PbbTlv.deserialize (size tlvs % 2 ^ 16) (size tlvs % 2 ^ 16)).run
        (tlvs.flatMap PbbTlv.serialize ++ rest) := by
    have hread := PbbTlv.reads_readNtohU16 (Nat.mod_lt (size tlvs) (show 2 ^ 16 > 0 by norm_num))
      (tlvs.flatMap PbbTlv.serialize ++ rest)
    rw [serialize_eq, List.append_assoc, deserialize, StateT.run_bind, hread]
    rfl
  have hle : size tlvs % 2 ^ 16 ≤ (tlvs.flatMap PbbTlv.serialize).length := by
    rw [length_flatMap]
    exact Nat.mod_le _ _
  have hlast : (tlvs.dropLast.flatMap PbbTlv.serialize).length = size tlvs.dropLast :=
    length_flatMap _
  have hitems (h : ∀ t ∈ tlvs, t.Faithful) : ∀ t ∈ tlvs,
      Reads PbbTlv.deserialize t.serialize t ∧ t.serialize ≠ [] :=
    fun t ht => ⟨PbbTlv.reads_deserialize (h t ht), List.cons_ne_nil _ _⟩
  constructor
  · intro hrun
    have htlv := returns_deserialize _ _ _ hrun
    rw [hsize, run_readItems_iff (hitems htlv) le_rfl hle, hlast] at hrun
    exact ⟨htlv, hrun⟩
  · rintro ⟨htlv, hfits⟩
    rw [hsize, run_readItems_iff (hitems htlv) le_rfl hle, hlast]
    exact hfits

end PbbTlvBlock

end Ns3Pedca
