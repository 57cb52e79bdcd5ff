import Ns3Pedca.Network.PbbAddressBlock

/-!
# Messages and packets of PacketBB

A message has optional fields, a TLV block and address blocks, and its size is written in front of
them. A packet has an optional sequence number, an optional TLV block and messages up to the end.

With at most one address in each block, a packet is written and read without a loss if and only if
its TLVs are faithful, no block has more prefix lengths than addresses, and its version is the one
that is written (`lossless_iff_faithful`).
-/

namespace Ns3Pedca

open Bytes Readers

/-- `GetAddressLength` of a message. -/
def PbbAddressLength.messageLength : PbbAddressLength → UInt8
  | .ipv4 => 3
  | .ipv6 => 15

/-- The kind of message for the address length in its flags, if there is one. -/
def PbbAddressLength.ofFlags (flags : UInt8) : Option PbbAddressLength :=
  if flags &&& 0xf = 0 ∨ flags &&& 0xf = 3 then some .ipv4
  else if flags &&& 0xf = 15 then some .ipv6
  else none

/-- `PbbMessage`, with the fields it has. -/
structure PbbMessage (f : PbbAddressLength) where
  type : UInt8
  originatorAddress : Option (PbbAddress f)
  hopLimit : Option UInt8
  hopCount : Option UInt8
  sequenceNumber : Option UInt16
  tlvList : List PbbTlv
  addressBlockList : List (PbbAddressBlock f)
  deriving DecidableEq

namespace PbbMessage

variable {f : PbbAddressLength}

/-- `MHAS_ORIG`. -/
def mhasOrig : UInt8 := 0x80

/-- `MHAS_HOP_LIMIT`. -/
def mhasHopLimit : UInt8 := 0x40

/-- `MHAS_HOP_COUNT`. -/
def mhasHopCount : UInt8 := 0x20

/-- `MHAS_SEQ_NUM`. -/
def mhasSeqNum : UInt8 := 0x10

/-- `GetSerializedSize`. -/
def getSerializedSize (m : PbbMessage f) : BitVec 32 :=
  m.addressBlockList.foldl (fun size b => size + b.getSerializedSize)
    (4 + (if m.originatorAddress.isSome then BitVec.ofNat 32 f.messageLength.toNat + 1 else 0) +
      (if m.hopLimit.isSome then 1 else 0) + (if m.hopCount.isSome then 1 else 0) +
      (if m.sequenceNumber.isSome then 2 else 0) + PbbTlvBlock.getSerializedSize m.tlvList)

/-- `flags` in `Serialize`. -/
def flags (m : PbbMessage f) : UInt8 :=
  f.messageLength ||| (if m.originatorAddress.isSome then mhasOrig else 0) |||
    (if m.hopLimit.isSome then mhasHopLimit else 0) |||
    (if m.hopCount.isSome then mhasHopCount else 0) |||
    (if m.sequenceNumber.isSome then mhasSeqNum else 0)

/-- The optional fields that `Serialize` writes. -/
def writeFields (m : PbbMessage f) : List UInt8 :=
  m.originatorAddress.elim [] PbbAddress.bytes ++ (m.hopLimit.elim [] (fun n => [n]) ++
    (m.hopCount.elim [] (fun n => [n]) ++
      m.sequenceNumber.elim [] fun n => writeHtonU16 n.toNat))

/-- Address blocks one after the other. `stale i` is what was at the flags of block `i`. -/
def writeBlocks : (ℕ → UInt8) → List (PbbAddressBlock f) → List UInt8
  | _, [] => []
  | stale, b :: bs => b.serialize (stale 0) ++ writeBlocks (fun i => stale (i + 1)) bs

/-- What `Serialize` writes after the size. -/
def writeBody (stale : ℕ → UInt8) (m : PbbMessage f) : List UInt8 :=
  m.writeFields ++ (PbbTlvBlock.serialize m.tlvList ++ writeBlocks stale m.addressBlockList)

/-- `Serialize`. -/
def serialize (stale : ℕ → UInt8) (m : PbbMessage f) : List UInt8 :=
  [m.type] ++ ([m.flags] ++ (writeHtonU16 (4 + (m.writeBody stale).length) ++ m.writeBody stale))

/-- `DeserializeOriginatorAddress`. -/
def readOriginatorAddress : Reader (PbbAddress f) :=
  PbbAddressBlock.readAddress [] []

/-- The message without its address blocks, and its size. -/
def readFields : Reader (ℕ × PbbMessage f) := do
  let type ← readU8
  let flags ← readU8
  let size ← readNtohU16
  let originatorAddress ← readIf (flags &&& mhasOrig ≠ 0) readOriginatorAddress
  let hopLimit ← readIf (flags &&& mhasHopLimit ≠ 0) readU8
  let hopCount ← readIf (flags &&& mhasHopCount ≠ 0) readU8
  let sequenceNumber ← readIf (flags &&& mhasSeqNum ≠ 0) (UInt16.ofNat <$> readNtohU16)
  let tlvList ← PbbTlvBlock.deserialize
  return (size, ⟨type, originatorAddress, hopLimit, hopCount, sequenceNumber, tlvList, []⟩)

/-- `Deserialize` of a new message. -/
def deserialize : Reader (PbbMessage f) := fun front =>
  (readFields.run front).bind fun r =>
    let size := r.1.1 - (front.length - r.2.length)
    ((readItems PbbAddressBlock.deserialize size size).run r.2).map fun s =>
      (⟨r.1.2.type, r.1.2.originatorAddress, r.1.2.hopLimit, r.1.2.hopCount,
        r.1.2.sequenceNumber, r.1.2.tlvList, s.1⟩, s.2)

/-- At most one address in each block, and sizes that fit 16 bits. -/
structure Sized (m : PbbMessage f) : Prop where
  addresses : ∀ b ∈ m.addressBlockList, b.addressList.length ≤ 1
  size : ∀ stale, (m.serialize stale).length < 2 ^ 16

/-- The TLVs are faithful, and no block has more prefix lengths than addresses. -/
structure Faithful (m : PbbMessage f) : Prop where
  tlvs : ∀ t ∈ m.tlvList, t.Faithful
  addressTlvs : ∀ b ∈ m.addressBlockList, ∀ t ∈ b.addressTlvList, t.Faithful
  prefixes : ∀ b ∈ m.addressBlockList, b.prefixList.length ≤ b.addressList.length

/-! ## Flags of a message -/

variable {m : PbbMessage f}

/-- The flags from the fields a message has. -/
def flagBits (f : PbbAddressLength) (orig limit count seqnum : Bool) : UInt8 :=
  f.messageLength ||| (if orig then mhasOrig else 0) ||| (if limit then mhasHopLimit else 0) |||
    (if count then mhasHopCount else 0) ||| (if seqnum then mhasSeqNum else 0)

theorem flags_eq (m : PbbMessage f) : m.flags = flagBits f m.originatorAddress.isSome
    m.hopLimit.isSome m.hopCount.isSome m.sequenceNumber.isSome :=
  rfl

theorem flagBits_orig (f : PbbAddressLength) : ∀ orig limit count seqnum : Bool,
    flagBits f orig limit count seqnum &&& mhasOrig ≠ 0 ↔ orig = true := by
  cases f <;> decide

theorem flagBits_hopLimit (f : PbbAddressLength) : ∀ orig limit count seqnum : Bool,
    flagBits f orig limit count seqnum &&& mhasHopLimit ≠ 0 ↔ limit = true := by
  cases f <;> decide

theorem flagBits_hopCount (f : PbbAddressLength) : ∀ orig limit count seqnum : Bool,
    flagBits f orig limit count seqnum &&& mhasHopCount ≠ 0 ↔ count = true := by
  cases f <;> decide

theorem flagBits_seqNum (f : PbbAddressLength) : ∀ orig limit count seqnum : Bool,
    flagBits f orig limit count seqnum &&& mhasSeqNum ≠ 0 ↔ seqnum = true := by
  cases f <;> decide

theorem ofFlags_flagBits (f : PbbAddressLength) : ∀ orig limit count seqnum : Bool,
    PbbAddressLength.ofFlags (flagBits f orig limit count seqnum) = some f := by
  cases f <;> decide

/-- The kind of a message is in its flags. -/
theorem ofFlags_flags (m : PbbMessage f) : PbbAddressLength.ofFlags m.flags = some f :=
  ofFlags_flagBits f _ _ _ _

/-! ## Blocks of a message -/

theorem Sized.length_lt (hs : m.Sized) (stale : ℕ → UInt8) :
    4 + (m.writeBody stale).length < 2 ^ 16 := by
  have hsize := hs.size stale
  rw [serialize, List.length_append, List.length_append, List.length_append, length_writeHtonU16,
    List.length_singleton, List.length_singleton] at hsize
  omega

theorem length_writeBody (stale : ℕ → UInt8) (m : PbbMessage f) : (m.writeBody stale).length =
    m.writeFields.length + (2 + PbbTlvBlock.size m.tlvList) +
      (writeBlocks stale m.addressBlockList).length := by
  rw [writeBody, List.length_append, List.length_append, PbbTlvBlock.length_serialize]
  omega

theorem length_tlvs_le (stale : UInt8) (b : PbbAddressBlock f) :
    PbbTlvBlock.size b.addressTlvList ≤ (b.serialize stale).length := by
  rw [PbbAddressBlock.serialize, List.length_cons, List.length_append,
    PbbTlvBlock.length_serialize]
  omega

theorem length_block_le {bs : List (PbbAddressBlock f)} {b : PbbAddressBlock f} (hb : b ∈ bs) :
    ∀ stale : ℕ → UInt8, PbbTlvBlock.size b.addressTlvList ≤ (writeBlocks stale bs).length := by
  induction bs with
  | nil => exact absurd hb List.not_mem_nil
  | cons b' bs ih =>
    intro stale
    rw [writeBlocks, List.length_append]
    rcases List.mem_cons.1 hb with rfl | hb
    · exact (length_tlvs_le _ _).trans (Nat.le_add_right _ _)
    · exact (ih hb _).trans (Nat.le_add_left _ _)

theorem Sized.tlvs_lt (hs : m.Sized) : PbbTlvBlock.size m.tlvList < 2 ^ 16 := by
  have hlt := hs.length_lt fun _ => 0
  rw [length_writeBody] at hlt
  omega

theorem Sized.addressTlvs_lt (hs : m.Sized) {b : PbbAddressBlock f}
    (hb : b ∈ m.addressBlockList) : PbbTlvBlock.size b.addressTlvList < 2 ^ 16 := by
  have hlt := hs.length_lt fun _ => 0
  have hle := length_block_le hb fun _ => 0
  rw [length_writeBody] at hlt
  omega

/-- A block of at most one address, with no more prefix lengths. -/
theorem wellFormed {b : PbbAddressBlock f} (hone : b.addressList.length ≤ 1)
    (hprefixes : b.prefixList.length ≤ b.addressList.length) : b.WellFormed :=
  ⟨hone.trans (by norm_num), by omega⟩

theorem compressible {b : PbbAddressBlock f} (hone : b.addressList.length ≤ 1)
    (hprefixes : b.prefixList.length ≤ b.addressList.length)
    (htlvs : PbbTlvBlock.Faithful b.addressTlvList) : b.Compressible := by
  refine ⟨fun init x y hlist => ?_, htlvs, fun hnil => ?_⟩
  · rw [hlist, List.length_append] at hone
    exact absurd hone (by simp)
  · rw [hnil] at hprefixes
    exact List.length_eq_zero_iff.1 (Nat.le_zero.1 hprefixes)

/-- The blocks of a message can be read. -/
theorem Faithful.block (hm : m.Faithful) (hs : m.Sized) {b : PbbAddressBlock f}
    (hb : b ∈ m.addressBlockList) : b.WellFormed ∧ b.Compressible :=
  ⟨wellFormed (hs.addresses b hb) (hm.prefixes b hb),
    compressible (hs.addresses b hb) (hm.prefixes b hb)
      ⟨hm.addressTlvs b hb, PbbTlvBlock.fits_of_lt (hs.addressTlvs_lt hb)⟩⟩

theorem reads_writeBlocks {bs : List (PbbAddressBlock f)} :
    (∀ b ∈ bs, b.WellFormed ∧ b.Compressible) → ∀ (stale : ℕ → UInt8) (fuel : ℕ),
      (writeBlocks stale bs).length ≤ fuel →
        Reads (readItems PbbAddressBlock.deserialize fuel (writeBlocks stale bs).length)
          (writeBlocks stale bs) bs := by
  induction bs with
  | nil => exact fun _ stale fuel _ => reads_readItems_nil _ fuel
  | cons b bs ih =>
    intro h stale fuel hfuel
    obtain ⟨⟨hw, hc⟩, hbs⟩ := List.forall_mem_cons.1 h
    have hpos : 0 < (b.serialize (stale 0)).length := Nat.succ_pos _
    rw [writeBlocks, List.length_append] at hfuel ⊢
    obtain ⟨fuel, rfl⟩ := Nat.exists_eq_succ_of_ne_zero (show fuel ≠ 0 by omega)
    exact (PbbAddressBlock.reads_deserialize hw hc (stale 0)).readItems_cons
      (List.cons_ne_nil _ _) (ih hbs _ fuel (by omega))

/-! ## The round trip of a message -/

theorem reads_readOriginatorAddress (address : PbbAddress f) :
    Reads readOriginatorAddress address.bytes address := by
  have hread : Reads (readBytes f.blockLength : Reader (List UInt8)) address.bytes address.bytes :=
    PbbAddressBlock.reads_readBytes_of_length address.length_eq
  rw [readOriginatorAddress, PbbAddressBlock.readAddress, ← List.append_nil address.bytes]
  refine hread.bind ?_
  have hlen : ([] ++ address.bytes ++ []).length = f.blockLength := by
    rw [List.nil_append, List.append_nil, address.length_eq]
  rw [dif_pos hlen]
  have haddress : (⟨[] ++ address.bytes ++ [], hlen⟩ : PbbAddress f) = address := by
    obtain ⟨bytes, hbytes⟩ := address
    congr 1
    exact List.append_nil bytes
  rw [haddress]
  exact reads_pure address

theorem reads_readU16 (n : UInt16) :
    Reads (UInt16.ofNat <$> (readNtohU16 : Reader ℕ)) (writeHtonU16 n.toNat) n := by
  have hread := (PbbTlv.reads_readNtohU16 n.toNat_lt).map UInt16.ofNat
  rw [UInt16.ofNat_toNat] at hread
  exact hread

/-- The fields in front of the address blocks are read. -/
theorem reads_readFields (hm : m.Faithful) (hs : m.Sized) {size : ℕ} (hsize : size < 2 ^ 16) :
    Reads readFields ([m.type] ++ ([m.flags] ++ (writeHtonU16 size ++
      (m.writeFields ++ PbbTlvBlock.serialize m.tlvList))))
      (size, (⟨m.type, m.originatorAddress, m.hopLimit, m.hopCount, m.sequenceNumber, m.tlvList,
        []⟩ : PbbMessage f)) := by
  have horig := flagBits_orig f m.originatorAddress.isSome m.hopLimit.isSome m.hopCount.isSome
    m.sequenceNumber.isSome
  have hlimit := flagBits_hopLimit f m.originatorAddress.isSome m.hopLimit.isSome
    m.hopCount.isSome m.sequenceNumber.isSome
  have hcount := flagBits_hopCount f m.originatorAddress.isSome m.hopLimit.isSome
    m.hopCount.isSome m.sequenceNumber.isSome
  have hseq := flagBits_seqNum f m.originatorAddress.isSome m.hopLimit.isSome m.hopCount.isSome
    m.sequenceNumber.isSome
  rw [← flags_eq] at horig hlimit hcount hseq
  have htlvs : Reads PbbTlvBlock.deserialize (PbbTlvBlock.serialize m.tlvList) m.tlvList :=
    fun rest => (PbbTlvBlock.run_deserialize_iff _ rest).2
      ⟨hm.tlvs, PbbTlvBlock.fits_of_lt hs.tlvs_lt⟩
  have hfields : m.writeFields ++ PbbTlvBlock.serialize m.tlvList =
      m.originatorAddress.elim [] PbbAddress.bytes ++ (m.hopLimit.elim [] (fun n => [n]) ++
        (m.hopCount.elim [] (fun n => [n]) ++
          (m.sequenceNumber.elim [] (fun n => writeHtonU16 n.toNat) ++
            (PbbTlvBlock.serialize m.tlvList ++ [])))) := by
    rw [writeFields, List.append_nil, List.append_assoc, List.append_assoc, List.append_assoc]
  rw [hfields]
  exact (reads_readU8 m.type).bind <| (reads_readU8 m.flags).bind <|
    (PbbTlv.reads_readNtohU16 hsize).bind <|
    (reads_readIf horig fun a _ => reads_readOriginatorAddress a).bind <|
    (reads_readIf hlimit fun n _ => reads_readU8 n).bind <|
    (reads_readIf hcount fun n _ => reads_readU8 n).bind <|
    (reads_readIf hseq fun n _ => reads_readU16 n).bind <| htlvs.bind <| reads_pure _

/-- A faithful message is read from its bytes. -/
theorem reads_deserialize (hm : m.Faithful) (hs : m.Sized) (stale : ℕ → UInt8) :
    Reads deserialize (m.serialize stale) m := by
  intro rest
  have hfront : m.serialize stale = [m.type] ++ ([m.flags] ++
      (writeHtonU16 (4 + (m.writeBody stale).length) ++
        (m.writeFields ++ PbbTlvBlock.serialize m.tlvList))) ++
      writeBlocks stale m.addressBlockList := by
    simp only [serialize, writeBody, List.append_assoc]
  have hfields := reads_readFields hm hs (hs.length_lt stale)
    (writeBlocks stale m.addressBlockList ++ rest)
  have hblocks := reads_writeBlocks (fun b hb => hm.block hs hb) stale _ le_rfl rest
  have hsize : 4 + (m.writeBody stale).length - ((m.serialize stale ++ rest).length -
      (writeBlocks stale m.addressBlockList ++ rest).length) =
        (writeBlocks stale m.addressBlockList).length := by
    have htotal : (m.serialize stale).length = 4 + (m.writeBody stale).length := by
      rw [serialize, List.length_append, List.length_append, List.length_append,
        length_writeHtonU16, List.length_singleton, List.length_singleton]
      omega
    have hbody := length_writeBody stale m
    rw [List.length_append, List.length_append, htotal]
    omega
  rw [← List.append_assoc, ← hfront] at hfields
  change (readFields.run (m.serialize stale ++ rest)).bind _ = _
  rw [hfields, Option.bind_some]
  dsimp only
  rw [hsize, hblocks]
  rfl

/-! ## The size of a message -/

theorem foldl_blocks {bs : List (PbbAddressBlock f)} :
    (∀ b ∈ bs, b.WellFormed ∧ b.Compressible) → ∀ (stale : ℕ → UInt8) (n : ℕ),
      bs.foldl (fun size b => size + b.getSerializedSize) (BitVec.ofNat 32 n) =
        BitVec.ofNat 32 (n + (writeBlocks stale bs).length) := by
  induction bs with
  | nil => exact fun _ _ _ => rfl
  | cons b bs ih =>
    intro h stale n
    obtain ⟨⟨hw, hc⟩, hbs⟩ := List.forall_mem_cons.1 h
    rw [List.foldl_cons, PbbAddressBlock.getSerializedSize_eq hw hc.common hc.tlvs.tlv (stale 0),
      ← BitVec.ofNat_add, ih hbs (fun i => stale (i + 1)), writeBlocks, List.length_append,
      Nat.add_assoc]

theorem length_originatorAddress (o : Option (PbbAddress f)) :
    (if o.isSome then BitVec.ofNat 32 f.messageLength.toNat + 1 else 0) =
      BitVec.ofNat 32 (o.elim [] PbbAddress.bytes).length := by
  cases o with
  | none => rfl
  | some a =>
    rw [Option.elim_some, a.length_eq]
    cases f <;> rfl

theorem length_byte (o : Option UInt8) : (if o.isSome then (1 : BitVec 32) else 0) =
    BitVec.ofNat 32 (o.elim [] fun n => [n]).length := by
  cases o <;> rfl

theorem length_u16 (o : Option UInt16) : (if o.isSome then (2 : BitVec 32) else 0) =
    BitVec.ofNat 32 (o.elim [] fun n => writeHtonU16 n.toNat).length := by
  cases o <;> rfl

/-- The size of a message in bytes. -/
theorem getSerializedSize_eq (hm : m.Faithful) (hs : m.Sized) (stale : ℕ → UInt8) :
    m.getSerializedSize = BitVec.ofNat 32 (m.serialize stale).length := by
  have hblocks := foldl_blocks (fun b hb => hm.block hs hb) stale
  have hlen : (m.serialize stale).length = 4 + (m.originatorAddress.elim [] PbbAddress.bytes).length
      + (m.hopLimit.elim [] fun n => [n]).length + (m.hopCount.elim [] fun n => [n]).length +
      (m.sequenceNumber.elim [] fun n => writeHtonU16 n.toNat).length +
      (2 + PbbTlvBlock.size m.tlvList) + (writeBlocks stale m.addressBlockList).length := by
    rw [serialize, List.length_append, List.length_append, List.length_append, length_writeBody,
      writeFields, List.length_append, List.length_append, List.length_append,
      length_writeHtonU16, List.length_singleton, List.length_singleton]
    omega
  rw [getSerializedSize, PbbTlvBlock.getSerializedSize_eq hm.tlvs, length_originatorAddress,
    length_byte, length_byte, length_u16, hlen, ← hblocks]
  simp only [BitVec.ofNat_add]
  rfl

/-! ## What is read of a message -/

/-- Only faithful messages are read. -/
theorem returns_deserialize : Returns (deserialize : Reader (PbbMessage f)) Faithful := by
  have hfields : Returns (readFields : Reader (ℕ × PbbMessage f))
      fun r => ∀ t ∈ r.2.tlvList, t.Faithful :=
    (returns_true _).bind fun _ _ => (returns_true _).bind fun _ _ =>
      (returns_true _).bind fun _ _ => (returns_true _).bind fun _ _ =>
      (returns_true _).bind fun _ _ => (returns_true _).bind fun _ _ =>
      (returns_true _).bind fun _ _ => PbbTlvBlock.returns_deserialize.bind fun _ htlvs =>
        returns_pure htlvs
  intro bytes m rest hrun
  obtain ⟨r, hr, hmap⟩ := Option.bind_eq_some_iff.1 hrun
  obtain ⟨s, hblocks, heq⟩ := Option.map_eq_some_iff.1 hmap
  obtain ⟨rfl, -⟩ := Prod.mk.inj heq
  have hitems := returns_readItems PbbAddressBlock.returns_deserialize _ _ _ _ _ hblocks
  exact ⟨hfields _ _ _ hr, fun b hb => (hitems b hb).1, fun b hb => (hitems b hb).2⟩

end PbbMessage

/-- A message of either kind. -/
abbrev AnyMessage := Σ f : PbbAddressLength, PbbMessage f

/-- `PbbPacket`. -/
structure PbbPacket where
  version : UInt8
  sequenceNumber : Option UInt16
  forceTlv : Bool
  tlvList : List PbbTlv
  messageList : List AnyMessage
  deriving DecidableEq

namespace PbbPacket

/-- `PHAS_SEQ_NUM`. -/
def phasSeqNum : UInt8 := 0x8

/-- `PHAS_TLV`. -/
def phasTlv : UInt8 := 0x4

/-- `GetSerializedSize`. -/
def getSerializedSize (p : PbbPacket) : BitVec 32 :=
  p.messageList.foldl (fun size m => size + m.2.getSerializedSize)
    (1 + (if p.sequenceNumber.isSome then 2 else 0) +
      (if ¬ p.tlvList.isEmpty ∨ p.forceTlv then PbbTlvBlock.getSerializedSize p.tlvList else 0))

/-- `flags` in `Serialize`, with `VERSION` zero. -/
def flags (p : PbbPacket) : UInt8 :=
  (if p.sequenceNumber.isSome then phasSeqNum else 0) |||
    (if ¬ p.tlvList.isEmpty ∨ p.forceTlv then phasTlv else 0)

/-- Messages one after the other, with what was at the flags of their empty blocks. -/
def writeMessages : (ℕ → ℕ → UInt8) → List AnyMessage → List UInt8
  | _, [] => []
  | stale, m :: ms => m.2.serialize (stale 0) ++ writeMessages (fun i => stale (i + 1)) ms

/-- `Serialize`. -/
def serialize (stale : ℕ → ℕ → UInt8) (p : PbbPacket) : List UInt8 :=
  [p.flags] ++ (p.sequenceNumber.elim [] (fun n => writeHtonU16 n.toNat) ++
    ((if ¬ p.tlvList.isEmpty ∨ p.forceTlv then PbbTlvBlock.serialize p.tlvList else []) ++
      writeMessages stale p.messageList))

/-- `DeserializeMessage`. There is no message if the address length is unknown. -/
def deserializeMessage (start : List UInt8) : Option (Option AnyMessage × List UInt8) :=
  start[1]?.bind fun flags =>
    (PbbAddressLength.ofFlags flags).elim (some (none, start)) fun f =>
      (PbbMessage.deserialize.run start).map fun r => (some ⟨f, r.1⟩, r.2)

/-- The messages up to the end, or to one that is unknown, with a bound on their number. The flag
tells that all were known. -/
def readMessages : ℕ → List UInt8 → Option ((List AnyMessage × Bool) × List UInt8)
  | _, [] => some (([], true), [])
  | 0, _ => none
  | fuel + 1, start => (deserializeMessage start).bind fun r =>
    r.1.elim (some (([], false), r.2)) fun m =>
      (readMessages fuel r.2).map fun s => ((m :: s.1.1, s.1.2), s.2)

/-- The fields of a packet before its messages, and the flags. -/
def readHeader : Reader (UInt8 × Option UInt16 × List PbbTlv) := do
  let flags ← readU8
  let sequenceNumber ← readIf (flags &&& phasSeqNum ≠ 0) (UInt16.ofNat <$> readNtohU16)
  let tlvList ← readIf (flags &&& phasTlv ≠ 0) PbbTlvBlock.deserialize
  return (flags, sequenceNumber, tlvList.getD [])

/-- `Deserialize` of a new packet, and the number of bytes it returns. -/
def deserialize (start : List UInt8) : Option (PbbPacket × BitVec 32) :=
  (readHeader.run start).bind fun r =>
    (readMessages r.2.length r.2).map fun s =>
      (⟨if s.1.2 then r.1.1 >>> 4 else 0, r.1.2.1, false, r.1.2.2, s.1.1⟩,
        BitVec.ofNat 32 (start.length - s.2.length))

/-- What `operator==` compares. -/
def Same (p q : PbbPacket) : Prop :=
  p.version = q.version ∧ p.sequenceNumber = q.sequenceNumber ∧ p.tlvList = q.tlvList ∧
    p.messageList = q.messageList

/-- What should hold of a packet that is written and read. -/
structure Lossless (stale : ℕ → ℕ → UInt8) (p : PbbPacket) : Prop where
  size : p.getSerializedSize = BitVec.ofNat 32 (p.serialize stale).length
  roundTrip : ∃ q, deserialize (p.serialize stale) = some (q, p.getSerializedSize) ∧ Same p q

/-- Sizes that fit 16 bits. -/
structure Sized (p : PbbPacket) : Prop where
  tlvs : PbbTlvBlock.size p.tlvList < 2 ^ 16
  messages : ∀ m ∈ p.messageList, m.2.Sized

/-- The messages and TLVs are faithful, and the version is the one that is written. -/
structure Faithful (p : PbbPacket) : Prop where
  version : p.version = 0
  tlvs : ∀ t ∈ p.tlvList, t.Faithful
  messages : ∀ m ∈ p.messageList, m.2.Faithful

/-- The TLV block and the messages end where their sizes say. -/
structure Framed (stale : ℕ → UInt8) (p : PbbPacket) : Prop where
  tlvs : (readNtohU16 (PbbTlvBlock.serialize p.tlvList)).map Prod.fst =
    some ((PbbTlvBlock.serialize p.tlvList).length - 2)
  messages : ∀ m ∈ p.messageList,
    (readNtohU16 ((m.2.serialize stale).drop 2)).map Prod.fst = some (m.2.serialize stale).length
  messageTlvs : ∀ m ∈ p.messageList,
    (readNtohU16 (PbbTlvBlock.serialize m.2.tlvList)).map Prod.fst =
      some ((PbbTlvBlock.serialize m.2.tlvList).length - 2)
  addressTlvs : ∀ m ∈ p.messageList, ∀ b ∈ m.2.addressBlockList,
    (readNtohU16 (PbbTlvBlock.serialize b.addressTlvList)).map Prod.fst =
      some ((PbbTlvBlock.serialize b.addressTlvList).length - 2)

/-! ## The bytes of a packet -/

variable {p : PbbPacket}

/-- The flags from what a packet has. -/
def flagBits (seqnum tlv : Bool) : UInt8 :=
  (if seqnum then phasSeqNum else 0) ||| (if tlv then phasTlv else 0)

theorem flags_eq (p : PbbPacket) :
    p.flags = flagBits p.sequenceNumber.isSome (¬ p.tlvList.isEmpty ∨ p.forceTlv) := by
  rw [flags, flagBits]
  simp only [decide_eq_true_eq]

theorem flagBits_seqNum : ∀ seqnum tlv : Bool,
    flagBits seqnum tlv &&& phasSeqNum ≠ 0 ↔ seqnum = true := by
  decide

theorem flagBits_tlv : ∀ seqnum tlv : Bool, flagBits seqnum tlv &&& phasTlv ≠ 0 ↔ tlv = true := by
  decide

theorem flagBits_version : ∀ seqnum tlv : Bool, flagBits seqnum tlv >>> 4 = 0 := by
  decide

/-- The version that is written is zero. -/
theorem version_flags (p : PbbPacket) : p.flags >>> 4 = 0 := by
  rw [flags_eq]
  exact flagBits_version _ _

theorem length_message_pos {f : PbbAddressLength} (m : PbbMessage f) (stale : ℕ → UInt8) :
    0 < (m.serialize stale).length :=
  Nat.succ_pos _

/-- The messages are read up to the end. -/
theorem readMessages_writeMessages {ms : List AnyMessage} :
    (∀ m ∈ ms, m.2.Faithful ∧ m.2.Sized) → ∀ (stale : ℕ → ℕ → UInt8) (fuel : ℕ),
      (writeMessages stale ms).length ≤ fuel →
        readMessages fuel (writeMessages stale ms) = some ((ms, true), []) := by
  induction ms with
  | nil =>
    intro _ stale fuel _
    cases fuel <;> rfl
  | cons m ms ih =>
    intro h stale fuel hfuel
    obtain ⟨⟨hm, hs⟩, hms⟩ := List.forall_mem_cons.1 h
    have hpos := length_message_pos m.2 (stale 0)
    rw [writeMessages, List.length_append] at hfuel
    obtain ⟨fuel, rfl⟩ := Nat.exists_eq_succ_of_ne_zero (show fuel ≠ 0 by omega)
    have hread := PbbMessage.reads_deserialize hm hs (stale 0)
      (writeMessages (fun i => stale (i + 1)) ms)
    have hmessage : deserializeMessage (writeMessages stale (m :: ms)) =
        some (some m, writeMessages (fun i => stale (i + 1)) ms) := by
      change (PbbAddressLength.ofFlags m.2.flags).elim (some (none, _)) (fun f =>
        (PbbMessage.deserialize.run (m.2.serialize (stale 0) ++
          writeMessages (fun i => stale (i + 1)) ms)).map fun r =>
            (some (⟨f, r.1⟩ : AnyMessage), r.2)) = _
      rw [PbbMessage.ofFlags_flags, Option.elim_some, hread]
      rfl
    have hrest := ih hms (fun i => stale (i + 1)) fuel (by omega)
    change (deserializeMessage (writeMessages stale (m :: ms))).bind (fun r =>
      r.1.elim (some (([], false), r.2)) fun m =>
        (readMessages fuel r.2).map fun s => ((m :: s.1.1, s.1.2), s.2)) = _
    rw [hmessage, Option.bind_some, Option.elim_some, hrest]
    rfl

/-- The fields in front of the messages are read. -/
theorem reads_readHeader (htlvs : ∀ t ∈ p.tlvList, t.Faithful) (hs : p.Sized) :
    Reads readHeader ([p.flags] ++ (p.sequenceNumber.elim [] (fun n => writeHtonU16 n.toNat) ++
      if ¬ p.tlvList.isEmpty ∨ p.forceTlv then PbbTlvBlock.serialize p.tlvList else []))
      (p.flags, p.sequenceNumber, p.tlvList) := by
  have hseq := flagBits_seqNum p.sequenceNumber.isSome (¬ p.tlvList.isEmpty ∨ p.forceTlv)
  have htlv := flagBits_tlv p.sequenceNumber.isSome (¬ p.tlvList.isEmpty ∨ p.forceTlv)
  rw [← flags_eq] at hseq htlv
  rw [decide_eq_true_eq] at htlv
  have hblock : Reads PbbTlvBlock.deserialize (PbbTlvBlock.serialize p.tlvList) p.tlvList :=
    fun rest => (PbbTlvBlock.run_deserialize_iff _ rest).2 ⟨htlvs, PbbTlvBlock.fits_of_lt hs.tlvs⟩
  refine (reads_readU8 p.flags).bind <|
    (reads_readIf hseq fun n _ => PbbMessage.reads_readU16 n).bind ?_
  by_cases hwritten : ¬ p.tlvList.isEmpty ∨ p.forceTlv
  · rw [if_pos hwritten, readIf, if_pos (htlv.2 hwritten),
      ← List.append_nil (PbbTlvBlock.serialize p.tlvList)]
    exact (hblock.map some).bind (reads_pure _)
  · have hnil : p.tlvList = [] := List.isEmpty_iff.1 (not_not.1 (not_or.1 hwritten).1)
    rw [if_neg hwritten, readIf, if_neg (fun h => hwritten (htlv.1 h)), hnil]
    exact (reads_pure none).bind (reads_pure _)

theorem foldl_messages {ms : List AnyMessage} :
    (∀ m ∈ ms, m.2.Faithful ∧ m.2.Sized) → ∀ (stale : ℕ → ℕ → UInt8) (n : ℕ),
      ms.foldl (fun size m => size + m.2.getSerializedSize) (BitVec.ofNat 32 n) =
        BitVec.ofNat 32 (n + (writeMessages stale ms).length) := by
  induction ms with
  | nil => exact fun _ _ _ => rfl
  | cons m ms ih =>
    intro h stale n
    obtain ⟨⟨hm, hs⟩, hms⟩ := List.forall_mem_cons.1 h
    rw [List.foldl_cons, PbbMessage.getSerializedSize_eq hm hs (stale 0), ← BitVec.ofNat_add,
      ih hms (fun i => stale (i + 1)), writeMessages, List.length_append, Nat.add_assoc]

/-- The messages of a packet can be read. -/
theorem Faithful.message (hp : p.Faithful) (hs : p.Sized) :
    ∀ m ∈ p.messageList, m.2.Faithful ∧ m.2.Sized :=
  fun m hm => ⟨hp.messages m hm, hs.messages m hm⟩

/-- The size of a packet in bytes. -/
theorem getSerializedSize_eq (hp : p.Faithful) (hs : p.Sized) (stale : ℕ → ℕ → UInt8) :
    p.getSerializedSize = BitVec.ofNat 32 (p.serialize stale).length := by
  have hmessages := foldl_messages (hp.message hs) stale
  have htlvs : (if ¬ p.tlvList.isEmpty ∨ p.forceTlv then PbbTlvBlock.getSerializedSize p.tlvList
      else 0) = BitVec.ofNat 32 (if ¬ p.tlvList.isEmpty ∨ p.forceTlv then
        PbbTlvBlock.serialize p.tlvList else []).length := by
    split_ifs
    · rw [PbbTlvBlock.getSerializedSize_eq hp.tlvs, PbbTlvBlock.length_serialize]
    · rfl
  have hlen : (p.serialize stale).length =
      1 + (p.sequenceNumber.elim [] fun n => writeHtonU16 n.toNat).length +
        (if ¬ p.tlvList.isEmpty ∨ p.forceTlv then
          PbbTlvBlock.serialize p.tlvList else []).length +
        (writeMessages stale p.messageList).length := by
    rw [serialize, List.length_append, List.length_append, List.length_append,
      List.length_singleton]
    omega
  rw [getSerializedSize, htlvs, PbbMessage.length_u16, hlen, ← hmessages]
  simp only [BitVec.ofNat_add]
  rfl

/-! ## The round trip of a packet -/

/-- A faithful packet is read from its bytes. -/
theorem deserialize_serialize (hp : p.Faithful) (hs : p.Sized) (stale : ℕ → ℕ → UInt8) :
    deserialize (p.serialize stale) = some
      (⟨0, p.sequenceNumber, false, p.tlvList, p.messageList⟩,
        BitVec.ofNat 32 (p.serialize stale).length) := by
  have hheader := reads_readHeader hp.tlvs hs (writeMessages stale p.messageList)
  have hmessages := readMessages_writeMessages (hp.message hs) stale _ le_rfl
  have hserialize : p.serialize stale = [p.flags] ++
      (p.sequenceNumber.elim [] (fun n => writeHtonU16 n.toNat) ++
        if ¬ p.tlvList.isEmpty ∨ p.forceTlv then PbbTlvBlock.serialize p.tlvList else []) ++
      writeMessages stale p.messageList := by
    simp only [serialize, List.append_assoc]
  rw [← hserialize] at hheader
  rw [deserialize, hheader, Option.bind_some]
  dsimp only
  rw [hmessages, Option.map_some]
  dsimp only
  rw [if_pos rfl, version_flags, List.length_nil, Nat.sub_zero]

/-- Only faithful messages are read. -/
theorem readMessages_faithful (fuel : ℕ) : ∀ (start : List UInt8)
    (r : (List AnyMessage × Bool) × List UInt8), readMessages fuel start = some r →
      ∀ m ∈ r.1.1, m.2.Faithful := by
  induction fuel with
  | zero =>
    intro start r h
    cases start with
    | nil =>
      obtain rfl := Option.some.inj h
      exact fun _ hm => absurd hm List.not_mem_nil
    | cons byte start => exact absurd h (Option.some_ne_none r).symm
  | succ fuel ih =>
    intro start r h
    cases start with
    | nil =>
      obtain rfl := Option.some.inj h
      exact fun _ hm => absurd hm List.not_mem_nil
    | cons byte start =>
      obtain ⟨first, hfirst, hrest⟩ := Option.bind_eq_some_iff.1 h
      obtain ⟨message, bytes⟩ := first
      cases message with
      | none =>
        obtain rfl := Option.some.inj hrest
        exact fun _ hm => absurd hm List.not_mem_nil
      | some m =>
        obtain ⟨s, hs, rfl⟩ := Option.map_eq_some_iff.1 hrest
        refine List.forall_mem_cons.2 ⟨?_, ih _ s hs⟩
        obtain ⟨flags, -, hkind⟩ := Option.bind_eq_some_iff.1 hfirst
        cases hf : PbbAddressLength.ofFlags flags with
        | none =>
          rw [hf, Option.elim_none] at hkind
          exact absurd (Prod.mk.inj (Option.some.inj hkind)).1 (Option.some_ne_none m).symm
        | some f =>
          rw [hf, Option.elim_some] at hkind
          obtain ⟨t, ht, heq⟩ := Option.map_eq_some_iff.1 hkind
          obtain rfl := Option.some.inj (Prod.mk.inj heq).1
          exact PbbMessage.returns_deserialize _ _ _ ht

/-- What is read of a packet is faithful, but for its version. -/
theorem deserialize_faithful {start : List UInt8} {q : PbbPacket} {size : BitVec 32}
    (h : deserialize start = some (q, size)) :
    (∀ t ∈ q.tlvList, t.Faithful) ∧ ∀ m ∈ q.messageList, m.2.Faithful := by
  obtain ⟨r, hr, hmap⟩ := Option.bind_eq_some_iff.1 h
  obtain ⟨s, hs, heq⟩ := Option.map_eq_some_iff.1 hmap
  obtain ⟨rfl, -⟩ := Prod.mk.inj heq
  have hheader : Returns readHeader fun r => ∀ t ∈ r.2.2, t.Faithful := by
    refine (returns_true _).bind fun _ _ => (returns_true _).bind fun _ _ => ?_
    refine (returns_readIf PbbTlvBlock.returns_deserialize).bind fun tlvList htlvs => ?_
    refine returns_pure fun t ht => ?_
    cases tlvList with
    | none => exact absurd ht List.not_mem_nil
    | some tlvs => exact htlvs tlvs rfl t ht
  exact ⟨hheader _ _ _ hr, readMessages_faithful _ _ s hs⟩

/-- The version that is read comes from the first byte. -/
theorem version_deserialize {byte : UInt8} {start : List UInt8} {q : PbbPacket} {size : BitVec 32}
    (h : deserialize (byte :: start) = some (q, size)) :
    q.version = 0 ∨ q.version = byte >>> 4 := by
  obtain ⟨r, hr, hmap⟩ := Option.bind_eq_some_iff.1 h
  obtain ⟨s, -, heq⟩ := Option.map_eq_some_iff.1 hmap
  obtain ⟨rfl, -⟩ := Prod.mk.inj heq
  have hfirst : r.1.1 = byte := by
    have hreturns : Returns (do
        let sequenceNumber ← readIf (byte &&& phasSeqNum ≠ 0) (UInt16.ofNat <$> readNtohU16)
        let tlvList ← readIf (byte &&& phasTlv ≠ 0) PbbTlvBlock.deserialize
        return (byte, sequenceNumber, tlvList.getD [])) fun r => r.1 = byte :=
      (returns_true _).bind fun _ _ => (returns_true _).bind fun _ _ => returns_pure rfl
    exact hreturns _ _ _ hr
  dsimp only
  rw [hfirst]
  split_ifs
  · exact .inr rfl
  · exact .inl rfl

/-! ## Frames -/

theorem size_of_block {tlvs : List PbbTlv} (h : PbbTlvBlock.size tlvs < 2 ^ 16) :
    (readNtohU16 (PbbTlvBlock.serialize tlvs)).map Prod.fst =
      some ((PbbTlvBlock.serialize tlvs).length - 2) := by
  have hread := readNtohU16_writeHtonU16 h (tlvs.flatMap PbbTlv.serialize)
  rw [PbbTlvBlock.length_serialize, Nat.add_sub_cancel_left, PbbTlvBlock.serialize_eq,
    Nat.mod_eq_of_lt h, hread]
  rfl

theorem size_of_message {f : PbbAddressLength} {m : PbbMessage f} (hs : m.Sized)
    (stale : ℕ → UInt8) : (readNtohU16 ((m.serialize stale).drop 2)).map Prod.fst =
      some (m.serialize stale).length := by
  have hread := readNtohU16_writeHtonU16 (hs.length_lt stale) (m.writeBody stale)
  have hlen : (m.serialize stale).length = 4 + (m.writeBody stale).length := by
    rw [PbbMessage.serialize, List.length_append, List.length_append, List.length_append,
      length_writeHtonU16, List.length_singleton, List.length_singleton]
    omega
  have hdrop : (m.serialize stale).drop 2 =
      writeHtonU16 (4 + (m.writeBody stale).length) ++ m.writeBody stale := rfl
  rw [hdrop, hread, hlen]
  rfl

/-- All sizes that are written are those of what follows. -/
theorem Sized.framed (hs : p.Sized) (stale : ℕ → UInt8) : p.Framed stale :=
  ⟨size_of_block hs.tlvs, fun m hm => size_of_message (hs.messages m hm) stale,
    fun m hm => size_of_block (hs.messages m hm).tlvs_lt,
    fun m hm _ hb => size_of_block ((hs.messages m hm).addressTlvs_lt hb)⟩

/-- Packets are written and read without a loss and framed by their sizes, if and only if they are
faithful. -/
theorem lossless_iff_faithful (hs : p.Sized) (stale : ℕ → ℕ → UInt8) :
    (p.Lossless stale ∧ ∀ i, p.Framed (stale i)) ↔ p.Faithful := by
  constructor
  · rintro ⟨⟨-, q, hq, hversion, -, htlvs, hmessages⟩, -⟩
    have hserialize : p.serialize stale = p.flags ::
        (p.sequenceNumber.elim [] (fun n => writeHtonU16 n.toNat) ++
          ((if ¬ p.tlvList.isEmpty ∨ p.forceTlv then PbbTlvBlock.serialize p.tlvList else []) ++
            writeMessages stale p.messageList)) := rfl
    obtain ⟨hqtlvs, hqmessages⟩ := deserialize_faithful hq
    rw [hserialize] at hq
    refine ⟨?_, by rwa [htlvs], by rwa [hmessages]⟩
    rw [hversion]
    rcases version_deserialize hq with hzero | hflags
    · exact hzero
    · rw [hflags, version_flags]
  · intro hp
    have hsize := getSerializedSize_eq hp hs stale
    have hround := deserialize_serialize hp hs stale
    rw [← hsize] at hround
    exact ⟨⟨hsize, _, hround, hp.version, rfl, rfl, rfl⟩, fun i => hs.framed (stale i)⟩

/-- A packet with a sequence number and one TLV, that has two values of a byte each. -/
def multivaluePacket : PbbPacket where
  version := 0
  sequenceNumber := some 7
  forceTlv := false
  tlvList := [⟨1, none, some 0, some 1, true, some [10, 20]⟩]
  messageList := []

theorem multivaluePacket_sized : multivaluePacket.Sized :=
  ⟨by decide, fun _ hm => absurd hm List.not_mem_nil⟩

theorem multivaluePacket_lossless_iff_faithful :
    (multivaluePacket.Lossless (fun _ _ => 0) ∧ ∀ _ : ℕ, multivaluePacket.Framed fun _ => 0) ↔
      multivaluePacket.Faithful :=
  lossless_iff_faithful multivaluePacket_sized fun _ _ => 0

/-- The packet is read with a TLV that is no longer multivalue. -/
theorem multivaluePacket_lossy : multivaluePacket.Sized ∧
    multivaluePacket.serialize (fun _ _ => 0) =
      [0x0c, 0, 7, 0, 7, 1, 0x34, 0, 1, 2, 10, 20] ∧
    deserialize (multivaluePacket.serialize fun _ _ => 0) = some
      (⟨0, some 7, false, [⟨1, none, some 0, some 1, false, some [10, 20]⟩], []⟩, 12) ∧
    ¬ multivaluePacket.Lossless fun _ _ => 0 := by
  have hrun : deserialize (multivaluePacket.serialize fun _ _ => 0) = some
      (⟨0, some 7, false, [⟨1, none, some 0, some 1, false, some [10, 20]⟩], []⟩, 12) := by
    decide
  refine ⟨multivaluePacket_sized, by decide, hrun, fun h => ?_⟩
  obtain ⟨-, q, hq, -, -, htlvs, -⟩ := h
  rw [hrun] at hq
  obtain ⟨rfl, -⟩ := Prod.mk.inj (Option.some.inj hq)
  exact absurd htlvs (by decide)

end PbbPacket

end Ns3Pedca
