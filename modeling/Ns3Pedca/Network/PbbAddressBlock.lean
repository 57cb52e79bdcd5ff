import Ns3Pedca.Network.PbbHeadTail
import Ns3Pedca.Network.PbbTlv

/-!
# Address blocks of PacketBB

Two or more addresses are written as a head and a tail that they have in common, and the bytes
between these for each address. The size function, the writer and the reader compute this layout
again (`getSerializedSize`, `serialize`, `deserialize`).

Addresses that have their head and tail in common are read back (`reads_deserialize`). So a block
is written and read without a loss if and only if the addresses share the tail of the last two, the
TLVs are faithful, and there are no prefix lengths without an address (`lossless_iff`).
-/

namespace Ns3Pedca

open Bytes Readers

/-- The kinds of addresses. -/
inductive PbbAddressLength
  | ipv4
  | ipv6
  deriving DecidableEq

/-- `PbbAddressBlock::GetAddressLength`. -/
def PbbAddressLength.blockLength : PbbAddressLength → ℕ
  | .ipv4 => 4
  | .ipv6 => 16

/-- An `Address`, by its bytes. -/
structure PbbAddress (f : PbbAddressLength) where
  bytes : List UInt8
  length_eq : bytes.length = f.blockLength
  deriving DecidableEq

/-- `PbbAddressBlock`. -/
structure PbbAddressBlock (f : PbbAddressLength) where
  addressList : List (PbbAddress f)
  prefixList : List UInt8
  addressTlvList : List PbbTlv
  deriving DecidableEq

namespace PbbAddressBlock

open PbbHeadTail

variable {f : PbbAddressLength}

/-- `AHAS_HEAD`. -/
def ahasHead : UInt8 := 0x80

/-- `AHAS_FULL_TAIL`. -/
def ahasFullTail : UInt8 := 0x40

/-- `AHAS_ZERO_TAIL`. -/
def ahasZeroTail : UInt8 := 0x20

/-- `AHAS_SINGLE_PRE_LEN`. -/
def ahasSinglePreLen : UInt8 := 0x10

/-- `AHAS_MULTI_PRE_LEN`. -/
def ahasMultiPreLen : UInt8 := 0x08

/-- `GetHeadTail` of the addresses of a block. -/
def headTail (b : PbbAddressBlock f) : State :=
  getHeadTail f.blockLength (b.addressList.map PbbAddress.bytes)

/-- `GetPrefixFlags`. -/
def getPrefixFlags (b : PbbAddressBlock f) : UInt8 :=
  if b.prefixList.length = 0 then 0
  else if b.prefixList.length = 1 then ahasSinglePreLen
  else ahasMultiPreLen

/-- `HasZeroTail`. -/
def hasZeroTail (tail : List UInt8) : Bool :=
  tail.all (· == 0)

/-- `GetSerializedSize`. -/
def getSerializedSize (b : PbbAddressBlock f) : BitVec 32 :=
  (if b.addressList.length = 1 then
    2 + BitVec.ofNat 32 f.blockLength + BitVec.ofNat 32 b.prefixList.length
  else if 0 < b.addressList.length then
    let s := b.headTail
    2 + (if 0 < s.headlen then 1 + BitVec.ofNat 32 s.headlen else 0) +
      (if 0 < s.taillen then
        if hasZeroTail (s.tail f.blockLength) then 1 else 1 + BitVec.ofNat 32 s.taillen
      else 0) +
      BitVec.ofInt 32 ((f.blockLength - s.headlen - s.taillen : ℤ) * b.addressList.length) +
      BitVec.ofNat 32 b.prefixList.length
  else 2) + PbbTlvBlock.getSerializedSize b.addressTlvList

/-- The bytes of an address between head and tail. -/
def mid (s : State) (address : PbbAddress f) : List UInt8 :=
  (address.bytes.drop s.headlen).take (f.blockLength - s.headlen - s.taillen)

/-- The flags of two or more addresses. -/
def flags (b : PbbAddressBlock f) : UInt8 :=
  let s := b.headTail
  (if 0 < s.headlen then ahasHead else 0) |||
    (if 0 < s.taillen then
      if hasZeroTail (s.tail f.blockLength) then ahasZeroTail else ahasFullTail
    else 0) |||
    b.getPrefixFlags

/-- Two or more addresses, as `Serialize` writes them. -/
def writeAddresses (b : PbbAddressBlock f) : List UInt8 :=
  let s := b.headTail
  (if 0 < s.headlen then UInt8.ofNat s.headlen :: s.head else []) ++
    ((if 0 < s.taillen then
      UInt8.ofNat s.taillen ::
        if hasZeroTail (s.tail f.blockLength) then [] else s.tail f.blockLength
    else []) ++
    (if s.headlen + s.taillen < f.blockLength then b.addressList.flatMap (mid s) else []))

/-- `Serialize`. Without an address the flags are not written, and `stale` is what was there. -/
def serialize (stale : UInt8) (b : PbbAddressBlock f) : List UInt8 :=
  UInt8.ofNat b.addressList.length ::
    ((if b.addressList.length = 1 then
      (if b.prefixList.length = 1 then ahasSinglePreLen else 0) ::
        (b.addressList.flatMap PbbAddress.bytes ++
          if b.prefixList.length = 1 then b.prefixList else [])
    else if 0 < b.addressList.length then
      b.flags :: (b.writeAddresses ++ b.prefixList)
    else [stale]) ++ PbbTlvBlock.serialize b.addressTlvList)

/-- The head that `Deserialize` reads. -/
def readHead (flags : UInt8) : Reader (List UInt8) :=
  if flags &&& ahasHead ≠ 0 then do
    let headlen ← readU8
    readBytes headlen.toNat
  else pure []

/-- The tail that `Deserialize` reads. -/
def readTail (flags : UInt8) : Reader (List UInt8) :=
  if (flags &&& ahasFullTail) ^^^ (flags &&& ahasZeroTail) ≠ 0 then do
    let taillen ← readU8
    if flags &&& ahasFullTail ≠ 0 then readBytes taillen.toNat
    else pure (List.replicate taillen.toNat 0)
  else pure []

/-- An address with its head and tail. -/
def readAddress (head tail : List UInt8) : Reader (PbbAddress f) := do
  let mid ← readBytes (f.blockLength - head.length - tail.length)
  if h : (head ++ mid ++ tail).length = f.blockLength then pure ⟨head ++ mid ++ tail, h⟩
  else failure

/-- The addresses that `Deserialize` reads. -/
def readAddresses (numaddr : ℕ) (flags : UInt8) : Reader (List (PbbAddress f)) :=
  if 0 < numaddr then do
    let head ← readHead flags
    let tail ← readTail flags
    readTimes (readAddress head tail) numaddr
  else pure []

/-- The prefix lengths that `Deserialize` reads. -/
def readPrefixes (numaddr : ℕ) (flags : UInt8) : Reader (List UInt8) :=
  if 0 < numaddr then
    if flags &&& ahasSinglePreLen ≠ 0 then readTimes readU8 1
    else if flags &&& ahasMultiPreLen ≠ 0 then readTimes readU8 numaddr
    else pure []
  else pure []

/-- `Deserialize` of a new block. -/
def deserialize : Reader (PbbAddressBlock f) := do
  let numaddr ← readU8
  let flags ← readU8
  let addressList ← readAddresses numaddr.toNat flags
  let prefixList ← readPrefixes numaddr.toNat flags
  let addressTlvList ← PbbTlvBlock.deserialize
  return ⟨addressList, prefixList, addressTlvList⟩

/-- Head and tail are common to all addresses. -/
def CommonHeadTail (b : PbbAddressBlock f) : Prop :=
  Common f.blockLength (b.addressList.map PbbAddress.bytes) b.headTail

/-- What should hold of a block that is written and read. -/
structure Lossless (stale : UInt8) (b : PbbAddressBlock f) : Prop where
  common : 2 ≤ b.addressList.length → b.CommonHeadTail
  size : b.getSerializedSize.toNat = (b.serialize stale).length
  roundTrip : deserialize.run (b.serialize stale) = some (b, [])

/-- The prefix lengths are none, one, or as many as addresses, and these are counted in a byte. -/
structure WellFormed (b : PbbAddressBlock f) : Prop where
  addresses : b.addressList.length ≤ 255
  prefixes : b.prefixList.length = 0 ∨ b.prefixList.length = 1 ∨
    b.prefixList.length = b.addressList.length

/-- The last two of the addresses share no more than all do, the TLVs are faithful, and there are
no prefix lengths without an address. -/
structure Compressible (b : PbbAddressBlock f) : Prop where
  addresses : ∀ init x y, b.addressList = init ++ [x, y] →
    SharedTail f.blockLength (b.addressList.map PbbAddress.bytes) x.bytes y.bytes
  tlvs : PbbTlvBlock.Faithful b.addressTlvList
  prefixes : b.addressList = [] → b.prefixList = []

/-! ## Flags -/

variable {b : PbbAddressBlock f}

/-- The flags of addresses from what they have. -/
def flagBits (head tail zero single multi : Bool) : UInt8 :=
  (if head then ahasHead else 0) |||
    (if tail then if zero then ahasZeroTail else ahasFullTail else 0) |||
    (if single then ahasSinglePreLen else if multi then ahasMultiPreLen else 0)

theorem flagBits_head : ∀ head tail zero single multi : Bool,
    flagBits head tail zero single multi &&& ahasHead ≠ 0 ↔ head = true := by
  decide

theorem flagBits_tail : ∀ head tail zero single multi : Bool,
    (flagBits head tail zero single multi &&& ahasFullTail) ^^^
      (flagBits head tail zero single multi &&& ahasZeroTail) ≠ 0 ↔ tail = true := by
  decide

theorem flagBits_full : ∀ head tail zero single multi : Bool,
    flagBits head tail zero single multi &&& ahasFullTail ≠ 0 ↔ tail = true ∧ zero = false := by
  decide

theorem flagBits_single : ∀ head tail zero single multi : Bool,
    flagBits head tail zero single multi &&& ahasSinglePreLen ≠ 0 ↔ single = true := by
  decide

theorem flagBits_multi : ∀ head tail zero single multi : Bool,
    flagBits head tail zero single multi &&& ahasMultiPreLen ≠ 0 ↔
      single = false ∧ multi = true := by
  decide

theorem flags_eq (b : PbbAddressBlock f) : b.flags = flagBits (0 < b.headTail.headlen)
    (0 < b.headTail.taillen) (hasZeroTail (b.headTail.tail f.blockLength))
    (b.prefixList.length = 1) (1 < b.prefixList.length) := by
  have hprefix : b.getPrefixFlags = if decide (b.prefixList.length = 1) then ahasSinglePreLen
      else if decide (1 < b.prefixList.length) then ahasMultiPreLen else 0 := by
    rw [getPrefixFlags]
    simp only [decide_eq_true_eq]
    split_ifs <;> first | rfl | omega
  rw [flags, hprefix, flagBits]
  simp only [decide_eq_true_eq]

/-! ## Addresses -/

theorem blockLength_pos (f : PbbAddressLength) : 0 < f.blockLength := by
  cases f <;> decide

theorem blockLength_le (f : PbbAddressLength) : f.blockLength ≤ 16 := by
  cases f <;> decide

theorem toNat_ofNat_of_lt {n : ℕ} (h : n < 256) : (UInt8.ofNat n).toNat = n := by
  rw [UInt8.toNat_ofNat', Nat.mod_eq_of_lt h]

theorem reads_readBytes_of_length {n : ℕ} {bytes : List UInt8} (h : bytes.length = n) :
    Reads (readBytes n : Reader (List UInt8)) bytes bytes := by
  subst h
  exact PbbTlv.reads_readBytes bytes

theorem reads_readHead {flags : UInt8} {head : List UInt8} {n : ℕ} (hn : head.length = n)
    (hlt : n < 256) (hflag : flags &&& ahasHead ≠ 0 ↔ 0 < n) :
    Reads (readHead flags) (if 0 < n then UInt8.ofNat n :: head else []) head := by
  rw [readHead]
  by_cases hpos : 0 < n
  · rw [if_pos hpos, if_pos (hflag.2 hpos)]
    exact (reads_readU8 (UInt8.ofNat n)).bind
      (reads_readBytes_of_length (hn.trans (toNat_ofNat_of_lt hlt).symm))
  · obtain rfl : head = [] := List.length_eq_zero_iff.1 (by omega)
    rw [if_neg hpos, if_neg (fun h => hpos (hflag.1 h))]
    exact reads_pure []

theorem eq_replicate_of_hasZeroTail {tail : List UInt8} (h : hasZeroTail tail = true) :
    tail = List.replicate tail.length 0 := by
  refine List.eq_replicate_iff.2 ⟨rfl, fun byte hbyte => ?_⟩
  exact eq_of_beq (List.all_eq_true.1 h byte hbyte)

theorem reads_readTail {flags : UInt8} {tail : List UInt8} {n : ℕ} (hn : tail.length = n)
    (hlt : n < 256)
    (hflag : (flags &&& ahasFullTail) ^^^ (flags &&& ahasZeroTail) ≠ 0 ↔ 0 < n)
    (hfull : flags &&& ahasFullTail ≠ 0 ↔ 0 < n ∧ hasZeroTail tail = false) :
    Reads (readTail flags)
      (if 0 < n then UInt8.ofNat n :: if hasZeroTail tail then [] else tail else []) tail := by
  rw [readTail]
  by_cases hpos : 0 < n
  · have hbytes : Reads (if flags &&& ahasFullTail ≠ 0 then readBytes (UInt8.ofNat n).toNat
        else pure (List.replicate (UInt8.ofNat n).toNat 0))
        (if hasZeroTail tail then [] else tail) tail := by
      by_cases hzero : hasZeroTail tail = true
      · rw [if_pos hzero, if_neg (fun h => absurd hzero (by rw [(hfull.1 h).2]; decide)),
          toNat_ofNat_of_lt hlt, ← hn, ← eq_replicate_of_hasZeroTail hzero]
        exact reads_pure tail
      · rw [if_neg hzero, if_pos (hfull.2 ⟨hpos, eq_false_of_ne_true hzero⟩)]
        exact reads_readBytes_of_length (hn.trans (toNat_ofNat_of_lt hlt).symm)
    rw [if_pos hpos, if_pos (hflag.2 hpos)]
    exact (reads_readU8 (UInt8.ofNat n)).bind hbytes
  · obtain rfl : tail = [] := List.length_eq_zero_iff.1 (by omega)
    rw [if_neg hpos, if_neg (fun h => hpos (hflag.1 h))]
    exact reads_pure []

/-- Head, the bytes between, and tail. -/
theorem append_mid {s : State} {address : PbbAddress f}
    (hover : s.headlen + s.taillen ≤ f.blockLength)
    (hhead : address.bytes.take s.headlen = s.head)
    (htail : address.bytes.drop (f.blockLength - s.taillen) = s.tail f.blockLength) :
    s.head ++ mid s address ++ s.tail f.blockLength = address.bytes := by
  rw [← hhead, ← htail, mid, List.append_assoc]
  have hdrop : address.bytes.drop (f.blockLength - s.taillen) =
      (address.bytes.drop s.headlen).drop (f.blockLength - s.headlen - s.taillen) := by
    rw [List.drop_drop]
    congr 1
    omega
  rw [hdrop, List.take_append_drop, List.take_append_drop]

theorem reads_readAddress {s : State} {address : PbbAddress f}
    (hover : s.headlen + s.taillen ≤ f.blockLength)
    (hhead : address.bytes.take s.headlen = s.head)
    (htail : address.bytes.drop (f.blockLength - s.taillen) = s.tail f.blockLength) :
    Reads (readAddress s.head (s.tail f.blockLength)) (mid s address) address := by
  have hall := append_mid hover hhead htail
  have hheadLen : s.head.length = s.headlen := by
    rw [← hhead, List.length_take, address.length_eq]
    omega
  have htailLen : (s.tail f.blockLength).length = s.taillen := by
    rw [← htail, List.length_drop, address.length_eq]
    omega
  have hlen : (s.head ++ mid s address ++ s.tail f.blockLength).length = f.blockLength := by
    rw [hall, address.length_eq]
  have hmid : (mid s address).length =
      f.blockLength - s.head.length - (s.tail f.blockLength).length := by
    rw [List.length_append, List.length_append] at hlen
    omega
  rw [readAddress, ← List.append_nil (mid s address)]
  refine (reads_readBytes_of_length hmid).bind ?_
  rw [dif_pos hlen]
  have haddress : (⟨s.head ++ mid s address ++ s.tail f.blockLength, hlen⟩ : PbbAddress f) =
      address := by
    cases address
    exact PbbAddress.mk.injEq _ _ _ _ ▸ hall
  rw [haddress]
  exact reads_pure address

/-- The length of head, tail and the bytes between. -/
theorem length_parts (hover : b.headTail.headlen + b.headTail.taillen ≤ f.blockLength)
    (hcommon : ∀ a ∈ b.addressList, a.bytes.take b.headTail.headlen = b.headTail.head ∧
      a.bytes.drop (f.blockLength - b.headTail.taillen) = b.headTail.tail f.blockLength)
    (hne : b.addressList ≠ []) : b.headTail.head.length = b.headTail.headlen ∧
      (b.headTail.tail f.blockLength).length = b.headTail.taillen := by
  obtain ⟨a, ha⟩ := List.exists_mem_of_ne_nil _ hne
  obtain ⟨hhead, htail⟩ := hcommon a ha
  rw [← hhead, ← htail, List.length_take, List.length_drop, a.length_eq]
  omega

/-- Addresses with a common head and tail are read. -/
theorem reads_readAddresses (hc : b.CommonHeadTail) (hne : b.addressList ≠ []) :
    Reads (readAddresses b.addressList.length b.flags) b.writeAddresses b.addressList := by
  obtain ⟨hover, hmap⟩ := hc
  have hcommon : ∀ a ∈ b.addressList, a.bytes.take b.headTail.headlen = b.headTail.head ∧
      a.bytes.drop (f.blockLength - b.headTail.taillen) = b.headTail.tail f.blockLength :=
    fun a ha => hmap a.bytes (List.mem_map_of_mem ha)
  obtain ⟨hheadLen, htailLen⟩ := length_parts hover hcommon hne
  have hlen := blockLength_le f
  have hflags := flags_eq b
  have hmids : (if b.headTail.headlen + b.headTail.taillen < f.blockLength then
      b.addressList.flatMap (mid b.headTail) else []) = b.addressList.flatMap (mid b.headTail) := by
    split_ifs with hlt
    · rfl
    · refine (List.flatMap_eq_nil_iff.2 fun a _ => ?_).symm
      rw [mid, show f.blockLength - b.headTail.headlen - b.headTail.taillen = 0 by omega,
        List.take_zero]
  rw [readAddresses, if_pos (List.length_pos_iff.2 hne), writeAddresses, hmids]
  refine (reads_readHead hheadLen (by omega) ?_).bind
    ((reads_readTail htailLen (by omega) ?_ ?_).bind ?_)
  · rw [hflags, flagBits_head, decide_eq_true_eq]
  · rw [hflags, flagBits_tail, decide_eq_true_eq]
  · rw [hflags, flagBits_full, decide_eq_true_eq]
  · exact reads_readTimes b.addressList fun a ha =>
      reads_readAddress hover (hcommon a ha).1 (hcommon a ha).2

/-- A single address is read. -/
theorem reads_readAddresses_one {flags : UInt8} (a : PbbAddress f)
    (hhead : ¬ flags &&& ahasHead ≠ 0)
    (htail : ¬ (flags &&& ahasFullTail) ^^^ (flags &&& ahasZeroTail) ≠ 0) :
    Reads (readAddresses 1 flags) a.bytes [a] := by
  have hmid : mid ⟨0, 0, [], []⟩ a = a.bytes :=
    List.take_of_length_le (by rw [List.drop_zero, a.length_eq]; exact le_rfl)
  have hdrop : a.bytes.drop f.blockLength = [] := List.drop_of_length_le a.length_eq.le
  have hread := @reads_readAddress f ⟨0, 0, [], []⟩ a (Nat.zero_le _) rfl
    (by rw [Nat.sub_zero, hdrop]; exact List.drop_nil.symm)
  have htimes := @reads_readTimes (PbbAddress f) _ PbbAddress.bytes [a] (by
    intro b hb
    obtain rfl := List.mem_singleton.1 hb
    rw [hmid] at hread
    exact hread)
  have hflat : [a].flatMap PbbAddress.bytes = a.bytes := List.append_nil a.bytes
  rw [hflat] at htimes
  rw [readAddresses, if_pos Nat.one_pos, readHead, if_neg hhead, readTail, if_neg htail]
  have htailNil : State.tail f.blockLength ⟨0, 0, [], []⟩ = [] := List.drop_nil
  rw [htailNil] at htimes
  exact (reads_pure []).bind ((reads_pure []).bind htimes)

theorem reads_readPrefixes {n : ℕ} {flags : UInt8} {ps : List UInt8} (hn : 0 < n)
    (hps : ps.length = 0 ∨ ps.length = 1 ∨ ps.length = n)
    (hsingle : flags &&& ahasSinglePreLen ≠ 0 ↔ ps.length = 1)
    (hmulti : flags &&& ahasMultiPreLen ≠ 0 ↔ 1 < ps.length) :
    Reads (readPrefixes n flags) ps ps := by
  have htimes := @reads_readTimes UInt8 readU8 (fun p => [p]) ps fun p _ => reads_readU8 p
  have hflat : ps.flatMap (fun p => [p]) = ps := List.flatMap_singleton' ps
  rw [hflat] at htimes
  rw [readPrefixes, if_pos hn]
  by_cases hone : ps.length = 1
  · rw [if_pos (hsingle.2 hone)]
    rw [hone] at htimes
    exact htimes
  · rw [if_neg (fun h => hone (hsingle.1 h))]
    by_cases hmany : 1 < ps.length
    · rw [if_pos (hmulti.2 hmany), ← show ps.length = n by omega]
      exact htimes
    · obtain rfl : ps = [] := List.length_eq_zero_iff.1 (by omega)
      rw [if_neg (fun h => hmany (hmulti.1 h))]
      exact reads_pure []

/-! ## The round trip -/

/-- The addresses and prefix lengths that are read. Without an address no prefix length is. -/
theorem run_serialize (hw : b.WellFormed) (hc : 2 ≤ b.addressList.length → b.CommonHeadTail)
    (stale : UInt8) (rest : List UInt8) : deserialize.run (b.serialize stale ++ rest) =
      (PbbTlvBlock.deserialize.run (PbbTlvBlock.serialize b.addressTlvList ++ rest)).map fun r =>
        (⟨b.addressList, if b.addressList.length = 0 then [] else b.prefixList, r.1⟩, r.2) := by
  have hnum : (UInt8.ofNat b.addressList.length).toNat = b.addressList.length :=
    toNat_ofNat_of_lt (by
      have haddresses := hw.addresses
      omega)
  have hrun {flags : UInt8} {addresses prefixes : List UInt8} {ps : List UInt8}
      (haddresses : Reads (readAddresses b.addressList.length flags) addresses b.addressList)
      (hprefixes : Reads (readPrefixes b.addressList.length flags) prefixes ps) :
      (deserialize (f := f)).run (UInt8.ofNat b.addressList.length :: (flags ::
        (addresses ++ prefixes) ++ PbbTlvBlock.serialize b.addressTlvList) ++ rest) =
      (PbbTlvBlock.deserialize.run (PbbTlvBlock.serialize b.addressTlvList ++ rest)).map fun r =>
        (⟨b.addressList, ps, r.1⟩, r.2) := by
    have hbytes : UInt8.ofNat b.addressList.length :: (flags :: (addresses ++ prefixes) ++
        PbbTlvBlock.serialize b.addressTlvList) ++ rest =
        UInt8.ofNat b.addressList.length :: flags ::
          (addresses ++ (prefixes ++ (PbbTlvBlock.serialize b.addressTlvList ++ rest))) := by
      simp only [List.cons_append, List.append_assoc]
    rw [hbytes]
    generalize PbbTlvBlock.serialize b.addressTlvList ++ rest = tail
    have hcons : (deserialize (f := f)).run
        (UInt8.ofNat b.addressList.length :: flags :: (addresses ++ (prefixes ++ tail))) =
        StateT.run (readAddresses (UInt8.ofNat b.addressList.length).toNat flags >>= fun as =>
          readPrefixes (UInt8.ofNat b.addressList.length).toNat flags >>= fun ps =>
            PbbTlvBlock.deserialize >>= fun tlvs => pure ⟨as, ps, tlvs⟩)
          (addresses ++ (prefixes ++ tail)) := rfl
    have hfirst := haddresses (prefixes ++ tail)
    have hsecond := hprefixes tail
    rw [hcons, hnum, StateT.run_bind, hfirst]
    dsimp only [Option.bind_eq_bind, Option.bind_some]
    rw [StateT.run_bind, hsecond]
    dsimp only [Option.bind_eq_bind, Option.bind_some]
    rw [StateT.run_bind]
    cases PbbTlvBlock.deserialize.run tail <;> rfl
  rw [serialize]
  rcases Nat.lt_trichotomy b.addressList.length 1 with hzero | hone | hmany
  · rw [if_neg (show ¬ b.addressList.length = 1 by omega),
      if_neg (show ¬ 0 < b.addressList.length by omega),
      if_pos (show b.addressList.length = 0 by omega)]
    have hnil : b.addressList = [] := List.length_eq_zero_iff.1 (by omega)
    refine @hrun stale [] [] [] ?_ ?_
    · rw [readAddresses, if_neg (show ¬ 0 < b.addressList.length by omega), hnil]
      exact reads_pure []
    · rw [readPrefixes, if_neg (show ¬ 0 < b.addressList.length by omega)]
      exact reads_pure []
  · obtain ⟨a, ha⟩ := List.length_eq_one_iff.1 hone
    have hflags : (if b.prefixList.length = 1 then ahasSinglePreLen else 0) =
        flagBits false false false (b.prefixList.length = 1) (1 < b.prefixList.length) := by
      have hps := hw.prefixes
      have hmany : ¬ 1 < b.prefixList.length := by omega
      rw [flagBits, decide_eq_false hmany]
      simp only [Bool.false_eq_true, if_false, decide_eq_true_eq]
      split_ifs <;> rfl
    have hps : (if b.prefixList.length = 1 then b.prefixList else []) = b.prefixList := by
      split_ifs with h
      · rfl
      · have hprefixes := hw.prefixes
        exact (List.length_eq_zero_iff.1 (by omega)).symm
    rw [if_pos hone, if_neg (show ¬ b.addressList.length = 0 by omega), hps, hflags]
    refine hrun ?_ (reads_readPrefixes (by omega) hw.prefixes ?_ ?_)
    · have hflat : [a].flatMap PbbAddress.bytes = a.bytes := List.append_nil a.bytes
      rw [ha, hflat]
      refine reads_readAddresses_one a ?_ ?_
      · rw [flagBits_head]
        exact Bool.false_ne_true
      · rw [flagBits_tail]
        exact Bool.false_ne_true
    · rw [flagBits_single, decide_eq_true_eq]
    · rw [flagBits_multi, decide_eq_true_eq, decide_eq_false_iff_not]
      omega
  · rw [if_neg (show ¬ b.addressList.length = 1 by omega),
      if_pos (show 0 < b.addressList.length by omega),
      if_neg (show ¬ b.addressList.length = 0 by omega)]
    have hne : b.addressList ≠ [] := List.length_pos_iff.1 (by omega)
    refine hrun (reads_readAddresses (hc hmany) hne)
      (reads_readPrefixes (by omega) hw.prefixes ?_ ?_)
    · rw [flags_eq, flagBits_single, decide_eq_true_eq]
    · rw [flags_eq, flagBits_multi, decide_eq_true_eq, decide_eq_false_iff_not]
      omega

/-! ## Sizes -/

theorem length_mid {s : State} (address : PbbAddress f) :
    (mid s address).length = f.blockLength - s.headlen - s.taillen := by
  rw [mid, List.length_take, List.length_drop, address.length_eq]
  omega

theorem length_writeAddresses (hc : b.CommonHeadTail) (hne : b.addressList ≠ []) :
    b.writeAddresses.length = (if 0 < b.headTail.headlen then 1 + b.headTail.headlen else 0) +
      (if 0 < b.headTail.taillen then
        if hasZeroTail (b.headTail.tail f.blockLength) then 1 else 1 + b.headTail.taillen
      else 0) +
      (f.blockLength - b.headTail.headlen - b.headTail.taillen) * b.addressList.length := by
  obtain ⟨hover, hmap⟩ := hc
  obtain ⟨hheadLen, htailLen⟩ := length_parts hover
    (fun a ha => hmap a.bytes (List.mem_map_of_mem ha)) hne
  have hmids : (b.addressList.flatMap (mid b.headTail)).length =
      (f.blockLength - b.headTail.headlen - b.headTail.taillen) * b.addressList.length := by
    rw [List.length_flatMap, List.map_congr_left fun a _ => length_mid a, List.map_const',
      List.sum_replicate, smul_eq_mul, Nat.mul_comm]
  have hmid : (if b.headTail.headlen + b.headTail.taillen < f.blockLength then
      b.addressList.flatMap (mid b.headTail) else []).length =
      (f.blockLength - b.headTail.headlen - b.headTail.taillen) * b.addressList.length := by
    split_ifs with hlt
    · exact hmids
    · rw [show f.blockLength - b.headTail.headlen - b.headTail.taillen = 0 by omega, Nat.zero_mul]
      rfl
  rw [writeAddresses, List.length_append, List.length_append, hmid]
  have hhead : (if 0 < b.headTail.headlen then
      UInt8.ofNat b.headTail.headlen :: b.headTail.head else []).length =
      if 0 < b.headTail.headlen then 1 + b.headTail.headlen else 0 := by
    split_ifs
    · rw [List.length_cons, hheadLen, Nat.add_comm]
    · rfl
  have htail : (if 0 < b.headTail.taillen then UInt8.ofNat b.headTail.taillen ::
      if hasZeroTail (b.headTail.tail f.blockLength) then [] else b.headTail.tail f.blockLength
      else []).length = if 0 < b.headTail.taillen then
        if hasZeroTail (b.headTail.tail f.blockLength) then 1 else 1 + b.headTail.taillen
      else 0 := by
    split_ifs
    · rfl
    · rw [List.length_cons, htailLen, Nat.add_comm]
    · rfl
  rw [hhead, htail, Nat.add_assoc]

/-- The size of a block in bytes. -/
theorem getSerializedSize_eq (hw : b.WellFormed)
    (hc : 2 ≤ b.addressList.length → b.CommonHeadTail) (ht : ∀ t ∈ b.addressTlvList, t.Faithful)
    (stale : UInt8) : b.getSerializedSize = BitVec.ofNat 32 (b.serialize stale).length := by
  rw [getSerializedSize, PbbTlvBlock.getSerializedSize_eq ht, serialize]
  rcases Nat.lt_trichotomy b.addressList.length 1 with hzero | hone | hmany
  · rw [if_neg (show ¬ b.addressList.length = 1 by omega),
      if_neg (show ¬ 0 < b.addressList.length by omega),
      if_neg (show ¬ b.addressList.length = 1 by omega),
      if_neg (show ¬ 0 < b.addressList.length by omega), List.length_cons, List.length_append,
      PbbTlvBlock.length_serialize]
    change BitVec.ofNat 32 2 + _ = _
    rw [← BitVec.ofNat_add]
    congr 1
    change 2 + (2 + PbbTlvBlock.size b.addressTlvList) =
      1 + (2 + PbbTlvBlock.size b.addressTlvList) + 1
    omega
  · obtain ⟨a, ha⟩ := List.length_eq_one_iff.1 hone
    have hflat : (b.addressList.flatMap PbbAddress.bytes).length = f.blockLength := by
      rw [ha, List.flatMap_singleton, a.length_eq]
    have hps : (if b.prefixList.length = 1 then b.prefixList else []).length =
        b.prefixList.length := by
      have hprefixes := hw.prefixes
      split_ifs with h
      · rfl
      · change 0 = _
        omega
    rw [if_pos hone, if_pos hone, List.length_cons, List.length_append, List.length_cons,
      List.length_append, hflat, hps, PbbTlvBlock.length_serialize]
    change BitVec.ofNat 32 2 + _ + _ + _ = _
    rw [← BitVec.ofNat_add, ← BitVec.ofNat_add, ← BitVec.ofNat_add]
    congr 1
    omega
  · have hne : b.addressList ≠ [] := List.length_pos_iff.1 (by omega)
    have hover := (hc hmany).1
    have hhead : (if 0 < b.headTail.headlen then 1 + BitVec.ofNat 32 b.headTail.headlen else 0) =
        BitVec.ofNat 32 (if 0 < b.headTail.headlen then 1 + b.headTail.headlen else 0) := by
      split_ifs
      · exact (BitVec.ofNat_add _ _).symm
      · rfl
    have htail : (if 0 < b.headTail.taillen then
        if hasZeroTail (b.headTail.tail f.blockLength) then 1
        else 1 + BitVec.ofNat 32 b.headTail.taillen else 0) =
        BitVec.ofNat 32 (if 0 < b.headTail.taillen then
          if hasZeroTail (b.headTail.tail f.blockLength) then 1 else 1 + b.headTail.taillen
        else 0) := by
      split_ifs
      · rfl
      · exact (BitVec.ofNat_add _ _).symm
      · rfl
    have hmid : BitVec.ofInt 32 ((f.blockLength - b.headTail.headlen - b.headTail.taillen : ℤ) *
        b.addressList.length) = BitVec.ofNat 32
          ((f.blockLength - b.headTail.headlen - b.headTail.taillen) * b.addressList.length) := by
      rw [← BitVec.ofInt_natCast, Nat.cast_mul, Nat.cast_sub (by omega), Nat.cast_sub (by omega)]
    rw [if_neg (show ¬ b.addressList.length = 1 by omega),
      if_pos (show 0 < b.addressList.length by omega),
      if_neg (show ¬ b.addressList.length = 1 by omega),
      if_pos (show 0 < b.addressList.length by omega)]
    dsimp only
    rw [hhead, htail, hmid, List.length_cons, List.length_append, List.length_cons,
      List.length_append, length_writeAddresses (hc hmany) hne, PbbTlvBlock.length_serialize]
    change BitVec.ofNat 32 2 + _ + _ + _ + _ + _ = _
    rw [← BitVec.ofNat_add, ← BitVec.ofNat_add, ← BitVec.ofNat_add, ← BitVec.ofNat_add,
      ← BitVec.ofNat_add]
    congr 1
    omega

theorem size_lt_of_faithful {tlvs : List PbbTlv} (h : PbbTlvBlock.Faithful tlvs) :
    PbbTlvBlock.size tlvs < 2 ^ 18 := by
  rcases List.eq_nil_or_concat tlvs with rfl | ⟨init, last, rfl⟩
  · exact Nat.two_pow_pos 18
  · rw [List.concat_eq_append] at h ⊢
    have hlast : last.size < 2 ^ 17 := (h.tlv last (by simp)).size_lt
    have hfits := h.fits.resolve_left (by simp)
    have hmod := Nat.mod_lt (PbbTlvBlock.size (init ++ [last])) (show 2 ^ 16 > 0 by norm_num)
    have hsum : PbbTlvBlock.size (init ++ [last]) = PbbTlvBlock.size init + last.size := by
      rw [PbbTlvBlock.size, List.map_append, List.sum_append]
      rfl
    rw [List.dropLast_concat] at hfits
    omega

theorem length_serialize_lt (hw : b.WellFormed)
    (hc : 2 ≤ b.addressList.length → b.CommonHeadTail)
    (ht : PbbTlvBlock.Faithful b.addressTlvList) (stale : UInt8) :
    (b.serialize stale).length < 2 ^ 32 := by
  have haddresses := hw.addresses
  have hprefixes := hw.prefixes
  have htlvs := size_lt_of_faithful ht
  have hlen := blockLength_le f
  rw [serialize, List.length_cons, List.length_append, PbbTlvBlock.length_serialize]
  split_ifs with hone hsingle hmany
  · obtain ⟨a, ha⟩ := List.length_eq_one_iff.1 hone
    rw [List.length_cons, List.length_append, ha, List.flatMap_singleton, a.length_eq]
    omega
  · obtain ⟨a, ha⟩ := List.length_eq_one_iff.1 hone
    rw [List.length_cons, List.length_append, ha, List.flatMap_singleton, a.length_eq,
      List.length_nil]
    omega
  · have hcommon := hc (by omega)
    have hover := hcommon.1
    have hmul := Nat.mul_le_mul (show f.blockLength - b.headTail.headlen - b.headTail.taillen ≤ 16
      by omega) haddresses
    rw [List.length_cons, List.length_append,
      length_writeAddresses hcommon (List.length_pos_iff.1 hmany)]
    split_ifs <;> omega
  · change 1 + (2 + PbbTlvBlock.size b.addressTlvList) + 1 < _
    omega

/-! ## Lossless blocks -/

theorem exists_last_two {as : List (PbbAddress f)} (h : 2 ≤ as.length) :
    ∃ init x y, as = init ++ [x, y] := by
  rcases List.eq_nil_or_concat as with rfl | ⟨init, y, rfl⟩
  · exact absurd h (by simp)
  · rw [List.concat_eq_append, List.length_append, List.length_singleton] at h
    rcases List.eq_nil_or_concat init with rfl | ⟨init, x, rfl⟩
    · exact absurd h (by simp)
    · exact ⟨init, x, y, by simp⟩

theorem commonHeadTail_iff {init : List (PbbAddress f)} {x y : PbbAddress f}
    (h : b.addressList = init ++ [x, y]) : b.CommonHeadTail ↔
      SharedTail f.blockLength (b.addressList.map PbbAddress.bytes) x.bytes y.bytes := by
  have hlen : ∀ a ∈ init.map PbbAddress.bytes ++ [x.bytes, y.bytes], a.length = f.blockLength := by
    intro a ha
    have hmap : init.map PbbAddress.bytes ++ [x.bytes, y.bytes] =
        (init ++ [x, y]).map PbbAddress.bytes := by
      rw [List.map_append]
      rfl
    rw [hmap] at ha
    obtain ⟨address, -, rfl⟩ := List.mem_map.1 ha
    exact address.length_eq
  rw [CommonHeadTail, headTail, h, List.map_append]
  exact common_iff (blockLength_pos f) _ x.bytes y.bytes hlen

/-- The addresses and prefix lengths of a compressible block are read. -/
theorem Compressible.common (hb : b.Compressible) (h : 2 ≤ b.addressList.length) :
    b.CommonHeadTail := by
  obtain ⟨init, x, y, hlist⟩ := exists_last_two h
  exact (commonHeadTail_iff hlist).2 (hb.addresses init x y hlist)

/-- Compressible blocks are read, whatever follows. -/
theorem reads_deserialize (hw : b.WellFormed) (hb : b.Compressible) (stale : UInt8) :
    Reads deserialize (b.serialize stale) b := by
  intro rest
  rw [run_serialize hw hb.common stale rest, (PbbTlvBlock.run_deserialize_iff _ rest).2 hb.tlvs,
    Option.map_some]
  have hprefixes : (if b.addressList.length = 0 then [] else b.prefixList) = b.prefixList := by
    split_ifs with hzero
    · exact (hb.prefixes (List.length_eq_zero_iff.1 hzero)).symm
    · rfl
  rw [hprefixes]

/-- What is read has faithful TLVs and no more prefix lengths than addresses. -/
theorem returns_deserialize : Returns deserialize fun b : PbbAddressBlock f =>
    (∀ t ∈ b.addressTlvList, t.Faithful) ∧ b.prefixList.length ≤ b.addressList.length := by
  refine (returns_true _).bind fun numaddr _ => (returns_true _).bind fun flags _ => ?_
  have haddresses : Returns (readAddresses numaddr.toNat flags)
      fun as : List (PbbAddress f) => as.length = numaddr.toNat := by
    rw [readAddresses]
    split_ifs with hpos
    · exact (returns_true _).bind fun head _ => (returns_true _).bind fun tail _ =>
        length_readTimes _ _
    · exact returns_pure (Nat.eq_zero_of_not_pos hpos).symm
  have hprefixes : Returns (readPrefixes numaddr.toNat flags)
      fun ps => ps.length ≤ numaddr.toNat := by
    rw [readPrefixes]
    split_ifs with hpos hsingle hmulti
    · intro bytes ps rest hrun
      exact (length_readTimes readU8 1 bytes ps rest hrun).trans_le hpos
    · intro bytes ps rest hrun
      exact (length_readTimes readU8 _ bytes ps rest hrun).le
    · exact returns_pure (Nat.zero_le _)
    · exact returns_pure (Nat.zero_le _)
  exact haddresses.bind fun as has => hprefixes.bind fun ps hps =>
    PbbTlvBlock.returns_deserialize.bind fun tlvs htlvs =>
      returns_pure ⟨htlvs, hps.trans_eq has.symm⟩

/-- Blocks are written and read without a loss, if and only if they are compressible. -/
theorem lossless_iff (hw : b.WellFormed) (stale : UInt8) :
    Lossless stale b ↔ Compressible b := by
  constructor
  · rintro ⟨hcommon, -, hround⟩
    have hrun := run_serialize hw hcommon stale []
    rw [List.append_nil, hround] at hrun
    obtain ⟨r, hr, heq⟩ := Option.map_eq_some_iff.1 hrun.symm
    obtain ⟨hblock, hrest⟩ := Prod.mk.inj heq
    have htlvs : r = (b.addressTlvList, []) :=
      Prod.ext (congrArg addressTlvList hblock) hrest
    have hprefixes := congrArg prefixList hblock
    rw [htlvs, PbbTlvBlock.run_deserialize_iff] at hr
    refine ⟨fun init x y hlist => ?_, hr, fun hnil => ?_⟩
    · refine (commonHeadTail_iff hlist).1 (hcommon ?_)
      rw [hlist, List.length_append]
      exact Nat.le_add_left 2 _
    · rw [hnil] at hprefixes
      exact hprefixes.symm
  · intro hb
    have hsize := getSerializedSize_eq hw hb.common hb.tlvs.tlv stale
    refine ⟨hb.common, ?_, ?_⟩
    · rw [hsize, BitVec.toNat_ofNat,
        Nat.mod_eq_of_lt (length_serialize_lt hw hb.common hb.tlvs stale)]
    · have hread := reads_deserialize hw hb stale []
      rw [List.append_nil] at hread
      exact hread

/-- Three addresses, of which the last two share a byte more than all. -/
def threeAddresses : PbbAddressBlock .ipv4 where
  addressList := [⟨[10, 0, 0, 1], rfl⟩, ⟨[10, 1, 7, 1], rfl⟩, ⟨[10, 2, 7, 1], rfl⟩]
  prefixList := []
  addressTlvList := []

theorem threeAddresses_lossless_iff : WellFormed threeAddresses ∧
    (Lossless 0 threeAddresses ↔ Compressible threeAddresses) :=
  ⟨⟨by decide, by decide⟩, lossless_iff ⟨by decide, by decide⟩ 0⟩

/-- The first of three addresses is read with a byte of the others. -/
theorem threeAddresses_lossy : WellFormed threeAddresses ∧
    deserialize.run (threeAddresses.serialize 0) = some
      ((⟨[⟨[10, 0, 7, 1], rfl⟩, ⟨[10, 1, 7, 1], rfl⟩, ⟨[10, 2, 7, 1], rfl⟩], [], []⟩ :
        PbbAddressBlock .ipv4), []) ∧
    ¬ Lossless 0 threeAddresses := by
  have hrun : deserialize.run (threeAddresses.serialize 0) = some
      ((⟨[⟨[10, 0, 7, 1], rfl⟩, ⟨[10, 1, 7, 1], rfl⟩, ⟨[10, 2, 7, 1], rfl⟩], [], []⟩ :
        PbbAddressBlock .ipv4), []) := by
    decide
  refine ⟨⟨by decide, by decide⟩, hrun, fun h => ?_⟩
  have hround := h.roundTrip
  rw [hrun] at hround
  exact absurd hround (by decide)

end PbbAddressBlock

end Ns3Pedca
