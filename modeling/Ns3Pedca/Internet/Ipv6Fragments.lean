import Ns3Pedca.Core
import Ns3Pedca.Internet.Ipv6Fragmentation

/-!
# The fragments of an IPv6 packet

A packet is a chain of extension headers that belong to the unfragmentable part, and a
fragmentable part behind them (`Chain`). `GetFragments` finds the two (`split_eq`), and the
fragments are consecutive pieces of the fragmentable part, all of them but the last one with a
multiple of 8 bytes (`fragmentsFrom_spec`), each behind a fragment header and the extension
headers in the opposite order (`addHeaders_eq`).
-/

namespace Ns3Pedca

open Blocks
open Packet (getSize createFragment)

namespace ExtensionHeader

/-- The value of `NextHeader` that announces the header. -/
def type : ExtensionHeader → UInt8
  | hopByHop _ _ _ => Ipv6Header.extHopByHop
  | routing _ _ _ _ _ => Ipv6Header.extRouting
  | destination _ _ _ => Ipv6Header.extDestination

/-- The length field tells the size of the header, and a routing header is of type 0. -/
def WellFormed : ExtensionHeader → Prop
  | hopByHop _ length data => 2 + data.length = (length.toNat + 1) * 8
  | routing _ length typeRouting _ addresses =>
    typeRouting = 0 ∧ length.toNat % 2 = 0 ∧ addresses.length = length.toNat / 2 * 16
  | destination _ length data => 2 + data.length = (length.toNat + 1) * 8

/-- The size of the header in bytes. -/
def size (h : ExtensionHeader) : ℕ :=
  (h.length.toNat + 1) * 8

variable {h : ExtensionHeader} {rest : Packet} {next : UInt8}

@[simp] theorem size_setNextHeader : (h.setNextHeader next).size = h.size := by
  cases h <;> rfl

@[simp] theorem type_setNextHeader : (h.setNextHeader next).type = h.type := by
  cases h <;> rfl

theorem WellFormed.setNextHeader (hh : h.WellFormed) : (h.setNextHeader next).WellFormed := by
  cases h <;> exact hh

/-- The first byte of a header is the type of the next one. -/
theorem head_serialize (h : ExtensionHeader) : ∃ bytes, h.serialize = h.nextHeader :: bytes := by
  cases h <;> exact ⟨_, rfl⟩

theorem length_serialize (hh : h.WellFormed) : h.serialize.length = h.size := by
  cases h with
  | hopByHop next length data =>
    change data.length + 2 = (length.toNat + 1) * 8
    exact (Nat.add_comm _ _).trans hh
  | routing next length typeRouting left addresses =>
    obtain ⟨-, heven, hlen⟩ := hh
    change addresses.length + 8 = (length.toNat + 1) * 8
    omega
  | destination next length data =>
    change data.length + 2 = (length.toNat + 1) * 8
    exact (Nat.add_comm _ _).trans hh

theorem toNat_getLength (h : ExtensionHeader) : h.getLength.toNat = h.size := by
  have hlt := h.length.toNat_lt
  rw [getLength, UInt16.toNat_shiftLeft, UInt16.toNat_add, UInt8.toNat_toUInt16, size]
  change ((h.length.toNat + 1) % 2 ^ 16) <<< 3 % 2 ^ 16 = _
  rw [Nat.shiftLeft_eq]
  omega

/-- The length field that `Serialize` writes is the one that was read. -/
theorem lengthByte_eq {length : UInt8} {data : List UInt8}
    (h : 2 + data.length = (length.toNat + 1) * 8) :
    UInt8.ofNat ((2 + data.length) / 8 - 1) = length := by
  rw [h, Nat.mul_div_cancel _ (by decide), Nat.add_sub_cancel, UInt8.ofNat_toNat]

theorem deserializeOptions_append (make : UInt8 → UInt8 → List UInt8 → ExtensionHeader)
    {length : UInt8} {data : List UInt8} (h : 2 + data.length = (length.toNat + 1) * 8) :
    deserializeOptions make
        ((next :: UInt8.ofNat ((2 + data.length) / 8 - 1) :: data) ++ rest) =
      some (make next length data, rest) := by
  have hlen : (length.toNat + 1) * 8 - 2 = data.length := by omega
  rw [lengthByte_eq h, List.cons_append, List.cons_append, deserializeOptions]
  simp only [hlen]
  rw [if_pos (by rw [List.length_append]; omega), List.take_left, List.drop_left]

/-- A header that is removed is the one that was added. -/
theorem removeHeader_serialize (hh : h.WellFormed) :
    Ipv6ExtensionFragment.removeHeader h.type (h.serialize ++ rest) = some (h, rest) := by
  cases h with
  | hopByHop next length data => exact deserializeOptions_append .hopByHop hh
  | destination next length data => exact deserializeOptions_append .destination hh
  | routing next length typeRouting left addresses =>
    obtain ⟨htype, heven, hlen⟩ := hh
    have hbyte : UInt8.ofNat (addresses.length / 16 * 2) = length := by
      rw [hlen, Nat.mul_div_cancel _ (by decide), Nat.div_mul_cancel (Nat.dvd_of_mod_eq_zero heven),
        UInt8.ofNat_toNat]
    have hparse : deserializeRouting ((next :: length :: typeRouting :: left :: 0 :: 0 :: 0 :: 0 ::
        addresses) ++ rest) = some (routing next length typeRouting left addresses, rest) := by
      simp only [List.cons_append, deserializeRouting, ← hlen]
      rw [if_pos (by rw [List.length_append]; omega), List.take_left, List.drop_left]
    change (if typeRouting = 0 then _ else none) = _
    rw [if_pos htype, serialize, hbyte]
    exact hparse

end ExtensionHeader

namespace FragmentHeader

/-- The field for an offset and a flag. -/
def encode (offset : UInt16) (moreFragment : Bool) : UInt16 :=
  if moreFragment then offset ||| 1 else offset

variable {offset : UInt16}

theorem toNat_and_not_seven (x : UInt16) : (x &&& ~~~7).toNat = x.toNat / 2 ^ 3 * 2 ^ 3 := by
  rw [UInt16.toNat_and]
  exact and_high_bits (k := 3) x.toNat_lt (by decide)

theorem toNat_and_not_one (x : UInt16) : (x &&& ~~~1).toNat = x.toNat / 2 ^ 1 * 2 ^ 1 := by
  rw [UInt16.toNat_and]
  exact and_high_bits (k := 1) x.toNat_lt (by decide)

theorem toNat_and_one (x : UInt16) : (x &&& 1).toNat = x.toNat % 2 := by
  rw [UInt16.toNat_and]
  exact Nat.and_two_pow_sub_one_eq_mod x.toNat 1

theorem toNat_or_one {x : UInt16} (h : x.toNat % 2 = 0) : (x ||| 1).toNat = x.toNat + 1 := by
  have hx := Nat.two_pow_add_eq_or_of_lt (i := 1) (b := 1) (by decide) (x.toNat / 2)
  rw [Nat.pow_one, Nat.mul_div_cancel' (Nat.dvd_of_mod_eq_zero h)] at hx
  rw [UInt16.toNat_or]
  exact hx.symm

/-- What `SetOffset` and `SetMoreFragment` leave in the field, whatever was in it. -/
theorem offset_set (h : FragmentHeader) (offset : UInt16) (ho : offset.toNat % 8 = 0)
    (more : Bool) :
    ((h.setOffset offset).setMoreFragment more).offset = encode offset more := by
  have hseven : offset &&& ~~~7 = offset := by
    rw [← UInt16.toNat_inj, toNat_and_not_seven]
    omega
  have hset : (h.setOffset offset).offset = h.offset &&& 1 ||| offset := by
    rw [setOffset, hseven]
  rw [setMoreFragment, hset, encode]
  have hbit := toNat_and_one h.offset
  rcases Nat.mod_two_eq_zero_or_one h.offset.toNat with hzero | hone
  · have h0 : h.offset &&& 1 = 0 := by
      rw [← UInt16.toNat_inj, hbit, hzero]
      rfl
    rw [h0]
    cases more
    · simp only [Bool.false_eq_true, if_false]
      rw [← UInt16.toNat_inj, toNat_and_not_one, UInt16.zero_or]
      omega
    · simp only [if_true, UInt16.zero_or]
  · have h1 : h.offset &&& 1 = 1 := by
      rw [← UInt16.toNat_inj, hbit, hone]
      rfl
    rw [h1, UInt16.or_comm 1 offset]
    cases more
    · simp only [Bool.false_eq_true, if_false]
      rw [← UInt16.toNat_inj, toNat_and_not_one, toNat_or_one (by omega)]
      omega
    · simp only [if_true, UInt16.or_assoc, UInt16.or_self]

theorem getOffset_encode (h : FragmentHeader) (ho : offset.toNat % 8 = 0) (more : Bool)
    (hh : h.offset = encode offset more) : h.getOffset = offset := by
  rw [getOffset, hh, ← UInt16.toNat_inj, toNat_and_not_one, encode]
  cases more
  · simp only [Bool.false_eq_true, if_false]
    omega
  · simp only [if_true]
    rw [toNat_or_one (by omega)]
    omega

theorem getMoreFragment_encode (h : FragmentHeader) (ho : offset.toNat % 8 = 0) (more : Bool)
    (hh : h.offset = encode offset more) : h.getMoreFragment = more := by
  have hone := toNat_and_one h.offset
  have hzero : h.offset &&& 1 = 0 ↔ h.offset.toNat % 2 = 0 := by
    rw [← UInt16.toNat_inj, hone]
    rfl
  rw [getMoreFragment]
  cases more
  · rw [decide_eq_false_iff_not, not_not, hzero, hh, encode]
    simp only [Bool.false_eq_true, if_false]
    omega
  · rw [decide_eq_true_eq, Ne, hzero, hh, encode]
    simp only [if_true]
    rw [toNat_or_one (by omega)]
    omega

theorem length_serialize (h : FragmentHeader) : h.serialize.length = 8 :=
  rfl

/-- A fragment header that is removed is the one that was added. -/
theorem deserialize_serialize (h : FragmentHeader) (rest : Packet) :
    deserialize (h.serialize ++ rest) = some (h, rest) := by
  have hoffset : UInt16.ofNat ((UInt8.ofNat (h.offset.toNat / 2 ^ 8)).toNat * 2 ^ 8 +
      (UInt8.ofNat h.offset.toNat).toNat) = h.offset := by
    have hlt := h.offset.toNat_lt
    rw [← UInt16.toNat_inj, UInt16.toNat_ofNat', UInt8.toNat_ofNat', UInt8.toNat_ofNat']
    omega
  have hidentification : UInt32.ofNat (
      (UInt8.ofNat (h.identification.toNat / 2 ^ 24)).toNat * 2 ^ 24 +
      (UInt8.ofNat (h.identification.toNat / 2 ^ 16)).toNat * 2 ^ 16 +
      (UInt8.ofNat (h.identification.toNat / 2 ^ 8)).toNat * 2 ^ 8 +
      (UInt8.ofNat h.identification.toNat).toNat) = h.identification := by
    have hlt := h.identification.toNat_lt
    rw [← UInt32.toNat_inj, UInt32.toNat_ofNat', UInt8.toNat_ofNat', UInt8.toNat_ofNat',
      UInt8.toNat_ofNat', UInt8.toNat_ofNat']
    omega
  simp only [serialize, List.cons_append, List.nil_append, deserialize, hoffset, hidentification]

end FragmentHeader

namespace Ipv6ExtensionFragment

/-! ## The unfragmentable part -/

/-- A header announced as `first` begins a chain of the extension headers `headers`, all of the
unfragmentable part, behind which is a fragmentable part `F` of the type `final`. -/
def Chain (final : UInt8) (F : Packet) : UInt8 → List ExtensionHeader → Prop
  | first, [] => first = final ∧ isUnfragmentable final (F.headD 0) = false
  | first, h :: headers => first = h.type ∧ h.WellFormed ∧
      isUnfragmentable h.type h.nextHeader = true ∧ Chain final F h.nextHeader headers

/-- The headers as they are in a fragment : the last one announces a fragment header. -/
def marked : List ExtensionHeader → List ExtensionHeader
  | [] => []
  | [h] => [h.setNextHeader Ipv6Header.extFragmentation]
  | h :: headers => h :: marked headers

/-- The bytes of the headers, one behind the other. -/
def bytesOf (headers : List ExtensionHeader) : Packet :=
  headers.flatMap ExtensionHeader.serialize

/-- The size of the headers. -/
def sizeOf (headers : List ExtensionHeader) : ℕ :=
  (headers.map ExtensionHeader.size).sum

/-- The size of the headers as `GetFragments` counts it, each one as a number of 8 bits. -/
def countedSize (headers : List ExtensionHeader) : ℕ :=
  (headers.map fun h => h.size % 2 ^ 8).sum

variable {final first : UInt8} {F : Packet} {h : ExtensionHeader} {headers : List ExtensionHeader}

theorem headD_append {h : ExtensionHeader} (rest : Packet) :
    (h.serialize ++ rest).headD 0 = h.nextHeader := by
  obtain ⟨bytes, hbytes⟩ := h.head_serialize
  rw [hbytes]
  rfl

theorem bytesOf_cons (h : ExtensionHeader) (headers : List ExtensionHeader) :
    bytesOf (h :: headers) = h.serialize ++ bytesOf headers :=
  List.flatMap_cons

theorem marked_wellFormed (hc : Chain final F first headers) :
    ∀ h ∈ marked headers, h.WellFormed := by
  induction headers generalizing first with
  | nil => exact fun h hh => absurd hh List.not_mem_nil
  | cons a headers ih =>
    obtain ⟨-, hwf, -, hrest⟩ := hc
    cases headers with
    | nil => exact List.forall_mem_singleton.2 hwf.setNextHeader
    | cons b headers => exact List.forall_mem_cons.2 ⟨hwf, ih hrest⟩

theorem sizeOf_marked (headers : List ExtensionHeader) :
    sizeOf (marked headers) = sizeOf headers := by
  induction headers with
  | nil => rfl
  | cons a headers ih =>
    cases headers with
    | nil => exact congrArg (· + 0) ExtensionHeader.size_setNextHeader
    | cons b headers => exact congrArg (a.size + ·) ih

theorem length_bytesOf : ∀ {headers : List ExtensionHeader}, (∀ h ∈ headers, h.WellFormed) →
    (bytesOf headers).length = sizeOf headers
  | [], _ => rfl
  | h :: headers, hh => by
    obtain ⟨hwf, hrest⟩ := List.forall_mem_cons.1 hh
    rw [bytesOf_cons, List.length_append, ExtensionHeader.length_serialize hwf,
      length_bytesOf hrest]
    rfl

/-- `GetFragments` finds the unfragmentable part. -/
theorem split_eq (hc : Chain final F first (h :: headers)) {fuel : ℕ}
    (hfuel : headers.length < fuel) :
    split fuel first (bytesOf (h :: headers) ++ F) =
      some ⟨marked (h :: headers), UInt32.ofNat (countedSize (h :: headers)), final, F⟩ := by
  induction fuel generalizing h headers first with
  | zero => omega
  | succ fuel ih =>
    obtain ⟨rfl, hwf, -, hrest⟩ := hc
    have hlen : h.getLength.toUInt8.toUInt32 = UInt32.ofNat (h.size % 2 ^ 8) := by
      rw [← UInt32.toNat_inj, UInt8.toNat_toUInt32, UInt16.toNat_toUInt8, h.toNat_getLength,
        UInt32.toNat_ofNat_of_lt' (show h.size % 2 ^ 8 < 2 ^ 32 by omega)]
    rw [split, bytesOf_cons, List.append_assoc, ExtensionHeader.removeHeader_serialize hwf]
    simp only [Option.bind_eq_bind, Option.bind_some]
    cases headers with
    | nil =>
      obtain ⟨hnext, hstop⟩ := hrest
      have hF : bytesOf [] ++ F = F := rfl
      rw [hF, hnext, hstop, hlen]
      rfl
    | cons a headers =>
      obtain ⟨hnext, hwf', hgo, hrest'⟩ := hrest
      have hhead : (bytesOf (a :: headers) ++ F).headD 0 = a.nextHeader := by
        rw [bytesOf_cons, List.append_assoc, headD_append]
      rw [List.length_cons] at hfuel
      rw [hhead, hnext, hgo, ih ⟨rfl, hwf', hgo, hrest'⟩ (by omega), hlen]
      simp only [if_true, Option.bind_some, Option.pure_def, Option.some.injEq, Parts.mk.injEq,
        and_true]
      exact ⟨rfl, (UInt32.ofNat_add _ _).symm⟩

/-- The headers are put in front of a fragment one after the other, the first one first. -/
theorem addHeaders_eq (headers : List ExtensionHeader) (fragment : Packet) :
    addHeaders headers fragment = bytesOf headers.reverse ++ fragment := by
  induction headers generalizing fragment with
  | nil => rfl
  | cons h headers ih =>
    have hcons : addHeaders (h :: headers) fragment =
        addHeaders headers (h.serialize ++ fragment) :=
      rfl
    have hsnoc : bytesOf (headers.reverse ++ [h]) = bytesOf headers.reverse ++ h.serialize := by
      rw [bytesOf, bytesOf, List.flatMap_append, List.flatMap_singleton]
    rw [hcons, ih, List.reverse_cons, hsnoc, List.append_assoc]

/-! ## The fragments -/

open FragmentList (Arrival)

/-- Consecutive pieces of `F` from the position `o` on, each with as many bytes as fit into `M`
and are a multiple of 8, and at last what is left. -/
inductive Consecutive (F : Packet) (M : ℕ) : ℕ → List Arrival → Prop
  | last {o : ℕ} (ho : o ≤ F.length) (hM : F.length ≤ o + M) :
      Consecutive F M o [⟨F.drop o, UInt16.ofNat o, false⟩]
  | more {o : ℕ} {pieces : List Arrival} (hlt : o + M < F.length)
      (hrest : Consecutive F M (o + (M - M % 8)) pieces) :
      Consecutive F M o (⟨slice F o (M - M % 8), UInt16.ofNat o, true⟩ :: pieces)

/-- The fragment header of a piece. -/
def headerOf (final : UInt8) (identification : UInt32) (a : Arrival) : FragmentHeader :=
  ⟨final, FragmentHeader.encode a.fragmentOffset a.moreFragment, identification⟩

/-- A piece with the headers in front of it. -/
def packetOf (parts : Parts) (identification : UInt32) (a : Arrival) : Packet :=
  bytesOf parts.unfragmentablePart.reverse ++
    ((headerOf parts.nextHeader identification a).serialize ++ a.fragment)

/-- The fragment of a piece. -/
def wrap (parts : Parts) (ipv6Header : Ipv6Header) (identification : UInt32) (a : Arrival) :
    PayloadHeaderPair :=
  (packetOf parts identification a,
    { ipv6Header with payloadLength := (getSize (packetOf parts identification a)).toUInt16 })

variable {parts : Parts} {ipv6Header : Ipv6Header} {maxSize identification : UInt32}

/-- `GetFragments` cuts consecutive pieces. -/
theorem fragmentsFrom_spec (parts : Parts) (ipv6Header : Ipv6Header) (identification : UInt32)
    (hF : parts.p.length < 2 ^ 16) (hmax : 8 ≤ maxSize.toNat) (fuel : ℕ)
    (fragmentHeader : FragmentHeader) {o : ℕ} (ho : o % 8 = 0) (hle : o ≤ parts.p.length)
    (hsmall : o = 0 ∨ maxSize.toNat < parts.p.length) (hfuel : parts.p.length - o < fuel) :
    ∃ pieces, Consecutive parts.p maxSize.toNat o pieces ∧
      fragmentsFrom parts ipv6Header maxSize identification fuel fragmentHeader (UInt16.ofNat o) =
        some (pieces.map (wrap parts ipv6Header identification)) := by
  induction fuel generalizing fragmentHeader o with
  | zero => omega
  | succ fuel ih =>
    have hmax32 := maxSize.toNat_lt
    have ho16 : (UInt16.ofNat o).toNat = o := UInt16.toNat_ofNat_of_lt' (show o < 2 ^ 16 by omega)
    have ho32 : (UInt16.ofNat o).toUInt32.toNat = o := by rw [UInt16.toNat_toUInt32, ho16]
    have hlen : (getSize parts.p).toNat = parts.p.length :=
      UInt32.toNat_ofNat_of_lt' (show parts.p.length < 2 ^ 32 by omega)
    have hcond : (UInt16.ofNat o).toUInt32 + maxSize < getSize parts.p ↔
        o + maxSize.toNat < parts.p.length := by
      rw [UInt32.lt_iff_toNat_lt, UInt32.toNat_add, ho32, hlen]
      rcases hsmall with rfl | hsmall <;> omega
    have hheader : ∀ more, { (({ fragmentHeader with nextHeader := parts.nextHeader }.setOffset
        (UInt16.ofNat o)).setMoreFragment more) with identification := identification } =
        (⟨parts.nextHeader, FragmentHeader.encode (UInt16.ofNat o) more, identification⟩ :
          FragmentHeader) := by
      intro more
      have hoffset := FragmentHeader.offset_set
        { fragmentHeader with nextHeader := parts.nextHeader } (UInt16.ofNat o)
        (by rw [ho16]; exact ho) more
      exact congrArg (FragmentHeader.mk parts.nextHeader · identification) hoffset
    rw [fragmentsFrom]
    by_cases hlt : o + maxSize.toNat < parts.p.length
    · -- fragments follow this one
      obtain ⟨m, hm⟩ : ∃ m, m = maxSize.toNat - maxSize.toNat % 8 := ⟨_, rfl⟩
      have hcut : (maxSize - maxSize % 8).toNat = m := by
        have hmod : (maxSize % 8).toNat = maxSize.toNat % 8 := UInt32.toNat_mod _ _
        rw [UInt32.toNat_sub_of_le _ _ (UInt32.le_iff_toNat_le.2 (by omega)), hmod, hm]
      have hnext : UInt16.ofNat o + (maxSize - maxSize % 8).toUInt16 = UInt16.ofNat (o + m) := by
        rw [UInt16.ofNat_add]
        congr 1
        rw [← UInt16.toNat_inj, UInt32.toNat_toUInt16, hcut, UInt16.toNat_ofNat']
      have hdata : createFragment parts.p (UInt16.ofNat o).toUInt32 (maxSize - maxSize % 8) =
          slice parts.p o m := by
        rw [Packet.createFragment_eq (by omega) (by omega), ho32, hcut, slice]
      obtain ⟨pieces, hpieces, hrest⟩ := ih
        (⟨parts.nextHeader, FragmentHeader.encode (UInt16.ofNat o) true, identification⟩ :
          FragmentHeader) (o := o + m) (by omega) (by omega) (Or.inr (by omega)) (by omega)
      refine ⟨_, .more hlt (hm ▸ hpieces), ?_⟩
      simp only [hcond.2 hlt, if_true, decide_true, hheader, hdata, addHeaders_eq, hnext, hrest,
        Option.bind_eq_bind, Option.bind_some, Option.pure_def, ← hm]
      rfl
    · -- the last one
      have hlast : (getSize parts.p - (UInt16.ofNat o).toUInt32).toNat = parts.p.length - o := by
        rw [UInt32.toNat_sub_of_le _ _ (UInt32.le_iff_toNat_le.2 (by omega)), hlen, ho32]
      have hdata : createFragment parts.p (UInt16.ofNat o).toUInt32
          (getSize parts.p - (UInt16.ofNat o).toUInt32) = parts.p.drop o := by
        rw [Packet.createFragment_eq (by omega) (by omega), ho32, hlast,
          List.take_of_length_le (by rw [List.length_drop])]
      have hnot : ¬ (UInt16.ofNat o).toUInt32 + maxSize < getSize parts.p := fun hn =>
        hlt (hcond.1 hn)
      refine ⟨_, .last hle (Nat.not_lt.1 hlt), ?_⟩
      simp only [hnot, if_false, decide_false, hheader, hdata, addHeaders_eq, Option.bind_eq_bind,
        Option.bind_some, Option.pure_def]
      rfl

theorem Chain.wellFormed (hc : Chain final F first headers) : ∀ h ∈ headers, h.WellFormed := by
  induction headers generalizing first with
  | nil => exact fun h hh => absurd hh List.not_mem_nil
  | cons a headers ih =>
    obtain ⟨-, hwf, -, hrest⟩ := hc
    exact List.forall_mem_cons.2 ⟨hwf, ih hrest⟩

theorem length_le_sizeOf (headers : List ExtensionHeader) : headers.length ≤ sizeOf headers := by
  induction headers with
  | nil => exact le_rfl
  | cons h headers ih =>
    have hsize : 0 < h.size := Nat.mul_pos (Nat.succ_pos _) (by decide)
    change headers.length + 1 ≤ h.size + sizeOf headers
    omega

theorem countedSize_le (headers : List ExtensionHeader) : countedSize headers ≤ sizeOf headers := by
  induction headers with
  | nil => exact le_rfl
  | cons h headers ih => exact Nat.add_le_add (Nat.mod_le _ _) ih

/-- The header in front of the fragments. -/
def fragmentHeaderOf (headers : List ExtensionHeader) (ipv6Header : Ipv6Header) : Ipv6Header :=
  if headers = [] then { ipv6Header with nextHeader := Ipv6Header.extFragmentation }
  else ipv6Header

/-- The parts of a packet. -/
def partsOf (headers : List ExtensionHeader) (final : UInt8) (F : Packet) : Parts :=
  ⟨marked headers, UInt32.ofNat (countedSize headers), final, F⟩

/-- The fragments that `GetFragments` makes of a packet with room for 8 bytes in each. -/
theorem getFragments_eq (identification : UInt32) {maxFragmentSize : UInt32}
    (hc : Chain final F ipv6Header.nextHeader headers) (hF : F.length < 2 ^ 16)
    (hroom : sizeOf headers + 56 ≤ maxFragmentSize.toNat) :
    ∃ pieces, Consecutive F (maxFragmentSize.toNat - 48 - countedSize headers) 0 pieces ∧
      getFragments (bytesOf headers ++ F) ipv6Header maxFragmentSize identification =
        some (pieces.map (wrap (partsOf headers final F) (fragmentHeaderOf headers ipv6Header)
          identification)) := by
  have hcounted := countedSize_le headers
  have hmax32 := maxFragmentSize.toNat_lt
  have hsize : (UInt32.ofNat (countedSize headers)).toNat = countedSize headers :=
    UInt32.toNat_ofNat_of_lt' (show countedSize headers < 2 ^ 32 by omega)
  have hmax : (maxFragmentSize - Ipv6Header.serializedSize.toUInt32 -
      UInt32.ofNat (countedSize headers) - FragmentHeader.serializedSize.toUInt32).toNat =
      maxFragmentSize.toNat - 48 - countedSize headers := by
    have h40 : (Ipv6Header.serializedSize.toUInt32).toNat = 40 := rfl
    have h8 : (FragmentHeader.serializedSize.toUInt32).toNat = 8 := rfl
    have h1 := UInt32.toNat_sub_of_le maxFragmentSize Ipv6Header.serializedSize.toUInt32
      (UInt32.le_iff_toNat_le.2 (by omega))
    have h2 := UInt32.toNat_sub_of_le (maxFragmentSize - Ipv6Header.serializedSize.toUInt32)
      (UInt32.ofNat (countedSize headers)) (UInt32.le_iff_toNat_le.2 (by omega))
    rw [UInt32.toNat_sub_of_le _ _ (UInt32.le_iff_toNat_le.2 (by omega)), h2, h1, hsize, h40, h8]
    omega
  have hspec := fragmentsFrom_spec (partsOf headers final F)
    (fragmentHeaderOf headers ipv6Header) identification hF
    (by rw [hmax]; omega) (F.length + 1) {} (o := 0) rfl (Nat.zero_le _) (Or.inl rfl)
    (Nat.lt_succ_self _)
  rw [hmax] at hspec
  obtain ⟨pieces, hpieces, hfragments⟩ := hspec
  refine ⟨pieces, hpieces, ?_⟩
  rw [getFragments]
  cases headers with
  | nil =>
    obtain ⟨hfirst, hstop⟩ := hc
    have hmore : isUnfragmentable ipv6Header.nextHeader ((bytesOf [] ++ F).headD 0) = false := by
      rw [hfirst]
      exact hstop
    simp only [hmore, Bool.false_eq_true, if_false, Option.bind_eq_bind, Option.bind_some]
    rw [hfirst]
    exact hfragments
  | cons h headers =>
    have hfuel : headers.length < (bytesOf (h :: headers) ++ F).length + 1 := by
      have hlen := length_le_sizeOf (h :: headers)
      rw [List.length_append, length_bytesOf hc.wellFormed]
      rw [List.length_cons] at hlen
      omega
    have hsplit := split_eq hc hfuel
    have hmore : isUnfragmentable ipv6Header.nextHeader ((bytesOf (h :: headers) ++ F).headD 0) =
        true := by
      obtain ⟨hfirst, -, hgo, -⟩ := hc
      rw [hfirst, bytesOf_cons, List.append_assoc, headD_append, hgo]
    simp only [hmore, if_true, Option.bind_eq_bind, hsplit, Option.bind_some]
    exact hfragments

/-! ## What the fragments owe the receiver -/

variable {M o : ℕ} {pieces : List Arrival} {a : Arrival} {maxFragmentSize : UInt32}

theorem Consecutive.ne_nil (h : Consecutive F M o pieces) : pieces ≠ [] := by
  cases h <;> exact List.cons_ne_nil _ _

theorem Consecutive.length_le (h : Consecutive F M o pieces) :
    ∀ a ∈ pieces, a.fragment.length ≤ M ∧ a.fragment.length ≤ F.length := by
  induction h with
  | last ho hM =>
    refine List.forall_mem_singleton.2 ?_
    rw [List.length_drop]
    omega
  | more hlt hrest ih =>
    refine List.forall_mem_cons.2 ⟨?_, ih⟩
    change (slice _ _ _).length ≤ _ ∧ (slice _ _ _).length ≤ _
    rw [length_slice]
    omega

theorem length_packetOf (identification : UInt32) (hc : Chain final F first headers)
    (a : Arrival) :
    (packetOf (partsOf headers final F) identification a).length =
      sizeOf headers + 8 + a.fragment.length := by
  have hrev : (bytesOf (marked headers).reverse).length = sizeOf headers := by
    rw [length_bytesOf (fun h hh => marked_wellFormed hc h (List.mem_reverse.1 hh))]
    exact ((List.reverse_perm (marked headers)).map ExtensionHeader.size).sum_eq.trans
      (sizeOf_marked headers)
  rw [packetOf, List.length_append, List.length_append, FragmentHeader.length_serialize]
  change (bytesOf (marked headers).reverse).length + (8 + a.fragment.length) = _
  rw [hrev, Nat.add_assoc]

theorem first_eq (hc : Chain final F ipv6Header.nextHeader headers) :
    (fragmentHeaderOf headers ipv6Header).nextHeader =
      (headers.map ExtensionHeader.type).headD Ipv6Header.extFragmentation := by
  cases headers with
  | nil => rfl
  | cons h headers => exact hc.1

end Ipv6ExtensionFragment

end Ns3Pedca
