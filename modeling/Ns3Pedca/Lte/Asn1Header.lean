import Ns3Pedca.OctetBits

/-!
# ASN.1 fields of RRC messages

Items of any number of bits are packed into octets without alignment. `Asn1Header` keeps the bits
that do not fill an octet, both when it writes (`SerializeBitset`) and when it reads
(`DeserializeBitset`). A number in a range is written in the bits that the range requires, and an
item with only one possible value takes none.
-/

namespace Ns3Pedca

open OctetBits

/-- `Asn1Header` while items are serialized. -/
structure Asn1Header where
  pendingBits : UInt8 := 0
  numPendingBits : ℕ := 0
  result : List UInt8 := []

/-- `Asn1Header` while items are deserialized, with the octets that are left. -/
structure Asn1Reader where
  pendingBits : UInt8 := 0
  numPendingBits : ℕ := 0
  octets : List UInt8

/-- An item, with the arguments that describe it. -/
inductive Asn1Item
  | bitstring (data : List Bool)
  | boolean (value : Bool)
  | sequence (mask : List Bool) (isExtensionMarkerPresent : Bool)
  | sequenceOf (numElems nMax nMin : ℤ)
  | choice (numOptions selectedOption : ℤ) (isExtensionMarkerPresent : Bool)
  | enum (numElems selectedElem : ℤ)
  | integer (n nmin nmax : ℤ)
  deriving DecidableEq

namespace Asn1Header

/-- `WriteOctet`. -/
def writeOctet (s : Asn1Header) (octet : UInt8) : Asn1Header :=
  { s with result := s.result ++ [octet] }

/-- The loop of `SerializeBitset` that fills the pending octet. Bits that are left are counted. -/
def fillLoop (data : List Bool) : ℕ → UInt8 → Asn1Header → ℕ × Asn1Header
  | 0, _, s => (0, s)
  | n + 1, bit, s =>
    if s.numPendingBits < 8 then
      fillLoop data n (bit >>> 1 &&& ~~~bit)
        { s with
          pendingBits := s.pendingBits ||| if data.getD n false then bit else 0
          numPendingBits := s.numPendingBits + 1 }
    else (n + 1, s)

/-- The pending octet in `SerializeBitset`. -/
def fill (data : List Bool) (n : ℕ) (s : Asn1Header) : ℕ × Asn1Header :=
  if 0 < s.numPendingBits then
    let r := fillLoop data n (mask s.numPendingBits) s
    (r.1, if 8 ≤ r.2.numPendingBits then
        { r.2.writeOctet r.2.pendingBits with numPendingBits := 0, pendingBits := 0 }
      else r.2)
  else (n, s)

/-- The loop of `SerializeBitset` that stores fewer than eight bits. -/
def storeLoop (data : List Bool) : ℕ → UInt8 → UInt8 → UInt8
  | 0, _, octet => octet
  | n + 1, bit, octet =>
    storeLoop data n (bit >>> 1 &&& ~~~bit) (octet ||| if data.getD n false then bit else 0)

/-- The loop of `SerializeBitset` over the bits of an octet. -/
def octetLoop (data : List Bool) (n : ℕ) : ℕ → UInt8 → UInt8 → UInt8
  | 0, _, octet => octet
  | j + 1, bit, octet =>
    octetLoop data n j (bit <<< 1 &&& ~~~bit)
      (octet ||| if data.getD (n - (j + 1)) false then bit else 0)

/-- The last loop of `SerializeBitset`, with a bound on its rounds. -/
def restLoop (data : List Bool) : ℕ → ℕ → Asn1Header → Asn1Header
  | 0, _, s => s
  | rounds + 1, n, s =>
    if n = 0 then s
    else if n < 8 then
      { s with numPendingBits := n, pendingBits := storeLoop data n 0x80 s.pendingBits }
    else restLoop data rounds (n - 8) (s.writeOctet (octetLoop data n 8 1 0))

/-- `SerializeBitset`. The bits are counted in a byte. -/
def serializeBitset (s : Asn1Header) (data : List Bool) : Asn1Header :=
  if data.length = 0 then s
  else if data.length ≤ 65536 then
    let r := fill data (data.length % 256) s
    restLoop data data.length r.1 r.2
  else s

/-- `SerializeBoolean`. -/
def serializeBoolean (s : Asn1Header) (value : Bool) : Asn1Header :=
  s.serializeBitset [value]

/-- `SerializeSequence`. -/
def serializeSequence (s : Asn1Header) (optionalOrDefaultMask : List Bool)
    (isExtensionMarkerPresent : Bool) : Asn1Header :=
  (if isExtensionMarkerPresent then s.serializeBoolean false else s).serializeBitset
    optionalOrDefaultMask

/-- `requiredBits`, as the exact logarithm. -/
def requiredBits (range : ℤ) : ℕ :=
  Nat.clog 2 range.toNat

/-- `SerializeInteger`. The program exits if there are too many bits. -/
def serializeInteger (s : Asn1Header) (n nmin nmax : ℤ) : Option Asn1Header :=
  let range := nmax - nmin + 1
  if range ≤ 1 then some s
  else if 1 ≤ requiredBits range ∧ requiredBits range ≤ 20 then
    some (s.serializeBitset (bitset (requiredBits range) (n - nmin).toNat))
  else none

/-- `SerializeSequenceOf`. -/
def serializeSequenceOf (s : Asn1Header) (numElems nMax nMin : ℤ) : Option Asn1Header :=
  s.serializeInteger numElems nMin nMax

/-- `SerializeEnum`. -/
def serializeEnum (s : Asn1Header) (numElems selectedElem : ℤ) : Option Asn1Header :=
  s.serializeInteger selectedElem 0 (numElems - 1)

/-- `SerializeChoice`. -/
def serializeChoice (s : Asn1Header) (numOptions selectedOption : ℤ)
    (isExtensionMarkerPresent : Bool) : Option Asn1Header :=
  let s := if isExtensionMarkerPresent then s.serializeBoolean false else s
  if numOptions < 2 then some s
  else s.serializeInteger selectedOption 0 (numOptions - 1)

/-- `FinalizeSerialization`. -/
def finalizeSerialization (s : Asn1Header) : Asn1Header :=
  if 0 < s.numPendingBits then
    { s with numPendingBits := 0 }.serializeBitset (bitset 8 s.pendingBits.toNat)
  else s

/-- An item is serialized. -/
def serializeItem (s : Asn1Header) : Asn1Item → Option Asn1Header
  | .bitstring data => some (s.serializeBitset data)
  | .boolean value => some (s.serializeBoolean value)
  | .sequence mask marker => some (s.serializeSequence mask marker)
  | .sequenceOf numElems nMax nMin => s.serializeSequenceOf numElems nMax nMin
  | .choice numOptions selectedOption marker =>
    s.serializeChoice numOptions selectedOption marker
  | .enum numElems selectedElem => s.serializeEnum numElems selectedElem
  | .integer n nmin nmax => s.serializeInteger n nmin nmax

/-- The octets of a header with the items. -/
def encode (items : List Asn1Item) : Option (List UInt8) :=
  (items.foldlM serializeItem {}).map fun s => s.finalizeSerialization.result

end Asn1Header

namespace Asn1Reader

/-- The loop of `DeserializeBitset` over the pending bits. Bits to read are counted. -/
def pendingLoop : ℕ → List Bool → Asn1Reader → ℕ × List Bool × Asn1Reader
  | 0, data, s => (0, data, s)
  | n + 1, data, s =>
    if 0 < s.numPendingBits then
      pendingLoop n (data.set n (s.pendingBits &&& 0x80 ≠ 0))
        { s with
          pendingBits := s.pendingBits <<< 1
          numPendingBits := s.numPendingBits - 1 }
    else (n + 1, data, s)

/-- The loops of `DeserializeBitset` over bits of an octet. -/
def setLoop (octet : UInt8) : ℕ → ℕ → UInt8 → List Bool → List Bool
  | 0, _, _, data => data
  | j + 1, n, bit, data =>
    setLoop octet j (n - 1) (bit >>> 1) (data.set (n - 1) (octet &&& bit ≠ 0))

/-- The loop of `DeserializeBitset` over octets, with a bound on its rounds. -/
def bufferLoop : ℕ → ℕ → List Bool → Asn1Reader → Option (List Bool × Asn1Reader)
  | 0, _, data, s => some (data, s)
  | rounds + 1, n, data, s =>
    if n = 0 then some (data, s)
    else s.octets.head?.bind fun octet =>
      if 8 ≤ n then
        bufferLoop rounds (n - 8) (setLoop octet 8 n 0x80 data) { s with octets := s.octets.tail }
      else some (setLoop octet n n 0x80 data,
        { pendingBits := octet <<< UInt8.ofNat n
          numPendingBits := 8 - n
          octets := s.octets.tail })

/-- `DeserializeBitset` into a variable with the bits `data`. -/
def deserializeBitset (s : Asn1Reader) (data : List Bool) : Option (List Bool × Asn1Reader) :=
  let r := pendingLoop data.length data s
  bufferLoop r.1 r.1 r.2.1 r.2.2

/-- `DeserializeBoolean`. -/
def deserializeBoolean (s : Asn1Reader) : Option (Bool × Asn1Reader) :=
  (s.deserializeBitset [false]).map fun r => (r.1.getD 0 false, r.2)

/-- `DeserializeInteger` into a variable with the value `n`. -/
def deserializeInteger (s : Asn1Reader) (n nmin nmax : ℤ) : Option (ℤ × Asn1Reader) :=
  let low := if nmax < nmin then nmax else nmin
  let high := if nmax < nmin then nmin else nmax
  let range := high - low + 1
  if range = 1 then some (n, s)
  else if 1 ≤ Asn1Header.requiredBits range ∧ Asn1Header.requiredBits range ≤ 20 then
    (s.deserializeBitset (List.replicate (Asn1Header.requiredBits range) false)).map fun r =>
      (value r.1 + low, r.2)
  else none

/-- The extension marker, if there is one. -/
def skipMarker (s : Asn1Reader) (isExtensionMarkerPresent : Bool) : Option Asn1Reader :=
  if isExtensionMarkerPresent then s.deserializeBoolean.map Prod.snd else some s

/-- `DeserializeChoice` into a variable with the value `selectedOption`. -/
def deserializeChoice (s : Asn1Reader) (numOptions selectedOption : ℤ)
    (isExtensionMarkerPresent : Bool) : Option (ℤ × Asn1Reader) :=
  (s.skipMarker isExtensionMarkerPresent).bind fun s =>
    s.deserializeInteger selectedOption 0 (numOptions - 1)

/-- `DeserializeEnum` into a variable with the value `selectedElem`. -/
def deserializeEnum (s : Asn1Reader) (numElems selectedElem : ℤ) : Option (ℤ × Asn1Reader) :=
  s.deserializeInteger selectedElem 0 (numElems - 1)

/-- `DeserializeSequence` into a variable with the bits `mask`. -/
def deserializeSequence (s : Asn1Reader) (mask : List Bool) (isExtensionMarkerPresent : Bool) :
    Option (List Bool × Asn1Reader) :=
  (s.skipMarker isExtensionMarkerPresent).bind fun s => s.deserializeBitset mask

/-- `DeserializeSequenceOf` into a variable with the value `numElems`. -/
def deserializeSequenceOf (s : Asn1Reader) (numElems nMax nMin : ℤ) :
    Option (ℤ × Asn1Reader) :=
  s.deserializeInteger numElems nMin nMax

/-- An item is deserialized into variables that have the values of `old`. -/
def deserializeItem (s : Asn1Reader) : Asn1Item → Option (Asn1Item × Asn1Reader)
  | .bitstring data => (s.deserializeBitset data).map fun r => (.bitstring r.1, r.2)
  | .boolean _ => s.deserializeBoolean.map fun r => (.boolean r.1, r.2)
  | .sequence mask marker =>
    (s.deserializeSequence mask marker).map fun r => (.sequence r.1 marker, r.2)
  | .sequenceOf numElems nMax nMin =>
    (s.deserializeSequenceOf numElems nMax nMin).map fun r => (.sequenceOf r.1 nMax nMin, r.2)
  | .choice numOptions selectedOption marker =>
    (s.deserializeChoice numOptions selectedOption marker).map fun r =>
      (.choice numOptions r.1 marker, r.2)
  | .enum numElems selectedElem =>
    (s.deserializeEnum numElems selectedElem).map fun r => (.enum numElems r.1, r.2)
  | .integer n nmin nmax =>
    (s.deserializeInteger n nmin nmax).map fun r => (.integer r.1 nmin nmax, r.2)

/-- Items one after the other. -/
def deserializeItems (s : Asn1Reader) : List Asn1Item → Option (List Asn1Item × Asn1Reader)
  | [] => some ([], s)
  | old :: olds => (s.deserializeItem old).bind fun r =>
    (r.2.deserializeItems olds).map fun t => (r.1 :: t.1, t.2)

/-- The items that a fresh header reads from octets. -/
def decode (octets : List UInt8) (olds : List Asn1Item) : Option (List Asn1Item) :=
  (deserializeItems { octets := octets } olds).map Prod.fst

end Asn1Reader

namespace Asn1Item

/-- The item without its value. -/
def descriptor : Asn1Item → Asn1Item
  | .bitstring data => .bitstring (data.map fun _ => false)
  | .boolean _ => .boolean false
  | .sequence mask marker => .sequence (mask.map fun _ => false) marker
  | .sequenceOf _ nMax nMin => .sequenceOf 0 nMax nMin
  | .choice numOptions _ marker => .choice numOptions 0 marker
  | .enum numElems _ => .enum numElems 0
  | .integer _ nmin nmax => .integer 0 nmin nmax

/-- A number is in its range, of less than `2^20` above the least. -/
def InRange (n nmin nmax : ℤ) : Prop :=
  nmin ≤ n ∧ n ≤ nmax ∧ nmax - nmin < 2 ^ 20

/-- An item of a supported length or range. -/
def Valid : Asn1Item → Prop
  | .bitstring data => data.length ∈ [1, 2, 8, 10, 16, 27, 28, 32]
  | .boolean _ => True
  | .sequence mask _ => mask.length ∈ [0, 1, 2, 3, 4, 5, 6, 7, 9, 10, 11]
  | .sequenceOf numElems nMax nMin => InRange numElems nMin nMax
  | .choice numOptions selectedOption _ => InRange selectedOption 0 (numOptions - 1)
  | .enum numElems selectedElem => InRange selectedElem 0 (numElems - 1)
  | .integer n nmin nmax => InRange n nmin nmax

/-- A number that has only one possible value. -/
def Single : Asn1Item → Prop
  | .sequenceOf _ nMax nMin => nMin = nMax
  | .choice numOptions _ _ => numOptions = 1
  | .enum numElems _ => numElems = 1
  | .integer _ nmin nmax => nmin = nmax
  | _ => False

instance single_decidable : DecidablePred Single
  | .bitstring _ => inferInstanceAs (Decidable False)
  | .boolean _ => inferInstanceAs (Decidable False)
  | .sequence _ _ => inferInstanceAs (Decidable False)
  | .sequenceOf _ nMax nMin => inferInstanceAs (Decidable (nMin = nMax))
  | .choice numOptions _ _ => inferInstanceAs (Decidable (numOptions = 1))
  | .enum numElems _ => inferInstanceAs (Decidable (numElems = 1))
  | .integer _ nmin nmax => inferInstanceAs (Decidable (nmin = nmax))

/-- The bits of a number in a range, the most significant first. -/
def integerBits (n nmin nmax : ℤ) : List Bool :=
  if nmin = nmax then []
  else (bitset (Asn1Header.requiredBits (nmax - nmin + 1)) (n - nmin).toNat).reverse

/-- The extension marker is a bit. -/
def markerBits (isExtensionMarkerPresent : Bool) : List Bool :=
  if isExtensionMarkerPresent then [false] else []

/-- The bits of an item, in the order in which they are written. -/
def toBits : Asn1Item → List Bool
  | .bitstring data => data.reverse
  | .boolean value => [value]
  | .sequence mask marker => markerBits marker ++ mask.reverse
  | .sequenceOf numElems nMax nMin => integerBits numElems nMin nMax
  | .choice numOptions selectedOption marker =>
    markerBits marker ++ integerBits selectedOption 0 (numOptions - 1)
  | .enum numElems selectedElem => integerBits selectedElem 0 (numElems - 1)
  | .integer n nmin nmax => integerBits n nmin nmax

end Asn1Item

end Ns3Pedca
