import Ns3Pedca.Bytes
import Ns3Pedca.Wifi.RecipientBlockAckAgreement
import Ns3Pedca.Wifi.WifiMacHeader

/-!
# The BlockAck frame

`CtrlBAckResponseHeader` holds one starting sequence number with its bitmap, or one for each
station in a Multi-STA BlockAck. The length of the bitmap is part of the type of the
BlockAck; in a frame it is encoded in the fragment number of the starting sequence control.

What ends the simulation (`NS_FATAL_ERROR`, `NS_ABORT_MSG`, a read past the end) is `none`.
`sendBlockAck` builds the header that a recipient acknowledges with.
-/

namespace Ns3Pedca

/-- `BlockAckType::Variant`. -/
inductive BlockAckVariant
  | basic
  | compressed
  | extendedCompressed
  | multiTid
  | gcr
  | multiSta
  deriving DecidableEq

/-- `BlockAckType` : the lengths are in bytes. -/
structure BlockAckType where
  variant : BlockAckVariant
  bitmapLen : List ℕ
  deriving DecidableEq

/-- The type of a variant, with its default length. -/
def BlockAckVariant.type : BlockAckVariant → BlockAckType
  | .basic => ⟨.basic, [128]⟩
  | .compressed => ⟨.compressed, [8]⟩
  | .extendedCompressed => ⟨.extendedCompressed, [8]⟩
  | .gcr => ⟨.gcr, [8]⟩
  | .multiTid => ⟨.multiTid, []⟩
  | .multiSta => ⟨.multiSta, []⟩

/-- `BaInfoInstance`. -/
structure BaInfoInstance where
  aidTidInfo : ℕ := 0
  startingSeq : ℕ := 0
  bitmap : List UInt8 := []
  address : Mac48Address := .station 0
  deriving DecidableEq

/-- `CtrlBAckResponseHeader`. -/
structure CtrlBAckResponseHeader where
  baAckPolicy : Bool := false
  baType : BlockAckType
  tidInfo : ℕ := 0
  baInfo : List BaInfoInstance
  deriving DecidableEq

namespace CtrlBAckResponseHeader

open Bytes

variable (hdr : CtrlBAckResponseHeader) (index : ℕ)

/-- `SetType`. -/
def setType (type : BlockAckType) : CtrlBAckResponseHeader :=
  { hdr with
    baType := type
    baInfo := type.bitmapLen.map fun bitmapLen => { bitmap := List.replicate bitmapLen 0 } }

/-- The constructor. -/
def init : CtrlBAckResponseHeader :=
  setType { baType := BlockAckVariant.basic.type, baInfo := [] } BlockAckVariant.basic.type

/-- `m_baInfo[index]`. -/
def info : BaInfoInstance :=
  hdr.baInfo.getD index {}

/-- `m_baType.m_bitmapLen[index]`. -/
def bitmapLen : ℕ :=
  hdr.baType.bitmapLen.getD index 0

/-- `m_baInfo[index]` is changed. -/
def modifyInfo (f : BaInfoInstance → BaInfoInstance) : CtrlBAckResponseHeader :=
  { hdr with baInfo := hdr.baInfo.modify index f }

/-! ## Fields -/

/-- `SetTidInfo`. -/
def setTidInfo (tid : Fin 16) : CtrlBAckResponseHeader :=
  if hdr.baType.variant = .multiSta then
    hdr.modifyInfo index fun info =>
      { info with aidTidInfo := info.aidTidInfo ||| (tid.val &&& 0x000f) <<< 12 }
  else { hdr with tidInfo := tid }

/-- `GetTidInfo`. -/
def getTidInfo : ℕ :=
  if hdr.baType.variant = .multiSta then (hdr.info index).aidTidInfo >>> 12 &&& 0x000f
  else hdr.tidInfo % 2 ^ 8

/-- `SetStartingSequence`. -/
def setStartingSequence (seq : ℕ) : CtrlBAckResponseHeader :=
  hdr.modifyInfo index fun info => { info with startingSeq := seq }

/-- `GetStartingSequence`. -/
def getStartingSequence : ℕ :=
  (hdr.info index).startingSeq

/-- `SetGcrGroupAddress`, which asserts that the variant is GCR. -/
def setGcrGroupAddress (address : Mac48Address) : Option CtrlBAckResponseHeader :=
  if hdr.baType.variant = .gcr then
    some (hdr.modifyInfo 0 fun info => { info with address := address })
  else none

/-- `GetAid11`. -/
def getAid11 : ℕ :=
  (hdr.info index).aidTidInfo &&& 0x07ff

/-- `GetAckType`. -/
def getAckType : Bool :=
  (hdr.info index).aidTidInfo >>> 11 &&& 0x0001 ≠ 0

/-- `ResetBitmap`. -/
def resetBitmap : CtrlBAckResponseHeader :=
  hdr.modifyInfo index fun info =>
    { info with bitmap := List.replicate (hdr.bitmapLen index) 0 }

/-! ## The bitmap -/

/-- The number of MPDUs that the bitmap acknowledges. -/
def nAckedMpdus : ℕ :=
  if hdr.baType.variant = .basic then hdr.bitmapLen index * 8 / 16 else hdr.bitmapLen index * 8

/-- `IndexInBitmap`. -/
def indexInBitmap (seq : ℕ) : ℕ :=
  if (hdr.info index).startingSeq ≤ seq then seq - (hdr.info index).startingSeq
  else seqnoSpaceSize - (hdr.info index).startingSeq + seq

/-- `IsInBitmap`. -/
def isInBitmap (seq : ℕ) : Bool :=
  ((seq : ℤ) - (hdr.info index).startingSeq + seqnoSpaceSize).tmod seqnoSpaceSize <
    hdr.nAckedMpdus index

/-- `SetReceivedPacket`. -/
def setReceivedPacket (seq : ℕ) : Option CtrlBAckResponseHeader :=
  if hdr.isInBitmap index seq then
    match hdr.baType.variant with
    | .basic => some (hdr.modifyInfo index fun info =>
        { info with bitmap := setBit info.bitmap (hdr.indexInBitmap 0 seq * 2 * 8) })
    | .compressed | .extendedCompressed | .gcr | .multiSta =>
      some (hdr.modifyInfo index fun info =>
        { info with bitmap := setBit info.bitmap (hdr.indexInBitmap index seq) })
    | .multiTid => none
  else some hdr

/-- `IsPacketReceived`. -/
def isPacketReceived (seq : ℕ) : Option Bool :=
  if hdr.baType.variant = .multiSta ∧ hdr.getAckType index ∧ hdr.getTidInfo index = 14 then
    some true
  else if hdr.isInBitmap index seq then
    match hdr.baType.variant with
    | .basic => some false
    | .compressed | .extendedCompressed | .gcr | .multiSta =>
      some (getBit (hdr.info index).bitmap (hdr.indexInBitmap index seq))
    | .multiTid => none
  else some false

/-! ## The frame -/

/-- The code of a variant in the BA Control field. -/
def variantCode : BlockAckVariant → ℕ
  | .basic => 0x00
  | .compressed => 0x02
  | .extendedCompressed => 0x01
  | .multiTid => 0x03
  | .gcr => 0x06
  | .multiSta => 0x0b

/-- `GetBaControl`. -/
def getBaControl : ℕ :=
  (if hdr.baAckPolicy then 0x1 else 0) ||| variantCode hdr.baType.variant <<< 1 |||
    if hdr.baType.variant = .multiSta then 0 else hdr.tidInfo <<< 12 &&& 0xf <<< 12

/-- The variant of a code. -/
def variantOfCode (code : ℕ) : Option BlockAckVariant :=
  if code = 0x06 then some .gcr
  else if code = 0x03 then some .multiTid
  else if code = 0x01 then some .extendedCompressed
  else if code = 0x02 then some .compressed
  else if code = 0x00 then some .basic
  else if code = 0x0b then some .multiSta
  else none

/-- `SetBaControl`. -/
def setBaControl (ba : ℕ) : Option CtrlBAckResponseHeader :=
  (variantOfCode (ba >>> 1 &&& 0x0f)).map fun variant =>
    { setType { hdr with baAckPolicy := ba &&& 0x01 = 1 } variant.type with
      tidInfo := if variant = .multiSta then hdr.tidInfo else ba >>> 12 &&& 0x0f }

/-- The code of a bitmap length in the fragment number. -/
def lengthCode (variant : BlockAckVariant) (bitmapLen : ℕ) : Option ℕ :=
  match variant, bitmapLen with
  | .compressed, 8 | .gcr, 8 | .multiSta, 8 => some 0x0000
  | .compressed, 32 | .gcr, 32 | .multiSta, 32 => some 0x0004
  | .compressed, 64 | .gcr, 64 | .multiSta, 64 => some 0x0008
  | .compressed, 128 | .gcr, 128 | .multiSta, 128 => some 0x000a
  | .multiSta, 16 => some 0x0002
  | .multiSta, 4 => some 0x0006
  | .compressed, _ | .gcr, _ | .multiSta, _ => none
  | _, _ => some 0x0000

/-- The bitmap length of a fragment number : none is encoded in the other variants. -/
def lengthOfCode (variant : BlockAckVariant) (fragNumber : ℕ) : Option ℕ :=
  match variant, fragNumber with
  | .multiSta, 2 => some 16
  | .multiSta, 6 => some 4
  | _, 0 => some 8
  | _, 4 => some 32
  | _, 8 => some 64
  | _, 10 => some 128
  | _, _ => none

/-- `GetStartingSequenceControl`. -/
def getStartingSequenceControl : Option ℕ :=
  (lengthCode hdr.baType.variant (hdr.bitmapLen index)).map fun code =>
    (hdr.info index).startingSeq <<< 4 &&& 0xfff0 ||| code

/-- The bitmap gets the length that the fragment number encodes. -/
def setBitmapLen (seqControl : ℕ) : Option CtrlBAckResponseHeader :=
  match hdr.baType.variant with
  | .compressed | .gcr =>
    (lengthOfCode hdr.baType.variant (seqControl &&& 0x000f)).map fun bitmapLen =>
      hdr.setType ⟨hdr.baType.variant, [bitmapLen]⟩
  | .multiSta =>
    (lengthOfCode .multiSta (seqControl &&& 0x000f)).map fun bitmapLen =>
      { hdr with
        baType := ⟨.multiSta, hdr.baType.bitmapLen.set index bitmapLen⟩
        baInfo := hdr.baInfo.modify index fun info =>
          { info with bitmap := List.replicate bitmapLen 0 } }
  | _ => some hdr

/-- `SetStartingSequenceControl`. -/
def setStartingSequenceControl (seqControl : ℕ) : Option CtrlBAckResponseHeader :=
  (hdr.setBitmapLen index seqControl).map fun hdr' =>
    hdr'.setStartingSequence index (seqControl >>> 4 &&& 0x0fff)

/-- `WriteTo` of an address. -/
def writeAddress (address : Mac48Address) : List UInt8 :=
  address.address.toList

/-- `ReadFrom` of an address. -/
def readAddress (bytes : List UInt8) : Option (Mac48Address × List UInt8) :=
  match bytes with
  | b₀ :: b₁ :: b₂ :: b₃ :: b₄ :: b₅ :: rest => some (⟨#v[b₀, b₁, b₂, b₃, b₄, b₅]⟩, rest)
  | _ => none

/-- `GetSerializedSize`. -/
def getSerializedSize : Option ℕ :=
  match hdr.baType.variant with
  | .basic | .compressed | .extendedCompressed => some (2 + (2 + hdr.bitmapLen 0))
  | .multiTid => some (2 + (2 + 2 + 8) * (hdr.tidInfo + 1))
  | .gcr => some (2 + (2 + 6 + hdr.bitmapLen 0))
  | .multiSta => some (2 + (hdr.baType.bitmapLen.map fun bitmapLen =>
      2 + (if 0 < bitmapLen then 2 else 0) + bitmapLen).sum)

/-- One Per AID TID Info subfield of a Multi-STA BlockAck. -/
def serializePerAidTidInfo : Option (List UInt8) :=
  let info := hdr.info index
  if hdr.getAid11 index = 2045 then
    some (writeU16 info.aidTidInfo ++ [0, 0, 0, 0] ++ writeAddress info.address)
  else if info.bitmap = [] then some (writeU16 info.aidTidInfo)
  else (hdr.getStartingSequenceControl index).map fun control =>
    writeU16 info.aidTidInfo ++ writeU16 control ++ info.bitmap

/-- What follows the BA Control field. -/
def serializeBaInfo : Option (List UInt8) :=
  match hdr.baType.variant with
  | .basic | .compressed | .extendedCompressed =>
    (hdr.getStartingSequenceControl 0).map fun control =>
      writeU16 control ++ (hdr.info 0).bitmap
  | .gcr =>
    (hdr.getStartingSequenceControl 0).map fun control =>
      writeU16 control ++ (writeAddress (hdr.info 0).address ++ (hdr.info 0).bitmap)
  | .multiSta =>
    ((List.range hdr.baInfo.length).mapM hdr.serializePerAidTidInfo).map List.flatten
  | .multiTid => none

/-- `Serialize`. -/
def serialize : Option (List UInt8) :=
  hdr.serializeBaInfo.map fun baInfo => writeU16 hdr.getBaControl ++ baInfo

/-- `DeserializeBitmap`. -/
def deserializeBitmap (bytes : List UInt8) : Option (CtrlBAckResponseHeader × List UInt8) :=
  (readBytes (hdr.bitmapLen index) bytes).map fun (bitmap, rest) =>
    (hdr.modifyInfo index fun info => { info with bitmap := bitmap }, rest)

/-- One iteration of the loop over the Per AID TID Info subfields. -/
def deserializePerAidTidInfo (bytes : List UInt8) :
    Option (CtrlBAckResponseHeader × List UInt8) := do
  let (aidTidInfo, bytes) ← readU16 bytes
  let hdr : CtrlBAckResponseHeader :=
    { hdr with
      baType := ⟨hdr.baType.variant, hdr.baType.bitmapLen ++ [0]⟩
      baInfo := hdr.baInfo ++ [{ aidTidInfo := aidTidInfo }] }
  if hdr.getAid11 index = 2045 then
    let (_, bytes) ← readBytes 4 bytes
    let (address, bytes) ← readAddress bytes
    return ({ hdr.modifyInfo index fun info => { info with address := address } with
      baType := ⟨hdr.baType.variant, hdr.baType.bitmapLen.set index 8⟩ }, bytes)
  else if hdr.getAckType index = false ∧ hdr.getTidInfo index < 8 then
    let (control, bytes) ← readU16 bytes
    let hdr ← hdr.setStartingSequenceControl index control
    hdr.deserializeBitmap index bytes
  else return (hdr, bytes)

/-- The loop over the Per AID TID Info subfields, each of which has two bytes at least. -/
def deserializeMultiSta : ℕ → ℕ → CtrlBAckResponseHeader → List UInt8 →
    Option (CtrlBAckResponseHeader × List UInt8)
  | _, _, hdr, [] => some (hdr, [])
  | 0, _, _, _ => none
  | fuel + 1, index, hdr, bytes => do
    let (hdr, bytes) ← hdr.deserializePerAidTidInfo index bytes
    deserializeMultiSta fuel (index + 1) hdr bytes

/-- Reads what follows the BA Control field. -/
def deserializeBaInfo (bytes : List UInt8) : Option (CtrlBAckResponseHeader × List UInt8) :=
  match hdr.baType.variant with
  | .basic | .compressed | .extendedCompressed => do
    let (control, bytes) ← readU16 bytes
    let hdr ← hdr.setStartingSequenceControl 0 control
    hdr.deserializeBitmap 0 bytes
  | .gcr => do
    let (control, bytes) ← readU16 bytes
    let hdr ← hdr.setStartingSequenceControl 0 control
    let (address, bytes) ← readAddress bytes
    (hdr.modifyInfo 0 fun info => { info with address := address }).deserializeBitmap 0 bytes
  | .multiSta => deserializeMultiSta bytes.length 0 hdr bytes
  | .multiTid => none

/-- `Deserialize` : the header and the number of bytes read. -/
def deserialize (start : List UInt8) : Option (CtrlBAckResponseHeader × ℕ) := do
  let (ba, bytes) ← readU16 start
  let hdr ← hdr.setBaControl ba
  let (hdr, bytes) ← hdr.deserializeBaInfo bytes
  return (hdr, start.length - bytes.length)

end CtrlBAckResponseHeader

/-! ## The acknowledgment of a recipient -/

/-- `BlockAckAgreement`, with the scoreboard of the recipient. An agreement as recipient is
created with HT support, and a scoreboard of the size of the buffer. -/
structure RecipientAgreement where
  tid : Fin 16
  bufferSize : ℕ
  gcrGroupAddress : Option Mac48Address
  htSupported : Bool
  scoreboard : BlockAckWindow
  htSupported_eq : htSupported = true
  winSize_eq : scoreboard.getWinSize = bufferSize
  bufferSize_pos : 0 < bufferSize
  bufferSize_le : bufferSize ≤ 1024

namespace RecipientAgreement

variable (a : RecipientAgreement)

/-- The lengths of the bitmap, in bits. -/
def lengths : List ℕ :=
  [64, 256, 512, 1024]

/-- `GetBlockAckType`. -/
def getBlockAckType : Option BlockAckType :=
  if a.htSupported then
    (lengths.find? fun length => a.bufferSize ≤ length).map fun length =>
      ⟨if a.gcrGroupAddress.isSome then .gcr else .compressed, [length / 8]⟩
  else some BlockAckVariant.basic.type

/-- The loop of `FillBlockAckBitmap`, over distances from the start of the window. -/
def setReceivedPackets (ssn index : ℕ) :
    List ℕ → CtrlBAckResponseHeader → Option CtrlBAckResponseHeader
  | [], blockAckHeader => some blockAckHeader
  | i :: is, blockAckHeader =>
    if a.scoreboard.getAt i then
      (blockAckHeader.setReceivedPacket index ((ssn + i) % seqnoSpaceSize)).bind
        (setReceivedPackets ssn index is)
    else setReceivedPackets ssn index is blockAckHeader

/-- `FillBlockAckBitmap`. -/
def fillBlockAckBitmap (blockAckHeader : CtrlBAckResponseHeader) (index : ℕ) :
    Option CtrlBAckResponseHeader :=
  match blockAckHeader.baType.variant with
  | .basic | .multiTid => none
  | .compressed | .extendedCompressed | .gcr | .multiSta =>
    a.setReceivedPackets a.scoreboard.winStart index (List.range a.scoreboard.getWinSize)
      ((blockAckHeader.setStartingSequence index a.scoreboard.winStart).resetBitmap index)

/-- The header that `SendBlockAck` builds. -/
def sendBlockAck (gcrGroupAddr : Option Mac48Address) : Option CtrlBAckResponseHeader := do
  let type ← a.getBlockAckType
  let blockAck := CtrlBAckResponseHeader.init.setType type
  let blockAck ← match gcrGroupAddr with
    | some address => blockAck.setGcrGroupAddress address
    | none => some blockAck
  a.fillBlockAckBitmap (blockAck.setTidInfo 0 a.tid) 0

end RecipientAgreement

end Ns3Pedca
