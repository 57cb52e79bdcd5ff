import Ns3Pedca.Wifi.BlockAckTransport

/-!
# Bytes of a MAC header

`MacHeader` has all the fields of `WifiMacHeader`, and `serialize` writes those that the type of the
frame has. It writes `getSize` bytes (`length_serialize`), which only depends on the type and on
the ToDS and FromDS flags.
-/

namespace Ns3Pedca

open Bytes CtrlBAckResponseHeader

/-- The control frames that are made. -/
inductive CtlSubtype
  | trigger
  | backReq
  | backResp
  | psPoll
  | rts
  | cts
  | ack
  | cfEnd
  | cfEndAck
  deriving DecidableEq

/-- `SUBTYPE_CTL_*`. -/
def CtlSubtype.code : CtlSubtype → ℕ
  | .trigger => 2
  | .backReq => 8
  | .backResp => 9
  | .psPoll => 10
  | .rts => 11
  | .cts => 12
  | .ack => 13
  | .cfEnd => 14
  | .cfEndAck => 15

/-- `m_ctrlType`, and `m_ctrlSubtype` : bit 3 of the subtype of a data frame tells QoS frames, and
bit 2 frames without data. -/
inductive FrameType
  | mgt (subtype : Fin 16)
  | ctl (subtype : CtlSubtype)
  | data (subtype : Fin 16)
  deriving DecidableEq

namespace FrameType

/-- `WIFI_MAC_QOSDATA`. -/
def qosData : FrameType :=
  .data 8

/-- `WIFI_MAC_QOSDATA_NULL`. -/
def qosDataNull : FrameType :=
  .data 12

/-- `m_ctrlType`. -/
def code : FrameType → ℕ
  | mgt _ => 0
  | ctl _ => 1
  | data _ => 2

/-- `m_ctrlSubtype`. -/
def subtypeCode : FrameType → ℕ
  | mgt subtype => subtype
  | ctl subtype => subtype.code
  | data subtype => subtype

end FrameType

/-- `WifiMacHeader`. -/
structure MacHeader where
  frameType : FrameType
  isToDs : Bool := false
  isFromDs : Bool := false
  isMoreFragments : Bool := false
  isRetry : Bool := false
  isPowerManagement : Bool := false
  isMoreData : Bool := false
  wep : Bool := false
  order : Bool := false
  rawDuration : UInt16 := 0
  addr1 : Mac48Address := .station 0
  addr2 : Mac48Address := .station 0
  addr3 : Mac48Address := .station 0
  addr4 : Mac48Address := .station 0
  fragmentNumber : Fin 16 := 0
  sequenceNumber : UInt16 := 0
  qosTid : Fin 16 := 0
  qosEosp : Bool := false
  qosAckPolicy : Fin 4 := 0
  amsduPresent : Bool := false
  qosStuff : UInt8 := 0
  deriving DecidableEq

namespace MacHeader

variable (hdr : MacHeader)

/-- `WifiMacHeader{}`. -/
instance : Inhabited MacHeader :=
  ⟨{ frameType := .mgt 0 }⟩

/-- `IsQosData`. -/
def isQosData : Bool :=
  match hdr.frameType with
  | .data subtype => subtype.val &&& 0x08 ≠ 0
  | _ => false

/-- `HasData`. -/
def hasData : Bool :=
  match hdr.frameType with
  | .data subtype => subtype.val &&& 0x04 = 0
  | _ => false

/-- `IsQosAmsdu`. -/
def isQosAmsdu : Bool :=
  hdr.isQosData && hdr.amsduPresent

/-- `SetQosAmsdu`. -/
def setQosAmsdu : MacHeader :=
  { hdr with amsduPresent := true }

/-- `GetSize`, in bytes. -/
def getSize : ℕ :=
  match hdr.frameType with
  | .mgt _ => 2 + 2 + 6 + 6 + 6 + 2
  | .ctl .cts | .ctl .ack => 2 + 2 + 6
  | .ctl _ => 2 + 2 + 6 + 6
  | .data _ => 2 + 2 + 6 + 6 + 6 + 2 + (if hdr.isToDs && hdr.isFromDs then 6 else 0) +
      if hdr.isQosData then 2 else 0

/-- `GetFrameControl`. -/
def getFrameControl : ℕ :=
  hdr.frameType.code <<< 2 ||| hdr.frameType.subtypeCode <<< 4 ||| hdr.isToDs.toNat <<< 8 |||
    hdr.isFromDs.toNat <<< 9 ||| hdr.isMoreFragments.toNat <<< 10 ||| hdr.isRetry.toNat <<< 11 |||
    hdr.isPowerManagement.toNat <<< 12 ||| hdr.isMoreData.toNat <<< 13 ||| hdr.wep.toNat <<< 14 |||
    hdr.order.toNat <<< 15

/-- `GetSequenceControl`. -/
def getSequenceControl : ℕ :=
  hdr.sequenceNumber.toNat <<< 4 ||| hdr.fragmentNumber

/-- `GetQosControl`. -/
def getQosControl : ℕ :=
  hdr.qosTid ||| hdr.qosEosp.toNat <<< 4 ||| hdr.qosAckPolicy.val <<< 5 |||
    hdr.amsduPresent.toNat <<< 7 ||| hdr.qosStuff.toNat <<< 8

/-- What `Serialize` writes behind the first address. -/
def serializeRest : List UInt8 :=
  match hdr.frameType with
  | .mgt _ => writeAddress hdr.addr2 ++ writeAddress hdr.addr3 ++ writeU16 hdr.getSequenceControl
  | .ctl .cts | .ctl .ack => []
  | .ctl _ => writeAddress hdr.addr2
  | .data _ =>
      writeAddress hdr.addr2 ++ writeAddress hdr.addr3 ++ writeU16 hdr.getSequenceControl ++
      (if hdr.isToDs && hdr.isFromDs then writeAddress hdr.addr4 else []) ++
      if hdr.isQosData then writeU16 hdr.getQosControl else []

/-- `Serialize`. -/
def serialize : List UInt8 :=
  writeU16 hdr.getFrameControl ++ writeU16 hdr.rawDuration.toNat ++ writeAddress hdr.addr1 ++
    hdr.serializeRest

theorem length_serialize : hdr.serialize.length = hdr.getSize := by
  have hrest : 2 + 2 + 6 + hdr.serializeRest.length = hdr.getSize := by
    rw [serializeRest, getSize]
    cases hdr.frameType with
    | mgt => simp [length_writeAddress, length_writeU16]
    | ctl subtype => cases subtype <;> simp [length_writeAddress]
    | data =>
      simp only [List.length_append, length_writeAddress, length_writeU16]
      split_ifs <;> simp [length_writeAddress, length_writeU16]
  rw [← hrest, serialize]
  simp only [List.length_append, length_writeAddress, length_writeU16]

theorem getSize_le : hdr.getSize ≤ 32 := by
  rw [getSize]
  cases hdr.frameType with
  | mgt => simp
  | ctl subtype => cases subtype <;> simp
  | data =>
    dsimp only
    split_ifs <;> decide

@[simp] theorem getSize_setQosAmsdu : hdr.setQosAmsdu.getSize = hdr.getSize :=
  rfl

@[simp] theorem isQosData_setQosAmsdu : hdr.setQosAmsdu.isQosData = hdr.isQosData :=
  rfl

@[simp] theorem isQosAmsdu_setQosAmsdu : hdr.setQosAmsdu.isQosAmsdu = hdr.isQosData :=
  Bool.and_true _

end MacHeader

end Ns3Pedca
