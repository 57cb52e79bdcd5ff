import Ns3Pedca.Runs
import Ns3Pedca.Wifi.WifiMacHeader

/-!
# The middle of the transmitting MAC

`MacTxMiddle` numbers MPDUs : QoS data that is not broadcast by receiver and TID, the rest
with one common counter. All links and ACs of a MAC share it. The frame exchange managers
take numbers from it and, when the protection of MPDUs that were never transmitted has failed,
give them back : `ReleaseSequenceNumbers`, which the HT frame exchange manager overrides for
MPDUs under a block ack agreement.

`numbered` tells when an MPDU was numbered, counted by space, for as long as the MPDU holds
its number. A fragment holds it also after a release, because it is not numbered again.
-/

namespace Ns3Pedca

/-- The spaces of sequence numbers. -/
inductive SequenceSpace
  | qos (address : Mac48Address) (tid : Fin 16)
  | common
  deriving DecidableEq

/-- The space that the number of an MPDU is taken from. -/
def WifiMacHeader.sequenceSpace (hdr : WifiMacHeader) : SequenceSpace :=
  match hdr.qosControl with
  | some qos => if hdr.addr1.isBroadcast then .common else .qos hdr.addr1 qos.qosTid
  | none => .common

/-- An MPDU to be transmitted, with the header of its original. -/
structure TxMpdu where
  header : WifiMacHeader
  seqNoAssigned : Bool := false
  isInFlight : Bool := false
  /-- When it was given the number that it holds. -/
  numbered : Option ℕ := none

/-- `MacTxMiddle`, with the MPDUs `ι` of the MAC. A counter that is not in the map of the QoS
counters yet is `0`. -/
structure MacTxMiddle (ι : Type*) where
  mpdu : ι → TxMpdu
  sequence : SequenceSpace → SeqNo
  /-- How many numbers were given from a space. -/
  numberings : SequenceSpace → ℕ

namespace MacTxMiddle

variable {ι : Type*} [DecidableEq ι] (tx : MacTxMiddle ι) (m : ι)

/-- The space of an MPDU. -/
def space : SequenceSpace :=
  (tx.mpdu m).header.sequenceSpace

/-- An MPDU is changed. -/
def modify (f : TxMpdu → TxMpdu) : MacTxMiddle ι :=
  { tx with mpdu := Function.update tx.mpdu m (f (tx.mpdu m)) }

@[simp] theorem mpdu_modify_self (f : TxMpdu → TxMpdu) :
    (tx.modify m f).mpdu m = f (tx.mpdu m) :=
  Function.update_self ..

theorem mpdu_modify_of_ne (f : TxMpdu → TxMpdu) {x : ι} (h : x ≠ m) :
    (tx.modify m f).mpdu x = tx.mpdu x :=
  Function.update_of_ne h ..

/-- `PeekNextSequenceNumberFor`. -/
def peekNextSequenceNumberFor : SeqNo :=
  tx.sequence (tx.space m)

/-- `SetSequenceNumberFor`. -/
def setSequenceNumberFor : MacTxMiddle ι :=
  { tx with
    sequence := Function.update tx.sequence (tx.space m) (tx.mpdu m).header.sequenceNumber }

/-- The number returned by `GetNextSequenceNumberFor` is set in the header, by `AssignSeqNo` if
`assigned`. -/
def number (assigned : Bool) : MacTxMiddle ι where
  mpdu := Function.update tx.mpdu m
    { tx.mpdu m with
      header := { (tx.mpdu m).header with sequenceNumber := tx.peekNextSequenceNumberFor m }
      seqNoAssigned := assigned || (tx.mpdu m).seqNoAssigned
      numbered := some (tx.numberings (tx.space m)) }
  sequence := Function.update tx.sequence (tx.space m)
    (.ofNat (tx.peekNextSequenceNumberFor m + 1))
  numberings := Function.update tx.numberings (tx.space m) (tx.numberings (tx.space m) + 1)

theorem mpdu_number_self (assigned : Bool) : (tx.number m assigned).mpdu m =
    { tx.mpdu m with
      header := { (tx.mpdu m).header with sequenceNumber := tx.peekNextSequenceNumberFor m }
      seqNoAssigned := assigned || (tx.mpdu m).seqNoAssigned
      numbered := some (tx.numberings (tx.space m)) } :=
  Function.update_self ..

theorem mpdu_number_of_ne (assigned : Bool) {x : ι} (h : x ≠ m) :
    (tx.number m assigned).mpdu x = tx.mpdu x :=
  Function.update_of_ne h ..

/-- `QosTxop::AssignSequenceNumber`. -/
def assignSequenceNumber : MacTxMiddle ι :=
  if !(tx.mpdu m).header.isFragment && !(tx.mpdu m).seqNoAssigned then tx.number m true else tx

/-- The numbering in `StartTransmission` of a station without QoS. -/
def startTransmission : MacTxMiddle ι :=
  if !(tx.mpdu m).header.isFragment && !(tx.mpdu m).header.isRetry then tx.number m true else tx

/-- The numbering in `SendAddBaRequest`. -/
def sendAddBaRequest : MacTxMiddle ι :=
  tx.number m false

/-- `UnassignSeqNo`, then `SetSequenceNumberFor`. -/
def release : MacTxMiddle ι :=
  (tx.setSequenceNumberFor m).modify m fun mpdu =>
    { mpdu with
      seqNoAssigned := false
      numbered := if mpdu.header.isFragment then mpdu.numbered else none }

/-- The test of `FrameExchangeManager::ReleaseSequenceNumbers`. -/
def isReleased : Bool :=
  !(tx.mpdu m).header.isRetry && !(tx.mpdu m).isInFlight

/-- The test of the override, which asks in addition that no number was given since. -/
def isReleasedHt : Bool :=
  (tx.mpdu m).header.qosControl.isSome && tx.isReleased m &&
    SeqNo.ofNat ((tx.mpdu m).header.sequenceNumber + 1) = tx.peekNextSequenceNumberFor m

/-- The test that applies. -/
def releaseTest (agreementEstablished : Bool) : MacTxMiddle ι → ι → Bool :=
  if agreementEstablished then isReleasedHt else isReleased

/-- One MPDU is released, if it passes the test. -/
def releaseIf (agreementEstablished : Bool) : MacTxMiddle ι :=
  if releaseTest agreementEstablished tx m then tx.release m else tx

/-- The MPDUs of a PSDU in the order in which they are looked at : the override takes the last
one first, and without an agreement there is a single MPDU. -/
def releaseOrder (agreementEstablished : Bool) (psdu : List ι) : List ι :=
  if agreementEstablished then psdu.reverse else psdu.take 1

/-- `ReleaseSequenceNumbers`. -/
def releaseSequenceNumbers (agreementEstablished : Bool) (psdu : List ι) : MacTxMiddle ι :=
  Runs.run (fun tx m => tx.releaseIf m agreementEstablished) tx
    (releaseOrder agreementEstablished psdu)

end MacTxMiddle

/-- What happens to the MPDUs of a MAC, on any link. -/
inductive SequenceEvent (ι : Type*)
  | assignSequenceNumber (m : ι)
  | startTransmission (m : ι)
  | sendAddBaRequest (m : ι)
  | releaseSequenceNumbers (agreementEstablished : Bool) (psdu : List ι)
  /-- The Retry bit and the links an MPDU is in flight on change. -/
  | setInfo (m : ι) (isRetry isInFlight : Bool)
  /-- A new MPDU, for a fragment with the same number, replaces the MPDU. -/
  | replace (m : ι) (fragmentNumber : Fin 16) (isMoreFragments : Bool)
  /-- The MPDU is acknowledged or dropped. -/
  | discard (m : ι)

namespace MacTxMiddle

variable {ι : Type*} [DecidableEq ι]

/-- No MPDU has a number yet. -/
def init (header : ι → WifiMacHeader) : MacTxMiddle ι where
  mpdu m := { header := header m }
  sequence _ := 0
  numberings _ := 0

/-- One step of the MAC. -/
def step (tx : MacTxMiddle ι) : SequenceEvent ι → MacTxMiddle ι
  | .assignSequenceNumber m => tx.assignSequenceNumber m
  | .startTransmission m => tx.startTransmission m
  | .sendAddBaRequest m => tx.sendAddBaRequest m
  | .releaseSequenceNumbers agreementEstablished psdu =>
    tx.releaseSequenceNumbers agreementEstablished psdu
  | .setInfo m isRetry isInFlight => tx.modify m fun mpdu =>
    { mpdu with header := { mpdu.header with isRetry := isRetry }, isInFlight := isInFlight }
  | .replace m fragmentNumber isMoreFragments => tx.modify m fun mpdu =>
    { mpdu with
      header :=
        { mpdu.header with fragmentNumber := fragmentNumber, isMoreFragments := isMoreFragments }
      seqNoAssigned := false }
  | .discard m => tx.modify m fun mpdu => { mpdu with numbered := none }

end MacTxMiddle

end Ns3Pedca
