import Ns3Pedca.Internet.SequenceNumber
import Ns3Pedca.Network.Packet

/-!
# The receive buffer of TCP

`TcpRxBuffer` keeps the segments that have arrived and not been read. Its map has an entry
for every block of bytes, under the sequence number of the first one, in the order of these
numbers. `add` cuts what is already there off both ends of a segment, and drops the blocks
that lie within it. `extract` reads from the front.

An `NS_ASSERT` is not part of an optimized build and is left out. The list of SACK blocks is
only written here and is left out.
-/

namespace Ns3Pedca

/-- `TcpRxBuffer`. -/
structure TcpRxBuffer where
  nextRxSeq : SequenceNumber32
  finSeq : SequenceNumber32 := ⟨0⟩
  gotFin : Bool := false
  size : UInt32 := 0
  maxBuffer : UInt32 := 32768
  availBytes : UInt32 := 0
  data : List (SequenceNumber32 × Packet) := []
  deriving DecidableEq

namespace TcpRxBuffer

open Packet (getSize createFragment)

/-- The map after `m_data[seq] = p`. -/
def assign (seq : SequenceNumber32) (p : Packet) :
    List (SequenceNumber32 × Packet) → List (SequenceNumber32 × Packet)
  | [] => [(seq, p)]
  | i :: data =>
    if seq < i.1 then (seq, p) :: i :: data
    else if i.1 < seq then i :: assign seq p data
    else (seq, p) :: data

/-- The variables of `Add` after its first loop. -/
structure Trimmed where
  data : List (SequenceNumber32 × Packet)
  headSeq : SequenceNumber32
  tailSeq : SequenceNumber32
  size : UInt32

/-- The first loop of `Add` : overlapped bytes are removed from the segment. -/
def trim (headSeq tailSeq : SequenceNumber32) (size : UInt32) :
    List (SequenceNumber32 × Packet) → Trimmed
  | [] => ⟨[], headSeq, tailSeq, size⟩
  | i :: data =>
    if i.1 ≤ tailSeq then
      let lastByteSeq := i.1 + getSize i.2
      if headSeq < lastByteSeq then
        if headSeq < i.1 ∧ lastByteSeq < tailSeq then
          trim headSeq tailSeq (size - getSize i.2) data
        else
          let t := trim (if i.1 ≤ headSeq then lastByteSeq else headSeq)
            (if tailSeq ≤ lastByteSeq then i.1 else tailSeq) size data
          { t with data := i :: t.data }
      else
        let t := trim headSeq tailSeq size data
        { t with data := i :: t.data }
    else ⟨i :: data, headSeq, tailSeq, size⟩

/-- The second loop of `Add`, with `m_nextRxSeq` and `m_availBytes`. -/
def advance (nextRxSeq : SequenceNumber32) (availBytes : UInt32) :
    List (SequenceNumber32 × Packet) → SequenceNumber32 × UInt32
  | [] => (nextRxSeq, availBytes)
  | i :: data =>
    if i.1 < nextRxSeq then advance nextRxSeq availBytes data
    else if nextRxSeq < i.1 then (nextRxSeq, availBytes)
    else advance (i.1 + getSize i.2) (availBytes + getSize i.2) data

variable (b : TcpRxBuffer)

/-- Where `Add` begins to store a segment with the number `seq`. -/
def headOf (seq : SequenceNumber32) : SequenceNumber32 :=
  if seq < b.nextRxSeq then b.nextRxSeq else seq

/-- The head and the tail of a segment, trimmed to fit the receive window. -/
def fit (headSeq tailSeq : SequenceNumber32) : SequenceNumber32 × SequenceNumber32 :=
  match b.data with
  | [] => (headSeq, tailSeq)
  | i :: _ =>
    let maxSeq := i.1 + b.maxBuffer
    let tailSeq := if maxSeq < tailSeq then maxSeq else tailSeq
    (if tailSeq < headSeq then tailSeq else headSeq, tailSeq)

/-- The FIN is accounted for once all bytes before it are there. -/
def passFin : TcpRxBuffer :=
  if b.gotFin ∧ b.nextRxSeq = b.finSeq then { b with nextRxSeq := b.nextRxSeq + (1 : UInt32) }
  else b

/-- `Add`. -/
def add (p : Packet) (seq : SequenceNumber32) : Bool × TcpRxBuffer :=
  let ends := b.fit (b.headOf seq) (seq + getSize p)
  let t := trim ends.1 ends.2 b.size b.data
  if t.tailSeq ≤ t.headSeq then (false, { b with data := t.data, size := t.size })
  else
    let p := createFragment p (t.headSeq - seq) (t.tailSeq - t.headSeq)
    let data := assign t.headSeq p t.data
    let next := advance b.nextRxSeq b.availBytes data
    (true, passFin { b with
      data := data, size := t.size + getSize p, nextRxSeq := next.1, availBytes := next.2 })

/-- `SetFinSequence`. -/
def setFinSequence (s : SequenceNumber32) : TcpRxBuffer :=
  passFin { b with gotFin := true, finSeq := s }

/-- The loop of `Extract` : the bytes of `outPkt`, and the map. -/
def takeOut : UInt32 → List (SequenceNumber32 × Packet) →
    Option (Packet × List (SequenceNumber32 × Packet))
  | extractSize, [] => if extractSize = 0 then some ([], []) else none
  | extractSize, i :: data =>
    if extractSize = 0 then some ([], i :: data)
    else if getSize i.2 ≤ extractSize then
      (takeOut (extractSize - getSize i.2) data).map fun out => (i.2 ++ out.1, out.2)
    else some (createFragment i.2 0 extractSize,
      assign (i.1 + extractSize) (createFragment i.2 extractSize (getSize i.2 - extractSize)) data)

/-- `Extract`, with an empty packet for the null pointer. `none` : the map ran empty. -/
def extract (maxSize : UInt32) : Option (Packet × TcpRxBuffer) :=
  let extractSize := min maxSize b.availBytes
  (takeOut extractSize b.data).map fun out =>
    (out.1, { b with
      data := out.2, size := b.size - extractSize, availBytes := b.availBytes - extractSize })

end TcpRxBuffer

end Ns3Pedca
