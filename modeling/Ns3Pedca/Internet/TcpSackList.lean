import Ns3Pedca.Internet.TcpRxBlocks
import Ns3Pedca.Ranges

/-!
# The SACK list of the receiver

`TcpRxBuffer` lists blocks of what it holds behind the next sequence number it expects, for the
SACK option. A stored segment is joined to the listed blocks that touch it, but when the segment
has swallowed blocks of the buffer, the list may still show them, and then blocks overlap
(`SackHistory.Fits` rules this out).
-/

namespace Ns3Pedca

open Runs Blocks Ranges

/-- `SackBlock` : the first sequence number of a block, and the one behind it. -/
abbrev SackBlock :=
  SequenceNumber32 × SequenceNumber32

/-- `TcpRxBuffer` with `m_sackList`. -/
structure SackRxBuffer where
  buf : TcpRxBuffer
  sackList : List SackBlock := []

namespace SackRxBuffer

open TcpRxBuffer

/-- The list of `UpdateSackList` before it is cut to four blocks. -/
def mergeSackList (head tail : SequenceNumber32) (sackList : List SackBlock) : List SackBlock :=
  joinAll sackList.length (head, tail) sackList

/-- `UpdateSackList`. -/
def updateSackList (head tail : SequenceNumber32) (sackList : List SackBlock) : List SackBlock :=
  let sackList := mergeSackList head tail sackList
  if 4 < sackList.length then sackList.dropLast else sackList

/-- `ClearSackList`. -/
def clearSackList (seq : SequenceNumber32) (sackList : List SackBlock) : List SackBlock :=
  sackList.filter fun block => ¬ block.2 ≤ seq

/-- What the second loop of `Add` does to the SACK list. -/
def clearAlong (nextRxSeq : SequenceNumber32) :
    List (SequenceNumber32 × Packet) → List SackBlock → List SackBlock
  | [], sackList => sackList
  | i :: data, sackList =>
    if i.1 < nextRxSeq then clearAlong nextRxSeq data sackList
    else if nextRxSeq < i.1 then sackList
    else
      let nextRxSeq := i.1 + Packet.getSize i.2
      clearAlong nextRxSeq data (clearSackList nextRxSeq sackList)

/-- The variables of `Add` after its first loop. -/
def trimmed (b : TcpRxBuffer) (p : Packet) (seq : SequenceNumber32) : Trimmed :=
  let ends := b.fit (b.headOf seq) (seq + Packet.getSize p)
  trim ends.1 ends.2 b.size b.data

/-- The range of `Add` that is stored behind a gap, if any. -/
def outOfOrder (b : TcpRxBuffer) (p : Packet) (seq : SequenceNumber32) : Option SackBlock :=
  let t := trimmed b p seq
  if t.tailSeq ≤ t.headSeq then none
  else if b.nextRxSeq < t.headSeq then some (t.headSeq, t.tailSeq)
  else none

/-- `Add`. -/
def add (s : SackRxBuffer) (p : Packet) (seq : SequenceNumber32) : SackRxBuffer :=
  let t := trimmed s.buf p seq
  let buf := (s.buf.add p seq).2
  if t.tailSeq ≤ t.headSeq then { s with buf := buf }
  else
    let sackList :=
      if s.buf.nextRxSeq < t.headSeq then updateSackList t.headSeq t.tailSeq s.sackList
      else s.sackList
    { s with buf := buf, sackList := clearAlong s.buf.nextRxSeq buf.data sackList }

end SackRxBuffer

/-- The buffer, the blocks that have been taken off a full list, and what the last `Add` stored
behind a gap. -/
structure SackHistory where
  rx : SackRxBuffer
  discarded : List SackBlock := []
  stored : Option SackBlock := none

/-- A call on the buffer. -/
inductive SackCall
  /-- `Add`. -/
  | add (p : Packet) (seq : SequenceNumber32)
  /-- `Extract`. -/
  | extract (maxSize : UInt32)

namespace SackHistory

open TcpRxBuffer SackRxBuffer

/-- The buffer before the first segment. -/
def start (next : SequenceNumber32) (maxBuffer : UInt32) : SackHistory :=
  ⟨⟨{ nextRxSeq := next, maxBuffer := maxBuffer }, []⟩, [], none⟩

/-- The block that does not fit into the list when a range is added. -/
def lastOf (range : Option SackBlock) (sackList : List SackBlock) : List SackBlock :=
  match range with
  | none => []
  | some (head, tail) => (mergeSackList head tail sackList).drop 4

/-- A call. A discarded block is forgotten when all before it has been received. -/
def step (s : SackHistory) : SackCall → SackHistory
  | .add p seq =>
    let stored := outOfOrder s.rx.buf p seq
    let rx := s.rx.add p seq
    ⟨rx, clearSackList rx.buf.nextRxSeq (s.discarded ++ lastOf stored s.rx.sackList), stored⟩
  | .extract maxSize =>
    match s.rx.buf.extract maxSize with
    | some (_, buf) => { s with rx := { s.rx with buf := buf } }
    | none => s

/-- The buffer holds the byte `n`. -/
def Held (b : TcpRxBuffer) (n : SequenceNumber32) : Prop :=
  ∃ i ∈ b.data, ∃ j < i.2.length, i.1 + UInt32.ofNat j = n

instance (b : TcpRxBuffer) (n : SequenceNumber32) : Decidable (Held b n) :=
  inferInstanceAs (Decidable (∃ i ∈ b.data, ∃ j < i.2.length, i.1 + UInt32.ofNat j = n))

/-- `n` is in the block. -/
def In (n : SequenceNumber32) (a : SackBlock) : Prop :=
  a.1 ≤ n ∧ n < a.2

/-- What is promised of the SACK list. -/
structure Advertised (s : SackHistory) : Prop where
  above : ∀ a ∈ s.rx.sackList, s.rx.buf.nextRxSeq < a.1 ∧ a.1 < a.2
  held : ∀ a ∈ s.rx.sackList, ∀ n, In n a → Held s.rx.buf n
  length_le : s.rx.sackList.length ≤ 4
  /-- The blocks are disjoint and not adjacent. -/
  apart : s.rx.sackList.Pairwise fun a b => a.2 < b.1 ∨ b.2 < a.1
  /-- The first block has what was stored last. The bytes beside it are not held, or are in a
  discarded block. -/
  first : ∀ range ∈ s.stored, ∃ a ∈ s.rx.sackList.head?, (∀ n, In n range → In n a) ∧
    ∀ n, n = a.2 ∨ n + (1 : UInt32) = a.1 → Held s.rx.buf n → ∃ d ∈ s.discarded, In n d

/-- The segment, the next number, the bytes held and the end of the receive window lie in one
half of the number space, which begins at one of these numbers. -/
def InReach (b : TcpRxBuffer) (p : Packet) (seq : SequenceNumber32) : Prop :=
  ∃ w ∈ seq :: b.nextRxSeq :: b.data.map Prod.fst,
    SequenceNumber32.offset w seq + p.length < 2 ^ 31 ∧
    SequenceNumber32.offset w b.nextRxSeq < 2 ^ 31 ∧
    (∀ i ∈ b.data, SequenceNumber32.offset w i.1 + i.2.length < 2 ^ 31) ∧
    ∀ i ∈ b.data.head?, SequenceNumber32.offset w i.1 + b.maxBuffer.toNat < 2 ^ 31

/-- A block that is held has bytes of the segment on both sides, within the window. Those before
it are not all held. -/
def Swallows (b : TcpRxBuffer) (p : Packet) (seq : SequenceNumber32)
    (i : SequenceNumber32 × Packet) : Prop :=
  seq < i.1 ∧ i.1 + Packet.getSize i.2 < seq + Packet.getSize p ∧
    (∀ f ∈ b.data.head?, i.1 + Packet.getSize i.2 < f.1 + b.maxBuffer) ∧
    ∃ j < (i.1 - seq).toNat, ¬ Held b (seq + UInt32.ofNat j)

/-- A segment is in reach, and if it comes behind a gap, it swallows nothing that is listed. -/
def Fits (s : SackHistory) : SackCall → Prop
  | .add p seq => InReach s.rx.buf p seq ∧ (s.rx.buf.nextRxSeq < seq →
      ∀ i ∈ s.rx.buf.data, Swallows s.rx.buf p seq i →
        ∀ a ∈ s.rx.sackList, ¬ (i.1 < a.2 ∧ a.1 < i.1 + Packet.getSize i.2))
  | .extract _ => True

instance (b : TcpRxBuffer) (p : Packet) (seq : SequenceNumber32) :
    Decidable (InReach b p seq) := by
  unfold InReach
  infer_instance

instance (b : TcpRxBuffer) (p : Packet) (seq : SequenceNumber32)
    (i : SequenceNumber32 × Packet) : Decidable (Swallows b p seq i) := by
  unfold Swallows
  infer_instance

instance (s : SackHistory) (c : SackCall) : Decidable (s.Fits c) := by
  cases c
  · unfold Fits
    infer_instance
  · unfold Fits
    infer_instance

end SackHistory

end Ns3Pedca
