import Ns3Pedca.ByteMemory

/-!
# Buffers

A `Buffer` is a view on a block of memory : data, an area of zeroes that has no memory of its own,
and data again. Its offsets count the zeroes, so the data after them lies before its offset in the
block. Copies of a buffer share the block. A block counts the buffers that refer to it and knows
the range in which one of them has been (`dirtyStart`, `dirtyEnd`). While other buffers refer to
the block, a buffer grows in place only at the ends of this range, else it moves to a new block.

A function takes the blocks and a buffer and returns both. `supply` stands for what `Create` returns
from the free list or the allocator : a block that is larger than asked for, with any bytes.
Offsets are natural numbers, but the sum in `RemoveAtStart` has 32 bits.
-/

namespace Ns3Pedca

open ByteMemory

/-- `Buffer::Data`. -/
structure BufferData where
  count : ℕ
  size : ℕ
  dirtyStart : ℕ
  dirtyEnd : ℕ
  bytes : ℕ → UInt8

/-- The blocks, by number, the number of the next one, and `g_recommendedStart`. -/
structure BufferHeap where
  data : ℕ → BufferData
  next : ℕ
  recommendedStart : ℕ

/-- A block that `Create` returns has `extra` bytes more than it was asked for. -/
structure SpareData where
  extra : ℕ
  bytes : ℕ → UInt8

/-- `Buffer`. -/
structure Buffer where
  data : ℕ
  maxZeroAreaStart : ℕ
  zeroAreaStart : ℕ
  zeroAreaEnd : ℕ
  start : ℕ
  stop : ℕ

namespace BufferHeap

/-- Before the first buffer. -/
def empty : BufferHeap where
  data := fun _ => ⟨0, 0, 0, 0, fun _ => 0⟩
  next := 0
  recommendedStart := 0

/-- The blocks with another block `d`. -/
def setData (h : BufferHeap) (d : ℕ) (x : BufferData) : BufferHeap :=
  { h with data := Function.update h.data d x }

/-- The blocks and one more. -/
def add (h : BufferHeap) (x : BufferData) : BufferHeap :=
  { h with data := Function.update h.data h.next x, next := h.next + 1 }

/-- `Create(reqSize)`. -/
def create (supply : ℕ → SpareData) (h : BufferHeap) (reqSize : ℕ) : BufferHeap :=
  h.add {
    count := 1
    size := reqSize + (supply h.next).extra
    dirtyStart := 0
    dirtyEnd := 0
    bytes := (supply h.next).bytes }

/-- One buffer more refers to the block `d`. -/
def retain (h : BufferHeap) (d : ℕ) : BufferHeap :=
  h.setData d { h.data d with count := (h.data d).count + 1 }

/-- One buffer less refers to the block `d`. -/
def release (h : BufferHeap) (d : ℕ) : BufferHeap :=
  h.setData d { h.data d with count := (h.data d).count - 1 }

/-- The new range of the block `d`. -/
def setDirty (h : BufferHeap) (d dirtyStart dirtyEnd : ℕ) : BufferHeap :=
  h.setData d { h.data d with dirtyStart := dirtyStart, dirtyEnd := dirtyEnd }

/-- `memcpy` into the block `d`. -/
def write (h : BufferHeap) (d offset : ℕ) (bs : List UInt8) : BufferHeap :=
  h.setData d { h.data d with bytes := writeAt (h.data d).bytes offset bs }

/-- The bytes of the block `d`. -/
def read (h : BufferHeap) (d offset n : ℕ) : List UInt8 :=
  readAt (h.data d).bytes offset n

variable (h : BufferHeap) (d e : ℕ) (x : BufferData)

@[simp] theorem setData_data : (h.setData d x).data e = if e = d then x else h.data e :=
  Function.update_apply h.data d x e

@[simp] theorem setData_next : (h.setData d x).next = h.next :=
  rfl

@[simp] theorem add_data : (h.add x).data e = if e = h.next then x else h.data e :=
  Function.update_apply h.data h.next x e

@[simp] theorem add_next : (h.add x).next = h.next + 1 :=
  rfl

end BufferHeap

namespace Buffer

variable (supply : ℕ → SpareData)

/-- `GetSize`. -/
def size (b : Buffer) : ℕ :=
  b.stop - b.start

/-- `GetInternalSize`. -/
def internalSize (b : Buffer) : ℕ :=
  (b.zeroAreaStart - b.start) + (b.stop - b.zeroAreaEnd)

/-- `GetInternalEnd`. -/
def internalEnd (b : Buffer) : ℕ :=
  b.stop - (b.zeroAreaEnd - b.zeroAreaStart)

/-- The largest offset of a zero area so far. -/
def noteZeroArea (b : Buffer) : Buffer :=
  { b with maxZeroAreaStart := max b.maxZeroAreaStart b.zeroAreaStart }

/-- `Initialize(zeroSize)`, the constructors. -/
def initialized (h : BufferHeap) (zeroSize : ℕ) : BufferHeap × Buffer :=
  let d := h.next
  let h := h.create supply 0
  let start := min (h.data d).size h.recommendedStart
  (h.setDirty d start (start + zeroSize),
    { data := d
      maxZeroAreaStart := start
      zeroAreaStart := start
      zeroAreaEnd := start + zeroSize
      start := start
      stop := start + zeroSize })

/-- The copy constructor. -/
def copy (h : BufferHeap) (o : Buffer) : BufferHeap × Buffer :=
  (h.retain o.data, { o with maxZeroAreaStart := o.zeroAreaStart })

/-- `operator=`. -/
def assign (h : BufferHeap) (b o : Buffer) : BufferHeap × Buffer :=
  let h := if b.data ≠ o.data then (h.release b.data).retain o.data else h
  ({ h with recommendedStart := max h.recommendedStart b.maxZeroAreaStart }, o)

/-- The destructor. -/
def destroy (h : BufferHeap) (b : Buffer) : BufferHeap :=
  BufferHeap.release { h with
    recommendedStart := max h.recommendedStart b.maxZeroAreaStart } b.data

/-- What `AddAtStart` and `AddAtEnd` do when the buffer moves : a new block with room for `n` bytes
more, and the data at `offset` of it. -/
def moveData (h : BufferHeap) (b : Buffer) (n offset : ℕ) : BufferHeap :=
  let new := h.next
  let h := h.create supply (b.internalSize + n)
  let h := h.write new offset (h.read b.data b.start b.internalSize)
  h.release b.data

/-- `AddAtStart(n)`. -/
def addAtStart (h : BufferHeap) (b : Buffer) (n : ℕ) : BufferHeap × Buffer :=
  let d := h.data b.data
  if n ≤ b.start ∧ ¬ (1 < d.count ∧ d.dirtyStart < b.start) then
    (h.setDirty b.data (b.start - n) d.dirtyEnd, noteZeroArea { b with start := b.start - n })
  else
    let b' : Buffer := { b with
      data := h.next
      zeroAreaStart := b.zeroAreaStart - b.start + n
      zeroAreaEnd := b.zeroAreaEnd - b.start + n
      stop := b.stop - b.start + n
      start := 0 }
    ((moveData supply h b n n).setDirty h.next b'.start b'.stop, noteZeroArea b')

/-- `AddAtEnd(n)`. -/
def addAtEnd (h : BufferHeap) (b : Buffer) (n : ℕ) : BufferHeap × Buffer :=
  let d := h.data b.data
  if b.internalEnd + n ≤ d.size ∧ ¬ (1 < d.count ∧ b.stop < d.dirtyEnd) then
    (h.setDirty b.data d.dirtyStart (b.stop + n), noteZeroArea { b with stop := b.stop + n })
  else
    let b' : Buffer := { b with
      data := h.next
      zeroAreaStart := b.zeroAreaStart - b.start
      zeroAreaEnd := b.zeroAreaEnd - b.start
      stop := b.stop - b.start + n
      start := 0 }
    ((moveData supply h b n 0).setDirty h.next b'.start b'.stop, noteZeroArea b')

/-- `Iterator::Write(buffer, size)` and `Iterator::WriteU8(data, len)`, at the offset `current`. -/
def iteratorWrite (h : BufferHeap) (b : Buffer) (current : ℕ) (bs : List UInt8) : BufferHeap :=
  h.write b.data
    (if current ≤ b.zeroAreaStart then current
    else current - (b.zeroAreaEnd - b.zeroAreaStart)) bs

/-- `AddAtStart`, and `Begin().Write` into the new bytes. -/
def addHeader (h : BufferHeap) (b : Buffer) (bs : List UInt8) : BufferHeap × Buffer :=
  let r := addAtStart supply h b bs.length
  (iteratorWrite r.1 r.2 r.2.start bs, r.2)

/-- `AddAtEnd`, and a write of an iterator that went back from `End()` into the new bytes. -/
def addTrailer (h : BufferHeap) (b : Buffer) (bs : List UInt8) : BufferHeap × Buffer :=
  let r := addAtEnd supply h b bs.length
  (iteratorWrite r.1 r.2 (r.2.stop - bs.length) bs, r.2)

/-- `RemoveAtStart(n)`. -/
def removeAtStart (b : Buffer) (n : ℕ) : Buffer :=
  let newStart := (b.start + n) % 2 ^ 32
  noteZeroArea <|
    if newStart ≤ b.zeroAreaStart then { b with start := newStart }
    else if newStart ≤ b.zeroAreaEnd then
      let delta := newStart - b.zeroAreaStart
      { b with
        start := b.zeroAreaStart
        zeroAreaEnd := b.zeroAreaEnd - delta
        stop := b.stop - delta }
    else if newStart ≤ b.stop then
      let zeroSize := b.zeroAreaEnd - b.zeroAreaStart
      { b with
        start := newStart - zeroSize
        stop := b.stop - zeroSize
        zeroAreaStart := newStart - zeroSize
        zeroAreaEnd := newStart - zeroSize }
    else
      let e := b.stop - (b.zeroAreaEnd - b.zeroAreaStart)
      { b with stop := e, start := e, zeroAreaEnd := e, zeroAreaStart := e }

/-- `RemoveAtEnd(n)`. -/
def removeAtEnd (b : Buffer) (n : ℕ) : Buffer :=
  let newEnd := b.stop - min n (b.stop - b.start)
  noteZeroArea <|
    if b.zeroAreaEnd < newEnd then { b with stop := newEnd }
    else if b.zeroAreaStart < newEnd then { b with stop := newEnd, zeroAreaEnd := newEnd }
    else if b.start < newEnd then
      { b with stop := newEnd, zeroAreaEnd := newEnd, zeroAreaStart := newEnd }
    else { b with stop := b.start, zeroAreaEnd := b.start, zeroAreaStart := b.start }

/-- `CreateFragment(start, length)`, for a fragment inside the buffer. -/
def createFragment (h : BufferHeap) (b : Buffer) (start length : ℕ) : BufferHeap × Buffer :=
  let r := copy h b
  (r.1, removeAtEnd (removeAtStart r.2 start) (b.size - (start + length)))

/-- `CreateFullCopy`. -/
def createFullCopy (h : BufferHeap) (b : Buffer) : BufferHeap × Buffer :=
  if b.zeroAreaEnd - b.zeroAreaStart ≠ 0 then
    let r := initialized supply h 0
    let r := addHeader supply r.1 r.2 (List.replicate (b.zeroAreaEnd - b.zeroAreaStart) 0)
    let r := addHeader supply r.1 r.2 (r.1.read b.data b.start (b.zeroAreaStart - b.start))
    addTrailer supply r.1 r.2 (r.1.read b.data b.zeroAreaStart (b.stop - b.zeroAreaEnd))
  else copy h b

/-- `*this = CreateFullCopy()`, with the destructor of the temporary buffer. -/
def becomeFullCopy (h : BufferHeap) (b : Buffer) : BufferHeap × Buffer :=
  let tmp := createFullCopy supply h b
  let r := assign tmp.1 b tmp.2
  (destroy r.1 tmp.2, r.2)

/-- `PeekData`, as far as it changes the buffer : `TransformIntoRealBuffer`. -/
def peekData (h : BufferHeap) (b : Buffer) : BufferHeap × Buffer :=
  becomeFullCopy supply h b

/-- The bytes that `Iterator::Write(start, end)` copies out of `o`, from the offset `current` to the
end. -/
def bytesFrom (h : BufferHeap) (o : Buffer) (current : ℕ) : List UInt8 :=
  let size := o.stop - current
  let toCopy := if current ≤ o.zeroAreaStart then min size (o.zeroAreaStart - current) else 0
  let first := h.read o.data current toCopy
  let current := current + toCopy
  let size := size - toCopy
  let toCopy := if current ≤ o.zeroAreaEnd then min size (o.zeroAreaEnd - current) else 0
  let zeroes := List.replicate toCopy 0
  let current := current + toCopy
  let size := size - toCopy
  let toCopy := min size (o.stop - current)
  first ++ zeroes ++ h.read o.data (current - (o.zeroAreaEnd - o.zeroAreaStart)) toCopy

/-- `Iterator::Write(start, end)` at the offset `dst` of `b`, for the bytes of `o` from the offset
`src` on. It does not allow for the zero area of `b`. Its assertion is that the blocks differ. -/
def iteratorCopy (h : BufferHeap) (b : Buffer) (dst : ℕ) (o : Buffer) (src : ℕ) :
    Option BufferHeap :=
  if b.data = o.data then none else some (h.write b.data dst (bytesFrom h o src))

/-- The condition of the optimization in `AddAtEnd(o)`. -/
def adjacentZeroAreas (h : BufferHeap) (b o : Buffer) : Bool :=
  (h.data b.data).count = 1 ∧ (b.stop = b.zeroAreaEnd ∨ b.zeroAreaStart = b.zeroAreaEnd) ∧
    b.stop = (h.data b.data).dirtyEnd ∧ o.start = o.zeroAreaStart ∧
    0 < o.zeroAreaEnd - o.zeroAreaStart

/-- `AddAtEnd(o)` on `b`, for another buffer `o`. -/
def append (h : BufferHeap) (b o : Buffer) : Option (BufferHeap × Buffer) :=
  if adjacentZeroAreas h b o then do
    let zeroSize := o.zeroAreaEnd - o.zeroAreaStart
    let zeroAreaStart := if b.zeroAreaStart = b.zeroAreaEnd then b.stop else b.zeroAreaStart
    let b : Buffer := { b with
      zeroAreaStart := zeroAreaStart
      zeroAreaEnd := b.stop + zeroSize
      stop := b.stop + zeroSize }
    let h := h.setDirty b.data (h.data b.data).dirtyStart b.zeroAreaEnd
    let endData := o.stop - o.zeroAreaEnd
    let r := addAtEnd supply h b endData
    let h ← iteratorCopy r.1 r.2 (r.2.stop - endData) o (o.stop - endData)
    return (h, r.2)
  else do
    let r := becomeFullCopy supply h b
    let r := addAtEnd supply r.1 r.2 o.size
    let h ← iteratorCopy r.1 r.2 (r.2.stop - o.size) o o.start
    return (h, r.2)

/-! ## Reading -/

/-- `CopyData(buffer, size)` : the bytes that it copies. -/
def copyData (h : BufferHeap) (b : Buffer) (size : ℕ) : List UInt8 :=
  let first := min (b.zeroAreaStart - b.start) size
  let size := size - first
  let zeroes := min (b.zeroAreaEnd - b.zeroAreaStart) size
  let size := size - zeroes
  h.read b.data b.start first ++ List.replicate zeroes 0 ++
    h.read b.data b.zeroAreaStart (min (b.stop - b.zeroAreaEnd) size)

/-- The content of a buffer. -/
def content (h : BufferHeap) (b : Buffer) : List UInt8 :=
  copyData h b b.size

end Buffer

end Ns3Pedca
