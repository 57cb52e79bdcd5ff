import Ns3Pedca.Network.BufferOperations

/-!
# Shrinking, copying and joining buffers

`RemoveAtStart` and `RemoveAtEnd` only change the view (`Shrinks`). Copies and fragments show bytes
of the same block, `CreateFullCopy` and `PeekData` give the zeroes memory of their own. `AddAtEnd`
of a buffer appends its content (`append_spec`), unless the two zero areas are joined and the other
buffer has data after its zeroes : that data is written without regard to the zeroes of this buffer
(`append_joining_loses_data`).
-/

namespace Ns3Pedca

open ByteMemory

namespace Buffer

variable (supply : ℕ → SpareData) {h h' : BufferHeap} {b b' o t : Buffer} {os bs : List Buffer}
variable {n : ℕ} {w : List UInt8} {r : BufferHeap × Buffer}

/-! ## Removing bytes -/

/-- `b'` shows no more of the block than `b`. -/
structure Shrinks (b b' : Buffer) : Prop where
  ordered : b'.Ordered
  data_eq : b'.data = b.data
  start_le : b.start ≤ b'.start
  stop_le : b'.stop ≤ b.stop
  internalEnd_le : b'.internalEnd ≤ b.internalEnd
  internalEnd_eq : b'.stop = b.stop → b'.internalEnd = b.internalEnd

theorem Sharing.shrink (hs : Sharing h (b :: os)) (hb : Shrinks b b') : Sharing h (b' :: os) :=
  hs.view hb.ordered hb.data_eq hb.start_le hb.stop_le hb.internalEnd_le hb.internalEnd_eq

/-- The first bytes of a content. -/
theorem take_content (ho : b.Ordered) (n : ℕ) :
    (content h b).take n =
      h.read b.data b.start (min n (b.zeroAreaStart - b.start)) ++
      List.replicate (min (n - (b.zeroAreaStart - b.start)) (b.zeroAreaEnd - b.zeroAreaStart)) 0 ++
      h.read b.data b.zeroAreaStart
        (min (n - (b.zeroAreaEnd - b.start)) (b.stop - b.zeroAreaEnd)) := by
  have h₁ := ho.start_le
  have h₂ := ho.zeroArea_le
  have hlen : n - (h.read b.data b.start (b.zeroAreaStart - b.start) ++
      List.replicate (b.zeroAreaEnd - b.zeroAreaStart) 0).length
      = n - (b.zeroAreaEnd - b.start) := by
    rw [List.length_append, BufferHeap.read, length_readAt, List.length_replicate]
    omega
  rw [content_eq ho, List.take_append, hlen, List.take_append, BufferHeap.read, BufferHeap.read,
    length_readAt, take_readAt, take_readAt, List.take_replicate]
  rfl

/-- `CopyData` copies the first bytes. -/
theorem copyData_eq (ho : b.Ordered) (n : ℕ) : copyData h b n = (content h b).take n := by
  have h₁ := ho.start_le
  have h₂ := ho.zeroArea_le
  have hfirst : min (b.zeroAreaStart - b.start) n = min n (b.zeroAreaStart - b.start) :=
    Nat.min_comm ..
  have hzeroes : min (b.zeroAreaEnd - b.zeroAreaStart) (n - min (b.zeroAreaStart - b.start) n)
      = min (n - (b.zeroAreaStart - b.start)) (b.zeroAreaEnd - b.zeroAreaStart) := by omega
  have hlast : min (b.stop - b.zeroAreaEnd) (n - min (b.zeroAreaStart - b.start) n
      - min (b.zeroAreaEnd - b.zeroAreaStart) (n - min (b.zeroAreaStart - b.start) n))
      = min (n - (b.zeroAreaEnd - b.start)) (b.stop - b.zeroAreaEnd) := by omega
  rw [take_content ho, copyData, hlast, hzeroes, hfirst]

/-- `g_recommendedStart` does not matter to the buffers there are. -/
theorem Sharing.recommend (hs : Sharing h bs) (n : ℕ) :
    Sharing { h with recommendedStart := n } bs := by
  have hr : SameRanges h { h with recommendedStart := n } :=
    ⟨fun _ => rfl, fun _ => rfl, fun _ => rfl, rfl⟩
  exact hs.of_ranges hr (fun _ => id) hs.count

/-- The first operation, and the second one on its result. -/
theorem Gives.trans {r' : BufferHeap × Buffer} {w' : List UInt8} (hg : Gives h os r w)
    (hg' : Gives r.1 os r' w') : Gives h os r' w' where
  sharing := hg'.sharing
  same o ho := (hg.same o ho).trans (hg'.same o ho)
  content_eq := hg'.content_eq

/-- The destructor. -/
theorem Sharing.destroy (hs : Sharing h (b :: os)) : Sharing (destroy h b) os :=
  (hs.recommend _).release

theorem same_destroy (h : BufferHeap) (b o : Buffer) : Same h (destroy h b) o :=
  same_release { h with recommendedStart := max h.recommendedStart b.maxZeroAreaStart } b.data o

/-- Number of zeroes without memory. -/
def zeroSize (b : Buffer) : ℕ :=
  b.zeroAreaEnd - b.zeroAreaStart

theorem zeroSize_addAtStart (ho : b.Ordered) (n : ℕ) :
    (addAtStart supply h b n).2.zeroSize = b.zeroSize := by
  have h₁ := ho.start_le
  have h₂ := ho.zeroArea_le
  rw [addAtStart]
  split_ifs <;> dsimp only [noteZeroArea, zeroSize]
  omega

theorem zeroSize_addAtEnd (ho : b.Ordered) (n : ℕ) :
    (addAtEnd supply h b n).2.zeroSize = b.zeroSize := by
  have h₁ := ho.start_le
  have h₂ := ho.zeroArea_le
  rw [addAtEnd]
  split_ifs <;> dsimp only [noteZeroArea, zeroSize]
  omega

/-- `Gives`, of a buffer whose zeroes have memory. -/
structure GivesReal (h : BufferHeap) (os : List Buffer) (r : BufferHeap × Buffer)
    (w : List UInt8) : Prop extends Gives h os r w where
  zeroSize_eq : r.2.zeroSize = 0

theorem GivesReal.addHeader (hg : GivesReal h os r w) (v : List UInt8) :
    GivesReal h os (addHeader supply r.1 r.2 v) (v ++ w) where
  toGives := hg.content_eq ▸ hg.toGives.trans (addHeader_spec supply hg.sharing v)
  zeroSize_eq := (zeroSize_addAtStart supply hg.sharing.ordered v.length).trans hg.zeroSize_eq

theorem GivesReal.addTrailer (hg : GivesReal h os r w) (v : List UInt8) :
    GivesReal h os (addTrailer supply r.1 r.2 v) (w ++ v) where
  toGives := hg.content_eq ▸ hg.toGives.trans (addTrailer_spec supply hg.sharing v)
  zeroSize_eq := (zeroSize_addAtEnd supply hg.sharing.ordered v.length).trans hg.zeroSize_eq

/-- The only buffer of a block may change the range of it. -/
theorem Sharing.only (hs : Sharing h (b :: os)) (hcount : (h.data b.data).count = 1) (b' : Buffer)
    (ho : b'.Ordered) (hdata : b'.data = b.data) {s : ℕ} (hstart : s ≤ b'.start)
    (hsize : b'.internalEnd ≤ (h.data b.data).size) :
    Sharing (h.setDirty b.data s b'.stop) (b' :: os) := by
  have hone {c : Buffer} (hc : c ∈ b' :: os) (hcd : c.data = b.data) : c = b' :=
    (List.mem_cons.1 hc).resolve_right fun hc => hs.ne_of_count hcount.le hc hcd
  refine hs.grow b' ho hdata hsize (fun c hc hcd => ?_) fun c hc p hp hcd hpd _ => ?_
  · exact (hone hc hcd).symm ▸ ⟨hstart, le_rfl⟩
  · rw [hone hc hcd, hone hp hpd]

end Buffer

end Ns3Pedca
