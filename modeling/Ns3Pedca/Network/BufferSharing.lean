import Ns3Pedca.Network.Buffer

/-!
# Buffers that share blocks

`Sharing h bs` says that `bs` are all the buffers on the blocks `h` : their offsets are in order,
each block counts its buffers, and of the buffers in a block no one has more data in it than one
that ends where the range of the block does. Each operation on a buffer keeps this and the bytes of
the other buffers (`Same`), so that a buffer that grows in place writes over nothing that another
buffer shows (`Room`).
-/

namespace Ns3Pedca

open ByteMemory

namespace Buffer

/-- The offsets of a buffer are in order. -/
structure Ordered (b : Buffer) : Prop where
  start_le : b.start ≤ b.zeroAreaStart
  zeroArea_le : b.zeroAreaStart ≤ b.zeroAreaEnd
  le_stop : b.zeroAreaEnd ≤ b.stop

/-- A buffer is in order and inside its block and the range of it. -/
structure Fits (h : BufferHeap) (b : Buffer) : Prop extends Ordered b where
  dirtyStart_le : (h.data b.data).dirtyStart ≤ b.start
  le_dirtyEnd : b.stop ≤ (h.data b.data).dirtyEnd
  internalEnd_le : b.internalEnd ≤ (h.data b.data).size
  data_lt : b.data < h.next

/-- `bs` are all the buffers on the blocks `h`. -/
structure Sharing (h : BufferHeap) (bs : List Buffer) : Prop where
  fits : ∀ b ∈ bs, b.Fits h
  count : ∀ d, (h.data d).count = bs.countP (·.data == d)
  furthest : ∀ b ∈ bs, ∀ c ∈ bs, b.data = c.data → c.stop = (h.data c.data).dirtyEnd →
    b.internalEnd ≤ c.internalEnd

/-- The bytes of `o` in its block are the same in `h'`. -/
def Same (h h' : BufferHeap) (o : Buffer) : Prop :=
  ∀ k, o.start ≤ k → k < o.internalEnd → (h'.data o.data).bytes k = (h.data o.data).bytes k

/-- The `n` bytes from `a` on are of none of the buffers `os` in the block of `b`. -/
def Room (b : Buffer) (os : List Buffer) (a n : ℕ) : Prop :=
  ∀ o ∈ os, o.data = b.data → a + n ≤ o.start ∨ o.internalEnd ≤ a

variable {supply : ℕ → SpareData} {h h' h'' : BufferHeap} {b b' o : Buffer} {os bs : List Buffer}
variable {a n : ℕ} {w : List UInt8} {x : BufferData}

/-! ## Contents -/

/-- Data, zeroes and data. -/
theorem content_eq (ho : b.Ordered) :
    content h b = h.read b.data b.start (b.zeroAreaStart - b.start) ++
      List.replicate (b.zeroAreaEnd - b.zeroAreaStart) 0 ++
      h.read b.data b.zeroAreaStart (b.stop - b.zeroAreaEnd) := by
  have h₁ := ho.start_le
  have h₂ := ho.zeroArea_le
  have h₃ := ho.le_stop
  have hfirst : min (b.zeroAreaStart - b.start) b.size = b.zeroAreaStart - b.start := by
    rw [size]
    omega
  have hzeroes : min (b.zeroAreaEnd - b.zeroAreaStart) (b.size - (b.zeroAreaStart - b.start))
      = b.zeroAreaEnd - b.zeroAreaStart := by
    rw [size]
    omega
  have hlast : min (b.stop - b.zeroAreaEnd) (b.size - (b.zeroAreaStart - b.start)
      - (b.zeroAreaEnd - b.zeroAreaStart)) = b.stop - b.zeroAreaEnd := by
    rw [size]
    omega
  rw [content, copyData, hfirst, hzeroes, hlast]

theorem Same.refl (h : BufferHeap) (o : Buffer) : Same h h o :=
  fun _ _ _ => rfl

theorem Same.trans (hs : Same h h' o) (hs' : Same h' h'' o) : Same h h'' o :=
  fun k hle hlt => (hs' k hle hlt).trans (hs k hle hlt)

theorem Same.of_data (heq : (h'.data o.data).bytes = (h.data o.data).bytes) : Same h h' o :=
  fun k _ _ => congrFun heq k

theorem Same.read (hs : Same h h' o) (hstart : o.start ≤ a) (hend : a + n ≤ o.internalEnd) :
    h'.read o.data a n = h.read o.data a n :=
  readAt_congr fun k hle hlt => hs k (hstart.trans hle) (hlt.trans_le hend)

theorem Same.content (hs : Same h h' o) (ho : o.Ordered) : content h' o = content h o := by
  have h₁ := ho.start_le
  have h₂ := ho.zeroArea_le
  have h₃ := ho.le_stop
  have hfirst := hs.read (n := o.zeroAreaStart - o.start) le_rfl (by rw [internalEnd]; omega)
  have hlast := hs.read (n := o.stop - o.zeroAreaEnd) h₁ (by rw [internalEnd]; omega)
  rw [content_eq ho, content_eq ho, hfirst, hlast]

/-! ## Changes of the blocks -/

theorem Sharing.ordered (hs : Sharing h (b :: os)) : b.Ordered :=
  (hs.fits b (List.mem_cons_self ..)).toOrdered

theorem Sharing.perm (hs : Sharing h bs) {cs : List Buffer} (hp : bs.Perm cs) : Sharing h cs where
  fits b hb := hs.fits b (hp.mem_iff.2 hb)
  count d := (hs.count d).trans (hp.countP_eq _)
  furthest b hb c hc := hs.furthest b (hp.mem_iff.2 hb) c (hp.mem_iff.2 hc)

/-- The only buffer of a block. -/
theorem Sharing.ne_of_count (hs : Sharing h (b :: os)) (hcount : (h.data b.data).count ≤ 1)
    (ho : o ∈ os) : o.data ≠ b.data := by
  intro heq
  have hpos : 0 < os.countP (·.data == b.data) :=
    List.countP_pos_iff.2 ⟨o, ho, beq_iff_eq.2 heq⟩
  rw [hs.count, List.countP_cons, beq_self_eq_true, if_pos rfl] at hcount
  omega

/-- A view on no more of the block. -/
theorem Sharing.view (hs : Sharing h (b :: os)) (ho : b'.Ordered) (hdata : b'.data = b.data)
    (hstart : b.start ≤ b'.start) (hstop : b'.stop ≤ b.stop)
    (hend : b'.internalEnd ≤ b.internalEnd)
    (hkeep : b'.stop = b.stop → b'.internalEnd = b.internalEnd) : Sharing h (b' :: os) := by
  obtain ⟨hfit, hfits⟩ := List.forall_mem_cons.1 hs.fits
  have hfit' : b'.Fits h := by
    refine ⟨ho, ?_, ?_, ?_, ?_⟩ <;> rw [hdata]
    · exact hfit.dirtyStart_le.trans hstart
    · exact hstop.trans hfit.le_dirtyEnd
    · exact hend.trans hfit.internalEnd_le
    · exact hfit.data_lt
  have hself : b ∈ b :: os := List.mem_cons_self ..
  refine ⟨List.forall_mem_cons.2 ⟨hfit', hfits⟩, fun d => ?_, ?_⟩
  · rw [hs.count, List.countP_cons, List.countP_cons, hdata]
  · refine List.forall_mem_cons.2 ⟨List.forall_mem_cons.2 ⟨fun _ _ => le_rfl, ?_⟩, fun c hc =>
      List.forall_mem_cons.2 ⟨?_, ?_⟩⟩
    · intro c hc heq hdirty
      exact hend.trans (hs.furthest b hself c (List.mem_cons_of_mem _ hc) (hdata ▸ heq) hdirty)
    · intro heq hdirty
      rw [hdata] at heq hdirty
      have hsame : b'.stop = b.stop := le_antisymm hstop (hdirty ▸ hfit.le_dirtyEnd)
      rw [hkeep hsame]
      exact hs.furthest c (List.mem_cons_of_mem _ hc) b hself heq (hsame ▸ hdirty)
    · intro p hp
      exact hs.furthest c (List.mem_cons_of_mem _ hc) p (List.mem_cons_of_mem _ hp)

/-- The blocks have the same sizes and ranges. -/
structure SameRanges (h h' : BufferHeap) : Prop where
  dirtyStart : ∀ d, (h'.data d).dirtyStart = (h.data d).dirtyStart
  dirtyEnd : ∀ d, (h'.data d).dirtyEnd = (h.data d).dirtyEnd
  size : ∀ d, (h'.data d).size = (h.data d).size
  next : h'.next = h.next

theorem sameRanges_setData {d : ℕ} (hstart : x.dirtyStart = (h.data d).dirtyStart)
    (hend : x.dirtyEnd = (h.data d).dirtyEnd) (hsize : x.size = (h.data d).size) :
    SameRanges h (h.setData d x) where
  dirtyStart e := by
    rw [BufferHeap.setData_data]
    split_ifs with he
    · rw [hstart, he]
    · rfl
  dirtyEnd e := by
    rw [BufferHeap.setData_data]
    split_ifs with he
    · rw [hend, he]
    · rfl
  size e := by
    rw [BufferHeap.setData_data]
    split_ifs with he
    · rw [hsize, he]
    · rfl
  next := rfl

/-- Views that there were, on blocks of the same sizes and ranges. -/
theorem Sharing.of_ranges (hs : Sharing h bs) (hr : SameRanges h h') {cs : List Buffer}
    (hsub : ∀ c ∈ cs, c ∈ bs) (hcount : ∀ d, (h'.data d).count = cs.countP (·.data == d)) :
    Sharing h' cs where
  fits c hc := by
    have hfit := hs.fits c (hsub c hc)
    refine ⟨hfit.toOrdered, ?_, ?_, ?_, ?_⟩
    · exact (hr.dirtyStart c.data).symm ▸ hfit.dirtyStart_le
    · exact (hr.dirtyEnd c.data).symm ▸ hfit.le_dirtyEnd
    · exact (hr.size c.data).symm ▸ hfit.internalEnd_le
    · exact hr.next.symm ▸ hfit.data_lt
  count := hcount
  furthest o ho c hc heq hstop := by
    rw [hr.dirtyEnd] at hstop
    exact hs.furthest o (hsub o ho) c (hsub c hc) heq hstop

/-- One buffer less. -/
theorem Sharing.release (hs : Sharing h (b :: os)) : Sharing (h.release b.data) os := by
  have hr : SameRanges h (h.release b.data) := sameRanges_setData rfl rfl rfl
  refine hs.of_ranges hr (fun o => List.mem_cons_of_mem _) fun d => ?_
  rw [BufferHeap.release, BufferHeap.setData_data]
  split_ifs with hd
  · show (h.data b.data).count - 1 = _
    rw [hs.count, List.countP_cons, beq_self_eq_true, if_pos rfl, hd, Nat.add_sub_cancel]
  · rw [hs.count, List.countP_cons_of_neg (by simpa using Ne.symm hd)]

/-- One buffer more, on the bytes of another one. -/
theorem Sharing.retain (hs : Sharing h os) (ho : o ∈ os) :
    Sharing (h.retain o.data) (o :: os) := by
  have hr : SameRanges h (h.retain o.data) := sameRanges_setData rfl rfl rfl
  refine hs.of_ranges hr
    (fun c hc => (List.mem_cons.1 hc).elim (fun heq => heq ▸ ho) id) fun d => ?_
  rw [BufferHeap.retain, BufferHeap.setData_data]
  split_ifs with hd
  · show (h.data o.data).count + 1 = _
    rw [hs.count, List.countP_cons_of_pos (by simp [hd]), hd]
  · rw [hs.count, List.countP_cons_of_neg (by simpa using Ne.symm hd)]

/-- A write changes nothing but bytes. -/
theorem Sharing.write (hs : Sharing h bs) (d : ℕ) : Sharing (h.write d a w) bs := by
  have hr : SameRanges h (h.write d a w) := sameRanges_setData rfl rfl rfl
  refine hs.of_ranges hr (fun _ => id) fun e => ?_
  rw [BufferHeap.write, BufferHeap.setData_data]
  split_ifs with he
  · exact he ▸ hs.count e
  · exact hs.count e

theorem same_setData {d : ℕ} (hbytes : x.bytes = (h.data d).bytes) (o : Buffer) :
    Same h (h.setData d x) o := by
  refine Same.of_data ?_
  rw [BufferHeap.setData_data]
  split_ifs with hd
  · rw [hbytes, hd]
  · rfl

theorem same_setDirty (h : BufferHeap) (d s e : ℕ) (o : Buffer) : Same h (h.setDirty d s e) o :=
  same_setData (x := { h.data d with dirtyStart := s, dirtyEnd := e }) rfl o

theorem same_release (h : BufferHeap) (d : ℕ) (o : Buffer) : Same h (h.release d) o :=
  same_setData (x := { h.data d with count := (h.data d).count - 1 }) rfl o

theorem Room.same_write (hr : Room b os a w.length) (ho : o ∈ os) :
    Same h (h.write b.data a w) o := by
  intro k hle hlt
  rw [BufferHeap.write, BufferHeap.setData_data]
  split_ifs with hd
  · rcases hr o ho hd with hbelow | habove
    · exact hd ▸ writeAt_of_le (hbelow.trans hle)
    · exact hd ▸ writeAt_of_lt (hlt.trans_le habove)
  · rfl

/-- A buffer on a new block. -/
theorem Sharing.add (hs : Sharing h os) (ho : b.Ordered) (hdata : b.data = h.next)
    (hcount : x.count = 1) (hstart : x.dirtyStart ≤ b.start) (hstop : b.stop ≤ x.dirtyEnd)
    (hsize : b.internalEnd ≤ x.size) : Sharing (h.add x) (b :: os) := by
  have hold {c : Buffer} (hc : c ∈ os) : (h.add x).data c.data = h.data c.data := by
    rw [BufferHeap.add_data, if_neg (hs.fits c hc).data_lt.ne]
  have hnew : (h.add x).data b.data = x := by
    rw [BufferHeap.add_data, if_pos hdata]
  have hfit : b.Fits (h.add x) := by
    refine ⟨ho, ?_, ?_, ?_, ?_⟩
    · rwa [hnew]
    · rwa [hnew]
    · rwa [hnew]
    · exact hdata ▸ Nat.lt_succ_self _
  have hne {c : Buffer} (hc : c ∈ os) : c.data ≠ b.data :=
    hdata ▸ (hs.fits c hc).data_lt.ne
  refine ⟨List.forall_mem_cons.2 ⟨hfit, fun c hc => ?_⟩, fun d => ?_, ?_⟩
  · have hc' := hs.fits c hc
    refine ⟨hc'.toOrdered, ?_, ?_, ?_, hc'.data_lt.trans (Nat.lt_succ_self _)⟩ <;> rw [hold hc]
    · exact hc'.dirtyStart_le
    · exact hc'.le_dirtyEnd
    · exact hc'.internalEnd_le
  · rw [BufferHeap.add_data]
    split_ifs with hd
    · have hnone : os.countP (·.data == d) = 0 :=
        List.countP_eq_zero.2 fun c hc => by simpa [hd, hdata] using hne hc
      rw [hcount, List.countP_cons_of_pos (by simp [hd, hdata]), hnone]
    · rw [hs.count, List.countP_cons_of_neg (by simpa [hdata] using Ne.symm hd)]
  · refine List.forall_mem_cons.2 ⟨List.forall_mem_cons.2 ⟨fun _ _ => le_rfl, ?_⟩, fun c hc =>
      List.forall_mem_cons.2 ⟨?_, ?_⟩⟩
    · exact fun c hc heq => absurd heq.symm (hne hc)
    · exact fun heq => absurd heq (hne hc)
    · intro p hp heq hdirty
      rw [hold hp] at hdirty
      exact hs.furthest c hc p hp heq hdirty

theorem Sharing.same_add (hs : Sharing h os) (ho : o ∈ os) : Same h (h.add x) o := by
  refine Same.of_data ?_
  rw [BufferHeap.add_data, if_neg (hs.fits o ho).data_lt.ne]

end Buffer

end Ns3Pedca
