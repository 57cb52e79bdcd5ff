import Ns3Pedca.Network.BufferSharing

/-!
# Operations on buffers that share blocks

For each operation on a buffer `b` beside the buffers `os` : the result and `os` share the blocks
again, the bytes of `os` are the same, and the content of the result is what the operation says.
`AddAtStart` and `AddAtEnd` give room to write in (`addAtStart_spec`, `addAtEnd_spec`), whether the
buffer grows in place or moves. `addHeader_spec` and `addTrailer_spec` are about the bytes that a
caller writes there.
-/

namespace Ns3Pedca

open ByteMemory

namespace Buffer

variable (supply : ℕ → SpareData) {h h' : BufferHeap} {b b' o t : Buffer} {os bs : List Buffer}
variable {n : ℕ} {w : List UInt8} {m : ℕ → UInt8}

/-- What an operation that gives the blocks `h'` and the buffer `b'` does : the other buffers are as
before, and the content of `b'` is `w`. -/
structure Gives (h : BufferHeap) (os : List Buffer) (r : BufferHeap × Buffer) (w : List UInt8) :
    Prop where
  sharing : Sharing r.1 (r.2 :: os)
  same : ∀ o ∈ os, Same h r.1 o
  content_eq : content r.1 r.2 = w

/-! ## More room -/

/-- A buffer that grows in its block. -/
theorem Sharing.grow (hs : Sharing h (b :: os)) (b' : Buffer) (ho : b'.Ordered)
    (hdata : b'.data = b.data) {s e : ℕ} (hsize : b'.internalEnd ≤ (h.data b.data).size)
    (hrange : ∀ c ∈ b' :: os, c.data = b.data → s ≤ c.start ∧ c.stop ≤ e)
    (hfar : ∀ c ∈ b' :: os, ∀ p ∈ b' :: os, c.data = b.data → p.data = b.data → p.stop = e →
      c.internalEnd ≤ p.internalEnd) : Sharing (h.setDirty b.data s e) (b' :: os) := by
  have hold {d : ℕ} (hd : d ≠ b.data) : (h.setDirty b.data s e).data d = h.data d := by
    rw [BufferHeap.setDirty, BufferHeap.setData_data, if_neg hd]
  have hnew : (h.setDirty b.data s e).data b.data
      = { h.data b.data with dirtyStart := s, dirtyEnd := e } := by
    rw [BufferHeap.setDirty, BufferHeap.setData_data, if_pos rfl]
  obtain ⟨hfit, hfits⟩ := List.forall_mem_cons.1 hs.fits
  refine ⟨fun c hc => ?_, fun d => ?_, fun c hc p hp heq hstop => ?_⟩
  · by_cases hd : c.data = b.data
    · have hin := hrange c hc hd
      rcases List.mem_cons.1 hc with rfl | hc'
      · refine ⟨ho, ?_, ?_, ?_, hdata ▸ hfit.data_lt⟩ <;> rw [hdata, hnew]
        · exact hin.1
        · exact hin.2
        · exact hsize
      · have hc' := hfits c hc'
        refine ⟨hc'.toOrdered, ?_, ?_, ?_, hc'.data_lt⟩ <;> rw [hd, hnew]
        · exact hin.1
        · exact hin.2
        · exact hd ▸ hc'.internalEnd_le
    · have hc' : c ∈ os := (List.mem_cons.1 hc).resolve_left fun heq => hd (heq ▸ hdata)
      have hc' := hfits c hc'
      refine ⟨hc'.toOrdered, ?_, ?_, ?_, hc'.data_lt⟩ <;> rw [hold hd]
      · exact hc'.dirtyStart_le
      · exact hc'.le_dirtyEnd
      · exact hc'.internalEnd_le
  · have hcount : (h.setDirty b.data s e).data d = { h.data d with
        dirtyStart := ((h.setDirty b.data s e).data d).dirtyStart
        dirtyEnd := ((h.setDirty b.data s e).data d).dirtyEnd } := by
      by_cases hd : d = b.data
      · rw [hd, hnew]
      · rw [hold hd]
    rw [hcount, List.countP_cons, hdata, ← List.countP_cons]
    exact hs.count d
  · by_cases hd : c.data = b.data
    · rw [← heq, hd, hnew] at hstop
      exact hfar c hc p hp hd (heq ▸ hd) hstop
    · have hmem {q : Buffer} (hq : q ∈ b' :: os) (hne : q.data ≠ b.data) : q ∈ b :: os :=
        List.mem_cons_of_mem _ ((List.mem_cons.1 hq).resolve_left fun heq => hne (heq ▸ hdata))
      rw [← heq, hold hd, heq] at hstop
      exact hs.furthest c (hmem hc hd) p (hmem hp (heq ▸ hd)) heq hstop

/-- Other buffers in the block of `b` make it shared. -/
theorem Sharing.one_lt_count (hs : Sharing h (b :: os)) (ho : o ∈ os) (hdata : o.data = b.data) :
    1 < (h.data b.data).count :=
  Nat.lt_of_not_le fun hle => hs.ne_of_count hle ho hdata

/-- The block of a moved buffer. -/
def movedData (supply : ℕ → SpareData) (h : BufferHeap) (b : Buffer) (n offset s e : ℕ) :
    BufferData where
  count := 1
  size := b.internalSize + n + (supply h.next).extra
  dirtyStart := s
  dirtyEnd := e
  bytes := writeAt (supply h.next).bytes offset (h.read b.data b.start b.internalSize)

/-- The blocks after a buffer moved. -/
theorem moveData_setDirty (hlt : b.data < h.next) (offset s e : ℕ) :
    (moveData supply h b n offset).setDirty h.next s e
      = (h.release b.data).add (movedData supply h b n offset s e) := by
  have hdata (d : ℕ) : ((moveData supply h b n offset).setDirty h.next s e).data d
      = ((h.release b.data).add (movedData supply h b n offset s e)).data d := by
    by_cases hd : d = h.next
    · simp [moveData, movedData, BufferHeap.setDirty, BufferHeap.release, BufferHeap.write,
        BufferHeap.create, BufferHeap.read, hd, hlt.ne, hlt.ne']
    · by_cases hb : d = b.data
      · simp [moveData, movedData, BufferHeap.setDirty, BufferHeap.release, BufferHeap.write,
          BufferHeap.create, hb, hlt.ne]
      · simp [moveData, movedData, BufferHeap.setDirty, BufferHeap.release, BufferHeap.write,
          BufferHeap.create, hd, hb]
  exact congrArg (fun f => BufferHeap.mk f (h.next + 1) h.recommendedStart) (funext hdata)

theorem Sharing.data_lt (hs : Sharing h (b :: os)) : b.data < h.next :=
  (hs.fits b (List.mem_cons_self ..)).data_lt

/-- A buffer that moves. -/
theorem Sharing.move (hs : Sharing h (b :: os)) (b' : Buffer)
    (n offset : ℕ) (ho : b'.Ordered) (hdata : b'.data = h.next)
    (hsize : b'.internalEnd ≤ b.internalSize + n) :
    Sharing ((moveData supply h b n offset).setDirty h.next b'.start b'.stop) (b' :: os) := by
  rw [moveData_setDirty supply hs.data_lt]
  exact hs.release.add ho hdata rfl le_rfl le_rfl (hsize.trans (Nat.le_add_right _ _))

theorem Sharing.same_move (hs : Sharing h (b :: os)) (n offset s e : ℕ) (ho : o ∈ os) :
    Same h ((moveData supply h b n offset).setDirty h.next s e) o := by
  rw [moveData_setDirty supply hs.data_lt]
  exact (same_release h b.data o).trans (hs.release.same_add ho)

/-- The data of a moved buffer. -/
theorem Sharing.read_move (hs : Sharing h (b :: os)) (n offset s e : ℕ) :
    ((moveData supply h b n offset).setDirty h.next s e).read h.next offset b.internalSize
      = h.read b.data b.start b.internalSize := by
  have hlen : (h.read b.data b.start b.internalSize).length = b.internalSize :=
    length_readAt _ _ _
  have hnew : ((h.release b.data).add (movedData supply h b n offset s e)).data h.next
      = movedData supply h b n offset s e := by
    rw [BufferHeap.add_data]
    exact if_pos rfl
  have hread := readAt_writeAt (supply h.next).bytes offset (h.read b.data b.start b.internalSize)
  rw [moveData_setDirty supply hs.data_lt, BufferHeap.read, hnew]
  rwa [hlen] at hread

/-- A buffer whose data is at another place has the content that it had. -/
theorem content_of_read (ho : b.Ordered) {offset : ℕ}
    (hread : h'.read b'.data offset b.internalSize = h.read b.data b.start b.internalSize)
    (hstart : b'.start = offset) (hzs : b'.zeroAreaStart = b.zeroAreaStart - b.start + offset)
    (hze : b'.zeroAreaEnd = b.zeroAreaEnd - b.start + offset)
    (hstop : b'.stop = b.stop - b.start + offset) : content h' b' = content h b := by
  have h₁ := ho.start_le
  have h₂ := ho.zeroArea_le
  have h₃ := ho.le_stop
  have ho' : b'.Ordered := ⟨by omega, by omega, by omega⟩
  rw [internalSize, BufferHeap.read, BufferHeap.read, readAt_add, readAt_add] at hread
  obtain ⟨hfirst, hlast⟩ := List.append_inj hread (by rw [length_readAt, length_readAt])
  rw [content_eq ho, content_eq ho', BufferHeap.read, BufferHeap.read, BufferHeap.read,
    BufferHeap.read]
  rw [Nat.add_sub_cancel' h₁] at hlast
  have hzs' : b'.zeroAreaStart = offset + (b.zeroAreaStart - b.start) := by omega
  have hlen : b'.zeroAreaStart - b'.start = b.zeroAreaStart - b.start := by omega
  have hzeroes : b'.zeroAreaEnd - b'.zeroAreaStart = b.zeroAreaEnd - b.zeroAreaStart := by omega
  have hrest : b'.stop - b'.zeroAreaEnd = b.stop - b.zeroAreaEnd := by omega
  rw [hlen, hzeroes, hrest, hstart, hzs', hfirst, hlast]

/-- `n` bytes in front that no other buffer has, before the content of `b`. -/
structure GivesRoomAtStart (h : BufferHeap) (b : Buffer) (os : List Buffer) (n : ℕ)
    (r : BufferHeap × Buffer) : Prop where
  sharing : Sharing r.1 (r.2 :: os)
  same : ∀ o ∈ os, Same h r.1 o
  room : Room r.2 os r.2.start n
  le_zeroAreaStart : r.2.start + n ≤ r.2.zeroAreaStart
  content_eq : content r.1 { r.2 with start := r.2.start + n } = content h b

theorem Sharing.sharing_noteZeroArea (hs : Sharing h (b :: os)) :
    Sharing h (noteZeroArea b :: os) :=
  hs.view ⟨hs.ordered.start_le, hs.ordered.zeroArea_le, hs.ordered.le_stop⟩ rfl le_rfl le_rfl le_rfl
    fun _ => rfl

/-- `AddAtStart` makes room in front. -/
theorem addAtStart_spec (hs : Sharing h (b :: os)) (n : ℕ) :
    GivesRoomAtStart h b os n (addAtStart supply h b n) := by
  obtain ⟨hfit, hfits⟩ := List.forall_mem_cons.1 hs.fits
  have ho := hs.ordered
  have h₁ := ho.start_le
  have h₂ := ho.zeroArea_le
  have h₃ := ho.le_stop
  rw [addAtStart]
  split_ifs with hplace
  · obtain ⟨hle, hclean⟩ := hplace
    -- Other buffers in the block begin no earlier.
    have hfront (c : Buffer) (hc : c ∈ os) (hdata : c.data = b.data) : b.start ≤ c.start := by
      have hshared := hs.one_lt_count hc hdata
      have hdirty := (hfits c hc).dirtyStart_le
      rw [hdata] at hdirty
      exact (Nat.le_of_not_lt fun hlt => hclean ⟨hshared, hlt⟩).trans hdirty
    have ho' : Ordered { b with start := b.start - n } :=
      ⟨(Nat.sub_le _ _).trans h₁, h₂, h₃⟩
    have hgrow : Sharing (h.setDirty b.data (b.start - n) (h.data b.data).dirtyEnd)
        ({ b with start := b.start - n } :: os) := by
      refine hs.grow _ ho' rfl hfit.internalEnd_le ?_ ?_
      · refine List.forall_mem_cons.2 ⟨fun _ => ⟨le_rfl, hfit.le_dirtyEnd⟩, fun c hc hdata => ?_⟩
        exact ⟨(Nat.sub_le _ _).trans (hfront c hc hdata), hdata ▸ (hfits c hc).le_dirtyEnd⟩
      · intro c hc p hp hcd hpd hstop
        have hold {q : Buffer} (hq : q ∈ { b with start := b.start - n } :: os) :
            ∃ q' ∈ b :: os, q'.data = q.data ∧ q'.internalEnd = q.internalEnd ∧
              q'.stop = q.stop := by
          rcases List.mem_cons.1 hq with rfl | hq
          · exact ⟨b, List.mem_cons_self .., rfl, rfl, rfl⟩
          · exact ⟨q, List.mem_cons_of_mem _ hq, rfl, rfl, rfl⟩
        obtain ⟨c', hc', hcd', hce, -⟩ := hold hc
        obtain ⟨p', hp', hpd', hpe, hps⟩ := hold hp
        rw [← hce, ← hpe]
        refine hs.furthest c' hc' p' hp' (by rw [hcd', hpd', hcd, hpd]) ?_
        rw [hpd', hpd, hps, hstop]
    refine ⟨hgrow.sharing_noteZeroArea, fun c _ => same_setDirty _ _ _ _ c, ?_, ?_, ?_⟩
    · intro c hc hdata
      exact .inl ((Nat.sub_add_cancel hle).trans_le (hfront c hc hdata))
    · exact (Nat.sub_add_cancel hle).symm ▸ h₁
    · show content _ { b with start := b.start - n + n } = _
      rw [Nat.sub_add_cancel hle]
      exact (same_setDirty _ _ _ _ b).content ho
  · have hmoved := hs.move supply { b with
        data := h.next
        zeroAreaStart := b.zeroAreaStart - b.start + n
        zeroAreaEnd := b.zeroAreaEnd - b.start + n
        stop := b.stop - b.start + n
        start := 0 } n n ⟨Nat.zero_le _, by dsimp only; omega, by dsimp only; omega⟩ rfl
      (by dsimp only [internalEnd, internalSize]; omega)
    refine ⟨hmoved.sharing_noteZeroArea, fun c hc => hs.same_move supply _ _ _ _ hc, ?_, ?_, ?_⟩
    · exact fun c hc hdata => absurd hdata (hfits c hc).data_lt.ne
    · exact Nat.add_comm 0 n ▸ Nat.le_add_left _ _
    · exact content_of_read ho (hs.read_move supply n n _ _) (Nat.zero_add n) rfl rfl rfl

/-- `n` bytes at the end that no other buffer has, after the content of `b`. -/
structure GivesRoomAtEnd (h : BufferHeap) (b : Buffer) (os : List Buffer) (n : ℕ)
    (r : BufferHeap × Buffer) : Prop where
  sharing : Sharing r.1 (r.2 :: os)
  same : ∀ o ∈ os, Same h r.1 o
  room : Room r.2 os (r.2.internalEnd - n) n
  le_stop : r.2.zeroAreaEnd + n ≤ r.2.stop
  content_eq : content r.1 { r.2 with stop := r.2.stop - n } = content h b

/-- `AddAtEnd` makes room at the end. -/
theorem addAtEnd_spec (hs : Sharing h (b :: os)) (n : ℕ) :
    GivesRoomAtEnd h b os n (addAtEnd supply h b n) := by
  obtain ⟨hfit, hfits⟩ := List.forall_mem_cons.1 hs.fits
  have ho := hs.ordered
  have h₁ := ho.start_le
  have h₂ := ho.zeroArea_le
  have h₃ := ho.le_stop
  have hself : b ∈ b :: os := List.mem_cons_self ..
  rw [addAtEnd]
  split_ifs with hplace
  · obtain ⟨hle, hclean⟩ := hplace
    -- Other buffers in the block end no later, and have no more data.
    have hlast (c : Buffer) (hc : c ∈ os) (hdata : c.data = b.data) :
        b.stop = (h.data b.data).dirtyEnd :=
      have hshared := hs.one_lt_count hc hdata
      le_antisymm hfit.le_dirtyEnd (Nat.le_of_not_lt fun hlt => hclean ⟨hshared, hlt⟩)
    have hback (c : Buffer) (hc : c ∈ os) (hdata : c.data = b.data) :
        c.internalEnd ≤ b.internalEnd :=
      hs.furthest c (List.mem_cons_of_mem _ hc) b hself hdata (hlast c hc hdata)
    have hend : internalEnd { b with stop := b.stop + n } = b.internalEnd + n := by
      dsimp only [internalEnd]
      omega
    have hgrow : Sharing (h.setDirty b.data (h.data b.data).dirtyStart (b.stop + n))
        ({ b with stop := b.stop + n } :: os) := by
      have ho' : Ordered { b with stop := b.stop + n } :=
        ⟨h₁, h₂, h₃.trans (Nat.le_add_right _ _)⟩
      refine hs.grow _ ho' rfl (hend.trans_le hle) ?_ ?_
      · refine List.forall_mem_cons.2 ⟨fun _ => ⟨hfit.dirtyStart_le, le_rfl⟩, fun c hc hdata => ?_⟩
        refine ⟨hdata ▸ (hfits c hc).dirtyStart_le, ?_⟩
        have hstop := (hfits c hc).le_dirtyEnd
        rw [hdata, ← hlast c hc hdata] at hstop
        exact hstop.trans (Nat.le_add_right _ _)
      · intro c hc p hp hcd hpd hstop
        rcases List.mem_cons.1 hp with rfl | hp
        · rcases List.mem_cons.1 hc with rfl | hc
          · exact le_rfl
          · exact (hback c hc hcd).trans (hend ▸ Nat.le_add_right _ _)
        · -- Another buffer ends there only when nothing was added.
          have hpstop := (hfits p hp).le_dirtyEnd
          rw [hpd, ← hlast p hp hpd, hstop] at hpstop
          have hn : n = 0 := by omega
          have hpdirty : p.stop = (h.data p.data).dirtyEnd := by
            rw [hpd, ← hlast p hp hpd, hstop, hn, Nat.add_zero]
          rcases List.mem_cons.1 hc with rfl | hc
          · rw [hend, hn, Nat.add_zero]
            exact hs.furthest b hself p (List.mem_cons_of_mem _ hp) hpd.symm hpdirty
          · exact hs.furthest c (List.mem_cons_of_mem _ hc) p (List.mem_cons_of_mem _ hp)
              (hcd.trans hpd.symm) hpdirty
    refine ⟨hgrow.sharing_noteZeroArea, fun c _ => same_setDirty _ _ _ _ c, ?_, ?_, ?_⟩
    · intro c hc hdata
      refine .inr ((hback c hc hdata).trans ?_)
      show b.internalEnd ≤ internalEnd { b with stop := b.stop + n } - n
      rw [hend, Nat.add_sub_cancel]
    · exact Nat.add_le_add_right h₃ n
    · show content _ { b with stop := b.stop + n - n } = _
      rw [Nat.add_sub_cancel]
      exact (same_setDirty _ _ _ _ b).content ho
  · have hmoved := hs.move supply { b with
        data := h.next
        zeroAreaStart := b.zeroAreaStart - b.start
        zeroAreaEnd := b.zeroAreaEnd - b.start
        stop := b.stop - b.start + n
        start := 0 } n 0 ⟨Nat.zero_le _, by dsimp only; omega, by dsimp only; omega⟩ rfl
      (by dsimp only [internalEnd, internalSize]; omega)
    refine ⟨hmoved.sharing_noteZeroArea, fun c hc => hs.same_move supply _ _ _ _ hc, ?_, ?_, ?_⟩
    · exact fun c hc hdata => absurd hdata (hfits c hc).data_lt.ne
    · show b.zeroAreaEnd - b.start + n ≤ b.stop - b.start + n
      omega
    · exact content_of_read ho (hs.read_move supply n 0 _ _) rfl rfl rfl (Nat.add_sub_cancel _ n)

/-! ## Headers and trailers -/

/-- Bytes written in front of the content. -/
theorem content_write_start (hlen : w.length = n) (ho : b.Ordered)
    (hle : b.start + n ≤ b.zeroAreaStart) :
    content (h.write b.data b.start w) b = w ++ content h { b with start := b.start + n } := by
  subst hlen
  have ho' : Ordered { b with start := b.start + w.length } := ⟨hle, ho.zeroArea_le, ho.le_stop⟩
  have hnew : (h.write b.data b.start w).data b.data
      = { h.data b.data with bytes := writeAt (h.data b.data).bytes b.start w } := by
    rw [BufferHeap.write, BufferHeap.setData_data, if_pos rfl]
  have hsplit : b.zeroAreaStart - b.start
      = w.length + (b.zeroAreaStart - (b.start + w.length)) := by omega
  rw [content_eq ho, content_eq ho', BufferHeap.read, BufferHeap.read, hnew, hsplit, readAt_add,
    readAt_writeAt, readAt_writeAt_of_disjoint (.inr le_rfl),
    readAt_writeAt_of_disjoint (.inr hle)]
  simp only [BufferHeap.read, List.append_assoc]

/-- Bytes written after the content. -/
theorem content_write_end (hlen : w.length = n) (ho : b.Ordered)
    (hle : b.zeroAreaEnd + n ≤ b.stop) :
    content (h.write b.data (b.internalEnd - n) w) b
      = content h { b with stop := b.stop - n } ++ w := by
  subst hlen
  have h₁ := ho.start_le
  have h₂ := ho.zeroArea_le
  have ho' : Ordered { b with stop := b.stop - w.length } :=
    ⟨h₁, h₂, by dsimp only; omega⟩
  have hnew : (h.write b.data (b.internalEnd - w.length) w).data b.data
      = { h.data b.data with
          bytes := writeAt (h.data b.data).bytes (b.internalEnd - w.length) w } := by
    rw [BufferHeap.write, BufferHeap.setData_data, if_pos rfl]
  have hsplit : b.stop - b.zeroAreaEnd = b.stop - w.length - b.zeroAreaEnd + w.length := by omega
  have hplace : b.zeroAreaStart + (b.stop - w.length - b.zeroAreaEnd)
      = b.internalEnd - w.length := by
    rw [internalEnd]
    omega
  rw [content_eq ho, content_eq ho', BufferHeap.read, BufferHeap.read, hnew, hsplit, readAt_add,
    hplace, readAt_writeAt, readAt_writeAt_of_disjoint (.inl (by omega)),
    readAt_writeAt_of_disjoint (.inl hplace.le)]
  simp only [BufferHeap.read, List.append_assoc]

/-- A header in front. -/
theorem addHeader_spec (hs : Sharing h (b :: os)) (w : List UInt8) :
    Gives h os (addHeader supply h b w) (w ++ content h b) := by
  have hr : GivesRoomAtStart h b os w.length (addAtStart supply h b w.length) :=
    addAtStart_spec supply hs w.length
  rw [addHeader]
  generalize addAtStart supply h b w.length = r at hr
  have hle : r.2.start ≤ r.2.zeroAreaStart := (Nat.le_add_right _ _).trans hr.le_zeroAreaStart
  have hwrite : iteratorWrite r.1 r.2 r.2.start w = r.1.write r.2.data r.2.start w := by
    rw [iteratorWrite, if_pos hle]
  refine ⟨?_, fun o ho => ?_, ?_⟩ <;> dsimp only <;> rw [hwrite]
  · exact hr.sharing.write r.2.data
  · exact (hr.same o ho).trans (hr.room.same_write ho)
  · rw [content_write_start rfl hr.sharing.ordered hr.le_zeroAreaStart, hr.content_eq]

/-- A trailer at the end. -/
theorem addTrailer_spec (hs : Sharing h (b :: os)) (w : List UInt8) :
    Gives h os (addTrailer supply h b w) (content h b ++ w) := by
  have hr : GivesRoomAtEnd h b os w.length (addAtEnd supply h b w.length) :=
    addAtEnd_spec supply hs w.length
  rw [addTrailer]
  generalize addAtEnd supply h b w.length = r at hr
  have h₂ := hr.sharing.ordered.zeroArea_le
  have h₃ := hr.le_stop
  have hwrite : iteratorWrite r.1 r.2 (r.2.stop - w.length) w
      = r.1.write r.2.data (r.2.internalEnd - w.length) w := by
    rw [iteratorWrite, internalEnd]
    congr 1
    split_ifs <;> omega
  refine ⟨?_, fun o ho => ?_, ?_⟩ <;> dsimp only <;> rw [hwrite]
  · exact hr.sharing.write r.2.data
  · exact (hr.same o ho).trans (hr.room.same_write ho)
  · rw [content_write_end rfl hr.sharing.ordered hr.le_stop, hr.content_eq]

end Buffer

end Ns3Pedca
