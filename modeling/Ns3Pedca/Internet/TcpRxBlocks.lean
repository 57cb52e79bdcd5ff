import Ns3Pedca.Internet.TcpReassembly

/-!
# The receive buffer as blocks

Whatever the segments carry, the buffer holds blocks of positions (`Blocked`) : those from the
first one that has not been read up to the next one that is expected, without a gap, and others
behind it. `add` stores what `Blocks.cut` leaves of a segment (`Blocked.add`), and
`extract` reads from the front (`Blocked.extract`).

The positions are those of the sequence numbers as long as they lie in one half of the number
space, which begins at some `w`.
-/

namespace Ns3Pedca

open Blocks

namespace TcpRxBuffer

/-! ## Numbers before a position -/

section Place

variable {base a : SequenceNumber32} {p q : ℕ}

/-- A number that comes before another one is at most half of the number space away. -/
theorem toNat_sub_of_lt {a b : SequenceNumber32} (h : a < b) :
    0 < (b - a).toNat ∧ (b - a).toNat ≤ 2 ^ 31 := by
  change SequenceNumber32.cmp a b = .lt at h
  rw [SequenceNumber32.sub_def]
  have ha := a.value.toNat_lt
  have hb := b.value.toNat_lt
  have hhalf : SequenceNumber32.halfMaxValue.toNat = 2 ^ 31 - 1 := rfl
  unfold SequenceNumber32.cmp at h
  simp only [← UInt32.toNat_inj, UInt32.lt_iff_toNat_lt, UInt32.le_iff_toNat_le, UInt32.toNat_sub,
    hhalf] at h ⊢
  split_ifs at h
  omega

/-- The position of a number that comes before another one. -/
theorem exists_place_of_lt (hq : 2 ^ 31 ≤ q) (h : a < place base q) :
    ∃ p, a = place base p ∧ p < q ∧ q ≤ p + 2 ^ 31 := by
  obtain ⟨hpos, hle⟩ := toNat_sub_of_lt h
  obtain ⟨d, hd⟩ : ∃ d, d = (place base q - a).toNat := ⟨_, rfl⟩
  rw [← hd] at hpos hle
  have hadd : a + UInt32.ofNat d = place base q := by
    rw [hd, UInt32.ofNat_toNat, SequenceNumber32.add_sub_cancel]
  refine ⟨q - d, (SequenceNumber32.add_left_inj (UInt32.ofNat d)).1 ?_, by omega, by omega⟩
  rw [hadd, place_add, Nat.sub_add_cancel (by omega)]

/-- Two positions that are less than half of the number space apart. -/
theorem place_lt_of_near (hpq : p < q + 2 ^ 31) (hqp : q < p + 2 ^ 31) :
    place base p < place base q ↔ p < q :=
  place_lt (w := min p q) (by omega) (by omega) (by omega) (by omega)

theorem place_le_of_near (hpq : p < q + 2 ^ 31) (hqp : q < p + 2 ^ 31) :
    place base p ≤ place base q ↔ p ≤ q :=
  place_le (w := min p q) (by omega) (by omega) (by omega) (by omega)

/-- Positions that are less than the number space apart have different numbers. -/
theorem place_inj_of_near (hpq : p < q + 2 ^ 32) (hqp : q < p + 2 ^ 32) :
    place base p = place base q ↔ p = q := by
  refine ⟨fun h => ?_, fun h => h ▸ rfl⟩
  have hzero : (place base q - place base q : UInt32).toNat = 0 := by
    rw [SequenceNumber32.sub_def, UInt32.sub_self, UInt32.toNat_zero]
  rcases Nat.le_total p q with hle | hle
  · have hd := @toNat_place_sub base p q hle (by omega)
    rw [h, hzero] at hd
    omega
  · have hd := @toNat_place_sub base q p hle (by omega)
    rw [h, hzero] at hd
    omega

theorem place_add_period (base : SequenceNumber32) (p : ℕ) :
    place base (p + 2 ^ 32) = place base p := by
  rw [← place_add]
  exact SequenceNumber32.add_zero _

end Place

/-! ## Blocks and what can be read of them -/

variable {base seq : SequenceNumber32} {b : TcpRxBuffer} {l : List (Block UInt8)}
  {k r w s hd t n : ℕ} {p : Packet}

/-- The buffer holds the blocks `l`, of which those from `k` up to `r` can be read. -/
structure Blocked (base : SequenceNumber32) (b : TcpRxBuffer) (l : List (Block UInt8))
    (k r : ℕ) : Prop where
  data : b.data = l.map (entry base)
  sorted : Sorted l
  pos : ∀ a ∈ l, a.first < a.last
  le : k ≤ r
  behind : ∀ p ∈ covered l, k ≤ p
  inOrder : ∀ p, k ≤ p → p < r → p ∈ covered l
  missing : r ∉ covered l
  next : b.nextRxSeq = place base r
  size : b.size = UInt32.ofNat (total l)
  avail : b.availBytes = UInt32.ofNat (r - k)
  noFin : b.gotFin = false

theorem blocked_nil (base : SequenceNumber32) (k : ℕ) (maxBuffer : UInt32) :
    Blocked base { nextRxSeq := place base k, maxBuffer := maxBuffer } [] k k where
  data := rfl
  sorted := List.Pairwise.nil
  pos := fun _ ha => absurd ha List.not_mem_nil
  le := le_rfl
  behind := fun p hp => absurd hp (Finset.notMem_empty p)
  inOrder := fun p hp hlt => absurd hp (not_le.2 hlt)
  missing := Finset.notMem_empty k
  next := rfl
  size := rfl
  avail := by rw [Nat.sub_self]; rfl
  noFin := rfl

namespace Blocked

/-- The first block is where reading goes on, or behind the next position. -/
theorem first_of_lt {a : Block UInt8} (h : Blocked base b (a :: l) k r) (hlt : k < r) :
    a.first = k :=
  first_eq (n := r - k) h.sorted h.pos (by omega) h.behind fun q hq hqr => h.inOrder q hq (by omega)

theorem lt_first {a : Block UInt8} (h : Blocked base b (a :: l) r r) : r < a.first := by
  have ha := h.pos a List.mem_cons_self
  have hmem : a.first ∈ covered (a :: l) := mem_covered.2 ⟨a, List.mem_cons_self, le_rfl, ha⟩
  have hge := h.behind _ hmem
  have hne : r ≠ a.first := fun heq => h.missing (heq ▸ hmem)
  omega

theorem fit_cons {a : Block UInt8} {m : ℕ} (h : Blocked base b (a :: l) k r)
    (hmax : b.maxBuffer = UInt32.ofNat m) :
    b.fit (place base hd) (place base t) =
      (if (if place base (a.first + m) < place base t then place base (a.first + m)
          else place base t) < place base hd then
        if place base (a.first + m) < place base t then place base (a.first + m)
          else place base t
        else place base hd,
        if place base (a.first + m) < place base t then place base (a.first + m)
          else place base t) := by
  rw [fit, h.data, List.map_cons]
  dsimp only
  rw [hmax, entry, place_add]

/-- The ends of a segment that has been trimmed to the window. Behind `r`, they bound a part of
the segment. -/
structure Ends (base : SequenceNumber32) (b : TcpRxBuffer) (l : List (Block UInt8))
    (r w : ℕ) (p : Packet) (seq : SequenceNumber32) (s hd t : ℕ) : Prop where
  fit : b.fit (b.headOf seq) (seq + Packet.getSize p) = (place base hd, place base t)
  seq_eq : seq = place base s
  length_lt : p.length < 2 ^ 31
  within : Within w l
  next : w ≤ r ∧ r < w + 2 ^ 31
  head : r ≤ hd ∧ hd < w + 2 ^ 31
  tail : w ≤ t ∧ t < w + 2 ^ 31
  le : l ≠ [] → hd ≤ t
  inside : hd < t → s ≤ hd ∧ t ≤ s + p.length

theorem cutOff (h : Blocked base b l k r) (hends : Ends base b l r w p seq s hd t) :
    CutOff l hd t (cut hd t l) := by
  cases l with
  | nil => exact cutOff_nil hd t
  | cons a l => exact cutOff_cut h.sorted h.pos (hends.le (List.cons_ne_nil _ _))

/-- What is left of a range is in the same half of the number space. -/
theorem cutOff_within {c : Cut UInt8} (hcut : CutOff l hd t c) (hwithin : Within w l)
    (hhead : w ≤ hd ∧ hd < w + 2 ^ 31) (htail : w ≤ t ∧ t < w + 2 ^ 31) :
    (w ≤ c.head ∧ c.head < w + 2 ^ 31) ∧ w ≤ c.tail ∧ c.tail < w + 2 ^ 31 := by
  refine ⟨⟨hhead.1.trans hcut.le_head, ?_⟩, ?_, hcut.tail_le.trans_lt htail.2⟩
  · rcases hcut.head_from with hfrom | ⟨a, ha, hfrom⟩
    · exact hfrom ▸ hhead.2
    · exact hfrom ▸ (hwithin a ha).2.2
  · rcases hcut.tail_from with hfrom | ⟨a, ha, hfrom⟩
    · exact hfrom ▸ htail.1
    · exact hfrom ▸ (hwithin a ha).1

theorem cut_within (h : Blocked base b l k r) (hends : Ends base b l r w p seq s hd t) :
    (w ≤ (cut hd t l).head ∧ (cut hd t l).head < w + 2 ^ 31) ∧
      w ≤ (cut hd t l).tail ∧ (cut hd t l).tail < w + 2 ^ 31 :=
  cutOff_within (h.cutOff hends) hends.within ⟨hends.next.1.trans hends.head.1, hends.head.2⟩
    hends.tail

/-- The first loop of `Add` is `cut`. -/
theorem trim_cut (h : Blocked base b l k r) (hwithin : Within w l)
    (hhead : w ≤ hd ∧ hd < w + 2 ^ 31) (htail : w ≤ t ∧ t < w + 2 ^ 31) :
    trim (place base hd) (place base t) b.size b.data =
      ⟨(cut hd t l).kept.map (entry base), place base (cut hd t l).head,
        place base (cut hd t l).tail, UInt32.ofNat (total (cut hd t l).kept)⟩ := by
  rw [h.data, trim_map hwithin hhead.1 hhead.2 htail.1 htail.2, h.size, UInt32.sub_self,
    UInt32.zero_add]

/-- If nothing is left of a segment, nothing changes. -/
theorem add_of_cut (h : Blocked base b l k r) (hwithin : Within w l)
    (hfit : b.fit (b.headOf seq) (seq + Packet.getSize p) = (place base hd, place base t))
    (hhead : w ≤ hd ∧ hd < w + 2 ^ 31) (htail : w ≤ t ∧ t < w + 2 ^ 31)
    (hcut : CutOff l hd t (cut hd t l)) (hle : (cut hd t l).tail ≤ (cut hd t l).head) :
    b.add p seq = (false, b) := by
  obtain ⟨hheadw, htailw⟩ := cutOff_within hcut hwithin hhead htail
  have htrim := h.trim_cut hwithin hhead htail
  rw [TcpRxBuffer.add]
  simp only [hfit, htrim]
  rw [if_pos ((place_le htailw.1 htailw.2 hheadw.1 hheadw.2).2 hle), hcut.kept_eq hle, ← h.data,
    ← h.size]

theorem add_of_le (h : Blocked base b l k r) (hends : Ends base b l r w p seq s hd t)
    (hle : (cut hd t l).tail ≤ (cut hd t l).head) : b.add p seq = (false, b) :=
  h.add_of_cut hends.within hends.fit ⟨hends.next.1.trans hends.head.1, hends.head.2⟩ hends.tail
    (h.cutOff hends) hle

/-- The block that is stored of a segment. -/
def stored (p : Packet) (s hd t : ℕ) : Block UInt8 :=
  ⟨hd, (p.drop (hd - s)).take (t - hd)⟩

theorem last_stored (hs : s ≤ hd) (hlt : hd ≤ t) (ht : t ≤ s + p.length) :
    (stored p s hd t).last = t := by
  rw [stored, Block.last, List.length_take, List.length_drop]
  change hd + _ = t
  omega

/-- The blocks with the rest of a segment among them. None of them crosses `r`. -/
structure Stored (l : List (Block UInt8)) (r w hd t : ℕ) (l' : List (Block UInt8)) : Prop where
  within : Within w l'
  sorted : Sorted l'
  pos : ∀ a ∈ l', a.first < a.last
  covered_iff : ∀ q, q ∈ covered l' ↔ q ∈ covered l ∨ hd ≤ q ∧ q < t
  split : Split l' r

theorem stored_put (h : Blocked base b l k r) (hends : Ends base b l r w p seq s hd t)
    {c : Cut UInt8} (hc : c = cut hd t l) (hlt : c.head < c.tail) {a : Block UInt8}
    (hfirst : a.first = c.head) (hlast : a.last = c.tail) : Stored l r w hd t (put a c.kept) := by
  have hcut := h.cutOff hends
  have hcw := h.cut_within hends
  rw [← hc] at hcut hcw
  have hrhd := hends.head.1
  have hhead := hcut.le_head
  have hpos : ∀ a' ∈ c.kept, a'.first < a'.last := fun a' ha' =>
    h.pos a' (hcut.sublist.subset ha')
  refine ⟨?_, ?_, ?_, ?_, ?_⟩
  · intro a' ha'
    rcases mem_put.1 ha' with rfl | ha'
    · exact ⟨by omega, by omega, by omega⟩
    · exact hends.within a' (hcut.sublist.subset ha')
  · refine Sorted.put (h.sorted.sublist hcut.sublist) ?_ (by omega) hpos
    rw [hfirst, hlast]
    exact hcut.apart hlt
  · intro a' ha'
    rcases mem_put.1 ha' with rfl | ha'
    · omega
    · exact hpos a' ha'
  · intro q
    rw [covered_put, Finset.mem_union, mem_positions, hfirst, hlast, or_comm, hcut.covers]
  · intro a' ha'
    rcases mem_put.1 ha' with rfl | ha'
    · exact Or.inr (by omega)
    · exact split_of_notMem h.missing a' (hcut.sublist.subset ha')

/-- The buffer with other blocks, after the next position has moved on. -/
def holding (base : SequenceNumber32) (b : TcpRxBuffer) (l : List (Block UInt8)) (k r : ℕ) :
    TcpRxBuffer :=
  { b with
    data := l.map (entry base)
    size := UInt32.ofNat (total l)
    nextRxSeq := place base r
    availBytes := UInt32.ofNat (r - k) }

theorem blocked_holding (h : Blocked base b l k r) {l' : List (Block UInt8)}
    (hl' : Stored l r w hd t l') (hhd : r ≤ hd) :
    Blocked base (holding base b l' k (Blocks.advance l' r)) l' k (Blocks.advance l' r) := by
  obtain ⟨hin, hout⟩ := advance_spec hl'.sorted hl'.pos hl'.split
  have hle := le_advance hl'.pos (r := r)
  have hkr := h.le
  exact {
    data := rfl
    sorted := hl'.sorted
    pos := hl'.pos
    le := hkr.trans hle
    behind := fun q hq => by
      rcases (hl'.covered_iff q).1 hq with hq | hq
      · exact h.behind q hq
      · omega
    inOrder := fun q hkq hqr => by
      by_cases hqr' : q < r
      · exact (hl'.covered_iff q).2 (Or.inl (h.inOrder q hkq hqr'))
      · exact hin q (by omega) hqr
    missing := hout
    next := rfl
    size := rfl
    avail := rfl
    noFin := h.noFin }

/-- The rest of a segment is put among the blocks, and the next position moves on. -/
theorem add_of_lt (h : Blocked base b l k r) (hends : Ends base b l r w p seq s hd t)
    {c : Cut UInt8} (hc : c = cut hd t l) (hlt : c.head < c.tail) :
    ∃ a : Block UInt8, a.first = c.head ∧ a.last = c.tail ∧ Stored l r w hd t (put a c.kept) ∧
      b.add p seq =
        (true, holding base b (put a c.kept) k (Blocks.advance (put a c.kept) r)) := by
  have hcut := h.cutOff hends
  have hcw := h.cut_within hends
  have htrim := h.trim_cut hends.within ⟨hends.next.1.trans hends.head.1, hends.head.2⟩ hends.tail
  rw [← hc] at hcut hcw htrim
  obtain ⟨hheadw, htailw⟩ := hcw
  have hhead := hcut.le_head
  have htail := hcut.tail_le
  have hrw := hends.next
  have hkr := h.le
  obtain ⟨hs, ht⟩ := hends.inside (by omega)
  have hlen := hends.length_lt
  obtain ⟨a, ha⟩ : ∃ a, a = stored p s c.head c.tail := ⟨_, rfl⟩
  have hafirst : a.first = c.head := by rw [ha, stored]
  have halast : a.last = c.tail := ha ▸ last_stored (by omega) hlt.le (by omega)
  have hstored := h.stored_put hends hc hlt hafirst halast
  have hfragment : Packet.createFragment p (place base c.head - place base s)
      (place base c.tail - place base c.head) = a.data := by
    have hstart : (place base c.head - place base s).toNat = c.head - s :=
      toNat_place_sub (by omega) (by omega)
    have hlength : (place base c.tail - place base c.head).toNat = c.tail - c.head :=
      toNat_place_sub (by omega) (by omega)
    rw [Packet.createFragment_eq (by omega) (by omega), hstart, hlength, ha, stored]
  have hassign : assign (place base c.head) a.data (c.kept.map (entry base)) =
      (put a c.kept).map (entry base) := by
    rw [← hafirst]
    refine assign_map (fun a' ha' => hends.within a' (hcut.sublist.subset ha')) (by omega)
      (by omega) fun a' ha' => ?_
    have hapart := hcut.apart hlt a' ha'
    have hpos' := h.pos a' (hcut.sublist.subset ha')
    omega
  have hadvance : advance b.nextRxSeq b.availBytes ((put a c.kept).map (entry base)) =
      (place base (Blocks.advance (put a c.kept) r),
        UInt32.ofNat (Blocks.advance (put a c.kept) r - k)) := by
    have hle := le_advance hstored.pos (r := r)
    rw [h.next, advance_map hstored.sorted hstored.pos hstored.within (by omega) (by omega),
      h.avail, ← UInt32.ofNat_add]
    congr 2
    omega
  have hsize : UInt32.ofNat (total c.kept) + Packet.getSize a.data =
      UInt32.ofNat (total (put a c.kept)) := by
    rw [total_put, UInt32.ofNat_add, UInt32.add_comm]
    rfl
  have hnot : ¬place base c.tail ≤ place base c.head := fun hle =>
    absurd ((place_le htailw.1 htailw.2 hheadw.1 hheadw.2).1 hle) (not_le.2 hlt)
  refine ⟨a, hafirst, halast, hstored, ?_⟩
  rw [TcpRxBuffer.add]
  simp only [hends.fit, htrim]
  rw [if_neg hnot, hends.seq_eq]
  simp only [hfragment, hassign, hadvance, hsize]
  rw [passFin, if_neg (by simp [h.noFin])]
  rfl

/-! ## Extracting -/

theorem total_lt (h : Blocked base b l k r) (hwithin : Within w l) : total l < 2 ^ 32 := by
  rw [← card_covered h.sorted]
  have hsub : covered l ⊆ Finset.Ico w (w + 2 ^ 31) := by
    intro q hq
    obtain ⟨a, ha, hfirst, hlast⟩ := mem_covered.1 hq
    obtain ⟨hw, -, hlastw⟩ := hwithin a ha
    exact Finset.mem_Ico.2 ⟨by omega, by omega⟩
  have hcard := Finset.card_le_card hsub
  rw [Nat.card_Ico] at hcard
  omega

theorem le_total (h : Blocked base b l k r) : r - k ≤ total l := by
  rw [← card_covered h.sorted]
  have hsub : Finset.Ico k r ⊆ covered l := fun q hq =>
    h.inOrder q (Finset.mem_Ico.1 hq).1 (Finset.mem_Ico.1 hq).2
  have hcard := Finset.card_le_card hsub
  rwa [Nat.card_Ico] at hcard

/-- `Extract` takes as many bytes as asked for of those that can be read. -/
theorem extract (h : Blocked base b l k r) (hwithin : Within w l) (maxSize : UInt32) :
    ∃ out b' n, b.extract maxSize = some (out, b') ∧ k + n ≤ r ∧ b'.maxBuffer = b.maxBuffer ∧
      Blocked base b' (serve l n).2 (k + n) r := by
  have htotal := h.total_lt hwithin
  have hle := h.le_total
  have havail : b.availBytes.toNat = r - k := by
    rw [h.avail, UInt32.toNat_ofNat_of_lt' (show r - k < 2 ^ 32 by omega)]
  obtain ⟨n, hn⟩ : ∃ n, n = (min maxSize b.availBytes).toNat := ⟨_, rfl⟩
  have hmin : min maxSize b.availBytes = UInt32.ofNat n := by
    rw [hn, UInt32.ofNat_toNat]
  have hnr : n ≤ r - k := by
    rw [hn, uint32_toNat_min, havail]
    exact Nat.min_le_right _ _
  have hkr := h.le
  have htake := @takeOut_map base w n l h.sorted hwithin (hnr.trans hle) htotal h.pos
  obtain ⟨hsorted, hpos, hcov, hleft⟩ := serve_apart h.sorted h.pos (n := n) h.behind
    fun q hkq hq => h.inOrder q hkq (by omega)
  refine ⟨(serve l n).1, { b with
    data := (serve l n).2.map (entry base)
    size := b.size - UInt32.ofNat n
    availBytes := b.availBytes - UInt32.ofNat n }, n, ?_, by omega, rfl, {
      data := rfl
      sorted := hsorted
      pos := hpos
      le := by omega
      behind := fun q hq => ((hcov q).1 hq).1
      inOrder := fun q hkq hqr => (hcov q).2 ⟨hkq, h.inOrder q (by omega) hqr⟩
      missing := fun hmem => h.missing ((hcov r).1 hmem).2
      next := h.next
      size := ?_
      avail := ?_
      noFin := h.noFin }⟩
  · rw [TcpRxBuffer.extract, hmin, h.data, htake]
    rfl
  · change b.size - UInt32.ofNat n = _
    rw [h.size, ← hleft, UInt32.ofNat_add]
    grind
  · change b.availBytes - UInt32.ofNat n = _
    rw [h.avail, ← UInt32.ofNat_sub hnr]
    congr 1
    omega

end Blocked

end TcpRxBuffer

end Ns3Pedca
