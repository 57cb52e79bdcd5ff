import Ns3Pedca.Internet.TcpSackList

/-!
# The SACK list along runs

The listed blocks and the discarded ones are ranges of positions behind the next one
(`Listed`). What is stored of a segment behind a gap is joined to the ranges of the list
(`pending_store`), and the ones that the next position moves over are cleared
(`clearAlong_map`). As long as no segment swallows a listed block, the list is what it is to be
(`advertised_of_run`).
-/

namespace Ns3Pedca

open Runs Blocks Ranges

namespace SackHistory

open TcpRxBuffer SackRxBuffer

variable {base seq : SequenceNumber32} {b : TcpRxBuffer} {l : List (Block UInt8)}
  {k r w q m n : ℕ} {p : Packet} {s : SackHistory} {L D : List (ℕ × ℕ)}

/-- A range of positions, as a SACK block. -/
def numbers (base : SequenceNumber32) (a : ℕ × ℕ) : SackBlock :=
  Prod.map (place base) (place base) a

/-- The bytes held and the next one are in one half of the number space. -/
structure Near (base : SequenceNumber32) (b : TcpRxBuffer) (l : List (Block UInt8))
    (k r : ℕ) : Prop extends Blocked base b l k r where
  far : 2 ^ 32 ≤ k
  half : ∃ w, w ≤ r ∧ r < w + 2 ^ 31 ∧ Within w l

/-- The range is held behind `r`. -/
def Behind (l : List (Block UInt8)) (r : ℕ) (a : ℕ × ℕ) : Prop :=
  r < a.1 ∧ a.1 < a.2 ∧ ∀ q, a.1 ≤ q → q < a.2 → q ∈ covered l

/-- The SACK list and the discarded blocks are the ranges `L` and `D`, which are held behind the
next position, and hold all that is. -/
structure Listed (base : SequenceNumber32) (s : SackHistory) (l : List (Block UInt8)) (k r : ℕ)
    (L D : List (ℕ × ℕ)) : Prop extends Near base s.rx.buf l k r where
  sackList : s.rx.sackList = L.map (numbers base)
  discarded : s.discarded = D.map (numbers base)
  ranges : ∀ a ∈ L, Behind l r a
  discards : ∀ a ∈ D, Behind l r a
  apart : L.Pairwise Apart
  length_le : L.length ≤ 4
  all : ∀ q ∈ covered l, r < q → Holds L q ∨ Holds D q
  stored : ∀ range ∈ s.stored, ∃ h t, range = numbers base (h, t) ∧ h < t ∧
    ∃ a ∈ L.head?, a.1 ≤ h ∧ t ≤ a.2

/-! ## Positions of what is held -/

theorem Near.near (h : Near base b l k r) {a : Block UInt8} (ha : a ∈ l) :
    r < a.first + 2 ^ 31 ∧ a.last < r + 2 ^ 31 := by
  obtain ⟨w, hwr, hrw, hwithin⟩ := h.half
  have hin := hwithin a ha
  omega

theorem Near.near_of_mem (h : Near base b l k r) (hq : q ∈ covered l) :
    r < q + 2 ^ 31 ∧ q + 1 < r + 2 ^ 31 := by
  obtain ⟨a, ha, hfirst, hlast⟩ := mem_covered.1 hq
  have hnear := h.near ha
  omega

theorem Near.held_iff (h : Near base b l k r) (hrq : r < q + 2 ^ 31) (hqr : q < r + 2 ^ 31) :
    Held b (place base q) ↔ q ∈ covered l := by
  constructor
  · rintro ⟨i, hi, j, hj, heq⟩
    rw [h.data] at hi
    obtain ⟨a, ha, rfl⟩ := List.mem_map.1 hi
    change j < a.data.length at hj
    change place base a.first + _ = _ at heq
    have hlast : a.first + j < a.last := by
      rw [Block.last]
      omega
    have hmem := mem_covered.2 ⟨a, ha, Nat.le_add_right _ j, hlast⟩
    have hnear := h.near_of_mem hmem
    rw [place_add] at heq
    exact (place_inj_of_near (by omega) (by omega)).1 heq ▸ hmem
  · intro hmem
    obtain ⟨a, ha, hfirst, hlast⟩ := mem_covered.1 hmem
    rw [Block.last] at hlast
    refine ⟨entry base a, h.data ▸ List.mem_map_of_mem ha, q - a.first, ?_, ?_⟩
    · change _ < a.data.length
      omega
    · change place base a.first + _ = _
      rw [place_add, Nat.add_sub_cancel' hfirst]

theorem Near.lt_of_behind (h : Near base b l k r) {a : ℕ × ℕ} (ha : Behind l r a) :
    a.2 < r + 2 ^ 31 := by
  obtain ⟨hr, hlt, hin⟩ := ha
  have hnear := h.near_of_mem (hin (a.2 - 1) (by omega) (by omega))
  omega

/-- The numbers in a range of positions are those of its positions. -/
theorem exists_place_of_in {x y : ℕ} {num : SequenceNumber32} (hy : 2 ^ 31 ≤ y) (hxy : x < y)
    (hin : In num (numbers base (x, y))) : ∃ q, num = place base q ∧ x ≤ q ∧ q < y := by
  obtain ⟨hge, hlt⟩ := hin
  change place base x ≤ num at hge
  change num < place base y at hlt
  obtain ⟨q, rfl, hqy, hle⟩ := exists_place_of_lt hy hlt
  refine ⟨q, rfl, ?_, hqy⟩
  by_contra hbefore
  rw [place_le_of_near (by omega) (by omega)] at hge
  omega

theorem in_numbers {x y : ℕ} (hx : x ≤ q) (hy : q < y) (hxy : y < x + 2 ^ 31) :
    In (place base q) (numbers base (x, y)) :=
  ⟨(place_le_of_near (by omega) (by omega)).2 hx, (place_lt_of_near (by omega) (by omega)).2 hy⟩

/-- Listed blocks are what is promised. -/
theorem Listed.advertised (h : Listed base s l k r L D) : Advertised s := by
  have hfar := h.far
  have hkr := h.le
  have hheld (a : ℕ × ℕ) (ha : Behind l r a) (num : SequenceNumber32)
      (hin : In num (numbers base a)) : Held s.rx.buf num := by
    obtain ⟨hr, hlt, hcov⟩ := ha
    obtain ⟨q, rfl, hxq, hqy⟩ := exists_place_of_in (by omega) hlt hin
    have hmem := hcov q hxq hqy
    have hnear := h.near_of_mem hmem
    exact (h.held_iff hnear.1 (by omega)).2 hmem
  refine ⟨fun a ha => ?_, fun a ha num hin => ?_, ?_, ?_, fun range hrange => ?_⟩
  · rw [h.sackList] at ha
    obtain ⟨c, hc, rfl⟩ := List.mem_map.1 ha
    obtain ⟨hr, hlt, hcov⟩ := h.ranges c hc
    have hend := h.lt_of_behind (h.ranges c hc)
    rw [h.next]
    exact ⟨(place_lt_of_near (by omega) (by omega)).2 hr,
      (place_lt_of_near (by omega) (by omega)).2 hlt⟩
  · rw [h.sackList] at ha
    obtain ⟨c, hc, rfl⟩ := List.mem_map.1 ha
    exact hheld c (h.ranges c hc) num hin
  · rw [h.sackList, List.length_map]
    exact h.length_le
  · rw [h.sackList, List.pairwise_map]
    refine h.apart.imp_of_mem fun {c d} hc hd hcd => ?_
    obtain ⟨hrc, hltc, -⟩ := h.ranges c hc
    obtain ⟨hrd, hltd, -⟩ := h.ranges d hd
    have hendc := h.lt_of_behind (h.ranges c hc)
    have hendd := h.lt_of_behind (h.ranges d hd)
    exact hcd.imp (fun hlt => (place_lt_of_near (by omega) (by omega)).2 hlt)
      fun hlt => (place_lt_of_near (by omega) (by omega)).2 hlt
  · obtain ⟨hd, t, rfl, hlt, a, ha, hle⟩ := h.stored range hrange
    have haL : a ∈ L := List.mem_of_mem_head? ha
    obtain ⟨hr, hlta, hcov⟩ := h.ranges a haL
    have hend := h.lt_of_behind (h.ranges a haL)
    refine ⟨numbers base a, ?_, fun num hin => ?_, fun num hnum hheldn => ?_⟩
    · rw [h.sackList, List.head?_map]
      exact Option.mem_map_of_mem _ ha
    · obtain ⟨q, rfl, hxq, hqy⟩ := exists_place_of_in (by omega) hlt hin
      exact in_numbers (by omega) (by omega) (by omega)
    · obtain ⟨q, rfl, hq⟩ : ∃ q, num = place base q ∧ (q = a.2 ∨ q + 1 = a.1) := by
        rcases hnum with rfl | hnum
        · exact ⟨a.2, rfl, Or.inl rfl⟩
        · refine ⟨a.1 - 1, (SequenceNumber32.add_left_inj 1).1 (hnum.trans ?_), Or.inr (by omega)⟩
          have hadd := place_add base (a.1 - 1) 1
          rw [Nat.sub_add_cancel (by omega)] at hadd
          exact hadd.symm
      have hmem := (h.held_iff (by omega) (by omega)).1 hheldn
      have hrq : r < q := by
        rcases hq with rfl | hq
        · omega
        · by_contra hle'
          have hqr : q = r := by omega
          exact h.missing (hqr ▸ hmem)
      have hnot : ¬ Holds L q := by
        rintro ⟨c, hc, hcq, hqc⟩
        have hne : a ≠ c := by
          rintro rfl
          omega
        rcases h.apart.forall haL hc hne with hac | hca
        · omega
        · omega
      obtain ⟨d, hdD, hdq, hqd⟩ := (h.all q hmem hrq).resolve_left hnot
      have hendd := h.lt_of_behind (h.discards d hdD)
      have hrd := (h.discards d hdD).1
      refine ⟨numbers base d, h.discarded ▸ List.mem_map_of_mem hdD, ?_⟩
      exact in_numbers hdq hqd (by omega)

/-! ## A segment in reach -/

/-- Where the segment and the window begin, in reach of what is held. -/
theorem Near.exists_window (h : Near base b l k r) (hreach : InReach b p seq) :
    ∃ w s, seq = place base s ∧ w ≤ s ∧ s + p.length < w + 2 ^ 31 ∧ w ≤ r ∧ r < w + 2 ^ 31 ∧
      Within w l ∧ ∀ a ∈ l.head?, a.first + b.maxBuffer.toNat < w + 2 ^ 31 := by
  obtain ⟨start, -, hseq, hnext, hdata, hmax⟩ := hreach
  have hfar := h.far
  have hkr := h.le
  have hofNat (num : SequenceNumber32) :
      start + UInt32.ofNat (SequenceNumber32.offset start num) = num := by
    rw [SequenceNumber32.offset, UInt32.ofNat_toNat, SequenceNumber32.add_sub_cancel]
  obtain ⟨d, hd⟩ : ∃ d, d = SequenceNumber32.offset start b.nextRxSeq := ⟨_, rfl⟩
  rw [← hd] at hnext
  have hstart : start = place base (r - d) := by
    have hadd := hofNat b.nextRxSeq
    rw [← hd, h.next] at hadd
    refine (SequenceNumber32.add_left_inj (UInt32.ofNat d)).1 ?_
    rw [hadd, place_add, Nat.sub_add_cancel (by omega)]
  have hplace (num : SequenceNumber32) :
      num = place base (r - d + SequenceNumber32.offset start num) := by
    conv_lhs => rw [← hofNat num, hstart, place_add]
    rw [hstart]
  have hfirst (a : Block UInt8) (ha : a ∈ l)
      (hoff : SequenceNumber32.offset start (place base a.first) < 2 ^ 31) :
      a.first = r - d + SequenceNumber32.offset start (place base a.first) := by
    have hnear := h.near ha
    have hpos := h.pos a ha
    exact (place_inj_of_near (by omega) (by omega)).1 (hplace (place base a.first))
  refine ⟨r - d, r - d + SequenceNumber32.offset start seq, hplace seq, Nat.le_add_right _ _,
    by omega, by omega, by omega, fun a ha => ?_, fun a ha => ?_⟩
  · have hin := hdata (entry base a) (h.data ▸ List.mem_map_of_mem ha)
    change SequenceNumber32.offset start (place base a.first) + a.data.length < _ at hin
    have hfirsta := hfirst a ha (by omega)
    rw [Block.last]
    omega
  · have hal := List.mem_of_mem_head? ha
    have hin := hmax (entry base a) (by
      rw [h.data, List.head?_map]
      exact Option.mem_map_of_mem _ ha)
    change SequenceNumber32.offset start (place base a.first) + _ < _ at hin
    have hfirsta := hfirst a hal (by omega)
    omega

/-- The ends of a segment in reach. -/
theorem Near.fit_eq (h : Near base b l k r) {s : ℕ} (hs : w ≤ s)
    (hlen : s + p.length < w + 2 ^ 31) (hr : w ≤ r) (hrw : r < w + 2 ^ 31)
    (hmax : ∀ a ∈ l.head?, a.first + b.maxBuffer.toNat < w + 2 ^ 31) (hwithin : Within w l) :
    ∃ hd t, b.fit (b.headOf (place base s)) (place base s + Packet.getSize p) =
        (place base hd, place base t) ∧ (w ≤ hd ∧ hd < w + 2 ^ 31) ∧
      (w ≤ t ∧ t < w + 2 ^ 31) ∧ (l ≠ [] → hd ≤ t) ∧ (hd < t → hd = max s r) ∧
      t ≤ s + p.length ∧ ∀ a ∈ l.head?, t ≤ a.first + b.maxBuffer.toNat := by
  have hhead : b.headOf (place base s) = place base (max s r) := by
    rw [headOf, h.next]
    exact place_max (by omega) (by omega) (by omega) (by omega)
  have hsize : place base s + Packet.getSize p = place base (s + p.length) :=
    place_add base s p.length
  rw [hhead, hsize]
  cases l with
  | nil =>
    refine ⟨max s r, s + p.length, ?_, by omega, by omega, fun hne => absurd rfl hne,
      fun _ => rfl, le_rfl, fun a ha => by simp at ha⟩
    rw [fit, h.data]
    rfl
  | cons a l =>
    have hmaxa := hmax a rfl
    have hfirst := (hwithin a List.mem_cons_self).1
    obtain ⟨t, ht⟩ : ∃ t, t = min (s + p.length) (a.first + b.maxBuffer.toNat) := ⟨_, rfl⟩
    have htail := @place_min base w (a.first + b.maxBuffer.toNat) (s + p.length) (by omega)
      (by omega) (by omega) (by omega)
    have hheadt := @place_min base w t (max s r) (by omega) (by omega) (by omega) (by omega)
    refine ⟨min (max s r) t, t, ?_, by omega, by omega, fun _ => Nat.min_le_right _ _,
      fun hlt => by omega, by omega, fun c hc => ?_⟩
    · rw [h.fit_cons UInt32.ofNat_toNat.symm, htail, ← ht, hheadt]
    · obtain rfl := Option.some.inj hc
      omega

/-- A segment of which something is stored. -/
structure Kept (base : SequenceNumber32) (b : TcpRxBuffer) (l : List (Block UInt8)) (r w : ℕ)
    (p : Packet) (seq : SequenceNumber32) (s t : ℕ) (c : Cut UInt8) : Prop extends
    Blocked.Ends base b l r w p seq s (max s r) t where
  cut_eq : c = cut (max s r) t l
  lt : c.head < c.tail
  headSeq : (trimmed b p seq).headSeq = place base c.head
  tailSeq : (trimmed b p seq).tailSeq = place base c.tail
  window : ∀ a ∈ l.head?, t ≤ a.first + b.maxBuffer.toNat
  window_lt : ∀ a ∈ l.head?, a.first + b.maxBuffer.toNat < w + 2 ^ 31

/-- Nothing of a segment in reach is stored, or a part of it is. -/
theorem Near.trimmed_cases (h : Near base b l k r) (hreach : InReach b p seq) :
    ((trimmed b p seq).tailSeq ≤ (trimmed b p seq).headSeq ∧ (b.add p seq).2 = b) ∨
      ∃ w s t c, Kept base b l r w p seq s t c := by
  obtain ⟨w, s, rfl, hs, hlen, hr, hrw, hwithin, hmax⟩ := h.exists_window hreach
  obtain ⟨hd, t, hfit, hhd, ht, hle, heq, htail, hwindow⟩ :=
    h.fit_eq hs hlen hr hrw hmax hwithin
  have hcut : CutOff l hd t (cut hd t l) := by
    cases l with
    | nil => exact cutOff_nil hd t
    | cons a l => exact cutOff_cut h.sorted h.pos (hle (List.cons_ne_nil _ _))
  have htrim := h.trim_cut hwithin hhd ht
  have htrimmed : trimmed b p (place base s) =
      trim (place base hd) (place base t) b.size b.data := by
    rw [trimmed, hfit]
  rw [htrim] at htrimmed
  have hcw := Blocked.cutOff_within hcut hwithin hhd ht
  have hhead := hcut.le_head
  have htail' := hcut.tail_le
  rcases Nat.lt_or_ge (cut hd t l).head (cut hd t l).tail with hlt | hge
  · obtain rfl := heq (by omega)
    right
    exact ⟨w, s, t, cut (max s r) t l, {
      fit := hfit
      seq_eq := rfl
      length_lt := by omega
      within := hwithin
      next := ⟨hr, hrw⟩
      head := by omega
      tail := ht
      le := hle
      inside := fun _ => by omega
      cut_eq := rfl
      lt := hlt
      headSeq := by rw [htrimmed]
      tailSeq := by rw [htrimmed]
      window := hwindow
      window_lt := hmax }⟩
  · left
    rw [htrimmed, h.add_of_cut hwithin hfit hhd ht hcut hge]
    exact ⟨(place_le hcw.2.1 hcw.2.2 hcw.1.1 hcw.1.2).2 hge, rfl⟩

/-! ## What is stored -/

section Kept

variable {t : ℕ} {c : Cut UInt8} {pos : ℕ}

theorem Kept.cutOff (hkept : Kept base b l r w p seq pos t c) (h : Near base b l k r) :
    CutOff l (max pos r) t c :=
  hkept.cut_eq ▸ h.toBlocked.cutOff hkept.toEnds

/-- The range stored does not begin with a position that is held. -/
theorem Kept.head_notMem (hkept : Kept base b l r w p seq pos t c) (h : Near base b l k r) :
    c.head ∉ covered l := by
  intro hmem
  have hcut := hkept.cutOff h
  have hlt := hkept.lt
  have hhead := hcut.le_head
  have htail := hcut.tail_le
  obtain ⟨a, ha, hfirst, hlast⟩ := mem_covered.1 hmem
  rcases cut_dropped h.sorted h.pos (by omega : max pos r ≤ t) a ha with hin | ⟨hdrop, -⟩
  · rw [← hkept.cut_eq] at hin
    have hapart := hcut.apart hlt a hin
    omega
  · rw [← hkept.cut_eq] at hdrop
    omega

/-- A block that is swallowed, seen from the sequence numbers. -/
theorem Kept.swallows (hkept : Kept base b l r w p seq pos t c) (h : Near base b l k r)
    {a : Block UInt8} (ha : a ∈ l) (hafter : c.head < a.first) (hlast : a.last < t) :
    Swallows b p seq (entry base a) := by
  have hcut := hkept.cutOff h
  have hhead := hcut.le_head
  have htail := hcut.tail_le
  have hlt := hkept.lt
  have hpos := h.pos a ha
  have hin := hkept.within a ha
  have hlen := hkept.length_lt
  have hheadw := hkept.head
  have htailw := hkept.tail
  obtain ⟨hge, hle⟩ := hkept.inside (by omega)
  rw [hkept.seq_eq]
  have hsub : (place base a.first - place base pos).toNat = a.first - pos :=
    toNat_place_sub (by omega) (by omega)
  refine ⟨(place_lt_of_near (by omega) (by omega)).2 (by omega), ?_, fun i hi => ?_,
    c.head - pos, ?_, ?_⟩
  · change place base a.first + Packet.getSize a.data < place base pos + UInt32.ofNat p.length
    rw [place_add_getSize, place_add]
    exact (place_lt_of_near (by omega) (by omega)).2 (by omega)
  · rw [h.data, List.head?_map] at hi
    obtain ⟨f, hf, rfl⟩ := Option.mem_map.1 hi
    have hwindow := hkept.window f hf
    have hwindowlt := hkept.window_lt f hf
    have hfin := hkept.within f (List.mem_of_mem_head? hf)
    change place base a.first + Packet.getSize a.data < place base f.first + b.maxBuffer
    have hmax : place base f.first + b.maxBuffer = place base (f.first + b.maxBuffer.toNat) := by
      rw [← place_add, UInt32.ofNat_toNat]
    rw [place_add_getSize, hmax]
    exact (place_lt_of_near (by omega) (by omega)).2 (by omega)
  · change _ < (place base a.first - place base pos).toNat
    rw [hsub]
    omega
  · have hnear := h.near ha
    have hnext := hkept.next
    rw [place_add, Nat.add_sub_cancel' (by omega), h.held_iff (by omega) (by omega)]
    exact hkept.head_notMem h

/-- A segment that begins at the next position or before it is stored from there on. -/
theorem Kept.head_eq (hkept : Kept base b l r w p seq pos t c) (h : Near base b l k r)
    (hle : pos ≤ r) : c.head = r := by
  have hcut := hkept.cutOff h
  have hhead := hcut.le_head
  have htail := hcut.tail_le
  have hlt := hkept.lt
  rcases (hcut.covers r).2 (Or.inr (by omega)) with hmem | hin
  · obtain ⟨a, ha, hin⟩ := mem_covered.1 hmem
    exact absurd (mem_covered.2 ⟨a, hcut.sublist.subset ha, hin⟩) h.missing
  · omega

/-- Behind a gap, a segment that fits is stored beside the listed ranges. -/
theorem Listed.beside (h : Listed base s l k r L D) (hfits : s.Fits (.add p seq))
    (hkept : Kept base s.rx.buf l r w p seq pos t c) (hgap : r < c.head) {a : ℕ × ℕ}
    (ha : a ∈ L) : Beside (c.head, c.tail) a := by
  have hnear := h.toNear
  have hcut := hkept.cutOff hnear
  have hlt := hkept.lt
  have hnext := hkept.next
  have hbehind : r < pos := by
    by_contra hle
    have hhead := hkept.head_eq hnear (by omega)
    omega
  have hpos := hkept.inside (by
    have hhead := hcut.le_head
    have htail := hcut.tail_le
    omega)
  have hheadw := hkept.head
  have hseq : s.rx.buf.nextRxSeq < seq := by
    rw [h.next, hkept.seq_eq]
    exact (place_lt_of_near (by omega) (by omega)).2 hbehind
  have hrange := h.ranges a ha
  have hend := hnear.lt_of_behind hrange
  obtain ⟨hr, hlta, hcov⟩ := hrange
  by_contra hcross
  obtain ⟨hright, hleft⟩ := not_or.1 hcross
  change ¬ c.tail ≤ a.1 at hright
  change ¬ a.2 ≤ c.head at hleft
  obtain ⟨q, hq⟩ : ∃ q, q = max c.head a.1 := ⟨_, rfl⟩
  obtain ⟨e, he, hfirst, hlast⟩ := mem_covered.1 (hcov q (by omega) (by omega))
  have heq := cut_dropped h.sorted h.pos (hkept.le (List.ne_nil_of_mem he)) e he
  rw [← hkept.cut_eq] at heq
  rcases heq with hin | ⟨hdrop, hdropt⟩
  · have hapart := hcut.apart hlt e hin
    omega
  · have hneare := h.near he
    refine hfits.2 hseq (entry base e) (h.data ▸ List.mem_map_of_mem he)
      (hkept.swallows hnear he hdrop hdropt) (numbers base a)
      (h.sackList ▸ List.mem_map_of_mem ha) ⟨?_, ?_⟩
    · change place base e.first < place base a.2
      exact (place_lt_of_near (by omega) (by omega)).2 (by omega)
    · change place base a.1 < place base e.first + Packet.getSize e.data
      rw [place_add_getSize]
      exact (place_lt_of_near (by omega) (by omega)).2 (by omega)

end Kept

/-! ## The lists -/

/-- Ranges of which all ends are in one half of the number space. -/
def Ends (w : ℕ) (L : List (ℕ × ℕ)) : Prop :=
  ∀ a ∈ L, (w ≤ a.1 ∧ a.1 < w + 2 ^ 31) ∧ w ≤ a.2 ∧ a.2 < w + 2 ^ 31

theorem mergeSackList_map {hd t : ℕ} (hends : Ends w ((hd, t) :: L)) :
    mergeSackList (place base hd) (place base t) (L.map (numbers base)) =
      (joinAll L.length (hd, t) L).map (numbers base) := by
  obtain ⟨hx, hL⟩ := List.forall_mem_cons.1 hends
  rw [mergeSackList, List.length_map]
  refine joinAll_map (place base) (s := Set.Ico w (w + 2 ^ 31)) ?_ hx hL
  intro x hx y hy
  exact (place_inj hx.1 hx.2 hy.1 hy.2).1

theorem clearSackList_map (hends : Ends w L) (hq : w ≤ q) (hqw : q < w + 2 ^ 31) :
    clearSackList (place base q) (L.map (numbers base)) =
      (L.filter fun a => q < a.2).map (numbers base) := by
  rw [clearSackList, List.filter_map]
  refine congrArg _ (List.filter_congr fun a ha => ?_)
  obtain ⟨-, hw, hlt⟩ := hends a ha
  change decide (¬ place base a.2 ≤ place base q) = decide (q < a.2)
  rw [decide_eq_decide, place_le hw hlt hq hqw, Nat.not_le]

theorem Ends.filter (h : Ends w L) (test : ℕ × ℕ → Bool) : Ends w (L.filter test) :=
  fun a ha => h a (List.mem_of_mem_filter ha)

/-- The second loop of `Add` clears the ranges that the next position moves over. -/
theorem clearAlong_map (hsorted : Sorted l) (hpos : ∀ a ∈ l, a.first < a.last)
    (hwithin : Within w l) (hr : w ≤ r) (hrw : r < w + 2 ^ 31) (hends : Ends w L)
    (hbehind : ∀ a ∈ L, r < a.2) :
    clearAlong (place base r) (l.map (entry base)) (L.map (numbers base)) =
      (L.filter fun a => Blocks.advance l r < a.2).map (numbers base) := by
  have hall : L.filter (fun a => r < a.2) = L :=
    List.filter_eq_self.2 fun a ha => decide_eq_true (hbehind a ha)
  induction l generalizing r L with
  | nil =>
    rw [Blocks.advance, hall]
    rfl
  | cons a l ih =>
    obtain ⟨⟨hfirst, hfirstw, hlast⟩, hl⟩ := List.forall_mem_cons.1 hwithin
    obtain ⟨ha, hlpos⟩ := List.forall_mem_cons.1 hpos
    rw [List.map_cons, clearAlong, Blocks.advance]
    simp only [entry, place_add_getSize, place_lt hfirst hfirstw hr hrw,
      place_lt hr hrw hfirst hfirstw]
    by_cases hlt : a.first < r
    · rw [if_pos hlt, if_pos hlt]
      exact ih hsorted.tail hlpos hl hr hrw hends hbehind hall
    · rw [if_neg hlt, if_neg hlt]
      by_cases hgt : r < a.first
      · rw [if_pos hgt, if_pos hgt, hall]
      · rw [if_neg hgt, if_neg hgt, clearSackList_map hends (by omega) hlast]
        have hle := le_advance hlpos (r := a.last)
        have hkept : ∀ c ∈ L.filter (fun c => a.last < c.2), a.last < c.2 := fun c hc =>
          of_decide_eq_true (List.mem_filter.1 hc).2
        rw [ih hsorted.tail hlpos hl (by omega) hlast (hends.filter _) hkept
          (List.filter_eq_self.2 fun c hc => decide_eq_true (hkept c hc)), List.filter_filter]
        refine congrArg _ (List.filter_congr fun c hc => ?_)
        rw [← Bool.decide_and, decide_eq_decide]
        omega

/-! ## Steps -/

/-- The ranges that are held behind `r`, seen from where the next position moves to. -/
theorem behind_advance (hsorted : Sorted l) (hpos : ∀ a ∈ l, a.first < a.last)
    (hsplit : Split l r) {a : ℕ × ℕ} (ha : Behind l r a)
    (hlt : Blocks.advance l r < a.2) : Behind l (Blocks.advance l r) a := by
  obtain ⟨hr, hlta, hcov⟩ := ha
  obtain ⟨-, hout⟩ := advance_spec hsorted hpos hsplit
  refine ⟨?_, hlta, hcov⟩
  by_contra hle
  exact hout (hcov _ (by omega) hlt)

/-- The lists after a segment has been stored, before the next position moves on. -/
structure Pending (l : List (Block UInt8)) (r : ℕ) (L D : List (ℕ × ℕ)) : Prop where
  ranges : ∀ a ∈ L, Behind l r a
  discards : ∀ a ∈ D, Behind l r a
  apart : L.Pairwise Apart
  length_le : L.length ≤ 4

/-- A range that is stored behind a gap is joined to the list. -/
theorem pending_store {l' : List (Block UInt8)} {hd t : ℕ} (h : Pending l r L D)
    (hlt : hd < t) (hr : r < hd) (hcov : ∀ q, q ∈ covered l → q ∈ covered l')
    (hin : ∀ q, hd ≤ q → q < t → q ∈ covered l') (hbeside : ∀ a ∈ L, Beside (hd, t) a) :
    ∃ y rest, joinAll L.length (hd, t) L = y :: rest ∧ y.1 ≤ hd ∧ t ≤ y.2 ∧
      Pending l' r ((y :: rest).take 4) (D ++ (y :: rest).drop 4) ∧
      ∀ q, Holds L q ∨ Holds D q ∨ hd ≤ q ∧ q < t →
        Holds ((y :: rest).take 4) q ∨ Holds (D ++ (y :: rest).drop 4) q := by
  obtain ⟨y, rest, heq, hjoined⟩ := joinAll_spec le_rfl hlt (fun a ha => (h.ranges a ha).2.1)
    h.apart hbeside
  have hbehind : ∀ a ∈ y :: rest, Behind l' r a := by
    intro a ha
    have hholds (q : ℕ) (hq : a.1 ≤ q) (hqa : q < a.2) :
        (hd ≤ q ∧ q < t) ∨ Holds L q := (hjoined.holds_iff q).1 ⟨a, ha, hq, hqa⟩
    have hmem (q : ℕ) (hq : a.1 ≤ q) (hqa : q < a.2) : r < q ∧ q ∈ covered l' := by
      rcases hholds q hq hqa with hin' | ⟨c, hc, hcq, hqc⟩
      · exact ⟨by omega, hin q hin'.1 hin'.2⟩
      · obtain ⟨hrc, -, hcovc⟩ := h.ranges c hc
        exact ⟨by omega, hcov q (hcovc q hcq hqc)⟩
    have hlta := hjoined.lt a ha
    exact ⟨(hmem a.1 le_rfl hlta).1, hlta, fun q hq hqa => (hmem q hq hqa).2⟩
  refine ⟨y, rest, heq, hjoined.le.1, hjoined.le.2, {
    ranges := fun a ha => hbehind a (List.mem_of_mem_take ha)
    discards := fun a ha => ?_
    apart := hjoined.apart.sublist (List.take_sublist 4 _)
    length_le := List.length_take_le 4 _ }, fun q hq => ?_⟩
  · rcases List.mem_append.1 ha with ha | ha
    · obtain ⟨hra, hlta, hcova⟩ := h.discards a ha
      exact ⟨hra, hlta, fun q hq hqa => hcov q (hcova q hq hqa)⟩
    · exact hbehind a (List.mem_of_mem_drop ha)
  · have hjoin (hq' : (hd ≤ q ∧ q < t) ∨ Holds L q) :
        Holds ((y :: rest).take 4) q ∨ Holds (D ++ (y :: rest).drop 4) q := by
      obtain ⟨a, ha, haq⟩ := (hjoined.holds_iff q).2 hq'
      rw [← List.take_append_drop 4 (y :: rest)] at ha
      rcases List.mem_append.1 ha with ha | ha
      · exact Or.inl ⟨a, ha, haq⟩
      · exact Or.inr ⟨a, List.mem_append_right D ha, haq⟩
    rcases hq with hq | hq | hq
    · exact hjoin (Or.inr hq)
    · exact Or.inr (hq.mono fun a ha => List.mem_append_left _ ha)
    · exact hjoin (Or.inl hq)

/-- The list of `UpdateSackList`. -/
theorem updateSackList_map {hd t : ℕ} (hends : Ends w ((hd, t) :: L)) (hlen : L.length ≤ 4) :
    updateSackList (place base hd) (place base t) (L.map (numbers base)) =
      ((joinAll L.length (hd, t) L).take 4).map (numbers base) := by
  have hle := length_joinAll_le L.length (hd, t) L
  rw [updateSackList]
  simp only [mergeSackList_map hends, List.length_map]
  by_cases hlt : 4 < (joinAll L.length (hd, t) L).length
  · rw [if_pos hlt, List.dropLast_eq_take, List.length_map, ← List.map_take]
    congr 2
    omega
  · rw [if_neg hlt, List.take_of_length_le (by omega)]

/-- What the next position has not moved over is listed. -/
theorem Pending.listed {rx : SackRxBuffer} {discarded : List SackBlock} {stored : Option SackBlock}
    {l' : List (Block UInt8)} {r' : ℕ} (h : Pending l' r L D) (hnear : Near base rx.buf l' k r')
    (hsplit : Split l' r) (hr' : r' = Blocks.advance l' r)
    (hall : ∀ q ∈ covered l', r' < q → Holds L q ∨ Holds D q)
    (hsack : rx.sackList = (L.filter fun a => r' < a.2).map (numbers base))
    (hdiscarded : discarded = (D.filter fun a => r' < a.2).map (numbers base))
    (hstored : ∀ range ∈ stored, ∃ h t, range = numbers base (h, t) ∧ h < t ∧
      ∃ a ∈ (L.filter fun a => r' < a.2).head?, a.1 ≤ h ∧ t ≤ a.2) :
    Listed base ⟨rx, discarded, stored⟩ l' k r' (L.filter fun a => r' < a.2)
      (D.filter fun a => r' < a.2) where
  toNear := hnear
  sackList := hsack
  discarded := hdiscarded
  ranges a ha := by
    obtain ⟨haL, hlt⟩ := List.mem_filter.1 ha
    rw [hr'] at hlt ⊢
    exact behind_advance hnear.sorted hnear.pos hsplit (h.ranges a haL) (of_decide_eq_true hlt)
  discards a ha := by
    obtain ⟨haD, hlt⟩ := List.mem_filter.1 ha
    rw [hr'] at hlt ⊢
    exact behind_advance hnear.sorted hnear.pos hsplit (h.discards a haD) (of_decide_eq_true hlt)
  apart := h.apart.filter _
  length_le := (List.length_filter_le _ _).trans h.length_le
  all q hq hlt := by
    have hkeep {R : List (ℕ × ℕ)} (hR : Holds R q) : Holds (R.filter fun a => r' < a.2) q := by
      obtain ⟨a, ha, haq, hqa⟩ := hR
      exact ⟨a, List.mem_filter.2 ⟨ha, decide_eq_true (hlt.trans hqa)⟩, haq, hqa⟩
    exact (hall q hq hlt).imp hkeep hkeep
  stored := hstored

theorem Near.ends (h : Near base b l k r) (hL : ∀ a ∈ L, Behind l r a) : Ends r L := by
  intro a ha
  have hend := h.lt_of_behind (hL a ha)
  obtain ⟨hra, hlt, -⟩ := hL a ha
  omega

theorem Ends.of_behind (h : ∀ a ∈ L, Behind l r a) (hwithin : Within w l) (hr : w ≤ r) :
    Ends w L := by
  intro a ha
  obtain ⟨hra, hlt, hcov⟩ := h a ha
  obtain ⟨e, he, hfirst, hlast⟩ := mem_covered.1 (hcov (a.2 - 1) (by omega) (by omega))
  have hin := hwithin e he
  omega

/-- A call to `Add` that stores nothing changes nothing. -/
theorem Listed.step_of_le (h : Listed base s l k r L D)
    (hle : (trimmed s.rx.buf p seq).tailSeq ≤ (trimmed s.rx.buf p seq).headSeq)
    (hadd : (s.rx.buf.add p seq).2 = s.rx.buf) :
    Listed base (s.step (.add p seq)) l k r L D := by
  have hnone : outOfOrder s.rx.buf p seq = none := by
    rw [outOfOrder]
    exact if_pos hle
  have hrx : s.rx.add p seq = s.rx := by
    rw [SackRxBuffer.add]
    simp only [hadd]
    exact if_pos hle
  have hclear : clearSackList s.rx.buf.nextRxSeq (s.discarded ++ []) = s.discarded := by
    rw [List.append_nil, h.discarded, h.next,
      clearSackList_map (h.ends h.discards) le_rfl (by omega),
      List.filter_eq_self.2 fun a ha =>
        decide_eq_true ((h.discards a ha).1.trans (h.discards a ha).2.1)]
  have hstep : s.step (.add p seq) = { s with stored := none } := by
    rw [step, hnone, hrx]
    change SackHistory.mk s.rx (clearSackList s.rx.buf.nextRxSeq (s.discarded ++ [])) none = _
    rw [hclear]
  rw [hstep]
  exact { h with stored := fun range hrange => by cases hrange }

/-- Reading leaves the lists as they are. -/
theorem Listed.extract (h : Listed base s l k r L D) (maxSize : UInt32) :
    ∃ l' k', Listed base (s.step (.extract maxSize)) l' k' r L D := by
  have hfar := h.far
  obtain ⟨w, hwr, hrw, hwithin⟩ := h.half
  obtain ⟨out, b', n, heq, hnr, -, hblocked⟩ := h.toBlocked.extract hwithin maxSize
  obtain ⟨-, -, hcov, -⟩ := serve_apart (n := n) h.sorted h.pos h.behind
    fun q hkq hq => h.inOrder q hkq (by omega)
  have hmem {q : ℕ} (hq : q ∈ covered l) (hrq : r < q) : q ∈ covered (serve l n).2 :=
    (hcov q).2 ⟨by omega, hq⟩
  have hbehind {a : ℕ × ℕ} (ha : Behind l r a) : Behind (serve l n).2 r a :=
    ⟨ha.1, ha.2.1, fun q hq hqa => hmem (ha.2.2 q hq hqa) (ha.1.trans_le hq)⟩
  refine ⟨(serve l n).2, k + n, ?_⟩
  rw [step, heq]
  exact {
    toBlocked := hblocked
    far := by omega
    half := by
      refine ⟨w, hwr, hrw, fun a ha => ?_⟩
      have hpos := hblocked.pos a ha
      have hfirst := ((hcov a.first).1 (mem_covered.2 ⟨a, ha, le_rfl, hpos⟩)).2
      have hlast := ((hcov (a.last - 1)).1 (mem_covered.2 ⟨a, ha, by omega, by omega⟩)).2
      obtain ⟨c, hc, hcin⟩ := mem_covered.1 hfirst
      obtain ⟨d, hd, hdin⟩ := mem_covered.1 hlast
      have hinc := hwithin c hc
      have hind := hwithin d hd
      omega
    sackList := h.sackList
    discarded := h.discarded
    ranges := fun a ha => hbehind (h.ranges a ha)
    discards := fun a ha => hbehind (h.discards a ha)
    apart := h.apart
    length_le := h.length_le
    all := fun q hq hrq => h.all q ((hcov q).1 hq).2 hrq
    stored := h.stored }

section Add

variable {t pos : ℕ} {c : Cut UInt8}

/-- The blocks after a segment has been stored. -/
structure Added (base : SequenceNumber32) (b : TcpRxBuffer) (l : List (Block UInt8)) (k r w : ℕ)
    (p : Packet) (seq : SequenceNumber32) (c : Cut UInt8) (l' : List (Block UInt8)) : Prop where
  near : Near base (b.add p seq).2 l' k (Blocks.advance l' r)
  within : Within w l'
  next : w ≤ Blocks.advance l' r ∧ Blocks.advance l' r < w + 2 ^ 31
  split : Split l' r
  covered_iff : ∀ q, q ∈ covered l' ↔ q ∈ covered l ∨ c.head ≤ q ∧ q < c.tail
  missing : r < c.head → Blocks.advance l' r = r

theorem Kept.added (hkept : Kept base b l r w p seq pos t c) (h : Near base b l k r) :
    ∃ l', Added base b l k r w p seq c l' := by
  obtain ⟨a, hfirst, hlast, hstored, heq⟩ :=
    h.toBlocked.add_of_lt hkept.toEnds hkept.cut_eq hkept.lt
  have hcut := hkept.cutOff h
  have hnext := hkept.next
  have hhead := hkept.head
  obtain ⟨hin, hout⟩ := advance_spec hstored.sorted hstored.pos hstored.split
  have hle := le_advance hstored.pos (r := r)
  have hcovered (q : ℕ) :
      q ∈ covered (put a c.kept) ↔ q ∈ covered l ∨ c.head ≤ q ∧ q < c.tail := by
    have hput : q ∈ covered (put a c.kept) ↔ q ∈ covered c.kept ∨ c.head ≤ q ∧ q < c.tail := by
      rw [covered_put, Finset.mem_union, mem_positions, hfirst, hlast, or_comm]
    rw [hput]
    constructor
    · rintro (hq | hq)
      · obtain ⟨e, he, heq⟩ := mem_covered.1 hq
        exact Or.inl (mem_covered.2 ⟨e, hcut.sublist.subset he, heq⟩)
      · exact Or.inr hq
    · rintro (hq | hq)
      · exact hput.1 ((hstored.covered_iff q).2 (Or.inl hq))
      · exact Or.inr hq
  have hadv : w ≤ Blocks.advance (put a c.kept) r ∧
      Blocks.advance (put a c.kept) r < w + 2 ^ 31 := by
    refine ⟨by omega, ?_⟩
    by_contra hfar
    obtain ⟨e, he, -, hlt⟩ := mem_covered.1 (hin (w + 2 ^ 31 - 1) (by omega) (by omega))
    have hine := hstored.within e he
    omega
  refine ⟨put a c.kept, {
    near := ?_
    within := hstored.within
    next := hadv
    split := hstored.split
    covered_iff := hcovered
    missing := fun hgap => ?_ }⟩
  · rw [heq]
    exact ⟨h.blocked_holding hstored hhead.1, h.far, w, hadv.1, hadv.2, hstored.within⟩
  · by_contra hne
    rcases (hcovered r).1 (hin r le_rfl (by omega)) with hmem | hmem
    · exact h.missing hmem
    · omega

theorem Listed.pending (h : Listed base s l k r L D) : Pending l r L D :=
  ⟨h.ranges, h.discards, h.apart, h.length_le⟩

theorem Pending.mono {l' : List (Block UInt8)} (h : Pending l r L D)
    (hl : ∀ q ∈ covered l, q ∈ covered l') : Pending l' r L D where
  ranges a ha := ⟨(h.ranges a ha).1, (h.ranges a ha).2.1, fun q hq hqa =>
    hl q ((h.ranges a ha).2.2 q hq hqa)⟩
  discards a ha := ⟨(h.discards a ha).1, (h.discards a ha).2.1, fun q hq hqa =>
    hl q ((h.discards a ha).2.2 q hq hqa)⟩
  apart := h.apart
  length_le := h.length_le

/-- The end of a call to `Add` that stores something : `L` and `D` are the lists before the next
position moves on. -/
theorem Kept.listed {l' : List (Block UInt8)} {stored : Option SackBlock}
    (hkept : Kept base s.rx.buf l r w p seq pos t c) (h : Near base s.rx.buf l k r)
    (hadded : Added base s.rx.buf l k r w p seq c l') (hpending : Pending l' r L D)
    (hall : ∀ q ∈ covered l', Blocks.advance l' r < q → Holds L q ∨ Holds D q)
    (hout : outOfOrder s.rx.buf p seq = stored)
    (hlist : (if s.rx.buf.nextRxSeq < place base c.head then
      updateSackList (place base c.head) (place base c.tail) s.rx.sackList
      else s.rx.sackList) = L.map (numbers base))
    (hlast : s.discarded ++ lastOf stored s.rx.sackList = D.map (numbers base))
    (hstored : ∀ range ∈ stored, ∃ h t, range = numbers base (h, t) ∧ h < t ∧
      ∃ a ∈ (L.filter fun a => Blocks.advance l' r < a.2).head?, a.1 ≤ h ∧ t ≤ a.2) :
    Listed base (s.step (.add p seq)) l' k (Blocks.advance l' r)
      (L.filter fun a => Blocks.advance l' r < a.2)
      (D.filter fun a => Blocks.advance l' r < a.2) := by
  have hnext := hkept.next
  have hcw := Blocked.cutOff_within (hkept.cutOff h) hkept.within
    ⟨hnext.1.trans hkept.head.1, hkept.head.2⟩ hkept.tail
  have hnot : ¬ place base c.tail ≤ place base c.head := fun hle =>
    absurd ((place_le hcw.2.1 hcw.2.2 hcw.1.1 hcw.1.2).1 hle) (Nat.not_le.2 hkept.lt)
  have hendsL := Ends.of_behind hpending.ranges hadded.within hnext.1
  have hendsD := Ends.of_behind hpending.discards hadded.within hnext.1
  have hbehind : ∀ a ∈ L, r < a.2 := fun a ha =>
    (hpending.ranges a ha).1.trans (hpending.ranges a ha).2.1
  have hrx : s.rx.add p seq = ⟨(s.rx.buf.add p seq).2,
      (L.filter fun a => Blocks.advance l' r < a.2).map (numbers base)⟩ := by
    rw [SackRxBuffer.add]
    simp only [hkept.headSeq, hkept.tailSeq]
    rw [if_neg hnot, hlist, hadded.near.data, h.next,
      clearAlong_map hadded.near.sorted hadded.near.pos hadded.within hnext.1 hnext.2 hendsL
        hbehind]
  rw [step, hout, hrx]
  refine hpending.listed hadded.near hadded.split rfl hall rfl ?_ hstored
  change clearSackList (s.rx.buf.add p seq).2.nextRxSeq (s.discarded ++ _) = _
  rw [hlast, hadded.near.next, clearSackList_map hendsD hadded.next.1 hadded.next.2]

/-- The range of a segment that is stored behind a gap. -/
theorem Kept.outOfOrder_eq (hkept : Kept base b l r w p seq pos t c) (h : Near base b l k r) :
    outOfOrder b p seq =
      if r < c.head then some (place base c.head, place base c.tail) else none := by
  have hnext := hkept.next
  have hcw := Blocked.cutOff_within (hkept.cutOff h) hkept.within
    ⟨hnext.1.trans hkept.head.1, hkept.head.2⟩ hkept.tail
  have hnot : ¬ place base c.tail ≤ place base c.head := fun hle =>
    absurd ((place_le hcw.2.1 hcw.2.2 hcw.1.1 hcw.1.2).1 hle) (Nat.not_le.2 hkept.lt)
  rw [outOfOrder]
  simp only [hkept.headSeq, hkept.tailSeq, h.next,
    place_lt hnext.1 hnext.2 hcw.1.1 hcw.1.2]
  exact if_neg hnot

/-- A segment of which a part is stored keeps the lists. -/
theorem Listed.add_kept (h : Listed base s l k r L D) (hfits : s.Fits (.add p seq))
    (hkept : Kept base s.rx.buf l r w p seq pos t c) :
    ∃ l' r' L' D', Listed base (s.step (.add p seq)) l' k r' L' D' := by
  have hnear := h.toNear
  obtain ⟨l', hadded⟩ := hkept.added hnear
  have hlt := hkept.lt
  have hnext := hkept.next
  have hout := hkept.outOfOrder_eq hnear
  have hcw := Blocked.cutOff_within (hkept.cutOff hnear) hkept.within
    ⟨hnext.1.trans hkept.head.1, hkept.head.2⟩ hkept.tail
  have hgapiff : s.rx.buf.nextRxSeq < place base c.head ↔ r < c.head := by
    rw [h.next, place_lt hnext.1 hnext.2 hcw.1.1 hcw.1.2]
  have hmono (q : ℕ) (hq : q ∈ covered l) : q ∈ covered l' :=
    (hadded.covered_iff q).2 (Or.inl hq)
  have hnew (q : ℕ) (hq : c.head ≤ q) (hqc : q < c.tail) : q ∈ covered l' :=
    (hadded.covered_iff q).2 (Or.inr ⟨hq, hqc⟩)
  have hle := le_advance hadded.near.pos (r := r)
  by_cases hgap : r < c.head
  · rw [if_pos hgap] at hout
    have hends : Ends w ((c.head, c.tail) :: L) :=
      List.forall_mem_cons.2 ⟨hcw, Ends.of_behind h.ranges hkept.within hnext.1⟩
    obtain ⟨y, rest, heq, hyhead, hytail, hpending, hholds⟩ :=
      pending_store h.pending hlt hgap hmono hnew fun a ha => h.beside hfits hkept hgap ha
    refine ⟨l', _, _, _, hkept.listed hnear hadded hpending ?_ hout ?_ ?_ ?_⟩
    · intro q hq hrq
      refine hholds q ?_
      rcases (hadded.covered_iff q).1 hq with hq | hq
      · exact (h.all q hq (by omega)).imp_right Or.inl
      · exact Or.inr (Or.inr hq)
    · rw [if_pos (hgapiff.2 hgap), h.sackList, updateSackList_map hends h.length_le, heq]
    · rw [lastOf, h.discarded, h.sackList, mergeSackList_map hends, heq, ← List.map_drop,
        ← List.map_append]
    · intro range hrange
      obtain rfl := Option.some.inj hrange
      refine ⟨c.head, c.tail, rfl, hlt, y, ?_, hyhead, hytail⟩
      rw [hadded.missing hgap, List.filter_eq_self.2 fun a ha => decide_eq_true
        ((hpending.ranges a ha).1.trans (hpending.ranges a ha).2.1)]
      rfl
  · rw [if_neg hgap] at hout
    refine ⟨l', _, _, _, hkept.listed hnear hadded (h.pending.mono hmono) ?_ hout ?_ ?_ ?_⟩
    · intro q hq hrq
      rcases (hadded.covered_iff q).1 hq with hq | hq
      · exact h.all q hq (by omega)
      · -- the next position moves over all that is stored
        obtain ⟨-, hmissing⟩ := advance_spec hadded.near.sorted hadded.near.pos hadded.split
        exact absurd (hnew _ (by omega) (by omega)) hmissing
    · rw [if_neg (fun hn => hgap (hgapiff.1 hn)), h.sackList]
    · rw [lastOf, List.append_nil, h.discarded]
    · intro range hrange
      cases hrange

end Add

theorem Listed.step (h : Listed base s l k r L D) {call : SackCall} (hfits : s.Fits call) :
    ∃ l' k' r' L' D', Listed base (s.step call) l' k' r' L' D' := by
  cases call with
  | add p seq =>
    rcases h.toNear.trimmed_cases hfits.1 with ⟨hle, hadd⟩ | ⟨w, pos, t, c, hkept⟩
    · exact ⟨l, k, r, L, D, h.step_of_le hle hadd⟩
    · obtain ⟨l', r', L', D', h'⟩ := h.add_kept hfits hkept
      exact ⟨l', k, r', L', D', h'⟩
  | extract maxSize =>
    obtain ⟨l', k', h'⟩ := h.extract maxSize
    exact ⟨l', k', r, L, D, h'⟩

theorem listed_start (next : SequenceNumber32) (maxBuffer : UInt32) :
    Listed next (start next maxBuffer) [] (2 ^ 32) (2 ^ 32) [] [] where
  toBlocked := by
    have hplace : place next (2 ^ 32) = next := SequenceNumber32.add_zero next
    have hnil := blocked_nil next (2 ^ 32) maxBuffer
    rwa [hplace] at hnil
  far := le_rfl
  half := ⟨2 ^ 32, le_rfl, by omega, fun a ha => absurd ha List.not_mem_nil⟩
  sackList := rfl
  discarded := rfl
  ranges a ha := absurd ha List.not_mem_nil
  discards a ha := absurd ha List.not_mem_nil
  apart := List.Pairwise.nil
  length_le := Nat.zero_le 4
  all q hq := absurd hq (Finset.notMem_empty q)
  stored range hrange := by cases hrange

/-- As long as no segment swallows a listed block, the SACK list is what it is to be. -/
theorem advertised_of_run (next : SequenceNumber32) (maxBuffer : UInt32) (calls : List SackCall)
    (h : Each SackHistory.step Fits (start next maxBuffer) calls) :
    Always SackHistory.step Advertised (start next maxBuffer) calls :=
  (h.always (P := fun s => ∃ l k r L D, Listed next s l k r L D)
    (fun _ _ hs hfits => by
      obtain ⟨l, k, r, L, D, hlisted⟩ := hs
      exact hlisted.step hfits) ⟨[], 2 ^ 32, 2 ^ 32, [], [], listed_start next maxBuffer⟩).mono
    fun _ hs => by
      obtain ⟨l, k, r, L, D, hlisted⟩ := hs
      exact hlisted.advertised

/-- Segments that fill the gap between listed blocks, and what is read. -/
theorem advertised_gap : Always SackHistory.step Advertised (start ⟨0xfffffffe⟩ 100)
    [.add [5, 6, 7] ⟨2⟩, .add [10, 11, 12] ⟨7⟩, .add [7, 8, 9, 10] ⟨4⟩,
      .add [1, 2, 3, 4] ⟨0xfffffffe⟩, .extract 5, .add [20, 21] ⟨17⟩] :=
  advertised_of_run ⟨0xfffffffe⟩ 100 _ (by decide)

/-- A segment that has swallowed a listed block overlaps it in the list. -/
theorem not_advertised : ¬ ∀ (next : SequenceNumber32) (maxBuffer : UInt32)
    (calls : List SackCall), Always SackHistory.step Advertised (start next maxBuffer) calls := by
  intro h
  have hlast := (h ⟨0⟩ 100 [.add [10, 11] ⟨10⟩, .add [8, 9, 10, 11, 12, 13] ⟨8⟩]).last
  exact absurd hlast.apart (by decide)

end SackHistory

end Ns3Pedca
