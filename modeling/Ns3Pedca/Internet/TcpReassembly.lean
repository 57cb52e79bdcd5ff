import Ns3Pedca.Blocks
import Ns3Pedca.Runs
import Ns3Pedca.Internet.TcpRxBuffer

/-!
# Delivery in order

The segments that reach the receive buffer carry bytes of one stream `S`, whose first byte
has the sequence number `base`. A `Receiver` is the buffer with its history : the bytes that
have been extracted, and the positions of `S` that the buffer has accepted, whether they
have been extracted or not. `Delivers` is what the buffer owes its reader.

The buffer holds blocks of `S` (`Blocks`), its sequence numbers being positions of `S` as
long as they lie within one half of the number space. Each call that keeps to this
(`InReach`) keeps the blocks right (`Holds.step`), so that every run of such calls delivers
(`delivers_of_run`). A short stream is always in reach (`delivers_of_short`). A segment from
far away in a long stream takes the place of another one (`not_delivers`).
-/

set_option linter.unusedSectionVars false

namespace Ns3Pedca

open Runs Blocks

namespace TcpRxBuffer

/-! ## Positions and sequence numbers -/

/-- The sequence number of the position `p`. -/
def place (base : SequenceNumber32) (p : ℕ) : SequenceNumber32 :=
  base + UInt32.ofNat p

/-- The entry of the map for a block. -/
def entry (base : SequenceNumber32) (b : Block UInt8) : SequenceNumber32 × Packet :=
  (place base b.first, b.data)

section Place

variable {base : SequenceNumber32} {w p q n : ℕ} {l : List (Block UInt8)} {b : Block UInt8}

theorem place_add (base : SequenceNumber32) (p n : ℕ) :
    place base p + UInt32.ofNat n = place base (p + n) := by
  rw [place, place, SequenceNumber32.add_assoc, ← UInt32.ofNat_add]

theorem place_add_getSize (base : SequenceNumber32) (b : Block UInt8) :
    place base b.first + Packet.getSize b.data = place base b.last :=
  place_add base b.first b.data.length

theorem offset_place (hp : w ≤ p) (hlt : p < w + 2 ^ 31) :
    SequenceNumber32.offset (place base w) (place base p) = p - w := by
  obtain ⟨d, rfl⟩ := Nat.exists_eq_add_of_le hp
  have hd : (UInt32.ofNat d).toNat = d := UInt32.toNat_ofNat_of_lt' (show d < 2 ^ 32 by omega)
  rw [← place_add, SequenceNumber32.offset_add, SequenceNumber32.offset_self, hd]
  · omega
  · rw [SequenceNumber32.offset_self, hd]
    omega

theorem place_lt (hp : w ≤ p) (hpw : p < w + 2 ^ 31) (hq : w ≤ q) (hqw : q < w + 2 ^ 31) :
    place base p < place base q ↔ p < q := by
  rw [SequenceNumber32.lt_iff (w := place base w), offset_place hp hpw, offset_place hq hqw]
  · omega
  · rw [offset_place hp hpw]
    omega
  · rw [offset_place hq hqw]
    omega

theorem place_le (hp : w ≤ p) (hpw : p < w + 2 ^ 31) (hq : w ≤ q) (hqw : q < w + 2 ^ 31) :
    place base p ≤ place base q ↔ p ≤ q := by
  rw [← SequenceNumber32.not_lt, place_lt hq hqw hp hpw, Nat.not_lt]

theorem place_inj (hp : w ≤ p) (hpw : p < w + 2 ^ 31) (hq : w ≤ q) (hqw : q < w + 2 ^ 31) :
    place base p = place base q ↔ p = q := by
  refine ⟨fun h => ?_, fun h => h ▸ rfl⟩
  have hoffset := congrArg (SequenceNumber32.offset (place base w)) h
  rw [offset_place hp hpw, offset_place hq hqw] at hoffset
  omega

theorem place_max (hp : w ≤ p) (hpw : p < w + 2 ^ 31) (hq : w ≤ q) (hqw : q < w + 2 ^ 31) :
    (if place base p < place base q then place base q else place base p) =
      place base (max p q) := by
  have hlt : place base p < place base q ↔ p < q := place_lt hp hpw hq hqw
  by_cases h : p < q
  · rw [if_pos (hlt.2 h), Nat.max_eq_right h.le]
  · rw [if_neg (fun hn => h (hlt.1 hn)), Nat.max_eq_left (Nat.not_lt.1 h)]

theorem place_min (hp : w ≤ p) (hpw : p < w + 2 ^ 31) (hq : w ≤ q) (hqw : q < w + 2 ^ 31) :
    (if place base p < place base q then place base p else place base q) =
      place base (min q p) := by
  have hlt : place base p < place base q ↔ p < q := place_lt hp hpw hq hqw
  by_cases h : p < q
  · rw [if_pos (hlt.2 h), Nat.min_eq_right h.le]
  · rw [if_neg (fun hn => h (hlt.1 hn)), Nat.min_eq_left (Nat.not_lt.1 h)]

theorem toNat_place_sub (h : p ≤ q) (hlt : q - p < 2 ^ 32) :
    (place base q - place base p).toNat = q - p := by
  obtain ⟨d, rfl⟩ := Nat.exists_eq_add_of_le h
  rw [← place_add, SequenceNumber32.add_sub_self, UInt32.toNat_ofNat_of_lt'
    (show d < 2 ^ 32 by omega)]
  omega

/-! ## The loops on positions -/

/-- The blocks lie in the half of the number space that begins at `w`. -/
def Within (w : ℕ) (l : List (Block UInt8)) : Prop :=
  ∀ b ∈ l, w ≤ b.first ∧ b.first < w + 2 ^ 31 ∧ b.last < w + 2 ^ 31

theorem trim_map (hl : Within w l) {h t : ℕ} (hh : w ≤ h) (hhw : h < w + 2 ^ 31) (ht : w ≤ t)
    (htw : t < w + 2 ^ 31) (size : UInt32) :
    trim (place base h) (place base t) size (l.map (entry base)) =
      ⟨(cut h t l).kept.map (entry base), place base (cut h t l).head, place base (cut h t l).tail,
        size - UInt32.ofNat (total l) + UInt32.ofNat (total (cut h t l).kept)⟩ := by
  induction l generalizing h t size with
  | nil =>
    rw [List.map_nil, trim, cut, total_nil]
    simp
  | cons b l ih =>
    obtain ⟨⟨hfirst, hfirstw, hlast⟩, hl⟩ := List.forall_mem_cons.1 hl
    have hle := first_le_last b
    rw [List.map_cons, trim, cut]
    simp only [entry, place_add_getSize, place_le hfirst hfirstw ht htw,
      place_lt hh hhw (hfirst.trans hle) hlast, place_lt hh hhw hfirst hfirstw,
      place_lt (hfirst.trans hle) hlast ht htw, place_le hfirst hfirstw hh hhw,
      place_le ht htw (hfirst.trans hle) hlast]
    by_cases h1 : b.first ≤ t
    · rw [if_pos h1, if_pos h1]
      by_cases h2 : h < b.last
      · rw [if_pos h2, if_pos h2]
        by_cases h3 : h < b.first ∧ b.last < t
        · rw [if_pos h3, if_pos h3, ih hl hh hhw ht htw, total_cons, UInt32.ofNat_add]
          congr 2
          change size - UInt32.ofNat b.data.length - _ = _
          grind
        · rw [if_neg h3, if_neg h3, ← apply_ite (place base), ← apply_ite (place base),
            ih hl (by split_ifs <;> omega) (by split_ifs <;> omega) (by split_ifs <;> omega)
              (by split_ifs <;> omega)]
          simp only [List.map_cons, total_cons, UInt32.ofNat_add, entry]
          congr 1
          grind
      · rw [if_neg h2, if_neg h2, ih hl hh hhw ht htw]
        simp only [List.map_cons, total_cons, UInt32.ofNat_add, entry]
        congr 1
        grind
    · rw [if_neg h1, if_neg h1]
      simp only [List.map_cons, entry]
      congr 1
      grind

theorem assign_map (hl : Within w l) (hb : w ≤ b.first) (hbw : b.first < w + 2 ^ 31)
    (hne : ∀ a ∈ l, a.first ≠ b.first) :
    assign (place base b.first) b.data (l.map (entry base)) = (put b l).map (entry base) := by
  induction l with
  | nil => rfl
  | cons a l ih =>
    obtain ⟨⟨hfirst, hfirstw, -⟩, hl⟩ := List.forall_mem_cons.1 hl
    obtain ⟨ha, hne⟩ := List.forall_mem_cons.1 hne
    rw [List.map_cons, assign, put]
    simp only [entry, place_lt hb hbw hfirst hfirstw, place_lt hfirst hfirstw hb hbw]
    by_cases hlt : b.first < a.first
    · rw [if_pos hlt, if_pos hlt]
      rfl
    · have hgt : a.first < b.first := by omega
      rw [if_neg hlt, if_neg hlt, if_pos hgt]
      exact congrArg _ (ih hl hne)

theorem advance_map (hsorted : Sorted l) (hlen : ∀ b ∈ l, b.first < b.last) (hl : Within w l)
    {r : ℕ} (hr : w ≤ r) (hrw : r < w + 2 ^ 31) (avail : UInt32) :
    advance (place base r) avail (l.map (entry base)) =
      (place base (Blocks.advance l r), avail + UInt32.ofNat (Blocks.advance l r - r)) := by
  induction l generalizing r avail with
  | nil =>
    change (_, _) = (_, avail + UInt32.ofNat (r - r))
    rw [Nat.sub_self]
    simp [Blocks.advance]
  | cons b l ih =>
    obtain ⟨⟨hfirst, hfirstw, hlast⟩, hl⟩ := List.forall_mem_cons.1 hl
    obtain ⟨hb, hlen⟩ := List.forall_mem_cons.1 hlen
    rw [List.map_cons, advance, Blocks.advance]
    simp only [entry, place_add_getSize, place_lt hfirst hfirstw hr hrw,
      place_lt hr hrw hfirst hfirstw]
    by_cases hlt : b.first < r
    · rw [if_pos hlt, if_pos hlt]
      exact ih hsorted.tail hlen hl hr hrw avail
    · rw [if_neg hlt, if_neg hlt]
      by_cases hgt : r < b.first
      · rw [if_pos hgt, if_pos hgt, Nat.sub_self]
        simp
      · rw [if_neg hgt, if_neg hgt]
        have hr' : r = b.first := by omega
        have hle := le_advance hlen (r := b.last)
        rw [ih hsorted.tail hlen hl (by omega) hlast, hr']
        congr 1
        change avail + UInt32.ofNat b.data.length + _ = _
        rw [UInt32.add_assoc, ← UInt32.ofNat_add]
        congr 2
        rw [Block.last] at hle ⊢
        omega

theorem takeOut_map (hsorted : Sorted l) (hl : Within w l) (hn : n ≤ total l)
    (hlen : total l < 2 ^ 32) (hpos : ∀ b ∈ l, b.first < b.last) :
    takeOut (UInt32.ofNat n) (l.map (entry base)) =
      some ((serve l n).1, (serve l n).2.map (entry base)) := by
  induction l generalizing n with
  | nil =>
    rw [total_nil] at hn
    obtain rfl : n = 0 := by omega
    rfl
  | cons b l ih =>
    rw [total_cons] at hn hlen
    have hnat : (UInt32.ofNat n).toNat = n :=
      UInt32.toNat_ofNat_of_lt' (show n < 2 ^ 32 by omega)
    have hsize : (Packet.getSize b.data).toNat = b.data.length :=
      UInt32.toNat_ofNat_of_lt' (show b.data.length < 2 ^ 32 by omega)
    have hzero : UInt32.ofNat n = 0 ↔ n = 0 := by
      rw [← UInt32.toNat_inj, hnat]
      rfl
    have hle : Packet.getSize b.data ≤ UInt32.ofNat n ↔ b.data.length ≤ n := by
      rw [UInt32.le_iff_toNat_le, hsize, hnat]
    obtain ⟨⟨hfirst, -, hlast⟩, hl⟩ := List.forall_mem_cons.1 hl
    obtain ⟨hb, hpos⟩ := List.forall_mem_cons.1 hpos
    rw [List.map_cons, takeOut, serve]
    simp only [entry, hzero, hle]
    by_cases h0 : n = 0
    · rw [if_pos h0, if_pos h0]
      rfl
    rw [if_neg h0, if_neg h0]
    by_cases h1 : b.data.length ≤ n
    · have hsub : UInt32.ofNat n - Packet.getSize b.data = UInt32.ofNat (n - b.data.length) := by
        rw [UInt32.ofNat_sub h1]
        rfl
      rw [if_pos h1, if_pos h1, hsub, ih hsorted.tail hl (by omega) (by omega) hpos]
      rfl
    · have hsub : Packet.getSize b.data - UInt32.ofNat n = UInt32.ofNat (b.data.length - n) := by
        rw [UInt32.ofNat_sub (by omega)]
        rfl
      have hlastRest := Block.last_rest (b := b) (n := n) (by omega)
      have hput : put (b.rest n) l = b.rest n :: l := by
        cases l with
        | nil => rfl
        | cons a l =>
          have ha := hsorted.last_le List.mem_cons_self
          have hbl : (b.rest n).first < b.last := by
            change b.first + n < b.first + b.data.length
            omega
          rw [put, if_pos (by omega)]
      have hfirstRest : (b.rest n).first = b.first + n := rfl
      rw [if_neg h1, if_neg h1, hsub, place_add, ← hfirstRest,
        Packet.createFragment_eq (by simp [hnat]; omega) (by omega),
        Packet.createFragment_eq (by
          rw [hnat, UInt32.toNat_ofNat_of_lt' (show b.data.length - n < 2 ^ 32 by omega)]
          omega) (by omega), hnat, UInt32.toNat_ofNat_of_lt'
            (show b.data.length - n < 2 ^ 32 by omega)]
      have hrest : (b.data.drop n).take (b.data.length - n) = (b.rest n).data :=
        List.take_of_length_le (by rw [List.length_drop])
      rw [hrest, assign_map (b := b.rest n) hl (by omega) (by
        rw [Block.last] at hlast
        omega) (fun a ha => ?_), hput]
      · rfl
      · have hage := hsorted.last_le ha
        rw [Block.last] at hage
        omega

end Place

/-! ## The receiver -/

/-- The buffer, the bytes extracted from it, and the positions of the stream it has
accepted. -/
structure Receiver where
  buf : TcpRxBuffer
  out : List UInt8 := []
  accepted : Finset ℕ := ∅

/-- A call on the buffer. -/
inductive RxCall
  /-- `Add` of a segment with `n` bytes from the position `k` of the stream on. -/
  | add (k n : ℕ)
  /-- `Extract`. -/
  | extract (maxSize : UInt32)
  /-- `SetFinSequence` with the number behind the stream. -/
  | setFinSequence

namespace Receiver

variable (S : List UInt8) (base : SequenceNumber32)

/-- The buffer before the first segment. -/
def start (maxBuffer : UInt32) : Receiver :=
  ⟨{ nextRxSeq := base, maxBuffer := maxBuffer }, [], ∅⟩

/-- The positions that have been accepted and not extracted. -/
def held (s : Receiver) : Finset ℕ :=
  s.accepted.filter (s.out.length ≤ ·)

/-- The positions of a segment that are in the receive window, which begins at the first
position that is held. -/
def window (s : Receiver) (k n : ℕ) : Finset ℕ :=
  (Finset.Ico k (k + n)).filter fun p => ∀ q ∈ s.held, p < q + s.buf.maxBuffer.toNat

/-- A call. -/
def step (s : Receiver) : RxCall → Receiver
  | .add k n =>
    { s with
      buf := (s.buf.add (slice S k n) (place base k)).2
      accepted := s.accepted ∪ s.window k n }
  | .extract maxSize =>
    match s.buf.extract maxSize with
    | some (p, buf) => { s with buf := buf, out := s.out ++ p }
    | none => s
  | .setFinSequence => { s with buf := s.buf.setFinSequence (place base S.length) }

/-- `r` is the first position that has not been accepted. -/
def FirstMissing (s : Receiver) (r : ℕ) : Prop :=
  (∀ p < r, p ∈ s.accepted) ∧ r ∉ s.accepted

/-- What the receive buffer owes its reader. -/
structure Delivers (s : Receiver) : Prop where
  /-- What has been extracted is the beginning of the stream. -/
  isPrefix : s.out <+: S
  /-- `NextRxSequence` is the first byte not received contiguously, or the number behind the
  FIN, and `Available` counts the bytes from the extracted ones up to there. -/
  next : ∃ r, s.FirstMissing r ∧ s.out.length + s.buf.availBytes.toNat = r ∧
    s.buf.nextRxSeq = place base (if s.buf.gotFin = true ∧ r = S.length then r + 1 else r)
  /-- `Size` is the number of bytes held. -/
  size : s.buf.size.toNat = s.held.card
  /-- Every byte that was accepted and not extracted is there, under its number. -/
  kept : ∀ p ∈ s.held, ∃ i ∈ s.buf.data, ∃ j, i.1 + UInt32.ofNat j = place base p ∧
    i.2[j]? = S[p]? ∧ j < i.2.length
  /-- `Extract` gives the next bytes of the stream, as many as are available. -/
  extract : ∀ maxSize, ∃ buf, s.buf.extract maxSize =
    some (slice S s.out.length (min maxSize s.buf.availBytes).toNat, buf)

/-- The segment, the bytes held and the receive window lie in one half of the number
space. -/
structure InReach (s : Receiver) (k n : ℕ) : Prop where
  segment : k + n + 1 < min k s.out.length + 2 ^ 31
  bytes : ∀ p ∈ s.accepted, p + 2 < min k s.out.length + 2 ^ 31
  window : ∀ q ∈ s.held, (∀ p ∈ s.held, q ≤ p) →
    q + s.buf.maxBuffer.toNat < min k s.out.length + 2 ^ 31

/-- A segment carries bytes of the stream and is in reach, and so is the FIN. -/
def Ok (s : Receiver) : RxCall → Prop
  | .add k n => k + n ≤ S.length ∧ s.InReach k n
  | .extract _ => True
  | .setFinSequence => S.length + 1 < s.out.length + 2 ^ 31

/-! ## What the buffer holds -/

/-- The buffer holds the blocks `l`, and `r` is the first position that is missing. -/
structure Holds (s : Receiver) (l : List (Block UInt8)) (r : ℕ) : Prop where
  data : s.buf.data = l.map (entry base)
  sorted : Sorted l
  blocks : ∀ b ∈ l, b.Of S
  out : s.out = S.take s.out.length
  held : covered l = s.held
  missing : s.FirstMissing r
  out_le : s.out.length ≤ r
  inStream : ∀ p ∈ s.accepted, p < S.length
  near : ∀ p ∈ s.accepted, p + 2 < s.out.length + 2 ^ 31
  next : s.buf.nextRxSeq = place base (if s.buf.gotFin = true ∧ r = S.length then r + 1 else r)
  size : s.buf.size = UInt32.ofNat (total l)
  avail : s.buf.availBytes = UInt32.ofNat (r - s.out.length)
  fin : s.buf.gotFin = true → s.buf.finSeq = place base S.length ∧ S.length + 1 < r + 2 ^ 31

variable {S base} {s : Receiver} {l : List (Block UInt8)} {r k n p : ℕ}

theorem mem_held : p ∈ s.held ↔ p ∈ s.accepted ∧ s.out.length ≤ p :=
  Finset.mem_filter

theorem mem_window : p ∈ s.window k n ↔
    (k ≤ p ∧ p < k + n) ∧ ∀ q ∈ s.held, p < q + s.buf.maxBuffer.toNat := by
  rw [window, Finset.mem_filter, Finset.mem_Ico]

theorem FirstMissing.lt_of_mem (h : s.FirstMissing r) (hr : 0 < r) : ∃ p ∈ s.accepted, r = p + 1 :=
  ⟨r - 1, h.1 _ (by omega), by omega⟩

namespace Holds

theorem le_length (h : Holds S base s l r) : r ≤ S.length := by
  by_contra hlt
  obtain ⟨p, hp, rfl⟩ := h.missing.lt_of_mem (by omega)
  have hpS := h.inStream p hp
  omega

theorem near_first (h : Holds S base s l r) : r + 1 < s.out.length + 2 ^ 31 := by
  by_cases hr : r = 0
  · omega
  · obtain ⟨p, hp, rfl⟩ := h.missing.lt_of_mem (by omega)
    have hnear := h.near p hp
    omega

theorem pos (h : Holds S base s l r) : ∀ b ∈ l, b.first < b.last :=
  fun b hb => (h.blocks b hb).first_lt_last

theorem within (h : Holds S base s l r) : Within s.out.length l := by
  intro b hb
  have hlt := h.pos b hb
  have hfirst : b.first ∈ s.held := h.held ▸ mem_covered.2 ⟨b, hb, le_rfl, hlt⟩
  have hlast : b.last - 1 ∈ s.held := h.held ▸ mem_covered.2 ⟨b, hb, by omega, by omega⟩
  have hnear := h.near _ (mem_held.1 hlast).1
  have hle := (mem_held.1 hfirst).2
  exact ⟨hle, by omega, by omega⟩

theorem card_le (h : Holds S base s l r) : total l < 2 ^ 31 := by
  rw [← card_covered h.sorted, h.held]
  have hsub : s.held ⊆ Finset.Ico s.out.length (s.out.length + 2 ^ 31 - 2) := by
    intro p hp
    obtain ⟨hmem, hle⟩ := mem_held.1 hp
    have hnear := h.near p hmem
    exact Finset.mem_Ico.2 ⟨hle, by omega⟩
  have hcard := Finset.card_le_card hsub
  rw [Nat.card_Ico] at hcard
  omega

theorem toNat_avail (h : Holds S base s l r) :
    s.buf.availBytes.toNat = r - s.out.length := by
  have hnear := h.near_first
  rw [h.avail, UInt32.toNat_ofNat_of_lt' (show r - s.out.length < 2 ^ 32 by omega)]

/-- Everything from the extracted bytes up to the first missing one is held. -/
theorem mem_covered_of_lt (h : Holds S base s l r) (hle : s.out.length ≤ p) (hlt : p < r) :
    p ∈ covered l :=
  h.held ▸ mem_held.2 ⟨h.missing.1 p hlt, hle⟩

theorem avail_le (h : Holds S base s l r) : r - s.out.length ≤ total l := by
  rw [← card_covered h.sorted]
  have hsub : Finset.Ico s.out.length r ⊆ covered l := fun p hp =>
    h.mem_covered_of_lt (Finset.mem_Ico.1 hp).1 (Finset.mem_Ico.1 hp).2
  have hcard := Finset.card_le_card hsub
  rwa [Nat.card_Ico] at hcard

/-- `Extract` on the blocks. -/
theorem extract_eq (h : Holds S base s l r) (maxSize : UInt32) :
    s.buf.extract maxSize = some (slice S s.out.length (min maxSize s.buf.availBytes).toNat,
      { s.buf with
        data := (serve l (min maxSize s.buf.availBytes).toNat).2.map (entry base)
        size := s.buf.size - min maxSize s.buf.availBytes
        availBytes := s.buf.availBytes - min maxSize s.buf.availBytes }) := by
  have hle : (min maxSize s.buf.availBytes).toNat ≤ r - s.out.length := by
    rw [uint32_toNat_min, h.toNat_avail]
    exact Nat.min_le_right _ _
  have htake : takeOut _ (l.map (entry base)) = _ := takeOut_map h.sorted h.within
    (hle.trans h.avail_le) (by have hcard := h.card_le; omega) h.pos
  have hserve := (serve_spec h.sorted h.blocks (k := s.out.length)
    (n := (min maxSize s.buf.availBytes).toNat)
    (fun p hp => (mem_held.1 (h.held ▸ hp)).2)
    (fun p hge hlt => h.mem_covered_of_lt hge (by omega))).1
  rw [UInt32.ofNat_toNat, ← h.data] at htake
  rw [TcpRxBuffer.extract, htake, Option.map_some, hserve]

theorem delivers (h : Holds S base s l r) : Delivers S base s where
  isPrefix := by
    rw [h.out]
    exact List.take_prefix _ _
  next := by
    refine ⟨r, h.missing, ?_, h.next⟩
    rw [h.toNat_avail]
    exact Nat.add_sub_cancel' h.out_le
  size := by
    have hcard := h.card_le
    rw [h.size, UInt32.toNat_ofNat_of_lt' (show total l < 2 ^ 32 by omega), ← h.held,
      card_covered h.sorted]
  kept p hp := by
    rw [← h.held] at hp
    obtain ⟨b, hb, hfirst, hlast⟩ := mem_covered.1 hp
    have hj : p - b.first < b.data.length := by
      rw [Block.last] at hlast
      omega
    refine ⟨entry base b, h.data ▸ List.mem_map_of_mem hb, p - b.first, ?_, ?_, hj⟩
    · rw [entry, place_add, Nat.add_sub_cancel' hfirst]
    · change b.data[p - b.first]? = S[p]?
      rw [(h.blocks b hb).data_eq, slice, List.getElem?_take_of_lt hj, List.getElem?_drop,
        Nat.add_sub_cancel' hfirst]
  extract maxSize := ⟨_, h.extract_eq maxSize⟩

end Holds

/-! ## The calls -/

section PassFin

variable {b : TcpRxBuffer}

theorem passFin_eq (b : TcpRxBuffer) :
    passFin b = { b with nextRxSeq := (passFin b).nextRxSeq } := by
  rw [passFin]
  split_ifs <;> rfl

/-- `passFin` counts the FIN once, when all bytes before it are there. -/
theorem nextRxSeq_passFin (S : List UInt8) (base : SequenceNumber32) (b : TcpRxBuffer)
    (hfin : b.gotFin = true →
      b.finSeq = place base S.length ∧ S.length + 1 < r + 2 ^ 31) (hr : r ≤ S.length)
    (hnext : b.nextRxSeq = place base r ∨
      r = S.length ∧ b.gotFin = true ∧ b.nextRxSeq = place base (r + 1)) :
    (passFin b).nextRxSeq = place base (if b.gotFin = true ∧ r = S.length then r + 1 else r) := by
  rw [passFin]
  by_cases hgot : b.gotFin = true
  · obtain ⟨hseq, hS⟩ := hfin hgot
    have hplace : ∀ p, r ≤ p → p ≤ S.length + 1 → (place base p = place base S.length ↔
        p = S.length) := fun p hrp hpS => place_inj (w := r) hrp (by omega) hr (by omega)
    rcases hnext with hnext | ⟨hlast, -, hnext⟩
    · have hcond : (b.gotFin = true ∧ b.nextRxSeq = b.finSeq) ↔
          (b.gotFin = true ∧ r = S.length) := by
        rw [hseq, hnext, hplace r le_rfl (by omega)]
      by_cases hc : b.gotFin = true ∧ r = S.length
      · rw [if_pos (hcond.2 hc), if_pos hc]
        change b.nextRxSeq + UInt32.ofNat 1 = _
        rw [hnext, place_add]
      · rw [if_neg (fun hn => hc (hcond.1 hn)), if_neg hc]
        exact hnext
    · have hne : b.nextRxSeq ≠ b.finSeq := by
        rw [hseq, hnext, Ne, hplace _ (Nat.le_succ r) (by omega)]
        omega
      rw [if_neg (fun hn => hne hn.2), if_pos ⟨hgot, hlast⟩]
      exact hnext
  · rw [if_neg (fun hn => hgot hn.1), if_neg (fun hn => hgot hn.1)]
    rcases hnext with hnext | ⟨-, hgot', -⟩
    · exact hnext
    · exact absurd hgot' hgot

end PassFin

namespace Holds

theorem extract (h : Holds S base s l r) (maxSize : UInt32) :
    ∃ l, Holds S base (s.step S base (.extract maxSize)) l r := by
  obtain ⟨m, hm⟩ : ∃ m, m = (min maxSize s.buf.availBytes).toNat := ⟨_, rfl⟩
  have hle : m ≤ r - s.out.length := by
    rw [hm, uint32_toNat_min, h.toNat_avail]
    exact Nat.min_le_right _ _
  have houtle := h.out_le
  have hrS := h.le_length
  have hmin : min maxSize s.buf.availBytes = UInt32.ofNat m := by
    rw [hm, UInt32.ofNat_toNat]
  obtain ⟨-, hsorted, hof, hcov, htotal⟩ := serve_spec h.sorted h.blocks (k := s.out.length)
    (n := m) (fun p hp => (mem_held.1 (h.held ▸ hp)).2)
    (fun p hge hlt => h.mem_covered_of_lt hge (by omega))
  have hlen : (s.out ++ slice S s.out.length m).length = s.out.length + m := by
    rw [List.length_append, length_slice_of_le (by omega)]
  refine ⟨(serve l m).2, ?_⟩
  rw [step, h.extract_eq maxSize, ← hm, hmin]
  exact {
    data := rfl
    sorted := hsorted
    blocks := hof
    out := by
      change s.out ++ slice S s.out.length m = S.take _
      rw [hlen, ← take_append_slice, ← h.out]
    held := by
      ext p
      rw [hcov, h.held, mem_held, mem_held]
      change _ ↔ p ∈ s.accepted ∧ (s.out ++ slice S s.out.length m).length ≤ p
      rw [hlen]
      constructor
      · rintro ⟨hge, hmem, -⟩
        exact ⟨hmem, hge⟩
      · rintro ⟨hmem, hge⟩
        exact ⟨hge, hmem, by omega⟩
    missing := h.missing
    out_le := by
      change (s.out ++ slice S s.out.length m).length ≤ r
      omega
    inStream := h.inStream
    near := fun p hp => by
      have hnear := h.near p hp
      change _ < (s.out ++ slice S s.out.length m).length + _
      omega
    next := h.next
    size := by
      change s.buf.size - UInt32.ofNat m = _
      rw [h.size, ← htotal, UInt32.ofNat_add]
      grind
    avail := by
      change s.buf.availBytes - UInt32.ofNat m = UInt32.ofNat (r - (s.out ++ _).length)
      rw [h.avail, hlen, ← UInt32.ofNat_sub hle]
      congr 1
      omega
    fin := h.fin }

theorem setFinSequence (h : Holds S base s l r) (hok : S.length + 1 < s.out.length + 2 ^ 31) :
    Holds S base (s.step S base .setFinSequence) l r := by
  have hrS := h.le_length
  have houtle := h.out_le
  have hnext := nextRxSeq_passFin S base
    { s.buf with gotFin := true, finSeq := place base S.length }
    (fun _ => ⟨rfl, by omega⟩) hrS (by
      by_cases hcounted : s.buf.gotFin = true ∧ r = S.length
      · exact Or.inr ⟨hcounted.2, rfl, h.next.trans (by rw [if_pos hcounted])⟩
      · exact Or.inl (h.next.trans (by rw [if_neg hcounted])))
  rw [step, TcpRxBuffer.setFinSequence, passFin_eq, hnext]
  exact { h with
    next := rfl
    fin := fun _ => ⟨rfl, by omega⟩ }

/-- The ends of a segment after it is trimmed to the window, as positions. Behind what has been
received, they bound the part of the segment in the window. -/
structure Ends (s : Receiver) (k n rx : ℕ) (l : List (Block UInt8)) (h t : ℕ) : Prop where
  low : min k s.out.length ≤ h ∧ min k s.out.length ≤ t
  high : h < min k s.out.length + 2 ^ 31 ∧ t < min k s.out.length + 2 ^ 31
  le : l ≠ [] → h ≤ t
  inside : h < t → k ≤ h ∧ rx ≤ h ∧ t ≤ k + n
  mem_iff : ∀ p, rx ≤ p → (p ∈ s.window k n ↔ h ≤ p ∧ p < t)

theorem within_of_inReach (h : Holds S base s l r) (hreach : s.InReach k n) :
    Within (min k s.out.length) l := by
  intro b hb
  have hlt := h.pos b hb
  have hfirst : b.first ∈ s.held := h.held ▸ mem_covered.2 ⟨b, hb, le_rfl, hlt⟩
  have hlast : b.last - 1 ∈ s.held := h.held ▸ mem_covered.2 ⟨b, hb, by omega, by omega⟩
  have hle := (mem_held.1 hfirst).2
  have hnear := hreach.bytes _ (mem_held.1 hlast).1
  exact ⟨by omega, by omega, by omega⟩

/-- The next position, the FIN included, is in reach. -/
theorem next_lt (h : Holds S base s l r) (hreach : s.InReach k n) :
    r + 1 < min k s.out.length + 2 ^ 31 := by
  have hsegment := hreach.segment
  by_cases hr : r = 0
  · omega
  · obtain ⟨p, hp, rfl⟩ := h.missing.lt_of_mem (by omega)
    have hnear := hreach.bytes p hp
    omega

theorem ends (h : Holds S base s l r) (hS : k + n ≤ S.length) (hreach : s.InReach k n) {rx : ℕ}
    (hrx : r ≤ rx ∧ rx ≤ r + 1) (hnext : s.buf.nextRxSeq = place base rx) :
    ∃ hd t, s.buf.fit (s.buf.headOf (place base k)) (place base k + Packet.getSize (slice S k n)) =
      (place base hd, place base t) ∧ Ends s k n rx l hd t := by
  have hsegment := hreach.segment
  have hrlt := h.next_lt hreach
  have houtle := h.out_le
  have hhead : s.buf.headOf (place base k) = place base (max k rx) := by
    rw [headOf, hnext]
    exact place_max (w := min k s.out.length) (by omega) (by omega) (by omega) (by omega)
  have htail : place base k + Packet.getSize (slice S k n) = place base (k + n) := by
    rw [Packet.getSize, length_slice_of_le hS, place_add]
  rw [hhead, htail, fit, h.data]
  cases l with
  | nil =>
    have hempty : s.held = ∅ := h.held.symm
    refine ⟨max k rx, k + n, rfl, ⟨by omega, by omega⟩, ⟨by omega, by omega⟩,
      fun hne => absurd rfl hne, fun hlt => by omega, fun p hp => ?_⟩
    rw [mem_window, hempty]
    constructor
    · rintro ⟨hin, -⟩
      omega
    · intro hin
      exact ⟨by omega, fun q hq => absurd hq (Finset.notMem_empty q)⟩
  | cons b l =>
    obtain ⟨⟨hb, hbw, hblast⟩, -⟩ := List.forall_mem_cons.1 (h.within_of_inReach hreach)
    have hblt := h.pos b List.mem_cons_self
    have hbheld : b.first ∈ s.held := h.held ▸ Finset.mem_union_left _
      (h.blocks b List.mem_cons_self).first_mem
    have hleast : ∀ q ∈ s.held, b.first ≤ q := by
      intro q hq
      rw [← h.held] at hq
      rcases Finset.mem_union.1 hq with hq | hq
      · exact (mem_positions.1 hq).1
      · have hge := h.sorted.last_le_of_mem hq
        omega
    have hlimit := hreach.window b.first hbheld hleast
    have hmax : (entry base b).1 + s.buf.maxBuffer =
        place base (b.first + s.buf.maxBuffer.toNat) := by
      rw [← place_add, UInt32.ofNat_toNat]
      rfl
    refine ⟨min (max k rx) (min (k + n) (b.first + s.buf.maxBuffer.toNat)),
      min (k + n) (b.first + s.buf.maxBuffer.toNat), ?_, ⟨by omega, by omega⟩,
      ⟨by omega, by omega⟩, fun _ => Nat.min_le_right _ _, fun hlt => by omega, fun p hp => ?_⟩
    · have hcut : (if (entry base b).1 + s.buf.maxBuffer < place base (k + n) then
          (entry base b).1 + s.buf.maxBuffer else place base (k + n)) =
          place base (min (k + n) (b.first + s.buf.maxBuffer.toNat)) := by
        rw [hmax]
        exact place_min (w := min k s.out.length) (by omega) (by omega) (by omega) (by omega)
      simp only [List.map_cons, hcut]
      exact congrArg (·, _)
        (place_min (w := min k s.out.length) (by omega) (by omega) (by omega) (by omega))
    · rw [mem_window]
      constructor
      · rintro ⟨hin, hall⟩
        have hfirst := hall b.first hbheld
        omega
      · intro hin
        refine ⟨by omega, fun q hq => ?_⟩
        have hge := hleast q hq
        omega

/-- A segment with nothing new in the window changes nothing. -/
theorem window_subset (h : Holds S base s l r) (hS : k + n ≤ S.length) {rx hd t : ℕ}
    (hrx : rx = if s.buf.gotFin = true ∧ r = S.length then r + 1 else r)
    (hends : Ends s k n rx l hd t) (hcut : ∀ p, hd ≤ p ∧ p < t → p ∈ covered l) :
    s.window k n ⊆ s.accepted := by
  intro p hp
  by_cases hpr : p < r
  · exact h.missing.1 p hpr
  · have hin := (mem_window.1 hp).1
    have hle : rx ≤ p := by
      rw [hrx]
      split_ifs <;> omega
    exact (mem_held.1 (h.held ▸ hcut p ((hends.mem_iff p hle).1 hp))).1

/-- The blocks after the rest of a segment is stored, and the first missing position. -/
theorem put_block (h : Holds S base s l r) {hd t : ℕ} {c : Cut UInt8}
    {b : Block UInt8} (hcut : CutOff l hd t c) (hends : Ends s k n r l hd t) (hlt : hd < t)
    (hcl : c.head < c.tail) (hb : b.Of S) (hfirst : b.first = c.head) (hlast : b.last = c.tail) :
    Sorted (put b c.kept) ∧ (∀ a ∈ put b c.kept, a.Of S) ∧
      (∀ p, p ∈ covered (put b c.kept) ↔
        p ∈ s.accepted ∪ s.window k n ∧ s.out.length ≤ p) ∧
      (∀ p < Blocks.advance (put b c.kept) r, p ∈ s.accepted ∪ s.window k n) ∧
      Blocks.advance (put b c.kept) r ∉ s.accepted ∪ s.window k n ∧
      r ≤ Blocks.advance (put b c.kept) r := by
  have houtle := h.out_le
  obtain ⟨-, hrhd, -⟩ := hends.inside hlt
  have hof : ∀ a ∈ put b c.kept, a.Of S := by
    intro a ha
    rcases mem_put.1 ha with rfl | ha
    · exact hb
    · exact h.blocks a (hcut.sublist.subset ha)
  have hkept : ∀ a ∈ c.kept, a.first < a.last := fun a ha => h.pos a (hcut.sublist.subset ha)
  have hsorted : Sorted (put b c.kept) := by
    refine Sorted.put (h.sorted.sublist hcut.sublist) ?_ hb.first_lt_last hkept
    rw [hfirst, hlast]
    exact hcut.apart hcl
  have hcovered : ∀ p, p ∈ covered (put b c.kept) ↔
      p ∈ s.accepted ∪ s.window k n ∧ s.out.length ≤ p := by
    intro p
    have hcovers := hcut.covers p
    rw [covered_put, Finset.mem_union, mem_positions, hfirst, hlast, or_comm, hcovers, h.held,
      mem_held, Finset.mem_union]
    by_cases hpr : r ≤ p
    · rw [hends.mem_iff p hpr]
      have hle : s.out.length ≤ p := houtle.trans hpr
      simp only [hle, and_true]
    · have hmem := h.missing.1 p (by omega)
      have hnot : ¬ (hd ≤ p ∧ p < t) := by omega
      simp only [hmem, hnot, true_and, true_or, or_false]
  have hsplit : Split (put b c.kept) r := by
    intro a ha
    rcases mem_put.1 ha with rfl | ha
    · have hhead := hcut.le_head
      exact Or.inr (by omega)
    · refine split_of_notMem (fun hmem => h.missing.2 ?_) a (hcut.sublist.subset ha)
      exact (mem_held.1 (h.held ▸ hmem)).1
  have hpos : ∀ a ∈ put b c.kept, a.first < a.last := fun a ha => (hof a ha).first_lt_last
  obtain ⟨hin, hout⟩ := advance_spec hsorted hpos hsplit
  have hle := le_advance hpos (r := r)
  refine ⟨hsorted, hof, hcovered, fun p hp => ?_, fun hmem => hout ?_, hle⟩
  · by_cases hpr : p < r
    · exact Finset.mem_union_left _ (h.missing.1 p hpr)
    · exact ((hcovered p).1 (hin p (Nat.not_lt.1 hpr) hp)).1
  · exact (hcovered _).2 ⟨hmem, houtle.trans hle⟩

theorem add (h : Holds S base s l r) (hS : k + n ≤ S.length) (hreach : s.InReach k n) :
    ∃ l r, Holds S base (s.step S base (.add k n)) l r := by
  obtain ⟨rx, hrx⟩ : ∃ rx, rx = if s.buf.gotFin = true ∧ r = S.length then r + 1 else r :=
    ⟨_, rfl⟩
  have hrx' : r ≤ rx ∧ rx ≤ r + 1 := by
    rw [hrx]
    split_ifs <;> omega
  obtain ⟨hd, t, hfit, hends⟩ := h.ends hS hreach hrx' (h.next.trans (congrArg _ hrx.symm))
  obtain ⟨c, hc⟩ : ∃ c, c = cut hd t l := ⟨_, rfl⟩
  have hcut : CutOff l hd t c := by
    rw [hc]
    cases l with
    | nil => exact cutOff_nil hd t
    | cons b l => exact cutOff_cut h.sorted h.pos (hends.le (List.cons_ne_nil _ _))
  have htrim : trim (place base hd) (place base t) s.buf.size s.buf.data =
      ⟨c.kept.map (entry base), place base c.head, place base c.tail,
        UInt32.ofNat (total c.kept)⟩ := by
    rw [h.data, trim_map (h.within_of_inReach hreach) hends.low.1 hends.high.1 hends.low.2
      hends.high.2, ← hc, h.size, UInt32.sub_self, UInt32.zero_add]
  have hwithin := h.within_of_inReach hreach
  have hheadw : min k s.out.length ≤ c.head ∧ c.head < min k s.out.length + 2 ^ 31 := by
    refine ⟨hends.low.1.trans hcut.le_head, ?_⟩
    rcases hcut.head_from with hfrom | ⟨b, hb, hfrom⟩
    · exact hfrom ▸ hends.high.1
    · exact hfrom ▸ (hwithin b hb).2.2
  have htailw : min k s.out.length ≤ c.tail ∧ c.tail < min k s.out.length + 2 ^ 31 := by
    refine ⟨?_, hcut.tail_le.trans_lt hends.high.2⟩
    rcases hcut.tail_from with hfrom | ⟨b, hb, hfrom⟩
    · exact hfrom ▸ hends.low.2
    · exact hfrom ▸ (hwithin b hb).1
  by_cases hle : c.tail ≤ c.head
  · -- nothing is stored
    have hadd : s.buf.add (slice S k n) (place base k) = (false, s.buf) := by
      rw [TcpRxBuffer.add]
      simp only [hfit, htrim]
      rw [if_pos ((place_le htailw.1 htailw.2 hheadw.1 hheadw.2).2 hle), hcut.kept_eq hle, ← h.data,
        ← h.size]
    have hsub := h.window_subset hS hrx hends fun p hp => by
      rcases (hcut.covers p).2 (Or.inr hp) with hmem | hmem
      · rwa [hcut.kept_eq hle] at hmem
      · omega
    refine ⟨l, r, ?_⟩
    rw [step, hadd, Finset.union_eq_left.2 hsub]
    exact h
  · -- the segment is cut and stored
    have hlt : hd < t := by
      have hhead := hcut.le_head
      have htail := hcut.tail_le
      omega
    obtain ⟨hk, hrxhd, htk⟩ := hends.inside hlt
    have hrxr : rx = r := by
      rw [hrx]
      split_ifs with hcounted
      · have hrxS : rx = S.length + 1 := by rw [hrx, if_pos hcounted, hcounted.2]
        omega
      · rfl
    have hnext : s.buf.nextRxSeq = place base r := by
      rw [h.next, ← hrx, hrxr]
    obtain ⟨b, hb⟩ : ∃ b : Block UInt8, b = ⟨c.head, slice S c.head (c.tail - c.head)⟩ := ⟨_, rfl⟩
    have hlenS : c.head + (c.tail - c.head) ≤ S.length := by
      have htail := hcut.tail_le
      omega
    have hbS : b.Of S := hb ▸ Block.of_slice hlenS (by omega)
    have hblen : b.data.length = c.tail - c.head := by rw [hb, length_slice_of_le hlenS]
    have hbfirst : b.first = c.head := by rw [hb]
    have hblast : b.last = c.tail := by
      rw [Block.last, hbfirst, hblen]
      omega
    have hhead := hcut.le_head
    have htail := hcut.tail_le
    have hsegment := hreach.segment
    have hfragment : Packet.createFragment (slice S k n) (place base c.head - place base k)
        (place base c.tail - place base c.head) = b.data := by
      have hslen := length_slice_of_le hS
      have hstart : (place base c.head - place base k).toNat = c.head - k :=
        toNat_place_sub (by omega) (by omega)
      have hlength : (place base c.tail - place base c.head).toNat = c.tail - c.head :=
        toNat_place_sub (by omega) (by omega)
      rw [Packet.createFragment_eq (by omega) (by omega), hstart, hlength,
        take_drop_slice _ _ _ _ _ (by omega), Nat.add_sub_cancel' (by omega), hb]
    subst hrxr
    obtain ⟨hsorted, hof, hcovered, hbelow, hmissing, hle'⟩ :=
      h.put_block hcut hends hlt (by omega) hbS hbfirst hblast
    obtain ⟨r', hr'⟩ : ∃ r', r' = Blocks.advance (put b c.kept) rx := ⟨_, rfl⟩
    rw [← hr'] at hbelow hmissing hle'
    have hwithin' : Within (min k s.out.length) (put b c.kept) := by
      intro a ha
      rcases mem_put.1 ha with rfl | ha
      · exact ⟨by omega, by omega, by omega⟩
      · exact hwithin a (hcut.sublist.subset ha)
    have hassign : assign (place base c.head) b.data (c.kept.map (entry base)) =
        (put b c.kept).map (entry base) := by
      rw [← hbfirst]
      refine assign_map (fun a ha => hwithin a (hcut.sublist.subset ha)) (by omega) (by omega)
        fun a ha => ?_
      have hapart := hcut.apart (by omega) a ha
      have hpos := h.pos a (hcut.sublist.subset ha)
      omega
    have hadvance : advance s.buf.nextRxSeq s.buf.availBytes ((put b c.kept).map (entry base)) =
        (place base r', UInt32.ofNat (r' - s.out.length)) := by
      have hrlt := h.next_lt hreach
      have houtle := h.out_le
      rw [hnext, advance_map hsorted (fun a ha => (hof a ha).first_lt_last) hwithin' (by omega)
        (by omega), ← hr', h.avail, ← UInt32.ofNat_add]
      congr 2
      omega
    have hsize : UInt32.ofNat (total c.kept) + Packet.getSize b.data =
        UInt32.ofNat (total (put b c.kept)) := by
      rw [total_put, UInt32.ofNat_add, UInt32.add_comm]
      rfl
    have hadd : s.buf.add (slice S k n) (place base k) = (true, passFin { s.buf with
        data := (put b c.kept).map (entry base)
        size := UInt32.ofNat (total (put b c.kept))
        nextRxSeq := place base r'
        availBytes := UInt32.ofNat (r' - s.out.length) }) := by
      rw [TcpRxBuffer.add]
      simp only [hfit, htrim, hfragment, hassign, hadvance, hsize]
      rw [if_neg (fun hn => hle ((place_le htailw.1 htailw.2 hheadw.1 hheadw.2).1 hn))]
    have hin : ∀ p ∈ s.accepted ∪ s.window k n, p < S.length ∧
        p + 2 < min k s.out.length + 2 ^ 31 := by
      intro p hp
      rcases Finset.mem_union.1 hp with hp | hp
      · exact ⟨h.inStream p hp, hreach.bytes p hp⟩
      · have hrange := (mem_window.1 hp).1
        exact ⟨by omega, by omega⟩
    have hr'S : r' ≤ S.length := by
      by_contra hgt
      have hlast := (hin (r' - 1) (hbelow _ (by omega))).1
      omega
    have hfinish := nextRxSeq_passFin S base { s.buf with
        data := (put b c.kept).map (entry base)
        size := UInt32.ofNat (total (put b c.kept))
        nextRxSeq := place base r'
        availBytes := UInt32.ofNat (r' - s.out.length) } (fun hgot => by
          obtain ⟨hseq, hS'⟩ := h.fin hgot
          exact ⟨hseq, by omega⟩) hr'S (Or.inl rfl)
    refine ⟨put b c.kept, r', ?_⟩
    rw [step, hadd, passFin_eq, hfinish]
    exact {
      data := rfl
      sorted := hsorted
      blocks := hof
      out := h.out
      held := by
        ext p
        rw [hcovered, mem_held]
      missing := ⟨hbelow, hmissing⟩
      out_le := h.out_le.trans hle'
      inStream := fun p hp => (hin p hp).1
      near := fun p hp => by
        have hnear := (hin p hp).2
        change p + 2 < s.out.length + 2 ^ 31
        omega
      next := rfl
      size := rfl
      avail := rfl
      fin := fun hgot => by
        obtain ⟨hseq, hS'⟩ := h.fin hgot
        exact ⟨hseq, by omega⟩ }

/-- Each call in reach keeps the blocks right. -/
theorem step (h : Holds S base s l r) {call : RxCall} (hok : Ok S s call) :
    ∃ l r, Holds S base (s.step S base call) l r := by
  cases call with
  | add k n => exact h.add hok.1 hok.2
  | extract maxSize =>
    obtain ⟨l', h'⟩ := h.extract maxSize
    exact ⟨l', r, h'⟩
  | setFinSequence => exact ⟨l, r, h.setFinSequence hok⟩

end Holds

theorem holds_start (S : List UInt8) (base : SequenceNumber32) (maxBuffer : UInt32) :
    Holds S base (start base maxBuffer) [] 0 where
  data := rfl
  sorted := List.Pairwise.nil
  blocks := fun _ hb => absurd hb List.not_mem_nil
  out := rfl
  held := rfl
  missing := ⟨fun p hp => absurd hp (Nat.not_lt_zero p), Finset.notMem_empty 0⟩
  out_le := le_rfl
  inStream := fun p hp => absurd hp (Finset.notMem_empty p)
  near := fun p hp => absurd hp (Finset.notMem_empty p)
  next := (SequenceNumber32.add_zero base).symm
  size := rfl
  avail := rfl
  fin := fun hgot => absurd hgot Bool.false_ne_true

/-! ## Whole runs -/

/-- In every run of segments of the stream that are in reach, the buffer delivers. -/
theorem delivers_of_run (maxBuffer : UInt32) (calls : List RxCall)
    (hok : Each (step S base) (Ok S) (start base maxBuffer) calls) :
    Always (step S base) (Delivers S base) (start base maxBuffer) calls := by
  have hholds : Always (step S base) (fun s => ∃ l r, Holds S base s l r) (start base maxBuffer)
      calls := by
    refine hok.always (fun s call hs hcall => ?_) ⟨[], 0, holds_start S base maxBuffer⟩
    obtain ⟨l, r, h⟩ := hs
    exact h.step hcall
  refine hholds.mono fun s hs => ?_
  obtain ⟨l, r, h⟩ := hs
  exact h.delivers

/-- A segment carries bytes of the stream. -/
def InStream (S : List UInt8) : RxCall → Prop
  | .add k n => k + n ≤ S.length
  | _ => True

theorem step_maxBuffer (s : Receiver) (call : RxCall) :
    (s.step S base call).buf.maxBuffer = s.buf.maxBuffer := by
  cases call with
  | add k n =>
    simp only [step, TcpRxBuffer.add]
    split_ifs
    · rfl
    · rw [passFin_eq]
  | extract maxSize =>
    simp only [step, TcpRxBuffer.extract]
    cases takeOut (min maxSize s.buf.availBytes) s.buf.data <;> rfl
  | setFinSequence =>
    simp only [step, TcpRxBuffer.setFinSequence]
    rw [passFin_eq]

/-- A stream that fits one half of the number space with the receive window is always in
reach. -/
theorem Holds.ok_of_short (h : Holds S base s l r)
    (hshort : S.length + s.buf.maxBuffer.toNat + 1 < 2 ^ 31) {call : RxCall}
    (hcall : InStream S call) : Ok S s call := by
  cases call with
  | add k n =>
    have hlen : k + n ≤ S.length := hcall
    refine ⟨hlen, ⟨by omega, fun p hp => ?_, fun q hq _ => ?_⟩⟩
    · have hpS := h.inStream p hp
      omega
    · have hqS := h.inStream q (mem_held.1 hq).1
      omega
  | extract maxSize => trivial
  | setFinSequence =>
    change S.length + 1 < _
    omega

theorem delivers_of_short (maxBuffer : UInt32) (calls : List RxCall)
    (hshort : S.length + maxBuffer.toNat + 1 < 2 ^ 31) (hcalls : ∀ c ∈ calls, InStream S c) :
    Always (step S base) (Delivers S base) (start base maxBuffer) calls := by
  have hinvariant : Always (step S base)
      (fun s => (∃ l r, Holds S base s l r) ∧ s.buf.maxBuffer = maxBuffer) (start base maxBuffer)
      calls := by
    have heach := (Each.of_forall (fun _ _ => trivial) (start base maxBuffer) calls :
      Each (step S base) (fun _ _ => True) _ _).and_of_mem hcalls
    refine heach.always (fun s call hs hcall => ?_) ⟨⟨[], 0, holds_start S base maxBuffer⟩, rfl⟩
    obtain ⟨⟨l, r, h⟩, hmax⟩ := hs
    exact ⟨h.step (h.ok_of_short (by rwa [hmax]) hcall.2), (step_maxBuffer s call).trans hmax⟩
  refine hinvariant.mono fun s hs => ?_
  obtain ⟨⟨l, r, h⟩, -⟩ := hs
  exact h.delivers

instance InReach.decidable (s : Receiver) (k n : ℕ) : Decidable (s.InReach k n) :=
  decidable_of_iff (k + n + 1 < min k s.out.length + 2 ^ 31 ∧
      (∀ p ∈ s.accepted, p + 2 < min k s.out.length + 2 ^ 31) ∧
      ∀ q ∈ s.held, (∀ p ∈ s.held, q ≤ p) →
        q + s.buf.maxBuffer.toNat < min k s.out.length + 2 ^ 31)
    ⟨fun h => ⟨h.1, h.2.1, h.2.2⟩, fun h => ⟨h.segment, h.bytes, h.window⟩⟩

instance Ok.decidable (S : List UInt8) (s : Receiver) : ∀ call, Decidable (Ok S s call)
  | .add k n => inferInstanceAs (Decidable (k + n ≤ S.length ∧ s.InReach k n))
  | .extract _ => inferInstanceAs (Decidable True)
  | .setFinSequence => inferInstanceAs (Decidable (S.length + 1 < s.out.length + 2 ^ 31))

/-- Two segments that overlap, read in two parts. -/
theorem delivers_overlap : Always (step [1, 2, 3, 4] ⟨0xfffffffe⟩)
    (Delivers [1, 2, 3, 4] ⟨0xfffffffe⟩) (start ⟨0xfffffffe⟩ 32768)
    [.add 2 2, .add 0 3, .extract 1, .setFinSequence, .extract 8] :=
  delivers_of_run 32768 _ (by decide)

/-- A byte that is `2^32` positions from the expected one has its number, and is taken for
it. -/
theorem not_delivers : ∃ (S : List UInt8) (calls : List RxCall), (∀ c ∈ calls, InStream S c) ∧
    ¬ Delivers S ⟨0⟩ (run (step S ⟨0⟩) (start ⟨0⟩ 32768) calls) := by
  have hlen : (List.replicate (2 ^ 32) (0 : UInt8)).length = 2 ^ 32 := List.length_replicate
  refine ⟨List.replicate (2 ^ 32) 0 ++ [1], [.add (2 ^ 32) 1, .extract 1], ?_, fun h => ?_⟩
  · intro c hc
    rcases List.mem_pair.1 hc with rfl | rfl
    · change 2 ^ 32 + 1 ≤ (List.replicate (2 ^ 32) (0 : UInt8) ++ [1]).length
      rw [List.length_append, hlen]
      exact le_rfl
    · trivial
  · have hslice : slice (List.replicate (2 ^ 32) (0 : UInt8) ++ [1]) (2 ^ 32) 1 = [1] := by
      rw [slice, List.drop_left' hlen]
      rfl
    have hplace : place ⟨0⟩ (2 ^ 32) = ⟨0⟩ := rfl
    have hextract : ((({ nextRxSeq := ⟨0⟩ } : TcpRxBuffer).add [1] ⟨0⟩).2.extract 1).map Prod.fst =
        some [1] := by decide
    obtain ⟨⟨p, buf⟩, hbuf, hp⟩ := Option.map_eq_some_iff.1 hextract
    have hout := h.isPrefix
    simp only [run_cons, run_nil, step, start, hslice, hplace, hbuf, List.nil_append] at hout
    obtain ⟨rest, hrest⟩ := hout
    have hhead : (p ++ rest).head? = some 0 := by
      rw [hrest, List.head?_append_of_ne_nil _ (List.ne_nil_of_length_pos (by rw [hlen]; decide)),
        List.head?_replicate]
      rfl
    rw [show p = [1] from hp] at hhead
    exact absurd (Option.some.inj hhead) (by decide)

end Receiver

end TcpRxBuffer

end Ns3Pedca
