import Ns3Pedca.Internet.TcpRxBlocks

/-!
# The receive window of TCP

`outOfRange` lets a segment pass that lies in the receive window with a part of it, and
`TcpRxBuffer.add` is to cut off the rest. It cuts at the first byte that is held, if one is, so
the window is kept as long as a segment that reaches behind it finds bytes that can be read
(`RxWindow.honoured_of_fits`).

Positions are counted from `2^32` on, which leaves room in front of the first one for a segment
that begins before it.
-/

namespace Ns3Pedca

open Runs Blocks

/-- `TcpStates_t`. -/
inductive TcpState
  | closed
  | listen
  | synSent
  | synRcvd
  | established
  | closeWait
  | lastAck
  | finWait1
  | finWait2
  | closing
  | timeWait
  deriving DecidableEq

namespace TcpRxBuffer

/-- `MaxRxSequence`. -/
def maxRxSequence (b : TcpRxBuffer) : SequenceNumber32 :=
  if b.gotFin then b.finSeq
  else
    match b.data with
    | [] => b.nextRxSeq + b.maxBuffer
    | i :: _ => if i.1 < b.nextRxSeq then i.1 + b.maxBuffer else b.nextRxSeq + b.maxBuffer

/-- `OutOfRange`. -/
def outOfRange (state : TcpState) (b : TcpRxBuffer) (head tail : SequenceNumber32) : Bool :=
  match state with
  | .listen | .synSent | .synRcvd => false
  | .lastAck | .closing | .closeWait => b.nextRxSeq != head
  | _ => decide (tail < b.nextRxSeq ∨ b.maxRxSequence ≤ head)

/-- Some bytes can be read : the first one that is held is before the next one expected. -/
def readable (b : TcpRxBuffer) : Bool :=
  match b.data with
  | [] => false
  | i :: _ => decide (i.1 < b.nextRxSeq)

end TcpRxBuffer

/-- The receive buffer of an established connection, and what `MaxRxSequence` was before the
last `Add`. -/
structure RxWindow where
  buf : TcpRxBuffer
  limit : Option SequenceNumber32 := none

/-- A call on the buffer. -/
inductive WindowCall
  /-- A segment, which goes to `Add` unless it is out of range. -/
  | segment (p : Packet) (seq : SequenceNumber32)
  /-- `Extract`. -/
  | extract (maxSize : UInt32)

namespace RxWindow

open TcpRxBuffer

/-- The buffer before the first segment. -/
def start (next : SequenceNumber32) (maxBuffer : UInt32) : RxWindow :=
  ⟨{ nextRxSeq := next, maxBuffer := maxBuffer }, none⟩

/-- The segment is not given to `Add`. -/
def refused (s : RxWindow) (p : Packet) (seq : SequenceNumber32) : Bool :=
  s.buf.outOfRange .established seq (seq + Packet.getSize p)

/-- A call. -/
def step (s : RxWindow) : WindowCall → RxWindow
  | .segment p seq =>
    if s.refused p seq then s
    else ⟨(s.buf.add p seq).2, some s.buf.maxRxSequence⟩
  | .extract maxSize =>
    match s.buf.extract maxSize with
    | some (_, buf) => { s with buf := buf }
    | none => s

/-- What is promised of the receive window. -/
structure Honoured (maxBuffer : UInt32) (s : RxWindow) : Prop where
  /-- The window is not negative. -/
  nonneg : s.buf.nextRxSeq ≤ s.buf.maxRxSequence
  size : s.buf.size ≤ maxBuffer
  held : (s.buf.data.map fun i => i.2.length).sum ≤ maxBuffer.toNat
  /-- No byte from the limit on is held or counted as received. -/
  inside : ∀ limit ∈ s.limit, s.buf.nextRxSeq ≤ limit ∧
    ∀ i ∈ s.buf.data, ∀ j < i.2.length, i.1 + UInt32.ofNat j < limit

/-- A segment that passes does not reach behind the window, unless some bytes can be read. -/
def Fits (s : RxWindow) : WindowCall → Prop
  | .segment p seq => s.refused p seq = false →
      p.length < 2 ^ 31 ∧
        (s.buf.readable = true ∨ seq + Packet.getSize p ≤ s.buf.maxRxSequence)
  | .extract _ => True

instance (s : RxWindow) (c : WindowCall) : Decidable (s.Fits c) := by
  cases c <;> unfold Fits <;> infer_instance

end RxWindow

namespace TcpRxBuffer

/-! ## The window of blocks -/

variable {base seq : SequenceNumber32} {b : TcpRxBuffer} {l : List (Block UInt8)}
  {k r w s t n M : ℕ} {p : Packet}

/-- The blocks lie in the window of `M` positions from the first one that has not been read. -/
structure Windowed (base : SequenceNumber32) (b : TcpRxBuffer) (l : List (Block UInt8))
    (k r M : ℕ) : Prop extends Blocked base b l k r where
  maxBuffer_eq : b.maxBuffer = UInt32.ofNat M
  max_lt : M < 2 ^ 31
  far : 2 ^ 32 ≤ k
  last_le : ∀ a ∈ l, a.last ≤ k + M
  next_le : r ≤ k + M

namespace Windowed

theorem within (h : Windowed base b l k r M) : Within k l := by
  intro a ha
  have hpos := h.pos a ha
  have hlast := h.last_le a ha
  have hmax := h.max_lt
  have hge := h.behind a.first (mem_covered.2 ⟨a, ha, le_rfl, hpos⟩)
  exact ⟨hge, by omega, by omega⟩

theorem eq_of_nil (h : Windowed base b [] k r M) : r = k := by
  by_contra hne
  have hle := h.le
  exact Finset.notMem_empty _ (h.inOrder k le_rfl (by omega))

/-- Bytes can be read if and only if the next position is behind the first one. -/
theorem readable_iff (h : Windowed base b l k r M) : b.readable = true ↔ k < r := by
  have hle := h.le
  have hnext := h.next_le
  have hmax := h.max_lt
  rw [readable, h.data]
  cases l with
  | nil =>
    have hr := h.eq_of_nil
    simp [hr]
  | cons a l =>
    have hin := h.within a List.mem_cons_self
    change decide (place base a.first < b.nextRxSeq) = true ↔ _
    rw [decide_eq_true_eq, h.next, place_lt hin.1 hin.2.1 hle (by omega)]
    constructor
    · intro hlt
      omega
    · intro hlt
      rw [h.first_of_lt hlt]
      exact hlt

/-- The window ends `M` positions behind the first one that has not been read. -/
theorem maxRxSequence_eq (h : Windowed base b l k r M) :
    b.maxRxSequence = place base (k + M) := by
  have hle := h.le
  have hiff := h.readable_iff
  rw [readable, h.data] at hiff
  rw [maxRxSequence, h.noFin, if_neg Bool.false_ne_true, h.data, h.maxBuffer_eq]
  cases l with
  | nil =>
    change b.nextRxSeq + _ = _
    rw [h.next, h.eq_of_nil, place_add]
  | cons a l =>
    change decide (place base a.first < b.nextRxSeq) = true ↔ _ at hiff
    change (if place base a.first < b.nextRxSeq then place base a.first + _ else _) = _
    rw [decide_eq_true_eq] at hiff
    by_cases hlt : k < r
    · rw [if_pos (hiff.2 hlt), h.first_of_lt hlt, place_add]
    · rw [if_neg (fun hn => hlt (hiff.1 hn)), h.next, place_add]
      congr 1
      omega

theorem toNat_size (h : Windowed base b l k r M) : b.size.toNat = total l := by
  rw [h.size, UInt32.toNat_ofNat_of_lt' (h.total_lt h.within)]

theorem total_le (h : Windowed base b l k r M) : total l ≤ M := by
  rw [← card_covered h.sorted]
  have hsub : covered l ⊆ Finset.Ico k (k + M) := by
    intro q hq
    obtain ⟨a, ha, hfirst, hlast⟩ := mem_covered.1 hq
    have hge := h.behind q hq
    have hend := h.last_le a ha
    exact Finset.mem_Ico.2 ⟨hge, by omega⟩
  have hcard := Finset.card_le_card hsub
  rwa [Nat.card_Ico, Nat.add_sub_cancel_left] at hcard

/-- Where a segment that passes begins and ends. -/
theorem exists_head (h : Windowed base b l k r M) (hlen : p.length < 2 ^ 31)
    (hpass : b.outOfRange .established seq (seq + Packet.getSize p) = false) :
    ∃ s, seq = place base s ∧ s < k + M ∧ k + M ≤ s + 2 ^ 31 ∧ r ≤ s + p.length := by
  change decide _ = false at hpass
  rw [decide_eq_false_iff_not, not_or, h.maxRxSequence_eq, SequenceNumber32.not_le, h.next]
    at hpass
  obtain ⟨htail, hhead⟩ := hpass
  have hfar := h.far
  obtain ⟨s, rfl, hlt, hle⟩ := exists_place_of_lt (by omega) hhead
  refine ⟨s, rfl, hlt, hle, ?_⟩
  have hnext := h.next_le
  change ¬ place base s + UInt32.ofNat p.length < _ at htail
  rw [place_add] at htail
  by_contra hbefore
  by_cases hnear : r < s + p.length + 2 ^ 31
  · exact htail ((place_lt_of_near (by omega) hnear).2 (by omega))
  · -- an empty segment half the number space before the end of the window
    have hempty : s + p.length = s := by omega
    have hend : r = k + M := by omega
    rw [hempty, hend] at htail
    exact htail hhead

theorem headOf_eq (h : Windowed base b l k r M) (hlt : s < k + M) (hle : k + M ≤ s + 2 ^ 31)
    (hhead : place base s < place base (k + M)) :
    b.headOf (place base s) = place base (max s r) := by
  have hnext := h.next_le
  have hkr := h.le
  have hmax := h.max_lt
  rw [headOf, h.next]
  by_cases hnear : r < s + 2 ^ 31
  · have hiff : place base s < place base r ↔ s < r := place_lt_of_near (by omega) hnear
    by_cases hsr : s < r
    · rw [if_pos (hiff.2 hsr), Nat.max_eq_right hsr.le]
    · rw [if_neg (fun hn => hsr (hiff.1 hn)), Nat.max_eq_left (by omega)]
  · have hend : r = k + M := by omega
    rw [hend, if_pos hhead, Nat.max_eq_right hlt.le]

/-- When bytes can be read, a segment is cut off at the end of the window. -/
theorem fit_of_lt {hd : ℕ} (h : Windowed base b l k r M) (hlt : k < r)
    (hhd : r ≤ hd ∧ hd ≤ k + M) (ht : r ≤ t ∧ t < k + M + 2 ^ 31) :
    b.fit (place base hd) (place base t) =
      (place base (min hd (min t (k + M))), place base (min t (k + M))) := by
  have hmax := h.max_lt
  cases l with
  | nil => exact absurd h.eq_of_nil (by omega)
  | cons a l =>
    have htail := @place_min base (min t (k + M)) (k + M) t (by omega) (by omega) (by omega)
      (by omega)
    have hhead := @place_min base k (min t (k + M)) hd (by omega) (by omega) (by omega) (by omega)
    rw [h.fit_cons h.maxBuffer_eq, h.first_of_lt hlt, htail, hhead]

/-- When the first block is behind the next position, a segment that ends in the window is left
as it is. If the end of the range kept by `Add` seems to come first, as it is too far away,
nothing is left. -/
theorem fit_of_first {a : Block UInt8} {hd : ℕ} (h : Windowed base b (a :: l) k r M)
    (hfirst : k < a.first) (hhd : k ≤ hd ∧ hd ≤ t) (ht : t ≤ k + M) :
    b.fit (place base hd) (place base t) = (place base hd, place base t) ∨
      b.fit (place base hd) (place base t) =
        (place base (a.first + M), place base (a.first + M)) := by
  have hmax := h.max_lt
  have hin := h.within a List.mem_cons_self
  have hpos := h.pos a List.mem_cons_self
  have hlast := h.last_le a List.mem_cons_self
  rw [h.fit_cons h.maxBuffer_eq]
  by_cases hwrap : place base (a.first + M) < place base t
  · right
    have hfar : t + 2 ^ 31 ≤ a.first + M := by
      by_contra hnear
      have hlt := (place_lt_of_near (by omega) (by omega)).1 hwrap
      omega
    have hhead : place base (a.first + M) < place base hd := by
      by_cases heq : hd = t
      · exact heq ▸ hwrap
      · rw [← place_add_period base hd]
        exact (place_lt_of_near (by omega) (by omega)).2 (by omega)
    rw [if_pos hwrap, if_pos hhead]
  · left
    have hhead : ¬ place base t < place base hd := fun hlt => by
      have hlt' := (place_lt_of_near (by omega) (by omega)).1 hlt
      omega
    rw [if_neg hwrap, if_neg hhead]

/-- What is left of a segment that fits ends in the window, or nothing is left. -/
theorem ends_of_fits (h : Windowed base b l k r M) (hlen : p.length < 2 ^ 31)
    (hpass : b.outOfRange .established seq (seq + Packet.getSize p) = false)
    (hfits : b.readable = true ∨ seq + Packet.getSize p ≤ b.maxRxSequence) :
    b.add p seq = (false, b) ∨
      ∃ s hd t, Blocked.Ends base b l r k p seq s hd t ∧ t ≤ k + M := by
  obtain ⟨s, rfl, hlt, hle, htail⟩ := h.exists_head hlen hpass
  have hmax := h.max_lt
  have hkr := h.le
  have hnext := h.next_le
  have hsize : place base s + Packet.getSize p = place base (s + p.length) :=
    place_add base s p.length
  have hhead : b.headOf (place base s) = place base (Nat.max s r) := by
    refine h.headOf_eq hlt hle ?_
    change decide _ = false at hpass
    rw [decide_eq_false_iff_not, not_or, h.maxRxSequence_eq, SequenceNumber32.not_le] at hpass
    exact hpass.2
  have hmaxsr : r ≤ Nat.max s r ∧ s ≤ Nat.max s r ∧ Nat.max s r ≤ k + M ∧
      Nat.max s r ≤ s + p.length :=
    ⟨Nat.le_max_right _ _, Nat.le_max_left _ _, Nat.max_le.2 ⟨hlt.le, hnext⟩,
      Nat.max_le.2 ⟨Nat.le_add_right _ _, htail⟩⟩
  rw [hsize, h.maxRxSequence_eq, place_le_of_near (by omega) (by omega), h.readable_iff] at hfits
  obtain ⟨hd, hhd⟩ : ∃ hd, hd = Nat.max s r := ⟨_, rfl⟩
  rw [← hhd] at hhead hmaxsr
  by_cases hread : k < r
  · right
    refine ⟨s, min hd (min (s + p.length) (k + M)), min (s + p.length) (k + M), {
      fit := ?_
      seq_eq := rfl
      length_lt := hlen
      within := h.within
      next := by omega
      head := by omega
      tail := by omega
      le := fun _ => Nat.min_le_right _ _
      inside := fun _ => by omega }, Nat.min_le_right _ _⟩
    rw [hhead, hsize]
    exact h.fit_of_lt hread (by omega) (by omega)
  · have hin : s + p.length ≤ k + M := hfits.resolve_left hread
    obtain rfl : r = k := by omega
    have hends (hfit : b.fit (b.headOf (place base s)) (place base s + Packet.getSize p) =
        (place base hd, place base (s + p.length))) :
        Blocked.Ends base b l r r p (place base s) s hd (s + p.length) := {
      fit := hfit
      seq_eq := rfl
      length_lt := hlen
      within := h.within
      next := by omega
      head := by omega
      tail := by omega
      le := fun _ => hmaxsr.2.2.2
      inside := fun _ => by omega }
    rw [hhead, hsize] at hends
    cases l with
    | nil =>
      right
      refine ⟨s, hd, s + p.length, hends ?_, hin⟩
      rw [fit, h.data]
      rfl
    | cons a l =>
      have hfirst := Blocked.lt_first h.toBlocked
      have hbounds : r ≤ hd ∧ hd ≤ s + p.length := ⟨hmaxsr.1, hmaxsr.2.2.2⟩
      rcases h.fit_of_first hfirst hbounds hin with hfit | hfit
      · exact Or.inr ⟨s, hd, s + p.length, hends hfit, hin⟩
      · left
        have hpos := h.pos a List.mem_cons_self
        have hlast := h.last_le a List.mem_cons_self
        have hwithin : Within a.first (a :: l) := by
          intro c hc
          have hposc := h.pos c hc
          have hlastc := h.last_le c hc
          rcases List.mem_cons.1 hc with rfl | hc
          · omega
          · have hge := h.sorted.last_le hc
            omega
        rw [← hhead, ← hsize] at hfit
        have hcut := cutOff_cut h.sorted h.pos (le_refl (a.first + M))
        exact h.add_of_cut hwithin hfit (by omega) (by omega) hcut
          (hcut.tail_le.trans hcut.le_head)

/-- What is stored of a segment keeps the window. -/
theorem add (h : Windowed base b l k r M) {hd : ℕ}
    (hends : Blocked.Ends base b l r k p seq s hd t) (ht : t ≤ k + M) :
    ∃ l' r', Windowed base (b.add p seq).2 l' k r' M := by
  obtain ⟨c, hc⟩ : ∃ c, c = cut hd t l := ⟨_, rfl⟩
  have hcut := h.cutOff hends
  rw [← hc] at hcut
  rcases Nat.lt_or_ge c.head c.tail with hlt | hge
  · obtain ⟨a, -, hlast, hstored, heq⟩ := h.add_of_lt hends hc hlt
    have htail := hcut.tail_le
    have hend : ∀ a' ∈ put a c.kept, a'.last ≤ k + M := by
      intro a' ha'
      rcases mem_put.1 ha' with rfl | ha'
      · omega
      · exact h.last_le a' (hcut.sublist.subset ha')
    rw [heq]
    refine ⟨put a c.kept, Blocks.advance (put a c.kept) r, {
      toBlocked := h.blocked_holding hstored hends.head.1
      maxBuffer_eq := h.maxBuffer_eq
      max_lt := h.max_lt
      far := h.far
      last_le := hend
      next_le := ?_ }⟩
    obtain ⟨hin, -⟩ := advance_spec hstored.sorted hstored.pos hstored.split
    have hnext := h.next_le
    by_contra hbehind
    obtain ⟨a', ha', -, hlast'⟩ := mem_covered.1 (hin (k + M) (by omega) (by omega))
    have hle := hend a' ha'
    omega
  · rw [h.add_of_le hends (hc ▸ hge)]
    exact ⟨l, r, h⟩

/-- Reading moves the window on. -/
theorem extract (h : Windowed base b l k r M) (maxSize : UInt32) :
    ∃ out b' l' n, b.extract maxSize = some (out, b') ∧ Windowed base b' l' (k + n) r M ∧
      ∀ q, (∀ a ∈ l, a.last ≤ q) → ∀ a ∈ l', a.last ≤ q := by
  obtain ⟨out, b', n, heq, hnr, hmax, hblocked⟩ := h.toBlocked.extract h.within maxSize
  have hnext := h.next_le
  have hfar := h.far
  have hlast : ∀ q, (∀ a ∈ l, a.last ≤ q) → ∀ a ∈ (serve l n).2, a.last ≤ q := by
    intro q hq a ha
    have hpos := hblocked.pos a ha
    have hmem : a.last - 1 ∈ covered (serve l n).2 :=
      mem_covered.2 ⟨a, ha, by omega, by omega⟩
    obtain ⟨-, -, hcov, -⟩ := serve_apart (n := n) h.sorted h.pos h.behind
      fun q' hkq hq' => h.inOrder q' hkq (by omega)
    obtain ⟨c, hc, -, hlt⟩ := mem_covered.1 ((hcov _).1 hmem).2
    have hle := hq c hc
    omega
  refine ⟨out, b', (serve l n).2, n, heq, {
    toBlocked := hblocked
    maxBuffer_eq := hmax.trans h.maxBuffer_eq
    max_lt := h.max_lt
    far := by omega
    last_le := fun a ha => (hlast (k + M) h.last_le a ha).trans (by omega)
    next_le := by omega }, hlast⟩

end Windowed

end TcpRxBuffer

namespace RxWindow

open TcpRxBuffer

variable {base : SequenceNumber32} {maxBuffer : UInt32} {s : RxWindow}

/-! ## Runs -/

/-- The window of `s` holds blocks, and the limit is a position that they do not reach. -/
def Tracked (base : SequenceNumber32) (maxBuffer : UInt32) (s : RxWindow) : Prop :=
  ∃ l k r, Windowed base s.buf l k r maxBuffer.toNat ∧ ∀ limit ∈ s.limit,
    ∃ m, limit = place base m ∧ r ≤ m ∧ m ≤ k + maxBuffer.toNat ∧ ∀ a ∈ l, a.last ≤ m

theorem tracked_start (next : SequenceNumber32) (hmax : maxBuffer.toNat < 2 ^ 31) :
    Tracked next maxBuffer (start next maxBuffer) := by
  refine ⟨[], 2 ^ 32, 2 ^ 32, {
    toBlocked := ?_
    maxBuffer_eq := UInt32.ofNat_toNat.symm
    max_lt := hmax
    far := le_rfl
    last_le := fun a ha => absurd ha List.not_mem_nil
    next_le := by omega }, fun limit hlimit => by simp [start] at hlimit⟩
  have hplace : place next (2 ^ 32) = next := SequenceNumber32.add_zero next
  have hnil := blocked_nil next (2 ^ 32) maxBuffer
  rwa [hplace] at hnil

theorem Tracked.step (h : s.Tracked base maxBuffer) {c : WindowCall} (hfits : s.Fits c) :
    (s.step c).Tracked base maxBuffer := by
  obtain ⟨l, k, r, hw, hlimit⟩ := h
  cases c with
  | segment p seq =>
    rw [RxWindow.step]
    cases hrefused : s.refused p seq with
    | true => exact ⟨l, k, r, hw, hlimit⟩
    | false =>
      obtain ⟨hlen, hin⟩ := hfits hrefused
      rw [if_neg Bool.false_ne_true]
      obtain ⟨l', r', hw'⟩ : ∃ l' r',
          Windowed base (s.buf.add p seq).2 l' k r' maxBuffer.toNat := by
        rcases hw.ends_of_fits hlen hrefused hin with heq | ⟨pos, hd, t, hends, ht⟩
        · rw [heq]
          exact ⟨l, r, hw⟩
        · exact hw.add hends ht
      refine ⟨l', k, r', hw', fun limit hlim => ?_⟩
      obtain rfl := Option.some.inj hlim
      exact ⟨k + maxBuffer.toNat, hw.maxRxSequence_eq, hw'.next_le, le_rfl, hw'.last_le⟩
  | extract maxSize =>
    obtain ⟨out, b', l', n, heq, hw', hlast⟩ := hw.extract maxSize
    rw [RxWindow.step, heq]
    refine ⟨l', k + n, r, hw', fun limit hlim => ?_⟩
    obtain ⟨m, rfl, hrm, hmk, hm⟩ := hlimit limit hlim
    exact ⟨m, rfl, hrm, by omega, hlast m hm⟩

theorem Tracked.honoured (h : s.Tracked base maxBuffer) : s.Honoured maxBuffer := by
  obtain ⟨l, k, r, hw, hlimit⟩ := h
  have hkr := hw.le
  have hnext := hw.next_le
  have hmax := hw.max_lt
  have htotal := hw.total_le
  refine ⟨?_, ?_, ?_, fun limit hlim => ?_⟩
  · rw [hw.next, hw.maxRxSequence_eq, place_le_of_near (by omega) (by omega)]
    exact hnext
  · rw [UInt32.le_iff_toNat_le, hw.toNat_size]
    exact htotal
  · rw [hw.data, List.map_map]
    exact htotal
  · obtain ⟨m, rfl, hrm, hmk, hm⟩ := hlimit limit hlim
    constructor
    · rw [hw.next, place_le_of_near (by omega) (by omega)]
      exact hrm
    · intro i hi j hj
      rw [hw.data] at hi
      obtain ⟨a, ha, rfl⟩ := List.mem_map.1 hi
      have hge := (hw.within a ha).1
      have hlast := hm a ha
      change j < a.data.length at hj
      change place base a.first + _ < _
      rw [Block.last] at hlast
      rw [place_add, place_lt_of_near (by omega) (by omega)]
      omega

/-- Segments that fit keep the window. -/
theorem honoured_of_fits (next : SequenceNumber32) (calls : List WindowCall)
    (hmax : maxBuffer.toNat < 2 ^ 31) (h : Each step Fits (start next maxBuffer) calls) :
    Always step (Honoured maxBuffer) (start next maxBuffer) calls :=
  (h.always (P := Tracked next maxBuffer) (fun _ _ ht hok => ht.step hok)
    (tracked_start next hmax)).mono fun _ ht => ht.honoured

/-- Bytes that are not read let a segment reach behind the window. -/
theorem honoured_past : Always step (Honoured 8) (start ⟨0xfffffffe⟩ 8)
    [.segment [1, 2, 3, 4] ⟨0xfffffffe⟩, .segment [4, 5, 6, 7, 8, 9, 10] ⟨1⟩, .extract 4,
      .segment [9, 10] ⟨6⟩] :=
  honoured_of_fits ⟨0xfffffffe⟩ _ (by decide) (by decide)

/-- An empty buffer stores all of a segment that passes, and the window is negative. -/
theorem not_honoured : ¬ ∀ (maxBuffer : UInt32) (next : SequenceNumber32)
    (calls : List WindowCall), Always step (Honoured maxBuffer) (start next maxBuffer) calls := by
  intro h
  have hlast := (h 2 ⟨0⟩ [.segment [1, 2, 3] ⟨0⟩]).last
  exact absurd hlast.size (by decide)

end RxWindow

end Ns3Pedca
