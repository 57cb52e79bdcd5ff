import Ns3Pedca.Internet.TcpReassembly
import Ns3Pedca.Internet.TcpBytes

/-!
# The highest SACK

`TcpTxBuffer` keeps the sent item that is the last one sacked, and `Update` moves it on when it
sacks an item that ends where the highest one begins, or behind. So it moves back to an item that
ends exactly there. Unless the item in front of the last one that is sacked is sacked after that
one (`KeepsLast`), the highest SACK is the one that `FindHighestSacked` finds
(`Tracks.eq_findHighest`).

The items that an `Update` sacks are those that are `sackable` by its blocks. The lists of the
loops are the sent list with these items marked (`updateBlock_map`), and one pass moves the
highest SACK to the last item that it marks, or not at all (`updateBlock_highestSack`).
-/

set_option linter.unusedSectionVars false

namespace Ns3Pedca

namespace TcpTxBuffer

open TcpRxBuffer (place place_add place_le place_lt)

/-- The loop of `FindHighestSacked`. -/
def findHighest : SequenceNumber32 → List TcpTxItem → Option ℕ × SequenceNumber32 →
    Option ℕ × SequenceNumber32
  | _, [], ret => ret
  | start, t :: after, ret =>
    findHighest (start + t.size) after (if t.sacked then (some t.node, start) else ret)

/-- `FindHighestSacked`. -/
def findHighestSacked (b : TcpTxBuffer) : Option ℕ × SequenceNumber32 :=
  findHighest b.firstByteSeq b.sentList (none, ⟨0⟩)

/-- The nodes of the items that a block covers, up to the first item that ends behind it. -/
def coveredBy (block : SequenceNumber32 × SequenceNumber32) :
    SequenceNumber32 → List TcpTxItem → List ℕ
  | _, [] => []
  | start, t :: after =>
    if block.1 ≤ start ∧ start + t.size ≤ block.2 then
      t.node :: coveredBy block (start + t.size) after
    else if block.2 < start + t.size then []
    else coveredBy block (start + t.size) after

/-- The item is sacked, or one of the blocks covers it. -/
def sackable (start : SequenceNumber32) (l : List TcpTxItem)
    (blocks : List (SequenceNumber32 × SequenceNumber32)) (t : TcpTxItem) : Bool :=
  t.sacked || blocks.any fun block => decide (t.node ∈ coveredBy block start l)

/-- The item `t` when the items with `sacked` are. -/
def sack (sacked : TcpTxItem → Bool) (t : TcpTxItem) : TcpTxItem :=
  if sacked t && !t.sacked then { t with lost := false, sacked := true } else t

/-- The blocks of an option that `Update` comes to : those before the first one that is outside
the sent list. -/
def processed (b : TcpTxBuffer) (list : List (SequenceNumber32 × SequenceNumber32)) :
    List (SequenceNumber32 × SequenceNumber32) :=
  list.takeWhile fun block => !decide (b.sentEnd < block.1)

/-- If the last item of the list with `final` is one of those with `now`, then so is the item in
front of it, unless it does not have `final`. -/
def KeepsLast (final now : TcpTxItem → Bool) : List TcpTxItem → Prop
  | x :: y :: after =>
    (after.any final = false → now y = true → final x = true → now x = true) ∧
      KeepsLast final now (y :: after)
  | _ => True

instance KeepsLast.decidable (final now : TcpTxItem → Bool) :
    ∀ l : List TcpTxItem, Decidable (KeepsLast final now l)
  | [] => .isTrue trivial
  | [_] => .isTrue trivial
  | _ :: y :: after =>
    @instDecidableAnd _ _ inferInstance (KeepsLast.decidable final now (y :: after))

/-! ## Marks -/

section Marks

variable {base start : SequenceNumber32} {block : SequenceNumber32 × SequenceNumber32}
  {l after : List TcpTxItem} {t : TcpTxItem} {S : TcpTxItem → Bool} {marks : Marks}
  {blocks : List (SequenceNumber32 × SequenceNumber32)} {s : ℕ}

@[simp] theorem node_sack (S : TcpTxItem → Bool) (t : TcpTxItem) : (sack S t).node = t.node := by
  unfold sack
  split <;> rfl

@[simp] theorem packet_sack (S : TcpTxItem → Bool) (t : TcpTxItem) :
    (sack S t).packet = t.packet := by
  unfold sack
  split <;> rfl

@[simp] theorem size_sack (S : TcpTxItem → Bool) (t : TcpTxItem) : (sack S t).size = t.size := by
  rw [TcpTxItem.size, packet_sack]
  rfl

theorem sacked_sack (hS : t.sacked = true → S t = true) : (sack S t).sacked = S t := by
  unfold sack
  cases h : S t <;> cases ht : t.sacked <;> simp_all

theorem lost_sack (h : (sack S t).sacked = false) : (sack S t).lost = t.lost := by
  unfold sack at h ⊢
  split_ifs at h ⊢
  rfl

theorem sack_of_eq {S' : TcpTxItem → Bool} (h : S' t = S t) : sack S' t = sack S t := by
  rw [sack, sack, h]

/-- An item that is sacked later. -/
theorem sack_sack {S' : TcpTxItem → Bool} (hS : t.sacked = true → S t = true)
    (hS' : S' t = true) :
    (if (sack S t).sacked then sack S t else { sack S t with lost := false, sacked := true }) =
      sack S' t := by
  rw [sacked_sack hS]
  unfold sack
  cases h : S t <;> cases ht : t.sacked <;> simp_all

theorem coveredBy_subset (block : SequenceNumber32 × SequenceNumber32) (start : SequenceNumber32)
    (l : List TcpTxItem) : ∀ n ∈ coveredBy block start l, n ∈ l.map (·.node) := by
  induction l generalizing start with
  | nil => exact fun n hn => hn
  | cons t after ih =>
    intro n hn
    rw [coveredBy] at hn
    split_ifs at hn
    · rcases List.mem_cons.1 hn with rfl | hn
      · exact List.mem_cons_self
      · exact List.mem_cons_of_mem _ (ih _ n hn)
    · exact absurd hn List.not_mem_nil
    · exact List.mem_cons_of_mem _ (ih _ n hn)

/-- The items with `S`, and those that a block covers. -/
def alsoSacked (S : TcpTxItem → Bool) (block : SequenceNumber32 × SequenceNumber32)
    (start : SequenceNumber32) (l : List TcpTxItem) (t : TcpTxItem) : Bool :=
  S t || decide (t.node ∈ coveredBy block start l)

theorem sackable_append_singleton (start : SequenceNumber32) (l : List TcpTxItem)
    (blocks : List (SequenceNumber32 × SequenceNumber32))
    (block : SequenceNumber32 × SequenceNumber32) :
    sackable start l (blocks ++ [block]) = alsoSacked (sackable start l blocks) block start l := by
  funext t
  rw [alsoSacked, sackable, sackable, List.any_append, Bool.or_assoc]
  simp

theorem sacked_of_alsoSacked (hS : S t = true) : alsoSacked S block start l t = true := by
  rw [alsoSacked, hS, Bool.true_or]

section Cons

variable (hnodes : ((t :: after).map (·.node)).Nodup)

include hnodes

theorem alsoSacked_covered (hcover : block.1 ≤ start ∧ start + t.size ≤ block.2) :
    alsoSacked S block start (t :: after) t = true ∧ ∀ u ∈ after,
      alsoSacked S block start (t :: after) u = alsoSacked S block (start + t.size) after u := by
  rw [List.map_cons, List.nodup_cons] at hnodes
  refine ⟨?_, fun u hu => ?_⟩
  · rw [alsoSacked, coveredBy, if_pos hcover]
    simp
  · have hne : u.node ≠ t.node := fun heq =>
      hnodes.1 (heq ▸ List.mem_map_of_mem hu)
    rw [alsoSacked, alsoSacked, coveredBy, if_pos hcover]
    simp [hne]

theorem alsoSacked_passed (hcover : ¬ (block.1 ≤ start ∧ start + t.size ≤ block.2))
    (hend : ¬ block.2 < start + t.size) :
    alsoSacked S block start (t :: after) t = S t ∧ ∀ u ∈ after,
      alsoSacked S block start (t :: after) u = alsoSacked S block (start + t.size) after u := by
  rw [List.map_cons, List.nodup_cons] at hnodes
  refine ⟨?_, fun u hu => ?_⟩
  · have hnot : t.node ∉ coveredBy block (start + t.size) after := fun hmem =>
      hnodes.1 (coveredBy_subset _ _ _ _ hmem)
    rw [alsoSacked, coveredBy, if_neg hcover, if_neg hend, decide_eq_false hnot, Bool.or_false]
  · rw [alsoSacked, alsoSacked, coveredBy, if_neg hcover, if_neg hend]

end Cons

theorem alsoSacked_stopped (hcover : ¬ (block.1 ≤ start ∧ start + t.size ≤ block.2))
    (hend : block.2 < start + t.size) (u : TcpTxItem) :
    alsoSacked S block start (t :: after) u = S u := by
  rw [alsoSacked, coveredBy, if_neg hcover, if_pos hend]
  simp

/-- One pass marks the items that the block covers. -/
theorem updateBlock_map (hnodes : (l.map (·.node)).Nodup)
    (hS : ∀ t ∈ l, t.sacked = true → S t = true) (marks : Marks) :
    (updateBlock block start (l.map (sack S)) marks).1 =
      l.map (sack (alsoSacked S block start l)) := by
  induction l generalizing start marks with
  | nil => rfl
  | cons t after ih =>
    obtain ⟨hSt, hSafter⟩ := List.forall_mem_cons.1 hS
    have hafter := (List.nodup_cons.1 hnodes).2
    rw [List.map_cons, List.map_cons, updateBlock, size_sack]
    by_cases hcover : block.1 ≤ start ∧ start + t.size ≤ block.2
    · obtain ⟨ht, hu⟩ := alsoSacked_covered (S := S) hnodes hcover
      have hmap : after.map (sack (alsoSacked S block (start + t.size) after)) =
          after.map (sack (alsoSacked S block start (t :: after))) :=
        List.map_congr_left fun u hmem => (sack_of_eq (hu u hmem)).symm
      rw [if_pos hcover, ← hmap, ← ih hafter hSafter, ← sack_sack hSt ht]
      split_ifs <;> rfl
    · rw [if_neg hcover]
      by_cases hend : block.2 < start + t.size
      · rw [if_pos hend]
        have hstop : ∀ u, alsoSacked S block start (t :: after) u = S u :=
          alsoSacked_stopped hcover hend
        rw [sack_of_eq (hstop t)]
        exact congrArg _ (List.map_congr_left fun u _ => (sack_of_eq (hstop u)).symm)
      · obtain ⟨ht, hu⟩ := alsoSacked_passed (S := S) hnodes hcover hend
        have hmap : after.map (sack (alsoSacked S block (start + t.size) after)) =
            after.map (sack (alsoSacked S block start (t :: after))) :=
          List.map_congr_left fun u hmem => (sack_of_eq (hu u hmem)).symm
        rw [if_neg hend, ← hmap, ← ih hafter hSafter marks, sack_of_eq ht]

/-- The bytes that one pass marks are counted. -/
theorem updateBlock_bytesSacked (hnodes : (l.map (·.node)).Nodup)
    (hS : ∀ t ∈ l, t.sacked = true → S t = true) (marks : Marks) :
    (updateBlock block start (l.map (sack S)) marks).2.bytesSacked =
      marks.bytesSacked +
        UInt32.ofNat (bytesOf (fun t => alsoSacked S block start l t && !S t) l) := by
  induction l generalizing start marks with
  | nil => exact (UInt32.add_zero _).symm
  | cons t after ih =>
    obtain ⟨hSt, hSafter⟩ := List.forall_mem_cons.1 hS
    have hafter := (List.nodup_cons.1 hnodes).2
    have hcongr (start' : SequenceNumber32) (hu : ∀ u ∈ after,
        alsoSacked S block start (t :: after) u = alsoSacked S block start' after u) :
        bytesOf (fun u => alsoSacked S block start (t :: after) u && !S u) after =
          bytesOf (fun u => alsoSacked S block start' after u && !S u) after := by
      unfold bytesOf
      exact congrArg _ (List.map_congr_left fun u hmem => by simp only [hu u hmem])
    rw [List.map_cons, updateBlock, size_sack, bytesOf_cons]
    by_cases hcover : block.1 ≤ start ∧ start + t.size ≤ block.2
    · obtain ⟨ht, hu⟩ := alsoSacked_covered (S := S) hnodes hcover
      rw [if_pos hcover, hcongr _ hu, ht]
      change (updateBlock block (start + t.size) (after.map (sack S)) _).2.bytesSacked = _
      rw [ih hafter hSafter, markSacked, sacked_sack hSt]
      cases h : S t with
      | true => simp
      | false =>
        simp only [Bool.false_eq_true, if_false, size_sack, Bool.not_false, Bool.and_true, if_true,
          UInt32.ofNat_add, TcpTxItem.ofNat_length]
        rw [UInt32.add_assoc]
    · rw [if_neg hcover]
      by_cases hend : block.2 < start + t.size
      · have hstop : ∀ u, alsoSacked S block start (t :: after) u = S u :=
          alsoSacked_stopped hcover hend
        have hzero : bytesOf (fun u => alsoSacked S block start (t :: after) u && !S u) after = 0 :=
          bytesOf_eq_zero fun u _ => by rw [hstop u, Bool.and_not_self]
        rw [if_pos hend, hzero, hstop t, Bool.and_not_self]
        simp
      · obtain ⟨ht, hu⟩ := alsoSacked_passed (S := S) hnodes hcover hend
        rw [if_neg hend, hcongr _ hu, ht, Bool.and_not_self]
        change (updateBlock block (start + t.size) (after.map (sack S)) marks).2.bytesSacked = _
        rw [ih hafter hSafter]
        simp

/-- The highest SACK when an item of `node` from `start` to `last` is sacked. -/
def moveTo (highest : Option ℕ × SequenceNumber32) (node : ℕ) (start last : SequenceNumber32) :
    Option ℕ × SequenceNumber32 :=
  if highest.1.isNone || highest.2 ≤ last then (some node, start) else highest

/-- The highest SACK has one of the positions in reach. -/
def Placed (base : SequenceNumber32) (highest : Option ℕ × SequenceNumber32) : Prop :=
  highest.1 = none ∨ ∃ p < 2 ^ 31, highest.2 = place base p

theorem highestSack_markSacked (start : SequenceNumber32) (t : TcpTxItem) (marks : Marks) :
    (markSacked start t marks).highestSack =
      if t.sacked then marks.highestSack
      else moveTo marks.highestSack t.node start (start + t.size) := by
  rw [markSacked]
  cases t.sacked
  · rfl
  · rfl

theorem Placed.moveTo {highest : Option ℕ × SequenceNumber32} (h : Placed base highest)
    (node : ℕ) {p : ℕ} (hp : p < 2 ^ 31) (last : SequenceNumber32) :
    Placed base (moveTo highest node (place base p) last) := by
  rw [TcpTxBuffer.moveTo]
  split_ifs
  · exact Or.inr ⟨p, hp, rfl⟩
  · exact h

/-- What would move the highest SACK is moved to in any case by something behind. -/
theorem moveTo_moveTo {highest : Option ℕ × SequenceNumber32} {node node' p q e e' : ℕ}
    (hplaced : Placed base highest) (hp : p < 2 ^ 31) (he : e < 2 ^ 31) (hle : p ≤ e')
    (hee : e ≤ e') (he' : e' < 2 ^ 31) :
    moveTo (moveTo highest node (place base p) (place base e)) node' (place base q)
        (place base e') =
      moveTo highest node' (place base q) (place base e') := by
  have hmoved : place base p ≤ place base e' :=
    (place_le (w := 0) (by omega) (by omega) (by omega) (by omega)).2 hle
  rcases hplaced with hnone | ⟨r, hr, heq⟩
  · simp [moveTo, hnone, hmoved]
  · have hre : highest.2 ≤ place base e ↔ r ≤ e := by
      rw [heq]
      exact place_le (w := 0) (by omega) (by omega) (by omega) (by omega)
    have hre' : highest.2 ≤ place base e' ↔ r ≤ e' := by
      rw [heq]
      exact place_le (w := 0) (by omega) (by omega) (by omega) (by omega)
    by_cases hmove : (highest.1.isNone || decide (highest.2 ≤ place base e)) = true
    · have hmove' : (highest.1.isNone || decide (highest.2 ≤ place base e')) = true := by
        rcases Bool.or_eq_true_iff.1 hmove with hnone | hle'
        · rw [hnone, Bool.true_or]
        · have hr' := hre'.2 ((hre.1 (of_decide_eq_true hle')).trans hee)
          rw [decide_eq_true hr', Bool.or_true]
      have hmove'' : ((some node, place base p).1.isNone ||
          decide ((some node, place base p).2 ≤ place base e')) = true :=
        decide_eq_true hmoved
      rw [moveTo, moveTo, moveTo, if_pos hmove, if_pos hmove', if_pos hmove'']
    · have hstay : moveTo highest node (place base p) (place base e) = highest := if_neg hmove
      rw [hstay]

/-- One pass moves the highest SACK to the last item that it marks, or leaves it. -/
theorem updateBlock_highestSack (hnodes : (l.map (·.node)).Nodup)
    (hS : ∀ t ∈ l, t.sacked = true → S t = true) (marks : Marks)
    (hplaced : Placed base marks.highestSack) (hbytes : s + allBytes l < 2 ^ 31) :
    ((∀ t ∈ l, alsoSacked S block (place base s) l t = S t) ∧
      (updateBlock block (place base s) (l.map (sack S)) marks).2.highestSack =
        marks.highestSack) ∨
    ∃ l1 t l2, l = l1 ++ t :: l2 ∧ S t = false ∧ alsoSacked S block (place base s) l t = true ∧
      (∀ u ∈ l2, alsoSacked S block (place base s) l u = S u) ∧
      (updateBlock block (place base s) (l.map (sack S)) marks).2.highestSack =
        moveTo marks.highestSack t.node (place base (s + allBytes l1))
          (place base (s + allBytes l1 + t.packet.length)) := by
  induction l generalizing s marks with
  | nil => exact Or.inl ⟨fun t ht => absurd ht List.not_mem_nil, rfl⟩
  | cons t after ih =>
    obtain ⟨hSt, hSafter⟩ := List.forall_mem_cons.1 hS
    have hafter := (List.nodup_cons.1 hnodes).2
    have hnext : place base s + t.size = place base (s + t.packet.length) :=
      place_add base s t.packet.length
    rw [allBytes_cons, ← Nat.add_assoc] at hbytes
    rw [List.map_cons, updateBlock, size_sack]
    by_cases hcover : block.1 ≤ place base s ∧ place base s + t.size ≤ block.2
    · obtain ⟨ht, hu⟩ := alsoSacked_covered (S := S) hnodes hcover
      have hmarked := highestSack_markSacked (place base s) (sack S t) marks
      rw [sacked_sack hSt, node_sack, size_sack, hnext] at hmarked
      have hplaced' : Placed base (markSacked (place base s) (sack S t) marks).highestSack := by
        rw [hmarked]
        split_ifs
        · exact hplaced
        · exact hplaced.moveTo t.node (by omega) _
      rw [if_pos hcover]
      rw [hnext] at hu ⊢
      rcases ih hafter hSafter _ hplaced' hbytes with ⟨hsame, heq⟩ | ⟨l1, v, l2, rfl, hv, hv',
        hl2, heq⟩
      · cases hSt' : S t with
        | true =>
          left
          refine ⟨List.forall_mem_cons.2 ⟨ht.trans hSt'.symm, fun u hmem =>
            (hu u hmem).trans (hsame u hmem)⟩, heq.trans (hmarked.trans ?_)⟩
          rw [hSt']
          rfl
        | false =>
          right
          refine ⟨[], t, after, rfl, hSt', ht, fun u hmem => (hu u hmem).trans (hsame u hmem),
            heq.trans (hmarked.trans ?_)⟩
          rw [hSt']
          rfl
      · right
        refine ⟨t :: l1, v, l2, rfl, hv, ?_, fun u hmem => ?_, ?_⟩
        · rw [hu v (by simp), hv']
        · rw [hu u (by simp [hmem]), hl2 u hmem]
        · rw [allBytes_cons, ← Nat.add_assoc]
          refine heq.trans ?_
          rw [hmarked]
          rw [allBytes_append, allBytes_cons] at hbytes
          split_ifs
          · rfl
          · exact moveTo_moveTo hplaced (by omega) (by omega) (by omega) (by omega) (by omega)
    · rw [if_neg hcover]
      by_cases hend : block.2 < place base s + t.size
      · have hstop : ∀ u, alsoSacked S block (place base s) (t :: after) u = S u :=
          alsoSacked_stopped hcover hend
        rw [if_pos hend]
        exact Or.inl ⟨fun u _ => hstop u, rfl⟩
      · obtain ⟨ht, hu⟩ := alsoSacked_passed (S := S) hnodes hcover hend
        rw [if_neg hend]
        rw [hnext] at hu ⊢
        rcases ih hafter hSafter marks hplaced hbytes with ⟨hsame, heq⟩ | ⟨l1, v, l2, rfl, hv,
          hv', hl2, heq⟩
        · exact Or.inl ⟨List.forall_mem_cons.2 ⟨ht, fun u hmem => (hu u hmem).trans (hsame u hmem)⟩,
            heq⟩
        · right
          refine ⟨t :: l1, v, l2, rfl, hv, ?_, fun u hmem => ?_, ?_⟩
          · rw [hu v (by simp), hv']
          · rw [hu u (by simp [hmem]), hl2 u hmem]
          · rw [allBytes_cons, ← Nat.add_assoc]
            exact heq

end Marks

/-! ## The blocks of an option -/

section Blocks

variable {base : SequenceNumber32} {block : SequenceNumber32 × SequenceNumber32}
  {l after : List TcpTxItem} {t x y : TcpTxItem} {S now : TcpTxItem → Bool} {marks : Marks}
  {done blocks : List (SequenceNumber32 × SequenceNumber32)}
  {highest : Option ℕ × SequenceNumber32} {b : TcpTxBuffer}

theorem KeepsLast.of_split {a : List TcpTxItem} (h : KeepsLast S now (a ++ x :: y :: after))
    (hlast : after.any S = false) (hy : now y = true) (hx : S x = true) : now x = true := by
  induction a with
  | nil => exact h.1 hlast hy hx
  | cons t a ih =>
    refine ih ?_
    cases a with
    | nil => exact h.2
    | cons u a => exact h.2

/-- The items with `S` are those before the highest SACK, the one it points to and the ones
directly behind it, of which the last two were not sacked in this order. `E` are the sets of items
that have been sacked before. -/
def Tracks (base : SequenceNumber32) (l : List TcpTxItem) (E : (TcpTxItem → Bool) → Prop)
    (S : TcpTxItem → Bool) (highest : Option ℕ × SequenceNumber32) : Prop :=
  (highest = (none, ⟨0⟩) ∧ ∀ t ∈ l, S t = false) ∨
  ∃ a u c d, l = a ++ u :: (c ++ d) ∧ S u = true ∧ (∀ t ∈ c, S t = true) ∧
    (∀ t ∈ d, S t = false) ∧ highest = (some u.node, place base (allBytes a)) ∧
    (c = [] ∨ ∃ now, E now ∧ ∃ pre x y, u :: c = pre ++ [x, y] ∧ now y = true ∧ now x = false)

theorem Tracks.congr {E E' : (TcpTxItem → Bool) → Prop} {S' : TcpTxItem → Bool}
    (h : Tracks base l E S highest) (hS : ∀ t ∈ l, S' t = S t) (hE : ∀ now, E now → E' now) :
    Tracks base l E' S' highest := by
  rcases h with ⟨heq, hnone⟩ | ⟨a, u, c, d, rfl, hu, hc, hd, heq, hlast⟩
  · exact Or.inl ⟨heq, fun t ht => (hS t ht).trans (hnone t ht)⟩
  · refine Or.inr ⟨a, u, c, d, rfl, (hS u (by simp)).trans hu,
      fun t ht => (hS t (by simp [ht])).trans (hc t ht),
      fun t ht => (hS t (by simp [ht])).trans (hd t ht), heq, hlast.imp_right ?_⟩
    rintro ⟨now, hnow, hsplit⟩
    exact ⟨now, hE now hnow, hsplit⟩

theorem Tracks.placed {E : (TcpTxItem → Bool) → Prop} (h : Tracks base l E S highest)
    (hbytes : allBytes l < 2 ^ 31) : Placed base highest := by
  rcases h with ⟨heq, -⟩ | ⟨a, u, c, d, rfl, -, -, -, heq, -⟩
  · exact Or.inl (congrArg Prod.fst heq)
  · rw [allBytes_append] at hbytes
    exact Or.inr ⟨allBytes a, by omega, congrArg Prod.snd heq⟩

/-- An item without `S` lies before the items that have it, or behind them. -/
theorem split_cases {a c d l1 l2 : List TcpTxItem} {u : TcpTxItem}
    (h : a ++ u :: (c ++ d) = l1 ++ t :: l2) (hu : S u = true) (hc : ∀ x ∈ c, S x = true)
    (ht : S t = false) :
    (∃ e, l1 = a ++ u :: (c ++ e) ∧ d = e ++ t :: l2) ∨
      ∃ e, a = l1 ++ t :: e ∧ l2 = e ++ u :: (c ++ d) := by
  have hne : ∀ x ∈ u :: c, x ≠ t := by
    rintro x hx rfl
    rcases List.mem_cons.1 hx with rfl | hx
    · exact absurd (hu.symm.trans ht) (by simp)
    · exact absurd ((hc x hx).symm.trans ht) (by simp)
  rcases List.append_eq_append_iff.1 h with ⟨e, rfl, he⟩ | ⟨e, rfl, he⟩
  · left
    rw [← List.cons_append] at he
    rcases List.append_eq_append_iff.1 he with ⟨e', rfl, he'⟩ | ⟨e', he', hd⟩
    · exact ⟨e', rfl, he'⟩
    · cases e' with
      | nil =>
        rw [List.append_nil] at he'
        subst he'
        exact ⟨[], by simp, by simpa using hd.symm⟩
      | cons x e' =>
        obtain ⟨rfl, -⟩ := List.cons_eq_cons.1 hd
        exact absurd rfl (hne t (he' ▸ by simp))
  · right
    cases e with
    | nil =>
      obtain ⟨rfl, -⟩ := List.cons_eq_cons.1 he
      exact absurd rfl (hne t List.mem_cons_self)
    | cons x e =>
      obtain ⟨rfl, rfl⟩ := List.cons_eq_cons.1 he
      exact ⟨e, rfl, rfl⟩

/-- One more block. -/
theorem Tracks.updateBlock {E E' : (TcpTxItem → Bool) → Prop}
    (h : Tracks base l E S marks.highestSack) (hnodes : (l.map (·.node)).Nodup)
    (hpos : ∀ t ∈ l, 0 < t.packet.length) (hbytes : allBytes l < 2 ^ 31)
    (hS : ∀ t ∈ l, t.sacked = true → S t = true) (hE : ∀ now, E now → E' now) (hES : E' S) :
    Tracks base l E' (alsoSacked S block base l)
      (TcpTxBuffer.updateBlock block base (l.map (sack S)) marks).2.highestSack := by
  have hbase : place base 0 = base := SequenceNumber32.add_zero base
  have hpass := @updateBlock_highestSack base block l S 0 hnodes hS marks (h.placed hbytes)
    (by omega)
  rw [hbase] at hpass
  rcases hpass with ⟨hsame, heq⟩ | ⟨l1, t, l2, hl, ht, ht', hl2, heq⟩
  · rw [heq]
    exact h.congr hsame hE
  · rw [heq, Nat.zero_add]
    -- the highest SACK moves to the item
    have hmoved {c d : List TcpTxItem} (hcd : l2 = c ++ d) (hc : ∀ x ∈ c, S x = true)
        (hd : ∀ x ∈ d, S x = false)
        (hlast : c = [] ∨ ∃ now, E' now ∧ ∃ pre x y, t :: c = pre ++ [x, y] ∧ now y = true ∧
          now x = false)
        (hmove : (marks.highestSack.1.isNone || decide (marks.highestSack.2 ≤
          place base (allBytes l1 + t.packet.length))) = true) :
        Tracks base l E' (alsoSacked S block base l) (moveTo marks.highestSack t.node
          (place base (allBytes l1)) (place base (allBytes l1 + t.packet.length))) := by
      refine Or.inr ⟨l1, t, c, d, hcd ▸ hl, ht', fun x hx => ?_, fun x hx => ?_, if_pos hmove,
        hlast⟩
      · exact (hl2 x (hcd ▸ List.mem_append_left d hx)).trans (hc x hx)
      · exact (hl2 x (hcd ▸ List.mem_append_right c hx)).trans (hd x hx)
    rcases h with ⟨hnone, hS0⟩ | ⟨a, u, c, d, hl', hu, hc, hd, hhigh, hlast⟩
    · refine hmoved (c := []) rfl (fun x hx => absurd hx List.not_mem_nil)
        (fun x hx => hS0 x (hl ▸ by simp [hx])) (Or.inl rfl) ?_
      rw [hnone]
      rfl
    · have hle (m n : ℕ) (hm : m < 2 ^ 31) (hn : n < 2 ^ 31) :
          place base m ≤ place base n ↔ m ≤ n :=
        place_le (w := 0) (by omega) (by omega) (by omega) (by omega)
      have htotal := hbytes
      rw [hl, allBytes_append, allBytes_cons] at htotal
      have htotal' := hbytes
      rw [hl', allBytes_append, allBytes_cons] at htotal'
      rcases split_cases (hl'.symm.trans hl) hu hc ht with ⟨e, rfl, rfl⟩ | ⟨e, rfl, rfl⟩
      · -- behind the highest SACK
        refine hmoved (c := []) rfl (fun x hx => absurd hx List.not_mem_nil)
          (fun x hx => hd x (by simp [hx])) (Or.inl rfl) ?_
        have hmove : place base (allBytes a) ≤
            place base (allBytes (a ++ u :: (c ++ e)) + t.packet.length) := by
          rw [hle _ _ (by omega) (by omega), allBytes_append]
          omega
        rw [hhigh]
        exact decide_eq_true hmove
      · cases e with
        | nil =>
          -- directly in front of the highest SACK
          refine hmoved (c := u :: c) (d := d) rfl (List.forall_mem_cons.2 ⟨hu, hc⟩) hd
            (Or.inr ?_) ?_
          · rcases hlast with rfl | ⟨now, hnow, pre, x, y, heq', hy, hx⟩
            · exact ⟨S, hES, [], t, u, rfl, hu, ht⟩
            · exact ⟨now, hE now hnow, t :: pre, x, y, by rw [heq', List.cons_append], hy, hx⟩
          · have hmove : place base (allBytes (l1 ++ [t])) ≤
                place base (allBytes l1 + t.packet.length) := by
              rw [hle _ _ (by omega) (by omega), allBytes_append, allBytes_cons, allBytes_nil]
              omega
            rw [hhigh]
            exact decide_eq_true hmove
        | cons v e =>
          -- farther in front
          have hv := hpos v (hl ▸ by simp)
          have hstay : moveTo marks.highestSack t.node (place base (allBytes l1))
              (place base (allBytes l1 + t.packet.length)) = marks.highestSack := by
            refine if_neg ?_
            rw [hhigh]
            change ¬ decide (place base _ ≤ place base _) = true
            rw [decide_eq_true_eq, hle _ _ (by omega) (by omega), allBytes_append, allBytes_cons,
              allBytes_cons]
            omega
          rw [hstay]
          refine Or.inr ⟨l1 ++ t :: v :: e, u, c, d, hl', (hl2 u (by simp)).trans hu,
            fun x hx => (hl2 x (by simp [hx])).trans (hc x hx),
            fun x hx => (hl2 x (by simp [hx])).trans (hd x hx), hhigh, hlast.imp_right ?_⟩
          rintro ⟨now, hnow, hsplit⟩
          exact ⟨now, hE now hnow, hsplit⟩

/-- The items that are sacked after some of the blocks. -/
def Earlier (base : SequenceNumber32) (l : List TcpTxItem)
    (blocks : List (SequenceNumber32 × SequenceNumber32)) (now : TcpTxItem → Bool) : Prop :=
  ∃ d, d <+: blocks ∧ now = sackable base l d

/-- The variables of `Update` after some blocks. -/
structure BlocksDone (base : SequenceNumber32) (l : List TcpTxItem)
    (blocks : List (SequenceNumber32 × SequenceNumber32)) (items : List TcpTxItem)
    (marks : Marks) : Prop where
  items : items = l.map (sack (sackable base l blocks))
  highest : Tracks base l (Earlier base l blocks) (sackable base l blocks) marks.highestSack
  bytes : marks.bytesSacked =
    UInt32.ofNat (bytesOf (fun t => sackable base l blocks t && !t.sacked) l)

theorem sackable_of_sacked (h : t.sacked = true) : sackable base l blocks t = true := by
  rw [sackable, h, Bool.true_or]

theorem bytesOf_alsoSacked (base : SequenceNumber32) (l : List TcpTxItem)
    (hS : ∀ t ∈ after, t.sacked = true → S t = true) :
    bytesOf (fun t => S t && !t.sacked) after +
        bytesOf (fun t => alsoSacked S block base l t && !S t) after =
      bytesOf (fun t => alsoSacked S block base l t && !t.sacked) after := by
  induction after with
  | nil => rfl
  | cons t after ih =>
    obtain ⟨hSt, hSafter⟩ := List.forall_mem_cons.1 hS
    have hrest := ih hSafter
    have hitem : (if (S t && !t.sacked) = true then t.packet.length else 0) +
        (if (alsoSacked S block base l t && !S t) = true then t.packet.length else 0) =
        if (alsoSacked S block base l t && !t.sacked) = true then t.packet.length else 0 := by
      cases hs : S t with
      | true => simp [sacked_of_alsoSacked hs]
      | false =>
        have hnot : t.sacked = false := by
          by_contra hne
          exact absurd (hs.symm.trans (hSt (Bool.eq_true_of_not_eq_false hne))) (by simp)
        simp [hnot]
    rw [bytesOf_cons, bytesOf_cons, bytesOf_cons]
    omega

/-- The loop over the blocks. -/
theorem BlocksDone.updateBlocks {items : List TcpTxItem}
    (h : BlocksDone b.firstByteSeq l done items marks) (hnodes : (l.map (·.node)).Nodup)
    (hpos : ∀ t ∈ l, 0 < t.packet.length) (hbytes : allBytes l < 2 ^ 31)
    (blocks : List (SequenceNumber32 × SequenceNumber32)) :
    BlocksDone b.firstByteSeq l (done ++ b.processed blocks)
        (b.updateBlocks blocks items marks).1.1 (b.updateBlocks blocks items marks).1.2 ∧
      ((b.updateBlocks blocks items marks).2 = true ↔ b.processed blocks = blocks) := by
  induction blocks generalizing done items marks with
  | nil =>
    rw [processed, List.takeWhile_nil, List.append_nil]
    exact ⟨h, by simp [TcpTxBuffer.updateBlocks]⟩
  | cons block blocks ih =>
    rw [TcpTxBuffer.updateBlocks]
    by_cases hout : b.sentEnd < block.1
    · have hnil : b.processed (block :: blocks) = [] := by
        rw [processed, List.takeWhile_cons, decide_eq_true hout]
        rfl
      rw [if_pos hout, hnil, List.append_nil]
      exact ⟨h, by simp⟩
    · have hcons : b.processed (block :: blocks) = block :: b.processed blocks := by
        rw [processed, List.takeWhile_cons, decide_eq_false hout]
        rfl
      have hsacked : ∀ t ∈ l, t.sacked = true → sackable b.firstByteSeq l done t = true :=
        fun t _ ht => sackable_of_sacked ht
      have hnext : BlocksDone b.firstByteSeq l (done ++ [block])
          (updateBlock block b.firstByteSeq items marks).1
          (updateBlock block b.firstByteSeq items marks).2 := by
        refine ⟨?_, ?_, ?_⟩
        · rw [h.items, updateBlock_map hnodes hsacked, sackable_append_singleton]
        · rw [h.items, sackable_append_singleton]
          refine h.highest.updateBlock hnodes hpos hbytes hsacked ?_ ⟨done, by simp, rfl⟩
          rintro now ⟨d, hd, rfl⟩
          exact ⟨d, hd.trans (List.prefix_append _ _), rfl⟩
        · rw [h.items, updateBlock_bytesSacked hnodes hsacked, h.bytes,
            sackable_append_singleton, ← UInt32.ofNat_add, bytesOf_alsoSacked _ _ hsacked]
      obtain ⟨hdone, hend⟩ := ih hnext
      rw [if_neg hout, hcons]
      refine ⟨?_, hend.trans ?_⟩
      · rw [List.append_assoc] at hdone
        exact hdone
      · simp

/-! ## The search for the highest SACK -/

theorem findHighest_of_none {ret : Option ℕ × SequenceNumber32} (start : SequenceNumber32)
    (h : ∀ t ∈ l, t.sacked = false) : findHighest start l ret = ret := by
  induction l generalizing start with
  | nil => rfl
  | cons t after ih =>
    obtain ⟨ht, hafter⟩ := List.forall_mem_cons.1 h
    rw [findHighest, ht]
    exact ih _ hafter

theorem findHighest_split {s : ℕ} {a d : List TcpTxItem} {u : TcpTxItem} (hu : u.sacked = true)
    (hd : ∀ t ∈ d, t.sacked = false) (ret : Option ℕ × SequenceNumber32) :
    findHighest (place base s) (a ++ u :: d) ret =
      (some u.node, place base (s + allBytes a)) := by
  induction a generalizing s ret with
  | nil =>
    change findHighest (place base s) (u :: d) ret = _
    rw [findHighest, hu]
    exact findHighest_of_none _ hd
  | cons t a ih =>
    have hnext : place base s + t.size = place base (s + t.packet.length) :=
      place_add base s t.packet.length
    rw [List.cons_append, findHighest, hnext, ih, allBytes_cons, Nat.add_assoc]

theorem allBytes_sack (S : TcpTxItem → Bool) (l : List TcpTxItem) :
    allBytes (l.map (sack S)) = allBytes l := by
  induction l with
  | nil => rfl
  | cons t l ih => rw [List.map_cons, allBytes_cons, allBytes_cons, packet_sack, ih]

/-- If the last item with `S` got it before the one in front of it, or that one has it not, then
the highest SACK is the one that is found. -/
theorem Tracks.eq_findHighest {E : (TcpTxItem → Bool) → Prop} (h : Tracks base l E S highest)
    (hS : ∀ t ∈ l, t.sacked = true → S t = true) (hlast : ∀ now, E now → KeepsLast S now l) :
    highest = findHighest base (l.map (sack S)) (none, ⟨0⟩) := by
  have hbase : place base 0 = base := SequenceNumber32.add_zero base
  have hsacked : ∀ t ∈ l, (sack S t).sacked = S t := fun t ht => sacked_sack (hS t ht)
  rcases h with ⟨rfl, hnone⟩ | ⟨a, u, c, d, rfl, hu, hc, hd, rfl, hor⟩
  · refine (findHighest_of_none _ fun t ht => ?_).symm
    obtain ⟨v, hv, rfl⟩ := List.mem_map.1 ht
    rw [hsacked v hv, hnone v hv]
  · have hnil : c = [] := by
      rcases hor with hnil | ⟨now, hnow, pre, x, y, heq, hy, hx⟩
      · exact hnil
      · exfalso
        have hkeep := hlast now hnow
        have hsplit : a ++ u :: (c ++ d) = (a ++ pre) ++ x :: y :: d := by
          rw [← List.cons_append, heq]
          simp
        rw [hsplit] at hkeep
        have hSx : S x = true := by
          have hmem : x ∈ u :: c := heq ▸ by simp
          rcases List.mem_cons.1 hmem with rfl | hmem
          · exact hu
          · exact hc x hmem
        have hd' : d.any S = false := List.any_eq_false.2 fun t ht => by simp [hd t ht]
        exact absurd (hx.symm.trans (hkeep.of_split hd' hy hSx)) (by simp)
    subst hnil
    have hfind := @findHighest_split base 0 (a.map (sack S)) (d.map (sack S)) (sack S u)
      ((hsacked u (by simp)).trans hu) (fun t ht => by
        obtain ⟨v, hv, rfl⟩ := List.mem_map.1 ht
        rw [hsacked v (by simp [hv]), hd v hv]) (none, ⟨0⟩)
    rw [hbase, node_sack, allBytes_sack, Nat.zero_add] at hfind
    rw [List.nil_append, List.map_append, List.map_cons, hfind]

end Blocks

end TcpTxBuffer

end Ns3Pedca
