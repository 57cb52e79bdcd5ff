import Ns3Pedca.Internet.TcpHighestSack

/-!
# The items that SACKs mark as lost

After an `Update`, an item that is not sacked is marked as lost if `dupAckThresh` of the items
behind it are (`LostRight`). The search for such items begins at the highest SACK, and is left out
if the option has a block outside the sent list. So the marks are right along a run of updates
that keep the highest SACK the last one, and that have no such block behind one that sacks an item
(`scoreRight_of_fits`).
-/

set_option linter.unusedSectionVars false

namespace Ns3Pedca

open Runs

namespace TcpTxBuffer

open TcpRxBuffer (place place_add)

/-- Of the items of `before` that were not marked as lost, those that are not sacked now are
marked as lost if and only if `thresh` sacked items follow. -/
def LostRight (thresh : ℕ) : List TcpTxItem → List TcpTxItem → Prop
  | [], [] => True
  | t :: before, t' :: now =>
    (t'.sacked = false → t.lost = false →
      (t'.lost = true ↔ thresh ≤ now.countP (·.sacked))) ∧ LostRight thresh before now
  | _, _ => False

/-- The list with the items marked that `thresh` sacked ones follow. -/
def markLost (thresh : ℕ) : List TcpTxItem → List TcpTxItem
  | [] => []
  | t :: after =>
    (if t.sacked = false ∧ t.lost = false ∧ thresh ≤ after.countP (·.sacked) then
      { t with lost := true } else t) :: markLost thresh after

variable {l after before : List TcpTxItem} {t head : TcpTxItem} {thresh : ℕ}

theorem countP_markLost (thresh : ℕ) (l : List TcpTxItem) :
    (markLost thresh l).countP (·.sacked) = l.countP (·.sacked) := by
  induction l with
  | nil => rfl
  | cons t l ih =>
    rw [markLost, List.countP_cons, List.countP_cons, ih]
    split_ifs <;> rfl

theorem countP_of_none (h : ∀ t ∈ l, t.sacked = false) : l.countP (·.sacked) = 0 :=
  List.countP_eq_zero.2 fun t ht => by simp [h t ht]

theorem markLost_of_none (hthresh : 0 < thresh) (h : ∀ t ∈ l, t.sacked = false) :
    markLost thresh l = l := by
  induction l with
  | nil => rfl
  | cons t l ih =>
    obtain ⟨-, hl⟩ := List.forall_mem_cons.1 h
    rw [markLost, ih hl, countP_of_none hl, if_neg (by omega)]

/-- The loop of `UpdateLostCount` from the last item that is sacked. -/
theorem updateLostItems_eq {a d : List TcpTxItem} {u : TcpTxItem} {dupAckThresh lostOut : UInt32}
    (hthresh : 0 < dupAckThresh.toNat) (hu : u.sacked = true) (hd : ∀ t ∈ d, t.sacked = false)
    (hnodes : ((a ++ u :: d).map (·.node)).Nodup) (hlen : (a ++ u :: d).length < 2 ^ 32) :
    ∃ lostOut', updateLostItems u.node dupAckThresh lostOut (a ++ u :: d) =
      some (markLost dupAckThresh.toNat (a ++ u :: d),
        UInt32.ofNat ((a ++ u :: d).countP (·.sacked)), lostOut') := by
  induction a with
  | nil =>
    refine ⟨lostOut, ?_⟩
    rw [List.nil_append, updateLostItems, if_pos rfl, markLost, markLost_of_none hthresh hd,
      List.countP_cons, countP_of_none hd, hu]
    simp
  | cons t a ih =>
    rw [List.cons_append, List.map_cons, List.nodup_cons] at hnodes
    rw [List.cons_append, List.length_cons] at hlen
    obtain ⟨lostOut', hrest⟩ := ih hnodes.2 (by omega)
    have hne : t.node ≠ u.node := fun heq => hnodes.1 (heq ▸ by simp)
    have hcount : ((a ++ u :: d).countP (·.sacked)) < 2 ^ 32 :=
      List.countP_le_length.trans_lt (by omega)
    rw [List.cons_append, updateLostItems, if_neg hne, hrest, Option.map_some, markLost,
      List.countP_cons]
    dsimp only
    cases ht : t.sacked with
    | true =>
      refine ⟨lostOut', ?_⟩
      simp [UInt32.ofNat_add]
    | false =>
      have hle : dupAckThresh ≤ UInt32.ofNat ((a ++ u :: d).countP (·.sacked)) ↔
          dupAckThresh.toNat ≤ (a ++ u :: d).countP (·.sacked) := by
        rw [UInt32.le_iff_toNat_le, UInt32.toNat_ofNat_of_lt' hcount]
      by_cases hmark : t.lost = false ∧
          dupAckThresh.toNat ≤ (a ++ u :: d).countP (·.sacked)
      · refine ⟨lostOut' + t.size, ?_⟩
        rw [if_neg Bool.false_ne_true, if_neg Bool.false_ne_true,
          if_pos ⟨hle.2 hmark.2, rfl, hmark.1⟩, if_pos ⟨rfl, hmark⟩]
        rfl
      · refine ⟨lostOut', ?_⟩
        rw [if_neg Bool.false_ne_true, if_neg Bool.false_ne_true,
          if_neg (fun h => hmark ⟨h.2.2, hle.1 h.1⟩), if_neg (fun h => hmark h.2)]
        rfl

/-- The sent list after `UpdateLostCount`, which marks the head even if it is sacked. -/
def lostList (thresh : ℕ) : List TcpTxItem → List TcpTxItem
  | [] => []
  | head :: after =>
    (if thresh ≤ after.countP (·.sacked) ∧ head.lost = false then { head with lost := true }
      else head) :: markLost thresh after

theorem updateLostCount_eq {b : TcpTxBuffer} {a d : List TcpTxItem} {u : TcpTxItem}
    (hl : b.sentList = a ++ u :: d) (hthresh : 0 < b.dupAckThresh.toNat) (hu : u.sacked = true)
    (hd : ∀ t ∈ d, t.sacked = false) (hnodes : (b.sentList.map (·.node)).Nodup)
    (hlen : b.sentList.length < 2 ^ 32) (hhighest : b.highestSack.1 = some u.node) :
    ∃ lostOut, b.updateLostCount = some { b with
      sentList := lostList b.dupAckThresh.toNat b.sentList
      lostOut := lostOut } := by
  rw [hl] at hnodes hlen
  rw [updateLostCount, hl, hhighest]
  cases a with
  | nil =>
    have hnot : ¬ (b.dupAckThresh ≤ 0 ∧ u.lost = false) := by
      rintro ⟨hle, -⟩
      rw [UInt32.le_iff_toNat_le, UInt32.toNat_zero] at hle
      omega
    have hlist : lostList b.dupAckThresh.toNat (u :: d) = u :: d := by
      rw [lostList, countP_of_none hd, markLost_of_none hthresh hd, if_neg (by omega)]
    refine ⟨b.lostOut, ?_⟩
    rw [List.nil_append, hlist]
    dsimp only
    rw [if_pos rfl, Option.map_some]
    dsimp only
    rw [if_neg hnot]
  | cons head a =>
    rw [List.cons_append, List.map_cons, List.nodup_cons] at hnodes
    rw [List.cons_append, List.length_cons] at hlen
    obtain ⟨lostOut, hloop⟩ := @updateLostItems_eq a d u b.dupAckThresh b.lostOut hthresh hu hd
      hnodes.2 (by omega)
    have hne : head.node ≠ u.node := fun heq => hnodes.1 (heq ▸ by simp)
    have hcount : (a ++ u :: d).countP (·.sacked) < 2 ^ 32 :=
      List.countP_le_length.trans_lt (by omega)
    have hle : b.dupAckThresh ≤ UInt32.ofNat ((a ++ u :: d).countP (·.sacked)) ↔
        b.dupAckThresh.toNat ≤ (a ++ u :: d).countP (·.sacked) := by
      rw [UInt32.le_iff_toNat_le, UInt32.toNat_ofNat_of_lt' hcount]
    rw [List.cons_append, lostList]
    dsimp only
    rw [if_neg hne, hloop, Option.map_some]
    dsimp only
    by_cases hmark : b.dupAckThresh.toNat ≤ (a ++ u :: d).countP (·.sacked) ∧ head.lost = false
    · refine ⟨lostOut + head.size, ?_⟩
      rw [if_pos ⟨hle.2 hmark.1, hmark.2⟩, if_pos hmark]
    · refine ⟨lostOut, ?_⟩
      rw [if_neg (fun h => hmark ⟨hle.1 h.1, h.2⟩), if_neg hmark]

/-! ## What the marks leave alone -/

/-- Two lists of items of which the second one has more marks for losses. -/
def SameItems (l l' : List TcpTxItem) : Prop :=
  List.Forall₂ (fun t t' => t'.node = t.node ∧ t'.packet = t.packet ∧ t'.sacked = t.sacked ∧
    (t.lost = true → t'.lost = true)) l l'

theorem sameItems_markLost (thresh : ℕ) (l : List TcpTxItem) :
    SameItems l (markLost thresh l) := by
  induction l with
  | nil => exact List.Forall₂.nil
  | cons t l ih =>
    refine List.Forall₂.cons ?_ ih
    split_ifs
    · exact ⟨rfl, rfl, rfl, fun _ => rfl⟩
    · exact ⟨rfl, rfl, rfl, id⟩

theorem sameItems_lostList (thresh : ℕ) (l : List TcpTxItem) :
    SameItems l (lostList thresh l) := by
  cases l with
  | nil => exact List.Forall₂.nil
  | cons t l =>
    refine List.Forall₂.cons ?_ (sameItems_markLost thresh l)
    split_ifs
    · exact ⟨rfl, rfl, rfl, fun _ => rfl⟩
    · exact ⟨rfl, rfl, rfl, id⟩

variable {l' : List TcpTxItem}

theorem SameItems.nodes (h : SameItems l l') : l'.map (·.node) = l.map (·.node) := by
  induction h with
  | nil => rfl
  | cons ht _ ih => rw [List.map_cons, List.map_cons, ih, ht.1]

theorem SameItems.allBytes (h : SameItems l l') : allBytes l' = allBytes l := by
  induction h with
  | nil => rfl
  | cons ht _ ih => rw [allBytes_cons, allBytes_cons, ih, ht.2.1]

theorem SameItems.pos (h : SameItems l l') (hpos : ∀ t ∈ l, 0 < t.packet.length) :
    ∀ t ∈ l', 0 < t.packet.length := by
  induction h with
  | nil => exact hpos
  | cons ht _ ih =>
    obtain ⟨hp, hl⟩ := List.forall_mem_cons.1 hpos
    exact List.forall_mem_cons.2 ⟨ht.2.1 ▸ hp, ih hl⟩

theorem SameItems.findHighest (h : SameItems l l') (start : SequenceNumber32)
    (ret : Option ℕ × SequenceNumber32) :
    TcpTxBuffer.findHighest start l' ret = TcpTxBuffer.findHighest start l ret := by
  induction h generalizing start ret with
  | nil => rfl
  | cons ht _ ih =>
    rw [TcpTxBuffer.findHighest, TcpTxBuffer.findHighest, ih, TcpTxItem.size, TcpTxItem.size,
      ht.1, ht.2.1, ht.2.2.1]

/-! ## The marks are right -/

theorem lostRight_markLost {S : TcpTxItem → Bool} (thresh : ℕ) (l : List TcpTxItem) :
    LostRight thresh l (markLost thresh (l.map (sack S))) := by
  induction l with
  | nil => trivial
  | cons t l ih =>
    refine ⟨fun hsacked hlost => ?_, ih⟩
    rw [countP_markLost]
    split_ifs at hsacked ⊢ with hmark
    · exact ⟨fun _ => hmark.2.2, fun _ => rfl⟩
    · have hlost' : (sack S t).lost = false := (lost_sack hsacked).trans hlost
      rw [hlost']
      exact ⟨fun h => absurd h Bool.false_ne_true, fun h => absurd ⟨hsacked, hlost', h⟩ hmark⟩

theorem lostRight_lostList {S : TcpTxItem → Bool} (thresh : ℕ) (l : List TcpTxItem) :
    LostRight thresh l (lostList thresh (l.map (sack S))) := by
  cases l with
  | nil => trivial
  | cons t l =>
    refine ⟨fun hsacked hlost => ?_, lostRight_markLost thresh l⟩
    rw [countP_markLost]
    split_ifs at hsacked ⊢ with hmark
    · exact ⟨fun _ => hmark.1, fun _ => rfl⟩
    · have hlost' : (sack S t).lost = false := (lost_sack hsacked).trans hlost
      rw [hlost']
      exact ⟨fun h => absurd h Bool.false_ne_true, fun h => absurd ⟨h, hlost'⟩ hmark⟩

/-- No item is left that is to be marked. -/
theorem LostRight.self (h : LostRight thresh l l')
    (hlost : List.Forall₂ (fun t t' => t'.sacked = false → t.lost = true → t'.lost = true) l l') :
    LostRight thresh l' l' := by
  induction hlost with
  | nil => trivial
  | @cons t t' l l' ht _ ih =>
    refine ⟨fun hsacked hlost => h.1 hsacked ?_, ih h.2⟩
    by_contra hne
    exact absurd (hlost.symm.trans (ht hsacked (Bool.eq_true_of_not_eq_false hne))) (by simp)

theorem SameItems.lost {S : TcpTxItem → Bool} (h : SameItems (l.map (sack S)) l') :
    List.Forall₂ (fun t t' => t'.sacked = false → t.lost = true → t'.lost = true) l l' := by
  refine (List.forall₂_map_left_iff.1 h).imp fun t t' ht hsacked hlost => ht.2.2.2 ?_
  rw [lost_sack (ht.2.2.1.symm.trans hsacked)]
  exact hlost

theorem length_le_allBytes (hpos : ∀ t ∈ l, 0 < t.packet.length) : l.length ≤ allBytes l := by
  induction l with
  | nil => exact le_rfl
  | cons t l ih =>
    obtain ⟨hp, hl⟩ := List.forall_mem_cons.1 hpos
    have hle := ih hl
    rw [List.length_cons, allBytes_cons]
    omega

theorem sack_sacked (t : TcpTxItem) : sack (·.sacked) t = t := by
  rw [sack, Bool.and_not_self, if_neg Bool.false_ne_true]

/-- Nothing is to be marked in a list without SACKs. -/
theorem lostRight_of_none (hthresh : 0 < thresh) (h : ∀ t ∈ l, t.sacked = false) :
    LostRight thresh l l := by
  induction l with
  | nil => trivial
  | cons t l ih =>
    obtain ⟨-, hl⟩ := List.forall_mem_cons.1 h
    refine ⟨fun _ hlost => ?_, ih hl⟩
    rw [hlost, countP_of_none hl]
    exact ⟨fun h => absurd h Bool.false_ne_true, fun h => absurd h (by omega)⟩

/-- The last item of a list that is sacked. -/
theorem exists_last (l : List TcpTxItem) :
    (∀ t ∈ l, t.sacked = false) ∨
      ∃ a u d, l = a ++ u :: d ∧ u.sacked = true ∧ ∀ t ∈ d, t.sacked = false := by
  induction l with
  | nil => exact Or.inl fun t ht => absurd ht List.not_mem_nil
  | cons t l ih =>
    rcases ih with hnone | ⟨a, u, d, rfl, hu, hd⟩
    · cases ht : t.sacked with
      | true => exact Or.inr ⟨[], t, l, rfl, ht, hnone⟩
      | false => exact Or.inl (List.forall_mem_cons.2 ⟨ht, hnone⟩)
    · exact Or.inr ⟨t :: a, u, d, rfl, hu, hd⟩

/-! ## Updates -/

/-- A scoreboard that is right before an update. -/
structure Ready (b : TcpTxBuffer) : Prop where
  nodes : (b.sentList.map (·.node)).Nodup
  pos : ∀ t ∈ b.sentList, 0 < t.packet.length
  bytes : allBytes b.sentList < 2 ^ 31
  thresh : 0 < b.dupAckThresh.toNat
  highest : b.highestSack = b.findHighestSacked
  settled : LostRight b.dupAckThresh.toNat b.sentList b.sentList

/-- No block is outside the sent list, or none before that sacks an item. The item in front of the
one that is the last one sacked in the end is not sacked later than that one. -/
def Fits (b : TcpTxBuffer) (list : List (SequenceNumber32 × SequenceNumber32)) : Prop :=
  (b.processed list = list ∨ ∀ t ∈ b.sentList,
    sackable b.firstByteSeq b.sentList (b.processed list) t = true → t.sacked = true) ∧
  ∀ i < (b.processed list).length,
    KeepsLast (sackable b.firstByteSeq b.sentList (b.processed list))
      (sackable b.firstByteSeq b.sentList ((b.processed list).take i)) b.sentList

instance Fits.decidable (b : TcpTxBuffer) (list : List (SequenceNumber32 × SequenceNumber32)) :
    Decidable (b.Fits list) := by
  unfold Fits
  infer_instance

theorem keepsLast_self (S : TcpTxItem → Bool) (l : List TcpTxItem) : KeepsLast S S l := by
  induction l with
  | nil => trivial
  | cons x l ih =>
    cases l with
    | nil => trivial
    | cons y l => exact ⟨fun _ _ hx => hx, ih⟩

theorem Fits.keepsLast {b : TcpTxBuffer} {list : List (SequenceNumber32 × SequenceNumber32)}
    (h : b.Fits list) {now : TcpTxItem → Bool}
    (hnow : Earlier b.firstByteSeq b.sentList (b.processed list) now) :
    KeepsLast (sackable b.firstByteSeq b.sentList (b.processed list)) now b.sentList := by
  obtain ⟨d, hd, rfl⟩ := hnow
  rw [List.prefix_iff_eq_take.1 hd]
  rcases Nat.lt_or_ge d.length (b.processed list).length with hlt | hge
  · exact h.2 d.length hlt
  · rw [List.take_of_length_le hge]
    exact keepsLast_self _ _

theorem Ready.blocksDone {b : TcpTxBuffer} (h : Ready b) :
    BlocksDone b.firstByteSeq b.sentList [] b.sentList
      ⟨b.lostOut, b.sackedOut, 0, b.sackSeen, b.highestSack⟩ := by
  have hsackable : sackable b.firstByteSeq b.sentList [] = (·.sacked) := by
    funext t
    rw [sackable, List.any_nil, Bool.or_false]
  refine ⟨?_, ?_, ?_⟩
  · rw [hsackable]
    conv_rhs => rw [List.map_congr_left fun t _ => sack_sacked t, List.map_id']
  · rw [hsackable]
    change Tracks _ _ _ _ b.highestSack
    rw [h.highest, findHighestSacked]
    have hbase : place b.firstByteSeq 0 = b.firstByteSeq :=
      SequenceNumber32.add_zero b.firstByteSeq
    rcases exists_last b.sentList with hnone | ⟨a, u, d, hl, hu, hd⟩
    · exact Or.inl ⟨findHighest_of_none _ hnone, hnone⟩
    · have hfind := @findHighest_split b.firstByteSeq 0 a d u hu hd (none, ⟨0⟩)
      rw [hbase, Nat.zero_add] at hfind
      rw [hl, hfind]
      exact Or.inr ⟨a, u, [], d, rfl, hu, fun t ht => absurd ht List.not_mem_nil, hd, rfl,
        Or.inl rfl⟩
  · rw [hsackable]
    have hzero : bytesOf (fun t => t.sacked && !t.sacked) b.sentList = 0 :=
      bytesOf_eq_zero fun t _ => Bool.and_not_self t.sacked
    rw [hzero]
    rfl

/-- What an update owes : the highest SACK is the last one, and the items that are lost are
marked. -/
structure ScoreRight (before : List TcpTxItem) (b : TcpTxBuffer) : Prop where
  highest : b.highestSack = b.findHighestSacked
  lost : LostRight b.dupAckThresh.toNat before b.sentList

/-- Nothing is counted as sacked if nothing is sacked. -/
theorem sackable_of_bytes {start : SequenceNumber32}
    {blocks : List (SequenceNumber32 × SequenceNumber32)} (hpos : ∀ t ∈ l, 0 < t.packet.length)
    (hbytes : allBytes l < 2 ^ 31)
    (hzero : UInt32.ofNat (bytesOf (fun t => sackable start before blocks t && !t.sacked) l) = 0) :
    ∀ t ∈ l, sackable start before blocks t = t.sacked := by
  have hle : bytesOf (fun t => sackable start before blocks t && !t.sacked) l ≤ allBytes l :=
    bytesOf_le_allBytes
  have hnat := congrArg UInt32.toNat hzero
  have hlt : bytesOf (fun t => sackable start before blocks t && !t.sacked) l < 2 ^ 32 := by omega
  rw [UInt32.toNat_ofNat_of_lt' hlt, UInt32.toNat_zero] at hnat
  clear hlt hzero hle hbytes
  induction l with
  | nil => exact fun t ht => absurd ht List.not_mem_nil
  | cons t l ih =>
    obtain ⟨hp, hl⟩ := List.forall_mem_cons.1 hpos
    rw [bytesOf_cons] at hnat
    refine List.forall_mem_cons.2 ⟨?_, ih hl (by omega)⟩
    by_contra hne
    have hnew : (sackable start before blocks t && !t.sacked) = true := by
      cases hs : t.sacked with
      | true => exact absurd ((sackable_of_sacked hs).trans hs.symm) hne
      | false =>
        rw [hs] at hne
        rw [Bool.eq_true_of_not_eq_false hne]
        rfl
    rw [if_pos hnew] at hnat
    omega

/-- An update that sacks nothing. -/
theorem Ready.withMarks {b : TcpTxBuffer} (h : Ready b) {marks : Marks}
    (hhighest : marks.highestSack = b.findHighestSacked) :
    Ready (b.withMarks b.sentList marks) ∧
      ScoreRight b.sentList (b.withMarks b.sentList marks) :=
  ⟨⟨h.nodes, h.pos, h.bytes, h.thresh, hhighest, h.settled⟩, hhighest, h.settled⟩

/-- An update that sacks some items. -/
theorem Ready.updateLostCount {b : TcpTxBuffer} (h : Ready b) {S : TcpTxItem → Bool}
    {marks : Marks}
    (hhighest : marks.highestSack =
      findHighest b.firstByteSeq (b.sentList.map (sack S)) (none, ⟨0⟩))
    (hsome : ∃ t ∈ b.sentList.map (sack S), t.sacked = true) :
    ∃ b', (b.withMarks (b.sentList.map (sack S)) marks).updateLostCount = some b' ∧ Ready b' ∧
      ScoreRight b.sentList b' := by
  have hnodes : ((b.sentList.map (sack S)).map (·.node)) = b.sentList.map (·.node) := by
    rw [List.map_map]
    exact List.map_congr_left fun t _ => node_sack S t
  have hbytes := allBytes_sack S b.sentList
  have hposl : ∀ t ∈ b.sentList.map (sack S), 0 < t.packet.length := by
    intro t ht
    obtain ⟨v, hv, rfl⟩ := List.mem_map.1 ht
    rw [packet_sack]
    exact h.pos v hv
  have hbase : place b.firstByteSeq 0 = b.firstByteSeq := SequenceNumber32.add_zero b.firstByteSeq
  rcases exists_last (b.sentList.map (sack S)) with hnone | ⟨a, u, d, hl, hu, hd⟩
  · obtain ⟨t, ht, hsacked⟩ := hsome
    exact absurd (hsacked.symm.trans (hnone t ht)) (by simp)
  · have hfind := @findHighest_split b.firstByteSeq 0 a d u hu hd (none, ⟨0⟩)
    rw [hbase, Nat.zero_add, ← hl] at hfind
    have hlen : (b.sentList.map (sack S)).length < 2 ^ 32 := by
      have hle := length_le_allBytes hposl
      have hlt := h.bytes
      omega
    obtain ⟨lostOut, hupdate⟩ := updateLostCount_eq
      (b := b.withMarks (b.sentList.map (sack S)) marks) hl h.thresh hu hd
      (by
        change ((b.sentList.map (sack S)).map (·.node)).Nodup
        rw [hnodes]
        exact h.nodes) hlen
      (by
        change marks.highestSack.1 = _
        rw [hhighest, hfind])
    have hsame := sameItems_lostList b.dupAckThresh.toNat (b.sentList.map (sack S))
    have hright := lostRight_lostList (S := S) b.dupAckThresh.toNat b.sentList
    have hhighest' : marks.highestSack = findHighest b.firstByteSeq
        (lostList b.dupAckThresh.toNat (b.sentList.map (sack S))) (none, ⟨0⟩) := by
      rw [hsame.findHighest, hhighest]
    refine ⟨_, hupdate, ⟨?_, hsame.pos hposl, ?_, h.thresh, hhighest', hright.self ?_⟩,
      hhighest', hright⟩
    · exact (hsame.nodes.trans hnodes).symm ▸ h.nodes
    · exact (hsame.allBytes.trans hbytes).symm ▸ h.bytes
    · exact hsame.lost

/-- An update that fits keeps the scoreboard right. -/
theorem Ready.update {b : TcpTxBuffer} (h : Ready b)
    {list : List (SequenceNumber32 × SequenceNumber32)} (hfits : b.Fits list) :
    ∃ n b', b.update list = some (n, b') ∧ Ready b' ∧ ScoreRight b.sentList b' := by
  obtain ⟨hdone, hend⟩ := h.blocksDone.updateBlocks h.nodes h.pos h.bytes list
  rw [List.nil_append] at hdone
  rw [TcpTxBuffer.update]
  generalize b.updateBlocks list b.sentList _ = r at hdone hend ⊢
  have hhighest := hdone.highest.eq_findHighest (fun t _ ht => sackable_of_sacked ht)
    fun now hnow => hfits.keepsLast hnow
  -- nothing is sacked, as the count says or since a block is outside
  have hnothing (hsame : ∀ t ∈ b.sentList,
      sackable b.firstByteSeq b.sentList (b.processed list) t = t.sacked) :
      r.1.1 = b.sentList ∧ r.1.2.highestSack = b.findHighestSacked := by
    have hmap : b.sentList.map (sack (sackable b.firstByteSeq b.sentList (b.processed list))) =
        b.sentList := by
      have hid := List.map_congr_left fun t ht =>
        (sack_of_eq (S := (·.sacked)) (hsame t ht)).trans (sack_sacked t)
      exact hid.trans (List.map_id' _)
    exact ⟨hdone.items.trans hmap, hhighest.trans (by rw [hmap]; rfl)⟩
  by_cases hsome : r.2 = true ∧ 0 < r.1.2.bytesSacked
  · have hex : ∃ t ∈ b.sentList.map
        (sack (sackable b.firstByteSeq b.sentList (b.processed list))), t.sacked = true := by
      by_contra hnone
      push Not at hnone
      have hzero : bytesOf (fun t => sackable b.firstByteSeq b.sentList (b.processed list) t &&
          !t.sacked) b.sentList = 0 := by
        refine bytesOf_eq_zero fun t ht => ?_
        have hnot := hnone _ (List.mem_map_of_mem ht)
        rw [sacked_sack fun hs => sackable_of_sacked hs] at hnot
        rw [Bool.eq_false_of_not_eq_true hnot, Bool.false_and]
      have hbytes := hdone.bytes
      rw [hzero] at hbytes
      rw [hbytes] at hsome
      exact absurd hsome.2 (by decide)
    obtain ⟨b', hupdate, hready, hright⟩ := h.updateLostCount hhighest hex
    rw [if_pos hsome, hdone.items, hupdate]
    exact ⟨_, b', rfl, hready, hright⟩
  · have hsame : ∀ t ∈ b.sentList,
        sackable b.firstByteSeq b.sentList (b.processed list) t = t.sacked := by
      rcases hfits.1 with hall | hnone
      · refine sackable_of_bytes h.pos h.bytes ?_
        rw [← hdone.bytes]
        have hnot : ¬ 0 < r.1.2.bytesSacked := fun hlt => hsome ⟨hend.2 hall, hlt⟩
        rw [UInt32.lt_iff_toNat_lt, UInt32.toNat_zero] at hnot
        exact UInt32.toNat_inj.1 (by
          rw [UInt32.toNat_zero]
          omega)
      · intro t ht
        cases hs : t.sacked with
        | true => exact sackable_of_sacked hs
        | false =>
          by_contra hne
          exact absurd (hs.symm.trans (hnone t ht (Bool.eq_true_of_not_eq_false hne))) (by simp)
    obtain ⟨hitems, hfind⟩ := hnothing hsame
    obtain ⟨hready, hright⟩ := h.withMarks hfind
    rw [if_neg hsome, hitems]
    exact ⟨_, _, rfl, hready, hright⟩

/-! ## Runs of updates -/

/-- A buffer, and the sent list before the last update. -/
structure Updated where
  before : List TcpTxItem
  buf : TcpTxBuffer

/-- An update. A program that has stopped does not go on. -/
def updateStep (s : Option Updated) (list : List (SequenceNumber32 × SequenceNumber32)) :
    Option Updated :=
  s.bind fun s => (s.buf.update list).map fun r => ⟨s.buf.sentList, r.2⟩

/-- The scoreboard is right along updates that fit. -/
theorem scoreRight_of_fits (b : TcpTxBuffer) (h : Ready b)
    (lists : List (List (SequenceNumber32 × SequenceNumber32)))
    (hfits : Each updateStep (fun s list => ∀ x ∈ s, x.buf.Fits list)
      (some ⟨b.sentList, b⟩) lists) :
    Always updateStep (fun s => ∃ x ∈ s, ScoreRight x.before x.buf) (some ⟨b.sentList, b⟩)
      lists := by
  have hstep : ∀ (s : Option Updated) (list : List (SequenceNumber32 × SequenceNumber32)),
      (∃ x ∈ s, Ready x.buf ∧ ScoreRight x.before x.buf) → (∀ x ∈ s, x.buf.Fits list) →
      ∃ x ∈ updateStep s list, Ready x.buf ∧ ScoreRight x.before x.buf := by
    rintro s list ⟨x, rfl, hready, -⟩ hok
    obtain ⟨n, b', hupdate, hready', hright⟩ := hready.update (hok x rfl)
    refine ⟨⟨x.buf.sentList, b'⟩, ?_, hready', hright⟩
    rw [updateStep, Option.bind_some, hupdate]
    rfl
  refine (hfits.always hstep ⟨_, rfl, h, h.highest, h.settled⟩).mono ?_
  rintro s ⟨x, hx, -, hright⟩
  exact ⟨x, hx, hright⟩

/-- A buffer that has sent six bytes, one in each segment. -/
def sixSent : TcpTxBuffer :=
  { init ⟨0xfffffffd⟩ 100 2 1 with
    sentList := (List.range 6).map fun i =>
      { node := i, startSeq := ⟨0xfffffffd + .ofNat i⟩, packet := [0] }
    size := 6
    sentSize := 6 }

theorem ready_sixSent : Ready sixSent :=
  ⟨by decide, by decide, by decide, by decide, by decide,
    lostRight_of_none (by decide) (by decide)⟩

/-- One byte is sacked, then the one behind it with another one, and then those between. -/
theorem scoreRight_six : Always updateStep (fun s => ∃ x ∈ s, ScoreRight x.before x.buf)
    (some ⟨sixSent.sentList, sixSent⟩)
    [[(⟨0⟩, ⟨1⟩)], [(⟨0⟩, ⟨2⟩), (⟨0xfffffffe⟩, ⟨0xffffffff⟩)], [(⟨0xfffffffe⟩, ⟨2⟩)]] :=
  scoreRight_of_fits sixSent ready_sixSent _ (by decide)

/-- The last byte is sacked, and then the one before it, which becomes the highest SACK. -/
theorem not_scoreRight : ¬ ∀ (b : TcpTxBuffer), Ready b →
    ∀ lists : List (List (SequenceNumber32 × SequenceNumber32)),
      Always updateStep (fun s => ∃ x ∈ s, ScoreRight x.before x.buf) (some ⟨b.sentList, b⟩)
        lists := by
  intro h
  have hvalues : (run updateStep (some ⟨sixSent.sentList, sixSent⟩)
      [[(⟨2⟩, ⟨3⟩)], [(⟨1⟩, ⟨2⟩)]]).map (fun x => (x.buf.highestSack, x.buf.findHighestSacked)) =
      some ((some 4, ⟨1⟩), (some 5, ⟨2⟩)) := by
    decide
  obtain ⟨x, hx, hright⟩ := (h sixSent ready_sixSent [[(⟨2⟩, ⟨3⟩)], [(⟨1⟩, ⟨2⟩)]]).last
  rw [Option.mem_def.1 hx, Option.map_some] at hvalues
  obtain ⟨hhighest, hfind⟩ := Prod.mk.inj (Option.some.inj hvalues)
  rw [hright.highest, hfind] at hhighest
  exact absurd hhighest (by decide)

end TcpTxBuffer

end Ns3Pedca
