import Ns3Pedca.Internet.TcpStream

/-!
# Shifted transmit buffers

A buffer of a second run, whose sequence numbers are all `d` higher (`Shifted`). A search finds
the same in it (`getPacketFromList_shift`), and so does a copy, unless it has to be cut at the
end of the sent data and passes the wrap in one of the runs only (`copyFromSequence_moved`).
-/

set_option linter.unusedSectionVars false

namespace Ns3Pedca

open Runs
open SequenceNumber32 (offset offset_add)

/-! ## Items and lists -/

/-- The item, with its sequence number increased. -/
def TcpTxItem.shift (d : UInt32) (t : TcpTxItem) : TcpTxItem :=
  { t with startSeq := t.startSeq + d }

/-- Items that differ in nothing but the sequence number. -/
def TcpTxItem.Alike (t t' : TcpTxItem) : Prop :=
  ∃ seq, t' = { t with startSeq := seq }

/-- A relation of items that splits and joins keep. -/
structure Respected (R : TcpTxItem → TcpTxItem → Prop) : Prop where
  packet : ∀ {t t'}, R t t' → t'.packet = t.packet
  splitFirst : ∀ {t t'} node k, R t t' → R (t.splitFirst node k) (t'.splitFirst node k)
  splitSecond : ∀ {t t'} k, R t t' → R (t.splitSecond k) (t'.splitSecond k)
  merge : ∀ {t t' u u'}, R t t' → R u u' → R (t.merge u) (t'.merge u')
  uncounted : ∀ {t t' u u'}, R t t' → R u u' → t'.uncounted u' = t.uncounted u

theorem respected_alike : Respected TcpTxItem.Alike where
  packet := by
    rintro t t' ⟨seq, rfl⟩
    rfl
  splitFirst := by
    rintro t t' node k ⟨seq, rfl⟩
    exact ⟨seq, rfl⟩
  splitSecond := by
    rintro t t' k ⟨seq, rfl⟩
    exact ⟨seq + k, rfl⟩
  merge := by
    rintro t t' u u' ⟨seq, rfl⟩ ⟨seq', rfl⟩
    exact ⟨seq, rfl⟩
  uncounted := by
    rintro t t' u u' ⟨seq, rfl⟩ ⟨seq', rfl⟩
    rfl

theorem respected_shift (d : UInt32) : Respected fun t t' => t' = t.shift d where
  packet := by
    rintro t t' rfl
    rfl
  splitFirst := by
    rintro t t' node k rfl
    rfl
  splitSecond := by
    rintro t t' k rfl
    exact congrArg (fun seq => { t.splitSecond k with startSeq := seq })
      (SequenceNumber32.add_right_comm t.startSeq d k)
  merge := by
    rintro t t' u u' rfl rfl
    rfl
  uncounted := by
    rintro t t' u u' rfl rfl
    rfl

theorem forall₂_shift {d : UInt32} {l l' : List TcpTxItem} :
    List.Forall₂ (fun t t' => t' = TcpTxItem.shift d t) l l' ↔ l' = l.map (TcpTxItem.shift d) := by
  constructor
  · intro h
    induction h with
    | nil => rfl
    | cons ht h ih => rw [ht, ih, List.map_cons]
  · rintro rfl
    exact List.forall₂_map_right_iff.2 (List.forall₂_same.2 fun _ _ => rfl)

/-- Searches that lead to related lists. -/
inductive SearchRel (R : TcpTxItem → TcpTxItem → Prop) : Search → Search → Prop
  | found {before before' after after' : List TcpTxItem} {item item' : TcpTxItem}
      (hbefore : List.Forall₂ R before before') (hitem : R item item')
      (hafter : List.Forall₂ R after after') :
      SearchRel R (.found before item after) (.found before' item' after')
  | edited {l l' : List TcpTxItem} {u : UInt32} (h : List.Forall₂ R l l') :
      SearchRel R (.edited l u) (.edited l' u)
  | fatal : SearchRel R .fatal .fatal

/-- Results of `GetPacketFromList` with related items. -/
structure FoundRel (R : TcpTxItem → TcpTxItem → Prop) (found found' : Found) : Prop where
  before : List.Forall₂ R found.before found'.before
  item : R found.item found'.item
  after : List.Forall₂ R found.after found'.after
  retrans : found'.retrans = found.retrans
  nextNode : found'.nextNode = found.nextNode

theorem optionRel_map {α β γ δ : Type} {P : α → β → Prop} {Q : γ → δ → Prop} {f : α → γ}
    {g : β → δ} {x : Option α} {y : Option β} (h : Option.Rel P x y)
    (hfg : ∀ a b, P a b → Q (f a) (g b)) : Option.Rel Q (x.map f) (y.map g) := by
  cases h with
  | some h => exact .some (hfg _ _ h)
  | none => exact .none

section Searches

variable {R : TcpTxItem → TcpTxItem → Prop} {l l' : List TcpTxItem} {t t' : TcpTxItem}
  {w seq start : SequenceNumber32} {numBytes d : UInt32} {node : ℕ} {r r' : Search}

theorem Respected.size (hR : Respected R) (h : R t t') : t'.size = t.size :=
  congrArg (fun p => UInt32.ofNat (List.length p)) (hR.packet h)

theorem SearchRel.cons (ht : R t t') (h : SearchRel R r r') :
    SearchRel R (r.cons t) (r'.cons t') := by
  cases h with
  | found hbefore hitem hafter => exact .found (.cons ht hbefore) hitem hafter
  | edited h => exact .edited (.cons ht h)
  | fatal => exact .fatal

theorem searchEnd_shift (hR : Respected R) (ht : R t t') (hl : List.Forall₂ R l l')
    (hseq : offset w seq + numBytes.toNat < 2 ^ 31) (hsize : offset w seq + t.size.toNat < 2 ^ 31) :
    SearchRel R (searchEnd numBytes seq node t l) (searchEnd numBytes (seq + d) node t' l') := by
  have hle : seq + d + numBytes ≤ seq + d + t.size ↔ seq + numBytes ≤ seq + t.size := by
    rw [SequenceNumber32.add_right_comm seq d, SequenceNumber32.add_right_comm seq d]
    exact SequenceNumber32.add_le_add_iff (w := w) (by rw [offset_add (by omega)]; exact hseq)
      (by rw [offset_add (by omega)]; exact hsize)
  unfold searchEnd
  rw [hR.size ht]
  by_cases hend : seq + numBytes ≤ seq + t.size
  · rw [if_pos hend, if_pos (hle.2 hend)]
    by_cases heq : numBytes = t.size
    · rw [if_pos heq, if_pos heq]
      exact .found .nil ht hl
    · rw [if_neg heq, if_neg heq]
      by_cases hlt : numBytes < t.size
      · rw [if_pos hlt, if_pos hlt]
        exact .found .nil (hR.splitFirst node numBytes ht) (.cons (hR.splitSecond numBytes ht) hl)
      · rw [if_neg hlt, if_neg hlt]
        exact .fatal
  · rw [if_neg hend, if_neg (fun h => hend (hle.1 h))]
    cases hl with
    | nil => exact .found .nil ht .nil
    | cons hnext hl =>
      change SearchRel R (.edited _ _) (.edited _ _)
      rw [hR.uncounted ht hnext]
      exact .edited (.cons (hR.merge ht hnext) hl)

/-- One search of a list in the window. -/
theorem search_shift (node : ℕ) (hR : Respected R) (hseq : offset w seq + numBytes.toNat < 2 ^ 31)
    (hl : List.Forall₂ R l l') :
    ∀ {start : SequenceNumber32}, offset w start + allBytes l < 2 ^ 31 →
      SearchRel R (search numBytes seq node start l)
        (search numBytes (seq + d) node (start + d) l') := by
  induction hl with
  | nil => exact fun _ => .fatal
  | @cons t t' l l' ht hl ih =>
    intro start hwindow
    rw [allBytes_cons] at hwindow
    have hsize := t.toNat_size_le
    have hend : offset w (start + t.size) = offset w start + t.size.toNat :=
      offset_add (by omega)
    have hin : seq + d < start + d + t.size ↔ seq < start + t.size := by
      rw [SequenceNumber32.add_right_comm]
      exact SequenceNumber32.add_lt_add_iff (w := w) (by omega) (by omega)
    have hlt : start + d < seq + d ↔ start < seq :=
      SequenceNumber32.add_lt_add_iff (w := w) (by omega) (by omega)
    unfold search
    rw [hR.size ht]
    by_cases hhere : seq < start + t.size
    · rw [if_pos hhere, if_pos (hin.2 hhere)]
      by_cases heq : seq = start
      · rw [if_pos heq, if_pos ((SequenceNumber32.add_left_inj d).2 heq)]
        subst heq
        exact searchEnd_shift hR ht hl hseq (by omega)
      · rw [if_neg heq, if_neg (fun h => heq ((SequenceNumber32.add_left_inj d).1 h)),
          SequenceNumber32.add_sub_add]
        by_cases hinside : start < seq
        · rw [if_pos hinside, if_pos (hlt.2 hinside)]
          exact .edited (.cons (hR.splitFirst _ _ ht) (.cons (hR.splitSecond _ ht) hl))
        · rw [if_neg hinside, if_neg (fun h => hinside (hlt.1 h))]
          exact .fatal
    · rw [if_neg hhere, if_neg (fun h => hhere (hin.1 h)), SequenceNumber32.add_right_comm]
      exact .cons ht (ih (by omega))

theorem getPacketFromListWithin_shift (hR : Respected R)
    (hseq : offset w seq + numBytes.toNat < 2 ^ 31) :
    ∀ {fuel : ℕ} {l l' : List TcpTxItem} {retrans : UInt32} {node : ℕ}, List.Forall₂ R l l' →
      offset w start + allBytes l < 2 ^ 31 →
      Option.Rel (FoundRel R) (getPacketFromListWithin numBytes seq start fuel l retrans node)
        (getPacketFromListWithin numBytes (seq + d) (start + d) fuel l' retrans node)
  | 0, _, _, _, _, _, _ => .none
  | fuel + 1, l, l', retrans, node, hl, hwindow => by
    have hrel := search_shift node (d := d) hR hseq hl hwindow
    have hstep := search_step numBytes seq node start l
    unfold getPacketFromListWithin
    revert hrel hstep
    generalize search numBytes seq node start l = r
    generalize search numBytes (seq + d) node (start + d) l' = r'
    intro hrel hstep
    cases hrel with
    | found hbefore hitem hafter => exact .some ⟨hbefore, hitem, hafter, rfl, rfl⟩
    | edited h =>
      have hpayload := hstep.sameStream_edited.payload
      refine getPacketFromListWithin_shift hR hseq h ?_
      rwa [← length_payload, hpayload, length_payload]
    | fatal => exact .none

/-- `GetPacketFromList` of a list in the window. -/
theorem getPacketFromList_shift (numBytes : UInt32) (node : ℕ) (hR : Respected R)
    (hseq : offset w seq + numBytes.toNat < 2 ^ 31) (hl : List.Forall₂ R l l')
    (hwindow : offset w start + allBytes l < 2 ^ 31) (retrans : UInt32) :
    Option.Rel (FoundRel R) (getPacketFromList numBytes seq node l start retrans)
      (getPacketFromList numBytes (seq + d) node l' (start + d) retrans) := by
  unfold getPacketFromList
  rw [← hl.length_eq]
  exact getPacketFromListWithin_shift hR hseq hl hwindow

end Searches

namespace TcpTxBuffer

/-! ## Buffers -/

/-- The highest SACK, with its sequence number increased if there is one. -/
def shiftHighest (d : UInt32) : Option ℕ × SequenceNumber32 → Option ℕ × SequenceNumber32
  | (some node, seq) => (some node, seq + d)
  | (none, seq) => (none, seq)

/-- The buffer with its sequence numbers increased, and another application list. -/
def moved (b : TcpTxBuffer) (d : UInt32) (apps : List TcpTxItem) : TcpTxBuffer :=
  { b with
    appList := apps
    sentList := b.sentList.map (TcpTxItem.shift d)
    firstByteSeq := b.firstByteSeq + d
    highestSack := shiftHighest d b.highestSack }

/-- A buffer of the second run. The application list is not in use for sequence numbers, so
they may be any there. -/
def Shifted (d : UInt32) (b b' : TcpTxBuffer) : Prop :=
  ∃ apps, List.Forall₂ TcpTxItem.Alike b.appList apps ∧ b' = b.moved d apps

/-- The numbers of the buffer lie in the window that begins at `w`. -/
def Window (w : SequenceNumber32) (b : TcpTxBuffer) : Prop :=
  offset w b.firstByteSeq + b.size.toNat < 2 ^ 31

section Copies

variable {b : TcpTxBuffer} {w seq : SequenceNumber32} {d s numBytes : UInt32} {now : ℕ}
  {apps : List TcpTxItem} {l : List TcpTxItem}

@[simp] theorem sentEnd_moved : (b.moved d apps).sentEnd = b.sentEnd + d :=
  SequenceNumber32.add_right_comm ..

@[simp] theorem tailSequence_moved : (b.moved d apps).tailSequence = b.tailSequence + d :=
  SequenceNumber32.add_right_comm ..

theorem Window.offset_tailSequence (hw : Window w b) :
    offset w b.tailSequence = offset w b.firstByteSeq + b.size.toNat := by
  unfold Window at hw
  exact offset_add (by omega)

theorem Window.sent (hw : Window w b) (h : StreamInv b) :
    offset w b.firstByteSeq + allBytes b.sentList < 2 ^ 31 := by
  have hsize := h.length_bytes
  rw [TcpTxBuffer.bytes, length_payload, allBytes_append] at hsize
  unfold Window at hw
  omega

theorem Window.offset_sentEnd (hw : Window w b) (h : StreamInv b) :
    offset w b.sentEnd = offset w b.firstByteSeq + allBytes b.sentList := by
  have hsent := hw.sent h
  rw [sentEnd, offset_add (by rw [h.toNat_sentSize]; omega), h.toNat_sentSize]

theorem Window.app (hw : Window w b) (h : StreamInv b) :
    offset w b.sentEnd + allBytes b.appList < 2 ^ 31 := by
  have hsize := h.length_bytes
  rw [TcpTxBuffer.bytes, length_payload, allBytes_append] at hsize
  rw [hw.offset_sentEnd h]
  unfold Window at hw
  omega

theorem sizeFromSequence_moved (hw : Window w b) (hseq : offset w seq < 2 ^ 31) :
    (b.moved d apps).sizeFromSequence (seq + d) = b.sizeFromSequence seq := by
  have htail := hw.offset_tailSequence
  unfold Window at hw
  have hle : seq + d ≤ b.tailSequence + d ↔ seq ≤ b.tailSequence :=
    SequenceNumber32.add_le_add_iff (w := w) hseq (by omega)
  unfold sizeFromSequence
  rw [tailSequence_moved, SequenceNumber32.add_sub_add]
  by_cases h : seq ≤ b.tailSequence
  · rw [if_pos h, if_pos (hle.2 h)]
  · rw [if_neg h, if_neg fun h' => h (hle.1 h')]

/-- What is behind a number of the window lies in the window. -/
theorem offset_sizeFromSequence (hw : Window w b) (hseq : offset w seq < 2 ^ 31) :
    offset w seq + (b.sizeFromSequence seq).toNat < 2 ^ 31 := by
  have htail := hw.offset_tailSequence
  unfold Window at hw
  unfold sizeFromSequence
  split
  next hle =>
    rw [SequenceNumber32.le_iff (w := w) hseq (by omega)] at hle
    have hsub := SequenceNumber32.toNat_sub_of_offset_le hle
    omega
  next =>
    rw [UInt32.toNat_zero]
    exact hseq

theorem segmentLimit_shift (seq : SequenceNumber32) (s d : UInt32) :
    ∀ l : List TcpTxItem,
      segmentLimit (seq + d) s (l.map (TcpTxItem.shift d)) = segmentLimit seq s l
  | [] => rfl
  | t :: l => by
    have hiff : (t.shift d).startSeq = seq + d ↔ t.startSeq = seq :=
      SequenceNumber32.add_left_inj d
    rw [List.map_cons]
    unfold segmentLimit
    by_cases h : t.startSeq = seq
    · rw [if_pos h, if_pos (hiff.2 h)]
      cases l with
      | nil => rfl
      | cons next l => rfl
    · rw [if_neg h, if_neg fun h' => h (hiff.1 h'), segmentLimit_shift seq s d l]

/-- Copies of the two runs. -/
def Copied (d : UInt32) (r r' : TcpTxItem × TcpTxBuffer) : Prop :=
  r'.1 = r.1.shift d ∧ Shifted d r.2 r'.2

theorem getTransmittedSegment_moved (h : StreamInv b) (hw : Window w b) (hs : s ≠ 0)
    (hseq : offset w seq + s.toNat < 2 ^ 31) (happ : List.Forall₂ TcpTxItem.Alike b.appList apps) :
    Option.Rel (Copied d) (b.getTransmittedSegment now s seq)
      ((b.moved d apps).getTransmittedSegment now s (seq + d)) := by
  have hsent := hw.sent h
  have hlimit := UInt32.le_iff_toNat_le.1 (segmentLimit_spec seq hs
    (fun t ht => h.nonempty t (List.mem_append_left _ ht)) (by omega)).2
  have hfound := getPacketFromList_shift (segmentLimit seq s b.sentList) b.nextNode
    (w := w) (d := d) (respected_shift d) (show offset w seq + _ < _ by omega)
    (forall₂_shift.2 rfl) hsent b.retrans
  unfold TcpTxBuffer.getTransmittedSegment
  change Option.Rel _ _ (Option.map _ (getPacketFromList
    (segmentLimit (seq + d) s (b.sentList.map (TcpTxItem.shift d))) (seq + d) b.nextNode
    (b.sentList.map (TcpTxItem.shift d)) (b.firstByteSeq + d) b.retrans))
  rw [segmentLimit_shift]
  refine optionRel_map hfound ?_
  rintro found found' ⟨hbefore, hitem, hafter, hretrans, hnode⟩
  rw [forall₂_shift] at hbefore hafter
  refine ⟨by rw [hitem]; rfl, apps, happ, ?_⟩
  simp only [moved, hbefore, hitem, hafter, hretrans, hnode, List.map_append, List.map_cons]
  rfl

theorem getNewSegment_moved (h : StreamInv b) (hw : Window w b)
    (hseq : offset w b.sentEnd + s.toNat < 2 ^ 31)
    (happ : List.Forall₂ TcpTxItem.Alike b.appList apps) :
    Option.Rel (Copied d) (b.getNewSegment now s) ((b.moved d apps).getNewSegment now s) := by
  have hfound := getPacketFromList_shift s b.nextNode (d := d) respected_alike hseq happ
    (hw.app h) b.retrans
  unfold TcpTxBuffer.getNewSegment
  rw [sentEnd_moved]
  refine optionRel_map hfound ?_
  rintro found found' ⟨hbefore, ⟨seq, hitem⟩, hafter, hretrans, hnode⟩
  refine ⟨by rw [hitem, hnode]; rfl, found'.before ++ found'.after, ?_, ?_⟩
  · exact List.rel_append hbefore hafter
  · simp only [moved, hitem, hretrans, hnode, List.map_append, List.map_cons, List.map_nil]
    rfl

/-- The numbers of `s` bytes from `seq` on do not pass the wrap. -/
def NoWrap (seq : SequenceNumber32) (s : UInt32) : Prop :=
  seq.value.toNat + s.toNat < 2 ^ 32

instance NoWrap.decidable (seq : SequenceNumber32) (s : UInt32) : Decidable (NoWrap seq s) :=
  inferInstanceAs (Decidable (_ < _))

/-- The comparison of `CopyFromSequence` that has no regard to the wrap. -/
theorem noWrap_iff {e : SequenceNumber32} (hlt : offset seq e < s.toNat) (hpos : 0 < offset seq e) :
    seq.value < e.value ∧ e.value < seq.value + s ↔ NoWrap seq s := by
  have hadd : e = seq + (e - seq) := (SequenceNumber32.add_sub_cancel seq e).symm
  have hvalue : e.value.toNat = (seq.value.toNat + offset seq e) % 2 ^ 32 := by
    conv_lhs => rw [hadd]
    rw [SequenceNumber32.value_add, UInt32.toNat_add]
    rfl
  have hseq := seq.value.toNat_lt
  have hs := s.toNat_lt
  rw [NoWrap, UInt32.lt_iff_toNat_lt, UInt32.lt_iff_toNat_lt, UInt32.toNat_add, hvalue]
  omega

/-- A request that begins at a sent byte and ends behind the sent data passes the wrap in both
runs or in neither. -/
def CutAlike (d : UInt32) (b : TcpTxBuffer) (numBytes : UInt32) (seq : SequenceNumber32) : Prop :=
  let s := min numBytes (b.sizeFromSequence seq)
  seq < b.sentEnd → b.sentEnd < seq + s → (NoWrap seq s ↔ NoWrap (seq + d) s)

instance CutAlike.decidable (d : UInt32) (b : TcpTxBuffer) (numBytes : UInt32)
    (seq : SequenceNumber32) : Decidable (CutAlike d b numBytes seq) := by
  unfold CutAlike
  infer_instance

/-- Copies of the two runs, or null pointers. -/
def CopiedOrNull (d : UInt32) (r r' : Option TcpTxItem × TcpTxBuffer) : Prop :=
  r'.1 = r.1.map (TcpTxItem.shift d) ∧ Shifted d r.2 r'.2

theorem copyBranches_moved {again again' : UInt32 → Option (Option TcpTxItem × TcpTxBuffer)}
    (h : StreamInv b) (hw : Window w b) (hseq : offset w seq + s.toNat < 2 ^ 31)
    (happ : List.Forall₂ TcpTxItem.Alike b.appList apps)
    (hcut : seq < b.sentEnd → b.sentEnd < seq + s → (NoWrap seq s ↔ NoWrap (seq + d) s))
    (hagain : seq < b.sentEnd → b.sentEnd < seq + s →
      Option.Rel (CopiedOrNull d) (again (b.sentEnd.value - seq.value))
        (again' (b.sentEnd.value - seq.value))) :
    Option.Rel (CopiedOrNull d) (b.copyBranches now s seq again)
      ((b.moved d apps).copyBranches now s (seq + d) again') := by
  have hsentEnd := hw.offset_sentEnd h
  have hsent := hw.sent h
  have hend : offset w (seq + s) = offset w seq + s.toNat := offset_add (by omega)
  have hle : seq + d + s ≤ b.sentEnd + d ↔ seq + s ≤ b.sentEnd := by
    rw [SequenceNumber32.add_right_comm]
    exact SequenceNumber32.add_le_add_iff (w := w) (by omega) (by omega)
  have hge : b.sentEnd + d ≤ seq + d ↔ b.sentEnd ≤ seq :=
    SequenceNumber32.add_le_add_iff (w := w) (by omega) (by omega)
  unfold copyBranches
  rw [sentEnd_moved]
  by_cases hs : s = 0
  · rw [if_pos hs, if_pos hs]
    exact .some ⟨rfl, apps, happ, rfl⟩
  rw [if_neg hs, if_neg hs]
  by_cases htransmitted : seq + s ≤ b.sentEnd
  · rw [if_pos htransmitted, if_pos (hle.2 htransmitted)]
    refine optionRel_map (getTransmittedSegment_moved h hw hs hseq happ) ?_
    rintro r r' ⟨hitem, hbuffer⟩
    exact ⟨congrArg some hitem, hbuffer⟩
  rw [if_neg htransmitted, if_neg fun h' => htransmitted (hle.1 h')]
  by_cases hnew : b.sentEnd ≤ seq
  · rw [if_pos hnew, if_pos (hge.2 hnew)]
    by_cases heq : b.sentEnd = seq
    · rw [if_pos heq, if_pos ((SequenceNumber32.add_left_inj d).2 heq)]
      refine optionRel_map (getNewSegment_moved h hw (by rw [heq]; exact hseq) happ) ?_
      rintro r r' ⟨hitem, hbuffer⟩
      exact ⟨congrArg some hitem, hbuffer⟩
    · rw [if_neg heq, if_neg fun h' => heq ((SequenceNumber32.add_left_inj d).1 h')]
      exact .none
  rw [if_neg hnew, if_neg fun h' => hnew (hge.1 h')]
  rw [SequenceNumber32.not_le] at htransmitted hnew
  have hoffset : 0 < offset seq b.sentEnd ∧ offset seq b.sentEnd < s.toNat := by
    rw [SequenceNumber32.lt_iff (w := w) (by omega) (by omega)] at htransmitted hnew
    have hdist := SequenceNumber32.toNat_sub_of_offset_le hnew.le
    change offset seq b.sentEnd = _ at hdist
    omega
  have hraw : (seq + d).value < (b.sentEnd + d).value ∧
      (b.sentEnd + d).value < (seq + d).value + s ↔
      seq.value < b.sentEnd.value ∧ b.sentEnd.value < seq.value + s := by
    rw [noWrap_iff hoffset.2 hoffset.1, noWrap_iff]
    · exact (hcut hnew htransmitted).symm
    · rw [SequenceNumber32.offset_add_add]
      exact hoffset.2
    · rw [SequenceNumber32.offset_add_add]
      exact hoffset.1
  have hamount : (b.sentEnd + d).value - (seq + d).value = b.sentEnd.value - seq.value := by
    rw [← SequenceNumber32.sub_def, ← SequenceNumber32.sub_def, SequenceNumber32.add_sub_add]
  by_cases hpast : seq.value < b.sentEnd.value ∧ b.sentEnd.value < seq.value + s
  · rw [if_pos hpast, if_pos (hraw.2 hpast), hamount]
    exact hagain hnew htransmitted
  · rw [if_neg hpast, if_neg fun h' => hpast (hraw.1 h')]
    exact .none

theorem copyFromSequenceWithin_moved (h : StreamInv b) (hw : Window w b)
    (hseq : offset w seq < 2 ^ 31) (happ : List.Forall₂ TcpTxItem.Alike b.appList apps)
    {fuel : ℕ} (hcut : CutAlike d b numBytes seq)
    (hagain : seq < b.sentEnd →
      Option.Rel (CopiedOrNull d)
        (b.copyFromSequenceWithin now seq fuel (b.sentEnd.value - seq.value))
        ((b.moved d apps).copyFromSequenceWithin now (seq + d) fuel
          (b.sentEnd.value - seq.value))) :
    Option.Rel (CopiedOrNull d) (b.copyFromSequenceWithin now seq (fuel + 1) numBytes)
      ((b.moved d apps).copyFromSequenceWithin now (seq + d) (fuel + 1) numBytes) := by
  have hrest := offset_sizeFromSequence hw hseq
  have hmin := uint32_toNat_min numBytes (b.sizeFromSequence seq)
  have hfirst : offset w b.firstByteSeq < 2 ^ 31 := lt_of_le_of_lt (Nat.le_add_right ..) hw
  have hlt : seq + d < (b.moved d apps).firstByteSeq ↔ seq < b.firstByteSeq :=
    SequenceNumber32.add_lt_add_iff (w := w) hseq hfirst
  unfold copyFromSequenceWithin
  rw [sizeFromSequence_moved hw hseq]
  by_cases hbefore : seq < b.firstByteSeq
  · rw [if_pos hbefore, if_pos (hlt.2 hbefore)]
    exact .none
  · rw [if_neg hbefore, if_neg fun h' => hbefore (hlt.1 h')]
    exact copyBranches_moved h hw (by omega) happ hcut fun hsent _ => hagain hsent

/-- `CopyFromSequence` of the two runs. -/
theorem copyFromSequence_moved (now : ℕ) (h : StreamInv b) (hw : Window w b)
    (hseq : offset w seq < 2 ^ 31)
    (happ : List.Forall₂ TcpTxItem.Alike b.appList apps) (hcut : CutAlike d b numBytes seq) :
    Option.Rel (CopiedOrNull d) (b.copyFromSequence now numBytes seq)
      ((b.moved d apps).copyFromSequence now numBytes (seq + d)) := by
  refine copyFromSequenceWithin_moved h hw hseq happ hcut fun hlt => ?_
  refine copyFromSequenceWithin_moved h hw hseq happ ?_ fun _ => .none
  -- the second call ends where the sent data ends
  intro _ hpast
  have hsent := hw.sent h
  have hsentEnd := hw.offset_sentEnd h
  have hmin := uint32_toNat_min (b.sentEnd.value - seq.value) (b.sizeFromSequence seq)
  generalize min (b.sentEnd.value - seq.value) (b.sizeFromSequence seq) = s at hmin hpast
  rw [SequenceNumber32.lt_iff (w := w) hseq (by omega)] at hlt
  have hdist := SequenceNumber32.toNat_sub_of_offset_le hlt.le
  rw [SequenceNumber32.sub_def] at hdist
  rw [SequenceNumber32.lt_iff (w := w) (by omega) (by rw [offset_add (by omega)]; omega),
    offset_add (by omega)] at hpast
  omega

end Copies

end TcpTxBuffer

end Ns3Pedca
