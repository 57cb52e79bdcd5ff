import Ns3Pedca.Internet.TcpBytes

/-!
# The counts of the scoreboard

The buffer counts the bytes of the sent items that are sacked, lost and retransmitted
(`Accounted`). The counts are right in a run whose calls all are `Sound`
(`accounted_of_sound`) : no item that is lost is sacked for a duplicate acknowledgment, the
head is not sacked when it is marked as lost, the last item goes back to the application
list without flags, and items are joined only if their flags agree.
-/

set_option linter.unusedSectionVars false

namespace Ns3Pedca

open Runs

/-! ## The counts along a call -/

namespace TcpTxBuffer

/-- The counts of the buffer are right. -/
structure Accounted (b : TcpTxBuffer) : Prop where
  sackedOut : b.sackedOut.toNat = bytesOf (·.sacked) b.sentList
  lostOut : b.lostOut.toNat = bytesOf (·.lost) b.sentList
  retrans : b.retrans.toNat = bytesOf (·.retrans) b.sentList
  sentSize : b.sentSize.toNat = allBytes b.sentList
  size : b.size.toNat = allBytes (b.sentList ++ b.appList)
  exclusive : ∀ t ∈ b.sentList, ¬ (t.sacked = true ∧ t.lost = true)
  leftOut : b.sackedOut.toNat + b.lostOut.toNat ≤ b.sentSize.toNat
  bytesInFlight : (b.sentSize - (b.sackedOut + b.lostOut)).toNat + b.sackedOut.toNat +
    b.lostOut.toNat = b.sentSize.toNat

/-- The counts, as numbers of 32 bits, and what keeps them right : the items that have not
been sent have no flags. -/
structure ScoreboardInv (b : TcpTxBuffer) : Prop where
  sackedOut : b.sackedOut = .ofNat (bytesOf (·.sacked) b.sentList)
  lostOut : b.lostOut = .ofNat (bytesOf (·.lost) b.sentList)
  retrans : b.retrans = .ofNat (bytesOf (·.retrans) b.sentList)
  sentSize : b.sentSize = .ofNat (allBytes b.sentList)
  size : b.size = .ofNat (allBytes b.sentList + allBytes b.appList)
  bound : allBytes b.sentList + allBytes b.appList ≤ b.maxBuffer.toNat
  exclusive : ∀ t ∈ b.sentList, ¬ (t.sacked = true ∧ t.lost = true)
  unflagged : Unflagged b.appList

variable {b b' : TcpTxBuffer} {t head : TcpTxItem} {l l' after : List TcpTxItem}
  {x lostOut sackedOut : UInt32} {n : ℕ} {flag : Bool}

theorem sub_size (h : x = .ofNat (t.packet.length + n)) : x - t.size = .ofNat n := by
  rw [h, UInt32.ofNat_add, t.ofNat_length]
  grind

theorem add_size (h : x = .ofNat n) : x + t.size = .ofNat (t.packet.length + n) := by
  rw [h, UInt32.ofNat_add, t.ofNat_length]
  grind

/-- A flag of an item is cleared. -/
theorem count_clear (h : x = .ofNat ((if flag then t.packet.length else 0) + n)) :
    (if flag then x - t.size else x) = .ofNat n := by
  cases flag with
  | false => simpa using h
  | true => exact sub_size h

/-- A flag of an item is set. -/
theorem count_set (h : x = .ofNat ((if flag then t.packet.length else 0) + n)) :
    (if flag then x else x + t.size) = .ofNat (t.packet.length + n) := by
  cases flag with
  | false => exact add_size (by simpa using h)
  | true => exact h

theorem ScoreboardInv.accounted (h : ScoreboardInv b) : Accounted b := by
  have hbound := h.bound
  have hmax := b.maxBuffer.toNat_lt
  have hleft : bytesOf (·.sacked) b.sentList + bytesOf (·.lost) b.sentList ≤
      allBytes b.sentList := bytesOf_add_le h.exclusive
  have hretrans : bytesOf (·.retrans) b.sentList ≤ allBytes b.sentList := bytesOf_le_allBytes
  have htoNat : ∀ {n : ℕ} {x : UInt32}, x = .ofNat n → n ≤ allBytes b.sentList +
      allBytes b.appList → x.toNat = n := by
    rintro n x rfl hn
    exact UInt32.toNat_ofNat_of_lt' (lt_of_le_of_lt (hn.trans hbound) hmax)
  have hsacked := htoNat h.sackedOut (by omega)
  have hlost := htoNat h.lostOut (by omega)
  have hsent := htoNat h.sentSize (by omega)
  refine ⟨hsacked, hlost, htoNat h.retrans (by omega), hsent, ?_, h.exclusive, by omega, ?_⟩
  · rw [htoNat h.size le_rfl, allBytes_append]
  · have hsum : (b.sackedOut + b.lostOut).toNat = b.sackedOut.toNat + b.lostOut.toNat := by
      rw [UInt32.toNat_add]
      omega
    rw [UInt32.toNat_sub_of_le _ _ (by rw [UInt32.le_iff_toNat_le]; omega), hsum]
    omega

theorem ScoreboardInv.init (seq : SequenceNumber32) (maxBuffer dupAckThresh segmentSize : UInt32) :
    ScoreboardInv (init seq maxBuffer dupAckThresh segmentSize) :=
  ⟨rfl, rfl, rfl, rfl, rfl, Nat.zero_le _, by rintro t ⟨⟩, by rintro t ⟨⟩⟩

theorem ScoreboardInv.add (h : ScoreboardInv b) {p : Packet} (hp : p.length < 2 ^ 32) :
    ScoreboardInv (b.add p).2 := by
  unfold TcpTxBuffer.add
  split
  next hle =>
    split
    next hpos =>
      have hbound := h.bound
      have hmax := b.maxBuffer.toNat_lt
      have hsize : b.size.toNat = allBytes b.sentList + allBytes b.appList := by
        rw [h.size, UInt32.toNat_ofNat_of_lt' (lt_of_le_of_lt hbound hmax)]
      rw [UInt32.le_iff_toNat_le, available, UInt32.toNat_ofNat_of_lt' hp,
        UInt32.toNat_sub_of_le _ _ (by rw [UInt32.le_iff_toNat_le]; omega), hsize] at hle
      have hall : allBytes (b.appList ++ [{ node := b.nextNode, packet := p }]) =
          allBytes b.appList + p.length := by
        rw [allBytes_append, allBytes_cons, allBytes_nil, Nat.add_zero]
      refine ⟨h.sackedOut, h.lostOut, h.retrans, h.sentSize, ?_, ?_, h.exclusive, ?_⟩
      · change b.size + .ofNat p.length = _
        rw [hall, h.size, ← Nat.add_assoc, UInt32.ofNat_add (_ + _)]
      · change allBytes b.sentList + allBytes (b.appList ++ _) ≤ b.maxBuffer.toNat
        rw [hall]
        omega
      · intro t ht
        rcases List.mem_append.1 ht with ht | ht
        · exact h.unflagged t ht
        · rw [List.mem_singleton.1 ht]
          exact ⟨rfl, rfl, rfl⟩
    next => exact h
  next => exact h

/-! ### Copies -/

theorem ScoreboardInv.getNewSegment (h : ScoreboardInv b) {now : ℕ} {s : UInt32}
    {item : TcpTxItem} (hget : b.getNewSegment now s = some (item, b')) : ScoreboardInv b' := by
  obtain ⟨found, hfound, rfl, rfl⟩ := getNewSegment_found hget
  have hsame := sameBytes_of_unflagged h.unflagged hfound
  have hflags := hsame.unflagged h.unflagged
  obtain ⟨hs, hl, hr⟩ := hflags found.item (by simp [Found.list])
  have hall : allBytes (found.before ++ found.after) + found.item.packet.length =
      allBytes b.appList := by
    rw [← hsame.all, Found.list, allBytes_append, allBytes_append, allBytes_cons]
    omega
  have hretrans : found.retrans = b.retrans := by
    have hzero := hsame.retrans
    rw [bytesOf_eq_zero fun t ht => (h.unflagged t ht).2.2,
      bytesOf_eq_zero fun t ht => (hflags t ht).2.2] at hzero
    simpa using hzero
  refine ⟨?_, ?_, ?_, ?_, ?_, ?_, ?_, ?_⟩
  · simpa [hs] using h.sackedOut
  · simpa [hl] using h.lostOut
  · simpa [hr, hretrans] using h.retrans
  · simp only [allBytes_append, allBytes_cons, allBytes_nil, Nat.add_zero]
    rw [Nat.add_comm]
    exact add_size h.sentSize
  · simp only [allBytes_append, allBytes_cons, allBytes_nil, Nat.add_zero]
    rw [h.size, ← hall, allBytes_append]
    congr 1
    omega
  · have hbound := h.bound
    rw [← hall] at hbound
    simp only [allBytes_append, allBytes_cons, allBytes_nil, Nat.add_zero] at hbound ⊢
    omega
  · intro t ht
    rcases List.mem_append.1 ht with ht | ht
    · exact h.exclusive t ht
    · rw [List.mem_singleton.1 ht, hs]
      rintro ⟨hsacked, -⟩
      cases hsacked
  · intro t ht
    refine hflags t ?_
    rcases List.mem_append.1 ht with ht | ht
    · exact List.mem_append_left _ ht
    · exact List.mem_append_right _ (List.mem_cons_of_mem _ ht)

/-- The sent items that a copy joins for `s` bytes at `seq` have the same flags. -/
def JoinsAlike (b : TcpTxBuffer) (s : UInt32) (seq : SequenceNumber32) : Prop :=
  Agree (segmentLimit seq s b.sentList) seq b.firstByteSeq b.sentList

theorem ScoreboardInv.getTransmittedSegment (h : ScoreboardInv b) {now : ℕ} {s : UInt32}
    {seq : SequenceNumber32} {item : TcpTxItem} (hagree : b.JoinsAlike s seq)
    (hget : b.getTransmittedSegment now s seq = some (item, b')) : ScoreboardInv b' := by
  obtain ⟨found, hfound, rfl, rfl⟩ := getTransmittedSegment_found hget
  have hsame := sameBytes_of_agree hagree hfound
  refine ⟨?_, ?_, ?_, ?_, ?_, ?_, ?_, h.unflagged⟩
  · have hsacked := h.sackedOut
    rw [← hsame.sacked, Found.list] at hsacked
    simpa using hsacked
  · have hlost := h.lostOut
    rw [← hsame.lost, Found.list] at hlost
    simpa using hlost
  · have hretrans : found.retrans = .ofNat (bytesOf (·.retrans) found.list) := by
      have hadd := hsame.retrans
      rw [← h.retrans] at hadd
      grind
    rw [Found.list, bytesOf_append, bytesOf_cons, Nat.add_left_comm] at hretrans
    simp only [bytesOf_append, bytesOf_cons, if_true]
    rw [Nat.add_left_comm]
    exact count_set hretrans
  · have hsent := h.sentSize
    rw [← hsame.all, Found.list] at hsent
    simpa using hsent
  · have hsize := h.size
    rw [← hsame.all, Found.list] at hsize
    simpa using hsize
  · have hbound := h.bound
    rw [← hsame.all, Found.list] at hbound
    simpa using hbound
  · have hexclusive : ∀ t ∈ found.list, ¬ (t.sacked = true ∧ t.lost = true) := by
      intro t ht
      obtain ⟨t', ht', hs, hl, -⟩ := hsame.flags t ht
      rw [hs, hl]
      exact h.exclusive t' ht'
    intro t ht
    simp only [List.mem_append, List.mem_cons] at ht
    rcases ht with ht | rfl | ht
    · exact hexclusive t (by simp [Found.list, ht])
    · exact hexclusive found.item (by simp [Found.list])
    · exact hexclusive t (by simp [Found.list, ht])

theorem ScoreboardInv.copyFromSequence (h : ScoreboardInv b) {now : ℕ} {numBytes : UInt32}
    {seq : SequenceNumber32} {r : Option TcpTxItem}
    (hagree : seq + b.requested numBytes seq ≤ b.sentEnd →
      b.JoinsAlike (b.requested numBytes seq) seq)
    (hcopy : b.copyFromSequence now numBytes seq = some (r, b')) : ScoreboardInv b' := by
  cases copyFromSequence_step hcopy with
  | null => exact h
  | transmitted hne hend hget => exact h.getTransmittedSegment (hagree hend) hget
  | new hne hend hget => exact h.getNewSegment hget

/-! ### Flags -/

section Flags

variable {l1 l2 : List TcpTxItem} {t' : TcpTxItem}

/-- The flags of one sent item change, and the counts with them. -/
theorem ScoreboardInv.modify (h : ScoreboardInv b) (l1 : List TcpTxItem) (t' : TcpTxItem)
    (hl : b.sentList = l1 ++ t :: l2) (hsent : b'.sentList = l1 ++ t' :: l2)
    (hpacket : t'.packet = t.packet)
    (hexclusive : ¬ (t'.sacked = true ∧ t'.lost = true))
    (hsacked : ∀ n, b.sackedOut = .ofNat ((if t.sacked then t.packet.length else 0) + n) →
      b'.sackedOut = .ofNat ((if t'.sacked then t.packet.length else 0) + n))
    (hlost : ∀ n, b.lostOut = .ofNat ((if t.lost then t.packet.length else 0) + n) →
      b'.lostOut = .ofNat ((if t'.lost then t.packet.length else 0) + n))
    (hretrans : ∀ n, b.retrans = .ofNat ((if t.retrans then t.packet.length else 0) + n) →
      b'.retrans = .ofNat ((if t'.retrans then t.packet.length else 0) + n))
    (happ : b'.appList = b.appList) (hsentSize : b'.sentSize = b.sentSize)
    (hsize : b'.size = b.size) (hmax : b'.maxBuffer = b.maxBuffer) : ScoreboardInv b' := by
  have hbytes : ∀ (flag : TcpTxItem → Bool) (x : TcpTxItem), bytesOf flag (l1 ++ x :: l2) =
      (if flag x then x.packet.length else 0) + (bytesOf flag l1 + bytesOf flag l2) := by
    intro flag x
    rw [bytesOf_append, bytesOf_cons, Nat.add_left_comm]
  have hall : allBytes b'.sentList = allBytes b.sentList := by
    rw [hsent, hl, allBytes_append, allBytes_append, allBytes_cons, allBytes_cons, hpacket]
  refine ⟨?_, ?_, ?_, ?_, ?_, ?_, ?_, ?_⟩
  · rw [hsent, hbytes, hpacket]
    refine hsacked _ ?_
    rw [h.sackedOut, hl, hbytes]
  · rw [hsent, hbytes, hpacket]
    refine hlost _ ?_
    rw [h.lostOut, hl, hbytes]
  · rw [hsent, hbytes, hpacket]
    refine hretrans _ ?_
    rw [h.retrans, hl, hbytes]
  · rw [hsentSize, hall, h.sentSize]
  · rw [hsize, hall, happ, h.size]
  · rw [hall, happ, hmax]
    exact h.bound
  · intro x hx
    rw [hsent] at hx
    simp only [List.mem_append, List.mem_cons] at hx
    rcases hx with hx | rfl | hx
    · exact h.exclusive x (by simp [hl, hx])
    · exact hexclusive
    · exact h.exclusive x (by simp [hl, hx])
  · rw [happ]
    exact h.unflagged

/-- The first item of the list that is not sacked is not lost. -/
def NextNotLost (l : List TcpTxItem) : Prop :=
  ∀ t ∈ l.find? (fun t => !t.sacked), t.lost = false

instance NextNotLost.decidable (l : List TcpTxItem) : Decidable (NextNotLost l) :=
  inferInstanceAs (Decidable (∀ t ∈ l.find? (fun t => !t.sacked), t.lost = false))

theorem sackFirst_some (h : sackFirst l = some (l', t)) :
    t.sacked = false ∧ l.find? (fun t => !t.sacked) = some t ∧
      ∃ l1 l2, l = l1 ++ t :: l2 ∧ l' = l1 ++ { t with sacked := true } :: l2 := by
  induction l generalizing l' with
  | nil => cases h
  | cons x l ih =>
    unfold sackFirst at h
    split at h
    next hx =>
      obtain ⟨r, hr, heq⟩ := Option.map_eq_some_iff.1 h
      cases heq
      obtain ⟨hs, hfind, l1, l2, hl, hl'⟩ := ih hr
      refine ⟨hs, ?_, x :: l1, l2, by rw [hl, List.cons_append], by rw [hl', List.cons_append]⟩
      rw [List.find?_cons_of_neg (by simp [hx]), hfind]
    next hx =>
      cases h
      have hx := Bool.eq_false_of_not_eq_true hx
      exact ⟨hx, List.find?_cons_of_pos (by simp [hx]), [], l, rfl, rfl⟩

theorem ScoreboardInv.addRenoSack (h : ScoreboardInv b) (hnext : NextNotLost b.sentList.tail)
    (hadd : b.addRenoSack = some b') : ScoreboardInv b' := by
  unfold TcpTxBuffer.addRenoSack at hadd
  split at hadd
  · cases hadd
  next head after hl =>
    rw [hl] at hnext
    split at hadd
    next after' t hsack =>
      cases hadd
      obtain ⟨hs, hfind, l1, l2, rfl, rfl⟩ := sackFirst_some hsack
      have hlost : t.lost = false := hnext t hfind
      refine h.modify (head :: l1) { t with sacked := true } hl rfl rfl ?_ ?_
        (fun _ hn => hn) (fun _ hn => hn) rfl rfl rfl rfl
      · rintro ⟨-, hlost'⟩
        rw [hlost] at hlost'
        cases hlost'
      · intro n hn
        rw [hs] at hn
        simpa using add_size (t := t) (by simpa using hn)
    next =>
      cases hadd
      exact h

theorem ScoreboardInv.markHeadAsLost (h : ScoreboardInv b) : ScoreboardInv b.markHeadAsLost := by
  unfold TcpTxBuffer.markHeadAsLost
  split
  · exact h
  next head after hl =>
    refine h.modify [] { head with sacked := false, retrans := false, lost := true }
      hl rfl rfl (by simp) (fun n hn => ?_) (fun n hn => ?_) (fun n hn => ?_) rfl rfl rfl rfl
    · simpa using count_clear hn
    · simpa using count_set hn
    · simpa using count_clear hn

theorem ScoreboardInv.deleteRetransmittedFlagFromHead (h : ScoreboardInv b) :
    ScoreboardInv b.deleteRetransmittedFlagFromHead := by
  unfold TcpTxBuffer.deleteRetransmittedFlagFromHead
  split
  · exact h
  next =>
    split
    · exact h
    next head after hl =>
      split
      next hretrans =>
        refine h.modify [] { head with retrans := false } hl rfl rfl
          (h.exclusive head (by simp [hl])) (fun _ hn => hn) (fun _ hn => hn) (fun n hn => ?_)
          rfl rfl rfl rfl
        rw [hretrans] at hn
        simpa using sub_size hn
      · exact h

theorem bytesOf_map {flag : TcpTxItem → Bool} {f : TcpTxItem → TcpTxItem}
    (hf : ∀ t, (f t).packet = t.packet) :
    bytesOf flag (l.map f) = bytesOf (fun t => flag (f t)) l := by
  rw [bytesOf, bytesOf, List.map_map]
  congr 1
  refine List.map_congr_left fun t _ => ?_
  rw [Function.comp_apply, hf]

theorem allBytes_map {f : TcpTxItem → TcpTxItem} (hf : ∀ t, (f t).packet = t.packet) :
    allBytes (l.map f) = allBytes l :=
  bytesOf_map hf

/-- The flags of all sent items change, and the counts with them. -/
theorem ScoreboardInv.map (h : ScoreboardInv b) {f : TcpTxItem → TcpTxItem}
    (hf : ∀ t, (f t).packet = t.packet) (hsent : b'.sentList = b.sentList.map f)
    (hsacked : b'.sackedOut = .ofNat (bytesOf (fun t => (f t).sacked) b.sentList))
    (hlost : b'.lostOut = .ofNat (bytesOf (fun t => (f t).lost) b.sentList))
    (hretrans : b'.retrans = .ofNat (bytesOf (fun t => (f t).retrans) b.sentList))
    (hexclusive : ∀ t ∈ b.sentList, ¬ ((f t).sacked = true ∧ (f t).lost = true))
    (happ : b'.appList = b.appList) (hsentSize : b'.sentSize = b.sentSize)
    (hsize : b'.size = b.size) (hmax : b'.maxBuffer = b.maxBuffer) : ScoreboardInv b' where
  sackedOut := by rw [hsent, bytesOf_map hf, hsacked]
  lostOut := by rw [hsent, bytesOf_map hf, hlost]
  retrans := by rw [hsent, bytesOf_map hf, hretrans]
  sentSize := by rw [hsent, allBytes_map hf, hsentSize, h.sentSize]
  size := by rw [hsent, allBytes_map hf, happ, hsize, h.size]
  bound := by
    rw [hsent, allBytes_map hf, happ, hmax]
    exact h.bound
  exclusive t ht := by
    rw [hsent] at ht
    obtain ⟨x, hx, rfl⟩ := List.mem_map.1 ht
    exact hexclusive x hx
  unflagged := by
    rw [happ]
    exact h.unflagged

/-- No item has the flag. -/
theorem bytesOf_false : (0 : UInt32) = .ofNat (bytesOf (fun _ => false) l) := by
  rw [bytesOf_eq_zero fun _ _ => rfl]
  rfl

theorem ScoreboardInv.resetRenoSack (h : ScoreboardInv b) : ScoreboardInv b.resetRenoSack :=
  h.map (f := fun t => { t with sacked := false }) (fun _ => rfl) rfl bytesOf_false h.lostOut
    h.retrans (by simp) rfl rfl rfl rfl

theorem countLost_eq (l : List TcpTxItem) (lostOut : UInt32) :
    countLost l lostOut = lostOut + .ofNat (bytesOf (fun t => t.lost || !t.sacked) l) := by
  induction l generalizing lostOut with
  | nil => simp [countLost]
  | cons t l ih =>
    rw [countLost, ih, bytesOf_cons, UInt32.ofNat_add]
    split
    · rw [t.ofNat_length]
      grind
    · grind

theorem ScoreboardInv.setSentListLost (h : ScoreboardInv b) (resetSack : Bool) :
    ScoreboardInv (b.setSentListLost resetSack) := by
  unfold TcpTxBuffer.setSentListLost
  split
  · exact h.map (f := fun t => { t with sacked := false, lost := true, retrans := false })
      (fun _ => rfl) rfl bytesOf_false h.sentSize bytesOf_false (by simp) rfl rfl rfl rfl
  · have hlost : countLost b.sentList 0 =
        .ofNat (bytesOf (fun t => t.lost || !t.sacked) b.sentList) := by
      rw [countLost_eq, UInt32.zero_add]
    refine h.map (f := fun t => { t with lost := t.lost || !t.sacked, retrans := false })
      (fun _ => rfl) rfl h.sackedOut hlost bytesOf_false (fun t ht => ?_) rfl rfl rfl rfl
    have hexclusive := h.exclusive t ht
    cases hs : t.sacked <;> simp_all

theorem ScoreboardInv.resetSentList (h : ScoreboardInv b) : ScoreboardInv b.resetSentList := by
  have hall : allBytes (b.resetSentList.appList) = allBytes b.sentList + allBytes b.appList := by
    unfold TcpTxBuffer.resetSentList
    rw [allBytes_append, allBytes_map]
    exact fun _ => rfl
  have hsum : allBytes b.resetSentList.sentList + allBytes b.resetSentList.appList =
      allBytes b.sentList + allBytes b.appList := by
    rw [hall]
    exact Nat.zero_add _
  refine ⟨rfl, rfl, rfl, rfl, ?_, ?_, by rintro t ⟨⟩, ?_⟩
  · rw [hsum]
    exact h.size
  · rw [hsum]
    exact h.bound
  · intro t ht
    rcases List.mem_append.1 ht with ht | ht
    · obtain ⟨t, -, rfl⟩ := List.mem_map.1 ht
      exact ⟨rfl, rfl, rfl⟩
    · exact h.unflagged t ht

theorem ScoreboardInv.resetLastSegmentSent (h : ScoreboardInv b)
    (hflags : ∀ t ∈ b.sentList.getLast?, t.sacked = false ∧ t.lost = false ∧ t.retrans = false) :
    ScoreboardInv b.resetLastSegmentSent := by
  unfold TcpTxBuffer.resetLastSegmentSent
  split
  next item hitem =>
    obtain ⟨hs, hl, hr⟩ := hflags item hitem
    have hlist := List.dropLast_append_getLast? item hitem
    have hbytes : ∀ flag, flag item = false →
        bytesOf flag b.sentList = bytesOf flag b.sentList.dropLast := by
      intro flag hflag
      conv_lhs => rw [← hlist]
      simp [hflag]
    have hall : allBytes b.sentList = item.packet.length + allBytes b.sentList.dropLast := by
      conv_lhs => rw [← hlist]
      simp [Nat.add_comm]
    refine ⟨?_, ?_, ?_, ?_, ?_, ?_, ?_, ?_⟩
    · rw [← hbytes _ hs]
      exact h.sackedOut
    · rw [← hbytes _ hl]
      exact h.lostOut
    · rw [← hbytes _ hr]
      simpa [hr] using h.retrans
    · exact sub_size (by rw [h.sentSize, hall])
    · have hsize := h.size
      rw [hall] at hsize
      rw [allBytes_cons, Nat.add_left_comm, ← Nat.add_assoc]
      exact hsize
    · have hbound := h.bound
      rw [hall] at hbound
      rw [allBytes_cons, Nat.add_left_comm, ← Nat.add_assoc]
      exact hbound
    · exact fun t ht => h.exclusive t (List.dropLast_subset _ ht)
    · intro t ht
      rcases List.mem_cons.1 ht with rfl | ht
      · exact ⟨hs, hl, hr⟩
      · exact h.unflagged t ht
  · exact h

end Flags

/-! ### Updates -/

section Updates

variable {list : List (SequenceNumber32 × SequenceNumber32)} {t' : TcpTxItem}
  {start : SequenceNumber32} {l'' : List TcpTxItem} {marks : Marks}
  {block : SequenceNumber32 × SequenceNumber32}

/-- A block covers the bytes from `start` on. -/
def Covered (list : List (SequenceNumber32 × SequenceNumber32)) (start : SequenceNumber32)
    (size : UInt32) : Prop :=
  ∃ block ∈ list, block.1 ≤ start ∧ start + size ≤ block.2

instance Covered.decidable (list : List (SequenceNumber32 × SequenceNumber32))
    (start : SequenceNumber32) (size : UInt32) : Decidable (Covered list start size) :=
  inferInstanceAs (Decidable (∃ block ∈ list, block.1 ≤ start ∧ start + size ≤ block.2))

/-- How many items are sacked, or covered by a block. -/
def countSackable (list : List (SequenceNumber32 × SequenceNumber32)) :
    SequenceNumber32 → List TcpTxItem → ℕ
  | _, [] => 0
  | start, t :: after =>
    (if t.sacked = true ∨ Covered list start t.size then 1 else 0) +
      countSackable list (start + t.size) after

/-- Some of the items that the blocks cover have been sacked. -/
inductive Sacks (list : List (SequenceNumber32 × SequenceNumber32)) :
    SequenceNumber32 → List TcpTxItem → List TcpTxItem → Prop
  | nil {start : SequenceNumber32} : Sacks list start [] []
  | cons {start : SequenceNumber32} {t t' : TcpTxItem} {l l' : List TcpTxItem}
      (ht : t' = t ∨ t' = { t with lost := false, sacked := true } ∧ Covered list start t.size)
      (h : Sacks list (start + t.size) l l') : Sacks list start (t :: l) (t' :: l')

theorem Sacks.refl : ∀ (start : SequenceNumber32) (l : List TcpTxItem), Sacks list start l l
  | _, [] => .nil
  | start, t :: l => .cons (.inl rfl) (Sacks.refl (start + t.size) l)

theorem Sacks.trans (h : Sacks list start l l') (h' : Sacks list start l' l'') :
    Sacks list start l l'' := by
  induction h generalizing l'' with
  | nil => exact h'
  | @cons start t t' l l' ht h ih =>
    cases h' with
    | cons ht' h' =>
      rcases ht with rfl | ⟨rfl, hcovered⟩
      · exact .cons ht' (ih h')
      · refine .cons (.inr ⟨?_, hcovered⟩) (ih h')
        rcases ht' with rfl | ⟨rfl, -⟩
        · rfl
        · rfl

theorem Sacks.forall₂ (h : Sacks list start l l') :
    List.Forall₂ (fun t t' => t' = t ∨ t' = { t with lost := false, sacked := true }) l l' := by
  induction h with
  | nil => exact .nil
  | cons ht h ih => exact .cons (ht.imp_right fun ht => ht.1) ih

theorem Sacks.countP_le (h : Sacks list start l l') :
    l'.countP (·.sacked) ≤ countSackable list start l := by
  induction h with
  | nil => exact le_rfl
  | @cons start t t' l l' ht h ih =>
    rw [List.countP_cons, countSackable, Nat.add_comm]
    refine Nat.add_le_add ?_ ih
    rcases ht with rfl | ⟨rfl, hcovered⟩
    · split_ifs with hs hc
      · exact le_rfl
      · exact absurd (.inl hs) hc
      · exact Nat.zero_le _
      · exact le_rfl
    · have hone : (if t.sacked = true ∨ Covered list start t.size then 1 else 0) = 1 :=
        if_pos (.inr hcovered)
      rw [hone]
      split <;> omega

theorem bytesOf_forall₂ {flag : TcpTxItem → Bool} {R : TcpTxItem → TcpTxItem → Prop}
    (h : List.Forall₂ R l l')
    (hR : ∀ t t', R t t' → flag t' = flag t ∧ t'.packet = t.packet) :
    bytesOf flag l' = bytesOf flag l := by
  induction h with
  | nil => rfl
  | cons ht h ih =>
    obtain ⟨hflag, hpacket⟩ := hR _ _ ht
    rw [bytesOf_cons, bytesOf_cons, ih, hflag, hpacket]

/-- The counts after the loop of `Update` over the items. -/
theorem updateBlock_spec (hblock : block ∈ list) :
    ∀ (start : SequenceNumber32) (l : List TcpTxItem) (marks : Marks),
      Sacks list start l (updateBlock block start l marks).1 ∧
      (updateBlock block start l marks).2.lostOut + .ofNat (bytesOf (·.lost) l) =
        marks.lostOut + .ofNat (bytesOf (·.lost) (updateBlock block start l marks).1) ∧
      (updateBlock block start l marks).2.sackedOut + .ofNat (bytesOf (·.sacked) l) =
        marks.sackedOut + .ofNat (bytesOf (·.sacked) (updateBlock block start l marks).1)
  | _, [], _ => ⟨.nil, rfl, rfl⟩
  | start, t :: l, marks => by
    unfold updateBlock
    split
    next hcover =>
      obtain ⟨hsacks, hlost, hsacked⟩ :=
        updateBlock_spec hblock (start + t.size) l (markSacked start t marks)
      unfold markSacked at *
      cases ht : t.sacked with
      | true =>
        simp only [ht, if_true] at hlost hsacked hsacks ⊢
        refine ⟨.cons (.inl rfl) hsacks, ?_, ?_⟩
        · rw [bytesOf_cons, bytesOf_cons, UInt32.ofNat_add, UInt32.ofNat_add]
          grind
        · rw [bytesOf_cons, bytesOf_cons, UInt32.ofNat_add, UInt32.ofNat_add]
          grind
      | false =>
        simp only [ht, Bool.false_eq_true, if_false] at hlost hsacked hsacks ⊢
        refine ⟨.cons (.inr ⟨rfl, block, hblock, hcover⟩) hsacks, ?_, ?_⟩
        · rw [bytesOf_cons, bytesOf_cons, UInt32.ofNat_add, UInt32.ofNat_add]
          cases hl : t.lost <;> simp [hl, t.ofNat_length] at hlost ⊢ <;> grind
        · rw [bytesOf_cons, bytesOf_cons, UInt32.ofNat_add, UInt32.ofNat_add]
          simp [ht, t.ofNat_length] at hsacked ⊢
          grind
    next =>
      split
      · exact ⟨Sacks.refl start _, rfl, rfl⟩
      · obtain ⟨hsacks, hlost, hsacked⟩ := updateBlock_spec hblock (start + t.size) l marks
        refine ⟨.cons (.inl rfl) hsacks, ?_, ?_⟩
        · rw [bytesOf_cons, bytesOf_cons, UInt32.ofNat_add, UInt32.ofNat_add]
          grind
        · rw [bytesOf_cons, bytesOf_cons, UInt32.ofNat_add, UInt32.ofNat_add]
          grind

theorem updateBlocks_spec :
    ∀ (blocks : List (SequenceNumber32 × SequenceNumber32)) (l : List TcpTxItem) (marks : Marks),
      (∀ block ∈ blocks, block ∈ list) →
      Sacks list b.firstByteSeq l (b.updateBlocks blocks l marks).1.1 ∧
      (b.updateBlocks blocks l marks).1.2.lostOut + .ofNat (bytesOf (·.lost) l) =
        marks.lostOut + .ofNat (bytesOf (·.lost) (b.updateBlocks blocks l marks).1.1) ∧
      (b.updateBlocks blocks l marks).1.2.sackedOut + .ofNat (bytesOf (·.sacked) l) =
        marks.sackedOut + .ofNat (bytesOf (·.sacked) (b.updateBlocks blocks l marks).1.1)
  | [], l, _, _ => ⟨Sacks.refl _ l, rfl, rfl⟩
  | block :: blocks, l, marks, hblocks => by
    unfold updateBlocks
    split
    · exact ⟨Sacks.refl _ l, rfl, rfl⟩
    · obtain ⟨hsacks, hlost, hsacked⟩ := updateBlock_spec
        (hblocks block (List.mem_cons_self ..)) b.firstByteSeq l marks
      obtain ⟨hsacks', hlost', hsacked'⟩ := updateBlocks_spec blocks
        (updateBlock block b.firstByteSeq l marks).1 (updateBlock block b.firstByteSeq l marks).2
        fun x hx => hblocks x (List.mem_cons_of_mem block hx)
      refine ⟨hsacks.trans hsacks', ?_, ?_⟩
      · grind
      · grind

/-- The items that the loop of `UpdateLostCount` marks, its count of the sacked ones, and the
count of lost bytes. -/
theorem updateLostItems_spec {first : ℕ} {dupAckThresh : UInt32} :
    ∀ {l l' : List TcpTxItem} {lostOut lostOut' sacked : UInt32},
      updateLostItems first dupAckThresh lostOut l = some (l', sacked, lostOut') →
      List.Forall₂ (fun t t' => t' = t ∨ t.sacked = false ∧ t' = { t with lost := true }) l l' ∧
      lostOut' + .ofNat (bytesOf (·.lost) l) = lostOut + .ofNat (bytesOf (·.lost) l') ∧
      sacked.toNat ≤ l.countP (·.sacked)
  | [], _, _, _, _, h => by cases h
  | t :: after, l', lostOut, lostOut', sacked, h => by
    unfold updateLostItems at h
    obtain ⟨⟨after', sacked', lostOut''⟩, hlater, heq⟩ := Option.map_eq_some_iff.1 h
    have hrest : List.Forall₂
        (fun t t' => t' = t ∨ t.sacked = false ∧ t' = { t with lost := true }) after after' ∧
        lostOut'' + .ofNat (bytesOf (·.lost) after) =
          lostOut + .ofNat (bytesOf (·.lost) after') ∧
        sacked'.toNat ≤ after.countP (·.sacked) := by
      split at hlater
      · cases hlater
        exact ⟨List.forall₂_same.2 fun _ _ => .inl rfl, rfl, Nat.zero_le _⟩
      · exact updateLostItems_spec hlater
    obtain ⟨hmarks, hlost, hcount⟩ := hrest
    have hsacked : (if t.sacked = true then sacked' + 1 else sacked').toNat ≤
        (t :: after).countP (·.sacked) := by
      rw [List.countP_cons]
      split
      · rw [UInt32.toNat_add, UInt32.toNat_one]
        omega
      · exact hcount
    change (if dupAckThresh ≤ (if t.sacked = true then sacked' + 1 else sacked') ∧
      t.sacked = false ∧ t.lost = false then _ else _) = _ at heq
    by_cases hmark : dupAckThresh ≤ (if t.sacked = true then sacked' + 1 else sacked') ∧
      t.sacked = false ∧ t.lost = false
    · rw [if_pos hmark] at heq
      cases heq
      obtain ⟨-, hs, hl⟩ := hmark
      refine ⟨.cons (.inr ⟨hs, rfl⟩) hmarks, ?_, hsacked⟩
      rw [bytesOf_cons, bytesOf_cons, UInt32.ofNat_add, UInt32.ofNat_add]
      simp [hl, t.ofNat_length]
      grind
    · rw [if_neg hmark] at heq
      cases heq
      refine ⟨.cons (.inl rfl) hmarks, ?_, hsacked⟩
      rw [bytesOf_cons, bytesOf_cons, UInt32.ofNat_add, UInt32.ofNat_add]
      grind

theorem forall₂_mem_right {R : TcpTxItem → TcpTxItem → Prop} (h : List.Forall₂ R l l')
    (ht' : t' ∈ l') : ∃ t ∈ l, R t t' := by
  induction h with
  | nil => cases ht'
  | @cons x x' l l' hx h ih =>
    rcases List.mem_cons.1 ht' with rfl | ht'
    · exact ⟨x, List.mem_cons_self .., hx⟩
    · obtain ⟨t, ht, hR⟩ := ih ht'
      exact ⟨t, List.mem_cons_of_mem x ht, hR⟩

/-- Sent items are marked, with the counts of sacked and lost bytes. -/
theorem ScoreboardInv.mark (h : ScoreboardInv b) {R : TcpTxItem → TcpTxItem → Prop}
    (hitems : List.Forall₂ R b.sentList b'.sentList)
    (hR : ∀ t t', R t t' → t'.retrans = t.retrans ∧ t'.packet = t.packet ∧
      (¬ (t.sacked = true ∧ t.lost = true) → ¬ (t'.sacked = true ∧ t'.lost = true)))
    (hsacked : b'.sackedOut + .ofNat (bytesOf (·.sacked) b.sentList) =
      b.sackedOut + .ofNat (bytesOf (·.sacked) b'.sentList))
    (hlost : b'.lostOut + .ofNat (bytesOf (·.lost) b.sentList) =
      b.lostOut + .ofNat (bytesOf (·.lost) b'.sentList))
    (hretrans : b'.retrans = b.retrans) (happ : b'.appList = b.appList)
    (hsentSize : b'.sentSize = b.sentSize) (hsize : b'.size = b.size)
    (hmax : b'.maxBuffer = b.maxBuffer) : ScoreboardInv b' := by
  have hall : allBytes b'.sentList = allBytes b.sentList :=
    bytesOf_forall₂ hitems fun t t' ht => ⟨rfl, (hR t t' ht).2.1⟩
  have hsame : bytesOf (·.retrans) b'.sentList = bytesOf (·.retrans) b.sentList :=
    bytesOf_forall₂ hitems fun t t' ht => ⟨(hR t t' ht).1, (hR t t' ht).2.1⟩
  refine ⟨?_, ?_, ?_, ?_, ?_, ?_, ?_, ?_⟩
  · rw [← h.sackedOut] at hsacked
    grind
  · rw [← h.lostOut] at hlost
    grind
  · rw [hretrans, hsame, h.retrans]
  · rw [hsentSize, hall, h.sentSize]
  · rw [hsize, hall, happ, h.size]
  · rw [hall, happ, hmax]
    exact h.bound
  · intro t' ht'
    obtain ⟨t, ht, hRt⟩ := forall₂_mem_right hitems ht'
    exact (hR t t' hRt).2.2 (h.exclusive t ht)
  · rw [happ]
    exact h.unflagged

theorem ScoreboardInv.updateLostCount (h : ScoreboardInv b)
    (hhead : ∀ head after, b.sentList = head :: after → head.sacked = true →
      after.countP (·.sacked) < b.dupAckThresh.toNat)
    (hupdate : b.updateLostCount = some b') : ScoreboardInv b' := by
  unfold TcpTxBuffer.updateLostCount at hupdate
  split at hupdate
  next head after first hl hfirst =>
    obtain ⟨⟨after', sacked, lostOut⟩, hloop, heq⟩ := Option.map_eq_some_iff.1 hupdate
    have hspec : List.Forall₂
        (fun t t' => t' = t ∨ t.sacked = false ∧ t' = { t with lost := true }) after after' ∧
        lostOut + .ofNat (bytesOf (·.lost) after) =
          b.lostOut + .ofNat (bytesOf (·.lost) after') ∧
        sacked.toNat ≤ after.countP (·.sacked) := by
      split at hloop
      · cases hloop
        exact ⟨List.forall₂_same.2 fun _ _ => .inl rfl, rfl, Nat.zero_le _⟩
      · exact updateLostItems_spec hloop
    obtain ⟨hmarks, hlost, hcount⟩ := hspec
    have hloopInv : ScoreboardInv { b with sentList := head :: after', lostOut := lostOut } := by
      refine h.mark
        (R := fun t t' => t' = t ∨ t.sacked = false ∧ t' = { t with lost := true })
        ?_ ?_ ?_ ?_ rfl rfl rfl rfl rfl
      · rw [hl]
        exact .cons (.inl rfl) hmarks
      · rintro t t' (rfl | ⟨hs, rfl⟩)
        · exact ⟨rfl, rfl, id⟩
        · refine ⟨rfl, rfl, fun _ hboth => ?_⟩
          rw [hs] at hboth
          cases hboth.1
      · have hsacked : bytesOf (·.sacked) after' = bytesOf (·.sacked) after := by
          refine bytesOf_forall₂ hmarks ?_
          rintro t t' (rfl | ⟨-, rfl⟩) <;> exact ⟨rfl, rfl⟩
        rw [hl, bytesOf_cons, bytesOf_cons, hsacked]
      · rw [hl, bytesOf_cons, bytesOf_cons, UInt32.ofNat_add, UInt32.ofNat_add]
        grind
    change (if b.dupAckThresh ≤ sacked ∧ head.lost = false then _ else _) = _ at heq
    split at heq
    next hmark =>
      cases heq
      have hnot : head.sacked = false := by
        by_contra hs
        have hlt := hhead head after hl (Bool.eq_true_of_not_eq_false hs)
        have hle := UInt32.le_iff_toNat_le.1 hmark.1
        omega
      refine hloopInv.modify [] { head with lost := true } rfl rfl rfl ?_
        (fun _ hn => hn) (fun n hn => ?_) (fun _ hn => hn) rfl rfl rfl rfl
      · rintro ⟨hs, -⟩
        rw [hnot] at hs
        cases hs
      · rw [hmark.2] at hn
        simpa using add_size (t := head) (by simpa using hn)
    next =>
      cases heq
      exact hloopInv
  next => cases hupdate

/-- The head of the sent list is not sacked nor covered by a block, or too few of the items
behind it are for a loss to be detected. -/
def HeadKept (b : TcpTxBuffer) (list : List (SequenceNumber32 × SequenceNumber32)) : Prop :=
  match b.sentList with
  | [] => True
  | head :: after => head.sacked = true ∨ Covered list b.firstByteSeq head.size →
      countSackable list (b.firstByteSeq + head.size) after < b.dupAckThresh.toNat

instance HeadKept.decidable (b : TcpTxBuffer) (list : List (SequenceNumber32 × SequenceNumber32)) :
    Decidable (b.HeadKept list) := by
  unfold HeadKept
  split <;> infer_instance

theorem ScoreboardInv.update (h : ScoreboardInv b) (hhead : b.HeadKept list) {n : UInt32}
    (hupdate : b.update list = some (n, b')) : ScoreboardInv b' := by
  unfold TcpTxBuffer.update at hupdate
  obtain ⟨hsacks, hlost, hsacked⟩ := updateBlocks_spec (b := b) list b.sentList
    ⟨b.lostOut, b.sackedOut, 0, b.sackSeen, b.highestSack⟩ fun _ hx => hx
  generalize b.updateBlocks list b.sentList _ = r at hupdate hsacks hlost hsacked
  have hmarks : ScoreboardInv (b.withMarks r.1.1 r.1.2) := by
    refine h.mark hsacks.forall₂ ?_ hsacked hlost rfl rfl rfl rfl rfl
    rintro t t' (rfl | rfl)
    · exact ⟨rfl, rfl, id⟩
    · exact ⟨rfl, rfl, by simp⟩
  simp only at hupdate
  split at hupdate
  next =>
    obtain ⟨b'', hcount, heq⟩ := Option.map_eq_some_iff.1 hupdate
    cases heq
    refine hmarks.updateLostCount ?_ hcount
    intro head after hl hs
    change r.1.1 = head :: after at hl
    change _ < b.dupAckThresh.toNat
    rw [hl] at hsacks
    unfold HeadKept at hhead
    generalize b.sentList = l at hsacks hhead
    cases hsacks with
    | @cons _ t _ l _ ht hrest =>
      refine lt_of_le_of_lt hrest.countP_le (hhead ?_)
      rcases ht with rfl | ⟨-, hcovered⟩
      · exact .inl hs
      · exact .inr hcovered
  next =>
    cases hupdate
    exact hmarks

end Updates

/-! ### Acknowledgments -/

section Discards

variable {offset size : UInt32} {now fuel : ℕ} {seq : SequenceNumber32}

/-- The sent items that are left when `offset` bytes of a buffer of `size` bytes are discarded,
the first one in full. -/
def unacked : UInt32 → UInt32 → List TcpTxItem → List TcpTxItem
  | _, _, [] => []
  | size, offset, t :: after =>
    if 0 < size ∧ 0 < offset ∧ t.size ≤ offset then unacked (size - t.size) (offset - t.size) after
    else t :: after

/-- The first bytes of an item leave a count. -/
theorem count_shorten (flag : Bool) (hoffset : offset.toNat ≤ t.packet.length)
    (h : x = .ofNat ((if flag then t.packet.length else 0) + n)) :
    (if flag then x - offset else x) =
      .ofNat ((if flag then t.packet.length - offset.toNat else 0) + n) := by
  cases flag with
  | false => simpa using h
  | true =>
    have hlen : t.packet.length = t.packet.length - offset.toNat + offset.toNat :=
      (Nat.sub_add_cancel hoffset).symm
    rw [if_pos rfl, hlen, UInt32.ofNat_add, UInt32.ofNat_add, UInt32.ofNat_toNat] at h
    rw [if_pos rfl, if_pos rfl, h, UInt32.ofNat_add]
    grind

theorem ScoreboardInv.discardHead (h : ScoreboardInv b) (hl : b.sentList = head :: after) :
    ScoreboardInv (b.discardHead head after) := by
  have hbound := h.bound
  have hsize := h.size
  rw [hl, allBytes_cons] at hbound
  rw [hl, allBytes_cons, Nat.add_assoc] at hsize
  refine ⟨?_, ?_, ?_, ?_, sub_size hsize, ?_, ?_, h.unflagged⟩
  · exact count_clear (by rw [h.sackedOut, hl, bytesOf_cons]; rfl)
  · exact count_clear (by rw [h.lostOut, hl, bytesOf_cons]; rfl)
  · exact count_clear (by rw [h.retrans, hl, bytesOf_cons]; rfl)
  · exact sub_size (by rw [h.sentSize, hl, allBytes_cons]; rfl)
  · change allBytes after + allBytes b.appList ≤ b.maxBuffer.toNat
    omega
  · exact fun t ht => h.exclusive t (by rw [hl]; exact List.mem_cons_of_mem head ht)

theorem ScoreboardInv.discardStart (h : ScoreboardInv b) (hl : b.sentList = head :: after)
    (hoffset : offset < head.size) : ScoreboardInv (b.discardStart head after offset) := by
  have hle := toNat_le_of_lt_size hoffset
  have hlen := head.length_splitSecond (k := offset)
  have hshorten : ∀ {x : UInt32} {n : ℕ}, x = .ofNat (head.packet.length + n) →
      x - offset = .ofNat (head.packet.length - offset.toNat + n) :=
    fun hx => count_shorten true hle hx
  have hbound := h.bound
  have hsize := h.size
  rw [hl, allBytes_cons] at hbound
  rw [hl, allBytes_cons, Nat.add_assoc] at hsize
  refine ⟨?_, ?_, ?_, ?_, ?_, ?_, ?_, h.unflagged⟩
  · change _ = UInt32.ofNat (bytesOf _ (head.splitSecond offset :: after))
    rw [bytesOf_cons, hlen]
    exact count_shorten _ hle (by rw [h.sackedOut, hl, bytesOf_cons])
  · change _ = UInt32.ofNat (bytesOf _ (head.splitSecond offset :: after))
    rw [bytesOf_cons, hlen]
    exact count_shorten _ hle (by rw [h.lostOut, hl, bytesOf_cons])
  · change _ = UInt32.ofNat (bytesOf _ (head.splitSecond offset :: after))
    rw [bytesOf_cons, hlen]
    exact count_shorten _ hle (by rw [h.retrans, hl, bytesOf_cons])
  · change _ = UInt32.ofNat (allBytes (head.splitSecond offset :: after))
    rw [allBytes_cons, hlen]
    exact hshorten (by rw [h.sentSize, hl, allBytes_cons])
  · change _ = UInt32.ofNat (allBytes (head.splitSecond offset :: after) + allBytes b.appList)
    rw [allBytes_cons, hlen, Nat.add_assoc]
    exact hshorten hsize
  · change allBytes (head.splitSecond offset :: after) + allBytes b.appList ≤ b.maxBuffer.toNat
    rw [allBytes_cons, hlen]
    omega
  · intro t ht
    rcases List.mem_cons.1 ht with rfl | ht
    · exact h.exclusive head (by simp [hl])
    · exact h.exclusive t (by rw [hl]; exact List.mem_cons_of_mem head ht)

theorem getNewSegment_sacked (h : ScoreboardInv b) {s : UInt32} {item : TcpTxItem}
    (hget : b.getNewSegment now s = some (item, b')) :
    b'.sentList = b.sentList ++ [item] ∧ item.sacked = false := by
  obtain ⟨found, hfound, rfl, rfl⟩ := getNewSegment_found hget
  have hflags := (sameBytes_of_unflagged h.unflagged hfound).unflagged h.unflagged
  exact ⟨rfl, (hflags found.item (by simp [Found.list])).1⟩

/-- A buffer whose sent list is empty gets an item that is not sacked. -/
theorem ScoreboardInv.refill (h : ScoreboardInv b) (hrefill : b.refill now offset = some b') :
    ScoreboardInv b' ∧ (b' = b ∨ b.sentList = [] ∧
      ∃ item, b'.sentList = [item] ∧ item.sacked = false) := by
  unfold TcpTxBuffer.refill at hrefill
  split at hrefill
  next hnil =>
    split at hrefill
    next item b'' hcopy =>
      cases hrefill
      cases copyFromSequence_step hcopy with
      | transmitted hne hend hget =>
        obtain ⟨found, hfound, -⟩ := getTransmittedSegment_found hget
        rw [hnil] at hfound
        cases hfound
      | new hne hend hget =>
        obtain ⟨hsent, hs⟩ := getNewSegment_sacked h hget
        rw [hnil] at hsent
        exact ⟨h.getNewSegment hget, .inr ⟨hnil, item, hsent, hs⟩⟩
    next => cases hrefill
  next =>
    cases hrefill
    exact ⟨h, .inl rfl⟩

/-- The loop of `DiscardUpTo`. A head that is sacked in the end was sent before. -/
theorem ScoreboardInv.discard :
    ∀ {fuel : ℕ} {offset : UInt32} {b b' : TcpTxBuffer}, ScoreboardInv b →
      discard now fuel offset b = some b' →
      ScoreboardInv b' ∧ ∀ head after, b'.sentList = head :: after → head.sacked = true →
        ∃ head', unacked b.size offset b.sentList = head' :: after ∧ head'.sacked = true
  | 0, _, _, _, _, hdiscard => by cases hdiscard
  | fuel + 1, offset, b, b', h, hdiscard => by
    unfold TcpTxBuffer.discard at hdiscard
    split at hdiscard
    next hpos =>
      split at hdiscard
      next => cases hdiscard
      next b₁ hrefill =>
        obtain ⟨h₁, hfront⟩ := h.refill hrefill
        split at hdiscard
        next => cases hdiscard
        next head after hl =>
          split at hdiscard
          next hle =>
            obtain ⟨h', hhead⟩ := ScoreboardInv.discard (h₁.discardHead hl) hdiscard
            refine ⟨h', fun x rest hx hs => ?_⟩
            obtain ⟨x', hx', hs'⟩ := hhead x rest hx hs
            rcases hfront with rfl | ⟨-, item, hitem, -⟩
            · refine ⟨x', ?_, hs'⟩
              rw [hl, unacked, if_pos ⟨hpos.1, hpos.2, hle⟩]
              exact hx'
            · rw [hitem] at hl
              cases hl
              cases hx'
          next hgt =>
            cases hdiscard
            have hlt := UInt32.not_le.1 hgt
            refine ⟨h₁.discardStart hl hlt, fun x rest hx hs => ?_⟩
            cases hx
            change head.sacked = true at hs
            rcases hfront with rfl | ⟨-, item, hitem, hnot⟩
            · refine ⟨head, ?_, hs⟩
              rw [hl, unacked, if_neg]
              rintro ⟨-, -, hle⟩
              exact hgt hle
            · rw [hitem] at hl
              cases hl
              rw [hnot] at hs
              cases hs
    next hstop =>
      cases hdiscard
      refine ⟨h, fun x rest hx hs => ⟨x, ?_, hs⟩⟩
      rw [hx, unacked, if_neg]
      rintro ⟨hsize, hoffset, -⟩
      exact hstop ⟨hsize, hoffset⟩

theorem ScoreboardInv.moveHeadSack (h : ScoreboardInv b)
    (hnext : ∀ head after, b.sentList = head :: after → head.sacked = true → NextNotLost after)
    (hmove : b.moveHeadSack = some b') : ScoreboardInv b' := by
  unfold TcpTxBuffer.moveHeadSack at hmove
  split at hmove
  · cases hmove
    exact h
  next head after hl =>
    split at hmove
    next hs =>
      obtain ⟨b₁, hadd, rfl⟩ := Option.map_eq_some_iff.1 hmove
      refine ScoreboardInv.markHeadAsLost (ScoreboardInv.addRenoSack ?_ ?_ hadd)
      · refine h.modify [] { head with sacked := false } hl rfl rfl (by simp)
          (fun n hn => ?_) (fun _ hn => hn) (fun _ hn => hn) rfl rfl rfl rfl
        rw [hs] at hn
        simpa using sub_size hn
      · exact hnext head after hl hs
    next =>
      cases hmove
      exact h

/-- If the item at the acknowledgment number is sacked, the next one that is not sacked is
not lost. -/
def AckKept (b : TcpTxBuffer) (seq : SequenceNumber32) : Prop :=
  match unacked b.size (seq - b.firstByteSeq) b.sentList with
  | [] => True
  | head :: after => head.sacked = true → NextNotLost after

instance AckKept.decidable (b : TcpTxBuffer) (seq : SequenceNumber32) :
    Decidable (b.AckKept seq) := by
  unfold AckKept
  split <;> infer_instance

theorem ScoreboardInv.discardUpTo (h : ScoreboardInv b)
    (hack : ¬ seq ≤ b.firstByteSeq → b.AckKept seq)
    (hdiscard : b.discardUpTo now seq = some b') : ScoreboardInv b' := by
  unfold TcpTxBuffer.discardUpTo at hdiscard
  split at hdiscard
  · cases hdiscard
    exact h
  next hnew =>
    split at hdiscard
    · cases hdiscard
    next b₁ hloop =>
      obtain ⟨h₁, hhead⟩ := h.discard hloop
      obtain ⟨b₂, hmove, heq⟩ := Option.map_eq_some_iff.1 hdiscard
      have h₁' : ScoreboardInv (if b₁.size = 0 then { b₁ with firstByteSeq := seq } else b₁) := by
        split
        · exact ⟨h₁.sackedOut, h₁.lostOut, h₁.retrans, h₁.sentSize, h₁.size, h₁.bound,
            h₁.exclusive, h₁.unflagged⟩
        · exact h₁
      have hsent : (if b₁.size = 0 then { b₁ with firstByteSeq := seq } else b₁).sentList =
          b₁.sentList := by
        split <;> rfl
      have h₂ : ScoreboardInv b₂ := by
        refine h₁'.moveHeadSack (fun head after hl hs => ?_) hmove
        rw [hsent] at hl
        obtain ⟨head', hunacked, hs'⟩ := hhead head after hl hs
        have hkept := hack hnew
        unfold AckKept at hkept
        rw [hunacked] at hkept
        exact hkept hs'
      rw [← heq]
      split
      · exact ⟨h₂.sackedOut, h₂.lostOut, h₂.retrans, h₂.sentSize, h₂.size, h₂.bound,
          h₂.exclusive, h₂.unflagged⟩
      · exact h₂

end Discards

/-! ## Runs -/

/-- The buffer after a call. A program that has stopped does not go on. -/
def step (b : Option TcpTxBuffer) (call : Call) : Option TcpTxBuffer :=
  b.bind fun b => (b.call call).map Prod.snd

/-- A call that keeps the counts right. -/
def Sound (b : TcpTxBuffer) : Call → Prop
  | .copyFromSequence _ numBytes seq => seq + b.requested numBytes seq ≤ b.sentEnd →
    b.JoinsAlike (b.requested numBytes seq) seq
  | .discardUpTo _ seq => ¬ seq ≤ b.firstByteSeq → b.AckKept seq
  | .update list => b.HeadKept list
  | .addRenoSack => NextNotLost b.sentList.tail
  | .resetLastSegmentSent => ∀ t ∈ b.sentList.getLast?,
    t.sacked = false ∧ t.lost = false ∧ t.retrans = false
  | _ => True

instance Sound.decidable (b : TcpTxBuffer) : (call : Call) → Decidable (b.Sound call)
  | .copyFromSequence _ numBytes seq =>
    inferInstanceAs (Decidable (seq + b.requested numBytes seq ≤ b.sentEnd →
      Agree (segmentLimit seq (b.requested numBytes seq) b.sentList) seq b.firstByteSeq b.sentList))
  | .discardUpTo _ seq => inferInstanceAs (Decidable (¬ seq ≤ b.firstByteSeq → b.AckKept seq))
  | .update list => inferInstanceAs (Decidable (b.HeadKept list))
  | .addRenoSack => inferInstanceAs (Decidable (NextNotLost b.sentList.tail))
  | .resetLastSegmentSent => inferInstanceAs (Decidable (∀ t ∈ b.sentList.getLast?,
      t.sacked = false ∧ t.lost = false ∧ t.retrans = false))
  | .add .. | .resetRenoSack | .markHeadAsLost | .setSentListLost _
  | .deleteRetransmittedFlagFromHead | .resetSentList | .isLost _ | .nextSeg .. =>
    inferInstanceAs (Decidable True)

theorem ScoreboardInv.call (h : ScoreboardInv b) {call : Call} (hsound : b.Sound call)
    {r : Result} (hcall : b.call call = some (r, b')) : ScoreboardInv b' := by
  cases call with
  | add p hp =>
    cases hcall
    exact h.add hp
  | copyFromSequence now numBytes seq =>
    obtain ⟨⟨item, b''⟩, hcopy, heq⟩ := Option.map_eq_some_iff.1 hcall
    cases heq
    exact h.copyFromSequence hsound hcopy
  | discardUpTo now seq =>
    obtain ⟨b'', hdiscard, heq⟩ := Option.map_eq_some_iff.1 hcall
    cases heq
    exact h.discardUpTo hsound hdiscard
  | update list =>
    obtain ⟨⟨n, b''⟩, hupdate, heq⟩ := Option.map_eq_some_iff.1 hcall
    cases heq
    exact h.update hsound hupdate
  | addRenoSack =>
    obtain ⟨b'', hadd, heq⟩ := Option.map_eq_some_iff.1 hcall
    cases heq
    exact h.addRenoSack hsound hadd
  | resetRenoSack =>
    cases hcall
    exact h.resetRenoSack
  | markHeadAsLost =>
    cases hcall
    exact h.markHeadAsLost
  | setSentListLost resetSack =>
    cases hcall
    exact h.setSentListLost resetSack
  | deleteRetransmittedFlagFromHead =>
    cases hcall
    exact h.deleteRetransmittedFlagFromHead
  | resetSentList =>
    cases hcall
    exact h.resetSentList
  | resetLastSegmentSent =>
    cases hcall
    exact h.resetLastSegmentSent hsound
  | isLost seq =>
    cases hcall
    exact h
  | nextSeg isRecovery rWnd =>
    cases hcall
    exact h

/-- The counts are right in every state of a run of sound calls. -/
theorem accounted_of_sound (seq : SequenceNumber32) (maxBuffer dupAckThresh segmentSize : UInt32)
    (calls : List Call)
    (h : Each step (fun b call => ∀ x ∈ b, Sound x call)
      (some (init seq maxBuffer dupAckThresh segmentSize)) calls) :
    Always step (fun b => ∀ x ∈ b, Accounted x)
      (some (init seq maxBuffer dupAckThresh segmentSize)) calls := by
  have hinit : ∀ x ∈ some (init seq maxBuffer dupAckThresh segmentSize), ScoreboardInv x := by
    rintro x ⟨⟩
    exact ScoreboardInv.init seq maxBuffer dupAckThresh segmentSize
  have hstep : ∀ (b : Option TcpTxBuffer) (call : Call), (∀ x ∈ b, ScoreboardInv x) →
      (∀ x ∈ b, Sound x call) → ∀ x ∈ step b call, ScoreboardInv x := by
    intro b call hinv hsound x hx
    obtain ⟨y, rfl, hy⟩ := Option.bind_eq_some_iff.1 hx
    obtain ⟨⟨r, x'⟩, hcall, rfl⟩ := Option.map_eq_some_iff.1 hy
    exact (hinv y rfl).call (hsound y rfl) hcall
  exact (h.always hstep hinit).mono fun b hinv x hx => (hinv x hx).accounted

/-- The second segment is sacked, the first one lost, sent again and acknowledged, and a probe
is sent for the third. -/
theorem accounted_recovery :
    Always step (fun b => ∀ x ∈ b, Accounted x) (some (init ⟨0⟩ 6 3 2))
      [.add [1, 2, 3, 4, 5] (by decide), .copyFromSequence 0 2 ⟨0⟩, .copyFromSequence 1 2 ⟨2⟩,
        .update [(⟨2⟩, ⟨4⟩)], .markHeadAsLost, .copyFromSequence 2 2 ⟨0⟩,
        .copyFromSequence 3 1 ⟨4⟩, .resetLastSegmentSent, .discardUpTo 4 ⟨4⟩] :=
  accounted_of_sound _ _ _ _ _ (by decide +kernel)

/-- After a timeout, a probe for sent data takes a lost item from the sent list, and its bytes
remain counted as lost. -/
theorem not_accounted :
    ¬ ∀ calls, Always step (fun b => ∀ x ∈ b, Accounted x) (some (init ⟨0⟩ 6 3 2)) calls := by
  intro h
  let calls : List Call := [.add [1, 2, 3, 4] (by decide), .copyFromSequence 0 2 ⟨0⟩,
    .copyFromSequence 1 2 ⟨2⟩, .setSentListLost true, .copyFromSequence 2 2 ⟨0⟩,
    .copyFromSequence 3 1 ⟨2⟩, .resetLastSegmentSent]
  have hcounts : (run step (some (init ⟨0⟩ 6 3 2)) calls).map
      (fun b => (b.lostOut.toNat, b.sentSize.toNat)) = some (4, 3) := by
    decide +kernel
  obtain ⟨b, hb, heq⟩ := Option.map_eq_some_iff.1 hcounts
  obtain ⟨hlost, hsent⟩ := Prod.mk.inj heq
  have hleft := ((h calls).last b hb).leftOut
  omega

end TcpTxBuffer

end Ns3Pedca
