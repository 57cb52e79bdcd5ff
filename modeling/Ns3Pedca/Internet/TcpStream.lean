import Ns3Pedca.Internet.TcpScoreboard

/-!
# The byte stream of the transmit buffer

A `ByteStream` is what the buffer is for : the bytes that were added, and how many of them
have been discarded from the front. The items of the buffer hold the rest, and each sent item
has the sequence number of its first byte (`Refines`). Every call that returns does to the
buffer what it does to the stream (`Refines.call`).

A copy of bytes that are in the buffer, or may be sent next, succeeds for all requests
(`Served`) if and only if all bytes have been sent, or none, or no sequence number of the
buffer is past the wrap (`served_iff`).
-/

set_option linter.unusedSectionVars false

namespace Ns3Pedca

open Runs

/-! ## Payloads -/

/-- The bytes of a list. -/
def payload (l : List TcpTxItem) : List UInt8 :=
  l.flatMap TcpTxItem.packet

/-- Each item begins where the one before it ends. -/
def Placed : SequenceNumber32 → List TcpTxItem → Prop
  | _, [] => True
  | start, t :: after => t.startSeq = start ∧ Placed (start + t.size) after

/-- A list that is edited holds the same bytes in the same places. -/
structure SameStream (start : SequenceNumber32) (l l' : List TcpTxItem) : Prop where
  payload : payload l' = payload l
  placed : Placed start l → Placed start l'
  nonempty : (∀ t ∈ l, t.packet ≠ []) → ∀ t ∈ l', t.packet ≠ []

section Payload

variable {l l' l1 l2 l'' : List TcpTxItem} {t next : TcpTxItem} {start seq e : SequenceNumber32}
  {numBytes k : UInt32} {node : ℕ} {r : UInt32}

@[simp] theorem payload_nil : payload [] = [] :=
  rfl

@[simp] theorem payload_cons : payload (t :: l) = t.packet ++ payload l :=
  List.flatMap_cons

@[simp] theorem payload_append : payload (l ++ l') = payload l ++ payload l' :=
  List.flatMap_append

theorem length_payload : ∀ l : List TcpTxItem, (payload l).length = allBytes l
  | [] => rfl
  | t :: l => by rw [payload_cons, List.length_append, length_payload l, allBytes_cons]

theorem payload_map {f : TcpTxItem → TcpTxItem} (hf : ∀ t, (f t).packet = t.packet) :
    payload (l.map f) = payload l := by
  rw [payload, payload, List.flatMap_map]
  exact List.flatMap_congr fun t _ => hf t

theorem placed_map {f : TcpTxItem → TcpTxItem} (hf : ∀ t, (f t).packet = t.packet)
    (hstart : ∀ t, (f t).startSeq = t.startSeq) (h : Placed start l) : Placed start (l.map f) := by
  induction l generalizing start with
  | nil => trivial
  | cons t l ih =>
    refine ⟨(hstart t).trans h.1, ?_⟩
    rw [TcpTxItem.size, hf]
    exact ih h.2

theorem placed_append : Placed start (l1 ++ l2) ↔
    Placed start l1 ∧ Placed (start + UInt32.ofNat (allBytes l1)) l2 := by
  induction l1 generalizing start with
  | nil =>
    change _ ↔ True ∧ Placed (start + (0 : UInt32)) l2
    rw [SequenceNumber32.add_zero, true_and, List.nil_append]
  | cons t l1 ih =>
    rw [List.cons_append, Placed, Placed, ih, and_assoc, allBytes_cons, UInt32.ofNat_add,
      t.ofNat_length, SequenceNumber32.add_assoc]

/-- A sent item begins at the first number, plus the sizes of the items before it. -/
theorem startSeq_of_placed (h : Placed start (l1 ++ t :: l2)) :
    t.startSeq = start + UInt32.ofNat (allBytes l1) :=
  (placed_append.1 h).2.1

theorem passes_end (h : Passes seq start l1 e) : e = start + UInt32.ofNat (allBytes l1) := by
  induction h with
  | nil => exact (SequenceNumber32.add_zero _).symm
  | @cons start e t l1 hpass h ih =>
    rw [ih, allBytes_cons, UInt32.ofNat_add, t.ofNat_length, SequenceNumber32.add_assoc]

theorem SameStream.refl (start : SequenceNumber32) (l : List TcpTxItem) : SameStream start l l :=
  ⟨rfl, id, id⟩

theorem SameStream.trans (h : SameStream start l l') (h' : SameStream start l' l'') :
    SameStream start l l'' :=
  ⟨h'.payload.trans h.payload, fun hl => h'.placed (h.placed hl),
    fun hl => h'.nonempty (h.nonempty hl)⟩

theorem SameStream.append (h : SameStream (start + UInt32.ofNat (allBytes l1)) l l') :
    SameStream start (l1 ++ l) (l1 ++ l') where
  payload := by rw [payload_append, payload_append, h.payload]
  placed hl := by
    rw [placed_append] at hl ⊢
    exact ⟨hl.1, h.placed hl.2⟩
  nonempty hl t ht := by
    rcases List.mem_append.1 ht with ht | ht
    · exact hl t (List.mem_append_left l ht)
    · exact h.nonempty (fun x hx => hl x (List.mem_append_right l1 hx)) t ht

theorem SameStream.split (hpos : k ≠ 0) (hk : k < t.size) :
    SameStream start (t :: l) (t.splitFirst node k :: t.splitSecond k :: l) where
  payload := by
    rw [payload_cons, payload_cons, payload_cons, ← List.append_assoc]
    congr 1
    exact List.take_append_drop ..
  placed h := by
    have hle := toNat_le_of_lt_size hk
    have hsum : start + k + (t.splitSecond k).size = start + t.size := by
      rw [t.size_splitSecond hle, SequenceNumber32.add_assoc]
      congr 1
      grind
    refine ⟨h.1, ?_, ?_⟩
    · rw [t.size_splitFirst node hle]
      exact congrArg (fun a : SequenceNumber32 => a + k) h.1
    · rw [t.size_splitFirst node hle, hsum]
      exact h.2
  nonempty h x hx := by
    have hlt := UInt32.lt_iff_toNat_lt.1 hk
    have hle := t.toNat_size_le
    have hpos' : k.toNat ≠ 0 := fun h => hpos (UInt32.toNat_inj.1 h)
    simp only [List.mem_cons] at hx
    rcases hx with rfl | rfl | hx
    · rw [← List.length_pos_iff, t.length_splitFirst node (by omega)]
      omega
    · rw [← List.length_pos_iff, t.length_splitSecond]
      omega
    · exact h x (List.mem_cons_of_mem t hx)

theorem SameStream.merge : SameStream start (t :: next :: l) (t.merge next :: l) where
  payload := by
    rw [payload_cons, payload_cons, payload_cons, ← List.append_assoc]
    rfl
  placed h := by
    refine ⟨h.1, ?_⟩
    rw [TcpTxItem.size_merge, ← SequenceNumber32.add_assoc]
    exact h.2.2
  nonempty h x hx := by
    rcases List.mem_cons.1 hx with rfl | hx
    · exact List.append_ne_nil_of_left_ne_nil (h t (by simp)) _
    · exact h x (by simp [hx])

theorem SearchStep.sameStream_edited {u : UInt32}
    (h : SearchStep numBytes seq node start l (.edited l' u)) : SameStream start l l' := by
  cases h with
  | merge hpass hin hend => exact SameStream.merge.append
  | @split l1 l2 t e hpass hin hlt =>
    refine SameStream.append (SameStream.split ?_ ?_)
    · intro hzero
      refine SequenceNumber32.ne_of_lt hlt ?_
      rw [← SequenceNumber32.add_sub_cancel e seq, hzero, SequenceNumber32.add_zero]
    · exact UInt32.lt_iff_toNat_lt.2 (SequenceNumber32.toNat_sub_lt hlt hin)

theorem SearchStep.sameStream_found {before after : List TcpTxItem}
    (h : SearchStep numBytes seq node start l (.found before t after)) (hpos : numBytes ≠ 0) :
    SameStream start l (before ++ t :: after) ∧
      seq = start + UInt32.ofNat (allBytes before) := by
  cases h with
  | found hpass hin hend => exact ⟨SameStream.refl _ _, passes_end hpass⟩
  | first hpass hin hle hlt => exact ⟨(SameStream.split hpos hlt).append, passes_end hpass⟩

/-- `GetPacketFromList` keeps the bytes of a list and their places, and finds what is at
`seq`. -/
theorem sameStream_getPacketFromList {found : Found} (hpos : numBytes ≠ 0)
    (hget : getPacketFromList numBytes seq node l start r = some found) :
    SameStream start l found.list ∧ seq = start + UInt32.ofNat (allBytes found.before) := by
  refine getPacketFromList_rec (R := fun l' _ => SameStream start l l')
    (S := fun before item after _ => SameStream start l (before ++ item :: after) ∧
      seq = start + UInt32.ofNat (allBytes before)) ?_ ?_ (SameStream.refl start l) hget
  · intro l' l'' r' u node hsame hstep
    exact hsame.trans hstep.sameStream_edited
  · intro l' r' node before item after hsame hstep
    obtain ⟨hfound, hseq⟩ := hstep.sameStream_found hpos
    exact ⟨hsame.trans hfound, hseq⟩

end Payload

/-! ## The stream -/

/-- The stream of bytes that a buffer is for. -/
structure ByteStream where
  capacity : ℕ
  head : SequenceNumber32
  added : List UInt8 := []
  discarded : ℕ := 0

namespace ByteStream

variable (s : ByteStream)

/-- The bytes that have not been discarded. -/
def bytes : List UInt8 :=
  s.added.drop s.discarded

/-- Bytes are added, if there is room for all of them. -/
def add (p : Packet) : ByteStream :=
  if p.length ≤ s.capacity - s.bytes.length then { s with added := s.added ++ p } else s

/-- The bytes before `seq` are discarded. -/
def discardUpTo (seq : SequenceNumber32) : ByteStream :=
  if seq ≤ s.head then s
  else
    { s with
      head := seq
      discarded := min s.added.length (s.discarded + (seq - s.head).toNat) }

/-- What a call does to the stream. -/
def step (s : ByteStream) : TcpTxBuffer.Call → ByteStream
  | .add p _ => s.add p
  | .discardUpTo _ seq => s.discardUpTo seq
  | _ => s

theorem bytes_discardUpTo {seq : SequenceNumber32} (h : ¬ seq ≤ s.head) :
    (s.discardUpTo seq).bytes = s.bytes.drop (seq - s.head).toNat := by
  rw [discardUpTo, if_neg h, bytes, bytes, List.drop_drop]
  rcases Nat.le_total s.added.length (s.discarded + (seq - s.head).toNat) with hle | hle
  · rw [min_eq_left hle, List.drop_length, List.drop_eq_nil_of_le hle]
  · rw [min_eq_right hle]

end ByteStream

namespace TcpTxBuffer

/-- All the bytes of the buffer. -/
def bytes (b : TcpTxBuffer) : List UInt8 :=
  payload (b.sentList ++ b.appList)

/-- The sizes are right, every sent item is in its place, and no item is empty. -/
structure StreamInv (b : TcpTxBuffer) : Prop where
  sentSize : b.sentSize = .ofNat (allBytes b.sentList)
  size : b.size = .ofNat (allBytes b.sentList + allBytes b.appList)
  bound : allBytes b.sentList + allBytes b.appList ≤ b.maxBuffer.toNat
  placed : Placed b.firstByteSeq b.sentList
  nonempty : ∀ t ∈ b.sentList ++ b.appList, t.packet ≠ []

/-- A call that leaves the stream as it is. -/
structure SameBuffer (b b' : TcpTxBuffer) : Prop where
  inv : StreamInv b'
  bytes : b'.bytes = b.bytes
  head : b'.firstByteSeq = b.firstByteSeq
  maxBuffer : b'.maxBuffer = b.maxBuffer

variable {b b' b'' : TcpTxBuffer} {t head item : TcpTxItem} {l l' after : List TcpTxItem}
  {now : ℕ} {numBytes offset s : UInt32} {seq start : SequenceNumber32} {r : Option TcpTxItem}

theorem SameBuffer.refl (h : StreamInv b) : SameBuffer b b :=
  ⟨h, rfl, rfl, rfl⟩

theorem SameBuffer.trans (h : SameBuffer b b') (h' : SameBuffer b' b'') : SameBuffer b b'' :=
  ⟨h'.inv, h'.bytes.trans h.bytes, h'.head.trans h.head, h'.maxBuffer.trans h.maxBuffer⟩

theorem StreamInv.length_bytes (h : StreamInv b) : b.size.toNat = b.bytes.length := by
  have hbound := lt_of_le_of_lt h.bound b.maxBuffer.toNat_lt
  rw [h.size, UInt32.toNat_ofNat_of_lt' hbound, bytes, length_payload, allBytes_append]

theorem StreamInv.toNat_sentSize (h : StreamInv b) : b.sentSize.toNat = allBytes b.sentList := by
  have hbound := lt_of_le_of_lt h.bound b.maxBuffer.toNat_lt
  rw [h.sentSize, UInt32.toNat_ofNat_of_lt' (lt_of_le_of_lt (Nat.le_add_right ..) hbound)]

/-- An item is not larger than the buffer. -/
theorem StreamInv.toNat_size (h : StreamInv b) (ht : t ∈ b.sentList ++ b.appList) :
    t.size.toNat = t.packet.length := by
  have hbound := lt_of_le_of_lt h.bound b.maxBuffer.toNat_lt
  obtain ⟨l1, l2, hl⟩ := List.append_of_mem ht
  have hsum := congrArg allBytes hl
  rw [allBytes_append, allBytes_append, allBytes_cons] at hsum
  refine UInt32.toNat_ofNat_of_lt' ?_
  change _ < 2 ^ 32
  omega

/-! ### Flags -/

/-- What the stream sees of an item. -/
def data (t : TcpTxItem) : SequenceNumber32 × Packet :=
  (t.startSeq, t.packet)

theorem payload_of_data (h : l'.map data = l.map data) : payload l' = payload l := by
  have hmap : ∀ l : List TcpTxItem, payload l = (l.map data).flatMap Prod.snd := by
    intro l
    rw [List.flatMap_map]
    rfl
  rw [hmap, hmap, h]

theorem allBytes_of_data (h : l'.map data = l.map data) : allBytes l' = allBytes l := by
  rw [← length_payload, ← length_payload, payload_of_data h]

theorem placed_of_data (h : l'.map data = l.map data) (hl : Placed start l) : Placed start l' := by
  induction l generalizing l' start with
  | nil =>
    rw [List.map_nil, List.map_eq_nil_iff] at h
    rw [h]
    trivial
  | cons t l ih =>
    cases l' with
    | nil => cases h
    | cons t' l' =>
      obtain ⟨ht, hrest⟩ := List.cons.inj h
      obtain ⟨hseq, hpacket⟩ := Prod.mk.inj ht
      refine ⟨hseq.trans hl.1, ?_⟩
      rw [TcpTxItem.size, hpacket]
      exact ih hrest hl.2

theorem nonempty_of_data (h : l'.map data = l.map data) (hl : ∀ t ∈ l, t.packet ≠ []) :
    ∀ t ∈ l', t.packet ≠ [] := by
  intro t ht
  have hmem : data t ∈ l.map data := h ▸ List.mem_map_of_mem ht
  obtain ⟨x, hx, heq⟩ := List.mem_map.1 hmem
  rw [← (Prod.mk.inj heq).2]
  exact hl x hx

/-- Only flags of sent items and counts change. -/
theorem StreamInv.sameBuffer (h : StreamInv b)
    (hdata : b'.sentList.map data = b.sentList.map data) (happ : b'.appList = b.appList)
    (hhead : b'.firstByteSeq = b.firstByteSeq) (hsentSize : b'.sentSize = b.sentSize)
    (hsize : b'.size = b.size) (hmax : b'.maxBuffer = b.maxBuffer) : SameBuffer b b' := by
  have hall := allBytes_of_data hdata
  have hlists : (b'.sentList ++ b'.appList).map data = (b.sentList ++ b.appList).map data := by
    rw [List.map_append, List.map_append, hdata, happ]
  refine ⟨⟨?_, ?_, ?_, ?_, nonempty_of_data hlists h.nonempty⟩, payload_of_data hlists, hhead,
    hmax⟩
  · rw [hsentSize, hall, h.sentSize]
  · rw [hsize, hall, happ, h.size]
  · rw [hall, happ, hmax]
    exact h.bound
  · rw [hhead]
    exact placed_of_data hdata h.placed

theorem map_data_map {f : TcpTxItem → TcpTxItem} (hf : ∀ t, data (f t) = data t) :
    (l.map f).map data = l.map data := by
  rw [List.map_map]
  exact List.map_congr_left fun t _ => hf t

theorem map_data_of_forall₂ {R : TcpTxItem → TcpTxItem → Prop} (h : List.Forall₂ R l l')
    (hR : ∀ t t', R t t' → data t' = data t) : l'.map data = l.map data := by
  induction h with
  | nil => rfl
  | cons ht h ih => rw [List.map_cons, List.map_cons, hR _ _ ht, ih]

theorem StreamInv.addRenoSack (h : StreamInv b) (hadd : b.addRenoSack = some b') :
    SameBuffer b b' := by
  unfold TcpTxBuffer.addRenoSack at hadd
  split at hadd
  · cases hadd
  next head after hl =>
    split at hadd
    next after' t hsack =>
      cases hadd
      obtain ⟨-, -, l1, l2, rfl, rfl⟩ := sackFirst_some hsack
      refine h.sameBuffer ?_ rfl rfl rfl rfl rfl
      rw [hl]
      simp [data]
    next =>
      cases hadd
      exact .refl h

theorem StreamInv.markHeadAsLost (h : StreamInv b) : SameBuffer b b.markHeadAsLost := by
  unfold TcpTxBuffer.markHeadAsLost
  split
  · exact .refl h
  next head after hl =>
    refine h.sameBuffer ?_ rfl rfl rfl rfl rfl
    rw [hl]
    rfl

theorem StreamInv.deleteRetransmittedFlagFromHead (h : StreamInv b) :
    SameBuffer b b.deleteRetransmittedFlagFromHead := by
  unfold TcpTxBuffer.deleteRetransmittedFlagFromHead
  split
  · exact .refl h
  next =>
    split
    · exact .refl h
    next head after hl =>
      split
      next =>
        refine h.sameBuffer ?_ rfl rfl rfl rfl rfl
        rw [hl]
        rfl
      · exact .refl h

theorem StreamInv.resetRenoSack (h : StreamInv b) : SameBuffer b b.resetRenoSack := by
  refine h.sameBuffer (map_data_map ?_) rfl rfl rfl rfl rfl
  exact fun _ => rfl

theorem StreamInv.setSentListLost (h : StreamInv b) (resetSack : Bool) :
    SameBuffer b (b.setSentListLost resetSack) := by
  unfold TcpTxBuffer.setSentListLost
  split
  · refine h.sameBuffer (map_data_map ?_) rfl rfl rfl rfl rfl
    exact fun _ => rfl
  · refine h.sameBuffer (map_data_map ?_) rfl rfl rfl rfl rfl
    exact fun _ => rfl

theorem StreamInv.update (h : StreamInv b)
    {list : List (SequenceNumber32 × SequenceNumber32)} {n : UInt32}
    (hupdate : b.update list = some (n, b')) : SameBuffer b b' := by
  unfold TcpTxBuffer.update at hupdate
  obtain ⟨hsacks, -⟩ := updateBlocks_spec (b := b) list b.sentList
    ⟨b.lostOut, b.sackedOut, 0, b.sackSeen, b.highestSack⟩ fun _ hx => hx
  generalize b.updateBlocks list b.sentList _ = r at hupdate hsacks
  have hmarks : SameBuffer b (b.withMarks r.1.1 r.1.2) := by
    refine h.sameBuffer (map_data_of_forall₂ hsacks.forall₂ ?_) rfl rfl rfl rfl rfl
    rintro t t' (rfl | rfl) <;> rfl
  simp only at hupdate
  split at hupdate
  next =>
    obtain ⟨b'', hcount, heq⟩ := Option.map_eq_some_iff.1 hupdate
    cases heq
    refine hmarks.trans ?_
    unfold updateLostCount at hcount
    split at hcount
    next head after first hl hfirst =>
      obtain ⟨⟨after', sacked, lostOut⟩, hloop, heq⟩ := Option.map_eq_some_iff.1 hcount
      have hafter : after'.map data = after.map data := by
        split at hloop
        · cases hloop
          rfl
        · refine map_data_of_forall₂ (updateLostItems_spec hloop).1 ?_
          rintro t t' (rfl | ⟨-, rfl⟩) <;> rfl
      change (if _ then _ else _) = _ at heq
      split at heq
      · rw [← heq]
        refine hmarks.inv.sameBuffer ?_ rfl rfl rfl rfl rfl
        rw [hl, List.map_cons, List.map_cons, hafter]
        rfl
      · rw [← heq]
        refine hmarks.inv.sameBuffer ?_ rfl rfl rfl rfl rfl
        rw [hl, List.map_cons, List.map_cons, hafter]
    next => cases hcount
  next =>
    cases hupdate
    exact hmarks

/-! ### Items that move -/

theorem StreamInv.resetSentList (h : StreamInv b) : SameBuffer b b.resetSentList := by
  have hpayload : payload b.resetSentList.appList = payload (b.sentList ++ b.appList) := by
    unfold TcpTxBuffer.resetSentList
    rw [payload_append, payload_append, payload_map]
    exact fun _ => rfl
  have hall : allBytes b.resetSentList.appList = allBytes b.sentList + allBytes b.appList := by
    rw [← length_payload, hpayload, length_payload, allBytes_append]
  refine ⟨⟨rfl, ?_, ?_, trivial, ?_⟩, hpayload, rfl, rfl⟩
  · rw [hall]
    refine h.size.trans (congrArg _ ?_)
    exact (Nat.zero_add _).symm
  · rw [hall]
    refine le_trans (le_of_eq ?_) h.bound
    exact Nat.zero_add _
  · intro t ht
    change t ∈ b.sentList.map _ ++ b.appList at ht
    rcases List.mem_append.1 ht with ht | ht
    · obtain ⟨x, hx, rfl⟩ := List.mem_map.1 ht
      exact h.nonempty x (List.mem_append_left _ hx)
    · exact h.nonempty t (List.mem_append_right _ ht)

theorem StreamInv.resetLastSegmentSent (h : StreamInv b) :
    SameBuffer b b.resetLastSegmentSent := by
  unfold TcpTxBuffer.resetLastSegmentSent
  split
  next item hitem =>
    have hlist := List.dropLast_append_getLast? item hitem
    have hall : allBytes b.sentList = allBytes b.sentList.dropLast + item.packet.length := by
      conv_lhs => rw [← hlist]
      simp
    have hplaced := h.placed
    rw [← hlist, placed_append] at hplaced
    refine ⟨⟨?_, ?_, ?_, hplaced.1, ?_⟩, ?_, rfl, rfl⟩
    · exact sub_size (by rw [h.sentSize, hall, Nat.add_comm])
    · rw [allBytes_cons, ← Nat.add_assoc, ← hall]
      exact h.size
    · rw [allBytes_cons, ← Nat.add_assoc, ← hall]
      exact h.bound
    · intro t ht
      refine h.nonempty t ?_
      rw [← hlist]
      simpa using ht
    · change payload (b.sentList.dropLast ++ item :: b.appList) = payload (b.sentList ++ b.appList)
      conv_rhs => rw [← hlist]
      simp
  · exact .refl h

theorem size_ne_zero (ht : t.packet ≠ []) (hsize : t.packet.length < 2 ^ 32) : t.size ≠ 0 := by
  intro hzero
  have htoNat := UInt32.toNat_ofNat_of_lt' (n := t.packet.length) hsize
  have hpos := List.length_pos_iff.2 ht
  rw [t.ofNat_length, hzero, UInt32.toNat_zero] at htoNat
  omega

/-- The bound that `GetTransmittedSegment` puts on the size leaves some of it. -/
theorem segmentLimit_spec (seq : SequenceNumber32) (hs : s ≠ 0) (hl : ∀ t ∈ l, t.packet ≠ [])
    (hbound : allBytes l < 2 ^ 32) : segmentLimit seq s l ≠ 0 ∧ segmentLimit seq s l ≤ s := by
  have hmin : ∀ n : UInt32, n ≠ 0 → min s n ≠ 0 ∧ min s n ≤ s := by
    intro n hn
    refine ⟨?_, UInt32.le_iff_toNat_le.2 (by rw [uint32_toNat_min]; exact min_le_left ..)⟩
    change (if s ≤ n then s else n) ≠ 0
    split
    · exact hs
    · exact hn
  induction l with
  | nil => exact ⟨hs, UInt32.le_refl s⟩
  | cons t l ih =>
    rw [allBytes_cons] at hbound
    have ht : t.size ≠ 0 := size_ne_zero (hl t (List.mem_cons_self ..)) (by omega)
    unfold segmentLimit
    split
    next =>
      split
      next next rest =>
        split
        next =>
          refine hmin _ ?_
          have hjoin : (t.merge next).packet.length = t.packet.length + next.packet.length :=
            List.length_append
          rw [allBytes_cons] at hbound
          rw [← TcpTxItem.size_merge]
          refine size_ne_zero ?_ (by omega)
          exact List.append_ne_nil_of_left_ne_nil (hl t (List.mem_cons_self ..)) _
        next => exact hmin _ ht
      next => exact hmin _ ht
    next => exact ih (fun x hx => hl x (List.mem_cons_of_mem t hx)) (by omega)

theorem eq_nil_of_allBytes (hl : ∀ t ∈ l, t.packet ≠ []) (hzero : allBytes l = 0) : l = [] := by
  cases l with
  | nil => rfl
  | cons t l =>
    have hpos := List.length_pos_iff.2 (hl t (List.mem_cons_self ..))
    rw [allBytes_cons] at hzero
    omega

theorem StreamInv.getNewSegment (h : StreamInv b) (hs : s ≠ 0)
    (hget : b.getNewSegment now s = some (item, b')) : SameBuffer b b' := by
  obtain ⟨found, hfound, rfl, rfl⟩ := getNewSegment_found hget
  obtain ⟨hsame, hseq⟩ := sameStream_getPacketFromList hs hfound
  have hnonempty := hsame.nonempty fun t ht => h.nonempty t (List.mem_append_right _ ht)
  have hbound := lt_of_le_of_lt h.bound b.maxBuffer.toNat_lt
  have hall : allBytes found.list = allBytes b.appList := by
    rw [← length_payload, hsame.payload, length_payload]
  have hsum : allBytes found.before + (found.item.packet.length + allBytes found.after) =
      allBytes b.appList := by
    rw [← hall, Found.list, allBytes_append, allBytes_cons]
  -- the item is the first one of the application list
  have hbefore : found.before = [] := by
    refine eq_nil_of_allBytes (fun t ht => hnonempty t (List.mem_append_left _ ht)) ?_
    have hzero : UInt32.ofNat (allBytes found.before) = 0 := by
      have hstart : b.sentEnd + (0 : UInt32) =
          b.sentEnd + UInt32.ofNat (allBytes found.before) := by
        rwa [SequenceNumber32.add_zero]
      exact ((SequenceNumber32.add_right_inj _).1 hstart).symm
    have htoNat := UInt32.toNat_ofNat_of_lt' (n := allBytes found.before)
      (lt_of_le_of_lt (by omega) hbound)
    rw [hzero, UInt32.toNat_zero] at htoNat
    exact htoNat.symm
  have hpayload := hsame.payload
  rw [Found.list, hbefore, List.nil_append, payload_cons] at hpayload
  rw [hbefore, allBytes_nil, Nat.zero_add] at hsum
  refine ⟨⟨?_, ?_, ?_, ?_, ?_⟩, ?_, rfl, rfl⟩
  · simp only [allBytes_append, allBytes_cons, allBytes_nil, Nat.add_zero]
    rw [Nat.add_comm]
    exact add_size h.sentSize
  · simp only [allBytes_append, allBytes_cons, allBytes_nil, Nat.add_zero, hbefore]
    rw [h.size, ← hsum]
    congr 1
    omega
  · have hmax := h.bound
    simp only [allBytes_append, allBytes_cons, allBytes_nil, Nat.add_zero, hbefore]
    omega
  · refine placed_append.2 ⟨h.placed, ?_, trivial⟩
    change b.firstByteSeq + b.sentSize = _
    rw [h.sentSize]
  · intro t ht
    simp only [List.mem_append, List.mem_singleton, hbefore] at ht
    rcases ht with (ht | rfl) | (ht | ht)
    · exact h.nonempty t (List.mem_append_left _ ht)
    · exact hnonempty found.item (by simp [Found.list])
    · cases ht
    · exact hnonempty t (by simp [Found.list, ht])
  · simp only [bytes, payload_append, payload_cons, payload_nil, List.append_nil, hbefore,
      List.nil_append, List.append_assoc]
    rw [← hpayload]

theorem StreamInv.getTransmittedSegment (h : StreamInv b) (hs : s ≠ 0)
    (hget : b.getTransmittedSegment now s seq = some (item, b')) : SameBuffer b b' := by
  obtain ⟨found, hfound, rfl, rfl⟩ := getTransmittedSegment_found hget
  have hbound := lt_of_le_of_lt h.bound b.maxBuffer.toNat_lt
  have hlimit := (segmentLimit_spec seq hs
    (fun t ht => h.nonempty t (List.mem_append_left _ ht))
    (lt_of_le_of_lt (Nat.le_add_right ..) hbound)).1
  obtain ⟨hsame, hseq⟩ := sameStream_getPacketFromList hlimit hfound
  have hall : allBytes found.list = allBytes b.sentList := by
    rw [← length_payload, hsame.payload, length_payload]
  have hnonempty := hsame.nonempty fun t ht => h.nonempty t (List.mem_append_left _ ht)
  have hfoundInv : StreamInv { b with sentList := found.list } := by
    refine ⟨?_, ?_, ?_, hsame.placed h.placed, ?_⟩
    · exact h.sentSize.trans (congrArg _ hall.symm)
    · refine h.size.trans (congrArg (fun n => UInt32.ofNat (n + allBytes b.appList)) hall.symm)
    · change allBytes found.list + allBytes b.appList ≤ b.maxBuffer.toNat
      rw [hall]
      exact h.bound
    · intro t ht
      rcases List.mem_append.1 ht with ht | ht
      · exact hnonempty t ht
      · exact h.nonempty t (List.mem_append_right _ ht)
  have hfoundSame : SameBuffer b { b with sentList := found.list } := by
    refine ⟨hfoundInv, ?_, rfl, rfl⟩
    change payload (found.list ++ b.appList) = payload (b.sentList ++ b.appList)
    rw [payload_append, payload_append, hsame.payload]
  refine hfoundSame.trans (hfoundInv.sameBuffer ?_ rfl rfl rfl rfl rfl)
  simp [Found.list, data]

theorem StreamInv.copyFromSequence (h : StreamInv b)
    (hcopy : b.copyFromSequence now numBytes seq = some (r, b')) : SameBuffer b b' := by
  cases copyFromSequence_step hcopy with
  | null => exact .refl h
  | transmitted hne hend hget => exact h.getTransmittedSegment hne hget
  | new hne hend hget => exact h.getNewSegment hne hget

/-! ### Acknowledgments -/

theorem StreamInv.discardHead (h : StreamInv b) (hl : b.sentList = head :: after) :
    StreamInv (b.discardHead head after) ∧
      (b.discardHead head after).bytes = b.bytes.drop head.packet.length := by
  have hplaced := h.placed
  have hbound := h.bound
  have hsize := h.size
  rw [hl] at hplaced
  rw [hl, allBytes_cons] at hbound
  rw [hl, allBytes_cons, Nat.add_assoc] at hsize
  refine ⟨⟨?_, sub_size hsize, ?_, hplaced.2, ?_⟩, ?_⟩
  · exact sub_size (by rw [h.sentSize, hl, allBytes_cons]; rfl)
  · change allBytes after + allBytes b.appList ≤ b.maxBuffer.toNat
    omega
  · intro t ht
    refine h.nonempty t ?_
    rw [hl]
    exact List.mem_cons_of_mem head ht
  · change payload (after ++ b.appList) = (payload (b.sentList ++ b.appList)).drop _
    rw [hl, List.cons_append, payload_cons, List.drop_left]

theorem StreamInv.discardStart (h : StreamInv b) (hl : b.sentList = head :: after)
    (hoffset : offset < head.size) :
    StreamInv (b.discardStart head after offset) ∧
      (b.discardStart head after offset).bytes = b.bytes.drop offset.toNat := by
  have hlt := UInt32.lt_iff_toNat_lt.1 hoffset
  have hle := toNat_le_of_lt_size hoffset
  have hlen := head.length_splitSecond (k := offset)
  have hshorten : ∀ {x : UInt32} {n : ℕ}, x = .ofNat (head.packet.length + n) →
      x - offset = .ofNat (head.packet.length - offset.toNat + n) :=
    fun hx => count_shorten true hle hx
  have hplaced := h.placed
  have hbound := h.bound
  have hsize := h.size
  rw [hl] at hplaced
  rw [hl, allBytes_cons] at hbound
  rw [hl, allBytes_cons, Nat.add_assoc] at hsize
  refine ⟨⟨?_, ?_, ?_, ⟨?_, ?_⟩, ?_⟩, ?_⟩
  · change _ = UInt32.ofNat (allBytes (head.splitSecond offset :: after))
    rw [allBytes_cons, hlen]
    exact hshorten (by rw [h.sentSize, hl, allBytes_cons])
  · change _ = UInt32.ofNat (allBytes (head.splitSecond offset :: after) + allBytes b.appList)
    rw [allBytes_cons, hlen, Nat.add_assoc]
    exact hshorten hsize
  · change allBytes (head.splitSecond offset :: after) + allBytes b.appList ≤ b.maxBuffer.toNat
    rw [allBytes_cons, hlen]
    omega
  · exact congrArg (fun a : SequenceNumber32 => a + offset) hplaced.1
  · change Placed (b.firstByteSeq + offset + (head.splitSecond offset).size) after
    rw [head.size_splitSecond hle, SequenceNumber32.add_assoc]
    have hsum : offset + (head.size - offset) = head.size := by grind
    rw [hsum]
    exact hplaced.2
  · intro t ht
    rcases List.mem_cons.1 ht with rfl | ht
    · have hpos := head.toNat_size_le
      rw [← List.length_pos_iff, hlen]
      omega
    · refine h.nonempty t ?_
      rw [hl]
      exact List.mem_cons_of_mem head ht
  · change payload (head.splitSecond offset :: after ++ b.appList) =
      (payload (b.sentList ++ b.appList)).drop _
    rw [hl, List.cons_append, List.cons_append, payload_cons, payload_cons,
      List.drop_append_of_le_length hle]
    rfl

theorem StreamInv.refill (h : StreamInv b) (hrefill : b.refill now offset = some b') :
    SameBuffer b b' := by
  unfold TcpTxBuffer.refill at hrefill
  split at hrefill
  next =>
    split at hrefill
    next item b'' hcopy =>
      cases hrefill
      exact h.copyFromSequence hcopy
    next => cases hrefill
  next =>
    cases hrefill
    exact .refl h

/-- The loop of `DiscardUpTo` discards `offset` bytes, or all there are. -/
theorem StreamInv.discard :
    ∀ {fuel : ℕ} {offset : UInt32} {b b' : TcpTxBuffer}, StreamInv b →
      discard now fuel offset b = some b' →
      StreamInv b' ∧ b'.bytes = b.bytes.drop offset.toNat ∧ b'.maxBuffer = b.maxBuffer ∧
        (b'.size = 0 ∨ b'.firstByteSeq = b.firstByteSeq + offset)
  | 0, _, _, _, _, hdiscard => by cases hdiscard
  | fuel + 1, offset, b, b', h, hdiscard => by
    unfold TcpTxBuffer.discard at hdiscard
    split at hdiscard
    next hpos =>
      split at hdiscard
      next => cases hdiscard
      next b₁ hrefill =>
        obtain ⟨h₁, hbytes, hfirst, hmax⟩ := h.refill hrefill
        split at hdiscard
        next => cases hdiscard
        next head after hl =>
          split at hdiscard
          next hle =>
            obtain ⟨h₂, hdrop⟩ := h₁.discardHead hl
            obtain ⟨h', hbytes', hmax', hfirst'⟩ := StreamInv.discard h₂ hdiscard
            have hsize : head.size.toNat = head.packet.length := h₁.toNat_size (by simp [hl])
            refine ⟨h', ?_, hmax'.trans hmax, hfirst'.imp_right fun heq => ?_⟩
            · have hle' := UInt32.le_iff_toNat_le.1 hle
              rw [hbytes', hdrop, hbytes, List.drop_drop, UInt32.toNat_sub_of_le _ _ hle, hsize]
              congr 1
              omega
            · rw [heq, ← hfirst]
              change b₁.firstByteSeq + head.size + (offset - head.size) = _
              rw [SequenceNumber32.add_assoc]
              congr 1
              grind
          next hgt =>
            cases hdiscard
            obtain ⟨h₂, hdrop⟩ := h₁.discardStart hl (UInt32.not_le.1 hgt)
            refine ⟨h₂, by rw [hdrop, hbytes], hmax, .inr ?_⟩
            rw [← hfirst]
            rfl
    next hstop =>
      cases hdiscard
      by_cases hsize : b.size = 0
      · have hnil : b.bytes = [] := by
          rw [← List.length_eq_zero_iff, ← h.length_bytes, hsize]
          rfl
        exact ⟨h, by rw [hnil, List.drop_nil], rfl, .inl hsize⟩
      · have hzero : offset = 0 := by
          by_contra hne
          exact hstop ⟨UInt32.pos_iff_ne_zero.2 hsize, UInt32.pos_iff_ne_zero.2 hne⟩
        rw [hzero]
        exact ⟨h, rfl, rfl, .inr (SequenceNumber32.add_zero _).symm⟩

theorem StreamInv.moveHeadSack (h : StreamInv b) (hmove : b.moveHeadSack = some b') :
    SameBuffer b b' := by
  unfold TcpTxBuffer.moveHeadSack at hmove
  split at hmove
  · cases hmove
    exact .refl h
  next head after hl =>
    split at hmove
    next =>
      obtain ⟨b₁, hadd, rfl⟩ := Option.map_eq_some_iff.1 hmove
      have hclear : SameBuffer b { b with
          sentList := { head with sacked := false } :: after
          sackedOut := b.sackedOut - head.size } := by
        refine h.sameBuffer ?_ rfl rfl rfl rfl rfl
        rw [hl]
        rfl
      have hadded := hclear.trans (hclear.inv.addRenoSack hadd)
      exact hadded.trans hadded.inv.markHeadAsLost
    next =>
      cases hmove
      exact .refl h

/-- The head sequence number after the loop of `DiscardUpTo`. -/
theorem StreamInv.discard_first (h : StreamInv b)
    (hloop : TcpTxBuffer.discard now (b.size.toNat + 1) (seq - b.firstByteSeq) b = some b') :
    ∃ b'', (if b'.size = 0 then { b' with firstByteSeq := seq } else b') = b'' ∧ StreamInv b'' ∧
      b''.bytes = b.bytes.drop (seq - b.firstByteSeq).toNat ∧ b''.maxBuffer = b.maxBuffer ∧
      b''.firstByteSeq = seq := by
  obtain ⟨h', hbytes, hmax, hfirst⟩ := h.discard hloop
  by_cases hsize : b'.size = 0
  · have hnil : b'.bytes = [] := by
      rw [← List.length_eq_zero_iff, ← h'.length_bytes, hsize]
      rfl
    have hsent : b'.sentList = [] := by
      refine eq_nil_of_allBytes (fun t ht => h'.nonempty t (List.mem_append_left _ ht)) ?_
      have hlen := congrArg List.length hnil
      rw [TcpTxBuffer.bytes, length_payload, allBytes_append, List.length_nil] at hlen
      omega
    refine ⟨_, if_pos hsize, ⟨h'.sentSize, h'.size, h'.bound, ?_, h'.nonempty⟩, hbytes, hmax, rfl⟩
    change Placed seq b'.sentList
    rw [hsent]
    trivial
  · refine ⟨_, if_neg hsize, h', hbytes, hmax, ?_⟩
    rw [hfirst.resolve_left hsize, SequenceNumber32.add_sub_cancel]

/-- `DiscardUpTo` discards the bytes before `seq`. -/
theorem StreamInv.discardUpTo (h : StreamInv b) (hnew : ¬ seq ≤ b.firstByteSeq)
    (hdiscard : b.discardUpTo now seq = some b') :
    StreamInv b' ∧ b'.bytes = b.bytes.drop (seq - b.firstByteSeq).toNat ∧
      b'.maxBuffer = b.maxBuffer ∧ b'.firstByteSeq = seq := by
  unfold TcpTxBuffer.discardUpTo at hdiscard
  rw [if_neg hnew] at hdiscard
  split at hdiscard
  · cases hdiscard
  next b₁ hloop =>
    obtain ⟨b₂, hmove, heq⟩ := Option.map_eq_some_iff.1 hdiscard
    obtain ⟨b₃, hb₃, h₃, hbytes, hmax, hfirst⟩ := h.discard_first hloop
    rw [hb₃] at hmove
    have hmoved := h₃.moveHeadSack hmove
    have hreset : SameBuffer b₂ b' := by
      rw [← heq]
      split
      · exact hmoved.inv.sameBuffer rfl rfl rfl rfl rfl rfl
      · exact .refl hmoved.inv
    have hall := hmoved.trans hreset
    exact ⟨hall.inv, by rw [hall.bytes, hbytes], by rw [hall.maxBuffer, hmax],
      by rw [hall.head, hfirst]⟩

/-! ## Refinement -/

/-- The buffer holds a stream. -/
structure Refines (b : TcpTxBuffer) (s : ByteStream) : Prop where
  inv : StreamInv b
  bytes : b.bytes = s.bytes
  head : b.firstByteSeq = s.head
  capacity : b.maxBuffer.toNat = s.capacity
  discarded : s.discarded ≤ s.added.length

variable {stream : ByteStream}

theorem Refines.of_same (h : Refines b stream) (hsame : SameBuffer b b') : Refines b' stream :=
  ⟨hsame.inv, hsame.bytes.trans h.bytes, hsame.head.trans h.head,
    (congrArg UInt32.toNat hsame.maxBuffer).trans h.capacity, h.discarded⟩

theorem Refines.add (h : Refines b stream) {p : Packet} (hp : p.length < 2 ^ 32) :
    Refines (b.add p).2 (stream.add p) := by
  have hlength := h.inv.length_bytes
  have hle : b.size.toNat ≤ b.maxBuffer.toNat := by
    rw [hlength, TcpTxBuffer.bytes, length_payload, allBytes_append]
    exact h.inv.bound
  have hroom : UInt32.ofNat p.length ≤ b.available ↔
      p.length ≤ stream.capacity - stream.bytes.length := by
    rw [UInt32.le_iff_toNat_le, available, UInt32.toNat_ofNat_of_lt' hp,
      UInt32.toNat_sub_of_le _ _ (UInt32.le_iff_toNat_le.2 hle), hlength, h.bytes, h.capacity]
  unfold TcpTxBuffer.add ByteStream.add
  by_cases hfits : p.length ≤ stream.capacity - stream.bytes.length
  · rw [if_pos (hroom.2 hfits), if_pos hfits]
    have hstream : ({ stream with added := stream.added ++ p } : ByteStream).bytes =
        stream.bytes ++ p :=
      List.drop_append_of_le_length h.discarded
    have hdiscarded : stream.discarded ≤ (stream.added ++ p).length :=
      h.discarded.trans (by rw [List.length_append]; exact Nat.le_add_right ..)
    split
    next hpos =>
      have hne : p ≠ [] := by
        rintro rfl
        exact absurd hpos (by decide)
      have hall : allBytes (b.appList ++ [{ node := b.nextNode, packet := p }]) =
          allBytes b.appList + p.length := by
        rw [allBytes_append, allBytes_cons, allBytes_nil, Nat.add_zero]
      refine ⟨⟨h.inv.sentSize, ?_, ?_, h.inv.placed, ?_⟩, ?_, h.head, h.capacity, hdiscarded⟩
      · change b.size + .ofNat p.length = _
        rw [hall, h.inv.size, ← Nat.add_assoc, UInt32.ofNat_add (_ + _)]
      · change allBytes b.sentList + allBytes (b.appList ++ _) ≤ b.maxBuffer.toNat
        have hbound := hlength
        rw [TcpTxBuffer.bytes, length_payload, allBytes_append] at hbound
        rw [← h.bytes, ← hlength, ← h.capacity] at hfits
        rw [hall]
        omega
      · intro t ht
        simp only [List.mem_append, List.mem_singleton] at ht
        rcases ht with ht | ht | rfl
        · exact h.inv.nonempty t (List.mem_append_left _ ht)
        · exact h.inv.nonempty t (List.mem_append_right _ ht)
        · exact hne
      · rw [hstream, ← h.bytes]
        simp [TcpTxBuffer.bytes]
    next hzero =>
      have hnil : p = [] := by
        rw [← List.length_eq_zero_iff]
        by_contra hne
        refine hzero (UInt32.pos_iff_ne_zero.2 fun heq => hne ?_)
        have htoNat := UInt32.toNat_ofNat_of_lt' (n := p.length) hp
        rw [heq, UInt32.toNat_zero] at htoNat
        exact htoNat.symm
      refine ⟨h.inv, ?_, h.head, h.capacity, hdiscarded⟩
      rw [hstream, hnil, List.append_nil, h.bytes]
  · rw [if_neg fun hle => hfits (hroom.1 hle), if_neg hfits]
    exact h

theorem Refines.discardUpTo (h : Refines b stream) (hdiscard : b.discardUpTo now seq = some b') :
    Refines b' (stream.discardUpTo seq) := by
  by_cases hnew : seq ≤ b.firstByteSeq
  · unfold TcpTxBuffer.discardUpTo at hdiscard
    rw [if_pos hnew] at hdiscard
    cases hdiscard
    unfold ByteStream.discardUpTo
    rwa [if_pos (h.head ▸ hnew)]
  · obtain ⟨hinv, hbytes, hmax, hfirst⟩ := h.inv.discardUpTo hnew hdiscard
    have hnew' : ¬ seq ≤ stream.head := h.head ▸ hnew
    refine ⟨hinv, ?_, ?_, ?_, ?_⟩
    · rw [hbytes, stream.bytes_discardUpTo hnew', h.bytes, h.head]
    · rw [hfirst, ByteStream.discardUpTo, if_neg hnew']
    · rw [hmax, h.capacity, ByteStream.discardUpTo, if_neg hnew']
    · rw [ByteStream.discardUpTo, if_neg hnew']
      exact min_le_left ..

/-- Every call does to the buffer what it does to the stream. -/
theorem Refines.call (h : Refines b stream) {call : Call} {r : Result}
    (hcall : b.call call = some (r, b')) : Refines b' (stream.step call) := by
  cases call with
  | add p hp =>
    cases hcall
    exact h.add hp
  | copyFromSequence now numBytes seq =>
    obtain ⟨⟨item, b''⟩, hcopy, heq⟩ := Option.map_eq_some_iff.1 hcall
    cases heq
    exact h.of_same (h.inv.copyFromSequence hcopy)
  | discardUpTo now seq =>
    obtain ⟨b'', hdiscard, heq⟩ := Option.map_eq_some_iff.1 hcall
    cases heq
    exact h.discardUpTo hdiscard
  | update list =>
    obtain ⟨⟨n, b''⟩, hupdate, heq⟩ := Option.map_eq_some_iff.1 hcall
    cases heq
    exact h.of_same (h.inv.update hupdate)
  | addRenoSack =>
    obtain ⟨b'', hadd, heq⟩ := Option.map_eq_some_iff.1 hcall
    cases heq
    exact h.of_same (h.inv.addRenoSack hadd)
  | resetRenoSack =>
    cases hcall
    exact h.of_same h.inv.resetRenoSack
  | markHeadAsLost =>
    cases hcall
    exact h.of_same h.inv.markHeadAsLost
  | setSentListLost resetSack =>
    cases hcall
    exact h.of_same (h.inv.setSentListLost resetSack)
  | deleteRetransmittedFlagFromHead =>
    cases hcall
    exact h.of_same h.inv.deleteRetransmittedFlagFromHead
  | resetSentList =>
    cases hcall
    exact h.of_same h.inv.resetSentList
  | resetLastSegmentSent =>
    cases hcall
    exact h.of_same h.inv.resetLastSegmentSent
  | isLost seq =>
    cases hcall
    exact h
  | nextSeg isRecovery rWnd =>
    cases hcall
    exact h

/-! ## Copies that succeed -/

section Served

variable {l1 l2 : List TcpTxItem} {e : SequenceNumber32} {node fuel : ℕ} {d retrans : UInt32}

/-- A loop that passes items goes on behind them. -/
theorem search_append (h : Passes seq start l1 e) :
    search numBytes seq node start (l1 ++ l) =
      l1.foldr Search.cons (search numBytes seq node e l) := by
  induction h with
  | nil => rfl
  | cons hpass h ih => rw [List.cons_append, search, if_neg hpass, ih, List.foldr_cons]

theorem foldr_found (l1 before after : List TcpTxItem) :
    l1.foldr Search.cons (.found before item after) = .found (l1 ++ before) item after := by
  induction l1 with
  | nil => rfl
  | cons t l1 ih => rw [List.foldr_cons, ih, Search.cons, List.cons_append]

theorem foldr_edited (l1 items : List TcpTxItem) (u : UInt32) :
    l1.foldr Search.cons (.edited items u) = .edited (l1 ++ items) u := by
  induction l1 with
  | nil => rfl
  | cons t l1 ih => rw [List.foldr_cons, ih, Search.cons, List.cons_append]

/-- Places less than half of the number space behind the first one are in order. -/
theorem add_lt_add_iff_toNat (seq : SequenceNumber32) {m n : UInt32} (hm : m.toNat < 2 ^ 31)
    (hn : n.toNat < 2 ^ 31) :
    seq + m < seq + n ↔ m < n := by
  have hoffset : ∀ k : UInt32, SequenceNumber32.offset seq (seq + k) = k.toNat := by
    intro k
    rw [SequenceNumber32.offset, SequenceNumber32.add_sub_self]
  rw [SequenceNumber32.lt_iff (w := seq) (by rwa [hoffset]) (by rwa [hoffset]), hoffset, hoffset,
    UInt32.lt_iff_toNat_lt]

theorem add_le_add_iff_toNat (seq : SequenceNumber32) {m n : UInt32} (hm : m.toNat < 2 ^ 31)
    (hn : n.toNat < 2 ^ 31) :
    seq + m ≤ seq + n ↔ m ≤ n := by
  rw [← SequenceNumber32.not_lt, add_lt_add_iff_toNat seq hn hm, UInt32.not_lt]

theorem lt_add_of_size (ht : t.packet ≠ []) (hsize : t.packet.length < 2 ^ 31) :
    seq < seq + t.size := by
  have htoNat : t.size.toNat = t.packet.length :=
    UInt32.toNat_ofNat_of_lt' (lt_of_lt_of_le hsize (by decide))
  have hpos := List.length_pos_iff.2 ht
  have hlt := (add_lt_add_iff_toNat seq (m := 0) (n := t.size) (by decide)
    (by omega)).2 (by rw [UInt32.lt_iff_toNat_lt, UInt32.toNat_zero]; omega)
  rwa [SequenceNumber32.add_zero] at hlt

/-- A search that has an item that begins at `seq` joins it with the items behind it, until it
has what it needs. -/
theorem getPacketFromListWithin_aligned (hpass : Passes seq start l1 seq)
    (hnumBytes : numBytes.toNat < 2 ^ 31) :
    ∀ {l2 : List TcpTxItem} {t : TcpTxItem} {fuel node : ℕ} {retrans : UInt32},
      t.packet ≠ [] → t.packet.length + allBytes l2 < 2 ^ 31 → l2.length < fuel →
      ∃ found, getPacketFromListWithin numBytes seq start fuel (l1 ++ t :: l2) retrans node =
        some found
  | _, _, 0, _, _, _, _, hfuel => absurd hfuel (Nat.not_lt_zero _)
  | l2, t, fuel + 1, node, retrans, ht, hsum, hfuel => by
    have hin : seq < seq + t.size := lt_add_of_size ht (by omega)
    have htoNat : t.size.toNat = t.packet.length :=
      UInt32.toNat_ofNat_of_lt' (show _ < 2 ^ 32 by omega)
    have hsearch : search numBytes seq node start (l1 ++ t :: l2) =
        l1.foldr Search.cons (searchEnd numBytes seq node t l2) := by
      rw [search_append hpass, search, if_pos hin, if_pos rfl]
    unfold getPacketFromListWithin
    rw [hsearch]
    by_cases hle : seq + numBytes ≤ seq + t.size
    · have hle' := (add_le_add_iff_toNat _ hnumBytes (by omega)).1 hle
      by_cases heq : numBytes = t.size
      · have hend : searchEnd numBytes seq node t l2 = .found [] t l2 := by
          unfold searchEnd
          rw [if_pos hle, if_pos heq]
        rw [hend, foldr_found]
        exact ⟨_, rfl⟩
      · have hend : searchEnd numBytes seq node t l2 =
            .found [] (t.splitFirst node numBytes) (t.splitSecond numBytes :: l2) := by
          unfold searchEnd
          rw [if_pos hle, if_neg heq, if_pos (lt_of_le_of_ne_uint32 hle' heq)]
        rw [hend, foldr_found]
        exact ⟨_, rfl⟩
    · cases l2 with
      | nil =>
        have hend : searchEnd numBytes seq node t [] = .found [] t [] := by
          unfold searchEnd
          rw [if_neg hle]
        rw [hend, foldr_found]
        exact ⟨_, rfl⟩
      | cons next l2 =>
        have hend : searchEnd numBytes seq node t (next :: l2) =
            .edited (t.merge next :: l2) (t.uncounted next) := by
          unfold searchEnd
          rw [if_neg hle]
        rw [hend, foldr_edited]
        rw [allBytes_cons] at hsum
        refine getPacketFromListWithin_aligned hpass hnumBytes ?_ ?_ ?_
        · exact List.append_ne_nil_of_left_ne_nil ht _
        · have hjoin : (t.merge next).packet.length = t.packet.length + next.packet.length :=
            List.length_append
          omega
        · exact Nat.lt_of_succ_lt_succ hfuel

theorem passes_append {e' : SequenceNumber32} (h : Passes seq start l1 e)
    (h' : Passes seq e l2 e') : Passes seq start (l1 ++ l2) e' := by
  induction h with
  | nil => exact h'
  | cons hpass h ih => exact .cons hpass (ih h')

/-- The item that holds a byte of the list. -/
theorem exists_passes :
    ∀ {l : List TcpTxItem} (start : SequenceNumber32) {d : UInt32}, (∀ t ∈ l, t.packet ≠ []) →
      allBytes l < 2 ^ 31 → d.toNat < allBytes l →
      ∃ l1 t l2 k, l = l1 ++ t :: l2 ∧ k < t.size ∧
        Passes (start + d) start l1 (start + (d - k)) ∧ k ≤ d
  | [], _, _, _, _, hd => absurd hd (Nat.not_lt_zero _)
  | t :: l, start, d, hl, hall, hd => by
    rw [allBytes_cons] at hall hd
    have htoNat : t.size.toNat = t.packet.length :=
      UInt32.toNat_ofNat_of_lt' (show _ < 2 ^ 32 by omega)
    by_cases hlt : d < t.size
    · refine ⟨[], t, l, d, rfl, hlt, ?_, UInt32.le_refl d⟩
      rw [UInt32.sub_self, SequenceNumber32.add_zero]
      exact .nil
    · have hle := UInt32.not_lt.1 hlt
      have hle' := UInt32.le_iff_toNat_le.1 hle
      have hsub := UInt32.toNat_sub_of_le _ _ hle
      obtain ⟨l1, x, l2, k, hx, hk, hpass, hkd⟩ := exists_passes (start + t.size)
        (d := d - t.size) (fun x hx => hl x (List.mem_cons_of_mem t hx)) (by omega) (by omega)
      have hadd : start + t.size + (d - t.size) = start + d := by
        rw [SequenceNumber32.add_assoc]
        congr 1
        grind
      have hend : start + t.size + (d - t.size - k) = start + (d - k) := by
        rw [SequenceNumber32.add_assoc]
        congr 1
        grind
      rw [hadd, hend] at hpass
      refine ⟨t :: l1, x, l2, k, by rw [hx, List.cons_append], hk, .cons ?_ hpass, ?_⟩
      · rwa [add_lt_add_iff_toNat _ (by omega) (by omega)]
      · rw [UInt32.le_iff_toNat_le] at hkd ⊢
        omega

/-- `GetPacketFromList` finds what is in the list. -/
theorem exists_getPacketFromList (numBytes : UInt32) (start : SequenceNumber32) (node : ℕ)
    (retrans : UInt32) (hl : ∀ t ∈ l, t.packet ≠ []) (hall : allBytes l < 2 ^ 31)
    (hd : d.toNat < allBytes l) (hnumBytes : numBytes.toNat < 2 ^ 31) :
    ∃ found, getPacketFromList numBytes (start + d) node l start retrans = some found := by
  obtain ⟨l1, t, l2, k, rfl, hk, hpass, hkd⟩ := exists_passes start hl hall hd
  have ht : t.packet ≠ [] := hl t (by simp)
  rw [allBytes_append, allBytes_cons] at hall
  unfold getPacketFromList
  have hlength : (l1 ++ t :: l2).length = l1.length + (l2.length + 1) := by
    rw [List.length_append, List.length_cons]
  by_cases hzero : k = 0
  · rw [hzero, UInt32.sub_zero] at hpass
    exact getPacketFromListWithin_aligned hpass hnumBytes ht (by omega) (by omega)
  -- the item is split, and its second part begins at the byte
  · have hklt := UInt32.lt_iff_toNat_lt.1 hk
    have htoNat : t.size.toNat = t.packet.length :=
      UInt32.toNat_ofNat_of_lt' (show _ < 2 ^ 32 by omega)
    have hkpos : 0 < k.toNat := by
      rw [Nat.pos_iff_ne_zero, ← UInt32.toNat_zero, Ne, UInt32.toNat_inj]
      exact hzero
    have hle := toNat_le_of_lt_size hk
    have hseq : start + d = start + (d - k) + k := by
      rw [SequenceNumber32.add_assoc]
      congr 1
      grind
    have hsub : start + d - (start + (d - k)) = k := by
      rw [hseq, SequenceNumber32.add_sub_self]
    have hself : ¬ start + d = start + (d - k) := by
      rw [hseq]
      intro heq
      refine hzero ((SequenceNumber32.add_right_inj _).1 (heq.trans ?_))
      exact (SequenceNumber32.add_zero _).symm
    have hin : start + d < start + (d - k) + t.size := by
      rw [hseq, add_lt_add_iff_toNat _ (by omega) (by omega)]
      exact hk
    have hlt : start + (d - k) < start + d := by
      rw [hseq]
      have hpos := (add_lt_add_iff_toNat (start + (d - k)) (m := 0) (n := k) (by decide)
        (by omega)).2 (by rw [UInt32.lt_iff_toNat_lt, UInt32.toNat_zero]; omega)
      rwa [SequenceNumber32.add_zero] at hpos
    have hsearch : search numBytes (start + d) node start (l1 ++ t :: l2) =
        .edited (l1 ++ t.splitFirst node k :: t.splitSecond k :: l2) 0 := by
      rw [search_append hpass, search, if_pos hin, if_neg hself, if_pos hlt, hsub, foldr_edited]
    have hpassFirst : Passes (start + d) start (l1 ++ [t.splitFirst node k]) (start + d) := by
      refine passes_append hpass (.cons ?_ ?_)
      · rw [t.size_splitFirst node hle, ← hseq, SequenceNumber32.not_lt]
        exact SequenceNumber32.le_refl _
      · rw [t.size_splitFirst node hle, ← hseq]
        exact .nil
    unfold getPacketFromListWithin
    rw [hsearch]
    have hsplit : ∃ found, getPacketFromListWithin numBytes (start + d) start
        ((l1 ++ t :: l2).length + 1) ((l1 ++ [t.splitFirst node k]) ++ t.splitSecond k :: l2)
        (retrans - 0) (node + 1) = some found := by
      refine getPacketFromListWithin_aligned hpassFirst hnumBytes ?_ ?_ ?_
      · rw [← List.length_pos_iff, t.length_splitSecond]
        omega
      · rw [t.length_splitSecond]
        omega
      · omega
    rwa [List.append_assoc, List.singleton_append] at hsplit

/-- What is found is what the list holds from the byte on, and no more than was asked for. -/
theorem getPacketFromList_spec {found : Found} (hpos : numBytes ≠ 0)
    (hl : ∀ t ∈ l, t.packet ≠ []) (hall : allBytes l < 2 ^ 31) (hnumBytes : numBytes.toNat < 2 ^ 31)
    (hget : getPacketFromList numBytes (start + d) node l start retrans = some found) :
    0 < found.item.packet.length ∧ found.item.packet.length ≤ numBytes.toNat ∧
      found.item.packet = ((payload l).drop d.toNat).take found.item.packet.length := by
  obtain ⟨hsame, hseq⟩ := sameStream_getPacketFromList hpos hget
  have hlength : ∀ {l' : List TcpTxItem}, SameStream start l l' → allBytes l' < 2 ^ 31 := by
    intro l' h
    rwa [← length_payload, h.payload, length_payload]
  have hle : found.item.packet.length ≤ numBytes.toNat := by
    refine getPacketFromList_rec (R := fun l' _ => SameStream start l l')
      (S := fun _ item _ _ => item.packet.length ≤ numBytes.toNat) ?_ ?_
      (SameStream.refl start l) hget
    · intro l' l'' r' u node hsame hstep
      exact hsame.trans hstep.sameStream_edited
    · intro l' r' node before item after hsame hstep
      have hbytes := hlength hsame
      cases hstep with
      | found hpass hin hend =>
        rw [allBytes_append, allBytes_cons] at hbytes
        have htoNat : item.size.toNat = item.packet.length :=
          UInt32.toNat_ofNat_of_lt' (show _ < 2 ^ 32 by omega)
        rcases hend with heq | ⟨-, hend⟩
        · rw [heq, htoNat]
        · rw [add_le_add_iff_toNat _ hnumBytes (by omega), UInt32.not_le,
            UInt32.lt_iff_toNat_lt] at hend
          omega
      | first hpass hin hle hlt =>
        rw [TcpTxItem.length_splitFirst _ _ (toNat_le_of_lt_size hlt)]
  have hbefore : allBytes found.before = d.toNat := by
    have hbytes := hlength hsame
    rw [Found.list, allBytes_append] at hbytes
    rw [(SequenceNumber32.add_right_inj start).1 hseq,
      UInt32.toNat_ofNat_of_lt' (show _ < 2 ^ 32 by omega)]
  refine ⟨List.length_pos_iff.2 (hsame.nonempty hl found.item (by simp [Found.list])), hle, ?_⟩
  rw [← hsame.payload, Found.list, payload_append, payload_cons, ← hbefore, ← length_payload,
    List.drop_left, List.take_left]

/-- The item holds bytes of the buffer from `seq` on, not more than `numBytes`. -/
def IsCopy (b : TcpTxBuffer) (numBytes : UInt32) (seq : SequenceNumber32) (item : TcpTxItem) :
    Prop :=
  0 < item.packet.length ∧ item.packet.length ≤ numBytes.toNat ∧
    item.packet = (b.bytes.drop (seq - b.firstByteSeq).toNat).take item.packet.length

/-- A copy succeeds that begins at a sent byte or the next one. -/
def Served (b : TcpTxBuffer) : Prop :=
  ∀ (now : ℕ) (numBytes : UInt32) (seq : SequenceNumber32), 0 < numBytes →
    (seq - b.firstByteSeq).toNat ≤ b.sentSize.toNat → (seq - b.firstByteSeq).toNat < b.size.toNat →
    ∃ item b', b.copyFromSequence now numBytes seq = some (some item, b') ∧
      b.IsCopy numBytes seq item

variable {item' : TcpTxItem}

theorem StreamInv.exists_getTransmittedSegment (h : StreamInv b) (now : ℕ)
    (hsize : b.size.toNat < 2 ^ 31)
    (hs : s ≠ 0) (hslt : s.toNat < 2 ^ 31) (hd : d.toNat < b.sentSize.toNat) :
    ∃ item b', b.getTransmittedSegment now s (b.firstByteSeq + d) = some (item, b') ∧
      b.IsCopy s (b.firstByteSeq + d) item := by
  have hlength := h.length_bytes
  have hsent := h.toNat_sentSize
  rw [TcpTxBuffer.bytes, length_payload, allBytes_append] at hlength
  have hnonempty : ∀ t ∈ b.sentList, t.packet ≠ [] :=
    fun t ht => h.nonempty t (List.mem_append_left _ ht)
  obtain ⟨hpos, hle⟩ := segmentLimit_spec (b.firstByteSeq + d) hs hnonempty (by omega)
  have hle' := UInt32.le_iff_toNat_le.1 hle
  obtain ⟨found, hfound⟩ := exists_getPacketFromList
    (segmentLimit (b.firstByteSeq + d) s b.sentList) b.firstByteSeq b.nextNode b.retrans (d := d)
    hnonempty (by omega) (by omega) (by omega)
  obtain ⟨hlen, hlimit, hpacket⟩ := getPacketFromList_spec hpos hnonempty (by omega) (by omega)
    hfound
  obtain ⟨item, b', hget, hitem⟩ : ∃ item b',
      b.getTransmittedSegment now s (b.firstByteSeq + d) = some (item, b') ∧
        item.packet = found.item.packet := by
    unfold TcpTxBuffer.getTransmittedSegment
    rw [hfound]
    exact ⟨_, _, rfl, rfl⟩
  refine ⟨item, b', hget, ?_⟩
  unfold IsCopy
  rw [hitem]
  refine ⟨hlen, hlimit.trans hle', ?_⟩
  · rw [SequenceNumber32.add_sub_self, TcpTxBuffer.bytes, payload_append,
      List.drop_append_of_le_length (by rw [length_payload]; omega),
      List.take_append_of_le_length]
    · exact hpacket
    · have hall := congrArg List.length hpacket
      rw [List.length_take] at hall
      omega

theorem StreamInv.exists_getNewSegment (h : StreamInv b) (now : ℕ) (hsize : b.size.toNat < 2 ^ 31)
    (hs : s ≠ 0) (hslt : s.toNat < 2 ^ 31) (hnew : b.sentSize.toNat < b.size.toNat) :
    ∃ item b', b.getNewSegment now s = some (item, b') ∧ b.IsCopy s b.sentEnd item := by
  have hlength := h.length_bytes
  have hsent := h.toNat_sentSize
  rw [TcpTxBuffer.bytes, length_payload, allBytes_append] at hlength
  have hnonempty : ∀ t ∈ b.appList, t.packet ≠ [] :=
    fun t ht => h.nonempty t (List.mem_append_right _ ht)
  obtain ⟨found, hfound⟩ := exists_getPacketFromList s b.sentEnd b.nextNode b.retrans (d := 0)
    hnonempty (by omega)
    (by rw [UInt32.toNat_zero]; omega) hslt
  obtain ⟨hlen, hlimit, hpacket⟩ := getPacketFromList_spec hs hnonempty (by omega) hslt hfound
  rw [SequenceNumber32.add_zero] at hfound
  obtain ⟨item, b', hget, hitem⟩ : ∃ item b', b.getNewSegment now s = some (item, b') ∧
      item.packet = found.item.packet := by
    unfold TcpTxBuffer.getNewSegment
    rw [hfound]
    exact ⟨_, _, rfl, rfl⟩
  refine ⟨item, b', hget, ?_⟩
  unfold IsCopy
  rw [hitem]
  refine ⟨hlen, hlimit, ?_⟩
  · have hoffset : b.sentEnd - b.firstByteSeq = b.sentSize :=
      SequenceNumber32.add_sub_self _ _
    rw [hoffset, hsent, TcpTxBuffer.bytes, payload_append, ← length_payload, List.drop_left]
    simpa using hpacket

/-- All bytes of the buffer have been sent, or none, or their sequence numbers do not pass the
wrap. -/
def Unbroken (b : TcpTxBuffer) : Prop :=
  b.sentSize = 0 ∨ b.sentSize = b.size ∨ b.firstByteSeq.value.toNat + b.size.toNat < 2 ^ 32

section Branches

variable {again : UInt32 → Option (Option TcpTxItem × TcpTxBuffer)}

theorem sizeFromSequence_add (hsize : b.size.toNat < 2 ^ 31) (hd : d ≤ b.size) :
    b.sizeFromSequence (b.firstByteSeq + d) = b.size - d := by
  have hd' := UInt32.le_iff_toNat_le.1 hd
  rw [sizeFromSequence, tailSequence, if_pos]
  · rw [SequenceNumber32.sub_def, SequenceNumber32.value_add, SequenceNumber32.value_add]
    grind
  · rwa [add_le_add_iff_toNat _ (by omega) hsize]

/-- A copy from the byte at `d` on, of a buffer smaller than half of the number space. -/
theorem copyFromSequenceWithin_add (now fuel : ℕ) (numBytes : UInt32)
    (hsize : b.size.toNat < 2 ^ 31) (hd : d < b.size) :
    b.copyFromSequenceWithin now (b.firstByteSeq + d) (fuel + 1) numBytes =
      b.copyBranches now (min numBytes (b.size - d)) (b.firstByteSeq + d)
        (b.copyFromSequenceWithin now (b.firstByteSeq + d) fuel) := by
  have hd' := UInt32.lt_iff_toNat_lt.1 hd
  have hge : ¬ b.firstByteSeq + d < b.firstByteSeq := by
    have hlt := add_lt_add_iff_toNat b.firstByteSeq (m := d) (n := 0) (by omega)
      (by decide)
    rw [SequenceNumber32.add_zero, UInt32.lt_iff_toNat_lt, UInt32.toNat_zero] at hlt
    rw [hlt]
    exact Nat.not_lt_zero _
  rw [copyFromSequenceWithin, if_neg hge, sizeFromSequence_add hsize
    (UInt32.le_iff_toNat_le.2 hd'.le)]

theorem copyBranches_transmitted (hs : s ≠ 0) (hsent : b.sentSize.toNat < 2 ^ 31)
    (hend : d.toNat + s.toNat ≤ b.sentSize.toNat)
    (hget : b.getTransmittedSegment now s (b.firstByteSeq + d) = some (item, b')) :
    b.copyBranches now s (b.firstByteSeq + d) again = some (some item, b') := by
  have hds : (d + s).toNat = d.toNat + s.toNat := by
    rw [UInt32.toNat_add]
    omega
  have hle : b.firstByteSeq + d + s ≤ b.sentEnd := by
    rw [SequenceNumber32.add_assoc, sentEnd, add_le_add_iff_toNat _ (by omega) hsent,
      UInt32.le_iff_toNat_le]
    omega
  rw [copyBranches, if_neg hs, if_pos hle, hget]
  rfl

theorem copyBranches_new (hs : s ≠ 0) (hend : b.sentSize.toNat + s.toNat < 2 ^ 31)
    (hget : b.getNewSegment now s = some (item, b')) :
    b.copyBranches now s b.sentEnd again = some (some item, b') := by
  have hpos : 0 < s.toNat := by
    rw [Nat.pos_iff_ne_zero, ← UInt32.toNat_zero, Ne, UInt32.toNat_inj]
    exact hs
  have hsum : (b.sentSize + s).toNat = b.sentSize.toNat + s.toNat := by
    rw [UInt32.toNat_add]
    omega
  have hpast : ¬ b.sentEnd + s ≤ b.sentEnd := by
    rw [sentEnd, SequenceNumber32.add_assoc, add_le_add_iff_toNat _ (by omega) (by omega),
      UInt32.not_le, UInt32.lt_iff_toNat_lt]
    omega
  rw [copyBranches, if_neg hs, if_neg hpast, if_pos (SequenceNumber32.le_refl _), if_pos rfl,
    hget]
  rfl

theorem IsCopy.mono (h : b.IsCopy s seq item) (hle : s ≤ numBytes) : b.IsCopy numBytes seq item :=
  ⟨h.1, h.2.1.trans (UInt32.le_iff_toNat_le.1 hle), h.2.2⟩

/-- A copy that begins at a sent byte is cut at the end of the sent data, unless the wrap is in
its way. -/
theorem copyBranches_cut (hsum : d.toNat + s.toNat < 2 ^ 31) (hd : d.toNat < b.sentSize.toNat)
    (hsent : b.sentSize.toNat < d.toNat + s.toNat) :
    b.copyBranches now s (b.firstByteSeq + d) again =
      if (b.firstByteSeq + d).value < b.sentEnd.value ∧
          b.sentEnd.value < (b.firstByteSeq + d).value + s then
        again (b.sentSize - d)
      else none := by
  have hds : (d + s).toNat = d.toNat + s.toNat := by
    rw [UInt32.toNat_add]
    omega
  have hzero : s ≠ 0 := by
    rintro rfl
    rw [UInt32.toNat_zero] at hsent
    omega
  have htransmitted : ¬ b.firstByteSeq + d + s ≤ b.sentEnd := by
    rw [SequenceNumber32.add_assoc, sentEnd, add_le_add_iff_toNat _ (by omega) (by omega),
      UInt32.not_le, UInt32.lt_iff_toNat_lt]
    omega
  have hnew : ¬ b.sentEnd ≤ b.firstByteSeq + d := by
    rw [sentEnd, add_le_add_iff_toNat _ (by omega) (by omega), UInt32.not_le,
      UInt32.lt_iff_toNat_lt]
    exact hd
  have hamount : b.sentEnd.value - (b.firstByteSeq + d).value = b.sentSize - d := by
    rw [sentEnd, SequenceNumber32.value_add, SequenceNumber32.value_add]
    grind
  rw [copyBranches, if_neg hzero, if_neg htransmitted, if_neg hnew, hamount]

end Branches

/-- A copy of all that the buffer holds is cut at the end of the sent data. -/
theorem Served.unbroken (hserved : Served b) (hsize : b.size.toNat < 2 ^ 31)
    (hsent : b.sentSize.toNat ≤ b.size.toNat) : Unbroken b := by
  by_contra hbroken
  rw [Unbroken, not_or, not_or, ← UInt32.toNat_inj, ← UInt32.toNat_inj, UInt32.toNat_zero,
    Nat.not_lt] at hbroken
  obtain ⟨hpos, hne, hwrap⟩ := hbroken
  have hself : b.firstByteSeq - b.firstByteSeq = (0 : UInt32) := by
    rw [SequenceNumber32.sub_def, UInt32.sub_self]
  have hmin : min b.size b.size = b.size := by
    rw [← UInt32.toNat_inj, uint32_toNat_min, min_self]
  obtain ⟨item, b', hcopy, -⟩ := hserved 0 b.size b.firstByteSeq
    (by rw [UInt32.lt_iff_toNat_lt, UInt32.toNat_zero]; omega)
    (by rw [hself]; exact Nat.zero_le _) (by rw [hself, UInt32.toNat_zero]; omega)
  have hraw : ¬ (b.firstByteSeq.value < b.sentEnd.value ∧
      b.sentEnd.value < b.firstByteSeq.value + b.size) := by
    rw [sentEnd, SequenceNumber32.value_add]
    simp only [UInt32.lt_iff_toNat_lt, UInt32.toNat_add]
    have hvalue := b.firstByteSeq.value.toNat_lt
    omega
  have hwithin := copyFromSequenceWithin_add 0 1 b.size hsize (d := 0)
    (by rw [UInt32.lt_iff_toNat_lt, UInt32.toNat_zero]; omega)
  rw [UInt32.sub_zero, hmin, copyBranches_cut (by rw [UInt32.toNat_zero]; omega)
    (by rw [UInt32.toNat_zero]; omega) (by rw [UInt32.toNat_zero]; omega),
    SequenceNumber32.add_zero, if_neg hraw] at hwithin
  rw [TcpTxBuffer.copyFromSequence, hwithin] at hcopy
  cases hcopy

/-- Every copy succeeds if and only if none has to be cut at the end of the sent data across
the wrap. -/
theorem StreamInv.served_iff (h : StreamInv b) (hsize : b.size.toNat < 2 ^ 31) :
    Served b ↔ Unbroken b := by
  have hsent : b.sentSize.toNat ≤ b.size.toNat := by
    rw [h.toNat_sentSize, h.length_bytes, TcpTxBuffer.bytes, length_payload, allBytes_append]
    exact Nat.le_add_right ..
  refine ⟨fun hserved => hserved.unbroken hsize hsent, ?_⟩
  intro hunbroken now numBytes seq hnumBytes hle hlt
  obtain ⟨d, rfl⟩ : ∃ d, seq = b.firstByteSeq + d :=
    ⟨_, (SequenceNumber32.add_sub_cancel _ _).symm⟩
  rw [SequenceNumber32.add_sub_self] at hle hlt
  rw [UInt32.lt_iff_toNat_lt, UInt32.toNat_zero] at hnumBytes
  have hdlt : d < b.size := UInt32.lt_iff_toNat_lt.2 hlt
  have hsub := UInt32.toNat_sub_of_le b.size d (UInt32.le_iff_toNat_le.2 hlt.le)
  rw [TcpTxBuffer.copyFromSequence, copyFromSequenceWithin_add _ _ _ hsize hdlt]
  obtain ⟨s, hs⟩ : ∃ s, s = min numBytes (b.size - d) := ⟨_, rfl⟩
  have hstoNat : s.toNat = min numBytes.toNat (b.size.toNat - d.toNat) := by
    rw [hs, uint32_toNat_min, hsub]
  have hsle : s ≤ numBytes := UInt32.le_iff_toNat_le.2 (hstoNat ▸ min_le_left ..)
  have hspos : s ≠ 0 := by
    intro hzero
    rw [hzero, UInt32.toNat_zero] at hstoNat
    omega
  rw [← hs]
  rcases Nat.lt_or_ge b.sentSize.toNat (d.toNat + s.toNat) with hpast | htransmitted
  · rcases Nat.lt_or_ge d.toNat b.sentSize.toNat with hd | hd
    -- data that has been sent, and then data that has not
    · have hamount := UInt32.toNat_sub_of_le b.sentSize d (UInt32.le_iff_toNat_le.2 hd.le)
      have hwrap : b.firstByteSeq.value.toNat + b.size.toNat < 2 ^ 32 := by
        rcases hunbroken with hnone | hall | hwrap
        · rw [hnone, UInt32.toNat_zero] at hd
          omega
        · rw [hall] at hpast
          omega
        · exact hwrap
      have hraw : (b.firstByteSeq + d).value < b.sentEnd.value ∧
          b.sentEnd.value < (b.firstByteSeq + d).value + s := by
        rw [sentEnd, SequenceNumber32.value_add, SequenceNumber32.value_add]
        simp only [UInt32.lt_iff_toNat_lt, UInt32.toNat_add]
        omega
      have hrest : min (b.sentSize - d) (b.size - d) = b.sentSize - d := by
        rw [← UInt32.toNat_inj, uint32_toNat_min, hamount, hsub, min_eq_left (by omega)]
      have hrestpos : b.sentSize - d ≠ 0 := by
        rw [Ne, ← UInt32.toNat_inj, hamount, UInt32.toNat_zero]
        omega
      obtain ⟨item, b', hget, hcopy⟩ := h.exists_getTransmittedSegment now hsize
        hrestpos (by omega) hd
      rw [copyBranches_cut (by omega) hd hpast, if_pos hraw,
        copyFromSequenceWithin_add _ _ _ hsize hdlt, hrest]
      refine ⟨item, b', ?_, hcopy.mono (UInt32.le_iff_toNat_le.2 (by omega))⟩
      exact copyBranches_transmitted hrestpos (by omega) (by omega) hget
    -- data that has not been sent
    · obtain rfl : d = b.sentSize := UInt32.toNat_inj.1 (le_antisymm hle hd)
      obtain ⟨item, b', hget, hcopy⟩ := h.exists_getNewSegment now hsize hspos (by omega)
        hlt
      exact ⟨item, b', copyBranches_new hspos (by omega) hget, hcopy.mono hsle⟩
  -- data that has been sent
  · have hspos' : 0 < s.toNat := by
      rw [Nat.pos_iff_ne_zero, ← UInt32.toNat_zero, Ne, UInt32.toNat_inj]
      exact hspos
    obtain ⟨item, b', hget, hcopy⟩ := h.exists_getTransmittedSegment now (d := d) hsize
      hspos (by omega) (by omega)
    exact ⟨item, b', copyBranches_transmitted hspos (by omega) htransmitted hget,
      hcopy.mono hsle⟩

end Served

/-! ## Runs -/

theorem Refines.after_step {b : Option TcpTxBuffer} {stream : ByteStream}
    (h : ∀ x ∈ b, Refines x stream) (call : Call) :
    ∀ x ∈ step b call, Refines x (stream.step call) := by
  intro x hx
  obtain ⟨y, rfl, hy⟩ := Option.bind_eq_some_iff.1 hx
  obtain ⟨⟨r, x'⟩, hcall, rfl⟩ := Option.map_eq_some_iff.1 hy
  exact (h y rfl).call hcall

theorem Refines.after_run (calls : List Call) :
    ∀ {b : Option TcpTxBuffer} {stream : ByteStream}, (∀ x ∈ b, Refines x stream) →
      ∀ x ∈ run step b calls, Refines x (run ByteStream.step stream calls) := by
  induction calls with
  | nil => exact fun h => h
  | cons call calls ih =>
    intro b stream h
    exact ih (Refines.after_step h call)

theorem Refines.at_init (seq : SequenceNumber32) (maxBuffer dupAckThresh segmentSize : UInt32) :
    Refines (init seq maxBuffer dupAckThresh segmentSize) ⟨maxBuffer.toNat, seq, [], 0⟩ where
  inv := ⟨rfl, rfl, Nat.zero_le _, trivial, by rintro t ⟨⟩⟩
  bytes := rfl
  head := rfl
  capacity := rfl
  discarded := Nat.le_refl 0

/-- In every run the buffer holds the bytes added, without those discarded, the sent items are
in their places, and a buffer smaller than half of the number space serves every copy if and
only if it is unbroken. -/
theorem stream_of_run (seq : SequenceNumber32) (maxBuffer dupAckThresh segmentSize : UInt32)
    (calls : List Call) :
    ∀ b ∈ run step (some (TcpTxBuffer.init seq maxBuffer dupAckThresh segmentSize)) calls,
      payload b.sentList ++ payload b.appList =
        (run ByteStream.step ⟨maxBuffer.toNat, seq, [], 0⟩ calls).bytes ∧
      (∀ l1 t l2, b.sentList = l1 ++ t :: l2 →
        t.startSeq = b.firstByteSeq + UInt32.ofNat (allBytes l1)) ∧
      (b.size.toNat < 2 ^ 31 → (Served b ↔ Unbroken b)) := by
  intro b hb
  have h : Refines b (run ByteStream.step ⟨maxBuffer.toNat, seq, [], 0⟩ calls) := by
    refine Refines.after_run calls ?_ b hb
    rintro x ⟨⟩
    exact Refines.at_init seq maxBuffer dupAckThresh segmentSize
  refine ⟨?_, ?_, h.inv.served_iff⟩
  · rw [← payload_append]
    exact h.bytes
  · intro l1 t l2 hl
    exact startSeq_of_placed (hl ▸ h.inv.placed)

/-- Two bytes of four have been sent, and every copy succeeds. -/
theorem served_half :
    ∃ b ∈ run step (some (TcpTxBuffer.init ⟨0⟩ 6 3 2))
      [.add [1, 2, 3, 4] (by decide), .copyFromSequence 0 2 ⟨0⟩], Served b := by
  let calls : List Call := [.add [1, 2, 3, 4] (by decide), .copyFromSequence 0 2 ⟨0⟩]
  have hcounts : (run step (some (TcpTxBuffer.init ⟨0⟩ 6 3 2)) calls).map
      (fun b => (b.firstByteSeq.value.toNat, b.size.toNat)) = some (0, 4) := by
    decide +kernel
  obtain ⟨b, hb, heq⟩ := Option.map_eq_some_iff.1 hcounts
  obtain ⟨hfirst, hsize⟩ := Prod.mk.inj heq
  obtain ⟨-, -, hserved⟩ := stream_of_run ⟨0⟩ 6 3 2 calls b hb
  exact ⟨b, hb, (hserved (by omega)).2 (.inr (.inr (by omega)))⟩

/-- Of four bytes that begin two numbers before the wrap, one has been sent. A copy of all four
finds nothing. -/
theorem not_served :
    ¬ ∀ calls, ∀ b ∈ run step (some (TcpTxBuffer.init ⟨0xfffffffe⟩ 6 3 2)) calls, Served b := by
  intro h
  let calls : List Call := [.add [1, 2, 3, 4] (by decide), .copyFromSequence 0 1 ⟨0xfffffffe⟩]
  have hcopy : (run step (some (TcpTxBuffer.init ⟨0xfffffffe⟩ 6 3 2)) calls).map
      (fun b => (b.size.toNat, (b.firstByteSeq.value.toNat,
        (b.copyFromSequence 1 4 ⟨0xfffffffe⟩).isNone))) = some (4, (0xfffffffe, true)) := by
    decide +kernel
  obtain ⟨b, hb, heq⟩ := Option.map_eq_some_iff.1 hcopy
  obtain ⟨hsize, hrest⟩ := Prod.mk.inj heq
  obtain ⟨hfirst, hnone⟩ := Prod.mk.inj hrest
  have hseq : b.firstByteSeq = ⟨0xfffffffe⟩ :=
    SequenceNumber32.ext_value (UInt32.toNat_inj.1 hfirst)
  obtain ⟨item, b', hsome, -⟩ := h calls b hb 1 4 ⟨0xfffffffe⟩ (by decide)
    (by rw [hseq, SequenceNumber32.sub_def, UInt32.sub_self]; exact Nat.zero_le _)
    (by rw [hseq, SequenceNumber32.sub_def, UInt32.sub_self, UInt32.toNat_zero]; omega)
  rw [hsome] at hnone
  cases hnone

end TcpTxBuffer

end Ns3Pedca
