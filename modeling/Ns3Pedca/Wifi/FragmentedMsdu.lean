import Ns3Pedca.Wifi.Fragmentation

/-!
# A fragmented MSDU is sent in pieces

The fragments of an MSDU are sent in turn, and put together they are the MSDU
(`SendsInPieces`). The next fragment is cut from the MSDU that the frame exchange manager
remembers, which is the last one that it began to fragment : if another MSDU is fragmented
while a fragment waits for its transmission, the rest of the first one is lost.
`sendsInPieces_of_remembers` : the fragments are right in a run in which the MSDU of every
acknowledged fragment that is not the last is the one the manager remembers, and no MSDU
that is fragmented has more than 256 fragments.
-/

set_option linter.unusedSectionVars false

namespace Ns3Pedca

open Pieces Runs

/-! ## The pieces of an MSDU -/

/-- The fragment number. -/
def Fragment.number (fragment : Fragment) : ℕ :=
  fragment.fragmentNumber.toNat

namespace WifiRemoteStationManager

variable (rsm : WifiRemoteStationManager) (msdu : Msdu) (sequenceNumber : SeqNo)

/-- Fragment `i` of an MSDU, as the size functions have it. -/
def piece (i : ℕ) : Fragment where
  sequenceNumber := sequenceNumber
  fragmentNumber := .ofNat i
  isMoreFragments := !rsm.isLastFragment msdu i
  packet := createFragment msdu.packet (rsm.getFragmentOffset msdu i) (rsm.getFragmentSize msdu i)

/-- All the fragments. -/
def pieces : List Fragment :=
  (List.range (rsm.getNFragments msdu)).map (rsm.piece msdu sequenceNumber)

/-- The fragments of an MSDU, with one sequence number. -/
structure IsFragmentation (fragments : List Fragment) : Prop where
  whole : Whole Fragment.number Fragment.isMoreFragments fragments
  payload : (fragments.map Fragment.packet).flatten = msdu.packet
  sequenceNumber : ∃ sequenceNumber, ∀ f ∈ fragments, f.sequenceNumber = sequenceNumber
  size : ∀ f ∈ fragments, f.isMoreFragments = true → f.packet.length = rsm.capacity msdu
  even : Even (rsm.capacity msdu)
  within : rsm.capacity msdu + msdu.header.getSize + wifiMacFcsLength = rsm.fragmentationThreshold
  asGiven : ∀ i (h : i < fragments.length),
    fragments[i].packet =
      createFragment msdu.packet (rsm.getFragmentOffset msdu i) (rsm.getFragmentSize msdu i) ∧
    fragments[i].isMoreFragments = !rsm.isLastFragment msdu i

theorem capacity_add :
    rsm.capacity msdu + msdu.header.getSize + wifiMacFcsLength = rsm.fragmentationThreshold := by
  have hsize := msdu.header.getSize_le
  have hmin : 256 ≤ rsm.fragmentationThreshold := rsm.le_threshold
  change rsm.fragmentationThreshold - msdu.header.getSize - 4 + msdu.header.getSize + 4 = _
  omega

theorem capacity_pos : 0 < rsm.capacity msdu := by
  have hsize := msdu.header.getSize_le
  have hmin : 256 ≤ rsm.fragmentationThreshold := rsm.le_threshold
  change 0 < rsm.fragmentationThreshold - msdu.header.getSize - 4
  omega

theorem even_capacity : Even (rsm.capacity msdu) := by
  have hadd := rsm.capacity_add msdu
  have hsize := msdu.header.even_getSize
  have hthreshold := rsm.even_threshold
  change rsm.capacity msdu + msdu.header.getSize + 4 = _ at hadd
  rw [Nat.even_iff] at *
  omega

variable {rsm msdu sequenceNumber} {i : ℕ}

theorem lt_getNFragments :
    i < rsm.getNFragments msdu ↔ i * rsm.capacity msdu < msdu.packet.length := by
  have hpos := rsm.capacity_pos msdu
  have hdiv := Nat.div_add_mod msdu.packet.length (rsm.capacity msdu)
  unfold getNFragments
  split
  next hmod =>
    rw [Nat.lt_succ_iff, Nat.le_div_iff_mul_le hpos]
    refine ⟨fun hle => lt_of_le_of_ne hle fun heq => ?_, le_of_lt⟩
    rw [← heq, Nat.mul_mod_left] at hmod
    exact absurd hmod (lt_irrefl 0)
  next hmod =>
    rw [Nat.eq_zero_of_not_pos hmod, Nat.add_zero] at hdiv
    conv_rhs => rw [← hdiv, Nat.mul_comm]
    rw [Nat.add_zero, Nat.mul_lt_mul_left hpos]

theorem isLastFragment_iff (h : i < rsm.getNFragments msdu) :
    rsm.isLastFragment msdu i = false ↔ i + 1 < rsm.getNFragments msdu := by
  rw [isLastFragment, decide_eq_false_iff_not]
  omega

/-- Every fragment but the last is full, and the last one is what remains. -/
theorem packet_piece (h : i < rsm.getNFragments msdu) :
    (rsm.piece msdu sequenceNumber i).packet =
      (msdu.packet.drop (i * rsm.capacity msdu)).take (rsm.capacity msdu) := by
  change (msdu.packet.drop (i * rsm.capacity msdu)).take (rsm.getFragmentSize msdu i) = _
  rw [getFragmentSize, if_neg (not_le.2 h)]
  split
  next hlast =>
    have hnext : ¬ i + 1 < rsm.getNFragments msdu := by omega
    rw [lt_getNFragments, not_lt, Nat.succ_mul] at hnext
    have hlen : (msdu.packet.drop (i * rsm.capacity msdu)).length ≤ rsm.capacity msdu := by
      rw [List.length_drop]
      omega
    rw [List.take_of_length_le hlen, List.take_of_length_le (List.length_drop ..).le]
  next => rfl

theorem length_packet_piece (h : i + 1 < rsm.getNFragments msdu) :
    (rsm.piece msdu sequenceNumber i).packet.length = rsm.capacity msdu := by
  have hlt : (i + 1) * rsm.capacity msdu < msdu.packet.length := lt_getNFragments.1 h
  rw [packet_piece (Nat.lt_of_succ_lt h), List.length_take, List.length_drop]
  rw [Nat.succ_mul] at hlt
  omega

theorem number_piece (hle : rsm.getNFragments msdu ≤ 256) (h : i < rsm.getNFragments msdu) :
    (rsm.piece msdu sequenceNumber i).number = i := by
  change (UInt8.ofNat i).toNat = i
  rw [UInt8.toNat_ofNat']
  exact Nat.mod_eq_of_lt (by omega)

theorem two_le_getNFragments (h : rsm.needFragmentation msdu = true) :
    1 < rsm.getNFragments msdu := by
  have hadd := rsm.capacity_add msdu
  rw [needFragmentation, Bool.and_eq_true, decide_eq_true_iff] at h
  rw [lt_getNFragments]
  omega

theorem begun_pieces (hle : rsm.getNFragments msdu ≤ 256) (h : i < rsm.getNFragments msdu) :
    Begun Fragment.number Fragment.isMoreFragments
      ((List.range i).map (rsm.piece msdu sequenceNumber)) := by
  induction i with
  | zero => exact Begun.nil
  | succ i ih =>
    rw [List.range_succ, List.map_append, List.map_singleton]
    refine (ih (Nat.lt_of_succ_lt h)).snoc ?_ ?_
    · rw [number_piece hle (Nat.lt_of_succ_lt h), List.length_map, List.length_range]
    · change (!rsm.isLastFragment msdu i) = true
      rw [(isLastFragment_iff (Nat.lt_of_succ_lt h)).2 h]
      rfl

/-- The pieces of an MSDU are its fragmentation. -/
theorem isFragmentation_pieces (hneed : rsm.needFragmentation msdu = true)
    (hle : rsm.getNFragments msdu ≤ 256) :
    rsm.IsFragmentation msdu (rsm.pieces msdu sequenceNumber) where
  whole := by
    have htwo := two_le_getNFragments hneed
    obtain ⟨n, hn⟩ := Nat.exists_eq_succ_of_ne_zero (Nat.ne_zero_of_lt htwo)
    have hlast : n < rsm.getNFragments msdu := hn ▸ Nat.lt_succ_self n
    rw [pieces, hn, List.range_succ, List.map_append, List.map_singleton]
    refine (begun_pieces hle hlast).whole ?_ ?_
    · rw [number_piece hle hlast, List.length_map, List.length_range]
    · change (!rsm.isLastFragment msdu n) = false
      rw [isLastFragment, hn]
      simp
  payload := by
    have hpacket : (rsm.pieces msdu sequenceNumber).map Fragment.packet =
        (List.range (rsm.getNFragments msdu)).map fun i =>
          (msdu.packet.drop (i * rsm.capacity msdu)).take (rsm.capacity msdu) := by
      rw [pieces, List.map_map, List.map_inj_left]
      intro i hi
      exact packet_piece (List.mem_range.1 hi)
    have hall : msdu.packet.length ≤ rsm.getNFragments msdu * rsm.capacity msdu := by
      rw [← not_lt, ← lt_getNFragments]
      exact lt_irrefl _
    rw [hpacket, flatten_slices, List.take_of_length_le hall]
  sequenceNumber := by
    refine ⟨sequenceNumber, fun f hf => ?_⟩
    obtain ⟨i, -, rfl⟩ := List.mem_map.1 hf
    rfl
  size f hf hmore := by
    obtain ⟨i, hi, rfl⟩ := List.mem_map.1 hf
    have hlast : rsm.isLastFragment msdu i = false := by
      rw [← Bool.not_eq_true']
      exact hmore
    exact length_packet_piece ((isLastFragment_iff (List.mem_range.1 hi)).1 hlast)
  even := rsm.even_capacity msdu
  within := rsm.capacity_add msdu
  asGiven i hi := by
    have hpiece : (rsm.pieces msdu sequenceNumber)[i] = rsm.piece msdu sequenceNumber i := by
      simp [pieces]
    rw [hpiece]
    exact ⟨rfl, rfl⟩

end WifiRemoteStationManager

namespace FrameExchangeManagers

open WifiRemoteStationManager

variable {rsm : WifiRemoteStationManager} {msdu : Msdu} {sequenceNumber : SeqNo} {i : ℕ}

/-- The fragment after a full one is the next piece, if it is cut from the same MSDU. -/
theorem getNextFragment_piece (hle : rsm.getNFragments msdu ≤ 256)
    (h : i + 1 < rsm.getNFragments msdu) :
    getNextFragment msdu.packet (rsm.piece msdu sequenceNumber i) =
      rsm.piece msdu sequenceNumber (i + 1) := by
  have hlt : (i + 1) * rsm.capacity msdu < msdu.packet.length := lt_getNFragments.1 h
  have hsize := msdu.length_lt
  have hnumber : (UInt8.ofNat i + 1).toNat = i + 1 := by
    rw [UInt8.toNat_add, UInt8.toNat_ofNat', UInt8.toNat_one]
    omega
  have hoffset : (UInt8.ofNat i + 1).toNat * (rsm.piece msdu sequenceNumber i).packet.length %
      2 ^ 32 = (i + 1) * rsm.capacity msdu := by
    rw [hnumber, length_packet_piece h]
    exact Nat.mod_eq_of_lt (hlt.trans hsize)
  have hrest : (msdu.packet.length + 2 ^ 32 - (i + 1) * rsm.capacity msdu) % 2 ^ 32 =
      msdu.packet.length - (i + 1) * rsm.capacity msdu := by
    omega
  have hmore : decide (rsm.capacity msdu < msdu.packet.length - (i + 1) * rsm.capacity msdu) =
      !rsm.isLastFragment msdu (i + 1) := by
    rw [Bool.eq_iff_iff, decide_eq_true_iff, Bool.not_eq_true', isLastFragment_iff h,
      lt_getNFragments, Nat.succ_mul (i + 1)]
    omega
  have hpacket : createFragment msdu.packet ((i + 1) * rsm.capacity msdu)
      (min (msdu.packet.length - (i + 1) * rsm.capacity msdu) (rsm.capacity msdu)) =
        (rsm.piece msdu sequenceNumber (i + 1)).packet := by
    rw [packet_piece h, createFragment, ← List.length_drop, Nat.min_comm, ← List.take_take,
      List.take_length]
  have hnext : UInt8.ofNat i + 1 = UInt8.ofNat (i + 1) := by
    rw [← UInt8.toNat_inj, hnumber, UInt8.toNat_ofNat']
    omega
  unfold getNextFragment
  change Fragment.mk sequenceNumber (UInt8.ofNat i + 1)
    (decide ((rsm.piece msdu sequenceNumber i).packet.length < (msdu.packet.length + 2 ^ 32 -
      (UInt8.ofNat i + 1).toNat * (rsm.piece msdu sequenceNumber i).packet.length % 2 ^ 32) %
        2 ^ 32))
    (createFragment msdu.packet
      ((UInt8.ofNat i + 1).toNat * (rsm.piece msdu sequenceNumber i).packet.length % 2 ^ 32)
      (min ((msdu.packet.length + 2 ^ 32 -
        (UInt8.ofNat i + 1).toNat * (rsm.piece msdu sequenceNumber i).packet.length % 2 ^ 32) %
          2 ^ 32) (rsm.piece msdu sequenceNumber i).packet.length)) = _
  rw [hoffset, hrest, length_packet_piece h, hmore, hpacket, hnext]
  rfl

/-! ## The fragments that are sent -/

variable {L ι : Type*} [DecidableEq L] [DecidableEq ι] [Fintype L]
  {s : FrameExchangeManagers L ι} {link : L} {m : ι} {queued : QueuedMsdu} {P Q : Prop}

/-- The fragments of every MSDU are sent in turn. -/
def SendsInPieces (s : FrameExchangeManagers L ι) : Prop :=
  ∀ m, (s.queue m).sent ≠ [] → ∃ fragments, s.rsm.IsFragmentation (s.queue m).msdu fragments ∧
    ∃ is, InTurn is ∧ (s.queue m).sent.map some = is.map fun i => fragments[i]?

/-- The manager remembers the MSDU of the fragment that is acknowledged, if more fragments
follow, and an MSDU that it begins to fragment has at most 256 fragments. -/
def Remembers (s : FrameExchangeManagers L ι) : FragmentEvent L ι → Prop
  | .startFrameExchange _ m _ => (s.queue m).fragment.isNone = true →
    s.rsm.needFragmentation (s.queue m).msdu = true → s.rsm.getNFragments (s.queue m).msdu ≤ 256
  | .receivedNormalAck link => ∀ e ∈ (s.fem link).mpdu, e.2 = true →
    ∀ fragment ∈ (s.queue e.1).fragment, fragment.isMoreFragments = true →
      (s.fem link).fragmentedPacket = some (s.queue e.1).msdu.packet
  | _ => True

instance Remembers.decidable (s : FrameExchangeManagers L ι) :
    (event : FragmentEvent L ι) → Decidable (s.Remembers event)
  | .startFrameExchange _ m _ => inferInstanceAs (Decidable ((s.queue m).fragment.isNone = true →
      s.rsm.needFragmentation (s.queue m).msdu = true →
        s.rsm.getNFragments (s.queue m).msdu ≤ 256))
  | .receivedNormalAck link => inferInstanceAs (Decidable (∀ e ∈ (s.fem link).mpdu, e.2 = true →
      ∀ fragment ∈ (s.queue e.1).fragment, fragment.isMoreFragments = true →
        (s.fem link).fragmentedPacket = some (s.queue e.1).msdu.packet))
  | .sendMpdu _ | .missedResponse _ | .drop _ => inferInstanceAs (Decidable True)

/-- The fragment in the queue is a piece of the MSDU, whose turn it is, and the next one
follows if it has been sent. -/
def Fragmented (rsm : WifiRemoteStationManager) (queued : QueuedMsdu) (isSent : Prop) : Prop :=
  match queued.fragment with
  | none => queued.sent = []
  | some fragment => rsm.needFragmentation queued.msdu = true ∧
    rsm.getNFragments queued.msdu ≤ 256 ∧ ∃ sequenceNumber i is,
      fragment = rsm.piece queued.msdu sequenceNumber i ∧ i < rsm.getNFragments queued.msdu ∧
      (∀ j ∈ is, j < rsm.getNFragments queued.msdu) ∧ InTurn is ∧ Follows is i ∧
      (isSent → Follows is (i + 1)) ∧ queued.sent = is.map (rsm.piece queued.msdu sequenceNumber)

theorem Fragmented.mono (h : Fragmented rsm queued P) (hPQ : Q → P) : Fragmented rsm queued Q := by
  unfold Fragmented at h ⊢
  split at h
  next => exact h
  next =>
    obtain ⟨hneed, hle, seq, i, is, hf, hi, his, hturn, hfollows, hnext, hsent⟩ := h
    exact ⟨hneed, hle, seq, i, is, hf, hi, his, hturn, hfollows, fun hq => hnext (hPQ hq), hsent⟩

/-- What is sent are pieces in turn. -/
theorem Fragmented.sendsInPieces (h : Fragmented rsm queued P) (hne : queued.sent ≠ []) :
    ∃ fragments, rsm.IsFragmentation queued.msdu fragments ∧
      ∃ is, InTurn is ∧ queued.sent.map some = is.map fun i => fragments[i]? := by
  unfold Fragmented at h
  split at h
  next => exact absurd h hne
  next =>
    obtain ⟨hneed, hle, seq, i, is, -, -, his, hturn, -, -, hsent⟩ := h
    refine ⟨rsm.pieces queued.msdu seq, isFragmentation_pieces hneed hle, is, hturn, ?_⟩
    rw [hsent, List.map_map, List.map_inj_left]
    intro j hj
    simp [pieces, his j hj]

/-- The first fragment is piece `0`. -/
theorem Fragmented.first (h : Fragmented rsm queued P) (hnone : queued.fragment.isNone = true)
    (hneed : rsm.needFragmentation queued.msdu = true)
    (hle : rsm.getNFragments queued.msdu ≤ 256) {fragment : Fragment}
    (hfragment : fragment = rsm.piece queued.msdu sequenceNumber 0) (hQ : ¬ Q) :
    Fragmented rsm { queued with fragment := some fragment } Q := by
  have hsent : queued.sent = [] := by
    rw [Option.isNone_iff_eq_none] at hnone
    unfold Fragmented at h
    rwa [hnone] at h
  exact ⟨hneed, hle, sequenceNumber, 0, [], hfragment, (two_le_getNFragments hneed).le, by simp,
    .nil, rfl, fun hq => absurd hq hQ, hsent⟩

/-- Sending the fragment. -/
theorem Fragmented.send (h : Fragmented rsm queued P) :
    Fragmented rsm { queued with sent := queued.sent ++ queued.fragment.toList } Q := by
  unfold Fragmented at h ⊢
  cases hfragment : queued.fragment with
  | none =>
    rw [hfragment] at h
    simpa using h
  | some fragment =>
    rw [hfragment] at h
    obtain ⟨hneed, hle, seq, i, is, hf, hi, his, hturn, hfollows, -, hsent⟩ := h
    refine ⟨hneed, hle, seq, i, is ++ [i], hf, hi, ?_, hturn.snoc hfollows,
      follows_snoc.2 (.inl rfl), fun _ => follows_snoc.2 (.inr rfl), ?_⟩
    · intro j hj
      rcases List.mem_append.1 hj with hj | hj
      · exact his j hj
      · rwa [List.mem_singleton.1 hj]
    · simp [hsent, hf]

/-- The acknowledgment of a fragment that has been sent. -/
theorem Fragmented.acknowledge (h : Fragmented rsm queued P) (hP : P)
    {fragmentedPacket : Option Packet}
    (hpacket : ∀ fragment, queued.fragment = some fragment → fragment.isMoreFragments = true →
      fragmentedPacket = some queued.msdu.packet) (hQ : ¬ Q) :
    Fragmented rsm (FrameExchangeManagers.acknowledge fragmentedPacket queued) Q := by
  unfold FrameExchangeManagers.acknowledge
  cases hfragment : queued.fragment with
  | none =>
    unfold Fragmented at h ⊢
    simpa [hfragment] using h
  | some fragment =>
    by_cases hmore : fragment.isMoreFragments = true
    · rw [hpacket fragment hfragment hmore]
      unfold Fragmented at h
      rw [hfragment] at h
      obtain ⟨hneed, hle, seq, i, is, rfl, hi, his, hturn, -, hnext, hsent⟩ := h
      have hlast : rsm.isLastFragment queued.msdu i = false := by
        rw [← Bool.not_eq_true']
        exact hmore
      have hlt := (isLastFragment_iff hi).1 hlast
      simp only [hmore, if_true]
      rw [getNextFragment_piece hle hlt]
      exact ⟨hneed, hle, seq, i + 1, is, rfl, hlt, his, hturn, hnext hP,
        fun hq => absurd hq hQ, hsent⟩
    · have hmono := h.mono (Q := Q) fun hq => absurd hq hQ
      unfold Fragmented at hmono ⊢
      rw [hfragment] at hmono
      simp only [hmore, Bool.false_eq_true, if_false]
      exact hmono

/-! ## Runs -/

/-- A frame of the MSDU has been sent, and its acknowledgment is awaited. -/
def IsSent (s : FrameExchangeManagers L ι) (m : ι) : Prop :=
  ∃ l, (s.fem l).mpdu = some (m, true)

/-- The fragments are pieces, and an MSDU is exchanged on one link at a time. -/
structure FragmentInv (s : FrameExchangeManagers L ι) : Prop where
  fragmented : ∀ m, Fragmented s.rsm (s.queue m) (s.IsSent m)
  exclusive : ∀ l l' m b b', (s.fem l).mpdu = some (m, b) → (s.fem l').mpdu = some (m, b') → l = l'

theorem FragmentInv.init (rsm : WifiRemoteStationManager) (msdu : ι → Msdu) :
    FragmentInv (init rsm msdu : FrameExchangeManagers L ι) where
  fragmented _ := rfl
  exclusive _ _ _ _ _ h := by cases h

theorem FragmentInv.sendsInPieces (h : FragmentInv s) : SendsInPieces s :=
  fun m => (h.fragmented m).sendsInPieces

/-- Frames that are no longer awaited, and a changed MSDU. -/
theorem FragmentInv.of_eq {t : FrameExchangeManagers L ι} (h : FragmentInv s) (m : ι)
    (hrsm : t.rsm = s.rsm) (hqueue : ∀ x, x ≠ m → t.queue x = s.queue x)
    (hm : Fragmented s.rsm (t.queue m) (t.IsSent m))
    (hfem : ∀ l x b, x ≠ m → (t.fem l).mpdu = some (x, b) → (s.fem l).mpdu = some (x, b))
    (hexclusive : ∀ l l' b b', (t.fem l).mpdu = some (m, b) → (t.fem l').mpdu = some (m, b') →
      l = l') : FragmentInv t where
  fragmented x := by
    rw [hrsm]
    rcases eq_or_ne x m with rfl | hx
    · exact hm
    · rw [hqueue x hx]
      exact (h.fragmented x).mono fun ⟨l, hl⟩ => ⟨l, hfem l x true hx hl⟩
  exclusive l l' x b b' hl hl' := by
    rcases eq_or_ne x m with rfl | hx
    · exact hexclusive l l' b b' hl hl'
    · exact h.exclusive l l' x b b' (hfem l x b hx hl) (hfem l' x b' hx hl')

/-- The links that have an exchange, with the MSDU of each, after a change of one of them. -/
theorem mpdu_modifyFem {f : FrameExchangeManager ι → FrameExchangeManager ι} {l : L}
    {e : ι × Bool} (h : ((s.modifyFem link f).fem l).mpdu = some e) :
    l = link ∧ (f (s.fem link)).mpdu = some e ∨ l ≠ link ∧ (s.fem l).mpdu = some e := by
  rcases eq_or_ne l link with rfl | hl
  · rw [fem_modifyFem_self] at h
    exact .inl ⟨rfl, h⟩
  · rw [fem_modifyFem_of_ne s hl] at h
    exact .inr ⟨hl, h⟩

theorem mpdu_getFirstFragmentIfNeeded (l : L) :
    ((s.getFirstFragmentIfNeeded link m sequenceNumber).fem l).mpdu = (s.fem l).mpdu := by
  unfold getFirstFragmentIfNeeded
  split
  · rw [fem_modifyQueue]
    rcases eq_or_ne l link with rfl | hl
    · rw [fem_modifyFem_self]
    · rw [fem_modifyFem_of_ne s hl]
  · rfl

theorem Fragmented.getFirstFragmentIfNeeded (h : Fragmented s.rsm (s.queue m) P)
    (hok : s.Remembers (.startFrameExchange link m sequenceNumber)) (hQ : ¬ Q) :
    Fragmented s.rsm ((s.getFirstFragmentIfNeeded link m sequenceNumber).queue m) Q := by
  unfold FrameExchangeManagers.getFirstFragmentIfNeeded
  split
  next hneed =>
    rw [Bool.and_eq_true] at hneed
    obtain ⟨hnone, hneed⟩ := hneed
    have hlast : s.rsm.isLastFragment (s.queue m).msdu 0 = false :=
      (isLastFragment_iff (two_le_getNFragments hneed).le).2 (two_le_getNFragments hneed)
    have hfragment : s.firstFragment (s.queue m).msdu sequenceNumber =
        s.rsm.piece (s.queue m).msdu sequenceNumber 0 := by
      rw [firstFragment, piece, getFragmentOffset, Nat.zero_mul, hlast]
      rfl
    rw [queue_modifyQueue_self]
    exact h.first hnone hneed (hok hnone hneed) hfragment hQ
  next => exact h.mono fun hq => absurd hq hQ

theorem FragmentInv.startFrameExchange (h : FragmentInv s)
    (hok : s.Remembers (.startFrameExchange link m sequenceNumber)) :
    FragmentInv (s.startFrameExchange link m sequenceNumber) := by
  unfold FrameExchangeManagers.startFrameExchange
  split
  next hcond =>
    obtain ⟨-, -, hfree⟩ := hcond
    have hother : ∀ l b, (s.fem l).mpdu ≠ some (m, b) := by
      intro l b hl
      have := hfree l
      rw [hl] at this
      exact of_decide_eq_true this rfl
    refine h.of_eq m ?_ ?_ ?_ ?_ ?_
    · unfold FrameExchangeManagers.getFirstFragmentIfNeeded
      split <;> rfl
    · intro x hx
      change (s.getFirstFragmentIfNeeded link m sequenceNumber).queue x = _
      unfold FrameExchangeManagers.getFirstFragmentIfNeeded
      split
      · exact queue_modifyQueue_of_ne _ hx _
      · rfl
    · refine (h.fragmented m).getFirstFragmentIfNeeded hok ?_
      rintro ⟨l, hl⟩
      rcases mpdu_modifyFem hl with ⟨-, hl⟩ | ⟨-, hl⟩
      · cases hl
      · rw [mpdu_getFirstFragmentIfNeeded] at hl
        exact hother l true hl
    · intro l x b hx hl
      rcases mpdu_modifyFem hl with ⟨-, hl⟩ | ⟨-, hl⟩
      · cases hl
        exact absurd rfl hx
      · rwa [mpdu_getFirstFragmentIfNeeded] at hl
    · intro l l' b b' hl hl'
      rcases mpdu_modifyFem hl with ⟨rfl, -⟩ | ⟨-, hl⟩
      · rcases mpdu_modifyFem hl' with ⟨rfl, -⟩ | ⟨-, hl'⟩
        · rfl
        · rw [mpdu_getFirstFragmentIfNeeded] at hl'
          exact absurd hl' (hother l' b')
      · rw [mpdu_getFirstFragmentIfNeeded] at hl
        exact absurd hl (hother l b)
  next => exact h

theorem FragmentInv.sendMpdu (h : FragmentInv s) (link : L) : FragmentInv (s.sendMpdu link) := by
  unfold FrameExchangeManagers.sendMpdu
  split
  next m b hmpdu =>
    -- the exchange of the link stays, with its frame sent
    have hkeep : ∀ l x b', ((s.modifyFem link fun fem =>
        { fem with mpdu := some (m, true) }).fem l).mpdu = some (x, b') →
          ∃ b'', (s.fem l).mpdu = some (x, b'') ∧ (x ≠ m → b'' = b') := by
      intro l x b' hl
      rcases mpdu_modifyFem hl with ⟨rfl, hl⟩ | ⟨-, hl⟩
      · cases hl
        exact ⟨b, hmpdu, fun hx => absurd rfl hx⟩
      · exact ⟨b', hl, fun _ => rfl⟩
    refine h.of_eq m rfl (fun x hx => queue_modifyQueue_of_ne _ hx _) ?_ ?_ ?_
    · rw [queue_modifyQueue_self]
      exact (h.fragmented m).send
    · intro l x b' hx hl
      obtain ⟨b'', hl, hb⟩ := hkeep l x b' hl
      rw [hl, hb hx]
    · intro l l' b₁ b₂ hl hl'
      obtain ⟨b₁', hl, -⟩ := hkeep l m b₁ hl
      obtain ⟨b₂', hl', -⟩ := hkeep l' m b₂ hl'
      exact h.exclusive l l' m b₁' b₂' hl hl'
  next => exact h

/-- A link without an exchange after the step. -/
theorem mpdu_clear {l : L} {e : ι × Bool} {t : FrameExchangeManagers L ι}
    (h : ((t.modifyFem link fun fem => { fem with mpdu := none }).fem l).mpdu = some e) :
    l ≠ link ∧ (t.fem l).mpdu = some e := by
  rcases mpdu_modifyFem h with ⟨-, hl⟩ | hl
  · cases hl
  · exact hl

theorem FragmentInv.receivedNormalAck (h : FragmentInv s)
    (hok : s.Remembers (.receivedNormalAck link)) : FragmentInv (s.receivedNormalAck link) := by
  unfold FrameExchangeManagers.receivedNormalAck
  split
  next m hmpdu =>
    refine h.of_eq m rfl (fun x hx => queue_modifyQueue_of_ne _ hx _) ?_ ?_ ?_
    · change Fragmented s.rsm ((s.modifyQueue m _).queue m) _
      rw [queue_modifyQueue_self]
      refine (h.fragmented m).acknowledge ⟨link, hmpdu⟩ (hok (m, true) hmpdu rfl) ?_
      rintro ⟨l, hl⟩
      obtain ⟨hne, hl⟩ := mpdu_clear hl
      exact hne (h.exclusive l link m true true hl hmpdu)
    · exact fun l x b _ hl => (mpdu_clear hl).2
    · exact fun l l' b b' hl hl' => h.exclusive l l' m b b' (mpdu_clear hl).2 (mpdu_clear hl').2
  next => exact h

/-- The fragments stay right along a step that remembers them. -/
theorem FragmentInv.step (h : FragmentInv s) {event : FragmentEvent L ι}
    (hok : s.Remembers event) : FragmentInv (s.step event) := by
  cases event with
  | startFrameExchange link m sequenceNumber => exact h.startFrameExchange hok
  | sendMpdu link => exact h.sendMpdu link
  | receivedNormalAck link => exact h.receivedNormalAck hok
  | missedResponse link =>
    exact ⟨fun m => (h.fragmented m).mono fun ⟨l, hl⟩ => ⟨l, (mpdu_clear hl).2⟩,
      fun l l' m b b' hl hl' => h.exclusive l l' m b b' (mpdu_clear hl).2 (mpdu_clear hl').2⟩
  | drop m =>
    rw [FrameExchangeManagers.step]
    refine h.of_eq m rfl (fun x hx => queue_modifyQueue_of_ne _ hx _) ?_
      (fun _ _ _ _ hl => hl) fun l l' b b' hl hl' => h.exclusive l l' m b b' hl hl'
    rw [queue_modifyQueue_self]
    exact h.fragmented m

/-- The threshold and the MSDUs stay as they are. -/
theorem msdu_step (s : FrameExchangeManagers L ι) (event : FragmentEvent L ι) :
    (s.step event).rsm = s.rsm ∧ ∀ m, ((s.step event).queue m).msdu = (s.queue m).msdu := by
  have hmodify : ∀ (t : FrameExchangeManagers L ι) (m : ι) (f : QueuedMsdu → QueuedMsdu),
      (∀ queued, (f queued).msdu = queued.msdu) →
        ∀ x, ((t.modifyQueue m f).queue x).msdu = (t.queue x).msdu := by
    intro t m f hf x
    rcases eq_or_ne x m with rfl | hx
    · rw [queue_modifyQueue_self, hf]
    · rw [queue_modifyQueue_of_ne t hx]
  cases event with
  | startFrameExchange link m sequenceNumber =>
    rw [step, startFrameExchange, getFirstFragmentIfNeeded]
    split
    · split
      · refine ⟨rfl, fun x => ?_⟩
        rw [queue_modifyFem, hmodify]
        · rfl
        · exact fun _ => rfl
      · exact ⟨rfl, fun _ => rfl⟩
    · exact ⟨rfl, fun _ => rfl⟩
  | sendMpdu link =>
    rw [step, sendMpdu]
    split
    · refine ⟨rfl, hmodify _ _ _ ?_⟩
      exact fun _ => rfl
    · exact ⟨rfl, fun _ => rfl⟩
  | receivedNormalAck link =>
    rw [step, receivedNormalAck]
    split
    · refine ⟨rfl, hmodify s _ _ fun queued => ?_⟩
      unfold acknowledge
      repeat' split
      all_goals rfl
    · exact ⟨rfl, fun _ => rfl⟩
  | missedResponse link => exact ⟨rfl, fun _ => rfl⟩
  | drop m =>
    rw [step]
    refine ⟨rfl, hmodify s m _ ?_⟩
    exact fun _ => rfl

theorem msdu_run (rsm : WifiRemoteStationManager) (msdu : ι → Msdu)
    (events : List (FragmentEvent L ι)) :
    (run step (init rsm msdu) events).rsm = rsm ∧
      ∀ m, ((run step (init rsm msdu) events).queue m).msdu = msdu m := by
  have hstep : ∀ (s : FrameExchangeManagers L ι) (event : FragmentEvent L ι),
      (s.rsm = rsm ∧ ∀ m, (s.queue m).msdu = msdu m) →
        (s.step event).rsm = rsm ∧ ∀ m, ((s.step event).queue m).msdu = msdu m := by
    rintro s event ⟨hrsm, hmsdu⟩
    exact ⟨(msdu_step s event).1.trans hrsm, fun m => ((msdu_step s event).2 m).trans (hmsdu m)⟩
  exact run_of_step hstep ⟨rfl, fun _ => rfl⟩ events

/-- The fragments are sent in turn along a run in which the MSDU of an acknowledged fragment
is remembered. -/
theorem sendsInPieces_of_remembers (rsm : WifiRemoteStationManager) (msdu : ι → Msdu)
    (events : List (FragmentEvent L ι)) (h : Each step Remembers (init rsm msdu) events) :
    Always step SendsInPieces (init rsm msdu : FrameExchangeManagers L ι) events :=
  (h.always (fun _ _ hinv hok => hinv.step hok) (FragmentInv.init rsm msdu)).mono
    fun _ hinv => hinv.sendsInPieces

/-- Two MSDUs from one station to another, of 300 and 230 bytes. -/
def twoMsdus (m : Bool) : Msdu where
  header := { addr1 := .station 1, addr2 := .station 2, sequenceNumber := 0 }
  packet := List.replicate (if m then 230 else 300) (if m then 1 else 0)
  length_lt := by
    rw [List.length_replicate]
    cases m <;> decide

/-- The threshold is the lowest. -/
def lowestThreshold : WifiRemoteStationManager :=
  .doSetFragmentationThreshold 0

theorem capacity_twoMsdus (m : Bool) : lowestThreshold.capacity (twoMsdus m) = 228 :=
  rfl

theorem getNFragments_twoMsdus (m : Bool) : lowestThreshold.getNFragments (twoMsdus m) = 2 := by
  rw [getNFragments, capacity_twoMsdus, twoMsdus, List.length_replicate]
  cases m <;> rfl

/-- The first fragment is sent twice, and the second one once. -/
theorem sendsInPieces_retransmission :
    Always step SendsInPieces (init lowestThreshold twoMsdus : FrameExchangeManagers Unit Bool)
      [.startFrameExchange () false 0, .sendMpdu (), .missedResponse (),
        .startFrameExchange () false 0, .sendMpdu (), .receivedNormalAck (),
        .startFrameExchange () false 0, .sendMpdu (), .receivedNormalAck ()] :=
  sendsInPieces_of_remembers _ _ _ (by decide +kernel)

/-- Another MSDU is fragmented before the first fragment of this one is acknowledged, and the
next fragment is cut from it. -/
theorem not_sendsInPieces :
    ¬ ∀ events, Always step SendsInPieces
      (init lowestThreshold twoMsdus : FrameExchangeManagers Unit Bool) events := by
  intro h
  let events : List (FragmentEvent Unit Bool) := [.startFrameExchange () false 0,
    .missedResponse (), .startFrameExchange () true 1, .missedResponse (),
    .startFrameExchange () false 0, .sendMpdu (), .receivedNormalAck (),
    .startFrameExchange () false 0, .sendMpdu ()]
  have hlast := (h events).last false
  have hshort : (((run step (init lowestThreshold twoMsdus) events).queue false).sent.any
      fun f => f.packet.length = 2) = true := by
    decide +kernel
  obtain ⟨hrsm, hmsdu⟩ := msdu_run lowestThreshold twoMsdus events
  obtain ⟨f, hf, hlen⟩ := List.any_eq_true.1 hshort
  obtain ⟨fragments, hfragments, is, -, hsent⟩ := hlast (List.ne_nil_of_mem hf)
  rw [hrsm, hmsdu] at hfragments
  have hmem : some f ∈ is.map fun i => fragments[i]? := hsent ▸ List.mem_map_of_mem hf
  obtain ⟨i, -, hi⟩ := List.mem_map.1 hmem
  obtain ⟨hlt, rfl⟩ := List.getElem?_eq_some_iff.1 hi
  -- fragments of the first MSDU have 228 bytes, or 72, or none
  have hsize := congrArg List.length (hfragments.asGiven i hlt).1
  rw [of_decide_eq_true hlen, createFragment, List.length_take, List.length_drop,
    getFragmentSize, getFragmentOffset, getNFragments_twoMsdus, capacity_twoMsdus] at hsize
  have hlength : (twoMsdus false).packet.length = 300 := List.length_replicate
  rw [hlength] at hsize
  split_ifs at hsize <;> omega

end FrameExchangeManagers

end Ns3Pedca
