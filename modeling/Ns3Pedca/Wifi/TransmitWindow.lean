import Ns3Pedca.Runs
import Ns3Pedca.Wifi.OriginatorBlockAckAgreement

/-!
# The run of a transmit window

The window of an originator is told of MPDUs that are transmitted, acknowledged and discarded. The
counts that the sequence numbers stand for are kept beside it : those transmitted, those
acknowledged, and `floor`, the count after every one that was discarded or skipped. A window
`Shows` a start and a set of counts if its first bit is for the start, and its bits are set for
the counts in the set.

In runs in which every count is less than half the number space away from the start, the window
shows the first count from the floor on that is not acknowledged (`Tracks`, `Tracks.step`), and an
acknowledged count is in it or before it, because the window ends after every count that was
transmitted.
-/

namespace Ns3Pedca

namespace BlockAckWindow

variable (w : BlockAckWindow)

/-- The loop of `AdvanceTxWindow` ends after `k` rounds. -/
def EndsAfter (k : ℕ) : Prop :=
  (∀ i < k, ((advance · 1)^[i] w).getAt 0 = true) ∧ ((advance · 1)^[k] w).getAt 0 = false

/-- The first bit is for `start`, and the bits are set for the counts that are acknowledged. -/
structure Shows (start : ℕ) (acked : List ℕ) : Prop where
  winStart : w.winStart = .ofNat start
  getAt : ∀ d < w.getWinSize, w.getAt d = true ↔ start + d ∈ acked

variable {w} {start d n : ℕ} {acked : List ℕ}

theorem advanceTxWindowLoop_eq (hend : (advanceTxWindowLoop n w).getAt 0 = false) :
    ∃ k ≤ n, w.EndsAfter k ∧ advanceTxWindowLoop n w = (advance · 1)^[k] w := by
  induction n generalizing w with
  | zero => exact ⟨0, le_rfl, ⟨fun i hi => absurd hi (Nat.not_lt_zero i), hend⟩, rfl⟩
  | succ n ih =>
    rw [advanceTxWindowLoop] at hend ⊢
    by_cases hhead : w.getAt 0 = true
    · rw [if_pos hhead] at hend ⊢
      obtain ⟨k, hk, ⟨hrounds, hlast⟩, heq⟩ := ih hend
      refine ⟨k + 1, Nat.succ_le_succ hk, ⟨?_, hlast⟩, heq⟩
      rintro (_ | i) hi
      · exact hhead
      · exact hrounds i (Nat.lt_of_succ_lt_succ hi)
    · rw [if_neg hhead] at hend ⊢
      exact ⟨0, Nat.zero_le _, ⟨fun i hi => absurd hi (Nat.not_lt_zero i), hend⟩, rfl⟩

/-- `AdvanceTxWindow` terminates, after at most a round for each bit. -/
theorem endsAfter_advanceTxWindow (hsize : 0 < w.getWinSize) :
    ∃ k ≤ w.getWinSize, w.EndsAfter k ∧ w.advanceTxWindow = (advance · 1)^[k] w :=
  advanceTxWindowLoop_eq (getAt_advanceTxWindow hsize)

theorem ofNat_add_ofNat (start count : ℕ) :
    SeqNo.ofNat ((SeqNo.ofNat start : ℕ) + count) = .ofNat (start + count) :=
  Fin.ext (Nat.mod_add_mod start seqnoSpaceSize count)

theorem shows_init (startingSeq : SeqNo) (winSize : ℕ) :
    (init startingSeq winSize).Shows startingSeq [] where
  winStart := Fin.ext (Nat.mod_eq_of_lt startingSeq.isLt).symm
  getAt d _ := by simp

/-- Positions that enter are not set : no count beyond the window is acknowledged. -/
theorem Shows.advance (h : w.Shows start acked) (hlt : ∀ u ∈ acked, u < start + w.getWinSize)
    (count : ℕ) : (w.advance count).Shows (start + count) acked where
  winStart := by rw [winStart_advance, h.winStart, ofNat_add_ofNat]
  getAt d hd := by
    rw [getWinSize_advance] at hd
    rw [getAt_advance hd, show start + count + d = start + (d + count) by omega]
    split_ifs with hin
    · exact h.getAt _ hin
    · refine ⟨False.elim, fun hmem => ?_⟩
      have hbound := hlt _ hmem
      omega

theorem Shows.setAt (h : w.Shows start acked) (hd : d < w.getWinSize) :
    (w.setAt d).Shows start ((start + d) :: acked) where
  winStart := h.winStart
  getAt d' hd' := by
    rw [getWinSize_setAt] at hd'
    rw [getAt_setAt hd hd', Bool.or_eq_true, decide_eq_true_iff, h.getAt d' hd', List.mem_cons,
      Nat.add_left_cancel_iff]

/-- The loop moves the start past counts that are acknowledged only. -/
theorem Shows.advanceTxWindowLoop (h : w.Shows start acked)
    (hlt : ∀ u ∈ acked, u < start + w.getWinSize) (hsize : 0 < w.getWinSize) :
    ∃ start', (BlockAckWindow.advanceTxWindowLoop n w).Shows start' acked ∧ start ≤ start' ∧
      ∀ u, start ≤ u → u < start' → u ∈ acked := by
  induction n generalizing w start with
  | zero => exact ⟨start, h, le_rfl, fun u hle hgt => absurd hle (Nat.not_le.2 hgt)⟩
  | succ n ih =>
    rw [BlockAckWindow.advanceTxWindowLoop]
    split_ifs with hhead
    · obtain ⟨start', hshows, hle, hacked⟩ := ih (h.advance hlt 1)
        (fun u hu => by
          rw [getWinSize_advance]
          exact (hlt u hu).trans_le (by omega)) (by rwa [getWinSize_advance])
      refine ⟨start', hshows, by omega, fun u hu hu' => ?_⟩
      rcases Nat.eq_or_lt_of_le hu with rfl | hgt
      · exact (h.getAt 0 hsize).1 hhead
      · exact hacked u hgt hu'
    · exact ⟨start, h, le_rfl, fun u hle hgt => absurd hle (Nat.not_le.2 hgt)⟩

/-- `AdvanceTxWindow` moves the start to the first count that is not acknowledged. -/
theorem Shows.advanceTxWindow (h : w.Shows start acked)
    (hlt : ∀ u ∈ acked, u < start + w.getWinSize) (hsize : 0 < w.getWinSize) :
    ∃ start', w.advanceTxWindow.Shows start' acked ∧
      IsLeast {u | start ≤ u ∧ u ∉ acked} start' := by
  obtain ⟨start', hshows, hle, hacked⟩ :=
    h.advanceTxWindowLoop (n := w.getWinSize) hlt hsize
  have hsize' : 0 < w.advanceTxWindow.getWinSize := by rwa [getWinSize_advanceTxWindow]
  refine ⟨start', hshows, ⟨hle, fun hmem => ?_⟩, ?_⟩
  · have hhead : w.advanceTxWindow.getAt 0 = true := (hshows.getAt 0 hsize').2 hmem
    exact absurd hhead (Bool.eq_false_iff.1 (getAt_advanceTxWindow hsize))
  · rintro u ⟨hu, hnot⟩
    exact Nat.le_of_not_lt fun hlt' => hnot (hacked u hu hlt')

end BlockAckWindow

/-- What the window is told of, with the count of the MPDU. -/
inductive TxWindowCall
  | transmitted (number : ℕ)
  | acked (number : ℕ)
  | discarded (number : ℕ)
  deriving DecidableEq

/-- The count of the MPDU. -/
def TxWindowCall.number : TxWindowCall → ℕ
  | .transmitted number => number
  | .acked number => number
  | .discarded number => number

/-- The first number from `n` on that is not in the list, searched for in so many rounds. -/
def firstUnacked (acked : List ℕ) : ℕ → ℕ → ℕ
  | 0, n => n
  | rounds + 1, n => if n ∈ acked then firstUnacked acked rounds (n + 1) else n

/-- The transmit window of an agreement, and what it was told of. -/
structure TransmitWindow where
  startingSeq : SeqNo
  txWindow : BlockAckWindow
  floor : ℕ
  transmitted : List ℕ := []
  acked : List ℕ := []

namespace TransmitWindow

/-- After `InitTxWindow`. -/
def init (startingSeq : SeqNo) (bufferSize : ℕ) : TransmitWindow where
  startingSeq := startingSeq
  txWindow := .init startingSeq bufferSize
  floor := startingSeq

variable (s : TransmitWindow)

/-- `GetStartingSequence`. -/
def getStartingSequence : SeqNo :=
  if s.txWindow.getWinSize = 0 then s.startingSeq else s.txWindow.winStart

/-- The first count from the floor on that is not acknowledged. -/
def start : ℕ :=
  firstUnacked s.acked s.acked.length s.floor

/-- One call. A transmission beyond the window skips what the window leaves behind. -/
def step : TxWindowCall → TransmitWindow
  | .transmitted number =>
    { s with
      txWindow := s.txWindow.notifyTransmittedMpdu (.ofNat number)
      floor := max s.floor (number + 1 - s.txWindow.getWinSize)
      transmitted := number :: s.transmitted }
  | .acked number =>
    { s with
      txWindow := s.txWindow.notifyAckedMpdu (.ofNat number)
      acked := number :: s.acked }
  | .discarded number =>
    { s with
      txWindow := s.txWindow.notifyDiscardedMpdu (.ofNat number)
      floor := max s.floor (number + 1) }

/-- An MPDU that is acknowledged was transmitted. -/
def WasTransmitted : TxWindowCall → Prop
  | .acked number => number ∈ s.transmitted
  | _ => True

instance wasTransmitted_decidable : ∀ call, Decidable (s.WasTransmitted call)
  | .transmitted _ => inferInstanceAs (Decidable True)
  | .acked _ => inferInstanceAs (Decidable (_ ∈ _))
  | .discarded _ => inferInstanceAs (Decidable True)

/-- The MPDU is less than half the number space away from the start, and was transmitted if it is
acknowledged. -/
def StepOk (call : TxWindowCall) : Prop :=
  s.start < call.number + seqnoSpaceHalfSize ∧ call.number < s.start + seqnoSpaceHalfSize ∧
    s.WasTransmitted call

instance stepOk_decidable (call : TxWindowCall) : Decidable (s.StepOk call) :=
  inferInstanceAs (Decidable (_ ∧ _ ∧ _))

/-- What the calls keep. -/
structure Tracks (winSize : ℕ) (s : TransmitWindow) : Prop where
  size : s.txWindow.getWinSize = winSize
  shows : s.txWindow.Shows s.start s.acked
  transmitted : ∀ u ∈ s.transmitted, u < s.start + winSize
  acked : ∀ u ∈ s.acked, u ∈ s.transmitted

/-! ## The first count that is not acknowledged -/

theorem firstUnacked_spec (acked : List ℕ) (rounds n : ℕ) :
    n ≤ firstUnacked acked rounds n ∧ firstUnacked acked rounds n ≤ n + rounds ∧
      (∀ u, n ≤ u → u < firstUnacked acked rounds n → u ∈ acked) ∧
      (firstUnacked acked rounds n < n + rounds → firstUnacked acked rounds n ∉ acked) := by
  induction rounds generalizing n with
  | zero =>
    refine ⟨le_rfl, le_rfl, fun u hle hlt => ?_, fun hlt => absurd hlt (lt_irrefl _)⟩
    exact absurd hle (Nat.not_le.2 hlt)
  | succ rounds ih =>
    rw [firstUnacked]
    split_ifs with hmem
    · obtain ⟨hle, hle', hacked, hnot⟩ := ih (n + 1)
      refine ⟨by omega, by omega, fun u hu hu' => ?_, fun hlt => hnot (by omega)⟩
      rcases Nat.eq_or_lt_of_le hu with rfl | hgt
      · exact hmem
      · exact hacked u hgt hu'
    · exact ⟨le_rfl, by omega, fun u hle hlt => absurd hle (Nat.not_le.2 hlt), fun _ => hmem⟩

/-- A round for each number of the list is enough : they are not all in it, and the one after them
too. -/
theorem isLeast_start : IsLeast {u | s.floor ≤ u ∧ u ∉ s.acked} s.start := by
  obtain ⟨hle, hle', hacked, hnot⟩ := firstUnacked_spec s.acked s.acked.length s.floor
  refine ⟨⟨hle, fun hmem => ?_⟩, fun u hu => Nat.le_of_not_lt fun hlt => hu.2 (hacked u hu.1 hlt)⟩
  have hall : s.start = s.floor + s.acked.length :=
    le_antisymm hle' (Nat.le_of_not_lt fun hlt => hnot hlt hmem)
  have hsub : List.range' s.floor (s.acked.length + 1) ⊆ s.acked := by
    intro u hu
    obtain ⟨hu₁, hu₂⟩ := List.mem_range'_1.1 hu
    rcases Nat.lt_or_ge u s.start with hlt | hge
    · exact hacked u hu₁ hlt
    · rwa [show u = s.start by omega]
  have hlen := (List.subperm_of_subset List.nodup_range' hsub).length_le
  rw [List.length_range'] at hlen
  omega

variable {s} {m winSize number : ℕ} {startingSeq : SeqNo}

theorem start_eq (h : IsLeast {u | s.floor ≤ u ∧ u ∉ s.acked} m) : s.start = m :=
  s.isLeast_start.unique h

theorem floor_le_start : s.floor ≤ s.start :=
  s.isLeast_start.1.1

/-- Up to the start, the counts from the floor on are acknowledged. -/
theorem mem_acked (hle : s.floor ≤ number) (hlt : number < s.start) : number ∈ s.acked := by
  by_contra hnot
  exact absurd (s.isLeast_start.2 ⟨hle, hnot⟩) (Nat.not_le.2 hlt)

/-- The floor rises to somewhere before the start. -/
theorem isLeast_of_floor_le {f : ℕ} (h : f ≤ s.start) :
    IsLeast {u | max s.floor f ≤ u ∧ u ∉ s.acked} s.start :=
  ⟨⟨max_le floor_le_start h, s.isLeast_start.1.2⟩,
    fun _ hu => s.isLeast_start.2 ⟨(le_max_left _ _).trans hu.1, hu.2⟩⟩

theorem two_half : seqnoSpaceHalfSize + seqnoSpaceHalfSize = seqnoSpaceSize :=
  rfl

theorem getDistance_of_le {start : ℕ} (hle : start ≤ number)
    (hlt : number < start + seqnoSpaceHalfSize) :
    getDistance (.ofNat number) (.ofNat start) = number - start := by
  have htwo := two_half
  exact Circular.dist_of_le hle (hlt.trans (by omega))

theorem getDistance_of_lt {start : ℕ} (hlt : number < start)
    (hgt : start < number + seqnoSpaceHalfSize) :
    seqnoSpaceHalfSize ≤ getDistance (.ofNat number) (.ofNat start) := by
  have htwo := two_half
  have hdist : getDistance (.ofNat number) (.ofNat start) = seqnoSpaceSize - (start - number) :=
    Circular.dist_of_lt hlt (hgt.trans (by omega))
  omega

/-! ## One call -/

theorem tracks_init (startingSeq : SeqNo) (winSize : ℕ) :
    Tracks winSize (init startingSeq winSize) where
  size := BlockAckWindow.getWinSize_init startingSeq winSize
  shows := BlockAckWindow.shows_init startingSeq winSize
  transmitted _ hu := absurd hu List.not_mem_nil
  acked _ hu := absurd hu List.not_mem_nil

theorem Tracks.acked_lt (h : Tracks winSize s) :
    ∀ u ∈ s.acked, u < s.start + s.txWindow.getWinSize :=
  fun u hu => h.size.symm ▸ h.transmitted u (h.acked u hu)

/-- The window moves on past `m`, and the floor to there. -/
theorem Tracks.advance (h : Tracks winSize s) (hpos : 0 < winSize) (hle : s.start ≤ m) :
    ∃ start', (s.txWindow.advance (m - s.start)).advanceTxWindow.Shows start' s.acked ∧
      IsLeast {u | max s.floor m ≤ u ∧ u ∉ s.acked} start' := by
  have hshows := h.shows.advance h.acked_lt (m - s.start)
  rw [Nat.add_sub_cancel' hle] at hshows
  rw [max_eq_right (floor_le_start.trans hle)]
  refine hshows.advanceTxWindow (fun u hu => ?_) ?_
  · rw [BlockAckWindow.getWinSize_advance]
    exact (h.acked_lt u hu).trans_le (Nat.add_le_add_right hle _)
  · rwa [BlockAckWindow.getWinSize_advance, h.size]

/-- After a call, with the start that the window shows. -/
theorem tracks_of_shows {t : TransmitWindow} (hsize : t.txWindow.getWinSize = winSize)
    (hshows : t.txWindow.Shows m t.acked) (hleast : IsLeast {u | t.floor ≤ u ∧ u ∉ t.acked} m)
    (htransmitted : ∀ u ∈ t.transmitted, u < m + winSize)
    (hacked : ∀ u ∈ t.acked, u ∈ t.transmitted) (hle : s.start ≤ m) :
    Tracks winSize t ∧ s.start ≤ t.start := by
  obtain rfl := start_eq hleast
  exact ⟨⟨hsize, hshows, htransmitted, hacked⟩, hle⟩

theorem Tracks.step_transmitted (h : Tracks winSize s) (hpos : 0 < winSize)
    (hok : s.StepOk (.transmitted number)) : Tracks winSize (s.step (.transmitted number)) ∧
      s.start ≤ (s.step (.transmitted number)).start := by
  have hgt : s.start < number + seqnoSpaceHalfSize := hok.1
  have hlt : number < s.start + seqnoSpaceHalfSize := hok.2.1
  have hsize : (s.step (.transmitted number)).txWindow.getWinSize = winSize :=
    BlockAckWindow.getWinSize_notifyTransmittedMpdu.trans h.size
  -- the window is left as it is, and the floor stays behind its start
  have hstay : s.txWindow.notifyTransmittedMpdu (.ofNat number) = s.txWindow →
      number < s.start + winSize → Tracks winSize (s.step (.transmitted number)) ∧
        s.start ≤ (s.step (.transmitted number)).start := by
    intro hsame hin
    refine tracks_of_shows hsize ?_ (isLeast_of_floor_le ?_)
      (List.forall_mem_cons.2 ⟨hin, h.transmitted⟩)
      (fun u hu => List.mem_cons_of_mem _ (h.acked u hu)) le_rfl
    · change (s.txWindow.notifyTransmittedMpdu (.ofNat number)).Shows s.start s.acked
      rw [hsame]
      exact h.shows
    · rw [h.size]
      omega
  rcases Nat.lt_or_ge number s.start with hold | hnew
  · have hdist := getDistance_of_lt hold hgt
    rw [← h.shows.winStart] at hdist
    refine hstay ?_ (by omega)
    rw [BlockAckWindow.notifyTransmittedMpdu, if_pos hdist]
  · have hdist := getDistance_of_le hnew hlt
    rw [← h.shows.winStart] at hdist
    have hyoung : ¬ seqnoSpaceHalfSize ≤ number - s.start := by omega
    by_cases hbeyond : winSize ≤ number - s.start
    · obtain ⟨start', hshows, hleast⟩ :=
        h.advance (m := number + 1 - winSize) hpos (by omega)
      have hmax : number + 1 - winSize ≤ start' := (le_max_right _ _).trans hleast.1.1
      refine tracks_of_shows hsize ?_ ?_ (List.forall_mem_cons.2 ⟨by omega, fun u hu => ?_⟩)
        (fun u hu => List.mem_cons_of_mem _ (h.acked u hu)) (le_trans (by omega) hmax)
      · change (s.txWindow.notifyTransmittedMpdu (.ofNat number)).Shows start' s.acked
        rw [BlockAckWindow.notifyTransmittedMpdu, hdist, if_neg hyoung, h.size, if_pos hbeyond,
          show number - s.start - winSize + 1 = number + 1 - winSize - s.start by omega]
        exact hshows
      · change IsLeast {u | max s.floor (number + 1 - s.txWindow.getWinSize) ≤ u ∧ _} start'
        rw [h.size]
        exact hleast
      · exact (h.transmitted u hu).trans_le (by omega)
    · refine hstay ?_ (by omega)
      rw [BlockAckWindow.notifyTransmittedMpdu, hdist, if_neg hyoung, h.size, if_neg hbeyond]

theorem Tracks.step_discarded (h : Tracks winSize s) (hpos : 0 < winSize)
    (hok : s.StepOk (.discarded number)) : Tracks winSize (s.step (.discarded number)) ∧
      s.start ≤ (s.step (.discarded number)).start := by
  have hgt : s.start < number + seqnoSpaceHalfSize := hok.1
  have hlt : number < s.start + seqnoSpaceHalfSize := hok.2.1
  have hsize : (s.step (.discarded number)).txWindow.getWinSize = winSize :=
    BlockAckWindow.getWinSize_notifyDiscardedMpdu.trans h.size
  rcases Nat.lt_or_ge number s.start with hold | hnew
  · have hdist := getDistance_of_lt hold hgt
    rw [← h.shows.winStart] at hdist
    refine tracks_of_shows hsize ?_ (isLeast_of_floor_le hold) h.transmitted h.acked le_rfl
    change (s.txWindow.notifyDiscardedMpdu (.ofNat number)).Shows s.start s.acked
    rw [BlockAckWindow.notifyDiscardedMpdu, if_pos hdist]
    exact h.shows
  · have hdist := getDistance_of_le hnew hlt
    rw [← h.shows.winStart] at hdist
    obtain ⟨start', hshows, hleast⟩ := h.advance (m := number + 1) hpos (by omega)
    have hmax : number + 1 ≤ start' := (le_max_right _ _).trans hleast.1.1
    refine tracks_of_shows hsize ?_ hleast (fun u hu => ?_) h.acked (by omega)
    · change (s.txWindow.notifyDiscardedMpdu (.ofNat number)).Shows start' s.acked
      rw [BlockAckWindow.notifyDiscardedMpdu, hdist, if_neg (by omega),
        show number - s.start + 1 = number + 1 - s.start by omega]
      exact hshows
    · exact (h.transmitted u hu).trans_le (by omega)

/-- The index of an acknowledged MPDU is in the window : it was transmitted. -/
theorem Tracks.getDistance_lt (h : Tracks winSize s) (hok : s.StepOk (.acked number))
    (hyoung : getDistance (.ofNat number) s.txWindow.winStart < seqnoSpaceHalfSize) :
    s.start ≤ number ∧ getDistance (.ofNat number) s.txWindow.winStart = number - s.start ∧
      number - s.start < winSize := by
  have hgt : s.start < number + seqnoSpaceHalfSize := hok.1
  have hlt : number < s.start + seqnoSpaceHalfSize := hok.2.1
  rw [h.shows.winStart] at hyoung ⊢
  have hnew : s.start ≤ number :=
    Nat.le_of_not_lt fun hold => absurd (getDistance_of_lt hold hgt) (Nat.not_le.2 hyoung)
  have hbound := h.transmitted number hok.2.2
  exact ⟨hnew, getDistance_of_le hnew hlt, by omega⟩

theorem Tracks.step_acked (h : Tracks winSize s) (hpos : 0 < winSize)
    (hok : s.StepOk (.acked number)) : Tracks winSize (s.step (.acked number)) ∧
      s.start ≤ (s.step (.acked number)).start := by
  have hsize : (s.step (.acked number)).txWindow.getWinSize = winSize :=
    BlockAckWindow.getWinSize_notifyAckedMpdu.trans h.size
  have hacked : ∀ u ∈ number :: s.acked, u ∈ s.transmitted :=
    List.forall_mem_cons.2 ⟨hok.2.2, h.acked⟩
  by_cases hdist : seqnoSpaceHalfSize ≤ getDistance (.ofNat number) s.txWindow.winStart
  · have hold : number < s.start := by
      by_contra hnew
      rw [h.shows.winStart, getDistance_of_le (Nat.le_of_not_lt hnew) hok.2.1] at hdist
      have hlt : number < s.start + seqnoSpaceHalfSize := hok.2.1
      omega
    refine tracks_of_shows (m := s.start) hsize ?_ ⟨⟨s.isLeast_start.1.1, ?_⟩, fun u hu => ?_⟩
      h.transmitted hacked le_rfl
    · change (s.txWindow.notifyAckedMpdu (.ofNat number)).Shows s.start (number :: s.acked)
      rw [BlockAckWindow.notifyAckedMpdu, if_pos hdist]
      refine ⟨h.shows.winStart, fun d hd => (h.shows.getAt d hd).trans ?_⟩
      rw [List.mem_cons, or_iff_right (by omega)]
    · exact List.not_mem_cons_of_ne_of_not_mem hold.ne' s.isLeast_start.1.2
    · exact s.isLeast_start.2 ⟨hu.1, List.not_mem_of_not_mem_cons hu.2⟩
  · obtain ⟨hnew, hindex, hin⟩ := h.getDistance_lt hok (Nat.lt_of_not_le hdist)
    have hset := h.shows.setAt (d := number - s.start) (by rwa [h.size])
    rw [Nat.add_sub_cancel' hnew] at hset
    obtain ⟨start', hshows, hleast⟩ := hset.advanceTxWindow
      (by
        rw [BlockAckWindow.getWinSize_setAt]
        refine List.forall_mem_cons.2 ⟨?_, h.acked_lt⟩
        rw [h.size]
        omega)
      (by rwa [BlockAckWindow.getWinSize_setAt, h.size])
    have hle : s.start ≤ start' := hleast.1.1
    refine tracks_of_shows hsize ?_ ⟨⟨s.isLeast_start.1.1.trans hle, hleast.1.2⟩, fun u hu => ?_⟩
      (fun u hu => (h.transmitted u hu).trans_le (by omega)) hacked hle
    · change (s.txWindow.notifyAckedMpdu (.ofNat number)).Shows start' (number :: s.acked)
      rw [BlockAckWindow.notifyAckedMpdu, if_neg hdist, hindex]
      exact hshows
    · refine hleast.2 ⟨Nat.le_of_not_lt fun hlt => ?_, hu.2⟩
      exact hu.2 (List.mem_cons_of_mem _ (mem_acked hu.1 hlt))

/-- Every call keeps the window on track, and does not move its start back. -/
theorem Tracks.step (h : Tracks winSize s) (hpos : 0 < winSize) {call : TxWindowCall}
    (hok : s.StepOk call) : Tracks winSize (s.step call) ∧ s.start ≤ (s.step call).start := by
  cases call with
  | transmitted number => exact h.step_transmitted hpos hok
  | acked number => exact h.step_acked hpos hok
  | discarded number => exact h.step_discarded hpos hok

/-- After every run, the start is the first count that is not acknowledged, from the floor on, a bit
is set for the acknowledged counts only, and the next call does not move the start back, nor set
a bit outside the window. -/
theorem transmitWindow_correct (hpos : 1 ≤ winSize) (startingSeq : SeqNo)
    {calls : List TxWindowCall}
    (h : Runs.Each TransmitWindow.step StepOk (init startingSeq winSize) calls) :
    let s := Runs.run TransmitWindow.step (init startingSeq winSize) calls
    (∀ w : BlockAckWindow, w.getWinSize = winSize → ∃ k ≤ winSize, w.EndsAfter k ∧
        w.advanceTxWindow = (BlockAckWindow.advance · 1)^[k] w) ∧
      s.txWindow.getAt 0 = false ∧ s.getStartingSequence = .ofNat s.start ∧
      IsLeast {u | s.floor ≤ u ∧ u ∉ s.acked} s.start ∧
      (∀ d < winSize, s.txWindow.getAt d = true ↔ s.start + d ∈ s.acked) ∧
      ∀ call, s.StepOk call → s.start ≤ (s.step call).start ∧
        ∀ number, call = .acked number →
          getDistance (.ofNat number) s.txWindow.winStart < seqnoSpaceHalfSize →
            getDistance (.ofNat number) s.txWindow.winStart < winSize := by
  intro s
  have hs : Tracks winSize s :=
    h.invariant (fun _ _ ht hok => (ht.step hpos hok).1) (tracks_init startingSeq winSize)
  refine ⟨?_, ?_, ?_, s.isLeast_start, ?_, fun call hok => ⟨(hs.step hpos hok).2, ?_⟩⟩
  · rintro w rfl
    exact BlockAckWindow.endsAfter_advanceTxWindow hpos
  · rw [← Bool.not_eq_true, hs.shows.getAt 0 (by rw [hs.size]; exact hpos)]
    exact s.isLeast_start.1.2
  · rw [getStartingSequence, if_neg (by rw [hs.size]; omega), hs.shows.winStart]
  · intro d hd
    exact hs.shows.getAt d (by rwa [hs.size])
  · rintro number rfl hyoung
    obtain ⟨-, hindex, hin⟩ := hs.getDistance_lt hok hyoung
    exact hindex.trans_lt hin

/-- A transmission beyond a window of four, and its acknowledgment out of order. -/
theorem transmitWindow_correct_four :
    let s := Runs.run TransmitWindow.step (init 4094 4)
      [.transmitted 4094, .transmitted 4095, .acked 4095, .transmitted 4099, .acked 4099]
    s.getStartingSequence = 0 ∧ s.txWindow.getAt 0 = false ∧ s.txWindow.getAt 3 = true :=
  have h := @transmitWindow_correct 4 (by decide) 4094
    [.transmitted 4094, .transmitted 4095, .acked 4095, .transmitted 4099, .acked 4099] (by decide)
  ⟨h.2.2.1.trans (by decide), h.2.1, (h.2.2.2.2.1 3 (by decide)).2 (by decide)⟩

end TransmitWindow

end Ns3Pedca
