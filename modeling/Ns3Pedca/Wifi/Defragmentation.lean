import Ns3Pedca.Pieces
import Ns3Pedca.Wifi.MacRxMiddle

/-!
# Defragmentation

A packet that is forwarded up should be an MSDU : one unfragmented MPDU, or the fragments
`0, 1, …, n` of one sequence number put together (`ForwardsMsdus`). Nothing looks at the
fragment number of an MPDU that is received while no reassembly is under way : one with More
Fragments set is taken for the first fragment, one with it clear for a whole MSDU.
`forwards_msdus` says that whole MSDUs are forwarded along every run in which the MPDUs
received at such times all have fragment number `0`.

A reassembly ends only with the fragment it waits for. While it waits, every MPDU with
another sequence number is dropped, so a new MSDU gets through exactly when no reassembly is
under way (`receive_new_iff`, `run_new_iff`).
-/

namespace Ns3Pedca

namespace MacRxMiddle

open Pieces Runs

variable {mpdu : RxMpdu} {mpdus received : List RxMpdu} {key : OriginatorKey}
  {originator : OriginatorRxStatus} {rx : MacRxMiddle}

/-- The fragment number of an MPDU. -/
def fragmentNumber (mpdu : RxMpdu) : ℕ :=
  mpdu.header.fragmentNumber

/-- The More Fragments bit of an MPDU. -/
def isMoreFragments (mpdu : RxMpdu) : Bool :=
  mpdu.header.isMoreFragments

/-- The payloads of MPDUs, put together. -/
def payload (mpdus : List RxMpdu) : Packet :=
  (mpdus.map RxMpdu.packet).flatten

/-- The MPDUs have one originator and one sequence number. -/
def SameSequence (mpdus : List RxMpdu) (key : OriginatorKey) (sequenceNumber : ℕ) : Prop :=
  ∀ mpdu ∈ mpdus, lookupKey mpdu = key ∧ mpdu.header.sequenceNumber.val = sequenceNumber

instance (mpdus : List RxMpdu) (key : OriginatorKey) (sequenceNumber : ℕ) :
    Decidable (SameSequence mpdus key sequenceNumber) :=
  inferInstanceAs (Decidable (∀ mpdu ∈ mpdus, _))

/-- The MPDUs are the fragments of an MSDU in order, or a single unfragmented MPDU. -/
def IsMsdu (mpdus : List RxMpdu) : Prop :=
  Whole fragmentNumber isMoreFragments mpdus ∧ ∃ key sequenceNumber,
    SameSequence mpdus key sequenceNumber

/-- What was forwarded up are MSDUs, made of MPDUs received in this order. -/
def ForwardsMsdus (rx : MacRxMiddle) : Prop :=
  ∀ mpdu ∈ rx.forwarded, ∃ mpdus, mpdus.Sublist rx.received ∧ IsMsdu mpdus ∧
    mpdu.packet = payload mpdus ∧ mpdus.getLast?.map RxMpdu.header = some mpdu.header

/-- An MPDU that is no duplicate has fragment number `0` if no reassembly is under way. -/
def StartsMsdu (rx : MacRxMiddle) (mpdu : RxMpdu) : Prop :=
  (rx.lookup mpdu).isDeFragmenting = false →
    isDuplicate mpdu.header (rx.lookup mpdu) = false → mpdu.header.fragmentNumber = 0

instance (rx : MacRxMiddle) (mpdu : RxMpdu) : Decidable (StartsMsdu rx mpdu) :=
  inferInstanceAs (Decidable (_ → _ → _))

/-! ## What a reception does -/

/-- An MPDU is dropped, kept as a fragment, completes an MSDU or is forwarded as it is. -/
theorem receiveFrom_cases (mpdu : RxMpdu) (originator : OriginatorRxStatus) :
    receiveFrom mpdu originator = (none, originator) ∨
    (isDuplicate mpdu.header originator = false ∧ isMoreFragments mpdu = true ∧
      (originator.isDeFragmenting = true →
        originator.isNextFragment mpdu.header.getSequenceControl = true) ∧
      receiveFrom mpdu originator = (none, (originator.accumulateFragment
        mpdu.packet).setSequenceControl mpdu.header.getSequenceControl)) ∨
    (isMoreFragments mpdu = false ∧ originator.isDeFragmenting = true ∧
      originator.isNextFragment mpdu.header.getSequenceControl = true ∧
      receiveFrom mpdu originator = (some (originator.fullPacket mpdu.packet),
        originator.accumulateLastFragment.setSequenceControl mpdu.header.getSequenceControl)) ∨
    (isDuplicate mpdu.header originator = false ∧ isMoreFragments mpdu = false ∧
      originator.isDeFragmenting = false ∧
      receiveFrom mpdu originator = (some mpdu.packet,
        originator.setSequenceControl mpdu.header.getSequenceControl)) := by
  unfold receiveFrom handleFragments isMoreFragments
  cases isDuplicate mpdu.header originator <;> cases originator.isDeFragmenting <;>
    cases mpdu.header.isMoreFragments <;>
    cases originator.isNextFragment mpdu.header.getSequenceControl <;>
    simp [OriginatorRxStatus.setSequenceControl]

theorem isNextFragment_iff :
    originator.isNextFragment mpdu.header.getSequenceControl = true ↔
      mpdu.header.sequenceNumber.val = originator.lastSequenceControl >>> 4 ∧
        fragmentNumber mpdu = (originator.lastSequenceControl &&& 0x0f) + 1 := by
  simp [OriginatorRxStatus.isNextFragment, fragmentNumber]

theorem SameSequence.singleton (mpdu : RxMpdu) :
    SameSequence [mpdu] (lookupKey mpdu) mpdu.header.sequenceNumber := by
  intro m hm
  rw [List.mem_singleton.1 hm]
  exact ⟨rfl, rfl⟩

theorem payload_snoc (mpdus : List RxMpdu) (mpdu : RxMpdu) :
    payload (mpdus ++ [mpdu]) = (mpdus.map RxMpdu.packet ++ [mpdu.packet]).flatten := by
  rw [payload, List.map_append, List.map_singleton]

/-! ## Only whole MSDUs -/

/-- A reassembly under way has the first fragments of an MSDU, the last one of which is the
last MPDU that was taken. -/
def Pending (received : List RxMpdu) (key : OriginatorKey) (originator : OriginatorRxStatus) :
    Prop :=
  originator.isDeFragmenting = true → ∃ mpdus, mpdus.Sublist received ∧
    Begun fragmentNumber isMoreFragments mpdus ∧
    SameSequence mpdus key (originator.lastSequenceControl >>> 4) ∧
    originator.fragments = mpdus.map RxMpdu.packet ∧
    mpdus.length = (originator.lastSequenceControl &&& 0x0f) + 1

theorem Pending.mono (h : Pending received key originator) (mpdu : RxMpdu) :
    Pending (received ++ [mpdu]) key originator := by
  intro hdef
  obtain ⟨mpdus, hsub, hrest⟩ := h hdef
  exact ⟨mpdus, hsub.trans (List.sublist_append_left _ _), hrest⟩

theorem pending_of_not_deFragmenting (h : originator.isDeFragmenting = false) :
    Pending received key originator :=
  fun hdef => absurd (h.symm.trans hdef) Bool.false_ne_true

/-- The fragments of the reassembly under way, and the next one. -/
theorem Pending.snoc (h : Pending received key originator)
    (hdef : originator.isDeFragmenting = true) (hkey : lookupKey mpdu = key)
    (hnext : originator.isNextFragment mpdu.header.getSequenceControl = true) :
    ∃ mpdus, (mpdus ++ [mpdu]).Sublist (received ++ [mpdu]) ∧
      Begun fragmentNumber isMoreFragments mpdus ∧ fragmentNumber mpdu = mpdus.length ∧
      SameSequence (mpdus ++ [mpdu]) key mpdu.header.sequenceNumber ∧
      originator.fragments = mpdus.map RxMpdu.packet := by
  obtain ⟨hseq, hfrag⟩ := isNextFragment_iff.1 hnext
  obtain ⟨mpdus, hsub, hbegun, hsame, hfrags, hlen⟩ := h hdef
  refine ⟨mpdus, hsub.append_right _, hbegun, by omega, ?_, hfrags⟩
  intro m hm
  rcases List.mem_append.1 hm with hm | hm
  · obtain ⟨hmkey, hmseq⟩ := hsame m hm
    exact ⟨hmkey, hmseq.trans hseq.symm⟩
  · rw [List.mem_singleton.1 hm]
    exact ⟨hkey, rfl⟩

theorem Pending.accumulateFragment (h : Pending received key originator)
    (hkey : lookupKey mpdu = key) (hmore : isMoreFragments mpdu = true)
    (hfirst : originator.isDeFragmenting = false → fragmentNumber mpdu = 0)
    (hnext : originator.isDeFragmenting = true →
      originator.isNextFragment mpdu.header.getSequenceControl = true) :
    Pending (received ++ [mpdu]) key ((originator.accumulateFragment
      mpdu.packet).setSequenceControl mpdu.header.getSequenceControl) := by
  have hfragment : mpdu.header.getSequenceControl &&& 0x0f = fragmentNumber mpdu :=
    mpdu.header.getSequenceControl_and
  intro _
  simp only [OriginatorRxStatus.setSequenceControl, OriginatorRxStatus.accumulateFragment,
    WifiMacHeader.getSequenceControl_shiftRight, hfragment]
  rcases Bool.eq_false_or_eq_true originator.isDeFragmenting with hdef | hdef
  · obtain ⟨mpdus, hsub, hbegun, hfrag, hsame, hfrags⟩ := h.snoc hdef hkey (hnext hdef)
    exact ⟨mpdus ++ [mpdu], hsub, hbegun.snoc hfrag hmore, hsame, by rw [hfrags, List.map_append,
      List.map_singleton], by rw [List.length_append, List.length_singleton, hfrag]⟩
  · have hzero : fragmentNumber mpdu = 0 := hfirst hdef
    refine ⟨[mpdu], List.sublist_append_right _ _, Begun.nil.snoc hzero hmore,
      hkey ▸ .singleton mpdu, ?_, ?_⟩
    · rw [originator.fragments_eq_nil hdef]
      rfl
    · rw [hzero, List.length_singleton]

/-- A reception keeps the fragments of the reassembly under way in order. -/
theorem Pending.receiveFrom (h : Pending received key originator) (hkey : lookupKey mpdu = key)
    (hstart : originator.isDeFragmenting = false →
      isDuplicate mpdu.header originator = false → mpdu.header.fragmentNumber = 0) :
    Pending (received ++ [mpdu]) key (receiveFrom mpdu originator).2 := by
  rcases receiveFrom_cases mpdu originator with
    hdrop | ⟨hdup, hmore, hnext, hacc⟩ | ⟨-, -, -, hlast⟩ | ⟨-, -, hdef, hwhole⟩
  · rw [hdrop]
    exact h.mono mpdu
  · rw [hacc]
    exact h.accumulateFragment hkey hmore (fun hdef => congrArg Fin.val (hstart hdef hdup)) hnext
  · rw [hlast]
    exact pending_of_not_deFragmenting rfl
  · rw [hwhole]
    exact pending_of_not_deFragmenting hdef

/-- What a reception forwards up is an MSDU. -/
theorem Pending.isMsdu (h : Pending received key originator) (hkey : lookupKey mpdu = key)
    (hstart : originator.isDeFragmenting = false →
      isDuplicate mpdu.header originator = false → mpdu.header.fragmentNumber = 0)
    {aggregate : Packet} (hforward : (MacRxMiddle.receiveFrom mpdu originator).1 = some aggregate) :
    ∃ mpdus, (mpdus ++ [mpdu]).Sublist (received ++ [mpdu]) ∧ IsMsdu (mpdus ++ [mpdu]) ∧
      aggregate = payload (mpdus ++ [mpdu]) := by
  rcases receiveFrom_cases mpdu originator with
    hdrop | ⟨-, -, -, hacc⟩ | ⟨hmore, hdef, hnext, hlast⟩ | ⟨hdup, hmore, hdef, hwhole⟩
  · rw [hdrop] at hforward
    cases hforward
  · rw [hacc] at hforward
    cases hforward
  · rw [hlast, Option.some_inj] at hforward
    obtain ⟨mpdus, hsub, hbegun, hfrag, hsame, hfrags⟩ := h.snoc hdef hkey hnext
    refine ⟨mpdus, hsub, ⟨hbegun.whole hfrag hmore, key, _, hsame⟩, ?_⟩
    rw [← hforward, OriginatorRxStatus.fullPacket, hfrags, payload_snoc]
  · rw [hwhole, Option.some_inj] at hforward
    have hzero : fragmentNumber mpdu = 0 := congrArg Fin.val (hstart hdef hdup)
    refine ⟨[], List.sublist_append_right _ _,
      ⟨whole_singleton hzero hmore, _, _, .singleton mpdu⟩, ?_⟩
    rw [← hforward]
    exact (List.append_nil _).symm

/-- Every reassembly under way is in order, and what was forwarded up are MSDUs. -/
structure DefragInv (rx : MacRxMiddle) : Prop where
  pending : ∀ key, Pending rx.received key (rx.status key)
  forwards : ForwardsMsdus rx

theorem DefragInv.init : DefragInv init where
  pending _ := pending_of_not_deFragmenting rfl
  forwards := by
    intro mpdu hmpdu
    cases hmpdu

theorem DefragInv.receive (h : DefragInv rx) (mpdu : RxMpdu) (hstart : StartsMsdu rx mpdu) :
    DefragInv (rx.receive mpdu) where
  pending key := by
    change Pending (rx.received ++ [mpdu]) key (Function.update rx.status (lookupKey mpdu)
      (receiveFrom mpdu (rx.lookup mpdu)).2 key)
    by_cases hkey : lookupKey mpdu = key
    · subst hkey
      rw [Function.update_self]
      exact (h.pending (lookupKey mpdu)).receiveFrom rfl hstart
    · rw [Function.update_of_ne (Ne.symm hkey)]
      exact (h.pending key).mono mpdu
  forwards := by
    intro m hm
    rcases List.mem_append.1 hm with hm | hm
    · obtain ⟨mpdus, hsub, hrest⟩ := h.forwards m hm
      exact ⟨mpdus, hsub.trans (List.sublist_append_left _ _), hrest⟩
    · rw [Option.mem_toList, Option.map_eq_some_iff] at hm
      obtain ⟨aggregate, hforward, rfl⟩ := hm
      obtain ⟨mpdus, hsub, hmsdu, heq⟩ :=
        (h.pending (lookupKey mpdu)).isMsdu rfl hstart hforward
      exact ⟨mpdus ++ [mpdu], hsub, hmsdu, heq, by simp⟩

/-- What is forwarded up along a run are MSDUs, if the MPDUs received while no reassembly is
under way have fragment number `0`. -/
theorem forwards_msdus (mpdus : List RxMpdu) (h : Each receive StartsMsdu init mpdus) :
    Always receive ForwardsMsdus init mpdus :=
  (h.always (fun _ mpdu hinv hstart => hinv.receive mpdu hstart) DefragInv.init).mono
    fun _ hinv => hinv.forwards

/-- A fragment of a station, with a packet of one byte. -/
def oneByteFragment (sequenceNumber : SeqNo) (fragmentNumber : Fin 16) (isMoreFragments : Bool) :
    RxMpdu where
  header :=
    { addr1 := .station 1
      addr2 := .station 2
      sequenceNumber := sequenceNumber
      fragmentNumber := fragmentNumber
      isMoreFragments := isMoreFragments }
  packet := [fragmentNumber.val.toUInt8]

theorem forwards_msdus_burst :
    Always receive ForwardsMsdus init
      [oneByteFragment 5 0 true, oneByteFragment 5 1 true, oneByteFragment 5 2 false] :=
  forwards_msdus _ (by decide)

/-- The fragment `0` is lost, and the fragment `1` is forwarded up alone. -/
theorem not_forwards_msdus : ¬ ∀ mpdus, Always receive ForwardsMsdus init mpdus := by
  intro h
  obtain ⟨mpdus, hsub, ⟨hwhole, -⟩, -⟩ := (h [oneByteFragment 5 1 false]).last
    (oneByteFragment 5 1 false) (by decide)
  have hmpdus : mpdus = [oneByteFragment 5 1 false] := by
    rcases List.sublist_singleton.1 hsub with hnil | hone
    · exact absurd hnil hwhole.ne_nil
    · exact hone
  have hnumber := hwhole.numbered
  rw [hmpdus] at hnumber
  exact absurd hnumber (by decide)

/-! ## A reassembly that is never completed -/

/-- The sequence number is not that of the last MPDU that was taken, if there was one. -/
def IsNew (originator : OriginatorRxStatus) (sequenceNumber : ℕ) : Prop :=
  originator.lastSequenceControl = 0xffff ∨
    originator.lastSequenceControl >>> 4 ≠ sequenceNumber

instance (originator : OriginatorRxStatus) (sequenceNumber : ℕ) :
    Decidable (IsNew originator sequenceNumber) :=
  inferInstanceAs (Decidable (_ ∨ _))

theorem IsNew.not_isNextFragment (h : IsNew originator mpdu.header.sequenceNumber) :
    originator.isNextFragment mpdu.header.getSequenceControl = false := by
  rw [← Bool.not_eq_true, isNextFragment_iff]
  rintro ⟨hseq, hfrag⟩
  rcases h with hlast | hne
  · have hlt : fragmentNumber mpdu < 16 := mpdu.header.fragmentNumber.isLt
    rw [hlast] at hfrag
    exact absurd (hfrag.symm.trans_lt hlt) (by decide)
  · exact hne hseq.symm

theorem IsNew.not_isDuplicate (h : IsNew originator mpdu.header.sequenceNumber)
    (hfrag : fragmentNumber mpdu = 0) : isDuplicate mpdu.header originator = false := by
  rw [isDuplicate, Bool.and_eq_false_imp]
  intro _
  rw [decide_eq_false_iff_not]
  intro hlast
  rcases h with hmagic | hne
  · have hcontrol := mpdu.header.getSequenceControl_and
    rw [← hlast, hmagic] at hcontrol
    exact absurd (hcontrol.trans hfrag) (by decide)
  · rw [hlast, WifiMacHeader.getSequenceControl_shiftRight] at hne
    exact hne rfl

/-- While a reassembly is under way, an MPDU with a new sequence number is dropped. -/
theorem receiveFrom_of_deFragmenting (hdef : originator.isDeFragmenting = true)
    (hnew : IsNew originator mpdu.header.sequenceNumber) :
    receiveFrom mpdu originator = (none, originator) := by
  rcases receiveFrom_cases mpdu originator with
    hdrop | ⟨-, -, hnext, -⟩ | ⟨-, -, hnext, -⟩ | ⟨-, -, hndef, -⟩
  · exact hdrop
  · exact absurd (hnew.not_isNextFragment.symm.trans (hnext hdef)) Bool.false_ne_true
  · exact absurd (hnew.not_isNextFragment.symm.trans hnext) Bool.false_ne_true
  · exact absurd (hndef.symm.trans hdef) Bool.false_ne_true

theorem not_isDuplicate_of_isNextFragment
    (hnext : originator.isNextFragment mpdu.header.getSequenceControl = true) :
    isDuplicate mpdu.header originator = false := by
  obtain ⟨-, hfrag⟩ := isNextFragment_iff.1 hnext
  rw [isDuplicate, Bool.and_eq_false_imp]
  intro _
  rw [decide_eq_false_iff_not]
  intro hlast
  rw [hlast, WifiMacHeader.getSequenceControl_and] at hfrag
  exact absurd hfrag (Nat.ne_of_lt (Nat.lt_succ_self _))

/-- The status has the first fragments of the MSDU with this sequence number. -/
structure Reassembling (originator : OriginatorRxStatus) (sequenceNumber : ℕ)
    (mpdus : List RxMpdu) : Prop where
  isDeFragmenting : originator.isDeFragmenting = true
  fragments : originator.fragments = mpdus.map RxMpdu.packet
  sequenceNumber : originator.lastSequenceControl >>> 4 = sequenceNumber
  fragmentNumber : (originator.lastSequenceControl &&& 0x0f) + 1 = mpdus.length

theorem Reassembling.isNextFragment
    (h : Reassembling originator mpdu.header.sequenceNumber mpdus)
    (hfrag : MacRxMiddle.fragmentNumber mpdu = mpdus.length) :
    originator.isNextFragment mpdu.header.getSequenceControl = true :=
  isNextFragment_iff.2 ⟨h.sequenceNumber.symm, hfrag.trans h.fragmentNumber.symm⟩

/-- A fragment that is kept becomes the last MPDU that was taken. -/
theorem Reassembling.accumulateFragment (hfrags : originator.fragments = mpdus.map RxMpdu.packet)
    (hfrag : MacRxMiddle.fragmentNumber mpdu = mpdus.length) :
    Reassembling ((originator.accumulateFragment mpdu.packet).setSequenceControl
      mpdu.header.getSequenceControl) mpdu.header.sequenceNumber (mpdus ++ [mpdu]) where
  isDeFragmenting := rfl
  fragments := by
    change originator.fragments ++ [mpdu.packet] = _
    rw [hfrags, List.map_append, List.map_singleton]
  sequenceNumber := mpdu.header.getSequenceControl_shiftRight
  fragmentNumber := by
    change (mpdu.header.getSequenceControl &&& 0x0f) + 1 = _
    rw [WifiMacHeader.getSequenceControl_and, List.length_append, List.length_singleton, ← hfrag]
    rfl

theorem Reassembling.receiveFrom
    (h : Reassembling originator mpdu.header.sequenceNumber mpdus)
    (hfrag : MacRxMiddle.fragmentNumber mpdu = mpdus.length)
    (hmore : isMoreFragments mpdu = true) :
    (receiveFrom mpdu originator).1 = none ∧
      Reassembling (receiveFrom mpdu originator).2 mpdu.header.sequenceNumber
        (mpdus ++ [mpdu]) := by
  have hnext := h.isNextFragment hfrag
  have hreceive : MacRxMiddle.receiveFrom mpdu originator = (none, (originator.accumulateFragment
      mpdu.packet).setSequenceControl mpdu.header.getSequenceControl) := by
    unfold isMoreFragments at hmore
    simp [MacRxMiddle.receiveFrom, handleFragments, not_isDuplicate_of_isNextFragment hnext,
      h.isDeFragmenting, hmore, hnext]
  rw [hreceive]
  exact ⟨rfl, .accumulateFragment h.fragments hfrag⟩

/-- The last fragment completes the MSDU. -/
theorem Reassembling.receiveFrom_last
    (h : Reassembling originator mpdu.header.sequenceNumber mpdus)
    (hfrag : MacRxMiddle.fragmentNumber mpdu = mpdus.length)
    (hmore : isMoreFragments mpdu = false) :
    (MacRxMiddle.receiveFrom mpdu originator).1 = some (payload (mpdus ++ [mpdu])) := by
  have hnext := h.isNextFragment hfrag
  unfold isMoreFragments at hmore
  rw [payload_snoc]
  simp [MacRxMiddle.receiveFrom, handleFragments, not_isDuplicate_of_isNextFragment hnext,
    h.isDeFragmenting, hmore, hnext, OriginatorRxStatus.fullPacket, h.fragments]

/-- The first MPDU of a new MSDU, when no reassembly is under way. -/
theorem receiveFrom_first (hdef : originator.isDeFragmenting = false)
    (hnew : IsNew originator mpdu.header.sequenceNumber) (hfrag : fragmentNumber mpdu = 0) :
    receiveFrom mpdu originator =
      if isMoreFragments mpdu then (none, (originator.accumulateFragment
        mpdu.packet).setSequenceControl mpdu.header.getSequenceControl)
      else (some mpdu.packet, originator.setSequenceControl mpdu.header.getSequenceControl) := by
  unfold receiveFrom handleFragments isMoreFragments
  rw [hnew.not_isDuplicate hfrag]
  cases mpdu.header.isMoreFragments <;> simp [hdef]

theorem status_receive (rx : MacRxMiddle) (mpdu : RxMpdu) :
    (rx.receive mpdu).status (lookupKey mpdu) =
      (receiveFrom mpdu (rx.status (lookupKey mpdu))).2 :=
  Function.update_self ..

theorem forwarded_receive (rx : MacRxMiddle) (mpdu : RxMpdu) :
    (rx.receive mpdu).forwarded = rx.forwarded ++
      ((receiveFrom mpdu (rx.status (lookupKey mpdu))).1.map fun aggregate =>
        { mpdu with packet := aggregate }).toList :=
  rfl

/-- While a reassembly is under way, nothing gets through with a new sequence number. -/
theorem run_of_deFragmenting {sequenceNumber : ℕ}
    (hsame : SameSequence mpdus key sequenceNumber) (hnew : IsNew (rx.status key) sequenceNumber)
    (hdef : (rx.status key).isDeFragmenting = true) :
    (run receive rx mpdus).forwarded = rx.forwarded := by
  induction mpdus generalizing rx with
  | nil => rfl
  | cons mpdu mpdus ih =>
    obtain ⟨⟨rfl, rfl⟩, hrest⟩ := List.forall_mem_cons.1 hsame
    have hdrop := receiveFrom_of_deFragmenting hdef hnew
    have hstatus : (rx.receive mpdu).status (lookupKey mpdu) = rx.status (lookupKey mpdu) := by
      rw [status_receive, hdrop]
    have hforwarded : (rx.receive mpdu).forwarded = rx.forwarded := by
      rw [forwarded_receive, hdrop]
      exact List.append_nil _
    rw [run_cons, ← hforwarded]
    exact ih hrest (by rwa [hstatus]) (by rwa [hstatus])

/-- The first fragments of a new MSDU are kept, when no reassembly is under way. -/
theorem run_begun {sequenceNumber : ℕ} (hnew : IsNew (rx.status key) sequenceNumber)
    (hdef : (rx.status key).isDeFragmenting = false) (hne : mpdus ≠ [])
    (hbegun : Begun fragmentNumber isMoreFragments mpdus)
    (hsame : SameSequence mpdus key sequenceNumber) :
    (run receive rx mpdus).forwarded = rx.forwarded ∧
      Reassembling ((run receive rx mpdus).status key) sequenceNumber mpdus := by
  induction mpdus using List.reverseRecOn with
  | nil => exact absurd rfl hne
  | append_singleton mpdus mpdu ih =>
    have hfrag := hbegun.number_snoc
    have hmore : isMoreFragments mpdu = true := hbegun.more mpdu (by simp)
    obtain ⟨rfl, rfl⟩ := hsame mpdu (by simp)
    rw [run_append, run_cons, run_nil, status_receive, forwarded_receive]
    rcases eq_or_ne mpdus [] with rfl | hmpdus
    · rw [run_nil, receiveFrom_first hdef hnew hfrag, if_pos hmore]
      refine ⟨List.append_nil _, .accumulateFragment ?_ hfrag⟩
      rw [(rx.status _).fragments_eq_nil hdef]
      rfl
    · obtain ⟨hforwarded, hreassembling⟩ := ih hmpdus hbegun.of_append
        fun m hm => hsame m (List.mem_append_left _ hm)
      obtain ⟨hnone, hreassembling'⟩ := hreassembling.receiveFrom hfrag hmore
      rw [hnone, hforwarded]
      exact ⟨List.append_nil _, hreassembling'⟩

/-- The MPDUs of a new MSDU, be it fragmented or not, are forwarded up as one packet exactly
when no reassembly is under way for their originator. -/
theorem run_new_iff {sequenceNumber : ℕ} (hsame : SameSequence mpdus key sequenceNumber)
    (hwhole : Whole fragmentNumber isMoreFragments mpdus)
    (hnew : IsNew (rx.status key) sequenceNumber) :
    (∃ mpdu, mpdu.packet = payload mpdus ∧
      (run receive rx mpdus).forwarded = rx.forwarded ++ [mpdu]) ↔
      (rx.status key).isDeFragmenting = false := by
  constructor
  · rintro ⟨mpdu, -, hforwarded⟩
    by_contra hdef
    rw [Bool.not_eq_false] at hdef
    rw [run_of_deFragmenting hsame hnew hdef] at hforwarded
    simp at hforwarded
  · intro hdef
    obtain ⟨mpdus, mpdu, rfl, hbegun, hfrag, hmore⟩ := hwhole
    obtain ⟨rfl, rfl⟩ := hsame mpdu (by simp)
    refine ⟨{ mpdu with packet := payload (mpdus ++ [mpdu]) }, rfl, ?_⟩
    rw [run_append, run_cons, run_nil, forwarded_receive]
    rcases eq_or_ne mpdus [] with rfl | hmpdus
    · rw [run_nil, receiveFrom_first hdef hnew hfrag, hmore]
      simp [payload]
    · obtain ⟨hforwarded, hreassembling⟩ := run_begun hnew hdef hmpdus hbegun
        fun m hm => hsame m (List.mem_append_left _ hm)
      rw [hreassembling.receiveFrom_last hfrag hmore, hforwarded]
      rfl

theorem run_new_burst :
    ∃ mpdu, mpdu.packet = [0, 1] ∧
      (run receive init [oneByteFragment 5 0 true, oneByteFragment 5 1 false]).forwarded =
        [mpdu] := by
  have hsame : SameSequence [oneByteFragment 5 0 true, oneByteFragment 5 1 false]
      (.originatorStatus (.station 2)) 5 := by
    decide
  have hbegun : Begun fragmentNumber isMoreFragments [oneByteFragment 5 0 true] :=
    Begun.nil.snoc rfl rfl
  exact (run_new_iff hsame (hbegun.whole rfl rfl) (.inl rfl)).2 rfl

/-- The fragments that follow the fragment `0` are lost, and an unfragmented MPDU is dropped. -/
theorem not_run_new : ¬ ∀ (before mpdus : List RxMpdu) (key : OriginatorKey) (sequenceNumber : ℕ),
    SameSequence mpdus key sequenceNumber → Whole fragmentNumber isMoreFragments mpdus →
      IsNew ((run receive init before).status key) sequenceNumber →
      ∃ mpdu, mpdu.packet = payload mpdus ∧
        (run receive (run receive init before) mpdus).forwarded =
          (run receive init before).forwarded ++ [mpdu] := by
  intro h
  obtain ⟨mpdu, -, hforwarded⟩ := h [oneByteFragment 5 0 true] [oneByteFragment 6 0 false]
    (.originatorStatus (.station 2)) 6 (by decide) (whole_singleton rfl rfl) (.inr (by decide))
  have hnil : (run receive (run receive init [oneByteFragment 5 0 true])
      [oneByteFragment 6 0 false]).forwarded = [] := by
    decide
  rw [hnil] at hforwarded
  exact List.append_ne_nil_of_right_ne_nil _ (List.cons_ne_nil _ _) hforwarded.symm

end MacRxMiddle

end Ns3Pedca
