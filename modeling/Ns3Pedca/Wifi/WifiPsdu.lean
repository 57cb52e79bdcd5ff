import Ns3Pedca.Wifi.WifiTxParameters

/-!
# The size of a PSDU

The size of an A-MPDU is computed in four ways : `WifiTxParameters` counts as MPDUs and MSDUs are
added, with the last MPDU apart; the constructor of `WifiPsdu` adds up the MPDUs; `getPacket` puts
bytes together; and `getAmpduSubframeSize` counts each subframe. They agree (`sizes_agree`) as long
as no A-MSDU has more bytes than 16 bits can count and the A-MPDU no more than 32 bits can count :
each adds the same sizes, with the padding at another moment, and the padding before a subframe
only depends on the subframe before. `not_sizes_agree` has an A-MPDU that is too long.
-/

namespace Ns3Pedca

namespace Aggregation

open Bytes PaddedConcat

/-! ## PSDUs -/

namespace MpduAggregator

/-- The bytes of `GetAmpduSubframeHeader` : the EOF bit and the length, a CRC that is not used, and
the signature. -/
def ampduSubframeHeader (mpduSize : UInt16) (isSingle : Bool) : List UInt8 :=
  writeU16 (isSingle.toNat <<< 15 ||| mpduSize.toNat) ++ [1, 0x4E]

/-- A subframe without its padding. -/
def ampduSubframe (mpdu : WifiMpdu) (isSingle : Bool) : Packet :=
  ampduSubframeHeader (.ofNat mpdu.getProtocolDataUnit.length) isSingle ++ mpdu.getProtocolDataUnit

/-- `Aggregate`. -/
def aggregate (mpdu : WifiMpdu) (ampdu : Packet) (isSingle : Bool) : Packet :=
  (if 0 < ampdu.length then
      ampdu ++ List.replicate (calculatePadding (.ofNat ampdu.length)) 0
    else ampdu) ++
    ampduSubframe mpdu isSingle

theorem length_ampduSubframe (mpdu : WifiMpdu) (isSingle : Bool) :
    (ampduSubframe mpdu isSingle).length = 4 + mpdu.getProtocolDataUnit.length := by
  rw [ampduSubframe, List.length_append]
  rfl

theorem aggregate_eq (mpdu : WifiMpdu) (ampdu : Packet) (isSingle : Bool) :
    aggregate mpdu ampdu isSingle = append 4 0 ampdu (ampduSubframe mpdu isSingle) := by
  have hpad : calculatePadding (.ofNat ampdu.length) = padding 4 ampdu.length := by
    rw [calculatePadding, UInt32.toNat_ofNat', padding_mod (by decide)]
  rw [aggregate, append, pad, hpad]
  split_ifs with h
  · rfl
  · obtain rfl : ampdu = [] := List.eq_nil_of_length_eq_zero (Nat.eq_zero_of_not_pos h)
    rw [List.length_nil, padding_zero]
    rfl

end MpduAggregator

/-- `WifiPsdu`. -/
structure WifiPsdu where
  mpduList : List WifiMpdu
  isSingle : Bool
  size : UInt32

namespace WifiPsdu

/-- The constructor that takes a list of MPDUs. -/
def ofList (mpduList : List WifiMpdu) : Option WifiPsdu :=
  if mpduList = [] then none
  else
    some
      { mpduList
        isSingle := mpduList.length = 1
        size := mpduList.foldl
          (fun size mpdu => MpduAggregator.getSizeIfAggregated mpdu.getSize size) 0 }

variable (psdu : WifiPsdu)

/-- `GetPacket`. -/
def getPacket : Packet :=
  match psdu.mpduList, psdu.isSingle with
  | [mpdu], false => mpdu.getProtocolDataUnit
  | mpduList, true => mpduList.head?.elim [] fun mpdu => MpduAggregator.aggregate mpdu [] true
  | mpduList, false =>
    mpduList.foldl (fun packet mpdu => MpduAggregator.aggregate mpdu packet false) []

/-- `GetAmpduSubframeSize` : the last subframe is not padded. -/
def getAmpduSubframeSize (i : Fin psdu.mpduList.length) : ℕ :=
  let subframeSize := 4 + (psdu.mpduList.get i).getSize.toNat
  if i.val ≠ psdu.mpduList.length - 1 then
    subframeSize + MpduAggregator.calculatePadding (.ofNat subframeSize)
  else subframeSize

end WifiPsdu

/-! ## Frames that are built -/

/-- What a call adds to the list of MPDUs. -/
def Addition.build (mpdus : List WifiMpdu) : Addition → Option (List WifiMpdu)
  | .mpdu m => some (mpdus ++ [m])
  | .msdu m =>
    mpdus.getLast?.bind fun last =>
      (last.aggregate (some m)).map fun amsdu => mpdus.dropLast ++ [amsdu]

/-- A call on the parameters, and on the MPDUs that are built besides. -/
def Addition.step (s : Psdus × List WifiMpdu) (call : Addition) :
    Option (Psdus × List WifiMpdu) :=
  (call.apply s.1).bind fun psdus => (call.build s.2).map (psdus, ·)

/-- The size of the subframe of an MPDU. -/
def subframeSize (mpdu : WifiMpdu) : ℕ :=
  4 + mpdu.getProtocolDataUnit.length

/-- The size of an A-MPDU, however large it is. -/
def ampduBytes (mpdus : List WifiMpdu) : ℕ :=
  size 4 (mpdus.map subframeSize)

/-- The sizes that are counted in 16 and in 32 bits are small enough. -/
structure Bounded (mpdus : List WifiMpdu) : Prop where
  amsdu : ∀ mpdu ∈ mpdus, mpdu.msduList ≠ [] → mpdu.packet.length < 2 ^ 16
  ampdu : ampduBytes mpdus < 2 ^ 32

/-- The sizes that are computed for a receiver, and the number of bytes that are sent. -/
structure SizesAgree (modulation : WifiModulationClass) (receiver : Mac48Address) (psdus : Psdus)
    (psdu : WifiPsdu) : Prop where
  size : psdus.getSize modulation receiver = psdu.size
  packet : psdu.size.toNat = psdu.getPacket.length
  subframes : psdu.size.toNat = ∑ i, psdu.getAmpduSubframeSize i

variable {mpdus : List WifiMpdu} {mpdu : WifiMpdu}

theorem ampduBytes_concat (mpdus : List WifiMpdu) (mpdu : WifiMpdu) :
    ampduBytes (mpdus ++ [mpdu]) = sizeIfAppended 4 (subframeSize mpdu) (ampduBytes mpdus) := by
  rw [ampduBytes, List.map_append, List.map_singleton, size_concat]
  rfl

theorem le_ampduBytes_concat (mpdus : List WifiMpdu) (mpdu : WifiMpdu) :
    ampduBytes mpdus + subframeSize mpdu ≤ ampduBytes (mpdus ++ [mpdu]) := by
  rw [ampduBytes_concat, sizeIfAppended]
  omega

/-- A size that fits in 32 bits is computed without wrapping. -/
theorem toNat_getSizeIfAggregated {mpduSize ampduSize : UInt32}
    (h : sizeIfAppended 4 (4 + mpduSize.toNat) ampduSize.toNat < 2 ^ 32) :
    (MpduAggregator.getSizeIfAggregated mpduSize ampduSize).toNat =
      sizeIfAppended 4 (4 + mpduSize.toNat) ampduSize.toNat := by
  rw [sizeIfAppended] at h ⊢
  rw [MpduAggregator.getSizeIfAggregated, MpduAggregator.calculatePadding]
  simp only [UInt32.toNat_add, UInt32.toNat_ofNat', UInt32.reduceToNat]
  omega

theorem toNat_msduSizeIfAggregated {msduSize amsduSize : UInt16}
    (h : sizeIfAppended 4 (14 + msduSize.toNat) amsduSize.toNat < 2 ^ 16) :
    (MsduAggregator.getSizeIfAggregated msduSize amsduSize).toNat =
      sizeIfAppended 4 (14 + msduSize.toNat) amsduSize.toNat := by
  rw [sizeIfAppended] at h ⊢
  rw [MsduAggregator.getSizeIfAggregated, MsduAggregator.calculatePadding]
  simp only [UInt16.toNat_add, UInt16.toNat_ofNat', UInt16.reduceToNat]
  omega

theorem toNat_getSize_of_lt (h : mpdu.getProtocolDataUnit.length < 2 ^ 32) :
    mpdu.getSize.toNat = mpdu.getProtocolDataUnit.length := by
  rw [mpdu.toNat_getSize, Nat.mod_eq_of_lt h]

theorem Bounded.init {mpdus : List WifiMpdu} {mpdu : WifiMpdu} (h : Bounded (mpdus ++ [mpdu])) :
    Bounded mpdus where
  amsdu m hm := h.amsdu m (List.mem_append_left _ hm)
  ampdu := lt_of_le_of_lt (Nat.le_of_add_right_le (le_ampduBytes_concat mpdus mpdu)) h.ampdu

theorem Bounded.pdu_lt (h : Bounded mpdus) (hmem : mpdu ∈ mpdus) :
    mpdu.getProtocolDataUnit.length < 2 ^ 32 := by
  have hle : subframeSize mpdu ≤ ampduBytes mpdus := le_size_of_mem (List.mem_map_of_mem hmem)
  have hlt := h.ampdu
  rw [subframeSize] at hle
  omega

theorem Bounded.last (h : Bounded (mpdus ++ [mpdu])) :
    mpdu.getProtocolDataUnit.length < 2 ^ 32 :=
  h.pdu_lt (List.mem_append_right _ (List.mem_singleton.2 rfl))

/-! ## Aggregating an MSDU -/

namespace WifiMpdu

variable {last amsdu msdu : WifiMpdu}

theorem packet_makeAmsdu : last.makeAmsdu.packet =
    if last.msduList = [] then append 4 0 [] last.amsduSubframe else last.packet := by
  rw [makeAmsdu]
  split_ifs with h
  · exact last.doAggregatePacket_eq []
  · rfl

/-- What `Aggregate` returns. -/
structure Aggregated (last msdu amsdu : WifiMpdu) : Prop where
  packet : amsdu.packet = append 4 0 last.makeAmsdu.packet msdu.amsduSubframe
  msduList : amsdu.msduList ≠ []
  getSize : amsdu.header.getSize = last.header.getSize
  isQosData : amsdu.header.isQosData = last.header.isQosData

theorem aggregated (h : last.aggregate (some msdu) = some amsdu) : Aggregated last msdu amsdu := by
  rw [aggregate] at h
  split_ifs at h
  obtain rfl := Option.some.inj h
  have hheader : last.makeAmsdu.header.getSize = last.header.getSize ∧
      last.makeAmsdu.header.isQosData = last.header.isQosData := by
    rw [makeAmsdu]
    split_ifs
    · dsimp only
      rw [amsduHeader]
      split_ifs <;> exact ⟨rfl, rfl⟩
    · exact ⟨rfl, rfl⟩
  exact ⟨msdu.doAggregatePacket_eq _, List.append_ne_nil_of_right_ne_nil _ (List.cons_ne_nil _ _),
    hheader.1, hheader.2⟩

theorem Aggregated.length (h : Aggregated last msdu amsdu) : amsdu.packet.length =
    sizeIfAppended 4 (14 + msdu.packet.length)
      (if last.msduList = [] then 14 + last.packet.length else last.packet.length) := by
  have hfirst : (append 4 0 [] last.amsduSubframe).length = 14 + last.packet.length := by
    rw [length_append, length_amsduSubframe, sizeIfAppended, List.length_nil, padding_zero,
      Nat.add_zero, Nat.zero_add]
  rw [h.packet, length_append, length_amsduSubframe, packet_makeAmsdu]
  split_ifs
  · rw [hfirst]
  · rfl

theorem Aggregated.length_le (h : Aggregated last msdu amsdu) :
    last.packet.length ≤ amsdu.packet.length ∧ msdu.packet.length ≤ amsdu.packet.length := by
  rw [h.length, sizeIfAppended]
  split_ifs <;> omega

theorem Aggregated.pdu_le (h : Aggregated last msdu amsdu) :
    last.getProtocolDataUnit.length ≤ amsdu.getProtocolDataUnit.length := by
  rw [length_getProtocolDataUnit, length_getProtocolDataUnit, h.getSize]
  have hle := h.length_le.1
  omega

end WifiMpdu

/-- An A-MSDU is longer than the MPDU that it comes from. -/
theorem Bounded.of_aggregated {last msdu amsdu : WifiMpdu} (h : Bounded (mpdus ++ [amsdu]))
    (hagg : WifiMpdu.Aggregated last msdu amsdu) : Bounded (mpdus ++ [last]) where
  amsdu m hm hne := by
    rcases List.mem_append.1 hm with hm | hm
    · exact h.amsdu m (List.mem_append_left _ hm) hne
    · obtain rfl := List.mem_singleton.1 hm
      exact lt_of_le_of_lt hagg.length_le.1
        (h.amsdu amsdu (List.mem_append_right _ (List.mem_singleton.2 rfl)) hagg.msduList)
  ampdu := by
    have hlt := h.ampdu
    have hle := hagg.pdu_le
    rw [ampduBytes_concat, sizeIfAppended, subframeSize] at hlt ⊢
    omega

/-! ## The sizes that are recorded -/

/-- What is recorded of the receiver fits the MPDUs that are built. -/
structure Tracks (info : PsduInfo) (mpdus : List WifiMpdu) (last : WifiMpdu) : Prop where
  headerSize : info.header.getSize = last.header.getSize
  isQosData : info.header.isQosData = last.header.isQosData
  amsduPresent : info.header.amsduPresent = last.header.amsduPresent
  amsduSize : info.amsduSize.toNat = last.packet.length
  ampduSize : info.ampduSize.toNat = ampduBytes mpdus

variable {info : PsduInfo} {last : WifiMpdu}

/-- The size of the last MPDU. -/
theorem Tracks.mpduSize (h : Tracks info mpdus last)
    (hlt : last.getProtocolDataUnit.length < 2 ^ 32) :
    info.mpduSize.toNat = last.getProtocolDataUnit.length := by
  rw [WifiMpdu.length_getProtocolDataUnit] at hlt ⊢
  rw [PsduInfo.mpduSize]
  simp only [UInt32.toNat_add, UInt32.toNat_ofNat', UInt32.reduceToNat, h.headerSize, h.amsduSize]
  omega

/-- The size of the A-MPDU, the last MPDU included. -/
theorem Tracks.total (h : Tracks info mpdus last) (hb : Bounded (mpdus ++ [last])) :
    (MpduAggregator.getSizeIfAggregated info.mpduSize info.ampduSize).toNat =
      ampduBytes (mpdus ++ [last]) := by
  have hlt := hb.ampdu
  rw [ampduBytes_concat, subframeSize] at hlt ⊢
  rw [toNat_getSizeIfAggregated] <;> rw [h.mpduSize hb.last, h.ampduSize]
  exact hlt

/-- Nothing is recorded of the receiver and nothing built, or they fit each other if the sizes are
small enough. -/
def Recorded (receiver : Mac48Address) (psdus : Psdus) (mpdus : List WifiMpdu) : Prop :=
  mpdus = [] ∧ psdus.info receiver = none ∨
    ∃ init last info, mpdus = init ++ [last] ∧ psdus.info receiver = some info ∧
      (Bounded mpdus → Tracks info init last)

variable {receiver : Mac48Address} {psdus psdus' : Psdus} {msdu : WifiMpdu}

/-- The size of the payload of an MPDU that is added is not truncated. -/
theorem toNat_getPacketSize (h : mpdu.getProtocolDataUnit.length < 2 ^ 32) :
    mpdu.getPacketSize.toNat = mpdu.packet.length := by
  rw [WifiMpdu.length_getProtocolDataUnit] at h
  rw [WifiMpdu.getPacketSize, UInt32.toNat_ofNat']
  omega

theorem Recorded.addMpdu (h : Recorded receiver psdus mpdus)
    (hadd : psdus.addMpdu mpdu = some psdus') (hreceiver : mpdu.header.addr1 = receiver) :
    Recorded receiver psdus' (mpdus ++ [mpdu]) := by
  subst hreceiver
  rcases h with ⟨rfl, hnone⟩ | ⟨init, last, info, rfl, hsome, htracks⟩
  · obtain rfl := Option.some.inj ((Psdus.addMpdu_of_none hnone).symm.trans hadd)
    refine Or.inr ⟨[], mpdu, _, rfl, Function.update_self .., fun hb => ?_⟩
    exact ⟨rfl, rfl, rfl, toNat_getPacketSize hb.last, rfl⟩
  · obtain ⟨-, rfl⟩ := Psdus.addMpdu_of_some hsome hadd
    refine Or.inr ⟨init ++ [last], mpdu, _, rfl, Function.update_self .., fun hb => ?_⟩
    exact ⟨rfl, rfl, rfl, toNat_getPacketSize hb.last, (htracks hb.init).total hb.init⟩

/-- The size of an A-MSDU that is counted in 16 bits. -/
theorem Tracks.amsdu {amsdu : WifiMpdu} {n : UInt32} (h : Tracks info mpdus last)
    (hagg : WifiMpdu.Aggregated last msdu amsdu) (hlt : amsdu.packet.length < 2 ^ 16)
    (hinfo : psdus.info msdu.header.addr1 = some info)
    (hsize : psdus.getSizeIfAggregateMsdu msdu = some n) : n.toNat = amsdu.packet.length := by
  obtain ⟨-, info', hinfo', hpos, hqos, -, -, rfl⟩ := Psdus.getSizeIfAggregateMsdu_eq_some.1 hsize
  obtain rfl := Option.some.inj (hinfo.symm.trans hinfo')
  have hne : last.packet ≠ [] := by
    rw [UInt32.lt_iff_toNat_lt, h.amsduSize] at hpos
    exact List.ne_nil_of_length_pos hpos
  have hlist : last.msduList = [] ↔ (!info.header.isQosAmsdu) = true := by
    have hheader : info.header.isQosAmsdu = last.header.isQosAmsdu := by
      rw [MacHeader.isQosAmsdu, MacHeader.isQosAmsdu, h.isQosData, h.amsduPresent]
    rw [Bool.not_eq_true', hheader]
    constructor
    · intro hnil
      by_contra hamsdu
      exact last.msduList_ne_nil (Bool.eq_true_of_not_eq_false hamsdu) hne hnil
    · intro hamsdu
      by_contra hmsdus
      rw [MacHeader.isQosAmsdu, ← h.isQosData, hqos, last.amsduPresent hmsdus] at hamsdu
      cases hamsdu
  obtain ⟨hlastLe, hmsduLe⟩ := hagg.length_le
  have hlast : info.amsduSize.toUInt16.toNat = last.packet.length := by
    rw [UInt32.toNat_toUInt16, h.amsduSize]
    omega
  have hmsdu : msdu.getPacketSize.toUInt16.toNat = msdu.packet.length := by
    rw [UInt32.toNat_toUInt16, WifiMpdu.getPacketSize, UInt32.toNat_ofNat']
    omega
  -- the size before, of which the first MSDU gets its subframe header
  have hcurr : (if !info.header.isQosAmsdu then
      MsduAggregator.getSizeIfAggregated info.amsduSize.toUInt16 0
      else info.amsduSize.toUInt16).toNat =
        if last.msduList = [] then 14 + last.packet.length else last.packet.length := by
    by_cases hnil : last.msduList = []
    · have hfirst : sizeIfAppended 4 (14 + last.packet.length) 0 = 14 + last.packet.length := by
        rw [sizeIfAppended, padding_zero, Nat.add_zero, Nat.zero_add]
      have hsmall := hlt
      rw [hagg.length, if_pos hnil, sizeIfAppended] at hsmall
      rw [if_pos (hlist.1 hnil), if_pos hnil, toNat_msduSizeIfAggregated] <;>
        rw [hlast, UInt16.toNat_zero, hfirst]
      omega
    · rw [if_neg (mt hlist.2 hnil), if_neg hnil, hlast]
  rw [hagg.length] at hlt ⊢
  rw [UInt16.toNat_toUInt32, toNat_msduSizeIfAggregated] <;> rw [hcurr, hmsdu]
  exact hlt

theorem Recorded.aggregateMsdu {mpdus' : List WifiMpdu} (h : Recorded receiver psdus mpdus)
    (hadd : psdus.aggregateMsdu msdu = some psdus') (hreceiver : msdu.header.addr1 = receiver)
    (hbuild : (Addition.msdu msdu).build mpdus = some mpdus') :
    Recorded receiver psdus' mpdus' := by
  subst hreceiver
  obtain ⟨info, hinfo, amsduSize, hsize, rfl⟩ := Psdus.aggregateMsdu_eq_some.1 hadd
  rcases h with ⟨-, hnone⟩ | ⟨init, last, info', rfl, hsome, htracks⟩
  · rw [hnone] at hinfo
    cases hinfo
  · obtain rfl := Option.some.inj (hinfo.symm.trans hsome)
    obtain ⟨last', hlast, hbuild⟩ := Option.bind_eq_some_iff.1 hbuild
    obtain ⟨amsdu, hamsdu, rfl⟩ := Option.map_eq_some_iff.1 hbuild
    rw [List.getLast?_concat] at hlast
    obtain rfl := Option.some.inj hlast
    rw [List.dropLast_concat]
    have hagg := WifiMpdu.aggregated hamsdu
    refine Or.inr ⟨init, amsdu, _, rfl, Function.update_self .., fun hb => ?_⟩
    have ht := htracks (hb.of_aggregated hagg)
    have hlt := hb.amsdu amsdu (List.mem_append_right _ (List.mem_singleton.2 rfl)) hagg.msduList
    exact ⟨ht.headerSize.trans hagg.getSize.symm, ht.isQosData.trans hagg.isQosData.symm,
      (amsdu.amsduPresent hagg.msduList).symm, ht.amsdu hagg hlt hinfo hsize, ht.ampduSize⟩

/-- What is recorded fits what is built after every run of calls for a receiver. -/
theorem recorded_of_run {calls : List Addition}
    (hcalls : ∀ call ∈ calls, call.receiver = receiver) :
    ∀ {s : Psdus × List WifiMpdu}, calls.foldlM Addition.step ({}, []) = some s →
      Recorded receiver s.1 s.2 := by
  induction calls using List.reverseRecOn with
  | nil =>
    intro s hrun
    obtain rfl := Option.some.inj hrun
    exact Or.inl ⟨rfl, rfl⟩
  | append_singleton calls call ih =>
    intro s hrun
    rw [List.foldlM_append] at hrun
    obtain ⟨t, ht, hrun⟩ := Option.bind_eq_some_iff.1 hrun
    have ih := ih (fun call hcall => hcalls call (List.mem_append_left _ hcall)) ht
    have hcall := hcalls call (List.mem_append_right _ (List.mem_singleton.2 rfl))
    have hstep : Addition.step t call = some s := by simpa using hrun
    obtain ⟨psdus, happly, hbuild⟩ := Option.bind_eq_some_iff.1 hstep
    obtain ⟨mpdus, hmpdus, rfl⟩ := Option.map_eq_some_iff.1 hbuild
    cases call with
    | mpdu mpdu =>
      obtain rfl := Option.some.inj hmpdus
      exact ih.addMpdu happly hcall
    | msdu msdu => exact ih.aggregateMsdu happly hcall hmpdus

/-! ## The size of the PSDU -/

/-- The constructor adds up the MPDUs. -/
theorem toNat_foldl_size (h : Bounded mpdus) :
    (mpdus.foldl (fun size mpdu => MpduAggregator.getSizeIfAggregated mpdu.getSize size) 0).toNat =
      ampduBytes mpdus := by
  induction mpdus using List.reverseRecOn with
  | nil => rfl
  | append_singleton mpdus mpdu ih =>
    have hlt := h.ampdu
    rw [ampduBytes_concat, subframeSize] at hlt ⊢
    rw [List.foldl_append, List.foldl_cons, List.foldl_nil, toNat_getSizeIfAggregated] <;>
      rw [ih h.init, toNat_getSize_of_lt h.last]
    exact hlt

/-- The packet of an A-MPDU is the padded concatenation of its subframes. -/
theorem foldl_aggregate (mpdus : List WifiMpdu) :
    mpdus.foldl (fun packet mpdu => MpduAggregator.aggregate mpdu packet false) [] =
      concat 4 0 (mpdus.map (MpduAggregator.ampduSubframe · false)) := by
  induction mpdus using List.reverseRecOn with
  | nil => rfl
  | append_singleton mpdus mpdu ih =>
    rw [List.foldl_append, List.foldl_cons, List.foldl_nil, ih, MpduAggregator.aggregate_eq,
      List.map_append, List.map_singleton, concat_concat]

variable {psdu : WifiPsdu}

/-- `GetPacket` makes as many bytes as the A-MPDU has. -/
theorem length_getPacket (h : WifiPsdu.ofList mpdus = some psdu) :
    psdu.getPacket.length = ampduBytes mpdus := by
  rw [WifiPsdu.ofList] at h
  split_ifs at h with hnil
  obtain rfl := Option.some.inj h
  match mpdus with
  | [mpdu] =>
    change (MpduAggregator.aggregate mpdu [] true).length = _
    rw [MpduAggregator.aggregate_eq, length_append, MpduAggregator.length_ampduSubframe]
    rfl
  | first :: second :: mpdus =>
    change ((first :: second :: mpdus).foldl
      (fun packet mpdu => MpduAggregator.aggregate mpdu packet false) []).length = _
    rw [foldl_aggregate, length_concat, List.map_map, ampduBytes]
    congr 1
    exact List.map_congr_left fun mpdu _ => MpduAggregator.length_ampduSubframe mpdu false

/-- The sizes of the subframes add up to the bytes of the A-MPDU. -/
theorem sum_getAmpduSubframeSize (h : WifiPsdu.ofList (mpdus ++ [last]) = some psdu)
    (hb : Bounded (mpdus ++ [last])) :
    ∑ i, psdu.getAmpduSubframeSize i = ampduBytes (mpdus ++ [last]) := by
  obtain rfl := Option.some.inj ((if_neg (by simp)).symm.trans h)
  have hsizes : List.ofFn (WifiPsdu.getAmpduSubframeSize
      { mpduList := mpdus ++ [last]
        isSingle := (mpdus ++ [last]).length = 1
        size := (mpdus ++ [last]).foldl
          (fun size mpdu => MpduAggregator.getSizeIfAggregated mpdu.getSize size) 0 }) =
      (mpdus.map fun m => subframeSize m + padding 4 (subframeSize m)) ++ [subframeSize last] := by
    refine List.ext_getElem (by simp) fun i hi _ => ?_
    have hlen : (mpdus ++ [last]).length = mpdus.length + 1 := by simp
    have hi' : i < (mpdus ++ [last]).length := by simpa using hi
    rw [List.getElem_ofFn]
    rw [WifiPsdu.getAmpduSubframeSize]
    change (if i ≠ (mpdus ++ [last]).length - 1 then
        4 + (mpdus ++ [last])[i].getSize.toNat +
          MpduAggregator.calculatePadding (.ofNat (4 + (mpdus ++ [last])[i].getSize.toNat))
      else 4 + (mpdus ++ [last])[i].getSize.toNat) = _
    rw [toNat_getSize_of_lt (hb.pdu_lt (List.getElem_mem hi')), ← subframeSize,
      MpduAggregator.calculatePadding, UInt32.toNat_ofNat', padding_mod (by decide), hlen]
    by_cases hlt : i < mpdus.length
    · rw [if_pos (by omega), List.getElem_append_left (by simpa using hlt),
        List.getElem_append_left (by simpa using hlt), List.getElem_map]
    · obtain rfl : i = mpdus.length := by omega
      rw [if_neg (by omega)]
      simp
  rw [← List.sum_ofFn, hsizes, List.sum_append, ampduBytes, List.map_append, List.map_singleton,
    size_append_singleton (by decide), List.map_map, List.sum_singleton]
  rfl

/-- The sizes of a PSDU agree if it is an A-MPDU for the transmit parameters too. -/
theorem Tracks.sizesAgree {init : List WifiMpdu} (h : Tracks info init last)
    (hb : Bounded (init ++ [last])) {modulation : WifiModulationClass}
    (hinfo : psdus.info receiver = some info)
    (hampdu : init ≠ [] ∨ modulation.isVhtOrLater = true)
    (hpsdu : WifiPsdu.ofList (init ++ [last]) = some psdu) :
    SizesAgree modulation receiver psdus psdu := by
  have hsize : psdu.size.toNat = ampduBytes (init ++ [last]) := by
    obtain rfl := Option.some.inj ((if_neg (by simp)).symm.trans hpsdu)
    exact toNat_foldl_size hb
  refine ⟨?_, ?_, ?_⟩
  · have hcond : (0 < info.ampduSize || modulation.isVhtOrLater) = true := by
      rcases hampdu with hinit | hvht
      · obtain ⟨mpdu, hmpdu⟩ := List.exists_mem_of_ne_nil init hinit
        have hle : subframeSize mpdu ≤ ampduBytes init := le_size_of_mem (List.mem_map_of_mem hmpdu)
        rw [subframeSize, ← h.ampduSize] at hle
        have hpos : 0 < info.ampduSize := by
          rw [UInt32.lt_iff_toNat_lt, UInt32.toNat_zero]
          omega
        simp [hpos]
      · rw [hvht, Bool.or_true]
    rw [Psdus.getSize, hinfo, ← UInt32.toNat_inj, hsize, ← h.total hb]
    exact congrArg UInt32.toNat (if_pos hcond)
  · rw [hsize, length_getPacket hpsdu]
  · rw [hsize, sum_getAmpduSubframeSize hpsdu hb]

/-- `GetSizeIfAddMpdu` foresees the size after `AddMpdu`. -/
theorem Recorded.getSizeIfAddMpdu (h : Recorded receiver psdus mpdus) (hb : Bounded mpdus)
    (modulation : WifiModulationClass) (hreceiver : mpdu.header.addr1 = receiver)
    (hadd : psdus.addMpdu mpdu = some psdus') :
    psdus.getSizeIfAddMpdu mpdu modulation = psdus'.getSize modulation receiver := by
  subst hreceiver
  have hmpdu : ∀ n seqNumbers, PsduInfo.mpduSize ⟨mpdu.header, mpdu.getPacketSize, n, seqNumbers⟩ =
      mpdu.getSize := by
    intro n seqNumbers
    rw [PsduInfo.mpduSize, WifiMpdu.getSize, UInt32.add_comm mpdu.getPacketSize]
  rcases h with ⟨rfl, hnone⟩ | ⟨init, last, info, rfl, hsome, htracks⟩
  · obtain rfl := Option.some.inj ((Psdus.addMpdu_of_none hnone).symm.trans hadd)
    rw [Psdus.getSizeIfAddMpdu, hnone, Psdus.getSize]
    dsimp only
    rw [Function.update_self]
    dsimp only
    rw [hmpdu]
    rfl
  · obtain ⟨-, rfl⟩ := Psdus.addMpdu_of_some hsome hadd
    have htotal := (htracks hb).total hb
    have hpos : 0 < MpduAggregator.getSizeIfAggregated info.mpduSize info.ampduSize := by
      have hle := le_ampduBytes_concat init last
      rw [subframeSize] at hle
      rw [UInt32.lt_iff_toNat_lt, htotal, UInt32.toNat_zero]
      omega
    rw [Psdus.getSizeIfAddMpdu, hsome, Psdus.getSize]
    dsimp only
    rw [Function.update_self]
    dsimp only
    rw [hmpdu, if_pos (by simp [hpos])]

/-- After every run of calls for a receiver, the sizes agree if there are two MPDUs or the
modulation class is VHT or later, and the size that is foreseen for another MPDU is the one that it
leads to. -/
theorem sizes_agree {calls : List Addition} (hcalls : ∀ call ∈ calls, call.receiver = receiver)
    {s : Psdus × List WifiMpdu} (hrun : calls.foldlM Addition.step ({}, []) = some s)
    (hbounded : Bounded s.2) (modulation : WifiModulationClass) :
    (s.2 ≠ [] → (2 ≤ s.2.length ∨ modulation.isVhtOrLater = true) →
      ∃ psdu, WifiPsdu.ofList s.2 = some psdu ∧ SizesAgree modulation receiver s.1 psdu) ∧
      ∀ mpdu psdus', mpdu.header.addr1 = receiver → s.1.addMpdu mpdu = some psdus' →
        s.1.getSizeIfAddMpdu mpdu modulation = psdus'.getSize modulation receiver := by
  obtain ⟨psdus, mpdus⟩ := s
  have hrecorded := recorded_of_run hcalls hrun
  refine ⟨fun hne hampdu => ?_, fun mpdu psdus' hreceiver hadd =>
    hrecorded.getSizeIfAddMpdu hbounded modulation hreceiver hadd⟩
  rcases hrecorded with ⟨hnil, -⟩ | ⟨init, last, info, rfl, hsome, htracks⟩
  · exact absurd hnil hne
  · refine ⟨_, if_neg hne, (htracks hbounded).sizesAgree hbounded hsome ?_ (if_neg hne)⟩
    refine hampdu.imp_left fun hlen hinit => ?_
    rw [hinit] at hlen
    simp at hlen

/-- A QoS data frame. -/
def dataMpdu (packet : Packet) : WifiMpdu where
  header := { frameType := .qosData, addr1 := .station 1 }
  packet
  msduList := []
  msduList_ne_nil h := absurd h (by simp [MacHeader.isQosAmsdu])
  amsduPresent h := absurd rfl h

/-- An MPDU, and an A-MSDU with two MSDUs. -/
theorem sizes_agree_amsdu : ∃ s : Psdus × List WifiMpdu,
    [Addition.mpdu (dataMpdu [0]), .mpdu (dataMpdu [1, 2]), .msdu (dataMpdu [3])].foldlM
      Addition.step ({}, []) = some s ∧
    ∃ psdu, WifiPsdu.ofList s.2 = some psdu ∧ SizesAgree .ht (.station 1) s.1 psdu := by
  obtain ⟨s, hrun, hs⟩ := (Option.any_eq_true _ _).1 (show (([Addition.mpdu (dataMpdu [0]),
      .mpdu (dataMpdu [1, 2]), .msdu (dataMpdu [3])].foldlM Addition.step ({}, [])).any fun s =>
        decide (∀ mpdu ∈ s.2, mpdu.msduList ≠ [] → mpdu.packet.length < 2 ^ 16) &&
          decide (ampduBytes s.2 < 2 ^ 32) && decide (s.2.length = 2)) = true by decide +kernel)
  simp only [Bool.and_eq_true, decide_eq_true_iff] at hs
  have hcalls : ∀ call ∈ [Addition.mpdu (dataMpdu [0]), .mpdu (dataMpdu [1, 2]),
      .msdu (dataMpdu [3])], call.receiver = .station 1 := by
    simp [Addition.receiver, Addition.frame, dataMpdu]
  refine ⟨s, hrun, (sizes_agree hcalls hrun ⟨hs.1.1, hs.1.2⟩ .ht).1 ?_ (Or.inl hs.2.ge)⟩
  exact List.ne_nil_of_length_eq_add_one hs.2

/-- A run that adds an MPDU with a payload again and again. -/
theorem run_replicate (n : ℕ) {mpdu : WifiMpdu} (hpos : 0 < mpdu.getPacketSize) :
    ∃ psdus, (List.replicate n (Addition.mpdu mpdu)).foldlM Addition.step ({}, []) =
        some (psdus, List.replicate n mpdu) ∧
      ∀ info, psdus.info mpdu.header.addr1 = some info → info.amsduSize = mpdu.getPacketSize := by
  induction n with
  | zero => exact ⟨{}, rfl, fun info hinfo => by cases hinfo⟩
  | succ n ih =>
    obtain ⟨psdus, hrun, hsize⟩ := ih
    obtain ⟨psdus', hadd, hsize'⟩ : ∃ psdus', psdus.addMpdu mpdu = some psdus' ∧
        ∀ info, psdus'.info mpdu.header.addr1 = some info →
          info.amsduSize = mpdu.getPacketSize := by
      cases hinfo : psdus.info mpdu.header.addr1 with
      | none =>
        refine ⟨_, Psdus.addMpdu_of_none hinfo, fun info h => ?_⟩
        dsimp only at h
        rw [Function.update_self] at h
        rw [← Option.some.inj h]
      | some info =>
        have hassert :
            (mpdu.header.isQosData && !mpdu.header.hasData || 0 < info.amsduSize) = true := by
          simp [hsize info hinfo, hpos]
        refine ⟨_, by rw [Psdus.addMpdu, hinfo]; exact if_pos hassert, fun info' h => ?_⟩
        dsimp only at h
        rw [Function.update_self] at h
        rw [← Option.some.inj h]
    refine ⟨psdus', ?_, hsize'⟩
    have hstep : Addition.step (psdus, List.replicate n mpdu) (.mpdu mpdu) =
        some (psdus', List.replicate (n + 1) mpdu) := by
      rw [List.replicate_succ']
      change (psdus.addMpdu mpdu).bind _ = _
      rw [hadd]
      rfl
    rw [List.replicate_succ', List.foldlM_append, hrun]
    simpa using hstep

/-- Each subframe counts with its header and at least with its MPDU. -/
theorem mul_le_sum_getAmpduSubframeSize (psdu : WifiPsdu) (n : ℕ)
    (h : ∀ mpdu ∈ psdu.mpduList, n ≤ mpdu.getSize.toNat) :
    psdu.mpduList.length * (4 + n) ≤ ∑ i, psdu.getAmpduSubframeSize i := by
  have hle := Finset.card_nsmul_le_sum Finset.univ psdu.getAmpduSubframeSize (4 + n) fun i _ => by
    have hi := h _ (List.get_mem psdu.mpduList i)
    rw [WifiPsdu.getAmpduSubframeSize]
    split_ifs <;> omega
  rwa [Finset.card_univ, Fintype.card_fin, smul_eq_mul] at hle

/-- 65536 MPDUs of 65535 bytes : the subframes have more bytes than the sizes can count. -/
theorem not_sizes_agree : ∃ (calls : List Addition) (s : Psdus × List WifiMpdu) (psdu : WifiPsdu),
    (∀ call ∈ calls, call.receiver = .station 1 ∧ call.frame.packet ≠ []) ∧
      calls.foldlM Addition.step ({}, []) = some s ∧ 2 ≤ s.2.length ∧
      (∀ mpdu ∈ s.2, mpdu.msduList ≠ [] → mpdu.packet.length < 2 ^ 16) ∧
      WifiPsdu.ofList s.2 = some psdu ∧ ¬SizesAgree .ht (.station 1) s.1 psdu := by
  obtain ⟨mpdu, hmpdu⟩ : ∃ mpdu, mpdu = dataMpdu (List.replicate 65535 0) := ⟨_, rfl⟩
  have hlen : mpdu.packet.length = 65535 := by
    rw [hmpdu]
    exact List.length_replicate
  have hpos : 0 < mpdu.getPacketSize := by
    rw [WifiMpdu.getPacketSize, hlen]
    decide
  have hsize : 65535 ≤ mpdu.getSize.toNat := by
    have hle := mpdu.header.getSize_le
    rw [WifiMpdu.toNat_getSize, WifiMpdu.length_getProtocolDataUnit, hlen]
    omega
  obtain ⟨n, hn⟩ : ∃ n, n = 65536 := ⟨_, rfl⟩
  obtain ⟨psdus, hrun, -⟩ := run_replicate n hpos
  have hlist : (List.replicate n mpdu).length = n := List.length_replicate
  have hne : List.replicate n mpdu ≠ [] := List.ne_nil_of_length_pos (by omega)
  obtain ⟨psdu, hpsdu⟩ : ∃ psdu, WifiPsdu.ofList (List.replicate n mpdu) = some psdu :=
    ⟨_, if_neg hne⟩
  have hmpdus : psdu.mpduList = List.replicate n mpdu := by
    rw [← Option.some.inj ((if_neg hne).symm.trans hpsdu)]
  refine ⟨_, _, psdu, fun call hcall => ?_, hrun, ?_, fun m hm hmsdus => ?_, hpsdu, fun h => ?_⟩
  · rw [List.eq_of_mem_replicate hcall]
    refine ⟨by rw [hmpdu]; rfl, List.ne_nil_of_length_pos ?_⟩
    change 0 < mpdu.packet.length
    omega
  · dsimp only
    omega
  · rw [List.eq_of_mem_replicate hm, hlen]
    decide
  · have hmem : ∀ m ∈ psdu.mpduList, 65535 ≤ m.getSize.toNat := fun m hm => by
      rw [hmpdus] at hm
      rw [List.eq_of_mem_replicate hm]
      exact hsize
    have hle := mul_le_sum_getAmpduSubframeSize psdu 65535 hmem
    have hlt := psdu.size.toNat_lt
    rw [← h.subframes, hmpdus, hlist, hn] at hle
    omega

end Aggregation

end Ns3Pedca
