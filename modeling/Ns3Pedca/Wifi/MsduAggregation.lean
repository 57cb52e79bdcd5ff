import Ns3Pedca.Wifi.ReplacedMpdu
import Ns3Pedca.Wifi.WifiMpdu

/-!
# Aggregating queued MSDUs

`GetNextAmsdu` goes through the MPDUs behind the peeked one as long as they can be aggregated. In a
round the growing A-MSDU is dequeued, the next MSDU is appended to it, and it is put where the
MSDU stood. Whether an MPDU may be aggregated is any function of the transmit parameters.

However many MSDUs are appended to one, the packet is the padded concatenation of their subframes,
and the receiver gets them back (`deaggregate_foldl`).
-/

namespace Ns3Pedca

open WifiMacQueueContainer WifiMacQueue

/-! ## The queue of an individually addressed MPDU -/

namespace QueuedHeader

variable {hdr : QueuedHeader} {address : Mac48Address} {tid : UInt8}

theorem rcvAddr_eq_iff : hdr.rcvAddr = (.unicast, address) ↔
    hdr.addr1 = address ∧ address.isBroadcast = false ∧ address.isGroup = false := by
  rw [rcvAddr]
  split_ifs with hbroadcast hgroup
  · refine iff_of_false (by simp) ?_
    rintro ⟨rfl, hnot, -⟩
    exact Bool.false_ne_true (hnot.symm.trans hbroadcast)
  · refine iff_of_false (by simp) ?_
    rintro ⟨rfl, -, hnot⟩
    exact Bool.false_ne_true (hnot.symm.trans hgroup)
  · rw [Prod.mk.injEq, and_iff_right rfl]
    refine (and_iff_left_of_imp ?_).symm
    rintro rfl
    exact ⟨Bool.eq_false_of_not_eq_true hbroadcast, Bool.eq_false_of_not_eq_true hgroup⟩

theorem getQueueId_eq_iff : hdr.getQueueId = ⟨.qosData, .unicast, address, some tid⟩ ↔
    hdr.type = .qosData tid ∧ hdr.rcvAddr = (.unicast, address) := by
  rw [getQueueId]
  cases hdr.type <;> simp [Prod.ext_iff, and_comm, and_assoc]

end QueuedHeader

/-- `PeekByQueueId` of the MPDU behind another one. The end of the expired queue is not the end of
the container queue. -/
def WifiMacQueue.peekBehind (s : WifiMacQueue) (queueId : WifiContainerQueueId) (id : ℕ) :
    Option (Option ℕ) :=
  (s.getIt id).bind fun e =>
    if e.queueId ≠ queueId then none
    else match if e.expired then s.nextExpired id else s.next queueId id with
      | .elem next => some (some next)
      | .queueEnd _ => some none
      | .expiredEnd => none

namespace Aggregation

open MsduAggregator PaddedConcat

/-- What the container queue of an MPDU depends on. -/
def WifiMpdu.queuedHeader (mpdu : WifiMpdu) : QueuedHeader where
  type := match mpdu.header.frameType with
    | .ctl _ => .ctl
    | .mgt _ => .mgt
    | .data _ => if mpdu.header.isQosData then .qosData (.ofNat mpdu.header.qosTid) else .data
  addr1 := mpdu.header.addr1
  addr2 := mpdu.header.addr2
  amsduDestinationAddr :=
    if mpdu.header.isQosAmsdu then mpdu.msduList.head?.map (·.2.destinationAddr) else none

/-- An MPDU that is to be queued. -/
def WifiMpdu.newMpdu (mpdu : WifiMpdu) (timestamp : Time) : NewMpdu where
  header := mpdu.queuedHeader
  size := mpdu.getProtocolDataUnit.length
  timestamp := timestamp
  size_pos := by
    rw [WifiMpdu.length_getProtocolDataUnit]
    exact Nat.succ_pos _

/-- The queue, the MPDUs of its elements, and the parameters of the transmission. -/
structure QueuedMpdus (P : Type) where
  run : MacQueueRun
  mpdus : ℕ → WifiMpdu
  txParams : P

/-- What the aggregation depends on : the orders of the queues, GCR, the maximum size of an A-MSDU,
`TryAggregateMsdu`, and what the scheduler answers if it is asked what to drop. -/
structure AmsduContext (P : Type) where
  orders : QueueOrders
  useGcr : MacHeader → Bool
  gcrRecipient : Mac48Address → Mac48Address
  useConcealment : MacHeader → Bool
  getMaxAmsduSize : Mac48Address → Fin 16 → P → ℕ
  tryAggregateMsdu : P → WifiMpdu → P × Bool
  drop : WifiMacQueue → DropChoice

variable {P : Type} (ctx : AmsduContext P) (s : QueuedMpdus P)

/-- `IsGcr`. -/
def AmsduContext.isGcr (hdr : MacHeader) : Bool :=
  hdr.isQosData && hdr.addr1.isGroup && !hdr.addr1.isBroadcast && ctx.useGcr hdr

/-- `GetIndividuallyAddressedRecipient`. -/
def AmsduContext.recipient (hdr : MacHeader) : Mac48Address :=
  if ctx.isGcr hdr then ctx.gcrRecipient hdr.addr1 else hdr.addr1

namespace QueuedMpdus

/-- `Replace`, with a new MPDU, and the element it is put in. -/
def replace (run : MacQueueRun) (id : ℕ) (mpdu : WifiMpdu) (timestamp : Time) :
    Option (QueuedMpdus P × ℕ) :=
  (run.step ctx.orders (.replace (ctx.drop run.queue) id (mpdu.newMpdu timestamp))).map
    fun run' => ({ s with run := run', mpdus := Function.update s.mpdus run.nextId mpdu },
      run.nextId)

/-- A round of the loop of `GetNextAmsdu` : the next MPDU is found before the MSDU is replaced. -/
def aggregateMsdu (queueId : WifiContainerQueueId) (amsdu msdu : ℕ) :
    Option ((QueuedMpdus P × ℕ) × Option ℕ) := do
  let next ← s.run.queue.peekBehind queueId msdu
  let e ← s.run.queue.getIt amsdu
  let run ← s.run.step ctx.orders (.dequeueIfQueued [amsdu])
  let mpdu ← (s.mpdus amsdu).aggregate (some (s.mpdus msdu))
  let replaced ← s.replace ctx run msdu mpdu e.timestamp
  return (replaced, next)

/-- The loop of `GetNextAmsdu`, with the A-MSDU, the MPDU peeked at, and the number of MSDUs. -/
def getNextAmsduLoop (queueId : WifiContainerQueueId) :
    ℕ → QueuedMpdus P → ℕ → Option ℕ → ℕ → Option (QueuedMpdus P × ℕ × ℕ)
  | _, s, amsdu, none, nMsdu => some (s, amsdu, nMsdu)
  | 0, _, _, some _, _ => none
  | rounds + 1, s, amsdu, some msdu, nMsdu =>
    if (s.mpdus msdu).header.isQosAmsdu then some (s, amsdu, nMsdu)
    else
      let (txParams, accepted) := ctx.tryAggregateMsdu s.txParams (s.mpdus msdu)
      let s := { s with txParams }
      if accepted then
        (s.aggregateMsdu ctx queueId amsdu msdu).bind fun ((s, amsdu), next) =>
          getNextAmsduLoop queueId rounds s amsdu next (nMsdu + 1)
      else some (s, amsdu, nMsdu)

/-- `GetNextAmsdu`. A broadcast recipient aborts. -/
def getNextAmsdu (peekedItem : ℕ) : Option (QueuedMpdus P × Option ℕ) :=
  let mpdu := s.mpdus peekedItem
  let header := mpdu.header
  let recipient := ctx.recipient header
  if recipient.isBroadcast then none
  else if ctx.isGcr header then
    if !ctx.useConcealment header then some (s, none)
    else do
      let e ← s.run.queue.getIt peekedItem
      let created ← WifiMpdu.create mpdu.packet header
      let amsdu ← created.aggregate none
      let (s, id) ← s.replace ctx s.run peekedItem amsdu e.timestamp
      return (s, some id)
  else if recipient.isGroup then some (s, none)
  else if ctx.getMaxAmsduSize recipient header.qosTid s.txParams = 0 then some (s, none)
  else do
    let queueId : WifiContainerQueueId :=
      ⟨.qosData, .unicast, recipient, some (.ofNat header.qosTid)⟩
    let next ← s.run.queue.peekBehind queueId peekedItem
    let (s, amsdu, nMsdu) ← getNextAmsduLoop ctx queueId
      (s.run.queue.container.queues queueId).length s peekedItem next 1
    return (s, if nMsdu = 1 then none else some amsdu)

end QueuedMpdus

/-! ## MSDUs that are appended -/

namespace WifiMpdu

variable (mpdu msdu : WifiMpdu)

/-- An MPDU with one more MSDU. -/
def withMsdu : WifiMpdu :=
  mpdu.makeAmsdu.doAggregate msdu mpdu.msduList_makeAmsdu

/-- What the container queue of an individually addressed MPDU depends on does not change. -/
theorem header_makeAmsdu : mpdu.makeAmsdu.header.frameType = mpdu.header.frameType ∧
    mpdu.makeAmsdu.header.addr1 = mpdu.header.addr1 ∧
    mpdu.makeAmsdu.header.qosTid = mpdu.header.qosTid := by
  rw [makeAmsdu]
  split_ifs with hnil
  · dsimp only
    rw [amsduHeader]
    split_ifs <;> exact ⟨rfl, rfl, rfl⟩
  · exact ⟨rfl, rfl, rfl⟩

theorem type_queuedHeader_eq_iff {tid : Fin 16} :
    mpdu.queuedHeader.type = .qosData (.ofNat tid) ↔
      mpdu.header.isQosData = true ∧ mpdu.header.qosTid = tid := by
  have htid : UInt8.ofNat mpdu.header.qosTid = UInt8.ofNat tid ↔ mpdu.header.qosTid = tid := by
    constructor
    · intro h
      have hmod := congrArg UInt8.toNat h
      rw [UInt8.toNat_ofNat', UInt8.toNat_ofNat'] at hmod
      exact Fin.ext (by omega)
    · exact fun h => h ▸ rfl
  rw [queuedHeader, MacHeader.isQosData]
  cases mpdu.header.frameType with
  | data subtype =>
    dsimp only
    split_ifs with hqos <;> simp_all
  | _ => simp

theorem getQueueId_eq_iff {recipient : Mac48Address} {tid : Fin 16} :
    mpdu.queuedHeader.getQueueId =
        ⟨.qosData, .unicast, recipient, some (.ofNat tid)⟩ ↔
      mpdu.header.isQosData = true ∧ mpdu.header.qosTid = tid ∧ mpdu.header.addr1 = recipient ∧
        recipient.isBroadcast = false ∧ recipient.isGroup = false := by
  rw [QueuedHeader.getQueueId_eq_iff, QueuedHeader.rcvAddr_eq_iff, type_queuedHeader_eq_iff,
    and_assoc]
  rfl

theorem makeAmsdu_of_ne_nil (h : mpdu.msduList ≠ []) : mpdu.makeAmsdu = mpdu :=
  if_neg h

theorem makeAmsdu_withMsdu : (mpdu.withMsdu msdu).makeAmsdu = mpdu.withMsdu msdu :=
  makeAmsdu_of_ne_nil _ (List.append_ne_nil_of_right_ne_nil _ (List.cons_ne_nil _ _))

/-- An MSDU, as the receiver is to get it. -/
def deaggregated : Packet × AmsduSubframeHeader :=
  (msdu.packet, msdu.amsduSubframeHeader)

theorem foldl_withMsdu (msdus : List WifiMpdu) :
    (msdus.foldl withMsdu mpdu).makeAmsdu.packet =
        (msdus.map amsduSubframe).foldl (append 4 0) mpdu.makeAmsdu.packet ∧
      (msdus.foldl withMsdu mpdu).makeAmsdu.msduList =
        mpdu.makeAmsdu.msduList ++ msdus.map deaggregated := by
  induction msdus generalizing mpdu with
  | nil => exact ⟨rfl, (List.append_nil _).symm⟩
  | cons msdu msdus ih =>
    obtain ⟨hpacket, hmsdus⟩ := ih (mpdu.withMsdu msdu)
    rw [makeAmsdu_withMsdu] at hpacket hmsdus
    refine ⟨hpacket.trans ?_, hmsdus.trans ?_⟩
    · exact congrArg (List.foldl _ · _) (msdu.doAggregatePacket_eq mpdu.makeAmsdu.packet)
    · exact List.append_assoc _ _ _

theorem foldl_withMsdu_ne_nil {msdus : List WifiMpdu} (hne : msdus ≠ []) :
    (msdus.foldl withMsdu mpdu).makeAmsdu = msdus.foldl withMsdu mpdu := by
  obtain ⟨init, last, rfl⟩ := (List.eq_nil_or_concat' msdus).resolve_left hne
  rw [List.foldl_append]
  exact makeAmsdu_withMsdu _ _

/-- An A-MSDU is the padded concatenation of the subframes of its MSDUs. -/
theorem foldl_withMsdu_of_msdu (hmsdu : mpdu.msduList = []) {msdus : List WifiMpdu}
    (hne : msdus ≠ []) :
    (msdus.foldl withMsdu mpdu).packet = concat 4 0 ((mpdu :: msdus).map amsduSubframe) ∧
      (msdus.foldl withMsdu mpdu).msduList = (mpdu :: msdus).map deaggregated := by
  obtain ⟨hpacket, hmsdus⟩ := foldl_withMsdu mpdu msdus
  rw [foldl_withMsdu_ne_nil mpdu hne] at hpacket hmsdus
  have hmake : mpdu.makeAmsdu.packet = append 4 0 [] mpdu.amsduSubframe ∧
      mpdu.makeAmsdu.msduList = [mpdu.deaggregated] := by
    rw [makeAmsdu, if_pos hmsdu]
    exact ⟨mpdu.doAggregatePacket_eq [], rfl⟩
  rw [hmake.1] at hpacket
  rw [hmake.2] at hmsdus
  exact ⟨hpacket, hmsdus⟩

/-- The receiver gets the MSDUs back. -/
theorem deaggregate_foldl (hmsdu : mpdu.msduList = []) {msdus : List WifiMpdu} (hne : msdus ≠ [])
    (hlen : ∀ m ∈ mpdu :: msdus, m.packet.length < 65536) :
    deaggregate (msdus.foldl withMsdu mpdu).packet =
      some ((mpdu :: msdus).map deaggregated) := by
  have hsubframes : (mpdu :: msdus).map amsduSubframe =
      ((mpdu :: msdus).map deaggregated).map subframe :=
    List.map_map.symm
  rw [(foldl_withMsdu_of_msdu mpdu hmsdu hne).1, hsubframes]
  refine deaggregate_concat fun x hx => ?_
  obtain ⟨m, hm, rfl⟩ := List.mem_map.1 hx
  exact UInt16.toNat_ofNat_of_lt' (hlen m hm)

theorem msduList_eq_nil (hdata : mpdu.header.isQosData = true)
    (hamsdu : mpdu.header.isQosAmsdu = false) : mpdu.msduList = [] := by
  by_contra hne
  rw [MacHeader.isQosAmsdu, hdata, mpdu.amsduPresent hne] at hamsdu
  cases hamsdu

end WifiMpdu

end Aggregation

end Ns3Pedca
