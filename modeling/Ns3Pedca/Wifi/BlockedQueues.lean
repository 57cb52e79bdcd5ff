import Ns3Pedca.Runs
import Ns3Pedca.SortedMap
import Ns3Pedca.Wifi.Txop
import Ns3Pedca.Wifi.WifiContainerQueueId

/-!
# Blocked queues

`WifiMacQueueSchedulerImpl` keeps a mask of the reasons for which a container queue is blocked, for
each link that its frames can be sent on. Queues are created when they are first needed, so what
was blocked by a request for all queues is kept beside the masks, and is where the masks of a new
queue start.

The requests are logged, the last one first. A bit of a mask, and the answer for all queues on a
link, are what the last request that covers them asked for (`Follows`, `Follows.step`), as long as
the links of a queue are always the same.
-/

namespace Ns3Pedca

/-- `WifiQueueBlockedReason`. -/
inductive WifiQueueBlockedReason
  | waitingAddbaResp | powerSaveMode | usingOtherEmlsrLink | waitingEmlsrTransitionDelay
  | tidNotMapped
  deriving DecidableEq

/-- Every reason. -/
def WifiQueueBlockedReason.all : List WifiQueueBlockedReason :=
  [.waitingAddbaResp, .powerSaveMode, .usingOtherEmlsrLink, .waitingEmlsrTransitionDelay,
    .tidNotMapped]

/-- The reasons for which a queue is blocked on a link. -/
abbrev Mask := WifiQueueBlockedReason → Bool

/-- The links of a device : what the scheduler asks `WifiMac` and the station managers. -/
structure MacLinks where
  address : Mac48Address
  linkIds : List ℕ
  getLinkIdByAddress : Mac48Address → Option ℕ
  getAffiliatedStaAddress : ℕ → Mac48Address → Option Mac48Address
  mem_linkIds : ∀ addr, ∀ linkId ∈ getLinkIdByAddress addr, linkId ∈ linkIds

/-- The links on which frames with this header can be sent : those set up with the receiver if it is
a frame of a multi-link device, or else the link that has its transmitter address. -/
def MacLinks.setUpLinks (mac : MacLinks) (hdr : QueuedHeader) : List ℕ :=
  if 1 < mac.linkIds.length ∧ hdr.addr2 = mac.address then
    mac.linkIds.filter fun linkId =>
      hdr.addr1.isGroup || (mac.getAffiliatedStaAddress linkId hdr.addr1).isSome
  else (mac.getLinkIdByAddress hdr.addr2).toList

/-- `WifiMacQueueSchedulerImpl` : the masks of each queue of an access category, and
`m_blockAllInfo`. -/
structure QueueScheduler where
  queueInfoMap : AcIndex → WifiContainerQueueId → Option (SortedMap ℕ Mask) := fun _ _ => none
  blockAllInfo : WifiQueueBlockedReason → Option (Finset ℕ) := fun _ => none

namespace QueueScheduler

variable (mac : MacLinks) (s : QueueScheduler)

/-- The mask of a new link of a queue : the reasons for which all queues are blocked on it. -/
def blockAllMask (linkId : ℕ) : Mask :=
  fun reason => (s.blockAllInfo reason).any (linkId ∈ ·)

/-- The masks of a queue are replaced. -/
def setQueueInfo (ac : AcIndex) (queueId : WifiContainerQueueId) (linkIds : SortedMap ℕ Mask) :
    QueueScheduler :=
  { s with
    queueInfoMap := fun ac' queueId' =>
      if ac' = ac ∧ queueId' = queueId then some linkIds else s.queueInfoMap ac' queueId' }

/-- A round of the loop over the links of a multi-link device. -/
def updateLink (hdr : QueuedHeader) (linkIds : SortedMap ℕ Mask) (linkId : ℕ) : SortedMap ℕ Mask :=
  if hdr.addr1.isGroup || (mac.getAffiliatedStaAddress linkId hdr.addr1).isSome then
    if (linkIds.find? linkId).isSome then linkIds
    else linkIds.insert linkId (s.blockAllMask linkId)
  else linkIds.erase linkId

/-- `InitQueueInfo`. The transmitter address has to be that of the device or of a link, and in the
latter case there is at most one link. -/
def initQueueInfo (ac : AcIndex) (hdr : QueuedHeader) : Option QueueScheduler :=
  let linkIds := (s.queueInfoMap ac hdr.getQueueId).getD .empty
  if 1 < mac.linkIds.length ∧ hdr.addr2 = mac.address then
    some (s.setQueueInfo ac hdr.getQueueId (mac.linkIds.foldl (s.updateLink mac hdr) linkIds))
  else do
    let linkId ← mac.getLinkIdByAddress hdr.addr2
    guard (linkIds.entries.length ≤ 1)
    return s.setQueueInfo ac hdr.getQueueId
      (if linkIds.entries.head?.map Prod.fst = some linkId then linkIds
      else SortedMap.empty.insert linkId (s.blockAllMask linkId))

/-- The bit of the reason is set, or cleared, on the links. -/
def setBit (block : Bool) (reason : WifiQueueBlockedReason) (linkIds : Finset ℕ) (linkId : ℕ)
    (mask : Mask) : Mask :=
  if linkIds = ∅ ∨ linkId ∈ linkIds then fun r => if r = reason then block else mask r else mask

/-- The headers that stand for the queues of a request. -/
def headers (types : List WifiContainerQueueType) (rxAddress txAddress : Mac48Address)
    (tids : List UInt8) : List QueuedHeader :=
  types.flatMap fun
    | .ctl => [⟨.ctl, rxAddress, txAddress, none⟩]
    | .mgt => [⟨.mgt, rxAddress, txAddress, none⟩]
    | .qosData => tids.map fun tid => ⟨.qosData tid, rxAddress, txAddress, none⟩
    | .data => [⟨.data, rxAddress, txAddress, none⟩]

/-- A round of the loop of `DoBlockQueues`. -/
def blockQueue (block : Bool) (reason : WifiQueueBlockedReason) (ac : AcIndex)
    (linkIds : Finset ℕ) (s : QueueScheduler) (hdr : QueuedHeader) : Option QueueScheduler := do
  let t ← s.initQueueInfo mac ac hdr
  let masks ← t.queueInfoMap ac hdr.getQueueId
  return t.setQueueInfo ac hdr.getQueueId (masks.mapValues (setBit block reason linkIds))

/-- `DoBlockQueues`. -/
def doBlockQueues (block : Bool) (reason : WifiQueueBlockedReason) (ac : AcIndex)
    (types : List WifiContainerQueueType) (rxAddress txAddress : Mac48Address) (tids : List UInt8)
    (linkIds : Finset ℕ) : Option QueueScheduler := do
  guard (.qosData ∈ types → tids ≠ [])
  (headers types rxAddress txAddress tids).foldlM (blockQueue mac block reason ac linkIds) s

/-- `DoBlockAllQueues`. -/
def doBlockAllQueues (block : Bool) (reason : WifiQueueBlockedReason) (linkIds : Finset ℕ) :
    QueueScheduler :=
  { s with
    queueInfoMap := fun ac queueId =>
      (s.queueInfoMap ac queueId).map (SortedMap.mapValues · (setBit block reason linkIds)) }

/-- `BlockAllQueues`. -/
def blockAllQueues (reason : WifiQueueBlockedReason) (linkIds : Finset ℕ) : QueueScheduler :=
  { s.doBlockAllQueues true reason linkIds with
    blockAllInfo := fun r =>
      if r ≠ reason then s.blockAllInfo r
      else if linkIds = ∅ then some mac.linkIds.toFinset
      else some ((s.blockAllInfo r).getD ∅ ∪ linkIds) }

/-- `UnblockAllQueues`. -/
def unblockAllQueues (reason : WifiQueueBlockedReason) (linkIds : Finset ℕ) : QueueScheduler :=
  { s.doBlockAllQueues false reason linkIds with
    blockAllInfo := fun r =>
      if r ≠ reason then s.blockAllInfo r
      else match s.blockAllInfo r with
      | none => none
      | some blocked =>
        let blocked := blocked.filter fun id => ¬ (linkIds = ∅ ∨ id ∈ linkIds)
        if blocked = ∅ then none else some blocked }

/-- `GetAllQueuesBlockedOnLink`, for a reason or for any (`REASONS_COUNT`). -/
def getAllQueuesBlockedOnLink (linkId : ℕ) (reason : Option WifiQueueBlockedReason) : Bool :=
  WifiQueueBlockedReason.all.any fun r =>
    (reason.isNone || reason = some r) && (s.blockAllInfo r).any (linkId ∈ ·)

/-- `GetQueueLinkMask`. -/
def getQueueLinkMask (ac : AcIndex) (queueId : WifiContainerQueueId) (linkId : ℕ) : Option Mask :=
  (s.queueInfoMap ac queueId).bind (SortedMap.find? · linkId)

end QueueScheduler

/-- A request to block or to unblock : some queues of an access category, or all queues (`none`),
on some links, or on all links if there are none. -/
structure BlockRequest where
  block : Bool
  reason : WifiQueueBlockedReason
  queues : Option (AcIndex × List WifiContainerQueueId)
  linkIds : Finset ℕ

namespace BlockRequest

variable (req : BlockRequest)

/-- The request is about the link and the reason. -/
def coversLink (linkId : ℕ) (reason : WifiQueueBlockedReason) : Bool :=
  req.reason = reason ∧ (req.linkIds = ∅ ∨ linkId ∈ req.linkIds)

/-- The request is for all queues. -/
def coversAll (linkId : ℕ) (reason : WifiQueueBlockedReason) : Bool :=
  req.coversLink linkId reason && req.queues.isNone

/-- The request is for the queue, or for all queues. -/
def covers (ac : AcIndex) (queueId : WifiContainerQueueId) (linkId : ℕ)
    (reason : WifiQueueBlockedReason) : Bool :=
  req.coversLink linkId reason &&
    req.queues.all fun queues => queues.1 = ac ∧ queueId ∈ queues.2

end BlockRequest

/-- The last request that satisfies the test was one to block. -/
def lastBlocks (test : BlockRequest → Bool) (requests : List BlockRequest) : Bool :=
  (requests.find? test).any BlockRequest.block

/-- The scheduler, and the requests made so far, the last one first. -/
structure BlockedQueues where
  scheduler : QueueScheduler := {}
  requests : List BlockRequest := []

/-- What is asked of the scheduler. -/
inductive BlockEvent
  | createQueue (ac : AcIndex) (hdr : QueuedHeader)
  | blockQueues (block : Bool) (reason : WifiQueueBlockedReason) (ac : AcIndex)
    (types : List WifiContainerQueueType) (rxAddress txAddress : Mac48Address) (tids : List UInt8)
    (linkIds : Finset ℕ)
  | blockAllQueues (reason : WifiQueueBlockedReason) (linkIds : Finset ℕ)
  | unblockAllQueues (reason : WifiQueueBlockedReason) (linkIds : Finset ℕ)

namespace BlockedQueues

open QueueScheduler

variable (mac : MacLinks) (links : AcIndex → WifiContainerQueueId → List ℕ) (s : BlockedQueues)

/-- One step. -/
def step : BlockEvent → Option BlockedQueues
  | .createQueue ac hdr => do
    let scheduler ← s.scheduler.initQueueInfo mac ac hdr
    return { s with scheduler }
  | .blockQueues block reason ac types rxAddress txAddress tids linkIds => do
    let scheduler ← s.scheduler.doBlockQueues mac block reason ac types rxAddress txAddress tids
      linkIds
    let queueIds := (headers types rxAddress txAddress tids).map QueuedHeader.getQueueId
    return { scheduler, requests := ⟨block, reason, some (ac, queueIds), linkIds⟩ :: s.requests }
  | .blockAllQueues reason linkIds => some
    { scheduler := s.scheduler.blockAllQueues mac reason linkIds
      requests := ⟨true, reason, none, linkIds⟩ :: s.requests }
  | .unblockAllQueues reason linkIds => some
    { scheduler := s.scheduler.unblockAllQueues reason linkIds
      requests := ⟨false, reason, none, linkIds⟩ :: s.requests }

/-- The headers that queues are created for. -/
def eventHeaders : BlockEvent → List (AcIndex × QueuedHeader)
  | .createQueue ac hdr => [(ac, hdr)]
  | .blockQueues _ _ ac types rxAddress txAddress tids _ =>
    (headers types rxAddress txAddress tids).map (ac, ·)
  | _ => []

/-- The links that are set up for a queue are always `links`. -/
def StepOk (_ : BlockedQueues) (ev : BlockEvent) : Prop :=
  ∀ x ∈ eventHeaders ev, mac.setUpLinks x.2 = links x.1 x.2.getQueueId

/-- The masks, and what is blocked for all queues, follow the last request. -/
structure Follows (s : BlockedQueues) : Prop where
  mask : ∀ ac queueId linkId mask,
    s.scheduler.getQueueLinkMask ac queueId linkId = some mask →
      ∀ reason, mask reason = lastBlocks (·.covers ac queueId linkId reason) s.requests
  blockAll : ∀ linkId ∈ mac.linkIds, ∀ reason, (s.scheduler.blockAllInfo reason).any (linkId ∈ ·) =
    lastBlocks (·.coversAll linkId reason) s.requests
  linkIds : ∀ ac queueId m, s.scheduler.queueInfoMap ac queueId = some m →
    ∀ linkId, (m.find? linkId).isSome ↔ linkId ∈ links ac queueId
  created : ∀ ac queueId, s.scheduler.queueInfoMap ac queueId = none → ∀ req ∈ s.requests,
    ∀ queues ∈ req.queues, ¬ (queues.1 = ac ∧ queueId ∈ queues.2)

variable {mac links s}

/-! ## Creating a queue -/

theorem mem_linkIds {hdr : QueuedHeader} {linkId : ℕ} (h : linkId ∈ mac.setUpLinks hdr) :
    linkId ∈ mac.linkIds := by
  rw [MacLinks.setUpLinks] at h
  split_ifs at h
  · exact (List.mem_filter.1 h).1
  · exact mac.mem_linkIds _ linkId (Option.mem_toList.1 h)

theorem find?_updateLink (s : QueueScheduler) (hdr : QueuedHeader) (m : SortedMap ℕ Mask)
    (i linkId : ℕ) : (s.updateLink mac hdr m i).find? linkId =
      if linkId = i then
        if hdr.addr1.isGroup || (mac.getAffiliatedStaAddress i hdr.addr1).isSome then
          some ((m.find? i).getD (s.blockAllMask i))
        else none
      else m.find? linkId := by
  rw [updateLink]
  split_ifs with hsetUp hold heq heq heq <;> try subst heq
  · rw [Option.eq_some_of_isSome hold, Option.getD_some]
  · rfl
  · rw [SortedMap.find?_insert, if_pos rfl, Option.not_isSome_iff_eq_none.1 hold, Option.getD_none]
  · rw [SortedMap.find?_insert, if_neg heq]
  · rw [SortedMap.find?_erase, if_pos rfl]
  · rw [SortedMap.find?_erase, if_neg heq]

theorem find?_foldl_updateLink (s : QueueScheduler) (hdr : QueuedHeader) (linkIds : List ℕ)
    (m : SortedMap ℕ Mask) (linkId : ℕ) :
    (linkIds.foldl (s.updateLink mac hdr) m).find? linkId =
      if linkId ∈ linkIds then
        if hdr.addr1.isGroup || (mac.getAffiliatedStaAddress linkId hdr.addr1).isSome then
          some ((m.find? linkId).getD (s.blockAllMask linkId))
        else none
      else m.find? linkId := by
  induction linkIds generalizing m with
  | nil => rfl
  | cons i linkIds ih =>
    rw [List.foldl_cons, ih, find?_updateLink]
    by_cases heq : linkId = i
    · subst heq
      rw [if_pos List.mem_cons_self, if_pos rfl]
      split_ifs <;> rfl
    · rw [if_neg heq]
      simp only [List.mem_cons, heq, false_or]

/-- A queue that is created, or already there, has a mask for each link that is set up. -/
theorem initQueueInfo_spec {s t : QueueScheduler} {ac : AcIndex} {hdr : QueuedHeader}
    (hold : ∀ linkId, (((s.queueInfoMap ac hdr.getQueueId).getD .empty).find? linkId).isSome →
      linkId ∈ mac.setUpLinks hdr) (h : s.initQueueInfo mac ac hdr = some t) :
    ∃ m : SortedMap ℕ Mask, t = s.setQueueInfo ac hdr.getQueueId m ∧ ∀ linkId, m.find? linkId =
      if linkId ∈ mac.setUpLinks hdr then
        some ((((s.queueInfoMap ac hdr.getQueueId).getD .empty).find? linkId).getD
          (s.blockAllMask linkId))
      else none := by
  rw [initQueueInfo] at h
  rw [MacLinks.setUpLinks] at hold ⊢
  generalize (s.queueInfoMap ac hdr.getQueueId).getD .empty = m at hold h ⊢
  split_ifs at h hold ⊢ with hmld
  · refine ⟨_, (Option.some.inj h).symm, fun linkId => ?_⟩
    rw [find?_foldl_updateLink]
    simp only [List.mem_filter]
    by_cases hmem : linkId ∈ mac.linkIds
    · simp only [hmem, if_true, true_and]
    · rw [if_neg hmem, if_neg fun h => hmem h.1]
      refine Option.not_isSome_iff_eq_none.1 fun hsome => hmem ?_
      exact (List.mem_filter.1 (hold linkId hsome)).1
  · obtain ⟨i, hi, h⟩ := Option.bind_eq_some_iff.1 h
    obtain ⟨-, -, h⟩ := Option.bind_eq_some_iff.1 h
    refine ⟨_, (Option.some.inj h).symm, fun linkId => ?_⟩
    rw [hi] at hold ⊢
    have hold' : ∀ x ∈ m.entries, x.1 = i := fun x hx =>
      List.mem_singleton.1 (hold x.1 (Option.isSome_of_mem (SortedMap.find?_eq_some.2 hx)))
    simp only [Option.toList_some, List.mem_singleton]
    split_ifs with hhead heq heq
    · obtain ⟨x, hx, rfl⟩ := Option.map_eq_some_iff.1 hhead
      rw [heq, SortedMap.find?_eq_some.2 (List.mem_of_head? hx), Option.getD_some]
    · exact SortedMap.find?_eq_none.2 fun x hx hx' => heq (hx' ▸ hold' x hx)
    all_goals
      have hnil : m.find? linkId = none := by
        refine SortedMap.find?_eq_none.2 fun x hx _ => hhead ?_
        cases hentries : m.entries with
        | nil => exact absurd hx (hentries ▸ List.not_mem_nil)
        | cons y l => rw [List.head?_cons, Option.map_some, hold' y (hentries ▸ List.mem_cons_self)]
      rw [SortedMap.find?_insert]
    · rw [if_pos heq, hnil, heq, Option.getD_none]
    · rw [if_neg heq, SortedMap.find?_empty]

theorem lastBlocks_cons (test : BlockRequest → Bool) (req : BlockRequest)
    (requests : List BlockRequest) :
    lastBlocks test (req :: requests) =
      if test req then req.block else lastBlocks test requests := by
  rw [lastBlocks, List.find?_cons]
  cases test req <;> rfl

theorem lastBlocks_congr {test test' : BlockRequest → Bool} {requests : List BlockRequest}
    (h : ∀ req ∈ requests, test req = test' req) :
    lastBlocks test requests = lastBlocks test' requests := by
  induction requests with
  | nil => rfl
  | cons req requests ih =>
    obtain ⟨hreq, hreqs⟩ := List.forall_mem_cons.1 h
    rw [lastBlocks_cons, lastBlocks_cons, hreq, ih hreqs]

theorem queueInfoMap_setQueueInfo (s : QueueScheduler) (ac : AcIndex)
    (queueId : WifiContainerQueueId) (m : SortedMap ℕ Mask) :
    (s.setQueueInfo ac queueId m).queueInfoMap ac queueId = some m :=
  if_pos ⟨rfl, rfl⟩

theorem queueInfoMap_setQueueInfo_of_ne {s : QueueScheduler} {ac ac' : AcIndex}
    {queueId queueId' : WifiContainerQueueId} {m : SortedMap ℕ Mask}
    (h : ¬ (ac' = ac ∧ queueId' = queueId)) :
    (s.setQueueInfo ac queueId m).queueInfoMap ac' queueId' = s.queueInfoMap ac' queueId' :=
  if_neg h

/-- The masks of a queue change, and the log. -/
theorem Follows.setQueueInfo (hs : Follows mac links s) {ac : AcIndex}
    {queueId : WifiContainerQueueId} {m : SortedMap ℕ Mask} {requests : List BlockRequest}
    (hlinks : ∀ linkId, (m.find? linkId).isSome ↔ linkId ∈ links ac queueId)
    (hmask : ∀ linkId mask, m.find? linkId = some mask → ∀ reason,
      mask reason = lastBlocks (·.covers ac queueId linkId reason) requests)
    (hother : ∀ ac' queueId', ¬ (ac' = ac ∧ queueId' = queueId) → ∀ linkId reason,
      lastBlocks (·.covers ac' queueId' linkId reason) requests =
        lastBlocks (·.covers ac' queueId' linkId reason) s.requests)
    (hall : ∀ linkId reason, lastBlocks (·.coversAll linkId reason) requests =
      lastBlocks (·.coversAll linkId reason) s.requests)
    (hcreated : ∀ req ∈ requests, req ∈ s.requests ∨
      ∀ queues ∈ req.queues, ∀ ac' queueId', queues.1 = ac' ∧ queueId' ∈ queues.2 →
        (s.scheduler.setQueueInfo ac queueId m).queueInfoMap ac' queueId' ≠ none) :
    Follows mac links ⟨s.scheduler.setQueueInfo ac queueId m, requests⟩ where
  mask ac' queueId' linkId mask hfind := by
    by_cases heq : ac' = ac ∧ queueId' = queueId
    · obtain ⟨rfl, rfl⟩ := heq
      rw [getQueueLinkMask, queueInfoMap_setQueueInfo] at hfind
      exact hmask linkId mask hfind
    · intro reason
      rw [getQueueLinkMask, queueInfoMap_setQueueInfo_of_ne heq] at hfind
      exact (hs.mask ac' queueId' linkId mask hfind reason).trans
        (hother ac' queueId' heq linkId reason).symm
  blockAll linkId hmem reason := (hs.blockAll linkId hmem reason).trans (hall linkId reason).symm
  linkIds ac' queueId' m' hfind := by
    by_cases heq : ac' = ac ∧ queueId' = queueId
    · obtain ⟨rfl, rfl⟩ := heq
      rw [queueInfoMap_setQueueInfo] at hfind
      cases hfind
      exact hlinks
    · rw [queueInfoMap_setQueueInfo_of_ne heq] at hfind
      exact hs.linkIds ac' queueId' m' hfind
  created ac' queueId' hnone req hreq queues hqueues hcovers := by
    rcases hcreated req hreq with hold | hnew
    · have hne : ¬ (ac' = ac ∧ queueId' = queueId) := by
        rintro ⟨rfl, rfl⟩
        rw [queueInfoMap_setQueueInfo] at hnone
        cases hnone
      rw [queueInfoMap_setQueueInfo_of_ne hne] at hnone
      exact hs.created ac' queueId' hnone req hold queues hqueues hcovers
    · exact hnew queues hqueues ac' queueId' hcovers hnone

/-- A queue that is created late starts with what is blocked for all queues. -/
theorem Follows.initQueueInfo (hs : Follows mac links s) {ac : AcIndex} {hdr : QueuedHeader}
    (hlinks : mac.setUpLinks hdr = links ac hdr.getQueueId) {t : QueueScheduler}
    (h : s.scheduler.initQueueInfo mac ac hdr = some t) : Follows mac links ⟨t, s.requests⟩ ∧
      (∀ ac' queueId', t.queueInfoMap ac' queueId' = none →
        s.scheduler.queueInfoMap ac' queueId' = none) ∧
      t.queueInfoMap ac hdr.getQueueId ≠ none := by
  obtain ⟨m, rfl, hfind⟩ := initQueueInfo_spec (fun linkId hsome => by
    rw [hlinks]
    cases hold : s.scheduler.queueInfoMap ac hdr.getQueueId with
    | none =>
      rw [hold] at hsome
      cases hsome
    | some m =>
      rw [hold] at hsome
      exact (hs.linkIds _ _ m hold linkId).1 hsome) h
  refine ⟨hs.setQueueInfo ?_ ?_ (fun _ _ _ _ _ => rfl) (fun _ _ => rfl) (fun _ h => Or.inl h),
    ?_, ?_⟩
  · intro linkId
    rw [hfind, hlinks]
    split_ifs with hmem
    · exact iff_of_true rfl hmem
    · exact iff_of_false Bool.false_ne_true hmem
  · intro linkId mask hmask reason
    rw [hfind] at hmask
    split_ifs at hmask with hmem
    cases hold : s.scheduler.queueInfoMap ac hdr.getQueueId with
    | none =>
      rw [hold] at hmask
      obtain rfl := Option.some.inj hmask
      refine (hs.blockAll linkId (mem_linkIds hmem) reason).trans (lastBlocks_congr ?_)
      intro req hreq
      rw [BlockRequest.coversAll, BlockRequest.covers]
      cases hqueues : req.queues with
      | none => rfl
      | some queues =>
        have hnot := hs.created _ _ hold req hreq queues hqueues
        rw [Option.isNone_some, Option.all_some, decide_eq_false hnot]
    | some m' =>
      have hsome := (hs.linkIds _ _ m' hold linkId).2 (hlinks ▸ hmem)
      obtain ⟨mask', hmask'⟩ := Option.isSome_iff_exists.1 hsome
      rw [hold, Option.getD_some, hmask', Option.getD_some] at hmask
      obtain rfl := Option.some.inj hmask
      refine hs.mask _ _ linkId mask' ?_ reason
      rw [getQueueLinkMask, hold]
      exact hmask'
  · intro ac' queueId' hnone
    by_cases heq : ac' = ac ∧ queueId' = hdr.getQueueId
    · obtain ⟨rfl, rfl⟩ := heq
      rw [queueInfoMap_setQueueInfo] at hnone
      cases hnone
    · rwa [queueInfoMap_setQueueInfo_of_ne heq] at hnone
  · rw [queueInfoMap_setQueueInfo]
    exact Option.some_ne_none _

/-! ## Requests -/

/-- What a request for no queue yet says is nothing. -/
theorem Follows.request_nil (hs : Follows mac links s) (block : Bool)
    (reason : WifiQueueBlockedReason) (ac : AcIndex) (linkIds : Finset ℕ) :
    Follows mac links ⟨s.scheduler, ⟨block, reason, some (ac, []), linkIds⟩ :: s.requests⟩ where
  mask ac' queueId linkId mask hmask r := by
    rw [lastBlocks_cons, if_neg]
    · exact hs.mask ac' queueId linkId mask hmask r
    · simp [BlockRequest.covers]
  blockAll linkId hmem r := by
    rw [lastBlocks_cons, if_neg]
    · exact hs.blockAll linkId hmem r
    · simp [BlockRequest.coversAll]
  linkIds := hs.linkIds
  created ac' queueId hnone req hreq queues hqueues := by
    rcases List.mem_cons.1 hreq with rfl | hreq
    · obtain rfl := Option.some.inj hqueues
      exact fun h => absurd h.2 List.not_mem_nil
    · exact hs.created ac' queueId hnone req hreq queues hqueues

/-- A request for some queues, and the requests before it. -/
theorem lastBlocks_covers_cons (block : Bool) (reason : WifiQueueBlockedReason) (ac ac' : AcIndex)
    (ids : List WifiContainerQueueId) (linkIds : Finset ℕ) (requests : List BlockRequest)
    (queueId : WifiContainerQueueId) (linkId : ℕ) (r : WifiQueueBlockedReason) :
    lastBlocks (·.covers ac' queueId linkId r)
        (⟨block, reason, some (ac, ids), linkIds⟩ :: requests) =
      if (ac = ac' ∧ queueId ∈ ids) ∧ reason = r ∧ (linkIds = ∅ ∨ linkId ∈ linkIds) then block
      else lastBlocks (·.covers ac' queueId linkId r) requests := by
  rw [lastBlocks_cons]
  simp only [BlockRequest.covers, BlockRequest.coversLink, Option.all_some, Bool.and_eq_true,
    decide_eq_true_iff]
  exact if_congr And.comm rfl rfl

theorem setBit_eq (block : Bool) (reason : WifiQueueBlockedReason) (linkIds : Finset ℕ)
    (linkId : ℕ) (mask : Mask) (r : WifiQueueBlockedReason) :
    setBit block reason linkIds linkId mask r =
      if reason = r ∧ (linkIds = ∅ ∨ linkId ∈ linkIds) then block else mask r := by
  rw [setBit]
  by_cases hlink : linkIds = ∅ ∨ linkId ∈ linkIds
  · rw [if_pos hlink]
    exact if_congr ⟨fun h => ⟨h.symm, hlink⟩, fun h => h.1.symm⟩ rfl rfl
  · rw [if_neg hlink, if_neg fun h => hlink h.2]

/-- One queue more gets its bits. -/
theorem Follows.blockQueue {block : Bool} {reason : WifiQueueBlockedReason} {ac : AcIndex}
    {linkIds : Finset ℕ} {ids : List WifiContainerQueueId} {t u : QueueScheduler}
    {requests : List BlockRequest} {hdr : QueuedHeader}
    (ht : Follows mac links ⟨t, ⟨block, reason, some (ac, ids), linkIds⟩ :: requests⟩)
    (hlinks : mac.setUpLinks hdr = links ac hdr.getQueueId)
    (h : QueueScheduler.blockQueue mac block reason ac linkIds t hdr = some u) :
    Follows mac links
      ⟨u, ⟨block, reason, some (ac, ids ++ [hdr.getQueueId]), linkIds⟩ :: requests⟩ := by
  obtain ⟨v, hv, h⟩ := Option.bind_eq_some_iff.1 h
  obtain ⟨m, hm, h⟩ := Option.bind_eq_some_iff.1 h
  obtain rfl := Option.some.inj h
  obtain ⟨hinit, -, -⟩ := ht.initQueueInfo hlinks hv
  refine hinit.setQueueInfo ?_ ?_ ?_ ?_ ?_
  · intro linkId
    rw [SortedMap.find?_mapValues, Option.isSome_map]
    exact hinit.linkIds _ _ m hm linkId
  · intro linkId mask hmask r
    rw [SortedMap.find?_mapValues] at hmask
    obtain ⟨mask', hmask', rfl⟩ := Option.map_eq_some_iff.1 hmask
    have hbefore := hinit.mask ac hdr.getQueueId linkId mask'
      (by rw [getQueueLinkMask, hm]; exact hmask') r
    rw [lastBlocks_covers_cons] at hbefore ⊢
    rw [setBit_eq, hbefore]
    by_cases hcovers : reason = r ∧ (linkIds = ∅ ∨ linkId ∈ linkIds)
    · have hmem : hdr.getQueueId ∈ ids ++ [hdr.getQueueId] :=
        List.mem_append_right _ List.mem_cons_self
      rw [if_pos hcovers, if_pos ⟨⟨rfl, hmem⟩, hcovers⟩]
    · rw [if_neg hcovers, if_neg fun h => hcovers h.2, if_neg fun h => hcovers h.2]
  · intro ac' queueId' hne linkId r
    rw [lastBlocks_covers_cons, lastBlocks_covers_cons]
    refine if_congr (and_congr_left fun _ => and_congr_right fun hac => ?_) rfl rfl
    rw [List.mem_append, or_iff_left]
    exact fun hmem => hne ⟨hac.symm, List.mem_singleton.1 hmem⟩
  · intro linkId r
    rw [lastBlocks_cons, lastBlocks_cons, BlockRequest.coversAll, BlockRequest.coversAll]
    simp
  · intro req hreq
    rcases List.mem_cons.1 hreq with rfl | hreq
    · refine Or.inr fun queues hqueues ac' queueId' hmem => ?_
      obtain rfl := Option.some.inj hqueues
      obtain ⟨rfl, hmem⟩ := hmem
      by_cases heq : queueId' = hdr.getQueueId
      · subst heq
        rw [queueInfoMap_setQueueInfo]
        exact Option.some_ne_none _
      · rw [queueInfoMap_setQueueInfo_of_ne fun h => heq h.2]
        intro hnone
        refine hinit.created ac queueId' hnone _ List.mem_cons_self _ rfl ⟨rfl, ?_⟩
        exact (List.mem_append.1 hmem).resolve_right fun h => heq (List.mem_singleton.1 h)
    · exact Or.inl (List.mem_cons_of_mem _ hreq)

/-- The queues of a request get their bits one after the other. -/
theorem Follows.blockQueues {block : Bool} {reason : WifiQueueBlockedReason} {ac : AcIndex}
    {linkIds : Finset ℕ} {requests : List BlockRequest} (hdrs : List QueuedHeader)
    {ids : List WifiContainerQueueId} {t u : QueueScheduler}
    (ht : Follows mac links ⟨t, ⟨block, reason, some (ac, ids), linkIds⟩ :: requests⟩)
    (hlinks : ∀ hdr ∈ hdrs, mac.setUpLinks hdr = links ac hdr.getQueueId)
    (h : hdrs.foldlM (QueueScheduler.blockQueue mac block reason ac linkIds) t = some u) :
    Follows mac links ⟨u, ⟨block, reason, some (ac, ids ++ hdrs.map QueuedHeader.getQueueId),
      linkIds⟩ :: requests⟩ := by
  induction hdrs generalizing ids t with
  | nil =>
    obtain rfl := Option.some.inj h
    rwa [List.map_nil, List.append_nil]
  | cons hdr hdrs ih =>
    obtain ⟨hhdr, hhdrs⟩ := List.forall_mem_cons.1 hlinks
    rw [List.foldlM_cons] at h
    obtain ⟨v, hv, h⟩ := Option.bind_eq_some_iff.1 h
    have hrest := ih (ht.blockQueue hhdr hv) hhdrs h
    rwa [List.append_assoc] at hrest

/-- A request for all queues. -/
theorem Follows.allQueues (hs : Follows mac links s) (block : Bool)
    (reason : WifiQueueBlockedReason) (linkIds : Finset ℕ)
    (blockAllInfo : WifiQueueBlockedReason → Option (Finset ℕ))
    (hall : ∀ linkId ∈ mac.linkIds, ∀ r, (blockAllInfo r).any (linkId ∈ ·) =
      if reason = r ∧ (linkIds = ∅ ∨ linkId ∈ linkIds) then block
      else (s.scheduler.blockAllInfo r).any (linkId ∈ ·)) :
    Follows mac links
      ⟨{ s.scheduler.doBlockAllQueues block reason linkIds with blockAllInfo },
        ⟨block, reason, none, linkIds⟩ :: s.requests⟩ where
  mask ac queueId linkId mask hmask r := by
    obtain ⟨m, hm, hfind⟩ := Option.bind_eq_some_iff.1 hmask
    obtain ⟨m', hm', rfl⟩ := Option.map_eq_some_iff.1 hm
    rw [SortedMap.find?_mapValues] at hfind
    obtain ⟨mask', hmask', rfl⟩ := Option.map_eq_some_iff.1 hfind
    have hbefore := hs.mask ac queueId linkId mask'
      (by rw [getQueueLinkMask, hm']; exact hmask') r
    rw [setBit_eq, hbefore, lastBlocks_cons]
    simp [BlockRequest.covers, BlockRequest.coversLink]
  blockAll linkId hmem r := by
    rw [hall linkId hmem, hs.blockAll linkId hmem, lastBlocks_cons]
    simp [BlockRequest.coversAll, BlockRequest.coversLink]
  linkIds ac queueId m hm linkId := by
    obtain ⟨m', hm', rfl⟩ := Option.map_eq_some_iff.1 hm
    rw [SortedMap.find?_mapValues, Option.isSome_map]
    exact hs.linkIds ac queueId m' hm' linkId
  created ac queueId hnone req hreq queues hqueues := by
    rcases List.mem_cons.1 hreq with rfl | hreq
    · cases hqueues
    · exact hs.created ac queueId (Option.map_eq_none_iff.1 hnone) req hreq queues hqueues

/-- A set that is removed when it is empty. -/
theorem any_ite_empty (blocked : Finset ℕ) (linkId : ℕ) :
    (if blocked = ∅ then none else some blocked).any (linkId ∈ ·) = decide (linkId ∈ blocked) := by
  split_ifs with hempty
  · rw [hempty, Option.any_none, decide_eq_false (Finset.notMem_empty linkId)]
  · rfl

/-- Every step keeps the masks what the last request asked for. -/
theorem Follows.step (hs : Follows mac links s) {ev : BlockEvent} {t : BlockedQueues}
    (hok : StepOk mac links s ev) (h : s.step mac ev = some t) : Follows mac links t := by
  cases ev with
  | createQueue ac hdr =>
    obtain ⟨u, hu, h⟩ := Option.bind_eq_some_iff.1 h
    obtain rfl := Option.some.inj h
    exact (hs.initQueueInfo (hok (ac, hdr) List.mem_cons_self) hu).1
  | blockQueues block reason ac types rxAddress txAddress tids linkIds =>
    obtain ⟨u, hu, h⟩ := Option.bind_eq_some_iff.1 h
    obtain ⟨-, -, hu⟩ := Option.bind_eq_some_iff.1 hu
    obtain rfl := Option.some.inj h
    exact (hs.request_nil block reason ac linkIds).blockQueues _
      (fun hdr hmem => hok (ac, hdr) (List.mem_map_of_mem hmem)) hu
  | blockAllQueues reason linkIds =>
    obtain rfl := Option.some.inj h
    refine hs.allQueues true reason linkIds _ fun linkId hmem r => ?_
    by_cases hr : reason = r
    · subst hr
      by_cases hempty : linkIds = ∅
      · simp [hempty, hmem]
      · cases hinfo : s.scheduler.blockAllInfo reason <;> simp [hempty, Bool.or_comm]
    · simp [hr, Ne.symm hr]
  | unblockAllQueues reason linkIds =>
    obtain rfl := Option.some.inj h
    refine hs.allQueues false reason linkIds _ fun linkId hmem r => ?_
    by_cases hr : reason = r
    · subst hr
      cases hinfo : s.scheduler.blockAllInfo reason with
      | none => simp
      | some blocked =>
        simp only [ne_eq, not_true_eq_false, if_false, true_and, any_ite_empty, Finset.mem_filter]
        by_cases hcovers : linkIds = ∅ ∨ linkId ∈ linkIds <;> simp [hcovers]
    · simp [hr, Ne.symm hr]

theorem follows_init : Follows mac links {} where
  mask _ _ _ _ h := by cases h
  blockAll _ _ _ := rfl
  linkIds _ _ _ h := by cases h
  created _ _ _ _ h := absurd h List.not_mem_nil

theorem getAllQueuesBlockedOnLink_some (s : QueueScheduler) (linkId : ℕ)
    (reason : WifiQueueBlockedReason) : s.getAllQueuesBlockedOnLink linkId (some reason) =
      (s.blockAllInfo reason).any (linkId ∈ ·) := by
  cases reason <;> simp [getAllQueuesBlockedOnLink, WifiQueueBlockedReason.all]

/-- In every state, a bit of a mask is set if and only if the last request that covers it was one to
block, a queue has a mask for each of its links, and all queues are blocked on a link if and only if
the last request for all queues that covers it was one to block. -/
theorem blocked_iff_lastBlocks (h : Runs.Reached (BlockedQueues.step mac) (StepOk mac links) {} s) :
    (∀ ac queueId linkId mask, s.scheduler.getQueueLinkMask ac queueId linkId = some mask →
      ∀ reason, mask reason = lastBlocks (·.covers ac queueId linkId reason) s.requests) ∧
    (∀ ac queueId, s.scheduler.queueInfoMap ac queueId ≠ none → ∀ linkId,
      (s.scheduler.getQueueLinkMask ac queueId linkId).isSome ↔ linkId ∈ links ac queueId) ∧
    ∀ linkId ∈ mac.linkIds, ∀ reason,
      s.scheduler.getAllQueuesBlockedOnLink linkId (some reason) =
        lastBlocks (·.coversAll linkId reason) s.requests := by
  have hs : Follows mac links s :=
    h.invariant (fun _ _ _ ht hok hstep => ht.step hok hstep) follows_init
  refine ⟨hs.mask, fun ac queueId hne linkId => ?_, fun linkId hmem reason => ?_⟩
  · obtain ⟨m, hm⟩ := Option.ne_none_iff_exists'.1 hne
    rw [getQueueLinkMask, hm]
    exact hs.linkIds ac queueId m hm linkId
  · rw [getAllQueuesBlockedOnLink_some]
    exact hs.blockAll linkId hmem reason

/-- A device with two links, both set up with one other device. -/
def twoLinks : MacLinks where
  address := .station 1
  linkIds := [0, 1]
  getLinkIdByAddress addr := if addr = .station 2 then some 0 else none
  getAffiliatedStaAddress _ addr := if addr = .station 9 then some addr else none
  mem_linkIds addr linkId h := by
    split_ifs at h
    · obtain rfl := Option.some.inj h
      decide
    · cases h

/-- QoS data for the other device. -/
def twoLinksData : QueuedHeader :=
  ⟨.qosData 0, .station 9, .station 1, none⟩

/-- A queue created late is blocked on the link for which all queues were blocked. -/
theorem blocked_iff_lastBlocks_late : ∃ s mask,
    [.blockAllQueues .powerSaveMode {1}, .createQueue .be twoLinksData].foldlM
      (BlockedQueues.step twoLinks) {} = some s ∧
    s.scheduler.getQueueLinkMask .be twoLinksData.getQueueId 1 = some mask ∧
    mask .powerSaveMode = true := by
  refine ⟨_, _, rfl, rfl, ?_⟩
  have hblock : StepOk twoLinks (fun _ _ => [0, 1]) {} (.blockAllQueues .powerSaveMode {1}) :=
    fun _ hmem => absurd hmem List.not_mem_nil
  have hcreate : ∀ s, StepOk twoLinks (fun _ _ => [0, 1]) s (.createQueue .be twoLinksData) :=
    fun _ => List.forall_mem_singleton.2 (by decide)
  have hblocked := blocked_iff_lastBlocks (.step (.step .start hblock rfl) (hcreate _) rfl)
  exact (hblocked.1 .be twoLinksData.getQueueId 1 _ rfl .powerSaveMode).trans (by decide)

end BlockedQueues

end Ns3Pedca
