import Ns3Pedca.Wifi.MsduAggregation

/-!
# An A-MSDU takes the place of its MSDUs

In each round of `GetNextAmsdu` the dequeuing of the A-MSDU and the replacement of the MSDU make the
scheduler look at the queue, which takes out the expired MPDUs in front. If no MPDU behind the
peeked one has expired, a round leaves the queue as it was but for the MSDU, which is now in the
A-MSDU (`Growing.aggregateMsdu`). So the MSDUs that are aggregated are consecutive, the
A-MSDU takes their place, and the receiver gets them back (`getNextAmsdu_spec`).
-/

namespace Ns3Pedca

open WifiMacQueueContainer WifiMacQueue

namespace Aggregation

open MsduAggregator PaddedConcat

/-! ## Rounds -/

variable {P : Type} {ctx : AmsduContext P} {s t : QueuedMpdus P}
  {pre post : List WifiMacQueueElem} {a e m : WifiMacQueueElem} {queueId : WifiContainerQueueId}
  {recipient : Mac48Address} {tid : Fin 16}

/-- The container queue of QoS data of a TID for a receiver. -/
def qosDataQueue (recipient : Mac48Address) (tid : Fin 16) : WifiContainerQueueId :=
  ⟨.qosData, .unicast, recipient, some (.ofNat tid)⟩

namespace QueuedMpdus

/-- QoS data of the TID for the receiver. -/
def IsQosDataFor (recipient : Mac48Address) (tid : Fin 16) (mpdu : WifiMpdu) : Prop :=
  mpdu.header.isQosData = true ∧ mpdu.header.qosTid = tid ∧ mpdu.header.addr1 = recipient

/-- The A-MSDU stands behind `pre` and before `post`, and no MPDU of `post` is taken out when MPDUs
before it are replaced. The elements from the A-MSDU on are those of their MPDUs. -/
structure Growing (ctx : AmsduContext P) (queueId : WifiContainerQueueId) (s : QueuedMpdus P)
    (pre : List WifiMacQueueElem) (a : WifiMacQueueElem) (post : List WifiMacQueueElem) :
    Prop where
  reached : s.run.Reached ctx.orders
  queue : s.run.queue.container.queues queueId = pre ++ a :: post
  headers : ∀ e ∈ a :: post, e.header = (s.mpdus e.id).queuedHeader
  replaceable : s.run.queue.Replaceable pre post

theorem isCtl_eq_false (h : e.queueId.type = .qosData) : e.isCtl = false := by
  rw [WifiMacQueueElem.queueId, QueuedHeader.getQueueId] at h
  rw [WifiMacQueueElem.isCtl]
  cases htype : e.header.type with
  | ctl =>
    rw [htype] at h
    cases h
  | _ => rfl

/-- Only the container queue changes, and not the time. -/
structure SameBut (queueId : WifiContainerQueueId) (s t : WifiMacQueue) : Prop where
  queues : ∀ q, q ≠ queueId → t.container.queues q = s.container.queues q
  now : t.now = s.now
  maxDelay : t.maxDelay = s.maxDelay

theorem SameBut.trans {s t u : WifiMacQueue} (h : SameBut queueId s t) (h' : SameBut queueId t u) :
    SameBut queueId s u :=
  ⟨fun q hq => (h'.queues q hq).trans (h.queues q hq), h'.now.trans h.now,
    h'.maxDelay.trans h.maxDelay⟩

/-- An MPDU is replaced. -/
theorem replace_spec {run : MacQueueRun} (h : run.Reached ctx.orders)
    (hl : run.queue.container.queues queueId = pre ++ e :: post) (hdata : queueId.type = .qosData)
    (hb : run.queue.Replaceable pre post)
    {mpdu : WifiMpdu} (hmpdu : mpdu.queuedHeader.getQueueId = queueId) (timestamp : Time)
    (s : QueuedMpdus P) :
    ∃ run', s.replace ctx run e.id mpdu timestamp =
        some ({ s with run := run', mpdus := Function.update s.mpdus run.nextId mpdu },
          run.nextId) ∧
      run'.Reached ctx.orders ∧ run'.nextId = run.nextId + 1 ∧
      SameBut queueId run.queue run'.queue ∧
      run'.queue.container.queues queueId = kept run.queue.now pre ++
        run.queue.inheriting ((mpdu.newMpdu timestamp).elem run.nextId) e :: post := by
  obtain ⟨ids, hinv, hlt⟩ := MacQueueRun.runInv_of_reached h
  have he : e ∈ run.queue.container.queues queueId :=
    hl ▸ List.mem_append_right _ List.mem_cons_self
  obtain ⟨rfl, -⟩ := hinv.counted.container.queued queueId e he
  have hnew : ((mpdu.newMpdu timestamp).elem run.nextId).id ∉ ids := fun hmem =>
    lt_irrefl _ (hlt _ hmem)
  have hctl : ((mpdu.newMpdu timestamp).elem run.nextId).isCtl = false :=
    isCtl_eq_false ((congrArg _ hmpdu).trans hdata)
  obtain ⟨queue, hreplace, hqueues, hothers, hnow, hdelay'⟩ := hinv.replace_spec ctx.orders
    (ctx.drop run.queue) hnew rfl (mpdu.newMpdu timestamp).size_pos hmpdu (isCtl_eq_false hdata)
    hctl hl hb
  have hstep : run.step ctx.orders (.replace (ctx.drop run.queue) e.id (mpdu.newMpdu timestamp)) =
      some ⟨queue, run.nextId + 1⟩ := by
    rw [MacQueueRun.step, hreplace, Option.map_some]
  refine ⟨_, ?_, h.step trivial hstep, rfl, ⟨hothers, hnow, hdelay'⟩, hqueues⟩
  rw [replace, hstep, Option.map_some]

theorem aggregate_some {mpdu msdu : WifiMpdu} (hdata : msdu.header.isQosData = true)
    (hamsdu : msdu.header.isQosAmsdu = false) :
    mpdu.aggregate (some msdu) = some (mpdu.withMsdu msdu) := by
  rw [WifiMpdu.aggregate, hdata, hamsdu]
  rfl

theorem peekBehind_eq {run : MacQueueRun} (h : run.Reached ctx.orders)
    (hl : run.queue.container.queues queueId = pre ++ e :: post) :
    run.queue.peekBehind queueId e.id = some (post.head?.map (·.id)) := by
  obtain ⟨ids, hinv, -⟩ := MacQueueRun.runInv_of_reached h
  have he : e ∈ run.queue.container.queues queueId :=
    hl ▸ List.mem_append_right _ List.mem_cons_self
  obtain ⟨hqueue, hexpired⟩ := hinv.counted.container.queued queueId e he
  have hget : run.queue.getIt e.id = some e :=
    hinv.counted.container.find?_eq (hinv.counted.container.mem_elems_of_mem_queue he)
  have hnodup := hinv.counted.container.nodup_queue queueId
  rw [hl] at hnodup
  have hnext : nextOf queueId (pre ++ e :: post) e.id = _ := nextOf_eq hnodup
  rw [← hl] at hnext
  rw [peekBehind, hget, Option.bind_some, if_neg (not_not.2 hqueue), hexpired,
    if_neg Bool.false_ne_true, show run.queue.next queueId e.id = _ from hnext]
  cases post <;> rfl

/-- The elements from the A-MSDU on. -/
theorem Growing.elem (h : Growing ctx queueId s pre a post) (he : e ∈ a :: post) :
    e ∈ s.run.queue.container.elems ∧ e.queueId = queueId ∧ e.id < s.run.nextId := by
  obtain ⟨ids, hinv, hlt⟩ := MacQueueRun.runInv_of_reached h.reached
  have hmem : e ∈ s.run.queue.container.queues queueId :=
    h.queue ▸ List.mem_append_right _ he
  have helem := hinv.counted.container.mem_elems_of_mem_queue hmem
  exact ⟨helem, (hinv.counted.container.queued _ e hmem).1,
    hlt _ (hinv.counted.container.perm.subset (List.mem_map_of_mem helem))⟩

/-- Their MPDUs are QoS data for one receiver. -/
theorem Growing.isQosDataFor (h : Growing ctx (qosDataQueue recipient tid) s pre a post)
    (he : e ∈ a :: post) : IsQosDataFor recipient tid (s.mpdus e.id) ∧
      recipient.isBroadcast = false ∧ recipient.isGroup = false := by
  have hqueue := (h.elem he).2.1
  rw [WifiMacQueueElem.queueId, h.headers e he] at hqueue
  obtain ⟨hdata, htid, haddr, hunicast⟩ := (WifiMpdu.getQueueId_eq_iff _).1 hqueue
  exact ⟨⟨hdata, htid, haddr⟩, hunicast⟩

/-- The state when a round is over. -/
structure Grown (ctx : AmsduContext P) (queueId : WifiContainerQueueId) (s t : QueuedMpdus P)
    (pre : List WifiMacQueueElem) (a a' : WifiMacQueueElem) (post : List WifiMacQueueElem)
    (msdus : List WifiMpdu) : Prop where
  growing : Growing ctx queueId t pre a' post
  same : SameBut queueId s.run.queue t.run.queue
  nextId : s.run.nextId ≤ t.run.nextId
  mpdus : ∀ id < s.run.nextId, t.mpdus id = s.mpdus id
  amsdu : t.mpdus a'.id = msdus.foldl WifiMpdu.withMsdu (s.mpdus a.id)

/-- In a round the A-MSDU takes the place of the next MSDU, which is appended to it. -/
theorem Growing.aggregateMsdu (h : Growing ctx (qosDataQueue recipient tid) s pre a (m :: post))
    (hamsdu : (s.mpdus m.id).header.isQosAmsdu = false) :
    ∃ t a', s.aggregateMsdu ctx (qosDataQueue recipient tid) a.id m.id =
        some ((t, a'.id), post.head?.map (·.id)) ∧
      Grown ctx (qosDataQueue recipient tid) s t (kept s.run.queue.now pre) a a' post
        [s.mpdus m.id] := by
  obtain ⟨ids, hinv, -⟩ := MacQueueRun.runInv_of_reached h.reached
  -- the A-MSDU is dequeued
  obtain ⟨ha, haqueue, -⟩ := h.elem List.mem_cons_self
  have hget : s.run.queue.getIt a.id = some a := hinv.counted.container.find?_eq ha
  have hctl : a.isCtl = false := isCtl_eq_false (congrArg _ haqueue)
  obtain ⟨u, hu, huqueue, huothers, hunow, hudelay, -, -⟩ := hinv.dequeue_spec ctx.orders
    (haqueue ▸ h.queue) hctl h.replaceable.sheltered
  rw [haqueue] at huqueue huothers
  have hdequeue : s.run.step ctx.orders (.dequeueIfQueued [a.id]) =
      some { s.run with queue := u } := by
    have hfilter : [a.id].filter (fun id => (s.run.queue.getIt id).isSome) = [a.id] := by
      simp [hget]
    rw [MacQueueRun.step, hfilter, hu, Option.map_some]
  -- the MSDU is appended to it
  obtain ⟨⟨hqosData, htid, haddr⟩, hunicast⟩ := h.isQosDataFor List.mem_cons_self
  obtain ⟨⟨hmqosData, -⟩, -⟩ := h.isQosDataFor (List.mem_cons_of_mem _ List.mem_cons_self)
  obtain ⟨htype, haddr1, hqosTid⟩ := (s.mpdus a.id).header_makeAmsdu
  have hmpdu : ((s.mpdus a.id).withMsdu (s.mpdus m.id)).queuedHeader.getQueueId =
      qosDataQueue recipient tid := by
    refine (WifiMpdu.getQueueId_eq_iff _).2 ⟨?_, hqosTid.trans htid, haddr1.trans haddr, hunicast⟩
    change MacHeader.isQosData (s.mpdus a.id).makeAmsdu.header = true
    rwa [MacHeader.isQosData, htype]
  -- it takes the place of the MSDU
  obtain ⟨run', hreplace, hreached, hnextId, hsame, hqueue⟩ := replace_spec
    (h.reached.step trivial hdequeue) huqueue rfl
    (h.replaceable.of_kept hunow hudelay).tail hmpdu a.timestamp s
  have hsame' : SameBut (qosDataQueue recipient tid) s.run.queue run'.queue :=
    SameBut.trans ⟨huothers, hunow, hudelay⟩ hsame
  have hupdate : ∀ id < s.run.nextId, Function.update s.mpdus s.run.nextId
      ((s.mpdus a.id).withMsdu (s.mpdus m.id)) id = s.mpdus id := fun id hid =>
    Function.update_of_ne hid.ne _ _
  have hself : Function.update s.mpdus s.run.nextId ((s.mpdus a.id).withMsdu (s.mpdus m.id))
      s.run.nextId = (s.mpdus a.id).withMsdu (s.mpdus m.id) := Function.update_self _ _ _
  have hpeek := peekBehind_eq h.reached (h.queue.trans (List.append_cons pre a (m :: post)))
  refine ⟨_, u.inheriting ((((s.mpdus a.id).withMsdu (s.mpdus m.id)).newMpdu a.timestamp).elem
    s.run.nextId) m, ?_, Grown.mk (t := { s with
      run := run'
      mpdus := Function.update s.mpdus s.run.nextId ((s.mpdus a.id).withMsdu (s.mpdus m.id)) })
    ⟨hreached, ?_, ?_, h.replaceable.tail.of_kept hsame'.now hsame'.maxDelay⟩ hsame' ?_
    hupdate ?_⟩
  · rw [QueuedMpdus.aggregateMsdu, hpeek, hget, hdequeue, aggregate_some hmqosData hamsdu]
    simp only [Option.bind_eq_bind, Option.bind_some, hreplace]
    rfl
  · rw [← kept_kept]
    exact hunow ▸ hqueue
  · refine List.forall_mem_cons.2 ⟨?_, fun e he => ?_⟩
    · exact congrArg WifiMpdu.queuedHeader hself.symm
    · have hmem : e ∈ a :: m :: post := List.mem_cons_of_mem _ (List.mem_cons_of_mem _ he)
      dsimp only
      rw [hupdate e.id (h.elem hmem).2.2]
      exact h.headers e hmem
  · exact hnextId ▸ Nat.le_succ _
  · exact hself

theorem Growing.txParams (h : Growing ctx queueId s pre a post) (txParams : P) :
    Growing ctx queueId { s with txParams } pre a post :=
  ⟨h.reached, h.queue, h.headers, h.replaceable⟩

/-- No round. -/
theorem Growing.grown (h : Growing ctx queueId s pre a post) (txParams : P) :
    Grown ctx queueId s { s with txParams } pre a a post [] :=
  ⟨h.txParams txParams, ⟨fun _ _ => rfl, rfl, rfl⟩, le_rfl, fun _ _ => rfl, rfl⟩

/-- Extractions take nothing more the second time. -/
theorem Grown.trans {a' a'' : WifiMacQueueElem} {post' : List WifiMacQueueElem}
    {msdus msdus' : List WifiMpdu} {u : QueuedMpdus P} {pre' : List WifiMacQueueElem}
    (h : Grown ctx queueId s t pre a a' post msdus)
    (h' : Grown ctx queueId t u pre' a' a'' post' msdus') :
    Grown ctx queueId s u pre' a a'' post' (msdus ++ msdus') where
  growing := h'.growing
  same := h.same.trans h'.same
  nextId := h.nextId.trans h'.nextId
  mpdus id hid := (h'.mpdus id (hid.trans_le h.nextId)).trans (h.mpdus id hid)
  amsdu := by
    rw [List.foldl_append, ← h.amsdu]
    exact h'.amsdu

/-- The rounds of the loop take MSDUs one after another. -/
theorem Growing.getNextAmsduLoop
    (h : Growing ctx (qosDataQueue recipient tid) s pre a post) {rounds : ℕ}
    (hrounds : post.length ≤ rounds) (nMsdu : ℕ) : ∃ t a' es post', post = es ++ post' ∧
      getNextAmsduLoop ctx (qosDataQueue recipient tid) rounds s a.id (post.head?.map (·.id))
        nMsdu = some (t, a'.id, nMsdu + es.length) ∧
      (∀ e ∈ es, (s.mpdus e.id).header.isQosAmsdu = false) ∧
      Grown ctx (qosDataQueue recipient tid) s t
        (if es = [] then pre else kept s.run.queue.now pre) a a' post'
        (es.map fun e => s.mpdus e.id) := by
  induction post generalizing s pre a rounds nMsdu with
  | nil =>
    refine ⟨s, a, [], [], rfl, ?_, fun e he => absurd he List.not_mem_nil,
      h.grown s.txParams⟩
    cases rounds <;> rfl
  | cons m post ih =>
    obtain ⟨n, rfl⟩ := Nat.exists_eq_succ_of_ne_zero (Nat.ne_of_gt (lt_of_lt_of_le
      (Nat.succ_pos _) hrounds))
    change ∃ t a' es post', _ ∧ QueuedMpdus.getNextAmsduLoop ctx _ (n + 1) s a.id (some m.id)
      nMsdu = _ ∧ _
    rw [QueuedMpdus.getNextAmsduLoop]
    by_cases hamsdu : (s.mpdus m.id).header.isQosAmsdu = true
    · rw [if_pos hamsdu]
      exact ⟨s, a, [], _, rfl, rfl, fun e he => absurd he List.not_mem_nil,
        h.grown s.txParams⟩
    · rw [if_neg hamsdu]
      rw [Bool.not_eq_true] at hamsdu
      dsimp only
      split_ifs with haccepted
      · have hparams := h.grown (ctx.tryAggregateMsdu s.txParams (s.mpdus m.id)).1
        obtain ⟨t, a', ht, hround⟩ := hparams.growing.aggregateMsdu hamsdu
        obtain ⟨u, a'', es, post', rfl, hu, hes, hrest⟩ :=
          ih hround.growing (Nat.le_of_succ_le_succ hrounds) (nMsdu + 1)
        have hsame : ∀ e ∈ es, t.mpdus e.id = s.mpdus e.id := fun e he => by
          have hmem : e ∈ a :: m :: (es ++ post') :=
            List.mem_cons_of_mem _ (List.mem_cons_of_mem _ (List.mem_append_left _ he))
          exact hround.mpdus e.id (h.elem hmem).2.2
        have hmap : (es.map fun e => t.mpdus e.id) = es.map fun e => s.mpdus e.id :=
          List.map_congr_left hsame
        refine ⟨u, a'', m :: es, post', rfl, ?_,
          List.forall_mem_cons.2 ⟨hamsdu, fun e he => ?_⟩, ?_⟩
        · rw [ht, Option.bind_some]
          refine hu.trans ?_
          rw [List.length_cons, Nat.add_assoc, Nat.add_comm 1]
        · rw [← hsame e he]
          exact hes e he
        · have hpre : (if es = [] then kept s.run.queue.now pre
              else kept t.run.queue.now (kept s.run.queue.now pre)) =
                kept s.run.queue.now pre := by
            split_ifs
            · rfl
            · rw [hround.same.now, kept_kept]
          rw [hmap, hpre] at hrest
          exact (hparams.trans hround).trans hrest
      · exact ⟨_, a, [], _, rfl, rfl, fun e he => absurd he List.not_mem_nil,
          h.grown _⟩

end QueuedMpdus

/-! ## The A-MSDU that is returned -/

theorem isGroup_of_isBroadcast {address : Mac48Address} (h : address.isBroadcast = true) :
    address.isGroup = true := by
  rw [Mac48Address.isBroadcast, decide_eq_true_eq] at h
  rw [h]
  rfl

namespace QueuedMpdus

/-- What is returned for an MPDU that is not sent by GCR. -/
theorem getNextAmsdu_eq (h : s.run.Reached ctx.orders)
    (hl : s.run.queue.container.queues queueId = pre ++ e :: post)
    (hheader : e.header = (s.mpdus e.id).queuedHeader)
    (hdata : (s.mpdus e.id).header.isQosData = true)
    (hgroup : (s.mpdus e.id).header.addr1.isGroup = false) :
    queueId = qosDataQueue (s.mpdus e.id).header.addr1 (s.mpdus e.id).header.qosTid ∧
    s.getNextAmsdu ctx e.id =
      if ctx.getMaxAmsduSize (s.mpdus e.id).header.addr1 (s.mpdus e.id).header.qosTid s.txParams = 0
      then some (s, none)
      else (getNextAmsduLoop ctx queueId (s.run.queue.container.queues queueId).length s e.id
        (post.head?.map (·.id)) 1).map fun (t, amsdu, nMsdu) =>
          (t, if nMsdu = 1 then none else some amsdu) := by
  obtain ⟨ids, hinv, -⟩ := MacQueueRun.runInv_of_reached h
  have hmem : e ∈ s.run.queue.container.queues queueId :=
    hl ▸ List.mem_append_right _ List.mem_cons_self
  have hbroadcast : (s.mpdus e.id).header.addr1.isBroadcast = false := by
    rw [← Bool.not_eq_true]
    intro htrue
    rw [isGroup_of_isBroadcast htrue] at hgroup
    cases hgroup
  have hqueue : (s.mpdus e.id).queuedHeader.getQueueId =
      qosDataQueue (s.mpdus e.id).header.addr1 (s.mpdus e.id).header.qosTid :=
    (WifiMpdu.getQueueId_eq_iff _).2 ⟨hdata, rfl, rfl, hbroadcast, hgroup⟩
  have hgcr : ctx.isGcr (s.mpdus e.id).header = false := by
    rw [AmsduContext.isGcr, hgroup, Bool.and_false]
    rfl
  obtain rfl : queueId = qosDataQueue (s.mpdus e.id).header.addr1 (s.mpdus e.id).header.qosTid := by
    rw [← hqueue, ← hheader]
    exact (hinv.counted.container.queued _ e hmem).1.symm
  refine ⟨rfl, ?_⟩
  rw [getNextAmsdu, AmsduContext.recipient, hgcr]
  dsimp only
  rw [if_neg Bool.false_ne_true, if_neg (by simp [hbroadcast]), if_neg Bool.false_ne_true,
    if_neg (by simp [hgroup]), ← qosDataQueue, peekBehind_eq h hl]
  split_ifs
  · rfl
  · simp only [Option.bind_eq_bind, Option.bind_some, Option.pure_def, Option.map_eq_bind]
    rfl

/-- By GCR only an A-MSDU with a single MSDU is returned. -/
theorem length_msduList_of_group {id amsdu : ℕ}
    (hamsdu : (s.mpdus id).header.isQosAmsdu = false)
    (hgroup : (s.mpdus id).header.addr1.isGroup = true)
    (ht : s.getNextAmsdu ctx id = some (t, some amsdu)) : (t.mpdus amsdu).msduList.length = 1 := by
  rw [getNextAmsdu] at ht
  dsimp only at ht
  split_ifs at ht with hbroadcast hgcr hconcealment hrecipient hsize
  · cases ht
  · obtain ⟨e, -, ht⟩ := Option.bind_eq_some_iff.1 ht
    obtain ⟨created, hcreated, ht⟩ := Option.bind_eq_some_iff.1 ht
    obtain ⟨mpdu, hmpdu, ht⟩ := Option.bind_eq_some_iff.1 ht
    obtain ⟨⟨u, n⟩, hu, ht⟩ := Option.bind_eq_some_iff.1 ht
    obtain ⟨rfl, hn⟩ := Prod.mk.inj (Option.some.inj ht)
    obtain rfl := Option.some.inj hn
    obtain ⟨run', -, heq⟩ := Option.map_eq_some_iff.1 hu
    obtain ⟨rfl, rfl⟩ := Prod.mk.inj heq
    rw [WifiMpdu.create, dif_neg (by simp [hamsdu])] at hcreated
    obtain rfl := Option.some.inj hcreated
    obtain rfl := Option.some.inj hmpdu
    dsimp only
    rw [Function.update_self]
    rfl
  · cases ht
  · cases ht
  · rw [AmsduContext.recipient, if_neg hgcr] at hrecipient
    exact absurd hgroup hrecipient

/-- If no MPDU behind the peeked MSDU has expired, or one before it is neither in flight nor
expired, the MSDUs of an A-MSDU that is returned are consecutive, it takes their place, and the
receiver gets them back. MPDUs before the peeked one may go to the expired queue. For an
individual address the call returns. -/
theorem getNextAmsdu_spec (h : s.run.Reached ctx.orders)
    (hl : s.run.queue.container.queues queueId = pre ++ e :: post)
    (hheaders : ∀ e' ∈ e :: post, e'.header = (s.mpdus e'.id).queuedHeader)
    (hdata : (s.mpdus e.id).header.isQosData = true)
    (hamsdu : (s.mpdus e.id).header.isQosAmsdu = false)
    (hreplaceable : s.run.queue.Replaceable pre post) :
    ((s.mpdus e.id).header.addr1.isGroup = false → (s.getNextAmsdu ctx e.id).isSome = true) ∧
    ∀ t amsdu, s.getNextAmsdu ctx e.id = some (t, some amsdu) →
      2 ≤ (t.mpdus amsdu).msduList.length →
      ∃ es post' a, post = es ++ post' ∧ a.id = amsdu ∧
        (t.mpdus amsdu).msduList.length = (e :: es).length ∧
        (∀ e' ∈ e :: es, IsQosDataFor (s.mpdus e.id).header.addr1 (s.mpdus e.id).header.qosTid
          (s.mpdus e'.id)) ∧
        t.run.queue.container.queues queueId = kept s.run.queue.now pre ++ a :: post' ∧
        a.header = (t.mpdus amsdu).queuedHeader ∧
        (∀ q, q ≠ queueId →
          t.run.queue.container.queues q = s.run.queue.container.queues q) ∧
        ((∀ e' ∈ e :: es, (s.mpdus e'.id).packet.length < 65536) →
          deaggregate (t.mpdus amsdu).packet =
            some ((e :: es).map fun e' => (s.mpdus e'.id).deaggregated)) := by
  have hheader := hheaders e List.mem_cons_self
  have hrounds : post.length ≤ (s.run.queue.container.queues queueId).length := by
    rw [hl, List.length_append, List.length_cons]
    omega
  have hgrowing : Growing ctx queueId s pre e post := ⟨h, hl, hheaders, hreplaceable⟩
  constructor
  · intro hgroup
    obtain ⟨rfl, heq⟩ := getNextAmsdu_eq h hl hheader hdata hgroup
    obtain ⟨u, a, es, post', -, hu, -⟩ := hgrowing.getNextAmsduLoop hrounds 1
    rw [heq, hu]
    split_ifs <;> rfl
  · intro t amsdu ht hlen
    by_cases hgroup : (s.mpdus e.id).header.addr1.isGroup = true
    · have hone := length_msduList_of_group hamsdu hgroup ht
      omega
    · obtain ⟨hqueue, heq⟩ :=
        getNextAmsdu_eq h hl hheader hdata (Bool.eq_false_of_not_eq_true hgroup)
      rw [heq] at ht
      clear heq
      obtain rfl := hqueue
      obtain ⟨u, a, es, post', rfl, hu, -, hgrown⟩ := hgrowing.getNextAmsduLoop hrounds 1
      rw [hu, Option.map_some] at ht
      by_cases hsize : ctx.getMaxAmsduSize (s.mpdus e.id).header.addr1
          (s.mpdus e.id).header.qosTid s.txParams = 0
      · rw [if_pos hsize] at ht
        cases ht
      · rw [if_neg hsize] at ht
        obtain ⟨rfl, hamsdu'⟩ := Prod.mk.inj (Option.some.inj ht)
        have hne : es ≠ [] := by
          rintro rfl
          cases hamsdu'
        have hlen' : es.length ≠ 0 := mt List.eq_nil_of_length_eq_zero hne
        rw [if_neg (by omega)] at hamsdu'
        obtain rfl := Option.some.inj hamsdu'
        have hnil := WifiMpdu.msduList_eq_nil _ hdata hamsdu
        have hne' : (es.map fun e' => s.mpdus e'.id) ≠ [] := mt List.map_eq_nil_iff.1 hne
        have hall : (e :: es).map (fun e' => s.mpdus e'.id) =
            s.mpdus e.id :: es.map fun e' => s.mpdus e'.id := rfl
        have hqueue := hgrown.growing.queue
        rw [if_neg hne] at hqueue
        refine ⟨es, post', a, rfl, rfl, ?_, fun e' he' => ?_, hqueue,
          hgrown.growing.headers a List.mem_cons_self, hgrown.same.queues, fun hlen' => ?_⟩
        · rw [hgrown.amsdu, (WifiMpdu.foldl_withMsdu_of_msdu _ hnil hne').2, ← hall,
            List.length_map, List.length_map]
        · have hmem : e' ∈ e :: (es ++ post') :=
            List.cons_subset_cons e (List.subset_append_left es post') he'
          exact (hgrowing.isQosDataFor hmem).1
        · rw [hgrown.amsdu, WifiMpdu.deaggregate_foldl _ hnil hne', ← hall, List.map_map]
          · rfl
          · rw [← hall]
            exact List.forall_mem_map.2 hlen'

/-- QoS data for a station. -/
def exampleMsdu : WifiMpdu where
  header := { frameType := .qosData, addr1 := .station 1, addr2 := .station 2 }
  packet := [1, 2, 3]
  msduList := []
  msduList_ne_nil h := absurd h (by decide)
  amsduPresent h := absurd rfl h

/-- Every MPDU may be aggregated. -/
def exampleContext : AmsduContext Unit where
  orders := MacQueueRun.exampleOrders
  useGcr _ := false
  gcrRecipient address := address
  useConcealment _ := false
  getMaxAmsduSize _ _ _ := 1000
  tryAggregateMsdu _ _ := ((), true)
  drop _ := .nothing

/-- The container queue of the MSDUs. -/
def exampleQueueId : WifiContainerQueueId :=
  exampleMsdu.queuedHeader.getQueueId

/-- A queue in which every MPDU is a copy of the MSDU. -/
def exampleQueue (run : MacQueueRun) : QueuedMpdus Unit :=
  ⟨run, fun _ => exampleMsdu, ()⟩

/-- The element of an MSDU. -/
def exampleElem (id : ℕ) (expiryTime : Time) : WifiMacQueueElem :=
  { (exampleMsdu.newMpdu 0).elem id with expiryTime }

/-- Two MSDUs are queued. -/
def twoMsdus : List MacQueueEvent :=
  [.setMaxDelay 500, .enqueue .nothing (exampleMsdu.newMpdu 0),
    .enqueue .nothing (exampleMsdu.newMpdu 0)]

theorem getNextAmsdu_spec_two : ∃ run, twoMsdus.foldlM (MacQueueRun.step exampleContext.orders) {} =
      some run ∧ ∃ t a, (exampleQueue run).getNextAmsdu exampleContext 0 = some (t, some a.id) ∧
    t.run.queue.container.queues exampleQueueId = [a] ∧
    deaggregate (t.mpdus a.id).packet =
      some [exampleMsdu.deaggregated, exampleMsdu.deaggregated] := by
  have hrun : (twoMsdus.foldlM (MacQueueRun.step exampleContext.orders) {}).any (fun run =>
      run.queue.container.queues exampleQueueId = [exampleElem 0 500, exampleElem 1 500] ∧
        run.queue.now = 0 ∧ run.queue.maxDelay = 500 ∧
        ((exampleQueue run).getNextAmsdu exampleContext 0).any fun x =>
          x.2.any fun a => (x.1.mpdus a).msduList.length = 2) = true := by
    decide +kernel
  obtain ⟨run, hrun, hspec⟩ := (Option.any_eq_true _ _).1 hrun
  obtain ⟨hqueue, hnow, hdelay, hret⟩ := of_decide_eq_true hspec
  obtain ⟨⟨t, found⟩, ht, hfound⟩ := (Option.any_eq_true _ _).1 hret
  obtain ⟨a, rfl, hlen⟩ := (Option.any_eq_true _ _).1 hfound
  have hl : (exampleQueue run).run.queue.container.queues exampleQueueId =
      [] ++ exampleElem 0 500 :: [exampleElem 1 500] := hqueue
  have hheaders : ∀ e ∈ exampleElem 0 500 :: [exampleElem 1 500],
      e.header = ((exampleQueue run).mpdus e.id).queuedHeader := by
    simp [exampleElem, exampleQueue, NewMpdu.elem, WifiMpdu.newMpdu]
  have hreplaceable : run.queue.Replaceable [] [exampleElem 1 500] := by
    refine Or.inr ⟨by rw [hdelay]; decide, fun e he => ?_⟩
    rw [List.mem_singleton.1 he, hnow]
    decide
  have htwo : (t.mpdus a).msduList.length = 2 := of_decide_eq_true hlen
  obtain ⟨es, post', a', hpost, rfl, hcount, -, hqueue', -, -, hdeaggregate⟩ :=
    (getNextAmsdu_spec (Runs.Reached.start.of_foldlM hrun) hl hheaders rfl rfl hreplaceable).2
      t a ht htwo.ge
  have hone : es.length = 1 := by
    rw [htwo, List.length_cons] at hcount
    omega
  obtain ⟨e, rfl⟩ := List.length_eq_one_iff.1 hone
  obtain ⟨-, rfl⟩ := List.cons_eq_cons.1 hpost
  exact ⟨run, hrun, t, a', ht, hqueue', hdeaggregate fun e' he' => by
    change exampleMsdu.packet.length < 65536
    decide⟩

/-- The first of three MSDUs has expired. -/
def expiredMsdu : List MacQueueEvent :=
  [.setMaxDelay 100, .enqueue .nothing (exampleMsdu.newMpdu 0), .setMaxDelay 500,
    .enqueue .nothing (exampleMsdu.newMpdu 0), .enqueue .nothing (exampleMsdu.newMpdu 0),
    .advance 200]

/-- The other two are aggregated, and the expired one is not in the queue any more. -/
theorem not_inPlace_expired : ∃ run,
    expiredMsdu.foldlM (MacQueueRun.step exampleContext.orders) {} = some run ∧
    run.queue.container.queues exampleQueueId =
      [exampleElem 0 100] ++ exampleElem 1 500 :: [exampleElem 2 500] ∧
    ∃ t amsdu, (exampleQueue run).getNextAmsdu exampleContext 1 = some (t, some amsdu) ∧
      (t.mpdus amsdu).msduList.length = 2 ∧
      ∀ a post', t.run.queue.container.queues exampleQueueId ≠
        [exampleElem 0 100] ++ a :: post' := by
  have hrun : (expiredMsdu.foldlM (MacQueueRun.step exampleContext.orders) {}).any (fun run =>
      run.queue.container.queues exampleQueueId =
          [exampleElem 0 100, exampleElem 1 500, exampleElem 2 500] ∧
        ((exampleQueue run).getNextAmsdu exampleContext 1).any fun x =>
          x.2.any fun a => (x.1.mpdus a).msduList.length = 2 ∧
            (x.1.run.queue.container.queues exampleQueueId).length = 1) = true := by
    decide +kernel
  obtain ⟨run, hrun, hspec⟩ := (Option.any_eq_true _ _).1 hrun
  obtain ⟨hqueue, hret⟩ := of_decide_eq_true hspec
  obtain ⟨⟨t, found⟩, ht, hfound⟩ := (Option.any_eq_true _ _).1 hret
  obtain ⟨a, rfl, hlen⟩ := (Option.any_eq_true _ _).1 hfound
  obtain ⟨htwo, hone⟩ := of_decide_eq_true hlen
  refine ⟨run, hrun, hqueue, t, a, ht, htwo, fun a' post' heq => ?_⟩
  rw [heq] at hone
  simp at hone

end QueuedMpdus

end Aggregation

end Ns3Pedca
