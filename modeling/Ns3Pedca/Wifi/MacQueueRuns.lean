import Ns3Pedca.Wifi.MacQueueSteps

/-!
# Runs of the MAC queue

The states of a `WifiMacQueue` that any order of operations reaches, as time passes and MPDUs
become in flight or cease to be (`MacQueueRun`). In all of them the counters are those of the
container, and the sorted list of the scheduler has exactly one entry for each container
queue that is not empty (`runInv_of_reached`).
-/

namespace Ns3Pedca

namespace WifiMacQueue

open WifiMacQueueContainer

variable {orders : QueueOrders} {s t : WifiMacQueue} {ids : List ℕ} {e item : WifiMacQueueElem}
  {pos : ElemIterator} {drop : DropChoice}

/-! ## Inserting -/

/-- The maximum size changes. -/
theorem QueueInv.maxSize (h : QueueInv ids s) {size : ℕ} (hle : s.nPackets ≤ size) :
    QueueInv ids { s with maxSize := size } :=
  ⟨⟨h.counted.container, h.counted.nPackets, h.counted.nBytes, h.counted.pos, hle⟩,
    h.scheduled.nodup, h.scheduled.sorted, h.scheduled.entries⟩

theorem QueueInv.setMaxSize (h : QueueInv ids s) {size : ℕ} (ht : s.setMaxSize size = some t) :
    QueueInv ids t := by
  rw [WifiMacQueue.setMaxSize] at ht
  split_ifs at ht with hzero hlt
  · exact Option.some.inj ht ▸ h
  · exact Option.some.inj ht ▸ h.maxSize (Nat.not_lt.1 hlt)

theorem QueueInv.grow (h : QueueInv ids s) (item : WifiMacQueueElem) :
    s.grow item = some { s with maxSize := if item.isCtl then s.maxSize + 1 else s.maxSize } ∧
      QueueInv ids { s with maxSize := if item.isCtl then s.maxSize + 1 else s.maxSize } := by
  have hle := h.counted.le
  rw [WifiMacQueue.grow]
  split_ifs with hctl
  · refine ⟨?_, h.maxSize (by omega)⟩
    rw [WifiMacQueue.setMaxSize, if_neg (by omega), if_neg (by omega)]
  · exact ⟨rfl, h⟩

/-- Where there is a position, there is room. -/
theorem QueueInv.roomFor (h : QueueInv ids s) {currSize : ℕ} {found : Option ElemIterator}
    (ht : s.roomFor currSize pos = some (t, found)) :
    QueueInv ids t ∧ (found = none ∨ found = some pos ∧ t = s ∧ s.nPackets < s.maxSize) := by
  rw [WifiMacQueue.roomFor] at ht
  split_ifs at ht with hlt
  · obtain ⟨u, hu, heq⟩ := Option.map_eq_some_iff.1 ht
    obtain ⟨rfl, rfl⟩ := Prod.mk.inj heq
    exact ⟨h.setMaxSize hu, Or.inl rfl⟩
  · obtain ⟨rfl, rfl⟩ := Prod.mk.inj (Option.some.inj ht)
    exact ⟨h, Or.inr ⟨rfl, rfl, by omega⟩⟩

theorem mem_of_getIt {id : ℕ} (he : s.getIt id = some e) :
    e ∈ s.container.elems ∧ e.id = id := by
  rw [WifiMacQueue.getIt, find?] at he
  have hid := List.find?_some he
  exact ⟨List.mem_of_find?_eq_some he, of_decide_eq_true hid⟩

theorem QueueInv.makeRoom (h : QueueInv ids s) {currSize : ℕ} {found : Option ElemIterator}
    (ht : s.makeRoom orders currSize drop pos item = some (t, found)) :
    ∃ ids', ids' ⊆ ids ∧ QueueInv ids' t ∧ (found = none ∨ t.nPackets < t.maxSize) := by
  rw [WifiMacQueue.makeRoom] at ht
  split at ht
  · obtain ⟨u, hu, heq⟩ := Option.map_eq_some_iff.1 ht
    obtain ⟨rfl, rfl⟩ := Prod.mk.inj heq
    exact ⟨ids, List.Subset.refl _, h.setMaxSize hu, Or.inl rfl⟩
  · obtain ⟨hinv, hfound⟩ := h.roomFor ht
    refine ⟨ids, List.Subset.refl _, hinv, hfound.imp_right ?_⟩
    rintro ⟨-, rfl, hlt⟩
    exact hlt
  · obtain ⟨e, he, ht⟩ := Option.bind_eq_some_iff.1 ht
    obtain ⟨pos', -, ht⟩ := Option.bind_eq_some_iff.1 ht
    obtain ⟨u, hu, ht⟩ := Option.bind_eq_some_iff.1 ht
    obtain ⟨hmem, hid⟩ := mem_of_getIt he
    obtain ⟨u', v, hv, -, -, -, -, hinv⟩ := h.doRemove orders hmem
    rw [hid] at hv hinv
    obtain rfl := Option.some.inj (hv.symm.trans hu)
    obtain ⟨hinv', hfound⟩ := hinv.roomFor ht
    refine ⟨_, List.erase_subset, hinv', hfound.imp_right ?_⟩
    rintro ⟨-, rfl, hlt⟩
    exact hlt

theorem QueueInv.insertPos (h : QueueInv ids s) {found : Option ElemIterator}
    (ht : s.insertPos orders drop pos item = some (t, found)) :
    ∃ ids', ids' ⊆ ids ∧ QueueInv ids' t ∧ (found = none ∨ t.nPackets < t.maxSize) := by
  rw [WifiMacQueue.insertPos] at ht
  split_ifs at ht with hfull
  · obtain ⟨u, hu, ht⟩ := Option.bind_eq_some_iff.1 ht
    obtain ⟨hgrow, hinv⟩ := h.grow item
    obtain rfl := Option.some.inj (hgrow.symm.trans hu)
    exact hinv.makeRoom ht
  · obtain ⟨pos', -, ht⟩ := Option.bind_eq_some_iff.1 ht
    obtain ⟨u, hu, ht⟩ := Option.bind_eq_some_iff.1 ht
    obtain ⟨v, hv, ht⟩ := Option.bind_eq_some_iff.1 ht
    obtain ⟨ids', u', hu', hsub, hinv, -⟩ := h.wipeAllExpiredMpdus orders
    obtain rfl := Option.some.inj (hu'.symm.trans hu)
    obtain ⟨hgrow, hinv'⟩ := hinv.grow item
    obtain rfl := Option.some.inj (hgrow.symm.trans hv)
    obtain ⟨ids'', hsub', hspec⟩ := hinv'.makeRoom ht
    exact ⟨ids'', fun id hid => hsub (hsub' hid), hspec⟩

/-- The queue with a new container, before the scheduler is told. -/
def enqueued (s : WifiMacQueue) (c : WifiMacQueueContainer) (item : WifiMacQueueElem) :
    WifiMacQueue :=
  { s with container := c, nBytes := s.nBytes + item.size, nPackets := s.nPackets + 1 }

/-- After an insertion the queue is extracted from, and the scheduler is told of its first MPDU. -/
theorem QueueInv.enqueueAt_spec (orders : QueueOrders) (h : QueueInv ids s) (hnew : item.id ∉ ids)
    (hexpired : item.expired = false) (hpos : 0 < item.size) (hroom : s.nPackets < s.maxSize)
    {c : WifiMacQueueContainer} (hc : s.container.insert pos (s.stamp item) = some c) :
    ∃ v, Notified [item.queueId] (s.enqueued c item) v ∧
      s.enqueueAt orders pos item =
        (v.head? item.queueId).bind (fun e => v.setPriority item.queueId e.prio) ∧
      ∀ e ∈ v.head? item.queueId, ∃ t, v.setPriority item.queueId e.prio = some t ∧
        t.container = v.container ∧ Notified [item.queueId] (s.enqueued c item) t ∧
        QueueInv (item.id :: ids) t := by
  have hinv : ContainerInv (item.id :: ids) c :=
    h.counted.container.insert (e := s.stamp item) hnew hexpired hc
  obtain ⟨hperm, -, hqueues, -⟩ := h.counted.container.insert_spec hc
  have hcounted : Counted (item.id :: ids) (s.enqueued c item) := by
    refine ⟨hinv, ?_, ?_, fun e he => ?_, hroom⟩
    · exact congrArg (· + 1) h.counted.nPackets
    · rw [enqueued]
      dsimp only
      rw [bytes_perm hperm, h.counted.nBytes, Nat.add_comm]
      rfl
    · rcases List.mem_cons.1 (hperm.subset he) with rfl | hmem
      · exact hpos
      · exact h.counted.pos e hmem
  have hstale : Scheduled (fun q => q = item.queueId) (s.enqueued c item) := by
    refine ⟨h.scheduled.nodup, h.scheduled.sorted, fun q hq p => ?_⟩
    rw [head?, enqueued]
    dsimp only
    rw [hqueues q hq]
    exact h.scheduled.entries q (fun hfalse => hfalse) p
  obtain ⟨v, hv, hn, hc', hs'⟩ := extractExpiredMpdus_spec orders item.queueId hcounted hstale
  refine ⟨v, hn, ?_, fun e he => ?_⟩
  · rw [WifiMacQueue.enqueueAt, hc, Option.bind_some]
    exact congrArg (Option.bind · _) hv
  · obtain ⟨l, hl, hs''⟩ := setPriority_spec hc' hs' he
    have hsort := Notified.of_sortedQueues v l
    exact ⟨_, hl, rfl, hn.trans hsort, QueueInv.of_scheduled (hc'.notified hsort hc'.container)
      hs'' fun q hq => hq.2 hq.1⟩

theorem QueueInv.enqueueAt (h : QueueInv ids s) (hnew : item.id ∉ ids)
    (hexpired : item.expired = false) (hpos : 0 < item.size) (hroom : s.nPackets < s.maxSize)
    (ht : s.enqueueAt orders pos item = some t) : QueueInv (item.id :: ids) t := by
  obtain ⟨c, hc, -⟩ := Option.bind_eq_some_iff.1 ht
  obtain ⟨v, -, heq, hspec⟩ := h.enqueueAt_spec orders hnew hexpired hpos hroom hc
  rw [heq] at ht
  obtain ⟨e, he, ht⟩ := Option.bind_eq_some_iff.1 ht
  obtain ⟨u, hu, -, -, hinv⟩ := hspec e he
  obtain rfl := Option.some.inj (hu.symm.trans ht)
  exact hinv

/-- `Insert` adds at most the new MPDU. -/
theorem QueueInv.insert (h : QueueInv ids s) (hnew : item.id ∉ ids)
    (hexpired : item.expired = false) (hpos : 0 < item.size) {inserted : Bool}
    (ht : s.insert orders drop pos item = some (t, inserted)) :
    ∃ ids', ids' ⊆ item.id :: ids ∧ QueueInv ids' t := by
  obtain ⟨⟨u, found⟩, hu, ht⟩ := Option.bind_eq_some_iff.1 ht
  obtain ⟨ids', hsub, hinv, hroom⟩ := h.insertPos hu
  cases found with
  | none =>
    obtain ⟨rfl, -⟩ := Prod.mk.inj (Option.some.inj ht)
    exact ⟨ids', fun id hid => List.mem_cons_of_mem _ (hsub hid), hinv⟩
  | some pos' =>
    obtain ⟨v, hv, heq⟩ := Option.map_eq_some_iff.1 ht
    obtain ⟨rfl, -⟩ := Prod.mk.inj heq
    refine ⟨_, List.cons_subset_cons _ hsub, hinv.enqueueAt (fun hid => hnew (hsub hid)) hexpired
      hpos (hroom.resolve_left (by simp)) hv⟩

/-! ## Dequeuing and changing MPDUs -/

/-- The rounds of the loop of `DoDequeue` : the queues of the MPDUs dequeued are stale. -/
theorem foldlM_dequeueNext {l : List ℕ} {x y : WifiMacQueue × List WifiMacQueueElem}
    (hc : Counted ids x.1) (hs : Scheduled (fun q => q ∈ x.2.map WifiMacQueueElem.queueId) x.1)
    (hy : l.foldlM dequeueNext x = some y) :
    ∃ ids', ids' ⊆ ids ∧ Counted ids' y.1 ∧
      Scheduled (fun q => q ∈ y.2.map WifiMacQueueElem.queueId) y.1 := by
  induction l generalizing ids x with
  | nil =>
    obtain rfl := Option.some.inj hy
    exact ⟨ids, List.Subset.refl _, hc, hs⟩
  | cons id l ih =>
    rw [List.foldlM_cons] at hy
    obtain ⟨z, hz, hy⟩ := Option.bind_eq_some_iff.1 hy
    by_cases hzero : x.1.nPackets = 0
    · rw [dequeueNext, takeOut, if_pos hzero, Option.bind_some] at hz
      obtain rfl := Option.some.inj hz
      exact ih hc hs hy
    · obtain ⟨⟨t, e'⟩, ht, -⟩ := Option.bind_eq_some_iff.1 hz
      rw [takeOut, if_neg hzero] at ht
      obtain ⟨e, he, -⟩ := Option.bind_eq_some_iff.1 ht
      rw [find?] at he
      have hid := List.find?_some he
      have hmem : e ∈ x.1.container.elems := List.mem_of_find?_eq_some he
      obtain rfl : e.id = id := of_decide_eq_true hid
      obtain ⟨t, u, ht, hu, htaken, hc', -⟩ := takeOut_shrink hc hmem
      rw [dequeueNext, ht, Option.bind_some] at hz
      dsimp only at hz
      rw [hu] at hz
      obtain rfl := Option.some.inj hz
      have hs' : Scheduled (fun q => q ∈ (x.2 ++ [e]).map WifiMacQueueElem.queueId) u := by
        refine htaken.scheduled hc hmem (hs.mono fun q hq => ?_) fun _ => ?_
        · rw [List.map_append]
          exact List.mem_append_left _ hq
        · exact List.mem_map_of_mem (List.mem_append_right _ (List.mem_singleton_self e))
      obtain ⟨ids', hsub, hspec⟩ := ih hc' hs' hy
      exact ⟨ids', fun id hid => List.erase_subset (hsub hid), hspec⟩

theorem QueueInv.doDequeue (h : QueueInv ids s) {l : List ℕ} (ht : s.doDequeue orders l = some t) :
    ∃ ids', ids' ⊆ ids ∧ QueueInv ids' t := by
  obtain ⟨⟨u, items⟩, hu, ht⟩ := Option.bind_eq_some_iff.1 ht
  obtain ⟨ids', hsub, hc, hs⟩ := foldlM_dequeueNext (x := (s, [])) h.counted
    (h.scheduled.mono fun q hq => hq.elim) hu
  dsimp only at ht hc hs
  split_ifs at ht with hnil
  · subst hnil
    obtain rfl := Option.some.inj ht
    exact ⟨ids', hsub, QueueInv.of_scheduled hc hs fun q hq => List.not_mem_nil hq⟩
  · obtain ⟨v, hv, -, hc', hs'⟩ := notifyRemove_spec orders
      (items.map WifiMacQueueElem.queueId) hc hs
    obtain rfl := Option.some.inj (hv.symm.trans ht)
    exact ⟨ids', hsub, QueueInv.of_scheduled hc' hs' fun q hq => hq.2 hq.1⟩

/-- In-flight marks and expiry times are changed. -/
theorem QueueInv.modify (h : QueueInv ids s) (id : ℕ) {f : WifiMacQueueElem → WifiMacQueueElem}
    (hf : ∀ e, (f e).id = e.id ∧ (f e).header = e.header ∧ (f e).size = e.size ∧
      (f e).expired = e.expired) (htimestamp : ∀ e, (f e).timestamp = e.timestamp) :
    QueueInv ids { s with container := s.container.modify id f } := by
  have hprio : ∀ e : WifiMacQueueElem, (if e.id = id then f e else e).prio = e.prio := by
    intro e
    split_ifs
    · rw [WifiMacQueueElem.prio, WifiMacQueueElem.queueId, (hf e).2.1, htimestamp]
      rfl
    · rfl
  have hsize : ∀ e : WifiMacQueueElem, (if e.id = id then f e else e).size = e.size := by
    intro e
    split_ifs
    · exact (hf e).2.2.1
    · rfl
  have hsizes : ((s.container.modify id f).elems.map WifiMacQueueElem.size).Perm
      (s.container.elems.map WifiMacQueueElem.size) := by
    refine List.Perm.of_eq ?_
    rw [elems, elems, List.map_append, List.map_append, List.map_flatMap, List.map_flatMap]
    congr 1
    refine List.flatMap_congr fun q _ => ?_
    rw [WifiMacQueueContainer.modify, List.map_map]
    exact List.map_congr_left fun e _ => hsize e
  refine ⟨⟨h.counted.container.modify id hf, h.counted.nPackets,
    h.counted.nBytes.trans hsizes.sum_eq.symm, fun e he => ?_, h.counted.le⟩, h.scheduled.nodup,
    h.scheduled.sorted, fun q hq p => ?_⟩
  · obtain ⟨e', he', heq⟩ := List.mem_map.1 (hsizes.subset (List.mem_map_of_mem he))
    exact heq ▸ h.counted.pos e' he'
  · rw [h.scheduled.entries q hq p, head?, head?]
    change _ ↔ Option.map _ ((s.container.queues q).map _).head? = _
    rw [List.head?_map, Option.map_map]
    have hcomp : WifiMacQueueElem.prio ∘ (fun e => if e.id = id then f e else e) =
        WifiMacQueueElem.prio := funext hprio
    rw [hcomp]

theorem QueueInv.replace (h : QueueInv ids s) {id : ℕ} (hnew : item.id ∉ ids)
    (hexpired : item.expired = false) (hpos : 0 < item.size)
    (ht : s.replace orders drop id item = some t) :
    ∃ ids', ids' ⊆ item.id :: ids ∧ QueueInv ids' t := by
  obtain ⟨e, -, ht⟩ := Option.bind_eq_some_iff.1 ht
  obtain ⟨u, hu, ht⟩ := Option.bind_eq_some_iff.1 ht
  obtain ⟨⟨v, inserted⟩, hv, ht⟩ := Option.bind_eq_some_iff.1 ht
  obtain ⟨ids', hsub, hinv⟩ := h.doDequeue hu
  obtain ⟨ids'', hsub', hinv'⟩ := hinv.insert (fun hid => hnew (hsub hid)) hexpired hpos hv
  dsimp only at ht
  split_ifs at ht
  obtain rfl := Option.some.inj ht
  refine ⟨ids'', fun id hid => List.cons_subset_cons _ hsub (hsub' hid), ?_⟩
  exact hinv'.modify item.id (fun e => ⟨rfl, rfl, rfl, rfl⟩) fun e => rfl

/-- The search, from any queue on. -/
theorem QueueInv.doGetNext (h : QueueInv ids s) {test : WifiContainerQueueId → Bool} {rounds : ℕ}
    {first found : Option WifiContainerQueueId}
    (ht : doGetNext orders test rounds first s = some (t, found)) : QueueInv ids t := by
  induction rounds generalizing s first with
  | zero => cases ht
  | succ rounds ih =>
    cases first with
    | none =>
      obtain ⟨rfl, -⟩ := Prod.mk.inj (Option.some.inj ht)
      exact h
    | some q =>
      rw [WifiMacQueue.doGetNext] at ht
      split_ifs at ht
      · obtain ⟨u, hu, -, hc, hs⟩ := extractExpiredMpdus_spec orders q h.counted h.scheduled
        rw [hu, Option.bind_some] at ht
        split_ifs at ht
        · exact ih ⟨hc, hs⟩ ht
        · obtain ⟨rfl, -⟩ := Prod.mk.inj (Option.some.inj ht)
          exact ⟨hc, hs⟩
      · exact ih h ht

theorem QueueInv.getNext (h : QueueInv ids s) {test : WifiContainerQueueId → Bool}
    {prevQueueId found : Option WifiContainerQueueId}
    (ht : s.getNext orders test prevQueueId = some (t, found)) : QueueInv ids t := by
  cases prevQueueId with
  | none => exact h.doGetNext ht
  | some q =>
    rw [WifiMacQueue.getNext] at ht
    split_ifs at ht
    exact h.doGetNext ht

end WifiMacQueue

/-! ## Runs -/

/-- An MPDU that is to be queued. -/
structure NewMpdu where
  header : QueuedHeader
  size : ℕ
  timestamp : Time
  size_pos : 0 < size

/-- The element of a new MPDU. -/
def NewMpdu.elem (mpdu : NewMpdu) (id : ℕ) : WifiMacQueueElem :=
  { id, header := mpdu.header, size := mpdu.size, timestamp := mpdu.timestamp }

/-- A queue, and the number of the next element. -/
structure MacQueueRun where
  queue : WifiMacQueue := {}
  nextId : ℕ := 0

/-- What is done with the queue, with the answer of the scheduler if it is asked what to drop. -/
inductive MacQueueEvent
  | enqueue (drop : DropChoice) (mpdu : NewMpdu)
  | insert (drop : DropChoice) (pos : ElemIterator) (mpdu : NewMpdu)
  | replace (drop : DropChoice) (id : ℕ) (mpdu : NewMpdu)
  | dequeueIfQueued (ids : List ℕ)
  | remove (id : ℕ)
  | removeNext
  | peekByQueueId (queueId : WifiContainerQueueId)
  | getNext (test : WifiContainerQueueId → Bool) (prevQueueId : Option WifiContainerQueueId)
  | extractAllExpiredMpdus
  | wipeAllExpiredMpdus
  | setInflights (id : ℕ) (inflights : List ℕ)
  | setMaxSize (size : ℕ)
  | setMaxDelay (delay : Time)
  | advance (delay : ℕ)

namespace MacQueueRun

open WifiMacQueue

variable (orders : QueueOrders) (s : MacQueueRun)

/-- One step. -/
def step : MacQueueEvent → Option MacQueueRun
  | .enqueue drop mpdu =>
    (s.queue.insert orders drop (.queueEnd mpdu.header.getQueueId) (mpdu.elem s.nextId)).map
      fun x => ⟨x.1, s.nextId + 1⟩
  | .insert drop pos mpdu => (s.queue.insert orders drop pos (mpdu.elem s.nextId)).map
      fun x => ⟨x.1, s.nextId + 1⟩
  | .replace drop id mpdu => (s.queue.replace orders drop id (mpdu.elem s.nextId)).map
      fun queue => ⟨queue, s.nextId + 1⟩
  | .dequeueIfQueued ids =>
    (s.queue.doDequeue orders (ids.filter fun id => (s.queue.getIt id).isSome)).map
      fun queue => { s with queue }
  | .remove id => (s.queue.getIt id).bind fun _ =>
    (s.queue.doRemove orders id).map fun queue => { s with queue }
  | .removeNext => (s.queue.remove orders).map fun queue => { s with queue }
  | .peekByQueueId queueId =>
    (s.queue.extractExpiredMpdus orders queueId).map fun queue => { s with queue }
  | .getNext test prevQueueId =>
    (s.queue.getNext orders test prevQueueId).map fun x => { s with queue := x.1 }
  | .extractAllExpiredMpdus =>
    (s.queue.extractAllExpiredMpdus orders).map fun queue => { s with queue }
  | .wipeAllExpiredMpdus => (s.queue.wipeAllExpiredMpdus orders).map fun queue => { s with queue }
  | .setInflights id inflights => some { s with
      queue := { s.queue with
        container := s.queue.container.modify id fun e => { e with inflights } } }
  | .setMaxSize size => (s.queue.setMaxSize size).map fun queue => { s with queue }
  | .setMaxDelay delay => some { s with queue := { s.queue with maxDelay := delay } }
  | .advance delay => some { s with queue := { s.queue with now := s.queue.now + delay } }

variable {orders} {s}

/-- The states that are reached from an empty queue. -/
def Reached (orders : QueueOrders) (s : MacQueueRun) : Prop :=
  Runs.Reached (step orders) (fun _ _ => True) {} s

/-- The invariant of the queue, with the next number a new one. -/
def RunInv (s : MacQueueRun) : Prop :=
  ∃ ids, QueueInv ids s.queue ∧ ∀ id ∈ ids, id < s.nextId

/-- A step that adds no element. -/
theorem RunInv.of_subset {ids ids' : List ℕ} {queue : WifiMacQueue}
    (hlt : ∀ id ∈ ids, id < s.nextId) (hsub : ids' ⊆ ids) (hinv : QueueInv ids' queue) :
    RunInv { s with queue } :=
  ⟨ids', hinv, fun id hid => hlt id (hsub hid)⟩

/-- A step that adds at most the next element. -/
theorem RunInv.of_insert {ids ids' : List ℕ} {queue : WifiMacQueue}
    (hlt : ∀ id ∈ ids, id < s.nextId) (hsub : ids' ⊆ s.nextId :: ids) (hinv : QueueInv ids' queue) :
    RunInv ⟨queue, s.nextId + 1⟩ := by
  refine ⟨ids', hinv, fun id hid => ?_⟩
  rcases List.mem_cons.1 (hsub hid) with rfl | hmem
  · exact Nat.lt_succ_self _
  · exact (hlt id hmem).trans (Nat.lt_succ_self _)

theorem RunInv.step (h : s.RunInv) {ev : MacQueueEvent} {t : MacQueueRun}
    (ht : s.step orders ev = some t) : t.RunInv := by
  obtain ⟨ids, hinv, hlt⟩ := h
  have hnew : s.nextId ∉ ids := fun hmem => lt_irrefl _ (hlt _ hmem)
  have hsame : ids ⊆ ids := List.Subset.refl _
  cases ev with
  | enqueue drop mpdu =>
    obtain ⟨⟨u, inserted⟩, hu, rfl⟩ := Option.map_eq_some_iff.1 ht
    have hid : (mpdu.elem s.nextId).id ∉ ids := hnew
    obtain ⟨ids', hsub, hinv'⟩ := hinv.insert hid rfl mpdu.size_pos hu
    exact RunInv.of_insert hlt hsub hinv'
  | insert drop pos mpdu =>
    obtain ⟨⟨u, inserted⟩, hu, rfl⟩ := Option.map_eq_some_iff.1 ht
    have hid : (mpdu.elem s.nextId).id ∉ ids := hnew
    obtain ⟨ids', hsub, hinv'⟩ := hinv.insert hid rfl mpdu.size_pos hu
    exact RunInv.of_insert hlt hsub hinv'
  | replace drop id mpdu =>
    obtain ⟨u, hu, rfl⟩ := Option.map_eq_some_iff.1 ht
    have hid : (mpdu.elem s.nextId).id ∉ ids := hnew
    obtain ⟨ids', hsub, hinv'⟩ := hinv.replace hid rfl mpdu.size_pos hu
    exact RunInv.of_insert hlt hsub hinv'
  | dequeueIfQueued l =>
    obtain ⟨u, hu, rfl⟩ := Option.map_eq_some_iff.1 ht
    obtain ⟨ids', hsub, hinv'⟩ := hinv.doDequeue hu
    exact RunInv.of_subset hlt hsub hinv'
  | remove id =>
    obtain ⟨e, he, ht⟩ := Option.bind_eq_some_iff.1 ht
    obtain ⟨u, hu, rfl⟩ := Option.map_eq_some_iff.1 ht
    obtain ⟨hmem, rfl⟩ := mem_of_getIt he
    obtain ⟨-, v, hv, -, -, -, -, hinv'⟩ := hinv.doRemove orders hmem
    obtain rfl := Option.some.inj (hv.symm.trans hu)
    exact RunInv.of_subset hlt List.erase_subset hinv'
  | removeNext =>
    obtain ⟨u, hu, rfl⟩ := Option.map_eq_some_iff.1 ht
    obtain ⟨v, w, hw, hinv', -, hcases⟩ := hinv.remove orders
    obtain rfl := Option.some.inj (hw.symm.trans hu)
    rcases hcases with ⟨rfl, -⟩ | ⟨e, -, -, -, -, -, -, hinv''⟩
    · exact RunInv.of_subset hlt hsame hinv'
    · exact RunInv.of_subset hlt List.erase_subset hinv''
  | peekByQueueId queueId =>
    obtain ⟨u, hu, rfl⟩ := Option.map_eq_some_iff.1 ht
    obtain ⟨v, hv, -, hc, hs⟩ :=
      extractExpiredMpdus_spec orders queueId hinv.counted hinv.scheduled
    obtain rfl := Option.some.inj (hv.symm.trans hu)
    exact RunInv.of_subset hlt hsame ⟨hc, hs⟩
  | getNext test prevQueueId =>
    obtain ⟨⟨u, found⟩, hu, rfl⟩ := Option.map_eq_some_iff.1 ht
    exact RunInv.of_subset hlt hsame (hinv.getNext hu)
  | extractAllExpiredMpdus =>
    obtain ⟨u, hu, rfl⟩ := Option.map_eq_some_iff.1 ht
    obtain ⟨v, hv, hinv', -⟩ := hinv.extractAllExpiredMpdus orders
    obtain rfl := Option.some.inj (hv.symm.trans hu)
    exact RunInv.of_subset hlt hsame hinv'
  | wipeAllExpiredMpdus =>
    obtain ⟨u, hu, rfl⟩ := Option.map_eq_some_iff.1 ht
    obtain ⟨ids', v, hv, hsub, hinv', -⟩ := hinv.wipeAllExpiredMpdus orders
    obtain rfl := Option.some.inj (hv.symm.trans hu)
    exact RunInv.of_subset hlt hsub hinv'
  | setInflights id inflights =>
    obtain rfl := Option.some.inj ht
    exact RunInv.of_subset hlt hsame (hinv.modify id (fun e => ⟨rfl, rfl, rfl, rfl⟩) fun e => rfl)
  | setMaxSize size =>
    obtain ⟨u, hu, rfl⟩ := Option.map_eq_some_iff.1 ht
    exact RunInv.of_subset hlt hsame (hinv.setMaxSize hu)
  | setMaxDelay delay =>
    obtain rfl := Option.some.inj ht
    exact ⟨ids, ⟨⟨hinv.counted.container, hinv.counted.nPackets, hinv.counted.nBytes,
      hinv.counted.pos, hinv.counted.le⟩, hinv.scheduled.nodup, hinv.scheduled.sorted,
      hinv.scheduled.entries⟩, hlt⟩
  | advance delay =>
    obtain rfl := Option.some.inj ht
    exact ⟨ids, ⟨⟨hinv.counted.container, hinv.counted.nPackets, hinv.counted.nBytes,
      hinv.counted.pos, hinv.counted.le⟩, hinv.scheduled.nodup, hinv.scheduled.sorted,
      hinv.scheduled.entries⟩, hlt⟩

theorem runInv_of_reached (h : s.Reached orders) : s.RunInv := by
  refine Runs.Reached.invariant h (fun _ _ _ ht _ hstep => ht.step hstep)
    ⟨[], ⟨⟨WifiMacQueueContainer.containerInv_empty, rfl, rfl, fun e he => ?_, Nat.zero_le _⟩,
      List.nodup_nil, List.Pairwise.nil, fun q _ p => ?_⟩, fun id hid => ?_⟩
  · exact absurd he List.not_mem_nil
  · exact iff_of_false List.not_mem_nil (by simp [head?])
  · exact absurd hid List.not_mem_nil

/-- QoS data for a station. -/
def exampleMpdu : NewMpdu :=
  ⟨⟨.qosData 0, .station 1, .station 2, none⟩, 100, 0, by decide⟩

/-- Some orders of the queues. -/
def exampleOrders : QueueOrders :=
  ⟨fun _ _ => true, fun _ _ => true⟩

end MacQueueRun

end Ns3Pedca
