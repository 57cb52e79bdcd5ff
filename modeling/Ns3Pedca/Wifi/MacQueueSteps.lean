import Ns3Pedca.Wifi.MacQueueInvariant

/-!
# The operations of the MAC queue

What an operation of `WifiMacQueue` does to the container, and that the counters and the sorted list
agree with the container after it. An operation either fails, as it does when it inserts at
an iterator to another list, or keeps `QueueInv`.
-/

namespace Ns3Pedca

namespace WifiMacQueue

open WifiMacQueueContainer

variable {orders : QueueOrders} {s t : WifiMacQueue} {ids : List ℕ} {e : WifiMacQueueElem}
  {queueId : WifiContainerQueueId} {stale : WifiContainerQueueId → Prop}

/-- The counters and the sorted list agree with the container. -/
structure QueueInv (ids : List ℕ) (s : WifiMacQueue) : Prop where
  counted : Counted ids s
  scheduled : Scheduled (fun _ => False) s

/-! ## Taking MPDUs out -/

/-- An element is taken out, and the room of a control frame with it. -/
structure Taken (e : WifiMacQueueElem) (s t : WifiMacQueue) : Prop where
  sortedQueues : t.sortedQueues = s.sortedQueues
  now : t.now = s.now
  maxDelay : t.maxDelay = s.maxDelay
  elems : s.container.elems.Perm (e :: t.container.elems)
  queues : ∀ q, t.container.queues q = (s.container.queues q).filter (·.id ≠ e.id)
  expiredQueue : t.container.expiredQueue = s.container.expiredQueue.filter (·.id ≠ e.id)

theorem takeOut_spec (hc : Counted ids s) (he : e ∈ s.container.elems) :
    ∃ t, s.takeOut e.id = some (t, some e) ∧ Taken e s t ∧ Counted (ids.erase e.id) t ∧
      t.maxSize = s.maxSize ∧ t.nPackets + 1 = s.nPackets := by
  obtain ⟨c, hc', hinv, hperm, hqueues, hexpired⟩ := hc.container.erase_spec he
  have hid : e.id ∈ ids := hc.container.perm.subset (List.mem_map_of_mem he)
  have hpos : 0 < ids.length := List.length_pos_of_mem hid
  have hlen : (ids.erase e.id).length = ids.length - 1 := List.length_erase_of_mem hid
  have hbytes : s.nBytes = e.size + bytes c.elems := hc.nBytes.trans (bytes_perm hperm.symm).symm
  have hn := hc.nPackets
  rw [takeOut, if_neg (by omega), hc.container.find?_eq he, Option.bind_some, hc', Option.bind_some,
    if_pos (by omega)]
  refine ⟨_, rfl, ⟨rfl, rfl, rfl, hperm, hqueues, hexpired⟩, ⟨hinv, ?_, ?_, ?_, ?_⟩, rfl, ?_⟩
  · dsimp only
    omega
  · dsimp only
    omega
  · exact fun e' he' => hc.pos e' (hperm.symm.subset (List.mem_cons_of_mem e he'))
  · have hle := hc.le
    dsimp only
    omega
  · dsimp only
    omega

theorem Taken.queues_eq (h : Taken e s t) (hc : Counted ids s) (he : e ∈ s.container.elems)
    {q : WifiContainerQueueId} (hnot : e ∉ s.container.queues q) :
    t.container.queues q = s.container.queues q :=
  (h.queues q).trans (hc.container.filter_of_notMem he
    (fun _ he' => hc.container.mem_elems_of_mem_queue he') hnot)

/-- The list says nothing false of the other queues. -/
theorem Taken.scheduled (h : Taken e s t) (hc : Counted ids s) (he : e ∈ s.container.elems)
    (hs : Scheduled stale s) (hstale : e.expired = false → stale e.queueId) :
    Scheduled stale t where
  nodup := h.sortedQueues ▸ hs.nodup
  sorted := h.sortedQueues ▸ hs.sorted
  entries q hq p := by
    have hnot : e ∉ s.container.queues q := by
      intro hmem
      obtain ⟨rfl, hexpired⟩ := hc.container.queued q e hmem
      exact hq (hstale hexpired)
    rw [h.sortedQueues, head?, h.queues_eq hc he hnot]
    exact hs.entries q hq p

/-- The maximum size without the room of an MPDU. It does not become zero. -/
def shrunkSize (s : WifiMacQueue) (e : WifiMacQueueElem) : ℕ :=
  if e.isCtl ∧ s.maxSize ≠ 1 then s.maxSize - 1 else s.maxSize

/-- There is room for what has been taken out. -/
theorem shrink_spec (e : WifiMacQueueElem) (hc : Counted ids s) (hlt : s.nPackets < s.maxSize) :
    s.shrink e = some { s with maxSize := s.shrunkSize e } ∧
      Counted ids { s with maxSize := s.shrunkSize e } := by
  have hle : s.nPackets ≤ s.shrunkSize e := by
    rw [shrunkSize]
    split_ifs <;> omega
  refine ⟨?_, hc.container, hc.nPackets, hc.nBytes, hc.pos, hle⟩
  rw [shrink, shrunkSize]
  by_cases hctl : e.isCtl = true
  · rw [if_pos hctl, if_neg (by omega), setMaxSize]
    by_cases hone : s.maxSize = 1
    · rw [if_pos (by omega), if_neg fun hboth => hboth.2 hone]
    · rw [if_neg (by omega), if_neg (by omega), if_pos ⟨hctl, hone⟩]
  · rw [if_neg hctl, if_neg fun hboth => hctl hboth.1]

/-- An element is taken out, with its room. -/
theorem takeOut_shrink (hc : Counted ids s) (he : e ∈ s.container.elems) :
    ∃ t u, s.takeOut e.id = some (t, some e) ∧ t.shrink e = some u ∧ Taken e s u ∧
      Counted (ids.erase e.id) u ∧ u.maxSize = s.shrunkSize e := by
  obtain ⟨t, ht, htaken, hc', hsize, hn⟩ := takeOut_spec hc he
  have hle := hc.le
  obtain ⟨hshrink, hc''⟩ := shrink_spec e hc' (by omega)
  refine ⟨t, _, ht, hshrink, ⟨htaken.sortedQueues, htaken.now, htaken.maxDelay, htaken.elems,
    htaken.queues, htaken.expiredQueue⟩, hc'', ?_⟩
  rw [shrunkSize, shrunkSize, hsize]

theorem QueueInv.of_scheduled {stale : WifiContainerQueueId → Prop} (hc : Counted ids s)
    (h : Scheduled stale s) (hstale : ∀ q, ¬ stale q) : QueueInv ids s :=
  ⟨hc, h.mono fun q hq => hstale q hq⟩

/-- `DoRemove` takes out an MPDU, and tells the scheduler of its queue. -/
theorem QueueInv.doRemove (orders : QueueOrders) (h : QueueInv ids s) (he : e ∈ s.container.elems) :
    ∃ t u, s.doRemove orders e.id = some u ∧ Taken e s t ∧ Counted (ids.erase e.id) t ∧
      Notified [e.queueId] t u ∧ u.maxSize = s.shrunkSize e ∧ QueueInv (ids.erase e.id) u := by
  obtain ⟨t, t', ht, ht', htaken, hc, hsize⟩ := takeOut_shrink h.counted he
  have hstale : Scheduled (fun q => q = e.queueId) t' :=
    htaken.scheduled h.counted he (h.scheduled.mono fun q hq => hq.elim) fun _ => rfl
  obtain ⟨u, hu, hn, hc', hlast⟩ := notifyRemove_spec orders [e.queueId] hc hstale
  refine ⟨t', u, ?_, htaken, hc, hn, ?_, QueueInv.of_scheduled hc' hlast ?_⟩
  · rw [WifiMacQueue.doRemove, ht, Option.bind_some]
    dsimp only
    rw [ht', Option.bind_some, hu]
  · rw [hn.frame]
    exact hsize
  · rintro q ⟨rfl, hnot⟩
    exact hnot (List.mem_singleton_self _)

/-! ## Removing expired MPDUs -/

theorem perm_ofMap (orders : QueueOrders) (l : List WifiContainerQueueId) :
    (orders.ofMap l).Perm l :=
  List.perm_insertionSort _ l

/-- No MPDU is in the expired queue, or can be moved there. -/
def NothingToWipe (s : WifiMacQueue) : Prop :=
  s.container.expiredQueue = [] ∧ ∀ q, s.Settled q

/-- An extraction from queues that nothing can be extracted from adds nothing to the expired
queue. -/
theorem Notified.expiredQueue_eq {queueIds : List WifiContainerQueueId}
    (h : Notified queueIds s t) (hsettled : ∀ q ∈ queueIds, s.Settled q) :
    t.container.expiredQueue = s.container.expiredQueue := by
  obtain ⟨l, hl, hmem⟩ := h.extracted.expired
  have hnil : l = [] := List.eq_nil_iff_forall_not_mem.2 fun e he => by
    obtain ⟨q, hq, hrem⟩ := hmem e he
    rw [hsettled q hq] at hrem
    exact List.not_mem_nil hrem
  rw [hl, hnil, List.map_nil, List.append_nil]

/-- All queues are extracted from. -/
theorem QueueInv.extractAllExpiredMpdus (orders : QueueOrders) (h : QueueInv ids s) :
    ∃ t, s.extractAllExpiredMpdus orders = some t ∧ QueueInv ids t ∧
      (∃ queueIds, Notified queueIds s t) ∧
      (∀ q, t.container.queues q = kept s.now (s.container.queues q)) ∧
      (t.container.expiredQueue = [] ↔ s.NothingToWipe) := by
  have hkeys := perm_ofMap orders s.container.keys
  obtain ⟨c, first, last, hc, hinv, helems, hqueues, hexpired, hrange⟩ :=
    h.counted.container.extractAllExpiredMpdus s.now
      (hkeys.nodup_iff.2 h.counted.container.keys)
  have hall : ∀ q, c.queues q = kept s.now (s.container.queues q) := by
    intro q
    rw [hqueues]
    split_ifs with hmem
    · rfl
    · have hnil : s.container.queues q = [] := by
        by_contra hne
        exact hmem (hkeys.symm.subset (h.counted.container.mem_keys q hne))
      rw [hnil]
      rfl
  have hn : Notified (orders.ofMap s.container.keys) s { s with container := c } := by
    refine ⟨rfl, hqueues, helems, _, hexpired, fun e he => ?_⟩
    obtain ⟨q, hq, hrem⟩ := List.mem_flatMap.1 he
    exact ⟨q, hq, hrem⟩
  have hcounted := h.counted.notified hn hinv
  -- only the queues that something has been extracted from are stale
  have hstale : Scheduled (fun q => ¬ s.Settled q) { s with container := c } := by
    refine ⟨h.scheduled.nodup, h.scheduled.sorted, fun q hq p => ?_⟩
    rw [head?]
    dsimp only
    rw [hall, kept_of_removed_eq_nil (not_not.1 hq)]
    exact h.scheduled.entries q (fun hfalse => hfalse) p
  have hmpdus : ∀ q, ¬ s.Settled q → q ∈ (c.range first last).map WifiMacQueueElem.queueId := by
    intro q hq
    obtain ⟨e, l, hl⟩ := List.exists_cons_of_ne_nil hq
    have he : e ∈ removed s.now (s.container.queues q) := hl ▸ List.mem_cons_self
    have hmem := (removed_sublist _ _).subset he
    have hkey := hkeys.symm.subset (h.counted.container.mem_keys q (List.ne_nil_of_mem hmem))
    rw [hrange, List.map_map]
    exact List.mem_map.2
      ⟨e, List.mem_flatMap_of_mem hkey he, (h.counted.container.queued q e hmem).1⟩
  have hsettled : ∀ q, WifiMacQueue.Settled { s with container := c } q := by
    intro q
    rw [Settled]
    dsimp only
    rw [hall]
    exact removed_kept _ _
  have hwipe : c.expiredQueue = [] ↔ s.NothingToWipe := by
    rw [hexpired, List.append_eq_nil_iff, List.map_eq_nil_iff]
    refine and_congr_right fun _ => ⟨fun hnone q => ?_, fun hnone => ?_⟩
    · by_contra hq
      have hmem := hmpdus q hq
      rw [hrange, hnone] at hmem
      exact List.not_mem_nil hmem
    · exact List.flatMap_eq_nil_iff.2 fun q _ => hnone q
  rw [WifiMacQueue.extractAllExpiredMpdus, hc, Option.bind_some]
  dsimp only
  split_ifs with hnil
  · refine ⟨_, rfl, QueueInv.of_scheduled hcounted hstale fun q hq => ?_, ⟨_, hn⟩, hall, hwipe⟩
    have hmem := hmpdus q hq
    rw [hnil] at hmem
    exact List.not_mem_nil hmem
  · obtain ⟨t, ht, hn', hc', hlast⟩ := notifyRemove_spec orders
      ((c.range first last).map WifiMacQueueElem.queueId) hcounted hstale
    refine ⟨t, ht, QueueInv.of_scheduled hc' hlast fun q hq => hq.2 (hmpdus q hq.1),
      ⟨_, hn.trans hn'⟩, fun q => ?_, ?_⟩
    · rw [hn'.extracted.queues]
      dsimp only
      rw [hall]
      split_ifs
      · exact kept_kept _ _
      · rfl
    · rw [hn'.expiredQueue_eq fun q _ => hsettled q]
      exact hwipe

/-- The MPDUs of the expired queue are taken out one after the other. -/
theorem QueueInv.foldlM_takeOut {l : List WifiMacQueueElem} (h : QueueInv ids s)
    (hl : s.container.expiredQueue = l) :
    ∃ ids' t, (l.map (·.id)).foldlM (fun s id => (s.takeOut id).map Prod.fst) s = some t ∧
      ids' ⊆ ids ∧ QueueInv ids' t ∧ t.container.queues = s.container.queues ∧
      t.container.expiredQueue = [] ∧ t.now = s.now ∧ t.maxSize = s.maxSize ∧
      t.nPackets + l.length = s.nPackets := by
  induction l generalizing s ids with
  | nil => exact ⟨ids, s, rfl, List.Subset.refl _, h, rfl, hl, rfl, rfl, rfl⟩
  | cons e l ih =>
    have hmem : e ∈ s.container.expiredQueue := hl ▸ List.mem_cons_self
    have he : e ∈ s.container.elems := List.mem_append_right _ hmem
    have hexpired := h.counted.container.expired e hmem
    obtain ⟨t, ht, htaken, hc, hsize, hn⟩ := takeOut_spec h.counted he
    have hrest : t.container.expiredQueue = l := by
      have hnodup := h.counted.container.nodup_expiredQueue
      rw [hl, List.map_cons, List.nodup_cons] at hnodup
      rw [htaken.expiredQueue, hl, List.filter_cons_of_neg (by simp)]
      exact List.filter_eq_self.2 fun e' he' => decide_eq_true fun heq =>
        hnodup.1 (heq ▸ List.mem_map_of_mem he')
    have hscheduled : Scheduled (fun _ => False) t :=
      htaken.scheduled h.counted he h.scheduled fun hfalse => by
        rw [hexpired] at hfalse
        cases hfalse
    have hqueues : t.container.queues = s.container.queues := by
      funext q
      refine htaken.queues_eq h.counted he fun hmem' => ?_
      rw [(h.counted.container.queued q e hmem').2] at hexpired
      cases hexpired
    obtain ⟨ids', u, hu, hsub, hinv, hqueues', hnil, hnow, hsize', hn'⟩ :=
      ih ⟨hc, hscheduled⟩ hrest
    refine ⟨ids', u, ?_, fun id hid => List.erase_subset (hsub hid), hinv, hqueues'.trans hqueues,
      hnil, hnow.trans htaken.now, hsize'.trans hsize, ?_⟩
    · rw [List.map_cons, List.foldlM_cons, ht]
      exact hu
    · rw [List.length_cons]
      omega

/-- `WipeAllExpiredMpdus` leaves no expired MPDU that an extraction finds. -/
theorem QueueInv.wipeAllExpiredMpdus (orders : QueueOrders) (h : QueueInv ids s) :
    ∃ ids' t, s.wipeAllExpiredMpdus orders = some t ∧ ids' ⊆ ids ∧ QueueInv ids' t ∧
      (∀ q, t.container.queues q = kept s.now (s.container.queues q)) ∧
      t.container.expiredQueue = [] ∧ t.now = s.now ∧ t.maxSize = s.maxSize ∧
      (t.nPackets < s.nPackets ↔ ¬ s.NothingToWipe) ∧ t.nPackets ≤ s.nPackets := by
  obtain ⟨t, ht, hinv, ⟨queueIds, hn⟩, hqueues, hwipe⟩ := h.extractAllExpiredMpdus orders
  obtain ⟨ids', u, hu, hsub, hinv', hqueues', hnil, hnow, hsize, hn'⟩ := hinv.foldlM_takeOut rfl
  have hframe := hn.frame
  have hpackets : t.nPackets = s.nPackets := by rw [hframe]
  refine ⟨ids', u, ?_, hsub, hinv', fun q => ?_, hnil, hnow.trans ?_, hsize.trans ?_, ?_,
    by omega⟩
  · rw [WifiMacQueue.wipeAllExpiredMpdus, ht, Option.bind_some, hu]
  · rw [hqueues', hqueues]
  · rw [hframe]
  · rw [hframe]
  · rw [← hwipe, ← List.length_eq_zero_iff]
    omega

/-! ## Searching -/

/-- The queues of the sorted list are those that are not empty. -/
theorem QueueInv.mem_sortedQueues (h : QueueInv ids s) (q : WifiContainerQueueId) :
    q ∈ s.sortedQueues.map Prod.snd ↔ s.container.queues q ≠ [] := by
  constructor
  · intro hmem hnil
    obtain ⟨⟨p, q'⟩, hx, rfl⟩ := List.mem_map.1 hmem
    have hentry := (h.scheduled.entries q' (fun hfalse => hfalse) p).1 hx
    rw [head?, hnil] at hentry
    cases hentry
  · intro hne
    obtain ⟨e, l, hl⟩ := List.exists_cons_of_ne_nil hne
    have hhead : (s.head? q).map WifiMacQueueElem.prio = some e.prio := by
      rw [head?, hl]
      rfl
    exact List.mem_map_of_mem ((h.scheduled.entries q (fun hfalse => hfalse) _).2 hhead)

/-- A queue that has disappeared shortens the sorted list. -/
theorem QueueInv.length_sortedQueues_lt (h : QueueInv ids s) {ids' : List ℕ} (h' : QueueInv ids' t)
    (hsub : ∀ q, t.container.queues q ≠ [] → s.container.queues q ≠ [])
    (hne : s.container.queues queueId ≠ []) (hnil : t.container.queues queueId = []) :
    t.sortedQueues.length < s.sortedQueues.length := by
  have hmem := (h.mem_sortedQueues queueId).2 hne
  have hsubset : t.sortedQueues.map Prod.snd ⊆ (s.sortedQueues.map Prod.snd).erase queueId := by
    intro q hq
    have hq' := (h'.mem_sortedQueues q).1 hq
    refine (List.mem_erase_of_ne ?_).2 ((h.mem_sortedQueues q).2 (hsub q hq'))
    rintro rfl
    exact hq' hnil
  have hle := (List.subperm_of_subset h'.scheduled.nodup hsubset).length_le
  have hpos := List.length_pos_of_mem hmem
  rw [List.length_erase_of_mem hmem, List.length_map, List.length_map] at hle
  rw [List.length_map] at hpos
  omega

theorem Notified.queues_ne_nil {queueIds : List WifiContainerQueueId} (h : Notified queueIds s t)
    {q : WifiContainerQueueId} (hne : t.container.queues q ≠ []) : s.container.queues q ≠ [] := by
  intro hnil
  rw [h.extracted.queues, hnil] at hne
  split_ifs at hne <;> exact hne rfl

/-- The search from the first of the sorted queues finds a queue that is not empty, after queues
that have become empty. -/
theorem QueueInv.doGetNext_firstQueue (orders : QueueOrders) (h : QueueInv ids s) {rounds : ℕ}
    (hrounds : s.sortedQueues.length < rounds) :
    ∃ t found, doGetNext orders (fun _ => true) rounds s.firstQueue s = some (t, found) ∧
      QueueInv ids t ∧ (∃ queueIds, Notified queueIds s t) ∧
      (found = none → ∀ q, t.container.queues q = []) ∧
      ∀ q, found = some q → t.container.queues q ≠ [] ∧ t.Settled q := by
  induction rounds generalizing s with
  | zero => exact absurd hrounds (Nat.not_lt_zero _)
  | succ rounds ih =>
    cases hsorted : s.sortedQueues with
    | nil =>
      have hfirst : s.firstQueue = none := by
        rw [firstQueue, hsorted]
        rfl
      rw [hfirst]
      refine ⟨s, none, rfl, h, ⟨_, Notified.refl s⟩, fun _ q => ?_, fun q hq => absurd hq (by simp)⟩
      by_contra hne
      have hmem := (h.mem_sortedQueues q).2 hne
      rw [hsorted] at hmem
      exact List.not_mem_nil hmem
    | cons x l =>
      have hfirst : s.firstQueue = some x.2 := by
        rw [firstQueue, hsorted]
        rfl
      have hprev : s.prevQueue x.2 = none := by
        rw [prevQueue, hsorted, List.takeWhile_cons_of_neg (by simp)]
        rfl
      obtain ⟨t, ht, hn, hc, hs⟩ := extractExpiredMpdus_spec orders x.2 h.counted h.scheduled
      have hinv : QueueInv ids t := ⟨hc, hs⟩
      rw [hfirst, doGetNext, if_pos rfl, ht, Option.bind_some, hprev]
      by_cases hzero : t.container.getNBytes x.2 = 0
      · rw [hc.getNBytes_eq_zero] at hzero
        have hnext : ¬ t.firstQueue = some x.2 := by
          intro heq
          obtain ⟨y, hy, hyx⟩ := Option.map_eq_some_iff.1 heq
          refine (hinv.mem_sortedQueues x.2).1 ?_ hzero
          exact hyx ▸ List.mem_map_of_mem (List.mem_of_head? hy)
        have hlt := h.length_sortedQueues_lt hinv (fun q => hn.queues_ne_nil)
          ((h.mem_sortedQueues x.2).1 (by rw [hsorted]; exact List.mem_cons_self)) hzero
        obtain ⟨u, found, hu, hinv', ⟨queueIds, hn'⟩, hspec⟩ := ih hinv (by omega)
        rw [if_pos ((hc.getNBytes_eq_zero _).2 hzero)]
        dsimp only
        rw [if_neg hnext]
        exact ⟨u, found, hu, hinv', ⟨_, hn.trans hn'⟩, hspec⟩
      · rw [if_neg hzero]
        rw [hc.getNBytes_eq_zero] at hzero
        refine ⟨t, some x.2, rfl, hinv, ⟨_, hn⟩, fun hnone => absurd hnone (by simp),
          fun q hq => ?_⟩
        obtain rfl := Option.some.inj hq
        exact ⟨hzero, hn.settled (Or.inr (List.mem_singleton_self _))⟩

/-- The head of a queue that nothing can be extracted from is not expired. -/
theorem isExpired_of_settled (h : s.Settled queueId) (he : s.head? queueId = some e) :
    e.isExpired s.now = false := by
  by_contra hnot
  rw [Bool.not_eq_false] at hnot
  obtain ⟨l, hl⟩ := List.head?_eq_some_iff.1 he
  have hstale := WifiMacQueueElem.isStale_of_isExpired hnot
  have hmem : e ∈ removed s.now (s.container.queues queueId) := by
    rw [hl, removed, List.takeWhile_cons_of_pos hstale]
    exact List.mem_filter.2 ⟨List.mem_cons_self, hnot⟩
  rw [h] at hmem
  exact List.not_mem_nil hmem

/-- `Remove` takes out an MPDU that is not expired, if there is a container queue that is not
empty after the expired MPDUs have been extracted. -/
theorem QueueInv.remove (orders : QueueOrders) (h : QueueInv ids s) :
    ∃ t u, s.remove orders = some u ∧ QueueInv ids t ∧
    (∃ queueIds, Notified queueIds s t) ∧
    (u = t ∧ (∀ q, t.container.queues q = []) ∨
      ∃ e t', e ∈ t.container.elems ∧ e.isExpired t.now = false ∧ Taken e t t' ∧
        Counted (ids.erase e.id) t' ∧ Notified [e.queueId] t' u ∧
        QueueInv (ids.erase e.id) u) := by
  obtain ⟨t, found, ht, hinv, hn, hnone, hsome⟩ :=
    h.doGetNext_firstQueue orders (Nat.lt_succ_self _)
  rw [WifiMacQueue.remove, getNext, ht, Option.bind_some]
  cases found with
  | none => exact ⟨t, t, rfl, hinv, hn, Or.inl ⟨rfl, hnone rfl⟩⟩
  | some q =>
    obtain ⟨hne, hsettled⟩ := hsome q rfl
    obtain ⟨e, l, hl⟩ := List.exists_cons_of_ne_nil hne
    have hhead : t.head? q = some e := by
      rw [head?, hl]
      rfl
    have he : e ∈ t.container.elems :=
      hinv.counted.container.mem_elems_of_mem_queue (hl ▸ List.mem_cons_self)
    obtain ⟨t', u, hu, htaken, hc, hn', -, hinv'⟩ := hinv.doRemove orders he
    dsimp only
    rw [hhead, Option.bind_some, hu]
    exact ⟨t, u, rfl, hinv, hn, Or.inr ⟨e, t', he, isExpired_of_settled hsettled hhead, htaken,
      hc, hn', hinv'⟩⟩

end WifiMacQueue

end Ns3Pedca
