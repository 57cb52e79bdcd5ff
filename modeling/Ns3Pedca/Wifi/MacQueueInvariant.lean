import Ns3Pedca.Wifi.WifiMacQueue

/-!
# The invariant of the MAC queue

The counters of a `WifiMacQueue` are those of the MPDUs in its container (`Counted`), and the sorted
list has exactly one entry for each container queue that is not empty, under the priority of
its first MPDU, and none for an empty one (`Scheduled`). Between the removal of an MPDU and
the notification of the scheduler this does not hold of the queue that it was in, which is stale.

A notification ends at the second level of nesting, since a queue that has been looked at
holds no MPDU that can be extracted (`removed_kept`). It leaves no queue stale that it is about, and
changes the container by extractions from these queues only (`Extracted`, `notifyRemove_spec`).
-/

namespace Ns3Pedca

/-- Control queues come first, then management queues. -/
def FcfsPrio.rank (p : FcfsPrio) : ℕ :=
  if p.type = .ctl then 0 else if p.type = .mgt then 1 else 2

theorem FcfsPrio.lt_iff (p q : FcfsPrio) :
    p.lt q = true ↔ p.rank < q.rank ∨ p.rank = q.rank ∧ p.priority < q.priority := by
  obtain ⟨tp, kp⟩ := p
  obtain ⟨tq, kq⟩ := q
  cases kp <;> cases kq <;> simp [FcfsPrio.lt, FcfsPrio.rank]

theorem FcfsPrio.lt_asymm (p q : FcfsPrio) (h : p.lt q = true) : q.lt p = false := by
  rw [FcfsPrio.lt_iff] at h
  by_contra hnot
  rw [Bool.not_eq_false, FcfsPrio.lt_iff] at hnot
  rcases h with h | ⟨heq, h⟩
  · omega
  · exact h.asymm (hnot.resolve_left (by omega)).2

theorem FcfsPrio.lt_trans (p q r : FcfsPrio) (h : p.lt q = true) (h' : q.lt r = true) :
    p.lt r = true := by
  rw [FcfsPrio.lt_iff] at h h' ⊢
  rcases h with h | ⟨heq, h⟩
  · exact Or.inl (by omega)
  · rcases h' with h' | ⟨heq', h'⟩
    · exact Or.inl (by omega)
    · exact Or.inr ⟨heq.trans heq', h.trans h'⟩

namespace WifiMacQueueContainer

/-- The container after extractions from these queues. -/
structure Extracted (now : Time) (queueIds : List WifiContainerQueueId)
    (c c' : WifiMacQueueContainer) : Prop where
  queues : ∀ q, c'.queues q = if q ∈ queueIds then kept now (c.queues q) else c.queues q
  elems : SameElems c c'
  expired : ∃ l : List WifiMacQueueElem,
    c'.expiredQueue = c.expiredQueue ++ l.map WifiMacQueueElem.markExpired ∧
      ∀ e ∈ l, ∃ q ∈ queueIds, e ∈ removed now (c.queues q)

variable {c c' c'' : WifiMacQueueContainer} {now : Time}
  {queueIds queueIds' : List WifiContainerQueueId} {queueId : WifiContainerQueueId} {ids : List ℕ}

theorem Extracted.refl (c : WifiMacQueueContainer) (now : Time) : Extracted now [] c c where
  queues _ := rfl
  elems := List.Perm.refl _
  expired := ⟨[], (List.append_nil _).symm, fun _ h => absurd h List.not_mem_nil⟩

theorem kept_kept (now : Time) (l : List WifiMacQueueElem) :
    kept now (kept now l) = kept now l :=
  kept_of_removed_eq_nil (removed_kept now l)

theorem Extracted.trans (h : Extracted now queueIds c c') (h' : Extracted now queueIds' c' c'') :
    Extracted now (queueIds ++ queueIds') c c'' where
  queues q := by
    rw [h'.queues, h.queues]
    by_cases hq : q ∈ queueIds <;> by_cases hq' : q ∈ queueIds' <;>
      simp [hq, hq', kept_kept]
  elems := h'.elems.trans h.elems
  expired := by
    obtain ⟨l, hl, hmem⟩ := h.expired
    obtain ⟨l', hl', hmem'⟩ := h'.expired
    refine ⟨l ++ l', by rw [hl', hl, List.map_append, List.append_assoc], fun e he => ?_⟩
    rcases List.mem_append.1 he with he | he
    · obtain ⟨q, hq, hrem⟩ := hmem e he
      exact ⟨q, List.mem_append_left _ hq, hrem⟩
    · obtain ⟨q, hq, hrem⟩ := hmem' e he
      rw [h.queues] at hrem
      split_ifs at hrem
      · rw [removed_kept] at hrem
        exact absurd hrem List.not_mem_nil
      · exact ⟨q, List.mem_append_right _ hq, hrem⟩

theorem Extracted.congr (h : Extracted now queueIds c c')
    (heq : ∀ q, q ∈ queueIds ↔ q ∈ queueIds') : Extracted now queueIds' c c' where
  queues q := by
    rw [h.queues]
    simp only [heq]
  elems := h.elems
  expired := by
    obtain ⟨l, hl, hmem⟩ := h.expired
    refine ⟨l, hl, fun e he => ?_⟩
    obtain ⟨q, hq, hrem⟩ := hmem e he
    exact ⟨q, (heq q).1 hq, hrem⟩

theorem ContainerInv.extracted (h : ContainerInv ids c) (now : Time)
    (queueId : WifiContainerQueueId) :
    Extracted now [queueId] c (afterExtraction now queueId c) where
  queues q := by
    rw [queues_afterExtraction]
    simp only [List.mem_singleton]
  elems := h.perm_map_afterExtraction now queueId fun _ => rfl
  expired := ⟨_, expiredQueue_afterExtraction, fun _ he =>
    ⟨queueId, List.mem_singleton_self queueId, he⟩⟩

end WifiMacQueueContainer

namespace WifiMacQueue

open WifiMacQueueContainer

/-- The counters are those of the elements of `ids`, which take up at most the room there is. -/
structure Counted (ids : List ℕ) (s : WifiMacQueue) : Prop where
  container : ContainerInv ids s.container
  nPackets : s.nPackets = ids.length
  nBytes : s.nBytes = bytes s.container.elems
  pos : ∀ e ∈ s.container.elems, 0 < e.size
  le : s.nPackets ≤ s.maxSize

/-- The sorted list is in order, with one entry for each queue that is not empty. Nothing is said of
the entries of stale queues. -/
structure Scheduled (stale : WifiContainerQueueId → Prop) (s : WifiMacQueue) : Prop where
  nodup : (s.sortedQueues.map Prod.snd).Nodup
  sorted : Multimap.Sorted FcfsPrio.lt s.sortedQueues
  entries : ∀ q, ¬ stale q → ∀ p,
    (p, q) ∈ s.sortedQueues ↔ (s.head? q).map WifiMacQueueElem.prio = some p

/-- Queues are extracted from, and the scheduler is told. -/
structure Notified (queueIds : List WifiContainerQueueId) (s t : WifiMacQueue) : Prop where
  frame : t = { s with container := t.container, sortedQueues := t.sortedQueues }
  extracted : Extracted s.now queueIds s.container t.container

variable {s t u : WifiMacQueue} {ids : List ℕ} {queueId : WifiContainerQueueId}
  {queueIds queueIds' : List WifiContainerQueueId} {stale stale' : WifiContainerQueueId → Prop}

theorem Scheduled.mono (h : Scheduled stale s) (himp : ∀ q, stale q → stale' q) :
    Scheduled stale' s :=
  ⟨h.nodup, h.sorted, fun q hq => h.entries q fun hstale => hq (himp q hstale)⟩

theorem Notified.trans (h : Notified queueIds s t) (h' : Notified queueIds' t u) :
    Notified (queueIds ++ queueIds') s u where
  frame := by
    rw [h'.frame, h.frame]
  extracted := by
    have hnow : t.now = s.now := by rw [h.frame]
    exact h.extracted.trans (hnow ▸ h'.extracted)

theorem Notified.refl (s : WifiMacQueue) : Notified [] s s :=
  ⟨rfl, Extracted.refl _ _⟩

/-- A change of the sorted list. -/
theorem Notified.of_sortedQueues (s : WifiMacQueue) (l : List (FcfsPrio × WifiContainerQueueId)) :
    Notified [] s { s with sortedQueues := l } :=
  ⟨rfl, Extracted.refl _ _⟩

theorem Notified.congr (h : Notified queueIds s t) (heq : ∀ q, q ∈ queueIds ↔ q ∈ queueIds') :
    Notified queueIds' s t :=
  ⟨h.frame, h.extracted.congr heq⟩

/-- The counters stay true. -/
theorem Counted.notified (h : Counted ids s) (hn : Notified queueIds s t)
    (hinv : ContainerInv ids t.container) : Counted ids t where
  container := hinv
  nPackets := by
    rw [hn.frame]
    exact h.nPackets
  nBytes := by
    have hsizes := hn.extracted.elems.map WifiMacQueueElem.size
    rw [List.map_map, List.map_map] at hsizes
    rw [hn.frame]
    exact h.nBytes.trans hsizes.sum_eq.symm
  pos e he := by
    obtain ⟨e', he', heq⟩ := List.mem_map.1
      (hn.extracted.elems.subset (List.mem_map_of_mem he))
    have hsize := congrArg WifiMacQueueElem.size heq
    exact (h.pos e' he').trans_eq hsize
  le := by
    rw [hn.frame]
    exact h.le

/-- A queue is empty if it holds no bytes. -/
theorem Counted.getNBytes_eq_zero (h : Counted ids s) (queueId : WifiContainerQueueId) :
    s.container.getNBytes queueId = 0 ↔ s.container.queues queueId = [] := by
  rw [getNBytes]
  split_ifs with hnil
  · simp [hnil]
  · rw [h.container.nBytes]
    obtain ⟨e, l, hl⟩ := List.exists_cons_of_ne_nil hnil
    have hmem : e ∈ s.container.queues queueId := hl ▸ List.mem_cons_self
    have hpos := h.pos e (h.container.mem_elems_of_mem_queue hmem)
    have hbytes : bytes (e :: l) = e.size + bytes l := rfl
    rw [hl]
    simp only [reduceCtorEq, iff_false]
    omega

/-! ## The sorted list -/

theorem mem_unsort {x : FcfsPrio × WifiContainerQueueId} :
    x ∈ (s.unsort queueId).sortedQueues ↔ x ∈ s.sortedQueues ∧ x.2 ≠ queueId := by
  rw [unsort, List.mem_filter, decide_eq_true_iff]

/-- An empty queue is taken out of the list. -/
theorem Scheduled.unsort (h : Scheduled stale s) (hnil : s.container.queues queueId = []) :
    Scheduled (fun q => stale q ∧ q ≠ queueId) (s.unsort queueId) where
  nodup := h.nodup.sublist (List.filter_sublist.map _)
  sorted := h.sorted.sublist List.filter_sublist
  entries q hq p := by
    rw [mem_unsort]
    by_cases hqueue : q = queueId
    · subst hqueue
      rw [head?]
      change _ ↔ ((s.container.queues q).head?).map _ = _
      simp [hnil]
    · rw [h.entries q (fun hstale => hq ⟨hstale, hqueue⟩) p]
      exact and_iff_left hqueue

/-- A queue that is not in the list is put into it, under the priority of its first MPDU. -/
theorem Scheduled.sort (h : Scheduled stale s) {e : WifiMacQueueElem}
    (he : s.head? queueId = some e) (hnot : queueId ∉ s.sortedQueues.map Prod.snd) :
    Scheduled (fun q => stale q ∧ q ≠ queueId) (s.sort queueId e.prio) := by
  have hperm : (s.sort queueId e.prio).sortedQueues.Perm ((e.prio, queueId) :: s.sortedQueues) :=
    Multimap.perm_insert _ _
  refine ⟨?_, h.sorted.insert FcfsPrio.lt_asymm FcfsPrio.lt_trans _, fun q hq p => ?_⟩
  · exact (hperm.map Prod.snd).nodup_iff.2 (List.nodup_cons.2 ⟨hnot, h.nodup⟩)
  · rw [hperm.mem_iff, List.mem_cons, Prod.mk.injEq]
    by_cases hqueue : q = queueId
    · subst hqueue
      have hno : (p, q) ∉ s.sortedQueues := fun hmem => hnot (List.mem_map_of_mem hmem)
      change _ ↔ (s.head? q).map _ = _
      rw [he, Option.map_some, Option.some.injEq]
      simp [hno, eq_comm]
    · rw [h.entries q (fun hstale => hq ⟨hstale, hqueue⟩) p]
      simp only [hqueue, and_false, false_or]
      rfl

/-- The entry of a queue is taken out, and nothing is said of it any more. -/
theorem Scheduled.unsort_stale (h : Scheduled stale s) (queueId : WifiContainerQueueId) :
    Scheduled (fun q => stale q ∨ q = queueId) (s.unsort queueId) where
  nodup := h.nodup.sublist (List.filter_sublist.map _)
  sorted := h.sorted.sublist List.filter_sublist
  entries q hq p := by
    obtain ⟨hstale, hqueue⟩ := not_or.1 hq
    rw [mem_unsort, h.entries q hstale p]
    exact and_iff_left hqueue

/-- `SetPriority` for the first MPDU of a queue. -/
theorem setPriority_spec (hc : Counted ids s) (h : Scheduled stale s) {e : WifiMacQueueElem}
    (he : s.head? queueId = some e) : ∃ l, s.setPriority queueId e.prio =
      some { s with sortedQueues := l } ∧
      Scheduled (fun q => stale q ∧ q ≠ queueId) { s with sortedQueues := l } := by
  have hne : ¬ s.container.getNBytes queueId = 0 := by
    rw [hc.getNBytes_eq_zero]
    intro hnil
    rw [head?, hnil] at he
    cases he
  rw [setPriority, if_neg hne]
  cases hfind : s.sortedQueues.find? (·.2 = queueId) with
  | none =>
    have hnot : queueId ∉ s.sortedQueues.map Prod.snd := by
      intro hmem
      obtain ⟨x, hx, rfl⟩ := List.mem_map.1 hmem
      exact List.find?_eq_none.1 hfind x hx (decide_eq_true rfl)
    exact ⟨_, rfl, h.sort he hnot⟩
  | some x =>
    have hmem := List.mem_of_find?_eq_some hfind
    have hqueue := List.find?_some hfind
    rw [decide_eq_true_iff] at hqueue
    obtain ⟨p, q⟩ := x
    obtain rfl : q = queueId := hqueue
    dsimp only
    split_ifs with hprio
    · subst hprio
      refine ⟨s.sortedQueues, rfl, h.nodup, h.sorted, fun q' hq' p' => ?_⟩
      by_cases hq : q' = q
      · subst hq
        change _ ↔ (s.head? q').map _ = _
        rw [he, Option.map_some, Option.some.injEq]
        constructor
        · intro hmem'
          exact congrArg Prod.fst (List.inj_on_of_nodup_map h.nodup hmem hmem' rfl)
        · rintro rfl
          exact hmem
      · exact h.entries q' (fun hstale => hq' ⟨hstale, hq⟩) p'
    · have hnot : q ∉ (s.unsort q).sortedQueues.map Prod.snd := by
        intro hmem'
        obtain ⟨x, hx, hxq⟩ := List.mem_map.1 hmem'
        exact (mem_unsort.1 hx).2 hxq
      refine ⟨_, rfl, ((h.unsort_stale q).sort he hnot).mono ?_⟩
      rintro q' ⟨hstale | hstale, hq'⟩
      · exact ⟨hstale, hq'⟩
      · exact absurd hstale hq'

/-! ## Notifications -/

variable {orders : QueueOrders}
  {notify : List WifiContainerQueueId → WifiMacQueue → Option WifiMacQueue}

/-- The state after an extraction, of which the scheduler is not told. -/
def extract (s : WifiMacQueue) (queueId : WifiContainerQueueId) : WifiMacQueue :=
  { s with container := afterExtraction s.now queueId s.container }

theorem notified_extract (hc : Counted ids s) (queueId : WifiContainerQueueId) :
    Notified [queueId] s (s.extract queueId) :=
  ⟨rfl, hc.container.extracted s.now queueId⟩

theorem Counted.extract (hc : Counted ids s) (queueId : WifiContainerQueueId) :
    Counted ids (s.extract queueId) :=
  hc.notified (notified_extract hc queueId)
    (containerInv_afterExtraction hc.container s.now queueId)

/-- The queue that has been extracted from is stale. -/
theorem Scheduled.extract (h : Scheduled stale s) (queueId : WifiContainerQueueId) :
    Scheduled (fun q => stale q ∨ q = queueId) (s.extract queueId) := by
  refine ⟨h.nodup, h.sorted, fun q hq p => ?_⟩
  obtain ⟨hstale, hqueue⟩ := not_or.1 hq
  rw [head?, WifiMacQueue.extract, queues_afterExtraction, if_neg hqueue]
  exact h.entries q hstale p

/-- The scheduler is told if anything has been extracted. -/
theorem extractExpired_eq (hc : Counted ids s) (queueId : WifiContainerQueueId) :
    s.extractExpired notify queueId =
      if removed s.now (s.container.queues queueId) = [] then some (s.extract queueId)
      else notify ((removed s.now (s.container.queues queueId)).map WifiMacQueueElem.queueId)
        (s.extract queueId) := by
  obtain ⟨first, last, heq, hrange⟩ := hc.container.range_afterExtraction s.now queueId
  rw [extractExpired, heq, Option.bind_some]
  dsimp only
  rw [hrange, List.map_map]
  simp only [List.map_eq_nil_iff]
  rfl

/-- An extraction from the queue, and the notification of it, keep what is known of the list. -/
def Extracts (notify : List WifiContainerQueueId → WifiMacQueue → Option WifiMacQueue)
    (good : WifiMacQueue → WifiContainerQueueId → Prop) : Prop :=
  ∀ {ids stale s queueId}, good s queueId → Counted ids s → Scheduled stale s →
    ∃ t, s.extractExpired notify queueId = some t ∧ Notified [queueId] s t ∧ Counted ids t ∧
      Scheduled stale t

/-- Nothing can be extracted from the queue. -/
def Settled (s : WifiMacQueue) (queueId : WifiContainerQueueId) : Prop :=
  removed s.now (s.container.queues queueId) = []

theorem queues_extract_of_settled (h : s.Settled queueId) :
    (s.extract queueId).container.queues = s.container.queues := by
  funext q
  rw [extract, queues_afterExtraction]
  split_ifs with hq
  · rw [hq]
    exact kept_of_removed_eq_nil h
  · rfl

theorem extracts_settled (notify : List WifiContainerQueueId → WifiMacQueue → Option WifiMacQueue) :
    Extracts notify Settled := by
  intro ids stale s queueId hgood hc h
  refine ⟨s.extract queueId, ?_, notified_extract hc queueId, hc.extract queueId, h.nodup, h.sorted,
    fun q hq p => ?_⟩
  · rw [extractExpired_eq hc]
    exact if_pos hgood
  · rw [head?, queues_extract_of_settled hgood]
    exact h.entries q hq p

theorem Notified.settled (h : Notified queueIds s t) {q : WifiContainerQueueId}
    (hq : s.Settled q ∨ q ∈ queueIds) : t.Settled q := by
  have hnow : t.now = s.now := by rw [h.frame]
  rw [Settled, h.extracted.queues, hnow]
  split_ifs with hmem
  · exact removed_kept _ _
  · exact hq.resolve_right hmem

/-- A round of the loop of `DoNotifyRemove` : the queue stays stale only if it is empty. -/
theorem updatePriority_spec {good : WifiMacQueue → WifiContainerQueueId → Prop}
    (hextracts : Extracts notify good) (hgood : good s queueId) (hc : Counted ids s)
    (h : Scheduled stale s) : ∃ t, updatePriority notify s queueId = some t ∧
      Notified [queueId] s t ∧ Counted ids t ∧
      Scheduled (fun q => stale q ∧ (q = queueId → t.container.queues q = [])) t := by
  obtain ⟨t, ht, hn, hc', h'⟩ := hextracts hgood hc h
  rw [updatePriority, ht, Option.bind_some]
  cases hhead : t.head? queueId with
  | none =>
    refine ⟨t, rfl, hn, hc', h'.mono fun q hq => ⟨hq, ?_⟩⟩
    rintro rfl
    exact List.head?_eq_none_iff.1 hhead
  | some e =>
    obtain ⟨l, hl, hl'⟩ := setPriority_spec hc' h' hhead
    refine ⟨_, hl, hn.trans (Notified.of_sortedQueues t l), ?_, hl'.mono ?_⟩
    · exact hc'.notified (Notified.of_sortedQueues t l) hc'.container
    · rintro q ⟨hstale, hq⟩
      exact ⟨hstale, fun heq => absurd heq hq⟩

theorem foldlM_updatePriority {good : WifiMacQueue → WifiContainerQueueId → Prop}
    (hextracts : Extracts notify good)
    (hkeep : ∀ {s t queueIds q}, Notified queueIds s t → good s q → good t q)
    (hgood : ∀ q ∈ queueIds, good s q) (hc : Counted ids s) (h : Scheduled stale s) :
    ∃ t, queueIds.foldlM (updatePriority notify) s = some t ∧ Notified queueIds s t ∧
      Counted ids t ∧
      Scheduled (fun q => stale q ∧ (q ∈ queueIds → t.container.queues q = [])) t := by
  induction queueIds generalizing s stale with
  | nil =>
    exact ⟨s, rfl, Notified.refl s, hc, h.mono fun q hq => ⟨hq, fun hmem => absurd hmem
      List.not_mem_nil⟩⟩
  | cons queueId queueIds ih =>
    obtain ⟨hfirst, hrest⟩ := List.forall_mem_cons.1 hgood
    obtain ⟨t, ht, hn, hc', h'⟩ := updatePriority_spec hextracts hfirst hc h
    obtain ⟨u, hu, hn', hc'', h''⟩ := ih (fun q hq => hkeep hn (hrest q hq)) hc' h'
    refine ⟨u, ?_, hn.trans hn', hc'', h''.mono ?_⟩
    · rw [List.foldlM_cons, ht]
      exact hu
    · rintro q ⟨⟨hstale, hempty⟩, hempty'⟩
      refine ⟨hstale, fun hmem => ?_⟩
      rcases List.mem_cons.1 hmem with rfl | hmem
      · rw [hn'.extracted.queues, hempty rfl]
        split_ifs <;> rfl
      · exact hempty' hmem

/-- The empty queues are taken out of the list. -/
theorem foldl_eraseIfEmpty (hc : Counted ids s)
    (h : Scheduled (fun q => stale q ∧ (q ∈ queueIds → s.container.queues q = [])) s) :
    Notified [] s (queueIds.foldl eraseIfEmpty s) ∧ Counted ids (queueIds.foldl eraseIfEmpty s) ∧
      Scheduled (fun q => stale q ∧ q ∉ queueIds) (queueIds.foldl eraseIfEmpty s) := by
  induction queueIds generalizing s stale with
  | nil => exact ⟨Notified.refl s, hc, h.mono fun q hq => ⟨hq.1, List.not_mem_nil⟩⟩
  | cons queueId queueIds ih =>
    have hn : Notified [] s (s.eraseIfEmpty queueId) := by
      rw [eraseIfEmpty]
      split_ifs
      · exact Notified.of_sortedQueues s _
      · exact Notified.refl s
    have hc' : Counted ids (s.eraseIfEmpty queueId) := by
      refine hc.notified hn ?_
      rw [eraseIfEmpty]
      split_ifs <;> exact hc.container
    have hqueues : (s.eraseIfEmpty queueId).container.queues = s.container.queues := by
      funext q
      rw [hn.extracted.queues, if_neg List.not_mem_nil]
    have h' : Scheduled (fun q => (stale q ∧ q ≠ queueId) ∧
        (q ∈ queueIds → (s.eraseIfEmpty queueId).container.queues q = []))
        (s.eraseIfEmpty queueId) := by
      rw [hqueues, eraseIfEmpty]
      split_ifs with hzero
      · refine (h.unsort ((hc.getNBytes_eq_zero queueId).1 hzero)).mono ?_
        rintro q ⟨⟨hstale, hempty⟩, hq⟩
        exact ⟨⟨hstale, hq⟩, fun hmem => hempty (List.mem_cons_of_mem _ hmem)⟩
      · refine h.mono ?_
        rintro q ⟨hstale, hempty⟩
        refine ⟨⟨hstale, ?_⟩, fun hmem => hempty (List.mem_cons_of_mem _ hmem)⟩
        rintro rfl
        exact hzero ((hc.getNBytes_eq_zero q).2 (hempty List.mem_cons_self))
    obtain ⟨hn', hc'', h''⟩ := ih hc' h'
    refine ⟨hn.trans hn', hc'', h''.mono ?_⟩
    rintro q ⟨⟨hstale, hq⟩, hmem⟩
    exact ⟨hstale, fun hcons => (List.mem_cons.1 hcons).elim hq hmem⟩

theorem mem_ofSet (orders : QueueOrders) (l : List WifiContainerQueueId)
    (q : WifiContainerQueueId) : q ∈ orders.ofSet l ↔ q ∈ l := by
  rw [QueueOrders.ofSet, List.mem_insertionSort, List.mem_dedup]

/-- One level of notifications. -/
theorem notifyRemove_succ {depth : ℕ} {good : WifiMacQueue → WifiContainerQueueId → Prop}
    (hextracts : Extracts (notifyRemove orders depth) good)
    (hkeep : ∀ {s t queueIds q}, Notified queueIds s t → good s q → good t q)
    (hgood : ∀ q ∈ queueIds, good s q) (hc : Counted ids s) (h : Scheduled stale s) :
    ∃ t, notifyRemove orders (depth + 1) queueIds s = some t ∧ Notified queueIds s t ∧
      Counted ids t ∧ Scheduled (fun q => stale q ∧ q ∉ queueIds) t := by
  have hset := mem_ofSet orders queueIds
  obtain ⟨t, ht, hn, hc', h'⟩ := foldlM_updatePriority hextracts hkeep
    (fun q hq => hgood q ((hset q).1 hq)) hc h
  have h'' : Scheduled (fun q => stale q ∧ (q ∈ queueIds → t.container.queues q = [])) t :=
    h'.mono fun q hq => ⟨hq.1, fun hmem => hq.2 ((hset q).2 hmem)⟩
  obtain ⟨hn', hc'', hlast⟩ := foldl_eraseIfEmpty hc' h''
  refine ⟨_, ?_, (hn.trans hn').congr fun q => ?_, hc'', hlast⟩
  · rw [notifyRemove, ht, Option.map_some]
  · rw [List.append_nil]
    exact hset q

/-- Of queues that nothing can be extracted from, the scheduler is told on the first level. -/
theorem notifyRemove_of_settled (depth : ℕ) (hgood : ∀ q ∈ queueIds, s.Settled q)
    (hc : Counted ids s) (h : Scheduled stale s) :
    ∃ t, notifyRemove orders (depth + 1) queueIds s = some t ∧ Notified queueIds s t ∧
      Counted ids t ∧ Scheduled (fun q => stale q ∧ q ∉ queueIds) t :=
  notifyRemove_succ (extracts_settled _) (fun hn hq => hn.settled (Or.inl hq)) hgood hc h

/-- An extraction from any queue. -/
theorem extracts_notifyRemove (depth : ℕ) :
    Extracts (notifyRemove orders (depth + 1)) fun _ _ => True := by
  intro ids stale s queueId _ hc h
  rw [extractExpired_eq hc]
  split_ifs with hsettled
  · obtain ⟨t, ht, hspec⟩ := extracts_settled (notifyRemove orders depth) hsettled hc h
    rw [extractExpired_eq hc, if_pos hsettled] at ht
    exact ⟨t, ht, hspec⟩
  · have hall : ∀ q ∈ (removed s.now (s.container.queues queueId)).map WifiMacQueueElem.queueId,
        q = queueId := by
      intro q hq
      obtain ⟨e, he, rfl⟩ := List.mem_map.1 hq
      exact (hc.container.queued _ e ((removed_sublist _ _).subset he)).1
    have hmem : ∀ q, q ∈ (removed s.now (s.container.queues queueId)).map
        WifiMacQueueElem.queueId ↔ q = queueId := by
      refine fun q => ⟨hall q, ?_⟩
      rintro rfl
      obtain ⟨e, l, hl⟩ := List.exists_cons_of_ne_nil hsettled
      have he : e ∈ removed s.now (s.container.queues q) := hl ▸ List.mem_cons_self
      exact List.mem_map.2 ⟨e, he, hall _ (List.mem_map_of_mem he)⟩
    have hn := notified_extract hc queueId
    obtain ⟨t, ht, hn', hc', h'⟩ := notifyRemove_of_settled depth
      (fun q hq => hn.settled (Or.inr (List.mem_singleton.2 (hall q hq)))) (hc.extract queueId)
      (h.extract queueId)
    refine ⟨t, ht, (hn.trans hn').congr fun q => ?_, hc', h'.mono ?_⟩
    · simp [hmem]
    · rintro q ⟨hstale | heq, hnot⟩
      · exact hstale
      · exact absurd ((hmem q).2 heq) hnot

/-- After a notification none of its queues is stale. -/
theorem notifyRemove_spec (orders : QueueOrders) (queueIds : List WifiContainerQueueId)
    (hc : Counted ids s) (h : Scheduled stale s) :
    ∃ t, notifyRemove orders 2 queueIds s = some t ∧ Notified queueIds s t ∧ Counted ids t ∧
      Scheduled (fun q => stale q ∧ q ∉ queueIds) t :=
  notifyRemove_succ (extracts_notifyRemove 0) (fun _ _ => trivial) (fun _ _ => trivial) hc h

theorem extractExpiredMpdus_spec (orders : QueueOrders) (queueId : WifiContainerQueueId)
    (hc : Counted ids s) (h : Scheduled stale s) :
    ∃ t, s.extractExpiredMpdus orders queueId = some t ∧ Notified [queueId] s t ∧ Counted ids t ∧
      Scheduled stale t :=
  extracts_notifyRemove 1 trivial hc h

end WifiMacQueue

end Ns3Pedca
