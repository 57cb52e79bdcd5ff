import Ns3Pedca.Wifi.InsertPosition

/-!
# Replacing an MPDU

`Replace` dequeues an MPDU and inserts another one where it stood. The scheduler is told twice,
and each time looks at the queue, so that the MPDUs that have expired go to the expired queue if
they are only behind others that have, or are in flight. If none of those behind the MPDU goes,
the new one takes its place (`QueueInv.replace_spec`).
-/

namespace Ns3Pedca

variable {l a b : List WifiMacQueueElem} {e item : WifiMacQueueElem} {now : Time}
  {pos : ElemIterator} {queueId : WifiContainerQueueId} {id : ℕ}

namespace WifiMacQueueContainer

theorem kept_cons_of_stale (h : e.isStale now = true) :
    kept now (e :: l) = if e.isInFlight then e :: kept now l else kept now l := by
  rw [kept, List.takeWhile_cons_of_pos h, List.dropWhile_cons_of_pos h, List.filter_cons]
  split_ifs <;> rfl

theorem kept_cons_of_not_stale (h : ¬ e.isStale now = true) : kept now (e :: l) = e :: l := by
  rw [kept, List.takeWhile_cons_of_neg h, List.dropWhile_cons_of_neg h]
  rfl

/-- An extraction does not come to the elements of `b`, or none of them has expired. -/
def Sheltered (now : Time) (a b : List WifiMacQueueElem) : Prop :=
  (∃ y ∈ a, y.isStale now = false) ∨ ∀ e ∈ b, e.isExpired now = false

/-- What is neither in flight nor expired is not taken out. -/
theorem exists_mem_kept (h : ∃ y ∈ a, y.isStale now = false) :
    ∃ y ∈ kept now a, y.isStale now = false := by
  obtain ⟨y, hy, hlive⟩ := h
  refine ⟨y, mem_kept_of_not_isExpired hy ?_, hlive⟩
  by_contra hexpired
  rw [WifiMacQueueElem.isStale_of_isExpired (Bool.eq_true_of_not_eq_false hexpired)] at hlive
  cases hlive

theorem kept_append_of_sheltered (h : Sheltered now a b) :
    kept now (a ++ b) = kept now a ++ b := by
  induction a with
  | nil =>
    have hb := h.resolve_left (by
      rintro ⟨y, hy, -⟩
      exact List.not_mem_nil hy)
    refine kept_of_removed_eq_nil (List.filter_eq_nil_iff.2 fun e he => ?_)
    rw [hb e ((List.takeWhile_sublist _).subset he)]
    exact Bool.false_ne_true
  | cons e a ih =>
    rw [List.cons_append]
    by_cases hstale : e.isStale now = true
    · have hrest : Sheltered now a b := by
        refine h.imp_left ?_
        rintro ⟨y, hy, hlive⟩
        rcases List.mem_cons.1 hy with rfl | hy
        · rw [hstale] at hlive
          cases hlive
        · exact ⟨y, hy, hlive⟩
      rw [kept_cons_of_stale hstale, kept_cons_of_stale hstale, ih hrest]
      split_ifs <;> rfl
    · rw [kept_cons_of_not_stale hstale, kept_cons_of_not_stale hstale]
      rfl

/-- An insertion before what stands behind an element that is gone. -/
theorem emplace_nextOf (queueId : WifiContainerQueueId) (item : WifiMacQueueElem)
    (hnodup : ((a ++ e :: b).map (·.id)).Nodup) {a' : List WifiMacQueueElem}
    (hsub : a'.Sublist a) :
    emplace queueId item (a' ++ b) (nextOf queueId (a ++ e :: b) e.id) =
      some (a' ++ item :: b) := by
  rw [nextOf_eq hnodup]
  cases b with
  | nil =>
    rw [List.append_nil]
    exact if_pos rfl
  | cons x b =>
    have hnodup' : ((a' ++ x :: b).map (·.id)).Nodup :=
      hnodup.sublist ((hsub.append (List.sublist_cons_self e (x :: b))).map _)
    have hx : x ∈ a' ++ x :: b := List.mem_append_right _ List.mem_cons_self
    obtain ⟨hbefore, hafter⟩ := before_after hnodup'
    rw [ElemIterator.before] at hbefore
    rw [ElemIterator.after] at hafter
    change emplace queueId item (a' ++ x :: b) (.elem x.id) = _
    rw [emplace, if_pos (List.any_eq_true.2 ⟨x, hx, decide_eq_true rfl⟩), hbefore, hafter]

variable {c : WifiMacQueueContainer} {ids : List ℕ} {f : WifiMacQueueElem → WifiMacQueueElem}

theorem map_eq_self_of_notMem (hnot : ∀ e ∈ l, e.id ≠ id) :
    (l.map fun e => if e.id = id then f e else e) = l :=
  (List.map_congr_left fun e he => if_neg (hnot e he)).trans (List.map_id l)

/-- A change of an element, in its queue. -/
theorem queues_modify (hnodup : ((a ++ e :: b).map (·.id)).Nodup)
    (hl : c.queues queueId = a ++ e :: b) :
    (c.modify e.id f).queues queueId = a ++ f e :: b := by
  rw [List.map_append, List.map_cons] at hnodup
  have ha : ∀ y ∈ a, y.id ≠ e.id := fun y hy heq =>
    List.disjoint_of_nodup_append hnodup (List.mem_map_of_mem hy) (heq ▸ List.mem_cons_self)
  have hb : ∀ y ∈ b, y.id ≠ e.id := fun y hy heq =>
    (List.nodup_cons.1 hnodup.of_append_right).1 (List.mem_map.2 ⟨y, hy, heq⟩)
  rw [modify]
  dsimp only
  rw [hl, List.map_append, List.map_cons, if_pos rfl, map_eq_self_of_notMem ha,
    map_eq_self_of_notMem hb]

/-- A change of an element, in the other queues. -/
theorem ContainerInv.queues_modify_of_ne (h : ContainerInv ids c) (he : e ∈ c.queues queueId)
    {q : WifiContainerQueueId} (hq : q ≠ queueId) :
    (c.modify e.id f).queues q = c.queues q := by
  refine map_eq_self_of_notMem fun y hy heq => hq ?_
  have hsame : y = e := List.inj_on_of_nodup_map h.nodup_elems (h.mem_elems_of_mem_queue hy)
    (h.mem_elems_of_mem_queue he) heq
  rw [← (h.queued q y hy).1, ← (h.queued queueId e he).1, hsame]

end WifiMacQueueContainer

namespace WifiMacQueue

open WifiMacQueueContainer

variable {orders : QueueOrders} {s t : WifiMacQueue} {ids : List ℕ}

/-- One MPDU is dequeued as it is removed. -/
theorem doDequeue_singleton (orders : QueueOrders) (s : WifiMacQueue) (id : ℕ) :
    s.doDequeue orders [id] = s.doRemove orders id := by
  rw [doDequeue, doRemove, List.foldlM_cons, dequeueNext]
  cases htake : s.takeOut id with
  | none => rfl
  | some x =>
    obtain ⟨t, item⟩ := x
    cases item with
    | none => rfl
    | some e =>
      simp only [Option.bind_eq_bind, Option.bind_some, List.nil_append]
      cases t.shrink e <;> rfl

/-- What is left of the container queues when an MPDU is dequeued. -/
theorem QueueInv.dequeue_spec (orders : QueueOrders) (h : QueueInv ids s)
    (hl : s.container.queues e.queueId = a ++ e :: b) (hctl : e.isCtl = false)
    (hb : Sheltered s.now a b) : ∃ t, s.doDequeue orders [e.id] = some t ∧
      t.container.queues e.queueId = kept s.now a ++ b ∧
      (∀ q, q ≠ e.queueId → t.container.queues q = s.container.queues q) ∧
      t.now = s.now ∧ t.maxDelay = s.maxDelay ∧ t.nPackets < t.maxSize ∧
      QueueInv (ids.erase e.id) t := by
  have he : e ∈ s.container.queues e.queueId := hl ▸ List.mem_append_right _ List.mem_cons_self
  have hmem := h.counted.container.mem_elems_of_mem_queue he
  have hid : e.id ∈ ids := h.counted.container.perm.subset (List.mem_map_of_mem hmem)
  have hnodup := h.counted.container.nodup_queue e.queueId
  rw [hl] at hnodup
  obtain ⟨u, t, ht, htaken, -, hn, hsize, hinv⟩ := h.doRemove orders hmem
  refine ⟨t, (doDequeue_singleton orders s e.id).trans ht, ?_, fun q hq => ?_, ?_, ?_, ?_, hinv⟩
  · rw [hn.extracted.queues, if_pos (List.mem_singleton_self _), htaken.queues, htaken.now, hl,
      filter_append_cons hnodup]
    exact kept_append_of_sheltered hb
  · have hnot : e ∉ s.container.queues q := fun hmem' =>
      hq (h.counted.container.queued q e hmem').1.symm
    rw [hn.extracted.queues, if_neg (fun hmem' => hq (List.mem_singleton.1 hmem'))]
    exact htaken.queues_eq h.counted hmem hnot
  · rw [hn.frame, ← htaken.now]
  · rw [hn.frame, ← htaken.maxDelay]
  · have hlen := List.length_erase_of_mem hid
    have hpos := List.length_pos_of_mem hid
    have hn' := hinv.counted.nPackets
    have hle := h.counted.le
    have hcount := h.counted.nPackets
    have hsize' : t.maxSize = s.maxSize := by
      rw [hsize, shrunkSize, if_neg (by simp [hctl])]
    omega

/-- Where there is room, the MPDU is inserted at the position given. -/
theorem insert_of_room (orders : QueueOrders) (drop : DropChoice) (pos : ElemIterator)
    (hctl : item.isCtl = false) (hroom : s.nPackets < s.maxSize) :
    s.insert orders drop pos item =
      (s.enqueueAt orders pos item).map fun t => (t, true) := by
  have hgrow : s.grow item = some s := by
    rw [grow, hctl]
    rfl
  rw [WifiMacQueue.insert, insertPos, if_pos hroom, hgrow, Option.bind_some, makeRoom, if_pos hroom]
  dsimp only
  rw [roomFor, if_neg (by omega), Option.bind_some]

/-- What the container queues are when an MPDU has been inserted. -/
theorem QueueInv.enqueue_spec (orders : QueueOrders) (h : QueueInv ids s) (hnew : item.id ∉ ids)
    (hexpired : item.expired = false) (hpos : 0 < item.size) (hroom : s.nPackets < s.maxSize)
    (hem : emplace item.queueId (s.stamp item) (s.container.queues item.queueId) pos =
      some (a ++ s.stamp item :: b))
    (hlive : Sheltered s.now a (s.stamp item :: b)) : ∃ t, s.enqueueAt orders pos item = some t ∧
      t.container.queues item.queueId = kept s.now a ++ s.stamp item :: b ∧
      (∀ q, q ≠ item.queueId → t.container.queues q = s.container.queues q) ∧
      t.now = s.now ∧ t.maxDelay = s.maxDelay ∧ QueueInv (item.id :: ids) t := by
  obtain ⟨c, hc⟩ : ∃ c, s.container.insert pos (s.stamp item) = some c :=
    ⟨_, congrArg (Option.map _) hem⟩
  obtain ⟨v, hn, heq, hspec⟩ := h.enqueueAt_spec orders hnew hexpired hpos hroom hc
  obtain ⟨-, hqueue, hothers, -⟩ := h.counted.container.insert_spec hc
  have hqueue' : c.queues item.queueId = a ++ s.stamp item :: b :=
    Option.some.inj (hqueue.symm.trans hem)
  have hv : v.container.queues item.queueId = kept s.now a ++ s.stamp item :: b := by
    rw [hn.extracted.queues, if_pos (List.mem_singleton_self _)]
    change kept s.now (c.queues item.queueId) = _
    rw [hqueue', kept_append_of_sheltered hlive]
  have hne : v.container.queues item.queueId ≠ [] := by
    rw [hv]
    exact List.append_ne_nil_of_right_ne_nil _ (List.cons_ne_nil _ _)
  obtain ⟨e, r, hl⟩ := List.exists_cons_of_ne_nil hne
  have he : e ∈ v.head? item.queueId := by
    rw [head?, hl]
    rfl
  obtain ⟨t, ht, hcontainer, hn', hinv⟩ := hspec e he
  refine ⟨t, ?_, hcontainer ▸ hv, fun q hq => ?_, ?_, ?_, hinv⟩
  · rw [heq, Option.mem_def.1 he, Option.bind_some, ht]
  · rw [hn'.extracted.queues, if_neg (fun hmem => hq (List.mem_singleton.1 hmem))]
    exact hothers q hq
  · rw [hn'.frame]
    rfl
  · rw [hn'.frame]
    rfl

/-- The new MPDU, with the expiry time of the one that it replaces. -/
def inheriting (s : WifiMacQueue) (item e : WifiMacQueueElem) : WifiMacQueueElem :=
  { s.stamp item with expiryTime := e.expiryTime }

/-- An extraction takes neither the new MPDU nor those behind it. -/
def Replaceable (s : WifiMacQueue) (a b : List WifiMacQueueElem) : Prop :=
  (∃ y ∈ a, y.isStale s.now = false) ∨ 0 < s.maxDelay ∧ ∀ e ∈ b, s.now < e.expiryTime

theorem Replaceable.sheltered (h : Replaceable s a b) : Sheltered s.now a b :=
  h.imp_right fun hlive e he => isExpired_of_lt (hlive.2 e he)

theorem Replaceable.tail {x : WifiMacQueueElem} (h : Replaceable s a (x :: b)) :
    Replaceable s a b :=
  h.imp_right fun hlive => ⟨hlive.1, fun e he => hlive.2 e (List.mem_cons_of_mem _ he)⟩

/-- After an extraction. -/
theorem Replaceable.of_kept (h : Replaceable s a b) (hnow : t.now = s.now)
    (hdelay : t.maxDelay = s.maxDelay) : Replaceable t (kept s.now a) b := by
  rcases h with hlive | ⟨hpos, hb⟩
  · obtain ⟨y, hy, hlive⟩ := exists_mem_kept hlive
    exact Or.inl ⟨y, hy, hnow ▸ hlive⟩
  · exact Or.inr ⟨hdelay ▸ hpos, hnow ▸ hb⟩

/-- `Replace` puts the new MPDU where the other one stood. -/
theorem QueueInv.replace_spec (orders : QueueOrders) (drop : DropChoice) (h : QueueInv ids s)
    (hnew : item.id ∉ ids) (hexpired : item.expired = false) (hpos : 0 < item.size)
    (hqueue : item.queueId = e.queueId) (hctl : e.isCtl = false) (hctl' : item.isCtl = false)
    (hl : s.container.queues e.queueId = a ++ e :: b) (hb : s.Replaceable a b) :
    ∃ t, s.replace orders drop e.id item = some t ∧
      t.container.queues e.queueId = kept s.now a ++ s.inheriting item e :: b ∧
      (∀ q, q ≠ e.queueId → t.container.queues q = s.container.queues q) ∧
      t.now = s.now ∧ t.maxDelay = s.maxDelay := by
  have he : e ∈ s.container.queues e.queueId := hl ▸ List.mem_append_right _ List.mem_cons_self
  have hmem := h.counted.container.mem_elems_of_mem_queue he
  have hnodup := h.counted.container.nodup_queue e.queueId
  rw [hl] at hnodup
  obtain ⟨u, hu, hqueues, hothers, hnow, hdelay', hroom, hinv⟩ := h.dequeue_spec orders hl hctl
    hb.sheltered
  have hstamp : u.stamp item = s.stamp item := by
    rw [stamp, stamp, hnow, hdelay']
  have hem : emplace item.queueId (u.stamp item) (u.container.queues item.queueId)
      (s.next e.queueId e.id) = some (kept s.now a ++ u.stamp item :: b) := by
    rw [hqueue, hqueues]
    change emplace _ _ _ (nextOf e.queueId (s.container.queues e.queueId) e.id) = _
    rw [hl]
    exact emplace_nextOf _ _ hnodup (kept_sublist _ _)
  have hlive : Sheltered u.now (kept s.now a) (u.stamp item :: b) := by
    rw [hstamp, hnow]
    refine hb.imp exists_mem_kept fun hlive => List.forall_mem_cons.2 ⟨?_, fun e' he' =>
      isExpired_of_lt (hlive.2 e' he')⟩
    refine isExpired_of_lt ?_
    rw [stamp, hctl']
    exact lt_add_of_pos_right _ hlive.1
  obtain ⟨t, ht, htqueue, htothers, htnow, htdelay, hinv'⟩ := hinv.enqueue_spec orders
    (fun hid => hnew (List.erase_subset hid)) hexpired hpos hroom hem hlive
  rw [hstamp, hnow, kept_kept, hqueue] at htqueue
  have hitem : s.stamp item ∈ t.container.queues e.queueId :=
    htqueue ▸ List.mem_append_right _ List.mem_cons_self
  have hfind := hinv'.counted.container.find?_eq
    (hinv'.counted.container.mem_elems_of_mem_queue hitem)
  have hnodup' := hinv'.counted.container.nodup_queue e.queueId
  rw [htqueue] at hnodup'
  have hget : s.getIt e.id = some e := h.counted.container.find?_eq hmem
  have hget' : (t.getIt item.id).isSome = true := congrArg Option.isSome hfind
  refine ⟨{ t with container := t.container.modify item.id fun e' =>
    { e' with expiryTime := e.expiryTime } }, ?_, ?_, fun q hq => ?_, ?_, ?_⟩
  · rw [WifiMacQueue.replace, hget, Option.bind_some, hu, Option.bind_some,
      (h.counted.container.queued _ e he).2, if_neg Bool.false_ne_true]
    dsimp only
    rw [insert_of_room orders drop _ hctl' hroom, ht, Option.map_some, Option.bind_some]
    exact if_pos ⟨rfl, hget'⟩
  · exact queues_modify (e := s.stamp item) hnodup' htqueue
  · rw [← hothers q hq, ← htothers q (hqueue ▸ hq)]
    exact hinv'.counted.container.queues_modify_of_ne (e := s.stamp item) hitem hq
  · exact htnow.trans hnow
  · exact htdelay.trans hdelay'

end WifiMacQueue

end Ns3Pedca
