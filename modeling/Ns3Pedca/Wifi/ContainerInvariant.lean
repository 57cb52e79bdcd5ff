import Ns3Pedca.Runs
import Ns3Pedca.Wifi.WifiMacQueueContainer

/-!
# The invariant of the container

Every element of a `WifiMacQueueContainer` is in exactly one list, its own container queue or the
expired queue, and the counter of a container queue is the number of its bytes
(`ContainerInv`). An extraction moves the expired MPDUs up to the first that is neither in flight
nor expired, and returns the range of what it has moved (`ContainerInv.doExtractExpiredMpdus`,
`ContainerInv.extractAllExpiredMpdus`).
-/

namespace Ns3Pedca

namespace WifiMacQueueContainer

variable (c : WifiMacQueueContainer)

/-- All elements. -/
def elems : List WifiMacQueueElem :=
  c.keys.flatMap c.queues ++ c.expiredQueue

/-- The elements of `c` are those of `ids`, each is where it belongs, and the bytes are counted. -/
structure ContainerInv (ids : List ℕ) (c : WifiMacQueueContainer) : Prop where
  perm : (c.elems.map (·.id)).Perm ids
  nodup : ids.Nodup
  keys : c.keys.Nodup
  mem_keys : ∀ queueId, c.queues queueId ≠ [] → queueId ∈ c.keys
  queued : ∀ queueId, ∀ e ∈ c.queues queueId, e.queueId = queueId ∧ e.expired = false
  expired : ∀ e ∈ c.expiredQueue, e.expired = true
  counted : ∀ queueId, c.queues queueId ≠ [] → (c.nBytesPerQueue queueId).isSome
  nBytes : ∀ queueId, (c.nBytesPerQueue queueId).getD 0 = bytes (c.queues queueId)

variable {c} {ids : List ℕ} {now : Time} {queueId : WifiContainerQueueId}
  {l : List WifiMacQueueElem} {e : WifiMacQueueElem}

theorem containerInv_empty : ContainerInv [] {} where
  perm := List.Perm.refl _
  nodup := List.nodup_nil
  keys := List.nodup_nil
  mem_keys _ h := absurd rfl h
  queued _ _ h := absurd h List.not_mem_nil
  expired _ h := absurd h List.not_mem_nil
  counted _ h := absurd rfl h
  nBytes _ := rfl

/-! ## Replacing a container queue -/

theorem queues_setQueue (queueId q : WifiContainerQueueId) (l : List WifiMacQueueElem) :
    (c.setQueue queueId l).queues q = if q = queueId then l else c.queues q :=
  rfl

/-- The other elements stay. -/
theorem perm_elems_setQueue (hkeys : c.keys.Nodup)
    (hmem : c.queues queueId ≠ [] → queueId ∈ c.keys) (l : List WifiMacQueueElem) :
    ∃ others, c.elems.Perm (c.queues queueId ++ others) ∧
      (c.setQueue queueId l).elems.Perm (l ++ others) := by
  have hother : ∀ keys : List WifiContainerQueueId, queueId ∉ keys →
      keys.flatMap (c.setQueue queueId l).queues = keys.flatMap c.queues := by
    intro keys hnot
    refine List.flatMap_congr fun q hq => ?_
    rw [queues_setQueue, if_neg]
    rintro rfl
    exact hnot hq
  by_cases hkey : queueId ∈ c.keys
  · refine ⟨(c.keys.erase queueId).flatMap c.queues ++ c.expiredQueue, ?_, ?_⟩
    · rw [elems, ← List.append_assoc]
      exact ((List.perm_cons_erase hkey).flatMap_right c.queues).append_right _
    · have hnot : queueId ∉ c.keys.erase queueId := fun h => (hkeys.mem_erase_iff.1 h).1 rfl
      have hperm := (List.perm_cons_erase hkey).flatMap_right (c.setQueue queueId l).queues
      rw [List.flatMap_cons, hother _ hnot, queues_setQueue, if_pos rfl] at hperm
      have hkeys' : (c.setQueue queueId l).keys = c.keys := if_pos hkey
      rw [elems, hkeys', ← List.append_assoc]
      exact hperm.append_right _
  · have hnil : c.queues queueId = [] := by
      by_contra hne
      exact hkey (hmem hne)
    refine ⟨c.keys.flatMap c.queues ++ c.expiredQueue, ?_, ?_⟩
    · rw [hnil]
      exact List.Perm.refl _
    · have hnew : (c.setQueue queueId l).elems =
          c.keys.flatMap c.queues ++ l ++ c.expiredQueue := by
        have hkeys' : (c.setQueue queueId l).keys = c.keys ++ [queueId] := if_neg hkey
        rw [elems, hkeys', List.flatMap_append, hother _ hkey, List.flatMap_singleton,
          queues_setQueue, if_pos rfl]
        rfl
      rw [hnew, ← List.append_assoc]
      exact List.perm_append_comm.append_right _

/-- A container queue and the expired queue change, and nothing else. -/
theorem ContainerInv.setQueue (h : ContainerInv ids c) {c' : WifiMacQueueContainer} {ids' : List ℕ}
    (hqueues : c'.queues = c.queues) (hkeys : c'.keys = c.keys)
    (hperm : ((c'.setQueue queueId l).elems.map (·.id)).Perm ids') (hnodup : ids'.Nodup)
    (hqueued : ∀ e ∈ l, e.queueId = queueId ∧ e.expired = false)
    (hexpired : ∀ e ∈ c'.expiredQueue, e.expired = true)
    (hcounted : l ≠ [] → (c'.nBytesPerQueue queueId).isSome)
    (hnBytes : (c'.nBytesPerQueue queueId).getD 0 = bytes l)
    (hother : ∀ q, q ≠ queueId → c'.nBytesPerQueue q = c.nBytesPerQueue q) :
    ContainerInv ids' (c'.setQueue queueId l) where
  perm := hperm
  nodup := hnodup
  keys := by
    rw [WifiMacQueueContainer.setQueue, hkeys]
    split_ifs with hkey
    · exact h.keys
    · exact List.nodup_append.2 ⟨h.keys, List.nodup_singleton _, fun q hq q' hq' heq =>
        hkey (List.mem_singleton.1 hq' ▸ heq ▸ hq)⟩
  mem_keys q hq := by
    have hsub : ∀ q, q ∈ c.keys → q ∈ (c'.setQueue queueId l).keys := by
      intro q hmem
      rw [WifiMacQueueContainer.setQueue, hkeys]
      split_ifs
      · exact hmem
      · exact List.mem_append_left _ hmem
    rw [queues_setQueue, hqueues] at hq
    split_ifs at hq with heq
    · subst heq
      rw [WifiMacQueueContainer.setQueue]
      split_ifs with hkey
      · exact hkey
      · exact List.mem_append_right _ List.mem_cons_self
    · exact hsub q (h.mem_keys q hq)
  queued q e he := by
    rw [queues_setQueue, hqueues] at he
    split_ifs at he with heq
    · exact heq ▸ hqueued e he
    · exact h.queued q e he
  expired := hexpired
  counted q hq := by
    rw [queues_setQueue, hqueues] at hq
    split_ifs at hq with heq
    · exact heq ▸ hcounted hq
    · exact (congrArg Option.isSome (hother q heq)).trans (h.counted q hq)
  nBytes q := by
    rw [queues_setQueue, hqueues]
    split_ifs with heq
    · exact heq ▸ hnBytes
    · exact (congrArg (Option.getD · 0) (hother q heq)).trans (h.nBytes q)

/-! ## Inserting and erasing -/

/-- The new element is put somewhere in its queue. -/
theorem perm_emplace {pos : ElemIterator} {l' : List WifiMacQueueElem}
    (h : emplace queueId e l pos = some l') : l'.Perm (e :: l) := by
  cases pos with
  | elem id =>
    rw [emplace] at h
    split_ifs at h
    obtain rfl := Option.some.inj h
    refine List.perm_middle.trans (List.Perm.cons e ?_)
    rw [List.takeWhile_append_dropWhile]
  | queueEnd q =>
    rw [emplace] at h
    split_ifs at h
    obtain rfl := Option.some.inj h
    exact List.perm_append_singleton e l
  | expiredEnd => cases h

theorem bytes_perm {l' : List WifiMacQueueElem} (h : l'.Perm l) : bytes l' = bytes l :=
  (h.map WifiMacQueueElem.size).sum_eq

/-- What an insertion does : the new element is one more, and only its own queue changes. -/
theorem ContainerInv.insert_spec (h : ContainerInv ids c) {pos : ElemIterator}
    {c' : WifiMacQueueContainer} (hinsert : c.insert pos e = some c') :
    c'.elems.Perm (e :: c.elems) ∧
      emplace e.queueId e (c.queues e.queueId) pos = some (c'.queues e.queueId) ∧
      (∀ q, q ≠ e.queueId → c'.queues q = c.queues q) ∧ c'.expiredQueue = c.expiredQueue := by
  obtain ⟨l, hl, rfl⟩ := Option.map_eq_some_iff.1 hinsert
  obtain ⟨others, hbefore, hafter⟩ := perm_elems_setQueue
    (c := c.setNBytes e.queueId ((c.nBytesPerQueue e.queueId).getD 0 + e.size)) h.keys
    (h.mem_keys e.queueId) l
  refine ⟨?_, ?_, fun q hq => if_neg hq, rfl⟩
  · exact hafter.trans (((perm_emplace hl).append_right others).trans (hbefore.symm.cons e))
  · rw [queues_setQueue, if_pos rfl]
    exact hl

theorem ContainerInv.insert (h : ContainerInv ids c) {pos : ElemIterator} (hnew : e.id ∉ ids)
    (he : e.expired = false) {c' : WifiMacQueueContainer} (hinsert : c.insert pos e = some c') :
    ContainerInv (e.id :: ids) c' := by
  obtain ⟨hall, -⟩ := h.insert_spec hinsert
  obtain ⟨l, hl, rfl⟩ := Option.map_eq_some_iff.1 hinsert
  have hperm := perm_emplace hl
  refine h.setQueue rfl rfl ?_ (List.nodup_cons.2 ⟨hnew, h.nodup⟩) ?_ h.expired ?_ ?_ ?_
  · exact (hall.map _).trans (h.perm.cons e.id)
  · intro e' he'
    rcases List.mem_cons.1 (hperm.subset he') with rfl | hmem
    · exact ⟨rfl, he⟩
    · exact h.queued _ e' hmem
  · intro _
    exact congrArg Option.isSome (if_pos rfl)
  · rw [bytes_perm hperm, setNBytes]
    dsimp only
    rw [if_pos rfl, Option.getD_some, h.nBytes, Nat.add_comm]
    rfl
  · intro q hq
    exact if_neg hq

/-- The element of a number is taken out. -/
theorem perm_cons_filter (hnodup : (l.map (·.id)).Nodup) (he : e ∈ l) :
    l.Perm (e :: l.filter (·.id ≠ e.id)) := by
  have hfilter : l.filter (·.id ≠ e.id) = l.erase e := by
    rw [hnodup.of_map.erase_eq_filter]
    refine List.filter_congr fun e' he' => ?_
    rw [Bool.eq_iff_iff, decide_eq_true_iff, bne_iff_ne]
    exact not_congr ⟨fun heq => List.inj_on_of_nodup_map hnodup he' he heq, congrArg _⟩
  rw [hfilter]
  exact List.perm_cons_erase he

theorem ContainerInv.nodup_elems (h : ContainerInv ids c) : (c.elems.map (·.id)).Nodup :=
  h.perm.nodup_iff.2 h.nodup

theorem ContainerInv.find?_eq (h : ContainerInv ids c) (he : e ∈ c.elems) :
    c.find? e.id = some e := by
  cases hfind : c.find? e.id with
  | none => exact absurd (decide_eq_true rfl) (List.find?_eq_none.1 hfind e he)
  | some e' =>
    rw [WifiMacQueueContainer.find?] at hfind
    have hsome := List.find?_some hfind
    have hid : e'.id = e.id := of_decide_eq_true hsome
    have hmem : e' ∈ c.elems := List.mem_of_find?_eq_some hfind
    rw [List.inj_on_of_nodup_map h.nodup_elems hmem he hid]

/-- An element that is not marked is in its container queue, and a marked one in the expired
queue. -/
theorem ContainerInv.mem_elems (h : ContainerInv ids c) (he : e ∈ c.elems) :
    e.expired = false ∧ e ∈ c.queues e.queueId ∨ e.expired = true ∧ e ∈ c.expiredQueue := by
  rcases List.mem_append.1 he with hmem | hmem
  · obtain ⟨q, -, hq⟩ := List.mem_flatMap.1 hmem
    obtain ⟨rfl, hexpired⟩ := h.queued q e hq
    exact Or.inl ⟨hexpired, hq⟩
  · exact Or.inr ⟨h.expired e hmem, hmem⟩

theorem ContainerInv.mem_elems_of_mem_queue (h : ContainerInv ids c) (he : e ∈ c.queues queueId) :
    e ∈ c.elems :=
  List.mem_append_left _ (List.mem_flatMap_of_mem (h.mem_keys _ (List.ne_nil_of_mem he)) he)

theorem nodup_of_sublist {l' : List WifiMacQueueElem} (hnodup : (l'.map (·.id)).Nodup)
    (hsub : l.Sublist l') : (l.map (·.id)).Nodup :=
  hnodup.sublist (hsub.map _)

theorem ContainerInv.nodup_queue (h : ContainerInv ids c) (queueId : WifiContainerQueueId) :
    ((c.queues queueId).map (·.id)).Nodup := by
  obtain ⟨others, hperm, -⟩ := perm_elems_setQueue h.keys (h.mem_keys queueId) []
  exact nodup_of_sublist ((hperm.map _).nodup_iff.1 h.nodup_elems) (List.sublist_append_left _ _)

/-- A list of elements that does not hold an element has none with its number. -/
theorem ContainerInv.filter_of_notMem (h : ContainerInv ids c) (he : e ∈ c.elems)
    (hsub : ∀ e' ∈ l, e' ∈ c.elems) (hnot : e ∉ l) : l.filter (·.id ≠ e.id) = l := by
  refine List.filter_eq_self.2 fun e' he' => decide_eq_true fun heq => hnot ?_
  exact List.inj_on_of_nodup_map h.nodup_elems (hsub e' he') he heq ▸ he'

/-- An element is taken out of the list that it is in. -/
theorem ContainerInv.erase_spec (h : ContainerInv ids c) (he : e ∈ c.elems) :
    ∃ c', c.erase e.id = some c' ∧ ContainerInv (ids.erase e.id) c' ∧
      c.elems.Perm (e :: c'.elems) ∧
      (∀ q, c'.queues q = (c.queues q).filter (·.id ≠ e.id)) ∧
      c'.expiredQueue = c.expiredQueue.filter (·.id ≠ e.id) := by
  have hids : ∀ {l : List WifiMacQueueElem}, c.elems.Perm (e :: l) →
      (l.map (·.id)).Perm (ids.erase e.id) := fun hperm =>
    (List.cons_perm_iff_perm_erase.1 ((hperm.map _).symm.trans h.perm)).2
  have hfilter : ∀ q, e ∉ c.queues q → (c.queues q).filter (·.id ≠ e.id) = c.queues q :=
    fun q => h.filter_of_notMem he fun e' he' => h.mem_elems_of_mem_queue he'
  rw [WifiMacQueueContainer.erase, h.find?_eq he, Option.bind_some]
  rcases h.mem_elems he with ⟨hexpired, hmem⟩ | ⟨hexpired, hmem⟩
  · have hqueue := perm_cons_filter (h.nodup_queue _) hmem
    have hbytes : bytes (c.queues e.queueId) =
        e.size + bytes ((c.queues e.queueId).filter (·.id ≠ e.id)) :=
      (bytes_perm hqueue.symm).symm
    obtain ⟨n, hn⟩ := Option.isSome_iff_exists.1 (h.counted _ (List.ne_nil_of_mem hmem))
    have hcount := h.nBytes e.queueId
    rw [hn, Option.getD_some] at hcount
    obtain ⟨others, hbefore, hafter⟩ := perm_elems_setQueue
      (c := c.setNBytes e.queueId (n - e.size)) h.keys (h.mem_keys e.queueId)
      ((c.queues e.queueId).filter (·.id ≠ e.id))
    have hall := hbefore.trans ((hqueue.append_right others).trans (hafter.symm.cons e))
    rw [hexpired, if_neg Bool.false_ne_true, uncount, hn, Option.bind_some, if_pos (by omega),
      Option.map_some]
    refine ⟨_, rfl, h.setQueue rfl rfl ?_ (h.nodup.erase _) ?_ h.expired ?_ ?_ ?_, hall,
      fun q => ?_, ?_⟩
    · exact hids hall
    · exact fun e' he' => h.queued _ e' (List.mem_of_mem_filter he')
    · intro _
      exact congrArg Option.isSome (if_pos rfl)
    · rw [setNBytes]
      dsimp only
      rw [if_pos rfl, Option.getD_some]
      omega
    · intro q hq
      exact if_neg hq
    · rw [queues_setQueue]
      split_ifs with hq
      · subst hq
        rfl
      · exact (hfilter q fun hmem' => hq (h.queued q e hmem').1.symm).symm
    · refine Eq.symm (h.filter_of_notMem he (fun e' he' => List.mem_append_right _ he')
        fun hmem' => ?_)
      rw [h.expired e hmem'] at hexpired
      cases hexpired
  · have hqueue := perm_cons_filter
      (nodup_of_sublist h.nodup_elems (List.sublist_append_right _ _)) hmem
    have hall := (hqueue.append_left (c.keys.flatMap c.queues)).trans List.perm_middle
    rw [hexpired, if_pos rfl]
    refine ⟨_, rfl, ⟨hids hall, h.nodup.erase _, h.keys, h.mem_keys, h.queued, ?_, h.counted,
      h.nBytes⟩, hall, fun q => ?_, rfl⟩
    · exact fun e' he' => h.expired e' (List.mem_of_mem_filter he')
    · refine (hfilter q fun hmem' => ?_).symm
      rw [(h.queued q e hmem').2] at hexpired
      cases hexpired

theorem ContainerInv.erase (h : ContainerInv ids c) {id : ℕ} (hid : id ∈ ids) :
    ∃ c', c.erase id = some c' ∧ ContainerInv (ids.erase id) c' := by
  obtain ⟨e, he, rfl⟩ := List.mem_map.1 (h.perm.symm.subset hid)
  obtain ⟨c', hc', hinv, -⟩ := h.erase_spec he
  exact ⟨c', hc', hinv⟩

/-- In-flight marks and expiry times change. -/
theorem ContainerInv.modify (h : ContainerInv ids c) (id : ℕ)
    {f : WifiMacQueueElem → WifiMacQueueElem}
    (hf : ∀ e, (f e).id = e.id ∧ (f e).header = e.header ∧ (f e).size = e.size ∧
      (f e).expired = e.expired) : ContainerInv ids (c.modify id f) := by
  have hid : ∀ e : WifiMacQueueElem, (if e.id = id then f e else e).id = e.id := by
    intro e
    split_ifs
    · exact (hf e).1
    · rfl
  have hsize : ∀ l : List WifiMacQueueElem,
      bytes (l.map fun e => if e.id = id then f e else e) = bytes l := by
    intro l
    rw [bytes, bytes, List.map_map]
    refine congrArg List.sum (List.map_congr_left fun e _ => ?_)
    rw [Function.comp_apply]
    split_ifs
    · exact (hf e).2.2.1
    · rfl
  have hnil : ∀ q, (c.modify id f).queues q ≠ [] → c.queues q ≠ [] := fun q hne hnil =>
    hne (List.map_eq_nil_iff.2 hnil)
  refine ⟨?_, h.nodup, h.keys, fun q hq => h.mem_keys q (hnil q hq), fun q e he => ?_, h.expired,
    fun q hq => h.counted q (hnil q hq), fun q => (h.nBytes q).trans (hsize _).symm⟩
  · refine List.Perm.trans (List.Perm.of_eq ?_) h.perm
    rw [elems, elems, List.map_append, List.map_append, List.map_flatMap, List.map_flatMap]
    congr 1
    refine List.flatMap_congr fun q _ => ?_
    rw [WifiMacQueueContainer.modify, List.map_map]
    exact List.map_congr_left fun e _ => hid e
  · obtain ⟨e', he', rfl⟩ := List.mem_map.1 he
    obtain ⟨hq, hexpired⟩ := h.queued q e' he'
    split_ifs
    · refine ⟨?_, (hf e').2.2.2.trans hexpired⟩
      rw [WifiMacQueueElem.queueId, (hf e').2.1]
      exact hq
    · exact ⟨hq, hexpired⟩

/-! ## Extracting -/

theorem isExpired_eq_not_isInFlight (he : e ∈ l.takeWhile (·.isStale now)) :
    e.isExpired now = !e.isInFlight := by
  have hstale : e.isStale now = true :=
    List.mem_takeWhile_imp (p := fun e : WifiMacQueueElem => e.isStale now) he
  rw [WifiMacQueueElem.isStale, Bool.or_eq_true] at hstale
  cases hinFlight : e.isInFlight with
  | true => exact WifiMacQueueElem.isExpired_of_isInFlight hinFlight
  | false => exact hstale.resolve_left (hinFlight ▸ Bool.false_ne_true)

/-- An extraction loses no MPDU. -/
theorem perm_kept_removed (now : Time) (l : List WifiMacQueueElem) :
    l.Perm (kept now l ++ removed now l) := by
  have hfilter : removed now l = (l.takeWhile (·.isStale now)).filter fun e => !e.isInFlight :=
    List.filter_congr fun e he => isExpired_eq_not_isInFlight he
  have hperm := List.filter_append_perm (·.isInFlight) (l.takeWhile (·.isStale now))
  have hall := hperm.symm.append_right (l.dropWhile (·.isStale now))
  rw [List.takeWhile_append_dropWhile] at hall
  refine hall.trans ?_
  rw [hfilter, kept, List.append_assoc, List.append_assoc]
  exact List.perm_append_comm.append_left _

theorem kept_sublist (now : Time) (l : List WifiMacQueueElem) : (kept now l).Sublist l := by
  have hsub := List.filter_sublist (p := fun e : WifiMacQueueElem => e.isInFlight)
    (l := l.takeWhile (·.isStale now))
  have happend := hsub.append_right (l.dropWhile (·.isStale now))
  rwa [List.takeWhile_append_dropWhile] at happend

/-- What an extraction leaves begins with MPDUs in flight, and then there is one that is neither in
flight nor expired. -/
theorem removed_kept (now : Time) (l : List WifiMacQueueElem) : removed now (kept now l) = [] := by
  have hfly : ∀ e ∈ (l.takeWhile (·.isStale now)).filter (·.isInFlight), e.isInFlight = true :=
    fun e he => (List.mem_filter.1 he).2
  have hhead : ∀ e ∈ (l.dropWhile (·.isStale now)).head?,
      e.isInFlight = false ∧ e.isExpired now = false := by
    intro e he
    have hlive := of_mem_head?_dropWhile (p := fun e : WifiMacQueueElem => e.isStale now) he
    rwa [WifiMacQueueElem.isStale, Bool.or_eq_false_iff] at hlive
  have hsplit : removed now ((l.takeWhile (·.isStale now)).filter (·.isInFlight) ++
      ([] ++ l.dropWhile (·.isStale now))) = [] ++ removed now (l.dropWhile (·.isStale now)) :=
    removed_append hfly fun e he => absurd he List.not_mem_nil
  rw [kept]
  exact hsplit.trans (removed_eq_nil hhead).1

theorem kept_of_removed_eq_nil (h : removed now l = []) : kept now l = l := by
  have hlen := (perm_kept_removed now l).length_eq
  rw [h, List.append_nil] at hlen
  exact (kept_sublist now l).eq_of_length hlen.symm

theorem removed_sublist (now : Time) (l : List WifiMacQueueElem) : (removed now l).Sublist l :=
  List.filter_sublist.trans (List.takeWhile_sublist _)

/-- The first MPDU that is transferred is the first that is not in flight. -/
theorem head?_dropWhile_isInFlight {l' : List WifiMacQueueElem} (h : removed now l = e :: l') :
    (l.dropWhile (·.isInFlight)).head? = some e := by
  have hsplit : l.takeWhile (·.isInFlight) ++ ([] ++ l.dropWhile (·.isInFlight)) = l :=
    List.takeWhile_append_dropWhile
  rw [← hsplit, removed_append (fun e he => List.mem_takeWhile_imp he)
    (fun e he => absurd he List.not_mem_nil), List.nil_append] at h
  cases hrest : l.dropWhile (·.isInFlight) with
  | nil =>
    rw [hrest] at h
    cases h
  | cons e' rest =>
    rw [hrest] at h
    have hhead : e'.isInFlight = false :=
      of_mem_head?_dropWhile (l := l) (p := fun e => e.isInFlight) (by rw [hrest]; rfl)
    cases hexpired : e'.isExpired now with
    | false =>
      have hlive : ∀ e ∈ (e' :: rest).head?, e.isInFlight = false ∧ e.isExpired now = false := by
        intro e he
        obtain rfl := Option.some.inj he
        exact ⟨hhead, hexpired⟩
      obtain ⟨hnil, -⟩ := removed_eq_nil hlive
      rw [hnil] at h
      cases h
    | true =>
      have hall : ∀ e ∈ [e'], e.isExpired now = true := List.forall_mem_singleton.2 hexpired
      have hcons := removed_append (a := []) (l := rest)
        (fun e he => absurd he List.not_mem_nil) hall
      rw [List.nil_append, List.singleton_append, h] at hcons
      rw [(List.cons.inj hcons).1]
      rfl

/-- The container after an extraction. -/
def afterExtraction (now : Time) (queueId : WifiContainerQueueId) (c : WifiMacQueueContainer) :
    WifiMacQueueContainer :=
  (c.transfer queueId (removed now (c.queues queueId))).setQueue queueId
    (kept now (c.queues queueId))

/-- What does not depend on the marks is the same of the elements after an extraction. -/
theorem ContainerInv.perm_map_afterExtraction {β : Type*} (h : ContainerInv ids c) (now : Time)
    (queueId : WifiContainerQueueId) {f : WifiMacQueueElem → β}
    (hf : ∀ e : WifiMacQueueElem, f e.markExpired = f e) :
    ((afterExtraction now queueId c).elems.map f).Perm (c.elems.map f) := by
  have hmark : ∀ l : List WifiMacQueueElem,
      (l.map WifiMacQueueElem.markExpired).map f = l.map f := by
    intro l
    rw [List.map_map]
    exact List.map_congr_left fun e _ => hf e
  obtain ⟨others, hbefore, hafter⟩ := perm_elems_setQueue
    (c := c.transfer queueId (removed now (c.queues queueId))) h.keys (h.mem_keys queueId)
    (kept now (c.queues queueId))
  have htransfer : (c.transfer queueId (removed now (c.queues queueId))).elems =
      c.elems ++ (removed now (c.queues queueId)).map WifiMacQueueElem.markExpired :=
    (List.append_assoc _ _ _).symm
  have hall := hbefore.map f
  rw [htransfer, List.map_append, List.map_append, hmark] at hall
  have hall' := hafter.map f
  rw [List.map_append] at hall'
  have hpart := (perm_kept_removed now (c.queues queueId)).map f
  rw [List.map_append] at hpart
  -- what was transferred is counted on both sides
  refine (List.perm_append_right_iff ((removed now (c.queues queueId)).map f)).1 ?_
  refine (hall'.append_right _).trans (List.Perm.trans ?_ hall.symm)
  refine List.Perm.trans ?_ (hpart.symm.append_right _)
  rw [List.append_assoc, List.append_assoc]
  exact List.perm_append_comm.append_left _

theorem containerInv_afterExtraction (h : ContainerInv ids c) (now : Time)
    (queueId : WifiContainerQueueId) : ContainerInv ids (afterExtraction now queueId c) := by
  have hpart := perm_kept_removed now (c.queues queueId)
  have hbytes : bytes (c.queues queueId) =
      bytes (kept now (c.queues queueId)) + bytes (removed now (c.queues queueId)) :=
    (bytes_perm hpart.symm).symm.trans (bytes_append _ _)
  refine h.setQueue rfl rfl ?_ h.nodup (fun e he => h.queued _ e ((kept_sublist now _).subset he))
    ?_ ?_ ?_ ?_
  · exact (h.perm_map_afterExtraction now queueId fun _ => rfl).trans h.perm
  · intro e he
    rcases List.mem_append.1 he with hmem | hmem
    · exact h.expired e hmem
    · obtain ⟨e', -, rfl⟩ := List.mem_map.1 hmem
      rfl
  · intro hne
    rw [nBytesPerQueue_transfer, Option.isSome_map]
    refine h.counted queueId fun hnil => hne ?_
    rw [hnil]
    rfl
  · have hcount := h.nBytes queueId
    rw [nBytesPerQueue_transfer]
    cases hn : c.nBytesPerQueue queueId with
    | none =>
      rw [hn, Option.getD_none] at hcount
      rw [Option.map_none, Option.getD_none]
      omega
    | some n =>
      rw [hn, Option.getD_some] at hcount
      rw [Option.map_some, Option.getD_some]
      omega
  · intro q hq
    exact if_neg hq

theorem queues_afterExtraction (q : WifiContainerQueueId) :
    (afterExtraction now queueId c).queues q =
    if q = queueId then kept now (c.queues q) else c.queues q := by
  rw [afterExtraction, queues_setQueue]
  split_ifs with hq
  · rw [hq]
  · rfl

theorem expiredQueue_afterExtraction : (afterExtraction now queueId c).expiredQueue =
    c.expiredQueue ++ (removed now (c.queues queueId)).map WifiMacQueueElem.markExpired :=
  rfl

/-- The iterator at the first MPDU of a list, if there is one. -/
def firstOf (l : List WifiMacQueueElem) : Option ElemIterator :=
  l.head?.map fun e => .elem e.id

theorem firstOf_append (l l' : List WifiMacQueueElem) :
    firstOf (l ++ l') = (firstOf l).or (firstOf l') := by
  cases l <;> rfl

/-- An extraction does not fail, and the range begins at the first MPDU transferred. -/
theorem ContainerInv.doExtractExpiredMpdus (h : ContainerInv ids c) (now : Time)
    (queueId : WifiContainerQueueId) : ∃ first last,
      c.doExtractExpiredMpdus now queueId = some (afterExtraction now queueId c, first, last) ∧
        (if first = last then none else some first) = firstOf (removed now (c.queues queueId)) ∧
        (first ≠ last → last = .expiredEnd) := by
  have hn : c.queues queueId ≠ [] →
      c.nBytesPerQueue queueId = some (bytes (c.queues queueId)) := by
    intro hne
    obtain ⟨n, hn⟩ := Option.isSome_iff_exists.1 (h.counted queueId hne)
    rw [← h.nBytes queueId, hn, Option.getD_some]
  rw [WifiMacQueueContainer.doExtractExpiredMpdus, extractLoop_eq (Nat.lt_succ_self _)
    (fun e he => (h.queued queueId e he).1) hn le_rfl]
  refine ⟨_, _, rfl, ?_⟩
  cases hremoved : removed now (c.queues queueId) with
  | nil => simp [firstOf]
  | cons e l =>
    rw [head?_dropWhile_isInFlight hremoved]
    simp [firstOf]

theorem ContainerInv.nodup_expiredQueue (h : ContainerInv ids c) :
    (c.expiredQueue.map (·.id)).Nodup :=
  nodup_of_sublist h.nodup_elems (List.sublist_append_right _ _)

/-- The range from the first MPDU transferred to the end of the expired queue. -/
theorem ContainerInv.range_eq (h : ContainerInv ids c) {l l' : List WifiMacQueueElem}
    (hl : c.expiredQueue = l ++ l'.map WifiMacQueueElem.markExpired) :
    c.range ((firstOf l').getD .expiredEnd) .expiredEnd = l'.map WifiMacQueueElem.markExpired := by
  cases l' with
  | nil => rfl
  | cons e l' =>
    have hnodup := h.nodup_expiredQueue
    rw [hl, List.map_append] at hnodup
    have hbefore : ∀ e' ∈ l, (decide (e'.id ≠ e.id)) = true := fun e' he' =>
      decide_eq_true fun heq => List.disjoint_of_nodup_append hnodup
        (List.mem_map_of_mem he') (heq ▸ List.mem_cons_self)
    change c.expiredQueue.dropWhile (·.id ≠ e.id) = _
    rw [hl, List.dropWhile_append_of_pos hbefore, List.map_cons, List.dropWhile_cons_of_neg]
    exact fun hne => of_decide_eq_true hne rfl

/-- The range that is returned is what has been transferred. -/
theorem ContainerInv.range_afterExtraction (h : ContainerInv ids c) (now : Time)
    (queueId : WifiContainerQueueId) : ∃ first last,
      c.doExtractExpiredMpdus now queueId = some (afterExtraction now queueId c, first, last) ∧
        (afterExtraction now queueId c).range first last =
          (removed now (c.queues queueId)).map WifiMacQueueElem.markExpired := by
  obtain ⟨first, last, heq, hfirst, hlast⟩ := h.doExtractExpiredMpdus now queueId
  refine ⟨first, last, heq, ?_⟩
  have hrange := (containerInv_afterExtraction h now queueId).range_eq expiredQueue_afterExtraction
  rw [← hfirst] at hrange
  by_cases hsame : first = last
  · rw [if_pos hsame] at hrange hfirst
    exact (if_pos hsame).trans hrange
  · rw [if_neg hsame, Option.getD_some, ← hlast hsame] at hrange
    exact hrange

/-- One extraction moves the expired MPDUs up to the first live one, and returns their range. -/
theorem ContainerInv.doExtractExpiredMpdus_spec (h : ContainerInv ids c) (now : Time)
    (queueId : WifiContainerQueueId) : ∃ c' first last,
      c.doExtractExpiredMpdus now queueId = some (c', first, last) ∧ ContainerInv ids c' ∧
        (∀ q, c'.queues q = if q = queueId then kept now (c.queues q) else c.queues q) ∧
        c'.expiredQueue =
          c.expiredQueue ++ (removed now (c.queues queueId)).map WifiMacQueueElem.markExpired ∧
        c'.range first last =
          (removed now (c.queues queueId)).map WifiMacQueueElem.markExpired := by
  obtain ⟨first, last, heq, hrange⟩ := h.range_afterExtraction now queueId
  exact ⟨_, first, last, heq, containerInv_afterExtraction h now queueId,
    fun q => queues_afterExtraction q, rfl, hrange⟩

/-- What an extraction from all queues transfers. -/
def removedFrom (now : Time) (c : WifiMacQueueContainer) (order : List WifiContainerQueueId) :
    List WifiMacQueueElem :=
  order.flatMap fun queueId => removed now (c.queues queueId)

/-- Elements that differ only in their marks, in some order. -/
def SameElems (c c' : WifiMacQueueContainer) : Prop :=
  (c'.elems.map fun e => { e with expired := false }).Perm
    (c.elems.map fun e => { e with expired := false })

/-- The rounds of the loop over the queues. -/
theorem ContainerInv.foldlM_extractNext (h : ContainerInv ids c) (now : Time)
    {order : List WifiContainerQueueId} (hnodup : order.Nodup) (first : Option ElemIterator) :
    ∃ c', order.foldlM (extractNext now) (c, first) =
        some (c', first.or (firstOf (removedFrom now c order))) ∧ ContainerInv ids c' ∧
      SameElems c c' ∧
      (∀ q, c'.queues q = if q ∈ order then kept now (c.queues q) else c.queues q) ∧
      c'.expiredQueue =
        c.expiredQueue ++ (removedFrom now c order).map WifiMacQueueElem.markExpired := by
  induction order generalizing c first with
  | nil =>
    refine ⟨c, ?_, h, List.Perm.refl _, fun q => rfl, (List.append_nil _).symm⟩
    exact congrArg (fun x => some (c, x)) (Option.or_none).symm
  | cons queueId order ih =>
    obtain ⟨hnot, hnodup⟩ := List.nodup_cons.1 hnodup
    obtain ⟨first', last', heq, hfirst, -⟩ := h.doExtractExpiredMpdus now queueId
    have hround : extractNext now (c, first) queueId = some (afterExtraction now queueId c,
        first.or (firstOf (removed now (c.queues queueId)))) := by
      rw [extractNext, heq, Option.map_some, ← hfirst]
      cases first <;> by_cases hsame : first' = last' <;> simp [hsame]
    have hqueues : ∀ q ∈ order, (afterExtraction now queueId c).queues q = c.queues q := by
      intro q hq
      rw [queues_afterExtraction, if_neg]
      rintro rfl
      exact hnot hq
    have hremoved : removedFrom now (afterExtraction now queueId c) order =
        removedFrom now c order :=
      List.flatMap_congr fun q hq => congrArg (removed now) (hqueues q hq)
    obtain ⟨c', hc', hinv, helems, hqueues', hexpired⟩ :=
      ih (containerInv_afterExtraction h now queueId) hnodup
        (first.or (firstOf (removed now (c.queues queueId))))
    have hfirst := h.perm_map_afterExtraction now queueId
      (f := fun e : WifiMacQueueElem => { e with expired := false }) fun _ => rfl
    refine ⟨c', ?_, hinv, helems.trans hfirst, fun q => ?_, ?_⟩
    · have hfirst' : firstOf (removedFrom now c (queueId :: order)) =
          (firstOf (removed now (c.queues queueId))).or (firstOf (removedFrom now c order)) :=
        firstOf_append _ _
      rw [hremoved, Option.or_assoc, ← hfirst'] at hc'
      rw [List.foldlM_cons, hround]
      exact hc'
    · rw [hqueues' q]
      by_cases hq : q ∈ order
      · rw [if_pos hq, if_pos (List.mem_cons_of_mem _ hq), hqueues q hq]
      · rw [if_neg hq, queues_afterExtraction]
        simp only [List.mem_cons, hq, or_false]
    · rw [hexpired, expiredQueue_afterExtraction, hremoved, removedFrom, removedFrom,
        List.flatMap_cons, List.map_append, List.append_assoc]

/-- The extraction from all queues, one after the other. -/
theorem ContainerInv.extractAllExpiredMpdus (h : ContainerInv ids c) (now : Time)
    {order : List WifiContainerQueueId} (hnodup : order.Nodup) : ∃ c' first last,
      c.extractAllExpiredMpdus now order = some (c', first, last) ∧ ContainerInv ids c' ∧
        SameElems c c' ∧
        (∀ q, c'.queues q = if q ∈ order then kept now (c.queues q) else c.queues q) ∧
        c'.expiredQueue =
          c.expiredQueue ++ (removedFrom now c order).map WifiMacQueueElem.markExpired ∧
        c'.range first last = (removedFrom now c order).map WifiMacQueueElem.markExpired := by
  obtain ⟨c', hc', hinv, helems, hqueues, hexpired⟩ := h.foldlM_extractNext now hnodup none
  refine ⟨c', _, _, ?_, hinv, helems, hqueues, hexpired, hinv.range_eq hexpired⟩
  rw [WifiMacQueueContainer.extractAllExpiredMpdus, hc']
  rfl

end WifiMacQueueContainer

/-! ## Runs -/

/-- A container, the time, the elements inserted and not erased, and the number of the next one. -/
structure ContainerRun where
  container : WifiMacQueueContainer := {}
  now : Time := 0
  ids : List ℕ := []
  nextId : ℕ := 0

/-- What is done with the container. -/
inductive ContainerEvent
  | insert (pos : ElemIterator) (header : QueuedHeader) (size : ℕ)
  | erase (id : ℕ)
  | extractExpiredMpdus (queueId : WifiContainerQueueId)
  | extractAllExpiredMpdus (order : List WifiContainerQueueId)
  | setInflights (id : ℕ) (inflights : List ℕ)
  | setExpiryTime (id : ℕ) (expiryTime : Time)
  | setTime (now : Time)

namespace ContainerRun

variable (s : ContainerRun)

/-- One step. The extraction from all queues goes through them in any order. -/
def step : ContainerEvent → Option ContainerRun
  | .insert pos header size =>
    (s.container.insert pos { id := s.nextId, header, size }).map fun container =>
      { s with container, ids := s.nextId :: s.ids, nextId := s.nextId + 1 }
  | .erase id => (s.container.erase id).map fun container =>
    { s with container, ids := s.ids.erase id }
  | .extractExpiredMpdus queueId =>
    (s.container.doExtractExpiredMpdus s.now queueId).map fun x => { s with container := x.1 }
  | .extractAllExpiredMpdus order =>
    if order.Perm s.container.keys then
      (s.container.extractAllExpiredMpdus s.now order).map fun x => { s with container := x.1 }
    else none
  | .setInflights id inflights => some
    { s with container := s.container.modify id fun e => { e with inflights } }
  | .setExpiryTime id expiryTime => some
    { s with container := s.container.modify id fun e => { e with expiryTime } }
  | .setTime now => some { s with now }

variable {s}

open WifiMacQueueContainer

/-- The invariant of the container, with the next number a new one. -/
structure RunInv (s : ContainerRun) : Prop where
  container : ContainerInv s.ids s.container
  lt : ∀ id ∈ s.ids, id < s.nextId

theorem RunInv.step (h : s.RunInv) {ev : ContainerEvent} {t : ContainerRun}
    (ht : s.step ev = some t) : t.RunInv := by
  cases ev with
  | insert pos header size =>
    obtain ⟨c, hc, rfl⟩ := Option.map_eq_some_iff.1 ht
    refine ⟨h.container.insert (fun hmem => lt_irrefl _ (h.lt _ hmem)) rfl hc, ?_⟩
    exact List.forall_mem_cons.2
      ⟨Nat.lt_succ_self _, fun id hid => (h.lt id hid).trans (Nat.lt_succ_self _)⟩
  | erase id =>
    obtain ⟨c, hc, rfl⟩ := Option.map_eq_some_iff.1 ht
    have hid : id ∈ s.ids := by
      obtain ⟨e, he, -⟩ := Option.bind_eq_some_iff.1 hc
      rw [find?] at he
      have hsome := List.find?_some he
      have hid : e.id = id := of_decide_eq_true hsome
      exact hid ▸ h.container.perm.subset (List.mem_map_of_mem (List.mem_of_find?_eq_some he))
    obtain ⟨c', hc', hinv⟩ := h.container.erase hid
    obtain rfl := Option.some.inj (hc.symm.trans hc')
    exact ⟨hinv, fun id' hid' => h.lt id' (List.mem_of_mem_erase hid')⟩
  | extractExpiredMpdus queueId =>
    obtain ⟨x, hx, rfl⟩ := Option.map_eq_some_iff.1 ht
    obtain ⟨c', first, last, heq, hinv, -⟩ :=
      h.container.doExtractExpiredMpdus_spec s.now queueId
    obtain rfl := Option.some.inj (heq.symm.trans hx)
    exact ⟨hinv, h.lt⟩
  | extractAllExpiredMpdus order =>
    rw [ContainerRun.step] at ht
    split_ifs at ht with horder
    obtain ⟨x, hx, rfl⟩ := Option.map_eq_some_iff.1 ht
    obtain ⟨c', first, last, heq, hinv, -⟩ := h.container.extractAllExpiredMpdus s.now
      (horder.nodup_iff.2 h.container.keys)
    obtain rfl := Option.some.inj (heq.symm.trans hx)
    exact ⟨hinv, h.lt⟩
  | setInflights id inflights =>
    obtain rfl := Option.some.inj ht
    exact ⟨h.container.modify id fun e => ⟨rfl, rfl, rfl, rfl⟩, h.lt⟩
  | setExpiryTime id expiryTime =>
    obtain rfl := Option.some.inj ht
    exact ⟨h.container.modify id fun e => ⟨rfl, rfl, rfl, rfl⟩, h.lt⟩
  | setTime now =>
    obtain rfl := Option.some.inj ht
    exact ⟨h.container, h.lt⟩

theorem runInv_of_reached (h : Runs.Reached ContainerRun.step (fun _ _ => True) {} s) :
    s.RunInv :=
  h.invariant (fun _ _ _ ht _ hstep => ht.step hstep)
    ⟨containerInv_empty, fun _ hid => absurd hid List.not_mem_nil⟩

end ContainerRun

end Ns3Pedca
