import Ns3Pedca.Wifi.MacQueueRuns

/-!
# Inserting into a full MAC queue

When `Insert` finds the queue full, it removes the expired MPDUs and may drop one more. The position
that it was given is corrected twice. It is moved to the begin of the container queue if the
lifetime of the MPDU that it is at has expired, as if all the MPDUs before were expired as well, and
it is moved on if this MPDU is the one that is dropped. `insertPos_iff` says when the position that
reaches the container is one of its queue, between the MPDUs that stood before the
position given and those that did not.
-/

namespace Ns3Pedca

variable {l l' a b : List WifiMacQueueElem} {e f x item : WifiMacQueueElem} {now : Time}
  {pos : ElemIterator} {queueId : WifiContainerQueueId} {id : ℕ}

/-! ## Positions -/

namespace ElemIterator

/-- The elements before the position. -/
def before (l : List WifiMacQueueElem) : ElemIterator → List WifiMacQueueElem
  | .elem id => l.takeWhile (·.id ≠ id)
  | _ => l

/-- The elements from the position on. -/
def after (l : List WifiMacQueueElem) : ElemIterator → List WifiMacQueueElem
  | .elem id => l.dropWhile (·.id ≠ id)
  | _ => []

end ElemIterator

namespace WifiMacQueueContainer

/-- The new element stands after elements that were before the position, and before elements that
were not. -/
def InPlace (l l' : List WifiMacQueueElem) (pos : ElemIterator) (item : WifiMacQueueElem) : Prop :=
  ∃ a b, l' = a ++ item :: b ∧ a.Sublist (pos.before l) ∧ b.Sublist (pos.after l)

/-- The container inserts the element, and in its place. -/
def Placed (queueId : WifiContainerQueueId) (l l' : List WifiMacQueueElem)
    (pos pos' : ElemIterator) (item : WifiMacQueueElem) : Prop :=
  ∃ l'', emplace queueId item l' pos' = some l'' ∧ InPlace l l'' pos item

/-- The elements around an element. -/
theorem before_after (hnodup : ((a ++ e :: b).map (·.id)).Nodup) :
    (ElemIterator.elem e.id).before (a ++ e :: b) = a ∧
      (ElemIterator.elem e.id).after (a ++ e :: b) = e :: b := by
  rw [List.map_append, List.map_cons] at hnodup
  have hpos : ∀ y ∈ a, (decide (y.id ≠ e.id)) = true := fun y hy => decide_eq_true fun heq =>
    List.disjoint_of_nodup_append hnodup (List.mem_map_of_mem hy) (heq ▸ List.mem_cons_self)
  rw [ElemIterator.before, ElemIterator.after, List.takeWhile_append_of_pos hpos,
    List.dropWhile_append_of_pos hpos, List.takeWhile_cons_of_neg (by simp),
    List.dropWhile_cons_of_neg (by simp), List.append_nil]
  exact ⟨rfl, rfl⟩

/-- What remains of a list around one of its elements. -/
theorem sublist_split (hnodup : ((a ++ x :: b).map (·.id)).Nodup) (hsub : l'.Sublist (a ++ x :: b))
    (hx : x ∈ l') : ∃ a' b', l' = a' ++ x :: b' ∧ a'.Sublist a ∧ b'.Sublist b := by
  have hdistinct := hnodup.of_map
  obtain ⟨a', r, rfl, ha, hr⟩ := List.sublist_append_iff.1 hsub
  have hxa : x ∉ a' := fun hmem =>
    List.disjoint_of_nodup_append hdistinct (ha.subset hmem) List.mem_cons_self
  have hxr := (List.mem_append.1 hx).resolve_left hxa
  rcases List.sublist_cons_iff.1 hr with hb | ⟨b', rfl, hb⟩
  · exact absurd (hb.subset hxr) (List.nodup_cons.1 hdistinct.of_append_right).1
  · exact ⟨a', b', rfl, ha, hb⟩

/-- An insertion before an element that remains. -/
theorem emplace_elem (queueId : WifiContainerQueueId) (item : WifiMacQueueElem)
    (hnodup : ((a ++ x :: b).map (·.id)).Nodup)
    (hsub : l'.Sublist (a ++ x :: b)) (hx : x ∈ l') : ∃ a' b',
      emplace queueId item l' (.elem x.id) = some (a' ++ item :: x :: b') ∧ a'.Sublist a ∧
        b'.Sublist b := by
  obtain ⟨a', b', rfl, ha, hb⟩ := sublist_split hnodup hsub hx
  obtain ⟨hbefore, hafter⟩ := before_after (hnodup.sublist (hsub.map _))
  refine ⟨a', b', ?_, ha, hb⟩
  rw [emplace, if_pos (List.any_eq_true.2 ⟨x, hx, decide_eq_true rfl⟩)]
  rw [ElemIterator.before] at hbefore
  rw [ElemIterator.after] at hafter
  rw [hbefore, hafter]

theorem emplace_eq_none (hnot : ∀ y ∈ l', y.id ≠ id) :
    emplace queueId item l' (.elem id) = none := by
  rw [emplace, if_neg]
  intro hany
  obtain ⟨y, hy, heq⟩ := List.any_eq_true.1 hany
  exact hnot y hy (of_decide_eq_true heq)

/-- The position is at an element that remains. -/
theorem placed_elem (hnodup : ((a ++ x :: b).map (·.id)).Nodup) (hsub : l'.Sublist (a ++ x :: b))
    (hx : x ∈ l') : Placed queueId (a ++ x :: b) l' (.elem x.id) (.elem x.id) item := by
  obtain ⟨a', b', heq, ha, hb⟩ := emplace_elem queueId item hnodup hsub hx
  obtain ⟨hbefore, hafter⟩ := before_after hnodup
  refine ⟨_, heq, a', x :: b', rfl, ?_, ?_⟩
  · rw [hbefore]
    exact ha
  · rw [hafter]
    exact hb.cons_cons x

/-- The position was at an element that is gone, and is at the next one, which remains. -/
theorem placed_next (hnodup : ((a ++ e :: x :: b).map (·.id)).Nodup)
    (hsub : l'.Sublist (a ++ x :: b)) (hx : x ∈ l') :
    Placed queueId (a ++ e :: x :: b) l' (.elem e.id) (.elem x.id) item := by
  have hnodup' : ((a ++ x :: b).map (·.id)).Nodup :=
    hnodup.sublist (((List.sublist_cons_self e _).append_left a).map _)
  obtain ⟨a', b', heq, ha, hb⟩ := emplace_elem queueId item hnodup' hsub hx
  obtain ⟨hbefore, hafter⟩ := before_after hnodup
  refine ⟨_, heq, a', x :: b', rfl, ?_, ?_⟩
  · rw [hbefore]
    exact ha
  · rw [hafter]
    exact (hb.cons_cons x).cons e

/-- The position is the end. -/
theorem placed_end (hsub : l'.Sublist (pos.before l)) :
    Placed queueId l l' pos (.queueEnd queueId) item :=
  ⟨_, if_pos rfl, l', [], rfl, hsub, List.nil_sublist _⟩

theorem not_placed_of_notMem (hnot : ∀ y ∈ l', y.id ≠ id) :
    ¬ Placed queueId l l' pos (.elem id) item := by
  rintro ⟨l'', heq, -⟩
  rw [emplace_eq_none hnot] at heq
  cases heq

/-- An element that stood before the position would be behind the new one. -/
theorem not_placed_of_before (hnodup : (l.map (·.id)).Nodup) (hsub : l'.Sublist l)
    (hitem : ∀ y ∈ l, y.id ≠ item.id) (hx : x ∈ pos.before l)
    (hsplit : pos.before l ++ pos.after l = l) :
    ¬ Placed queueId l l' pos (.elem x.id) item := by
  rintro ⟨l'', heq, a', b', hl'', ha, hb⟩
  have hxl : x ∈ l := hsplit ▸ List.mem_append_left _ hx
  by_cases hmem : x ∈ l'
  · obtain ⟨a, b, rfl⟩ := List.append_of_mem hxl
    obtain ⟨c, d, heq', hc, hd⟩ := emplace_elem queueId item hnodup hsub hmem
    rw [heq'] at heq
    have hsame := (Option.some.inj heq).trans hl''
    have hnot : ∀ {m : List WifiMacQueueElem}, m.Sublist (a ++ x :: b) → item ∉ m :=
      fun hm hmem' => hitem item (hm.subset hmem') rfl
    have hxd := (hd.cons_cons x).trans (List.sublist_append_right a (x :: b))
    obtain ⟨-, -, hxb⟩ := (List.append_cons_inj_of_notMem
      (hnot (hc.trans (List.sublist_append_left _ _))) (hnot hxd)).1 hsame
    have hxafter : x ∈ pos.after (a ++ x :: b) := hb.subset (hxb ▸ List.mem_cons_self)
    have hdistinct := hnodup.of_map
    rw [← hsplit] at hdistinct
    exact List.disjoint_of_nodup_append hdistinct hx hxafter
  · have hnone : emplace queueId item l' (.elem x.id) = none :=
      emplace_eq_none fun y hy heq' =>
        hmem (List.inj_on_of_nodup_map hnodup (hsub.subset hy) hxl heq' ▸ hy)
    rw [hnone] at heq
    cases heq

/-! ## What an extraction leaves -/

theorem mem_kept_of_not_isExpired (he : e ∈ l) (hlive : e.isExpired now = false) :
    e ∈ kept now l := by
  rcases List.mem_append.1 ((perm_kept_removed now l).subset he) with hmem | hmem
  · exact hmem
  · rw [(List.mem_filter.1 hmem).2] at hlive
    cases hlive

/-- An element goes if it has expired, and all those before it are in flight or have expired. -/
theorem mem_kept_iff (now : Time) (hnodup : (a ++ x :: b).Nodup) : x ∈ kept now (a ++ x :: b) ↔
    ¬ (x.isExpired now = true ∧ ∀ y ∈ a, y.isStale now = true) := by
  have hperm := perm_kept_removed now (a ++ x :: b)
  have hx : x ∈ a ++ x :: b := List.mem_append_right _ List.mem_cons_self
  have hxa : x ∉ a := fun hmem => List.disjoint_of_nodup_append hnodup hmem List.mem_cons_self
  constructor
  · rintro hkept ⟨hexpired, hall⟩
    refine List.disjoint_of_nodup_append (hperm.nodup_iff.1 hnodup) hkept
      (List.mem_filter.2 ⟨?_, hexpired⟩)
    rw [List.takeWhile_append_of_pos hall,
      List.takeWhile_cons_of_pos (WifiMacQueueElem.isStale_of_isExpired hexpired)]
    exact List.mem_append_right _ List.mem_cons_self
  · intro hnot
    refine (List.mem_append.1 (hperm.subset hx)).resolve_right fun hremoved => hnot ?_
    obtain ⟨htake, hexpired⟩ := List.mem_filter.1 hremoved
    refine ⟨hexpired, fun y hy => ?_⟩
    rw [List.takeWhile_append] at htake
    split_ifs at htake with hlen
    · have hall := (List.takeWhile_sublist _).eq_of_length hlen
      rw [← hall] at hy
      exact List.mem_takeWhile_imp (p := fun e : WifiMacQueueElem => e.isStale now) hy
    · exact absurd ((List.takeWhile_sublist _).subset htake) hxa

/-- The MPDU that the position is at has not expired, or is in flight at the begin of the queue. -/
def PosKept (now : Time) (l : List WifiMacQueueElem) (pos : ElemIterator) : Prop :=
  ∀ e ∈ l, pos = .elem e.id → now < e.expiryTime ∨ l.head? = some e ∧ e.isInFlight = true

/-- If the MPDU is dropped, an extraction takes the one behind it. -/
def ExposesNext (now : Time) (l : List WifiMacQueueElem) (id : ℕ) : Prop :=
  ∃ a e x b, l = a ++ e :: x :: b ∧ e.id = id ∧ x.isExpired now = true ∧
    ∀ y ∈ a, y.isStale now = true

theorem isExpired_of_lt (h : now < e.expiryTime) : e.isExpired now = false := by
  rw [WifiMacQueueElem.isExpired, decide_eq_false (not_le.2 h), Bool.false_and]

theorem isExpired_of_le (h : e.expiryTime ≤ now) : e.isExpired now = !e.isInFlight := by
  rw [WifiMacQueueElem.isExpired, decide_eq_true h, Bool.true_and, WifiMacQueueElem.isInFlight,
    Bool.not_not]

theorem before_append_after (l : List WifiMacQueueElem) (pos : ElemIterator) :
    pos.before l ++ pos.after l = l := by
  cases pos with
  | elem id => exact List.takeWhile_append_dropWhile
  | queueEnd q => exact List.append_nil l
  | expiredEnd => exact List.append_nil l

theorem placed_of_mem (hnodup : (l.map (·.id)).Nodup) (hsub : l'.Sublist l) (he : e ∈ l') :
    Placed queueId l l' (.elem e.id) (.elem e.id) item := by
  obtain ⟨a, b, rfl⟩ := List.append_of_mem (hsub.subset he)
  exact placed_elem hnodup hsub he

/-- The begin of the queue is not the place of an element that stands behind. -/
theorem not_placed_head (hnodup : ((f :: l).map (·.id)).Nodup) (hsub : l'.Sublist (f :: l))
    (hitem : ∀ y ∈ f :: l, y.id ≠ item.id) (he : e ∈ l) :
    ¬ Placed queueId (f :: l) l' (.elem e.id) (.elem f.id) item := by
  refine not_placed_of_before hnodup hsub hitem ?_ (before_append_after _ _)
  have hne : f.id ≠ e.id := fun heq =>
    (List.nodup_cons.1 hnodup).1 (List.mem_map.2 ⟨e, he, heq.symm⟩)
  rw [ElemIterator.before, List.takeWhile_cons_of_pos
    (p := fun y : WifiMacQueueElem => decide (y.id ≠ e.id)) (decide_eq_true hne)]
  exact List.mem_cons_self

theorem posKept_iff (hnodup : (l.map (·.id)).Nodup) (he : e ∈ l) :
    PosKept now l (.elem e.id) ↔ now < e.expiryTime ∨ l.head? = some e ∧ e.isInFlight = true := by
  refine ⟨fun h => h e he rfl, fun h y hy heq => ?_⟩
  rwa [← List.inj_on_of_nodup_map hnodup he hy (ElemIterator.elem.inj heq)]

/-- The position after the first correction. -/
def fixPos (now : Time) (e : WifiMacQueueElem) (first : ElemIterator) : ElemIterator :=
  if e.expiryTime ≤ now then first else .elem e.id

/-- If nothing is dropped, the place is right if the position is not corrected, or need not be. -/
theorem placed_fixPos_iff (hnodup : ((f :: l).map (·.id)).Nodup)
    (hitem : ∀ y ∈ f :: l, y.id ≠ item.id) (he : e ∈ f :: l) :
    Placed queueId (f :: l) (kept now (f :: l)) (.elem e.id) (fixPos now e (.elem f.id)) item ↔
      PosKept now (f :: l) (.elem e.id) := by
  have hsub := kept_sublist now (f :: l)
  rw [posKept_iff hnodup he, fixPos]
  split_ifs with hle
  · rw [List.head?_cons, Option.some.injEq]
    have hnot : ¬ now < e.expiryTime := not_lt.2 hle
    rcases List.mem_cons.1 he with rfl | hmem
    · -- the first MPDU is at the position : an extraction leaves it if it is in flight
      have hiff := mem_kept_iff now (a := []) (x := e) (b := l) hnodup.of_map
      rw [isExpired_of_le hle] at hiff
      cases hfly : e.isInFlight with
      | true =>
        refine iff_of_true (placed_of_mem hnodup hsub (hiff.2 ?_)) (Or.inr ⟨rfl, rfl⟩)
        simp [hfly]
      | false =>
        refine iff_of_false (not_placed_of_notMem fun y hy heq => ?_) (by simp [hnot])
        have hye := List.inj_on_of_nodup_map hnodup (hsub.subset hy) he heq
        exact hiff.1 (hye ▸ hy) ⟨by simp [hfly], fun _ hmem => absurd hmem List.not_mem_nil⟩
    · refine iff_of_false (not_placed_head hnodup hsub hitem hmem) ?_
      rintro (hlt | ⟨rfl, -⟩)
      · exact hnot hlt
      · exact (List.nodup_cons.1 hnodup.of_map).1 hmem
  · have hlive := isExpired_of_lt (not_le.1 hle)
    exact iff_of_true (placed_of_mem hnodup hsub (mem_kept_of_not_isExpired he hlive))
      (Or.inl (not_le.1 hle))

/-- `std::next` of an element of a list. -/
def nextOf (queueId : WifiContainerQueueId) (l : List WifiMacQueueElem) (id : ℕ) : ElemIterator :=
  match (l.dropWhile (·.id ≠ id)).tail.head? with
  | some e => .elem e.id
  | none => .queueEnd queueId

theorem nextOf_eq (hnodup : ((a ++ e :: b).map (·.id)).Nodup) :
    nextOf queueId (a ++ e :: b) e.id = match b.head? with
      | some x => .elem x.id
      | none => .queueEnd queueId := by
  have hafter := (before_after hnodup).2
  rw [ElemIterator.after] at hafter
  rw [nextOf, hafter, List.tail_cons]

theorem filter_append_cons (hnodup : ((a ++ e :: b).map (·.id)).Nodup) :
    (a ++ e :: b).filter (·.id ≠ e.id) = a ++ b := by
  rw [List.map_append, List.map_cons] at hnodup
  have ha : ∀ y ∈ a, (decide (y.id ≠ e.id)) = true := fun y hy => decide_eq_true fun heq =>
    List.disjoint_of_nodup_append hnodup (List.mem_map_of_mem hy) (heq ▸ List.mem_cons_self)
  have hb : ∀ y ∈ b, (decide (y.id ≠ e.id)) = true := fun y hy => decide_eq_true fun heq =>
    (List.nodup_cons.1 hnodup.of_append_right).1 (List.mem_map.2 ⟨y, hy, heq⟩)
  rw [List.filter_append, List.filter_cons_of_neg (by simp), List.filter_eq_self.2 ha,
    List.filter_eq_self.2 hb]

/-- Only one decomposition is around an element. -/
theorem exposesNext_iff (now : Time) (hnodup : ((a ++ e :: b).map (·.id)).Nodup) :
    ExposesNext now (a ++ e :: b) e.id ↔
      ∃ x ∈ b.head?, x.isExpired now = true ∧ ∀ y ∈ a, y.isStale now = true := by
  constructor
  · rintro ⟨a', e', x, b', heq, hid, hexpired, hall⟩
    obtain ⟨hbefore, hafter⟩ := before_after hnodup
    have hnodup' := hnodup
    rw [heq] at hnodup'
    obtain ⟨hbefore', hafter'⟩ := before_after hnodup'
    rw [← heq, hid, hbefore] at hbefore'
    rw [← heq, hid, hafter] at hafter'
    obtain ⟨-, rfl⟩ := List.cons.inj hafter'
    exact ⟨x, rfl, hexpired, hbefore' ▸ hall⟩
  · rintro ⟨x, hx, hexpired, hall⟩
    obtain ⟨b', rfl⟩ := List.head?_eq_some_iff.1 hx
    exact ⟨a, e, x, b', rfl, rfl, hexpired, hall⟩

/-- The MPDU at the position is dropped : the place is right if the next one stays. -/
theorem placed_next_iff (hnodup : ((a ++ e :: b).map (·.id)).Nodup) :
    Placed queueId (a ++ e :: b) (kept now ((a ++ e :: b).filter (·.id ≠ e.id))) (.elem e.id)
      (nextOf queueId (a ++ e :: b) e.id) item ↔ ¬ ExposesNext now (a ++ e :: b) e.id := by
  rw [filter_append_cons hnodup, nextOf_eq hnodup, exposesNext_iff now hnodup]
  cases b with
  | nil =>
    refine iff_of_true (placed_end ?_) (by simp)
    rw [(before_after hnodup).1, List.append_nil]
    exact kept_sublist now a
  | cons x b =>
    have hsub : (a ++ x :: b).Sublist (a ++ e :: x :: b) :=
      (List.sublist_cons_self e _).append_left a
    have hnodup' := hnodup.sublist (hsub.map _)
    have hiff := mem_kept_iff now hnodup'.of_map
    simp only [List.head?_cons, Option.mem_def, Option.some.injEq, exists_eq_left']
    rw [← hiff]
    refine ⟨fun hplaced => ?_, placed_next hnodup (kept_sublist now _)⟩
    by_contra hnot
    refine not_placed_of_notMem (fun y hy heq => hnot ?_) hplaced
    exact List.inj_on_of_nodup_map hnodup' ((kept_sublist now _).subset hy)
      (List.mem_append_right _ List.mem_cons_self) heq ▸ hy

/-- Another MPDU is dropped : the element at the position stays. -/
theorem placed_filter (hnodup : (l.map (·.id)).Nodup) (he : e ∈ l) (hne : e.id ≠ id)
    (hlive : e.isExpired now = false) :
    Placed queueId l (kept now (l.filter (·.id ≠ id))) (.elem e.id) (.elem e.id) item := by
  refine placed_of_mem hnodup ((kept_sublist now _).trans List.filter_sublist) ?_
  exact mem_kept_of_not_isExpired (List.mem_filter.2 ⟨he, decide_eq_true hne⟩) hlive

/-- The second MPDU is at the position, and the first is dropped : the begin of the queue, moved on,
is the position that was given. -/
def SecondKept (now : Time) (l : List WifiMacQueueElem) (pos : ElemIterator) (id : ℕ) : Prop :=
  ∃ f e r, l = f :: e :: r ∧ id = f.id ∧ pos = .elem e.id ∧ ¬ ExposesNext now l id

/-- If the position is not corrected, the place is right if the MPDU at it is not dropped, or
the next one stays. -/
theorem placed_dropped_of_live (hnodup : (l.map (·.id)).Nodup) (he : e ∈ l)
    (hlive : e.isExpired now = false) (id : ℕ) :
    Placed queueId l (kept now (l.filter (·.id ≠ id))) (.elem e.id)
        (if ElemIterator.elem e.id = .elem id then nextOf queueId l id else .elem e.id) item ↔
      (e.id = id → ¬ ExposesNext now l id) := by
  split_ifs with heq
  · obtain rfl := ElemIterator.elem.inj heq
    obtain ⟨a, b, rfl⟩ := List.append_of_mem he
    rw [placed_next_iff hnodup]
    simp
  · have hne : e.id ≠ id := fun h => heq (congrArg _ h)
    exact iff_of_true (placed_filter hnodup he hne hlive) fun h => absurd h hne

/-- If the position is moved to the begin of the queue, the place is right only if the MPDU there is
dropped, and the next one, which stays, is the one at the position given. -/
theorem placed_dropped_head (hnodup : ((f :: l).map (·.id)).Nodup)
    (hitem : ∀ y ∈ f :: l, y.id ≠ item.id) (he : e ∈ l) (id : ℕ) :
    Placed queueId (f :: l) (kept now ((f :: l).filter (·.id ≠ id))) (.elem e.id)
        (if ElemIterator.elem f.id = .elem id then nextOf queueId (f :: l) id else .elem f.id)
        item ↔ SecondKept now (f :: l) (.elem e.id) id := by
  have hsub : ∀ id, (kept now ((f :: l).filter (·.id ≠ id))).Sublist (f :: l) := fun id =>
    (kept_sublist now _).trans List.filter_sublist
  split_ifs with heq
  · obtain rfl := ElemIterator.elem.inj heq
    have hne : f.id ≠ e.id := fun h =>
      (List.nodup_cons.1 hnodup).1 (List.mem_map.2 ⟨e, he, h.symm⟩)
    cases l with
    | nil => exact absurd he List.not_mem_nil
    | cons x r =>
      have hnext : nextOf queueId (f :: x :: r) f.id = .elem x.id := nextOf_eq (a := []) hnodup
      have hexposes := exposesNext_iff now (a := []) (e := f) (b := x :: r) hnodup
      rw [hnext]
      by_cases hx : x = e
      · subst hx
        have hsecond : SecondKept now (f :: x :: r) (.elem x.id) f.id ↔
            ¬ ExposesNext now (f :: x :: r) f.id := by
          refine ⟨?_, fun hnot => ⟨f, x, r, rfl, rfl, rfl, hnot⟩⟩
          rintro ⟨f', e', r', -, -, -, hnot⟩
          exact hnot
        have hfilter : (f :: x :: r).filter (·.id ≠ f.id) = x :: r :=
          filter_append_cons (a := []) hnodup
        have hrest := hnodup.sublist ((List.sublist_cons_self f (x :: r)).map _)
        have hkept : x ∈ kept now (x :: r) ↔
            ¬ (x.isExpired now = true ∧ ∀ y ∈ [], WifiMacQueueElem.isStale now y = true) :=
          mem_kept_iff now (a := []) hrest.of_map
        have hexposes' : ExposesNext now (f :: x :: r) f.id ↔
            x.isExpired now = true ∧ ∀ y ∈ [], WifiMacQueueElem.isStale now y = true :=
          hexposes.trans (by simp)
        rw [hsecond, hexposes', ← hkept, hfilter]
        refine ⟨fun hplaced => ?_, placed_of_mem hnodup
          ((kept_sublist now _).trans (List.sublist_cons_self f _))⟩
        by_contra hnot
        refine not_placed_of_notMem (fun y hy hid => hnot ?_) hplaced
        exact List.inj_on_of_nodup_map hrest ((kept_sublist now _).subset hy) List.mem_cons_self
          hid ▸ hy
      · have hxe : x.id ≠ e.id := fun h => hx (List.inj_on_of_nodup_map hnodup
          (List.mem_cons_of_mem f List.mem_cons_self) (List.mem_cons_of_mem f he) h)
        refine iff_of_false (not_placed_of_before hnodup (hsub _) hitem ?_
          (before_append_after _ _)) ?_
        · have hbefore : (ElemIterator.elem e.id).before (f :: x :: r) =
              f :: x :: r.takeWhile (·.id ≠ e.id) := by
            simp [ElemIterator.before, hne, hxe]
          rw [hbefore]
          exact List.mem_cons_of_mem f List.mem_cons_self
        · rintro ⟨f', e', r', hl, -, hpos, -⟩
          obtain ⟨-, hl⟩ := List.cons.inj hl
          obtain ⟨rfl, -⟩ := List.cons.inj hl
          exact hxe (ElemIterator.elem.inj hpos).symm
  · refine iff_of_false (not_placed_head hnodup (hsub id) hitem he) ?_
    rintro ⟨f', e', r', hl, rfl, -, -⟩
    exact heq (congrArg _ (congrArg _ (List.cons.inj hl).1))

theorem SecondKept.ne (hnodup : (l.map (·.id)).Nodup) (h : SecondKept now l (.elem e.id) id) :
    e.id ≠ id := by
  obtain ⟨f, x, r, rfl, rfl, hpos, -⟩ := h
  rw [ElemIterator.elem.inj hpos]
  intro heq
  exact (List.nodup_cons.1 hnodup).1 (List.mem_map.2 ⟨x, List.mem_cons_self, heq⟩)

/-- If an MPDU is dropped, nothing having expired that an extraction finds. -/
theorem placed_dropped_iff (hnodup : ((f :: l).map (·.id)).Nodup)
    (hitem : ∀ y ∈ f :: l, y.id ≠ item.id) (hsettled : removed now (f :: l) = [])
    (he : e ∈ f :: l) (id : ℕ) :
    Placed queueId (f :: l) (kept now ((f :: l).filter (·.id ≠ id))) (.elem e.id)
        (if fixPos now e (.elem f.id) = .elem id then nextOf queueId (f :: l) id
        else fixPos now e (.elem f.id)) item ↔
      PosKept now (f :: l) (.elem e.id) ∧ (e.id = id → ¬ ExposesNext now (f :: l) id) ∨
        SecondKept now (f :: l) (.elem e.id) id := by
  have hsecond : SecondKept now (f :: l) (.elem e.id) id →
      e.id = id → ¬ ExposesNext now (f :: l) id := fun h heq => absurd heq (h.ne hnodup)
  rw [posKept_iff hnodup he]
  by_cases hle : e.expiryTime ≤ now
  · have hnot : ¬ now < e.expiryTime := not_lt.2 hle
    rw [fixPos, if_pos hle]
    rcases List.mem_cons.1 he with rfl | hmem
    · have hlive : e.isExpired now = false := by
        by_contra hexpired
        rw [Bool.not_eq_false] at hexpired
        have hrem : e ∈ removed now (e :: l) := by
          rw [removed, List.takeWhile_cons_of_pos (WifiMacQueueElem.isStale_of_isExpired hexpired)]
          exact List.mem_filter.2 ⟨List.mem_cons_self, hexpired⟩
        rw [hsettled] at hrem
        exact List.not_mem_nil hrem
      have hfly : e.isInFlight = true := by
        rw [isExpired_of_le hle, Bool.not_eq_false'] at hlive
        exact hlive
      rw [placed_dropped_of_live hnodup he hlive id]
      exact ⟨fun h => Or.inl ⟨Or.inr ⟨rfl, hfly⟩, h⟩, fun h => h.elim And.right hsecond⟩
    · rw [placed_dropped_head hnodup hitem hmem id]
      refine ⟨Or.inr, fun h => h.resolve_left ?_⟩
      rintro ⟨hlt | ⟨hhead, -⟩, -⟩
      · exact hnot hlt
      · obtain rfl := Option.some.inj hhead
        exact (List.nodup_cons.1 hnodup.of_map).1 hmem
  · have hlt := not_le.1 hle
    rw [fixPos, if_neg hle, placed_dropped_of_live hnodup he (isExpired_of_lt hlt) id]
    exact ⟨fun h => Or.inl ⟨Or.inl hlt, h⟩, fun h => h.elim And.right hsecond⟩

end WifiMacQueueContainer

/-! ## What `Insert` passes to the container -/

namespace WifiMacQueue

open WifiMacQueueContainer

variable {orders : QueueOrders} {s t : WifiMacQueue} {ids : List ℕ} {m : WifiMacQueueElem}
  {drop : DropChoice} {pos' : ElemIterator}

/-- The position is in the container queue of the MPDU. -/
def ValidPos (s : WifiMacQueue) (queueId : WifiContainerQueueId) (pos : ElemIterator) : Prop :=
  pos = .queueEnd queueId ∨ ∃ e ∈ s.container.queues queueId, pos = .elem e.id

theorem stalePos_end (s : WifiMacQueue) (item : WifiMacQueueElem) :
    s.stalePos (.queueEnd item.queueId) item = some (.queueEnd item.queueId) :=
  if_pos rfl

theorem stalePos_elem (h : QueueInv ids s) (he : e ∈ s.container.queues item.queueId) :
    s.stalePos (.elem e.id) item =
      some (if e.expiryTime ≤ s.now then s.begin item.queueId else .elem e.id) := by
  have hmem := h.counted.container.mem_elems_of_mem_queue he
  have hqueue := (h.counted.container.queued _ e he).1
  rw [stalePos, if_neg (by simp)]
  rw [h.counted.container.find?_eq hmem, Option.bind_some, if_neg (by simp [hqueue])]
  split_ifs <;> rfl

/-- There is room after the expired MPDUs have been removed, or room is made for a control frame :
the scheduler drops nothing. -/
theorem insertPos_of_room (orders : QueueOrders) (drop : DropChoice) (h : QueueInv ids s)
    (hfull : ¬ s.nPackets < s.maxSize) (hpos : s.stalePos pos item = some pos')
    (hroom : item.isCtl = true ∨ ¬ s.NothingToWipe) :
    ∃ t, s.insertPos orders drop pos item = some (t, some pos') ∧
      ∀ q, t.container.queues q = kept s.now (s.container.queues q) := by
  obtain ⟨ids', t, ht, -, hinv, hqueues, -, -, hsize, hwipe, hle⟩ := h.wipeAllExpiredMpdus orders
  obtain ⟨hgrow, -⟩ := hinv.grow item
  have hlt : t.nPackets < if item.isCtl then t.maxSize + 1 else t.maxSize := by
    have hs := h.counted.le
    split_ifs with hctl
    · omega
    · have hless := hwipe.2 (hroom.resolve_left hctl)
      omega
  rw [insertPos, if_neg hfull, hpos, Option.bind_some, ht, Option.bind_some, hgrow,
    Option.bind_some, makeRoom]
  dsimp only
  rw [if_pos hlt]
  dsimp only
  rw [roomFor, if_neg (by dsimp only; omega)]
  exact ⟨_, rfl, hqueues⟩

/-- Nothing can be removed, and the scheduler is asked. -/
theorem insertPos_of_full (orders : QueueOrders) (drop : DropChoice) (h : QueueInv ids s)
    (hfull : ¬ s.nPackets < s.maxSize) (hpos : s.stalePos pos item = some pos')
    (hctl : item.isCtl = false) (hnothing : s.NothingToWipe) :
    ∃ ids' t, QueueInv ids' t ∧ t.container.queues = s.container.queues ∧ t.now = s.now ∧
      t.maxSize = s.maxSize ∧ t.nPackets = s.nPackets ∧ s.insertPos orders drop pos item =
        match drop with
        | .item => (t.setMaxSize t.maxSize).map fun t => (t, none)
        | .nothing => t.roomFor t.maxSize pos'
        | .queued id => (t.getIt id).bind fun _ => (t.dropPos pos' item.queueId id).bind fun pos =>
          (t.doRemove orders id).bind fun u => u.roomFor t.maxSize pos := by
  obtain ⟨ids', t, ht, -, hinv, hqueues, -, hnow, hsize, hwipe, hle⟩ := h.wipeAllExpiredMpdus orders
  obtain ⟨hgrow, -⟩ := hinv.grow item
  have hsame : t.nPackets = s.nPackets := by
    have hnot := mt hwipe.1 (not_not.2 hnothing)
    omega
  have hgrow' : t.grow item = some t := by
    rw [grow, hctl]
    rfl
  refine ⟨ids', t, hinv, ?_, hnow, hsize, hsame, ?_⟩
  · funext q
    rw [hqueues]
    exact kept_of_removed_eq_nil (hnothing.2 q)
  · rw [insertPos, if_neg hfull, hpos, Option.bind_some, ht, Option.bind_some, hgrow',
      Option.bind_some, makeRoom]
    cases drop <;> rw [if_neg (by omega)]

/-- The new MPDU is dropped. -/
theorem insertPos_of_declined (orders : QueueOrders) (h : QueueInv ids s)
    (hfull : ¬ s.nPackets < s.maxSize) (hpos : s.stalePos pos item = some pos')
    (hctl : item.isCtl = false) (hnothing : s.NothingToWipe)
    (hdrop : drop = .item ∨ drop = .nothing) :
    ∃ t, s.insertPos orders drop pos item = some (t, none) ∧
      t.container.queues = s.container.queues := by
  obtain ⟨ids', t, hinv, hqueues, -, hsize, hn, heq⟩ :=
    insertPos_of_full orders drop h hfull hpos hctl hnothing
  have hle := hinv.counted.le
  have hset : ∃ u, t.setMaxSize t.maxSize = some u ∧ u.container = t.container := by
    rw [setMaxSize]
    split_ifs with hzero hlt
    · exact ⟨t, rfl, rfl⟩
    · omega
    · exact ⟨_, rfl, rfl⟩
  obtain ⟨u, hu, hcontainer⟩ := hset
  refine ⟨u, ?_, by rw [hcontainer, hqueues]⟩
  rw [heq]
  rcases hdrop with rfl | rfl
  · dsimp only
    rw [hu, Option.map_some]
  · dsimp only
    rw [roomFor, if_pos (by omega), hu, Option.map_some]

/-- A queued MPDU is dropped. If it is a control frame, its room goes with it, unless it is the only
room. -/
theorem insertPos_of_dropped (orders : QueueOrders) (h : QueueInv ids s)
    (hfull : ¬ s.nPackets < s.maxSize) (hpos : s.stalePos pos item = some pos')
    (hvalid : s.ValidPos item.queueId pos')
    (hctl : item.isCtl = false) (hnothing : s.NothingToWipe)
    (hm : m ∈ s.container.queues m.queueId) :
    ∃ t, s.insertPos orders (.queued m.id) pos item = some (t,
        if m.isCtl ∧ s.maxSize ≠ 1 then none
        else some (if pos' = .elem m.id then s.next item.queueId m.id else pos')) ∧
      ∀ q, t.container.queues q =
        kept s.now ((s.container.queues q).filter (·.id ≠ m.id)) := by
  obtain ⟨ids', t, hinv, hqueues, hnow, hsize, hn, heq⟩ :=
    insertPos_of_full orders (.queued m.id) h hfull hpos hctl hnothing
  have hmt : m ∈ t.container.queues m.queueId := hqueues ▸ hm
  have hmem := hinv.counted.container.mem_elems_of_mem_queue hmt
  have hget : t.getIt m.id = some m := by
    rw [getIt, hinv.counted.container.find?_eq hmem]
  have hnext : t.next item.queueId m.id = s.next item.queueId m.id := by
    rw [next, next, hqueues]
  have hdrop : t.dropPos pos' item.queueId m.id =
      some (if pos' = .elem m.id then s.next item.queueId m.id else pos') := by
    rcases hvalid with rfl | ⟨y, hy, rfl⟩
    · rw [dropPos]
      simp
    · have hyt : y ∈ t.container.queues item.queueId := hqueues ▸ hy
      rw [dropPos]
      rw [hinv.counted.container.find?_eq (hinv.counted.container.mem_elems_of_mem_queue hyt),
        Option.map_some, hnext]
      simp
  obtain ⟨t', u, hu, htaken, -, hnotified, hsize', hinv'⟩ := hinv.doRemove orders hmem
  have hqueues' : ∀ q, u.container.queues q =
      kept s.now ((s.container.queues q).filter (·.id ≠ m.id)) := by
    intro q
    rw [hnotified.extracted.queues, htaken.queues, hqueues, htaken.now, hnow]
    split_ifs with hq
    · rfl
    · have hnot : m ∉ t.container.queues q := fun hmq =>
        hq (List.mem_singleton.2 (hinv.counted.container.queued q m hmq).1.symm)
      have hfilter := hinv.counted.container.filter_of_notMem hmem
        (fun e he => hinv.counted.container.mem_elems_of_mem_queue he) hnot
      rw [hqueues] at hfilter
      rw [hfilter]
      exact (kept_of_removed_eq_nil (hnothing.2 q)).symm
  have hid : m.id ∈ ids' := hinv.counted.container.perm.subset (List.mem_map_of_mem hmem)
  have hlen := List.length_erase_of_mem hid
  have hpos' := List.length_pos_of_mem hid
  have hn' := hinv.counted.nPackets
  have hn'' := hinv'.counted.nPackets
  have hle := hinv.counted.le
  rw [heq]
  dsimp only
  rw [hget, Option.bind_some, hdrop, Option.bind_some, hu, Option.bind_some, roomFor, hsize',
    shrunkSize, hsize]
  by_cases hroom : m.isCtl = true ∧ s.maxSize ≠ 1
  · rw [if_pos hroom, if_pos (by omega), if_pos hroom, setMaxSize, if_neg (by omega),
      if_neg (by omega), Option.map_some]
    exact ⟨_, rfl, hqueues'⟩
  · rw [if_neg hroom, if_neg (by omega), if_neg hroom]
    exact ⟨_, rfl, hqueues'⟩

/-- If a position is passed to the container, it is one of the queue of the MPDU. The MPDUs
that survive stay in order, and the new one is put behind those that stood before the given
position, and before the others. -/
def PassesPlace (orders : QueueOrders) (s : WifiMacQueue) (drop : DropChoice) (pos : ElemIterator)
    (item : WifiMacQueueElem) : Prop :=
  ∃ t found, s.insertPos orders drop pos item = some (t, found) ∧
    (∀ q, (t.container.queues q).Sublist (s.container.queues q)) ∧
    ∀ pos' ∈ found, WifiMacQueueContainer.Placed item.queueId
      (s.container.queues item.queueId) (t.container.queues item.queueId) pos pos' (t.stamp item)

/-- The scheduler is asked what to drop : nothing has expired that can be removed. -/
def Asked (s : WifiMacQueue) (item : WifiMacQueueElem) : Prop :=
  item.isCtl = false ∧ s.NothingToWipe

/-- The answer of the scheduler makes no room. -/
def NoRoom (s : WifiMacQueue) (drop : DropChoice) : Prop :=
  drop = .item ∨ drop = .nothing ∨
    ∃ m ∈ s.container.elems, drop = .queued m.id ∧ m.isCtl = true ∧ s.maxSize ≠ 1

/-- When the position is corrected as it should be. -/
def KeepsPlace (s : WifiMacQueue) (drop : DropChoice) (pos : ElemIterator)
    (item : WifiMacQueueElem) : Prop :=
  s.Asked item ∧ s.NoRoom drop ∨
    PosKept s.now (s.container.queues item.queueId) pos ∧ (s.Asked item → ∀ id, drop = .queued id →
      pos = .elem id → ¬ ExposesNext s.now (s.container.queues item.queueId) id) ∨
    s.Asked item ∧ ∃ id, drop = .queued id ∧
      SecondKept s.now (s.container.queues item.queueId) pos id

theorem passesPlace_iff (ht : s.insertPos orders drop pos item = some (t, some pos'))
    (hsub : ∀ q, (t.container.queues q).Sublist (s.container.queues q)) :
    PassesPlace orders s drop pos item ↔ WifiMacQueueContainer.Placed item.queueId
      (s.container.queues item.queueId) (t.container.queues item.queueId) pos pos'
      (t.stamp item) := by
  constructor
  · rintro ⟨u, found, hu, -, hplaced⟩
    obtain ⟨rfl, rfl⟩ := Prod.mk.inj (Option.some.inj (ht.symm.trans hu))
    exact hplaced pos' rfl
  · refine fun hplaced => ⟨t, _, ht, hsub, fun p hp => ?_⟩
    obtain rfl := Option.some.inj hp
    exact hplaced

theorem passesPlace_of_none (ht : s.insertPos orders drop pos item = some (t, none))
    (hsub : ∀ q, (t.container.queues q).Sublist (s.container.queues q)) :
    PassesPlace orders s drop pos item :=
  ⟨t, none, ht, hsub, fun p hp => absurd hp (by simp)⟩

theorem QueueInv.queue_facts (h : QueueInv ids s) (hnew : item.id ∉ ids)
    (queueId : WifiContainerQueueId) : ((s.container.queues queueId).map (·.id)).Nodup ∧
      ∀ y ∈ s.container.queues queueId, y.id ≠ item.id := by
  refine ⟨h.counted.container.nodup_queue queueId, fun y hy heq => hnew ?_⟩
  have hmem := h.counted.container.mem_elems_of_mem_queue hy
  exact heq ▸ h.counted.container.perm.subset (List.mem_map_of_mem hmem)

theorem stalePos_fixPos (h : QueueInv ids s) {l : List WifiMacQueueElem}
    (hl : s.container.queues item.queueId = f :: l) (he : e ∈ f :: l) :
    s.stalePos (.elem e.id) item = some (fixPos s.now e (.elem f.id)) := by
  rw [stalePos_elem h (hl ▸ he), begin, head?, hl]
  rfl

theorem validPos_fixPos {l : List WifiMacQueueElem} (hl : s.container.queues queueId = f :: l)
    (he : e ∈ f :: l) : s.ValidPos queueId (fixPos s.now e (.elem f.id)) := by
  rw [fixPos]
  split_ifs
  · exact Or.inr ⟨f, hl ▸ List.mem_cons_self, rfl⟩
  · exact Or.inr ⟨e, hl ▸ he, rfl⟩

/-- The first correction leaves a position of the queue. -/
theorem QueueInv.exists_stalePos (h : QueueInv ids s) (hpos : s.ValidPos item.queueId pos) :
    ∃ p, s.stalePos pos item = some p ∧ s.ValidPos item.queueId p := by
  rcases hpos with rfl | ⟨e, he, rfl⟩
  · exact ⟨_, stalePos_end s item, Or.inl rfl⟩
  · obtain ⟨f, l, hl⟩ := List.exists_cons_of_ne_nil (List.ne_nil_of_mem he)
    rw [hl] at he
    exact ⟨_, stalePos_fixPos h hl he, validPos_fixPos hl he⟩

/-- If the scheduler is not asked. -/
theorem QueueInv.passesPlace_of_room (orders : QueueOrders) (drop : DropChoice) (h : QueueInv ids s)
    (hnew : item.id ∉ ids) (hfull : ¬ s.nPackets < s.maxSize)
    (hpos : s.ValidPos item.queueId pos) (hasked : ¬ s.Asked item) :
    PassesPlace orders s drop pos item ↔
      PosKept s.now (s.container.queues item.queueId) pos := by
  obtain ⟨hnodup, hitem⟩ := h.queue_facts hnew item.queueId
  have hroom : item.isCtl = true ∨ ¬ s.NothingToWipe := by
    by_contra hnot
    obtain ⟨hctl, hwipe⟩ := not_or.1 hnot
    exact hasked ⟨Bool.eq_false_of_not_eq_true hctl, not_not.1 hwipe⟩
  have hsub : ∀ q, (kept s.now (s.container.queues q)).Sublist (s.container.queues q) :=
    fun q => kept_sublist _ _
  rcases hpos with rfl | ⟨e, he, rfl⟩
  · obtain ⟨t, ht, hqueues⟩ :=
      insertPos_of_room orders drop h hfull (stalePos_end s item) hroom
    rw [WifiMacQueue.passesPlace_iff ht fun q => hqueues q ▸ hsub q, hqueues]
    exact iff_of_true (placed_end (hsub _)) fun e _ heq => ElemIterator.noConfusion heq
  · obtain ⟨f, l, hl⟩ := List.exists_cons_of_ne_nil (List.ne_nil_of_mem he)
    rw [hl] at he hnodup hitem
    obtain ⟨t, ht, hqueues⟩ :=
      insertPos_of_room orders drop h hfull (stalePos_fixPos h hl he) hroom
    rw [WifiMacQueue.passesPlace_iff ht fun q => hqueues q ▸ hsub q, hqueues, hl]
    exact placed_fixPos_iff hnodup hitem he

/-- If the scheduler names a queued MPDU. -/
theorem QueueInv.passesPlace_of_dropped (orders : QueueOrders) (h : QueueInv ids s)
    (hnew : item.id ∉ ids) (hfull : ¬ s.nPackets < s.maxSize)
    (hpos : s.ValidPos item.queueId pos) (hasked : s.Asked item)
    (hm : m ∈ s.container.queues m.queueId) (hroom : ¬ (m.isCtl = true ∧ s.maxSize ≠ 1)) :
    PassesPlace orders s (.queued m.id) pos item ↔
      PosKept s.now (s.container.queues item.queueId) pos ∧ (pos = .elem m.id →
        ¬ ExposesNext s.now (s.container.queues item.queueId) m.id) ∨
      SecondKept s.now (s.container.queues item.queueId) pos m.id := by
  obtain ⟨hnodup, hitem⟩ := h.queue_facts hnew item.queueId
  have hsub : ∀ q, (kept s.now ((s.container.queues q).filter (·.id ≠ m.id))).Sublist
      (s.container.queues q) := fun q => (kept_sublist _ _).trans List.filter_sublist
  rcases hpos with rfl | ⟨e, he, rfl⟩
  · obtain ⟨t, ht, hqueues⟩ := insertPos_of_dropped orders h hfull (stalePos_end s item)
      (Or.inl rfl) hasked.1 hasked.2 hm
    rw [if_neg hroom, if_neg (by simp)] at ht
    rw [WifiMacQueue.passesPlace_iff ht fun q => hqueues q ▸ hsub q, hqueues]
    exact iff_of_true (placed_end (hsub _))
      (Or.inl ⟨fun e _ heq => ElemIterator.noConfusion heq,
        fun heq => ElemIterator.noConfusion heq⟩)
  · obtain ⟨f, l, hl⟩ := List.exists_cons_of_ne_nil (List.ne_nil_of_mem he)
    have hvalid := validPos_fixPos hl (hl ▸ he)
    have hsettled := hasked.2.2 item.queueId
    rw [Settled, hl] at hsettled
    rw [hl] at he hnodup hitem
    obtain ⟨t, ht, hqueues⟩ := insertPos_of_dropped orders h hfull (stalePos_fixPos h hl he)
      hvalid hasked.1 hasked.2 hm
    have hnext : s.next item.queueId m.id = nextOf item.queueId (f :: l) m.id := by
      rw [← hl]
      rfl
    have hstamp : ∀ y ∈ f :: l, y.id ≠ (t.stamp item).id := hitem
    rw [if_neg hroom, hnext] at ht
    rw [WifiMacQueue.passesPlace_iff ht fun q => hqueues q ▸ hsub q, hqueues, hl,
      placed_dropped_iff hnodup hstamp hsettled he m.id, ElemIterator.elem.injEq]

theorem QueueInv.passesPlace_iff (orders : QueueOrders) (h : QueueInv ids s)
    (hnew : item.id ∉ ids) (hfull : ¬ s.nPackets < s.maxSize)
    (hpos : s.ValidPos item.queueId pos)
    (hdrop : ∀ id, drop = .queued id →
      ∃ q, ∃ m ∈ kept s.now (s.container.queues q), m.id = id) :
    PassesPlace orders s drop pos item ↔ s.KeepsPlace drop pos item := by
  by_cases hasked : s.Asked item
  · obtain ⟨p, hp, hvalid⟩ := h.exists_stalePos hpos
    have hdeclined : drop = .item ∨ drop = .nothing →
        (PassesPlace orders s drop pos item ↔ s.KeepsPlace drop pos item) := by
      intro hnone
      obtain ⟨t, ht, hqueues⟩ := insertPos_of_declined orders h hfull hp hasked.1 hasked.2 hnone
      refine iff_of_true (passesPlace_of_none ht fun q => hqueues ▸ List.Sublist.refl _)
        (Or.inl ⟨hasked, ?_⟩)
      exact hnone.elim Or.inl fun heq => Or.inr (Or.inl heq)
    cases hchoice : drop with
    | item => exact hchoice ▸ hdeclined (Or.inl hchoice)
    | nothing => exact hchoice ▸ hdeclined (Or.inr hchoice)
    | queued id =>
      obtain ⟨q, m, hkept, rfl⟩ := hdrop id hchoice
      have hmq := (kept_sublist _ _).subset hkept
      obtain ⟨rfl, -⟩ := h.counted.container.queued q m hmq
      have hmem := h.counted.container.mem_elems_of_mem_queue hmq
      by_cases hroom : m.isCtl = true ∧ s.maxSize ≠ 1
      · obtain ⟨t, ht, hqueues⟩ :=
          insertPos_of_dropped orders h hfull hp hvalid hasked.1 hasked.2 hmq
        rw [if_pos hroom] at ht
        refine iff_of_true (passesPlace_of_none ht fun q => ?_)
          (Or.inl ⟨hasked, Or.inr (Or.inr ⟨m, hmem, rfl, hroom⟩)⟩)
        rw [hqueues]
        exact (kept_sublist _ _).trans List.filter_sublist
      · rw [h.passesPlace_of_dropped orders hnew hfull hpos hasked hmq hroom, KeepsPlace]
        constructor
        · rintro (⟨hkept, hstays⟩ | hsecond)
          · refine Or.inr (Or.inl ⟨hkept, fun _ id heq hat => ?_⟩)
            obtain rfl := DropChoice.queued.inj heq
            exact hstays hat
          · exact Or.inr (Or.inr ⟨hasked, m.id, rfl, hsecond⟩)
        · rintro (⟨-, hnoRoom⟩ | ⟨hkept, hstays⟩ | ⟨-, id, heq, hsecond⟩)
          · rcases hnoRoom with hitem | hnothing | ⟨m', hm', heq, hctl⟩
            · cases hitem
            · cases hnothing
            · have hsame := List.inj_on_of_nodup_map h.counted.container.nodup_elems hmem hm'
                (DropChoice.queued.inj heq)
              exact absurd (hsame ▸ hctl) hroom
          · exact Or.inl ⟨hkept, fun hat => hstays hasked m.id rfl hat⟩
          · obtain rfl := DropChoice.queued.inj heq
            exact Or.inr hsecond
  · rw [h.passesPlace_of_room orders drop hnew hfull hpos hasked, KeepsPlace]
    refine ⟨fun hkept => Or.inr (Or.inl ⟨hkept, fun h => absurd h hasked⟩), ?_⟩
    rintro (⟨h, -⟩ | ⟨hkept, -⟩ | ⟨h, -⟩)
    · exact absurd h hasked
    · exact hkept
    · exact absurd h hasked

end WifiMacQueue

namespace MacQueueRun

open WifiMacQueue WifiMacQueueContainer

end MacQueueRun

end Ns3Pedca
