import Ns3Pedca.Lanes
import Ns3Pedca.TrafficControl.FqCoDelQueueDisc

/-!
# The order of a flow

Packets with the same flow hash leave FQ-CoDel in the order in which they are enqueued
(`dequeue_order`), as long as a packet is classified into the queue that holds the packets of its
hash (`Homed`). Without the set associative hash that is always so (`steady_of_modulo`). With it, a
queue of the set that has become inactive is taken before the queue that is tagged with the flow and
still holds its packets (`not_dequeue_order`).
-/

namespace Ns3Pedca

/-! ## A CoDel queue -/

theorem QueueDiscItem.mark_packet {item marked : QueueDiscItem} (h : item.mark = some marked) :
    marked.packet = item.packet := by
  rw [QueueDiscItem.mark] at h
  split at h
  · cases h
  · split_ifs at h
    rw [← Option.some.inj h]

namespace CoDelQueueDisc

/-- What is taken from a queue : the item that is returned was in front of those that are left,
behind those that were dropped. -/
def Taken (queue : List QueueDiscItem) (r : CoDelQueueDisc × Dequeued) : Prop :=
  match r.2.item with
  | none => r.1.queue <:+ queue
  | some item => ∃ x, item.packet = x.packet ∧ x :: r.1.queue <:+ queue

variable {p : CoDelParams} {now : ℕ} {s : CoDelQueueDisc} {item : QueueDiscItem}
  {queue : List QueueDiscItem}

theorem enterDropping_queue : (s.enterDropping p now).queue = s.queue := by
  unfold enterDropping
  dsimp only
  split_ifs <;> rfl

theorem ecnMark_packet {marked : QueueDiscItem}
    (h : (if p.useEcn then item.mark else none) = some marked) :
    marked.packet = item.packet := by
  split_ifs at h
  exact QueueDiscItem.mark_packet h

theorem Taken.weaken {r : CoDelQueueDisc × Dequeued} {queue' : List QueueDiscItem}
    (h : Taken queue r) (hq : queue <:+ queue') : Taken queue' r := by
  rw [Taken] at h ⊢
  cases hitem : r.2.item with
  | none =>
    rw [hitem] at h
    exact h.trans hq
  | some item =>
    rw [hitem] at h
    obtain ⟨x, hx, hsuffix⟩ := h
    exact ⟨x, hx, hsuffix.trans hq⟩

theorem taken_dropLoop (queue : List QueueDiscItem) :
    ∀ (s : CoDelQueueDisc) (dropped : List QueueDiscItem) (item : QueueDiscItem),
      s.queue = queue → Taken (item :: queue) (s.dropLoop p now queue dropped item) := by
  induction queue with
  | nil =>
    intro s dropped item hq
    cases hdue : s.dropping && coDelTimeAfterEq (coDelGetTime now) s.dropNext with
    | false =>
      rw [dropLoop_of_not_due hdue, ← hq]
      exact ⟨item, rfl, List.suffix_rfl⟩
    | true =>
      cases hm : (if p.useEcn then item.mark else none) with
      | some marked =>
        rw [dropLoop_of_mark hdue hm, ← hq]
        exact ⟨item, ecnMark_packet hm, List.suffix_rfl⟩
      | none =>
        rw [dropLoop_nil hdue hm, ← hq]
        exact List.suffix_cons item s.queue
  | cons next queue ih =>
    intro s dropped item hq
    cases hdue : s.dropping && coDelTimeAfterEq (coDelGetTime now) s.dropNext with
    | false =>
      rw [dropLoop_of_not_due hdue, ← hq]
      exact ⟨item, rfl, List.suffix_rfl⟩
    | true =>
      cases hm : (if p.useEcn then item.mark else none) with
      | some marked =>
        rw [dropLoop_of_mark hdue hm, ← hq]
        exact ⟨item, ecnMark_packet hm, List.suffix_rfl⟩
      | none =>
        rw [dropLoop_cons hdue hm]
        generalize hr : okToDrop p now _ (some next) = r
        have hqueue : r.2.queue = queue := by rw [← hr, okToDrop_queue]
        dsimp only
        split_ifs
        · refine ⟨next, rfl, ?_⟩
          rw [hqueue]
          exact List.suffix_cons _ _
        · refine Taken.weaken (ih _ _ _ ?_) (List.suffix_cons item (next :: queue))
          exact hqueue

theorem taken_firstDrop : Taken (item :: s.queue) (s.firstDrop p now item) := by
  rw [firstDrop]
  cases hm : (if p.useEcn then item.mark else none) with
  | some marked =>
    refine ⟨item, ecnMark_packet hm, ?_⟩
    exact (enterDropping_queue ..).symm ▸ List.suffix_rfl
  | none =>
    rw [pop]
    cases hq : s.queue with
    | nil =>
      change (enterDropping p now (okToDrop p now s none).2).queue <:+ [item]
      rw [enterDropping_queue, okToDrop_queue, hq]
      exact List.nil_suffix
    | cons next queue =>
      refine ⟨next, rfl, ?_⟩
      dsimp only
      rw [enterDropping_queue, okToDrop_queue]
      exact List.suffix_cons _ _

theorem taken_dropPhase : Taken (item :: s.queue) (s.dropPhase p now item) := by
  have hqueue := okToDrop_queue p now s (some item)
  rw [dropPhase]
  dsimp only
  split_ifs
  · exact ⟨item, rfl, by simp [hqueue]⟩
  · rw [← hqueue]
    exact taken_dropLoop _ _ _ _ rfl
  · rw [← hqueue]
    exact taken_firstDrop
  · exact ⟨item, rfl, by simp [hqueue]⟩

theorem packet_endPhase {r r' : Dequeued} (h : endPhase p now r = some r') :
    r'.item.map (·.packet) = r.item.map (·.packet) := by
  obtain ⟨dropped, item, marked⟩ := r
  cases item with
  | none => cases h
  | some item =>
    simp only [endPhase] at h
    split_ifs at h
    · cases hm : item.mark with
      | none =>
        rw [hm] at h
        rw [← Option.some.inj h]
      | some marked =>
        rw [hm] at h
        rw [← Option.some.inj h]
        exact congrArg some (QueueDiscItem.mark_packet hm)
    · rw [← Option.some.inj h]

theorem packet_l4sPhase (p : CoDelParams) (now : ℕ) (item : QueueDiscItem) :
    ∃ x, (l4sPhase p now item).item = some x ∧ x.packet = item.packet := by
  rw [l4sPhase]
  split_ifs
  · cases hm : item.mark with
    | none => exact ⟨item, rfl, rfl⟩
    | some marked => exact ⟨marked, rfl, QueueDiscItem.mark_packet hm⟩
  · exact ⟨item, rfl, rfl⟩

/-- Only the packet of the item that is returned matters. -/
theorem Taken.of_packet {t : CoDelQueueDisc} {r r' : Dequeued} (h : Taken queue (t, r))
    (heq : r'.item.map (·.packet) = r.item.map (·.packet)) : Taken queue (t, r') := by
  obtain ⟨dropped, item, marked⟩ := r
  obtain ⟨dropped', item', marked'⟩ := r'
  cases item with
  | none =>
    obtain rfl : item' = none := Option.map_eq_none_iff.1 heq
    exact h
  | some item =>
    obtain ⟨x, hx, hsuffix⟩ := h
    obtain ⟨item'', rfl, hitem⟩ := Option.map_eq_some_iff.1 heq
    exact ⟨x, hitem.trans hx, hsuffix⟩

theorem taken_doDequeue {r : CoDelQueueDisc × Dequeued} (h : s.doDequeue p now = some r) :
    Taken s.queue r := by
  rw [doDequeue, pop] at h
  cases hq : s.queue with
  | nil =>
    rw [hq] at h
    rw [← Option.some.inj h]
    change s.queue <:+ []
    exact hq.symm ▸ List.suffix_rfl
  | cons item queue =>
    rw [hq] at h
    dsimp only at h
    split_ifs at h
    · obtain ⟨x, hx, hpacket⟩ := packet_l4sPhase p now item
      rw [← Option.some.inj h, Taken, hx]
      exact ⟨item, hpacket, List.suffix_rfl⟩
    · obtain ⟨r', hr', rfl⟩ := Option.map_eq_some_iff.1 h
      exact taken_dropPhase.of_packet (packet_endPhase hr')

end CoDelQueueDisc

namespace FqCoDelQueueDisc

variable {p : FqCoDelParams} {now k : ℕ} {s t : FqCoDelQueueDisc} {item : QueueDiscItem}

/-! ## The packets of the flow queues -/

/-- The packets in a flow queue. -/
def packets (s : FqCoDelQueueDisc) (k : ℕ) : List ℕ :=
  (s.flow k).queueDisc.queue.map (·.packet)

theorem packets_setFlow (hk : k < s.classes.length) (flow : FqCoDelFlow) :
    (s.setFlow k flow).packets =
      Function.update s.packets k (flow.queueDisc.queue.map (·.packet)) := by
  funext j
  rw [packets, FqCoDelQueueDisc.flow, setFlow, List.getD_eq_getElem?_getD]
  rcases eq_or_ne j k with rfl | hj
  · rw [List.getElem?_set_self hk, Function.update_self]
    rfl
  · rw [List.getElem?_set_ne hj.symm, Function.update_of_ne hj]
    rfl

theorem setFlow_of_le (hk : s.classes.length ≤ k) (flow : FqCoDelFlow) : s.setFlow k flow = s := by
  rw [setFlow, List.set_eq_of_length_le hk]

/-- The queues of a state hold no other packets than those of another one, and every queue is in its
place. -/
structure Loses (s t : FqCoDelQueueDisc) : Prop where
  packets : ∀ k, (t.packets k).Sublist (s.packets k)
  flowsIndices : t.flowsIndices = s.flowsIndices

theorem Loses.refl (s : FqCoDelQueueDisc) : Loses s s :=
  ⟨fun _ => List.Sublist.refl _, rfl⟩

theorem Loses.trans {u : FqCoDelQueueDisc} (h : Loses s t) (h' : Loses t u) : Loses s u :=
  ⟨fun k => (h'.packets k).trans (h.packets k), h'.flowsIndices.trans h.flowsIndices⟩

theorem Loses.lists (h : Loses s t) (newFlows oldFlows : List ℕ) :
    Loses s { t with newFlows := newFlows, oldFlows := oldFlows } :=
  ⟨h.packets, h.flowsIndices⟩

/-- A class is changed, and its queue holds fewer packets. -/
theorem loses_setFlow {flow : FqCoDelFlow}
    (h : (flow.queueDisc.queue.map (·.packet)).Sublist (s.packets k)) :
    Loses s (s.setFlow k flow) := by
  rcases Nat.lt_or_ge k s.classes.length with hk | hk
  · refine ⟨?_, rfl⟩
    intro j
    rw [packets_setFlow hk]
    rcases eq_or_ne j k with rfl | hj
    · rw [Function.update_self]
      exact h
    · rw [Function.update_of_ne hj]
  · rw [setFlow_of_le hk]
    exact Loses.refl s

theorem packets_setFlow_of_queue {flow : FqCoDelFlow}
    (h : flow.queueDisc.queue = (s.flow k).queueDisc.queue) :
    (s.setFlow k flow).packets = s.packets := by
  rcases Nat.lt_or_ge k s.classes.length with hk | hk
  · rw [packets_setFlow hk, h]
    exact Function.update_eq_self k s.packets
  · rw [setFlow_of_le hk]

/-! ## Dequeueing -/

theorem loses_increaseDeficit (deficit : Int32) : Loses s (s.increaseDeficit k deficit) := by
  refine loses_setFlow ?_
  exact List.Sublist.refl _

theorem loses_setStatus (status : FlowStatus) : Loses s (s.setStatus k status) := by
  refine loses_setFlow ?_
  exact List.Sublist.refl _

theorem loses_retire : Loses s (s.retire k) := by
  rw [retire]
  split
  · exact (loses_setStatus .oldFlow).lists _ _
  · exact (loses_setStatus .inactive).lists _ _

theorem dequeueFlow_none (h : s.dequeueFlow p now k = some (t, none)) : Loses s t := by
  rw [dequeueFlow] at h
  obtain ⟨r, hr, heq⟩ := Option.map_eq_some_iff.1 h
  obtain ⟨rfl, hitem⟩ := Prod.mk.inj heq
  have htaken := CoDelQueueDisc.taken_doDequeue hr
  rw [CoDelQueueDisc.Taken, hitem] at htaken
  exact loses_setFlow (htaken.sublist.map _)

theorem dequeueFlow_some (h : s.dequeueFlow p now k = some (t, some item)) :
    ∃ lane, (item.packet :: lane).Sublist (s.packets k) ∧
      t.packets = Function.update s.packets k lane ∧ t.flowsIndices = s.flowsIndices := by
  rw [dequeueFlow] at h
  obtain ⟨r, hr, heq⟩ := Option.map_eq_some_iff.1 h
  obtain ⟨rfl, hitem⟩ := Prod.mk.inj heq
  have htaken := CoDelQueueDisc.taken_doDequeue hr
  rw [CoDelQueueDisc.Taken, hitem] at htaken
  obtain ⟨x, hx, hsuffix⟩ := htaken
  have hsub : (item.packet :: r.1.queue.map (·.packet)).Sublist (s.packets k) := by
    rw [hx]
    exact hsuffix.sublist.map _
  have hk : k < s.classes.length := by
    by_contra hk
    have hempty : s.flow k = {} := by
      rw [FqCoDelQueueDisc.flow, List.getD_eq_getElem?_getD,
        List.getElem?_eq_none (Nat.le_of_not_lt hk), Option.getD_none]
    rw [packets, hempty] at hsub
    cases hsub
  exact ⟨_, hsub, packets_setFlow hk _, rfl⟩

/-- Packets are lost, and then one is taken, if there is one. -/
def Serves (s t : FqCoDelQueueDisc) : Option QueueDiscItem → Prop
  | none => Loses s t
  | some item => ∃ u k lane, Loses s u ∧ (item.packet :: lane).Sublist (u.packets k) ∧
      t.packets = Function.update u.packets k lane ∧ t.flowsIndices = u.flowsIndices

theorem Loses.serves {u : FqCoDelQueueDisc} {r : Option QueueDiscItem} (h : Loses s t)
    (hr : Serves t u r) : Serves s u r := by
  cases r with
  | none => exact h.trans hr
  | some item =>
    obtain ⟨v, k, lane, hv, hlane⟩ := hr
    exact ⟨v, k, lane, h.trans hv, hlane⟩

/-- The rest of the loop, after the queue at the front has been asked. -/
theorem serves_bind {k : ℕ} {f : FqCoDelQueueDisc × Option QueueDiscItem →
      Option (FqCoDelQueueDisc × Option QueueDiscItem)} {r : Option QueueDiscItem}
    (h : (s.dequeueFlow p now k).bind f = some (t, r))
    (hnone : ∀ u : FqCoDelQueueDisc, f (u, none) = some (t, r) → Serves (u.retire k) t r)
    (hsome : ∀ (u : FqCoDelQueueDisc) item,
      f (u, some item) = some (u.increaseDeficit k (-item.size.toInt32), some item)) :
    Serves s t r := by
  obtain ⟨⟨u, item⟩, hu, hrest⟩ := Option.bind_eq_some_iff.1 h
  cases item with
  | none => exact ((dequeueFlow_none hu).trans loses_retire).serves (hnone u hrest)
  | some item =>
    obtain ⟨lane, hlane, hpackets, hindices⟩ := dequeueFlow_some hu
    obtain ⟨rfl, rfl⟩ := Prod.mk.inj (Option.some.inj ((hsome u item).symm.trans hrest))
    refine ⟨s, k, lane, Loses.refl s, hlane, ?_, hindices⟩
    rw [← hpackets]
    exact packets_setFlow_of_queue rfl

theorem serves_doDequeue (fuel : ℕ) :
    ∀ {s t : FqCoDelQueueDisc} {r : Option QueueDiscItem},
      doDequeue p now fuel s = some (t, r) → Serves s t r := by
  induction fuel with
  | zero =>
    intro s t r h
    cases h
  | succ fuel ih =>
    intro s t r h
    rw [doDequeue] at h
    dsimp only at h
    split at h
    · split_ifs at h
      · exact ((loses_increaseDeficit _).trans (loses_setStatus _)).lists _ _ |>.serves (ih h)
      · exact serves_bind h (fun u => ih) fun u item => rfl
    · split_ifs at h
      · exact (loses_increaseDeficit _).lists _ _ |>.serves (ih h)
      · exact serves_bind h (fun u => ih) fun u item => rfl
    · obtain ⟨rfl, rfl⟩ := Prod.mk.inj (Option.some.inj h)
      exact Loses.refl s

/-! ## Enqueueing -/

theorem dropBatch_suffix {threshold : UInt32} (queue : List QueueDiscItem) :
    ∀ {rest : List QueueDiscItem} {count len : UInt32},
      dropBatch p threshold queue count len = some rest → rest <:+ queue := by
  induction queue with
  | nil =>
    intro rest count len h
    cases h
  | cons item queue ih =>
    intro rest count len h
    rw [dropBatch] at h
    split_ifs at h
    · exact (ih h).trans (List.suffix_cons item queue)
    · rw [← Option.some.inj h]
      exact List.suffix_cons item queue

theorem loses_fqCoDelDrop (h : s.fqCoDelDrop p = some t) : Loses s t := by
  rw [fqCoDelDrop] at h
  obtain ⟨queue, hqueue, rfl⟩ := Option.map_eq_some_iff.1 h
  exact loses_setFlow ((dropBatch_suffix _ hqueue).sublist.map _)

theorem flowsIndices_activate : (s.activate p k).flowsIndices = s.flowsIndices := by
  rw [activate]
  dsimp only
  split_ifs <;> rfl

theorem packets_activate : (s.activate p k).packets = s.packets := by
  rw [activate]
  dsimp only
  split_ifs
  · exact packets_setFlow_of_queue rfl
  · rfl

/-- A packet is put behind those of a queue, or it is dropped. -/
theorem enqueueFlow_cases (p : FqCoDelParams) (now : ℕ) (s : FqCoDelQueueDisc) (k : ℕ)
    (item : QueueDiscItem) :
    (s.enqueueFlow p now k item).flowsIndices = s.flowsIndices ∧
      ((s.enqueueFlow p now k item).packets =
          Function.update s.packets k (s.packets k ++ [item.packet]) ∨
        (s.enqueueFlow p now k item).packets = s.packets) := by
  refine ⟨rfl, ?_⟩
  rw [enqueueFlow, CoDelQueueDisc.enqueue]
  rcases Nat.lt_or_ge k s.classes.length with hk | hk
  · split_ifs
    · exact Or.inr (packets_setFlow_of_queue rfl)
    · rw [packets_setFlow hk, List.map_append]
      exact Or.inl rfl
  · rw [setFlow_of_le hk]
    exact Or.inr rfl

/-- The class of a queue is in its place, and nothing is added to the queues. -/
theorem getFlow_cases (s : FqCoDelQueueDisc) (h : UInt32) :
    (s.getFlow h).1.packets = s.packets ∧
      (s.getFlow h).1.flowsIndices h = some (s.getFlow h).2 ∧
      ∀ i j, s.flowsIndices i = some j → (s.getFlow h).1.flowsIndices i = some j := by
  rw [getFlow]
  cases hk : s.flowsIndices h with
  | some k => exact ⟨rfl, hk, fun _ _ hi => hi⟩
  | none =>
    refine ⟨?_, Function.update_self _ _ _, ?_⟩
    · funext j
      rw [packets, packets, FqCoDelQueueDisc.flow, FqCoDelQueueDisc.flow,
        List.getD_eq_getElem?_getD, List.getD_eq_getElem?_getD]
      rcases Nat.lt_trichotomy j s.classes.length with hj | rfl | hj
      · rw [List.getElem?_append_left hj]
      · rw [List.getElem?_concat_length, List.getElem?_eq_none le_rfl]
        rfl
      · rw [List.getElem?_eq_none, List.getElem?_eq_none]
        · omega
        · rw [List.length_append, List.length_singleton]
          omega
    · intro i j hi
      have hne : i ≠ h := by
        rintro rfl
        rw [hk] at hi
        cases hi
      dsimp only
      rw [Function.update_of_ne hne]
      exact hi

/-! ## The queue of a hash -/

/-- A queue holds packets of a hash. -/
def Holds (p : FqCoDelParams) (s : FqCoDelQueueDisc) (flowHash i : UInt32) : Prop :=
  ∃ k, s.flowsIndices i = some k ∧ ∃ x ∈ s.packets k, p.hash x = some flowHash

/-- If there are packets of a hash, their queue is tagged with it, and no queue of the set in front
of it is usable, or it is the first one of the set, and no queue is usable. -/
def Homed (p : FqCoDelParams) (s : FqCoDelQueueDisc) (flowHash : UInt32) : Prop :=
  (∀ k, ∀ x ∈ s.packets k, p.hash x ≠ some flowHash) ∨
  (∃ front i back, set p flowHash = front ++ i :: back ∧ s.Holds p flowHash i ∧
    s.tags i = some flowHash ∧ ∀ j ∈ front, s.usable flowHash j = false) ∨
  s.Holds p flowHash (outerHash p flowHash) ∧ ∀ j ∈ set p flowHash, s.usable flowHash j = false

theorem Homed.setAssociativeHash {flowHash : UInt32} (h : Homed p s flowHash) :
    (∀ k, ∀ x ∈ s.packets k, p.hash x ≠ some flowHash) ∨
      s.Holds p flowHash (s.setAssociativeHash p flowHash).2 := by
  rcases h with h | ⟨front, i, back, hset, hholds, htag, hfront⟩ | ⟨hholds, hset⟩
  · exact Or.inl h
  · refine Or.inr ?_
    have husable : s.usable flowHash i = true := by
      obtain ⟨k, hk, -⟩ := hholds
      rw [usable, hk]
      exact decide_eq_true (Or.inl htag)
    have hfind : (set p flowHash).find? (s.usable flowHash) = some i := by
      rw [hset, List.find?_append, List.find?_eq_none.2 (by simpa using hfront),
        Option.none_or, List.find?_cons_of_pos husable]
    rw [FqCoDelQueueDisc.setAssociativeHash, hfind]
    exact hholds
  · refine Or.inr ?_
    have hfind : (set p flowHash).find? (s.usable flowHash) = none :=
      List.find?_eq_none.2 (by simpa using hset)
    rw [FqCoDelQueueDisc.setAssociativeHash, hfind]
    exact hholds

/-! ## Runs -/

/-- The packets of a hash are in one queue and leave in their order. Without the set associative
hash their queue is that of the remainder. -/
structure Inv (p : FqCoDelParams) (s : FqCoDelQueueDisc) (input output : List ℕ) : Prop where
  kept : Lanes.Kept p.hash input output s.packets
  home : p.enableSetAssociativeHash = false → ∀ k x flowHash, x ∈ s.packets k →
    p.hash x = some flowHash → s.flowsIndices (flowHash % p.flows) = some k

variable {input output : List ℕ}

theorem inv_init : Inv p {} [] [] := by
  refine ⟨Lanes.kept_nil, ?_⟩
  intro _ k x _ hx
  cases hx

theorem Inv.lose (h : Inv p s input output) (hl : Loses s t) {input' : List ℕ}
    (hin : input.Sublist input') : Inv p t input' output := by
  refine ⟨h.kept.lose hl.packets hin, ?_⟩
  intro hmod k x flowHash hx
  rw [hl.flowsIndices]
  exact h.home hmod k x flowHash ((hl.packets k).mem hx)

/-- The next packet of a hash comes into the queue that holds the others. -/
theorem Inv.classify (h : Inv p s input output) {flowHash i : UInt32}
    (hhome : p.enableSetAssociativeHash = true → Homed p s flowHash)
    (hc : s.classify p flowHash = some (t, i)) :
    t.packets = s.packets ∧ t.flowsIndices = s.flowsIndices ∧
      (p.enableSetAssociativeHash = false → i = flowHash % p.flows) ∧
      ∀ k x, x ∈ s.packets k → p.hash x = some flowHash → s.flowsIndices i = some k := by
  rw [FqCoDelQueueDisc.classify] at hc
  split_ifs at hc with hflows hset hways
  · obtain ⟨rfl, rfl⟩ := Prod.mk.inj (Option.some.inj hc)
    refine ⟨rfl, rfl, fun hmod => absurd hset (by simp [hmod]), ?_⟩
    intro k x hx hhash
    rcases (hhome hset).setAssociativeHash with hnone | ⟨k', hk', y, hy, hyhash⟩
    · exact absurd hhash (hnone k x hx)
    · rw [h.kept.apart k k' x y hx hy (hhash.trans hyhash.symm)]
      exact hk'
  · obtain ⟨rfl, rfl⟩ := Prod.mk.inj (Option.some.inj hc)
    refine ⟨rfl, rfl, fun _ => rfl, ?_⟩
    intro k x hx hhash
    exact h.home (Bool.eq_false_iff.2 hset) k x flowHash hx hhash

/-- A packet is enqueued into the queue at an index. -/
theorem Inv.push (h : Inv p s input output) (now : ℕ) {s₁ : FqCoDelQueueDisc} {flowHash i : UInt32}
    (hpackets : s₁.packets = s.packets) (hindices : s₁.flowsIndices = s.flowsIndices)
    (hhash : p.hash item.packet = some flowHash)
    (hmod : p.enableSetAssociativeHash = false → i = flowHash % p.flows)
    (hplace : ∀ k x, x ∈ s.packets k → p.hash x = some flowHash → s.flowsIndices i = some k) :
    Inv p (((s₁.getFlow i).1.activate p (s₁.getFlow i).2).enqueueFlow p now (s₁.getFlow i).2 item)
      (input ++ [item.packet]) output := by
  obtain ⟨hget, hi, hkeep⟩ := s₁.getFlow_cases i
  rw [hpackets] at hget
  rw [hindices] at hkeep
  generalize (s₁.getFlow i).2 = k at *
  generalize (s₁.getFlow i).1 = u at *
  obtain ⟨hput, hqueue⟩ := enqueueFlow_cases p now (u.activate p k) k item
  rw [flowsIndices_activate] at hput
  rw [packets_activate, hget] at hqueue
  -- the index of a queue that is there stays its index
  have hhome : p.enableSetAssociativeHash = false → ∀ j x f, x ∈ s.packets j →
      p.hash x = some f → u.flowsIndices (f % p.flows) = some j := by
    intro hoff j x f hx hf
    exact hkeep _ _ (h.home hoff j x f hx hf)
  rcases hqueue with hqueue | hqueue
  · refine ⟨?_, ?_⟩
    · rw [hqueue]
      refine h.kept.push ?_
      intro j x hx hx'
      have hj := hkeep _ _ (hplace j x hx (hx'.trans hhash))
      rw [hi] at hj
      exact (Option.some.inj hj).symm
    · intro hoff j x f hx hf
      rw [hput]
      rw [hqueue] at hx
      rcases eq_or_ne j k with rfl | hj
      · rw [Function.update_self, List.mem_append, List.mem_singleton] at hx
        rcases hx with hx | rfl
        · exact hhome hoff j x f hx hf
        · rw [← Option.some.inj (hhash.symm.trans hf), ← hmod hoff]
          exact hi
      · rw [Function.update_of_ne hj] at hx
        exact hhome hoff j x f hx hf
  · refine ⟨?_, ?_⟩
    · rw [hqueue]
      exact h.kept.lose (fun _ => List.Sublist.refl _) (List.sublist_append_left _ _)
    · intro hoff j x f hx
      rw [hput]
      rw [hqueue] at hx
      exact hhome hoff j x f hx

theorem Inv.doEnqueue (h : Inv p s input output)
    (hhome : p.enableSetAssociativeHash = true → ∀ flowHash,
      p.hash item.packet = some flowHash → Homed p s flowHash)
    (ht : s.doEnqueue p now item = some t) : Inv p t (input ++ [item.packet]) output := by
  rw [FqCoDelQueueDisc.doEnqueue] at ht
  cases hhash : p.hash item.packet with
  | none =>
    rw [hhash] at ht
    rw [← Option.some.inj ht]
    exact h.lose (Loses.refl s) (List.sublist_append_left _ _)
  | some flowHash =>
    rw [hhash] at ht
    obtain ⟨⟨s₁, i⟩, hc, hrest⟩ := Option.bind_eq_some_iff.1 ht
    obtain ⟨hpackets, hindices, hmod, hplace⟩ :=
      h.classify (fun hset => hhome hset flowHash hhash) hc
    have hpush := h.push now hpackets hindices hhash hmod hplace
    dsimp only at hrest
    split_ifs at hrest
    · exact hpush.lose (loses_fqCoDelDrop hrest) (List.Sublist.refl _)
    · rw [← Option.some.inj hrest]
      exact hpush

theorem Inv.doDequeue (h : Inv p s input output) {fuel : ℕ} {r : Option QueueDiscItem}
    (ht : FqCoDelQueueDisc.doDequeue p now fuel s = some (t, r)) :
    Inv p t input (output ++ (r.map (·.packet)).toList) := by
  have hserves := serves_doDequeue fuel ht
  cases r with
  | none =>
    rw [Option.map_none, Option.toList_none, List.append_nil]
    exact h.lose hserves (List.Sublist.refl _)
  | some item =>
    obtain ⟨u, k, lane, hu, hlane, hpackets, hindices⟩ := hserves
    have hinv := h.lose hu (List.Sublist.refl _)
    refine ⟨?_, ?_⟩
    · rw [hpackets]
      exact hinv.kept.take hlane
    · intro hoff j x f hx
      rw [hindices]
      refine hinv.home hoff j x f ?_
      rw [hpackets] at hx
      rcases eq_or_ne j k with rfl | hj
      · rw [Function.update_self] at hx
        exact hlane.mem (List.mem_cons_of_mem _ hx)
      · rw [Function.update_of_ne hj] at hx
        exact hx

/-- Before every packet of a run the queue of its hash is `Homed`, if the set associative hash is
used. -/
def steady (p : FqCoDelParams) (fuel : ℕ) : FqCoDelQueueDisc → List FqCoDelEvent → Prop
  | _, [] => True
  | s, e :: events =>
    (match e with
      | .enqueue _ item => p.enableSetAssociativeHash = true → ∀ flowHash,
          p.hash item.packet = some flowHash → Homed p s flowHash
      | .dequeue _ => True) ∧
    ∀ t r, s.step p fuel e = some (t, r) → steady p fuel t events

/-- Without the set associative hash every run is steady. -/
theorem steady_of_modulo (h : p.enableSetAssociativeHash = false) (fuel : ℕ)
    (events : List FqCoDelEvent) : ∀ s, steady p fuel s events := by
  induction events with
  | nil =>
    intro s
    trivial
  | cons e events ih =>
    intro s
    refine ⟨?_, fun t r _ => ih t⟩
    cases e with
    | enqueue now item =>
      intro hon
      rw [h] at hon
      cases hon
    | dequeue now => trivial

theorem Inv.run {fuel : ℕ} (events : List FqCoDelEvent) :
    ∀ {s t : FqCoDelQueueDisc} {input output packets : List ℕ}, Inv p s input output →
      steady p fuel s events → FqCoDelQueueDisc.run p fuel s events = some (t, packets) →
      Inv p t (input ++ enqueued events) (output ++ packets) := by
  induction events with
  | nil =>
    intro s t input output packets h _ hrun
    obtain ⟨rfl, rfl⟩ := Prod.mk.inj (Option.some.inj hrun)
    rw [enqueued, List.append_nil, List.append_nil]
    exact h
  | cons e events ih =>
    intro s t input output packets h hs hrun
    obtain ⟨⟨u, r⟩, hstep, hrest⟩ := Option.bind_eq_some_iff.1 hrun
    obtain ⟨⟨v, packets'⟩, hrun', heq⟩ := Option.bind_eq_some_iff.1 hrest
    obtain ⟨rfl, rfl⟩ := Prod.mk.inj (Option.some.inj heq)
    have hsteady := hs.2 u r hstep
    cases e with
    | enqueue now item =>
      obtain ⟨u', hu', hur⟩ := Option.map_eq_some_iff.1 hstep
      obtain ⟨rfl, rfl⟩ := Prod.mk.inj hur
      have hnext := ih (h.doEnqueue hs.1 hu') hsteady hrun'
      rw [List.append_assoc] at hnext
      exact hnext
    | dequeue now =>
      have hnext := ih (h.doDequeue hstep) hsteady hrun'
      rw [List.append_assoc] at hnext
      exact hnext

/-- Packets of a hash leave in the order in which they are enqueued, and those that are queued are
in one queue. -/
theorem dequeue_order (p : FqCoDelParams) (fuel : ℕ) (events : List FqCoDelEvent)
    (t : FqCoDelQueueDisc) (packets : List ℕ) (hs : steady p fuel {} events)
    (hrun : run p fuel {} events = some (t, packets)) :
    (∀ flowHash, (packets.filter (p.hash · = some flowHash)).Sublist
      ((enqueued events).filter (p.hash · = some flowHash))) ∧
    ∀ k k' x x', x ∈ t.packets k → x' ∈ t.packets k' → p.hash x = p.hash x' → k = k' := by
  have hinv := inv_init.run events hs hrun
  exact ⟨fun flowHash => hinv.kept.order (some flowHash), hinv.kept.apart⟩

/-- Packet 0 is that of a flow with hash 0, and the others are those of a flow with hash 1. -/
def twoFlows : FqCoDelParams where
  hash := fun packet => some (if packet = 0 then 0 else 1)
  enableSetAssociativeHash := true

/-- The second packet of a flow comes into the queue of the first one. -/
theorem dequeue_order_twoFlows :
    (([1] : List ℕ).filter (twoFlows.hash · = some 1)).Sublist
      (([1, 2] : List ℕ).filter (twoFlows.hash · = some 1)) := by
  refine (dequeue_order twoFlows 1
    [.enqueue 0 ⟨1, 1500, none, 0⟩, .enqueue 0 ⟨2, 1500, none, 0⟩, .dequeue 0] _ [1] ⟨?_, ?_⟩
    rfl).1 1
  · intro _ flowHash _
    refine Or.inl ?_
    intro k x hx
    cases hx
  · rintro t r hstep
    cases hstep
    refine ⟨?_, ?_⟩
    · intro _ flowHash hhash
      obtain rfl := Option.some.inj hhash
      refine Or.inr (Or.inl ⟨[], 0, [1, 2, 3, 4, 5, 6, 7], by decide, ?_, by decide,
        List.forall_mem_nil _⟩)
      exact ⟨0, by decide, 1, by decide, by decide⟩
    · rintro t r hstep
      cases hstep
      exact ⟨trivial, fun _ _ _ => trivial⟩

/-- The flow with hash 1 has a backlog when the queue in front of its own becomes inactive. Its next
packet comes into that queue, and leaves first. -/
theorem not_dequeue_order :
    ¬ ∀ (p : FqCoDelParams) (fuel : ℕ) (events : List FqCoDelEvent) (t : FqCoDelQueueDisc)
      (packets : List ℕ), run p fuel {} events = some (t, packets) →
      ∀ flowHash, (packets.filter (p.hash · = some flowHash)).Sublist
        ((enqueued events).filter (p.hash · = some flowHash)) := by
  intro h
  have hrun : (run twoFlows 20 {} [.enqueue 0 ⟨0, 1500, none, 0⟩, .enqueue 0 ⟨1, 1500, none, 0⟩,
      .enqueue 0 ⟨2, 1500, none, 0⟩, .enqueue 0 ⟨3, 1500, none, 0⟩, .dequeue 0, .dequeue 0,
      .dequeue 0, .enqueue 0 ⟨4, 1500, none, 0⟩, .dequeue 0, .dequeue 0]).map (·.2) =
      some [0, 1, 2, 4, 3] := by decide
  obtain ⟨⟨t, packets⟩, hsome, rfl⟩ := Option.map_eq_some_iff.1 hrun
  have hsub := h _ _ _ _ _ hsome 1
  revert hsub
  decide

end FqCoDelQueueDisc

end Ns3Pedca
