import Ns3Pedca.BinaryHeap
import Ns3Pedca.Simulator.Scheduler

/-!
# The priority queue scheduler

`PriorityQueueScheduler` keeps the events in a `std::priority_queue`, whose vector is a heap with
the least event at the front. An event is removed by taking it out of the vector, which is made a
heap again. The algorithms of the standard library are those of a binary heap, the first item of
the vector being the root.
-/

namespace Ns3Pedca

open BinaryHeap

/-- `PriorityQueueScheduler`, with the container `c` of its queue. -/
structure PriorityQueueScheduler where
  c : List Event := []
  deriving DecidableEq

namespace PriorityQueueScheduler

/-- `std::push_heap`. -/
def pushHeap (c : List Event) : List Event :=
  (siftUp Event.rank c.length c.length (default :: c)).tail

/-- `std::pop_heap` and `pop_back`. -/
def popHeap (c : List Event) : List Event :=
  (siftDown Event.rank c.length 1 (replace (default :: c) 1)).tail

/-- `std::make_heap`. -/
def makeHeap (c : List Event) : List Event :=
  (heapify Event.rank (c.length / 2) (default :: c)).tail

variable (s : PriorityQueueScheduler)

/-- `Insert`. -/
def insert (ev : Event) : PriorityQueueScheduler :=
  ⟨pushHeap (s.c ++ [ev])⟩

/-- `IsEmpty`. -/
def isEmpty : Bool :=
  s.c.isEmpty

/-- `PeekNext`. -/
def peekNext : Option Event :=
  s.c.head?

/-- `RemoveNext`. -/
def removeNext : Option (Event × PriorityQueueScheduler) :=
  s.c.head?.map fun ev => (ev, ⟨popHeap s.c⟩)

/-- `EventPriorityQueue::remove`. -/
def remove (ev : Event) : PriorityQueueScheduler :=
  if s.c.any fun i => i.key.uid = ev.key.uid then
    ⟨makeHeap (s.c.eraseP fun i => i.key.uid = ev.key.uid)⟩
  else s

end PriorityQueueScheduler

/-- `PriorityQueueScheduler`. -/
def priorityQueueScheduler : Scheduler PriorityQueueScheduler where
  insert s ev := some (s.insert ev)
  isEmpty s := s.isEmpty
  peekNext s := s.peekNext
  removeNext s := s.removeNext
  remove s ev := some (s.remove ev)

namespace PriorityQueueScheduler

/-- The vector is a heap of the events of the queue. -/
structure Holds (s : PriorityQueueScheduler) (l : List Event) : Prop where
  order : InOrder Event.rank 1 (default :: s.c)
  events : s.c.Perm l

variable {s : PriorityQueueScheduler} {l c : List Event} {ev next : Event}

/-- A heap that has the items of a vector behind the position zero. -/
theorem holds_tail {heap : List Event} (horder : InOrder Event.rank 1 heap)
    (hperm : heap.Perm (default :: c)) (hhead : item heap 0 = default) (hc : c.Perm l) :
    Holds ⟨heap.tail⟩ l := by
  obtain ⟨hne, htail⟩ := tail_perm (List.cons_ne_nil _ _) hperm hhead
  refine ⟨?_, htail.trans hc⟩
  obtain ⟨a, t, rfl⟩ := List.exists_cons_of_ne_nil hne
  obtain rfl : a = default := hhead
  exact horder

theorem Holds.insert (h : Holds s l) (ev : Event) : Holds (s.insert ev) (ev :: l) := by
  have hlen : (default :: s.c : List Event).length = (s.c ++ [ev]).length := by simp
  have hup := h.order.append ev
  rw [hlen] at hup
  obtain ⟨horder, hperm, hhead⟩ := siftUp_spec (s.c ++ [ev]).length hup le_rfl (by simp) (by simp)
  exact holds_tail horder hperm hhead
    ((List.perm_append_singleton _ _).trans (h.events.cons ev))

theorem Holds.peekNext (h : Holds s (next :: l)) (hl : SortedEvents (next :: l)) :
    ∃ rest, s.c = next :: rest ∧ rest.Perm l := by
  have hle := h.order.least (h.events.mem_iff.2 List.mem_cons_self)
  cases hc : s.c with
  | nil => exact absurd (hc ▸ h.events).symm.eq_nil (List.cons_ne_nil _ _)
  | cons a rest =>
    rw [hc] at hle
    have hperm := h.events
    rw [hc] at hperm
    have hmem : a ∈ next :: l := hperm.mem_iff.1 List.mem_cons_self
    obtain rfl : a = next := by
      rcases List.mem_cons.1 hmem with heq | hmem
      · exact heq
      · exact absurd ((List.pairwise_cons.1 hl.ordered).1 _ hmem) (Nat.not_lt.2 hle)
    exact ⟨rest, rfl, (List.perm_cons _).1 hperm⟩

theorem Holds.popHeap (h : Holds s (next :: l)) (hl : SortedEvents (next :: l)) :
    Holds ⟨popHeap s.c⟩ l := by
  obtain ⟨rest, hc, hrest⟩ := h.peekNext hl
  have horder := h.order
  rw [PriorityQueueScheduler.popHeap]
  rw [hc] at horder ⊢
  have hdown := horder.replace (i := 1) le_rfl (by simp) (Or.inl rfl)
  obtain ⟨hne, htail⟩ := tail_replace (l := (default :: next :: rest : List Event)) (i := 1) le_rfl
    (by simp)
  have hhead : item (replace (default :: next :: rest : List Event) 1) 0 = default := by
    rw [item_replace (by simp) (by simp)]
    rfl
  obtain ⟨horder', hperm, hhead'⟩ := siftDown_spec (next :: rest).length hdown le_rfl le_rfl
    (by rw [length_replace]; simp)
  obtain ⟨a, t, hat⟩ := List.exists_cons_of_ne_nil hne
  rw [hat] at hhead htail horder' hperm hhead' ⊢
  obtain rfl : a = default := hhead
  exact holds_tail horder' hperm hhead' (((List.perm_cons _).1 htail).symm.trans hrest)

theorem Holds.remove (h : Holds s l) (hl : SortedEvents l) (hev : ev ∈ l) :
    Holds (s.remove ev) (ListScheduler.remove ev l) := by
  have hmem := h.events.mem_iff.2 hev
  have huids : (s.c.map fun ev => ev.key.uid).Nodup := (h.events.map _).nodup_iff.2 hl.uids
  have hany : (s.c.any fun i => decide (i.key.uid = ev.key.uid)) = true :=
    List.any_eq_true.2 ⟨ev, hmem, decide_eq_true rfl⟩
  rw [PriorityQueueScheduler.remove, if_pos hany, eraseP_uid huids hmem, ListScheduler.remove,
    eraseP_uid hl.uids hev]
  obtain ⟨horder, hperm, hhead⟩ := heapify_spec (r := Event.rank)
    (inOrder_leaves (l := default :: s.c.erase ev) (k := (s.c.erase ev).length / 2)
      (by rw [List.length_cons]; omega))
  exact holds_tail horder hperm hhead (h.events.erase ev)

/-- The priority queue does what the list does. -/
theorem implements : Implements priorityQueueScheduler (fun s l _ => Holds s l)
    fun _ _ => True where
  insert {s l last ev} h hl hop hok := by
    obtain ⟨horder, hevents⟩ := h.insert ev
    exact ⟨s.insert ev, rfl, horder, hevents.trans ListScheduler.perm_insert.symm⟩
  isEmpty {s l last} h := by
    change s.c.isEmpty = l.isEmpty
    rw [Bool.eq_iff_iff, List.isEmpty_iff, List.isEmpty_iff]
    exact ⟨fun hnil => (hnil ▸ h.events).nil_eq.symm, fun hnil => (hnil ▸ h.events).eq_nil⟩
  peekNext h hl hok := by
    obtain ⟨rest, hc, -⟩ := h.peekNext hl.toSortedEvents
    exact congrArg List.head? hc
  removeNext {s next l last} h hl hok := by
    obtain ⟨rest, hc, -⟩ := h.peekNext hl.toSortedEvents
    refine ⟨⟨popHeap s.c⟩, ?_, h.popHeap hl.toSortedEvents⟩
    change (s.c.head?).map _ = _
    rw [congrArg List.head? hc]
    rfl
  remove {s l last ev} h hl hev hok := ⟨s.remove ev, rfl, h.remove hl.toSortedEvents hev⟩

end PriorityQueueScheduler

end Ns3Pedca
