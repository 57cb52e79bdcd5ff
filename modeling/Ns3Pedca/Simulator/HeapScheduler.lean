import Ns3Pedca.BinaryHeap
import Ns3Pedca.Simulator.Scheduler

/-!
# The heap scheduler

`HeapScheduler` keeps the events in a binary heap, and finds the event to remove by its uid.
The last event takes the place of the one that is removed, and goes down from there, but never
up. So the heap stays in order if the last event does not rank below the parent of the one that
is removed (`implements`).
-/

namespace Ns3Pedca

open BinaryHeap

/-- `HeapScheduler`. The first event of the vector is wasted. -/
structure HeapScheduler where
  heap : List Event := [default]
  deriving DecidableEq

namespace HeapScheduler

/-- `Parent`. -/
def parent (id : ℕ) : ℕ :=
  id / 2

/-- `LeftChild`. -/
def leftChild (id : ℕ) : ℕ :=
  id * 2

/-- `RightChild`. -/
def rightChild (id : ℕ) : ℕ :=
  id * 2 + 1

/-- `Root`. -/
def root : ℕ :=
  1

/-- `IsRoot`. -/
def isRoot (id : ℕ) : Bool :=
  id = root

variable (heap : List Event)

/-- `Last`. -/
def last : ℕ :=
  heap.length - 1

/-- `IsBottom`. -/
def isBottom (id : ℕ) : Bool :=
  id ≥ heap.length

/-- `IsLessStrictly`. -/
def isLessStrictly (a b : ℕ) : Bool :=
  (item heap a).key.lt (item heap b).key

/-- `Smallest`. -/
def smallest (a b : ℕ) : ℕ :=
  if isLessStrictly heap a b then a else b

/-- The loop of `BottomUp`, with a bound on its steps. -/
def bottomUpFrom : ℕ → ℕ → List Event → List Event
  | 0, _, heap => heap
  | fuel + 1, index, heap =>
    if !isRoot index && isLessStrictly heap index (parent index) then
      bottomUpFrom fuel (parent index) (exch heap index (parent index))
    else heap

/-- `BottomUp`. -/
def bottomUp : List Event :=
  bottomUpFrom heap.length (last heap) heap

/-- `TopDown` behind its loop. -/
def topDownLast (index : ℕ) : List Event :=
  if isBottom heap index then heap
  else if isBottom heap (leftChild index) then heap
  else if isLessStrictly heap index (leftChild index) then heap
  else exch heap index (leftChild index)

/-- The loop of `TopDown`, with a bound on its steps. -/
def topDownFrom : ℕ → ℕ → List Event → List Event
  | 0, _, heap => heap
  | fuel + 1, index, heap =>
    if !isBottom heap (rightChild index) then
      let tmp := smallest heap (leftChild index) (rightChild index)
      if isLessStrictly heap index tmp then heap
      else topDownFrom fuel tmp (exch heap index tmp)
    else topDownLast heap index

/-- `TopDown`. -/
def topDown (start : ℕ) : List Event :=
  topDownFrom (heap.length + 1) start heap

variable (s : HeapScheduler)

/-- `Insert`. -/
def insert (ev : Event) : HeapScheduler :=
  ⟨bottomUp (s.heap ++ [ev])⟩

/-- `IsEmpty`. -/
def isEmpty : Bool :=
  s.heap.length = 1

/-- `PeekNext`. -/
def peekNext : Option Event :=
  s.heap[root]?

/-- The heap without the event at the position `i`, in whose place comes the last one. -/
def removeAt (i : ℕ) : HeapScheduler :=
  ⟨topDown (exch s.heap i (last s.heap)).dropLast i⟩

/-- `RemoveNext`. -/
def removeNext : Option (Event × HeapScheduler) :=
  s.heap[root]?.map fun next => (next, s.removeAt root)

/-- The position of the event with the uid of `ev`. -/
def find? (ev : Event) : Option ℕ :=
  (s.heap.tail.findIdx? fun i => i.key.uid = ev.key.uid).map (· + 1)

/-- `Remove`. -/
def remove (ev : Event) : HeapScheduler :=
  match s.find? ev with
  | some i => s.removeAt i
  | none => s

end HeapScheduler

/-- `HeapScheduler`. -/
def heapScheduler : Scheduler HeapScheduler where
  insert s ev := some (s.insert ev)
  isEmpty s := s.isEmpty
  peekNext s := s.peekNext
  removeNext s := s.removeNext
  remove s ev := some (s.remove ev)

namespace HeapScheduler

/-- The last event of the heap does not rank below the parent of the event that is removed. -/
def Fits (s : HeapScheduler) : SchedulerOp → Prop
  | .remove ev => ∀ i, s.find? ev = some i → i = root ∨
      isLessStrictly s.heap (last s.heap) (parent i) = false
  | _ => True

/-- The heap holds the events of the queue, in order. -/
structure Holds (s : HeapScheduler) (l : List Event) : Prop where
  ne_nil : s.heap ≠ []
  order : InOrder Event.rank 1 s.heap
  events : s.heap.tail.Perm l

variable {heap : List Event} {l : List Event} {s : HeapScheduler} {ev next : Event} {i : ℕ}

theorem isLessStrictly_iff {a b : ℕ} :
    isLessStrictly heap a b = true ↔ (item heap a).rank < (item heap b).rank :=
  EventKey.lt_iff

/-- The loop of `BottomUp` sifts up. -/
theorem bottomUpFrom_eq (fuel index : ℕ) (heap : List Event) :
    bottomUpFrom fuel index heap = siftUp Event.rank fuel index heap := by
  induction fuel generalizing index heap with
  | zero => rfl
  | succ fuel ih =>
    rw [bottomUpFrom, siftUp]
    have hcond : (!isRoot index && isLessStrictly heap index (parent index)) = true ↔
        index ≠ 1 ∧ (item heap index).rank < (item heap (index / 2)).rank := by
      rw [Bool.and_eq_true, Bool.not_eq_true', isLessStrictly_iff, isRoot, decide_eq_false_iff_not]
      rfl
    by_cases hgo : index ≠ 1 ∧ (item heap index).rank < (item heap (index / 2)).rank
    · rw [if_pos (hcond.2 hgo), if_pos hgo, ih]
      rfl
    · rw [if_neg (fun h => hgo (hcond.1 h)), if_neg hgo]

theorem siftDown_of_bottom {fuel index : ℕ} (h : heap.length ≤ index * 2) :
    siftDown Event.rank fuel index heap = heap := by
  cases fuel with
  | zero => rfl
  | succ fuel => rw [siftDown, if_neg (by omega)]

/-- `TopDown` sifts down. -/
theorem topDownFrom_eq (fuel index : ℕ) (heap : List Event) (hpos : 1 ≤ index) :
    topDownFrom fuel index heap = siftDown Event.rank fuel index heap := by
  induction fuel generalizing index heap with
  | zero => rfl
  | succ fuel ih =>
    rw [topDownFrom, siftDown]
    by_cases hright : index * 2 + 1 < heap.length
    · have hchild : smallest heap (leftChild index) (rightChild index) =
          leastChild Event.rank heap index := by
        rw [leastChild, if_pos hright, smallest]
        exact if_congr isLessStrictly_iff rfl rfl
      have hpos' : 1 ≤ leastChild Event.rank heap index := by
        have hparent : leastChild Event.rank heap index / 2 = index :=
          (leastChild_spec (by omega)).2.1
        omega
      have hbottom : (!isBottom heap (rightChild index)) = true := by
        rw [Bool.not_eq_true', isBottom, decide_eq_false_iff_not]
        exact Nat.not_le.2 hright
      rw [if_pos hbottom, if_pos (show index * 2 < heap.length by omega)]
      simp only [hchild]
      rw [ih _ _ hpos']
      exact if_congr isLessStrictly_iff rfl rfl
    · have hbottom : ¬ (!isBottom heap (rightChild index)) = true := by
        rw [Bool.not_eq_true', isBottom, decide_eq_false_iff_not, not_not]
        exact Nat.not_lt.1 hright
      rw [if_neg hbottom, topDownLast]
      by_cases hleft : index * 2 < heap.length
      · have hchild : leastChild Event.rank heap index = index * 2 := by
          rw [leastChild, if_neg hright]
        rw [if_neg (by simp [isBottom]; omega), if_neg (by simp [isBottom, leftChild]; omega),
          if_pos hleft, hchild, siftDown_of_bottom (by rw [length_exch]; omega)]
        exact if_congr isLessStrictly_iff rfl rfl
      · rw [if_neg hleft]
        by_cases hin : isBottom heap index = true
        · rw [if_pos hin]
        · have hleaf : isBottom heap (leftChild index) = true :=
            decide_eq_true (show index * 2 ≥ heap.length by omega)
          rw [if_neg hin, if_pos hleaf]

theorem Holds.length_eq (h : Holds s l) : s.heap.length = l.length + 1 := by
  have hpos := List.length_pos_of_ne_nil h.ne_nil
  rw [← h.events.length_eq, List.length_tail]
  omega

/-- `Insert` keeps the heap. -/
theorem Holds.insert (h : Holds s l) (ev : Event) : Holds (s.insert ev) (ev :: l) := by
  have hlast : last (s.heap ++ [ev]) = s.heap.length := by simp [last]
  have hlen := h.length_eq
  obtain ⟨horder, hsift, hhead⟩ := siftUp_spec (s.heap ++ [ev]).length
    (h.order.append ev) (by simp) (by omega) (by simp)
  have heq : (s.insert ev).heap =
      siftUp Event.rank (s.heap ++ [ev]).length s.heap.length (s.heap ++ [ev]) := by
    rw [HeapScheduler.insert, bottomUp, bottomUpFrom_eq, hlast]
  obtain ⟨hne, htail⟩ := tail_perm (by simp) hsift hhead
  rw [← heq] at horder hne htail
  refine ⟨hne, horder, htail.trans ?_⟩
  rw [List.tail_append_of_ne_nil h.ne_nil]
  exact (List.perm_append_singleton _ _).trans (h.events.cons ev)

/-- An event is removed from the heap. -/
theorem Holds.removeAt (h : Holds s l) (hi : 1 ≤ i) (hlt : i < s.heap.length)
    (hfits : i = 1 ∨ isLessStrictly s.heap (last s.heap) (parent i) = false) {rest : List Event}
    (hrest : l.Perm (item s.heap i :: rest)) : Holds (s.removeAt i) rest := by
  have hfits' : i = 1 ∨ (item s.heap (i / 2)).rank ≤ (item s.heap (s.heap.length - 1)).rank := by
    refine hfits.imp_right fun hless => ?_
    rw [← Bool.not_eq_true, isLessStrictly_iff] at hless
    exact Nat.not_lt.1 hless
  obtain ⟨horder, hsift, hhead⟩ := siftDown_spec ((replace s.heap i).length + 1)
    (h.order.replace hi hlt hfits') hi hi (by omega)
  have heq : (s.removeAt i).heap =
      siftDown Event.rank ((replace s.heap i).length + 1) i (replace s.heap i) :=
    topDownFrom_eq _ _ _ hi
  obtain ⟨hne', htail'⟩ := tail_replace hi hlt
  obtain ⟨hne, htail⟩ := tail_perm hne' hsift hhead
  rw [← heq] at horder hne htail
  refine ⟨hne, horder, htail.trans ?_⟩
  exact (List.perm_cons _).1 (htail'.symm.trans (h.events.trans hrest))

theorem Holds.peekNext (h : Holds s (next :: l)) (hl : SortedEvents (next :: l)) :
    s.peekNext = some next ∧ item s.heap 1 = next := by
  have hlen := h.length_eq
  rw [List.length_cons] at hlen
  have hget : s.heap[1]? = some (item s.heap 1) := by
    rw [item, List.getD_eq_getElem _ _ (by omega), List.getElem?_eq_getElem]
  have hmem : item s.heap 1 ∈ next :: l := by
    refine h.events.mem_iff.1 (List.mem_iff_getElem?.2 ⟨0, ?_⟩)
    rw [List.getElem?_tail]
    exact hget
  have hle := h.order.least (h.events.mem_iff.2 List.mem_cons_self)
  have heq : item s.heap 1 = next := by
    rcases List.mem_cons.1 hmem with heq | hmem
    · exact heq
    · exact absurd ((List.pairwise_cons.1 hl.ordered).1 _ hmem) (Nat.not_lt.2 hle)
  exact ⟨hget.trans (congrArg some heq), heq⟩

theorem Holds.find (h : Holds s l) (hl : SortedEvents l) (hev : ev ∈ l) :
    ∃ i, s.find? ev = some i ∧ 1 ≤ i ∧ i < s.heap.length ∧ item s.heap i = ev := by
  have hmem := h.events.mem_iff.2 hev
  cases hfind : s.heap.tail.findIdx? fun i => decide (i.key.uid = ev.key.uid) with
  | none =>
    have hnone := List.findIdx?_eq_none_iff.1 hfind ev hmem
    simp at hnone
  | some j =>
    obtain ⟨hj, huid, -⟩ := List.findIdx?_eq_some_iff_getElem.1 hfind
    have hlen := hj
    rw [List.length_tail] at hlen
    have hitem : item s.heap (j + 1) = s.heap.tail[j] := by
      rw [item, List.getD_eq_getElem _ _ (by omega), List.getElem_tail]
    have heq : s.heap.tail[j] = ev := List.inj_on_of_nodup_map hl.uids
      (h.events.mem_iff.1 (List.getElem_mem hj)) hev (of_decide_eq_true huid)
    exact ⟨j + 1, congrArg (Option.map (· + 1)) hfind, by omega, by omega, hitem.trans heq⟩

/-- The heap does what the list does, as long as the last event fits into the place of each event
that is removed. -/
theorem implements : Implements heapScheduler (fun s l _ => Holds s l) Fits where
  insert {s l last ev} h hl hop hok := by
    obtain ⟨hne, horder, hevents⟩ := h.insert ev
    exact ⟨s.insert ev, rfl, hne, horder, hevents.trans ListScheduler.perm_insert.symm⟩
  isEmpty {s l last} h := by
    have hlen := h.length_eq
    change decide (s.heap.length = 1) = _
    cases l with
    | nil => exact decide_eq_true hlen
    | cons x l => exact decide_eq_false (by rw [hlen]; simp)
  peekNext h hl hok := (h.peekNext hl.toSortedEvents).1
  removeNext {s next l last} h hl hok := by
    obtain ⟨hpeek, hitem⟩ := h.peekNext hl.toSortedEvents
    have hlen := h.length_eq
    rw [List.length_cons] at hlen
    refine ⟨s.removeAt root, ?_, h.removeAt le_rfl (by omega) (Or.inl rfl) ?_⟩
    · change (s.heap[root]?).map _ = _
      rw [show s.heap[root]? = some next from hpeek]
      rfl
    · rw [hitem]
  remove {s l last ev} h hl hev hok := by
    obtain ⟨i, hfind, hi, hlt, hitem⟩ := h.find hl.toSortedEvents hev
    obtain ⟨-, hperm⟩ := hl.toSortedEvents.remove hev
    refine ⟨s.remove ev, rfl, ?_⟩
    rw [HeapScheduler.remove, hfind]
    exact h.removeAt hi hlt (hok i hfind) (by rw [hitem]; exact hperm)

end HeapScheduler

end Ns3Pedca
