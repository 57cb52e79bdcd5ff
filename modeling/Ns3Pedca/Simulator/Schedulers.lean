import Ns3Pedca.Simulator.CalendarQueue
import Ns3Pedca.Simulator.HeapScheduler
import Ns3Pedca.Simulator.PriorityQueueScheduler

/-!
# The schedulers are interchangeable

Over every run that is allowed, the schedulers return the events with the least key, each one
once, as the sorted list does (`interchangeable`). For the heap the last event has to fit into
the place of each event that is removed, and for the calendar no event may have the greatest
timestamp. Without that they return other events (`not_interchangeable`).
-/

namespace Ns3Pedca

/-- The schedulers return the same events. -/
theorem interchangeable {ops : List SchedulerOp} (hops : AllowedRun ([], 0) ops) :
    ∃ outs, listScheduler.outputs [] ops = some outs ∧ Right 0 ops outs ∧
      priorityQueueScheduler.outputs {} ops = some outs ∧
      (heapScheduler.OkRun HeapScheduler.Fits {} ops →
        heapScheduler.outputs {} ops = some outs) ∧
      ∀ reverse, calendarScheduler.OkRun CalendarScheduler.Counted (.new reverse) ops →
        calendarScheduler.outputs (.new reverse) ops = some outs := by
  obtain ⟨outs, houts, hright⟩ := right_outputs .nil hops
  have hqueue : PriorityQueueScheduler.Holds {} [] := by
    refine ⟨fun i hi hlt _ => ?_, List.Perm.refl _⟩
    change i < 1 at hlt
    omega
  have hheap : HeapScheduler.Holds {} [] := by
    refine ⟨List.cons_ne_nil _ _, fun i hi hlt _ => ?_, List.Perm.refl _⟩
    change i < 1 at hlt
    omega
  have htrue : ∀ {s ops}, priorityQueueScheduler.OkRun (fun _ _ => True) s ops := by
    intro s ops
    induction ops generalizing s with
    | nil => trivial
    | cons op ops ih =>
      refine ⟨trivial, ?_⟩
      cases priorityQueueScheduler.call s op with
      | none => trivial
      | some r => exact ih
  refine ⟨outs, houts, hright, ?_, fun hok => ?_, fun reverse hok => ?_⟩
  · exact (PriorityQueueScheduler.implements.outputs_eq hqueue .nil hops htrue).trans houts
  · exact (HeapScheduler.implements.outputs_eq hheap .nil hops hok).trans houts
  · exact (CalendarScheduler.implements.outputs_eq (CalendarScheduler.holds_new reverse) .nil hops
      hok).trans houts

/-- An event at a time. -/
def eventAt (ts : UInt64) (uid : UInt32) : Event :=
  ⟨1, ts, uid, 0⟩

/-- Two events, the first of which is removed. -/
def removeFirst : List SchedulerOp :=
  [.insert (eventAt 5 4), .insert (eventAt 7 5), .remove (eventAt 5 4), .removeNext]

/-- The schedulers return the same event then. -/
theorem interchangeable_removeFirst : ∃ outs, listScheduler.outputs [] removeFirst = some outs ∧
    Right 0 removeFirst outs ∧ priorityQueueScheduler.outputs {} removeFirst = some outs ∧
    (heapScheduler.OkRun HeapScheduler.Fits {} removeFirst →
      heapScheduler.outputs {} removeFirst = some outs) ∧
    ∀ reverse, calendarScheduler.OkRun CalendarScheduler.Counted (.new reverse) removeFirst →
      calendarScheduler.outputs (.new reverse) removeFirst = some outs :=
  interchangeable (by decide)

/-- Seven events, the fourth of which is removed. -/
def removeFourth : List SchedulerOp :=
  [.insert (eventAt 1 4), .insert (eventAt 10 5), .insert (eventAt 2 6), .insert (eventAt 11 7),
    .insert (eventAt 12 8), .insert (eventAt 20 9), .insert (eventAt 4 10),
    .remove (eventAt 11 7), .removeNext, .removeNext, .removeNext]

/-- An event with the greatest timestamp. -/
def greatestTime : List SchedulerOp :=
  [.insert (eventAt 0xffffffffffffffff 4), .removeNext]

/-- The heap returns the event at the time 10 before the one at the time 4, which has taken the
place of the event that was removed. The calendar does not find the event with the greatest
timestamp. -/
theorem not_interchangeable :
    (AllowedRun ([], 0) removeFourth ∧
      heapScheduler.outputs {} removeFourth ≠ listScheduler.outputs [] removeFourth) ∧
    AllowedRun ([], 0) greatestTime ∧ calendarScheduler.outputs (.new false) greatestTime ≠
      listScheduler.outputs [] greatestTime :=
  ⟨⟨by decide +kernel, by decide +kernel⟩, by decide +kernel, by decide +kernel⟩

end Ns3Pedca
