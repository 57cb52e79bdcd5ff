import Ns3Pedca.TrafficControl.CoDelQueueDisc

/-!
# CoDel and absolute time

If all times of a run are shifted by a multiple of 1024 ns, the same packets are dropped, marked and
delivered at the shifted times (`outputs_shift`), as long as the 32-bit clock keeps its order : two
times that are compared have the order of the shifted ones, and no time at which a packet may be
dropped is the value 0 (`steady`). Without that packets are dropped or not because of the time of
day (`not_outputs_shift`).
-/

namespace Ns3Pedca

/-! ## Shifted times -/

/-- An item that is enqueued later, by a number of units of 1024 ns. -/
def QueueDiscItem.shift (k : ℕ) (item : QueueDiscItem) : QueueDiscItem :=
  { item with timeStamp := item.timeStamp + 1024 * k }

namespace CoDelQueueDisc

def Dequeued.shift (k : ℕ) (r : Dequeued) : Dequeued :=
  ⟨r.dropped.map (.shift k), r.item.map (.shift k), r.marked⟩

def CoDelEvent.shift (k : ℕ) : CoDelEvent → CoDelEvent
  | .enqueue now item => .enqueue (now + 1024 * k) (item.shift k)
  | .dequeue now => .dequeue (now + 1024 * k)

def CoDelOutput.shift (k : ℕ) : CoDelOutput → CoDelOutput
  | .enqueued b => .enqueued b
  | .dequeued r => .dequeued (r.shift k)

/-! ## What is asked for -/

variable (p : CoDelParams) (now k : ℕ) (s : CoDelQueueDisc)

/-- The clock does not wrap around between two times, or it does so before and after the shift. -/
def sameOrder (a b : UInt32) : Bool :=
  (b ≤ a : Bool) = (b + .ofNat k ≤ a + .ofNat k : Bool)

/-- The sojourn time of an item is below the target, or the queue is short. -/
def below (item : QueueDiscItem) : Bool :=
  coDelTimeBefore (sojournTime now item) (time2CoDel p.target) || nBytes s.queue < p.minBytes

/-- What `OkToDrop` asks for. -/
def okSteady (item : QueueDiscItem) : Bool :=
  below p now s item ||
    if s.firstAboveTime = 0 then
      coDelGetTime now + time2CoDel p.interval ≠ 0 &&
        coDelGetTime now + time2CoDel p.interval + .ofNat k ≠ 0
    else sameOrder k (coDelGetTime now) s.firstAboveTime

/-- What the loop of the dropping state asks for. -/
def loopSteady : List QueueDiscItem → CoDelQueueDisc → QueueDiscItem → Bool
  | queue, s, item =>
    if s.dropping then
      sameOrder k (coDelGetTime now) s.dropNext &&
        if coDelTimeAfterEq (coDelGetTime now) s.dropNext then
          match if p.useEcn then item.mark else none with
          | some _ => true
          | none =>
            match queue with
            | [] => true
            | next :: queue =>
              let s := { s.nextCount with queue := queue }
              let r := s.okToDrop p now (some next)
              okSteady p now k s next &&
                if !r.1 then true
                else loopSteady queue { r.2 with
                  dropNext := controlLaw r.2.dropNext (time2CoDel p.interval) r.2.recInvSqrt } next
        else true
    else true

/-- What `DoDequeue` asks for. -/
def dequeueSteady : Bool :=
  match s.queue with
  | [] => true
  | item :: queue =>
    let s := { s with queue := queue }
    if p.useL4s && isL4s item then true
    else
      let r := s.okToDrop p now (some item)
      okSteady p now k s item &&
        if r.2.dropping && r.1 then loopSteady p now k r.2.queue r.2 item else true

/-- What a run asks for. -/
def steady : CoDelQueueDisc → List CoDelEvent → Bool
  | _, [] => true
  | s, .enqueue now item :: events => steady (s.enqueue p now item).1 events
  | s, .dequeue now :: events =>
    dequeueSteady p now k s &&
      match s.doDequeue p now with
      | none => true
      | some r => steady r.1 events

/-! ## Two runs -/

/-- The same state at a later time. -/
structure Shifted (k : ℕ) (s s' : CoDelQueueDisc) : Prop where
  queue : s'.queue = s.queue.map (.shift k)
  count : s'.count = s.count
  lastCount : s'.lastCount = s.lastCount
  dropping : s'.dropping = s.dropping
  recInvSqrt : s'.recInvSqrt = s.recInvSqrt
  firstAboveTime : s.firstAboveTime = 0 ∧ s'.firstAboveTime = 0 ∨
    s.firstAboveTime ≠ 0 ∧ s'.firstAboveTime ≠ 0 ∧ s'.firstAboveTime = s.firstAboveTime + .ofNat k
  dropNext : s'.dropNext = s.dropNext + .ofNat k ∨ s.dropping = false ∧ s.count = s.lastCount

variable {p now k} {s s' : CoDelQueueDisc} {item : QueueDiscItem} {queue : List QueueDiscItem}
  {a b : UInt32}

theorem coDelGetTime_shift : coDelGetTime (now + 1024 * k) = coDelGetTime now + .ofNat k := by
  rw [coDelGetTime, coDelGetTime, Nat.add_mul_div_left _ _ (by decide), UInt32.ofNat_add]

theorem sojournTime_shift : sojournTime (now + 1024 * k) (item.shift k) = sojournTime now item := by
  have hsub : ((now + 1024 * k : ℕ) : ℤ) - ((item.timeStamp + 1024 * k : ℕ) : ℤ) =
      now - item.timeStamp := by omega
  exact congrArg time2CoDel hsub

theorem nBytes_shift : nBytes (queue.map (.shift k)) = nBytes queue := by
  induction queue with
  | nil => rfl
  | cons item queue ih =>
    rw [List.map_cons, nBytes, nBytes, ih]
    rfl

theorem mark_shift : (item.shift k).mark = item.mark.map (.shift k) := by
  rw [QueueDiscItem.mark, QueueDiscItem.mark]
  cases hds : item.dsField with
  | none => simp [QueueDiscItem.shift, hds]
  | some tos =>
    simp only [QueueDiscItem.shift, hds]
    split_ifs <;> rfl

theorem isL4s_shift : isL4s (item.shift k) = isL4s item := rfl

theorem afterEq_shift (h : sameOrder k a b = true) :
    coDelTimeAfterEq (a + .ofNat k) (b + .ofNat k) = coDelTimeAfterEq a b := by
  have hle : ∀ x y : UInt32, coDelTimeAfterEq x y = decide (y ≤ x) := by
    intro x y
    refine decide_eq_decide.2 ?_
    rw [UInt32.le_iff_toNat_le]
    omega
  rw [hle, hle]
  exact (of_decide_eq_true h).symm

theorem after_shift (h : sameOrder k a b = true) :
    coDelTimeAfter (a + .ofNat k) (b + .ofNat k) = coDelTimeAfter a b := by
  have hlt : ∀ x y : UInt32, coDelTimeAfter x y = (coDelTimeAfterEq x y && decide (x ≠ y)) := by
    intro x y
    rw [coDelTimeAfter, coDelTimeAfterEq, ← Bool.decide_and]
    refine decide_eq_decide.2 ?_
    rw [ne_eq, ← UInt32.toNat_inj]
    omega
  rw [hlt, hlt, afterEq_shift h]
  exact congrArg _ (decide_eq_decide.2 (not_congr (UInt32.add_left_inj _)))

/-- Every function keeps the relation of the two runs, and its results are those of the first
run. -/
theorem Shifted.okToDrop (h : Shifted k s s') (hs : okSteady p now k s item = true) :
    (s'.okToDrop p (now + 1024 * k) (some (item.shift k))).1 =
        (s.okToDrop p now (some item)).1 ∧
      Shifted k (s.okToDrop p now (some item)).2
        (s'.okToDrop p (now + 1024 * k) (some (item.shift k))).2 := by
  have hbytes : nBytes s'.queue = nBytes s.queue := by rw [h.queue, nBytes_shift]
  rw [CoDelQueueDisc.okToDrop, CoDelQueueDisc.okToDrop, sojournTime_shift, hbytes,
    coDelGetTime_shift]
  rw [okSteady, below] at hs
  by_cases hbelow : (coDelTimeBefore (sojournTime now item) (time2CoDel p.target) ||
      decide (nBytes s.queue < p.minBytes)) = true
  · rw [if_pos hbelow, if_pos hbelow]
    exact ⟨rfl, { h with firstAboveTime := Or.inl ⟨rfl, rfl⟩ }⟩
  · rw [if_neg hbelow, if_neg hbelow]
    rw [Bool.or_eq_true, or_iff_right hbelow] at hs
    rcases h.firstAboveTime with ⟨hzero, hzero'⟩ | ⟨hne, hne', heq⟩
    · rw [if_pos hzero, Bool.and_eq_true, decide_eq_true_eq, decide_eq_true_eq] at hs
      rw [if_pos hzero, if_pos hzero']
      have hadd : coDelGetTime now + .ofNat k + time2CoDel p.interval =
          coDelGetTime now + time2CoDel p.interval + .ofNat k := by
        rw [UInt32.add_assoc, UInt32.add_comm (.ofNat k), UInt32.add_assoc]
      rw [hadd]
      exact ⟨rfl, { h with firstAboveTime := Or.inr ⟨hs.1, hs.2, rfl⟩ }⟩
    · rw [if_neg hne] at hs
      rw [if_neg hne, if_neg hne', heq]
      exact ⟨after_shift hs, h⟩

theorem Shifted.okToDrop_none (h : Shifted k s s') :
    Shifted k (s.okToDrop p now none).2 (s'.okToDrop p (now + 1024 * k) none).2 :=
  { h with firstAboveTime := Or.inl ⟨rfl, rfl⟩ }

theorem controlLaw_shift (a i : UInt32) (r : UInt16) :
    controlLaw (a + .ofNat k) i r = controlLaw a i r + .ofNat k := by
  rw [controlLaw, controlLaw, UInt32.add_assoc, UInt32.add_comm (.ofNat k), UInt32.add_assoc]

theorem Shifted.setDropping (h : Shifted k s s') :
    Shifted k { s with dropping := false } { s' with dropping := false } := by
  refine { h with dropping := rfl, dropNext := ?_ }
  rcases h.dropNext with hd | hd
  · exact Or.inl hd
  · exact Or.inr ⟨rfl, hd.2⟩

theorem Shifted.setQueue (h : Shifted k s s') (queue : List QueueDiscItem) :
    Shifted k { s with queue := queue } { s' with queue := queue.map (.shift k) } :=
  { h with queue := rfl }

theorem Shifted.dropNext_eq (h : Shifted k s s') (hdrop : s.dropping = true) :
    s'.dropNext = s.dropNext + .ofNat k := by
  rcases h.dropNext with hd | hd
  · exact hd
  · rw [hdrop] at hd
    cases hd.1

theorem Shifted.nextCount (h : Shifted k s s') (hdrop : s.dropping = true) :
    Shifted k s.nextCount s'.nextCount := by
  refine { h with count := ?_, recInvSqrt := ?_, dropNext := ?_ }
  · exact congrArg (· + 1) h.count
  · exact congrArg₂ newtonStep h.recInvSqrt (congrArg (· + 1) h.count)
  · exact Or.inl (h.dropNext_eq hdrop)

theorem Shifted.setDropNext (h : Shifted k s s') {a b : UInt32} (hab : b = a + .ofNat k) :
    Shifted k { s with dropNext := a } { s' with dropNext := b } :=
  { h with dropNext := Or.inl hab }

theorem Shifted.nextDrop (h : Shifted k s s') (hdrop : s.dropping = true) (i : UInt32) :
    Shifted k { s with dropNext := controlLaw s.dropNext i s.recInvSqrt }
      { s' with dropNext := controlLaw s'.dropNext i s'.recInvSqrt } := by
  refine h.setDropNext ?_
  rw [h.dropNext_eq hdrop, h.recInvSqrt, controlLaw_shift]

theorem ecnMark_shift (p : CoDelParams) (k : ℕ) (item : QueueDiscItem) :
    (if p.useEcn then (item.shift k).mark else none) =
      (if p.useEcn then item.mark else none).map (.shift k) := by
  split_ifs
  · exact mark_shift
  · rfl

theorem Shifted.due (h : Shifted k s s') (hdrop : s.dropping = true)
    (hs : sameOrder k (coDelGetTime now) s.dropNext = true) :
    (s'.dropping && coDelTimeAfterEq (coDelGetTime (now + 1024 * k)) s'.dropNext) =
      (s.dropping && coDelTimeAfterEq (coDelGetTime now) s.dropNext) := by
  rw [h.dropping, h.dropNext_eq hdrop, coDelGetTime_shift, afterEq_shift hs]

/-- The loop ends at an item, if it is not dropped. -/
theorem Shifted.dropLoop_of {dropped : List QueueDiscItem} (h : Shifted k s s')
    (hs : s.dropping = true → sameOrder k (coDelGetTime now) s.dropNext = true)
    (hdrop : s.dropping = true → coDelTimeAfterEq (coDelGetTime now) s.dropNext = true →
      (s'.dropping && coDelTimeAfterEq (coDelGetTime (now + 1024 * k)) s'.dropNext) = true →
      (if p.useEcn then item.mark else none) = none →
      (if p.useEcn then (item.shift k).mark else none) = none →
      (s'.dropLoop p (now + 1024 * k) (queue.map (.shift k)) (dropped.map (.shift k))
            (item.shift k)).2 = (s.dropLoop p now queue dropped item).2.shift k ∧
        Shifted k (s.dropLoop p now queue dropped item).1
          (s'.dropLoop p (now + 1024 * k) (queue.map (.shift k)) (dropped.map (.shift k))
            (item.shift k)).1) :
    (s'.dropLoop p (now + 1024 * k) (queue.map (.shift k)) (dropped.map (.shift k))
          (item.shift k)).2 = (s.dropLoop p now queue dropped item).2.shift k ∧
      Shifted k (s.dropLoop p now queue dropped item).1
        (s'.dropLoop p (now + 1024 * k) (queue.map (.shift k)) (dropped.map (.shift k))
          (item.shift k)).1 := by
  by_cases hd : s.dropping = true
  · have hdue := h.due hd (hs hd)
    cases hafter : coDelTimeAfterEq (coDelGetTime now) s.dropNext with
    | false =>
      rw [hd, Bool.true_and, hafter] at hdue
      have hnot : (s.dropping && coDelTimeAfterEq (coDelGetTime now) s.dropNext) = false := by
        rw [hafter, Bool.and_false]
      rw [dropLoop_of_not_due hnot, dropLoop_of_not_due hdue]
      exact ⟨rfl, h⟩
    | true =>
      have htrue : (s.dropping && coDelTimeAfterEq (coDelGetTime now) s.dropNext) = true := by
        rw [hafter, hd, Bool.true_and]
      have hmark := ecnMark_shift p k item
      cases hm : (if p.useEcn then item.mark else none) with
      | none =>
        rw [hm] at hmark
        exact hdrop hd hafter (hdue.trans htrue) hm hmark
      | some marked =>
        rw [hm] at hmark
        rw [dropLoop_of_mark htrue hm, dropLoop_of_mark (hdue.trans htrue) hmark]
        refine ⟨rfl, (h.nextCount hd).setDropNext ?_⟩
        rw [coDelGetTime_shift, controlLaw_shift, (h.nextCount hd).recInvSqrt]
  · have hnot : (s.dropping && coDelTimeAfterEq (coDelGetTime now) s.dropNext) = false := by
      simp [hd]
    have hnot' : (s'.dropping && coDelTimeAfterEq (coDelGetTime (now + 1024 * k)) s'.dropNext) =
        false := by
      simp [h.dropping, hd]
    rw [dropLoop_of_not_due hnot, dropLoop_of_not_due hnot']
    exact ⟨rfl, h⟩

/-- A packet that is dropped in the loop takes the time of the next drop with it. -/
theorem Shifted.dropLoop (queue : List QueueDiscItem) :
    ∀ (dropped : List QueueDiscItem) {s s' : CoDelQueueDisc} {item : QueueDiscItem},
      Shifted k s s' → loopSteady p now k queue s item = true →
      (s'.dropLoop p (now + 1024 * k) (queue.map (.shift k)) (dropped.map (.shift k))
            (item.shift k)).2 = (s.dropLoop p now queue dropped item).2.shift k ∧
        Shifted k (s.dropLoop p now queue dropped item).1
          (s'.dropLoop p (now + 1024 * k) (queue.map (.shift k)) (dropped.map (.shift k))
            (item.shift k)).1 := by
  induction queue with
  | nil =>
    intro dropped s s' item h hs
    rw [loopSteady] at hs
    refine h.dropLoop_of ?_ ?_
    · intro hd
      rw [if_pos hd, Bool.and_eq_true] at hs
      exact hs.1
    · intro hd hafter hdue hm hmark
      rw [List.map_nil, dropLoop_nil hdue hmark, dropLoop_nil (by simp [hd, hafter]) hm]
      refine ⟨?_, (h.nextCount hd).okToDrop_none.setDropping⟩
      simp [Dequeued.shift]
  | cons next queue ih =>
    intro dropped s s' item h hs
    rw [loopSteady] at hs
    refine h.dropLoop_of ?_ ?_
    · intro hd
      rw [if_pos hd, Bool.and_eq_true] at hs
      exact hs.1
    · intro hd hafter hdue hm hmark
      rw [if_pos hd, hafter, if_pos rfl, hm] at hs
      simp only [Bool.and_eq_true] at hs
      have hok := ((h.nextCount hd).setQueue queue).okToDrop hs.2.1
      have hdrop := okToDrop_dropping p now { s.nextCount with queue := queue } (some next)
      rw [List.map_cons, dropLoop_cons hdue hmark, dropLoop_cons (by simp [hd, hafter]) hm]
      simp only [hok.1]
      cases hr :
        (CoDelQueueDisc.okToDrop p now { s.nextCount with queue := queue } (some next)).1 with
      | false =>
        refine ⟨?_, hok.2.setDropping⟩
        simp [Dequeued.shift]
      | true =>
        have hsteady := hs.2.2
        rw [hr] at hsteady
        have hlaw := hok.2.nextDrop (hdrop.trans hd) (time2CoDel p.interval)
        have hrest := ih (dropped ++ [item]) hlaw hsteady
        rw [List.map_append] at hrest
        exact hrest

theorem Shifted.enterDropping (h : Shifted k s s') :
    Shifted k (s.enterDropping p now) (s'.enterDropping p (now + 1024 * k)) := by
  have hrecent : (decide ((s'.count - s'.lastCount).toInt32 > 1) &&
        coDelTimeBefore (coDelGetTime (now + 1024 * k) - s'.dropNext)
          (16 * time2CoDel p.interval)) =
      (decide ((s.count - s.lastCount).toInt32 > 1) &&
        coDelTimeBefore (coDelGetTime now - s.dropNext) (16 * time2CoDel p.interval)) := by
    rw [h.count, h.lastCount, coDelGetTime_shift]
    rcases h.dropNext with hnext | ⟨-, heq⟩
    · have hsub : coDelGetTime now + .ofNat k - (s.dropNext + .ofNat k) =
          coDelGetTime now - s.dropNext := by grind
      rw [hnext, hsub]
    · rw [heq, UInt32.sub_self]
      rfl
  rw [enterDropping_eq _ rfl, enterDropping_eq _ hrecent, h.count, h.lastCount, h.recInvSqrt]
  exact {
    queue := h.queue
    count := rfl
    lastCount := rfl
    dropping := rfl
    recInvSqrt := rfl
    firstAboveTime := h.firstAboveTime
    dropNext := by
      rw [coDelGetTime_shift]
      exact Or.inl (controlLaw_shift _ _ _) }

/-- The result of `OkToDrop` for the packet behind the first one that is dropped is not used. -/
theorem Shifted.okToDrop_of_ne (h : Shifted k s s') (hs : s.firstAboveTime ≠ 0) :
    Shifted k (s.okToDrop p now (some item)).2
      (s'.okToDrop p (now + 1024 * k) (some (item.shift k))).2 := by
  have hbytes : nBytes s'.queue = nBytes s.queue := by rw [h.queue, nBytes_shift]
  have hs' : s'.firstAboveTime ≠ 0 := by
    rcases h.firstAboveTime with ⟨hzero, -⟩ | ⟨-, hne, -⟩
    · exact absurd hzero hs
    · exact hne
  rw [CoDelQueueDisc.okToDrop, CoDelQueueDisc.okToDrop, sojournTime_shift, hbytes, if_neg hs,
    if_neg hs']
  split_ifs
  · exact { h with firstAboveTime := Or.inl ⟨rfl, rfl⟩ }
  · exact h

theorem Shifted.firstDrop (h : Shifted k s s') (hs : s.firstAboveTime ≠ 0) :
    (s'.firstDrop p (now + 1024 * k) (item.shift k)).2 = (s.firstDrop p now item).2.shift k ∧
      Shifted k (s.firstDrop p now item).1 (s'.firstDrop p (now + 1024 * k) (item.shift k)).1 := by
  rw [CoDelQueueDisc.firstDrop, CoDelQueueDisc.firstDrop, ecnMark_shift]
  cases (if p.useEcn then item.mark else none) with
  | some marked => exact ⟨rfl, h.enterDropping⟩
  | none =>
    rw [pop, pop, h.queue]
    cases s.queue with
    | nil =>
      exact ⟨rfl, h.okToDrop_none.enterDropping⟩
    | cons next queue =>
      exact ⟨rfl, ((h.setQueue queue).okToDrop_of_ne hs).enterDropping⟩

theorem firstAboveTime_of_ok (h : (s.okToDrop p now (some item)).1 = true) :
    (s.okToDrop p now (some item)).2.firstAboveTime ≠ 0 := by
  rw [CoDelQueueDisc.okToDrop] at h ⊢
  split_ifs at h ⊢ with hbelow hzero
  exact hzero

theorem Shifted.dropPhase (h : Shifted k s s') (hok : okSteady p now k s item = true)
    (hloop : (s.okToDrop p now (some item)).2.dropping = true →
      (s.okToDrop p now (some item)).1 = true →
      loopSteady p now k (s.okToDrop p now (some item)).2.queue
        (s.okToDrop p now (some item)).2 item = true) :
    (s'.dropPhase p (now + 1024 * k) (item.shift k)).2 = (s.dropPhase p now item).2.shift k ∧
      Shifted k (s.dropPhase p now item).1 (s'.dropPhase p (now + 1024 * k) (item.shift k)).1 := by
  obtain ⟨heq, hnext⟩ := h.okToDrop hok
  simp only [CoDelQueueDisc.dropPhase, heq, hnext.dropping]
  cases hdrop : (s.okToDrop p now (some item)).2.dropping with
  | false =>
    cases htrue : (s.okToDrop p now (some item)).1 with
    | false => exact ⟨rfl, hnext⟩
    | true => exact hnext.firstDrop (firstAboveTime_of_ok htrue)
  | true =>
    cases htrue : (s.okToDrop p now (some item)).1 with
    | false => exact ⟨rfl, hnext.setDropping⟩
    | true =>
      have hrun := Shifted.dropLoop _ [] hnext (hloop hdrop htrue)
      rw [← hnext.queue] at hrun
      exact hrun

theorem endPhase_shift (r : Dequeued) :
    endPhase p (now + 1024 * k) (r.shift k) = (endPhase p now r).map (.shift k) := by
  obtain ⟨dropped, item, marked⟩ := r
  cases item with
  | none => rfl
  | some item =>
    simp only [endPhase, Dequeued.shift, Option.map_some, sojournTime_shift, mark_shift]
    split_ifs
    · cases item.mark <;> rfl
    · rfl

theorem l4sPhase_shift (item : QueueDiscItem) :
    l4sPhase p (now + 1024 * k) (item.shift k) = (l4sPhase p now item).shift k := by
  rw [l4sPhase, l4sPhase, sojournTime_shift, mark_shift]
  split_ifs
  · cases item.mark <;> rfl
  · rfl

theorem Shifted.doDequeue (h : Shifted k s s') (hs : dequeueSteady p now k s = true) :
    (s.doDequeue p now = none ∧ s'.doDequeue p (now + 1024 * k) = none) ∨
      ∃ t t' r, s.doDequeue p now = some (t, r) ∧
        s'.doDequeue p (now + 1024 * k) = some (t', r.shift k) ∧ Shifted k t t' := by
  rw [CoDelQueueDisc.doDequeue, CoDelQueueDisc.doDequeue, pop, pop, h.queue]
  rw [dequeueSteady] at hs
  cases hqueue : s.queue with
  | nil => exact Or.inr ⟨_, _, _, rfl, rfl, h.setDropping⟩
  | cons item queue =>
    rw [hqueue] at hs
    have hrest := h.setQueue queue
    cases hl4s : p.useL4s && isL4s item with
    | true =>
      simp only [List.map_cons, isL4s_shift, hl4s, if_true, l4sPhase_shift]
      exact Or.inr ⟨_, _, _, rfl, rfl, hrest⟩
    | false =>
      simp only [hl4s, Bool.and_eq_true, Bool.false_eq_true, if_false] at hs
      obtain ⟨heq, hphase⟩ := hrest.dropPhase hs.1 (by
        intro hdrop hok
        rw [hdrop, hok] at hs
        exact hs.2)
      simp only [List.map_cons, isL4s_shift, hl4s, heq, endPhase_shift, Bool.false_eq_true,
        if_false]
      cases endPhase p now
          (CoDelQueueDisc.dropPhase p now { s with queue := queue } item).2 with
      | none => exact Or.inl ⟨rfl, rfl⟩
      | some r => exact Or.inr ⟨_, _, _, rfl, rfl, hphase⟩

theorem Shifted.enqueue (h : Shifted k s s') (p : CoDelParams) (now : ℕ) (item : QueueDiscItem) :
    (s'.enqueue p (now + 1024 * k) (item.shift k)).2 = (s.enqueue p now item).2 ∧
      Shifted k (s.enqueue p now item).1 (s'.enqueue p (now + 1024 * k) (item.shift k)).1 := by
  have hfull : s'.full p (item.shift k) = s.full p item := by
    rw [full, full, h.queue, nBytes_shift, List.length_map]
    rfl
  rw [CoDelQueueDisc.enqueue, CoDelQueueDisc.enqueue, hfull]
  split_ifs
  · exact ⟨rfl, h⟩
  · refine ⟨rfl, { h with queue := ?_ }⟩
    rw [h.queue, List.map_append]
    rfl

/-! ## Runs -/

theorem outputs_of_shifted (events : List CoDelEvent) :
    ∀ {s s' : CoDelQueueDisc}, Shifted k s s' → steady p k s events = true →
      outputs p s' (events.map (.shift k)) = (outputs p s events).map (·.map (.shift k)) := by
  induction events with
  | nil =>
    intro s s' _ _
    rfl
  | cons e events ih =>
    intro s s' h hs
    cases e with
    | enqueue now item =>
      obtain ⟨heq, hnext⟩ := h.enqueue p now item
      have hrest := ih hnext hs
      simp only [List.map_cons, outputs, step, CoDelEvent.shift, heq, Option.bind_eq_bind,
        Option.bind_some, hrest]
      cases outputs p (s.enqueue p now item).1 events <;> rfl
    | dequeue now =>
      rw [steady, Bool.and_eq_true] at hs
      rcases h.doDequeue hs.1 with ⟨hnone, hnone'⟩ | ⟨t, t', r, hsome, hsome', hnext⟩
      · simp [outputs, step, CoDelEvent.shift, hnone, hnone']
      · rw [hsome] at hs
        have hrest := ih hnext hs.2
        simp only [List.map_cons, outputs, step, CoDelEvent.shift, hsome, hsome', Option.map_some,
          Option.bind_eq_bind, Option.bind_some, hrest]
        cases outputs p t events <;> rfl

/-- Absolute time has no influence on the packets that are dropped, marked and delivered. -/
theorem outputs_shift (p : CoDelParams) (k : ℕ) (events : List CoDelEvent)
    (h : steady p k {} events = true) :
    outputs p {} (events.map (.shift k)) = (outputs p {} events).map (·.map (.shift k)) :=
  outputs_of_shifted events
    ⟨rfl, rfl, rfl, rfl, rfl, Or.inl ⟨rfl, rfl⟩, Or.inr ⟨rfl, rfl⟩⟩ h

/-- Five packets are enqueued at once. The second one that is dequeued has waited for 120 ms. -/
def shortRun : List CoDelEvent :=
  [.enqueue 0 ⟨0, 1000, none, 0⟩, .enqueue 0 ⟨1, 1000, none, 0⟩, .enqueue 0 ⟨2, 1000, none, 0⟩,
    .enqueue 0 ⟨3, 1000, none, 0⟩, .enqueue 0 ⟨4, 1000, none, 0⟩, .dequeue 10000000,
    .dequeue 120000000]

/-- The run starts later by one unit of the clock. -/
theorem outputs_shift_shortRun :
    outputs {} {} (shortRun.map (.shift 1)) = (outputs {} {} shortRun).map (·.map (.shift 1)) :=
  outputs_shift {} 1 shortRun (by decide)

/-- If the first packet is dequeued when the clock shows 0 an interval later, none is dropped. -/
theorem not_outputs_shift :
    ¬ ∀ (p : CoDelParams) (k : ℕ) (events : List CoDelEvent), p.interval < 1024 * 2 ^ 31 →
      p.target < 1024 * 2 ^ 31 →
      outputs p {} (events.map (.shift k)) = (outputs p {} events).map (·.map (.shift k)) := by
  intro h
  have hrun := h {} (2 ^ 32 - 107421) shortRun (by decide) (by decide)
  revert hrun
  decide

end CoDelQueueDisc

end Ns3Pedca
