import Ns3Pedca.ReciprocalSqrt
import Ns3Pedca.Runs
import Ns3Pedca.TrafficControl.CoDelQueueDisc

/-!
# The control law of CoDel

The time between two drops is the interval divided by the square root of the number of drops.
`m_recInvSqrt` holds the reciprocal root in 16 bits, and one Newton step follows each change of
`m_count`. `ControlOp` are the changes of the two, and the uses of the control law, in the order in
which `DoDequeue` executes them (`dequeueOps`).

An operation that gets what it asks for does not overflow, and leaves a reciprocal root that is
positive and not overestimated (`Control.Precise.fits`, `Control.Precise.apply`). In a run with
fewer than 2³¹ drops and marks all operations get it, the loop of the dropping state ends, and there
is a packet behind the label `end` (`control_law`).
-/

namespace Ns3Pedca

open ReciprocalSqrt

namespace CoDelQueueDisc

/-! ## The arithmetic -/

/-- No operation of `NewtonStep` overflows. -/
structure NewtonFits (recInvSqrt : UInt16) (count : UInt32) : Prop where
  square : (recInvSqrt.toNat * 2 ^ 16) * (recInvSqrt.toNat * 2 ^ 16) < 2 ^ 64
  product : count.toNat * ((recInvSqrt.toNat * 2 ^ 16) ^ 2 / 2 ^ 32) < 2 ^ 64
  difference : count.toNat * ((recInvSqrt.toNat * 2 ^ 16) ^ 2 / 2 ^ 32) ≤ 3 * 2 ^ 32
  result : (3 * 2 ^ 32 - count.toNat * ((recInvSqrt.toNat * 2 ^ 16) ^ 2 / 2 ^ 32)) / 4 *
    (recInvSqrt.toNat * 2 ^ 16) < 2 ^ 64

variable {r : UInt16} {n : UInt32}

theorem sq_shifted (r : ℕ) : (r * 2 ^ 16) ^ 2 / 2 ^ 32 = r ^ 2 := by
  rw [mul_pow, ← pow_mul, Nat.mul_div_cancel _ (by norm_num)]

theorem newtonFits_of_le (h : n.toNat * r.toNat ^ 2 ≤ 3 * 2 ^ 32) : NewtonFits r n := by
  have hr : r.toNat < 2 ^ 16 := r.toNat_lt
  have hshift : r.toNat * 2 ^ 16 < 2 ^ 32 := by omega
  refine ⟨?_, ?_, ?_, ?_⟩
  · calc (r.toNat * 2 ^ 16) * (r.toNat * 2 ^ 16) < 2 ^ 32 * 2 ^ 32 := Nat.mul_lt_mul'' hshift hshift
      _ = 2 ^ 64 := by norm_num
  · rw [sq_shifted]
    omega
  · rwa [sq_shifted]
  · rw [sq_shifted]
    calc (3 * 2 ^ 32 - n.toNat * r.toNat ^ 2) / 4 * (r.toNat * 2 ^ 16)
        ≤ 3 * 2 ^ 30 * (r.toNat * 2 ^ 16) := Nat.mul_le_mul_right _ (by omega)
      _ ≤ 3 * 2 ^ 30 * 2 ^ 32 := Nat.mul_le_mul_left _ hshift.le
      _ < 2 ^ 64 := by norm_num

theorem toNat_shifted (r : UInt16) :
    (r.toUInt32 <<< 16).toUInt64.toNat = r.toNat * 2 ^ 16 := by
  have hr : r.toNat < 2 ^ 16 := r.toNat_lt
  rw [UInt32.toNat_toUInt64, UInt32.toNat_shiftLeft, UInt16.toNat_toUInt32]
  change r.toNat <<< 16 % 2 ^ 32 = _
  rw [Nat.shiftLeft_eq, Nat.mod_eq_of_lt (by omega)]

theorem toNat_shiftRight {x : UInt64} (k : UInt64) (hk : k.toNat < 64) :
    (x >>> k).toNat = x.toNat / 2 ^ k.toNat := by
  rw [UInt64.toNat_shiftRight, Nat.mod_eq_of_lt hk, Nat.shiftRight_eq_div_pow]

theorem toNat_mul_of_lt {x y : UInt64} (h : x.toNat * y.toNat < 2 ^ 64) :
    (x * y).toNat = x.toNat * y.toNat := by
  rw [UInt64.toNat_mul, Nat.mod_eq_of_lt h]

/-- `NewtonStep` is a Newton step for `2³² / count`, if its operations fit. -/
theorem toNat_newtonStep (h : n.toNat * r.toNat ^ 2 ≤ 3 * 2 ^ 32)
    (hlt : newton (2 ^ 32) r.toNat n.toNat < 2 ^ 16) :
    (newtonStep r n).toNat = newton (2 ^ 32) r.toNat n.toNat := by
  obtain ⟨hsquare, hproduct, -, hresult⟩ := newtonFits_of_le h
  rw [sq_shifted] at hproduct hresult
  have hr : r.toNat ^ 2 < 2 ^ 32 := by
    calc r.toNat ^ 2 < (2 ^ 16) ^ 2 := Nat.pow_lt_pow_left r.toNat_lt (by norm_num)
      _ = 2 ^ 32 := by norm_num
  unfold newtonStep
  extract_lets invsqrt invsqrt2 val val' val''
  have hinvsqrt : invsqrt.toUInt64.toNat = r.toNat * 2 ^ 16 := toNat_shifted r
  have hinvsqrt2 : invsqrt2.toNat = r.toNat ^ 2 := by
    have hmul : (invsqrt.toUInt64 * invsqrt.toUInt64).toNat = (r.toNat * 2 ^ 16) ^ 2 := by
      rw [toNat_mul_of_lt (by rwa [hinvsqrt]), hinvsqrt, sq]
    rw [UInt64.toNat_toUInt32, toNat_shiftRight 32 (by decide), hmul]
    change (r.toNat * 2 ^ 16) ^ 2 / 2 ^ 32 % 2 ^ 32 = _
    rw [sq_shifted, Nat.mod_eq_of_lt hr]
  have hval : val.toNat = 3 * 2 ^ 32 - n.toNat * r.toNat ^ 2 := by
    have hmul : (n.toUInt64 * invsqrt2.toUInt64).toNat = n.toNat * r.toNat ^ 2 := by
      rw [toNat_mul_of_lt (by rwa [UInt32.toNat_toUInt64, UInt32.toNat_toUInt64, hinvsqrt2]),
        UInt32.toNat_toUInt64, UInt32.toNat_toUInt64, hinvsqrt2]
    have hle : (n.toUInt64 * invsqrt2.toUInt64).toNat ≤ ((3 : UInt64) <<< 32).toNat :=
      hmul.trans_le h
    rw [UInt64.toNat_sub_of_le _ _ (UInt64.le_iff_toNat_le.2 hle), hmul]
    rfl
  have hval' : val'.toNat = (3 * 2 ^ 32 - n.toNat * r.toNat ^ 2) / 4 := by
    rw [toNat_shiftRight 2 (by decide), hval]
    rfl
  have hval'' : val''.toNat =
      (3 * 2 ^ 32 - n.toNat * r.toNat ^ 2) / 4 * (r.toNat * 2 ^ 16) / 2 ^ 31 := by
    rw [toNat_shiftRight (32 - 2 + 1) (by decide),
      toNat_mul_of_lt (by rwa [hval', hinvsqrt]), hval', hinvsqrt]
    rfl
  have hshift : (val'' >>> 16).toNat = newton (2 ^ 32) r.toNat n.toNat := by
    rw [toNat_shiftRight 16 (by decide), hval'', newton, Nat.div_div_eq_div_mul, ← mul_assoc]
    exact Nat.mul_div_mul_right _ (2 ^ 31) (by norm_num)
  rw [UInt64.toNat_toUInt16, hshift, Nat.mod_eq_of_lt hlt]

/-! ## The control law as a machine -/

/-- A change of `m_count` with its Newton step, or a use of the control law. -/
inductive ControlOp
  | next
  | resume (count : UInt32)
  | restart
  | space (interval : UInt32)
  deriving DecidableEq

/-- `m_count` and `m_recInvSqrt`. -/
structure Control where
  count : UInt32
  recInvSqrt : UInt16

namespace Control

/-- The two after an operation. -/
def apply (c : Control) : ControlOp → Control
  | .next => ⟨c.count + 1, newtonStep c.recInvSqrt (c.count + 1)⟩
  | .resume count => ⟨count, newtonStep c.recInvSqrt count⟩
  | .restart => ⟨1, 0xffff⟩
  | .space _ => c

/-- The time that `ControlLaw` adds. -/
def spacing (c : Control) (interval : UInt32) : UInt32 :=
  reciprocalDivide interval (c.recInvSqrt.toUInt32 <<< 16)

/-- A Newton step does not overflow, and the control law does not add more than the interval
divided by the root of the count. -/
def Fits (c : Control) : ControlOp → Prop
  | .next => NewtonFits c.recInvSqrt (c.count + 1)
  | .resume count => NewtonFits c.recInvSqrt count
  | .restart => True
  | .space interval => (c.spacing interval).toNat ^ 2 * c.count.toNat ≤ interval.toNat ^ 2

/-- What is asked of an operation. -/
def OpOk (c : Control) : ControlOp → Prop
  | .next => 1 ≤ c.count.toNat ∧ c.count.toNat + 1 < 2 ^ 31
  | .resume count => 2 ≤ count.toNat ∧ count.toNat ≤ c.count.toNat
  | .restart => True
  | .space _ => 1 ≤ c.count.toNat

/-- The reciprocal root is positive, and not overestimated. -/
def Precise (c : Control) : Prop :=
  1 ≤ c.count.toNat → Below (2 ^ 32) c.recInvSqrt.toNat c.count.toNat

variable {c : Control} {op : ControlOp} {ops : List ControlOp}

/-- A root of at least 2 fits into 16 bits. -/
theorem newton_lt {r n : ℕ} (h : Below (2 ^ 32) r n) (hn : 2 ≤ n) : r < 2 ^ 16 := by
  by_contra hle
  have hsq : (2 ^ 16) ^ 2 * 2 ≤ r ^ 2 * n :=
    Nat.mul_le_mul (Nat.pow_le_pow_left (not_lt.1 hle) 2) hn
  have hscale := h.sq_mul_le
  omega

theorem toNat_succ {n : UInt32} (h : n.toNat + 1 < 2 ^ 31) : (n + 1).toNat = n.toNat + 1 := by
  rw [UInt32.toNat_add]
  exact Nat.mod_eq_of_lt (by change n.toNat + 1 < 2 ^ 32; omega)

theorem Precise.apply (h : Precise c) (hok : OpOk c op) : Precise (c.apply op) := by
  cases op with
  | next =>
    intro _
    obtain ⟨hpos, hlt⟩ := hok
    have hnext := (h hpos).next (by norm_num) (by norm_num) hpos (by omega)
    have hfit := (h hpos).mul_succ_le hpos
    change Below _ (newtonStep c.recInvSqrt (c.count + 1)).toNat (c.count + 1).toNat
    rw [← toNat_succ hlt] at hnext hfit
    rwa [toNat_newtonStep (by omega) (newton_lt hnext (by rw [toNat_succ hlt]; omega))]
  | resume count =>
    intro _
    obtain ⟨htwo, hle⟩ := hok
    have hbelow := h (by omega)
    have hresume := hbelow.newton (by norm_num) (by norm_num) hle
    have hfit := hbelow.mul_le hle
    change Below _ (newtonStep c.recInvSqrt count).toNat count.toNat
    rwa [toNat_newtonStep (by omega) (newton_lt hresume htwo)]
  | restart =>
    intro _
    change Below (2 ^ 32) (0xffff : UInt16).toNat (1 : UInt32).toNat
    exact ⟨by decide, by decide⟩
  | space interval => exact h

theorem toNat_spacing (interval : UInt32) :
    (c.spacing interval).toNat = interval.toNat * c.recInvSqrt.toNat / 2 ^ 16 := by
  have hr : c.recInvSqrt.toNat < 2 ^ 16 := c.recInvSqrt.toNat_lt
  have hinterval : interval.toNat < 2 ^ 32 := interval.toNat_lt
  have hmul : interval.toNat * (c.recInvSqrt.toNat * 2 ^ 16) < 2 ^ 64 := by
    calc interval.toNat * (c.recInvSqrt.toNat * 2 ^ 16) < 2 ^ 32 * 2 ^ 32 :=
          Nat.mul_lt_mul'' hinterval (by omega)
      _ = 2 ^ 64 := by norm_num
  have hlt : interval.toNat * c.recInvSqrt.toNat / 2 ^ 16 < 2 ^ 32 := by
    refine Nat.div_lt_of_lt_mul ?_
    calc interval.toNat * c.recInvSqrt.toNat < 2 ^ 32 * 2 ^ 16 := Nat.mul_lt_mul'' hinterval hr
      _ = 2 ^ 16 * 2 ^ 32 := by norm_num
  rw [spacing, reciprocalDivide, UInt64.toNat_toUInt32, toNat_shiftRight 32 (by decide),
    toNat_mul_of_lt (by rwa [toNat_shifted, UInt32.toNat_toUInt64]), toNat_shifted,
    UInt32.toNat_toUInt64, ← mul_assoc]
  change interval.toNat * c.recInvSqrt.toNat * 2 ^ 16 / (2 ^ 16 * 2 ^ 16) % 2 ^ 32 = _
  rw [Nat.mul_div_mul_right _ _ (by norm_num), Nat.mod_eq_of_lt hlt]

theorem Precise.fits (h : Precise c) (hok : OpOk c op) : Fits c op := by
  cases op with
  | next =>
    have hfit := (h hok.1).mul_succ_le hok.1
    rw [← toNat_succ hok.2] at hfit
    exact newtonFits_of_le (by omega)
  | resume count =>
    have hfit := (h (by obtain ⟨htwo, hle⟩ := hok; omega)).mul_le hok.2
    exact newtonFits_of_le (by omega)
  | restart => trivial
  | space interval =>
    rw [Fits, toNat_spacing]
    exact (h hok).scaled_sq_mul_le (by norm_num) _

/-- The number of drops and marks that operations belong to. -/
def gains : List ControlOp → ℕ
  | [] => 0
  | .next :: ops => gains ops + 1
  | .restart :: ops => gains ops + 1
  | _ :: ops => gains ops

/-- The count grows by no more than the drops and marks. -/
theorem count_run_le (h : Runs.Each apply OpOk c ops) :
    (Runs.run apply c ops).count.toNat ≤ c.count.toNat + gains ops := by
  induction ops generalizing c with
  | nil => exact le_rfl
  | cons op ops ih =>
    obtain ⟨hok, hrest⟩ := h
    refine (ih hrest).trans ?_
    cases op with
    | next =>
      change (c.count + 1).toNat + gains ops ≤ c.count.toNat + (gains ops + 1)
      rw [toNat_succ hok.2]
      omega
    | resume count => exact Nat.add_le_add_right hok.2 _
    | restart =>
      change 1 + gains ops ≤ c.count.toNat + (gains ops + 1)
      omega
    | space interval => exact le_rfl

end Control

/-! ## The operations of `DoDequeue` -/

section Operations

variable (p : CoDelParams) (now : ℕ) (s : CoDelQueueDisc)

/-- `m_count` and `m_recInvSqrt`. -/
def control : Control :=
  ⟨s.count, s.recInvSqrt⟩

/-- The operations of the loop of the dropping state. -/
def dropLoopOps : List QueueDiscItem → CoDelQueueDisc → QueueDiscItem → List ControlOp
  | queue, s, item =>
    if s.dropping && coDelTimeAfterEq (coDelGetTime now) s.dropNext then
      let s := s.nextCount
      let interval := time2CoDel p.interval
      match if p.useEcn then item.mark else none with
      | some _ => [.next, .space interval]
      | none =>
        match queue with
        | [] => [.next]
        | next :: queue =>
          let (ok, s) := okToDrop p now { s with queue := queue } (some next)
          if !ok then [.next]
          else .next :: .space interval ::
            dropLoopOps queue
              { s with dropNext := controlLaw s.dropNext interval s.recInvSqrt } next
    else []

/-- The operations when the dropping state is entered. -/
def enterDroppingOps : List ControlOp :=
  let now := coDelGetTime now
  let interval := time2CoDel p.interval
  let delta := (s.count - s.lastCount).toInt32
  if delta > 1 && coDelTimeBefore (now - s.dropNext) (16 * interval) then
    [.resume delta.toUInt32, .space interval]
  else [.restart, .space interval]

/-- The operations of `firstDrop`. -/
def firstDropOps (item : QueueDiscItem) : List ControlOp :=
  match if p.useEcn then item.mark else none with
  | some _ => s.enterDroppingOps p now
  | none =>
    let (next, s) := s.pop
    let (_, s) := s.okToDrop p now next
    s.enterDroppingOps p now

/-- The operations of `dropPhase`. -/
def dropPhaseOps (item : QueueDiscItem) : List ControlOp :=
  let (okToDrop, s) := s.okToDrop p now (some item)
  if s.dropping then
    if !okToDrop then [] else dropLoopOps p now s.queue s item
  else if okToDrop then s.firstDropOps p now item
  else []

/-- The operations of `DoDequeue`. -/
def dequeueOps : List ControlOp :=
  match s.pop with
  | (none, _) => []
  | (some item, s) => if p.useL4s && isL4s item then [] else s.dropPhaseOps p now item

end Operations

/-! ## The loop of the dropping state -/

/-- The packets that were dropped or marked. -/
def Dequeued.losses (r : Dequeued) : ℕ :=
  r.dropped.length + if r.marked.isSome then 1 else 0

/-- A packet is due to be dropped or marked. -/
def due (now : ℕ) (s : CoDelQueueDisc) : Bool :=
  s.dropping && coDelTimeAfterEq (coDelGetTime now) s.dropNext

/-- `ControlLaw` moves the time of the next drop. -/
def spaced (p : CoDelParams) (t : UInt32) (s : CoDelQueueDisc) : CoDelQueueDisc :=
  { s with dropNext := controlLaw t (time2CoDel p.interval) s.recInvSqrt }

/-- The iterations of the loop, with what it has done in the end and its operations. -/
inductive Loops (p : CoDelParams) (now : ℕ) : List QueueDiscItem → CoDelQueueDisc →
    List QueueDiscItem → QueueDiscItem → CoDelQueueDisc × Dequeued → List ControlOp → Prop
  | done {queue : List QueueDiscItem} {s : CoDelQueueDisc} {dropped : List QueueDiscItem}
    {item : QueueDiscItem} (h : due now s = false) :
    Loops p now queue s dropped item (s, ⟨dropped, some item, none⟩) []
  | mark {queue : List QueueDiscItem} {s : CoDelQueueDisc} {dropped : List QueueDiscItem}
    {item marked : QueueDiscItem} (h : due now s = true) :
    Loops p now queue s dropped item
      (s.nextCount.spaced p (coDelGetTime now), ⟨dropped, some marked, some .targetExceeded⟩)
      [.next, .space (time2CoDel p.interval)]
  | empty {s : CoDelQueueDisc} {dropped : List QueueDiscItem} {item : QueueDiscItem}
    (h : due now s = true) :
    Loops p now [] s dropped item ({ (s.nextCount.okToDrop p now none).2 with dropping := false },
      ⟨dropped ++ [item], none, none⟩) [.next]
  | leave {queue : List QueueDiscItem} {s : CoDelQueueDisc} {dropped : List QueueDiscItem}
    {item next : QueueDiscItem} (h : due now s = true)
    (hok : (okToDrop p now { s.nextCount with queue := queue } (some next)).1 = false) :
    Loops p now (next :: queue) s dropped item
      ({ (okToDrop p now { s.nextCount with queue := queue } (some next)).2 with
        dropping := false }, ⟨dropped ++ [item], some next, none⟩) [.next]
  | again {queue : List QueueDiscItem} {s t : CoDelQueueDisc} {dropped : List QueueDiscItem}
    {item next : QueueDiscItem} {res : CoDelQueueDisc × Dequeued} {ops : List ControlOp}
    (h : due now s = true)
    (hok : okToDrop p now { s.nextCount with queue := queue } (some next) = (true, t))
    (hrest : Loops p now queue (t.spaced p t.dropNext) (dropped ++ [item]) next res ops) :
    Loops p now (next :: queue) s dropped item res
      (.next :: .space (time2CoDel p.interval) :: ops)

variable {p : CoDelParams} {now : ℕ} {s : CoDelQueueDisc} {queue dropped : List QueueDiscItem}
  {item marked next : QueueDiscItem} {res : CoDelQueueDisc × Dequeued} {ops : List ControlOp}

theorem dropLoopOps_of_not_due (h : due now s = false) :
    dropLoopOps p now queue s item = [] := by
  unfold dropLoopOps
  rw [← due, h]
  rfl

theorem dropLoopOps_of_mark (h : due now s = true)
    (hm : (if p.useEcn then item.mark else none) = some marked) :
    dropLoopOps p now queue s item = [.next, .space (time2CoDel p.interval)] := by
  unfold dropLoopOps
  rw [← due, h, hm]
  rfl

theorem dropLoopOps_nil (h : due now s = true)
    (hm : (if p.useEcn then item.mark else none) = none) :
    dropLoopOps p now [] s item = [.next] := by
  rw [dropLoopOps, ← due, h, hm]
  rfl

theorem dropLoopOps_cons (h : due now s = true)
    (hm : (if p.useEcn then item.mark else none) = none) :
    dropLoopOps p now (next :: queue) s item =
      let r := okToDrop p now { s.nextCount with queue := queue } (some next)
      if !r.1 then [.next]
      else .next :: .space (time2CoDel p.interval) ::
        dropLoopOps p now queue (r.2.spaced p r.2.dropNext) next := by
  rw [dropLoopOps, ← due, h, hm]
  rfl

theorem loops_dropLoop : Loops p now queue s dropped item
    (s.dropLoop p now queue dropped item) (dropLoopOps p now queue s item) := by
  induction queue generalizing s dropped item with
  | nil =>
    rcases Bool.eq_false_or_eq_true (due now s) with hdue | hdue
    · cases hmark : if p.useEcn then item.mark else none with
      | some marked =>
        rw [dropLoop_of_mark hdue hmark, dropLoopOps_of_mark hdue hmark]
        exact .mark hdue
      | none =>
        rw [dropLoop_nil hdue hmark, dropLoopOps_nil hdue hmark]
        exact .empty hdue
    · rw [dropLoop_of_not_due hdue, dropLoopOps_of_not_due hdue]
      exact .done hdue
  | cons next queue ih =>
    rcases Bool.eq_false_or_eq_true (due now s) with hdue | hdue
    · cases hmark : if p.useEcn then item.mark else none with
      | some marked =>
        rw [dropLoop_of_mark hdue hmark, dropLoopOps_of_mark hdue hmark]
        exact .mark hdue
      | none =>
        rw [dropLoop_cons hdue hmark, dropLoopOps_cons hdue hmark]
        dsimp only
        cases hok : (okToDrop p now { s.nextCount with queue := queue } (some next)).1 with
        | false =>
          rw [if_pos (by rfl), if_pos (by rfl)]
          exact .leave hdue hok
        | true =>
          rw [if_neg (by simp), if_neg (by simp)]
          exact .again hdue (Prod.ext hok rfl) ih
    · rw [dropLoop_of_not_due hdue, dropLoopOps_of_not_due hdue]
      exact .done hdue

/-- `OkToDrop` changes `m_firstAboveTime` only. -/
theorem okToDrop_eq (p : CoDelParams) (now : ℕ) (s : CoDelQueueDisc) (item : Option QueueDiscItem) :
    ∃ t, (s.okToDrop p now item).2 = { s with firstAboveTime := t } := by
  cases item with
  | none => exact ⟨0, rfl⟩
  | some item =>
    rw [okToDrop]
    split_ifs
    · exact ⟨0, rfl⟩
    · exact ⟨_, rfl⟩
    · exact ⟨s.firstAboveTime, rfl⟩

/-- A packet that may be dropped leaves `MinBytes` in the queue. -/
theorem ne_nil_of_okToDrop (hmin : 1 ≤ p.minBytes)
    (h : (s.okToDrop p now (some item)).1 = true) : s.queue ≠ [] := by
  intro hnil
  have hone : (0 : UInt32) < 1 := by decide
  have hshort : nBytes s.queue < p.minBytes := by
    rw [hnil]
    exact UInt32.lt_of_lt_of_le hone hmin
  rw [okToDrop, decide_eq_true hshort, Bool.or_true, if_pos rfl] at h
  exact Bool.noConfusion h

/-- The operations are those on the count and the root, and the rest of the state is kept. -/
theorem Loops.control_eq (h : Loops p now queue s dropped item res ops) :
    res.1.control = Runs.run Control.apply s.control ops ∧ res.1.lastCount = s.lastCount ∧
      (res.1.dropping = true → s.dropping = true) := by
  induction h with
  | done => exact ⟨rfl, rfl, id⟩
  | mark => exact ⟨rfl, rfl, id⟩
  | empty => exact ⟨rfl, rfl, fun h => Bool.noConfusion h⟩
  | @leave queue s dropped item next _ _ =>
    obtain ⟨t, ht⟩ := okToDrop_eq p now { s.nextCount with queue := queue } (some next)
    rw [ht]
    exact ⟨rfl, rfl, fun h => Bool.noConfusion h⟩
  | @again queue s u _ _ next _ _ _ hok _ ih =>
    obtain ⟨t, ht⟩ := okToDrop_eq p now { s.nextCount with queue := queue } (some next)
    rw [hok] at ht
    subst ht
    exact ih

/-- Each iteration drops or marks a packet. -/
theorem Loops.losses_eq (h : Loops p now queue s dropped item res ops) :
    res.2.losses = dropped.length + Control.gains ops := by
  induction h with
  | done => rfl
  | mark => rfl
  | empty => exact List.length_append
  | leave => exact List.length_append
  | again _ _ _ ih =>
    rw [List.length_append, List.length_singleton] at ih
    simp only [Control.gains]
    omega

/-- Each iteration but the last takes a packet out of the queue. -/
theorem Loops.count_next_le (h : Loops p now queue s dropped item res ops) :
    ops.count .next ≤ queue.length + 1 := by
  induction h with
  | done => exact Nat.zero_le _
  | mark => exact Nat.le_add_left _ _
  | empty => exact le_rfl
  | leave => exact Nat.le_add_left _ _
  | again _ _ _ ih =>
    rw [List.count_cons_self, List.count_cons_of_ne (fun h => ControlOp.noConfusion h),
      List.length_cons]
    exact Nat.succ_le_succ ih

/-- The loop returns a packet, as there is one behind each packet that is dropped. -/
theorem Loops.item_ne_none (hmin : 1 ≤ p.minBytes) (h : Loops p now queue s dropped item res ops)
    (hqueue : queue ≠ []) : res.2.item ≠ none := by
  induction h with
  | done => exact Option.some_ne_none _
  | mark => exact Option.some_ne_none _
  | empty => exact absurd rfl hqueue
  | leave => exact Option.some_ne_none _
  | @again queue s t _ _ next _ _ _ hok _ ih =>
    have hleft := ne_nil_of_okToDrop hmin (congrArg Prod.fst hok)
    exact ih hleft

/-- What the operations ask for. -/
theorem Loops.opsOk (h : Loops p now queue s dropped item res ops) (hpos : 1 ≤ s.count.toNat)
    (hlt : s.count.toNat + Control.gains ops < 2 ^ 31) :
    Runs.Each Control.apply Control.OpOk s.control ops ∧
      s.count.toNat ≤ res.1.count.toNat := by
  induction h with
  | done => exact ⟨trivial, le_rfl⟩
  | mark =>
    have hsucc := Control.toNat_succ hlt
    refine ⟨⟨⟨hpos, hlt⟩, ?_, trivial⟩, ?_⟩
    · exact (Nat.le_add_left 1 _).trans_eq hsucc.symm
    · exact (Nat.le_succ _).trans_eq hsucc.symm
  | empty =>
    refine ⟨⟨⟨hpos, hlt⟩, trivial⟩, ?_⟩
    exact (Nat.le_succ _).trans_eq (Control.toNat_succ hlt).symm
  | @leave queue s dropped item next _ _ =>
    obtain ⟨t, ht⟩ := okToDrop_eq p now { s.nextCount with queue := queue } (some next)
    refine ⟨⟨⟨hpos, hlt⟩, trivial⟩, ?_⟩
    rw [ht]
    exact (Nat.le_succ _).trans_eq (Control.toNat_succ hlt).symm
  | @again queue s u _ _ next _ ops _ hok _ ih =>
    obtain ⟨t, ht⟩ := okToDrop_eq p now { s.nextCount with queue := queue } (some next)
    rw [hok] at ht
    subst ht
    have hgains : Control.gains (.next :: .space (time2CoDel p.interval) :: ops) =
      Control.gains ops + 1 := rfl
    have hsucc : (s.count + 1).toNat = s.count.toNat + 1 := Control.toNat_succ (by omega)
    change 1 ≤ (s.count + 1).toNat → (s.count + 1).toNat + Control.gains ops < 2 ^ 31 → _ at ih
    rw [hsucc] at ih
    obtain ⟨hok, hle⟩ := ih (Nat.le_add_left 1 _) (by omega)
    refine ⟨⟨⟨hpos, by change s.count.toNat + 1 < _; omega⟩, ?_, hok⟩, ?_⟩
    · exact (Nat.le_add_left 1 _).trans_eq hsucc.symm
    · change (s.count + 1).toNat ≤ _ at hle
      omega

/-! ## `DoDequeue` -/

/-- What is known of the two between the calls. -/
structure Controlled (s : CoDelQueueDisc) : Prop where
  precise : s.control.Precise
  lastCount_le : s.lastCount.toNat ≤ s.count.toNat
  pos_of_dropping : s.dropping = true → 1 ≤ s.count.toNat

/-- A state is reached by operations that get what they ask for. -/
structure Executes (c : Control) (t : CoDelQueueDisc) (ops : List ControlOp) : Prop where
  control_eq : t.control = Runs.run Control.apply c ops
  each : Runs.Each Control.apply Control.OpOk c ops
  lastCount_le : t.lastCount.toNat ≤ t.count.toNat
  pos_of_dropping : t.dropping = true → 1 ≤ t.count.toNat

variable {t : CoDelQueueDisc}

theorem Executes.controlled (h : Executes s.control t ops) (hs : Controlled s) : Controlled t where
  precise := by
    rw [h.control_eq]
    exact h.each.invariant (fun _ _ hp hok => hp.apply hok) hs.precise
  lastCount_le := h.lastCount_le
  pos_of_dropping := h.pos_of_dropping

theorem Executes.fits (h : Executes s.control t ops) (hs : Controlled s) :
    Runs.Each Control.apply Control.Fits s.control ops :=
  h.each.imp (fun _ _ hp hok => hp.apply hok) (fun _ _ hp hok => hp.fits hok) hs.precise

/-- The difference of the counts is a signed number. -/
theorem delta_pos (hle : s.lastCount.toNat ≤ s.count.toNat) (hlt : s.count.toNat < 2 ^ 31)
    (h : (s.count - s.lastCount).toInt32 > 1) :
    2 ≤ (s.count - s.lastCount).toNat ∧ (s.count - s.lastCount).toNat ≤ s.count.toNat := by
  have hsub : (s.count - s.lastCount).toNat = s.count.toNat - s.lastCount.toNat :=
    UInt32.toNat_sub_of_le _ _ (UInt32.le_iff_toNat_le.2 hle)
  have hint : (s.count - s.lastCount).toInt32.toInt = (s.count - s.lastCount).toNat :=
    BitVec.toInt_eq_toNat_of_lt
      (by change 2 * (s.count - s.lastCount).toNat < 2 ^ 32; omega)
  have hone : (1 : ℤ) < (s.count - s.lastCount).toInt32.toInt := Int32.lt_iff_toInt_lt.1 h
  omega

theorem executes_enterDropping (hle : s.lastCount.toNat ≤ s.count.toNat)
    (hlt : s.count.toNat < 2 ^ 31) :
    Executes s.control (s.enterDropping p now) (s.enterDroppingOps p now) ∧
      Control.gains (s.enterDroppingOps p now) ≤ 1 := by
  rw [enterDroppingOps]
  cases hrecent : decide ((s.count - s.lastCount).toInt32 > 1) &&
      coDelTimeBefore (coDelGetTime now - s.dropNext) (16 * time2CoDel p.interval) with
  | true =>
    obtain ⟨hdelta, -⟩ := Bool.and_eq_true_iff.1 hrecent
    obtain ⟨htwo, hcount⟩ := delta_pos hle hlt (of_decide_eq_true hdelta)
    rw [if_pos rfl, enterDropping_eq true hrecent]
    have hone : 1 ≤ (s.count - s.lastCount).toNat := by omega
    exact ⟨⟨rfl, ⟨⟨htwo, hcount⟩, hone, trivial⟩, le_rfl, fun _ => hone⟩, Nat.zero_le _⟩
  | false =>
    rw [if_neg Bool.false_ne_true, enterDropping_eq false hrecent]
    exact ⟨⟨rfl, ⟨trivial, le_rfl, trivial⟩, le_rfl, fun _ => le_rfl⟩, le_rfl⟩

/-- The first packet is dropped or marked. -/
theorem executes_firstDrop (hle : s.lastCount.toNat ≤ s.count.toNat)
    (hlt : s.count.toNat < 2 ^ 31) :
    Executes s.control (s.firstDrop p now item).1 (s.firstDropOps p now item) ∧
      Control.gains (s.firstDropOps p now item) ≤ (s.firstDrop p now item).2.losses := by
  rw [firstDrop, firstDropOps]
  cases if p.useEcn then item.mark else none with
  | some marked => exact executes_enterDropping hle hlt
  | none =>
    obtain ⟨t, ht⟩ := okToDrop_eq p now s.pop.2 s.pop.1
    have hpop : (s.pop.2.okToDrop p now s.pop.1).2 =
        { s with queue := s.pop.2.queue, firstAboveTime := t } := by
      rw [ht, pop]
      cases s.queue <;> rfl
    dsimp only
    rw [hpop]
    exact @executes_enterDropping p now
      { s with queue := s.pop.2.queue, firstAboveTime := t } hle hlt

theorem firstDrop_item_ne_none (h : s.queue ≠ []) : (s.firstDrop p now item).2.item ≠ none := by
  obtain ⟨next, queue, hqueue⟩ := List.exists_cons_of_ne_nil h
  rw [firstDrop]
  cases if p.useEcn then item.mark else none with
  | some marked => exact Option.some_ne_none _
  | none =>
    rw [pop, hqueue]
    exact Option.some_ne_none _

/-- `DoDequeue` up to the label `end`. -/
theorem executes_dropPhase (hs : Controlled s)
    (hlt : s.count.toNat + (s.dropPhase p now item).2.losses < 2 ^ 31) :
    Executes s.control (s.dropPhase p now item).1 (s.dropPhaseOps p now item) ∧
      Control.gains (s.dropPhaseOps p now item) ≤ (s.dropPhase p now item).2.losses := by
  obtain ⟨t, ht⟩ := okToDrop_eq p now s (some item)
  have hcount : s.count.toNat < 2 ^ 31 := by omega
  rw [dropPhase] at hlt ⊢
  rw [dropPhaseOps]
  dsimp only at hlt ⊢
  rw [ht] at hlt ⊢
  split_ifs at hlt ⊢ with hdropping hok hok
  · exact ⟨⟨rfl, trivial, hs.lastCount_le, fun h => Bool.noConfusion h⟩, Nat.zero_le _⟩
  · have hloops : Loops p now s.queue { s with firstAboveTime := t } [] item _ _ := loops_dropLoop
    obtain ⟨hcontrol, hlast, -⟩ := hloops.control_eq
    have hlosses := hloops.losses_eq
    rw [List.length_nil, Nat.zero_add] at hlosses
    obtain ⟨heach, hle⟩ := hloops.opsOk (hs.pos_of_dropping hdropping) (hlosses ▸ hlt)
    have hlast' := hs.lastCount_le
    have hpos := hs.pos_of_dropping hdropping
    refine ⟨⟨hcontrol, heach, ?_, fun _ => hpos.trans hle⟩, hlosses.ge⟩
    rw [hlast]
    exact hlast'.trans hle
  · exact @executes_firstDrop p now { s with firstAboveTime := t } item hs.lastCount_le hcount
  · exact ⟨⟨rfl, trivial, hs.lastCount_le, hs.pos_of_dropping⟩, Nat.zero_le _⟩

theorem dropPhase_item_ne_none (hmin : 1 ≤ p.minBytes) :
    (s.dropPhase p now item).2.item ≠ none := by
  have hqueue := okToDrop_queue p now s (some item)
  rw [dropPhase]
  cases hok : (s.okToDrop p now (some item)).1 with
  | false =>
    dsimp only
    rw [hok, Bool.not_false, if_pos rfl, if_neg Bool.false_ne_true]
    split_ifs <;> exact Option.some_ne_none _
  | true =>
    have hleft : (s.okToDrop p now (some item)).2.queue ≠ [] := by
      rw [hqueue]
      exact ne_nil_of_okToDrop hmin hok
    dsimp only
    rw [hok, Bool.not_true, if_neg Bool.false_ne_true, if_pos rfl]
    split_ifs
    · exact loops_dropLoop.item_ne_none hmin hleft
    · exact firstDrop_item_ne_none hleft

variable {r r' : Dequeued} {out : CoDelQueueDisc × Dequeued}

theorem exists_endPhase (h : r.item ≠ none) : ∃ r', endPhase p now r = some r' := by
  obtain ⟨item, hitem⟩ := Option.ne_none_iff_exists'.1 h
  rw [endPhase, hitem]
  dsimp only
  split_ifs
  · cases item.mark with
    | none => exact ⟨_, rfl⟩
    | some item => exact ⟨_, rfl⟩
  · exact ⟨_, rfl⟩

/-- A packet that is marked behind the label `end` was not marked before. -/
theorem losses_le_of_endPhase (h : endPhase p now r = some r') : r.losses ≤ r'.losses := by
  rw [endPhase] at h
  cases hitem : r.item with
  | none =>
    rw [hitem] at h
    exact absurd h.symm (Option.some_ne_none r')
  | some item =>
    rw [hitem] at h
    dsimp only at h
    split_ifs at h with hmark
    · cases hmarked : item.mark with
      | none =>
        rw [hmarked] at h
        exact (congrArg Dequeued.losses (Option.some.inj h)).le
      | some item =>
        rw [hmarked] at h
        rw [← Option.some.inj h, Dequeued.losses, Dequeued.losses, hmark.1]
        exact Nat.add_le_add_left (Nat.zero_le _) _
    · exact (congrArg Dequeued.losses (Option.some.inj h)).le

/-- The packet that is used behind the label `end` is there. -/
theorem exists_doDequeue (hmin : 1 ≤ p.minBytes) : ∃ out, s.doDequeue p now = some out := by
  rw [doDequeue]
  rcases s.pop with ⟨_ | item, t⟩
  · exact ⟨_, rfl⟩
  · dsimp only
    split_ifs
    · exact ⟨_, rfl⟩
    · have hend : ∃ r, endPhase p now (t.dropPhase p now item).2 = some r :=
        exists_endPhase (dropPhase_item_ne_none hmin)
      obtain ⟨r, hr⟩ := hend
      exact ⟨((t.dropPhase p now item).1, r), congrArg (Option.map _) hr⟩

theorem pop_eq (s : CoDelQueueDisc) : s.pop.2 = { s with queue := s.queue.tail } := by
  obtain ⟨queue, -⟩ := s
  cases queue <;> rfl

/-- A call executes its operations, if the count has room for the packets that it drops. -/
theorem executes_doDequeue (hs : Controlled s) (h : s.doDequeue p now = some out)
    (hlt : s.count.toNat + out.2.losses < 2 ^ 31) :
    Executes s.control out.1 (s.dequeueOps p now) ∧
      Control.gains (s.dequeueOps p now) ≤ out.2.losses := by
  have hpop := pop_eq s
  rw [doDequeue] at h
  rw [dequeueOps]
  rcases hp : s.pop with ⟨_ | item, t⟩
  · rw [hp] at h hpop
    obtain rfl := Option.some.inj h
    obtain rfl : t = _ := hpop
    exact ⟨⟨rfl, trivial, hs.lastCount_le, fun h => Bool.noConfusion h⟩, Nat.zero_le _⟩
  · rw [hp] at h hpop
    obtain rfl : t = _ := hpop
    dsimp only at h ⊢
    split_ifs at h ⊢
    · obtain rfl := Option.some.inj h
      exact ⟨⟨rfl, trivial, hs.lastCount_le, hs.pos_of_dropping⟩, Nat.zero_le _⟩
    · obtain ⟨r, hr, rfl⟩ := Option.map_eq_some_iff.1 h
      have hle := losses_le_of_endPhase hr
      have hs' : Controlled { s with queue := s.queue.tail } := ⟨hs.1, hs.2, hs.3⟩
      have hlt' : s.count.toNat + (dropPhase p now { s with queue := s.queue.tail } item).2.losses <
          2 ^ 31 := (Nat.add_le_add_left hle _).trans_lt hlt
      obtain ⟨hexec, hgains⟩ := executes_dropPhase hs' hlt'
      exact ⟨hexec, hgains.trans hle⟩

theorem count_next_enterDroppingOps : (s.enterDroppingOps p now).count .next = 0 := by
  rw [enterDroppingOps]
  split_ifs <;> rfl

theorem count_next_dropLoopOps_le :
    (dropLoopOps p now queue s item).count .next ≤ queue.length + 1 := by
  have hloops : Loops p now queue s [] item _ _ := loops_dropLoop
  exact hloops.count_next_le

/-- The loop has no more iterations than there are packets. -/
theorem count_next_dequeueOps_le : (s.dequeueOps p now).count .next ≤ s.queue.length := by
  rw [dequeueOps]
  cases hqueue : s.queue with
  | nil =>
    rw [pop, hqueue]
    exact le_rfl
  | cons item queue =>
    rw [pop, hqueue]
    dsimp only
    have hkept := okToDrop_queue p now { s with queue := queue } (some item)
    split_ifs
    · exact Nat.zero_le _
    · rw [dropPhaseOps]
      dsimp only
      split_ifs
      · exact Nat.zero_le _
      · rw [hkept]
        exact count_next_dropLoopOps_le
      · rw [firstDropOps]
        cases if p.useEcn then item.mark else none with
        | some marked => exact count_next_enterDroppingOps.trans_le (Nat.zero_le _)
        | none => exact count_next_enterDroppingOps.trans_le (Nat.zero_le _)
      · exact Nat.zero_le _

/-! ## Runs -/

/-- The number of packets that were dropped or marked when one was dequeued. -/
def CoDelOutput.losses : CoDelOutput → ℕ
  | .enqueued _ => 0
  | .dequeued r => r.losses

/-- A queue disc with the number of packets that it has dropped or marked so far. -/
structure Watched where
  disc : CoDelQueueDisc := {}
  losses : ℕ := 0

/-- The queue disc after an event. -/
def Watched.step (p : CoDelParams) (w : Watched) (e : CoDelEvent) : Option Watched :=
  (w.disc.step p e).map fun r => ⟨r.1, w.losses + r.2.losses⟩

/-- The reciprocal root is not overestimated. -/
structure NotOverestimated (s : CoDelQueueDisc) : Prop where
  one_le : 1 ≤ s.count.toNat → 1 ≤ s.recInvSqrt.toNat
  le_max : s.recInvSqrt.toNat ≤ 65535
  sq_mul_le : 1 ≤ s.count.toNat → s.recInvSqrt.toNat ^ 2 * s.count.toNat ≤ 2 ^ 32
  lastCount_le : s.lastCount.toNat ≤ s.count.toNat

theorem Controlled.notOverestimated (h : Controlled s) : NotOverestimated s where
  one_le hpos := (h.precise hpos).pos
  le_max := Nat.le_of_lt_succ s.recInvSqrt.toNat_lt
  sq_mul_le hpos := (h.precise hpos).sq_mul_le
  lastCount_le := h.lastCount_le

/-- A run with few drops and marks. -/
def Watched.Inv (w : Watched) : Prop :=
  w.losses < 2 ^ 31 → Controlled w.disc ∧ w.disc.count.toNat ≤ w.losses

theorem Watched.inv_start : Watched.Inv {} :=
  fun _ => ⟨⟨fun h => absurd h (by decide), le_rfl, fun h => Bool.noConfusion h⟩, le_rfl⟩

theorem Watched.Inv.step {w w' : Watched} {e : CoDelEvent} (hw : w.Inv)
    (h : w.step p e = some w') : w'.Inv := by
  obtain ⟨out, hout, rfl⟩ := Option.map_eq_some_iff.1 h
  intro hlt
  have hle : w.losses ≤ w.losses + out.2.losses := Nat.le_add_right _ _
  obtain ⟨hcontrolled, hcount⟩ := hw (hle.trans_lt hlt)
  cases e with
  | enqueue now item =>
    obtain rfl := Option.some.inj hout
    have henqueue : ∃ queue, (w.disc.enqueue p now item).1 = { w.disc with queue := queue } := by
      rw [enqueue]
      split_ifs
      · exact ⟨w.disc.queue, rfl⟩
      · exact ⟨_, rfl⟩
    obtain ⟨queue, hqueue⟩ := henqueue
    change Controlled (w.disc.enqueue p now item).1 ∧
      (w.disc.enqueue p now item).1.count.toNat ≤ w.losses + 0
    rw [hqueue]
    exact ⟨⟨hcontrolled.1, hcontrolled.2, hcontrolled.3⟩, hcount⟩
  | dequeue now =>
    obtain ⟨r, hr, rfl⟩ := Option.map_eq_some_iff.1 hout
    change w.losses + r.2.losses < 2 ^ 31 at hlt
    obtain ⟨hexec, hgains⟩ := executes_doDequeue hcontrolled hr (by omega)
    refine ⟨hexec.controlled hcontrolled, ?_⟩
    have hgrow := Control.count_run_le hexec.each
    rw [← hexec.control_eq] at hgrow
    change r.1.count.toNat ≤ w.disc.count.toNat + _ at hgrow
    change r.1.count.toNat ≤ w.losses + r.2.losses
    omega

theorem Watched.exists_step (hmin : 1 ≤ p.minBytes) (w : Watched) (e : CoDelEvent) :
    ∃ w', w.step p e = some w' := by
  cases e with
  | enqueue now item => exact ⟨_, rfl⟩
  | dequeue now =>
    obtain ⟨out, hout⟩ := @exists_doDequeue p now w.disc hmin
    exact ⟨_, congrArg (Option.map _ ∘ Option.map _) hout⟩

theorem Watched.exists_run (hmin : 1 ≤ p.minBytes) (events : List CoDelEvent) {w : Watched}
    (hw : w.Inv) : ∃ w', events.foldlM (Watched.step p) w = some w' ∧ w'.Inv := by
  induction events generalizing w with
  | nil => exact ⟨w, rfl, hw⟩
  | cons e events ih =>
    obtain ⟨w', hstep⟩ := Watched.exists_step hmin w e
    rw [List.foldlM_cons, hstep]
    exact ih (hw.step hstep)

/-- No run uses a packet that is not there. As long as fewer than 2³¹ packets are dropped or marked,
the reciprocal root is not overestimated between the calls, and the operations of a call fit. -/
theorem control_law (p : CoDelParams) (hmin : 1 ≤ p.minBytes) (events : List CoDelEvent) :
    ∃ w, events.foldlM (Watched.step p) {} = some w ∧
      (w.losses < 2 ^ 31 → NotOverestimated w.disc) ∧
      ∀ now, ∃ out, w.disc.doDequeue p now = some out ∧
        (w.disc.dequeueOps p now).count .next ≤ w.disc.queue.length ∧
        (w.losses + out.2.losses < 2 ^ 31 →
          out.1.control = Runs.run Control.apply w.disc.control (w.disc.dequeueOps p now) ∧
            Runs.Each Control.apply Control.Fits w.disc.control (w.disc.dequeueOps p now)) := by
  obtain ⟨w, hrun, hw⟩ := Watched.exists_run hmin events Watched.inv_start
  refine ⟨w, hrun, fun hlt => (hw hlt).1.notOverestimated, fun now => ?_⟩
  obtain ⟨out, hout⟩ := @exists_doDequeue p now w.disc hmin
  refine ⟨out, hout, count_next_dequeueOps_le, fun hlt => ?_⟩
  obtain ⟨hcontrolled, hcount⟩ := hw (by omega)
  obtain ⟨hexec, -⟩ := executes_doDequeue hcontrolled hout (by omega)
  exact ⟨hexec.control_eq, hexec.fits hcontrolled⟩

/-- A packet that is enqueued, and dequeued late. -/
def lateDequeue : List CoDelEvent :=
  [.enqueue 0 ⟨0, 1500, none, 0⟩, .dequeue 10000000]

theorem lateDequeue_control_law : ∃ w, lateDequeue.foldlM (Watched.step {}) {} = some w ∧
    (w.losses < 2 ^ 31 → NotOverestimated w.disc) := by
  obtain ⟨w, hrun, hroot, -⟩ := control_law {} (by decide) lateDequeue
  exact ⟨w, hrun, hroot⟩

end CoDelQueueDisc

end Ns3Pedca
