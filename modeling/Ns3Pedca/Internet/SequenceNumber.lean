import Ns3Pedca.Core

/-!
# Sequence numbers that wrap

`SequenceNumber` counts modulo `2^32`. Two numbers are compared by the shorter way from one
to the other around the circle, so their order is that of a window (`le_iff`, `lt_iff`) as
long as both lie in the `2^31` numbers from some `w` on. `offset w a` is the place of `a` in
the window that begins at `w`.
-/

namespace Ns3Pedca

/-- `SequenceNumber32`. -/
structure SequenceNumber32 where
  value : UInt32
  deriving DecidableEq

namespace SequenceNumber32

/-- `halfMaxValue`. -/
abbrev halfMaxValue : UInt32 := 0xffffffff / 2

/-- `operator<=>`. -/
def cmp (a b : SequenceNumber32) : Ordering :=
  if a.value = b.value then .eq
  else if (b.value < a.value ∧ a.value - b.value ≤ halfMaxValue) ∨
      (a.value < b.value ∧ halfMaxValue < b.value - a.value) then .gt
  else .lt

instance : LT SequenceNumber32 :=
  ⟨fun a b => cmp a b = .lt⟩

instance : LE SequenceNumber32 :=
  ⟨fun a b => cmp a b ≠ .gt⟩

instance (a b : SequenceNumber32) : Decidable (a < b) :=
  inferInstanceAs (Decidable (cmp a b = .lt))

instance (a b : SequenceNumber32) : Decidable (a ≤ b) :=
  inferInstanceAs (Decidable (cmp a b ≠ .gt))

/-- `operator+`. -/
instance : HAdd SequenceNumber32 UInt32 SequenceNumber32 :=
  ⟨fun a n => ⟨a.value + n⟩⟩

/-- `operator-`, as a number of 32 bits. -/
def distance (a b : SequenceNumber32) : UInt32 :=
  if b.value < a.value then
    if a.value - b.value < halfMaxValue then a.value - b.value
    else -(0xffffffff - a.value + 1 + b.value)
  else if b.value - a.value < halfMaxValue then -(b.value - a.value)
  else 0xffffffff - b.value + 1 + a.value

instance : HSub SequenceNumber32 SequenceNumber32 UInt32 :=
  ⟨distance⟩

variable {w a b : SequenceNumber32} {m n d : UInt32}

@[simp] theorem value_add (a : SequenceNumber32) (n : UInt32) : (a + n).value = a.value + n :=
  rfl

theorem ext_value (h : a.value = b.value) : a = b := by
  cases a
  cases b
  exact congrArg _ h

/-- The four cases of `operator-` are one subtraction. -/
theorem sub_def (a b : SequenceNumber32) : a - b = a.value - b.value := by
  change distance a b = _
  unfold distance
  split_ifs <;> grind

@[simp] theorem add_zero (a : SequenceNumber32) : a + (0 : UInt32) = a :=
  ext_value (by simp)

theorem add_assoc (a : SequenceNumber32) (m n : UInt32) : a + m + n = a + (m + n) :=
  ext_value (by simp [UInt32.add_assoc])

theorem add_right_comm (a : SequenceNumber32) (m n : UInt32) : a + m + n = a + n + m :=
  ext_value (by grind [value_add])

theorem add_sub_self (a : SequenceNumber32) (n : UInt32) : a + n - a = n := by
  rw [sub_def, value_add]
  grind

theorem add_sub_cancel (a b : SequenceNumber32) : a + (b - a) = b :=
  ext_value (by rw [value_add, sub_def]; grind)

theorem add_sub_add (a b : SequenceNumber32) (n : UInt32) : a + n - (b + n) = a - b := by
  rw [sub_def, sub_def, value_add, value_add]
  grind

theorem add_right_inj (a : SequenceNumber32) : a + m = a + n ↔ m = n := by
  refine ⟨fun h => ?_, fun h => h ▸ rfl⟩
  have hvalue := congrArg value h
  rw [value_add, value_add] at hvalue
  grind

theorem add_left_inj (n : UInt32) : a + n = b + n ↔ a = b := by
  refine ⟨fun h => ext_value ?_, fun h => h ▸ rfl⟩
  have hvalue := congrArg value h
  rw [value_add, value_add] at hvalue
  grind

theorem not_le : ¬ a ≤ b ↔ b < a := by
  change ¬ cmp a b ≠ .gt ↔ cmp b a = .lt
  unfold cmp
  have ha := a.value.toNat_lt
  have hb := b.value.toNat_lt
  simp only [← UInt32.toNat_inj, UInt32.lt_iff_toNat_lt, UInt32.le_iff_toNat_le, UInt32.toNat_sub]
  split_ifs <;> simp <;> omega

theorem not_lt : ¬ a < b ↔ b ≤ a := by
  rw [← not_le, Classical.not_not]

theorem le_refl (a : SequenceNumber32) : a ≤ a := by
  change cmp a a ≠ .gt
  rw [cmp, if_pos rfl]
  decide

theorem ne_of_lt (h : a < b) : b ≠ a := by
  rintro rfl
  exact not_le.2 h (le_refl _)

/-- A number between two others is nearer to the first one. -/
theorem toNat_sub_lt (hab : a < b) (hbn : b < a + n) : (b - a).toNat < n.toNat := by
  change cmp a b = .lt at hab
  change cmp b (a + n) = .lt at hbn
  rw [sub_def]
  have ha := a.value.toNat_lt
  have hb := b.value.toNat_lt
  have hn := n.toNat_lt
  have hhalf : halfMaxValue.toNat = 2 ^ 31 - 1 := rfl
  unfold cmp at hab hbn
  rw [value_add] at hbn
  simp only [← UInt32.toNat_inj, UInt32.lt_iff_toNat_lt, UInt32.le_iff_toNat_le, UInt32.toNat_sub,
    UInt32.toNat_add, hhalf] at hab hbn ⊢
  split_ifs at hab hbn <;> simp at hab hbn <;> omega

/-! ## Windows -/

/-- The place of a number in the window that begins at `w`. -/
def offset (w a : SequenceNumber32) : ℕ :=
  (a - w).toNat

@[simp] theorem offset_self (w : SequenceNumber32) : offset w w = 0 := by
  simp [offset, sub_def]

theorem offset_lt (w a : SequenceNumber32) : offset w a < 2 ^ 32 :=
  UInt32.toNat_lt _

theorem offset_inj : offset w a = offset w b ↔ a = b := by
  refine ⟨fun h => ext_value ?_, fun h => h ▸ rfl⟩
  rw [offset, offset, UInt32.toNat_inj, sub_def, sub_def] at h
  grind

theorem offset_add (h : offset w a + n.toNat < 2 ^ 32) :
    offset w (a + n) = offset w a + n.toNat := by
  have hadd : a + n - w = a - w + n := by
    rw [sub_def, sub_def, value_add]
    grind
  rw [offset, hadd, UInt32.toNat_add]
  exact Nat.mod_eq_of_lt h

theorem toNat_sub_of_offset_le (h : offset w a ≤ offset w b) :
    (b - a).toNat = offset w b - offset w a := by
  have hsub : b - a = (b - w) - (a - w) := by
    rw [sub_def, sub_def, sub_def]
    grind
  rw [hsub, UInt32.toNat_sub_of_le _ _ (UInt32.le_iff_toNat_le.2 h)]
  rfl

theorem offset_add_add (w a : SequenceNumber32) (d : UInt32) :
    offset (w + d) (a + d) = offset w a :=
  congrArg _ (add_sub_add a w d)

/-- The order of two numbers in a window. -/
theorem lt_iff (ha : offset w a < 2 ^ 31) (hb : offset w b < 2 ^ 31) :
    a < b ↔ offset w a < offset w b := by
  change cmp a b = .lt ↔ _
  rw [offset, sub_def, UInt32.toNat_sub] at ha hb ⊢
  rw [offset, sub_def, UInt32.toNat_sub]
  have hlta := a.value.toNat_lt
  have hltb := b.value.toNat_lt
  have hltw := w.value.toNat_lt
  unfold cmp
  simp only [← UInt32.toNat_inj, UInt32.lt_iff_toNat_lt, UInt32.le_iff_toNat_le, UInt32.toNat_sub]
  have hhalf : halfMaxValue.toNat = 2 ^ 31 - 1 := rfl
  rw [hhalf]
  split_ifs <;> simp <;> omega

theorem le_iff (ha : offset w a < 2 ^ 31) (hb : offset w b < 2 ^ 31) :
    a ≤ b ↔ offset w a ≤ offset w b := by
  rw [← not_lt, lt_iff hb ha, Nat.not_lt]

/-- The order in a window does not change with the place of the window. -/
theorem add_lt_add_iff (ha : offset w a < 2 ^ 31) (hb : offset w b < 2 ^ 31) :
    a + d < b + d ↔ a < b := by
  rw [lt_iff ha hb, ← offset_add_add w a d, ← offset_add_add w b d]
  refine lt_iff ?_ ?_
  · rwa [offset_add_add]
  · rwa [offset_add_add]

theorem add_le_add_iff (ha : offset w a < 2 ^ 31) (hb : offset w b < 2 ^ 31) :
    a + d ≤ b + d ↔ a ≤ b := by
  rw [← not_lt, ← not_lt, add_lt_add_iff hb ha]

end SequenceNumber32

end Ns3Pedca
