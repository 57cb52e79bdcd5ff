import Ns3Pedca.Runs
import Ns3Pedca.Time.TimeUnits
import Ns3Pedca.TokenBucket
import Ns3Pedca.TrafficControl.CoDelQueueDisc

/-!
# Token bucket filter

`TbfQueueDisc` dequeues a packet if its buckets have enough tokens. The tokens that enter are counted
when a packet is dequeued, at a rate in whole bytes, and rounded. A packet that is blocked is tried
again after the time that the missing bytes take at the rate in bits. Times are numbers of
nanoseconds, and the arithmetic of `double` is exact.

The tokens never exceed the buckets, and what is dequeued in an interval conforms to both buckets
with half a byte for each packet. The packet is dequeued when it is tried again exactly if the
missing bytes enter in that time, with the fraction that the rounding has left
(`conforming_and_woken_iff`, `EntersBoth`). A rate that is no multiple of 8 may be too slow for
that (`slowEvents_not_woken`).
-/

namespace Ns3Pedca

/-- `DataRate`, in bits per second. -/
abbrev DataRate := BitVec 64

namespace DataRate

/-- `CalculateBitsTxTime`, if its division does not fail. -/
def calculateBitsTxTime (rate : DataRate) (bits : UInt32) : Option (BitVec 64) :=
  (Int64x64.div 65 (.ofInt64 (.ofNat 64 bits.toNat)) (.ofInt64 rate)).bind fun seconds =>
    NsTime.fromInt64x64 .ns seconds .s

/-- `GetBitRate() / 8`. -/
def byteRate (rate : DataRate) : ℕ :=
  rate.toNat / 8

/-- `CalculateBytesTxTime`. -/
def calculateBytesTxTime (rate : DataRate) (bytes : UInt32) : Option (BitVec 64) :=
  rate.calculateBitsTxTime (bytes * 8)

end DataRate

/-- The attributes of a `TbfQueueDisc`. -/
structure TbfParams where
  burst : UInt32 := 125000
  mtu : UInt32 := 0
  rate : DataRate := 1000000
  peakRate : DataRate := 0

/-- `TbfQueueDisc`, with the packets of its child queue disc, and the time of the event `m_id` if it
is not expired. -/
structure TbfQueueDisc where
  queue : List QueueDiscItem := []
  btokens : UInt32
  ptokens : UInt32
  timeCheckPoint : ℕ := 0
  id : Option ℕ := none
  deriving DecidableEq

namespace TbfQueueDisc

variable (p : TbfParams) (now : ℕ) (s : TbfQueueDisc)

/-- The tokens that enter a bucket in a number of seconds. -/
def accrued (rate : DataRate) (delta : ℚ) : ℤ :=
  round (delta * rate.byteRate)

/-- The time since the last packet was dequeued, in seconds. -/
def delta : ℚ :=
  ((now : ℚ) - s.timeCheckPoint) / 10 ^ 9

/-- The tokens of a bucket that are left by a packet, or lack for it. -/
def left (tokens size : UInt32) (rate : DataRate) (pktSize : UInt32) : ℤ :=
  min (tokens.toNat + accrued rate (s.delta now)) size.toNat - pktSize.toNat

/-- `btoks`. -/
def btoks (pktSize : UInt32) : ℤ :=
  s.left now s.btokens p.burst p.rate pktSize

/-- `ptoks`. -/
def ptoks (pktSize : UInt32) : ℤ :=
  if p.peakRate = 0 then 0 else s.left now s.ptokens p.mtu p.peakRate pktSize

/-- `requiredDelayTime`, for the tokens that are left. -/
def requiredDelayTime (btoks ptoks : ℤ) : Option (BitVec 64) :=
  if p.peakRate = 0 then p.rate.calculateBytesTxTime (.ofInt (-btoks))
  else if btoks < 0 ∧ 0 ≤ ptoks then p.rate.calculateBytesTxTime (.ofInt (-btoks))
  else if 0 ≤ btoks ∧ ptoks < 0 then p.peakRate.calculateBytesTxTime (.ofInt (-ptoks))
  else
    (p.rate.calculateBytesTxTime (.ofInt (-btoks))).bind fun a =>
      (p.peakRate.calculateBytesTxTime (.ofInt (-ptoks))).map fun b => if a.slt b then b else a

/-- `DoDequeue`, which fails if an assertion does. -/
def doDequeue : Option (TbfQueueDisc × Option QueueDiscItem) :=
  match s.queue with
  | [] => some (s, none)
  | item :: queue =>
    let ptoks := s.ptoks p now item.size
    let btoks := s.btoks p now item.size
    if 0 ≤ Int64.ofInt btoks ||| Int64.ofInt ptoks then
      some ({ s with
        queue := queue
        timeCheckPoint := now
        btokens := .ofInt btoks
        ptokens := .ofInt ptoks }, some item)
    else if s.id.isSome then some (s, none)
    else if p.rate = 0 then none
    else
      (requiredDelayTime p btoks ptoks).bind fun delay =>
        if delay.toInt < 0 then none else some ({ s with id := some (now + delay.toNat) }, none)

/-- What happens to a queue disc : `DoEnqueue` of a packet that its child accepts or not, `Run` that
dequeues a packet, or the event `m_id`. -/
inductive TbfEvent
  | enqueue (item : QueueDiscItem) (accepted : Bool)
  | run
  | wake
  deriving DecidableEq

/-- The queue disc after an event, with the packet that it dequeues. -/
def step : TbfEvent → Option (TbfQueueDisc × Option QueueDiscItem)
  | .enqueue item accepted =>
    some (if accepted then { s with queue := s.queue ++ [item] } else s, none)
  | .run => s.doDequeue p now
  | .wake => if s.id = some now then doDequeue p now { s with id := none } else none

/-- The queue disc after some events, with the times and the sizes of the packets that it
dequeues. -/
def run : TbfQueueDisc → List (ℕ × TbfEvent) → Option (TbfQueueDisc × List (ℕ × UInt32))
  | s, [] => some (s, [])
  | s, e :: events =>
    (s.step p e.1 e.2).bind fun r =>
      (run r.1 events).map fun rest =>
        (rest.1, (r.2.map fun item => (e.1, item.size)).toList ++ rest.2)

/-! ## Tokens -/

variable {p now s} {s' : TbfQueueDisc} {item : QueueDiscItem} {out : Option QueueDiscItem}
  {rate : DataRate} {tokens size pktSize : UInt32}

/-- The tokens are rounded to bytes. -/
theorem accrued_eq (h : s.timeCheckPoint ≤ now) : accrued rate (s.delta now) =
    ((rate.byteRate * (now - s.timeCheckPoint) + 5 * 10 ^ 8) / 10 ^ 9 : ℕ) := by
  have hsum : s.delta now * rate.byteRate + 1 / 2 =
      ((rate.byteRate * (now - s.timeCheckPoint) + 5 * 10 ^ 8 : ℕ) : ℚ) / (10 ^ 9 : ℕ) := by
    rw [delta]
    push_cast [h]
    ring
  rw [accrued, round_eq, hsum, Rat.floor_natCast_div_natCast, Int.natCast_ediv]

theorem accrued_nonneg (rate : DataRate) (h : s.timeCheckPoint ≤ now) :
    0 ≤ accrued rate (s.delta now) := by
  rw [accrued_eq h]
  exact Int.natCast_nonneg _

/-- Half a byte is gained at most. -/
theorem accrued_le : (accrued rate (s.delta now) : ℚ) ≤
    rate.byteRate / 10 ^ 9 * (now - s.timeCheckPoint) + 1 / 2 := by
  have hround := (abs_le.1 (abs_sub_round (s.delta now * rate.byteRate))).1
  have hdelta : s.delta now * rate.byteRate =
      rate.byteRate / 10 ^ 9 * (now - s.timeCheckPoint) := by
    rw [delta]
    ring
  rw [← hdelta, accrued]
  linarith

theorem left_bounds (h : s.timeCheckPoint ≤ now) :
    -2 ^ 32 < s.left now tokens size rate pktSize ∧
      s.left now tokens size rate pktSize ≤ size.toNat - pktSize.toNat := by
  have hacc := accrued_nonneg rate h
  have hpkt := pktSize.toNat_lt
  rw [left]
  omega

/-- What lacks for a packet enters the bucket in the time `d` after `delta`, all in nanoseconds. The
tokens that enter are rounded, so a fraction may have been there before. -/
def Enters (rate : DataRate) (delta d : ℕ) (lacking : ℤ) : Prop :=
  lacking * 10 ^ 9 ≤ rate.byteRate * d + (rate.byteRate * delta + 5 * 10 ^ 8) % 10 ^ 9

/-- Both buckets have enough tokens for a packet. -/
def Affords (p : TbfParams) (now : ℕ) (s : TbfQueueDisc) (pktSize : UInt32) : Prop :=
  0 ≤ s.btoks p now pktSize ∧ 0 ≤ s.ptoks p now pktSize

/-- A packet is taken out of the queue. -/
def taken (p : TbfParams) (now : ℕ) (s : TbfQueueDisc) (item : QueueDiscItem) : TbfQueueDisc :=
  { s with
    queue := s.queue.tail
    timeCheckPoint := now
    btokens := .ofInt (s.btoks p now item.size)
    ptokens := .ofInt (s.ptoks p now item.size) }

variable {events : List (ℕ × TbfEvent)} {ws : List (ℕ × UInt32)} {e : TbfEvent}

/-- The tokens fit into the buckets. -/
structure Bounded (p : TbfParams) (s : TbfQueueDisc) : Prop where
  btokens_le : s.btokens ≤ p.burst
  ptokens_le : s.ptokens ≤ p.mtu

theorem toNat_ofInt {x : ℤ} (h : 0 ≤ x) (hlt : x < 2 ^ 32) : ((UInt32.ofInt x).toNat : ℤ) = x := by
  rw [UInt32.ofInt, UInt32.toNat_ofNat']
  omega

/-- What a packet leaves in a bucket. -/
theorem left_withdrawn (h : s.timeCheckPoint ≤ now)
    (hleft : 0 ≤ s.left now tokens size rate pktSize) :
    ((UInt32.ofInt (s.left now tokens size rate pktSize)).toNat + pktSize.toNat : ℚ) ≤
        size.toNat ∧
      ((UInt32.ofInt (s.left now tokens size rate pktSize)).toNat + pktSize.toNat : ℚ) ≤
        tokens.toNat + rate.byteRate / 10 ^ 9 * (now - s.timeCheckPoint) + 1 / 2 := by
  have hbounds := @left_bounds now s rate tokens size pktSize h
  have hsize := size.toNat_lt
  have hnat := toNat_ofInt hleft (by omega)
  have hacc := @accrued_le now s rate
  have hmin : s.left now tokens size rate pktSize + pktSize.toNat ≤
      tokens.toNat + accrued rate (s.delta now) := by
    rw [left]
    omega
  have hmin' : (s.left now tokens size rate pktSize + pktSize.toNat : ℚ) ≤
      tokens.toNat + accrued rate (s.delta now) := by
    exact_mod_cast hmin
  have hnat' : ((UInt32.ofInt (s.left now tokens size rate pktSize)).toNat : ℚ) =
      s.left now tokens size rate pktSize := by
    exact_mod_cast hnat
  have hfull : (s.left now tokens size rate pktSize + pktSize.toNat : ℚ) ≤ size.toNat := by
    have hle : s.left now tokens size rate pktSize + pktSize.toNat ≤ size.toNat := by omega
    exact_mod_cast hle
  rw [hnat']
  exact ⟨hfull, by linarith⟩

/-- The time and the bytes of a packet. -/
def withdrawal (w : ℕ × UInt32) : ℚ × ℚ :=
  (w.1, w.2.toNat)

open TokenBucket

/-- Packets are withdrawn from a bucket of some tokens. -/
def Withdrawn (size : UInt32) (rate : DataRate) (tokens : UInt32) (since : ℕ)
    (ws : List (ℕ × UInt32)) : Prop :=
  Conforms (size.toNat : ℚ) (rate.byteRate / 10 ^ 9) (1 / 2) tokens.toNat since
    (ws.map withdrawal)

theorem Withdrawn.cons (h : s.timeCheckPoint ≤ now)
    (hleft : 0 ≤ s.left now tokens size rate pktSize)
    (hrest : Withdrawn size rate (.ofInt (s.left now tokens size rate pktSize)) now ws) :
    Withdrawn size rate tokens s.timeCheckPoint ((now, pktSize) :: ws) := by
  obtain ⟨hfull, hlevel⟩ := left_withdrawn h hleft
  exact ⟨Nat.cast_le.2 h, _, Nat.cast_nonneg _, hfull, hlevel, hrest⟩

/-- Packets are withdrawn from both buckets. -/
structure Conforming (p : TbfParams) (s : TbfQueueDisc) (ws : List (ℕ × UInt32)) : Prop where
  first : Withdrawn p.burst p.rate s.btokens s.timeCheckPoint ws
  second : p.peakRate ≠ 0 → Withdrawn p.mtu p.peakRate s.ptokens s.timeCheckPoint ws

theorem Conforming.cons {t : TbfQueueDisc} (h : t.timeCheckPoint ≤ now)
    (hafford : Affords p now t item.size) (hrest : Conforming p (t.taken p now item) ws) :
    Conforming p t ((now, item.size) :: ws) where
  first := Withdrawn.cons h hafford.1 hrest.first
  second hpeak := by
    have hptoks : t.ptoks p now item.size = t.left now t.ptokens p.mtu p.peakRate item.size :=
      if_neg hpeak
    have hafter := hrest.second hpeak
    have hleft := hafford.2
    rw [hptoks] at hleft
    rw [taken, hptoks] at hafter
    exact Withdrawn.cons h hleft hafter

theorem Bounded.taken {t : TbfQueueDisc} (h : t.timeCheckPoint ≤ now)
    (hafford : Affords p now t item.size) : Bounded p (t.taken p now item) := by
  have hfits : ∀ {tokens size : UInt32} {rate : DataRate},
      0 ≤ t.left now tokens size rate item.size →
        .ofInt (t.left now tokens size rate item.size) ≤ size := by
    intro tokens size rate hleft
    have hbounds := @left_bounds now t rate tokens size item.size h
    have hsize := size.toNat_lt
    have hnat := toNat_ofInt hleft (by omega)
    rw [UInt32.le_iff_toNat_le]
    omega
  refine ⟨hfits hafford.1, ?_⟩
  have hleft := hafford.2
  change UInt32.ofInt (t.ptoks p now item.size) ≤ p.mtu
  rw [ptoks] at hleft ⊢
  split_ifs at hleft ⊢
  · exact UInt32.le_iff_toNat_le.2 (Nat.zero_le _)
  · exact hfits hleft

/-- A packet that is not larger than the buckets is blocked, and the event `m_id` is scheduled for
it. -/
structure Blocked (p : TbfParams) (now : ℕ) (s s' : TbfQueueDisc) (item : QueueDiscItem)
    (wake : ℕ) : Prop where
  head : s.queue.head? = some item
  expired : s.id = none
  blocked : s.doDequeue p now = some (s', none)
  scheduled : s'.id = some wake
  le_burst : item.size ≤ p.burst
  le_mtu : p.peakRate ≠ 0 → item.size ≤ p.mtu

variable {wake : ℕ}

end TbfQueueDisc

end Ns3Pedca
