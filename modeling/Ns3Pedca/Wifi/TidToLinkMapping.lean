import Ns3Pedca.Bytes
import Ns3Pedca.Circular
import Ns3Pedca.Core

/-!
# The TID-To-Link Mapping element

`TidToLinkMapping` is written with a control field, the switch time and the expected duration if
they are there, and a link mapping for each TID of the presence bitmap. An element that the setters
have built is read back if it has the default mapping and no link mappings, or the other way
around (`Consistent.deserialize_serialize`). The others are refused.

The switch time is sent as bits 10 to 25 of a microsecond count. The receiver takes the first count
from its own on that has these bits and zeros below them. This is the beginning of the unit the
switch time lies in, as long as the receiver has not passed it and is less than a turn away from it
(`getMappingSwitchTime_iff`).
-/

namespace Ns3Pedca

/-- `WifiDirection`, with the value that is not named and can be read. -/
inductive WifiDirection
  | downlink
  | uplink
  | bothDirections
  | reserved
  deriving DecidableEq

/-- The value of a direction. -/
def WifiDirection.code : WifiDirection → ℕ
  | downlink => 0
  | uplink => 1
  | bothDirections => 2
  | reserved => 3

/-- The direction of two bits. -/
def WifiDirection.ofCode (code : ℕ) : WifiDirection :=
  if code = 0 then downlink
  else if code = 1 then uplink
  else if code = 2 then bothDirections
  else reserved

/-- `TidToLinkMapping::Control`. -/
structure TidToLinkMappingControl where
  direction : WifiDirection := .bothDirections
  defaultMapping : Bool := true
  mappingSwitchTimePresent : Bool := false
  expectedDurationPresent : Bool := false
  linkMappingSize : ℕ := 1
  presenceBitmap : Option UInt8 := none
  deriving DecidableEq

/-- `TidToLinkMapping`, with the link mappings by TID. -/
structure TidToLinkMapping where
  control : TidToLinkMappingControl := {}
  linkMapping : Fin 8 → Option UInt16 := fun _ => none
  mappingSwitchTime : Option UInt16 := none
  expectedDuration : Option UInt32 := none

/-- `GetMicroSeconds`. -/
def getMicroSeconds (t : Time) : ℤ :=
  t.tdiv 1000

/-- A time unit. -/
def timeUnit : Time :=
  microSeconds 1024

/-- `BIT_63_TO_26_MASK`. -/
def bit63To26Mask : UInt64 :=
  0xfffffffffc000000

theorem usec_toNat {t : ℤ} (h : 0 ≤ t) (hlt : t < 2 ^ 63) :
    (UInt64.ofInt (getMicroSeconds t)).toNat = (t / 1000).toNat := by
  have hdiv : getMicroSeconds t = t / 1000 := Int.tdiv_eq_ediv_of_nonneg h
  have hlt' : t / 1000 < 2 ^ 64 := by omega
  have hpos : 0 ≤ t / 1000 := by omega
  rw [hdiv, UInt64.ofInt, Int.emod_eq_of_lt hpos hlt', UInt64.toNat_ofNat_of_lt']
  change (t / 1000).toNat < 2 ^ 64
  omega

namespace TidToLinkMapping

open Bytes

variable (e : TidToLinkMapping)

/-! ## Building an element -/

/-- `SetMappingSwitchTime`, at time `now`. -/
def setMappingSwitchTime (now mappingSwitchTime : Time) : Option TidToLinkMapping :=
  if mappingSwitchTime < now then none
  else
    let switchTimeUsec := UInt64.ofInt (getMicroSeconds mappingSwitchTime)
    some { e with
      mappingSwitchTime := some ((switchTimeUsec &&& ~~~bit63To26Mask) >>> 10).toUInt16
      control := { e.control with mappingSwitchTimePresent := true } }

/-- `GetMappingSwitchTime`, at time `now`. -/
def getMappingSwitchTime (now : Time) : Option Time :=
  if e.control.mappingSwitchTimePresent then
    e.mappingSwitchTime.map fun mappingSwitchTime =>
      let nowUsec := UInt64.ofInt (getMicroSeconds now)
      let switchTimeUsec :=
        (mappingSwitchTime.toUInt64 <<< (10 : UInt64)) + (nowUsec &&& bit63To26Mask)
      microSeconds (if switchTimeUsec < nowUsec then switchTimeUsec + (1 : UInt64) <<< (26 : UInt64)
        else switchTimeUsec).toNat
  else none

/-- `SetExpectedDuration`. -/
def setExpectedDuration (expectedDuration : Time) : TidToLinkMapping :=
  let durationTu := UInt64.ofInt (getMicroSeconds expectedDuration) >>> 10
  { e with
    expectedDuration := some (durationTu &&& 0x0000000000ffffff).toUInt32
    control := { e.control with expectedDurationPresent := true } }

/-- The bits of the links. -/
def linkBits (linkIds : List ℕ) : UInt16 :=
  linkIds.foldl (fun linkMapping linkId => linkMapping ||| .ofNat (1 <<< linkId)) 0

/-- `SetLinkMappingOfTid`. -/
def setLinkMappingOfTid (tid : Fin 8) (linkIds : List ℕ) : Option TidToLinkMapping :=
  if e.control.defaultMapping then none
  else
    some { e with
      linkMapping := Function.update e.linkMapping tid (some (linkBits linkIds))
      control := { e.control with
        linkMappingSize := if linkIds.any (7 < ·) then 2 else e.control.linkMappingSize
        presenceBitmap :=
          some (e.control.presenceBitmap.getD 0 ||| (1 : UInt8) <<< UInt8.ofNat tid) } }

/-! ## Writing -/

/-- The first octet of the control field. -/
def controlOctet (c : TidToLinkMappingControl) : UInt8 :=
  .ofNat (c.direction.code ||| c.defaultMapping.toNat <<< 2 |||
    c.mappingSwitchTimePresent.toNat <<< 3 ||| c.expectedDurationPresent.toNat <<< 4 |||
    (if c.linkMappingSize = 1 then 1 else 0) <<< 5)

/-- `Control::GetSubfieldSize`. -/
def controlSize (c : TidToLinkMappingControl) : ℕ :=
  if c.presenceBitmap.isSome then 1 + 1 else 1

/-- `Control::Serialize`. -/
def writeControl (c : TidToLinkMappingControl) : List UInt8 :=
  controlOctet c :: c.presenceBitmap.toList

/-- The link mappings, by increasing TID. -/
def linkMappings : List UInt16 :=
  (List.finRange 8).filterMap e.linkMapping

/-- The octets of a link mapping. -/
def writeLinkMapping (linkMappingSize : ℕ) (linkMapping : UInt16) : List UInt8 :=
  if linkMappingSize = 1 then [linkMapping.toUInt8] else writeU16 linkMapping.toNat

/-- The three octets of the expected duration. -/
def writeDuration (expectedDuration : UInt32) : List UInt8 :=
  [(expectedDuration >>> 0 &&& 0xff).toUInt8, (expectedDuration >>> 8 &&& 0xff).toUInt8,
    (expectedDuration >>> 16 &&& 0xff).toUInt8]

/-- `GetInformationFieldSize`, with the octet of the element ID extension. -/
def getInformationFieldSize : ℕ :=
  1 + controlSize e.control + (if e.control.mappingSwitchTimePresent then 2 else 0) +
    (if e.control.expectedDurationPresent then 3 else 0) +
    e.control.linkMappingSize * e.linkMappings.length

/-- `SerializeInformationField`. A field that is present has a value. -/
def serializeInformationField : List UInt8 :=
  writeControl e.control ++
    ((if e.control.mappingSwitchTimePresent then writeU16 (e.mappingSwitchTime.getD 0).toNat
      else []) ++
    ((if e.control.expectedDurationPresent then writeDuration (e.expectedDuration.getD 0)
      else []) ++
    e.linkMappings.flatMap (writeLinkMapping e.control.linkMappingSize)))

/-! ## Reading -/

/-- What the first octet of the control field says. -/
def controlOf (val : UInt8) : TidToLinkMappingControl where
  direction := .ofCode (val.toNat &&& 0x03)
  defaultMapping := val.toNat >>> 2 &&& 0x01 = 1
  mappingSwitchTimePresent := val.toNat >>> 3 &&& 0x01 = 1
  expectedDurationPresent := val.toNat >>> 4 &&& 0x01 = 1
  linkMappingSize := if val.toNat >>> 5 &&& 0x01 = 1 then 1 else 2

/-- `Control::Deserialize`. -/
def readControl : List UInt8 → Option (TidToLinkMappingControl × List UInt8)
  | [] => none
  | val :: i =>
    if (controlOf val).defaultMapping then some (controlOf val, i)
    else i.head?.map fun bitmap => ({ controlOf val with presenceBitmap := some bitmap }, i.tail)

/-- Two octets, and the octets after them. -/
def readUInt16 (i : List UInt8) : Option (UInt16 × List UInt8) :=
  (readU16 i).map fun x => (.ofNat x.1, x.2)

/-- The expected duration, and the octets after it. -/
def readDuration : List UInt8 → Option (UInt32 × List UInt8)
  | byte0 :: byte1 :: byte2 :: i =>
    some ((byte2.toUInt32 <<< 8 ||| byte1.toUInt32) <<< 8 ||| byte0.toUInt32, i)
  | _ => none

/-- A link mapping, and the octets after it. -/
def readLinkMapping (linkMappingSize : ℕ) (i : List UInt8) : Option (UInt16 × List UInt8) :=
  if linkMappingSize = 1 then i.head?.map fun linkMapping => (linkMapping.toUInt16, i.tail)
  else readUInt16 i

/-- The loop over the TIDs of the presence bitmap. -/
def readLinkMappings (linkMappingSize : ℕ) (presenceBitmap : UInt8) :
    List (Fin 8) → List UInt8 → Option ((Fin 8 → Option UInt16) × List UInt8)
  | [], i => some (fun _ => none, i)
  | tid :: tids, i =>
    if presenceBitmap.toNat >>> tid.val &&& 0x01 = 1 then
      (readLinkMapping linkMappingSize i).bind fun (linkMapping, i) =>
        (readLinkMappings linkMappingSize presenceBitmap tids i).map fun (others, i) =>
          (Function.update others tid (some linkMapping), i)
    else readLinkMappings linkMappingSize presenceBitmap tids i

/-- A field that is there only if its flag is set. -/
def readIf {α : Type} (present : Bool) (read : List UInt8 → Option (α × List UInt8))
    (old : Option α) (i : List UInt8) : Option (Option α × List UInt8) :=
  if present then (read i).map fun x => (some x.1, x.2) else some (old, i)

/-- The link mappings. -/
def readBitmapMappings (c : TidToLinkMappingControl) (i : List UInt8) :
    Option ((Fin 8 → Option UInt16) × List UInt8) :=
  match c.presenceBitmap with
  | none => some (fun _ => none, i)
  | some presenceBitmap =>
    readLinkMappings c.linkMappingSize presenceBitmap (List.finRange 8) i

/-- `DeserializeInformationField` : the octets read must be as many as the length says. -/
def deserializeInformationField (start : List UInt8) (length : ℕ) : Option TidToLinkMapping := do
  let (control, i) ← readControl start
  let (mappingSwitchTime, i) ← readIf control.mappingSwitchTimePresent readUInt16
    e.mappingSwitchTime i
  let (expectedDuration, i) ← readIf control.expectedDurationPresent readDuration
    e.expectedDuration i
  let (linkMapping, i) ← readBitmapMappings control i
  if start.length - i.length ≠ length then none
  else some { control, linkMapping, mappingSwitchTime, expectedDuration }

/-! ## The switch time -/

variable {e} {now t : ℤ} {x : UInt16}

theorem setMappingSwitchTime_toNat (h : 0 ≤ t) (hlt : t < 2 ^ 63) :
    ((UInt64.ofInt (getMicroSeconds t) &&& ~~~bit63To26Mask) >>> 10).toUInt16.toNat * 1024 =
      (t / 1000).toNat / 1024 * 1024 % 2 ^ 26 := by
  have hmask : (~~~bit63To26Mask).toNat = 2 ^ 26 - 1 := by decide
  rw [UInt64.toNat_toUInt16, UInt64.toNat_shiftRight, UInt64.toNat_and, hmask, usec_toNat h hlt,
    Nat.and_two_pow_sub_one_eq_mod, Nat.shiftRight_eq_div_pow]
  change (t / 1000).toNat % 2 ^ 26 / 2 ^ 10 % 2 ^ 16 * 1024 = _
  omega

/-- The receiver takes the first count from its own on that has these bits. -/
theorem getMappingSwitchTime_eq (hpresent : e.control.mappingSwitchTimePresent = true)
    (hswitch : e.mappingSwitchTime = some x) (h : 0 ≤ now) (hlt : now < 2 ^ 63) :
    e.getMappingSwitchTime now =
      some (microSeconds (Circular.unwrap (2 ^ 26) (now / 1000).toNat (x.toNat * 1024))) := by
  have hx := x.toNat_lt
  have hnow : (now / 1000).toNat < 2 ^ 54 := by omega
  have hlt64 : (now / 1000).toNat / 2 ^ 26 * 2 ^ 26 + x.toNat * 1024 + 2 ^ 26 < 2 ^ 64 := by omega
  have hturns : x.toNat * 1024 < 2 ^ 26 := Nat.mul_lt_mul_of_pos_right hx (by decide)
  have hmask : (UInt64.ofInt (getMicroSeconds now) &&& bit63To26Mask).toNat =
      (now / 1000).toNat / 2 ^ 26 * 2 ^ 26 := by
    have hbits : bit63To26Mask.toNat = 2 ^ 64 - 2 ^ 26 := by decide
    have hlt64 : (now / 1000).toNat < 2 ^ 64 := by omega
    rw [UInt64.toNat_and, usec_toNat h hlt, hbits, and_high_bits hlt64 (by decide)]
  have hfield : (x.toUInt64 <<< (10 : UInt64)).toNat = x.toNat * 1024 := by
    rw [UInt64.toNat_shiftLeft, UInt16.toNat_toUInt64, Nat.shiftLeft_eq]
    change x.toNat * 2 ^ 10 % 2 ^ 64 = _
    omega
  have hsum : (x.toUInt64 <<< (10 : UInt64) +
      (UInt64.ofInt (getMicroSeconds now) &&& bit63To26Mask)).toNat =
        (now / 1000).toNat / 2 ^ 26 * 2 ^ 26 + x.toNat * 1024 := by
    rw [UInt64.toNat_add, hfield, hmask]
    omega
  rw [getMappingSwitchTime, if_pos hpresent, hswitch, Option.map_some]
  dsimp only
  rw [Circular.unwrap_eq_ite hturns]
  simp only [UInt64.lt_iff_toNat_lt, hsum, usec_toNat h hlt]
  split_ifs with hbefore
  · have hturn : ((1 : UInt64) <<< (26 : UInt64)).toNat = 2 ^ 26 := by decide
    rw [UInt64.toNat_add, hsum, hturn, Nat.mod_eq_of_lt hlt64]
  · rw [hsum]

theorem switchTime_iff {T N : ℕ} {t n : ℤ} (hT : (T : ℤ) = t / 1000) (hN : (N : ℤ) = n / 1000)
    (hle : n ≤ t) (hfar : t - n < microSeconds (2 ^ 26)) :
    |t - microSeconds (Circular.unwrap (2 ^ 26) N (T / 1024 * 1024 % 2 ^ 26))| < timeUnit ↔
      N ≤ T / 1024 * 1024 ∧ T / 1024 * 1024 < N + 2 ^ 26 := by
  rw [microSeconds] at hfar
  have hunit : timeUnit = 1024000 := by decide
  rw [hunit, microSeconds, abs_lt]
  have hunit : T / 1024 * 1024 ≤ T ∧ T < T / 1024 * 1024 + 1024 := by omega
  generalize T / 1024 * 1024 = start at hunit ⊢
  have hfar' : T ≤ N + 2 ^ 26 := by omega
  rcases lt_or_ge start N with hbefore | hafter
  · rw [Circular.unwrap_mod_of_lt hbefore (by omega)]
    push_cast
    omega
  rcases lt_or_ge start (N + 2 ^ 26) with hnear | hturn
  · rw [Circular.unwrap_mod_of_le hafter hnear]
    omega
  · obtain rfl : start = N + 2 ^ 26 := by omega
    rw [Nat.add_mod_right, Circular.unwrap_mod_of_le le_rfl (by omega)]
    push_cast
    omega

/-! ## Reading an element back -/

/-- The elements that the setters build. -/
inductive Built : TidToLinkMapping → Prop
  | new : Built {}
  | setDirection {e : TidToLinkMapping} (direction : WifiDirection) (h : Built e) :
    Built { e with control := { e.control with direction } }
  | setDefaultMapping {e : TidToLinkMapping} (defaultMapping : Bool) (h : Built e) :
    Built { e with control := { e.control with defaultMapping } }
  | setMappingSwitchTime {e e' : TidToLinkMapping} (now t : Time) (h : Built e)
    (hset : e.setMappingSwitchTime now t = some e') : Built e'
  | setExpectedDuration {e : TidToLinkMapping} (t : Time) (h : Built e) :
    Built (e.setExpectedDuration t)
  | setLinkMappingOfTid {e e' : TidToLinkMapping} (tid : Fin 8) (linkIds : List ℕ) (h : Built e)
    (hset : e.setLinkMappingOfTid tid linkIds = some e') : Built e'

/-- The bit of a TID. -/
def HasBit (presenceBitmap : UInt8) (tid : Fin 8) : Prop :=
  presenceBitmap.toNat >>> tid.val &&& 0x01 = 1

/-- The private fields of the control field agree with the rest of the element. -/
structure Consistent (e : TidToLinkMapping) : Prop where
  mappingSwitchTime : e.control.mappingSwitchTimePresent = e.mappingSwitchTime.isSome
  expectedDuration : e.control.expectedDurationPresent = e.expectedDuration.isSome
  duration_lt : ∀ d ∈ e.expectedDuration, d.toNat < 2 ^ 24
  bitmap : ∀ tid, (∃ b ∈ e.control.presenceBitmap, HasBit b tid) ↔ (e.linkMapping tid).isSome
  size : e.control.linkMappingSize = 1 ∨ e.control.linkMappingSize = 2
  octet : e.control.linkMappingSize = 1 → ∀ tid, ∀ m ∈ e.linkMapping tid, m.toNat < 2 ^ 8

theorem hasBit_iff {b : UInt8} {tid : Fin 8} : HasBit b tid ↔ b.toNat.testBit tid = true := by
  rw [HasBit, Nat.and_one_is_mod, Nat.shiftRight_eq_div_pow, Nat.testBit_eq_decide_div_mod_eq,
    decide_eq_true_iff]

theorem hasBit_or {b : UInt8} {tid tid' : Fin 8} :
    HasBit (b ||| (1 : UInt8) <<< UInt8.ofNat tid) tid' ↔ HasBit b tid' ∨ tid' = tid := by
  rw [hasBit_iff, hasBit_iff, UInt8.toNat_or, toNat_mask tid.isLt, Nat.testBit_or,
    Nat.testBit_two_pow, Bool.or_eq_true, decide_eq_true_iff, Fin.ext_iff, eq_comm (a := tid.val)]

theorem linkBits_lt {linkIds : List ℕ} (h : ∀ linkId ∈ linkIds, linkId ≤ 7) :
    (linkBits linkIds).toNat < 2 ^ 8 := by
  have hfold : ∀ (l : List ℕ) (m : UInt16), (∀ linkId ∈ l, linkId ≤ 7) → m.toNat < 2 ^ 8 →
      (l.foldl (fun m linkId => m ||| .ofNat (1 <<< linkId)) m).toNat < 2 ^ 8 := by
    intro l
    induction l with
    | nil => exact fun m _ hm => hm
    | cons linkId l ih =>
      intro m hl hm
      obtain ⟨hle, hl⟩ := List.forall_mem_cons.1 hl
      refine ih _ hl ?_
      rw [UInt16.toNat_or, UInt16.toNat_ofNat', Nat.one_shiftLeft]
      refine Nat.or_lt_two_pow hm (lt_of_le_of_lt (Nat.mod_le _ _) ?_)
      exact Nat.pow_lt_pow_right (by decide) (Nat.lt_succ_of_le hle)
  exact hfold linkIds 0 h (by decide)

theorem Built.consistent {e : TidToLinkMapping} (h : Built e) : e.Consistent := by
  induction h with
  | new =>
    refine ⟨rfl, rfl, fun d hd => absurd hd (Option.not_mem_none d), fun tid => ?_, Or.inl rfl,
      fun _ tid m hm => absurd hm (Option.not_mem_none m)⟩
    simp
  | setDirection direction _ ih => exact ⟨ih.1, ih.2, ih.3, ih.4, ih.5, ih.6⟩
  | setDefaultMapping defaultMapping _ ih => exact ⟨ih.1, ih.2, ih.3, ih.4, ih.5, ih.6⟩
  | setMappingSwitchTime now t _ hset ih =>
    rw [TidToLinkMapping.setMappingSwitchTime] at hset
    split at hset
    · cases hset
    · cases hset
      exact ⟨rfl, ih.2, ih.3, ih.4, ih.5, ih.6⟩
  | setExpectedDuration t _ ih =>
    refine ⟨ih.1, rfl, ?_, ih.4, ih.5, ih.6⟩
    rintro d ⟨⟩
    rw [UInt64.toNat_toUInt32, UInt64.toNat_and]
    exact lt_of_le_of_lt (Nat.mod_le _ _) (Nat.and_lt_two_pow _ (by decide))
  | @setLinkMappingOfTid e e' tid linkIds _ hset ih =>
    rw [TidToLinkMapping.setLinkMappingOfTid] at hset
    split at hset
    · cases hset
    cases hset
    refine ⟨ih.1, ih.2, ih.3, fun tid' => ?_, ?_, fun hsize tid' m hm => ?_⟩
    · have hold : HasBit (e.control.presenceBitmap.getD 0) tid' ↔
          (e.linkMapping tid').isSome := by
        rw [← ih.bitmap]
        cases e.control.presenceBitmap with
        | none => simp [hasBit_iff]
        | some b => simp
      simp only [Option.mem_some_iff, exists_eq_left', hasBit_or, hold]
      by_cases heq : tid' = tid
      · subst heq
        simp
      · simp [heq]
    · dsimp only
      split
      · exact Or.inr rfl
      · exact ih.size
    · dsimp only at hsize hm
      split at hsize
      · cases hsize
      next hall =>
        by_cases heq : tid' = tid
        · subst heq
          rw [Function.update_self] at hm
          cases hm
          exact linkBits_lt fun linkId hmem => Nat.not_lt.1 fun hlt =>
            hall (List.any_eq_true.2 ⟨linkId, hmem, decide_eq_true hlt⟩)
        · rw [Function.update_of_ne heq] at hm
          exact ih.octet hsize tid' m hm

/-- As many octets are written as the size says, without the element ID extension. -/
theorem Consistent.length_serialize (h : e.Consistent) :
    e.serializeInformationField.length + 1 = e.getInformationFieldSize := by
  have hlinks : (e.linkMappings.flatMap (writeLinkMapping e.control.linkMappingSize)).length =
      e.control.linkMappingSize * e.linkMappings.length := by
    have heach : ∀ m, (writeLinkMapping e.control.linkMappingSize m).length =
        e.control.linkMappingSize := by
      intro m
      rw [writeLinkMapping]
      rcases h.size with h1 | h2
      · rw [if_pos h1, h1]
        rfl
      · rw [if_neg (by omega), h2]
        rfl
    rw [List.length_flatMap, List.map_congr_left fun m _ => heach m, List.map_const',
      List.sum_replicate, smul_eq_mul, Nat.mul_comm]
  rw [serializeInformationField, getInformationFieldSize, List.length_append, List.length_append,
    List.length_append, hlinks, writeControl, controlSize, List.length_cons]
  cases e.control.presenceBitmap <;> cases e.control.mappingSwitchTimePresent <;>
    cases e.control.expectedDurationPresent <;> simp [writeU16, writeDuration] <;> omega

/-- The first octet keeps the flags. -/
theorem controlOf_controlOctet {c : TidToLinkMappingControl}
    (hsize : c.linkMappingSize = 1 ∨ c.linkMappingSize = 2) :
    controlOf (controlOctet c) = { c with presenceBitmap := none } := by
  have hfields : ∀ (d : WifiDirection) (b1 b2 b3 b4 : Bool),
      controlOf (.ofNat (d.code ||| b1.toNat <<< 2 ||| b2.toNat <<< 3 ||| b3.toNat <<< 4 |||
        b4.toNat <<< 5)) = ⟨d, b1, b2, b3, if b4 then 1 else 2, none⟩ := by
    intro d
    cases d <;> decide
  have hoctet := hfields c.direction c.defaultMapping c.mappingSwitchTimePresent
    c.expectedDurationPresent (decide (c.linkMappingSize = 1))
  rcases hsize with h1 | h2
  · rw [h1] at hoctet
    rw [controlOctet, if_pos h1, h1]
    exact hoctet
  · rw [h2] at hoctet
    rw [controlOctet, if_neg (by omega), h2]
    exact hoctet

theorem readControl_default {c : TidToLinkMappingControl} {i : List UInt8}
    (hsize : c.linkMappingSize = 1 ∨ c.linkMappingSize = 2) (hdefault : c.defaultMapping = true) :
    readControl (controlOctet c :: i) = some ({ c with presenceBitmap := none }, i) := by
  rw [readControl, controlOf_controlOctet hsize, if_pos hdefault]

theorem readControl_bitmap {c : TidToLinkMappingControl} {i : List UInt8}
    (hsize : c.linkMappingSize = 1 ∨ c.linkMappingSize = 2) (hdefault : c.defaultMapping = false) :
    readControl (controlOctet c :: i) =
      i.head?.map fun b => ({ c with presenceBitmap := some b }, i.tail) := by
  rw [readControl, controlOf_controlOctet hsize, if_neg (by rw [hdefault]; decide)]

theorem readIf_append {α : Type} {present : Bool} {read : List UInt8 → Option (α × List UInt8)}
    {old value : Option α} {i : List UInt8} (write : α → List UInt8) (default : α)
    (hpresent : present = value.isSome)
    (hread : ∀ a ∈ value, read (write a ++ i) = some (a, i)) :
    readIf present read old ((if present then write (value.getD default) else []) ++ i) =
      some (if present then value else old, i) := by
  cases hvalue : value with
  | none =>
    rw [hvalue] at hpresent
    rw [hpresent]
    rfl
  | some a =>
    rw [hvalue] at hpresent
    rw [hpresent]
    change (read (write a ++ i)).map _ = _
    rw [hread a hvalue]
    rfl

theorem readUInt16_append (m : UInt16) (i : List UInt8) :
    readUInt16 (writeU16 m.toNat ++ i) = some (m, i) := by
  rw [readUInt16, readU16_writeU16 m.toNat_lt, Option.map_some]
  dsimp only
  rw [UInt16.ofNat_toNat]

theorem readDuration_append {d : UInt32} (h : d.toNat < 2 ^ 24) (i : List UInt8) :
    readDuration (writeDuration d ++ i) = some (d, i) := by
  have hoctet : ∀ k : UInt32, (d >>> k &&& 0xff).toUInt8.toUInt32.toNat =
      d.toNat / 2 ^ (k.toNat % 32) % 2 ^ 8 := by
    intro k
    have hmask : (0xff : UInt32).toNat = 2 ^ 8 - 1 := rfl
    rw [UInt8.toNat_toUInt32, UInt32.toNat_toUInt8, UInt32.toNat_and, hmask,
      Nat.and_two_pow_sub_one_eq_mod, Nat.mod_mod, UInt32.toNat_shiftRight,
      Nat.shiftRight_eq_div_pow]
  have hshift : ∀ {hi lo : UInt32}, hi.toNat < 2 ^ 16 → lo.toNat < 2 ^ 8 →
      (hi <<< 8 ||| lo).toNat = hi.toNat * 2 ^ 8 + lo.toNat := by
    intro hi lo hhi hlo
    have hmod : hi.toNat <<< 8 % 2 ^ 32 = hi.toNat <<< 8 := by
      rw [Nat.shiftLeft_eq]
      omega
    rw [UInt32.toNat_or, UInt32.toNat_shiftLeft]
    change hi.toNat <<< 8 % 2 ^ 32 ||| lo.toNat = _
    rw [hmod, ← Nat.shiftLeft_add_eq_or_of_lt hlo, Nat.shiftLeft_eq]
  have hbytes : (((d >>> 16 &&& 0xff).toUInt8.toUInt32 <<< 8 |||
      (d >>> 8 &&& 0xff).toUInt8.toUInt32) <<< 8 ||| (d >>> 0 &&& 0xff).toUInt8.toUInt32) = d := by
    have h0 := hoctet 0
    have h8 := hoctet 8
    have h16 := hoctet 16
    have hlow := @hshift (d >>> 16 &&& 0xff).toUInt8.toUInt32 (d >>> 8 &&& 0xff).toUInt8.toUInt32
      (by omega) (by omega)
    rw [← UInt32.toNat_inj, hshift (by omega) (by omega), hlow, h0, h8, h16]
    change (d.toNat / 2 ^ 16 % 2 ^ 8 * 2 ^ 8 + d.toNat / 2 ^ 8 % 2 ^ 8) * 2 ^ 8 +
      d.toNat / 2 ^ 0 % 2 ^ 8 = _
    omega
  change some ((((d >>> 16 &&& 0xff).toUInt8.toUInt32 <<< 8 |||
      (d >>> 8 &&& 0xff).toUInt8.toUInt32) <<< 8 ||| (d >>> 0 &&& 0xff).toUInt8.toUInt32), i) = _
  rw [hbytes]

theorem readLinkMapping_append {size : ℕ} {m : UInt16} (h : size = 1 → m.toNat < 2 ^ 8)
    (i : List UInt8) : readLinkMapping size (writeLinkMapping size m ++ i) = some (m, i) := by
  rw [readLinkMapping, writeLinkMapping]
  split_ifs with hsize
  · have hm : m.toUInt8.toUInt16 = m := by
      rw [← UInt16.toNat_inj, UInt8.toNat_toUInt16, UInt16.toNat_toUInt8]
      exact Nat.mod_eq_of_lt (h hsize)
    change some (m.toUInt8.toUInt16, i) = _
    rw [hm]
  · exact readUInt16_append m i

theorem readLinkMappings_append {size : ℕ} {b : UInt8} {f : Fin 8 → Option UInt16}
    (hbit : ∀ tid, HasBit b tid ↔ (f tid).isSome)
    (hoctet : size = 1 → ∀ tid, ∀ m ∈ f tid, m.toNat < 2 ^ 8) (i : List UInt8)
    (tids : List (Fin 8)) (hnodup : tids.Nodup) :
    readLinkMappings size b tids ((tids.filterMap f).flatMap (writeLinkMapping size) ++ i) =
      some (fun tid => if tid ∈ tids then f tid else none, i) := by
  induction tids with
  | nil => rfl
  | cons tid tids ih =>
    obtain ⟨hnot, hnodup⟩ := List.nodup_cons.1 hnodup
    have hothers : ∀ tid', tid' ≠ tid → (tid' ∈ tid :: tids ↔ tid' ∈ tids) := by
      intro tid' hne
      simp [hne]
    rw [readLinkMappings]
    cases hf : f tid with
    | none =>
      have hno : ¬ b.toNat >>> tid.val &&& 0x01 = 1 := by
        intro hset
        have hmapped := (hbit tid).1 hset
        rw [hf] at hmapped
        cases hmapped
      rw [List.filterMap_cons_none hf, if_neg hno, ih hnodup]
      congr 2
      funext tid'
      by_cases heq : tid' = tid
      · rw [heq, if_neg hnot, if_pos List.mem_cons_self, hf]
      · rw [if_congr (hothers tid' heq) rfl rfl]
    | some m =>
      have hyes : b.toNat >>> tid.val &&& 0x01 = 1 := (hbit tid).2 (by rw [hf]; rfl)
      rw [List.filterMap_cons_some hf, if_pos hyes, List.flatMap_cons, List.append_assoc,
        readLinkMapping_append (fun hsize => hoctet hsize tid m hf), Option.bind_some]
      dsimp only
      rw [ih hnodup, Option.map_some]
      congr 2
      funext tid'
      by_cases heq : tid' = tid
      · rw [heq, Function.update_self, if_pos List.mem_cons_self, hf]
      · rw [Function.update_of_ne heq, if_congr (hothers tid' heq) rfl rfl]

/-! ### How much is read -/

theorem length_readIf {α : Type} {present : Bool} {read : List UInt8 → Option (α × List UInt8)}
    {old value : Option α} {i i' : List UInt8} {k : ℕ}
    (hread : ∀ {i a i'}, read i = some (a, i') → i.length = i'.length + k)
    (h : readIf present read old i = some (value, i')) :
    i.length = i'.length + if present then k else 0 := by
  rw [readIf] at h
  split at h
  next hpresent =>
    obtain ⟨⟨a, j⟩, hj, heq⟩ := Option.map_eq_some_iff.1 h
    cases heq
    rw [if_pos hpresent]
    exact hread hj
  next hpresent =>
    cases h
    rw [if_neg hpresent]
    rfl

theorem length_readUInt16 {i i' : List UInt8} {m : UInt16} (h : readUInt16 i = some (m, i')) :
    i.length = i'.length + 2 := by
  rcases i with - | ⟨lo, - | ⟨hi, i⟩⟩
  · cases h
  · cases h
  · cases h
    rfl

theorem length_readDuration {i i' : List UInt8} {d : UInt32} (h : readDuration i = some (d, i')) :
    i.length = i'.length + 3 := by
  rcases i with - | ⟨b0, - | ⟨b1, - | ⟨b2, i⟩⟩⟩
  · cases h
  · cases h
  · cases h
  · cases h
    rfl

theorem length_readLinkMappings {size : ℕ} {b : UInt8} {tids : List (Fin 8)} {i i' : List UInt8}
    {f : Fin 8 → Option UInt16} (h : readLinkMappings size b tids i = some (f, i')) :
    i'.length ≤ i.length := by
  induction tids generalizing i f with
  | nil =>
    cases h
    exact le_rfl
  | cons tid tids ih =>
    rw [readLinkMappings] at h
    split at h
    · obtain ⟨⟨m, j⟩, hm, h⟩ := Option.bind_eq_some_iff.1 h
      obtain ⟨⟨g, j'⟩, hg, heq⟩ := Option.map_eq_some_iff.1 h
      cases heq
      refine (ih hg).trans ?_
      rw [readLinkMapping] at hm
      split at hm
      · obtain ⟨a, -, heq⟩ := Option.map_eq_some_iff.1 hm
        cases heq
        rw [List.length_tail]
        exact Nat.sub_le _ _
      · have hlen := length_readUInt16 hm
        omega
    · exact ih h

/-- The octets of the fields that are there are counted. -/
theorem length_of_deserialize {old d : TidToLinkMapping} {c : TidToLinkMappingControl}
    {start i : List UInt8} {length : ℕ} (hcontrol : readControl start = some (c, i))
    (hd : old.deserializeInformationField start length = some d) (hle : i.length ≤ start.length) :
    start.length - i.length + (if c.mappingSwitchTimePresent then 2 else 0) +
        (if c.expectedDurationPresent then 3 else 0) ≤ length ∧
      (c.presenceBitmap = none →
        start.length - i.length + (if c.mappingSwitchTimePresent then 2 else 0) +
          (if c.expectedDurationPresent then 3 else 0) = length) := by
  obtain ⟨⟨c', i0⟩, hcontrol', hd⟩ := Option.bind_eq_some_iff.1 hd
  obtain ⟨rfl, rfl⟩ := Prod.mk.inj (Option.some.inj (hcontrol.symm.trans hcontrol'))
  obtain ⟨⟨x, i1⟩, hswitch, hd⟩ := Option.bind_eq_some_iff.1 hd
  obtain ⟨⟨y, i2⟩, hduration, hd⟩ := Option.bind_eq_some_iff.1 hd
  obtain ⟨⟨f, i3⟩, hlinks, hd⟩ := Option.bind_eq_some_iff.1 hd
  dsimp only at hswitch hduration hlinks hd
  have hlength : start.length - i3.length = length := by
    by_contra hne
    rw [if_pos hne] at hd
    cases hd
  have h1 := length_readIf (k := 2) (fun hx => length_readUInt16 hx) hswitch
  have h2 := length_readIf (k := 3) (fun hx => length_readDuration hx) hduration
  rw [readBitmapMappings] at hlinks
  split at hlinks
  next hnone =>
    cases hlinks
    refine ⟨by omega, fun _ => by omega⟩
  next b hsome =>
    have h3 := length_readLinkMappings hlinks
    refine ⟨by omega, fun hnone => ?_⟩
    rw [hnone] at hsome
    cases hsome

/-- The link mappings are there if and only if the presence bitmap is. -/
theorem Consistent.linkMappings_eq_nil (h : e.Consistent)
    (hnone : e.control.presenceBitmap = none) : e.linkMapping = fun _ => none := by
  funext tid
  have hbitmap := h.bitmap tid
  rw [hnone] at hbitmap
  rw [← Option.not_isSome_iff_eq_none, ← hbitmap]
  rintro ⟨b, hb, -⟩
  cases hb

/-- An element is read back, and it is refused if it has the default mapping and link mappings, or
neither. The fields that are not there stay as they were. -/
theorem Consistent.deserialize_serialize (h : e.Consistent) (old : TidToLinkMapping)
    (rest : List UInt8) :
    old.deserializeInformationField (e.serializeInformationField ++ rest)
        e.serializeInformationField.length =
      if e.control.defaultMapping = e.control.presenceBitmap.isNone then some { e with
        mappingSwitchTime :=
          if e.control.mappingSwitchTimePresent then e.mappingSwitchTime else old.mappingSwitchTime
        expectedDuration :=
          if e.control.expectedDurationPresent then e.expectedDuration else old.expectedDuration }
      else none := by
  set w := (if e.control.mappingSwitchTimePresent then writeU16 (e.mappingSwitchTime.getD 0).toNat
      else []) ++
    ((if e.control.expectedDurationPresent then writeDuration (e.expectedDuration.getD 0)
      else []) ++ (e.linkMappings.flatMap (writeLinkMapping e.control.linkMappingSize) ++ rest))
    with hw
  have hbytes : e.serializeInformationField ++ rest =
      controlOctet e.control :: (e.control.presenceBitmap.toList ++ w) := by
    rw [serializeInformationField, writeControl, List.cons_append, List.cons_append,
      List.append_assoc, List.append_assoc, List.append_assoc]
  have hlength : e.serializeInformationField.length + rest.length =
      1 + e.control.presenceBitmap.toList.length + w.length := by
    rw [← List.length_append, hbytes, List.length_cons, List.length_append]
    omega
  by_cases hvalid : e.control.defaultMapping = e.control.presenceBitmap.isNone
  · have hcontrol : readControl (e.serializeInformationField ++ rest) = some (e.control, w) := by
      rw [hbytes]
      cases hbitmap : e.control.presenceBitmap with
      | none =>
        rw [hbitmap] at hvalid
        rw [readControl_default h.size hvalid]
        change some (({ e.control with presenceBitmap := none } : TidToLinkMappingControl), w) = _
        rw [← hbitmap]
      | some b =>
        rw [hbitmap] at hvalid
        rw [readControl_bitmap h.size hvalid]
        change some (({ e.control with presenceBitmap := some b } : TidToLinkMappingControl), w) = _
        rw [← hbitmap]
    have hlinks : readBitmapMappings e.control (e.linkMappings.flatMap
        (writeLinkMapping e.control.linkMappingSize) ++ rest) = some (e.linkMapping, rest) := by
      rw [readBitmapMappings]
      cases hbitmap : e.control.presenceBitmap with
      | none =>
        have hnil := h.linkMappings_eq_nil hbitmap
        rw [linkMappings, hnil]
        rfl
      | some b =>
        have hbit : ∀ tid, HasBit b tid ↔ (e.linkMapping tid).isSome := by
          intro tid
          rw [← h.bitmap tid, hbitmap]
          simp
        dsimp only
        rw [linkMappings, readLinkMappings_append hbit h.octet rest _ (List.nodup_finRange 8)]
        simp
    have hlast : (e.serializeInformationField ++ rest).length - rest.length =
        e.serializeInformationField.length := by
      rw [List.length_append, Nat.add_sub_cancel]
    rw [if_pos hvalid, deserializeInformationField, hcontrol]
    change (readIf _ _ _ w).bind _ = _
    rw [hw, readIf_append (fun m => writeU16 m.toNat) 0 h.mappingSwitchTime
      fun m _ => readUInt16_append m _]
    change (readIf _ _ _ _).bind _ = _
    rw [readIf_append writeDuration 0 h.expectedDuration
      fun d hd => readDuration_append (h.duration_lt d hd) _]
    change (readBitmapMappings _ _).bind _ = _
    rw [hlinks]
    change (if (e.serializeInformationField ++ rest).length - rest.length ≠
      e.serializeInformationField.length then none else _) = _
    rw [if_neg (not_not.2 hlast)]
  · rw [if_neg hvalid, ← Option.not_isSome_iff_eq_none, Option.isSome_iff_exists]
    rintro ⟨d, hd⟩
    have hfields : w.length = (if e.control.mappingSwitchTimePresent then 2 else 0) +
        ((if e.control.expectedDurationPresent then 3 else 0) +
          ((e.linkMappings.flatMap (writeLinkMapping e.control.linkMappingSize)).length +
            rest.length)) := by
      rw [hw, List.length_append, List.length_append, List.length_append]
      congr 1
      · split <;> rfl
      · congr 1
        split <;> rfl
    rw [hbytes] at hd
    cases hbitmap : e.control.presenceBitmap with
    | none =>
      rw [hbitmap] at hvalid hd hlength
      have hdefault : e.control.defaultMapping = false := Bool.eq_false_of_not_eq_true hvalid
      have hlinks : e.linkMappings = [] := by
        rw [linkMappings, h.linkMappings_eq_nil hbitmap]
        rfl
      rw [hlinks] at hfields
      cases hi : w with
      | nil =>
        obtain ⟨x, hx, -⟩ := Option.bind_eq_some_iff.1 hd
        rw [hi, Option.toList_none, List.nil_append, readControl_bitmap h.size hdefault] at hx
        cases hx
      | cons b i =>
        have hcontrol : readControl (controlOctet e.control :: (none.toList ++ w)) =
            some ({ e.control with presenceBitmap := some b }, i) := by
          rw [readControl_bitmap h.size hdefault, hi]
          rfl
        have hread := (length_of_deserialize hcontrol hd (by
          rw [Option.toList_none, List.nil_append, hi, List.length_cons, List.length_cons]
          omega)).1
        simp only [hi, Option.toList_none, List.nil_append, List.length_cons, List.length_nil,
          List.flatMap_nil] at hread hfields hlength
        omega
    | some b =>
      rw [hbitmap] at hvalid hd hlength
      have hdefault : e.control.defaultMapping = true := Bool.eq_true_of_not_eq_false hvalid
      have hcontrol : readControl (controlOctet e.control :: ((some b).toList ++ w)) =
          some ({ e.control with presenceBitmap := none }, b :: w) :=
        readControl_default h.size hdefault
      have hread := (length_of_deserialize hcontrol hd (by simp)).2 rfl
      simp only [Option.toList_some, List.singleton_append, List.length_cons, List.length_nil]
        at hread hlength
      omega

/-! ## The switch time that is read -/

/-- The time that is read from an element differs from the switch time by less than a time unit, if
and only if the receiver has not passed the beginning of the unit that the switch time lies in,
and is less than a turn away from it. -/
theorem getMappingSwitchTime_iff {e e' decoded old : TidToLinkMapping} {built t n : Time}
    {rest : List UInt8} (he : Built e) (hbuilt : 0 ≤ built) (hset : e.setMappingSwitchTime built t =
      some e') (hdecoded : old.deserializeInformationField (e'.serializeInformationField ++ rest)
        e'.serializeInformationField.length = some decoded)
    (hn : built ≤ n) (hle : n ≤ t) (hfar : t - n < microSeconds (2 ^ 26)) (ht : t < 2 ^ 63) :
    (∃ time, decoded.getMappingSwitchTime n = some time ∧ |t - time| < timeUnit) ↔
      getMicroSeconds n ≤ getMicroSeconds t / 1024 * 1024 ∧
        getMicroSeconds t / 1024 * 1024 < getMicroSeconds n + 2 ^ 26 := by
  have h0 : (0 : ℤ) ≤ n := le_trans hbuilt hn
  have h0t : (0 : ℤ) ≤ t := le_trans h0 hle
  have hn63 : (n : ℤ) < 2 ^ 63 := lt_of_le_of_lt hle ht
  have hconsistent := (he.setMappingSwitchTime built t hset).consistent
  rw [hconsistent.deserialize_serialize] at hdecoded
  rw [setMappingSwitchTime] at hset
  split at hset
  · cases hset
  cases hset
  split at hdecoded
  · cases hdecoded
    have hmicro : ∀ {u : ℤ}, 0 ≤ u → getMicroSeconds u = ((u / 1000).toNat : ℤ) ∧
        ((u / 1000).toNat : ℤ) = u / 1000 := by
      intro u hu
      have hdiv : getMicroSeconds u = u / 1000 := Int.tdiv_eq_ediv_of_nonneg hu
      omega
    rw [getMappingSwitchTime_eq (x := ((UInt64.ofInt (getMicroSeconds t) &&&
      ~~~bit63To26Mask) >>> 10).toUInt16) ?_ ?_ h0 hn63, setMappingSwitchTime_toNat h0t ht]
    · simp only [Option.some.injEq, exists_eq_left']
      rw [switchTime_iff (hmicro h0t).2 (hmicro h0).2 hle hfar, (hmicro h0t).1, (hmicro h0).1]
      omega
    · rfl
    · rfl
  · cases hdecoded

/-- The receiver's bits 10 to 25 are about to start over. -/
theorem getMappingSwitchTime_turn : ∃ e' decoded : TidToLinkMapping,
    setMappingSwitchTime {} 0 (microSeconds (2 ^ 26 + 5000)) = some e' ∧
    deserializeInformationField {} e'.serializeInformationField
      e'.serializeInformationField.length = some decoded ∧
    ∃ time, decoded.getMappingSwitchTime (microSeconds (2 ^ 26 - 1)) = some time ∧
      |microSeconds (2 ^ 26 + 5000) - time| < timeUnit := by
  have hsteps : ((setMappingSwitchTime {} 0 (microSeconds (2 ^ 26 + 5000))).any fun e' =>
      (deserializeInformationField {} (e'.serializeInformationField ++ [])
        e'.serializeInformationField.length).isSome) = true := by
    decide
  obtain ⟨e', hset, hsome⟩ := (Option.any_eq_true _ _).1 hsteps
  obtain ⟨decoded, hdecoded⟩ := Option.isSome_iff_exists.1 hsome
  refine ⟨e', decoded, hset, by rwa [List.append_nil] at hdecoded, ?_⟩
  exact (getMappingSwitchTime_iff .new le_rfl hset hdecoded (by decide) (by decide) (by decide)
    (by decide)).2 (by decide)

/-- The receiver has passed the beginning of the unit that the switch time lies in. -/
theorem not_getMappingSwitchTime : ¬ ∀ (e e' decoded : TidToLinkMapping) (built t n : Time),
    Built e → 0 ≤ built → e.setMappingSwitchTime built t = some e' →
      deserializeInformationField {} e'.serializeInformationField
        e'.serializeInformationField.length = some decoded →
      built ≤ n → n ≤ t → t - n < microSeconds (2 ^ 26) → t < 2 ^ 63 →
      ∃ time, decoded.getMappingSwitchTime n = some time ∧ |t - time| < timeUnit := by
  intro h
  have hsteps : ((setMappingSwitchTime {} 0 (microSeconds 1500)).any fun e' =>
      (deserializeInformationField {} e'.serializeInformationField
        e'.serializeInformationField.length).any fun decoded =>
          decoded.getMappingSwitchTime (microSeconds 1100) =
            some (microSeconds (1024 + 2 ^ 26))) = true := by
    decide
  obtain ⟨e', hset, hsome⟩ := (Option.any_eq_true _ _).1 hsteps
  obtain ⟨decoded, hdecoded, hread⟩ := (Option.any_eq_true _ _).1 hsome
  obtain ⟨time, htime, hclose⟩ := h {} e' decoded 0 (microSeconds 1500) (microSeconds 1100) .new
    le_rfl hset hdecoded (by decide) (by decide) (by decide) (by decide)
  rw [of_decide_eq_true hread] at htime
  cases htime
  exact absurd hclose (by decide)

end TidToLinkMapping

end Ns3Pedca
