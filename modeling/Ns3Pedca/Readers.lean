import Ns3Pedca.Bytes

/-!
# Readers

A `Reader` takes bytes off the front of a list, or fails. It `Reads` a value from the bytes that
were written for it if it takes exactly these, whatever follows, and readers one after the other
read what is written one after the other (`Reads.bind`).

`readItems` reads items until enough bytes are taken. It stops at the end of the first item that
reaches the size (`run_readItems`), so all items are read if and only if those before the last one
are shorter (`run_readItems_iff`).
-/

namespace Readers

variable {α β : Type}

/-- A reader takes bytes off the front, or fails. -/
abbrev Reader (α : Type) := StateT (List UInt8) Option α

/-- The reader takes exactly `bytes` and returns `a`. -/
def Reads (x : Reader α) (bytes : List UInt8) (a : α) : Prop :=
  ∀ rest, x.run (bytes ++ rest) = some (a, rest)

/-- Whatever the reader returns satisfies `P`. -/
def Returns (x : Reader α) (P : α → Prop) : Prop :=
  ∀ bytes a rest, x.run bytes = some (a, rest) → P a

/-- `ReadU8`. -/
def readU8 : Reader UInt8
  | [] => none
  | byte :: rest => some (byte, rest)

/-- A field that is there or not. -/
def readIf (c : Prop) [Decidable c] (x : Reader α) : Reader (Option α) :=
  if c then some <$> x else pure none

/-- Items until `size` bytes are taken, with a bound on their number. -/
def readItems (x : Reader α) : ℕ → ℕ → Reader (List α)
  | 0, size => fun bytes => if size = 0 then some ([], bytes) else none
  | fuel + 1, size => fun bytes =>
    if size = 0 then some ([], bytes)
    else (x.run bytes).bind fun r =>
      ((readItems x fuel (size - (bytes.length - r.2.length))).run r.2).map fun s =>
        (r.1 :: s.1, s.2)

/-- The same reader a number of times. -/
def readTimes (x : Reader α) : ℕ → Reader (List α)
  | 0 => pure []
  | n + 1 => do
    let a ← x
    let as ← readTimes x n
    return a :: as

/-! ## What is read -/

variable {x : Reader α} {f : α → Reader β} {bytes bytes' : List UInt8} {a : α} {b : β}
  {P : α → Prop} {Q : β → Prop}

theorem reads_pure (a : α) : Reads (pure a) [] a :=
  fun _ => rfl

theorem Reads.bind (hx : Reads x bytes a) (hf : Reads (f a) bytes' b) :
    Reads (x >>= f) (bytes ++ bytes') b := by
  intro rest
  rw [StateT.run_bind, List.append_assoc, hx]
  exact hf rest

theorem Reads.map (hx : Reads x bytes a) (g : α → β) : Reads (g <$> x) bytes (g a) := by
  intro rest
  rw [StateT.run_map, hx]
  rfl

theorem Reads.unique {a' : α} (h : Reads x bytes a) (h' : Reads x bytes a') : a = a' := by
  have heq := (h []).symm.trans (h' [])
  exact congrArg Prod.fst (Option.some.inj heq)

theorem reads_readU8 (byte : UInt8) : Reads readU8 [byte] byte :=
  fun _ => rfl

theorem reads_readIf {c : Prop} [Decidable c] {o : Option α} {write : α → List UInt8}
    (hc : c ↔ o.isSome = true) (hx : ∀ a ∈ o, Reads x (write a) a) :
    Reads (readIf c x) (o.elim [] write) o := by
  cases o with
  | none =>
    rw [readIf, if_neg (fun h => absurd (hc.1 h) Bool.false_ne_true)]
    exact reads_pure none
  | some a =>
    rw [readIf, if_pos (hc.2 rfl)]
    exact (hx a rfl).map some

theorem reads_readTimes {write : α → List UInt8} (as : List α) :
    (∀ a ∈ as, Reads x (write a) a) → Reads (readTimes x as.length) (as.flatMap write) as := by
  induction as with
  | nil => exact fun _ => reads_pure []
  | cons a as ih =>
    intro h
    obtain ⟨ha, has⟩ := List.forall_mem_cons.1 h
    rw [List.flatMap_cons, ← List.append_nil (as.flatMap write)]
    exact ha.bind ((ih has).bind (reads_pure _))

/-! ## What is returned -/

theorem returns_pure (h : P a) : Returns (pure a) P := by
  intro bytes a' rest hrun
  obtain rfl : a = a' := congrArg Prod.fst (Option.some.inj hrun)
  exact h

theorem Returns.bind (hx : Returns x P) (hf : ∀ a, P a → Returns (f a) Q) :
    Returns (x >>= f) Q := by
  intro bytes b rest hrun
  rw [StateT.run_bind] at hrun
  obtain ⟨r, hr, hb⟩ := Option.bind_eq_some_iff.1 hrun
  exact hf r.1 (hx bytes r.1 r.2 hr) r.2 b rest hb

theorem Returns.map (hx : Returns x P) (g : α → β) (hg : ∀ a, P a → Q (g a)) :
    Returns (g <$> x) Q := by
  intro bytes b rest hrun
  rw [StateT.run_map] at hrun
  obtain ⟨r, hr, heq⟩ := Option.map_eq_some_iff.1 hrun
  obtain ⟨rfl, -⟩ := Prod.mk.inj heq
  exact hg r.1 (hx bytes r.1 r.2 hr)

theorem returns_readIf {c : Prop} [Decidable c] (hx : Returns x P) :
    Returns (readIf c x) fun o => ∀ a ∈ o, P a := by
  rw [readIf]
  split_ifs
  · refine hx.map some fun a ha a' ha' => ?_
    obtain rfl := Option.some.inj ha'
    exact ha
  · exact returns_pure fun a ha => absurd ha (Option.not_mem_none a)

/-- Nothing is known of what a reader returns. -/
theorem returns_true (x : Reader α) : Returns x fun _ => True :=
  fun _ _ _ _ => trivial

theorem returns_readTimes (hx : Returns x P) (n : ℕ) :
    Returns (readTimes x n) fun as => ∀ a ∈ as, P a := by
  induction n with
  | zero => exact returns_pure fun _ h => absurd h List.not_mem_nil
  | succ n ih =>
    exact hx.bind fun a ha => ih.bind fun as has => returns_pure (List.forall_mem_cons.2 ⟨ha, has⟩)

theorem length_readTimes (x : Reader α) (n : ℕ) :
    Returns (readTimes x n) fun as => as.length = n := by
  induction n with
  | zero => exact returns_pure rfl
  | succ n ih =>
    exact (returns_true x).bind fun a _ => ih.bind fun as has =>
      returns_pure (congrArg Nat.succ has)

theorem returns_readItems (hx : Returns x P) (fuel : ℕ) : ∀ size : ℕ,
    Returns (readItems x fuel size) fun as => ∀ a ∈ as, P a := by
  induction fuel with
  | zero =>
    intro size bytes as rest hrun
    change (if size = 0 then some ([], bytes) else none) = _ at hrun
    split_ifs at hrun
    obtain ⟨rfl, -⟩ := Prod.mk.inj (Option.some.inj hrun)
    exact fun _ h => absurd h List.not_mem_nil
  | succ fuel ih =>
    intro size bytes as rest hrun
    change (if size = 0 then some ([], bytes) else (x.run bytes).bind fun r =>
      ((readItems x fuel (size - (bytes.length - r.2.length))).run r.2).map fun s =>
        (r.1 :: s.1, s.2)) = _ at hrun
    split_ifs at hrun
    · obtain ⟨rfl, -⟩ := Prod.mk.inj (Option.some.inj hrun)
      exact fun _ h => absurd h List.not_mem_nil
    · obtain ⟨r, hr, hmap⟩ := Option.bind_eq_some_iff.1 hrun
      obtain ⟨s, hs, heq⟩ := Option.map_eq_some_iff.1 hmap
      obtain ⟨rfl, -⟩ := Prod.mk.inj heq
      exact List.forall_mem_cons.2 ⟨hx bytes r.1 r.2 hr, ih _ r.2 s.1 s.2 hs⟩

/-! ## Items -/

theorem reads_readItems_nil (x : Reader α) (fuel : ℕ) : Reads (readItems x fuel 0) [] [] := by
  intro rest
  cases fuel <;> rfl

/-- One item more, before the others. -/
theorem Reads.readItems_cons {as : List α} {fuel size : ℕ} (hx : Reads x bytes a)
    (hne : bytes ≠ []) (has : Reads (readItems x fuel size) bytes' as) :
    Reads (readItems x (fuel + 1) (bytes.length + size)) (bytes ++ bytes') (a :: as) := by
  intro rest
  have hlen := List.length_pos_iff.2 hne
  have htaken : bytes.length + size - ((bytes ++ (bytes' ++ rest)).length -
      (bytes' ++ rest).length) = size := by
    rw [List.length_append, Nat.add_sub_cancel, Nat.add_sub_cancel_left]
  change (if bytes.length + size = 0 then _ else (x.run _).bind _) = _
  rw [if_neg (by omega), List.append_assoc, hx, Option.bind_some]
  dsimp only
  rw [htaken, has]
  rfl

/-- Items are read up to the first one that reaches the size. -/
theorem run_readItems {write : α → List UInt8} (as : List α) :
    (∀ a ∈ as, Reads x (write a) a ∧ write a ≠ []) → ∀ fuel size rest, size ≤ fuel →
      size ≤ (as.flatMap write).length → ∃ k,
        (readItems x fuel size).run (as.flatMap write ++ rest) =
            some (as.take k, (as.drop k).flatMap write ++ rest) ∧
          size ≤ ((as.take k).flatMap write).length ∧
          ∀ j < k, j < as.length → ((as.take j).flatMap write).length < size := by
  induction as with
  | nil =>
    intro _ fuel size rest _ hsize
    obtain rfl : size = 0 := Nat.le_zero.1 hsize
    refine ⟨0, ?_, le_rfl, fun j hj => absurd hj (Nat.not_lt_zero j)⟩
    cases fuel <;> rfl
  | cons a as ih =>
    intro h fuel size rest hfuel hsize
    obtain ⟨⟨ha, hne⟩, has⟩ := List.forall_mem_cons.1 h
    rcases Nat.eq_zero_or_pos size with rfl | hpos
    · refine ⟨0, ?_, Nat.zero_le _, fun j hj => absurd hj (Nat.not_lt_zero j)⟩
      cases fuel <;> rfl
    · have hlen := List.length_pos_iff.2 hne
      rw [List.flatMap_cons, List.length_append] at hsize
      obtain ⟨fuel, rfl⟩ := Nat.exists_eq_succ_of_ne_zero (by omega : fuel ≠ 0)
      obtain ⟨k, hrun, hle, hlt⟩ := ih has fuel (size - (write a).length) rest (by omega) (by omega)
      refine ⟨k + 1, ?_, ?_, ?_⟩
      · change (if size = 0 then _ else (x.run _).bind _) = _
        have htaken : (write a ++ (as.flatMap write ++ rest)).length -
            (as.flatMap write ++ rest).length = (write a).length := by
          rw [List.length_append, Nat.add_sub_cancel]
        rw [if_neg hpos.ne', List.flatMap_cons, List.append_assoc, ha, Option.bind_some]
        dsimp only
        rw [htaken, hrun]
        rfl
      · rw [List.take_succ_cons, List.flatMap_cons, List.length_append]
        omega
      · intro j hj hjlt
        cases j with
        | zero => exact hpos
        | succ j =>
          rw [List.take_succ_cons, List.flatMap_cons, List.length_append]
          have hnext := hlt j (Nat.lt_of_succ_lt_succ hj) (Nat.lt_of_succ_lt_succ hjlt)
          omega

theorem length_flatMap_take_le (write : α → List UInt8) (as : List α) {j k : ℕ} (h : j ≤ k) :
    ((as.take j).flatMap write).length ≤ ((as.take k).flatMap write).length := by
  obtain ⟨tail, htail⟩ := List.take_prefix_take_left h
  rw [← htail, List.flatMap_append, List.length_append]
  exact Nat.le_add_right _ _

/-- All items are read, if and only if those before the last one are shorter than the size. -/
theorem run_readItems_iff {write : α → List UInt8} {as : List α}
    (h : ∀ a ∈ as, Reads x (write a) a ∧ write a ≠ []) {fuel size : ℕ} (hfuel : size ≤ fuel)
    (hsize : size ≤ (as.flatMap write).length) (rest : List UInt8) :
    (readItems x fuel size).run (as.flatMap write ++ rest) = some (as, rest) ↔
      as = [] ∨ (as.dropLast.flatMap write).length < size := by
  obtain ⟨k, hrun, hle, hlt⟩ := run_readItems as h fuel size rest hfuel hsize
  rw [hrun]
  constructor
  · intro heq
    obtain ⟨htake, -⟩ := Prod.mk.inj (Option.some.inj heq)
    by_cases hnil : as = []
    · exact .inl hnil
    · have hpos := List.length_pos_iff.2 hnil
      have hall := List.take_eq_self_iff as |>.1 htake
      rw [List.dropLast_eq_take]
      exact .inr (hlt _ (by omega) (by omega))
  · intro hor
    have hall : as.length ≤ k := by
      by_contra hk
      rcases hor with rfl | hlast
      · exact hk (Nat.zero_le k)
      · have hmono := length_flatMap_take_le write as (show k ≤ as.length - 1 by omega)
        rw [← List.dropLast_eq_take] at hmono
        omega
    rw [List.take_of_length_le hall, List.drop_of_length_le hall]
    rfl

end Readers
