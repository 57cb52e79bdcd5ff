import Mathlib

/-!
# Head and tail of a list of addresses

`getHeadTail` narrows the head and the tail that the addresses have in common, from one address to
the next one. The loop over the tail goes on as long as what it has found is not longer than the
tail so far, so it can find one byte more (`tailLoop_spec`).

The head is always that of all addresses (`Narrowed`). The tail is if and only if the addresses are
not all the same, and the bytes at the end that the last two share are shared by all
(`common_iff`).
-/

namespace Ns3Pedca

namespace PbbHeadTail

/-- The loop of `GetHeadTail` over the head, from index `i` with `n` bytes left. -/
def headLoop (buflast bufcur : List UInt8) (headlen : ℕ) : ℕ → ℕ → ℕ
  | 0, _ => headlen
  | n + 1, i =>
    if buflast.getD i 0 ≠ bufcur.getD i 0 then i else headLoop buflast bufcur headlen n (i + 1)

/-- The loop of `GetHeadTail` over the tail, from an index down to where it ends. -/
def tailLoop (len headlen taillen : ℕ) (buflast bufcur : List UInt8) : ℕ → ℕ
  | 0 => 0
  | i + 1 =>
    if len - 1 - (i + 1) ≤ taillen ∧ headlen < i + 1 then
      if buflast.getD (i + 1) 0 ≠ bufcur.getD (i + 1) 0 then i + 1
      else tailLoop len headlen taillen buflast bufcur i
    else i + 1

/-- The local variables of `GetHeadTail`. -/
structure State where
  headlen : ℕ
  taillen : ℕ
  buflast : List UInt8
  bufcur : List UInt8

/-- The loop of `GetHeadTail` over the addresses of `len` bytes. -/
def addressLoop (len : ℕ) : List (List UInt8) → State → State
  | [], s => s
  | bufcur :: rest, s =>
    let headlen := headLoop s.buflast bufcur s.headlen s.headlen 0
    if 0 < len - headlen then
      let i := tailLoop len headlen s.taillen s.buflast bufcur (len - 1)
      addressLoop len rest ⟨headlen, len - 1 - i, bufcur, s.buflast⟩
    else if headlen = 0 then ⟨headlen, 0, s.buflast, bufcur⟩
    else addressLoop len rest ⟨headlen, s.taillen, bufcur, s.buflast⟩

/-- `GetHeadTail`. The increment of the iterator has no effect, so the first address is compared
with itself. -/
def getHeadTail (len : ℕ) (addresses : List (List UInt8)) : State :=
  addressLoop len addresses ⟨len, len, addresses.headD [], []⟩

/-- What is copied to `head`. -/
def State.head (s : State) : List UInt8 :=
  s.bufcur.take s.headlen

/-- What is copied to `tail`. -/
def State.tail (len : ℕ) (s : State) : List UInt8 :=
  s.bufcur.drop (len - s.taillen)

/-- The addresses agree on the bytes from `i` to `j`. -/
def Agree (a b : List UInt8) (i j : ℕ) : Prop :=
  ∀ k, i ≤ k → k < j → a.getD k 0 = b.getD k 0

/-- Head and tail do not overlap, and are those of all addresses. -/
def Common (len : ℕ) (addresses : List (List UInt8)) (s : State) : Prop :=
  s.headlen + s.taillen ≤ len ∧
    ∀ a ∈ addresses, a.take s.headlen = s.head ∧ a.drop (len - s.taillen) = s.tail len

/-! ## The loops over bytes -/

variable {len headlen taillen n i h : ℕ} {a b c : List UInt8}

theorem Agree.symm (hab : Agree a b i h) : Agree b a i h :=
  fun k hk hlt => (hab k hk hlt).symm

theorem Agree.trans (hab : Agree a b i h) (hbc : Agree b c i h) : Agree a c i h :=
  fun k hk hlt => (hab k hk hlt).trans (hbc k hk hlt)

theorem Agree.mono {i' h' : ℕ} (hab : Agree a b i h) (hi : i ≤ i') (hh : h' ≤ h) :
    Agree a b i' h' :=
  fun k hk hlt => hab k (hi.trans hk) (hlt.trans_le hh)

theorem agree_refl (a : List UInt8) (i h : ℕ) : Agree a a i h :=
  fun _ _ _ => rfl

/-- The loop ends at the first difference. -/
theorem headLoop_spec (a b : List UInt8) (headlen n : ℕ) : ∀ i, i + n = headlen →
    headLoop a b headlen n i ≤ headlen ∧ Agree a b i (headLoop a b headlen n i) ∧
      (headLoop a b headlen n i < headlen →
        a.getD (headLoop a b headlen n i) 0 ≠ b.getD (headLoop a b headlen n i) 0) := by
  induction n with
  | zero =>
    intro i hi
    exact ⟨le_rfl, fun k hk hlt => absurd hlt (by change ¬ k < headlen; omega),
      fun hlt => absurd hlt (lt_irrefl _)⟩
  | succ n ih =>
    intro i hi
    rw [headLoop]
    by_cases hne : a.getD i 0 ≠ b.getD i 0
    · rw [if_pos hne]
      exact ⟨by omega, fun k hk hlt => absurd hlt (not_lt.2 hk), fun _ => hne⟩
    · rw [if_neg hne]
      obtain ⟨hle, hagree, hlast⟩ := ih (i + 1) (by omega)
      refine ⟨hle, fun k hk hlt => ?_, hlast⟩
      rcases Nat.eq_or_lt_of_le hk with rfl | hgt
      · exact not_ne_iff.1 hne
      · exact hagree k hgt hlt

/-- The loop stays above the head, and ends where the addresses differ, or when it has found one
byte more than there were. -/
theorem tailLoop_spec (len headlen taillen : ℕ) (a b : List UInt8) (i : ℕ) :
    tailLoop len headlen taillen a b i ≤ i ∧
      (headlen ≤ i → headlen ≤ tailLoop len headlen taillen a b i) ∧
      Agree a b (tailLoop len headlen taillen a b i + 1) (i + 1) ∧
      ∀ n, Agree a b (len - n) (i + 1) → n + headlen < len → n ≤ taillen + 1 →
        tailLoop len headlen taillen a b i ≤ len - 1 - n := by
  induction i with
  | zero => exact ⟨le_rfl, id, fun k hk hlt => by omega, fun n _ _ _ => Nat.zero_le _⟩
  | succ i ih =>
    rw [tailLoop]
    have hstop : Agree a b (i + 1 + 1) (i + 1 + 1) := fun k hk hlt => by omega
    by_cases hgo : len - 1 - (i + 1) ≤ taillen ∧ headlen < i + 1
    · rw [if_pos hgo]
      by_cases hne : a.getD (i + 1) 0 ≠ b.getD (i + 1) 0
      · rw [if_pos hne]
        refine ⟨le_rfl, id, hstop, fun n hagree _ _ => ?_⟩
        by_contra hlt
        exact hne (hagree (i + 1) (by omega) (Nat.lt_succ_self _))
      · rw [if_neg hne]
        obtain ⟨hle, hhead, hagree, hmax⟩ := ih
        refine ⟨hle.trans (Nat.le_succ i), fun _ => hhead (by omega), fun k hk hlt => ?_,
          fun n hn => hmax n (hn.mono le_rfl (Nat.le_succ _))⟩
        rcases Nat.eq_or_lt_of_le (Nat.le_of_lt_succ hlt) with rfl | hlt'
        · exact not_ne_iff.1 hne
        · exact hagree k hk hlt'
    · rw [if_neg hgo]
      refine ⟨le_rfl, id, hstop, fun n _ hroom hn => ?_⟩
      omega

/-! ## The loop over addresses -/

/-- A round of the loop. -/
def step (len : ℕ) (s : State) (bufcur : List UInt8) : State :=
  let headlen := headLoop s.buflast bufcur s.headlen s.headlen 0
  if 0 < len - headlen then
    ⟨headlen, len - 1 - tailLoop len headlen s.taillen s.buflast bufcur (len - 1), bufcur,
      s.buflast⟩
  else ⟨headlen, s.taillen, bufcur, s.buflast⟩

/-- The loop is never left early. -/
theorem addressLoop_eq (hlen : 0 < len) (addresses : List (List UInt8)) : ∀ s : State,
    addressLoop len addresses s = addresses.foldl (step len) s := by
  induction addresses with
  | nil => exact fun s => rfl
  | cons bufcur rest ih =>
    intro s
    rw [addressLoop, List.foldl_cons, step]
    dsimp only
    split_ifs with hroom hzero
    · exact ih _
    · omega
    · exact ih _

/-- What is known of head and tail after the addresses that were `seen`. -/
structure Narrowed (len : ℕ) (seen : List (List UInt8)) (s : State) : Prop where
  le : s.headlen ≤ len
  mem : s.buflast ∈ seen
  head : ∀ a ∈ seen, Agree a s.buflast 0 s.headlen
  differ : s.headlen < len → ∃ a ∈ seen, a.getD s.headlen 0 ≠ s.buflast.getD s.headlen 0
  room : s.headlen < len → s.headlen + s.taillen < len
  same : s.headlen = len → s.taillen = len
  tail : ∀ n ≤ len, (∀ a ∈ seen, Agree a s.buflast (len - n) len) → n ≤ s.taillen

variable {seen : List (List UInt8)} {s : State}

theorem narrowed_first (len : ℕ) (a c : List UInt8) : Narrowed len [a] ⟨len, len, a, c⟩ where
  le := le_rfl
  mem := List.mem_singleton_self a
  head := by
    intro b hb
    obtain rfl := List.mem_singleton.1 hb
    exact agree_refl b 0 len
  differ := fun h => absurd h (lt_irrefl len)
  room := fun h => absurd h (lt_irrefl len)
  same := fun _ => rfl
  tail := fun _ hn _ => hn

/-- What a round finds for the last address and the next one. -/
structure Pair (len : ℕ) (s s' : State) (a : List UInt8) : Prop where
  buflast : s'.buflast = a
  bufcur : s'.bufcur = s.buflast
  tail : s'.headlen < len → Agree s.buflast a (len - s'.taillen) len
  max : s'.headlen < len → ∀ n, Agree s.buflast a (len - n) len → n + s'.headlen < len →
    n ≤ s.taillen + 1 → n ≤ s'.taillen

theorem pair_step (hlen : 0 < len) (s : State) (a : List UInt8) : Pair len s (step len s a) a := by
  obtain ⟨hle, hhead, htail, hmax⟩ := tailLoop_spec len
    (headLoop s.buflast a s.headlen s.headlen 0) s.taillen s.buflast a (len - 1)
  rw [Nat.sub_add_cancel hlen] at htail hmax
  rw [step]
  split_ifs with hroom
  · refine ⟨rfl, rfl, fun _ => htail.mono ?_ le_rfl, fun _ n hn hlt hnle => ?_⟩
    · dsimp only
      omega
    · have hbound := hmax n hn hlt hnle
      dsimp only
      omega
  · exact ⟨rfl, rfl, fun hlt => absurd hlt (by dsimp only; omega),
      fun hlt => absurd hlt (by dsimp only; omega)⟩

theorem headlen_step (len : ℕ) (s : State) (a : List UInt8) :
    (step len s a).headlen = headLoop s.buflast a s.headlen s.headlen 0 := by
  rw [step]
  split_ifs <;> rfl

theorem Narrowed.step (hs : Narrowed len seen s) (hlen : 0 < len) (a : List UInt8) :
    Narrowed len (a :: seen) (step len s a) := by
  have hpair := pair_step hlen s a
  obtain ⟨hle, hhead, hdiffer⟩ := headLoop_spec s.buflast a s.headlen s.headlen 0 (Nat.zero_add _)
  rw [← headlen_step len] at hle hhead hdiffer
  have hmem : ∃ b ∈ a :: seen, (PbbHeadTail.step len s a).headlen < len →
      b.getD (PbbHeadTail.step len s a).headlen 0 ≠
        a.getD (PbbHeadTail.step len s a).headlen 0 := by
    by_cases hlt : (PbbHeadTail.step len s a).headlen < s.headlen
    · exact ⟨s.buflast, List.mem_cons_of_mem a hs.mem, fun _ => hdiffer hlt⟩
    · have heq : (PbbHeadTail.step len s a).headlen = s.headlen := by omega
      rw [heq]
      by_cases hlast : s.buflast.getD s.headlen 0 = a.getD s.headlen 0
      · by_cases hroom : s.headlen < len
        · obtain ⟨b, hb, hne⟩ := hs.differ hroom
          exact ⟨b, List.mem_cons_of_mem a hb, fun _ => hlast ▸ hne⟩
        · exact ⟨a, List.mem_cons_self, fun hlt => absurd hlt hroom⟩
      · exact ⟨s.buflast, List.mem_cons_of_mem a hs.mem, fun _ => hlast⟩
  have hroom (hlt : (PbbHeadTail.step len s a).headlen < len) :
      (PbbHeadTail.step len s a).headlen + (PbbHeadTail.step len s a).taillen < len := by
    obtain ⟨hi, hstay, -⟩ := tailLoop_spec len
      (headLoop s.buflast a s.headlen s.headlen 0) s.taillen s.buflast a (len - 1)
    rw [headlen_step] at hlt
    rw [PbbHeadTail.step, if_pos (by omega)]
    dsimp only
    have habove := hstay (by omega)
    omega
  have hkeep (heq : (PbbHeadTail.step len s a).headlen = len) :
      (PbbHeadTail.step len s a).taillen = s.taillen := by
    rw [headlen_step] at heq
    rw [PbbHeadTail.step, if_neg (by omega)]
  refine ⟨hle.trans hs.le, ?_, ?_, ?_, hroom, ?_, ?_⟩
  · rw [hpair.buflast]
    exact List.mem_cons_self
  · rw [hpair.buflast]
    refine List.forall_mem_cons.2 ⟨agree_refl a 0 _, fun b hb => ?_⟩
    exact ((hs.head b hb).mono le_rfl hle).trans hhead
  · rw [hpair.buflast]
    intro hlt
    obtain ⟨b, hb, hne⟩ := hmem
    exact ⟨b, hb, hne hlt⟩
  · intro heq
    rw [hkeep heq]
    exact hs.same (by
      have hbound := hs.le
      omega)
  · rw [hpair.buflast]
    intro n hn hall
    obtain ⟨-, hseen⟩ := List.forall_mem_cons.1 hall
    have hbefore : n ≤ s.taillen :=
      hs.tail n hn fun b hb => (hseen b hb).trans (hseen s.buflast hs.mem).symm
    rcases Nat.lt_or_ge (PbbHeadTail.step len s a).headlen len with hlt | hge
    · obtain ⟨b, hb, hne⟩ := hmem
      have hout : n + (PbbHeadTail.step len s a).headlen < len := by
        by_contra hover
        exact hne hlt (hall b hb _ (by omega) hlt)
      exact hpair.max hlt n (hseen s.buflast hs.mem) hout (by omega)
    · rw [hkeep (by
        have hbound := hs.le
        omega)]
      exact hbefore

theorem Narrowed.foldl (hlen : 0 < len) (addresses : List (List UInt8)) :
    ∀ {seen : List (List UInt8)} {s : State}, Narrowed len seen s →
      Narrowed len (addresses.reverse ++ seen) (addresses.foldl (PbbHeadTail.step len) s) := by
  induction addresses with
  | nil => exact fun hs => hs
  | cons a rest ih =>
    intro seen s hs
    rw [List.reverse_cons, List.append_assoc]
    exact ih (hs.step hlen a)

/-! ## Head and tail of all addresses -/

theorem getElem?_eq_iff {k : ℕ} (ha : k < a.length) (hb : k < b.length) :
    a[k]? = b[k]? ↔ a.getD k 0 = b.getD k 0 := by
  rw [List.getD_eq_getElem _ _ ha, List.getD_eq_getElem _ _ hb, List.getElem?_eq_getElem ha,
    List.getElem?_eq_getElem hb, Option.some_inj]

theorem take_eq_iff (ha : a.length = len) (hb : b.length = len) (hh : h ≤ len) :
    a.take h = b.take h ↔ Agree a b 0 h := by
  constructor
  · intro heq k _ hk
    have hget : (a.take h)[k]? = (b.take h)[k]? := by rw [heq]
    rw [List.getElem?_take_of_lt hk, List.getElem?_take_of_lt hk,
      getElem?_eq_iff (by omega) (by omega)] at hget
    exact hget
  · intro hagree
    refine List.ext_getElem? fun k => ?_
    by_cases hk : k < h
    · rw [List.getElem?_take_of_lt hk, List.getElem?_take_of_lt hk,
        getElem?_eq_iff (by omega) (by omega)]
      exact hagree k (Nat.zero_le k) hk
    · rw [List.getElem?_take_eq_none (not_lt.1 hk), List.getElem?_take_eq_none (not_lt.1 hk)]

theorem drop_eq_iff (ha : a.length = len) (hb : b.length = len) (i : ℕ) :
    a.drop i = b.drop i ↔ Agree a b i len := by
  constructor
  · intro heq k hi hk
    have hget : (a.drop i)[k - i]? = (b.drop i)[k - i]? := by rw [heq]
    rw [List.getElem?_drop, List.getElem?_drop, Nat.add_sub_cancel' hi,
      getElem?_eq_iff (by omega) (by omega)] at hget
    exact hget
  · intro hagree
    refine List.ext_getElem? fun k => ?_
    rw [List.getElem?_drop, List.getElem?_drop]
    by_cases hk : i + k < len
    · rw [getElem?_eq_iff (by omega) (by omega)]
      exact hagree (i + k) (Nat.le_add_right i k) hk
    · rw [List.getElem?_eq_none (by omega), List.getElem?_eq_none (by omega)]

theorem agree_all (ha : a.length = len) (hb : b.length = len) (h : Agree a b 0 len) : a = b := by
  rw [← drop_eq_iff ha hb, List.drop_zero, List.drop_zero] at h
  exact h

/-- Not all addresses are the same, and what the last two share at the end is shared by all, unless
the addresses agree on all other bytes. -/
structure SharedTail (len : ℕ) (addresses : List (List UInt8)) (x y : List UInt8) : Prop where
  differ : ∃ a ∈ addresses, a ≠ x
  tail : ∀ n ≤ len, x.drop (len - n) = y.drop (len - n) →
    (∃ a ∈ addresses, a.take (len - n) ≠ x.take (len - n)) →
      ∀ a ∈ addresses, a.drop (len - n) = x.drop (len - n)

/-- The last round, and what is known before and after it. -/
theorem getHeadTail_last (hlen : 0 < len) (init : List (List UInt8)) (x y : List UInt8) :
    ∃ (seen : List (List UInt8)) (s : State), Narrowed len seen s ∧
      Narrowed len (y :: seen) (getHeadTail len (init ++ [x, y])) ∧ s.buflast = x ∧
      Pair len s (getHeadTail len (init ++ [x, y])) y ∧
      ∀ a, a ∈ y :: seen ↔ a ∈ init ++ [x, y] := by
  have hfirst := narrowed_first len ((init ++ [x, y]).headD []) []
  have hfold := hfirst.foldl hlen (init ++ [x])
  have hsplit : init ++ [x, y] = init ++ [x] ++ [y] := by
    rw [List.append_assoc]
    rfl
  have hstep : getHeadTail len (init ++ [x, y]) =
      step len ((init ++ [x]).foldl (step len) ⟨len, len, (init ++ [x, y]).headD [], []⟩) y := by
    rw [getHeadTail, addressLoop_eq hlen]
    generalize (⟨len, len, (init ++ [x, y]).headD [], []⟩ : State) = s₀
    rw [hsplit, List.foldl_append, List.foldl_cons, List.foldl_nil]
  have hbuflast : ((init ++ [x]).foldl (step len)
      ⟨len, len, (init ++ [x, y]).headD [], []⟩).buflast = x := by
    rw [List.foldl_append, List.foldl_cons, List.foldl_nil]
    exact (pair_step hlen _ x).buflast
  refine ⟨_, _, hfold, ?_, hbuflast, ?_, fun a => ?_⟩
  · rw [hstep]
    exact hfold.step hlen y
  · rw [hstep]
    exact pair_step hlen _ y
  · have hhead : (init ++ [x, y]).headD [] ∈ init ++ [x, y] := by
      cases init <;> exact List.mem_cons_self
    simp only [List.mem_cons, List.mem_append, List.mem_reverse, List.not_mem_nil, or_false]
      at hhead ⊢
    constructor
    · rintro (rfl | (hmem | rfl) | rfl)
      · exact .inr (.inr rfl)
      · exact .inl hmem
      · exact .inr (.inl rfl)
      · exact hhead
    · rintro (hmem | rfl | rfl)
      · exact .inr (.inl (.inl hmem))
      · exact .inr (.inl (.inr rfl))
      · exact .inl rfl

/-- The head and the tail are common, if and only if the last two addresses share no more at the
end than all do. -/
theorem common_iff (hlen : 0 < len) (init : List (List UInt8)) (x y : List UInt8)
    (h : ∀ a ∈ init ++ [x, y], a.length = len) :
    Common len (init ++ [x, y]) (getHeadTail len (init ++ [x, y])) ↔
      SharedTail len (init ++ [x, y]) x y := by
  obtain ⟨seen, s, hs, hend, rfl, hpair, hmem⟩ := getHeadTail_last hlen init x y
  generalize getHeadTail len (init ++ [s.buflast, y]) = r at hend hpair ⊢
  generalize init ++ [s.buflast, y] = addresses at h hmem ⊢
  have hx : s.buflast.length = len := h _ ((hmem _).1 (List.mem_cons_of_mem y hs.mem))
  have hy : y.length = len := h _ ((hmem _).1 List.mem_cons_self)
  have hagree : ∀ a ∈ addresses, Agree a s.buflast 0 r.headlen := fun a ha =>
    (hend.head a ((hmem a).2 ha)).trans
      (hend.head s.buflast (List.mem_cons_of_mem y hs.mem)).symm
  constructor
  · rintro ⟨hover, hcommon⟩
    have hdiffer : r.headlen < len := by
      by_contra hge
      have hle := hend.le
      have htail := hend.same (by omega)
      omega
    have htail : ∀ a ∈ addresses, Agree a s.buflast (len - r.taillen) len := by
      intro a ha
      rw [← drop_eq_iff (h a ha) hx, (hcommon a ha).2,
        (hcommon _ ((hmem _).1 (List.mem_cons_of_mem y hs.mem))).2]
    refine ⟨?_, fun n hn hxy hne a ha => ?_⟩
    · by_contra hsame
      push Not at hsame
      obtain ⟨a, ha, hne⟩ := hend.differ hdiffer
      rw [hsame a ((hmem a).1 ha), hsame r.buflast ((hmem _).1 hend.mem)] at hne
      exact hne rfl
    · obtain ⟨b, hb, hbne⟩ := hne
      have hout : n + r.headlen < len := by
        by_contra hin
        refine hbne ((take_eq_iff (h b hb) hx (Nat.sub_le len n)).2 ?_)
        exact (hagree b hb).mono le_rfl (by omega)
      rw [drop_eq_iff (h a ha) hx]
      by_cases hle : n ≤ r.taillen
      · exact (htail a ha).mono (by omega) le_rfl
      · have hbefore : r.taillen ≤ s.taillen := hs.tail _ (by omega) fun b hb =>
          htail b ((hmem b).1 (List.mem_cons_of_mem y hb))
        rw [drop_eq_iff hx hy] at hxy
        have hmore := hpair.max hdiffer (r.taillen + 1) (hxy.mono (by omega) le_rfl) (by omega)
          (by omega)
        omega
  · rintro ⟨⟨b, hb, hbne⟩, hshared⟩
    have hdiffer : r.headlen < len := by
      by_contra hge
      exact hbne (agree_all (h b hb) hx ((hagree b hb).mono le_rfl (not_lt.1 hge)))
    have hroom := hend.room hdiffer
    obtain ⟨a, ha, hne⟩ := hend.differ hdiffer
    have hother : ∃ a ∈ addresses,
        a.take (len - r.taillen) ≠ s.buflast.take (len - r.taillen) := by
      by_contra hall
      push Not at hall
      have heq (c : List UInt8) (hc : c ∈ addresses) :
          c.getD r.headlen 0 = s.buflast.getD r.headlen 0 :=
        (take_eq_iff (h c hc) hx (Nat.sub_le len _)).1 (hall c hc) _ (Nat.zero_le _) (by omega)
      rw [heq a ((hmem a).1 ha), heq r.buflast ((hmem _).1 hend.mem)] at hne
      exact hne rfl
    have htail := hshared r.taillen (by omega) ((drop_eq_iff hx hy _).2 (hpair.tail hdiffer)) hother
    refine ⟨hroom.le, fun a ha => ⟨?_, ?_⟩⟩
    · rw [State.head, hpair.bufcur, take_eq_iff (h a ha) hx hdiffer.le]
      exact hagree a ha
    · rw [State.tail, hpair.bufcur]
      exact htail a ha

end PbbHeadTail

end Ns3Pedca
