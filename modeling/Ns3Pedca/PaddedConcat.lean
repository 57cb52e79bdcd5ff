import Mathlib

/-!
# Pieces padded to a multiple of a block

Pieces are put one after another, each beginning at a multiple of `k` : what is there is padded
before a piece is added, so that the last one is not padded. What is there before a piece has a
length that is a multiple of `k` once it is padded, hence the padding only depends on the piece
before (`concat_append_singleton`), and the length is the sum of those of the padded pieces and
of the last (`length_concat`). A reader that knows how long a piece is skips its padding, and gets
the pieces back (`splitLoop_concat`).
-/

namespace PaddedConcat

variable {α β : Type*} {k : ℕ} {fill : α}

/-! ## Padding -/

/-- The number of elements up to the next multiple of `k`. -/
def padding (k n : ℕ) : ℕ :=
  (k - n % k) % k

theorem padding_of_dvd {n : ℕ} (h : k ∣ n) : padding k n = 0 := by
  rw [padding, Nat.mod_eq_zero_of_dvd h, Nat.sub_zero, Nat.mod_self]

@[simp] theorem padding_zero : padding k 0 = 0 :=
  padding_of_dvd (dvd_zero k)

theorem dvd_add_padding (hk : 0 < k) (n : ℕ) : k ∣ n + padding k n := by
  have hlt := Nat.mod_lt n hk
  rw [padding, Nat.dvd_iff_mod_eq_zero, Nat.add_mod, Nat.mod_mod]
  by_cases h : n % k = 0
  · rw [h, Nat.sub_zero, Nat.mod_self, Nat.zero_add, Nat.zero_mod]
  · rw [Nat.mod_eq_of_lt (a := k - n % k) (by omega), Nat.add_sub_cancel' hlt.le, Nat.mod_self]

/-- A multiple of `k` before does not change the padding. -/
theorem padding_add_of_dvd {m : ℕ} (h : k ∣ m) (n : ℕ) : padding k (m + n) = padding k n := by
  rw [padding, padding, Nat.add_mod, Nat.mod_eq_zero_of_dvd h, Nat.zero_add, Nat.mod_mod]

/-- Counting modulo a multiple of `k` does not change the padding. -/
theorem padding_mod {w : ℕ} (h : k ∣ w) (n : ℕ) : padding k (n % w) = padding k n := by
  rw [padding, padding, Nat.mod_mod_of_dvd n h]

theorem padding_lt (hk : 0 < k) (n : ℕ) : padding k n < k :=
  Nat.mod_lt _ hk

/-! ## Sizes -/

/-- The size when `n` is added to `size`. -/
def sizeIfAppended (k n size : ℕ) : ℕ :=
  size + padding k size + n

/-- The size of pieces of the given sizes. -/
def size (k : ℕ) (ns : List ℕ) : ℕ :=
  ns.foldl (fun size n => sizeIfAppended k n size) 0

@[simp] theorem size_nil : size k [] = 0 :=
  rfl

theorem size_concat (ns : List ℕ) (n : ℕ) :
    size k (ns ++ [n]) = sizeIfAppended k n (size k ns) := by
  rw [size, List.foldl_append]
  rfl

/-- All but the last piece count with their padding. -/
theorem size_append_singleton (hk : 0 < k) (ns : List ℕ) (n : ℕ) :
    size k (ns ++ [n]) = (ns.map fun m => m + padding k m).sum + n := by
  suffices h : size k ns + padding k (size k ns) = (ns.map fun m => m + padding k m).sum by
    rw [size_concat, sizeIfAppended, h]
  induction ns using List.reverseRecOn with
  | nil => simp
  | append_singleton ns m ih =>
    have hdvd : k ∣ (ns.map fun m => m + padding k m).sum := by
      refine List.dvd_sum fun x hx => ?_
      obtain ⟨m, -, rfl⟩ := List.mem_map.1 hx
      exact dvd_add_padding hk m
    rw [size_concat, sizeIfAppended, ih, padding_add_of_dvd hdvd, List.map_append, List.sum_append,
      List.map_singleton, List.sum_singleton, Nat.add_assoc]

theorem le_size_of_mem {ns : List ℕ} {n : ℕ} (h : n ∈ ns) : n ≤ size k ns := by
  induction ns using List.reverseRecOn with
  | nil => cases h
  | append_singleton ns m ih =>
    rw [size_concat, sizeIfAppended]
    rcases List.mem_append.1 h with h | h
    · exact (ih h).trans (by omega)
    · rw [List.mem_singleton.1 h]
      omega

/-! ## Pieces -/

/-- A piece and its padding. -/
def pad (k : ℕ) (fill : α) (p : List α) : List α :=
  p ++ List.replicate (padding k p.length) fill

/-- What is there is padded, and a piece added. -/
def append (k : ℕ) (fill : α) (acc p : List α) : List α :=
  pad k fill acc ++ p

/-- The pieces, one after another. -/
def concat (k : ℕ) (fill : α) (ps : List (List α)) : List α :=
  ps.foldl (append k fill) []

variable {ps : List (List α)} {p : List α}

theorem length_pad (p : List α) : (pad k fill p).length = p.length + padding k p.length := by
  rw [pad, List.length_append, List.length_replicate]

theorem length_append (acc p : List α) :
    (append k fill acc p).length = sizeIfAppended k p.length acc.length := by
  rw [append, List.length_append, length_pad, sizeIfAppended]

@[simp] theorem concat_nil : concat k fill [] = [] :=
  rfl

theorem concat_concat (ps : List (List α)) (p : List α) :
    concat k fill (ps ++ [p]) = append k fill (concat k fill ps) p := by
  rw [concat, List.foldl_append]
  rfl

theorem concat_singleton (p : List α) : concat k fill [p] = p := by
  change append k fill [] p = p
  rw [append, pad, List.length_nil, padding_zero]
  rfl

theorem length_concat (ps : List (List α)) :
    (concat k fill ps).length = size k (ps.map List.length) := by
  induction ps using List.reverseRecOn with
  | nil => rfl
  | append_singleton ps p ih =>
    rw [concat_concat, length_append, ih, List.map_append, List.map_singleton, size_concat]

/-- Pieces that are not empty take at least one element each. -/
theorem length_le_length_concat (hne : ∀ p ∈ ps, p ≠ []) :
    ps.length ≤ (concat k fill ps).length := by
  induction ps using List.reverseRecOn with
  | nil => rfl
  | append_singleton ps p ih =>
    have hp := List.length_pos_iff.2 (hne p (by simp))
    have ih := ih fun q hq => hne q (List.mem_append_left _ hq)
    rw [concat_concat, length_append, sizeIfAppended, List.length_append, List.length_singleton]
    omega

theorem pad_concat (hk : 0 < k) (ps : List (List α)) :
    pad k fill (concat k fill ps) = (ps.map (pad k fill)).flatten := by
  induction ps using List.reverseRecOn with
  | nil => rw [concat_nil, pad, List.length_nil, padding_zero]; rfl
  | append_singleton ps p ih =>
    have hdvd : k ∣ (pad k fill (concat k fill ps)).length := by
      rw [length_pad]
      exact dvd_add_padding hk _
    rw [List.map_append, List.flatten_append, List.map_singleton, List.flatten_singleton, ← ih,
      concat_concat, append, pad, List.length_append, padding_add_of_dvd hdvd,
      List.append_assoc]
    rfl

/-- All but the last piece are padded on their own. -/
theorem concat_append_singleton (hk : 0 < k) (ps : List (List α)) (p : List α) :
    concat k fill (ps ++ [p]) = (ps.map (pad k fill)).flatten ++ p := by
  rw [concat_concat, append, pad_concat hk]

theorem concat_cons (hk : 0 < k) (p : List α) (hps : ps ≠ []) :
    concat k fill (p :: ps) = pad k fill p ++ concat k fill ps := by
  obtain ⟨init, last, rfl⟩ := (List.eq_nil_or_concat' ps).resolve_left hps
  rw [← List.cons_append, concat_append_singleton hk, concat_append_singleton hk, List.map_cons,
    List.flatten_cons, List.append_assoc]

/-! ## Reading the pieces -/

/-- The pieces that are read one after another, the padding of each being skipped. -/
def splitLoop (k : ℕ) (parse : List α → Option (β × List α)) : ℕ → List α → Option (List β)
  | _, [] => some []
  | 0, _ :: _ => none
  | rounds + 1, a :: as =>
    (parse (a :: as)).bind fun x =>
      (splitLoop k parse rounds
        (x.2.drop (padding k ((a :: as).length - x.2.length)))).map (x.1 :: ·)

variable {parse : List α → Option (β × List α)} {encode : β → List α}

/-- The pieces are read back. -/
theorem splitLoop_concat (hk : 0 < k) (bs : List β) {rounds : ℕ} (hrounds : bs.length ≤ rounds)
    (hparse : ∀ b ∈ bs, ∀ rest, parse (encode b ++ rest) = some (b, rest))
    (hne : ∀ b ∈ bs, encode b ≠ []) :
    splitLoop k parse rounds (concat k fill (bs.map encode)) = some bs := by
  induction bs generalizing rounds with
  | nil => cases rounds <;> rfl
  | cons b bs ih =>
    obtain ⟨n, rfl⟩ := Nat.exists_eq_succ_of_ne_zero (Nat.ne_of_gt (lt_of_lt_of_le
      (Nat.succ_pos _) hrounds))
    have ih := ih (Nat.le_of_succ_le_succ hrounds)
      (fun c hc => hparse c (List.mem_cons_of_mem _ hc))
      fun c hc => hne c (List.mem_cons_of_mem _ hc)
    -- what follows the piece is its padding, unless it is the last
    obtain ⟨rest, hconcat, hrest⟩ : ∃ rest,
        concat k fill (encode b :: bs.map encode) = encode b ++ rest ∧
          rest.drop (padding k (encode b).length) = concat k fill (bs.map encode) := by
      cases bs with
      | nil => exact ⟨[], by rw [List.map_nil, concat_singleton, List.append_nil], List.drop_nil⟩
      | cons c bs =>
        refine ⟨List.replicate (padding k (encode b).length) fill ++
          concat k fill ((c :: bs).map encode), ?_, ?_⟩
        · rw [concat_cons hk _ (by simp), pad, List.append_assoc]
        · rw [List.drop_left' List.length_replicate]
    obtain ⟨a, as, has⟩ := List.exists_cons_of_ne_nil (hne b (List.mem_cons_self ..))
    have hp := hparse b (List.mem_cons_self ..) rest
    have hlen : (encode b ++ rest).length - rest.length = (encode b).length := by
      rw [List.length_append, Nat.add_sub_cancel]
    rw [List.map_cons, hconcat]
    rw [has, List.cons_append] at hp hlen
    rw [has, List.cons_append, splitLoop, hp, Option.bind_some, hlen, ← has, hrest, ih]
    rfl

end PaddedConcat
