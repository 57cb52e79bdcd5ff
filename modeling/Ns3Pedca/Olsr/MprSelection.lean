import Ns3Pedca.Olsr.MprComputation

/-!
# The order in which relays are selected

The loop of `MprComputation` adds the neighbor with the greatest willingness, then reachability,
then degree. `Degree` looks a neighbor up where it should look a 2-hop neighbor up, so it is zero
for all neighbors (`degree_eq_zero`), and the first neighbor with the greatest willingness and
reachability is added (`find?_top`).

The neighbors that are added are the best ones by willingness, reachability and the number of their
neighbors that are neither the node nor its neighbors, if and only if in every round the first of
the neighbors that tie is (`selections_best_iff`).
-/

namespace Ns3Pedca.Olsr

open OlsrState

/-! ## The best neighbors -/

/-- The nodes that a neighbor reaches. -/
def reachedNodes (N2 : List TwoHopNeighborTuple) (y : NeighborTuple) : Finset Ipv4Address :=
  ((N2.filter (·.neighborMainAddr = y.neighborMainAddr)).map (·.twoHopNeighborAddr)).toFinset

/-- `D(y)` : the symmetric neighbors of `y` but for the node itself and its symmetric neighbors. -/
def outerDegree (mainAddress : Ipv4Address) (s : OlsrState) (y : NeighborTuple) : ℕ :=
  ((reachedNodes s.twoHopNeighborSet y).filter fun a =>
    a ≠ mainAddress ∧ ∀ n ∈ mprN s, n.neighborMainAddr ≠ a).card

/-- Willingness and number of nodes that are reached. -/
def rank (N2 : List TwoHopNeighborTuple) (y : NeighborTuple) : ℕ ×ₗ ℕ :=
  toLex (y.willingness.value.toNat, (reachedNodes N2 y).card)

/-- A neighbor that reaches something, with the greatest rank of those that do. -/
def Top (s : OlsrState) (N2 : List TwoHopNeighborTuple) (y : NeighborTuple) : Prop :=
  0 < (reachedNodes N2 y).card ∧
    ∀ z ∈ mprN s, 0 < (reachedNodes N2 z).card → rank N2 z ≤ rank N2 y

instance top_decidable (s : OlsrState) (N2 : List TwoHopNeighborTuple) :
    DecidablePred (Top s N2) :=
  fun y => inferInstanceAs (Decidable (0 < (reachedNodes N2 y).card ∧
    ∀ z ∈ mprN s, 0 < (reachedNodes N2 z).card → rank N2 z ≤ rank N2 y))

/-- A symmetric neighbor that reaches something, with the greatest rank and then `D(y)` of those
that do. -/
structure Best (mainAddress : Ipv4Address) (s : OlsrState) (N2 : List TwoHopNeighborTuple)
    (y : NeighborTuple) : Prop where
  mem : y ∈ mprN s
  reaches : 0 < (reachedNodes N2 y).card
  greatest : ∀ z ∈ mprN s, 0 < (reachedNodes N2 z).card →
    toLex (rank N2 z, outerDegree mainAddress s z) ≤
      toLex (rank N2 y, outerDegree mainAddress s y)

/-- The first neighbor of the greatest rank has the greatest `D(y)` of those with this rank. -/
def FirstIsBest (mainAddress : Ipv4Address) (s : OlsrState) (N2 : List TwoHopNeighborTuple) :
    Prop :=
  ∀ y, (mprN s).find? (fun z => decide (Top s N2 z)) = some y →
    ∀ z ∈ mprN s, Top s N2 z → outerDegree mainAddress s z ≤ outerDegree mainAddress s y

/-- What is left to be reached before each round of the loop, and the neighbor that is added. -/
def mprRounds (s : OlsrState) (N : List NeighborTuple) : ℕ → List TwoHopNeighborTuple →
    List (List TwoHopNeighborTuple × NeighborTuple)
  | _, [] => []
  | 0, _ :: _ => []
  | fuel + 1, t :: N2 =>
    match (candidates N (t :: N2)).foldl (better s) none with
    | none => mprRounds s N fuel (t :: N2)
    | some max =>
      (t :: N2, max.1) :: mprRounds s N fuel (coverTwoHopNeighbors max.1.neighborMainAddr (t :: N2))

/-- The relays before step 4, and what is left to be reached. -/
def beforeStep4 (mainAddress : Ipv4Address) (s : OlsrState) :
    Finset Ipv4Address × List TwoHopNeighborTuple :=
  let r := (mprN s).foldl addAlways (∅, mprN2 mainAddress s)
  let r' := r.2.foldl (addOnly r.2) (r.1, [])
  (r'.1, r.2.filter (·.twoHopNeighborAddr ∉ r'.2))

/-- What is left before each addition of step 4, and the neighbor that is added. -/
def selections (mainAddress : Ipv4Address) (s : OlsrState) (fuel : ℕ) :
    List (List TwoHopNeighborTuple × NeighborTuple) :=
  mprRounds s (mprN s) fuel (beforeStep4 mainAddress s).2

variable {s : OlsrState} {mainAddress : Ipv4Address} {N2 : List TwoHopNeighborTuple}
  {N : List NeighborTuple}

theorem mprComputation_eq (mainAddress : Ipv4Address) (s : OlsrState) (fuel : ℕ) :
    mprComputation mainAddress s fuel =
      mprLoop s (mprN s) fuel (beforeStep4 mainAddress s).2 (beforeStep4 mainAddress s).1 :=
  rfl

/-- The relays of the loop are those that are added. -/
theorem mem_mprLoop (fuel : ℕ) : ∀ {N2 : List TwoHopNeighborTuple}
    {mprSet mprs : Finset Ipv4Address}, mprLoop s N fuel N2 mprSet = some mprs → ∀ a, a ∈ mprs ↔
      a ∈ mprSet ∨ ∃ r ∈ mprRounds s N fuel N2, r.2.neighborMainAddr = a := by
  induction fuel with
  | zero =>
    intro N2 mprSet mprs h a
    cases N2 with
    | nil =>
      rw [mprLoop] at h
      obtain rfl := Option.some.inj h
      simp [mprRounds]
    | cons t N2 =>
      rw [mprLoop] at h
      exact absurd h (Option.some_ne_none mprs).symm
  | succ fuel ih =>
    intro N2 mprSet mprs h a
    cases N2 with
    | nil =>
      rw [mprLoop] at h
      obtain rfl := Option.some.inj h
      simp [mprRounds]
    | cons t N2 =>
      rw [mprLoop] at h
      rw [mprRounds]
      cases hfold : (candidates N (t :: N2)).foldl (better s) none with
      | none =>
        rw [hfold] at h
        exact ih h a
      | some max =>
        rw [hfold] at h
        rw [ih h a, Finset.mem_insert, List.exists_mem_cons_iff, @eq_comm _ a, or_assoc,
          or_left_comm]

/-! ## The choice of a round -/

/-- The maximum that is found is the first one. -/
theorem eq_of_argmax {α β : Type*} [DecidableEq α] [LinearOrder β] {f : α → β}
    {before after : List α} {a m : α} (h : (before ++ a :: after).argmax f = some m)
    (hnot : m ∉ before) (hle : f m ≤ f a) : a = m := by
  by_contra hne
  have hmem : a ∈ before ++ a :: after := List.mem_append_right _ List.mem_cons_self
  have hfirst := (List.argmax_eq_some_iff.1 h).2.2 a hmem hle
  rw [List.idxOf_append_of_notMem hnot, List.idxOf_cons_ne _ hne] at hfirst
  have hlast : (before ++ a :: after).idxOf a ≤ before.length := by
    by_cases hin : a ∈ before
    · rw [List.idxOf_append_of_mem hin]
      exact List.idxOf_le_length
    · rw [List.idxOf_append_of_notMem hin, List.idxOf_cons_self, Nat.add_zero]
  omega

/-- `Degree` counts nothing. -/
theorem degree_eq_zero {y : NeighborTuple} (hy : y ∈ s.neighborSet) : degree s y = 0 := by
  refine List.length_eq_zero_iff.2 (List.filter_eq_nil_iff.2 fun t _ h => ?_)
  obtain ⟨haddr, hnone⟩ := of_decide_eq_true h
  exact absurd (decide_eq_true haddr.symm) (List.find?_eq_none.1 hnone y hy)

/-- Willingness and reachability of a candidate. -/
def candidateRank (c : NeighborTuple × ℕ) : ℕ ×ₗ ℕ :=
  toLex (c.1.willingness.value.toNat, c.2)

/-- Without a degree, the candidate of the greater rank is taken. -/
theorem better_eq {m c : NeighborTuple × ℕ} (hm : degree s m.1 = 0) (hc : degree s c.1 = 0) :
    better s (some m) c = if candidateRank m < candidateRank c then some c else some m := by
  have hw : c.1.willingness = m.1.willingness ↔
      c.1.willingness.value.toNat = m.1.willingness.value.toNat := by
    obtain ⟨⟨_, _, ⟨v⟩⟩, _⟩ := c
    obtain ⟨⟨_, _, ⟨v'⟩⟩, _⟩ := m
    rw [Willingness.mk.injEq, UInt8.toNat_inj]
  have hlt : candidateRank m < candidateRank c ↔
      m.1.willingness.value.toNat < c.1.willingness.value.toNat ∨
        m.1.willingness.value.toNat = c.1.willingness.value.toNat ∧ m.2 < c.2 :=
    Prod.Lex.toLex_lt_toLex
  have hgt : c.1.willingness.value > m.1.willingness.value ↔
      m.1.willingness.value.toNat < c.1.willingness.value.toNat := UInt8.lt_iff_toNat_lt
  rw [better, hm, hc]
  simp only [hlt, hgt, hw]
  split_ifs <;> first | rfl | omega

/-- The candidate that is taken is the first one of the greatest rank. -/
theorem foldl_better_eq {cs : List (NeighborTuple × ℕ)} (h : ∀ c ∈ cs, degree s c.1 = 0) :
    cs.foldl (better s) none = cs.argmax candidateRank := by
  have hfold : ∀ {l : List (NeighborTuple × ℕ)} {o : Option (NeighborTuple × ℕ)},
      (∀ c ∈ l, degree s c.1 = 0) → (∀ m ∈ o, degree s m.1 = 0) →
        l.foldl (better s) o = l.foldl (List.argAux fun b c => candidateRank c < candidateRank b)
          o := by
    intro l
    induction l with
    | nil => exact fun _ _ => rfl
    | cons c l ih =>
      intro o hl ho
      obtain ⟨hc, hl⟩ := List.forall_mem_cons.1 hl
      have hstep : better s o c =
          List.argAux (fun b c => candidateRank c < candidateRank b) o c := by
        cases o with
        | none => rfl
        | some m => exact better_eq (ho m rfl) hc
      rw [List.foldl_cons, List.foldl_cons, ← hstep]
      refine ih hl fun m hm => ?_
      rw [hstep] at hm
      cases o with
      | none =>
        obtain rfl := Option.some.inj hm
        exact hc
      | some m' =>
        change (if candidateRank m' < candidateRank c then some c else some m') = some m at hm
        split_ifs at hm
        · obtain rfl := Option.some.inj hm
          exact hc
        · obtain rfl := Option.some.inj hm
          exact ho m' rfl
  exact hfold h fun m hm => absurd hm (Option.not_mem_none m)

/-- The candidates before one of them, but for those of its reachability, are not candidates of
it. -/
theorem candidates_split {y : NeighborTuple} {l₁ l₂ : List NeighborTuple} {r : ℕ}
    (hN : N = l₁ ++ y :: l₂) (hr : reachability N2 y = r) (hpos : 1 ≤ r) :
    ∃ before after, candidates N N2 = before ++ (y, r) :: after ∧
      ∀ c ∈ before, c.2 = r → c.1 ∈ l₁ := by
  have hle : reachability N2 y ≤ N2.length := List.length_filter_le _ _
  obtain ⟨r₁, r₂, hsplit, hnot⟩ := List.eq_append_cons_of_mem
    (show r ∈ List.range' 1 N2.length from List.mem_range'_1.2 ⟨hpos, by omega⟩)
  refine ⟨r₁.flatMap (fun r => (N.filter (reachability N2 · = r)).map (·, r)) ++
    (l₁.filter (reachability N2 · = r)).map (·, r),
    (l₂.filter (reachability N2 · = r)).map (·, r) ++
      r₂.flatMap (fun r => (N.filter (reachability N2 · = r)).map (·, r)), ?_, ?_⟩
  · have hbucket : (N.filter (reachability N2 · = r)).map (·, r) =
        (l₁.filter (reachability N2 · = r)).map (·, r) ++
          (y, r) :: (l₂.filter (reachability N2 · = r)).map (·, r) := by
      rw [hN, List.filter_append, List.map_append, List.filter_cons, if_pos (decide_eq_true hr),
        List.map_cons]
    rw [candidates, hsplit, List.flatMap_append, List.flatMap_cons, hbucket]
    simp only [List.append_assoc, List.cons_append]
  · intro c hc hcr
    rcases List.mem_append.1 hc with hc | hc
    · obtain ⟨r', hr', hmem⟩ := List.mem_flatMap.1 hc
      obtain ⟨n, -, rfl⟩ := List.mem_map.1 hmem
      exact absurd (hcr ▸ hr') hnot
    · obtain ⟨n, hn, rfl⟩ := List.mem_map.1 hc
      exact List.mem_of_mem_filter hn

/-- The candidate that is taken is the first neighbor of the greatest rank. -/
theorem find?_of_argmax {c : NeighborTuple × ℕ}
    (h : (candidates N N2).argmax candidateRank = some c) :
    N.find? (fun z => decide (1 ≤ reachability N2 z ∧
      candidateRank c ≤ candidateRank (z, reachability N2 z))) = some c.1 := by
  obtain ⟨hmem, hle, -⟩ := List.argmax_eq_some_iff.1 h
  obtain ⟨hcN, hreach, hpos⟩ := mem_candidates.1 hmem
  have hself : c = (c.1, reachability N2 c.1) := Prod.ext rfl hreach.symm
  cases hf : N.find? (fun z => decide (1 ≤ reachability N2 z ∧
      candidateRank c ≤ candidateRank (z, reachability N2 z))) with
  | none =>
    refine absurd (decide_eq_true ?_) (List.find?_eq_none.1 hf c.1 hcN)
    rw [← hself, hreach]
    exact ⟨hpos, le_rfl⟩
  | some y =>
    obtain ⟨hy, l₁, l₂, hN, hnone⟩ := List.find?_eq_some_iff_append.1 hf
    obtain ⟨hypos, hyrank⟩ := of_decide_eq_true hy
    have hyN : y ∈ N := by
      rw [hN]
      exact List.mem_append_right _ List.mem_cons_self
    have hycand : (y, reachability N2 y) ∈ candidates N N2 :=
      mem_candidates.2 ⟨hyN, rfl, hypos⟩
    have hyr : reachability N2 y = c.2 :=
      (Prod.mk.inj (toLex.injective (le_antisymm (hle _ hycand) hyrank))).2
    rw [hyr] at hycand hyrank
    obtain ⟨before, after, hsplit, hbefore⟩ := candidates_split hN hyr hpos
    have hnotin : c ∉ before := by
      intro hc
      have hnot := hnone c.1 (hbefore c hc rfl)
      rw [Bool.not_eq_true', decide_eq_false_iff_not, ← hself, hreach] at hnot
      exact hnot ⟨hpos, le_rfl⟩
    rw [hsplit] at h
    exact congrArg some (congrArg Prod.fst (eq_of_argmax h hnotin hyrank))

/-! ## Rounds -/

/-- With one tuple for each pair of nodes, the reachability is the number of nodes. -/
theorem card_reachedNodes
    (hset : (N2.map fun t => (t.neighborMainAddr, t.twoHopNeighborAddr)).Nodup)
    (y : NeighborTuple) : (reachedNodes N2 y).card = reachability N2 y := by
  have hnodup : ((N2.filter (·.neighborMainAddr = y.neighborMainAddr)).map
      (·.twoHopNeighborAddr)).Nodup := by
    have hsub : ((N2.filter (·.neighborMainAddr = y.neighborMainAddr)).map fun t =>
        (t.neighborMainAddr, t.twoHopNeighborAddr)).Nodup :=
      hset.sublist (List.filter_sublist.map _)
    refine List.Nodup.of_map (fun a => (y.neighborMainAddr, a)) ?_
    rw [List.map_map]
    have heq : (N2.filter (·.neighborMainAddr = y.neighborMainAddr)).map
        ((fun a => (y.neighborMainAddr, a)) ∘ (·.twoHopNeighborAddr)) =
        (N2.filter (·.neighborMainAddr = y.neighborMainAddr)).map
          fun t => (t.neighborMainAddr, t.twoHopNeighborAddr) :=
      List.map_congr_left fun t ht =>
        congrArg (·, t.twoHopNeighborAddr) (of_decide_eq_true (List.mem_filter.1 ht).2).symm
    rw [heq]
    exact hsub
  rw [reachedNodes, List.toFinset_card_of_nodup hnodup, List.length_map, reachability]

theorem foldl_addAlways_sublist (N : List NeighborTuple) :
    ∀ r : Finset Ipv4Address × List TwoHopNeighborTuple, (N.foldl addAlways r).2.Sublist r.2 := by
  induction N with
  | nil => exact fun r => List.Sublist.refl _
  | cons n N ih =>
    intro r
    refine (ih (addAlways r n)).trans ?_
    rw [addAlways]
    split_ifs
    · exact List.filter_sublist
    · exact List.Sublist.refl _

theorem beforeStep4_sublist (mainAddress : Ipv4Address) (s : OlsrState) :
    (beforeStep4 mainAddress s).2.Sublist s.twoHopNeighborSet :=
  List.filter_sublist.trans ((foldl_addAlways_sublist _ _).trans List.filter_sublist)

/-- In each round the first neighbor of the greatest rank is added. -/
theorem find?_top (hN : ∀ n ∈ mprN s, n ∈ s.neighborSet) (fuel : ℕ) :
    ∀ {N2 : List TwoHopNeighborTuple},
      (N2.map fun t => (t.neighborMainAddr, t.twoHopNeighborAddr)).Nodup →
        ∀ r ∈ mprRounds s (mprN s) fuel N2,
          (mprN s).find? (fun z => decide (Top s r.1 z)) = some r.2 := by
  induction fuel with
  | zero =>
    intro N2 _ r hr
    cases N2 <;> exact absurd hr List.not_mem_nil
  | succ fuel ih =>
    intro N2 hset r hr
    cases N2 with
    | nil => exact absurd hr List.not_mem_nil
    | cons t N2 =>
      rw [mprRounds] at hr
      have hcand : (candidates (mprN s) (t :: N2)).foldl (better s) none =
          (candidates (mprN s) (t :: N2)).argmax candidateRank :=
        foldl_better_eq fun c hc => degree_eq_zero (hN c.1 (mem_candidates.1 hc).1)
      cases hfold : (candidates (mprN s) (t :: N2)).foldl (better s) none with
      | none =>
        rw [hfold] at hr
        exact ih hset r hr
      | some max =>
        rw [hfold] at hr
        rcases List.mem_cons.1 hr with rfl | hr
        · rw [hcand] at hfold
          obtain ⟨hmem, hle, -⟩ := List.argmax_eq_some_iff.1 hfold
          obtain ⟨-, hreach, -⟩ := mem_candidates.1 hmem
          have hself : max = (max.1, reachability (t :: N2) max.1) := Prod.ext rfl hreach.symm
          have hrank : ∀ z, rank (t :: N2) z = candidateRank (z, reachability (t :: N2) z) := by
            intro z
            rw [rank, card_reachedNodes hset]
            rfl
          rw [← find?_of_argmax hfold]
          refine List.find?_congr fun z hz => ?_
          rw [decide_eq_decide, Top, card_reachedNodes hset]
          refine and_congr_right fun hpos => ?_
          constructor
          · intro h
            have hmax := h max.1 (mem_candidates.1 hmem).1
            rw [card_reachedNodes hset, hrank, hrank, ← hself] at hmax
            exact hmax (hreach ▸ (mem_candidates.1 hmem).2.2)
          · intro h z' hz' hpos'
            rw [card_reachedNodes hset] at hpos'
            rw [hrank, hrank]
            exact (hle (z', reachability (t :: N2) z')
              (mem_candidates.2 ⟨hz', rfl, hpos'⟩)).trans h
        · refine ih (hset.sublist (List.Sublist.map _ ?_)) r hr
          exact List.filter_sublist

/-- The first neighbor of the greatest rank is the best one, if and only if it has the greatest
degree of those with this rank. -/
theorem best_iff_firstIsBest {y : NeighborTuple}
    (h : (mprN s).find? (fun z => decide (Top s N2 z)) = some y) :
    Best mainAddress s N2 y ↔ FirstIsBest mainAddress s N2 := by
  obtain ⟨hmem, htop⟩ := mem_of_find? h
  constructor
  · intro hbest y' hy' z hz hz'
    obtain rfl := Option.some.inj (h.symm.trans hy')
    rcases Prod.Lex.toLex_le_toLex.1 (hbest.greatest z hz hz'.1) with hlt | ⟨-, hle⟩
    · exact absurd (hz'.2 y hmem htop.1) (not_le.2 hlt)
    · exact hle
  · intro hfirst
    refine ⟨hmem, htop.1, fun z hz hpos => Prod.Lex.toLex_le_toLex.2 ?_⟩
    rcases lt_or_eq_of_le (htop.2 z hz hpos) with hlt | heq
    · exact .inl hlt
    · refine .inr ⟨heq, hfirst y h z hz ⟨hpos, fun z' hz' hpos' => ?_⟩⟩
      rw [heq]
      exact htop.2 z' hz' hpos'

/-- The relays of step 4 are those that are added in its rounds, and these are the best ones if and
only if in every round the first neighbor of the greatest rank has the greatest degree of those. -/
theorem selections_best_iff
    (hset : (s.twoHopNeighborSet.map fun t => (t.neighborMainAddr, t.twoHopNeighborAddr)).Nodup)
    (mainAddress : Ipv4Address) (fuel : ℕ) :
    (∀ mprSet, mprComputation mainAddress s fuel = some mprSet → ∀ a, a ∈ mprSet ↔
      a ∈ (beforeStep4 mainAddress s).1 ∨
        ∃ r ∈ selections mainAddress s fuel, r.2.neighborMainAddr = a) ∧
    ((∀ r ∈ selections mainAddress s fuel, Best mainAddress s r.1 r.2) ↔
      ∀ r ∈ selections mainAddress s fuel, FirstIsBest mainAddress s r.1) := by
  refine ⟨fun mprSet h a => mem_mprLoop fuel h a, ?_⟩
  have hnodup := hset.sublist (List.Sublist.map _ (beforeStep4_sublist mainAddress s))
  refine forall₂_congr fun r hr => best_iff_firstIsBest ?_
  exact find?_top (fun n hn => List.mem_of_mem_filter hn) fuel hnodup r hr

/-- Neighbors 2 and 3 tie to reach node 10, and 3 also reaches node 11, as 4 does, that always wants
to be a relay. -/
def tiedNeighbors : OlsrState where
  neighborSet := [⟨2, .sym, .medium⟩, ⟨3, .sym, .medium⟩, ⟨4, .sym, .always⟩]
  twoHopNeighborSet := [⟨2, 10, 0⟩, ⟨3, 10, 0⟩, ⟨3, 11, 0⟩, ⟨4, 11, 0⟩]

theorem tiedNeighbors_selections_best_iff :
    (tiedNeighbors.twoHopNeighborSet.map fun t =>
      (t.neighborMainAddr, t.twoHopNeighborAddr)).Nodup ∧
    ((∀ r ∈ selections 1 tiedNeighbors 4, Best 1 tiedNeighbors r.1 r.2) ↔
      ∀ r ∈ selections 1 tiedNeighbors 4, FirstIsBest 1 tiedNeighbors r.1) :=
  ⟨by decide, (selections_best_iff (by decide) 1 4).2⟩

/-- Neighbor 2 is added, and neighbor 3 has the greater degree. -/
theorem tiedNeighbors_not_best : mprComputation 1 tiedNeighbors 4 = some {2, 4} ∧
    selections 1 tiedNeighbors 4 =
      [([⟨2, 10, 0⟩, ⟨3, 10, 0⟩], ⟨2, .sym, .medium⟩)] ∧
    outerDegree 1 tiedNeighbors ⟨2, .sym, .medium⟩ = 1 ∧
    outerDegree 1 tiedNeighbors ⟨3, .sym, .medium⟩ = 2 ∧
    ¬ Best 1 tiedNeighbors [⟨2, 10, 0⟩, ⟨3, 10, 0⟩] ⟨2, .sym, .medium⟩ := by
  refine ⟨by decide, by decide, by decide, by decide, fun h => ?_⟩
  have hle := h.greatest ⟨3, .sym, .medium⟩ (by decide) (by decide)
  exact absurd hle (by decide)

end Ns3Pedca.Olsr
