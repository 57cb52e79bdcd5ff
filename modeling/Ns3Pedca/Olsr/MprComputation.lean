import Ns3Pedca.Olsr.OlsrState

/-!
# Multipoint relays

`MprComputation` selects the neighbors that forward the messages of a node : those that always want
to, those that are the only ones to reach a 2-hop neighbor, and then one neighbor after the other
until the set `N2` of what is not reached is empty. The loop ends, the relays are symmetric
neighbors that are willing, and all of the 2-hop neighbors are reached through one of them
(`mprComputation_covers`).
-/

namespace Ns3Pedca.Olsr

open OlsrState

/-! ## The computation -/

/-- `CoverTwoHopNeighbors`. -/
def coverTwoHopNeighbors (neighborMainAddr : Ipv4Address) (N2 : List TwoHopNeighborTuple) :
    List TwoHopNeighborTuple :=
  let toRemove := (N2.filter (·.neighborMainAddr = neighborMainAddr)).map (·.twoHopNeighborAddr)
  N2.filter (·.twoHopNeighborAddr ∉ toRemove)

/-- `Degree`. The tuples that it counts are those of the neighbor itself. -/
def degree (s : OlsrState) (tuple : NeighborTuple) : ℕ :=
  (s.twoHopNeighborSet.filter fun t => t.neighborMainAddr = tuple.neighborMainAddr ∧
    s.findNeighborTuple t.neighborMainAddr = none).length

/-- The symmetric neighbors. -/
def mprN (s : OlsrState) : List NeighborTuple :=
  s.neighborSet.filter (·.status = .sym)

/-- A 2-hop tuple that is taken into the set `N2`. -/
def inN2 (mainAddress : Ipv4Address) (N : List NeighborTuple) (t : TwoHopNeighborTuple) : Bool :=
  t.twoHopNeighborAddr ≠ mainAddress &&
    (match N.find? (·.neighborMainAddr = t.neighborMainAddr) with
      | none => false
      | some neigh => neigh.willingness ≠ .never) &&
    !N.any (·.neighborMainAddr = t.twoHopNeighborAddr)

/-- The 2-hop neighbors that are to be reached. -/
def mprN2 (mainAddress : Ipv4Address) (s : OlsrState) : List TwoHopNeighborTuple :=
  s.twoHopNeighborSet.filter (inN2 mainAddress (mprN s))

/-- A neighbor that always wants to is a relay. -/
def addAlways (r : Finset Ipv4Address × List TwoHopNeighborTuple) (neighbor : NeighborTuple) :
    Finset Ipv4Address × List TwoHopNeighborTuple :=
  if neighbor.willingness = .always then
    (insert neighbor.neighborMainAddr r.1, coverTwoHopNeighbors neighbor.neighborMainAddr r.2)
  else r

/-- No other neighbor reaches the 2-hop neighbor of a tuple. -/
def onlyOne (N2 : List TwoHopNeighborTuple) (t : TwoHopNeighborTuple) : Bool :=
  !N2.any fun other => other.twoHopNeighborAddr = t.twoHopNeighborAddr &&
    other.neighborMainAddr ≠ t.neighborMainAddr

/-- A neighbor that is the only one to reach a 2-hop neighbor is a relay, and all that it reaches is
noted. -/
def addOnly (N2 : List TwoHopNeighborTuple) (r : Finset Ipv4Address × List Ipv4Address)
    (t : TwoHopNeighborTuple) : Finset Ipv4Address × List Ipv4Address :=
  if onlyOne N2 t then
    (insert t.neighborMainAddr r.1,
      r.2 ++ (N2.filter (·.neighborMainAddr = t.neighborMainAddr)).map (·.twoHopNeighborAddr))
  else r

/-- The number of tuples that are reached through a neighbor. -/
def reachability (N2 : List TwoHopNeighborTuple) (neighbor : NeighborTuple) : ℕ :=
  (N2.filter (·.neighborMainAddr = neighbor.neighborMainAddr)).length

/-- The choice between a neighbor and the best one up to it, with their reachabilities. -/
def better (s : OlsrState) (max : Option (NeighborTuple × ℕ)) (c : NeighborTuple × ℕ) :
    Option (NeighborTuple × ℕ) :=
  match max with
  | none => some c
  | some m =>
    if c.1.willingness.value > m.1.willingness.value then some c
    else if c.1.willingness = m.1.willingness then
      if c.2 > m.2 then some c
      else if c.2 = m.2 ∧ degree s c.1 > degree s m.1 then some c
      else max
    else max

/-- The neighbors by increasing reachability, those that reach nothing left out. -/
def candidates (N : List NeighborTuple) (N2 : List TwoHopNeighborTuple) :
    List (NeighborTuple × ℕ) :=
  (List.range' 1 N2.length).flatMap fun r =>
    (N.filter (reachability N2 · = r)).map (·, r)

/-- The loop that selects one neighbor after the other, with a bound for its rounds. -/
def mprLoop (s : OlsrState) (N : List NeighborTuple) : ℕ → List TwoHopNeighborTuple →
    Finset Ipv4Address → Option (Finset Ipv4Address)
  | _, [], mprSet => some mprSet
  | 0, _ :: _, _ => none
  | fuel + 1, t :: N2, mprSet =>
    match (candidates N (t :: N2)).foldl (better s) none with
    | none => mprLoop s N fuel (t :: N2) mprSet
    | some max => mprLoop s N fuel (coverTwoHopNeighbors max.1.neighborMainAddr (t :: N2))
        (insert max.1.neighborMainAddr mprSet)

/-- `MprComputation`, up to `SetMprSet`. -/
def mprComputation (mainAddress : Ipv4Address) (s : OlsrState) (fuel : ℕ) :
    Option (Finset Ipv4Address) :=
  let N := mprN s
  let (mprSet, N2) := N.foldl addAlways (∅, mprN2 mainAddress s)
  let (mprSet, coveredTwoHopNeighbors) := N2.foldl (addOnly N2) (mprSet, [])
  let N2 := N2.filter (·.twoHopNeighborAddr ∉ coveredTwoHopNeighbors)
  mprLoop s N fuel N2 mprSet

/-! ## What is reached -/

variable {s : OlsrState} {mainAddress : Ipv4Address} {all N2 : List TwoHopNeighborTuple}
  {mprSet : Finset Ipv4Address} {N : List NeighborTuple}

/-- A relay that may be selected. -/
def Willing (s : OlsrState) (m : Ipv4Address) : Prop :=
  ∃ n ∈ s.neighborSet, n.neighborMainAddr = m ∧ n.status = .sym ∧ n.willingness ≠ .never

/-- A 2-hop neighbor is reached through a relay. -/
def Reached (all : List TwoHopNeighborTuple) (mprSet : Finset Ipv4Address) (a : Ipv4Address) :
    Prop :=
  ∃ m ∈ mprSet, ∃ t ∈ all, t.neighborMainAddr = m ∧ t.twoHopNeighborAddr = a

/-- The relays are willing, and what is not left to be reached is reached. -/
structure Relays (s : OlsrState) (all N2 : List TwoHopNeighborTuple)
    (mprSet : Finset Ipv4Address) : Prop where
  sub : ∀ t ∈ N2, t ∈ all
  willing : ∀ m ∈ mprSet, Willing s m
  reached : ∀ t ∈ all, t ∈ N2 ∨ Reached all mprSet t.twoHopNeighborAddr

theorem Reached.mono {mprSet' : Finset Ipv4Address} {a : Ipv4Address} (h : Reached all mprSet a)
    (hsub : mprSet ⊆ mprSet') : Reached all mprSet' a := by
  obtain ⟨m, hm, ht⟩ := h
  exact ⟨m, hsub hm, ht⟩

theorem mem_coverTwoHopNeighbors {m : Ipv4Address} {t : TwoHopNeighborTuple} :
    t ∈ coverTwoHopNeighbors m N2 ↔ t ∈ N2 ∧
      ∀ t' ∈ N2, t'.neighborMainAddr = m → t'.twoHopNeighborAddr ≠ t.twoHopNeighborAddr := by
  simp [coverTwoHopNeighbors, List.mem_filter]

/-- A relay is selected, and what it reaches is not left. -/
theorem Relays.select (h : Relays s all N2 mprSet) {m : Ipv4Address} (hm : Willing s m) :
    Relays s all (coverTwoHopNeighbors m N2) (insert m mprSet) := by
  refine ⟨?_, ?_, ?_⟩
  · intro t ht
    exact h.sub t (mem_coverTwoHopNeighbors.1 ht).1
  · intro m' hm'
    rcases Finset.mem_insert.1 hm' with rfl | hm'
    · exact hm
    · exact h.willing m' hm'
  · intro t ht
    rcases h.reached t ht with hN2 | hreached
    · by_cases hcover : ∀ t' ∈ N2, t'.neighborMainAddr = m →
          t'.twoHopNeighborAddr ≠ t.twoHopNeighborAddr
      · exact Or.inl (mem_coverTwoHopNeighbors.2 ⟨hN2, hcover⟩)
      · push Not at hcover
        obtain ⟨t', ht', hm', heq⟩ := hcover
        exact Or.inr ⟨m, Finset.mem_insert_self m mprSet, t', h.sub t' ht', hm', heq⟩
    · exact Or.inr (hreached.mono (Finset.subset_insert m mprSet))

/-- The first relays are those that always want to be. -/
theorem Relays.foldl_addAlways (N : List NeighborTuple) :
    ∀ {N2 : List TwoHopNeighborTuple} {mprSet : Finset Ipv4Address},
      (∀ n ∈ N, n ∈ s.neighborSet ∧ n.status = .sym) → Relays s all N2 mprSet →
      Relays s all (N.foldl addAlways (mprSet, N2)).2 (N.foldl addAlways (mprSet, N2)).1 ∧
        mprSet ⊆ (N.foldl addAlways (mprSet, N2)).1 ∧
        ∀ n ∈ N, n.willingness = .always →
          n.neighborMainAddr ∈ (N.foldl addAlways (mprSet, N2)).1 := by
  induction N with
  | nil =>
    intro N2 mprSet _ h
    refine ⟨h, Finset.Subset.refl mprSet, ?_⟩
    intro n hn
    cases hn
  | cons n N ih =>
    intro N2 mprSet hN h
    rw [List.forall_mem_cons] at hN
    rw [List.foldl_cons, addAlways]
    split_ifs with halways
    · have hwilling : Willing s n.neighborMainAddr := by
        refine ⟨n, hN.1.1, rfl, hN.1.2, ?_⟩
        rw [halways]
        decide
      obtain ⟨hrelays, hsub, hall⟩ := ih hN.2 (h.select hwilling)
      refine ⟨hrelays, (Finset.subset_insert _ _).trans hsub, ?_⟩
      intro n' hn' halways'
      rcases List.mem_cons.1 hn' with rfl | hn'
      · exact hsub (Finset.mem_insert_self _ _)
      · exact hall n' hn' halways'
    · obtain ⟨hrelays, hsub, hall⟩ := ih hN.2 h
      refine ⟨hrelays, hsub, ?_⟩
      intro n' hn' halways'
      rcases List.mem_cons.1 hn' with rfl | hn'
      · exact absurd halways' halways
      · exact hall n' hn' halways'

theorem length_foldl_addAlways (N : List NeighborTuple) :
    ∀ r, (N.foldl addAlways r).2.length ≤ r.2.length := by
  induction N with
  | nil =>
    intro r
    exact le_rfl
  | cons n N ih =>
    intro r
    refine (ih (addAlways r n)).trans ?_
    rw [addAlways]
    split_ifs
    · exact List.length_filter_le _ _
    · exact le_rfl

/-- The relays of the second pass reach all that is noted. -/
theorem foldl_addOnly (hN2 : ∀ t ∈ N2, Willing s t.neighborMainAddr)
    (l : List TwoHopNeighborTuple) :
    ∀ {mprSet : Finset Ipv4Address} {covered : List Ipv4Address}, (∀ t ∈ l, t ∈ N2) →
      (∀ m ∈ mprSet, Willing s m) → (∀ a ∈ covered, Reached N2 mprSet a) →
      mprSet ⊆ (l.foldl (addOnly N2) (mprSet, covered)).1 ∧
        (∀ m ∈ (l.foldl (addOnly N2) (mprSet, covered)).1, Willing s m) ∧
        ∀ a ∈ (l.foldl (addOnly N2) (mprSet, covered)).2,
          Reached N2 (l.foldl (addOnly N2) (mprSet, covered)).1 a := by
  induction l with
  | nil =>
    intro mprSet covered _ hmpr hcovered
    exact ⟨Finset.Subset.refl mprSet, hmpr, hcovered⟩
  | cons t l ih =>
    intro mprSet covered hl hmpr hcovered
    rw [List.forall_mem_cons] at hl
    rw [List.foldl_cons, addOnly]
    split_ifs
    · have hmpr' : ∀ m ∈ insert t.neighborMainAddr mprSet, Willing s m := by
        intro m hm
        rcases Finset.mem_insert.1 hm with rfl | hm
        · exact hN2 t hl.1
        · exact hmpr m hm
      have hcovered' : ∀ a ∈ covered ++ (N2.filter
          (·.neighborMainAddr = t.neighborMainAddr)).map (·.twoHopNeighborAddr),
          Reached N2 (insert t.neighborMainAddr mprSet) a := by
        intro a ha
        rcases List.mem_append.1 ha with ha | ha
        · exact (hcovered a ha).mono (Finset.subset_insert _ _)
        · obtain ⟨t', ht', rfl⟩ := List.mem_map.1 ha
          obtain ⟨hmem, hnb⟩ := List.mem_filter.1 ht'
          exact ⟨t.neighborMainAddr, Finset.mem_insert_self _ _, t', hmem,
            of_decide_eq_true hnb, rfl⟩
      obtain ⟨hsub, hrest⟩ := ih hl.2 hmpr' hcovered'
      exact ⟨(Finset.subset_insert _ _).trans hsub, hrest⟩
    · exact ih hl.2 hmpr hcovered

/-! ## The loop -/

theorem foldl_better (l : List (NeighborTuple × ℕ)) : ∀ m, ∃ c, (l.foldl (better s) (some m)) =
    some c ∧ (c = m ∨ c ∈ l) := by
  induction l with
  | nil =>
    intro m
    exact ⟨m, rfl, Or.inl rfl⟩
  | cons c l ih =>
    intro m
    have hstep : better s (some m) c = some c ∨ better s (some m) c = some m := by
      rw [better]
      split_ifs
      · exact Or.inl rfl
      · exact Or.inl rfl
      · exact Or.inl rfl
      · exact Or.inr rfl
      · exact Or.inr rfl
    rw [List.foldl_cons]
    rcases hstep with hstep | hstep
    · rw [hstep]
      obtain ⟨d, hd, hmem⟩ := ih c
      exact ⟨d, hd, Or.inr (List.mem_cons.2 hmem)⟩
    · rw [hstep]
      obtain ⟨d, hd, hmem⟩ := ih m
      exact ⟨d, hd, hmem.imp_right (List.mem_cons_of_mem c)⟩

theorem mem_candidates {c : NeighborTuple × ℕ} :
    c ∈ candidates N N2 ↔ c.1 ∈ N ∧ reachability N2 c.1 = c.2 ∧ 1 ≤ c.2 := by
  have hle : reachability N2 c.1 ≤ N2.length := List.length_filter_le _ _
  rw [candidates, List.mem_flatMap]
  constructor
  · rintro ⟨r, hr, hc⟩
    obtain ⟨n, hn, rfl⟩ := List.mem_map.1 hc
    obtain ⟨hnN, hreach⟩ := List.mem_filter.1 hn
    exact ⟨hnN, of_decide_eq_true hreach, (List.mem_range'_1.1 hr).1⟩
  · rintro ⟨hN, hreach, hpos⟩
    refine ⟨c.2, List.mem_range'_1.2 ⟨hpos, by omega⟩, List.mem_map.2 ⟨c.1, ?_, rfl⟩⟩
    exact List.mem_filter.2 ⟨hN, decide_eq_true hreach⟩

/-- Something is selected as long as there is something to be reached, and it reaches something. -/
theorem exists_selected {t : TwoHopNeighborTuple}
    (h : ∀ t ∈ N2, ∃ n ∈ N, n.neighborMainAddr = t.neighborMainAddr) (ht : t ∈ N2) :
    ∃ c, (candidates N N2).foldl (better s) none = some c ∧ c.1 ∈ N ∧
      ∃ t ∈ N2, t.neighborMainAddr = c.1.neighborMainAddr := by
  obtain ⟨n, hn, hnt⟩ := h t ht
  have hpos : 1 ≤ reachability N2 n :=
    List.length_pos_of_mem (List.mem_filter.2 ⟨ht, decide_eq_true hnt.symm⟩)
  have hcand : (n, reachability N2 n) ∈ candidates N N2 := mem_candidates.2 ⟨hn, rfl, hpos⟩
  cases hl : candidates N N2 with
  | nil =>
    rw [hl] at hcand
    cases hcand
  | cons d l =>
    obtain ⟨c, hc, hmem⟩ := foldl_better (s := s) l d
    have hcl : c ∈ candidates N N2 := by
      rw [hl]
      exact List.mem_cons.2 hmem
    obtain ⟨hcN, hreach, hcpos⟩ := mem_candidates.1 hcl
    refine ⟨c, hc, hcN, ?_⟩
    obtain ⟨t', ht'⟩ := List.exists_mem_of_length_pos (hreach ▸ hcpos)
    exact ⟨t', (List.mem_filter.1 ht').1, of_decide_eq_true (List.mem_filter.1 ht').2⟩

theorem length_coverTwoHopNeighbors_lt {t : TwoHopNeighborTuple} {m : Ipv4Address}
    (ht : t ∈ N2) (hm : t.neighborMainAddr = m) :
    (coverTwoHopNeighbors m N2).length < N2.length := by
  refine List.length_filter_lt_length_iff_exists.2 ⟨t, ht, ?_⟩
  rw [decide_eq_true_eq, not_not]
  exact List.mem_map.2 ⟨t, List.mem_filter.2 ⟨ht, decide_eq_true hm⟩, rfl⟩

/-- The loop ends, as every relay reaches something that is left. -/
theorem Relays.mprLoop (hall : ∀ t ∈ all, Willing s t.neighborMainAddr) (k : ℕ) :
    ∀ {N2 : List TwoHopNeighborTuple} {mprSet : Finset Ipv4Address}, N2.length ≤ k →
      Relays s all N2 mprSet →
      ∃ mprs, (∀ fuel, k ≤ fuel → Olsr.mprLoop s (mprN s) fuel N2 mprSet = some mprs) ∧
        mprSet ⊆ mprs ∧ Relays s all [] mprs := by
  induction k with
  | zero =>
    intro N2 mprSet hk h
    obtain rfl : N2 = [] := List.eq_nil_of_length_eq_zero (Nat.le_zero.1 hk)
    refine ⟨mprSet, ?_, Finset.Subset.refl mprSet, h⟩
    intro fuel _
    rw [Olsr.mprLoop]
  | succ k ih =>
    intro N2 mprSet hk h
    cases hN2 : N2 with
    | nil =>
      rw [hN2] at h
      refine ⟨mprSet, ?_, Finset.Subset.refl mprSet, h⟩
      intro fuel _
      rw [Olsr.mprLoop]
    | cons t rest =>
      rw [← hN2]
      have ht : t ∈ N2 := by
        rw [hN2]
        exact List.mem_cons_self
      have hreach : ∀ t ∈ N2, ∃ n ∈ mprN s, n.neighborMainAddr = t.neighborMainAddr := by
        intro t ht
        obtain ⟨n, hn, haddr, hsym, -⟩ := hall t (h.sub t ht)
        exact ⟨n, List.mem_filter.2 ⟨hn, decide_eq_true hsym⟩, haddr⟩
      obtain ⟨c, hc, -, t', ht', hnb⟩ := exists_selected hreach ht
      have hwilling : Willing s c.1.neighborMainAddr := by
        rw [← hnb]
        exact hall t' (h.sub t' ht')
      have hlt := length_coverTwoHopNeighbors_lt ht' hnb
      obtain ⟨mprs, hrun, hsub, hrelays⟩ := ih (by omega) (h.select hwilling)
      refine ⟨mprs, ?_, (Finset.subset_insert _ _).trans hsub, hrelays⟩
      intro fuel hfuel
      obtain ⟨fuel', rfl⟩ := Nat.exists_eq_add_of_le' hfuel
      have hstep := hrun (fuel' + k) (Nat.le_add_left k fuel')
      rw [hN2] at hc hstep ⊢
      rw [← Nat.add_assoc, Olsr.mprLoop, hc]
      exact hstep

theorem willing_of_mem_mprN2 {t : TwoHopNeighborTuple} (ht : t ∈ mprN2 mainAddress s) :
    Willing s t.neighborMainAddr := by
  have hin := (List.mem_filter.1 ht).2
  rw [inN2, Bool.and_eq_true, Bool.and_eq_true] at hin
  have hfound := hin.1.2
  split at hfound
  · cases hfound
  · next n hfind =>
    obtain ⟨hmem, haddr⟩ := mem_of_find? hfind
    obtain ⟨hn, hsym⟩ := List.mem_filter.1 hmem
    exact ⟨n, hn, haddr, of_decide_eq_true hsym, of_decide_eq_true hfound⟩

/-- With one tuple for every neighbor, a 2-hop tuple through a willing one is taken into `N2`. -/
theorem mem_mprN2 {t : TwoHopNeighborTuple}
    (h : (s.neighborSet.map (·.neighborMainAddr)).Nodup) (ht : t ∈ s.twoHopNeighborSet)
    (hself : t.twoHopNeighborAddr ≠ mainAddress)
    (hneigh : ∀ n ∈ s.neighborSet, n.status = .sym → n.neighborMainAddr ≠ t.twoHopNeighborAddr)
    (hwilling : Willing s t.neighborMainAddr) : t ∈ mprN2 mainAddress s := by
  obtain ⟨n, hn, haddr, hsym, hne⟩ := hwilling
  refine List.mem_filter.2 ⟨ht, ?_⟩
  have hfind : (mprN s).find? (·.neighborMainAddr = t.neighborMainAddr) = some n := by
    have hmem : n ∈ mprN s := List.mem_filter.2 ⟨hn, decide_eq_true hsym⟩
    cases hf : (mprN s).find? (·.neighborMainAddr = t.neighborMainAddr) with
    | none => exact absurd (decide_eq_true haddr) (List.find?_eq_none.1 hf n hmem)
    | some n' =>
      obtain ⟨hmem', haddr'⟩ := mem_of_find? hf
      have hn' := (List.mem_filter.1 hmem').1
      rw [List.inj_on_of_nodup_map h hn' hn (haddr'.trans haddr.symm)]
  have hany : (mprN s).any (·.neighborMainAddr = t.twoHopNeighborAddr) = false := by
    rw [List.any_eq_false]
    intro n' hn' heq
    obtain ⟨hn', hsym'⟩ := List.mem_filter.1 hn'
    exact hneigh n' hn' (of_decide_eq_true hsym') (of_decide_eq_true heq)
  rw [inN2, hfind, hany, decide_eq_true hself]
  simpa using hne

/-- The computation of the relays ends, they are willing symmetric neighbors, among them all that
always want to be, and every 2-hop neighbor behind a willing neighbor is reached through one. -/
theorem mprComputation_covers (mainAddress : Ipv4Address) (s : OlsrState)
    (h : (s.neighborSet.map (·.neighborMainAddr)).Nodup) :
    ∃ mprSet, (∀ fuel, s.twoHopNeighborSet.length ≤ fuel →
        mprComputation mainAddress s fuel = some mprSet) ∧
      (∀ m ∈ mprSet, ∃ n ∈ s.neighborSet, n.neighborMainAddr = m ∧ n.status = .sym ∧
        n.willingness ≠ .never) ∧
      (∀ n ∈ s.neighborSet, n.status = .sym → n.willingness = .always →
        n.neighborMainAddr ∈ mprSet) ∧
      ∀ t ∈ s.twoHopNeighborSet, t.twoHopNeighborAddr ≠ mainAddress →
        (∀ n ∈ s.neighborSet, n.status = .sym → n.neighborMainAddr ≠ t.twoHopNeighborAddr) →
        (∃ n ∈ s.neighborSet, n.neighborMainAddr = t.neighborMainAddr ∧ n.status = .sym ∧
          n.willingness ≠ .never) →
        ∃ m ∈ mprSet, ∃ t' ∈ s.twoHopNeighborSet, t'.neighborMainAddr = m ∧
          t'.twoHopNeighborAddr = t.twoHopNeighborAddr := by
  have hstart : Relays s (mprN2 mainAddress s) (mprN2 mainAddress s) ∅ := by
    refine ⟨fun _ ht => ht, ?_, fun _ ht => Or.inl ht⟩
    intro m hm
    cases hm
  have hN : ∀ n ∈ mprN s, n ∈ s.neighborSet ∧ n.status = .sym := by
    intro n hn
    obtain ⟨hn, hsym⟩ := List.mem_filter.1 hn
    exact ⟨hn, of_decide_eq_true hsym⟩
  obtain ⟨hfirst, -, halways⟩ := Relays.foldl_addAlways (mprN s) hN hstart
  generalize hr : (mprN s).foldl addAlways (∅, mprN2 mainAddress s) = r at hfirst halways
  have hwilling : ∀ t ∈ r.2, Willing s t.neighborMainAddr := by
    intro t ht
    exact willing_of_mem_mprN2 (hfirst.sub t ht)
  obtain ⟨hsub, hmpr, hcovered⟩ := foldl_addOnly hwilling r.2
    (fun _ ht => ht) hfirst.willing (fun _ (ha : _ ∈ []) => absurd ha List.not_mem_nil)
  generalize hr' : r.2.foldl (addOnly r.2) (r.1, []) = r' at hsub hmpr hcovered
  have hsecond : Relays s (mprN2 mainAddress s)
      (r.2.filter (·.twoHopNeighborAddr ∉ r'.2)) r'.1 := by
    refine ⟨fun t ht => hfirst.sub t (List.mem_of_mem_filter ht), hmpr, ?_⟩
    intro t ht
    rcases hfirst.reached t ht with hleft | hreached
    · by_cases hnoted : t.twoHopNeighborAddr ∈ r'.2
      · obtain ⟨m, hm, t', ht', heq⟩ := hcovered _ hnoted
        exact Or.inr ⟨m, hm, t', hfirst.sub t' ht', heq⟩
      · exact Or.inl (List.mem_filter.2 ⟨hleft, decide_eq_true hnoted⟩)
    · exact Or.inr (hreached.mono hsub)
  have hlength : (r.2.filter (·.twoHopNeighborAddr ∉ r'.2)).length ≤
      s.twoHopNeighborSet.length := by
    have hle := length_foldl_addAlways (mprN s) (∅, mprN2 mainAddress s)
    rw [hr] at hle
    exact (List.length_filter_le _ _).trans (hle.trans (List.length_filter_le _ _))
  obtain ⟨mprs, hrun, hsub', hlast⟩ := Relays.mprLoop
    (fun t ht => willing_of_mem_mprN2 ht) _ hlength hsecond
  refine ⟨mprs, ?_, hlast.willing, ?_, ?_⟩
  · intro fuel hfuel
    rw [← hrun fuel hfuel, mprComputation]
    simp only [hr, hr']
  · intro n hn hsym halw
    exact hsub' (hsub (halways n (List.mem_filter.2 ⟨hn, decide_eq_true hsym⟩) halw))
  · intro t ht hself hneigh hwill
    have hmem := mem_mprN2 h ht hself hneigh hwill
    rcases hlast.reached t hmem with hnil | ⟨m, hm, t', ht', heq⟩
    · cases hnil
    · exact ⟨m, hm, t', (List.mem_filter.1 ht').1, heq⟩

/-- Two neighbors reach node 10, and one of them also reaches node 11. -/
def twoReach : OlsrState where
  neighborSet := [⟨2, .sym, .medium⟩, ⟨3, .sym, .medium⟩]
  twoHopNeighborSet := [⟨2, 10, 0⟩, ⟨3, 10, 0⟩, ⟨3, 11, 0⟩]

theorem mprComputation_covers_twoReach : ∃ mprSet, mprComputation 1 twoReach 3 = some mprSet ∧
    ∃ m ∈ mprSet, ∃ t' ∈ twoReach.twoHopNeighborSet, t'.neighborMainAddr = m ∧
      t'.twoHopNeighborAddr = 10 := by
  obtain ⟨mprSet, hrun, -, -, hreach⟩ := mprComputation_covers 1 twoReach (by decide)
  exact ⟨mprSet, hrun 3 (by decide), hreach ⟨2, 10, 0⟩ (by decide) (by decide) (by decide)
    ⟨⟨2, .sym, .medium⟩, by decide, by decide⟩⟩

end Ns3Pedca.Olsr
