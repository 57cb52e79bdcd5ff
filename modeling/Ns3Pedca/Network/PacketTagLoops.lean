import Ns3Pedca.Network.PacketTagNodes

/-!
# The loops of the tag lists

`COWTraverse` finds the tag of a type before the first shared node of its list
(`cowTraverse_present`), or it copies the nodes from there to the tag, one after the other
(`copyUntil_spec`), and calls its writer at a node that is still shared (`cowTraverse_merge`).
`RemoveAll` frees the nodes before the first shared one (`removeAll_spec`).
-/

namespace Ns3Pedca.TagLists

open SharedLists Function TagView

variable {s s' s'' : TagLists} {c : ℕ → List ℕ} {i N n cur fuel : ℕ} {sl : Slot ℕ ℕ}
  {pre l l' l'' rest q : List ℕ} {tid : TypeId} {t : TypeId × List UInt8}
  {tags tags' : List (TypeId × List UInt8)}

/-! ## Searching -/

theorem exists_node {a : ℕ} (h : .next a ∈ s.slots) : ∃ d, s.node a = some d ∧
    d.next = s.ptr (.next a) ∧ d.count.toNat = s.view.count a ∧
    (d.tid, d.data) = s.view.tag a := by
  obtain ⟨d, hd⟩ := next_mem_slots.1 h
  refine ⟨d, hd, ?_, (count_eq hd).symm, (tag_eq hd).symm⟩
  rw [ptr, hd]
  rfl

/-- A list has no more nodes than have been created. -/
theorem length_le (hl : IsChain s.ptr sl l) (hin : ∀ a ∈ l, .next a ∈ s.slots) :
    l.length ≤ s.nodes.length := by
  have hsub : ∀ a ∈ l, a ∈ List.range s.nodes.length := fun a ha => by
    obtain ⟨d, hd⟩ := next_mem_slots.1 (hin a ha)
    exact List.mem_range.2 (lt_of_node hd)
  have hle := (List.subperm_of_subset hl.nodup hsub).length_le
  rwa [List.length_range] at hle

theorem find_spec (tid : TypeId) (hl : IsChain s.ptr sl l) (hin : ∀ a ∈ l, .next a ∈ s.slots)
    (hfuel : l.length < fuel) :
    s.find tid fuel (s.ptr sl) = some (l.find? fun a => (s.view.tag a).1 = tid) := by
  induction l generalizing sl fuel with
  | nil =>
    obtain ⟨k, rfl⟩ := Nat.exists_eq_succ_of_ne_zero (Nat.ne_of_gt hfuel)
    rw [show s.ptr sl = none from hl]
    rfl
  | cons a l ih =>
    obtain ⟨k, rfl⟩ := Nat.exists_eq_succ_of_ne_zero (Nat.ne_of_gt (Nat.zero_lt_of_lt hfuel))
    obtain ⟨ha, hrest⟩ := List.forall_mem_cons.1 hin
    obtain ⟨d, hd, hnext, -, htag⟩ := exists_node ha
    have htid : d.tid = (s.view.tag a).1 := congrArg Prod.fst htag
    rw [hl.1, find, hd]
    simp only [Option.bind_eq_bind, Option.bind_some, List.find?_cons, htid]
    by_cases heq : (s.view.tag a).1 = tid
    · simp only [heq, if_true, decide_true]
    · simp only [heq, if_false, decide_false]
      rw [hnext]
      exact ih hl.2 hrest (Nat.lt_of_succ_lt_succ hfuel)

theorem search_spec (tid : TypeId) (hl : IsChain s.ptr sl l) (hin : ∀ a ∈ l, .next a ∈ s.slots)
    (hfuel : l.length < fuel) :
    (s.search tid fuel sl (s.ptr sl) = some .ended ∧ ∀ a ∈ l, (s.view.tag a).1 ≠ tid) ∨
    ∃ q cur r, l = q ++ cur :: r ∧
      (∀ a ∈ q, s.view.count a ≤ 1 ∧ (s.view.tag a).1 ≠ tid) ∧
      (s.search tid fuel sl (s.ptr sl) = some (.found (after sl q) cur) ∧
        s.view.count cur ≤ 1 ∧ (s.view.tag cur).1 = tid ∨
      s.search tid fuel sl (s.ptr sl) = some (.merge (after sl q) cur) ∧
        2 ≤ s.view.count cur) := by
  induction l generalizing sl fuel with
  | nil =>
    obtain ⟨k, rfl⟩ := Nat.exists_eq_succ_of_ne_zero (Nat.ne_of_gt hfuel)
    rw [show s.ptr sl = none from hl]
    exact Or.inl ⟨rfl, fun a ha => absurd ha List.not_mem_nil⟩
  | cons a l ih =>
    obtain ⟨k, rfl⟩ := Nat.exists_eq_succ_of_ne_zero (Nat.ne_of_gt (Nat.zero_lt_of_lt hfuel))
    obtain ⟨ha, hrest⟩ := List.forall_mem_cons.1 hin
    obtain ⟨d, hd, hnext, hcount, htag⟩ := exists_node ha
    have htid : d.tid = (s.view.tag a).1 := congrArg Prod.fst htag
    have hgt : d.count > 1 ↔ 2 ≤ s.view.count a := by
      rw [← hcount, gt_iff_lt, UInt32.lt_iff_toNat_lt]
      rfl
    rw [hl.1, search, hd]
    simp only [Option.bind_eq_bind, Option.bind_some, hgt, htid]
    by_cases htwo : 2 ≤ s.view.count a
    · rw [if_pos htwo]
      exact Or.inr ⟨[], a, l, rfl, fun b hb => absurd hb List.not_mem_nil, Or.inr ⟨rfl, htwo⟩⟩
    rw [if_neg htwo]
    have hone : s.view.count a ≤ 1 := by omega
    by_cases heq : (s.view.tag a).1 = tid
    · rw [if_pos heq]
      exact Or.inr ⟨[], a, l, rfl, fun b hb => absurd hb List.not_mem_nil,
        Or.inl ⟨rfl, hone, heq⟩⟩
    rw [if_neg heq, hnext]
    rcases ih hl.2 hrest (Nat.lt_of_succ_lt_succ hfuel) with
      ⟨hended, hall⟩ | ⟨q, cur, r, hlq, hq, hstop⟩
    · exact Or.inl ⟨hended, List.forall_mem_cons.2 ⟨heq, hall⟩⟩
    · exact Or.inr ⟨a :: q, cur, r, by rw [hlq, List.cons_append],
        List.forall_mem_cons.2 ⟨⟨hone, heq⟩, hq⟩, hstop⟩

/-! ## Copying -/

/-- The list `i` has been changed to `l`, with `tags`. -/
structure Done (s s' : TagLists) (c : ℕ → List ℕ) (i : ℕ) (l : List ℕ)
    (tags : List (TypeId × List UInt8)) : Prop where
  sound : s'.view.Sound (update c i l)
  keeps : s.view.Keeps s'.view c i
  tags : l.map s'.view.tag = tags

theorem Done.trans (h : Done s s' c i l tags) (h' : Done s' s'' (update c i l) i l' tags') :
    Done s s'' c i l' tags' := by
  refine ⟨?_, h.keeps.trans h'.keeps, h'.tags⟩
  have hsound := h'.sound
  rwa [update_idem] at hsound

theorem Done.heads (h : Done s s' c i l tags) (j : ℕ) : .head j ∈ s'.slots ↔ .head j ∈ s.slots :=
  h.keeps.heads j

/-- No count is greater than the number of the lists. -/
theorem count_le {v : TagView} (h : v.Sound c) (hv : ∀ j, .head j ∈ v.slots → .head j ∈ s.slots)
    (a : ℕ) (ha : .next a ∈ v.slots) : v.count a ≤ s.lists.length := by
  rw [h.counts a ha]
  have hle := h.forest.refs_le (a := a) (I := Finset.range s.lists.length) fun j hj =>
    Finset.mem_range.2 (head_mem_slots.1 (hv j hj))
  rwa [Finset.card_range] at hle

/-- What a pointer points to is in memory. -/
theorem ptr_mem (h : s.view.Sound c) (hsl : sl ∈ s.slots) {a : ℕ} (ha : s.ptr sl = some a) :
    .next a ∈ s.slots := by
  obtain ⟨j, hj, p, r, hc, -⟩ := h.forest.exists_pred hsl ha
  exact (h.forest.nodes a).2 ⟨j, hj, by rw [hc]; simp⟩

theorem length_lists_eq (h : ∀ j, .head j ∈ s'.slots ↔ .head j ∈ s.slots) :
    s'.lists.length = s.lists.length := by
  refine Nat.le_antisymm (Nat.not_lt.1 fun hlt => ?_) (Nat.not_lt.1 fun hlt => ?_)
  · exact lt_irrefl _ (head_mem_slots.1 ((h _).1 (head_mem_slots.2 hlt)))
  · exact lt_irrefl _ (head_mem_slots.1 ((h _).2 (head_mem_slots.2 hlt)))

/-- A shared node is replaced by a copy of it, or by one with another tag of its type. -/
theorem copyNode_spec (h : s.view.Sound c) (hat : s.view.At c i pre (cur :: rest))
    (htwo : 2 ≤ s.view.count cur) (hN : s.lists.length < 2 ^ 32) {d : TagData}
    (hd : s.node cur = some d) (ht : t.1 = d.tid) :
    ∃ s₁ s₂ s', s.decrement cur = some s₁ ∧
      (s₁.createTagData ⟨d.next, 1, t.1, t.2⟩).1.incrementNext d.next = some s₂ ∧
      s₂.write (after (.head i) pre) (some s.nodes.length) = some s' ∧
      s₁.nodes.length = s.nodes.length ∧
      Done s s' c i (pre ++ s.nodes.length :: rest)
        (pre.map s.view.tag ++ t :: rest.map s.view.tag) ∧
      s'.view.At (update c i (pre ++ s.nodes.length :: rest)) i (pre ++ [s.nodes.length]) rest ∧
      s'.lists.length = s.lists.length ∧
      ∀ next, d.next = some next → 2 ≤ s'.view.count next := by
  have hhere := h.here hat
  have hnext : d.next = s.ptr (.next cur) := by
    rw [ptr, hd]
    rfl
  have hcur : .next cur ∈ s.slots := hhere.node
  have hfresh : Slot.next s.nodes.length ∉ s.slots := next_length_notMem
  obtain ⟨v', hv'⟩ : ∃ v' : TagView, v' =
    { slots := insert (.next s.nodes.length) s.slots
      ptr := update (update s.ptr (.next s.nodes.length) (s.ptr (.next cur)))
        (after (.head i) pre) (some s.nodes.length)
      count := bump (s.ptr (.next cur))
        (update (update s.view.count cur (s.view.count cur - 1)) s.nodes.length 1)
      tag := update s.view.tag s.nodes.length t } := ⟨_, rfl⟩
  obtain ⟨hsound, hkeeps, htags⟩ := h.copyNode v' hat htwo hfresh
    (by rw [ht, tag_eq hd]) (by rw [hv']; rfl) (by rw [hv']; rfl) (by rw [hv']; rfl)
    (by rw [hv'])
  have hle := count_le hsound fun j hj => (hkeeps.heads j).1 hj
  have hin : ∀ {a}, s.ptr (.next cur) = some a → .next a ∈ s.slots := ptr_mem h hcur
  obtain ⟨s₁, hs₁, hview₁, hlen₁⟩ := decrement_spec hcur (by omega)
  have hslots₁ : s₁.slots = s.slots := congrArg TagView.slots hview₁
  have hptr₁ : s₁.ptr = s.ptr := congrArg TagView.ptr hview₁
  obtain ⟨s₂, hs₂⟩ : ∃ s₂, s₂ = (s₁.createTagData ⟨d.next, 1, t.1, t.2⟩).1 := ⟨_, rfl⟩
  have hview₂ : s₂.view =
      { slots := insert (.next s.nodes.length) s.slots
        ptr := update s.ptr (.next s.nodes.length) (s.ptr (.next cur))
        count := update (update s.view.count cur (s.view.count cur - 1)) s.nodes.length 1
        tag := update s.view.tag s.nodes.length t } := by
    rw [hs₂, view_createTagData, hlen₁, hslots₁, hptr₁, hnext, hview₁]
    rfl
  have hslots₂ : s₂.slots = insert (.next s.nodes.length) s.slots :=
    congrArg TagView.slots hview₂
  obtain ⟨s₃, hs₃, hview₃, -⟩ := incrementNext_spec (s := s₂) (v := d.next) (fun a ha => by
      rw [hslots₂]
      exact Finset.mem_insert_of_mem (hin (hnext ▸ ha))) fun a ha => by
    refine lt_of_le_of_lt ?_ hN
    have hbound := hle a (by
      rw [hv']
      exact Finset.mem_insert_of_mem (hin (hnext ▸ ha)))
    rw [hv'] at hbound
    rw [hview₂, hnext]
    exact hbound
  have hslots₃ : s₃.slots = s₂.slots := congrArg TagView.slots hview₃
  have hptr₃ : s₃.ptr = s₂.ptr := congrArg TagView.ptr hview₃
  obtain ⟨s', hs', hview', -⟩ := write_spec (s := s₃) (by
    rw [hslots₃, hslots₂]
    exact Finset.mem_insert_of_mem hhere.slot) (some s.nodes.length)
  have hptr₂ : s₂.ptr = update s.ptr (.next s.nodes.length) (s.ptr (.next cur)) :=
    congrArg TagView.ptr hview₂
  have hfinal : s'.view = v' := by
    rw [hview', hslots₃, hslots₂, hptr₃, hptr₂, hview₃, hview₂, hv', hnext]
  have hheads : ∀ j, .head j ∈ s'.slots ↔ .head j ∈ s.slots := fun j => by
    have hj := hkeeps.heads j
    rwa [← hfinal] at hj
  refine ⟨s₁, s₃, s', hs₁, by rw [← hs₂]; exact hs₃, hs', hlen₁, ⟨?_, ?_, ?_⟩, ⟨?_, ?_, ?_⟩, ?_,
    fun next heq => ?_⟩
  · rwa [hfinal]
  · rwa [hfinal]
  · rwa [hfinal]
  · exact (hheads i).2 hat.mem
  · rw [update_self, List.append_assoc]
    rfl
  · intro j hj hji a ha hmem
    rw [update_of_ne hji] at hmem
    have hjS := (hheads j).1 hj
    rcases List.mem_append.1 ha with ha | ha
    · exact hat.other j hjS hji a ha hmem
    · rw [List.mem_singleton.1 ha] at hmem
      exact hfresh ((h.forest.nodes _).2 ⟨j, hjS, hmem⟩)
  · exact length_lists_eq hheads
  · have hne : next ≠ cur := by
      rintro rfl
      have hchain := hhere.chain
      rw [hnext] at heq
      cases rest with
      | nil => exact absurd (hchain.symm.trans heq) (Option.some_ne_none _).symm
      | cons b rest =>
        obtain rfl : b = next := Option.some.inj (hchain.1.symm.trans heq)
        have hnodup := (List.nodup_append.1 hhere.nodup).2.1
        exact (List.nodup_cons.1 hnodup).1 List.mem_cons_self
    have hnextin := hin (hnext ▸ heq)
    have hnen : next ≠ s.nodes.length := fun heq' => hfresh (heq' ▸ hnextin)
    have hpos : 1 ≤ s.view.count next := by
      rw [h.counts next hnextin]
      exact Finset.card_pos.2 ⟨.next cur, Finset.mem_filter.2 ⟨hcur, hnext.symm.trans heq⟩⟩
    rw [hfinal, hv']
    change 2 ≤ bump _ (update (update _ _ _) _ _) next
    rw [bump_apply, ← hnext, if_pos heq, update_of_ne hnen, update_of_ne hne]
    omega

/-- The merge is moved down to the tag. -/
theorem copyUntil_spec (h : s.view.Sound c) (hat : s.view.At c i pre (q ++ cur :: rest))
    (hq : ∀ a ∈ q, (s.view.tag a).1 ≠ tid) (hcur : (s.view.tag cur).1 = tid)
    (htwo : ∀ a r, q ++ cur :: rest = a :: r → 2 ≤ s.view.count a)
    (hN : s.lists.length < 2 ^ 32) (hfuel : q.length < fuel) {m : ℕ}
    (hm : (q ++ cur :: rest).head? = some m) :
    ∃ s' pre', copyUntil tid fuel s (after (.head i) pre) m =
        some (s', after (.head i) pre', cur) ∧
      Done s s' c i (pre' ++ cur :: rest) ((c i).map s.view.tag) ∧
      s'.view.At (update c i (pre' ++ cur :: rest)) i pre' (cur :: rest) ∧
      2 ≤ s'.view.count cur ∧ s'.lists.length = s.lists.length ∧
      pre'.map s'.view.tag = (pre ++ q).map s.view.tag := by
  induction q generalizing s c pre fuel m with
  | nil =>
    obtain ⟨k, rfl⟩ := Nat.exists_eq_succ_of_ne_zero (Nat.ne_of_gt hfuel)
    obtain rfl : cur = m := Option.some.inj hm
    obtain ⟨d, hd, -, -, htag⟩ := exists_node (h.here hat).node
    have htid : d.tid = tid := (congrArg Prod.fst htag).trans hcur
    have heq : update c i (pre ++ cur :: rest) = c := update_eq_self_iff.2 hat.eq.symm
    refine ⟨s, pre, ?_, ⟨?_, .refl, by rw [hat.eq]; rfl⟩, ?_, htwo cur rest rfl, rfl, ?_⟩
    · rw [copyUntil, hd]
      simp only [Option.bind_eq_bind, Option.bind_some, htid, if_true]
    · rwa [heq]
    · rw [heq]
      exact hat
    · rw [List.append_nil]
  | cons a q ih =>
    obtain ⟨k, rfl⟩ := Nat.exists_eq_succ_of_ne_zero (Nat.ne_of_gt (Nat.zero_lt_of_lt hfuel))
    obtain rfl : a = m := Option.some.inj hm
    obtain ⟨ha, hq⟩ := List.forall_mem_cons.1 hq
    have hat : s.view.At c i pre (a :: (q ++ cur :: rest)) := hat
    have hhere := h.here hat
    obtain ⟨d, hd, hnext, -, htag⟩ := exists_node hhere.node
    have htid : d.tid ≠ tid := by
      rw [show d.tid = (s.view.tag a).1 from congrArg Prod.fst htag]
      exact ha
    obtain ⟨m', hm'⟩ : ∃ m', (q ++ cur :: rest).head? = some m' := by
      cases q with
      | nil => exact ⟨_, rfl⟩
      | cons b q => exact ⟨_, rfl⟩
    have hnext' : d.next = some m' := by
      have hchain := hhere.chain
      rw [hnext]
      cases hl : q ++ cur :: rest with
      | nil =>
        rw [hl] at hm'
        exact absurd hm'.symm (Option.some_ne_none m')
      | cons b r =>
        rw [hl] at hm' hchain
        obtain rfl : b = m' := Option.some.inj hm'
        exact hchain.1
    obtain ⟨s₁, s₂, s₃, hs₁, hs₂, hs₃, hlen, hdone, hat', hlists, hcount⟩ :=
      copyNode_spec (t := (d.tid, d.data)) h hat (htwo a _ rfl) hN hd rfl
    -- the tags of the nodes that follow are those they had
    have hkeep : ∀ b ∈ q ++ cur :: rest, s₃.view.tag b = s.view.tag b := by
      have htags := hdone.tags
      rw [List.map_append, List.map_cons] at htags
      have hlenq : (pre.map s₃.view.tag).length = (pre.map s.view.tag).length := by
        rw [List.length_map, List.length_map]
      have hcons := (List.append_inj htags hlenq).2
      exact List.map_inj_left.1 (List.cons.inj hcons).2
    obtain ⟨s', pre', heq, hdone', hat'', htwo', hlists', hpre'⟩ := ih hdone.sound hat'
      (fun b hb => by rw [hkeep b (List.mem_append_left _ hb)]; exact hq b hb)
      (by rw [hkeep cur (by simp)]; exact hcur)
      (fun b r hbr => hcount b (by
        rw [hbr] at hm'
        rw [hnext', ← hm']
        rfl))
      (by rw [hlists]; exact hN) (Nat.lt_of_succ_lt_succ hfuel) hm'
    rw [after_append_singleton] at heq
    refine ⟨s', pre', ?_, ?_, ?_, htwo', hlists'.trans hlists, ?_⟩
    · rw [copyUntil, hd]
      simp only [Option.bind_eq_bind, Option.bind_some, htid, if_false, hs₁]
      rw [hnext'] at hs₂
      simp only [hnext', Option.bind_some]
      rw [show (s₁.createTagData ⟨some m', 1, d.tid, d.data⟩).1.increment m' = some s₂ from hs₂]
      simp only [Option.bind_some]
      rw [show (s₁.createTagData ⟨some m', 1, d.tid, d.data⟩).2 = s.nodes.length from hlen, hs₃]
      exact heq
    · have htags : (c i).map s.view.tag = (update c i (pre ++ s.nodes.length :: (q ++ cur :: rest))
          i).map s₃.view.tag := by
        rw [update_self, hdone.tags, hat.eq, List.map_append, List.map_cons, htag]
      rw [htags]
      exact hdone.trans hdone'
    · rwa [update_idem] at hat''
    · have htags := hdone.tags
      rw [List.map_append, List.map_cons] at htags
      have hlenq : (pre.map s₃.view.tag).length = (pre.map s.view.tag).length := by
        rw [List.length_map, List.length_map]
      obtain ⟨hpre, hcons⟩ := List.append_inj htags hlenq
      rw [hpre', List.map_append, List.map_append, hpre, List.map_singleton,
        (List.cons.inj hcons).1, htag, List.map_append, List.map_cons, List.append_assoc]
      rw [List.map_congr_left fun b hb => hkeep b (List.mem_append_left _ hb)]
      rfl

/-! ## Copy on write -/

/-- A tag that is not there. -/
theorem cowTraverse_absent {ρ : Type}
    (writer : TagLists → Bool → ℕ → Slot ℕ ℕ → Option (TagLists × ρ)) (h : s.view.Sound c)
    (hi : .head i ∈ s.slots) (hc : ∀ a ∈ c i, (s.view.tag a).1 ≠ tid) :
    s.cowTraverse i tid writer = some (s, none) := by
  have hchain : IsChain s.ptr (.head i) (c i) := h.forest.chain i hi
  have hin : ∀ a ∈ c i, .next a ∈ s.slots := fun a ha => (h.forest.nodes a).2 ⟨i, hi, ha⟩
  have hfuel := Nat.lt_succ_of_le (length_le hchain hin)
  rw [cowTraverse, lists_eq (head_mem_slots.1 hi)]
  simp only [Option.bind_eq_bind, Option.bind_some]
  rcases search_spec tid hchain hin hfuel with
    ⟨hended, -⟩ | ⟨q, cur, r, hl, -, ⟨-, -, htid⟩ | ⟨hmerge, -⟩⟩
  · rw [hended]
    rfl
  · exact absurd htid (hc cur (by rw [hl]; simp))
  · have hdrop : IsChain s.ptr (after (.head i) q) (cur :: r) := by
      rw [hl] at hchain
      exact hchain.drop
    have hin' : ∀ a ∈ cur :: r, .next a ∈ s.slots := fun a ha =>
      hin a (by rw [hl]; exact List.mem_append_right _ ha)
    have hfind := find_spec tid hdrop hin' (Nat.lt_succ_of_le (length_le hdrop hin'))
    have hnone : ((cur :: r).find? fun a => (s.view.tag a).1 = tid) = none :=
      List.find?_eq_none.2 fun a ha htid =>
        hc a (by rw [hl]; exact List.mem_append_right _ ha) (of_decide_eq_true htid)
    rw [hdrop.1, hnone] at hfind
    rw [hmerge]
    simp only [Option.bind_some, hfind]

/-- A tag that is there is written where it is, or behind the copies of what was shared before
it. -/
theorem cowTraverse_present {ρ : Type}
    (writer : TagLists → Bool → ℕ → Slot ℕ ℕ → Option (TagLists × ρ)) (h : s.view.Sound c)
    (hi : .head i ∈ s.slots) (hN : s.lists.length < 2 ^ 32) (hc : c i = pre ++ cur :: rest)
    (hpre : ∀ a ∈ pre, (s.view.tag a).1 ≠ tid) (hcur : (s.view.tag cur).1 = tid) :
    ((∀ a ∈ pre ++ [cur], s.view.count a ≤ 1) ∧ s.cowTraverse i tid writer =
      (writer s true cur (after (.head i) pre)).map fun r => (r.1, some r.2)) ∨
    ∃ s' pre', Done s s' c i (pre' ++ cur :: rest) ((c i).map s.view.tag) ∧
      s'.view.At (update c i (pre' ++ cur :: rest)) i pre' (cur :: rest) ∧
      2 ≤ s'.view.count cur ∧ s'.lists.length = s.lists.length ∧
      pre'.map s'.view.tag = pre.map s.view.tag ∧
      s.cowTraverse i tid writer =
        (writer s' false cur (after (.head i) pre')).map fun r => (r.1, some r.2) := by
  have hchain : IsChain s.ptr (.head i) (c i) := h.forest.chain i hi
  have hin : ∀ a ∈ c i, .next a ∈ s.slots := fun a ha => (h.forest.nodes a).2 ⟨i, hi, ha⟩
  have hlen := length_le hchain hin
  have hrefs : ∀ a ∈ c i, s.view.count a = SharedLists.refs s.slots s.ptr a := fun a ha =>
    h.counts a (hin a ha)
  -- no other node of the list has the type
  have huniq : ∀ a ∈ c i, (s.view.tag a).1 = tid → a = cur := by
    intro a ha htid
    have hkeys := h.keys i hi
    rw [List.map_map] at hkeys
    exact List.inj_on_of_nodup_map hkeys ha (by rw [hc]; simp) (htid.trans hcur.symm)
  rw [cowTraverse, lists_eq (head_mem_slots.1 hi)]
  simp only [Option.bind_eq_bind, Option.bind_some]
  rcases search_spec tid hchain hin (Nat.lt_succ_of_le hlen) with
    ⟨-, hall⟩ | ⟨q, m, r, hl, hq, ⟨hfound, hone, htid⟩ | ⟨hmerge, htwo⟩⟩
  · exact absurd hcur (hall cur (by rw [hc]; simp))
  · obtain rfl := huniq m (by rw [hl]; simp) htid
    obtain rfl : q = pre := h.forest.pred_eq hi hl hc
    refine Or.inl ⟨fun a ha => ?_, ?_⟩
    · rcases List.mem_append.1 ha with ha | ha
      · exact (hq a ha).1
      · rwa [List.mem_singleton.1 ha]
    · rw [hfound]
      simp only [Option.bind_some]
      cases writer s true m (after (.head i) q) <;> rfl
  · refine Or.inr ?_
    have hmem : cur ∈ q ++ m :: r := by
      rw [← hl, hc]
      simp
    have hcurq : cur ∉ q := fun hin => (hq cur hin).2 hcur
    obtain ⟨x, y, hxy⟩ : ∃ x y, m :: r = x ++ cur :: y :=
      List.append_of_mem ((List.mem_append.1 hmem).resolve_left hcurq)
    have hqx : q ++ x = pre :=
      h.forest.pred_eq hi (by rw [hl, hxy, List.append_assoc]) hc
    have hy : y = rest := by
      have heq : q ++ x ++ cur :: y = pre ++ cur :: rest := by
        rw [← hc, hl, hxy, List.append_assoc]
      rw [hqx] at heq
      exact (List.cons.inj (List.append_cancel_left heq)).2
    subst hy hqx
    have hat : s.view.At c i q (x ++ cur :: y) := by
      refine ⟨hi, by rw [hl, hxy], fun j hj hji => ?_⟩
      refine h.forest.not_mem_other hi hl (fun a ha => ?_) hj hji
      rw [← h.counts a (hin a (by rw [hl]; exact List.mem_append_left _ ha))]
      exact (hq a ha).1
    have hdrop : IsChain s.ptr (after (.head i) q) (m :: r) := by
      rw [hl] at hchain
      exact hchain.drop
    have hin' : ∀ a ∈ m :: r, .next a ∈ s.slots := fun a ha =>
      hin a (by rw [hl]; exact List.mem_append_right _ ha)
    have hfind := find_spec tid hdrop hin' (Nat.lt_succ_of_le (length_le hdrop hin'))
    obtain ⟨b, hb⟩ : ∃ b, ((m :: r).find? fun a => (s.view.tag a).1 = tid) = some b := by
      rw [← Option.isSome_iff_exists, List.find?_isSome]
      exact ⟨cur, by rw [hxy]; simp, decide_eq_true hcur⟩
    rw [hdrop.1, hb] at hfind
    have hxlen : x.length < s.nodes.length + 1 := by
      rw [hl, hxy, List.length_append, List.length_append] at hlen
      omega
    obtain ⟨s', pre', hcopy, hdone, hat', htwo', hlists, hpre'⟩ := copyUntil_spec h hat
      (fun a ha => hpre a (List.mem_append_right _ ha)) hcur
      (fun a l heq => by
        obtain ⟨rfl, -⟩ := List.cons.inj (hxy.trans heq)
        exact htwo) hN hxlen (m := m) (by rw [← hxy]; rfl)
    refine ⟨s', pre', hdone, hat', htwo', hlists, hpre', ?_⟩
    rw [hmerge]
    simp only [Option.bind_some, hfind, hcopy]
    cases writer s' false cur (after (.head i) pre') <;> rfl

/-! ## Writers -/

/-- The place of a tag in a list, with nodes before it and at it that are not shared. -/
theorem at_of_counts (pre : List ℕ) (h : s.view.Sound c) (hi : .head i ∈ s.slots)
    (hc : c i = pre ++ cur :: rest) (hone : ∀ a ∈ pre ++ [cur], s.view.count a ≤ 1) :
    s.view.At c i pre (cur :: rest) ∧
      ∀ j, .head j ∈ s.view.slots → j ≠ i → cur ∉ c j := by
  have hc' : c i = (pre ++ [cur]) ++ rest := by
    rw [hc, List.append_assoc]
    rfl
  have hother : ∀ j, .head j ∈ s.slots → j ≠ i → ∀ a ∈ pre ++ [cur], a ∉ c j := by
    intro j hj hji
    refine h.forest.not_mem_other hi hc' (fun a ha => ?_) hj hji
    rw [← h.counts a ((h.forest.nodes a).2 ⟨i, hi, by rw [hc']; exact List.mem_append_left _ ha⟩)]
    exact hone a ha
  refine ⟨⟨hi, hc, fun j hj hji a ha => ?_⟩, fun j hj hji => ?_⟩
  · exact hother j hj hji a (List.mem_append_left _ ha)
  · exact hother j hj hji cur (List.mem_append_right _ List.mem_cons_self)

theorem removeWriter_true (h : s.view.Sound c) (hat : s.view.At c i pre (cur :: rest))
    (hother : ∀ j, .head j ∈ s.view.slots → j ≠ i → cur ∉ c j) :
    ∃ s', removeWriter s true cur (after (.head i) pre) = some (s', (s.view.tag cur).2) ∧
      Done s s' c i (pre ++ rest) (pre.map s.view.tag ++ rest.map s.view.tag) := by
  have hhere := h.here hat
  obtain ⟨d, hd, hnext, -, htag⟩ := exists_node hhere.node
  obtain ⟨s₁, hs₁, hview₁, -⟩ := write_spec hhere.slot d.next
  have hslots₁ : s₁.slots = s.slots := congrArg TagView.slots hview₁
  have hptr₁ : s₁.ptr = update s.ptr (after (.head i) pre) d.next := congrArg TagView.ptr hview₁
  have hview : (s₁.free cur).view = _ := view_free
  rw [hslots₁, hptr₁, hview₁, hnext] at hview
  obtain ⟨hsound, hkeeps, htags⟩ := h.unlinkFree (s₁.free cur).view hat hother
    (by rw [hview]; rfl) (by rw [hview]; rfl) (by rw [hview]) (by rw [hview])
  refine ⟨s₁.free cur, ?_, hsound, hkeeps, htags⟩
  rw [removeWriter, hd, ← htag]
  simp only [Option.bind_eq_bind, Option.bind_some, hs₁, if_true]

theorem removeWriter_false (h : s.view.Sound c) (hat : s.view.At c i pre (cur :: rest))
    (htwo : 2 ≤ s.view.count cur) (hN : s.lists.length < 2 ^ 32) :
    ∃ s', removeWriter s false cur (after (.head i) pre) = some (s', (s.view.tag cur).2) ∧
      Done s s' c i (pre ++ rest) (pre.map s.view.tag ++ rest.map s.view.tag) := by
  have hhere := h.here hat
  obtain ⟨d, hd, hnext, -, htag⟩ := exists_node hhere.node
  obtain ⟨v', hv'⟩ : ∃ v' : TagView, v' =
    { slots := s.slots
      ptr := update s.ptr (after (.head i) pre) (s.ptr (.next cur))
      count := bump (s.ptr (.next cur)) (update s.view.count cur (s.view.count cur - 1))
      tag := s.view.tag } := ⟨_, rfl⟩
  obtain ⟨hsound, hkeeps, htags⟩ := h.unlinkShared v' hat htwo (by rw [hv']; rfl)
    (by rw [hv']; rfl) (by rw [hv']; rfl) (by rw [hv'])
  obtain ⟨s₁, hs₁, hview₁, -⟩ := write_spec hhere.slot d.next
  have hslots₁ : s₁.slots = s.slots := congrArg TagView.slots hview₁
  have hcount₁ : s₁.view.count = s.view.count := by rw [hview₁]
  obtain ⟨s₂, hs₂, hview₂, -⟩ := decrement_spec (s := s₁) (a := cur)
    (by rw [hslots₁]; exact hhere.node) (by rw [hcount₁]; omega)
  have hslots₂ : s₂.slots = s.slots := (congrArg TagView.slots hview₂).trans hslots₁
  obtain ⟨s₃, hs₃, hview₃, -⟩ := incrementNext_spec (s := s₂) (v := d.next) (fun a ha => by
      rw [hslots₂]
      exact ptr_mem h hhere.node (hnext ▸ ha)) fun a ha => by
    refine lt_of_le_of_lt ?_ hN
    have hbound := count_le hsound (fun j hj => (hkeeps.heads j).1 hj) a (by
      rw [hv']
      exact ptr_mem h hhere.node (hnext ▸ ha))
    rw [hv'] at hbound
    rw [hview₂, hcount₁, hnext]
    exact hbound
  have hfinal : s₃.view = v' := by
    have hptr₁ : s₁.ptr = update s.ptr (after (.head i) pre) d.next :=
      congrArg TagView.ptr hview₁
    have hptr₂ : s₂.ptr = s₁.ptr := congrArg TagView.ptr hview₂
    rw [hview₃, hslots₂, hptr₂, hptr₁, hview₂, hcount₁, hview₁, hv', hnext]
  refine ⟨s₃, ?_, ?_, ?_, ?_⟩
  · rw [removeWriter, hd, ← htag]
    simp only [Option.bind_eq_bind, Option.bind_some, hs₁, hs₂, hs₃]
    rfl
  · rwa [hfinal]
  · rwa [hfinal]
  · rwa [hfinal]

theorem replaceWriter_true {tag : SerializedTag} (h : s.view.Sound c)
    (hat : s.view.At c i pre (cur :: rest))
    (hother : ∀ j, .head j ∈ s.view.slots → j ≠ i → cur ∉ c j)
    (htid : (s.view.tag cur).1 = tag.tid)
    (hsize : (s.view.tag cur).2.length = tag.data.length) :
    ∃ s', replaceWriter tag s true cur (after (.head i) pre) = some (s', ()) ∧
      Done s s' c i (pre ++ cur :: rest)
        (pre.map s.view.tag ++ (tag.tid, tag.data) :: rest.map s.view.tag) := by
  have hhere := h.here hat
  obtain ⟨d, hd, hnext, hcount, htag⟩ := exists_node hhere.node
  rw [← htag] at htid hsize
  have hview := view_setNode (s := s) (a := cur) (d := { d with data := tag.data }) hhere.node
  obtain ⟨hsound, hkeeps, htags⟩ := h.setTag (s.setNode cur { d with data := tag.data }).view
    (t := (tag.tid, tag.data)) hat hother (by rw [← htag]; exact htid.symm) (by rw [hview]; rfl)
    (by rw [hview]; exact update_eq_self_iff.2 hnext)
    (by rw [hview]; exact update_eq_self_iff.2 hcount)
    (by rw [hview, ← htid])
  refine ⟨s.setNode cur { d with data := tag.data }, ?_, hsound, hkeeps, htags⟩
  have hinto : serializeInto tag.data d.data = some tag.data := by
    rw [serializeInto, if_pos (Nat.le_of_eq hsize.symm),
      List.drop_eq_nil_of_le (Nat.le_of_eq hsize), List.append_nil]
  rw [replaceWriter, hd]
  simp only [Option.bind_eq_bind, Option.bind_some, hinto, if_true]

theorem replaceWriter_false {tag : SerializedTag} (h : s.view.Sound c)
    (hat : s.view.At c i pre (cur :: rest)) (htwo : 2 ≤ s.view.count cur)
    (hN : s.lists.length < 2 ^ 32) (htid : (s.view.tag cur).1 = tag.tid) :
    ∃ s' l', replaceWriter tag s false cur (after (.head i) pre) = some (s', ()) ∧
      Done s s' c i l' (pre.map s.view.tag ++ (tag.tid, tag.data) :: rest.map s.view.tag) := by
  obtain ⟨d, hd, hnext, -, htag⟩ := exists_node (h.here hat).node
  rw [← htag] at htid
  obtain ⟨s₁, s₂, s', hs₁, hs₂, hs', hlen, hdone, -⟩ :=
    copyNode_spec (t := (tag.tid, tag.data)) h hat htwo hN hd htid.symm
  refine ⟨s', _, ?_, hdone⟩
  rw [replaceWriter, hd]
  simp only [Option.bind_eq_bind, Option.bind_some, hs₁, hs₂]
  rw [show (s₁.createTagData ⟨d.next, 1, tag.tid, tag.data⟩).2 = s.nodes.length from hlen, hs']
  rfl

/-! ## Adding and removing -/

theorem add_spec {tag : SerializedTag} (h : s.view.Sound c) (hi : .head i ∈ s.slots)
    (hc : ∀ a ∈ c i, (s.view.tag a).1 ≠ tag.tid) :
    ∃ s' l', s.add i tag = some s' ∧
      Done s s' c i l' ((tag.tid, tag.data) :: (c i).map s.view.tag) := by
  have hchain : IsChain s.ptr (.head i) (c i) := h.forest.chain i hi
  have hin : ∀ a ∈ c i, .next a ∈ s.slots := fun a ha => (h.forest.nodes a).2 ⟨i, hi, ha⟩
  have hfind := find_spec tag.tid hchain hin (Nat.lt_succ_of_le (length_le hchain hin))
  have hnone : ((c i).find? fun a => (s.view.tag a).1 = tag.tid) = none :=
    List.find?_eq_none.2 fun a ha htid => hc a ha (of_decide_eq_true htid)
  rw [hnone] at hfind
  obtain ⟨s₁, hs₁⟩ : ∃ s₁, s₁ = (s.createTagData ⟨s.ptr (.head i), 1, tag.tid, tag.data⟩).1 :=
    ⟨_, rfl⟩
  have hview₁ : s₁.view =
      { slots := insert (.next s.nodes.length) s.slots
        ptr := update s.ptr (.next s.nodes.length) (s.ptr (.head i))
        count := update s.view.count s.nodes.length 1
        tag := update s.view.tag s.nodes.length (tag.tid, tag.data) } :=
    hs₁ ▸ view_createTagData
  have hslots₁ : s₁.slots = insert (.next s.nodes.length) s.slots :=
    congrArg TagView.slots hview₁
  have hptr₁ : s₁.ptr = update s.ptr (.next s.nodes.length) (s.ptr (.head i)) :=
    congrArg TagView.ptr hview₁
  have hview := view_setList (s := s₁) (i := i) (v := some s.nodes.length) (by
    rw [hslots₁]
    exact Finset.mem_insert_of_mem hi)
  rw [hslots₁, hptr₁, hview₁] at hview
  have hkey : tag.tid ∉ ((c i).map s.view.tag).map Prod.fst := by
    intro hmem
    obtain ⟨t, ht, heq⟩ := List.mem_map.1 hmem
    obtain ⟨a, ha, rfl⟩ := List.mem_map.1 ht
    exact hc a ha heq
  obtain ⟨hsound, hkeeps, htags⟩ := h.push (s₁.setList i (some s.nodes.length)).view
    (t := (tag.tid, tag.data)) hi next_length_notMem hkey (by rw [hview]; rfl)
    (by rw [hview]; rfl) (by rw [hview]) (by rw [hview])
  refine ⟨s₁.setList i (some s.nodes.length), _, ?_, hsound, hkeeps, htags⟩
  rw [add, lists_eq (head_mem_slots.1 hi)]
  simp only [Option.bind_eq_bind, Option.bind_some, hfind]
  rw [hs₁]
  rfl

/-- The list lets go of a shared node to which its head would point. -/
theorem release_spec {d d' : TagData} (hi : .head i ∈ s.slots)
    (h : (s.setList i (some cur)).view.Sound c) (hc : c i = cur :: l) (hd : s.node cur = some d)
    (htwo : 2 ≤ d.count.toNat) (hd' : d' = { d with count := d.count - 1 }) :
    Done (s.setList i (some cur)) ((s.setNode cur d').setList i none) c i [] [] := by
  have hview : (s.setList i (some cur)).view = ⟨s.slots, update s.ptr (.head i) (some cur),
      s.view.count, s.view.tag⟩ := view_setList hi
  have hnext : d'.next = s.ptr (.next cur) := by
    rw [hd', ptr, hd]
    rfl
  have hcount : d'.count.toNat = s.view.count cur - 1 := by
    rw [hd', count_eq hd]
    exact UInt32.toNat_sub_of_le _ _ (UInt32.le_iff_toNat_le.2 (Nat.le_of_succ_le htwo))
  have htag : (d'.tid, d'.data) = s.view.tag cur := by rw [hd', tag_eq hd]
  have hset : (s.setNode cur d').view = ⟨s.slots, s.ptr,
      update s.view.count cur (s.view.count cur - 1), s.view.tag⟩ := by
    rw [view_setNode (next_mem_slots.2 ⟨d, hd⟩), hcount]
    exact TagView.ext rfl (update_eq_self_iff.2 hnext) rfl (update_eq_self_iff.2 htag)
  have hslots : (s.setNode cur d').slots = s.slots := congrArg TagView.slots hset
  have hptr : (s.setNode cur d').ptr = s.ptr := congrArg TagView.ptr hset
  have hlast := view_setList (s := s.setNode cur d') (i := i) (v := none) (by rwa [hslots])
  rw [hslots, hptr, hset] at hlast
  have hi₁ : .head i ∈ (s.setList i (some cur)).view.slots := by
    rw [hview]
    exact hi
  have htwo' : 2 ≤ (s.setList i (some cur)).view.count cur := by
    rw [hview]
    exact (count_eq hd).symm ▸ htwo
  obtain ⟨hsound, hkeeps⟩ := h.release ((s.setNode cur d').setList i none).view hi₁ hc
    htwo' (by rw [hlast, hview]) (by rw [hlast, hview, update_idem]) (by rw [hlast, hview])
    (by rw [hlast, hview])
  exact ⟨hsound, hkeeps, rfl⟩

/-- A node of its own to which the head would point is freed. -/
theorem free_spec {d : TagData} (hi : .head i ∈ s.slots)
    (h : (s.setList i (some cur)).view.Sound c) (hc : c i = cur :: l) (hd : s.node cur = some d)
    (hone : d.count.toNat ≤ 1) :
    Done (s.setList i (some cur)) ((s.free cur).setList i d.next) c i l (l.map s.view.tag) := by
  have hview : (s.setList i (some cur)).view = ⟨s.slots, update s.ptr (.head i) (some cur),
      s.view.count, s.view.tag⟩ := view_setList hi
  have hnext : d.next = s.ptr (.next cur) := by
    rw [ptr, hd]
    rfl
  have hfree : (s.free cur).view = ⟨s.slots.erase (.next cur), update s.ptr (.next cur) none,
      update s.view.count cur 0, update s.view.tag cur (0, [])⟩ := view_free
  have hslots : (s.free cur).slots = s.slots.erase (.next cur) := congrArg TagView.slots hfree
  have hptr : (s.free cur).ptr = update s.ptr (.next cur) none := congrArg TagView.ptr hfree
  have hheadne : Slot.head i ≠ .next cur := by
    intro heq
    cases heq
  have hlast := view_setList (s := s.free cur) (i := i) (v := d.next) (by
    rw [hslots]
    exact Finset.mem_erase.2 ⟨hheadne, hi⟩)
  rw [hslots, hptr, hfree] at hlast
  have hi₁ : .head i ∈ (s.setList i (some cur)).slots := by
    change .head i ∈ (s.setList i (some cur)).view.slots
    rw [hview]
    exact hi
  obtain ⟨hat, hother⟩ := at_of_counts [] h hi₁ hc (by
    intro a ha
    rw [List.mem_singleton.1 ha, hview]
    exact (count_eq hd).symm ▸ hone)
  obtain ⟨hsound, hkeeps, htags⟩ := h.unlinkFree
    ((s.free cur).setList i d.next).view hat hother (by rw [hlast, hview])
    (by
      rw [hlast, hview, hnext]
      change _ = update (update (update s.ptr (.head i) (some cur)) (.head i)
        (update s.ptr (.head i) (some cur) (.next cur))) (.next cur) none
      rw [update_idem, update_comm hheadne, update_of_ne hheadne.symm])
    (by rw [hlast, hview]) (by rw [hlast, hview])
  refine ⟨hsound, hkeeps, htags.trans ?_⟩
  rw [hview]
  rfl

theorem removeAllLoop_spec (prev v : Option ℕ)
    (hi : i < s.lists.length) (h : ((s.freePrev prev).setList i v).view.Sound c)
    (hfuel : (c i).length < fuel) : ∃ s', removeAllLoop fuel s prev v = some s' ∧
      Done ((s.freePrev prev).setList i v) (s'.setList i none) c i [] [] ∧
      s'.lists = s.lists := by
  induction fuel generalizing s prev v c with
  | zero => exact absurd hfuel (Nat.not_lt_zero _)
  | succ k ih =>
    obtain ⟨s₀, hs₀⟩ : ∃ s₀, s₀ = s.freePrev prev := ⟨_, rfl⟩
    have hlists : s₀.lists = s.lists := by
      rw [hs₀]
      cases prev <;> rfl
    have hi₀ : .head i ∈ s₀.slots := head_mem_slots.2 (by rwa [hlists])
    rw [← hs₀] at h ⊢
    have hview := view_setList (v := v) hi₀
    have hi₁ : .head i ∈ (s₀.setList i v).view.slots := by
      rw [hview]
      exact hi₀
    have hchain := h.forest.chain i hi₁
    have hhead : (s₀.setList i v).view.ptr (.head i) = v := by
      rw [hview]
      exact update_self _ _ _
    cases hc : c i with
    | nil =>
      rw [hc] at hchain
      obtain rfl : v = none := hhead.symm.trans hchain
      have heq : update c i [] = c := update_eq_self_iff.2 hc.symm
      refine ⟨s₀, by rw [removeAllLoop, hs₀], ⟨?_, .refl, rfl⟩, hlists⟩
      rwa [heq]
    | cons cur l =>
      rw [hc] at hchain hfuel
      obtain rfl : v = some cur := hhead.symm.trans hchain.1
      have hcur₁ := (h.forest.nodes cur).2 ⟨i, hi₁, by rw [hc]; exact List.mem_cons_self⟩
      rw [hview] at hcur₁
      obtain ⟨d, hd⟩ := next_mem_slots.1 hcur₁
      -- the node before is another one, and its free comes after the write to this one
      have hprev : prev ≠ some cur := by
        rintro rfl
        rw [hs₀] at hd
        change (s.free cur).node cur = some d at hd
        rw [node_free, if_pos rfl] at hd
        exact absurd hd.symm (Option.some_ne_none d)
      have hds : s.node cur = some d := by
        rw [← hd, hs₀]
        cases prev with
        | none => rfl
        | some p =>
          change _ = (s.free p).node cur
          rw [node_free, if_neg fun heq => hprev (congrArg _ heq.symm)]
      obtain ⟨d', hd'⟩ : ∃ d' : TagData, d' = { d with count := d.count - 1 } := ⟨_, rfl⟩
      have hcomm : (s.setNode cur d').freePrev prev = s₀.setNode cur d' := by
        rw [hs₀]
        cases prev with
        | none => rfl
        | some p => exact setNode_free_comm fun heq => hprev (congrArg _ heq.symm)
      have hset : (s.setNode cur d').node cur = some d' := by
        rw [node_setNode ⟨d, hds⟩, if_pos rfl]
      have hpos : 1 ≤ d.count.toNat := by
        have hrefs := h.counts cur (by rw [hview]; exact hcur₁)
        rw [← count_eq hd]
        rw [hview] at hrefs hhead hi₁
        rw [hrefs]
        exact Finset.card_pos.2 ⟨.head i, Finset.mem_filter.2 ⟨hi₁, hhead⟩⟩
      have hcount : d'.count.toNat = d.count.toNat - 1 := by
        rw [hd']
        exact UInt32.toNat_sub_of_le _ _ (UInt32.le_iff_toNat_le.2 hpos)
      rw [removeAllLoop, decrement, hds]
      simp only [Option.map_some, Option.bind_eq_bind, Option.bind_some]
      rw [← hd', hset]
      simp only [Option.bind_some]
      by_cases hgt : d'.count > 0
      · have hlt : 0 < d'.count.toNat := hgt
        rw [if_pos hgt, hcomm]
        exact ⟨_, rfl, release_spec hi₀ h hc hd (by omega) hd', hlists⟩
      · have hle : ¬0 < d'.count.toNat := hgt
        have hdone := free_spec hi₀ h hc hd (by omega)
        have hfree : (s₀.setNode cur d').freePrev (some cur) = s₀.free cur := setNode_free
        rw [if_neg hgt, hcomm]
        rw [show d'.next = d.next by rw [hd']]
        obtain ⟨s', heq, hdone', hlists'⟩ := ih (s := s₀.setNode cur d') (some cur)
          d.next (by rw [show (s₀.setNode cur d').lists = s.lists from hlists]; exact hi)
          (by rw [hfree]; exact hdone.sound)
          (by rw [update_self]; exact Nat.lt_of_succ_lt_succ hfuel)
        rw [hfree] at hdone'
        exact ⟨s', heq, hdone.trans hdone', hlists'.trans hlists⟩

theorem removeAll_spec (h : s.view.Sound c) (hi : .head i ∈ s.slots) :
    ∃ s', s.removeAll i = some s' ∧ Done s s' c i [] [] := by
  have hlt := head_mem_slots.1 hi
  have hchain : IsChain s.ptr (.head i) (c i) := h.forest.chain i hi
  have hin : ∀ a ∈ c i, .next a ∈ s.slots := fun a ha => (h.forest.nodes a).2 ⟨i, hi, ha⟩
  have hsame : s.setList i (s.ptr (.head i)) = s := by
    have heq := lists_eq hlt
    rw [List.getElem?_eq_getElem hlt] at heq
    rw [setList, ← Option.some.inj heq, List.set_getElem_self]
  obtain ⟨s', heq, hdone, -⟩ := removeAllLoop_spec none (s.ptr (.head i)) hlt
    (by
      change (s.setList i (s.ptr (.head i))).view.Sound c
      rwa [hsame]) (Nat.lt_succ_of_le (length_le hchain hin))
  change Done (s.setList i (s.ptr (.head i))) _ _ _ _ _ at hdone
  rw [hsame] at hdone
  refine ⟨s'.setList i none, ?_, hdone⟩
  rw [removeAll, lists_eq hlt]
  simp only [Option.bind_eq_bind, Option.bind_some, heq]

end Ns3Pedca.TagLists
