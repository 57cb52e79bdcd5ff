import Ns3Pedca.Network.PacketTagList

/-!
# The nodes of the tag lists

Each function of a `PacketTagList` writes pointers and counts one after the other. `TagView` is
what the memory holds, as functions of the slots and of the nodes, and every write is the update of
one of them. The lists are sound (`TagView.Sound`) if their nodes are the ones in memory, every
count is the number of slots that point to its node, and no list has two tags of one type. The
lemmas of this module tell how a change of one list keeps that.
-/

namespace Ns3Pedca

open SharedLists Function

/-- What the memory holds. -/
@[ext]
structure TagView where
  slots : Finset (Slot ℕ ℕ)
  ptr : Slot ℕ ℕ → Option ℕ
  count : ℕ → ℕ
  tag : ℕ → TypeId × List UInt8

namespace TagLists

variable {s : TagLists} {a b i : ℕ} {d : TagData} {sl : Slot ℕ ℕ}

/-- The heads of the lists, and the nodes that were not freed. -/
def slots (s : TagLists) : Finset (Slot ℕ ℕ) :=
  (Finset.range s.lists.length).image .head ∪
    ((Finset.range s.nodes.length).filter fun a => (s.node a).isSome).image .next

/-- The number of heads and nodes that point to a node. -/
def refs (s : TagLists) (a : ℕ) : ℕ :=
  SharedLists.refs s.slots s.ptr a

def view (s : TagLists) : TagView where
  slots := s.slots
  ptr := s.ptr
  count a := (s.node a).elim 0 fun d => d.count.toNat
  tag a := (s.node a).elim (0, []) fun d => (d.tid, d.data)

theorem lt_of_node (h : s.node a = some d) : a < s.nodes.length := by
  by_contra hn
  rw [node, List.getElem?_eq_none (Nat.not_lt.1 hn)] at h
  exact absurd h.symm (Option.some_ne_none d)

@[simp] theorem head_mem_slots : .head i ∈ s.slots ↔ i < s.lists.length := by
  simp [slots]

@[simp] theorem next_mem_slots : .next a ∈ s.slots ↔ ∃ d, s.node a = some d := by
  simp only [slots, Finset.mem_union, Finset.mem_image, Finset.mem_filter, Finset.mem_range,
    reduceCtorEq, and_false, exists_false, false_or, Slot.next.injEq, exists_eq_right,
    Option.isSome_iff_exists]
  exact and_iff_right_of_imp fun ⟨d, hd⟩ => lt_of_node hd

theorem lists_eq (hi : i < s.lists.length) : s.lists[i]? = some (s.ptr (.head i)) := by
  rw [ptr, List.getElem?_eq_getElem hi]
  rfl

/-! ## Writes -/

theorem node_setNode (h : ∃ d, s.node a = some d) :
    (s.setNode a d).node b = if b = a then some d else s.node b := by
  obtain ⟨d', hd'⟩ := h
  rw [node, setNode, List.getElem?_set]
  by_cases hb : b = a
  · rw [if_pos hb.symm, if_pos (lt_of_node hd'), if_pos hb]
    rfl
  · rw [if_neg (Ne.symm hb), if_neg hb]
    rfl

theorem node_free : (s.free a).node b = if b = a then none else s.node b := by
  rw [node, free, List.getElem?_set]
  by_cases hb : b = a
  · rw [if_pos hb.symm, if_pos hb]
    split_ifs <;> rfl
  · rw [if_neg (Ne.symm hb), if_neg hb]
    rfl

theorem node_createTagData :
    (s.createTagData d).1.node b = if b = s.nodes.length then some d else s.node b := by
  rw [node, createTagData]
  rcases Nat.lt_trichotomy b s.nodes.length with hlt | rfl | hgt
  · rw [List.getElem?_append_left hlt, if_neg (Nat.ne_of_lt hlt)]
    rfl
  · rw [List.getElem?_concat_length, if_pos rfl]
    rfl
  · rw [if_neg (Nat.ne_of_gt hgt), node, List.getElem?_eq_none (Nat.le_of_lt hgt),
      List.getElem?_eq_none (by rw [List.length_append, List.length_singleton]; omega)]

theorem count_eq (h : s.node a = some d) : s.view.count a = d.count.toNat := by
  simp [view, h]

theorem tag_eq (h : s.node a = some d) : s.view.tag a = (d.tid, d.data) := by
  simp [view, h]

theorem view_eq {v : TagView} (hheads : ∀ i, .head i ∈ v.slots ↔ i < s.lists.length)
    (hptr : ∀ i, v.ptr (.head i) = s.ptr (.head i))
    (hnode : ∀ b, (.next b ∈ v.slots ↔ ∃ d, s.node b = some d) ∧
      v.ptr (.next b) = (s.node b).bind TagData.next ∧
      v.count b = ((s.node b).elim 0 fun d => d.count.toNat) ∧
      v.tag b = (s.node b).elim (0, []) fun d => (d.tid, d.data)) : s.view = v := by
  refine TagView.ext (Finset.ext fun sl => ?_) (funext fun sl => ?_)
    (funext fun b => (hnode b).2.2.1.symm) (funext fun b => (hnode b).2.2.2.symm)
  · cases sl with
    | head i => exact head_mem_slots.trans (hheads i).symm
    | next b => exact next_mem_slots.trans (hnode b).1.symm
  · cases sl with
    | head i => exact (hptr i).symm
    | next b => exact (hnode b).2.1.symm

/-- A node is written. -/
theorem view_setNode (h : .next a ∈ s.slots) : (s.setNode a d).view =
    { slots := s.slots
      ptr := update s.ptr (.next a) d.next
      count := update s.view.count a d.count.toNat
      tag := update s.view.tag a (d.tid, d.data) } := by
  refine view_eq (fun i => head_mem_slots) (fun i => rfl) fun b => ?_
  rw [node_setNode (next_mem_slots.1 h)]
  by_cases hb : b = a
  · subst hb
    simp only [if_true, update_self]
    exact ⟨iff_of_true h ⟨d, rfl⟩, rfl, rfl, rfl⟩
  · simp only [hb, if_false]
    rw [update_of_ne (fun heq => hb (Slot.next.inj heq)), update_of_ne hb, update_of_ne hb]
    exact ⟨next_mem_slots, rfl, rfl, rfl⟩

/-- A node is freed. -/
theorem view_free : (s.free a).view =
    { slots := s.slots.erase (.next a)
      ptr := update s.ptr (.next a) none
      count := update s.view.count a 0
      tag := update s.view.tag a (0, []) } := by
  refine view_eq (fun i => by simp [free]) (fun i => rfl) fun b => ?_
  rw [node_free]
  by_cases hb : b = a
  · subst hb
    simp
  · simp only [hb, if_false]
    rw [update_of_ne (fun heq => hb (Slot.next.inj heq)), update_of_ne hb, update_of_ne hb,
      Finset.mem_erase]
    refine ⟨(and_iff_right fun heq => hb (Slot.next.inj heq)).trans next_mem_slots, rfl, rfl, rfl⟩

/-- A node is created. -/
theorem view_createTagData : (s.createTagData d).1.view =
    { slots := insert (.next s.nodes.length) s.slots
      ptr := update s.ptr (.next s.nodes.length) d.next
      count := update s.view.count s.nodes.length d.count.toNat
      tag := update s.view.tag s.nodes.length (d.tid, d.data) } := by
  refine view_eq (fun i => by simp [createTagData]) (fun i => rfl) fun b => ?_
  rw [node_createTagData]
  by_cases hb : b = s.nodes.length
  · simp [hb]
  · simp only [hb, if_false]
    rw [update_of_ne (fun heq => hb (Slot.next.inj heq)), update_of_ne hb, update_of_ne hb,
      Finset.mem_insert]
    exact ⟨(or_iff_right fun heq => hb (Slot.next.inj heq)).trans next_mem_slots, rfl, rfl, rfl⟩

theorem next_length_notMem : .next s.nodes.length ∉ s.slots := by
  rw [next_mem_slots]
  rintro ⟨d, hd⟩
  exact lt_irrefl _ (lt_of_node hd)

theorem setNode_free : (s.setNode a d).free a = s.free a := by
  rw [free, setNode, List.set_set]
  rfl

theorem setNode_free_comm (h : a ≠ b) : (s.setNode a d).free b = (s.free b).setNode a d := by
  rw [free, setNode, List.set_comm _ _ h]
  rfl

/-- A list is written. -/
theorem view_setList (hi : .head i ∈ s.slots) {v : Option ℕ} : (s.setList i v).view =
    ⟨s.slots, update s.ptr (.head i) v, s.view.count, s.view.tag⟩ := by
  rw [head_mem_slots] at hi
  refine view_eq (fun j => ?_) (fun j => ?_) fun b => ⟨next_mem_slots, rfl, rfl, rfl⟩
  · rw [setList, List.length_set]
    exact head_mem_slots
  · change update s.ptr (.head i) v (.head j) = (s.lists.set i v)[j]?.join
    rw [List.getElem?_set]
    by_cases hj : j = i
    · subst hj
      rw [update_self, if_pos rfl, if_pos hi]
      rfl
    · rw [update_of_ne fun heq => hj (Slot.head.inj heq), if_neg (Ne.symm hj)]
      rfl

/-- A list is created. -/
theorem view_append {v : Option ℕ} : ({ s with lists := s.lists ++ [v] } : TagLists).view =
    ⟨insert (.head s.lists.length) s.slots, update s.ptr (.head s.lists.length) v, s.view.count,
      s.view.tag⟩ := by
  refine view_eq (fun j => ?_) (fun j => ?_) fun b => ⟨?_, ?_, rfl, rfl⟩
  · rw [List.length_append, List.length_singleton, Finset.mem_insert, head_mem_slots,
      Slot.head.injEq]
    omega
  · change update s.ptr _ v (.head j) = (s.lists ++ [v])[j]?.join
    rcases Nat.lt_trichotomy j s.lists.length with hlt | rfl | hgt
    · rw [List.getElem?_append_left hlt, update_of_ne fun heq =>
        Nat.ne_of_lt hlt (Slot.head.inj heq)]
      rfl
    · rw [List.getElem?_concat_length, update_self]
      rfl
    · rw [update_of_ne fun heq => Nat.ne_of_gt hgt (Slot.head.inj heq), ptr,
        List.getElem?_eq_none (Nat.le_of_lt hgt),
        List.getElem?_eq_none (by rw [List.length_append, List.length_singleton]; omega)]
  · rw [Finset.mem_insert, next_mem_slots]
    exact or_iff_right fun heq => by cases heq
  · have hne : Slot.next b ≠ Slot.head s.lists.length := by
      intro heq
      cases heq
    exact update_of_ne hne v s.ptr

theorem write_spec (h : sl ∈ s.slots) (v : Option ℕ) : ∃ s', s.write sl v = some s' ∧
    s'.view = ⟨s.slots, update s.ptr sl v, s.view.count, s.view.tag⟩ ∧
      s'.nodes.length = s.nodes.length := by
  cases sl with
  | head i => exact ⟨_, rfl, view_setList h, rfl⟩
  | next a =>
    obtain ⟨d, hd⟩ := next_mem_slots.1 h
    refine ⟨s.setNode a { d with next := v }, by rw [write, hd]; rfl, ?_, List.length_set⟩
    rw [view_setNode h]
    refine TagView.ext rfl rfl ?_ ?_
    · exact update_eq_self_iff.2 (count_eq hd).symm
    · exact update_eq_self_iff.2 (tag_eq hd).symm

theorem increment_spec (h : .next a ∈ s.slots) (hlt : s.view.count a + 1 < 2 ^ 32) :
    ∃ s', s.increment a = some s' ∧
      s'.view = ⟨s.slots, s.ptr, update s.view.count a (s.view.count a + 1), s.view.tag⟩ ∧
      s'.nodes.length = s.nodes.length := by
  obtain ⟨d, hd⟩ := next_mem_slots.1 h
  have hcount := count_eq hd
  have hone : (1 : UInt32).toNat = 1 := rfl
  refine ⟨s.setNode a { d with count := d.count + 1 }, by rw [increment, hd]; rfl, ?_,
    List.length_set⟩
  rw [view_setNode h]
  have hptr : d.next = s.ptr (.next a) := by
    rw [ptr, hd]
    rfl
  refine TagView.ext rfl (update_eq_self_iff.2 hptr) (congrArg (update _ a) ?_)
    (update_eq_self_iff.2 (tag_eq hd).symm)
  rw [UInt32.toNat_add, hone, ← hcount, Nat.mod_eq_of_lt hlt]

theorem decrement_spec (h : .next a ∈ s.slots) (hpos : 1 ≤ s.view.count a) :
    ∃ s', s.decrement a = some s' ∧
      s'.view = ⟨s.slots, s.ptr, update s.view.count a (s.view.count a - 1), s.view.tag⟩ ∧
      s'.nodes.length = s.nodes.length := by
  obtain ⟨d, hd⟩ := next_mem_slots.1 h
  have hcount := count_eq hd
  have hone : (1 : UInt32).toNat = 1 := rfl
  refine ⟨s.setNode a { d with count := d.count - 1 }, by rw [decrement, hd]; rfl, ?_,
    List.length_set⟩
  rw [view_setNode h]
  have hptr : d.next = s.ptr (.next a) := by
    rw [ptr, hd]
    rfl
  refine TagView.ext rfl (update_eq_self_iff.2 hptr) (congrArg (update _ a) ?_)
    (update_eq_self_iff.2 (tag_eq hd).symm)
  rw [UInt32.toNat_sub_of_le _ _ (UInt32.le_iff_toNat_le.2 (by omega)), hone, ← hcount]

/-- A pointer that is taken over. -/
def bump : Option ℕ → (ℕ → ℕ) → ℕ → ℕ
  | none, count => count
  | some a, count => update count a (count a + 1)

theorem bump_apply (v : Option ℕ) (count : ℕ → ℕ) (a : ℕ) :
    bump v count a = count a + if v = some a then 1 else 0 := by
  cases v with
  | none => rfl
  | some b =>
    rw [bump, update_apply]
    by_cases hab : a = b
    · rw [if_pos hab, hab, if_pos rfl]
    · rw [if_neg hab, if_neg fun heq => hab (Option.some.inj heq).symm]
      rfl

theorem incrementNext_spec {v : Option ℕ} (h : ∀ a, v = some a → .next a ∈ s.slots)
    (hlt : ∀ a, v = some a → bump v s.view.count a < 2 ^ 32) :
    ∃ s', s.incrementNext v = some s' ∧
      s'.view = ⟨s.slots, s.ptr, bump v s.view.count, s.view.tag⟩ ∧
      s'.nodes.length = s.nodes.length := by
  cases v with
  | none => exact ⟨s, rfl, rfl, rfl⟩
  | some a =>
    have hbound := hlt a rfl
    rw [bump_apply, if_pos rfl] at hbound
    exact increment_spec (h a rfl) hbound

end TagLists

/-! ## Changes of a list -/

namespace TagView

variable {v v' : TagView} {c : ℕ → List ℕ} {i a n cur : ℕ} {pre l l' rest : List ℕ}
  {t : TypeId × List UInt8}

/-- The lists are sound. -/
structure Sound (v : TagView) (c : ℕ → List ℕ) : Prop where
  forest : Forest v.slots v.ptr c
  counts : ∀ a, .next a ∈ v.slots → v.count a = SharedLists.refs v.slots v.ptr a
  keys : ∀ i, .head i ∈ v.slots → (((c i).map v.tag).map Prod.fst).Nodup

/-- The list `i` has a prefix that is in no other list. -/
structure At (v : TagView) (c : ℕ → List ℕ) (i : ℕ) (pre l : List ℕ) : Prop where
  mem : .head i ∈ v.slots
  eq : c i = pre ++ l
  other : ∀ j, .head j ∈ v.slots → j ≠ i → ∀ a ∈ pre, a ∉ c j

/-- The lists other than `i` stay as they are, with their nodes. -/
structure Keeps (v v' : TagView) (c : ℕ → List ℕ) (i : ℕ) : Prop where
  heads : ∀ j, .head j ∈ v'.slots ↔ .head j ∈ v.slots
  head : ∀ j, .head j ∈ v.slots → j ≠ i → v'.ptr (.head j) = v.ptr (.head j)
  node : ∀ j, .head j ∈ v.slots → j ≠ i → ∀ a ∈ c j, (.next a ∈ v.slots → .next a ∈ v'.slots) ∧
    v'.ptr (.next a) = v.ptr (.next a) ∧ v'.tag a = v.tag a

theorem Keeps.refl : v.Keeps v c i :=
  ⟨fun _ => Iff.rfl, fun _ _ _ => rfl, fun _ _ _ _ _ => ⟨id, rfl, rfl⟩⟩

theorem Keeps.trans {v'' : TagView} (h : v.Keeps v' c i) (h' : v'.Keeps v'' (update c i l) i) :
    v.Keeps v'' c i where
  heads j := (h'.heads j).trans (h.heads j)
  head j hj hji := (h'.head j ((h.heads j).2 hj) hji).trans (h.head j hj hji)
  node j hj hji a ha := by
    obtain ⟨hin, hptr, htag⟩ := h.node j hj hji a ha
    obtain ⟨hin', hptr', htag'⟩ := h'.node j ((h.heads j).2 hj) hji a
      (by rwa [update_of_ne hji])
    exact ⟨fun hmem => hin' (hin hmem), hptr'.trans hptr, htag'.trans htag⟩

/-- A list gets another tail behind a prefix of its own. -/
theorem Sound.retail (h : v.Sound c) (hat : v.At c i pre l) (l' : List ℕ)
    (hheads : ∀ j, .head j ∈ v'.slots ↔ .head j ∈ v.slots)
    (hnodes : ∀ a, .next a ∈ v'.slots ↔
      a ∈ pre ++ l' ∨ ∃ j, j ≠ i ∧ .head j ∈ v.slots ∧ a ∈ c j)
    (hsame : ∀ sl ∈ v.slots, sl ∈ v'.slots → sl ≠ after (.head i) pre → v'.ptr sl = v.ptr sl)
    (htail : IsChain v'.ptr (after (.head i) pre) l')
    (htag : ∀ j, .head j ∈ v.slots → j ≠ i → ∀ a ∈ c j, v'.tag a = v.tag a)
    (hcounts : ∀ a, .next a ∈ v'.slots → v'.count a = SharedLists.refs v'.slots v'.ptr a)
    (hkeys : (((pre ++ l').map v'.tag).map Prod.fst).Nodup) :
    v'.Sound (update c i (pre ++ l')) ∧ v.Keeps v' c i := by
  refine ⟨⟨h.forest.retail hat.mem hat.eq hat.other hheads hnodes hsame htail, hcounts,
    fun j hj => ?_⟩, hheads, fun j hj hji => hsame _ hj ((hheads j).2 hj) ?_,
    fun j hj hji a ha => ⟨fun _ => ?_, ?_, htag j hj hji a ha⟩⟩
  · by_cases hji : j = i
    · subst hji
      rwa [update_self]
    · rw [update_of_ne hji]
      have hjS := (hheads j).1 hj
      rw [List.map_congr_left fun a ha => htag j hjS hji a ha]
      exact h.keys j hjS
  · intro heq
    rcases after_cases (Slot.head i) pre with ⟨-, hp⟩ | ⟨q, x, -, hp⟩
    · rw [hp] at heq
      exact hji (Slot.head.inj heq)
    · rw [hp] at heq
      cases heq
  · exact (hnodes a).2 (Or.inr ⟨j, hji, hj, ha⟩)
  · refine hsame _ ((h.forest.nodes a).2 ⟨j, hj, ha⟩)
      ((hnodes a).2 (Or.inr ⟨j, hji, hj, ha⟩)) fun heq => ?_
    rcases after_cases (Slot.head i) pre with ⟨-, hp⟩ | ⟨q, x, rfl, hp⟩
    · rw [hp] at heq
      cases heq
    · rw [hp] at heq
      obtain rfl := Slot.next.inj heq
      exact hat.other j hj hji a (List.mem_append_right _ List.mem_cons_self) ha

/-- What is at a node of a list. -/
structure Here (v : TagView) (c : ℕ → List ℕ) (i : ℕ) (pre : List ℕ) (cur : ℕ)
    (rest : List ℕ) : Prop where
  slot : after (.head i) pre ∈ v.slots
  ptr : v.ptr (after (.head i) pre) = some cur
  node : .next cur ∈ v.slots
  chain : IsChain v.ptr (.next cur) rest
  nodup : (pre ++ cur :: rest).Nodup

theorem Sound.here (h : v.Sound c) (hat : v.At c i pre (cur :: rest)) :
    v.Here c i pre cur rest := by
  obtain ⟨hslot, hptr⟩ := h.forest.pred hat.mem hat.eq
  have hchain := h.forest.chain i hat.mem
  rw [hat.eq] at hchain
  exact ⟨hslot, hptr, (h.forest.nodes cur).2 ⟨i, hat.mem, by rw [hat.eq]; simp⟩, hchain.drop.2,
    hchain.nodup⟩

/-- The nodes in memory, around a place in a list. -/
theorem Sound.mem_iff (h : v.Sound c) (hat : v.At c i pre l) (a : ℕ) :
    .next a ∈ v.slots ↔ a ∈ pre ++ l ∨ ∃ j, j ≠ i ∧ .head j ∈ v.slots ∧ a ∈ c j := by
  rw [h.forest.nodes]
  constructor
  · rintro ⟨j, hj, ha⟩
    by_cases hji : j = i
    · subst hji
      exact Or.inl (hat.eq ▸ ha)
    · exact Or.inr ⟨j, hji, hj, ha⟩
  · rintro (ha | ⟨j, -, hj, ha⟩)
    · exact ⟨i, hat.mem, hat.eq ▸ ha⟩
    · exact ⟨j, hj, ha⟩

theorem Sound.shared (h : v.Sound c) (hcur : .next cur ∈ v.slots) (hcount : 2 ≤ v.count cur)
    (i : ℕ) : ∃ j, j ≠ i ∧ .head j ∈ v.slots ∧ cur ∈ c j := by
  rw [h.counts cur hcur] at hcount
  exact h.forest.exists_other hcount i

/-- A node behind which a pointer is taken over by a copy of it. -/
theorem Sound.copyNode (v' : TagView) (h : v.Sound c) (hat : v.At c i pre (cur :: rest))
    (hcount : 2 ≤ v.count cur) (hn : .next n ∉ v.slots) (ht : t.1 = (v.tag cur).1)
    (hslots : v'.slots = insert (.next n) v.slots)
    (hptr : v'.ptr =
      update (update v.ptr (.next n) (v.ptr (.next cur))) (after (.head i) pre) (some n))
    (hcounts : v'.count = TagLists.bump (v.ptr (.next cur))
      (update (update v.count cur (v.count cur - 1)) n 1))
    (htag : v'.tag = update v.tag n t) :
    v'.Sound (update c i (pre ++ n :: rest)) ∧ v.Keeps v' c i ∧
      (pre ++ n :: rest).map v'.tag = pre.map v.tag ++ t :: rest.map v.tag := by
  have hhere := h.here hat
  obtain ⟨k, hki, hk, hcurk⟩ := h.shared hhere.node hcount i
  have hmem := h.mem_iff hat
  have hfresh : ∀ a, .next a ∈ v.slots → a ≠ n := fun a ha heq => hn (heq ▸ ha)
  have hpre : ∀ a ∈ pre ++ rest, .next a ∈ v.slots := fun a ha =>
    (hmem a).2 (Or.inl (by
      rcases List.mem_append.1 ha with ha | ha
      · exact List.mem_append_left _ ha
      · exact List.mem_append_right _ (List.mem_cons_of_mem _ ha)))
  have hslotn : after (Slot.head i) pre ≠ .next n := fun heq => hn (heq ▸ hhere.slot)
  have htags : (pre ++ n :: rest).map v'.tag = pre.map v.tag ++ t :: rest.map v.tag := by
    rw [htag, List.map_append, List.map_cons, update_self]
    congr 1
    · exact List.map_congr_left fun a ha =>
        update_of_ne (hfresh a (hpre a (List.mem_append_left _ ha))) _ _
    · congr 1
      exact List.map_congr_left fun a ha =>
        update_of_ne (hfresh a (hpre a (List.mem_append_right _ ha))) _ _
  refine and_assoc.1 ⟨h.retail hat _ ?_ ?_ ?_ ?_ ?_ ?_ ?_, htags⟩
  · intro j
    rw [hslots, Finset.mem_insert]
    simp
  · intro a
    rw [hslots, Finset.mem_insert, hmem]
    simp only [Slot.next.injEq, List.mem_append, List.mem_cons]
    constructor
    · rintro (rfl | (ha | rfl | ha) | hother)
      · exact Or.inl (Or.inr (Or.inl rfl))
      · exact Or.inl (Or.inl ha)
      · exact Or.inr ⟨k, hki, hk, hcurk⟩
      · exact Or.inl (Or.inr (Or.inr ha))
      · exact Or.inr hother
    · rintro ((ha | rfl | ha) | hother)
      · exact Or.inr (Or.inl (Or.inl ha))
      · exact Or.inl rfl
      · exact Or.inr (Or.inl (Or.inr (Or.inr ha)))
      · exact Or.inr (Or.inr hother)
  · intro sl hsl _ hne
    have hsln : sl ≠ .next n := fun heq => hn (heq ▸ hsl)
    rw [hptr, update_of_ne hne, update_of_ne hsln]
  · rw [hptr]
    refine ⟨update_self _ _ _, hhere.chain.congr ?_ fun a ha => ?_⟩
    · rw [update_of_ne hslotn.symm, update_self]
    · rw [update_of_ne, update_of_ne]
      · exact fun heq => hfresh a (hpre a (List.mem_append_right _ ha)) (Slot.next.inj heq)
      · exact (after_ne_next hhere.nodup (List.mem_cons_of_mem _ ha)).symm
  · intro j hj hji a ha
    rw [htag]
    exact update_of_ne (hfresh a ((h.forest.nodes a).2 ⟨j, hj, ha⟩)) _ _
  · intro a ha
    have hrefs := SharedLists.refs_update (p := update v.ptr (.next n) (v.ptr (.next cur))) (a := a)
      (Finset.mem_insert_of_mem (b := .next n) hhere.slot) (some n)
    have hcongr : SharedLists.refs v.slots (update v.ptr (.next n) (v.ptr (.next cur))) a =
        SharedLists.refs v.slots v.ptr a :=
      refs_congr fun sl hsl => update_of_ne (fun heq : sl = .next n => hn (heq ▸ hsl)) _ _
    rw [update_of_ne hslotn, hhere.ptr, refs_insert (p := update v.ptr _ _) hn, hcongr,
      update_self] at hrefs
    rw [hslots] at ha ⊢
    rw [hcounts, hptr, TagLists.bump_apply, update_apply, update_apply]
    rcases Finset.mem_insert.1 ha with heq | ha
    · obtain rfl := Slot.next.inj heq
      have hnone : ∀ sl ∈ v.slots, v.ptr sl ≠ some a := fun sl hsl hptr => by
        obtain ⟨j, hj, p, q, hc, -⟩ := h.forest.exists_pred hsl hptr
        exact hn ((h.forest.nodes a).2 ⟨j, hj, by rw [hc]; simp⟩)
      rw [refs_eq_zero hnone, if_neg (hnone _ hhere.node), if_pos rfl,
        if_neg fun heq => hfresh cur hhere.node (Option.some.inj heq)] at hrefs
      rw [if_pos rfl, if_neg (hnone _ hhere.node)]
      omega
    · have hcounta := h.counts a ha
      have hna : ¬some n = some a := fun heq => hfresh a ha (Option.some.inj heq).symm
      rw [if_neg hna] at hrefs
      rw [if_neg (hfresh a ha)]
      by_cases hac : a = cur
      · subst hac
        rw [if_pos rfl] at hrefs ⊢
        omega
      · rw [if_neg fun heq => hac (Option.some.inj heq).symm] at hrefs
        rw [if_neg hac]
        omega
  · have hold := h.keys i hat.mem
    rw [hat.eq, List.map_append, List.map_cons, List.map_append, List.map_cons, ← ht] at hold
    rwa [htags, List.map_append, List.map_cons]

/-- A shared node is linked around. -/
theorem Sound.unlinkShared (v' : TagView) (h : v.Sound c) (hat : v.At c i pre (cur :: rest))
    (hcount : 2 ≤ v.count cur) (hslots : v'.slots = v.slots)
    (hptr : v'.ptr = update v.ptr (after (.head i) pre) (v.ptr (.next cur)))
    (hcounts : v'.count =
      TagLists.bump (v.ptr (.next cur)) (update v.count cur (v.count cur - 1)))
    (htag : v'.tag = v.tag) :
    v'.Sound (update c i (pre ++ rest)) ∧ v.Keeps v' c i ∧
      (pre ++ rest).map v'.tag = pre.map v.tag ++ rest.map v.tag := by
  have hhere := h.here hat
  obtain ⟨k, hki, hk, hcurk⟩ := h.shared hhere.node hcount i
  refine and_assoc.1 ⟨h.retail hat _ (fun j => by rw [hslots]) (fun a => ?_) (fun sl _ _ hne => ?_)
    ?_ (fun j hj hji a ha => by rw [htag]) (fun a ha => ?_) ?_, by rw [htag, List.map_append]⟩
  · rw [hslots, h.mem_iff hat]
    simp only [List.mem_append, List.mem_cons]
    constructor
    · rintro ((ha | rfl | ha) | hother)
      · exact Or.inl (Or.inl ha)
      · exact Or.inr ⟨k, hki, hk, hcurk⟩
      · exact Or.inl (Or.inr ha)
      · exact Or.inr hother
    · exact Or.imp_left (Or.imp_right Or.inr)
  · rw [hptr]
    exact update_of_ne hne _ _
  · rw [hptr]
    refine hhere.chain.congr (update_self _ _ _) fun a ha => update_of_ne ?_ _ _
    exact (after_ne_next hhere.nodup (List.mem_cons_of_mem _ ha)).symm
  · have hrefs := SharedLists.refs_update (p := v.ptr) (a := a) hhere.slot (v.ptr (.next cur))
    rw [hhere.ptr] at hrefs
    rw [hslots] at ha ⊢
    have hcounta := h.counts a ha
    rw [hcounts, hptr, TagLists.bump_apply, update_apply]
    by_cases hac : a = cur
    · subst hac
      rw [if_pos rfl] at hrefs ⊢
      omega
    · rw [if_neg fun heq => hac (Option.some.inj heq).symm] at hrefs
      rw [if_neg hac]
      omega
  · have hold := h.keys i hat.mem
    rw [hat.eq] at hold
    rw [htag]
    exact hold.sublist (((List.sublist_cons_self cur rest).append_left pre).map _ |>.map _)

/-- A node of one list is linked around and freed. -/
theorem Sound.unlinkFree (v' : TagView) (h : v.Sound c) (hat : v.At c i pre (cur :: rest))
    (hother : ∀ j, .head j ∈ v.slots → j ≠ i → cur ∉ c j)
    (hslots : v'.slots = v.slots.erase (.next cur))
    (hptr : v'.ptr =
      update (update v.ptr (after (.head i) pre) (v.ptr (.next cur))) (.next cur) none)
    (hcounts : v'.count = update v.count cur 0) (htag : v'.tag = update v.tag cur (0, [])) :
    v'.Sound (update c i (pre ++ rest)) ∧ v.Keeps v' c i ∧
      (pre ++ rest).map v'.tag = pre.map v.tag ++ rest.map v.tag := by
  have hhere := h.here hat
  have hne := after_ne_next (i := i) hhere.nodup (a := cur) List.mem_cons_self
  have hcur : cur ∉ pre ++ rest := (List.nodup_middle.1 hhere.nodup).notMem
  have htags : (pre ++ rest).map v'.tag = pre.map v.tag ++ rest.map v.tag := by
    rw [htag, ← List.map_append]
    exact List.map_congr_left fun a ha => update_of_ne (ne_of_mem_of_not_mem ha hcur) _ _
  refine and_assoc.1 ⟨h.retail hat _ (fun j => ?_) (fun a => ?_) (fun sl _ hsl hne => ?_)
    ?_ (fun j hj hji a ha => ?_) (fun a ha => ?_) ?_, htags⟩
  · rw [hslots, Finset.mem_erase]
    simp
  · rw [hslots, Finset.mem_erase, h.mem_iff hat]
    simp only [ne_eq, Slot.next.injEq, List.mem_append, List.mem_cons]
    constructor
    · rintro ⟨hac, (ha | ha | ha) | hj⟩
      · exact Or.inl (Or.inl ha)
      · exact absurd ha hac
      · exact Or.inl (Or.inr ha)
      · exact Or.inr hj
    · rintro (ha | ⟨j, hji, hj, ha⟩)
      · refine ⟨fun heq => hcur (heq ▸ List.mem_append.2 ha), Or.inl ?_⟩
        exact ha.imp_right Or.inr
      · exact ⟨fun heq => hother j hj hji (heq ▸ ha), Or.inr ⟨j, hji, hj, ha⟩⟩
  · rw [hslots] at hsl
    rw [hptr, update_of_ne (Finset.ne_of_mem_erase hsl), update_of_ne hne]
  · rw [hptr]
    refine hhere.chain.congr ?_ fun a ha => ?_
    · rw [update_of_ne hne, update_self]
    · rw [update_of_ne, update_of_ne]
      · exact (after_ne_next hhere.nodup (List.mem_cons_of_mem _ ha)).symm
      · exact fun heq => hcur (Slot.next.inj heq ▸ List.mem_append_right _ ha)
  · rw [htag]
    exact update_of_ne (ne_of_mem_of_not_mem ha (hother j hj hji)) _ _
  · rw [hslots] at ha ⊢
    have hac : a ≠ cur := fun heq => Finset.ne_of_mem_erase ha (congrArg _ heq)
    have hcounta := h.counts a (Finset.mem_of_mem_erase ha)
    have hrefs := SharedLists.refs_update (p := v.ptr) (a := a) hhere.slot (v.ptr (.next cur))
    have herase := refs_erase (p := update v.ptr (after (.head i) pre) (v.ptr (.next cur)))
      (a := a) hhere.node
    have hcongr : SharedLists.refs (v.slots.erase (.next cur)) v'.ptr a =
        SharedLists.refs (v.slots.erase (.next cur))
          (update v.ptr (after (.head i) pre) (v.ptr (.next cur))) a :=
      refs_congr fun sl hsl => by rw [hptr, update_of_ne (Finset.ne_of_mem_erase hsl)]
    rw [hhere.ptr, if_neg fun heq => hac (Option.some.inj heq).symm] at hrefs
    rw [update_of_ne hne.symm] at herase
    rw [hcounts, update_of_ne hac, hcongr]
    omega
  · have hold := h.keys i hat.mem
    rw [hat.eq] at hold
    rw [htags, ← List.map_append]
    exact hold.sublist (((List.sublist_cons_self cur rest).append_left pre).map _ |>.map _)

/-- A node of one list is rewritten. -/
theorem Sound.setTag (v' : TagView) (h : v.Sound c) (hat : v.At c i pre (cur :: rest))
    (hother : ∀ j, .head j ∈ v.slots → j ≠ i → cur ∉ c j) (ht : t.1 = (v.tag cur).1)
    (hslots : v'.slots = v.slots) (hptr : v'.ptr = v.ptr) (hcounts : v'.count = v.count)
    (htag : v'.tag = update v.tag cur t) :
    v'.Sound (update c i (pre ++ cur :: rest)) ∧ v.Keeps v' c i ∧
      (pre ++ cur :: rest).map v'.tag = pre.map v.tag ++ t :: rest.map v.tag := by
  have hhere := h.here hat
  have hcur : cur ∉ pre ++ rest := (List.nodup_middle.1 hhere.nodup).notMem
  have htags : (pre ++ cur :: rest).map v'.tag = pre.map v.tag ++ t :: rest.map v.tag := by
    rw [htag, List.map_append, List.map_cons, update_self]
    congr 1
    · exact List.map_congr_left fun a ha =>
        update_of_ne (ne_of_mem_of_not_mem (List.mem_append_left _ ha) hcur) _ _
    · congr 1
      exact List.map_congr_left fun a ha =>
        update_of_ne (ne_of_mem_of_not_mem (List.mem_append_right _ ha) hcur) _ _
  refine and_assoc.1 ⟨h.retail hat _ (fun j => by rw [hslots])
    (fun a => by rw [hslots, h.mem_iff hat]) (fun sl _ _ _ => by rw [hptr]) ?_
    (fun j hj hji a ha => ?_) (fun a ha => ?_) ?_, htags⟩
  · rw [hptr]
    exact ⟨hhere.ptr, hhere.chain⟩
  · rw [htag]
    exact update_of_ne (ne_of_mem_of_not_mem ha (hother j hj hji)) _ _
  · rw [hslots] at ha ⊢
    rw [hcounts, hptr]
    exact h.counts a ha
  · have hold := h.keys i hat.mem
    rw [hat.eq, List.map_append, List.map_cons, List.map_append, List.map_cons, ← ht] at hold
    rwa [htags, List.map_append, List.map_cons]

/-- A node is put before the others. -/
theorem Sound.push (v' : TagView) (h : v.Sound c) (hi : .head i ∈ v.slots) (hn : .next n ∉ v.slots)
    (ht : t.1 ∉ ((c i).map v.tag).map Prod.fst) (hslots : v'.slots = insert (.next n) v.slots)
    (hptr : v'.ptr = update (update v.ptr (.next n) (v.ptr (.head i))) (.head i) (some n))
    (hcounts : v'.count = update v.count n 1) (htag : v'.tag = update v.tag n t) :
    v'.Sound (update c i (n :: c i)) ∧ v.Keeps v' c i ∧
      (n :: c i).map v'.tag = t :: (c i).map v.tag := by
  have hat : v.At c i [] (c i) := ⟨hi, rfl, fun _ _ _ _ ha => absurd ha List.not_mem_nil⟩
  have hfresh : ∀ a, .next a ∈ v.slots → a ≠ n := fun a ha heq => hn (heq ▸ ha)
  have hin : ∀ a ∈ c i, .next a ∈ v.slots := fun a ha => (h.forest.nodes a).2 ⟨i, hi, ha⟩
  have hheadn : Slot.next n ≠ .head i := by
    intro heq
    cases heq
  have htags : (n :: c i).map v'.tag = t :: (c i).map v.tag := by
    rw [htag, List.map_cons, update_self]
    congr 1
    exact List.map_congr_left fun a ha => update_of_ne (hfresh a (hin a ha)) _ _
  refine and_assoc.1 ⟨h.retail hat _ (fun j => ?_) (fun a => ?_) (fun sl hsl _ hne => ?_)
    ?_ (fun j hj hji a ha => ?_) (fun a ha => ?_) ?_, htags⟩
  · rw [hslots, Finset.mem_insert]
    simp
  · rw [hslots, Finset.mem_insert, h.mem_iff hat]
    simp only [Slot.next.injEq, List.nil_append, List.mem_cons]
    exact or_assoc.symm
  · have hsln : sl ≠ .next n := fun heq => hn (heq ▸ hsl)
    rw [hptr]
    exact (update_of_ne hne _ _).trans (update_of_ne hsln _ _)
  · rw [hptr]
    refine ⟨update_self _ _ _, (h.forest.chain i hi).congr ?_ fun a ha => ?_⟩
    · rw [update_of_ne hheadn, update_self]
    · rw [update_of_ne, update_of_ne]
      · exact fun heq => hfresh a (hin a ha) (Slot.next.inj heq)
      · intro heq
        cases heq
  · rw [htag]
    exact update_of_ne (hfresh a ((h.forest.nodes a).2 ⟨j, hj, ha⟩)) _ _
  · have hrefs := SharedLists.refs_update (p := update v.ptr (.next n) (v.ptr (.head i))) (a := a)
      (Finset.mem_insert_of_mem (b := .next n) hi) (some n)
    have hcongr : SharedLists.refs v.slots (update v.ptr (.next n) (v.ptr (.head i))) a =
        SharedLists.refs v.slots v.ptr a :=
      refs_congr fun sl hsl => update_of_ne (fun heq : sl = .next n => hn (heq ▸ hsl)) _ _
    rw [update_of_ne hheadn.symm, refs_insert (p := update v.ptr _ _) hn, hcongr,
      update_self] at hrefs
    rw [hslots] at ha ⊢
    rw [hcounts, hptr, update_apply]
    rcases Finset.mem_insert.1 ha with heq | ha
    · obtain rfl := Slot.next.inj heq
      have hnone : ∀ sl ∈ v.slots, v.ptr sl ≠ some a := fun sl hsl hptr => by
        obtain ⟨j, hj, p, q, hc, -⟩ := h.forest.exists_pred hsl hptr
        exact hn ((h.forest.nodes a).2 ⟨j, hj, by rw [hc]; simp⟩)
      rw [refs_eq_zero hnone, if_pos rfl] at hrefs
      rw [if_pos rfl]
      omega
    · have hcounta := h.counts a ha
      rw [if_neg fun heq => hfresh a ha (Option.some.inj heq).symm] at hrefs
      rw [if_neg (hfresh a ha)]
      omega
  · rw [List.nil_append, htags, List.map_cons]
    exact List.nodup_cons.2 ⟨ht, h.keys i hi⟩

/-- An empty list takes over the nodes of another one. -/
theorem Sound.share {o : ℕ} (v' : TagView) (h : v.Sound c) (hi : .head i ∈ v.slots) (hc : c i = [])
    (ho : .head o ∈ v.slots) (hoi : o ≠ i) (hslots : v'.slots = v.slots)
    (hptr : v'.ptr = update v.ptr (.head i) (v.ptr (.head o)))
    (hcounts : v'.count = TagLists.bump (v.ptr (.head o)) v.count) (htag : v'.tag = v.tag) :
    v'.Sound (update c i (c o)) ∧ v.Keeps v' c i := by
  have hat : v.At c i [] [] := ⟨hi, hc, fun _ _ _ _ ha => absurd ha List.not_mem_nil⟩
  have hchain := h.forest.chain i hi
  rw [hc] at hchain
  refine h.retail hat (c o) (fun j => by rw [hslots]) (fun a => ?_) (fun sl _ _ hne => ?_)
    ?_ (fun j hj hji a ha => by rw [htag]) (fun a ha => ?_) ?_
  · rw [hslots, h.mem_iff hat]
    simp only [List.nil_append, List.not_mem_nil, false_or]
    exact ⟨Or.inr, Or.rec (fun ha => ⟨o, hoi, ho, ha⟩) id⟩
  · rw [hptr]
    exact update_of_ne hne _ _
  · rw [hptr]
    refine (h.forest.chain o ho).congr (update_self _ _ _) fun a _ => update_of_ne ?_ _ _
    intro heq
    cases heq
  · have hrefs := SharedLists.refs_update (p := v.ptr) (a := a) hi (v.ptr (.head o))
    rw [show v.ptr (.head i) = none from hchain, if_neg (Option.some_ne_none a).symm] at hrefs
    rw [hslots] at ha ⊢
    rw [hcounts, hptr, TagLists.bump_apply, h.counts a ha]
    omega
  · rw [htag]
    exact h.keys o ho

/-- A list lets go of a shared node. -/
theorem Sound.release (v' : TagView) (h : v.Sound c) (hi : .head i ∈ v.slots)
    (hc : c i = cur :: rest) (hcount : 2 ≤ v.count cur) (hslots : v'.slots = v.slots)
    (hptr : v'.ptr = update v.ptr (.head i) none)
    (hcounts : v'.count = update v.count cur (v.count cur - 1)) (htag : v'.tag = v.tag) :
    v'.Sound (update c i []) ∧ v.Keeps v' c i := by
  have hat : v.At c i [] (cur :: rest) := ⟨hi, hc, fun _ _ _ _ ha => absurd ha List.not_mem_nil⟩
  have hhere := h.here hat
  obtain ⟨k, hki, hk, hcurk⟩ := h.shared hhere.node hcount i
  have hrestk : ∀ a ∈ rest, a ∈ c k := by
    obtain ⟨q, r, hck⟩ := List.append_of_mem hcurk
    have hchain := h.forest.chain k hk
    rw [hck] at hchain
    rw [hhere.chain.unique hchain.drop.2, hck]
    exact fun a ha => List.mem_append_right _ (List.mem_cons_of_mem _ ha)
  refine h.retail hat [] (fun j => by rw [hslots]) (fun a => ?_) (fun sl _ _ hne => ?_)
    ?_ (fun j hj hji a ha => by rw [htag]) (fun a ha => ?_) List.nodup_nil
  · rw [hslots, h.mem_iff hat]
    simp only [List.nil_append, List.mem_cons, List.not_mem_nil, false_or]
    constructor
    · rintro ((rfl | ha) | hother)
      · exact ⟨k, hki, hk, hcurk⟩
      · exact ⟨k, hki, hk, hrestk a ha⟩
      · exact hother
    · exact Or.inr
  · rw [hptr]
    exact update_of_ne hne _ _
  · rw [hptr]
    exact update_self _ _ _
  · have hrefs := SharedLists.refs_update (p := v.ptr) (a := a) hi none
    rw [show v.ptr (.head i) = some cur from hhere.ptr, if_neg (Option.some_ne_none a).symm]
      at hrefs
    rw [hslots] at ha ⊢
    have hcounta := h.counts a ha
    rw [hcounts, hptr, update_apply]
    by_cases hac : a = cur
    · subst hac
      rw [if_pos rfl] at hrefs ⊢
      omega
    · rw [if_neg fun heq => hac (Option.some.inj heq).symm] at hrefs
      rw [if_neg hac]
      omega

/-- A new list. -/
theorem Sound.construct (v' : TagView) (h : v.Sound c) (hn : .head n ∉ v.slots)
    (hslots : v'.slots = insert (.head n) v.slots) (hptr : v'.ptr = update v.ptr (.head n) none)
    (hcounts : v'.count = v.count) (htag : v'.tag = v.tag) : v'.Sound (update c n []) := by
  have hne : ∀ j, .head j ∈ v.slots → j ≠ n := fun j hj heq => hn (heq ▸ hj)
  have hrefs : ∀ a, SharedLists.refs v'.slots v'.ptr a = SharedLists.refs v.slots v.ptr a := by
    intro a
    rw [hslots, hptr, refs_insert hn, update_self, if_neg (Option.some_ne_none a).symm]
    exact refs_congr fun sl hsl => update_of_ne (fun heq : sl = .head n => hn (heq ▸ hsl)) _ _
  refine ⟨⟨fun j hj => ?_, fun a => ?_⟩, fun a ha => ?_, fun j hj => ?_⟩
  · rw [hslots, Finset.mem_insert, Slot.head.injEq] at hj
    rw [hptr]
    rcases hj with rfl | hj
    · rw [update_self]
      exact update_self _ _ _
    · rw [update_of_ne (hne j hj)]
      refine (h.forest.chain j hj).congr (update_of_ne ?_ _ _) fun a _ => update_of_ne ?_ _ _
      · exact fun heq => hne j hj (Slot.head.inj heq)
      · intro heq
        cases heq
  · rw [hslots, Finset.mem_insert, h.forest.nodes]
    simp only [reduceCtorEq, false_or, Finset.mem_insert, Slot.head.injEq]
    constructor
    · rintro ⟨j, hj, ha⟩
      exact ⟨j, Or.inr hj, by rwa [update_of_ne (hne j hj)]⟩
    · rintro ⟨j, rfl | hj, ha⟩
      · rw [update_self] at ha
        exact absurd ha List.not_mem_nil
      · exact ⟨j, hj, by rwa [update_of_ne (hne j hj)] at ha⟩
  · rw [hrefs, hcounts]
    rw [hslots, Finset.mem_insert] at ha
    exact h.counts a (ha.resolve_left fun heq => by cases heq)
  · rw [hslots, Finset.mem_insert, Slot.head.injEq] at hj
    rw [htag]
    rcases hj with rfl | hj
    · rw [update_self]
      exact List.nodup_nil
    · rw [update_of_ne (hne j hj)]
      exact h.keys j hj

end TagView

end Ns3Pedca
