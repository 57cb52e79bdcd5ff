import Ns3Pedca.Network.PacketTagLoops

/-!
# Tag lists are maps

Over every run the lists behave as maps from types to data that have nothing in common, and every
count is the number of heads and nodes that point to its node (`independentMaps`). For that
`Replace` may not find its tag before the first shared node with another size, as it is written into
the old buffer there (`not_independentMaps`), and there may be less than 2 ^ 32 lists.
-/

namespace Ns3Pedca

open SharedLists Function

/-! ## Maps -/

/-- A map from types to serialized tags. -/
abbrev TagMap := TypeId → Option (List UInt8)

/-- The map without tags. -/
def TagMap.empty : TagMap := fun _ => none

/-- One map for each list. -/
abbrev TagMaps := List TagMap

namespace TagMaps

open TagLists (TagOp TagResult)

/-- The maps after an operation, and what it returns. -/
def step (m : TagMaps) : TagOp → Option (TagMaps × TagResult)
  | .construct => some (m ++ [.empty], .nothing)
  | .copy o => do
    let x ← m[o]?
    some (m ++ [x], .nothing)
  | .assign i o => do
    let _ ← m[i]?
    let x ← m[o]?
    some (m.set i x, .nothing)
  | .add i tag => do
    let x ← m[i]?
    if (x tag.tid).isSome then none
    else some (m.set i (update x tag.tid (some tag.data)), .nothing)
  | .remove i tid => do
    let x ← m[i]?
    some (m.set i (update x tid none), .data (x tid))
  | .replace i tag => do
    let x ← m[i]?
    some (m.set i (update x tag.tid (some tag.data)), .found (x tag.tid).isSome)
  | .peek i tid => do
    let x ← m[i]?
    some (m, .data (x tid))
  | .removeAll i => do
    let _ ← m[i]?
    some (m.set i .empty, .nothing)

/-- The maps after a run, and what its operations return. -/
def run : TagMaps → List TagOp → Option (TagMaps × List TagResult)
  | m, [] => some (m, [])
  | m, op :: ops => do
    let (m, result) ← m.step op
    let (m, results) ← run m ops
    some (m, result :: results)

end TagMaps

/-- The map of some tags. -/
def mapOf (tags : List (TypeId × List UInt8)) : TagMap := fun tid => tags.lookup tid

section

variable {tags tags' : List (TypeId × List UInt8)} {tid : TypeId} {d : List UInt8}

theorem mapOf_eq_none : mapOf tags tid = none ↔ tid ∉ tags.map Prod.fst := by
  rw [mapOf, List.lookup_eq_none_iff]
  simp only [List.mem_map, not_exists, not_and, bne_iff_ne]
  exact forall₂_congr fun t _ => ne_comm

/-- A tag whose type is not before it is found. -/
theorem mapOf_middle (tid : TypeId) (d : List UInt8) (tags tags' : List (TypeId × List UInt8))
    (htid : tid ∉ tags.map Prod.fst) :
    mapOf (tags ++ (tid, d) :: tags') = update (mapOf (tags ++ tags')) tid (some d) := by
  funext x
  rw [mapOf, List.lookup_append, List.lookup_cons, update_apply]
  by_cases hx : x = tid
  · subst hx
    have hnone : tags.lookup x = none := mapOf_eq_none.2 htid
    simp [hnone]
  · simp [beq_false_of_ne hx, hx, mapOf, List.lookup_append]

theorem mapOf_remove (hkeys : ((tags ++ (tid, d) :: tags').map Prod.fst).Nodup) :
    mapOf (tags ++ tags') = update (mapOf (tags ++ (tid, d) :: tags')) tid none := by
  rw [List.map_append, List.map_cons, List.nodup_middle, ← List.map_append] at hkeys
  have hnotin := (List.nodup_cons.1 hkeys).1
  have htid : tid ∉ tags.map Prod.fst := fun hmem =>
    hnotin (by rw [List.map_append]; exact List.mem_append_left _ hmem)
  rw [mapOf_middle _ _ _ _ htid, update_idem]
  exact (update_eq_self_iff.2 (mapOf_eq_none.2 hnotin).symm).symm

end

namespace TagLists

variable {s s' : TagLists} {c : ℕ → List ℕ} {m : TagMaps} {i : ℕ}

/-! ## What is to be shown -/

/-- The nodes of a list. -/
def Reaches (s : TagLists) (i : ℕ) (l : List ℕ) : Prop :=
  i < s.lists.length ∧ IsChain s.ptr (.head i) l

/-- Each list is a map, and every count is right. -/
structure AreMaps (s : TagLists) (m : TagMaps) : Prop where
  length : s.lists.length = m.length
  maps : ∀ i x, m[i]? = some x → ∃ l, s.Reaches i l ∧ x = mapOf (l.map s.view.tag)
  counts : ∀ a d, s.node a = some d → d.count.toNat = s.refs a

/-- The list that an operation changes. -/
def TagOp.target : TagOp → Option ℕ
  | .construct => none
  | .copy _ => none
  | .assign i _ => some i
  | .add i _ => some i
  | .remove i _ => some i
  | .replace i _ => some i
  | .peek _ _ => none
  | .removeAll i => some i

/-- The nodes of the other lists are neither freed nor changed. -/
def Untouched (s s' : TagLists) (op : TagOp) : Prop :=
  ∀ j l, op.target ≠ some j → s.Reaches j l → s'.Reaches j l ∧ ∀ a ∈ l, ∃ d d',
    s.node a = some d ∧ s'.node a = some d' ∧ d'.next = d.next ∧ d'.tid = d.tid ∧ d'.data = d.data

/-- What an operation asks for : room for a new list, and that `Replace` finds its tag before the
first shared node with the size of the new tag only. -/
def OpOk (s : TagLists) : TagOp → Prop
  | .construct => s.lists.length + 1 < 2 ^ 32
  | .copy _ => s.lists.length + 1 < 2 ^ 32
  | .replace i tag => ∀ pre a post d, s.Reaches i (pre ++ a :: post) →
      (∀ b ∈ pre ++ [a], ∀ d, s.node b = some d → d.count ≤ 1) → s.node a = some d →
      d.tid = tag.tid → d.data.length = tag.data.length
  | _ => True

/-- What a run asks for. -/
def RunOk : TagLists → List TagOp → Prop
  | _, [] => True
  | s, op :: ops => s.OpOk op ∧
      match s.step op with
      | none => True
      | some (s, _) => RunOk s ops

/-! ## Runs -/

/-- The lists `c` are sound, and their tags are the maps. -/
structure Holds (s : TagLists) (c : ℕ → List ℕ) (m : TagMaps) : Prop where
  sound : s.view.Sound c
  length : s.lists.length = m.length
  maps : ∀ i x, m[i]? = some x → x = mapOf ((c i).map s.view.tag)
  room : s.lists.length < 2 ^ 32

theorem Holds.areMaps (h : Holds s c m) : AreMaps s m where
  length := h.length
  maps i x hx := by
    have hi : i < s.lists.length := by
      rw [h.length]
      exact (List.getElem?_eq_some_iff.1 hx).1
    exact ⟨c i, ⟨hi, h.sound.forest.chain i (head_mem_slots.2 hi)⟩, h.maps i x hx⟩
  counts a d hd := (count_eq hd).symm.trans (h.sound.counts a (next_mem_slots.2 ⟨d, hd⟩))

/-- A list was changed, and its map with it. -/
theorem Holds.done {l : List ℕ} {tags : List (TypeId × List UInt8)} {x : TagMap}
    (h : Holds s c m) (hdone : Done s s' c i l tags) (hx : x = mapOf tags) :
    Holds s' (update c i l) (m.set i x) := by
  have hlen := length_lists_eq hdone.heads
  refine ⟨hdone.sound, by rw [hlen, h.length, List.length_set], fun j y hy => ?_, by
    rw [hlen]; exact h.room⟩
  rw [List.getElem?_set] at hy
  by_cases hji : j = i
  · subst hji
    rw [if_pos rfl] at hy
    split_ifs at hy
    rw [update_self, hdone.tags, ← hx]
    exact (Option.some.inj hy).symm
  · rw [if_neg (Ne.symm hji)] at hy
    have hj : .head j ∈ s.slots := by
      rw [head_mem_slots, h.length]
      exact (List.getElem?_eq_some_iff.1 hy).1
    rw [update_of_ne hji, h.maps j y hy]
    exact congrArg mapOf (List.map_congr_left fun a ha =>
      ((hdone.keeps.node j hj hji a ha).2.2).symm)

/-- A change of one list does not touch the others. -/
theorem Untouched.of_keeps (op : TagOp) (h : s.view.Sound c) (hkeeps : s.view.Keeps s'.view c i)
    (htarget : op.target = some i) : Untouched s s' op := by
  intro j l hj hl
  have hji : j ≠ i := fun heq => hj (heq ▸ htarget)
  have hjS : .head j ∈ s.slots := head_mem_slots.2 hl.1
  obtain rfl : l = c j := hl.2.unique (h.forest.chain j hjS)
  refine ⟨⟨head_mem_slots.1 ((hkeeps.heads j).2 hjS), hl.2.congr (hkeeps.head j hjS hji) ?_⟩, ?_⟩
  · exact fun a ha => (hkeeps.node j hjS hji a ha).2.1
  · intro a ha
    obtain ⟨hin, hptr, htag⟩ := hkeeps.node j hjS hji a ha
    have haS : .next a ∈ s.slots := (h.forest.nodes a).2 ⟨j, hjS, ha⟩
    obtain ⟨d, hd, hnext, -, htag₁⟩ := exists_node haS
    obtain ⟨d', hd', hnext', -, htag₂⟩ := exists_node (hin haS)
    have hsame : (d'.tid, d'.data) = (d.tid, d.data) := by rw [htag₁, htag₂, htag]
    exact ⟨d, d', hd, hd', by rw [hnext, hnext']; exact hptr, congrArg Prod.fst hsame,
      congrArg Prod.snd hsame⟩

/-- Nothing that was there is touched. -/
theorem Untouched.of_ptr {op : TagOp} (h : s.view.Sound c)
    (hslots : ∀ sl ∈ s.slots, sl ∈ s'.slots ∧ s'.ptr sl = s.ptr sl)
    (htag : s'.view.tag = s.view.tag) : Untouched s s' op := by
  intro j l _ hl
  have hjS : .head j ∈ s.slots := head_mem_slots.2 hl.1
  obtain rfl : l = c j := hl.2.unique (h.forest.chain j hjS)
  have hin : ∀ a ∈ c j, .next a ∈ s.slots := fun a ha => (h.forest.nodes a).2 ⟨j, hjS, ha⟩
  refine ⟨⟨head_mem_slots.1 (hslots _ hjS).1, hl.2.congr (hslots _ hjS).2 fun a ha =>
    (hslots _ (hin a ha)).2⟩, fun a ha => ?_⟩
  obtain ⟨hin', hptr⟩ := hslots _ (hin a ha)
  obtain ⟨d, hd, hnext, -, htag₁⟩ := exists_node (hin a ha)
  obtain ⟨d', hd', hnext', -, htag₂⟩ := exists_node hin'
  have hsame : (d'.tid, d'.data) = (d.tid, d.data) := by rw [htag₁, htag₂, htag]
  exact ⟨d, d', hd, hd', by rw [hnext, hnext', hptr], congrArg Prod.fst hsame,
    congrArg Prod.snd hsame⟩

theorem Done.same (h : s.view.Sound c) : Done s s c i (c i) ((c i).map s.view.tag) := by
  refine ⟨?_, .refl, rfl⟩
  rwa [update_eq_self_iff.2 rfl]

/-! ## Operations -/

/-- What an operation does if it changes the list `i`. -/
structure Right (s : TagLists) (m : TagMaps) (op : TagOp) : Prop where
  right : s.step op = none ∧ m.step op = none ∨ ∃ s' m' r c', s.step op = some (s', r) ∧
    m.step op = some (m', r) ∧ Holds s' c' m' ∧ Untouched s s' op

theorem Holds.right {op : TagOp} {l : List ℕ} {tags : List (TypeId × List UInt8)} {x : TagMap}
    {r : TagResult} (h : Holds s c m) (hdone : Done s s' c i l tags) (hx : x = mapOf tags)
    (htarget : op.target = some i) (hs : s.step op = some (s', r))
    (hm : m.step op = some (m.set i x, r)) : Right s m op :=
  ⟨Or.inr ⟨s', _, r, _, hs, hm, h.done hdone hx, .of_keeps _ h.sound hdone.keeps htarget⟩⟩

/-- A list that is there, with its map. -/
theorem Holds.get (h : Holds s c m) (i : ℕ) : s.lists[i]? = none ∧ m[i]? = none ∨
    .head i ∈ s.slots ∧ ∃ x, m[i]? = some x ∧ x = mapOf ((c i).map s.view.tag) := by
  cases hm : m[i]? with
  | none =>
    have hle := List.getElem?_eq_none_iff.1 hm
    exact Or.inl ⟨List.getElem?_eq_none (by rwa [h.length]), rfl⟩
  | some x =>
    refine Or.inr ⟨?_, x, rfl, h.maps i x hm⟩
    rw [head_mem_slots, h.length]
    exact (List.getElem?_eq_some_iff.1 hm).1

/-- A type is in a list at one place or not at all. -/
theorem Holds.place (h : Holds s c m) (hi : .head i ∈ s.slots) (tid : TypeId) :
    (∀ a ∈ c i, (s.view.tag a).1 ≠ tid) ∧ mapOf ((c i).map s.view.tag) tid = none ∨
    ∃ pre cur rest, c i = pre ++ cur :: rest ∧ (∀ a ∈ pre, (s.view.tag a).1 ≠ tid) ∧
      (s.view.tag cur).1 = tid ∧
      mapOf ((c i).map s.view.tag) tid = some (s.view.tag cur).2 := by
  by_cases hin : ∃ a ∈ c i, (s.view.tag a).1 = tid
  · obtain ⟨cur, hcur, htid⟩ := hin
    obtain ⟨pre, rest, hc⟩ := List.append_of_mem hcur
    have hkeys := h.sound.keys i hi
    rw [hc, List.map_append, List.map_append, List.map_cons, List.map_cons,
      List.nodup_append] at hkeys
    have hpre : ∀ a ∈ pre, (s.view.tag a).1 ≠ tid := fun a ha heq =>
      hkeys.2.2 _ (List.mem_map_of_mem (List.mem_map_of_mem ha)) _ List.mem_cons_self
        (heq.trans htid.symm)
    refine Or.inr ⟨pre, cur, rest, hc, hpre, htid, ?_⟩
    have hnotin : tid ∉ (pre.map s.view.tag).map Prod.fst := by
      rw [List.map_map]
      intro hmem
      obtain ⟨a, ha, heq⟩ := List.mem_map.1 hmem
      exact hpre a ha heq
    have hpair : s.view.tag cur = (tid, (s.view.tag cur).2) := Prod.ext htid rfl
    rw [hc, List.map_append, List.map_cons, hpair, mapOf_middle _ _ _ _ hnotin, update_self]
  · have hall : ∀ a ∈ c i, (s.view.tag a).1 ≠ tid := fun a ha heq => hin ⟨a, ha, heq⟩
    refine Or.inl ⟨hall, mapOf_eq_none.2 fun hmem => ?_⟩
    rw [List.map_map] at hmem
    obtain ⟨a, ha, heq⟩ := List.mem_map.1 hmem
    exact hall a ha heq

theorem Holds.add (h : Holds s c m) (tag : SerializedTag) : Right s m (.add i tag) := by
  rcases h.get i with ⟨hs, hm⟩ | ⟨hi, x, hm, hx⟩
  · refine ⟨Or.inl ⟨?_, ?_⟩⟩
    · rw [step, TagLists.add, hs]
      rfl
    · rw [TagMaps.step, hm]
      rfl
  · have hlists := lists_eq (head_mem_slots.1 hi)
    rcases h.place hi tag.tid with ⟨hall, hnone⟩ | ⟨pre, cur, rest, hc, -, htid, hsome⟩
    · obtain ⟨s', l', heq, hdone⟩ := add_spec h.sound hi hall
      refine h.right (x := update x tag.tid (some tag.data)) hdone ?_ rfl
        (congrArg (Option.map _) heq) ?_
      · have hmid := mapOf_middle tag.tid tag.data [] ((c i).map s.view.tag) List.not_mem_nil
        rw [hx]
        exact hmid.symm
      · rw [← hx] at hnone
        rw [TagMaps.step, hm]
        simp only [Option.bind_eq_bind, Option.bind_some, hnone]
        rfl
    · refine ⟨Or.inl ⟨?_, ?_⟩⟩
      · have hchain : IsChain s.ptr (.head i) (c i) := h.sound.forest.chain i hi
        have hin : ∀ a ∈ c i, .next a ∈ s.slots := fun a ha =>
          (h.sound.forest.nodes a).2 ⟨i, hi, ha⟩
        have hfind := find_spec tag.tid hchain hin
          (Nat.lt_succ_of_le (length_le hchain hin))
        obtain ⟨b, hb⟩ : ∃ b, ((c i).find? fun a => (s.view.tag a).1 = tag.tid) = some b := by
          rw [← Option.isSome_iff_exists, List.find?_isSome]
          exact ⟨cur, by rw [hc]; simp, decide_eq_true htid⟩
        rw [hb] at hfind
        rw [step, TagLists.add, hlists]
        simp only [Option.bind_eq_bind, Option.bind_some, hfind]
        rfl
      · rw [← hx] at hsome
        rw [TagMaps.step, hm]
        simp only [Option.bind_eq_bind, Option.bind_some, hsome]
        rfl

theorem Holds.peek (h : Holds s c m) (tid : TypeId) : Right s m (.peek i tid) := by
  rcases h.get i with ⟨hs, hm⟩ | ⟨hi, x, hm, hx⟩
  · refine ⟨Or.inl ⟨?_, ?_⟩⟩
    · rw [step, TagLists.peek, hs]
      rfl
    · rw [TagMaps.step, hm]
      rfl
  · have hchain : IsChain s.ptr (.head i) (c i) := h.sound.forest.chain i hi
    have hin : ∀ a ∈ c i, .next a ∈ s.slots := fun a ha =>
      (h.sound.forest.nodes a).2 ⟨i, hi, ha⟩
    have hfind := find_spec tid hchain hin (Nat.lt_succ_of_le (length_le hchain hin))
    have hpeek : s.peek i tid = some (x tid) := by
      rw [TagLists.peek, lists_eq (head_mem_slots.1 hi)]
      simp only [Option.bind_eq_bind, Option.bind_some, hfind]
      rcases h.place hi tid with ⟨hall, hnone⟩ | ⟨pre, cur, rest, hc, hpre, htid, hsome⟩
      · have hf : ((c i).find? fun a => (s.view.tag a).1 = tid) = none :=
          List.find?_eq_none.2 fun a ha heq => hall a ha (of_decide_eq_true heq)
        rw [hf, hx, hnone]
      · have hf : ((c i).find? fun a => (s.view.tag a).1 = tid) = some cur := by
          rw [hc, List.find?_append, List.find?_eq_none.2 fun a ha heq =>
            hpre a ha (of_decide_eq_true heq)]
          simp [htid]
        obtain ⟨d, hd, -, -, htag⟩ := exists_node (hin cur (by rw [hc]; simp))
        rw [hf, hx, hsome, ← htag]
        simp only [hd, Option.map_some]
    refine ⟨Or.inr ⟨s, m, .data (x tid), c, congrArg (Option.map _) hpeek, ?_, h,
      .of_ptr h.sound (fun sl hsl => ⟨hsl, rfl⟩) rfl⟩⟩
    rw [TagMaps.step, hm]
    rfl

theorem Holds.removeAll (h : Holds s c m) : Right s m (.removeAll i) := by
  rcases h.get i with ⟨hs, hm⟩ | ⟨hi, x, hm, -⟩
  · refine ⟨Or.inl ⟨?_, ?_⟩⟩
    · rw [step, TagLists.removeAll, hs]
      rfl
    · rw [TagMaps.step, hm]
      rfl
  · obtain ⟨s', heq, hdone⟩ := removeAll_spec h.sound hi
    refine h.right (x := .empty) hdone rfl rfl (congrArg (Option.map _) heq) ?_
    rw [TagMaps.step, hm]
    rfl

theorem Holds.remove (h : Holds s c m) (tid : TypeId) : Right s m (.remove i tid) := by
  rcases h.get i with ⟨hs, hm⟩ | ⟨hi, x, hm, hx⟩
  · refine ⟨Or.inl ⟨?_, ?_⟩⟩
    · rw [step, TagLists.remove, cowTraverse, hs]
      rfl
    · rw [TagMaps.step, hm]
      rfl
  · have hmaps : m.step (.remove i tid) =
        some (m.set i (update x tid none), .data (x tid)) := by
      rw [TagMaps.step, hm]
      rfl
    rcases h.place hi tid with ⟨hall, hnone⟩ | ⟨pre, cur, rest, hc, hpre, htid, hsome⟩
    · have heq := cowTraverse_absent removeWriter h.sound hi hall
      rw [← hx] at hnone
      rw [hnone] at hmaps
      refine h.right (.same h.sound) ?_ rfl (congrArg (Option.map _) heq) hmaps
      rw [← hx]
      exact update_eq_self_iff.2 hnone.symm
    · have htags : (c i).map s.view.tag =
          pre.map s.view.tag ++ (tid, (s.view.tag cur).2) :: rest.map s.view.tag := by
        rw [hc, List.map_append, List.map_cons, ← htid]
      have hkeys := h.sound.keys i hi
      rw [htags] at hkeys
      have hmap : update x tid none = mapOf (pre.map s.view.tag ++ rest.map s.view.tag) := by
        rw [hx, htags]
        exact (mapOf_remove hkeys).symm
      rw [hx, hsome, ← hx] at hmaps
      rcases cowTraverse_present removeWriter h.sound hi h.room hc hpre htid with
        ⟨hone, heq⟩ | ⟨s₁, pre', hdone₁, hat, htwo, hlists, hpre', heq⟩
      · obtain ⟨hat, hother⟩ := at_of_counts _ h.sound hi hc hone
        obtain ⟨s', hwriter, hdone⟩ := removeWriter_true h.sound hat hother
        rw [hwriter] at heq
        exact h.right hdone hmap rfl (congrArg (Option.map _) heq) hmaps
      · obtain ⟨s', hwriter, hdone⟩ := removeWriter_false hdone₁.sound hat htwo
          (by rw [hlists]; exact h.room)
        have hsame := hdone₁.tags
        rw [hc, List.map_append, List.map_append, hpre', List.map_cons, List.map_cons] at hsame
        obtain ⟨hcur, hrest⟩ := List.cons.inj (List.append_cancel_left hsame)
        rw [hwriter, hcur] at heq
        rw [hpre', hrest] at hdone
        exact h.right (hdone₁.trans hdone) hmap rfl (congrArg (Option.map _) heq) hmaps

theorem Holds.replace (h : Holds s c m) {tag : SerializedTag} (hok : s.OpOk (.replace i tag)) :
    Right s m (.replace i tag) := by
  rcases h.get i with ⟨hs, hm⟩ | ⟨hi, x, hm, hx⟩
  · refine ⟨Or.inl ⟨?_, ?_⟩⟩
    · rw [step, TagLists.replace, cowTraverse, hs]
      rfl
    · rw [TagMaps.step, hm]
      rfl
  · have hmaps : m.step (.replace i tag) =
        some (m.set i (update x tag.tid (some tag.data)), .found (x tag.tid).isSome) := by
      rw [TagMaps.step, hm]
      rfl
    rcases h.place hi tag.tid with ⟨hall, hnone⟩ | ⟨pre, cur, rest, hc, hpre, htid, hsome⟩
    · have heq := cowTraverse_absent (replaceWriter tag) h.sound hi hall
      obtain ⟨s', l', hadd, hdone⟩ := add_spec h.sound hi hall
      rw [hx, hnone, ← hx] at hmaps
      refine h.right hdone ?_ rfl ?_ hmaps
      · have hmid := mapOf_middle tag.tid tag.data [] ((c i).map s.view.tag) List.not_mem_nil
        rw [hx]
        exact hmid.symm
      · rw [step, TagLists.replace, heq]
        simp only [Option.bind_eq_bind, Option.bind_some, hadd]
        rfl
    · have hpair : s.view.tag cur = (tag.tid, (s.view.tag cur).2) := Prod.ext htid rfl
      have hnotin : tag.tid ∉ (pre.map s.view.tag).map Prod.fst := by
        rw [List.map_map]
        intro hmem
        obtain ⟨a, ha, heq⟩ := List.mem_map.1 hmem
        exact hpre a ha heq
      have hmap : update x tag.tid (some tag.data) =
          mapOf (pre.map s.view.tag ++ (tag.tid, tag.data) :: rest.map s.view.tag) := by
        rw [hx, hc, List.map_append, List.map_cons, hpair, mapOf_middle _ _ _ _ hnotin,
          mapOf_middle _ _ _ _ hnotin, update_idem]
      rw [hx, hsome, ← hx] at hmaps
      rcases cowTraverse_present (replaceWriter tag) h.sound hi h.room hc hpre htid with
        ⟨hone, heq⟩ | ⟨s₁, pre', hdone₁, hat, htwo, hlists, hpre', heq⟩
      · obtain ⟨hat, hother⟩ := at_of_counts _ h.sound hi hc hone
        obtain ⟨d, hd, -, -, htag⟩ := exists_node (h.sound.here hat).node
        have hsize : (s.view.tag cur).2.length = tag.data.length := by
          rw [← htag] at htid ⊢
          refine hok pre cur rest d ⟨head_mem_slots.1 hi, ?_⟩ (fun b hb d' hd' => ?_) hd htid
          · rw [← hc]
            exact h.sound.forest.chain i hi
          · have hle := hone b hb
            rw [count_eq hd'] at hle
            exact UInt32.le_iff_toNat_le.2 hle
        obtain ⟨s', hwriter, hdone⟩ := replaceWriter_true h.sound hat hother htid hsize
        rw [hwriter] at heq
        refine h.right hdone hmap rfl ?_ hmaps
        rw [step, TagLists.replace, heq]
        rfl
      · have hsame := hdone₁.tags
        rw [hc, List.map_append, List.map_append, hpre', List.map_cons, List.map_cons] at hsame
        obtain ⟨hcur, hrest⟩ := List.cons.inj (List.append_cancel_left hsame)
        obtain ⟨s', l', hwriter, hdone⟩ := replaceWriter_false hdone₁.sound hat htwo
          (by rw [hlists]; exact h.room) (by rw [hcur]; exact htid)
        rw [hwriter] at heq
        rw [hpre', hrest] at hdone
        refine h.right (hdone₁.trans hdone) hmap rfl ?_ hmaps
        rw [step, TagLists.replace, heq]
        rfl

/-- A new list without tags. -/
theorem Holds.append (h : Holds s c m) (hroom : s.lists.length + 1 < 2 ^ 32) :
    Holds s.construct (update c s.lists.length []) (m ++ [.empty]) := by
  have hview : s.construct.view = _ := view_append
  have hn : Slot.head s.lists.length ∉ s.slots := fun hin =>
    lt_irrefl _ (head_mem_slots.1 hin)
  have hsound := h.sound.construct s.construct.view hn (by rw [hview]; rfl)
    (by rw [hview]; rfl) (by rw [hview]) (by rw [hview])
  have hlen : s.construct.lists.length = s.lists.length + 1 := by
    rw [TagLists.construct, List.length_append, List.length_singleton]
  refine ⟨hsound, ?_, fun j x hx => ?_, by rw [hlen]; exact hroom⟩
  · rw [hlen, List.length_append, List.length_singleton, h.length]
  · rw [h.length, hview]
    rcases Nat.lt_trichotomy j m.length with hlt | rfl | hgt
    · rw [List.getElem?_append_left hlt] at hx
      rw [update_of_ne (Nat.ne_of_lt hlt)]
      exact h.maps j x hx
    · rw [List.getElem?_concat_length] at hx
      rw [update_self]
      exact (Option.some.inj hx).symm
    · rw [List.getElem?_eq_none (by rw [List.length_append, List.length_singleton]; omega)] at hx
      exact absurd hx.symm (Option.some_ne_none x)

theorem Untouched.append (op : TagOp) (h : s.view.Sound c) (v : Option ℕ) :
    Untouched s { s with lists := s.lists ++ [v] } op := by
  have hview : ({ s with lists := s.lists ++ [v] } : TagLists).view = _ := view_append
  refine .of_ptr h (fun sl hsl => ?_) (by rw [hview])
  have hne : sl ≠ .head s.lists.length := by
    rintro rfl
    exact lt_irrefl _ (head_mem_slots.1 hsl)
  refine ⟨?_, (congrFun (congrArg TagView.ptr hview) sl).trans (update_of_ne hne _ _)⟩
  change sl ∈ ({ s with lists := s.lists ++ [v] } : TagLists).view.slots
  rw [hview]
  exact Finset.mem_insert_of_mem hsl

/-- A list without nodes is set to the nodes of another one. -/
theorem share_spec {o : ℕ} {s₁ : TagLists} (h : s.view.Sound c) (hi : .head i ∈ s.slots)
    (hc : c i = []) (ho : .head o ∈ s.slots) (hoi : o ≠ i) (hroom : s.lists.length < 2 ^ 32)
    (hview : s₁.view = ⟨s.slots, update s.ptr (.head i) (s.ptr (.head o)), s.view.count,
      s.view.tag⟩) :
    ∃ s', s₁.incrementNext (s.ptr (.head o)) = some s' ∧
      Done s s' c i (c o) ((c o).map s.view.tag) := by
  have hslots : s₁.slots = s.slots := congrArg TagView.slots hview
  have hptr : s₁.ptr = update s.ptr (.head i) (s.ptr (.head o)) := congrArg TagView.ptr hview
  obtain ⟨v', hv'⟩ : ∃ v' : TagView, v' = ⟨s.slots, update s.ptr (.head i) (s.ptr (.head o)),
    bump (s.ptr (.head o)) s.view.count, s.view.tag⟩ := ⟨_, rfl⟩
  obtain ⟨hsound, hkeeps⟩ := h.share v' hi hc ho hoi (by rw [hv']; rfl)
    (by rw [hv']; rfl) (by rw [hv']; rfl) (by rw [hv'])
  obtain ⟨s', hs', hview', -⟩ := incrementNext_spec (s := s₁) (v := s.ptr (.head o))
    (fun a ha => by
      rw [hslots]
      exact ptr_mem h ho ha) fun a ha => by
    refine lt_of_le_of_lt ?_ hroom
    have hbound := count_le hsound (fun j hj => (hkeeps.heads j).1 hj) a (by
      rw [hv']
      exact ptr_mem h ho ha)
    rw [hv'] at hbound
    rw [hview]
    exact hbound
  have hfinal : s'.view = v' := by rw [hview', hslots, hptr, hview, hv']
  refine ⟨s', hs', ?_, ?_, ?_⟩
  · rwa [hfinal]
  · rwa [hfinal]
  · rw [hfinal, hv']

theorem Holds.copy (h : Holds s c m) {o : ℕ} (hroom : s.lists.length + 1 < 2 ^ 32) :
    Right s m (.copy o) := by
  rcases h.get o with ⟨hs, hm⟩ | ⟨ho, x, hm, hx⟩
  · refine ⟨Or.inl ⟨?_, ?_⟩⟩
    · rw [step, TagLists.copy, hs]
      rfl
    · rw [TagMaps.step, hm]
      rfl
  · have happend := h.append hroom
    have hlt := head_mem_slots.1 ho
    have hcons : s.construct.view = _ := view_append
    have hptr : s.construct.ptr = update s.ptr (.head s.lists.length) none :=
      congrArg TagView.ptr hcons
    have hne : (Slot.head o : Slot ℕ ℕ) ≠ .head s.lists.length := fun heq =>
      Nat.ne_of_lt hlt (Slot.head.inj heq)
    have hhead : s.construct.ptr (.head o) = s.ptr (.head o) := by
      rw [hptr, update_of_ne hne]
    have hlen : s.construct.lists.length = s.lists.length + 1 := by
      rw [TagLists.construct, List.length_append, List.length_singleton]
    have hview : ({ s with lists := s.lists ++ [s.ptr (.head o)] } : TagLists).view =
        ⟨s.construct.slots, update s.construct.ptr (.head s.lists.length)
          (s.construct.ptr (.head o)), s.construct.view.count, s.construct.view.tag⟩ := by
      rw [view_append, hhead, hptr, update_idem, hcons]
      congr 1
      exact (congrArg TagView.slots hcons).symm
    obtain ⟨s', heq, hdone⟩ := share_spec happend.sound
      (head_mem_slots.2 (by rw [hlen]; exact Nat.lt_succ_self _)) (update_self _ _ _)
      (head_mem_slots.2 (by rw [hlen]; exact Nat.lt_succ_of_lt hlt)) (Nat.ne_of_lt hlt)
      happend.room hview
    rw [hhead] at heq
    have hco : update c s.lists.length [] o = c o := update_of_ne (Nat.ne_of_lt hlt) _ _
    rw [hco, hcons] at hdone
    have hholds := happend.done hdone hx
    have hset : (m ++ [TagMap.empty]).set s.lists.length x = m ++ [x] := by
      rw [h.length, List.set_append_right _ _ (Nat.le_refl _), Nat.sub_self]
      rfl
    rw [hset] at hholds
    refine ⟨Or.inr ⟨s', m ++ [x], .nothing, _, ?_, ?_, hholds, fun j l hj hl => ?_⟩⟩
    · rw [step, TagLists.copy, lists_eq hlt]
      simp only [Option.bind_eq_bind, Option.bind_some, heq]
      rfl
    · rw [TagMaps.step, hm]
      rfl
    · -- the nodes first stay in memory, and then the counts change
      have hkeeps := Untouched.of_keeps (.removeAll s.lists.length) happend.sound
        hdone.keeps rfl
      obtain ⟨hl', hnodes⟩ := Untouched.append (.copy o) h.sound none j l hj hl
      obtain ⟨hl'', hnodes'⟩ := hkeeps j l (fun heq => by
        obtain rfl := Option.some.inj heq
        exact lt_irrefl _ hl.1) hl'
      refine ⟨hl'', fun a ha => ?_⟩
      obtain ⟨d, d₁, hd, hd₁, hnext, htid, hdata⟩ := hnodes a ha
      obtain ⟨d₂, d', hd₂, hd', hnext', htid', hdata'⟩ := hnodes' a ha
      obtain rfl : d₁ = d₂ := Option.some.inj (hd₁.symm.trans hd₂)
      exact ⟨d, d', hd, hd', hnext'.trans hnext, htid'.trans htid, hdata'.trans hdata⟩

theorem Holds.assign (h : Holds s c m) {o : ℕ} : Right s m (.assign i o) := by
  rcases h.get i with ⟨hs, hm⟩ | ⟨hi, y, hmi, -⟩
  · refine ⟨Or.inl ⟨?_, ?_⟩⟩
    · rw [step, TagLists.assign, hs]
      rfl
    · rw [TagMaps.step, hm]
      rfl
  rcases h.get o with ⟨hs, hm⟩ | ⟨ho, x, hm, hx⟩
  · refine ⟨Or.inl ⟨?_, ?_⟩⟩
    · rw [step, TagLists.assign, hs, lists_eq (head_mem_slots.1 hi)]
      rfl
    · rw [TagMaps.step, hm, hmi]
      rfl
  have hmaps : m.step (.assign i o) = some (m.set i x, .nothing) := by
    rw [TagMaps.step, hmi, hm]
    rfl
  by_cases heads : s.ptr (.head i) = s.ptr (.head o)
  · have hco : c i = c o := by
      refine (h.sound.forest.chain i hi).unique ?_
      exact (h.sound.forest.chain o ho).congr heads fun _ _ => rfl
    refine h.right (.same h.sound) (by rw [hx, hco]) rfl ?_ hmaps
    rw [step, TagLists.assign, lists_eq (head_mem_slots.1 hi), lists_eq (head_mem_slots.1 ho)]
    simp only [Option.bind_eq_bind, Option.bind_some, heads, if_true]
    rfl
  · have hoi : o ≠ i := fun heq => heads (heq ▸ rfl)
    obtain ⟨s₁, heq₁, hdone₁⟩ := removeAll_spec h.sound hi
    have hi₁ : .head i ∈ s₁.slots := (hdone₁.heads i).2 hi
    have ho₁ : .head o ∈ s₁.slots := (hdone₁.heads o).2 ho
    have hhead : s₁.ptr (.head o) = s.ptr (.head o) := hdone₁.keeps.head o ho hoi
    obtain ⟨s', heq, hdone⟩ := share_spec hdone₁.sound hi₁ (update_self _ _ _) ho₁ hoi
      (by rw [length_lists_eq hdone₁.heads]; exact h.room) (view_setList hi₁)
    have htags : (c o).map s₁.view.tag = (c o).map s.view.tag :=
      List.map_congr_left fun a ha => (hdone₁.keeps.node o ho hoi a ha).2.2
    rw [update_of_ne hoi, htags] at hdone
    rw [hhead] at heq
    refine h.right (hdone₁.trans hdone) hx rfl ?_ hmaps
    rw [step, TagLists.assign, lists_eq (head_mem_slots.1 hi), lists_eq (head_mem_slots.1 ho)]
    simp only [Option.bind_eq_bind, Option.bind_some, heads, if_false, heq₁, heq]
    rfl

/-- Every operation does to the lists what it does to the maps. -/
theorem Holds.step (h : Holds s c m) {op : TagOp} (hok : s.OpOk op) : Right s m op := by
  cases op with
  | construct =>
    exact ⟨Or.inr ⟨s.construct, _, .nothing, _, rfl, rfl, h.append hok, .append _ h.sound none⟩⟩
  | copy o => exact h.copy hok
  | assign i o => exact h.assign
  | add i tag => exact h.add tag
  | remove i tid => exact h.remove tid
  | replace i tag => exact h.replace hok
  | peek i tid => exact h.peek tid
  | removeAll i => exact h.removeAll

/-- So does every run. -/
theorem Holds.run {ops : List TagOp} (h : Holds s c m) (hok : s.RunOk ops) :
    s.run ops = none ∧ m.run ops = none ∨ ∃ s' m' rs c', s.run ops = some (s', rs) ∧
      m.run ops = some (m', rs) ∧ Holds s' c' m' := by
  induction ops generalizing s c m with
  | nil => exact Or.inr ⟨s, m, [], c, rfl, rfl, h⟩
  | cons op ops ih =>
    obtain ⟨hop, hrest⟩ := hok
    rw [TagLists.run, TagMaps.run]
    rcases (h.step hop).right with ⟨hs, hm⟩ | ⟨s₁, m₁, r, c₁, hs, hm, h₁, -⟩
    · rw [hs, hm]
      exact Or.inl ⟨rfl, rfl⟩
    · rw [hs] at hrest
      rw [hs, hm]
      rcases ih h₁ hrest with ⟨hs', hm'⟩ | ⟨s', m', rs, c', hs', hm', h'⟩
      · simp only [Option.bind_eq_bind, Option.bind_some, hs', hm']
        exact Or.inl ⟨rfl, rfl⟩
      · simp only [Option.bind_eq_bind, Option.bind_some, hs', hm']
        exact Or.inr ⟨s', m', r :: rs, c', rfl, rfl, h'⟩

theorem holds_empty : Holds {} (fun _ => []) [] where
  sound := by
    have hslots : ∀ sl, sl ∉ ({} : TagLists).view.slots := fun sl => Finset.notMem_empty sl
    refine ⟨⟨fun i hi => absurd hi (hslots _), fun a => iff_of_false (hslots _) ?_⟩,
      fun a ha => absurd ha (hslots _), fun _ _ => List.nodup_nil⟩
    rintro ⟨i, hi, -⟩
    exact hslots _ hi
  length := rfl
  maps i x hx := absurd hx.symm (Option.some_ne_none x)
  room := by decide

theorem runOk_append {ops more : List TagOp} (h : s.RunOk (ops ++ more)) :
    s.RunOk ops ∧ ∀ s' rs, s.run ops = some (s', rs) → s'.RunOk more := by
  induction ops generalizing s with
  | nil =>
    refine ⟨trivial, fun s' rs hs => ?_⟩
    obtain ⟨rfl, -⟩ := Prod.mk.inj (Option.some.inj hs)
    exact h
  | cons op ops ih =>
    obtain ⟨hop, hrest⟩ := h
    cases hstep : s.step op with
    | none =>
      refine ⟨⟨hop, by rw [hstep]; trivial⟩, fun s' rs hs => ?_⟩
      rw [TagLists.run, hstep] at hs
      exact absurd hs.symm (Option.some_ne_none _)
    | some r =>
      simp only [hstep] at hrest
      obtain ⟨hops, hmore⟩ := ih hrest
      refine ⟨⟨hop, by rw [hstep]; exact hops⟩, fun s' rs hs => ?_⟩
      rw [TagLists.run, hstep] at hs
      simp only [Option.bind_eq_bind, Option.bind_some] at hs
      cases hrun : r.1.run ops with
      | none =>
        rw [hrun] at hs
        exact absurd hs.symm (Option.some_ne_none _)
      | some q =>
        rw [hrun] at hs
        obtain ⟨rfl, -⟩ := Prod.mk.inj (Option.some.inj hs)
        exact hmore _ _ hrun

/-! ## The result -/

/-- The lists return what the maps return, they are maps with the right counts in every state of
a run, and no operation touches the nodes of another list. -/
theorem independentMaps {ops more : List TagOp} (hok : ({} : TagLists).RunOk (ops ++ more)) :
    (({} : TagLists).run (ops ++ more)).map Prod.snd =
        (TagMaps.run [] (ops ++ more)).map Prod.snd ∧
      ∀ s rs, ({} : TagLists).run ops = some (s, rs) →
        (∃ m, TagMaps.run [] ops = some (m, rs) ∧ s.AreMaps m) ∧
        ∀ op rest s' r, more = op :: rest → s.step op = some (s', r) → Untouched s s' op := by
  refine ⟨?_, fun s rs hs => ?_⟩
  · rcases holds_empty.run hok with ⟨hs, hm⟩ | ⟨s, m, rs, c, hs, hm, -⟩
    · rw [hs, hm]
      rfl
    · rw [hs, hm]
      rfl
  · obtain ⟨hops, hmore⟩ := runOk_append hok
    rcases holds_empty.run hops with ⟨hnone, -⟩ | ⟨s₁, m, rs₁, c, hs₁, hm, h⟩
    · exact absurd (hnone.symm.trans hs) (Option.some_ne_none _).symm
    · obtain ⟨rfl, rfl⟩ := Prod.mk.inj (Option.some.inj (hs₁.symm.trans hs))
      refine ⟨⟨m, hm, h.areMaps⟩, fun op rest s' r hmore' hstep => ?_⟩
      have hop := hmore s₁ rs₁ hs
      rw [hmore'] at hop
      rcases (h.step hop.1).right with ⟨hnone, -⟩ | ⟨s₂, -, r₂, -, hs₂, -, -, huntouched⟩
      · exact absurd (hnone.symm.trans hstep) (Option.some_ne_none _).symm
      · obtain ⟨rfl, -⟩ := Prod.mk.inj (Option.some.inj (hs₂.symm.trans hstep))
        exact huntouched

/-- A list with a tag of four bytes, and a copy of it. -/
def shareOne : List TagOp :=
  [.construct, .add 0 ⟨1, [1, 2, 3, 4], by decide⟩, .copy 0]

/-- The copy gets a tag of another size, and is left alone by the other list. -/
theorem independentMaps_shareOne :
    (({} : TagLists).run (shareOne ++ [.replace 1 ⟨1, [9], by decide⟩])).map Prod.snd =
        (TagMaps.run [] (shareOne ++ [.replace 1 ⟨1, [9], by decide⟩])).map Prod.snd ∧
      ∀ s rs, ({} : TagLists).run shareOne = some (s, rs) →
        (∃ m, TagMaps.run [] shareOne = some (m, rs) ∧ s.AreMaps m) ∧
        ∀ op rest s' r, [.replace 1 ⟨1, [9], by decide⟩] = op :: rest →
          s.step op = some (s', r) → Untouched s s' op := by
  have hone : 0 + 1 < 2 ^ 32 := by decide
  have htwo : 1 + 1 < 2 ^ 32 := by decide
  refine independentMaps ⟨hone, trivial, htwo, ?_, trivial⟩
  intro pre a post d hl hcounts hd _
  have hchain : pre ++ a :: post = [0] := hl.2.unique ⟨rfl, rfl⟩
  obtain ⟨rfl, hpost⟩ := List.append_eq_singleton_iff.1 hchain |>.resolve_right (by simp)
  obtain ⟨rfl, rfl⟩ := List.cons.inj hpost
  have hle := hcounts 0 List.mem_cons_self d hd
  obtain rfl := Option.some.inj hd
  exact absurd hle (by decide)

/-- A tag of four bytes that is replaced by one of one byte, or by one of five. -/
def replaceOne (data : List UInt8) (h : data.length < 2 ^ 32 - 1) : List TagOp :=
  [.construct, .add 0 ⟨1, [1, 2, 3, 4], by decide⟩, .replace 0 ⟨1, data, h⟩, .peek 0 1]

/-- The last three bytes of the old tag stay behind the new one. A longer tag does not fit. -/
theorem not_independentMaps :
    (({} : TagLists).run (replaceOne [9] (by decide))).map Prod.snd =
      some [.nothing, .nothing, .found true, .data (some [9, 2, 3, 4])] ∧
    (TagMaps.run [] (replaceOne [9] (by decide))).map Prod.snd =
      some [.nothing, .nothing, .found true, .data (some [9])] ∧
    (({} : TagLists).run (replaceOne [1, 2, 3, 4, 5] (by decide))).map Prod.snd = none ∧
    (TagMaps.run [] (replaceOne [1, 2, 3, 4, 5] (by decide))).map Prod.snd =
      some [.nothing, .nothing, .found true, .data (some [1, 2, 3, 4, 5])] :=
  ⟨by decide, by decide, by decide, by decide⟩

end TagLists

end Ns3Pedca
