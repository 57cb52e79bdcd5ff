import Ns3Pedca.Simulator.CalendarScheduler

/-!
# The queue in the calendar

A bucket has the events of the queue with its hash, in order or in the reverse order (`Filled`).
The loop that looks for the next event ends with the least one (`Found.spec`, `next_found`), also
where the end of a slot is beyond the greatest number of 64 bits. The samples are taken out and
put back, and all events are put into the new buckets, so that the calendar does what the list
does (`implements`), as long as no event has the greatest timestamp, which the loop takes for
none, and the events are counted in 32 bits.
-/

namespace Ns3Pedca

variable {l es : List Event} {ev x next : Event} {last : UInt64}

theorem SortedEvents.filter (h : SortedEvents l) (p : Event → Bool) : SortedEvents (l.filter p) :=
  ⟨h.ordered.sublist List.filter_sublist, h.uids.sublist (List.filter_sublist.map _)⟩

theorem SortedEvents.filter_insert (h : SortedEvents l) (hev : ∀ x ∈ l, x.key.uid ≠ ev.key.uid)
    (p : Event → Bool) : (ListScheduler.insert ev l).filter p =
      if p ev then ListScheduler.insert ev (l.filter p) else l.filter p := by
  have hperm : ((ListScheduler.insert ev l).filter p).Perm ((ev :: l).filter p) :=
    ListScheduler.perm_insert.filter p
  have hsorted := ((h.insert hev).filter p).ordered
  by_cases hp : p ev = true
  · rw [if_pos hp]
    rw [List.filter_cons_of_pos hp] at hperm
    refine sorted_unique (hperm.trans ListScheduler.perm_insert.symm) hsorted
      ((h.filter p).insert fun x hx => ?_).ordered
    exact hev x (List.mem_of_mem_filter hx)
  · rw [if_neg hp]
    rw [List.filter_cons_of_neg hp] at hperm
    exact sorted_unique hperm hsorted (h.filter p).ordered

theorem SortedEvents.filter_remove (h : SortedEvents l) (hev : ev ∈ l) (p : Event → Bool) :
    (ListScheduler.remove ev l).filter p =
      if p ev then ListScheduler.remove ev (l.filter p) else l.filter p := by
  obtain ⟨hsorted, hperm⟩ := h.remove hev
  have hfilter := hperm.filter p
  by_cases hp : p ev = true
  · rw [if_pos hp]
    rw [List.filter_cons_of_pos hp] at hfilter
    obtain ⟨hsorted', hperm'⟩ := (h.filter p).remove (List.mem_filter.2 ⟨hev, hp⟩)
    refine sorted_unique ((List.perm_cons ev).1 (hfilter.symm.trans hperm')) ?_ hsorted'.ordered
    exact (hsorted.filter p).ordered
  · rw [if_neg hp]
    rw [List.filter_cons_of_neg hp] at hfilter
    exact sorted_unique hfilter.symm (hsorted.filter p).ordered (h.filter p).ordered

namespace CalendarScheduler

/-! ## Buckets in order -/

section Reverse

variable {reverse : Bool} {bucket : List Event}

/-- The events of a bucket in the order of their keys. -/
def chron (reverse : Bool) (bucket : List Event) : List Event :=
  if reverse then bucket.reverse else bucket

theorem chron_perm (reverse : Bool) (bucket : List Event) : (chron reverse bucket).Perm bucket := by
  cases reverse
  · exact List.Perm.refl _
  · exact List.reverse_perm _

theorem nextEvent_eq : nextEvent reverse bucket = (chron reverse bucket).head? := by
  cases reverse
  · rfl
  · exact (List.head?_reverse).symm

theorem chron_pop : chron reverse (pop reverse bucket) = (chron reverse bucket).tail := by
  cases reverse
  · rfl
  · exact (List.tail_reverse).symm

theorem perm_insertIn : (insertIn reverse ev bucket).Perm (ev :: bucket) := by
  induction bucket with
  | nil => exact List.Perm.refl _
  | cons i bucket ih =>
    rw [insertIn]
    split_ifs
    · exact List.Perm.refl _
    · exact (ih.cons i).trans (List.Perm.swap _ _ _)

theorem order_iff {a b : EventKey} :
    order reverse a b = true ↔ if reverse then b.rank < a.rank else a.rank < b.rank := by
  cases reverse <;> exact EventKey.lt_iff

theorem chron_ordered : (chron reverse bucket).Pairwise (fun a b => a.rank < b.rank) ↔
    bucket.Pairwise fun a b => order reverse a.key b.key = true := by
  have hrank : ∀ a b : Event, a.rank < b.rank ↔ a.key.lt b.key = true := fun _ _ =>
    EventKey.lt_iff.symm
  cases reverse
  · exact List.Pairwise.iff hrank
  · exact List.pairwise_reverse.trans (List.Pairwise.iff fun a b => hrank b a)

theorem insertIn_ordered (h : bucket.Pairwise fun a b => order reverse a.key b.key = true)
    (hev : ∀ x ∈ bucket, x.key.uid ≠ ev.key.uid) :
    (insertIn reverse ev bucket).Pairwise fun a b => order reverse a.key b.key = true := by
  induction bucket with
  | nil => exact List.pairwise_singleton _ _
  | cons i bucket ih =>
    obtain ⟨hi, hbucket⟩ := List.pairwise_cons.1 h
    obtain ⟨hne, hall⟩ := List.forall_mem_cons.1 hev
    have hrank := EventKey.rank_ne hne
    rw [insertIn]
    by_cases hlt : order reverse ev.key i.key = true
    · rw [if_pos hlt]
      refine List.pairwise_cons.2 ⟨List.forall_mem_cons.2 ⟨hlt, fun x hx => ?_⟩, h⟩
      have hix := hi x hx
      rw [order_iff] at hlt hix ⊢
      cases reverse
      · exact lt_trans hlt hix
      · exact lt_trans hix hlt
    · rw [if_neg hlt]
      have hgt : order reverse i.key ev.key = true := by
        rw [order_iff] at hlt ⊢
        cases reverse
        · exact lt_of_le_of_ne (Nat.not_lt.1 hlt) hrank
        · exact lt_of_le_of_ne (Nat.not_lt.1 hlt) hrank.symm
      refine List.pairwise_cons.2 ⟨fun x hx => ?_, ih hbucket hall⟩
      rcases List.mem_cons.1 (perm_insertIn.mem_iff.1 hx) with rfl | hx
      · exact hgt
      · exact hi x hx

/-- An event comes into its bucket as into the list. -/
theorem chron_insertIn (h : SortedEvents (chron reverse bucket))
    (hev : ∀ x ∈ chron reverse bucket, x.key.uid ≠ ev.key.uid) :
    chron reverse (insertIn reverse ev bucket) =
      ListScheduler.insert ev (chron reverse bucket) := by
  have hperm : (chron reverse (insertIn reverse ev bucket)).Perm (ev :: chron reverse bucket) :=
    (chron_perm _ _).trans (perm_insertIn.trans ((chron_perm _ _).symm.cons ev))
  refine sorted_unique (hperm.trans ListScheduler.perm_insert.symm) ?_ (h.insert hev).ordered
  refine chron_ordered.2 (insertIn_ordered (chron_ordered.1 h.ordered) fun x hx => ?_)
  exact hev x ((chron_perm _ _).mem_iff.2 hx)

/-- An event leaves its bucket as it leaves the list. -/
theorem chron_eraseP (h : SortedEvents (chron reverse bucket)) (hev : ev ∈ chron reverse bucket) :
    chron reverse (bucket.eraseP fun i => i.key.uid = ev.key.uid) =
      ListScheduler.remove ev (chron reverse bucket) := by
  have hbucket := chron_perm reverse bucket
  obtain ⟨hsorted, hperm⟩ := h.remove hev
  have huids : (bucket.map fun ev => ev.key.uid).Nodup := (hbucket.map _).nodup_iff.1 h.uids
  rw [eraseP_uid huids (hbucket.mem_iff.1 hev)]
  refine sorted_unique ?_ ?_ hsorted.ordered
  · refine (List.perm_cons ev).1 (((chron_perm _ _).cons ev).trans ?_)
    exact (List.perm_cons_erase (hbucket.mem_iff.1 hev)).symm.trans (hbucket.symm.trans hperm)
  · exact chron_ordered.2 ((chron_ordered.1 h.ordered).sublist List.erase_sublist)

end Reverse

/-! ## Filled buckets -/

/-- The event has the hash `i`. -/
def inBucket (s : CalendarScheduler) (i : ℕ) (ev : Event) : Bool :=
  s.hash ev.key.ts = i

/-- The buckets have the events of the queue. -/
structure Filled (s : CalendarScheduler) (l : List Event) : Prop where
  pos : 1 ≤ s.nBuckets
  width_pos : 1 ≤ s.width.toNat
  buckets : ∀ i < s.nBuckets, chron s.reverse (s.buckets i) = l.filter (s.inBucket i)

variable {s : CalendarScheduler} {i : ℕ}

theorem inBucket_iff : s.inBucket i ev = true ↔ s.hash ev.key.ts = i :=
  decide_eq_true_iff

theorem Filled.hash_lt (h : Filled s l) (ts : UInt64) : s.hash ts < s.nBuckets :=
  Nat.mod_lt _ h.pos

/-- `DoInsert` fills the buckets. -/
theorem Filled.doInsert (h : Filled s l) (hl : SortedEvents l)
    (hev : ∀ x ∈ l, x.key.uid ≠ ev.key.uid) :
    Filled (s.doInsert ev) (ListScheduler.insert ev l) := by
  refine ⟨h.pos, h.width_pos, fun i hi => ?_⟩
  have hbucket := h.buckets i hi
  change chron s.reverse (Function.update s.buckets (s.hash ev.key.ts) _ i) =
    (ListScheduler.insert ev l).filter (s.inBucket i)
  rw [hl.filter_insert hev]
  by_cases hhash : s.hash ev.key.ts = i
  · rw [if_pos (inBucket_iff.2 hhash), hhash, Function.update_self, ← hbucket]
    refine chron_insertIn ?_ fun x hx => ?_
    · rw [hbucket]
      exact hl.filter _
    · rw [hbucket] at hx
      exact hev x (List.mem_of_mem_filter hx)
  · rw [if_neg (fun h => hhash (inBucket_iff.1 h)), Function.update_of_ne (Ne.symm hhash)]
    exact hbucket

/-- An event that leaves its bucket. -/
theorem Filled.update (h : Filled s l) {l' bucket : List Event} {s' : CalendarScheduler}
    (hs' : s'.reverse = s.reverse ∧ s'.nBuckets = s.nBuckets ∧ s'.width = s.width ∧
      s'.buckets = Function.update s.buckets i bucket)
    (hbucket : chron s.reverse bucket = l'.filter (s.inBucket i))
    (hothers : ∀ j ≠ i, l'.filter (s.inBucket j) = l.filter (s.inBucket j)) : Filled s' l' := by
  obtain ⟨hreverse, hn, hwidth, hbuckets⟩ := hs'
  have hin : s'.inBucket = s.inBucket := by
    funext j ev
    rw [inBucket, inBucket, hash, hash, hn, hwidth]
  refine ⟨hn ▸ h.pos, hwidth ▸ h.width_pos, fun j hj => ?_⟩
  rw [hreverse, hbuckets, hin]
  by_cases hji : j = i
  · rw [hji, Function.update_self]
    exact hbucket
  · rw [Function.update_of_ne hji, hothers j hji]
    exact h.buckets j (hn ▸ hj)

/-! ## The search -/

/-- The bucket that the search visits after `k` others. -/
def place (s : CalendarScheduler) (k : ℕ) : ℕ :=
  (s.lastBucket + k) % s.nBuckets

/-- The end of its slot. -/
def topAt (s : CalendarScheduler) (k : ℕ) : UInt64 :=
  s.bucketTop + UInt64.ofNat k * s.width

/-- Its next event. -/
def headAt (s : CalendarScheduler) (k : ℕ) : Option Event :=
  nextEvent s.reverse (s.buckets (s.place k))

/-- What the search knows after `k` buckets, none of which has an event of this year. -/
structure Visited (s : CalendarScheduler) (start : Event) (k : ℕ) (minBucket : Option ℕ)
    (minEvent : Event) : Prop where
  later : ∀ j < k, ∀ x, s.headAt j = some x → ¬ x.key.ts < s.topAt j
  least : ∀ j < k, ∀ x, s.headAt j = some x → minEvent.rank ≤ x.rank
  start_le : minEvent.rank ≤ start.rank
  origin : minBucket = none ∧ minEvent = start ∨
    ∃ j < k, minBucket = some (s.place j) ∧ s.headAt j = some minEvent

/-- What the search ends with. -/
def Found.Spec (s : CalendarScheduler) (start : Event) : Found → Prop
  | .thisYear i bucketTop next => ∃ k < s.nBuckets, i = s.place k ∧ bucketTop = s.topAt k ∧
      s.headAt k = some next ∧ next.key.ts < s.topAt k ∧
      ∀ j < k, ∀ x, s.headAt j = some x → ¬ x.key.ts < s.topAt j
  | .least minBucket minEvent => Visited s start s.nBuckets minBucket minEvent

variable {start minEvent : Event} {minBucket : Option ℕ} {k : ℕ}

theorem topAt_succ : s.topAt (k + 1) = s.topAt k + s.width := by
  rw [topAt, topAt, UInt64.ofNat_add, UInt64.add_mul, UInt64.add_assoc]
  congr 2
  exact UInt64.one_mul _

theorem place_succ : (s.place k + 1) % s.nBuckets = s.place (k + 1) := by
  rw [place, place, Nat.mod_add_mod, Nat.add_assoc]

/-- One more bucket without an event of this year. -/
theorem Visited.step (h : Visited s start k minBucket minEvent)
    (hlater : ∀ x, s.headAt k = some x → ¬ x.key.ts < s.topAt k) :
    Visited s start (k + 1)
      (if ((s.headAt k).filter fun next => next.key.lt minEvent.key).isSome then some (s.place k)
        else minBucket)
      (((s.headAt k).filter fun next => next.key.lt minEvent.key).getD minEvent) := by
  have hsucc : ∀ {P : ℕ → Prop}, (∀ j < k, P j) → P k → ∀ j < k + 1, P j := by
    intro P hall hk j hj
    rcases Nat.lt_succ_iff_lt_or_eq.1 hj with hj | rfl
    · exact hall j hj
    · exact hk
  have horigin : ∀ {b : Option ℕ} {e : Event}, (b = none ∧ e = start ∨
      ∃ j < k, b = some (s.place j) ∧ s.headAt j = some e) → (b = none ∧ e = start ∨
      ∃ j < k + 1, b = some (s.place j) ∧ s.headAt j = some e) := by
    rintro b e (hb | ⟨j, hj, hb⟩)
    · exact Or.inl hb
    · exact Or.inr ⟨j, by omega, hb⟩
  cases hhead : s.headAt k with
  | none =>
    refine ⟨hsucc h.later hlater, hsucc h.least fun x hx => ?_, h.start_le, horigin h.origin⟩
    rw [hhead] at hx
    exact absurd hx.symm (Option.some_ne_none x)
  | some x =>
    by_cases hless : x.key.lt minEvent.key = true
    · have hrank : x.rank < minEvent.rank := EventKey.lt_iff.1 hless
      have hfilter : (some x).filter (fun next => next.key.lt minEvent.key) = some x := by
        rw [Option.filter_some, if_pos hless]
      rw [hfilter]
      refine ⟨hsucc h.later hlater, hsucc (fun j hj y hy => hrank.le.trans (h.least j hj y hy))
        fun y hy => ?_, hrank.le.trans h.start_le, Or.inr ⟨k, Nat.lt_succ_self k, rfl, hhead⟩⟩
      rw [hhead] at hy
      rw [Option.some.inj hy]
      exact le_rfl
    · have hfilter : (some x).filter (fun next => next.key.lt minEvent.key) = none := by
        rw [Option.filter_some, if_neg hless]
      rw [hfilter]
      refine ⟨hsucc h.later hlater, hsucc h.least fun y hy => ?_, h.start_le, horigin h.origin⟩
      rw [hhead] at hy
      rw [← Option.some.inj hy]
      exact Nat.not_lt.1 fun hn => hless (EventKey.lt_iff.2 hn)

/-- One bucket of the search. -/
theorem search_succ (m : ℕ) : s.search (m + 1) (s.place k) (s.topAt k) minBucket minEvent =
    match (s.headAt k).filter fun next => next.key.ts < s.topAt k with
    | some next => some (.thisYear (s.place k) (s.topAt k) next)
    | none =>
      let less := (s.headAt k).filter fun next => next.key.lt minEvent.key
      let minBucket := if less.isSome then some (s.place k) else minBucket
      if s.place (k + 1) ≠ s.lastBucket then
        s.search m (s.place (k + 1)) (s.topAt (k + 1)) minBucket (less.getD minEvent)
      else some (.least minBucket (less.getD minEvent)) := by
  rw [search, place_succ, topAt_succ]
  rfl

theorem place_eq_iff (hlast : s.lastBucket < s.nBuckets) (hk : k < s.nBuckets) :
    s.place (k + 1) ≠ s.lastBucket ↔ k + 1 < s.nBuckets := by
  have hplace : s.place (k + 1) = if s.lastBucket + (k + 1) < s.nBuckets then
      s.lastBucket + (k + 1) else s.lastBucket + (k + 1) - s.nBuckets := by
    rw [place]
    split_ifs with hlt
    · exact Nat.mod_eq_of_lt hlt
    · rw [Nat.mod_eq_sub_mod (Nat.not_lt.1 hlt), Nat.mod_eq_of_lt (by omega)]
  rw [hplace]
  split_ifs <;> omega

/-- The search ends in this bucket, or has visited one more. -/
theorem Visited.found_or_step (h : Visited s start k minBucket minEvent) :
    (∃ next, ((s.headAt k).filter fun next => next.key.ts < s.topAt k) = some next ∧
        s.headAt k = some next ∧ next.key.ts < s.topAt k) ∨
      ((s.headAt k).filter fun next => next.key.ts < s.topAt k) = none ∧
        Visited s start (k + 1)
          (if ((s.headAt k).filter fun next => next.key.lt minEvent.key).isSome then
            some (s.place k) else minBucket)
          (((s.headAt k).filter fun next => next.key.lt minEvent.key).getD minEvent) := by
  cases hfound : (s.headAt k).filter fun next => next.key.ts < s.topAt k with
  | some next =>
    obtain ⟨hhead, htop⟩ := Option.filter_eq_some_iff.1 hfound
    exact Or.inl ⟨next, rfl, hhead, of_decide_eq_true htop⟩
  | none =>
    refine Or.inr ⟨rfl, h.step fun x hx htop => ?_⟩
    rw [hx, Option.filter_some, if_pos (decide_eq_true htop)] at hfound
    exact absurd hfound (Option.some_ne_none x)

/-- The search goes once through all buckets. -/
theorem search_spec (hlast : s.lastBucket < s.nBuckets) (m : ℕ) (hk : k + (m + 1) = s.nBuckets)
    (h : Visited s start k minBucket minEvent) : ∃ found,
      s.search (m + 1) (s.place k) (s.topAt k) minBucket minEvent = some found ∧
      found.Spec s start := by
  induction m generalizing k minBucket minEvent with
  | zero =>
    rw [search_succ]
    obtain ⟨next, hfound, hhead, htop⟩ | ⟨hfound, hstep⟩ := h.found_or_step
    · rw [hfound]
      exact ⟨_, rfl, k, by omega, rfl, rfl, hhead, htop, h.later⟩
    · have hend : ¬ s.place (k + 1) ≠ s.lastBucket := by
        rw [place_eq_iff hlast (by omega)]
        omega
      rw [hfound]
      simp only [if_neg hend]
      rw [show k + 1 = s.nBuckets by omega] at hstep
      exact ⟨_, rfl, hstep⟩
  | succ m ih =>
    rw [search_succ]
    obtain ⟨next, hfound, hhead, htop⟩ | ⟨hfound, hstep⟩ := h.found_or_step
    · rw [hfound]
      exact ⟨_, rfl, k, by omega, rfl, rfl, hhead, htop, h.later⟩
    · have hgo : s.place (k + 1) ≠ s.lastBucket := by
        rw [place_eq_iff hlast (by omega)]
        omega
      rw [hfound]
      simp only [if_pos hgo]
      exact ih (by omega) hstep

/-! ## The next event -/

/-- The search begins at the slot of the last event. -/
structure Aligned (s : CalendarScheduler) : Prop where
  lastBucket : s.lastBucket = s.hash s.lastPrio
  bucketTop : s.bucketTop = (s.lastPrio / s.width + 1) * s.width

theorem Filled.head_eq (h : Filled s l) (k : ℕ) :
    s.headAt k = (l.filter (s.inBucket (s.place k))).head? := by
  rw [headAt, nextEvent_eq, h.buckets (s.place k) (Nat.mod_lt _ h.pos)]

theorem hash_eq (ts : UInt64) : s.hash ts = ts.toNat / s.width.toNat % s.nBuckets := by
  rw [hash, UInt64.toNat_div]

theorem Aligned.place_eq (h : Aligned s) (k : ℕ) :
    s.place k = (s.lastPrio.toNat / s.width.toNat + k) % s.nBuckets := by
  rw [place, h.lastBucket, hash_eq, Nat.mod_add_mod]

theorem Aligned.toNat_topAt (h : Aligned s) (k : ℕ) : (s.topAt k).toNat =
    (s.lastPrio.toNat / s.width.toNat + k + 1) * s.width.toNat % 2 ^ 64 := by
  have hone : (1 : UInt64).toNat = 1 := rfl
  rw [topAt, h.bucketTop, UInt64.toNat_add, UInt64.toNat_mul, UInt64.toNat_mul, UInt64.toNat_add,
    UInt64.toNat_div, UInt64.toNat_ofNat', hone, Nat.mod_mul_mod, Nat.mod_mul_mod, ← Nat.add_mod,
    ← Nat.add_mul]
  congr 2
  omega

/-- An event before the end of the slot, as the search sees it, is in one of the slots that have
been visited. -/
theorem Aligned.slot_eq (h : Aligned s) (hpos : 1 ≤ s.width.toNat) (hk : k < s.nBuckets)
    (hle : s.lastPrio ≤ x.key.ts) (hhash : s.hash x.key.ts = s.place k)
    (htop : x.key.ts < s.topAt k) :
    x.key.ts.toNat / s.width.toNat = s.lastPrio.toNat / s.width.toNat + k := by
  rw [UInt64.le_iff_toNat_le] at hle
  rw [UInt64.lt_iff_toNat_lt, h.toNat_topAt] at htop
  rw [hash_eq, h.place_eq] at hhash
  have hlow := Nat.div_le_div_right (c := s.width.toNat) hle
  have hhigh : x.key.ts.toNat / s.width.toNat < s.lastPrio.toNat / s.width.toNat + k + 1 := by
    rw [Nat.div_lt_iff_lt_mul hpos]
    exact htop.trans_le (Nat.mod_le _ _)
  generalize x.key.ts.toNat / s.width.toNat = d at hlow hhigh hhash
  generalize s.lastPrio.toNat / s.width.toNat = D at hlow hhigh hhash
  obtain ⟨e, rfl⟩ := Nat.exists_eq_add_of_le hlow
  have hmod : e % s.nBuckets = k % s.nBuckets := Nat.ModEq.add_left_cancel' D hhash
  rw [Nat.mod_eq_of_lt (show e < s.nBuckets by omega), Nat.mod_eq_of_lt hk] at hmod
  rw [hmod]

/-- What the search finds : the first event of the queue, its bucket and the end of its slot. -/
theorem Found.Spec.eq_next {found : Found} (h : found.Spec s start) (hs : Filled s (next :: l))
    (ha : Aligned s) (hl : SortedEvents (next :: l)) (hle : ∀ x ∈ next :: l, s.lastPrio ≤ x.key.ts)
    (hstart : next.rank < start.rank) :
    found = .thisYear (s.hash next.key.ts)
        ((next.key.ts / s.width + 1) * s.width) next ∨
      found = .least (some (s.hash next.key.ts)) next := by
  have hmem : ∀ {k x}, s.headAt k = some x → x ∈ next :: l ∧ s.hash x.key.ts = s.place k := by
    intro k x hx
    rw [hs.head_eq] at hx
    have hfilter := List.mem_of_mem_head? hx
    exact ⟨List.mem_of_mem_filter hfilter, inBucket_iff.1 (List.of_mem_filter hfilter)⟩
  have hnext : ∀ {k}, s.place k = s.hash next.key.ts → s.headAt k = some next := by
    intro k hk
    rw [hs.head_eq, hk, List.filter_cons_of_pos (inBucket_iff.2 rfl)]
    rfl
  have hplace : ∀ k, s.lastPrio.toNat / s.width.toNat + k = next.key.ts.toNat / s.width.toNat →
      s.place k = s.hash next.key.ts := by
    intro k hk
    rw [ha.place_eq, hk, hash_eq]
  have hprio := Nat.div_le_div_right (c := s.width.toNat)
    (UInt64.le_iff_toNat_le.1 (hle next List.mem_cons_self))
  cases found with
  | thisYear i bucketTop x =>
    obtain ⟨k, hk, rfl, rfl, hhead, hlt, hlater⟩ := h
    obtain ⟨hx, hhash⟩ := hmem hhead
    have hslot := ha.slot_eq hs.width_pos hk (hle x hx) hhash hlt
    have hts := UInt64.le_iff_toNat_le.1 (EventKey.ts_le (hl.head_le hx))
    have hslots := Nat.div_le_div_right (c := s.width.toNat) hts
    obtain ⟨k1, hk1⟩ := Nat.exists_eq_add_of_le hprio
    by_cases heq : k1 = k
    · subst heq
      have hxn := hnext (hplace k1 hk1.symm)
      rw [hhead] at hxn
      obtain rfl := Option.some.inj hxn
      refine Or.inl ?_
      have htop : s.topAt k1 = (x.key.ts / s.width + 1) * s.width := by
        have hone : (1 : UInt64).toNat = 1 := rfl
        rw [← UInt64.toNat_inj, ha.toNat_topAt, UInt64.toNat_mul, UInt64.toNat_add,
          UInt64.toNat_div, hone, Nat.mod_mul_mod, hslot]
      rw [htop, hplace k1 hk1.symm]
    · -- the event of an earlier slot has been found before
      exfalso
      refine hlater k1 (by omega) next (hnext (hplace k1 hk1.symm)) ?_
      have hfits : (s.lastPrio.toNat / s.width.toNat + k1 + 1) * s.width.toNat ≤ x.key.ts.toNat :=
        calc (s.lastPrio.toNat / s.width.toNat + k1 + 1) * s.width.toNat
            ≤ x.key.ts.toNat / s.width.toNat * s.width.toNat :=
              Nat.mul_le_mul_right _ (by omega)
          _ ≤ x.key.ts.toNat := Nat.div_mul_le_self _ _
      have hx64 := x.key.ts.toNat_lt
      rw [UInt64.lt_iff_toNat_lt, ha.toNat_topAt, Nat.mod_eq_of_lt (by omega), ← hk1, Nat.mul_comm]
      exact Nat.lt_mul_div_succ _ hs.width_pos
  | least minBucket minEvent =>
    have hk : s.place ((next.key.ts.toNat / s.width.toNat - s.lastPrio.toNat / s.width.toNat) %
        s.nBuckets) = s.hash next.key.ts := by
      rw [ha.place_eq, Nat.add_mod_mod, Nat.add_sub_cancel' hprio, hash_eq]
    have hrank := h.least _ (Nat.mod_lt _ hs.pos) next (hnext hk)
    rcases h.origin with ⟨-, rfl⟩ | ⟨j, hj, rfl, hhead⟩
    · exact absurd hstart (Nat.not_lt.2 hrank)
    · obtain ⟨hx, hhash⟩ := hmem hhead
      have heq : minEvent = next := by
        rcases List.mem_cons.1 hx with heq | hx
        · exact heq
        · exact absurd ((List.pairwise_cons.1 hl.ordered).1 _ hx) (Nat.not_lt.2 hrank)
      rw [← hhash, heq]
      exact Or.inr rfl

theorem rank_lt_start (h : next.key.ts ≠ 0xffffffffffffffff) (hstart : start = peekStart ∨
    start = removeStart) : next.rank < start.rank := by
  have hts := next.key.ts.toNat_lt
  have huid := next.key.uid.toNat_lt
  have hmax : (0xffffffffffffffff : UInt64).toNat = 2 ^ 64 - 1 := rfl
  rw [Ne, ← UInt64.toNat_inj, hmax] at h
  have hrank : (2 ^ 64 - 1) * 2 ^ 32 ≤ start.rank := by
    rcases hstart with rfl | rfl
    · exact Nat.le_add_right _ _
    · exact le_rfl
  rw [Event.rank, EventKey.rank]
  omega

/-- The search from the start. -/
theorem Filled.search_eq (hs : Filled s (next :: l)) (ha : Aligned s)
    (hl : SortedEvents (next :: l)) (hle : ∀ x ∈ next :: l, s.lastPrio ≤ x.key.ts)
    (hstart : next.rank < start.rank) :
    s.search s.nBuckets s.lastBucket s.bucketTop none start =
        some (.thisYear (s.hash next.key.ts) ((next.key.ts / s.width + 1) * s.width) next) ∨
      s.search s.nBuckets s.lastBucket s.bucketTop none start =
        some (.least (some (s.hash next.key.ts)) next) := by
  have hlast : s.lastBucket < s.nBuckets := ha.lastBucket ▸ hs.hash_lt _
  have hpos := hs.pos
  have hvisited : Visited s start 0 none start :=
    ⟨fun j hj => absurd hj (Nat.not_lt_zero j), fun j hj => absurd hj (Nat.not_lt_zero j), le_rfl,
      Or.inl ⟨rfl, rfl⟩⟩
  obtain ⟨found, hfound, hspec⟩ := search_spec hlast (s.nBuckets - 1) (by omega) hvisited
  have hplace : s.place 0 = s.lastBucket := Nat.mod_eq_of_lt hlast
  have htop : s.topAt 0 = s.bucketTop := by
    rw [topAt, ← UInt64.toNat_inj, UInt64.toNat_add, UInt64.toNat_mul]
    simp
  rw [Nat.sub_add_cancel hpos, hplace, htop] at hfound
  rw [hfound]
  rcases hspec.eq_next hs ha hl hle hstart with rfl | rfl
  · exact Or.inl rfl
  · exact Or.inr rfl

theorem Filled.peekNext (hs : Filled s (next :: l)) (ha : Aligned s) (hl : SortedEvents (next :: l))
    (hle : ∀ x ∈ next :: l, s.lastPrio ≤ x.key.ts) (hmax : next.key.ts ≠ 0xffffffffffffffff) :
    s.peekNext = some next := by
  rw [CalendarScheduler.peekNext]
  rcases hs.search_eq ha hl hle (rank_lt_start hmax (Or.inl rfl)) with heq | heq
  · rw [heq]
    rfl
  · rw [heq]
    rfl

/-- The calendar without its next event. -/
def without (s : CalendarScheduler) (next : Event) : CalendarScheduler :=
  { s with
    lastBucket := s.hash next.key.ts
    lastPrio := next.key.ts
    bucketTop := (next.key.ts / s.width + 1) * s.width
    buckets := Function.update s.buckets (s.hash next.key.ts)
      (pop s.reverse (s.buckets (s.hash next.key.ts))) }

theorem aligned_without (s : CalendarScheduler) (next : Event) : Aligned (s.without next) :=
  ⟨rfl, rfl⟩

theorem Filled.without (hs : Filled s (next :: l)) : Filled (s.without next) l := by
  have hbucket := hs.buckets _ (hs.hash_lt next.key.ts)
  rw [List.filter_cons_of_pos (inBucket_iff.2 rfl)] at hbucket
  refine hs.update (i := s.hash next.key.ts) ⟨rfl, rfl, rfl, rfl⟩ ?_ fun j hj => ?_
  · rw [chron_pop, hbucket]
    rfl
  · rw [List.filter_cons_of_neg fun hin => hj (inBucket_iff.1 hin).symm]

/-- `DoRemoveNext` gives the first event of the queue. -/
theorem Filled.doRemoveNext (hs : Filled s (next :: l)) (ha : Aligned s)
    (hl : SortedEvents (next :: l)) (hle : ∀ x ∈ next :: l, s.lastPrio ≤ x.key.ts)
    (hmax : next.key.ts ≠ 0xffffffffffffffff) :
    s.doRemoveNext = some (next, s.without next) := by
  rw [CalendarScheduler.doRemoveNext]
  rcases hs.search_eq ha hl hle (rank_lt_start hmax (Or.inr rfl)) with heq | heq
  · rw [heq]
    rfl
  · have hhead : nextEvent s.reverse (s.buckets (s.hash next.key.ts)) = some next := by
      rw [nextEvent_eq, hs.buckets _ (hs.hash_lt _), List.filter_cons_of_pos (inBucket_iff.2 rfl)]
      rfl
    rw [heq]
    simp only [Option.bind_eq_bind, Option.bind_some, hhead]
    rfl

/-! ## Resizing -/

/-- Events that are put into the buckets. -/
theorem Filled.foldl {l' : List Event} (h : Filled s l) (hl : SortedEvents l)
    (hl' : SortedEvents l') (hperm : (es ++ l).Perm l') :
    Filled (es.foldl CalendarScheduler.doInsert s) l' := by
  induction es generalizing s l with
  | nil => rwa [← sorted_unique hperm hl.ordered hl'.ordered]
  | cons ev es ih =>
    have huids : ((ev :: es ++ l).map fun ev => ev.key.uid).Nodup :=
      (hperm.map _).nodup_iff.2 hl'.uids
    have hfresh : ∀ x ∈ l, x.key.uid ≠ ev.key.uid := by
      intro x hx heq
      rw [List.cons_append, List.map_cons, List.nodup_cons] at huids
      exact huids.1 (heq ▸ List.mem_map_of_mem (f := fun ev : Event => ev.key.uid)
        (List.mem_append_right es hx))
    refine ih (h.doInsert hl hfresh) (hl.insert hfresh) (List.Perm.trans ?_ hperm)
    exact (ListScheduler.perm_insert.append_left es).trans List.perm_middle

theorem foldl_doInsert (s : CalendarScheduler) (es : List Event) :
    es.foldl doInsert s = { s with buckets := (es.foldl doInsert s).buckets } := by
  induction es generalizing s with
  | nil => rfl
  | cons ev es ih => exact ih (s.doInsert ev)

/-- The events of all buckets are those of the queue. -/
theorem Filled.flatMap_perm (h : Filled s l) (hl : SortedEvents l) :
    ((List.range s.nBuckets).flatMap s.buckets).Perm l := by
  have hmem : ∀ i < s.nBuckets, ∀ x, x ∈ s.buckets i ↔ x ∈ l ∧ s.hash x.key.ts = i := by
    intro i hi x
    rw [← (chron_perm s.reverse (s.buckets i)).mem_iff, h.buckets i hi, List.mem_filter,
      inBucket_iff]
  have hnodup : ∀ {es : List Event}, (es.map fun ev => ev.key.uid).Nodup → es.Nodup :=
    List.Nodup.of_map _
  refine (List.perm_ext_iff_of_nodup (List.nodup_flatMap.2 ⟨fun i hi => ?_, ?_⟩)
    (hnodup hl.uids)).2 fun x => ?_
  · have hbucket := (hl.filter (s.inBucket i)).uids
    rw [← h.buckets i (List.mem_range.1 hi)] at hbucket
    exact (chron_perm _ _).nodup_iff.1 (hnodup hbucket)
  · refine List.nodup_range.pairwise_of_forall_ne fun i hi j hj hij x hxi hxj => ?_
    have hi' := ((hmem i (List.mem_range.1 hi) x).1 hxi).2
    have hj' := ((hmem j (List.mem_range.1 hj) x).1 hxj).2
    exact hij (hi'.symm.trans hj')
  · rw [List.mem_flatMap]
    constructor
    · rintro ⟨i, hi, hx⟩
      exact ((hmem i (List.mem_range.1 hi) x).1 hx).1
    · intro hx
      exact ⟨_, List.mem_range.2 (h.hash_lt _), (hmem _ (h.hash_lt _) x).2 ⟨hx, rfl⟩⟩

/-- `DoResize` puts the events into the new buckets. -/
theorem Filled.doResize (h : Filled s l) (hl : SortedEvents l) {newSize : ℕ} {newWidth : UInt64}
    (hsize : 1 ≤ newSize) (hwidth : 1 ≤ newWidth.toNat) :
    Filled (s.doResize newSize newWidth) l ∧ Aligned (s.doResize newSize newWidth) ∧
      (s.doResize newSize newWidth).lastPrio = s.lastPrio ∧
      (s.doResize newSize newWidth).qSize = s.qSize := by
  have hinit : Filled (s.init newSize newWidth s.lastPrio) [] := by
    refine ⟨hsize, hwidth, fun i hi => ?_⟩
    change chron s.reverse [] = []
    exact (chron_perm s.reverse []).eq_nil
  have hfilled := hinit.foldl .nil hl
    ((List.append_nil _).symm ▸ h.flatMap_perm hl :
      ((List.range s.nBuckets).flatMap s.buckets ++ []).Perm l)
  refine ⟨hfilled, ?_⟩
  rw [CalendarScheduler.doResize, foldl_doInsert]
  exact ⟨⟨rfl, rfl⟩, rfl, rfl⟩

/-- The samples are the first events of the queue. -/
theorem Filled.takeSamples (n : ℕ) (hn : n ≤ l.length) (h : Filled s l) (ha : Aligned s)
    (hl : SortedEvents l) (hle : ∀ x ∈ l, s.lastPrio ≤ x.key.ts)
    (hmax : ∀ x ∈ l, x.key.ts ≠ 0xffffffffffffffff) : ∃ s',
      CalendarScheduler.takeSamples n s = some (l.take n, s') ∧ Filled s' (l.drop n) ∧
      s'.qSize = s.qSize := by
  induction n generalizing s l with
  | zero => exact ⟨s, rfl, h, rfl⟩
  | succ n ih =>
    cases l with
    | nil => exact absurd hn (Nat.not_succ_le_zero n)
    | cons next l =>
      obtain ⟨hnext, hrest⟩ := List.forall_mem_cons.1 hmax
      have hremove := h.doRemoveNext ha hl hle hnext
      obtain ⟨s', heq, hfilled, hsize⟩ := ih (s := s.without next) (Nat.le_of_succ_le_succ hn)
        h.without (aligned_without s next) hl.tail
        (fun x hx => EventKey.ts_le (hl.head_le (List.mem_cons_of_mem _ hx))) hrest
      refine ⟨s', ?_, hfilled, hsize⟩
      rw [CalendarScheduler.takeSamples, hremove]
      simp only [Option.bind_eq_bind, Option.bind_some, heq]
      rfl

theorem one_le_widthOf (nSamples : ℕ) (samples : List Event) :
    1 ≤ (widthOf nSamples samples).toNat := by
  have hmax : ∀ x : UInt64, 1 ≤ (max x 1).toNat := by
    intro x
    have hle : 1 ≤ max x 1 := by
      rw [UInt64.max_def]
      split_ifs with hx
      · exact UInt64.le_refl _
      · exact UInt64.le_of_lt (UInt64.not_le.1 hx)
    exact UInt64.le_iff_toNat_le.1 hle
  exact hmax _

/-- The samples are put back. -/
theorem Filled.calculateNewWidth (h : Filled s l) (ha : Aligned s) (hl : SortedEvents l)
    (hle : ∀ x ∈ l, s.lastPrio ≤ x.key.ts) (hmax : ∀ x ∈ l, x.key.ts ≠ 0xffffffffffffffff)
    (hsize : s.qSize.toNat = l.length) : ∃ w s', s.calculateNewWidth = some (w, s') ∧
      1 ≤ w.toNat ∧ Filled s' l ∧ s'.lastPrio = s.lastPrio ∧ s'.qSize = s.qSize := by
  rw [CalendarScheduler.calculateNewWidth]
  by_cases hfew : s.qSize < 2
  · rw [if_pos hfew]
    exact ⟨1, s, rfl, le_rfl, h, rfl, rfl⟩
  · rw [if_neg hfew]
    obtain ⟨n, hn⟩ : ∃ n, n = min 25
      (if s.qSize ≤ 5 then s.qSize.toNat else 5 + s.qSize.toNat / 10) := ⟨_, rfl⟩
    have hle5 : s.qSize ≤ 5 ↔ s.qSize.toNat ≤ 5 := UInt32.le_iff_toNat_le
    have hnl : n ≤ l.length := by
      rw [hn, ← hsize]
      split_ifs with h5
      · exact min_le_right _ _
      · have hgt : 5 < s.qSize.toNat := Nat.not_le.1 fun hn => h5 (hle5.2 hn)
        omega
    obtain ⟨s', heq, hfilled, hqSize⟩ := h.takeSamples n hnl ha hl hle hmax
    have htake : (l.take n ++ l.drop n).Perm l := by rw [List.take_append_drop]
    have hback := hfilled.foldl
      ⟨hl.ordered.sublist (List.drop_sublist n l), hl.uids.sublist ((List.drop_sublist n l).map _)⟩
      hl htake
    rw [← hn]
    simp only [heq, Option.bind_eq_bind, Option.bind_some]
    refine ⟨_, _, rfl, one_le_widthOf _ _, ?_, rfl, ?_⟩
    · exact ⟨hback.pos, hback.width_pos, hback.buckets⟩
    · change ((l.take n).foldl CalendarScheduler.doInsert s').qSize = s.qSize
      rw [foldl_doInsert]
      exact hqSize

/-- The calendar holds the queue. -/
structure Holds (s : CalendarScheduler) (l : List Event) (last : UInt64) : Prop
    extends Filled s l, Aligned s where
  prio : s.lastPrio ≤ last
  size : s.qSize.toNat = l.length
  real : ∀ x ∈ l, x.key.ts ≠ 0xffffffffffffffff

/-- `Resize` keeps the queue. -/
theorem Holds.resize (h : Holds s l last) (hl : Queue l last) {newSize : ℕ} (hnew : 1 ≤ newSize) :
    ∃ s', s.resize newSize = some s' ∧ Holds s' l last := by
  obtain ⟨w, s', heq, hw, hfilled, hprio, hsize⟩ := h.calculateNewWidth h.toAligned
    hl.toSortedEvents (fun x hx => UInt64.le_trans h.prio (hl.after x hx)) h.real h.size
  obtain ⟨hfilled', haligned, hprio', hsize'⟩ := hfilled.doResize hl.toSortedEvents hnew hw
  refine ⟨s'.doResize newSize w, ?_, hfilled', haligned, ?_, ?_, h.real⟩
  · rw [CalendarScheduler.resize, heq]
    rfl
  · rw [hprio', hprio]
    exact h.prio
  · rw [hsize', hsize]
    exact h.size

theorem Holds.resizeUp (h : Holds s l last) (hl : Queue l last) :
    ∃ s', s.resizeUp = some s' ∧ Holds s' l last := by
  rw [CalendarScheduler.resizeUp]
  split_ifs
  · have hpos := h.pos
    exact h.resize hl (by omega)
  · exact ⟨s, rfl, h⟩

theorem Holds.resizeDown (h : Holds s l last) (hl : Queue l last) :
    ∃ s', s.resizeDown = some s' ∧ Holds s' l last := by
  rw [CalendarScheduler.resizeDown]
  split_ifs
  · exact h.resize hl (by omega)
  · exact ⟨s, rfl, h⟩

/-! ## The operations -/

/-- An event that is inserted has not the greatest timestamp, and can be counted. -/
def Counted (s : CalendarScheduler) : SchedulerOp → Prop
  | .insert ev => ev.key.ts ≠ 0xffffffffffffffff ∧ s.qSize ≠ 0xffffffff
  | _ => True

theorem toNat_add_one {n : UInt32} (h : n ≠ 0xffffffff) : (n + 1).toNat = n.toNat + 1 := by
  have hlt := n.toNat_lt
  have hmax : (0xffffffff : UInt32).toNat = 2 ^ 32 - 1 := rfl
  have hone : (1 : UInt32).toNat = 1 := rfl
  rw [Ne, ← UInt32.toNat_inj, hmax] at h
  rw [UInt32.toNat_add, hone]
  omega

theorem toNat_sub_one {n : UInt32} {k : ℕ} (h : n.toNat = k + 1) : (n - 1).toNat = k := by
  have hone : (1 : UInt32).toNat = 1 := rfl
  rw [UInt32.toNat_sub_of_le _ _ (UInt32.le_iff_toNat_le.2 (by omega)), h, hone,
    Nat.add_sub_cancel]

theorem Holds.insert (h : Holds s l last) (hl : Queue l last)
    (hev : Allowed l last (.insert ev)) (hok : Counted s (.insert ev)) :
    ∃ s', s.insert ev = some s' ∧ Holds s' (ListScheduler.insert ev l) last := by
  obtain ⟨hmax, hsize⟩ := hok
  have hfilled := h.doInsert hl.toSortedEvents hev.2
  have hholds : Holds { s.doInsert ev with qSize := s.qSize + 1 } (ListScheduler.insert ev l)
      last := by
    refine ⟨⟨hfilled.pos, hfilled.width_pos, hfilled.buckets⟩,
      ⟨h.lastBucket, h.bucketTop⟩, h.prio, ?_, fun x hx => ?_⟩
    · change (s.qSize + 1).toNat = _
      rw [toNat_add_one hsize, h.size, ListScheduler.perm_insert.length_eq, List.length_cons]
    · rcases List.mem_cons.1 (ListScheduler.perm_insert.mem_iff.1 hx) with rfl | hx
      · exact hmax
      · exact h.real x hx
  exact hholds.resizeUp (hl.step _ hev)

theorem Holds.remove (h : Holds s l last) (hl : Queue l last) (hev : ev ∈ l) :
    ∃ s', s.remove ev = some s' ∧ Holds s' (ListScheduler.remove ev l) last := by
  obtain ⟨-, hperm⟩ := hl.toSortedEvents.remove hev
  have hbucket := h.buckets _ (h.hash_lt ev.key.ts)
  have hin : ev ∈ chron s.reverse (s.buckets (s.hash ev.key.ts)) := by
    rw [hbucket]
    exact List.mem_filter.2 ⟨hev, inBucket_iff.2 rfl⟩
  have hany : ((s.buckets (s.hash ev.key.ts)).any fun i => decide (i.key.uid = ev.key.uid)) =
      true := List.any_eq_true.2 ⟨ev, (chron_perm _ _).mem_iff.1 hin, decide_eq_true rfl⟩
  have hsorted : SortedEvents (chron s.reverse (s.buckets (s.hash ev.key.ts))) := by
    rw [hbucket]
    exact hl.toSortedEvents.filter _
  rw [CalendarScheduler.remove]
  simp only [hany, if_true]
  have hholds : Holds { s with
      buckets := Function.update s.buckets (s.hash ev.key.ts)
        ((s.buckets (s.hash ev.key.ts)).eraseP fun i => i.key.uid = ev.key.uid)
      qSize := s.qSize - 1 } (ListScheduler.remove ev l) last := by
    refine ⟨h.toFilled.update (i := s.hash ev.key.ts) ⟨rfl, rfl, rfl, rfl⟩ ?_ fun j hj => ?_,
      ⟨h.lastBucket, h.bucketTop⟩, h.prio, ?_, fun x hx => ?_⟩
    · rw [chron_eraseP hsorted hin, hl.toSortedEvents.filter_remove hev,
        if_pos (inBucket_iff.2 rfl), hbucket]
    · rw [hl.toSortedEvents.filter_remove hev, if_neg fun hin => hj (inBucket_iff.1 hin).symm]
    · refine toNat_sub_one ?_
      rw [h.size, hperm.length_eq, List.length_cons]
    · exact h.real x (hperm.mem_iff.2 (List.mem_cons_of_mem _ hx))
  exact hholds.resizeDown (hl.step (.remove ev) hev)

theorem Holds.removeNext (h : Holds s (next :: l) last) (hl : Queue (next :: l) last) :
    ∃ s', s.removeNext = some (next, s') ∧ Holds s' l next.key.ts := by
  obtain ⟨hmax, hrest⟩ := List.forall_mem_cons.1 h.real
  have hremove := h.doRemoveNext h.toAligned hl.toSortedEvents
    (fun x hx => UInt64.le_trans h.prio (hl.after x hx)) hmax
  have hfilled := h.without
  have haligned := aligned_without s next
  have hholds : Holds { s.without next with qSize := s.qSize - 1 } l next.key.ts :=
    ⟨⟨hfilled.pos, hfilled.width_pos, hfilled.buckets⟩,
      ⟨haligned.lastBucket, haligned.bucketTop⟩, UInt64.le_refl _, toNat_sub_one h.size, hrest⟩
  obtain ⟨s', heq, hs'⟩ := hholds.resizeDown (hl.step .removeNext (List.cons_ne_nil _ _))
  refine ⟨s', ?_, hs'⟩
  rw [CalendarScheduler.removeNext, hremove]
  simp only [Option.bind_eq_bind, Option.bind_some]
  change (CalendarScheduler.resizeDown { s.without next with qSize := s.qSize - 1 }).bind _ = _
  rw [heq]
  rfl

/-- The calendar does what the list does, as long as the events can be counted and none has the
greatest timestamp. -/
theorem implements : Implements calendarScheduler Holds Counted where
  insert h hl hev hok := h.insert hl hev hok
  isEmpty {s l last} h := by
    have hsize := h.size
    change decide (s.qSize = 0) = _
    cases l with
    | nil => exact decide_eq_true (UInt32.toNat_inj.1 hsize)
    | cons x l =>
      refine decide_eq_false fun hzero => ?_
      rw [hzero] at hsize
      exact absurd hsize.symm (Nat.succ_ne_zero _)
  peekNext {s next l last} h hl hok := by
    refine h.toFilled.peekNext h.toAligned hl.toSortedEvents (fun x hx => ?_)
      (h.real next List.mem_cons_self)
    exact UInt64.le_trans h.prio (hl.after x hx)
  removeNext h hl hok := h.removeNext hl
  remove h hl hev hok := h.remove hl hev

/-- The calendar holds the empty queue. -/
theorem holds_new (reverse : Bool) : Holds (new reverse) [] 0 := by
  have hbucket : 0 = ((0 : UInt64) / 1).toNat % 2 := by decide
  have htop : (1 : UInt64) = (0 / 1 + 1) * 1 := by decide
  refine ⟨⟨Nat.le_succ 1, le_rfl, fun i hi => ?_⟩, ⟨hbucket, htop⟩, UInt64.le_refl _, rfl,
    fun x hx => absurd hx List.not_mem_nil⟩
  exact (chron_perm reverse []).eq_nil

end CalendarScheduler

end Ns3Pedca
