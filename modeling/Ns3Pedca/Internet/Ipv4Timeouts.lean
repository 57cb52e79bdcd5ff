import Ns3Pedca.Internet.Ipv4Reassembly

/-!
# Timeouts of the reassembly of IPv4

`Ipv4L3Protocol` keeps the fragments of each datagram with an iterator into a list of timeouts,
one for each datagram, and schedules `HandleTimeout` for the first of them. A datagram that is
completed takes its timeout out of the list, but leaves the event scheduled.

A state has the times of the scheduled events, and the next of them is the earliest. In every
run in which no fragment arrives before the present or behind a scheduled event, the list holds
the keys of the buffers in the order of their times, and some event is scheduled no later than the
first (`timeouts_of_run`). A datagram is dropped when its time has come, and not before. The packet
that is reported is the beginning that its fragments hold, unless a fragment ends before those
in front of it : then `GetPartialPacket` subtracts the larger number from the smaller one.
-/

namespace Ns3Pedca

open Blocks Runs
open Packet (getSize createFragment)

namespace FragmentList

/-- A step of the loop of `GetPartialPacket`, and whether its subtraction has not gone below
zero. -/
def partialStep (r : Packet × Bool) (it : Packet × UInt16) : Packet × Bool :=
  let lastEndOffset := (getSize r.1).toUInt16
  if it.2 < lastEndOffset then
    let newStart := lastEndOffset.toUInt32 - it.2.toUInt32
    (r.1 ++ createFragment it.1 newStart (getSize it.1 - newStart),
      r.2 && decide (newStart ≤ getSize it.1))
  else if lastEndOffset = it.2 then (r.1 ++ it.1, r.2)
  else r

/-- `GetPartialPacket`, and whether its subtractions have not gone below zero. -/
def getPartialPacket (l : FragmentList) : Option (Packet × Bool) :=
  match l.fragments with
  | [] => none
  | it :: _ =>
    some (if 0 < it.2 then ([], true) else l.fragments.foldl partialStep ([], true))

/-- The fragments fit a packet : none of them ends before what is there, and the 16 bits of
`lastEndOffset` hold its size. -/
def Fits : Packet → List (Packet × UInt16) → Prop
  | _, [] => True
  | p, it :: its => p.length < 2 ^ 16 ∧ it.1.length < 2 ^ 16 ∧
      p.length ≤ it.2.toNat + it.1.length ∧ Fits (joinOne p (blockOf it)) its

instance : ∀ (p : Packet) (its : List (Packet × UInt16)), Decidable (Fits p its)
  | _, [] => inferInstanceAs (Decidable True)
  | p, it :: its =>
    have : Decidable (Fits (joinOne p (blockOf it)) its) := instDecidableFits _ its
    inferInstanceAs (Decidable (_ ∧ _ ∧ _ ∧ _))

variable {p : Packet} {it : Packet × UInt16} {its : List (Packet × UInt16)} {safe : Bool}

/-- A step of the loop joins a fragment that fits. -/
theorem partialStep_eq (hp : p.length < 2 ^ 16) (hsize : it.1.length < 2 ^ 16)
    (hfits : p.length ≤ it.2.toNat + it.1.length) :
    partialStep (p, safe) it = (joinOne p (blockOf it), safe) := by
  have hsize32 : (getSize it.1).toNat = it.1.length :=
    UInt32.toNat_ofNat_of_lt' (show it.1.length < 2 ^ 32 by omega)
  have hlast : (getSize p).toUInt16.toNat = p.length := by
    rw [UInt32.toNat_toUInt16, getSize, UInt32.toNat_ofNat_of_lt' (show p.length < 2 ^ 32 by omega)]
    omega
  have hjoin : it.2.toNat ≤ p.length →
      joinOne p (blockOf it) = p ++ it.1.drop (p.length - it.2.toNat) := fun hle => if_pos hle
  rw [partialStep]
  dsimp only
  by_cases hlt : it.2 < (getSize p).toUInt16
  · have hnat : it.2.toNat < p.length := hlast ▸ UInt16.lt_iff_toNat_lt.1 hlt
    have hstart : ((getSize p).toUInt16.toUInt32 - it.2.toUInt32).toNat =
        p.length - it.2.toNat := by
      rw [UInt32.toNat_sub_of_le _ _ (UInt32.le_iff_toNat_le.2 (by
        rw [UInt16.toNat_toUInt32, UInt16.toNat_toUInt32]
        omega)), UInt16.toNat_toUInt32, UInt16.toNat_toUInt32, hlast]
    have hin : (getSize p).toUInt16.toUInt32 - it.2.toUInt32 ≤ getSize it.1 := by
      rw [UInt32.le_iff_toNat_le, hstart, hsize32]
      omega
    have hlen : (getSize it.1 - ((getSize p).toUInt16.toUInt32 - it.2.toUInt32)).toNat =
        it.1.length - (p.length - it.2.toNat) := by
      rw [UInt32.toNat_sub_of_le _ _ hin, hsize32, hstart]
    rw [if_pos hlt, hjoin hnat.le, decide_eq_true hin, Bool.and_true,
      Packet.createFragment_eq (by omega) (by omega), hlen, hstart,
      List.take_of_length_le (by rw [List.length_drop])]
  · have hnat : p.length ≤ it.2.toNat := by
      rw [← hlast]
      exact UInt16.le_iff_toNat_le.1 (UInt16.not_lt.1 hlt)
    rw [if_neg hlt]
    by_cases heq : (getSize p).toUInt16 = it.2
    · have hnat' : it.2.toNat = p.length := heq ▸ hlast
      rw [if_pos heq, hjoin hnat'.le, hnat', Nat.sub_self, List.drop_zero]
    · have hnat' : ¬ it.2.toNat ≤ p.length := fun hle =>
        heq (UInt16.toNat.inj (hlast.trans (le_antisymm hnat hle)))
      rw [if_neg heq, show joinOne p (blockOf it) = p from if_neg hnat']

/-- The loop joins fragments that fit. -/
theorem foldl_partialStep (h : Fits p its) :
    its.foldl partialStep (p, safe) = (joinReached p (its.map blockOf), safe) := by
  induction its generalizing p with
  | nil => rfl
  | cons it its ih =>
    obtain ⟨hp, hsize, hfits, hrest⟩ := h
    rw [List.foldl_cons, partialStep_eq hp hsize hfits, ih hrest]
    rfl

/-- Of fragments that fit `GetPartialPacket` makes the beginning that they hold. -/
theorem Made.getPartialPacket {l : FragmentList} {fs : List Arrival} (h : Made l fs)
    (hne : l.fragments ≠ []) (hfits : Fits [] l.fragments) :
    ∃ p, l.getPartialPacket = some (p, true) ∧ Beginning (fs.map Arrival.block) p := by
  have hbeginning := (beginning_joinReached h.ordered).of_mem_iff h.mem_blocks
  rw [FragmentList.getPartialPacket]
  obtain ⟨it, its, hits⟩ := List.exists_cons_of_ne_nil hne
  rw [hits] at hbeginning hfits ⊢
  refine ⟨_, ?_, hbeginning⟩
  dsimp only
  by_cases hpos : 0 < it.2
  · have hgap : ∀ b ∈ (it :: its).map blockOf, ([] : Packet).length < b.first := by
      have hordered := h.ordered
      rw [hits, List.map_cons] at hordered
      have hfirst : 0 < it.2.toNat := UInt16.lt_iff_toNat_lt.1 hpos
      refine List.forall_mem_cons.2 ⟨hfirst, fun b hb => ?_⟩
      exact lt_of_lt_of_le hfirst ((List.pairwise_cons.1 hordered).1 b hb)
    rw [if_pos hpos, joinReached_of_lt hgap]
  · rw [if_neg hpos, foldl_partialStep hfits]

/-- A packet is made of every list that is not empty. -/
theorem getPartialPacket_isSome {l : FragmentList} (hne : l.fragments ≠ []) :
    ∃ r, l.getPartialPacket = some r := by
  obtain ⟨it, its, hits⟩ := List.exists_cons_of_ne_nil hne
  rw [getPartialPacket, hits]
  exact ⟨_, rfl⟩

end FragmentList

namespace Ipv4L3Protocol

open FragmentList

/-- An element of `m_timeoutEventList`, with its node. -/
structure Timeout where
  node : ℕ
  expiry : ℕ
  key : FragmentKey
  ipHeader : Ipv4Header
  iif : UInt32
  deriving DecidableEq

/-- `Fragments`. -/
structure Fragments where
  list : FragmentList := {}
  timeoutIter : ℕ
  deriving DecidableEq

/-- What is reported of a datagram that is dropped. -/
structure Dropped where
  ipHeader : Ipv4Header
  iif : UInt32
  packet : Packet
  /-- An ICMP message is sent. -/
  timeExceeded : Bool
  /-- No subtraction has gone below zero. -/
  safe : Bool
  deriving DecidableEq

/-- The buffers, the list of timeouts and the scheduled events, with the time. -/
structure Timers where
  now : ℕ := 0
  fragments : FragmentKey → Option Fragments := fun _ => none
  timeoutEventList : List Timeout := []
  nextNode : ℕ := 0
  /-- The times of the calls of `HandleTimeout` that are scheduled. -/
  scheduled : List ℕ := []
  dropped : List Dropped := []

namespace Timers

variable (fragmentExpirationTimeout : ℕ)

/-- `SetTimeout`. -/
def setTimeout (key : FragmentKey) (ipHeader : Ipv4Header) (iif : UInt32) (s : Timers) :
    ℕ × Timers :=
  (s.nextNode, { s with
    scheduled :=
      if s.timeoutEventList.isEmpty then s.scheduled ++ [s.now + fragmentExpirationTimeout]
      else s.scheduled
    timeoutEventList := s.timeoutEventList ++
      [⟨s.nextNode, s.now + fragmentExpirationTimeout, key, ipHeader, iif⟩]
    nextNode := s.nextNode + 1 })

/-- The fragments of a key, which are new if there are none. -/
def findFragments (key : FragmentKey) (ipHeader : Ipv4Header) (iif : UInt32) (s : Timers) :
    Fragments × Timers :=
  match s.fragments key with
  | some fragments => (fragments, s)
  | none =>
    let r := s.setTimeout fragmentExpirationTimeout key ipHeader iif
    ({ timeoutIter := r.1 }, r.2)

/-- The buffer and the timeout of a datagram are erased. -/
def complete (key : FragmentKey) (timeoutIter : ℕ) (s : Timers) : Timers :=
  { s with
    fragments := Function.update s.fragments key none
    timeoutEventList := s.timeoutEventList.filter fun t => t.node ≠ timeoutIter }

/-- The fragments of a key are kept. -/
def keep (key : FragmentKey) (fragments : Fragments) (s : Timers) : Timers :=
  { s with fragments := Function.update s.fragments key (some fragments) }

/-- `ProcessFragment` : what it returns, the packet it leaves and the state. -/
def processFragment (packet : Packet) (ipHeader : Ipv4Header) (iif : UInt32) (s : Timers) :
    Option (Bool × Packet × Timers) :=
  let found := s.findFragments fragmentExpirationTimeout (keyOf ipHeader) ipHeader iif
  let list := found.1.list.addFragment packet ipHeader.fragmentOffset (!ipHeader.isLastFragment)
  if list.isEntire then
    list.getPacket.map fun p => (true, p, found.2.complete (keyOf ipHeader) found.1.timeoutIter)
  else some (false, packet, found.2.keep (keyOf ipHeader) { found.1 with list := list })

/-- `HandleFragmentsTimeout`. -/
def handleFragmentsTimeout (t : Timeout) (s : Timers) : Option Timers :=
  (s.fragments t.key).bind fun fragments => fragments.list.getPartialPacket.map fun r =>
    { s with
      fragments := Function.update s.fragments t.key none
      dropped := s.dropped ++ [⟨t.ipHeader, t.iif, r.1, decide (8 < getSize r.1), r.2⟩] }

/-- The loop of `HandleTimeout`. -/
def expire : List Timeout → Timers → Option Timers
  | [], s => some { s with timeoutEventList := [] }
  | t :: rest, s =>
    if t.expiry = s.now then (s.handleFragmentsTimeout t).bind (expire rest)
    else some { s with timeoutEventList := t :: rest }

/-- The event is scheduled again for the first timeout. No event is scheduled in the past. -/
def reschedule (s : Timers) : Option Timers :=
  match s.timeoutEventList with
  | [] => some s
  | t :: _ =>
    if t.expiry < s.now then none
    else some { s with scheduled := s.scheduled ++ [s.now + (t.expiry - s.now)] }

/-- `HandleTimeout`. -/
def handleTimeout (s : Timers) : Option Timers :=
  (expire s.timeoutEventList s).bind reschedule

/-! ## Runs -/

/-- What happens. -/
inductive Event
  /-- A fragment arrives. -/
  | receive (time : ℕ) (packet : Packet) (h : packet.length < 2 ^ 16) (ipHeader : Ipv4Header)
      (iif : UInt32)
  /-- The earliest scheduled event, if there is one. -/
  | timeout

/-- One event. -/
def handle (s : Timers) : Event → Option Timers
  | .receive time packet _ ipHeader iif =>
    Option.map (fun r : Bool × Packet × Timers => r.2.2)
      ({ s with now := time }.processFragment fragmentExpirationTimeout packet ipHeader iif)
  | .timeout =>
    match s.scheduled.min? with
    | none => some s
    | some time => { s with now := time, scheduled := s.scheduled.erase time }.handleTimeout

/-! ## Lists that are in order -/

variable {fragmentExpirationTimeout} {s t : Timers} {key : FragmentKey} {fragments : Fragments}
  {ipHeader : Ipv4Header} {iif : UInt32} {packet : Packet}

/-- The keys of the buffers are those of the list, in the order of the times, and an event is
scheduled. -/
structure Tidy (fragmentExpirationTimeout : ℕ) (s : Timers) : Prop where
  keys : ∀ key, (∃ fragments, s.fragments key = some fragments) ↔
    ∃ t ∈ s.timeoutEventList, t.key = key
  once : (s.timeoutEventList.map Timeout.key).Nodup
  ordered : s.timeoutEventList.Pairwise fun t u => t.expiry ≤ u.expiry
  within : ∀ t ∈ s.timeoutEventList,
    s.now ≤ t.expiry ∧ t.expiry ≤ s.now + fragmentExpirationTimeout
  pending : ∀ t ∈ s.timeoutEventList.head?, ∃ time ∈ s.scheduled, time ≤ t.expiry
  future : ∀ time ∈ s.scheduled, s.now ≤ time

/-- The iterators are to the timeouts of their datagrams. -/
structure Linked (s : Timers) : Prop where
  iter : ∀ t ∈ s.timeoutEventList, ∀ fragments, s.fragments t.key = some fragments →
    fragments.timeoutIter = t.node
  nodes : (s.timeoutEventList.map Timeout.node).Nodup
  fresh : ∀ t ∈ s.timeoutEventList, t.node < s.nextNode

/-- The buffers without their timeouts. -/
def buffers (s : Timers) : Buffers :=
  fun key => (s.fragments key).map Fragments.list

/-- With the time of an event that is not behind a scheduled one. -/
theorem Tidy.at (h : Tidy fragmentExpirationTimeout s) {time : ℕ} (hnow : s.now ≤ time)
    (hnext : ∀ later ∈ s.scheduled, time ≤ later) :
    Tidy fragmentExpirationTimeout { s with now := time } := by
  refine ⟨h.keys, h.once, h.ordered, fun t ht => ⟨?_,
    (h.within t ht).2.trans (Nat.add_le_add_right hnow _)⟩,
    h.pending, hnext⟩
  obtain ⟨first, rest, hlist⟩ := List.exists_cons_of_ne_nil (List.ne_nil_of_mem ht)
  obtain ⟨later, hlater, hle⟩ := h.pending first (by rw [hlist]; rfl)
  have hfirst : first.expiry ≤ t.expiry := by
    have hordered := h.ordered
    rw [hlist] at ht hordered
    rcases List.mem_cons.1 ht with rfl | ht
    · exact le_rfl
    · exact (List.pairwise_cons.1 hordered).1 t ht
  exact (hnext later hlater).trans (hle.trans hfirst)

/-! ## A fragment -/

/-- The fragments that are found, or the new ones with their timeout. -/
theorem findFragments_cases (key : FragmentKey) (ipHeader : Ipv4Header) (iif : UInt32)
    (s : Timers) :
    (∃ fragments, s.fragments key = some fragments ∧
      s.findFragments fragmentExpirationTimeout key ipHeader iif = (fragments, s)) ∨
    s.fragments key = none ∧ s.findFragments fragmentExpirationTimeout key ipHeader iif =
      ({ timeoutIter := s.nextNode },
        (s.setTimeout fragmentExpirationTimeout key ipHeader iif).2) := by
  rw [findFragments]
  cases hfound : s.fragments key with
  | some fragments => exact .inl ⟨fragments, rfl, rfl⟩
  | none => exact .inr ⟨rfl, rfl⟩

/-- A timeout for a key that has none. -/
theorem Tidy.setTimeout (h : Tidy fragmentExpirationTimeout s) (hnone : s.fragments key = none)
    (fragments : Fragments) : Tidy fragmentExpirationTimeout
      ((s.setTimeout fragmentExpirationTimeout key ipHeader iif).2.keep key fragments) := by
  have hnew : ∀ t ∈ s.timeoutEventList, t.key ≠ key := by
    intro t ht heq
    obtain ⟨f, hf⟩ := (h.keys key).2 ⟨t, ht, heq⟩
    rw [hnone] at hf
    cases hf
  refine ⟨fun k => ?_, ?_, ?_, fun t ht => ?_, ?_, fun time htime => ?_⟩
  · change (∃ f, Function.update s.fragments key (some fragments) k = some f) ↔
      ∃ t ∈ s.timeoutEventList ++ [_], t.key = k
    simp only [List.mem_append, List.mem_singleton, or_and_right, exists_or, exists_eq_left]
    by_cases hk : k = key
    · rw [hk, Function.update_self]
      exact ⟨fun _ => .inr rfl, fun _ => ⟨fragments, rfl⟩⟩
    · rw [Function.update_of_ne hk, h.keys k]
      exact ⟨.inl, fun hor => hor.resolve_right fun heq => hk heq.symm⟩
  · change ((s.timeoutEventList ++ [_]).map Timeout.key).Nodup
    rw [List.map_append, List.map_singleton, List.nodup_append]
    refine ⟨h.once, List.nodup_singleton _, fun a ha b hb => ?_⟩
    obtain ⟨t, ht, rfl⟩ := List.mem_map.1 ha
    rw [List.mem_singleton.1 hb]
    exact hnew t ht
  · change (s.timeoutEventList ++ [_]).Pairwise _
    rw [List.pairwise_append]
    refine ⟨h.ordered, List.pairwise_singleton _ _, fun t ht u hu => ?_⟩
    rw [List.mem_singleton.1 hu]
    exact (h.within t ht).2
  · change t ∈ s.timeoutEventList ++ [_] at ht
    rcases List.mem_append.1 ht with ht | ht
    · exact h.within t ht
    · rw [List.mem_singleton.1 ht]
      exact ⟨Nat.le_add_right _ _, le_rfl⟩
  · intro t ht
    change t ∈ (s.timeoutEventList ++ [_]).head? at ht
    change ∃ time ∈ (if s.timeoutEventList.isEmpty then s.scheduled ++ [_] else s.scheduled), _
    cases hlist : s.timeoutEventList with
    | nil =>
      rw [hlist] at ht
      cases ht
      exact ⟨_, List.mem_append_right _ List.mem_cons_self, le_rfl⟩
    | cons first rest =>
      rw [hlist] at ht
      exact h.pending t (hlist ▸ ht)
  · change time ∈ (if s.timeoutEventList.isEmpty then s.scheduled ++ [_] else s.scheduled)
      at htime
    split_ifs at htime
    · rcases List.mem_append.1 htime with htime | htime
      · exact h.future time htime
      · rw [List.mem_singleton.1 htime]
        exact Nat.le_add_right _ _
    · exact h.future time htime

theorem Linked.setTimeout (h : Linked s) (hnew : ∀ t ∈ s.timeoutEventList, t.key ≠ key) :
    Linked ((s.setTimeout fragmentExpirationTimeout key ipHeader iif).2.keep key
      { timeoutIter := s.nextNode }) := by
  refine ⟨fun t ht f hf => ?_, ?_, fun t ht => ?_⟩
  · change t ∈ s.timeoutEventList ++ [_] at ht
    change Function.update s.fragments key _ t.key = some f at hf
    rcases List.mem_append.1 ht with ht | ht
    · rw [Function.update_of_ne (hnew t ht)] at hf
      exact h.iter t ht f hf
    · obtain rfl := List.mem_singleton.1 ht
      rw [Function.update_self] at hf
      cases hf
      rfl
  · change ((s.timeoutEventList ++ [_]).map Timeout.node).Nodup
    rw [List.map_append, List.map_singleton, List.nodup_append]
    refine ⟨h.nodes, List.nodup_singleton _, fun a ha b hb => ?_⟩
    obtain ⟨t, ht, rfl⟩ := List.mem_map.1 ha
    rw [List.mem_singleton.1 hb]
    exact (h.fresh t ht).ne
  · change t ∈ s.timeoutEventList ++ [_] at ht
    change t.node < s.nextNode + 1
    rcases List.mem_append.1 ht with ht | ht
    · exact (h.fresh t ht).trans (Nat.lt_succ_self _)
    · rw [List.mem_singleton.1 ht]
      exact Nat.lt_succ_self _

theorem keep_keep (fragments' : Fragments) :
    (s.keep key fragments).keep key fragments' = s.keep key fragments' := by
  rw [keep, keep, keep, Function.update_idem]

theorem keep_eq_self (h : s.fragments key = some fragments) : s.keep key fragments = s := by
  rw [keep, ← h, Function.update_eq_self]

/-- More fragments with the same timeout. -/
theorem Tidy.keep (h : Tidy fragmentExpirationTimeout (s.keep key fragments))
    (fragments' : Fragments) : Tidy fragmentExpirationTimeout (s.keep key fragments') := by
  refine ⟨fun k => (Iff.trans ?_ (h.keys k)), h.once, h.ordered, h.within, h.pending, h.future⟩
  by_cases hk : k = key
  · change (∃ f, Function.update s.fragments key _ k = some f) ↔
      ∃ f, Function.update s.fragments key _ k = some f
    rw [hk, Function.update_self, Function.update_self]
    exact ⟨fun _ => ⟨_, rfl⟩, fun _ => ⟨_, rfl⟩⟩
  · change (∃ f, Function.update s.fragments key _ k = some f) ↔
      ∃ f, Function.update s.fragments key _ k = some f
    rw [Function.update_of_ne hk, Function.update_of_ne hk]

theorem Linked.keep (h : Linked (s.keep key fragments)) (list : FragmentList) :
    Linked (s.keep key { fragments with list := list }) := by
  refine ⟨fun t ht f hf => ?_, h.nodes, h.fresh⟩
  have hiter := h.iter t ht
  change Function.update s.fragments key _ t.key = some f at hf
  change ∀ f, Function.update s.fragments key _ t.key = some f → _ at hiter
  by_cases hk : t.key = key
  · rw [hk, Function.update_self] at hf hiter
    cases hf
    exact hiter fragments rfl
  · rw [Function.update_of_ne hk] at hf hiter
    exact hiter f hf

/-- The timeout that is erased is that of the key. -/
theorem filter_node (h : Tidy fragmentExpirationTimeout (s.keep key fragments))
    (hlinked : Linked (s.keep key fragments)) :
    (s.timeoutEventList.filter fun t => t.node ≠ fragments.timeoutIter) =
      s.timeoutEventList.filter fun t => t.key ≠ key := by
  obtain ⟨u, hu, hukey⟩ := (h.keys key).1 ⟨fragments, Function.update_self _ _ _⟩
  have hunode : fragments.timeoutIter = u.node :=
    hlinked.iter u hu fragments (by rw [hukey]; exact Function.update_self _ _ _)
  refine List.filter_congr fun t ht => decide_eq_decide.2 (not_congr ⟨fun heq => ?_, fun heq => ?_⟩)
  · rw [List.inj_on_of_nodup_map hlinked.nodes ht hu (heq.trans hunode), hukey]
  · rw [List.inj_on_of_nodup_map h.once ht hu (heq.trans hukey.symm), hunode]

/-- Nothing is left of a key that is complete. -/
theorem Tidy.complete (h : Tidy fragmentExpirationTimeout (s.keep key fragments))
    (hlinked : Linked (s.keep key fragments)) :
    Tidy fragmentExpirationTimeout (s.complete key fragments.timeoutIter) := by
  have hlist := filter_node h hlinked
  have hsub : (s.complete key fragments.timeoutIter).timeoutEventList.Sublist
      s.timeoutEventList := List.filter_sublist
  refine ⟨fun k => ?_, (hsub.map _).nodup h.once, h.ordered.sublist hsub,
    fun t ht => h.within t (hsub.subset ht), fun t ht => ?_, h.future⟩
  · change (∃ f, Function.update s.fragments key none k = some f) ↔
      ∃ t ∈ s.timeoutEventList.filter fun t => t.node ≠ fragments.timeoutIter, t.key = k
    rw [hlist]
    by_cases hk : k = key
    · rw [hk, Function.update_self]
      simp
    · have hkeys := h.keys k
      change (∃ f, Function.update s.fragments key _ k = some f) ↔ _ at hkeys
      rw [Function.update_of_ne hk] at hkeys ⊢
      rw [hkeys]
      refine exists_congr fun t => ⟨?_, ?_⟩
      · rintro ⟨ht, rfl⟩
        exact ⟨List.mem_filter.2 ⟨ht, decide_eq_true hk⟩, rfl⟩
      · rintro ⟨ht, rfl⟩
        exact ⟨(List.mem_filter.1 ht).1, rfl⟩
  · have hmem := hsub.subset (List.mem_of_mem_head? ht)
    obtain ⟨first, rest, hcons⟩ := List.exists_cons_of_ne_nil (List.ne_nil_of_mem hmem)
    have hordered := h.ordered
    change s.timeoutEventList.Pairwise _ at hordered
    obtain ⟨time, htime, hle⟩ := h.pending first (by
      change first ∈ s.timeoutEventList.head?
      rw [hcons]
      rfl)
    refine ⟨time, htime, hle.trans ?_⟩
    rw [hcons] at hmem hordered
    rcases List.mem_cons.1 hmem with rfl | hmem
    · exact le_rfl
    · exact (List.pairwise_cons.1 hordered).1 t hmem

theorem Linked.complete (h : Linked (s.keep key fragments)) (node : ℕ) :
    Linked (s.complete key node) := by
  have hsub : (s.complete key node).timeoutEventList.Sublist s.timeoutEventList :=
    List.filter_sublist
  refine ⟨fun t ht f hf => ?_, (hsub.map _).nodup h.nodes, fun t ht => h.fresh t (hsub.subset ht)⟩
  change Function.update s.fragments key none t.key = some f at hf
  by_cases hk : t.key = key
  · rw [hk, Function.update_self] at hf
    cases hf
  · have hiter := h.iter t (hsub.subset ht)
    change ∀ f, Function.update s.fragments key _ t.key = some f → _ at hiter
    rw [Function.update_of_ne hk] at hf hiter
    exact hiter f hf

/-- The list with a timeout for the key. -/
def listed (fragmentExpirationTimeout : ℕ) (key : FragmentKey) (ipHeader : Ipv4Header)
    (iif : UInt32) (s : Timers) : List Timeout :=
  match s.fragments key with
  | none => s.timeoutEventList ++
      [⟨s.nextNode, s.now + fragmentExpirationTimeout, key, ipHeader, iif⟩]
  | some _ => s.timeoutEventList

/-- What is found for a key. -/
structure Found (fragmentExpirationTimeout : ℕ) (key : FragmentKey) (ipHeader : Ipv4Header)
    (iif : UInt32) (s : Timers) (r : Fragments × Timers) : Prop where
  tidy : Tidy fragmentExpirationTimeout (r.2.keep key r.1)
  linked : Linked (r.2.keep key r.1)
  list : r.1.list = (s.buffers key).getD {}
  fragments : r.2.fragments = s.fragments
  now : r.2.now = s.now
  dropped : r.2.dropped = s.dropped
  timeouts : r.2.timeoutEventList = s.listed fragmentExpirationTimeout key ipHeader iif

theorem Tidy.found (h : Tidy fragmentExpirationTimeout s) (hlinked : Linked s) :
    Found fragmentExpirationTimeout key ipHeader iif s
      (s.findFragments fragmentExpirationTimeout key ipHeader iif) := by
  rcases @findFragments_cases fragmentExpirationTimeout key ipHeader iif s with
    ⟨fragments, hfragments, heq⟩ | ⟨hnone, heq⟩
  · rw [heq]
    refine ⟨?_, ?_, ?_, rfl, rfl, rfl, ?_⟩
    · rwa [keep_eq_self hfragments]
    · rwa [keep_eq_self hfragments]
    · rw [buffers, hfragments]
      rfl
    · rw [listed, hfragments]
  · rw [heq]
    refine ⟨h.setTimeout hnone _, hlinked.setTimeout fun t ht hkey => ?_, ?_, rfl, rfl, rfl, ?_⟩
    · obtain ⟨f, hf⟩ := (h.keys key).2 ⟨t, ht, hkey⟩
      rw [hnone] at hf
      cases hf
    · rw [buffers, hnone]
      rfl
    · rw [listed, hnone]
      rfl

/-- What a fragment does to the buffers and to the list : its datagram is complete, or it is kept
with its timeout. -/
structure Received (fragmentExpirationTimeout : ℕ) (packet : Packet) (ipHeader : Ipv4Header)
    (iif : UInt32) (s t : Timers) : Prop where
  others : ∀ key ≠ keyOf ipHeader, t.fragments key = s.fragments key
  now : t.now = s.now
  dropped : t.dropped = s.dropped
  outcome : t.buffers (keyOf ipHeader) = none ∧
      t.timeoutEventList = (s.timeoutEventList.filter fun t => t.key ≠ keyOf ipHeader) ∨
    t.buffers (keyOf ipHeader) = some (((s.buffers (keyOf ipHeader)).getD {}).addFragment packet
        ipHeader.fragmentOffset (!ipHeader.isLastFragment)) ∧
      t.timeoutEventList =
        s.listed fragmentExpirationTimeout (keyOf ipHeader) ipHeader iif

theorem filter_listed :
    (s.listed fragmentExpirationTimeout key ipHeader iif).filter (fun t => t.key ≠ key) =
      s.timeoutEventList.filter fun t => t.key ≠ key := by
  rw [listed]
  cases s.fragments key with
  | some fragments => rfl
  | none => simp

theorem Tidy.processFragment (h : Tidy fragmentExpirationTimeout s) (hlinked : Linked s) :
    ∃ r, s.processFragment fragmentExpirationTimeout packet ipHeader iif = some r ∧
      Ipv4L3Protocol.processFragment s.buffers packet ipHeader =
        some ⟨r.1, r.2.1, r.2.2.buffers⟩ ∧
      Tidy fragmentExpirationTimeout r.2.2 ∧ Linked r.2.2 ∧
      Received fragmentExpirationTimeout packet ipHeader iif s r.2.2 := by
  have hfound : Found fragmentExpirationTimeout (keyOf ipHeader) ipHeader iif s _ :=
    h.found hlinked
  rw [Timers.processFragment, Ipv4L3Protocol.processFragment]
  obtain ⟨⟨fragments, u⟩, hr⟩ : ∃ r, s.findFragments fragmentExpirationTimeout (keyOf ipHeader)
      ipHeader iif = r := ⟨_, rfl⟩
  rw [hr] at hfound ⊢
  have hbuffers : u.buffers = s.buffers := by
    unfold buffers
    rw [hfound.fragments]
  have hlist : fragments.list = (s.buffers (keyOf ipHeader)).getD {} := hfound.list
  dsimp only
  rw [hlist]
  generalize hadded : ((s.buffers (keyOf ipHeader)).getD {}).addFragment packet
    ipHeader.fragmentOffset (!ipHeader.isLastFragment) = added
  have hupdate : ∀ found : Option Fragments,
      (fun key => (Function.update u.fragments (keyOf ipHeader) found key).map Fragments.list) =
        Function.update s.buffers (keyOf ipHeader) (found.map Fragments.list) := by
    intro found
    rw [← hbuffers]
    exact Function.comp_update (Option.map Fragments.list) u.fragments (keyOf ipHeader) found
  by_cases hentire : added.isEntire = true
  · obtain ⟨p, hp⟩ := getPacket_isSome hentire
    rw [if_pos hentire, if_pos hentire, hp, Option.map_some, Option.map_some]
    refine ⟨_, rfl, ?_, hfound.tidy.complete hfound.linked, hfound.linked.complete _, ?_,
      hfound.now, hfound.dropped, .inl ⟨?_, ?_⟩⟩
    · exact congrArg (fun m => some (⟨true, p, m⟩ : Processed)) (hupdate none).symm
    · intro key hne
      exact (Function.update_of_ne hne _ _).trans (congrFun hfound.fragments key)
    · change (Function.update u.fragments _ none _).map _ = none
      rw [Function.update_self]
      rfl
    · change u.timeoutEventList.filter _ = _
      rw [← filter_listed, ← hfound.timeouts]
      exact filter_node hfound.tidy hfound.linked
  · rw [if_neg hentire, if_neg hentire]
    refine ⟨_, rfl, ?_, hfound.tidy.keep _, hfound.linked.keep _, ?_, hfound.now, hfound.dropped,
      .inr ⟨?_, hfound.timeouts⟩⟩
    · exact congrArg (fun m => some (⟨false, packet, m⟩ : Processed))
        (hupdate (some { fragments with list := added })).symm
    · intro key hne
      exact (Function.update_of_ne hne _ _).trans (congrFun hfound.fragments key)
    · change (Function.update u.fragments _ (some _) _).map _ = _
      rw [Function.update_self, hadded]
      rfl

/-! ## A timeout -/

/-- What is reported of the fragments of a timeout. -/
def Reports (fragments : FragmentKey → Option Fragments) (t : Timeout) (d : Dropped) : Prop :=
  ∃ found r, fragments t.key = some found ∧ found.list.getPartialPacket = some r ∧
    d = ⟨t.ipHeader, t.iif, r.1, decide (8 < getSize r.1), r.2⟩

/-- The buffers without those of the keys. -/
def without (s : Timers) (keys : List FragmentKey) : FragmentKey → Option Fragments :=
  fun key => if key ∈ keys then none else s.fragments key

/-- The loop erases the timeouts of the present time in front of the list. -/
theorem expire_spec (timeouts : List Timeout) : ∀ {s : Timers},
    (∀ t ∈ timeouts, ∃ fragments, s.fragments t.key = some fragments ∧
      fragments.list.fragments ≠ []) → (timeouts.map Timeout.key).Nodup →
    ∃ expired rest reports, timeouts = expired ++ rest ∧ (∀ t ∈ expired, t.expiry = s.now) ∧
      (∀ t ∈ rest.head?, t.expiry ≠ s.now) ∧
      List.Forall₂ (Reports s.fragments) expired reports ∧
      expire timeouts s = some { s with
        fragments := s.without (expired.map Timeout.key)
        timeoutEventList := rest
        dropped := s.dropped ++ reports } := by
  induction timeouts with
  | nil =>
    intro s _ _
    refine ⟨[], [], [], rfl, by simp, by simp, .nil, ?_⟩
    rw [expire, List.append_nil]
    rfl
  | cons t rest ih =>
    intro s hfound hnodup
    obtain ⟨⟨fragments, hfragments, hne⟩, hfound⟩ := List.forall_mem_cons.1 hfound
    obtain ⟨hnot, hnodup⟩ := List.nodup_cons.1 hnodup
    rw [expire]
    by_cases hnow : t.expiry = s.now
    · obtain ⟨r, hr⟩ := getPartialPacket_isSome hne
      rw [if_pos hnow, handleFragmentsTimeout, hfragments, Option.bind_some, hr, Option.map_some,
        Option.bind_some]
      have hother : ∀ u ∈ rest, u.key ≠ t.key := fun u hu heq =>
        hnot (List.mem_map.2 ⟨u, hu, heq⟩)
      obtain ⟨u, hu⟩ : ∃ u : Timers, u = { s with
          fragments := Function.update s.fragments t.key none
          dropped := s.dropped ++ [⟨t.ipHeader, t.iif, r.1, decide (8 < getSize r.1), r.2⟩] } :=
        ⟨_, rfl⟩
      have hkept : ∀ key ≠ t.key, u.fragments key = s.fragments key := fun key hne => by
        rw [hu]
        exact Function.update_of_ne hne _ _
      have hgone : u.fragments t.key = none := by
        rw [hu]
        exact Function.update_self _ _ _
      rw [← hu]
      obtain ⟨expired, rest', reports, heq, hexpired, hhead, hreports, hrun⟩ := ih (s := u)
        (fun x hx => by
          obtain ⟨found, hin⟩ := hfound x hx
          exact ⟨found, (hkept _ (hother x hx)).trans hin.1, hin.2⟩) hnodup
      have hunow : u.now = s.now := hu ▸ rfl
      rw [hunow] at hexpired hhead
      refine ⟨t :: expired, rest',
        ⟨t.ipHeader, t.iif, r.1, decide (8 < getSize r.1), r.2⟩ :: reports,
        congrArg _ heq, List.forall_mem_cons.2 ⟨hnow, hexpired⟩, hhead,
        .cons ⟨fragments, r, hfragments, hr, rfl⟩ (hreports.imp fun x d => ?_), ?_⟩
      · rintro ⟨found, r', hin, hr', rfl⟩
        have hne : x.key ≠ t.key := fun hkey => by
          rw [hkey, hgone] at hin
          cases hin
        exact ⟨found, r', (hkept _ hne).symm.trans hin, hr', rfl⟩
      · have hwithout : u.without (expired.map Timeout.key) =
            s.without ((t :: expired).map Timeout.key) := by
          funext key
          unfold without
          by_cases hkey : key = t.key
          · rw [hkey, hgone, ite_self, List.map_cons, if_pos List.mem_cons_self]
          · simp only [List.map_cons, List.mem_cons, hkey, false_or, hkept key hkey]
        rw [hrun, hwithout, hu, List.append_assoc]
        rfl
    · rw [if_neg hnow]
      refine ⟨[], t :: rest, [], rfl, by simp, fun u hu => ?_, .nil, ?_⟩
      · cases hu
        exact hnow
      · rw [List.append_nil]
        rfl

/-- What a timeout does : the datagrams whose time has come are dropped, and the others are kept. -/
structure Elapsed (s t : Timers) (expired : List Timeout) (reports : List Dropped) : Prop where
  timeouts : s.timeoutEventList = expired ++ t.timeoutEventList
  elapsed : ∀ x ∈ expired, x.expiry = t.now
  later : ∀ x ∈ t.timeoutEventList, t.now < x.expiry
  fragments : t.fragments = s.without (expired.map Timeout.key)
  dropped : t.dropped = s.dropped ++ reports
  reports : List.Forall₂ (Reports s.fragments) expired reports

theorem Tidy.handleTimeout (h : Tidy fragmentExpirationTimeout s) (hlinked : Linked s)
    (hne : ∀ key fragments, s.fragments key = some fragments → fragments.list.fragments ≠ [])
    {time : ℕ} (htime : s.scheduled.min? = some time) :
    ∃ t expired reports, { s with now := time, scheduled := s.scheduled.erase time }.handleTimeout =
        some t ∧ Tidy fragmentExpirationTimeout t ∧ Linked t ∧ t.now = time ∧
      Elapsed s t expired reports := by
  obtain ⟨hmem, hmin⟩ := List.min?_eq_some_iff.1 htime
  have hat := h.at (h.future time hmem) hmin
  obtain ⟨u, hu⟩ : ∃ u : Timers, u = { s with
      now := time
      scheduled := s.scheduled.erase time } := ⟨_, rfl⟩
  have hlist : u.timeoutEventList = s.timeoutEventList := hu ▸ rfl
  have hfragments : u.fragments = s.fragments := hu ▸ rfl
  have hnow : u.now = time := hu ▸ rfl
  have hwithin : ∀ x ∈ s.timeoutEventList, time ≤ x.expiry ∧
      x.expiry ≤ time + fragmentExpirationTimeout := hat.within
  rw [← hu, Timers.handleTimeout]
  obtain ⟨expired, rest, reports, heq, hexpired, hhead, hreports, hrun⟩ :=
    expire_spec u.timeoutEventList (s := u) (fun x hx => by
      obtain ⟨found, hfound⟩ := (h.keys x.key).2 ⟨x, hlist ▸ hx, rfl⟩
      exact ⟨found, hfragments ▸ hfound, hne _ _ hfound⟩) (hlist ▸ h.once)
  rw [hlist] at heq
  rw [hnow] at hexpired hhead
  have hsub : rest.Sublist s.timeoutEventList := heq ▸ List.sublist_append_right _ _
  have hlater : ∀ x ∈ rest, time < x.expiry := by
    have hordered := h.ordered.sublist hsub
    cases rest with
    | nil => exact fun x hx => absurd hx List.not_mem_nil
    | cons first rest =>
      have hfirst : time < first.expiry := lt_of_le_of_ne
        (hwithin first (hsub.subset List.mem_cons_self)).1 (hhead first rfl).symm
      exact List.forall_mem_cons.2 ⟨hfirst, fun x hx =>
        hfirst.trans_le ((List.pairwise_cons.1 hordered).1 x hx)⟩
  have hnodup := h.once
  rw [heq, List.map_append] at hnodup
  have hapart : ∀ x ∈ rest, x.key ∉ expired.map Timeout.key := fun x hx hin =>
    List.disjoint_of_nodup_append hnodup hin (List.mem_map_of_mem hx)
  have hkeys : ∀ key, (∃ found, s.without (expired.map Timeout.key) key = some found) ↔
      ∃ x ∈ rest, x.key = key := by
    intro key
    unfold without
    split_ifs with hin
    · constructor
      · rintro ⟨found, hfound⟩
        cases hfound
      · rintro ⟨x, hx, rfl⟩
        exact absurd hin (hapart x hx)
    · rw [h.keys key, heq]
      refine exists_congr fun x => ⟨?_, ?_⟩
      · rintro ⟨hx, rfl⟩
        exact ⟨(List.mem_append.1 hx).resolve_left fun hex =>
          hin (List.mem_map_of_mem hex), rfl⟩
      · rintro ⟨hx, rfl⟩
        exact ⟨List.mem_append_right _ hx, rfl⟩
  have hfuture : ∀ later ∈ u.scheduled, time ≤ later := fun later hin =>
    hmin later (List.mem_of_mem_erase (hu ▸ hin))
  have hwithout : u.without (expired.map Timeout.key) = s.without (expired.map Timeout.key) := by
    unfold without
    rw [hfragments]
  have hiter : ∀ x ∈ rest, ∀ found, s.without (expired.map Timeout.key) x.key = some found →
      found.timeoutIter = x.node := by
    intro x hx found hfound
    rw [without, if_neg (hapart x hx)] at hfound
    exact hlinked.iter x (hsub.subset hx) found hfound
  have htidy : ∀ scheduled : List ℕ, (∀ x ∈ rest.head?, ∃ p ∈ scheduled, p ≤ x.expiry) →
      (∀ p ∈ scheduled, time ≤ p) → Tidy fragmentExpirationTimeout { u with
        fragments := u.without (expired.map Timeout.key)
        timeoutEventList := rest
        dropped := u.dropped ++ reports
        scheduled := scheduled } := fun scheduled hpending hfuture =>
    ⟨hwithout ▸ hkeys, (hsub.map _).nodup h.once, h.ordered.sublist hsub,
      fun x hx => hnow ▸ hwithin x (hsub.subset hx), hpending, hnow ▸ hfuture⟩
  have hlinks : ∀ scheduled : List ℕ, Linked { u with
        fragments := u.without (expired.map Timeout.key)
        timeoutEventList := rest
        dropped := u.dropped ++ reports
        scheduled := scheduled } := fun scheduled =>
    ⟨hwithout ▸ hiter, (hsub.map _).nodup hlinked.nodes, fun x hx => by
      rw [hu]
      exact hlinked.fresh x (hsub.subset hx)⟩
  have helapsed : ∀ scheduled : List ℕ, Elapsed s { u with
        fragments := u.without (expired.map Timeout.key)
        timeoutEventList := rest
        dropped := u.dropped ++ reports
        scheduled := scheduled } expired reports := fun scheduled =>
    ⟨heq, hnow ▸ hexpired, hnow ▸ hlater, hwithout, by rw [hu], hfragments ▸ hreports⟩
  rw [hrun, Option.bind_some, reschedule]
  cases rest with
  | nil => exact ⟨_, expired, reports, rfl, htidy u.scheduled (by simp) hfuture, hlinks _, hnow,
      helapsed _⟩
  | cons first rest =>
    have hfirst := hlater first List.mem_cons_self
    dsimp only
    rw [if_neg (by omega)]
    refine ⟨_, expired, reports, rfl, htidy (u.scheduled ++ [_]) (fun x hx => ?_)
      (fun p hp => ?_), hlinks _, hnow, helapsed _⟩
    · cases hx
      exact ⟨_, List.mem_append_right _ List.mem_cons_self, by omega⟩
    · rcases List.mem_append.1 hp with hp | hp
      · exact hfuture p hp
      · rw [List.mem_singleton.1 hp]
        omega

/-! ## Every run -/

/-- Time goes on, and no fragment arrives behind a scheduled event. -/
def Allowed (s : Timers) : Event → Prop
  | .receive time _ _ _ _ => s.now ≤ time ∧ ∀ later ∈ s.scheduled, time ≤ later
  | .timeout => True

instance (s : Timers) : ∀ event : Event, Decidable (s.Allowed event)
  | .receive time _ _ _ _ =>
    inferInstanceAs (Decidable (s.now ≤ time ∧ ∀ later ∈ s.scheduled, time ≤ later))
  | .timeout => inferInstanceAs (Decidable True)

/-- The fragment that arrives, if it has the key. -/
def Event.arrivals (key : FragmentKey) : Event → List Arrival
  | .receive _ packet _ ipHeader _ =>
    if keyOf ipHeader = key then
      [⟨packet, ipHeader.fragmentOffset, !ipHeader.isLastFragment⟩]
    else []
  | .timeout => []

/-- The timers, and the fragments that have arrived for each buffer. -/
structure Observed where
  timers : Timers := {}
  received : FragmentKey → List Arrival := fun _ => []

namespace Observed

/-- One event, with what arrives. -/
def observe (fragmentExpirationTimeout : ℕ) (o : Option Observed) (event : Event) :
    Option Observed :=
  o.bind fun s => (s.timers.handle fragmentExpirationTimeout event).map fun t =>
    ⟨t, fun key =>
      if (t.buffers key).isSome then s.received key ++ event.arrivals key else []⟩

/-- What an event does : a fragment touches its datagram only, and a timeout drops the datagrams
whose time has come. -/
def Exact (fragmentExpirationTimeout : ℕ) (s : Observed) (event : Event) : Prop :=
  ∃ t, observe fragmentExpirationTimeout (some s) event = some t ∧
    match event with
    | .receive time packet _ ipHeader iif => t.timers.now = time ∧
      Received fragmentExpirationTimeout packet ipHeader iif { s.timers with now := time } t.timers
    | .timeout => t.timers.now = s.timers.scheduled.min?.getD s.timers.now ∧
      ∃ expired reports, Elapsed s.timers t.timers expired reports

/-- The fragments that time out fit a packet. -/
def Fitting (s : Observed) : Event → Prop
  | .receive _ _ _ _ _ => True
  | .timeout => ∀ t ∈ s.timers.timeoutEventList, s.timers.scheduled.min? = some t.expiry →
      ∀ fragments ∈ s.timers.fragments t.key, Fits [] fragments.list.fragments

instance (s : Observed) : ∀ event : Event, Decidable (s.Fitting event)
  | .receive _ _ _ _ _ => inferInstanceAs (Decidable True)
  | .timeout => inferInstanceAs (Decidable (∀ t ∈ s.timers.timeoutEventList,
      s.timers.scheduled.min? = some t.expiry →
      ∀ fragments ∈ s.timers.fragments t.key, Fits [] fragments.list.fragments))

/-- The packets of a timeout are the beginnings that the fragments hold, and no subtraction has
gone below zero. -/
def Partial (fragmentExpirationTimeout : ℕ) (s : Observed) : Event → Prop
  | .receive _ _ _ _ _ => True
  | .timeout => ∃ t, observe fragmentExpirationTimeout (some s) .timeout = some t ∧
      ∃ expired reports, Elapsed s.timers t.timers expired reports ∧
        List.Forall₂ (fun x d => d.safe = true ∧
          Beginning ((s.received x.key).map Arrival.block) d.packet) expired reports

/-- The buffers are made of what has arrived. -/
structure Inv (fragmentExpirationTimeout : ℕ) (s : Observed) : Prop where
  tidy : Tidy fragmentExpirationTimeout s.timers
  linked : Linked s.timers
  made : ∀ key, Made ((s.timers.buffers key).getD {}) (s.received key)
  ne_nil : ∀ key fragments, s.timers.fragments key = some fragments →
    fragments.list.fragments ≠ []

variable {s t : Observed} {event : Event}

theorem inv_init : Inv fragmentExpirationTimeout {} := by
  refine ⟨⟨fun key => ?_, List.nodup_nil, .nil, ?_, ?_, ?_⟩, ⟨?_, List.nodup_nil, ?_⟩,
    fun _ => made_nil, ?_⟩ <;> simp

/-- The buffers after an event of the key, or without one. -/
theorem Inv.made_observe (h : Inv fragmentExpirationTimeout s) {t : Timers} {key : FragmentKey}
    (hbuffer : t.buffers key = none ∨
      t.buffers key = s.timers.buffers key ∧ event.arrivals key = [] ∨
      ∃ f, event.arrivals key = [f] ∧ t.buffers key =
        some (((s.timers.buffers key).getD {}).addFragment f.fragment f.fragmentOffset
          f.moreFragment)) :
    Made ((t.buffers key).getD {})
      (if (t.buffers key).isSome then s.received key ++ event.arrivals key else []) := by
  rcases hbuffer with hnone | ⟨hsame, hnil⟩ | ⟨f, harrives, hadded⟩
  · rw [hnone]
    exact made_nil
  · rw [hsame, hnil, List.append_nil]
    have hmade := h.made key
    cases hkey : s.timers.buffers key with
    | none => exact made_nil
    | some l =>
      rw [hkey] at hmade
      exact hmade
  · rw [hadded, harrives]
    exact (h.made key).addFragment f

theorem insertAt_ne_nil {fragment : Packet} {offset : UInt16} {its : List (Packet × UInt16)} :
    insertAt fragment offset its ≠ [] :=
  List.ne_nil_of_mem (mem_insertAt.2 (.inl rfl))

/-- A fragment keeps the invariant. -/
theorem Inv.receive (h : Inv fragmentExpirationTimeout s) {time : ℕ}
    {hpacket : packet.length < 2 ^ 16}
    (hallowed : s.timers.Allowed (.receive time packet hpacket ipHeader iif)) :
    ∃ t, observe fragmentExpirationTimeout (some s) (.receive time packet hpacket ipHeader iif) =
        some t ∧ Inv fragmentExpirationTimeout t ∧ t.timers.now = time ∧
      Received fragmentExpirationTimeout packet ipHeader iif { s.timers with now := time }
        t.timers := by
  obtain ⟨hnow, hnext⟩ := hallowed
  have hlinked : Linked { s.timers with now := time } := ⟨h.linked.iter, h.linked.nodes,
    h.linked.fresh⟩
  obtain ⟨r, hr, -, htidy, hlinked', hreceived⟩ :=
    @Tidy.processFragment _ _ ipHeader iif packet (h.tidy.at hnow hnext) hlinked
  have hhandle : s.timers.handle fragmentExpirationTimeout
      (.receive time packet hpacket ipHeader iif) = some r.2.2 := by
    rw [handle, hr]
    rfl
  have hothers : ∀ key ≠ keyOf ipHeader, r.2.2.buffers key = s.timers.buffers key :=
    fun key hne => congrArg (Option.map Fragments.list) (hreceived.others key hne)
  refine ⟨_, congrArg (Option.map _) hhandle, ⟨htidy, hlinked', fun key => ?_, ?_⟩,
    hreceived.now, hreceived⟩
  · refine h.made_observe ?_
    by_cases hkey : key = keyOf ipHeader
    · subst hkey
      refine hreceived.outcome.imp And.left fun hkept => .inr ⟨_, if_pos rfl, hkept.1⟩
    · exact .inr (.inl ⟨hothers key hkey, if_neg (Ne.symm hkey)⟩)
  · intro key fragments hfragments
    by_cases hkey : key = keyOf ipHeader
    · subst hkey
      have hbuffer : r.2.2.buffers (keyOf ipHeader) = some fragments.list :=
        congrArg (Option.map Fragments.list) hfragments
      rcases hreceived.outcome with ⟨hnone, -⟩ | ⟨hadded, -⟩
      · rw [hnone] at hbuffer
        cases hbuffer
      · rw [← Option.some.inj (hadded.symm.trans hbuffer)]
        exact insertAt_ne_nil
    · exact h.ne_nil key fragments ((hreceived.others key hkey).symm.trans hfragments)

/-- A timeout keeps the invariant. -/
theorem Inv.timeout (h : Inv fragmentExpirationTimeout s) :
    ∃ t, observe fragmentExpirationTimeout (some s) .timeout = some t ∧
      Inv fragmentExpirationTimeout t ∧
      t.timers.now = s.timers.scheduled.min?.getD s.timers.now ∧
      ∃ expired reports, Elapsed s.timers t.timers expired reports := by
  have hmade : ∀ {t : Timers}, (∀ key, t.buffers key = none ∨
      t.buffers key = s.timers.buffers key) → ∀ key, Made ((t.buffers key).getD {})
        (if (t.buffers key).isSome then s.received key ++ Event.timeout.arrivals key else []) :=
    fun hbuffers key => h.made_observe ((hbuffers key).imp_right fun heq => .inl ⟨heq, rfl⟩)
  cases hmin : s.timers.scheduled.min? with
  | none =>
    have hhandle : s.timers.handle fragmentExpirationTimeout .timeout = some s.timers := by
      rw [handle, hmin]
    have hnil : s.timers.timeoutEventList = [] := by
      by_contra hne
      obtain ⟨first, rest, hcons⟩ := List.exists_cons_of_ne_nil hne
      obtain ⟨later, hlater, -⟩ := h.tidy.pending first (by rw [hcons]; rfl)
      rw [List.min?_eq_none_iff.1 hmin] at hlater
      cases hlater
    refine ⟨_, congrArg (Option.map _) hhandle, ⟨h.tidy, h.linked,
      hmade fun key => .inr rfl, h.ne_nil⟩, rfl, [], [], ?_⟩
    refine ⟨rfl, by simp, ?_, rfl, (List.append_nil _).symm, .nil⟩
    change ∀ x ∈ s.timers.timeoutEventList, _
    rw [hnil]
    exact fun x hx => absurd hx List.not_mem_nil
  | some time =>
    obtain ⟨t, expired, reports, ht, htidy, hlinked, hnow, helapsed⟩ :=
      h.tidy.handleTimeout h.linked h.ne_nil hmin
    have hhandle : s.timers.handle fragmentExpirationTimeout .timeout = some t := by
      rw [handle, hmin]
      exact ht
    have hwithout : ∀ key, t.fragments key = none ∨ t.fragments key = s.timers.fragments key := by
      intro key
      rw [helapsed.fragments, without]
      split_ifs
      · exact .inl rfl
      · exact .inr rfl
    refine ⟨_, congrArg (Option.map _) hhandle, ⟨htidy, hlinked, hmade fun key => ?_, ?_⟩, hnow,
      expired, reports, helapsed⟩
    · exact (hwithout key).imp (congrArg (Option.map Fragments.list))
        (congrArg (Option.map Fragments.list))
    · intro key fragments hfragments
      rcases hwithout key with hnone | hsame
      · exact absurd (hnone.symm.trans hfragments) (Option.some_ne_none _).symm
      · exact h.ne_nil key fragments (hsame.symm.trans hfragments)

/-- One event keeps the invariant, and does what it should to the timers. -/
theorem Inv.observe (h : Inv fragmentExpirationTimeout s) (hallowed : s.timers.Allowed event) :
    ∃ t, observe fragmentExpirationTimeout (some s) event = some t ∧
      Inv fragmentExpirationTimeout t ∧ Exact fragmentExpirationTimeout s event := by
  cases event with
  | receive time packet hpacket ipHeader iif =>
    obtain ⟨t, ht, hinv, hexact⟩ := h.receive hallowed
    exact ⟨t, ht, hinv, t, ht, hexact⟩
  | timeout =>
    obtain ⟨t, ht, hinv, hexact⟩ := h.timeout
    exact ⟨t, ht, hinv, t, ht, hexact⟩

/-- Of fragments that fit the beginning is reported. -/
theorem Inv.reports (h : Inv fragmentExpirationTimeout s) (hfits : s.Fitting event) :
    Partial fragmentExpirationTimeout s event := by
  cases event with
  | receive time packet hpacket ipHeader iif => trivial
  | timeout =>
    obtain ⟨t, ht, hinv, hnow, expired, reports, helapsed⟩ := h.timeout
    refine ⟨t, ht, expired, reports, helapsed, ?_⟩
    have hmem : ∀ x ∈ expired, x ∈ s.timers.timeoutEventList := fun x hx =>
      helapsed.timeouts ▸ List.mem_append_left _ hx
    have hmin : ∀ x ∈ expired, s.timers.scheduled.min? = some x.expiry := by
      intro x hx
      rw [helapsed.elapsed x hx, hnow]
      obtain ⟨first, rest, hcons⟩ := List.exists_cons_of_ne_nil (List.ne_nil_of_mem (hmem x hx))
      obtain ⟨later, hlater, -⟩ := h.tidy.pending first (by rw [hcons]; rfl)
      cases hnone : s.timers.scheduled.min? with
      | none =>
        rw [List.min?_eq_none_iff.1 hnone] at hlater
        cases hlater
      | some time => rfl
    refine (List.forall₂_iff_get.2 ⟨helapsed.reports.length_eq, fun i hi hi' => ?_⟩)
    obtain ⟨found, r, hfound, hr, hd⟩ := helapsed.reports.get hi hi'
    have hx := List.get_mem expired ⟨i, hi⟩
    have hmade := h.made (expired.get ⟨i, hi⟩).key
    rw [buffers, hfound, Option.map_some, Option.getD_some] at hmade
    obtain ⟨p, hp, hbeginning⟩ := hmade.getPartialPacket (h.ne_nil _ _ hfound)
      (hfits _ (hmem _ hx) (hmin _ hx) found hfound)
    rw [hd]
    obtain rfl := Option.some.inj (hr.symm.trans hp)
    exact ⟨rfl, hbeginning⟩

/-- In every run the keys of the buffers are those of the list, and each event does to the timers
what it should. If the fragments that time out fit, the packets are what they hold. -/
theorem timeouts_of_run (fragmentExpirationTimeout : ℕ) (events : List Event)
    (hallowed : Each (observe fragmentExpirationTimeout)
      (fun o event => ∀ s ∈ o, s.timers.Allowed event) (some {}) events) :
    Always (observe fragmentExpirationTimeout)
        (fun o => ∃ s ∈ o, s.timers.Tidy fragmentExpirationTimeout) (some {}) events ∧
      Each (observe fragmentExpirationTimeout)
        (fun o event => ∃ s ∈ o, Exact fragmentExpirationTimeout s event) (some {}) events ∧
      (Each (observe fragmentExpirationTimeout) (fun o event => ∀ s ∈ o, s.Fitting event)
          (some {}) events →
        Each (observe fragmentExpirationTimeout)
          (fun o event => ∃ s ∈ o, Partial fragmentExpirationTimeout s event) (some {})
          events) := by
  have hstep : ∀ (o : Option Observed) (event : Event),
      (∃ s ∈ o, Inv fragmentExpirationTimeout s) → (∀ s ∈ o, s.timers.Allowed event) →
        ∃ s ∈ Observed.observe fragmentExpirationTimeout o event,
          Inv fragmentExpirationTimeout s := by
    rintro o event ⟨s, rfl, hinv⟩ hallowed
    obtain ⟨t, ht, hinv', -⟩ := hinv.observe (hallowed s rfl)
    exact ⟨t, ht, hinv'⟩
  have hinit : ∃ s ∈ some ({} : Observed), Inv fragmentExpirationTimeout s :=
    ⟨_, rfl, inv_init⟩
  refine ⟨(hallowed.always hstep hinit).mono ?_, hallowed.imp hstep ?_ hinit, fun hfits => ?_⟩
  · rintro o ⟨s, hs, hinv⟩
    exact ⟨s, hs, hinv.tidy⟩
  · rintro o event ⟨s, rfl, hinv⟩ hok
    obtain ⟨t, -, -, hexact⟩ := hinv.observe (hok s rfl)
    exact ⟨s, rfl, hexact⟩
  · refine (hallowed.and hfits).imp (fun o event ho hok => hstep o event ho hok.1) ?_ hinit
    rintro o event ⟨s, rfl, hinv⟩ hok
    exact ⟨s, rfl, hinv.reports (hok.2 s rfl)⟩

/-! ## Fragments in pieces -/

/-- A header of fragments of one datagram. -/
def headerAt (fragmentOffset : UInt16) : Ipv4Header where
  source := 1
  destination := 2
  identification := 3
  protocol := 17
  payloadSize := 0
  moreFragments := true
  fragmentOffset := fragmentOffset

/-- Two fragments without an end, of `n` and 8 bytes, and their timeout. -/
def unfinished (n : UInt8) : List Event :=
  [.receive 0 (List.replicate n.toNat 0) (by rw [List.length_replicate]; have := n.toNat_lt; omega)
      (headerAt 0) 1,
    .receive 5 (List.replicate 8 1) (by decide) (headerAt 8) 1, .timeout]

theorem timeouts_of_unfinished :
    Each (observe 30) (fun o event => ∃ s ∈ o, Partial 30 s event) (some {}) (unfinished 12) :=
  (timeouts_of_run 30 (unfinished 12) (by decide +kernel)).2.2 (by decide +kernel)

/-- The second fragment lies within the first. -/
theorem not_timeouts_of_run :
    ¬ ∀ (fragmentExpirationTimeout : ℕ) (events : List Event),
      Each (observe fragmentExpirationTimeout) (fun o event => ∀ s ∈ o, s.timers.Allowed event)
        (some {}) events →
      Each (observe fragmentExpirationTimeout)
        (fun o event => ∃ s ∈ o, Partial fragmentExpirationTimeout s event) (some {}) events := by
  intro h
  obtain ⟨-, -, ⟨s, hs, t, ht, expired, reports, helapsed, hall⟩, -⟩ :=
    h 30 (unfinished 24) (by decide +kernel)
  have hbefore : (run (observe 30) (some {}) ((unfinished 24).take 2)).map
      (fun o => o.timers.dropped) = some [] := by decide +kernel
  have hafter : (run (observe 30) (some {}) (unfinished 24)).map
      (fun o => o.timers.dropped.map Dropped.safe) = some [false] := by decide +kernel
  have hlast : run (observe 30) (some {}) (unfinished 24) = some t :=
    (congrArg (fun o => observe 30 o .timeout) (Option.mem_def.1 hs)).trans ht
  have htwo : run (observe 30) (some {}) ((unfinished 24).take 2) = some s := hs
  rw [htwo] at hbefore
  rw [hlast] at hafter
  have hnone : s.timers.dropped = [] := Option.some.inj hbefore
  have hunsafe : t.timers.dropped.map Dropped.safe = [false] := Option.some.inj hafter
  rw [helapsed.dropped, hnone, List.nil_append] at hunsafe
  obtain ⟨d, rfl, hd⟩ := List.map_eq_singleton_iff.1 hunsafe
  obtain ⟨x, rest, hreport, -, -⟩ := List.forall₂_cons_right_iff.1 hall
  rw [hd] at hreport
  exact Bool.false_ne_true hreport.1

end Observed

end Timers

end Ipv4L3Protocol

end Ns3Pedca
