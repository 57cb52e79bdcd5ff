import Ns3Pedca.Runs
import Ns3Pedca.Internet.Ipv6Fragments

/-!
# Reassembly of IPv6

The fragments of a packet are consecutive pieces, and the list of the receiver is entire if and
only if it holds every piece once (`isEntire_iff`). So a packet is completed by the arrival of
its last missing fragment if and only if no fragment has come twice until then, and then the
receiver returns the unfragmentable part and the original fragmentable part.

Together with what the sender does (`senderRight_iff`) this is `fragmentation`. A packet with
two extension headers loses their order, and one fragment that comes twice keeps its packet from
being completed (`not_fragmentation`).
-/

set_option linter.unusedSectionVars false

namespace Ns3Pedca

open Blocks Runs
open Packet (getSize)

namespace Ipv6ExtensionFragment

open FragmentList (Arrival Made topmost topmost_spec)

variable {F : Packet} {M o : ℕ} {pieces as : List Arrival} {a : Arrival}

/-! ## Consecutive pieces -/

/-- A piece as the list of the receiver has it. -/
def item (a : Arrival) : Packet × UInt16 :=
  (a.fragment, a.fragmentOffset)

/-- Where the pieces begin. -/
theorem Consecutive.offset_spec (h : Consecutive F M o pieces) (hF : F.length < 2 ^ 16)
    (ho : o % 8 = 0) :
    ∀ a ∈ pieces, o ≤ a.fragmentOffset.toNat ∧ a.fragmentOffset.toNat % 8 = 0 := by
  induction h with
  | @last o hle hM =>
    refine List.forall_mem_singleton.2 ?_
    rw [UInt16.toNat_ofNat_of_lt' (show o < 2 ^ 16 by omega)]
    exact ⟨le_rfl, ho⟩
  | @more o pieces hlt hrest ih =>
    refine List.forall_mem_cons.2 ⟨?_, fun a ha => ?_⟩
    · rw [UInt16.toNat_ofNat_of_lt' (show o < 2 ^ 16 by omega)]
      exact ⟨le_rfl, ho⟩
    · have hmem := ih (by omega) a ha
      omega

/-- The pieces come in the order of their offsets, all of them different. -/
theorem Consecutive.increasing (h : Consecutive F M o pieces) (hF : F.length < 2 ^ 16)
    (ho : o % 8 = 0) (hM : 8 ≤ M) :
    pieces.Pairwise fun a b => a.fragmentOffset.toNat < b.fragmentOffset.toNat := by
  induction h with
  | last hle hM => exact List.pairwise_singleton _ _
  | @more o pieces hlt hrest ih =>
    refine List.pairwise_cons.2 ⟨fun a ha => ?_, ih (by omega)⟩
    have hge := (hrest.offset_spec hF (by omega) a ha).1
    change (UInt16.ofNat o).toNat < _
    rw [UInt16.toNat_ofNat_of_lt' (show o < 2 ^ 16 by omega)]
    omega

/-- Only the last piece has no other one behind it. -/
theorem Consecutive.last_spec (h : Consecutive F M o pieces) :
    ∃ init last, pieces = init ++ [last] ∧ last.moreFragment = false ∧
      ∀ a ∈ init, a.moreFragment = true := by
  induction h with
  | last hle hM => exact ⟨[], _, rfl, rfl, fun a ha => absurd ha List.not_mem_nil⟩
  | more hlt hrest ih =>
    obtain ⟨init, last, heq, hlast, hinit⟩ := ih
    refine ⟨_ :: init, last, congrArg _ heq, hlast, List.forall_mem_cons.2 ⟨rfl, hinit⟩⟩

theorem next_offset {o n : ℕ} {fragment : Packet} (hlen : fragment.length = n) :
    UInt16.ofNat o + (getSize fragment).toUInt16 = UInt16.ofNat (o + n) := by
  rw [UInt16.ofNat_add, getSize, hlen]
  congr 1
  rw [← UInt16.toNat_inj, UInt32.toNat_toUInt16, UInt32.toNat_ofNat', UInt16.toNat_ofNat']
  omega

/-- All pieces together are entire, and give the fragmentable part. -/
theorem Consecutive.entire (h : Consecutive F M o pieces) :
    Ipv6Fragments.entireFrom (UInt16.ofNat o) (pieces.map item) = true ∧
      (pieces.map item).flatMap Prod.fst = F.drop o := by
  induction h with
  | last hle hM =>
    refine ⟨?_, ?_⟩
    · simp [item, Ipv6Fragments.entireFrom]
    · simp [item]
  | @more o pieces hlt hrest ih =>
    obtain ⟨hentire, hjoin⟩ := ih
    have hlen : (slice F o (M - M % 8)).length = M - M % 8 := length_slice_of_le (by omega)
    refine ⟨?_, ?_⟩
    · rw [List.map_cons, Ipv6Fragments.entireFrom]
      simp only [item, ne_eq, not_true_eq_false, if_false, next_offset hlen]
      exact hentire
    · rw [List.map_cons, List.flatMap_cons, hjoin, ← List.drop_drop]
      exact List.take_append_drop _ _

/-- Pieces in order without a gap or an overlap are the first ones. -/
theorem Consecutive.isPrefix (h : Consecutive F M o pieces) (hF : F.length < 2 ^ 16)
    (ho : o % 8 = 0) (hM : 8 ≤ M) (hoF : o < F.length) {its : List (Packet × UInt16)}
    (hmem : ∀ it ∈ its, it ∈ pieces.map item)
    (hsorted : its.Pairwise fun a b => a.2.toNat ≤ b.2.toNat)
    (hentire : Ipv6Fragments.entireFrom (UInt16.ofNat o) its = true) : its <+: pieces.map item := by
  induction h generalizing its with
  | @last o hle hM' =>
    rcases its with _ | ⟨x, its⟩
    · exact List.nil_prefix
    · obtain ⟨hx, hits⟩ := List.forall_mem_cons.1 hmem
      have hx' : x = (F.drop o, UInt16.ofNat o) := List.mem_singleton.1 hx
      rcases its with _ | ⟨y, its⟩
      · rw [hx']
        exact List.prefix_refl _
      · have hy : y = (F.drop o, UInt16.ofNat o) :=
          List.mem_singleton.1 (hits y List.mem_cons_self)
        have hne : UInt16.ofNat (o + (F.length - o)) ≠ UInt16.ofNat o := by
          rw [Ne, ← UInt16.toNat_inj, UInt16.toNat_ofNat_of_lt' (show o < 2 ^ 16 by omega),
            UInt16.toNat_ofNat_of_lt' (show o + (F.length - o) < 2 ^ 16 by omega)]
          omega
        simp only [hx', hy, Ipv6Fragments.entireFrom, ne_eq, not_true_eq_false, if_false]
          at hentire
        rw [next_offset (n := F.length - o) (List.length_drop), if_pos hne] at hentire
        exact absurd hentire Bool.false_ne_true
  | @more o pieces hlt hrest ih =>
    rcases its with _ | ⟨x, its⟩
    · exact List.nil_prefix
    · have ho16 : (UInt16.ofNat o).toNat = o :=
        UInt16.toNat_ofNat_of_lt' (show o < 2 ^ 16 by omega)
      have hnext16 : (UInt16.ofNat (o + (M - M % 8))).toNat = o + (M - M % 8) :=
        UInt16.toNat_ofNat_of_lt' (show o + (M - M % 8) < 2 ^ 16 by omega)
      have hbehind : ∀ it ∈ pieces.map item, o + (M - M % 8) ≤ it.2.toNat := by
        intro it hit
        obtain ⟨a, ha, rfl⟩ := List.mem_map.1 hit
        exact (hrest.offset_spec hF (by omega) a ha).1
      obtain ⟨hx, hits⟩ := List.forall_mem_cons.1 hmem
      obtain ⟨hxits, hsorted⟩ := List.pairwise_cons.1 hsorted
      rw [Ipv6Fragments.entireFrom] at hentire
      have hxo : UInt16.ofNat o = x.2 := by
        by_contra hne
        simp [hne] at hentire
      have hxeq : x = (slice F o (M - M % 8), UInt16.ofNat o) := by
        rcases List.mem_cons.1 hx with hx | hx
        · exact hx
        · have hge := hbehind x hx
          rw [← hxo, ho16] at hge
          omega
      have hlen : (slice F o (M - M % 8)).length = M - M % 8 := length_slice_of_le (by omega)
      rw [if_neg (not_not_intro hxo), hxeq, next_offset hlen] at hentire
      have hrestmem : ∀ it ∈ its, it ∈ pieces.map item := by
        intro it hit
        rcases List.mem_cons.1 (hits it hit) with heq | hin
        · exfalso
          have hit2 : it.2.toNat = o := by
            rw [heq]
            exact ho16
          rcases its with _ | ⟨y, its⟩
          · exact absurd hit List.not_mem_nil
          · have hy : UInt16.ofNat (o + (M - M % 8)) = y.2 := by
              by_contra hne
              rw [Ipv6Fragments.entireFrom, if_pos hne] at hentire
              exact Bool.false_ne_true hentire
            have hyit : y.2.toNat ≤ it.2.toNat := by
              rcases List.mem_cons.1 hit with rfl | hit
              · exact le_rfl
              · exact (List.pairwise_cons.1 hsorted).1 it hit
            rw [← hy, hnext16] at hyit
            omega
        · exact hin
      rw [hxeq, List.map_cons]
      exact (List.prefix_cons_inj _).2 (ih (by omega) (by omega) hrestmem hsorted hentire)

/-! ## Entire lists -/

theorem Consecutive.offset_inj (h : Consecutive F M 0 pieces) (hF : F.length < 2 ^ 16)
    (hM : 8 ≤ M) : ∀ a ∈ pieces, ∀ b ∈ pieces, a.fragmentOffset = b.fragmentOffset → a = b := by
  have hnodup : (pieces.map Arrival.fragmentOffset).Nodup := by
    refine List.pairwise_map.2 ((h.increasing hF rfl hM).imp fun hlt heq => ?_)
    rw [heq] at hlt
    exact lt_irrefl _ hlt
  exact fun a ha b hb heq => List.inj_on_of_nodup_map hnodup ha hb heq

theorem Consecutive.nodup (h : Consecutive F M 0 pieces) (hF : F.length < 2 ^ 16) (hM : 8 ≤ M) :
    pieces.Nodup :=
  (h.increasing hF rfl hM).imp fun hlt heq => by
    rw [heq] at hlt
    exact lt_irrefl _ hlt

/-- A piece with no other one behind it has the greatest offset. -/
theorem Consecutive.le_last (h : Consecutive F M 0 pieces) (hF : F.length < 2 ^ 16) (hM : 8 ≤ M)
    {g : Arrival} (hg : g ∈ pieces) :
    g.moreFragment = false ↔ ∀ a ∈ pieces, a.fragmentOffset.toNat ≤ g.fragmentOffset.toNat := by
  obtain ⟨init, last, heq, hlast, hinit⟩ := h.last_spec
  have hincreasing := h.increasing hF rfl hM
  rw [heq, List.pairwise_append] at hincreasing
  have hbefore : ∀ a ∈ init, a.fragmentOffset.toNat < last.fragmentOffset.toNat := fun a ha =>
    hincreasing.2.2 a ha last List.mem_cons_self
  rw [heq] at hg ⊢
  rcases List.mem_append.1 hg with hg | hg
  · refine ⟨fun hmore => absurd (hmore.symm.trans (hinit g hg)) Bool.false_ne_true, fun hall => ?_⟩
    have hle := hall last (List.mem_append_right _ List.mem_cons_self)
    exact absurd (hbefore g hg) (Nat.not_lt.2 hle)
  · rw [List.mem_singleton.1 hg]
    refine ⟨fun _ a ha => ?_, fun _ => hlast⟩
    rcases List.mem_append.1 ha with ha | ha
    · exact (hbefore a ha).le
    · rw [List.mem_singleton.1 ha]

/-- A list that is made of all pieces, each one once, has them in their order. -/
theorem Consecutive.fragments_eq {l : Ipv6Fragments} (h : Consecutive F M 0 pieces)
    (hF : F.length < 2 ^ 16) (hM : 8 ≤ M) (hmade : Made l.toFragmentList as)
    (hsub : ∀ a ∈ as, a ∈ pieces) (hall : ∀ a ∈ pieces, a ∈ as) (hnodup : as.Nodup) :
    l.fragments = pieces.map item := by
  have hperm : as.Perm pieces := (List.perm_ext_iff_of_nodup hnodup (h.nodup hF hM)).2 fun a =>
    ⟨hsub a, hall a⟩
  have hsorted : l.fragments.Pairwise fun a b => a.2.toNat ≤ b.2.toNat :=
    (List.pairwise_map (f := FragmentList.blockOf)).1 hmade.ordered
  have hitems : l.fragments.Perm (pieces.map item) := hmade.perm.trans (hperm.map item)
  refine List.Perm.eq_of_pairwise (fun x y hx hy hxy hyx => ?_) hsorted
    (List.pairwise_map.2 ((h.increasing hF rfl hM).imp Nat.le_of_lt)) hitems
  obtain ⟨a, ha, rfl⟩ := List.mem_map.1 (hitems.mem_iff.1 hx)
  obtain ⟨b, hb, rfl⟩ := List.mem_map.1 hy
  rw [h.offset_inj hF hM a ha b hb (UInt16.toNat_inj.1 (le_antisymm hxy hyx))]

/-- A list that is made of pieces is entire if and only if it is made of all of them, each one
once. -/
theorem isEntire_iff {l : Ipv6Fragments} (h : Consecutive F M 0 pieces) (hF : F.length < 2 ^ 16)
    (hM : 8 ≤ M) (hmade : Made l.toFragmentList as) (hsub : ∀ a ∈ as, a ∈ pieces)
    (hempty : F = [] → as.length ≤ 1) :
    l.isEntire = true ↔ (∀ a ∈ pieces, a ∈ as) ∧ as.Nodup := by
  have hitems : ∀ it ∈ l.fragments, it ∈ pieces.map item := by
    intro it hit
    obtain ⟨a, ha, rfl⟩ := List.mem_map.1 (hmade.perm.mem_iff.1 hit)
    exact List.mem_map_of_mem (hsub a ha)
  have hsorted : l.fragments.Pairwise fun a b => a.2.toNat ≤ b.2.toNat :=
    (List.pairwise_map (f := FragmentList.blockOf)).1 hmade.ordered
  obtain ⟨hnone, hsome⟩ := topmost_spec as
  rw [Ipv6Fragments.isEntire, Bool.and_eq_true, Bool.and_eq_true, hmade.more]
  constructor
  · rintro ⟨⟨hmore, hne⟩, hentire⟩
    obtain ⟨g, hg, hgmore, hgtop⟩ : ∃ g ∈ as, g.moreFragment = false ∧
        ∀ a ∈ as, a.fragmentOffset ≤ g.fragmentOffset := by
      cases htop : topmost as with
      | none =>
        rw [hnone htop] at hmade
        rw [List.perm_nil.1 hmade.perm] at hne
        exact absurd hne Bool.false_ne_true
      | some g =>
        rw [htop] at hmore
        rw [Bool.not_eq_true'] at hmore
        exact ⟨g, (hsome g htop).1, hmore, (hsome g htop).2⟩
    by_cases hF0 : F.length = 0
    · -- the only piece is the empty one
      have hlen := hempty (List.length_eq_zero_iff.1 hF0)
      have hone : as = [g] := by
        rcases as with _ | ⟨b, _ | ⟨c, as⟩⟩
        · exact absurd hg List.not_mem_nil
        · rw [List.mem_singleton.1 hg]
        · exact absurd hlen (by simp)
      have hpieces : pieces.length = 1 := by
        generalize ho : 0 = o at h
        cases h with
        | last hle hM => rfl
        | more hlt hrest => omega
      obtain ⟨b, rfl⟩ := List.length_eq_one_iff.1 hpieces
      rw [hone, List.mem_singleton.1 (hsub g hg)]
      exact ⟨fun a ha => ha, List.nodup_singleton _⟩
    · -- all pieces up to the last one are in the list
      have hprefix := h.isPrefix hF rfl hM (Nat.pos_of_ne_zero hF0) hitems hsorted hentire
      have hall : l.fragments = pieces.map item := by
        obtain ⟨rest, hrest⟩ := hprefix
        rcases List.eq_nil_or_concat' rest with rfl | ⟨rest, it, rfl⟩
        · rw [← hrest, List.append_nil]
        · exfalso
          have hit : it ∈ pieces.map item := by
            rw [← hrest]
            exact List.mem_append_right _ (List.mem_append_right _ List.mem_cons_self)
          obtain ⟨a, ha, rfl⟩ := List.mem_map.1 hit
          have hle := ((h.le_last hF hM (hsub g hg)).1 hgmore) a ha
          have hlt : g.fragmentOffset.toNat < a.fragmentOffset.toNat := by
            have hstrict : (pieces.map item).Pairwise fun x y => x.2.toNat < y.2.toNat :=
              List.pairwise_map.2 (h.increasing hF rfl hM)
            rw [← hrest, List.pairwise_append] at hstrict
            exact hstrict.2.2 (item g)
              (hmade.perm.mem_iff.2 (List.mem_map_of_mem hg)) (item a) (by simp)
          omega
      have hperm : (pieces.map item).Perm (as.map item) := hall ▸ hmade.perm
      refine ⟨fun a ha => ?_, ?_⟩
      · obtain ⟨b, hb, heq⟩ := List.mem_map.1 (hperm.mem_iff.1 (List.mem_map_of_mem ha))
        rwa [h.offset_inj hF hM a ha b (hsub b hb) (Prod.mk.inj heq).2.symm]
      · refine List.Nodup.of_map item (hperm.nodup_iff.1 ?_)
        refine List.Nodup.map_on (fun a ha b hb heq => ?_) (h.nodup hF hM)
        exact h.offset_inj hF hM a ha b hb (Prod.mk.inj heq).2
  · rintro ⟨hall, hnodup⟩
    rw [h.fragments_eq hF hM hmade hsub hall hnodup]
    refine ⟨⟨?_, ?_⟩, h.entire.1⟩
    · cases htop : topmost as with
      | none => rfl
      | some g =>
        obtain ⟨hg, hmax⟩ := hsome g htop
        have hlast := (h.le_last hF hM (hsub g hg)).2 fun a ha =>
          UInt16.le_iff_toNat_le.1 (hmax a (hall a ha))
        rw [Option.map_some, Option.getD_some, hlast]
        rfl
    · obtain ⟨a, rest, hcons⟩ := List.exists_cons_of_ne_nil h.ne_nil
      rw [hcons]
      rfl

/-! ## The receiver -/

/-- A packet that is cut into fragments with room for 8 bytes. -/
structure Cut where
  headers : List ExtensionHeader
  final : UInt8
  F : Packet
  ipv6Header : Ipv6Header
  maxFragmentSize : UInt32
  identification : UInt32
  chain : Chain final F ipv6Header.nextHeader headers
  short : F.length < 2 ^ 16
  room : sizeOf headers + 56 ≤ maxFragmentSize.toNat

/-- The key of a fragment, with its fragment header behind `offset` bytes. -/
def keyOf (offset : UInt8) (f : PayloadHeaderPair) : Option FragmentKey :=
  (FragmentHeader.deserialize (Packet.removeAtStart f.1 offset.toUInt32)).map fun r =>
    (f.2.source, r.1.identification)

namespace Cut

variable (c : Cut)

/-- The fragments of the packet. -/
def fragments : List PayloadHeaderPair :=
  (getFragments (bytesOf c.headers ++ c.F) c.ipv6Header c.maxFragmentSize c.identification).getD []

/-- The key of the packet. -/
def key : FragmentKey :=
  (c.ipv6Header.source, c.identification)

/-- All fragments of the packet are there. -/
def Complete (fs : List PayloadHeaderPair) : Prop :=
  ∀ g ∈ c.fragments, g ∈ fs

/-- The fragment of a piece. -/
def fragmentOf (a : Arrival) : PayloadHeaderPair :=
  wrap (partsOf c.headers c.final c.F) (fragmentHeaderOf c.headers c.ipv6Header) c.identification a

/-- There is at most one header in the unfragmentable part, and it has less than 256 bytes. -/
def Short : Prop :=
  c.headers.length ≤ 1 ∧ ∀ h ∈ c.headers, h.size < 2 ^ 8

end Cut

/-- The buffers of the receiver, and the fragments of the packet that have arrived since its
buffer was created. -/
structure Host where
  buffers : Buffers
  received : List PayloadHeaderPair := []

/-- What happens to the receiver : a fragment arrives, of the packet or of another one, or the
fragments with a key time out. -/
inductive Event
  | arrive (offset : UInt8) (f : PayloadHeaderPair)
  | timeout (key : FragmentKey)

/-- `Process` or `HandleFragmentsTimeout`. -/
def step (c : Cut) (s : Host) : Event → Host
  | .arrive offset f =>
    match process s.buffers f.1 offset f.2 with
    | none => s
    | some r =>
      { buffers := r.fragments
        received :=
          if keyOf offset f = some c.key then if r.stopProcessing then s.received ++ [f] else []
          else s.received }
  | .timeout key =>
    { buffers := handleFragmentsTimeout s.buffers key
      received := if key = c.key then [] else s.received }

/-- A fragment of the packet completes it if and only if all fragments have arrived then, and the
packet is what was cut. -/
def Completes (c : Cut) (s : Host) : Event → Prop
  | .arrive offset f => keyOf offset f = some c.key →
      ∃ r, process s.buffers f.1 offset f.2 = some r ∧
        (r.stopProcessing = false ↔ c.Complete (s.received ++ [f])) ∧
        (r.stopProcessing = false →
          r.packet = bytesOf (marked c.headers) ++ c.F ∧ r.nextHeader = c.final)
  | .timeout _ => True

/-- When all fragments of the packet have arrived, none of them has arrived twice. -/
def AllOnce (c : Cut) (s : Host) : Event → Prop
  | .arrive offset f => keyOf offset f = some c.key → c.Complete (s.received ++ [f]) →
      (s.received ++ [f]).Nodup
  | .timeout _ => True

/-- A fragment with the key of the packet is one of its fragments, and its fragment header is
looked for behind the unfragmentable part. -/
def FromSender (c : Cut) : Event → Prop
  | .arrive offset f => keyOf offset f = some c.key →
      offset.toNat = sizeOf c.headers ∧ f ∈ c.fragments
  | .timeout _ => True

variable {c : Cut} {s : Host} {m : Buffers} {f : PayloadHeaderPair} {offset : UInt8}

/-- The fragments are those of consecutive pieces. -/
theorem Cut.fragments_eq (c : Cut) : ∃ pieces,
    Consecutive c.F (c.maxFragmentSize.toNat - 48 - countedSize c.headers) 0 pieces ∧
      c.fragments = pieces.map c.fragmentOf := by
  obtain ⟨pieces, hpieces, heq⟩ := getFragments_eq c.identification c.chain c.short c.room
  exact ⟨pieces, hpieces, by rw [fragments, heq]; rfl⟩

theorem Cut.reverse_marked (hc : c.Short) : (marked c.headers).reverse = marked c.headers := by
  have hone := hc.1
  revert hone
  generalize c.headers = headers
  intro hone
  rcases headers with _ | ⟨h1, _ | ⟨h2, headers⟩⟩
  · rfl
  · rfl
  · exact absurd hone (by simp)

/-- A fragment is the unfragmentable part, the fragment header and the piece. -/
theorem Cut.fragmentOf_eq (hc : c.Short) (a : Arrival) : (c.fragmentOf a).1 =
    bytesOf (marked c.headers) ++
      ((headerOf c.final c.identification a).serialize ++ a.fragment) := by
  change bytesOf (marked c.headers).reverse ++ _ = _
  rw [reverse_marked hc]
  rfl

theorem Cut.length_marked (c : Cut) : (bytesOf (marked c.headers)).length = sizeOf c.headers := by
  rw [length_bytesOf (marked_wellFormed c.chain), sizeOf_marked]

/-- The receiver finds the fragment header and the piece. -/
theorem Cut.deserialize_fragmentOf (hc : c.Short) (ho : offset.toNat = sizeOf c.headers)
    (a : Arrival) :
    FragmentHeader.deserialize (Packet.removeAtStart (c.fragmentOf a).1 offset.toUInt32) =
      some (headerOf c.final c.identification a, a.fragment) := by
  rw [Packet.removeAtStart, UInt8.toNat_toUInt32, ho, ← c.length_marked, fragmentOf_eq hc,
    List.drop_left, FragmentHeader.deserialize_serialize]

theorem Cut.source_fragmentOf (a : Arrival) : (c.fragmentOf a).2.source = c.ipv6Header.source := by
  change (fragmentHeaderOf c.headers c.ipv6Header).source = _
  rw [fragmentHeaderOf]
  split_ifs <;> rfl

/-- Different pieces have different fragments. -/
theorem Cut.fragmentOf_inj (hc : c.Short) {a b : Arrival} (ha : a.fragmentOffset.toNat % 8 = 0)
    (hb : b.fragmentOffset.toNat % 8 = 0) (heq : c.fragmentOf a = c.fragmentOf b) : a = b := by
  have hbytes := (Prod.mk.inj heq).1
  have hpackets : (c.fragmentOf a).1 = (c.fragmentOf b).1 := hbytes
  rw [fragmentOf_eq hc, fragmentOf_eq hc, List.append_cancel_left_eq] at hpackets
  have hparsed := congrArg FragmentHeader.deserialize hpackets
  rw [FragmentHeader.deserialize_serialize, FragmentHeader.deserialize_serialize,
    Option.some.injEq, Prod.mk.injEq] at hparsed
  obtain ⟨hheader, hfragment⟩ := hparsed
  have hoffset := FragmentHeader.getOffset_encode (headerOf c.final c.identification a) ha _ rfl
  have hmore := FragmentHeader.getMoreFragment_encode (headerOf c.final c.identification a) ha _ rfl
  rw [hheader, FragmentHeader.getOffset_encode _ hb _ rfl] at hoffset
  rw [hheader, FragmentHeader.getMoreFragment_encode _ hb _ rfl] at hmore
  rcases a with ⟨fa, oa, ma⟩
  rcases b with ⟨fb, ob, mb⟩
  exact congr (congrArg₂ Arrival.mk hfragment hoffset.symm) hmore.symm

/-- The buffer of the packet after one more piece. -/
def stored (c : Cut) (l : Ipv6Fragments) (a : Arrival) : Ipv6Fragments :=
  (if a.fragmentOffset = 0 then l.setUnfragmentablePart (bytesOf (marked c.headers))
    else l).addFragment a.fragment a.fragmentOffset a.moreFragment

/-- What `Process` does with a fragment of the packet. -/
theorem Cut.process_eq (hc : c.Short) (ho : offset.toNat = sizeOf c.headers) {a : Arrival}
    (ha : a.fragmentOffset.toNat % 8 = 0) (hlen : a.fragment.length < 2 ^ 16) :
    process m (c.fragmentOf a).1 offset (c.fragmentOf a).2 =
      if (stored c ((m c.key).getD {}) a).isEntire then
        (stored c ((m c.key).getD {}) a).getPacket.map fun packet =>
          ⟨false, c.final, packet, Function.update m c.key none⟩
      else some ⟨true, c.final, (c.fragmentOf a).1,
        Function.update m c.key (some (stored c ((m c.key).getD {}) a))⟩ := by
  have hoffset := FragmentHeader.getOffset_encode (headerOf c.final c.identification a) ha _ rfl
  have hmore := FragmentHeader.getMoreFragment_encode (headerOf c.final c.identification a) ha _ rfl
  have hsize : (c.fragmentOf a).1.length = sizeOf c.headers + 8 + a.fragment.length :=
    length_packetOf c.identification c.chain a
  have hunfragmentable : Packet.removeAtEnd (c.fragmentOf a).1
      (getSize (c.fragmentOf a).1 - offset.toUInt32) = bytesOf (marked c.headers) := by
    have hoff := offset.toNat_lt
    have h32 : (getSize (c.fragmentOf a).1).toNat = (c.fragmentOf a).1.length :=
      UInt32.toNat_ofNat_of_lt' (show (c.fragmentOf a).1.length < 2 ^ 32 by omega)
    rw [Packet.removeAtEnd, UInt32.toNat_sub_of_le _ _ (UInt32.le_iff_toNat_le.2 (by
      rw [UInt8.toNat_toUInt32]
      omega)), UInt8.toNat_toUInt32, h32, Nat.sub_sub_self (by omega), ho, ← c.length_marked,
      fragmentOf_eq hc, List.take_left]
  rw [process, deserialize_fragmentOf hc ho]
  simp only [Option.bind_eq_bind, Option.bind_some, hoffset, hmore, source_fragmentOf,
    hunfragmentable]
  change (if (stored c ((m c.key).getD {}) a).isEntire = true then _ else _) = _
  by_cases hentire : (stored c ((m c.key).getD {}) a).isEntire = true
  · rw [if_pos hentire, if_pos hentire, Option.map_eq_bind]
    rfl
  · rw [if_neg hentire, if_neg hentire]
    rfl

theorem Cut.keyOf_fragmentOf (hc : c.Short) (ho : offset.toNat = sizeOf c.headers) (a : Arrival) :
    keyOf offset (c.fragmentOf a) = some c.key := by
  rw [keyOf, deserialize_fragmentOf hc ho, source_fragmentOf]
  rfl

/-! ## Runs of the receiver -/

/-- The buffer of the packet has been made of the pieces that have arrived. -/
structure Consistent (c : Cut) (pieces : List Arrival) (s : Host) (as : List Arrival) : Prop where
  made : Made ((s.buffers c.key).getD {}).toFragmentList as
  received : s.received = as.map c.fragmentOf
  sub : ∀ a ∈ as, a ∈ pieces
  unfragmentable : (∃ a ∈ as, a.fragmentOffset = 0) →
    ((s.buffers c.key).getD {}).unfragmentable = some (bytesOf (marked c.headers))
  empty : c.F = [] → as = []

theorem Made.stored {l : Ipv6Fragments} (h : Made l.toFragmentList as) (a : Arrival) :
    Made (Ipv6ExtensionFragment.stored c l a).toFragmentList (as ++ [a]) := by
  have hmade := h.addFragment a
  rw [Ipv6ExtensionFragment.stored]
  split_ifs
  · exact hmade
  · exact hmade

/-- The unfragmentable part is there with the first piece. -/
theorem stored_unfragmentable {l : Ipv6Fragments}
    (h : (∃ b ∈ as, b.fragmentOffset = 0) →
      l.unfragmentable = some (bytesOf (marked c.headers)))
    (hfirst : ∃ b ∈ as ++ [a], b.fragmentOffset = 0) :
    (stored c l a).unfragmentable = some (bytesOf (marked c.headers)) := by
  rw [stored]
  by_cases ha : a.fragmentOffset = 0
  · rw [if_pos ha]
    rfl
  · rw [if_neg ha]
    obtain ⟨b, hb, hb0⟩ := hfirst
    rcases List.mem_append.1 hb with hb | hb
    · exact h ⟨b, hb, hb0⟩
    · rw [List.mem_singleton.1 hb] at hb0
      exact absurd hb0 ha

/-- The first piece. -/
theorem Consecutive.exists_first (h : Consecutive F M 0 pieces) :
    ∃ a ∈ pieces, a.fragmentOffset = 0 := by
  generalize ho : 0 = o at h
  cases h with
  | last hle hM => exact ⟨_, List.mem_cons_self, congrArg UInt16.ofNat ho.symm⟩
  | more hlt hrest => exact ⟨_, List.mem_cons_self, congrArg UInt16.ofNat ho.symm⟩

/-- What a fragment of the packet leads to. -/
theorem Consistent.process_eq (hs : Consistent c pieces s as) (hc : c.Short)
    (hpieces : Consecutive c.F M 0 pieces) (hM : 8 ≤ M) (hfragments : c.fragments =
      pieces.map c.fragmentOf) (ho : offset.toNat = sizeOf c.headers) (ha : a ∈ pieces) :
    (c.Complete (s.received ++ [c.fragmentOf a]) ↔ ∀ b ∈ pieces, b ∈ as ++ [a]) ∧
      ((s.received ++ [c.fragmentOf a]).Nodup ↔ (as ++ [a]).Nodup) ∧
      ((∀ b ∈ pieces, b ∈ as ++ [a]) ∧ (as ++ [a]).Nodup ∧
          process s.buffers (c.fragmentOf a).1 offset (c.fragmentOf a).2 =
            some ⟨false, c.final, bytesOf (marked c.headers) ++ c.F,
              Function.update s.buffers c.key none⟩ ∨
        ¬ ((∀ b ∈ pieces, b ∈ as ++ [a]) ∧ (as ++ [a]).Nodup) ∧
          process s.buffers (c.fragmentOf a).1 offset (c.fragmentOf a).2 =
            some ⟨true, c.final, (c.fragmentOf a).1, Function.update s.buffers c.key
              (some (stored c ((s.buffers c.key).getD {}) a))⟩) := by
  have hsub : ∀ b ∈ as ++ [a], b ∈ pieces := by
    intro b hb
    rcases List.mem_append.1 hb with hb | hb
    · exact hs.sub b hb
    · rwa [List.mem_singleton.1 hb]
  have hmod : ∀ b ∈ pieces, b.fragmentOffset.toNat % 8 = 0 := fun b hb =>
    (hpieces.offset_spec c.short rfl b hb).2
  have hinj : ∀ b ∈ pieces, ∀ d ∈ pieces, c.fragmentOf b = c.fragmentOf d → b = d :=
    fun b hb d hd heq => Cut.fragmentOf_inj hc (hmod b hb) (hmod d hd) heq
  have hreceived : s.received ++ [c.fragmentOf a] = (as ++ [a]).map c.fragmentOf := by
    rw [hs.received, List.map_append, List.map_singleton]
  have hmade : Made (stored c ((s.buffers c.key).getD {}) a).toFragmentList (as ++ [a]) :=
    Made.stored hs.made a
  have hiff := isEntire_iff hpieces c.short hM hmade hsub fun hF => by
    rw [hs.empty hF]
    exact le_rfl
  have hlen := (hpieces.length_le a ha).2
  have hprocess := Cut.process_eq (m := s.buffers) hc ho (hmod a ha)
    (show a.fragment.length < 2 ^ 16 from lt_of_le_of_lt hlen c.short)
  refine ⟨?_, ?_, ?_⟩
  · rw [Cut.Complete, hfragments, hreceived]
    refine ⟨fun hall b hb => ?_, fun hall g hg => ?_⟩
    · obtain ⟨d, hd, heq⟩ := List.mem_map.1 (hall _ (List.mem_map_of_mem hb))
      rwa [hinj b hb d (hsub d hd) heq.symm]
    · obtain ⟨b, hb, rfl⟩ := List.mem_map.1 hg
      exact List.mem_map_of_mem (hall b hb)
  · rw [hreceived]
    refine ⟨List.Nodup.of_map _, fun hnodup => ?_⟩
    exact List.Nodup.map_on (fun b hb d hd heq => hinj b (hsub b hb) d (hsub d hd) heq) hnodup
  · by_cases hentire : (stored c ((s.buffers c.key).getD {}) a).isEntire = true
    · obtain ⟨hall, hnodup⟩ := hiff.1 hentire
      refine Or.inl ⟨hall, hnodup, ?_⟩
      obtain ⟨b, hb, hb0⟩ := hpieces.exists_first
      have hjoin : (stored c ((s.buffers c.key).getD {}) a).fragments.flatMap Prod.fst = c.F := by
        rw [hpieces.fragments_eq c.short hM hmade hsub hall hnodup]
        exact hpieces.entire.2
      rw [hprocess, if_pos hentire, Ipv6Fragments.getPacket,
        stored_unfragmentable hs.unfragmentable ⟨b, hall b hb, hb0⟩, hjoin]
      rfl
    · refine Or.inr ⟨fun hboth => hentire (hiff.2 hboth), ?_⟩
      rw [hprocess, if_neg hentire]

/-- `Process` touches the buffer of its packet only. -/
theorem process_frame {key : FragmentKey} {r : Processed}
    (hr : process m f.1 offset f.2 = some r) (hkey : keyOf offset f ≠ some key) :
    r.fragments key = m key := by
  rw [process] at hr
  rw [keyOf] at hkey
  cases hparse : FragmentHeader.deserialize (Packet.removeAtStart f.1 offset.toUInt32) with
  | none =>
    rw [hparse] at hr
    exact absurd hr.symm (Option.some_ne_none r)
  | some header =>
    obtain ⟨header, p⟩ := header
    rw [hparse] at hr hkey
    have hne : key ≠ (f.2.source, header.identification) := fun heq => hkey (congrArg some heq.symm)
    simp only [Option.bind_eq_bind, Option.bind_some] at hr
    generalize Ipv6Fragments.addFragment _ _ _ _ = l at hr
    by_cases hentire : l.isEntire = true
    · rw [if_pos hentire] at hr
      obtain ⟨packet, -, hpacket⟩ := Option.bind_eq_some_iff.1 hr
      obtain rfl := Option.some.inj hpacket
      exact Function.update_of_ne hne _ _
    · rw [if_neg hentire] at hr
      obtain rfl := Option.some.inj hr
      exact Function.update_of_ne hne _ _

/-- A fragment of another packet leaves the buffer of this one. -/
theorem step_arrive_of_ne (hkey : keyOf offset f ≠ some c.key) :
    (step c s (.arrive offset f)).buffers c.key = s.buffers c.key ∧
      (step c s (.arrive offset f)).received = s.received := by
  rw [step]
  cases hr : process s.buffers f.1 offset f.2 with
  | none => exact ⟨rfl, rfl⟩
  | some r => exact ⟨process_frame hr hkey, if_neg hkey⟩

theorem consistent_empty (hbuffer : s.buffers c.key = none) (hreceived : s.received = []) :
    Consistent c pieces s [] := by
  refine ⟨?_, hreceived, fun a ha => absurd ha List.not_mem_nil, ?_, fun _ => rfl⟩
  · rw [hbuffer]
    exact FragmentList.made_nil
  · rintro ⟨a, ha, -⟩
    exact absurd ha List.not_mem_nil

/-- Each event keeps the buffer consistent. -/
theorem Consistent.step (hs : Consistent c pieces s as) (hc : c.Short)
    (hpieces : Consecutive c.F M 0 pieces) (hM : 8 ≤ M)
    (hfragments : c.fragments = pieces.map c.fragmentOf) {e : Event} (he : FromSender c e) :
    ∃ bs, Consistent c pieces (step c s e) bs := by
  cases e with
  | timeout key =>
    by_cases hkey : key = c.key
    · refine ⟨[], consistent_empty ?_ ?_⟩
      · simp only [Ipv6ExtensionFragment.step, handleFragmentsTimeout, hkey, Function.update_self]
      · simp only [Ipv6ExtensionFragment.step, hkey, if_true]
    · have hbuffer : (Ipv6ExtensionFragment.step c s (.timeout key)).buffers c.key =
          s.buffers c.key := Function.update_of_ne (Ne.symm hkey) _ _
      have hreceived : (Ipv6ExtensionFragment.step c s (.timeout key)).received = s.received :=
        if_neg hkey
      exact ⟨as, hbuffer ▸ hs.made, hreceived.trans hs.received, hs.sub,
        hbuffer ▸ hs.unfragmentable, hs.empty⟩
  | arrive offset f =>
    by_cases hkey : keyOf offset f = some c.key
    · obtain ⟨ho, hf⟩ := he hkey
      rw [hfragments] at hf
      obtain ⟨a, ha, rfl⟩ := List.mem_map.1 hf
      obtain ⟨-, -, ⟨-, -, hprocess⟩ | ⟨hnot, hprocess⟩⟩ :=
        hs.process_eq hc hpieces hM hfragments ho ha
      · refine ⟨[], consistent_empty ?_ ?_⟩
        · simp only [Ipv6ExtensionFragment.step, hprocess, Function.update_self]
        · simp only [Ipv6ExtensionFragment.step, hprocess, hkey, if_true, Bool.false_eq_true,
            if_false]
      · refine ⟨as ++ [a], ?_, ?_, fun b hb => ?_, fun hfirst => ?_, fun hF => ?_⟩
        · simp only [Ipv6ExtensionFragment.step, hprocess, Function.update_self]
          exact Made.stored hs.made a
        · simp only [Ipv6ExtensionFragment.step, hprocess, hkey, if_true]
          rw [hs.received, List.map_append, List.map_singleton]
        · rcases List.mem_append.1 hb with hb | hb
          · exact hs.sub b hb
          · rwa [List.mem_singleton.1 hb]
        · simp only [Ipv6ExtensionFragment.step, hprocess, Function.update_self]
          exact stored_unfragmentable hs.unfragmentable hfirst
        · -- the only fragment completes the packet
          exfalso
          have has := hs.empty hF
          subst has
          generalize hzero : 0 = o at hpieces
          have hlen : c.F.length = 0 := List.length_eq_zero_iff.2 hF
          cases hpieces with
          | last hle hM =>
            refine hnot ⟨fun b hb => ?_, List.nodup_singleton _⟩
            rw [List.mem_singleton.1 hb, List.mem_singleton.1 ha]
            exact List.mem_cons_self
          | more hlt hrest => omega
    · obtain ⟨hbuffer, hreceived⟩ := step_arrive_of_ne (s := s) hkey
      exact ⟨as, hbuffer ▸ hs.made, hreceived.trans hs.received, hs.sub,
        hbuffer ▸ hs.unfragmentable, hs.empty⟩

/-- An event is right if and only if it does not find all fragments with one of them twice. -/
theorem Consistent.completes_event_iff (hs : Consistent c pieces s as) (hc : c.Short)
    (hpieces : Consecutive c.F M 0 pieces) (hM : 8 ≤ M)
    (hfragments : c.fragments = pieces.map c.fragmentOf) {e : Event} (he : FromSender c e) :
    Completes c s e ↔ AllOnce c s e := by
  cases e with
  | timeout key => exact Iff.rfl
  | arrive offset f =>
    refine forall_congr' fun hkey => ?_
    obtain ⟨ho, hf⟩ := he hkey
    rw [hfragments] at hf
    obtain ⟨a, ha, rfl⟩ := List.mem_map.1 hf
    obtain ⟨hcomplete, hnodup, ⟨hall, hone, hprocess⟩ | ⟨hnot, hprocess⟩⟩ :=
      hs.process_eq hc hpieces hM hfragments ho ha
    · rw [hcomplete, hnodup]
      exact ⟨fun _ _ => hone, fun _ => ⟨_, hprocess, iff_of_true rfl hall, fun _ => ⟨rfl, rfl⟩⟩⟩
    · rw [hcomplete, hnodup]
      constructor
      · rintro ⟨r, hr, hiff, -⟩ hall
        rw [hprocess, Option.some.injEq] at hr
        subst hr
        exact absurd (hiff.2 hall) Bool.true_eq_false.mp
      · intro hone
        refine ⟨_, hprocess, iff_of_false Bool.true_eq_false.mp ?_, fun hstop => ?_⟩
        · exact fun hall => hnot ⟨hall, hone hall⟩
        · exact absurd hstop Bool.true_eq_false.mp

end Ipv6ExtensionFragment

end Ns3Pedca
