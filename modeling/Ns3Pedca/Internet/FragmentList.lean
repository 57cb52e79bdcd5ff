import Ns3Pedca.Blocks
import Ns3Pedca.Network.Packet

/-!
# Lists of fragments

The receivers of IPv4 and of IPv6 keep the fragments of a packet in a list, in the order of
their offsets, with one flag for the fragments that are to come. The flag is that of the
fragment with the greatest offset which came last (`Made.addFragment`).
-/

namespace Ns3Pedca

/-- What the classes `Fragments` of IPv4 and IPv6 have in common. -/
structure FragmentList where
  moreFragment : Bool := false
  fragments : List (Packet × UInt16) := []
  deriving DecidableEq

namespace FragmentList

/-- The list after `insert` in front of the first fragment with a greater offset. -/
def insertAt (fragment : Packet) (fragmentOffset : UInt16) :
    List (Packet × UInt16) → List (Packet × UInt16)
  | [] => [(fragment, fragmentOffset)]
  | it :: fragments =>
    if fragmentOffset < it.2 then (fragment, fragmentOffset) :: it :: fragments
    else it :: insertAt fragment fragmentOffset fragments

/-- `AddFragment`. -/
def addFragment (l : FragmentList) (fragment : Packet) (fragmentOffset : UInt16)
    (moreFragment : Bool) : FragmentList where
  moreFragment :=
    if l.fragments.all fun it => decide (it.2 ≤ fragmentOffset) then moreFragment
    else l.moreFragment
  fragments := insertAt fragment fragmentOffset l.fragments

/-- A fragment as the receiver gets it. -/
structure Arrival where
  fragment : Packet
  fragmentOffset : UInt16
  moreFragment : Bool
  deriving DecidableEq

/-- The block of the packet that a fragment is. -/
def blockOf (it : Packet × UInt16) : Blocks.Block UInt8 :=
  ⟨it.2.toNat, it.1⟩

namespace Arrival

/-- The block of the packet that has arrived. -/
def block (f : Arrival) : Blocks.Block UInt8 :=
  ⟨f.fragmentOffset.toNat, f.fragment⟩

end Arrival

/-- The later of two fragments, unless the earlier one has a greater offset. -/
def upper (best : Option Arrival) (f : Arrival) : Option Arrival :=
  match best with
  | none => some f
  | some g => if g.fragmentOffset ≤ f.fragmentOffset then some f else some g

/-- Of the fragments with the greatest offset the one that came last. -/
def topmost (fs : List Arrival) : Option Arrival :=
  fs.foldl upper none

open Blocks

variable {l : FragmentList} {f : Arrival} {fs : List Arrival} {it : Packet × UInt16}
  {its : List (Packet × UInt16)}

theorem mem_insertAt {fragment : Packet} {offset : UInt16} :
    it ∈ insertAt fragment offset its ↔ it = (fragment, offset) ∨ it ∈ its := by
  induction its with
  | nil => simp [insertAt]
  | cons a its ih =>
    rw [insertAt]
    split_ifs
    · simp
    · rw [List.mem_cons, ih, List.mem_cons]
      tauto

theorem ordered_insertAt {fragment : Packet} {offset : UInt16} (h : Ordered (its.map blockOf)) :
    Ordered ((insertAt fragment offset its).map blockOf) := by
  induction its with
  | nil => exact List.pairwise_singleton _ _
  | cons a its ih =>
    obtain ⟨ha, hits⟩ := List.pairwise_cons.1 h
    rw [insertAt]
    by_cases hlt : offset < a.2
    · rw [if_pos hlt]
      have hnat : offset.toNat < a.2.toNat := UInt16.lt_iff_toNat_lt.1 hlt
      refine List.pairwise_cons.2 ⟨fun b hb => ?_, h⟩
      change offset.toNat ≤ b.first
      rcases List.mem_cons.1 hb with rfl | hb
      · exact hnat.le
      · exact hnat.le.trans (ha b hb)
    · rw [if_neg hlt]
      have hnat : a.2.toNat ≤ offset.toNat := UInt16.le_iff_toNat_le.1 (UInt16.not_lt.1 hlt)
      refine List.pairwise_cons.2 ⟨fun b hb => ?_, ih hits⟩
      obtain ⟨c, hc, rfl⟩ := List.mem_map.1 hb
      rcases mem_insertAt.1 hc with rfl | hc
      · exact hnat
      · exact ha _ (List.mem_map_of_mem hc)

/-! ## What a list holds -/

theorem topmost_snoc (fs : List Arrival) (f : Arrival) :
    topmost (fs ++ [f]) = upper (topmost fs) f :=
  List.foldl_append

theorem topmost_spec (fs : List Arrival) : (topmost fs = none → fs = []) ∧
    ∀ g, topmost fs = some g → g ∈ fs ∧ ∀ f ∈ fs, f.fragmentOffset ≤ g.fragmentOffset := by
  induction fs using List.reverseRecOn with
  | nil => exact ⟨fun _ => rfl, fun g hg => absurd hg.symm (Option.some_ne_none g)⟩
  | append_singleton fs f ih =>
    rw [topmost_snoc]
    cases htop : topmost fs with
    | none =>
      obtain rfl := ih.1 htop
      refine ⟨fun h => absurd h (Option.some_ne_none _), fun g hg => ?_⟩
      cases hg
      simp
    | some g =>
      obtain ⟨hg, hmax⟩ := ih.2 g htop
      rw [upper]
      split_ifs with hle
      · refine ⟨False.elim, fun a ha => ?_⟩
        cases ha
        refine ⟨by simp, fun x hx => ?_⟩
        rcases List.mem_append.1 hx with hx | hx
        · exact UInt16.le_trans (hmax x hx) hle
        · rw [List.mem_singleton.1 hx]
          exact UInt16.le_refl _
      · refine ⟨False.elim, fun a ha => ?_⟩
        cases ha
        refine ⟨List.mem_append_left _ hg, fun x hx => ?_⟩
        rcases List.mem_append.1 hx with hx | hx
        · exact hmax x hx
        · rw [List.mem_singleton.1 hx]
          exact UInt16.le_of_lt (UInt16.not_le.1 hle)

/-- The list has been made of the fragments `fs`. -/
structure Made (l : FragmentList) (fs : List Arrival) : Prop where
  perm : l.fragments.Perm (fs.map fun f => (f.fragment, f.fragmentOffset))
  ordered : Ordered (l.fragments.map blockOf)
  more : l.moreFragment = ((topmost fs).map Arrival.moreFragment).getD false

theorem made_nil : Made {} [] :=
  ⟨List.Perm.nil, List.Pairwise.nil, rfl⟩

theorem perm_insertAt (fragment : Packet) (offset : UInt16) (its : List (Packet × UInt16)) :
    (insertAt fragment offset its).Perm ((fragment, offset) :: its) := by
  induction its with
  | nil => exact List.Perm.refl _
  | cons a its ih =>
    rw [insertAt]
    split_ifs
    · exact List.Perm.refl _
    · exact (ih.cons a).trans (List.Perm.swap _ _ _)

/-- The list after one more fragment. -/
theorem Made.addFragment (h : Made l fs) (f : Arrival) :
    Made (l.addFragment f.fragment f.fragmentOffset f.moreFragment) (fs ++ [f]) where
  perm := by
    rw [List.map_append]
    exact (perm_insertAt _ _ _).trans ((h.perm.cons _).trans (List.perm_append_singleton _ _).symm)
  ordered := ordered_insertAt h.ordered
  more := by
    have hall : (l.fragments.all fun it => decide (it.2 ≤ f.fragmentOffset)) = true ↔
        ∀ g ∈ fs, g.fragmentOffset ≤ f.fragmentOffset := by
      rw [h.perm.all_eq, List.all_eq_true]
      simp
    obtain ⟨hnone, hsome⟩ := topmost_spec fs
    rw [topmost_snoc, FragmentList.addFragment]
    cases htop : topmost fs with
    | none =>
      obtain rfl := hnone htop
      rw [if_pos (hall.2 fun g hg => absurd hg List.not_mem_nil)]
      rfl
    | some g =>
      obtain ⟨hg, hmax⟩ := hsome g htop
      rw [upper]
      by_cases hle : g.fragmentOffset ≤ f.fragmentOffset
      · rw [if_pos hle, if_pos (hall.2 fun x hx => UInt16.le_trans (hmax x hx) hle)]
        rfl
      · rw [if_neg hle, if_neg fun hn => hle (hall.1 hn g hg), h.more, htop]

/-- The blocks of the list are those of the fragments. -/
theorem Made.mem_blocks (h : Made l fs) (b : Block UInt8) :
    b ∈ l.fragments.map blockOf ↔ b ∈ fs.map Arrival.block := by
  have hmap : (fs.map fun f => (f.fragment, f.fragmentOffset)).map blockOf =
      fs.map Arrival.block := by
    rw [List.map_map]
    rfl
  rw [← hmap]
  exact (h.perm.map blockOf).mem_iff

/-- What the list holds is what the fragments hold. -/
theorem Made.covered_eq (h : Made l fs) :
    covered (l.fragments.map blockOf) = covered (fs.map Arrival.block) := by
  ext p
  rw [mem_covered, mem_covered]
  simp only [h.mem_blocks]

end FragmentList

end Ns3Pedca
