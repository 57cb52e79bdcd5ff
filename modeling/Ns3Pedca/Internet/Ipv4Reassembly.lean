import Ns3Pedca.Core
import Ns3Pedca.Runs
import Ns3Pedca.Internet.Ipv4Fragmentation

/-!
# Reassembly of IPv4

The fragments of a datagram, cut on any chain of links (`Sent`), are pieces of its payload
(`Piece`), and the receiver's list holds pieces. A list that is entire gives the payload
(`getPacket_eq`). It is entire if and only if the pieces hold the end of the payload and all
its bytes (`Covers`), and of the pieces with the greatest offset the one that came last is the
end (`isEntire_iff`).

The second condition is not always there, since another copy of the datagram may have been cut
into smaller pieces, so that the end is not the only piece with the greatest offset. Then the
receiver does not complete (`not_completes`), and in all other runs it does
(`completes_iff`).
-/

set_option linter.unusedSectionVars false

namespace Ns3Pedca

open Blocks Runs
open Packet (getSize createFragment)

namespace FragmentList

variable {S p : Packet} {its : List (Packet × UInt16)} {e : ℕ}

/-- The fragments are pieces of `S`. -/
def Within (S : Packet) (its : List (Packet × UInt16)) : Prop :=
  ∀ it ∈ its, (blockOf it).In S

theorem toNat_end {it : Packet × UInt16} (hS : S.length < 2 ^ 16) (hit : (blockOf it).In S) :
    (getSize it.1 + it.2.toUInt32).toUInt16.toNat = (blockOf it).last := by
  have hlast := hit.last_le
  rw [Block.last] at hlast ⊢
  change it.2.toNat + it.1.length ≤ _ at hlast
  change _ = it.2.toNat + it.1.length
  have hsize : (getSize it.1).toNat = it.1.length :=
    UInt32.toNat_ofNat_of_lt' (show it.1.length < 2 ^ 32 by omega)
  rw [UInt32.toNat_toUInt16, UInt32.toNat_add, hsize, UInt16.toNat_toUInt32]
  omega

/-- The loop of `IsEntire` looks for a gap. -/
theorem entireFrom_eq (hS : S.length < 2 ^ 16) (hits : Within S its) {lastEndOffset : UInt16} :
    entireFrom lastEndOffset its = gapless lastEndOffset.toNat (its.map blockOf) := by
  induction its generalizing lastEndOffset with
  | nil => rfl
  | cons it its ih =>
    obtain ⟨hit, hits⟩ := List.forall_mem_cons.1 hits
    rw [entireFrom, ih hits, uint16_toNat_max, toNat_end hS hit, List.map_cons, gapless]
    by_cases hlt : lastEndOffset < it.2
    · have hnat : ¬ it.2.toNat ≤ lastEndOffset.toNat := by
        have hlt' := UInt16.lt_iff_toNat_lt.1 hlt
        omega
      rw [if_pos hlt]
      change false = (decide (it.2.toNat ≤ _) && _)
      rw [decide_eq_false hnat, Bool.false_and]
    · have hnat : it.2.toNat ≤ lastEndOffset.toNat :=
        UInt16.le_iff_toNat_le.1 (UInt16.not_lt.1 hlt)
      rw [if_neg hlt]
      change _ = (decide (it.2.toNat ≤ _) && _)
      rw [decide_eq_true hnat, Bool.true_and]

/-- A step of the loop of `GetPacket`. -/
theorem packetFrom_cons {it : Packet × UInt16} (hp : p.length < 2 ^ 16)
    (hit : it.1.length < 2 ^ 16) :
    packetFrom p (getSize p).toUInt16 (it :: its) =
      packetFrom (p ++ it.1.drop (p.length - it.2.toNat))
        (getSize (p ++ it.1.drop (p.length - it.2.toNat))).toUInt16 its := by
  have hsize : (getSize it.1).toNat = it.1.length :=
    UInt32.toNat_ofNat_of_lt' (show it.1.length < 2 ^ 32 by omega)
  have hlast : (getSize p).toUInt16.toNat = p.length := by
    rw [UInt32.toNat_toUInt16, getSize, UInt32.toNat_ofNat_of_lt' (show p.length < 2 ^ 32 by omega)]
    omega
  have hjoin : (if it.2 < (getSize p).toUInt16 then
        let newStart := (getSize p).toUInt16.toUInt32 - it.2.toUInt32
        if newStart < getSize it.1 then
          p ++ createFragment it.1 newStart (getSize it.1 - newStart)
        else p
      else p ++ it.1) = p ++ it.1.drop (p.length - it.2.toNat) := by
    by_cases hlt : it.2 < (getSize p).toUInt16
    · have hnat : it.2.toNat < p.length := hlast ▸ UInt16.lt_iff_toNat_lt.1 hlt
      have hstart : ((getSize p).toUInt16.toUInt32 - it.2.toUInt32).toNat =
          p.length - it.2.toNat := by
        rw [UInt32.toNat_sub_of_le _ _ (UInt32.le_iff_toNat_le.2 (by
          rw [UInt16.toNat_toUInt32, UInt16.toNat_toUInt32]
          omega)), UInt16.toNat_toUInt32, UInt16.toNat_toUInt32, hlast]
      generalize hn : (getSize p).toUInt16.toUInt32 - it.2.toUInt32 = newStart at hstart
      rw [if_pos hlt]
      by_cases hin : newStart < getSize it.1
      · have hin' := UInt32.lt_iff_toNat_lt.1 hin
        have hlen : (getSize it.1 - newStart).toNat = it.1.length - newStart.toNat := by
          rw [UInt32.toNat_sub_of_le _ _ (UInt32.le_of_lt hin), hsize]
        simp only [hin, if_true]
        rw [Packet.createFragment_eq (by omega) (by omega), hlen, hstart,
          List.take_of_length_le (by rw [List.length_drop])]
      · have hout : ¬ newStart.toNat < it.1.length := by
          rw [← hsize]
          exact fun hn => hin (UInt32.lt_iff_toNat_lt.2 hn)
        simp only [hin, if_false]
        rw [List.drop_eq_nil_of_le (by omega), List.append_nil]
    · have hnat : p.length ≤ it.2.toNat := by
        rw [← hlast]
        exact UInt16.le_iff_toNat_le.1 (UInt16.not_lt.1 hlt)
      rw [if_neg hlt, Nat.sub_eq_zero_of_le hnat, List.drop_zero]
  rw [packetFrom]
  simp only [hjoin]

/-- The loop of `GetPacket` joins the fragments. -/
theorem packetFrom_eq (hS : S.length < 2 ^ 16) (hits : Within S its) (he : e ≤ S.length)
    (hgap : gapless e (its.map blockOf) = true) :
    packetFrom (S.take e) (getSize (S.take e)).toUInt16 its =
      S.take (reach e (its.map blockOf)) := by
  induction its generalizing e with
  | nil => rfl
  | cons it its ih =>
    obtain ⟨hit, hits⟩ := List.forall_mem_cons.1 hits
    rw [List.map_cons, gapless, Bool.and_eq_true, decide_eq_true_eq] at hgap
    have hlast := hit.last_le
    have hlen : (S.take e).length = e := List.length_take_of_le he
    have hstep := join_eq (l := [blockOf it]) (S := S) (by simpa using hit) he
      (by rw [gapless, decide_eq_true hgap.1]; rfl)
    rw [join, join, reach, reach, hlen] at hstep
    have hpacket : S.take e ++ it.1.drop (e - it.2.toNat) = S.take (max e (blockOf it).last) :=
      hstep
    rw [packetFrom_cons (by omega) (by
      rw [Block.last] at hlast
      change it.2.toNat + it.1.length ≤ _ at hlast
      omega), hlen, hpacket, ih hits (by omega) hgap.2]
    rfl

/-- An entire list of pieces gives what it reaches of the payload. -/
theorem getPacket_eq_take {l : FragmentList} (hS : S.length < 2 ^ 16) (hl : Within S l.fragments)
    (hentire : l.isEntire = true) :
    l.getPacket = some (S.take (reach 0 (l.fragments.map blockOf))) := by
  rw [isEntire, Bool.and_eq_true, entireFrom_eq hS hl] at hentire
  obtain ⟨hflags, hgap⟩ := hentire
  rw [getPacket]
  cases hits : l.fragments with
  | nil =>
    rw [hits] at hflags
    simp at hflags
  | cons it its =>
    rw [hits] at hgap hl
    rw [List.map_cons, gapless, Bool.and_eq_true, decide_eq_true_eq] at hgap
    obtain ⟨hit, -⟩ := List.forall_mem_cons.1 hl
    have hfirst : it.2.toNat = 0 := Nat.le_zero.1 hgap.1
    have hall := packetFrom_eq (e := 0) hS hl (Nat.zero_le _) (by
      rw [List.map_cons, gapless, Bool.and_eq_true, decide_eq_true_eq]
      exact hgap)
    have hlast := hit.last_le
    rw [Block.last] at hlast
    change it.2.toNat + it.1.length ≤ _ at hlast
    rw [List.take_zero, packetFrom_cons (by simp) (by omega)] at hall
    simp only [List.length_nil, Nat.zero_sub, List.drop_zero, List.nil_append] at hall
    exact congrArg some hall

/-! ## Entire lists -/

/-- The pieces hold the end of the payload and all its bytes. -/
def Covers (S : Packet) (fs : List Arrival) : Prop :=
  (∃ f ∈ fs, f.moreFragment = false) ∧ ∀ p < S.length, p ∈ covered (fs.map Arrival.block)

/-- Of the pieces with the greatest offset the one that came last is the end. -/
def EndOnTop (fs : List Arrival) : Prop :=
  ∀ g, topmost fs = some g → g.moreFragment = false

/-- A piece of the payload `S`, with the flag of a piece that is not the end. -/
structure Piece (S : Packet) (f : Arrival) : Prop where
  block : f.block.In S
  more : f.moreFragment = true ↔ f.block.last < S.length

variable {l : FragmentList} {fs : List Arrival}

theorem Made.within (h : Made l fs) (hfs : ∀ f ∈ fs, Piece S f) : Within S l.fragments := by
  intro it hit
  obtain ⟨f, hf, rfl⟩ := List.mem_map.1 (h.perm.mem_iff.1 hit)
  exact (hfs f hf).block

/-- Pieces with the end among them reach the end. -/
theorem Made.reach_eq (h : Made l fs) (hfs : ∀ f ∈ fs, Piece S f) {f : Arrival} (hf : f ∈ fs)
    (hmore : f.moreFragment = false) : reach 0 (l.fragments.map blockOf) = S.length := by
  have hblast : ∀ b ∈ l.fragments.map blockOf, b.last ≤ S.length := by
    intro b hb
    obtain ⟨it, hit, rfl⟩ := List.mem_map.1 hb
    exact (h.within hfs it hit).last_le
  have hlast : f.block.last = S.length := by
    have hle := (hfs f hf).block.last_le
    have hlt := (hfs f hf).more
    rw [hmore] at hlt
    have hnot : ¬ f.block.last < S.length := fun hn => Bool.false_ne_true (hlt.2 hn)
    omega
  have hmem : f.block ∈ l.fragments.map blockOf :=
    List.mem_map.2 ⟨(f.fragment, f.fragmentOffset),
      h.perm.mem_iff.2 (List.mem_map.2 ⟨f, hf, rfl⟩), rfl⟩
  exact le_antisymm (reach_le (Nat.zero_le _) hblast) (hlast ▸ last_le_reach hmem)

/-- A list is entire if and only if it holds the whole payload, with the end on top. -/
theorem isEntire_iff (hS : S.length < 2 ^ 16) (h : Made l fs) (hfs : ∀ f ∈ fs, Piece S f) :
    l.isEntire = true ↔ Covers S fs ∧ EndOnTop fs := by
  have hwithin := h.within hfs
  have hgap : entireFrom 0 l.fragments = true ↔
      ∀ p < reach 0 (l.fragments.map blockOf), p ∈ covered (fs.map Arrival.block) := by
    rw [entireFrom_eq hS hwithin, gapless_iff h.ordered, h.covered_eq]
    exact ⟨fun hin p hp => hin p (Nat.zero_le p) hp, fun hin p _ hp => hin p hp⟩
  have hempty : l.fragments = [] ↔ fs = [] := by
    rw [← List.length_eq_zero_iff, h.perm.length_eq, List.length_map, List.length_eq_zero_iff]
  obtain ⟨htopnone, htopsome⟩ := topmost_spec fs
  rw [isEntire, Bool.and_eq_true, Bool.and_eq_true, hgap, h.more]
  cases htop : topmost fs with
  | none =>
    have hnil := htopnone htop
    rw [hempty.2 hnil, hnil]
    simp [Covers]
  | some g =>
    obtain ⟨hg, -⟩ := htopsome g htop
    have hne : l.fragments.isEmpty = false := by
      rw [← Bool.not_eq_true, List.isEmpty_iff, hempty]
      exact List.ne_nil_of_mem hg
    have honTop : EndOnTop fs ↔ g.moreFragment = false := by
      refine ⟨fun hall => hall g htop, fun hmore f hf => ?_⟩
      rw [htop] at hf
      rwa [← Option.some.inj hf]
    rw [honTop, hne]
    change ((!g.moreFragment) = true ∧ (!false) = true) ∧ _ ↔ _
    rw [Bool.not_eq_true']
    constructor
    · rintro ⟨⟨hmore, -⟩, hin⟩
      rw [h.reach_eq hfs hg hmore] at hin
      exact ⟨⟨⟨g, hg, hmore⟩, hin⟩, hmore⟩
    · rintro ⟨⟨-, hin⟩, hmore⟩
      rw [h.reach_eq hfs hg hmore]
      exact ⟨⟨hmore, rfl⟩, hin⟩

/-- What an entire list gives is the payload. -/
theorem getPacket_eq (hS : S.length < 2 ^ 16) (h : Made l fs) (hfs : ∀ f ∈ fs, Piece S f)
    (hentire : l.isEntire = true) : l.getPacket = some S := by
  obtain ⟨⟨⟨f, hf, hmore⟩, -⟩, -⟩ := (isEntire_iff hS h hfs).1 hentire
  rw [getPacket_eq_take hS (h.within hfs) hentire, h.reach_eq hfs hf hmore, List.take_length]

end FragmentList

namespace Ipv4L3Protocol

open FragmentList

/-! ## Fragments of a datagram -/

variable {S : Packet} {h : Ipv4Header} {f g : PayloadHeaderPair}

/-- A fragment as the list of the receiver gets it. -/
def arrival (f : PayloadHeaderPair) : Arrival :=
  ⟨f.1, f.2.fragmentOffset, !f.2.isLastFragment⟩

/-- The datagram with the payload `S` and the header `h`, and what routers have made of it on
links with MTUs of at least 68 bytes. -/
inductive Sent (S : Packet) (h : Ipv4Header) : PayloadHeaderPair → Prop
  | whole : Sent S h (S, h)
  | fragment (mtu : UInt16) (fragments : List PayloadHeaderPair) {f g : PayloadHeaderPair}
      (sent : Sent S h f) (hmtu : 68 ≤ mtu) (hlong : mtu.toNat < f.1.length + 20)
      (hcut : doFragmentation f.1 f.2 mtu.toUInt32 = some fragments) (hg : g ∈ fragments) :
      Sent S h g

/-- A fragment of the datagram. -/
structure Fragment (S : Packet) (h : Ipv4Header) (f : PayloadHeaderPair) : Prop where
  piece : Piece S (arrival f)
  aligned : f.2.fragmentOffset.toNat % 8 = 0
  key : keyOf f.2 = keyOf h

/-- A part of a fragment that begins at a multiple of 8 is a fragment. -/
theorem Fragment.part (hf : Fragment S h f) (hS : S.length < 2 ^ 16) {o m : ℕ}
    (hom : o + m ≤ f.1.length) (ho : o % 8 = 0) (header : Ipv4Header)
    (hkey : keyOf header = keyOf f.2)
    (hoffset : header.fragmentOffset = UInt16.ofNat o + f.2.fragmentOffset)
    (hmore : header.moreFragments = true ↔ f.2.fragmentOffset.toNat + (o + m) < S.length) :
    Fragment S h (createFragment f.1 (UInt16.ofNat o).toUInt32 (UInt32.ofNat m), header) := by
  have hblock := hf.piece.block
  have hlast := hblock.last_le
  change f.2.fragmentOffset.toNat + f.1.length ≤ S.length at hlast
  have ho16 : (UInt16.ofNat o).toNat = o := UInt16.toNat_ofNat_of_lt' (show o < 2 ^ 16 by omega)
  have ho32 : (UInt16.ofNat o).toUInt32.toNat = o := by rw [UInt16.toNat_toUInt32, ho16]
  have hm32 : (UInt32.ofNat m).toNat = m := UInt32.toNat_ofNat_of_lt' (show m < 2 ^ 32 by omega)
  have hnat : header.fragmentOffset.toNat = f.2.fragmentOffset.toNat + o := by
    rw [hoffset, UInt16.toNat_add, ho16]
    omega
  have hdata : createFragment f.1 (UInt16.ofNat o).toUInt32 (UInt32.ofNat m) =
      slice S (f.2.fragmentOffset.toNat + o) m := by
    have hf1 : f.1 = slice S f.2.fragmentOffset.toNat f.1.length := hblock.data_eq
    rw [Packet.createFragment_eq (by omega) (by omega), ho32, hm32]
    conv_lhs => rw [hf1]
    rw [take_drop_slice _ _ _ _ _ hom]
  have hlen := length_slice_of_le (S := S) (k := f.2.fragmentOffset.toNat + o) (n := m) (by omega)
  refine ⟨⟨⟨?_, ?_⟩, ?_⟩, ?_, hkey.trans hf.key⟩
  · change createFragment _ _ _ = slice S header.fragmentOffset.toNat (createFragment _ _ _).length
    rw [hdata, hlen, hnat]
  · change header.fragmentOffset.toNat + (createFragment _ _ _).length ≤ _
    rw [hdata, hlen, hnat]
    omega
  · change (!!header.moreFragments) = true ↔
      header.fragmentOffset.toNat + (createFragment _ _ _).length < _
    rw [hdata, hlen, hnat, Bool.not_not, hmore, Nat.add_assoc]
  · have haligned := hf.aligned
    change header.fragmentOffset.toNat % 8 = 0
    omega

/-- `DoFragmentation` on a fragment : the parts are fragments, and together they are the
fragment. -/
theorem Fragment.fragmentsFrom_spec (hf : Fragment S h f) (hS : S.length + 20 < 2 ^ 16)
    {fragmentSize : UInt32} (hsize : fragmentSize.toNat % 8 = 0) (hpos : 0 < fragmentSize.toNat)
    (hbound : fragmentSize.toNat < 2 ^ 16) (fuel : ℕ) {o : ℕ} (ho : o % 8 = 0)
    (hle : o ≤ f.1.length) (hfuel : f.1.length - o < fuel) :
    ∃ fragments, fragmentsFrom f.1 f.2 fragmentSize fuel (UInt16.ofNat o) = some fragments ∧
      (∀ g ∈ fragments, Fragment S h g) ∧ fragments.flatMap Prod.fst = f.1.drop o := by
  have hlast := hf.piece.block.last_le
  change f.2.fragmentOffset.toNat + f.1.length ≤ S.length at hlast
  have hmore : f.2.moreFragments = true ↔ f.2.fragmentOffset.toNat + f.1.length < S.length := by
    have hpiece := hf.piece.more
    change (!!f.2.moreFragments) = true ↔ _ at hpiece
    rwa [Bool.not_not] at hpiece
  induction fuel generalizing o with
  | zero => omega
  | succ fuel ih =>
    have ho16 : (UInt16.ofNat o).toNat = o := UInt16.toNat_ofNat_of_lt' (show o < 2 ^ 16 by omega)
    have ho32 : (UInt16.ofNat o).toUInt32.toNat = o := by rw [UInt16.toNat_toUInt32, ho16]
    have hlen : (getSize f.1).toNat = f.1.length :=
      UInt32.toNat_ofNat_of_lt' (show f.1.length < 2 ^ 32 by omega)
    have hcond : (UInt16.ofNat o).toUInt32 + fragmentSize < getSize f.1 ↔
        o + fragmentSize.toNat < f.1.length := by
      rw [UInt32.lt_iff_toNat_lt, UInt32.toNat_add, ho32, hlen]
      omega
    have haligned : (UInt16.ofNat o + f.2.fragmentOffset) &&& 7 = 0 := by
      have hf8 := hf.aligned
      rw [and_seven, UInt16.toNat_add, ho16]
      omega
    have hset : ∀ header : Ipv4Header,
        header.setFragmentOffset (UInt16.ofNat o + f.2.fragmentOffset) =
          some { header with fragmentOffset := UInt16.ofNat o + f.2.fragmentOffset } :=
      fun header => if_neg (not_not_intro haligned)
    rw [fragmentsFrom, fragmentAt]
    by_cases hlt : o + fragmentSize.toNat < f.1.length
    · -- fragments follow this one
      have hsize32 : UInt32.ofNat fragmentSize.toNat = fragmentSize := UInt32.ofNat_toNat
      have hnext : UInt16.ofNat o + fragmentSize.toUInt16 =
          UInt16.ofNat (o + fragmentSize.toNat) := by
        rw [UInt16.ofNat_add]
        congr 1
      obtain ⟨rest, hrest, hall, hjoin⟩ := ih (o := o + fragmentSize.toNat) (by omega) hlt.le
        (by omega)
      have hfirst := hf.part (by omega) (o := o) (m := fragmentSize.toNat) hlt.le ho
        { f.2 with
          moreFragments := true
          fragmentOffset := UInt16.ofNat o + f.2.fragmentOffset
          payloadSize := fragmentSize.toUInt16 } rfl rfl
        ⟨fun _ => by omega, fun _ => rfl⟩
      have hdata : createFragment f.1 (UInt16.ofNat o).toUInt32 fragmentSize =
          (f.1.drop o).take fragmentSize.toNat := by
        rw [Packet.createFragment_eq (by omega) (by omega), ho32]
      rw [hsize32] at hfirst
      simp only [if_pos (hcond.2 hlt), hset, Option.bind_eq_bind, Option.bind_some,
        if_true, hnext, hrest, Option.pure_def]
      refine ⟨_, rfl, List.forall_mem_cons.2 ⟨hfirst, hall⟩, ?_⟩
      rw [List.flatMap_cons, hjoin, hdata, ← List.drop_drop, List.take_append_drop]
    · -- the last one takes the flag of the fragment
      have hsub : getSize f.1 - (UInt16.ofNat o).toUInt32 = UInt32.ofNat (f.1.length - o) := by
        rw [← UInt32.toNat_inj, UInt32.toNat_sub_of_le _ _ (UInt32.le_iff_toNat_le.2 (by omega)),
          hlen, ho32, UInt32.toNat_ofNat_of_lt' (show f.1.length - o < 2 ^ 32 by omega)]
      have hflag : (if ¬ f.2.isLastFragment = true then f.2.setMoreFragments
          else f.2.setLastFragment) = f.2 := by
        rcases hheader : f.2 with ⟨source, destination, identification, protocol, size, more, o'⟩
        cases more <;> rfl
      have hlastPart := hf.part (by omega) (o := o) (m := f.1.length - o) (by omega) ho
        { f.2 with
          fragmentOffset := UInt16.ofNat o + f.2.fragmentOffset
          payloadSize := (getSize f.1 - (UInt16.ofNat o).toUInt32).toUInt16 } rfl rfl
        (by rw [Nat.add_sub_cancel' hle]; exact hmore)
      have hdata : createFragment f.1 (UInt16.ofNat o).toUInt32 (UInt32.ofNat (f.1.length - o)) =
          f.1.drop o := by
        have hrest : (UInt32.ofNat (f.1.length - o)).toNat = f.1.length - o :=
          UInt32.toNat_ofNat_of_lt' (show f.1.length - o < 2 ^ 32 by omega)
        rw [Packet.createFragment_eq (by omega) (by omega), ho32, hrest,
          List.take_of_length_le (by rw [List.length_drop])]
      rw [← hsub] at hlastPart hdata
      simp only [if_neg (fun hn => hlt (hcond.1 hn)), hflag, hset, Option.bind_eq_bind,
        Option.bind_some, Bool.false_eq_true, if_false, Option.pure_def]
      refine ⟨_, rfl, List.forall_mem_singleton.2 hlastPart, ?_⟩
      rw [List.flatMap_cons, hdata, List.flatMap_nil, List.append_nil]

/-- A router cuts a fragment into fragments that together are the fragment. -/
theorem Fragment.doFragmentation_spec (hf : Fragment S h f) (hS : S.length + 20 < 2 ^ 16)
    {mtu : UInt16} (hmtu : 68 ≤ mtu) : ∃ fragments,
      doFragmentation f.1 f.2 mtu.toUInt32 = some fragments ∧
      (∀ g ∈ fragments, Fragment S h g) ∧ fragments.flatMap Prod.fst = f.1 := by
  have hmtu' : 68 ≤ mtu.toNat := UInt16.le_iff_toNat_le.1 hmtu
  have hmtu16 := mtu.toNat_lt
  have hsize : ((mtu.toUInt32 - Ipv4Header.serializedSize) &&& ~~~7).toNat =
      (mtu.toNat - 20) / 2 ^ 3 * 2 ^ 3 := by
    rw [and_not_seven, UInt32.toNat_sub_of_le _ _ (UInt32.le_iff_toNat_le.2 (by
      rw [UInt16.toNat_toUInt32]
      exact le_trans (by decide) hmtu')), UInt16.toNat_toUInt32]
    rfl
  exact hf.fragmentsFrom_spec hS (by omega) (by omega) (by omega) _ (o := 0) rfl (Nat.zero_le _)
    (by omega)

theorem Sent.fragment_of (hS : S.length + 20 < 2 ^ 16) (hoffset : h.fragmentOffset = 0)
    (hlast : h.moreFragments = false) (hf : Sent S h f) : Fragment S h f := by
  induction hf with
  | whole =>
    refine ⟨⟨⟨?_, ?_⟩, ?_⟩, ?_, rfl⟩
    · change S = slice S h.fragmentOffset.toNat S.length
      rw [hoffset]
      exact (List.take_length).symm
    · change h.fragmentOffset.toNat + S.length ≤ S.length
      rw [hoffset]
      exact (Nat.zero_add _).le
    · change (!!h.moreFragments) = true ↔ h.fragmentOffset.toNat + S.length < S.length
      rw [hlast]
      simp
    · rw [hoffset]
      rfl
  | fragment mtu parts sent hmtu hlong hcut hg ih =>
    obtain ⟨fragments, hfragments, hall, -⟩ := ih.doFragmentation_spec hS hmtu
    rw [hcut] at hfragments
    exact hall _ (Option.some.inj hfragments ▸ hg)

/-! ## The receiver -/

/-- The buffers of the receiver, and the fragments of the datagram that have arrived since its
buffer was created. -/
structure Host where
  buffers : Buffers
  received : List PayloadHeaderPair := []

/-- What happens to the receiver : a fragment arrives, of the datagram or of another one, or the
fragments with a key time out. -/
inductive Event
  | arrive (f : PayloadHeaderPair)
  | timeout (key : FragmentKey)

/-- `ProcessFragment` or `HandleFragmentsTimeout`. -/
def step (h : Ipv4Header) (s : Host) : Event → Host
  | .arrive f =>
    match processFragment s.buffers f.1 f.2 with
    | none => s
    | some r =>
      { buffers := r.fragments
        received :=
          if keyOf f.2 = keyOf h then if r.ret then [] else s.received ++ [f] else s.received }
  | .timeout key =>
    { buffers := handleFragmentsTimeout s.buffers key
      received := if key = keyOf h then [] else s.received }

/-- The fragments hold the end of the datagram and all its bytes. -/
def Covers (S : Packet) (fs : List PayloadHeaderPair) : Prop :=
  (∃ f ∈ fs, f.2.isLastFragment = true) ∧
    ∀ p < S.length, ∃ f ∈ fs, f.2.fragmentOffset.toNat ≤ p ∧
      p < f.2.fragmentOffset.toNat + f.1.length

/-- Of the fragments with the greatest offset the one that came last is the end. -/
def EndOnTop (fs : List PayloadHeaderPair) : Prop :=
  ∀ g, topmost (fs.map arrival) = some g → g.moreFragment = false

/-- A fragment of the datagram completes it with the right payload, as soon as the fragments
that have arrived hold all of it. -/
def Completes (S : Packet) (h : Ipv4Header) (s : Host) : Event → Prop
  | .arrive f => keyOf f.2 = keyOf h → ∃ r, processFragment s.buffers f.1 f.2 = some r ∧
      (r.ret = true → r.packet = S) ∧ (Covers S (s.received ++ [f]) → r.ret = true)
  | .timeout _ => True

/-- When the fragments that have arrived hold the datagram, the end is on top. -/
def OnTop (S : Packet) (h : Ipv4Header) (s : Host) : Event → Prop
  | .arrive f => keyOf f.2 = keyOf h → Covers S (s.received ++ [f]) → EndOnTop (s.received ++ [f])
  | .timeout _ => True

/-- A fragment with the key of the datagram is one of its fragments. -/
def FromSender (S : Packet) (h : Ipv4Header) : Event → Prop
  | .arrive f => keyOf f.2 = keyOf h → Sent S h f
  | .timeout _ => True

/-- The buffer of the datagram has been made of the fragments that have arrived. -/
structure Consistent (S : Packet) (h : Ipv4Header) (s : Host) : Prop where
  made : Made ((s.buffers (keyOf h)).getD {}) (s.received.map arrival)
  fragments : ∀ f ∈ s.received, Fragment S h f

variable {s : Host} {fs : List PayloadHeaderPair}

theorem covers_iff : FragmentList.Covers S (fs.map arrival) ↔ Covers S fs := by
  have hmore : ∀ f : PayloadHeaderPair, (arrival f).moreFragment = false ↔
      f.2.isLastFragment = true := by
    intro f
    change (!f.2.isLastFragment) = false ↔ _
    rw [Bool.not_eq_false']
  have hcovered : ∀ p, p ∈ covered ((fs.map arrival).map Arrival.block) ↔
      ∃ f ∈ fs, f.2.fragmentOffset.toNat ≤ p ∧ p < f.2.fragmentOffset.toNat + f.1.length := by
    intro p
    rw [List.map_map, mem_covered]
    simp only [List.mem_map, exists_exists_and_eq_and]
    rfl
  simp only [FragmentList.Covers, Covers, List.mem_map, exists_exists_and_eq_and, hmore, hcovered]

/-- What a fragment of the datagram leads to. -/
theorem Consistent.processFragment_eq (hs : Consistent S h s) (hS : S.length + 20 < 2 ^ 16)
    (hf : Fragment S h f) : ∃ l, Made l ((s.received ++ [f]).map arrival) ∧
      (Covers S (s.received ++ [f]) ∧ EndOnTop (s.received ++ [f]) ∧
          processFragment s.buffers f.1 f.2 =
            some ⟨true, S, Function.update s.buffers (keyOf h) none⟩ ∨
        ¬ (Covers S (s.received ++ [f]) ∧ EndOnTop (s.received ++ [f])) ∧
          processFragment s.buffers f.1 f.2 =
            some ⟨false, f.1, Function.update s.buffers (keyOf h) (some l)⟩) := by
  obtain ⟨l, hl⟩ : ∃ l, l = ((s.buffers (keyOf h)).getD {}).addFragment f.1 f.2.fragmentOffset
      (!f.2.isLastFragment) := ⟨_, rfl⟩
  have hmade : Made l ((s.received ++ [f]).map arrival) := by
    rw [hl, List.map_append]
    exact hs.made.addFragment (arrival f)
  have hpieces : ∀ a ∈ (s.received ++ [f]).map arrival, Piece S a := by
    intro a ha
    obtain ⟨g, hg, rfl⟩ := List.mem_map.1 ha
    rcases List.mem_append.1 hg with hg | hg
    · exact (hs.fragments g hg).piece
    · rw [List.mem_singleton.1 hg]
      exact hf.piece
  have hiff := isEntire_iff (by omega) hmade hpieces
  rw [covers_iff] at hiff
  refine ⟨l, hmade, ?_⟩
  rw [processFragment, hf.key, ← hl]
  by_cases hentire : l.isEntire = true
  · obtain ⟨hcovers, htop⟩ := hiff.1 hentire
    refine Or.inl ⟨hcovers, htop, ?_⟩
    simp only [hentire, if_true]
    rw [getPacket_eq (by omega) hmade hpieces hentire]
    rfl
  · refine Or.inr ⟨fun hboth => hentire (hiff.2 hboth), ?_⟩
    simp only [hentire]
    rfl

theorem getPacket_isSome {l : FragmentList} (hentire : l.isEntire = true) :
    ∃ p, l.getPacket = some p := by
  rw [isEntire, Bool.and_eq_true, Bool.and_eq_true] at hentire
  rw [getPacket]
  cases hits : l.fragments with
  | nil =>
    rw [hits] at hentire
    simp at hentire
  | cons it its => exact ⟨_, rfl⟩

/-- `ProcessFragment` touches the buffer of its datagram only. -/
theorem processFragment_frame (m : Buffers) (f : PayloadHeaderPair) :
    ∃ r, processFragment m f.1 f.2 = some r ∧ ∀ key ≠ keyOf f.2, r.fragments key = m key := by
  rw [processFragment]
  generalize ((m (keyOf f.2)).getD {}).addFragment f.1 f.2.fragmentOffset
    (!f.2.isLastFragment) = l
  by_cases hentire : l.isEntire = true
  · obtain ⟨p, hp⟩ := getPacket_isSome hentire
    refine ⟨⟨true, p, Function.update m (keyOf f.2) none⟩, ?_,
      fun key hne => Function.update_of_ne hne _ _⟩
    simp only [hentire, if_true, hp, Option.map_some]
  · refine ⟨⟨false, f.1, Function.update m (keyOf f.2) (some l)⟩, ?_,
      fun key hne => Function.update_of_ne hne _ _⟩
    simp only [hentire]
    rfl

/-- A fragment of another datagram leaves the buffer of this one. -/
theorem step_arrive_of_ne (hne : keyOf f.2 ≠ keyOf h) :
    (step h s (.arrive f)).buffers (keyOf h) = s.buffers (keyOf h) ∧
      (step h s (.arrive f)).received = s.received := by
  obtain ⟨r, hr, hframe⟩ := processFragment_frame s.buffers f
  rw [step, hr]
  exact ⟨hframe _ hne.symm, if_neg hne⟩

/-- Each event keeps the buffer consistent. -/
theorem Consistent.step (hs : Consistent S h s) (hS : S.length + 20 < 2 ^ 16)
    (hoffset : h.fragmentOffset = 0) (hlast : h.moreFragments = false) {e : Event}
    (he : FromSender S h e) : Consistent S h (step h s e) := by
  cases e with
  | arrive f =>
    by_cases hkey : keyOf f.2 = keyOf h
    · have hf := (he hkey).fragment_of hS hoffset hlast
      obtain ⟨l, hmade, ⟨-, -, hprocess⟩ | ⟨-, hprocess⟩⟩ := hs.processFragment_eq hS hf
      · rw [Ipv4L3Protocol.step, hprocess]
        simp only [hkey, if_true]
        refine ⟨?_, fun g hg => absurd hg List.not_mem_nil⟩
        simp only [Function.update_self]
        exact made_nil
      · rw [Ipv4L3Protocol.step, hprocess]
        simp only [hkey, if_true]
        refine ⟨?_, fun g hg => ?_⟩
        · simp only [Function.update_self]
          exact hmade
        · rcases List.mem_append.1 hg with hg | hg
          · exact hs.fragments g hg
          · rw [List.mem_singleton.1 hg]
            exact hf
    · obtain ⟨hbuffer, hreceived⟩ := step_arrive_of_ne (s := s) hkey
      refine ⟨?_, ?_⟩
      · rw [hbuffer, hreceived]
        exact hs.made
      · rw [hreceived]
        exact hs.fragments
  | timeout key =>
    by_cases hkey : key = keyOf h
    · refine ⟨?_, ?_⟩
      · simp only [Ipv4L3Protocol.step, handleFragmentsTimeout, hkey, if_true, Function.update_self]
        exact made_nil
      · simp only [Ipv4L3Protocol.step, hkey, if_true]
        exact fun g hg => absurd hg List.not_mem_nil
    · refine ⟨?_, ?_⟩
      · simp only [Ipv4L3Protocol.step, handleFragmentsTimeout, hkey, if_false,
          Function.update_of_ne (Ne.symm hkey)]
        exact hs.made
      · simp only [Ipv4L3Protocol.step, hkey, if_false]
        exact hs.fragments

/-- An event is right if and only if it does not leave a complete datagram without its end on
top. -/
theorem Consistent.completes_event_iff (hs : Consistent S h s) (hS : S.length + 20 < 2 ^ 16)
    (hoffset : h.fragmentOffset = 0) (hlast : h.moreFragments = false) {e : Event}
    (he : FromSender S h e) : Completes S h s e ↔ OnTop S h s e := by
  cases e with
  | timeout key => exact Iff.rfl
  | arrive f =>
    refine forall_congr' fun hkey => ?_
    have hf := (he hkey).fragment_of hS hoffset hlast
    obtain ⟨l, -, ⟨hcovers, htop, hprocess⟩ | ⟨hnot, hprocess⟩⟩ := hs.processFragment_eq hS hf
    · refine ⟨fun _ _ => htop, fun _ => ⟨_, hprocess, fun _ => rfl, fun _ => rfl⟩⟩
    · constructor
      · rintro ⟨r, hr, -, hret⟩ hcovers
        rw [hprocess, Option.some.injEq] at hr
        subst hr
        exact absurd (hret hcovers) Bool.false_ne_true
      · intro htop
        refine ⟨_, hprocess, fun hret => absurd hret Bool.false_ne_true, fun hcovers => ?_⟩
        exact absurd ⟨hcovers, htop hcovers⟩ hnot

/-- What a completed datagram gives. -/
def Sound (S : Packet) (h : Ipv4Header) (s : Host) : Event → Prop
  | .arrive f => keyOf f.2 = keyOf h → ∃ r, processFragment s.buffers f.1 f.2 = some r ∧
      (r.ret = true → r.packet = S ∧ Covers S (s.received ++ [f]))
  | .timeout _ => True

theorem Consistent.sound (hs : Consistent S h s) (hS : S.length + 20 < 2 ^ 16)
    (hoffset : h.fragmentOffset = 0) (hlast : h.moreFragments = false) {e : Event}
    (he : FromSender S h e) : Sound S h s e := by
  cases e with
  | timeout key => trivial
  | arrive f =>
    intro hkey
    have hf := (he hkey).fragment_of hS hoffset hlast
    obtain ⟨l, -, ⟨hcovers, -, hprocess⟩ | ⟨-, hprocess⟩⟩ := hs.processFragment_eq hS hf
    · exact ⟨_, hprocess, fun _ => ⟨rfl, hcovers⟩⟩
    · exact ⟨_, hprocess, fun hret => absurd hret Bool.false_ne_true⟩

/-- In every run, a datagram that is completed has its payload, and each fragment that makes it
complete completes it if and only if the end is on top then. -/
theorem completes_iff (hS : S.length ≤ 65515) (hoffset : h.fragmentOffset = 0)
    (hlast : h.moreFragments = false) {buffers : Buffers} (hnew : buffers (keyOf h) = none)
    {events : List Event} (hevents : ∀ e ∈ events, FromSender S h e) :
    Each (step h) (Sound S h) ⟨buffers, []⟩ events ∧
      (Each (step h) (Completes S h) ⟨buffers, []⟩ events ↔
        Each (step h) (OnTop S h) ⟨buffers, []⟩ events) := by
  have hstart : Consistent S h ⟨buffers, []⟩ := by
    refine ⟨?_, fun f hf => absurd hf List.not_mem_nil⟩
    change Made ((buffers (keyOf h)).getD {}) []
    rw [hnew]
    exact made_nil
  have hS' : S.length + 20 < 2 ^ 16 := by omega
  have hstep : ∀ s e, Consistent S h s → FromSender S h e → Consistent S h (step h s e) :=
    fun s e hs he => hs.step hS' hoffset hlast he
  refine ⟨?_, ?_⟩
  · have hnothing : Each (step h) (fun _ _ => True) ⟨buffers, []⟩ events :=
      Each.of_forall (fun _ _ => trivial) _ _
    refine (each_congr hstep (fun s e hs he => ?_) hstart hevents).1 hnothing
    exact ⟨fun _ => hs.sound hS' hoffset hlast he, fun _ => trivial⟩
  · exact each_congr hstep (fun s e hs he => hs.completes_event_iff hS' hoffset hlast he) hstart
      hevents

/-! ## Two copies of a datagram -/

/-- A header of a datagram with 112 bytes. -/
def header112 : Ipv4Header :=
  ⟨1, 2, 3, 17, 112, false, 0⟩

/-- A part of the datagram with 112 zeroes. -/
def part112 (offset n : UInt16) (more : Bool) : PayloadHeaderPair :=
  (List.replicate n.toNat 0,
    { header112 with payloadSize := n, moreFragments := more, fragmentOffset := offset })

/-- The parts on a link with an MTU of 76 bytes. -/
theorem sent_halves (hf : f ∈ [part112 0 56 true, part112 56 56 false]) :
    Sent (List.replicate 112 0) header112 f :=
  .fragment 76 _ .whole (by decide) (by decide) (by decide +kernel) hf

/-- A part of the second half, on a link with an MTU of 68 bytes. -/
theorem sent_rest : Sent (List.replicate 112 0) header112 (part112 56 48 true) :=
  .fragment 68 [part112 56 48 true, part112 104 8 false]
    (sent_halves (f := part112 56 56 false) (by simp)) (by decide) (by decide)
    (by decide +kernel) (by simp)

/-- The halves of one copy, and between them a part of another copy. -/
def twoCopies : List Event :=
  [.arrive (part112 56 56 false), .arrive (part112 56 48 true), .arrive (part112 0 56 true)]

theorem fromSender_twoCopies : ∀ e ∈ twoCopies, FromSender (List.replicate 112 0) header112 e := by
  intro e he
  rw [twoCopies, List.mem_cons, List.mem_cons, List.mem_singleton] at he
  rcases he with rfl | rfl | rfl
  · exact fun _ => sent_halves (by simp)
  · exact fun _ => sent_rest
  · exact fun _ => sent_halves (by simp)

/-- The events of two copies. -/
theorem completes_iff_twoCopies :
    Each (step header112) (Sound (List.replicate 112 0) header112) ⟨fun _ => none, []⟩
        twoCopies ∧
      (Each (step header112) (Completes (List.replicate 112 0) header112) ⟨fun _ => none, []⟩
          twoCopies ↔
        Each (step header112) (OnTop (List.replicate 112 0) header112) ⟨fun _ => none, []⟩
          twoCopies) :=
  completes_iff (by decide) rfl rfl rfl fromSender_twoCopies

/-- The receiver after the first two of them. -/
def afterTwo : Host :=
  step header112 (step header112 ⟨fun _ => none, []⟩ (.arrive (part112 56 56 false)))
    (.arrive (part112 56 48 true))

/-- With both halves there, the datagram is not completed : the part that came in between has the
greatest offset, and is not the end. -/
theorem not_completes :
    (∀ e ∈ twoCopies, FromSender (List.replicate 112 0) header112 e) ∧
      ¬ Each (step header112) (Completes (List.replicate 112 0) header112) ⟨fun _ => none, []⟩
        twoCopies := by
  refine ⟨fromSender_twoCopies, ?_⟩
  rintro ⟨-, -, hthird, -⟩
  have hreceived : afterTwo.received = [part112 56 56 false, part112 56 48 true] := by
    decide +kernel
  have hprocess : (processFragment afterTwo.buffers (part112 0 56 true).1
      (part112 0 56 true).2).map Processed.ret = some false := by decide +kernel
  obtain ⟨r, hr, -, hret⟩ := hthird rfl
  change processFragment afterTwo.buffers _ _ = some r at hr
  change Covers _ (afterTwo.received ++ _) → _ at hret
  rw [hr] at hprocess
  rw [hreceived] at hret
  have hcovers : Covers (List.replicate 112 0) [part112 56 56 false, part112 56 48 true,
      part112 0 56 true] := by
    refine ⟨⟨part112 56 56 false, by simp, rfl⟩, fun p hp => ?_⟩
    rw [List.length_replicate] at hp
    by_cases hhalf : p < 56
    · exact ⟨part112 0 56 true, by simp, Nat.zero_le p, hhalf⟩
    · exact ⟨part112 56 56 false, by simp, Nat.not_lt.1 hhalf, hp⟩
  exact absurd ((hret hcovers).symm.trans (Option.some.inj hprocess)) (by decide)

end Ipv4L3Protocol

end Ns3Pedca
