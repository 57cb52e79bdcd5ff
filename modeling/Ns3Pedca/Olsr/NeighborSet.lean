import Ns3Pedca.Olsr.RoutingProtocol
import Ns3Pedca.Runs

/-!
# Neighbors and links

The neighbor set mirrors the link set : it has one tuple for every main address that owns a link,
and no other one, and right after a HELLO the tuple of its sender is symmetric exactly if a link of
it is (`mirrors`). For that no step may lose the relation of links and neighbors : a link tuple
may not expire while its neighbor has another link, and interface associations may not expire or be
learned in a way that splits or joins neighbors (`StepOk`). A neighbor with two interfaces is enough
for two tuples of one neighbor (`not_mirrors`).
-/

namespace Ns3Pedca.Olsr

open OlsrState

/-! ## The relation -/

namespace OlsrState

variable (s : OlsrState)

/-- The main addresses of the neighbor tuples. -/
def addresses : List Ipv4Address :=
  s.neighborSet.map (·.neighborMainAddr)

/-- The interfaces of the neighbors to which there are links. -/
def interfaces : List Ipv4Address :=
  s.linkSet.map (·.neighborIfaceAddr)

/-- The main addresses that own links. -/
def owners : List Ipv4Address :=
  s.interfaces.map s.getMainAddress

/-- There is one neighbor tuple for every main address that owns a link, and no other one. -/
structure Mirrors : Prop where
  nodup : s.addresses.Nodup
  mem_iff : ∀ a, a ∈ s.addresses ↔ a ∈ s.owners

variable {s} {t : OlsrState}

theorem getMainAddress_congr (h : t.ifaceAssocSet = s.ifaceAssocSet) :
    t.getMainAddress = s.getMainAddress := by
  funext a
  rw [getMainAddress, getMainAddress, findIfaceAssocTuple, findIfaceAssocTuple, h]

theorem owners_congr (hlinks : t.interfaces = s.interfaces)
    (hassoc : t.ifaceAssocSet = s.ifaceAssocSet) : t.owners = s.owners := by
  rw [owners, owners, hlinks, getMainAddress_congr hassoc]

end OlsrState

/-- A list with an element that is added if it is not there. -/
def withAddress (a : Ipv4Address) (l : List Ipv4Address) : List Ipv4Address :=
  if a ∈ l then l else l ++ [a]

theorem mem_withAddress {a b : Ipv4Address} {l : List Ipv4Address} :
    b ∈ withAddress a l ↔ b ∈ l ∨ b = a := by
  rw [withAddress]
  split_ifs with ha
  · refine ⟨Or.inl, ?_⟩
    rintro (hb | rfl)
    · exact hb
    · exact ha
  · rw [List.mem_append, List.mem_singleton]

theorem nodup_withAddress {a : Ipv4Address} {l : List Ipv4Address} (hl : l.Nodup) :
    (withAddress a l).Nodup := by
  rw [withAddress]
  split_ifs with ha
  · exact hl
  · rw [List.nodup_append]
    refine ⟨hl, List.nodup_singleton a, ?_⟩
    rintro b hb c hc rfl
    exact ha (List.mem_singleton.1 hc ▸ hb)

theorem withAddress_idem {a : Ipv4Address} {l : List Ipv4Address} :
    withAddress a (withAddress a l) = withAddress a l := by
  rw [withAddress, if_pos (mem_withAddress.2 (Or.inr rfl))]

namespace RoutingProtocol

variable {p : OlsrParams} {now : ℤ} {s t : RoutingProtocol} {tuple : LinkTuple}
  {willingness : Willingness} {msg : MessageHeader} {hello : Hello}
  {receiverIface senderIface : Ipv4Address}

/-! ## The handlers -/

theorem addresses_insertNeighborTuple (s : OlsrState) (tuple : NeighborTuple) :
    (s.insertNeighborTuple tuple).addresses =
      withAddress tuple.neighborMainAddr s.addresses := by
  rw [insertNeighborTuple, withAddress]
  split_ifs with hany hmem hmem
  · refine map_modifyFirst ?_ _
    intro a ha
    exact (of_decide_eq_true ha).symm
  · obtain ⟨t, ht, heq⟩ := List.any_eq_true.1 hany
    exact absurd (List.mem_map.2 ⟨t, ht, of_decide_eq_true heq⟩) hmem
  · obtain ⟨t, ht, heq⟩ := List.mem_map.1 hmem
    exact absurd (List.any_eq_true.2 ⟨t, ht, decide_eq_true heq⟩) hany
  · rw [addresses, List.map_append]
    rfl

/-- The links and the associations are the same, and an address is among those of the neighbors. -/
structure Adds (s t : OlsrState) (a : Ipv4Address) : Prop where
  addresses : t.addresses = withAddress a s.addresses
  links : t.linkSet = s.linkSet
  assoc : t.ifaceAssocSet = s.ifaceAssocSet

theorem adds_linkTupleAdded (now : ℤ) (s : RoutingProtocol) (tuple : LinkTuple)
    (willingness : Willingness) : Adds s.state (s.linkTupleAdded now tuple willingness).state
    (s.state.getMainAddress tuple.neighborIfaceAddr) := by
  obtain ⟨l, hl⟩ := linkTupleAdded_frame (s := s) now tuple willingness
  exact ⟨addresses_insertNeighborTuple s.state _, by rw [hl], by rw [hl]⟩

theorem addresses_updateStatus (mainAddr : Ipv4Address) :
    (s.updateStatus now mainAddr).state.addresses = s.state.addresses := by
  refine map_modifyFirst ?_ _
  intro _ _
  rfl

theorem mem_addresses_iff {s : OlsrState} {a : Ipv4Address} :
    a ∈ s.addresses ↔ s.findNeighborTuple a ≠ none := by
  rw [addresses, List.mem_map, findNeighborTuple, ne_eq, List.find?_eq_none]
  push Not
  simp only [decide_eq_true_eq]

theorem adds_linkTupleUpdated (now : ℤ) (s : RoutingProtocol) (tuple : LinkTuple)
    (willingness : Willingness) : Adds s.state (s.linkTupleUpdated now tuple willingness).state
    (s.state.getMainAddress tuple.neighborIfaceAddr) := by
  rw [linkTupleUpdated]
  split_ifs with hfind
  · obtain ⟨haddresses, hlinks, hassoc⟩ := adds_linkTupleAdded now s tuple willingness
    exact ⟨(addresses_updateStatus _).trans haddresses, hlinks, hassoc⟩
  · refine ⟨(addresses_updateStatus _).trans ?_, rfl, rfl⟩
    rw [withAddress, if_pos (mem_addresses_iff.2 hfind)]

/-! ## A HELLO -/

/-- What a link message says about the link : whether it is the last word, and the link is not
lost. -/
def hearLink (receiverIface : Ipv4Address) (heard : Bool) (linkMessage : LinkMessage) : Bool :=
  let linkType := linkMessage.linkCode &&& 3
  let neighborType := linkMessage.linkCode >>> 2 &&& 3
  if linkType = 2 ∧ neighborType = 0 ∨ neighborType ≠ 1 ∧ neighborType ≠ 2 ∧ neighborType ≠ 0 then
    heard
  else if receiverIface ∈ linkMessage.neighborInterfaceAddresses then linkType ≠ 3
  else heard

/-- A HELLO lists the interface on which it is received, and not as lost. -/
def hears (receiverIface : Ipv4Address) (hello : Hello) : Bool :=
  hello.linkMessages.foldl (hearLink receiverIface) false

theorem senseLink_spec {vTime : ℤ} {linkMessage : LinkMessage} {r r' : LinkTuple × Bool}
    (h : senseLink p now receiverIface vTime r linkMessage = some r') :
    r'.1.neighborIfaceAddr = r.1.neighborIfaceAddr ∧ (r.2 = true → r'.2 = true) ∧
      ∀ heard : Bool, r.1.symTime = (if heard then now + vTime else now - second) →
        r'.1.symTime = if hearLink receiverIface heard linkMessage then now + vTime
          else now - second := by
  rw [senseLink] at h
  dsimp only at h
  split_ifs at h with hinvalid hlisted hlost htype
  · obtain rfl := Option.some.inj h
    refine ⟨rfl, id, fun heard hr => ?_⟩
    rw [hearLink, if_pos hinvalid]
    exact hr
  · obtain rfl := Option.some.inj h
    refine ⟨rfl, fun _ => rfl, fun heard _ => ?_⟩
    rw [hearLink]
    dsimp only
    rw [if_neg hinvalid, if_pos hlisted, decide_eq_false (not_not_intro hlost)]
    rfl
  · obtain rfl := Option.some.inj h
    refine ⟨rfl, fun _ => rfl, fun heard _ => ?_⟩
    rw [hearLink]
    dsimp only
    rw [if_neg hinvalid, if_pos hlisted, decide_eq_true hlost]
    rfl
  · obtain rfl := Option.some.inj h
    refine ⟨rfl, id, fun heard hr => ?_⟩
    rw [hearLink, if_neg hinvalid, if_neg hlisted]
    exact hr

theorem foldlM_senseLink {vTime : ℤ} (l : List LinkMessage) :
    ∀ {r r' : LinkTuple × Bool}, l.foldlM (senseLink p now receiverIface vTime) r = some r' →
      r'.1.neighborIfaceAddr = r.1.neighborIfaceAddr ∧ (r.2 = true → r'.2 = true) ∧
      ∀ heard : Bool, r.1.symTime = (if heard then now + vTime else now - second) →
        r'.1.symTime = if l.foldl (hearLink receiverIface) heard then now + vTime
          else now - second := by
  induction l with
  | nil =>
    intro r r' h
    obtain rfl := Option.some.inj h
    exact ⟨rfl, id, fun _ => id⟩
  | cons linkMessage l ih =>
    intro r r' h
    rw [List.foldlM_cons] at h
    obtain ⟨r₁, h₁, hrest⟩ := Option.bind_eq_some_iff.1 h
    obtain ⟨haddr, hupdated, hsym⟩ := senseLink_spec h₁
    obtain ⟨haddr', hupdated', hsym'⟩ := ih hrest
    exact ⟨haddr'.trans haddr, hupdated' ∘ hupdated, fun heard hr => hsym' _ (hsym heard hr)⟩

/-- The tuple of the link that a HELLO leaves. -/
theorem sensed_spec {updated : Bool}
    (h : sensed p now s msg hello receiverIface senderIface = some (tuple, updated)) :
    tuple.neighborIfaceAddr = senderIface ∧
      ((s.state.findLinkTuple senderIface).isSome = true → updated = true) ∧
      (s.state.findLinkTuple senderIface = none →
        tuple.symTime = if hears receiverIface hello then now + msg.vTime else now - second) := by
  obtain ⟨⟨link, updated'⟩, hfold, heq⟩ := Option.map_eq_some_iff.1 h
  obtain ⟨rfl, rfl⟩ := Prod.mk.inj heq
  obtain ⟨haddr, hupdated, hsym⟩ := foldlM_senseLink _ hfold
  refine ⟨haddr.trans ?_, hupdated, fun hnone => hsym false ?_⟩
  · cases hfind : s.state.findLinkTuple senderIface with
    | none => rfl
    | some link => exact (mem_of_find? hfind).2
  · rw [hnone]
    rfl

theorem mem_interfaces_iff {s : OlsrState} {a : Ipv4Address} :
    a ∈ s.interfaces ↔ (s.findLinkTuple a).isSome = true := by
  rw [interfaces, List.mem_map, findLinkTuple, List.find?_isSome]
  simp only [decide_eq_true_eq]

/-- A HELLO changes the tuple of a link that is known, or adds one, and the sender is among the
neighbors. -/
theorem linkSensing_addresses
    (h : s.linkSensing p now msg hello receiverIface senderIface = some t) :
    t.state.interfaces = withAddress senderIface s.state.interfaces ∧
      t.state.addresses =
        withAddress (s.state.getMainAddress senderIface) s.state.addresses ∧
      t.state.ifaceAssocSet = s.state.ifaceAssocSet := by
  obtain ⟨-, tuple, updated, hsensed, u, hu, v, hv, ht⟩ := linkSensing_cases h
  obtain ⟨haddr, hupdated, -⟩ := sensed_spec hsensed
  have hu' : u.state.interfaces = withAddress senderIface s.state.interfaces ∧
      u.state.addresses = s.state.addresses ∧ u.state.ifaceAssocSet = s.state.ifaceAssocSet := by
    rw [hu, withAddress]
    split_ifs with hfound hmem hmem
    · refine ⟨map_modifyFirst ?_ _, rfl, rfl⟩
      intro link hlink
      exact haddr.trans (of_decide_eq_true hlink).symm
    · exact absurd (mem_interfaces_iff.2 hfound) hmem
    · exact absurd (mem_interfaces_iff.1 hmem) hfound
    · refine ⟨?_, rfl, rfl⟩
      change List.map _ (s.state.linkSet ++ [tuple]) = _
      rw [List.map_append, List.map_singleton, haddr]
      rfl
  obtain ⟨hlinks, haddresses, hassoc⟩ := hu'
  have hmain : u.state.getMainAddress tuple.neighborIfaceAddr =
      s.state.getMainAddress senderIface := by
    rw [getMainAddress_congr hassoc, haddr]
  have hv' : v.state.linkSet = u.state.linkSet ∧
      v.state.ifaceAssocSet = u.state.ifaceAssocSet ∧
      (v.state.addresses = withAddress (s.state.getMainAddress senderIface) s.state.addresses ∨
        updated = false ∧ v.state.addresses = s.state.addresses) := by
    rw [hv]
    split_ifs with hupd
    · obtain ⟨ha, hl, hi⟩ := adds_linkTupleUpdated now u tuple hello.willingness
      exact ⟨hl, hi, Or.inl (by rw [ha, hmain, haddresses])⟩
    · exact ⟨rfl, rfl, Or.inr ⟨Bool.eq_false_iff.2 hupd, haddresses⟩⟩
  obtain ⟨hvlinks, hvassoc, hvaddresses⟩ := hv'
  rw [ht]
  split_ifs with hfound
  · refine ⟨(congrArg _ hvlinks).trans hlinks, ?_, hvassoc.trans hassoc⟩
    rcases hvaddresses with heq | ⟨hfalse, -⟩
    · exact heq
    · exact absurd (hupdated hfound) (by simp [hfalse])
  · obtain ⟨ha, hl, hi⟩ := adds_linkTupleAdded now v tuple hello.willingness
    refine ⟨(congrArg _ (hl.trans hvlinks)).trans hlinks, ?_, (hi.trans hvassoc).trans hassoc⟩
    rw [ha, getMainAddress_congr hvassoc, hmain]
    rcases hvaddresses with heq | ⟨-, heq⟩
    · rw [heq, withAddress_idem]
    · rw [heq]

/-! ## The status of the sender -/

/-- The neighbors with an address have a status. -/
def HasStatus (s : OlsrState) (a : Ipv4Address) (status : NeighborStatus) : Prop :=
  ∀ tuple ∈ s.neighborSet, tuple.neighborMainAddr = a → tuple.status = status

theorem hasStatus_updateStatus {a : Ipv4Address} (h : s.state.addresses.Nodup) :
    HasStatus (s.updateStatus now a).state a
      (if s.hasSymmetricLink now a then .sym else .notSym) := by
  intro tuple htuple ha
  obtain ⟨t, -, -, rfl⟩ := mem_modifyFirst_of_nodup h htuple ha
  rfl

theorem hasStatus_insertNeighborTuple {s : OlsrState} (tuple : NeighborTuple)
    (h : s.addresses.Nodup) :
    HasStatus (s.insertNeighborTuple tuple) tuple.neighborMainAddr tuple.status := by
  intro u hu ha
  rw [insertNeighborTuple] at hu
  split_ifs at hu with hany
  · obtain ⟨t, -, -, rfl⟩ := mem_modifyFirst_of_nodup h hu ha
    rfl
  · rcases List.mem_append.1 hu with hold | hnew
    · exact absurd (List.any_eq_true.2 ⟨u, hold, decide_eq_true ha⟩) hany
    · rw [List.mem_singleton.1 hnew]

theorem hasStatus_populateNeighborSet {a : Ipv4Address} {status : NeighborStatus}
    (h : HasStatus s.state a status) :
    HasStatus (s.populateNeighborSet msg hello).state a status := by
  intro tuple htuple ha
  have hpairs : (s.populateNeighborSet msg hello).state.neighborSet.map
      (fun t => (t.neighborMainAddr, t.status)) =
      s.state.neighborSet.map fun t => (t.neighborMainAddr, t.status) := by
    refine map_modifyFirst ?_ _
    intro _ _
    rfl
  have hmem := List.mem_map_of_mem (f := fun t : NeighborTuple => (t.neighborMainAddr, t.status))
    htuple
  rw [hpairs] at hmem
  obtain ⟨t, ht, heq⟩ := List.mem_map.1 hmem
  obtain ⟨haddr, hstatus⟩ := Prod.mk.inj heq
  exact hstatus.symm.trans (h t ht (haddr.trans ha))

theorem hasSymmetricLink_congr {a : Ipv4Address} (hlinks : t.state.linkSet = s.state.linkSet)
    (hassoc : t.state.ifaceAssocSet = s.state.ifaceAssocSet) :
    t.hasSymmetricLink now a = s.hasSymmetricLink now a := by
  rw [hasSymmetricLink, hasSymmetricLink, hlinks, getMainAddress_congr hassoc]

theorem hasSymmetricLink_iff {a : Ipv4Address} : s.hasSymmetricLink now a = true ↔
    ∃ link ∈ s.state.linkSet, s.state.getMainAddress link.neighborIfaceAddr = a ∧
      now ≤ link.symTime := by
  rw [hasSymmetricLink, List.any_eq_true]
  simp only [decide_eq_true_eq, ge_iff_le]

theorem hasStatus_linkTupleUpdated {a : Ipv4Address} (h : s.state.addresses.Nodup)
    (ha : s.state.getMainAddress tuple.neighborIfaceAddr = a) :
    HasStatus (s.linkTupleUpdated now tuple willingness).state a
      (if s.hasSymmetricLink now a then .sym else .notSym) := by
  subst ha
  rw [linkTupleUpdated]
  by_cases hfind : s.state.findNeighborTuple (s.state.getMainAddress tuple.neighborIfaceAddr) = none
  · obtain ⟨haddresses, hlinks, hassoc⟩ := adds_linkTupleAdded now s tuple willingness
    rw [if_pos hfind, ← hasSymmetricLink_congr hlinks hassoc]
    exact hasStatus_updateStatus (haddresses ▸ nodup_withAddress h)
  · rw [if_neg hfind]
    exact hasStatus_updateStatus h

/-- After `LinkSensing` the sender is symmetric exactly if a link of it is, unless the link is new,
the HELLO does not confirm it and the sender has another link. -/
theorem linkSensing_status (hnodup : s.state.addresses.Nodup)
    (h : s.linkSensing p now msg hello receiverIface senderIface = some t)
    (hok : senderIface ∉ s.state.interfaces →
      s.hasSymmetricLink now (s.state.getMainAddress senderIface) = true →
      hears receiverIface hello = true) :
    HasStatus t.state (s.state.getMainAddress senderIface)
      (if t.hasSymmetricLink now (s.state.getMainAddress senderIface) then .sym else .notSym) := by
  obtain ⟨hvTime, tuple, updated, hsensed, u, hu, v, hv, ht⟩ := linkSensing_cases h
  obtain ⟨haddr, hupdated, hsym⟩ := sensed_spec hsensed
  have hassoc : u.state.ifaceAssocSet = s.state.ifaceAssocSet := by
    rw [hu]
    split_ifs <;> rfl
  have hunodup : u.state.addresses.Nodup := by
    rw [hu]
    split_ifs <;> exact hnodup
  have hmain : u.state.getMainAddress tuple.neighborIfaceAddr =
      s.state.getMainAddress senderIface := by
    rw [getMainAddress_congr hassoc, haddr]
  obtain ⟨n, hn⟩ := linkTupleUpdated_frame (s := u) now tuple hello.willingness
  have hadds := adds_linkTupleUpdated now u tuple hello.willingness
  by_cases hfound : (s.state.findLinkTuple senderIface).isSome = true
  · rw [if_pos hfound] at ht
    rw [if_pos (hupdated hfound)] at hv
    rw [ht, hv, hasSymmetricLink_congr hadds.links hadds.assoc]
    exact hasStatus_linkTupleUpdated hunodup hmain
  · have hnone : s.state.findLinkTuple senderIface = none :=
      Option.not_isSome_iff_eq_none.1 hfound
    rw [if_neg hfound] at ht hu
    have hv' : v.state.linkSet = u.state.linkSet ∧
        v.state.ifaceAssocSet = u.state.ifaceAssocSet ∧ v.state.addresses.Nodup := by
      rw [hv]
      split_ifs
      · exact ⟨hadds.links, hadds.assoc, hadds.addresses ▸ nodup_withAddress hunodup⟩
      · exact ⟨rfl, rfl, hunodup⟩
    obtain ⟨hvlinks, hvassoc, hvnodup⟩ := hv'
    have hvmain : v.state.getMainAddress tuple.neighborIfaceAddr =
        s.state.getMainAddress senderIface := by
      rw [getMainAddress_congr hvassoc, hmain]
    have hadded := adds_linkTupleAdded now v tuple hello.willingness
    have hnew : u.hasSymmetricLink now (s.state.getMainAddress senderIface) = true ↔
        now ≤ tuple.symTime := by
      rw [hasSymmetricLink_iff, getMainAddress_congr hassoc, hu]
      constructor
      · rintro ⟨link, hlink, hlinkMain, hlinkSym⟩
        rcases List.mem_append.1 hlink with hold | hnew
        · have hhears : hears receiverIface hello = true := by
            refine hok (fun hmem => hfound (mem_interfaces_iff.1 hmem)) ?_
            exact hasSymmetricLink_iff.2 ⟨link, hold, hlinkMain, hlinkSym⟩
          rw [hsym hnone, if_pos hhears]
          omega
        · rw [← List.mem_singleton.1 hnew]
          exact hlinkSym
      · intro hle
        exact ⟨tuple, List.mem_append_right _ (List.mem_singleton_self tuple), by rw [haddr], hle⟩
    rw [ht, hasSymmetricLink_congr hadded.links hadded.assoc,
      hasSymmetricLink_congr hvlinks hvassoc]
    have hstatus := hasStatus_insertNeighborTuple
      ⟨v.state.getMainAddress tuple.neighborIfaceAddr,
        if tuple.symTime ≥ now then .sym else .notSym, hello.willingness⟩ hvnodup
    rw [hvmain] at hstatus
    simp only [hnew]
    exact hvmain ▸ hstatus

/-- What a HELLO leaves, from what `LinkSensing` leaves. -/
theorem processHello_frame
    (h : s.processHello p now msg hello receiverIface senderIface = some t) :
    ∃ u, s.linkSensing p now msg hello receiverIface senderIface = some u ∧
      t.state.linkSet = u.state.linkSet ∧ t.state.ifaceAssocSet = u.state.ifaceAssocSet ∧
      t.state.neighborSet = (u.populateNeighborSet msg hello).state.neighborSet := by
  obtain ⟨u, hu, hrest⟩ := Option.bind_eq_some_iff.1 h
  obtain ⟨v, hv, heq⟩ := Option.bind_eq_some_iff.1 hrest
  obtain rfl := Option.some.inj heq
  obtain ⟨l, hl⟩ := @populateTwoHopNeighborSet_frame p now
    (u.populateNeighborSet msg hello) msg hello
  rw [hl] at hv
  obtain ⟨mprSet, rfl⟩ := mprComputation_frame hv
  obtain ⟨selectors, hsel⟩ := @populateMprSelectorSet_frame p now ⟨_, _, _, _⟩ msg hello
  exact ⟨u, hu, by rw [hsel]; rfl, by rw [hsel]; rfl, by rw [hsel]⟩

/-! ## Associations -/

/-- The main address of an associated interface. -/
def assocMain (s : OlsrState) (a : Ipv4Address) : Option Ipv4Address :=
  (s.findIfaceAssocTuple a).map (·.mainAddr)

theorem getMainAddress_eq (s : OlsrState) (a : Ipv4Address) :
    s.getMainAddress a = (assocMain s a).getD a := by
  rw [getMainAddress, assocMain]
  cases s.findIfaceAssocTuple a with
  | none => rfl
  | some tuple => rfl

theorem assocMain_associate (s : OlsrState) (i a : Ipv4Address) :
    assocMain (associate now msg s i) a =
      (assocMain s a).or (if a = i then some msg.originatorAddress else none) := by
  rw [associate]
  by_cases hany : (s.ifaceAssocSet.any fun t => t.ifaceAddr = i ∧
      t.mainAddr = msg.originatorAddress) = true
  · have hsome : a = i → ∃ b, assocMain s a = some b := by
      rintro rfl
      obtain ⟨tuple, htuple, hpair⟩ := List.any_eq_true.1 hany
      have hfind : (s.findIfaceAssocTuple a).isSome = true :=
        List.find?_isSome.2 ⟨tuple, htuple, decide_eq_true (of_decide_eq_true hpair).1⟩
      obtain ⟨found, hfound⟩ := Option.isSome_iff_exists.1 hfind
      exact ⟨found.mainAddr, by rw [assocMain, hfound]; rfl⟩
    have hor : (assocMain s a).or (if a = i then some msg.originatorAddress else none) =
        assocMain s a := by
      split_ifs with heq
      · obtain ⟨b, hb⟩ := hsome heq
        rw [hb, Option.some_or]
      · rw [Option.or_none]
    have hkept : ∀ t : IfaceAssocTuple, ∀ c : Prop, ∀ _ : Decidable c,
        (if c then { t with time := now + msg.vTime } else t).ifaceAddr = t.ifaceAddr ∧
        (if c then { t with time := now + msg.vTime } else t).mainAddr = t.mainAddr := by
      intro t c _
      split_ifs <;> exact ⟨rfl, rfl⟩
    rw [if_pos hany, hor, assocMain, assocMain, findIfaceAssocTuple, findIfaceAssocTuple,
      List.find?_map, Option.map_map]
    congr 1
    · funext t
      exact (hkept t _ _).2
    · congr 1
      funext t
      exact congrArg (fun b => decide (b = a)) (hkept t _ _).1
  · rw [if_neg hany, assocMain, assocMain, findIfaceAssocTuple, findIfaceAssocTuple,
      List.find?_append, Option.map_or]
    congr 1
    rw [List.find?_singleton]
    by_cases heq : a = i
    · rw [if_pos heq, if_pos (decide_eq_true heq.symm)]
      rfl
    · rw [if_neg heq, if_neg (by simpa using Ne.symm heq)]
      rfl

/-- The main address that an address has once a MID is processed. -/
def mainAfterMid (s : OlsrState) (originator : Ipv4Address) (interfaceAddresses : List Ipv4Address)
    (a : Ipv4Address) : Ipv4Address :=
  match s.findIfaceAssocTuple a with
  | some tuple => tuple.mainAddr
  | none => if a ∈ interfaceAddresses then originator else a

theorem getMainAddress_foldl_associate (l : List Ipv4Address) (s : OlsrState) (a : Ipv4Address) :
    (l.foldl (associate now msg) s).getMainAddress a =
      mainAfterMid s msg.originatorAddress l a := by
  have hfold : ∀ (l : List Ipv4Address) (s : OlsrState),
      assocMain (l.foldl (associate now msg) s) a =
        (assocMain s a).or (if a ∈ l then some msg.originatorAddress else none) := by
    intro l
    induction l with
    | nil =>
      intro s
      rw [List.foldl_nil, if_neg List.not_mem_nil, Option.or_none]
    | cons i l ih =>
      intro s
      rw [List.foldl_cons, ih, assocMain_associate, Option.or_assoc]
      congr 1
      by_cases hi : a = i
      · rw [if_pos hi, if_pos (List.mem_cons.2 (Or.inl hi)), Option.some_or]
      · rw [if_neg hi, Option.none_or]
        simp only [List.mem_cons, hi, false_or]
  rw [getMainAddress_eq, hfold, mainAfterMid, assocMain]
  cases s.findIfaceAssocTuple a with
  | some tuple => rfl
  | none =>
    rw [Option.map_none, Option.none_or]
    dsimp only
    split_ifs <;> rfl

theorem foldl_associate_frame (l : List Ipv4Address) (s : OlsrState) :
    ∃ assoc, l.foldl (associate now msg) s = { s with ifaceAssocSet := assoc } := by
  refine foldl_frame (fun s assoc => { s with ifaceAssocSet := assoc }) (fun _ _ _ => rfl)
    (fun _ => ⟨_, rfl⟩) (fun s i => ?_) l s
  rw [associate]
  split_ifs
  · exact ⟨_, rfl⟩
  · exact ⟨_, rfl⟩

/-! ## Steps -/

/-- A step keeps the relation of links and neighbors. A new link of a known neighbor with a
symmetric link has to be confirmed by the HELLO. A MID may not join two neighbors, nor part the
links of one. A link may expire if its neighbor has no other one, and an association if no link
belongs to it. -/
def StepOk (s : RoutingProtocol) : Event → Prop
  | .hello now _ hello receiverIface senderIface =>
    senderIface ∉ s.state.interfaces →
      s.hasSymmetricLink now (s.state.getMainAddress senderIface) = true →
      hears receiverIface hello = true
  | .mid _ msg interfaceAddresses _ =>
    (∀ i ∈ s.state.interfaces,
      mainAfterMid s.state msg.originatorAddress interfaceAddresses (s.state.getMainAddress i) =
        mainAfterMid s.state msg.originatorAddress interfaceAddresses i) ∧
    ∀ a ∈ s.state.addresses, ∀ b ∈ s.state.addresses,
      mainAfterMid s.state msg.originatorAddress interfaceAddresses a =
        mainAfterMid s.state msg.originatorAddress interfaceAddresses b → a = b
  | .linkTuple now neighborIfaceAddr =>
    ∀ tuple, s.state.findLinkTuple neighborIfaceAddr = some tuple → tuple.time < now →
      ∀ i ∈ s.state.interfaces,
        s.state.getMainAddress i = s.state.getMainAddress neighborIfaceAddr →
        i = neighborIfaceAddr
  | .ifaceAssocTuple now ifaceAddr =>
    ∀ tuple, s.state.findIfaceAssocTuple ifaceAddr = some tuple → tuple.time < now →
      ∀ i ∈ s.state.interfaces,
        (s.state.eraseIfaceAssocTuple tuple).getMainAddress i = s.state.getMainAddress i
  | _ => True

/-- What holds after every event. -/
structure MirrorsLinks (s : OlsrState) : Prop extends s.Mirrors where
  nodup_interfaces : s.interfaces.Nodup

theorem MirrorsLinks.congr {s t : OlsrState} (h : MirrorsLinks s)
    (haddresses : t.addresses = s.addresses) (hlinks : t.linkSet = s.linkSet)
    (hassoc : t.ifaceAssocSet = s.ifaceAssocSet) : MirrorsLinks t := by
  have hinterfaces : t.interfaces = s.interfaces :=
    congrArg (List.map LinkTuple.neighborIfaceAddr) hlinks
  refine ⟨⟨haddresses ▸ h.nodup, fun a => ?_⟩, hinterfaces ▸ h.nodup_interfaces⟩
  rw [haddresses, owners_congr hinterfaces hassoc]
  exact h.mem_iff a

theorem mirrorsLinks_hello (hs : MirrorsLinks s.state)
    (h : s.processHello p now msg hello receiverIface senderIface = some t) :
    MirrorsLinks t.state := by
  obtain ⟨u, hu, hlinks, hassoc, hneighbors⟩ := processHello_frame h
  obtain ⟨huinterfaces, huaddresses, huassoc⟩ := linkSensing_addresses hu
  have haddresses : t.state.addresses = u.state.addresses := by
    rw [addresses, hneighbors]
    refine map_modifyFirst ?_ _
    intro _ _
    rfl
  refine MirrorsLinks.congr (s := u.state) ?_ haddresses hlinks hassoc
  refine ⟨⟨huaddresses ▸ nodup_withAddress hs.nodup, fun a => ?_⟩,
    huinterfaces ▸ nodup_withAddress hs.nodup_interfaces⟩
  rw [huaddresses, mem_withAddress, hs.mem_iff, owners, owners, getMainAddress_congr huassoc,
    huinterfaces, List.mem_map, List.mem_map]
  constructor
  · rintro (⟨i, hi, rfl⟩ | rfl)
    · exact ⟨i, mem_withAddress.2 (Or.inl hi), rfl⟩
    · exact ⟨senderIface, mem_withAddress.2 (Or.inr rfl), rfl⟩
  · rintro ⟨i, hi, rfl⟩
    rcases mem_withAddress.1 hi with hold | rfl
    · exact Or.inl ⟨i, hold, rfl⟩
    · exact Or.inr rfl

/-- Neighbors are renamed apart from each other, and as their links. -/
theorem MirrorsLinks.rename {s t : OlsrState} {f : Ipv4Address → Ipv4Address} (h : MirrorsLinks s)
    (haddresses : t.addresses = s.addresses.map f) (hinterfaces : t.interfaces = s.interfaces)
    (hmain : ∀ a, t.getMainAddress a = f a)
    (hkept : ∀ i ∈ s.interfaces, f (s.getMainAddress i) = f i)
    (hinj : ∀ a ∈ s.addresses, ∀ b ∈ s.addresses, f a = f b → a = b) : MirrorsLinks t := by
  refine ⟨⟨?_, fun a => ?_⟩, hinterfaces ▸ h.nodup_interfaces⟩
  · rw [haddresses]
    exact List.Nodup.map_on hinj h.nodup
  · rw [haddresses, List.mem_map, owners, hinterfaces, List.mem_map]
    constructor
    · rintro ⟨b, hb, rfl⟩
      obtain ⟨i, hi, rfl⟩ := List.mem_map.1 ((h.mem_iff b).1 hb)
      exact ⟨i, hi, by rw [hmain, hkept i hi]⟩
    · rintro ⟨i, hi, rfl⟩
      refine ⟨s.getMainAddress i, (h.mem_iff _).2 (List.mem_map_of_mem hi), ?_⟩
      rw [hmain, hkept i hi]

theorem mirrorsLinks_mid {interfaceAddresses : List Ipv4Address} (hs : MirrorsLinks s.state)
    (hok : StepOk s (.mid now msg interfaceAddresses senderIface)) :
    MirrorsLinks (s.processMid now msg interfaceAddresses senderIface).state := by
  obtain ⟨hkept, hinj⟩ := hok
  rw [processMid]
  split_ifs
  · exact hs
  · obtain ⟨assoc, hassoc⟩ := @foldl_associate_frame now msg interfaceAddresses s.state
    have hmain := @getMainAddress_foldl_associate now msg interfaceAddresses s.state
    refine hs.rename ?_ ?_ (fun a => ?_) hkept hinj
    · change List.map _ (List.map _
        (interfaceAddresses.foldl (associate now msg) _).neighborSet) = _
      rw [List.map_map, addresses, List.map_map]
      have hneighbors : (interfaceAddresses.foldl (associate now msg) s.state).neighborSet =
          s.state.neighborSet := by
        rw [hassoc]
      rw [hneighbors]
      exact List.map_congr_left fun t _ => hmain _
    · change List.map _ (interfaceAddresses.foldl (associate now msg) _).linkSet = _
      rw [hassoc]
      rfl
    · rw [← hmain, getMainAddress_congr (s := interfaceAddresses.foldl (associate now msg) s.state)]
      rfl

/-! ## Timers -/

/-- The first element with a property is erased by a narrower one that it has. -/
theorem eraseP_of_find? {α : Type*} {p q : α → Bool} {l : List α} {a : α}
    (h : l.find? p = some a) (ha : q a = true) (hq : ∀ b, q b = true → p b = true) :
    l.eraseP q = l.eraseP p := by
  induction l with
  | nil => rfl
  | cons b l ih =>
    by_cases hb : p b = true
    · rw [List.find?_cons_of_pos hb] at h
      obtain rfl := Option.some.inj h
      rw [List.eraseP_cons_of_pos ha, List.eraseP_cons_of_pos hb]
    · rw [List.find?_cons_of_neg hb] at h
      rw [List.eraseP_cons_of_neg (fun hqb => hb (hq b hqb)), List.eraseP_cons_of_neg hb, ih h]

/-- Elements are erased by their key. -/
theorem map_eraseP_eq_erase {α κ : Type*} [DecidableEq κ] (key : α → κ) (k : κ) (l : List α) :
    (l.eraseP (key · = k)).map key = (l.map key).erase k := by
  induction l with
  | nil => rfl
  | cons a l ih =>
    rw [List.eraseP_cons, List.map_cons, List.erase_cons]
    by_cases ha : key a = k
    · rw [decide_eq_true ha, if_pos (beq_iff_eq.2 ha)]
      rfl
    · rw [decide_eq_false ha, if_neg (fun h => ha (beq_iff_eq.1 h)), cond_false, List.map_cons, ih]

theorem mirrorsLinks_remove (hs : MirrorsLinks s.state) {i : Ipv4Address}
    (hfind : s.state.findLinkTuple i = some tuple)
    (hlast : ∀ j ∈ s.state.interfaces, s.state.getMainAddress j = s.state.getMainAddress i →
      j = i) : MirrorsLinks (s.removeLinkTuple tuple).state := by
  have haddr : tuple.neighborIfaceAddr = i := (mem_of_find? hfind).2
  have haddresses : (s.removeLinkTuple tuple).state.addresses =
      s.state.addresses.erase (s.state.getMainAddress i) := by
    rw [← haddr]
    exact map_eraseP_eq_erase _ _ _
  have hinterfaces : (s.removeLinkTuple tuple).state.interfaces = s.state.interfaces.erase i := by
    refine Eq.trans ?_ (map_eraseP_eq_erase _ _ _)
    refine congrArg (List.map LinkTuple.neighborIfaceAddr) (eraseP_of_find? hfind ?_ ?_)
    · simp [haddr]
    · intro link hlink
      exact decide_eq_true ((of_decide_eq_true hlink).2.trans haddr)
  have hmain : (s.removeLinkTuple tuple).state.getMainAddress = s.state.getMainAddress :=
    getMainAddress_congr rfl
  refine ⟨⟨haddresses ▸ hs.nodup.erase _, fun a => ?_⟩,
    hinterfaces ▸ hs.nodup_interfaces.erase _⟩
  rw [haddresses, hs.nodup.mem_erase_iff, hs.mem_iff, owners, owners, hinterfaces, hmain,
    List.mem_map, List.mem_map]
  constructor
  · rintro ⟨hne, j, hj, rfl⟩
    exact ⟨j, hs.nodup_interfaces.mem_erase_iff.2 ⟨fun heq => hne (by rw [heq]), hj⟩, rfl⟩
  · rintro ⟨j, hj, rfl⟩
    obtain ⟨hne, hj⟩ := hs.nodup_interfaces.mem_erase_iff.1 hj
    exact ⟨fun heq => hne (hlast j hj heq), j, hj, rfl⟩

theorem mirrorsLinks_neighborLoss (hs : MirrorsLinks s.state)
    (hmem : tuple.neighborIfaceAddr ∈ s.state.interfaces)
    (h : s.neighborLoss p now tuple = some t) : MirrorsLinks t.state := by
  obtain ⟨mprSet, rfl⟩ := mprComputation_frame h
  obtain ⟨haddresses, hlinks, hassoc⟩ := adds_linkTupleUpdated now s tuple .medium
  refine hs.congr ?_ hlinks hassoc
  refine haddresses.trans ?_
  rw [withAddress, if_pos ((hs.mem_iff _).2 (List.mem_map_of_mem hmem))]

theorem mirrorsLinks_linkTuple {i : Ipv4Address} (hs : MirrorsLinks s.state)
    (hok : StepOk s (.linkTuple now i)) (h : s.linkTupleTimerExpire p now i = some t) :
    MirrorsLinks t.state := by
  rw [linkTupleTimerExpire] at h
  cases hfind : s.state.findLinkTuple i with
  | none =>
    rw [hfind] at h
    obtain rfl := Option.some.inj h
    exact hs
  | some tuple =>
    rw [hfind] at h
    dsimp only at h
    obtain ⟨hmem, rfl⟩ := mem_of_find? hfind
    split_ifs at h with htime hsym hfirst
    · obtain rfl := Option.some.inj h
      exact mirrorsLinks_remove hs hfind (hok tuple hfind htime)
    · obtain rfl := Option.some.inj h
      exact hs
    · exact mirrorsLinks_neighborLoss hs (List.mem_map_of_mem hmem) h
    · obtain rfl := Option.some.inj h
      exact hs

theorem mirrorsLinks_ifaceAssoc {a : Ipv4Address} (hs : MirrorsLinks s.state)
    (hok : StepOk s (.ifaceAssocTuple now a)) :
    MirrorsLinks (s.ifaceAssocTupleTimerExpire now a).state := by
  rw [ifaceAssocTupleTimerExpire]
  cases hfind : s.state.findIfaceAssocTuple a with
  | none => exact hs
  | some tuple =>
    dsimp only
    split_ifs with htime
    · refine ⟨⟨hs.nodup, fun b => ?_⟩, hs.nodup_interfaces⟩
      have howners : (s.state.eraseIfaceAssocTuple tuple).owners = s.state.owners :=
        List.map_congr_left (hok tuple hfind htime)
      exact (hs.mem_iff b).trans (by rw [howners])
    · exact hs

/-! ## Runs -/

/-- What the timers of other tuples and TCs leave alone. -/
theorem processTc_frame (tc : Tc) :
    ∃ l, s.processTc now msg tc senderIface =
      { s with state := { s.state with topologySet := l } } := by
  rw [processTc]
  split_ifs
  · exact ⟨_, rfl⟩
  · exact ⟨_, rfl⟩
  · obtain ⟨l, hl⟩ := foldl_frame (f := advertise now msg tc)
      (fun s l => { s with topologySet := l }) (fun _ _ _ => rfl) (fun _ => ⟨_, rfl⟩) (fun s a => by
        rw [advertise]
        split_ifs
        · exact ⟨_, rfl⟩
        · exact ⟨_, rfl⟩) tc.neighborAddresses
      (s.state.eraseOlderTopologyTuples msg.originatorAddress tc.ansn)
    exact ⟨l, by rw [hl]; rfl⟩

theorem mirrorsLinks_step {e : Event} (hs : MirrorsLinks s.state) (hok : StepOk s e)
    (h : s.step p e = some t) : MirrorsLinks t.state := by
  cases e with
  | hello now msg hello receiverIface senderIface => exact mirrorsLinks_hello hs h
  | tc now msg tc senderIface =>
    obtain rfl := Option.some.inj h
    obtain ⟨l, hl⟩ := @processTc_frame now s msg senderIface tc
    exact hs.congr (by rw [hl]; rfl) (by rw [hl]) (by rw [hl])
  | mid now msg interfaceAddresses senderIface =>
    obtain rfl := Option.some.inj h
    exact mirrorsLinks_mid hs hok
  | linkTuple now neighborIfaceAddr => exact mirrorsLinks_linkTuple hs hok h
  | nb2hopTuple now neighborMainAddr twoHopNeighborAddr =>
    obtain rfl := Option.some.inj h
    rw [nb2hopTupleTimerExpire]
    split
    · exact hs
    · split_ifs
      · exact hs.congr rfl rfl rfl
      · exact hs
  | mprSelTuple now mainAddr =>
    obtain rfl := Option.some.inj h
    rw [mprSelTupleTimerExpire]
    split
    · exact hs
    · split_ifs
      · exact hs.congr rfl rfl rfl
      · exact hs
  | topologyTuple now destAddr lastAddr =>
    obtain rfl := Option.some.inj h
    rw [topologyTupleTimerExpire]
    split
    · exact hs
    · split_ifs
      · exact hs.congr rfl rfl rfl
      · exact hs
  | ifaceAssocTuple now ifaceAddr =>
    obtain rfl := Option.some.inj h
    exact mirrorsLinks_ifaceAssoc hs hok

theorem mirrorsLinks_reached (h : Runs.Reached (step p) StepOk {} s) : MirrorsLinks s.state := by
  refine h.invariant (P := fun s => MirrorsLinks s.state) (fun t e u ht hok hu => ?_) ?_
  · exact mirrorsLinks_step ht hok hu
  · refine ⟨⟨List.nodup_nil, fun a => ?_⟩, List.nodup_nil⟩
    exact ⟨fun h => absurd h List.not_mem_nil, fun h => absurd h List.not_mem_nil⟩

/-- Right after a HELLO its sender is symmetric exactly if a link of it is. -/
def MirrorsSender (s : RoutingProtocol) : Event → Prop
  | .hello now _ _ _ senderIface =>
    ∀ tuple ∈ s.state.neighborSet, tuple.neighborMainAddr = s.state.getMainAddress senderIface →
      (tuple.status = .sym ↔ ∃ link ∈ s.state.linkSet,
        s.state.getMainAddress link.neighborIfaceAddr = s.state.getMainAddress senderIface ∧
          now ≤ link.symTime)
  | _ => True

theorem mirrorsSender_step {e : Event} (hs : MirrorsLinks s.state) (hok : StepOk s e)
    (h : s.step p e = some t) : MirrorsSender t e := by
  cases e with
  | hello now msg hello receiverIface senderIface =>
    obtain ⟨u, hu, hlinks, hassoc, hneighbors⟩ := processHello_frame h
    have hmain : t.state.getMainAddress = s.state.getMainAddress :=
      getMainAddress_congr (hassoc.trans (linkSensing_addresses hu).2.2)
    have hstatus := @hasStatus_populateNeighborSet u msg hello _ _
      (linkSensing_status hs.nodup hu hok)
    intro tuple htuple ha
    rw [hneighbors] at htuple
    rw [hmain] at ha ⊢
    rw [hstatus tuple htuple ha, ← hasSymmetricLink_congr hlinks hassoc, ← hmain,
      ← hasSymmetricLink_iff]
    split_ifs with hsym
    · exact ⟨fun _ => hsym, fun _ => rfl⟩
    · exact ⟨fun heq => absurd heq (by decide), fun hlink => absurd hlink hsym⟩
  | _ => trivial

/-- In every run whose steps keep the relation, after every event the neighbor set has one tuple for
every main address that owns a link and no other one, and right after a HELLO its sender is
symmetric exactly if a link of it is. -/
theorem mirrors (p : OlsrParams) (s : RoutingProtocol)
    (hs : Runs.Reached (step p) StepOk {} s) :
    s.state.Mirrors ∧
      ∀ e t, StepOk s e → s.step p e = some t → t.state.Mirrors ∧ MirrorsSender t e := by
  have hlinks := mirrorsLinks_reached hs
  refine ⟨hlinks.toMirrors, fun e t hok ht => ?_⟩
  exact ⟨(mirrorsLinks_step hlinks hok ht).toMirrors, mirrorsSender_step hlinks hok ht⟩

/-- A HELLO that lists its receiver 1 as heard, from an interface of node 2. -/
def helloFrom (senderIface : Ipv4Address) : Event :=
  .hello 0 ⟨2, 6000000000⟩ ⟨.medium, [⟨1, [1]⟩]⟩ 1 senderIface

/-- The MID that node 2 has the interface 3 as well. -/
def midFrom (senderIface : Ipv4Address) : Event :=
  .mid 0 ⟨2, 15000000000⟩ [3] senderIface

/-- With a HELLO from 2 and the MID. -/
theorem mirrors_hello_mid : ∃ s, Runs.Reached (step ⟨1, 6000000000⟩) StepOk {} s ∧
    s.state.addresses = [2] ∧ s.state.Mirrors := by
  have hsteps : ((step ⟨1, 6000000000⟩ {} (helloFrom 2)).any fun t =>
      t.state.interfaces = [2] && t.state.addresses = [2] && t.state.ifaceAssocSet.isEmpty &&
        (step ⟨1, 6000000000⟩ t (midFrom 2)).any fun u => u.state.addresses = [2]) = true := by
    decide +kernel
  obtain ⟨t, ht, hrest⟩ := (Option.any_eq_true _ _).1 hsteps
  simp only [Bool.and_eq_true, decide_eq_true_iff, List.isEmpty_iff] at hrest
  obtain ⟨⟨⟨hinterfaces, haddresses⟩, hassoc⟩, hlast⟩ := hrest
  obtain ⟨u, hu, hu'⟩ := (Option.any_eq_true _ _).1 hlast
  have hfirst : StepOk {} (helloFrom 2) := fun _ h => absurd h (by decide)
  have hmid : StepOk t (midFrom 2) := by
    refine ⟨fun i hi => ?_, fun a ha b hb _ => ?_⟩
    · rw [hinterfaces, List.mem_singleton] at hi
      rw [hi, getMainAddress, findIfaceAssocTuple, hassoc, List.find?_nil]
    · rw [haddresses, List.mem_singleton] at ha hb
      rw [ha, hb]
  have hrun : Runs.Reached (step ⟨1, 6000000000⟩) StepOk {} u :=
    (Runs.Reached.start.step hfirst ht).step hmid hu
  exact ⟨u, hrun, of_decide_eq_true hu', (mirrors _ _ hrun).1⟩

/-- Node 2 is heard on both of its interfaces before its MID : it is then two neighbors. -/
theorem not_mirrors : ¬∀ (p : OlsrParams) (s : RoutingProtocol),
    Runs.Reached (step p) (fun _ _ => True) {} s → s.state.Mirrors := by
  intro h
  have hsteps : ((step ⟨1, 6000000000⟩ {} (helloFrom 2)).any fun t =>
      (step ⟨1, 6000000000⟩ t (helloFrom 3)).any fun u =>
        (step ⟨1, 6000000000⟩ u (midFrom 2)).any fun v => v.state.addresses = [2, 2]) = true := by
    decide +kernel
  obtain ⟨t, ht, htu⟩ := (Option.any_eq_true _ _).1 hsteps
  obtain ⟨u, hu, huv⟩ := (Option.any_eq_true _ _).1 htu
  obtain ⟨v, hv, haddresses⟩ := (Option.any_eq_true _ _).1 huv
  have hrun : Runs.Reached (step ⟨1, 6000000000⟩) (fun _ _ => True) {} v :=
    ((Runs.Reached.start.step trivial ht).step trivial hu).step trivial hv
  have hnodup := (h _ _ hrun).nodup
  rw [of_decide_eq_true haddresses] at hnodup
  exact absurd hnodup (by decide)

end RoutingProtocol

end Ns3Pedca.Olsr
