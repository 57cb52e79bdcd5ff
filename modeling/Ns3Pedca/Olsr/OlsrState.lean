import Mathlib

/-!
# The state of an OLSR node

`OlsrState` holds the sets of tuples that a node keeps about its links, its neighbors, the nodes
behind them and the topology. The sets are vectors : they are searched from the front, and tuples
are added at the back. Times are in ns.
-/

namespace Ns3Pedca.Olsr

abbrev Ipv4Address := UInt32

/-- `Willingness`. Values above 7 are not excluded. -/
structure Willingness where
  value : UInt8
  deriving DecidableEq

namespace Willingness

def never : Willingness := ⟨0⟩

/-- `DEFAULT`. -/
def medium : Willingness := ⟨3⟩

def always : Willingness := ⟨7⟩

end Willingness

structure IfaceAssocTuple where
  ifaceAddr : Ipv4Address
  mainAddr : Ipv4Address
  time : ℤ
  deriving DecidableEq

structure LinkTuple where
  localIfaceAddr : Ipv4Address
  neighborIfaceAddr : Ipv4Address
  symTime : ℤ
  asymTime : ℤ
  time : ℤ
  deriving DecidableEq

/-- `NeighborTuple::Status`. -/
inductive NeighborStatus
  | notSym
  | sym
  deriving DecidableEq

structure NeighborTuple where
  neighborMainAddr : Ipv4Address
  status : NeighborStatus
  willingness : Willingness
  deriving DecidableEq

structure TwoHopNeighborTuple where
  neighborMainAddr : Ipv4Address
  twoHopNeighborAddr : Ipv4Address
  expirationTime : ℤ
  deriving DecidableEq

structure MprSelectorTuple where
  mainAddr : Ipv4Address
  expirationTime : ℤ
  deriving DecidableEq

structure TopologyTuple where
  destAddr : Ipv4Address
  lastAddr : Ipv4Address
  sequenceNumber : UInt16
  expirationTime : ℤ
  deriving DecidableEq

/-- `OlsrState`, without the duplicate tuples and the associations with networks. -/
structure OlsrState where
  linkSet : List LinkTuple := []
  neighborSet : List NeighborTuple := []
  twoHopNeighborSet : List TwoHopNeighborTuple := []
  topologySet : List TopologyTuple := []
  mprSet : Finset Ipv4Address := ∅
  mprSelectorSet : List MprSelectorTuple := []
  ifaceAssocSet : List IfaceAssocTuple := []
  deriving DecidableEq

theorem mem_of_find? {α : Type*} {p : α → Prop} [DecidablePred p] {l : List α} {a : α}
    (h : l.find? (fun x => decide (p x)) = some a) : a ∈ l ∧ p a :=
  ⟨List.mem_of_find?_eq_some h, of_decide_eq_true (List.find?_some (p := fun x => decide (p x)) h)⟩

/-- The first element with a property is changed in place. -/
def modifyFirst {α : Type*} (p : α → Bool) (f : α → α) : List α → List α
  | [] => []
  | a :: l => if p a then f a :: l else a :: modifyFirst p f l

theorem map_modifyFirst {α β : Type*} {p : α → Bool} {f : α → α} {g : α → β}
    (h : ∀ a, p a = true → g (f a) = g a) (l : List α) : (modifyFirst p f l).map g = l.map g := by
  induction l with
  | nil => rfl
  | cons a l ih =>
    rw [modifyFirst]
    split_ifs with ha
    · rw [List.map_cons, List.map_cons, h a ha]
    · rw [List.map_cons, List.map_cons, ih]

/-- The only element with a key is the one that is changed. -/
theorem mem_modifyFirst_of_nodup {α κ : Type*} [DecidableEq κ] {key : α → κ} {k : κ} {f : α → α}
    {l : List α} {b : α} (hl : (l.map key).Nodup) (hb : b ∈ modifyFirst (key · = k) f l)
    (hk : key b = k) : ∃ a ∈ l, key a = k ∧ b = f a := by
  induction l with
  | nil => cases hb
  | cons a l ih =>
    rw [List.map_cons, List.nodup_cons] at hl
    rw [modifyFirst] at hb
    split_ifs at hb with ha
    · have hak : key a = k := of_decide_eq_true ha
      rcases List.mem_cons.1 hb with rfl | hmem
      · exact ⟨a, List.mem_cons_self, hak, rfl⟩
      · exact absurd (List.mem_map.2 ⟨b, hmem, hk.trans hak.symm⟩) hl.1
    · rcases List.mem_cons.1 hb with rfl | hmem
      · exact absurd (decide_eq_true hk) ha
      · obtain ⟨a', ha', hk', heq⟩ := ih hl.2 hmem
        exact ⟨a', List.mem_cons_of_mem a ha', hk', heq⟩

namespace OlsrState

variable (s : OlsrState)

/-! ## Neighbors and links -/

/-- `FindNeighborTuple`. -/
def findNeighborTuple (mainAddr : Ipv4Address) : Option NeighborTuple :=
  s.neighborSet.find? (·.neighborMainAddr = mainAddr)

/-- `FindSymNeighborTuple`. -/
def findSymNeighborTuple (mainAddr : Ipv4Address) : Option NeighborTuple :=
  s.neighborSet.find? fun t => t.neighborMainAddr = mainAddr ∧ t.status = .sym

/-- `EraseNeighborTuple`, for an address. -/
def eraseNeighborTuple (mainAddr : Ipv4Address) : OlsrState :=
  { s with neighborSet := s.neighborSet.eraseP (·.neighborMainAddr = mainAddr) }

/-- `InsertNeighborTuple`. The first tuple with the address is replaced, or one is added. -/
def insertNeighborTuple (tuple : NeighborTuple) : OlsrState :=
  if s.neighborSet.any (·.neighborMainAddr = tuple.neighborMainAddr) then
    { s with
      neighborSet := modifyFirst (·.neighborMainAddr = tuple.neighborMainAddr) (fun _ => tuple)
        s.neighborSet }
  else { s with neighborSet := s.neighborSet ++ [tuple] }

/-- `FindLinkTuple`. -/
def findLinkTuple (ifaceAddr : Ipv4Address) : Option LinkTuple :=
  s.linkSet.find? (·.neighborIfaceAddr = ifaceAddr)

/-- `FindSymLinkTuple`. Only the first tuple of the interface is looked at. -/
def findSymLinkTuple (ifaceAddr : Ipv4Address) (now : ℤ) : Option LinkTuple :=
  (s.findLinkTuple ifaceAddr).filter (·.symTime > now)

/-- `EraseLinkTuple`. Two tuples are equal if their addresses are. -/
def eraseLinkTuple (tuple : LinkTuple) : OlsrState :=
  { s with
    linkSet := s.linkSet.eraseP fun t => t.localIfaceAddr = tuple.localIfaceAddr ∧
      t.neighborIfaceAddr = tuple.neighborIfaceAddr }

/-! ## 2-hop neighbors and selectors -/

/-- `FindTwoHopNeighborTuple`. -/
def findTwoHopNeighborTuple (neighborMainAddr twoHopNeighborAddr : Ipv4Address) :
    Option TwoHopNeighborTuple :=
  s.twoHopNeighborSet.find? fun t => t.neighborMainAddr = neighborMainAddr ∧
    t.twoHopNeighborAddr = twoHopNeighborAddr

/-- `EraseTwoHopNeighborTuple`. Two tuples are equal if their addresses are. -/
def eraseTwoHopNeighborTuple (tuple : TwoHopNeighborTuple) : OlsrState :=
  { s with
    twoHopNeighborSet := s.twoHopNeighborSet.eraseP fun t =>
      t.neighborMainAddr = tuple.neighborMainAddr ∧
        t.twoHopNeighborAddr = tuple.twoHopNeighborAddr }

/-- `EraseTwoHopNeighborTuples`, for a neighbor and a node behind it. -/
def eraseTwoHopNeighborTuples (neighborMainAddr twoHopNeighborAddr : Ipv4Address) : OlsrState :=
  { s with
    twoHopNeighborSet := s.twoHopNeighborSet.filter fun t =>
      ¬(t.neighborMainAddr = neighborMainAddr ∧ t.twoHopNeighborAddr = twoHopNeighborAddr) }

/-- `EraseTwoHopNeighborTuples`, for a neighbor. -/
def eraseTwoHopNeighborTuplesOf (neighborMainAddr : Ipv4Address) : OlsrState :=
  { s with
    twoHopNeighborSet := s.twoHopNeighborSet.filter (·.neighborMainAddr ≠ neighborMainAddr) }

/-- `FindMprSelectorTuple`. -/
def findMprSelectorTuple (mainAddr : Ipv4Address) : Option MprSelectorTuple :=
  s.mprSelectorSet.find? (·.mainAddr = mainAddr)

/-- `EraseMprSelectorTuple`. Two tuples are equal if their addresses are. -/
def eraseMprSelectorTuple (tuple : MprSelectorTuple) : OlsrState :=
  { s with mprSelectorSet := s.mprSelectorSet.eraseP (·.mainAddr = tuple.mainAddr) }

/-- `EraseMprSelectorTuples`. -/
def eraseMprSelectorTuples (mainAddr : Ipv4Address) : OlsrState :=
  { s with mprSelectorSet := s.mprSelectorSet.filter (·.mainAddr ≠ mainAddr) }

/-! ## Topology -/

/-- `FindTopologyTuple`. -/
def findTopologyTuple (destAddr lastAddr : Ipv4Address) : Option TopologyTuple :=
  s.topologySet.find? fun t => t.destAddr = destAddr ∧ t.lastAddr = lastAddr

/-- `FindNewerTopologyTuple`. Sequence numbers are compared as numbers. -/
def findNewerTopologyTuple (lastAddr : Ipv4Address) (ansn : UInt16) : Option TopologyTuple :=
  s.topologySet.find? fun t => t.lastAddr = lastAddr ∧ t.sequenceNumber > ansn

/-- `EraseTopologyTuple`. -/
def eraseTopologyTuple (tuple : TopologyTuple) : OlsrState :=
  { s with
    topologySet := s.topologySet.eraseP fun t => t.destAddr = tuple.destAddr ∧
      t.lastAddr = tuple.lastAddr ∧ t.sequenceNumber = tuple.sequenceNumber }

/-- `EraseOlderTopologyTuples`. -/
def eraseOlderTopologyTuples (lastAddr : Ipv4Address) (ansn : UInt16) : OlsrState :=
  { s with
    topologySet := s.topologySet.filter fun t =>
      ¬(t.lastAddr = lastAddr ∧ t.sequenceNumber < ansn) }

/-! ## Interface associations -/

/-- `FindIfaceAssocTuple`. -/
def findIfaceAssocTuple (ifaceAddr : Ipv4Address) : Option IfaceAssocTuple :=
  s.ifaceAssocSet.find? (·.ifaceAddr = ifaceAddr)

/-- `EraseIfaceAssocTuple`. Two tuples are equal if their addresses are. -/
def eraseIfaceAssocTuple (tuple : IfaceAssocTuple) : OlsrState :=
  { s with
    ifaceAssocSet := s.ifaceAssocSet.eraseP fun t => t.ifaceAddr = tuple.ifaceAddr ∧
      t.mainAddr = tuple.mainAddr }

/-- `GetMainAddress`. -/
def getMainAddress (ifaceAddr : Ipv4Address) : Ipv4Address :=
  match s.findIfaceAssocTuple ifaceAddr with
  | some tuple => tuple.mainAddr
  | none => ifaceAddr

end OlsrState

end Ns3Pedca.Olsr
