import Ns3Pedca.Olsr.MprComputation

/-!
# An OLSR node

The handlers of `RoutingProtocol` for the messages HELLO, TC and MID and for the timers of the
tuples. A timer may expire at any time and for any tuple : its handler looks whether the tuple is
there and has expired, and does not change the sets otherwise. The sequence number ANSN comes with
the number of its increments, which the code does not have.
-/

namespace Ns3Pedca.Olsr

open OlsrState

/-- A link message of a HELLO. -/
structure LinkMessage where
  linkCode : UInt8
  neighborInterfaceAddresses : List Ipv4Address
  deriving DecidableEq

/-- A HELLO. -/
structure Hello where
  willingness : Willingness
  linkMessages : List LinkMessage
  deriving DecidableEq

/-- A TC. -/
structure Tc where
  ansn : UInt16
  neighborAddresses : List Ipv4Address
  deriving DecidableEq

/-- The fields of `MessageHeader` that the handlers read. -/
structure MessageHeader where
  originatorAddress : Ipv4Address
  vTime : ℤ
  deriving DecidableEq

/-- The address of a node, and `OLSR_NEIGHB_HOLD_TIME`. -/
structure OlsrParams where
  mainAddress : Ipv4Address
  neighbHoldTime : ℤ := 6000000000

/-- `RoutingProtocol`. -/
structure RoutingProtocol where
  state : OlsrState := {}
  ansn : UInt16 := 65535
  increments : ℕ := 0
  linkTupleTimerFirstTime : Bool := true
  deriving DecidableEq

namespace RoutingProtocol

variable (p : OlsrParams) (now : ℤ) (s : RoutingProtocol)

/-- `Seconds (1)`. -/
def second : ℤ := 1000000000

/-! ## Neighbors -/

/-- `IncrementAnsn`. -/
def incrementAnsn : RoutingProtocol :=
  { s with ansn := s.ansn + 1, increments := s.increments + 1 }

/-- `AddNeighborTuple`. -/
def addNeighborTuple (tuple : NeighborTuple) : RoutingProtocol :=
  incrementAnsn { s with state := s.state.insertNeighborTuple tuple }

/-- `LinkTupleAdded`. -/
def linkTupleAdded (tuple : LinkTuple) (willingness : Willingness) : RoutingProtocol :=
  s.addNeighborTuple ⟨s.state.getMainAddress tuple.neighborIfaceAddr,
    if tuple.symTime ≥ now then .sym else .notSym, willingness⟩

/-- A node has a symmetric link. -/
def hasSymmetricLink (mainAddr : Ipv4Address) : Bool :=
  s.state.linkSet.any fun t => s.state.getMainAddress t.neighborIfaceAddr = mainAddr ∧
    t.symTime ≥ now

/-- The status of a neighbor is that of its links. -/
def updateStatus (mainAddr : Ipv4Address) : RoutingProtocol :=
  let status := if s.hasSymmetricLink now mainAddr then .sym else .notSym
  { s with
    state := { s.state with
      neighborSet := modifyFirst (·.neighborMainAddr = mainAddr)
        (fun t => { t with status := status }) s.state.neighborSet } }

/-- `LinkTupleUpdated`. -/
def linkTupleUpdated (tuple : LinkTuple) (willingness : Willingness) : RoutingProtocol :=
  let mainAddr := s.state.getMainAddress tuple.neighborIfaceAddr
  if s.state.findNeighborTuple mainAddr = none then
    (s.linkTupleAdded now tuple willingness).updateStatus now mainAddr
  else s.updateStatus now mainAddr

/-- `MprComputation`, which has to end. -/
def mprComputation : Option RoutingProtocol :=
  (Olsr.mprComputation p.mainAddress s.state s.state.twoHopNeighborSet.length).map fun mprSet =>
    { s with state := { s.state with mprSet := mprSet } }

/-! ## HELLO -/

/-- `LinkSensing` for a link message, for the tuple of the link and whether it was updated. A link
type that is not specified ends the simulation. -/
def senseLink (receiverIface : Ipv4Address) (vTime : ℤ) (r : LinkTuple × Bool)
    (linkMessage : LinkMessage) : Option (LinkTuple × Bool) :=
  let linkType := linkMessage.linkCode &&& 3
  let neighborType := linkMessage.linkCode >>> 2 &&& 3
  if linkType = 2 ∧ neighborType = 0 ∨ neighborType ≠ 1 ∧ neighborType ≠ 2 ∧ neighborType ≠ 0 then
    some r
  else if receiverIface ∈ linkMessage.neighborInterfaceAddresses then
    if linkType = 3 then some ({ r.1 with symTime := now - second }, true)
    else if linkType = 2 ∨ linkType = 1 then
      some ({ r.1 with symTime := now + vTime, time := now + vTime + p.neighbHoldTime }, true)
    else none
  else some r

/-- `LinkSensing`. The validity time has to be positive. -/
def linkSensing (msg : MessageHeader) (hello : Hello) (receiverIface senderIface : Ipv4Address) :
    Option RoutingProtocol := do
  guard (0 < msg.vTime)
  let found := s.state.findLinkTuple senderIface
  let tuple := found.getD ⟨receiverIface, senderIface, now - second, 0, now + msg.vTime⟩
  let (tuple, updated) ← hello.linkMessages.foldlM (senseLink p now receiverIface msg.vTime)
    ({ tuple with asymTime := now + msg.vTime }, found.isSome)
  let tuple := { tuple with time := max tuple.time tuple.asymTime }
  let linkSet := if found.isSome then
      modifyFirst (·.neighborIfaceAddr = senderIface) (fun _ => tuple) s.state.linkSet
    else s.state.linkSet ++ [tuple]
  let s := { s with state := { s.state with linkSet := linkSet } }
  let s := if updated then s.linkTupleUpdated now tuple hello.willingness else s
  some (if found.isSome then s else s.linkTupleAdded now tuple hello.willingness)

/-- `PopulateNeighborSet`. -/
def populateNeighborSet (msg : MessageHeader) (hello : Hello) : RoutingProtocol :=
  { s with
    state := { s.state with
      neighborSet := modifyFirst (·.neighborMainAddr = msg.originatorAddress)
        (fun t => { t with willingness := hello.willingness }) s.state.neighborSet } }

/-- `PopulateTwoHopNeighborSet` for an address of a link message. -/
def populateTwoHop (msg : MessageHeader) (linkMessage : LinkMessage) (s : OlsrState)
    (ifaceAddr : Ipv4Address) : OlsrState :=
  let neighborType := linkMessage.linkCode >>> 2 &&& 3
  let nb2hopAddr := s.getMainAddress ifaceAddr
  if neighborType = 1 ∨ neighborType = 2 then
    if nb2hopAddr = p.mainAddress then s
    else if s.findTwoHopNeighborTuple msg.originatorAddress nb2hopAddr = none then
      { s with
        twoHopNeighborSet := s.twoHopNeighborSet ++
          [⟨msg.originatorAddress, nb2hopAddr, now + msg.vTime⟩] }
    else
      { s with
        twoHopNeighborSet := modifyFirst (fun t => t.neighborMainAddr = msg.originatorAddress ∧
            t.twoHopNeighborAddr = nb2hopAddr)
          (fun t => { t with expirationTime := now + msg.vTime }) s.twoHopNeighborSet }
  else if neighborType = 0 then s.eraseTwoHopNeighborTuples msg.originatorAddress nb2hopAddr
  else s

/-- `PopulateTwoHopNeighborSet` for a link. -/
def populateTwoHopOfLink (msg : MessageHeader) (hello : Hello) (s : OlsrState) (link : LinkTuple) :
    OlsrState :=
  if s.getMainAddress link.neighborIfaceAddr ≠ msg.originatorAddress ∨ link.symTime < now then s
  else hello.linkMessages.foldl (fun s linkMessage =>
    linkMessage.neighborInterfaceAddresses.foldl (populateTwoHop p now msg linkMessage) s) s

/-- `PopulateTwoHopNeighborSet`. -/
def populateTwoHopNeighborSet (msg : MessageHeader) (hello : Hello) : RoutingProtocol :=
  { s with
    state := s.state.linkSet.foldl (populateTwoHopOfLink p now msg hello) s.state }

/-- `AddMprSelectorTuple`. -/
def addMprSelectorTuple (tuple : MprSelectorTuple) : RoutingProtocol :=
  incrementAnsn { s with
    state := { s.state with mprSelectorSet := s.state.mprSelectorSet ++ [tuple] } }

/-- `PopulateMprSelectorSet` for an address of a link message. -/
def populateMprSelector (msg : MessageHeader) (s : RoutingProtocol) (ifaceAddr : Ipv4Address) :
    RoutingProtocol :=
  if s.state.getMainAddress ifaceAddr = p.mainAddress then
    if s.state.findMprSelectorTuple msg.originatorAddress = none then
      s.addMprSelectorTuple ⟨msg.originatorAddress, now + msg.vTime⟩
    else
      { s with
        state := { s.state with
          mprSelectorSet := modifyFirst (·.mainAddr = msg.originatorAddress)
            (fun t => { t with expirationTime := now + msg.vTime }) s.state.mprSelectorSet } }
  else s

/-- `PopulateMprSelectorSet`. -/
def populateMprSelectorSet (msg : MessageHeader) (hello : Hello) : RoutingProtocol :=
  hello.linkMessages.foldl (fun s (linkMessage : LinkMessage) =>
    if linkMessage.linkCode >>> 2 = 2 then
      linkMessage.neighborInterfaceAddresses.foldl (populateMprSelector p now msg) s
    else s) s

/-- `ProcessHello`. -/
def processHello (msg : MessageHeader) (hello : Hello) (receiverIface senderIface : Ipv4Address) :
    Option RoutingProtocol := do
  let s ← s.linkSensing p now msg hello receiverIface senderIface
  let s := s.populateNeighborSet msg hello
  let s := s.populateTwoHopNeighborSet p now msg hello
  let s ← s.mprComputation p
  some (s.populateMprSelectorSet p now msg hello)

/-! ## TC -/

/-- `ProcessTc` for an advertised neighbor. -/
def advertise (msg : MessageHeader) (tc : Tc) (s : OlsrState) (addr : Ipv4Address) : OlsrState :=
  if s.findTopologyTuple addr msg.originatorAddress = none then
    { s with
      topologySet := s.topologySet ++ [⟨addr, msg.originatorAddress, tc.ansn, now + msg.vTime⟩] }
  else
    { s with
      topologySet := modifyFirst (fun t => t.destAddr = addr ∧
          t.lastAddr = msg.originatorAddress)
        (fun t => { t with expirationTime := now + msg.vTime }) s.topologySet }

/-- `ProcessTc`. -/
def processTc (msg : MessageHeader) (tc : Tc) (senderIface : Ipv4Address) : RoutingProtocol :=
  if s.state.findSymLinkTuple senderIface now = none then s
  else if s.state.findNewerTopologyTuple msg.originatorAddress tc.ansn ≠ none then s
  else
    { s with
      state := tc.neighborAddresses.foldl (advertise now msg tc)
        (s.state.eraseOlderTopologyTuples msg.originatorAddress tc.ansn) }

/-! ## MID -/

/-- `ProcessMid` for an interface. -/
def associate (msg : MessageHeader) (s : OlsrState) (ifaceAddr : Ipv4Address) : OlsrState :=
  if s.ifaceAssocSet.any fun t => t.ifaceAddr = ifaceAddr ∧ t.mainAddr = msg.originatorAddress then
    { s with
      ifaceAssocSet := s.ifaceAssocSet.map fun t =>
        if t.ifaceAddr = ifaceAddr ∧ t.mainAddr = msg.originatorAddress then
          { t with time := now + msg.vTime }
        else t }
  else
    { s with
      ifaceAssocSet := s.ifaceAssocSet ++ [⟨ifaceAddr, msg.originatorAddress, now + msg.vTime⟩] }

/-- `ProcessMid`. -/
def processMid (msg : MessageHeader) (interfaceAddresses : List Ipv4Address)
    (senderIface : Ipv4Address) : RoutingProtocol :=
  if s.state.findSymLinkTuple senderIface now = none then s
  else
    let state := interfaceAddresses.foldl (associate now msg) s.state
    { s with
      state := { state with
        neighborSet := state.neighborSet.map fun t =>
          { t with neighborMainAddr := state.getMainAddress t.neighborMainAddr }
        twoHopNeighborSet := state.twoHopNeighborSet.map fun t =>
          { t with
            neighborMainAddr := state.getMainAddress t.neighborMainAddr
            twoHopNeighborAddr := state.getMainAddress t.twoHopNeighborAddr } } }

/-! ## Timers -/

/-- `NeighborLoss`. -/
def neighborLoss (tuple : LinkTuple) : Option RoutingProtocol :=
  let s := s.linkTupleUpdated now tuple .medium
  let mainAddr := s.state.getMainAddress tuple.neighborIfaceAddr
  let state := (s.state.eraseTwoHopNeighborTuplesOf mainAddr).eraseMprSelectorTuples mainAddr
  mprComputation p { s with state := state }

/-- `RemoveLinkTuple`. -/
def removeLinkTuple (tuple : LinkTuple) : RoutingProtocol :=
  { s with
    state := (s.state.eraseNeighborTuple
      (s.state.getMainAddress tuple.neighborIfaceAddr)).eraseLinkTuple tuple }

/-- `LinkTupleTimerExpire`. -/
def linkTupleTimerExpire (neighborIfaceAddr : Ipv4Address) : Option RoutingProtocol :=
  match s.state.findLinkTuple neighborIfaceAddr with
  | none => some s
  | some tuple =>
    if tuple.time < now then some (s.removeLinkTuple tuple)
    else if tuple.symTime < now then
      if s.linkTupleTimerFirstTime then some { s with linkTupleTimerFirstTime := false }
      else s.neighborLoss p now tuple
    else some s

/-- `Nb2hopTupleTimerExpire`. -/
def nb2hopTupleTimerExpire (neighborMainAddr twoHopNeighborAddr : Ipv4Address) : RoutingProtocol :=
  match s.state.findTwoHopNeighborTuple neighborMainAddr twoHopNeighborAddr with
  | none => s
  | some tuple =>
    if tuple.expirationTime < now then { s with state := s.state.eraseTwoHopNeighborTuple tuple }
    else s

/-- `MprSelTupleTimerExpire`, with `RemoveMprSelectorTuple`. -/
def mprSelTupleTimerExpire (mainAddr : Ipv4Address) : RoutingProtocol :=
  match s.state.findMprSelectorTuple mainAddr with
  | none => s
  | some tuple =>
    if tuple.expirationTime < now then
      incrementAnsn { s with state := s.state.eraseMprSelectorTuple tuple }
    else s

/-- `TopologyTupleTimerExpire`. -/
def topologyTupleTimerExpire (destAddr lastAddr : Ipv4Address) : RoutingProtocol :=
  match s.state.findTopologyTuple destAddr lastAddr with
  | none => s
  | some tuple =>
    if tuple.expirationTime < now then { s with state := s.state.eraseTopologyTuple tuple } else s

/-- `IfaceAssocTupleTimerExpire`. -/
def ifaceAssocTupleTimerExpire (ifaceAddr : Ipv4Address) : RoutingProtocol :=
  match s.state.findIfaceAssocTuple ifaceAddr with
  | none => s
  | some tuple =>
    if tuple.time < now then { s with state := s.state.eraseIfaceAssocTuple tuple } else s

/-- `SendTc`. -/
def sendTc : Tc :=
  ⟨s.ansn, s.state.mprSelectorSet.map (·.mainAddr)⟩

/-! ## Events -/

/-- A message is received, or a timer expires, at a time. -/
inductive Event
  | hello (now : ℤ) (msg : MessageHeader) (hello : Hello) (receiverIface senderIface : Ipv4Address)
  | tc (now : ℤ) (msg : MessageHeader) (tc : Tc) (senderIface : Ipv4Address)
  | mid (now : ℤ) (msg : MessageHeader) (interfaceAddresses : List Ipv4Address)
    (senderIface : Ipv4Address)
  | linkTuple (now : ℤ) (neighborIfaceAddr : Ipv4Address)
  | nb2hopTuple (now : ℤ) (neighborMainAddr twoHopNeighborAddr : Ipv4Address)
  | mprSelTuple (now : ℤ) (mainAddr : Ipv4Address)
  | topologyTuple (now : ℤ) (destAddr lastAddr : Ipv4Address)
  | ifaceAssocTuple (now : ℤ) (ifaceAddr : Ipv4Address)

/-- The node after an event. -/
def step : Event → Option RoutingProtocol
  | .hello now msg hello receiverIface senderIface =>
    s.processHello p now msg hello receiverIface senderIface
  | .tc now msg tc senderIface => some (s.processTc now msg tc senderIface)
  | .mid now msg interfaceAddresses senderIface =>
    some (s.processMid now msg interfaceAddresses senderIface)
  | .linkTuple now neighborIfaceAddr => s.linkTupleTimerExpire p now neighborIfaceAddr
  | .nb2hopTuple now neighborMainAddr twoHopNeighborAddr =>
    some (s.nb2hopTupleTimerExpire now neighborMainAddr twoHopNeighborAddr)
  | .mprSelTuple now mainAddr => some (s.mprSelTupleTimerExpire now mainAddr)
  | .topologyTuple now destAddr lastAddr => some (s.topologyTupleTimerExpire now destAddr lastAddr)
  | .ifaceAssocTuple now ifaceAddr => some (s.ifaceAssocTupleTimerExpire now ifaceAddr)

/-! ## What the handlers leave alone -/

variable {p now s} {t : RoutingProtocol}

theorem insertNeighborTuple_frame (s : OlsrState) (tuple : NeighborTuple) :
    ∃ l, s.insertNeighborTuple tuple = { s with neighborSet := l } := by
  rw [insertNeighborTuple]
  split_ifs
  · exact ⟨_, rfl⟩
  · exact ⟨_, rfl⟩

theorem linkTupleAdded_frame (now : ℤ) (tuple : LinkTuple) (willingness : Willingness) :
    ∃ l, (s.linkTupleAdded now tuple willingness).state = { s.state with neighborSet := l } :=
  insertNeighborTuple_frame s.state _

theorem linkTupleUpdated_frame (now : ℤ) (tuple : LinkTuple) (willingness : Willingness) :
    ∃ l, (s.linkTupleUpdated now tuple willingness).state = { s.state with neighborSet := l } := by
  rw [linkTupleUpdated]
  dsimp only
  split_ifs
  · obtain ⟨l, hl⟩ := linkTupleAdded_frame now tuple willingness
    rw [updateStatus, hl]
    exact ⟨_, rfl⟩
  · exact ⟨_, rfl⟩

/-- The tuple of a link as the link messages of a HELLO leave it, and whether it was updated. -/
def sensed (p : OlsrParams) (now : ℤ) (s : RoutingProtocol) (msg : MessageHeader) (hello : Hello)
    (receiverIface senderIface : Ipv4Address) : Option (LinkTuple × Bool) :=
  let found := s.state.findLinkTuple senderIface
  let tuple := found.getD ⟨receiverIface, senderIface, now - second, 0, now + msg.vTime⟩
  (hello.linkMessages.foldlM (senseLink p now receiverIface msg.vTime)
    ({ tuple with asymTime := now + msg.vTime }, found.isSome)).map fun r =>
      ({ r.1 with time := max r.1.time r.1.asymTime }, r.2)

/-- `LinkSensing` for a link that is known, and for a new one. -/
theorem linkSensing_cases {msg : MessageHeader} {hello : Hello}
    {receiverIface senderIface : Ipv4Address}
    (h : s.linkSensing p now msg hello receiverIface senderIface = some t) :
    0 < msg.vTime ∧ ∃ tuple updated,
      sensed p now s msg hello receiverIface senderIface = some (tuple, updated) ∧
      ∃ u, u = (if (s.state.findLinkTuple senderIface).isSome then
          { s with
            state := { s.state with
              linkSet := modifyFirst (·.neighborIfaceAddr = senderIface) (fun _ => tuple)
                s.state.linkSet } }
        else { s with state := { s.state with linkSet := s.state.linkSet ++ [tuple] } }) ∧
      ∃ v, v = (if updated then u.linkTupleUpdated now tuple hello.willingness else u) ∧
      t = if (s.state.findLinkTuple senderIface).isSome then v
        else v.linkTupleAdded now tuple hello.willingness := by
  obtain ⟨_, hguard, hrest⟩ := Option.bind_eq_some_iff.1 h
  obtain ⟨⟨tuple, updated⟩, hfold, heq⟩ := Option.bind_eq_some_iff.1 hrest
  refine ⟨(Option.guard_eq_some' _).1 hguard, { tuple with time := max tuple.time tuple.asymTime },
    updated, ?_, _, rfl, _, rfl, ?_⟩
  · rw [sensed]
    dsimp only
    rw [hfold]
    rfl
  · rw [← Option.some.inj heq]
    split_ifs <;> rfl

theorem linkSensing_frame {msg : MessageHeader} {hello : Hello}
    {receiverIface senderIface : Ipv4Address}
    (h : s.linkSensing p now msg hello receiverIface senderIface = some t) :
    ∃ l n, t.state = { s.state with linkSet := l, neighborSet := n } := by
  obtain ⟨-, tuple, updated, -, u, hu, v, hv, ht⟩ := linkSensing_cases h
  have hlinks : ∃ l, u.state = { s.state with linkSet := l } := by
    rw [hu]
    split_ifs <;> exact ⟨_, rfl⟩
  obtain ⟨l, hl⟩ := hlinks
  have hneighbors : ∃ n, v.state = { s.state with linkSet := l, neighborSet := n } := by
    rw [hv]
    split_ifs
    · obtain ⟨n, hn⟩ := linkTupleUpdated_frame now tuple hello.willingness
      exact ⟨n, by rw [hn, hl]⟩
    · exact ⟨s.state.neighborSet, hl⟩
  obtain ⟨n, hn⟩ := hneighbors
  rw [ht]
  split_ifs
  · exact ⟨l, n, hn⟩
  · obtain ⟨n', hn'⟩ := linkTupleAdded_frame now tuple hello.willingness
    exact ⟨l, n', by rw [hn', hn]⟩

theorem populateTwoHop_frame (msg : MessageHeader) (linkMessage : LinkMessage) (s : OlsrState)
    (a : Ipv4Address) :
    ∃ l, populateTwoHop p now msg linkMessage s a = { s with twoHopNeighborSet := l } := by
  rw [populateTwoHop]
  split_ifs
  · exact ⟨_, rfl⟩
  · exact ⟨_, rfl⟩
  · exact ⟨_, rfl⟩
  · exact ⟨_, rfl⟩
  · exact ⟨_, rfl⟩

/-- A loop changes no more than its body. -/
theorem foldl_frame {α β : Type*} {f : OlsrState → α → OlsrState} (set : OlsrState → β → OlsrState)
    (hset : ∀ s b c, set (set s b) c = set s c) (hrefl : ∀ s, ∃ b, s = set s b)
    (h : ∀ s a, ∃ b, f s a = set s b) (l : List α) (s : OlsrState) :
    ∃ b, l.foldl f s = set s b := by
  refine List.foldlRecOn (motive := fun u => ∃ b, u = set s b) l f (hrefl s) ?_
  rintro u ⟨b, rfl⟩ a _
  obtain ⟨c, hc⟩ := h (set s b) a
  exact ⟨c, hc.trans (hset s b c)⟩

theorem populateTwoHopNeighborSet_frame (msg : MessageHeader) (hello : Hello) :
    ∃ l, s.populateTwoHopNeighborSet p now msg hello =
      { s with state := { s.state with twoHopNeighborSet := l } } := by
  have hfold : ∀ {α : Type} (f : OlsrState → α → OlsrState),
      (∀ s a, ∃ l, f s a = { s with twoHopNeighborSet := l }) → ∀ (l : List α) (s : OlsrState),
      ∃ l', l.foldl f s = { s with twoHopNeighborSet := l' } := by
    intro α f hf l s
    exact foldl_frame (fun s l => { s with twoHopNeighborSet := l }) (fun _ _ _ => rfl)
      (fun _ => ⟨_, rfl⟩) hf l s
  have hlink : ∀ s link, ∃ l, populateTwoHopOfLink p now msg hello s link =
      { s with twoHopNeighborSet := l } := by
    intro s link
    rw [populateTwoHopOfLink]
    split_ifs
    · exact ⟨_, rfl⟩
    · refine hfold _ (fun s linkMessage => ?_) _ s
      exact hfold _ (populateTwoHop_frame msg linkMessage) _ s
  obtain ⟨l, hl⟩ := hfold _ hlink s.state.linkSet s.state
  rw [populateTwoHopNeighborSet, hl]
  exact ⟨l, rfl⟩

theorem mprComputation_frame (h : s.mprComputation p = some t) :
    ∃ mprSet, t = { s with state := { s.state with mprSet := mprSet } } := by
  obtain ⟨mprSet, -, rfl⟩ := Option.map_eq_some_iff.1 h
  exact ⟨mprSet, rfl⟩

theorem populateMprSelectorSet_frame (msg : MessageHeader) (hello : Hello) :
    ∃ l, (s.populateMprSelectorSet p now msg hello).state =
      { s.state with mprSelectorSet := l } := by
  have hone : ∀ u a, (∃ l, u.state = { s.state with mprSelectorSet := l }) →
      ∃ l, (populateMprSelector p now msg u a).state = { s.state with mprSelectorSet := l } := by
    rintro u a ⟨l, hl⟩
    rw [populateMprSelector]
    split_ifs
    · exact ⟨_, by rw [addMprSelectorTuple, incrementAnsn, hl]⟩
    · exact ⟨_, by rw [hl]⟩
    · exact ⟨l, hl⟩
  refine List.foldlRecOn (motive := fun u : RoutingProtocol =>
    ∃ l, u.state = { s.state with mprSelectorSet := l }) _ _ ⟨_, rfl⟩ ?_
  intro u hu linkMessage _
  split_ifs
  · refine List.foldlRecOn (motive := fun u : RoutingProtocol =>
      ∃ l, u.state = { s.state with mprSelectorSet := l }) _ _ hu ?_
    intro v hv a _
    exact hone v a hv
  · exact hu

end RoutingProtocol

end Ns3Pedca.Olsr
