import Mathlib

/-!
# Endpoints

`Ipv4EndPointDemux` keeps the endpoints of the sockets. `Allocate` refuses an endpoint like one
that is there, and `Lookup` looks for those that a packet is for, and aborts if it finds more than
one of the most specific ones.

An endpoint without a device is refused behind one without a device only, so that it can stand
next to one with a device. If no step of a run does that (`Distinct`), endpoints with the same
addresses and ports have devices of their own, and a lookup finds what it should if no two of the
local addresses that are not the destination stand for it (`demultiplexed_iff`). Endpoints that
are not apart make some lookup abort (`exists_not_demultiplexed`).
-/

namespace Ns3Pedca

/-- `Ipv4EndPoint`, with a number for its address in the memory. A device is a number, too. -/
structure Ipv4EndPoint where
  ptr : ℕ
  localAddr : UInt32
  localPort : UInt16
  peerAddr : UInt32 := 0
  peerPort : UInt16 := 0
  boundNetDevice : Option ℕ := none
  rxEnabled : Bool := true
  deriving DecidableEq

/-- `Ipv4Interface` : its device, and its addresses with their masks. -/
structure Ipv4Interface where
  device : ℕ
  addresses : List (UInt32 × UInt32)

/-- The addresses and ports of a packet. -/
structure FourTuple where
  daddr : UInt32
  dport : UInt16
  saddr : UInt32
  sport : UInt16

/-- `Ipv4EndPointDemux`, with the number of the next endpoint. -/
structure Ipv4EndPointDemux where
  endPoints : List Ipv4EndPoint := []
  ephemeral : UInt16 := 49152
  portLast : UInt16 := 65535
  portFirst : UInt16 := 49152
  next : ℕ := 0

/-! ## Matching -/

namespace Ipv4EndPoint

/-- `Ipv4Address::GetAny`. -/
abbrev any : UInt32 := 0

/-- How an endpoint matches a packet. -/
structure Match where
  localExact : Bool
  localWildCard : Bool
  remoteExact : Bool
  remoteWildCard : Bool

/-- The part of a round of `Lookup` that looks at the endpoint. It is `none` for an endpoint that
is skipped. -/
def examine (endP : Ipv4EndPoint) (p : FourTuple) (incoming : Ipv4Interface) : Option Match :=
  if !endP.rxEnabled then none
  else if endP.localPort ≠ p.dport then none
  else if endP.boundNetDevice ≠ none ∧ endP.boundNetDevice ≠ some incoming.device then none
  else
    let localAddressMatchesExact : Bool := endP.localAddr = p.daddr
    let localAddressIsAny : Bool := !localAddressMatchesExact && endP.localAddr = any
    let localAddressIsSubnetAny : Bool := !localAddressMatchesExact && !localAddressIsAny &&
      incoming.addresses.any fun addr => endP.localAddr = addr.1 &&& addr.2 &&
        addr.1 &&& addr.2 = p.daddr &&& addr.2
    if !localAddressMatchesExact && !localAddressIsAny && !localAddressIsSubnetAny then none
    else
      let remotePortMatchesExact : Bool := endP.peerPort = p.sport
      let remotePortMatchesWildCard : Bool := endP.peerPort = 0
      let remoteAddressMatchesExact : Bool := endP.peerAddr = p.saddr
      let remoteAddressMatchesWildCard : Bool := endP.peerAddr = any
      if !(remotePortMatchesExact || remotePortMatchesWildCard) then none
      else if !(remoteAddressMatchesExact || remoteAddressMatchesWildCard) then none
      else some {
        localExact := localAddressMatchesExact
        localWildCard := localAddressIsAny || localAddressIsSubnetAny
        remoteExact := remoteAddressMatchesExact && remotePortMatchesExact
        remoteWildCard := remoteAddressMatchesWildCard && remotePortMatchesWildCard }

end Ipv4EndPoint

namespace Ipv4EndPointDemux

open Ipv4EndPoint

/-- The endpoints that are put into one of the four lists of `Lookup`. -/
def matching (d : Ipv4EndPointDemux) (p : FourTuple) (incoming : Ipv4Interface)
    (push : Match → Bool) : List Ipv4EndPoint :=
  d.endPoints.filter fun endP => (endP.examine p incoming).any push

/-- `Lookup`. It is `none` if the program aborts. -/
def lookup (d : Ipv4EndPointDemux) (p : FourTuple) (incoming : Ipv4Interface) :
    Option (List Ipv4EndPoint) :=
  let retval4 := d.matching p incoming fun m => m.localExact && m.remoteExact
  let retval3 := d.matching p incoming fun m => m.localWildCard && m.remoteExact
  let retval2 := d.matching p incoming fun m => m.localExact && m.remoteWildCard
  let retval1 := d.matching p incoming fun m => m.localWildCard && m.remoteWildCard
  let retval :=
    if !retval4.isEmpty then retval4
    else if !retval3.isEmpty then retval3
    else if !retval2.isEmpty then retval2
    else retval1
  if retval.length > 1 then none else some retval

/-! ## Allocation -/

/-- `LookupPortLocal`. -/
def lookupPortLocal (d : Ipv4EndPointDemux) (port : UInt16) : Bool :=
  d.endPoints.any fun i => i.localPort = port

/-- `LookupLocal`. -/
def lookupLocal (d : Ipv4EndPointDemux) (boundNetDevice : Option ℕ) (addr : UInt32)
    (port : UInt16) : Bool :=
  d.endPoints.any fun i =>
    i.localPort = port && i.localAddr = addr && i.boundNetDevice = boundNetDevice

/-- The loop of `AllocateEphemeralPort`, with the number of its rounds. -/
def searchPort (d : Ipv4EndPointDemux) : ℕ → UInt16 → Option UInt16
  | 0, _ => none
  | count + 1, port =>
    let port := port + 1
    let port := if port < d.portFirst ∨ port > d.portLast then d.portFirst else port
    if d.lookupPortLocal port then searchPort d count port else some port

/-- `AllocateEphemeralPort`. The port is 0 if there is none left. -/
def allocateEphemeralPort (d : Ipv4EndPointDemux) : UInt16 × Ipv4EndPointDemux :=
  match d.searchPort (d.portLast.toNat + 1 - d.portFirst.toNat) d.ephemeral with
  | none => (0, d)
  | some port => (port, { d with ephemeral := port })

/-- A new endpoint at the end of the list. -/
def add (d : Ipv4EndPointDemux) (localAddress : UInt32) (localPort : UInt16)
    (peerAddress : UInt32) (peerPort : UInt16) : Ipv4EndPoint × Ipv4EndPointDemux :=
  let endPoint : Ipv4EndPoint :=
    ⟨d.next, localAddress, localPort, peerAddress, peerPort, none, true⟩
  (endPoint, { d with endPoints := d.endPoints ++ [endPoint], next := d.next + 1 })

/-- What an `Allocate` does that has no endpoint for `nullptr`. -/
abbrev Allocated :=
  Option Ipv4EndPoint × Ipv4EndPointDemux

/-- `Allocate(address)`. -/
def allocateAddress (d : Ipv4EndPointDemux) (address : UInt32) : Allocated :=
  let (port, d) := d.allocateEphemeralPort
  if port = 0 then (none, d)
  else
    let (endPoint, d) := d.add address port any 0
    (some endPoint, d)

/-- `Allocate()`. -/
def allocate (d : Ipv4EndPointDemux) : Allocated :=
  d.allocateAddress any

/-- `Allocate(boundNetDevice, address, port)`. -/
def allocateLocal (d : Ipv4EndPointDemux) (boundNetDevice : Option ℕ) (address : UInt32)
    (port : UInt16) : Allocated :=
  if d.lookupLocal boundNetDevice address port || d.lookupLocal none address port then (none, d)
  else
    let (endPoint, d) := d.add address port any 0
    (some endPoint, d)

/-- `Allocate(boundNetDevice, port)`. -/
def allocatePort (d : Ipv4EndPointDemux) (boundNetDevice : Option ℕ) (port : UInt16) : Allocated :=
  d.allocateLocal boundNetDevice any port

/-- `Allocate(boundNetDevice, localAddress, localPort, peerAddress, peerPort)`. -/
def allocatePeer (d : Ipv4EndPointDemux) (boundNetDevice : Option ℕ) (localAddress : UInt32)
    (localPort : UInt16) (peerAddress : UInt32) (peerPort : UInt16) : Allocated :=
  if d.endPoints.any fun i => i.localPort = localPort && i.localAddr = localAddress &&
      i.peerPort = peerPort && i.peerAddr = peerAddress &&
      (i.boundNetDevice = boundNetDevice || i.boundNetDevice = none) then (none, d)
  else
    let (endPoint, d) := d.add localAddress localPort peerAddress peerPort
    (some endPoint, d)

/-- A change of the endpoint at `ptr`. -/
def modify (d : Ipv4EndPointDemux) (ptr : ℕ) (f : Ipv4EndPoint → Ipv4EndPoint) :
    Ipv4EndPointDemux :=
  { d with endPoints := d.endPoints.map fun i => if i.ptr = ptr then f i else i }

/-- `BindToNetDevice`. -/
def bindToNetDevice (d : Ipv4EndPointDemux) (ptr : ℕ) (netdevice : Option ℕ) : Ipv4EndPointDemux :=
  d.modify ptr fun i => { i with boundNetDevice := netdevice }

/-- `SetPeer`. -/
def setPeer (d : Ipv4EndPointDemux) (ptr : ℕ) (address : UInt32) (port : UInt16) :
    Ipv4EndPointDemux :=
  d.modify ptr fun i => { i with peerAddr := address, peerPort := port }

/-- `SetRxEnabled`. -/
def setRxEnabled (d : Ipv4EndPointDemux) (ptr : ℕ) (enabled : Bool) : Ipv4EndPointDemux :=
  d.modify ptr fun i => { i with rxEnabled := enabled }

/-- `DeAllocate`. -/
def deAllocate (d : Ipv4EndPointDemux) (ptr : ℕ) : Ipv4EndPointDemux :=
  { d with endPoints := d.endPoints.eraseP fun i => i.ptr = ptr }

/-! ## Runs -/

/-- What the sockets do. `device` is the one that a socket is bound to. -/
inductive Step
  | allocate (device : Option ℕ)
  | allocateAddress (device : Option ℕ) (address : UInt32)
  | allocatePort (device : Option ℕ) (port : UInt16)
  | allocateLocal (device : Option ℕ) (address : UInt32) (port : UInt16)
  | allocatePeer (device : Option ℕ) (localAddress : UInt32) (localPort : UInt16)
      (peerAddress : UInt32) (peerPort : UInt16)
  | setPeer (ptr : ℕ) (address : UInt32) (port : UInt16)
  | setRxEnabled (ptr : ℕ) (enabled : Bool)
  | deAllocate (ptr : ℕ)

/-- An endpoint that was allocated is bound to the device. -/
def bind (device : Option ℕ) : Allocated → Ipv4EndPointDemux
  | (none, d) => d
  | (some endPoint, d) => d.bindToNetDevice endPoint.ptr device

/-- The endpoints after a step. -/
def step (d : Ipv4EndPointDemux) : Step → Ipv4EndPointDemux
  | .allocate device => bind device d.allocate
  | .allocateAddress device address => bind device (d.allocateAddress address)
  | .allocatePort device port => bind device (d.allocatePort device port)
  | .allocateLocal device address port => bind device (d.allocateLocal device address port)
  | .allocatePeer device localAddress localPort peerAddress peerPort =>
    bind device (d.allocatePeer device localAddress localPort peerAddress peerPort)
  | .setPeer ptr address port => d.setPeer ptr address port
  | .setRxEnabled ptr enabled => d.setRxEnabled ptr enabled
  | .deAllocate ptr => d.deAllocate ptr

/-- The endpoints after a run. -/
def run (d : Ipv4EndPointDemux) (steps : List Step) : Ipv4EndPointDemux :=
  steps.foldl step d

/-! ## What a lookup should find -/

/-- A packet is for an endpoint, apart from the addresses and the port of the other side. -/
structure Reaches (endP : Ipv4EndPoint) (p : FourTuple) (incoming : Ipv4Interface) : Prop where
  rxEnabled : endP.rxEnabled = true
  port : endP.localPort = p.dport
  device : endP.boundNetDevice = none ∨ endP.boundNetDevice = some incoming.device

/-- A local address stands for the destination : it is any address, or the address of a network of
the interface to which the destination belongs. -/
def StandsFor (address : UInt32) (p : FourTuple) (incoming : Ipv4Interface) : Prop :=
  address ≠ p.daddr ∧ (address = any ∨ ∃ addr ∈ incoming.addresses,
    address = addr.1 &&& addr.2 ∧ addr.1 &&& addr.2 = p.daddr &&& addr.2)

/-- The ways in which an endpoint can match, the most specific one first. -/
inductive Specificity
  | all
  | allButLocal
  | localOnly
  | portOnly

/-- What precedes a way to match. -/
def Specificity.rank : Specificity → ℕ
  | all => 0
  | allButLocal => 1
  | localOnly => 2
  | portOnly => 3

theorem Specificity.rank_injective : Function.Injective Specificity.rank := by
  intro a b h
  cases a <;> cases b <;> first | rfl | exact absurd h (by decide)

/-- An endpoint matches in a way. -/
def Matches (p : FourTuple) (incoming : Ipv4Interface) (way : Specificity)
    (endP : Ipv4EndPoint) : Prop :=
  Reaches endP p incoming ∧
    match way with
    | .all => endP.localAddr = p.daddr ∧ endP.peerAddr = p.saddr ∧ endP.peerPort = p.sport
    | .allButLocal => StandsFor endP.localAddr p incoming ∧ endP.peerAddr = p.saddr ∧
        endP.peerPort = p.sport
    | .localOnly => endP.localAddr = p.daddr ∧ endP.peerAddr = any ∧ endP.peerPort = 0
    | .portOnly => StandsFor endP.localAddr p incoming ∧ endP.peerAddr = any ∧ endP.peerPort = 0

/-- No endpoint matches in a more specific way. -/
def Best (d : Ipv4EndPointDemux) (p : FourTuple) (incoming : Ipv4Interface)
    (way : Specificity) : Prop :=
  ∀ better, better.rank < way.rank → ∀ endP ∈ d.endPoints, ¬ Matches p incoming better endP

/-- `Lookup` does not abort, and finds one of the most specific endpoints if there is any. -/
def Demultiplexed (d : Ipv4EndPointDemux) (p : FourTuple) (incoming : Ipv4Interface) : Prop :=
  ∃ found, d.lookup p incoming = some found ∧ found.length ≤ 1 ∧
    (∀ endP ∈ found, endP ∈ d.endPoints ∧
      ∃ way, Matches p incoming way endP ∧ d.Best p incoming way) ∧
    (found = [] → ∀ way, ∀ endP ∈ d.endPoints, ¬ Matches p incoming way endP)

/-- The local addresses that stand for the destination are the same one, as far as the lookup comes
to them. -/
def OneLocal (d : Ipv4EndPointDemux) (p : FourTuple) (incoming : Ipv4Interface) : Prop :=
  ∀ way, way = .allButLocal ∨ way = .portOnly → d.Best p incoming way →
    ∀ a ∈ d.endPoints, ∀ b ∈ d.endPoints, Matches p incoming way a → Matches p incoming way b →
      a.localAddr = b.localAddr

/-- Two endpoints have different addresses or ports, or are bound to different devices. -/
def Apart (a b : Ipv4EndPoint) : Prop :=
  a.localAddr = b.localAddr → a.localPort = b.localPort → a.peerAddr = b.peerAddr →
    a.peerPort = b.peerPort → a.boundNetDevice ≠ none ∧ b.boundNetDevice ≠ none ∧
      a.boundNetDevice ≠ b.boundNetDevice

/-- A socket without a device gets no endpoint whose addresses and ports one with a device has, and
`SetPeer` makes no endpoint like another one. -/
def Distinct (d : Ipv4EndPointDemux) : Step → Prop
  | .allocate _ => True
  | .allocateAddress _ _ => True
  | .allocatePort device port => device = none → ∀ i ∈ d.endPoints, i.localAddr = any →
      i.localPort = port → i.peerAddr = any → i.peerPort = 0 → i.boundNetDevice = none
  | .allocateLocal device address port => device = none → ∀ i ∈ d.endPoints,
      i.localAddr = address → i.localPort = port → i.peerAddr = any → i.peerPort = 0 →
        i.boundNetDevice = none
  | .allocatePeer device localAddress localPort peerAddress peerPort => device = none →
      ∀ i ∈ d.endPoints, i.localAddr = localAddress → i.localPort = localPort →
        i.peerAddr = peerAddress → i.peerPort = peerPort → i.boundNetDevice = none
  | .setPeer ptr address port => ∀ a ∈ d.endPoints, a.ptr = ptr → ∀ b ∈ d.endPoints, b.ptr ≠ ptr →
      Apart { a with peerAddr := address, peerPort := port } b
  | .setRxEnabled _ _ => True
  | .deAllocate _ => True

/-- Every step of a run is like that. -/
def DistinctRun : Ipv4EndPointDemux → List Step → Prop
  | _, [] => True
  | d, a :: steps => d.Distinct a ∧ DistinctRun (d.step a) steps

/-! ## Matching endpoints -/

variable {d : Ipv4EndPointDemux} {p : FourTuple} {incoming : Ipv4Interface} {endP : Ipv4EndPoint}

instance : Decidable (StandsFor endP.localAddr p incoming) :=
  inferInstanceAs (Decidable (_ ∧ (_ ∨ ∃ addr ∈ incoming.addresses, _ ∧ _)))

/-- The wildcards of the local address. -/
theorem standsFor_eq : ((!decide (endP.localAddr = p.daddr) && decide (endP.localAddr = any)) ||
    (!decide (endP.localAddr = p.daddr) &&
      !(!decide (endP.localAddr = p.daddr) && decide (endP.localAddr = any)) &&
      incoming.addresses.any fun addr => decide (endP.localAddr = addr.1 &&& addr.2) &&
        decide (addr.1 &&& addr.2 = p.daddr &&& addr.2))) =
    decide (StandsFor endP.localAddr p incoming) := by
  rw [Bool.eq_iff_iff, decide_eq_true_iff, StandsFor]
  by_cases hexact : endP.localAddr = p.daddr
  · simp [hexact]
  · by_cases hany : endP.localAddr = any
    · simp [hany]
    · simp [hexact, hany]

/-- An endpoint is not skipped if the packet can be for it. -/
theorem any_examine (push : Match → Bool) : (endP.examine p incoming).any push = true ↔
    Reaches endP p incoming ∧ (endP.localAddr = p.daddr ∨ StandsFor endP.localAddr p incoming) ∧
      (endP.peerPort = p.sport ∨ endP.peerPort = 0) ∧
      (endP.peerAddr = p.saddr ∨ endP.peerAddr = any) ∧
      push {
        localExact := endP.localAddr = p.daddr
        localWildCard := StandsFor endP.localAddr p incoming
        remoteExact := endP.peerAddr = p.saddr && endP.peerPort = p.sport
        remoteWildCard := endP.peerAddr = any && endP.peerPort = 0 } = true := by
  have hskip : ∀ x y z : Bool, (!x && !y && !z) = !(x || (y || z)) := by decide
  have hnor : ∀ {P Q : Prop} [Decidable P] [Decidable Q],
      (!(decide P || decide Q)) = true ↔ ¬ (P ∨ Q) := by
    intro P Q _ _
    rw [Bool.not_eq_true', ← Bool.not_eq_true, Bool.or_eq_true, decide_eq_true_iff,
      decide_eq_true_iff]
  rw [examine]
  by_cases hrx : endP.rxEnabled = true
  swap
  · rw [if_pos (by simpa using hrx)]
    exact iff_of_false Bool.false_ne_true fun h => hrx h.1.rxEnabled
  rw [if_neg (by simpa using hrx)]
  by_cases hport : endP.localPort = p.dport
  swap
  · rw [if_pos hport]
    exact iff_of_false Bool.false_ne_true fun h => hport h.1.port
  rw [if_neg (not_not.2 hport)]
  by_cases hdevice : endP.boundNetDevice = none ∨ endP.boundNetDevice = some incoming.device
  swap
  · rw [if_pos (not_or.1 hdevice)]
    exact iff_of_false Bool.false_ne_true fun h => hdevice h.1.device
  rw [if_neg fun h => not_or.2 h hdevice, and_iff_right ⟨hrx, hport, hdevice⟩]
  dsimp only
  rw [hskip, standsFor_eq]
  by_cases hlocal : endP.localAddr = p.daddr ∨ StandsFor endP.localAddr p incoming
  swap
  · rw [if_pos (hnor.2 hlocal)]
    exact iff_of_false Bool.false_ne_true fun h => hlocal h.1
  rw [if_neg fun h => hnor.1 h hlocal, and_iff_right hlocal]
  by_cases hsport : endP.peerPort = p.sport ∨ endP.peerPort = 0
  swap
  · rw [if_pos (hnor.2 hsport)]
    exact iff_of_false Bool.false_ne_true fun h => hsport h.1
  rw [if_neg fun h => hnor.1 h hsport, and_iff_right hsport]
  by_cases hsaddr : endP.peerAddr = p.saddr ∨ endP.peerAddr = any
  swap
  · rw [if_pos (hnor.2 hsaddr)]
    exact iff_of_false Bool.false_ne_true fun h => hsaddr h.1
  rw [if_neg fun h => hnor.1 h hsaddr, and_iff_right hsaddr, Option.any_some]

/-- The list of `Lookup` for a way to match. -/
def pushed : Specificity → Match → Bool
  | .all, m => m.localExact && m.remoteExact
  | .allButLocal, m => m.localWildCard && m.remoteExact
  | .localOnly, m => m.localExact && m.remoteWildCard
  | .portOnly, m => m.localWildCard && m.remoteWildCard

/-- It holds the endpoints that match in that way. -/
theorem mem_matching (way : Specificity) : endP ∈ d.matching p incoming (pushed way) ↔
    endP ∈ d.endPoints ∧ Matches p incoming way endP := by
  rw [matching, List.mem_filter, any_examine]
  refine and_congr_right fun _ => ?_
  cases way with
  | all =>
    simp only [pushed, Matches, Bool.and_eq_true, decide_eq_true_iff]
    tauto
  | allButLocal =>
    simp only [pushed, Matches, Bool.and_eq_true, decide_eq_true_iff]
    tauto
  | localOnly =>
    simp only [pushed, Matches, Bool.and_eq_true, decide_eq_true_iff]
    tauto
  | portOnly =>
    simp only [pushed, Matches, Bool.and_eq_true, decide_eq_true_iff]
    tauto

/-! ## The invariant -/

theorem Apart.symm {a b : Ipv4EndPoint} (h : Apart a b) : Apart b a := by
  intro haddr hport hpeer hpeerPort
  obtain ⟨ha, hb, hne⟩ := h haddr.symm hport.symm hpeer.symm hpeerPort.symm
  exact ⟨hb, ha, hne.symm⟩

/-- The endpoints are apart from each other. -/
structure Inv (d : Ipv4EndPointDemux) : Prop where
  fresh : ∀ i ∈ d.endPoints, i.ptr < d.next
  ptrs : (d.endPoints.map (·.ptr)).Nodup
  apart : ∀ a ∈ d.endPoints, ∀ b ∈ d.endPoints, a.ptr ≠ b.ptr → Apart a b

variable {device : Option ℕ} {localAddr peerAddr : UInt32} {localPort peerPort : UInt16}

/-- An endpoint is added that is apart from the others as soon as it is bound. -/
theorem Inv.add (h : d.Inv) (hapart : ∀ i ∈ d.endPoints,
    Apart ⟨d.next, localAddr, localPort, peerAddr, peerPort, device, true⟩ i) :
    (bind device (some (d.add localAddr localPort peerAddr peerPort).1,
      (d.add localAddr localPort peerAddr peerPort).2)).Inv := by
  obtain ⟨new, hnew⟩ : ∃ new : Ipv4EndPoint,
      new = ⟨d.next, localAddr, localPort, peerAddr, peerPort, device, true⟩ := ⟨_, rfl⟩
  have hptr : new.ptr = d.next := by rw [hnew]
  rw [← hnew] at hapart
  have hsame : d.endPoints.map (fun i => if i.ptr = d.next then
      { i with boundNetDevice := device } else i) = d.endPoints := by
    conv_rhs => rw [← List.map_id d.endPoints]
    exact List.map_congr_left fun i hi => if_neg (h.fresh i hi).ne
  have hbound : bind device (some (d.add localAddr localPort peerAddr peerPort).1,
      (d.add localAddr localPort peerAddr peerPort).2) =
        { d with endPoints := d.endPoints ++ [new], next := d.next + 1 } := by
    change ({ d with
      endPoints := List.map (fun i : Ipv4EndPoint =>
          if i.ptr = d.next then { i with boundNetDevice := device } else i)
        (d.endPoints ++ [⟨d.next, localAddr, localPort, peerAddr, peerPort, none, true⟩])
      next := d.next + 1 } : Ipv4EndPointDemux) = _
    rw [List.map_append, hsame, List.map_singleton, if_pos rfl, hnew]
  rw [hbound]
  have hmem : ∀ i, i ∈ d.endPoints ++ [new] ↔ i ∈ d.endPoints ∨ i = new := by simp
  refine ⟨fun i hi => ?_, ?_, fun a hin b hb hne => ?_⟩
  · rcases (hmem i).1 hi with hi | rfl
    · exact (h.fresh i hi).trans (Nat.lt_succ_self _)
    · exact hptr ▸ Nat.lt_succ_self _
  · change ((d.endPoints ++ [new]).map (·.ptr)).Nodup
    rw [List.map_append, List.map_singleton, List.nodup_append]
    refine ⟨h.ptrs, List.nodup_singleton _, fun x hx y hy => ?_⟩
    obtain ⟨i, hi, rfl⟩ := List.mem_map.1 hx
    rw [List.mem_singleton.1 hy, hptr]
    exact (h.fresh i hi).ne
  · rcases (hmem a).1 hin with ha | rfl
    · rcases (hmem b).1 hb with hb | rfl
      · exact h.apart a ha b hb hne
      · exact (hapart a ha).symm
    · exact hapart b (((hmem b).1 hb).resolve_right fun heq => hne (heq ▸ rfl))

theorem not_mem_of_searchPort {count : ℕ} {port found : UInt16}
    (h : d.searchPort count port = some found) : ∀ i ∈ d.endPoints, i.localPort ≠ found := by
  induction count generalizing port with
  | zero => exact absurd h.symm (Option.some_ne_none _)
  | succ count ih =>
    simp only [searchPort] at h
    split_ifs at h with hrange hused hused
    · exact ih h
    · rw [← Option.some.inj h]
      intro i hi heq
      exact hused (List.any_eq_true.2 ⟨i, hi, decide_eq_true heq⟩)
    · exact ih h
    · rw [← Option.some.inj h]
      intro i hi heq
      exact hused (List.any_eq_true.2 ⟨i, hi, decide_eq_true heq⟩)

/-- An endpoint with a port of its own is apart from the others. -/
theorem Inv.allocateAddress (h : d.Inv) (address : UInt32) :
    (bind device (d.allocateAddress address)).Inv := by
  rw [Ipv4EndPointDemux.allocateAddress, allocateEphemeralPort]
  cases hsearch : d.searchPort (d.portLast.toNat + 1 - d.portFirst.toNat) d.ephemeral with
  | none => exact h
  | some port =>
    have hport := not_mem_of_searchPort hsearch
    have hd : ({ d with ephemeral := port } : Ipv4EndPointDemux).Inv :=
      ⟨h.fresh, h.ptrs, h.apart⟩
    dsimp only
    split_ifs
    · exact hd
    · exact hd.add fun i hi _ heq => absurd heq.symm (hport i hi)

/-- What the checks of `Allocate` leave open. -/
theorem apart_of_distinct {i : Ipv4EndPoint} {new : Ipv4EndPoint} (hsame : i.boundNetDevice ≠
    new.boundNetDevice) (hnone : i.boundNetDevice ≠ none)
    (hdistinct : new.boundNetDevice = none → i.boundNetDevice = none) :
    new.boundNetDevice ≠ none ∧ i.boundNetDevice ≠ none ∧ new.boundNetDevice ≠ i.boundNetDevice :=
  ⟨fun heq => hnone (hdistinct heq), hnone, hsame.symm⟩

theorem Inv.allocateLocal (h : d.Inv)
    (hdistinct : d.Distinct (.allocateLocal device localAddr localPort)) :
    (bind device (d.allocateLocal device localAddr localPort)).Inv := by
  rw [Ipv4EndPointDemux.allocateLocal]
  split_ifs with hlookup
  · exact h
  · rw [Bool.or_eq_true, not_or] at hlookup
    have hnot : ∀ {dev : Option ℕ}, ¬ d.lookupLocal dev localAddr localPort = true →
        ∀ i ∈ d.endPoints, localAddr = i.localAddr → localPort = i.localPort →
          i.boundNetDevice ≠ dev := by
      rintro _ hfalse i hi rfl rfl rfl
      exact hfalse (List.any_eq_true.2 ⟨i, hi, by simp⟩)
    refine h.add fun i hi haddr hport hpeer hpeerPort => ?_
    refine apart_of_distinct (hnot hlookup.1 i hi haddr hport) (hnot hlookup.2 i hi haddr hport)
      fun hdevice => ?_
    exact hdistinct hdevice i hi haddr.symm hport.symm hpeer.symm hpeerPort.symm

theorem Inv.allocatePeer (h : d.Inv)
    (hdistinct : d.Distinct (.allocatePeer device localAddr localPort peerAddr peerPort)) :
    (bind device (d.allocatePeer device localAddr localPort peerAddr peerPort)).Inv := by
  rw [Ipv4EndPointDemux.allocatePeer]
  split_ifs with hlookup
  · exact h
  · have hnot : ∀ i ∈ d.endPoints, localAddr = i.localAddr → localPort = i.localPort →
        peerAddr = i.peerAddr → peerPort = i.peerPort →
          ¬ (i.boundNetDevice = device ∨ i.boundNetDevice = none) := by
      rintro i hi rfl rfl rfl rfl hdevice
      exact hlookup (List.any_eq_true.2 ⟨i, hi, by simpa using hdevice⟩)
    refine h.add fun i hi haddr hport hpeer hpeerPort => ?_
    obtain ⟨hsame, hnone⟩ := not_or.1 (hnot i hi haddr hport hpeer hpeerPort)
    refine apart_of_distinct hsame hnone fun hdevice => ?_
    exact hdistinct hdevice i hi haddr.symm hport.symm hpeer.symm hpeerPort.symm

/-- A change that keeps the endpoints apart. -/
theorem Inv.modify (h : d.Inv) {ptr : ℕ} {f : Ipv4EndPoint → Ipv4EndPoint}
    (hf : ∀ i, (f i).ptr = i.ptr)
    (hapart : ∀ a ∈ d.endPoints, a.ptr = ptr → ∀ b ∈ d.endPoints, b.ptr ≠ ptr → Apart (f a) b) :
    (d.modify ptr f).Inv := by
  have hptr : ∀ i : Ipv4EndPoint, (if i.ptr = ptr then f i else i).ptr = i.ptr := by
    intro i
    split_ifs
    · exact hf i
    · rfl
  refine ⟨fun x hx => ?_, ?_, fun x hx y hy hne => ?_⟩
  · obtain ⟨i, hi, rfl⟩ := List.mem_map.1 hx
    rw [hptr]
    exact h.fresh i hi
  · change ((d.endPoints.map _).map _).Nodup
    rw [List.map_map]
    have hmap : d.endPoints.map ((·.ptr) ∘ fun i => if i.ptr = ptr then f i else i) =
        d.endPoints.map (·.ptr) := List.map_congr_left fun i _ => hptr i
    rw [hmap]
    exact h.ptrs
  · obtain ⟨a, ha, rfl⟩ := List.mem_map.1 hx
    obtain ⟨b, hb, rfl⟩ := List.mem_map.1 hy
    rw [hptr, hptr] at hne
    by_cases hpa : a.ptr = ptr
    · have hpb : b.ptr ≠ ptr := fun heq => hne (hpa.trans heq.symm)
      rw [if_pos hpa, if_neg hpb]
      exact hapart a ha hpa b hb hpb
    · rw [if_neg hpa]
      by_cases hpb : b.ptr = ptr
      · rw [if_pos hpb]
        exact (hapart b hb hpb a ha hpa).symm
      · rw [if_neg hpb]
        exact h.apart a ha b hb hne

theorem Inv.deAllocate (h : d.Inv) (ptr : ℕ) : (d.deAllocate ptr).Inv := by
  have hsub : (d.deAllocate ptr).endPoints.Sublist d.endPoints := List.eraseP_sublist
  exact ⟨fun i hi => h.fresh i (hsub.subset hi), h.ptrs.sublist (hsub.map _),
    fun a ha b hb => h.apart a (hsub.subset ha) b (hsub.subset hb)⟩

/-- A step keeps the endpoints apart. -/
theorem Inv.step (h : d.Inv) {a : Step} (ha : d.Distinct a) : (d.step a).Inv := by
  cases a with
  | allocate device => exact h.allocateAddress any
  | allocateAddress device address => exact h.allocateAddress address
  | allocatePort device port => exact h.allocateLocal ha
  | allocateLocal device address port => exact h.allocateLocal ha
  | allocatePeer device localAddress localPort peerAddress peerPort => exact h.allocatePeer ha
  | setPeer ptr address port => exact h.modify (fun _ => rfl) ha
  | setRxEnabled ptr enabled =>
    refine h.modify (fun _ => rfl) fun a ha hpa b hb hpb => ?_
    exact h.apart a ha b hb fun heq => hpb (heq ▸ hpa)
  | deAllocate ptr => exact h.deAllocate ptr

theorem Inv.run {steps : List Step} (h : d.Inv) (hsteps : d.DistinctRun steps) :
    (d.run steps).Inv := by
  induction steps generalizing d with
  | nil => exact h
  | cons a steps ih => exact ih (h.step hsteps.1) hsteps.2

/-! ## Lookups -/

/-- The endpoints that match in a way, as `Lookup` collects them. -/
abbrev found (d : Ipv4EndPointDemux) (p : FourTuple) (incoming : Ipv4Interface)
    (way : Specificity) : List Ipv4EndPoint :=
  d.matching p incoming (pushed way)

theorem not_matches_of_nil {way : Specificity} (h : d.found p incoming way = []) :
    ∀ endP ∈ d.endPoints, ¬ Matches p incoming way endP := by
  intro endP hin hmatch
  have hmem : endP ∈ d.found p incoming way := (mem_matching way).2 ⟨hin, hmatch⟩
  rw [h] at hmem
  exact List.not_mem_nil hmem

/-- `Lookup` takes the list for the most specific way that occurs. -/
theorem lookup_eq : ∃ way, d.Best p incoming way ∧
    (d.found p incoming way = [] → way = .portOnly) ∧ d.lookup p incoming =
      if (d.found p incoming way).length > 1 then none else some (d.found p incoming way) := by
  have hlookup : d.lookup p incoming =
      (fun retval : List Ipv4EndPoint => if retval.length > 1 then none else some retval)
        (if !(d.found p incoming .all).isEmpty then d.found p incoming .all
        else if !(d.found p incoming .allButLocal).isEmpty then d.found p incoming .allButLocal
        else if !(d.found p incoming .localOnly).isEmpty then d.found p incoming .localOnly
        else d.found p incoming .portOnly) := rfl
  have hpos : ∀ {way}, d.found p incoming way ≠ [] →
      (!(d.found p incoming way).isEmpty) = true := by
    intro way hne
    rw [Bool.not_eq_true', ← Bool.not_eq_true, List.isEmpty_iff]
    exact hne
  have hneg : ∀ {way}, d.found p incoming way = [] →
      ¬ (!(d.found p incoming way).isEmpty) = true := by
    intro way hnil
    rw [hnil]
    exact Bool.false_ne_true
  rw [hlookup]
  by_cases hall : d.found p incoming .all = []
  swap
  · rw [if_pos (hpos hall)]
    exact ⟨.all, fun better hlt => absurd hlt (Nat.not_lt_zero _), fun h => absurd h hall, rfl⟩
  rw [if_neg (hneg hall)]
  have hnotAll := not_matches_of_nil hall
  by_cases hbut : d.found p incoming .allButLocal = []
  swap
  · rw [if_pos (hpos hbut)]
    refine ⟨.allButLocal, fun better hlt => ?_, fun h => absurd h hbut, rfl⟩
    cases better with
    | all => exact hnotAll
    | _ => exact absurd hlt (by decide)
  rw [if_neg (hneg hbut)]
  have hnotBut := not_matches_of_nil hbut
  by_cases hlocal : d.found p incoming .localOnly = []
  swap
  · rw [if_pos (hpos hlocal)]
    refine ⟨.localOnly, fun better hlt => ?_, fun h => absurd h hlocal, rfl⟩
    cases better with
    | all => exact hnotAll
    | allButLocal => exact hnotBut
    | _ => exact absurd hlt (by decide)
  rw [if_neg (hneg hlocal)]
  have hnotLocal := not_matches_of_nil hlocal
  refine ⟨.portOnly, fun better hlt => ?_, fun _ => rfl, rfl⟩
  cases better with
  | all => exact hnotAll
  | allButLocal => exact hnotBut
  | localOnly => exact hnotLocal
  | portOnly => exact absurd hlt (by decide)

/-- Two endpoints with the same local address that match in one way are the same. -/
theorem Inv.ptr_eq (h : d.Inv) {way : Specificity} {a b : Ipv4EndPoint} (ha : a ∈ d.endPoints)
    (hb : b ∈ d.endPoints) (hma : Matches p incoming way a) (hmb : Matches p incoming way b)
    (haddr : a.localAddr = b.localAddr) : a.ptr = b.ptr := by
  by_contra hne
  have hpeer : a.peerAddr = b.peerAddr ∧ a.peerPort = b.peerPort := by
    cases way with
    | all => exact ⟨hma.2.2.1.trans hmb.2.2.1.symm, hma.2.2.2.trans hmb.2.2.2.symm⟩
    | allButLocal => exact ⟨hma.2.2.1.trans hmb.2.2.1.symm, hma.2.2.2.trans hmb.2.2.2.symm⟩
    | localOnly => exact ⟨hma.2.2.1.trans hmb.2.2.1.symm, hma.2.2.2.trans hmb.2.2.2.symm⟩
    | portOnly => exact ⟨hma.2.2.1.trans hmb.2.2.1.symm, hma.2.2.2.trans hmb.2.2.2.symm⟩
  obtain ⟨hna, hnb, hdevice⟩ := h.apart a ha b hb hne haddr (hma.1.port.trans hmb.1.port.symm)
    hpeer.1 hpeer.2
  exact hdevice ((hma.1.device.resolve_left hna).trans (hmb.1.device.resolve_left hnb).symm)

theorem eq_of_length_le_one {l : List Ipv4EndPoint} {a b : Ipv4EndPoint} (h : l.length ≤ 1)
    (ha : a ∈ l) (hb : b ∈ l) : a = b := by
  cases l with
  | nil => exact absurd ha List.not_mem_nil
  | cons x l =>
    obtain rfl := List.eq_nil_of_length_eq_zero (Nat.le_zero.1 (Nat.le_of_succ_le_succ h))
    rw [List.mem_singleton.1 ha, List.mem_singleton.1 hb]

theorem length_le_one_of_nodup {l : List Ipv4EndPoint} (hptrs : (l.map (·.ptr)).Nodup)
    (hsame : ∀ a ∈ l, ∀ b ∈ l, a.ptr = b.ptr) : l.length ≤ 1 := by
  obtain _ | ⟨a, _ | ⟨b, l⟩⟩ := l
  · exact Nat.zero_le _
  · exact Nat.le_refl _
  · rw [List.map_cons, List.nodup_cons] at hptrs
    refine absurd ?_ hptrs.1
    rw [hsame a List.mem_cons_self b (List.mem_cons_of_mem _ List.mem_cons_self)]
    exact List.mem_cons_self

/-- At most one endpoint is found in a way if and only if those that match in it have one local
address. -/
theorem Inv.length_found (h : d.Inv) (way : Specificity) :
    (d.found p incoming way).length ≤ 1 ↔ ∀ a ∈ d.endPoints, ∀ b ∈ d.endPoints,
      Matches p incoming way a → Matches p incoming way b → a.localAddr = b.localAddr := by
  constructor
  · intro hlen a ha b hb hma hmb
    rw [eq_of_length_le_one hlen ((mem_matching way).2 ⟨ha, hma⟩) ((mem_matching way).2 ⟨hb, hmb⟩)]
  · intro hsame
    have hsub : (d.found p incoming way).Sublist d.endPoints := List.filter_sublist
    refine length_le_one_of_nodup (h.ptrs.sublist (hsub.map _)) fun a ha b hb => ?_
    obtain ⟨ha, hma⟩ := (mem_matching way).1 ha
    obtain ⟨hb, hmb⟩ := (mem_matching way).1 hb
    exact h.ptr_eq ha hb hma hmb (hsame a ha b hb hma hmb)

/-- An exact match of the local address leaves no choice. -/
theorem localAddr_eq_of_exact {way : Specificity} (hway : way = .all ∨ way = .localOnly)
    {a b : Ipv4EndPoint} (hma : Matches p incoming way a) (hmb : Matches p incoming way b) :
    a.localAddr = b.localAddr := by
  obtain rfl | rfl := hway
  · exact hma.2.1.trans hmb.2.1.symm
  · exact hma.2.1.trans hmb.2.1.symm

/-- With endpoints that are apart, a lookup is right if and only if the local addresses that stand
for the destination are one. -/
theorem Inv.demultiplexed_iff_oneLocal (h : d.Inv) :
    d.Demultiplexed p incoming ↔ d.OneLocal p incoming := by
  obtain ⟨way, hbest, hnil, hlookup⟩ := @lookup_eq d p incoming
  have hone : (d.found p incoming way).length ≤ 1 ↔ d.OneLocal p incoming := by
    rw [h.length_found]
    constructor
    · intro hsame other _ hother a ha b hb hma hmb
      rcases Nat.lt_trichotomy other.rank way.rank with hlt | heq | hlt
      · exact absurd hma (hbest other hlt a ha)
      · obtain rfl := Specificity.rank_injective heq
        exact hsame a ha b hb hma hmb
      · refine absurd (hnil (List.eq_nil_iff_forall_not_mem.2 fun endP hin => ?_)) ?_
        · obtain ⟨hin, hmatch⟩ := (mem_matching way).1 hin
          exact hother way hlt endP hin hmatch
        · rintro rfl
          cases other <;> exact absurd hlt (by decide)
    · intro hlocal
      cases way with
      | all => exact fun a _ b _ => localAddr_eq_of_exact (Or.inl rfl)
      | localOnly => exact fun a _ b _ => localAddr_eq_of_exact (Or.inr rfl)
      | allButLocal => exact hlocal .allButLocal (Or.inl rfl) hbest
      | portOnly => exact hlocal .portOnly (Or.inr rfl) hbest
  rw [← hone]
  constructor
  · rintro ⟨found, heq, -, -⟩
    by_contra hlen
    rw [hlookup, if_pos (not_le.1 hlen)] at heq
    exact absurd heq.symm (Option.some_ne_none _)
  · intro hlen
    refine ⟨d.found p incoming way, ?_, hlen, fun endP hin => ?_, fun hempty => ?_⟩
    · rw [hlookup, if_neg (not_lt.2 hlen)]
    · obtain ⟨hin, hmatch⟩ := (mem_matching way).1 hin
      exact ⟨hin, way, hmatch, hbest⟩
    · obtain rfl := hnil hempty
      intro other
      cases other with
      | portOnly => exact not_matches_of_nil hempty
      | all => exact hbest .all (by decide)
      | allButLocal => exact hbest .allButLocal (by decide)
      | localOnly => exact hbest .localOnly (by decide)

/-- Endpoints that are not apart are ambiguous. -/
theorem exists_not_demultiplexed {a b : Ipv4EndPoint} (ha : a ∈ d.endPoints)
    (hb : b ∈ d.endPoints) (hne : a.ptr ≠ b.ptr) (hrxa : a.rxEnabled = true)
    (hrxb : b.rxEnabled = true) (hapart : ¬ Apart a b) :
    ∃ p incoming, ¬ d.Demultiplexed p incoming := by
  rw [Apart] at hapart
  push Not at hapart
  obtain ⟨haddr, hport, hpeer, hpeerPort, hdevice⟩ := hapart
  obtain ⟨device, hda, hdb⟩ : ∃ device,
      (a.boundNetDevice = none ∨ a.boundNetDevice = some device) ∧
      (b.boundNetDevice = none ∨ b.boundNetDevice = some device) := by
    cases hna : a.boundNetDevice with
    | none =>
      cases hnb : b.boundNetDevice with
      | none => exact ⟨0, Or.inl rfl, Or.inl rfl⟩
      | some device => exact ⟨device, Or.inl rfl, Or.inr rfl⟩
    | some device =>
      refine ⟨device, Or.inr rfl, ?_⟩
      by_cases hnb : b.boundNetDevice = none
      · exact Or.inl hnb
      · refine Or.inr ((hdevice ?_ hnb).symm.trans hna)
        rw [hna]
        exact Option.some_ne_none device
  refine ⟨⟨a.localAddr, a.localPort, a.peerAddr, a.peerPort⟩, ⟨device, []⟩, ?_⟩
  rintro ⟨found, heq, hlen, -⟩
  obtain ⟨way, hbest, -, hlookup⟩ :=
    @lookup_eq d ⟨a.localAddr, a.localPort, a.peerAddr, a.peerPort⟩ ⟨device, []⟩
  have hma : Matches ⟨a.localAddr, a.localPort, a.peerAddr, a.peerPort⟩ ⟨device, []⟩ .all a :=
    ⟨⟨hrxa, rfl, hda⟩, rfl, rfl, rfl⟩
  have hmb : Matches ⟨a.localAddr, a.localPort, a.peerAddr, a.peerPort⟩ ⟨device, []⟩ .all b :=
    ⟨⟨hrxb, hport.symm, hdb⟩, haddr.symm, hpeer.symm, hpeerPort.symm⟩
  obtain rfl : way = .all := by
    by_contra hway
    refine hbest .all ?_ a ha hma
    cases way with
    | all => exact absurd rfl hway
    | _ => decide
  rw [hlookup] at heq
  split_ifs at heq with hmany
  obtain rfl := Option.some.inj heq
  exact hne (congrArg _ (eq_of_length_le_one hlen ((mem_matching .all).2 ⟨ha, hma⟩)
    ((mem_matching .all).2 ⟨hb, hmb⟩)))

/-- In a run in which the endpoints stay distinct, a lookup is right if and only if the local
addresses that stand for the destination are one. -/
theorem demultiplexed_iff {steps : List Step} (hsteps : DistinctRun {} steps) (p : FourTuple)
    (incoming : Ipv4Interface) : (run {} steps).Demultiplexed p incoming ↔
      (run {} steps).OneLocal p incoming := by
  have hnew : Inv {} := ⟨fun i hi => absurd hi List.not_mem_nil, List.nodup_nil,
    fun a ha => absurd ha List.not_mem_nil⟩
  exact (hnew.run hsteps).demultiplexed_iff_oneLocal

/-- A server, and a connection that it has accepted on one of its devices. -/
def serverSteps : List Step :=
  [.allocatePort none 80, .allocatePeer none 0x0a000001 80 0x0a000002 5000]

/-- A packet of the connection. -/
def connectionPacket : FourTuple :=
  ⟨0x0a000001, 80, 0x0a000002, 5000⟩

/-- A lookup for the connection. -/
theorem demultiplexed_iff_server :
    (run {} serverSteps).Demultiplexed connectionPacket ⟨1, [(0x0a000001, 0xffffff00)]⟩ ↔
      (run {} serverSteps).OneLocal connectionPacket ⟨1, [(0x0a000001, 0xffffff00)]⟩ := by
  have hsteps : DistinctRun {} serverSteps := by
    refine ⟨fun _ i hi => absurd hi List.not_mem_nil, fun _ i hi haddr => ?_, trivial⟩
    have hi' : i ∈ [(⟨0, 0, 80, 0, 0, none, true⟩ : Ipv4EndPoint)] := hi
    rw [List.mem_singleton.1 hi'] at haddr
    exact absurd haddr (by decide)
  exact demultiplexed_iff hsteps connectionPacket _

/-- A socket that is bound to a device and one that is not have the same local address and port. A
packet on that device makes the program abort. -/
theorem not_demultiplexed : ∃ steps p incoming, ¬ (run {} steps).Demultiplexed p incoming := by
  refine ⟨[.allocatePort (some 1) 80, .allocatePort none 80], ⟨0x0a000001, 80, 0x0a000002, 5000⟩,
    ⟨1, [(0x0a000001, 0xffffff00)]⟩, ?_⟩
  rintro ⟨found, heq, -⟩
  have hnone : (run {} [.allocatePort (some 1) 80, .allocatePort none 80]).lookup
      ⟨0x0a000001, 80, 0x0a000002, 5000⟩ ⟨1, [(0x0a000001, 0xffffff00)]⟩ = none := by decide
  rw [hnone] at heq
  exact absurd heq.symm (Option.some_ne_none _)

end Ipv4EndPointDemux

end Ns3Pedca
