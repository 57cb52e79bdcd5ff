import Ns3Pedca.SharedLists

/-!
# Packet tags

A `PacketTagList` points to the first node of a linked list of tags. A copy of it points to the
same node, whose count is raised, and `Remove` and `Replace` copy the nodes that are shared before
they write. A node that is freed is not found any more : a function that reads it returns `none`,
as one does whose assertion fails.
-/

namespace Ns3Pedca

open SharedLists

/-- `TypeId`. -/
abbrev TypeId := UInt16

/-- A tag in serialized form, with the size that `CreateTagData` asks for. -/
structure SerializedTag where
  tid : TypeId
  data : List UInt8
  size_lt : data.length < 2 ^ 32 - 1

/-- `PacketTagList::TagData`. The size is the length of the data. -/
structure TagData where
  next : Option ℕ
  count : UInt32
  tid : TypeId
  data : List UInt8
  deriving DecidableEq

/-- The `m_next` of the lists, and the nodes that have been created, with `none` for those that
were freed. -/
structure TagLists where
  lists : List (Option ℕ) := []
  nodes : List (Option TagData) := []
  deriving DecidableEq

namespace TagLists

variable (s : TagLists)

/-! ## Memory -/

/-- A node, unless it was freed. -/
def node (a : ℕ) : Option TagData :=
  s.nodes[a]?.join

/-- A node is written. -/
def setNode (a : ℕ) (d : TagData) : TagLists :=
  { s with nodes := s.nodes.set a (some d) }

/-- A node is freed. -/
def free (a : ℕ) : TagLists :=
  { s with nodes := s.nodes.set a none }

/-- A list is written. -/
def setList (i : ℕ) (v : Option ℕ) : TagLists :=
  { s with lists := s.lists.set i v }

/-- `CreateTagData`, with what is written to the new node. -/
def createTagData (d : TagData) : TagLists × ℕ :=
  ({ s with nodes := s.nodes ++ [some d] }, s.nodes.length)

/-- What a slot points to. -/
def ptr : Slot ℕ ℕ → Option ℕ
  | .head i => s.lists[i]?.join
  | .next a => (s.node a).bind TagData.next

/-- A pointer to a pointer is written through. -/
def write : Slot ℕ ℕ → Option ℕ → Option TagLists
  | .head i, v => some (s.setList i v)
  | .next a, v => (s.node a).map fun d => s.setNode a { d with next := v }

/-- `count++`. -/
def increment (a : ℕ) : Option TagLists :=
  (s.node a).map fun d => s.setNode a { d with count := d.count + 1 }

/-- `count--`. -/
def decrement (a : ℕ) : Option TagLists :=
  (s.node a).map fun d => s.setNode a { d with count := d.count - 1 }

/-- `count++`, if there is a node. -/
def incrementNext : Option ℕ → Option TagLists
  | none => some s
  | some a => s.increment a

/-! ## Copy on write -/

/-- The first node of a type behind `v`, with a bound on the nodes. -/
def find (tid : TypeId) : ℕ → Option ℕ → Option (Option ℕ)
  | 0, _ => none
  | _ + 1, none => some none
  | fuel + 1, some cur => do
    let d ← s.node cur
    if d.tid = tid then some (some cur) else find tid fuel d.next

/-- Where the first loop of `COWTraverse` stops. -/
inductive Search
  | ended
  | found (prevNext : Slot ℕ ℕ) (cur : ℕ)
  | merge (prevNext : Slot ℕ ℕ) (cur : ℕ)
  deriving DecidableEq

/-- The first loop of `COWTraverse`. -/
def search (tid : TypeId) : ℕ → Slot ℕ ℕ → Option ℕ → Option Search
  | 0, _, _ => none
  | _ + 1, _, none => some .ended
  | fuel + 1, prevNext, some cur => do
    let d ← s.node cur
    if d.count > 1 then some (.merge prevNext cur)
    else if d.tid = tid then some (.found prevNext cur)
    else search tid fuel (.next cur) d.next

/-- The last loop of `COWTraverse`, which moves the merge to the tag. -/
def copyUntil (tid : TypeId) : ℕ → TagLists → Slot ℕ ℕ → ℕ → Option (TagLists × Slot ℕ ℕ × ℕ)
  | 0, _, _, _ => none
  | fuel + 1, s, prevNext, cur => do
    let d ← s.node cur
    if d.tid = tid then some (s, prevNext, cur)
    else do
      let s ← s.decrement cur
      let (s, copy) := s.createTagData ⟨d.next, 1, d.tid, d.data⟩
      let next ← d.next
      let s ← s.increment next
      let s ← s.write prevNext (some copy)
      copyUntil tid fuel s (.next copy) next

/-- `COWTraverse` on the list `i`, with a writer that gets `preMerge`, `cur` and `prevNext`. -/
def cowTraverse {ρ : Type} (i : ℕ) (tid : TypeId)
    (writer : TagLists → Bool → ℕ → Slot ℕ ℕ → Option (TagLists × ρ)) :
    Option (TagLists × Option ρ) := do
  let fuel := s.nodes.length + 1
  let head ← s.lists[i]?
  match ← s.search tid fuel (.head i) head with
  | .ended => some (s, none)
  | .found prevNext cur => do
    let (s, r) ← writer s true cur prevNext
    some (s, some r)
  | .merge prevNext cur => do
    match ← s.find tid fuel (some cur) with
    | none => some (s, none)
    | some _ => do
      let (s, prevNext, cur) ← copyUntil tid fuel s prevNext cur
      let (s, r) ← writer s false cur prevNext
      some (s, some r)

/-- `RemoveWriter`, with the data that is deserialized. -/
def removeWriter (s : TagLists) (preMerge : Bool) (cur : ℕ) (prevNext : Slot ℕ ℕ) :
    Option (TagLists × List UInt8) := do
  let d ← s.node cur
  let s ← s.write prevNext d.next
  if preMerge then some (s.free cur, d.data)
  else do
    let s ← s.decrement cur
    let s ← s.incrementNext d.next
    some (s, d.data)

/-- `Remove`, with the data of the tag if it is found. -/
def remove (i : ℕ) (tid : TypeId) : Option (TagLists × Option (List UInt8)) :=
  s.cowTraverse i tid removeWriter

/-- A tag is serialized into a buffer : it has to fit, and what is behind it stays. -/
def serializeInto (tag buffer : List UInt8) : Option (List UInt8) :=
  if tag.length ≤ buffer.length then some (tag ++ buffer.drop tag.length) else none

/-- `ReplaceWriter`. -/
def replaceWriter (tag : SerializedTag) (s : TagLists) (preMerge : Bool) (cur : ℕ)
    (prevNext : Slot ℕ ℕ) : Option (TagLists × Unit) := do
  let d ← s.node cur
  if preMerge then do
    let data ← serializeInto tag.data d.data
    some (s.setNode cur { d with data := data }, ())
  else do
    let s ← s.decrement cur
    let (s, copy) := s.createTagData ⟨d.next, 1, tag.tid, tag.data⟩
    let s ← s.incrementNext d.next
    let s ← s.write prevNext (some copy)
    some (s, ())

/-! ## The other functions -/

/-- `Add`. A tag of the same type must not be in the list. -/
def add (i : ℕ) (tag : SerializedTag) : Option TagLists := do
  let head ← s.lists[i]?
  match ← s.find tag.tid (s.nodes.length + 1) head with
  | some _ => none
  | none =>
    let (s, copy) := s.createTagData ⟨head, 1, tag.tid, tag.data⟩
    some (s.setList i (some copy))

/-- `Replace`, with whether the tag was found. -/
def replace (i : ℕ) (tag : SerializedTag) : Option (TagLists × Bool) := do
  let (s, found) ← s.cowTraverse i tag.tid (replaceWriter tag)
  match found with
  | some _ => some (s, true)
  | none => (s.add i tag).map fun s => (s, false)

/-- `Peek`, with the data of the tag if it is found. -/
def peek (i : ℕ) (tid : TypeId) : Option (Option (List UInt8)) := do
  let head ← s.lists[i]?
  match ← s.find tid (s.nodes.length + 1) head with
  | none => some none
  | some cur => (s.node cur).map fun d => some d.data

/-- The node before, if there is one, is freed. -/
def freePrev (s : TagLists) : Option ℕ → TagLists
  | none => s
  | some prev => s.free prev

/-- The loop of `RemoveAll`, and the free behind it. -/
def removeAllLoop : ℕ → TagLists → Option ℕ → Option ℕ → Option TagLists
  | 0, _, _, _ => none
  | _ + 1, s, prev, none => some (s.freePrev prev)
  | fuel + 1, s, prev, some cur => do
    let s ← s.decrement cur
    let d ← s.node cur
    if d.count > 0 then some (s.freePrev prev)
    else removeAllLoop fuel (s.freePrev prev) (some cur) d.next

/-- `RemoveAll`. -/
def removeAll (i : ℕ) : Option TagLists := do
  let head ← s.lists[i]?
  let s ← removeAllLoop (s.nodes.length + 1) s none head
  some (s.setList i none)

/-- The constructor. -/
def construct : TagLists :=
  { s with lists := s.lists ++ [none] }

/-- The copy constructor. -/
def copy (o : ℕ) : Option TagLists := do
  let head ← s.lists[o]?
  let s : TagLists := { s with lists := s.lists ++ [head] }
  s.incrementNext head

/-- `operator=`. -/
def assign (i o : ℕ) : Option TagLists := do
  let head ← s.lists[i]?
  let other ← s.lists[o]?
  if head = other then some s
  else do
    let s ← s.removeAll i
    let s := s.setList i other
    s.incrementNext other

/-! ## Runs -/

/-- An operation on the lists. -/
inductive TagOp
  | construct
  | copy (o : ℕ)
  | assign (i o : ℕ)
  | add (i : ℕ) (tag : SerializedTag)
  | remove (i : ℕ) (tid : TypeId)
  | replace (i : ℕ) (tag : SerializedTag)
  | peek (i : ℕ) (tid : TypeId)
  | removeAll (i : ℕ)

/-- What an operation returns : the data of a tag that was found, and whether one was found. -/
inductive TagResult
  | nothing
  | data (d : Option (List UInt8))
  | found (b : Bool)
  deriving DecidableEq

/-- The lists after an operation, and what it returns. -/
def step : TagOp → Option (TagLists × TagResult)
  | .construct => some (s.construct, .nothing)
  | .copy o => (s.copy o).map fun s => (s, .nothing)
  | .assign i o => (s.assign i o).map fun s => (s, .nothing)
  | .add i tag => (s.add i tag).map fun s => (s, .nothing)
  | .remove i tid => (s.remove i tid).map fun r => (r.1, .data r.2)
  | .replace i tag => (s.replace i tag).map fun r => (r.1, .found r.2)
  | .peek i tid => (s.peek i tid).map fun d => (s, .data d)
  | .removeAll i => (s.removeAll i).map fun s => (s, .nothing)

/-- The lists after a run, and what its operations return. -/
def run : TagLists → List TagOp → Option (TagLists × List TagResult)
  | s, [] => some (s, [])
  | s, op :: ops => do
    let (s, result) ← s.step op
    let (s, results) ← run s ops
    some (s, result :: results)

end TagLists

end Ns3Pedca
