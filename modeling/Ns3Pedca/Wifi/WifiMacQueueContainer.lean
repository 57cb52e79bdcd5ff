import Ns3Pedca.Core
import Ns3Pedca.Wifi.WifiContainerQueueId

/-!
# The container of the MAC queue

`WifiMacQueueContainer` holds the container queues of an access category, and an expired queue. An
MPDU whose lifetime has expired is moved to the expired queue when its container queue is next
looked at, unless it is in flight, or stands behind one that is neither in flight nor
expired. `doExtractExpiredMpdus_eq` says what an extraction moves, and that the range it returns is
what it has moved.

Elements are told apart by numbers, and iterators name them. The map of container queues is iterated
in an order that nothing is known of, which is given with the extraction from all queues. The
counters of bytes are not bounded.
-/

namespace Ns3Pedca

/-- `WifiMacQueueElem`, with the links on which its MPDU is in flight. -/
structure WifiMacQueueElem where
  id : ℕ
  header : QueuedHeader
  size : ℕ
  timestamp : Time := 0
  expiryTime : Time := 0
  expired : Bool := false
  inflights : List ℕ := []
  deriving DecidableEq

namespace WifiMacQueueElem

variable (e : WifiMacQueueElem)

/-- `GetQueueId` of the MPDU. -/
def queueId : WifiContainerQueueId :=
  e.header.getQueueId

/-- The MPDU is in flight. -/
def isInFlight : Bool :=
  !e.inflights.isEmpty

/-- The lifetime has expired, and the MPDU is not in flight. -/
def isExpired (now : Time) : Bool :=
  e.expiryTime ≤ now && e.inflights.isEmpty

/-- The MPDU is marked as expired. -/
def markExpired : WifiMacQueueElem :=
  { e with expired := true }

end WifiMacQueueElem

/-- An iterator : at an element, or the end of a container queue or of the expired queue. -/
inductive ElemIterator
  | elem (id : ℕ)
  | queueEnd (queueId : WifiContainerQueueId)
  | expiredEnd
  deriving DecidableEq

/-- `WifiMacQueueContainer`. -/
structure WifiMacQueueContainer where
  queues : WifiContainerQueueId → List WifiMacQueueElem := fun _ => []
  /-- The keys of the map of container queues. -/
  keys : List WifiContainerQueueId := []
  expiredQueue : List WifiMacQueueElem := []
  nBytesPerQueue : WifiContainerQueueId → Option ℕ := fun _ => none

namespace WifiMacQueueContainer

variable (c : WifiMacQueueContainer)

/-- A container queue is replaced, and created if it was not there. -/
def setQueue (queueId : WifiContainerQueueId) (l : List WifiMacQueueElem) :
    WifiMacQueueContainer :=
  { c with
    queues := fun q => if q = queueId then l else c.queues q
    keys := if queueId ∈ c.keys then c.keys else c.keys ++ [queueId] }

/-- The counter of a container queue is set. -/
def setNBytes (queueId : WifiContainerQueueId) (n : ℕ) : WifiMacQueueContainer :=
  { c with nBytesPerQueue := fun q => if q = queueId then some n else c.nBytesPerQueue q }

/-- `emplace` before the position. There is no result if the position is not in the queue. -/
def emplace (queueId : WifiContainerQueueId) (e : WifiMacQueueElem) (l : List WifiMacQueueElem) :
    ElemIterator → Option (List WifiMacQueueElem)
  | .elem id =>
    if l.any (·.id = id) then some (l.takeWhile (·.id ≠ id) ++ e :: l.dropWhile (·.id ≠ id))
    else none
  | .queueEnd q => if q = queueId then some (l ++ [e]) else none
  | .expiredEnd => none

/-- `insert`. -/
def insert (pos : ElemIterator) (e : WifiMacQueueElem) : Option WifiMacQueueContainer :=
  (emplace e.queueId e (c.queues e.queueId) pos).map fun l =>
    (c.setNBytes e.queueId ((c.nBytesPerQueue e.queueId).getD 0 + e.size)).setQueue e.queueId l

/-- The counter of the queue of an MPDU is lowered by its size, and may not underflow. -/
def uncount (e : WifiMacQueueElem) : Option WifiMacQueueContainer :=
  (c.nBytesPerQueue e.queueId).bind fun n =>
    if e.size ≤ n then some (c.setNBytes e.queueId (n - e.size)) else none

/-- The element an iterator is at. -/
def find? (id : ℕ) : Option WifiMacQueueElem :=
  (c.keys.flatMap c.queues ++ c.expiredQueue).find? (·.id = id)

/-- `erase`. -/
def erase (id : ℕ) : Option WifiMacQueueContainer :=
  (c.find? id).bind fun e =>
    if e.expired then some { c with expiredQueue := c.expiredQueue.filter (·.id ≠ id) }
    else (c.uncount e).map fun c =>
      c.setQueue e.queueId ((c.queues e.queueId).filter (·.id ≠ id))

/-- `GetNBytes`. -/
def getNBytes (queueId : WifiContainerQueueId) : ℕ :=
  if c.queues queueId = [] then 0 else (c.nBytesPerQueue queueId).getD 0

/-- The elements of the container queues are changed. -/
def modify (id : ℕ) (f : WifiMacQueueElem → WifiMacQueueElem) : WifiMacQueueContainer :=
  { c with queues := fun q => (c.queues q).map fun e => if e.id = id then f e else e }

/-- The rounds of the loop of `DoExtractExpiredMpdus`, with the MPDUs passed and those not looked at
yet. The flag says that MPDUs have been transferred. -/
def extractLoop (now : Time) : ℕ → List WifiMacQueueElem → List WifiMacQueueElem →
    WifiMacQueueContainer → Bool → Option (List WifiMacQueueElem × WifiMacQueueContainer × Bool)
  | 0, _, _, _, _ => none
  | rounds + 1, passed, rest, c, transferred =>
    let passed := passed ++ rest.takeWhile (·.isInFlight)
    let rest := rest.dropWhile (·.isInFlight)
    let run := rest.takeWhile (·.isExpired now)
    (run.foldlM uncount c).bind fun c =>
      if run = [] then some (passed ++ rest, c, transferred)
      else extractLoop now rounds passed (rest.dropWhile (·.isExpired now))
        { c with expiredQueue := c.expiredQueue ++ run.map WifiMacQueueElem.markExpired } true

/-- `DoExtractExpiredMpdus`. The range begins at the first MPDU that is not in flight, and is empty
if nothing is transferred. -/
def doExtractExpiredMpdus (now : Time) (queueId : WifiContainerQueueId) :
    Option (WifiMacQueueContainer × ElemIterator × ElemIterator) :=
  let l := c.queues queueId
  (extractLoop now (l.length + 1) [] l c false).map fun (l', c', transferred) =>
    let first := match (l.dropWhile (·.isInFlight)).head? with
      | some e => .elem e.id
      | none => .queueEnd queueId
    (c'.setQueue queueId l', first, if transferred then .expiredEnd else first)

/-- A round of the loop of `ExtractAllExpiredMpdus`, with the first MPDU transferred. -/
def extractNext (now : Time) (x : WifiMacQueueContainer × Option ElemIterator)
    (queueId : WifiContainerQueueId) : Option (WifiMacQueueContainer × Option ElemIterator) :=
  (x.1.doExtractExpiredMpdus now queueId).map fun (c, first, last) =>
    (c, if first ≠ last ∧ x.2 = none then some first else x.2)

/-- `ExtractAllExpiredMpdus`, in the order in which the map is iterated. -/
def extractAllExpiredMpdus (now : Time) (order : List WifiContainerQueueId) :
    Option (WifiMacQueueContainer × ElemIterator × ElemIterator) :=
  (order.foldlM (extractNext now) (c, none)).map fun (c, first) =>
    (c, first.getD .expiredEnd, .expiredEnd)

/-- The elements from an iterator of the expired queue up to its end. -/
def range (first last : ElemIterator) : List WifiMacQueueElem :=
  if first = last then []
  else match first with
    | .elem id => c.expiredQueue.dropWhile (·.id ≠ id)
    | _ => []

end WifiMacQueueContainer

/-! ## What is transferred -/

namespace WifiMacQueueElem

/-- In flight or expired : the MPDU does not end an extraction. -/
def isStale (now : Time) (e : WifiMacQueueElem) : Bool :=
  e.isInFlight || e.isExpired now

variable {now : Time} {e : WifiMacQueueElem}

theorem isExpired_of_isInFlight (h : e.isInFlight = true) : e.isExpired now = false := by
  rw [isInFlight, Bool.not_eq_true'] at h
  rw [isExpired, h, Bool.and_false]

theorem isInFlight_of_isExpired (h : e.isExpired now = true) : e.isInFlight = false := by
  by_contra hnot
  rw [isExpired_of_isInFlight (Bool.eq_true_of_not_eq_false hnot)] at h
  cases h

theorem isStale_of_isInFlight (h : e.isInFlight = true) : e.isStale now = true := by
  rw [isStale, h, Bool.true_or]

theorem isStale_of_isExpired (h : e.isExpired now = true) : e.isStale now = true := by
  rw [isStale, h, Bool.or_true]

end WifiMacQueueElem

namespace WifiMacQueueContainer

/-- The MPDUs that an extraction transfers : those that are expired, up to the first one that is
neither in flight nor expired. -/
def removed (now : Time) (l : List WifiMacQueueElem) : List WifiMacQueueElem :=
  (l.takeWhile (·.isStale now)).filter (·.isExpired now)

/-- The MPDUs that it leaves. -/
def kept (now : Time) (l : List WifiMacQueueElem) : List WifiMacQueueElem :=
  (l.takeWhile (·.isStale now)).filter (·.isInFlight) ++
    l.dropWhile (·.isStale now)

/-- The bytes of a queue. -/
def bytes (l : List WifiMacQueueElem) : ℕ :=
  (l.map WifiMacQueueElem.size).sum

/-- MPDUs are counted out of a container queue and put in the expired queue. -/
def transfer (c : WifiMacQueueContainer) (queueId : WifiContainerQueueId)
    (l : List WifiMacQueueElem) : WifiMacQueueContainer :=
  { c with
    expiredQueue := c.expiredQueue ++ l.map WifiMacQueueElem.markExpired
    nBytesPerQueue := fun q =>
      if q = queueId then (c.nBytesPerQueue q).map (· - bytes l) else c.nBytesPerQueue q }

variable {c : WifiMacQueueContainer} {now : Time} {queueId : WifiContainerQueueId}
  {l run : List WifiMacQueueElem}

theorem nBytesPerQueue_transfer : (c.transfer queueId l).nBytesPerQueue queueId =
    (c.nBytesPerQueue queueId).map (· - bytes l) :=
  if_pos rfl

theorem transfer_nil (c : WifiMacQueueContainer) (queueId : WifiContainerQueueId) :
    c.transfer queueId [] = c := by
  have hbytes : (fun q => if q = queueId then (c.nBytesPerQueue q).map (· - bytes [])
      else c.nBytesPerQueue q) = c.nBytesPerQueue := by
    funext q
    split_ifs
    · exact Option.map_id'
    · rfl
  rw [transfer, hbytes, List.map_nil, List.append_nil]

theorem transfer_append (c : WifiMacQueueContainer) (queueId : WifiContainerQueueId)
    (l l' : List WifiMacQueueElem) :
    c.transfer queueId (l ++ l') = (c.transfer queueId l).transfer queueId l' := by
  have hbytes : bytes (l ++ l') = bytes l + bytes l' := by
    rw [bytes, List.map_append, List.sum_append]
    rfl
  rw [transfer, transfer, transfer, List.map_append, List.append_assoc]
  congr 1
  funext q
  by_cases hq : q = queueId
  · simp only [hq, if_true, Option.map_map, hbytes]
    congr 1
    funext n
    exact (Nat.sub_sub n _ _).symm
  · simp only [hq, if_false]

theorem forall_isStale_of_isInFlight {a : List WifiMacQueueElem}
    (ha : ∀ e ∈ a, e.isInFlight = true) : ∀ e ∈ a, e.isStale now = true :=
  fun e he => WifiMacQueueElem.isStale_of_isInFlight (ha e he)

theorem forall_isStale_of_isExpired {b : List WifiMacQueueElem}
    (hb : ∀ e ∈ b, e.isExpired now = true) : ∀ e ∈ b, e.isStale now = true :=
  fun e he => WifiMacQueueElem.isStale_of_isExpired (hb e he)

/-- What is taken first is in flight, then there is a run of expired ones. -/
theorem removed_append {a b : List WifiMacQueueElem} (ha : ∀ e ∈ a, e.isInFlight = true)
    (hb : ∀ e ∈ b, e.isExpired now = true) : removed now (a ++ (b ++ l)) = b ++ removed now l := by
  have hnone : a.filter (·.isExpired now) = [] := List.filter_eq_nil_iff.2 fun e he => by
    rw [WifiMacQueueElem.isExpired_of_isInFlight (ha e he)]
    exact Bool.false_ne_true
  rw [removed, List.takeWhile_append_of_pos (forall_isStale_of_isInFlight ha),
    List.takeWhile_append_of_pos (forall_isStale_of_isExpired hb),
    List.filter_append, List.filter_append, hnone, List.filter_eq_self.2 hb, List.nil_append]
  rfl

theorem kept_append {a b : List WifiMacQueueElem} (ha : ∀ e ∈ a, e.isInFlight = true)
    (hb : ∀ e ∈ b, e.isExpired now = true) : kept now (a ++ (b ++ l)) = a ++ kept now l := by
  have hnone : b.filter (·.isInFlight) = [] := List.filter_eq_nil_iff.2 fun e he => by
    rw [WifiMacQueueElem.isInFlight_of_isExpired (hb e he)]
    exact Bool.false_ne_true
  have ha' : ∀ e ∈ a, e.isStale now = true := forall_isStale_of_isInFlight ha
  have hb' : ∀ e ∈ b, e.isStale now = true := forall_isStale_of_isExpired hb
  rw [kept, List.takeWhile_append_of_pos ha', List.takeWhile_append_of_pos hb',
    List.dropWhile_append_of_pos ha', List.dropWhile_append_of_pos hb', List.filter_append,
    List.filter_append, hnone, List.filter_eq_self.2 ha, List.nil_append, List.append_assoc]
  rfl

/-- The MPDUs of a run are counted out one after the other. -/
theorem foldlM_uncount {n : ℕ} (hqueue : ∀ e ∈ run, e.queueId = queueId)
    (hn : c.nBytesPerQueue queueId = some n) (hle : bytes run ≤ n) :
    run.foldlM uncount c = some (c.setNBytes queueId (n - bytes run)) := by
  induction run generalizing c n with
  | nil =>
    have hsame : c.setNBytes queueId n = c := by
      have hbytes : (fun q => if q = queueId then some n else c.nBytesPerQueue q) =
          c.nBytesPerQueue := by
        funext q
        split_ifs with hq
        · rw [hq, hn]
        · rfl
      rw [setNBytes, hbytes]
    exact congrArg some hsame.symm
  | cons e run ih =>
    obtain ⟨he, hrun⟩ := List.forall_mem_cons.1 hqueue
    have hbytes : bytes (e :: run) = e.size + bytes run := rfl
    have huncount : c.uncount e = some (c.setNBytes queueId (n - e.size)) := by
      rw [uncount, he, hn, Option.bind_some, if_pos (by omega)]
    have hagain : (c.setNBytes queueId (n - e.size)).setNBytes queueId (n - e.size - bytes run) =
        c.setNBytes queueId (n - bytes (e :: run)) := by
      rw [setNBytes, setNBytes, setNBytes, hbytes, Nat.sub_sub]
      congr 1
      funext q
      by_cases hq : q = queueId
      · simp only [hq, if_true]
      · simp only [hq, if_false]
    rw [List.foldlM_cons, huncount, ← hagain]
    exact ih hrun (if_pos rfl) (by omega)

theorem bytes_append (l l' : List WifiMacQueueElem) : bytes (l ++ l') = bytes l + bytes l' := by
  rw [bytes, List.map_append, List.sum_append]
  rfl

/-- Counting out a run, and putting it in the expired queue. -/
theorem uncount_run {n : ℕ} (hqueue : ∀ e ∈ run, e.queueId = queueId)
    (hn : run ≠ [] → c.nBytesPerQueue queueId = some n) (hle : bytes run ≤ n) :
    ∃ c', run.foldlM uncount c = some c' ∧
      { c' with expiredQueue := c'.expiredQueue ++ run.map WifiMacQueueElem.markExpired } =
        c.transfer queueId run := by
  rcases eq_or_ne run [] with rfl | hne
  · refine ⟨c, rfl, ?_⟩
    rw [transfer_nil, List.map_nil, List.append_nil]
  · refine ⟨_, foldlM_uncount hqueue (hn hne) hle, ?_⟩
    rw [transfer, setNBytes]
    congr 1
    funext q
    by_cases hq : q = queueId
    · simp only [hq, if_true, hn hne, Option.map_some]
    · simp only [hq, if_false]

/-- The loop ends at an MPDU that is neither in flight nor expired. -/
theorem removed_eq_nil (hhead : ∀ e ∈ l.head?, e.isInFlight = false ∧ e.isExpired now = false) :
    removed now l = [] ∧ kept now l = l := by
  cases l with
  | nil => exact ⟨rfl, rfl⟩
  | cons e l =>
    obtain ⟨hinFlight, hexpired⟩ := hhead e rfl
    have hlive : ¬ e.isStale now = true := by
      rw [WifiMacQueueElem.isStale, hinFlight, hexpired]
      decide
    rw [removed, kept, List.takeWhile_cons_of_neg hlive, List.dropWhile_cons_of_neg hlive]
    exact ⟨rfl, rfl⟩

theorem of_mem_head?_dropWhile {p : WifiMacQueueElem → Bool} {e : WifiMacQueueElem}
    (h : e ∈ (l.dropWhile p).head?) : p e = false := by
  have hnot := List.head?_dropWhile_not p l
  rwa [Option.mem_def.1 h] at hnot

/-- The loop leaves what is in flight, and transfers what is expired, up to the first MPDU that is
neither. -/
theorem extractLoop_eq {rounds n : ℕ} {passed rest : List WifiMacQueueElem} {transferred : Bool}
    (hrounds : rest.length < rounds) (hqueue : ∀ e ∈ rest, e.queueId = queueId)
    (hn : rest ≠ [] → c.nBytesPerQueue queueId = some n) (hle : bytes rest ≤ n) :
    extractLoop now rounds passed rest c transferred =
      some (passed ++ kept now rest, c.transfer queueId (removed now rest),
        transferred || removed now rest ≠ []) := by
  induction rounds generalizing passed rest c transferred n with
  | zero => exact absurd hrounds (Nat.not_lt_zero _)
  | succ rounds ih =>
    have ha : ∀ e ∈ rest.takeWhile (·.isInFlight), e.isInFlight = true :=
      fun e he => List.mem_takeWhile_imp he
    have hr : ∀ e ∈ (rest.dropWhile (·.isInFlight)).head?, e.isInFlight = false :=
      fun e he => of_mem_head?_dropWhile he
    have hsplit : rest.takeWhile (·.isInFlight) ++ rest.dropWhile (·.isInFlight) = rest :=
      List.takeWhile_append_dropWhile
    rw [extractLoop]
    generalize rest.takeWhile (·.isInFlight) = a at ha hsplit ⊢
    generalize rest.dropWhile (·.isInFlight) = r at hr hsplit ⊢
    have hb : ∀ e ∈ r.takeWhile (·.isExpired now), e.isExpired now = true :=
      fun e he => List.mem_takeWhile_imp (p := fun e : WifiMacQueueElem => e.isExpired now) he
    have hr' : ∀ e ∈ (r.dropWhile (·.isExpired now)).head?, e.isExpired now = false :=
      fun e he => of_mem_head?_dropWhile (p := fun e : WifiMacQueueElem => e.isExpired now) he
    have hsplit' : r.takeWhile (·.isExpired now) ++ r.dropWhile (·.isExpired now) = r :=
      List.takeWhile_append_dropWhile
    generalize r.takeWhile (·.isExpired now) = b at hb hsplit' ⊢
    generalize r.dropWhile (·.isExpired now) = r' at hr' hsplit' ⊢
    subst hsplit' hsplit
    have hall : bytes (a ++ (b ++ r')) = bytes a + (bytes b + bytes r') := by
      rw [bytes_append, bytes_append]
    have hmem : ∀ e ∈ b ++ r', e.queueId = queueId := fun e he =>
      hqueue e (List.mem_append_right _ he)
    have hqueueb : ∀ e ∈ b, e.queueId = queueId := fun e he => hmem e (List.mem_append_left _ he)
    have hnb : b ≠ [] → c.nBytesPerQueue queueId = some n := fun hne => hn (by simp [hne])
    obtain ⟨c', hc', htransfer⟩ := uncount_run hqueueb hnb (by omega)
    rw [removed_append ha hb, kept_append ha hb, hc', Option.bind_some]
    by_cases hrun : b = []
    · subst hrun
      obtain rfl := Option.some.inj hc'
      obtain ⟨hremoved, hkept⟩ := removed_eq_nil (l := r') fun e he => ⟨hr e he, hr' e he⟩
      rw [if_pos rfl, hremoved, hkept, List.append_nil, transfer_nil, List.append_assoc]
      simp
    · have hn' : r' ≠ [] → (c.transfer queueId b).nBytesPerQueue queueId = some (n - bytes b) := by
        intro hne
        rw [nBytesPerQueue_transfer, hn (by simp [hne]), Option.map_some]
      have hlen : 0 < b.length := List.length_pos_iff.2 hrun
      rw [List.length_append, List.length_append] at hrounds
      rw [if_neg hrun, htransfer, ih (by omega)
        (fun e he => hmem e (List.mem_append_right _ he)) hn' (by omega), List.append_assoc,
        transfer_append]
      simp [hrun]

end WifiMacQueueContainer

end Ns3Pedca
