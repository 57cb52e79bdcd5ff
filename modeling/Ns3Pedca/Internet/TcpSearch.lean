import Ns3Pedca.Internet.TcpTxBuffer

/-!
# Searches of the transmit buffer

What one search of `getPacketFromList` can do (`SearchStep`) : it passes the items that end
before `seq` and then returns an item, or splits one, or joins two. A property of the list
that one step keeps is kept by all of them (`getPacketFromList_rec`).
-/

set_option linter.unusedSectionVars false

namespace Ns3Pedca

/-! ## Items -/

namespace TcpTxItem

variable (t t1 t2 : TcpTxItem) (node : ℕ) {k : UInt32}

theorem ofNat_length : UInt32.ofNat t.packet.length = t.size :=
  rfl

theorem length_splitFirst (h : k.toNat ≤ t.packet.length) :
    (t.splitFirst node k).packet.length = k.toNat := by
  rw [splitFirst, List.length_take, min_eq_left h]

theorem length_splitSecond : (t.splitSecond k).packet.length = t.packet.length - k.toNat :=
  List.length_drop ..

theorem size_splitFirst (h : k.toNat ≤ t.packet.length) : (t.splitFirst node k).size = k := by
  rw [size, t.length_splitFirst node h, UInt32.ofNat_toNat]

theorem size_splitSecond (h : k.toNat ≤ t.packet.length) : (t.splitSecond k).size = t.size - k := by
  have hadd : t.size = (t.splitSecond k).size + k := by
    rw [size, size, length_splitSecond, ← UInt32.ofNat_toNat (x := k), ← UInt32.ofNat_add,
      UInt32.toNat_ofNat_of_lt' k.toNat_lt, Nat.sub_add_cancel h]
  rw [hadd]
  grind

theorem size_merge : (t1.merge t2).size = t1.size + t2.size := by
  rw [size, merge, List.length_append, UInt32.ofNat_add]
  rfl

theorem toNat_size_le : t.size.toNat ≤ t.packet.length := by
  rw [size, UInt32.toNat_ofNat']
  exact Nat.mod_le ..

end TcpTxItem

/-! ## One search -/

section Search

variable {numBytes : UInt32} {seq start e : SequenceNumber32} {node : ℕ}
  {l l1 l2 : List TcpTxItem}

/-- The items of a list that the loop passes, up to the item that begins at `e`. -/
inductive Passes (seq : SequenceNumber32) :
    SequenceNumber32 → List TcpTxItem → SequenceNumber32 → Prop
  | nil {start : SequenceNumber32} : Passes seq start [] start
  | cons {start e : SequenceNumber32} {t : TcpTxItem} {l1 : List TcpTxItem}
      (hpass : ¬ seq < start + t.size) (h : Passes seq (start + t.size) l1 e) :
      Passes seq start (t :: l1) e

/-- What a search can lead to. -/
inductive SearchStep (numBytes : UInt32) (seq : SequenceNumber32) (node : ℕ)
    (start : SequenceNumber32) : List TcpTxItem → Search → Prop
  /-- An item that begins at `seq` and ends where it is asked to, or is the last. -/
  | found {l1 l2 : List TcpTxItem} {t : TcpTxItem} (hpass : Passes seq start l1 seq)
      (hin : seq < seq + t.size)
      (hend : numBytes = t.size ∨ l2 = [] ∧ ¬ seq + numBytes ≤ seq + t.size) :
      SearchStep numBytes seq node start (l1 ++ t :: l2) (.found l1 t l2)
  /-- The first part of an item. -/
  | first {l1 l2 : List TcpTxItem} {t : TcpTxItem} (hpass : Passes seq start l1 seq)
      (hin : seq < seq + t.size) (hle : seq + numBytes ≤ seq + t.size)
      (hlt : numBytes < t.size) :
      SearchStep numBytes seq node start (l1 ++ t :: l2)
        (.found l1 (t.splitFirst node numBytes) (t.splitSecond numBytes :: l2))
  /-- The item that begins at `seq` is joined with the next one. -/
  | merge {l1 l2 : List TcpTxItem} {t next : TcpTxItem} (hpass : Passes seq start l1 seq)
      (hin : seq < seq + t.size) (hend : ¬ seq + numBytes ≤ seq + t.size) :
      SearchStep numBytes seq node start (l1 ++ t :: next :: l2)
        (.edited (l1 ++ t.merge next :: l2) (t.uncounted next))
  /-- The item that `seq` is inside of is split there. -/
  | split {l1 l2 : List TcpTxItem} {t : TcpTxItem} {e : SequenceNumber32}
      (hpass : Passes seq start l1 e) (hin : seq < e + t.size) (hlt : e < seq) :
      SearchStep numBytes seq node start (l1 ++ t :: l2)
        (.edited (l1 ++ t.splitFirst node (seq - e) :: t.splitSecond (seq - e) :: l2) 0)
  | fatal {l : List TcpTxItem} : SearchStep numBytes seq node start l .fatal

theorem SearchStep.cons {t : TcpTxItem} {r : Search} (hpass : ¬ seq < start + t.size)
    (h : SearchStep numBytes seq node (start + t.size) l r) :
    SearchStep numBytes seq node start (t :: l) (r.cons t) := by
  cases h with
  | found hpasses hin hend =>
    exact @SearchStep.found _ _ _ _ (t :: _) _ _ (.cons hpass hpasses) hin hend
  | first hpasses hin hle hlt =>
    exact @SearchStep.first _ _ _ _ (t :: _) _ _ (.cons hpass hpasses) hin hle hlt
  | merge hpasses hin hend =>
    exact @SearchStep.merge _ _ _ _ (t :: _) _ _ _ (.cons hpass hpasses) hin hend
  | split hpasses hin hlt =>
    exact @SearchStep.split _ _ _ _ (t :: _) _ _ _ (.cons hpass hpasses) hin hlt
  | fatal => exact .fatal

theorem searchEnd_step {t : TcpTxItem} (hin : seq < seq + t.size) :
    SearchStep numBytes seq node seq (t :: l) (searchEnd numBytes seq node t l) := by
  unfold searchEnd
  split
  next hle =>
    split
    next heq => exact @SearchStep.found _ _ _ _ [] _ _ .nil hin (.inl heq)
    next =>
      split
      next hlt => exact @SearchStep.first _ _ _ _ [] _ _ .nil hin hle hlt
      next => exact .fatal
  next hend =>
    cases l with
    | nil => exact @SearchStep.found _ _ _ _ [] _ _ .nil hin (.inr ⟨rfl, hend⟩)
    | cons next l => exact @SearchStep.merge _ _ _ _ [] _ _ _ .nil hin hend

theorem search_step (numBytes : UInt32) (seq : SequenceNumber32) (node : ℕ) :
    ∀ (start : SequenceNumber32) (l : List TcpTxItem),
      SearchStep numBytes seq node start l (search numBytes seq node start l)
  | _, [] => .fatal
  | start, t :: after => by
    unfold search
    split
    next hin =>
      split
      next heq =>
        subst heq
        exact searchEnd_step hin
      next =>
        split
        next hlt => exact @SearchStep.split _ _ _ _ [] _ _ _ .nil hin hlt
        next => exact .fatal
    next hpass => exact (search_step numBytes seq node (start + t.size) after).cons hpass

/-- A split is inside the item. -/
theorem toNat_sub_le {t : TcpTxItem} (hlt : e < seq) (hin : seq < e + t.size) :
    (seq - e).toNat ≤ t.packet.length :=
  (SequenceNumber32.toNat_sub_lt hlt hin).le.trans t.toNat_size_le

theorem toNat_le_of_lt_size {t : TcpTxItem} (h : numBytes < t.size) :
    numBytes.toNat ≤ t.packet.length :=
  (UInt32.lt_iff_toNat_lt.1 h).le.trans t.toNat_size_le

/-! ## All searches -/

/-- What every step keeps is kept, and what the last step has is had in the end. -/
theorem getPacketFromList_rec {list : List TcpTxItem} {retrans : UInt32} {found : Found}
    {R : List TcpTxItem → UInt32 → Prop}
    {S : List TcpTxItem → TcpTxItem → List TcpTxItem → UInt32 → Prop}
    (hedited : ∀ l l' r u node, R l r →
      SearchStep numBytes seq node start l (.edited l' u) → R l' (r - u))
    (hfound : ∀ l r node before item after, R l r →
      SearchStep numBytes seq node start l (.found before item after) →
        S before item after r)
    (h : R list retrans)
    (hget : getPacketFromList numBytes seq node list start retrans = some found) :
    S found.before found.item found.after found.retrans := by
  unfold getPacketFromList at hget
  generalize list.length + 2 = fuel at hget
  induction fuel generalizing list retrans node with
  | zero => cases hget
  | succ fuel ih =>
    have hstep := search_step numBytes seq node start list
    unfold getPacketFromListWithin at hget
    split at hget
    next heq =>
      cases hget
      exact hfound _ _ _ _ _ _ h (heq ▸ hstep)
    next heq => exact ih (hedited _ _ _ _ _ h (heq ▸ hstep)) hget
    next => cases hget

end Search

/-! ## Copies -/

namespace TcpTxBuffer

variable {b b' : TcpTxBuffer} {now : ℕ} {numBytes s : UInt32} {seq : SequenceNumber32}
  {r : Option TcpTxItem}

/-- The bytes that a copy takes from the data already sent. -/
def requested (b : TcpTxBuffer) (numBytes : UInt32) (seq : SequenceNumber32) : UInt32 :=
  let s := min numBytes (b.sizeFromSequence seq)
  if seq + s ≤ b.sentEnd then s else min (b.sentEnd.value - seq.value) (b.sizeFromSequence seq)

/-- What a copy can do. -/
inductive CopyStep (b : TcpTxBuffer) (now : ℕ) (numBytes : UInt32) (seq : SequenceNumber32) :
    Option TcpTxItem → TcpTxBuffer → Prop
  | null (h : min numBytes (b.sizeFromSequence seq) = 0 ∨ b.requested numBytes seq = 0) :
    CopyStep b now numBytes seq none b
  | transmitted {item : TcpTxItem} {b' : TcpTxBuffer} (hne : b.requested numBytes seq ≠ 0)
      (hend : seq + b.requested numBytes seq ≤ b.sentEnd)
      (h : b.getTransmittedSegment now (b.requested numBytes seq) seq = some (item, b')) :
    CopyStep b now numBytes seq (some item) b'
  | new {item : TcpTxItem} {b' : TcpTxBuffer}
      (hne : min numBytes (b.sizeFromSequence seq) ≠ 0) (hend : b.sentEnd = seq)
      (h : b.getNewSegment now (min numBytes (b.sizeFromSequence seq)) = some (item, b')) :
    CopyStep b now numBytes seq (some item) b'

theorem copyFromSequence_step (h : b.copyFromSequence now numBytes seq = some (r, b')) :
    CopyStep b now numBytes seq r b' := by
  unfold copyFromSequence copyFromSequenceWithin at h
  split at h
  · cases h
  next hge =>
    unfold copyBranches at h
    split at h
    next hzero =>
      cases h
      exact .null (.inl hzero)
    next hne =>
      split at h
      next hle =>
        have hreq : b.requested numBytes seq = min numBytes (b.sizeFromSequence seq) := if_pos hle
        obtain ⟨sent, hsent, heq⟩ := Option.map_eq_some_iff.1 h
        cases heq
        rw [← hreq] at hne hle hsent
        exact .transmitted hne hle hsent
      next hgt =>
        split at h
        next =>
          split at h
          next hend =>
            obtain ⟨sent, hsent, heq⟩ := Option.map_eq_some_iff.1 h
            cases heq
            exact .new hne hend hsent
          next => cases h
        next hnot =>
          split at h
          next =>
            have hreq : b.requested numBytes seq =
                min (b.sentEnd.value - seq.value) (b.sizeFromSequence seq) := if_neg hgt
            unfold copyFromSequenceWithin copyBranches at h
            rw [if_neg hge, ← hreq] at h
            split at h
            next hzero =>
              cases h
              exact .null (.inr hzero)
            next hne =>
              split at h
              next hle =>
                obtain ⟨sent, hsent, heq⟩ := Option.map_eq_some_iff.1 h
                cases heq
                exact .transmitted hne hle hsent
              next =>
                unfold copyFromSequenceWithin at h
                split at h <;> cases h
          next => cases h

/-- What is found for the segment transmitted again. -/
theorem getTransmittedSegment_found {item : TcpTxItem}
    (h : b.getTransmittedSegment now s seq = some (item, b')) :
    ∃ found, getPacketFromList (segmentLimit seq s b.sentList) seq b.nextNode b.sentList
        b.firstByteSeq b.retrans = some found ∧
      item = { found.item with retrans := true, lastSent := now } ∧
      b' = { b with
        sentList := found.before ++ item :: found.after
        retrans := if found.item.retrans then found.retrans else found.retrans + item.size
        nextNode := found.nextNode } := by
  obtain ⟨found, hfound, heq⟩ := Option.map_eq_some_iff.1 h
  cases heq
  exact ⟨found, hfound, rfl, rfl⟩

/-- What is found for a new segment. -/
theorem getNewSegment_found {item : TcpTxItem}
    (h : b.getNewSegment now s = some (item, b')) :
    ∃ found, getPacketFromList s b.sentEnd b.nextNode b.appList b.sentEnd b.retrans =
        some found ∧
      item = { found.item with
        node := found.nextNode
        startSeq := b.sentEnd
        lastSent := now } ∧
      b' = { b with
        appList := found.before ++ found.after
        sentList := b.sentList ++ [item]
        sentSize := b.sentSize + item.size
        retrans := found.retrans
        nextNode := found.nextNode + 1 } := by
  obtain ⟨found, hfound, heq⟩ := Option.map_eq_some_iff.1 h
  cases heq
  exact ⟨found, hfound, rfl, rfl⟩

end TcpTxBuffer

end Ns3Pedca
