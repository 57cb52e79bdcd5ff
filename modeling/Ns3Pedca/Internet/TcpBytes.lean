import Ns3Pedca.Internet.TcpSearch

/-!
# Bytes with a flag

`bytesOf flag` counts the bytes of the items that have a flag, as the scoreboard does. A split
keeps every count. Joining two items keeps the counts of sacked and lost bytes if the flags of
the two agree, and `MergeItems` takes from the count of retransmitted bytes what the joined
item no longer has (`SameBytes.merge`). So a request keeps the counts if all the items that it
joins agree (`sameBytes_of_agree`), or if none has been sent (`sameBytes_of_unflagged`).
-/

set_option linter.unusedSectionVars false

namespace Ns3Pedca

/-! ## Bytes with a flag -/

/-- The bytes of the items of a list that have a flag. -/
def bytesOf (flag : TcpTxItem → Bool) (l : List TcpTxItem) : ℕ :=
  (l.map fun t => if flag t then t.packet.length else 0).sum

/-- All the bytes of a list. -/
def allBytes (l : List TcpTxItem) : ℕ :=
  bytesOf (fun _ => true) l

section Bytes

variable {flag : TcpTxItem → Bool} {t t1 t2 : TcpTxItem} {l l' : List TcpTxItem}
  {node : ℕ} {k : UInt32}

@[simp] theorem bytesOf_nil : bytesOf flag [] = 0 :=
  rfl

@[simp] theorem bytesOf_cons :
    bytesOf flag (t :: l) = (if flag t then t.packet.length else 0) + bytesOf flag l := by
  rw [bytesOf, List.map_cons, List.sum_cons, bytesOf]

@[simp] theorem bytesOf_append : bytesOf flag (l ++ l') = bytesOf flag l + bytesOf flag l' := by
  rw [bytesOf, List.map_append, List.sum_append, bytesOf, bytesOf]

@[simp] theorem allBytes_nil : allBytes [] = 0 :=
  rfl

@[simp] theorem allBytes_cons : allBytes (t :: l) = t.packet.length + allBytes l :=
  bytesOf_cons

@[simp] theorem allBytes_append : allBytes (l ++ l') = allBytes l + allBytes l' :=
  bytesOf_append

/-- A split keeps the bytes of every flag that its parts share with the item. -/
theorem bytesOf_split (hfirst : flag (t.splitFirst node k) = flag t)
    (hsecond : flag (t.splitSecond k) = flag t) (hk : k.toNat ≤ t.packet.length) :
    bytesOf flag (t.splitFirst node k :: t.splitSecond k :: l) = bytesOf flag (t :: l) := by
  rw [bytesOf_cons, bytesOf_cons, bytesOf_cons, hfirst, hsecond, t.length_splitFirst node hk,
    t.length_splitSecond]
  split <;> omega

/-- Two items with the same flag are joined. -/
theorem bytesOf_merge (hmerge : flag (t1.merge t2) = flag t1) (h : flag t1 = flag t2) :
    bytesOf flag (t1.merge t2 :: l) = bytesOf flag (t1 :: t2 :: l) := by
  have hlen : (t1.merge t2).packet.length = t1.packet.length + t2.packet.length :=
    List.length_append
  rw [bytesOf_cons, bytesOf_cons, bytesOf_cons, hmerge, hlen, ← h]
  split <;> omega

theorem bytesOf_le_allBytes : bytesOf flag l ≤ allBytes l := by
  refine List.sum_le_sum fun t ht => ?_
  rw [if_pos rfl]
  split
  · exact le_rfl
  · exact Nat.zero_le _

/-- Two flags that exclude each other. -/
theorem bytesOf_add_le {flag' : TcpTxItem → Bool}
    (h : ∀ t ∈ l, ¬ (flag t = true ∧ flag' t = true)) :
    bytesOf flag l + bytesOf flag' l ≤ allBytes l := by
  induction l with
  | nil => exact le_rfl
  | cons t l ih =>
    have hrest := ih fun x hx => h x (List.mem_cons_of_mem t hx)
    have hhead := h t (List.mem_cons_self ..)
    rw [bytesOf_cons, bytesOf_cons, allBytes_cons]
    split_ifs <;> simp_all <;> omega

theorem bytesOf_eq_zero (h : ∀ t ∈ l, flag t = false) : bytesOf flag l = 0 := by
  induction l with
  | nil => rfl
  | cons t l ih =>
    rw [bytesOf_cons, h t (List.mem_cons_self ..), ih fun x hx => h x (List.mem_cons_of_mem t hx)]
    rfl

end Bytes

/-! ## Searches -/

/-- A list that is edited keeps its bytes, those that are sacked or lost, and what the count
of retransmitted bytes is off by. -/
structure SameBytes (l : List TcpTxItem) (r : UInt32) (l' : List TcpTxItem) (r' : UInt32) :
    Prop where
  all : allBytes l' = allBytes l
  sacked : bytesOf (·.sacked) l' = bytesOf (·.sacked) l
  lost : bytesOf (·.lost) l' = bytesOf (·.lost) l
  retrans : r' + .ofNat (bytesOf (·.retrans) l) = r + .ofNat (bytesOf (·.retrans) l')
  flags : ∀ t' ∈ l', ∃ t ∈ l, t'.sacked = t.sacked ∧ t'.lost = t.lost ∧
    (t'.retrans = true → t.retrans = true)

section Searches

variable {l l' l1 l2 l'' : List TcpTxItem} {r r' r'' : UInt32} {t t1 t2 : TcpTxItem}
  {node : ℕ} {k numBytes acc : UInt32} {seq start e : SequenceNumber32}

theorem SameBytes.refl (l : List TcpTxItem) (r : UInt32) : SameBytes l r l r :=
  ⟨rfl, rfl, rfl, rfl, fun t ht => ⟨t, ht, rfl, rfl, id⟩⟩

theorem SameBytes.trans (h : SameBytes l r l' r') (h' : SameBytes l' r' l'' r'') :
    SameBytes l r l'' r'' where
  all := h'.all.trans h.all
  sacked := h'.sacked.trans h.sacked
  lost := h'.lost.trans h.lost
  retrans := by
    have h1 := h.retrans
    have h2 := h'.retrans
    grind
  flags t'' ht'' := by
    obtain ⟨t', ht', hs', hl', hr'⟩ := h'.flags t'' ht''
    obtain ⟨t, ht, hs, hl, hr⟩ := h.flags t' ht'
    exact ⟨t, ht, hs'.trans hs, hl'.trans hl, fun hr'' => hr (hr' hr'')⟩

theorem SameBytes.append (h : SameBytes l r l' r') (l1 : List TcpTxItem) :
    SameBytes (l1 ++ l) r (l1 ++ l') r' where
  all := by rw [allBytes_append, allBytes_append, h.all]
  sacked := by rw [bytesOf_append, bytesOf_append, h.sacked]
  lost := by rw [bytesOf_append, bytesOf_append, h.lost]
  retrans := by
    have hr := h.retrans
    rw [bytesOf_append, bytesOf_append, UInt32.ofNat_add, UInt32.ofNat_add]
    grind
  flags t' ht' := by
    rcases List.mem_append.1 ht' with ht' | ht'
    · exact ⟨t', List.mem_append_left l ht', rfl, rfl, id⟩
    · obtain ⟨t, ht, hflags⟩ := h.flags t' ht'
      exact ⟨t, List.mem_append_right l1 ht, hflags⟩

theorem SameBytes.split (l : List TcpTxItem) (r : UInt32) (hk : k.toNat ≤ t.packet.length) :
    SameBytes (t :: l) r (t.splitFirst node k :: t.splitSecond k :: l) r where
  all := bytesOf_split rfl rfl hk
  sacked := bytesOf_split rfl rfl hk
  lost := bytesOf_split rfl rfl hk
  retrans := by rw [bytesOf_split rfl rfl hk]
  flags t' ht' := by
    simp only [List.mem_cons] at ht'
    rcases ht' with rfl | rfl | ht'
    · exact ⟨t, List.mem_cons_self .., rfl, rfl, id⟩
    · exact ⟨t, List.mem_cons_self .., rfl, rfl, id⟩
    · exact ⟨t', List.mem_cons_of_mem t ht', rfl, rfl, id⟩

/-- What `MergeItems` takes from the count. -/
theorem bytesOf_retrans_merge (t1 t2 : TcpTxItem) (l : List TcpTxItem) :
    UInt32.ofNat (bytesOf (·.retrans) (t1.merge t2 :: l)) + t1.uncounted t2 =
      .ofNat (bytesOf (·.retrans) (t1 :: t2 :: l)) := by
  unfold TcpTxItem.uncounted
  split
  next hne =>
    have hmerge : (t1.merge t2).retrans = false := if_pos hne
    simp only [bytesOf_cons, hmerge]
    cases h1 : t1.retrans
    · have h2 : t2.retrans = true := by
        rw [h1] at hne
        exact Bool.eq_true_of_not_eq_false (Ne.symm hne)
      simp [h2, UInt32.ofNat_add, TcpTxItem.ofNat_length]
      grind
    · have h2 : t2.retrans = false := by
        rw [h1] at hne
        simpa using Ne.symm hne
      simp [h2, UInt32.ofNat_add, TcpTxItem.ofNat_length]
      grind
  next heq =>
    have hmerge : (t1.merge t2).retrans = t1.retrans := if_neg heq
    rw [bytesOf_merge hmerge (not_not.1 heq)]
    grind

theorem SameBytes.merge (l : List TcpTxItem) (r : UInt32) (hsacked : t2.sacked = t1.sacked)
    (hlost : t2.lost = t1.lost) :
    SameBytes (t1 :: t2 :: l) r (t1.merge t2 :: l) (r - t1.uncounted t2) where
  all := bytesOf_merge rfl rfl
  sacked := bytesOf_merge rfl hsacked.symm
  lost := bytesOf_merge rfl hlost.symm
  retrans := by
    have hmerge := bytesOf_retrans_merge t1 t2 l
    grind
  flags t' ht' := by
    simp only [List.mem_cons] at ht'
    rcases ht' with rfl | ht'
    · refine ⟨t1, List.mem_cons_self .., rfl, rfl, fun hr => ?_⟩
      change (if _ then false else t1.retrans) = true at hr
      split at hr
      · cases hr
      · exact hr
    · exact ⟨t', List.mem_cons_of_mem _ (List.mem_cons_of_mem _ ht'), rfl, rfl, id⟩

/-- The items that follow the item `t` have its flags, as far as they are joined with it. The
item that results is shorter than half of the number space. -/
def AgreeFrom (numBytes : UInt32) (seq : SequenceNumber32) (sacked lost : Bool) :
    UInt32 → List TcpTxItem → Prop
  | _, [] => True
  | acc, next :: after => seq + numBytes ≤ seq + acc ∨
    (next.sacked = sacked ∧ next.lost = lost ∧ seq < seq + (acc + next.size) ∧
      AgreeFrom numBytes seq sacked lost (acc + next.size) after)

/-- The items that are joined for `numBytes` bytes at `seq` have the same flags. -/
def Agree (numBytes : UInt32) (seq : SequenceNumber32) :
    SequenceNumber32 → List TcpTxItem → Prop
  | _, [] => True
  | start, t :: after =>
    if seq < start + t.size then
      AgreeFrom numBytes seq t.sacked t.lost (start + t.size - seq) after
    else Agree numBytes seq (start + t.size) after

instance AgreeFrom.decidable (numBytes : UInt32) (seq : SequenceNumber32) (sacked lost : Bool) :
    (acc : UInt32) → (l : List TcpTxItem) →
      Decidable (AgreeFrom numBytes seq sacked lost acc l)
  | _, [] => inferInstanceAs (Decidable True)
  | acc, next :: after =>
    have := AgreeFrom.decidable numBytes seq sacked lost (acc + next.size) after
    inferInstanceAs (Decidable (seq + numBytes ≤ seq + acc ∨
      (next.sacked = sacked ∧ next.lost = lost ∧ seq < seq + (acc + next.size) ∧
        AgreeFrom numBytes seq sacked lost (acc + next.size) after)))

instance Agree.decidable (numBytes : UInt32) (seq : SequenceNumber32) :
    (start : SequenceNumber32) → (l : List TcpTxItem) → Decidable (Agree numBytes seq start l)
  | _, [] => inferInstanceAs (Decidable True)
  | start, t :: after =>
    have := Agree.decidable numBytes seq (start + t.size) after
    inferInstanceAs (Decidable (if seq < start + t.size then
      AgreeFrom numBytes seq t.sacked t.lost (start + t.size - seq) after
    else Agree numBytes seq (start + t.size) after))

theorem agree_append (h : Passes seq start l1 e) :
    Agree numBytes seq start (l1 ++ l) ↔ Agree numBytes seq e l := by
  induction h with
  | nil => exact Iff.rfl
  | cons hpass h ih => rwa [List.cons_append, Agree, if_neg hpass]

theorem agree_of_lt (hin : seq < start + t.size) :
    Agree numBytes seq start (t :: l) ↔
      AgreeFrom numBytes seq t.sacked t.lost (start + t.size - seq) l := by
  rw [Agree, if_pos hin]

/-- An edit keeps the bytes, and the items that are still to be joined agree. -/
theorem SearchStep.sameBytes_edited {u : UInt32}
    (h : SearchStep numBytes seq node start l (.edited l' u))
    (hagree : Agree numBytes seq start l) (r : UInt32) :
    SameBytes l r l' (r - u) ∧ Agree numBytes seq start l' := by
  cases h with
  | merge hpass hin hend =>
    rw [agree_append hpass, agree_of_lt hin, SequenceNumber32.add_sub_self] at hagree
    rw [agree_append hpass]
    obtain hle | ⟨hsacked, hlost, hlt, hagree⟩ := hagree
    · exact absurd hle hend
    · refine ⟨(SameBytes.merge _ r hsacked hlost).append _, ?_⟩
      rw [agree_of_lt (by rwa [TcpTxItem.size_merge]), SequenceNumber32.add_sub_self,
        TcpTxItem.size_merge]
      exact hagree
  | @split l1 l2 t e hpass hin hlt =>
    have hk := toNat_sub_le hlt hin
    rw [agree_append hpass, agree_of_lt hin] at hagree
    have hfirst : e + (t.splitFirst node (seq - e)).size = seq := by
      rw [t.size_splitFirst node hk, SequenceNumber32.add_sub_cancel]
    have hsecond : seq + (t.splitSecond (seq - e)).size = e + t.size := by
      rw [t.size_splitSecond hk]
      refine SequenceNumber32.ext_value ?_
      rw [SequenceNumber32.value_add, SequenceNumber32.value_add, SequenceNumber32.sub_def]
      grind
    have hself : ¬ seq < seq := by
      rw [SequenceNumber32.not_lt]
      exact SequenceNumber32.le_refl seq
    refine ⟨?_, ?_⟩
    · rw [UInt32.sub_zero]
      exact (SameBytes.split _ r hk).append _
    · rw [agree_append hpass, Agree, hfirst, if_neg hself, Agree, hsecond, if_pos hin]
      exact hagree

theorem SearchStep.sameBytes_found {before after : List TcpTxItem}
    (h : SearchStep numBytes seq node start l (.found before t after)) (r : UInt32) :
    SameBytes l r (before ++ t :: after) r := by
  cases h with
  | found hpass hin hend => exact SameBytes.refl _ r
  | first hpass hin hle hlt => exact (SameBytes.split _ r (toNat_le_of_lt_size hlt)).append _

/-- `GetPacketFromList` keeps the bytes of a list whose joined items agree. -/
theorem sameBytes_of_agree {found : Found} (hagree : Agree numBytes seq start l)
    (hget : getPacketFromList numBytes seq node l start r = some found) :
    SameBytes l r found.list found.retrans := by
  refine getPacketFromList_rec
    (R := fun l' r' => SameBytes l r l' r' ∧ Agree numBytes seq start l')
    (S := fun before item after r' => SameBytes l r (before ++ item :: after) r')
    ?_ ?_ ⟨SameBytes.refl l r, hagree⟩ hget
  · intro l' l'' r' u node ⟨hsame, hagree⟩ hstep
    obtain ⟨hsame', hagree'⟩ := hstep.sameBytes_edited hagree r'
    exact ⟨hsame.trans hsame', hagree'⟩
  · intro l' r' node before item after ⟨hsame, _⟩ hstep
    exact hsame.trans (hstep.sameBytes_found r')

/-- Items that have not been sent. -/
def Unflagged (l : List TcpTxItem) : Prop :=
  ∀ t ∈ l, t.sacked = false ∧ t.lost = false ∧ t.retrans = false

theorem SearchStep.sameBytes_unflagged {u : UInt32}
    (h : SearchStep numBytes seq node start l (.edited l' u)) (hflags : Unflagged l) (r : UInt32) :
    SameBytes l r l' (r - u) := by
  cases h with
  | @merge l1 l2 t next hpass hin hend =>
    obtain ⟨hs, hl, -⟩ := hflags t (by simp)
    obtain ⟨hs', hl', -⟩ := hflags next (by simp)
    exact (SameBytes.merge _ r (hs'.trans hs.symm) (hl'.trans hl.symm)).append _
  | split hpass hin hlt =>
    rw [UInt32.sub_zero]
    exact (SameBytes.split _ r (toNat_sub_le hlt hin)).append _

theorem SameBytes.unflagged (h : SameBytes l r l' r') (hflags : Unflagged l) : Unflagged l' := by
  intro t' ht'
  obtain ⟨t, ht, hs, hl, hr⟩ := h.flags t' ht'
  obtain ⟨hs', hl', hr'⟩ := hflags t ht
  refine ⟨hs.trans hs', hl.trans hl', ?_⟩
  by_contra hne
  rw [hr (Bool.eq_true_of_not_eq_false hne)] at hr'
  cases hr'

/-- `GetPacketFromList` keeps the bytes of a list without flags. -/
theorem sameBytes_of_unflagged {found : Found} (hflags : Unflagged l)
    (hget : getPacketFromList numBytes seq node l start r = some found) :
    SameBytes l r found.list found.retrans := by
  refine getPacketFromList_rec (R := fun l' r' => SameBytes l r l' r')
    (S := fun before item after r' => SameBytes l r (before ++ item :: after) r')
    ?_ ?_ (SameBytes.refl l r) hget
  · intro l' l'' r' u node hsame hstep
    exact hsame.trans (hstep.sameBytes_unflagged (hsame.unflagged hflags) r')
  · intro l' r' node before item after hsame hstep
    exact hsame.trans (hstep.sameBytes_found r')

end Searches

end Ns3Pedca
