import Ns3Pedca.Lte.Asn1Header

/-!
# The round trip of ASN.1 fields

A header that is written holds the bits of its items one after the other (`Written`), and one that
is read has bits that are not read yet (`Asn1Reader.unread`), wherever the items stand in the
octets.

Items are written in the octets that their bits fill, and can be read from these. They are all
restored if and only if the variables for items of only one possible value have it already, because
`DeserializeInteger` returns without a result for these (`decodes_iff`).
-/

namespace Ns3Pedca

open OctetBits

/-! ## Writing -/

namespace Asn1Header

/-- The bits of the pending octet. -/
structure Pending (s : Asn1Header) (front : List Bool) : Prop where
  numPendingBits : s.numPendingBits = front.length
  length_le : front.length ≤ 8
  bits_eq : bits s.pendingBits = front ++ List.replicate (8 - front.length) false

/-- The bits that are written. -/
def Written (s : Asn1Header) (stream : List Bool) : Prop :=
  ∃ front, s.Pending front ∧ front.length < 8 ∧ s.result.flatMap bits ++ front = stream

variable {s : Asn1Header} {data front stream : List Bool} {n : ℕ} {octet bit : UInt8}

theorem reverse_take_succ (h : n < data.length) :
    (data.take (n + 1)).reverse = data.getD n false :: (data.take n).reverse := by
  rw [List.take_succ_eq_append_getElem h, List.reverse_append, List.getD_eq_getElem _ _ h]
  rfl

theorem pending_nil (h : s.numPendingBits = 0) (hbits : s.pendingBits = 0) : s.Pending [] :=
  ⟨h, Nat.zero_le 8, by rw [hbits, bits_zero]; rfl⟩

/-- One bit more in an octet. -/
theorem bits_or (h : bits octet = front ++ List.replicate (8 - front.length) false)
    (hlt : front.length < 8) (v : Bool) :
    bits (octet ||| if v then mask front.length else 0) =
      (front ++ [v]) ++ List.replicate (8 - (front ++ [v]).length) false := by
  have hlen : 8 - front.length = 8 - (front ++ [v]).length + 1 := by
    rw [List.length_append, List.length_singleton]
    omega
  rw [hlen] at h
  rw [bits_or_mask h, List.append_cons]

theorem next_bit (hbit : front.length < 8 → bit = mask front.length) (v : Bool)
    (hlt : (front ++ [v]).length < 8) :
    bit >>> 1 &&& ~~~bit = mask (front ++ [v]).length := by
  rw [List.length_append, List.length_singleton] at hlt ⊢
  rw [hbit (by omega), next_mask (by omega)]

/-- Bits fill the pending octet. -/
theorem fillLoop_spec (hn : n ≤ data.length) : ∀ {s : Asn1Header} {front : List Bool} {bit : UInt8},
    s.Pending front → (front.length < 8 → bit = mask front.length) →
      ∃ s', fillLoop data n bit s = (n - (8 - front.length), s') ∧ s'.result = s.result ∧
        s'.Pending (front ++ (data.take n).reverse.take (8 - front.length)) := by
  induction n with
  | zero =>
    intro s front bit hs _
    refine ⟨s, ?_, rfl, ?_⟩
    · rw [Nat.zero_sub]
      rfl
    · rw [List.take_zero, List.reverse_nil, List.take_nil, List.append_nil]
      exact hs
  | succ n ih =>
    intro s front bit hs hbit
    rw [fillLoop]
    by_cases hlt : front.length < 8
    · have hlen (v : Bool) : (front ++ [v]).length = front.length + 1 := List.length_append
      have hnext : { s with
          pendingBits := s.pendingBits ||| if data.getD n false then bit else 0
          numPendingBits := s.numPendingBits + 1 }.Pending (front ++ [data.getD n false]) := by
        refine ⟨?_, (hlen _).trans_le hlt, ?_⟩
        · rw [hs.numPendingBits, hlen]
        · rw [hbit hlt]
          exact bits_or hs.bits_eq hlt _
      obtain ⟨s', hloop, hresult, hpending⟩ :=
        ih (Nat.le_of_succ_le hn) hnext (next_bit hbit _)
      rw [if_pos (hs.numPendingBits.trans_lt hlt), hloop]
      refine ⟨s', ?_, hresult, ?_⟩
      · rw [hlen]
        congr 1
        omega
      · obtain ⟨k, hk⟩ := Nat.exists_eq_add_of_lt hlt
        rw [hlen, List.append_assoc, show 8 - (front.length + 1) = k by omega] at hpending
        rw [reverse_take_succ hn, show 8 - front.length = k + 1 by omega, List.take_succ_cons]
        exact hpending
    · have hfull : 8 - front.length = 0 := by omega
      rw [if_neg (by rw [hs.numPendingBits]; exact hlt), hfull, List.take_zero, List.append_nil]
      exact ⟨s, rfl, rfl, hs⟩

/-- Fewer than eight bits are stored. -/
theorem bits_storeLoop (hn : n ≤ data.length) : ∀ {octet bit : UInt8} {front : List Bool},
    bits octet = front ++ List.replicate (8 - front.length) false →
      (front.length < 8 → bit = mask front.length) → front.length + n ≤ 8 →
        bits (storeLoop data n bit octet) = (front ++ (data.take n).reverse) ++
          List.replicate (8 - (front ++ (data.take n).reverse).length) false := by
  induction n with
  | zero =>
    intro octet bit front h _ _
    rw [List.take_zero, List.reverse_nil, List.append_nil]
    exact h
  | succ n ih =>
    intro octet bit front h hbit hle
    have hlen : (front ++ [data.getD n false]).length = front.length + 1 := List.length_append
    have hnext := @ih (Nat.le_of_succ_le hn) (octet ||| if data.getD n false then bit else 0)
      (bit >>> 1 &&& ~~~bit) (front ++ [data.getD n false])
      (by rw [hbit (by omega)]; exact bits_or h (by omega) _) (next_bit hbit _) (by omega)
    rw [reverse_take_succ hn, List.append_cons, storeLoop]
    exact hnext

theorem bits_octetLoop_eight : ∀ b₀ b₁ b₂ b₃ b₄ b₅ b₆ b₇ : Bool,
    bits (octetLoop [b₀, b₁, b₂, b₃, b₄, b₅, b₆, b₇] 8 8 1 0) =
      [b₇, b₆, b₅, b₄, b₃, b₂, b₁, b₀] := by
  decide

/-- Eight bits are an octet. -/
theorem bits_octetLoop (hn : n + 8 ≤ data.length) :
    (data.take (n + 8)).reverse = bits (octetLoop data (n + 8) 8 1 0) ++ (data.take n).reverse := by
  have hoctet : octetLoop data (n + 8) 8 1 0 = octetLoop [data.getD n false,
      data.getD (n + 1) false, data.getD (n + 2) false, data.getD (n + 3) false,
      data.getD (n + 4) false, data.getD (n + 5) false, data.getD (n + 6) false,
      data.getD (n + 7) false] 8 8 1 0 := rfl
  rw [hoctet, bits_octetLoop_eight, reverse_take_succ (by omega), reverse_take_succ (by omega),
    reverse_take_succ (by omega), reverse_take_succ (by omega), reverse_take_succ (by omega),
    reverse_take_succ (by omega), reverse_take_succ (by omega), reverse_take_succ (by omega)]
  rfl

/-- The bits that do not fill the pending octet are written. -/
theorem restLoop_spec {rounds : ℕ} : ∀ {n : ℕ} {s : Asn1Header}, n ≤ data.length → n ≤ rounds →
    s.pendingBits = 0 → s.numPendingBits = 0 →
      (restLoop data rounds n s).Written (s.result.flatMap bits ++ (data.take n).reverse) := by
  induction rounds with
  | zero =>
    intro n s _ hn hbits hnum
    obtain rfl := Nat.le_zero.1 hn
    exact ⟨[], pending_nil hnum hbits, Nat.zero_lt_succ 7, rfl⟩
  | succ rounds ih =>
    intro n s hdata hn hbits hnum
    rw [restLoop]
    split_ifs with hzero hlt
    · rw [hzero]
      exact ⟨[], pending_nil hnum hbits, Nat.zero_lt_succ 7, rfl⟩
    · have hlen : (data.take n).reverse.length = n := by
        rw [List.length_reverse, List.length_take_of_le hdata]
      have hstore := @bits_storeLoop data n hdata s.pendingBits 0x80 []
        (by rw [hbits, bits_zero]; rfl) (fun _ => rfl) (by rw [List.length_nil]; omega)
      exact ⟨_, ⟨hlen.symm, by omega, hstore⟩, by omega, rfl⟩
    · obtain ⟨m, rfl⟩ := Nat.exists_eq_add_of_le' (Nat.le_of_not_lt hlt)
      have hrest := ih (n := m) (s := s.writeOctet (octetLoop data (m + 8) 8 1 0)) (by omega)
        (by omega) hbits hnum
      rw [writeOctet, List.flatMap_append, List.flatMap_singleton, List.append_assoc,
        ← bits_octetLoop hdata] at hrest
      rw [Nat.add_sub_cancel]
      exact hrest

/-- A bit string is written after what was written, most significant bit first. -/
theorem Written.serializeBitset (h : s.Written stream) (hdata : data.length ≤ 255) :
    (s.serializeBitset data).Written (stream ++ data.reverse) := by
  obtain ⟨front, hs, hlt, rfl⟩ := h
  rw [Asn1Header.serializeBitset]
  split_ifs with hzero
  · rw [List.length_eq_zero_iff.1 hzero, List.reverse_nil, List.append_nil]
    exact ⟨front, hs, hlt, rfl⟩
  · rw [Nat.mod_eq_of_lt (show data.length < 256 by omega), fill]
    dsimp only
    by_cases hpos : 0 < s.numPendingBits
    · obtain ⟨s', hloop, hresult, hpending⟩ := fillLoop_spec le_rfl hs fun _ => rfl
      rw [if_pos hpos, hs.numPendingBits, hloop]
      dsimp only
      have hreverse : (data.take data.length).reverse = data.reverse := by rw [List.take_length]
      rw [hreverse] at hpending
      split_ifs with hfull
      · -- the octet is full, and the rest is written from its start
        have hall := hpending.numPendingBits
        have hle := hpending.length_le
        have hbits := hpending.bits_eq
        rw [show 8 - (front ++ data.reverse.take (8 - front.length)).length = 0 by omega,
          List.replicate_zero, List.append_nil] at hbits
        have hrest := @restLoop_spec data data.length (data.length - (8 - front.length))
          { s'.writeOctet s'.pendingBits with numPendingBits := 0, pendingBits := 0 }
          (Nat.sub_le _ _) (Nat.sub_le _ _) rfl rfl
        have hsplit : data.reverse = data.reverse.take (8 - front.length) ++
            (data.take (data.length - (8 - front.length))).reverse := by
          rw [← List.drop_reverse, List.take_append_drop]
        have hoctets : (s'.writeOctet s'.pendingBits).result.flatMap bits =
            s.result.flatMap bits ++ (front ++ data.reverse.take (8 - front.length)) := by
          rw [writeOctet, List.flatMap_append, List.flatMap_singleton, hbits, hresult]
        dsimp only at hrest
        rw [hoctets, List.append_assoc, List.append_assoc, ← hsplit, ← List.append_assoc] at hrest
        exact hrest
      · have hnum := hpending.numPendingBits
        have hlen := congrArg List.length (List.take_append_drop (8 - front.length) data.reverse)
        rw [List.length_append, List.length_take, List.length_drop, List.length_reverse] at hlen
        rw [List.length_append, List.length_take, List.length_reverse] at hnum
        have hshort : data.length ≤ 8 - front.length := by omega
        have hfinal : restLoop data data.length (data.length - (8 - front.length)) s' = s' := by
          rw [Nat.sub_eq_zero_of_le hshort]
          obtain ⟨k, hk⟩ := Nat.exists_eq_succ_of_ne_zero hzero
          rw [hk]
          rfl
        have htake : data.reverse.take (8 - front.length) = data.reverse :=
          List.take_of_length_le (by rwa [List.length_reverse])
        rw [htake] at hpending
        rw [hfinal]
        refine ⟨_, hpending, ?_, ?_⟩
        · rw [List.length_append, List.length_reverse]
          omega
        · rw [hresult, List.append_assoc]
    · have hnil : front = [] := List.length_eq_zero_iff.1 (by have := hs.numPendingBits; omega)
      have hbits : s.pendingBits = 0 := by
        have heq := hs.bits_eq
        rw [hnil] at heq
        exact eq_zero_of_bits heq
      rw [if_neg hpos, hnil, List.append_nil]
      have hrest := @restLoop_spec data data.length data.length s le_rfl le_rfl hbits
        (Nat.eq_zero_of_not_pos hpos)
      rw [List.take_length] at hrest
      exact hrest
  · omega

theorem written_init : Written {} [] :=
  ⟨[], pending_nil rfl rfl, Nat.zero_lt_succ 7, rfl⟩

/-- The last bits are filled up to an octet. -/
theorem Written.finalizeSerialization (h : s.Written stream) : ∃ pad, pad.length < 8 ∧
    s.finalizeSerialization.result.flatMap bits = stream ++ pad := by
  obtain ⟨front, hs, hlt, rfl⟩ := h
  rw [Asn1Header.finalizeSerialization]
  split_ifs with hpos
  · refine ⟨List.replicate (8 - front.length) false, ?_, ?_⟩
    · rw [List.length_replicate, ← hs.numPendingBits]
      omega
    · have hoctet := @bits_octetLoop (bitset 8 s.pendingBits.toNat) 0
        (length_bitset 8 _).ge
      have hwritten : ({ s with numPendingBits := 0 }.serializeBitset
          (bitset 8 s.pendingBits.toNat)).result =
            s.result ++ [octetLoop (bitset 8 s.pendingBits.toNat) 8 8 1 0] := rfl
      have hreverse : (bitset 8 s.pendingBits.toNat).reverse = bits s.pendingBits := rfl
      have htake : (bitset 8 s.pendingBits.toNat).take (0 + 8) = bitset 8 s.pendingBits.toNat := rfl
      rw [htake, hreverse, List.take_zero, List.reverse_nil, List.append_nil] at hoctet
      rw [hwritten, List.flatMap_append, List.flatMap_singleton, ← hoctet, hs.bits_eq,
        List.append_assoc]
  · have hnil : front = [] := List.length_eq_zero_iff.1 (by have := hs.numPendingBits; omega)
    refine ⟨[], Nat.zero_lt_succ 7, ?_⟩
    rw [hnil, List.append_nil, List.append_nil]

end Asn1Header

/-! ## Reading -/

namespace Asn1Reader

/-- The bits that are not read yet. -/
def unread (s : Asn1Reader) : List Bool :=
  (bits s.pendingBits).take s.numPendingBits ++ s.octets.flatMap bits

/-- What is read ends where the rest starts. -/
structure Left (s : Asn1Reader) (tail : List Bool) : Prop where
  numPendingBits : s.numPendingBits ≤ 8
  unread_eq : s.unread = tail

variable {done tail v : List Bool} {octet : UInt8}

theorem set_append {front : List Bool} {x b : Bool} :
    ((front ++ [x]) ++ done).set front.length b = front ++ [b] ++ done := by
  rw [List.append_assoc, List.append_assoc, List.set_append_right _ _ le_rfl, Nat.sub_self]
  rfl

/-- Pending bits are read up to the last one, or to the end of the variable. -/
theorem pendingLoop_spec {n : ℕ} : ∀ {front done : List Bool} {s : Asn1Reader},
    front.length = n → s.numPendingBits ≤ 8 → ∃ front' read s',
      pendingLoop n (front ++ done) s = (front'.length, front' ++ (read.reverse ++ done), s') ∧
        front'.length + read.length = n ∧ s.unread = read ++ s'.unread ∧ s'.numPendingBits ≤ 8 ∧
        (front' = [] ∨ s'.numPendingBits = 0) := by
  induction n with
  | zero =>
    intro front done s hlen hnum
    obtain rfl := List.length_eq_zero_iff.1 hlen
    exact ⟨[], [], s, rfl, rfl, rfl, hnum, .inl rfl⟩
  | succ n ih =>
    intro front done s hlen hnum
    rw [pendingLoop]
    split_ifs with hpos
    · obtain ⟨init, x, rfl⟩ := List.eq_nil_or_concat' front |>.resolve_left (by
        rintro rfl
        exact absurd hlen (Nat.succ_ne_zero n).symm)
      have hinit : init.length = n := by
        rw [List.length_append] at hlen
        exact Nat.succ.inj hlen
      set b : Bool := decide (s.pendingBits &&& 0x80 ≠ 0)
      set t : Asn1Reader :=
        { s with
          pendingBits := s.pendingBits <<< 1
          numPendingBits := s.numPendingBits - 1 }
      obtain ⟨front', read, s', hloop, htotal, hunread, hle, hor⟩ :=
        @ih init (b :: done) t hinit ((Nat.sub_le _ 1).trans hnum)
      have hfirst : s.unread = b :: t.unread := by
        have hzero : 0 < (bits s.pendingBits).length := by
          rw [length_bits]
          exact Nat.zero_lt_succ 7
        have hb : (bits s.pendingBits)[0] = b := by
          rw [Bool.eq_iff_iff, ← and_mask hzero]
          exact decide_eq_true_iff.symm
        have hshift := @bits_shiftLeft s.pendingBits 1 (by norm_num)
        have hlen' : s.numPendingBits - 1 ≤ ((bits s.pendingBits).drop 1).length := by
          rw [List.length_drop, length_bits]
          omega
        obtain ⟨m, hm⟩ := Nat.exists_eq_succ_of_ne_zero hpos.ne'
        change _ = b :: ((bits (s.pendingBits <<< UInt8.ofNat 1)).take (s.numPendingBits - 1) ++ _)
        rw [hshift, List.take_append_of_le_length hlen', unread, ← hb, ← List.cons_append, hm,
          Nat.succ_sub_one, ← List.take_succ_cons, List.getElem_cons_drop, List.drop_zero]
      refine ⟨front', b :: read, s', ?_, ?_, ?_, hle, hor⟩
      · rw [← hinit, set_append, List.append_assoc, hinit, List.reverse_cons, List.append_assoc]
        exact hloop
      · rw [List.length_cons]
        omega
      · rw [hfirst, hunread, List.cons_append]
    · exact ⟨front, [], s, by rw [hlen]; rfl, by rw [hlen]; rfl, rfl, hnum,
        .inr (Nat.eq_zero_of_not_pos hpos)⟩

/-- Bits of an octet are read. -/
theorem setLoop_spec {j : ℕ} : ∀ {n i : ℕ} {bit : UInt8} {front done : List Bool},
    front.length = n → j ≤ n → i + j ≤ 8 → (i < 8 → bit = mask i) → ∃ front',
      setLoop octet j n bit (front ++ done) =
          front' ++ ((((bits octet).drop i).take j).reverse ++ done) ∧
        front'.length + j = n := by
  induction j with
  | zero =>
    intro n i bit front done hlen _ _ _
    exact ⟨front, by rw [List.take_zero]; rfl, hlen⟩
  | succ j ih =>
    intro n i bit front done hlen hj hi hbit
    obtain ⟨init, x, rfl⟩ := List.eq_nil_or_concat' front |>.resolve_left (by
      rintro rfl
      exact absurd hlen (by rw [List.length_nil]; omega))
    have hinit : init.length = n - 1 := by
      rw [List.length_append, List.length_singleton] at hlen
      omega
    have hlt : i < (bits octet).length := by
      rw [length_bits]
      omega
    have hb : decide (octet &&& bit ≠ 0) = (bits octet)[i] := by
      rw [Bool.eq_iff_iff, decide_eq_true_iff, hbit (by omega), and_mask hlt]
    obtain ⟨front', hloop, htotal⟩ := @ih (n - 1) (i + 1) (bit >>> 1) init
      ((bits octet)[i] :: done) hinit (by omega) (by omega)
      (fun h => by rw [hbit (by omega), shiftRight_mask (by omega)])
    refine ⟨front', ?_, by omega⟩
    rw [setLoop, hb, ← hinit, set_append, List.append_assoc, hinit, ← List.getElem_cons_drop hlt,
      List.take_succ_cons, List.reverse_cons, List.append_assoc]
    exact hloop

/-- Bits are read from the octets that are left. -/
theorem bufferLoop_spec {rounds : ℕ} : ∀ {n : ℕ} {front done v : List Bool} {s : Asn1Reader},
    front.length = n → n ≤ rounds → s.numPendingBits = 0 → v.length = n →
      s.octets.flatMap bits = v ++ tail → ∃ s',
        bufferLoop rounds n (front ++ done) s = some (v.reverse ++ done, s') ∧ s'.Left tail := by
  induction rounds with
  | zero =>
    intro n front done v s hlen hn hnum hv hbits
    obtain rfl := Nat.le_zero.1 hn
    obtain rfl := List.length_eq_zero_iff.1 hlen
    obtain rfl := List.length_eq_zero_iff.1 hv
    refine ⟨s, rfl, hnum.trans_le (Nat.zero_le 8), ?_⟩
    rw [unread, hnum, List.take_zero]
    exact hbits
  | succ rounds ih =>
    intro n front done v s hlen hn hnum hv hbits
    rw [bufferLoop]
    by_cases hzero : n = 0
    · subst hzero
      obtain rfl := List.length_eq_zero_iff.1 hlen
      obtain rfl := List.length_eq_zero_iff.1 hv
      rw [if_pos rfl]
      refine ⟨s, rfl, hnum.trans_le (Nat.zero_le 8), ?_⟩
      rw [unread, hnum, List.take_zero]
      exact hbits
    · obtain ⟨octet, octets, hoctets⟩ : ∃ octet octets, s.octets = octet :: octets := by
        cases h : s.octets with
        | nil =>
          have htotal := congrArg List.length hbits
          rw [h, List.flatMap_nil, List.length_append, hv, List.length_nil] at htotal
          omega
        | cons octet octets => exact ⟨octet, octets, rfl⟩
      rw [hoctets, List.flatMap_cons] at hbits
      rw [if_neg hzero, hoctets, List.head?_cons, Option.bind_some, List.tail_cons]
      by_cases hlong : 8 ≤ n
      · obtain ⟨front', hloop, htotal⟩ := @setLoop_spec octet 8 n 0 0x80 front done hlen hlong
          le_rfl fun _ => rfl
        rw [List.drop_zero, List.take_of_length_le (length_bits octet).le] at hloop
        have hfirst : v = bits octet ++ v.drop 8 := by
          have htake := congrArg (List.take 8) hbits
          rw [List.take_append_of_le_length (length_bits octet).ge,
            List.take_of_length_le (length_bits octet).le,
            List.take_append_of_le_length (hlong.trans_eq hv.symm)] at htake
          rw [htake, List.take_append_drop]
        rw [hfirst, List.append_assoc, List.append_cancel_left_eq] at hbits
        obtain ⟨s', hrest, hleft⟩ := @ih (n - 8) front' ((bits octet).reverse ++ done) (v.drop 8)
          { s with octets := octets } (by omega) (by omega) hnum
          (by rw [List.length_drop, hv]) hbits
        rw [if_pos hlong, hloop, hrest]
        refine ⟨s', ?_, hleft⟩
        rw [hfirst, List.reverse_append, List.append_assoc, ← hfirst]
      · obtain ⟨front', hloop, htotal⟩ := @setLoop_spec octet n n 0 0x80 front done hlen le_rfl
          (by omega) fun _ => rfl
        obtain rfl := List.length_eq_zero_iff.1 (show front'.length = 0 by omega)
        have hsplit := congrArg (List.take n) hbits
        have hrest := congrArg (List.drop n) hbits
        rw [List.take_append_of_le_length (by rw [length_bits]; omega),
          List.take_append_of_le_length hv.ge, List.take_of_length_le hv.le] at hsplit
        rw [List.drop_append_of_le_length (by rw [length_bits]; omega), ← hv,
          List.drop_left, hv] at hrest
        rw [if_neg hlong, hloop, List.drop_zero, hsplit, List.nil_append]
        refine ⟨_, rfl, Nat.sub_le 8 n, ?_⟩
        have hlen' : 8 - n ≤ ((bits octet).drop n).length := by
          rw [List.length_drop, length_bits]
        rw [unread, bits_shiftLeft (by omega), List.take_append_of_le_length hlen',
          List.take_of_length_le (by rw [List.length_drop, length_bits])]
        exact hrest

/-- The bits of a variable are read, the most significant first. -/
theorem deserializeBitset_spec {s : Asn1Reader} {data : List Bool} (h : s.Left (v ++ tail))
    (hv : v.length = data.length) :
    ∃ s', s.deserializeBitset data = some (v.reverse, s') ∧ s'.Left tail := by
  obtain ⟨front, read, s₁, hloop, htotal, hunread, hle, hor⟩ :=
    @pendingLoop_spec data.length data [] s rfl h.numPendingBits
  rw [List.append_nil, List.append_nil] at hloop
  rw [h.unread_eq] at hunread
  rw [deserializeBitset, hloop]
  dsimp only
  rcases hor with rfl | hnum
  · have hlen : v.length = read.length := by
      rw [hv, ← htotal, List.length_nil, Nat.zero_add]
    obtain ⟨rfl, hrest⟩ := List.append_inj hunread hlen
    exact ⟨s₁, rfl, hle, hrest.symm⟩
  · have hbits : s₁.unread = s₁.octets.flatMap bits := by
      rw [unread, hnum, List.take_zero, List.nil_append]
    have hread : v = read ++ v.drop read.length := by
      have htake := congrArg (List.take read.length) hunread
      rw [List.take_append_of_le_length (by omega), List.take_left] at htake
      rw [← htake, List.length_take, Nat.min_eq_left (by omega), List.take_append_drop]
    rw [hread, List.append_assoc, List.append_cancel_left_eq, hbits] at hunread
    obtain ⟨s', hrest, hleft⟩ := @bufferLoop_spec tail front.length front.length front
      read.reverse (v.drop read.length) s₁ rfl le_rfl hnum (by rw [List.length_drop]; omega)
      hunread.symm
    rw [hrest]
    refine ⟨s', ?_, hleft⟩
    rw [← List.reverse_append, ← hread]

end Asn1Reader

/-! ## Numbers in a range -/

namespace Asn1Item

variable {n n' nmin nmax : ℤ}

theorem requiredBits_pos {range : ℤ} (h : 2 ≤ range) : 1 ≤ Asn1Header.requiredBits range :=
  Nat.clog_pos Nat.one_lt_two (by omega)

theorem requiredBits_le {range : ℤ} (h : range ≤ 2 ^ 20) : Asn1Header.requiredBits range ≤ 20 :=
  (Nat.clog_le_iff_le_pow Nat.one_lt_two).2 (by omega)

theorem integerBits_self : integerBits n nmin nmin = [] :=
  if_pos rfl

theorem InRange.serializeInteger (h : InRange n nmin nmax) {s : Asn1Header} {stream : List Bool}
    (hs : s.Written stream) : ∃ s', s.serializeInteger n nmin nmax = some s' ∧
      s'.Written (stream ++ integerBits n nmin nmax) := by
  obtain ⟨hmin, hmax, hrange⟩ := h
  rw [Asn1Header.serializeInteger]
  by_cases hsingle : nmin = nmax
  · rw [hsingle, if_pos (by omega), integerBits_self, List.append_nil]
    exact ⟨s, rfl, hs⟩
  · have hbits : Asn1Header.requiredBits (nmax - nmin + 1) ≤ 20 := requiredBits_le (by omega)
    rw [if_neg (by omega), if_pos ⟨requiredBits_pos (by omega), hbits⟩, integerBits,
      if_neg hsingle]
    refine ⟨_, rfl, hs.serializeBitset ?_⟩
    rw [length_bitset]
    omega

/-- A number is read, if it has more than one possible value. -/
theorem InRange.deserializeInteger (h : InRange n nmin nmax) {s : Asn1Reader} {tail : List Bool}
    (hs : s.Left (integerBits n nmin nmax ++ tail)) (old : ℤ) :
    ∃ s', s.deserializeInteger old nmin nmax = some (if nmin = nmax then old else n, s') ∧
      s'.Left tail := by
  obtain ⟨hmin, hmax, hrange⟩ := h
  rw [Asn1Reader.deserializeInteger]
  rw [if_neg (show ¬ nmax < nmin by omega), if_neg (show ¬ nmax < nmin by omega)]
  by_cases hsingle : nmin = nmax
  · subst hsingle
    rw [integerBits_self, List.nil_append] at hs
    rw [if_pos (by omega), if_pos rfl]
    exact ⟨s, rfl, hs⟩
  · rw [integerBits, if_neg hsingle] at hs
    have hlen :
        (bitset (Asn1Header.requiredBits (nmax - nmin + 1)) (n - nmin).toNat).reverse.length =
        (List.replicate (Asn1Header.requiredBits (nmax - nmin + 1)) false).length := by
      rw [List.length_reverse, length_bitset, List.length_replicate]
    obtain ⟨s', hread, hleft⟩ := Asn1Reader.deserializeBitset_spec hs hlen
    have hlt : (n - nmin).toNat < 2 ^ Asn1Header.requiredBits (nmax - nmin + 1) :=
      (show (n - nmin).toNat < (nmax - nmin + 1).toNat by omega).trans_le
        (Nat.le_pow_clog Nat.one_lt_two _)
    rw [if_neg (by omega), if_pos ⟨requiredBits_pos (by omega), requiredBits_le (by omega)⟩,
      if_neg hsingle, hread, List.reverse_reverse, Option.map_some]
    dsimp only
    rw [value_bitset hlt]
    refine ⟨s', ?_, hleft⟩
    congr 2
    omega

/-! ## Items -/

theorem serialize_marker {s : Asn1Header} {stream : List Bool} (hs : s.Written stream)
    (marker : Bool) : (if marker then s.serializeBoolean false else s).Written
      (stream ++ markerBits marker) := by
  cases marker with
  | false =>
    rw [markerBits, if_neg Bool.false_ne_true, if_neg Bool.false_ne_true, List.append_nil]
    exact hs
  | true => exact @Asn1Header.Written.serializeBitset s [false] stream hs (by norm_num)

theorem mem_le {n : ℕ} {supported : List ℕ} (h : n ∈ supported) (hle : ∀ k ∈ supported, k ≤ 255) :
    n ≤ 255 :=
  hle n h

/-- An item is written. -/
theorem Valid.serializeItem {item : Asn1Item} (h : item.Valid) {s : Asn1Header}
    {stream : List Bool} (hs : s.Written stream) :
    ∃ s', s.serializeItem item = some s' ∧ s'.Written (stream ++ item.toBits) := by
  cases item with
  | bitstring data => exact ⟨_, rfl, hs.serializeBitset (mem_le h (by decide))⟩
  | boolean value => exact ⟨_, rfl, hs.serializeBitset (by norm_num)⟩
  | sequence mask marker =>
    refine ⟨_, rfl, ?_⟩
    rw [toBits, ← List.append_assoc]
    exact (serialize_marker hs marker).serializeBitset (mem_le h (by decide))
  | sequenceOf numElems nMax nMin => exact InRange.serializeInteger h hs
  | choice numOptions selectedOption marker =>
    have hwritten := serialize_marker hs marker
    obtain ⟨s', hs', hnext⟩ := InRange.serializeInteger h hwritten
    rw [toBits, ← List.append_assoc, Asn1Header.serializeItem, Asn1Header.serializeChoice]
    by_cases hfew : numOptions < 2
    · -- one option is no integer
      obtain ⟨hmin, hmax, -⟩ := h
      obtain rfl : numOptions = 1 := by omega
      have hnone : integerBits selectedOption 0 (1 - 1) = [] := integerBits_self
      rw [if_pos hfew, hnone, List.append_nil]
      exact ⟨_, rfl, hwritten⟩
    · rw [if_neg hfew]
      exact ⟨s', hs', hnext⟩
  | enum numElems selectedElem => exact InRange.serializeInteger h hs
  | integer n nmin nmax => exact InRange.serializeInteger h hs

/-- What is restored of an item. -/
def restored (item old : Asn1Item) : Asn1Item :=
  if item.Single then old else item

theorem deserialize_marker {s : Asn1Reader} {marker : Bool} {tail : List Bool}
    (hs : s.Left (markerBits marker ++ tail)) :
    ∃ s', s.skipMarker marker = some s' ∧ s'.Left tail := by
  cases marker with
  | false => exact ⟨s, rfl, hs⟩
  | true =>
    obtain ⟨s', hread, hleft⟩ := @Asn1Reader.deserializeBitset_spec tail [false] s [false] hs rfl
    refine ⟨s', ?_, hleft⟩
    rw [Asn1Reader.skipMarker, if_pos rfl, Asn1Reader.deserializeBoolean, hread]
    rfl

/-- An item is read into a variable of its kind. -/
theorem Valid.deserializeItem {item old : Asn1Item} (h : item.Valid)
    (hsame : item.descriptor = old.descriptor) {s : Asn1Reader} {tail : List Bool}
    (hs : s.Left (item.toBits ++ tail)) :
    ∃ s', s.deserializeItem old = some (item.restored old, s') ∧ s'.Left tail := by
  cases item with
  | bitstring data =>
    cases old with
    | bitstring data' =>
      have hlen := congrArg List.length (Asn1Item.bitstring.inj hsame)
      rw [List.length_map, List.length_map] at hlen
      have hbits : (bitstring data).toBits = data.reverse := rfl
      rw [hbits] at hs
      obtain ⟨s', hread, hleft⟩ := Asn1Reader.deserializeBitset_spec hs
        (data.length_reverse.trans hlen)
      rw [Asn1Reader.deserializeItem, hread, List.reverse_reverse]
      exact ⟨s', rfl, hleft⟩
    | _ => exact Asn1Item.noConfusion hsame
  | boolean value =>
    cases old with
    | boolean value' =>
      obtain ⟨s', hread, hleft⟩ := @Asn1Reader.deserializeBitset_spec tail [value] s [false] hs rfl
      rw [Asn1Reader.deserializeItem, Asn1Reader.deserializeBoolean, hread]
      exact ⟨s', rfl, hleft⟩
    | _ => exact Asn1Item.noConfusion hsame
  | sequence mask marker =>
    cases old with
    | sequence mask' marker' =>
      obtain ⟨hmask, rfl⟩ := Asn1Item.sequence.inj hsame
      have hlen := congrArg List.length hmask
      rw [List.length_map, List.length_map] at hlen
      rw [toBits, List.append_assoc] at hs
      obtain ⟨s₁, hmarker, hleft₁⟩ := deserialize_marker hs
      obtain ⟨s', hread, hleft⟩ := Asn1Reader.deserializeBitset_spec hleft₁
        (mask.length_reverse.trans hlen)
      rw [Asn1Reader.deserializeItem, Asn1Reader.deserializeSequence, hmarker, Option.bind_some,
        hread, List.reverse_reverse]
      exact ⟨s', rfl, hleft⟩
    | _ => exact Asn1Item.noConfusion hsame
  | sequenceOf numElems nMax nMin =>
    cases old with
    | sequenceOf numElems' nMax' nMin' =>
      obtain ⟨-, rfl, rfl⟩ := Asn1Item.sequenceOf.inj hsame
      obtain ⟨s', hread, hleft⟩ := InRange.deserializeInteger h hs numElems'
      rw [Asn1Reader.deserializeItem, Asn1Reader.deserializeSequenceOf, hread]
      refine ⟨s', ?_, hleft⟩
      rw [restored]
      change some (Asn1Item.sequenceOf (if nMin = nMax then _ else _) nMax nMin, s') =
        some (if nMin = nMax then _ else _, s')
      split_ifs <;> rfl
    | _ => exact Asn1Item.noConfusion hsame
  | choice numOptions selectedOption marker =>
    cases old with
    | choice numOptions' selectedOption' marker' =>
      obtain ⟨rfl, -, rfl⟩ := Asn1Item.choice.inj hsame
      rw [toBits, List.append_assoc] at hs
      obtain ⟨s₁, hmarker, hleft₁⟩ := deserialize_marker hs
      obtain ⟨s', hread, hleft⟩ := InRange.deserializeInteger h hleft₁ selectedOption'
      rw [Asn1Reader.deserializeItem, Asn1Reader.deserializeChoice, hmarker, Option.bind_some,
        hread]
      refine ⟨s', ?_, hleft⟩
      have hone : 0 = numOptions - 1 ↔ numOptions = 1 := by omega
      rw [restored]
      change some (Asn1Item.choice numOptions (if 0 = numOptions - 1 then _ else _) marker, s') =
        some (if numOptions = 1 then _ else _, s')
      simp only [hone]
      split_ifs <;> rfl
    | _ => exact Asn1Item.noConfusion hsame
  | enum numElems selectedElem =>
    cases old with
    | enum numElems' selectedElem' =>
      obtain ⟨rfl, -⟩ := Asn1Item.enum.inj hsame
      obtain ⟨s', hread, hleft⟩ := InRange.deserializeInteger h hs selectedElem'
      rw [Asn1Reader.deserializeItem, Asn1Reader.deserializeEnum, hread]
      refine ⟨s', ?_, hleft⟩
      have hone : 0 = numElems - 1 ↔ numElems = 1 := by omega
      rw [restored]
      change some (Asn1Item.enum numElems (if 0 = numElems - 1 then _ else _), s') =
        some (if numElems = 1 then _ else _, s')
      simp only [hone]
      split_ifs <;> rfl
    | _ => exact Asn1Item.noConfusion hsame
  | integer n nmin nmax =>
    cases old with
    | integer n' nmin' nmax' =>
      obtain ⟨-, rfl, rfl⟩ := Asn1Item.integer.inj hsame
      obtain ⟨s', hread, hleft⟩ := InRange.deserializeInteger h hs n'
      rw [Asn1Reader.deserializeItem, hread]
      refine ⟨s', ?_, hleft⟩
      rw [restored]
      change some (Asn1Item.integer (if nmin = nmax then _ else _) nmin nmax, s') =
        some (if nmin = nmax then _ else _, s')
      split_ifs <;> rfl
    | _ => exact Asn1Item.noConfusion hsame

/-! ## Lists of items -/

variable {items olds : List Asn1Item}

/-- The bits of items one after the other. -/
theorem serializeItems_spec : ∀ {items : List Asn1Item} {s : Asn1Header} {stream : List Bool},
    (∀ item ∈ items, item.Valid) → s.Written stream →
      ∃ s', items.foldlM Asn1Header.serializeItem s = some s' ∧
        s'.Written (stream ++ items.flatMap toBits) := by
  intro items
  induction items with
  | nil =>
    intro s stream _ hs
    rw [List.flatMap_nil, List.append_nil]
    exact ⟨s, rfl, hs⟩
  | cons item items ih =>
    intro s stream h hs
    obtain ⟨hitem, hitems⟩ := List.forall_mem_cons.1 h
    obtain ⟨s₁, hs₁, hwritten⟩ := hitem.serializeItem hs
    obtain ⟨s', hs', hlast⟩ := ih hitems hwritten
    rw [List.append_assoc] at hlast
    refine ⟨s', ?_, hlast⟩
    rw [List.foldlM_cons, hs₁]
    exact hs'

theorem deserializeItems_spec : ∀ {items olds : List Asn1Item} {s : Asn1Reader} {tail : List Bool},
    (∀ item ∈ items, item.Valid) → items.map descriptor = olds.map descriptor →
      s.Left (items.flatMap toBits ++ tail) →
        ∃ s', s.deserializeItems olds = some (List.zipWith restored items olds, s') ∧
          s'.Left tail := by
  intro items
  induction items with
  | nil =>
    intro olds s tail _ hsame hs
    obtain rfl := List.map_eq_nil_iff.1 hsame.symm
    exact ⟨s, rfl, hs⟩
  | cons item items ih =>
    intro olds s tail h hsame hs
    obtain ⟨hitem, hitems⟩ := List.forall_mem_cons.1 h
    cases olds with
    | nil => exact absurd hsame (List.cons_ne_nil _ _)
    | cons old olds =>
      obtain ⟨hhead, htail⟩ := List.cons.inj hsame
      rw [List.flatMap_cons, List.append_assoc] at hs
      obtain ⟨s₁, hread, hleft⟩ := hitem.deserializeItem hhead hs
      obtain ⟨s', hrest, hlast⟩ := ih hitems htail hleft
      rw [Asn1Reader.deserializeItems, hread, Option.bind_some, hrest]
      exact ⟨s', rfl, hlast⟩

/-- All items are restored, if and only if those of only one possible value are. -/
theorem zipWith_restored_eq_iff : ∀ {items olds : List Asn1Item}, items.length = olds.length →
    (List.zipWith restored items olds = items ↔
      ∀ r ∈ items.zip olds, r.1.Single → r.2 = r.1) := by
  intro items
  induction items with
  | nil => exact fun _ => iff_of_true rfl fun _ h => absurd h List.not_mem_nil
  | cons item items ih =>
    intro olds hlen
    cases olds with
    | nil => exact absurd hlen (Nat.succ_ne_zero _)
    | cons old olds =>
      rw [List.zipWith_cons_cons, List.cons_eq_cons, List.zip_cons_cons, List.forall_mem_cons,
        ih (Nat.succ.inj hlen), restored, ite_eq_right_iff]

/-- Items are written in the octets that their bits fill and can be read from these. They are all
restored if and only if the variables for those of only one possible value have it already. -/
theorem decodes_iff (hvalid : ∀ item ∈ items, item.Valid)
    (hsame : items.map descriptor = olds.map descriptor) : ∃ octets restoredItems,
      Asn1Header.encode items = some octets ∧
      octets.length = ((items.flatMap toBits).length + 7) / 8 ∧
      Asn1Reader.decode octets olds = some restoredItems ∧
      (restoredItems = items ↔ ∀ r ∈ items.zip olds, r.1.Single → r.2 = r.1) := by
  obtain ⟨s, hs, hwritten⟩ := serializeItems_spec hvalid Asn1Header.written_init
  obtain ⟨pad, hpad, hoctets⟩ := hwritten.finalizeSerialization
  have hlen : items.length = olds.length := by
    have htotal := congrArg List.length hsame
    rwa [List.length_map, List.length_map] at htotal
  have hleft : ({ octets := s.finalizeSerialization.result } : Asn1Reader).Left
      (items.flatMap toBits ++ pad) := ⟨Nat.zero_le 8, hoctets⟩
  obtain ⟨s', hread, -⟩ := deserializeItems_spec hvalid hsame hleft
  refine ⟨s.finalizeSerialization.result, List.zipWith restored items olds, ?_, ?_, ?_,
    zipWith_restored_eq_iff hlen⟩
  · rw [Asn1Header.encode, hs]
    rfl
  · have htotal := congrArg List.length hoctets
    rw [length_flatMap_bits, List.nil_append, List.length_append] at htotal
    omega
  · rw [Asn1Reader.decode, hread]
    rfl

/-- A count from one to one, between two flags. -/
theorem flags_decodes_iff : ∃ octets restoredItems,
    Asn1Header.encode [.boolean true, .sequenceOf 1 1 1, .boolean true] = some octets ∧
    octets.length = 1 ∧
    Asn1Reader.decode octets [.boolean false, .sequenceOf 1 1 1, .boolean false] =
      some restoredItems ∧
    restoredItems = [.boolean true, .sequenceOf 1 1 1, .boolean true] := by
  have hvalid : ∀ item ∈ [.boolean true, .sequenceOf 1 1 1, .boolean true], Valid item := by
    intro item hitem
    rcases List.mem_cons.1 hitem with rfl | hitem
    · exact trivial
    · rcases List.mem_cons.1 hitem with rfl | hitem
      · exact ⟨le_rfl, le_rfl, by norm_num⟩
      · obtain rfl := List.mem_singleton.1 hitem
        exact trivial
  obtain ⟨octets, restoredItems, hencode, hlen, hdecode, hiff⟩ := @decodes_iff
    [.boolean true, .sequenceOf 1 1 1, .boolean true]
    [.boolean false, .sequenceOf 1 1 1, .boolean false] hvalid rfl
  refine ⟨octets, restoredItems, hencode, hlen, hdecode, hiff.2 ?_⟩
  decide

/-- The number 5 in the range from 5 to 5 is not read into a variable that is zero. -/
theorem single_not_restored : Valid (.integer 5 5 5) ∧
    Asn1Header.encode [.integer 5 5 5] = some [] ∧
    Asn1Reader.decode [] [.integer 0 5 5] = some [.integer 0 5 5] ∧
    Asn1Reader.decode [] [.integer 0 5 5] ≠ some [.integer 5 5 5] := by
  refine ⟨⟨le_rfl, le_rfl, by norm_num⟩, by decide, by decide, by decide⟩

end Asn1Item

end Ns3Pedca
