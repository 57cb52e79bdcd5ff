import Ns3Pedca.Bytes

/-!
# The Traffic Indication Map

The AIDs of the stations with buffered frames are a bitmap of 2008 bits, of which a `Tim` sends
the octets from `getPartialVirtualBitmapOffset` to `getLastNonZeroOctetIndex`. The offset is even,
so its last bit is free, and tells that group addressed frames are buffered.

The writer sets the bit of each AID in octets that are zero, and the reader looks for the bits of
each octet, so both are about the same bitmap (`getBit_getPartialVirtualBitmap`,
`mem_deserializeBitmap`). Of the AIDs and the DTIM fields nothing is lost on the way
(`deserialize_partial_virtual_bitmap`).
-/

namespace Ns3Pedca

open Bytes

/-- `MAX_AID`. -/
def maxAid : ℕ := 2007

/-- `Tim`. -/
structure Tim where
  dtimCount : UInt8 := 0
  dtimPeriod : UInt8 := 0
  hasMulticastPending : Bool := false
  aidValues : Finset ℕ := ∅
  deriving DecidableEq

namespace Tim

/-! ## Octets and bits -/

/-- `GetAidOctetIndex`. -/
def getAidOctetIndex (aid : ℕ) : ℕ :=
  (aid >>> 3) &&& 0xff

/-- `GetAidBit`. -/
def getAidBit (aid : ℕ) : UInt8 :=
  0x01 <<< UInt8.ofNat (aid &&& 0x07)

/-- `GetAidFromOctetIndexAndBitPosition`, of 16 bits. -/
def getAidFromOctetIndexAndBitPosition (octet position : ℕ) : ℕ :=
  ((octet <<< 3) + position) % 2 ^ 16

variable (t : Tim)

/-- `AddAid`, which aborts on an AID that is too large. -/
def addAid (aid : ℕ) : Option Tim :=
  if aid > maxAid then none else some { t with aidValues := insert aid t.aidValues }

/-- `GetPartialVirtualBitmapOffset`. -/
def getPartialVirtualBitmapOffset : ℕ :=
  if h : t.aidValues.Nonempty then getAidOctetIndex (t.aidValues.min' h) &&& 0xFE else 0

/-- `GetLastNonZeroOctetIndex`. -/
def getLastNonZeroOctetIndex : ℕ :=
  if h : t.aidValues.Nonempty then getAidOctetIndex (t.aidValues.max' h) else 0

/-! ## The writer -/

/-- `GetInformationFieldSize`, of 16 bits. -/
def getInformationFieldSize : ℕ :=
  let partialVirtualBitmapSize :=
    (t.getLastNonZeroOctetIndex + 2 ^ 16 - t.getPartialVirtualBitmapOffset + 1) % 2 ^ 16
  (partialVirtualBitmapSize + 3) % 2 ^ 16

/-- `GetBitmapControl`. -/
def getBitmapControl : UInt8 :=
  let bitmapControl := UInt8.ofNat t.getPartialVirtualBitmapOffset
  if t.dtimCount = 0 ∧ t.hasMulticastPending then bitmapControl ||| 0x01 else bitmapControl

/-- The bit of an AID is set in the octet of that AID. An octet that is not there is refused. -/
def setAid (offset : ℕ) (bitmap : List UInt8) (aid : ℕ) : Option (List UInt8) :=
  let octetIndex := getAidOctetIndex aid
  if offset ≤ octetIndex ∧ octetIndex - offset < bitmap.length then
    some (bitmap.modify (octetIndex - offset) fun octet => octet ||| getAidBit aid)
  else none

/-- `GetPartialVirtualBitmap`. -/
def getPartialVirtualBitmap : Option (List UInt8) :=
  let offset := t.getPartialVirtualBitmapOffset
  if offset ≤ t.getLastNonZeroOctetIndex then
    (t.aidValues.sort (· ≤ ·)).foldlM (setAid offset)
      (List.replicate (t.getLastNonZeroOctetIndex - offset + 1) 0)
  else none

/-- `SerializeInformationField`. -/
def serializeInformationField : Option (List UInt8) :=
  t.getPartialVirtualBitmap.map fun partialVirtualBitmap =>
    t.dtimCount :: t.dtimPeriod :: t.getBitmapControl :: partialVirtualBitmap

/-! ## The reader -/

/-- The AIDs of the bits of an octet are inserted. -/
def insertOctet (aidValues : Finset ℕ) (octetIndex : ℕ) (octet : UInt8) : Finset ℕ :=
  if octet > 0 then
    (List.range 8).foldl (fun aidValues position =>
      if octet.toNat >>> position &&& 0x1 ≠ 0 then
        insert (getAidFromOctetIndexAndBitPosition octetIndex position) aidValues
      else aidValues) aidValues
  else aidValues

/-- The loop over the octets of the partial virtual bitmap, of which there are `count`. -/
def deserializeBitmap :
    ℕ → ℕ → Finset ℕ → List UInt8 → Option (Finset ℕ × List UInt8)
  | 0, _, aidValues, start => some (aidValues, start)
  | _ + 1, _, _, [] => none
  | count + 1, octetIndex, aidValues, octet :: start =>
    deserializeBitmap count (octetIndex + 1) (insertOctet aidValues octetIndex octet) start

/-- `DeserializeInformationField` : the `Tim`, the number of octets, and the rest of the buffer.
It aborts where the length is less than 2, and does not go beyond the buffer. -/
def deserializeInformationField (start : List UInt8) (length : ℕ) :
    Option (Tim × ℕ × List UInt8) :=
  if length < 2 then none
  else
    match start with
    | dtimCount :: dtimPeriod :: start =>
      if length = 2 then
        some ({ t with dtimCount := dtimCount, dtimPeriod := dtimPeriod }, 2, start)
      else
        match start with
        | bitmapControl :: start =>
          let hasMulticastPending := decide (bitmapControl &&& 0x01 ≠ 0)
          let offset := (bitmapControl &&& 0xFE).toNat
          let octets := (offset + length - 3) % 2 ^ 16 - offset
          (deserializeBitmap octets offset t.aidValues start).map fun (aidValues, start) =>
            ({ dtimCount := dtimCount, dtimPeriod := dtimPeriod,
               hasMulticastPending := hasMulticastPending, aidValues := aidValues },
             3 + octets, start)
        | [] => none
    | _ => none

/-! ## The extent of the bitmap -/

theorem getAidOctetIndex_eq {aid : ℕ} (h : aid ≤ maxAid) : getAidOctetIndex aid = aid / 8 := by
  have hlt : aid / 2 ^ 3 < 2 ^ 8 := by
    rw [maxAid] at h
    omega
  rw [getAidOctetIndex, show (0xff : ℕ) = 2 ^ 8 - 1 from rfl, Nat.and_two_pow_sub_one_eq_mod,
    Nat.shiftRight_eq_div_pow]
  exact Nat.mod_eq_of_lt hlt

/-- The last bit of an octet number is cleared. -/
theorem and_fe {n : ℕ} (h : n < 256) : n &&& 0xFE = 2 * (n / 2) := by
  have hall : ∀ k : Fin 256, k.val &&& 0xFE = 2 * (k.val / 2) := by decide +kernel
  exact hall ⟨n, h⟩

variable {t : Tim}

/-- The AIDs are those that `AddAid` accepts. -/
def Valid (t : Tim) : Prop :=
  ∀ aid ∈ t.aidValues, aid ≤ maxAid

instance : Decidable t.Valid :=
  inferInstanceAs (Decidable (∀ aid ∈ t.aidValues, aid ≤ maxAid))

theorem valid_fresh : Valid {} := by
  intro aid haid
  exact absurd haid (Finset.notMem_empty aid)

theorem Valid.addAid {t' : Tim} {aid : ℕ} (ht : t.Valid) (h : t.addAid aid = some t') :
    t'.Valid := by
  rw [Tim.addAid] at h
  split at h
  · cases h
  · next haid =>
    obtain rfl := Option.some.inj h
    intro other hother
    obtain rfl | hold := Finset.mem_insert.mp hother
    · exact not_lt.mp haid
    · exact ht other hold

theorem getPartialVirtualBitmapOffset_of_empty (h : t.aidValues = ∅) :
    t.getPartialVirtualBitmapOffset = 0 := by
  rw [getPartialVirtualBitmapOffset, dif_neg (by simp [h])]

theorem getLastNonZeroOctetIndex_of_empty (h : t.aidValues = ∅) :
    t.getLastNonZeroOctetIndex = 0 := by
  rw [getLastNonZeroOctetIndex, dif_neg (by simp [h])]

theorem Valid.getPartialVirtualBitmapOffset_eq (ht : t.Valid) (h : t.aidValues.Nonempty) :
    t.getPartialVirtualBitmapOffset = 2 * (t.aidValues.min' h / 8 / 2) := by
  have hmin : t.aidValues.min' h ≤ maxAid := ht _ (Finset.min'_mem _ h)
  rw [getPartialVirtualBitmapOffset, dif_pos h, getAidOctetIndex_eq hmin, and_fe]
  rw [maxAid] at hmin
  omega

theorem Valid.getLastNonZeroOctetIndex_eq (ht : t.Valid) (h : t.aidValues.Nonempty) :
    t.getLastNonZeroOctetIndex = t.aidValues.max' h / 8 := by
  rw [getLastNonZeroOctetIndex, dif_pos h, getAidOctetIndex_eq (ht _ (Finset.max'_mem _ h))]

/-- The offset is the largest even octet number without AIDs in the octets before. -/
theorem Valid.isGreatest_offset (ht : t.Valid) (h : t.aidValues.Nonempty) :
    IsGreatest { n | Even n ∧ ∀ aid ∈ t.aidValues, n * 8 ≤ aid }
      t.getPartialVirtualBitmapOffset := by
  rw [ht.getPartialVirtualBitmapOffset_eq h]
  constructor
  · refine ⟨even_two_mul _, ?_⟩
    intro aid haid
    have hmin : t.aidValues.min' h ≤ aid := Finset.min'_le _ _ haid
    omega
  · rintro n ⟨⟨k, rfl⟩, hn⟩
    have hmin : (k + k) * 8 ≤ t.aidValues.min' h := hn _ (Finset.min'_mem _ h)
    omega

/-- The last octet is the smallest that covers all AIDs. -/
theorem Valid.isLeast_last (ht : t.Valid) :
    IsLeast { n | ∀ aid ∈ t.aidValues, aid < (n + 1) * 8 } t.getLastNonZeroOctetIndex := by
  by_cases h : t.aidValues.Nonempty
  · rw [ht.getLastNonZeroOctetIndex_eq h]
    constructor
    · intro aid haid
      have hmax : aid ≤ t.aidValues.max' h := Finset.le_max' _ _ haid
      omega
    · intro n hn
      have hmax : t.aidValues.max' h < (n + 1) * 8 := hn _ (Finset.max'_mem _ h)
      omega
  · have hempty : t.aidValues = ∅ := Finset.not_nonempty_iff_eq_empty.mp h
    rw [getLastNonZeroOctetIndex_of_empty hempty]
    constructor
    · intro aid haid
      rw [hempty] at haid
      exact absurd haid (Finset.notMem_empty aid)
    · intro n _
      exact Nat.zero_le n

/-- The number of octets of the partial virtual bitmap. -/
def bitmapSize (t : Tim) : ℕ :=
  t.getLastNonZeroOctetIndex + 1 - t.getPartialVirtualBitmapOffset

theorem Valid.extent (ht : t.Valid) :
    t.getPartialVirtualBitmapOffset ≤ t.getLastNonZeroOctetIndex ∧
      t.getLastNonZeroOctetIndex < 251 ∧ Even t.getPartialVirtualBitmapOffset := by
  by_cases h : t.aidValues.Nonempty
  · have hle : t.aidValues.min' h ≤ t.aidValues.max' h := Finset.min'_le_max' _ h
    have hmax : t.aidValues.max' h ≤ 2007 := ht _ (Finset.max'_mem _ h)
    rw [ht.getPartialVirtualBitmapOffset_eq h, ht.getLastNonZeroOctetIndex_eq h]
    exact ⟨by omega, by omega, even_two_mul _⟩
  · have hempty : t.aidValues = ∅ := Finset.not_nonempty_iff_eq_empty.mp h
    rw [getPartialVirtualBitmapOffset_of_empty hempty, getLastNonZeroOctetIndex_of_empty hempty]
    decide

theorem Valid.getInformationFieldSize_eq (ht : t.Valid) :
    t.getInformationFieldSize = t.bitmapSize + 3 := by
  obtain ⟨hle, hlt, -⟩ := ht.extent
  rw [bitmapSize]
  simp only [getInformationFieldSize]
  omega

/-! ## The bits of the bitmap -/

theorem getAidBit_eq (aid : ℕ) : getAidBit aid = 1 <<< UInt8.ofNat (aid % 8) := by
  rw [getAidBit, show (0x07 : ℕ) = 2 ^ 3 - 1 from rfl, Nat.and_two_pow_sub_one_eq_mod]

/-- The AID sets the bit of its number, counted from the first octet that is sent. -/
theorem setAid_eq {offset aid : ℕ} {bitmap : List UInt8} (haid : aid ≤ maxAid)
    (hoffset : offset * 8 ≤ aid) (hlast : aid - offset * 8 < bitmap.length * 8) :
    setAid offset bitmap aid = some (setBit bitmap (aid - offset * 8)) := by
  have hoctet : getAidOctetIndex aid - offset = (aid - offset * 8) / 8 := by
    rw [getAidOctetIndex_eq haid]
    omega
  have hbit : aid % 8 = (aid - offset * 8) % 8 := by omega
  have hthere : offset ≤ getAidOctetIndex aid ∧
      getAidOctetIndex aid - offset < bitmap.length := by
    rw [getAidOctetIndex_eq haid]
    omega
  rw [setAid, if_pos hthere, hoctet, getAidBit_eq, hbit]
  rfl

theorem foldlM_setAid {offset : ℕ} {aids : List ℕ} {bitmap : List UInt8}
    (h : ∀ aid ∈ aids, aid ≤ maxAid ∧ offset * 8 ≤ aid ∧
      aid - offset * 8 < bitmap.length * 8) :
    aids.foldlM (setAid offset) bitmap =
      some ((aids.map (· - offset * 8)).foldl setBit bitmap) := by
  induction aids generalizing bitmap with
  | nil => rfl
  | cons aid aids ih =>
    obtain ⟨haid, hoffset, hlast⟩ := h aid (List.mem_cons_self ..)
    rw [List.foldlM_cons, setAid_eq haid hoffset hlast]
    refine ih ?_
    intro other hother
    rw [length_setBit]
    exact h other (List.mem_cons_of_mem aid hother)

/-- Every octet is there, and the bits set are those of the AIDs. -/
theorem Valid.getPartialVirtualBitmap_spec (ht : t.Valid) :
    ∃ bitmap, t.getPartialVirtualBitmap = some bitmap ∧ bitmap.length = t.bitmapSize ∧
      ∀ i, getBit bitmap i = true ↔ t.getPartialVirtualBitmapOffset * 8 + i ∈ t.aidValues := by
  obtain ⟨hle, hlt, -⟩ := ht.extent
  have hoffset : ∀ aid ∈ t.aidValues, t.getPartialVirtualBitmapOffset * 8 ≤ aid := by
    intro aid haid
    exact (ht.isGreatest_offset ⟨aid, haid⟩).1.2 aid haid
  have hlast : ∀ aid ∈ t.aidValues, aid < (t.getLastNonZeroOctetIndex + 1) * 8 :=
    ht.isLeast_last.1
  have hsize : t.getLastNonZeroOctetIndex - t.getPartialVirtualBitmapOffset + 1 =
      t.bitmapSize := by
    rw [bitmapSize]
    omega
  have hbound : ∀ aid ∈ t.aidValues,
      aid - t.getPartialVirtualBitmapOffset * 8 < t.bitmapSize * 8 := by
    intro aid haid
    have hbefore := hoffset aid haid
    have hafter := hlast aid haid
    rw [bitmapSize]
    omega
  refine ⟨((t.aidValues.sort (· ≤ ·)).map (· - t.getPartialVirtualBitmapOffset * 8)).foldl setBit
    (List.replicate t.bitmapSize 0), ?_, ?_, ?_⟩
  · simp only [getPartialVirtualBitmap]
    rw [if_pos hle, hsize]
    apply foldlM_setAid
    intro aid haid
    rw [Finset.mem_sort] at haid
    rw [List.length_replicate]
    exact ⟨ht aid haid, hoffset aid haid, hbound aid haid⟩
  · rw [length_foldl_setBit, List.length_replicate]
  · intro i
    have hbits : ∀ k ∈ (t.aidValues.sort (· ≤ ·)).map (· - t.getPartialVirtualBitmapOffset * 8),
        k < (List.replicate t.bitmapSize (0 : UInt8)).length * 8 := by
      intro k hk
      obtain ⟨aid, haid, rfl⟩ := List.mem_map.mp hk
      rw [List.length_replicate]
      exact hbound aid ((Finset.mem_sort _).mp haid)
    rw [getBit_foldl_setBit hbits, getBit_replicate, Bool.or_false, decide_eq_true_iff,
      List.mem_map]
    constructor
    · rintro ⟨aid, haid, rfl⟩
      have hmem : aid ∈ t.aidValues := (Finset.mem_sort _).mp haid
      rwa [Nat.add_sub_cancel' (hoffset aid hmem)]
    · intro hmem
      exact ⟨_, (Finset.mem_sort _).mpr hmem, Nat.add_sub_cancel_left ..⟩

/-! ## Reading the bits back -/

theorem shiftRight_and_one (n position : ℕ) :
    n >>> position &&& 0x1 ≠ 0 ↔ n.testBit position = true := by
  rw [Nat.testBit, Nat.and_comm, bne_iff_ne]

/-- The AIDs inserted are those of the bits of the octet. -/
theorem mem_insertOctet {aidValues : Finset ℕ} {octetIndex aid : ℕ} {octet : UInt8} :
    aid ∈ insertOctet aidValues octetIndex octet ↔ aid ∈ aidValues ∨
      ∃ position < 8, octet.toNat.testBit position = true ∧
        aid = getAidFromOctetIndexAndBitPosition octetIndex position := by
  have hloop : ∀ (positions : List ℕ) (aids : Finset ℕ),
      aid ∈ positions.foldl (fun aidValues position =>
        if octet.toNat >>> position &&& 0x1 ≠ 0 then
          insert (getAidFromOctetIndexAndBitPosition octetIndex position) aidValues
        else aidValues) aids ↔ aid ∈ aids ∨ ∃ position ∈ positions,
          octet.toNat.testBit position = true ∧
            aid = getAidFromOctetIndexAndBitPosition octetIndex position := by
    intro positions
    induction positions with
    | nil => simp
    | cons position positions ih =>
      intro aids
      rw [List.foldl_cons, ih]
      by_cases hbit : octet.toNat.testBit position = true
      · rw [if_pos ((shiftRight_and_one ..).mpr hbit), Finset.mem_insert, List.exists_mem_cons_iff]
        tauto
      · rw [if_neg (mt (shiftRight_and_one ..).mp hbit), List.exists_mem_cons_iff]
        tauto
  rw [insertOctet]
  split
  · rw [hloop]
    simp only [List.mem_range]
  · next hzero =>
    have hoctet : octet.toNat = 0 := by
      rw [gt_iff_lt, UInt8.lt_iff_toNat_lt] at hzero
      exact Nat.eq_zero_of_not_pos hzero
    simp [hoctet]

/-- The reader inserts the AID of each bit of the octets. -/
theorem deserializeBitmap_append {bitmap : List UInt8} (octetIndex : ℕ) (aidValues : Finset ℕ)
    (rest : List UInt8) :
    ∃ aids, deserializeBitmap bitmap.length octetIndex aidValues (bitmap ++ rest) =
        some (aids, rest) ∧ ∀ aid, aid ∈ aids ↔ aid ∈ aidValues ∨
          ∃ i, getBit bitmap i = true ∧ aid = (octetIndex * 8 + i) % 2 ^ 16 := by
  induction bitmap generalizing octetIndex aidValues with
  | nil =>
    refine ⟨aidValues, rfl, ?_⟩
    intro aid
    simp [getBit_eq]
  | cons octet bitmap ih =>
    obtain ⟨aids, hread, haids⟩ := ih (octetIndex + 1) (insertOctet aidValues octetIndex octet)
    refine ⟨aids, hread, ?_⟩
    intro aid
    rw [haids, mem_insertOctet, or_assoc]
    refine or_congr_right ?_
    constructor
    · rintro (⟨position, hposition, hbit, rfl⟩ | ⟨i, hbit, rfl⟩)
      · refine ⟨position, ?_, ?_⟩
        · rw [getBit_eq, Nat.div_eq_of_lt hposition, Nat.mod_eq_of_lt hposition]
          exact hbit
        · rw [getAidFromOctetIndexAndBitPosition, Nat.shiftLeft_eq]
      · refine ⟨8 + i, ?_, ?_⟩
        · rwa [getBit_append_right]
        · rw [Nat.add_one_mul, Nat.add_assoc]
    · rintro ⟨i, hbit, rfl⟩
      by_cases hi : i < 8
      · refine Or.inl ⟨i, hi, ?_, ?_⟩
        · rwa [getBit_eq, Nat.div_eq_of_lt hi, Nat.mod_eq_of_lt hi] at hbit
        · rw [getAidFromOctetIndexAndBitPosition, Nat.shiftLeft_eq]
      · obtain ⟨j, rfl⟩ := Nat.exists_eq_add_of_le (not_lt.mp hi)
        refine Or.inr ⟨j, ?_, ?_⟩
        · rwa [getBit_append_right] at hbit
        · rw [Nat.add_one_mul, Nat.add_assoc]

/-- The offset and the indication of group addressed frames do not touch each other. -/
theorem Valid.getBitmapControl_spec (ht : t.Valid) :
    (t.getBitmapControl &&& 0xFE).toNat = t.getPartialVirtualBitmapOffset ∧
      (t.getBitmapControl &&& 0x01 ≠ 0 ↔
        t.dtimCount = 0 ∧ t.hasMulticastPending = true) := by
  obtain ⟨hle, hlt, heven⟩ := ht.extent
  have hplain : ∀ k : Fin 126, (UInt8.ofNat (k.val + k.val) &&& 0xFE).toNat = k.val + k.val ∧
      UInt8.ofNat (k.val + k.val) &&& 0x01 = 0 := by decide +kernel
  have hpending : ∀ k : Fin 126,
      ((UInt8.ofNat (k.val + k.val) ||| 0x01) &&& 0xFE).toNat = k.val + k.val ∧
      (UInt8.ofNat (k.val + k.val) ||| 0x01) &&& 0x01 ≠ 0 := by decide +kernel
  obtain ⟨k, hk⟩ := heven
  have hk126 : k < 126 := by omega
  simp only [getBitmapControl, hk]
  split
  · next h => exact ⟨(hpending ⟨k, hk126⟩).1, iff_of_true (hpending ⟨k, hk126⟩).2 h⟩
  · next h => exact ⟨(hplain ⟨k, hk126⟩).1, iff_of_false (not_not.mpr (hplain ⟨k, hk126⟩).2) h⟩

/-- The `Tim` that the reader finds. -/
def received (t : Tim) : Tim :=
  { t with hasMulticastPending := decide (t.dtimCount = 0 ∧ t.hasMulticastPending = true) }

theorem Valid.deserialize_serialize (ht : t.Valid) {bitmap : List UInt8}
    (hbitmap : t.getPartialVirtualBitmap = some bitmap) (rest : List UInt8) :
    deserializeInformationField {} (t.dtimCount :: t.dtimPeriod :: t.getBitmapControl ::
        (bitmap ++ rest)) t.getInformationFieldSize =
      some (t.received, t.getInformationFieldSize, rest) := by
  obtain ⟨bitmap', hbitmap', hlength, hbits⟩ := ht.getPartialVirtualBitmap_spec
  obtain rfl := Option.some.inj (hbitmap.symm.trans hbitmap')
  obtain ⟨hle, hlt, -⟩ := ht.extent
  obtain ⟨hoffset, hmulticast⟩ := ht.getBitmapControl_spec
  obtain ⟨aids, hread, haids⟩ :=
    @deserializeBitmap_append bitmap t.getPartialVirtualBitmapOffset ∅ rest
  have hsame : aids = t.aidValues := by
    ext aid
    rw [haids]
    constructor
    · rintro (hmem | ⟨i, hbit, rfl⟩)
      · exact absurd hmem (Finset.notMem_empty _)
      · have hmem := (hbits i).mp hbit
        have hsmall : t.getPartialVirtualBitmapOffset * 8 + i ≤ maxAid := ht _ hmem
        rwa [Nat.mod_eq_of_lt (hsmall.trans_lt (by decide))]
    · intro hmem
      have hbefore := (ht.isGreatest_offset ⟨aid, hmem⟩).1.2 aid hmem
      have hsmall : aid < 2 ^ 16 := (ht aid hmem).trans_lt (by decide)
      refine Or.inr ⟨aid - t.getPartialVirtualBitmapOffset * 8, ?_, ?_⟩
      · rwa [hbits, Nat.add_sub_cancel' hbefore]
      · rw [Nat.add_sub_cancel' hbefore, Nat.mod_eq_of_lt hsmall]
  subst hsame
  have hsize := ht.getInformationFieldSize_eq
  have hpos : 0 < t.bitmapSize ∧ t.bitmapSize ≤ 251 := by
    rw [bitmapSize]
    omega
  have hoctets : (t.getPartialVirtualBitmapOffset + t.getInformationFieldSize - 3) % 2 ^ 16 -
      t.getPartialVirtualBitmapOffset = bitmap.length := by
    rw [hsize, hlength]
    omega
  rw [deserializeInformationField, if_neg (by omega)]
  dsimp only
  rw [if_neg (by omega), hoffset, hoctets, hread, Option.map_some]
  simp only [Option.some.injEq, Prod.mk.injEq, and_true]
  refine ⟨?_, by omega⟩
  rw [received, decide_eq_decide.mpr hmulticast]

/-- The field has the size announced, the octets sent are as few as the format allows, and a new
`Tim` reads the same AIDs and DTIM fields, with the indication only at a DTIM count of 0. -/
theorem deserialize_partial_virtual_bitmap (t : Tim) (h : t.Valid) (rest : List UInt8) :
    ∃ bitmap field, t.getPartialVirtualBitmap = some bitmap ∧
      t.serializeInformationField = some field ∧
      field = [t.dtimCount, t.dtimPeriod, t.getBitmapControl] ++ bitmap ∧
      field.length = t.getInformationFieldSize ∧
      (t.getBitmapControl &&& 0xFE).toNat = t.getPartialVirtualBitmapOffset ∧
      t.getPartialVirtualBitmapOffset + bitmap.length = t.getLastNonZeroOctetIndex + 1 ∧
      (t.aidValues.Nonempty → IsGreatest { n | Even n ∧ ∀ aid ∈ t.aidValues, n * 8 ≤ aid }
        t.getPartialVirtualBitmapOffset) ∧
      IsLeast { n | ∀ aid ∈ t.aidValues, aid < (n + 1) * 8 } t.getLastNonZeroOctetIndex ∧
      (t.aidValues = ∅ → t.getPartialVirtualBitmapOffset = 0 ∧ bitmap = [0]) ∧
      deserializeInformationField {} (field ++ rest) t.getInformationFieldSize =
        some ({ t with
          hasMulticastPending := decide (t.dtimCount = 0 ∧ t.hasMulticastPending = true) },
          t.getInformationFieldSize, rest) := by
  obtain ⟨bitmap, hbitmap, hlength, hbits⟩ := h.getPartialVirtualBitmap_spec
  obtain ⟨hle, hlt, -⟩ := h.extent
  have hsize := h.getInformationFieldSize_eq
  refine ⟨bitmap, _, hbitmap, by rw [serializeInformationField, hbitmap]; rfl, rfl, ?_,
    h.getBitmapControl_spec.1, ?_, h.isGreatest_offset, h.isLeast_last, ?_,
    h.deserialize_serialize hbitmap rest⟩
  · rw [hsize, ← hlength, List.length_append, List.length_cons, List.length_cons,
      List.length_singleton]
    omega
  · rw [hlength, bitmapSize]
    omega
  · intro hempty
    refine ⟨getPartialVirtualBitmapOffset_of_empty hempty, ?_⟩
    have hsort : t.aidValues.sort (· ≤ ·) = [] := by rw [hempty, Finset.sort_empty]
    simp only [getPartialVirtualBitmap, getPartialVirtualBitmapOffset_of_empty hempty,
      getLastNonZeroOctetIndex_of_empty hempty, hsort, le_refl, if_true] at hbitmap
    exact (Option.some.inj hbitmap).symm

/-- Two AIDs in octets 6 and 7, and a multicast flag that is sent. -/
theorem deserialize_partial_virtual_bitmap_two :
    ∃ bitmap field, getPartialVirtualBitmap
        { dtimPeriod := 3, hasMulticastPending := true, aidValues := {53, 61} } = some bitmap ∧
      field = [0, 3, 0x07] ++ bitmap ∧
      deserializeInformationField {} field 5 =
        some ({ dtimPeriod := 3, hasMulticastPending := true, aidValues := {53, 61} }, 5, []) := by
  obtain ⟨bitmap, field, hbitmap, -, hfield, -, -, -, -, -, -, hread⟩ :=
    deserialize_partial_virtual_bitmap
      { dtimPeriod := 3, hasMulticastPending := true, aidValues := {53, 61} } (by decide) []
  rw [List.append_nil] at hread
  exact ⟨bitmap, field, hbitmap, hfield, hread⟩

end Tim

end Ns3Pedca
