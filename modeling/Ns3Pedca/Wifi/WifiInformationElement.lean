import Ns3Pedca.Bytes

/-!
# Information elements

`WifiInformationElement` writes the ID of an element, a length octet and the information field, and
cuts a field that is longer than 255 bytes into fragments. An extended element has a second ID
octet, which counts as the first byte of the field. What a subclass writes and reads is `field`,
the field without it.

The fragments are the field in pieces of 255 bytes (`serialize_eq`), and reading puts them together
again (`deserialize_serialize`), whatever the length. The size of a fragmented element is
computed as an `uint16_t`, which is too small for the longest ones (`getSerializedSize_eq`).
-/

namespace Ns3Pedca

/-- `IE_FRAGMENT`. -/
def ieFragment : UInt8 := 242

/-- `IE_EXTENSION`. -/
def ieExtension : UInt8 := 255

/-- An element, with the bytes that `SerializeInformationField` writes. -/
structure WifiInformationElement where
  elementId : UInt8
  elementIdExt : UInt8 := 0
  field : List UInt8
  size_lt : field.length + (if elementId = ieExtension then 1 else 0) < 2 ^ 16

namespace WifiInformationElement

variable (e : WifiInformationElement)

/-- The octet of the element ID extension, if there is one. -/
def extension : List UInt8 :=
  if e.elementId = ieExtension then [e.elementIdExt] else []

/-- `GetInformationFieldSize`. -/
def getInformationFieldSize : ℕ :=
  e.field.length + if e.elementId = ieExtension then 1 else 0

/-- `GetSerializedSize`. -/
def getSerializedSize : ℕ :=
  let size := e.getInformationFieldSize
  if size ≤ 255 then (2 + size) % 2 ^ 16
  else
    let m := size / 255
    let remainder := size % 255
    let n := if 0 < remainder then 1 else 0
    (m * (2 + 255) + n * (2 + remainder)) % 2 ^ 16

/-! ## Writing -/

/-- The rounds of the loop over the fragments of maximum size, from `index` on, with what is left of
the source. -/
def writeFragments (index : ℕ) : ℕ → List UInt8 → List UInt8 × List UInt8
  | 0, source => ([], source)
  | rounds + 1, source =>
    let elementId := if index = 0 then e.elementId else ieFragment
    let isExtended := index = 0 ∧ e.elementId = ieExtension
    let extension := if isExtended then [e.elementIdExt] else []
    let length := if isExtended then 254 else 255
    let (written, source') := writeFragments (index + 1) rounds (source.drop length)
    (elementId :: 255 :: extension ++ source.take length ++ written, source')

/-- `SerializeFragments`. The source is a buffer of the size of the information field. -/
def serializeFragments (size : ℕ) : List UInt8 :=
  let source := e.field ++ List.replicate (size - e.field.length) 0
  let (written, source') := e.writeFragments 0 (size / 255) source
  let remainder := size % 255
  if 0 < remainder then
    written ++ ieFragment :: UInt8.ofNat remainder :: source'.take remainder
  else written

/-- `Serialize`. -/
def serialize : List UInt8 :=
  let size := e.getInformationFieldSize
  if 255 < size then e.serializeFragments size
  else e.elementId :: UInt8.ofNat size :: e.extension ++ e.field

/-! ## Reading -/

/-- The loop of `DoDeserialize`, with the iterator, the size of the current fragment, the
destination buffer and the number of bytes written to it. It ends with what is handed to
`DeserializeInformationField` and the bytes from the iterator on. -/
def copyFragments : ℕ → List UInt8 → ℕ → List UInt8 → ℕ → Option (List UInt8 × List UInt8)
  | 0, _, _, _, _ => none
  | rounds + 1, i, count, buffer, length =>
    (Bytes.readBytes count i).bind fun (bytes, i) =>
      let buffer := buffer.take length ++ bytes ++ buffer.drop (length + count)
      let length := (length + count) % 2 ^ 16
      if i.head? = some ieFragment then
        match i.tail with
        | [] => none
        | count :: i =>
          copyFragments rounds i count.toNat (buffer ++ List.replicate count.toNat 0) length
      else some (buffer.take length, i)

/-- `DoDeserialize`. -/
def doDeserialize (elementId : UInt8) (i : List UInt8) (length : ℕ) :
    Option (List UInt8 × List UInt8) :=
  let limit := if elementId = ieExtension then 254 else 255
  (Bytes.readBytes length i).bind fun (bytes, tmp) =>
    if length < limit ∨ tmp.head? ≠ some ieFragment then some (bytes, tmp)
    else if length ≠ limit then none
    else copyFragments i.length i length (List.replicate length 0) 0

/-- `DeserializeIfPresent` : nothing is handed over if the element is another one. -/
def deserializeIfPresent (elementId elementIdExt : UInt8) (start : List UInt8) :
    Option (Option (List UInt8) × List UInt8) :=
  match start with
  | [] => some (none, start)
  | [id] => if id ≠ elementId then some (none, start) else none
  | id :: length :: i =>
    if id ≠ elementId then some (none, start)
    else if elementId = ieExtension then
      match i with
      | [] => none
      | ext :: i =>
        if ext ≠ elementIdExt then some (none, start)
        else (doDeserialize elementId i ((length.toNat + 2 ^ 16 - 1) % 2 ^ 16)).map fun x =>
          (some x.1, x.2)
    else (doDeserialize elementId i length.toNat).map fun x => (some x.1, x.2)

/-- `Deserialize` : the element has to be there. -/
def deserialize (elementId elementIdExt : UInt8) (start : List UInt8) :
    Option (List UInt8 × List UInt8) :=
  (deserializeIfPresent elementId elementIdExt start).bind fun (field, i) =>
    field.map (·, i)

/-! ## Pieces of a field -/

/-- A fragment : an ID, a length octet and the bytes it counts. -/
def fragment (elementId : UInt8) (piece : List UInt8) : List UInt8 :=
  elementId :: UInt8.ofNat piece.length :: piece

/-- So many pieces of 255 bytes, and what is left. -/
def chunks : ℕ → List UInt8 → List (List UInt8)
  | 0, l => if l = [] then [] else [l]
  | m + 1, l => l.take 255 :: chunks m (l.drop 255)

/-- The information field, with the element ID extension. -/
def information : List UInt8 :=
  e.extension ++ e.field

/-- The first piece of the information field, and the others. -/
def pieces : List UInt8 × List (List UInt8) :=
  if e.information.length ≤ 255 then (e.information, [])
  else (e.information.take 255, chunks (e.information.length / 255 - 1) (e.information.drop 255))

theorem flatten_chunks (m : ℕ) (l : List UInt8) : (chunks m l).flatten = l := by
  induction m generalizing l with
  | zero =>
    rw [chunks]
    split_ifs with hnil
    · exact hnil.symm
    · exact List.append_nil l
  | succ m ih => rw [chunks, List.flatten_cons, ih, List.take_append_drop]

theorem length_chunks {m : ℕ} {l : List UInt8} (h : 255 * m ≤ l.length) :
    (chunks m l).length = m + if 255 * m < l.length then 1 else 0 := by
  induction m generalizing l with
  | zero =>
    rw [chunks]
    split_ifs with hnil hpos hpos
    · rw [hnil] at hpos
      exact absurd hpos (Nat.lt_irrefl 0)
    · rfl
    · rfl
    · exact absurd (List.length_pos_iff.2 hnil) (by omega)
  | succ m ih =>
    rw [chunks, List.length_cons, ih (by rw [List.length_drop]; omega), List.length_drop]
    split_ifs <;> omega

theorem length_le_of_mem_chunks {m : ℕ} {l : List UInt8} (h : l.length ≤ 255 * m + 255) :
    ∀ piece ∈ chunks m l, piece.length ≤ 255 := by
  induction m generalizing l with
  | zero =>
    intro piece hmem
    rw [chunks] at hmem
    split_ifs at hmem
    · cases hmem
    · rw [List.mem_singleton.1 hmem]
      exact h
  | succ m ih =>
    intro piece hmem
    rcases List.mem_cons.1 hmem with rfl | hmem
    · exact List.length_take_le _ _
    · exact ih (by rw [List.length_drop]; omega) piece hmem

theorem length_extension : e.extension.length = if e.elementId = ieExtension then 1 else 0 := by
  rw [extension]
  split_ifs <;> rfl

theorem length_information : e.information.length = e.getInformationFieldSize := by
  rw [information, List.length_append, length_extension, getInformationFieldSize, Nat.add_comm]

theorem getInformationFieldSize_lt : e.getInformationFieldSize < 2 ^ 16 :=
  e.size_lt

theorem pieces_flatten : e.pieces.1 ++ e.pieces.2.flatten = e.information := by
  rw [pieces]
  split_ifs
  · exact List.append_nil _
  · rw [flatten_chunks, List.take_append_drop]

theorem length_pieces_le : ∀ piece ∈ e.pieces.1 :: e.pieces.2, piece.length ≤ 255 := by
  rw [pieces]
  split_ifs with hle
  · exact List.forall_mem_singleton.2 hle
  · refine List.forall_mem_cons.2 ⟨List.length_take_le _ _, length_le_of_mem_chunks ?_⟩
    rw [List.length_drop]
    omega

/-- A piece that is followed by another is of maximum size, if it is the first. -/
theorem length_first_piece (h : e.pieces.2 ≠ []) : e.pieces.1.length = 255 := by
  rw [pieces] at h ⊢
  split_ifs at h ⊢ with hle
  · exact absurd rfl h
  · rw [List.length_take]
    omega

/-! ## What is written -/

theorem length_fragment (elementId : UInt8) (piece : List UInt8) :
    (fragment elementId piece).length = piece.length + 2 :=
  rfl

theorem length_flatMap_fragment (elementId : UInt8) (l : List (List UInt8)) :
    (l.flatMap (fragment elementId)).length = l.flatten.length + 2 * l.length := by
  induction l with
  | nil => rfl
  | cons piece l ih =>
    rw [List.flatMap_cons, List.length_append, ih, length_fragment, List.flatten_cons,
      List.length_append, List.length_cons]
    omega

/-- The fragments after the first. -/
theorem writeFragments_succ (m index : ℕ) {l : List UInt8} (pad : List UInt8) {remainder : ℕ}
    (hlt : remainder < 255) (hlen : l.length = 255 * m + remainder) :
    (if 0 < remainder then (e.writeFragments (index + 1) m (l ++ pad)).1 ++
        ieFragment :: UInt8.ofNat remainder ::
          (e.writeFragments (index + 1) m (l ++ pad)).2.take remainder
      else (e.writeFragments (index + 1) m (l ++ pad)).1) =
      (chunks m l).flatMap (fragment ieFragment) := by
  induction m generalizing index l with
  | zero =>
    rw [Nat.mul_zero, Nat.zero_add] at hlen
    rw [chunks, writeFragments]
    subst hlen
    split_ifs with hpos hnil hnil
    · rw [hnil] at hpos
      exact absurd hpos (Nat.lt_irrefl 0)
    · rw [List.take_left, List.flatMap_singleton]
      rfl
    · rfl
    · exact absurd (List.length_pos_iff.2 hnil) hpos
  | succ m ih =>
    have hfull : 255 ≤ l.length := by omega
    have hrest := ih (index + 1) (l := l.drop 255) (by rw [List.length_drop]; omega)
    have hlength : (l.take 255).length = 255 := by
      rw [List.length_take]
      omega
    rw [chunks, List.flatMap_cons, ← hrest, writeFragments, fragment, hlength]
    simp only [Nat.succ_ne_zero, false_and, if_false, List.take_append_of_le_length hfull,
      List.drop_append_of_le_length hfull]
    split_ifs <;> simp

/-- The first fragment. An extended element has its second ID in it, and the source is one byte too
long. -/
theorem writeFragments_zero (m : ℕ) (h : 255 ≤ e.information.length) : ∃ pad,
    e.writeFragments 0 (m + 1)
        (e.field ++ List.replicate (e.information.length - e.field.length) 0) =
      (e.elementId :: 255 :: e.information.take 255 ++
        (e.writeFragments 1 m (e.information.drop 255 ++ pad)).1,
        (e.writeFragments 1 m (e.information.drop 255 ++ pad)).2) := by
  refine ⟨List.replicate (e.information.length - e.field.length) 0, ?_⟩
  rw [information, extension] at h ⊢
  rw [writeFragments]
  by_cases hext : e.elementId = ieExtension
  · rw [if_pos hext] at h ⊢
    have hlen : 254 ≤ e.field.length := Nat.le_of_succ_le_succ h
    simp only [hext, and_self, if_true, List.take_append_of_le_length hlen,
      List.drop_append_of_le_length hlen]
    rfl
  · rw [if_neg hext] at h ⊢
    have hlen : 255 ≤ e.field.length := h
    simp only [hext, and_false, if_false, if_true, List.nil_append,
      List.take_append_of_le_length hlen, List.drop_append_of_le_length hlen]
    rfl

theorem serializeFragments_eq (h : 255 < e.information.length) :
    e.serializeFragments e.information.length = fragment e.elementId (e.information.take 255) ++
      (chunks (e.information.length / 255 - 1) (e.information.drop 255)).flatMap
        (fragment ieFragment) := by
  have hlength : (e.information.take 255).length = 255 := by
    rw [List.length_take]
    omega
  obtain ⟨m, hm⟩ : ∃ m, e.information.length / 255 = m + 1 :=
    ⟨e.information.length / 255 - 1, by omega⟩
  obtain ⟨pad, hfirst⟩ := e.writeFragments_zero m (Nat.le_of_lt h)
  have hrest := e.writeFragments_succ m 0 (l := e.information.drop 255) pad
    (Nat.mod_lt e.information.length (by decide)) (by rw [List.length_drop]; omega)
  rw [serializeFragments, hm, hfirst, Nat.add_sub_cancel, ← hrest, fragment, hlength]
  dsimp only
  split_ifs <;> simp

/-- What is written is the field in fragments, the first of them with the ID of the element. -/
theorem serialize_eq : e.serialize =
    fragment e.elementId e.pieces.1 ++ e.pieces.2.flatMap (fragment ieFragment) := by
  rw [serialize, ← length_information, pieces]
  split_ifs with hlong hshort hshort
  · omega
  · exact e.serializeFragments_eq hlong
  · rw [List.flatMap_nil, List.append_nil, fragment, information]
    rfl
  · omega

theorem length_serialize :
    e.serialize.length = e.information.length + 2 * (1 + e.pieces.2.length) := by
  have hflatten := congrArg List.length e.pieces_flatten
  rw [List.length_append] at hflatten
  rw [serialize_eq, List.length_append, length_fragment, length_flatMap_fragment]
  omega

/-- `GetSerializedSize` is the number of bytes written, as an `uint16_t`. -/
theorem getSerializedSize_eq : e.getSerializedSize = e.serialize.length % 2 ^ 16 := by
  rw [getSerializedSize, ← length_information, length_serialize, pieces]
  dsimp only
  split_ifs with hle hrem
  · rw [List.length_nil, Nat.add_comm]
  all_goals
    have hlast := length_chunks (m := e.information.length / 255 - 1)
      (l := e.information.drop 255) (by rw [List.length_drop]; omega)
    rw [hlast, List.length_drop]
  · rw [if_pos (by omega)]
    congr 1
    omega
  · rw [if_neg (by omega)]
    congr 1
    omega

/-- The longest elements do not fit an `uint16_t`. -/
theorem length_serialize_lt_iff :
    e.serialize.length < 2 ^ 16 ↔ e.getInformationFieldSize ≤ 65025 := by
  rw [length_serialize, ← length_information, pieces]
  split_ifs with hle
  · rw [List.length_nil]
    omega
  · have hlast := length_chunks (m := e.information.length / 255 - 1)
      (l := e.information.drop 255) (by rw [List.length_drop]; omega)
    rw [hlast, List.length_drop]
    split_ifs <;> omega

/-! ## What is read -/

/-- A round of the loop appends the current fragment. -/
theorem copyFragments_succ (rounds : ℕ) (acc piece i : List UInt8)
    (hsize : acc.length + piece.length < 2 ^ 16) :
    copyFragments (rounds + 1) (piece ++ i) piece.length
        (acc ++ List.replicate piece.length 0) acc.length =
      if i.head? = some ieFragment then
        match i.tail with
        | [] => none
        | count :: i => copyFragments rounds i count.toNat
          (acc ++ piece ++ List.replicate count.toNat 0) (acc ++ piece).length
      else some (acc ++ piece, i) := by
  have hroom : (acc ++ List.replicate piece.length 0).drop (acc.length + piece.length) =
      ([] : List UInt8) := List.drop_eq_nil_of_le (by simp)
  have hlen : (acc.length + piece.length) % 2 ^ 16 = (acc ++ piece).length := by
    rw [Nat.mod_eq_of_lt hsize, List.length_append]
  rw [copyFragments, Bytes.readBytes_append, Option.bind_some, List.take_left, hroom, hlen]
  dsimp only
  rw [List.append_nil, List.take_length]

/-- The fragments are put together. -/
theorem copyFragments_eq {rest : List UInt8} (hrest : rest.head? ≠ some ieFragment)
    {l : List (List UInt8)} (hle : ∀ piece ∈ l, piece.length ≤ 255) {rounds : ℕ}
    (hrounds : l.length < rounds) {acc piece : List UInt8}
    (hsize : acc.length + piece.length + l.flatten.length < 2 ^ 16) :
    copyFragments rounds (piece ++ (l.flatMap (fragment ieFragment) ++ rest)) piece.length
      (acc ++ List.replicate piece.length 0) acc.length =
      some (acc ++ piece ++ l.flatten, rest) := by
  obtain ⟨rounds, rfl⟩ : ∃ n, rounds = n + 1 := ⟨rounds - 1, by omega⟩
  rw [copyFragments_succ _ _ _ _ (by omega)]
  induction l generalizing rounds acc piece with
  | nil =>
    rw [List.flatMap_nil, List.nil_append, if_neg hrest, List.flatten_nil, List.append_nil]
  | cons piece' l ih =>
    obtain ⟨hpiece, hl⟩ := List.forall_mem_cons.1 hle
    rw [List.flatten_cons, List.length_append] at hsize
    rw [List.length_cons] at hrounds
    obtain ⟨rounds, rfl⟩ : ∃ n, rounds = n + 1 := ⟨rounds - 1, by omega⟩
    have hcount : (UInt8.ofNat piece'.length).toNat = piece'.length :=
      UInt8.toNat_ofNat_of_lt' (Nat.lt_succ_of_le hpiece)
    have hsize' : (acc ++ piece).length + piece'.length + l.flatten.length < 2 ^ 16 := by
      rw [List.length_append]
      omega
    rw [List.flatMap_cons, List.append_assoc, fragment, List.cons_append, List.head?_cons,
      if_pos rfl]
    change copyFragments (rounds + 1) (piece' ++ (l.flatMap (fragment ieFragment) ++ rest)) _ _ _
      = _
    rw [hcount, copyFragments_succ _ _ _ _ (by omega), ih hl hsize' rounds (by omega),
      List.flatten_cons, List.append_assoc (acc ++ piece)]

/-- The pieces of an element are put together, if the first one is of maximum size or the only
one. -/
theorem doDeserialize_eq {elementId : UInt8} {rest : List UInt8}
    (hrest : rest.head? ≠ some ieFragment) {l : List (List UInt8)}
    (hle : ∀ piece ∈ l, piece.length ≤ 255) {piece : List UInt8}
    (hsize : piece.length + l.flatten.length < 2 ^ 16)
    (hfirst : l ≠ [] → piece.length = if elementId = ieExtension then 254 else 255) :
    doDeserialize elementId (piece ++ (l.flatMap (fragment ieFragment) ++ rest)) piece.length =
      some (piece ++ l.flatten, rest) := by
  rw [doDeserialize, Bytes.readBytes_append, Option.bind_some]
  dsimp only
  rcases eq_or_ne l [] with rfl | hne
  · rw [List.flatMap_nil, List.nil_append, if_pos (Or.inr hrest), List.flatten_nil, List.append_nil]
  · have hlimit := hfirst hne
    have hhead : (l.flatMap (fragment ieFragment) ++ rest).head? = some ieFragment := by
      cases l with
      | nil => exact absurd rfl hne
      | cons piece' l => rfl
    rw [if_neg (by rw [hlimit, hhead]; simp), if_neg (not_not.2 hlimit)]
    have hrounds : l.length < (piece ++ (l.flatMap (fragment ieFragment) ++ rest)).length := by
      rw [List.length_append, List.length_append, length_flatMap_fragment]
      split_ifs at hlimit <;> omega
    have hsize' : ([] : List UInt8).length + piece.length + l.flatten.length < 2 ^ 16 := by
      rwa [List.length_nil, Nat.zero_add]
    exact copyFragments_eq hrest hle hrounds hsize'

/-- What was written is read, up to the end of the element. -/
theorem deserialize_serialize {rest : List UInt8} (hrest : rest.head? ≠ some ieFragment) :
    deserialize e.elementId e.elementIdExt (e.serialize ++ rest) = some (e.field, rest) := by
  have hflatten := e.pieces_flatten
  have hfirst := e.length_first_piece
  obtain ⟨hpiece, hle⟩ := List.forall_mem_cons.1 e.length_pieces_le
  have hsize : e.information.length < 2 ^ 16 := e.length_information ▸ e.getInformationFieldSize_lt
  rw [serialize_eq, List.append_assoc, fragment]
  generalize e.pieces.1 = piece at hflatten hfirst hpiece ⊢
  generalize e.pieces.2 = l at hflatten hfirst hle ⊢
  have hcount : (UInt8.ofNat piece.length).toNat = piece.length :=
    UInt8.toNat_ofNat_of_lt' (Nat.lt_succ_of_le hpiece)
  rw [← hflatten, List.length_append] at hsize
  rw [information, extension] at hflatten
  rw [deserialize, List.cons_append, List.cons_append, deserializeIfPresent.eq_def]
  dsimp only
  rw [if_neg (not_not.2 rfl), hcount]
  by_cases hext : e.elementId = ieExtension
  · rw [if_pos hext] at hflatten ⊢
    cases piece with
    | nil =>
      cases l with
      | nil => cases hflatten
      | cons piece' l => cases hfirst (List.cons_ne_nil _ _)
    | cons ext piece =>
      obtain ⟨rfl, hfield⟩ := List.cons.inj hflatten
      rw [List.length_cons] at hsize hfirst hpiece
      have hlength : ((e.elementIdExt :: piece).length + 2 ^ 16 - 1) % 2 ^ 16 = piece.length := by
        rw [List.length_cons]
        omega
      have hsize' : piece.length + l.flatten.length < 2 ^ 16 := by omega
      have hfirst' : l ≠ [] → piece.length = if e.elementId = ieExtension then 254 else 255 := by
        intro hne
        rw [if_pos hext]
        exact Nat.succ.inj (hfirst hne)
      have hread := doDeserialize_eq hrest hle hsize' hfirst'
      dsimp only [List.cons_append]
      have hfield' : piece ++ l.flatten = e.field := hfield
      rw [if_neg (not_not.2 rfl), hlength, hread, hfield']
      rfl
  · rw [if_neg hext] at hflatten ⊢
    have hfirst' : l ≠ [] → piece.length = if e.elementId = ieExtension then 254 else 255 := by
      intro hne
      rw [if_neg hext, hfirst hne]
    have hread := doDeserialize_eq hrest hle hsize hfirst'
    rw [hread, hflatten]
    rfl

/-- `Serialize` writes `GetSerializedSize` bytes, in fragments whose length octets count the bytes
that follow, and `Deserialize` reads the field back, up to the end of the element. -/
def WrittenAndRead : Prop :=
  e.serialize.length = e.getSerializedSize ∧
    (∃ first others, e.serialize =
        fragment e.elementId first ++ others.flatMap (fragment ieFragment) ∧
      ∀ piece ∈ first :: others,
        piece.length ≤ 255 ∧ (UInt8.ofNat piece.length).toNat = piece.length) ∧
    ∀ rest : List UInt8, rest.head? ≠ some ieFragment →
      deserialize e.elementId e.elementIdExt (e.serialize ++ rest) = some (e.field, rest)

/-- This holds of every element but the longest. -/
theorem writtenAndRead_iff : e.WrittenAndRead ↔ e.getInformationFieldSize ≤ 65025 := by
  rw [← length_serialize_lt_iff]
  constructor
  · rintro ⟨hsize, -⟩
    rw [hsize, getSerializedSize_eq]
    exact Nat.mod_lt _ (by decide)
  · intro hlt
    refine ⟨?_, ⟨e.pieces.1, e.pieces.2, e.serialize_eq, fun piece hmem => ?_⟩,
      fun rest hrest => e.deserialize_serialize hrest⟩
    · rw [getSerializedSize_eq, Nat.mod_eq_of_lt hlt]
    · have hle := e.length_pieces_le piece hmem
      exact ⟨hle, UInt8.toNat_ofNat_of_lt' (Nat.lt_succ_of_le hle)⟩

/-- An element with the longest information field. -/
def longest : WifiInformationElement where
  elementId := 0
  field := List.replicate 65535 0
  size_lt := by
    rw [List.length_replicate, if_neg (by decide)]
    omega

/-- It is written in 66049 bytes, and its size as an `uint16_t` is 513. -/
theorem not_writtenAndRead_longest : ¬ longest.WrittenAndRead := by
  rintro ⟨hsize, -⟩
  have hfield : longest.getInformationFieldSize = 65535 := by
    have hlength : longest.field.length = 65535 := List.length_replicate
    rw [getInformationFieldSize, hlength, if_neg (by decide)]
  have hlt : longest.getSerializedSize < 2 ^ 16 := by
    rw [getSerializedSize_eq]
    exact Nat.mod_lt _ (by decide)
  have hlen := longest.length_serialize
  rw [hsize, length_information, hfield] at hlen
  omega

end WifiInformationElement

end Ns3Pedca
