import Ns3Pedca.Wifi.CtrlBAckResponseHeader

/-!
# The transport of BlockAck feedback

A header with a single bitmap is read back from its frame as it is
(`deserialize_serialize`), and the bitmap that a recipient fills has a bit for every number
of its scoreboard : `sendBlockAck_transport` puts the two together.
-/

namespace Ns3Pedca

namespace CtrlBAckResponseHeader

open Bytes

variable {hdr : CtrlBAckResponseHeader} {info : BaInfoInstance} {variant : BlockAckVariant}
  {seq : SeqNo}

/-! ## Reading a frame back -/

/-- The lengths that the bitmap of a variant can have. -/
def bitmapLens : BlockAckVariant → List ℕ
  | .basic => [128]
  | .extendedCompressed => [8]
  | .compressed | .gcr => [8, 32, 64, 128]
  | .multiTid | .multiSta => []

theorem variant_setType (type : BlockAckType) :
    (hdr.setType type).baType.variant = type.variant :=
  rfl

/-- A header with a single bitmap, and what a frame keeps of it. -/
structure WellFormed (hdr : CtrlBAckResponseHeader) (info : BaInfoInstance) : Prop where
  baInfo_eq : hdr.baInfo = [info]
  bitmapLen_eq : hdr.baType.bitmapLen = [info.bitmap.length]
  length_mem : info.bitmap.length ∈ bitmapLens hdr.baType.variant
  tidInfo_lt : hdr.tidInfo < 16
  startingSeq_lt : info.startingSeq < seqnoSpaceSize
  aidTidInfo_eq : info.aidTidInfo = 0
  address_eq : hdr.baType.variant ≠ .gcr → info.address = .station 0

/-- The fields of the BA Control field are read back. -/
theorem baControl_fields (policy : Bool) (variant : BlockAckVariant) (tid : Fin 16)
    (hvariant : variant ≠ .multiSta) {ba : ℕ}
    (hba : ba = ((if policy then 0x1 else 0) ||| variantCode variant <<< 1 |||
      tid.val <<< 12 &&& 0xf <<< 12)) :
    ba < 2 ^ 16 ∧ (decide (ba &&& 0x01 = 1) = policy) ∧
      variantOfCode (ba >>> 1 &&& 0x0f) = some variant ∧ ba >>> 12 &&& 0x0f = tid.val := by
  subst hba
  cases variant <;> first | exact absurd rfl hvariant | (revert policy tid; decide)

/-- The fields of the starting sequence control are read back. -/
theorem startingSequenceControl_fields {startingSeq code : ℕ} (hseq : startingSeq < 4096)
    (hcode : code < 16) {control : ℕ}
    (hcontrol : control = (startingSeq <<< 4 &&& 0xfff0 ||| code)) :
    control < 2 ^ 16 ∧ control &&& 0x000f = code ∧ control >>> 4 &&& 0x0fff = startingSeq := by
  have hand : startingSeq <<< 4 &&& 0xfff0 = startingSeq <<< 4 := by
    rw [show 0xfff0 = (2 ^ 12 - 1) <<< 4 from rfl, ← Nat.shiftLeft_and_distrib,
      Nat.and_two_pow_sub_one_eq_mod, Nat.mod_eq_of_lt hseq]
  rw [hand, ← Nat.shiftLeft_add_eq_or_of_lt hcode, Nat.shiftLeft_eq] at hcontrol
  rw [show (0x000f : ℕ) = 2 ^ 4 - 1 from rfl, show (0x0fff : ℕ) = 2 ^ 12 - 1 from rfl,
    Nat.and_two_pow_sub_one_eq_mod, Nat.and_two_pow_sub_one_eq_mod, Nat.shiftRight_eq_div_pow]
  omega

theorem readAddress_writeAddress (address : Mac48Address) (rest : List UInt8) :
    readAddress (writeAddress address ++ rest) = some (address, rest) := by
  obtain ⟨⟨⟨bytes⟩, hsize⟩⟩ := address
  match bytes, hsize with
  | [_, _, _, _, _, _], _ => rfl

theorem length_writeAddress (address : Mac48Address) : (writeAddress address).length = 6 :=
  address.address.size_toArray

/-- The length of the bitmap is read back. -/
theorem lengthOfCode_lengthCode (hvariant : variant = .compressed ∨ variant = .gcr) {len : ℕ}
    (hlen : len ∈ bitmapLens variant) :
    ∃ code < 16, lengthCode variant len = some code ∧ lengthOfCode variant code = some len := by
  rcases hvariant with rfl | rfl <;> simp only [bitmapLens, List.mem_cons, List.not_mem_nil,
    or_false] at hlen <;> rcases hlen with rfl | rfl | rfl | rfl <;> decide

namespace WellFormed

variable (h : hdr.WellFormed info)

include h

theorem info_eq : hdr.info 0 = info := by
  rw [CtrlBAckResponseHeader.info, h.baInfo_eq]
  rfl

theorem bitmapLen_zero : hdr.bitmapLen 0 = info.bitmap.length := by
  rw [bitmapLen, h.bitmapLen_eq]
  rfl

theorem variant_ne_multiSta : hdr.baType.variant ≠ .multiSta := by
  intro hvariant
  have hmem := h.length_mem
  rw [hvariant] at hmem
  cases hmem

theorem variant_of_ne (hgcr : hdr.baType.variant ≠ .gcr) : hdr.baType.variant = .basic ∨
    hdr.baType.variant = .compressed ∨ hdr.baType.variant = .extendedCompressed := by
  have hmem := h.length_mem
  cases hvariant : hdr.baType.variant <;> rw [hvariant] at hmem hgcr <;>
    first
    | cases hmem
    | exact absurd rfl hgcr
    | simp

/-- The BA Control field gives the type its default length. -/
theorem setBaControl (hdr' : CtrlBAckResponseHeader) :
    hdr.getBaControl < 2 ^ 16 ∧ hdr'.setBaControl hdr.getBaControl =
      some (hdr.setType hdr.baType.variant.type) := by
  obtain ⟨hlt, hpolicy, hvariant, htid⟩ := baControl_fields hdr.baAckPolicy hdr.baType.variant
    ⟨hdr.tidInfo, h.tidInfo_lt⟩ h.variant_ne_multiSta rfl
  have hba : hdr.getBaControl = ((if hdr.baAckPolicy then 0x1 else 0) |||
      variantCode hdr.baType.variant <<< 1 ||| hdr.tidInfo <<< 12 &&& 0xf <<< 12) := by
    rw [getBaControl, if_neg h.variant_ne_multiSta]
  rw [hba]
  refine ⟨hlt, ?_⟩
  rw [CtrlBAckResponseHeader.setBaControl, hvariant, Option.map_some, if_neg h.variant_ne_multiSta,
    htid, hpolicy]
  rfl

/-- The starting sequence control gives the bitmap its length. -/
theorem setStartingSequenceControl : ∃ control < 2 ^ 16,
    hdr.getStartingSequenceControl 0 = some control ∧
      (hdr.setType hdr.baType.variant.type).setStartingSequenceControl 0 control =
        some ((hdr.setType hdr.baType).setStartingSequence 0 info.startingSeq) := by
  have htype : hdr.baType = ⟨hdr.baType.variant, [info.bitmap.length]⟩ := by
    rw [← h.bitmapLen_eq]
  have hmem := h.length_mem
  obtain ⟨code, hcode, hlength, hset⟩ : ∃ code < 16,
      lengthCode hdr.baType.variant info.bitmap.length = some code ∧
        ∀ seqControl, seqControl &&& 0x000f = code →
          (hdr.setType hdr.baType.variant.type).setBitmapLen 0 seqControl =
            some (hdr.setType hdr.baType) := by
    rw [htype]
    cases hvariant : hdr.baType.variant <;> rw [hvariant] at hmem
    case basic =>
      rw [List.mem_singleton.1 hmem]
      exact ⟨0, by decide, rfl, fun _ _ => rfl⟩
    case extendedCompressed =>
      rw [List.mem_singleton.1 hmem]
      exact ⟨0, by decide, rfl, fun _ _ => rfl⟩
    case compressed =>
      obtain ⟨code, hlt, hlen, hof⟩ := lengthOfCode_lengthCode (.inl rfl) hmem
      refine ⟨code, hlt, hlen, fun seqControl hseq => ?_⟩
      change (lengthOfCode .compressed (seqControl &&& 0x000f)).map _ = _
      rw [hseq, hof]
      rfl
    case gcr =>
      obtain ⟨code, hlt, hlen, hof⟩ := lengthOfCode_lengthCode (.inr rfl) hmem
      refine ⟨code, hlt, hlen, fun seqControl hseq => ?_⟩
      change (lengthOfCode .gcr (seqControl &&& 0x000f)).map _ = _
      rw [hseq, hof]
      rfl
    case multiTid => cases hmem
    case multiSta => cases hmem
  obtain ⟨hlt, hfrag, hseq⟩ := startingSequenceControl_fields h.startingSeq_lt hcode rfl
  refine ⟨_, hlt, ?_, ?_⟩
  · rw [getStartingSequenceControl, h.bitmapLen_zero, hlength, h.info_eq, Option.map_some]
  · rw [CtrlBAckResponseHeader.setStartingSequenceControl, hset _ hfrag, Option.map_some, hseq]

/-- The bitmap completes the header. -/
theorem deserializeBitmap (rest : List UInt8) :
    (((hdr.setType hdr.baType).setStartingSequence 0 info.startingSeq).modifyInfo 0 fun info' =>
      { info' with address := info.address }).deserializeBitmap 0 (info.bitmap ++ rest) =
        some (hdr, rest) := by
  have hlen : bitmapLen (((hdr.setType hdr.baType).setStartingSequence 0
      info.startingSeq).modifyInfo 0 fun info' => { info' with address := info.address }) 0 =
        info.bitmap.length :=
    h.bitmapLen_zero
  rw [CtrlBAckResponseHeader.deserializeBitmap, hlen, readBytes_append, Option.map_some,
    Option.some_inj, Prod.mk.injEq]
  refine ⟨?_, rfl⟩
  have hbaInfo := h.baInfo_eq
  have hlens := h.bitmapLen_eq
  have haid := h.aidTidInfo_eq
  obtain ⟨policy, type, tid, infos⟩ := hdr
  obtain ⟨aid, seq, bitmap, address⟩ := info
  simp only at hbaInfo hlens haid
  subst hbaInfo haid
  simp [setType, setStartingSequence, modifyInfo, hlens]

end WellFormed

/-- Without a group address in the frame, the address stays the default one. -/
theorem WellFormed.deserializeBitmap_of_ne (h : hdr.WellFormed info)
    (hvariant : hdr.baType.variant ≠ .gcr) (rest : List UInt8) :
    ((hdr.setType hdr.baType).setStartingSequence 0 info.startingSeq).deserializeBitmap 0
      (info.bitmap ++ rest) = some (hdr, rest) := by
  rw [← h.deserializeBitmap rest, h.address_eq hvariant]
  congr 1
  simp [setType, setStartingSequence, modifyInfo, h.bitmapLen_eq]

/-- What follows the BA Control field is read back, by a header of the default length. -/
theorem WellFormed.deserializeBaInfo (h : hdr.WellFormed info) (rest : List UInt8) :
    ∃ baInfo, hdr.serializeBaInfo = some baInfo ∧
      hdr.getSerializedSize = some (2 + baInfo.length) ∧
      (hdr.setType hdr.baType.variant.type).deserializeBaInfo (baInfo ++ rest) =
        some (hdr, rest) := by
  obtain ⟨control, hcontrol, hget, hset⟩ := h.setStartingSequenceControl
  by_cases hgcr : hdr.baType.variant = .gcr
  · refine ⟨writeU16 control ++ (writeAddress info.address ++ info.bitmap), ?_, ?_, ?_⟩
    · simp [serializeBaInfo, hgcr, hget, h.info_eq]
    · simp [getSerializedSize, hgcr, h.bitmapLen_zero, length_writeU16, length_writeAddress]
      omega
    · have hbitmap := h.deserializeBitmap rest
      rw [hgcr] at hset ⊢
      rw [CtrlBAckResponseHeader.deserializeBaInfo, variant_setType, List.append_assoc,
        List.append_assoc]
      simp only [BlockAckVariant.type, readU16_writeU16 hcontrol, Option.bind_eq_bind,
        Option.bind_some, readAddress_writeAddress] at hset ⊢
      rw [hset]
      exact hbitmap
  · have hbitmap := h.deserializeBitmap_of_ne hgcr rest
    have hvariant := h.variant_of_ne hgcr
    refine ⟨writeU16 control ++ info.bitmap, ?_, ?_, ?_⟩
    · rcases hvariant with hv | hv | hv <;> simp [serializeBaInfo, hv, hget, h.info_eq]
    · rcases hvariant with hv | hv | hv <;>
        simp [getSerializedSize, hv, h.bitmapLen_zero, length_writeU16]
    · rw [CtrlBAckResponseHeader.deserializeBaInfo, variant_setType, List.append_assoc]
      rcases hvariant with hv | hv | hv <;>
      · rw [hv] at hset ⊢
        simp only [BlockAckVariant.type, readU16_writeU16 hcontrol, Option.bind_eq_bind,
          Option.bind_some] at hset ⊢
        rw [hset]
        exact hbitmap

/-- A header with a single bitmap is read back from its frame as it is. -/
theorem deserialize_serialize (h : hdr.WellFormed info) (hdr' : CtrlBAckResponseHeader)
    (rest : List UInt8) : ∃ bytes, hdr.serialize = some bytes ∧
      hdr.getSerializedSize = some bytes.length ∧
      hdr'.deserialize (bytes ++ rest) = some (hdr, bytes.length) := by
  obtain ⟨hba, hbaControl⟩ := h.setBaControl hdr'
  obtain ⟨baInfo, hserialize, hsize, hdeserialize⟩ := h.deserializeBaInfo rest
  refine ⟨writeU16 hdr.getBaControl ++ baInfo, ?_, ?_, ?_⟩
  · rw [serialize, hserialize, Option.map_some]
  · rw [hsize, List.length_append, length_writeU16]
  · have hread : ((writeU16 hdr.getBaControl ++ baInfo) ++ rest).length - rest.length =
        (writeU16 hdr.getBaControl ++ baInfo).length := by
      rw [List.length_append, Nat.add_sub_cancel]
    rw [← hread, deserialize, List.append_assoc, readU16_writeU16 hba]
    change ((hdr'.setBaControl _).bind _) = _
    rw [hbaControl]
    change ((CtrlBAckResponseHeader.deserializeBaInfo _ _).bind _) = _
    rw [hdeserialize]
    rfl

/-! ## The bitmap -/

/-- The header of a bitmap that starts at `ssn`. -/
def ofBitmap (variant : BlockAckVariant) (tid : Fin 16) (ssn : SeqNo) (address : Mac48Address)
    (bitmap : List UInt8) : CtrlBAckResponseHeader where
  baType := ⟨variant, [bitmap.length]⟩
  tidInfo := tid
  baInfo := [{ startingSeq := ssn, bitmap := bitmap, address := address }]

variable {tid : Fin 16} {ssn : SeqNo} {address : Mac48Address} {bitmap : List UInt8}

theorem wellFormed_ofBitmap (hlen : bitmap.length ∈ bitmapLens variant)
    (haddress : variant ≠ .gcr → address = .station 0) :
    (ofBitmap variant tid ssn address bitmap).WellFormed
      { startingSeq := ssn, bitmap := bitmap, address := address } where
  baInfo_eq := rfl
  bitmapLen_eq := rfl
  length_mem := hlen
  tidInfo_lt := tid.isLt
  startingSeq_lt := ssn.isLt
  aidTidInfo_eq := rfl
  address_eq := haddress

theorem indexInBitmap_ofBitmap :
    (ofBitmap variant tid ssn address bitmap).indexInBitmap 0 seq = getDistance seq ssn := by
  have hseq : seq.val < 4096 := seq.isLt
  have hssn : ssn.val < 4096 := ssn.isLt
  change (if ssn.val ≤ seq.val then seq.val - ssn.val else 4096 - ssn.val + seq.val) =
    (seq.val + 4096 - ssn.val) % 4096
  split <;> omega

theorem isInBitmap_ofBitmap (hvariant : variant ≠ .basic) :
    (ofBitmap variant tid ssn address bitmap).isInBitmap 0 seq =
      decide (getDistance seq ssn < bitmap.length * 8) := by
  have hssn : ssn.val < seqnoSpaceSize := ssn.isLt
  have hacked : (ofBitmap variant tid ssn address bitmap).nAckedMpdus 0 = bitmap.length * 8 :=
    if_neg hvariant
  have hdist : (seq.val : ℤ) - ssn.val + seqnoSpaceSize =
      ↑(seq.val + seqnoSpaceSize - ssn.val) := by
    omega
  rw [isInBitmap, hacked, decide_eq_decide]
  change ((seq.val : ℤ) - ssn.val + seqnoSpaceSize).tmod seqnoSpaceSize < _ ↔
    (seq.val + seqnoSpaceSize - ssn.val) % 4096 < _
  rw [hdist, Int.tmod_eq_emod_of_nonneg (Int.natCast_nonneg _), ← Int.natCast_emod]
  exact Nat.cast_lt

theorem setReceivedPacket_ofBitmap (hvariant : variant = .compressed ∨ variant = .gcr)
    (hlt : getDistance seq ssn < bitmap.length * 8) :
    (ofBitmap variant tid ssn address bitmap).setReceivedPacket 0 seq =
      some (ofBitmap variant tid ssn address (setBit bitmap (getDistance seq ssn))) := by
  have hbasic : variant ≠ .basic := by
    rcases hvariant with rfl | rfl <;> decide
  rw [setReceivedPacket, isInBitmap_ofBitmap hbasic, if_pos (decide_eq_true hlt),
    indexInBitmap_ofBitmap, ofBitmap, ofBitmap, length_setBit]
  rcases hvariant with rfl | rfl <;> rfl

theorem isPacketReceived_ofBitmap (hvariant : variant = .compressed ∨ variant = .gcr) :
    (ofBitmap variant tid ssn address bitmap).isPacketReceived 0 seq =
      some (decide (getDistance seq ssn < bitmap.length * 8) &&
        getBit bitmap (getDistance seq ssn)) := by
  have hbasic : variant ≠ .basic := by
    rcases hvariant with rfl | rfl <;> decide
  have hsta : ¬ ((ofBitmap variant tid ssn address bitmap).baType.variant = .multiSta ∧
      (ofBitmap variant tid ssn address bitmap).getAckType 0 = true ∧
        (ofBitmap variant tid ssn address bitmap).getTidInfo 0 = 14) := by
    rintro ⟨hmulti, -⟩
    rcases hvariant with rfl | rfl <;> cases hmulti
  rw [isPacketReceived, if_neg hsta, isInBitmap_ofBitmap hbasic, indexInBitmap_ofBitmap]
  by_cases hlt : getDistance seq ssn < bitmap.length * 8
  · rw [if_pos (decide_eq_true hlt), decide_eq_true hlt, Bool.true_and]
    rcases hvariant with rfl | rfl <;> rfl
  · rw [decide_eq_false hlt, if_neg Bool.false_ne_true, Bool.false_and]

end CtrlBAckResponseHeader

namespace RecipientAgreement

open Bytes CtrlBAckResponseHeader

variable (a : RecipientAgreement) {variant : BlockAckVariant} (tid : Fin 16) (ssn : SeqNo)
  (address : Mac48Address)

/-- The loop over the scoreboard sets the bits of the numbers that are marked. -/
theorem setReceivedPackets_ofBitmap (hvariant : variant = .compressed ∨ variant = .gcr) :
    ∀ {is : List ℕ} {bitmap : List UInt8}, bitmap.length ≤ 128 →
      (∀ i ∈ is, i < bitmap.length * 8) →
      ∃ bitmap' : List UInt8, bitmap'.length = bitmap.length ∧
        a.setReceivedPackets ssn 0 is (ofBitmap variant tid ssn address bitmap) =
          some (ofBitmap variant tid ssn address bitmap') ∧
        ∀ j, getBit bitmap' j = (getBit bitmap j || (decide (j ∈ is) && a.scoreboard.getAt j))
  | [], bitmap, _, _ => ⟨bitmap, rfl, rfl, by simp⟩
  | i :: is, bitmap, hlen, his => by
    obtain ⟨hi, his⟩ := List.forall_mem_cons.1 his
    by_cases hmark : a.scoreboard.getAt i = true
    · have hdist : getDistance (.ofNat (ssn + i)) ssn = i := by
        have hssn : ssn.val < 4096 := ssn.isLt
        change ((ssn.val + i) % 4096 + 4096 - ssn.val) % 4096 = i
        omega
      have hset : (ofBitmap variant tid ssn address bitmap).setReceivedPacket 0
          (SeqNo.ofNat (ssn + i)) = _ :=
        setReceivedPacket_ofBitmap hvariant (hdist.trans_lt hi)
      obtain ⟨bitmap', hlen', hrest, hget⟩ :=
        setReceivedPackets_ofBitmap hvariant ((length_setBit bitmap i).trans_le hlen)
          (by rwa [length_setBit])
      refine ⟨bitmap', hlen'.trans (length_setBit bitmap i), ?_, fun j => ?_⟩
      · rw [setReceivedPackets, if_pos hmark]
        change ((ofBitmap variant tid ssn address bitmap).setReceivedPacket 0
          (SeqNo.ofNat (ssn + i))).bind _ = _
        rw [hset, Option.bind_some, hdist, hrest]
      · rw [hget, getBit_setBit hi]
        by_cases hj : j = i
        · simp [hj, hmark]
        · simp [hj]
    · obtain ⟨bitmap', hlen', hrest, hget⟩ := setReceivedPackets_ofBitmap hvariant hlen his
      refine ⟨bitmap', hlen', ?_, fun j => ?_⟩
      · rw [setReceivedPackets, if_neg hmark, hrest]
      · rw [hget]
        by_cases hj : j = i
        · simp [hj, hmark]
        · simp [hj]

/-- The bitmap is long enough for the buffer. -/
theorem getBlockAckType_eq : ∃ len ∈ [8, 32, 64, 128],
    a.getBlockAckType =
      some ⟨if a.gcrGroupAddress.isSome then .gcr else .compressed, [len]⟩ ∧
    a.bufferSize ≤ len * 8 := by
  have hle := a.bufferSize_le
  rw [getBlockAckType, if_pos a.htSupported_eq, lengths]
  by_cases h64 : a.bufferSize ≤ 64
  · exact ⟨8, by decide, by simp [List.find?, h64], h64⟩
  by_cases h256 : a.bufferSize ≤ 256
  · exact ⟨32, by decide, by simp [List.find?, h64, h256], h256⟩
  by_cases h512 : a.bufferSize ≤ 512
  · exact ⟨64, by decide, by simp [List.find?, h64, h256, h512], h512⟩
  · exact ⟨128, by decide, by simp [List.find?, h64, h256, h512, hle], hle⟩

/-- The filled bitmap is the scoreboard. -/
theorem fillBlockAckBitmap_ofBitmap {bitmap : List UInt8}
    (hvariant : variant = .compressed ∨ variant = .gcr) (hlen : bitmap.length ≤ 128)
    (hle : a.bufferSize ≤ bitmap.length * 8) :
    ∃ bitmap' : List UInt8, bitmap'.length = bitmap.length ∧
      a.fillBlockAckBitmap (ofBitmap variant tid ssn address bitmap) 0 =
        some (ofBitmap variant tid a.scoreboard.winStart address bitmap') ∧
      ∀ j, getBit bitmap' j = (decide (j < a.bufferSize) && a.scoreboard.getAt j) := by
  have hblank : (List.replicate bitmap.length (0 : UInt8)).length = bitmap.length :=
    List.length_replicate
  have hwindow : ∀ i ∈ List.range a.scoreboard.getWinSize,
      i < (List.replicate bitmap.length (0 : UInt8)).length * 8 := by
    intro i hi
    rw [List.mem_range, a.winSize_eq] at hi
    rw [hblank]
    exact hi.trans_le hle
  obtain ⟨bitmap', hlen', hset, hget⟩ :=
    a.setReceivedPackets_ofBitmap tid a.scoreboard.winStart address hvariant
      (hblank.trans_le hlen) hwindow
  refine ⟨bitmap', hlen'.trans hblank, ?_, fun j => ?_⟩
  · rw [← hset, fillBlockAckBitmap, ofBitmap, ofBitmap, hblank]
    rcases hvariant with rfl | rfl <;> rfl
  · rw [hget, getBit_replicate, Bool.false_or, a.winSize_eq, decide_eq_decide.2 List.mem_range]

/-- `SendBlockAck` fills a header whose bits are those of the scoreboard. -/
theorem sendBlockAck_eq {gcrGroupAddr : Option Mac48Address}
    (hgcr : gcrGroupAddr.isSome → a.gcrGroupAddress.isSome) :
    ∃ variant address bitmap, (variant = .compressed ∨ variant = .gcr) ∧
      (variant ≠ .gcr → address = .station 0) ∧ bitmap.length ∈ bitmapLens variant ∧
      a.sendBlockAck gcrGroupAddr =
        some (ofBitmap variant a.tid a.scoreboard.winStart address bitmap) ∧
      a.bufferSize ≤ bitmap.length * 8 ∧
      ∀ j, getBit bitmap j = (decide (j < a.bufferSize) && a.scoreboard.getAt j) := by
  obtain ⟨len, hlen, htype, hle⟩ := a.getBlockAckType_eq
  have hblank : (List.replicate len (0 : UInt8)).length = len := List.length_replicate
  have hlen128 : len ≤ 128 := by
    simp only [List.mem_cons, List.not_mem_nil, or_false] at hlen
    omega
  by_cases hgroup : a.gcrGroupAddress.isSome = true
  · obtain ⟨bitmap, hbitmap, hfill, hget⟩ := a.fillBlockAckBitmap_ofBitmap a.tid 0
      (gcrGroupAddr.getD (.station 0)) (.inr rfl) (hblank.trans_le hlen128) (by rwa [hblank])
    refine ⟨.gcr, gcrGroupAddr.getD (.station 0), bitmap, .inr rfl, fun h => absurd rfl h, ?_, ?_,
      ?_, hget⟩
    · rwa [hbitmap, hblank]
    · rw [← hfill, sendBlockAck, htype, if_pos hgroup, ofBitmap, hblank]
      cases gcrGroupAddr <;> rfl
    · rwa [hbitmap, hblank]
  · have hnone : gcrGroupAddr = none := by
      rw [← Option.not_isSome_iff_eq_none]
      exact fun h => hgroup (hgcr h)
    obtain ⟨bitmap, hbitmap, hfill, hget⟩ := a.fillBlockAckBitmap_ofBitmap a.tid 0 (.station 0)
      (.inl rfl) (hblank.trans_le hlen128) (by rwa [hblank])
    refine ⟨.compressed, .station 0, bitmap, .inl rfl, fun _ => rfl, ?_, ?_, ?_, hget⟩
    · rwa [hbitmap, hblank]
    · rw [← hfill, sendBlockAck, htype, if_neg hgroup, ofBitmap, hblank, hnone]
      rfl
    · rwa [hbitmap, hblank]

/-- What a recipient acknowledges is what the originator reads : its BlockAck frame is read to
its end, and says of every sequence number whether it is marked in the scoreboard. -/
theorem sendBlockAck_transport {gcrGroupAddr : Option Mac48Address}
    (hgcr : gcrGroupAddr.isSome → a.gcrGroupAddress.isSome) (rest : List UInt8) :
    ∃ blockAck bytes received, a.sendBlockAck gcrGroupAddr = some blockAck ∧
      blockAck.serialize = some bytes ∧ blockAck.getSerializedSize = some bytes.length ∧
      init.deserialize (bytes ++ rest) = some (received, bytes.length) ∧
      received.getTidInfo 0 = a.tid ∧
      received.getStartingSequence 0 = a.scoreboard.winStart ∧
      ∀ seq : SeqNo, received.isPacketReceived 0 seq =
        some (decide (getDistance seq a.scoreboard.winStart < a.scoreboard.getWinSize) &&
          a.scoreboard.getAt (getDistance seq a.scoreboard.winStart)) := by
  obtain ⟨variant, address, bitmap, hvariant, haddress, hlen, hsend, hle, hget⟩ :=
    a.sendBlockAck_eq hgcr
  obtain ⟨bytes, hserialize, hsize, hdeserialize⟩ :=
    deserialize_serialize (wellFormed_ofBitmap hlen haddress) init rest
  refine ⟨_, bytes, _, hsend, hserialize, hsize, hdeserialize, ?_, rfl, fun seq => ?_⟩
  · have htid := a.tid.isLt
    have hsta : variant ≠ .multiSta := by
      rcases hvariant with rfl | rfl <;> decide
    rw [getTidInfo]
    change (if variant = .multiSta then _ else a.tid.val % 2 ^ 8) = _
    rw [if_neg hsta]
    omega
  · rw [isPacketReceived_ofBitmap hvariant, hget, a.winSize_eq, ← Bool.and_assoc, ← Bool.decide_and]
    congr 2
    rw [decide_eq_decide]
    omega

/-- A window of two numbers, `4095` and `0`, the second of which is marked. -/
def ofTwo : RecipientAgreement where
  tid := 3
  bufferSize := 2
  gcrGroupAddress := none
  htSupported := true
  scoreboard := (BlockAckWindow.init 4095 2).setAt 1
  htSupported_eq := rfl
  winSize_eq := rfl
  bufferSize_pos := by decide
  bufferSize_le := by decide

theorem sendBlockAck_transport_two : ∃ blockAck bytes received,
    ofTwo.sendBlockAck none = some blockAck ∧ blockAck.serialize = some bytes ∧
      init.deserialize bytes = some (received, bytes.length) ∧
      received.isPacketReceived 0 (4095 : SeqNo) = some false ∧
      received.isPacketReceived 0 (0 : SeqNo) = some true := by
  obtain ⟨blockAck, bytes, received, hsend, hserialize, -, hdeserialize, -, -, hreceived⟩ :=
    ofTwo.sendBlockAck_transport id []
  rw [List.append_nil] at hdeserialize
  exact ⟨blockAck, bytes, received, hsend, hserialize, hdeserialize,
    (hreceived 4095).trans (by decide), (hreceived 0).trans (by decide)⟩

end RecipientAgreement

end Ns3Pedca
