import Ns3Pedca.Wifi.CtrlTriggerUserInfo

/-!
# The Trigger frame

`CtrlTriggerHeader` is a word of 64 bits, the Special User Info field of the EHT variant, the User
Info fields, and padding of bytes `0xff`. The reader takes the variant from two bits of the word,
and looks at two bytes before each User Info field to find out whether the padding begins.

What it does not do is to go to the end of the padding that it has found. It sets the size of the
padding to what remains, and goes on with the next two bytes, which are padding again, so that the
size is set anew (`deserializeFields_padding`). Only paddings of 0 and 2 bytes survive, and
besides them the ack policy of a BlockAckReq is lost (`triggerRoundTrips_iff`).
-/

namespace Ns3Pedca

open Bytes

/-- `CtrlTriggerHeader`. -/
structure CtrlTriggerHeader where
  variant : TriggerFrameVariant := .he
  triggerType : TriggerFrameType := .basicTrigger
  ulLength : Fin 4096 := 0
  moreTF : Bool := false
  csRequired : Bool := false
  ulBandwidth : Fin 4 := 0
  giAndLtfType : Fin 4 := 0
  apTxPower : Fin 64 := 0
  ulSpatialReuse : Fin 65536 := 0
  padding : ℕ := 0
  specialUserInfoField : Option CtrlTriggerSpecialUserInfoField := none
  userInfoFields : List CtrlTriggerUserInfoField := []
  deriving DecidableEq

namespace TriggerFrameType

/-- The value of a type. -/
def code : TriggerFrameType → Fin 16
  | .basicTrigger => 0
  | .bfrpTrigger => 1
  | .muBarTrigger => 2
  | .muRtsTrigger => 3
  | .bsrpTrigger => 4
  | .gcrMuBarTrigger => 5
  | .bqrpTrigger => 6
  | .nfrpTrigger => 7
  | .reserved code => Fin.natAdd 8 code

/-- The type of a value. -/
def ofCode (code : ℕ) : TriggerFrameType :=
  match code with
  | 0 => .basicTrigger
  | 1 => .bfrpTrigger
  | 2 => .muBarTrigger
  | 3 => .muRtsTrigger
  | 4 => .bsrpTrigger
  | 5 => .gcrMuBarTrigger
  | 6 => .bqrpTrigger
  | 7 => .nfrpTrigger
  | code => .reserved (Fin.ofNat 8 code)

theorem ofCode_code (triggerType : TriggerFrameType) :
    ofCode triggerType.code.val = triggerType := by
  cases triggerType with
  | reserved code => revert code; decide
  | _ => rfl

end TriggerFrameType

namespace CtrlTriggerHeader

variable (t : CtrlTriggerHeader)

/-- `GetSerializedSize`. -/
def getSerializedSize : ℕ :=
  8 + (if t.triggerType = .gcrMuBarTrigger then 4 else 0) +
    (t.specialUserInfoField.map (·.getSerializedSize)).getD 0 +
    (t.userInfoFields.map (·.getSerializedSize)).sum + t.padding

/-- The common info, of 64 bits. The nine bits of the HE variant tell it from the EHT one. -/
def commonInfo : ℕ :=
  t.triggerType.code.val ||| t.ulLength.val <<< 4 ||| (if t.moreTF then 1 <<< 16 else 0) |||
    (if t.csRequired then 1 <<< 17 else 0) ||| t.ulBandwidth.val <<< 18 |||
    t.giAndLtfType.val <<< 20 ||| t.apTxPower.val <<< 28 ||| t.ulSpatialReuse.val <<< 37 |||
    (if t.variant = .he then 0x01ff else 0) <<< 54

/-- The User Info fields, one after another. -/
def serializeFields : List CtrlTriggerUserInfoField → Option (List UInt8)
  | [] => some []
  | ui :: fields => do
    let bytes ← ui.serialize
    let rest ← serializeFields fields
    return bytes ++ rest

/-- `Serialize`. -/
def serialize : Option (List UInt8) :=
  if t.triggerType.unsupported then none
  else do
    let special ← (t.specialUserInfoField.map (·.serialize)).getD (some [])
    let fields ← serializeFields t.userInfoFields
    return writeUInt 8 t.commonInfo ++ (special ++ (fields ++ List.replicate t.padding 0xff))

/-- What the common info sets in a new header. -/
def ofCommonInfo (commonInfo : ℕ) : CtrlTriggerHeader where
  triggerType := .ofCode (commonInfo &&& 0x0f)
  ulLength := Fin.ofNat 4096 (commonInfo >>> 4 &&& 0x0fff)
  moreTF := commonInfo >>> 16 &&& 0x01 ≠ 0
  csRequired := commonInfo >>> 17 &&& 0x01 ≠ 0
  ulBandwidth := Fin.ofNat 4 (commonInfo >>> 18 &&& 0x03)
  giAndLtfType := Fin.ofNat 4 (commonInfo >>> 20 &&& 0x03)
  apTxPower := Fin.ofNat 64 (commonInfo >>> 28 &&& 0x3f)
  ulSpatialReuse := Fin.ofNat 65536 (commonInfo >>> 37 &&& 0xffff)
  variant := if commonInfo >>> 54 &&& 0x03 = 3 then .he else .eht

/-- The Special User Info field, if the EHT variant has it : two bytes are read in advance. -/
def deserializeSpecial (i : List UInt8) : Option (CtrlTriggerHeader × List UInt8) :=
  if t.variant = .eht then do
    let (userInfo, _) ← readU16 i
    if userInfo &&& 0x0fff = CtrlTriggerSpecialUserInfoField.aidSpecialUser then do
      let (special, i) ← CtrlTriggerSpecialUserInfoField.deserialize
        { triggerType := t.triggerType } i
      return ({ t with specialUserInfoField := some special }, i)
    else return (t, i)
  else return (t, i)

/-- The loop of `Deserialize`, of at most `fuel` rounds, and the bytes after it. -/
def deserializeFields : ℕ → CtrlTriggerHeader → List UInt8 →
    Option (CtrlTriggerHeader × List UInt8)
  | 0, _, _ => none
  | fuel + 1, t, i =>
    if i.length < 2 then some (t, i)
    else do
      let (pair, after) ← readU16 i
      if pair = 0xffff then deserializeFields fuel { t with padding := after.length + 2 } after
      else do
        let (ui, i) ←
          (CtrlTriggerUserInfoField.new t.triggerType t.variant).deserialize i
        deserializeFields fuel { t with userInfoFields := t.userInfoFields ++ [ui] } i

/-- `Deserialize`, into a new header : the header and the number of bytes read. The loop takes two
bytes in each round. -/
def deserialize (start : List UInt8) : Option (CtrlTriggerHeader × ℕ) := do
  let (commonInfo, i) ← readUInt 8 start
  let t := ofCommonInfo commonInfo
  if t.triggerType.unsupported then none
  else do
    let (t, i) ← t.deserializeSpecial i
    let (t, i) ← deserializeFields (start.length + 1) t i
    return (t, start.length - i.length)

variable {t}

/-! ## The common info -/

/-- The nine bits of the HE variant. -/
def heBits (variant : TriggerFrameVariant) : ℕ :=
  if variant = .he then 0x01ff else 0

theorem heBits_spec (variant : TriggerFrameVariant) : heBits variant < 512 ∧
    (if heBits variant % 4 = 3 then TriggerFrameVariant.he else .eht) = variant := by
  cases variant <;> decide

theorem commonInfo_eq : t.commonInfo = t.triggerType.code.val + 2 ^ 4 * t.ulLength.val +
    2 ^ 16 * t.moreTF.toNat + 2 ^ 17 * t.csRequired.toNat + 2 ^ 18 * t.ulBandwidth.val +
    2 ^ 20 * t.giAndLtfType.val + 2 ^ 28 * t.apTxPower.val + 2 ^ 37 * t.ulSpatialReuse.val +
    2 ^ 54 * heBits t.variant := by
  have hmore := Bool.toNat_lt t.moreTF
  have hcs := Bool.toNat_lt t.csRequired
  have h4 : t.triggerType.code.val < 2 ^ 4 := t.triggerType.code.isLt
  have h16 : t.triggerType.code.val + 2 ^ 4 * t.ulLength.val < 2 ^ 16 := by omega
  have h17 : t.triggerType.code.val + 2 ^ 4 * t.ulLength.val + 2 ^ 16 * t.moreTF.toNat <
      2 ^ 17 := by omega
  have h18 : t.triggerType.code.val + 2 ^ 4 * t.ulLength.val + 2 ^ 16 * t.moreTF.toNat +
      2 ^ 17 * t.csRequired.toNat < 2 ^ 18 := by omega
  have h20 : t.triggerType.code.val + 2 ^ 4 * t.ulLength.val + 2 ^ 16 * t.moreTF.toNat +
      2 ^ 17 * t.csRequired.toNat + 2 ^ 18 * t.ulBandwidth.val < 2 ^ 20 := by omega
  have h28 : t.triggerType.code.val + 2 ^ 4 * t.ulLength.val + 2 ^ 16 * t.moreTF.toNat +
      2 ^ 17 * t.csRequired.toNat + 2 ^ 18 * t.ulBandwidth.val +
      2 ^ 20 * t.giAndLtfType.val < 2 ^ 28 := by omega
  have h37 : t.triggerType.code.val + 2 ^ 4 * t.ulLength.val + 2 ^ 16 * t.moreTF.toNat +
      2 ^ 17 * t.csRequired.toNat + 2 ^ 18 * t.ulBandwidth.val +
      2 ^ 20 * t.giAndLtfType.val + 2 ^ 28 * t.apTxPower.val < 2 ^ 37 := by omega
  have h54 : t.triggerType.code.val + 2 ^ 4 * t.ulLength.val + 2 ^ 16 * t.moreTF.toNat +
      2 ^ 17 * t.csRequired.toNat + 2 ^ 18 * t.ulBandwidth.val +
      2 ^ 20 * t.giAndLtfType.val + 2 ^ 28 * t.apTxPower.val +
      2 ^ 37 * t.ulSpatialReuse.val < 2 ^ 54 := by omega
  rw [commonInfo, ite_shiftLeft, ite_shiftLeft, or_shiftLeft h4, or_shiftLeft h16,
    or_shiftLeft h17, or_shiftLeft h18, or_shiftLeft h20, or_shiftLeft h28, or_shiftLeft h37,
    or_shiftLeft h54, heBits]

theorem commonInfo_lt : t.commonInfo < 256 ^ 8 := by
  have hmore := Bool.toNat_lt t.moreTF
  have hcs := Bool.toNat_lt t.csRequired
  have hhe := (heBits_spec t.variant).1
  rw [commonInfo_eq]
  omega

/-- The common info is read back. -/
theorem ofCommonInfo_commonInfo : ofCommonInfo t.commonInfo =
    { t with padding := 0, specialUserInfoField := none, userInfoFields := [] } := by
  have hmore := Bool.toNat_lt t.moreTF
  have hcs := Bool.toNat_lt t.csRequired
  obtain ⟨hhe, hvariant⟩ := heBits_spec t.variant
  have htype : t.commonInfo &&& 0x0f = t.triggerType.code.val := by
    rw [and_mask (show 0x0f + 1 = 2 ^ 4 from rfl), commonInfo_eq]
    omega
  have hlength : t.commonInfo >>> 4 &&& 0x0fff = t.ulLength.val := by
    rw [shiftRight_and (show 0x0fff + 1 = 2 ^ 12 from rfl), commonInfo_eq]
    omega
  have hmore' : t.commonInfo >>> 16 &&& 0x01 = t.moreTF.toNat := by
    rw [shiftRight_and (show 0x01 + 1 = 2 ^ 1 from rfl), commonInfo_eq]
    omega
  have hcs' : t.commonInfo >>> 17 &&& 0x01 = t.csRequired.toNat := by
    rw [shiftRight_and (show 0x01 + 1 = 2 ^ 1 from rfl), commonInfo_eq]
    omega
  have hbw : t.commonInfo >>> 18 &&& 0x03 = t.ulBandwidth.val := by
    rw [shiftRight_and (show 0x03 + 1 = 2 ^ 2 from rfl), commonInfo_eq]
    omega
  have hgi : t.commonInfo >>> 20 &&& 0x03 = t.giAndLtfType.val := by
    rw [shiftRight_and (show 0x03 + 1 = 2 ^ 2 from rfl), commonInfo_eq]
    omega
  have hpower : t.commonInfo >>> 28 &&& 0x3f = t.apTxPower.val := by
    rw [shiftRight_and (show 0x3f + 1 = 2 ^ 6 from rfl), commonInfo_eq]
    omega
  have hreuse : t.commonInfo >>> 37 &&& 0xffff = t.ulSpatialReuse.val := by
    rw [shiftRight_and (show 0xffff + 1 = 2 ^ 16 from rfl), commonInfo_eq]
    omega
  have hhe' : t.commonInfo >>> 54 &&& 0x03 = heBits t.variant % 4 := by
    rw [shiftRight_and (show 0x03 + 1 = 2 ^ 2 from rfl), commonInfo_eq]
    omega
  rw [ofCommonInfo, htype, hlength, hmore', hcs', hbw, hgi, hpower, hreuse, hhe', hvariant]
  simp only [TriggerFrameType.ofCode_code, CtrlTriggerUserInfoField.toNat_ne_zero,
    Fin.ofNat_val_eq_self]

/-! ## The loop -/

/-- All rounds of the padding read its size, and the last one leaves what is odd. -/
theorem deserializeFields_padding (fuel padding : ℕ) (hfuel : padding < fuel) :
    deserializeFields fuel t (List.replicate padding 0xff) =
      some ({ t with padding := if padding < 2 then t.padding else 2 + padding % 2 },
        List.replicate (padding % 2) 0xff) := by
  induction padding using Nat.strongRecOn generalizing fuel t with
  | ind padding ih =>
    obtain ⟨fuel, rfl⟩ := Nat.exists_eq_succ_of_ne_zero (Nat.ne_zero_of_lt hfuel)
    rw [deserializeFields, List.length_replicate]
    by_cases hshort : padding < 2
    · rw [if_pos hshort, if_pos hshort, Nat.mod_eq_of_lt hshort]
    · obtain ⟨less, rfl⟩ := Nat.exists_eq_add_of_le' (not_lt.mp hshort)
      rw [if_neg hshort, if_neg hshort]
      have hround := @ih less (by omega) { t with padding := less + 2 } fuel (by omega)
      have hpair : readU16 (List.replicate (less + 2) 0xff) =
          some (0xffff, List.replicate less 0xff) := rfl
      rw [hpair]
      dsimp only [Option.bind_eq_bind, Option.bind_some]
      rw [if_pos rfl, List.length_replicate, hround, Nat.add_mod_right]
      refine congrArg some (Prod.ext ?_ rfl)
      by_cases hless : less < 2
      · simp only [if_pos hless, Nat.mod_eq_of_lt hless, Nat.add_comm]
      · simp only [if_neg hless]

/-- The User Info fields are of the type and the variant of the frame, and none is like the
Padding field. -/
def RegularFields (t : CtrlTriggerHeader) (fields : List CtrlTriggerUserInfoField) : Prop :=
  ∀ ui ∈ fields, ui.triggerType = t.triggerType ∧ ui.variant = t.variant ∧ ui.Regular

/-- The User Info fields are read back, and what follows them is left to the next rounds. -/
theorem deserializeFields_serializeFields {fields : List CtrlTriggerUserInfoField}
    (hfields : t.RegularFields fields) :
    ∃ bytes, serializeFields fields = some bytes ∧
      bytes.length = (fields.map (·.getSerializedSize)).sum ∧ fields.length ≤ bytes.length ∧
      ∀ fuel rest, deserializeFields (fuel + fields.length) t (bytes ++ rest) =
        deserializeFields fuel
          { t with userInfoFields := t.userInfoFields ++ fields.map (·.received) } rest := by
  induction fields generalizing t with
  | nil =>
    refine ⟨[], rfl, rfl, le_refl 0, ?_⟩
    intro fuel rest
    rw [List.map_nil, List.append_nil]
    rfl
  | cons ui fields ih =>
    obtain ⟨htype, hvariant, hregular⟩ := hfields ui (List.mem_cons_self ..)
    obtain ⟨field, hfield, hsize, hread⟩ := hregular.deserialize_serialize
    obtain ⟨bytes, hbytes, hsizes, hcount, hrest⟩ :=
      @ih { t with userInfoFields := t.userInfoFields ++ [ui.received] }
        (fun other hother => hfields other (List.mem_cons_of_mem ui hother))
    have hfive : 5 ≤ ui.getSerializedSize := five_le_userInfoSize ..
    refine ⟨field ++ bytes, ?_, ?_, ?_, ?_⟩
    · rw [serializeFields, hfield, hbytes]
      rfl
    · rw [List.length_append, hsize, hsizes, List.map_cons, List.sum_cons]
    · rw [List.length_append, List.length_cons]
      omega
    · intro fuel rest
      obtain ⟨⟨pair, after, hpair, hne⟩, hui⟩ := hread (bytes ++ rest)
      have hlong : ¬(field ++ (bytes ++ rest)).length < 2 := by
        rw [List.length_append, hsize]
        omega
      rw [List.append_assoc, List.length_cons, ← Nat.add_assoc, deserializeFields, if_neg hlong,
        hpair]
      dsimp only [Option.bind_eq_bind, Option.bind_some]
      rw [if_neg hne, ← htype, ← hvariant, hui]
      dsimp only [Option.bind_eq_bind, Option.bind_some]
      rw [htype, hvariant, hrest, List.map_cons, List.append_assoc]
      rfl

/-! ## Reading a frame back -/

/-- A frame of a supported type, with the Special User Info field exactly in the EHT variant, and
fields of its type and variant. -/
structure WellFormed (t : CtrlTriggerHeader) : Prop where
  supported : t.triggerType.unsupported = false
  special_iff : t.specialUserInfoField.isSome = true ↔ t.variant = .eht
  special : ∀ special ∈ t.specialUserInfoField, special.triggerType = t.triggerType ∧
    (t.triggerType = .muBarTrigger → special.muBarTriggerDependentUserInfo.Plain)
  fields : t.RegularFields t.userInfoFields

/-- The frame with the members that are sent. -/
def present (t : CtrlTriggerHeader) : CtrlTriggerHeader :=
  { t with
    specialUserInfoField := t.specialUserInfoField.map (·.present)
    userInfoFields := t.userInfoFields.map (·.present) }

/-- What is read back. -/
def received (t : CtrlTriggerHeader) : CtrlTriggerHeader :=
  { t with
    padding := if t.padding < 2 then 0 else 2 + t.padding % 2
    specialUserInfoField := t.specialUserInfoField.map (·.received)
    userInfoFields := t.userInfoFields.map (·.received) }

/-- The Special User Info field is read back, and there is none to find in the HE variant. -/
theorem WellFormed.deserializeSpecial_serialize (ht : t.WellFormed) :
    ∃ bytes, (t.specialUserInfoField.map (·.serialize)).getD (some []) = some bytes ∧
      bytes.length = (t.specialUserInfoField.map (·.getSerializedSize)).getD 0 ∧
      ∀ rest, deserializeSpecial
          { t with padding := 0, specialUserInfoField := none, userInfoFields := [] }
          (bytes ++ rest) =
        some ({ t with
          padding := 0
          specialUserInfoField := t.specialUserInfoField.map (·.received)
          userInfoFields := [] }, rest) := by
  cases hspecial : t.specialUserInfoField with
  | none =>
    have hhe : t.variant ≠ .eht := by
      intro heht
      have hsome := ht.special_iff.mpr heht
      rw [hspecial] at hsome
      cases hsome
    refine ⟨[], rfl, rfl, ?_⟩
    intro rest
    rw [deserializeSpecial, if_neg hhe]
    rfl
  | some special =>
    have heht : t.variant = .eht := ht.special_iff.mp (by rw [hspecial]; rfl)
    obtain ⟨htype, hplain⟩ := ht.special special hspecial
    obtain ⟨bytes, hbytes, hsize, hread⟩ :=
      CtrlTriggerSpecialUserInfoField.deserialize_serialize (htype ▸ ht.supported)
        (htype ▸ hplain)
    refine ⟨bytes, hbytes, hsize, ?_⟩
    intro rest
    obtain ⟨⟨pair, after, hpair, haid⟩, hfield⟩ := hread rest
    rw [htype] at hfield
    rw [deserializeSpecial, if_pos heht, hpair]
    dsimp only [Option.bind_eq_bind, Option.bind_some]
    rw [if_pos haid, hfield]
    rfl

/-- A frame has the size announced, and is read back but for the size of the padding and the ack
policies, with an odd byte of padding left over. -/
theorem WellFormed.deserialize_serialize (ht : t.WellFormed) :
    ∃ bytes, t.serialize = some bytes ∧ bytes.length = t.getSerializedSize ∧
      deserialize bytes = some (t.received, bytes.length - t.padding % 2) := by
  obtain ⟨special, hspecial, hspecialSize, hreadSpecial⟩ := ht.deserializeSpecial_serialize
  obtain ⟨fields, hfields, hfieldsSize, hcount, hreadFields⟩ :=
    @deserializeFields_serializeFields
      { t with
        padding := 0
        specialUserInfoField := t.specialUserInfoField.map (·.received)
        userInfoFields := [] } t.userInfoFields ht.fields
  have hsupported : ¬t.triggerType.unsupported = true := by
    rw [ht.supported]
    exact Bool.false_ne_true
  refine ⟨writeUInt 8 t.commonInfo ++ (special ++ (fields ++ List.replicate t.padding 0xff)),
    ?_, ?_, ?_⟩
  · rw [serialize, if_neg hsupported, hspecial, hfields]
    rfl
  · have hgcr : t.triggerType ≠ .gcrMuBarTrigger := by
      intro hgcr
      rw [hgcr] at hsupported
      exact hsupported rfl
    rw [getSerializedSize, if_neg hgcr, List.length_append, List.length_append,
      List.length_append, length_writeUInt, List.length_replicate, hspecialSize, hfieldsSize]
    omega
  · have hlength : (writeUInt 8 t.commonInfo ++
        (special ++ (fields ++ List.replicate t.padding 0xff))).length =
          8 + special.length + fields.length + t.padding := by
      rw [List.length_append, List.length_append, List.length_append, length_writeUInt,
        List.length_replicate]
      omega
    obtain ⟨fuel, hfuel⟩ := Nat.exists_eq_add_of_le'
      (show t.userInfoFields.length ≤ 8 + special.length + fields.length + t.padding + 1 by omega)
    rw [deserialize, hlength, hfuel, readUInt_writeUInt commonInfo_lt]
    dsimp only [Option.bind_eq_bind, Option.bind_some]
    rw [ofCommonInfo_commonInfo, if_neg hsupported, hreadSpecial]
    dsimp only [Option.bind_eq_bind, Option.bind_some]
    rw [hreadFields, deserializeFields_padding fuel t.padding (by omega)]
    dsimp only [Option.bind_eq_bind, Option.bind_some]
    rw [List.length_replicate]
    rfl

/-- `Serialize` writes as many bytes as announced, and `Deserialize` takes all of them and finds
the common info, the User Info fields and the size of the padding. -/
def TriggerRoundTrips (t : CtrlTriggerHeader) : Prop :=
  ∃ bytes t', t.serialize = some bytes ∧ bytes.length = t.getSerializedSize ∧
    deserialize bytes = some (t', bytes.length) ∧ t'.present = t.present

/-- A field of the frame asks for an HT immediate Ack. -/
def AsksAck (t : CtrlTriggerHeader) : Prop :=
  (∃ special ∈ t.specialUserInfoField, special.AsksAck) ∨ ∃ ui ∈ t.userInfoFields, ui.AsksAck

theorem received_present : t.received.present = t.received := by
  have hspecial : (t.specialUserInfoField.map (·.received)).map (·.present) =
      t.specialUserInfoField.map (·.received) := by
    rw [Option.map_map]
    exact Option.map_congr fun special _ => CtrlTriggerSpecialUserInfoField.received_present
  have hfields : (t.userInfoFields.map (·.received)).map (·.present) =
      t.userInfoFields.map (·.received) := by
    rw [List.map_map]
    exact List.map_congr_left fun ui _ => CtrlTriggerUserInfoField.received_present
  rw [received, present, hspecial, hfields]

/-- What is read back is the frame sent, if neither the padding nor an ack policy is lost. -/
theorem received_eq_present_iff : t.received = t.present ↔
    (t.padding = 0 ∨ t.padding = 2 ∨ t.padding = 3) ∧ ¬t.AsksAck := by
  have hspecial : t.specialUserInfoField.map (·.received) =
      t.specialUserInfoField.map (·.present) ↔
        ¬∃ special ∈ t.specialUserInfoField, special.AsksAck := by
    cases t.specialUserInfoField with
    | none => simp
    | some special => simp [CtrlTriggerSpecialUserInfoField.received_eq_present_iff]
  have hfields : t.userInfoFields.map (·.received) = t.userInfoFields.map (·.present) ↔
      ¬∃ ui ∈ t.userInfoFields, ui.AsksAck := by
    rw [List.map_inj_left]
    simp only [CtrlTriggerUserInfoField.received_eq_present_iff, not_exists, not_and]
  have hpadding : (if t.padding < 2 then 0 else 2 + t.padding % 2) = t.padding ↔
      t.padding = 0 ∨ t.padding = 2 ∨ t.padding = 3 := by
    split <;> omega
  rw [AsksAck, not_or, ← hspecial, ← hfields, ← hpadding]
  constructor
  · intro h
    exact ⟨congrArg padding h, congrArg specialUserInfoField h, congrArg userInfoFields h⟩
  · rintro ⟨hsame, hspecial', hfields'⟩
    rw [received, present, hsame, hspecial', hfields']

/-- A frame is read back exactly if it has no padding or two bytes of it, and asks for no HT
immediate Ack. -/
theorem triggerRoundTrips_iff (t : CtrlTriggerHeader) (ht : t.WellFormed) :
    t.TriggerRoundTrips ↔ (t.padding = 0 ∨ t.padding = 2) ∧ ¬t.AsksAck := by
  obtain ⟨bytes, hbytes, hsize, hread⟩ := ht.deserialize_serialize
  have hlong : t.padding ≤ bytes.length := by
    rw [hsize, getSerializedSize]
    omega
  constructor
  · rintro ⟨bytes', t', hbytes', -, hread', hsame⟩
    obtain rfl := Option.some.inj (hbytes.symm.trans hbytes')
    obtain ⟨rfl, hall⟩ := Prod.mk.inj (Option.some.inj (hread.symm.trans hread'))
    rw [received_present, received_eq_present_iff] at hsame
    refine ⟨?_, hsame.2⟩
    omega
  · rintro ⟨hpadding, hacks⟩
    refine ⟨bytes, t.received, hbytes, hsize, ?_, ?_⟩
    · rw [hread, show bytes.length - t.padding % 2 = bytes.length by omega]
    · rw [received_present, received_eq_present_iff]
      exact ⟨by omega, hacks⟩

/-- A MU-BAR Trigger frame of the EHT variant, for two stations. -/
theorem triggerRoundTrips_muBar : TriggerRoundTrips
    { variant := .eht, triggerType := .muBarTrigger, ulLength := 1000, padding := 2
      specialUserInfoField := some { triggerType := .muBarTrigger, ulBwExt := 2 }
      userInfoFields :=
        [{ variant := .eht, triggerType := .muBarTrigger, aid12 := 5, startingSs := 1
           muBarTriggerDependentUserInfo := { barType := .compressed, startingSeq := 77 } },
         { variant := .eht, triggerType := .muBarTrigger, aid12 := 2045, nRaRu := 3
           muBarTriggerDependentUserInfo := { barType := .compressed, tidInfo := 6 } }] } := by
  refine (triggerRoundTrips_iff _ ⟨rfl, by decide, ?_, ?_⟩).2 ⟨Or.inr rfl, ?_⟩
  · rintro special ⟨rfl⟩
    exact ⟨rfl, fun _ => by decide⟩
  · intro ui hui
    obtain rfl | rfl := by simpa using hui
    · exact ⟨rfl, rfl, rfl, by decide, fun _ => by decide⟩
    · exact ⟨rfl, rfl, rfl, by decide, fun _ => by decide⟩
  · rintro (⟨special, ⟨rfl⟩, h⟩ | ⟨ui, hui, h⟩)
    · exact absurd h (by decide)
    · obtain rfl | rfl := by simpa using hui
      · exact absurd h (by decide)
      · exact absurd h (by decide)

/-- Four bytes of padding are read as two. -/
theorem not_triggerRoundTrips : ¬∀ t : CtrlTriggerHeader, t.WellFormed → t.padding ≠ 1 →
    t.TriggerRoundTrips := by
  intro h
  have hwf : WellFormed { padding := 4 } := by
    refine ⟨rfl, by decide, ?_, ?_⟩
    · rintro special ⟨⟩
    · rintro ui ⟨⟩
  obtain ⟨bytes, t', hbytes, -, hread, hsame⟩ := h { padding := 4 } hwf (by decide)
  obtain rfl := Option.some.inj hbytes
  obtain ⟨rfl, -⟩ := Prod.mk.inj (Option.some.inj hread)
  exact absurd (congrArg padding hsame) (by decide)

end CtrlTriggerHeader

end Ns3Pedca
