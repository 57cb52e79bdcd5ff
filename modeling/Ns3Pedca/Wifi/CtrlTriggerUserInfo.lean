import Ns3Pedca.Wifi.CtrlBAckRequestHeader

/-!
# The User Info fields of a Trigger frame

A User Info field is a word of 32 bits, one more byte, and what the type of the Trigger frame adds :
a byte in a Basic Trigger frame, a BlockAckReq in a MU-BAR one. Which of its members are sent
depends on the variant, on the type and on the AID, so a field is read back as the members that
are `present`, but for the ack policy of the BlockAckReq (`deserialize_serialize`). The Special
User Info field of the EHT variant has the same layout, and the AID 2007.
-/

namespace Ns3Pedca

open Bytes

/-- `TriggerFrameType`, with the codes that have no name. -/
inductive TriggerFrameType
  | basicTrigger
  | bfrpTrigger
  | muBarTrigger
  | muRtsTrigger
  | bsrpTrigger
  | gcrMuBarTrigger
  | bqrpTrigger
  | nfrpTrigger
  | reserved (code : Fin 8)
  deriving DecidableEq

/-- `TriggerFrameVariant`. -/
inductive TriggerFrameVariant
  | he
  | eht
  deriving DecidableEq

/-- The types that abort a serialization, and a deserialization. -/
def TriggerFrameType.unsupported : TriggerFrameType → Bool
  | .bfrpTrigger | .gcrMuBarTrigger | .nfrpTrigger => true
  | _ => false

/-- `CtrlTriggerUserInfoField`. Of the union of bits 26 to 31, `aid12` tells which pair of members
is used. -/
structure CtrlTriggerUserInfoField where
  variant : TriggerFrameVariant
  aid12 : Fin 4096 := 0
  ruAllocation : Fin 256 := 0
  ulFecCodingType : Bool := false
  ulMcs : Fin 16 := 0
  ulDcm : Bool := false
  ps160 : Bool := false
  startingSs : Fin 8 := 0
  nSs : Fin 8 := 0
  nRaRu : Fin 32 := 0
  moreRaRu : Bool := false
  ulTargetRxPower : Fin 128 := 0
  triggerType : TriggerFrameType
  basicTriggerDependentUserInfo : UInt8 := 0
  muBarTriggerDependentUserInfo : CtrlBAckRequestHeader := {}
  deriving DecidableEq

/-- `CtrlTriggerSpecialUserInfoField`. -/
structure CtrlTriggerSpecialUserInfoField where
  triggerType : TriggerFrameType
  ulBwExt : Fin 4 := 0
  muBarTriggerDependentUserInfo : CtrlBAckRequestHeader := {}
  deriving DecidableEq

namespace CtrlBAckRequestHeader

/-- A BlockAckReq that a Trigger frame can carry. -/
structure Plain (hdr : CtrlBAckRequestHeader) : Prop where
  not_multiTid : hdr.barType ≠ .multiTid
  not_gcr : hdr.barType ≠ .gcr
  tidInfo_lt : hdr.tidInfo < 16
  startingSeq_lt : hdr.startingSeq < 4096

instance (hdr : CtrlBAckRequestHeader) : Decidable hdr.Plain :=
  decidable_of_iff (hdr.barType ≠ .multiTid ∧ hdr.barType ≠ .gcr ∧ hdr.tidInfo < 16 ∧
    hdr.startingSeq < 4096)
    ⟨fun h => ⟨h.1, h.2.1, h.2.2.1, h.2.2.2⟩,
      fun h => ⟨h.not_multiTid, h.not_gcr, h.tidInfo_lt, h.startingSeq_lt⟩⟩

/-- The members that are sent : only the GCR variant has an address. -/
def present (hdr : CtrlBAckRequestHeader) : CtrlBAckRequestHeader :=
  { hdr with gcrAddress := if hdr.barType = .gcr then hdr.gcrAddress else .station 0 }

/-- What is read back, into a new header. -/
def received (hdr : CtrlBAckRequestHeader) : CtrlBAckRequestHeader :=
  { hdr.present with barAckPolicy := false }

theorem received_present {hdr : CtrlBAckRequestHeader} : hdr.received.present = hdr.received := by
  by_cases hgcr : hdr.barType = .gcr <;> simp [received, present, hgcr]

theorem received_eq_present_iff {hdr : CtrlBAckRequestHeader} :
    hdr.received = hdr.present ↔ hdr.barAckPolicy = false := by
  constructor
  · intro h
    exact (congrArg barAckPolicy h).symm
  · intro h
    rw [received, present, h]

end CtrlBAckRequestHeader

/-! ## The dependent part -/

/-- The bytes that depend on the type, for a User Info field and for the special one, of which the
byte is reserved. -/
def serializeDependent (triggerType : TriggerFrameType) (basic : UInt8)
    (muBar : CtrlBAckRequestHeader) : Option (List UInt8) :=
  match triggerType with
  | .basicTrigger => some [basic]
  | .muBarTrigger => muBar.serialize
  | _ => some []

/-- What is read behind the common part : the byte, the BlockAckReq and the bytes after them. -/
def deserializeDependent (triggerType : TriggerFrameType) (basic : UInt8)
    (muBar : CtrlBAckRequestHeader) (i : List UInt8) :
    Option (UInt8 × CtrlBAckRequestHeader × List UInt8) :=
  match triggerType with
  | .basicTrigger => i.head?.map fun basic => (basic, muBar, i.drop 1)
  | .muBarTrigger => (muBar.deserialize i).map fun (muBar, len) => (basic, muBar, i.drop len)
  | _ => some (basic, muBar, i)

/-- The size of a User Info field, special or not. -/
def userInfoSize (triggerType : TriggerFrameType) (muBar : CtrlBAckRequestHeader) : ℕ :=
  match triggerType with
  | .basicTrigger | .bfrpTrigger => 5 + 1
  | .muBarTrigger => 5 + muBar.getSerializedSize
  | _ => 5

theorem five_le_userInfoSize (triggerType : TriggerFrameType) (muBar : CtrlBAckRequestHeader) :
    5 ≤ userInfoSize triggerType muBar := by
  cases triggerType with
  | muBarTrigger => exact Nat.le_add_right ..
  | _ => exact Nat.le_of_ble_eq_true rfl

theorem deserializeDependent_serialize {triggerType : TriggerFrameType} {basic : UInt8}
    {muBar : CtrlBAckRequestHeader} (hsupported : triggerType.unsupported = false)
    (hbar : triggerType = .muBarTrigger → muBar.Plain) :
    ∃ bytes, serializeDependent triggerType basic muBar = some bytes ∧
      5 + bytes.length = userInfoSize triggerType muBar ∧
      ∀ rest, deserializeDependent triggerType 0 {} (bytes ++ rest) =
        some (if triggerType = .basicTrigger then basic else 0,
          if triggerType = .muBarTrigger then muBar.received else {}, rest) := by
  cases triggerType with
  | basicTrigger => exact ⟨[basic], rfl, rfl, fun rest => rfl⟩
  | muBarTrigger =>
    obtain ⟨hmulti, -, htid, hseq⟩ := hbar rfl
    obtain ⟨bytes, hbytes, hsize, hread⟩ :=
      CtrlBAckRequestHeader.deserialize_serialize hmulti htid hseq
    refine ⟨bytes, hbytes, by rw [hsize]; rfl, ?_⟩
    intro rest
    rw [deserializeDependent, hread {} rest, Option.map_some]
    dsimp only
    rw [← hsize, List.drop_left]
    rfl
  | bfrpTrigger | gcrMuBarTrigger | nfrpTrigger => cases hsupported
  | _ => exact ⟨[], rfl, rfl, fun rest => rfl⟩

/-- The BlockAckReq is read back with all its members exactly if it asks for no HT immediate
Ack. -/
theorem dependent_received_iff {triggerType : TriggerFrameType}
    {muBar : CtrlBAckRequestHeader} :
    (if triggerType = .muBarTrigger then muBar.received else {}) =
        (if triggerType = .muBarTrigger then muBar.present else {}) ↔
      ¬(triggerType = .muBarTrigger ∧ muBar.barAckPolicy = true) := by
  by_cases hmuBar : triggerType = .muBarTrigger
  · rw [if_pos hmuBar, if_pos hmuBar, CtrlBAckRequestHeader.received_eq_present_iff,
      and_iff_right hmuBar, Bool.not_eq_true]
  · rw [if_neg hmuBar, if_neg hmuBar]
    exact iff_of_true rfl fun h => hmuBar h.1

theorem dependent_received_present {triggerType : TriggerFrameType}
    {muBar : CtrlBAckRequestHeader} :
    (if triggerType = .muBarTrigger then
      (if triggerType = .muBarTrigger then muBar.received else {}).present else {}) =
        if triggerType = .muBarTrigger then muBar.received else {} := by
  by_cases hmuBar : triggerType = .muBarTrigger
  · rw [if_pos hmuBar, if_pos hmuBar]
    exact CtrlBAckRequestHeader.received_present
  · rw [if_neg hmuBar, if_neg hmuBar]

/-! ## User Info fields -/

namespace CtrlTriggerUserInfoField

variable (ui : CtrlTriggerUserInfoField)

/-- `GetSerializedSize`. -/
def getSerializedSize : ℕ :=
  userInfoSize ui.triggerType ui.muBarTriggerDependentUserInfo

/-- The AID addresses a station, and not the random access of any. -/
def HasSsAllocation : Prop :=
  ui.aid12 ≠ 0 ∧ ui.aid12 ≠ 2045

instance : Decidable ui.HasSsAllocation :=
  inferInstanceAs (Decidable (_ ∧ _))

/-- Bits 26 to 31. -/
def bits26To31 : ℕ :=
  if ui.HasSsAllocation then ui.startingSs.val <<< 26 ||| ui.nSs.val <<< 29
  else ui.nRaRu.val <<< 26 ||| if ui.moreRaRu then 1 <<< 31 else 0

/-- The first 32 bits. -/
def userInfo : ℕ :=
  ui.aid12.val ||| ui.ruAllocation.val <<< 12 ||| (if ui.ulFecCodingType then 1 <<< 20 else 0) |||
    ui.ulMcs.val <<< 21 ||| (if ui.variant = .he && ui.ulDcm then 1 <<< 25 else 0) |||
    ui.bits26To31

/-- The byte of the target power. -/
def bit32To39 : ℕ :=
  ui.ulTargetRxPower.val ||| if ui.variant = .eht && ui.ps160 then 1 <<< 7 else 0

/-- `Serialize`. -/
def serialize : Option (List UInt8) :=
  if ui.triggerType.unsupported then none
  else
    (serializeDependent ui.triggerType ui.basicTriggerDependentUserInfo
      ui.muBarTriggerDependentUserInfo).map fun dependent =>
        writeUInt 4 ui.userInfo ++ (writeUInt 1 ui.bit32To39 ++ dependent)

/-- What the first 32 bits set. -/
def setUserInfo (userInfo : ℕ) : CtrlTriggerUserInfoField :=
  let aid12 := Fin.ofNat 4096 (userInfo &&& 0x0fff)
  let ui : CtrlTriggerUserInfoField :=
    { ui with
      aid12 := aid12
      ruAllocation := Fin.ofNat 256 (userInfo >>> 12 &&& 0xff)
      ulFecCodingType := userInfo >>> 20 &&& 0x01 ≠ 0
      ulMcs := Fin.ofNat 16 (userInfo >>> 21 &&& 0x0f)
      ulDcm := if ui.variant = .he then decide (userInfo >>> 25 &&& 0x01 ≠ 0) else ui.ulDcm }
  if aid12 ≠ 0 ∧ aid12 ≠ 2045 then
    { ui with
      startingSs := Fin.ofNat 8 (userInfo >>> 26 &&& 0x07)
      nSs := Fin.ofNat 8 (userInfo >>> 29 &&& 0x07) }
  else
    { ui with
      nRaRu := Fin.ofNat 32 (userInfo >>> 26 &&& 0x1f)
      moreRaRu := userInfo >>> 31 &&& 0x01 ≠ 0 }

/-- What the byte of the target power sets. -/
def setBit32To39 (bit32To39 : ℕ) : CtrlTriggerUserInfoField :=
  { ui with
    ulTargetRxPower := Fin.ofNat 128 (bit32To39 &&& 0x7f)
    ps160 := if ui.variant = .eht then decide (bit32To39 >>> 7 = 1) else ui.ps160 }

/-- `Deserialize`, and the bytes after the field. It aborts on a Padding field. -/
def deserialize (start : List UInt8) : Option (CtrlTriggerUserInfoField × List UInt8) :=
  if ui.triggerType.unsupported then none
  else do
    let (userInfo, i) ← readUInt 4 start
    if userInfo &&& 0x0fff = 4095 then none
    else do
      let (bit32To39, i) ← readUInt 1 i
      let (basic, muBar, i) ← deserializeDependent ui.triggerType
        ui.basicTriggerDependentUserInfo ui.muBarTriggerDependentUserInfo i
      return ({ (ui.setUserInfo userInfo).setBit32To39 bit32To39 with
        basicTriggerDependentUserInfo := basic, muBarTriggerDependentUserInfo := muBar }, i)

/-- The members that are sent. -/
def present : CtrlTriggerUserInfoField :=
  { ui with
    ulDcm := ui.variant = .he && ui.ulDcm
    ps160 := ui.variant = .eht && ui.ps160
    startingSs := if ui.HasSsAllocation then ui.startingSs else 0
    nSs := if ui.HasSsAllocation then ui.nSs else 0
    nRaRu := if ui.HasSsAllocation then 0 else ui.nRaRu
    moreRaRu := !ui.HasSsAllocation && ui.moreRaRu
    basicTriggerDependentUserInfo :=
      if ui.triggerType = .basicTrigger then ui.basicTriggerDependentUserInfo else 0
    muBarTriggerDependentUserInfo :=
      if ui.triggerType = .muBarTrigger then ui.muBarTriggerDependentUserInfo.present else {} }

/-- What is read back, into a new field. -/
def received : CtrlTriggerUserInfoField :=
  { ui.present with
    muBarTriggerDependentUserInfo :=
      if ui.triggerType = .muBarTrigger then ui.muBarTriggerDependentUserInfo.received else {} }

variable {ui}

/-! ### The words, as sums of fields -/

/-- Bits 26 to 31 as a number. -/
def highBits (ui : CtrlTriggerUserInfoField) : ℕ :=
  if ui.HasSsAllocation then ui.startingSs.val + 8 * ui.nSs.val
  else ui.nRaRu.val + 32 * ui.moreRaRu.toNat

theorem highBits_lt : ui.highBits < 64 := by
  have hmore := Bool.toNat_lt ui.moreRaRu
  rw [highBits]
  split <;> omega

theorem bits26To31_eq : ui.bits26To31 = ui.highBits <<< 26 := by
  rw [bits26To31, highBits]
  split
  · have hlow : ui.startingSs.val <<< 26 < 2 ^ 29 := by
      rw [Nat.shiftLeft_eq]
      omega
    rw [or_shiftLeft hlow, Nat.shiftLeft_eq, Nat.shiftLeft_eq]
    omega
  · have hlow : ui.nRaRu.val <<< 26 < 2 ^ 31 := by
      rw [Nat.shiftLeft_eq]
      omega
    rw [ite_shiftLeft, or_shiftLeft hlow, Nat.shiftLeft_eq, Nat.shiftLeft_eq]
    omega

theorem userInfo_eq : ui.userInfo = ui.aid12.val + 2 ^ 12 * ui.ruAllocation.val +
    2 ^ 20 * ui.ulFecCodingType.toNat + 2 ^ 21 * ui.ulMcs.val +
    2 ^ 25 * (ui.variant = .he && ui.ulDcm : Bool).toNat + 2 ^ 26 * ui.highBits := by
  have hfec := Bool.toNat_lt ui.ulFecCodingType
  have hdcm := Bool.toNat_lt (ui.variant = .he && ui.ulDcm : Bool)
  have haid : ui.aid12.val < 2 ^ 12 := ui.aid12.isLt
  have hru : ui.aid12.val + 2 ^ 12 * ui.ruAllocation.val < 2 ^ 20 := by omega
  have hfec' : ui.aid12.val + 2 ^ 12 * ui.ruAllocation.val +
      2 ^ 20 * ui.ulFecCodingType.toNat < 2 ^ 21 := by omega
  have hmcs : ui.aid12.val + 2 ^ 12 * ui.ruAllocation.val +
      2 ^ 20 * ui.ulFecCodingType.toNat + 2 ^ 21 * ui.ulMcs.val < 2 ^ 25 := by omega
  have hdcm' : ui.aid12.val + 2 ^ 12 * ui.ruAllocation.val +
      2 ^ 20 * ui.ulFecCodingType.toNat + 2 ^ 21 * ui.ulMcs.val +
      2 ^ 25 * (ui.variant = .he && ui.ulDcm : Bool).toNat < 2 ^ 26 := by omega
  rw [userInfo, bits26To31_eq, ite_shiftLeft, ite_shiftLeft, or_shiftLeft haid, or_shiftLeft hru,
    or_shiftLeft hfec', or_shiftLeft hmcs, or_shiftLeft hdcm']

theorem bit32To39_eq : ui.bit32To39 =
    ui.ulTargetRxPower.val + 2 ^ 7 * (ui.variant = .eht && ui.ps160 : Bool).toNat := by
  have hpower : ui.ulTargetRxPower.val < 2 ^ 7 := ui.ulTargetRxPower.isLt
  rw [bit32To39, ite_shiftLeft, or_shiftLeft hpower]

theorem userInfo_lt : ui.userInfo < 256 ^ 4 := by
  have hhigh : ui.highBits < 64 := highBits_lt
  have hfec := Bool.toNat_lt ui.ulFecCodingType
  have hdcm := Bool.toNat_lt (ui.variant = .he && ui.ulDcm : Bool)
  rw [userInfo_eq]
  omega

theorem bit32To39_lt : ui.bit32To39 < 256 ^ 1 := by
  have hps := Bool.toNat_lt (ui.variant = .eht && ui.ps160 : Bool)
  rw [bit32To39_eq]
  omega

/-! ### Reading a field back -/

/-- The field that `AddUserInfoField` appends. -/
def new (triggerType : TriggerFrameType) (variant : TriggerFrameVariant) :
    CtrlTriggerUserInfoField where
  variant := variant
  triggerType := triggerType

theorem toNat_ne_zero (flag : Bool) : decide (flag.toNat ≠ 0) = flag := by
  cases flag <;> rfl

theorem userInfo_aid12 : ui.userInfo &&& 0x0fff = ui.aid12.val := by
  rw [and_mask (show 0x0fff + 1 = 2 ^ 12 from rfl), userInfo_eq]
  omega

/-- The fields below bit 26. -/
theorem userInfo_fields : ui.userInfo >>> 12 &&& 0xff = ui.ruAllocation.val ∧
    ui.userInfo >>> 20 &&& 0x01 = ui.ulFecCodingType.toNat ∧
    ui.userInfo >>> 21 &&& 0x0f = ui.ulMcs.val ∧
    ui.userInfo >>> 25 &&& 0x01 = (ui.variant = .he && ui.ulDcm : Bool).toNat := by
  have hfec := Bool.toNat_lt ui.ulFecCodingType
  have hdcm := Bool.toNat_lt (ui.variant = .he && ui.ulDcm : Bool)
  rw [shiftRight_and (show 0xff + 1 = 2 ^ 8 from rfl),
    shiftRight_and (show 0x01 + 1 = 2 ^ 1 from rfl),
    shiftRight_and (show 0x0f + 1 = 2 ^ 4 from rfl),
    shiftRight_and (show 0x01 + 1 = 2 ^ 1 from rfl), userInfo_eq]
  refine ⟨?_, ?_, ?_, ?_⟩ <;> omega

theorem userInfo_ssAllocation (h : ui.HasSsAllocation) :
    ui.userInfo >>> 26 &&& 0x07 = ui.startingSs.val ∧
      ui.userInfo >>> 29 &&& 0x07 = ui.nSs.val := by
  have hfec := Bool.toNat_lt ui.ulFecCodingType
  have hdcm := Bool.toNat_lt (ui.variant = .he && ui.ulDcm : Bool)
  rw [shiftRight_and (show 0x07 + 1 = 2 ^ 3 from rfl),
    shiftRight_and (show 0x07 + 1 = 2 ^ 3 from rfl), userInfo_eq, highBits, if_pos h]
  refine ⟨?_, ?_⟩ <;> omega

theorem userInfo_raRuInformation (h : ¬ui.HasSsAllocation) :
    ui.userInfo >>> 26 &&& 0x1f = ui.nRaRu.val ∧
      ui.userInfo >>> 31 &&& 0x01 = ui.moreRaRu.toNat := by
  have hfec := Bool.toNat_lt ui.ulFecCodingType
  have hdcm := Bool.toNat_lt (ui.variant = .he && ui.ulDcm : Bool)
  have hmore := Bool.toNat_lt ui.moreRaRu
  rw [shiftRight_and (show 0x1f + 1 = 2 ^ 5 from rfl),
    shiftRight_and (show 0x01 + 1 = 2 ^ 1 from rfl), userInfo_eq, highBits, if_neg h]
  refine ⟨?_, ?_⟩ <;> omega

theorem bit32To39_fields : ui.bit32To39 &&& 0x7f = ui.ulTargetRxPower.val ∧
    decide (ui.bit32To39 >>> 7 = 1) = (ui.variant = .eht && ui.ps160 : Bool) := by
  rw [and_mask (show 0x7f + 1 = 2 ^ 7 from rfl), Nat.shiftRight_eq_div_pow, bit32To39_eq]
  refine ⟨by omega, ?_⟩
  have hdiv : (ui.ulTargetRxPower.val + 2 ^ 7 * (ui.variant = .eht && ui.ps160 : Bool).toNat) /
      2 ^ 7 = (ui.variant = .eht && ui.ps160 : Bool).toNat := by omega
  rw [hdiv]
  cases (ui.variant = .eht && ui.ps160 : Bool) <;> rfl

/-- The words set the members that are sent, but for those of the dependent part. -/
theorem setUserInfo_setBit32To39 :
    ((new ui.triggerType ui.variant).setUserInfo ui.userInfo).setBit32To39 ui.bit32To39 =
      { ui.present with
        basicTriggerDependentUserInfo := 0, muBarTriggerDependentUserInfo := {} } := by
  obtain ⟨hru, hfec, hmcs, hdcm⟩ := @userInfo_fields ui
  obtain ⟨hpower, hps160⟩ := @bit32To39_fields ui
  have haid : Fin.ofNat 4096 (ui.userInfo &&& 0x0fff) = ui.aid12 := by
    rw [userInfo_aid12]
    exact Fin.ofNat_val_eq_self ui.aid12
  have hdcm' : (if (new ui.triggerType ui.variant).variant = .he then
      decide (ui.userInfo >>> 25 &&& 0x01 ≠ 0) else (new ui.triggerType ui.variant).ulDcm) =
      (ui.variant = .he && ui.ulDcm : Bool) := by
    rw [hdcm, toNat_ne_zero, new]
    by_cases hhe : ui.variant = .he <;> simp [hhe]
  have hps160' : (if (new ui.triggerType ui.variant).variant = .eht then
      decide (ui.bit32To39 >>> 7 = 1) else (new ui.triggerType ui.variant).ps160) =
      (ui.variant = .eht && ui.ps160 : Bool) := by
    rw [hps160, new]
    by_cases heht : ui.variant = .eht <;> simp [heht]
  by_cases h : ui.HasSsAllocation
  · obtain ⟨hss, hnss⟩ := userInfo_ssAllocation h
    simp only [setUserInfo, haid]
    rw [if_pos (show ui.aid12 ≠ 0 ∧ ui.aid12 ≠ 2045 from h)]
    simp only [setBit32To39, hdcm', hps160']
    simp only [new, present, h, hru, hfec, hmcs, hss, hnss, hpower, toNat_ne_zero,
      Fin.ofNat_val_eq_self, if_true, decide_true, Bool.not_true, Bool.false_and]
  · obtain ⟨hnra, hmore⟩ := userInfo_raRuInformation h
    simp only [setUserInfo, haid]
    rw [if_neg (show ¬(ui.aid12 ≠ 0 ∧ ui.aid12 ≠ 2045) from h)]
    simp only [setBit32To39, hdcm', hps160']
    simp only [new, present, h, hru, hfec, hmcs, hnra, hmore, hpower, toNat_ne_zero,
      Fin.ofNat_val_eq_self, if_false, decide_false, Bool.not_false, Bool.true_and]

/-- A field that is not the Padding field, and whose BlockAckReq can be carried. -/
structure Regular (ui : CtrlTriggerUserInfoField) : Prop where
  supported : ui.triggerType.unsupported = false
  aid12_ne : ui.aid12 ≠ 4095
  plain : ui.triggerType = .muBarTrigger → ui.muBarTriggerDependentUserInfo.Plain

/-- A field has the size announced, does not begin like the Padding field, and is read back but
for the ack policy. -/
theorem Regular.deserialize_serialize (h : ui.Regular) :
    ∃ bytes, ui.serialize = some bytes ∧ bytes.length = ui.getSerializedSize ∧
      ∀ rest, (∃ pair after, readU16 (bytes ++ rest) = some (pair, after) ∧ pair ≠ 0xffff) ∧
        (new ui.triggerType ui.variant).deserialize (bytes ++ rest) = some (ui.received, rest) := by
  obtain ⟨dependent, hdependent, hsize, hread⟩ :=
    @deserializeDependent_serialize _ ui.basicTriggerDependentUserInfo _ h.supported h.plain
  have haid : ui.userInfo &&& 0x0fff ≠ 4095 := by
    rw [userInfo_aid12]
    intro hpad
    exact h.aid12_ne (Fin.ext hpad)
  refine ⟨writeUInt 4 ui.userInfo ++ (writeUInt 1 ui.bit32To39 ++ dependent), ?_, ?_, ?_⟩
  · rw [serialize, if_neg (by rw [h.supported]; exact Bool.false_ne_true), hdependent]
    rfl
  · rw [List.length_append, List.length_append, length_writeUInt, length_writeUInt,
      getSerializedSize, ← hsize]
    omega
  · intro rest
    rw [List.append_assoc]
    constructor
    · obtain ⟨after, hpair⟩ := @readU16_writeUInt 2 ui.userInfo
        (writeUInt 1 ui.bit32To39 ++ dependent ++ rest)
      refine ⟨_, after, hpair, ?_⟩
      rw [and_mask (show 0x0fff + 1 = 2 ^ 12 from rfl)] at haid
      omega
    · rw [deserialize, if_neg (by rw [new, h.supported]; exact Bool.false_ne_true),
        readUInt_writeUInt userInfo_lt]
      dsimp only [Option.bind_eq_bind, Option.bind_some]
      rw [if_neg haid, List.append_assoc, readUInt_writeUInt bit32To39_lt]
      dsimp only [Option.bind_eq_bind, Option.bind_some]
      change (deserializeDependent ui.triggerType 0 {} (dependent ++ rest)).bind _ = _
      rw [hread rest, Option.bind_some]
      dsimp only
      rw [setUserInfo_setBit32To39]
      rfl

/-- The field asks for an HT immediate Ack. -/
def AsksAck (ui : CtrlTriggerUserInfoField) : Prop :=
  ui.triggerType = .muBarTrigger ∧ ui.muBarTriggerDependentUserInfo.barAckPolicy = true

instance : Decidable ui.AsksAck :=
  inferInstanceAs (Decidable (_ ∧ _))

/-- What has been read back is sent again without a loss. -/
theorem received_present : ui.received.present = ui.received := by
  have hbar := @dependent_received_present ui.triggerType ui.muBarTriggerDependentUserInfo
  have hbasic : ¬ui.triggerType = .basicTrigger → ui.triggerType = .basicTrigger →
      0 = ui.basicTriggerDependentUserInfo := fun hne heq => absurd heq hne
  -- the AID is sent, so both have the same of the two pairs of bits 26 to 31
  by_cases h : ui.HasSsAllocation
  · simp [received, present, h, hbar]
    exact ⟨fun hne => absurd h hne, fun hne => absurd h hne, hbasic⟩
  · simp [received, present, h, hbar]
    exact ⟨fun hss => absurd hss h, fun _ hss => h hss, hbasic⟩

/-- All members that are sent are read back exactly if no HT immediate Ack is asked for. -/
theorem received_eq_present_iff : ui.received = ui.present ↔ ¬ui.AsksAck := by
  rw [AsksAck, ← dependent_received_iff]
  constructor
  · intro h
    exact congrArg muBarTriggerDependentUserInfo h
  · intro h
    rw [received, present, h]

end CtrlTriggerUserInfoField

/-! ## The Special User Info field -/

namespace CtrlTriggerSpecialUserInfoField

/-- `AID_SPECIAL_USER`. -/
def aidSpecialUser : ℕ := 2007

variable (special : CtrlTriggerSpecialUserInfoField)

/-- `GetSerializedSize`. -/
def getSerializedSize : ℕ :=
  userInfoSize special.triggerType special.muBarTriggerDependentUserInfo

/-- The first 32 bits. -/
def userInfo : ℕ :=
  (aidSpecialUser &&& 0x0fff) ||| special.ulBwExt.val <<< 15

/-- `Serialize`. -/
def serialize : Option (List UInt8) :=
  if special.triggerType.unsupported then none
  else
    (serializeDependent special.triggerType 0 special.muBarTriggerDependentUserInfo).map
      fun dependent => writeUInt 4 special.userInfo ++ (writeUInt 1 0 ++ dependent)

/-- `Deserialize`, and the bytes after the field. It aborts on another AID. -/
def deserialize (start : List UInt8) :
    Option (CtrlTriggerSpecialUserInfoField × List UInt8) :=
  if special.triggerType.unsupported then none
  else do
    let (userInfo, i) ← readUInt 4 start
    let (_, i) ← readUInt 1 i
    if userInfo &&& 0x0fff ≠ aidSpecialUser then none
    else do
      let (_, muBar, i) ← deserializeDependent special.triggerType 0
        special.muBarTriggerDependentUserInfo i
      return ({ special with
        ulBwExt := Fin.ofNat 4 (userInfo >>> 15 &&& 0x03)
        muBarTriggerDependentUserInfo := muBar }, i)

/-- The members that are sent. -/
def present : CtrlTriggerSpecialUserInfoField :=
  { special with
    muBarTriggerDependentUserInfo :=
      if special.triggerType = .muBarTrigger then special.muBarTriggerDependentUserInfo.present
      else {} }

/-- What is read back, into a new field. -/
def received : CtrlTriggerSpecialUserInfoField :=
  { special with
    muBarTriggerDependentUserInfo :=
      if special.triggerType = .muBarTrigger then special.muBarTriggerDependentUserInfo.received
      else {} }

/-- The field asks for an HT immediate Ack. -/
def AsksAck : Prop :=
  special.triggerType = .muBarTrigger ∧
    special.muBarTriggerDependentUserInfo.barAckPolicy = true

instance : Decidable special.AsksAck :=
  inferInstanceAs (Decidable (_ ∧ _))

variable {special}

theorem userInfo_eq : special.userInfo = 2007 + 2 ^ 15 * special.ulBwExt.val := by
  have haid : (aidSpecialUser &&& 0x0fff) < 2 ^ 15 := by decide
  rw [userInfo, or_shiftLeft haid]
  rfl

theorem deserialize_serialize (hsupported : special.triggerType.unsupported = false)
    (hplain : special.triggerType = .muBarTrigger →
      special.muBarTriggerDependentUserInfo.Plain) :
    ∃ bytes, special.serialize = some bytes ∧ bytes.length = special.getSerializedSize ∧
      ∀ rest, (∃ pair after, readU16 (bytes ++ rest) = some (pair, after) ∧
          pair &&& 0x0fff = aidSpecialUser) ∧
        deserialize { triggerType := special.triggerType } (bytes ++ rest) =
          some (special.received, rest) := by
  obtain ⟨dependent, hdependent, hsize, hread⟩ :=
    @deserializeDependent_serialize special.triggerType 0
      special.muBarTriggerDependentUserInfo hsupported hplain
  have hlt : special.userInfo < 256 ^ 4 := by
    rw [userInfo_eq]
    omega
  have haid : special.userInfo &&& 0x0fff = aidSpecialUser := by
    rw [and_mask (show 0x0fff + 1 = 2 ^ 12 from rfl), userInfo_eq, aidSpecialUser]
    omega
  have hbw : Fin.ofNat 4 (special.userInfo >>> 15 &&& 0x03) = special.ulBwExt := by
    have hbits : special.userInfo >>> 15 &&& 0x03 = special.ulBwExt.val := by
      rw [shiftRight_and (show 0x03 + 1 = 2 ^ 2 from rfl), userInfo_eq]
      omega
    rw [hbits]
    exact Fin.ofNat_val_eq_self special.ulBwExt
  refine ⟨writeUInt 4 special.userInfo ++ (writeUInt 1 0 ++ dependent), ?_, ?_, ?_⟩
  · rw [serialize, if_neg (by rw [hsupported]; exact Bool.false_ne_true), hdependent]
    rfl
  · rw [List.length_append, List.length_append, length_writeUInt, length_writeUInt,
      getSerializedSize, ← hsize]
    omega
  · intro rest
    rw [List.append_assoc]
    constructor
    · obtain ⟨after, hpair⟩ := @readU16_writeUInt 2 special.userInfo
        (writeUInt 1 0 ++ dependent ++ rest)
      refine ⟨_, after, hpair, ?_⟩
      rw [and_mask (show 0x0fff + 1 = 2 ^ 12 from rfl)] at haid ⊢
      omega
    · rw [deserialize, if_neg (by rw [hsupported]; exact Bool.false_ne_true),
        readUInt_writeUInt hlt]
      dsimp only [Option.bind_eq_bind, Option.bind_some]
      rw [List.append_assoc, readUInt_writeUInt (by norm_num)]
      dsimp only [Option.bind_eq_bind, Option.bind_some]
      rw [if_neg (not_not.mpr haid)]
      rw [hread rest, Option.bind_some]
      dsimp only
      rw [hbw]
      rfl

theorem received_present : special.received.present = special.received := by
  rw [received, present]
  exact congrArg (mk _ _) dependent_received_present

theorem received_eq_present_iff : special.received = special.present ↔ ¬special.AsksAck := by
  rw [AsksAck, ← dependent_received_iff]
  constructor
  · intro h
    exact congrArg muBarTriggerDependentUserInfo h
  · intro h
    rw [received, present, h]

end CtrlTriggerSpecialUserInfoField

end Ns3Pedca
