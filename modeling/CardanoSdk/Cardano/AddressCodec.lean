import CardanoSdk.Cardano.AddressRoundTrip
import CardanoSdk.Serialization.Inversion

/-!
Addresses made of credentials, and the bytes that name each address.
-/

namespace CardanoSdk.Cardano

open Lib Cbor Plutus Serialization
open TxConstruction (Credential CredentialType Hash)

/-- The enumeration's name of a type that was put together with masks. -/
def maskedType (type : ℕ) : AddressType := (AddressType.ofNat? type).getD .basePaymentKeyStakeKey

/-- `BaseAddress.fromCredentials(...).toAddress()` -/
def baseFromCredentials (networkId : ℕ) (payment stake : Credential) : AddressProps :=
  let type := AddressType.basePaymentKeyStakeKey.toNat
  let type := if payment.type = .scriptHash then type ||| 0b0001 else type
  let type := if stake.type = .scriptHash then type ||| 0b0010 else type
  { type := maskedType type, networkId := some networkId, paymentPart := some payment
    delegationPart := some stake }

/-- `PointerAddress.fromCredentials(...).toAddress()`, whose mask is that of a conjunction. -/
def pointerFromCredentials (networkId : ℕ) (payment : Credential) (pointer : Pointer) :
    AddressProps :=
  let type := AddressType.pointerKey.toNat
  let type := if payment.type = .scriptHash then type &&& 0b0001 else type
  { type := maskedType type, networkId := some networkId, paymentPart := some payment
    pointer := some pointer }

/-- `EnterpriseAddress.fromCredentials(...).toAddress()` -/
def enterpriseFromCredentials (networkId : ℕ) (payment : Credential) : AddressProps :=
  { type := if payment.type = .scriptHash then .enterpriseScript else .enterpriseKey
    networkId := some networkId, paymentPart := some payment }

/-- `RewardAddress.fromCredentials(...).toAddress()` -/
def rewardFromCredentials (networkId : ℕ) (payment : Credential) : AddressProps :=
  let type := AddressType.rewardKey.toNat
  let type := if payment.type = .scriptHash then type ||| 0b0001 else type
  { type := maskedType type, networkId := some networkId, paymentPart := some payment }

/-- The address is written, and read with all of its parts. -/
def AddressProps.RoundTrips (text : TextEncodings) (props : AddressProps) : Prop :=
  ∃ bytes, props.toBytes text = .ok bytes ∧ AddressProps.fromBytes text bytes = .ok props

section Credentials

variable {text : TextEncodings} {networkId : ℕ} {payment stake : Credential}

theorem header_of_type {type : AddressType} {props : AddressProps} {rest : List UInt8}
    (hnetwork : networkId < 16) (htype : props.type = type) (hid : props.networkId = some networkId) :
    AddressType.ofNat? (((headerByte props :: rest).headD 0).toNat / 16) = some type ∧
      networkOf (headerByte props :: rest) = networkId := by
  have hheader := headerByte_eq type hnetwork
  rw [← htype] at hheader
  have hbyte : (headerByte props).toNat = 16 * props.type.toNat + networkId := by
    rw [headerByte, hid]
    exact hheader
  constructor
  · rw [List.headD_cons, hbyte, ← htype, ← ofNat?_toNat props.type]
    congr 1
    omega
  · rw [networkOf, List.headD_cons, hbyte]
    omega

variable {type : AddressType} {props : AddressProps} {data : List UInt8}

theorem base_roundTrips (hnetwork : networkId < 16) (hpayment : payment.hash.length = 28)
    (hstake : stake.hash.length = 28)
    (hscript : payment.type = if type = .basePaymentScriptStakeKey ∨
      type = .basePaymentScriptStakeScript then .scriptHash else .keyHash)
    (hscript' : stake.type = if type = .basePaymentKeyStakeScript ∨
      type = .basePaymentScriptStakeScript then .scriptHash else .keyHash) :
    ∃ bytes, packBase ⟨type, some networkId, none, some payment, some stake, none⟩ = .ok bytes ∧
      AddressType.ofNat? ((bytes.headD 0).toNat / 16) = some type ∧
      unpackBase type bytes = .ok ⟨type, some networkId, none, some payment, some stake, none⟩ := by
  obtain ⟨htype, hid⟩ := @header_of_type networkId type
    ⟨type, some networkId, none, some payment, some stake, none⟩ (payment.hash ++ stake.hash)
    hnetwork rfl rfl
  refine ⟨_, rfl, htype, ?_⟩
  have hfirst : ((payment.hash ++ stake.hash).take 28) = payment.hash := by
    rw [← hpayment, List.take_left]
  have hsecond : ((payment.hash ++ stake.hash).drop 28).take 28 = stake.hash := by
    rw [← hpayment, List.drop_left, hpayment, ← hstake, List.take_length]
  unfold unpackBase
  rw [if_neg (by simp [hpayment, hstake]), List.drop_succ_cons, List.drop_zero, List.drop_succ_cons,
    hfirst, hsecond, hash28_ok hpayment, hash28_ok hstake, hid]
  simp only [bind, Except.bind, ← hscript, ← hscript']
  rfl

theorem payment_roundTrips {type script : AddressType} (hnetwork : networkId < 16)
    (hpayment : payment.hash.length = 28)
    (hscript : payment.type = if type = script then .scriptHash else .keyHash) :
    ∃ bytes, packPayment ⟨type, some networkId, none, some payment, none, none⟩ = .ok bytes ∧
      AddressType.ofNat? ((bytes.headD 0).toNat / 16) = some type ∧
      unpackPayment script type bytes = .ok ⟨type, some networkId, none, some payment, none, none⟩ := by
  obtain ⟨htype, hid⟩ := @header_of_type networkId type
    ⟨type, some networkId, none, some payment, none, none⟩ payment.hash hnetwork rfl rfl
  refine ⟨_, rfl, htype, ?_⟩
  have hhash : payment.hash.take 28 = payment.hash := List.take_of_length_le (by omega)
  unfold unpackPayment
  rw [if_neg (by simp [hpayment]), List.drop_succ_cons, List.drop_zero, hhash, hash28_ok hpayment, hid]
  simp only [bind, Except.bind, ← hscript]
  rfl

def AddressType.IsBase (type : AddressType) : Prop :=
  type = .basePaymentKeyStakeKey ∨ type = .basePaymentScriptStakeKey ∨
    type = .basePaymentKeyStakeScript ∨ type = .basePaymentScriptStakeScript

theorem exists_baseType (payment stake : Credential) : ∃ type : AddressType, type.IsBase ∧
    (∀ networkId, baseFromCredentials networkId payment stake =
      ⟨type, some networkId, none, some payment, some stake, none⟩) ∧
    (payment.type = if type = .basePaymentScriptStakeKey ∨ type = .basePaymentScriptStakeScript then
      .scriptHash else .keyHash) ∧
    (stake.type = if type = .basePaymentKeyStakeScript ∨ type = .basePaymentScriptStakeScript then
      .scriptHash else .keyHash) := by
  have hnames (type : AddressType) {masked : ℕ} (hmasked : masked = type.toNat) :
      maskedType masked = type := by
    rw [maskedType, hmasked, ofNat?_toNat]
    rfl
  unfold baseFromCredentials AddressType.IsBase
  cases hpayment : payment.type <;> cases hstake : stake.type
  · refine ⟨.basePaymentKeyStakeKey, by simp, fun _ => ?_, rfl, rfl⟩
    exact congrArg (fun type => AddressProps.mk type _ _ _ _ _) (hnames _ (by simp))
  · refine ⟨.basePaymentKeyStakeScript, by simp, fun _ => ?_, rfl, rfl⟩
    exact congrArg (fun type => AddressProps.mk type _ _ _ _ _) (hnames _ (by simp; rfl))
  · refine ⟨.basePaymentScriptStakeKey, by simp, fun _ => ?_, rfl, rfl⟩
    exact congrArg (fun type => AddressProps.mk type _ _ _ _ _) (hnames _ (by simp; rfl))
  · refine ⟨.basePaymentScriptStakeScript, by simp, fun _ => ?_, rfl, rfl⟩
    exact congrArg (fun type => AddressProps.mk type _ _ _ _ _) (hnames _ (by simp; rfl))

theorem toBytes_base (h : props.type.IsBase) : props.toBytes text = packBase props := by
  unfold AddressProps.toBytes
  rcases h with h | h | h | h <;> rw [h]

theorem fromBytes_base (h : type.IsBase)
    (htype : AddressType.ofNat? ((data.headD 0).toNat / 16) = some type) :
    AddressProps.fromBytes text data = unpackBase type data := by
  unfold AddressProps.fromBytes
  rw [htype]
  rcases h with rfl | rfl | rfl | rfl <;> rfl

theorem baseFromCredentials_roundTrips (hnetwork : networkId < 16)
    (hpayment : payment.hash.length = 28) (hstake : stake.hash.length = 28) :
    (baseFromCredentials networkId payment stake).RoundTrips text := by
  obtain ⟨type, hbase, hprops, hscript, hscript'⟩ := exists_baseType payment stake
  obtain ⟨bytes, hpack, htype, hunpack⟩ :=
    base_roundTrips hnetwork hpayment hstake hscript hscript'
  rw [hprops]
  refine ⟨bytes, ?_, ?_⟩
  · rw [toBytes_base hbase]
    exact hpack
  · rw [fromBytes_base hbase htype]
    exact hunpack

theorem enterpriseFromCredentials_roundTrips (hnetwork : networkId < 16)
    (hpayment : payment.hash.length = 28) :
    (enterpriseFromCredentials networkId payment).RoundTrips text := by
  obtain ⟨type, hash⟩ := payment
  cases type with
  | keyHash =>
    obtain ⟨bytes, hpack, htype, hunpack⟩ := @payment_roundTrips _ ⟨.keyHash, hash⟩ .enterpriseKey
      .enterpriseScript hnetwork hpayment rfl
    refine ⟨bytes, hpack, ?_⟩
    rw [AddressProps.fromBytes, htype]
    exact hunpack
  | scriptHash =>
    obtain ⟨bytes, hpack, htype, hunpack⟩ := @payment_roundTrips _ ⟨.scriptHash, hash⟩
      .enterpriseScript .enterpriseScript hnetwork hpayment rfl
    refine ⟨bytes, hpack, ?_⟩
    rw [AddressProps.fromBytes, htype]
    exact hunpack

theorem rewardFromCredentials_roundTrips (hnetwork : networkId < 16)
    (hpayment : payment.hash.length = 28) :
    (rewardFromCredentials networkId payment).RoundTrips text := by
  obtain ⟨type, hash⟩ := payment
  cases type with
  | keyHash =>
    obtain ⟨bytes, hpack, htype, hunpack⟩ := @payment_roundTrips _ ⟨.keyHash, hash⟩ .rewardKey
      .rewardScript hnetwork hpayment rfl
    refine ⟨bytes, hpack, ?_⟩
    rw [AddressProps.fromBytes, htype]
    exact hunpack
  | scriptHash =>
    obtain ⟨bytes, hpack, htype, hunpack⟩ := @payment_roundTrips _ ⟨.scriptHash, hash⟩
      .rewardScript .rewardScript hnetwork hpayment rfl
    refine ⟨bytes, hpack, ?_⟩
    rw [AddressProps.fromBytes, htype]
    exact hunpack

theorem packBase_of_unpackBase (h : unpackBase type data = .ok props) :
    ∃ bytes, packBase props = .ok bytes := by
  unfold unpackBase at h
  split at h
  · cases h
  · obtain ⟨_, _, h⟩ := bind_ok h
    obtain ⟨_, _, h⟩ := bind_ok h
    cases h
    exact ⟨_, rfl⟩

theorem packPayment_of_unpackPayment {script : AddressType}
    (h : unpackPayment script type data = .ok props) : ∃ bytes, packPayment props = .ok bytes := by
  unfold unpackPayment at h
  split at h
  · cases h
  · obtain ⟨_, _, h⟩ := bind_ok h
    cases h
    exact ⟨_, rfl⟩

/-- Three numbers of the shortest form behind the payment part, and nothing else. -/
def PointerBytes (data : List UInt8) (pointer : Pointer) : Prop :=
  ∃ txIndex certIndex, pointer.txIndex = some txIndex ∧ pointer.certIndex = some certIndex ∧
    toIndex txIndex = some txIndex ∧ toIndex certIndex = some certIndex ∧
    data.drop 29 = variableLengthEncode pointer.slot ++
      (variableLengthEncode txIndex ++ variableLengthEncode certIndex)

theorem toIndex_of_lt {value : ℕ} (h : value < 2 ^ 53) : toIndex value = some value := by
  have hfinite : value < 2 ^ 1024 := by
    calc value < 2 ^ 53 := h
      _ < 2 ^ 1024 := by gcongr <;> decide
  rw [toIndex, roundToDouble_of_lt h, if_pos hfinite]

theorem unpackPointer_ok {type : AddressType} {data : List UInt8} {pointer : Pointer}
    (hlength : 29 < data.length) (hpointer : PointerBytes data pointer) :
    unpackPointer type data = .ok {
      type := type
      networkId := some (networkOf data)
      paymentPart := some {
        type := if type = .pointerScript then .scriptHash else .keyHash
        hash := (data.drop 1).take 28 }
      pointer := some pointer } := by
  obtain ⟨slot, tx, cert⟩ := pointer
  obtain ⟨txIndex, certIndex, htx, hcert, htxIndex, hcertIndex, hdata⟩ := hpointer
  dsimp only at htx hcert hdata
  subst htx
  subst hcert
  have hhash : ((data.drop 1).take 28).length = 28 := by
    rw [List.length_take, List.length_drop]
    omega
  have hlast := variableLengthDecode_encode certIndex []
  rw [List.append_nil] at hlast
  unfold unpackPointer
  rw [if_neg (by omega), hash28_ok hhash, hdata, variableLengthDecode_encode]
  dsimp only [bind, Except.bind]
  rw [← List.drop_drop, hdata, List.drop_left, variableLengthDecode_encode]
  dsimp only
  rw [← List.drop_drop, ← List.drop_drop, hdata, List.drop_left, List.drop_left, hlast]
  dsimp only
  rw [htxIndex, hcertIndex]
  rfl

theorem variableLengthEncode_ne_nil (value : ℕ) : variableLengthEncode value ≠ [] := by
  have hlength := variableLengthEncode_length value
  intro hnil
  rw [hnil, List.length_nil] at hlength
  omega

/-- A pointer address of a key is read with its pointer. One of a script has
the type of a base address, and no stake credential to be written. -/
theorem pointerFromCredentials_roundTrips_iff {slot txIndex certIndex : ℕ} (hnetwork : networkId < 16)
    (hpayment : payment.hash.length = 28) (htx : txIndex < 2 ^ 53) (hcert : certIndex < 2 ^ 53) :
    (pointerFromCredentials networkId payment ⟨slot, some txIndex, some certIndex⟩).RoundTrips text ↔
      payment.type = .keyHash := by
  obtain ⟨type, hash⟩ := payment
  cases type with
  | keyHash =>
    refine iff_of_true ?_ rfl
    obtain ⟨htype, hid⟩ := @header_of_type networkId .pointerKey
      (pointerFromCredentials networkId ⟨.keyHash, hash⟩ ⟨slot, some txIndex, some certIndex⟩)
      (hash ++ (variableLengthEncode slot ++
        (variableLengthEncode txIndex ++ variableLengthEncode certIndex))) hnetwork rfl rfl
    refine ⟨_, rfl, ?_⟩
    have hhash : (hash ++ (variableLengthEncode slot ++ (variableLengthEncode txIndex ++
        variableLengthEncode certIndex))).take 28 = hash := by
      rw [← hpayment, List.take_left]
    have hpointer : PointerBytes (headerByte (pointerFromCredentials networkId ⟨.keyHash, hash⟩
        ⟨slot, some txIndex, some certIndex⟩) :: (hash ++ (variableLengthEncode slot ++
          (variableLengthEncode txIndex ++ variableLengthEncode certIndex))))
        ⟨slot, some txIndex, some certIndex⟩ := by
      refine ⟨txIndex, certIndex, rfl, rfl, toIndex_of_lt htx, toIndex_of_lt hcert, ?_⟩
      rw [List.drop_succ_cons, ← hpayment, List.drop_left]
    have hlong := List.length_pos_of_ne_nil (variableLengthEncode_ne_nil slot)
    have hunpack := @unpackPointer_ok .pointerKey _ _ (by
      dsimp only at hpayment
      simp only [List.length_cons, List.length_append, hpayment]
      omega) hpointer
    rw [List.drop_succ_cons, List.drop_zero, hhash, hid] at hunpack
    rw [AddressProps.fromBytes, htype]
    exact hunpack
  | scriptHash =>
    refine iff_of_false ?_ (by simp)
    rintro ⟨bytes, hbytes, _⟩
    cases hbytes

end Credentials

section Rewriting

variable {text : TextEncodings} {type : AddressType} {data : List UInt8} {props : AddressProps}

theorem headD_cons_tail (h : data ≠ []) : data.headD 0 :: data.drop 1 = data := by
  cases data with
  | nil => exact absurd rfl h
  | cons first rest => rfl

theorem unpackPointer_eq_ok (h : unpackPointer type data = .ok props) :
    29 < data.length ∧ ∃ slot txIndex certIndex, props = {
      type := type
      networkId := some (networkOf data)
      paymentPart := some {
        type := if type = .pointerScript then .scriptHash else .keyHash
        hash := (data.drop 1).take 28 }
      pointer := some ⟨slot, toIndex txIndex, toIndex certIndex⟩ } := by
  unfold unpackPointer at h
  split at h
  · cases h
  · rename_i hlength
    obtain ⟨payment, hpayment, h⟩ := bind_ok h
    obtain ⟨rfl, _⟩ := hash28_eq_ok hpayment
    cases h
    exact ⟨by omega, _, _, _, rfl⟩

theorem fromIndex_eq_ok {index : Option ℕ} {value : ℕ} (h : fromIndex index = .ok value) :
    index = some value := by
  cases index with
  | none => cases h
  | some value' =>
    cases h
    rfl

/-- An unpacked pointer address is packed as the same bytes exactly if its numbers
had their shortest form and nothing stood behind them. -/
theorem packPointer_iff (htype : AddressType.ofNat? ((data.headD 0).toNat / 16) = some type)
    (h : unpackPointer type data = .ok props) :
    packPointer props = .ok data ↔ ∃ pointer, PointerBytes data pointer := by
  obtain ⟨hlength, slot, tx, cert, hprops⟩ := unpackPointer_eq_ok h
  have hne : data ≠ [] := List.ne_nil_of_length_pos (by omega)
  have hhash : ((data.drop 1).take 28).length = 28 := by
    rw [List.length_take, List.length_drop]
    omega
  constructor
  · intro hpack
    generalize htxIndex : toIndex tx = txOption at hprops
    generalize hcertIndex : toIndex cert = certOption at hprops
    rw [hprops] at hpack
    have hpack : (fromIndex txOption >>= fun txIndex => fromIndex certOption >>=
        fun certIndex => Except.ok (headerByte _ :: ((data.drop 1).take 28 ++
          (variableLengthEncode slot ++ (variableLengthEncode txIndex ++
            variableLengthEncode certIndex))))) = Except.ok data := hpack
    obtain ⟨txIndex, htx, hpack⟩ := bind_ok hpack
    obtain ⟨certIndex, hcert, hpack⟩ := bind_ok hpack
    have hdata := Except.ok.inj hpack
    have htx := htxIndex.trans (fromIndex_eq_ok htx)
    have hcert := hcertIndex.trans (fromIndex_eq_ok hcert)
    refine ⟨⟨slot, some txIndex, some certIndex⟩, txIndex, certIndex, rfl, rfl,
      toIndex_of_toIndex htx, toIndex_of_toIndex hcert, ?_⟩
    have hdrop := congrArg (List.drop 29) hdata
    rw [List.drop_succ_cons, List.drop_left' hhash] at hdrop
    exact hdrop.symm
  · rintro ⟨pointer, hpointer⟩
    have hunpack := @unpackPointer_ok type data pointer hlength hpointer
    rw [h] at hunpack
    have hprops := Except.ok.inj hunpack
    obtain ⟨txIndex, certIndex, htx, hcert, _, _, hdata⟩ := hpointer
    have hheader : headerByte props = data.headD 0 :=
      headerByte_of_unpacked (by rw [hprops]; exact htype) (by rw [hprops])
    unfold packPointer
    rw [hheader, hprops]
    dsimp only [required, bind, Except.bind]
    rw [htx, hcert]
    dsimp only [fromIndex]
    have hdrop : data.drop 29 = (data.drop 1).drop 28 := by rw [List.drop_drop]
    rw [← hdata, hdrop, List.take_append_drop, headD_cons_tail hne]
    rfl

def byronBytes (text : TextEncodings) (content : ByronAddressContent) : List UInt8 :=
  encodeHead .array 2 ++ (encodeHead .tag encodedCborDataItemTag ++
    (encodeChunk (byronDataBytes content) ++ encodeInt (text.crc32 (byronDataBytes content)).toNat))

/-- Heads of the shortest form, the tag of an encoded item, the attributes that
are known once, in order and not empty, and nothing behind the checksum. -/
def ByronBytes (text : TextEncodings) (data : List UInt8) : Prop :=
  ∃ content : ByronAddressContent, content.Unpacked ∧ content.Written ∧
    content.attrs.written = content.attrs ∧ data = byronBytes text content

theorem encodeOptional_ok {α : Type} {write : α → WriteM Unit} {encode : α → List UInt8}
    {value : Option α} (h : ∀ a ∈ value, Writes (write a) (encode a)) :
    encodeOptional write value = .ok (value.map encode) := by
  cases value with
  | none => rfl
  | some a =>
    change (encodeWith (write a) >>= _) = _
    rw [encodeWith_ok (h a rfl)]
    rfl

variable {content : ByronAddressContent}

theorem byronAddressData_ok (hunpacked : content.Unpacked) (hwritten : content.Written)
    (hlength : (byronDataBytes content).length < 2 ^ 53) :
    byronAddressData content = .ok (byronDataBytes content) := by
  have hpath : encodeOptional writeByteString (truthy content.attrs.derivationPath) =
      .ok (content.attrs.written.derivationPath.map encodeChunk) :=
    encodeOptional_ok fun path hmem => writes_byteString (hwritten.path path hmem)
  have hmagic : encodeOptional writeInt (truthyNumber content.attrs.magic) =
      .ok (content.attrs.written.magic.map encodeInt) :=
    encodeOptional_ok fun magic hmem =>
      writes_int (hwritten.magic magic hmem).1 (hwritten.magic magic hmem).2
  have hcount : attributesCount content.attrs.written =
      (content.attrs.written.derivationPath.map encodeChunk).toList.length +
        (content.attrs.written.magic.map encodeInt).toList.length := by
    unfold attributesCount
    cases content.attrs.written.derivationPath <;> cases content.attrs.written.magic <;> rfl
  have hroot : content.root.length < 2 ^ 64 := by
    rw [hunpacked.root]
    decide
  have hparts : (attributesBytes content.attrs.written).length < 2 ^ 53 := by
    rw [byronDataBytes] at hlength
    simp only [List.length_append] at hlength
    omega
  have hsize := attributesCount_le content.attrs.written
  have hshort : ∀ {key : ℤ} {encoded : Option (List UInt8)}, (attributeBytes key encoded).length ≤
      (attributesBytes content.attrs.written).length → ∀ value ∈ encoded, value.length < 2 ^ 64 := by
    intro key encoded hle value hmem
    cases hmem
    rw [attributeBytes, List.length_append, encodeChunk, List.length_append] at hle
    omega
  have hfirst := (@writesWhen_attribute 1 (by decide) (by decide)
    (content.attrs.written.derivationPath.map encodeChunk)).writes (@hshort 1 _ (by
      rw [attributesBytes, List.length_append]
      omega))
  have hsecond := (@writesWhen_attribute 2 (by decide) (by decide)
    (content.attrs.written.magic.map encodeInt)).writes (@hshort 2 _ (by
      rw [attributesBytes, List.length_append]
      omega))
  have hbytes : byronDataBytes content = encodeHead .array 3 ++ (encodeChunk content.root ++
      (encodeHead .map (attributesCount content.attrs.written) ++
        (attributeBytes 1 (content.attrs.written.derivationPath.map encodeChunk) ++
          (attributeBytes 2 (content.attrs.written.magic.map encodeInt) ++
            encodeInt content.type)))) := by
    rw [byronDataBytes, attributesBytes]
    simp only [List.append_assoc]
  unfold byronAddressData
  rw [hpath, hmagic]
  dsimp only [bind, Except.bind]
  rw [← hcount, hbytes]
  apply encodeWith_ok
  apply Writes.bind (writes_startArray (by decide))
  apply Writes.bind (writes_byteString hroot)
  apply Writes.bind (writes_startMap (by omega))
  apply Writes.bind hfirst
  apply Writes.bind hsecond
  exact writes_int hwritten.type.1 hwritten.type.2

theorem packByron_ok (hunpacked : content.Unpacked) (hwritten : content.Written)
    (hlength : (byronBytes text content).length < 2 ^ 53) :
    packByron text content = .ok (byronBytes text content) := by
  have hshort : (byronDataBytes content).length < 2 ^ 53 := by
    rw [byronBytes, encodeChunk] at hlength
    simp only [List.length_append] at hlength
    omega
  have hcrc := (text.crc32 (byronDataBytes content)).toNat_lt
  unfold packByron
  rw [byronAddressData_ok hunpacked hwritten hshort]
  dsimp only [bind, Except.bind]
  apply encodeWith_ok
  apply Writes.bind (writes_startArray (by decide))
  apply Writes.bind (writes_typeValue .tag (by decide))
  apply Writes.bind (writes_byteString (by omega))
  exact writes_int (by omega) (by omega)

theorem packByron_eq_ok {bytes : List UInt8} (h : packByron text content = .ok bytes) :
    content.Written ∧ bytes = byronBytes text content := by
  obtain ⟨data, hdata, h⟩ := bind_ok h
  obtain ⟨hwritten, rfl⟩ := byronAddressData_eq_ok hdata
  have hwrites := (writesWhen_typeValue .array 2).bind
    ((writesWhen_typeValue .tag encodedCborDataItemTag).bind
      ((writesWhen_byteString (byronDataBytes content)).bind
        (writesWhen_int (text.crc32 (byronDataBytes content)).toNat)))
  exact ⟨hwritten, (encodeWith_eq_ok hwrites h).2⟩

/-- An unpacked Byron address is packed as the same bytes exactly if these have
the form that is written. -/
theorem packByron_iff (h : unpackByron text data = .ok content) :
    packByron text content = .ok data ↔ ByronBytes text data := by
  have hunpacked := unpacked_of_unpackByron h
  have hlength : data.length < 2 ^ 53 := by
    obtain ⟨_, hdecoded, _⟩ := bind_ok h
    exact (decodeWith_eq_ok hdecoded).1
  constructor
  · intro hpack
    have hsame := (packByron_written text content).trans hpack
    obtain ⟨_, hunpack⟩ := unpackByron_packByron hunpacked hpack hlength
    obtain ⟨hwritten, hdata⟩ := packByron_eq_ok hsame
    exact ⟨_, unpacked_of_unpackByron hunpack, hwritten, written_written content.attrs, hdata⟩
  · rintro ⟨content', hunpacked', hwritten', hsame, rfl⟩
    have hpack := packByron_ok hunpacked' hwritten' hlength
    obtain ⟨_, hunpack⟩ := unpackByron_packByron hunpacked' hpack hlength
    rw [hsame, h] at hunpack
    cases hunpack
    exact hpack

end Rewriting

/-- Bytes that are accepted and written again. -/
def CanonicalBytes (text : TextEncodings) (data : List UInt8) : Prop :=
  match AddressType.ofNat? ((data.headD 0).toNat / 16) with
  | some .pointerKey | some .pointerScript => ∃ pointer, PointerBytes data pointer
  | some .byron => ByronBytes text data
  | _ => True

/-- The bytes of a decoded address are those it was decoded from exactly if
these are canonical. -/
theorem toBytes_fromBytes_iff {text : TextEncodings} {data : List UInt8} {props : AddressProps}
    (h : AddressProps.fromBytes text data = .ok props) :
    props.toBytes text = .ok data ↔ CanonicalBytes text data := by
  cases htype : AddressType.ofNat? ((data.headD 0).toNat / 16) with
  | none =>
    rw [AddressProps.fromBytes, htype] at h
    cases h
  | some type =>
    have hprops := type_of_fromBytes htype h
    have hbase : unpackBase type data = .ok props → (packBase props = .ok data ↔ True) := by
      intro hunpack
      obtain ⟨bytes, hbytes⟩ := packBase_of_unpackBase hunpack
      have hsame := packBase_unpackBase htype hunpack hbytes
      rw [hsame] at hbytes
      exact iff_true_intro hbytes
    have hpayment : ∀ script, unpackPayment script type data = .ok props →
        (packPayment props = .ok data ↔ True) := by
      intro script hunpack
      obtain ⟨bytes, hbytes⟩ := packPayment_of_unpackPayment hunpack
      have hsame := packPayment_unpackPayment htype hunpack hbytes
      rw [hsame] at hbytes
      exact iff_true_intro hbytes
    have hpointer : unpackPointer type data = .ok props →
        (packPointer props = .ok data ↔ ∃ pointer, PointerBytes data pointer) :=
      fun hunpack => packPointer_iff htype hunpack
    rw [AddressProps.toBytes, hprops, CanonicalBytes, htype]
    rw [AddressProps.fromBytes, htype] at h
    cases type with
    | basePaymentKeyStakeKey => exact hbase h
    | basePaymentScriptStakeKey => exact hbase h
    | basePaymentKeyStakeScript => exact hbase h
    | basePaymentScriptStakeScript => exact hbase h
    | enterpriseKey => exact hpayment _ h
    | enterpriseScript => exact hpayment _ h
    | rewardKey => exact hpayment _ h
    | rewardScript => exact hpayment _ h
    | pointerKey => exact hpointer h
    | pointerScript => exact hpointer h
    | byron =>
      obtain ⟨content, hcontent, h⟩ := bind_ok h
      cases h
      change (packByron text content).mapError EncodeException.range = .ok data ↔ _
      rw [mapError_eq_ok_iff]
      exact packByron_iff hcontent

/-- The text of the address in these bytes: base58 of a Byron address, bech32
under the prefix of its first byte of any other. -/
def textOfBytes (text : TextEncodings) (data : List UInt8) : Option String :=
  match AddressType.ofNat? ((data.headD 0).toNat / 16) with
  | some .byron => some (text.base58Encode data)
  | some type =>
    text.bech32Encode (bech32Prefix { type := type, networkId := some (networkOf data) }) data
  | none => none

/-- The text of canonical bytes of the address that it is read as, where Byron
attributes that are not written do not count. -/
def CanonicalText (text : TextEncodings) (address : String) : Prop :=
  ∃ props data, AddressProps.fromString text address = some props ∧
    AddressProps.fromBytes text data = .ok props.written ∧ CanonicalBytes text data ∧
    textOfBytes text data = some address

section Text

variable {text : TextEncodings} {address : String} {data : List UInt8} {props : AddressProps}

theorem fromBytes_of_fromString (h : AddressProps.fromString text address = some props) :
    ∃ data, AddressProps.fromBytes text data = .ok props := by
  have hbytes : ∀ data props, AddressProps.ofBytes? text data = some props →
      ∃ bytes, AddressProps.fromBytes text bytes = .ok props := by
    intro data props hdata
    obtain ⟨bytes, _, hprops⟩ := Option.bind_eq_some_iff.mp hdata
    refine ⟨bytes, ?_⟩
    cases hresult : AddressProps.fromBytes text bytes with
    | error exception =>
      rw [hresult] at hprops
      cases hprops
    | ok result =>
      rw [hresult] at hprops
      cases hprops
      rfl
  unfold AddressProps.fromString at h
  split at h
  · rename_i hbech32
    cases h
    exact hbytes _ _ hbech32
  · split at h
    · rename_i hbase58
      split at h
      · cases h
        exact hbytes _ _ hbase58
      · exact hbytes _ _ h
    · exact hbytes _ _ h

theorem toBytes_of_toText (h : props.toText text = .ok address) :
    ∃ bytes, props.toBytes text = .ok bytes := by
  unfold AddressProps.toText AddressProps.toBase58 AddressProps.toBech32 at h
  split at h
  · split at h
    · cases h
    · obtain ⟨bytes, hbytes, _⟩ := bind_ok h
      exact ⟨bytes, hbytes⟩
  · obtain ⟨bytes, hbytes, _⟩ := bind_ok h
    exact ⟨bytes, hbytes⟩

theorem toText_iff_textOfBytes (h : AddressProps.fromBytes text data = .ok props)
    (hbytes : props.toBytes text = .ok data) :
    props.toText text = .ok address ↔ textOfBytes text data = some address := by
  cases htype : AddressType.ofNat? ((data.headD 0).toNat / 16) with
  | none =>
    rw [AddressProps.fromBytes, htype] at h
    cases h
  | some type =>
    obtain ⟨hprops, hshape⟩ := shape_of_fromBytes htype h
    unfold AddressProps.toText AddressProps.toBase58 AddressProps.toBech32 textOfBytes
    rw [hprops, hbytes, htype]
    by_cases hbyron : type = .byron
    · subst hbyron
      simp [pure, Except.pure, bind, Except.bind]
    · have hprefix : bech32Prefix props =
          bech32Prefix { type := type, networkId := some (networkOf data) } := by
        rw [bech32Prefix, bech32Prefix, hprops, (hshape hbyron).1]
      rw [if_neg hbyron, hprefix]
      simp only [bind, Except.bind, if_neg hbyron]
      split <;> simp_all

/-- The text of an address that was read from a text is that text exactly if it is canonical. -/
theorem toText_fromString_iff (h : AddressProps.fromString text address = some props)
    (hlength : ∀ bytes, props.toBytes text = .ok bytes → bytes.length < 2 ^ 53) :
    props.toText text = .ok address ↔ CanonicalText text address := by
  constructor
  · intro htext
    obtain ⟨source, hsource⟩ := fromBytes_of_fromString h
    obtain ⟨bytes, hbytes⟩ := toBytes_of_toText htext
    have hread := fromBytes_toBytes hsource hbytes (hlength bytes hbytes)
    rw [← toBytes_written] at hbytes
    rw [← toText_written] at htext
    exact ⟨props, bytes, h, hread, (toBytes_fromBytes_iff hread).mp hbytes,
      (toText_iff_textOfBytes hread hbytes).mp htext⟩
  · rintro ⟨props', data, hprops, hread, hcanonical, htext⟩
    cases h.symm.trans hprops
    rw [← toText_written]
    exact (toText_iff_textOfBytes hread ((toBytes_fromBytes_iff hread).mpr hcanonical)).mpr htext

end Text

/-- Addresses of credentials come back from their bytes, but for pointer
addresses of scripts. Decoded addresses are written as the bytes they were
decoded from exactly if these are canonical. -/
theorem address_codec (text : TextEncodings) :
    (∀ networkId < 16, ∀ payment stake : Credential, payment.hash.length = 28 →
      stake.hash.length = 28 → (baseFromCredentials networkId payment stake).RoundTrips text) ∧
    (∀ networkId < 16, ∀ payment : Credential, payment.hash.length = 28 →
      (enterpriseFromCredentials networkId payment).RoundTrips text ∧
      (rewardFromCredentials networkId payment).RoundTrips text) ∧
    (∀ networkId < 16, ∀ payment : Credential, payment.hash.length = 28 →
      ∀ slot txIndex certIndex : ℕ, txIndex < 2 ^ 53 → certIndex < 2 ^ 53 →
        ((pointerFromCredentials networkId payment ⟨slot, some txIndex, some certIndex⟩).RoundTrips
          text ↔ payment.type = .keyHash)) ∧
    ∀ data props, AddressProps.fromBytes text data = .ok props →
      (props.toBytes text = .ok data ↔ CanonicalBytes text data) :=
  ⟨fun _ hnetwork _ _ hpayment hstake => baseFromCredentials_roundTrips hnetwork hpayment hstake,
    fun _ hnetwork _ hpayment => ⟨enterpriseFromCredentials_roundTrips hnetwork hpayment,
      rewardFromCredentials_roundTrips hnetwork hpayment⟩,
    fun _ hnetwork _ hpayment _ _ _ htx hcert =>
      pointerFromCredentials_roundTrips_iff hnetwork hpayment htx hcert,
    fun _ _ h => toBytes_fromBytes_iff h⟩

def sampleHash : Hash := List.replicate 28 0

/-- Shelley addresses use none of the encodings. -/
def refusingEncodings : TextEncodings where
  bech32Encode _ _ := none
  bech32Decode _ := none
  base58Encode _ := ""
  base58Decode _ := none
  crc32 _ := 0

theorem address_codec_sample :
    (baseFromCredentials 1 ⟨.scriptHash, sampleHash⟩ ⟨.keyHash, sampleHash⟩).RoundTrips
      refusingEncodings ∧
    (rewardFromCredentials 0 ⟨.scriptHash, sampleHash⟩).RoundTrips refusingEncodings ∧
    ((pointerFromCredentials 1 ⟨.keyHash, sampleHash⟩ ⟨2 ^ 70, some 3, some 200⟩).RoundTrips
      refusingEncodings ↔ CredentialType.keyHash = .keyHash) ∧
    ∃ props, AddressProps.fromBytes refusingEncodings (0x61 :: sampleHash) = .ok props ∧
      (props.toBytes refusingEncodings = .ok (0x61 :: sampleHash) ↔
        CanonicalBytes refusingEncodings (0x61 :: sampleHash)) :=
  ⟨(address_codec refusingEncodings).1 1 (by decide) _ _ (by decide) (by decide),
    ((address_codec refusingEncodings).2.1 0 (by decide) _ (by decide)).2,
    (address_codec refusingEncodings).2.2.1 1 (by decide) ⟨.keyHash, sampleHash⟩ (by decide) _ _ _
      (by decide) (by decide),
    _, rfl, (address_codec refusingEncodings).2.2.2 _ _ rfl⟩

/-- A pointer address on the main network with a byte behind its pointer. -/
def trailingByte : List UInt8 := 0x41 :: (sampleHash ++ [1, 2, 3, 0xff])

theorem fromBytes_trailingByte :
    AddressProps.fromBytes refusingEncodings trailingByte = .ok {
      type := .pointerKey, networkId := some 1, paymentPart := some ⟨.keyHash, sampleHash⟩
      pointer := some ⟨1, toIndex 2, toIndex 3⟩ } := rfl

/-- A pointer address of a script is not written, and the byte behind a pointer is dropped. -/
theorem not_address_codec :
    ¬ (∀ networkId < 16, ∀ payment : Credential, payment.hash.length = 28 →
      ∀ slot txIndex certIndex : ℕ, txIndex < 2 ^ 53 → certIndex < 2 ^ 53 →
        (pointerFromCredentials networkId payment ⟨slot, some txIndex, some certIndex⟩).RoundTrips
          refusingEncodings) ∧
    ¬ ∀ data props, AddressProps.fromBytes refusingEncodings data = .ok props →
      props.toBytes refusingEncodings = .ok data := by
  constructor
  · intro h
    obtain ⟨bytes, hbytes, _⟩ := h 1 (by decide) ⟨.scriptHash, sampleHash⟩ (by decide) 1 2 3
      (by decide) (by decide)
    cases hbytes
  · intro h
    have hbytes := h trailingByte _ fromBytes_trailingByte
    rw [toIndex_of_lt (show 2 < 2 ^ 53 by decide), toIndex_of_lt (show 3 < 2 ^ 53 by decide)] at hbytes
    have hpack : AddressProps.toBytes refusingEncodings ⟨.pointerKey, some 1,
        some ⟨1, some 2, some 3⟩, some ⟨.keyHash, sampleHash⟩, none, none⟩ =
        .ok (0x41 :: (sampleHash ++ [1, 2, 3])) := rfl
    rw [hpack] at hbytes
    exact absurd (Except.ok.inj hbytes) (by decide)

end CardanoSdk.Cardano
