import CardanoSdk.Cardano.Address

/-!
An address that was unpacked from some bytes and can be packed is unpacked from its own
bytes with the same text.
-/

namespace CardanoSdk.Cardano

open Lib Cbor Plutus Serialization
open TxConstruction (Credential CredentialType Hash)

theorem variableLengthDecodeFrom_upperGroups (rounds val : ℕ) (rest : List UInt8)
    (value bytesRead : ℕ) :
    variableLengthDecodeFrom (upperGroups rounds val ++ rest) value bytesRead =
      variableLengthDecodeFrom rest (value * 128 ^ rounds + val / 128 % 128 ^ rounds)
        (bytesRead + rounds) := by
  induction rounds generalizing val rest with
  | zero => simp [upperGroups, Nat.mod_one]
  | succ rounds ih =>
    have hshift : val >>> 7 = val / 128 := Nat.shiftRight_eq_div_pow val 7
    have hbyte : (UInt8.ofNat (val / 128 % 128 + 128)).toNat = val / 128 % 128 + 128 := by
      rw [UInt8.toNat_ofNat']
      omega
    have hvalue : (value * 128 ^ rounds + val / 128 / 128 % 128 ^ rounds) * 128 +
        (val / 128 % 128 + 128) % 128 =
        value * 128 ^ (rounds + 1) + val / 128 % 128 ^ (rounds + 1) := by
      have hmod := @Nat.mod_mul 128 (128 ^ rounds) (val / 128)
      rw [pow_succ', hmod, ← mul_assoc]
      have hlow : (val / 128 % 128 + 128) % 128 = val / 128 % 128 := by omega
      rw [hlow]
      ring
    rw [upperGroups, hshift, List.append_assoc, ih, List.singleton_append,
      variableLengthDecodeFrom, hbyte, hvalue, if_pos (by omega), Nat.add_assoc,
      Nat.add_comm rounds]

theorem variableLengthEncode_length (val : ℕ) :
    (variableLengthEncode val).length = (bitLength val - 1) / 7 + 1 := by
  have hgroups : ∀ rounds val, (upperGroups rounds val).length = rounds := by
    intro rounds
    induction rounds with
    | zero => exact fun _ => rfl
    | succ rounds ih =>
      intro val
      rw [upperGroups, List.length_append, ih, List.length_singleton]
  rw [variableLengthEncode, List.length_append, hgroups, List.length_singleton]

theorem variableLengthDecode_encode (val : ℕ) (rest : List UInt8) :
    variableLengthDecode (variableLengthEncode val ++ rest) =
      (val, (variableLengthEncode val).length) := by
  have hsmall : val / 128 < 128 ^ ((bitLength val - 1) / 7) := by
    have hpow : 128 ^ ((bitLength val - 1) / 7 + 1) = 2 ^ (7 * ((bitLength val - 1) / 7 + 1)) := by
      rw [pow_mul]
      norm_num
    have hbound : val < 128 ^ ((bitLength val - 1) / 7 + 1) := by
      rw [hpow]
      apply Nat.lt_log2_self.trans_le
      apply Nat.pow_le_pow_right (by decide)
      unfold bitLength
      omega
    rw [pow_succ] at hbound
    omega
  have hbyte : (UInt8.ofNat (val % 128)).toNat = val % 128 := by
    rw [UInt8.toNat_ofNat']
    omega
  rw [variableLengthEncode_length, variableLengthDecode, variableLengthEncode, List.append_assoc,
    variableLengthDecodeFrom_upperGroups, List.singleton_append, variableLengthDecodeFrom, hbyte,
    Nat.zero_mul, Nat.zero_add, Nat.zero_add, Nat.mod_eq_of_lt hsmall, if_neg (by omega),
    Prod.mk.injEq]
  omega

variable {data bytes : List UInt8} {content : ByronAddressContent} {text : TextEncodings}
  {value : ℕ} {props : AddressProps}

theorem toIndex_of_toIndex {index : ℕ} (h : toIndex value = some index) :
    toIndex index = some index := by
  unfold toIndex at h ⊢
  split at h
  · rename_i hfinite
    cases h
    rw [roundToDouble_roundToDouble, if_pos hfinite]
  · cases h

theorem toNumber_toNumber (value : ℤ) : toNumber (toNumber value) = toNumber value := by
  have hround := roundToDouble_roundToDouble value.natAbs
  unfold toNumber
  by_cases hnegative : value < 0
  · rw [if_pos hnegative]
    by_cases hzero : roundToDouble value.natAbs = 0
    · rw [hzero]
      simp [roundToDouble]
    · rw [if_pos (by omega), Int.natAbs_neg, Int.natAbs_natCast, hround]
  · rw [if_neg hnegative, if_neg (by omega), Int.natAbs_natCast, hround]

theorem toNumber_of_lt (h : value < 2 ^ 53) : toNumber value = value :=
  toNumber_of_natAbs_lt (by rwa [Int.natAbs_natCast])

variable {type : AddressType}

theorem toNat_of_ofNat? (h : AddressType.ofNat? value = some type) : type.toNat = value := by
  unfold AddressType.ofNat? at h
  split at h
  all_goals
    cases h
    try rfl

theorem ofNat?_toNat (type : AddressType) : AddressType.ofNat? type.toNat = some type := by
  cases type <;> rfl

theorem headerByte_eq (type : AddressType) {networkId : ℕ} (hnetwork : networkId < 16) :
    (UInt8.ofNat (type.toNat <<< 4 ||| networkId)).toNat = 16 * type.toNat + networkId := by
  have htype : type.toNat < 16 := by cases type <;> decide
  rw [← Nat.shiftLeft_add_eq_or_of_lt (show networkId < 2 ^ 4 by omega), Nat.shiftLeft_eq,
    UInt8.toNat_ofNat']
  omega

theorem headerByte_of_unpacked
    (htype : AddressType.ofNat? ((data.headD 0).toNat / 16) = some props.type)
    (hnetwork : props.networkId = some (networkOf data)) : headerByte props = data.headD 0 := by
  have hsmall : networkOf data < 16 := Nat.mod_lt _ (by decide)
  apply UInt8.toNat_inj.mp
  rw [headerByte, hnetwork, Option.getD_some, headerByte_eq props.type hsmall,
    toNat_of_ofNat? htype, networkOf]
  omega

theorem hash28_eq_ok {hash : Hash} (h : hash28 bytes = .ok hash) :
    hash = bytes ∧ bytes.length = 28 := by
  unfold hash28 hash28ByteBase16 at h
  split at h
  · rename_i hlength
    cases h
    exact ⟨rfl, hlength⟩
  · cases h

theorem hash28ByteBase16_ok (h : bytes.length = 28) : hash28ByteBase16 bytes = .ok bytes := if_pos h

theorem hash28_ok (h : bytes.length = 28) : hash28 bytes = .ok bytes := by
  rw [hash28, hash28ByteBase16_ok h]
  rfl

section Shelley

variable {type : AddressType} {data bytes : List UInt8} {props : AddressProps}

theorem packBase_unpackBase (htype : AddressType.ofNat? ((data.headD 0).toNat / 16) = some type)
    (h : unpackBase type data = .ok props) (hbytes : packBase props = .ok bytes) : bytes = data := by
  unfold unpackBase at h
  split at h
  · cases h
  · rename_i hlength
    obtain ⟨payment, hpayment, h⟩ := bind_ok h
    obtain ⟨delegation, hdelegation, h⟩ := bind_ok h
    obtain ⟨rfl, _⟩ := hash28_eq_ok hpayment
    obtain ⟨rfl, _⟩ := hash28_eq_ok hdelegation
    cases h
    cases hbytes
    rw [headerByte_of_unpacked htype rfl]
    obtain ⟨first, rest, rfl⟩ : ∃ first rest, data = first :: rest :=
      List.exists_cons_of_length_pos (by omega)
    rw [List.length_cons] at hlength
    simp only [List.headD_cons, List.drop_succ_cons, List.drop_zero, List.cons.injEq, true_and]
    have hrest : rest.drop 28 = (rest.drop 28).take 28 := by
      rw [List.take_of_length_le]
      rw [List.length_drop]
      omega
    rw [← hrest, List.take_append_drop]

theorem packPayment_unpackPayment {script : AddressType}
    (htype : AddressType.ofNat? ((data.headD 0).toNat / 16) = some type)
    (h : unpackPayment script type data = .ok props) (hbytes : packPayment props = .ok bytes) :
    bytes = data := by
  unfold unpackPayment at h
  split at h
  · cases h
  · rename_i hlength
    obtain ⟨payment, hpayment, h⟩ := bind_ok h
    obtain ⟨rfl, _⟩ := hash28_eq_ok hpayment
    cases h
    cases hbytes
    rw [headerByte_of_unpacked htype rfl]
    obtain ⟨first, rest, rfl⟩ : ∃ first rest, data = first :: rest :=
      List.exists_cons_of_length_pos (by omega)
    rw [List.length_cons] at hlength
    simp only [List.headD_cons, List.drop_succ_cons, List.drop_zero, List.cons.injEq, true_and]
    exact List.take_of_length_le (by omega)

theorem unpackPointer_packPointer
    (htype : AddressType.ofNat? ((data.headD 0).toNat / 16) = some type)
    (h : unpackPointer type data = .ok props) (hbytes : packPointer props = .ok bytes) :
    bytes.headD 0 = data.headD 0 ∧ unpackPointer type bytes = .ok props := by
  unfold unpackPointer at h
  split at h
  · cases h
  · obtain ⟨payment, hpayment, h⟩ := bind_ok h
    obtain ⟨hsame, hlength⟩ := hash28_eq_ok hpayment
    rw [← hsame] at hlength
    generalize variableLengthDecode (data.drop 29) = slot at h
    obtain ⟨slot, slotBytes⟩ := slot
    dsimp only at h
    generalize variableLengthDecode (data.drop (29 + slotBytes)) = txIndex at h
    obtain ⟨txIndex, txIndexBytes⟩ := txIndex
    dsimp only at h
    generalize variableLengthDecode (data.drop (29 + slotBytes + txIndexBytes)) = certIndex at h
    obtain ⟨certIndex, _⟩ := certIndex
    cases h
    obtain ⟨pointer, hpointer, hbytes⟩ := bind_ok hbytes
    cases hpointer
    obtain ⟨credential, hcredential, hbytes⟩ := bind_ok hbytes
    cases hcredential
    obtain ⟨txNumber, htx, hbytes⟩ := bind_ok hbytes
    obtain ⟨certNumber, hcert, hbytes⟩ := bind_ok hbytes
    have htx' : toIndex txIndex = some txNumber := by
      cases hindex : toIndex txIndex with
      | none =>
        rw [hindex] at htx
        cases htx
      | some number =>
        rw [hindex] at htx
        cases htx
        rfl
    have hcert' : toIndex certIndex = some certNumber := by
      cases hindex : toIndex certIndex with
      | none =>
        rw [hindex] at hcert
        cases hcert
      | some number =>
        rw [hindex] at hcert
        cases hcert
        rfl
    cases hbytes
    rw [htx', hcert', headerByte_of_unpacked htype rfl]
    refine ⟨rfl, ?_⟩
    have hslotPos := variableLengthEncode_length slot
    unfold unpackPointer
    rw [if_neg (by simp only [List.length_cons, List.length_append]; omega)]
    have hpaymentPart : ((data.headD 0 :: (payment ++ (variableLengthEncode slot ++
        (variableLengthEncode txNumber ++ variableLengthEncode certNumber)))).drop 1).take 28 =
        payment := by
      rw [List.drop_succ_cons, List.drop_zero, ← hlength, List.take_left]
    have hslotPart : (data.headD 0 :: (payment ++ (variableLengthEncode slot ++
        (variableLengthEncode txNumber ++ variableLengthEncode certNumber)))).drop 29 =
        variableLengthEncode slot ++
          (variableLengthEncode txNumber ++ variableLengthEncode certNumber) := by
      rw [List.drop_succ_cons, ← hlength, List.drop_left]
    have hhash := hash28_ok hlength
    rw [hpaymentPart, hhash, hslotPart, variableLengthDecode_encode]
    dsimp only [bind, Except.bind]
    rw [← List.drop_drop, hslotPart, List.drop_left, variableLengthDecode_encode]
    dsimp only
    rw [← List.drop_drop, ← List.drop_drop, hslotPart, List.drop_left, List.drop_left]
    have hlast := variableLengthDecode_encode certNumber []
    rw [List.append_nil] at hlast
    rw [hlast]
    dsimp only
    rw [toIndex_of_toIndex htx', toIndex_of_toIndex hcert']
    rfl

end Shelley

def attributeBytes (key : ℤ) : Option (List UInt8) → List UInt8
  | some encoded => encodeInt key ++ encodeChunk encoded
  | none => []

theorem writesWhen_attribute {key : ℤ} (hlower : -(2 ^ 64) ≤ key) (hupper : key < 2 ^ 64)
    (encoded : Option (List UInt8)) :
    WritesWhen (∀ value ∈ encoded, value.length < 2 ^ 64) (writeAttribute key encoded)
      (attributeBytes key encoded) := by
  cases encoded with
  | none => exact ⟨fun _ => Writes.pure, fun h => absurd (by simp) h⟩
  | some value =>
    have h := (writes_int hlower hupper).always.bind (writesWhen_byteString value)
    refine ⟨fun hall => h.writes ?_, fun hnot => h.throws ?_⟩
    · exact ⟨trivial, hall value rfl, trivial⟩
    · rintro ⟨_, hlength, _⟩
      apply hnot
      rintro other hother
      cases hother
      exact hlength

theorem encodeOptional_eq_ok {α : Type} {write : α → WriteM Unit} {condition : α → Prop}
    {encode : α → List UInt8} (h : ∀ a, WritesWhen (condition a) (write a) (encode a))
    {value : Option α} {encoded : Option (List UInt8)}
    (hencoded : encodeOptional write value = .ok encoded) :
    encoded = value.map encode ∧ ∀ a ∈ value, condition a := by
  cases value with
  | none =>
    cases hencoded
    exact ⟨rfl, by simp⟩
  | some a =>
    obtain ⟨bytes, hbytes, hencoded⟩ := bind_ok hencoded
    obtain ⟨hcondition, rfl⟩ := encodeWith_eq_ok (h a) hbytes
    cases hencoded
    refine ⟨rfl, ?_⟩
    rintro other hother
    cases hother
    exact hcondition

/-- The attributes that are written: an empty path and the magic zero are not. -/
def ByronAttributes.written (attrs : ByronAttributes) : ByronAttributes where
  derivationPath := truthy attrs.derivationPath
  magic := truthyNumber attrs.magic

theorem written_written (attrs : ByronAttributes) : attrs.written.written = attrs.written := by
  obtain ⟨path, magic⟩ := attrs
  have hpath : truthy (truthy path) = truthy path := by
    rcases path with _ | _ | ⟨byte, bytes⟩ <;> rfl
  have hmagic : truthyNumber (truthyNumber magic) = truthyNumber magic := by
    cases magic with
    | none => rfl
    | some number =>
      by_cases hzero : number = 0
      · rw [hzero]
        rfl
      · have hsome : truthyNumber (some number) = some number := by
          simp [truthyNumber, hzero]
        rw [hsome, hsome]
  rw [ByronAttributes.written, ByronAttributes.written, hpath, hmagic]

def attributesBytes (attrs : ByronAttributes) : List UInt8 :=
  attributeBytes 1 (attrs.derivationPath.map encodeChunk) ++
    attributeBytes 2 (attrs.magic.map encodeInt)

def attributesCount (attrs : ByronAttributes) : ℕ :=
  attrs.derivationPath.toList.length + attrs.magic.toList.length

def byronDataBytes (content : ByronAddressContent) : List UInt8 :=
  encodeHead .array 3 ++ (encodeChunk content.root ++
    ((encodeHead .map (attributesCount content.attrs.written) ++
      attributesBytes content.attrs.written) ++ encodeInt content.type))

/-- What a content must be like to be written: numbers have 64 bits and a sign. -/
structure ByronAddressContent.Written (content : ByronAddressContent) : Prop where
  path : ∀ path ∈ content.attrs.written.derivationPath, path.length < 2 ^ 64
  magic : ∀ magic ∈ content.attrs.written.magic, -(2 ^ 64) ≤ magic ∧ magic < 2 ^ 64
  type : -(2 ^ 64) ≤ content.type ∧ content.type < 2 ^ 64

theorem byronAddressData_eq_ok (h : byronAddressData content = .ok data) :
    content.Written ∧ data = byronDataBytes content := by
  obtain ⟨path, hpath, h⟩ := bind_ok h
  obtain ⟨magic, hmagic, h⟩ := bind_ok h
  obtain ⟨rfl, hpathShort⟩ := encodeOptional_eq_ok (fun a => writesWhen_byteString a) hpath
  obtain ⟨rfl, hmagicRange⟩ := encodeOptional_eq_ok (fun a => writesWhen_int a) hmagic
  have hwrites := (writesWhen_typeValue .array 3).bind ((writesWhen_byteString content.root).bind
    ((writesWhen_typeValue .map (attributesCount content.attrs.written)).bind
      ((@writesWhen_attribute 1 (by decide) (by decide)
          (content.attrs.written.derivationPath.map encodeChunk)).bind
        ((@writesWhen_attribute 2 (by decide) (by decide)
            (content.attrs.written.magic.map encodeInt)).bind
          (writesWhen_int content.type)))))
  have hcount : attributesCount content.attrs.written =
      ((truthy content.attrs.derivationPath).map fun a =>
        encodeHead .byteString a.length ++ a).toList.length +
      ((truthyNumber content.attrs.magic).map encodeInt).toList.length := by
    unfold attributesCount ByronAttributes.written
    cases truthy content.attrs.derivationPath <;> cases truthyNumber content.attrs.magic <;> rfl
  rw [← hcount] at h
  obtain ⟨hcondition, hdata⟩ := encodeWith_eq_ok hwrites h
  refine ⟨⟨fun path hmem => (hpathShort path hmem).1, hmagicRange, hcondition.2.2.2.2.2⟩, ?_⟩
  rw [hdata, byronDataBytes, attributesBytes]
  simp only [List.append_assoc, encodeChunk]

theorem rounds_attributes {attrs : ByronAttributes}
    (hpath : ∀ path ∈ attrs.derivationPath, path.length < 2 ^ 64)
    (hmagic : ∀ magic ∈ attrs.magic,
      (-(2 ^ 64) ≤ magic ∧ magic < 2 ^ 64) ∧ toNumber magic = magic)
    (hlength : (attributesBytes attrs).length < 2 ^ 53) :
    Rounds byronAttribute {} (2 * attributesCount attrs) (attributesBytes attrs) attrs := by
  obtain ⟨path, magic⟩ := attrs
  rw [attributesBytes, List.length_append] at hlength
  have hfirst : Rounds byronAttribute {} (2 * path.toList.length)
      (attributeBytes 1 (path.map encodeChunk)) { derivationPath := path } := by
    cases path with
    | none => exact Rounds.nil _
    | some path =>
      have hencoded : (encodeChunk path).length < 2 ^ 53 := by
        simp only [Option.map_some, attributeBytes, List.length_append, encodeChunk] at hlength ⊢
        omega
      have hinner := (readsItem_byteString (hpath path rfl)).decodeWith hencoded
      have hvalue : Reads (reading readByteString >>= fun cborBytes =>
          decoding (decodeWith cborBytes (reading readByteString)) >>= fun path =>
            (pure { derivationPath := some path } : DecodeM ByronAttributes)) 1
          (encodeChunk (encodeChunk path)) { derivationPath := some path } := by
        apply (readsItem_byteString (by omega)).last
        intro reader
        rw [run_bind_ok (decoding_ok hinner)]
        rfl
      have hround : ReadsRound (byronAttribute {}) (1 + 1)
          (encodeInt 1 ++ encodeChunk (encodeChunk path)) { derivationPath := some path } := by
        refine readsRound (@dataItem_encodeInt 1 (by decide) (by decide))
          (readsItem_int (by decide) (by decide)) ?_
        rw [if_pos rfl]
        exact hvalue
      exact Rounds.single hround
  have hsecond : Rounds byronAttribute { derivationPath := path } (2 * magic.toList.length)
      (attributeBytes 2 (magic.map encodeInt)) { derivationPath := path, magic := magic } := by
    cases magic with
    | none => exact Rounds.nil _
    | some magic =>
      obtain ⟨⟨hlower, hupper⟩, hnumber⟩ := hmagic magic rfl
      have hencoded : (encodeInt magic).length < 2 ^ 53 := by
        simp only [Option.map_some, attributeBytes, List.length_append, encodeChunk] at hlength
        omega
      have hinner := (readsItem_int hlower hupper).decodeWith hencoded
      have hvalue : Reads (reading readByteString >>= fun cborBytes =>
          decoding (decodeWith cborBytes (reading readInt)) >>= fun magic =>
            (pure { derivationPath := path, magic := some (toNumber magic) } :
              DecodeM ByronAttributes)) 1
          (encodeChunk (encodeInt magic)) { derivationPath := path, magic := some magic } := by
        apply (readsItem_byteString (by omega)).last
        intro reader
        rw [run_bind_ok (decoding_ok hinner), hnumber]
        rfl
      have hround : ReadsRound (byronAttribute { derivationPath := path }) (1 + 1)
          (encodeInt 2 ++ encodeChunk (encodeInt magic))
          { derivationPath := path, magic := some magic } := by
        refine readsRound (@dataItem_encodeInt 2 (by decide) (by decide))
          (readsItem_int (by decide) (by decide)) ?_
        rw [if_neg (by decide), if_pos rfl]
        exact hvalue
      exact Rounds.single hround
  have hboth := hfirst.trans hsecond
  rwa [← Nat.mul_add] at hboth

theorem attributesCount_le (attrs : ByronAttributes) :
    2 * attributesCount attrs ≤ (attributesBytes attrs).length := by
  obtain ⟨path, magic⟩ := attrs
  have hint : ∀ key : ℤ, 0 < (encodeInt key).length := by
    intro key
    unfold encodeInt
    split <;> exact encodeHead_length_pos _ _
  have hpart : ∀ (key : ℤ) (encoded : Option (List UInt8)),
      2 * encoded.toList.length ≤ (attributeBytes key encoded).length := by
    intro key encoded
    cases encoded with
    | none => exact Nat.zero_le _
    | some value =>
      have hkey := hint key
      have hhead := encodeHead_length_pos .byteString value.length
      simp only [Option.toList_some, List.length_singleton, attributeBytes, List.length_append,
        encodeChunk]
      omega
  have hpath := hpart 1 (path.map encodeChunk)
  have hmagic := hpart 2 (magic.map encodeInt)
  rw [attributesBytes, List.length_append, attributesCount]
  cases path <;> cases magic <;> simp_all <;> omega

/-- A content whose root is a hash and whose numbers went through `Number`. -/
structure ByronAddressContent.Unpacked (content : ByronAddressContent) : Prop where
  root : content.root.length = 28
  magic : ∀ magic ∈ content.attrs.magic, toNumber magic = magic
  type : toNumber content.type = content.type

theorem byronAttribute_returns (attrs : ByronAttributes)
    (h : ∀ magic ∈ attrs.magic, toNumber magic = magic) :
    Returns (byronAttribute attrs) fun attrs => ∀ magic ∈ attrs.magic, toNumber magic = magic := by
  refine Returns.read fun key => ?_
  split
  · exact Returns.read fun _ => Returns.decode fun _ _ => Returns.pure h
  · split
    · refine Returns.read fun _ => Returns.decode fun magic _ => Returns.pure ?_
      rintro other hother
      cases hother
      exact toNumber_toNumber magic
    · exact Returns.pure h

theorem unpacked_of_unpackByron (h : unpackByron text data = .ok content) : content.Unpacked := by
  obtain ⟨encoded, _, h⟩ := bind_ok h
  refine @Returns.decodeWith _ ByronAddressContent.Unpacked _ ?_ _ _ h
  refine Returns.read fun _ => Returns.read fun bytes => Returns.decode fun root hroot => ?_
  have hattrs : Returns (readFields byronAttribute (encoded.length + 1) {})
      fun attrs => ∀ magic ∈ attrs.magic, toNumber magic = magic := by
    refine Returns.read fun _ => Returns.bind
      (untilEnd_returns byronAttribute_returns _ (by simp)) fun attrs hattrs => ?_
    exact Returns.read fun _ => Returns.pure hattrs
  refine Returns.bind hattrs fun attrs hmagic => Returns.read fun type => Returns.pure ?_
  obtain ⟨rfl, hlength⟩ := hash28_eq_ok hroot
  exact ⟨hlength, hmagic, toNumber_toNumber type⟩

theorem magic_of_written (h : content.Unpacked) :
    ∀ magic ∈ content.attrs.written.magic, toNumber magic = magic := by
  intro magic hmagic
  apply h.magic
  unfold ByronAttributes.written at hmagic
  cases hattr : content.attrs.magic with
  | none =>
    rw [hattr] at hmagic
    cases hmagic
  | some number =>
    rw [hattr] at hmagic
    by_cases hzero : number = 0
    · rw [hzero] at hmagic
      cases hmagic
    · simpa [truthyNumber, hzero] using hmagic

theorem unpackByronData_ok (hunpacked : content.Unpacked) (hwritten : content.Written)
    (hlength : (byronDataBytes content).length < 2 ^ 53) :
    unpackByronData (byronDataBytes content) =
      .ok { content with attrs := content.attrs.written } := by
  have hhash := hash28_ok hunpacked.root
  have hparts : (attributesBytes content.attrs.written).length < (byronDataBytes content).length := by
    have hhead := encodeHead_length_pos .array 3
    rw [byronDataBytes]
    simp only [List.length_append]
    omega
  have hrounds := rounds_attributes hwritten.path
    (fun magic hmem => ⟨hwritten.magic magic hmem, magic_of_written hunpacked magic hmem⟩)
    (by omega)
  have hfields := readsItem_fields hrounds (attributesCount_le _)
    (show _ < (byronDataBytes content).length + 1 by omega)
  have htype : ∀ attrs : ByronAttributes, Reads (reading readInt >>= fun type =>
      (pure { root := content.root, attrs := attrs, type := toNumber type } :
        DecodeM ByronAddressContent)) 1 (encodeInt content.type)
      { root := content.root, attrs := attrs, type := content.type } := by
    intro attrs
    apply (readsItem_int hwritten.type.1 hwritten.type.2).last
    intro reader
    rw [hunpacked.type]
    rfl
  have hroot : content.root.length < 2 ^ 64 := by
    rw [hunpacked.root]
    decide
  have hbody : Reads (reading readByteString >>= fun bytes => decoding (hash28 bytes) >>= fun root =>
      readFields byronAttribute ((byronDataBytes content).length + 1) {} >>= fun attrs =>
      reading readInt >>= fun type =>
      (pure { root := root, attrs := attrs, type := toNumber type } :
        DecodeM ByronAddressContent)) (1 + (1 + 1))
      (encodeChunk content.root ++ ((encodeHead .map (attributesCount content.attrs.written) ++
        attributesBytes content.attrs.written) ++ encodeInt content.type))
      { content with attrs := content.attrs.written } :=
    (readsItem_byteString hroot).bind
      (Reads.decode hhash (hfields.bind (htype content.attrs.written)))
  exact decodeWith_array (by decide) hlength hbody

theorem unpackByron_packByron (hunpacked : content.Unpacked)
    (hbytes : packByron text content = .ok bytes) (hlength : bytes.length < 2 ^ 53) :
    bytes.headD 0 = 130 ∧
      unpackByron text bytes = .ok { content with attrs := content.attrs.written } := by
  obtain ⟨data, hdata, hbytes⟩ := bind_ok hbytes
  obtain ⟨hwritten, rfl⟩ := byronAddressData_eq_ok hdata
  have hcrc := (text.crc32 (byronDataBytes content)).toNat_lt
  have hwrites := (writesWhen_typeValue .array 2).bind
    ((writesWhen_typeValue .tag encodedCborDataItemTag).bind
      ((writesWhen_byteString (byronDataBytes content)).bind
        (writesWhen_int (text.crc32 (byronDataBytes content)).toNat)))
  obtain ⟨_, rfl⟩ := encodeWith_eq_ok hwrites hbytes
  have hshort : (byronDataBytes content).length < 2 ^ 53 := by
    simp only [List.length_append] at hlength
    omega
  have hchecksum : Reads (reading readInt >>= fun checksum =>
      if toNumber checksum ≠ (text.crc32 (byronDataBytes content)).toNat then
        (throw (invalidData "Invalid Byron raw data. Checksum doesnt match.") : DecodeM (List UInt8))
      else pure (byronDataBytes content)) 1
      (encodeInt (text.crc32 (byronDataBytes content)).toNat) (byronDataBytes content) := by
    apply (readsItem_int (by omega) (by omega)).last
    intro reader
    rw [toNumber_of_lt (by omega), if_neg (by simp)]
    rfl
  have hdata : ReadsItem (reading readByteString) (encodeChunk (byronDataBytes content))
      (byronDataBytes content) := readsItem_byteString (by omega)
  have hbody : Reads (reading readTag >>= fun _ => reading readByteString >>= fun encoded =>
      reading readInt >>= fun checksum =>
      if toNumber checksum ≠ (text.crc32 encoded).toNat then
        (throw (invalidData "Invalid Byron raw data. Checksum doesnt match.") : DecodeM (List UInt8))
      else pure encoded) (1 + 1)
      (encodeHead .tag encodedCborDataItemTag ++ (encodeChunk (byronDataBytes content) ++
        encodeInt (text.crc32 (byronDataBytes content)).toNat)) (byronDataBytes content) :=
    reads_tag (by decide) rfl hdata hchecksum
  have hdecode := @decodeWith_array _ (fun _ => _) _ _ _ (by decide) hlength hbody
  refine ⟨rfl, ?_⟩
  rw [unpackByron]
  exact (congrArg (fun result => result >>= unpackByronData) hdecode).trans
    (unpackByronData_ok hunpacked hwritten hshort)

theorem packByron_written (text : TextEncodings) (content : ByronAddressContent) :
    packByron text { content with attrs := content.attrs.written } = packByron text content := by
  have hsame := written_written content.attrs
  rw [ByronAttributes.mk.injEq] at hsame
  unfold packByron byronAddressData
  dsimp only
  have hpath : truthy content.attrs.written.derivationPath =
      truthy content.attrs.derivationPath := hsame.1
  have hmagic : truthyNumber content.attrs.written.magic =
      truthyNumber content.attrs.magic := hsame.2
  rw [hpath, hmagic]

theorem shape_of_fromBytes (htype : AddressType.ofNat? ((data.headD 0).toNat / 16) = some type)
    (h : AddressProps.fromBytes text data = .ok props) : props.type = type ∧
      (type ≠ .byron → props.networkId = some (networkOf data) ∧ props.byronAddressContent = none) := by
  have hbase : ∀ type, unpackBase type data = .ok props → props.type = type ∧ (type ≠ .byron →
      props.networkId = some (networkOf data) ∧ props.byronAddressContent = none) := by
    intro type hunpack
    unfold unpackBase at hunpack
    split at hunpack
    · cases hunpack
    · obtain ⟨_, _, hunpack⟩ := bind_ok hunpack
      obtain ⟨_, _, hunpack⟩ := bind_ok hunpack
      cases hunpack
      exact ⟨rfl, fun _ => ⟨rfl, rfl⟩⟩
  have hpayment : ∀ script type, unpackPayment script type data = .ok props → props.type = type ∧
      (type ≠ .byron →
        props.networkId = some (networkOf data) ∧ props.byronAddressContent = none) := by
    intro script type hunpack
    unfold unpackPayment at hunpack
    split at hunpack
    · cases hunpack
    · obtain ⟨_, _, hunpack⟩ := bind_ok hunpack
      cases hunpack
      exact ⟨rfl, fun _ => ⟨rfl, rfl⟩⟩
  have hpointer : ∀ type, unpackPointer type data = .ok props → props.type = type ∧
      (type ≠ .byron →
        props.networkId = some (networkOf data) ∧ props.byronAddressContent = none) := by
    intro type hunpack
    unfold unpackPointer at hunpack
    split at hunpack
    · cases hunpack
    · obtain ⟨_, _, hunpack⟩ := bind_ok hunpack
      cases hunpack
      exact ⟨rfl, fun _ => ⟨rfl, rfl⟩⟩
  rw [AddressProps.fromBytes, htype] at h
  cases type with
  | byron =>
    obtain ⟨_, _, h⟩ := bind_ok h
    cases h
    exact ⟨rfl, fun hbyron => absurd rfl hbyron⟩
  | pointerKey => exact hpointer _ h
  | pointerScript => exact hpointer _ h
  | enterpriseKey => exact hpayment _ _ h
  | enterpriseScript => exact hpayment _ _ h
  | rewardKey => exact hpayment _ _ h
  | rewardScript => exact hpayment _ _ h
  | basePaymentKeyStakeKey => exact hbase _ h
  | basePaymentScriptStakeKey => exact hbase _ h
  | basePaymentKeyStakeScript => exact hbase _ h
  | basePaymentScriptStakeScript => exact hbase _ h

theorem type_of_fromBytes (htype : AddressType.ofNat? ((data.headD 0).toNat / 16) = some type)
    (h : AddressProps.fromBytes text data = .ok props) : props.type = type :=
  (shape_of_fromBytes htype h).1

def AddressProps.written (props : AddressProps) : AddressProps :=
  { props with byronAddressContent := props.byronAddressContent.map fun content =>
      { content with attrs := content.attrs.written } }

theorem toBytes_written (text : TextEncodings) (props : AddressProps) :
    props.written.toBytes text = props.toBytes text := by
  obtain ⟨type, networkId, pointer, payment, delegation, content⟩ := props
  cases type with
  | byron =>
    cases content with
    | none => rfl
    | some content =>
      change (packByron text { content with attrs := content.attrs.written }).mapError _ =
        (packByron text content).mapError _
      rw [packByron_written]
  | _ => rfl

theorem toText_written (text : TextEncodings) (props : AddressProps) :
    props.written.toText text = props.toText text := by
  unfold AddressProps.toText AddressProps.toBase58 AddressProps.toBech32
  rw [toBytes_written]
  rfl

theorem fromBytes_toBytes (h : AddressProps.fromBytes text data = .ok props)
    (hbytes : props.toBytes text = .ok bytes) (hlength : bytes.length < 2 ^ 53) :
    AddressProps.fromBytes text bytes = .ok props.written := by
  cases htype : AddressType.ofNat? ((data.headD 0).toNat / 16) with
  | none =>
    rw [AddressProps.fromBytes, htype] at h
    cases h
  | some type =>
    obtain ⟨hprops, hshape⟩ := shape_of_fromBytes htype h
    have hwritten : type ≠ .byron → props.written = props := by
      intro hshelley
      rw [AddressProps.written, (hshape hshelley).2, Option.map_none, ← (hshape hshelley).2]
    have hsame : type ≠ .byron → bytes = data →
        AddressProps.fromBytes text bytes = .ok props.written := by
      rintro hshelley rfl
      rw [hwritten hshelley]
      exact h
    have hbase : unpackBase type data = .ok props → packBase props = .ok bytes → bytes = data :=
      fun hunpack hpack => packBase_unpackBase htype hunpack hpack
    have hpayment : ∀ script, unpackPayment script type data = .ok props →
        packPayment props = .ok bytes → bytes = data :=
      fun script hunpack hpack => packPayment_unpackPayment htype hunpack hpack
    have hpointer : unpackPointer type data = .ok props → packPointer props = .ok bytes →
        bytes.headD 0 = data.headD 0 ∧ unpackPointer type bytes = .ok props :=
      fun hunpack hpack => unpackPointer_packPointer htype hunpack hpack
    rw [AddressProps.toBytes, hprops] at hbytes
    rw [AddressProps.fromBytes, htype] at h
    cases type with
    | basePaymentKeyStakeKey => exact hsame (by decide) (hbase h hbytes)
    | basePaymentScriptStakeKey => exact hsame (by decide) (hbase h hbytes)
    | basePaymentKeyStakeScript => exact hsame (by decide) (hbase h hbytes)
    | basePaymentScriptStakeScript => exact hsame (by decide) (hbase h hbytes)
    | enterpriseKey => exact hsame (by decide) (hpayment _ h hbytes)
    | enterpriseScript => exact hsame (by decide) (hpayment _ h hbytes)
    | rewardKey => exact hsame (by decide) (hpayment _ h hbytes)
    | rewardScript => exact hsame (by decide) (hpayment _ h hbytes)
    | pointerKey =>
      obtain ⟨hhead, hunpack⟩ := hpointer h hbytes
      rw [AddressProps.fromBytes, hhead, htype, hwritten (by decide)]
      exact hunpack
    | pointerScript =>
      obtain ⟨hhead, hunpack⟩ := hpointer h hbytes
      rw [AddressProps.fromBytes, hhead, htype, hwritten (by decide)]
      exact hunpack
    | byron =>
      obtain ⟨content, hcontent, h⟩ := bind_ok h
      cases h
      have hpack : packByron text content = .ok bytes := mapError_eq_ok_iff.mp hbytes
      obtain ⟨hhead, hunpack⟩ :=
        unpackByron_packByron (unpacked_of_unpackByron hcontent) hpack hlength
      rw [AddressProps.fromBytes, hhead]
      change (unpackByron text bytes >>= _) = _
      rw [hunpack]
      rfl

end CardanoSdk.Cardano
