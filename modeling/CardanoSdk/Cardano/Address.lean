import CardanoSdk.Serialization.Decoding
import CardanoSdk.Serialization.Encoding
import CardanoSdk.TxConstruction.SelectionConstraints

/-!
Addresses of `core/src/Cardano/Address`. `AddressProps` may lack parts that its type asks
for. The text encodings and the checksum of other packages stand in `TextEncodings`.
-/

namespace CardanoSdk.Cardano

open Lib Cbor Plutus Serialization
open TxConstruction (Credential CredentialType Hash)

inductive AddressType where
  | basePaymentKeyStakeKey
  | basePaymentScriptStakeKey
  | basePaymentKeyStakeScript
  | basePaymentScriptStakeScript
  | pointerKey
  | pointerScript
  | enterpriseKey
  | enterpriseScript
  | byron
  | rewardKey
  | rewardScript
  deriving DecidableEq

def AddressType.toNat : AddressType → ℕ
  | .basePaymentKeyStakeKey => 0
  | .basePaymentScriptStakeKey => 1
  | .basePaymentKeyStakeScript => 2
  | .basePaymentScriptStakeScript => 3
  | .pointerKey => 4
  | .pointerScript => 5
  | .enterpriseKey => 6
  | .enterpriseScript => 7
  | .byron => 8
  | .rewardKey => 14
  | .rewardScript => 15

def AddressType.ofNat? : ℕ → Option AddressType
  | 0 => some .basePaymentKeyStakeKey
  | 1 => some .basePaymentScriptStakeKey
  | 2 => some .basePaymentKeyStakeScript
  | 3 => some .basePaymentScriptStakeScript
  | 4 => some .pointerKey
  | 5 => some .pointerScript
  | 6 => some .enterpriseKey
  | 7 => some .enterpriseScript
  | 8 => some .byron
  | 14 => some .rewardKey
  | 15 => some .rewardScript
  | _ => none

/-- An index went through `Number`; without a value it is infinite. -/
structure Pointer where
  slot : ℕ
  txIndex : Option ℕ
  certIndex : Option ℕ
  deriving DecidableEq

structure ByronAttributes where
  derivationPath : Option (List UInt8) := none
  magic : Option ℤ := none
  deriving DecidableEq

structure ByronAddressContent where
  root : Hash
  attrs : ByronAttributes
  type : ℤ
  deriving DecidableEq

structure AddressProps where
  type : AddressType
  networkId : Option ℕ := none
  pointer : Option Pointer := none
  paymentPart : Option Credential := none
  delegationPart : Option Credential := none
  byronAddressContent : Option ByronAddressContent := none
  deriving DecidableEq

/-- The text encodings of an address, which may refuse, and the checksum. -/
structure TextEncodings where
  bech32Encode : String → List UInt8 → Option String
  bech32Decode : String → Option (List UInt8)
  base58Encode : List UInt8 → String
  base58Decode : String → Option (List UInt8)
  crc32 : List UInt8 → UInt32

/-- `Number` of a natural `bigint`. -/
def toIndex (value : ℕ) : Option ℕ :=
  if roundToDouble value < 2 ^ 1024 then some (roundToDouble value) else none

/-- `Number` of a `bigint` that came from 64 bits and a sign. -/
def toNumber (value : ℤ) : ℤ :=
  if value < 0 then -(roundToDouble value.natAbs : ℤ) else (roundToDouble value.natAbs : ℤ)

theorem toNumber_of_natAbs_lt {value : ℤ} (h : value.natAbs < 2 ^ 53) : toNumber value = value := by
  rw [toNumber, roundToDouble_of_lt h]
  split <;> omega

/-- Zero is falsy. -/
def truthyNumber : Option ℤ → Option ℤ
  | some 0 => none
  | value => value

/-- The groups of seven bits above the lowest one, with their continuation bits. -/
def upperGroups : ℕ → ℕ → List UInt8
  | 0, _ => []
  | rounds + 1, val =>
    upperGroups rounds (val >>> 7) ++ [UInt8.ofNat ((val >>> 7) % 128 + 128)]

/-- `val.toString(2).length` -/
def bitLength (val : ℕ) : ℕ := Nat.log2 val + 1

def variableLengthEncode (val : ℕ) : List UInt8 :=
  upperGroups ((bitLength val - 1) / 7) val ++ [UInt8.ofNat (val % 128)]

def variableLengthDecodeFrom : List UInt8 → ℕ → ℕ → ℕ × ℕ
  | [], value, bytesRead => (value, bytesRead)
  | byte :: rest, value, bytesRead =>
    let value' := value * 128 + byte.toNat % 128
    if 128 ≤ byte.toNat then variableLengthDecodeFrom rest value' (bytesRead + 1)
    else (value', bytesRead + 1)

def variableLengthDecode (array : List UInt8) : ℕ × ℕ := variableLengthDecodeFrom array 0 0

def required {α : Type} : Option α → Except EncodeException α
  | some value => .ok value
  | none => .error .undefinedAccess

/-- `BigInt` of an index. -/
def fromIndex : Option ℕ → Except EncodeException ℕ
  | some value => .ok value
  | none => .error (.range .outOfRange)

/-- The type in the upper half, the network in the lower one. -/
def headerByte (props : AddressProps) : UInt8 :=
  UInt8.ofNat (props.type.toNat <<< 4 ||| props.networkId.getD 0)

def packBase (props : AddressProps) : Except EncodeException (List UInt8) := do
  let payment ← required props.paymentPart
  let delegation ← required props.delegationPart
  return headerByte props :: (payment.hash ++ delegation.hash)

def packPointer (props : AddressProps) : Except EncodeException (List UInt8) := do
  let pointer ← required props.pointer
  let payment ← required props.paymentPart
  let txIndex ← fromIndex pointer.txIndex
  let certIndex ← fromIndex pointer.certIndex
  return headerByte props :: (payment.hash ++ (variableLengthEncode pointer.slot ++
    (variableLengthEncode txIndex ++ variableLengthEncode certIndex)))

/-- `EnterpriseAddress.packParts` and `RewardAddress.packParts` -/
def packPayment (props : AddressProps) : Except EncodeException (List UInt8) := do
  let payment ← required props.paymentPart
  return headerByte props :: payment.hash

/-- `CborTag.EncodedCborDataItem` -/
def encodedCborDataItemTag : ℕ := 24

/-- An attribute stands under its key as a byte string of its own encoding. -/
def writeAttribute (key : ℤ) : Option (List UInt8) → WriteM Unit
  | some encoded => do
      writeInt key
      writeByteString encoded
  | none => pure ()

def encodeOptional {α : Type} (write : α → WriteM Unit) :
    Option α → Except RangeError (Option (List UInt8))
  | some value => do
      let encoded ← encodeWith (write value)
      return some encoded
  | none => .ok none

def byronAddressData (content : ByronAddressContent) : Except RangeError (List UInt8) := do
  let path ← encodeOptional writeByteString (truthy content.attrs.derivationPath)
  let magic ← encodeOptional writeInt (truthyNumber content.attrs.magic)
  encodeWith do
    writeStartArray (some 3)
    writeByteString content.root
    writeStartMap (some (path.toList.length + magic.toList.length))
    writeAttribute 1 path
    writeAttribute 2 magic
    writeInt content.type

def packByron (text : TextEncodings) (content : ByronAddressContent) :
    Except RangeError (List UInt8) := do
  let addressDataEncoded ← byronAddressData content
  encodeWith do
    writeStartArray (some 2)
    writeTag encodedCborDataItemTag
    writeByteString addressDataEncoded
    writeInt (text.crc32 addressDataEncoded).toNat

def AddressProps.toBytes (text : TextEncodings) (props : AddressProps) :
    Except EncodeException (List UInt8) :=
  match props.type with
  | .basePaymentKeyStakeKey | .basePaymentScriptStakeKey | .basePaymentKeyStakeScript
  | .basePaymentScriptStakeScript => packBase props
  | .pointerKey | .pointerScript => packPointer props
  | .enterpriseKey | .enterpriseScript | .rewardKey | .rewardScript => packPayment props
  | .byron => do
      let content ← required props.byronAddressContent
      (packByron text content).mapError .range

/-- The message of an `InvalidArgumentError`. -/
def invalidArgument (argName message : String) : String :=
  "Invalid argument '" ++ argName ++ "': " ++ message

def invalidData (message : String) : DecodeException := .error (invalidArgument "data" message)

/-- The message of an `InvalidStringError`. -/
def invalidString (expectation : String) : String :=
  "Invalid string: \"" ++ expectation ++ "\""

/-- `Hash28ByteBase16` of the text of the bytes. -/
def hash28ByteBase16 (bytes : List UInt8) : Except String Hash :=
  if bytes.length = 28 then .ok bytes
  else .error (invalidString ("expected length '56', got " ++ toString (2 * bytes.length)))

def hash28 (bytes : List UInt8) : Except DecodeException Hash :=
  (hash28ByteBase16 bytes).mapError .error

def networkOf (data : List UInt8) : ℕ := (data.headD 0).toNat % 16

def unpackBase (type : AddressType) (data : List UInt8) : Except DecodeException AddressProps :=
  if data.length ≠ 57 then
    .error (invalidData "Base address data length should be 57 bytes long.")
  else do
    let paymentCredential ← hash28 ((data.drop 1).take 28)
    let stakeCredential ← hash28 ((data.drop 29).take 28)
    return {
      type := type
      networkId := some (networkOf data)
      paymentPart := some {
        type := if type = .basePaymentScriptStakeKey ∨ type = .basePaymentScriptStakeScript then
          .scriptHash else .keyHash
        hash := paymentCredential }
      delegationPart := some {
        type := if type = .basePaymentKeyStakeScript ∨ type = .basePaymentScriptStakeScript then
          .scriptHash else .keyHash
        hash := stakeCredential } }

def unpackPointer (type : AddressType) (data : List UInt8) :
    Except DecodeException AddressProps :=
  if data.length ≤ 29 then
    .error (invalidData "Pointer address data length should greater than 29 bytes long.")
  else do
    let paymentCredential ← hash28 ((data.drop 1).take 28)
    let (slot, slotBytes) := variableLengthDecode (data.drop 29)
    let (txIndex, txIndexBytes) := variableLengthDecode (data.drop (29 + slotBytes))
    let (certIndex, _) := variableLengthDecode (data.drop (29 + slotBytes + txIndexBytes))
    return {
      type := type
      networkId := some (networkOf data)
      paymentPart := some {
        type := if type = .pointerScript then .scriptHash else .keyHash
        hash := paymentCredential }
      pointer := some { slot := slot, txIndex := toIndex txIndex, certIndex := toIndex certIndex } }

/-- `EnterpriseAddress.unpackParts` and `RewardAddress.unpackParts`, down to the message. -/
def unpackPayment (script : AddressType) (type : AddressType) (data : List UInt8) :
    Except DecodeException AddressProps :=
  if data.length ≠ 29 then
    .error (invalidData "Enterprise address data length should be 29 bytes long.")
  else do
    let paymentCredential ← hash28 ((data.drop 1).take 28)
    return {
      type := type
      networkId := some (networkOf data)
      paymentPart := some {
        type := if type = script then .scriptHash else .keyHash
        hash := paymentCredential } }

/-- An attribute is double encoded. Under an unknown key nothing is read. -/
def byronAttribute (attrs : ByronAttributes) : DecodeM ByronAttributes := do
  let key ← reading readInt
  if key = 1 then
    let cborBytes ← reading readByteString
    let path ← decoding (decodeWith cborBytes (reading readByteString))
    pure { attrs with derivationPath := some path }
  else if key = 2 then
    let cborBytes ← reading readByteString
    let magic ← decoding (decodeWith cborBytes (reading readInt))
    pure { attrs with magic := some (toNumber magic) }
  else pure attrs

def unpackByronData (addressDataEncoded : List UInt8) :
    Except DecodeException ByronAddressContent :=
  decodeWith addressDataEncoded do
    let _ ← reading readStartArray
    let bytes ← reading readByteString
    let root ← decoding (hash28 bytes)
    let attrs ← readFields byronAttribute (addressDataEncoded.length + 1) {}
    let type ← reading readInt
    pure { root := root, attrs := attrs, type := toNumber type }

def unpackByron (text : TextEncodings) (data : List UInt8) :
    Except DecodeException ByronAddressContent := do
  let addressDataEncoded ← decodeWith data do
    let _ ← reading readStartArray
    let _ ← reading readTag
    let addressDataEncoded ← reading readByteString
    let checksum ← reading readInt
    if toNumber checksum ≠ (text.crc32 addressDataEncoded).toNat then
      throw (invalidData "Invalid Byron raw data. Checksum doesnt match.")
    else pure addressDataEncoded
  unpackByronData addressDataEncoded

def AddressProps.fromBytes (text : TextEncodings) (data : List UInt8) :
    Except DecodeException AddressProps :=
  match AddressType.ofNat? ((data.headD 0).toNat / 16) with
  | some .byron => do
      let content ← unpackByron text data
      return { type := .byron, byronAddressContent := some content }
  | some .pointerKey => unpackPointer .pointerKey data
  | some .pointerScript => unpackPointer .pointerScript data
  | some .enterpriseKey => unpackPayment .enterpriseScript .enterpriseKey data
  | some .enterpriseScript => unpackPayment .enterpriseScript .enterpriseScript data
  | some .rewardKey => unpackPayment .rewardScript .rewardKey data
  | some .rewardScript => unpackPayment .rewardScript .rewardScript data
  | some type => unpackBase type data
  | none => .error (invalidData "Invalid address raw data")

/-- `getBech32Prefix` of a Shelley address. -/
def bech32Prefix (props : AddressProps) : String :=
  (if props.type = .rewardKey ∨ props.type = .rewardScript then "stake" else "addr") ++
    (if props.networkId = some 0 then "_test" else "")

def AddressProps.toBase58 (text : TextEncodings) (props : AddressProps) :
    Except EncodeException String :=
  if props.type ≠ .byron then .error (.error "Only Byron addresses will be encoded in base58")
  else do
    let bytes ← props.toBytes text
    return text.base58Encode bytes

def AddressProps.toBech32 (text : TextEncodings) (props : AddressProps) :
    Except EncodeException String := do
  let bytes ← props.toBytes text
  if props.type = .byron then
    .error (.error "Only Shelley addresses will be encoded in bech32")
  else match text.bech32Encode (bech32Prefix props) bytes with
    | some bech32 => .ok bech32
    | none => .error (.error "Exceeds length limit")

/-- The text that core types have for an address: base58 if `asByron` is defined. -/
def AddressProps.toText (text : TextEncodings) (props : AddressProps) :
    Except EncodeException String :=
  if props.type = .byron then props.toBase58 text else props.toBech32 text

def AddressProps.ofBytes? (text : TextEncodings) (data : Option (List UInt8)) :
    Option AddressProps :=
  data.bind fun data => (AddressProps.fromBytes text data).toOption

/-- `Address.fromString`: bech32, then base58 of a Byron address, then hexadecimal. -/
def AddressProps.fromString (text : TextEncodings) (address : String) : Option AddressProps :=
  match AddressProps.ofBytes? text (text.bech32Decode address) with
  | some props => some props
  | none =>
    match AddressProps.ofBytes? text (text.base58Decode address) with
    | some props =>
      if props.type = .byron then some props else AddressProps.ofBytes? text (ofHex? address)
    | none => AddressProps.ofBytes? text (ofHex? address)

end CardanoSdk.Cardano
