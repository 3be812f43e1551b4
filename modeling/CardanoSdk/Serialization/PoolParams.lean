import CardanoSdk.Serialization.KindRecords
import CardanoSdk.Serialization.SubTransactionBody

/-!
`PoolParams`, `PoolMetadata` and the relays of
`core/src/Serialization/Certificates/PoolParams`. The package that reads IP addresses, and
the check of the texts of accounts, are given.
-/

namespace CardanoSdk.Cardano

open TxConstruction (Hash)

structure Fraction where
  numerator : ℤ
  denominator : ℤ
  deriving DecidableEq

structure RelayByAddress where
  ipv4 : Option String := none
  ipv6 : Option String := none
  port : Option ℤ := none
  deriving DecidableEq

structure RelayByName where
  hostname : String
  port : Option ℤ := none
  deriving DecidableEq

structure RelayByNameMultihost where
  dnsName : String
  deriving DecidableEq

inductive Relay where
  | byAddress (relay : RelayByAddress)
  | byName (relay : RelayByName)
  | byNameMultihost (relay : RelayByNameMultihost)
  deriving DecidableEq

structure PoolMetadataJson where
  hash : Hash
  url : String
  deriving DecidableEq

/-- The bech32 text of a pool id. -/
abbrev PoolIdText := String

structure PoolParameters where
  id : PoolIdText
  rewardAccount : RewardAccountText
  pledge : ℤ
  cost : ℤ
  margin : Fraction
  metadataJson : Option PoolMetadataJson := none
  relays : List Relay
  owners : List RewardAccountText
  vrf : Hash
  deriving DecidableEq

end CardanoSdk.Cardano

namespace CardanoSdk.Serialization.PoolCodec

open Lib Cbor Plutus Cardano
open BodyCodec (fromBech32 textException)
open TxConstruction (Hash)

def textLength (text : String) : ℕ :=
  (text.toList.map fun char => if char.toNat < 2 ^ 16 then 1 else 2).sum

def maxTextLength : ℕ := 64

/-- A text that is too long is refused, with the name of the argument in the message. -/
def checkLength (argName text : String) : Except DecodeException Unit :=
  if textLength text > maxTextLength then
    .error (.error (invalidArgument argName (argName ++
      " must be less or equal to 64 characters long, actual size " ++ toString (textLength text))))
  else .ok ()

/-- An empty text is not truthy. -/
def truthyText (text : Option String) : Option String := text.filter fun text => text ≠ ""

/-- `Address4` and `Address6` of the package `ip-address`. An address of the
sixth version is given by its value. -/
structure IpAddressLibrary where
  isValid4 : String → Bool
  address6 : String → Option ℕ
  toUnsignedByteArray : ℕ → List UInt8
  fromUnsignedByteArray : List UInt8 → ℕ
  canonicalForm : ℕ → String

section Addresses

variable (ip : IpAddressLibrary)

/-- `Number.parseInt`: the digits that the text begins with. -/
def parseInt (text : List Char) : ℕ := Nat.ofDigitChars 10 (text.takeWhile Char.isDigit) 0

def ipV4StringToByteArray (address : String) : Except String (List UInt8) :=
  if ip.isValid4 address then
    .ok ((address.toList.splitOn '.').map fun segment => UInt8.ofNat (parseInt segment))
  else .error (invalidArgument "address" ("Invalid IP V4 string: " ++ address))

def dotted (octets : List UInt8) : String :=
  ".".intercalate (octets.map fun octet => octet.toNat.repr)

def byteArrayToIpV4String (byteArray : List UInt8) : Except DecodeException String :=
  if byteArray.length ≠ 4 then
    .error (.error (invalidArgument "byteArray"
      ("Invalid IP V4 byte array, expected 4 bytes, but got " ++ toString byteArray.length)))
  else .ok (dotted byteArray)

def ipV6StringToByteArray (address : String) : Except String (List UInt8) :=
  match ip.address6 address with
  | none => .error (invalidArgument "address" ("Invalid IP V6 string: " ++ address))
  | some value =>
    let addressV6 := ip.toUnsignedByteArray value
    .ok (List.replicate (16 - addressV6.length) 0 ++ addressV6)

def byteArrayToIPv6String (byteArray : List UInt8) : String :=
  ip.canonicalForm (ip.fromUnsignedByteArray byteArray)

end Addresses

def unexpectedRelay (name : String) (id value : ℤ) : DecodeException :=
  invalidCbor ("Expected " ++ name ++ " id " ++ integerText id ++ ", but got " ++ integerText value)

/-- The fields behind the number of the class. The end of the array is not read. -/
def readRelay {α : Type} (name : String) (size : ℕ) (id : ℤ) (fields : DecodeM α) : DecodeM α :=
  readOpenArray size (readOfKind id (unexpectedRelay name id) fields)

/-- A port that is zero is written as null. -/
def writePort (port : Option ℤ) : EncodeM Unit :=
  writeNullable (fun port => writing (writeInt port)) (truthyNumber port)

def readPort : DecodeM (Option ℤ) := do
  let port ← readNullable (reading readInt)
  pure ((truthyNumber port).map toNumber)

structure SingleHostAddr where
  port : Option ℤ := none
  ipV4 : Option String := none
  ipV6 : Option String := none
  originalBytes : Option (List UInt8) := none

def writeAddress (toByteArray : String → Except String (List UInt8)) (address : Option String) :
    EncodeM Unit :=
  writeNullable (fun address => do
    let bytes ← encoding ((toByteArray address).mapError .error)
    writing (writeByteString bytes)) (truthyText address)

def readAddress (ofByteArray : List UInt8 → Except DecodeException String) :
    DecodeM (Option String) :=
  readNullable do
    let bytes ← reading readByteString
    decoding (ofByteArray bytes)

def singleHostAddrCodec (ip : IpAddressLibrary) : Codec RelayByAddress SingleHostAddr where
  fromCore relay := .ok { port := relay.port, ipV4 := relay.ipv4, ipV6 := relay.ipv6 }
  toCbor relay := cachedOr relay.originalBytes <| encodeAsHex <| writeOfKind 4 0 do
    writePort relay.port
    writeAddress (ipV4StringToByteArray ip) relay.ipV4
    writeAddress (ipV6StringToByteArray ip) relay.ipV6
  fromCbor cbor := decodeWith cbor <| readRelay "SingleHostAddr" 4 0 do
    let port ← readPort
    let ipV4 ← readAddress byteArrayToIpV4String
    let ipV6 ← readAddress fun bytes => .ok (byteArrayToIPv6String ip bytes)
    pure { port := port, ipV4 := ipV4, ipV6 := ipV6, originalBytes := some cbor }
  toCore relay := .ok { ipv4 := relay.ipV4, ipv6 := relay.ipV6, port := relay.port }

structure SingleHostName where
  dnsName : String
  port : Option ℤ := none
  originalBytes : Option (List UInt8) := none

def newSingleHostName (dnsName : String) (port : Option ℤ) :
    Except DecodeException SingleHostName := do
  checkLength "dnsName" dnsName
  return { dnsName := dnsName, port := port }

def singleHostNameCodec : Codec RelayByName SingleHostName where
  fromCore relay := newSingleHostName relay.hostname relay.port
  toCbor relay := cachedOr relay.originalBytes <| encodeAsHex <| writeOfKind 3 1 do
    writePort relay.port
    writing (writeTextString relay.dnsName)
  fromCbor cbor := decodeWith cbor <| readRelay "SingleHostName" 3 1 do
    let port ← readPort
    let dnsName ← reading readTextString
    let relay ← decoding (newSingleHostName dnsName port)
    pure { relay with originalBytes := some cbor }
  toCore relay := .ok { hostname := relay.dnsName, port := relay.port }

structure MultiHostName where
  dnsName : String
  originalBytes : Option (List UInt8) := none

def newMultiHostName (dnsName : String) : Except DecodeException MultiHostName := do
  checkLength "dnsName" dnsName
  return { dnsName := dnsName }

def multiHostNameCodec : Codec RelayByNameMultihost MultiHostName where
  fromCore relay := newMultiHostName relay.dnsName
  toCbor relay := cachedOr relay.originalBytes <| encodeAsHex <| writeOfKind 2 2 <|
    writing (writeTextString relay.dnsName)
  fromCbor cbor := decodeWith cbor <| readRelay "MultiHostName" 2 2 do
    let dnsName ← reading readTextString
    let relay ← decoding (newMultiHostName dnsName)
    pure { relay with originalBytes := some cbor }
  toCore relay := .ok { dnsName := relay.dnsName }

inductive RelayValue where
  | singleHostAddr (relay : SingleHostAddr)
  | singleHostName (relay : SingleHostName)
  | multiHostName (relay : MultiHostName)

structure Relay where
  value : RelayValue
  originalBytes : Option (List UInt8) := none

namespace RelayValue

variable (ip : IpAddressLibrary)

def fromCore : Cardano.Relay → Except DecodeException RelayValue
  | .byAddress relay => do
      let made ← (singleHostAddrCodec ip).fromCore relay
      return .singleHostAddr made
  | .byName relay => do
      let made ← singleHostNameCodec.fromCore relay
      return .singleHostName made
  | .byNameMultihost relay => do
      let made ← multiHostNameCodec.fromCore relay
      return .multiHostName made

def toCbor : RelayValue → Except EncodeException (List UInt8)
  | .singleHostAddr relay => (singleHostAddrCodec ip).toCbor relay
  | .singleHostName relay => singleHostNameCodec.toCbor relay
  | .multiHostName relay => multiHostNameCodec.toCbor relay

/-- The class of the kind reads the whole relay. -/
def readKind (cbor : List UInt8) : ℤ → Except DecodeException RelayValue
  | 0 => do
      let relay ← (singleHostAddrCodec ip).fromCbor cbor
      return .singleHostAddr relay
  | 1 => do
      let relay ← singleHostNameCodec.fromCbor cbor
      return .singleHostName relay
  | 2 => do
      let relay ← multiHostNameCodec.fromCbor cbor
      return .multiHostName relay
  | kind => .error (.error (invalidState ("Unexpected kind value: " ++ integerText kind)))

def toCore : RelayValue → Except EncodeException Cardano.Relay
  | .singleHostAddr relay => do
      let core ← (singleHostAddrCodec ip).toCore relay
      return .byAddress core
  | .singleHostName relay => do
      let core ← singleHostNameCodec.toCore relay
      return .byName core
  | .multiHostName relay => do
      let core ← multiHostNameCodec.toCore relay
      return .byNameMultihost core

end RelayValue

def relayCodec (ip : IpAddressLibrary) : Codec Cardano.Relay Relay where
  fromCore core := do
    let value ← RelayValue.fromCore ip core
    return { value := value }
  toCbor relay := cachedOr relay.originalBytes (relay.value.toCbor ip)
  fromCbor cbor := do
    let kind ← peekKind cbor
    let value ← RelayValue.readKind ip cbor kind
    return { value := value, originalBytes := some cbor }
  toCore relay := relay.value.toCore ip

structure PoolMetadata where
  url : String
  hash : Hash
  originalBytes : Option (List UInt8) := none

def newPoolMetadata (url : String) (hash : Hash) : Except DecodeException PoolMetadata := do
  checkLength "url" url
  return { url := url, hash := hash }

def readMetadataParts : DecodeM (String × Hash) := do
  let url ← reading readTextString
  let hash ← reading readByteString
  pure (url, hash)

def poolMetadataCodec : Codec PoolMetadataJson PoolMetadata where
  fromCore metadata := newPoolMetadata metadata.url metadata.hash
  toCbor metadata := cachedOr metadata.originalBytes <| encodeAsHex do
    writing (writeStartArray (some 2))
    writing (writeTextString metadata.url)
    writing (writeByteString metadata.hash)
  fromCbor cbor := do
    let parts ← decodeWith cbor (readFixedArray 2 readMetadataParts)
    let metadata ← newPoolMetadata parts.1 parts.2
    return { metadata with originalBytes := some cbor }
  toCore metadata := .ok { hash := metadata.hash, url := metadata.url }

def unitIntervalCodec : Codec Fraction UnitInterval where
  fromCore fraction := .ok { numerator := fraction.numerator, denominator := fraction.denominator }
  toCbor := UnitInterval.toCbor
  fromCbor := UnitInterval.fromCbor
  toCore interval := .ok {
    numerator := toNumber interval.numerator
    denominator := toNumber interval.denominator }

structure PoolParams where
  operator : Hash
  vrfKeyHash : Hash
  pledge : ℤ
  cost : ℤ
  margin : UnitInterval
  /-- The properties of the reward address; undefined for another address. -/
  rewardAccount : Option AddressProps
  poolOwners : CborSet Hash
  relays : List Relay
  poolMetadata : Option PoolMetadata := none
  originalBytes : Option (List UInt8) := none

/-- What the parameters are made with: addresses of hosts, texts of addresses,
and the check of `RewardAccount` that a text is that of an account. -/
structure PoolLibrary where
  ip : IpAddressLibrary
  text : TextEncodings
  checkRewardAccount : String → Except String Unit

section Texts

variable (library : PoolLibrary)

/-- What a property of something undefined throws. -/
def undefinedProperty : DecodeException := .error "Cannot read properties of undefined"

def asReward (props : AddressProps) : Option AddressProps :=
  if props.type = .rewardKey ∨ props.type = .rewardScript then some props else none

def poolIdOfKeyHash (keyHash : Hash) : Except EncodeException PoolIdText :=
  match library.text.bech32Encode "pool" keyHash with
  | some id => .ok id
  | none => .error (.error "Exceeds length limit")

def poolIdToKeyHash (id : PoolIdText) : Except DecodeException Hash :=
  match library.text.bech32Decode id with
  | none => .error (.error "Invalid bech32 text")
  | some bytes => hash28 bytes

/-- `VrfVkHex` of the text of the bytes. -/
def vrfVkHex (bytes : List UInt8) : Except DecodeException Hash :=
  if bytes.length = 32 then .ok bytes
  else .error (.error (invalidString ("expected length '64', got " ++
    toString (2 * bytes.length))))

/-- `createRewardAccount`, of a network that may be undefined. -/
def createRewardAccount (stakeKeyHash : Hash) (networkId : Option ℕ) :
    Except EncodeException RewardAccountText := do
  let hash ← (hash28ByteBase16 stakeKeyHash).mapError .error
  let account ← AddressProps.toBech32 library.text {
    type := .rewardKey
    networkId := networkId
    paymentPart := some { type := .keyHash, hash := hash } }
  (library.checkRewardAccount account).mapError .error
  return account

def ownerKeyHash (owner : RewardAccountText) : Except DecodeException Hash := do
  let props ← (fromBech32 library.text owner).mapError textException
  match asReward props, props.paymentPart with
  | some _, some credential => hash28 credential.hash
  | _, _ => .error undefinedProperty

end Texts

namespace PoolParams

variable (library : PoolLibrary) (inConwayEra : Bool)

def subgroupCount : ℕ := 9

def fromCore (params : PoolParameters) : Except DecodeException PoolParams := do
  let operator ← poolIdToKeyHash library params.id
  let margin ← unitIntervalCodec.fromCore params.margin
  let props ← (fromBech32 library.text params.rewardAccount).mapError textException
  let owners ← params.owners.mapM (ownerKeyHash library)
  let poolOwners ← CborSet.fromCore hashCodec.fromCore owners
  let relays ← params.relays.mapM (relayCodec library.ip).fromCore
  let poolMetadata ← params.metadataJson.mapM poolMetadataCodec.fromCore
  return {
    operator := operator
    vrfKeyHash := params.vrf
    pledge := params.pledge
    cost := params.cost
    margin := margin
    rewardAccount := asReward props
    poolOwners := poolOwners
    relays := relays
    poolMetadata := poolMetadata }

/-- The fields one by one, in an array that the caller has begun. -/
def writeFlattened (params : PoolParams) : EncodeM Unit := do
  writing (writeByteString params.operator)
  writing (writeByteString params.vrfKeyHash)
  writing (writeInt params.pledge)
  writing (writeInt params.cost)
  writePart unitIntervalCodec.toCbor params.margin
  let rewardAccount ← encoding (required params.rewardAccount)
  let rewardBytes ← encoding (rewardAccount.toBytes library.text)
  writing (writeByteString rewardBytes)
  writePart (CborSet.toCbor inConwayEra hashCodec.toCbor) params.poolOwners
  writeParts (relayCodec library.ip).toCbor params.relays
  writeNullable (writePart poolMetadataCodec.toCbor) params.poolMetadata

def toCbor (params : PoolParams) : Except EncodeException (List UInt8) :=
  cachedOr params.originalBytes <| encodeAsHex do
    writing (writeStartArray (some subgroupCount))
    writeFlattened library inConwayEra params

def readFlattened : DecodeM PoolParams := do
  let operatorBytes ← reading readByteString
  let operator ← decoding (hash28 operatorBytes)
  let vrfBytes ← reading readByteString
  let vrfKeyHash ← decoding (vrfVkHex vrfBytes)
  let pledge ← reading readInt
  let cost ← reading readInt
  let margin ← readPart unitIntervalCodec.fromCbor
  let rewardBytes ← reading readByteString
  let rewardAddress ← decoding (AddressProps.fromBytes library.text rewardBytes)
  let poolOwners ← readPart (CborSet.fromCbor hashCodec.fromCbor)
  let relays ← readList (relayCodec library.ip).fromCbor maxRounds
  let poolMetadata ← readNullable (readPart poolMetadataCodec.fromCbor)
  pure {
    operator := operator
    vrfKeyHash := vrfKeyHash
    pledge := pledge
    cost := cost
    margin := margin
    rewardAccount := asReward rewardAddress
    poolOwners := poolOwners
    relays := relays
    poolMetadata := poolMetadata }

def fromCbor (cbor : List UInt8) : Except DecodeException PoolParams :=
  decodeWith cbor <| readOpenArray subgroupCount do
    let params ← readFlattened library
    pure { params with originalBytes := some cbor }

def toCore (params : PoolParams) : Except EncodeException PoolParameters := do
  let rewardAddress ← required params.rewardAccount
  let id ← poolIdOfKeyHash library params.operator
  let margin ← unitIntervalCodec.toCore params.margin
  let hashes ← CborSet.toCore hashCodec.toCore params.poolOwners
  let owners ← hashes.mapM fun keyHash =>
    createRewardAccount library keyHash rewardAddress.networkId
  let relays ← params.relays.mapM (relayCodec library.ip).toCore
  let rewardAccount ← rewardAddress.toBech32 library.text
  let metadataJson ← params.poolMetadata.mapM poolMetadataCodec.toCore
  return {
    id := id
    rewardAccount := rewardAccount
    pledge := params.pledge
    cost := params.cost
    margin := margin
    metadataJson := metadataJson
    relays := relays
    owners := owners
    vrf := params.vrfKeyHash }

end PoolParams

def poolParamsCodec (library : PoolLibrary) (inConwayEra : Bool) :
    Codec PoolParameters PoolParams where
  fromCore := PoolParams.fromCore library
  toCbor := PoolParams.toCbor library inConwayEra
  fromCbor := PoolParams.fromCbor library
  toCore := PoolParams.toCore library

end CardanoSdk.Serialization.PoolCodec
