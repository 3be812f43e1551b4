import CardanoSdk.Serialization.Credentials
import CardanoSdk.Serialization.Redeemers

/-!
`SubTransactionBody` of `core/src/Serialization/TransactionBody`. The codecs of outputs,
certificates, proposals and votes are given.
-/

namespace CardanoSdk.Serialization

/-- A class of parts that are encoded by themselves. A part may come back as one
that is the same. -/
structure EmbeddedClass where
  Core : Type
  Object : Type
  codec : Codec Core Object
  same : Core → Core → Prop

structure BodyParts where
  output : EmbeddedClass
  certificate : EmbeddedClass
  proposal : EmbeddedClass
  votes : EmbeddedClass

end CardanoSdk.Serialization

namespace CardanoSdk.Cardano

open Serialization
open TxConstruction (Credential Hash)

structure ValidityInterval where
  invalidBefore : Option ℤ := none
  invalidHereafter : Option ℤ := none
  deriving DecidableEq

/-- The bech32 text of a reward account. -/
abbrev RewardAccountText := String

/-- A body of the core domain. Withdrawals and deposits are given by account and
quantity, and the entries of the other maps by credential and value. -/
structure SubTransactionBody (parts : BodyParts) where
  inputs : List TxIn
  outputs : List parts.output.Core
  validityInterval : Option ValidityInterval := none
  certificates : Option (List parts.certificate.Core) := none
  withdrawals : Option (List (RewardAccountText × ℤ)) := none
  auxiliaryDataHash : Option Hash := none
  mint : Option InputSelection.TokenMap := none
  scriptIntegrityHash : Option Hash := none
  guards : Option (List Credential) := none
  requiredExtraSignatures : Option (List Hash) := none
  networkId : Option ℤ := none
  referenceInputs : Option (List TxIn) := none
  votingProcedures : Option parts.votes.Core := none
  proposalProcedures : Option (List parts.proposal.Core) := none
  treasuryValue : Option ℤ := none
  donation : Option ℤ := none
  requiredTopLevelGuards : Option (List (Credential × Option Plutus.CoreData)) := none
  directDeposits : Option (List (RewardAccountText × ℤ)) := none
  accountBalanceIntervals : Option (List (Credential × AccountBalanceInterval)) := none

end CardanoSdk.Cardano

namespace CardanoSdk.Serialization.BodyCodec

open Lib Cbor Plutus Cardano
open InputSelection (TokenMap)
open TxConstruction (Credential Hash)

section Accounts

variable (text : TextEncodings)

def addressException : DecodeException → EncodeException
  | .error message => .error message
  | _ => .error "Invalid address data"

def fromBech32 (account : RewardAccountText) : Except EncodeException AddressProps :=
  match text.bech32Decode account with
  | none => .error (.error "Invalid bech32 text")
  | some data => (AddressProps.fromBytes text data).mapError addressException

/-- `RewardAddress.fromAddress` takes only the addresses of accounts. -/
def accountBytes (message : String) (account : RewardAccountText) :
    Except EncodeException (List UInt8) := do
  let props ← fromBech32 text account
  if props.type = .rewardKey ∨ props.type = .rewardScript then props.toBytes text
  else .error (.error (serializationError "INVALID_ADDRESS" (message ++ account)))

def entryText (entry : List UInt8 × ℤ) : String := toHex entry.1 ++ "," ++ toString entry.2

def compareEntries (a b : List UInt8 × ℤ) : ℤ := if entryText a > entryText b then 1 else -1

def withAddressBytes (message : String) (accounts : JsMap RewardAccountText ℤ) :
    Except EncodeException (JsMap (List UInt8) ℤ) := do
  let entries ← accounts.entries.mapM fun entry => do
    let bytes ← accountBytes text message entry.1
    return (bytes, entry.2)
  return JsMap.ofList entries

def writeAccountEntry (entry : List UInt8 × ℤ) : EncodeM Unit := do
  writing (writeByteString entry.1)
  writing (writeInt entry.2)

def writeAccounts (message : String) (accounts : JsMap RewardAccountText ℤ) : EncodeM Unit := do
  let accountsWithAddressBytes ← encoding (withAddressBytes text message accounts)
  writeSorted compareEntries writeAccountEntry accountsWithAddressBytes

def textException : EncodeException → DecodeException
  | .error message => .error message
  | .range _ => .error "The number Infinity cannot be converted to a BigInt"
  | .undefinedAccess => .error "Cannot read properties of undefined"

/-- `Address.fromBytes(...).toBech32()` -/
def accountOfBytes (bytes : List UInt8) : Except DecodeException RewardAccountText := do
  let props ← AddressProps.fromBytes text bytes
  (props.toBech32 text).mapError textException

def readAccount : DecodeM RewardAccountText := do
  let bytes ← reading readByteString
  decoding (accountOfBytes text bytes)

def readAccounts : DecodeM (JsMap RewardAccountText ℤ) :=
  readFields (readEntry (readAccount text) (reading readInt) fun map entry =>
    map.set entry.1 entry.2) maxRounds JsMap.empty

end Accounts

section Credentials

variable {ν : Type}

def compareKeys (a b : List UInt8 × ν) : ℤ := if a.1 > b.1 then 1 else -1

def withCredentialBytes (entries : List (Credential × ν)) :
    Except EncodeException (JsMap (List UInt8) ν) := do
  let encoded ← entries.mapM fun entry => do
    let bytes ← credentialCodec.toCbor entry.1
    return (bytes, entry.2)
  return JsMap.ofList encoded

def writeCredentialEntry (writeValue : ν → EncodeM Unit) (entry : List UInt8 × ν) :
    EncodeM Unit := do
  writing (writeEncodedValue entry.1)
  writeValue entry.2

def writeCredentials (writeValue : ν → EncodeM Unit) (entries : List (Credential × ν)) :
    EncodeM Unit := do
  let entriesWithCredentialBytes ← encoding (withCredentialBytes entries)
  writeSorted compareKeys (writeCredentialEntry writeValue) entriesWithCredentialBytes

/-- The keys of the map are new objects, so every entry is added. -/
def readCredentials (readValue : DecodeM ν) : DecodeM (List (Credential × ν)) :=
  readFields (readEntry (readPart credentialCodec.fromCbor) readValue fun entries entry =>
    entries ++ [entry]) maxRounds []

def nonEmptyMap {μ : Type} (message : String) (size : μ → ℕ) (read : DecodeM μ) : DecodeM μ := do
  let map ← read
  if size map = 0 then throw (.error (serializationError "INVALID_TYPE"
    (message ++ " must be a non-empty map")))
  else pure map

end Credentials

section Bodies

variable (parts : BodyParts)

structure OptionalFields where
  ttl : Option ℤ := none
  certs : Option (CborSet parts.certificate.Object) := none
  withdrawals : Option (JsMap RewardAccountText ℤ) := none
  auxiliaryDataHash : Option Hash := none
  validityStartInterval : Option ℤ := none
  mint : Option TokenMap := none
  scriptDataHash : Option Hash := none
  guards : Option Guards := none
  networkId : Option ℤ := none
  referenceInputs : Option (CborSet TransactionInput) := none
  votingProcedures : Option parts.votes.Object := none
  proposalProcedures : Option (CborSet parts.proposal.Object) := none
  currentTreasuryValue : Option ℤ := none
  donation : Option ℤ := none
  requiredTopLevelGuards : Option (List (Credential × Option PlutusData)) := none
  directDeposits : Option (JsMap RewardAccountText ℤ) := none
  accountBalanceIntervals : Option (List (Credential × AccountBalanceInterval)) := none

structure SubTransactionBody extends OptionalFields parts where
  inputs : CborSet TransactionInput
  outputs : List parts.output.Object
  originalBytes : Option (List UInt8) := none

/-- What the decoder has read. It has no inputs and no outputs before their keys:
`hasInputs` and `hasOutputs` tell whether they are there. -/
structure ReadBody extends OptionalFields parts where
  inputs : Option (CborSet TransactionInput) := none
  outputs : Option (List parts.output.Object) := none

inductive Field where
  | inputs
  | outputs
  | ttl
  | certs
  | withdrawals
  | auxiliaryDataHash
  | validityStartInterval
  | mint
  | scriptDataHash
  | guards
  | networkId
  | referenceInputs
  | votingProcedures
  | proposalProcedures
  | currentTreasuryValue
  | donation
  | requiredTopLevelGuards
  | directDeposits
  | accountBalanceIntervals
  deriving DecidableEq

namespace Field

def Value : Field → Type
  | inputs => CborSet TransactionInput
  | outputs => List parts.output.Object
  | ttl => ℤ
  | certs => CborSet parts.certificate.Object
  | withdrawals => JsMap RewardAccountText ℤ
  | auxiliaryDataHash => Hash
  | validityStartInterval => ℤ
  | mint => TokenMap
  | scriptDataHash => Hash
  | guards => Guards
  | networkId => ℤ
  | referenceInputs => CborSet TransactionInput
  | votingProcedures => parts.votes.Object
  | proposalProcedures => CborSet parts.proposal.Object
  | currentTreasuryValue => ℤ
  | donation => ℤ
  | requiredTopLevelGuards => List (Credential × Option PlutusData)
  | directDeposits => JsMap RewardAccountText ℤ
  | accountBalanceIntervals => List (Credential × AccountBalanceInterval)

def key : Field → ℤ
  | inputs => 0
  | outputs => 1
  | ttl => 3
  | certs => 4
  | withdrawals => 5
  | auxiliaryDataHash => 7
  | validityStartInterval => 8
  | mint => 9
  | scriptDataHash => 11
  | guards => 14
  | networkId => 15
  | referenceInputs => 18
  | votingProcedures => 19
  | proposalProcedures => 20
  | currentTreasuryValue => 21
  | donation => 22
  | requiredTopLevelGuards => 24
  | directDeposits => 25
  | accountBalanceIntervals => 26

def ofKey? : ℤ → Option Field
  | 0 => some inputs
  | 1 => some outputs
  | 3 => some ttl
  | 4 => some certs
  | 5 => some withdrawals
  | 7 => some auxiliaryDataHash
  | 8 => some validityStartInterval
  | 9 => some mint
  | 11 => some scriptDataHash
  | 14 => some guards
  | 15 => some networkId
  | 18 => some referenceInputs
  | 19 => some votingProcedures
  | 20 => some proposalProcedures
  | 21 => some currentTreasuryValue
  | 22 => some donation
  | 24 => some requiredTopLevelGuards
  | 25 => some directDeposits
  | 26 => some accountBalanceIntervals
  | _ => none

/-- The fields in the order in which `toCbor` writes them. -/
def written : List Field :=
  [inputs, outputs, ttl, certs, withdrawals, auxiliaryDataHash, validityStartInterval, mint,
    scriptDataHash, guards, networkId, referenceInputs, votingProcedures, proposalProcedures,
    currentTreasuryValue, donation, requiredTopLevelGuards, directDeposits,
    accountBalanceIntervals]

variable {parts}

/-- Collections are written only if they have elements. -/
def isWritten : (field : Field) → field.Value parts → Bool
  | certs, set => CborSet.size set > 0
  | withdrawals, map => JsMap.size map > 0
  | mint, map => JsMap.size map > 0
  | guards, value => Guards.size value > 0
  | referenceInputs, set => CborSet.size set > 0
  | proposalProcedures, set => CborSet.size set > 0
  | requiredTopLevelGuards, entries => List.length entries > 0
  | directDeposits, map => JsMap.size map > 0
  | accountBalanceIntervals, entries => List.length entries > 0
  | _, _ => true

end Field

section Values

def writeHash (hash : Hash) : EncodeM Unit := writing (writeByteString hash)

def writeInteger (value : ℤ) : EncodeM Unit := writing (writeInt value)

/-- `Number(reader.readInt())` -/
def readNumber : DecodeM ℤ := do
  let value ← reading readInt
  pure (toNumber value)

def writeMint (mint : TokenMap) : EncodeM Unit := do
  let multiassets ← encoding ((tokenMapToMultiAsset mint).mapError .error)
  writing (writeMultiAsset multiassets)

/-- `setMint` puts the tokens in canonical order. -/
def sortedMint (mint : TokenMap) : Except String TokenMap := do
  let multiassets ← tokenMapToMultiAsset mint
  multiAssetsToTokenMap (sortMap multiassets)

def readMint : DecodeM TokenMap := do
  let multiassets ← readMultiAsset (reading readInt) maxRounds
  let mint ← checking (multiAssetsToTokenMap multiassets)
  checking (sortedMint mint)

/-- A guard that carries no datum is written with null. -/
def writeDatum (datum : Option PlutusData) : EncodeM Unit :=
  writeNullable (writePart plutusDataCodec.toCbor) datum

def readDatum : DecodeM (Option PlutusData) := readNullable (readPart PlutusData.fromCbor)

end Values

variable {parts}

def Field.write (text : TextEncodings) (inConwayEra : Bool) :
    (field : Field) → field.Value parts → EncodeM Unit
  | .inputs, set => writePart (CborSet.toCbor inConwayEra transactionInputCodec.toCbor) set
  | .outputs, values => writeParts parts.output.codec.toCbor values
  | .ttl, slot => writeInteger slot
  | .certs, set => writePart (CborSet.toCbor inConwayEra parts.certificate.codec.toCbor) set
  | .withdrawals, map => writeAccounts text "Invalid withdrawal address: " map
  | .auxiliaryDataHash, hash => writeHash hash
  | .validityStartInterval, slot => writeInteger slot
  | .mint, tokens => writeMint tokens
  | .scriptDataHash, hash => writeHash hash
  | .guards, value => writePart (Guards.toCbor inConwayEra) value
  | .networkId, value => writeInteger value
  | .referenceInputs, set =>
    writePart (CborSet.toCbor inConwayEra transactionInputCodec.toCbor) set
  | .votingProcedures, votes => writePart parts.votes.codec.toCbor votes
  | .proposalProcedures, set =>
    writePart (CborSet.toCbor inConwayEra parts.proposal.codec.toCbor) set
  | .currentTreasuryValue, value => writeInteger value
  | .donation, value => writeInteger value
  | .requiredTopLevelGuards, entries => writeCredentials writeDatum entries
  | .directDeposits, map => writeAccounts text "Invalid direct deposit address: " map
  | .accountBalanceIntervals, entries =>
    writeCredentials (writePart AccountBalanceInterval.toCbor) entries

def Field.read (text : TextEncodings) : (field : Field) → DecodeM (field.Value parts)
  | .inputs => readPart (CborSet.fromCbor transactionInputCodec.fromCbor)
  | .outputs => readList parts.output.codec.fromCbor maxRounds
  | .ttl => readNumber
  | .certs => readPart (CborSet.fromCbor parts.certificate.codec.fromCbor)
  | .withdrawals => readAccounts text
  | .auxiliaryDataHash => reading readByteString
  | .validityStartInterval => readNumber
  | .mint => readMint
  | .scriptDataHash => reading readByteString
  | .guards => readPart Guards.fromCbor
  | .networkId => readNumber
  | .referenceInputs => readPart (CborSet.fromCbor transactionInputCodec.fromCbor)
  | .votingProcedures => readPart parts.votes.codec.fromCbor
  | .proposalProcedures => readPart (CborSet.fromCbor parts.proposal.codec.fromCbor)
  | .currentTreasuryValue => reading readInt
  | .donation => reading readInt
  | .requiredTopLevelGuards =>
    nonEmptyMap "required_top_level_guards (sub transaction body key 24)" List.length
      (readCredentials readDatum)
  | .directDeposits =>
    nonEmptyMap "direct_deposits (sub transaction body key 25)" JsMap.size (readAccounts text)
  | .accountBalanceIntervals =>
    nonEmptyMap "account_balance_intervals (sub transaction body key 26)" List.length
      (readCredentials (readPart AccountBalanceInterval.fromCbor))

namespace ReadBody

def get (body : ReadBody parts) : (field : Field) → Option (field.Value parts)
  | .inputs => body.inputs
  | .outputs => body.outputs
  | .ttl => body.ttl
  | .certs => body.certs
  | .withdrawals => body.withdrawals
  | .auxiliaryDataHash => body.auxiliaryDataHash
  | .validityStartInterval => body.validityStartInterval
  | .mint => body.mint
  | .scriptDataHash => body.scriptDataHash
  | .guards => body.guards
  | .networkId => body.networkId
  | .referenceInputs => body.referenceInputs
  | .votingProcedures => body.votingProcedures
  | .proposalProcedures => body.proposalProcedures
  | .currentTreasuryValue => body.currentTreasuryValue
  | .donation => body.donation
  | .requiredTopLevelGuards => body.requiredTopLevelGuards
  | .directDeposits => body.directDeposits
  | .accountBalanceIntervals => body.accountBalanceIntervals

/-- Outputs are pushed behind those that were read before. -/
def set (body : ReadBody parts) : (field : Field) → field.Value parts → ReadBody parts
  | .inputs, value => { body with inputs := some value }
  | .outputs, value => { body with outputs := some (List.append (body.outputs.getD []) value) }
  | .ttl, value => { body with ttl := some value }
  | .certs, value => { body with certs := some value }
  | .withdrawals, value => { body with withdrawals := some value }
  | .auxiliaryDataHash, value => { body with auxiliaryDataHash := some value }
  | .validityStartInterval, value => { body with validityStartInterval := some value }
  | .mint, value => { body with mint := some value }
  | .scriptDataHash, value => { body with scriptDataHash := some value }
  | .guards, value => { body with guards := some value }
  | .networkId, value => { body with networkId := some value }
  | .referenceInputs, value => { body with referenceInputs := some value }
  | .votingProcedures, value => { body with votingProcedures := some value }
  | .proposalProcedures, value => { body with proposalProcedures := some value }
  | .currentTreasuryValue, value => { body with currentTreasuryValue := some value }
  | .donation, value => { body with donation := some value }
  | .requiredTopLevelGuards, value => { body with requiredTopLevelGuards := some value }
  | .directDeposits, value => { body with directDeposits := some value }
  | .accountBalanceIntervals, value => { body with accountBalanceIntervals := some value }

def fields (text : TextEncodings) : KeyedFields (ReadBody parts) where
  Field := Field
  Value := Field.Value parts
  ofKey? := Field.ofKey?
  read := Field.read text
  set := set
  get := get

end ReadBody

namespace SubTransactionBody

def readBody (body : SubTransactionBody parts) : ReadBody parts where
  toOptionalFields := body.toOptionalFields
  inputs := some body.inputs
  outputs := some body.outputs

def getSome (body : SubTransactionBody parts) (field : Field) : Option (field.Value parts) :=
  (body.readBody.get field).filter field.isWritten

def getMapSize (body : SubTransactionBody parts) : ℕ :=
  2 + fieldCount (body.getSome .ttl) + fieldCount (body.getSome .certs) +
    fieldCount (body.getSome .withdrawals) + fieldCount (body.getSome .auxiliaryDataHash) +
    fieldCount (body.getSome .validityStartInterval) + fieldCount (body.getSome .mint) +
    fieldCount (body.getSome .scriptDataHash) + fieldCount (body.getSome .guards) +
    fieldCount (body.getSome .networkId) + fieldCount (body.getSome .referenceInputs) +
    fieldCount (body.getSome .votingProcedures) + fieldCount (body.getSome .proposalProcedures) +
    fieldCount (body.getSome .currentTreasuryValue) + fieldCount (body.getSome .donation) +
    fieldCount (body.getSome .requiredTopLevelGuards) +
    fieldCount (body.getSome .directDeposits) + fieldCount (body.getSome .accountBalanceIntervals)

def toCbor (text : TextEncodings) (inConwayEra : Bool) (body : SubTransactionBody parts) :
    Except EncodeException (List UInt8) :=
  cachedOr body.originalBytes <| encodeAsHex do
    writing (writeStartMap (some body.getMapSize))
    Field.written.forM fun field =>
      writeField field.key (body.getSome field) (field.write text inConwayEra)

def topLevelOnlyKeys : List ℤ := [2, 13, 16, 17, 23]

def unknownKeyMessage (key : ℤ) : String :=
  if key ∈ topLevelOnlyKeys then
    "Top-level-only transaction body map key not allowed in sub transaction body: " ++ toString key
  else "Unknown sub transaction body map key: " ++ toString key

/-- Other keys are not skipped. -/
def unknownKey (key : ℤ) (_ : ReadBody parts) : DecodeM (ReadBody parts) :=
  throw (.error (serializationError "UNKNOWN_FIELD" (unknownKeyMessage key)))

def missingKey (key : ℤ) : DecodeException :=
  .error (serializationError "INVALID_TYPE"
    ("Sub transaction body missing required key: " ++ toString key))

def fromCbor (text : TextEncodings) (cbor : List UInt8) :
    Except DecodeException (SubTransactionBody parts) := do
  let body ← decodeWith cbor
    (readFields ((ReadBody.fields text).stepOr unknownKey) (cbor.length + 1) {})
  match body.inputs, body.outputs with
  | none, _ => .error (missingKey 0)
  | some _, none => .error (missingKey 1)
  | some inputs, some outputs => .ok {
      toOptionalFields := body.toOptionalFields
      inputs := inputs
      outputs := outputs
      originalBytes := some cbor }

def credentialKeyHashes (credentials : List Credential) : Except EncodeException (List Hash) :=
  (credentials.filter fun credential => credential.type = .keyHash).mapM fun credential =>
    (hash28ByteBase16 credential.hash).mapError .error

def guardKeyHashes (guards : Option Guards) (credentials : Option (List Credential)) :
    Except EncodeException (Option (List Hash)) :=
  match guards.bind Guards.keyHashes with
  | some keyHashes => do
      let hashes ← CborSet.toCore hashCodec.toCore keyHashes
      return some hashes
  | none => credentials.mapM credentialKeyHashes

def guardToCore (entry : Credential × Option PlutusData) :
    Except EncodeException (Credential × Option CoreData) := do
  let datum ← entry.2.mapM plutusDataCodec.toCore
  return (entry.1, datum)

def toCore (body : SubTransactionBody parts) :
    Except EncodeException (Cardano.SubTransactionBody parts) := do
  let guardCredentials ← (body.guards.bind Guards.credentials).mapM
    (CborSet.toCore credentialCodec.toCore)
  let guardKeyHashes ← guardKeyHashes body.guards guardCredentials
  let certificates ← body.certs.mapM (CborSet.toCore parts.certificate.codec.toCore)
  let inputs ← CborSet.toCore transactionInputCodec.toCore body.inputs
  let outputs ← body.outputs.mapM parts.output.codec.toCore
  let proposalProcedures ← body.proposalProcedures.mapM
    (CborSet.toCore parts.proposal.codec.toCore)
  let referenceInputs ← (body.referenceInputs.filter fun set => set.size > 0).mapM
    (CborSet.toCore transactionInputCodec.toCore)
  let requiredTopLevelGuards ← body.requiredTopLevelGuards.mapM (List.mapM guardToCore)
  let votingProcedures ← body.votingProcedures.mapM parts.votes.codec.toCore
  return {
    inputs := inputs
    outputs := outputs
    validityInterval :=
      if body.ttl.isSome ∨ body.validityStartInterval.isSome then some {
        invalidBefore := body.validityStartInterval
        invalidHereafter := body.ttl }
      else none
    certificates := certificates
    withdrawals := body.withdrawals.map JsMap.entries
    auxiliaryDataHash := body.auxiliaryDataHash
    mint := body.mint
    scriptIntegrityHash := body.scriptDataHash
    guards := guardCredentials
    requiredExtraSignatures := guardKeyHashes.filter fun hashes => hashes.length > 0
    networkId := body.networkId
    referenceInputs := referenceInputs
    votingProcedures := votingProcedures
    proposalProcedures := proposalProcedures
    treasuryValue := body.currentTreasuryValue
    donation := body.donation
    requiredTopLevelGuards := requiredTopLevelGuards
    directDeposits := body.directDeposits.map JsMap.entries
    accountBalanceIntervals := body.accountBalanceIntervals.map fun entries =>
      entries.map fun entry => (entry.1, entry.2.toCore) }

/-- Key hashes are the guards where there are no credentials. -/
def guardsFromCore (guards : Option (List Credential)) (keyHashes : Option (List Hash)) :
    Except DecodeException (Option Guards) :=
  match guards with
  | some credentials => do
      let made ← Guards.fromCredentials credentials
      return some made
  | none => keyHashes.mapM Guards.fromKeyHashes

def guardFromCore (entry : Credential × Option CoreData) :
    Except DecodeException (Credential × Option PlutusData) := do
  let datum ← entry.2.mapM plutusDataCodec.fromCore
  return (entry.1, datum)

def intervalFromCore (entry : Credential × Cardano.AccountBalanceInterval) :
    Except DecodeException (Credential × AccountBalanceInterval) := do
  let interval ← AccountBalanceInterval.fromCore entry.2
  return (entry.1, interval)

def fromCore (core : Cardano.SubTransactionBody parts) :
    Except DecodeException (SubTransactionBody parts) := do
  let inputs ← CborSet.fromCore transactionInputCodec.fromCore core.inputs
  let outputs ← core.outputs.mapM parts.output.codec.fromCore
  let certs ← core.certificates.mapM (CborSet.fromCore parts.certificate.codec.fromCore)
  let mint ← core.mint.mapM fun mint => (sortedMint mint).mapError .error
  let referenceInputs ← core.referenceInputs.mapM
    (CborSet.fromCore transactionInputCodec.fromCore)
  let guards ← guardsFromCore core.guards core.requiredExtraSignatures
  let requiredTopLevelGuards ← core.requiredTopLevelGuards.mapM (List.mapM guardFromCore)
  let accountBalanceIntervals ← core.accountBalanceIntervals.mapM (List.mapM intervalFromCore)
  let votingProcedures ← core.votingProcedures.mapM parts.votes.codec.fromCore
  let proposalProcedures ← core.proposalProcedures.mapM
    (CborSet.fromCore parts.proposal.codec.fromCore)
  return {
    inputs := inputs
    outputs := outputs
    ttl := core.validityInterval.bind ValidityInterval.invalidHereafter
    certs := certs
    withdrawals := core.withdrawals.map JsMap.ofList
    auxiliaryDataHash := truthy core.auxiliaryDataHash
    validityStartInterval := core.validityInterval.bind ValidityInterval.invalidBefore
    mint := mint
    scriptDataHash := truthy core.scriptIntegrityHash
    guards := guards
    networkId := core.networkId
    referenceInputs := referenceInputs
    votingProcedures := votingProcedures
    proposalProcedures := proposalProcedures
    currentTreasuryValue := core.treasuryValue
    donation := core.donation
    requiredTopLevelGuards := requiredTopLevelGuards
    directDeposits := core.directDeposits.map JsMap.ofList
    accountBalanceIntervals := accountBalanceIntervals }

end SubTransactionBody

variable (parts)

def subTransactionBodyCodec (text : TextEncodings) (inConwayEra : Bool) :
    Codec (Cardano.SubTransactionBody parts) (SubTransactionBody parts) where
  fromCore := SubTransactionBody.fromCore
  toCbor := SubTransactionBody.toCbor text inConwayEra
  fromCbor := SubTransactionBody.fromCbor text
  toCore := SubTransactionBody.toCore

end Bodies

end CardanoSdk.Serialization.BodyCodec
