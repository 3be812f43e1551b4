import CardanoSdk.Serialization.Value

/-!
`TransactionOutput` and `Datum` of `core/src/Serialization`. Core outputs are converted by
tests for truth, which the integer zero does not pass. The codec of scripts and the text
encodings of addresses are parameters.
-/

namespace CardanoSdk.Cardano

open Plutus
open TxConstruction (Hash)

structure TxOut (CoreScript : Type) where
  address : String
  value : InputSelection.Value
  datumHash : Option Hash := none
  datum : Option CoreData := none
  scriptReference : Option CoreScript := none

end CardanoSdk.Cardano

namespace CardanoSdk.Serialization

open Lib Cbor Plutus Cardano
open TxConstruction (Hash)

inductive DatumKind where
  | dataHash
  | inlineData
  deriving DecidableEq

def DatumKind.toInt : DatumKind → ℤ
  | .dataHash => 0
  | .inlineData => 1

/-- A datum is either a hash or the data. -/
inductive Datum where
  | dataHash (hash : Hash)
  | inlineData (data : PlutusData)

def Datum.kind : Datum → DatumKind
  | .dataHash _ => .dataHash
  | .inlineData _ => .inlineData

/-- The constructor. An empty hash counts as none. -/
def newDatum (dataHash : Option Hash) (inlineData : Option PlutusData) : Except String Datum :=
  match truthy dataHash, inlineData with
  | some _, some _ =>
    .error (invalidState "Datum can only be DataHash or PlutusData but not both")
  | none, none => .error (invalidState "Datum must be either DataHash or PlutusData")
  | some hash, none => .ok (.dataHash hash)
  | none, some data => .ok (.inlineData data)

structure TransactionOutput (Script : Type) where
  address : AddressProps
  amount : Value
  datum : Option Datum := none
  scriptRef : Option Script := none
  originalBytes : Option (List UInt8) := none

def requiredFieldsCount : ℕ := 2

structure OutputFields (Script : Type) where
  address : Option AddressProps := none
  value : Option Value := none
  datum : Option Datum := none
  scriptRef : Option Script := none

/-- Zero is falsy. -/
def truthyDatum : Option CoreData → Option CoreData
  | some (.integer 0) => none
  | datum => datum

def unexpectedTag (tag : ℕ) : DecodeException :=
  invalidCbor ("Expected tag " ++ numberText encodedCborDataItemTag ++ " but got " ++ numberText tag)

section Output

variable {CoreScript Script : Type} (text : TextEncodings) (script : Codec CoreScript Script)

def TransactionOutput.getMapSize (output : TransactionOutput Script) : ℕ :=
  requiredFieldsCount + fieldCount output.datum + fieldCount output.scriptRef

def TransactionOutput.isCompact (output : TransactionOutput Script) : Prop :=
  output.getMapSize = requiredFieldsCount ∨
    (output.getMapSize = 3 ∧ output.datum.map Datum.kind = some .dataHash)

instance (output : TransactionOutput Script) : Decidable output.isCompact := by
  unfold TransactionOutput.isCompact
  infer_instance

/-- `Buffer.from(this.#datum.asDataHash()!, 'hex')` -/
def writeDataHash : Datum → EncodeM Unit
  | .dataHash hash => writing (writeByteString hash)
  | .inlineData _ => throw .undefinedAccess

def writeAddress (address : AddressProps) : EncodeM Unit := do
  let bytes ← encoding (address.toBytes text)
  writing (writeByteString bytes)

def writeAmount (amount : Value) : EncodeM Unit := do
  let cbor ← encoding amount.toCbor
  writing (writeEncodedValue cbor)

def writeDatum (datum : Datum) : EncodeM Unit := do
  writing (writeStartArray (some 2))
  writing (writeInt datum.kind.toInt)
  match datum with
  | .dataHash hash => writing (writeByteString hash)
  | .inlineData data =>
    writing (writeTag encodedCborDataItemTag)
    let cbor ← encoding (data.toCbor.mapError .range)
    writing (writeByteString cbor)

def writeScriptRef (scriptRef : Script) : EncodeM Unit := do
  writing (writeTag encodedCborDataItemTag)
  let cbor ← encoding (script.toCbor scriptRef)
  writing (writeByteString cbor)

def TransactionOutput.encodeArray (output : TransactionOutput Script) : EncodeM Unit := do
  writing (writeStartArray (some output.getMapSize))
  writeAddress text output.address
  writeAmount output.amount
  match output.datum with
  | some datum => writeDataHash datum
  | none => pure ()

def TransactionOutput.encodeMap (output : TransactionOutput Script) : EncodeM Unit := do
  writing (writeStartMap (some output.getMapSize))
  writeField 0 (some output.address) (writeAddress text)
  writeField 1 (some output.amount) writeAmount
  writeField 2 output.datum writeDatum
  writeField 3 output.scriptRef (writeScriptRef script)

def TransactionOutput.toCbor (output : TransactionOutput Script) :
    Except EncodeException (List UInt8) :=
  match truthy output.originalBytes with
  | some cbor => .ok cbor
  | none => encodeAsHex (if output.isCompact then output.encodeArray text
      else output.encodeMap text script)

def readDatum (cbor : List UInt8) : Except DecodeException Datum :=
  decodeWith cbor do
    let _ ← reading readStartArray
    let kind ← reading readInt
    if toNumber kind = DatumKind.dataHash.toInt then
      let encodedDatum ← reading readByteString
      checking (newDatum (some encodedDatum) none)
    else if toNumber kind = DatumKind.inlineData.toInt then
      let tag ← reading readTag
      if tag ≠ encodedCborDataItemTag then throw (unexpectedTag tag)
      else
        let encodedDatum ← reading readByteString
        let inlineDatum ← decoding (PlutusData.fromCbor encodedDatum)
        checking (newDatum none (some inlineDatum))
    else throw (invalidCbor ("Unexpected datum kind " ++ integerText (toNumber kind)))

def readScriptRef (cbor : List UInt8) : Except DecodeException Script :=
  decodeWith cbor do
    let tag ← reading readTag
    if tag ≠ encodedCborDataItemTag then throw (unexpectedTag tag)
    else
      let encodedDatum ← reading readByteString
      decoding (script.fromCbor encodedDatum)

-- whether unknown keys are refused
variable (strict : Bool)

def readAddress : DecodeM AddressProps := do
  let bytes ← reading readByteString
  decoding (AddressProps.fromBytes text bytes)

/-- The value under a key of the map. -/
def readOutputField (fields : OutputFields Script) (key : ℤ) : DecodeM (OutputFields Script) :=
  if key = 0 then do
    let address ← readAddress text
    pure { fields with address := some address }
  else if key = 1 then do
    let value ← readPart Value.fromCbor
    pure { fields with value := some value }
  else if key = 2 then do
    let datum ← readPart readDatum
    pure { fields with datum := some datum }
  else if key = 3 then do
    let scriptRef ← readPart (readScriptRef script)
    pure { fields with scriptRef := some scriptRef }
  else if strict then
    throw (.error (serializationError "UNKNOWN_FIELD"
      ("Unknown transaction output map key: " ++ toString key)))
  else do
    reading skipValue
    pure fields

def readOutputMap (rounds : ℕ) : DecodeM (OutputFields Script) :=
  readFields (fun fields => do
    let key ← reading readInt
    readOutputField text script strict fields key) rounds {}

/-- The hash that an array of three elements ends with. -/
def readDatumHash (length : Option ℕ) : DecodeM (Option Datum) :=
  if length = some 3 then do
    let datumHash ← reading readByteString
    let datum ← checking (newDatum (some datumHash) none)
    pure (some datum)
  else pure none

/-- The legacy format, whose end is not read. -/
def readOutputArray : DecodeM (OutputFields Script) := do
  let length ← reading readStartArray
  let address ← readAddress text
  let value ← readPart Value.fromCbor
  let datum ← readDatumHash length
  pure { address := some address, value := some value, datum := datum }

def TransactionOutput.fromCbor (cbor : List UInt8) :
    Except DecodeException (TransactionOutput Script) :=
  decodeWith cbor do
    let state ← reading peekState
    let fields ← if state = .startMap then readOutputMap text script strict (cbor.length + 1)
      else readOutputArray text
    match fields.address, fields.value with
    | none, _ => throw (invalidCbor "Transaction output does not contain an address.")
    | _, none => throw (invalidCbor "Transaction output does not contain a value.")
    | some address, some value =>
      pure {
        address := address
        amount := value
        datum := fields.datum
        scriptRef := fields.scriptRef
        originalBytes := some cbor }

/-- `asInlineData()?.toCore()` -/
def inlineDataToCore : Option Datum → Except EncodeException (Option CoreData)
  | some (.inlineData data) => do
      let core ← data.toCore.mapError .range
      return some core
  | _ => .ok none

def asDataHash : Option Datum → Option Hash
  | some (.dataHash hash) => some hash
  | _ => none

def TransactionOutput.toCore (output : TransactionOutput Script) :
    Except EncodeException (TxOut CoreScript) := do
  let address ← output.address.toText text
  let datum ← inlineDataToCore output.datum
  let scriptReference ← output.scriptRef.mapM script.toCore
  return {
    address := address
    value := output.amount.toCore
    datum := datum
    datumHash := asDataHash output.datum
    scriptReference := scriptReference }

def inlineDatum (datum : CoreData) : Except DecodeException Datum := do
  let data ← PlutusData.fromCore datum
  (newDatum none (some data)).mapError .error

/-- `Datum.fromCore` of a hash -/
def hashDatum (hash : Hash) : Except DecodeException Datum :=
  (newDatum (some hash) none).mapError .error

def datumFromCore (datum : Option CoreData) (datumHash : Option Hash) :
    Except DecodeException (Option Datum) := do
  let datum ← (truthyDatum datum).mapM inlineDatum
  let hash ← (truthy datumHash).mapM hashDatum
  return hash.or datum

def TransactionOutput.fromCore (coreTransactionOutput : TxOut CoreScript) :
    Except DecodeException (TransactionOutput Script) :=
  match AddressProps.fromString text coreTransactionOutput.address with
  | none => .error (.error (invalidArgument "coreTransactionOutput" "Invalid address null"))
  | some address => do
      let amount ← (Value.fromCore coreTransactionOutput.value).mapError .error
      let datum ← datumFromCore coreTransactionOutput.datum coreTransactionOutput.datumHash
      let scriptRef ← coreTransactionOutput.scriptReference.mapM script.fromCore
      return { address := address, amount := amount, datum := datum, scriptRef := scriptRef }

def transactionOutputCodec : Codec (TxOut CoreScript) (TransactionOutput Script) where
  fromCore := TransactionOutput.fromCore text script
  toCbor := TransactionOutput.toCbor text script
  fromCbor := TransactionOutput.fromCbor text script strict
  toCore := TransactionOutput.toCore text script

end Output

end CardanoSdk.Serialization
