import CardanoSdk.Serialization.AuxiliaryData

/-!
`Transaction` of `core/src/Serialization`. The codecs of its body and of its
witness set are parameters, and so is the hash function of transaction ids. A body keeps
the bytes that it was read from; the encoding of its fields is a parameter.
-/

namespace CardanoSdk.Cardano

open TxConstruction (Hash)

structure Tx (CoreBody CoreWitness : Type) where
  id : Hash
  body : CoreBody
  witness : CoreWitness
  isValid : Option Bool := none
  auxiliaryData : Option AuxiliaryData := none

end CardanoSdk.Cardano

namespace CardanoSdk.Serialization

open Lib Cbor Plutus Cardano
open TxConstruction (Hash)

def alonzoEraTxFrameSize : ℕ := 4

structure Transaction (Body Witness : Type) where
  body : Body
  witnessSet : Witness
  auxiliaryData : Option AuxiliaryData := none
  isValid : Bool := true
  originalBytes : Option (List UInt8) := none

namespace Transaction

section Transaction

variable {CoreBody Body CoreWitness Witness : Type} (body : Codec CoreBody Body)
  (witness : Codec CoreWitness Witness)

def writeAuxiliaryData : Option AuxiliaryData → EncodeM Unit
  | some auxiliaryData => writePart AuxiliaryData.toCbor auxiliaryData
  | none => writing writeNull

def encode (tx : Transaction Body Witness) : EncodeM Unit := do
  writing (writeStartArray (some alonzoEraTxFrameSize))
  writePart body.toCbor tx.body
  writePart witness.toCbor tx.witnessSet
  writing (writeBoolean tx.isValid)
  writeAuxiliaryData tx.auxiliaryData

def toCbor (tx : Transaction Body Witness) : Except EncodeException (List UInt8) :=
  cachedOr tx.originalBytes (encodeAsHex (tx.encode body witness))

def readParts : DecodeM (Body × Witness) := do
  let txBody ← readPart body.fromCbor
  let witnessSet ← readPart witness.fromCbor
  pure (txBody, witnessSet)

def readIsValid (length : Option ℕ) : DecodeM Bool :=
  if length = some alonzoEraTxFrameSize then reading readBoolean else pure true

def readAuxiliaryData : DecodeM (Option AuxiliaryData) := do
  let state ← reading peekState
  if state ≠ .null then do
    let auxData ← readPart AuxiliaryData.fromCbor
    pure (some auxData)
  else pure none

def fromCbor (cbor : List UInt8) : Except DecodeException (Transaction Body Witness) :=
  decodeWith cbor do
    let length ← reading readStartArray
    let parts ← readParts body witness
    let isValid ← readIsValid length
    let auxData ← readAuxiliaryData
    pure {
      body := parts.1
      witnessSet := parts.2
      auxiliaryData := auxData
      isValid := isValid
      originalBytes := some cbor }

def setWitnessSet (tx : Transaction Body Witness) (witnessSet : Witness) :
    Transaction Body Witness :=
  { tx with witnessSet, originalBytes := none }

variable (blake2b : List UInt8 → Hash)

def getId (tx : Transaction Body Witness) : Except EncodeException Hash := do
  let cbor ← body.toCbor tx.body
  return blake2b cbor

def toCore (tx : Transaction Body Witness) : Except EncodeException (Tx CoreBody CoreWitness) := do
  let coreBody ← body.toCore tx.body
  let id ← tx.getId body blake2b
  let coreWitness ← witness.toCore tx.witnessSet
  let auxiliaryData ← tx.auxiliaryData.mapM AuxiliaryData.toCore
  return {
    id := id
    body := coreBody
    witness := coreWitness
    isValid := some tx.isValid
    auxiliaryData := auxiliaryData }

def fromCore (tx : Tx CoreBody CoreWitness) : Except DecodeException (Transaction Body Witness) := do
  let txBody ← body.fromCore tx.body
  let witnessSet ← witness.fromCore tx.witness
  let auxiliaryData ← tx.auxiliaryData.mapM AuxiliaryData.fromCore
  return {
    body := txBody
    witnessSet := witnessSet
    auxiliaryData := auxiliaryData
    isValid := tx.isValid.getD true }

end Transaction

end Transaction

/-- The fields of a body, and the bytes that it was read from. -/
structure TransactionBody (Fields : Type) where
  fields : Fields
  originalBytes : Option (List UInt8) := none

section TransactionBody

variable {CoreBody Fields : Type} (fields : Codec CoreBody Fields)

def transactionBodyCodec : Codec CoreBody (TransactionBody Fields) where
  fromCore core := do
    let made ← fields.fromCore core
    return { fields := made }
  toCbor body := cachedOr body.originalBytes (fields.toCbor body.fields)
  fromCbor cbor := do
    let read ← fields.fromCbor cbor
    return { fields := read, originalBytes := some cbor }
  toCore body := fields.toCore body.fields

end TransactionBody

end CardanoSdk.Serialization
