import CardanoSdk.Lib.MapConversion
import CardanoSdk.Serialization.Containers

/-!
`TransactionMetadatum`, `MetadatumList`, `MetadatumMap` and `GeneralTransactionMetadata`
of `core/src/Serialization/AuxiliaryData`.
-/

namespace CardanoSdk.Cardano

/-- A metadatum of the core domain. The keys of a map that are collections or
bytes are compared by identity, so a map is the list of its entries; integers
and texts stand in it once. -/
inductive Metadatum where
  | integer (value : ℤ)
  | text (value : String)
  | bytes (value : List UInt8)
  | list (items : List Metadatum)
  | map (entries : List (Metadatum × Metadatum))

/-- The core domain's metadata by their labels, each of which stands once. -/
abbrev TxMetadata := List (ℤ × Metadatum)

end CardanoSdk.Cardano

namespace CardanoSdk.Serialization

open Lib Cbor Plutus Cardano

/-- A metadatum and the bytes it was decoded from. A new object is of the kind
`Map` and has no map. -/
inductive TransactionMetadatum where
  | new (originalBytes : Option (List UInt8))
  | map (originalBytes : Option (List UInt8)) (useIndefiniteEncoding : Bool)
      (entries : List (TransactionMetadatum × TransactionMetadatum))
  | list (originalBytes : Option (List UInt8)) (useIndefiniteEncoding : Bool)
      (items : List TransactionMetadatum)
  | integer (originalBytes : Option (List UInt8)) (value : ℤ)
  | bytes (originalBytes : Option (List UInt8)) (value : List UInt8)
  | text (originalBytes : Option (List UInt8)) (value : String)

namespace TransactionMetadatum

def newInteger (integer : ℤ) : TransactionMetadatum := .integer none integer

def newBytes (bytes : List UInt8) : TransactionMetadatum := .bytes none bytes

def newText (text : String) : TransactionMetadatum := .text none text

def newList (list : List TransactionMetadatum) : TransactionMetadatum := .list none false list

def newMap (map : List (TransactionMetadatum × TransactionMetadatum)) : TransactionMetadatum :=
  .map none false map

def asInteger : TransactionMetadatum → Option ℤ
  | .integer _ value => some value
  | _ => none

end TransactionMetadatum

def bytesText (bytes : List UInt8) : String :=
  ",".intercalate (bytes.map fun byte => toString byte.toNat)

def maxMetadatumLength : ℕ := 64

/-- `check64Length`, given the text of the value and its length in bytes. -/
def check64Length (metadatum : String) (len : ℕ) : Except String Unit :=
  if len > maxMetadatumLength then
    .error (serializationError "MAX_LENGTH_LIMIT" ("Metadatum value '" ++ metadatum ++
      "' is too long. Length is " ++ toString len ++ ". Max length is 64 bytes"))
  else .ok ()

def checkBytes (bytes : List UInt8) : Except String Unit :=
  check64Length (bytesText bytes) bytes.length

def checkText (text : String) : Except String Unit := check64Length text (utf8Encode text).length

def writeMetadatumInteger (integer : ℤ) : WriteM Unit :=
  if (integer ≥ 0 ∧ integer ≤ maxWord64) ∨ (integer < 0 ∧ integer ≥ -1 - maxWord64) then
    writeInt integer
  else writeBigInteger integer

/-- `MetadatumList.toCbor`, given the encodings of its elements. -/
def writeMetadatumList (useIndefiniteEncoding : Bool) (elements : List (List UInt8)) :
    WriteM Unit := do
  writeStartArray (if useIndefiniteEncoding then none else some elements.length)
  elements.forM writeEncodedValue
  if useIndefiniteEncoding then writeEndArray else pure ()

mutual

def TransactionMetadatum.toCbor : TransactionMetadatum → Except EncodeException (List UInt8)
  | .new original => cachedOr original (.error .undefinedAccess)
  | .map original useIndefiniteEncoding entries => cachedOr original do
      let encoded ← metadatumEntriesToCbor entries
      encodeAsHex (writing (writePlutusMap useIndefiniteEncoding encoded))
  | .list original useIndefiniteEncoding items => cachedOr original do
      let elements ← metadataToCbor items
      encodeAsHex (writing (writeMetadatumList useIndefiniteEncoding elements))
  | .bytes original value => cachedOr original do
      (checkBytes value).mapError .error
      encodeAsHex (writing (writeByteString value))
  | .text original value => cachedOr original do
      (checkText value).mapError .error
      encodeAsHex (writing (writeTextString value))
  | .integer original value =>
    cachedOr original (encodeAsHex (writing (writeMetadatumInteger value)))

def metadataToCbor : List TransactionMetadatum → Except EncodeException (List (List UInt8))
  | [] => .ok []
  | item :: items => do
      let first ← item.toCbor
      let rest ← metadataToCbor items
      .ok (first :: rest)

def metadatumEntriesToCbor : List (TransactionMetadatum × TransactionMetadatum) →
    Except EncodeException (List (List UInt8 × List UInt8))
  | [] => .ok []
  | (key, value) :: entries => do
      let first ← key.toCbor
      let second ← value.toCbor
      let rest ← metadatumEntriesToCbor entries
      .ok ((first, second) :: rest)

end

section Decoding

variable (fromCbor : List UInt8 → Except DecodeException TransactionMetadatum)

/-- `MetadatumList.fromCbor`: whether the length was not declared, and the elements. -/
def metadatumListFromCbor (cbor : List UInt8) :
    Except DecodeException (Bool × List TransactionMetadatum) :=
  decodeWith cbor do
    let (length, items) ← readArray (addPart fromCbor) (cbor.length + 1) []
    pure (length.isNone, items)

/-- `MetadatumMap.fromCbor`, whose keys are objects. -/
def metadatumMapFromCbor (cbor : List UInt8) :
    Except DecodeException (Bool × List (TransactionMetadatum × TransactionMetadatum)) :=
  decodeWith cbor do
    let (size, entries) ← readMap (insertParts fromCbor) (cbor.length + 1) []
    pure (size.isNone, entries)

/-- What stands under a tag. Under another tag than that of a big integer
nothing is read, and the object stays as it was made. -/
def readTagged (cbor : List UInt8) : DecodeM TransactionMetadatum := do
  let tag ← reading peekTag
  if tag = unsignedBigNumTag then
    let _ ← reading readTag
    let bytes ← reading readByteString
    pure (.integer (some cbor) (bufferToBigint bytes))
  else if tag = negativeBigNumTag then
    let _ ← reading readTag
    let bytes ← reading readByteString
    pure (.integer (some cbor) (bufferToBigint bytes * -1))
  else pure (.new (some cbor))

def readMetadatum (cbor : List UInt8) (peekTokenType : CborReaderState) :
    DecodeM TransactionMetadatum :=
  match peekTokenType with
  | .tag => readTagged cbor
  | .negativeInteger => do
      let value ← reading readInt
      pure (.integer (some cbor) value)
  | .unsignedInteger => do
      let value ← reading readInt
      pure (.integer (some cbor) value)
  | .startIndefiniteLengthByteString => do
      let value ← reading readByteString
      pure (.bytes (some cbor) value)
  | .byteString => do
      let value ← reading readByteString
      pure (.bytes (some cbor) value)
  | .startIndefiniteLengthTextString => do
      let value ← reading readTextString
      pure (.text (some cbor) value)
  | .textString => do
      let value ← reading readTextString
      pure (.text (some cbor) value)
  | .startArray => do
      let (useIndefiniteEncoding, items) ← readPart (metadatumListFromCbor fromCbor)
      pure (.list (some cbor) useIndefiniteEncoding items)
  | .startMap => do
      let (useIndefiniteEncoding, entries) ← readPart (metadatumMapFromCbor fromCbor)
      pure (.map (some cbor) useIndefiniteEncoding entries)
  | _ => throw (.error "Invalid Plutus Data")

end Decoding

/-- `TransactionMetadatum.fromCbor`; the fuel bounds the nesting. -/
def metadatumWithin : ℕ → List UInt8 → Except DecodeException TransactionMetadatum
  | 0, _ => .error .outOfFuel
  | fuel + 1, cbor =>
    decodeWith cbor do
      let peekTokenType ← reading peekState
      readMetadatum (metadatumWithin fuel) cbor peekTokenType

/-- Every level of nesting takes a byte, so the length of the data bounds it. -/
def TransactionMetadatum.fromCbor (cbor : List UInt8) :
    Except DecodeException TransactionMetadatum :=
  metadatumWithin (cbor.length + 1) cbor

mutual

/-- Texts and bytes that are too long are refused. -/
def TransactionMetadatum.fromCore : Metadatum → Except String TransactionMetadatum
  | .integer value => .ok (.newInteger value)
  | .text value => do
      checkText value
      .ok (.newText value)
  | .bytes value => do
      checkBytes value
      .ok (.newBytes value)
  | .list items => do
      let list ← metadataFromCore items
      .ok (.newList list)
  | .map entries => do
      let map ← metadatumEntriesFromCore entries
      .ok (.newMap map)

def metadataFromCore : List Metadatum → Except String (List TransactionMetadatum)
  | [] => .ok []
  | item :: items => do
      let first ← TransactionMetadatum.fromCore item
      let rest ← metadataFromCore items
      .ok (first :: rest)

def metadatumEntriesFromCore : List (Metadatum × Metadatum) →
    Except String (List (TransactionMetadatum × TransactionMetadatum))
  | [] => .ok []
  | (key, value) :: entries => do
      let first ← TransactionMetadatum.fromCore key
      let second ← TransactionMetadatum.fromCore value
      let rest ← metadatumEntriesFromCore entries
      .ok ((first, second) :: rest)

end

mutual

/-- `equals` does not look at the bytes an object was decoded from. A list's
kind of encoding does not count either, a map's does. -/
def TransactionMetadatum.equals : TransactionMetadatum → TransactionMetadatum → Bool
  | .bytes _ value, .bytes _ value' => value = value'
  | .integer _ value, .integer _ value' => value = value'
  | .text _ value, .text _ value' => value = value'
  | .list _ _ items, .list _ _ items' => metadataEqual items items'
  | .map _ useIndefiniteEncoding entries, .map _ useIndefiniteEncoding' entries' =>
    useIndefiniteEncoding = useIndefiniteEncoding' && metadatumEntriesEqual entries entries'
  | _, _ => false

def metadataEqual : List TransactionMetadatum → List TransactionMetadatum → Bool
  | [], [] => true
  | item :: items, item' :: items' => item.equals item' && metadataEqual items items'
  | _, _ => false

def metadatumEntriesEqual : List (TransactionMetadatum × TransactionMetadatum) →
    List (TransactionMetadatum × TransactionMetadatum) → Bool
  | [], [] => true
  | (key, value) :: entries, (key', value') :: entries' =>
    key.equals key' && value.equals value' && metadatumEntriesEqual entries entries'
  | _, _ => false

end

/-- The keys that `Map.set` finds again are integers and texts. -/
def sameMetadatum : Metadatum → Metadatum → Bool
  | .integer value, .integer value' => value = value'
  | .text value, .text value' => value = value'
  | _, _ => false

mutual

/-- `TransactionMetadatum.toCore`. The value of a key is `metadatumMap.get(key)!`. -/
def TransactionMetadatum.toCore : TransactionMetadatum → Except EncodeException Metadatum
  | .new _ => .error .undefinedAccess
  | .bytes _ value => .ok (.bytes value)
  | .text _ value => .ok (.text value)
  | .integer _ value => .ok (.integer value)
  | .list _ _ items => do
      let items ← metadataToCore items
      .ok (.list items)
  | .map _ _ entries => do
      let coreMap ← convertMap .undefinedAccess TransactionMetadatum.equals sameMetadatum
        (metadatumConversions entries)
      .ok (.map coreMap)

def metadataToCore : List TransactionMetadatum → Except EncodeException (List Metadatum)
  | [] => .ok []
  | item :: items => do
      let first ← item.toCore
      let rest ← metadataToCore items
      .ok (first :: rest)

def metadatumConversions : List (TransactionMetadatum × TransactionMetadatum) →
    List (Conversion EncodeException TransactionMetadatum Metadatum)
  | [] => []
  | (key, value) :: entries => ⟨key, key.toCore, value.toCore⟩ :: metadatumConversions entries

end

/-- Nothing sets the bytes that this class remembers, so it has none. -/
structure GeneralTransactionMetadata where
  metadata : JsMap ℤ TransactionMetadatum

namespace GeneralTransactionMetadata

def toCbor (general : GeneralTransactionMetadata) : Except EncodeException (List UInt8) :=
  encodeAsHex do
    writing (writeStartMap (some general.metadata.size))
    general.metadata.entries.forM fun (key, val) => do
      writing (writeInt key)
      let cbor ← encoding val.toCbor
      writing (writeEncodedValue cbor)

def readLabelled (metadata : JsMap ℤ TransactionMetadatum) :
    DecodeM (JsMap ℤ TransactionMetadatum) := do
  let label ← reading readInt
  let metadatum ← readPart TransactionMetadatum.fromCbor
  pure (metadata.set label metadatum)

def fromCbor (cbor : List UInt8) : Except DecodeException GeneralTransactionMetadata :=
  decodeWith cbor do
    let metadata ← readFields readLabelled (cbor.length + 1) JsMap.empty
    pure ⟨metadata⟩

/-- `new Map` of the converted entries, whose labels are those of a map. -/
def toCore (general : GeneralTransactionMetadata) : Except EncodeException TxMetadata :=
  general.metadata.entries.mapM fun (label, metadatum) => do
    let core ← metadatum.toCore
    return (label, core)

def fromCore (metadata : TxMetadata) : Except String GeneralTransactionMetadata := do
  let entries ← metadata.mapM fun (label, metadatum) => do
    let object ← TransactionMetadatum.fromCore metadatum
    return (label, object)
  return ⟨JsMap.ofList entries⟩

end GeneralTransactionMetadata

end CardanoSdk.Serialization
