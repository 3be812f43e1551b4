import CardanoSdk.Cbor.SkippedValue
import CardanoSdk.Cbor.Writer

/-!
`PlutusData` and its parts, of `core/src/Serialization/PlutusData`. The source passes
encodings around as hexadecimal text; here they are the bytes.
-/

namespace CardanoSdk.Plutus

open Lib Cbor

/-- The five kinds. A decoded value keeps the bytes it was decoded from. The
entries of a map are in insertion order; keys are objects, so equal keys may
stand next to each other. -/
inductive PlutusData where
  | constr (originalBytes : Option (List UInt8)) (alternative : ℤ) (data : List PlutusData)
  | map (originalBytes : Option (List UInt8)) (useIndefiniteEncoding : Bool)
      (entries : List (PlutusData × PlutusData))
  | list (originalBytes : Option (List UInt8)) (items : List PlutusData)
  | integer (originalBytes : Option (List UInt8)) (value : ℤ)
  | bytes (originalBytes : Option (List UInt8)) (value : List UInt8)

def PlutusData.newInteger (integer : ℤ) : PlutusData := .integer none integer

def PlutusData.asInteger : PlutusData → Option ℤ
  | .integer _ value => some value
  | _ => none

def maxWord64 : ℤ := 18446744073709551615

def indefiniteByteString : List UInt8 := [95]

def maxByteStringChunkSize : ℕ := 64

def unsignedBigNumTag : ℕ := 2

def negativeBigNumTag : ℕ := 3

def generalFormTag : ℤ := 102

def alternativeTagOffset : ℤ := 7

/-- The bytes that the calls of a new writer produce. -/
def encodeWith (calls : WriteM Unit) : Except RangeError (List UInt8) :=
  match calls {} with
  | .ok _ writer => .ok writer.buffer
  | .error exception _ => .error exception

def byteChunks (bytes : List UInt8) : List (List UInt8) :=
  (List.range ((bytes.length + maxByteStringChunkSize - 1) / maxByteStringChunkSize)).map
    fun i => (bytes.drop (i * maxByteStringChunkSize)).take maxByteStringChunkSize

def writeChunks : List (List UInt8) → WriteM Unit
  | [] => pure ()
  | chunk :: chunks => do
      writeByteString chunk
      writeChunks chunks

def writeBoundedBytes (bytes : List UInt8) : WriteM Unit :=
  if bytes.length ≤ maxByteStringChunkSize then writeByteString bytes
  else do
    writeEncodedValue indefiniteByteString
    writeChunks (byteChunks bytes)
    writeEndArray

def bigintToBuffer (value : ℤ) : List UInt8 :=
  bigintBytes (if value < 0 then -value - 1 else value).toNat

def writePlutusInteger (value : ℤ) : WriteM Unit :=
  if (value ≥ 0 ∧ value ≤ maxWord64) ∨ (value < 0 ∧ value ≥ -1 - maxWord64) then writeInt value
  else do
    writeTag (if value < 0 then negativeBigNumTag else unsignedBigNumTag)
    writeBoundedBytes (bigintToBuffer value)

def alternativeToCompactCborTag (alternative : ℤ) : ℤ :=
  if alternative ≤ 6 then 121 + alternative
  else if alternative ≥ 7 ∧ alternative ≤ 127 then 1280 - alternativeTagOffset + alternative
  else generalFormTag

/-- `writeTag` of a number that may be negative, which no field can hold. -/
def writeSignedTag (tag : ℤ) : WriteM Unit :=
  if tag < 0 then throw .outOfRange else writeTag tag.toNat

def writeConstr (alternative : ℤ) (data : List UInt8) : WriteM Unit := do
  let compactTag := alternativeToCompactCborTag alternative
  writeSignedTag compactTag
  if compactTag ≠ generalFormTag then writeEncodedValue data
  else
    writeStartArray (some 2)
    writeInt alternative
    writeEncodedValue data

/-- `PlutusList.toCbor`, given the encodings of its elements. -/
def writePlutusList (elements : List (List UInt8)) : WriteM Unit := do
  writeStartArray (if elements.length > 0 then none else some elements.length)
  elements.forM writeEncodedValue
  if elements.length > 0 then writeEndArray else pure ()

/-- `PlutusMap.toCbor`, given the encodings of its keys and values. -/
def writePlutusMap (useIndefiniteEncoding : Bool) (entries : List (List UInt8 × List UInt8)) :
    WriteM Unit := do
  writeStartMap (if useIndefiniteEncoding then none else some entries.length)
  entries.forM fun (key, value) => do
    writeEncodedValue key
    writeEncodedValue value
  if useIndefiniteEncoding then writeEndMap else pure ()

mutual

def PlutusData.toCbor : PlutusData → Except RangeError (List UInt8)
  | .constr (some cbor) _ _ => .ok cbor
  | .map (some cbor) _ _ => .ok cbor
  | .list (some cbor) _ => .ok cbor
  | .integer (some cbor) _ => .ok cbor
  | .bytes (some cbor) _ => .ok cbor
  | .constr none alternative data => do
      let elements ← elementsToCbor data
      let list ← encodeWith (writePlutusList elements)
      encodeWith (writeConstr alternative list)
  | .map none useIndefiniteEncoding entries => do
      let encoded ← entriesToCbor entries
      encodeWith (writePlutusMap useIndefiniteEncoding encoded)
  | .list none items => do
      let elements ← elementsToCbor items
      encodeWith (writePlutusList elements)
  | .integer none value => encodeWith (writePlutusInteger value)
  | .bytes none value => encodeWith (writeBoundedBytes value)

def elementsToCbor : List PlutusData → Except RangeError (List (List UInt8))
  | [] => .ok []
  | item :: items => do
      let first ← item.toCbor
      let rest ← elementsToCbor items
      .ok (first :: rest)

def entriesToCbor : List (PlutusData × PlutusData) →
    Except RangeError (List (List UInt8 × List UInt8))
  | [] => .ok []
  | (key, value) :: entries => do
      let first ← key.toCbor
      let second ← value.toCbor
      let rest ← entriesToCbor entries
      .ok ((first, second) :: rest)

end

/-- What decoding throws: a reader's exception, the `Error` of the decoder,
or the refusal of a typed array that would be too long. `outOfFuel` marks a
loop or a recursion that was stopped by the model. -/
inductive DecodeException where
  | reader (exception : CborException)
  | error (message : String)
  | invalidLength
  | outOfFuel
  deriving DecidableEq

abbrev DecodeM := EStateM DecodeException CborReader

def reading {α : Type} (action : ReadM α) : DecodeM α := fun reader =>
  match action reader with
  | .ok value reader' => .ok value reader'
  | .error exception reader' => .error (.reader exception) reader'

def decoding {α : Type} (result : Except DecodeException α) : DecodeM α := fun reader =>
  match result with
  | .ok value => .ok value reader
  | .error exception => .error exception reader

/-- Run the calls on a new reader over the bytes. -/
def decodeWith {α : Type} (cbor : List UInt8) (calls : DecodeM α) : Except DecodeException α :=
  if hlength : cbor.length < 2 ^ 53 then
    match calls (CborReader.new ⟨cbor, hlength⟩) with
    | .ok value _ => .ok value
    | .error exception _ => .error exception
  else .error .invalidLength

section Parts

-- `PlutusData.fromCbor`, on which the decoders of the parts depend
variable (fromCbor : List UInt8 → Except DecodeException PlutusData)

/-- Elements until the end of the array is announced. Every one takes a byte,
which bounds the rounds. -/
def readElements : ℕ → DecodeM (List PlutusData)
  | 0 => throw .outOfFuel
  | rounds + 1 => do
      let state ← reading peekState
      if state = .endArray then pure []
      else
        let encoded ← reading readEncodedValue
        let item ← decoding (fromCbor encoded)
        let items ← readElements rounds
        pure (item :: items)

def plutusListFromCbor (cbor : List UInt8) : Except DecodeException (List PlutusData) :=
  decodeWith cbor do
    let _ ← reading readStartArray
    let items ← readElements fromCbor (cbor.length + 1)
    reading readEndArray
    pure items

def readPlutusEntries : ℕ → DecodeM (List (PlutusData × PlutusData))
  | 0 => throw .outOfFuel
  | rounds + 1 => do
      let state ← reading peekState
      if state = .endMap then pure []
      else
        let encodedKey ← reading readEncodedValue
        let key ← decoding (fromCbor encodedKey)
        let encodedValue ← reading readEncodedValue
        let value ← decoding (fromCbor encodedValue)
        let entries ← readPlutusEntries rounds
        pure ((key, value) :: entries)

def plutusMapFromCbor (cbor : List UInt8) :
    Except DecodeException (Bool × List (PlutusData × PlutusData)) :=
  decodeWith cbor do
    let size ← reading readStartMap
    let entries ← readPlutusEntries fromCbor (cbor.length + 1)
    reading readEndMap
    pure (size.isNone, entries)

/-- An unknown tag is taken for the general form's number. -/
def compactCborTagToAlternative (tag : ℕ) : ℤ :=
  if tag ≥ 121 ∧ tag ≤ 127 then tag - 121
  else if tag ≥ 1280 ∧ tag ≤ 1400 then tag - 1280 + alternativeTagOffset
  else generalFormTag

def constrFromCbor (cbor : List UInt8) : Except DecodeException (ℤ × List PlutusData) :=
  decodeWith cbor do
    let tag ← reading readTag
    if (tag : ℤ) = generalFormTag then
      let _ ← reading readStartArray
      let alternative ← reading readInt
      let encoded ← reading readEncodedValue
      let data ← decoding (plutusListFromCbor fromCbor encoded)
      reading readEndArray
      pure (alternative, data)
    else
      let encoded ← reading readEncodedValue
      let data ← decoding (plutusListFromCbor fromCbor encoded)
      pure (compactCborTagToAlternative tag, data)

end Parts

def bufferToBigint (buffer : List UInt8) : ℤ := (ofBytesBE buffer : ℤ)

/-- `PlutusData.fromCbor`; the fuel bounds the nesting. -/
def fromCborWithin : ℕ → List UInt8 → Except DecodeException PlutusData
  | 0, _ => .error .outOfFuel
  | fuel + 1, cbor =>
    decodeWith cbor do
      let peekTokenType ← reading peekState
      match peekTokenType with
      | .tag => do
          let tag ← reading peekTag
          if tag = unsignedBigNumTag then
            let _ ← reading readTag
            let bytes ← reading readByteString
            pure (.integer (some cbor) (bufferToBigint bytes))
          else if tag = negativeBigNumTag then
            let _ ← reading readTag
            let bytes ← reading readByteString
            pure (.integer (some cbor) (bufferToBigint bytes * -1))
          else
            let encoded ← reading readEncodedValue
            let (alternative, data) ← decoding (constrFromCbor (fromCborWithin fuel) encoded)
            pure (.constr (some cbor) alternative data)
      | .negativeInteger => do
          let value ← reading readInt
          pure (.integer (some cbor) value)
      | .unsignedInteger => do
          let value ← reading readInt
          pure (.integer (some cbor) value)
      | .startIndefiniteLengthByteString => do
          let value ← reading readByteString
          pure (.bytes (some cbor) value)
      | .byteString => do
          let value ← reading readByteString
          pure (.bytes (some cbor) value)
      | .startArray => do
          let encoded ← reading readEncodedValue
          let items ← decoding (plutusListFromCbor (fromCborWithin fuel) encoded)
          pure (.list (some cbor) items)
      | .startMap => do
          let encoded ← reading readEncodedValue
          let (useIndefiniteEncoding, entries) ←
            decoding (plutusMapFromCbor (fromCborWithin fuel) encoded)
          pure (.map (some cbor) useIndefiniteEncoding entries)
      | _ => throw (.error "Invalid Plutus Data")

/-- Every level of nesting takes a byte, so the length of the data bounds it. -/
def PlutusData.fromCbor (cbor : List UInt8) : Except DecodeException PlutusData :=
  fromCborWithin (cbor.length + 1) cbor

end CardanoSdk.Plutus
