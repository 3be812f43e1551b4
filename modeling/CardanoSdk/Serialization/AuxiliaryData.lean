import CardanoSdk.Serialization.KeyedMap
import CardanoSdk.Serialization.NativeScript
import CardanoSdk.Serialization.TransactionMetadatum

/-!
`AuxiliaryData` of `core/src/Serialization/AuxiliaryData`, with the classes
`PlutusV1Script` to `PlutusV4Script`: metadata and scripts in one of three formats.
-/

namespace CardanoSdk.Cardano

open TxConstruction (PlutusLanguageVersion)

structure PlutusScript where
  bytes : List UInt8
  version : PlutusLanguageVersion
  deriving DecidableEq

inductive Script where
  | native (script : NativeScript)
  | plutus (script : PlutusScript)

structure AuxiliaryData where
  blob : Option TxMetadata := none
  scripts : Option (List Script) := none

end CardanoSdk.Cardano

namespace CardanoSdk.Serialization

open Lib Cbor Plutus Cardano
open TxConstruction (PlutusLanguageVersion)

structure PlutusVersionScript (version : PlutusLanguageVersion) where
  compiledByteCode : List UInt8
  originalBytes : Option (List UInt8) := none

abbrev PlutusV1Script := PlutusVersionScript .v1

abbrev PlutusV2Script := PlutusVersionScript .v2

abbrev PlutusV3Script := PlutusVersionScript .v3

abbrev PlutusV4Script := PlutusVersionScript .v4

namespace PlutusVersionScript

variable {version : PlutusLanguageVersion}

def toCbor (script : PlutusVersionScript version) : Except EncodeException (List UInt8) :=
  cachedOr script.originalBytes (encodeAsHex (writing (writeByteString script.compiledByteCode)))

def fromCbor (version : PlutusLanguageVersion) (cbor : List UInt8) :
    Except DecodeException (PlutusVersionScript version) :=
  decodeWith cbor do
    let bytes ← reading readByteString
    pure { compiledByteCode := bytes, originalBytes := some cbor }

def toCore (script : PlutusVersionScript version) : PlutusScript where
  bytes := script.compiledByteCode
  version := version

def fromCore (version : PlutusLanguageVersion) (plutusScript : PlutusScript) :
    Except String (PlutusVersionScript version) :=
  if plutusScript.version ≠ version then
    .error (invalidArgument "script" "Wrong plutus language version.")
  else .ok { compiledByteCode := plutusScript.bytes }

end PlutusVersionScript

def plutusScriptCodec (version : PlutusLanguageVersion) :
    Codec PlutusScript (PlutusVersionScript version) where
  fromCore script := (PlutusVersionScript.fromCore version script).mapError .error
  toCbor := PlutusVersionScript.toCbor
  fromCbor := PlutusVersionScript.fromCbor version
  toCore script := .ok script.toCore

theorem plutusScript_roundTrips {script : PlutusScript} (h : script.bytes.length < 2 ^ 64) :
    (plutusScriptCodec script.version).RoundTrips Eq script := by
  have hchunk : ByteString AnyLength (encodeChunk script.bytes) script.bytes :=
    ByteString.whole (head_encodeHead .byteString h) trivial
  refine ⟨⟨script.bytes, none⟩, encodeChunk script.bytes, ?_, ?_, hchunk.dataItem, fun hlength => ?_⟩
  · simp [plutusScriptCodec, PlutusVersionScript.fromCore]
    rfl
  · exact encodeAsHex_ok (encodes_writing (writes_byteString h))
  · have hread : ReadsItem (reading readByteString >>= fun bytes =>
        pure (⟨bytes, some (encodeChunk script.bytes)⟩ : PlutusVersionScript script.version))
        (encodeChunk script.bytes) ⟨script.bytes, some (encodeChunk script.bytes)⟩ :=
      (readsItem_byteStringItem hchunk).map fun _ => rfl
    exact ⟨_, _, hread.decodeWith hlength, rfl, rfl⟩

def shelleyEraFieldsCount : ℕ := 2

def alonzoAuxTag : ℕ := 259

structure AuxiliaryData where
  metadata : Option GeneralTransactionMetadata := none
  nativeScripts : Option (List NativeScript) := none
  plutusScripts : (version : PlutusLanguageVersion) → Option (List (PlutusVersionScript version)) :=
    fun _ => none
  originalBytes : Option (List UInt8) := none

namespace AuxiliaryData

/-- `this.#metadata !== undefined && this.#metadata.metadata()!.size > 0` -/
def someMetadata (data : AuxiliaryData) : Option GeneralTransactionMetadata :=
  data.metadata.filter fun metadata => metadata.metadata.size > 0

/-- `scripts !== undefined && scripts.length > 0` -/
def someScripts {α : Type} (scripts : Option (List α)) : Option (List α) :=
  scripts.filter fun scripts => scripts.length > 0

def getMapSize (data : AuxiliaryData) : ℕ :=
  fieldCount data.someMetadata + fieldCount (someScripts data.nativeScripts) +
    fieldCount (someScripts (data.plutusScripts .v1)) +
    fieldCount (someScripts (data.plutusScripts .v2)) +
    fieldCount (someScripts (data.plutusScripts .v3)) +
    fieldCount (someScripts (data.plutusScripts .v4))

def writeMetadata : GeneralTransactionMetadata → EncodeM Unit :=
  writePart GeneralTransactionMetadata.toCbor

def writeNativeScripts : List NativeScript → EncodeM Unit := writeParts NativeScript.toCbor

def writePlutusScripts {version : PlutusLanguageVersion} :
    List (PlutusVersionScript version) → EncodeM Unit :=
  writeParts PlutusVersionScript.toCbor

def writeFields (data : AuxiliaryData) : EncodeM Unit := do
  writeField 0 data.someMetadata writeMetadata
  writeField 1 (someScripts data.nativeScripts) writeNativeScripts
  writeField 2 (someScripts (data.plutusScripts .v1)) writePlutusScripts
  writeField 3 (someScripts (data.plutusScripts .v2)) writePlutusScripts
  writeField 4 (someScripts (data.plutusScripts .v3)) writePlutusScripts
  writeField 5 (someScripts (data.plutusScripts .v4)) writePlutusScripts

/-- The calls of the writer: the more compact formats if they are possible. -/
def encode (data : AuxiliaryData) : EncodeM Unit :=
  match data.someMetadata, someScripts data.nativeScripts, data.getMapSize with
  | some metadata, _, 1 => writeMetadata metadata
  | some metadata, some nativeScripts, 2 => do
      writing (writeStartArray (some shelleyEraFieldsCount))
      writeMetadata metadata
      writeNativeScripts nativeScripts
  | _, _, elementsSize => do
      writing (writeTag alonzoAuxTag)
      writing (writeStartMap (some elementsSize))
      data.writeFields

def toCbor (data : AuxiliaryData) : Except EncodeException (List UInt8) :=
  cachedOr data.originalBytes (encodeAsHex data.encode)

inductive Field where
  | metadata
  | nativeScripts
  | plutusScripts (version : PlutusLanguageVersion)
  deriving DecidableEq

def Field.Value : Field → Type
  | .metadata => GeneralTransactionMetadata
  | .nativeScripts => List NativeScript
  | .plutusScripts version => List (PlutusVersionScript version)

def Field.ofKey? : ℤ → Option Field
  | 0 => some .metadata
  | 1 => some .nativeScripts
  | 2 => some (.plutusScripts .v1)
  | 3 => some (.plutusScripts .v2)
  | 4 => some (.plutusScripts .v3)
  | 5 => some (.plutusScripts .v4)
  | _ => none

def readMetadata : DecodeM GeneralTransactionMetadata := readPart GeneralTransactionMetadata.fromCbor

def readField (rounds : ℕ) : (field : Field) → DecodeM field.Value
  | .metadata => readMetadata
  | .nativeScripts => readList NativeScript.fromCbor rounds
  | .plutusScripts version => readList (PlutusVersionScript.fromCbor version) rounds

def setField (data : AuxiliaryData) : (field : Field) → field.Value → AuxiliaryData
  | .metadata, metadata => { data with metadata := some metadata }
  | .nativeScripts, scripts => { data with nativeScripts := some scripts }
  | .plutusScripts version, scripts => { data with
      plutusScripts := Function.update data.plutusScripts version (some scripts) }

def getField (data : AuxiliaryData) : (field : Field) → Option field.Value
  | .metadata => data.metadata
  | .nativeScripts => data.nativeScripts
  | .plutusScripts version => data.plutusScripts version

def fields (rounds : ℕ) : KeyedFields AuxiliaryData where
  Field := Field
  Value := Field.Value
  ofKey? := Field.ofKey?
  read := readField rounds
  set := setField
  get := getField

def readTagged (rounds : ℕ) : DecodeM AuxiliaryData := do
  let tag ← reading readTag
  if tag ≠ alonzoAuxTag then
    throw (invalidCbor ("Expected tag '" ++ numberText alonzoAuxTag ++ "', but got " ++
      numberText tag ++ "."))
  else readFields (fields rounds).step rounds {}

/-- The array of metadata and native scripts, whose end is not read. -/
def readShelleyArray (rounds : ℕ) : DecodeM AuxiliaryData := do
  let _ ← reading readStartArray
  let metadata ← readMetadata
  let nativeScripts ← readList NativeScript.fromCbor rounds
  pure { metadata := some metadata, nativeScripts := some nativeScripts }

def readFormat (rounds : ℕ) (peekState : CborReaderState) : DecodeM AuxiliaryData :=
  if peekState = .startMap then do
    let metadata ← readMetadata
    pure { metadata := some metadata }
  else if peekState = .tag then readTagged rounds
  else readShelleyArray rounds

def fromCbor (cbor : List UInt8) : Except DecodeException AuxiliaryData :=
  decodeWith cbor do
    let state ← reading peekState
    let data ← readFormat (cbor.length + 1) state
    pure { data with originalBytes := some cbor }

def getCoreScripts (data : AuxiliaryData) : List Script :=
  let plutus (version : PlutusLanguageVersion) :=
    ((data.plutusScripts version).getD []).map fun script => Script.plutus script.toCore
  plutus .v1 ++ plutus .v2 ++ plutus .v3 ++ plutus .v4 ++
    (data.nativeScripts.getD []).map fun script => Script.native script.toCore

def toCore (data : AuxiliaryData) : Except EncodeException Cardano.AuxiliaryData := do
  let blob ← data.metadata.mapM GeneralTransactionMetadata.toCore
  let scripts := data.getCoreScripts
  return { blob := blob, scripts := if scripts.length > 0 then some scripts else none }

/-- `getCddlScripts` pushes a script to the list of its language, which it makes
for the first of them. -/
def addScript {α : Type} (scripts : Option (List α)) (script : α) : Option (List α) :=
  some (scripts.getD [] ++ [script])

def addCddlScript (data : AuxiliaryData) : Script → Except DecodeException AuxiliaryData
  | .native script =>
    .ok { data with nativeScripts := addScript data.nativeScripts (NativeScript.fromCore script) }
  | .plutus script => do
      let object ← (PlutusVersionScript.fromCore script.version script).mapError .error
      let scripts := addScript (data.plutusScripts script.version) object
      return { data with
        plutusScripts := Function.update data.plutusScripts script.version scripts }

/-- `fromCore` of data whose `blob` and `scripts` are set if they are there. -/
def fromCore (auxData : Cardano.AuxiliaryData) : Except DecodeException AuxiliaryData := do
  let metadata ← auxData.blob.mapM fun blob =>
    (GeneralTransactionMetadata.fromCore blob).mapError .error
  (auxData.scripts.getD []).foldlM addCddlScript { metadata := metadata }

end AuxiliaryData

end CardanoSdk.Serialization
