import CardanoSdk.Lib.UniqueByKey
import CardanoSdk.Serialization.AuxiliaryDataRoundTrip
import CardanoSdk.Serialization.Redeemers

/-!
`TransactionWitnessSet` with all its parts, which `WitnessSet` gives by their encodings.
-/

namespace CardanoSdk.Cardano

open Serialization (CoreRedeemer)

/-- A witness of the core domain. Its signatures stand under their keys. -/
structure Witness where
  redeemers : Option (List CoreRedeemer) := none
  signatures : Lib.JsMap (List UInt8) (List UInt8) := Lib.JsMap.empty
  scripts : Option (List Script) := none
  bootstrap : Option (List BootstrapWitness) := none
  datums : Option (List Plutus.CoreData) := none

end CardanoSdk.Cardano

namespace CardanoSdk.Serialization.WitnessCodec

open Lib Cbor Plutus Cardano
open TxConstruction (PlutusLanguageVersion)

structure TransactionWitnessSet where
  vkeywitnesses : Option (CborSet VkeyWitness) := none
  nativeScripts : Option (CborSet NativeScript) := none
  bootstrapWitnesses : Option (CborSet BootstrapWitness) := none
  plutusV1Scripts : Option (CborSet (PlutusVersionScript .v1)) := none
  plutusData : Option (CborSet PlutusData) := none
  redeemers : Option Redeemers := none
  plutusV2Scripts : Option (CborSet (PlutusVersionScript .v2)) := none
  plutusV3Scripts : Option (CborSet (PlutusVersionScript .v3)) := none
  originalBytes : Option (List UInt8) := none

inductive Field where
  | vkeywitnesses
  | nativeScripts
  | bootstrapWitnesses
  | plutusV1Scripts
  | plutusData
  | redeemers
  | plutusV2Scripts
  | plutusV3Scripts
  deriving DecidableEq

namespace Field

def Value : Field → Type
  | vkeywitnesses => CborSet VkeyWitness
  | nativeScripts => CborSet NativeScript
  | bootstrapWitnesses => CborSet BootstrapWitness
  | plutusV1Scripts => CborSet (PlutusVersionScript .v1)
  | plutusData => CborSet PlutusData
  | redeemers => Redeemers
  | plutusV2Scripts => CborSet (PlutusVersionScript .v2)
  | plutusV3Scripts => CborSet (PlutusVersionScript .v3)

def key : Field → ℤ
  | vkeywitnesses => 0
  | nativeScripts => 1
  | bootstrapWitnesses => 2
  | plutusV1Scripts => 3
  | plutusData => 4
  | redeemers => 5
  | plutusV2Scripts => 6
  | plutusV3Scripts => 7

def ofKey? : ℤ → Option Field
  | 0 => some vkeywitnesses
  | 1 => some nativeScripts
  | 2 => some bootstrapWitnesses
  | 3 => some plutusV1Scripts
  | 4 => some plutusData
  | 5 => some redeemers
  | 6 => some plutusV2Scripts
  | 7 => some plutusV3Scripts
  | _ => none

/-- The fields in the order in which `toCbor` writes them. -/
def written : List Field :=
  [vkeywitnesses, nativeScripts, bootstrapWitnesses, plutusV1Scripts, plutusData, redeemers,
    plutusV2Scripts, plutusV3Scripts]

def size : (field : Field) → field.Value → ℕ
  | vkeywitnesses, set => CborSet.size set
  | nativeScripts, set => CborSet.size set
  | bootstrapWitnesses, set => CborSet.size set
  | plutusV1Scripts, set => CborSet.size set
  | plutusData, set => CborSet.size set
  | redeemers, value => Redeemers.size value
  | plutusV2Scripts, set => CborSet.size set
  | plutusV3Scripts, set => CborSet.size set

/-- Of witnesses with one verification key the first is kept. -/
def write (inConwayEra : Bool) : (field : Field) → field.Value → EncodeM Unit
  | vkeywitnesses, (set : CborSet VkeyWitness) =>
    writePart (CborSet.toCbor inConwayEra VkeyWitness.toCbor)
      (set.setValues (uniqWith (sameKey VkeyWitness.vkey) set.values))
  | nativeScripts, set => writePart (CborSet.toCbor inConwayEra NativeScript.toCbor) set
  | bootstrapWitnesses, (set : CborSet BootstrapWitness) =>
    writePart (CborSet.toCbor inConwayEra BootstrapWitness.toCbor)
      (set.setValues (uniqWith (sameKey BootstrapWitness.vkey) set.values))
  | plutusV1Scripts, set => writePart (CborSet.toCbor inConwayEra PlutusVersionScript.toCbor) set
  | plutusData, set => writePart (CborSet.toCbor inConwayEra plutusDataCodec.toCbor) set
  | redeemers, value => writePart (Redeemers.toCbor inConwayEra) value
  | plutusV2Scripts, set => writePart (CborSet.toCbor inConwayEra PlutusVersionScript.toCbor) set
  | plutusV3Scripts, set => writePart (CborSet.toCbor inConwayEra PlutusVersionScript.toCbor) set

def read : (field : Field) → DecodeM field.Value
  | vkeywitnesses => readPart (CborSet.fromCbor VkeyWitness.fromCbor)
  | nativeScripts => readPart (CborSet.fromCbor NativeScript.fromCbor)
  | bootstrapWitnesses => readPart (CborSet.fromCbor BootstrapWitness.fromCbor)
  | plutusV1Scripts => readPart (CborSet.fromCbor (PlutusVersionScript.fromCbor .v1))
  | plutusData => readPart (CborSet.fromCbor PlutusData.fromCbor)
  | redeemers => readPart Redeemers.fromCbor
  | plutusV2Scripts => readPart (CborSet.fromCbor (PlutusVersionScript.fromCbor .v2))
  | plutusV3Scripts => readPart (CborSet.fromCbor (PlutusVersionScript.fromCbor .v3))

end Field

/-- The lists that `getCddlScripts` fills. -/
structure CddlScripts where
  native : Option (List Cardano.NativeScript) := none
  plutusV1 : Option (List PlutusScript) := none
  plutusV2 : Option (List PlutusScript) := none
  plutusV3 : Option (List PlutusScript) := none

/-- One step of the `reduce`. -/
def CddlScripts.add (scripts : CddlScripts) : Script → Except DecodeException CddlScripts
  | .native script =>
    .ok { scripts with native := AuxiliaryData.addScript scripts.native script }
  | .plutus script =>
    match script.version with
    | .v1 => .ok { scripts with plutusV1 := AuxiliaryData.addScript scripts.plutusV1 script }
    | .v2 => .ok { scripts with plutusV2 := AuxiliaryData.addScript scripts.plutusV2 script }
    | .v3 => .ok { scripts with plutusV3 := AuxiliaryData.addScript scripts.plutusV3 script }
    | .v4 => .error (.error (serializationError "INVALID_SCRIPT_TYPE"
        "Script '[object Object]' is not supported."))

namespace TransactionWitnessSet

def get (witness : TransactionWitnessSet) : (field : Field) → Option field.Value
  | .vkeywitnesses => witness.vkeywitnesses
  | .nativeScripts => witness.nativeScripts
  | .bootstrapWitnesses => witness.bootstrapWitnesses
  | .plutusV1Scripts => witness.plutusV1Scripts
  | .plutusData => witness.plutusData
  | .redeemers => witness.redeemers
  | .plutusV2Scripts => witness.plutusV2Scripts
  | .plutusV3Scripts => witness.plutusV3Scripts

/-- The setters, which drop what was cached. -/
def set (witness : TransactionWitnessSet) : (field : Field) → field.Value → TransactionWitnessSet
  | .vkeywitnesses, value => { witness with vkeywitnesses := some value, originalBytes := none }
  | .nativeScripts, value => { witness with nativeScripts := some value, originalBytes := none }
  | .bootstrapWitnesses, value =>
    { witness with bootstrapWitnesses := some value, originalBytes := none }
  | .plutusV1Scripts, value =>
    { witness with plutusV1Scripts := some value, originalBytes := none }
  | .plutusData, value => { witness with plutusData := some value, originalBytes := none }
  | .redeemers, value => { witness with redeemers := some value, originalBytes := none }
  | .plutusV2Scripts, value =>
    { witness with plutusV2Scripts := some value, originalBytes := none }
  | .plutusV3Scripts, value =>
    { witness with plutusV3Scripts := some value, originalBytes := none }

def fields : KeyedFields TransactionWitnessSet where
  Field := Field
  Value := Field.Value
  ofKey? := Field.ofKey?
  read := Field.read
  set := set
  get := get

/-- `this.#field !== undefined && this.#field.size() > 0` -/
def getSome (witness : TransactionWitnessSet) (field : Field) : Option field.Value :=
  (witness.get field).filter fun value => field.size value > 0

def getMapSize (witness : TransactionWitnessSet) : ℕ :=
  fieldCount (witness.getSome .vkeywitnesses) + fieldCount (witness.getSome .nativeScripts) +
    fieldCount (witness.getSome .bootstrapWitnesses) +
    fieldCount (witness.getSome .plutusV1Scripts) + fieldCount (witness.getSome .plutusData) +
    fieldCount (witness.getSome .redeemers) + fieldCount (witness.getSome .plutusV2Scripts) +
    fieldCount (witness.getSome .plutusV3Scripts)

def toCbor (inConwayEra : Bool) (witness : TransactionWitnessSet) :
    Except EncodeException (List UInt8) :=
  cachedOr witness.originalBytes <| encodeAsHex do
    writing (writeStartMap (some witness.getMapSize))
    Field.written.forM fun field =>
      writeField field.key (witness.getSome field) (field.write inConwayEra)

/-- The default of the `switch`. -/
def unknownKey (strict : Bool) (key : ℤ) (witness : TransactionWitnessSet) :
    DecodeM TransactionWitnessSet :=
  if strict then
    throw (.error (serializationError "UNKNOWN_FIELD"
      ("Unknown transaction witness set map key: " ++ toString key)))
  else do
    reading skipValue
    pure witness

def fromCbor (strict : Bool) (cbor : List UInt8) : Except DecodeException TransactionWitnessSet :=
  decodeWith cbor do
    let witness ← readFields (fields.stepOr (unknownKey strict)) (cbor.length + 1) {}
    pure { witness with originalBytes := some cbor }

/-- The core values of a set, none for an absent one. -/
def setToCore {Core T : Type} (toCore : T → Except EncodeException Core)
    (set : Option (CborSet T)) : Except EncodeException (List Core) :=
  match set with
  | some set => set.toCore toCore
  | none => .ok []

def getCoreScripts (witness : TransactionWitnessSet) : Except EncodeException (List Script) := do
  let plutusV1 ← setToCore (plutusScriptCodec .v1).toCore witness.plutusV1Scripts
  let plutusV2 ← setToCore (plutusScriptCodec .v2).toCore witness.plutusV2Scripts
  let plutusV3 ← setToCore (plutusScriptCodec .v3).toCore witness.plutusV3Scripts
  let nativeScripts ← setToCore nativeScriptCodec.toCore witness.nativeScripts
  return plutusV1.map Script.plutus ++ plutusV2.map Script.plutus ++
    plutusV3.map Script.plutus ++ nativeScripts.map Script.native

/-- `this.#redeemers?.size() ? this.#redeemers.toCore() : undefined` -/
def redeemersToCore (redeemers : Option Redeemers) :
    Except EncodeException (Option (List CoreRedeemer)) :=
  (redeemers.filter fun redeemers => redeemers.size > 0).mapM Redeemers.toCore

def toCore (witness : TransactionWitnessSet) : Except EncodeException Witness := do
  let scripts ← witness.getCoreScripts
  let bootstrap ← witness.bootstrapWitnesses.mapM (CborSet.toCore bootstrapWitnessCodec.toCore)
  let datums ← witness.plutusData.mapM (CborSet.toCore plutusDataCodec.toCore)
  let redeemers ← redeemersToCore witness.redeemers
  let signatures ← setToCore vkeyWitnessCodec.toCore witness.vkeywitnesses
  return {
    bootstrap := bootstrap
    datums := datums
    redeemers := redeemers
    scripts := if scripts.length > 0 then some scripts else none
    signatures := JsMap.ofList signatures }

def setScripts (witness : TransactionWitnessSet) (coreScripts : List Script) :
    Except DecodeException TransactionWitnessSet := do
  let scripts ← coreScripts.foldlM CddlScripts.add {}
  let native ← scripts.native.mapM (CborSet.fromCore nativeScriptCodec.fromCore)
  let plutusV1 ← scripts.plutusV1.mapM (CborSet.fromCore (plutusScriptCodec .v1).fromCore)
  let plutusV2 ← scripts.plutusV2.mapM (CborSet.fromCore (plutusScriptCodec .v2).fromCore)
  let plutusV3 ← scripts.plutusV3.mapM (CborSet.fromCore (plutusScriptCodec .v3).fromCore)
  return { witness with
    nativeScripts := native
    plutusV1Scripts := plutusV1
    plutusV2Scripts := plutusV2
    plutusV3Scripts := plutusV3 }

def fromCore (coreWitness : Witness) : Except DecodeException TransactionWitnessSet := do
  let vkeys ← CborSet.fromCore vkeyWitnessCodec.fromCore coreWitness.signatures.entries
  let withScripts ← setScripts { vkeywitnesses := some vkeys } (coreWitness.scripts.getD [])
  let redeemers ← coreWitness.redeemers.mapM Redeemers.fromCore
  let plutusData ← coreWitness.datums.mapM (CborSet.fromCore plutusDataCodec.fromCore)
  let bootstraps ← coreWitness.bootstrap.mapM (CborSet.fromCore bootstrapWitnessCodec.fromCore)
  return { withScripts with
    redeemers := redeemers
    plutusData := plutusData
    bootstrapWitnesses := bootstraps }

end TransactionWitnessSet

def transactionWitnessSetCodec (inConwayEra strict : Bool) :
    Codec Witness TransactionWitnessSet where
  fromCore := TransactionWitnessSet.fromCore
  toCbor := TransactionWitnessSet.toCbor inConwayEra
  fromCbor := TransactionWitnessSet.fromCbor strict
  toCore := TransactionWitnessSet.toCore

end CardanoSdk.Serialization.WitnessCodec
