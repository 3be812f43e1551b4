import CardanoSdk.InputSelection.Types
import CardanoSdk.Plutus.Core

/-!
The encoders of `TransactionWitnessSet`, `Redeemers` and `CborSet`, for objects that come
from core and so have no cached bytes. `inConwayEra` is the switch of `util/conwayEra.ts`.
The sets of keys and scripts are given by their encodings.
-/

namespace CardanoSdk.Serialization

open Lib Cbor Plutus InputSelection

structure CoreRedeemer where
  purpose : RedeemerPurpose
  index : ℕ
  data : CoreData
  memory : ℕ
  steps : ℕ

structure Redeemer where
  tag : ℕ
  index : ℕ
  data : PlutusData
  mem : ℕ
  steps : ℕ

def redeemerTag : RedeemerPurpose → ℕ
  | .spend => 0
  | .mint => 1
  | .certificate => 2
  | .withdrawal => 3
  | .vote => 4
  | .propose => 5
  | .guarding => 6

def Redeemer.fromCore (redeemer : CoreRedeemer) : Except DecodeException Redeemer := do
  let data ← PlutusData.fromCore redeemer.data
  return {
    tag := redeemerTag redeemer.purpose
    index := redeemer.index
    data := data
    mem := redeemer.memory
    steps := redeemer.steps }

def exUnitsToCbor (mem steps : ℕ) : Except RangeError (List UInt8) :=
  encodeWith do
    writeStartArray (some 2)
    writeInt mem
    writeInt steps

def Redeemer.toCbor (redeemer : Redeemer) : Except RangeError (List UInt8) := do
  let data ← redeemer.data.toCbor
  let exUnits ← exUnitsToCbor redeemer.mem redeemer.steps
  encodeWith do
    writeStartArray (some 4)
    writeInt redeemer.tag
    writeInt redeemer.index
    writeEncodedValue data
    writeEncodedValue exUnits

/-- One entry of the map that Conway has for redeemers. -/
def writeRedeemerEntry (redeemer : Redeemer) (data exUnits : List UInt8) : WriteM Unit := do
  writeStartArray (some 2)
  writeInt redeemer.tag
  writeInt redeemer.index
  writeStartArray (some 2)
  writeEncodedValue data
  writeEncodedValue exUnits

/-- `Redeemers.toCbor`: in the map a later redeemer replaces one of its tag and index. -/
def redeemersToCbor (inConwayEra : Bool) (values : List Redeemer) :
    Except RangeError (List UInt8) :=
  if inConwayEra then do
    let redeemersMap := JsMap.ofList
      (values.map (fun redeemer => ((redeemer.tag, redeemer.index), redeemer)))
    let entries ← redeemersMap.values.mapM (fun redeemer => do
      let data ← redeemer.data.toCbor
      let exUnits ← exUnitsToCbor redeemer.mem redeemer.steps
      return (redeemer, data, exUnits))
    encodeWith do
      writeStartMap (some redeemersMap.size)
      entries.forM (fun (redeemer, data, exUnits) => writeRedeemerEntry redeemer data exUnits)
  else do
    let elements ← values.mapM Redeemer.toCbor
    encodeWith do
      writeStartArray (some values.length)
      elements.forM writeEncodedValue

def setTag : ℕ := 258

/-- `CborSet.toCbor`, given the encodings of its elements. -/
def cborSetToCbor (inConwayEra : Bool) (elements : List (List UInt8)) :
    Except RangeError (List UInt8) :=
  encodeWith do
    if inConwayEra then writeTag setTag else pure ()
    writeStartArray (some elements.length)
    elements.forM writeEncodedValue

/-- A set of keys or scripts is the encoding it has if it is not empty. -/
structure CoreWitness where
  redeemers : Option (List CoreRedeemer) := none
  datums : Option (List CoreData) := none
  vkeywitnesses : Option (List UInt8) := none
  nativeScripts : Option (List UInt8) := none
  bootstrapWitnesses : Option (List UInt8) := none
  plutusV1Scripts : Option (List UInt8) := none
  plutusV2Scripts : Option (List UInt8) := none
  plutusV3Scripts : Option (List UInt8) := none

structure TransactionWitnessSet where
  vkeywitnesses : Option (List UInt8)
  nativeScripts : Option (List UInt8)
  bootstrapWitnesses : Option (List UInt8)
  plutusV1Scripts : Option (List UInt8)
  plutusData : Option (List PlutusData)
  redeemers : Option (List Redeemer)
  plutusV2Scripts : Option (List UInt8)
  plutusV3Scripts : Option (List UInt8)

/-- The optional list of a core object, converted where it is present. -/
def convertOptional {α β ε : Type} (convert : α → Except ε β) (items : Option (List α)) :
    Except ε (Option (List β)) :=
  match items with
  | none => .ok none
  | some items => do
      let converted ← items.mapM convert
      return some converted

def TransactionWitnessSet.fromCore (coreWitness : CoreWitness) :
    Except DecodeException TransactionWitnessSet := do
  let redeemers ← convertOptional Redeemer.fromCore coreWitness.redeemers
  let plutusData ← convertOptional PlutusData.fromCore coreWitness.datums
  return {
    vkeywitnesses := coreWitness.vkeywitnesses
    nativeScripts := coreWitness.nativeScripts
    bootstrapWitnesses := coreWitness.bootstrapWitnesses
    plutusV1Scripts := coreWitness.plutusV1Scripts
    plutusData := plutusData
    redeemers := redeemers
    plutusV2Scripts := coreWitness.plutusV2Scripts
    plutusV3Scripts := coreWitness.plutusV3Scripts }

/-- A set is written if it is present and has elements. -/
def writtenIfAny {α : Type} (toCbor : List α → Except RangeError (List UInt8))
    (items : Option (List α)) : Except RangeError (Option (List UInt8)) :=
  match items with
  | some (item :: items) => do
      let cbor ← toCbor (item :: items)
      return some cbor
  | _ => .ok none

def presentFields : List (ℕ × Option (List UInt8)) → List (ℕ × List UInt8)
  | [] => []
  | (_, none) :: fields => presentFields fields
  | (key, some cbor) :: fields => (key, cbor) :: presentFields fields

theorem lookup_presentFields_cons (key field : ℕ) (cbor : Option (List UInt8))
    (fields : List (ℕ × Option (List UInt8))) :
    JsMap.lookup key (presentFields ((field, cbor) :: fields)) =
      if key = field then cbor.or (JsMap.lookup key (presentFields fields))
      else JsMap.lookup key (presentFields fields) := by
  cases cbor with
  | none => simp [presentFields]
  | some cbor => simp [presentFields, JsMap.lookup]

/-- The keys of the map and the bytes written under them. -/
def TransactionWitnessSet.fields (witness : TransactionWitnessSet) (inConwayEra : Bool) :
    Except RangeError (List (ℕ × List UInt8)) := do
  let plutusData ← writtenIfAny (fun datums => do
    let elements ← datums.mapM PlutusData.toCbor
    cborSetToCbor inConwayEra elements) witness.plutusData
  let redeemers ← writtenIfAny (redeemersToCbor inConwayEra) witness.redeemers
  return presentFields
    [(0, witness.vkeywitnesses), (1, witness.nativeScripts), (2, witness.bootstrapWitnesses),
      (3, witness.plutusV1Scripts), (4, plutusData), (5, redeemers),
      (6, witness.plutusV2Scripts), (7, witness.plutusV3Scripts)]

def TransactionWitnessSet.toCbor (witness : TransactionWitnessSet) (inConwayEra : Bool) :
    Except RangeError (List UInt8) := do
  let fields ← witness.fields inConwayEra
  encodeWith do
    writeStartMap (some fields.length)
    fields.forM (fun (key, cbor) => do
      writeInt key
      writeEncodedValue cbor)

/-- The bytes that `toCbor` writes under a key, if it writes the key. -/
def TransactionWitnessSet.writtenUnder (witness : TransactionWitnessSet) (inConwayEra : Bool)
    (key : ℕ) : Except RangeError (Option (List UInt8)) := do
  let fields ← witness.fields inConwayEra
  return JsMap.lookup key fields

end CardanoSdk.Serialization
