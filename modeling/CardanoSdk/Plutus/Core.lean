import CardanoSdk.Lib.MapConversion
import CardanoSdk.Plutus.PlutusData

/-!
Plutus data of the core domain and their conversion to and from the objects
that are serialized: `Cardano.PlutusData`, `PlutusData.fromCore` and `toCore`.
-/

namespace CardanoSdk.Plutus

open Lib Cbor

/-- A collection may carry the CBOR it was decoded from. The keys of a map that
are collections or bytes are compared by identity, so `data` is the list of its
entries; keys that are integers stand in it once. -/
inductive CoreData where
  | integer (value : ℤ)
  | bytes (value : List UInt8)
  | list (cbor : Option (List UInt8)) (items : List CoreData)
  | map (cbor : Option (List UInt8)) (data : List (CoreData × CoreData))
  | constr (cbor : Option (List UInt8)) (constructor : ℤ) (fieldsCbor : Option (List UInt8))
      (fields : List CoreData)

/-- The empty text is falsy. -/
def truthy : Option (List UInt8) → Option (List UInt8)
  | some (byte :: bytes) => some (byte :: bytes)
  | _ => none

mutual

/-- `PlutusData.fromCore`: what was decoded is decoded again. -/
def PlutusData.fromCore : CoreData → Except DecodeException PlutusData
  | .bytes value => .ok (.bytes none value)
  | .integer value => .ok (.integer none value)
  | .list cbor items =>
    match truthy cbor with
    | some cbor => PlutusData.fromCbor cbor
    | none => do
        let items ← itemsFromCore items
        .ok (.list none items)
  | .map cbor data =>
    match truthy cbor with
    | some cbor => PlutusData.fromCbor cbor
    | none => do
        let entries ← entriesFromCore data
        .ok (.map none false entries)
  | .constr cbor alternative _ fields =>
    match truthy cbor with
    | some cbor => PlutusData.fromCbor cbor
    | none => do
        let data ← itemsFromCore fields
        .ok (.constr none alternative data)

def itemsFromCore : List CoreData → Except DecodeException (List PlutusData)
  | [] => .ok []
  | item :: items => do
      let first ← PlutusData.fromCore item
      let rest ← itemsFromCore items
      .ok (first :: rest)

def entriesFromCore : List (CoreData × CoreData) →
    Except DecodeException (List (PlutusData × PlutusData))
  | [] => .ok []
  | (key, value) :: entries => do
      let first ← PlutusData.fromCore key
      let second ← PlutusData.fromCore value
      let rest ← entriesFromCore entries
      .ok ((first, second) :: rest)

end

mutual

/-- `equals` does not look at the bytes an object was decoded from. -/
def PlutusData.equals : PlutusData → PlutusData → Bool
  | .bytes _ value, .bytes _ value' => value = value'
  | .integer _ value, .integer _ value' => value = value'
  | .constr _ alternative data, .constr _ alternative' data' =>
    alternative = alternative' && itemsEqual data data'
  | .list _ items, .list _ items' => itemsEqual items items'
  | .map _ useIndefiniteEncoding entries, .map _ useIndefiniteEncoding' entries' =>
    useIndefiniteEncoding = useIndefiniteEncoding' && entriesEqual entries entries'
  | _, _ => false

def itemsEqual : List PlutusData → List PlutusData → Bool
  | [], [] => true
  | item :: items, item' :: items' => item.equals item' && itemsEqual items items'
  | _, _ => false

def entriesEqual : List (PlutusData × PlutusData) → List (PlutusData × PlutusData) → Bool
  | [], [] => true
  | (key, value) :: entries, (key', value') :: entries' =>
    key.equals key' && value.equals value' && entriesEqual entries entries'
  | _, _ => false

end

/-- The keys of a core map: only integers are found again. -/
def sameCore : CoreData → CoreData → Bool
  | .integer number, .integer number' => number = number'
  | _, _ => false

mutual

/-- `PlutusData.toCore`, which attaches the CBOR of every collection. The value of a key is
`plutusMap.get(key)!.toCore()`. -/
def PlutusData.toCore : PlutusData → Except RangeError CoreData
  | .bytes _ value => .ok (.bytes value)
  | .integer _ value => .ok (.integer value)
  | .constr original alternative data => do
      let cbor ← (PlutusData.constr original alternative data).toCbor
      let fields ← itemsToCore data
      let elements ← elementsToCbor data
      let fieldsCbor ← encodeWith (writePlutusList elements)
      .ok (.constr (some cbor) alternative (some fieldsCbor) fields)
  | .list _ items => do
      let coreItems ← itemsToCore items
      let elements ← elementsToCbor items
      let cbor ← encodeWith (writePlutusList elements)
      .ok (.list (some cbor) coreItems)
  | .map original useIndefiniteEncoding entries => do
      let coreMap ← convertMap .outOfRange PlutusData.equals sameCore (convertEntries entries)
      let cbor ← (PlutusData.map original useIndefiniteEncoding entries).toCbor
      .ok (.map (some cbor) coreMap)

def itemsToCore : List PlutusData → Except RangeError (List CoreData)
  | [] => .ok []
  | item :: items => do
      let first ← item.toCore
      let rest ← itemsToCore items
      .ok (first :: rest)

def convertEntries : List (PlutusData × PlutusData) →
    List (Conversion RangeError PlutusData CoreData)
  | [] => []
  | (key, value) :: entries => ⟨key, key.toCore, value.toCore⟩ :: convertEntries entries

end

end CardanoSdk.Plutus
