import CardanoSdk.Serialization.Containers

/-!
`NativeScript` and the classes of its kinds, of
`core/src/Serialization/Scripts/NativeScript`, and `Credential`.
-/

namespace CardanoSdk.Cardano

open TxConstruction (Credential Hash)

/-- The hash of a key in lower-case hex, which is checked when it is made. -/
abbrev Ed25519KeyHashHex := { hash : Hash // hash.length = 28 }

/-- `Crypto.Ed25519KeyHashHex` of the text of the bytes. -/
def ed25519KeyHashHex (bytes : List UInt8) : Except String Ed25519KeyHashHex :=
  if h : bytes.length = 28 then .ok ⟨bytes, h⟩
  else .error (invalidString ("expected length '56', got " ++ toString (2 * bytes.length)))

inductive NativeScriptKind where
  | requireSignature
  | requireAllOf
  | requireAnyOf
  | requireNOf
  | requireTimeAfter
  | requireTimeBefore
  | requireGuard
  deriving DecidableEq

def NativeScriptKind.toNat : NativeScriptKind → ℕ
  | .requireSignature => 0
  | .requireAllOf => 1
  | .requireAnyOf => 2
  | .requireNOf => 3
  | .requireTimeAfter => 4
  | .requireTimeBefore => 5
  | .requireGuard => 6

def NativeScriptKind.ofInt? : ℤ → Option NativeScriptKind
  | 0 => some .requireSignature
  | 1 => some .requireAllOf
  | 2 => some .requireAnyOf
  | 3 => some .requireNOf
  | 4 => some .requireTimeAfter
  | 5 => some .requireTimeBefore
  | 6 => some .requireGuard
  | _ => none

inductive NativeScript where
  | requireSignature (keyHash : Ed25519KeyHashHex)
  | requireAllOf (scripts : List NativeScript)
  | requireAnyOf (scripts : List NativeScript)
  | requireNOf (required : ℤ) (scripts : List NativeScript)
  | requireTimeAfter (slot : ℤ)
  | requireTimeBefore (slot : ℤ)
  | requireGuard (credential : Credential)

end CardanoSdk.Cardano

namespace CardanoSdk.Serialization

open Lib Cbor Plutus Cardano
open TxConstruction (Credential CredentialType)

def credentialArraySize : ℕ := 2

def credentialTypeNumber : CredentialType → ℕ
  | .keyHash => 0
  | .scriptHash => 1

def credentialToCbor (credential : Credential) : Except EncodeException (List UInt8) :=
  encodeAsHex do
    writing (writeStartArray (some credentialArraySize))
    writing (writeInt (credentialTypeNumber credential.type))
    writing (writeByteString credential.hash)

def readCredentialType : DecodeM CredentialType := do
  let type ← reading readInt
  if toNumber type = credentialTypeNumber .keyHash then pure .keyHash
  else if toNumber type = credentialTypeNumber .scriptHash then pure .scriptHash
  else throw (.error (invalidState
    ("Unexpected credential type value: " ++ integerText (toNumber type))))

/-- The length of the hash is not checked. The message about another length
reads a variable that does not exist. -/
def credentialFromCbor (cbor : List UInt8) : Except DecodeException Credential :=
  decodeWith cbor do
    let length ← reading readStartArray
    if length ≠ some credentialArraySize then throw (.error "length is not defined")
    else
      let type ← readCredentialType
      let hash ← reading readByteString
      reading readEndArray
      pure { type := type, hash := hash }

inductive NativeScript where
  | scriptPubkey (originalBytes kindBytes : Option (List UInt8)) (keyHash : Ed25519KeyHashHex)
  | scriptAll (originalBytes kindBytes : Option (List UInt8)) (nativeScripts : List NativeScript)
  | scriptAny (originalBytes kindBytes : Option (List UInt8)) (nativeScripts : List NativeScript)
  | scriptNOfK (originalBytes kindBytes : Option (List UInt8)) (nativeScripts : List NativeScript)
      (required : ℤ)
  | timelockStart (originalBytes kindBytes : Option (List UInt8)) (slot : ℤ)
  | timelockExpiry (originalBytes kindBytes : Option (List UInt8)) (slot : ℤ)
  | requireGuard (originalBytes kindBytes : Option (List UInt8)) (credential : Credential)

namespace NativeScript

def newScriptPubkey (keyHash : Ed25519KeyHashHex) : NativeScript := .scriptPubkey none none keyHash

def newScriptAll (nativeScripts : List NativeScript) : NativeScript :=
  .scriptAll none none nativeScripts

def newScriptAny (nativeScripts : List NativeScript) : NativeScript :=
  .scriptAny none none nativeScripts

def newScriptNOfK (nativeScripts : List NativeScript) (required : ℤ) : NativeScript :=
  .scriptNOfK none none nativeScripts required

def newTimelockStart (slot : ℤ) : NativeScript := .timelockStart none none slot

def newTimelockExpiry (slot : ℤ) : NativeScript := .timelockExpiry none none slot

def newRequireGuard (credential : Credential) : NativeScript := .requireGuard none none credential

end NativeScript

/-- `EMBEDDED_GROUP_SIZE` of the class of the kind. -/
def embeddedGroupSize : NativeScriptKind → ℕ
  | .requireNOf => 3
  | _ => 2

/-- The group of a kind, given how its other elements are written. -/
def encodeGroup (kind : NativeScriptKind) (write : WriteM Unit) :
    Except EncodeException (List UInt8) :=
  encodeAsHex do
    writing (writeStartArray (some (embeddedGroupSize kind)))
    writing (writeInt kind.toNat)
    writing write

def writeScripts (encoded : List (List UInt8)) : WriteM Unit := do
  writeStartArray (some encoded.length)
  encoded.forM writeEncodedValue

mutual

def NativeScript.toCbor : NativeScript → Except EncodeException (List UInt8)
  | .scriptPubkey original kindBytes keyHash => cachedOr original (cachedOr kindBytes
      (encodeGroup .requireSignature (writeByteString keyHash.1)))
  | .scriptAll original kindBytes nativeScripts => cachedOr original (cachedOr kindBytes do
      let encoded ← nativeScriptsToCbor nativeScripts
      encodeGroup .requireAllOf (writeScripts encoded))
  | .scriptAny original kindBytes nativeScripts => cachedOr original (cachedOr kindBytes do
      let encoded ← nativeScriptsToCbor nativeScripts
      encodeGroup .requireAnyOf (writeScripts encoded))
  | .scriptNOfK original kindBytes nativeScripts required =>
    cachedOr original (cachedOr kindBytes do
      let encoded ← nativeScriptsToCbor nativeScripts
      encodeGroup .requireNOf do
        writeInt required
        writeScripts encoded)
  | .timelockStart original kindBytes slot => cachedOr original (cachedOr kindBytes
      (encodeGroup .requireTimeAfter (writeInt slot)))
  | .timelockExpiry original kindBytes slot => cachedOr original (cachedOr kindBytes
      (encodeGroup .requireTimeBefore (writeInt slot)))
  | .requireGuard original kindBytes credential => cachedOr original (cachedOr kindBytes do
      let encoded ← credentialToCbor credential
      encodeGroup .requireGuard (writeEncodedValue encoded))

def nativeScriptsToCbor : List NativeScript → Except EncodeException (List (List UInt8))
  | [] => .ok []
  | script :: scripts => do
      let first ← script.toCbor
      let rest ← nativeScriptsToCbor scripts
      .ok (first :: rest)

end

/-- `hash`, given the hash function `blake2b` of 28 bytes. -/
def NativeScript.hash (blake2b : List UInt8 → List UInt8) (script : NativeScript) :
    Except EncodeException (List UInt8) := do
  let cbor ← script.toCbor
  return blake2b (0 :: cbor)

/-- `fromCbor` of the class of a kind, given how the other elements are read. -/
def readGroup {α : Type} (kind : NativeScriptKind) (cbor : List UInt8) (rest : DecodeM α) :
    Except DecodeException α :=
  decodeWith cbor do
    let length ← reading readStartArray
    if length ≠ some (embeddedGroupSize kind) then
      throw (invalidCbor ("Expected an array of two elements, but got an array of " ++
        (length.map numberText).getD "null" ++ " elements"))
    else
      let value ← reading readInt
      if toNumber value ≠ kind.toNat then
        throw (invalidCbor ("Expected kind " ++ toString kind.toNat ++ ", but got kind " ++
          integerText (toNumber value)))
      else rest

section Decoding

variable (fromCbor : List UInt8 → Except DecodeException NativeScript) (cbor : List UInt8)

def readScripts : DecodeM (List NativeScript) := readList fromCbor (cbor.length + 1)

/-- `fromCbor` of the class of the kind, the bytes noted in both objects. -/
def readKind : NativeScriptKind → Except DecodeException NativeScript
  | .requireSignature => readGroup .requireSignature cbor do
      let bytes ← reading readByteString
      let key ← checking (ed25519KeyHashHex bytes)
      pure (.scriptPubkey (some cbor) (some cbor) key)
  | .requireAllOf => readGroup .requireAllOf cbor do
      let scripts ← readScripts fromCbor cbor
      pure (.scriptAll (some cbor) (some cbor) scripts)
  | .requireAnyOf => readGroup .requireAnyOf cbor do
      let scripts ← readScripts fromCbor cbor
      pure (.scriptAny (some cbor) (some cbor) scripts)
  | .requireNOf => readGroup .requireNOf cbor do
      let required ← reading readInt
      let scripts ← readScripts fromCbor cbor
      pure (.scriptNOfK (some cbor) (some cbor) scripts (toNumber required))
  | .requireTimeAfter => readGroup .requireTimeAfter cbor do
      let slot ← reading readInt
      pure (.timelockStart (some cbor) (some cbor) (toNumber slot))
  | .requireTimeBefore => readGroup .requireTimeBefore cbor do
      let slot ← reading readInt
      pure (.timelockExpiry (some cbor) (some cbor) (toNumber slot))
  | .requireGuard => readGroup .requireGuard cbor do
      let credential ← readPart credentialFromCbor
      pure (.requireGuard (some cbor) (some cbor) credential)

/-- The number of the kind, which is read from a reader of its own. -/
def peekKind : Except DecodeException ℤ :=
  decodeWith cbor do
    let _ ← reading readStartArray
    let kind ← reading readInt
    pure (toNumber kind)

end Decoding

/-- `NativeScript.fromCbor`; the fuel bounds the nesting. -/
def nativeScriptWithin : ℕ → List UInt8 → Except DecodeException NativeScript
  | 0, _ => .error .outOfFuel
  | fuel + 1, cbor => do
      let kind ← peekKind cbor
      match NativeScriptKind.ofInt? kind with
      | some kind => readKind (nativeScriptWithin fuel) cbor kind
      | none => .error (.error (invalidState ("Unexpected kind value: " ++ integerText kind)))

/-- Every level of nesting takes a byte, so the length of the data bounds it. -/
def NativeScript.fromCbor (cbor : List UInt8) : Except DecodeException NativeScript :=
  nativeScriptWithin (cbor.length + 1) cbor

mutual

def NativeScript.toCore : NativeScript → Cardano.NativeScript
  | .scriptPubkey _ _ keyHash => .requireSignature keyHash
  | .scriptAll _ _ nativeScripts => .requireAllOf (nativeScriptsToCore nativeScripts)
  | .scriptAny _ _ nativeScripts => .requireAnyOf (nativeScriptsToCore nativeScripts)
  | .scriptNOfK _ _ nativeScripts required =>
    .requireNOf required (nativeScriptsToCore nativeScripts)
  | .timelockStart _ _ slot => .requireTimeAfter slot
  | .timelockExpiry _ _ slot => .requireTimeBefore slot
  | .requireGuard _ _ credential => .requireGuard credential

def nativeScriptsToCore : List NativeScript → List Cardano.NativeScript
  | [] => []
  | script :: scripts => script.toCore :: nativeScriptsToCore scripts

end

mutual

def NativeScript.fromCore : Cardano.NativeScript → NativeScript
  | .requireSignature keyHash => .newScriptPubkey keyHash
  | .requireAllOf scripts => .newScriptAll (nativeScriptsFromCore scripts)
  | .requireAnyOf scripts => .newScriptAny (nativeScriptsFromCore scripts)
  | .requireNOf required scripts => .newScriptNOfK (nativeScriptsFromCore scripts) required
  | .requireTimeAfter slot => .newTimelockStart slot
  | .requireTimeBefore slot => .newTimelockExpiry slot
  | .requireGuard credential => .newRequireGuard credential

def nativeScriptsFromCore : List Cardano.NativeScript → List NativeScript
  | [] => []
  | script :: scripts => NativeScript.fromCore script :: nativeScriptsFromCore scripts

end

end CardanoSdk.Serialization
