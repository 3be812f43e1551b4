import CardanoSdk.KeyManagement.OwnSignatureKeyPaths
import CardanoSdk.Serialization.WitnessSet

/-!
`Bip32Ed25519Witnesser.witness` with an `InMemoryKeyAgent`, and the stub of
`key-management/src/util/stubSignTransaction.ts`. Key derivation, hashing and signing are
functions of the agent; `body()` is a deep clone, so it is the body.
-/

namespace CardanoSdk.KeyManagement

open Lib TxConstruction
open Cbor (RangeError writeStartArray writeByteString)
open Plutus (encodeWith)
open Serialization (cborSetToCbor)
open Cardano (Script)

/-- `Ed25519PublicKeyHex`, in lower-case hex. -/
abbrev Ed25519PublicKey := { bytes : List UInt8 // bytes.length = 32 }

/-- `Ed25519SignatureHex`, in lower-case hex. -/
abbrev Ed25519Signature := { bytes : List UInt8 // bytes.length = 64 }

abbrev Signatures := JsMap Ed25519PublicKey Ed25519Signature

structure TransactionBody where
  core : TxBody
  hash : List UInt8

/-- The signatures that a transaction already has are in its witness set. -/
structure Transaction where
  body : TransactionBody
  signatures : Signatures

inductive SigningError where
  | keyPaths (error : SignatureError)
  | keyAgent (message : String)
  | extraSigner (message : String)
  deriving DecidableEq

structure TransactionSignature where
  pubKey : Ed25519PublicKey
  signature : Ed25519Signature

abbrev TransactionSigner := TransactionBody → Except SigningError TransactionSignature

structure SignTransactionContext where
  txInKeyPathMap : TxInKeyPathMap
  knownAddresses : List GroupedAddress
  dRepKeyHashHex : Option Hash := none
  scripts : Option (List Script) := none

structure WitnessOptions where
  additionalKeyPaths : Option (List AccountKeyDerivationPath) := none
  extraSigners : Option (List TransactionSigner) := none
  stubSign : Option Bool := none

structure InMemoryKeyAgent where
  derivePublicKey : AccountKeyDerivationPath → Except SigningError Ed25519PublicKey
  hash : Ed25519PublicKey → Hash
  signBlob : AccountKeyDerivationPath → List UInt8 →
    Except SigningError (Ed25519PublicKey × Ed25519Signature)

def KeyRole.toNat : KeyRole → ℕ
  | .external => 0
  | .internal => 1
  | .stake => 2
  | .dRep => 3

/-- `${role}.${index}` -/
def roleAndIndex (path : AccountKeyDerivationPath) : String :=
  toString path.role.toNat ++ "." ++ toString path.index

def requiredKeyPaths (txBody : TxBody) (context : SignTransactionContext)
    (dRepKeyHash : Option Hash) : Except SigningError (List AccountKeyDerivationPath) :=
  (ownSignatureKeyPaths txBody context.knownAddresses context.txInKeyPathMap dRepKeyHash
    context.scripts).mapError SigningError.keyPaths

def InMemoryKeyAgent.signTransaction (agent : InMemoryKeyAgent) (txBody : TransactionBody)
    (context : SignTransactionContext) (options : WitnessOptions) :
    Except SigningError Signatures := do
  let dRepKey ← agent.derivePublicKey dRepKeyDerivationPath
  let derivationPaths ← requiredKeyPaths txBody.core context (some (agent.hash dRepKey))
  let keyPaths := uniqWith (sameKey roleAndIndex)
    (derivationPaths ++ options.additionalKeyPaths.getD [])
  let signed ← keyPaths.mapM fun path => agent.signBlob path txBody.hash
  return JsMap.ofList signed

def getSignatures (agent : InMemoryKeyAgent) (txBody : TransactionBody)
    (context : SignTransactionContext) (options : WitnessOptions) :
    Except SigningError Signatures := do
  let signatures ← agent.signTransaction txBody context options
  (options.extraSigners.getD []).foldlM (fun signatures extraSigner => do
    let extraSignature ← extraSigner txBody
    return signatures.set extraSignature.pubKey extraSignature.signature) signatures

def mockSignature : Ed25519Signature := ⟨List.replicate 64 0xff, by decide⟩

def totalSignature (txBody : TxBody) (context : SignTransactionContext)
    (options : WitnessOptions) : Except SigningError ℕ := do
  let derivationPaths ← requiredKeyPaths txBody context context.dRepKeyHashHex
  let signatureKeyPaths := uniqWith (sameKey id)
    (derivationPaths ++ options.additionalKeyPaths.getD [])
  return signatureKeyPaths.length + (options.extraSigners.getD []).length

/-- `randomPublicKey` gives the key of every turn of the loop. -/
def stubSignTransaction (randomPublicKey : ℕ → Ed25519PublicKey) (txBody : TxBody)
    (context : SignTransactionContext) (options : WitnessOptions) :
    Except SigningError Signatures := do
  let total ← totalSignature txBody context options
  return (List.range total).foldl (fun signatureMap i =>
    signatureMap.set (randomPublicKey i) mockSignature) JsMap.empty

def witness (agent : InMemoryKeyAgent) (randomPublicKey : ℕ → Ed25519PublicKey)
    (tx : Transaction) (context : SignTransactionContext) (options : WitnessOptions) :
    Except SigningError Signatures := do
  let signatures ←
    if options.stubSign = some true then
      stubSignTransaction randomPublicKey tx.body.core context options
    else getSignatures agent tx.body context options
  return JsMap.ofList (signatures.entries ++ tx.signatures.entries)

def vkeyWitnessToCbor (vkey : Ed25519PublicKey) (signature : Ed25519Signature) :
    Except RangeError (List UInt8) :=
  encodeWith do
    writeStartArray (some 2)
    writeByteString vkey.1
    writeByteString signature.1

def vkeysToCbor (inConwayEra : Bool) (signatures : Signatures) :
    Except RangeError (List UInt8) := do
  let elements ← signatures.entries.mapM fun (vkey, signature) => vkeyWitnessToCbor vkey signature
  cborSetToCbor inConwayEra elements

end CardanoSdk.KeyManagement
