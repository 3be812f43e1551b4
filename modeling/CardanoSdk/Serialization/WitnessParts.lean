import CardanoSdk.Serialization.CborSet
import CardanoSdk.Serialization.ParamParts

/-!
The witnesses of keys and the redeemers of `core/src/Serialization/TransactionWitnessSet`.
The caches of single redeemers and of their execution units, which are never written
behind that of `Redeemers`, are left out.
-/

namespace CardanoSdk.Cardano

/-- Its texts are given by the bytes that they stand for. -/
structure BootstrapWitness where
  signature : List UInt8
  chainCode : Option (List UInt8) := none
  addressAttributes : Option (List UInt8) := none
  key : List UInt8
  deriving DecidableEq

end CardanoSdk.Cardano

namespace CardanoSdk.Serialization

open Lib Cbor Plutus Cardano
open InputSelection (RedeemerPurpose)

structure VkeyWitness where
  vkey : List UInt8
  signature : List UInt8
  originalBytes : Option (List UInt8) := none
  deriving DecidableEq

namespace VkeyWitness

def toCbor (witness : VkeyWitness) : Except EncodeException (List UInt8) :=
  cachedOr witness.originalBytes <| encodeAsHex do
    writing (writeStartArray (some 2))
    writing (writeByteString witness.vkey)
    writing (writeByteString witness.signature)

def fromCbor (cbor : List UInt8) : Except DecodeException VkeyWitness :=
  decodeWith cbor <| readFixedArray 2 do
    let vkey ← reading readByteString
    let signature ← reading readByteString
    pure { vkey := vkey, signature := signature, originalBytes := some cbor }

def toCore (witness : VkeyWitness) : List UInt8 × List UInt8 := (witness.vkey, witness.signature)

def fromCore (signatureEntry : List UInt8 × List UInt8) : VkeyWitness :=
  { vkey := signatureEntry.1, signature := signatureEntry.2 }

end VkeyWitness

def vkeyWitnessCodec : Codec (List UInt8 × List UInt8) VkeyWitness where
  fromCore entry := .ok (VkeyWitness.fromCore entry)
  toCbor := VkeyWitness.toCbor
  fromCbor := VkeyWitness.fromCbor
  toCore witness := .ok witness.toCore

theorem vkeyWitness_roundTrips {entry : List UInt8 × List UInt8} (hkey : entry.1.length < 2 ^ 64)
    (hsignature : entry.2.length < 2 ^ 64) : vkeyWitnessCodec.RoundTrips Eq entry := by
  refine Codec.roundTrips_record rfl rfl (fun _ => rfl) (by decide) fun cbor => ?_
  change KeptItems _ _ (1 + 1) _
  refine KeptItems.exact (keptItem_byteString hkey) ?_
  refine KeptItems.last (keptItem_byteString hsignature) (fun _ _ => rfl) ?_
  rintro signature rfl
  exact ⟨entry, rfl, rfl⟩

structure BootstrapWitness where
  vkey : List UInt8
  signature : List UInt8
  chainCode : List UInt8
  attributes : List UInt8
  originalBytes : Option (List UInt8) := none
  deriving DecidableEq

namespace BootstrapWitness

def chainCodeSize : ℕ := 32

def emptyAttributesCbor : List UInt8 := [0xa0]

def assertChainCodeSize (chainCode : List UInt8) : Except String Unit :=
  if chainCode.length ≠ chainCodeSize then
    .error (invalidState ("chainCode is expected to be " ++ toString chainCodeSize ++
      " bytes in size, but got " ++ toString chainCode.length))
  else .ok ()

def toCbor (witness : BootstrapWitness) : Except EncodeException (List UInt8) :=
  cachedOr witness.originalBytes do
    (assertChainCodeSize witness.chainCode).mapError .error
    encodeAsHex do
      writing (writeStartArray (some 4))
      writing (writeByteString witness.vkey)
      writing (writeByteString witness.signature)
      writing (writeByteString witness.chainCode)
      writing (writeByteString witness.attributes)

/-- A chain code of any size is decoded. -/
def fromCbor (cbor : List UInt8) : Except DecodeException BootstrapWitness :=
  decodeWith cbor <| readFixedArray 4 do
    let vkey ← reading readByteString
    let signature ← reading readByteString
    let chainCode ← reading readByteString
    let attributes ← reading readByteString
    pure { vkey := vkey, signature := signature, chainCode := chainCode, attributes := attributes,
           originalBytes := some cbor }

def toCore (witness : BootstrapWitness) : Cardano.BootstrapWitness where
  addressAttributes := some witness.attributes
  chainCode := some witness.chainCode
  key := witness.vkey
  signature := witness.signature

/-- Attributes that are absent or empty are replaced by an empty map. -/
def attributesOf (core : Cardano.BootstrapWitness) : List UInt8 :=
  (truthy core.addressAttributes).getD emptyAttributesCbor

def fromCore (core : Cardano.BootstrapWitness) : Except DecodeException BootstrapWitness :=
  match truthy core.chainCode with
  | none => .error (.error (invalidState "Chaincode must be present"))
  | some chainCode => do
      (assertChainCodeSize chainCode).mapError .error
      return {
        vkey := core.key
        signature := core.signature
        chainCode := chainCode
        attributes := attributesOf core }

end BootstrapWitness

def bootstrapWitnessCodec : Codec Cardano.BootstrapWitness BootstrapWitness where
  fromCore := BootstrapWitness.fromCore
  toCbor := BootstrapWitness.toCbor
  fromCbor := BootstrapWitness.fromCbor
  toCore witness := .ok witness.toCore

def HasChainCode (core : Cardano.BootstrapWitness) : Prop :=
  ∃ chainCode, core.chainCode = some chainCode ∧ chainCode.length = BootstrapWitness.chainCodeSize

def withAttributes (core : Cardano.BootstrapWitness) : Cardano.BootstrapWitness :=
  { core with addressAttributes := some (BootstrapWitness.attributesOf core) }

variable {core : Cardano.BootstrapWitness}

theorem hasChainCode_of_fromCore {object : BootstrapWitness}
    (h : BootstrapWitness.fromCore core = .ok object) : HasChainCode core := by
  unfold BootstrapWitness.fromCore at h
  cases hchainCode : core.chainCode with
  | none =>
    rw [hchainCode] at h
    cases h
  | some chainCode =>
    rw [hchainCode] at h
    cases chainCode with
    | nil => cases h
    | cons first rest =>
      refine ⟨first :: rest, hchainCode, ?_⟩
      by_contra hsize
      rw [truthy] at h
      dsimp only at h
      rw [BootstrapWitness.assertChainCodeSize, if_pos hsize] at h
      cases h

theorem fromCore_bootstrap {chainCode : List UInt8} (hchainCode : core.chainCode = some chainCode)
    (hsize : chainCode.length = BootstrapWitness.chainCodeSize) :
    BootstrapWitness.fromCore core = .ok
      ⟨core.key, core.signature, chainCode, BootstrapWitness.attributesOf core, none⟩ := by
  unfold BootstrapWitness.fromCore
  cases chainCode with
  | nil => cases hsize
  | cons first rest =>
    rw [hchainCode, truthy]
    dsimp only
    rw [BootstrapWitness.assertChainCodeSize, if_neg (not_not.mpr hsize)]
    rfl

theorem toCbor_bootstrap {witness : BootstrapWitness} (hcache : witness.originalBytes = none)
    (hsize : witness.chainCode.length = BootstrapWitness.chainCodeSize) :
    witness.toCbor = encodeAsHex (writing (writeStartArray (some 4)) >>= fun _ => do
      writing (writeByteString witness.vkey)
      writing (writeByteString witness.signature)
      writing (writeByteString witness.chainCode)
      writing (writeByteString witness.attributes)) := by
  rw [BootstrapWitness.toCbor, hcache, cachedOr_none, BootstrapWitness.assertChainCodeSize,
    if_neg (not_not.mpr hsize)]
  rfl

structure FitsBootstrap (core : Cardano.BootstrapWitness) : Prop where
  key : core.key.length < 2 ^ 64
  signature : core.signature.length < 2 ^ 64
  attributes : ∀ attributes, core.addressAttributes = some attributes → attributes.length < 2 ^ 64

theorem length_attributes (h : FitsBootstrap core) :
    (BootstrapWitness.attributesOf core).length < 2 ^ 64 := by
  unfold BootstrapWitness.attributesOf
  cases hattributes : core.addressAttributes with
  | none => decide
  | some attributes =>
    cases attributes with
    | nil => decide
    | cons first rest => exact h.attributes _ hattributes

theorem bootstrapWitness_roundTrips (hcode : HasChainCode core) (hfits : FitsBootstrap core) :
    bootstrapWitnessCodec.RoundTrips (fun core' core => core' = withAttributes core) core := by
  obtain ⟨chainCode, hchainCode, hsize⟩ := hcode
  have hattributes := length_attributes hfits
  have hshort : chainCode.length < 2 ^ 64 := by
    rw [hsize]
    decide
  have hwritten := @toCbor_bootstrap ⟨core.key, core.signature, chainCode,
    BootstrapWitness.attributesOf core, none⟩ rfl hsize
  refine Codec.roundTrips_record (fromCore_bootstrap hchainCode hsize) hwritten (fun _ => rfl)
    (by decide) fun cbor => ?_
  change KeptItems _ _ (1 + (1 + (1 + 1))) _
  refine KeptItems.exact (keptItem_byteString hfits.key) ?_
  refine KeptItems.exact (keptItem_byteString hfits.signature) ?_
  refine KeptItems.exact (keptItem_byteString hshort) ?_
  refine KeptItems.last (keptItem_byteString hattributes) (fun _ _ => rfl) ?_
  rintro attributes rfl
  refine ⟨_, rfl, ?_⟩
  change (⟨core.signature, some chainCode, _, core.key⟩ : Cardano.BootstrapWitness) = _
  rw [← hchainCode]
  rfl

end CardanoSdk.Serialization
