import CardanoSdk.Crypto.Bip32Paths

/-!
`crypto/src/Ed25519e`: signing with extended keys, put together from the primitives of
libsodium.
-/

namespace CardanoSdk.Crypto

open Lib

structure SigningSodium extends Sodium where
  /-- `crypto_hash_sha512` -/
  sha512 : List UInt8 → List UInt8
  length_sha512 : ∀ message, (sha512 message).length = 64
  /-- `crypto_core_ed25519_scalar_reduce` -/
  scalarReduce : List UInt8 → List UInt8
  /-- `crypto_core_ed25519_scalar_add` -/
  scalarAdd : List UInt8 → List UInt8 → List UInt8
  /-- `crypto_core_ed25519_scalar_mul` -/
  scalarMul : List UInt8 → List UInt8 → List UInt8
  /-- `crypto_sign_seed_keypair(seed).publicKey` -/
  seedPublicKey : List UInt8 → List UInt8
  /-- `crypto_sign_detached` of a message and a key. -/
  signDetached : List UInt8 → List UInt8 → List UInt8
  /-- `crypto_sign_verify_detached` of a signature, a message and a key. -/
  signVerifyDetached : List UInt8 → List UInt8 → List UInt8 → Bool

inductive Ed25519PrivateKeyType where
  | normal | extended
  deriving DecidableEq

def Ed25519PrivateKeyType.keyLength : Ed25519PrivateKeyType → ℕ
  | .normal => 32
  | .extended => 64

/-- The constructor is private, and what calls it checks the length. -/
structure Ed25519PrivateKey where
  keyMaterial : List UInt8
  type : Ed25519PrivateKeyType
  length : keyMaterial.length = type.keyLength

structure Ed25519PublicKey where
  keyMaterial : List UInt8
  deriving DecidableEq

structure Ed25519Signature where
  signature : List UInt8
  deriving DecidableEq

def lengthError (argument name : String) (expected : ℕ) (bytes : List UInt8) : Bip32Error :=
  .invalidArgument argument (name ++ " should be " ++ toString expected ++ " bytes; however " ++
    toString bytes.length ++ " bytes were provided.")

/-- `fromNormalBytes` and `fromExtendedBytes` -/
def Ed25519PrivateKey.fromBytes (type : Ed25519PrivateKeyType) (keyMaterial : List UInt8) :
    Except Bip32Error Ed25519PrivateKey :=
  if h : keyMaterial.length = type.keyLength then .ok ⟨keyMaterial, type, h⟩
  else .error (lengthError "keyMaterial" "Key" type.keyLength keyMaterial)

def Ed25519PublicKey.fromBytes (keyMaterial : List UInt8) : Except Bip32Error Ed25519PublicKey :=
  if keyMaterial.length ≠ 32 then .error (lengthError "keyMaterial" "Key" 32 keyMaterial)
  else .ok ⟨keyMaterial⟩

def Ed25519Signature.fromBytes (signature : List UInt8) : Except Bip32Error Ed25519Signature :=
  if signature.length ≠ 64 then .error (lengthError "signature" "signature" 64 signature)
  else .ok ⟨signature⟩

def extendedIv (extendedKey : List UInt8) : List UInt8 := (extendedKey.drop 32).take 32

section Signing

variable (sodium : SigningSodium)

def signExtendedDetached (extendedKey message : List UInt8) : List UInt8 :=
  let scalar := extendedScalar extendedKey
  let publicKey := sodium.scalarmultBaseNoclamp scalar
  let nonce := sodium.scalarReduce (sodium.sha512 (extendedIv extendedKey ++ message))
  let r := sodium.scalarmultBaseNoclamp nonce
  let hram := sodium.scalarReduce (sodium.sha512 (r ++ publicKey ++ message))
  r ++ sodium.scalarAdd (sodium.scalarMul hram scalar) nonce

def Ed25519PrivateKey.toPublic (privateKey : Ed25519PrivateKey) :
    Except Bip32Error Ed25519PublicKey :=
  Ed25519PublicKey.fromBytes
    (if privateKey.type = .extended then
      sodium.scalarmultBaseNoclamp (extendedScalar privateKey.keyMaterial)
    else sodium.seedPublicKey privateKey.keyMaterial)

def Ed25519PrivateKey.sign (privateKey : Ed25519PrivateKey) (message : List UInt8) :
    Except Bip32Error Ed25519Signature := do
  if privateKey.type = .extended then
    Ed25519Signature.fromBytes (signExtendedDetached sodium privateKey.keyMaterial message)
  else
    let publicKey ← privateKey.toPublic sodium
    Ed25519Signature.fromBytes
      (sodium.signDetached message (privateKey.keyMaterial ++ publicKey.keyMaterial))

def Ed25519PublicKey.verify (publicKey : Ed25519PublicKey) (signature : Ed25519Signature)
    (message : List UInt8) : Bool :=
  sodium.signVerifyDetached signature.signature message publicKey.keyMaterial

def Bip32PrivateKey.toRawKey (privateKey : Bip32PrivateKey) : Except Bip32Error Ed25519PrivateKey :=
  Ed25519PrivateKey.fromBytes .extended (privateKey.key.take 64)

/-- `Bip32PublicKey.toRawKey` takes the point part. -/
def Bip32PublicKey.toRawKey (publicKey : Bip32PublicKey) : Except Bip32Error Ed25519PublicKey :=
  Ed25519PublicKey.fromBytes (publicKey.key.take 32)

end Signing

def groupOrder : ℕ := 2 ^ 252 + 27742317777372353535851937790883648493

/-- The scalar operations are exact modulo the order, and a signature is accepted when
its response is below the order and the equation of its points holds. -/
structure Ed25519Scalars (sodium : SigningSodium) (P : Type*) [AddCommGroup P] extends
    Ed25519 sodium.toSodium P where
  order_smul : groupOrder • base = 0
  length_scalarReduce : ∀ bytes, bytes.length = 64 → (sodium.scalarReduce bytes).length = 32
  scalarReduce : ∀ bytes, bytes.length = 64 →
    ofBytesLE (sodium.scalarReduce bytes) = ofBytesLE bytes % groupOrder
  length_scalarMul : ∀ x y, x.length = 32 → y.length = 32 → (sodium.scalarMul x y).length = 32
  scalarMul : ∀ x y, x.length = 32 → y.length = 32 →
    ofBytesLE (sodium.scalarMul x y) = ofBytesLE x * ofBytesLE y % groupOrder
  length_scalarAdd : ∀ x y, x.length = 32 → y.length = 32 → (sodium.scalarAdd x y).length = 32
  scalarAdd : ∀ x y, x.length = 32 → y.length = 32 →
    ofBytesLE (sodium.scalarAdd x y) = (ofBytesLE x + ofBytesLE y) % groupOrder
  verify : ∀ r a response message, response.length = 32 → ofBytesLE response < groupOrder →
    ofBytesLE response • base =
        r + (ofBytesLE (sodium.sha512 (encode r ++ encode a ++ message)) % groupOrder) • a →
      sodium.signVerifyDetached (encode r ++ response) message (encode a) = true

section Verification

variable {sodium : SigningSodium} {P : Type*} [AddCommGroup P] (scalars : Ed25519Scalars sodium P)

def Ed25519PrivateKey.scalar (privateKey : Ed25519PrivateKey) : ℕ :=
  ofBytesLE (extendedScalar privateKey.keyMaterial)

include scalars in
theorem Ed25519Scalars.mod_smul (scalar : ℕ) :
    (scalar % groupOrder) • scalars.base = scalar • scalars.base := by
  have hzero : (groupOrder * (scalar / groupOrder)) • scalars.base = 0 := by
    rw [mul_nsmul, scalars.order_smul, nsmul_zero]
  calc (scalar % groupOrder) • scalars.base
      = (scalar % groupOrder) • scalars.base +
          (groupOrder * (scalar / groupOrder)) • scalars.base := by rw [hzero, add_zero]
    _ = scalar • scalars.base := by rw [← add_nsmul, Nat.mod_add_div]

theorem groupOrder_pos : 0 < groupOrder := by
  unfold groupOrder
  omega

theorem groupOrder_lt : groupOrder < 2 ^ 255 := by
  unfold groupOrder
  norm_num

theorem Ed25519Scalars.scalarmult_of_lt {scalar : List UInt8} (hlength : scalar.length = 32)
    (hlt : ofBytesLE scalar < 2 ^ 255) :
    sodium.scalarmultBaseNoclamp scalar = scalars.encode (ofBytesLE scalar • scalars.base) := by
  rw [scalars.scalarmult scalar hlength, Nat.mod_eq_of_lt hlt]

include scalars in
theorem Ed25519Scalars.reduced (message : List UInt8) :
    (sodium.scalarReduce (sodium.sha512 message)).length = 32 ∧
      ofBytesLE (sodium.scalarReduce (sodium.sha512 message)) =
        ofBytesLE (sodium.sha512 message) % groupOrder :=
  ⟨scalars.length_scalarReduce _ (sodium.length_sha512 message),
    scalars.scalarReduce _ (sodium.length_sha512 message)⟩

theorem Ed25519Scalars.scalarmult_reduced (message : List UInt8) :
    sodium.scalarmultBaseNoclamp (sodium.scalarReduce (sodium.sha512 message)) =
      scalars.encode
        (ofBytesLE (sodium.scalarReduce (sodium.sha512 message)) • scalars.base) := by
  obtain ⟨hlength, hvalue⟩ := scalars.reduced message
  refine scalars.scalarmult_of_lt hlength ?_
  rw [hvalue]
  exact (Nat.mod_lt _ groupOrder_pos).trans groupOrder_lt

theorem Ed25519Scalars.response {hram scalar nonce : List UInt8} (hhram : hram.length = 32)
    (hscalar : scalar.length = 32) (hnonce : nonce.length = 32) :
    (sodium.scalarAdd (sodium.scalarMul hram scalar) nonce).length = 32 ∧
      ofBytesLE (sodium.scalarAdd (sodium.scalarMul hram scalar) nonce) < groupOrder ∧
      ofBytesLE (sodium.scalarAdd (sodium.scalarMul hram scalar) nonce) • scalars.base =
        ofBytesLE nonce • scalars.base +
          ofBytesLE hram • (ofBytesLE scalar • scalars.base) := by
  have hmul := scalars.length_scalarMul hram scalar hhram hscalar
  refine ⟨scalars.length_scalarAdd _ _ hmul hnonce, ?_, ?_⟩
  · rw [scalars.scalarAdd _ _ hmul hnonce]
    exact Nat.mod_lt _ groupOrder_pos
  · rw [scalars.scalarAdd _ _ hmul hnonce, scalars.mod_smul, add_nsmul,
      scalars.scalarMul _ _ hhram hscalar, scalars.mod_smul, mul_comm, mul_nsmul, add_comm]

theorem Ed25519PublicKey.fromBytes_eq {keyMaterial : List UInt8} (h : keyMaterial.length = 32) :
    Ed25519PublicKey.fromBytes keyMaterial = .ok ⟨keyMaterial⟩ :=
  if_neg (not_not.mpr h)

theorem Ed25519Signature.fromBytes_eq {signature : List UInt8} (h : signature.length = 64) :
    Ed25519Signature.fromBytes signature = .ok ⟨signature⟩ :=
  if_neg (not_not.mpr h)

variable {privateKey : Ed25519PrivateKey}

theorem length_extendedScalar (htype : privateKey.type = .extended) :
    (extendedScalar privateKey.keyMaterial).length = 32 := by
  have hlength := privateKey.length
  rw [htype] at hlength
  change _ = 64 at hlength
  rw [extendedScalar, List.length_take, hlength]
  rfl

theorem toPublic_extended (htype : privateKey.type = .extended) :
    sodium.scalarmultBaseNoclamp (extendedScalar privateKey.keyMaterial) =
        scalars.encode ((privateKey.scalar % 2 ^ 255) • scalars.base) ∧
      privateKey.toPublic sodium =
        .ok ⟨sodium.scalarmultBaseNoclamp (extendedScalar privateKey.keyMaterial)⟩ := by
  have hpoint := scalars.scalarmult _ (length_extendedScalar htype)
  refine ⟨hpoint, ?_⟩
  rw [Ed25519PrivateKey.toPublic, if_pos htype, Ed25519PublicKey.fromBytes_eq]
  rw [hpoint, scalars.length_encode]

include scalars in
theorem sign_verifies (htype : privateKey.type = .extended) (hlt : privateKey.scalar < 2 ^ 255)
    (message : List UInt8) :
    ∃ publicKey signature, privateKey.toPublic sodium = .ok publicKey ∧
      privateKey.sign sodium message = .ok signature ∧
      publicKey.verify sodium signature message = true := by
  obtain ⟨hpoint, hpublic⟩ := toPublic_extended scalars htype
  rw [Nat.mod_eq_of_lt hlt] at hpoint
  have hscalar := length_extendedScalar htype
  have hnonce := scalars.reduced (extendedIv privateKey.keyMaterial ++ message)
  have hr := scalars.scalarmult_reduced (extendedIv privateKey.keyMaterial ++ message)
  -- the challenge is the hash of the two points and the message
  generalize hpublicKey : privateKey.scalar • scalars.base = a at hpoint
  generalize hnoncePoint : ofBytesLE (sodium.scalarReduce (sodium.sha512
    (extendedIv privateKey.keyMaterial ++ message))) • scalars.base = r at hr
  have hhram := scalars.reduced (scalars.encode r ++ scalars.encode a ++ message)
  obtain ⟨hlength, hsmall, hequation⟩ := scalars.response hhram.1 hscalar hnonce.1
  have hsignature : signExtendedDetached sodium privateKey.keyMaterial message =
      scalars.encode r ++ sodium.scalarAdd (sodium.scalarMul (sodium.scalarReduce (sodium.sha512
        (scalars.encode r ++ scalars.encode a ++ message)))
        (extendedScalar privateKey.keyMaterial)) (sodium.scalarReduce (sodium.sha512
          (extendedIv privateKey.keyMaterial ++ message))) := by
    rw [signExtendedDetached, hpoint, hr]
  refine ⟨_, ⟨signExtendedDetached sodium privateKey.keyMaterial message⟩, hpublic, ?_, ?_⟩
  · rw [Ed25519PrivateKey.sign, if_pos htype, Ed25519Signature.fromBytes_eq]
    rw [hsignature, List.length_append, scalars.length_encode, hlength]
  · rw [Ed25519PublicKey.verify, hsignature, hpoint]
    refine scalars.verify r a _ message hlength hsmall ?_
    rw [hequation, hnoncePoint, hhram.2]
    exact congrArg (r + (ofBytesLE _ % groupOrder) • ·) hpublicKey

variable {key : Bip32PrivateKey}

theorem toRawKey_eq (hlength : key.key.length = 96) :
    ∃ raw, key.toRawKey = .ok raw ∧ raw.type = .extended ∧ raw.keyMaterial = key.key.take 64 ∧
      raw.scalar = key.scalar := by
  have htake : (key.key.take 64).length = Ed25519PrivateKeyType.extended.keyLength := by
    rw [List.length_take, hlength]
    rfl
  refine ⟨⟨key.key.take 64, .extended, htake⟩, dif_pos htake, rfl, rfl, ?_⟩
  change ofBytesLE (extendedScalar (key.key.take 64)) = _
  rw [extendedScalar, List.take_take]
  rfl

include scalars in
theorem toRawKey_toPublic (hlength : key.key.length = 96) :
    ∃ raw publicKey point, key.toRawKey = .ok raw ∧ key.toPublic sodium.toSodium = .ok publicKey ∧
      raw.toPublic sodium = .ok point ∧ publicKey.toRawKey = .ok point := by
  obtain ⟨raw, hraw, htype, hmaterial, -⟩ := toRawKey_eq hlength
  obtain ⟨hpoint, hpublic⟩ := toPublic_extended scalars htype
  rw [hmaterial, extendedScalar, List.take_take] at hpoint hpublic
  change sodium.scalarmultBaseNoclamp (key.key.take 32) = _ at hpoint
  have hpointLength : (sodium.scalarmultBaseNoclamp (key.key.take 32)).length = 32 := by
    rw [hpoint, scalars.length_encode]
  have hkey : (publicBytes sodium.toSodium key.key).length = 64 := by
    rw [publicBytes, List.length_append, hpointLength, length_slice 64 (by omega)]
  refine ⟨raw, ⟨publicBytes sodium.toSodium key.key⟩, _, hraw, toPublic_eq hkey, hpublic, ?_⟩
  rw [Bip32PublicKey.toRawKey, publicBytes, List.take_left' hpointLength]
  exact Ed25519PublicKey.fromBytes_eq hpointLength

end Verification

/-- Signatures of extended keys are accepted: of every key of 255 bits, and so of every
key derived from entropy; and a raw key has the public key of the key it came from. -/
theorem ed25519_signatures_verify {sodium : SigningSodium} {P : Type*} [AddCommGroup P]
    (scalars : Ed25519Scalars sodium P) :
    (∀ privateKey : Ed25519PrivateKey, privateKey.type = .extended →
      privateKey.scalar < 2 ^ 255 → ∀ message, ∃ publicKey signature,
        privateKey.toPublic sodium = .ok publicKey ∧
        privateKey.sign sodium message = .ok signature ∧
        publicKey.verify sodium signature message = true) ∧
    (∀ entropy password, ∃ root,
      Bip32PrivateKey.fromBip39Entropy sodium.toSodium entropy password = .ok root ∧
      ∀ path key, path.length ≤ 2 ^ 26 → root.derive sodium.toSodium path = .ok key →
        ∃ raw, key.toRawKey = .ok raw ∧ raw.type = .extended ∧ raw.scalar < 2 ^ 255) ∧
    ∀ key : Bip32PrivateKey, key.key.length = 96 →
      ∃ raw publicKey point, key.toRawKey = .ok raw ∧
        key.toPublic sodium.toSodium = .ok publicKey ∧
        raw.toPublic sodium = .ok point ∧ publicKey.toRawKey = .ok point := by
  refine ⟨fun privateKey htype hlt message => sign_verifies scalars htype hlt message, ?_,
    fun key hlength => toRawKey_toPublic scalars hlength⟩
  intro entropy password
  obtain ⟨hroot, hwithin⟩ := fromBip39Entropy_eq sodium.toSodium entropy password
  refine ⟨_, hroot, ?_⟩
  intro path key hcount hkey
  have hkeyWithin := derivePath_within hwithin (by omega) (derive_eq_ok hkey)
  obtain ⟨raw, hraw, htype, -, hscalar⟩ := toRawKey_eq hkeyWithin.length
  refine ⟨raw, hraw, htype, ?_⟩
  rw [hscalar]
  exact hkeyWithin.lt (by omega)

def orderBytes (number : ℕ) : List UInt8 := toBytesLE 32 (number % groupOrder)

theorem ofBytesLE_orderBytes (number : ℕ) : ofBytesLE (orderBytes number) = number % groupOrder := by
  have hlt : number % groupOrder < 256 ^ 32 :=
    (Nat.mod_lt _ groupOrder_pos).trans (groupOrder_lt.trans (by norm_num))
  rw [orderBytes, ofBytesLE_toBytesLE, Nat.mod_eq_of_lt hlt]

theorem length_orderBytes (number : ℕ) : (orderBytes number).length = 32 :=
  length_toBytesLE 32 _

/-- Points are residues of the order, and hashes repeat the count of the bytes. -/
def orderSodium : SigningSodium where
  hmacsha512 message _ := List.replicate 64 (UInt8.ofNat message.length)
  length_hmacsha512 _ _ := List.length_replicate
  scalarmultBaseNoclamp scalar := orderBytes (ofBytesLE scalar % 2 ^ 255)
  ed25519Add p q := orderBytes (ofBytesLE p + ofBytesLE q)
  pbkdf2 _ _ := List.replicate 96 2
  length_pbkdf2 _ _ := List.length_replicate
  sha512 message := List.replicate 64 (UInt8.ofNat message.length)
  length_sha512 _ := List.length_replicate
  scalarReduce bytes := orderBytes (ofBytesLE bytes)
  scalarAdd x y := orderBytes (ofBytesLE x + ofBytesLE y)
  scalarMul x y := orderBytes (ofBytesLE x * ofBytesLE y)
  seedPublicKey seed := orderBytes (ofBytesLE seed)
  signDetached _ key := key
  signVerifyDetached signature message key :=
    let hram := ofBytesLE (List.replicate 64
      (UInt8.ofNat (signature.take 32 ++ key ++ message).length)) % groupOrder
    decide (ofBytesLE (signature.drop 32) % groupOrder =
      (ofBytesLE (signature.take 32) + hram * ofBytesLE key) % groupOrder)

def orderPoint (p : ZMod groupOrder) : List UInt8 := orderBytes p.val

theorem natCast_orderPoint (p : ZMod groupOrder) :
    ((ofBytesLE (orderPoint p) : ℕ) : ZMod groupOrder) = p := by
  have : NeZero groupOrder := ⟨groupOrder_pos.ne'⟩
  rw [orderPoint, ofBytesLE_orderBytes, ZMod.natCast_mod, ZMod.natCast_zmod_val]

theorem orderPoint_natCast (number : ℕ) :
    orderPoint (number : ZMod groupOrder) = orderBytes number := by
  rw [orderPoint, orderBytes, ZMod.val_natCast, Nat.mod_mod, orderBytes]

def orderScalars : Ed25519Scalars orderSodium (ZMod groupOrder) where
  base := 1
  encode := orderPoint
  length_encode p := length_orderBytes p.val
  scalarmult scalar _ := by
    rw [nsmul_one, orderPoint_natCast]
    rfl
  add p q := by
    change orderBytes _ = _
    rw [← orderPoint_natCast, Nat.cast_add, natCast_orderPoint, natCast_orderPoint]
  order_smul := by rw [nsmul_one, ZMod.natCast_self]
  length_scalarReduce _ _ := length_orderBytes _
  scalarReduce _ _ := ofBytesLE_orderBytes _
  length_scalarMul _ _ _ _ := length_orderBytes _
  scalarMul _ _ _ _ := ofBytesLE_orderBytes _
  length_scalarAdd _ _ _ _ := length_orderBytes _
  scalarAdd _ _ _ _ := ofBytesLE_orderBytes _
  verify r a response message hlength hlt hequation := by
    have htake : (orderPoint r ++ response).take 32 = orderPoint r :=
      List.take_left' (length_orderBytes _)
    have hdrop : (orderPoint r ++ response).drop 32 = response :=
      List.drop_left' (length_orderBytes _)
    apply decide_eq_true
    rw [htake, hdrop]
    apply (ZMod.natCast_eq_natCast_iff' _ _ groupOrder).mp
    rw [Nat.cast_add, Nat.cast_mul, natCast_orderPoint, natCast_orderPoint]
    rw [nsmul_one, nsmul_eq_mul] at hequation
    exact hequation

theorem ed25519_signatures_verify_sample : ∃ publicKey signature,
    Ed25519PrivateKey.toPublic orderSodium ⟨List.replicate 64 1, .extended, rfl⟩ = .ok publicKey ∧
      Ed25519PrivateKey.sign orderSodium ⟨List.replicate 64 1, .extended, rfl⟩ [7] =
        .ok signature ∧
      publicKey.verify orderSodium signature [7] = true :=
  (ed25519_signatures_verify orderScalars).1 ⟨List.replicate 64 1, .extended, rfl⟩ rfl
    (by decide) [7]

/-- The extended public key of an account is enough to check what it signs: a key derived on
from the account by soft indices signs for the key derived from the public key alone. -/
theorem soft_keys_sign_for_account {sodium : SigningSodium} {P : Type*} [AddCommGroup P]
    (scalars : Ed25519Scalars sodium P) (entropy : List UInt8) (password : String) :
    ∃ root, Bip32PrivateKey.fromBip39Entropy sodium.toSodium entropy password = .ok root ∧
      ∀ path softPath account, (∀ index ∈ softPath, index < 2 ^ 31) →
        path.length + softPath.length ≤ 2 ^ 26 → root.derive sodium.toSodium path = .ok account →
        ∃ child raw accountPublic childPublic point,
          account.derive sodium.toSodium softPath = .ok child ∧ child.toRawKey = .ok raw ∧
          account.toPublic sodium.toSodium = .ok accountPublic ∧
          accountPublic.derive sodium.toSodium softPath = .ok childPublic ∧
          childPublic.toRawKey = .ok point ∧ ∀ message, ∃ signature,
            raw.sign sodium message = .ok signature ∧
              point.verify sodium signature message = true := by
  obtain ⟨hroot, hwithin⟩ := fromBip39Entropy_eq sodium.toSodium entropy password
  refine ⟨_, hroot, ?_⟩
  intro path softPath account hsoft hcount haccount
  have haccountWithin := derivePath_within hwithin (by omega) (derive_eq_ok haccount)
  obtain ⟨child, hchild, hpublic⟩ :=
    derivePath_soft scalars.toEd25519 haccountWithin (by omega) hsoft
  have hchildWithin := derivePath_within haccountWithin (by omega) hchild
  have hchildLength := length_publicBytes scalars.toEd25519 hchildWithin (by omega)
  obtain ⟨raw, hraw, htype, -, hscalar⟩ := toRawKey_eq hchildWithin.length
  obtain ⟨_, childPublic, point, hraw', hchildPublic, hpoint, hpublicRaw⟩ :=
    toRawKey_toPublic scalars hchildWithin.length
  cases hraw.symm.trans hraw'
  cases hchildPublic.symm.trans (toPublic_eq hchildLength)
  refine ⟨⟨child⟩, raw, _, _, point, derive_of_path hchild hchildWithin.length, hraw,
    toPublic_eq (length_publicBytes scalars.toEd25519 haccountWithin (by omega)), ?_, hpublicRaw, ?_⟩
  · rw [Bip32PublicKey.derive, hpublic]
    exact if_neg (not_not.mpr hchildLength)
  · intro message
    obtain ⟨_, signature, hpublicKey, hsigned, hverified⟩ := sign_verifies scalars htype
      (hscalar ▸ hchildWithin.lt (by omega)) message
    cases hpoint.symm.trans hpublicKey
    exact ⟨signature, hsigned, hverified⟩

theorem soft_keys_sign_for_account_sample : ∃ root account child raw accountPublic childPublic point,
    Bip32PrivateKey.fromBip39Entropy orderSodium.toSodium [] "" = .ok root ∧
    root.derive orderSodium.toSodium [2 ^ 31 + 1852, 2 ^ 31 + 1815, 2 ^ 31] = .ok account ∧
    account.derive orderSodium.toSodium [0, 1] = .ok child ∧ child.toRawKey = .ok raw ∧
    account.toPublic orderSodium.toSodium = .ok accountPublic ∧
    accountPublic.derive orderSodium.toSodium [0, 1] = .ok childPublic ∧
    childPublic.toRawKey = .ok point ∧ ∃ signature, raw.sign orderSodium [7] = .ok signature ∧
      point.verify orderSodium signature [7] = true := by
  obtain ⟨root, hroot, hsigns⟩ := soft_keys_sign_for_account orderScalars [] ""
  have hderives : ((Bip32PrivateKey.fromBip39Entropy orderSodium.toSodium [] "").toOption.bind
      fun root => (root.derive orderSodium.toSodium
        [2 ^ 31 + 1852, 2 ^ 31 + 1815, 2 ^ 31]).toOption).isSome := by
    decide +kernel
  obtain ⟨account, hbind⟩ := Option.isSome_iff_exists.mp hderives
  obtain ⟨root', hroot', haccount⟩ := Option.bind_eq_some_iff.mp hbind
  cases hroot.symm.trans (eq_ok_of_toOption hroot')
  obtain ⟨child, raw, accountPublic, childPublic, point, hchild, hraw, haccountPublic,
      hchildPublic, hpoint, hverifies⟩ :=
    hsigns _ [0, 1] account (by decide) (by decide) (eq_ok_of_toOption haccount)
  exact ⟨root, account, child, raw, accountPublic, childPublic, point, hroot,
    eq_ok_of_toOption haccount, hchild, hraw, haccountPublic, hchildPublic, hpoint, hverifies [7]⟩

end CardanoSdk.Crypto
