import CardanoSdk.Lib.Collections
import CardanoSdk.Lib.LittleEndian

/-!
`crypto/src/Bip32`: derivation of extended Ed25519 keys. The functions of libsodium
and the key stretching stand in `Sodium`. A MAC has 64 bytes, a stretched key 96.
-/

namespace CardanoSdk.Crypto

open Lib

structure Sodium where
  /-- `crypto_auth_hmacsha512` of a message and a key. -/
  hmacsha512 : List UInt8 → List UInt8 → List UInt8
  length_hmacsha512 : ∀ message key, (hmacsha512 message key).length = 64
  /-- `crypto_scalarmult_ed25519_base_noclamp` -/
  scalarmultBaseNoclamp : List UInt8 → List UInt8
  /-- `crypto_core_ed25519_add` -/
  ed25519Add : List UInt8 → List UInt8 → List UInt8
  /-- `pbkdf2Sync` of the password and the entropy. -/
  pbkdf2 : String → List UInt8 → List UInt8
  length_pbkdf2 : ∀ password entropy, (pbkdf2 password entropy).length = 96

inductive Bip32Error where
  | invalidArgument (argument message : String)
  /-- `writeUInt32LE` of a number that does not fit. -/
  | rangeError
  deriving DecidableEq

/-- What the rounds of both loops add: the first 28 places add eight times the second number. -/
def add28Mul8Terms (x y : List UInt8) : List (ℕ × ℕ) :=
  (x.map UInt8.toNat).zip ((y.take 28).map (fun b => b.toNat <<< 3) ++ List.replicate 4 0)

def add28Mul8 (x y : List UInt8) : List UInt8 := (addWithCarry (add28Mul8Terms x y) 0).1

def add256bitsTerms (x y : List UInt8) : List (ℕ × ℕ) :=
  (x.map UInt8.toNat).zip (y.map UInt8.toNat)

def add256bits (x y : List UInt8) : List UInt8 := (addWithCarry (add256bitsTerms x y) 0).1

def writeUInt32LE (index : ℕ) : Except Bip32Error (List UInt8) :=
  if index < 2 ^ 32 then .ok (toBytesLE 4 index) else .error .rangeError

section Derivation

variable (sodium : Sodium)

def isHardenedDerivation (index : ℕ) : Bool := index ≥ 0x80000000

structure Macs where
  zMac : List UInt8
  ccMac : List UInt8

def deriveHardened (index : ℕ) (scalar iv chainCode : List UInt8) : Except Bip32Error Macs := do
  let le ← writeUInt32LE index
  return {
    zMac := sodium.hmacsha512 (0x00 :: scalar ++ iv ++ le) chainCode
    ccMac := sodium.hmacsha512 (0x01 :: scalar ++ iv ++ le) chainCode }

/-- What is left of the data is the same for both MACs of a soft derivation. -/
def softMacs (vk le chainCode : List UInt8) : Macs where
  zMac := sodium.hmacsha512 (0x02 :: vk ++ le) chainCode
  ccMac := sodium.hmacsha512 (0x03 :: vk ++ le) chainCode

def deriveSoft (index : ℕ) (scalar chainCode : List UInt8) : Except Bip32Error Macs := do
  let le ← writeUInt32LE index
  return softMacs sodium (sodium.scalarmultBaseNoclamp scalar) le chainCode

def pointOfTrunc28Mul8 (sk : List UInt8) : List UInt8 :=
  sodium.scalarmultBaseNoclamp (add28Mul8 (List.replicate 32 0) sk)

def derivePrivate (key : List UInt8) (index : ℕ) : Except Bip32Error (List UInt8) := do
  let kl := key.take 32
  let kr := (key.drop 32).take 32
  let cc := (key.drop 64).take 32
  let macs ← (if isHardenedDerivation index then deriveHardened sodium index kl kr cc
    else deriveSoft sodium index kl cc)
  let chainCode := (macs.ccMac.drop 32).take 32
  let zl := macs.zMac.take 32
  let zr := (macs.zMac.drop 32).take 32
  return add28Mul8 kl zl ++ add256bits kr zr ++ chainCode

def derivePublic (key : List UInt8) (index : ℕ) : Except Bip32Error (List UInt8) := do
  let pk := key.take 32
  let cc := (key.drop 32).take 32
  let le ← writeUInt32LE index
  if isHardenedDerivation index then
    throw (.invalidArgument "index" "Public key can not be derived from a hardened index.")
  let macs := softMacs sodium pk le cc
  let chainCode := (macs.ccMac.drop 32).take 32
  let zl := macs.zMac.take 32
  return sodium.ed25519Add (pointOfTrunc28Mul8 sodium zl) pk ++ chainCode

end Derivation

/-- `Bip32PrivateKey.fromBytes` checks the length. -/
structure Bip32PrivateKey where
  key : List UInt8

structure Bip32PublicKey where
  key : List UInt8
  deriving DecidableEq

def keyLengthError (expected : ℕ) (key : List UInt8) : Bip32Error :=
  .invalidArgument "key" ("Key should be " ++ toString expected ++ " bytes; however " ++
    toString key.length ++ " bytes were provided.")

def Bip32PrivateKey.fromBytes (key : List UInt8) : Except Bip32Error Bip32PrivateKey :=
  if key.length ≠ 96 then .error (keyLengthError 96 key) else .ok ⟨key⟩

def Bip32PublicKey.fromBytes (key : List UInt8) : Except Bip32Error Bip32PublicKey :=
  if key.length ≠ 64 then .error (keyLengthError 64 key) else .ok ⟨key⟩

/-- The first byte keeps its five high bits, the last of the scalar its five low ones
and gets the second-highest. -/
def clampScalar (scalar : List UInt8) : List UInt8 :=
  (scalar.modify 0 (· &&& 0b11111000)).modify 31 fun byte => (byte &&& 0b00011111) ||| 0b01000000

def extendedScalar (extendedKey : List UInt8) : List UInt8 := extendedKey.take 32

section Keys

variable (sodium : Sodium)

def Bip32PrivateKey.fromBip39Entropy (entropy : List UInt8) (password : String) :
    Except Bip32Error Bip32PrivateKey :=
  Bip32PrivateKey.fromBytes (clampScalar (sodium.pbkdf2 password entropy))

def Bip32PrivateKey.derive (privateKey : Bip32PrivateKey) (derivationIndices : List ℕ) :
    Except Bip32Error Bip32PrivateKey := do
  let key ← derivationIndices.foldlM (derivePrivate sodium) privateKey.key
  Bip32PrivateKey.fromBytes key

def Bip32PrivateKey.toPublic (privateKey : Bip32PrivateKey) : Except Bip32Error Bip32PublicKey :=
  let scalar := extendedScalar (privateKey.key.take 64)
  Bip32PublicKey.fromBytes
    (sodium.scalarmultBaseNoclamp scalar ++ (privateKey.key.drop 64).take 32)

def Bip32PublicKey.derive (publicKey : Bip32PublicKey) (derivationIndices : List ℕ) :
    Except Bip32Error Bip32PublicKey := do
  let key ← derivationIndices.foldlM (derivePublic sodium) publicKey.key
  Bip32PublicKey.fromBytes key

end Keys

end CardanoSdk.Crypto
