import CardanoSdk.Lib.UniqueByKey
import CardanoSdk.Serialization.AuxiliaryData

/-!
`key-management/src/util/ownSignatureKeyPaths.ts`. Bech32 texts are what they decode to,
and a key hash is never the empty text. The type of a signer's path is a parameter, since
one caller keeps the accounts that have none.
-/

namespace CardanoSdk.KeyManagement

open Lib TxConstruction
open InputSelection (TxIn)
open Cardano (AddressProps NativeScript Script)

inductive KeyRole where
  | external | internal | stake | dRep
  deriving DecidableEq

structure AccountKeyDerivationPath where
  role : KeyRole
  index : ℕ
  deriving DecidableEq

def dRepKeyDerivationPath : AccountKeyDerivationPath := ⟨.dRep, 0⟩

inductive AddressType where
  | internal | external
  deriving DecidableEq

/-- `Number(address.type)` -/
def AddressType.toRole : AddressType → KeyRole
  | .internal => .internal
  | .external => .external

structure GroupedAddress where
  type : AddressType
  index : ℕ
  address : AddressProps
  rewardAccount : RewardAccount
  stakeKeyDerivationPath : Option AccountKeyDerivationPath := none
  deriving DecidableEq

def GroupedAddress.paymentKeyPath (address : GroupedAddress) : AccountKeyDerivationPath :=
  ⟨address.type.toRole, address.index⟩

/-- `asBase()?.getPaymentCredential()` of an address -/
def paymentCredential? (address : AddressProps) : Option Credential :=
  match address.type with
  | .basePaymentKeyStakeKey | .basePaymentScriptStakeKey
  | .basePaymentKeyStakeScript | .basePaymentScriptStakeScript => address.paymentPart
  | _ => none

def GroupedAddress.paymentHash? (address : GroupedAddress) : Option Hash :=
  (paymentCredential? address.address).map Credential.hash

abbrev TxInId := String

/-- `${txId}_${index}` -/
def txInId (txIn : TxIn) : TxInId :=
  String.ofList (hexDigits txIn.txId ++ '_' :: Nat.toDigits 10 txIn.index)

/-- A key may stand with `undefined`. -/
abbrev TxInKeyPathMap := JsMap TxInId (Option AccountKeyDerivationPath)

structure StakeKeySignerData (Path : Type) where
  poolId : PoolId
  rewardAccount : RewardAccount
  stakeKeyHash : Hash
  derivationPath : Path

structure SignatureCheck (Path : Type) where
  derivationPaths : List Path := []
  requiresForeignSignatures : Bool := false

/-- What reading the stake credential of a certificate without one throws. -/
inductive SignatureError where
  | missingStakeCredential
  deriving DecidableEq

section Checks

variable {Path : Type}

def combineSignatureChecks (a b : SignatureCheck Path) : SignatureCheck Path where
  derivationPaths := a.derivationPaths ++ b.derivationPaths
  requiresForeignSignatures := a.requiresForeignSignatures || b.requiresForeignSignatures

def combineAll (checks : List (SignatureCheck Path)) : SignatureCheck Path :=
  checks.foldl combineSignatureChecks {}

def checkAccount (accounts : List (StakeKeySignerData Path))
    (owns : StakeKeySignerData Path → Bool) : SignatureCheck Path :=
  match accounts.find? owns with
  | some account => { derivationPaths := [account.derivationPath] }
  | none => { requiresForeignSignatures := true }

def checkWithdrawals (body : TxBody) (accounts : List (StakeKeySignerData Path)) :
    SignatureCheck Path :=
  combineAll ((body.withdrawals.getD []).map fun withdrawal =>
    checkAccount accounts fun account => account.rewardAccount = withdrawal.stakeAddress)

/-- The stake credentials of the certificates that are signed with the stake key. -/
def signingStakeCredential? : Certificate → Option Credential
  | .voteDelegation stakeCredential
  | .stakeVoteDelegation stakeCredential _
  | .stakeRegistrationDelegation stakeCredential _ _
  | .voteRegistrationDelegation stakeCredential _
  | .stakeVoteRegistrationDelegation stakeCredential _ _
  | .registration stakeCredential _
  | .unregistration stakeCredential _
  | .stakeDeregistration stakeCredential
  | .stakeDelegation stakeCredential _ => some stakeCredential
  | _ => none

def checkStakeKeyHashCertificate (certificate : Certificate)
    (accounts : List (StakeKeySignerData Path)) : SignatureCheck Path :=
  match signingStakeCredential? certificate with
  | some stakeCredential =>
    checkAccount accounts fun account =>
      stakeCredential.type = .keyHash && account.stakeKeyHash = stakeCredential.hash
  | none => {}

def checkPoolRegistrationCertificate (certificate : Certificate)
    (accounts : List (StakeKeySignerData Path)) : SignatureCheck Path :=
  match certificate with
  | .poolRegistration poolParameters =>
    combineAll (poolParameters.owners.map fun owner =>
      checkAccount accounts fun account => account.rewardAccount = owner)
  | _ => {}

def checkPoolRetirementCertificate (certificate : Certificate)
    (accounts : List (StakeKeySignerData Path)) : SignatureCheck Path :=
  match certificate with
  | .poolRetirement poolId => checkAccount accounts fun account => account.poolId = poolId
  | _ => {}

/-- Without accounts nothing reads the stake credential. -/
def checkMirCertificate (certificate : Certificate)
    (accounts : List (StakeKeySignerData Path)) : Except SignatureError (SignatureCheck Path) :=
  match certificate with
  | .mir .toStakeCreds (some stakeCredential) =>
    .ok (checkAccount accounts fun account => account.stakeKeyHash = stakeCredential.hash)
  | .mir .toStakeCreds none =>
    if accounts.isEmpty then .ok { requiresForeignSignatures := true }
    else .error .missingStakeCredential
  | .mir .toOtherPot _ => .ok { requiresForeignSignatures := true }
  | _ => .ok {}

def checkCertificate (accounts : List (StakeKeySignerData Path)) (certificate : Certificate) :
    Except SignatureError (SignatureCheck Path) := do
  let stakeKeyHashCheck := checkStakeKeyHashCertificate certificate accounts
  let poolOwnerCheck := checkPoolRegistrationCertificate certificate accounts
  let poolIdCheck := checkPoolRetirementCertificate certificate accounts
  let mirCheck ← checkMirCertificate certificate accounts
  pure (combineAll [stakeKeyHashCheck, poolOwnerCheck, poolIdCheck, mirCheck])

variable [DecidableEq Path]

def checkStakeCredentialCertificates (accounts : List (StakeKeySignerData Path))
    (body : TxBody) : Except SignatureError (SignatureCheck Path) := do
  let checks ← (body.certificates.getD []).mapM (checkCertificate accounts)
  let signatureCheck := combineAll checks
  pure { signatureCheck with
    derivationPaths := uniqWith (sameKey id) signatureCheck.derivationPaths }

end Checks

def stakeKeySignerData {Path : Type} (groupedAddress : GroupedAddress) (derivationPath : Path) :
    StakeKeySignerData Path where
  poolId := groupedAddress.rewardAccount.toHash
  rewardAccount := groupedAddress.rewardAccount
  stakeKeyHash := groupedAddress.rewardAccount.toHash
  derivationPath := derivationPath

/-- `uniqBy(groupedAddresses, 'rewardAccount')` -/
def uniqueAccounts (groupedAddresses : List GroupedAddress) : List GroupedAddress :=
  uniqWith (sameKey GroupedAddress.rewardAccount) groupedAddresses

def getSignersData (groupedAddresses : List GroupedAddress) :
    List (StakeKeySignerData AccountKeyDerivationPath) :=
  (uniqueAccounts groupedAddresses).filterMap fun groupedAddress =>
    groupedAddress.stakeKeyDerivationPath.map (stakeKeySignerData groupedAddress)

/-- The set keeps one path object for an account. -/
def getStakeCredentialKeyPaths (groupedAddresses : List GroupedAddress) (txBody : TxBody) :
    Except SignatureError (SignatureCheck AccountKeyDerivationPath) := do
  let uniqueAccounts := getSignersData groupedAddresses
  let withdrawalCheck := checkWithdrawals txBody uniqueAccounts
  let certificatesCheck ← checkStakeCredentialCertificates uniqueAccounts txBody
  let check := combineSignatureChecks withdrawalCheck certificatesCheck
  pure { check with derivationPaths := uniqWith (sameKey id) check.derivationPaths }

/-- The signature of the one DRep key that a wallet may own. -/
def checkDRepKey (owned : Bool) : SignatureCheck AccountKeyDerivationPath :=
  if owned then { derivationPaths := [dRepKeyDerivationPath] }
  else { requiresForeignSignatures := true }

def checkVoter (accounts : List (StakeKeySignerData AccountKeyDerivationPath))
    (dRepKeyHash : Option Hash) (voter : Voter) : SignatureCheck AccountKeyDerivationPath :=
  match voter.typename with
  | .dRepKeyHash => checkDRepKey (dRepKeyHash = some voter.credential.hash)
  | .stakePoolKeyHash =>
    checkAccount accounts fun account => account.stakeKeyHash = voter.credential.hash
  | .ccHotKeyHash | .ccHotScriptHash | .dRepScriptHash => { requiresForeignSignatures := true }

def getVotingProcedureKeyPaths (groupedAddresses : List GroupedAddress)
    (dRepKeyHash : Option Hash) (txBody : TxBody) : SignatureCheck AccountKeyDerivationPath :=
  let accounts := getSignersData groupedAddresses
  combineAll ((txBody.votingProcedures.getD []).map (checkVoter accounts dRepKeyHash))

def pathIf (condition : Bool) (path : AccountKeyDerivationPath) : List AccountKeyDerivationPath :=
  if condition then [path] else []

def getRequiredSignersKeyPaths (groupedAddresses : List GroupedAddress)
    (keyHashes : Option (List Hash)) : List AccountKeyDerivationPath :=
  (keyHashes.getD []).flatMap fun keyHash =>
    groupedAddresses.flatMap fun address =>
      pathIf (address.paymentHash? = some keyHash) address.paymentKeyPath ++
        (address.stakeKeyDerivationPath.toList.flatMap
          (pathIf (address.rewardAccount.toHash = keyHash)))

def checkStakeCredential (address : GroupedAddress) (keyHash : Hash) :
    SignatureCheck AccountKeyDerivationPath :=
  match address.stakeKeyDerivationPath with
  | some path =>
    if address.rewardAccount.toHash = keyHash then { derivationPaths := [path] }
    else { requiresForeignSignatures := true }
  | none => { requiresForeignSignatures := true }

def checkPaymentCredential (address : GroupedAddress) (keyHash : Hash) :
    SignatureCheck AccountKeyDerivationPath :=
  if address.paymentHash? = some keyHash then { derivationPaths := [address.paymentKeyPath] }
  else { requiresForeignSignatures := true }

def addSignatureScript (keyHash : Hash) (signatureCheck : SignatureCheck AccountKeyDerivationPath)
    (address : GroupedAddress) : SignatureCheck AccountKeyDerivationPath :=
  let signatureCheck :=
    if address.stakeKeyDerivationPath.isSome then
      combineSignatureChecks signatureCheck (checkStakeCredential address keyHash)
    else signatureCheck
  combineSignatureChecks signatureCheck (checkPaymentCredential address keyHash)

def processSignatureScript (keyHash : Hash) (groupedAddresses : List GroupedAddress) :
    SignatureCheck AccountKeyDerivationPath :=
  groupedAddresses.foldl (addSignatureScript keyHash) {}

mutual

/-- `processScript` on a native script -/
def processNativeScript (groupedAddresses : List GroupedAddress) :
    NativeScript → SignatureCheck AccountKeyDerivationPath
  | .requireSignature keyHash => processSignatureScript keyHash.1 groupedAddresses
  | .requireAllOf scripts => processNativeScripts groupedAddresses {} scripts
  | .requireAnyOf scripts => processNativeScripts groupedAddresses {} scripts
  | .requireNOf _ scripts => processNativeScripts groupedAddresses {} scripts
  | .requireTimeBefore _ => {}
  | .requireTimeAfter _ => {}
  | .requireGuard credential =>
    if credential.type = .keyHash then processSignatureScript credential.hash groupedAddresses
    else {}

/-- The reduction over the scripts of one kind. -/
def processNativeScripts (groupedAddresses : List GroupedAddress)
    (acc : SignatureCheck AccountKeyDerivationPath) :
    List NativeScript → SignatureCheck AccountKeyDerivationPath
  | [] => acc
  | subScript :: scripts =>
    processNativeScripts groupedAddresses
      (combineSignatureChecks acc (processNativeScript groupedAddresses subScript)) scripts

end

def processScript (groupedAddresses : List GroupedAddress) :
    Script → SignatureCheck AccountKeyDerivationPath
  | .native script => processNativeScript groupedAddresses script
  | .plutus _ => {}

def getNativeScriptKeyPaths (groupedAddresses : List GroupedAddress)
    (nativeScripts : Option (List Script)) : SignatureCheck AccountKeyDerivationPath :=
  combineAll ((nativeScripts.getD []).map (processScript groupedAddresses))

def dRepCredential? : Certificate → Option Credential
  | .registerDelegateRepresentative dRepCredential _
  | .unregisterDelegateRepresentative dRepCredential _
  | .updateDelegateRepresentative dRepCredential => some dRepCredential
  | _ => none

/-- A scripted representative is foreign. An own one replaces the paths found before. -/
def checkDRepCertificate (dRepKeyHash : Option Hash)
    (signature : SignatureCheck AccountKeyDerivationPath) (certificate : Certificate) :
    SignatureCheck AccountKeyDerivationPath :=
  match dRepCredential? certificate with
  | some dRepCredential =>
    if dRepCredential.type = .scriptHash ∨ dRepKeyHash ≠ some dRepCredential.hash then
      { signature with requiresForeignSignatures := true }
    else { signature with derivationPaths := [dRepKeyDerivationPath] }
  | none => signature

def getDRepCredentialKeyPaths (dRepKeyHash : Option Hash) (txBody : TxBody) :
    SignatureCheck AccountKeyDerivationPath :=
  (txBody.certificates.getD []).foldl (checkDRepCertificate dRepKeyHash) {}

def ownSignatureKeyPaths (txBody : TxBody) (knownAddresses : List GroupedAddress)
    (txInKeyPathMap : TxInKeyPathMap) (dRepKeyHash : Option Hash)
    (scripts : Option (List Script)) : Except SignatureError (List AccountKeyDerivationPath) := do
  let paymentKeyPaths := txInKeyPathMap.values.filterMap id
  let stakeCredentialKeyPaths ← getStakeCredentialKeyPaths knownAddresses txBody
  pure (uniqWith (sameKey id)
    (paymentKeyPaths ++
      stakeCredentialKeyPaths.derivationPaths ++
      (getDRepCredentialKeyPaths dRepKeyHash txBody).derivationPaths ++
      getRequiredSignersKeyPaths knownAddresses txBody.requiredExtraSignatures ++
      (getVotingProcedureKeyPaths knownAddresses dRepKeyHash txBody).derivationPaths ++
      (getNativeScriptKeyPaths knownAddresses scripts).derivationPaths))

end CardanoSdk.KeyManagement
