import CardanoSdk.KeyManagement.SignatureDemands

/-!
`requiresForeignSignatures` of `wallet/src/services/WalletUtil.ts`. Of a wallet the model
has its UTxO, its addresses and the hash of its DRep key. Behind the function stand the
witnesses that the ledger requires, and what the checks of a wallet look at, without the
checks.
-/

namespace CardanoSdk.Wallet

open Lib TxConstruction KeyManagement
open Cardano (AddressProps)
open InputSelection (TxIn Utxo)

structure ScriptAddress where
  address : AddressProps
  rewardAccount : RewardAccount

inductive WalletAddress where
  | grouped (address : GroupedAddress)
  | script (address : ScriptAddress)

def isScriptAddress : WalletAddress → Bool
  | .grouped _ => false
  | .script _ => true

def WalletAddress.rewardAccount : WalletAddress → RewardAccount
  | .grouped address => address.rewardAccount
  | .script address => address.rewardAccount

def WalletAddress.grouped? : WalletAddress → Option GroupedAddress
  | .grouped address => some address
  | .script _ => none

structure ObservableWallet where
  utxoTotal : List Utxo
  addresses : List WalletAddress
  dRepKeyHash : Option Hash

def txInEquals (a b : TxIn) : Bool := a.txId = b.txId && a.index = b.index

def hasForeignInputs (body : TxBody) (utxoSet : List Utxo) : Bool :=
  (body.inputs ++ body.collaterals.getD []).any fun txIn =>
    utxoSet.all fun utxo => !txInEquals txIn utxo.txIn

def isCommitteeCertificate : Certificate → Bool
  | .authorizeCommitteeHot _ | .resignCommitteeCold _ => true
  | _ => false

def hasCommitteeCertificates (body : TxBody) : Bool :=
  (body.certificates.getD []).any isCommitteeCertificate

def isOwnScript (scriptHash : Hash) (credential : Credential) : Bool :=
  credential.type = .scriptHash && credential.hash = scriptHash

/-- The body of the loop of `scriptWalletHasForeignCertificates`. One own owner of a
pool is enough. -/
def scriptWalletForeignCertificate (rewardAccount : RewardAccount) : Certificate → Bool
  | .registration _ _ | .stakeRegistration _ | .genesisKeyDelegation => false
  | .stakeDeregistration stakeCredential
  | .stakeDelegation stakeCredential _
  | .unregistration stakeCredential _
  | .voteDelegation stakeCredential
  | .stakeVoteDelegation stakeCredential _
  | .stakeRegistrationDelegation stakeCredential _ _
  | .voteRegistrationDelegation stakeCredential _
  | .stakeVoteRegistrationDelegation stakeCredential _ _ =>
    !isOwnScript rewardAccount.toHash stakeCredential
  | .mir _ stakeCredential =>
    match stakeCredential with
    | some stakeCredential => !isOwnScript rewardAccount.toHash stakeCredential
    | none => true
  | .poolRegistration poolParameters => !poolParameters.owners.contains rewardAccount
  | .poolRetirement poolId => poolId ≠ rewardAccount.toHash
  | .registerDelegateRepresentative dRepCredential _
  | .unregisterDelegateRepresentative dRepCredential _
  | .updateDelegateRepresentative dRepCredential =>
    !isOwnScript rewardAccount.toHash dRepCredential
  | .authorizeCommitteeHot _ | .resignCommitteeCold _ => true

def scriptWalletHasForeignCertificates (rewardAccount : RewardAccount)
    (certificates : Option (List Certificate)) : Bool :=
  (certificates.getD []).any (scriptWalletForeignCertificate rewardAccount)

def scriptWalletForeignVoter (rewardAccount : RewardAccount) (voter : Voter) : Bool :=
  match voter.typename with
  | .ccHotKeyHash | .ccHotScriptHash | .stakePoolKeyHash | .dRepKeyHash => true
  | .dRepScriptHash => voter.credential.hash ≠ rewardAccount.toHash

def scriptWalletHasForeignVotingProcedures (rewardAccount : RewardAccount)
    (votingProcedures : Option (List Voter)) : Bool :=
  (votingProcedures.getD []).any (scriptWalletForeignVoter rewardAccount)

def scriptWalletRequires (body : TxBody) (utxoSet : List Utxo) (rewardAccount : RewardAccount) :
    Bool :=
  hasForeignInputs body utxoSet ||
    scriptWalletHasForeignCertificates rewardAccount body.certificates ||
    scriptWalletHasForeignVotingProcedures rewardAccount body.votingProcedures

/-- An account without a path is kept: its path is `undefined` and not `null`. -/
def keyWalletAccounts (keyHashAddresses : List GroupedAddress) :
    List (StakeKeySignerData (Option AccountKeyDerivationPath)) :=
  (uniqueAccounts keyHashAddresses).map fun groupedAddress =>
    stakeKeySignerData groupedAddress groupedAddress.stakeKeyDerivationPath

/-- The DRep checks stand behind the test for a DRep key. -/
def keyWalletRequires (body : TxBody) (utxoSet : List Utxo)
    (keyHashAddresses : List GroupedAddress) (dRepKeyHash : Option Hash) :
    Except SignatureError Bool := do
  if hasForeignInputs body utxoSet then pure true
  else
    let certificatesCheck ←
      checkStakeCredentialCertificates (keyWalletAccounts keyHashAddresses) body
    pure (certificatesCheck.requiresForeignSignatures ||
      (dRepKeyHash.isSome &&
        (getDRepCredentialKeyPaths dRepKeyHash body).requiresForeignSignatures) ||
      (dRepKeyHash.isSome &&
        (getVotingProcedureKeyPaths keyHashAddresses dRepKeyHash body).requiresForeignSignatures) ||
      hasCommitteeCertificates body)

def requiresForeignSignatures (body : TxBody) (wallet : ObservableWallet) :
    Except SignatureError Bool :=
  match wallet.addresses.any isScriptAddress, wallet.addresses.head? with
  | true, some address =>
    .ok (scriptWalletRequires body wallet.utxoTotal address.rewardAccount)
  | _, _ =>
    keyWalletRequires body wallet.utxoTotal (wallet.addresses.filterMap WalletAddress.grouped?)
      wallet.dRepKeyHash

/-- MIR certificates and genesis delegations are gone since the Conway era, and a
registration without a deposit has no witness. -/
def certificateWitnesses : Certificate → List Credential
  | .stakeRegistration _ | .mir _ _ | .genesisKeyDelegation => []
  | .stakeDeregistration stakeCredential
  | .stakeDelegation stakeCredential _
  | .registration stakeCredential _
  | .unregistration stakeCredential _
  | .voteDelegation stakeCredential
  | .stakeVoteDelegation stakeCredential _
  | .stakeRegistrationDelegation stakeCredential _ _
  | .voteRegistrationDelegation stakeCredential _
  | .stakeVoteRegistrationDelegation stakeCredential _ _ => [stakeCredential]
  | .poolRegistration poolParameters =>
    ⟨.keyHash, poolParameters.id⟩ :: poolParameters.owners.map RewardAccount.paymentCredential
  | .poolRetirement poolId => [⟨.keyHash, poolId⟩]
  | .authorizeCommitteeHot coldCredential | .resignCommitteeCold coldCredential =>
    [coldCredential]
  | .registerDelegateRepresentative dRepCredential _
  | .unregisterDelegateRepresentative dRepCredential _
  | .updateDelegateRepresentative dRepCredential => [dRepCredential]

def withdrawalWitnesses (body : TxBody) : List Credential :=
  (body.withdrawals.getD []).map fun withdrawal => withdrawal.stakeAddress.paymentCredential

def signerWitnesses (body : TxBody) : List Credential :=
  (body.requiredExtraSignatures.getD []).map fun hash => ⟨.keyHash, hash⟩

/-- `spends` is the payment credential that locks an input. -/
def requiredWitnesses (spends : TxIn → Option Credential) (body : TxBody) : List Credential :=
  (body.inputs ++ body.collaterals.getD []).filterMap spends ++
    (body.certificates.getD []).flatMap certificateWitnesses ++
    (body.votingProcedures.getD []).map Voter.credential ++
    withdrawalWitnesses body ++ signerWitnesses body

def OwnInputs (utxoSet : List Utxo) (body : TxBody) : Prop :=
  ∀ txIn ∈ body.inputs ++ body.collaterals.getD [], ∃ utxo ∈ utxoSet,
    txInEquals txIn utxo.txIn = true

structure KeyWallet (spends : TxIn → Option Credential) where
  known : KnownAddresses
  dRepKeyHash : Option Hash
  utxoTotal : List Utxo
  locked : ∀ utxo ∈ utxoTotal, ∀ txIn, txInEquals txIn utxo.txIn = true →
    ∃ a ∈ known.addresses, spends txIn = paymentCredential? a.address

namespace KeyWallet

variable {spends : TxIn → Option Credential} (wallet : KeyWallet spends)

def OwnsStakeKey (hash : Hash) : Prop :=
  ∃ a ∈ wallet.known.addresses, hash = a.rewardAccount.toHash

def OwnsKey (hash : Hash) : Prop :=
  (∃ a ∈ wallet.known.addresses, a.paymentHash? = some hash) ∨ wallet.OwnsStakeKey hash ∨
    wallet.dRepKeyHash = some hash

/-- A script needs no key. -/
def Provides (credential : Credential) : Prop :=
  credential.type = .keyHash → wallet.OwnsKey credential.hash

def SignsStake : Certificate → Prop
  | .stakeDeregistration stakeCredential
  | .stakeDelegation stakeCredential _
  | .registration stakeCredential _
  | .unregistration stakeCredential _
  | .voteDelegation stakeCredential
  | .stakeVoteDelegation stakeCredential _
  | .stakeRegistrationDelegation stakeCredential _ _
  | .voteRegistrationDelegation stakeCredential _
  | .stakeVoteRegistrationDelegation stakeCredential _ _ =>
    stakeCredential.type = .keyHash ∧ wallet.OwnsStakeKey stakeCredential.hash
  | .poolRegistration poolParameters =>
    ∀ owner ∈ poolParameters.owners, ∃ a ∈ wallet.known.addresses, a.rewardAccount = owner
  | .poolRetirement poolId => wallet.OwnsStakeKey poolId
  | .mir .toStakeCreds (some stakeCredential) => wallet.OwnsStakeKey stakeCredential.hash
  | .mir _ _ => False
  | _ => True

/-- With a DRep key the certificates of representatives are those of this key. -/
def SignsDRep (certificate : Certificate) : Prop :=
  ∀ hash, wallet.dRepKeyHash = some hash → ∀ credential,
    dRepCredential? certificate = some credential → credential = ⟨.keyHash, hash⟩

/-- With a DRep key the votes are by this key or by a stake key of known path. -/
def SignsVote (voter : Voter) : Prop :=
  ∀ hash, wallet.dRepKeyHash = some hash →
    (voter.typename = .dRepKeyHash ∧ voter.hash = hash) ∨
    (voter.typename = .stakePoolKeyHash ∧ ∃ a ∈ wallet.known.addresses,
      voter.hash = a.rewardAccount.toHash ∧ ∃ path, a.stakeKeyDerivationPath = some path)

structure Checked (body : TxBody) : Prop where
  inputs : OwnInputs wallet.utxoTotal body
  stake : ∀ certificate ∈ body.certificates.getD [], wallet.SignsStake certificate
  dRep : ∀ certificate ∈ body.certificates.getD [], wallet.SignsDRep certificate
  committee : ∀ certificate ∈ body.certificates.getD [],
    isCommitteeCertificate certificate = false
  votes : ∀ voter ∈ body.votingProcedures.getD [], wallet.SignsVote voter

/-- The operator of a pool, and representatives when there is no DRep key -/
def uncheckedCertificate : Certificate → List Credential
  | .poolRegistration poolParameters => [⟨.keyHash, poolParameters.id⟩]
  | certificate =>
    if wallet.dRepKeyHash.isSome then [] else (dRepCredential? certificate).toList

def uncheckedVotes (body : TxBody) : List Credential :=
  if wallet.dRepKeyHash.isSome then []
  else (body.votingProcedures.getD []).map Voter.credential

def unchecked (body : TxBody) : List Credential :=
  (body.certificates.getD []).flatMap wallet.uncheckedCertificate ++
    wallet.uncheckedVotes body ++ withdrawalWitnesses body ++ signerWitnesses body

end KeyWallet

/-- The addresses have one payment script and one stake script. -/
structure ScriptWallet (spends : TxIn → Option Credential) where
  addresses : List ScriptAddress
  paymentHash : Hash
  rewardAccount : RewardAccount
  utxoTotal : List Utxo
  nonempty : addresses ≠ []
  payment : ∀ a ∈ addresses, paymentCredential? a.address = some ⟨.scriptHash, paymentHash⟩
  reward : ∀ a ∈ addresses, a.rewardAccount = rewardAccount
  locked : ∀ utxo ∈ utxoTotal, ∀ txIn, txInEquals txIn utxo.txIn = true →
    ∃ a ∈ addresses, spends txIn = paymentCredential? a.address

namespace ScriptWallet

variable {spends : TxIn → Option Credential} (wallet : ScriptWallet spends)

def Provides (credential : Credential) : Prop :=
  credential.hash = wallet.paymentHash ∨ credential.hash = wallet.rewardAccount.toHash

def stakeScript : Credential := ⟨.scriptHash, wallet.rewardAccount.toHash⟩

def SignsCertificate : Certificate → Prop
  | .stakeRegistration _ | .registration _ _ | .genesisKeyDelegation => True
  | .stakeDeregistration stakeCredential
  | .stakeDelegation stakeCredential _
  | .unregistration stakeCredential _
  | .voteDelegation stakeCredential
  | .stakeVoteDelegation stakeCredential _
  | .stakeRegistrationDelegation stakeCredential _ _
  | .voteRegistrationDelegation stakeCredential _
  | .stakeVoteRegistrationDelegation stakeCredential _ _ => stakeCredential = wallet.stakeScript
  | .mir _ stakeCredential => stakeCredential = some wallet.stakeScript
  | .poolRegistration poolParameters => wallet.rewardAccount ∈ poolParameters.owners
  | .poolRetirement poolId => poolId = wallet.rewardAccount.toHash
  | .authorizeCommitteeHot _ | .resignCommitteeCold _ => False
  | .registerDelegateRepresentative dRepCredential _
  | .unregisterDelegateRepresentative dRepCredential _
  | .updateDelegateRepresentative dRepCredential => dRepCredential = wallet.stakeScript

structure Checked (body : TxBody) : Prop where
  inputs : OwnInputs wallet.utxoTotal body
  certificates : ∀ certificate ∈ body.certificates.getD [], wallet.SignsCertificate certificate
  votes : ∀ voter ∈ body.votingProcedures.getD [],
    voter.typename = .dRepScriptHash ∧ voter.hash = wallet.rewardAccount.toHash

/-- Registrations, and the operator and the other owners of a pool -/
def uncheckedCertificate : Certificate → List Credential
  | .registration stakeCredential _ => [stakeCredential]
  | .poolRegistration poolParameters =>
    ⟨.keyHash, poolParameters.id⟩ :: poolParameters.owners.map RewardAccount.paymentCredential
  | _ => []

def unchecked (body : TxBody) : List Credential :=
  (body.certificates.getD []).flatMap uncheckedCertificate ++
    withdrawalWitnesses body ++ signerWitnesses body

end ScriptWallet

inductive Signer (spends : TxIn → Option Credential) where
  | keys (wallet : KeyWallet spends)
  | script (wallet : ScriptWallet spends)

namespace Signer

variable {spends : TxIn → Option Credential}

def observable : Signer spends → ObservableWallet
  | .keys wallet =>
    { utxoTotal := wallet.utxoTotal
      addresses := wallet.known.addresses.map .grouped
      dRepKeyHash := wallet.dRepKeyHash }
  | .script wallet =>
    { utxoTotal := wallet.utxoTotal
      addresses := wallet.addresses.map .script
      dRepKeyHash := none }

def Provides : Signer spends → Credential → Prop
  | .keys wallet => wallet.Provides
  | .script wallet => wallet.Provides

/-- The inputs, certificates and votes that the wallet looks at are its own. -/
def Checked : Signer spends → TxBody → Prop
  | .keys wallet => wallet.Checked
  | .script wallet => wallet.Checked

/-- Required witnesses that the wallet does not look at -/
def unchecked : Signer spends → TxBody → List Credential
  | .keys wallet => wallet.unchecked
  | .script _ => ScriptWallet.unchecked

def Sound (signer : Signer spends) (body : TxBody) : Prop :=
  ∀ credential ∈ requiredWitnesses spends body, signer.Provides credential

end Signer

end CardanoSdk.Wallet
