import CardanoSdk.InputSelection.Types

/-!
Credentials, and the certificates of `core/src/Cardano/types/Certificate.ts`. A reward
account is the address its bech32 text decodes to, a pool id the key hash. What nothing
here reads of the certificates is left out.
-/

namespace CardanoSdk.TxConstruction

open InputSelection

/-- The bytes of a hash, which the source writes as hex text; lower-case hex is meant. -/
abbrev Hash := List UInt8

/-- In lower-case hex as well. -/
abbrev PolicyId := List UInt8

inductive CredentialType where
  | keyHash | scriptHash
  deriving DecidableEq

structure Credential where
  type : CredentialType
  hash : Hash
  deriving DecidableEq

structure RewardAccount where
  networkId : ℕ
  paymentCredential : Credential
  deriving DecidableEq

def RewardAccount.toHash (rewardAccount : RewardAccount) : Hash :=
  rewardAccount.paymentCredential.hash

/-- A pool id is the hash that `PoolId.fromKeyHash` encodes. -/
abbrev PoolId := Hash

structure PoolParameters where
  id : PoolId
  owners : List RewardAccount
  deriving DecidableEq

inductive MirCertificateKind where
  | toOtherPot | toStakeCreds
  deriving DecidableEq

inductive Certificate where
  | stakeRegistration (stakeCredential : Credential)
  | stakeDeregistration (stakeCredential : Credential)
  | poolRegistration (poolParameters : PoolParameters)
  | poolRetirement (poolId : PoolId)
  | stakeDelegation (stakeCredential : Credential) (poolId : PoolId)
  | mir (kind : MirCertificateKind) (stakeCredential : Option Credential)
  | genesisKeyDelegation
  | registration (stakeCredential : Credential) (deposit : ℤ)
  | unregistration (stakeCredential : Credential) (deposit : ℤ)
  | voteDelegation (stakeCredential : Credential)
  | stakeVoteDelegation (stakeCredential : Credential) (poolId : PoolId)
  | stakeRegistrationDelegation (stakeCredential : Credential) (poolId : PoolId) (deposit : ℤ)
  | voteRegistrationDelegation (stakeCredential : Credential) (deposit : ℤ)
  | stakeVoteRegistrationDelegation (stakeCredential : Credential) (poolId : PoolId) (deposit : ℤ)
  | authorizeCommitteeHot (coldCredential : Credential)
  | resignCommitteeCold (coldCredential : Credential)
  | registerDelegateRepresentative (dRepCredential : Credential) (deposit : ℤ)
  | unregisterDelegateRepresentative (dRepCredential : Credential) (deposit : ℤ)
  | updateDelegateRepresentative (dRepCredential : Credential)
  deriving DecidableEq

structure ProposalProcedure where
  deposit : ℤ
  rewardAccount : RewardAccount
  deriving DecidableEq

def createStakeRegistrationCert (rewardAccount : RewardAccount) : Certificate :=
  .stakeRegistration ⟨.keyHash, rewardAccount.toHash⟩

/-- With a deposit it is the certificate of the Conway era. -/
def createStakeDeregistrationCert (rewardAccount : RewardAccount) (deposit : Option ℤ) :
    Certificate :=
  match deposit with
  | none => .stakeDeregistration ⟨.keyHash, rewardAccount.toHash⟩
  | some deposit => .unregistration ⟨.keyHash, rewardAccount.toHash⟩ deposit

def createDelegationCert (rewardAccount : RewardAccount) (poolId : PoolId) : Certificate :=
  .stakeDelegation ⟨.keyHash, rewardAccount.toHash⟩ poolId

end CardanoSdk.TxConstruction
