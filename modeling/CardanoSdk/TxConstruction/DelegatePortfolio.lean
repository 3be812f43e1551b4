import CardanoSdk.TxConstruction.Certificates
import Mathlib.Data.Rat.Defs

/-!
`#delegatePortfolio` of `TxBuilder.ts`. Arrays that are reversed and then popped are
listed from their ends, which is the order before they are reversed.
-/

namespace CardanoSdk.TxConstruction

open Lib

inductive StakeCredentialStatus where
  | registering | registered | unregistering | unregistered
  deriving DecidableEq

/-- What `isDrepInfo` tells apart. -/
inductive DelegateRepresentative where
  | drepInfo (active : Bool)
  | alwaysAbstain
  | alwaysNoConfidence
  deriving DecidableEq

structure RewardAccountWithPoolId where
  address : RewardAccount
  credentialStatus : StakeCredentialStatus
  /-- `delegatee?.nextNextEpoch?.id` -/
  delegatee : Option PoolId
  dRepDelegatee : Option DelegateRepresentative
  rewardBalance : ℤ
  deposit : Option ℤ
  deriving DecidableEq

structure TxBuilderStakePool where
  id : PoolId
  weight : ℚ
  deriving DecidableEq

abbrev RewardAccountsAndWeights := JsMap RewardAccount ℚ

inductive DelegatePortfolioError where
  | insufficientRewardAccounts (poolIds : List PoolId) (rewardAccounts : List RewardAccount)
  | deRegistrationsWithRewardsLocked (keysWithLockedRewards : List RewardAccountWithPoolId)

def hasCorrectVoteDelegation (account : RewardAccountWithPoolId) : Bool :=
  match account.dRepDelegatee with
  | none => false
  | some (.drepInfo active) => active
  | some .alwaysAbstain | some .alwaysNoConfidence => true

def ensureNoDeRegistrationsWithRewardsLocked
    (rewardAccountsToBeDeRegistered : List RewardAccountWithPoolId) :
    Except DelegatePortfolioError Unit :=
  let locked := rewardAccountsToBeDeRegistered.filter fun account =>
    account.rewardBalance > 0 && !hasCorrectVoteDelegation account
  if locked.length > 0 then .error (.deRegistrationsWithRewardsLocked locked) else .ok ()

/-- `getScore` of `sortRewardAccountsDelegatedFirst` -/
def delegatedFirstScore (account : RewardAccountWithPoolId) : ℕ :=
  if account.credentialStatus = .registered then
    if account.delegatee.isSome then 0 else 1
  else 2

def sortRewardAccountsDelegatedFirst (accounts : List RewardAccountWithPoolId) :
    List RewardAccountWithPoolId :=
  accounts.mergeSort fun a b => decide (delegatedFirstScore a ≤ delegatedFirstScore b)

def newPools (requestedPortfolio : List TxBuilderStakePool)
    (rewardAccounts : List RewardAccountWithPoolId) : List TxBuilderStakePool :=
  requestedPortfolio.filter fun pool =>
    rewardAccounts.all fun account => account.delegatee ≠ some pool.id

def delegatesToRequested (requestedPortfolio : List TxBuilderStakePool)
    (account : RewardAccountWithPoolId) : Bool :=
  requestedPortfolio.any fun pool => account.delegatee = some pool.id

def delegatedWeights (requestedPortfolio : List TxBuilderStakePool)
    (rewardAccounts : List RewardAccountWithPoolId) : RewardAccountsAndWeights :=
  let delegated := rewardAccounts.filter fun account =>
    account.credentialStatus = .registered && delegatesToRequested requestedPortfolio account
  JsMap.ofList (delegated.filterMap fun account =>
    (requestedPortfolio.find? fun pool => some pool.id = account.delegatee).map fun pool =>
      (account.address, pool.weight))

def availableRewardAccounts (requestedPortfolio : List TxBuilderStakePool)
    (rewardAccounts : List RewardAccountWithPoolId) : List RewardAccountWithPoolId :=
  sortRewardAccountsDelegatedFirst (rewardAccounts.filter fun account =>
    account.credentialStatus = .unregistered || account.delegatee.isNone ||
      !delegatesToRequested requestedPortfolio account)

def delegationCertificates (rewardAccount : RewardAccountWithPoolId) (newPoolId : PoolId) :
    List Certificate :=
  (if rewardAccount.credentialStatus ≠ .registered ∧ rewardAccount.credentialStatus ≠ .registering
    then [createStakeRegistrationCert rewardAccount.address] else []) ++
    [createDelegationCert rewardAccount.address newPoolId]

/-- The loop: the certificates, the weights and the accounts left over. -/
def delegateNewPools : List TxBuilderStakePool → List RewardAccountWithPoolId →
    List Certificate → RewardAccountsAndWeights →
    List Certificate × RewardAccountsAndWeights × List RewardAccountWithPoolId
  | pool :: pools, account :: accounts, certificates, weights =>
    delegateNewPools pools accounts
      (certificates ++ delegationCertificates account pool.id)
      (weights.set account.address pool.weight)
  | _, accounts, certificates, weights => (certificates, weights, accounts)

def deRegistrationCertificates (inConwayEra : Bool) (accounts : List RewardAccountWithPoolId) :
    List Certificate :=
  (accounts.filter fun account => account.credentialStatus = .registered).map fun account =>
    createStakeDeregistrationCert account.address (if inConwayEra then account.deposit else none)

def delegatePortfolio (inConwayEra : Bool) (requestedPortfolio : List TxBuilderStakePool)
    (rewardAccounts : List RewardAccountWithPoolId) :
    Except DelegatePortfolioError (List Certificate × RewardAccountsAndWeights) := do
  let pools := newPools requestedPortfolio rewardAccounts
  let available := availableRewardAccounts requestedPortfolio rewardAccounts
  if pools.length > available.length then
    throw (.insufficientRewardAccounts (pools.reverse.map TxBuilderStakePool.id)
      (available.reverse.map RewardAccountWithPoolId.address))
  let (certificates, weights, left) := delegateNewPools pools available []
    (delegatedWeights requestedPortfolio rewardAccounts)
  -- the rest of the array, from its start
  let left := left.reverse
  ensureNoDeRegistrationsWithRewardsLocked left
  return (certificates ++ deRegistrationCertificates inConwayEra left, weights)

end CardanoSdk.TxConstruction
