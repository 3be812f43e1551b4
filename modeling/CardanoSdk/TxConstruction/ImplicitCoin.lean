import CardanoSdk.TxConstruction.SelectionConstraints

/-!
`core/src/Cardano/util/computeImplicitCoin.ts`: what a transaction pays in deposits and
takes from withdrawals and reclaimed deposits.
-/

namespace CardanoSdk.TxConstruction

open Lib InputSelection

structure DepositProtocolParams where
  stakeKeyDeposit : ℤ
  poolDeposit : Option ℤ := none

structure TxDeposits where
  deposit : ℤ := 0
  reclaimDeposit : ℤ := 0
  deriving DecidableEq

def TxDeposits.pay (deposits : TxDeposits) (amount : ℤ) : TxDeposits :=
  { deposits with deposit := deposits.deposit + amount }

def TxDeposits.reclaim (deposits : TxDeposits) (amount : ℤ) : TxDeposits :=
  { deposits with reclaimDeposit := deposits.reclaimDeposit + amount }

/-- Without reward accounts every credential is accepted. -/
def stakeCredentialInRewardAccounts (stakeCredential : Credential)
    (rewardAccounts : List RewardAccount) : Bool :=
  match rewardAccounts with
  | [] => true
  | first :: rest => (first :: rest).contains ⟨first.networkId, stakeCredential⟩

def addShelleyDeposit (stakeKeyDeposit poolDeposit : ℤ) (rewardAccounts : List RewardAccount)
    (deposits : TxDeposits) : Certificate → TxDeposits
  | .stakeRegistration stakeCredential =>
    if stakeCredentialInRewardAccounts stakeCredential rewardAccounts then
      deposits.pay stakeKeyDeposit
    else deposits
  | .stakeDeregistration stakeCredential =>
    if stakeCredentialInRewardAccounts stakeCredential rewardAccounts then
      deposits.reclaim stakeKeyDeposit
    else deposits
  | .poolRegistration poolParameters =>
    if rewardAccounts.isEmpty || rewardAccounts.any (poolParameters.owners.contains ·) then
      deposits.pay poolDeposit
    else deposits
  | .poolRetirement poolId =>
    if rewardAccounts.isEmpty || (rewardAccounts.map RewardAccount.toHash).contains poolId then
      deposits.reclaim poolDeposit
    else deposits
  | _ => deposits

def computeShellyDeposits (stakeKeyDeposit poolDeposit : ℤ) (certificates : List Certificate)
    (rewardAccounts : List RewardAccount) : TxDeposits :=
  certificates.foldl (addShelleyDeposit stakeKeyDeposit poolDeposit rewardAccounts) {}

def isOwnDRep (dRepKeyHash : Option Hash) (dRepCredential : Credential) : Bool :=
  match dRepKeyHash with
  | none => true
  | some hash => dRepCredential = ⟨.keyHash, hash⟩

def addConwayDeposit (rewardAccounts : List RewardAccount) (dRepKeyHash : Option Hash)
    (deposits : TxDeposits) : Certificate → TxDeposits
  | .registration stakeCredential deposit
  | .stakeRegistrationDelegation stakeCredential _ deposit
  | .voteRegistrationDelegation stakeCredential deposit
  | .stakeVoteRegistrationDelegation stakeCredential _ deposit =>
    if stakeCredentialInRewardAccounts stakeCredential rewardAccounts then deposits.pay deposit
    else deposits
  | .unregistration stakeCredential deposit =>
    if stakeCredentialInRewardAccounts stakeCredential rewardAccounts then
      deposits.reclaim deposit
    else deposits
  | .registerDelegateRepresentative dRepCredential deposit =>
    if isOwnDRep dRepKeyHash dRepCredential then deposits.pay deposit else deposits
  | .unregisterDelegateRepresentative dRepCredential deposit =>
    if isOwnDRep dRepKeyHash dRepCredential then deposits.reclaim deposit else deposits
  | _ => deposits

def computeConwayDeposits (certificates : List Certificate) (rewardAccounts : List RewardAccount)
    (dRepKeyHash : Option Hash) (proposalProcedures : Option (List ProposalProcedure)) :
    TxDeposits :=
  let deposits := certificates.foldl (addConwayDeposit rewardAccounts dRepKeyHash) {}
  (proposalProcedures.getD []).foldl (fun deposits proposal => deposits.pay proposal.deposit)
    deposits

def getTxDeposits (params : DepositProtocolParams) (certificates : List Certificate)
    (rewardAccounts : List RewardAccount) (dRepKeyHash : Option Hash)
    (proposalProcedures : Option (List ProposalProcedure)) : TxDeposits :=
  if certificates.length = 0 ∧ (proposalProcedures.getD []).length = 0 then {}
  else
    let shelleyDeposits := computeShellyDeposits params.stakeKeyDeposit
      (params.poolDeposit.getD 0) certificates rewardAccounts
    let conwayDeposits := computeConwayDeposits certificates rewardAccounts dRepKeyHash
      proposalProcedures
    { deposit := shelleyDeposits.deposit + conwayDeposits.deposit
      reclaimDeposit := shelleyDeposits.reclaimDeposit + conwayDeposits.reclaimDeposit }

def withdrawalsSum (withdrawals : List Withdrawal) : ℤ :=
  (withdrawals.map Withdrawal.quantity).sum

def getOwnWithdrawalsTotal (withdrawals : List Withdrawal) (rewardAccounts : List RewardAccount) :
    ℤ :=
  withdrawalsSum (withdrawals.filter fun withdrawal =>
    rewardAccounts.contains withdrawal.stakeAddress)

structure ImplicitCoinParts where
  certificates : Option (List Certificate) := none
  proposalProcedures : Option (List ProposalProcedure) := none
  withdrawals : Option (List Withdrawal) := none

def computeImplicitCoin (params : DepositProtocolParams) (parts : ImplicitCoinParts)
    (rewardAccounts : Option (List RewardAccount)) (dRepKeyHash : Option Hash) : ImplicitCoin :=
  let accounts := rewardAccounts.getD []
  let deposits := getTxDeposits params (parts.certificates.getD []) accounts dRepKeyHash
    parts.proposalProcedures
  let withdrawals := parts.withdrawals.getD []
  let withdrawalsTotal :=
    if accounts.isEmpty then withdrawalsSum withdrawals
    else getOwnWithdrawalsTotal withdrawals accounts
  { deposit := some deposits.deposit
    input := some (withdrawalsTotal + deposits.reclaimDeposit)
    reclaimDeposit := some deposits.reclaimDeposit
    withdrawals := some withdrawalsTotal }

theorem foldl_deposits {addDeposit : TxDeposits → Certificate → TxDeposits}
    (hadd : ∀ deposits certificate, addDeposit deposits certificate =
      { deposit := deposits.deposit + (addDeposit {} certificate).deposit
        reclaimDeposit := deposits.reclaimDeposit + (addDeposit {} certificate).reclaimDeposit })
    (certificates : List Certificate) (deposits : TxDeposits) :
    certificates.foldl addDeposit deposits =
      { deposit := deposits.deposit +
          (certificates.map (fun certificate => (addDeposit {} certificate).deposit)).sum
        reclaimDeposit := deposits.reclaimDeposit +
          (certificates.map (fun certificate => (addDeposit {} certificate).reclaimDeposit)).sum } := by
  induction certificates generalizing deposits with
  | nil => simp
  | cons certificate rest ih =>
    rw [List.foldl_cons, ih, hadd]
    simp only [List.map_cons, List.sum_cons, add_assoc]

theorem addShelleyDeposit_eq (stakeKeyDeposit poolDeposit : ℤ) (rewardAccounts : List RewardAccount)
    (deposits : TxDeposits) (certificate : Certificate) :
    addShelleyDeposit stakeKeyDeposit poolDeposit rewardAccounts deposits certificate =
      { deposit := deposits.deposit +
          (addShelleyDeposit stakeKeyDeposit poolDeposit rewardAccounts {} certificate).deposit
        reclaimDeposit := deposits.reclaimDeposit +
          (addShelleyDeposit stakeKeyDeposit poolDeposit rewardAccounts {}
            certificate).reclaimDeposit } := by
  cases certificate <;> simp only [addShelleyDeposit] <;>
    first
      | (split <;> simp [TxDeposits.pay, TxDeposits.reclaim])
      | simp

theorem addConwayDeposit_eq (rewardAccounts : List RewardAccount) (dRepKeyHash : Option Hash)
    (deposits : TxDeposits) (certificate : Certificate) :
    addConwayDeposit rewardAccounts dRepKeyHash deposits certificate =
      { deposit := deposits.deposit +
          (addConwayDeposit rewardAccounts dRepKeyHash {} certificate).deposit
        reclaimDeposit := deposits.reclaimDeposit +
          (addConwayDeposit rewardAccounts dRepKeyHash {} certificate).reclaimDeposit } := by
  cases certificate <;> simp only [addConwayDeposit] <;>
    first
      | (split <;> simp [TxDeposits.pay, TxDeposits.reclaim])
      | simp

theorem foldl_proposals (proposalProcedures : List ProposalProcedure) (deposits : TxDeposits) :
    proposalProcedures.foldl (fun deposits proposal => deposits.pay proposal.deposit) deposits =
      deposits.pay (proposalProcedures.map ProposalProcedure.deposit).sum := by
  induction proposalProcedures generalizing deposits with
  | nil => simp [TxDeposits.pay]
  | cons proposal rest ih =>
    rw [List.foldl_cons, ih]
    simp [TxDeposits.pay, add_assoc]

/-- What both passes together do for one certificate. -/
def certificateDeposits (params : DepositProtocolParams) (rewardAccounts : List RewardAccount)
    (dRepKeyHash : Option Hash) (certificate : Certificate) : TxDeposits :=
  let shelley := addShelleyDeposit params.stakeKeyDeposit (params.poolDeposit.getD 0)
    rewardAccounts {} certificate
  let conway := addConwayDeposit rewardAccounts dRepKeyHash {} certificate
  { deposit := shelley.deposit + conway.deposit
    reclaimDeposit := shelley.reclaimDeposit + conway.reclaimDeposit }

theorem getTxDeposits_eq (params : DepositProtocolParams) (certificates : List Certificate)
    (rewardAccounts : List RewardAccount) (dRepKeyHash : Option Hash)
    (proposalProcedures : Option (List ProposalProcedure)) :
    getTxDeposits params certificates rewardAccounts dRepKeyHash proposalProcedures =
      { deposit := (certificates.map (fun certificate =>
            (certificateDeposits params rewardAccounts dRepKeyHash certificate).deposit)).sum +
          ((proposalProcedures.getD []).map ProposalProcedure.deposit).sum
        reclaimDeposit := (certificates.map (fun certificate =>
            (certificateDeposits params rewardAccounts dRepKeyHash
              certificate).reclaimDeposit)).sum } := by
  unfold getTxDeposits
  split
  · rename_i hempty
    rw [List.length_eq_zero_iff.mp hempty.1, List.length_eq_zero_iff.mp hempty.2]
    rfl
  · unfold computeShellyDeposits computeConwayDeposits
    dsimp only
    rw [foldl_proposals, foldl_deposits (addShelleyDeposit_eq _ _ _),
      foldl_deposits (addConwayDeposit_eq _ _)]
    simp only [TxDeposits.pay, certificateDeposits, List.sum_map_add, zero_add, TxDeposits.mk.injEq,
      and_true]
    ring

end CardanoSdk.TxConstruction
