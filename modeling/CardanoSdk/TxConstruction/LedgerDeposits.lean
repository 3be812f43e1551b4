import CardanoSdk.TxConstruction.ImplicitCoin

/-!
The deposits and refunds of a transaction by the ledger's rules. The deposit of a pool
goes to its reward account at an epoch boundary, so a retirement refunds nothing. The
implicit coin departs from this in what it counts beside the ledger and in what it does
not recognise.
-/

namespace CardanoSdk.TxConstruction

open Lib InputSelection

/-- What the ledger holds deposits for. -/
structure DepositLedger where
  registeredPools : List PoolId
  /-- The deposit recorded when a stake credential was registered. -/
  keyDeposit : Credential → ℤ

def DepositLedger.recordKey (ledger : DepositLedger) (stakeCredential : Credential)
    (deposit : ℤ) : DepositLedger :=
  { ledger with keyDeposit := Function.update ledger.keyDeposit stakeCredential deposit }

def DepositLedger.apply (params : DepositProtocolParams) (ledger : DepositLedger) :
    Certificate → DepositLedger
  | .stakeRegistration stakeCredential => ledger.recordKey stakeCredential params.stakeKeyDeposit
  | .registration stakeCredential deposit
  | .stakeRegistrationDelegation stakeCredential _ deposit
  | .voteRegistrationDelegation stakeCredential deposit
  | .stakeVoteRegistrationDelegation stakeCredential _ deposit =>
    ledger.recordKey stakeCredential deposit
  | .poolRegistration poolParameters =>
    { ledger with registeredPools := poolParameters.id :: ledger.registeredPools }
  | _ => ledger

/-- A pool that is registered already is only updated. -/
def DepositLedger.charge (params : DepositProtocolParams) (ledger : DepositLedger) :
    Certificate → ℤ
  | .stakeRegistration _ => params.stakeKeyDeposit
  | .poolRegistration poolParameters =>
    if poolParameters.id ∈ ledger.registeredPools then 0 else params.poolDeposit.getD 0
  | .registration _ deposit
  | .stakeRegistrationDelegation _ _ deposit
  | .voteRegistrationDelegation _ deposit
  | .stakeVoteRegistrationDelegation _ _ deposit
  | .registerDelegateRepresentative _ deposit => deposit
  | _ => 0

def DepositLedger.refund (ledger : DepositLedger) : Certificate → ℤ
  | .stakeDeregistration stakeCredential => ledger.keyDeposit stakeCredential
  | .unregistration _ deposit
  | .unregisterDelegateRepresentative _ deposit => deposit
  | _ => 0

/-- An amount summed over the certificates, each in the state it is applied in. -/
def ledgerSum (params : DepositProtocolParams) (amount : DepositLedger → Certificate → ℤ) :
    DepositLedger → List Certificate → ℤ
  | _, [] => 0
  | ledger, certificate :: rest =>
    amount ledger certificate + ledgerSum params amount (ledger.apply params certificate) rest

/-- Every pool that a certificate registers is new when it does. -/
def NewPools (params : DepositProtocolParams) : DepositLedger → List Certificate → Prop
  | _, [] => True
  | ledger, certificate :: rest =>
    (∀ poolParameters, certificate = .poolRegistration poolParameters →
      poolParameters.id ∉ ledger.registeredPools) ∧
    NewPools params (ledger.apply params certificate) rest

/-- The stake credential whose deposit a certificate moves. -/
def depositCredential : Certificate → Option Credential
  | .stakeRegistration stakeCredential
  | .stakeDeregistration stakeCredential
  | .registration stakeCredential _
  | .unregistration stakeCredential _
  | .stakeRegistrationDelegation stakeCredential _ _
  | .voteRegistrationDelegation stakeCredential _
  | .stakeVoteRegistrationDelegation stakeCredential _ _ => some stakeCredential
  | _ => none

/-- No accounts stand for all of them. -/
def ownsCredential (rewardAccounts : List RewardAccount) (stakeCredential : Credential) : Bool :=
  rewardAccounts.isEmpty ||
    rewardAccounts.any (fun rewardAccount => rewardAccount.paymentCredential = stakeCredential)

def ownsProposal (rewardAccounts : List RewardAccount) (proposal : ProposalProcedure) : Bool :=
  rewardAccounts.isEmpty || rewardAccounts.contains proposal.rewardAccount

/-- Stake deposits belong to the account of the credential, the deposit of a pool to
its owners and that of a DRep to its key. The other certificates move no deposit. -/
def belongs (rewardAccounts : List RewardAccount) (dRepKeyHash : Option Hash)
    (certificate : Certificate) : Bool :=
  match certificate with
  | .poolRegistration poolParameters =>
    rewardAccounts.isEmpty || rewardAccounts.any (poolParameters.owners.contains ·)
  | .registerDelegateRepresentative dRepCredential _
  | .unregisterDelegateRepresentative dRepCredential _ => isOwnDRep dRepKeyHash dRepCredential
  | other =>
    match depositCredential other with
    | some stakeCredential => ownsCredential rewardAccounts stakeCredential
    | none => true

section Own

variable (params : DepositProtocolParams) (ledger : DepositLedger) (parts : ImplicitCoinParts)
  (rewardAccounts : List RewardAccount) (dRepKeyHash : Option Hash)

/-- The deposits of the given accounts and DRep that the ledger charges. -/
def ledgerDeposits : ℤ :=
  ledgerSum params (fun state certificate =>
      if belongs rewardAccounts dRepKeyHash certificate then state.charge params certificate else 0)
    ledger (parts.certificates.getD []) +
  (((parts.proposalProcedures.getD []).filter (ownsProposal rewardAccounts)).map
    ProposalProcedure.deposit).sum

def ledgerRefunds : ℤ :=
  ledgerSum params (fun state certificate =>
      if belongs rewardAccounts dRepKeyHash certificate then state.refund certificate else 0)
    ledger (parts.certificates.getD [])

def ledgerWithdrawals : ℤ :=
  if rewardAccounts.isEmpty then withdrawalsSum (parts.withdrawals.getD [])
  else getOwnWithdrawalsTotal (parts.withdrawals.getD []) rewardAccounts

/-- Consumed equals produced: the ledger's balance of a body in lovelace. -/
def ConsumedIsProduced (inputs outputs fee : ℤ) : Prop :=
  inputs + ledgerWithdrawals parts [] + ledgerRefunds params ledger parts [] none =
    outputs + fee + ledgerDeposits params ledger parts [] none

end Own

/-- The implicit coin is what the ledger charges and gives back, so a body whose
change is computed from it is balanced. -/
structure AgreesWithLedger (params : DepositProtocolParams) (ledger : DepositLedger)
    (parts : ImplicitCoinParts) (rewardAccounts : Option (List RewardAccount))
    (dRepKeyHash : Option Hash) : Prop where
  deposit : (computeImplicitCoin params parts rewardAccounts dRepKeyHash).deposit =
    some (ledgerDeposits params ledger parts (rewardAccounts.getD []) dRepKeyHash)
  input : (computeImplicitCoin params parts rewardAccounts dRepKeyHash).input =
    some (ledgerWithdrawals parts (rewardAccounts.getD []) +
      ledgerRefunds params ledger parts (rewardAccounts.getD []) dRepKeyHash)
  balanced : rewardAccounts.getD [] = [] → dRepKeyHash = none → ∀ inputs outputs fee,
    inputs + (computeImplicitCoin params parts rewardAccounts dRepKeyHash).input.getD 0 =
      outputs + fee + (computeImplicitCoin params parts rewardAccounts dRepKeyHash).deposit.getD 0 →
    ConsumedIsProduced params ledger parts inputs outputs fee

/-- A retirement is counted as a reclaim when the pool id is the hash of an account. -/
def countsRetirement (rewardAccounts : List RewardAccount) : Certificate → Bool
  | .poolRetirement poolId =>
    rewardAccounts.isEmpty || (rewardAccounts.map RewardAccount.toHash).contains poolId
  | _ => false

def retirementReclaims (params : DepositProtocolParams) (rewardAccounts : List RewardAccount)
    (certificates : List Certificate) : ℤ :=
  (certificates.countP (countsRetirement rewardAccounts)) * params.poolDeposit.getD 0

def foreignProposalDeposits (rewardAccounts : List RewardAccount)
    (proposalProcedures : List ProposalProcedure) : ℤ :=
  ((proposalProcedures.filter (fun proposal => !ownsProposal rewardAccounts proposal)).map
    ProposalProcedure.deposit).sum

/-- The credential is that of an account, on another network than the first. -/
def unrecognized (rewardAccounts : List RewardAccount) (certificate : Certificate) : Bool :=
  match depositCredential certificate with
  | some stakeCredential => ownsCredential rewardAccounts stakeCredential &&
      !stakeCredentialInRewardAccounts stakeCredential rewardAccounts
  | none => false

def unrecognizedCharge (params : DepositProtocolParams) (rewardAccounts : List RewardAccount)
    (ledger : DepositLedger) (certificate : Certificate) : ℤ :=
  if unrecognized rewardAccounts certificate then ledger.charge params certificate else 0

/-- A pool that is only updated is charged for all the same. -/
def updatedPoolCharge (params : DepositProtocolParams) (rewardAccounts : List RewardAccount)
    (dRepKeyHash : Option Hash) (ledger : DepositLedger) (certificate : Certificate) : ℤ :=
  match certificate with
  | .poolRegistration poolParameters =>
    if belongs rewardAccounts dRepKeyHash certificate ∧
        poolParameters.id ∈ ledger.registeredPools then params.poolDeposit.getD 0
    else 0
  | _ => 0

/-- What the ledger refunds beyond what is reclaimed: all of it for a credential that
is not recognised, and else what was recorded beyond the current parameter. -/
def unreclaimedRefund (params : DepositProtocolParams) (rewardAccounts : List RewardAccount)
    (ledger : DepositLedger) (certificate : Certificate) : ℤ :=
  if unrecognized rewardAccounts certificate then ledger.refund certificate
  else
    match certificate with
    | .stakeDeregistration stakeCredential =>
      if ownsCredential rewardAccounts stakeCredential then
        ledger.keyDeposit stakeCredential - params.stakeKeyDeposit
      else 0
    | _ => 0

theorem ownsCredential_of_recognized {stakeCredential : Credential}
    {rewardAccounts : List RewardAccount}
    (h : stakeCredentialInRewardAccounts stakeCredential rewardAccounts = true) :
    ownsCredential rewardAccounts stakeCredential = true := by
  cases rewardAccounts with
  | nil => rfl
  | cons first rest =>
    have hmem := List.contains_iff_mem.mp h
    simp only [ownsCredential, List.isEmpty_cons, Bool.false_or, List.any_eq_true,
      decide_eq_true_eq]
    exact ⟨_, hmem, rfl⟩

section One

variable (params : DepositProtocolParams) (rewardAccounts : List RewardAccount)
  (dRepKeyHash : Option Hash) (ledger : DepositLedger)

theorem recognized_add_unrecognized (stakeCredential : Credential) (amount : ℤ) :
    (if stakeCredentialInRewardAccounts stakeCredential rewardAccounts then amount else 0) +
        (if ownsCredential rewardAccounts stakeCredential &&
          !stakeCredentialInRewardAccounts stakeCredential rewardAccounts then amount else 0) =
      if ownsCredential rewardAccounts stakeCredential then amount else 0 := by
  have howns := @ownsCredential_of_recognized stakeCredential rewardAccounts
  cases hrecognized : stakeCredentialInRewardAccounts stakeCredential rewardAccounts with
  | false => simp
  | true => simp [howns hrecognized]

/-- What is paid and what is not recognised are what the ledger charges, and the
deposits of pools that are only updated. -/
theorem certificate_charge (certificate : Certificate) :
    (certificateDeposits params rewardAccounts dRepKeyHash certificate).deposit +
        unrecognizedCharge params rewardAccounts ledger certificate =
      (if belongs rewardAccounts dRepKeyHash certificate then ledger.charge params certificate
        else 0) + updatedPoolCharge params rewardAccounts dRepKeyHash ledger certificate := by
  simp only [certificateDeposits, unrecognizedCharge, unrecognized]
  cases certificate with
  | stakeRegistration stakeCredential =>
    simp only [addShelleyDeposit, addConwayDeposit, depositCredential, DepositLedger.charge,
      belongs, updatedPoolCharge, TxDeposits.pay, apply_ite TxDeposits.deposit, zero_add, add_zero]
    exact recognized_add_unrecognized rewardAccounts stakeCredential params.stakeKeyDeposit
  | registration stakeCredential deposit
  | stakeRegistrationDelegation stakeCredential _ deposit
  | voteRegistrationDelegation stakeCredential deposit
  | stakeVoteRegistrationDelegation stakeCredential _ deposit =>
    simp only [addShelleyDeposit, addConwayDeposit, depositCredential, DepositLedger.charge,
      belongs, updatedPoolCharge, TxDeposits.pay, apply_ite TxDeposits.deposit, zero_add, add_zero]
    exact recognized_add_unrecognized rewardAccounts stakeCredential deposit
  | poolRegistration poolParameters =>
    have hpaid : (addShelleyDeposit params.stakeKeyDeposit (params.poolDeposit.getD 0)
        rewardAccounts {} (.poolRegistration poolParameters)).deposit =
        if belongs rewardAccounts dRepKeyHash (.poolRegistration poolParameters) then
          params.poolDeposit.getD 0 else 0 := by
      simp only [addShelleyDeposit, TxDeposits.pay, apply_ite TxDeposits.deposit, zero_add]
      rfl
    rw [hpaid]
    simp only [addConwayDeposit, depositCredential, DepositLedger.charge, updatedPoolCharge]
    cases belongs rewardAccounts dRepKeyHash (.poolRegistration poolParameters) with
    | false => simp
    | true => by_cases hknown : poolParameters.id ∈ ledger.registeredPools <;> simp [hknown]
  | registerDelegateRepresentative dRepCredential deposit =>
    simp only [addShelleyDeposit, addConwayDeposit, depositCredential, DepositLedger.charge,
      belongs, updatedPoolCharge, TxDeposits.pay, apply_ite TxDeposits.deposit, zero_add, add_zero,
      Bool.false_eq_true, if_false]
    rfl
  | _ =>
    simp [addShelleyDeposit, addConwayDeposit, depositCredential, DepositLedger.charge,
      updatedPoolCharge, TxDeposits.reclaim, apply_ite TxDeposits.deposit]

/-- What is reclaimed and what is not are what the ledger refunds, and the pool
deposits of the counted retirements. -/
theorem certificate_refund (certificate : Certificate) :
    (certificateDeposits params rewardAccounts dRepKeyHash certificate).reclaimDeposit +
        unreclaimedRefund params rewardAccounts ledger certificate =
      (if belongs rewardAccounts dRepKeyHash certificate then ledger.refund certificate else 0) +
        if countsRetirement rewardAccounts certificate then params.poolDeposit.getD 0 else 0 := by
  simp only [certificateDeposits, unreclaimedRefund, unrecognized]
  cases certificate with
  | stakeDeregistration stakeCredential =>
    have howns := @ownsCredential_of_recognized stakeCredential rewardAccounts
    cases hrecognized : stakeCredentialInRewardAccounts stakeCredential rewardAccounts with
    | true =>
      simp [addShelleyDeposit, addConwayDeposit, depositCredential, DepositLedger.refund,
        belongs, TxDeposits.reclaim, countsRetirement, hrecognized, howns hrecognized]
    | false =>
      cases hown : ownsCredential rewardAccounts stakeCredential <;>
        simp [addShelleyDeposit, addConwayDeposit, depositCredential, DepositLedger.refund,
          belongs, countsRetirement, hrecognized, hown]
  | unregistration stakeCredential deposit =>
    simp only [addShelleyDeposit, addConwayDeposit, depositCredential, DepositLedger.refund,
      belongs, TxDeposits.reclaim, countsRetirement, apply_ite TxDeposits.reclaimDeposit,
      zero_add, add_zero, Bool.false_eq_true, if_false]
    exact recognized_add_unrecognized rewardAccounts stakeCredential deposit
  | poolRetirement poolId =>
    simp [addShelleyDeposit, addConwayDeposit, depositCredential, DepositLedger.refund,
      TxDeposits.reclaim, countsRetirement, apply_ite TxDeposits.reclaimDeposit]
  | unregisterDelegateRepresentative dRepCredential deposit =>
    simp only [addShelleyDeposit, addConwayDeposit, depositCredential, DepositLedger.refund,
      belongs, TxDeposits.reclaim, countsRetirement, apply_ite TxDeposits.reclaimDeposit,
      zero_add, add_zero, Bool.false_eq_true, if_false]
    rfl
  | _ =>
    simp [addShelleyDeposit, addConwayDeposit, depositCredential, DepositLedger.refund,
      TxDeposits.pay, countsRetirement, apply_ite TxDeposits.reclaimDeposit]

theorem deposits_add_unrecognized (certificates : List Certificate) :
    (certificates.map (fun certificate =>
        (certificateDeposits params rewardAccounts dRepKeyHash certificate).deposit)).sum +
      ledgerSum params (unrecognizedCharge params rewardAccounts) ledger certificates =
      ledgerSum params (fun state certificate =>
        if belongs rewardAccounts dRepKeyHash certificate then state.charge params certificate
        else 0) ledger certificates +
      ledgerSum params (updatedPoolCharge params rewardAccounts dRepKeyHash) ledger
        certificates := by
  induction certificates generalizing ledger with
  | nil => rfl
  | cons certificate rest ih =>
    have hrest := ih (ledger.apply params certificate)
    have hfirst := certificate_charge params rewardAccounts dRepKeyHash ledger certificate
    simp only [List.map_cons, List.sum_cons, ledgerSum]
    omega

theorem updatedPoolCharges_of_new {certificates : List Certificate}
    (hnew : NewPools params ledger certificates) :
    ledgerSum params (updatedPoolCharge params rewardAccounts dRepKeyHash) ledger
      certificates = 0 := by
  induction certificates generalizing ledger with
  | nil => rfl
  | cons certificate rest ih =>
    rw [ledgerSum, ih (ledger.apply params certificate) hnew.2, add_zero]
    unfold updatedPoolCharge
    split
    · rw [if_neg (fun h => hnew.1 _ rfl h.2)]
    · rfl

theorem reclaims_add_unreclaimed (certificates : List Certificate) :
    (certificates.map (fun certificate =>
        (certificateDeposits params rewardAccounts dRepKeyHash certificate).reclaimDeposit)).sum +
      ledgerSum params (unreclaimedRefund params rewardAccounts) ledger certificates =
      ledgerSum params (fun state certificate =>
        if belongs rewardAccounts dRepKeyHash certificate then state.refund certificate
        else 0) ledger certificates +
      retirementReclaims params rewardAccounts certificates := by
  induction certificates generalizing ledger with
  | nil => simp [ledgerSum, retirementReclaims]
  | cons certificate rest ih =>
    have hrest := ih (ledger.apply params certificate)
    have hfirst := certificate_refund params rewardAccounts dRepKeyHash ledger certificate
    have hcount : retirementReclaims params rewardAccounts (certificate :: rest) =
        (if countsRetirement rewardAccounts certificate then params.poolDeposit.getD 0 else 0) +
          retirementReclaims params rewardAccounts rest := by
      unfold retirementReclaims
      rw [List.countP_cons]
      split
      · push_cast
        ring
      · simp
    simp only [List.map_cons, List.sum_cons, ledgerSum, hcount]
    omega

end One

theorem sum_ownProposals (rewardAccounts : List RewardAccount)
    (proposalProcedures : List ProposalProcedure) :
    (proposalProcedures.map ProposalProcedure.deposit).sum =
      ((proposalProcedures.filter (ownsProposal rewardAccounts)).map
        ProposalProcedure.deposit).sum +
        foreignProposalDeposits rewardAccounts proposalProcedures := by
  induction proposalProcedures with
  | nil => rfl
  | cons proposal rest ih =>
    unfold foreignProposalDeposits at ih ⊢
    cases howns : ownsProposal rewardAccounts proposal <;>
      simp only [List.map_cons, List.sum_cons, List.filter_cons, howns, Bool.not_true,
        Bool.not_false, if_true, Bool.false_eq_true, if_false] <;>
      omega

theorem computeImplicitCoin_eq (params : DepositProtocolParams) (parts : ImplicitCoinParts)
    (rewardAccounts : Option (List RewardAccount)) (dRepKeyHash : Option Hash) :
    computeImplicitCoin params parts rewardAccounts dRepKeyHash =
      { deposit := some (((parts.certificates.getD []).map (fun certificate =>
            (certificateDeposits params (rewardAccounts.getD []) dRepKeyHash
              certificate).deposit)).sum +
          ((parts.proposalProcedures.getD []).map ProposalProcedure.deposit).sum)
        input := some (ledgerWithdrawals parts (rewardAccounts.getD []) +
          ((parts.certificates.getD []).map (fun certificate =>
            (certificateDeposits params (rewardAccounts.getD []) dRepKeyHash
              certificate).reclaimDeposit)).sum)
        reclaimDeposit := some ((parts.certificates.getD []).map (fun certificate =>
            (certificateDeposits params (rewardAccounts.getD []) dRepKeyHash
              certificate).reclaimDeposit)).sum
        withdrawals := some (ledgerWithdrawals parts (rewardAccounts.getD [])) } := by
  unfold computeImplicitCoin
  dsimp only
  rw [getTxDeposits_eq]
  rfl

/-- The implicit coin is what the ledger charges and gives back exactly when the
proposals of others are made up for by own registrations that are not recognised,
and the counted retirements by own refunds that are not reclaimed. -/
theorem computeImplicitCoin_agrees_iff (params : DepositProtocolParams) (ledger : DepositLedger)
    (parts : ImplicitCoinParts) (rewardAccounts : Option (List RewardAccount))
    (dRepKeyHash : Option Hash)
    (hnew : NewPools params ledger (parts.certificates.getD [])) :
    AgreesWithLedger params ledger parts rewardAccounts dRepKeyHash ↔
      foreignProposalDeposits (rewardAccounts.getD []) (parts.proposalProcedures.getD []) =
          ledgerSum params (unrecognizedCharge params (rewardAccounts.getD [])) ledger
            (parts.certificates.getD []) ∧
        retirementReclaims params (rewardAccounts.getD []) (parts.certificates.getD []) =
          ledgerSum params (unreclaimedRefund params (rewardAccounts.getD [])) ledger
            (parts.certificates.getD []) := by
  set accounts := rewardAccounts.getD [] with haccounts
  set certificates := parts.certificates.getD [] with hcertificates
  have hcharged := deposits_add_unrecognized params accounts dRepKeyHash ledger certificates
  rw [updatedPoolCharges_of_new params accounts dRepKeyHash ledger hnew, add_zero] at hcharged
  have hrefunded := reclaims_add_unreclaimed params accounts dRepKeyHash ledger certificates
  have hproposals := sum_ownProposals accounts (parts.proposalProcedures.getD [])
  have hcoin := computeImplicitCoin_eq params parts rewardAccounts dRepKeyHash
  have hdeposit := congrArg ImplicitCoin.deposit hcoin
  have hinput := congrArg ImplicitCoin.input hcoin
  simp only [← haccounts, ← hcertificates] at hdeposit hinput
  constructor
  · intro h
    have hd := h.deposit
    have hi := h.input
    rw [hdeposit, ← haccounts, Option.some_inj, ledgerDeposits, ← hcertificates] at hd
    rw [hinput, ← haccounts, Option.some_inj, ledgerRefunds, ← hcertificates] at hi
    exact ⟨by omega, by omega⟩
  · rintro ⟨hforeign, hretired⟩
    have hd : (computeImplicitCoin params parts rewardAccounts dRepKeyHash).deposit =
        some (ledgerDeposits params ledger parts accounts dRepKeyHash) := by
      rw [hdeposit, Option.some_inj, ledgerDeposits, ← hcertificates]
      omega
    have hi : (computeImplicitCoin params parts rewardAccounts dRepKeyHash).input =
        some (ledgerWithdrawals parts accounts +
          ledgerRefunds params ledger parts accounts dRepKeyHash) := by
      rw [hinput, Option.some_inj, ledgerRefunds, ← hcertificates]
      omega
    refine ⟨hd, hi, ?_⟩
    intro hall hany inputs outputs fee hbalance
    rw [hd, hi, haccounts, hall, hany, Option.getD_some, Option.getD_some] at hbalance
    unfold ConsumedIsProduced
    omega

/-- An account, a ledger that knows one pool, and what three bodies contain. -/
def sampleAccount : RewardAccount := ⟨0, ⟨.keyHash, [1]⟩⟩

def sampleLedger : DepositLedger where
  registeredPools := [[7]]
  keyDeposit := fun _ => 2

def sampleDepositParams : DepositProtocolParams where
  stakeKeyDeposit := 2
  poolDeposit := some 500

def registeringParts : ImplicitCoinParts where
  certificates := some [.stakeRegistration ⟨.keyHash, [1]⟩,
    .poolRegistration { id := [8], owners := [sampleAccount] }]
  proposalProcedures := some [{ deposit := 100, rewardAccount := sampleAccount }]

def retiringParts : ImplicitCoinParts where
  certificates := some [.poolRetirement [7]]

def foreignProposalParts : ImplicitCoinParts where
  proposalProcedures := some [{ deposit := 100, rewardAccount := ⟨0, ⟨.keyHash, [9]⟩⟩ }]

theorem computeImplicitCoin_agrees_registering :
    NewPools sampleDepositParams sampleLedger (registeringParts.certificates.getD []) ∧
      AgreesWithLedger sampleDepositParams sampleLedger registeringParts (some [sampleAccount])
        (some [3]) := by
  have hnew : NewPools sampleDepositParams sampleLedger
      (registeringParts.certificates.getD []) := by
    simp [NewPools, registeringParts, DepositLedger.apply, DepositLedger.recordKey, sampleLedger]
  exact ⟨hnew, (computeImplicitCoin_agrees_iff sampleDepositParams sampleLedger registeringParts
    (some [sampleAccount]) (some [3]) hnew).mpr (by decide)⟩

/-- The deposit of a retired pool is counted as coin that the transaction takes in,
and the proposal of another account as a deposit of one's own. -/
theorem computeImplicitCoin_counts_retirement :
    (NewPools sampleDepositParams sampleLedger (retiringParts.certificates.getD []) ∧
      ¬ AgreesWithLedger sampleDepositParams sampleLedger retiringParts none none) ∧
      ¬ AgreesWithLedger sampleDepositParams sampleLedger foreignProposalParts
        (some [sampleAccount]) (some [3]) := by
  refine ⟨⟨?_, ?_⟩, ?_⟩
  · simp [NewPools, retiringParts]
  · intro h
    have hinput := h.input
    revert hinput
    decide
  · intro h
    have hdeposit := h.deposit
    revert hdeposit
    decide

end CardanoSdk.TxConstruction
