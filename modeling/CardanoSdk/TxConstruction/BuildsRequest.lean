import CardanoSdk.InputSelection.SelectionBalance
import CardanoSdk.TxConstruction.InitializeTx
import CardanoSdk.TxConstruction.LedgerDeposits

/-!
`initializeTx` builds what it was asked to build, with any selector that keeps the
requested outputs and the pre-selected inputs and conserves value, but for proposal
procedures and the balance of what the implicit coin counts beside the ledger.
-/

namespace CardanoSdk.TxConstruction

open Lib InputSelection

def TxBody.implicitCoinParts (body : TxBody) : ImplicitCoinParts where
  certificates := body.certificates
  proposalProcedures := body.proposalProcedures
  withdrawals := body.withdrawals

/-- What the certificates reclaim too much for retirements is what they claim too
little: refunds recorded beyond the current parameter, and no charge for updated pools. -/
def ImplicitCoinSettles (params : DepositProtocolParams) (ledger : DepositLedger)
    (certificates : List Certificate) : Prop :=
  retirementReclaims params [] certificates =
    ledgerSum params (unreclaimedRefund params []) ledger certificates +
      ledgerSum params (updatedPoolCharge params [] none) ledger certificates

theorem unrecognizedCharges_nil (params : DepositProtocolParams) (ledger : DepositLedger)
    (certificates : List Certificate) :
    ledgerSum params (unrecognizedCharge params []) ledger certificates = 0 := by
  have hnone : ∀ certificate, unrecognized [] certificate = false := by
    intro certificate
    unfold unrecognized
    split
    · rename_i stakeCredential _
      have hrecognized : stakeCredentialInRewardAccounts stakeCredential [] = true := rfl
      rw [hrecognized, Bool.not_true, Bool.and_false]
    · rfl
  induction certificates generalizing ledger with
  | nil => rfl
  | cons certificate rest ih =>
    rw [ledgerSum, ih, unrecognizedCharge, hnone, if_neg (by decide), add_zero]

theorem foreignProposalDeposits_nil (proposalProcedures : List ProposalProcedure) :
    foreignProposalDeposits [] proposalProcedures = 0 := by
  have hown : proposalProcedures.filter (fun proposal => !ownsProposal [] proposal) = [] :=
    List.filter_eq_nil_iff.mpr fun proposal _ => by simp [ownsProposal]
  rw [foreignProposalDeposits, hown]
  rfl

/-- A body that is balanced with the implicit coin is balanced for the ledger
exactly if that coin settles. -/
theorem consumedIsProduced_iff (params : DepositProtocolParams) (ledger : DepositLedger)
    (parts : ImplicitCoinParts) {inputs outputs fee : ℤ}
    (hbalance : inputs + (computeImplicitCoin params parts none none).input.getD 0 =
      outputs + fee + (computeImplicitCoin params parts none none).deposit.getD 0) :
    ConsumedIsProduced params ledger parts inputs outputs fee ↔
      ImplicitCoinSettles params ledger (parts.certificates.getD []) := by
  have hcharged := deposits_add_unrecognized params [] none ledger (parts.certificates.getD [])
  have hrefunded := reclaims_add_unreclaimed params [] none ledger (parts.certificates.getD [])
  have hproposals := sum_ownProposals [] (parts.proposalProcedures.getD [])
  rw [unrecognizedCharges_nil] at hcharged
  rw [foreignProposalDeposits_nil] at hproposals
  rw [computeImplicitCoin_eq] at hbalance
  simp only [Option.getD_some, Option.getD_none] at hbalance
  unfold ConsumedIsProduced ledgerRefunds ledgerDeposits ImplicitCoinSettles
  constructor
  · intro hledger
    omega
  · intro hsettles
    omega

/-- What a selector promises: the requested outputs, the pre-selected inputs and
conservation of the value with the implicit one. -/
structure SelectsConserving (params : InputSelectionParameters) (result : SelectionResult) :
    Prop where
  outputs : result.selection.outputs = params.outputs
  preSelected : ∀ utxo ∈ params.preSelectedUtxo.toList, utxo ∈ result.selection.inputs.toList
  conserves : ConservesValue params.implicitValue result.selection

/-- From version 10 on, rewards are withdrawn with a vote delegation that is not to an
inactive representative. -/
def MayWithdraw (versionMajor : ℕ) (account : RewardAccountWithPoolId) : Prop :=
  versionMajor < 10 ∨
    ∃ representative, account.dRepDelegatee = some representative ∧
      representative ≠ .drepInfo false

def mintedQuantity (body : TxBody) (id : AssetId) : ℤ :=
  (body.mint.getD JsMap.empty).quantity id

/-- Inputs, withdrawals, the ledger's refunds and mint pay for outputs, fee and the
ledger's deposits. -/
structure Balanced (params : DepositProtocolParams) (ledger : DepositLedger)
    (selected : List Utxo) (body : TxBody) : Prop where
  inputs : body.inputs = selected.map Utxo.txIn
  coins : ConsumedIsProduced params ledger body.implicitCoinParts
    (getCoinQuantity (toValues selected)) (getCoinQuantity (outputsToValues body.outputs)) body.fee
  assets : ∀ id, assetQuantitySelector id (toValues selected) + mintedQuantity body id =
    assetQuantitySelector id (outputsToValues body.outputs)

/-- The body has what the properties ask for. An empty list stands for an absent one. -/
structure BuildsRequest (deps : TxBuilderDependencies) (ledger : DepositLedger)
    (props : InitializeTxProps) (result : InitializeTxResult) : Prop where
  outputs : result.body.outputs = props.outputs.getD [] ++ result.inputSelection.change
  inputs : ∀ utxo ∈ (props.inputs.getD (JsSet.ofList [])).toList, utxo.txIn ∈ result.body.inputs
  certificates : result.body.certificates = props.certificates
  mint : result.body.mint = props.mint
  proposalProcedures :
    result.body.proposalProcedures.getD [] = props.proposalProcedures.getD []
  referenceInputs : result.body.referenceInputs = props.referenceInputs.map JsSet.toList
  collaterals : result.body.collaterals.getD [] = (props.collaterals.map JsSet.toList).getD []
  collateralReturn : result.body.collateralReturn = props.collateralReturn
  requiredExtraSignatures : result.body.requiredExtraSignatures = props.requiredExtraSignatures
  auxiliaryDataHash :
    result.body.auxiliaryDataHash = props.auxiliaryData.map deps.computeAuxiliaryDataHash
  withdrawals : ∀ withdrawal, withdrawal ∈ result.body.withdrawals.getD [] ↔
    ∃ account ∈ deps.rewardAccounts, account.rewardBalance ≠ 0 ∧
      MayWithdraw deps.protocolVersionMajor account ∧
      withdrawal = ⟨account.address, account.rewardBalance⟩
  withdrawnOnce : (deps.rewardAccounts.map RewardAccountWithPoolId.address).Nodup →
    ((result.body.withdrawals.getD []).map Withdrawal.stakeAddress).Nodup
  balance : Balanced deps.depositParams ledger result.inputSelection.inputs.toList result.body

theorem hasCorrectVoteDelegation_iff {account : RewardAccountWithPoolId} :
    hasCorrectVoteDelegation account = true ↔
      ∃ representative, account.dRepDelegatee = some representative ∧
        representative ≠ .drepInfo false := by
  unfold hasCorrectVoteDelegation
  cases account.dRepDelegatee with
  | none => simp
  | some representative =>
    cases representative with
    | drepInfo active => cases active <;> simp
    | _ => simp

variable {accounts : List RewardAccountWithPoolId}

theorem mem_getWithdrawals {versionMajor : ℕ} {withdrawal : Withdrawal} :
    withdrawal ∈ getWithdrawals accounts versionMajor ↔
      ∃ account ∈ accounts, account.rewardBalance ≠ 0 ∧ MayWithdraw versionMajor account ∧
        withdrawal = ⟨account.address, account.rewardBalance⟩ := by
  have hmay : ∀ account : RewardAccountWithPoolId,
      (if versionMajor ≥ drepRegRequiredProtocolVersion then hasCorrectVoteDelegation account
        else true) = true ↔ MayWithdraw versionMajor account := by
    intro account
    unfold MayWithdraw
    by_cases hversion : versionMajor ≥ drepRegRequiredProtocolVersion
    · rw [if_pos hversion, hasCorrectVoteDelegation_iff]
      have hlt : ¬ versionMajor < 10 := Nat.not_lt.mpr hversion
      simp only [hlt, false_or]
    · rw [if_neg hversion]
      have hlt : versionMajor < 10 := Nat.lt_of_not_le hversion
      simp only [hlt, true_or]
  rw [getWithdrawals, List.mem_map]
  simp only [List.mem_filter, Bool.and_eq_true, hmay, decide_eq_true_eq]
  constructor
  · rintro ⟨account, ⟨hmem, hwithdraw, hbalance⟩, rfl⟩
    exact ⟨account, hmem, hbalance, hwithdraw, rfl⟩
  · rintro ⟨account, hmem, hbalance, hwithdraw, rfl⟩
    exact ⟨account, ⟨hmem, hwithdraw, hbalance⟩, rfl⟩

theorem nodup_getWithdrawals (versionMajor : ℕ)
    (hnodup : (accounts.map RewardAccountWithPoolId.address).Nodup) :
    ((getWithdrawals accounts versionMajor).map Withdrawal.stakeAddress).Nodup := by
  rw [getWithdrawals, List.map_map]
  exact hnodup.sublist (List.filter_sublist.map _)

section Body

variable {deps : TxBuilderDependencies} {props : InitializeTxProps}

theorem withdrawals_bodyPreInputSelection (hcustomize : props.customizeCb = none) :
    (bodyPreInputSelection deps props).withdrawals.getD [] =
      getWithdrawals deps.rewardAccounts deps.protocolVersionMajor := by
  simp only [bodyPreInputSelection, hcustomize, createPreInputSelectionTxBody]
  split
  · rename_i hnone
    exact (List.eq_nil_of_length_eq_zero hnone).symm
  · rfl

theorem collaterals_bodyPreInputSelection (hcustomize : props.customizeCb = none) :
    (bodyPreInputSelection deps props).collaterals.getD [] =
      (props.collaterals.map JsSet.toList).getD [] := by
  simp only [bodyPreInputSelection, hcustomize, createPreInputSelectionTxBody]
  cases props.collaterals with
  | none => rfl
  | some collaterals =>
    by_cases hsize : collaterals.size = 0
    · have hempty : collaterals.toList = [] := List.eq_nil_of_length_eq_zero hsize
      have hdrop : decide (collaterals.size ≠ 0) = false := decide_eq_false (not_not.mpr hsize)
      rw [Option.filter_some, hdrop]
      exact hempty.symm
    · rw [Option.filter_some, if_pos (decide_eq_true hsize)]

theorem mintedQuantity_balance (implicitValue : ImplicitValue) (id : AssetId) :
    implicitValue.minted id = implicitValue.burned id + implicitValue.mintMap.quantity id := by
  unfold ImplicitValue.minted ImplicitValue.burned
  omega

/-- A body whose parts are those known before the selection, with the implicit coin
that the selector was told of. -/
theorem balanced_iff_of_conserves (params : InputSelectionParameters)
    (depositParams : DepositProtocolParams) (ledger : DepositLedger) (body : TxBody)
    {selected : SelectionResult} (hselected : SelectsConserving params selected)
    (hinputs : body.inputs = selected.selection.inputs.toList.map Utxo.txIn)
    (houtputs : body.outputs = selected.selection.outputs ++ selected.selection.change)
    (hfee : body.fee = selected.selection.fee)
    (hmint : body.mint = params.implicitValue.mint)
    (hcoin : params.implicitValue.coin =
      some (computeImplicitCoin depositParams body.implicitCoinParts none none)) :
    Balanced depositParams ledger selected.selection.inputs.toList body ↔
      ImplicitCoinSettles depositParams ledger (body.certificates.getD []) := by
  have hbalance : getCoinQuantity (toValues selected.selection.inputs.toList) +
      (computeImplicitCoin depositParams body.implicitCoinParts none none).input.getD 0 =
      getCoinQuantity (outputsToValues body.outputs) + body.fee +
        (computeImplicitCoin depositParams body.implicitCoinParts none none).deposit.getD 0 := by
    have hcoins := hselected.conserves.coins
    simp only [ImplicitValue.requiredCoin, hcoin, Option.getD_some] at hcoins
    rw [houtputs, hfee, outputsToValues, List.map_append, getCoinQuantity, getCoinQuantity,
      List.map_append, List.sum_append]
    simp only [getCoinQuantity, outputsToValues] at hcoins
    omega
  have hassets : ∀ id, assetQuantitySelector id (toValues selected.selection.inputs.toList) +
      mintedQuantity body id = assetQuantitySelector id (outputsToValues body.outputs) := by
    intro id
    have hassets := hselected.conserves.assets id
    rw [mintedQuantity_balance] at hassets
    have hquantity : mintedQuantity body id = params.implicitValue.mintMap.quantity id := by
      rw [mintedQuantity, hmint, ImplicitValue.mintMap]
    rw [houtputs, hquantity, outputsToValues, List.map_append, assetQuantitySelector,
      assetQuantitySelector, List.map_append, List.sum_append]
    simp only [assetQuantitySelector, outputsToValues] at hassets
    omega
  have hsettles := consumedIsProduced_iff depositParams ledger body.implicitCoinParts hbalance
  constructor
  · exact fun hbalanced => hsettles.mp hbalanced.coins
  · exact fun h => { inputs := hinputs, coins := hsettles.mpr h, assets := hassets }

end Body

theorem includeChangeAndInputs_eq (deps : TxBuilderDependencies) (pre : TxBodyPreInputSelection)
    (selection : SelectionSkeleton) (versions : Option (List PlutusLanguageVersion))
    (witness : Option Witness) :
    ∃ scriptIntegrityHash, includeChangeAndInputs deps pre selection versions witness =
      { inputs := selection.inputs.toList.map Utxo.txIn
        outputs := selection.outputs ++ selection.change
        fee := selection.fee
        mint := pre.mint
        withdrawals := pre.withdrawals
        votingProcedures := pre.votingProcedures
        scriptIntegrityHash := scriptIntegrityHash
        certificates := pre.certificates
        proposalProcedures := pre.proposalProcedures
        referenceInputs := pre.referenceInputs
        collaterals := pre.collaterals
        collateralReturn := pre.collateralReturn
        requiredExtraSignatures := pre.requiredExtraSignatures
        auxiliaryDataHash := pre.auxiliaryDataHash
        validityInterval := pre.validityInterval } := by
  unfold includeChangeAndInputs
  dsimp only
  split
  · exact ⟨_, rfl⟩
  · exact ⟨_, rfl⟩

/-- What was asked is built exactly when no proposal procedures were asked for and
the implicit coin of the certificates settles with the ledger. -/
theorem initializeTx_builds_request (deps : TxBuilderDependencies) (ledger : DepositLedger)
    (props : InitializeTxProps)
    (select : InputSelectionParameters → Except SelectionError SelectionResult)
    (result : InitializeTxResult) (hcustomize : props.customizeCb = none)
    (hselect : ∀ selected, select (selectionParameters deps props) = .ok selected →
      SelectsConserving (selectionParameters deps props) selected)
    (hok : initializeTxWith deps props select = .ok result) :
    BuildsRequest deps ledger props result ↔ props.proposalProcedures.getD [] = [] ∧
      ImplicitCoinSettles deps.depositParams ledger (props.certificates.getD []) := by
  unfold initializeTxWith at hok
  obtain ⟨selected, hselected, hok⟩ := bind_ok hok
  cases hok
  have hkept := hselect selected hselected
  have hwithdrawals := @withdrawals_bodyPreInputSelection deps props hcustomize
  have hcollaterals := @collaterals_bodyPreInputSelection deps props hcustomize
  have hcertificates : (bodyPreInputSelection deps props).certificates = props.certificates := by
    rw [bodyPreInputSelection, hcustomize]
    rfl
  have hproposals : (bodyPreInputSelection deps props).proposalProcedures = none := by
    rw [bodyPreInputSelection, hcustomize]
    rfl
  obtain ⟨scriptIntegrityHash, hbody⟩ := includeChangeAndInputs_eq deps
    (bodyPreInputSelection deps props) selected.selection props.scriptVersions
    (some { props.witness.getD {} with redeemers := selected.redeemers })
  have hbalanced := balanced_iff_of_conserves (selectionParameters deps props) deps.depositParams
    ledger (includeChangeAndInputs deps (bodyPreInputSelection deps props) selected.selection
      props.scriptVersions (some { props.witness.getD {} with redeemers := selected.redeemers }))
    hkept (by rw [hbody]) (by rw [hbody]) (by rw [hbody]) (by rw [hbody]; rfl) (by rw [hbody]; rfl)
  simp only [hbody, hcertificates] at hbalanced
  constructor
  · intro hbuilds
    have hlost := hbuilds.proposalProcedures
    have hbalance := hbuilds.balance
    simp only [hbody, hproposals] at hlost
    simp only [hbody, hcertificates] at hbalance
    exact ⟨hlost.symm, hbalanced.mp hbalance⟩
  · rintro ⟨hnone, hsettles⟩
    have hbalance := hbalanced.mpr hsettles
    simp only [hbody, hcertificates]
    exact {
      outputs := by
        rw [hkept.outputs, selectionParameters, bodyPreInputSelection, hcustomize]
        rfl
      inputs := fun utxo hmem => List.mem_map_of_mem (hkept.preSelected utxo hmem)
      certificates := rfl
      mint := by
        rw [bodyPreInputSelection, hcustomize]
        rfl
      proposalProcedures := by
        rw [hnone, hproposals]
        rfl
      referenceInputs := by
        rw [bodyPreInputSelection, hcustomize]
        rfl
      collaterals := hcollaterals
      collateralReturn := by
        rw [bodyPreInputSelection, hcustomize]
        rfl
      requiredExtraSignatures := by
        rw [bodyPreInputSelection, hcustomize]
        rfl
      auxiliaryDataHash := by
        rw [bodyPreInputSelection, hcustomize]
        rfl
      withdrawals := by
        intro withdrawal
        rw [hwithdrawals, mem_getWithdrawals]
      withdrawnOnce := by
        intro hnodup
        rw [hwithdrawals]
        exact nodup_getWithdrawals deps.protocolVersionMajor hnodup
      balance := hbalance }

def paymentProps (certificates : List Certificate) (proposals : List ProposalProcedure) :
    InitializeTxProps where
  outputs := some [{ address := "b", value := { coins := 100 } }]
  certificates := some certificates
  proposalProcedures := some proposals

def registrations : List Certificate :=
  [.stakeRegistration ⟨.keyHash, [1]⟩, .poolRegistration { id := [8], owners := [sampleAccount] }]

def proposal : ProposalProcedure := ⟨500, ⟨1, ⟨.keyHash, List.replicate 28 2⟩⟩⟩

def oneEntry : Utxo :=
  ⟨1, ⟨1, List.replicate 32 1, 0⟩, { address := "a", value := { coins := 1000 } }⟩

def oneEntryBuilder : TxBuilderDependencies where
  localeCompare := compareHex
  inputSelector := none
  staticChangeAddressResolver := fun selection => .ok selection.change
  random := fun _ => 0
  utxoAvailable := [oneEntry]
  rewardAccounts := []
  protocolVersionMajor := 10
  depositParams := sampleDepositParams
  tipSlot := 0
  slotLength := 1
  maxTxSize := 16384
  maxExecutionUnitsPerTransaction := ⟨100, 200⟩
  witness := fun body witness => .ok ⟨body, witness⟩
  minFee := fun _ _ => 10
  txSize := fun _ => 300
  tokenBundleSizeExceedsLimit := fun _ => false
  computeMinimumCoinQuantity := fun _ => 1
  computeAuxiliaryDataHash := fun _ => []
  computeScriptDataHash := fun _ _ _ => none

def wholeEntry (change : ℤ) (params : InputSelectionParameters) : SelectionResult where
  selection :=
    { inputs := JsSet.ofList [oneEntry]
      outputs := params.outputs
      change := [{ address := "a", value := { coins := change } }]
      fee := 10 }
  remainingUTxO := JsSet.ofList []

theorem wholeEntry_selectsConserving {change : ℤ} {certificates : List Certificate}
    {proposals : List ProposalProcedure}
    (hchange : 890 + (implicitCoin oneEntryBuilder
        (paymentProps certificates proposals)).input.getD 0 =
      change + (implicitCoin oneEntryBuilder (paymentProps certificates proposals)).deposit.getD 0) :
    SelectsConserving (selectionParameters oneEntryBuilder (paymentProps certificates proposals))
      (wholeEntry change
        (selectionParameters oneEntryBuilder (paymentProps certificates proposals))) where
  outputs := rfl
  preSelected := by
    intro utxo hmem
    cases hmem
  conserves :=
    { coins := by
        change (1000 : ℤ) + _ = 100 + _ + 10 + (change + 0)
        change _ + (implicitCoin _ _).input.getD 0 = _ + (implicitCoin _ _).deposit.getD 0 + _ + _
        omega
      assets := fun id => rfl }

theorem initializeTx_builds_request_sample :
    ∃ result, initializeTxWith oneEntryBuilder (paymentProps registrations [])
        (fun params => .ok (wholeEntry 388 params)) = .ok result ∧
      BuildsRequest oneEntryBuilder sampleLedger (paymentProps registrations []) result := by
  refine ⟨_, rfl, ?_⟩
  apply (initializeTx_builds_request oneEntryBuilder sampleLedger (paymentProps registrations [])
    (fun params => .ok (wholeEntry 388 params)) _ rfl _ rfl).mpr
  · refine ⟨rfl, ?_⟩
    unfold ImplicitCoinSettles
    decide
  · rintro selected ⟨⟩
    exact wholeEntry_selectsConserving (by decide)

/-- The proposal that was asked for is not in the body, and the deposit of a retired
pool does not pay for the change. -/
theorem not_initializeTx_builds_request :
    (SelectsConserving (selectionParameters oneEntryBuilder (paymentProps [] [proposal]))
        (wholeEntry 890 (selectionParameters oneEntryBuilder (paymentProps [] [proposal]))) ∧
      ∃ result, initializeTxWith oneEntryBuilder (paymentProps [] [proposal])
          (fun params => .ok (wholeEntry 890 params)) = .ok result ∧
        ¬ BuildsRequest oneEntryBuilder sampleLedger (paymentProps [] [proposal]) result) ∧
    SelectsConserving (selectionParameters oneEntryBuilder (paymentProps [.poolRetirement [7]] []))
        (wholeEntry 1390
          (selectionParameters oneEntryBuilder (paymentProps [.poolRetirement [7]] []))) ∧
      ∃ result, initializeTxWith oneEntryBuilder (paymentProps [.poolRetirement [7]] [])
          (fun params => .ok (wholeEntry 1390 params)) = .ok result ∧
        ¬ BuildsRequest oneEntryBuilder sampleLedger (paymentProps [.poolRetirement [7]] [])
          result := by
  refine ⟨⟨wholeEntry_selectsConserving (by decide), _, rfl, ?_⟩,
    wholeEntry_selectsConserving (by decide), _, rfl, ?_⟩
  · intro hbuilds
    cases hbuilds.proposalProcedures
  · intro hbuilds
    have hcoins := hbuilds.balance.coins
    revert hcoins
    unfold ConsumedIsProduced
    decide

end CardanoSdk.TxConstruction
