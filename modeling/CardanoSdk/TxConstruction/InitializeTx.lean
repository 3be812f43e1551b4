import CardanoSdk.TxConstruction.DelegatePortfolio
import CardanoSdk.TxConstruction.ImplicitCoin
import CardanoSdk.InputSelection.LargeFirst
import CardanoSdk.InputSelection.Greedy
import CardanoSdk.Serialization.AuxiliaryData

/-!
`initializeTx`. What the function is handed by its caller or by other packages is a field
of `TxBuilderDependencies`. Datums and the data of redeemers are their encodings.
-/

namespace CardanoSdk.TxConstruction

open Lib InputSelection
open Cardano (AuxiliaryData)

structure Witness where
  redeemers : Option (List Redeemer) := none
  datums : Option (List (List UInt8)) := none

structure Tx where
  body : TxBody
  witness : Witness

/-- The body without `inputs` and `fee`. -/
structure TxBodyPreInputSelection where
  outputs : List TxOut := []
  mint : Option TokenMap := none
  withdrawals : Option (List Withdrawal) := none
  votingProcedures : Option (List Voter) := none
  scriptIntegrityHash : Option Hash := none
  certificates : Option (List Certificate) := none
  proposalProcedures : Option (List ProposalProcedure) := none
  referenceInputs : Option (List TxIn) := none
  collaterals : Option (List TxIn) := none
  collateralReturn : Option TxOut := none
  requiredExtraSignatures : Option (List Hash) := none
  auxiliaryDataHash : Option Hash := none
  validityInterval : Option ValidityInterval := none

abbrev TxEvaluator := Tx → List Utxo → Except SelectionError (List TxEvaluation)

inductive InputSelector where
  | roundRobin (changeAddressResolver : ChangeAddressResolver) (random : ℕ → ℚ)
  | largeFirst (changeAddressResolver : ChangeAddressResolver)
  | greedy (arith : ShareArithmetic) (changeAddresses : JsMap PaymentAddress ℚ)

def InputSelector.select :
    InputSelector → InputSelectionParameters → Except SelectionError SelectionResult
  | .roundRobin changeAddressResolver random =>
    roundRobinRandomImprove changeAddressResolver random
  | .largeFirst changeAddressResolver => largeFirstSelect changeAddressResolver
  | .greedy arith changeAddresses => greedySelect arith changeAddresses

structure TxBuilderDependencies where
  /-- `String.prototype.localeCompare` in the default locale of the host. -/
  localeCompare : String → String → ℤ
  inputSelector : Option InputSelector
  staticChangeAddressResolver : ChangeAddressResolver
  random : ℕ → ℚ
  utxoAvailable : List Utxo
  rewardAccounts : List RewardAccountWithPoolId
  protocolVersionMajor : ℕ
  depositParams : DepositProtocolParams
  tipSlot : ℕ
  slotLength : ℕ
  maxTxSize : ℕ
  maxExecutionUnitsPerTransaction : ExUnits
  /-- `witnesser.witness` of a body and the witness set it is given. -/
  witness : TxBody → Witness → Except SelectionError Tx
  minFee : Tx → List Utxo → ℤ
  txSize : Tx → ℕ
  tokenBundleSizeExceedsLimit : TokenMap → Bool
  computeMinimumCoinQuantity : TxOut → ℤ
  computeAuxiliaryDataHash : AuxiliaryData → Hash
  /-- `computeScriptDataHash` with the default cost models of the versions. -/
  computeScriptDataHash : List PlutusLanguageVersion → Option (List Redeemer) →
    Option (List (List UInt8)) → Option Hash

structure InitializeTxProps where
  inputs : Option (JsSet Utxo) := none
  outputs : Option (List TxOut) := none
  mint : Option TokenMap := none
  certificates : Option (List Certificate) := none
  proposalProcedures : Option (List ProposalProcedure) := none
  referenceInputs : Option (JsSet TxIn) := none
  collaterals : Option (JsSet TxIn) := none
  collateralReturn : Option TxOut := none
  requiredExtraSignatures : Option (List Hash) := none
  auxiliaryData : Option AuxiliaryData := none
  /-- `options.validityInterval` -/
  validityInterval : Option ValidityInterval := none
  scriptIntegrityHash : Option Hash := none
  witness : Option Witness := none
  customizeCb : Option (TxBodyPreInputSelection → TxBodyPreInputSelection) := none
  txEvaluator : Option TxEvaluator := none
  redeemersByType : Option RedeemersByType := none
  scriptVersions : Option (List PlutusLanguageVersion) := none

structure InitializeTxResult where
  body : TxBody
  inputSelection : SelectionSkeleton
  redeemers : Option (List Redeemer)

def drepRegRequiredProtocolVersion : ℕ := 10

def getWithdrawals (accounts : List RewardAccountWithPoolId) (versionMajor : ℕ) :
    List Withdrawal :=
  (accounts.filter (fun account =>
    (if versionMajor ≥ drepRegRequiredProtocolVersion then hasCorrectVoteDelegation account
      else true) && account.rewardBalance ≠ 0)).map
    (fun account => { quantity := account.rewardBalance, stakeAddress := account.address })

/-- Two hours in seconds times the length of a slot, after the slot. -/
def calcTimeOffsetSlotNumber (startSlot slotLength : ℕ) : ℕ := startSlot + 2 * 3600 * slotLength

/-- A given bound takes precedence over the calculated one. -/
def ensureValidityInterval (currentSlot slotLength : ℕ)
    (validityInterval : Option ValidityInterval) : ValidityInterval :=
  let given := validityInterval.getD {}
  { given with
    invalidHereafter :=
      given.invalidHereafter.or (some (calcTimeOffsetSlotNumber currentSlot slotLength)) }

/-- What is known before the selection; proposal procedures are not among it. -/
structure CreateTxInternalsProps where
  outputs : List TxOut
  withdrawals : List Withdrawal
  validityInterval : ValidityInterval
  mint : Option TokenMap := none
  scriptIntegrityHash : Option Hash := none
  certificates : Option (List Certificate) := none
  referenceInputs : Option (JsSet TxIn) := none
  collaterals : Option (JsSet TxIn) := none
  collateralReturn : Option TxOut := none
  requiredExtraSignatures : Option (List Hash) := none
  auxiliaryData : Option AuxiliaryData := none

def createPreInputSelectionTxBody (computeAuxiliaryDataHash : AuxiliaryData → Hash)
    (props : CreateTxInternalsProps) : TxBodyPreInputSelection where
  auxiliaryDataHash := props.auxiliaryData.map computeAuxiliaryDataHash
  certificates := props.certificates
  mint := props.mint
  outputs := props.outputs
  referenceInputs := props.referenceInputs.map JsSet.toList
  requiredExtraSignatures := props.requiredExtraSignatures
  scriptIntegrityHash := props.scriptIntegrityHash
  validityInterval := some props.validityInterval
  withdrawals := if props.withdrawals.length = 0 then none else some props.withdrawals
  collaterals := (props.collaterals.filter fun collaterals => collaterals.size ≠ 0).map JsSet.toList
  collateralReturn := props.collateralReturn

/-- `GreedyTxEvaluator.evaluate`: the whole budget for every redeemer. -/
def greedyTxEvaluator (maxExecutionUnitsPerTransaction : ExUnits) : TxEvaluator := fun tx _ =>
  .ok ((tx.witness.redeemers.getD []).map (fun redeemer =>
    { budget := maxExecutionUnitsPerTransaction
      index := redeemer.index
      purpose := redeemer.purpose }))

def includeChangeAndInputs (deps : TxBuilderDependencies)
    (bodyPreInputSelection : TxBodyPreInputSelection) (inputSelection : SelectionSkeleton)
    (scriptVersions : Option (List PlutusLanguageVersion)) (witness : Option Witness) : TxBody :=
  let body : TxBody := {
    mint := bodyPreInputSelection.mint
    withdrawals := bodyPreInputSelection.withdrawals
    votingProcedures := bodyPreInputSelection.votingProcedures
    scriptIntegrityHash := bodyPreInputSelection.scriptIntegrityHash
    certificates := bodyPreInputSelection.certificates
    proposalProcedures := bodyPreInputSelection.proposalProcedures
    referenceInputs := bodyPreInputSelection.referenceInputs
    collaterals := bodyPreInputSelection.collaterals
    collateralReturn := bodyPreInputSelection.collateralReturn
    requiredExtraSignatures := bodyPreInputSelection.requiredExtraSignatures
    auxiliaryDataHash := bodyPreInputSelection.auxiliaryDataHash
    validityInterval := bodyPreInputSelection.validityInterval
    fee := inputSelection.fee
    inputs := inputSelection.inputs.toList.map Utxo.txIn
    outputs := inputSelection.outputs ++ inputSelection.change }
  match scriptVersions, witness with
  | some versions, some witness =>
    { body with
      scriptIntegrityHash := deps.computeScriptDataHash versions witness.redeemers witness.datums }
  | _, _ => body

/-- Redeemers are indexed anew only where the built transaction already has some. -/
def computeMinimumCost (localeCompare : String → String → ℤ) (minFee : Tx → List Utxo → ℤ)
    (buildTx : SelectionSkeleton → Except SelectionError Tx) (txEvaluator : TxEvaluator)
    (redeemersByType : RedeemersByType) (selection : SelectionSkeleton) :
    Except SelectionError TxCosts := do
  let tx ← buildTx selection
  let utxos := selection.inputs.toList
  let txIns := sortBy (sortTxIn localeCompare) (utxos.map Utxo.txIn)
  match tx.witness.redeemers with
  | some (first :: _) =>
    match assignCanonicalIndices redeemersByType tx.body txIns ⟨first.memory, first.steps⟩ with
    | .error _ => .error .callbackRejected
    | .ok indexed => do
        let evaluation ← txEvaluator
          { tx with witness := { tx.witness with redeemers := some indexed } } utxos
        let redeemers := mergeExecutionUnits indexed evaluation
        let tx := { tx with witness := { tx.witness with redeemers := some redeemers } }
        return { fee := minFee tx utxos, redeemers := tx.witness.redeemers }
  | _ => return { fee := minFee tx utxos, redeemers := tx.witness.redeemers }

def computeSelectionLimit (txSize : Tx → ℕ) (maxTxSize : ℕ)
    (buildTx : SelectionSkeleton → Except SelectionError Tx)
    (selectionSkeleton : SelectionSkeleton) : Except SelectionError ℕ := do
  let tx ← buildTx selectionSkeleton
  if txSize tx ≤ maxTxSize then return selectionSkeleton.inputs.size
  else return selectionSkeleton.inputs.size - 1

section InitializeTx

variable (deps : TxBuilderDependencies) (props : InitializeTxProps)

def bodyPreInputSelection : TxBodyPreInputSelection :=
  let txBody := createPreInputSelectionTxBody deps.computeAuxiliaryDataHash
    { auxiliaryData := props.auxiliaryData
      certificates := props.certificates
      collateralReturn := props.collateralReturn
      collaterals := props.collaterals
      mint := props.mint
      outputs := props.outputs.getD []
      referenceInputs := props.referenceInputs
      requiredExtraSignatures := props.requiredExtraSignatures
      scriptIntegrityHash := props.scriptIntegrityHash
      validityInterval :=
        ensureValidityInterval deps.tipSlot deps.slotLength props.validityInterval
      withdrawals := getWithdrawals deps.rewardAccounts deps.protocolVersionMajor }
  match props.customizeCb with
  | some customizeCb => customizeCb txBody
  | none => txBody

/-- The selection of inputs is estimated on transactions with stub signatures. -/
def buildTx (inputSelection : SelectionSkeleton) : Except SelectionError Tx :=
  let unwitnessedTx := includeChangeAndInputs deps (bodyPreInputSelection deps props)
    inputSelection props.scriptVersions props.witness
  deps.witness unwitnessedTx (props.witness.getD {})

def defaultSelectionConstraints : SelectionConstraints where
  computeMinimumCost := computeMinimumCost deps.localeCompare deps.minFee (buildTx deps props)
    (props.txEvaluator.getD (greedyTxEvaluator deps.maxExecutionUnitsPerTransaction))
    (props.redeemersByType.getD {})
  tokenBundleSizeExceedsLimit := deps.tokenBundleSizeExceedsLimit
  computeMinimumCoinQuantity := deps.computeMinimumCoinQuantity
  computeSelectionLimit := computeSelectionLimit deps.txSize deps.maxTxSize (buildTx deps props)

def TxBuilderDependencies.selector : InputSelector :=
  deps.inputSelector.getD (.roundRobin deps.staticChangeAddressResolver deps.random)

def implicitCoin : ImplicitCoin :=
  computeImplicitCoin deps.depositParams
    { certificates := (bodyPreInputSelection deps props).certificates
      proposalProcedures := (bodyPreInputSelection deps props).proposalProcedures
      withdrawals := (bodyPreInputSelection deps props).withdrawals }
    none none

def selectionParameters : InputSelectionParameters where
  constraints := defaultSelectionConstraints deps props
  implicitValue :=
    { coin := some (implicitCoin deps props)
      mint := (bodyPreInputSelection deps props).mint }
  outputs := (bodyPreInputSelection deps props).outputs
  preSelectedUtxo := props.inputs.getD (JsSet.ofList [])
  utxo := JsSet.ofList deps.utxoAvailable

/-- `initializeTx` with the selector that it calls. -/
def initializeTxWith
    (select : InputSelectionParameters → Except SelectionError SelectionResult) :
    Except SelectionError InitializeTxResult := do
  let selected ← select (selectionParameters deps props)
  let witness : Witness := { props.witness.getD {} with redeemers := selected.redeemers }
  return {
    body := includeChangeAndInputs deps (bodyPreInputSelection deps props) selected.selection
      props.scriptVersions (some witness)
    inputSelection := selected.selection
    redeemers := selected.redeemers }

def initializeTx : Except SelectionError InitializeTxResult :=
  initializeTxWith deps props deps.selector.select

end InitializeTx

end CardanoSdk.TxConstruction
