import CardanoSdk.InputSelection.RoundRobinConservation
import CardanoSdk.Projection.Types
import CardanoSdk.TxConstruction.LedgerDeposits

/-!
`core/src/util/transactionSummaryInspector.ts`: what a transaction means for a wallet, and
what its balance leaves unexplained. The infos of the assets are left out.
-/

namespace CardanoSdk.TxConstruction

open Lib InputSelection
open Projection (InputSource)

structure ResolvedInput where
  txIn : TxIn
  address : PaymentAddress
  value : Value
  deriving DecidableEq

structure ResolutionResult where
  resolvedInputs : List ResolvedInput := []
  unresolvedInputs : List TxIn := []

def resolveInputs (txIns : List TxIn) (inputResolver : TxIn → Option TxOut) : ResolutionResult :=
  txIns.foldl (fun result input =>
    match inputResolver input with
    | some resolvedInput => { result with resolvedInputs := result.resolvedInputs ++
        [{ txIn := input, address := resolvedInput.address, value := resolvedInput.value }] }
    | none => { result with unresolvedInputs := result.unresolvedInputs ++ [input] }) {}

/-- The parts of a transaction that are read, in either of its shapes. -/
structure InspectedTx where
  body : TxBody
  isValid : Option Bool := none
  inputSource : Option InputSource := none

def isPhase2Failure (tx : InspectedTx) : Bool :=
  match tx.inputSource with
  | none => tx.isValid = some false
  | some inputSource => inputSource = .collaterals

/-- `isAddressWithin` on what has an address. -/
def isAddressWithin (addresses : List PaymentAddress) (address : PaymentAddress) : Bool :=
  addresses.contains address

def totalAddressInputsValue (ownAddresses : List PaymentAddress)
    (inputResolver : TxIn → Option TxOut) (tx : InspectedTx) : Value :=
  coalesceValueQuantities (((resolveInputs tx.body.inputs inputResolver).resolvedInputs.filter
    (fun input => isAddressWithin ownAddresses input.address)).map ResolvedInput.value)

def totalAddressOutputsValue (ownAddresses : List PaymentAddress) (tx : InspectedTx) : Value :=
  coalesceValueQuantities ((tx.body.outputs.filter
    (fun out => isAddressWithin ownAddresses out.address)).map TxOut.value)

/-- The assets of `mintInspector` with their quantities. -/
def mintInspector (matchQuantityCriteria : ℤ → Bool) (tx : InspectedTx) : List (AssetId × ℤ) :=
  match tx.body.mint with
  | none => []
  | some mint => mint.entries.filter (fun entry => matchQuantityCriteria entry.2)

def assetsMintedInspector : InspectedTx → List (AssetId × ℤ) :=
  mintInspector (fun quantity => quantity > 0)

def assetsBurnedInspector : InspectedTx → List (AssetId × ℤ) :=
  mintInspector (fun quantity => quantity < 0)

def getImplicitAssets (tx : InspectedTx) : Option TokenMap :=
  coalesceTokenMaps [some (JsMap.ofList (assetsMintedInspector tx)),
    some (JsMap.ofList (assetsBurnedInspector tx))]

structure TransactionSummaryInspectorArgs where
  addresses : List PaymentAddress
  rewardAccounts : List RewardAccount
  inputResolver : TxIn → Option TxOut
  protocolParameters : DepositProtocolParams
  dRepKeyHash : Option Hash := none
  /-- The inputs are resolved before `timeout`. -/
  inTime : Bool := true

structure UnresolvedFunds where
  inputs : List TxIn
  value : Value

structure TransactionSummaryInspection where
  /-- The amounts that the asset infos are looked up for. -/
  assets : Option TokenMap
  coins : ℤ
  collateral : ℤ
  deposit : ℤ
  returnedDeposit : ℤ
  fee : ℤ
  unresolved : UnresolvedFunds
  resolvedInputs : List ResolvedInput

def getCollateral (tx : InspectedTx) (inputResolver : TxIn → Option TxOut)
    (addresses : List PaymentAddress) : ℤ :=
  if (tx.body.collaterals.getD []).length = 0 then 0
  else
    let resolvedCollateralInputs :=
      (resolveInputs (tx.body.collaterals.getD []) inputResolver).resolvedInputs.filter
        (fun input => addresses.contains input.address)
    let totalOwnedValueAtRisk :=
      (resolvedCollateralInputs.map (fun input => input.value.coins)).sum
    match tx.body.collateralReturn with
    | none => totalOwnedValueAtRisk
    | some collateralReturn =>
      if !addresses.contains collateralReturn.address then totalOwnedValueAtRisk
      else max (totalOwnedValueAtRisk - collateralReturn.value.coins) 0

/-- The assets and coins of `ownValueDiff`. -/
def ownValueDiff (tx : InspectedTx) (addresses : List PaymentAddress)
    (inputResolver : TxIn → Option TxOut) (withdrawals : ℤ) : Value :=
  let totalOutputValue := totalAddressOutputsValue addresses tx
  let totalInputValue := totalAddressInputsValue addresses inputResolver tx
  { assets := subtractTokenMaps totalOutputValue.assets totalInputValue.assets
    coins := totalOutputValue.coins - (totalInputValue.coins + withdrawals) }

def subtractValueQuantities (lhs rhs : Value) : Value where
  assets := subtractTokenMaps lhs.assets rhs.assets
  coins := lhs.coins - rhs.coins

def getUnaccountedFunds (tx : InspectedTx) (resolvedInputs : ResolutionResult)
    (implicitCoin fee : ℤ) (implicitAssets : Option TokenMap) : Value :=
  if isPhase2Failure tx then { assets := some JsMap.empty, coins := 0 }
  else
    let totalInputs :=
      coalesceValueQuantities (resolvedInputs.resolvedInputs.map ResolvedInput.value)
    let totalOutputs := coalesceValueQuantities (outputsToValues tx.body.outputs)
    subtractValueQuantities { totalOutputs with coins := totalOutputs.coins + fee }
      { assets := coalesceTokenMaps [totalInputs.assets, some (implicitAssets.getD JsMap.empty)]
        coins := totalInputs.coins + implicitCoin }

/-- The implicit coin of the summary: of the body only its certificates and
withdrawals are passed on. -/
def summaryImplicitCoin (args : TransactionSummaryInspectorArgs) (tx : InspectedTx) :
    ImplicitCoin :=
  computeImplicitCoin args.protocolParameters
    { certificates := tx.body.certificates, withdrawals := tx.body.withdrawals }
    (some args.rewardAccounts) args.dRepKeyHash

def transactionSummaryInspector (args : TransactionSummaryInspectorArgs) (tx : InspectedTx) :
    TransactionSummaryInspection :=
  let resolvedInputs :=
    if args.inTime then resolveInputs tx.body.inputs args.inputResolver
    else { unresolvedInputs := tx.body.inputs }
  let fee := tx.body.fee
  let implicit := summaryImplicitCoin args tx
  let collateral := getCollateral tx args.inputResolver args.addresses
  let withdrawals := implicit.withdrawals.getD 0
  let implicitCoin := withdrawals + implicit.reclaimDeposit.getD 0 - implicit.deposit.getD 0
  let implicitAssets := getImplicitAssets tx
  let diff : Value :=
    if isPhase2Failure tx then { coins := -collateral }
    else ownValueDiff tx args.addresses args.inputResolver withdrawals
  { assets := diff.assets
    coins := diff.coins
    collateral := collateral
    deposit := implicit.deposit.getD 0
    fee := fee
    resolvedInputs := resolvedInputs.resolvedInputs
    returnedDeposit := implicit.reclaimDeposit.getD 0
    unresolved :=
      { inputs := resolvedInputs.unresolvedInputs
        value := getUnaccountedFunds tx resolvedInputs implicitCoin fee implicitAssets } }

def summaryParts (tx : InspectedTx) : ImplicitCoinParts where
  certificates := tx.body.certificates
  proposalProcedures := tx.body.proposalProcedures
  withdrawals := tx.body.withdrawals

def spentValues (inputResolver : TxIn → Option TxOut) (tx : InspectedTx) : List Value :=
  (tx.body.inputs.filterMap inputResolver).map TxOut.value

/-- A transaction that the ledger applies and that is the wallet's own in all its
certificates and withdrawals. Burned assets are minted negatively. -/
structure BalancedTx (args : TransactionSummaryInspectorArgs) (ledger : DepositLedger)
    (tx : InspectedTx) : Prop where
  valid : isPhase2Failure tx = false
  inTime : args.inTime = true
  resolved : ∀ input ∈ tx.body.inputs, (args.inputResolver input).isSome
  certificates : ∀ certificate ∈ tx.body.certificates.getD [],
    belongs args.rewardAccounts args.dRepKeyHash certificate = true
  withdrawals : ∀ withdrawal ∈ tx.body.withdrawals.getD [],
    args.rewardAccounts = [] ∨ withdrawal.stakeAddress ∈ args.rewardAccounts
  coins : ConsumedIsProduced args.protocolParameters ledger (summaryParts tx)
    (getCoinQuantity (spentValues args.inputResolver tx))
    (getCoinQuantity (outputsToValues tx.body.outputs)) tx.body.fee
  assets : ∀ id, total (.asset id) (spentValues args.inputResolver tx) +
    assetsQuantity tx.body.mint id = total (.asset id) (outputsToValues tx.body.outputs)

structure NothingUnaccounted (args : TransactionSummaryInspectorArgs) (tx : InspectedTx) :
    Prop where
  unresolvedCoins : (transactionSummaryInspector args tx).unresolved.value.coins = 0
  unresolvedAssets : ∀ id,
    assetsQuantity (transactionSummaryInspector args tx).unresolved.value.assets id = 0
  coins : (transactionSummaryInspector args tx).coins =
    getCoinQuantity (outputsToValues
        (tx.body.outputs.filter (fun out => args.addresses.contains out.address))) -
      getCoinQuantity (outputsToValues ((tx.body.inputs.filterMap args.inputResolver).filter
        (fun out => args.addresses.contains out.address))) -
      ledgerWithdrawals (summaryParts tx) args.rewardAccounts

theorem resolveInputs_values (txIns : List TxIn) (inputResolver : TxIn → Option TxOut) :
    (resolveInputs txIns inputResolver).resolvedInputs.map
        (fun input => (input.address, input.value)) =
      (txIns.filterMap inputResolver).map (fun out => (out.address, out.value)) := by
  have hfold (result : ResolutionResult) :
      (txIns.foldl (fun result input =>
        match inputResolver input with
        | some resolvedInput => { result with resolvedInputs := result.resolvedInputs ++
            [{ txIn := input, address := resolvedInput.address, value := resolvedInput.value }] }
        | none => { result with unresolvedInputs := result.unresolvedInputs ++ [input] })
          result).resolvedInputs.map (fun input => (input.address, input.value)) =
        result.resolvedInputs.map (fun input => (input.address, input.value)) ++
          (txIns.filterMap inputResolver).map (fun out => (out.address, out.value)) := by
    induction txIns generalizing result with
    | nil => simp
    | cons input rest ih =>
      rw [List.foldl_cons, ih, List.filterMap_cons]
      cases inputResolver input with
      | none => rfl
      | some out => simp
  exact hfold {}

theorem resolvedInputs_filter (txIns : List TxIn) (inputResolver : TxIn → Option TxOut)
    (p : PaymentAddress → Bool) :
    ((resolveInputs txIns inputResolver).resolvedInputs.filter
        (fun input => p input.address)).map ResolvedInput.value =
      ((txIns.filterMap inputResolver).filter (fun out => p out.address)).map TxOut.value := by
  have hvalues := congrArg
    (fun paid => (paid.filter (fun entry : PaymentAddress × Value => p entry.1)).map Prod.snd)
    (resolveInputs_values txIns inputResolver)
  simpa only [List.filter_map, List.map_map, Function.comp_def] using hvalues

theorem resolvedInputs_values (txIns : List TxIn) (inputResolver : TxIn → Option TxOut) :
    (resolveInputs txIns inputResolver).resolvedInputs.map ResolvedInput.value =
      (txIns.filterMap inputResolver).map TxOut.value := by
  have hvalues := congrArg (fun paid : List (PaymentAddress × Value) => paid.map Prod.snd)
    (resolveInputs_values txIns inputResolver)
  simpa only [List.map_map, Function.comp_def] using hvalues

theorem ofList_mintInspector (m : TokenMap) (p : ℤ → Bool) :
    JsMap.ofList (m.entries.filter (fun entry => p entry.2)) =
      m.filter (fun _ quantity => p quantity) := by
  apply JsMap.ext
  exact JsMap.entries_ofList_of_nodup (m.filter (fun _ quantity => p quantity)).nodup

theorem assetsQuantity_getImplicitAssets (tx : InspectedTx) (id : AssetId) :
    assetsQuantity (getImplicitAssets tx) id = assetsQuantity tx.body.mint id := by
  unfold getImplicitAssets assetsMintedInspector assetsBurnedInspector mintInspector
  rw [assetsQuantity_coalesceTokenMaps]
  cases tx.body.mint with
  | none => rfl
  | some m =>
    have hminted := ofList_mintInspector m (fun quantity => quantity > 0)
    have hburned := ofList_mintInspector m (fun quantity => quantity < 0)
    simp only [List.map_cons, List.map_nil, List.sum_cons, List.sum_nil, hminted, hburned,
      assetsQuantity, JsMap.quantity_filter, decide_eq_true_eq]
    split <;> split <;> omega

section Balance

variable {args : TransactionSummaryInspectorArgs} {ledger : DepositLedger} {tx : InspectedTx}

theorem ledgerSum_of_belongs {amount : DepositLedger → Certificate → ℤ}
    {params : DepositProtocolParams} {rewardAccounts : List RewardAccount}
    {dRepKeyHash : Option Hash} {certificates : List Certificate}
    (h : ∀ certificate ∈ certificates, belongs rewardAccounts dRepKeyHash certificate = true)
    (ledger : DepositLedger) :
    ledgerSum params (fun state certificate =>
        if belongs rewardAccounts dRepKeyHash certificate then amount state certificate else 0)
      ledger certificates = ledgerSum params amount ledger certificates := by
  induction certificates generalizing ledger with
  | nil => rfl
  | cons certificate rest ih =>
    simp only [List.mem_cons, forall_eq_or_imp] at h
    rw [ledgerSum, ledgerSum, ih h.2, if_pos h.1]

theorem belongs_all (certificate : Certificate) : belongs [] none certificate = true := by
  cases certificate <;> rfl

theorem BalancedTx.withdrawalsTotal (h : BalancedTx args ledger tx) :
    ledgerWithdrawals (summaryParts tx) args.rewardAccounts =
      ledgerWithdrawals (summaryParts tx) [] := by
  unfold ledgerWithdrawals
  rw [if_pos (show ([] : List RewardAccount).isEmpty = true from rfl)]
  split
  · rfl
  · rename_i hsome
    have hall : ∀ withdrawal ∈ tx.body.withdrawals.getD [],
        args.rewardAccounts.contains withdrawal.stakeAddress = true := by
      intro withdrawal hmem
      rcases h.withdrawals withdrawal hmem with hnil | hown
      · rw [hnil] at hsome
        exact absurd rfl hsome
      · exact List.contains_iff_mem.mpr hown
    unfold getOwnWithdrawalsTotal
    rw [summaryParts, List.filter_eq_self.mpr hall]

/-- The coin left unexplained: what the ledger charges and the summary leaves out
against what only the summary counts. -/
theorem unresolvedCoins_eq (h : BalancedTx args ledger tx) :
    (transactionSummaryInspector args tx).unresolved.value.coins +
        ((tx.body.proposalProcedures.getD []).map ProposalProcedure.deposit).sum +
        retirementReclaims args.protocolParameters args.rewardAccounts
          (tx.body.certificates.getD []) +
        ledgerSum args.protocolParameters
          (unrecognizedCharge args.protocolParameters args.rewardAccounts) ledger
          (tx.body.certificates.getD []) =
      ledgerSum args.protocolParameters
          (unreclaimedRefund args.protocolParameters args.rewardAccounts) ledger
          (tx.body.certificates.getD []) +
        ledgerSum args.protocolParameters
          (updatedPoolCharge args.protocolParameters args.rewardAccounts args.dRepKeyHash) ledger
          (tx.body.certificates.getD []) := by
  set certificates := tx.body.certificates.getD [] with hcertificates
  have hcharged := deposits_add_unrecognized args.protocolParameters args.rewardAccounts
    args.dRepKeyHash ledger certificates
  have hrefunded := reclaims_add_unreclaimed args.protocolParameters args.rewardAccounts
    args.dRepKeyHash ledger certificates
  have hbelongs : ∀ certificate ∈ certificates,
      belongs args.rewardAccounts args.dRepKeyHash certificate = true := h.certificates
  rw [ledgerSum_of_belongs hbelongs] at hcharged hrefunded
  have hbalance := h.coins
  unfold ConsumedIsProduced ledgerRefunds ledgerDeposits at hbalance
  rw [ledgerSum_of_belongs (fun certificate _ => belongs_all certificate),
    ledgerSum_of_belongs (fun certificate _ => belongs_all certificate)] at hbalance
  have hproposals : (tx.body.proposalProcedures.getD []).filter (ownsProposal []) =
      tx.body.proposalProcedures.getD [] := List.filter_eq_self.mpr (fun _ _ => rfl)
  have hparts : (summaryParts tx).certificates.getD [] = certificates := rfl
  have hpartsProposals : (summaryParts tx).proposalProcedures.getD [] =
      tx.body.proposalProcedures.getD [] := rfl
  rw [hparts, hpartsProposals, hproposals] at hbalance
  have hwithdrawals := h.withdrawalsTotal
  have hcoin := computeImplicitCoin_eq args.protocolParameters
    { certificates := tx.body.certificates, withdrawals := tx.body.withdrawals }
    (some args.rewardAccounts) args.dRepKeyHash
  have hcoins : (transactionSummaryInspector args tx).unresolved.value.coins =
      getCoinQuantity (outputsToValues tx.body.outputs) + tx.body.fee -
        (getCoinQuantity (spentValues args.inputResolver tx) +
          (ledgerWithdrawals (summaryParts tx) args.rewardAccounts +
            (certificates.map (fun certificate => (certificateDeposits args.protocolParameters
              args.rewardAccounts args.dRepKeyHash certificate).reclaimDeposit)).sum -
            (certificates.map (fun certificate => (certificateDeposits args.protocolParameters
              args.rewardAccounts args.dRepKeyHash certificate).deposit)).sum)) := by
    unfold transactionSummaryInspector getUnaccountedFunds subtractValueQuantities
      summaryImplicitCoin
    dsimp only
    rw [hcoin, h.inTime, h.valid, if_neg Bool.false_ne_true, if_pos rfl, resolvedInputs_values]
    simp [coalesceValueQuantities, spentValues, ledgerWithdrawals, summaryParts, hcertificates]
  rw [hcoins, hwithdrawals]
  omega

theorem unresolvedAssets_eq (h : BalancedTx args ledger tx) (id : AssetId) :
    assetsQuantity (transactionSummaryInspector args tx).unresolved.value.assets id = 0 := by
  have hassets := h.assets id
  have hinputs := amount_coalesceValueQuantities (spentValues args.inputResolver tx) (.asset id)
  have houtputs := amount_coalesceValueQuantities (outputsToValues tx.body.outputs) (.asset id)
  have hminted := assetsQuantity_getImplicitAssets tx id
  have hdefault : assetsQuantity (some ((getImplicitAssets tx).getD JsMap.empty)) id =
      assetsQuantity (getImplicitAssets tx) id := by
    cases getImplicitAssets tx with
    | none => rfl
    | some m => rfl
  simp only [Value.amount] at hinputs houtputs
  unfold transactionSummaryInspector getUnaccountedFunds subtractValueQuantities
  dsimp only
  rw [h.inTime, h.valid, if_neg Bool.false_ne_true, if_pos rfl, resolvedInputs_values]
  simp only [assetsQuantity_subtractTokenMaps, assetsQuantity_coalesceTokenMaps, List.map_cons,
    List.map_nil, List.sum_cons, List.sum_nil, hdefault, hminted]
  rw [spentValues] at hinputs hassets
  rw [hinputs, houtputs]
  omega

theorem coins_eq (h : BalancedTx args ledger tx) :
    (transactionSummaryInspector args tx).coins =
      getCoinQuantity (outputsToValues
          (tx.body.outputs.filter (fun out => args.addresses.contains out.address))) -
        getCoinQuantity (outputsToValues ((tx.body.inputs.filterMap args.inputResolver).filter
          (fun out => args.addresses.contains out.address))) -
        ledgerWithdrawals (summaryParts tx) args.rewardAccounts := by
  have hcoin := computeImplicitCoin_eq args.protocolParameters
    { certificates := tx.body.certificates, withdrawals := tx.body.withdrawals }
    (some args.rewardAccounts) args.dRepKeyHash
  unfold transactionSummaryInspector ownValueDiff summaryImplicitCoin totalAddressInputsValue
    totalAddressOutputsValue
  have hvalues (outputs : List TxOut) : outputsToValues outputs = outputs.map TxOut.value := rfl
  dsimp only
  rw [hcoin, h.valid, if_neg Bool.false_ne_true, resolvedInputs_filter]
  simp only [coalesceValueQuantities, ledgerWithdrawals, summaryParts, hvalues,
    isAddressWithin, Option.getD_some]
  omega

/-- Of a balanced transaction nothing is left unexplained exactly when the deposits of
its proposals, the counted retirements and own registrations that are not recognised are
made up for by own refunds that are not reclaimed and pools that are only updated. -/
theorem transactionSummaryInspector_accounts_iff (h : BalancedTx args ledger tx) :
    NothingUnaccounted args tx ↔
      ((tx.body.proposalProcedures.getD []).map ProposalProcedure.deposit).sum +
          retirementReclaims args.protocolParameters args.rewardAccounts
            (tx.body.certificates.getD []) +
          ledgerSum args.protocolParameters
            (unrecognizedCharge args.protocolParameters args.rewardAccounts) ledger
            (tx.body.certificates.getD []) =
        ledgerSum args.protocolParameters
            (unreclaimedRefund args.protocolParameters args.rewardAccounts) ledger
            (tx.body.certificates.getD []) +
          ledgerSum args.protocolParameters
            (updatedPoolCharge args.protocolParameters args.rewardAccounts args.dRepKeyHash)
            ledger (tx.body.certificates.getD []) := by
  have hunresolved := unresolvedCoins_eq h
  constructor
  · intro hnothing
    have hzero := hnothing.unresolvedCoins
    omega
  · intro hcondition
    exact ⟨by omega, unresolvedAssets_eq h, coins_eq h⟩

end Balance

def sampleValue (coins asset : ℤ) : Value where
  coins := coins
  assets := some (JsMap.empty.set [5] asset)

def summaryArgs : TransactionSummaryInspectorArgs where
  addresses := ["own"]
  rewardAccounts := [sampleAccount]
  inputResolver := fun _ => some { address := "own", value := sampleValue 1000 10 }
  protocolParameters := sampleDepositParams
  dRepKeyHash := some [3]

def registeringTx : InspectedTx where
  body := {
    inputs := [⟨0, [1], 0⟩]
    outputs := [{ address := "own", value := sampleValue 988 9 }]
    fee := 10
    mint := some (JsMap.empty.set [5] (-1))
    certificates := some [.stakeRegistration ⟨.keyHash, [1]⟩] }

def proposingTx : InspectedTx where
  body := {
    inputs := [⟨0, [1], 0⟩]
    outputs := [{ address := "own", value := sampleValue 890 10 }]
    fee := 10
    proposalProcedures := some [{ deposit := 100, rewardAccount := sampleAccount }] }

theorem registeringTx_balanced : BalancedTx summaryArgs sampleLedger registeringTx where
  valid := rfl
  inTime := rfl
  resolved := fun _ _ => rfl
  certificates := by decide
  withdrawals := by decide
  coins := by
    unfold ConsumedIsProduced
    decide
  assets := fun id => by
    simp [total, spentValues, registeringTx, summaryArgs, outputsToValues, Value.amount,
      sampleValue, assetsQuantity, JsMap.quantity_set]
    split <;> rfl

theorem proposingTx_balanced : BalancedTx summaryArgs sampleLedger proposingTx where
  valid := rfl
  inTime := rfl
  resolved := fun _ _ => rfl
  certificates := by decide
  withdrawals := by decide
  coins := by
    unfold ConsumedIsProduced
    decide
  assets := fun id => by
    simp [total, spentValues, proposingTx, summaryArgs, outputsToValues, Value.amount,
      sampleValue, assetsQuantity, JsMap.quantity_set]

theorem transactionSummaryInspector_accounts_registering :
    BalancedTx summaryArgs sampleLedger registeringTx ∧
      NothingUnaccounted summaryArgs registeringTx :=
  ⟨registeringTx_balanced,
    (transactionSummaryInspector_accounts_iff registeringTx_balanced).mpr (by decide)⟩

/-- The deposit of a proposal is reported as coin that went astray. -/
theorem transactionSummaryInspector_misses_proposal :
    BalancedTx summaryArgs sampleLedger proposingTx ∧
      ¬ NothingUnaccounted summaryArgs proposingTx := by
  refine ⟨proposingTx_balanced, ?_⟩
  intro h
  have hcoins := h.unresolvedCoins
  revert hcoins
  decide

end CardanoSdk.TxConstruction
