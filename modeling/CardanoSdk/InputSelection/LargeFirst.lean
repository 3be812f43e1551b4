import CardanoSdk.InputSelection.RoundRobin

/-!
The large-first selector: the largest entries per required asset, then the
largest by coin, then the fee adjustment shared with the round-robin selector.
-/

namespace CardanoSdk.InputSelection

open Lib

/-- `pickAdditionalLargestUtxo`. It keeps no state between calls. -/
def pickAdditionalLargestUtxo (selection : UtxoSelection) (state : Unit) : UtxoSelection × Unit :=
  match sortUtxoByCoins selection.utxoRemaining with
  | [] => (selection, state)
  | picked :: newRemaining =>
    ({ utxoRemaining := newRemaining
       utxoSelected := selection.utxoSelected ++ [picked] }, state)

structure AggregatedLovelace where
  totalIn : ℤ
  totalOut : ℤ

def aggregateLovelace (inputs outputs : List Value) (implicitValue : ImplicitValue) :
    AggregatedLovelace where
  totalIn := getCoinQuantity inputs + implicitValue.requiredCoin.input
  totalOut := getCoinQuantity outputs + implicitValue.requiredCoin.deposit

structure AggregatedAssets where
  required : TokenMap
  available : TokenMap

def aggregateAssets (inputs outputs : List Value) (implicitValue : ImplicitValue) :
    AggregatedAssets :=
  let outputsMap := (coalesceValueQuantities outputs).assets.getD JsMap.empty
  let utxoMap := (coalesceValueQuantities inputs).assets
  let posMint := implicitValue.mintMap.filter (fun _ q => q > 0)
  -- a zero entry of the mint goes to the burned side
  let negMint := (implicitValue.mintMap.filter (fun _ q => !(q > 0))).mapValues (fun q => -q)
  { required := (subtractTokenMaps (addTokenMaps (some outputsMap) (some negMint))
      (some posMint)).getD JsMap.empty
    available := (addTokenMaps utxoMap (some posMint)).getD JsMap.empty }

structure NetSelectionValues where
  outputAssets : TokenMap
  totalLovelaceInput : ℤ
  totalLovelaceOutput : ℤ

def computeNetImplicitSelectionValues (inputs : JsSet Utxo) (outputs : List TxOut)
    (implicitValue : ImplicitValue) : Except SelectionError NetSelectionValues :=
  let inputVals := toValues inputs.toList
  let outputVals := outputsToValues outputs
  let lovelace := aggregateLovelace inputVals outputVals implicitValue
  let assets := aggregateAssets inputVals outputVals implicitValue
  let changeAda := lovelace.totalIn - lovelace.totalOut
  let changeAssets := subtractTokenMaps (some assets.available) (some assets.required)
  if inputs.size = 0 || changeAda < 0 || hasNegativeAssetValue changeAssets then
    failWith .utxoBalanceInsufficient
  else .ok {
    outputAssets := assets.required
    totalLovelaceInput := lovelace.totalIn
    totalLovelaceOutput := lovelace.totalOut }

/-- Add candidates until the accumulated quantity reaches `requiredQuantity`;
the check comes after each addition. -/
def selectCandidates (quantity : Utxo → ℤ) (requiredQuantity : ℤ) :
    List Utxo → JsSet Utxo → ℤ → JsSet Utxo × ℤ
  | [], selected, accumulated => (selected, accumulated)
  | candidate :: rest, selected, accumulated =>
    if accumulated + quantity candidate ≥ requiredQuantity then
      (selected.add candidate, accumulated + quantity candidate)
    else selectCandidates quantity requiredQuantity rest (selected.add candidate)
      (accumulated + quantity candidate)

def selectAsset (allAvailable : List Utxo) (selected : JsSet Utxo) (required : AssetId × ℤ) :
    Except SelectionError (JsSet Utxo) :=
  let quantity (u : Utxo) := assetsQuantity u.txOut.value.assets required.1
  let candidates :=
    sortUtxoByAssetQuantity required.1 (allAvailable.filter (fun u => quantity u > 0))
  let (selected', accumulated) := selectCandidates quantity required.2 candidates selected 0
  if accumulated < required.2 then failWith .utxoBalanceInsufficient else .ok selected'

def selectAssets (requiredAssets : TokenMap) (allAvailable : List Utxo)
    (preSelected : List Utxo) : Except SelectionError (JsSet Utxo) :=
  requiredAssets.entries.foldlM (selectAsset allAvailable) (JsSet.ofList preSelected)

/-- Add candidates while the accumulated coin is below `target`; the check
comes before each addition. -/
def selectAdaCandidates (target : ℤ) : List Utxo → JsSet Utxo → ℤ → JsSet Utxo × ℤ
  | [], result, adaAccumulated => (result, adaAccumulated)
  | candidate :: rest, result, adaAccumulated =>
    if adaAccumulated ≥ target then (result, adaAccumulated)
    else selectAdaCandidates target rest (result.add candidate)
      (adaAccumulated + candidate.txOut.value.coins)

def selectLovelace (target : ℤ) (allAvailable : List Utxo) (selected : JsSet Utxo)
    (implicitCoinInput : ℤ) : Except SelectionError (JsSet Utxo) := do
  let selectedTxIns := selected.toList.map (fun u => u.txIn)
  let adaCandidates := sortUtxoByCoins (allAvailable.filter (fun u => u.txIn ∉ selectedTxIns))
  let (result, adaAccumulated) := selectAdaCandidates target adaCandidates selected
    (getCoinQuantity (toValues selected.toList) + implicitCoinInput)
  let result ← if result.size = 0 then
      match adaCandidates with
      | [] => failWith .utxoBalanceInsufficient
      | first :: _ => .ok (result.add first)
    else .ok result
  if adaAccumulated < target then failWith .utxoBalanceInsufficient else .ok result

/-- The entries of `original` whose `txIn` object was not used. -/
def computeRemainingUtxo (original : List Utxo) (used : JsSet Utxo) : JsSet Utxo :=
  let usedTxIns := used.toList.map (fun u => u.txIn)
  JsSet.ofList (original.filter (fun u => u.txIn ∉ usedTxIns))

structure ExpandedSelection where
  finalSelection : JsSet Utxo
  fee : ℤ
  change : List TxOut

def largeFirstChangeArgs (params : InputSelectionParameters) (requiredAssets : TokenMap) :
    ChangeComputationArgs Unit where
  outputValues := outputsToValues params.outputs
  uniqueTxAssetIDs := uniq (requiredAssets.keys ++ params.implicitValue.mintMap.keys)
  implicitValue := params.implicitValue.required
  estimateTxCosts := estimateTxCostsWith params.constraints params.outputs
  computeMinimumCoinQuantity := params.constraints.computeMinimumCoinQuantity
  tokenBundleSizeExceedsLimit := params.constraints.tokenBundleSizeExceedsLimit
  pickAdditionalUtxo := pickAdditionalLargestUtxo

def expandUtxosUntilFeeCovered (initialInputs : JsSet Utxo) (params : InputSelectionParameters)
    (allAvailable : List Utxo) (requiredAssets : TokenMap)
    (changeAddressResolver : ChangeAddressResolver) : Except SelectionError ExpandedSelection := do
  let utxoRemaining :=
    sortUtxoByCoins (allAvailable.filter (fun u => u ∉ initialInputs.toList))
  let result ← computeChangeAndAdjustForFee (largeFirstChangeArgs params requiredAssets)
    (utxoRemaining.length + 1)
    { utxoRemaining := utxoRemaining, utxoSelected := initialInputs.toList } ()
  let finalSelection := JsSet.ofList result.inputs
  if result.change.length = 0 then
    pure { change := [], fee := result.fee, finalSelection := finalSelection }
  else
    let resolvedChange ← changeAddressResolver {
      change := toChangeOutputs result.change
      fee := result.fee
      inputs := finalSelection
      outputs := params.outputs }
    pure { change := resolvedChange, fee := result.fee, finalSelection := finalSelection }

/-- The entries of `utxo` that no pre-selected entry has the id of. -/
def availableUtxo (preSelected utxo : List Utxo) : List Utxo :=
  utxo.filter (fun u => !preSelected.any (fun pre =>
    pre.txIn.txId == u.txIn.txId && pre.txIn.index == u.txIn.index))

def largeFirstSelect (changeAddressResolver : ChangeAddressResolver)
    (params : InputSelectionParameters) : Except SelectionError SelectionResult := do
  let preSelected := params.preSelectedUtxo.toList
  let allAvailable := preSelected ++ availableUtxo preSelected params.utxo.toList
  let net ← computeNetImplicitSelectionValues (JsSet.ofList allAvailable) params.outputs
    params.implicitValue
  let workingUtxo ← selectAssets net.outputAssets allAvailable preSelected
  let workingUtxo ← selectLovelace net.totalLovelaceOutput allAvailable workingUtxo
    params.implicitValue.requiredCoin.input
  let expanded ← expandUtxosUntilFeeCovered workingUtxo params allAvailable net.outputAssets
    changeAddressResolver
  let selection : SelectionSkeleton := {
    change := expanded.change
    fee := expanded.fee
    inputs := expanded.finalSelection
    outputs := params.outputs }
  let limit ← params.constraints.computeSelectionLimit selection
  if expanded.finalSelection.size > limit then failWith .maximumInputCountExceeded
  else pure {
    remainingUTxO := computeRemainingUtxo params.utxo.toList expanded.finalSelection
    selection := { selection with inputs := sortedInputSet expanded.finalSelection } }

end CardanoSdk.InputSelection
