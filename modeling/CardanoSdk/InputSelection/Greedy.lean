import CardanoSdk.InputSelection.Util

/-!
The greedy selector. Each address's share of the weights is computed in floating point by
the source and a parameter here; what follows is exact in both.
-/

namespace CardanoSdk.InputSelection

open Lib

/-- The floating-point division and addition the shares are computed with. -/
structure ShareArithmetic where
  div : ℚ → ℚ → ℚ
  add : ℚ → ℚ → ℚ

/-- `toFixed(0, 0)`: rounded away from zero. -/
def roundUp (q : ℚ) : ℤ := if q < 0 then ⌊q⌋ else ⌈q⌉

/-- The loop of `distributeAssets`. `availableOutputs` shrinks when its current
output cannot take the next asset; the assets shrink when it can. -/
def distributeRounds (computeMinimumCoinQuantity : TxOut → ℤ)
    (tokenBundleSizeExceedsLimit : TokenMap → Bool) (fee : ℤ) :
    ℕ → List TxOut → List TxOut → List (AssetId × ℤ) → ℕ → Except SelectionError (List TxOut)
  | _, availableOutputs, alreadyFullOutputs, [], _ => .ok (availableOutputs ++ alreadyFullOutputs)
  | 0, _, _, _ :: _, _ => .error .outOfFuel
  | fuel + 1, availableOutputs, alreadyFullOutputs, asset :: assets, i =>
    let currentUtxoIndex := i % availableOutputs.length
    match availableOutputs[currentUtxoIndex]? with
    | none => .error .undefinedAccess
    | some output =>
      let splicedAsset : TokenMap := JsMap.empty.set asset.1 asset.2
      let currentValue : Value :=
        { output.value with assets := addTokenMaps output.value.assets (some splicedAsset) }
      if isValidValue currentValue computeMinimumCoinQuantity tokenBundleSizeExceedsLimit fee then
        distributeRounds computeMinimumCoinQuantity tokenBundleSizeExceedsLimit fee fuel
          (availableOutputs.set currentUtxoIndex { output with value := currentValue })
          alreadyFullOutputs assets (i + 1)
      else if (availableOutputs.eraseIdx currentUtxoIndex).length = 0 then
        failWith .utxoFullyDepleted
      else
        distributeRounds computeMinimumCoinQuantity tokenBundleSizeExceedsLimit fee fuel
          (availableOutputs.eraseIdx currentUtxoIndex) (alreadyFullOutputs ++ [output])
          (asset :: assets) (i + 1)

def distributeAssets (outputs : List TxOut) (computeMinimumCoinQuantity : TxOut → ℤ)
    (tokenBundleSizeExceedsLimit : TokenMap → Bool) (fee : ℤ) :
    Except SelectionError (List TxOut) :=
  if outputs.length = 0 then .ok outputs
  else
    match (coalesceValueQuantities (outputsToValues outputs)).assets with
    | none => .ok outputs
    | some totalAssets =>
      let cleared := outputs.map (fun out => { out with value := { coins := out.value.coins } })
      distributeRounds computeMinimumCoinQuantity tokenBundleSizeExceedsLimit fee
        (totalAssets.size + cleared.length) cleared [] totalAssets.entries 0

def decimalTens (amount : ℤ) : ℕ :=
  if amount < 0 then Nat.log 10 amount.natAbs + 1 else Nat.log 10 amount.natAbs

def getMinUtxoAmount (amount : ℤ) : ℤ :=
  roundUp ((10 : ℚ) ^ decimalTens amount * (3 / 100))

/-- The loop of `splitChangeOutput`: halve what remains, rounding up, until the
lower half would be too small; then everything unallocated is one amount. -/
def splitAmounts (amount minUtxoAdaAmount : ℤ) (minimumCoinFor : ℤ → ℤ) (fee : ℤ) :
    ℕ → ℤ → ℤ → List ℤ
  | 0, _, _ => []
  | fuel + 1, remaining, runningAmount =>
    if remaining ≥ minUtxoAdaAmount then
      let val := roundUp ((remaining : ℚ) / 2)
      let updatedRemaining := remaining - val
      if updatedRemaining ≤ minUtxoAdaAmount ∨
          updatedRemaining ≤ minimumCoinFor (amount - runningAmount) + fee then
        [amount - runningAmount]
      else
        val :: splitAmounts amount minUtxoAdaAmount minimumCoinFor fee fuel
          (remaining - val) (runningAmount + val)
    else []

def splitChangeOutput (output : TxOut) (computeMinimumCoinQuantity : TxOut → ℤ) (fee : ℤ) :
    List TxOut :=
  let amount := output.value.coins
  let minimumCoinFor (coins : ℤ) := computeMinimumCoinQuantity
    { address := output.address, value := { assets := output.value.assets, coins := coins } }
  (splitAmounts amount (getMinUtxoAmount amount) minimumCoinFor fee (amount.toNat + 1)
    amount 0).map (fun coins =>
      { address := output.address, value := { assets := output.value.assets, coins := coins } })

/-- One output per address with its rounded-up share. An allocation that
overshoots the total is cut back by everything allocated beyond it. -/
def allocateShares (totalChangeLovelace : ℤ) :
    List (PaymentAddress × ℚ) → ℤ → List TxOut × ℤ
  | [], runningTotal => ([], runningTotal)
  | (address, factor) :: rest, runningTotal =>
    let coinAllocation := roundUp (totalChangeLovelace * factor)
    let runningTotal := runningTotal + coinAllocation
    let coins := if runningTotal > totalChangeLovelace
      then coinAllocation - (runningTotal - totalChangeLovelace) else coinAllocation
    let (outputs, finalTotal) := allocateShares totalChangeLovelace rest runningTotal
    ({ address := address, value := { coins := coins } } :: outputs, finalTotal)

/-- What the shares leave unallocated goes to the last output. -/
def addMissingAllocation (outputs : List TxOut) (missingAllocation : ℤ) : List TxOut :=
  outputs.modify (outputs.length - 1) (fun out =>
    { out with value := { out.value with coins := out.value.coins + missingAllocation } })

/-- All assets go to the output with the most coin. -/
def setFirstAssets (outputs : List TxOut) (assets : Option TokenMap) : List TxOut :=
  outputs.modify 0 (fun out => { out with value := { out.value with assets := assets } })

def splitChange (arith : ShareArithmetic) (changeAddresses : JsMap PaymentAddress ℚ)
    (totalChangeLovelace : ℤ) (totalChangeAssets : Option TokenMap)
    (computeMinimumCoinQuantity : TxOut → ℤ) (tokenBundleSizeExceedsLimit : TokenMap → Bool)
    (fee : ℤ) : Except SelectionError (List TxOut) :=
  let totalWeight := changeAddresses.values.foldl arith.add 0
  let changeAsPercent := changeAddresses.mapValues (fun weight => arith.div weight totalWeight)
  let totalPercentage := changeAsPercent.values.foldl arith.add 0
  if changeAddresses.size > 0 ∧ totalWeight = 0 then
    -- every share is NaN: the tolerance check passes and `BigInt('NaN')` throws
    .error .invalidBigInt
  else if |1 - totalPercentage| > 5 / 100 then failWith .utxoBalanceInsufficient
  else
    let (allocated, runningTotal) := allocateShares totalChangeLovelace changeAsPercent.entries 0
    let changeOutputs := if runningTotal < totalChangeLovelace
      then addMissingAllocation allocated (totalChangeLovelace - runningTotal) else allocated
    let splitOutputs := changeOutputs.flatMap
      (fun output => splitChangeOutput output computeMinimumCoinQuantity fee)
    let sortedOutputs := setFirstAssets
      ((sortByCoins splitOutputs).filter (fun out => out.value.coins > 0)) totalChangeAssets
    match totalChangeAssets with
    | none => .ok sortedOutputs
    | some assets =>
      if assets.size = 0 then .ok sortedOutputs
      else distributeAssets sortedOutputs computeMinimumCoinQuantity
        tokenBundleSizeExceedsLimit fee

structure AdjustedOutputs where
  fee : ℤ
  change : List TxOut
  feeAccountedFor : Bool
  redeemers : Option (List Redeemer) := none

/-- Take the fee from the first output that keeps its minimum coin. -/
def discountFee (computeMinimumCoinQuantity : TxOut → ℤ) (fee : ℤ) :
    List TxOut → List TxOut × Bool
  | [] => ([], false)
  | output :: rest =>
    if output.value.coins - fee ≥ computeMinimumCoinQuantity output then
      ({ output with value := { output.value with coins := output.value.coins - fee } } :: rest,
        true)
    else
      let (discounted, accounted) := discountFee computeMinimumCoinQuantity fee rest
      (output :: discounted, accounted)

def adjustOutputsForFee (changeLovelace : ℤ) (constraints : SelectionConstraints)
    (inputs : JsSet Utxo) (outputs changeOutputs : List TxOut) (currentFee : ℤ) :
    Except SelectionError AdjustedOutputs := do
  let costs ← constraints.computeMinimumCost {
    change := []
    fee := currentFee
    inputs := inputs
    outputs := outputs ++ changeOutputs }
  if costs.fee = changeLovelace then
    pure { change := [], fee := costs.fee, feeAccountedFor := true, redeemers := costs.redeemers }
  else if changeLovelace < costs.fee then failWith .utxoBalanceInsufficient
  else
    let (change, feeAccountedFor) := discountFee constraints.computeMinimumCoinQuantity costs.fee
      (sortByCoins changeOutputs)
    pure {
      change := change
      fee := costs.fee
      feeAccountedFor := feeAccountedFor
      redeemers := costs.redeemers }

/-- Every output reaches its minimum coin and the fee was taken from one. -/
def checkAdjusted (computeMinimumCoinQuantity : TxOut → ℤ) (adjusted : AdjustedOutputs) :
    Except SelectionError AdjustedOutputs :=
  if adjusted.change.any (fun out => out.value.coins < computeMinimumCoinQuantity out) then
    failWith .utxoFullyDepleted
  else if !adjusted.feeAccountedFor then failWith .utxoFullyDepleted
  else .ok adjusted

/-- The recursion raises the fee every time and stops at the surplus, which is
what `fuel` counts. -/
def splitChangeAndComputeFee (arith : ShareArithmetic) (inputs : JsSet Utxo)
    (outputs : List TxOut) (changeLovelace : ℤ) (changeAssets : Option TokenMap)
    (constraints : SelectionConstraints) (changeAddresses : JsMap PaymentAddress ℚ) :
    ℕ → ℤ → Except SelectionError AdjustedOutputs
  | 0, _ => .error .outOfFuel
  | fuel + 1, fee => do
      let changeOutputs ← splitChange arith changeAddresses changeLovelace changeAssets
        constraints.computeMinimumCoinQuantity constraints.tokenBundleSizeExceedsLimit fee
      let adjusted ← adjustOutputsForFee changeLovelace constraints inputs outputs
        changeOutputs fee
      if adjusted.fee ≥ changeLovelace then
        let out : TxOut :=
          { address := stubMaxSizeAddress, value := { assets := changeAssets, coins := 0 } }
        if out.value.coins < constraints.computeMinimumCoinQuantity out then
          failWith .utxoFullyDepleted
        else pure { change := [out], fee := adjusted.fee, feeAccountedFor := true }
      else if fee < adjusted.fee then do
        let recomputed ← splitChangeAndComputeFee arith inputs outputs changeLovelace
          changeAssets constraints changeAddresses fuel adjusted.fee
        if recomputed.change.length = 0 then failWith .utxoFullyDepleted
        else checkAdjusted constraints.computeMinimumCoinQuantity recomputed
      else checkAdjusted constraints.computeMinimumCoinQuantity adjusted

def greedySelect (arith : ShareArithmetic) (changeAddresses : JsMap PaymentAddress ℚ)
    (params : InputSelectionParameters) : Except SelectionError SelectionResult := do
  let allInputs := JsSet.ofList (params.utxo.toList ++ params.preSelectedUtxo.toList)
  let utxoValues := toValues allInputs.toList
  let outputsValues := outputsToValues params.outputs
  let totalLovelaceInput := getCoinQuantity utxoValues + params.implicitValue.requiredCoin.input
  let totalLovelaceOutput :=
    getCoinQuantity outputsValues + params.implicitValue.requiredCoin.deposit
  let totalAssetsInput := addTokenMaps (coalesceValueQuantities utxoValues).assets
    (some params.implicitValue.mintMap)
  let changeLovelace := totalLovelaceInput - totalLovelaceOutput
  let changeAssets := subtractTokenMaps totalAssetsInput
    (coalesceValueQuantities outputsValues).assets
  if allInputs.size = 0 ∨ totalLovelaceOutput > totalLovelaceInput ∨
      hasNegativeAssetValue changeAssets = true then
    failWith .utxoBalanceInsufficient
  else do
    let adjusted ← splitChangeAndComputeFee arith allInputs params.outputs changeLovelace
      changeAssets params.constraints changeAddresses (changeLovelace.toNat + 2) 0
    let change := adjusted.change.filter
      (fun out => out.value.coins > 0 || assetsSize out.value.assets > 0)
    if changeLovelace - adjusted.fee < 0 then failWith .utxoBalanceInsufficient
    else
      let selection : SelectionSkeleton :=
        { change := change, fee := adjusted.fee, inputs := allInputs, outputs := params.outputs }
      let limit ← params.constraints.computeSelectionLimit selection
      if allInputs.size > limit then failWith .maximumInputCountExceeded
      else pure {
        remainingUTxO := JsSet.ofList []
        selection := { selection with inputs := sortedInputSet allInputs } }

end CardanoSdk.InputSelection
