import CardanoSdk.InputSelection.Util

/-!
The functions of `input-selection/src/change.ts`. Loops that mutate an array become folds
over the same accumulators.
-/

namespace CardanoSdk.InputSelection

open Lib

def getLeftoverAssets (utxoSelected : List Utxo) (uniqueTxAssetIDs : List AssetId) :
    JsMap AssetId (List ℤ) :=
  utxoSelected.foldl (fun leftovers utxo =>
    match utxo.txOut.value.assets with
    | none => leftovers
    | some assets =>
      assets.entries.foldl (fun leftovers entry =>
        if entry.1 ∈ uniqueTxAssetIDs ∨ entry.2 = 0 then leftovers
        else leftovers.set entry.1 ((leftovers.get? entry.1).getD [] ++ [entry.2]))
        leftovers) JsMap.empty

/-- Pop the smallest quantity and add it to the next one, `n` times. The list
is in ascending order, the reverse of the source's array. -/
def coalesceSmallest : ℕ → List ℤ → List ℤ
  | 0, quantities => quantities
  | n + 1, smallest :: next :: rest => coalesceSmallest n ((next + smallest) :: rest)
  | _ + 1, quantities => quantities

def assignQuantities (assetId : AssetId) : List ℤ → List Value → List Value
  | quantity :: quantities, bundle :: bundles =>
    { assets := some ((bundle.assets.getD JsMap.empty).set assetId quantity)
      coins := bundle.coins } :: assignQuantities assetId quantities bundles
  | _, bundles => bundles

def redistributeAsset (bundles : List Value) (leftover : AssetId × List ℤ) : List Value :=
  let quantities := leftover.2.insertionSort (fun a b => b ≤ a)
  let resultBundles := if bundles.length = 0 then [{ coins := 0 }] else bundles
  let coalesced :=
    (coalesceSmallest (quantities.length - resultBundles.length) quantities.reverse).reverse
  assignQuantities leftover.1 coalesced resultBundles

def redistributeLeftoverAssets (utxoSelected : List Utxo)
    (requestedAssetChangeBundles : List Value) (uniqueTxAssetIDs : List AssetId) : List Value :=
  (getLeftoverAssets utxoSelected uniqueTxAssetIDs).entries.foldl redistributeAsset
    requestedAssetChangeBundles

structure AssetTotal where
  selected : ℤ
  requested : ℤ

structure BundlePerOutput where
  bundles : List Value
  totalAssetsBundled : TokenMap
  totalCoinBundled : ℤ

def assetChange (assetTotals : JsMap AssetId AssetTotal) (assetId : AssetId)
    (outputAmount : ℤ) : Except SelectionError ℤ :=
  match assetTotals.get? assetId with
  | none => .error .undefinedAccess
  | some total =>
    if total.selected = 0 then .error .divisionByZero
    else .ok (((total.selected - total.requested) * outputAmount).tdiv total.selected)

def bundleAssets (assetTotals : JsMap AssetId AssetTotal) (totals : TokenMap)
    (outputAssets : TokenMap) : Except SelectionError (TokenMap × TokenMap) :=
  outputAssets.entries.foldlM (fun (acc : TokenMap × TokenMap) entry => do
    let change ← assetChange assetTotals entry.1 entry.2
    pure (acc.1.set entry.1 change, acc.2.set entry.1 (acc.2.quantity entry.1 + change)))
    (JsMap.empty, totals)

def bundleOutput (coinTotalRequested coinChangeTotal : ℤ)
    (assetTotals : JsMap AssetId AssetTotal) (acc : BundlePerOutput) (value : Value) :
    Except SelectionError BundlePerOutput := do
  let coins :=
    if coinTotalRequested > 0 then (coinChangeTotal * value.coins).tdiv coinTotalRequested else 0
  match value.assets with
  | none =>
    pure { acc with
      bundles := acc.bundles ++ [{ coins := coins }]
      totalCoinBundled := acc.totalCoinBundled + coins }
  | some outputAssets =>
    let (assets, totals) ← bundleAssets assetTotals acc.totalAssetsBundled outputAssets
    pure {
      bundles := acc.bundles ++ [{ assets := some assets, coins := coins }]
      totalAssetsBundled := totals
      totalCoinBundled := acc.totalCoinBundled + coins }

def createBundlePerOutput (outputValues : List Value) (coinTotalRequested coinChangeTotal : ℤ)
    (assetTotals : JsMap AssetId AssetTotal) : Except SelectionError BundlePerOutput :=
  outputValues.foldlM (bundleOutput coinTotalRequested coinChangeTotal assetTotals)
    ⟨[], JsMap.empty, 0⟩

/-- `minBy(l, key)`: the position of the first smallest element. -/
def indexOfSmallest {α : Type} (key : α → ℕ) : List α → ℕ
  | [] => 0
  | a :: rest =>
    match rest[indexOfSmallest key rest]? with
    | none => 0
    | some b => if key b < key a then indexOfSmallest key rest + 1 else 0

def Value.hasAsset (value : Value) (assetId : AssetId) : Bool :=
  match value.assets with
  | none => false
  | some m => m.has assetId

def Value.addAsset (value : Value) (assetId : AssetId) (quantity : ℤ) : Value :=
  let assets := value.assets.getD JsMap.empty
  { value with assets := some (assets.set assetId (assets.quantity assetId + quantity)) }

def addCoinLost (bundles : List Value) (coinLost : ℤ) : List Value :=
  if coinLost > 0 then
    match bundles with
    | [] => [{ coins := coinLost }]
    | first :: rest => { first with coins := first.coins + coinLost } :: rest
  else bundles

/-- Where a quantity lost by rounding goes: the first bundle that has the
asset, or else the one with the smallest token bundle. -/
def assetLostIndex (bundles : List Value) (assetId : AssetId) : ℕ :=
  match bundles.findIdx? (fun bundle => bundle.hasAsset assetId) with
  | some index => index
  | none => indexOfSmallest (fun bundle => assetsSize bundle.assets) bundles

def addAssetLost (bundles : List Value) (assetId : AssetId) (assetLost : ℤ) : List Value :=
  if assetLost > 0 then
    match bundles with
    | [] => [({ assets := some JsMap.empty, coins := 0 } : Value).addAsset assetId assetLost]
    | _ => bundles.modify (assetLostIndex bundles assetId)
        (fun bundle => bundle.addAsset assetId assetLost)
  else bundles

def computeAssetTotals (utxoSelectedValues outputValues : List Value)
    (uniqueTxAssetIDs : List AssetId) (implicitTokens : ImplicitTokens) :
    JsMap AssetId AssetTotal :=
  JsMap.empty.setAll uniqueTxAssetIDs (fun assetId => some
    { requested := assetQuantitySelector assetId outputValues + implicitTokens.spend assetId
      selected := assetQuantitySelector assetId utxoSelectedValues +
        implicitTokens.input assetId })

def computeRequestedAssetChangeBundles (utxoSelected : List Utxo) (outputValues : List Value)
    (uniqueTxAssetIDs : List AssetId) (implicitValue : RequiredImplicitValue) (fee : ℤ) :
    Except SelectionError (List Value) := do
  let utxoSelectedValues := toValues utxoSelected
  let assetTotals := computeAssetTotals utxoSelectedValues outputValues uniqueTxAssetIDs
    implicitValue.implicitTokens
  let coinTotalSelected := getCoinQuantity utxoSelectedValues + implicitValue.implicitCoin.input
  let coinTotalRequested :=
    getCoinQuantity outputValues + fee + implicitValue.implicitCoin.deposit
  let coinChangeTotal := coinTotalSelected - coinTotalRequested
  let created ← createBundlePerOutput outputValues coinTotalRequested coinChangeTotal assetTotals
  let bundles := addCoinLost created.bundles (coinChangeTotal - created.totalCoinBundled)
  uniqueTxAssetIDs.foldlM (fun bundles assetId =>
    match assetTotals.get? assetId with
    | none => .error .undefinedAccess
    | some total => .ok (addAssetLost bundles assetId
        (total.selected - total.requested - created.totalAssetsBundled.quantity assetId))) bundles

def orderByCoinsDesc (values : List Value) : List Value :=
  values.insertionSort (fun a b => b.coins ≤ a.coins)

def mergeWithSmallestBundle (values : List Value) (index : ℕ) : List Value :=
  match values[index]? with
  | none => values
  | some toBeMerged =>
    let result := values.eraseIdx index
    match result.getLast? with
    | none => [toBeMerged]
    | some last =>
      orderByCoinsDesc (result.dropLast ++ [coalesceValueQuantities [toBeMerged, last]])

def satisfiesMinCoinRequirement (computeMinimumCoinQuantity : TxOut → ℤ) (value : Value) : Bool :=
  value.coins ≥ computeMinimumCoinQuantity { address := stubMaxSizeAddress, value := value }

/-- The last position whose bundle does not satisfy `p`, scanning from the end. -/
def lastIndexFailing (p : Value → Bool) : List Value → Option ℕ
  | [] => none
  | value :: rest =>
    match lastIndexFailing p rest with
    | some index => some (index + 1)
    | none => if p value then none else some 0

/-- The `while` loop. Every round but the last merges two bundles, so the
number of bundles bounds the number of rounds. -/
def coalesceRounds (computeMinimumCoinQuantity : TxOut → ℤ) : ℕ → List Value → List Value
  | 0, sortedBundles => sortedBundles
  | rounds + 1, sortedBundles =>
    if sortedBundles.length > 1 then
      match lastIndexFailing (satisfiesMinCoinRequirement computeMinimumCoinQuantity)
          sortedBundles with
      | none => sortedBundles
      | some index => coalesceRounds computeMinimumCoinQuantity rounds
          (mergeWithSmallestBundle sortedBundles index)
    else sortedBundles

def Value.positiveAssets (value : Value) : Value :=
  { assets := value.assets.map (fun m => m.filter (fun _ quantity => quantity > 0))
    coins := value.coins }

def Value.isEmptyBundle (value : Value) : Bool :=
  !(value.coins > 0 || assetsSize value.assets > 0)

def coalesceChangeBundlesForMinCoinRequirement (changeBundles : List Value)
    (computeMinimumCoinQuantity : TxOut → ℤ) : Option (List Value) :=
  if changeBundles.length = 0 then some changeBundles
  else
    let sortedBundles := orderByCoinsDesc (changeBundles.map Value.positiveAssets)
    let coalesced := coalesceRounds computeMinimumCoinQuantity sortedBundles.length sortedBundles
    match coalesced.head? with
    | none => none
    | some first =>
      if satisfiesMinCoinRequirement computeMinimumCoinQuantity first then
        some (coalesced.filter (fun bundle => !bundle.isEmptyBundle))
      else none

/-- Cut a token map into pieces in iteration order: an asset that makes the
current piece too large, and is not alone in it, opens the next piece. -/
def splitTokenMap (tokenBundleSizeExceedsLimit : TokenMap → Bool) (assets : TokenMap) :
    List TokenMap :=
  let (done, current) := assets.entries.foldl (fun (acc : List TokenMap × TokenMap) entry =>
    let next := acc.2.set entry.1 entry.2
    if tokenBundleSizeExceedsLimit next && next.size > 1 then
      (acc.1 ++ [next.delete entry.1], JsMap.empty.set entry.1 entry.2)
    else (acc.1, next)) ([], JsMap.empty)
  done ++ [current]

def splitBundle (computeMinimumCoinQuantity : TxOut → ℤ)
    (tokenBundleSizeExceedsLimit : TokenMap → Bool) (bundle : Value) :
    Except SelectionError (List Value) :=
  match bundle.assets with
  | none => .ok [bundle]
  | some assets =>
    if assets.size = 0 || !tokenBundleSizeExceedsLimit assets then .ok [bundle]
    else
      let newValues := (splitTokenMap tokenBundleSizeExceedsLimit assets).map (fun piece =>
        ({ assets := some piece
           coins := computeMinimumCoinQuantity
             { address := stubMaxSizeAddress
               value := { assets := some piece, coins := 0 } } } : Value))
      let totalMinCoin := getCoinQuantity newValues
      if bundle.coins < totalMinCoin then failWith .utxoFullyDepleted
      else match newValues with
        | [] => .ok []
        | first :: rest =>
          .ok ({ first with coins := first.coins + (bundle.coins - totalMinCoin) } :: rest)

def splitChangeIfTokenBundlesSizeExceedsLimit (changeBundles : List Value)
    (computeMinimumCoinQuantity : TxOut → ℤ) (tokenBundleSizeExceedsLimit : TokenMap → Bool) :
    Except SelectionError (List Value) :=
  changeBundles.foldlM (fun result bundle => do
    let pieces ← splitBundle computeMinimumCoinQuantity tokenBundleSizeExceedsLimit bundle
    pure (result ++ pieces)) []

/-- `pickAdditionalUtxo` may keep a state between calls: the random source. -/
structure ChangeComputationArgs (σ : Type) where
  outputValues : List Value
  uniqueTxAssetIDs : List AssetId
  implicitValue : RequiredImplicitValue
  estimateTxCosts : List Utxo → List Value → Except SelectionError TxCosts
  computeMinimumCoinQuantity : TxOut → ℤ
  tokenBundleSizeExceedsLimit : TokenMap → Bool
  pickAdditionalUtxo : UtxoSelection → σ → UtxoSelection × σ

structure ChangeComputationResult where
  remainingUTxO : List Utxo
  inputs : List Utxo
  change : List Value
  fee : ℤ
  redeemers : Option (List Redeemer)

variable {σ : Type}

/-- `none` is the source's `false`: the change does not reach its minimum coin. -/
def computeChangeBundles (args : ChangeComputationArgs σ) (utxoSelected : List Utxo) (fee : ℤ) :
    Except SelectionError (Option (List Value)) := do
  let requestedAssetChangeBundles ← computeRequestedAssetChangeBundles utxoSelected
    args.outputValues args.uniqueTxAssetIDs args.implicitValue fee
  let withLeftoverAssets := redistributeLeftoverAssets utxoSelected
    requestedAssetChangeBundles args.uniqueTxAssetIDs
  match coalesceChangeBundlesForMinCoinRequirement withLeftoverAssets
      args.computeMinimumCoinQuantity with
  | none => pure none
  | some changeBundles => do
      let adjustedChange ← splitChangeIfTokenBundlesSizeExceedsLimit changeBundles
        args.computeMinimumCoinQuantity args.tokenBundleSizeExceedsLimit
      pure (some adjustedChange)

def validateChangeBundles (changeBundles : List Value)
    (tokenBundleSizeExceedsLimit : TokenMap → Bool) : Except SelectionError (List Value) :=
  let tooLarge (bundle : Value) : Bool :=
    match bundle.assets with
    | none => false
    | some assets => tokenBundleSizeExceedsLimit assets
  if changeBundles.any tooLarge then failWith .utxoFullyDepleted else .ok changeBundles

/-- The recursion ends when no entry remains to be picked; `fuel` bounds it
from outside because the picking function is a parameter. -/
def computeChangeAndAdjustForFee (args : ChangeComputationArgs σ) :
    ℕ → UtxoSelection → σ → Except SelectionError ChangeComputationResult
  | 0, _, _ => .error .outOfFuel
  | fuel + 1, utxoSelection, state => do
      let recomputeWithExtraUtxo : Except SelectionError ChangeComputationResult :=
        if utxoSelection.utxoRemaining.length > 0 then
          let (picked, state') := args.pickAdditionalUtxo utxoSelection state
          computeChangeAndAdjustForFee args fuel picked state'
        else failWith .utxoFullyDepleted
      match ← computeChangeBundles args utxoSelection.utxoSelected 0 with
      | none => recomputeWithExtraUtxo
      | some bundlesWithFee => do
          let validated ← validateChangeBundles bundlesWithFee args.tokenBundleSizeExceedsLimit
          let estimatedCosts ← args.estimateTxCosts utxoSelection.utxoSelected validated
          let totalOutputCoin := getCoinQuantity args.outputValues + estimatedCosts.fee +
            args.implicitValue.implicitCoin.deposit
          let totalInputCoin := getCoinQuantity (toValues utxoSelection.utxoSelected) +
            args.implicitValue.implicitCoin.input
          if totalOutputCoin > totalInputCoin then
            if utxoSelection.utxoRemaining.length = 0 then failWith .utxoBalanceInsufficient
            else recomputeWithExtraUtxo
          else
            match ← computeChangeBundles args utxoSelection.utxoSelected estimatedCosts.fee with
            | none => recomputeWithExtraUtxo
            | some changeBundles => do
                let change ← validateChangeBundles changeBundles args.tokenBundleSizeExceedsLimit
                pure {
                  change := change
                  fee := estimatedCosts.fee
                  inputs := utxoSelection.utxoSelected
                  redeemers := estimatedCosts.redeemers
                  remainingUTxO := utxoSelection.utxoRemaining }

end CardanoSdk.InputSelection
