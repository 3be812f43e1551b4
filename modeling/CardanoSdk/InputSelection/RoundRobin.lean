import CardanoSdk.InputSelection.Change

/-!
The round-robin random-improve selector. `random` is a stream of rationals and the number
of values drawn is passed along. The inner `for` loop of the source runs over the live
array of tokens, so the position advances by one after every token, also after one was
removed.
-/

namespace CardanoSdk.InputSelection

open Lib

/-- `Math.floor(random() * length)`. -/
def randomIndex (random : ℕ → ℚ) (drawn length : ℕ) : ℕ := ⌊random drawn * length⌋.toNat

def createPickAdditionalRandomUtxo (random : ℕ → ℚ) (selection : UtxoSelection) (drawn : ℕ) :
    UtxoSelection × ℕ :=
  let remainingUtxoOfOnlyCoin :=
    selection.utxoRemaining.filter (fun u => u.txOut.value.assets.isNone)
  let pickFrom := if remainingUtxoOfOnlyCoin.length > 0 then remainingUtxoOfOnlyCoin
    else selection.utxoRemaining
  match pickFrom[randomIndex random drawn pickFrom.length]? with
  | none => (selection, drawn + 1)
  | some picked =>
    ({ utxoRemaining := selection.utxoRemaining.erase picked
       utxoSelected := selection.utxoSelected ++ [picked] }, drawn + 1)

structure RoundRobinToken where
  filterUtxo : List Utxo → List Utxo
  getTotalSelectedQuantity : List Utxo → ℤ
  minimumTarget : ℤ

def roundRobinToken (outputs : List TxOut) (implicitValue : RequiredImplicitValue) :
    TokenKind → RoundRobinToken
  | .asset id =>
    { filterUtxo := fun utxo =>
        utxo.filter (fun u => assetsQuantity u.txOut.value.assets id ≠ 0)
      getTotalSelectedQuantity := fun utxo =>
        assetQuantitySelector id (toValues utxo) + implicitValue.implicitTokens.input id
      minimumTarget := assetQuantitySelector id (outputsToValues outputs) +
        implicitValue.implicitTokens.spend id }
  | .lovelace =>
    { filterUtxo := fun utxo => utxo
      getTotalSelectedQuantity := fun utxo =>
        getCoinQuantity (toValues utxo) + implicitValue.implicitCoin.input
      minimumTarget := getCoinQuantity (outputsToValues outputs) +
        implicitValue.implicitCoin.deposit }

def listTokensWithin (uniqueOutputAssetIDs : List AssetId) : List TokenKind :=
  uniqueOutputAssetIDs.map TokenKind.asset ++ [.lovelace]

def improvesSelection (utxoAlreadySelected : List Utxo) (input : Utxo) (minimumTarget : ℤ)
    (getQuantity : List Utxo → ℤ) : Bool :=
  let oldQuantity := getQuantity utxoAlreadySelected
  if oldQuantity < minimumTarget then true
  else
    -- `getQuantity` counts the implicit input, so it is added once more here
    let newQuantity := oldQuantity + getQuantity [input]
    let idealTarget := 2 * minimumTarget
    decide (|idealTarget - newQuantity| < |idealTarget - oldQuantity|)

structure RoundRobinState where
  tokensRemaining : List TokenKind
  tokenIdx : ℕ
  utxoSelected : List Utxo
  utxoRemaining : List Utxo
  drawn : ℕ

/-- One pass through the body of the inner loop, for the token at `tokenIdx`. -/
def roundRobinStep (token : TokenKind → RoundRobinToken) (random : ℕ → ℚ)
    (state : RoundRobinState) (current : TokenKind) : RoundRobinState :=
  let utxo := (token current).filterUtxo state.utxoRemaining
  if utxo.length > 0 then
    match utxo[randomIndex random state.drawn utxo.length]? with
    | none => { state with
        tokensRemaining := state.tokensRemaining.eraseIdx state.tokenIdx
        tokenIdx := state.tokenIdx + 1
        drawn := state.drawn + 1 }
    | some input =>
      if improvesSelection state.utxoSelected input (token current).minimumTarget
          (token current).getTotalSelectedQuantity then
        { state with
          tokenIdx := state.tokenIdx + 1
          utxoSelected := state.utxoSelected ++ [input]
          utxoRemaining := state.utxoRemaining.erase input
          drawn := state.drawn + 1 }
      else
        { state with
          tokensRemaining := state.tokensRemaining.eraseIdx state.tokenIdx
          tokenIdx := state.tokenIdx + 1
          drawn := state.drawn + 1 }
  else
    { state with
      tokensRemaining := state.tokensRemaining.eraseIdx state.tokenIdx
      tokenIdx := state.tokenIdx + 1 }

/-- Both loops. Every pass removes a token or moves an entry, so the number of
tokens plus the number of remaining entries bounds the number of passes. -/
def roundRobinLoop (token : TokenKind → RoundRobinToken) (random : ℕ → ℚ) :
    ℕ → RoundRobinState → RoundRobinState
  | 0, state => state
  | passes + 1, state =>
    let tokenIdx := if state.tokenIdx < state.tokensRemaining.length then state.tokenIdx else 0
    match state.tokensRemaining[tokenIdx]? with
    | none => state
    | some current => roundRobinLoop token random passes
        (roundRobinStep token random { state with tokenIdx := tokenIdx } current)

def roundRobinSelection (args : PreProcessedArgs) (random : ℕ → ℚ) : UtxoSelection × ℕ :=
  let tokensRemaining := listTokensWithin args.uniqueTxAssetIDs
  let final := roundRobinLoop (roundRobinToken args.outputs args.implicitValue) random
    (tokensRemaining.length + args.utxo.length)
    { tokensRemaining := tokensRemaining
      tokenIdx := 0
      utxoSelected := args.requiredUtxo
      utxoRemaining := args.utxo
      drawn := 0 }
  match final.utxoSelected, final.utxoRemaining with
  | [], first :: rest => ({ utxoRemaining := rest, utxoSelected := [first] }, final.drawn)
  | utxoSelected, utxoRemaining =>
    ({ utxoRemaining := utxoRemaining, utxoSelected := utxoSelected }, final.drawn)

/-- The change values as outputs to the stub address the fee is estimated with. -/
def toChangeOutputs (change : List Value) : List TxOut :=
  change.map (fun value => { address := stubMaxSizeAddress, value := value })

/-- `estimateTxCosts` as both change-computing selectors pass it. -/
def estimateTxCostsWith (constraints : SelectionConstraints) (outputs : List TxOut)
    (utxos : List Utxo) (changeValues : List Value) : Except SelectionError TxCosts :=
  constraints.computeMinimumCost {
    change := toChangeOutputs changeValues
    fee := maxU64
    inputs := JsSet.ofList utxos
    outputs := outputs }

def roundRobinChangeArgs (params : InputSelectionParameters) (random : ℕ → ℚ)
    (args : PreProcessedArgs) : ChangeComputationArgs ℕ where
  outputValues := outputsToValues args.outputs
  uniqueTxAssetIDs := args.uniqueTxAssetIDs
  implicitValue := args.implicitValue
  estimateTxCosts := estimateTxCostsWith params.constraints params.outputs
  computeMinimumCoinQuantity := params.constraints.computeMinimumCoinQuantity
  tokenBundleSizeExceedsLimit := params.constraints.tokenBundleSizeExceedsLimit
  pickAdditionalUtxo := createPickAdditionalRandomUtxo random

/-- `roundRobinRandomImprove({ changeAddressResolver, random }).select(params)`. -/
def roundRobinRandomImprove (changeAddressResolver : ChangeAddressResolver) (random : ℕ → ℚ)
    (params : InputSelectionParameters) : Except SelectionError SelectionResult := do
  let args := preProcessArgs params.preSelectedUtxo params.utxo params.outputs
    params.implicitValue
  assertIsBalanceSufficient args.uniqueTxAssetIDs args.requiredUtxo args.utxo args.outputs
    args.implicitValue
  let (selected, drawn) := roundRobinSelection args random
  let result ← computeChangeAndAdjustForFee (roundRobinChangeArgs params random args)
    (selected.utxoRemaining.length + 1) selected drawn
  let inputs := JsSet.ofList result.inputs
  let selection : SelectionSkeleton := {
    change := toChangeOutputs result.change
    fee := result.fee
    inputs := inputs
    outputs := params.outputs }
  let change ← changeAddressResolver selection
  let limit ← params.constraints.computeSelectionLimit { selection with change := change }
  if result.inputs.length > limit then failWith .maximumInputCountExceeded
  else pure {
    redeemers := result.redeemers
    remainingUTxO := JsSet.ofList result.remainingUTxO
    selection := { selection with change := change, inputs := sortedInputSet inputs } }

end CardanoSdk.InputSelection
