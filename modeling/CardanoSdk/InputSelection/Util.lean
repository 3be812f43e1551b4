import CardanoSdk.InputSelection.Types
import CardanoSdk.Lib.Quantities

/-!
The functions of `input-selection/src/util.ts` and the two value-coalescing
helpers of the core package, each with the quantity it computes.
-/

namespace CardanoSdk.InputSelection

open Lib

def maxU64 : ℤ := 18446744073709551615

def stubMaxSizeAddress : PaymentAddress :=
  "addr_test1qqydn46r6mhge0kfpqmt36m6q43knzsd9ga32n96m89px3nuzcjqw982pcftgx53fu5527z2cj2tkx2h8ux2vxsg475qypp3m9"

/-- `throw new InputSelectionError(failure)`. -/
def failWith {α : Type} (failure : InputSelectionFailure) : Except SelectionError α :=
  .error (.inputSelectionError failure)

/-- `assets?.get(id) || 0n`. -/
def assetsQuantity (assets : Option TokenMap) (id : AssetId) : ℤ :=
  match assets with
  | none => 0
  | some m => m.quantity id

/-- `assets?.size || 0`. -/
def assetsSize (assets : Option TokenMap) : ℕ :=
  match assets with
  | none => 0
  | some m => m.size

def toValues (utxo : List Utxo) : List Value := utxo.map (fun u => u.txOut.value)

def outputsToValues (outputs : List TxOut) : List Value := outputs.map (fun o => o.value)

def assetQuantitySelector (id : AssetId) (quantities : List Value) : ℤ :=
  (quantities.map (fun v => assetsQuantity v.assets id)).sum

def getCoinQuantity (quantities : List Value) : ℤ := (quantities.map (fun v => v.coins)).sum

def coalesceTokenMaps (totals : List (Option TokenMap)) : Option TokenMap :=
  let result := (totals.filterMap (fun t => t)).foldl
    (fun acc assetTotals => acc.addEntries assetTotals.entries) JsMap.empty
  if result.size = 0 then none else some result

def coalesceValueQuantities (quantities : List Value) : Value where
  assets := coalesceTokenMaps (quantities.map (fun v => v.assets))
  coins := getCoinQuantity quantities

def mintToImplicitTokens (mintMap : TokenMap) : TokenMap × TokenMap :=
  (mintMap.filter (fun _ quantity => quantity > 0),
    (mintMap.filter (fun _ quantity => quantity < 0)).mapValues (fun quantity => -quantity))

def ImplicitValue.requiredCoin (implicitValue : ImplicitValue) : RequiredImplicitCoin :=
  let coin := implicitValue.coin.getD {}
  { deposit := coin.deposit.getD 0
    input := coin.input.getD 0
    reclaimDeposit := coin.reclaimDeposit.getD 0
    withdrawals := coin.withdrawals.getD 0 }

def ImplicitValue.mintMap (implicitValue : ImplicitValue) : TokenMap :=
  implicitValue.mint.getD JsMap.empty

/-- The required form both change-computing selectors build from the optional
one: missing coins are zero, minted assets are inputs, burned ones spends. -/
def ImplicitValue.required (implicitValue : ImplicitValue) : RequiredImplicitValue :=
  let tokens := mintToImplicitTokens implicitValue.mintMap
  { implicitCoin := implicitValue.requiredCoin
    implicitTokens :=
      { input := fun assetId => tokens.1.quantity assetId
        spend := fun assetId => tokens.2.quantity assetId } }

structure PreProcessedArgs where
  requiredUtxo : List Utxo
  utxo : List Utxo
  outputs : List TxOut
  uniqueTxAssetIDs : List AssetId
  implicitValue : RequiredImplicitValue

def assetKeys (assets : Option TokenMap) : List AssetId :=
  match assets with
  | none => []
  | some m => m.keys

def preProcessArgs (preSelectedUtxo availableUtxo : JsSet Utxo) (outputs : List TxOut)
    (partialImplicitValue : ImplicitValue) : PreProcessedArgs :=
  let uniqueOutputAssetIDs := uniq (outputs.flatMap (fun o => assetKeys o.value.assets))
  { requiredUtxo := preSelectedUtxo.toList
    utxo := availableUtxo.toList
    outputs := outputs
    uniqueTxAssetIDs := uniq (uniqueOutputAssetIDs ++ partialImplicitValue.mintMap.keys)
    implicitValue := partialImplicitValue.required }

def assertIsCoinBalanceSufficient (utxoValues outputValues : List Value)
    (implicitCoin : RequiredImplicitCoin) : Except SelectionError Unit :=
  if getCoinQuantity outputValues + implicitCoin.deposit >
      getCoinQuantity utxoValues + implicitCoin.input then
    failWith .utxoBalanceInsufficient
  else .ok ()

def assertIsBalanceSufficient (uniqueTxAssetIDs : List AssetId)
    (preSelectedUtxo utxo : List Utxo) (outputs : List TxOut)
    (implicitValue : RequiredImplicitValue) : Except SelectionError Unit :=
  let utxoValues := toValues utxo ++ toValues preSelectedUtxo
  let outputsValues := outputsToValues outputs
  let insufficient (assetId : AssetId) : Bool :=
    assetQuantitySelector assetId outputsValues + implicitValue.implicitTokens.spend assetId >
      assetQuantitySelector assetId utxoValues + implicitValue.implicitTokens.input assetId
  if preSelectedUtxo.length + utxo.length = 0 then
    failWith .utxoBalanceInsufficient
  else if uniqueTxAssetIDs.any insufficient then
    failWith .utxoBalanceInsufficient
  else
    assertIsCoinBalanceSufficient utxoValues outputsValues implicitValue.implicitCoin

/-! ### Sorting

Every sort of the source is stable and its comparator a total preorder, so its
result is the stable insertion sort of the list. -/

def sortByCoins (outputs : List TxOut) : List TxOut :=
  outputs.insertionSort (fun lhs rhs => rhs.value.coins ≤ lhs.value.coins)

def sortUtxoByCoins (utxo : List Utxo) : List Utxo :=
  utxo.insertionSort (fun lhs rhs => rhs.txOut.value.coins ≤ lhs.txOut.value.coins)

def sortUtxoByAssetQuantity (assetId : AssetId) (utxo : List Utxo) : List Utxo :=
  utxo.insertionSort (fun lhs rhs =>
    assetsQuantity rhs.txOut.value.assets assetId ≤ assetsQuantity lhs.txOut.value.assets assetId)

/-- `sortTxIn(lhs, rhs) <= 0`: by transaction id, then by index. -/
def txInLe (lhs rhs : TxIn) : Prop :=
  lhs.txId < rhs.txId ∨ (lhs.txId = rhs.txId ∧ lhs.index ≤ rhs.index)

instance (lhs rhs : TxIn) : Decidable (txInLe lhs rhs) :=
  inferInstanceAs (Decidable (_ ∨ _))

def sortUtxoByTxIn (utxo : List Utxo) : List Utxo :=
  utxo.insertionSort (fun lhs rhs => txInLe lhs.txIn rhs.txIn)

/-- `new Set([...utxo].sort(sortUtxoByTxIn))`. -/
def sortedInputSet (utxo : JsSet Utxo) : JsSet Utxo :=
  JsSet.ofList (sortUtxoByTxIn utxo.toList)

def subtractTokenMaps (lhs rhs : Option TokenMap) : Option TokenMap :=
  match lhs, rhs with
  | none, none => none
  | some l, none => some (l.filter (fun _ value => value ≠ 0))
  | none, some r => some ((r.filter (fun _ value => value ≠ 0)).mapValues (fun value => -value))
  | some l, some r =>
    -- present only on the left, then only on the right, then on both sides
    let onlyLeft := JsMap.empty.setAll l.keys (fun key =>
      if r.has key ∨ l.quantity key = 0 then none else some (l.quantity key))
    let onlyRight := onlyLeft.setAll r.keys (fun key =>
      if l.has key ∨ r.quantity key = 0 then none else some (-r.quantity key))
    let intersection := l.keys.filter r.has ++ r.keys.filter l.has
    some (onlyRight.setAll (uniq intersection) (fun id =>
      let remainingCoins := l.quantity id - r.quantity id
      if remainingCoins ≠ 0 then some remainingCoins else none))

def addTokenMaps (lhs rhs : Option TokenMap) : Option TokenMap :=
  match lhs, rhs with
  | none, rhs => rhs
  | some l, none => some l
  | some l, some r =>
    let onlyLeft := JsMap.empty.setAll l.keys (fun key =>
      if r.has key ∨ l.quantity key = 0 then none else some (l.quantity key))
    let onlyRight := onlyLeft.setAll r.keys (fun key =>
      if l.has key ∨ r.quantity key = 0 then none else some (r.quantity key))
    let intersection := l.keys.filter r.has ++ r.keys.filter l.has
    some (onlyRight.setAll (uniq intersection) (fun id =>
      if l.quantity id + r.quantity id ≠ 0 then some (l.quantity id + r.quantity id) else none))

def hasNegativeAssetValue (assets : Option TokenMap) : Bool :=
  match assets with
  | none => false
  | some m => m.values.any (fun quantity => quantity < 0)

/-- The address-less part of `isValidValue`: a stub output of maximal size
holds `value` after `feeToDiscount` is taken from it. -/
def isValidValue (value : Value) (computeMinimumCoinQuantity : TxOut → ℤ)
    (tokenBundleSizeExceedsLimit : TokenMap → Bool) (feeToDiscount : ℤ) : Bool :=
  let isValid := decide (value.coins - feeToDiscount ≥
    computeMinimumCoinQuantity { address := stubMaxSizeAddress, value := value })
  match value.assets with
  | none => isValid
  | some assets => isValid && !tokenBundleSizeExceedsLimit assets

end CardanoSdk.InputSelection
