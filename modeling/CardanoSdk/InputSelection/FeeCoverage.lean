import CardanoSdk.InputSelection.FeeSufficiency

/-!
With at most one output the change shrinks as the fee is taken out. Both change-computing
selectors are taken apart into the adjustment they start and what is done with its result.
-/

namespace CardanoSdk.InputSelection

open Lib

/-- At most one bundle on each side, the second with no more coin, or dropped
while it holds nothing but coin. -/
inductive LowerBundle : List Value → List Value → Prop
  | none : LowerBundle [] []
  | lower (value : Value) (coins : ℤ) (hcoins : coins ≤ value.coins) :
      LowerBundle [value] [{ value with coins := coins }]
  | drop (coins : ℤ) (hcoins : 0 < coins) : LowerBundle [{ coins := coins }] []

theorem LowerBundle.addAssetLost {bundles bundles' : List Value} (h : LowerBundle bundles bundles')
    (assetId : AssetId) (assetLost : ℤ) :
    LowerBundle (addAssetLost bundles assetId assetLost)
      (addAssetLost bundles' assetId assetLost) := by
  unfold InputSelection.addAssetLost
  split
  · cases h with
    | none => exact LowerBundle.lower _ 0 (le_refl _)
    | lower value coins hcoins =>
      have hindex (value : Value) : assetLostIndex [value] assetId = 0 := by
        unfold assetLostIndex
        cases hfound : [value].findIdx? (fun bundle => bundle.hasAsset assetId) with
        | none => rfl
        | some index =>
          obtain ⟨hlt, _⟩ := List.findIdx?_eq_some_iff_getElem.mp hfound
          simpa using hlt
      simp only [hindex]
      exact LowerBundle.lower (value.addAsset assetId assetLost) coins hcoins
    | drop coins hcoins =>
      have hindex : assetLostIndex [{ coins := coins }] assetId = 0 := rfl
      simp only [hindex]
      exact LowerBundle.lower (({ coins := coins } : Value).addAsset assetId assetLost) 0
        (le_of_lt hcoins)
  · exact h

theorem LowerBundle.redistributeAsset {bundles bundles' : List Value}
    (h : LowerBundle bundles bundles') (leftover : AssetId × List ℤ) :
    LowerBundle (redistributeAsset bundles leftover) (redistributeAsset bundles' leftover) := by
  -- both sides have one bundle once the empty list is replaced
  have hassign (value : Value) (coins : ℤ) (hcoins : coins ≤ value.coins) (quantities : List ℤ) :
      LowerBundle (assignQuantities leftover.1 quantities [value])
        (assignQuantities leftover.1 quantities [{ value with coins := coins }]) := by
    cases quantities with
    | nil => exact LowerBundle.lower value coins hcoins
    | cons quantity rest =>
      cases rest <;> exact LowerBundle.lower { value with
        assets := some ((value.assets.getD JsMap.empty).set leftover.1 quantity) } coins hcoins
  unfold InputSelection.redistributeAsset
  cases h with
  | none => exact hassign { coins := 0 } 0 (le_refl _) _
  | lower value coins hcoins => exact hassign value coins hcoins _
  | drop coins hcoins => exact hassign { coins := coins } 0 (le_of_lt hcoins) _

theorem LowerBundle.redistributeLeftoverAssets {bundles bundles' : List Value}
    (h : LowerBundle bundles bundles') (utxoSelected : List Utxo)
    (uniqueTxAssetIDs : List AssetId) :
    LowerBundle (redistributeLeftoverAssets utxoSelected bundles uniqueTxAssetIDs)
      (redistributeLeftoverAssets utxoSelected bundles' uniqueTxAssetIDs) := by
  unfold InputSelection.redistributeLeftoverAssets
  generalize (getLeftoverAssets utxoSelected uniqueTxAssetIDs).entries = leftovers
  induction leftovers generalizing bundles bundles' with
  | nil => exact h
  | cons leftover rest ih => exact ih (h.redistributeAsset leftover)

variable {params : InputSelectionParameters} {coinChangeTotal coins : ℤ}
  {computeMinimumCoinQuantity : TxOut → ℤ}

theorem addCoinLost_single (bundle : Value) (h : bundle.coins ≤ coinChangeTotal) :
    addCoinLost [bundle] (coinChangeTotal - bundle.coins) =
      [{ bundle with coins := coinChangeTotal }] := by
  unfold addCoinLost
  split
  · simp
  · have heq : bundle.coins = coinChangeTotal := by omega
    rw [← heq]

theorem addCoinLost_nil_lower {coinLost coinLost' : ℤ} (h : coinLost' ≤ coinLost) :
    LowerBundle (addCoinLost [] coinLost) (addCoinLost [] coinLost') := by
  unfold addCoinLost
  by_cases hpositive : coinLost > 0
  · rw [if_pos hpositive]
    dsimp only
    split
    · exact LowerBundle.lower { coins := coinLost } coinLost' h
    · exact LowerBundle.drop coinLost hpositive
  · rw [if_neg hpositive, if_neg (by omega)]
    exact LowerBundle.none

variable {coinTotalRequested : ℤ} {value : Value} {result : List Value} {random : ℕ → ℚ}
  {call : FeeAdjustment ℕ}

theorem share_le (hchange : 0 ≤ coinChangeTotal) (hcoins : 0 ≤ coins)
    (hle : coins ≤ coinTotalRequested) :
    (if coinTotalRequested > 0 then (coinChangeTotal * coins).tdiv coinTotalRequested else 0) ≤
      coinChangeTotal := by
  split
  · rename_i hpositive
    have hshare := sum_tdiv_shares_le [coins] hchange hpositive (by simpa using hcoins)
      (by simpa using hle)
    simpa using hshare
  · exact hchange

/-- What the only output contributes besides coin; the fee plays no part. -/
def singleAssets (assetTotals : JsMap AssetId AssetTotal) (assets : Option TokenMap) :
    Except SelectionError (Option TokenMap × TokenMap) :=
  match assets with
  | none => .ok (none, JsMap.empty)
  | some outputAssets => do
      let (assets, totals) ← bundleAssets assetTotals JsMap.empty outputAssets
      pure (some assets, totals)

theorem bundleOutput_single {assetTotals : JsMap AssetId AssetTotal} {created : BundlePerOutput}
    (hchange : 0 ≤ coinChangeTotal) (hcoins : 0 ≤ value.coins)
    (hle : value.coins ≤ coinTotalRequested)
    (hok : bundleOutput coinTotalRequested coinChangeTotal assetTotals ⟨[], JsMap.empty, 0⟩ value =
      .ok created) :
    ∃ assets, singleAssets assetTotals value.assets = .ok (assets, created.totalAssetsBundled) ∧
      addCoinLost created.bundles (coinChangeTotal - created.totalCoinBundled) =
        [{ assets := assets, coins := coinChangeTotal }] := by
  have hshare := share_le hchange hcoins hle
  unfold bundleOutput at hok
  cases hassets : value.assets with
  | none =>
    simp only [hassets] at hok
    cases hok
    refine ⟨none, rfl, ?_⟩
    dsimp only
    rw [zero_add]
    exact addCoinLost_single _ hshare
  | some outputAssets =>
    simp only [hassets] at hok
    obtain ⟨⟨assets, totals⟩, hbundled, hpure⟩ := bind_ok hok
    cases hpure
    refine ⟨some assets, by simp only [singleAssets, hbundled]; rfl, ?_⟩
    dsimp only
    rw [zero_add]
    exact addCoinLost_single _ hshare

private theorem foldlM_related {α β : Type} {R : β → β → Prop}
    {f : β → α → Except SelectionError β}
    (hf : ∀ a b b' c c', R b b' → f b a = .ok c → f b' a = .ok c' → R c c') (l : List α)
    {b b' c c' : β} (hR : R b b') (hc : l.foldlM f b = .ok c) (hc' : l.foldlM f b' = .ok c') :
    R c c' := by
  induction l generalizing b b' with
  | nil =>
    cases hc
    cases hc'
    exact hR
  | cons a rest ih =>
    rw [List.foldlM_cons] at hc hc'
    obtain ⟨d, hd, hc⟩ := bind_ok hc
    obtain ⟨d', hd', hc'⟩ := bind_ok hc'
    exact ih (hf a b b' d d' hR hd hd') hc hc'

theorem computeRequestedAssetChangeBundles_lower {utxoSelected : List Utxo}
    {outputValues withoutFee withFee : List Value} {uniqueTxAssetIDs : List AssetId}
    {implicitValue : RequiredImplicitValue} {fee : ℤ}
    (hsingle : outputValues.length ≤ 1) (hcoins : ∀ value ∈ outputValues, 0 ≤ value.coins)
    (hdeposit : 0 ≤ implicitValue.implicitCoin.deposit) (hfee : 0 ≤ fee)
    (haffordable : getCoinQuantity outputValues + fee + implicitValue.implicitCoin.deposit ≤
      getCoinQuantity (toValues utxoSelected) + implicitValue.implicitCoin.input)
    (hwithout : computeRequestedAssetChangeBundles utxoSelected outputValues uniqueTxAssetIDs
      implicitValue 0 = .ok withoutFee)
    (hwith : computeRequestedAssetChangeBundles utxoSelected outputValues uniqueTxAssetIDs
      implicitValue fee = .ok withFee) : LowerBundle withoutFee withFee := by
  unfold computeRequestedAssetChangeBundles at hwithout hwith
  dsimp only at hwithout hwith
  obtain ⟨created, hcreated, hloop⟩ := bind_ok hwithout
  obtain ⟨created', hcreated', hloop'⟩ := bind_ok hwith
  -- the lost assets are the same for both, so the loop over them keeps the relation
  have hlost : created.totalAssetsBundled = created'.totalAssetsBundled ∧ LowerBundle
      (addCoinLost created.bundles (getCoinQuantity (toValues utxoSelected) +
        implicitValue.implicitCoin.input - (getCoinQuantity outputValues + 0 +
          implicitValue.implicitCoin.deposit) - created.totalCoinBundled))
      (addCoinLost created'.bundles (getCoinQuantity (toValues utxoSelected) +
        implicitValue.implicitCoin.input - (getCoinQuantity outputValues + fee +
          implicitValue.implicitCoin.deposit) - created'.totalCoinBundled)) := by
    match outputValues, hsingle with
    | [], _ =>
      cases hcreated
      cases hcreated'
      refine ⟨rfl, ?_⟩
      exact addCoinLost_nil_lower (by omega)
    | [value], _ =>
      have hvalue : 0 ≤ value.coins := hcoins value (by simp)
      have hsum : getCoinQuantity [value] = value.coins := by simp [getCoinQuantity]
      rw [hsum] at haffordable hcreated hcreated' ⊢
      rw [createBundlePerOutput, List.foldlM_cons] at hcreated hcreated'
      obtain ⟨acc, hacc, hpure⟩ := bind_ok hcreated
      obtain ⟨acc', hacc', hpure'⟩ := bind_ok hcreated'
      cases hpure
      cases hpure'
      obtain ⟨assets, hassets, hbundle⟩ :=
        bundleOutput_single (by omega) hvalue (by omega) hacc
      obtain ⟨assets', hassets', hbundle'⟩ :=
        bundleOutput_single (by omega) hvalue (by omega) hacc'
      rw [hassets] at hassets'
      obtain ⟨hsame, htotals⟩ := Prod.mk.inj (Except.ok.inj hassets')
      refine ⟨htotals, ?_⟩
      rw [hbundle, hbundle', hsame]
      exact LowerBundle.lower { assets := assets', coins := _ } _ (by dsimp only; omega)
  obtain ⟨htotals, hlower⟩ := hlost
  rw [← htotals] at hloop'
  refine foldlM_related (fun assetId bundles bundles' next next' hR hnext hnext' => ?_)
    uniqueTxAssetIDs hlower hloop hloop'
  split at hnext
  · cases hnext
  · rename_i total htotal
    rw [htotal] at hnext'
    cases hnext
    cases hnext'
    exact hR.addAssetLost assetId _

theorem coalesceChangeBundles_single (value : Value)
    (h : coalesceChangeBundlesForMinCoinRequirement [value] computeMinimumCoinQuantity =
      some result) :
    result = [value.positiveAssets].filter (fun bundle => !bundle.isEmptyBundle) := by
  have hsorted : orderByCoinsDesc [value.positiveAssets] = [value.positiveAssets] := rfl
  unfold coalesceChangeBundlesForMinCoinRequirement at h
  simp only [List.length_singleton, List.map_cons, List.map_nil, hsorted, coalesceRounds,
    one_ne_zero, if_false, gt_iff_lt, lt_irrefl, List.head?_cons] at h
  cases hsatisfied : satisfiesMinCoinRequirement computeMinimumCoinQuantity
      value.positiveAssets with
  | true =>
    rw [hsatisfied, if_pos rfl] at h
    exact (Option.some.inj h).symm
  | false =>
    rw [hsatisfied] at h
    cases h

theorem LowerBundle.coalesce {bundles bundles' result' : List Value}
    (h : LowerBundle bundles bundles')
    (hok : coalesceChangeBundlesForMinCoinRequirement bundles computeMinimumCoinQuantity =
      some result)
    (hok' : coalesceChangeBundlesForMinCoinRequirement bundles' computeMinimumCoinQuantity =
      some result') :
    result' = [] ∨ ∃ value coins, coins ≤ value.coins ∧ result = [value] ∧
      result' = [{ value with coins := coins }] := by
  cases h with
  | none =>
    cases hok'
    exact Or.inl rfl
  | drop coins hcoins =>
    cases hok'
    exact Or.inl rfl
  | lower value coins hcoins =>
    have hresult := coalesceChangeBundles_single value hok
    have hresult' := coalesceChangeBundles_single _ hok'
    cases hempty' : ({ value with coins := coins } : Value).positiveAssets.isEmptyBundle with
    | true =>
      left
      rw [hresult']
      simp [hempty']
    | false =>
      right
      have hempty : value.positiveAssets.isEmptyBundle = false := by
        simp only [Value.isEmptyBundle, Value.positiveAssets, Bool.not_eq_false',
          Bool.or_eq_true] at hempty' ⊢
        rcases hempty' with hpositive | hassets
        · have hpositive : 0 < coins := of_decide_eq_true hpositive
          exact Or.inl (decide_eq_true (hpositive.trans_le hcoins))
        · exact Or.inr hassets
      refine ⟨value.positiveAssets, coins, hcoins, ?_, ?_⟩
      · rw [hresult]
        simp [hempty]
      · rw [hresult']
        simp only [List.filter_cons, hempty', Bool.not_false, if_true, List.filter_nil]
        rfl

theorem degrades_nil (change : List TxOut) : Degrades change [] := by
  induction change with
  | nil => exact Relation.ReflTransGen.refl
  | cons output rest ih =>
    exact Relation.ReflTransGen.head (DegradeStep.remove [] rest output) ih

theorem degrades_lowerFirst (value : Value) (hcoins : coins ≤ value.coins) (rest : List Value) :
    Degrades (toChangeOutputs (value :: rest))
      (toChangeOutputs ({ value with coins := coins } :: rest)) :=
  Relation.ReflTransGen.single (DegradeStep.lower [] (toChangeOutputs rest) _ coins hcoins)

theorem splitBundle_lower {tokenBundleSizeExceedsLimit : TokenMap → Bool}
    (hcoins : coins ≤ value.coins) {pieces pieces' : List Value}
    (hok : splitBundle computeMinimumCoinQuantity tokenBundleSizeExceedsLimit value = .ok pieces)
    (hok' : splitBundle computeMinimumCoinQuantity tokenBundleSizeExceedsLimit
      { value with coins := coins } = .ok pieces') :
    Degrades (toChangeOutputs pieces) (toChangeOutputs pieces') := by
  unfold splitBundle at hok hok'
  cases hassets : value.assets with
  | none =>
    simp only [hassets] at hok hok'
    cases hok
    cases hok'
    have hlower := degrades_lowerFirst value hcoins []
    rwa [hassets] at hlower
  | some assets =>
    simp only [hassets] at hok hok'
    split at hok
    · rename_i hsmall
      rw [if_pos hsmall] at hok'
      cases hok
      cases hok'
      have hlower := degrades_lowerFirst value hcoins []
      rwa [hassets] at hlower
    · rename_i hlarge
      rw [if_neg hlarge] at hok'
      split at hok
      · cases hok
      · split at hok'
        · cases hok'
        · split at hok
          · rename_i hnil
            simp only [hnil] at hok'
            cases hok'
            exact degrades_nil _
          · rename_i first rest hcons
            simp only [hcons] at hok hok'
            cases hok
            cases hok'
            exact degrades_lowerFirst { first with
              coins := first.coins + (value.coins - getCoinQuantity (first :: rest)) }
              (by dsimp only; omega) rest

section SingleOutput

variable {σ : Type}

theorem splitChange_lower {tokenBundleSizeExceedsLimit : TokenMap → Bool}
    {bundles bundles' change change' : List Value}
    (h : bundles' = [] ∨ ∃ value coins, coins ≤ value.coins ∧ bundles = [value] ∧
      bundles' = [{ value with coins := coins }])
    (hok : splitChangeIfTokenBundlesSizeExceedsLimit bundles computeMinimumCoinQuantity
      tokenBundleSizeExceedsLimit = .ok change)
    (hok' : splitChangeIfTokenBundlesSizeExceedsLimit bundles' computeMinimumCoinQuantity
      tokenBundleSizeExceedsLimit = .ok change') :
    Degrades (toChangeOutputs change) (toChangeOutputs change') := by
  rcases h with rfl | ⟨value, coins, hcoins, rfl, rfl⟩
  · cases hok'
    exact degrades_nil _
  · rw [splitChangeIfTokenBundlesSizeExceedsLimit, List.foldlM_cons] at hok hok'
    obtain ⟨acc, hacc, hpure⟩ := bind_ok hok
    obtain ⟨acc', hacc', hpure'⟩ := bind_ok hok'
    cases hpure
    cases hpure'
    obtain ⟨pieces, hpieces, hpure⟩ := bind_ok hacc
    obtain ⟨pieces', hpieces', hpure'⟩ := bind_ok hacc'
    cases hpure
    cases hpure'
    exact splitBundle_lower hcoins hpieces hpieces'

theorem computeChangeBundles_lower {args : ChangeComputationArgs σ} {selected : List Utxo}
    {fee : ℤ} {withoutFee withFee : List Value} (hsingle : args.outputValues.length ≤ 1)
    (hcoins : ∀ value ∈ args.outputValues, 0 ≤ value.coins)
    (hdeposit : 0 ≤ args.implicitValue.implicitCoin.deposit) (hfee : 0 ≤ fee)
    (haffordable : Affordable args selected fee)
    (hwithout : computeChangeBundles args selected 0 = .ok (some withoutFee))
    (hwith : computeChangeBundles args selected fee = .ok (some withFee)) :
    Degrades (toChangeOutputs withoutFee) (toChangeOutputs withFee) := by
  unfold computeChangeBundles at hwithout hwith
  obtain ⟨requested, hrequested, hwithout⟩ := bind_ok hwithout
  obtain ⟨requested', hrequested', hwith⟩ := bind_ok hwith
  have hlower := (computeRequestedAssetChangeBundles_lower hsingle hcoins hdeposit hfee haffordable
    hrequested hrequested').redistributeLeftoverAssets selected args.uniqueTxAssetIDs
  dsimp only at hwithout hwith
  split at hwithout
  · cases hwithout
  · rename_i coalesced hcoalesced
    split at hwith
    · cases hwith
    · rename_i coalesced' hcoalesced'
      obtain ⟨adjusted, hadjusted, hpure⟩ := bind_ok hwithout
      obtain ⟨adjusted', hadjusted', hpure'⟩ := bind_ok hwith
      cases hpure
      cases hpure'
      exact splitChange_lower (hlower.coalesce hcoalesced hcoalesced') hadjusted hadjusted'

theorem FeeAdjustment.shrinks_of_single {call : FeeAdjustment σ}
    (hsingle : call.args.outputValues.length ≤ 1)
    (houtputs : ∀ value ∈ call.args.outputValues, 0 ≤ value.coins)
    (hdeposit : 0 ≤ call.args.implicitValue.implicitCoin.deposit) : call.ChangeShrinks := by
  intro _ _ _ _ fee withoutFee withFee hfee haffordable hwithout hwith
  exact computeChangeBundles_lower hsingle houtputs hdeposit hfee haffordable hwithout.1 hwith.1

end SingleOutput

def roundRobinAdjustment (random : ℕ → ℚ) (params : InputSelectionParameters) :
    Except SelectionError (FeeAdjustment ℕ) := do
  let args := preProcessArgs params.preSelectedUtxo params.utxo params.outputs
    params.implicitValue
  assertIsBalanceSufficient args.uniqueTxAssetIDs args.requiredUtxo args.utxo args.outputs
    args.implicitValue
  let (selected, drawn) := roundRobinSelection args random
  pure {
    args := roundRobinChangeArgs params random args
    outputs := params.outputs
    selection := selected
    state := drawn }

def largeFirstAdjustment (params : InputSelectionParameters) :
    Except SelectionError (FeeAdjustment Unit) := do
  let allAvailable := largeFirstPool params.preSelectedUtxo params.utxo
  let net ← computeNetImplicitSelectionValues (JsSet.ofList allAvailable) params.outputs
    params.implicitValue
  let workingUtxo ← selectAssets net.outputAssets allAvailable params.preSelectedUtxo.toList
  let workingUtxo ← selectLovelace net.totalLovelaceOutput allAvailable workingUtxo
    params.implicitValue.requiredCoin.input
  pure {
    args := largeFirstChangeArgs params net.outputAssets
    outputs := params.outputs
    selection := {
      utxoRemaining := sortUtxoByCoins
        (allAvailable.filter (fun u => u ∉ workingUtxo.toList))
      utxoSelected := workingUtxo.toList }
    state := () }

theorem roundRobinAdjustment_ok (h : roundRobinAdjustment random params = .ok call) :
    call.args = roundRobinChangeArgs params random
        (preProcessArgs params.preSelectedUtxo params.utxo params.outputs params.implicitValue) ∧
      call.selection.Divides (params.preSelectedUtxo.toList ++ params.utxo.toList) := by
  unfold roundRobinAdjustment at h
  obtain ⟨_, _, h⟩ := bind_ok h
  have hdivides := roundRobinSelection_divides (preProcessArgs params.preSelectedUtxo params.utxo
    params.outputs params.implicitValue) random
  rw [← Except.ok.inj h]
  exact ⟨rfl, hdivides⟩

theorem largeFirstAdjustment_ok {call : FeeAdjustment Unit}
    (h : largeFirstAdjustment params = .ok call) :
    (∃ requiredAssets, call.args = largeFirstChangeArgs params requiredAssets) ∧
      call.selection.Divides (largeFirstPool params.preSelectedUtxo params.utxo) := by
  unfold largeFirstAdjustment at h
  obtain ⟨net, _, h⟩ := bind_ok h
  obtain ⟨afterAssets, hassets, h⟩ := bind_ok h
  obtain ⟨workingUtxo, hlovelace, h⟩ := bind_ok h
  cases h
  have hmembers := (selectAssets_mem
    (fun utxo hutxo => List.mem_append.mpr (Or.inl hutxo)) hassets).2
  have hworking := (selectLovelace_ok hmembers hlovelace).2
  exact ⟨⟨net.outputAssets, rfl⟩, divides_of_workingSet (nodup_largeFirstPool _ _) hworking⟩

def roundRobinComputed (random : ℕ → ℚ) (params : InputSelectionParameters) :
    Except SelectionError ChangeComputationResult := do
  let call ← roundRobinAdjustment random params
  call.run params.constraints.computeMinimumCost

def largeFirstComputed (params : InputSelectionParameters) :
    Except SelectionError ChangeComputationResult := do
  let call ← largeFirstAdjustment params
  call.run params.constraints.computeMinimumCost

/-- The skeleton the resolver is given: the change still has the stub address. -/
def unresolvedSelection (params : InputSelectionParameters) (computed : ChangeComputationResult) :
    SelectionSkeleton where
  change := toChangeOutputs computed.change
  fee := computed.fee
  inputs := JsSet.ofList computed.inputs
  outputs := params.outputs

def roundRobinFinish (changeAddressResolver : ChangeAddressResolver)
    (params : InputSelectionParameters) (computed : ChangeComputationResult) :
    Except SelectionError SelectionResult := do
  let selection := unresolvedSelection params computed
  let change ← changeAddressResolver selection
  let limit ← params.constraints.computeSelectionLimit { selection with change := change }
  if computed.inputs.length > limit then failWith .maximumInputCountExceeded
  else pure {
    redeemers := computed.redeemers
    remainingUTxO := JsSet.ofList computed.remainingUTxO
    selection := { selection with change := change, inputs := sortedInputSet selection.inputs } }

/-- What the large-first selector does with a computed selection: without
change it does not ask the resolver. -/
def largeFirstFinish (changeAddressResolver : ChangeAddressResolver)
    (params : InputSelectionParameters) (computed : ChangeComputationResult) :
    Except SelectionError SelectionResult := do
  let selection := unresolvedSelection params computed
  let change ← if computed.change.length = 0 then pure [] else changeAddressResolver selection
  let limit ← params.constraints.computeSelectionLimit { selection with change := change }
  if selection.inputs.size > limit then failWith .maximumInputCountExceeded
  else pure {
    remainingUTxO := computeRemainingUtxo params.utxo.toList selection.inputs
    selection := { selection with change := change, inputs := sortedInputSet selection.inputs } }

theorem roundRobinRandomImprove_eq (changeAddressResolver : ChangeAddressResolver)
    (random : ℕ → ℚ) (params : InputSelectionParameters) :
    roundRobinRandomImprove changeAddressResolver random params =
      roundRobinComputed random params >>= roundRobinFinish changeAddressResolver params := by
  unfold roundRobinRandomImprove roundRobinComputed roundRobinAdjustment
  simp only [bind_assoc, pure_bind]
  rfl

theorem largeFirstSelect_eq (changeAddressResolver : ChangeAddressResolver)
    (params : InputSelectionParameters) :
    largeFirstSelect changeAddressResolver params =
      largeFirstComputed params >>= largeFirstFinish changeAddressResolver params := by
  unfold largeFirstSelect largeFirstComputed largeFirstAdjustment expandUtxosUntilFeeCovered
    largeFirstPool
  simp only [bind_assoc, pure_bind]
  congr 1
  funext net
  congr 1
  funext afterAssets
  congr 1
  funext workingUtxo
  congr 1
  funext computed
  unfold largeFirstFinish
  by_cases hchange : computed.change.length = 0
  · simp only [hchange, toChangeOutputs, unresolvedSelection, if_true, pure_bind]
    rfl
  · simp only [hchange, if_false, bind_assoc]
    rfl

end CardanoSdk.InputSelection
