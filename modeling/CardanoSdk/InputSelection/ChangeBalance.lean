import CardanoSdk.InputSelection.Balance

/-!
What each step of `change.ts` does to the totals of the bundles: together they hold what
the selection has beyond the outputs, the fee and the implicit spending.
-/

namespace CardanoSdk.InputSelection

open Lib

theorem amount_addAsset (value : Value) (id : AssetId) (quantity : ℤ) (token : TokenKind) :
    (value.addAsset id quantity).amount token =
      value.amount token + if token = .asset id then quantity else 0 := by
  cases token with
  | lovelace => simp [Value.addAsset, Value.amount]
  | asset other =>
    simp only [Value.addAsset, Value.amount, assetsQuantity, JsMap.quantity_set,
      TokenKind.asset.injEq]
    by_cases hid : other = id
    · subst hid
      cases value.assets <;> simp
    · cases value.assets <;> simp [hid]

theorem indexOfSmallest_lt {α : Type} (key : α → ℕ) (l : List α) (h : l ≠ []) :
    indexOfSmallest key l < l.length := by
  induction l with
  | nil => exact absurd rfl h
  | cons a rest ih =>
    unfold indexOfSmallest
    split
    · simp
    · rename_i b hb
      have hlt : indexOfSmallest key rest < rest.length := (List.getElem?_eq_some_iff.mp hb).1
      split <;> simp [hlt]

variable {bundles outputValues : List Value} {id : AssetId} {assetTotals : JsMap AssetId AssetTotal}
  {P : Value → Prop} {utxoSelected : List Utxo} {uniqueTxAssetIDs : List AssetId}
  {quantities : List ℤ}

theorem assetLostIndex_lt (h : bundles ≠ []) (id : AssetId) :
    assetLostIndex bundles id < bundles.length := by
  unfold assetLostIndex
  split
  · rename_i index hindex
    exact (List.findIdx?_eq_some_iff_getElem.mp hindex).1
  · exact indexOfSmallest_lt _ bundles h

theorem total_addCoinLost (bundles : List Value) {coinLost : ℤ} (h : 0 ≤ coinLost)
    (token : TokenKind) :
    total token (addCoinLost bundles coinLost) =
      total token bundles + if token = .lovelace then coinLost else 0 := by
  unfold addCoinLost
  split
  · cases bundles with
    | nil => cases token <;> simp [Value.amount, assetsQuantity]
    | cons first rest =>
      cases token with
      | lovelace =>
        simp only [total_cons, Value.amount, if_true]
        omega
      | asset id => simp [Value.amount]
  · have hzero : coinLost = 0 := by omega
    simp [hzero]

theorem addCoinLost_nonneg (h : ∀ value ∈ bundles, value.Nonneg) (coinLost : ℤ) :
    ∀ value ∈ addCoinLost bundles coinLost, value.Nonneg := by
  unfold addCoinLost
  split
  · rename_i hlost
    cases bundles with
    | nil =>
      intro value hvalue token
      rw [List.mem_singleton.mp hvalue]
      cases token
      · simp [Value.amount, assetsQuantity]
      · exact le_of_lt hlost
    | cons first rest =>
      intro value hvalue token
      rcases List.mem_cons.mp hvalue with rfl | hrest
      · have hfirst := h first (by simp) token
        cases token
        · exact hfirst
        · simp only [Value.amount] at hfirst ⊢
          omega
      · exact h value (by simp [hrest]) token
  · exact h

theorem addCoinLost_amount_asset_eq_zero (h : ∀ value ∈ bundles, value.amount (.asset id) = 0)
    (coinLost : ℤ) : ∀ value ∈ addCoinLost bundles coinLost, value.amount (.asset id) = 0 := by
  unfold addCoinLost
  split
  · cases bundles with
    | nil => simp [Value.amount, assetsQuantity]
    | cons first rest =>
      simp only [List.mem_cons, forall_eq_or_imp] at h ⊢
      exact h
  · exact h

variable {assetLost coinTotalRequested coinChangeTotal fee : ℤ} {bundled : TokenMap}
  {ids : List AssetId} {result : List Value} {implicitValue : RequiredImplicitValue}

theorem total_addAssetLost (bundles : List Value) (id : AssetId) (h : 0 ≤ assetLost)
    (token : TokenKind) :
    total token (addAssetLost bundles id assetLost) =
      total token bundles + if token = .asset id then assetLost else 0 := by
  unfold addAssetLost
  split
  · cases bundles with
    | nil =>
      simp only [total_cons, total_nil, amount_addAsset]
      cases token <;> simp [Value.amount, assetsQuantity]
    | cons first rest =>
      have hindex := assetLostIndex_lt (List.cons_ne_nil first rest) id
      exact sum_map_modify (fun value => value.amount token) _ _
        (fun value _ => amount_addAsset value id assetLost token) hindex
  · have hzero : assetLost = 0 := by omega
    simp [hzero]

theorem forall_mem_addAssetLost (hnew : P { assets := some JsMap.empty, coins := 0 })
    (hadd : 0 < assetLost → ∀ value, P value → P (value.addAsset id assetLost))
    (h : ∀ value ∈ bundles, P value) : ∀ value ∈ addAssetLost bundles id assetLost, P value := by
  unfold addAssetLost
  split
  · rename_i hlost
    cases bundles with
    | nil =>
      intro value hvalue
      rw [List.mem_singleton.mp hvalue]
      exact hadd hlost _ hnew
    | cons first rest => exact forall_mem_modify (hadd hlost) h _
  · exact h

/-- The share of an output holding `quantity` of an asset in that asset's change. -/
def assetShare (assetTotals : JsMap AssetId AssetTotal) (id : AssetId) (quantity : ℤ) : ℤ :=
  match assetTotals.get? id with
  | none => 0
  | some total => ((total.selected - total.requested) * quantity).tdiv total.selected

def coinShare (coinTotalRequested coinChangeTotal coins : ℤ) : ℤ :=
  if coinTotalRequested > 0 then (coinChangeTotal * coins).tdiv coinTotalRequested else 0

structure BundleOf (coinTotalRequested coinChangeTotal : ℤ)
    (assetTotals : JsMap AssetId AssetTotal) (value bundle : Value) : Prop where
  coins : bundle.coins = coinShare coinTotalRequested coinChangeTotal value.coins
  assets : ∀ id, assetsQuantity bundle.assets id =
    assetShare assetTotals id (assetsQuantity value.assets id)

@[simp] theorem assetShare_zero (assetTotals : JsMap AssetId AssetTotal) (id : AssetId) :
    assetShare assetTotals id 0 = 0 := by
  unfold assetShare
  split <;> simp

theorem assetChange_ok {quantity change : ℤ}
    (h : assetChange assetTotals id quantity = .ok change) :
    change = assetShare assetTotals id quantity := by
  unfold assetChange at h
  unfold assetShare
  cases hget : assetTotals.get? id with
  | none =>
    simp only [hget] at h
    cases h
  | some total =>
    simp only [hget] at h
    split at h
    · cases h
    · cases h
      rfl

theorem bundleAssets_ok {totals outputAssets : TokenMap} {result : TokenMap × TokenMap}
    (h : bundleAssets assetTotals totals outputAssets = .ok result) (id : AssetId) :
    result.1.quantity id = assetShare assetTotals id (outputAssets.quantity id) ∧
      result.2.quantity id =
        totals.quantity id + assetShare assetTotals id (outputAssets.quantity id) := by
  have hfold (entries : List (AssetId × ℤ)) (hkeys : (entries.map Prod.fst).Nodup)
      (acc : TokenMap × TokenMap) (hacc : ∀ key ∈ entries.map Prod.fst, acc.1.quantity key = 0)
      (hok : entries.foldlM (fun (acc : TokenMap × TokenMap) entry => do
        let change ← assetChange assetTotals entry.1 entry.2
        pure (acc.1.set entry.1 change, acc.2.set entry.1 (acc.2.quantity entry.1 + change)))
        acc = .ok result) :
      result.1.quantity id = acc.1.quantity id +
          assetShare assetTotals id ((JsMap.lookup id entries).getD 0) ∧
        result.2.quantity id = acc.2.quantity id +
          assetShare assetTotals id ((JsMap.lookup id entries).getD 0) := by
    induction entries generalizing acc with
    | nil =>
      cases hok
      simp [JsMap.lookup]
    | cons entry rest ih =>
      obtain ⟨key, quantity⟩ := entry
      simp only [List.map_cons, List.nodup_cons] at hkeys
      rw [List.foldlM_cons] at hok
      obtain ⟨next, hnext, hrest⟩ := bind_ok hok
      obtain ⟨change, hchange, hpure⟩ := bind_ok hnext
      have hshare := assetChange_ok hchange
      cases hpure
      have hnotYet : ∀ key' ∈ rest.map Prod.fst,
          (acc.1.set key change).quantity key' = 0 := by
        intro key' hkey'
        have hne : key' ≠ key := by
          rintro rfl
          exact hkeys.1 hkey'
        rw [JsMap.quantity_set, if_neg hne]
        exact hacc key' (by simp [hkey'])
      have hih := ih hkeys.2 _ hnotYet hrest
      simp only [JsMap.quantity_set] at hih
      by_cases hid : id = key
      · subst hid
        have hlookup : JsMap.lookup id rest = none := JsMap.lookup_eq_none.mpr hkeys.1
        have hzero : acc.1.quantity id = 0 := hacc id (by simp)
        simpa [JsMap.lookup, hlookup, hshare, hzero] using hih
      · simpa [JsMap.lookup, hid] using hih
  have hresult := hfold outputAssets.entries outputAssets.nodup (JsMap.empty, totals)
    (fun _ _ => JsMap.quantity_empty _) h
  rw [JsMap.quantity_empty, zero_add] at hresult
  exact hresult

/-- The state of `createBundlePerOutput` after some outputs: one bundle for
each of them, and running totals equal to the totals of those bundles. -/
structure BundlesSoFar (coinTotalRequested coinChangeTotal : ℤ)
    (assetTotals : JsMap AssetId AssetTotal) (values : List Value) (acc : BundlePerOutput) :
    Prop where
  bundles : List.Forall₂ (BundleOf coinTotalRequested coinChangeTotal assetTotals) values acc.bundles
  coins : acc.totalCoinBundled = total .lovelace acc.bundles
  assets : ∀ id, acc.totalAssetsBundled.quantity id = total (.asset id) acc.bundles

theorem bundleOutput_ok {values : List Value} {acc acc' : BundlePerOutput} {value : Value}
    (h : BundlesSoFar coinTotalRequested coinChangeTotal assetTotals values acc)
    (hok : bundleOutput coinTotalRequested coinChangeTotal assetTotals acc value = .ok acc') :
    BundlesSoFar coinTotalRequested coinChangeTotal assetTotals (values ++ [value]) acc' := by
  unfold bundleOutput at hok
  cases hassets : value.assets with
  | none =>
    simp only [hassets] at hok
    cases hok
    refine ⟨?_, ?_, ?_⟩
    · refine List.rel_append h.bundles (List.Forall₂.cons ⟨rfl, ?_⟩ List.Forall₂.nil)
      intro id
      simp [hassets, assetsQuantity]
    · simp [h.coins, Value.amount]
    · intro id
      simp [h.assets, Value.amount, assetsQuantity]
  | some outputAssets =>
    simp only [hassets] at hok
    obtain ⟨⟨assets, totals⟩, hbundle, hpure⟩ := bind_ok hok
    have hquantities := bundleAssets_ok hbundle
    cases hpure
    refine ⟨?_, ?_, ?_⟩
    · refine List.rel_append h.bundles (List.Forall₂.cons ⟨rfl, ?_⟩ List.Forall₂.nil)
      intro id
      simpa [hassets, assetsQuantity] using (hquantities id).1
    · simp [h.coins, Value.amount]
    · intro id
      have hid := hquantities id
      simp only [total_append, total_cons, total_nil, Value.amount, assetsQuantity]
      rw [hid.1, hid.2, h.assets]
      omega

theorem createBundlePerOutput_ok {created : BundlePerOutput}
    (h : createBundlePerOutput outputValues coinTotalRequested coinChangeTotal assetTotals =
      .ok created) :
    BundlesSoFar coinTotalRequested coinChangeTotal assetTotals outputValues created := by
  have hfold (done todo : List Value) (acc : BundlePerOutput)
      (hacc : BundlesSoFar coinTotalRequested coinChangeTotal assetTotals done acc)
      (hok : todo.foldlM (bundleOutput coinTotalRequested coinChangeTotal assetTotals) acc =
        .ok created) :
      BundlesSoFar coinTotalRequested coinChangeTotal assetTotals (done ++ todo) created := by
    induction todo generalizing done acc with
    | nil =>
      cases hok
      simpa using hacc
    | cons value rest ih =>
      rw [List.foldlM_cons] at hok
      obtain ⟨next, hnext, hrest⟩ := bind_ok hok
      simpa using ih (done ++ [value]) next (bundleOutput_ok hacc hnext) hrest
  exact hfold [] outputValues _ ⟨List.Forall₂.nil, rfl, fun _ => rfl⟩ h

section Shares

variable {coinTotalRequested coinChangeTotal : ℤ} {assetTotals : JsMap AssetId AssetTotal}
  {values bundles : List Value}

section Bundles

variable (h : List.Forall₂ (BundleOf coinTotalRequested coinChangeTotal assetTotals) values bundles)
include h

theorem total_lovelace_bundles :
    total .lovelace bundles =
      (values.map (fun v => coinShare coinTotalRequested coinChangeTotal v.coins)).sum := by
  induction h with
  | nil => rfl
  | cons hbundle _ ih => simp [Value.amount, hbundle.coins, ih]

theorem total_asset_bundles (id : AssetId) :
    total (.asset id) bundles =
      (values.map (fun v => assetShare assetTotals id (assetsQuantity v.assets id))).sum := by
  induction h with
  | nil => rfl
  | cons hbundle _ ih => simp [Value.amount, hbundle.assets, ih]

theorem forall_mem_bundles
    (hbundle : ∀ value ∈ values, ∀ bundle,
      BundleOf coinTotalRequested coinChangeTotal assetTotals value bundle → P bundle) :
    ∀ bundle ∈ bundles, P bundle := by
  induction h with
  | nil => simp
  | cons hhead _ ih =>
    intro bundle hmem
    rcases List.mem_cons.mp hmem with rfl | hrest
    · exact hbundle _ (by simp) _ hhead
    · exact ih (fun value hvalue => hbundle value (by simp [hvalue])) bundle hrest

theorem total_lovelace_bundles_le
    (hvalues : ∀ value ∈ values, value.Nonneg) (hchange : 0 ≤ coinChangeTotal)
    (hrequested : total .lovelace values ≤ coinTotalRequested) :
    total .lovelace bundles ≤ coinChangeTotal := by
  rw [total_lovelace_bundles h]
  by_cases hpos : coinTotalRequested > 0
  · have hweights : ∀ w ∈ values.map (fun v => v.coins), 0 ≤ w := by
      intro w hw
      obtain ⟨value, hvalue, rfl⟩ := List.mem_map.mp hw
      exact hvalues value hvalue .lovelace
    have hshares := sum_tdiv_shares_le (values.map (fun v : Value => v.coins)) hchange hpos hweights
      hrequested
    simpa [coinShare, hpos, List.map_map, Function.comp_def] using hshares
  · simpa [coinShare, hpos] using hchange

theorem total_asset_bundles_le
    (hvalues : ∀ value ∈ values, value.Nonneg) {assetTotal : AssetTotal}
    (hget : assetTotals.get? id = some assetTotal)
    (houtputs : total (.asset id) values ≤ assetTotal.requested)
    (hcovered : assetTotal.requested ≤ assetTotal.selected) :
    total (.asset id) bundles ≤ assetTotal.selected - assetTotal.requested := by
  rw [total_asset_bundles h]
  have hnonneg : 0 ≤ total (.asset id) values := total_nonneg hvalues _
  rcases lt_or_eq_of_le (hnonneg.trans (houtputs.trans hcovered)) with hpos | hzero
  · have hweights : ∀ w ∈ values.map (fun v => assetsQuantity v.assets id), 0 ≤ w := by
      intro w hw
      obtain ⟨value, hvalue, rfl⟩ := List.mem_map.mp hw
      exact hvalues value hvalue (.asset id)
    have hshares := sum_tdiv_shares_le
      (values.map (fun v : Value => assetsQuantity v.assets id)) (sub_nonneg.mpr hcovered) hpos hweights (houtputs.trans hcovered)
    simpa [assetShare, hget, List.map_map, Function.comp_def] using hshares
  · have hsum : (values.map (fun v => assetShare assetTotals id (assetsQuantity v.assets id))).sum
        = 0 := by
      simp [assetShare, hget, ← hzero]
    omega

end Bundles

theorem assetShare_nonneg
    (hcovered : ∀ id assetTotal, assetTotals.get? id = some assetTotal →
      0 ≤ assetTotal.requested ∧ assetTotal.requested ≤ assetTotal.selected)
    (id : AssetId) {quantity : ℤ} (h : 0 ≤ quantity) : 0 ≤ assetShare assetTotals id quantity := by
  unfold assetShare
  split
  · exact le_rfl
  · rename_i assetTotal hget
    obtain ⟨hrequested, hselected⟩ := hcovered id assetTotal hget
    exact tdiv_share_nonneg (by omega) h (by omega)

theorem bundleOf_nonneg {value bundle : Value}
    (h : BundleOf coinTotalRequested coinChangeTotal assetTotals value bundle)
    (hvalue : value.Nonneg) (hchange : 0 ≤ coinChangeTotal)
    (hcovered : ∀ id assetTotal, assetTotals.get? id = some assetTotal →
      0 ≤ assetTotal.requested ∧ assetTotal.requested ≤ assetTotal.selected) :
    bundle.Nonneg := by
  intro token
  cases token with
  | lovelace =>
    simp only [Value.amount, h.coins, coinShare]
    split
    · exact tdiv_share_nonneg hchange (hvalue .lovelace) (by omega)
    · exact le_rfl
  | asset id =>
    simp only [Value.amount, h.assets]
    exact assetShare_nonneg hcovered id (hvalue (.asset id))

end Shares

def RequiredImplicitValue.inputAmount (implicitValue : RequiredImplicitValue) : TokenKind → ℤ
  | .lovelace => implicitValue.implicitCoin.input
  | .asset id => implicitValue.implicitTokens.input id

def RequiredImplicitValue.spentAmount (implicitValue : RequiredImplicitValue) : TokenKind → ℤ
  | .lovelace => implicitValue.implicitCoin.deposit
  | .asset id => implicitValue.implicitTokens.spend id

def feeAmount (fee : ℤ) : TokenKind → ℤ
  | .lovelace => fee
  | .asset _ => 0

def requestedAmount (outputValues : List Value) (implicitValue : RequiredImplicitValue) (fee : ℤ)
    (token : TokenKind) : ℤ :=
  total token outputValues + implicitValue.spentAmount token + feeAmount fee token

def selectedAmount (utxoSelected : List Utxo) (implicitValue : RequiredImplicitValue)
    (token : TokenKind) : ℤ :=
  total token (toValues utxoSelected) + implicitValue.inputAmount token

/-- What the change computation relies on about its arguments: outputs and
implicit spending are not negative, and every asset of either is listed once
among the transaction's asset ids. -/
structure ChangeRequest (outputValues : List Value) (uniqueTxAssetIDs : List AssetId)
    (implicitValue : RequiredImplicitValue) : Prop where
  outputs : ∀ value ∈ outputValues, value.Nonneg
  spent : ∀ token, 0 ≤ implicitValue.spentAmount token
  nodup : uniqueTxAssetIDs.Nodup
  outside : ∀ id ∉ uniqueTxAssetIDs, total (.asset id) outputValues = 0 ∧
    implicitValue.spentAmount (.asset id) = 0 ∧ implicitValue.inputAmount (.asset id) = 0

theorem get?_computeAssetTotals (utxoSelected : List Utxo) (outputValues : List Value)
    (uniqueTxAssetIDs : List AssetId) (implicitValue : RequiredImplicitValue) (id : AssetId)
    (fee : ℤ) :
    (computeAssetTotals (toValues utxoSelected) outputValues uniqueTxAssetIDs
      implicitValue.implicitTokens).get? id =
      if id ∈ uniqueTxAssetIDs then some
        { requested := requestedAmount outputValues implicitValue fee (.asset id)
          selected := selectedAmount utxoSelected implicitValue (.asset id) }
      else none := by
  simp only [computeAssetTotals, JsMap.get?_setAll, JsMap.get?_empty, requestedAmount,
    selectedAmount, feeAmount, total_asset, RequiredImplicitValue.spentAmount,
    RequiredImplicitValue.inputAmount, add_zero]
  split <;> rfl

private theorem addAssetsLost_ok (hnodup : ids.Nodup)
    (hlost : ∀ id ∈ ids, ∀ assetTotal, assetTotals.get? id = some assetTotal →
      0 ≤ assetTotal.selected - assetTotal.requested - bundled.quantity id)
    (hok : ids.foldlM (fun bundles assetId =>
      match assetTotals.get? assetId with
      | none => (.error .undefinedAccess : Except SelectionError (List Value))
      | some total => .ok (addAssetLost bundles assetId
          (total.selected - total.requested - bundled.quantity assetId))) bundles = .ok result) :
    (∀ token, (∀ id ∈ ids, token ≠ .asset id) → total token result = total token bundles) ∧
      (∀ id ∈ ids, ∀ assetTotal, assetTotals.get? id = some assetTotal →
        total (.asset id) result = total (.asset id) bundles +
          (assetTotal.selected - assetTotal.requested - bundled.quantity id)) := by
  induction ids generalizing bundles with
  | nil =>
    cases hok
    simp
  | cons id rest ih =>
    obtain ⟨hid, hrest⟩ := List.nodup_cons.mp hnodup
    rw [List.foldlM_cons] at hok
    obtain ⟨next, hnext, htail⟩ := bind_ok hok
    obtain ⟨hother, hsame⟩ := ih hrest (fun id hmem => hlost id (by simp [hmem])) htail
    split at hnext
    · cases hnext
    · rename_i assetTotal hget
      cases hnext
      have hstep := total_addAssetLost bundles id (hlost id (by simp) assetTotal hget)
      refine ⟨?_, ?_⟩
      · intro token htoken
        have hne : token ≠ .asset id := htoken id (by simp)
        rw [hother token (fun id hmem => htoken id (by simp [hmem])), hstep, if_neg hne,
          add_zero]
      · intro id' hid' assetTotal' hget'
        rcases List.mem_cons.mp hid' with rfl | hmem
        · rw [hget] at hget'
          cases hget'
          rw [hother, hstep, if_pos rfl]
          intro id hmem heq
          cases heq
          exact hid hmem
        · have hne : TokenKind.asset id' ≠ .asset id := by
            intro heq
            cases heq
            exact hid hmem
          rw [hsame id' hmem assetTotal' hget', hstep, if_neg hne, add_zero]

private theorem forall_mem_addAssetsLost (hnew : P { assets := some JsMap.empty, coins := 0 })
    (hadd : ∀ id ∈ ids, ∀ quantity, 0 < quantity → ∀ value, P value →
      P (value.addAsset id quantity)) (h : ∀ value ∈ bundles, P value)
    (hok : ids.foldlM (fun bundles assetId =>
      match assetTotals.get? assetId with
      | none => (.error .undefinedAccess : Except SelectionError (List Value))
      | some total => .ok (addAssetLost bundles assetId
          (total.selected - total.requested - bundled.quantity assetId))) bundles = .ok result) :
    ∀ value ∈ result, P value := by
  refine foldlM_ok_invariant (fun bundles => ∀ value ∈ bundles, P value) _ ids h ?_ hok
  intro bundles id hid hbundles next hnext
  split at hnext
  · cases hnext
  · cases hnext
    exact forall_mem_addAssetLost hnew (hadd id hid _) hbundles

/-- What a list of change bundles holds before the leftover assets join it. -/
structure RequestedChange (utxoSelected : List Utxo) (outputValues : List Value)
    (uniqueTxAssetIDs : List AssetId) (implicitValue : RequiredImplicitValue) (fee : ℤ)
    (bundles : List Value) : Prop where
  nonneg : ∀ bundle ∈ bundles, bundle.Nonneg
  totals : ∀ token, (∀ id, token = .asset id → id ∈ uniqueTxAssetIDs) →
    total token bundles + requestedAmount outputValues implicitValue fee token =
      selectedAmount utxoSelected implicitValue token
  outside : ∀ id ∉ uniqueTxAssetIDs, ∀ bundle ∈ bundles, bundle.amount (.asset id) = 0

theorem computeRequestedAssetChangeBundles_ok
    (hrequest : ChangeRequest outputValues uniqueTxAssetIDs implicitValue) (hfee : 0 ≤ fee)
    (hcovered : ∀ token, requestedAmount outputValues implicitValue fee token ≤
      selectedAmount utxoSelected implicitValue token)
    (hok : computeRequestedAssetChangeBundles utxoSelected outputValues uniqueTxAssetIDs
      implicitValue fee = .ok bundles) :
    RequestedChange utxoSelected outputValues uniqueTxAssetIDs implicitValue fee bundles := by
  unfold computeRequestedAssetChangeBundles at hok
  dsimp only at hok
  set assetTotals := computeAssetTotals (toValues utxoSelected) outputValues uniqueTxAssetIDs
    implicitValue.implicitTokens with hassetTotals
  have hget := fun id => get?_computeAssetTotals utxoSelected outputValues uniqueTxAssetIDs
    implicitValue id fee
  rw [← hassetTotals] at hget
  obtain ⟨created, hcreated, hloop⟩ := bind_ok hok
  have hso := createBundlePerOutput_ok hcreated
  have hlovelace := hcovered .lovelace
  have hdeposit := hrequest.spent .lovelace
  simp only [requestedAmount, selectedAmount, RequiredImplicitValue.spentAmount,
    RequiredImplicitValue.inputAmount, feeAmount, total_lovelace] at hlovelace hdeposit
  -- every listed asset is covered, which is what bounds its shares
  have hassets : ∀ id assetTotal, assetTotals.get? id = some assetTotal →
      0 ≤ assetTotal.requested ∧ assetTotal.requested ≤ assetTotal.selected := by
    intro id assetTotal hid
    rw [hget] at hid
    split at hid
    · cases hid
      refine ⟨?_, hcovered (.asset id)⟩
      have houtputs := total_nonneg hrequest.outputs (.asset id)
      have hspent := hrequest.spent (.asset id)
      simp only [requestedAmount, feeAmount]
      omega
    · cases hid
  have hcoinLost := total_lovelace_bundles_le hso.bundles hrequest.outputs
    (by omega) (by rw [total_lovelace]; omega)
  rw [← hso.coins] at hcoinLost
  have hassetLost : ∀ id ∈ uniqueTxAssetIDs, ∀ assetTotal,
      assetTotals.get? id = some assetTotal →
      0 ≤ assetTotal.selected - assetTotal.requested - created.totalAssetsBundled.quantity id := by
    intro id hmem assetTotal hid
    have houtputs : total (.asset id) outputValues ≤ assetTotal.requested := by
      have hspent := hrequest.spent (.asset id)
      rw [hget, if_pos hmem] at hid
      cases hid
      simp only [requestedAmount, feeAmount]
      omega
    have hle := total_asset_bundles_le hso.bundles hrequest.outputs hid houtputs
      (hassets id assetTotal hid).2
    rw [hso.assets]
    omega
  obtain ⟨hother, hsame⟩ := addAssetsLost_ok hrequest.nodup hassetLost hloop
  have hcoins := total_addCoinLost created.bundles (sub_nonneg.mpr hcoinLost)
  refine ⟨?_, ?_, ?_⟩
  · refine forall_mem_addAssetsLost ?_ ?_ ?_ hloop
    · intro token
      cases token <;> simp [Value.amount, assetsQuantity]
    · intro id _ quantity hquantity value hvalue token
      rw [amount_addAsset]
      have := hvalue token
      split <;> omega
    · apply addCoinLost_nonneg
      exact forall_mem_bundles hso.bundles
        (fun value hvalue bundle hbundle =>
          bundleOf_nonneg hbundle (hrequest.outputs value hvalue) (by omega) hassets)
  · intro token htoken
    cases token with
    | lovelace =>
      rw [hother .lovelace (by simp), hcoins, if_pos rfl, ← hso.coins]
      simp only [requestedAmount, selectedAmount, RequiredImplicitValue.spentAmount,
        RequiredImplicitValue.inputAmount, feeAmount, total_lovelace]
      omega
    | asset id =>
      have hid := htoken id rfl
      have htotal := hget id
      rw [if_pos hid] at htotal
      rw [hsame id hid _ htotal, hcoins, if_neg (by simp), ← hso.assets]
      dsimp only
      omega
  · intro id hid
    refine forall_mem_addAssetsLost ?_ ?_ ?_ hloop
    · simp [Value.amount, assetsQuantity]
    · intro id' hid' quantity _ value hvalue
      have hne : TokenKind.asset id ≠ .asset id' := by
        intro heq
        cases heq
        exact hid hid'
      rw [amount_addAsset, if_neg hne, hvalue, add_zero]
    · have hzero : ∀ bundle ∈ created.bundles, bundle.amount (.asset id) = 0 := by
        refine forall_mem_bundles hso.bundles (fun value _ bundle hbundle => ?_)
        have hnone := hget id
        rw [if_neg hid] at hnone
        simp [Value.amount, hbundle.assets, assetShare, hnone]
      exact addCoinLost_amount_asset_eq_zero hzero _

def leftoversOf (leftovers : JsMap AssetId (List ℤ)) (id : AssetId) : List ℤ :=
  (leftovers.get? id).getD []

private theorem leftoversOf_entries (uniqueTxAssetIDs : List AssetId)
    (entries : List (AssetId × ℤ)) (hkeys : (entries.map Prod.fst).Nodup)
    (leftovers : JsMap AssetId (List ℤ)) (id : AssetId) :
    leftoversOf (entries.foldl (fun leftovers entry =>
      if entry.1 ∈ uniqueTxAssetIDs ∨ entry.2 = 0 then leftovers
      else leftovers.set entry.1 ((leftovers.get? entry.1).getD [] ++ [entry.2])) leftovers) id =
      leftoversOf leftovers id ++ if id ∈ uniqueTxAssetIDs then []
        else [(JsMap.lookup id entries).getD 0].filter (fun q => q ≠ 0) := by
  induction entries generalizing leftovers with
  | nil => simp [JsMap.lookup]
  | cons entry rest ih =>
    obtain ⟨key, quantity⟩ := entry
    simp only [List.map_cons, List.nodup_cons] at hkeys
    rw [List.foldl_cons, ih hkeys.2]
    have hrest : key = id → JsMap.lookup id rest = none := by
      rintro rfl
      exact JsMap.lookup_eq_none.mpr hkeys.1
    by_cases hskip : key ∈ uniqueTxAssetIDs ∨ quantity = 0
    · rw [if_pos hskip]
      by_cases hid : id = key
      · subst hid
        rcases hskip with hunique | hzero
        · simp [hunique]
        · simp [JsMap.lookup, hrest rfl, hzero]
      · simp [JsMap.lookup, hid]
    · rw [if_neg hskip]
      obtain ⟨hunique, hquantity⟩ := not_or.mp hskip
      by_cases hid : id = key
      · subst hid
        simp [JsMap.lookup, hrest rfl, hunique, hquantity, leftoversOf]
      · simp [JsMap.lookup, hid, leftoversOf, JsMap.get?_set]

theorem leftoversOf_foldl {step : JsMap AssetId (List ℤ) → Utxo → JsMap AssetId (List ℤ)}
    (share : Utxo → List ℤ)
    (hstep : ∀ leftovers utxo,
      leftoversOf (step leftovers utxo) id = leftoversOf leftovers id ++ share utxo)
    (utxo : List Utxo) (leftovers : JsMap AssetId (List ℤ)) :
    leftoversOf (utxo.foldl step leftovers) id =
      leftoversOf leftovers id ++ utxo.flatMap share := by
  induction utxo generalizing leftovers with
  | nil => simp
  | cons entry rest ih =>
    rw [List.foldl_cons, ih, hstep, List.append_assoc, List.flatMap_cons]

theorem leftoversOf_getLeftoverAssets (utxoSelected : List Utxo)
    (uniqueTxAssetIDs : List AssetId) (id : AssetId) :
    leftoversOf (getLeftoverAssets utxoSelected uniqueTxAssetIDs) id =
      if id ∈ uniqueTxAssetIDs then []
      else ((toValues utxoSelected).map (fun value => value.amount (.asset id))).filter
        (fun q => q ≠ 0) := by
  let share : Utxo → List ℤ := fun utxo =>
    if id ∈ uniqueTxAssetIDs then []
    else [utxo.txOut.value.amount (.asset id)].filter (fun q => q ≠ 0)
  have hshares : utxoSelected.flatMap share = if id ∈ uniqueTxAssetIDs then []
      else ((toValues utxoSelected).map (fun value => value.amount (.asset id))).filter
        (fun q => q ≠ 0) := by
    induction utxoSelected with
    | nil => simp [toValues]
    | cons entry rest ih =>
      rw [List.flatMap_cons, ih]
      dsimp only [share]
      split
      · rfl
      · rw [← List.filter_append]
        rfl
  unfold getLeftoverAssets
  rw [leftoversOf_foldl share ?_ utxoSelected JsMap.empty, hshares]
  · rfl
  · intro leftovers entry
    dsimp only [share]
    cases hassets : entry.txOut.value.assets with
    | none => simp [Value.amount, hassets, assetsQuantity]
    | some assets =>
      simp only
      rw [leftoversOf_entries _ _ assets.nodup]
      split
      · simp
      · simp only [Value.amount, hassets, assetsQuantity]
        rfl

theorem not_mem_unique_of_leftover
    (h : id ∈ (getLeftoverAssets utxoSelected uniqueTxAssetIDs).keys) : id ∉ uniqueTxAssetIDs := by
  revert h
  unfold getLeftoverAssets
  refine List.foldlRecOn utxoSelected _ (motive := fun leftovers : JsMap AssetId (List ℤ) =>
    id ∈ leftovers.keys → id ∉ uniqueTxAssetIDs) (by simp [JsMap.keys, JsMap.empty]) ?_
  intro leftovers hleftovers utxo _
  split
  · exact hleftovers
  · rename_i assets _
    refine List.foldlRecOn assets.entries _ (motive := fun leftovers : JsMap AssetId (List ℤ) =>
      id ∈ leftovers.keys → id ∉ uniqueTxAssetIDs) hleftovers ?_
    intro leftovers hleftovers entry _
    split
    · exact hleftovers
    · rename_i hskip
      rw [JsMap.mem_keys_set]
      rintro (rfl | hmem)
      · exact fun hunique => hskip (Or.inl hunique)
      · exact hleftovers hmem

theorem sum_coalesceSmallest (n : ℕ) (quantities : List ℤ) :
    (coalesceSmallest n quantities).sum = quantities.sum := by
  induction n, quantities using coalesceSmallest.induct with
  | case1 quantities => rfl
  | case2 n smallest next rest ih =>
    rw [coalesceSmallest, ih]
    simp only [List.sum_cons]
    omega
  | case3 n quantities hshort => rw [coalesceSmallest]; exact hshort

theorem length_coalesceSmallest (n : ℕ) (quantities : List ℤ) (h : n < quantities.length) :
    (coalesceSmallest n quantities).length = quantities.length - n := by
  induction n, quantities using coalesceSmallest.induct with
  | case1 quantities => rfl
  | case2 n smallest next rest ih =>
    have hih := ih (by simpa using h)
    rw [coalesceSmallest, hih]
    simp only [List.length_cons]
    omega
  | case3 n quantities hshort =>
    match quantities, hshort, h with
    | [], _, h => simp at h
    | [_], _, h => simp at h
    | a :: b :: rest, hshort, _ => exact absurd rfl (hshort a b rest)

theorem coalesceSmallest_nonneg (n : ℕ) (quantities : List ℤ) (h : ∀ q ∈ quantities, 0 ≤ q) :
    ∀ q ∈ coalesceSmallest n quantities, 0 ≤ q := by
  induction n, quantities using coalesceSmallest.induct with
  | case1 quantities => exact h
  | case2 n smallest next rest ih =>
    rw [coalesceSmallest]
    apply ih
    simp only [List.mem_cons, forall_eq_or_imp] at h ⊢
    exact ⟨by omega, h.2.2⟩
  | case3 n quantities hshort => rw [coalesceSmallest]; exact h; exact hshort

private theorem amount_setAsset (bundle : Value) (id : AssetId) (quantity : ℤ) (token : TokenKind) :
    ({ assets := some ((bundle.assets.getD JsMap.empty).set id quantity)
       coins := bundle.coins } : Value).amount token =
      if token = .asset id then quantity else bundle.amount token := by
  cases token with
  | lovelace => rfl
  | asset other =>
    simp only [Value.amount, assetsQuantity, JsMap.quantity_set, TokenKind.asset.injEq]
    split
    · rfl
    · cases bundle.assets <;> rfl

theorem total_assignQuantities (hlength : quantities.length ≤ bundles.length)
    (hzero : ∀ bundle ∈ bundles, bundle.amount (.asset id) = 0) (token : TokenKind) :
    total token (assignQuantities id quantities bundles) =
      total token bundles + if token = .asset id then quantities.sum else 0 := by
  induction quantities generalizing bundles with
  | nil => simp [assignQuantities]
  | cons quantity rest ih =>
    cases bundles with
    | nil => simp at hlength
    | cons bundle more =>
      have hih := ih (by simpa using hlength) (fun b hb => hzero b (by simp [hb]))
      have hbundle := hzero bundle (by simp)
      rw [assignQuantities, total_cons, total_cons, amount_setAsset, hih]
      by_cases htoken : token = .asset id
      · subst htoken
        simp only [if_true, hbundle, List.sum_cons]
        omega
      · simp [htoken]

theorem forall_mem_assignQuantities
    (hset : ∀ quantity ∈ quantities, ∀ bundle, P bundle →
      P { assets := some ((bundle.assets.getD JsMap.empty).set id quantity)
          coins := bundle.coins }) (h : ∀ bundle ∈ bundles, P bundle) :
    ∀ bundle ∈ assignQuantities id quantities bundles, P bundle := by
  induction quantities generalizing bundles with
  | nil => simpa [assignQuantities] using h
  | cons quantity rest ih =>
    cases bundles with
    | nil => simp [assignQuantities]
    | cons bundle more =>
      simp only [List.mem_cons, forall_eq_or_imp] at h hset
      simp only [assignQuantities, List.mem_cons, forall_eq_or_imp]
      exact ⟨hset.1 bundle h.1, ih hset.2 h.2⟩

theorem redistributeAsset_spec (hbundles : ∀ bundle ∈ bundles, bundle.Nonneg)
    (hzero : ∀ bundle ∈ bundles, bundle.amount (.asset id) = 0)
    (hquantities : ∀ quantity ∈ quantities, 0 ≤ quantity) :
    (∀ token, total token (redistributeAsset bundles (id, quantities)) =
        total token bundles + if token = .asset id then quantities.sum else 0) ∧
      (∀ bundle ∈ redistributeAsset bundles (id, quantities), bundle.Nonneg) ∧
      (∀ other ≠ id, (∀ bundle ∈ bundles, bundle.amount (.asset other) = 0) →
        ∀ bundle ∈ redistributeAsset bundles (id, quantities),
          bundle.amount (.asset other) = 0) := by
  have hperm : (quantities.insertionSort (fun a b => b ≤ a)).Perm quantities :=
    List.perm_insertionSort _ _
  unfold redistributeAsset
  dsimp only
  set resultBundles := if bundles.length = 0 then [({ coins := 0 } : Value)] else bundles
    with hresult
  set sorted := quantities.insertionSort (fun a b => b ≤ a) with hsorted
  set coalesced := (coalesceSmallest (sorted.length - resultBundles.length) sorted.reverse).reverse
    with hcoalesced
  have hempty (token : TokenKind) : ({ coins := 0 } : Value).amount token = 0 := by
    cases token <;> simp [Value.amount, assetsQuantity]
  have hforall {P : Value → Prop} (hnew : P { coins := 0 }) (h : ∀ bundle ∈ bundles, P bundle) :
      ∀ bundle ∈ resultBundles, P bundle := by
    rw [hresult]
    split
    · intro bundle hbundle
      rw [List.mem_singleton.mp hbundle]
      exact hnew
    · exact h
  have htotal (token : TokenKind) : total token resultBundles = total token bundles := by
    rw [hresult]
    split
    · rename_i hlength
      rw [List.length_eq_zero_iff.mp hlength]
      simp [hempty]
    · rfl
  have hresultPos : 0 < resultBundles.length := by
    rw [hresult]
    split
    · simp
    · omega
  have hlength : coalesced.length ≤ resultBundles.length := by
    rw [hcoalesced, List.length_reverse]
    by_cases hmany : sorted.length ≤ resultBundles.length
    · rw [Nat.sub_eq_zero_of_le hmany]
      simpa [coalesceSmallest] using hmany
    · rw [length_coalesceSmallest _ _ (by rw [List.length_reverse]; omega), List.length_reverse]
      omega
  have hsum : coalesced.sum = quantities.sum := by
    rw [hcoalesced, List.sum_reverse, sum_coalesceSmallest, List.sum_reverse, hperm.sum_eq]
  have hnonneg : ∀ q ∈ coalesced, 0 ≤ q := by
    intro q hq
    rw [hcoalesced, List.mem_reverse] at hq
    refine coalesceSmallest_nonneg _ _ (fun q hq => ?_) q hq
    exact hquantities q (hperm.mem_iff.mp (List.mem_reverse.mp hq))
  refine ⟨?_, ?_, ?_⟩
  · intro token
    rw [total_assignQuantities hlength (hforall (hempty _) hzero), htotal, hsum]
  · refine forall_mem_assignQuantities ?_ (hforall (fun token => (hempty token).ge) hbundles)
    intro quantity hquantity bundle hbundle token
    rw [amount_setAsset]
    split
    · exact hnonneg quantity hquantity
    · exact hbundle token
  · intro other hother hothers
    refine forall_mem_assignQuantities ?_ (hforall (hempty _) hothers)
    intro quantity _ bundle hbundle
    rw [amount_setAsset, if_neg (by simpa using hother)]
    exact hbundle

theorem redistributeAssets_spec {entries : List (AssetId × List ℤ)}
    (hkeys : (entries.map Prod.fst).Nodup) (hbundles : ∀ bundle ∈ bundles, bundle.Nonneg)
    (hzero : ∀ id ∈ entries.map Prod.fst, ∀ bundle ∈ bundles, bundle.amount (.asset id) = 0)
    (hentries : ∀ entry ∈ entries, ∀ quantity ∈ entry.2, 0 ≤ quantity) :
    (total .lovelace (entries.foldl redistributeAsset bundles) = total .lovelace bundles) ∧
      (∀ id, total (.asset id) (entries.foldl redistributeAsset bundles) =
        total (.asset id) bundles + ((JsMap.lookup id entries).getD []).sum) ∧
      (∀ bundle ∈ entries.foldl redistributeAsset bundles, bundle.Nonneg) := by
  induction entries generalizing bundles with
  | nil => exact ⟨rfl, by simp [JsMap.lookup], hbundles⟩
  | cons entry rest ih =>
    obtain ⟨key, quantities⟩ := entry
    simp only [List.map_cons, List.nodup_cons] at hkeys
    obtain ⟨htotal, hnonneg, hothers⟩ := redistributeAsset_spec hbundles
      (hzero key (by simp)) (hentries (key, quantities) (by simp))
    have hrestZero : ∀ id ∈ rest.map Prod.fst,
        ∀ bundle ∈ redistributeAsset bundles (key, quantities), bundle.amount (.asset id) = 0 := by
      intro id hid
      have hne : id ≠ key := by
        rintro rfl
        exact hkeys.1 hid
      exact hothers id hne (hzero id (by simp [hid]))
    obtain ⟨hlovelace, hassets, hfinal⟩ := ih hkeys.2 hnonneg hrestZero
      (fun entry hentry => hentries entry (by simp [hentry]))
    rw [List.foldl_cons]
    refine ⟨?_, ?_, hfinal⟩
    · rw [hlovelace, htotal, if_neg (by simp), add_zero]
    · intro id
      rw [hassets, htotal]
      by_cases hid : id = key
      · subst hid
        have hlookup : JsMap.lookup id rest = none := JsMap.lookup_eq_none.mpr hkeys.1
        simp [JsMap.lookup, hlookup]
      · simp [JsMap.lookup, hid]

theorem sum_filter_ne_zero (quantities : List ℤ) :
    (quantities.filter (fun q => q ≠ 0)).sum = quantities.sum := by
  induction quantities with
  | nil => rfl
  | cons q rest ih =>
    by_cases hq : q = 0
    · simpa [hq] using ih
    · simpa [hq] using ih

theorem redistributeLeftoverAssets_total
    (hrequest : ChangeRequest outputValues uniqueTxAssetIDs implicitValue)
    (hselected : ∀ value ∈ toValues utxoSelected, value.Nonneg)
    (h : RequestedChange utxoSelected outputValues uniqueTxAssetIDs implicitValue fee bundles) :
    (∀ token, total token (redistributeLeftoverAssets utxoSelected bundles uniqueTxAssetIDs) +
        requestedAmount outputValues implicitValue fee token =
          selectedAmount utxoSelected implicitValue token) ∧
      (∀ bundle ∈ redistributeLeftoverAssets utxoSelected bundles uniqueTxAssetIDs,
        bundle.Nonneg) := by
  have hleftovers := leftoversOf_getLeftoverAssets utxoSelected uniqueTxAssetIDs
  have hentries : ∀ entry ∈ (getLeftoverAssets utxoSelected uniqueTxAssetIDs).entries,
      ∀ quantity ∈ entry.2, 0 ≤ quantity := by
    intro entry hentry quantity hquantity
    have hget := JsMap.get?_eq_some_iff.mpr hentry
    have hid := hleftovers entry.1
    rw [leftoversOf, hget, Option.getD_some] at hid
    rw [hid] at hquantity
    split at hquantity
    · cases hquantity
    · obtain ⟨value, hvalue, rfl⟩ := List.mem_map.mp (List.mem_filter.mp hquantity).1
      exact hselected value hvalue _
  obtain ⟨hlovelace, hassets, hnonneg⟩ := redistributeAssets_spec
    (getLeftoverAssets utxoSelected uniqueTxAssetIDs).nodup h.nonneg
    (fun id hid => h.outside id (not_mem_unique_of_leftover hid)) hentries
  refine ⟨?_, hnonneg⟩
  intro token
  cases token with
  | lovelace =>
    rw [redistributeLeftoverAssets, hlovelace]
    exact h.totals .lovelace (by simp)
  | asset id =>
    have hquantities : (JsMap.lookup id
        (getLeftoverAssets utxoSelected uniqueTxAssetIDs).entries).getD [] = _ := hleftovers id
    rw [redistributeLeftoverAssets, hassets, hquantities]
    by_cases hid : id ∈ uniqueTxAssetIDs
    · have htotals := h.totals (.asset id) (by
        intro id' heq
        cases heq
        exact hid)
      simpa [hid] using htotals
    · obtain ⟨houtputs, hspent, hinput⟩ := hrequest.outside id hid
      have hbundles : total (.asset id) bundles = 0 := by
        apply List.sum_eq_zero
        intro amount hamount
        obtain ⟨bundle, hbundle, rfl⟩ := List.mem_map.mp hamount
        exact h.outside id hid bundle hbundle
      rw [if_neg hid, sum_filter_ne_zero, hbundles]
      simp only [requestedAmount, selectedAmount, feeAmount, houtputs, hspent, hinput]
      simp [total]

end CardanoSdk.InputSelection
