import CardanoSdk.InputSelection.FeeCoverage

/-!
Every change output is one the ledger accepts: coalescing runs until each bundle reaches
its minimum coin, and splitting gives every piece its own.
-/

namespace CardanoSdk.InputSelection

open Lib

/-- The minimum coin of an output does not depend on the coin in it. -/
def IgnoresCoins (computeMinimumCoinQuantity : TxOut → ℤ) : Prop :=
  ∀ address assets coins coins',
    computeMinimumCoinQuantity
        { address := address, value := { assets := assets, coins := coins } } =
      computeMinimumCoinQuantity
        { address := address, value := { assets := assets, coins := coins' } }

def Value.ListsPositive (value : Value) : Prop :=
  ∀ assets ∈ value.assets, assets.All (fun q => 0 < q)

/-- The output has its minimum coin, no zero or negative quantity, and a token
bundle within the limit. -/
structure ValidChangeOutput (constraints : SelectionConstraints) (output : TxOut) : Prop where
  minimumCoin : constraints.computeMinimumCoinQuantity output ≤ output.value.coins
  positive : output.value.ListsPositive
  bundleSize : ∀ assets ∈ output.value.assets,
    constraints.tokenBundleSizeExceedsLimit assets = false

theorem positiveAssets_listsPositive (value : Value) : value.positiveAssets.ListsPositive := by
  intro assets hassets entry hentry
  simp only [Value.positiveAssets, Option.mem_def, Option.map_eq_some_iff] at hassets
  obtain ⟨original, _, rfl⟩ := hassets
  exact of_decide_eq_true (List.mem_filter.mp hentry).2

theorem coalesceTokenMaps_positive {totals : List (Option TokenMap)}
    (h : ∀ assets, some assets ∈ totals → assets.All (fun q => 0 < q)) :
    ∀ assets ∈ coalesceTokenMaps totals, assets.All (fun q => 0 < q) := by
  have hfold : ((totals.filterMap (fun t => t)).foldl
      (fun acc assetTotals => acc.addEntries assetTotals.entries)
        (JsMap.empty : TokenMap)).All (fun q => 0 < q) := by
    refine List.foldlRecOn _ _ (motive := fun acc : TokenMap => acc.All (fun q => 0 < q))
      (JsMap.All.empty _) ?_
    intro acc hacc assets hassets
    refine hacc.addEntries (fun a b ha hb => by omega) (h assets ?_)
    simpa [List.mem_filterMap] using hassets
  intro assets hassets
  unfold coalesceTokenMaps at hassets
  dsimp only at hassets
  split at hassets
  · cases hassets
  · cases hassets
    exact hfold

theorem coalesceValueQuantities_pair_listsPositive {first second : Value}
    (hfirst : first.ListsPositive) (hsecond : second.ListsPositive) :
    (coalesceValueQuantities [first, second]).ListsPositive := by
  refine coalesceTokenMaps_positive ?_
  intro assets hassets
  simp only [List.map_cons, List.map_nil, List.mem_cons, List.not_mem_nil, or_false] at hassets
  rcases hassets with heq | heq
  · exact hfirst assets heq.symm
  · exact hsecond assets heq.symm

theorem splitTokenMap_positive (tokenBundleSizeExceedsLimit : TokenMap → Bool) {assets : TokenMap}
    (h : assets.All (fun q => 0 < q)) :
    ∀ piece ∈ splitTokenMap tokenBundleSizeExceedsLimit assets, piece.All (fun q => 0 < q) := by
  set split := assets.entries.foldl (fun (acc : List TokenMap × TokenMap) entry =>
    let next := acc.2.set entry.1 entry.2
    if tokenBundleSizeExceedsLimit next && next.size > 1 then
      (acc.1 ++ [next.delete entry.1], JsMap.empty.set entry.1 entry.2)
    else (acc.1, next)) (([] : List TokenMap), (JsMap.empty : TokenMap)) with hsplit
  have hinvariant : ∀ piece ∈ split.1 ++ [split.2], piece.All (fun q => 0 < q) := by
    rw [hsplit]
    refine List.foldlRecOn assets.entries _ (motive := fun acc : List TokenMap × TokenMap =>
      ∀ piece ∈ acc.1 ++ [acc.2], piece.All (fun q => 0 < q)) ?_ ?_
    · simp only [List.nil_append, List.mem_singleton, forall_eq]
      exact JsMap.All.empty _
    · intro acc hacc entry hentry
      simp only [List.mem_append, List.mem_singleton, or_imp, forall_and, forall_eq] at hacc
      have hnext := hacc.2.set entry.1 (h entry hentry)
      dsimp only
      split
      · simp only [List.mem_append, List.mem_singleton, or_imp, forall_and, forall_eq]
        exact ⟨⟨hacc.1, hnext.filter _⟩, (JsMap.All.empty _).set entry.1 (h entry hentry)⟩
      · simp only [List.mem_append, List.mem_singleton, or_imp, forall_and, forall_eq]
        exact ⟨hacc.1, hnext⟩
  exact hinvariant

variable {values changeBundles result : List Value} {computed : ChangeComputationResult}

variable {p : Value → Bool} {index : ℕ} {σ : Type} {params : InputSelectionParameters}

theorem satisfies_of_lastIndexFailing (h : lastIndexFailing p values = none) :
    ∀ value ∈ values, p value = true := by
  induction values with
  | nil => simp
  | cons value rest ih =>
    unfold lastIndexFailing at h
    split at h
    · cases h
    · rename_i hrest
      split at h
      · rename_i hvalue
        simp only [List.mem_cons, forall_eq_or_imp]
        exact ⟨hvalue, ih hrest⟩
      · cases h

theorem lastIndexFailing_lt (h : lastIndexFailing p values = some index) :
    index < values.length := by
  induction values generalizing index with
  | nil => cases h
  | cons value rest ih =>
    unfold lastIndexFailing at h
    split at h
    · rename_i hrest
      cases h
      have hlt := ih hrest
      simp only [List.length_cons]
      omega
    · split at h
      · cases h
      · cases h
        simp

theorem length_mergeWithSmallestBundle (hindex : index < values.length)
    (hlength : 1 < values.length) :
    (mergeWithSmallestBundle values index).length + 1 = values.length := by
  unfold mergeWithSmallestBundle
  rw [List.getElem?_eq_getElem hindex]
  dsimp only
  have herase : (values.eraseIdx index).length = values.length - 1 :=
    List.length_eraseIdx_of_lt hindex
  split
  · rename_i hnone
    have hnil := List.getLast?_eq_none_iff.mp hnone
    rw [hnil] at herase
    simp only [List.length_nil] at herase
    omega
  · rw [(perm_orderByCoinsDesc _).length_eq]
    simp only [List.length_append, List.length_dropLast, List.length_cons, List.length_nil, herase]
    omega

/-- As many rounds as there are bundles suffice for the loop to end by itself. -/
theorem coalesceRounds_settled (computeMinimumCoinQuantity : TxOut → ℤ) {rounds : ℕ}
    (h : values.length ≤ rounds) :
    (coalesceRounds computeMinimumCoinQuantity rounds values).length ≤ 1 ∨
      ∀ value ∈ coalesceRounds computeMinimumCoinQuantity rounds values,
        satisfiesMinCoinRequirement computeMinimumCoinQuantity value = true := by
  induction rounds generalizing values with
  | zero =>
    left
    simp only [coalesceRounds]
    omega
  | succ rounds ih =>
    unfold coalesceRounds
    split
    · rename_i hlength
      split
      · rename_i hnone
        exact Or.inr (satisfies_of_lastIndexFailing hnone)
      · rename_i index hsome
        have hmerged := length_mergeWithSmallestBundle (lastIndexFailing_lt hsome) hlength
        exact ih (by omega)
    · left
      omega

theorem coalesceChangeBundles_valid {computeMinimumCoinQuantity : TxOut → ℤ}
    (h : coalesceChangeBundlesForMinCoinRequirement changeBundles computeMinimumCoinQuantity =
      some result) :
    ∀ bundle ∈ result, bundle.ListsPositive ∧
      satisfiesMinCoinRequirement computeMinimumCoinQuantity bundle = true := by
  unfold coalesceChangeBundlesForMinCoinRequirement at h
  split at h
  · rename_i hlength
    cases h
    rw [List.length_eq_zero_iff.mp hlength]
    simp
  · dsimp only at h
    set sorted := orderByCoinsDesc (changeBundles.map Value.positiveAssets) with hsorted
    have hsortedPositive : ∀ bundle ∈ sorted, bundle.ListsPositive := by
      intro bundle hbundle
      rw [hsorted, (perm_orderByCoinsDesc _).mem_iff] at hbundle
      obtain ⟨original, _, rfl⟩ := List.mem_map.mp hbundle
      exact positiveAssets_listsPositive original
    have hpositive := forall_mem_coalesceRounds
      (fun _ _ => coalesceValueQuantities_pair_listsPositive) computeMinimumCoinQuantity
      sorted.length hsortedPositive
    have hsettled := coalesceRounds_settled computeMinimumCoinQuantity (le_refl sorted.length)
    split at h
    · cases h
    · rename_i first hfirst
      split at h
      · rename_i hmin
        cases h
        intro bundle hbundle
        have hmem := (List.mem_filter.mp hbundle).1
        refine ⟨hpositive bundle hmem, ?_⟩
        rcases hsettled with hone | hall
        · -- the only bundle left is the one the function tested
          obtain ⟨rest, hcons⟩ := List.head?_eq_some_iff.mp hfirst
          rw [hcons] at hmem hone
          have hrest : rest = [] := List.length_eq_zero_iff.mp (by simpa using hone)
          rw [hrest, List.mem_singleton] at hmem
          rw [hmem]
          exact hmin
        · exact hall bundle hmem
      · cases h

variable {computeMinimumCoinQuantity : TxOut → ℤ} {tokenBundleSizeExceedsLimit : TokenMap → Bool}

theorem splitBundle_valid (hmin : IgnoresCoins computeMinimumCoinQuantity) {bundle : Value}
    (hpositive : bundle.ListsPositive)
    (hcoin : satisfiesMinCoinRequirement computeMinimumCoinQuantity bundle = true)
    {pieces : List Value}
    (h : splitBundle computeMinimumCoinQuantity tokenBundleSizeExceedsLimit bundle = .ok pieces) :
    ∀ piece ∈ pieces, piece.ListsPositive ∧
      satisfiesMinCoinRequirement computeMinimumCoinQuantity piece = true := by
  have hsame : ∀ piece ∈ [bundle], piece.ListsPositive ∧
      satisfiesMinCoinRequirement computeMinimumCoinQuantity piece = true := by
    simp only [List.mem_singleton, forall_eq]
    exact ⟨hpositive, hcoin⟩
  unfold splitBundle at h
  split at h
  · cases h
    exact hsame
  · rename_i assets hassets
    split at h
    · cases h
      exact hsame
    · dsimp only at h
      set newValues := (splitTokenMap tokenBundleSizeExceedsLimit assets).map (fun piece =>
        ({ assets := some piece
           coins := computeMinimumCoinQuantity
             { address := stubMaxSizeAddress
               value := { assets := some piece, coins := 0 } } } : Value)) with hnew
      -- a piece may hold more than its minimum coin
      have hpieces : ∀ value ∈ newValues, ∀ surplus : ℤ, 0 ≤ surplus →
          Value.ListsPositive { value with coins := value.coins + surplus } ∧
            satisfiesMinCoinRequirement computeMinimumCoinQuantity
              { value with coins := value.coins + surplus } = true := by
        intro value hvalue surplus hsurplus
        rw [hnew] at hvalue
        obtain ⟨piece, hpiece, rfl⟩ := List.mem_map.mp hvalue
        constructor
        · intro listed hlisted
          cases hlisted
          exact splitTokenMap_positive tokenBundleSizeExceedsLimit (hpositive assets hassets)
            piece hpiece
        · simp only [satisfiesMinCoinRequirement, ge_iff_le, decide_eq_true_eq]
          rw [hmin _ (some piece) _ 0]
          omega
      split at h
      · cases h
      · rename_i henough
        have hkept : ∀ value ∈ newValues, value.ListsPositive ∧
            satisfiesMinCoinRequirement computeMinimumCoinQuantity value = true := by
          intro value hvalue
          simpa using hpieces value hvalue 0 le_rfl
        rcases hcons : newValues with _ | ⟨first, rest⟩
        · simp only [hcons] at h
          cases h
          simp
        · simp only [hcons] at h henough hkept hpieces
          cases h
          simp only [List.mem_cons, forall_eq_or_imp] at hkept ⊢
          exact ⟨hpieces first (by simp) _ (by omega), hkept.2⟩

theorem splitChange_valid (hmin : IgnoresCoins computeMinimumCoinQuantity)
    (hvalid : ∀ bundle ∈ changeBundles, bundle.ListsPositive ∧
      satisfiesMinCoinRequirement computeMinimumCoinQuantity bundle = true)
    (h : splitChangeIfTokenBundlesSizeExceedsLimit changeBundles computeMinimumCoinQuantity
      tokenBundleSizeExceedsLimit = .ok result) :
    ∀ bundle ∈ result, bundle.ListsPositive ∧
      satisfiesMinCoinRequirement computeMinimumCoinQuantity bundle = true := by
  refine foldlM_ok_invariant (fun acc : List Value => ∀ bundle ∈ acc, bundle.ListsPositive ∧
    satisfiesMinCoinRequirement computeMinimumCoinQuantity bundle = true) _ _ (by simp) ?_ h
  intro acc bundle hbundle hacc acc' hstep
  obtain ⟨pieces, hpieces, hpure⟩ := bind_ok hstep
  cases hpure
  obtain ⟨hpositive, hcoin⟩ := hvalid bundle hbundle
  intro piece hpiece
  rcases List.mem_append.mp hpiece with hold | hnew
  · exact hacc piece hold
  · exact splitBundle_valid hmin hpositive hcoin hpieces piece hnew

theorem validateChangeBundles_size
    (h : validateChangeBundles changeBundles tokenBundleSizeExceedsLimit = .ok result) :
    ∀ bundle ∈ changeBundles, ∀ assets ∈ bundle.assets,
      tokenBundleSizeExceedsLimit assets = false := by
  unfold validateChangeBundles at h
  dsimp only at h
  split at h
  · cases h
  · rename_i hany
    intro bundle hbundle assets hassets
    rw [Bool.not_eq_true, List.any_eq_false] at hany
    have hfits := hany bundle hbundle
    rw [Option.mem_def.mp hassets] at hfits
    simpa using hfits

theorem BundlesAccepted.valid {args : ChangeComputationArgs σ} {utxoSelected : List Utxo}
    {fee : ℤ} {bundles : List Value} (h : BundlesAccepted args utxoSelected fee bundles)
    (hmin : IgnoresCoins args.computeMinimumCoinQuantity) :
    ∀ bundle ∈ bundles, bundle.ListsPositive ∧
      satisfiesMinCoinRequirement args.computeMinimumCoinQuantity bundle = true ∧
      ∀ assets ∈ bundle.assets, args.tokenBundleSizeExceedsLimit assets = false := by
  obtain ⟨hcomputed, hvalidated⟩ := h
  unfold computeChangeBundles at hcomputed
  obtain ⟨requested, _, hcomputed⟩ := bind_ok hcomputed
  dsimp only at hcomputed
  split at hcomputed
  · cases hcomputed
  · rename_i coalesced hcoalesced
    obtain ⟨adjusted, hadjusted, hpure⟩ := bind_ok hcomputed
    cases hpure
    have hvalid := splitChange_valid hmin (coalesceChangeBundles_valid hcoalesced) hadjusted
    intro bundle hbundle
    obtain ⟨hpositive, hcoin⟩ := hvalid bundle hbundle
    exact ⟨hpositive, hcoin, validateChangeBundles_size hvalidated bundle hbundle⟩

theorem computeChangeAndAdjustForFee_valid {args : ChangeComputationArgs σ}
    {constraints : SelectionConstraints} {fuel : ℕ} {selection : UtxoSelection} {state : σ}
    (hcoin : args.computeMinimumCoinQuantity = constraints.computeMinimumCoinQuantity)
    (hsize : args.tokenBundleSizeExceedsLimit = constraints.tokenBundleSizeExceedsLimit)
    (hmin : IgnoresCoins constraints.computeMinimumCoinQuantity)
    (h : computeChangeAndAdjustForFee args fuel selection state = .ok computed) :
    ∀ output ∈ toChangeOutputs computed.change, ValidChangeOutput constraints output := by
  obtain ⟨_, final, _, _, hadjusted⟩ := computeChangeAndAdjustForFee_tried h
  intro output houtput
  obtain ⟨bundle, hbundle, rfl⟩ := List.mem_map.mp houtput
  obtain ⟨hpositive, hreached, hfits⟩ := hadjusted.change.valid (hcoin ▸ hmin) bundle hbundle
  rw [hcoin] at hreached
  rw [hsize] at hfits
  exact ⟨by simpa [satisfiesMinCoinRequirement] using hreached, hpositive, hfits⟩

theorem roundRobinComputed_valid {random : ℕ → ℚ}
    (hmin : IgnoresCoins params.constraints.computeMinimumCoinQuantity)
    (h : roundRobinComputed random params = .ok computed) :
    ∀ output ∈ (unresolvedSelection params computed).change,
      ValidChangeOutput params.constraints output := by
  obtain ⟨call, hcall, hrun⟩ := bind_ok h
  obtain ⟨hargs, _⟩ := roundRobinAdjustment_ok hcall
  have hcoin : (call.argsWith params.constraints.computeMinimumCost).computeMinimumCoinQuantity =
      params.constraints.computeMinimumCoinQuantity := by
    rw [FeeAdjustment.argsWith, hargs]
    rfl
  have hsize : (call.argsWith params.constraints.computeMinimumCost).tokenBundleSizeExceedsLimit =
      params.constraints.tokenBundleSizeExceedsLimit := by
    rw [FeeAdjustment.argsWith, hargs]
    rfl
  exact computeChangeAndAdjustForFee_valid hcoin hsize hmin hrun

theorem largeFirstComputed_valid
    (hmin : IgnoresCoins params.constraints.computeMinimumCoinQuantity)
    (h : largeFirstComputed params = .ok computed) :
    ∀ output ∈ (unresolvedSelection params computed).change,
      ValidChangeOutput params.constraints output := by
  obtain ⟨call, hcall, hrun⟩ := bind_ok h
  obtain ⟨⟨requiredAssets, hargs⟩, _⟩ := largeFirstAdjustment_ok hcall
  have hcoin : (call.argsWith params.constraints.computeMinimumCost).computeMinimumCoinQuantity =
      params.constraints.computeMinimumCoinQuantity := by
    rw [FeeAdjustment.argsWith, hargs]
    rfl
  have hsize : (call.argsWith params.constraints.computeMinimumCost).tokenBundleSizeExceedsLimit =
      params.constraints.tokenBundleSizeExceedsLimit := by
    rw [FeeAdjustment.argsWith, hargs]
    rfl
  exact computeChangeAndAdjustForFee_valid hcoin hsize hmin hrun

/-- When a round-robin or large-first selection resolves, the change its
resolver was given consists of valid outputs. -/
theorem selectors_change_valid {params : InputSelectionParameters} (random : ℕ → ℚ)
    (changeAddressResolver : ChangeAddressResolver)
    (hmin : IgnoresCoins params.constraints.computeMinimumCoinQuantity) :
    (∀ result, roundRobinRandomImprove changeAddressResolver random params = .ok result →
      ∃ computed, roundRobinComputed random params = .ok computed ∧
        roundRobinFinish changeAddressResolver params computed = .ok result ∧
        ∀ output ∈ (unresolvedSelection params computed).change,
          ValidChangeOutput params.constraints output) ∧
    (∀ result, largeFirstSelect changeAddressResolver params = .ok result →
      ∃ computed, largeFirstComputed params = .ok computed ∧
        largeFirstFinish changeAddressResolver params computed = .ok result ∧
        ∀ output ∈ (unresolvedSelection params computed).change,
          ValidChangeOutput params.constraints output) := by
  constructor
  · intro result h
    rw [roundRobinRandomImprove_eq] at h
    obtain ⟨computed, hcomputed, hfinish⟩ := bind_ok h
    exact ⟨computed, hcomputed, hfinish, roundRobinComputed_valid hmin hcomputed⟩
  · intro result h
    rw [largeFirstSelect_eq] at h
    obtain ⟨computed, hcomputed, hfinish⟩ := bind_ok h
    exact ⟨computed, hcomputed, hfinish, largeFirstComputed_valid hmin hcomputed⟩

/-- Three assets come in and one of them is requested, with room for one asset
in a bundle and a minimum coin that grows with the bundle. -/
def crowdedRequest : InputSelectionParameters where
  preSelectedUtxo := JsSet.ofList []
  utxo := JsSet.ofList [
    utxoOf 0 { coins := 40, assets := some (JsMap.ofList [([1], 5), ([2], 7), ([3], 9)]) }]
  outputs := [outputOf { coins := 10, assets := some (JsMap.ofList [([1], 2)]) }]
  constraints := {
    computeMinimumCost := fun _ => .ok { fee := 3 }
    tokenBundleSizeExceedsLimit := fun assets => decide (assets.size > 1)
    computeMinimumCoinQuantity := fun output => 2 + assetsSize output.value.assets
    computeSelectionLimit := fun _ => .ok 10 }

theorem selectors_change_valid_crowded :
    (∃ result computed,
      roundRobinRandomImprove keepAddresses (fun _ => 0) crowdedRequest = .ok result ∧
      roundRobinComputed (fun _ => 0) crowdedRequest = .ok computed ∧ computed.change.length = 3 ∧
      ∀ output ∈ (unresolvedSelection crowdedRequest computed).change,
        ValidChangeOutput crowdedRequest.constraints output) ∧
    (∃ result computed, largeFirstSelect keepAddresses crowdedRequest = .ok result ∧
      largeFirstComputed crowdedRequest = .ok computed ∧ computed.change.length = 3 ∧
      ∀ output ∈ (unresolvedSelection crowdedRequest computed).change,
        ValidChangeOutput crowdedRequest.constraints output) := by
  have hmin : IgnoresCoins crowdedRequest.constraints.computeMinimumCoinQuantity := by
    intro address assets coins coins'
    rfl
  obtain ⟨hroundRobin, hlargeFirst⟩ :=
    @selectors_change_valid crowdedRequest (fun _ => 0) keepAddresses hmin
  have hrr : okAnd (fun result => result.selection.change.length = 3)
      (roundRobinRandomImprove keepAddresses (fun _ => 0) crowdedRequest) = true := by
    decide +kernel
  have hlf : okAnd (fun result => result.selection.change.length = 3)
      (largeFirstSelect keepAddresses crowdedRequest) = true := by
    decide
  obtain ⟨first, hfirst, _⟩ := okAnd_iff.mp hrr
  obtain ⟨second, hsecond, _⟩ := okAnd_iff.mp hlf
  obtain ⟨computed, hcomputed, _, hvalid⟩ := hroundRobin first hfirst
  obtain ⟨computed', hcomputed', _, hvalid'⟩ := hlargeFirst second hsecond
  have hlength : okAnd (fun computed => computed.change.length = 3)
      (roundRobinComputed (fun _ => 0) crowdedRequest) = true := by
    decide +kernel
  have hlength' : okAnd (fun computed => computed.change.length = 3)
      (largeFirstComputed crowdedRequest) = true := by
    decide
  rw [hcomputed] at hlength
  rw [hcomputed'] at hlength'
  exact ⟨⟨first, computed, hfirst, hcomputed, of_decide_eq_true hlength, hvalid⟩,
    ⟨second, computed', hsecond, hcomputed', of_decide_eq_true hlength', hvalid'⟩⟩

end CardanoSdk.InputSelection
