import CardanoSdk.InputSelection.DistinctInputs

/-!
The conditions of `DistinctInputs` cannot be weakened. The runs are forced through the
fee: it is prohibitive until a goal is selected, and zero from then on.
-/

namespace CardanoSdk.InputSelection

open Lib

/-- Nothing is constrained but the fee, which stays prohibitive until all of
`goal` is selected. -/
def forcingConstraints (goal : List Utxo) (prohibitive : ℤ) (limit : ℕ) : SelectionConstraints where
  computeMinimumCost := fun selection =>
    .ok { fee := if goal.all (fun u => u ∈ selection.inputs.toList) then 0 else prohibitive }
  tokenBundleSizeExceedsLimit := fun _ => false
  computeMinimumCoinQuantity := fun out => out.value.coins
  computeSelectionLimit := fun _ => .ok limit

theorem computeRequestedAssetChangeBundles_nil (utxoSelected : List Utxo)
    (uniqueTxAssetIDs : List AssetId) (implicitValue : RequiredImplicitValue) (fee : ℤ) :
    ∃ bundles, computeRequestedAssetChangeBundles utxoSelected [] uniqueTxAssetIDs implicitValue
      fee = .ok bundles := by
  unfold computeRequestedAssetChangeBundles
  dsimp only
  refine foldlM_exists_ok ?_ _
  intro bundles id hid
  have hget := get?_computeAssetTotals utxoSelected [] uniqueTxAssetIDs implicitValue id fee
  rw [if_pos hid] at hget
  rw [hget]
  exact ⟨_, rfl⟩

theorem lastIndexFailing_eq_none {p : Value → Bool} {values : List Value}
    (h : ∀ value ∈ values, p value = true) : lastIndexFailing p values = none := by
  induction values with
  | nil => rfl
  | cons value rest ih =>
    rw [lastIndexFailing, ih (fun v hv => h v (by simp [hv]))]
    simp [h value (by simp)]

theorem coalesceChangeBundles_exists {computeMinimumCoinQuantity : TxOut → ℤ}
    (h : ∀ value, satisfiesMinCoinRequirement computeMinimumCoinQuantity value = true)
    (changeBundles : List Value) :
    ∃ result, coalesceChangeBundlesForMinCoinRequirement changeBundles
      computeMinimumCoinQuantity = some result := by
  have hrounds (rounds : ℕ) (values : List Value) :
      coalesceRounds computeMinimumCoinQuantity rounds values = values := by
    cases rounds with
    | zero => rfl
    | succ rounds =>
      unfold coalesceRounds
      rw [lastIndexFailing_eq_none (fun value _ => h value)]
      split <;> rfl
  unfold coalesceChangeBundlesForMinCoinRequirement
  split
  · exact ⟨_, rfl⟩
  · rename_i hlength
    dsimp only
    rw [hrounds]
    cases hsorted : orderByCoinsDesc (changeBundles.map Value.positiveAssets) with
    | nil =>
      have hperm := perm_orderByCoinsDesc (changeBundles.map Value.positiveAssets)
      rw [hsorted] at hperm
      exact absurd (by simpa using hperm.symm.eq_nil) hlength
    | cons first rest =>
      simp only [List.head?_cons, h first, if_true]
      exact ⟨_, rfl⟩

theorem splitChange_of_small (computeMinimumCoinQuantity : TxOut → ℤ)
    (changeBundles : List Value) :
    splitChangeIfTokenBundlesSizeExceedsLimit changeBundles computeMinimumCoinQuantity
      (fun _ => false) = .ok changeBundles := by
  have hbundle (bundle : Value) :
      splitBundle computeMinimumCoinQuantity (fun _ => false) bundle = .ok [bundle] := by
    unfold splitBundle
    split
    · rfl
    · simp
  have hfold (done todo : List Value) : todo.foldlM (fun result bundle => do
      let pieces ← splitBundle computeMinimumCoinQuantity (fun _ => false) bundle
      pure (result ++ pieces)) done = .ok (done ++ todo) := by
    induction todo generalizing done with
    | nil => simp [pure, Except.pure]
    | cons bundle rest ih =>
      have hrest := ih (done ++ [bundle])
      rw [List.append_assoc] at hrest
      rw [List.foldlM_cons, hbundle]
      exact hrest
  exact hfold [] changeBundles

theorem validateChangeBundles_of_small (changeBundles : List Value) :
    validateChangeBundles changeBundles (fun _ => false) = .ok changeBundles := by
  unfold validateChangeBundles
  dsimp only
  rw [if_neg]
  simp only [List.any_eq_true, not_exists, not_and]
  intro bundle _
  cases bundle.assets <;> simp

section Forced

variable {σ : Type} {args : ChangeComputationArgs σ}

theorem computeChangeBundles_exists (houtputs : args.outputValues = [])
    (hmin : args.computeMinimumCoinQuantity = fun out => out.value.coins)
    (hsize : args.tokenBundleSizeExceedsLimit = fun _ => false) (utxoSelected : List Utxo)
    (fee : ℤ) : ∃ bundles, computeChangeBundles args utxoSelected fee = .ok (some bundles) := by
  obtain ⟨requested, hrequested⟩ := computeRequestedAssetChangeBundles_nil utxoSelected
    args.uniqueTxAssetIDs args.implicitValue fee
  obtain ⟨coalesced, hcoalesced⟩ := @coalesceChangeBundles_exists (fun out => out.value.coins)
    (fun value => by simp [satisfiesMinCoinRequirement])
    (redistributeLeftoverAssets utxoSelected requested args.uniqueTxAssetIDs)
  refine ⟨coalesced, ?_⟩
  unfold computeChangeBundles
  rw [houtputs, hrequested, hmin, hsize]
  simp only [bind, Except.bind, hcoalesced, splitChange_of_small]
  rfl

/-- A fee that is prohibitive until the goal is selected drives the picking to
the goal, and stops it there. -/
theorem computeChangeAndAdjustForFee_forced (houtputs : args.outputValues = [])
    (hmin : args.computeMinimumCoinQuantity = fun out => out.value.coins)
    (hsize : args.tokenBundleSizeExceedsLimit = fun _ => false)
    {goal available : List Utxo} {prohibitive : ℤ}
    (hcost : ∀ utxoSelected bundles, args.estimateTxCosts utxoSelected bundles =
      .ok { fee := if goal.all (fun u => u ∈ utxoSelected) then 0 else prohibitive })
    (haffordable : ∀ selection : UtxoSelection, selection.Divides available →
      selectedAmount selection.utxoSelected args.implicitValue .lovelace <
          prohibitive + args.implicitValue.implicitCoin.deposit ∧
        args.implicitValue.implicitCoin.deposit ≤
          selectedAmount selection.utxoSelected args.implicitValue .lovelace)
    (hpick : ∀ (selection : UtxoSelection) state, selection.Divides available →
      selection.utxoRemaining ≠ [] →
      (args.pickAdditionalUtxo selection state).1.Divides available ∧
        (args.pickAdditionalUtxo selection state).1.utxoRemaining.length <
          selection.utxoRemaining.length)
    (hgoal : ∀ u ∈ goal, u ∈ available) {fuel : ℕ} {selection : UtxoSelection} {state : σ}
    (hdivides : selection.Divides available) (hfuel : selection.utxoRemaining.length < fuel) :
    ∃ result, computeChangeAndAdjustForFee args fuel selection state = .ok result ∧
      (∀ u ∈ goal, u ∈ result.inputs) ∧
      ((∀ u ∈ goal, u ∈ selection.utxoSelected) → result.inputs = selection.utxoSelected ∧
        result.remainingUTxO = selection.utxoRemaining) := by
  have hvalid (bundles : List Value) :
      validateChangeBundles bundles args.tokenBundleSizeExceedsLimit = .ok bundles := by
    rw [hsize]
    exact validateChangeBundles_of_small bundles
  induction fuel generalizing selection state with
  | zero => omega
  | succ fuel ih =>
    obtain ⟨bundles, hbundles⟩ := computeChangeBundles_exists houtputs hmin hsize
      selection.utxoSelected 0
    obtain ⟨hexpensive, hfree⟩ := haffordable selection hdivides
    have hcoins : getCoinQuantity args.outputValues = 0 := by rw [houtputs]; rfl
    simp only [selectedAmount, total_lovelace, RequiredImplicitValue.inputAmount] at hexpensive hfree
    unfold computeChangeAndAdjustForFee
    simp only [hbundles, hvalid, hcost, bind, Except.bind, hcoins]
    by_cases hreached : goal.all (fun u => u ∈ selection.utxoSelected) = true
    · have hselected : ∀ u ∈ goal, u ∈ selection.utxoSelected := by
        simpa using hreached
      rw [if_pos hreached, if_neg (by omega), hbundles]
      exact ⟨_, rfl, hselected, fun _ => ⟨rfl, rfl⟩⟩
    · have hremaining : selection.utxoRemaining ≠ [] := by
        intro hnil
        apply hreached
        simp only [List.all_eq_true, decide_eq_true_eq]
        intro u hu
        have hmem := (List.Perm.mem_iff hdivides).mpr (hgoal u hu)
        rw [hnil, List.append_nil] at hmem
        exact hmem
      have hlength : 0 < selection.utxoRemaining.length := List.length_pos_of_ne_nil hremaining
      obtain ⟨hnextDivides, hnextLength⟩ := hpick selection state hdivides hremaining
      obtain ⟨result, hresult, hinputs, _⟩ := @ih (args.pickAdditionalUtxo selection state).1
        (args.pickAdditionalUtxo selection state).2 hnextDivides (by omega)
      rw [if_neg hreached, if_pos (by omega), if_neg (by omega), if_pos hlength]
      refine ⟨result, hresult, hinputs, ?_⟩
      intro hselected
      exact absurd (by simpa using hselected) hreached

end Forced

/-- No part of the entries holds more coin than this, nor less than its negation. -/
def coinBound (available : List Utxo) : ℤ :=
  (available.map (fun u => |u.txOut.value.coins|)).sum

theorem coinBound_nonneg (available : List Utxo) : 0 ≤ coinBound available := by
  apply List.sum_nonneg
  intro amount hamount
  obtain ⟨utxo, _, rfl⟩ := List.mem_map.mp hamount
  exact abs_nonneg _

theorem abs_coins_le_coinBound (utxo : List Utxo) :
    |getCoinQuantity (toValues utxo)| ≤ coinBound utxo := by
  induction utxo with
  | nil => simp [getCoinQuantity, toValues, coinBound]
  | cons u rest ih =>
    simp only [getCoinQuantity, toValues, coinBound, List.map_cons, List.sum_cons] at ih ⊢
    exact (abs_add_le _ _).trans (by omega)

variable {selection : UtxoSelection} {available pool : List Utxo} {random : ℕ → ℚ}
  {computed : ChangeComputationResult}

theorem UtxoSelection.Divides.coins_bound (h : selection.Divides available) :
    -coinBound available ≤ getCoinQuantity (toValues selection.utxoSelected) ∧
      getCoinQuantity (toValues selection.utxoSelected) ≤ coinBound available := by
  have hperm : coinBound (selection.utxoSelected ++ selection.utxoRemaining) =
      coinBound available := (h.map _).sum_eq
  have happend : coinBound (selection.utxoSelected ++ selection.utxoRemaining) =
      coinBound selection.utxoSelected + coinBound selection.utxoRemaining := by
    simp [coinBound]
  have hremaining := coinBound_nonneg selection.utxoRemaining
  have habs := abs_le.mp (abs_coins_le_coinBound selection.utxoSelected)
  omega

variable {params : InputSelectionParameters}

theorem roundRobinRandomImprove_eq_ok {limit : ℕ} {args : PreProcessedArgs}
    (hargs : preProcessArgs params.preSelectedUtxo params.utxo params.outputs
      params.implicitValue = args)
    (hbalance : assertIsBalanceSufficient args.uniqueTxAssetIDs args.requiredUtxo args.utxo
      args.outputs args.implicitValue = .ok ())
    (hcomputed : computeChangeAndAdjustForFee (roundRobinChangeArgs params random args)
      ((roundRobinSelection args random).1.utxoRemaining.length + 1)
      (roundRobinSelection args random).1 (roundRobinSelection args random).2 = .ok computed)
    (hlimit : ∀ selection, params.constraints.computeSelectionLimit selection = .ok limit)
    (hlength : computed.inputs.length ≤ limit) :
    ∃ result, roundRobinRandomImprove keepAddresses random params = .ok result ∧
      result.selection.inputs = sortedInputSet (JsSet.ofList computed.inputs) ∧
      result.remainingUTxO = JsSet.ofList computed.remainingUTxO := by
  unfold roundRobinRandomImprove
  simp only [bind, Except.bind, hargs]
  rw [hbalance, hcomputed]
  simp only [keepAddresses, hlimit]
  rw [if_neg (by omega)]
  exact ⟨_, rfl, rfl, rfl⟩

theorem assertIsBalanceSufficient_nil {preSelectedUtxo utxo : List Utxo}
    {implicitValue : RequiredImplicitValue} (hne : preSelectedUtxo ++ utxo ≠ [])
    (hcoins : implicitValue.implicitCoin.deposit ≤
      getCoinQuantity (toValues (preSelectedUtxo ++ utxo)) + implicitValue.implicitCoin.input) :
    assertIsBalanceSufficient [] preSelectedUtxo utxo [] implicitValue = .ok () := by
  have hlength : 0 < (preSelectedUtxo ++ utxo).length := List.length_pos_of_ne_nil hne
  rw [List.length_append] at hlength
  have hswap : getCoinQuantity (toValues utxo ++ toValues preSelectedUtxo) =
      getCoinQuantity (toValues (preSelectedUtxo ++ utxo)) := by
    simp only [getCoinQuantity, toValues, List.map_append, List.sum_append]
    omega
  have hzero : getCoinQuantity (outputsToValues []) = 0 := rfl
  unfold assertIsBalanceSufficient assertIsCoinBalanceSufficient
  dsimp only
  rw [if_neg (by omega), hswap, hzero]
  simp only [List.any_nil, Bool.false_eq_true, if_false]
  rw [if_neg (by omega)]

theorem createPickAdditionalRandomUtxo_zero (hdivides : selection.Divides available)
    (hremaining : selection.utxoRemaining ≠ []) (drawn : ℕ) :
    (createPickAdditionalRandomUtxo (fun _ => 0) selection drawn).1.Divides available ∧
      (createPickAdditionalRandomUtxo (fun _ => 0) selection drawn).1.utxoRemaining.length <
        selection.utxoRemaining.length := by
  have hmoved : ∃ picked ∈ selection.utxoRemaining,
      (createPickAdditionalRandomUtxo (fun _ => 0) selection drawn).1 = selection.move picked := by
    unfold createPickAdditionalRandomUtxo
    dsimp only
    set pickFrom := if (selection.utxoRemaining.filter
        (fun u => u.txOut.value.assets.isNone)).length > 0
      then selection.utxoRemaining.filter (fun u => u.txOut.value.assets.isNone)
      else selection.utxoRemaining with hpickFrom
    have hpos : 0 < pickFrom.length := by
      rw [hpickFrom]
      split
      · assumption
      · exact List.length_pos_of_ne_nil hremaining
    have hindex : randomIndex (fun _ => 0) drawn pickFrom.length = 0 := by
      simp [randomIndex]
    have hsubset : ∀ u ∈ pickFrom, u ∈ selection.utxoRemaining := by
      rw [hpickFrom]
      split
      · exact fun u hu => (List.mem_filter.mp hu).1
      · exact fun u hu => hu
    rw [hindex, List.getElem?_eq_getElem hpos]
    exact ⟨pickFrom[0], hsubset _ (List.getElem_mem hpos), rfl⟩
  obtain ⟨picked, hpicked, heq⟩ := hmoved
  rw [heq]
  refine ⟨hdivides.move hpicked, ?_⟩
  have hless := List.length_erase_of_mem hpicked
  have hpos := List.length_pos_of_mem hpicked
  simp only [UtxoSelection.move]
  omega

theorem length_inputs_le {args : PreProcessedArgs} {fuel drawn : ℕ}
    (hcomputed : computeChangeAndAdjustForFee (roundRobinChangeArgs params random args) fuel
      (roundRobinSelection args random).1 drawn = .ok computed) :
    computed.inputs.length ≤ (args.requiredUtxo ++ args.utxo).length := by
  have hlengths := (roundRobin_computed_divides hcomputed).length_eq
  rw [List.length_append] at hlengths
  omega

section RoundRobin

variable (preSelectedUtxo utxo : JsSet Utxo)

def everythingRequest : InputSelectionParameters where
  preSelectedUtxo := preSelectedUtxo
  utxo := utxo
  outputs := []
  constraints := forcingConstraints (preSelectedUtxo.toList ++ utxo.toList)
    (2 * coinBound (preSelectedUtxo.toList ++ utxo.toList) + 1)
    (preSelectedUtxo.toList ++ utxo.toList).length
  implicitValue :=
    { coin := some { input := some (coinBound (preSelectedUtxo.toList ++ utxo.toList)) } }

/-- A request that the pre-selected entries satisfy exactly at the ideal target
of the loop, so that nothing more is picked. -/
def idleRequest : InputSelectionParameters where
  preSelectedUtxo := preSelectedUtxo
  utxo := utxo
  outputs := []
  constraints := forcingConstraints []
    (6 * coinBound (preSelectedUtxo.toList ++ utxo.toList) + 1)
    (preSelectedUtxo.toList ++ utxo.toList).length
  implicitValue :=
    { coin := some {
        input := some (4 * coinBound (preSelectedUtxo.toList ++ utxo.toList) -
          getCoinQuantity (toValues preSelectedUtxo.toList))
        deposit := some (2 * coinBound (preSelectedUtxo.toList ++ utxo.toList)) } }

variable {preSelectedUtxo utxo}

/-- A run whose fee is prohibitive until the needed entries are selected. It selects them,
and stays with what its loop selected if nothing is needed. -/
theorem roundRobin_forced {coin : ImplicitCoin} {available needed : List Utxo}
    {prohibitive input deposit : ℤ}
    (havailable : preSelectedUtxo.toList ++ utxo.toList = available)
    (hparams : params = ⟨preSelectedUtxo, utxo, [],
      forcingConstraints needed prohibitive available.length, { coin := some coin }⟩)
    (hne : available ≠ []) (hneeded : ∀ u ∈ needed, u ∈ available)
    (hinput : ({ coin := some coin } : ImplicitValue).required.implicitCoin.input = input)
    (hdeposit : ({ coin := some coin } : ImplicitValue).required.implicitCoin.deposit = deposit)
    (hfee : coinBound available + input < prohibitive + deposit)
    (hcovers : deposit + coinBound available ≤ input)
    {selected : UtxoSelection} (hselected : (roundRobinSelection (preProcessArgs preSelectedUtxo
      utxo [] params.implicitValue) (fun _ => 0)).1 = selected) :
    ∃ result, roundRobinRandomImprove keepAddresses (fun _ => 0) params = .ok result ∧
      (∀ u ∈ needed, u ∈ result.selection.inputs.toList) ∧
      (needed = [] → (∀ u ∈ selected.utxoSelected, u ∈ result.selection.inputs.toList) ∧
        ∀ u ∈ selected.utxoRemaining, u ∈ result.remainingUTxO.toList) := by
  subst hparams hselected havailable
  set implicitValue : ImplicitValue := { coin := some coin } with himplicit
  set args := preProcessArgs preSelectedUtxo utxo [] implicitValue with hargs
  have hbalance : assertIsBalanceSufficient args.uniqueTxAssetIDs args.requiredUtxo args.utxo
      args.outputs args.implicitValue = .ok () := by
    have hcoins := abs_le.mp (abs_coins_le_coinBound (preSelectedUtxo.toList ++ utxo.toList))
    refine assertIsBalanceSufficient_nil hne (le_of_eq_of_le hdeposit ?_)
    change deposit ≤ getCoinQuantity (toValues (preSelectedUtxo.toList ++ utxo.toList)) +
      implicitValue.required.implicitCoin.input
    omega
  have haffordable (selection : UtxoSelection)
      (hdivides : selection.Divides (preSelectedUtxo.toList ++ utxo.toList)) :
      selectedAmount selection.utxoSelected args.implicitValue .lovelace <
          prohibitive + args.implicitValue.implicitCoin.deposit ∧
        args.implicitValue.implicitCoin.deposit ≤
          selectedAmount selection.utxoSelected args.implicitValue .lovelace := by
    have hcoins := hdivides.coins_bound
    have hargsDeposit : args.implicitValue.implicitCoin.deposit = deposit := hdeposit
    have hargsInput : args.implicitValue.implicitCoin.input = input := hinput
    simp only [selectedAmount, total_lovelace, RequiredImplicitValue.inputAmount, hargsDeposit,
      hargsInput]
    omega
  have hcost (utxoSelected : List Utxo) (bundles : List Value) : (roundRobinChangeArgs
      ⟨preSelectedUtxo, utxo, [], forcingConstraints needed prohibitive
        (preSelectedUtxo.toList ++ utxo.toList).length, implicitValue⟩ (fun _ => 0)
      args).estimateTxCosts utxoSelected bundles =
        .ok { fee := if needed.all (fun u => u ∈ utxoSelected) then 0 else prohibitive } := by
    simp [roundRobinChangeArgs, estimateTxCostsWith, forcingConstraints]
  obtain ⟨computed, hcomputed, hgoal, hstays⟩ := computeChangeAndAdjustForFee_forced rfl rfl rfl
    hcost haffordable
    (fun selection state hdivides hremaining =>
      createPickAdditionalRandomUtxo_zero hdivides hremaining state)
    hneeded (roundRobinSelection_divides args (fun _ => 0)) (Nat.lt_succ_self _)
  obtain ⟨result, hok, hinputs, hremaining⟩ := roundRobinRandomImprove_eq_ok rfl hbalance hcomputed
    (fun _ => rfl) (length_inputs_le hcomputed)
  have hmem (u : Utxo) : u ∈ result.selection.inputs.toList ↔ u ∈ computed.inputs := by
    rw [hinputs, (perm_sortedInputSet _).mem_iff, JsSet.mem_ofList]
  refine ⟨result, hok, fun u hu => (hmem u).mpr (hgoal u hu), fun hnone => ?_⟩
  obtain ⟨hcomputedInputs, hcomputedRemaining⟩ := hstays (by simp [hnone])
  refine ⟨fun u hu => (hmem u).mpr (hcomputedInputs ▸ hu), fun u hu => ?_⟩
  rw [hremaining, JsSet.mem_ofList, hcomputedRemaining]
  exact hu

theorem roundRobin_selects_everything (hne : preSelectedUtxo.toList ++ utxo.toList ≠ []) :
    ∃ result, roundRobinRandomImprove keepAddresses (fun _ => 0)
        (everythingRequest preSelectedUtxo utxo) = .ok result ∧
      ∀ u ∈ preSelectedUtxo.toList ++ utxo.toList, u ∈ result.selection.inputs.toList := by
  set bound := coinBound (preSelectedUtxo.toList ++ utxo.toList) with hbound
  have hfee : bound + bound < 2 * bound + 1 + 0 := by omega
  obtain ⟨result, hok, hall, _⟩ := roundRobin_forced rfl
    (show everythingRequest preSelectedUtxo utxo = _ from rfl) hne (fun u hu => hu) rfl rfl hfee
    (zero_add bound).le rfl
  exact ⟨result, hok, hall⟩

theorem roundRobinSelection_idle (hpre : preSelectedUtxo.toList ≠ []) :
    (roundRobinSelection (preProcessArgs preSelectedUtxo utxo []
      (idleRequest preSelectedUtxo utxo).implicitValue) (fun _ => 0)).1 =
      { utxoSelected := preSelectedUtxo.toList, utxoRemaining := utxo.toList } := by
  set bound := coinBound (preSelectedUtxo.toList ++ utxo.toList) with hboundDef
  have hbound : 0 ≤ bound := coinBound_nonneg _
  set args := preProcessArgs preSelectedUtxo utxo []
    (idleRequest preSelectedUtxo utxo).implicitValue with hargs
  set token := roundRobinToken args.outputs args.implicitValue with htoken
  have htarget : (token .lovelace).minimumTarget = 2 * bound := by
    change 0 + 2 * bound = 2 * bound
    omega
  have hquantity : (token .lovelace).getTotalSelectedQuantity preSelectedUtxo.toList =
      2 * (2 * bound) := by
    change getCoinQuantity (toValues preSelectedUtxo.toList) +
      (4 * bound - getCoinQuantity (toValues preSelectedUtxo.toList)) = 2 * (2 * bound)
    omega
  have himproves (input : Utxo) : improvesSelection preSelectedUtxo.toList input
      (token .lovelace).minimumTarget (token .lovelace).getTotalSelectedQuantity = false := by
    unfold improvesSelection
    rw [htarget, hquantity]
    dsimp only
    rw [if_neg (by omega)]
    simp
  have hloop : roundRobinLoop token (fun _ => 0) (1 + utxo.toList.length)
      { tokensRemaining := [.lovelace], tokenIdx := 0, utxoSelected := preSelectedUtxo.toList,
        utxoRemaining := utxo.toList, drawn := 0 } =
      { tokensRemaining := [], tokenIdx := 1, utxoSelected := preSelectedUtxo.toList,
        utxoRemaining := utxo.toList,
        drawn := if utxo.toList.length > 0 then 1 else 0 } := by
    have hstep : roundRobinStep token (fun _ => 0)
        { tokensRemaining := [.lovelace], tokenIdx := 0, utxoSelected := preSelectedUtxo.toList,
          utxoRemaining := utxo.toList, drawn := 0 } .lovelace =
        { tokensRemaining := [], tokenIdx := 1, utxoSelected := preSelectedUtxo.toList,
          utxoRemaining := utxo.toList,
          drawn := if utxo.toList.length > 0 then 1 else 0 } := by
      unfold roundRobinStep
      have hfilter : (token .lovelace).filterUtxo utxo.toList = utxo.toList := rfl
      dsimp only
      rw [hfilter]
      split
      · split
        · rfl
        · rw [himproves]
          rfl
      · rfl
    rw [Nat.add_comm, roundRobinLoop]
    simp only [List.length_cons, List.length_nil, if_true, Nat.zero_lt_one, zero_add,
      List.getElem?_cons_zero]
    rw [hstep]
    cases utxo.toList.length <;> rfl
  unfold roundRobinSelection
  have htokens : listTokensWithin args.uniqueTxAssetIDs = [.lovelace] := rfl
  have hutxo : args.utxo = utxo.toList := rfl
  have hrequired : args.requiredUtxo = preSelectedUtxo.toList := rfl
  dsimp only
  rw [htokens, hutxo, hrequired, ← htoken]
  simp only [List.length_cons, List.length_nil, zero_add]
  rw [hloop]
  dsimp only
  cases hlist : preSelectedUtxo.toList with
  | nil => exact absurd hlist hpre
  | cons first rest => rfl

theorem roundRobin_keeps_preSelected (hpre : preSelectedUtxo.toList ≠ []) :
    ∃ result, roundRobinRandomImprove keepAddresses (fun _ => 0)
        (idleRequest preSelectedUtxo utxo) = .ok result ∧
      (∀ u ∈ preSelectedUtxo.toList, u ∈ result.selection.inputs.toList) ∧
      ∀ u ∈ utxo.toList, u ∈ result.remainingUTxO.toList := by
  set available := preSelectedUtxo.toList ++ utxo.toList with havailable
  have hne : available ≠ [] := fun hnil => hpre (List.append_eq_nil_iff.mp hnil).1
  have hdivides : UtxoSelection.Divides ⟨preSelectedUtxo.toList, utxo.toList⟩ available :=
    List.Perm.refl _
  have hbounds : _ ≤ getCoinQuantity (toValues preSelectedUtxo.toList) ∧
    getCoinQuantity (toValues preSelectedUtxo.toList) ≤ _ := hdivides.coins_bound
  have hfee : coinBound available +
      (4 * coinBound available - getCoinQuantity (toValues preSelectedUtxo.toList)) <
        6 * coinBound available + 1 + 2 * coinBound available := by omega
  have hcovers : 2 * coinBound available + coinBound available ≤
      4 * coinBound available - getCoinQuantity (toValues preSelectedUtxo.toList) := by omega
  obtain ⟨result, hok, _, hstays⟩ := roundRobin_forced rfl
    (show idleRequest preSelectedUtxo utxo = _ from rfl) hne (by simp) rfl rfl hfee hcovers
    (roundRobinSelection_idle hpre)
  exact ⟨result, hok, hstays rfl⟩

end RoundRobin

theorem roundRobin_spendsOnce_iff (preSelectedUtxo utxo : JsSet Utxo) :
    (∀ changeAddressResolver random outputs constraints implicitValue result,
      (∀ n, 0 ≤ random n ∧ random n < 1) →
      roundRobinRandomImprove changeAddressResolver random
        ⟨preSelectedUtxo, utxo, outputs, constraints, implicitValue⟩ = .ok result →
      SpendsOnce result) ↔
    ((preSelectedUtxo.toList ++ utxo.toList).map Utxo.id).Nodup := by
  constructor
  · intro h
    have hrandom : ∀ n : ℕ, (0 : ℚ) ≤ (fun _ => 0) n ∧ ((fun _ => 0) n : ℚ) < 1 :=
      fun _ => ⟨le_rfl, one_pos⟩
    have hobjects : IdsNameObjects (preSelectedUtxo.toList ++ utxo.toList) := by
      intro u hu v hv heq
      obtain ⟨result, hok, hall⟩ := roundRobin_selects_everything (List.ne_nil_of_mem hu)
      have honce := h keepAddresses (fun _ => 0) _ _ _ result hrandom hok
      exact idsNameObjects_of_nodup honce.inputs u (hall u hu) v (hall v hv) heq
    rw [List.map_append, List.nodup_append]
    refine ⟨?_, ?_, ?_⟩
    · exact ids_nodup_of_subset hobjects preSelectedUtxo.nodup
        (fun u hu => List.mem_append.mpr (Or.inl hu))
    · exact ids_nodup_of_subset hobjects utxo.nodup
        (fun u hu => List.mem_append.mpr (Or.inr hu))
    · intro id hid id' hid' heq
      obtain ⟨u, hu, rfl⟩ := List.mem_map.mp hid
      obtain ⟨v, hv, rfl⟩ := List.mem_map.mp hid'
      -- the same object on both sides: selected from one, remaining in the other
      have hsame : u = v := hobjects u (List.mem_append.mpr (Or.inl hu)) v
        (List.mem_append.mpr (Or.inr hv)) heq
      obtain ⟨result, hok, hselected, hremaining⟩ :=
        roundRobin_keeps_preSelected (List.ne_nil_of_mem hu)
      have honce := h keepAddresses (fun _ => 0) _ _ _ result hrandom hok
      exact honce.remaining v (hremaining v hv) u (hselected u hu) heq.symm
  · intro hids changeAddressResolver random outputs constraints implicitValue result _ hok
    exact roundRobin_spendsOnce hids hok

theorem splitChange_zero (changeAssets : Option TokenMap) (computeMinimumCoinQuantity : TxOut → ℤ)
    (tokenBundleSizeExceedsLimit : TokenMap → Bool) (fee : ℤ) :
    splitChange exactArithmetic (JsMap.ofList [("a", 1)]) 0 changeAssets
      computeMinimumCoinQuantity tokenBundleSizeExceedsLimit fee = .ok [] := by
  have hweight : (JsMap.ofList [("a", (1 : ℚ))]).values.foldl exactArithmetic.add 0 = 1 := by
    decide +kernel
  have hpercent : ((JsMap.ofList [("a", (1 : ℚ))]).mapValues
      (fun weight => exactArithmetic.div weight 1)).values.foldl exactArithmetic.add 0 = 1 := by
    decide +kernel
  have hallocated : allocateShares 0 ((JsMap.ofList [("a", (1 : ℚ))]).mapValues
      (fun weight => exactArithmetic.div weight 1)).entries 0 =
      ([{ address := "a", value := { coins := 0 } }], 0) := by
    decide +kernel
  have hsplit : splitChangeOutput { address := "a", value := { coins := 0 } }
      computeMinimumCoinQuantity fee = [] := by
    unfold splitChangeOutput
    dsimp only
    rw [splitAmounts_of_nonpos _ fee (getMinUtxoAmount_pos 0) le_rfl]
    rfl
  unfold splitChange
  dsimp only
  rw [hweight, hpercent, hallocated]
  rw [if_neg (by simp), if_neg (by norm_num)]
  simp only [lt_irrefl, if_false, List.flatMap_cons, List.flatMap_nil, hsplit, List.append_nil]
  cases changeAssets with
  | none => rfl
  | some assets =>
    dsimp only
    split <;> rfl

def mapTotals (f : ℤ → ℤ) (values : List Value) : Option TokenMap :=
  (coalesceValueQuantities values).assets.map (fun assets => assets.mapValues f)

theorem quantity_mapTotals {f : ℤ → ℤ} (hf : f 0 = 0) (values : List Value) (id : AssetId) :
    ((mapTotals f values).getD JsMap.empty).quantity id = f (total (.asset id) values) := by
  have hamount := amount_coalesceValueQuantities values (.asset id)
  simp only [Value.amount] at hamount
  rw [← hamount, mapTotals]
  cases (coalesceValueQuantities values).assets with
  | none => simp [assetsQuantity, hf]
  | some assets => simp [assetsQuantity, JsMap.quantity_mapValues _ hf]

section Greedy

variable (preSelectedUtxo utxo : JsSet Utxo)

def greedyInputs : JsSet Utxo := JsSet.ofList (utxo.toList ++ preSelectedUtxo.toList)

def settledRequest : InputSelectionParameters where
  preSelectedUtxo := preSelectedUtxo
  utxo := utxo
  outputs := []
  constraints := forcingConstraints [] 0 (greedyInputs preSelectedUtxo utxo).size
  implicitValue := {
    coin := some
      { input := some (-getCoinQuantity (toValues (greedyInputs preSelectedUtxo utxo).toList)) }
    mint := mapTotals (fun q => -q) (toValues (greedyInputs preSelectedUtxo utxo).toList) }

variable {preSelectedUtxo utxo}

theorem greedy_resolves (hne : preSelectedUtxo.toList ++ utxo.toList ≠ []) :
    ∃ result, greedySelect exactArithmetic (JsMap.ofList [("a", 1)])
      (settledRequest preSelectedUtxo utxo) = .ok result := by
  set params := settledRequest preSelectedUtxo utxo with hparams
  set inputs := greedyInputs preSelectedUtxo utxo with hinputs
  have hsize : inputs.size ≠ 0 := by
    intro hzero
    have hnil : inputs.toList = [] := List.length_eq_zero_iff.mp hzero
    apply hne
    refine List.eq_nil_iff_forall_not_mem.mpr (fun u hu => ?_)
    have hmem : u ∈ inputs.toList := by
      refine JsSet.mem_ofList.mpr ?_
      rcases List.mem_append.mp hu with hpre | hutxo
      · exact List.mem_append.mpr (Or.inr hpre)
      · exact List.mem_append.mpr (Or.inl hutxo)
    rw [hnil] at hmem
    cases hmem
  have hlovelace : getCoinQuantity (toValues inputs.toList) +
      params.implicitValue.requiredCoin.input - (getCoinQuantity (outputsToValues params.outputs) +
        params.implicitValue.requiredCoin.deposit) = 0 := by
    change getCoinQuantity (toValues inputs.toList) +
      -getCoinQuantity (toValues inputs.toList) - (0 + 0) = 0
    omega
  have hsettled (id : AssetId) : assetsQuantity (subtractTokenMaps
      (addTokenMaps (coalesceValueQuantities (toValues inputs.toList)).assets
        (some params.implicitValue.mintMap))
      (coalesceValueQuantities (outputsToValues params.outputs)).assets) id = 0 := by
    rw [assetsQuantity_subtractTokenMaps, assetsQuantity_addTokenMaps]
    have hmint : assetsQuantity (some params.implicitValue.mintMap) id =
        -total (.asset id) (toValues inputs.toList) :=
      quantity_mapTotals (by simp) (toValues inputs.toList) id
    have hheld : assetsQuantity (coalesceValueQuantities (toValues inputs.toList)).assets id =
        total (.asset id) (toValues inputs.toList) :=
      amount_coalesceValueQuantities (toValues inputs.toList) (.asset id)
    have houtputs : assetsQuantity (coalesceValueQuantities (outputsToValues params.outputs)).assets
        id = 0 := rfl
    rw [hmint, hheld, houtputs]
    omega
  have hnegative := hasNegativeAssetValue_eq_false_of_nonneg (fun id => (hsettled id).ge)
  unfold greedySelect
  dsimp only
  have hallInputs : JsSet.ofList (params.utxo.toList ++ params.preSelectedUtxo.toList) = inputs := rfl
  rw [hallInputs, hlovelace]
  rw [if_neg (by
    simp only [not_or]
    exact ⟨hsize, by omega, by simp [hnegative]⟩)]
  have hadjusted : splitChangeAndComputeFee exactArithmetic inputs params.outputs 0
      (subtractTokenMaps
        (addTokenMaps (coalesceValueQuantities (toValues inputs.toList)).assets
          (some params.implicitValue.mintMap))
        (coalesceValueQuantities (outputsToValues params.outputs)).assets)
      params.constraints (JsMap.ofList [("a", 1)]) 2 0 = .ok
      { change := [{ address := stubMaxSizeAddress, value :=
          { assets := subtractTokenMaps
              (addTokenMaps (coalesceValueQuantities (toValues inputs.toList)).assets
                (some params.implicitValue.mintMap))
              (coalesceValueQuantities (outputsToValues params.outputs)).assets
            coins := 0 } }]
        fee := 0
        feeAccountedFor := true } := by
    unfold splitChangeAndComputeFee
    rw [splitChange_zero]
    rfl
  have hfuel : (0 : ℤ).toNat + 2 = 2 := rfl
  simp only [bind, Except.bind]
  rw [hfuel, hadjusted]
  simp only [sub_zero, lt_irrefl, if_false]
  have hlimit : ∀ selection, params.constraints.computeSelectionLimit selection =
      .ok inputs.size := fun _ => rfl
  rw [hlimit]
  simp only [gt_iff_lt, lt_irrefl, if_false]
  exact ⟨_, rfl⟩

end Greedy

theorem greedy_spendsOnce_iff (preSelectedUtxo utxo : JsSet Utxo) :
    (∀ arith changeAddresses outputs constraints implicitValue result,
      greedySelect arith changeAddresses
        ⟨preSelectedUtxo, utxo, outputs, constraints, implicitValue⟩ = .ok result →
      SpendsOnce result) ↔
    IdsNameObjects (preSelectedUtxo.toList ++ utxo.toList) := by
  constructor
  · intro h u hu v hv heq
    obtain ⟨result, hok⟩ := greedy_resolves (List.ne_nil_of_mem hu)
    have honce := h exactArithmetic _ _ _ _ result hok
    have hmem : ∀ w ∈ preSelectedUtxo.toList ++ utxo.toList,
        w ∈ result.selection.inputs.toList := by
      intro w hw
      rw [(greedySelect_ok hok).2.2, (perm_sortedInputSet _).mem_iff, JsSet.mem_ofList]
      rcases List.mem_append.mp hw with hpre | hutxo
      · exact List.mem_append.mpr (Or.inr hpre)
      · exact List.mem_append.mpr (Or.inl hutxo)
    exact idsNameObjects_of_nodup honce.inputs u (hmem u hu) v (hmem v hv) heq
  · intro hids arith changeAddresses outputs constraints implicitValue result hok
    exact greedy_spendsOnce hids hok

theorem selectAsset_of_nonpos (available : List Utxo) (selected : JsSet Utxo)
    {required : AssetId × ℤ} (h : required.2 ≤ 0) :
    ∃ selected', selectAsset available selected required = .ok selected' := by
  unfold selectAsset
  dsimp only
  obtain ⟨taken, hsublist, hsum, _, _⟩ := selectCandidates_spec
    (fun u => assetsQuantity u.txOut.value.assets required.1) required.2
    (sortUtxoByAssetQuantity required.1 (available.filter (fun u =>
      assetsQuantity u.txOut.value.assets required.1 > 0))) selected 0
  have htaken : 0 ≤ (taken.map (fun u => assetsQuantity u.txOut.value.assets required.1)).sum := by
    apply List.sum_nonneg
    intro quantity hquantity
    obtain ⟨u, hu, rfl⟩ := List.mem_map.mp hquantity
    have hperm := List.perm_insertionSort (fun lhs rhs : Utxo =>
      assetsQuantity rhs.txOut.value.assets required.1 ≤
        assetsQuantity lhs.txOut.value.assets required.1)
      (available.filter (fun u => assetsQuantity u.txOut.value.assets required.1 > 0))
    have hpositive := (List.mem_filter.mp (hperm.mem_iff.mp (hsublist.subset hu))).2
    exact le_of_lt (by simpa using hpositive)
  rw [if_neg (by rw [hsum]; omega)]
  exact ⟨_, rfl⟩

theorem selectLovelace_of_reached {available : List Utxo} {selected : JsSet Utxo}
    {target implicitCoinInput : ℤ} (hne : available ≠ [])
    (hreached : target ≤ getCoinQuantity (toValues selected.toList) + implicitCoinInput) :
    ∃ result, selectLovelace target available selected implicitCoinInput = .ok result := by
  have hstop (candidates : List Utxo) : selectAdaCandidates target candidates selected
      (getCoinQuantity (toValues selected.toList) + implicitCoinInput) =
      (selected, getCoinQuantity (toValues selected.toList) + implicitCoinInput) := by
    cases candidates with
    | nil => rfl
    | cons candidate rest =>
      rw [selectAdaCandidates, if_pos hreached]
  unfold selectLovelace
  dsimp only
  rw [hstop]
  dsimp only
  split
  · rename_i hsize
    have hempty : selected.toList = [] := List.length_eq_zero_iff.mp hsize
    cases hcandidates : sortUtxoByCoins (available.filter
        (fun u => u.txIn ∉ selected.toList.map (fun u => u.txIn))) with
    | nil =>
      have hperm := perm_sortUtxoByCoins (available.filter
        (fun u => u.txIn ∉ selected.toList.map (fun u => u.txIn)))
      rw [hcandidates] at hperm
      have hnil := hperm.symm.eq_nil
      rw [hempty] at hnil
      exact absurd (by simpa using hnil) hne
    | cons first rest =>
      simp only [bind, Except.bind]
      rw [if_neg (by omega)]
      exact ⟨_, rfl⟩
  · simp only [bind, Except.bind]
    rw [if_neg (by omega)]
    exact ⟨_, rfl⟩

theorem computeNetImplicitSelectionValues_exists (hnodup : pool.Nodup) (hne : pool ≠ [])
    {implicitValue : ImplicitValue}
    (hminted : ∀ id, implicitValue.minted id = |total (.asset id) (toValues pool)|)
    (hburned : ∀ id, implicitValue.burned id = 0)
    (hinput : implicitValue.requiredCoin.input = coinBound pool)
    (hdeposit : implicitValue.requiredCoin.deposit = 0) :
    ∃ net, computeNetImplicitSelectionValues (JsSet.ofList pool) [] implicitValue = .ok net ∧
      net.totalLovelaceOutput = 0 ∧ ∀ entry ∈ net.outputAssets.entries, entry.2 ≤ 0 := by
  have hlist : (JsSet.ofList pool).toList = pool := JsSet.ofList_toList_of_nodup hnodup
  have hrequired (id : AssetId) : (aggregateAssets (toValues pool) (outputsToValues [])
      implicitValue).required.quantity id = -|total (.asset id) (toValues pool)| := by
    rw [quantity_required, hminted, hburned]
    simp [outputsToValues]
  have hchange (id : AssetId) : 0 ≤ assetsQuantity (subtractTokenMaps
      (some (aggregateAssets (toValues pool) (outputsToValues []) implicitValue).available)
      (some (aggregateAssets (toValues pool) (outputsToValues []) implicitValue).required)) id := by
    have habs := neg_abs_le (total (.asset id) (toValues pool))
    have hnonneg := abs_nonneg (total (.asset id) (toValues pool))
    rw [assetsQuantity_subtractTokenMaps]
    simp only [assetsQuantity]
    rw [quantity_available, hrequired, hminted]
    omega
  have hcoins := abs_le.mp (abs_coins_le_coinBound pool)
  have hzero : getCoinQuantity (outputsToValues []) = 0 := rfl
  have hsize : ¬ (JsSet.ofList pool).size = 0 := by
    intro hzero
    have hnil := List.length_eq_zero_iff.mp hzero
    rw [hlist] at hnil
    exact hne hnil
  unfold computeNetImplicitSelectionValues
  dsimp only
  rw [hlist, if_neg]
  · refine ⟨_, rfl, ?_, ?_⟩
    · simp only [aggregateLovelace, hzero, hdeposit, add_zero]
    · intro entry hentry
      have hget := JsMap.get?_eq_some_iff.mpr hentry
      have hquantity := hrequired entry.1
      rw [JsMap.quantity, hget, Option.getD_some] at hquantity
      rw [hquantity]
      exact neg_nonpos.mpr (abs_nonneg _)
  · simp only [Bool.or_eq_true, decide_eq_true_eq, not_or, Bool.not_eq_true]
    refine ⟨⟨hsize, ?_⟩, hasNegativeAssetValue_eq_false_of_nonneg hchange⟩
    simp only [aggregateLovelace, hzero, hdeposit, hinput]
    omega

theorem expandUtxosUntilFeeCovered_exists (hnodup : pool.Nodup) {workingUtxo : JsSet Utxo}
    (hworking : ∀ u ∈ workingUtxo.toList, u ∈ pool) (houtputs : params.outputs = [])
    (hconstraints : params.constraints =
      forcingConstraints pool (2 * coinBound pool + 1) pool.length)
    (hinput : params.implicitValue.requiredCoin.input = coinBound pool)
    (hdeposit : params.implicitValue.requiredCoin.deposit = 0) (requiredAssets : TokenMap) :
    ∃ expanded, expandUtxosUntilFeeCovered workingUtxo params pool requiredAssets keepAddresses =
        .ok expanded ∧
      (∀ u ∈ pool, u ∈ expanded.finalSelection.toList) ∧
      expanded.finalSelection.size ≤ pool.length := by
  set changeArgs := largeFirstChangeArgs params requiredAssets with hchangeArgs
  have hinput' : changeArgs.implicitValue.implicitCoin.input = coinBound pool := hinput
  have hdeposit' : changeArgs.implicitValue.implicitCoin.deposit = 0 := hdeposit
  have hcost : ∀ utxoSelected bundles, changeArgs.estimateTxCosts utxoSelected bundles =
      .ok { fee := if pool.all (fun u => u ∈ utxoSelected) then 0
            else 2 * coinBound pool + 1 } := by
    intro utxoSelected bundles
    simp [hchangeArgs, largeFirstChangeArgs, estimateTxCostsWith, hconstraints,
      forcingConstraints]
  have haffordable : ∀ selection : UtxoSelection, selection.Divides pool →
      selectedAmount selection.utxoSelected changeArgs.implicitValue .lovelace <
          2 * coinBound pool + 1 + changeArgs.implicitValue.implicitCoin.deposit ∧
        changeArgs.implicitValue.implicitCoin.deposit ≤
          selectedAmount selection.utxoSelected changeArgs.implicitValue .lovelace := by
    intro selection hdivides
    have hcoins := hdivides.coins_bound
    simp only [selectedAmount, total_lovelace, RequiredImplicitValue.inputAmount, hinput',
      hdeposit']
    omega
  have hpick : ∀ (selection : UtxoSelection) state, selection.Divides pool →
      selection.utxoRemaining ≠ [] →
      (changeArgs.pickAdditionalUtxo selection state).1.Divides pool ∧
        (changeArgs.pickAdditionalUtxo selection state).1.utxoRemaining.length <
          selection.utxoRemaining.length := by
    intro selection state hdivides hremaining
    refine ⟨pickAdditionalLargestUtxo_divides hdivides state, ?_⟩
    rcases pickAdditionalLargestUtxo_cases selection state with
      ⟨hnil, _⟩ | ⟨picked, rest, hperm, hnew⟩
    · exact absurd hnil hremaining
    · have hlength := hperm.length_eq
      rw [List.length_cons] at hlength
      rw [hchangeArgs, largeFirstChangeArgs, hnew]
      dsimp only
      omega
  have houtputValues : changeArgs.outputValues = [] := by
    rw [hchangeArgs, largeFirstChangeArgs, houtputs]
    rfl
  have hmin : changeArgs.computeMinimumCoinQuantity = fun out => out.value.coins := by
    rw [hchangeArgs, largeFirstChangeArgs, hconstraints]
    rfl
  have hsize : changeArgs.tokenBundleSizeExceedsLimit = fun _ => false := by
    rw [hchangeArgs, largeFirstChangeArgs, hconstraints]
    rfl
  obtain ⟨computed, hcomputed, hgoal, _⟩ := computeChangeAndAdjustForFee_forced houtputValues hmin
    hsize hcost haffordable hpick (fun u hu => hu) (divides_of_workingSet hnodup hworking)
    (Nat.lt_succ_self _)
  obtain ⟨final, hdivides, hadjusted⟩ := computeChangeAndAdjustForFee_ok
    (fun selection => selection.Divides pool)
    (fun selection state hselection hremaining => (hpick selection state hselection hremaining).1)
    (divides_of_workingSet hnodup hworking) hcomputed
  have hinputsNodup : computed.inputs.Nodup := by
    rw [hadjusted.inputs]
    exact (List.nodup_append.mp (hdivides.nodup_iff.mpr hnodup)).1
  have hlength : (JsSet.ofList computed.inputs).size ≤ pool.length := by
    rw [JsSet.size, JsSet.ofList_toList_of_nodup hinputsNodup, hadjusted.inputs,
      ← hdivides.length_eq, List.length_append]
    omega
  unfold expandUtxosUntilFeeCovered
  simp only [bind, Except.bind]
  rw [hcomputed]
  dsimp only
  split
  · exact ⟨_, rfl, fun u hu => JsSet.mem_ofList.mpr (hgoal u hu), hlength⟩
  · exact ⟨_, rfl, fun u hu => JsSet.mem_ofList.mpr (hgoal u hu), hlength⟩

section LargeFirst

variable (preSelectedUtxo utxo : JsSet Utxo)

def everyAvailableRequest : InputSelectionParameters where
  preSelectedUtxo := preSelectedUtxo
  utxo := utxo
  outputs := []
  constraints := forcingConstraints (largeFirstPool preSelectedUtxo utxo)
    (2 * coinBound (largeFirstPool preSelectedUtxo utxo) + 1)
    (largeFirstPool preSelectedUtxo utxo).length
  implicitValue := {
    coin := some { input := some (coinBound (largeFirstPool preSelectedUtxo utxo)) }
    mint := mapTotals (fun q => |q|) (toValues (largeFirstPool preSelectedUtxo utxo)) }

variable {preSelectedUtxo utxo}

theorem largeFirst_selects_everything (hne : largeFirstPool preSelectedUtxo utxo ≠ []) :
    ∃ result, largeFirstSelect keepAddresses (everyAvailableRequest preSelectedUtxo utxo) =
        .ok result ∧
      ∀ u ∈ largeFirstPool preSelectedUtxo utxo, u ∈ result.selection.inputs.toList := by
  have hnodup : (largeFirstPool preSelectedUtxo utxo).Nodup :=
    nodup_largeFirstPool preSelectedUtxo utxo
  have hmint (id : AssetId) :
      (everyAvailableRequest preSelectedUtxo utxo).implicitValue.mintMap.quantity id =
        |total (.asset id) (toValues (largeFirstPool preSelectedUtxo utxo))| :=
    quantity_mapTotals (by simp) _ id
  have hminted (id : AssetId) :
      (everyAvailableRequest preSelectedUtxo utxo).implicitValue.minted id =
        |total (.asset id) (toValues (largeFirstPool preSelectedUtxo utxo))| := by
    rw [ImplicitValue.minted, hmint]
    exact max_eq_left (abs_nonneg _)
  have hburned (id : AssetId) :
      (everyAvailableRequest preSelectedUtxo utxo).implicitValue.burned id = 0 := by
    rw [ImplicitValue.burned, hmint]
    exact max_eq_right (neg_nonpos.mpr (abs_nonneg _))
  have hinput : (everyAvailableRequest preSelectedUtxo utxo).implicitValue.requiredCoin.input =
      coinBound (largeFirstPool preSelectedUtxo utxo) := rfl
  have hdeposit : (everyAvailableRequest preSelectedUtxo utxo).implicitValue.requiredCoin.deposit =
      0 := rfl
  obtain ⟨net, hnet, htarget, hnonpos⟩ := computeNetImplicitSelectionValues_exists hnodup hne
    hminted hburned hinput hdeposit
  have hpre : ∀ u ∈ preSelectedUtxo.toList, u ∈ largeFirstPool preSelectedUtxo utxo :=
    fun u hu => List.mem_append.mpr (Or.inl hu)
  obtain ⟨afterAssets, hafterAssets⟩ : ∃ afterAssets, selectAssets net.outputAssets
      (largeFirstPool preSelectedUtxo utxo) preSelectedUtxo.toList = .ok afterAssets :=
    foldlM_exists_ok (fun selected entry hentry =>
      selectAsset_of_nonpos _ selected (hnonpos entry hentry)) _
  have hmembers := (selectAssets_mem hpre hafterAssets).2
  have hcoins := (divides_of_workingSet hnodup hmembers).coins_bound
  obtain ⟨workingUtxo, hworking⟩ := @selectLovelace_of_reached _ afterAssets
    net.totalLovelaceOutput (coinBound (largeFirstPool preSelectedUtxo utxo)) hne
    (by
      rw [htarget]
      dsimp only at hcoins
      omega)
  obtain ⟨expanded, hexpanded, hall, hsize⟩ := expandUtxosUntilFeeCovered_exists hnodup
    (selectLovelace_ok hmembers hworking).2
    (rfl : (everyAvailableRequest preSelectedUtxo utxo).outputs = []) rfl hinput hdeposit
    net.outputAssets
  have hlimit : ∀ selection,
      (everyAvailableRequest preSelectedUtxo utxo).constraints.computeSelectionLimit selection =
        .ok (largeFirstPool preSelectedUtxo utxo).length := fun _ => rfl
  have hpool : (everyAvailableRequest preSelectedUtxo utxo).preSelectedUtxo.toList ++
      availableUtxo (everyAvailableRequest preSelectedUtxo utxo).preSelectedUtxo.toList
        (everyAvailableRequest preSelectedUtxo utxo).utxo.toList =
      largeFirstPool preSelectedUtxo utxo := rfl
  have houtputs : (everyAvailableRequest preSelectedUtxo utxo).outputs = [] := rfl
  have hpreSelected : (everyAvailableRequest preSelectedUtxo utxo).preSelectedUtxo =
      preSelectedUtxo := rfl
  unfold largeFirstSelect
  simp only [bind, Except.bind]
  rw [hpool, houtputs, hnet]
  dsimp only
  rw [hpreSelected, hafterAssets]
  dsimp only
  rw [hinput, hworking]
  dsimp only
  rw [hexpanded]
  dsimp only
  rw [hlimit]
  dsimp only
  rw [if_neg (by omega)]
  refine ⟨_, rfl, ?_⟩
  intro u hu
  exact (perm_sortedInputSet _).mem_iff.mpr (hall u hu)

end LargeFirst

theorem largeFirst_spendsOnce_iff (preSelectedUtxo utxo : JsSet Utxo) :
    (∀ changeAddressResolver outputs constraints implicitValue result,
      largeFirstSelect changeAddressResolver
        ⟨preSelectedUtxo, utxo, outputs, constraints, implicitValue⟩ = .ok result →
      SpendsOnce result) ↔
    LargeFirstDistinct preSelectedUtxo.toList utxo.toList := by
  constructor
  · intro h
    rcases eq_or_ne (largeFirstPool preSelectedUtxo utxo) [] with hnil | hne
    · obtain ⟨hpre, havailable⟩ := List.append_eq_nil_iff.mp hnil
      rw [hpre] at havailable ⊢
      exact ⟨by simp, by simp [havailable], by simp⟩
    · obtain ⟨result, hok, hall⟩ := largeFirst_selects_everything hne
      have honce := h keepAddresses _ _ _ result hok
      have hobjects := idsNameObjects_of_nodup honce.inputs
      obtain ⟨_, _, hremaining⟩ := largeFirst_inputs (nodup_largeFirstPool _ _) hok
      have hpool : IdsNameObjects (largeFirstPool preSelectedUtxo utxo) :=
        fun u hu v hv heq => hobjects u (hall u hu) v (hall v hv) heq
      refine ⟨?_, ?_, ?_⟩
      · exact ids_nodup_of_subset hpool preSelectedUtxo.nodup
          (fun u hu => List.mem_append.mpr (Or.inl hu))
      · exact ids_nodup_of_subset hpool (utxo.nodup.filter _)
          (fun u hu => List.mem_append.mpr (Or.inr hu))
      · intro u hu pre hpre heq
        by_contra hne
        have hpreInput := hall pre (List.mem_append.mpr (Or.inl hpre))
        have hunused : ∀ input ∈ result.selection.inputs.toList, u.txIn ≠ input.txIn := by
          intro input hinput hshared
          have hid : input.id = pre.id := by
            rw [← heq, Utxo.id, Utxo.id, hshared]
          exact hne (hshared.trans (by rw [hobjects input hinput pre hpreInput hid]))
        exact honce.remaining u ((hremaining u).mpr ⟨hu, hunused⟩) pre hpreInput heq
  · intro hdistinct changeAddressResolver outputs constraints implicitValue result hok
    exact largeFirst_spendsOnce hdistinct hok

/-- When each of the three selectors spends every input once, whatever the rest
of its arguments. -/
theorem selectors_spend_once_iff (preSelectedUtxo utxo : JsSet Utxo) :
    ((∀ changeAddressResolver random outputs constraints implicitValue result,
        (∀ n, 0 ≤ random n ∧ random n < 1) →
        roundRobinRandomImprove changeAddressResolver random
          ⟨preSelectedUtxo, utxo, outputs, constraints, implicitValue⟩ = .ok result →
        SpendsOnce result) ↔
      ((preSelectedUtxo.toList ++ utxo.toList).map Utxo.id).Nodup) ∧
    ((∀ changeAddressResolver outputs constraints implicitValue result,
        largeFirstSelect changeAddressResolver
          ⟨preSelectedUtxo, utxo, outputs, constraints, implicitValue⟩ = .ok result →
        SpendsOnce result) ↔
      LargeFirstDistinct preSelectedUtxo.toList utxo.toList) ∧
    ((∀ arith changeAddresses outputs constraints implicitValue result,
        greedySelect arith changeAddresses
          ⟨preSelectedUtxo, utxo, outputs, constraints, implicitValue⟩ = .ok result →
        SpendsOnce result) ↔
      IdsNameObjects (preSelectedUtxo.toList ++ utxo.toList)) :=
  ⟨roundRobin_spendsOnce_iff preSelectedUtxo utxo, largeFirst_spendsOnce_iff preSelectedUtxo utxo,
    greedy_spendsOnce_iff preSelectedUtxo utxo⟩

/-- One entry of 10 pre-selected, and beside it the same entry again as another
object and an entry of 5. The output needs more than the first. -/
def repeatedEntryRequest : InputSelectionParameters where
  preSelectedUtxo := JsSet.ofList [utxoOf 0 { coins := 10 }]
  utxo := JsSet.ofList
    [{ utxoOf 0 { coins := 10 } with ref := 2, txIn := { ref := 2, txId := [], index := 0 } },
      utxoOf 1 { coins := 5 }]
  outputs := [outputOf { coins := 12 }]
  constraints := flatConstraints 1

def spendsOnceTest (result : SelectionResult) : Bool :=
  decide (result.selection.inputs.toList.map Utxo.id).Nodup &&
    result.remainingUTxO.toList.all (fun utxo =>
      result.selection.inputs.toList.all (fun input => utxo.id != input.id))

theorem spendsOnceTest_of_spendsOnce {result : SelectionResult} (h : SpendsOnce result) :
    spendsOnceTest result = true := by
  simp only [spendsOnceTest, Bool.and_eq_true, decide_eq_true_eq, List.all_eq_true, bne_iff_ne]
  exact ⟨h.inputs, h.remaining⟩

theorem not_spendsOnce_of_test {outcome : Except SelectionError SelectionResult}
    (h : okAnd (fun result => !spendsOnceTest result) outcome = true) :
    ∃ result, outcome = .ok result ∧ ¬ SpendsOnce result := by
  obtain ⟨result, hok, htest⟩ := okAnd_iff.mp h
  refine ⟨result, hok, fun honce => ?_⟩
  rw [spendsOnceTest_of_spendsOnce honce] at htest
  cases htest

/-- Round-robin and greedy spend the repeated entry twice; large-first spends
it once and leaves it among the remaining entries. -/
theorem selectors_spend_repeated_entry :
    (∃ result, roundRobinRandomImprove keepAddresses (fun _ => 0) repeatedEntryRequest =
        .ok result ∧ ¬ SpendsOnce result) ∧
    (∃ result, largeFirstSelect keepAddresses repeatedEntryRequest = .ok result ∧
      ¬ SpendsOnce result) ∧
    (∃ result, greedySelect exactArithmetic (JsMap.ofList [("a", 1)]) repeatedEntryRequest =
        .ok result ∧ ¬ SpendsOnce result) := by
  refine ⟨not_spendsOnce_of_test ?_, not_spendsOnce_of_test ?_, not_spendsOnce_of_test ?_⟩
  · decide +kernel
  · decide
  · decide +kernel

end CardanoSdk.InputSelection
