import CardanoSdk.InputSelection.FeeAdjustmentFailure

/-!
Selection does not crash: both selectors hand the fee adjustment a selection that covers
every token, and every further pick keeps it covering.
-/

namespace CardanoSdk.InputSelection

open Lib

variable {σ : Type}

structure CoveredAdjustment (params : InputSelectionParameters) (available : List Utxo)
    (call : FeeAdjustment σ) : Prop where
  outputValues : call.args.outputValues = outputsToValues params.outputs
  implicitValue : call.args.implicitValue = params.implicitValue.required
  outside : ∀ id ∉ call.args.uniqueTxAssetIDs,
    total (.asset id) (outputsToValues params.outputs) = 0
  picks : PicksEntry call.args
  covering : CoveringSelection params.outputs params.implicitValue.required available
    (listTokensWithin call.args.uniqueTxAssetIDs) call.selection

variable {params : InputSelectionParameters} {e : SelectionError} {random : ℕ → ℚ}
  {available : List Utxo} {outputs : List TxOut}

theorem total_asset_pos (hassets : PositiveAssets outputs) {output : TxOut}
    (houtput : output ∈ outputs) {assets : TokenMap} (hmap : assets ∈ output.value.assets)
    {entry : AssetId × ℤ} (hentry : entry ∈ assets.entries) :
    0 < total (.asset entry.1) (outputsToValues outputs) := by
  have hpositive := hassets output houtput assets hmap entry hentry
  have hamount : output.value.amount (.asset entry.1) = entry.2 := by
    simp only [Value.amount, Option.mem_def.mp hmap, assetsQuantity, JsMap.quantity,
      JsMap.get?_eq_some_iff.mpr hentry, Option.getD_some]
  have hle : output.value.amount (.asset entry.1) ≤
      total (.asset entry.1) (outputsToValues outputs) := by
    refine List.single_le_sum ?_ _ (List.mem_map_of_mem (List.mem_map_of_mem houtput))
    intro amount hmem
    obtain ⟨value, hvalue, rfl⟩ := List.mem_map.mp hmem
    obtain ⟨other, hother, rfl⟩ := List.mem_map.mp hvalue
    cases hnone : other.value.assets with
    | none => simp [Value.amount, hnone, assetsQuantity]
    | some m =>
      have hall : m.All (fun q => 0 ≤ q) := fun e he => (hassets other hother m hnone e he).le
      simpa [Value.amount, hnone, assetsQuantity] using hall.quantity le_rfl entry.1
  omega

namespace CoveredAdjustment

variable {params : InputSelectionParameters} {available : List Utxo} {call : FeeAdjustment σ}

variable {final : UtxoSelection}

theorem tried (h : CoveredAdjustment params available call)
    (hnonneg : ∀ utxo ∈ available, utxo.txOut.value.Nonneg) {picks : ℕ}
    (htried : Tried call.args call.selection call.state picks final) :
    CoveringSelection params.outputs params.implicitValue.required available
      (listTokensWithin call.args.uniqueTxAssetIDs) final := by
  refine htried.invariant ?_ h.covering
  intro selection state hselection hremaining
  obtain ⟨picked, rest, hperm, hmoved⟩ := h.picks selection state hremaining
  have hpicked : picked ∈ selection.utxoRemaining := hperm.mem_iff.mp (by simp)
  rw [hmoved]
  refine ⟨?_, ?_⟩
  · have hdivides := (hperm.append_left selection.utxoSelected).trans hselection.divides
    simpa [UtxoSelection.Divides] using hdivides
  · intro token htoken
    exact (hselection.covers token htoken).append
      (hnonneg picked (hselection.divides.mem_of_remaining hpicked))

theorem divisible (h : CoveredAdjustment params available call)
    (hassets : PositiveAssets params.outputs)
    (hcovering : CoveringSelection params.outputs params.implicitValue.required available
      (listTokensWithin call.args.uniqueTxAssetIDs) final) :
    AssetsDivisible call.args final.utxoSelected := by
  intro value hvalue assets hmap entry hentry
  rw [h.outputValues] at hvalue
  obtain ⟨output, houtput, rfl⟩ := List.mem_map.mp hvalue
  have hpositive := total_asset_pos hassets houtput hmap hentry
  have hid : entry.1 ∈ call.args.uniqueTxAssetIDs := by
    by_contra hout
    rw [h.outside entry.1 hout] at hpositive
    exact lt_irrefl 0 hpositive
  refine ⟨hid, ?_⟩
  have hcovers := hcovering.covers (.asset entry.1)
    (List.mem_append.mpr (Or.inl (List.mem_map_of_mem hid)))
  have hburned : 0 ≤ params.implicitValue.burned entry.1 := le_max_right _ _
  rw [h.implicitValue]
  simp only [Covers, requestedAmount, required_spent_asset, feeAmount] at hcovers
  omega

theorem affordable (h : CoveredAdjustment params available call)
    (hcovering : CoveringSelection params.outputs params.implicitValue.required available
      (listTokensWithin call.args.uniqueTxAssetIDs) final) :
    Affordable call.args final.utxoSelected 0 := by
  have hcovers := hcovering.covers .lovelace (List.mem_append.mpr (Or.inr (by simp)))
  rw [Affordable, h.outputValues, h.implicitValue]
  simp only [Covers, requestedAmount, selectedAmount, feeAmount, total_lovelace,
    RequiredImplicitValue.spentAmount, RequiredImplicitValue.inputAmount] at hcovers
  omega

end CoveredAdjustment

theorem roundRobinAdjustment_covered (hrandom : ∀ n, 0 ≤ random n ∧ random n < 1)
    (hnonneg : ∀ utxo ∈ params.preSelectedUtxo.toList ++ params.utxo.toList,
      utxo.txOut.value.Nonneg) {call : FeeAdjustment ℕ}
    (hcall : roundRobinAdjustment random params = .ok call) :
    CoveredAdjustment params (params.preSelectedUtxo.toList ++ params.utxo.toList) call := by
  unfold roundRobinAdjustment at hcall
  obtain ⟨_, hbalance, hcall⟩ := bind_ok hcall
  cases hcall
  refine ⟨rfl, rfl, ?_, roundRobin_picksEntry hrandom params _, ?_⟩
  · intro id hid
    apply total_asset_eq_zero_of_not_mem
    intro hmem
    apply hid
    simp only [roundRobinChangeArgs, preProcessArgs, mem_uniq, List.mem_append]
    exact Or.inl hmem
  · exact roundRobinSelection_covering hrandom hnonneg (assertIsBalanceSufficient_ok hbalance)

theorem largeFirstAdjustment_covered
    (hnonneg : ∀ utxo ∈ params.preSelectedUtxo.toList ++ params.utxo.toList,
      utxo.txOut.value.Nonneg) {call : FeeAdjustment Unit}
    (hcall : largeFirstAdjustment params = .ok call) :
    CoveredAdjustment params (largeFirstPool params.preSelectedUtxo params.utxo) call := by
  unfold largeFirstAdjustment at hcall
  obtain ⟨net, hnet, hcall⟩ := bind_ok hcall
  obtain ⟨afterAssets, hassets, hcall⟩ := bind_ok hcall
  obtain ⟨workingUtxo, hlovelace, hcall⟩ := bind_ok hcall
  cases hcall
  have hnodup := nodup_largeFirstPool params.preSelectedUtxo params.utxo
  have hpool := largeFirstPool_nonneg hnonneg
  have hpre : ∀ utxo ∈ params.preSelectedUtxo.toList,
      utxo ∈ largeFirstPool params.preSelectedUtxo params.utxo :=
    fun utxo hutxo => List.mem_append.mpr (Or.inl hutxo)
  have hafter := (selectAssets_mem hpre hassets).2
  refine ⟨rfl, rfl, fun id hid => total_eq_zero_of_not_required hnet hid,
    largeFirst_picksEntry params _, ?_, ?_⟩
  · exact divides_of_workingSet hnodup (selectLovelace_ok hafter hlovelace).2
  · intro token htoken
    rcases List.mem_append.mp htoken with hasset | hcoin
    · obtain ⟨id, _, rfl⟩ := List.mem_map.mp hasset
      exact workingSet_covers_asset hnodup hpool hpre hnet hassets hlovelace id
    · rw [List.mem_singleton.mp hcoin]
      exact workingSet_covers_lovelace hnodup hpool hnet hafter hlovelace

theorem assertIsBalanceSufficient_error {uniqueTxAssetIDs : List AssetId}
    {preSelectedUtxo utxo : List Utxo} {implicitValue : RequiredImplicitValue}
    (h : assertIsBalanceSufficient uniqueTxAssetIDs preSelectedUtxo utxo outputs implicitValue =
      .error e) : e = .inputSelectionError .utxoBalanceInsufficient := by
  unfold assertIsBalanceSufficient assertIsCoinBalanceSufficient at h
  dsimp only at h
  split at h
  · cases h
    rfl
  · split at h
    · cases h
      rfl
    · split at h
      · cases h
        rfl
      · cases h

theorem roundRobinAdjustment_error (h : roundRobinAdjustment random params = .error e) :
    e = .inputSelectionError .utxoBalanceInsufficient := by
  rcases bind_error h with hbalance | ⟨_, _, hpure⟩
  · exact assertIsBalanceSufficient_error hbalance
  · cases hpure

theorem computeNetImplicitSelectionValues_error {inputs : JsSet Utxo}
    {implicitValue : ImplicitValue}
    (h : computeNetImplicitSelectionValues inputs outputs implicitValue = .error e) :
    e = .inputSelectionError .utxoBalanceInsufficient := by
  unfold computeNetImplicitSelectionValues at h
  dsimp only at h
  split at h
  · cases h
    rfl
  · cases h

variable {selected : JsSet Utxo} {α : Type} {changeAddressResolver : ChangeAddressResolver}

theorem selectAsset_error {required : AssetId × ℤ}
    (h : selectAsset available selected required = .error e) :
    e = .inputSelectionError .utxoBalanceInsufficient := by
  unfold selectAsset at h
  dsimp only at h
  split at h
  · cases h
    rfl
  · cases h

theorem selectLovelace_error {target implicitCoinInput : ℤ}
    (h : selectLovelace target available selected implicitCoinInput = .error e) :
    e = .inputSelectionError .utxoBalanceInsufficient := by
  obtain ⟨_, _, ⟨hfail, _⟩ | ⟨result, hok, _⟩⟩ :=
    selectLovelace_cases target available selected implicitCoinInput
  · rw [hfail] at h
    cases h
    rfl
  · rw [hok] at h
    cases h

theorem largeFirstAdjustment_error (h : largeFirstAdjustment params = .error e) :
    e = .inputSelectionError .utxoBalanceInsufficient := by
  rcases bind_error h with hnet | ⟨net, _, h⟩
  · exact computeNetImplicitSelectionValues_error hnet
  rcases bind_error h with hassets | ⟨afterAssets, _, h⟩
  · obtain ⟨_, _, _, hstep⟩ := foldlM_error hassets
    exact selectAsset_error hstep
  rcases bind_error h with hlovelace | ⟨workingUtxo, _, hpure⟩
  · exact selectLovelace_error hlovelace
  · cases hpure

def ChangeComputationArgs.coinChangeTotal (args : ChangeComputationArgs σ)
    (utxoSelected : List Utxo) (fee : ℤ) : ℤ :=
  getCoinQuantity (toValues utxoSelected) + args.implicitValue.implicitCoin.input -
    (getCoinQuantity args.outputValues + fee + args.implicitValue.implicitCoin.deposit)

/-- The fees that the change of a selection is computed with: none, and the
estimated one if the selection affords it. -/
inductive ComputedWith (args : ChangeComputationArgs σ) (utxoSelected : List Utxo) : ℤ → Prop
  | none : ComputedWith args utxoSelected 0
  | estimated {bundles : List Value} {costs : TxCosts}
      (haccepted : BundlesAccepted args utxoSelected 0 bundles)
      (hcosts : args.estimateTxCosts utxoSelected bundles = .ok costs)
      (haffordable : Affordable args utxoSelected costs.fee) :
      ComputedWith args utxoSelected costs.fee

/-- Nothing the adjustment does with a selection can go wrong: every asset of
the transaction is covered, the totals its output assets are divided by are
there and positive, the coin change is not negative, and while entries remain a
pick adds one of them. -/
structure SafeAt (args : ChangeComputationArgs σ) (selection : UtxoSelection) : Prop where
  covered : ∀ id ∈ args.uniqueTxAssetIDs,
    requestedAmount args.outputValues args.implicitValue 0 (.asset id) ≤
      selectedAmount selection.utxoSelected args.implicitValue (.asset id)
  divisor : ∀ value ∈ args.outputValues, ∀ assets ∈ value.assets, ∀ entry ∈ assets.entries,
    ∃ total, (args.assetTotals selection.utxoSelected).get? entry.1 = some total ∧
      total.requested ≤ total.selected ∧ 0 < total.selected
  coinChange : ∀ fee, ComputedWith args selection.utxoSelected fee →
    0 ≤ args.coinChangeTotal selection.utxoSelected fee
  pick : ∀ state, selection.utxoRemaining ≠ [] → ∃ picked ∈ selection.utxoRemaining,
    (args.pickAdditionalUtxo selection state).1.utxoSelected =
      selection.utxoSelected ++ [picked]

theorem CoveredAdjustment.safeAt {call : FeeAdjustment σ}
    (h : CoveredAdjustment params available call) (hassets : PositiveAssets params.outputs)
    (hnonneg : ∀ utxo ∈ available, utxo.txOut.value.Nonneg) {picks : ℕ} {final : UtxoSelection}
    (htried : Tried call.args call.selection call.state picks final) : SafeAt call.args final := by
  have hcovering := h.tried hnonneg htried
  have hdivisible := h.divisible hassets hcovering
  have hcovered : ∀ id ∈ call.args.uniqueTxAssetIDs,
      requestedAmount call.args.outputValues call.args.implicitValue 0 (.asset id) ≤
        selectedAmount final.utxoSelected call.args.implicitValue (.asset id) := by
    intro id hid
    rw [h.outputValues, h.implicitValue]
    exact hcovering.covers (.asset id) (List.mem_append.mpr (Or.inl (List.mem_map_of_mem hid)))
  refine ⟨hcovered, ?_, ?_, ?_⟩
  · intro value hvalue assets hmap entry hentry
    obtain ⟨hid, hpositive⟩ := hdivisible value hvalue assets hmap entry hentry
    exact ⟨_, get?_assetTotals final.utxoSelected hid, hcovered entry.1 hid, hpositive⟩
  · intro fee hfee
    have haffordable : Affordable call.args final.utxoSelected fee := by
      cases hfee with
      | none => exact h.affordable hcovering
      | estimated _ _ haffordable => exact haffordable
    rw [Affordable] at haffordable
    rw [ChangeComputationArgs.coinChangeTotal]
    omega
  · intro state hremaining
    obtain ⟨picked, rest, hperm, hmoved⟩ := h.picks final state hremaining
    exact ⟨picked, hperm.mem_iff.mp (by simp), by rw [hmoved]⟩

structure CallbacksResolve (changeAddressResolver : ChangeAddressResolver)
    (constraints : SelectionConstraints) : Prop where
  cost : ∀ selection, ∃ costs, constraints.computeMinimumCost selection = .ok costs
  limit : ∀ selection, ∃ limit, constraints.computeSelectionLimit selection = .ok limit
  resolver : ∀ selection, ∃ change, changeAddressResolver selection = .ok change

/-- The promise resolves, or rejects with an `InputSelectionError`. -/
def SettlesCleanly {α : Type} (outcome : Except SelectionError α) : Prop :=
  (∃ result, outcome = .ok result) ∨
    ∃ failure, outcome = .error (.inputSelectionError failure)

theorem SettlesCleanly.bind {β : Type} {step : Except SelectionError α}
    {next : α → Except SelectionError β} (hstep : SettlesCleanly step)
    (hnext : ∀ a, step = .ok a → SettlesCleanly (next a)) : SettlesCleanly (step >>= next) := by
  rcases hstep with ⟨a, ha⟩ | ⟨failure, hfailure⟩
  · rw [ha]
    exact hnext a ha
  · rw [hfailure]
    exact Or.inr ⟨failure, rfl⟩

theorem settlesCleanly_of_error {outcome : Except SelectionError α}
    (h : ∀ e, outcome = .error e → ∃ failure, e = .inputSelectionError failure) :
    SettlesCleanly outcome := by
  cases outcome with
  | ok result => exact Or.inl ⟨result, rfl⟩
  | error e =>
    obtain ⟨failure, hfailure⟩ := h e rfl
    exact Or.inr ⟨failure, by rw [hfailure]⟩

theorem CoveredAdjustment.run_settles {call : FeeAdjustment σ}
    (h : CoveredAdjustment params available call) (hassets : PositiveAssets params.outputs)
    (hnonneg : ∀ utxo ∈ available, utxo.txOut.value.Nonneg) {cost : CostCallback}
    (hcost : ∀ selection, ∃ costs, cost selection = .ok costs) :
    SettlesCleanly (call.run cost) := by
  refine settlesCleanly_of_error ?_
  intro e he
  obtain ⟨_, _, _, hreason⟩ := FeeAdjustment.run_error h.picks
    (fun _ _ htried => h.divisible hassets (h.tried hnonneg htried)) he
  rcases hreason with hdepleted | ⟨selection, hfail⟩ | ⟨hinsufficient, _⟩
  · exact ⟨_, hdepleted⟩
  · obtain ⟨costs, hok⟩ := hcost selection
    rw [hok] at hfail
    cases hfail
  · exact ⟨_, hinsufficient⟩

theorem roundRobinFinish_settles
    (hcallbacks : CallbacksResolve changeAddressResolver params.constraints)
    (computed : ChangeComputationResult) :
    SettlesCleanly (roundRobinFinish changeAddressResolver params computed) := by
  unfold roundRobinFinish
  refine SettlesCleanly.bind (Or.inl (hcallbacks.resolver _)) ?_
  intro change _
  refine SettlesCleanly.bind (Or.inl (hcallbacks.limit _)) ?_
  intro limit _
  split
  · exact Or.inr ⟨_, rfl⟩
  · exact Or.inl ⟨_, rfl⟩

theorem largeFirstFinish_settles
    (hcallbacks : CallbacksResolve changeAddressResolver params.constraints)
    (computed : ChangeComputationResult) :
    SettlesCleanly (largeFirstFinish changeAddressResolver params computed) := by
  unfold largeFirstFinish
  -- what follows the change is the same with and without a resolver
  have hrest (change : List TxOut) : SettlesCleanly (do
      let limit ← params.constraints.computeSelectionLimit
        { unresolvedSelection params computed with change := change }
      if (unresolvedSelection params computed).inputs.size > limit then
        failWith .maximumInputCountExceeded
      else pure ({
        remainingUTxO := computeRemainingUtxo params.utxo.toList
          (unresolvedSelection params computed).inputs
        selection := { unresolvedSelection params computed with
          change := change
          inputs := sortedInputSet (unresolvedSelection params computed).inputs } } :
            SelectionResult)) := by
    refine SettlesCleanly.bind (Or.inl (hcallbacks.limit _)) ?_
    intro limit _
    split
    · exact Or.inr ⟨_, rfl⟩
    · exact Or.inl ⟨_, rfl⟩
  dsimp only
  split
  · exact SettlesCleanly.bind (Or.inl ⟨[], rfl⟩) (fun change _ => hrest change)
  · exact SettlesCleanly.bind (Or.inl (hcallbacks.resolver _)) (fun change _ => hrest change)

/-- What is asked of a request: positive output asset quantities, entries
without a negative quantity, and a random source in `[0, 1)`. -/
structure OrdinaryRequest (random : ℕ → ℚ) (params : InputSelectionParameters) : Prop where
  assets : PositiveAssets params.outputs
  nonneg : ∀ utxo ∈ params.preSelectedUtxo.toList ++ params.utxo.toList,
    utxo.txOut.value.Nonneg
  random : ∀ n, 0 ≤ random n ∧ random n < 1

def roundRobinFinal (args : PreProcessedArgs) (random : ℕ → ℚ) : RoundRobinState :=
  roundRobinLoop (roundRobinToken args.outputs args.implicitValue) random
    ((listTokensWithin args.uniqueTxAssetIDs).length + args.utxo.length)
    { tokensRemaining := listTokensWithin args.uniqueTxAssetIDs
      tokenIdx := 0
      utxoSelected := args.requiredUtxo
      utxoRemaining := args.utxo
      drawn := 0 }

theorem tokensRemaining_roundRobinFinal {args : PreProcessedArgs}
    (hrandom : ∀ n, 0 ≤ random n ∧ random n < 1) :
    (roundRobinFinal args random).tokensRemaining = [] :=
  roundRobinLoop_ends args.outputs args.implicitValue hrandom le_rfl

/-- A token with entries left draws one of them, in any state of the loop. -/
def DrawsEntry (outputs : List TxOut) (implicitValue : RequiredImplicitValue)
    (random : ℕ → ℚ) : Prop :=
  ∀ (state : RoundRobinState) (token : TokenKind),
    let utxo := (roundRobinToken outputs implicitValue token).filterUtxo state.utxoRemaining
    utxo ≠ [] → ∃ input ∈ state.utxoRemaining,
      utxo[randomIndex random state.drawn utxo.length]? = some input

theorem drawsEntry_of_random (hrandom : ∀ n, 0 ≤ random n ∧ random n < 1) (outputs : List TxOut)
    (implicitValue : RequiredImplicitValue) : DrawsEntry outputs implicitValue random := by
  intro state token utxo hentries
  have hindex := randomIndex_lt hrandom state.drawn (List.length_pos_of_ne_nil hentries)
  exact ⟨_, mem_filterUtxo (List.getElem_mem hindex), List.getElem?_eq_getElem hindex⟩

/-- In every step of either selector the assets are covered, the divisors are
positive, the coin change is not negative and a pick adds an entry; the loops
and the recursion end; and with callbacks that do not reject, `select` resolves
or rejects with an `InputSelectionError`. -/
theorem selectors_safe {random : ℕ → ℚ} {params : InputSelectionParameters}
    {changeAddressResolver : ChangeAddressResolver} (hrequest : OrdinaryRequest random params)
    (hcallbacks : CallbacksResolve changeAddressResolver params.constraints) :
    (DrawsEntry params.outputs params.implicitValue.required random ∧
      (∀ call, roundRobinAdjustment random params = .ok call →
        (roundRobinFinal (preProcessArgs params.preSelectedUtxo params.utxo params.outputs
          params.implicitValue) random).tokensRemaining = [] ∧
        ∀ picks final, Tried call.args call.selection call.state picks final →
          SafeAt call.args final ∧ picks ≤ call.selection.utxoRemaining.length) ∧
      SettlesCleanly (roundRobinRandomImprove changeAddressResolver random params)) ∧
    ((∀ call, largeFirstAdjustment params = .ok call →
        ∀ picks final, Tried call.args call.selection call.state picks final →
          SafeAt call.args final ∧ picks ≤ call.selection.utxoRemaining.length) ∧
      SettlesCleanly (largeFirstSelect changeAddressResolver params)) := by
  have hpool := largeFirstPool_nonneg hrequest.nonneg
  refine ⟨⟨drawsEntry_of_random hrequest.random _ _, ?_, ?_⟩, ?_, ?_⟩
  · intro call hcall
    have hcovered := roundRobinAdjustment_covered hrequest.random hrequest.nonneg hcall
    constructor
    · exact tokensRemaining_roundRobinFinal hrequest.random
    · intro picks final htried
      have hlength := htried.picks_add_remaining hcovered.picks
      exact ⟨hcovered.safeAt hrequest.assets hrequest.nonneg htried, by omega⟩
  · rw [roundRobinRandomImprove_eq, roundRobinComputed, bind_assoc]
    refine SettlesCleanly.bind
      (settlesCleanly_of_error (fun e he => ⟨_, roundRobinAdjustment_error he⟩)) ?_
    intro call hcall
    have hcovered := roundRobinAdjustment_covered hrequest.random hrequest.nonneg hcall
    exact SettlesCleanly.bind
      (hcovered.run_settles hrequest.assets hrequest.nonneg hcallbacks.cost)
      (fun computed _ => roundRobinFinish_settles hcallbacks computed)
  · intro call hcall picks final htried
    have hcovered := largeFirstAdjustment_covered hrequest.nonneg hcall
    have hlength := htried.picks_add_remaining hcovered.picks
    exact ⟨hcovered.safeAt hrequest.assets hpool htried, by omega⟩
  · rw [largeFirstSelect_eq, largeFirstComputed, bind_assoc]
    refine SettlesCleanly.bind
      (settlesCleanly_of_error (fun e he => ⟨_, largeFirstAdjustment_error he⟩)) ?_
    intro call hcall
    have hcovered := largeFirstAdjustment_covered hrequest.nonneg hcall
    exact SettlesCleanly.bind (hcovered.run_settles hrequest.assets hpool hcallbacks.cost)
      (fun computed _ => largeFirstFinish_settles hcallbacks computed)

/-- Two entries, one output that asks for an asset, and a fee that the first
selection does not pay, so that another entry is picked. -/
def pickingRequest : InputSelectionParameters where
  preSelectedUtxo := JsSet.ofList [
    utxoOf 0 { coins := 12, assets := some (JsMap.ofList [([1], 5)]) }]
  utxo := JsSet.ofList [utxoOf 1 { coins := 30 }, utxoOf 2 { coins := 20 }]
  outputs := [outputOf { coins := 10, assets := some (JsMap.ofList [([1], 3)]) }]
  constraints := flatConstraints 6

theorem selectors_safe_picking :
    OrdinaryRequest (fun _ => 1 / 2) pickingRequest ∧
    (∃ call, largeFirstAdjustment pickingRequest = .ok call ∧
      call.selection.utxoRemaining.length = 2 ∧ SafeAt call.args call.selection) ∧
    (∃ call, roundRobinAdjustment (fun _ => 1 / 2) pickingRequest = .ok call ∧
      SafeAt call.args call.selection) := by
  have hrequest : OrdinaryRequest (fun _ => 1 / 2) pickingRequest := by
    refine ⟨by decide, by decide, fun _ => ?_⟩
    norm_num
  have hcallbacks : CallbacksResolve keepAddresses pickingRequest.constraints :=
    ⟨fun _ => ⟨_, rfl⟩, fun _ => ⟨_, rfl⟩, fun _ => ⟨_, rfl⟩⟩
  obtain ⟨⟨_, hroundRobin, _⟩, hlargeFirst, _⟩ := selectors_safe hrequest hcallbacks
  have hlf : okAnd (fun call => call.selection.utxoRemaining.length = 2)
      (largeFirstAdjustment pickingRequest) = true := by
    decide
  have hrr : okAnd (fun _ => true) (roundRobinAdjustment (fun _ => 1 / 2) pickingRequest) =
      true := by
    decide
  obtain ⟨call, hcall, hlength⟩ := okAnd_iff.mp hlf
  obtain ⟨call', hcall', _⟩ := okAnd_iff.mp hrr
  exact ⟨hrequest,
    ⟨call, hcall, of_decide_eq_true hlength,
      (hlargeFirst call hcall 0 call.selection (Tried.here _ _)).1⟩,
    ⟨call', hcall', ((hroundRobin call' hcall').2 0 call'.selection (Tried.here _ _)).1⟩⟩

end CardanoSdk.InputSelection
