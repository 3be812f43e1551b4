import CardanoSdk.InputSelection.FeeCoverage

/-!
How a fee adjustment fails: it ends at one of the selections it tries, for one of four
reasons, and its fuel is not used up while every pick moves an entry.
-/

namespace CardanoSdk.InputSelection

open Lib

variable {σ : Type} {args : ChangeComputationArgs σ}

/-- Every output asset is an asset of the transaction and selected in a
positive quantity. -/
def AssetsDivisible (args : ChangeComputationArgs σ) (utxoSelected : List Utxo) : Prop :=
  ∀ value ∈ args.outputValues, ∀ assets ∈ value.assets, ∀ entry ∈ assets.entries,
    entry.1 ∈ args.uniqueTxAssetIDs ∧
      0 < selectedAmount utxoSelected args.implicitValue (.asset entry.1)

def ChangeComputationArgs.assetTotals (args : ChangeComputationArgs σ)
    (utxoSelected : List Utxo) : JsMap AssetId AssetTotal :=
  computeAssetTotals (toValues utxoSelected) args.outputValues args.uniqueTxAssetIDs
    args.implicitValue.implicitTokens

variable {id : AssetId} {tokenBundleSizeExceedsLimit : TokenMap → Bool} {selection : UtxoSelection}

theorem get?_assetTotals (utxoSelected : List Utxo) (hid : id ∈ args.uniqueTxAssetIDs) :
    (args.assetTotals utxoSelected).get? id = some
      { requested := requestedAmount args.outputValues args.implicitValue 0 (.asset id)
        selected := selectedAmount utxoSelected args.implicitValue (.asset id) } := by
  have hget := get?_computeAssetTotals utxoSelected args.outputValues args.uniqueTxAssetIDs
    args.implicitValue id 0
  rw [if_pos hid] at hget
  exact hget

variable {e : SelectionError} {utxoSelected : List Utxo}

theorem assetChange_exists (hid : id ∈ args.uniqueTxAssetIDs)
    (hpositive : 0 < selectedAmount utxoSelected args.implicitValue (.asset id)) (quantity : ℤ) :
    ∃ change, assetChange (args.assetTotals utxoSelected) id quantity = .ok change := by
  rw [assetChange, get?_assetTotals utxoSelected hid]
  exact ⟨_, if_neg hpositive.ne'⟩

theorem createBundlePerOutput_exists (h : AssetsDivisible args utxoSelected)
    (coinTotalRequested coinChangeTotal : ℤ) :
    ∃ created, createBundlePerOutput args.outputValues coinTotalRequested coinChangeTotal
      (args.assetTotals utxoSelected) = .ok created := by
  refine foldlM_exists_ok ?_ _
  intro acc value hvalue
  unfold bundleOutput
  cases hassets : value.assets with
  | none => exact ⟨_, rfl⟩
  | some assets =>
    have hbundle : ∃ bundled, bundleAssets (args.assetTotals utxoSelected)
        acc.totalAssetsBundled assets = .ok bundled := by
      refine foldlM_exists_ok ?_ _
      intro totals entry hentry
      obtain ⟨hid, hpositive⟩ := h value hvalue assets hassets entry hentry
      obtain ⟨change, hchange⟩ := assetChange_exists hid hpositive entry.2
      rw [hchange]
      exact ⟨_, rfl⟩
    obtain ⟨bundled, hbundled⟩ := hbundle
    dsimp only
    rw [hbundled]
    exact ⟨_, rfl⟩

theorem computeRequestedAssetChangeBundles_exists (h : AssetsDivisible args utxoSelected)
    (fee : ℤ) :
    ∃ bundles, computeRequestedAssetChangeBundles utxoSelected args.outputValues
      args.uniqueTxAssetIDs args.implicitValue fee = .ok bundles := by
  unfold computeRequestedAssetChangeBundles
  dsimp only
  obtain ⟨created, hcreated⟩ := createBundlePerOutput_exists h
    (getCoinQuantity args.outputValues + fee + args.implicitValue.implicitCoin.deposit)
    (getCoinQuantity (toValues utxoSelected) + args.implicitValue.implicitCoin.input -
      (getCoinQuantity args.outputValues + fee + args.implicitValue.implicitCoin.deposit))
  rw [ChangeComputationArgs.assetTotals] at hcreated
  rw [hcreated]
  refine foldlM_exists_ok ?_ _
  intro bundles id hid
  have hget := get?_assetTotals utxoSelected hid
  rw [ChangeComputationArgs.assetTotals] at hget
  rw [hget]
  exact ⟨_, rfl⟩

theorem splitBundle_error {computeMinimumCoinQuantity : TxOut → ℤ} {bundle : Value}
    (h : splitBundle computeMinimumCoinQuantity tokenBundleSizeExceedsLimit bundle = .error e) :
    e = .inputSelectionError .utxoFullyDepleted := by
  unfold splitBundle at h
  split at h
  · cases h
  · split at h
    · cases h
    · dsimp only at h
      split at h
      · cases h
        rfl
      · split at h
        · cases h
        · cases h

theorem computeChangeBundles_error (hdivisible : AssetsDivisible args utxoSelected) {fee : ℤ}
    (h : computeChangeBundles args utxoSelected fee = .error e) :
    e = .inputSelectionError .utxoFullyDepleted := by
  obtain ⟨requested, hrequested⟩ := computeRequestedAssetChangeBundles_exists hdivisible fee
  unfold computeChangeBundles at h
  rw [hrequested] at h
  rcases bind_error h with hfail | ⟨_, hok, h⟩
  · cases hfail
  · cases hok
    dsimp only at h
    split at h
    · cases h
    · rcases bind_error h with hsplit | ⟨adjusted, _, hpure⟩
      · obtain ⟨acc, bundle, _, hstep⟩ := foldlM_error hsplit
        rcases bind_error hstep with hbundle | ⟨pieces, _, hpure⟩
        · exact splitBundle_error hbundle
        · cases hpure
      · cases hpure

theorem validateChangeBundles_error {changeBundles : List Value}
    (h : validateChangeBundles changeBundles tokenBundleSizeExceedsLimit = .error e) :
    e = .inputSelectionError .utxoFullyDepleted := by
  unfold validateChangeBundles at h
  dsimp only at h
  split at h
  · cases h
    rfl
  · cases h

inductive GivesUp (args : ChangeComputationArgs σ) (selection : UtxoSelection) :
    SelectionError → Prop
  | change {fee : ℤ} {e : SelectionError}
      (hfail : computeChangeBundles args selection.utxoSelected fee = .error e) :
      GivesUp args selection e
  | depleted : GivesUp args selection (.inputSelectionError .utxoFullyDepleted)
  | costs {bundles : List Value} {e : SelectionError}
      (haccepted : BundlesAccepted args selection.utxoSelected 0 bundles)
      (hfail : args.estimateTxCosts selection.utxoSelected bundles = .error e) :
      GivesUp args selection e
  | insufficient {bundles : List Value} {costs : TxCosts}
      (hremaining : selection.utxoRemaining = [])
      (haccepted : BundlesAccepted args selection.utxoSelected 0 bundles)
      (hcosts : args.estimateTxCosts selection.utxoSelected bundles = .ok costs)
      (hexpensive : ¬Affordable args selection.utxoSelected costs.fee) :
      GivesUp args selection (.inputSelectionError .utxoBalanceInsufficient)

theorem computeChangeAndAdjustForFee_error {fuel : ℕ} {state : σ}
    (h : computeChangeAndAdjustForFee args fuel selection state = .error e) :
    ∃ picks final, Tried args selection state picks final ∧
      (GivesUp args final e ∨ (picks = fuel ∧ e = .outOfFuel)) := by
  induction fuel generalizing selection state with
  | zero =>
    cases h
    exact ⟨0, selection, Tried.here selection state, Or.inr ⟨rfl, rfl⟩⟩
  | succ fuel ih =>
    have hgive (hup : GivesUp args selection e) :
        ∃ picks final, Tried args selection state picks final ∧
          (GivesUp args final e ∨ (picks = fuel + 1 ∧ e = .outOfFuel)) :=
      ⟨0, selection, Tried.here selection state, Or.inl hup⟩
    have hagain (hmay : MayRetry args selection.utxoSelected)
        (h : (if selection.utxoRemaining.length > 0 then
          computeChangeAndAdjustForFee args fuel (args.pickAdditionalUtxo selection state).1
            (args.pickAdditionalUtxo selection state).2
        else failWith .utxoFullyDepleted) = .error e) :
        ∃ picks final, Tried args selection state picks final ∧
          (GivesUp args final e ∨ (picks = fuel + 1 ∧ e = .outOfFuel)) := by
      split at h
      · rename_i hlength
        obtain ⟨picks, final, htried, hreason⟩ := ih h
        refine ⟨picks + 1, final,
          Tried.pick (List.ne_nil_of_length_pos hlength) hmay htried, ?_⟩
        rcases hreason with hup | ⟨hpicks, hfuel⟩
        · exact Or.inl hup
        · exact Or.inr ⟨by omega, hfuel⟩
      · cases h
        exact hgive GivesUp.depleted
    unfold computeChangeAndAdjustForFee at h
    dsimp only at h
    rcases bind_error h with hfail | ⟨bundles, hbundles, h⟩
    · exact hgive (GivesUp.change hfail)
    cases bundles with
    | none => exact hagain (Or.inl hbundles) h
    | some bundlesWithFee =>
      rcases bind_error h with hfail | ⟨validated, hvalidated, h⟩
      · rw [validateChangeBundles_error hfail]
        exact ⟨0, selection, Tried.here selection state, Or.inl GivesUp.depleted⟩
      rw [validateChangeBundles_ok hvalidated] at h hvalidated
      have haccepted : BundlesAccepted args selection.utxoSelected 0 bundlesWithFee :=
        ⟨hbundles, hvalidated⟩
      have hmay : MayRetry args selection.utxoSelected := Or.inr ⟨bundlesWithFee, haccepted⟩
      rcases bind_error h with hfail | ⟨costs, hcosts, h⟩
      · exact hgive (GivesUp.costs haccepted hfail)
      split at h
      · rename_i hexpensive
        split at h
        · rename_i hlength
          cases h
          exact hgive (GivesUp.insufficient (List.length_eq_zero_iff.mp hlength) haccepted
            hcosts (not_le.mpr hexpensive))
        · exact hagain hmay h
      · rcases bind_error h with hfail | ⟨changeBundles, hchange, h⟩
        · exact hgive (GivesUp.change hfail)
        cases changeBundles with
        | none => exact hagain hmay h
        | some changeBundles =>
          rcases bind_error h with hfail | ⟨change, _, hpure⟩
          · rw [validateChangeBundles_error hfail]
            exact ⟨0, selection, Tried.here selection state, Or.inl GivesUp.depleted⟩
          · cases hpure

def PicksEntry (args : ChangeComputationArgs σ) : Prop :=
  ∀ selection state, selection.utxoRemaining ≠ [] →
    ∃ picked rest, (picked :: rest).Perm selection.utxoRemaining ∧
      (args.pickAdditionalUtxo selection state).1 =
        { utxoRemaining := rest, utxoSelected := selection.utxoSelected ++ [picked] }

theorem Tried.picks_add_remaining (hpick : PicksEntry args) {final : UtxoSelection} {state : σ}
    {picks : ℕ} (h : Tried args selection state picks final) :
    picks + final.utxoRemaining.length = selection.utxoRemaining.length := by
  induction h with
  | here => simp
  | @pick selection final state picks hremaining _ _ ih =>
    obtain ⟨picked, rest, hperm, hmoved⟩ := hpick selection state hremaining
    rw [hmoved] at ih
    have hlength := hperm.length_eq
    simp only [List.length_cons] at hlength ih
    omega

theorem FeeAdjustment.run_error {call : FeeAdjustment σ} {cost : CostCallback}
    (hpick : PicksEntry call.args)
    (hdivisible : ∀ picks final, Tried call.args call.selection call.state picks final →
      AssetsDivisible call.args final.utxoSelected) (h : call.run cost = .error e) :
    ∃ picks final, Tried call.args call.selection call.state picks final ∧
      (e = .inputSelectionError .utxoFullyDepleted ∨
        (∃ selection, cost selection = .error e) ∨
        (e = .inputSelectionError .utxoBalanceInsufficient ∧ final.utxoRemaining = [] ∧
          ∃ bundles costs, BundlesAccepted (call.argsWith cost) final.utxoSelected 0 bundles ∧
            (call.argsWith cost).estimateTxCosts final.utxoSelected bundles = .ok costs ∧
            ¬Affordable call.args final.utxoSelected costs.fee)) := by
  obtain ⟨picks, final, htried, hreason⟩ := computeChangeAndAdjustForFee_error h
  have htried' := FeeAdjustment.tried_argsWith htried
  refine ⟨picks, final, htried', ?_⟩
  rcases hreason with hup | ⟨hpicks, _⟩
  · cases hup with
    | change hfail =>
      exact Or.inl (computeChangeBundles_error (hdivisible picks final htried') hfail)
    | depleted => exact Or.inl rfl
    | costs _ hfail => exact Or.inr (Or.inl ⟨_, hfail⟩)
    | insufficient hremaining haccepted hcosts hexpensive =>
      exact Or.inr (Or.inr ⟨rfl, hremaining, _, _, haccepted, hcosts, hexpensive⟩)
  · have hlength := htried'.picks_add_remaining hpick
    omega

theorem roundRobin_picksEntry {random : ℕ → ℚ} (hrandom : ∀ n, 0 ≤ random n ∧ random n < 1)
    (params : InputSelectionParameters) (preProcessed : PreProcessedArgs) :
    PicksEntry (roundRobinChangeArgs params random preProcessed) := by
  intro selection drawn hremaining
  set pickFrom := if (selection.utxoRemaining.filter
      (fun u => u.txOut.value.assets.isNone)).length > 0 then
    selection.utxoRemaining.filter (fun u => u.txOut.value.assets.isNone)
    else selection.utxoRemaining with hpickFrom
  have hlength : 0 < pickFrom.length := by
    rw [hpickFrom]
    split
    · assumption
    · exact List.length_pos_of_ne_nil hremaining
  have hindex := randomIndex_lt hrandom drawn hlength
  set picked := pickFrom[randomIndex random drawn pickFrom.length] with hpicked
  have hmem : picked ∈ selection.utxoRemaining := by
    have hfrom : picked ∈ pickFrom := List.getElem_mem hindex
    rw [hpickFrom] at hfrom
    split at hfrom
    · exact (List.mem_filter.mp hfrom).1
    · exact hfrom
  refine ⟨picked, selection.utxoRemaining.erase picked, (List.perm_cons_erase hmem).symm, ?_⟩
  have hget : pickFrom[randomIndex random drawn pickFrom.length]? = some picked :=
    List.getElem?_eq_getElem hindex
  rw [hpickFrom] at hget
  simp only [roundRobinChangeArgs, createPickAdditionalRandomUtxo, hget]

theorem largeFirst_picksEntry (params : InputSelectionParameters) (requiredAssets : TokenMap) :
    PicksEntry (largeFirstChangeArgs params requiredAssets) := by
  intro selection state hremaining
  rcases pickAdditionalLargestUtxo_cases selection state with
    ⟨hnil, _⟩ | ⟨picked, rest, hperm, hmoved⟩
  · exact absurd hnil hremaining
  · exact ⟨picked, rest, hperm, hmoved⟩

end CardanoSdk.InputSelection
