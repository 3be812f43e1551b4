import CardanoSdk.InputSelection.BalanceFailure
import CardanoSdk.InputSelection.DoubleSpend
import CardanoSdk.InputSelection.ValidChange

/-!
For which outputs the estimate of the fee suffices. With two outputs the change without
the fee may be merged into fewer outputs than the change with it: what rounding and the
fee leave over goes to the first bundle, which may then reach its minimum coin, and a
bundle without coin may have a lower minimum than one with a little.
-/

namespace CardanoSdk.InputSelection

open Lib

/-- Every output must hold more coin than it does, unless it has none or holds
every mark there is. -/
def markedMinimum (mark : AssetId) (marks : ℕ) (output : TxOut) : ℤ :=
  if output.value.coins = 0 ∨ output.value.amount (.asset mark) = marks then 0
  else output.value.coins + 1

/-- As many bundles as there are marks, each with one. -/
structure MarkedBundles (mark : AssetId) (coins : ℤ) (bundles : List Value) : Prop where
  nonneg : ∀ bundle ∈ bundles, bundle.Nonneg
  marks : ∀ bundle ∈ bundles, bundle.amount (.asset mark) = 1
  coins : total .lovelace bundles = coins

variable {mark : AssetId} {marks : ℕ} {coins : ℤ} {bundles values : List Value} {value : Value}

theorem satisfies_markedMinimum (hcoins : 0 ≤ value.coins) :
    satisfiesMinCoinRequirement (markedMinimum mark marks) value = true ↔
      value.coins = 0 ∨ value.amount (.asset mark) = marks := by
  simp only [satisfiesMinCoinRequirement, markedMinimum, ge_iff_le, decide_eq_true_eq]
  split
  · rename_i hfree
    exact ⟨fun _ => hfree, fun _ => hcoins⟩
  · rename_i hbound
    exact ⟨fun hle => absurd hle (by omega), fun hfree => absurd hfree hbound⟩

theorem MarkedBundles.total_marks (h : MarkedBundles mark coins bundles) :
    total (.asset mark) bundles = bundles.length := by
  have hall : bundles.map (fun bundle => bundle.amount (.asset mark)) =
      List.replicate bundles.length 1 := by
    rw [List.eq_replicate_iff]
    refine ⟨List.length_map _, ?_⟩
    intro amount hamount
    obtain ⟨bundle, hbundle, rfl⟩ := List.mem_map.mp hamount
    exact h.marks bundle hbundle
  rw [total, hall]
  simp

theorem MarkedBundles.sorted (h : MarkedBundles mark coins bundles) :
    MarkedBundles mark coins (orderByCoinsDesc (bundles.map Value.positiveAssets)) := by
  have hperm := perm_orderByCoinsDesc (bundles.map Value.positiveAssets)
  refine ⟨?_, ?_, ?_⟩
  · intro bundle hbundle
    obtain ⟨original, horiginal, rfl⟩ := List.mem_map.mp (hperm.mem_iff.mp hbundle)
    exact positiveAssets_nonneg (h.nonneg original horiginal)
  · intro bundle hbundle
    obtain ⟨original, horiginal, rfl⟩ := List.mem_map.mp (hperm.mem_iff.mp hbundle)
    rw [amount_positiveAssets (h.nonneg original horiginal)]
    exact h.marks original horiginal
  · have hcoins := h.coins
    rw [total_perm hperm]
    simpa [total, Function.comp_def, Value.positiveAssets, Value.amount] using hcoins

theorem length_le_total (hmarks : ∀ value ∈ values, 1 ≤ value.amount (.asset mark)) :
    (values.length : ℤ) ≤ total (.asset mark) values := by
  induction values with
  | nil => simp
  | cons value rest ih =>
    have hrest := ih (fun v hv => hmarks v (by simp [hv]))
    have hvalue := hmarks value (by simp)
    rw [total_cons, List.length_cons]
    push_cast
    omega

/-- With one lovelace for all of them, the bundles end up as one. -/
theorem coalesceRounds_merges (h : MarkedBundles mark 1 values) :
    (coalesceRounds (markedMinimum mark values.length) values.length values).length ≤ 1 := by
  set merged := coalesceRounds (markedMinimum mark values.length) values.length values with hmerged
  have hkept := forall_mem_coalesceRounds
    (P := fun value => 0 ≤ value.coins ∧ 1 ≤ value.amount (.asset mark))
    (fun first second hfirst hsecond => by
      have hcoins := total_coalesceValueQuantities_pair first second .lovelace
      have hmarks := total_coalesceValueQuantities_pair first second (.asset mark)
      simp only [Value.amount] at hcoins hmarks hfirst hsecond ⊢
      omega) (markedMinimum mark values.length) values.length
    (fun value hvalue => ⟨h.nonneg value hvalue .lovelace, (h.marks value hvalue).ge⟩)
  rw [← hmerged] at hkept
  rcases coalesceRounds_settled (markedMinimum mark values.length) (le_refl values.length) with
    hone | hall
  · exact hone
  -- the bundle that has the lovelace holds every mark, so there is no other
  have hcoins : total .lovelace merged = 1 := by rw [hmerged, total_coalesceRounds, h.coins]
  have hmarks : total (.asset mark) merged = values.length := by
    rw [hmerged, total_coalesceRounds, h.total_marks]
  obtain ⟨bundle, hbundle, hpositive⟩ : ∃ bundle ∈ merged, bundle.coins ≠ 0 := by
    by_contra hnone
    push Not at hnone
    have hzero : total .lovelace merged = 0 := List.sum_eq_zero (by
      intro amount hamount
      obtain ⟨bundle, hbundle, rfl⟩ := List.mem_map.mp hamount
      exact hnone bundle hbundle)
    omega
  have hfull : bundle.amount (.asset mark) = values.length :=
    ((satisfies_markedMinimum (hkept bundle hbundle).1).mp (hall bundle hbundle)).resolve_left
      hpositive
  obtain ⟨before, after, hsplit⟩ := List.append_of_mem hbundle
  rw [hsplit] at hkept hmarks ⊢
  have hbefore := @length_le_total mark before
    (fun v hv => (hkept v (by simp [hv])).2)
  have hafter := @length_le_total mark after
    (fun v hv => (hkept v (by simp [hv])).2)
  rw [total_append, total_cons] at hmarks
  rw [List.length_append, List.length_cons]
  omega

theorem not_isEmptyBundle (hnonneg : value.Nonneg) (hmarks : 1 ≤ value.amount (.asset mark)) :
    value.isEmptyBundle = false := by
  by_contra hempty
  have hzero := amount_eq_zero_of_isEmptyBundle hnonneg (by simpa using hempty) (.asset mark)
  omega

theorem coalesceChangeBundles_merges (h : MarkedBundles mark 1 bundles) (hne : bundles ≠ []) :
    ∃ bundle, coalesceChangeBundlesForMinCoinRequirement bundles
      (markedMinimum mark bundles.length) = some [bundle] := by
  have hsorted := h.sorted
  have hlength : (orderByCoinsDesc (bundles.map Value.positiveAssets)).length = bundles.length := by
    rw [(perm_orderByCoinsDesc _).length_eq, List.length_map]
  set sorted := orderByCoinsDesc (bundles.map Value.positiveAssets) with hsortedEq
  have hone := coalesceRounds_merges hsorted
  have hmarks := total_coalesceRounds (markedMinimum mark sorted.length) sorted.length sorted
    (.asset mark)
  have hcoins := total_coalesceRounds (markedMinimum mark sorted.length) sorted.length sorted
    .lovelace
  rw [hsorted.total_marks] at hmarks
  rw [hsorted.coins] at hcoins
  have hpositive : 0 < bundles.length := List.length_pos_of_ne_nil hne
  obtain ⟨bundle, hbundle⟩ : ∃ bundle,
      coalesceRounds (markedMinimum mark sorted.length) sorted.length sorted = [bundle] := by
    apply List.length_eq_one_iff.mp
    have hnonempty : coalesceRounds (markedMinimum mark sorted.length) sorted.length sorted ≠ [] := by
      intro hnil
      rw [hnil, total_nil] at hcoins
      omega
    have hlength := List.length_pos_of_ne_nil hnonempty
    omega
  rw [hbundle, total_cons, total_nil, add_zero] at hmarks hcoins
  have hsatisfied : satisfiesMinCoinRequirement (markedMinimum mark sorted.length) bundle = true :=
    (satisfies_markedMinimum (by rw [Value.amount] at hcoins; omega)).mpr (Or.inr hmarks)
  have hnotEmpty : bundle.isEmptyBundle = false := by
    rw [Value.amount] at hcoins
    simp [Value.isEmptyBundle, hcoins]
  refine ⟨bundle, ?_⟩
  unfold coalesceChangeBundlesForMinCoinRequirement
  dsimp only
  rw [if_neg hpositive.ne', ← hsortedEq, ← hlength, hbundle]
  simp [hsatisfied, hnotEmpty]

theorem coalesceChangeBundles_keeps (h : MarkedBundles mark 0 bundles) (hne : bundles ≠ []) :
    ∃ result, coalesceChangeBundlesForMinCoinRequirement bundles (markedMinimum mark marks) =
        some result ∧ result.length = bundles.length := by
  have hsorted := h.sorted
  have hlength : (orderByCoinsDesc (bundles.map Value.positiveAssets)).length = bundles.length := by
    rw [(perm_orderByCoinsDesc _).length_eq, List.length_map]
  set sorted := orderByCoinsDesc (bundles.map Value.positiveAssets) with hsortedEq
  have hpositive : 0 < bundles.length := List.length_pos_of_ne_nil hne
  -- no bundle has coin, so none falls short
  have hsatisfied : ∀ value ∈ sorted,
      satisfiesMinCoinRequirement (markedMinimum mark marks) value = true := by
    intro value hvalue
    have hnonneg := hsorted.nonneg value hvalue .lovelace
    refine (satisfies_markedMinimum hnonneg).mpr (Or.inl ?_)
    have hle : value.coins ≤ total .lovelace sorted := List.single_le_sum (by
      intro amount hamount
      obtain ⟨other, hother, rfl⟩ := List.mem_map.mp hamount
      exact hsorted.nonneg other hother .lovelace) _ (List.mem_map_of_mem hvalue)
    rw [hsorted.coins] at hle
    exact le_antisymm hle hnonneg
  have hrounds : coalesceRounds (markedMinimum mark marks) sorted.length sorted = sorted := by
    cases hrounds : sorted.length with
    | zero => rfl
    | succ rounds =>
      unfold coalesceRounds
      rw [lastIndexFailing_eq_none hsatisfied]
      split <;> rfl
  obtain ⟨first, rest, hcons⟩ := List.exists_cons_of_length_pos (hlength ▸ hpositive)
  refine ⟨sorted, ?_, hlength⟩
  unfold coalesceChangeBundlesForMinCoinRequirement
  dsimp only
  rw [if_neg hpositive.ne', ← hsortedEq, hrounds]
  have hfilter : sorted.filter (fun bundle => !bundle.isEmptyBundle) = sorted := by
    rw [List.filter_eq_self]
    intro value hvalue
    rw [not_isEmptyBundle (hsorted.nonneg value hvalue) (hsorted.marks value hvalue).ge]
    rfl
  rw [hfilter, hcons]
  simp only [List.head?_cons]
  rw [if_pos (hsatisfied first (by simp [hcons]))]

def markedAssets (mark : AssetId) : TokenMap := JsMap.empty.set mark 1

variable {σ : Type} {args : ChangeComputationArgs σ} {utxoSelected : List Utxo}
  {uniqueTxAssetIDs : List AssetId} {fee : ℤ}

theorem entries_foldl_marks
    {append : JsMap AssetId (List ℤ) → Utxo → JsMap AssetId (List ℤ)}
    {leftovers : JsMap AssetId (List ℤ)} {quantities : List ℤ} {utxo : List Utxo}
    (happend : ∀ u ∈ utxo, ∀ leftovers, append leftovers u =
      leftovers.set mark ((leftovers.get? mark).getD [] ++ [1]))
    (hleftovers : leftovers.entries = [(mark, quantities)]) :
    (utxo.foldl append leftovers).entries =
      [(mark, quantities ++ List.replicate utxo.length 1)] := by
  induction utxo generalizing leftovers quantities with
  | nil => simpa using hleftovers
  | cons u rest ih =>
    have hget : leftovers.get? mark = some quantities := by
      simp [JsMap.get?, hleftovers, JsMap.lookup]
    have hset : (leftovers.set mark (quantities ++ [1])).entries = [(mark, quantities ++ [1])] := by
      rw [JsMap.entries_set, hleftovers]
      simp [JsMap.insertEntry]
    have hstep := ih (fun v hv => happend v (by simp [hv])) hset
    rw [List.foldl_cons, happend u (by simp), hget, Option.getD_some, hstep, List.append_assoc]
    rfl

theorem getLeftoverAssets_marked (hfresh : mark ∉ uniqueTxAssetIDs)
    (hmarked : ∀ u ∈ utxoSelected, u.txOut.value.assets = some (markedAssets mark))
    (hne : utxoSelected ≠ []) :
    (getLeftoverAssets utxoSelected uniqueTxAssetIDs).entries =
      [(mark, List.replicate utxoSelected.length 1)] := by
  obtain ⟨first, rest, rfl⟩ := List.exists_cons_of_ne_nil hne
  unfold getLeftoverAssets
  rw [List.foldl_cons, hmarked first (by simp)]
  refine @entries_foldl_marks mark _ _ [1] rest (fun u hu leftovers => ?_) ?_
  · rw [hmarked u (by simp [hu])]
    simp only [markedAssets, JsMap.entries_set, JsMap.empty, JsMap.insertEntry, List.foldl_cons,
      List.foldl_nil, hfresh, one_ne_zero, or_self, if_false]
  · simp only [markedAssets, JsMap.entries_set, JsMap.empty, JsMap.insertEntry, List.foldl_cons,
      List.foldl_nil, hfresh, one_ne_zero, or_self, if_false]
    rfl

theorem assignQuantities_marks (bundles : List Value) :
    assignQuantities mark (List.replicate bundles.length 1) bundles =
      bundles.map (fun bundle =>
        { assets := some ((bundle.assets.getD JsMap.empty).set mark 1), coins := bundle.coins }) := by
  induction bundles with
  | nil => rfl
  | cons bundle rest ih => rw [List.length_cons, List.replicate_succ, assignQuantities, ih]; rfl

theorem redistributeAsset_marks (hne : bundles ≠ []) :
    redistributeAsset bundles (mark, List.replicate bundles.length 1) =
      bundles.map (fun bundle =>
        { assets := some ((bundle.assets.getD JsMap.empty).set mark 1), coins := bundle.coins }) := by
  have hpositive : 0 < bundles.length := List.length_pos_of_ne_nil hne
  have hsorted : (List.replicate bundles.length (1 : ℤ)).insertionSort (fun a b => b ≤ a) =
      List.replicate bundles.length 1 :=
    List.perm_replicate.mp (List.perm_insertionSort _ _)
  unfold redistributeAsset
  simp only [if_neg hpositive.ne', hsorted, List.length_replicate, Nat.sub_self,
    coalesceSmallest, List.reverse_reverse]
  exact assignQuantities_marks bundles

theorem length_addCoinLost (hne : bundles ≠ []) (coinLost : ℤ) :
    (addCoinLost bundles coinLost).length = bundles.length := by
  unfold addCoinLost
  split
  · cases bundles with
    | nil => exact absurd rfl hne
    | cons first rest => rfl
  · rfl

theorem length_addAssetLost (hne : bundles ≠ []) (id : AssetId) (assetLost : ℤ) :
    (addAssetLost bundles id assetLost).length = bundles.length := by
  unfold addAssetLost
  split
  · cases bundles with
    | nil => exact absurd rfl hne
    | cons first rest => simp
  · rfl

theorem length_computeRequestedAssetChangeBundles {outputValues : List Value}
    {implicitValue : RequiredImplicitValue} (hne : outputValues ≠ [])
    (h : computeRequestedAssetChangeBundles utxoSelected outputValues uniqueTxAssetIDs
      implicitValue fee = .ok bundles) : bundles.length = outputValues.length := by
  unfold computeRequestedAssetChangeBundles at h
  dsimp only at h
  obtain ⟨created, hcreated, hloop⟩ := bind_ok h
  have hlength := (createBundlePerOutput_ok hcreated).bundles.length_eq
  have hcreatedNe : created.bundles ≠ [] := by
    rw [← List.length_pos_iff, ← hlength]
    exact List.length_pos_of_ne_nil hne
  refine foldlM_ok_invariant (fun bundles => bundles.length = outputValues.length) _
    uniqueTxAssetIDs ?_ ?_ hloop
  · rw [length_addCoinLost hcreatedNe, hlength]
  · intro current id _ hcurrent next hnext
    have hcurrentNe : current ≠ [] := by
      rw [← List.length_pos_iff, hcurrent]
      exact List.length_pos_of_ne_nil hne
    split at hnext
    · cases hnext
    · cases hnext
      rw [length_addAssetLost hcurrentNe, hcurrent]

/-- A selection of marked entries, one for each output, that holds one lovelace
more than the outputs and the deposit need. -/
structure MarkedSelection (args : ChangeComputationArgs σ) (mark : AssetId)
    (utxoSelected : List Utxo) : Prop where
  request : ChangeRequest args.outputValues args.uniqueTxAssetIDs args.implicitValue
  divisible : AssetsDivisible args utxoSelected
  fresh : mark ∉ args.uniqueTxAssetIDs
  marked : ∀ u ∈ utxoSelected, u.txOut.value.assets = some (markedAssets mark)
  nonneg : ∀ u ∈ utxoSelected, u.txOut.value.Nonneg
  length : utxoSelected.length = args.outputValues.length
  assets : ∀ id, requestedAmount args.outputValues args.implicitValue 0 (.asset id) ≤
    selectedAmount utxoSelected args.implicitValue (.asset id)
  coins : requestedAmount args.outputValues args.implicitValue 0 .lovelace + 1 =
    selectedAmount utxoSelected args.implicitValue .lovelace
  minimum : args.computeMinimumCoinQuantity = markedMinimum mark utxoSelected.length
  limit : args.tokenBundleSizeExceedsLimit = fun _ => false

theorem MarkedSelection.change (h : MarkedSelection args mark utxoSelected)
    (hne : utxoSelected ≠ []) (hfee : 0 ≤ fee) (hle : fee ≤ 1) :
    ∃ requested, computeRequestedAssetChangeBundles utxoSelected args.outputValues
        args.uniqueTxAssetIDs args.implicitValue fee = .ok requested ∧
      MarkedBundles mark (1 - fee)
        (redistributeLeftoverAssets utxoSelected requested args.uniqueTxAssetIDs) ∧
      (redistributeLeftoverAssets utxoSelected requested args.uniqueTxAssetIDs).length =
        utxoSelected.length := by
  obtain ⟨requested, hrequested⟩ := computeRequestedAssetChangeBundles_exists h.divisible fee
  have hcoins := h.coins
  simp only [requestedAmount, feeAmount, add_zero] at hcoins
  have hcovered : ∀ token, requestedAmount args.outputValues args.implicitValue fee token ≤
      selectedAmount utxoSelected args.implicitValue token := by
    intro token
    cases token with
    | lovelace => simp only [requestedAmount, feeAmount]; omega
    | asset id => exact h.assets id
  have hselected : ∀ value ∈ toValues utxoSelected, value.Nonneg := toValues_nonneg h.nonneg
  obtain ⟨htotals, hnonneg⟩ := redistributeLeftoverAssets_total h.request hselected
    (computeRequestedAssetChangeBundles_ok h.request hfee hcovered hrequested)
  have houtputs : args.outputValues ≠ [] := by
    rw [← List.length_pos_iff, ← h.length]
    exact List.length_pos_of_ne_nil hne
  have hlength : requested.length = utxoSelected.length := by
    rw [length_computeRequestedAssetChangeBundles houtputs hrequested, h.length]
  have hrequestedNe : requested ≠ [] := by
    rw [← List.length_pos_iff, hlength]
    exact List.length_pos_of_ne_nil hne
  have heq : redistributeLeftoverAssets utxoSelected requested args.uniqueTxAssetIDs =
      requested.map (fun bundle =>
        { assets := some ((bundle.assets.getD JsMap.empty).set mark 1), coins := bundle.coins }) := by
    rw [redistributeLeftoverAssets, getLeftoverAssets_marked h.fresh h.marked hne, ← hlength]
    exact redistributeAsset_marks hrequestedNe
  refine ⟨requested, hrequested, ⟨hnonneg, ?_, ?_⟩, ?_⟩
  · intro bundle hbundle
    rw [heq] at hbundle
    obtain ⟨original, _, rfl⟩ := List.mem_map.mp hbundle
    simp [Value.amount, assetsQuantity, JsMap.quantity_set]
  · have htotal := htotals .lovelace
    simp only [requestedAmount, feeAmount] at htotal
    omega
  · rw [heq, List.length_map, hlength]

theorem MarkedSelection.accepted (h : MarkedSelection args mark utxoSelected)
    {requested result : List Value}
    (hrequested : computeRequestedAssetChangeBundles utxoSelected args.outputValues
      args.uniqueTxAssetIDs args.implicitValue fee = .ok requested)
    (hresult : coalesceChangeBundlesForMinCoinRequirement
      (redistributeLeftoverAssets utxoSelected requested args.uniqueTxAssetIDs)
      (markedMinimum mark utxoSelected.length) = some result) :
    BundlesAccepted args utxoSelected fee result := by
  constructor
  · unfold computeChangeBundles
    rw [hrequested, h.minimum, h.limit]
    simp only [bind, Except.bind, hresult, splitChange_of_small]
    rfl
  · rw [h.limit]
    exact validateChangeBundles_of_small result

/-- Without the fee the change is one output, with it one for each entry. -/
theorem MarkedSelection.splits (h : MarkedSelection args mark utxoSelected)
    (hne : utxoSelected ≠ []) :
    ∃ bundle withFee, BundlesAccepted args utxoSelected 0 [bundle] ∧
      BundlesAccepted args utxoSelected 1 withFee ∧ withFee.length = utxoSelected.length := by
  have hpositive := List.length_pos_of_ne_nil hne
  obtain ⟨requested, hrequested, hmarked, hlength⟩ := h.change hne (le_refl 0) zero_le_one
  obtain ⟨requested', hrequested', hmarked', hlength'⟩ := h.change hne zero_le_one (le_refl 1)
  rw [sub_zero] at hmarked
  rw [sub_self] at hmarked'
  obtain ⟨bundle, hbundle⟩ := coalesceChangeBundles_merges hmarked
    (List.ne_nil_of_length_pos (hlength ▸ hpositive))
  obtain ⟨withFee, hwithFee, hkept⟩ := @coalesceChangeBundles_keeps _ utxoSelected.length _
    hmarked' (List.ne_nil_of_length_pos (hlength' ▸ hpositive))
  rw [hlength] at hbundle
  exact ⟨bundle, withFee, h.accepted hrequested hbundle, h.accepted hrequested' hwithFee,
    hkept.trans hlength'⟩

def pricePerOutputs (price : ℕ → ℤ) : CostCallback := fun selection =>
  .ok { fee := price selection.change.length }

theorem DegradeStep.length_le {change change' : List TxOut} (h : DegradeStep change change') :
    change'.length ≤ change.length := by
  cases h with
  | remove before after output => simp
  | lower before after output coins hcoins => simp
  | mergeLeft before between after first second merged hmerged => simp
  | mergeRight before between after first second merged hmerged => simp

theorem pricePerOutputs_monotone {price : ℕ → ℤ} (hprice : Monotone price)
    (hbounds : ∀ n, 0 ≤ price n ∧ price n ≤ maxU64) : MonotoneCost (pricePerOutputs price) where
  nonneg := by
    intro selection costs hcost
    cases hcost
    exact (hbounds _).1
  fits := by
    intro selection costs hcost
    cases hcost
    exact (hbounds _).2
  degrade := by
    intro selection change costs hstep hcost
    cases hcost
    exact ⟨_, rfl, hprice hstep.length_le⟩
  lowerFee := by
    intro selection fee costs _ hcost
    cases hcost
    exact ⟨_, rfl, le_refl _⟩

/-- One lovelace while there is at most one change output, and two otherwise. -/
def splitPrice (outputs : ℕ) : ℤ := if outputs ≤ 1 then 1 else 2

theorem splitPrice_monotone : MonotoneCost (pricePerOutputs splitPrice) := by
  refine pricePerOutputs_monotone ?_ ?_
  · intro m n hle
    unfold splitPrice
    split <;> split <;> omega
  · intro n
    unfold splitPrice maxU64
    split <;> omega

theorem MarkedSelection.not_feeSufficient {call : FeeAdjustment σ}
    (h : MarkedSelection call.args mark call.selection.utxoSelected)
    (hseveral : 1 < call.selection.utxoSelected.length) : ¬call.FeeSufficient := by
  intro hsufficient
  obtain ⟨bundle, withFee, hwithout, hwith, hlength⟩ :=
    h.splits (List.ne_nil_of_length_pos (by omega))
  have haffordable : Affordable call.args call.selection.utxoSelected 1 := by
    have hcoins := h.coins
    simp only [requestedAmount, selectedAmount, feeAmount, total_lovelace,
      RequiredImplicitValue.spentAmount, RequiredImplicitValue.inputAmount] at hcoins
    unfold Affordable
    omega
  have hrun : call.run (pricePerOutputs splitPrice) = .ok _ :=
    computeChangeAndAdjustForFee_here hwithout rfl haffordable hwith
  obtain ⟨costs, hcosts, hle⟩ := hsufficient _ splitPrice_monotone _ hrun
  cases hcosts
  have hmany : splitPrice (toChangeOutputs withFee).length = 2 := by
    rw [toChangeOutputs, List.length_map, hlength, splitPrice, if_neg (by omega)]
  change splitPrice (toChangeOutputs withFee).length ≤ 1 at hle
  omega

section Request

variable (outputs : List TxOut) (mark : AssetId)

def listedAssets : List AssetId := outputs.flatMap (fun o => assetKeys o.value.assets)

def markedEntries : List Utxo :=
  (List.range outputs.length).map (fun n => utxoOf n {
    coins := if n = 0 then total .lovelace (outputsToValues outputs) + 1 else 0
    assets := some (markedAssets mark) })

/-- The assets of the outputs are minted, each with one left over. -/
def markedRequest : InputSelectionParameters where
  preSelectedUtxo := JsSet.ofList (markedEntries outputs mark)
  utxo := JsSet.ofList []
  outputs := outputs
  constraints := {
    computeMinimumCost := pricePerOutputs splitPrice
    tokenBundleSizeExceedsLimit := fun _ => false
    computeMinimumCoinQuantity := markedMinimum mark outputs.length
    computeSelectionLimit := fun _ => .ok outputs.length }
  implicitValue := {
    mint := some (JsMap.empty.setAll (listedAssets outputs)
      (fun id => some (total (.asset id) (outputsToValues outputs) + 1))) }

variable {outputs mark} {inputs : JsSet Utxo}

theorem markedEntries_ids : ((markedEntries outputs mark).map Utxo.id).Nodup := by
  have hids : (markedEntries outputs mark).map Utxo.id =
      (List.range outputs.length).map (fun n => ([], n)) := by
    simp [markedEntries, Utxo.id, utxoOf, Function.comp_def]
  rw [hids]
  exact List.nodup_range.map (fun m n heq => (Prod.mk.inj heq).2)

theorem markedRequest_entries :
    (markedRequest outputs mark).entries = markedEntries outputs mark := by
  have hnodup : (markedEntries outputs mark).Nodup := List.Nodup.of_map _ markedEntries_ids
  rw [InputSelectionParameters.entries]
  change (JsSet.ofList (markedEntries outputs mark)).toList ++ [] = _
  rw [JsSet.ofList_toList_of_nodup hnodup, List.append_nil]

theorem total_markedEntries (hne : outputs ≠ []) :
    total .lovelace (toValues (markedEntries outputs mark)) =
      total .lovelace (outputsToValues outputs) + 1 := by
  obtain ⟨n, hn⟩ := Nat.exists_eq_succ_of_ne_zero (List.length_pos_of_ne_nil hne).ne'
  have hzero : ∀ k : ℕ, ((List.range k).map (fun _ => (0 : ℤ))).sum = 0 := by simp
  simp only [total, toValues, markedEntries, List.map_map, hn]
  rw [List.range_succ_eq_map]
  simp [utxoOf, Value.amount, Function.comp_def]

theorem markedRequest_minted (id : AssetId) :
    (markedRequest outputs mark).implicitValue.mintMap.quantity id =
      if id ∈ listedAssets outputs then total (.asset id) (outputsToValues outputs) + 1 else 0 := by
  change (JsMap.empty.setAll (listedAssets outputs)
    (fun id => some (total (.asset id) (outputsToValues outputs) + 1))).quantity id = _
  rw [JsMap.quantity_setAll]
  simp

theorem total_outputs_nonneg (hvalues : ∀ value ∈ outputsToValues outputs, value.Nonneg)
    (id : AssetId) : 0 ≤ (markedRequest outputs mark).implicitValue.mintMap.quantity id := by
  have htotal := total_nonneg hvalues (.asset id)
  rw [markedRequest_minted]
  split <;> omega

theorem not_mem_mint (hmark : mark ∉ listedAssets outputs) :
    mark ∉ (markedRequest outputs mark).implicitValue.mintMap.keys := by
  have hget : (markedRequest outputs mark).implicitValue.mintMap.get? mark = none := by
    change (JsMap.empty.setAll (listedAssets outputs)
      (fun id => some (total (.asset id) (outputsToValues outputs) + 1))).get? mark = none
    rw [JsMap.get?_setAll, if_neg hmark]
    rfl
  exact JsMap.get?_eq_none_iff.mp hget

theorem markedEntries_marked :
    ∀ u ∈ markedEntries outputs mark, u.txOut.value.assets = some (markedAssets mark) := by
  intro u hu
  obtain ⟨n, _, rfl⟩ := List.mem_map.mp hu
  rfl

theorem markedEntries_nonneg (hvalues : ∀ value ∈ outputsToValues outputs, value.Nonneg) :
    ∀ u ∈ markedEntries outputs mark, u.txOut.value.Nonneg := by
  have htotal := total_nonneg hvalues .lovelace
  intro u hu token
  obtain ⟨n, _, rfl⟩ := List.mem_map.mp hu
  cases token with
  | lovelace =>
    simp only [utxoOf, Value.amount]
    split <;> omega
  | asset id =>
    simp only [utxoOf, Value.amount, assetsQuantity, markedAssets, JsMap.quantity_set,
      JsMap.quantity_empty]
    split <;> omega

theorem entries_nonneg (hvalues : ∀ value ∈ outputsToValues outputs, value.Nonneg) :
    ∀ utxo ∈ (markedRequest outputs mark).entries, utxo.txOut.value.Nonneg := by
  rw [markedRequest_entries]
  exact markedEntries_nonneg hvalues

theorem markedRequest_requested (hvalues : ∀ value ∈ outputsToValues outputs, value.Nonneg)
    (token : TokenKind) : requestedAmount (outputsToValues outputs)
      (markedRequest outputs mark).implicitValue.required 0 token =
        total token (outputsToValues outputs) := by
  cases token with
  | lovelace => simp [requestedAmount, feeAmount, RequiredImplicitValue.spentAmount,
      ImplicitValue.required, ImplicitValue.requiredCoin, markedRequest]
  | asset id =>
    have hminted := @total_outputs_nonneg _ mark hvalues id
    simp only [requestedAmount, feeAmount, required_spent_asset, ImplicitValue.burned]
    omega

theorem markedRequest_selected_lovelace (utxo : List Utxo) :
    selectedAmount utxo (markedRequest outputs mark).implicitValue.required .lovelace =
      total .lovelace (toValues utxo) := by
  simp [selectedAmount, RequiredImplicitValue.inputAmount, ImplicitValue.required,
    ImplicitValue.requiredCoin, markedRequest]

theorem markedRequest_selected_asset {utxo : List Utxo}
    (hutxo : ∀ u ∈ utxo, u.txOut.value.Nonneg) (id : AssetId) :
    (if id ∈ listedAssets outputs then total (.asset id) (outputsToValues outputs) + 1 else 0) ≤
      selectedAmount utxo (markedRequest outputs mark).implicitValue.required (.asset id) := by
  have htotal := total_nonneg (toValues_nonneg hutxo) (.asset id)
  rw [← @markedRequest_minted _ mark, selectedAmount, required_input_asset,
    ImplicitValue.minted]
  omega

theorem not_shortage_markedRequest (hne : outputs ≠ [])
    (hvalues : ∀ value ∈ outputsToValues outputs, value.Nonneg) (token : TokenKind) :
    ¬Shortage (markedRequest outputs mark) token := by
  rw [shortage_iff, not_not, Covers, markedRequest_entries]
  change requestedAmount (outputsToValues outputs) _ 0 token ≤ _
  rw [markedRequest_requested hvalues]
  cases token with
  | lovelace =>
    rw [markedRequest_selected_lovelace, total_markedEntries hne]
    omega
  | asset id =>
    have hentries := @markedEntries_nonneg _ mark hvalues
    have hselected := @markedRequest_selected_asset outputs mark _ hentries id
    by_cases hid : id ∈ listedAssets outputs
    · rw [if_pos hid] at hselected
      omega
    · rw [if_neg hid] at hselected
      rw [total_asset_eq_zero_of_not_mem hid]
      exact hselected

theorem markedSelection_of_covered {call : FeeAdjustment σ} (hne : outputs ≠ [])
    (hvalues : ∀ value ∈ outputsToValues outputs, value.Nonneg)
    (h : CoveredAdjustment (markedRequest outputs mark) (markedRequest outputs mark).entries call)
    (hselected : call.selection.utxoSelected.Perm (markedRequest outputs mark).entries)
    (hmint : ∀ id ∈ (markedRequest outputs mark).implicitValue.mintMap.keys,
      id ∈ call.args.uniqueTxAssetIDs)
    (hnodup : call.args.uniqueTxAssetIDs.Nodup) (hfresh : mark ∉ call.args.uniqueTxAssetIDs)
    (hminimum : call.args.computeMinimumCoinQuantity = markedMinimum mark outputs.length)
    (hlimit : call.args.tokenBundleSizeExceedsLimit = fun _ => false) :
    MarkedSelection call.args mark call.selection.utxoSelected := by
  rw [markedRequest_entries] at hselected
  have houtputs : call.args.outputValues = outputsToValues outputs := h.outputValues
  have hentries := @markedEntries_nonneg _ mark hvalues
  have hlength : (markedEntries outputs mark).length = outputs.length := by simp [markedEntries]
  have hasset (id : AssetId) := @markedRequest_selected_asset outputs mark _ hentries id
  have hminted : ∀ id ∈ listedAssets outputs,
      id ∈ (markedRequest outputs mark).implicitValue.mintMap.keys := by
    intro id hid
    by_contra hnot
    have hquantity := @markedRequest_minted outputs mark id
    have htotal := total_nonneg hvalues (.asset id)
    rw [JsMap.quantity_of_not_mem hnot, if_pos hid] at hquantity
    omega
  refine ⟨?_, ?_, hfresh, fun u hu => markedEntries_marked u (hselected.mem_iff.mp hu),
    fun u hu => hentries u (hselected.mem_iff.mp hu), ?_, ?_, ?_, ?_, hlimit⟩
  · rw [houtputs, h.implicitValue]
    exact changeRequest_of_unique hvalues le_rfl hnodup h.outside hmint
  · intro value hvalue assets hassets entry hentry
    rw [houtputs] at hvalue
    obtain ⟨output, houtput, rfl⟩ := List.mem_map.mp hvalue
    have hlisted : entry.1 ∈ listedAssets outputs := by
      refine List.mem_flatMap.mpr ⟨output, houtput, ?_⟩
      rw [Option.mem_def.mp hassets]
      exact List.mem_map_of_mem hentry
    have hpositive := hasset entry.1
    have htotal := total_nonneg hvalues (.asset entry.1)
    rw [if_pos hlisted] at hpositive
    rw [h.implicitValue, selectedAmount_perm hselected]
    exact ⟨hmint _ (hminted _ hlisted), by omega⟩
  · rw [hselected.length_eq, hlength, houtputs, outputsToValues, List.length_map]
  · intro id
    rw [houtputs, h.implicitValue, selectedAmount_perm hselected,
      markedRequest_requested hvalues]
    have hselectedAsset := hasset id
    by_cases hid : id ∈ listedAssets outputs
    · rw [if_pos hid] at hselectedAsset
      omega
    · rw [if_neg hid] at hselectedAsset
      rw [total_asset_eq_zero_of_not_mem hid]
      exact hselectedAsset
  · rw [houtputs, h.implicitValue, selectedAmount_perm hselected,
      markedRequest_requested hvalues, markedRequest_selected_lovelace, total_markedEntries hne]
  · rw [hminimum, hselected.length_eq, hlength]

theorem roundRobinAdjustment_everything {params : InputSelectionParameters} {random : ℕ → ℚ}
    {call : FeeAdjustment ℕ} (hutxo : params.utxo.toList = [])
    (hcall : roundRobinAdjustment random params = .ok call) :
    call.selection.utxoSelected.Perm params.entries := by
  have hdivides := (roundRobinAdjustment_ok hcall).2
  have hprefix : params.preSelectedUtxo.toList <+: call.selection.utxoSelected := by
    unfold roundRobinAdjustment at hcall
    obtain ⟨_, _, hcall⟩ := bind_ok hcall
    cases hcall
    exact required_prefix_roundRobinSelection (preProcessArgs params.preSelectedUtxo params.utxo
      params.outputs params.implicitValue) random
  have hlength := List.Perm.length_eq hdivides
  have hle := hprefix.length_le
  rw [hutxo, List.append_nil, List.length_append] at hlength
  rw [InputSelectionParameters.entries, hutxo, List.append_nil,
    hprefix.eq_of_length (by omega)]

theorem largeFirstAdjustment_everything {params : InputSelectionParameters}
    {call : FeeAdjustment Unit} (hutxo : params.utxo.toList = [])
    (hcall : largeFirstAdjustment params = .ok call) :
    call.selection.utxoSelected.Perm params.entries := by
  have hdivides := (largeFirstAdjustment_ok hcall).2
  have hpool : largeFirstPool params.preSelectedUtxo params.utxo =
      params.preSelectedUtxo.toList := by
    simp [largeFirstPool, availableUtxo, hutxo]
  rw [hpool] at hdivides
  have hsubset : ∀ utxo ∈ params.preSelectedUtxo.toList, utxo ∈ call.selection.utxoSelected := by
    unfold largeFirstAdjustment at hcall
    obtain ⟨net, _, hcall⟩ := bind_ok hcall
    obtain ⟨afterAssets, hassets, hcall⟩ := bind_ok hcall
    obtain ⟨workingUtxo, hlovelace, hcall⟩ := bind_ok hcall
    cases hcall
    have hafter := selectAssets_mem (fun utxo hutxo => List.mem_append.mpr (Or.inl hutxo)) hassets
    exact fun utxo hutxo => (selectLovelace_ok hafter.2 hlovelace).1 utxo (hafter.1 utxo hutxo)
  have hremaining : call.selection.utxoRemaining = [] := by
    have hnodup : (call.selection.utxoSelected ++ call.selection.utxoRemaining).Nodup :=
      (List.Perm.nodup_iff hdivides).mpr params.preSelectedUtxo.nodup
    rw [List.eq_nil_iff_forall_not_mem]
    intro utxo hutxo
    have hselected := hsubset utxo ((List.Perm.mem_iff hdivides).mp (List.mem_append_right _ hutxo))
    exact (List.nodup_append.mp hnodup).2.2 utxo hselected utxo hutxo rfl
  rw [UtxoSelection.Divides, hremaining, List.append_nil] at hdivides
  rw [InputSelectionParameters.entries, hutxo, List.append_nil]
  exact hdivides

theorem ne_zero_of_subtractTokenMaps {l r : TokenMap} {id : AssetId} {quantity : ℤ}
    (h : ((subtractTokenMaps (some l) (some r)).getD JsMap.empty).get? id = some quantity) :
    quantity ≠ 0 := by
  simp only [subtractTokenMaps, Option.getD_some, JsMap.get?_setAll, JsMap.get?_empty] at h
  -- the value comes from one of the three loops, and each of them tests it
  split_ifs at h <;> simp at h <;> omega

theorem mark_not_mem_required {net : NetSelectionValues}
    (hmark : mark ∉ listedAssets outputs)
    (hnet : computeNetImplicitSelectionValues inputs outputs
      (markedRequest outputs mark).implicitValue = .ok net) : mark ∉ net.outputAssets.keys := by
  intro hmem
  have hquantity := quantity_outputAssets hnet mark
  have hminted := @markedRequest_minted outputs mark mark
  rw [if_neg hmark] at hminted
  rw [total_asset_eq_zero_of_not_mem hmark, ImplicitValue.burned, ImplicitValue.minted,
    hminted] at hquantity
  cases hget : net.outputAssets.get? mark with
  | none => exact JsMap.get?_eq_none_iff.mp hget hmem
  | some quantity =>
    rw [JsMap.quantity, hget] at hquantity
    rw [(computeNetImplicitSelectionValues_ok hnet).1] at hget
    exact ne_zero_of_subtractTokenMaps hget (by simpa using hquantity)

theorem mark_not_mem_largeFirst {call : FeeAdjustment Unit} (hmark : mark ∉ listedAssets outputs)
    (hcall : largeFirstAdjustment (markedRequest outputs mark) = .ok call) :
    mark ∉ call.args.uniqueTxAssetIDs := by
  unfold largeFirstAdjustment at hcall
  obtain ⟨net, hnet, hcall⟩ := bind_ok hcall
  obtain ⟨_, _, hcall⟩ := bind_ok hcall
  obtain ⟨_, _, hcall⟩ := bind_ok hcall
  cases hcall
  simp only [largeFirstChangeArgs, mem_uniq, List.mem_append, not_or]
  exact ⟨mark_not_mem_required hmark hnet, not_mem_mint hmark⟩

end Request

/-- The fee suffices for these outputs, whatever the entries, the minimum coin,
the limits, the mint and a deposit that is not negative. -/
def RoundRobinFeeSufficient (outputs : List TxOut) : Prop :=
  ∀ (params : InputSelectionParameters) (random : ℕ → ℚ) (call : FeeAdjustment ℕ),
    params.outputs = outputs → 0 ≤ params.implicitValue.requiredCoin.deposit →
    roundRobinAdjustment random params = .ok call → call.FeeSufficient

def LargeFirstFeeSufficient (outputs : List TxOut) : Prop :=
  ∀ (params : InputSelectionParameters) (call : FeeAdjustment Unit),
    params.outputs = outputs → 0 ≤ params.implicitValue.requiredCoin.deposit →
    largeFirstAdjustment params = .ok call → call.FeeSufficient

/-- An adjustment that does not start reports a shortage, and there is none. -/
theorem exists_adjustment {outputs : List TxOut} {mark : AssetId}
    {adjustment : Except SelectionError (FeeAdjustment σ)} (hne : outputs ≠ [])
    (hvalues : ∀ value ∈ outputsToValues outputs, value.Nonneg)
    (h : ∀ e, adjustment = .error e →
      BalanceInsufficient (markedRequest outputs mark) adjustment) :
    ∃ call, adjustment = .ok call := by
  cases hadjustment : adjustment with
  | ok call => exact ⟨call, rfl⟩
  | error e =>
    exfalso
    cases h e hadjustment with
    | noUtxo hentries =>
      rw [markedRequest_entries, markedEntries, List.map_eq_nil_iff, List.range_eq_nil] at hentries
      exact hne (List.length_eq_zero_iff.mp hentries)
    | shortage token hshortage => exact not_shortage_markedRequest hne hvalues token hshortage
    | fee call hcall _ =>
      rw [hadjustment] at hcall
      cases hcall

theorem length_le_one_of_roundRobin {outputs : List TxOut}
    (hvalues : ∀ value ∈ outputsToValues outputs, value.Nonneg)
    (h : RoundRobinFeeSufficient outputs) : outputs.length ≤ 1 := by
  by_contra hseveral
  have hne : outputs ≠ [] := List.ne_nil_of_length_pos (by omega)
  obtain ⟨mark, hmark⟩ := Infinite.exists_notMem_finset (listedAssets outputs).toFinset
  rw [List.mem_toFinset] at hmark
  obtain ⟨call, hcall⟩ := @exists_adjustment _ _ mark
    (roundRobinAdjustment (fun _ => 0) (markedRequest outputs mark)) hne hvalues
    (fun e he => roundRobinAdjustment_insufficient he)
  have hargs := (roundRobinAdjustment_ok hcall).1
  have hselected := roundRobinAdjustment_everything rfl hcall
  have hcovered := roundRobinAdjustment_covered (fun _ => ⟨le_rfl, zero_lt_one⟩)
    (entries_nonneg hvalues) hcall
  have hfresh : mark ∉ call.args.uniqueTxAssetIDs := by
    rw [hargs]
    simp only [roundRobinChangeArgs, preProcessArgs, mem_uniq, List.mem_append, not_or]
    exact ⟨hmark, not_mem_mint hmark⟩
  refine (markedSelection_of_covered hne hvalues hcovered hselected
    (mint_subset_roundRobin hcall) (hargs ▸ nodup_uniq _) hfresh (by rw [hargs]; rfl)
    (by rw [hargs]; rfl)).not_feeSufficient ?_ (h _ _ call rfl le_rfl hcall)
  rw [hselected.length_eq, markedRequest_entries, markedEntries, List.length_map,
    List.length_range]
  omega

theorem length_le_one_of_largeFirst {outputs : List TxOut}
    (hvalues : ∀ value ∈ outputsToValues outputs, value.Nonneg)
    (h : LargeFirstFeeSufficient outputs) : outputs.length ≤ 1 := by
  by_contra hseveral
  have hne : outputs ≠ [] := List.ne_nil_of_length_pos (by omega)
  obtain ⟨mark, hmark⟩ := Infinite.exists_notMem_finset (listedAssets outputs).toFinset
  rw [List.mem_toFinset] at hmark
  have hids : ((markedRequest outputs mark).entries.map Utxo.id).Nodup :=
    @markedRequest_entries outputs mark ▸ markedEntries_ids
  obtain ⟨call, hcall⟩ := @exists_adjustment _ _ mark
    (largeFirstAdjustment (markedRequest outputs mark)) hne hvalues
    (fun e he => largeFirstAdjustment_insufficient hids (entries_nonneg hvalues) he)
  obtain ⟨⟨requiredAssets, hargs⟩, _⟩ := largeFirstAdjustment_ok hcall
  have hselected := largeFirstAdjustment_everything rfl hcall
  have hcovered := largeFirstAdjustment_covered (entries_nonneg hvalues) hcall
  rw [largeFirstPool_of_distinct hids] at hcovered
  have hfresh : mark ∉ call.args.uniqueTxAssetIDs := mark_not_mem_largeFirst hmark hcall
  refine (markedSelection_of_covered hne hvalues hcovered hselected
    (mint_subset_largeFirst hcall) (hargs ▸ nodup_uniq _) hfresh (by rw [hargs]; rfl)
    (by rw [hargs]; rfl)).not_feeSufficient ?_ (h _ call rfl le_rfl hcall)
  rw [hselected.length_eq, markedRequest_entries, markedEntries, List.length_map,
    List.length_range]
  omega

def perOutputCost : CostCallback :=
  pricePerOutputs (fun outputs => min maxU64 (165000 + 3000 * outputs))

theorem perOutputCost_monotone : MonotoneCost perOutputCost := by
  refine pricePerOutputs_monotone ?_ ?_
  · intro m n hle
    dsimp only
    omega
  · intro n
    dsimp only [maxU64]
    omega

/-- One entry of 21.9 ada for outputs of 1 and 10 ada, with a minimum of 1 ada
in every output. Without the fee the first bundle is 0.99 ada and is merged;
with it the first bundle takes the fee's share of the change and stays. -/
def twoOutputsRequest : InputSelectionParameters where
  preSelectedUtxo := JsSet.ofList []
  utxo := JsSet.ofList [utxoOf 0 { coins := 21900000 }]
  outputs := [outputOf { coins := 1000000 }, outputOf { coins := 10000000 }]
  constraints := {
    computeMinimumCost := perOutputCost
    tokenBundleSizeExceedsLimit := fun _ => false
    computeMinimumCoinQuantity := fun _ => 1000000
    computeSelectionLimit := fun _ => .ok 100 }

def fallsShort {σ : Type} (cost : CostCallback) (call : FeeAdjustment σ) : Bool :=
  okAnd (fun result => okAnd (fun costs => decide (result.fee < costs.fee)) (cost {
    change := toChangeOutputs result.change
    fee := result.fee
    inputs := JsSet.ofList result.inputs
    outputs := call.outputs })) (call.run cost)

theorem not_coversCost_of_fallsShort {σ : Type} {cost : CostCallback} {call : FeeAdjustment σ}
    (h : fallsShort cost call = true) :
    ∃ result, call.run cost = .ok result ∧ ¬CoversCost cost call.outputs result := by
  obtain ⟨result, hrun, hcosts⟩ := okAnd_iff.mp h
  obtain ⟨costs, hcost, hlt⟩ := okAnd_iff.mp hcosts
  refine ⟨result, hrun, ?_⟩
  rintro ⟨costs', hcost', hle⟩
  rw [hcost] at hcost'
  cases hcost'
  exact not_lt.mpr hle (of_decide_eq_true hlt)

end CardanoSdk.InputSelection
