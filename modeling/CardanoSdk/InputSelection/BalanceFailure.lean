import CardanoSdk.InputSelection.SafeSelection
import CardanoSdk.InputSelection.Partition

/-!
When the balance is reported insufficient: each of the checks that raise the error stands
for a shortage of all the entries together, and no shortage is missed.
-/

namespace CardanoSdk.InputSelection

open Lib

variable {σ : Type} {params : InputSelectionParameters}

def InputSelectionParameters.entries (params : InputSelectionParameters) : List Utxo :=
  params.preSelectedUtxo.toList ++ params.utxo.toList

/-- All entries together, with what is minted or comes in otherwise, hold less
of a token than the outputs and the burned assets or the deposit need. -/
def Shortage (params : InputSelectionParameters) : TokenKind → Prop
  | .asset id =>
    assetQuantitySelector id (toValues params.entries) + params.implicitValue.minted id <
      assetQuantitySelector id (outputsToValues params.outputs) + params.implicitValue.burned id
  | .lovelace =>
    getCoinQuantity (toValues params.entries) + params.implicitValue.requiredCoin.input <
      getCoinQuantity (outputsToValues params.outputs) +
        params.implicitValue.requiredCoin.deposit

/-- The fee estimated for a selection of every entry, with the change that
selection has before the fee, is more than what they hold beyond the outputs. -/
def FeeShortfall (params : InputSelectionParameters) (call : FeeAdjustment σ) : Prop :=
  ∃ selected bundles costs, selected.Perm params.entries ∧
    BundlesAccepted call.args selected 0 bundles ∧
    params.constraints.computeMinimumCost {
      inputs := JsSet.ofList selected
      outputs := params.outputs
      change := toChangeOutputs bundles
      fee := maxU64 } = .ok costs ∧
    getCoinQuantity (toValues params.entries) + params.implicitValue.requiredCoin.input <
      getCoinQuantity (outputsToValues params.outputs) +
        params.implicitValue.requiredCoin.deposit + costs.fee

inductive BalanceInsufficient (params : InputSelectionParameters)
    (adjustment : Except SelectionError (FeeAdjustment σ)) : Prop
  | noUtxo (hentries : params.entries = [])
  | shortage (token : TokenKind) (hshortage : Shortage params token)
  | fee (call : FeeAdjustment σ) (hcall : adjustment = .ok call)
      (hfee : FeeShortfall params call)

theorem shortage_iff {token : TokenKind} :
    Shortage params token ↔
      ¬Covers params.outputs params.implicitValue.required params.entries token := by
  cases token with
  | asset id =>
    simp only [Shortage, Covers, requestedAmount, selectedAmount, feeAmount,
      required_spent_asset, required_input_asset, total_asset, not_le, add_zero]
  | lovelace =>
    simp only [Shortage, Covers, requestedAmount, selectedAmount, feeAmount, total_lovelace,
      not_le, add_zero]
    rfl

theorem CoveredAdjustment.not_shortage {call : FeeAdjustment σ}
    (h : CoveredAdjustment params params.entries call)
    (hmint : ∀ id ∈ params.implicitValue.mintMap.keys, id ∈ call.args.uniqueTxAssetIDs)
    (hnonneg : ∀ utxo ∈ params.entries, utxo.txOut.value.Nonneg) (token : TokenKind) :
    ¬Shortage params token := by
  rw [shortage_iff, not_not]
  have hremaining : 0 ≤ total token (toValues call.selection.utxoRemaining) := total_nonneg
    (toValues_nonneg (fun utxo hutxo =>
      hnonneg utxo (h.covering.divides.mem_of_remaining hutxo))) token
  have hgrows : selectedAmount call.selection.utxoSelected params.implicitValue.required token ≤
      selectedAmount params.entries params.implicitValue.required token := by
    rw [← selectedAmount_perm h.covering.divides]
    simp only [selectedAmount, toValues, List.map_append, total_append] at hremaining ⊢
    omega
  by_cases htoken : token ∈ listTokensWithin call.args.uniqueTxAssetIDs
  · exact (h.covering.covers token htoken).trans hgrows
  · -- an asset outside the transaction is asked for by nothing
    cases token with
    | lovelace => exact absurd (List.mem_append.mpr (Or.inr (by simp))) htoken
    | asset id =>
      have hout : id ∉ call.args.uniqueTxAssetIDs :=
        fun hid => htoken (List.mem_append.mpr (Or.inl (List.mem_map_of_mem hid)))
      have hzero : params.implicitValue.mintMap.quantity id = 0 :=
        JsMap.quantity_of_not_mem (fun hmem => hout (hmint id hmem))
      have htotal := total_nonneg (toValues_nonneg hnonneg) (.asset id)
      simp only [Covers, requestedAmount, selectedAmount, feeAmount, required_spent_asset,
        required_input_asset, h.outside id hout, ImplicitValue.burned, ImplicitValue.minted,
        hzero, neg_zero, max_self]
      omega

variable {random : ℕ → ℚ} {changeAddressResolver : ChangeAddressResolver}

theorem mint_subset_roundRobin {call : FeeAdjustment ℕ}
    (h : roundRobinAdjustment random params = .ok call) :
    ∀ id ∈ params.implicitValue.mintMap.keys, id ∈ call.args.uniqueTxAssetIDs := by
  obtain ⟨hargs, _⟩ := roundRobinAdjustment_ok h
  intro id hid
  rw [hargs]
  simp only [roundRobinChangeArgs, preProcessArgs, mem_uniq, List.mem_append]
  exact Or.inr hid

theorem mint_subset_largeFirst {call : FeeAdjustment Unit}
    (h : largeFirstAdjustment params = .ok call) :
    ∀ id ∈ params.implicitValue.mintMap.keys, id ∈ call.args.uniqueTxAssetIDs := by
  obtain ⟨⟨requiredAssets, hargs⟩, _⟩ := largeFirstAdjustment_ok h
  intro id hid
  rw [hargs]
  simp only [largeFirstChangeArgs, mem_uniq, List.mem_append]
  exact Or.inr hid

theorem assertIsBalanceSufficient_eq_ok {uniqueTxAssetIDs : List AssetId}
    {preSelectedUtxo utxo : List Utxo} {outputs : List TxOut}
    {implicitValue : RequiredImplicitValue} (hentries : preSelectedUtxo ++ utxo ≠ [])
    (hcovers : ∀ token, Covers outputs implicitValue (preSelectedUtxo ++ utxo) token) :
    assertIsBalanceSufficient uniqueTxAssetIDs preSelectedUtxo utxo outputs implicitValue =
      .ok () := by
  have hlength : ¬preSelectedUtxo.length + utxo.length = 0 := by
    rw [← List.length_append]
    exact fun hzero => hentries (List.length_eq_zero_iff.mp hzero)
  have hcoins := hcovers .lovelace
  simp only [Covers, requestedAmount, selectedAmount, feeAmount, toValues, List.map_append,
    total_append, total_lovelace, RequiredImplicitValue.spentAmount,
    RequiredImplicitValue.inputAmount] at hcoins
  unfold assertIsBalanceSufficient assertIsCoinBalanceSufficient
  dsimp only
  rw [if_neg hlength, if_neg, if_neg]
  · rw [← total_lovelace, ← total_lovelace, total_append]
    simp only [toValues, total_lovelace]
    omega
  · rw [List.any_eq_true]
    rintro ⟨id, _, hinsufficient⟩
    have hasset := hcovers (.asset id)
    simp only [Covers, requestedAmount, selectedAmount, feeAmount, toValues, List.map_append,
      total_append, RequiredImplicitValue.spentAmount,
      RequiredImplicitValue.inputAmount] at hasset
    rw [decide_eq_true_eq, ← total_asset, ← total_asset, total_append] at hinsufficient
    simp only [toValues] at hinsufficient
    omega

variable {e : SelectionError} {available : List Utxo} {selected : JsSet Utxo}

theorem roundRobinAdjustment_insufficient (h : roundRobinAdjustment random params = .error e) :
    BalanceInsufficient params (roundRobinAdjustment random params) := by
  rcases bind_error h with hbalance | ⟨_, _, hpure⟩
  · by_contra hsufficient
    rw [assertIsBalanceSufficient_eq_ok] at hbalance
    · cases hbalance
    · exact fun hentries => hsufficient (.noUtxo hentries)
    · intro token
      by_contra hcovers
      exact hsufficient (.shortage token (shortage_iff.mpr hcovers))
  · cases hpure

theorem sum_filter_pos {α : Type} (quantity : α → ℤ) {l : List α}
    (h : ∀ a ∈ l, 0 ≤ quantity a) :
    ((l.filter (fun a => quantity a > 0)).map quantity).sum = (l.map quantity).sum := by
  induction l with
  | nil => rfl
  | cons a rest ih =>
    simp only [List.mem_cons, forall_eq_or_imp] at h
    have hrest := ih h.2
    by_cases hpos : quantity a > 0
    · simpa [List.filter_cons, hpos] using hrest
    · have hzero : quantity a = 0 := by omega
      simpa [List.filter_cons, hzero] using hrest

theorem selectAsset_insufficient {required : AssetId × ℤ}
    (hnonneg : ∀ utxo ∈ available, utxo.txOut.value.Nonneg)
    (h : selectAsset available selected required = .error e) :
    total (.asset required.1) (toValues available) < required.2 := by
  unfold selectAsset at h
  dsimp only at h
  obtain ⟨taken, _, hsum, hall, _⟩ := selectCandidates_spec
    (fun u => assetsQuantity u.txOut.value.assets required.1) required.2
    (sortUtxoByAssetQuantity required.1 (available.filter (fun u =>
      assetsQuantity u.txOut.value.assets required.1 > 0))) selected 0
  split at h
  · rename_i hshort
    have htaken := hall hshort
    rw [hsum, htaken, zero_add] at hshort
    have hperm : (sortUtxoByAssetQuantity required.1 (available.filter (fun u =>
        assetsQuantity u.txOut.value.assets required.1 > 0))).Perm (available.filter (fun u =>
          assetsQuantity u.txOut.value.assets required.1 > 0)) := List.perm_insertionSort _ _
    rw [(hperm.map _).sum_eq] at hshort
    rw [sum_filter_pos] at hshort
    · simpa [total, toValues, Value.amount, Function.comp_def] using hshort
    · intro utxo hutxo
      exact hnonneg utxo hutxo (.asset required.1)
  · cases h

theorem perm_adaCandidates (hids : (available.map Utxo.id).Nodup)
    (hselected : ∀ utxo ∈ selected.toList, utxo ∈ available) :
    (selected.toList ++ adaCandidates available selected).Perm available := by
  refine (List.perm_ext_iff_of_nodup (nodup_adaCandidates (List.Nodup.of_map _ hids) selected)
    (List.Nodup.of_map _ hids)).mpr ?_
  intro utxo
  rw [List.mem_append, mem_adaCandidates]
  constructor
  · rintro (hutxo | ⟨hutxo, _⟩)
    · exact hselected utxo hutxo
    · exact hutxo
  · intro hutxo
    by_cases hmem : utxo ∈ selected.toList
    · exact Or.inl hmem
    · refine Or.inr ⟨hutxo, ?_⟩
      intro other hother htxIn
      have hid : other.id = utxo.id := by rw [Utxo.id, Utxo.id, htxIn]
      rw [List.inj_on_of_nodup_map hids (hselected other hother) hutxo hid] at hother
      exact hmem hother

theorem selectLovelace_insufficient {target implicitCoinInput : ℤ}
    (hids : (available.map Utxo.id).Nodup)
    (hselected : ∀ utxo ∈ selected.toList, utxo ∈ available)
    (h : selectLovelace target available selected implicitCoinInput = .error e) :
    available = [] ∨ getCoinQuantity (toValues available) + implicitCoinInput < target := by
  have hperm := perm_adaCandidates hids hselected
  obtain ⟨taken, _, ⟨_, hreason⟩ | ⟨result, hok, _⟩⟩ :=
    selectLovelace_cases target available selected implicitCoinInput
  · rcases hreason with ⟨hempty, hnone⟩ | ⟨hall, hshort⟩
    · left
      rw [hempty, hnone, List.nil_append] at hperm
      exact hperm.symm.eq_nil
    · right
      have hvalues : (toValues (selected.toList ++ adaCandidates available selected)).Perm
          (toValues available) := hperm.map _
      rw [← total_lovelace, ← total_perm hvalues]
      rw [hall] at hshort
      simp only [toValues, List.map_append, total_append, total_lovelace] at hshort ⊢
      omega
  · rw [hok] at h
    cases h

theorem hasNegativeAssetValue_iff {assets : Option TokenMap} :
    hasNegativeAssetValue assets = true ↔ ∃ id, assetsQuantity assets id < 0 := by
  constructor
  · intro h
    by_contra hnone
    push Not at hnone
    rw [hasNegativeAssetValue_eq_false_of_nonneg hnone] at h
    cases h
  · rintro ⟨id, hid⟩
    cases assets with
    | none => exact absurd hid (lt_irrefl 0)
    | some m =>
      cases hget : m.get? id with
      | none =>
        simp only [assetsQuantity, JsMap.quantity, hget, Option.getD_none] at hid
        exact absurd hid (lt_irrefl 0)
      | some quantity =>
        simp only [assetsQuantity, JsMap.quantity, hget, Option.getD_some] at hid
        have hmem : (id, quantity) ∈ m.entries := JsMap.get?_eq_some_iff.mp hget
        exact List.any_eq_true.mpr
          ⟨quantity, List.mem_map.mpr ⟨_, hmem, rfl⟩, decide_eq_true hid⟩

/-- The check on the net values counts the mint twice, so it is too lenient but
never spurious. -/
theorem computeNetImplicitSelectionValues_insufficient (hnodup : params.entries.Nodup)
    (h : computeNetImplicitSelectionValues (JsSet.ofList params.entries) params.outputs
      params.implicitValue = .error e) : params.entries = [] ∨ ∃ token, Shortage params token := by
  have hlist : (JsSet.ofList params.entries).toList = params.entries :=
    JsSet.ofList_toList_of_nodup hnodup
  unfold computeNetImplicitSelectionValues at h
  dsimp only at h
  rw [hlist] at h
  split at h
  · rename_i hcheck
    simp only [Bool.or_eq_true, decide_eq_true_eq] at hcheck
    rcases hcheck with (hsize | hcoins) | hnegative
    · left
      have hnil := List.length_eq_zero_iff.mp hsize
      rwa [hlist] at hnil
    · right
      refine ⟨.lovelace, ?_⟩
      simp only [aggregateLovelace] at hcoins
      simp only [Shortage]
      omega
    · right
      obtain ⟨id, hid⟩ := hasNegativeAssetValue_iff.mp hnegative
      refine ⟨.asset id, ?_⟩
      have hminted : 0 ≤ params.implicitValue.minted id := le_max_right _ _
      rw [assetsQuantity_subtractTokenMaps] at hid
      simp only [assetsQuantity, quantity_available, quantity_required, total_asset] at hid
      simp only [Shortage]
      omega
  · cases h

theorem largeFirstAdjustment_insufficient (hids : (params.entries.map Utxo.id).Nodup)
    (hnonneg : ∀ utxo ∈ params.entries, utxo.txOut.value.Nonneg)
    (h : largeFirstAdjustment params = .error e) :
    BalanceInsufficient params (largeFirstAdjustment params) := by
  have hpool : largeFirstPool params.preSelectedUtxo params.utxo = params.entries :=
    largeFirstPool_of_distinct hids
  have herror := h
  unfold largeFirstAdjustment at herror
  dsimp only at herror
  rw [hpool] at herror
  rcases bind_error herror with hnet | ⟨net, hnet, herror⟩
  · rcases computeNetImplicitSelectionValues_insufficient (List.Nodup.of_map _ hids) hnet with
      hentries | ⟨token, hshortage⟩
    · exact .noUtxo hentries
    · exact .shortage token hshortage
  rcases bind_error herror with hassets | ⟨afterAssets, hassets, herror⟩
  · obtain ⟨selected, entry, hentry, hstep⟩ := foldlM_error hassets
    have hshort := selectAsset_insufficient hnonneg hstep
    have hquantity := quantity_outputAssets hnet entry.1
    rw [JsMap.quantity, JsMap.get?_eq_some_iff.mpr hentry, Option.getD_some] at hquantity
    refine .shortage (.asset entry.1) ?_
    simp only [Shortage, ← total_asset]
    omega
  rcases bind_error herror with hlovelace | ⟨workingUtxo, _, hpure⟩
  · have hpre : ∀ utxo ∈ params.preSelectedUtxo.toList, utxo ∈ params.entries :=
      fun utxo hutxo => List.mem_append.mpr (Or.inl hutxo)
    rcases selectLovelace_insufficient hids (selectAssets_mem hpre hassets).2 hlovelace with
      hentries | hshort
    · exact .noUtxo hentries
    · rw [(computeNetImplicitSelectionValues_ok hnet).2] at hshort
      exact .shortage .lovelace hshort
  · cases hpure

/-- The callbacks and the resolver do not reject with the selector's own
balance error. -/
structure CallbacksKeepBalanceError (changeAddressResolver : ChangeAddressResolver)
    (constraints : SelectionConstraints) : Prop where
  cost : ∀ selection, constraints.computeMinimumCost selection ≠
    failWith .utxoBalanceInsufficient
  limit : ∀ selection, constraints.computeSelectionLimit selection ≠
    failWith .utxoBalanceInsufficient
  resolver : ∀ selection, changeAddressResolver selection ≠ failWith .utxoBalanceInsufficient

theorem CoveredAdjustment.feeShortfall {call : FeeAdjustment σ}
    (h : CoveredAdjustment params params.entries call)
    (houtputs : call.outputs = params.outputs) (hassets : PositiveAssets params.outputs)
    (hnonneg : ∀ utxo ∈ params.entries, utxo.txOut.value.Nonneg)
    (hcost : ∀ selection, params.constraints.computeMinimumCost selection ≠
      failWith .utxoBalanceInsufficient)
    (hrun : call.run params.constraints.computeMinimumCost = failWith .utxoBalanceInsufficient) :
    FeeShortfall params call := by
  obtain ⟨_, final, htried, hreason⟩ := FeeAdjustment.run_error h.picks
    (fun _ _ htried => h.divisible hassets (h.tried hnonneg htried)) hrun
  rcases hreason with hdepleted | ⟨selection, hfail⟩ |
    ⟨_, hremaining, bundles, costs, haccepted, hcosts, hexpensive⟩
  · cases hdepleted
  · exact absurd hfail (hcost selection)
  · have hdivides := (h.tried hnonneg htried).divides
    rw [UtxoSelection.Divides, hremaining, List.append_nil] at hdivides
    have hvalues : (toValues final.utxoSelected).Perm (toValues params.entries) := hdivides.map _
    simp only [FeeAdjustment.argsWith, houtputs] at hcosts
    refine ⟨final.utxoSelected, bundles, costs, hdivides, haccepted, hcosts, ?_⟩
    rw [Affordable, h.outputValues, h.implicitValue, not_le, ← total_lovelace (toValues _),
      total_perm hvalues, total_lovelace] at hexpensive
    simp only [ImplicitValue.required] at hexpensive
    omega

theorem roundRobinFinish_ne_balance
    (hcallbacks : CallbacksKeepBalanceError changeAddressResolver params.constraints)
    (computed : ChangeComputationResult) :
    roundRobinFinish changeAddressResolver params computed ≠
      failWith .utxoBalanceInsufficient := by
  intro h
  rcases bind_error h with hresolver | ⟨change, _, h⟩
  · exact hcallbacks.resolver _ hresolver
  rcases bind_error h with hlimit | ⟨limit, _, h⟩
  · exact hcallbacks.limit _ hlimit
  split at h
  · cases h
  · cases h

theorem largeFirstFinish_ne_balance
    (hcallbacks : CallbacksKeepBalanceError changeAddressResolver params.constraints)
    (computed : ChangeComputationResult) :
    largeFirstFinish changeAddressResolver params computed ≠
      failWith .utxoBalanceInsufficient := by
  intro h
  unfold largeFirstFinish at h
  dsimp only at h
  split at h
  · rcases bind_error h with hpure | ⟨change, _, h⟩
    · cases hpure
    rcases bind_error h with hlimit | ⟨limit, _, h⟩
    · exact hcallbacks.limit _ hlimit
    split at h
    · cases h
    · cases h
  · rcases bind_error h with hresolver | ⟨change, _, h⟩
    · exact hcallbacks.resolver _ hresolver
    rcases bind_error h with hlimit | ⟨limit, _, h⟩
    · exact hcallbacks.limit _ hlimit
    split at h
    · cases h
    · cases h

/-- What is asked of a request: distinct ids, entries without a negative
quantity, positive output asset quantities, and a random source in `[0, 1)`. -/
structure DistinctRequest (random : ℕ → ℚ) (params : InputSelectionParameters) : Prop where
  ids : (params.entries.map Utxo.id).Nodup
  nonneg : ∀ utxo ∈ params.entries, utxo.txOut.value.Nonneg
  assets : PositiveAssets params.outputs
  random : ∀ n, 0 ≤ random n ∧ random n < 1

/-- Both selectors report an insufficient balance only if there is no entry,
some token is short, or the fee of all entries is out of reach; and they report
it whenever some token is short. -/
theorem selectors_balance_failure {random : ℕ → ℚ} {params : InputSelectionParameters}
    {changeAddressResolver : ChangeAddressResolver} (hrequest : DistinctRequest random params)
    (hcallbacks : CallbacksKeepBalanceError changeAddressResolver params.constraints) :
    ((roundRobinRandomImprove changeAddressResolver random params =
          failWith .utxoBalanceInsufficient →
        BalanceInsufficient params (roundRobinAdjustment random params)) ∧
      (∀ token, Shortage params token →
        roundRobinRandomImprove changeAddressResolver random params =
          failWith .utxoBalanceInsufficient)) ∧
    ((largeFirstSelect changeAddressResolver params = failWith .utxoBalanceInsufficient →
        BalanceInsufficient params (largeFirstAdjustment params)) ∧
      (∀ token, Shortage params token →
        largeFirstSelect changeAddressResolver params = failWith .utxoBalanceInsufficient)) := by
  have hpool : largeFirstPool params.preSelectedUtxo params.utxo = params.entries :=
    largeFirstPool_of_distinct hrequest.ids
  have hroundRobin {call : FeeAdjustment ℕ} (hcall : roundRobinAdjustment random params = .ok call) :
      CoveredAdjustment params params.entries call :=
    roundRobinAdjustment_covered hrequest.random hrequest.nonneg hcall
  have hlargeFirst {call : FeeAdjustment Unit} (hcall : largeFirstAdjustment params = .ok call) :
      CoveredAdjustment params params.entries call := by
    have hcovered := largeFirstAdjustment_covered hrequest.nonneg hcall
    rwa [hpool] at hcovered
  refine ⟨⟨?_, ?_⟩, ?_, ?_⟩
  · intro hfail
    rw [roundRobinRandomImprove_eq, roundRobinComputed, bind_assoc] at hfail
    rcases bind_error hfail with hstart | ⟨call, hcall, hfail⟩
    · exact roundRobinAdjustment_insufficient hstart
    rcases bind_error hfail with hrun | ⟨computed, _, hfinish⟩
    · have houtputs : call.outputs = params.outputs := by
        obtain ⟨_, _, hpure⟩ := bind_ok hcall
        cases hpure
        rfl
      exact .fee call hcall ((hroundRobin hcall).feeShortfall houtputs hrequest.assets
        hrequest.nonneg hcallbacks.cost hrun)
    · exact absurd hfinish (roundRobinFinish_ne_balance hcallbacks computed)
  · intro token hshortage
    rw [roundRobinRandomImprove_eq, roundRobinComputed, bind_assoc]
    cases hstart : roundRobinAdjustment random params with
    | ok call =>
      exact absurd hshortage ((hroundRobin hstart).not_shortage (mint_subset_roundRobin hstart)
        hrequest.nonneg token)
    | error e =>
      rw [roundRobinAdjustment_error hstart]
      rfl
  · intro hfail
    rw [largeFirstSelect_eq, largeFirstComputed, bind_assoc] at hfail
    rcases bind_error hfail with hstart | ⟨call, hcall, hfail⟩
    · exact largeFirstAdjustment_insufficient hrequest.ids hrequest.nonneg hstart
    rcases bind_error hfail with hrun | ⟨computed, _, hfinish⟩
    · have houtputs : call.outputs = params.outputs := by
        obtain ⟨_, _, h⟩ := bind_ok hcall
        obtain ⟨_, _, h⟩ := bind_ok h
        obtain ⟨_, _, hpure⟩ := bind_ok h
        cases hpure
        rfl
      exact .fee call hcall ((hlargeFirst hcall).feeShortfall houtputs hrequest.assets
        hrequest.nonneg hcallbacks.cost hrun)
    · exact absurd hfinish (largeFirstFinish_ne_balance hcallbacks computed)
  · intro token hshortage
    rw [largeFirstSelect_eq, largeFirstComputed, bind_assoc]
    cases hstart : largeFirstAdjustment params with
    | ok call =>
      exact absurd hshortage ((hlargeFirst hstart).not_shortage (mint_subset_largeFirst hstart)
        hrequest.nonneg token)
    | error e =>
      rw [largeFirstAdjustment_error hstart]
      rfl

def burningRequest : InputSelectionParameters where
  preSelectedUtxo := JsSet.ofList []
  utxo := JsSet.ofList [utxoOf 0 { coins := 100, assets := some (JsMap.ofList [([1], 5)]) }]
  outputs := [outputOf { coins := 40, assets := some (JsMap.ofList [([1], 3)]) }]
  constraints := flatConstraints 0
  implicitValue := { mint := some (JsMap.ofList [([1], -3)]) }

theorem selectors_balance_failure_burning :
    Shortage burningRequest (.asset [1]) ∧
    roundRobinRandomImprove keepAddresses (fun _ => 0) burningRequest =
      failWith .utxoBalanceInsufficient ∧
    largeFirstSelect keepAddresses burningRequest = failWith .utxoBalanceInsufficient := by
  have hshortage : Shortage burningRequest (.asset [1]) := by
    simp only [Shortage]
    decide
  have hrequest : DistinctRequest (fun _ => 0) burningRequest :=
    ⟨by decide, by decide, by decide, fun _ => by norm_num⟩
  have hcallbacks : CallbacksKeepBalanceError keepAddresses burningRequest.constraints := by
    refine ⟨?_, ?_, ?_⟩
    · intro selection h
      cases h
    · intro selection h
      cases h
    · intro selection h
      cases h
  obtain ⟨⟨_, hroundRobin⟩, _, hlargeFirst⟩ := selectors_balance_failure hrequest hcallbacks
  exact ⟨hshortage, hroundRobin _ hshortage, hlargeFirst _ hshortage⟩

end CardanoSdk.InputSelection
