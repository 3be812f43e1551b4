import CardanoSdk.InputSelection.SelectionBalance

/-!
The round-robin selector conserves value: a token that is no longer in the queue is
covered by the selected entries.
-/

namespace CardanoSdk.InputSelection

open Lib

variable {random : ℕ → ℚ} {outputs : List TxOut} {implicitValue : RequiredImplicitValue}
  {token : TokenKind} {utxo : Utxo}

theorem randomIndex_lt (hrandom : ∀ n, 0 ≤ random n ∧ random n < 1) (drawn : ℕ) {length : ℕ}
    (hlength : 0 < length) : randomIndex random drawn length < length := by
  obtain ⟨hnonneg, hlt⟩ := hrandom drawn
  have hpos : (0 : ℚ) < length := by exact_mod_cast hlength
  have hproduct : random drawn * length < length := by
    calc
      random drawn * length < 1 * length := mul_lt_mul_of_pos_right hlt hpos
      _ = length := one_mul _
  have hfloor : ⌊random drawn * length⌋ < (length : ℤ) := by
    rw [Int.floor_lt]
    exact_mod_cast hproduct
  unfold randomIndex
  omega

theorem roundRobinToken_minimumTarget (outputs : List TxOut)
    (implicitValue : RequiredImplicitValue) (token : TokenKind) :
    (roundRobinToken outputs implicitValue token).minimumTarget =
      requestedAmount (outputsToValues outputs) implicitValue 0 token := by
  cases token <;>
    simp [roundRobinToken, requestedAmount, RequiredImplicitValue.spentAmount, feeAmount,
      total_lovelace, total_asset]

theorem roundRobinToken_getTotalSelectedQuantity (outputs : List TxOut)
    (implicitValue : RequiredImplicitValue) (token : TokenKind) (utxo : List Utxo) :
    (roundRobinToken outputs implicitValue token).getTotalSelectedQuantity utxo =
      selectedAmount utxo implicitValue token := by
  cases token <;> rfl

variable {remaining : List Utxo} {args : PreProcessedArgs} {params : InputSelectionParameters}

theorem amount_eq_zero_of_not_mem_filterUtxo
    (h : ((roundRobinToken outputs implicitValue token).filterUtxo remaining).length = 0)
    (hutxo : utxo ∈ remaining) : utxo.txOut.value.amount token = 0 := by
  have hnil := List.length_eq_zero_iff.mp h
  cases token with
  | lovelace =>
    have hremaining : remaining = [] := hnil
    rw [hremaining] at hutxo
    cases hutxo
  | asset id =>
    have hfilter := List.filter_eq_nil_iff.mp hnil utxo hutxo
    simpa [Value.amount] using hfilter

theorem mem_filterUtxo
    (h : utxo ∈ (roundRobinToken outputs implicitValue token).filterUtxo remaining) :
    utxo ∈ remaining := by
  cases token with
  | lovelace => exact h
  | asset id => exact (List.mem_filter.mp h).1

def Covers (outputs : List TxOut) (implicitValue : RequiredImplicitValue)
    (utxoSelected : List Utxo) (token : TokenKind) : Prop :=
  requestedAmount (outputsToValues outputs) implicitValue 0 token ≤
    selectedAmount utxoSelected implicitValue token

theorem roundRobinStep_divides {token : TokenKind → RoundRobinToken}
    (htoken : ∀ kind remaining, (token kind).filterUtxo remaining ⊆ remaining) {random : ℕ → ℚ}
    {available : List Utxo} {state : RoundRobinState} {current : TokenKind}
    (h : UtxoSelection.Divides ⟨state.utxoSelected, state.utxoRemaining⟩ available) :
    UtxoSelection.Divides
      ⟨(roundRobinStep token random state current).utxoSelected,
        (roundRobinStep token random state current).utxoRemaining⟩ available := by
  unfold roundRobinStep
  dsimp only
  split
  · split
    · exact h
    · rename_i input hinput
      split
      · exact h.move (htoken current _ (List.mem_of_getElem? hinput))
      · exact h
  · exact h

section Loop

variable {outputs : List TxOut} {implicitValue : RequiredImplicitValue} {available : List Utxo}
  {tokens : List TokenKind}

structure RoundRobinInvariant (outputs : List TxOut) (implicitValue : RequiredImplicitValue)
    (available : List Utxo) (tokens : List TokenKind) (state : RoundRobinState) : Prop where
  divides : UtxoSelection.Divides
    { utxoSelected := state.utxoSelected, utxoRemaining := state.utxoRemaining } available
  covered : ∀ token ∈ tokens, token ∈ state.tokensRemaining ∨
    Covers outputs implicitValue state.utxoSelected token

theorem selectedAmount_eq_of_remaining_zero {selection : UtxoSelection}
    (hdivides : selection.Divides available)
    (hzero : ∀ utxo ∈ selection.utxoRemaining, utxo.txOut.value.amount token = 0) :
    selectedAmount selection.utxoSelected implicitValue token =
      selectedAmount available implicitValue token := by
  rw [← selectedAmount_perm hdivides]
  have hremaining : total token (toValues selection.utxoRemaining) = 0 := by
    apply List.sum_eq_zero
    intro amount hamount
    obtain ⟨value, hvalue, rfl⟩ := List.mem_map.mp hamount
    obtain ⟨utxo, hutxo, rfl⟩ := List.mem_map.mp hvalue
    exact hzero utxo hutxo
  simp only [selectedAmount, toValues, List.map_append, total_append] at hremaining ⊢
  omega

variable {state : RoundRobinState} {random : ℕ → ℚ} {current : TokenKind}

/-- What one pass does: it moves an entry that improves the selection, or it drops the
token because no entry holds it or the entry picked does not improve the selection. -/
theorem roundRobinStep_cases (outputs : List TxOut) (implicitValue : RequiredImplicitValue)
    (hrandom : ∀ n, 0 ≤ random n ∧ random n < 1) (state : RoundRobinState) (current : TokenKind) :
    (∃ input ∈ state.utxoRemaining,
      improvesSelection state.utxoSelected input
        (roundRobinToken outputs implicitValue current).minimumTarget
        (roundRobinToken outputs implicitValue current).getTotalSelectedQuantity = true ∧
      roundRobinStep (roundRobinToken outputs implicitValue) random state current =
        { state with
          tokenIdx := state.tokenIdx + 1
          utxoSelected := state.utxoSelected ++ [input]
          utxoRemaining := state.utxoRemaining.erase input
          drawn := state.drawn + 1 }) ∨
    ((((roundRobinToken outputs implicitValue current).filterUtxo
          state.utxoRemaining).length = 0 ∨
        Covers outputs implicitValue state.utxoSelected current) ∧
      ∃ drawn, roundRobinStep (roundRobinToken outputs implicitValue) random state current =
        { state with
          tokensRemaining := state.tokensRemaining.eraseIdx state.tokenIdx
          tokenIdx := state.tokenIdx + 1
          drawn := drawn }) := by
  unfold roundRobinStep
  dsimp only
  split
  · rename_i hlength
    have hget := randomIndex_lt hrandom state.drawn hlength
    rw [List.getElem?_eq_getElem hget]
    dsimp only
    split
    · rename_i himproves
      exact Or.inl ⟨_, mem_filterUtxo (List.getElem_mem hget), himproves, rfl⟩
    · -- the token was covered already
      rename_i himproves
      refine Or.inr ⟨Or.inr ?_, _, rfl⟩
      unfold improvesSelection at himproves
      dsimp only at himproves
      split at himproves
      · exact absurd rfl himproves
      · rename_i hge
        rw [roundRobinToken_minimumTarget, roundRobinToken_getTotalSelectedQuantity] at hge
        exact not_lt.mp hge
  · -- nothing that remains holds the token
    rename_i hlength
    exact Or.inr ⟨Or.inl (Nat.eq_zero_of_not_pos hlength), _, rfl⟩

/-- A token is dropped only when it is covered: what nobody holds any more was covered
by the balance check. -/
theorem covers_of_dropped
    (hbalance : ∀ token ∈ tokens, Covers outputs implicitValue available token)
    (hdivides : UtxoSelection.Divides
      { utxoSelected := state.utxoSelected, utxoRemaining := state.utxoRemaining } available)
    (htoken : current ∈ tokens)
    (h : ((roundRobinToken outputs implicitValue current).filterUtxo
        state.utxoRemaining).length = 0 ∨ Covers outputs implicitValue state.utxoSelected current) :
    Covers outputs implicitValue state.utxoSelected current := by
  rcases h with hempty | hcovers
  · unfold Covers
    rw [selectedAmount_eq_of_remaining_zero hdivides
      (fun utxo hutxo => amount_eq_zero_of_not_mem_filterUtxo hempty hutxo)]
    exact hbalance current htoken
  · exact hcovers

theorem roundRobinStep_decreases (outputs : List TxOut) (implicitValue : RequiredImplicitValue)
    {random : ℕ → ℚ} (hrandom : ∀ n, 0 ≤ random n ∧ random n < 1) {state : RoundRobinState}
    {current : TokenKind}
    (hcurrent : state.tokensRemaining[state.tokenIdx]? = some current) :
    (roundRobinStep (roundRobinToken outputs implicitValue) random state current).tokensRemaining ⊆
        state.tokensRemaining ∧
      (roundRobinStep (roundRobinToken outputs implicitValue) random state
          current).tokensRemaining.length +
        (roundRobinStep (roundRobinToken outputs implicitValue) random state
          current).utxoRemaining.length <
      state.tokensRemaining.length + state.utxoRemaining.length := by
  rcases roundRobinStep_cases outputs implicitValue hrandom state
    current with ⟨input, hmem, _, hstep⟩ | ⟨_, drawn, hstep⟩
  · rw [hstep]
    have hless := List.length_erase_of_mem hmem
    have hpos := List.length_pos_of_mem hmem
    refine ⟨List.Subset.refl _, ?_⟩
    simp only
    omega
  · rw [hstep]
    have hidx := (List.getElem?_eq_some_iff.mp hcurrent).1
    have herase : (state.tokensRemaining.eraseIdx state.tokenIdx).length + 1 =
        state.tokensRemaining.length := List.length_eraseIdx_add_one hidx
    refine ⟨List.eraseIdx_subset, ?_⟩
    simp only
    omega

private theorem covered_eraseIdx
    (h : RoundRobinInvariant outputs implicitValue available tokens state)
    (hcurrent : state.tokensRemaining[state.tokenIdx]? = some current)
    (hcovers : Covers outputs implicitValue state.utxoSelected current) :
    ∀ token ∈ tokens, token ∈ state.tokensRemaining.eraseIdx state.tokenIdx ∨
      Covers outputs implicitValue state.utxoSelected token := by
  intro token htoken
  rcases h.covered token htoken with hmem | hcovered
  · obtain ⟨hidx, hget⟩ := List.getElem?_eq_some_iff.mp hcurrent
    have hperm := List.getElem_cons_eraseIdx_perm hidx
    rcases List.mem_cons.mp (hperm.mem_iff.mpr hmem) with heq | hrest
    · rw [heq, hget]
      exact Or.inr hcovers
    · exact Or.inl hrest
  · exact Or.inr hcovered

theorem roundRobinStep_invariant (hrandom : ∀ n, 0 ≤ random n ∧ random n < 1)
    (hnonneg : ∀ utxo ∈ available, utxo.txOut.value.Nonneg)
    (hbalance : ∀ token ∈ tokens, Covers outputs implicitValue available token)
    (hcurrent : state.tokensRemaining[state.tokenIdx]? = some current) (htoken : current ∈ tokens)
    (h : RoundRobinInvariant outputs implicitValue available tokens state) :
    RoundRobinInvariant outputs implicitValue available tokens
      (roundRobinStep (roundRobinToken outputs implicitValue) random state current) := by
  have hdivides : UtxoSelection.Divides _ available := @roundRobinStep_divides
    (roundRobinToken outputs implicitValue) (fun _ _ _ => mem_filterUtxo) random _ _ current
    h.divides
  rcases roundRobinStep_cases outputs implicitValue hrandom state
    current with ⟨input, hmem, _, hstep⟩ | ⟨hdropped, _, hstep⟩
  · refine ⟨hdivides, ?_⟩
    rw [hstep]
    intro token htoken
    rcases h.covered token htoken with hqueue | hcovered
    · exact Or.inl hqueue
    · refine Or.inr (le_trans hcovered ?_)
      have hinputNonneg := hnonneg input (h.divides.mem_of_remaining hmem)
      exact selectedAmount_le_append state.utxoSelected hinputNonneg implicitValue token
  · refine ⟨hdivides, ?_⟩
    rw [hstep]
    exact covered_eraseIdx h hcurrent (covers_of_dropped hbalance h.divides htoken hdropped)

/-- The loops end: every pass shortens the queue or the list of remaining entries. -/
theorem roundRobinLoop_ends (outputs : List TxOut) (implicitValue : RequiredImplicitValue)
    {random : ℕ → ℚ} (hrandom : ∀ n, 0 ≤ random n ∧ random n < 1) {passes : ℕ}
    {state : RoundRobinState}
    (hpasses : state.tokensRemaining.length + state.utxoRemaining.length ≤ passes) :
    (roundRobinLoop (roundRobinToken outputs implicitValue) random passes
      state).tokensRemaining = [] := by
  induction passes generalizing state with
  | zero => exact List.length_eq_zero_iff.mp (by simp only [roundRobinLoop]; omega)
  | succ passes ih =>
    unfold roundRobinLoop
    dsimp only
    split
    · rename_i hnone
      rw [List.getElem?_eq_none_iff] at hnone
      apply List.length_eq_zero_iff.mp
      split at hnone <;> omega
    · rename_i current hcurrent
      set start : RoundRobinState := { state with tokenIdx :=
        if state.tokenIdx < state.tokensRemaining.length then state.tokenIdx else 0 }
      have hless := (@roundRobinStep_decreases outputs implicitValue random hrandom start current
        hcurrent).2
      exact ih (Nat.le_of_lt_succ (lt_of_lt_of_le hless hpasses))

theorem roundRobinLoop_invariant (hrandom : ∀ n, 0 ≤ random n ∧ random n < 1)
    (hnonneg : ∀ utxo ∈ available, utxo.txOut.value.Nonneg)
    (hbalance : ∀ token ∈ tokens, Covers outputs implicitValue available token) (passes : ℕ)
    (hqueue : state.tokensRemaining ⊆ tokens)
    (h : RoundRobinInvariant outputs implicitValue available tokens state) :
    RoundRobinInvariant outputs implicitValue available tokens
      (roundRobinLoop (roundRobinToken outputs implicitValue) random passes state) := by
  induction passes generalizing state with
  | zero => exact h
  | succ passes ih =>
    unfold roundRobinLoop
    dsimp only
    split
    · exact h
    · rename_i current hcurrent
      set start : RoundRobinState := { state with tokenIdx :=
        if state.tokenIdx < state.tokensRemaining.length then state.tokenIdx else 0 }
      have hstart : RoundRobinInvariant outputs implicitValue available tokens start :=
        ⟨h.divides, h.covered⟩
      have hmem : current ∈ tokens := hqueue (List.mem_of_getElem? hcurrent)
      have hsubset := (@roundRobinStep_decreases outputs implicitValue random hrandom start
        current hcurrent).1
      exact ih (fun token htoken => hqueue (hsubset htoken))
        (roundRobinStep_invariant hrandom hnonneg hbalance hcurrent hmem hstart)

end Loop

theorem createPickAdditionalRandomUtxo_cases (random : ℕ → ℚ) (selection : UtxoSelection)
    (drawn : ℕ) :
    (createPickAdditionalRandomUtxo random selection drawn).1 = selection ∨
      ∃ picked ∈ selection.utxoRemaining,
        (createPickAdditionalRandomUtxo random selection drawn).1 = selection.move picked := by
  unfold createPickAdditionalRandomUtxo
  dsimp only
  split
  · exact Or.inl rfl
  · rename_i picked hpicked
    have hmem := List.mem_of_getElem? hpicked
    refine Or.inr ⟨picked, ?_, rfl⟩
    split at hmem
    · exact (List.mem_filter.mp hmem).1
    · exact hmem

theorem Covers.append {utxoSelected : List Utxo}
    (h : Covers outputs implicitValue utxoSelected token) (hutxo : utxo.txOut.value.Nonneg) :
    Covers outputs implicitValue (utxoSelected ++ [utxo]) token :=
  h.trans (selectedAmount_le_append utxoSelected hutxo implicitValue token)

/-- A division of the available entries whose selected part covers the tokens. -/
structure CoveringSelection (outputs : List TxOut) (implicitValue : RequiredImplicitValue)
    (available : List Utxo) (tokens : List TokenKind) (selection : UtxoSelection) : Prop where
  divides : selection.Divides available
  covers : ∀ token ∈ tokens, Covers outputs implicitValue selection.utxoSelected token

theorem CoveringSelection.move {outputs : List TxOut} {implicitValue : RequiredImplicitValue}
    {available : List Utxo} {tokens : List TokenKind} {selection : UtxoSelection}
    (h : CoveringSelection outputs implicitValue available tokens selection)
    (hnonneg : ∀ utxo ∈ available, utxo.txOut.value.Nonneg) {utxo : Utxo}
    (hutxo : utxo ∈ selection.utxoRemaining) :
    CoveringSelection outputs implicitValue available tokens (selection.move utxo) where
  divides := h.divides.move hutxo
  covers := fun token htoken =>
    (h.covers token htoken).append (hnonneg utxo (h.divides.mem_of_remaining hutxo))

theorem assertIsBalanceSufficient_ok {uniqueTxAssetIDs : List AssetId}
    {preSelectedUtxo utxo : List Utxo}
    (h : assertIsBalanceSufficient uniqueTxAssetIDs preSelectedUtxo utxo outputs implicitValue =
      .ok ()) :
    ∀ token ∈ listTokensWithin uniqueTxAssetIDs,
      Covers outputs implicitValue (preSelectedUtxo ++ utxo) token := by
  have hswap (token : TokenKind) : selectedAmount (preSelectedUtxo ++ utxo) implicitValue token =
      total token (toValues utxo ++ toValues preSelectedUtxo) + implicitValue.inputAmount token := by
    simp only [selectedAmount, toValues, List.map_append, total_append]
    omega
  unfold assertIsBalanceSufficient at h
  dsimp only at h
  split at h
  · cases h
  · split at h
    · cases h
    · rename_i hassets
      intro token htoken
      unfold Covers
      rw [hswap]
      rcases List.mem_append.mp htoken with hasset | hlovelace
      · obtain ⟨id, hid, rfl⟩ := List.mem_map.mp hasset
        have hnot : ¬ _ := fun hinsufficient => hassets (List.any_eq_true.mpr ⟨id, hid, hinsufficient⟩)
        simp only [decide_eq_true_eq, not_lt] at hnot
        simpa [requestedAmount, feeAmount, total_asset, RequiredImplicitValue.spentAmount,
          RequiredImplicitValue.inputAmount, -total_append] using hnot
      · rw [List.mem_singleton.mp hlovelace]
        unfold assertIsCoinBalanceSufficient at h
        split at h
        · cases h
        · rename_i hcoins
          simpa [requestedAmount, feeAmount, total_lovelace, RequiredImplicitValue.spentAmount,
            RequiredImplicitValue.inputAmount, -total_append] using hcoins

theorem roundRobinSelection_covering (hrandom : ∀ n, 0 ≤ random n ∧ random n < 1)
    (hnonneg : ∀ utxo ∈ args.requiredUtxo ++ args.utxo, utxo.txOut.value.Nonneg)
    (hbalance : ∀ token ∈ listTokensWithin args.uniqueTxAssetIDs,
      Covers args.outputs args.implicitValue (args.requiredUtxo ++ args.utxo) token) :
    CoveringSelection args.outputs args.implicitValue (args.requiredUtxo ++ args.utxo)
      (listTokensWithin args.uniqueTxAssetIDs) (roundRobinSelection args random).1 := by
  have hstart : RoundRobinInvariant args.outputs args.implicitValue
      (args.requiredUtxo ++ args.utxo) (listTokensWithin args.uniqueTxAssetIDs)
      { tokensRemaining := listTokensWithin args.uniqueTxAssetIDs
        tokenIdx := 0
        utxoSelected := args.requiredUtxo
        utxoRemaining := args.utxo
        drawn := 0 } :=
    ⟨List.Perm.refl _, fun token htoken => Or.inl htoken⟩
  have hfinal := roundRobinLoop_invariant hrandom hnonneg hbalance
    ((listTokensWithin args.uniqueTxAssetIDs).length + args.utxo.length) (List.Subset.refl _) hstart
  have hempty := @roundRobinLoop_ends args.outputs args.implicitValue random hrandom
    ((listTokensWithin args.uniqueTxAssetIDs).length + args.utxo.length)
    { tokensRemaining := listTokensWithin args.uniqueTxAssetIDs
      tokenIdx := 0
      utxoSelected := args.requiredUtxo
      utxoRemaining := args.utxo
      drawn := 0 } le_rfl
  unfold roundRobinSelection
  dsimp only
  set final := roundRobinLoop (roundRobinToken args.outputs args.implicitValue) random
    ((listTokensWithin args.uniqueTxAssetIDs).length + args.utxo.length) _ with hfinalDef
  have hcovering : CoveringSelection args.outputs args.implicitValue
      (args.requiredUtxo ++ args.utxo) (listTokensWithin args.uniqueTxAssetIDs)
      { utxoSelected := final.utxoSelected, utxoRemaining := final.utxoRemaining } := by
    refine ⟨hfinal.divides, ?_⟩
    intro token htoken
    rcases hfinal.covered token htoken with hqueue | hcovers
    · rw [hempty] at hqueue
      cases hqueue
    · exact hcovers
  split
  · rename_i first rest hselected hremaining
    rw [hselected, hremaining] at hcovering
    have hfirst : first ∈ first :: rest := by simp
    simpa [UtxoSelection.move] using hcovering.move hnonneg hfirst
  · exact hcovering

theorem roundRobinRandomImprove_ok {changeAddressResolver : ChangeAddressResolver}
    {result : SelectionResult}
    (h : roundRobinRandomImprove changeAddressResolver random params = .ok result) :
    let args := preProcessArgs params.preSelectedUtxo params.utxo params.outputs
      params.implicitValue
    assertIsBalanceSufficient args.uniqueTxAssetIDs args.requiredUtxo args.utxo args.outputs
        args.implicitValue = .ok () ∧
      ∃ computed change,
        computeChangeAndAdjustForFee (roundRobinChangeArgs params random args)
          ((roundRobinSelection args random).1.utxoRemaining.length + 1)
          (roundRobinSelection args random).1 (roundRobinSelection args random).2 =
            .ok computed ∧
        changeAddressResolver {
          change := toChangeOutputs computed.change
          fee := computed.fee
          inputs := JsSet.ofList computed.inputs
          outputs := params.outputs } = .ok change ∧
        result = {
          redeemers := computed.redeemers
          remainingUTxO := JsSet.ofList computed.remainingUTxO
          selection := {
            change := change
            fee := computed.fee
            inputs := sortedInputSet (JsSet.ofList computed.inputs)
            outputs := params.outputs } } := by
  unfold roundRobinRandomImprove at h
  dsimp only at h ⊢
  obtain ⟨_, hbalance, h⟩ := bind_ok h
  obtain ⟨computed, hcomputed, h⟩ := bind_ok h
  obtain ⟨change, hchange, h⟩ := bind_ok h
  obtain ⟨limit, _, h⟩ := bind_ok h
  split at h
  · cases h
  · cases h
    exact ⟨hbalance, computed, change, hcomputed, hchange, rfl⟩

theorem roundRobin_computed_total
    (hargs : args = preProcessArgs params.preSelectedUtxo params.utxo params.outputs
      params.implicitValue) (hrandom : ∀ n, 0 ≤ random n ∧ random n < 1)
    (hnonneg : ∀ utxo ∈ args.requiredUtxo ++ args.utxo, utxo.txOut.value.Nonneg)
    (hrequest : ChangeRequest (outputsToValues params.outputs) args.uniqueTxAssetIDs
      params.implicitValue.required)
    (hfee : ∀ selection costs, params.constraints.computeMinimumCost selection = .ok costs →
      0 ≤ costs.fee)
    (hbalance : assertIsBalanceSufficient args.uniqueTxAssetIDs args.requiredUtxo args.utxo
      args.outputs args.implicitValue = .ok ()) {fuel drawn : ℕ}
    {computed : ChangeComputationResult}
    (hcomputed : computeChangeAndAdjustForFee (roundRobinChangeArgs params random args) fuel
      (roundRobinSelection args random).1 drawn = .ok computed) :
    (∃ remaining, (computed.inputs ++ remaining).Perm (args.requiredUtxo ++ args.utxo)) ∧
      ∀ token, selectedAmount computed.inputs params.implicitValue.required token =
        requestedAmount (outputsToValues params.outputs) params.implicitValue.required
          computed.fee token + total token computed.change := by
  have hstart := roundRobinSelection_covering hrandom hnonneg (assertIsBalanceSufficient_ok hbalance)
  have hpick : ∀ selection state,
      CoveringSelection args.outputs args.implicitValue (args.requiredUtxo ++ args.utxo)
        (listTokensWithin args.uniqueTxAssetIDs) selection → selection.utxoRemaining ≠ [] →
      CoveringSelection args.outputs args.implicitValue (args.requiredUtxo ++ args.utxo)
        (listTokensWithin args.uniqueTxAssetIDs)
        ((roundRobinChangeArgs params random args).pickAdditionalUtxo selection state).1 := by
    intro selection state hselection _
    rcases createPickAdditionalRandomUtxo_cases random selection state with
      hsame | ⟨picked, hpicked, hmoved⟩
    · rw [roundRobinChangeArgs, hsame]
      exact hselection
    · rw [roundRobinChangeArgs, hmoved]
      exact hselection.move hnonneg hpicked
  obtain ⟨final, hfinal, hadjusted⟩ := computeChangeAndAdjustForFee_ok _ hpick hstart hcomputed
  refine ⟨⟨final.utxoRemaining, ?_⟩, ?_⟩
  · rw [hadjusted.inputs]
    exact hfinal.divides
  · obtain ⟨_, _, hcosts⟩ := hadjusted.estimated
    have hpaid : 0 ≤ computed.fee := hfee _ _ hcosts
    subst hargs
    refine hadjusted.total_eq hrequest ?_ ?_ hpaid
    · exact toValues_nonneg (fun utxo hutxo => hnonneg utxo (hfinal.divides.mem_of_selected hutxo))
    · intro id
      by_cases hid : id ∈ (preProcessArgs params.preSelectedUtxo params.utxo params.outputs
          params.implicitValue).uniqueTxAssetIDs
      · exact hfinal.covers (.asset id)
          (List.mem_append.mpr (Or.inl (List.mem_map.mpr ⟨id, hid, rfl⟩)))
      · -- an asset outside the transaction is requested by nothing
        obtain ⟨houtputs, hspent, hinput⟩ := hrequest.outside id hid
        have hselected : 0 ≤ total (.asset id) (toValues final.utxoSelected) := total_nonneg
          (toValues_nonneg (fun utxo hutxo => hnonneg utxo (hfinal.divides.mem_of_selected hutxo))) _
        have hgoal : requestedAmount (outputsToValues params.outputs)
            params.implicitValue.required 0 (.asset id) ≤
              selectedAmount final.utxoSelected params.implicitValue.required (.asset id) := by
          simp only [requestedAmount, selectedAmount, feeAmount, houtputs, hspent, hinput]
          omega
        exact hgoal

/-- What is asked of the arguments of a round-robin selection: entries with
distinct ids and no negative quantity, positive asset quantities in the
outputs, a random source in `[0, 1)`, fees that are not negative and a resolver
that keeps the values of the change. -/
structure RoundRobinAssumptions (changeAddressResolver : ChangeAddressResolver) (random : ℕ → ℚ)
    (params : InputSelectionParameters) : Prop where
  ids : ((params.preSelectedUtxo.toList ++ params.utxo.toList).map Utxo.id).Nodup
  nonneg : ∀ utxo ∈ params.preSelectedUtxo.toList ++ params.utxo.toList, utxo.txOut.value.Nonneg
  assets : PositiveAssets params.outputs
  random : ∀ n, 0 ≤ random n ∧ random n < 1
  fee : ∀ selection costs, params.constraints.computeMinimumCost selection = .ok costs →
    0 ≤ costs.fee
  resolver : RewritesAddresses changeAddressResolver

/-- The round-robin selector conserves value when no output holds negative coin
and the deposit is not negative. -/
theorem roundRobinRandomImprove_conserves {changeAddressResolver : ChangeAddressResolver}
    {random : ℕ → ℚ} {params : InputSelectionParameters} {result : SelectionResult}
    (hassumptions : RoundRobinAssumptions changeAddressResolver random params)
    (hcoins : ∀ output ∈ params.outputs, 0 ≤ output.value.coins)
    (hdeposit : 0 ≤ params.implicitValue.requiredCoin.deposit)
    (h : roundRobinRandomImprove changeAddressResolver random params = .ok result) :
    ConservesValue params.implicitValue result.selection := by
  obtain ⟨hbalance, computed, change, hcomputed, hchange, rfl⟩ := roundRobinRandomImprove_ok h
  obtain ⟨⟨remaining, hperm⟩, htotal⟩ := roundRobin_computed_total rfl hassumptions.random
    hassumptions.nonneg (changeRequest_preProcessArgs (outputs_nonneg hassumptions.assets hcoins) hdeposit)
    hassumptions.fee hbalance hcomputed
  have havailable : (params.preSelectedUtxo.toList ++ params.utxo.toList).Nodup :=
    List.Nodup.of_map _ hassumptions.ids
  have hinputs : computed.inputs.Nodup :=
    (List.nodup_append.mp (hperm.nodup_iff.mpr havailable)).1
  refine conservesValue_iff_total.mpr (fun token => ?_)
  have hsorted := perm_sortedInputSet (JsSet.ofList computed.inputs)
  rw [JsSet.ofList_toList_of_nodup hinputs] at hsorted
  have hresolved := hassumptions.resolver _ _ hchange
  rw [outputsToValues_toChangeOutputs] at hresolved
  rw [selectedAmount_perm hsorted, total_perm hresolved]
  exact htotal token

def mintingRequest : InputSelectionParameters where
  preSelectedUtxo := JsSet.ofList
    [utxoOf 0 { coins := 10, assets := some (JsMap.ofList [([1], 5)]) }]
  utxo := JsSet.ofList
    [utxoOf 1 { coins := 100, assets := some (JsMap.ofList [([2], 3), ([3], 7)]) }]
  outputs := [outputOf { coins := 40, assets := some (JsMap.ofList [([1], 2)]) },
    outputOf { coins := 20 }]
  constraints := flatConstraints 7
  implicitValue :=
    { coin := some { deposit := some 2 }, mint := some (JsMap.ofList [([1], 1), ([2], -1)]) }

theorem roundRobinRandomImprove_conserves_minting : ∃ result,
    roundRobinRandomImprove keepAddresses (fun _ => 0) mintingRequest = .ok result ∧
      ConservesValue mintingRequest.implicitValue result.selection := by
  have hcheck : okAnd (fun result => getCoinQuantity (outputsToValues result.selection.change) = 41)
      (roundRobinRandomImprove keepAddresses (fun _ => 0) mintingRequest) = true := by
    decide +kernel
  obtain ⟨result, hok, _⟩ := okAnd_iff.mp hcheck
  refine ⟨result, hok, roundRobinRandomImprove_conserves ?_ (by decide) (by decide) hok⟩
  exact {
    ids := by decide
    nonneg := by decide
    assets := by decide
    random := fun _ => ⟨le_rfl, one_pos⟩
    fee := flatConstraints_fee_nonneg (by decide)
    resolver := rewritesAddresses_keepAddresses }

def negativeDepositRequest : InputSelectionParameters where
  preSelectedUtxo := JsSet.ofList []
  utxo := JsSet.ofList [utxoOf 0 { coins := 100 }]
  outputs := [outputOf { coins := 100 }]
  constraints := flatConstraints 0
  implicitValue := { coin := some { deposit := some (-50) } }

def negativeOutputRequest : InputSelectionParameters where
  preSelectedUtxo := JsSet.ofList []
  utxo := JsSet.ofList [utxoOf 0 { coins := 5 }]
  outputs := [outputOf { coins := -1 }, outputOf { coins := -1 }, outputOf { coins := 4 }]
  constraints := flatConstraints 0

/-- Neither sign condition can be left out: with a negative deposit, or with
negative coin in an output, the proportional shares exceed the surplus and the
selector hands out coin that no input pays for. -/
theorem roundRobinRandomImprove_invents_coin :
    (RoundRobinAssumptions keepAddresses (fun _ => 0) negativeDepositRequest ∧
      ∃ result, roundRobinRandomImprove keepAddresses (fun _ => 0) negativeDepositRequest =
          .ok result ∧ ¬ ConservesValue negativeDepositRequest.implicitValue result.selection) ∧
    (RoundRobinAssumptions keepAddresses (fun _ => 0) negativeOutputRequest ∧
      ∃ result, roundRobinRandomImprove keepAddresses (fun _ => 0) negativeOutputRequest =
          .ok result ∧ ¬ ConservesValue negativeOutputRequest.implicitValue result.selection) := by
  have hdeposit : violatesConservation negativeDepositRequest.implicitValue .lovelace
      (roundRobinRandomImprove keepAddresses (fun _ => 0) negativeDepositRequest) = true := by
    decide +kernel
  have houtput : violatesConservation negativeOutputRequest.implicitValue .lovelace
      (roundRobinRandomImprove keepAddresses (fun _ => 0) negativeOutputRequest) = true := by
    decide +kernel
  refine ⟨⟨?_, not_conserves_of_violates hdeposit⟩, ⟨?_, not_conserves_of_violates houtput⟩⟩
  · exact {
      ids := by decide
      nonneg := by decide
      assets := by decide
      random := fun _ => ⟨le_rfl, one_pos⟩
      fee := flatConstraints_fee_nonneg (by decide)
      resolver := rewritesAddresses_keepAddresses }
  · exact {
      ids := by decide
      nonneg := by decide
      assets := by decide
      random := fun _ => ⟨le_rfl, one_pos⟩
      fee := flatConstraints_fee_nonneg (by decide)
      resolver := rewritesAddresses_keepAddresses }

end CardanoSdk.InputSelection
