import CardanoSdk.InputSelection.ChangeBalance

/-!
Coalescing and splitting keep every total, so the whole change computation does, through
the recursion of the fee adjustment.
-/

namespace CardanoSdk.InputSelection

open Lib

variable {changeBundles values result : List Value} {value : Value}
  {computeMinimumCoinQuantity : TxOut → ℤ} {tokenBundleSizeExceedsLimit : TokenMap → Bool}
  {selection : UtxoSelection}

theorem amount_positiveAssets (h : value.Nonneg) (token : TokenKind) :
    value.positiveAssets.amount token = value.amount token := by
  cases token with
  | lovelace => rfl
  | asset id =>
    have hid := h (.asset id)
    cases hassets : value.assets with
    | none => simp [Value.amount, Value.positiveAssets, hassets]
    | some assets =>
      simp only [Value.amount, hassets, assetsQuantity] at hid
      simp only [Value.amount, Value.positiveAssets, hassets, Option.map_some, assetsQuantity,
        JsMap.quantity_filter, decide_eq_true_eq]
      split <;> omega

theorem positiveAssets_nonneg (h : value.Nonneg) : value.positiveAssets.Nonneg := by
  intro token
  rw [amount_positiveAssets h]
  exact h token

theorem perm_orderByCoinsDesc (values : List Value) : (orderByCoinsDesc values).Perm values :=
  List.perm_insertionSort _ _

theorem total_coalesceValueQuantities_pair (first second : Value) (token : TokenKind) :
    (coalesceValueQuantities [first, second]).amount token =
      first.amount token + second.amount token := by
  rw [amount_coalesceValueQuantities]
  simp

theorem total_mergeWithSmallestBundle (values : List Value) (index : ℕ) (token : TokenKind) :
    total token (mergeWithSmallestBundle values index) = total token values := by
  unfold mergeWithSmallestBundle
  split
  · rfl
  · rename_i toBeMerged hget
    obtain ⟨hindex, hvalue⟩ := List.getElem?_eq_some_iff.mp hget
    have herase := total_perm (List.getElem_cons_eraseIdx_perm hindex) token
    rw [hvalue, total_cons] at herase
    dsimp only
    split
    · rename_i hlast
      rw [List.getLast?_eq_none_iff.mp hlast] at herase
      simpa using herase
    · rename_i last hlast
      have hsplit : values.eraseIdx index = (values.eraseIdx index).dropLast ++ [last] :=
        (List.dropLast_append_getLast? last hlast).symm
      have htotal := congrArg (total token) hsplit
      rw [total_perm (perm_orderByCoinsDesc _)]
      simp only [total_append, total_cons, total_nil, total_coalesceValueQuantities_pair]
        at htotal ⊢
      omega

variable {P : Value → Prop} {fuel : ℕ}

theorem forall_mem_mergeWithSmallestBundle
    (hpair : ∀ first second, P first → P second → P (coalesceValueQuantities [first, second]))
    (h : ∀ value ∈ values, P value) (index : ℕ) :
    ∀ value ∈ mergeWithSmallestBundle values index, P value := by
  unfold mergeWithSmallestBundle
  split
  · exact h
  · rename_i toBeMerged hget
    have hmerged : P toBeMerged := h _ (List.mem_of_getElem? hget)
    have herase : ∀ value ∈ values.eraseIdx index, P value :=
      fun value hvalue => h value (List.mem_of_mem_eraseIdx hvalue)
    dsimp only
    split
    · simpa using hmerged
    · rename_i last hlast
      intro value hvalue
      rw [(perm_orderByCoinsDesc _).mem_iff, List.mem_append, List.mem_singleton] at hvalue
      rcases hvalue with hdrop | rfl
      · exact herase value (List.dropLast_subset _ hdrop)
      · exact hpair _ _ hmerged (herase last (List.mem_of_getLast? hlast))

theorem forall_mem_coalesceRounds
    (hpair : ∀ first second, P first → P second → P (coalesceValueQuantities [first, second]))
    (computeMinimumCoinQuantity : TxOut → ℤ) (rounds : ℕ) (h : ∀ value ∈ values, P value) :
    ∀ value ∈ coalesceRounds computeMinimumCoinQuantity rounds values, P value := by
  induction rounds generalizing values with
  | zero => exact h
  | succ rounds ih =>
    unfold coalesceRounds
    split
    · split
      · exact h
      · rename_i index _
        exact ih (forall_mem_mergeWithSmallestBundle hpair h index)
    · exact h

theorem coalesceValueQuantities_pair_nonneg {first second : Value} (hfirst : first.Nonneg)
    (hsecond : second.Nonneg) : (coalesceValueQuantities [first, second]).Nonneg := by
  apply coalesceValueQuantities_nonneg
  simp only [List.mem_cons, List.not_mem_nil, or_false, forall_eq_or_imp, forall_eq]
  exact ⟨hfirst, hsecond⟩

theorem total_coalesceRounds (computeMinimumCoinQuantity : TxOut → ℤ) (rounds : ℕ)
    (values : List Value) (token : TokenKind) :
    total token (coalesceRounds computeMinimumCoinQuantity rounds values) =
      total token values := by
  induction rounds generalizing values with
  | zero => rfl
  | succ rounds ih =>
    unfold coalesceRounds
    split
    · split
      · rfl
      · rw [ih, total_mergeWithSmallestBundle]
    · rfl

theorem amount_eq_zero_of_isEmptyBundle (hnonneg : value.Nonneg) (h : value.isEmptyBundle = true)
    (token : TokenKind) : value.amount token = 0 := by
  simp only [Value.isEmptyBundle, Bool.not_eq_true', Bool.or_eq_false_iff, decide_eq_false_iff_not]
    at h
  cases token with
  | lovelace =>
    have hcoins := hnonneg .lovelace
    simp only [Value.amount] at hcoins ⊢
    omega
  | asset id =>
    cases hassets : value.assets with
    | none => simp [Value.amount, hassets, assetsQuantity]
    | some assets =>
      have hsize : assets.size = 0 := by
        have := h.2
        simp only [hassets, assetsSize] at this
        omega
      rw [JsMap.size_eq_zero_iff.mp hsize] at hassets
      simp [Value.amount, hassets, assetsQuantity]

theorem total_filter_nonEmpty (h : ∀ value ∈ values, value.Nonneg) (token : TokenKind) :
    total token (values.filter (fun bundle => !bundle.isEmptyBundle)) = total token values := by
  induction values with
  | nil => rfl
  | cons value rest ih =>
    have hrest := ih (fun v hv => h v (by simp [hv]))
    cases hempty : value.isEmptyBundle with
    | false => simp [hempty, hrest]
    | true =>
      have hzero := amount_eq_zero_of_isEmptyBundle (h value (by simp)) hempty token
      simp [hempty, hrest, hzero]

theorem coalesceChangeBundles_spec (h : ∀ value ∈ changeBundles, value.Nonneg)
    (hsome : coalesceChangeBundlesForMinCoinRequirement changeBundles computeMinimumCoinQuantity =
      some result) (token : TokenKind) : total token result = total token changeBundles := by
  unfold coalesceChangeBundlesForMinCoinRequirement at hsome
  split at hsome
  · cases hsome
    rfl
  · dsimp only at hsome
    have hpositive : total token (changeBundles.map Value.positiveAssets) =
        total token changeBundles := by
      simp only [total, List.map_map]
      congr 1
      apply List.map_congr_left
      intro value hvalue
      exact amount_positiveAssets (h value hvalue) token
    have hsortedNonneg : ∀ value ∈ orderByCoinsDesc (changeBundles.map Value.positiveAssets),
        value.Nonneg := by
      intro value hvalue
      rw [(perm_orderByCoinsDesc _).mem_iff] at hvalue
      obtain ⟨original, horiginal, rfl⟩ := List.mem_map.mp hvalue
      exact positiveAssets_nonneg (h original horiginal)
    have hnonneg := forall_mem_coalesceRounds
      (fun _ _ => coalesceValueQuantities_pair_nonneg) computeMinimumCoinQuantity
      (orderByCoinsDesc (changeBundles.map Value.positiveAssets)).length hsortedNonneg
    split at hsome
    · cases hsome
    · split at hsome
      · cases hsome
        rw [total_filter_nonEmpty hnonneg, total_coalesceRounds,
          total_perm (perm_orderByCoinsDesc _), hpositive]
      · cases hsome

def piecesQuantity (pieces : List TokenMap) (id : AssetId) : ℤ :=
  (pieces.map (fun piece => piece.quantity id)).sum

private theorem splitTokenMap_fold (tokenBundleSizeExceedsLimit : TokenMap → Bool)
    (entries : List (AssetId × ℤ)) (hkeys : (entries.map Prod.fst).Nodup)
    (acc : List TokenMap × TokenMap) (hacc : ∀ key ∈ entries.map Prod.fst, acc.2.quantity key = 0)
    (id : AssetId) :
    let result := entries.foldl (fun (acc : List TokenMap × TokenMap) entry =>
      let next := acc.2.set entry.1 entry.2
      if tokenBundleSizeExceedsLimit next && next.size > 1 then
        (acc.1 ++ [next.delete entry.1], JsMap.empty.set entry.1 entry.2)
      else (acc.1, next)) acc
    piecesQuantity (result.1 ++ [result.2]) id =
      piecesQuantity (acc.1 ++ [acc.2]) id + (JsMap.lookup id entries).getD 0 := by
  induction entries generalizing acc with
  | nil => simp [JsMap.lookup]
  | cons entry rest ih =>
    obtain ⟨key, quantity⟩ := entry
    simp only [List.map_cons, List.nodup_cons] at hkeys
    rw [List.foldl_cons]
    have hkeyZero : acc.2.quantity key = 0 := hacc key (by simp)
    have hrest : id = key → JsMap.lookup id rest = none := by
      rintro rfl
      exact JsMap.lookup_eq_none.mpr hkeys.1
    have hne : ∀ key' ∈ rest.map Prod.fst, key' ≠ key := by
      rintro key' hkey' rfl
      exact hkeys.1 hkey'
    dsimp only
    split
    · rw [ih hkeys.2]
      · by_cases hid : id = key
        · subst hid
          simp [piecesQuantity, JsMap.quantity_delete, JsMap.quantity_set, JsMap.lookup,
            hrest rfl, hkeyZero]
        · simp [piecesQuantity, JsMap.quantity_delete, JsMap.quantity_set, JsMap.lookup, hid]
      · intro key' hkey'
        simp [JsMap.quantity_set, hne key' hkey']
    · rw [ih hkeys.2]
      · by_cases hid : id = key
        · subst hid
          simp [piecesQuantity, JsMap.quantity_set, JsMap.lookup, hrest rfl, hkeyZero]
        · simp [piecesQuantity, JsMap.quantity_set, JsMap.lookup, hid]
      · intro key' hkey'
        rw [JsMap.quantity_set, if_neg (hne key' hkey')]
        exact hacc key' (by simp [hkey'])

theorem piecesQuantity_splitTokenMap (tokenBundleSizeExceedsLimit : TokenMap → Bool)
    (assets : TokenMap) (id : AssetId) :
    piecesQuantity (splitTokenMap tokenBundleSizeExceedsLimit assets) id = assets.quantity id := by
  have hfold := splitTokenMap_fold tokenBundleSizeExceedsLimit assets.entries assets.nodup
    ([], JsMap.empty) (fun _ _ => JsMap.quantity_empty _) id
  have hempty : piecesQuantity ([] ++ [JsMap.empty]) id = 0 := by simp [piecesQuantity]
  dsimp only at hfold
  rw [hempty, zero_add] at hfold
  exact hfold

theorem splitBundle_total {bundle : Value} {pieces : List Value}
    (hok : splitBundle computeMinimumCoinQuantity tokenBundleSizeExceedsLimit bundle = .ok pieces)
    (token : TokenKind) : total token pieces = bundle.amount token := by
  unfold splitBundle at hok
  split at hok
  · cases hok
    simp
  · rename_i assets hassets
    split at hok
    · cases hok
      simp
    · dsimp only at hok
      split at hok
      · cases hok
      · set newValues := (splitTokenMap tokenBundleSizeExceedsLimit assets).map (fun piece =>
          ({ assets := some piece
             coins := computeMinimumCoinQuantity
               { address := stubMaxSizeAddress
                 value := { assets := some piece, coins := 0 } } } : Value)) with hnew
        have hquantity (id : AssetId) : total (.asset id) newValues = assets.quantity id := by
          rw [← piecesQuantity_splitTokenMap tokenBundleSizeExceedsLimit assets id, hnew]
          simp [total, piecesQuantity, Function.comp_def, Value.amount, assetsQuantity]
        have hnonempty : newValues ≠ [] := by
          rw [hnew]
          simp [splitTokenMap]
        obtain ⟨first, rest, hcons⟩ := List.exists_cons_of_ne_nil hnonempty
        simp only [hcons] at hok
        cases hok
        cases token with
        | lovelace =>
          rw [← total_lovelace]
          simp only [total_cons, Value.amount]
          omega
        | asset id =>
          have hid := hquantity id
          rw [hcons] at hid
          simpa [Value.amount, hassets, assetsQuantity] using hid

theorem splitChange_total
    (hok : splitChangeIfTokenBundlesSizeExceedsLimit changeBundles computeMinimumCoinQuantity
      tokenBundleSizeExceedsLimit = .ok result) (token : TokenKind) :
    total token result = total token changeBundles := by
  have hfold (bundles acc : List Value)
      (hok : bundles.foldlM (fun result bundle => do
        let pieces ← splitBundle computeMinimumCoinQuantity tokenBundleSizeExceedsLimit bundle
        pure (result ++ pieces)) acc = .ok result) :
      total token result = total token acc + total token bundles := by
    induction bundles generalizing acc with
    | nil =>
      cases hok
      simp
    | cons bundle rest ih =>
      rw [List.foldlM_cons] at hok
      obtain ⟨next, hnext, hrest⟩ := bind_ok hok
      obtain ⟨pieces, hpieces, hpure⟩ := bind_ok hnext
      cases hpure
      rw [ih _ hrest, total_append, splitBundle_total hpieces, total_cons]
      omega
  have hresult := hfold changeBundles [] hok
  simpa using hresult

variable {σ : Type}

theorem computeChangeBundles_total {args : ChangeComputationArgs σ} {utxoSelected : List Utxo}
    {fee : ℤ}
    (hrequest : ChangeRequest args.outputValues args.uniqueTxAssetIDs args.implicitValue)
    (hselected : ∀ value ∈ toValues utxoSelected, value.Nonneg) (hfee : 0 ≤ fee)
    (hcovered : ∀ token, requestedAmount args.outputValues args.implicitValue fee token ≤
      selectedAmount utxoSelected args.implicitValue token)
    (hok : computeChangeBundles args utxoSelected fee = .ok (some changeBundles))
    (token : TokenKind) :
    selectedAmount utxoSelected args.implicitValue token =
      requestedAmount args.outputValues args.implicitValue fee token +
        total token changeBundles := by
  unfold computeChangeBundles at hok
  obtain ⟨requested, hrequested, hok⟩ := bind_ok hok
  have hbundles := computeRequestedAssetChangeBundles_ok hrequest hfee hcovered hrequested
  obtain ⟨htotals, hnonneg⟩ := redistributeLeftoverAssets_total hrequest hselected hbundles
  dsimp only at hok
  split at hok
  · cases hok
  · rename_i coalesced hcoalesced
    obtain ⟨adjusted, hadjusted, hpure⟩ := bind_ok hok
    cases hpure
    rw [splitChange_total hadjusted, coalesceChangeBundles_spec hnonneg hcoalesced,
      ← htotals token]
    omega

theorem validateChangeBundles_ok
    (h : validateChangeBundles changeBundles tokenBundleSizeExceedsLimit = .ok result) :
    result = changeBundles := by
  unfold validateChangeBundles at h
  dsimp only at h
  split at h
  · cases h
  · cases h
    rfl

def BundlesAccepted (args : ChangeComputationArgs σ) (utxoSelected : List Utxo) (fee : ℤ)
    (bundles : List Value) : Prop :=
  computeChangeBundles args utxoSelected fee = .ok (some bundles) ∧
    validateChangeBundles bundles args.tokenBundleSizeExceedsLimit = .ok bundles

/-- The fee adjustment may give up this selection and pick another entry. -/
def MayRetry (args : ChangeComputationArgs σ) (utxoSelected : List Utxo) : Prop :=
  computeChangeBundles args utxoSelected 0 = .ok none ∨
    ∃ bundles, BundlesAccepted args utxoSelected 0 bundles

/-- The selections a fee adjustment may come to, with the number of picks. -/
inductive Tried (args : ChangeComputationArgs σ) : UtxoSelection → σ → ℕ → UtxoSelection → Prop
  | here (selection : UtxoSelection) (state : σ) : Tried args selection state 0 selection
  | pick {selection final : UtxoSelection} {state : σ} {picks : ℕ}
      (hremaining : selection.utxoRemaining ≠ []) (hretry : MayRetry args selection.utxoSelected)
      (hnext : Tried args (args.pickAdditionalUtxo selection state).1
        (args.pickAdditionalUtxo selection state).2 picks final) :
      Tried args selection state (picks + 1) final

theorem Tried.invariant {args : ChangeComputationArgs σ} {P : UtxoSelection → Prop}
    (hpick : ∀ selection state, P selection → selection.utxoRemaining ≠ [] →
      P (args.pickAdditionalUtxo selection state).1)
    {selection final : UtxoSelection} {state : σ} {picks : ℕ}
    (h : Tried args selection state picks final) (hP : P selection) : P final := by
  induction h with
  | here => exact hP
  | pick hremaining _ _ ih => exact ih (hpick _ _ hP hremaining)

/-- How a fee adjustment ends: with a selection whose bundles were computed
twice, without a fee to estimate it and then with the estimated fee. -/
structure AdjustedForFee (args : ChangeComputationArgs σ) (selection : UtxoSelection)
    (result : ChangeComputationResult) : Prop where
  inputs : result.inputs = selection.utxoSelected
  remaining : result.remainingUTxO = selection.utxoRemaining
  estimated : ∃ bundlesWithFee, BundlesAccepted args selection.utxoSelected 0 bundlesWithFee ∧
    args.estimateTxCosts selection.utxoSelected bundlesWithFee =
      .ok { fee := result.fee, redeemers := result.redeemers }
  affordable : getCoinQuantity args.outputValues + result.fee +
      args.implicitValue.implicitCoin.deposit ≤
    getCoinQuantity (toValues selection.utxoSelected) + args.implicitValue.implicitCoin.input
  change : BundlesAccepted args selection.utxoSelected result.fee result.change

theorem computeChangeAndAdjustForFee_tried {args : ChangeComputationArgs σ} {state : σ}
    {result : ChangeComputationResult}
    (hok : computeChangeAndAdjustForFee args fuel selection state = .ok result) :
    ∃ picks final, picks < fuel ∧ Tried args selection state picks final ∧
      AdjustedForFee args final result := by
  induction fuel generalizing selection state with
  | zero => cases hok
  | succ fuel ih =>
    unfold computeChangeAndAdjustForFee at hok
    dsimp only at hok
    -- every branch but the last goes through the same retry
    have hagain (hmay : MayRetry args selection.utxoSelected)
        (h : (if selection.utxoRemaining.length > 0 then
          computeChangeAndAdjustForFee args fuel (args.pickAdditionalUtxo selection state).1
            (args.pickAdditionalUtxo selection state).2
        else failWith .utxoFullyDepleted) = .ok result) :
        ∃ picks final, picks < fuel + 1 ∧ Tried args selection state picks final ∧
          AdjustedForFee args final result := by
      split at h
      · rename_i hlength
        obtain ⟨picks, final, hpicks, htried, hadjusted⟩ := ih h
        exact ⟨picks + 1, final, by omega,
          Tried.pick (List.ne_nil_of_length_pos hlength) hmay htried, hadjusted⟩
      · cases h
    obtain ⟨bundles, hbundles, hok⟩ := bind_ok hok
    cases bundles with
    | none => exact hagain (Or.inl hbundles) hok
    | some bundlesWithFee =>
      obtain ⟨validated, hvalidated, hok⟩ := bind_ok hok
      rw [validateChangeBundles_ok hvalidated] at hok hvalidated
      have hmay : MayRetry args selection.utxoSelected :=
        Or.inr ⟨bundlesWithFee, hbundles, hvalidated⟩
      obtain ⟨costs, hcosts, hok⟩ := bind_ok hok
      split at hok
      · split at hok
        · cases hok
        · exact hagain hmay hok
      · rename_i haffordable
        obtain ⟨changeBundles, hchange, hok⟩ := bind_ok hok
        cases changeBundles with
        | none => exact hagain hmay hok
        | some changeBundles =>
          obtain ⟨change, hvalid, hpure⟩ := bind_ok hok
          rw [validateChangeBundles_ok hvalid] at hpure hvalid
          cases hpure
          exact ⟨0, selection, by omega, Tried.here selection state, rfl, rfl,
            ⟨bundlesWithFee, ⟨hbundles, hvalidated⟩, hcosts⟩, not_lt.mp haffordable,
            hchange, hvalid⟩

theorem computeChangeAndAdjustForFee_ok {args : ChangeComputationArgs σ}
    (P : UtxoSelection → Prop)
    (hpick : ∀ selection state, P selection → selection.utxoRemaining ≠ [] →
      P (args.pickAdditionalUtxo selection state).1) {state : σ}
    {result : ChangeComputationResult} (hP : P selection)
    (hok : computeChangeAndAdjustForFee args fuel selection state = .ok result) :
    ∃ final, P final ∧ AdjustedForFee args final result := by
  obtain ⟨_, final, _, htried, hadjusted⟩ := computeChangeAndAdjustForFee_tried hok
  exact ⟨final, htried.invariant hpick hP, hadjusted⟩

theorem AdjustedForFee.total_eq {args : ChangeComputationArgs σ}
    {result : ChangeComputationResult} (h : AdjustedForFee args selection result)
    (hrequest : ChangeRequest args.outputValues args.uniqueTxAssetIDs args.implicitValue)
    (hselected : ∀ value ∈ toValues selection.utxoSelected, value.Nonneg)
    (hassets : ∀ id, requestedAmount args.outputValues args.implicitValue 0 (.asset id) ≤
      selectedAmount selection.utxoSelected args.implicitValue (.asset id))
    (hfee : 0 ≤ result.fee) (token : TokenKind) :
    selectedAmount result.inputs args.implicitValue token =
      requestedAmount args.outputValues args.implicitValue result.fee token +
        total token result.change := by
  rw [h.inputs]
  refine computeChangeBundles_total hrequest hselected hfee (fun token => ?_) h.change.1 token
  cases token with
  | lovelace =>
    have haffordable := h.affordable
    simp only [requestedAmount, selectedAmount, RequiredImplicitValue.spentAmount,
      RequiredImplicitValue.inputAmount, feeAmount, total_lovelace]
    omega
  | asset id => exact hassets id

end CardanoSdk.InputSelection
