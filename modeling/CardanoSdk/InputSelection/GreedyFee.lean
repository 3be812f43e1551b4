import CardanoSdk.InputSelection.FeeSufficiency

/-!
The fee recursion of the greedy selector is restarted only with a larger fee that is still
below the surplus, so it ends.
-/

namespace CardanoSdk.InputSelection

open Lib

/-- More rounds than there is lovelace never matter: every round takes some. -/
theorem splitAmounts_fuel {amount minUtxoAdaAmount : ℤ} (minimumCoinFor : ℤ → ℤ) (fee : ℤ)
    (hmin : 0 < minUtxoAdaAmount) {fuel fuel' : ℕ} {remaining : ℤ} (runningAmount : ℤ)
    (hfuel : remaining.toNat < fuel) (hfuel' : remaining.toNat < fuel') :
    splitAmounts amount minUtxoAdaAmount minimumCoinFor fee fuel remaining runningAmount =
      splitAmounts amount minUtxoAdaAmount minimumCoinFor fee fuel' remaining runningAmount := by
  induction fuel generalizing fuel' remaining runningAmount with
  | zero => omega
  | succ fuel ih =>
    cases fuel' with
    | zero => omega
    | succ fuel' =>
      unfold splitAmounts
      by_cases hremaining : remaining ≥ minUtxoAdaAmount
      · obtain ⟨hval, hle⟩ := roundUp_half_bounds (lt_of_lt_of_le hmin hremaining)
        rw [if_pos hremaining, if_pos hremaining]
        dsimp only
        have hrest := @ih fuel' (remaining - roundUp ((remaining : ℚ) / 2))
          (runningAmount + roundUp ((remaining : ℚ) / 2)) (by omega) (by omega)
        rw [hrest]
      · rw [if_neg hremaining, if_neg hremaining]

theorem distributeRounds_ne_outOfFuel (computeMinimumCoinQuantity : TxOut → ℤ)
    (tokenBundleSizeExceedsLimit : TokenMap → Bool) (fee : ℤ) {fuel : ℕ}
    {availableOutputs : List TxOut} (alreadyFullOutputs : List TxOut)
    {assets : List (AssetId × ℤ)} (i : ℕ)
    (hfuel : assets.length + availableOutputs.length ≤ fuel) :
    distributeRounds computeMinimumCoinQuantity tokenBundleSizeExceedsLimit fee fuel
      availableOutputs alreadyFullOutputs assets i ≠ .error .outOfFuel := by
  induction fuel generalizing availableOutputs alreadyFullOutputs assets i with
  | zero =>
    have hassets : assets = [] := List.length_eq_zero_iff.mp (by omega)
    rw [hassets, distributeRounds]
    intro h
    cases h
  | succ fuel ih =>
    cases assets with
    | nil =>
      rw [distributeRounds]
      intro h
      cases h
    | cons asset rest =>
      simp only [List.length_cons] at hfuel
      unfold distributeRounds
      dsimp only
      split
      · intro h
        cases h
      · rename_i output houtput
        have hindex := (List.getElem?_eq_some_iff.mp houtput).1
        split
        · refine ih _ _ ?_
          rw [List.length_set]
          omega
        · split
          · intro h
            cases h
          · refine ih _ _ ?_
            rw [List.length_eraseIdx_of_lt hindex, List.length_cons]
            omega

theorem splitChange_ne_outOfFuel (arith : ShareArithmetic)
    (changeAddresses : JsMap PaymentAddress ℚ) (totalChangeLovelace : ℤ)
    (totalChangeAssets : Option TokenMap) (computeMinimumCoinQuantity : TxOut → ℤ)
    (tokenBundleSizeExceedsLimit : TokenMap → Bool) (fee : ℤ) :
    splitChange arith changeAddresses totalChangeLovelace totalChangeAssets
      computeMinimumCoinQuantity tokenBundleSizeExceedsLimit fee ≠ .error .outOfFuel := by
  have hdistribute (outputs : List TxOut) : distributeAssets outputs computeMinimumCoinQuantity
      tokenBundleSizeExceedsLimit fee ≠ .error .outOfFuel := by
    unfold distributeAssets
    split
    · intro h
      cases h
    · split
      · intro h
        cases h
      · exact distributeRounds_ne_outOfFuel _ _ _ _ _ le_rfl
  unfold splitChange
  dsimp only
  split
  · intro h
    cases h
  · split
    · intro h
      cases h
    · split
      · intro h
        cases h
      · split
        · intro h
          cases h
        · exact hdistribute _

section Recursion

variable {arith : ShareArithmetic} {inputs : JsSet Utxo} {outputs : List TxOut}
  {changeLovelace : ℤ} {changeAssets : Option TokenMap} {constraints : SelectionConstraints}
  {changeAddresses : JsMap PaymentAddress ℚ}

/-- The transaction whose cost is asked for: the change is among its outputs. -/
def greedySkeleton (inputs : JsSet Utxo) (outputs change : List TxOut) (fee : ℤ) :
    SelectionSkeleton where
  change := []
  fee := fee
  inputs := inputs
  outputs := outputs ++ change

def assetsOnlyChange (changeAssets : Option TokenMap) : TxOut where
  address := stubMaxSizeAddress
  value := { assets := changeAssets, coins := 0 }

/-- An adjustment that leaves some of the surplus took its fee from the first
output that could pay it, if any. -/
theorem adjustOutputsForFee_cases {changeOutputs : List TxOut} {currentFee : ℤ}
    {adjusted : AdjustedOutputs}
    (h : adjustOutputsForFee changeLovelace constraints inputs outputs changeOutputs currentFee =
      .ok adjusted) :
    ∃ costs, constraints.computeMinimumCost
        (greedySkeleton inputs outputs changeOutputs currentFee) = .ok costs ∧
      adjusted.fee = costs.fee ∧ adjusted.fee ≤ changeLovelace ∧
      (adjusted.fee < changeLovelace →
        (adjusted.change, adjusted.feeAccountedFor) =
          discountFee constraints.computeMinimumCoinQuantity costs.fee
            (sortByCoins changeOutputs)) := by
  unfold adjustOutputsForFee at h
  obtain ⟨costs, hcosts, h⟩ := bind_ok h
  refine ⟨costs, hcosts, ?_⟩
  split at h
  · rename_i hall
    cases h
    exact ⟨rfl, hall.le, fun hless => absurd hall hless.ne⟩
  · split at h
    · cases h
    · rename_i hshort
      cases h
      exact ⟨rfl, not_lt.mp hshort, fun _ => rfl⟩

inductive FeeRound where
  | failed (e : SelectionError)
  | assetsOnly (fee : ℤ)
  | restart (fee : ℤ)
  | settled (adjusted : AdjustedOutputs)

/-- One round: split the change for this fee, ask for the cost, and decide. -/
def feeRound (arith : ShareArithmetic) (inputs : JsSet Utxo) (outputs : List TxOut)
    (changeLovelace : ℤ) (changeAssets : Option TokenMap) (constraints : SelectionConstraints)
    (changeAddresses : JsMap PaymentAddress ℚ) (fee : ℤ) : FeeRound :=
  match splitChange arith changeAddresses changeLovelace changeAssets
      constraints.computeMinimumCoinQuantity constraints.tokenBundleSizeExceedsLimit fee with
  | .error e => .failed e
  | .ok changeOutputs =>
    match adjustOutputsForFee changeLovelace constraints inputs outputs changeOutputs fee with
    | .error e => .failed e
    | .ok adjusted =>
      if adjusted.fee ≥ changeLovelace then
        if (assetsOnlyChange changeAssets).value.coins <
            constraints.computeMinimumCoinQuantity (assetsOnlyChange changeAssets) then
          .failed (.inputSelectionError .utxoFullyDepleted)
        else .assetsOnly adjusted.fee
      else if fee < adjusted.fee then .restart adjusted.fee
      else .settled adjusted

theorem splitChangeAndComputeFee_succ (fuel : ℕ) (fee : ℤ) :
    splitChangeAndComputeFee arith inputs outputs changeLovelace changeAssets constraints
      changeAddresses (fuel + 1) fee =
      match feeRound arith inputs outputs changeLovelace changeAssets constraints changeAddresses
        fee with
      | .failed e => .error e
      | .assetsOnly feeOfAll => .ok {
          change := [assetsOnlyChange changeAssets]
          fee := feeOfAll
          feeAccountedFor := true }
      | .restart raised => do
          let recomputed ← splitChangeAndComputeFee arith inputs outputs changeLovelace
            changeAssets constraints changeAddresses fuel raised
          if recomputed.change.length = 0 then failWith .utxoFullyDepleted
          else checkAdjusted constraints.computeMinimumCoinQuantity recomputed
      | .settled adjusted => checkAdjusted constraints.computeMinimumCoinQuantity adjusted := by
  rw [splitChangeAndComputeFee, feeRound]
  cases splitChange arith changeAddresses changeLovelace changeAssets
      constraints.computeMinimumCoinQuantity constraints.tokenBundleSizeExceedsLimit fee with
  | error e => rfl
  | ok changeOutputs =>
    simp only [bind, Except.bind]
    cases adjustOutputsForFee changeLovelace constraints inputs outputs changeOutputs fee with
    | error e => rfl
    | ok adjusted =>
      dsimp only
      by_cases hall : adjusted.fee ≥ changeLovelace
      · rw [if_pos hall, if_pos hall]
        by_cases hcoin : (assetsOnlyChange changeAssets).value.coins <
            constraints.computeMinimumCoinQuantity (assetsOnlyChange changeAssets)
        · rw [if_pos hcoin]
          exact if_pos hcoin
        · rw [if_neg hcoin]
          exact if_neg hcoin
      · rw [if_neg hall, if_neg hall]
        by_cases hraised : fee < adjusted.fee
        · rw [if_pos hraised, if_pos hraised]
        · rw [if_neg hraised, if_neg hraised]

theorem feeRound_cases (fee : ℤ) :
    match feeRound arith inputs outputs changeLovelace changeAssets constraints changeAddresses
      fee with
    | .failed e => e = .outOfFuel →
        ∃ selection, constraints.computeMinimumCost selection = .error .outOfFuel
    | .assetsOnly feeOfAll => feeOfAll = changeLovelace ∧
        constraints.computeMinimumCoinQuantity (assetsOnlyChange changeAssets) ≤ 0
    | .restart raised => fee < raised ∧ raised < changeLovelace
    | .settled adjusted => ∃ changeOutputs costs,
        splitChange arith changeAddresses changeLovelace changeAssets
            constraints.computeMinimumCoinQuantity constraints.tokenBundleSizeExceedsLimit fee =
          .ok changeOutputs ∧
        constraints.computeMinimumCost (greedySkeleton inputs outputs changeOutputs fee) =
          .ok costs ∧
        adjusted.fee = costs.fee ∧ adjusted.fee ≤ fee ∧
        (adjusted.change, adjusted.feeAccountedFor) = discountFee
          constraints.computeMinimumCoinQuantity costs.fee (sortByCoins changeOutputs) := by
  unfold feeRound
  cases hsplit : splitChange arith changeAddresses changeLovelace changeAssets
      constraints.computeMinimumCoinQuantity constraints.tokenBundleSizeExceedsLimit fee with
  | error e =>
    rintro rfl
    exact absurd hsplit (splitChange_ne_outOfFuel _ _ _ _ _ _ _)
  | ok changeOutputs =>
    dsimp only
    cases hadjust : adjustOutputsForFee changeLovelace constraints inputs outputs changeOutputs
        fee with
    | error e =>
      rintro rfl
      rcases bind_error hadjust with hcosts | ⟨costs, _, hrest⟩
      · exact ⟨_, hcosts⟩
      · split at hrest
        · cases hrest
        · split at hrest
          · cases hrest
          · cases hrest
    | ok adjusted =>
      obtain ⟨costs, hcosts, hfee, hle, hdiscount⟩ := adjustOutputsForFee_cases hadjust
      dsimp only
      by_cases hall : adjusted.fee ≥ changeLovelace
      · rw [if_pos hall]
        by_cases hcoin : (assetsOnlyChange changeAssets).value.coins <
            constraints.computeMinimumCoinQuantity (assetsOnlyChange changeAssets)
        · rw [if_pos hcoin]
          intro h
          cases h
        · rw [if_neg hcoin]
          exact ⟨le_antisymm hle hall, not_lt.mp hcoin⟩
      · rw [if_neg hall]
        by_cases hraised : fee < adjusted.fee
        · rw [if_pos hraised]
          exact ⟨hraised, not_le.mp hall⟩
        · rw [if_neg hraised]
          exact ⟨changeOutputs, costs, rfl, hcosts, hfee, not_lt.mp hraised,
            hdiscount (not_le.mp hall)⟩

theorem splitChangeAndComputeFee_fuel {fuel fuel' : ℕ} {fee : ℤ}
    (hfuel : (changeLovelace - fee).toNat < fuel) (hfuel' : (changeLovelace - fee).toNat < fuel') :
    splitChangeAndComputeFee arith inputs outputs changeLovelace changeAssets constraints
      changeAddresses fuel fee =
    splitChangeAndComputeFee arith inputs outputs changeLovelace changeAssets constraints
      changeAddresses fuel' fee := by
  induction fuel generalizing fuel' fee with
  | zero => omega
  | succ fuel ih =>
    cases fuel' with
    | zero => omega
    | succ fuel' =>
      rw [splitChangeAndComputeFee_succ, splitChangeAndComputeFee_succ]
      have hround := @feeRound_cases arith inputs outputs changeLovelace changeAssets
        constraints changeAddresses fee
      generalize feeRound arith inputs outputs changeLovelace changeAssets constraints
        changeAddresses fee = round at hround
      cases round with
      | failed e => rfl
      | assetsOnly feeOfAll => rfl
      | restart raised =>
        obtain ⟨hraised, hbelow⟩ := hround
        dsimp only
        rw [@ih fuel' raised (by omega) (by omega)]
      | settled adjusted => rfl

theorem splitChangeAndComputeFee_ne_outOfFuel
    (hcost : ∀ selection, constraints.computeMinimumCost selection ≠ .error .outOfFuel)
    {fuel : ℕ} {fee : ℤ} (hfuel : (changeLovelace - fee).toNat < fuel) :
    splitChangeAndComputeFee arith inputs outputs changeLovelace changeAssets constraints
      changeAddresses fuel fee ≠ .error .outOfFuel := by
  have hcheck (adjusted : AdjustedOutputs) :
      checkAdjusted constraints.computeMinimumCoinQuantity adjusted ≠ .error .outOfFuel := by
    unfold checkAdjusted
    split
    · intro h
      cases h
    · split
      · intro h
        cases h
      · intro h
        cases h
  induction fuel generalizing fee with
  | zero => omega
  | succ fuel ih =>
    rw [splitChangeAndComputeFee_succ]
    have hround := @feeRound_cases arith inputs outputs changeLovelace changeAssets constraints
      changeAddresses fee
    generalize feeRound arith inputs outputs changeLovelace changeAssets constraints
      changeAddresses fee = round at hround
    cases round with
    | failed e =>
      intro h
      cases h
      obtain ⟨selection, hfail⟩ := hround rfl
      exact hcost selection hfail
    | assetsOnly feeOfAll =>
      intro h
      cases h
    | restart raised =>
      obtain ⟨hraised, hbelow⟩ := hround
      intro h
      rcases bind_error h with hrest | ⟨recomputed, _, hrest⟩
      · exact ih (by omega) hrest
      · split at hrest
        · cases hrest
        · exact hcheck recomputed hrest
    | settled adjusted => exact hcheck adjusted

def FeeTakenFromOne (changeOutputs : List TxOut) (fee : ℤ) (change : List TxOut) : Prop :=
  ∃ before output after, (before ++ output :: after).Perm changeOutputs ∧
    change = before ++ output.withCoins (output.value.coins - fee) :: after

theorem discountFee_takes {computeMinimumCoinQuantity : TxOut → ℤ} {fee : ℤ}
    {changeOutputs : List TxOut}
    (h : (discountFee computeMinimumCoinQuantity fee changeOutputs).2 = true) :
    FeeTakenFromOne changeOutputs fee
      (discountFee computeMinimumCoinQuantity fee changeOutputs).1 := by
  induction changeOutputs with
  | nil => cases h
  | cons output rest ih =>
    unfold discountFee at h ⊢
    split
    · exact ⟨[], output, rest, List.Perm.refl _, rfl⟩
    · rename_i hshort
      rw [if_neg hshort] at h
      obtain ⟨before, payer, after, hperm, hchange⟩ := ih h
      refine ⟨output :: before, payer, after, hperm.cons output, ?_⟩
      dsimp only
      rw [hchange]
      rfl

theorem FeeTakenFromOne.perm {changeOutputs sorted change : List TxOut} {fee : ℤ}
    (h : FeeTakenFromOne sorted fee change) (hperm : sorted.Perm changeOutputs) :
    FeeTakenFromOne changeOutputs fee change := by
  obtain ⟨before, output, after, hsorted, hchange⟩ := h
  exact ⟨before, output, after, hsorted.trans hperm, hchange⟩

theorem splitChangeAndComputeFee_returns {fuel : ℕ} {fee : ℤ} {result : AdjustedOutputs}
    (h : splitChangeAndComputeFee arith inputs outputs changeLovelace changeAssets constraints
      changeAddresses fuel fee = .ok result) :
    (∀ out ∈ result.change, constraints.computeMinimumCoinQuantity out ≤ out.value.coins) ∧
      ((result.fee = changeLovelace ∧ result.change = [assetsOnlyChange changeAssets]) ∨
        ∃ startFee changeOutputs costs, result.fee ≤ startFee ∧
          splitChange arith changeAddresses changeLovelace changeAssets
              constraints.computeMinimumCoinQuantity constraints.tokenBundleSizeExceedsLimit
              startFee = .ok changeOutputs ∧
          constraints.computeMinimumCost (greedySkeleton inputs outputs changeOutputs startFee) =
            .ok costs ∧ result.fee = costs.fee ∧
          FeeTakenFromOne changeOutputs result.fee result.change) := by
  induction fuel generalizing fee result with
  | zero => cases h
  | succ fuel ih =>
    rw [splitChangeAndComputeFee_succ] at h
    have hround := @feeRound_cases arith inputs outputs changeLovelace changeAssets constraints
      changeAddresses fee
    generalize feeRound arith inputs outputs changeLovelace changeAssets constraints
      changeAddresses fee = round at h hround
    cases round with
    | failed e => cases h
    | assetsOnly feeOfAll =>
      cases h
      obtain ⟨hfee, hcoin⟩ := hround
      refine ⟨?_, Or.inl ⟨hfee, rfl⟩⟩
      intro out hout
      rw [List.mem_singleton.mp hout]
      exact hcoin
    | restart raised =>
      obtain ⟨recomputed, hrecomputed, h⟩ := bind_ok h
      split at h
      · cases h
      · obtain ⟨rfl, _, _⟩ := checkAdjusted_ok h
        exact ih hrecomputed
    | settled adjusted =>
      obtain ⟨changeOutputs, costs, hsplit, hcosts, hfee, hle, hdiscount⟩ := hround
      obtain ⟨rfl, haccounted, hcoin⟩ := checkAdjusted_ok h
      obtain ⟨hchange, hflag⟩ := Prod.mk.inj hdiscount
      rw [haccounted] at hflag
      refine ⟨hcoin, Or.inr ⟨fee, changeOutputs, costs, hle, hsplit, hcosts, hfee, ?_⟩⟩
      rw [hchange, hfee]
      exact (discountFee_takes hflag.symm).perm (perm_sortByCoins changeOutputs)

end Recursion

/-- A cost that does not decrease when the fee argument or the coin of an
output grows; one that is rejected counts as the largest. -/
structure GrowingCost (cost : CostCallback) : Prop where
  lowerFee : ∀ selection fee costs, fee ≤ selection.fee → cost selection = .ok costs →
    ∃ costs', cost { selection with fee := fee } = .ok costs' ∧ costs'.fee ≤ costs.fee
  lowerCoins : ∀ selection before output after coins costs,
    selection.outputs = before ++ output :: after → coins ≤ output.value.coins →
    cost selection = .ok costs →
    ∃ costs', cost { selection with outputs := before ++ output.withCoins coins :: after } =
      .ok costs' ∧ costs'.fee ≤ costs.fee

/-- A growing cost that is not negative and sees the outputs as a set without
an order. The last field excludes the model's own mark of a stopped recursion. -/
structure SetCost (cost : CostCallback) : Prop extends GrowingCost cost where
  nonneg : ∀ selection costs, cost selection = .ok costs → 0 ≤ costs.fee
  reorder : ∀ selection outputs, outputs.Perm selection.outputs →
    cost { selection with outputs := outputs } = cost selection
  ends : ∀ selection, cost selection ≠ .error .outOfFuel

theorem SetCost.feeTaken {cost : CostCallback} (h : SetCost cost) {inputs : JsSet Utxo}
    {outputs changeOutputs change : List TxOut} {startFee fee : ℤ} {costs : TxCosts}
    (hcosts : cost (greedySkeleton inputs outputs changeOutputs startFee) = .ok costs)
    (htaken : FeeTakenFromOne changeOutputs fee change) (hfee : 0 ≤ fee) (hle : fee ≤ startFee) :
    ∃ costs', cost (greedySkeleton inputs outputs change fee) = .ok costs' ∧
      costs'.fee ≤ costs.fee := by
  obtain ⟨before, output, after, hperm, rfl⟩ := htaken
  have hreorder := h.reorder (greedySkeleton inputs outputs changeOutputs startFee)
    (outputs ++ (before ++ output :: after)) (hperm.append_left outputs)
  rw [hcosts] at hreorder
  obtain ⟨lower, hlower, hlowerLe⟩ := h.lowerCoins _ (outputs ++ before) output after
    (output.value.coins - fee) costs (List.append_assoc _ _ _).symm (by omega) hreorder
  obtain ⟨last, hlast, hlastLe⟩ := h.lowerFee _ fee lower hle hlower
  refine ⟨last, ?_, hlastLe.trans hlowerLe⟩
  rw [greedySkeleton, ← List.append_assoc]
  exact hlast

/-- The recursion ends, within as many rounds as there is lovelace above the
fee it is started with; every output it returns has its minimum coin; and its
fee is at least the cost of what it returns, taken from exactly one output of
the split change, unless the fee is the whole surplus and the assets are
returned alone. -/
theorem greedy_fee_recursion (arith : ShareArithmetic) (inputs : JsSet Utxo)
    (outputs : List TxOut) (changeLovelace : ℤ) (changeAssets : Option TokenMap)
    (constraints : SelectionConstraints) (changeAddresses : JsMap PaymentAddress ℚ) (fee : ℤ)
    (hcost : SetCost constraints.computeMinimumCost) :
    (∀ amount minimumCoinFor fuel, amount.toNat < fuel →
      splitAmounts amount (getMinUtxoAmount amount) minimumCoinFor fee fuel amount 0 =
        splitAmounts amount (getMinUtxoAmount amount) minimumCoinFor fee (amount.toNat + 1)
          amount 0) ∧
    (∀ fuel, (changeLovelace - fee).toNat < fuel →
      splitChangeAndComputeFee arith inputs outputs changeLovelace changeAssets constraints
          changeAddresses fuel fee ≠ .error .outOfFuel ∧
        splitChangeAndComputeFee arith inputs outputs changeLovelace changeAssets constraints
            changeAddresses fuel fee =
          splitChangeAndComputeFee arith inputs outputs changeLovelace changeAssets constraints
            changeAddresses ((changeLovelace - fee).toNat + 1) fee) ∧
    ∀ fuel result, splitChangeAndComputeFee arith inputs outputs changeLovelace changeAssets
        constraints changeAddresses fuel fee = .ok result →
      (∀ out ∈ result.change, constraints.computeMinimumCoinQuantity out ≤ out.value.coins) ∧
      ((result.fee = changeLovelace ∧ result.change = [assetsOnlyChange changeAssets]) ∨
        (∃ costs, constraints.computeMinimumCost
            (greedySkeleton inputs outputs result.change result.fee) = .ok costs ∧
          costs.fee ≤ result.fee) ∧
        ∃ startFee changeOutputs, splitChange arith changeAddresses changeLovelace changeAssets
            constraints.computeMinimumCoinQuantity constraints.tokenBundleSizeExceedsLimit
            startFee = .ok changeOutputs ∧
          FeeTakenFromOne changeOutputs result.fee result.change) := by
  refine ⟨?_, ?_, ?_⟩
  · intro amount minimumCoinFor fuel hfuel
    exact splitAmounts_fuel minimumCoinFor fee (getMinUtxoAmount_pos amount) 0 hfuel (by omega)
  · intro fuel hfuel
    exact ⟨splitChangeAndComputeFee_ne_outOfFuel hcost.ends hfuel,
      splitChangeAndComputeFee_fuel hfuel (by omega)⟩
  · intro fuel result h
    obtain ⟨hcoin, hresult⟩ := splitChangeAndComputeFee_returns h
    refine ⟨hcoin, ?_⟩
    rcases hresult with hall | ⟨startFee, changeOutputs, costs, hle, hsplit, hcosts, hfee, htaken⟩
    · exact Or.inl hall
    · right
      have hnonneg : 0 ≤ result.fee := by
        rw [hfee]
        exact hcost.nonneg _ _ hcosts
      obtain ⟨returned, hreturned, hless⟩ := hcost.feeTaken hcosts htaken hnonneg hle
      exact ⟨⟨returned, hreturned, by omega⟩, startFee, changeOutputs, hsplit, htaken⟩

theorem setCost_flat {fee : ℤ} (hfee : 0 ≤ fee) :
    SetCost (flatConstraints fee).computeMinimumCost where
  lowerFee := fun _ _ costs _ h => ⟨costs, h, le_rfl⟩
  lowerCoins := fun _ _ _ _ _ costs _ _ h => ⟨costs, h, le_rfl⟩
  nonneg := flatConstraints_fee_nonneg hfee
  reorder := fun _ _ _ => rfl
  ends := by
    intro selection h
    cases h

/-- A surplus of 20 with an asset, split over two addresses, pays a fee of 6. -/
theorem greedy_fee_recursion_flat : ∃ result,
    splitChangeAndComputeFee exactArithmetic (JsSet.ofList []) [] 20
        (some (JsMap.ofList [([1], 5)])) (flatConstraints 6) (JsMap.ofList [("a", 1), ("b", 2)])
        30 0 = .ok result ∧ result.fee = 6 ∧
      ∃ costs, (flatConstraints 6).computeMinimumCost
        (greedySkeleton (JsSet.ofList []) [] result.change result.fee) = .ok costs ∧
          costs.fee ≤ result.fee := by
  have hrun : okAnd (fun result => result.fee = 6)
      (splitChangeAndComputeFee exactArithmetic (JsSet.ofList []) [] 20
        (some (JsMap.ofList [([1], 5)])) (flatConstraints 6) (JsMap.ofList [("a", 1), ("b", 2)])
        30 0) = true := by
    decide +kernel
  obtain ⟨result, hok, hfee⟩ := okAnd_iff.mp hrun
  have hfee : result.fee = 6 := of_decide_eq_true hfee
  obtain ⟨_, _, hreturns⟩ := greedy_fee_recursion exactArithmetic (JsSet.ofList []) [] 20
    (some (JsMap.ofList [([1], 5)])) (flatConstraints 6) (JsMap.ofList [("a", 1), ("b", 2)]) 0
    (setCost_flat (by norm_num))
  rcases (hreturns 30 result hok).2 with ⟨hall, _⟩ | ⟨hpaid, _⟩
  · omega
  · exact ⟨result, hok, hfee, hpaid⟩

def underpays (changeLovelace : ℤ) (changeAssets : Option TokenMap)
    (constraints : SelectionConstraints) (changeAddresses : JsMap PaymentAddress ℚ) : Bool :=
  okAnd (fun result => okAnd (fun costs => decide (result.fee < costs.fee))
      (constraints.computeMinimumCost
        (greedySkeleton (JsSet.ofList []) [] result.change result.fee)))
    (splitChangeAndComputeFee exactArithmetic (JsSet.ofList []) [] changeLovelace changeAssets
      constraints changeAddresses (changeLovelace.toNat + 1) 0)

theorem exists_of_underpays {changeLovelace : ℤ} {changeAssets : Option TokenMap}
    {constraints : SelectionConstraints} {changeAddresses : JsMap PaymentAddress ℚ}
    (h : underpays changeLovelace changeAssets constraints changeAddresses = true) :
    ∃ fuel result costs, splitChangeAndComputeFee exactArithmetic (JsSet.ofList []) []
        changeLovelace changeAssets constraints changeAddresses fuel 0 = .ok result ∧
      constraints.computeMinimumCost
        (greedySkeleton (JsSet.ofList []) [] result.change result.fee) = .ok costs ∧
      result.fee < costs.fee := by
  obtain ⟨result, hresult, hcosts⟩ := okAnd_iff.mp h
  obtain ⟨costs, hok, hless⟩ := okAnd_iff.mp hcosts
  exact ⟨_, result, costs, hresult, hok, of_decide_eq_true hless⟩

def pricedOutputs : SelectionConstraints where
  computeMinimumCost := fun selection => .ok { fee := selection.outputs.length }
  tokenBundleSizeExceedsLimit := fun _ => false
  computeMinimumCoinQuantity := fun _ => 0
  computeSelectionLimit := fun _ => .ok 100

/-- A cost that depends on which output comes first, and assets 1 and 3 that
do not fit into one bundle. -/
def orderedCost : SelectionConstraints where
  computeMinimumCost := fun selection =>
    .ok { fee := if (selection.outputs.head?.map TxOut.address) = some "a" then 5 else 1 }
  tokenBundleSizeExceedsLimit := fun assets => assets.has [1] && assets.has [3]
  computeMinimumCoinQuantity := fun out => if out.address = stubMaxSizeAddress then 0 else 10
  computeSelectionLimit := fun _ => .ok 100

def refundingCost : SelectionConstraints where
  computeMinimumCost := fun selection =>
    .ok { fee := if getCoinQuantity (outputsToValues selection.outputs) ≤ 20 then -5 else 3 }
  tokenBundleSizeExceedsLimit := fun _ => false
  computeMinimumCoinQuantity := fun _ => 0
  computeSelectionLimit := fun _ => .ok 100

theorem growingCost_pricedOutputs : GrowingCost pricedOutputs.computeMinimumCost where
  lowerFee := fun _ _ costs _ h => ⟨costs, h, le_rfl⟩
  lowerCoins := by
    intro selection before output after coins costs houtputs _ hcost
    cases hcost
    refine ⟨_, rfl, ?_⟩
    simp [houtputs]

theorem growingCost_orderedCost : GrowingCost orderedCost.computeMinimumCost where
  lowerFee := fun _ _ costs _ h => ⟨costs, h, le_rfl⟩
  lowerCoins := by
    intro selection before output after coins costs houtputs _ hcost
    cases hcost
    refine ⟨_, rfl, ?_⟩
    cases before with
    | nil => simp [houtputs, TxOut.withCoins]
    | cons first rest => simp [houtputs]

theorem growingCost_refundingCost : GrowingCost refundingCost.computeMinimumCost where
  lowerFee := fun _ _ costs _ h => ⟨costs, h, le_rfl⟩
  lowerCoins := by
    intro selection before output after coins costs houtputs hcoins hcost
    cases hcost
    refine ⟨_, rfl, ?_⟩
    have hless : getCoinQuantity (outputsToValues (before ++ output.withCoins coins :: after)) ≤
        getCoinQuantity (outputsToValues selection.outputs) := by
      rw [houtputs]
      simp only [getCoinQuantity, outputsToValues, List.map_append, List.map_cons,
        List.sum_append, List.sum_cons, TxOut.withCoins]
      omega
    simp only
    split
    · split
      · exact le_rfl
      · norm_num
    · rw [if_neg (by omega)]

/-- The fee falls short of a growing cost when the assets are returned alone,
when the cost depends on the order of the outputs, and when it is negative. -/
theorem greedy_fee_underpays :
    (GrowingCost pricedOutputs.computeMinimumCost ∧
      ∃ fuel result costs, splitChangeAndComputeFee exactArithmetic (JsSet.ofList []) [] 0
          (some (JsMap.ofList [([1], 5)])) pricedOutputs (JsMap.ofList [("a", 1)]) fuel 0 =
            .ok result ∧
        pricedOutputs.computeMinimumCost
          (greedySkeleton (JsSet.ofList []) [] result.change result.fee) = .ok costs ∧
        result.fee < costs.fee) ∧
    (GrowingCost orderedCost.computeMinimumCost ∧
      ∃ fuel result costs, splitChangeAndComputeFee exactArithmetic (JsSet.ofList []) [] 30
          (some (JsMap.ofList [([1], 1), ([2], 1), ([3], 1)])) orderedCost
          (JsMap.ofList [("a", 2), ("b", 1)]) fuel 0 = .ok result ∧
        orderedCost.computeMinimumCost
          (greedySkeleton (JsSet.ofList []) [] result.change result.fee) = .ok costs ∧
        result.fee < costs.fee) ∧
    (GrowingCost refundingCost.computeMinimumCost ∧
      ∃ fuel result costs, splitChangeAndComputeFee exactArithmetic (JsSet.ofList []) [] 20
          none refundingCost (JsMap.ofList [("a", 1)]) fuel 0 = .ok result ∧
        refundingCost.computeMinimumCost
          (greedySkeleton (JsSet.ofList []) [] result.change result.fee) = .ok costs ∧
        result.fee < costs.fee) := by
  refine ⟨⟨growingCost_pricedOutputs, exists_of_underpays ?_⟩,
    ⟨growingCost_orderedCost, exists_of_underpays ?_⟩,
    ⟨growingCost_refundingCost, exists_of_underpays ?_⟩⟩
  · decide +kernel
  · decide +kernel
  · decide +kernel

end CardanoSdk.InputSelection
