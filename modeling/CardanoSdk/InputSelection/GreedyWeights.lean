import CardanoSdk.InputSelection.GreedyConservation

/-!
The greedy change follows the weights of the addresses. What a share loses to the cut is
at most what the shares before it gained by rounding.
-/

namespace CardanoSdk.InputSelection

open Lib

def holding (out : TxOut) : PaymentAddress × ℤ := (out.address, out.value.coins)

def coinsAt (address : PaymentAddress) (outputs : List TxOut) : ℤ :=
  (outputs.map (fun out => if out.address = address then out.value.coins else 0)).sum

variable {outputs xs ys result : List TxOut} {totalChangeLovelace : ℤ}

theorem coinsAt_perm (h : (xs.map holding).Perm (ys.map holding)) (address : PaymentAddress) :
    coinsAt address xs = coinsAt address ys := by
  have hsum := (h.map (fun paid : PaymentAddress × ℤ =>
    if paid.1 = address then paid.2 else 0)).sum_eq
  rw [List.map_map, List.map_map] at hsum
  exact hsum

theorem getCoinQuantity_perm (h : (xs.map holding).Perm (ys.map holding)) :
    getCoinQuantity (outputsToValues xs) = getCoinQuantity (outputsToValues ys) := by
  have hsum := (h.map Prod.snd).sum_eq
  simpa only [getCoinQuantity, outputsToValues, List.map_map, Function.comp_def, holding]
    using hsum

theorem mem_holding_perm (h : (xs.map holding).Perm (ys.map holding)) {out : TxOut}
    (hout : out ∈ xs) : ∃ other ∈ ys, other.address = out.address ∧
      other.value.coins = out.value.coins := by
  obtain ⟨other, hother, heq⟩ := List.mem_map.mp (h.mem_iff.mp (List.mem_map_of_mem hout))
  simp only [holding, Prod.mk.injEq] at heq
  exact ⟨other, hother, heq.1, heq.2⟩

theorem map_holding_setFirstAssets (outputs : List TxOut) (assets : Option TokenMap) :
    (setFirstAssets outputs assets).map holding = outputs.map holding := by
  cases outputs with
  | nil => rfl
  | cons first rest => rfl

variable {computeMinimumCoinQuantity : TxOut → ℤ} {tokenBundleSizeExceedsLimit : TokenMap → Bool}
  {fee : ℤ} {address : PaymentAddress} {shares : List (PaymentAddress × ℚ)}

theorem distributeRounds_holding {fuel : ℕ} {availableOutputs alreadyFullOutputs : List TxOut}
    {assets : List (AssetId × ℤ)} {i : ℕ}
    (hok : distributeRounds computeMinimumCoinQuantity tokenBundleSizeExceedsLimit fee fuel
      availableOutputs alreadyFullOutputs assets i = .ok result) :
    (result.map holding).Perm ((availableOutputs ++ alreadyFullOutputs).map holding) := by
  induction fuel generalizing availableOutputs alreadyFullOutputs assets i with
  | zero =>
    cases assets with
    | nil =>
      cases hok
      exact List.Perm.refl _
    | cons asset rest => cases hok
  | succ fuel ih =>
    cases assets with
    | nil =>
      cases hok
      exact List.Perm.refl _
    | cons asset rest =>
      unfold distributeRounds at hok
      dsimp only at hok
      split at hok
      · cases hok
      · rename_i output hget
        obtain ⟨hindex, hvalue⟩ := List.getElem?_eq_some_iff.mp hget
        split at hok
        · have hsame : (availableOutputs.set (i % availableOutputs.length)
              { output with value := { output.value with
                  assets := addTokenMaps output.value.assets
                    (some (JsMap.empty.set asset.1 asset.2)) } }).map holding =
              availableOutputs.map holding := by
            rw [List.map_set]
            conv_rhs => rw [← @List.set_getElem_self _ availableOutputs _ hindex]
            rw [List.map_set, hvalue]
            rfl
          have hperm := ih hok
          rw [List.map_append, hsame, ← List.map_append] at hperm
          exact hperm
        · split at hok
          · cases hok
          · exact (ih hok).trans ((eraseIdx_append_perm hget alreadyFullOutputs).map holding)

theorem distributeAssets_holding
    (hok : distributeAssets outputs computeMinimumCoinQuantity tokenBundleSizeExceedsLimit fee =
      .ok result) : (result.map holding).Perm (outputs.map holding) := by
  unfold distributeAssets at hok
  split at hok
  · cases hok
    exact List.Perm.refl _
  · split at hok
    · cases hok
      exact List.Perm.refl _
    · dsimp only at hok
      have hperm := distributeRounds_holding hok
      rw [List.append_nil, List.map_map] at hperm
      exact hperm

theorem address_of_mem_splitChangeOutput {output out : TxOut}
    {computeMinimumCoinQuantity : TxOut → ℤ} {fee : ℤ}
    (h : out ∈ splitChangeOutput output computeMinimumCoinQuantity fee) :
    out.address = output.address := by
  unfold splitChangeOutput at h
  obtain ⟨coins, _, rfl⟩ := List.mem_map.mp h
  rfl

theorem coinsAt_of_same (h : ∀ out ∈ outputs, out.address = address) (other : PaymentAddress) :
    coinsAt other outputs =
      if address = other then getCoinQuantity (outputsToValues outputs) else 0 := by
  induction outputs with
  | nil => simp [coinsAt, getCoinQuantity, outputsToValues]
  | cons out rest ih =>
    have hrest := ih (fun o ho => h o (List.mem_cons_of_mem _ ho))
    have hout := h out (by simp)
    simp only [coinsAt, getCoinQuantity, outputsToValues, List.map_cons, List.sum_cons,
      hout] at hrest ⊢
    rw [hrest]
    split <;> simp

theorem coinsAt_flatMap_split (outputs : List TxOut) (computeMinimumCoinQuantity : TxOut → ℤ)
    (fee : ℤ) (address : PaymentAddress) :
    coinsAt address (outputs.flatMap
      (fun output => splitChangeOutput output computeMinimumCoinQuantity fee)) =
      (outputs.map (fun out => if out.address = address then max out.value.coins 0 else 0)).sum := by
  induction outputs with
  | nil => rfl
  | cons out rest ih =>
    have hpieces := coinsAt_of_same (fun piece hpiece => @address_of_mem_splitChangeOutput out piece
      computeMinimumCoinQuantity fee hpiece) address
    rw [(splitChangeOutput_spec out computeMinimumCoinQuantity fee).1] at hpieces
    rw [List.map_cons, List.sum_cons, ← ih, ← hpieces]
    simp only [coinsAt, List.flatMap_cons, List.map_append, List.sum_append]

/-- A share that is cut back loses at most `excess`, and one that is not gains
less than one lovelace. -/
def NearShare (totalChangeLovelace : ℤ) (excess : ℚ) (share : PaymentAddress × ℚ)
    (out : TxOut) : Prop :=
  out.address = share.1 ∧ (out.value.coins : ℚ) < totalChangeLovelace * share.2 + 1 ∧
    totalChangeLovelace * share.2 - excess < out.value.coins

theorem roundUp_bounds {q : ℚ} (hq : 0 ≤ q) : q ≤ roundUp q ∧ (roundUp q : ℚ) < q + 1 := by
  rw [roundUp, if_neg (not_lt.mpr hq)]
  exact ⟨Int.le_ceil q, Int.ceil_lt_add_one q⟩

/-- The shares left to allocate exceed what is left of the total by at most
what rounding has added so far, and every share adds less than one. -/
theorem allocateShares_near {totalChangeLovelace : ℤ} (htotal : 0 ≤ totalChangeLovelace)
    {shares : List (PaymentAddress × ℚ)} (hshares : ∀ share ∈ shares, 0 ≤ share.2)
    {runningTotal : ℤ} {excess : ℚ} (hexcess : 0 ≤ excess)
    (hbudget : runningTotal + (shares.map (fun share => (totalChangeLovelace : ℚ) * share.2)).sum ≤
      totalChangeLovelace + excess) :
    List.Forall₂ (NearShare totalChangeLovelace (excess + shares.length)) shares
      (allocateShares totalChangeLovelace shares runningTotal).1 := by
  induction shares generalizing runningTotal excess with
  | nil => exact List.Forall₂.nil
  | cons share rest ih =>
    obtain ⟨address, factor⟩ := share
    have hexact : (0 : ℚ) ≤ totalChangeLovelace * factor :=
      mul_nonneg (by exact_mod_cast htotal) (hshares (address, factor) (by simp))
    have hrest : ∀ share ∈ rest, 0 ≤ share.2 :=
      fun share hshare => hshares share (List.mem_cons_of_mem _ hshare)
    obtain ⟨hle, hlt⟩ := roundUp_bounds hexact
    simp only [List.map_cons, List.sum_cons] at hbudget
    have hrestNonneg : 0 ≤ (rest.map (fun share => (totalChangeLovelace : ℚ) * share.2)).sum := by
      apply List.sum_nonneg
      intro amount hamount
      obtain ⟨share, hshare, rfl⟩ := List.mem_map.mp hamount
      exact mul_nonneg (by exact_mod_cast htotal) (hrest share hshare)
    have hnext := @ih hrest (runningTotal + roundUp (totalChangeLovelace * factor)) (excess + 1)
      (by linarith) (by push_cast; linarith)
    have hlength : excess + ((((address, factor) :: rest).length : ℕ) : ℚ) =
        excess + 1 + rest.length := by
      rw [List.length_cons]
      push_cast
      ring
    have hcount : (0 : ℚ) ≤ rest.length := Nat.cast_nonneg _
    unfold allocateShares
    dsimp only
    rw [hlength]
    refine List.Forall₂.cons ⟨rfl, ?_, ?_⟩ hnext
    · dsimp only
      split
      · rename_i hover
        have hoverQ : (totalChangeLovelace : ℚ) <
            runningTotal + roundUp (totalChangeLovelace * factor) := by exact_mod_cast hover
        push_cast
        linarith
      · exact hlt
    · dsimp only
      split
      · push_cast
        linarith
      · linarith

theorem le_allocateShares (htotal : 0 ≤ totalChangeLovelace)
    (hshares : ∀ share ∈ shares, 0 ≤ share.2) (runningTotal : ℤ) :
    runningTotal + (shares.map (fun share => (totalChangeLovelace : ℚ) * share.2)).sum ≤
      (allocateShares totalChangeLovelace shares runningTotal).2 := by
  induction shares generalizing runningTotal with
  | nil => simp [allocateShares]
  | cons share rest ih =>
    obtain ⟨address, factor⟩ := share
    have hexact : (0 : ℚ) ≤ totalChangeLovelace * factor :=
      mul_nonneg (by exact_mod_cast htotal) (hshares (address, factor) (by simp))
    have hrest := ih (fun share hshare => hshares share (List.mem_cons_of_mem _ hshare))
      (runningTotal + roundUp (totalChangeLovelace * factor))
    have hle := (roundUp_bounds hexact).1
    unfold allocateShares
    dsimp only
    rw [List.map_cons, List.sum_cons]
    push_cast at hrest
    linarith

theorem sum_near_share (htotal : 0 ≤ totalChangeLovelace) {excess : ℚ} (hexcess : 1 ≤ excess)
    (hnear : List.Forall₂ (NearShare totalChangeLovelace excess) shares outputs)
    (hkeys : (shares.map Prod.fst).Nodup) {factor : ℚ} (hshare : (address, factor) ∈ shares)
    (hfactor : 0 ≤ factor) :
    |(((outputs.map (fun out => if out.address = address then max out.value.coins 0 else 0)).sum
      : ℤ) : ℚ) - totalChangeLovelace * factor| < excess := by
  induction hnear with
  | nil => simp at hshare
  | @cons share out restShares restOutputs hout hrest ih =>
    simp only [List.map_cons, List.nodup_cons] at hkeys
    obtain ⟨haddress, hupper, hlower⟩ := hout
    rw [List.map_cons, List.sum_cons]
    rcases List.mem_cons.mp hshare with rfl | hmem
    · -- no later output pays this address
      have hzero : (restOutputs.map (fun out =>
          if out.address = address then max out.value.coins 0 else 0)).sum = 0 := by
        apply List.sum_eq_zero
        intro amount hamount
        obtain ⟨other, hother, rfl⟩ := List.mem_map.mp hamount
        obtain ⟨otherShare, hotherShare, hnearOther⟩ := exists_of_forall₂_right hrest hother
        rw [if_neg]
        intro heq
        exact hkeys.1 (List.mem_map.mpr ⟨otherShare, hotherShare, hnearOther.1.symm.trans heq⟩)
      have hexact : (0 : ℚ) ≤ totalChangeLovelace * factor :=
        mul_nonneg (by exact_mod_cast htotal) hfactor
      rw [hzero, add_zero, if_pos haddress, abs_lt]
      dsimp only at hupper hlower
      rcases le_total out.value.coins 0 with hneg | hpos
      · have hnegQ : (out.value.coins : ℚ) ≤ 0 := by exact_mod_cast hneg
        rw [max_eq_right hneg]
        constructor <;> push_cast <;> linarith
      · rw [max_eq_left hpos]
        constructor <;> linarith
    · have hother : out.address ≠ address := by
        intro heq
        exact hkeys.1 (List.mem_map.mpr ⟨(address, factor), hmem, (haddress.symm.trans heq).symm⟩)
      rw [if_neg hother, zero_add]
      exact ih hkeys.2 hmem

/-- Change that follows the weights: positive outputs at the given addresses
that hold the total, each address within one lovelace an address of its
proportion. -/
structure FollowsWeights (changeAddresses : JsMap PaymentAddress ℚ) (totalChangeLovelace : ℤ)
    (outputs : List TxOut) : Prop where
  addresses : ∀ out ∈ outputs, out.address ∈ changeAddresses.keys
  positive : ∀ out ∈ outputs, 0 < out.value.coins
  coins : getCoinQuantity (outputsToValues outputs) = totalChangeLovelace
  share : ∀ address weight, changeAddresses.get? address = some weight →
    |(coinsAt address outputs : ℚ) - totalChangeLovelace * (weight / changeAddresses.values.sum)| <
      changeAddresses.size

theorem FollowsWeights.of_perm {changeAddresses : JsMap PaymentAddress ℚ}
    (h : FollowsWeights changeAddresses totalChangeLovelace outputs)
    (hperm : (result.map holding).Perm (outputs.map holding)) :
    FollowsWeights changeAddresses totalChangeLovelace result := by
  refine ⟨?_, ?_, ?_, ?_⟩
  · intro out hout
    obtain ⟨other, hother, haddress, _⟩ := mem_holding_perm hperm hout
    rw [← haddress]
    exact h.addresses other hother
  · intro out hout
    obtain ⟨other, hother, _, hcoins⟩ := mem_holding_perm hperm hout
    rw [← hcoins]
    exact h.positive other hother
  · rw [getCoinQuantity_perm hperm, h.coins]
  · intro address weight hweight
    rw [coinsAt_perm hperm]
    exact h.share address weight hweight

section Weights

variable {changeAddresses : JsMap PaymentAddress ℚ}

theorem sum_pos_of_weights (hweights : ∀ weight ∈ changeAddresses.values, 0 < weight)
    (hsize : 0 < changeAddresses.size) : 0 < changeAddresses.values.sum := by
  apply List.sum_pos _ hweights
  intro hnil
  rw [JsMap.values, List.map_eq_nil_iff] at hnil
  rw [JsMap.size, hnil] at hsize
  exact absurd hsize (lt_irrefl 0)

def proportions (changeAddresses : JsMap PaymentAddress ℚ) : JsMap PaymentAddress ℚ :=
  changeAddresses.mapValues (fun weight => weight / changeAddresses.values.sum)

theorem sum_proportions (hsum : changeAddresses.values.sum ≠ 0) :
    (proportions changeAddresses).values.sum = 1 := by
  have hvalues : (proportions changeAddresses).values =
      changeAddresses.values.map (fun weight => weight * changeAddresses.values.sum⁻¹) := by
    simp only [proportions, JsMap.values, JsMap.mapValues, List.map_map, Function.comp_def,
      div_eq_mul_inv]
  rw [hvalues, List.sum_map_mul_right, List.map_id', mul_inv_cancel₀ hsum]

theorem sum_shares (hsum : changeAddresses.values.sum ≠ 0) (totalChangeLovelace : ℤ) :
    ((proportions changeAddresses).entries.map
      (fun share => (totalChangeLovelace : ℚ) * share.2)).sum = totalChangeLovelace := by
  have hone := sum_proportions hsum
  rw [List.sum_map_mul_left]
  rw [JsMap.values] at hone
  rw [hone, mul_one]

theorem proportions_nonneg (hweights : ∀ weight ∈ changeAddresses.values, 0 < weight) :
    ∀ share ∈ (proportions changeAddresses).entries, 0 ≤ share.2 := by
  intro share hshare
  obtain ⟨entry, hentry, rfl⟩ := List.mem_map.mp hshare
  have hpos := hweights entry.2 (List.mem_map.mpr ⟨entry, hentry, rfl⟩)
  exact div_nonneg hpos.le (List.sum_nonneg (fun weight hweight => (hweights weight hweight).le))

theorem followsWeights_sorted (hweights : ∀ weight ∈ changeAddresses.values, 0 < weight)
    (hsize : 0 < changeAddresses.size) (htotal : 0 ≤ totalChangeLovelace)
    (computeMinimumCoinQuantity : TxOut → ℤ) (fee : ℤ) :
    FollowsWeights changeAddresses totalChangeLovelace ((sortByCoins
      ((allocateShares totalChangeLovelace (proportions changeAddresses).entries 0).1.flatMap
        (fun output => splitChangeOutput output computeMinimumCoinQuantity fee))).filter
          (fun out => out.value.coins > 0)) := by
  have hsum := (sum_pos_of_weights hweights hsize).ne'
  have hnonneg := proportions_nonneg hweights
  have hshares := sum_shares hsum totalChangeLovelace
  set shares := (proportions changeAddresses).entries with hsharesDef
  set allocated := allocateShares totalChangeLovelace shares 0 with hallocated
  set splitOutputs := allocated.1.flatMap
    (fun output => splitChangeOutput output computeMinimumCoinQuantity fee) with hsplit
  have hlength : shares.length = changeAddresses.size := List.length_map _
  have hnear : List.Forall₂ (NearShare totalChangeLovelace changeAddresses.size) shares
      allocated.1 := by
    have h := @allocateShares_near totalChangeLovelace htotal shares hnonneg 0 0 le_rfl
      (by rw [hshares]; simp)
    rwa [zero_add, hlength] at h
  have hpositive : ∀ out ∈ sortByCoins splitOutputs, 0 < out.value.coins := by
    intro out hout
    obtain ⟨original, _, hpiece⟩ := List.mem_flatMap.mp ((perm_sortByCoins _).mem_iff.mp hout)
    exact ((splitChangeOutput_spec original computeMinimumCoinQuantity fee).2 out hpiece).1
  rw [List.filter_eq_self.mpr (fun out hout => decide_eq_true (hpositive out hout))]
  have hfollows : FollowsWeights changeAddresses totalChangeLovelace splitOutputs := by
    refine ⟨?_, ?_, ?_, ?_⟩
    · intro out hout
      obtain ⟨original, horiginal, hpiece⟩ := List.mem_flatMap.mp hout
      obtain ⟨share, hshare, haddress, _⟩ := exists_of_forall₂_right hnear horiginal
      obtain ⟨entry, hentry, rfl⟩ := List.mem_map.mp hshare
      rw [address_of_mem_splitChangeOutput hpiece, haddress]
      exact List.mem_map.mpr ⟨entry, hentry, rfl⟩
    · intro out hout
      exact hpositive out ((perm_sortByCoins _).mem_iff.mpr hout)
    · -- the shares reach the total, so what is not negative of them is the total
      have hlovelace := outputsTotal_lovelace_flatMap_split allocated.1
        computeMinimumCoinQuantity fee
      obtain ⟨hallocatedSum, _⟩ := allocateShares_spec htotal hnonneg 0
      have hreached : totalChangeLovelace ≤ allocated.2 := by
        have h := le_allocateShares htotal hnonneg 0
        rw [hshares] at h
        have hcast : (totalChangeLovelace : ℚ) ≤ (allocated.2 : ℚ) := by simpa using h
        exact_mod_cast hcast
      rw [hallocatedSum] at hlovelace
      have htotals := total_lovelace (outputsToValues splitOutputs)
      rw [outputsTotal, htotals] at hlovelace
      rw [hlovelace, ← hallocated, min_eq_right hreached, min_eq_left htotal, sub_zero]
    · intro address weight hweight
      have hmem : (address, weight / changeAddresses.values.sum) ∈ shares :=
        List.mem_map.mpr ⟨(address, weight), JsMap.get?_eq_some_iff.mp hweight, rfl⟩
      have hone : (1 : ℚ) ≤ changeAddresses.size := by exact_mod_cast hsize
      rw [hsplit, coinsAt_flatMap_split]
      exact sum_near_share htotal hone hnear (proportions changeAddresses).nodup hmem
        (hnonneg _ hmem)
  exact hfollows.of_perm ((perm_sortByCoins splitOutputs).map holding)

theorem splitChange_exact (hweights : ∀ weight ∈ changeAddresses.values, 0 < weight)
    (hsize : 0 < changeAddresses.size) (htotal : 0 ≤ totalChangeLovelace)
    (totalChangeAssets : Option TokenMap) (computeMinimumCoinQuantity : TxOut → ℤ)
    (tokenBundleSizeExceedsLimit : TokenMap → Bool) (fee : ℤ) :
    ∃ sorted, FollowsWeights changeAddresses totalChangeLovelace sorted ∧
      splitChange exactArithmetic changeAddresses totalChangeLovelace totalChangeAssets
        computeMinimumCoinQuantity tokenBundleSizeExceedsLimit fee =
        if assetsSize totalChangeAssets = 0 then .ok (setFirstAssets sorted totalChangeAssets)
        else distributeAssets (setFirstAssets sorted totalChangeAssets)
          computeMinimumCoinQuantity tokenBundleSizeExceedsLimit fee := by
  have hpos := sum_pos_of_weights hweights hsize
  have hfold (weights : List ℚ) : weights.foldl exactArithmetic.add 0 = weights.sum :=
    (List.sum_eq_foldl).symm
  have hreached : ¬ (allocateShares totalChangeLovelace (proportions changeAddresses).entries 0).2 <
      totalChangeLovelace := by
    have h := le_allocateShares htotal (proportions_nonneg hweights) 0
    rw [sum_shares hpos.ne'] at h
    have hcast : (totalChangeLovelace : ℚ) ≤
        ((allocateShares totalChangeLovelace (proportions changeAddresses).entries 0).2 : ℚ) := by
      simpa using h
    exact not_lt.mpr (by exact_mod_cast hcast)
  have hpercent : ¬ |1 - (proportions changeAddresses).values.sum| > (5 : ℚ) / 100 := by
    rw [sum_proportions hpos.ne']
    norm_num
  refine ⟨_, followsWeights_sorted hweights hsize htotal computeMinimumCoinQuantity fee, ?_⟩
  have hshares : changeAddresses.mapValues
      (fun weight => exactArithmetic.div weight changeAddresses.values.sum) =
        proportions changeAddresses := rfl
  unfold splitChange
  simp only [hfold, hshares]
  rw [if_neg (fun h => hpos.ne' h.2), if_neg hpercent, if_neg hreached]
  cases totalChangeAssets with
  | none => rfl
  | some assets => rfl

theorem splitChange_of_empty (hsize : changeAddresses.size = 0) (totalChangeLovelace : ℤ)
    (totalChangeAssets : Option TokenMap) (computeMinimumCoinQuantity : TxOut → ℤ)
    (tokenBundleSizeExceedsLimit : TokenMap → Bool) (fee : ℤ) :
    splitChange exactArithmetic changeAddresses totalChangeLovelace totalChangeAssets
      computeMinimumCoinQuantity tokenBundleSizeExceedsLimit fee =
      failWith .utxoBalanceInsufficient := by
  rw [JsMap.size_eq_zero_iff.mp hsize]
  have htolerance : |1 - ((JsMap.empty : JsMap PaymentAddress ℚ).mapValues
      (fun weight => exactArithmetic.div weight
        ((JsMap.empty : JsMap PaymentAddress ℚ).values.foldl exactArithmetic.add 0))).values.foldl
          exactArithmetic.add 0| > (5 : ℚ) / 100 := by
    have hzero : ∀ f : ℚ → ℚ, ((JsMap.empty : JsMap PaymentAddress ℚ).mapValues f).values.foldl
        exactArithmetic.add 0 = 0 := fun _ => rfl
    rw [hzero]
    norm_num
  unfold splitChange
  dsimp only
  rw [if_neg (fun h => absurd h.1 (lt_irrefl 0)), if_pos htolerance]

/-- The greedy change is distributed by weight: with exact percentages, for
every total and fee, whatever `splitChange` returns follows the weights. It
returns something for every map that is not empty when there are no assets to
place. Splitting the share of one address conserves it. -/
theorem splitChange_follows_weights
    (hweights : ∀ weight ∈ changeAddresses.values, 0 < weight)
    {totalChangeLovelace : ℤ} (htotal : 0 ≤ totalChangeLovelace)
    (totalChangeAssets : Option TokenMap) (computeMinimumCoinQuantity : TxOut → ℤ)
    (tokenBundleSizeExceedsLimit : TokenMap → Bool) (fee : ℤ) :
    (∀ outputs, splitChange exactArithmetic changeAddresses totalChangeLovelace totalChangeAssets
        computeMinimumCoinQuantity tokenBundleSizeExceedsLimit fee = .ok outputs →
      FollowsWeights changeAddresses totalChangeLovelace outputs) ∧
      (0 < changeAddresses.size → assetsSize totalChangeAssets = 0 →
        ∃ outputs, splitChange exactArithmetic changeAddresses totalChangeLovelace
          totalChangeAssets computeMinimumCoinQuantity tokenBundleSizeExceedsLimit fee =
            .ok outputs) ∧
      ∀ output : TxOut, 0 ≤ output.value.coins →
        getCoinQuantity (outputsToValues
            (splitChangeOutput output computeMinimumCoinQuantity fee)) = output.value.coins ∧
          ∀ piece ∈ splitChangeOutput output computeMinimumCoinQuantity fee,
            piece.address = output.address := by
  refine ⟨?_, ?_, ?_⟩
  · intro outputs hok
    rcases Nat.eq_zero_or_pos changeAddresses.size with hempty | hsize
    · rw [splitChange_of_empty hempty] at hok
      cases hok
    · obtain ⟨sorted, hsorted, hsplit⟩ := splitChange_exact hweights hsize htotal
        totalChangeAssets computeMinimumCoinQuantity tokenBundleSizeExceedsLimit fee
      have hfirst := map_holding_setFirstAssets sorted totalChangeAssets
      rw [hsplit] at hok
      split at hok
      · cases hok
        exact hsorted.of_perm (List.Perm.of_eq hfirst)
      · have hperm := distributeAssets_holding hok
        rw [hfirst] at hperm
        exact hsorted.of_perm hperm
  · intro hsize hassets
    obtain ⟨sorted, _, hsplit⟩ := splitChange_exact hweights hsize htotal
      totalChangeAssets computeMinimumCoinQuantity tokenBundleSizeExceedsLimit fee
    rw [if_pos hassets] at hsplit
    exact ⟨_, hsplit⟩
  · intro output hcoins
    have hspec := (splitChangeOutput_spec output computeMinimumCoinQuantity fee).1
    rw [max_eq_left hcoins] at hspec
    exact ⟨hspec, fun _ hpiece => address_of_mem_splitChangeOutput hpiece⟩

end Weights

/-- Three addresses share ten lovelace: 4, 4 and 2. -/
theorem splitChange_follows_weights_three :
    (∀ weight ∈ (JsMap.ofList [("a", (1 : ℚ)), ("b", 1), ("c", 1)]).values, 0 < weight) ∧
      (0 : ℤ) ≤ 10 ∧
      ∃ outputs, splitChange exactArithmetic (JsMap.ofList [("a", 1), ("b", 1), ("c", 1)]) 10 none
          (fun _ => 1) (fun _ => false) 0 = .ok outputs ∧
        FollowsWeights (JsMap.ofList [("a", 1), ("b", 1), ("c", 1)]) 10 outputs := by
  have hweights : ∀ weight ∈ (JsMap.ofList [("a", (1 : ℚ)), ("b", 1), ("c", 1)]).values,
      0 < weight := by decide
  obtain ⟨hfollows, hreturns, _⟩ := splitChange_follows_weights hweights
    (show (0 : ℤ) ≤ 10 by decide) none (fun _ => 1) (fun _ => false) 0
  obtain ⟨outputs, hok⟩ := hreturns (by decide) rfl
  exact ⟨hweights, by decide, outputs, hok, hfollows outputs hok⟩

end CardanoSdk.InputSelection
