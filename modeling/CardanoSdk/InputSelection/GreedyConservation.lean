import CardanoSdk.InputSelection.Greedy
import CardanoSdk.InputSelection.RoundRobinConservation

/-!
The greedy selector conserves value and never hands out a negative amount: shares that
overshoot the surplus are cut back, and negative ones dropped.
-/

namespace CardanoSdk.InputSelection

open Lib

variable {outputs : List TxOut} {computeMinimumCoinQuantity : TxOut → ℤ} {q : ℚ}
  {totalChangeLovelace fee amount : ℤ} {tokenBundleSizeExceedsLimit : TokenMap → Bool}

variable {n remaining minUtxoAdaAmount changeLovelace : ℤ} {fuel index : ℕ}
  {shares : List (PaymentAddress × ℚ)} {result : List TxOut} {assets changeAssets : Option TokenMap}
  {arith : ShareArithmetic}

theorem le_roundUp (h : (n : ℚ) ≤ q) (hn : 0 ≤ n) : n ≤ roundUp q := by
  have hq : ¬ q < 0 := not_lt.mpr (le_trans (by exact_mod_cast hn) h)
  rw [roundUp, if_neg hq]
  exact_mod_cast h.trans (Int.le_ceil q)

theorem roundUp_le (h : q ≤ n) (hq : 0 ≤ q) : roundUp q ≤ n := by
  rw [roundUp, if_neg (not_lt.mpr hq)]
  exact Int.ceil_le.mpr h

theorem roundUp_nonneg (hq : 0 ≤ q) : 0 ≤ roundUp q :=
  le_roundUp (by exact_mod_cast hq) le_rfl

theorem roundUp_pos (hq : 0 < q) : 0 < roundUp q := by
  rw [roundUp, if_neg (not_lt.mpr hq.le)]
  exact Int.ceil_pos.mpr hq

theorem getMinUtxoAmount_pos (amount : ℤ) : 0 < getMinUtxoAmount amount := by
  apply roundUp_pos
  positivity

theorem getMinUtxoAmount_le (h : 0 < amount) : getMinUtxoAmount amount ≤ amount := by
  have htens : (10 : ℤ) ^ decimalTens amount ≤ amount := by
    rw [decimalTens, if_neg (by omega)]
    have hpow := Nat.pow_log_le_self 10 (Int.natAbs_ne_zero.mpr h.ne')
    have hcast : ((10 ^ Nat.log 10 amount.natAbs : ℕ) : ℤ) ≤ (amount.natAbs : ℤ) := by
      exact_mod_cast hpow
    rw [Int.natAbs_of_nonneg h.le] at hcast
    exact_mod_cast hcast
  have hpow : (0 : ℚ) < 10 ^ decimalTens amount := by positivity
  apply roundUp_le
  · have hle : ((10 : ℚ) ^ decimalTens amount) ≤ amount := by exact_mod_cast htens
    linarith
  · positivity

theorem roundUp_half_bounds (h : 0 < remaining) :
    0 < roundUp ((remaining : ℚ) / 2) ∧ roundUp ((remaining : ℚ) / 2) ≤ remaining := by
  have hpos : (0 : ℚ) < remaining := by exact_mod_cast h
  refine ⟨roundUp_pos (by linarith), roundUp_le (by linarith) (by linarith)⟩

theorem splitAmounts_spec (minimumCoinFor : ℤ → ℤ) (fee : ℤ) (hmin : 0 < minUtxoAdaAmount)
    {runningAmount : ℤ} (hsplit : remaining + runningAmount = amount)
    (hremaining : minUtxoAdaAmount ≤ remaining) (hfuel : remaining.toNat < fuel) :
    (splitAmounts amount minUtxoAdaAmount minimumCoinFor fee fuel remaining runningAmount).sum =
        remaining ∧
      ∀ coins ∈ splitAmounts amount minUtxoAdaAmount minimumCoinFor fee fuel remaining
        runningAmount, 0 < coins := by
  induction fuel generalizing remaining runningAmount with
  | zero => omega
  | succ fuel ih =>
    obtain ⟨hval, hle⟩ := roundUp_half_bounds (lt_of_lt_of_le hmin hremaining)
    unfold splitAmounts
    rw [if_pos hremaining]
    dsimp only
    split
    · simp only [List.sum_cons, List.sum_nil, List.mem_singleton, forall_eq]
      omega
    · rename_i hlarge
      rw [not_or] at hlarge
      obtain ⟨hsum, hpos⟩ := @ih (remaining - roundUp ((remaining : ℚ) / 2))
        (runningAmount + roundUp ((remaining : ℚ) / 2)) (by omega) (by omega) (by omega)
      simp only [List.sum_cons, List.mem_cons, forall_eq_or_imp]
      exact ⟨by omega, hval, hpos⟩

theorem splitAmounts_of_nonpos (minimumCoinFor : ℤ → ℤ) (fee : ℤ) (hmin : 0 < minUtxoAdaAmount)
    (hamount : amount ≤ 0) (fuel : ℕ) :
    splitAmounts amount minUtxoAdaAmount minimumCoinFor fee fuel amount 0 = [] := by
  cases fuel with
  | zero => rfl
  | succ fuel =>
    unfold splitAmounts
    rw [if_neg (by omega)]

/-- What an output without assets becomes: positive outputs that hold its coin
if that is positive, and nothing otherwise. -/
theorem splitChangeOutput_spec (output : TxOut) (computeMinimumCoinQuantity : TxOut → ℤ) (fee : ℤ) :
    getCoinQuantity (outputsToValues (splitChangeOutput output computeMinimumCoinQuantity fee)) =
        max output.value.coins 0 ∧
      ∀ out ∈ splitChangeOutput output computeMinimumCoinQuantity fee,
        0 < out.value.coins ∧ out.value.assets = output.value.assets := by
  have hmin := getMinUtxoAmount_pos output.value.coins
  have hcoins (amounts : List ℤ) : getCoinQuantity (outputsToValues (amounts.map (fun coins =>
      ({ address := output.address
         value := { assets := output.value.assets, coins := coins } } : TxOut)))) = amounts.sum := by
    simp [getCoinQuantity, outputsToValues, Function.comp_def]
  unfold splitChangeOutput
  dsimp only
  rcases lt_or_ge 0 output.value.coins with hpos | hnonpos
  · obtain ⟨hsum, hall⟩ := splitAmounts_spec (fun coins => computeMinimumCoinQuantity
      { address := output.address, value := { assets := output.value.assets, coins := coins } }) fee
      hmin (add_zero output.value.coins) (getMinUtxoAmount_le hpos) (Nat.lt_succ_self _)
    refine ⟨?_, ?_⟩
    · rw [hcoins, hsum, max_eq_left hpos.le]
    · intro out hout
      obtain ⟨coins, hmem, rfl⟩ := List.mem_map.mp hout
      exact ⟨hall coins hmem, rfl⟩
  · rw [splitAmounts_of_nonpos _ fee hmin hnonpos]
    simp [getCoinQuantity, outputsToValues, max_eq_right hnonpos]

/-- The allocated coin that is not negative: what the shares bring the running
total to, as far as the surplus reaches. -/
theorem allocateShares_spec (htotal : 0 ≤ totalChangeLovelace)
    (hshares : ∀ share ∈ shares, 0 ≤ share.2) (runningTotal : ℤ) :
    ((allocateShares totalChangeLovelace shares runningTotal).1.map
        (fun out => max out.value.coins 0)).sum =
      min (allocateShares totalChangeLovelace shares runningTotal).2 totalChangeLovelace -
        min runningTotal totalChangeLovelace ∧
      runningTotal ≤ (allocateShares totalChangeLovelace shares runningTotal).2 := by
  induction shares generalizing runningTotal with
  | nil => simp [allocateShares]
  | cons share rest ih =>
    obtain ⟨address, factor⟩ := share
    have hfactor : 0 ≤ factor := hshares (address, factor) (by simp)
    have hallocation : 0 ≤ roundUp (totalChangeLovelace * factor) :=
      roundUp_nonneg (mul_nonneg (by exact_mod_cast htotal) hfactor)
    obtain ⟨hsum, hgrow⟩ := ih (fun share hshare => hshares share (by simp [hshare]))
      (runningTotal + roundUp (totalChangeLovelace * factor))
    unfold allocateShares
    dsimp only
    simp only [List.map_cons, List.sum_cons]
    rw [hsum]
    refine ⟨?_, by omega⟩
    split <;> omega

theorem allocateShares_nonneg (htotal : 0 ≤ totalChangeLovelace)
    (hshares : ∀ share ∈ shares, 0 ≤ share.2) {runningTotal : ℤ}
    (hfinal : (allocateShares totalChangeLovelace shares runningTotal).2 ≤ totalChangeLovelace) :
    ∀ out ∈ (allocateShares totalChangeLovelace shares runningTotal).1, 0 ≤ out.value.coins := by
  induction shares generalizing runningTotal with
  | nil => simp [allocateShares]
  | cons share rest ih =>
    obtain ⟨address, factor⟩ := share
    have hfactor : 0 ≤ factor := hshares (address, factor) (by simp)
    have hrest : ∀ share ∈ rest, 0 ≤ share.2 := fun share hshare => hshares share (by simp [hshare])
    have hallocation : 0 ≤ roundUp (totalChangeLovelace * factor) :=
      roundUp_nonneg (mul_nonneg (by exact_mod_cast htotal) hfactor)
    have hgrow := (allocateShares_spec htotal hrest
      (runningTotal + roundUp (totalChangeLovelace * factor))).2
    unfold allocateShares at hfinal ⊢
    dsimp only at hfinal ⊢
    simp only [List.mem_cons, forall_eq_or_imp]
    refine ⟨?_, ih hrest hfinal⟩
    rw [if_neg (by omega)]
    exact hallocation

theorem allocateShares_assets (totalChangeLovelace : ℤ) (shares : List (PaymentAddress × ℚ))
    (runningTotal : ℤ) :
    ∀ out ∈ (allocateShares totalChangeLovelace shares runningTotal).1, out.value.assets = none := by
  induction shares generalizing runningTotal with
  | nil => simp [allocateShares]
  | cons share rest ih =>
    unfold allocateShares
    dsimp only
    simp only [List.mem_cons, forall_eq_or_imp]
    exact ⟨trivial, ih _⟩

theorem allocateShares_length (totalChangeLovelace : ℤ) (shares : List (PaymentAddress × ℚ))
    (runningTotal : ℤ) :
    (allocateShares totalChangeLovelace shares runningTotal).1.length = shares.length := by
  induction shares generalizing runningTotal with
  | nil => rfl
  | cons share rest ih =>
    unfold allocateShares
    simp [ih]

theorem addMissingAllocation_spec (houtputs : outputs ≠ [])
    (hnonneg : ∀ out ∈ outputs, 0 ≤ out.value.coins) {missingAllocation : ℤ}
    (hmissing : 0 ≤ missingAllocation) :
    ((addMissingAllocation outputs missingAllocation).map (fun out => max out.value.coins 0)).sum =
      (outputs.map (fun out => max out.value.coins 0)).sum + missingAllocation := by
  have hlength : 0 < outputs.length := List.length_pos_of_ne_nil houtputs
  refine sum_map_modify (fun out : TxOut => max out.value.coins 0) _ _ ?_ (by omega)
  intro out hout
  have hcoins := hnonneg out hout
  simp only
  omega

theorem addMissingAllocation_assets (h : ∀ out ∈ outputs, out.value.assets = none)
    (missingAllocation : ℤ) :
    ∀ out ∈ addMissingAllocation outputs missingAllocation, out.value.assets = none := by
  unfold addMissingAllocation
  refine forall_mem_modify ?_ h _
  intro out hout
  exact hout

def outputsTotal (token : TokenKind) (outputs : List TxOut) : ℤ :=
  total token (outputsToValues outputs)

@[simp] theorem outputsTotal_nil (token : TokenKind) : outputsTotal token [] = 0 := rfl

@[simp] theorem outputsTotal_cons (token : TokenKind) (out : TxOut) (outputs : List TxOut) :
    outputsTotal token (out :: outputs) = out.value.amount token + outputsTotal token outputs := rfl

@[simp] theorem outputsTotal_append (token : TokenKind) (xs ys : List TxOut) :
    outputsTotal token (xs ++ ys) = outputsTotal token xs + outputsTotal token ys := by
  simp [outputsTotal, outputsToValues]

theorem outputsTotal_perm {xs ys : List TxOut} (h : xs.Perm ys) (token : TokenKind) :
    outputsTotal token xs = outputsTotal token ys :=
  total_perm (h.map _) token

theorem outputsTotal_set {old : TxOut} (hget : outputs[index]? = some old) (new : TxOut)
    (token : TokenKind) :
    outputsTotal token (outputs.set index new) + old.value.amount token =
      outputsTotal token outputs + new.value.amount token := by
  induction outputs generalizing index with
  | nil => simp at hget
  | cons out rest ih =>
    cases index with
    | zero =>
      simp only [List.getElem?_cons_zero, Option.some.injEq] at hget
      subst hget
      simp only [List.set_cons_zero, outputsTotal_cons]
      omega
    | succ index =>
      have hrest := ih (by simpa using hget)
      simp only [List.set_cons_succ, outputsTotal_cons]
      omega

private theorem amount_withAsset (output : TxOut) (asset : AssetId × ℤ) (token : TokenKind) :
    ({ output.value with
        assets := addTokenMaps output.value.assets (some (JsMap.empty.set asset.1 asset.2)) }
      : Value).amount token =
      output.value.amount token + if token = .asset asset.1 then asset.2 else 0 := by
  cases token with
  | lovelace => simp [Value.amount]
  | asset id =>
    simp only [Value.amount, assetsQuantity_addTokenMaps, TokenKind.asset.injEq]
    simp only [assetsQuantity, JsMap.quantity_set, JsMap.quantity_empty]

theorem eraseIdx_append_perm {α : Type*} {xs : List α} {a : α} (hget : xs[index]? = some a)
    (ys : List α) : (xs.eraseIdx index ++ (ys ++ [a])).Perm (xs ++ ys) := by
  obtain ⟨hindex, hvalue⟩ := List.getElem?_eq_some_iff.mp hget
  have herase := List.getElem_cons_eraseIdx_perm hindex
  rw [hvalue] at herase
  refine List.Perm.trans ?_ (herase.append_right ys)
  rw [← List.append_assoc]
  exact List.perm_append_singleton _ _

theorem distributeRounds_ok {availableOutputs alreadyFullOutputs : List TxOut}
    {assets : List (AssetId × ℤ)} {i : ℕ}
    (hok : distributeRounds computeMinimumCoinQuantity tokenBundleSizeExceedsLimit fee fuel
      availableOutputs alreadyFullOutputs assets i = .ok result) :
    (∀ token, outputsTotal token result =
        outputsTotal token (availableOutputs ++ alreadyFullOutputs) +
          (assets.map (fun asset => if token = .asset asset.1 then asset.2 else 0)).sum) ∧
      ((∀ out ∈ availableOutputs ++ alreadyFullOutputs, out.value.Nonneg) →
        (∀ asset ∈ assets, 0 ≤ asset.2) → ∀ out ∈ result, out.value.Nonneg) := by
  induction fuel generalizing availableOutputs alreadyFullOutputs assets i with
  | zero =>
    cases assets with
    | nil =>
      cases hok
      exact ⟨fun _ => by simp, fun h _ => h⟩
    | cons asset rest => cases hok
  | succ fuel ih =>
    cases assets with
    | nil =>
      cases hok
      exact ⟨fun _ => by simp, fun h _ => h⟩
    | cons asset rest =>
      unfold distributeRounds at hok
      dsimp only at hok
      split at hok
      · cases hok
      · rename_i output hget
        split at hok
        · obtain ⟨htotal, hnonneg⟩ := ih hok
          refine ⟨?_, ?_⟩
          · intro token
            have hset := outputsTotal_set hget
              { output with value := { output.value with
                  assets := addTokenMaps output.value.assets
                    (some (JsMap.empty.set asset.1 asset.2)) } } token
            rw [amount_withAsset] at hset
            dsimp only at hset
            rw [htotal]
            simp only [outputsTotal_append, List.map_cons, List.sum_cons]
            omega
          · intro houts hassets
            simp only [List.mem_cons, forall_eq_or_imp] at hassets
            apply hnonneg _ hassets.2
            intro out hout token
            rcases List.mem_append.mp hout with havailable | hfull
            · rcases List.mem_or_eq_of_mem_set havailable with hold | rfl
              · exact houts out (List.mem_append.mpr (Or.inl hold)) token
              · have hold := houts output
                  (List.mem_append.mpr (Or.inl (List.mem_of_getElem? hget))) token
                rw [amount_withAsset]
                split <;> omega
            · exact houts out (List.mem_append.mpr (Or.inr hfull)) token
        · split at hok
          · cases hok
          · -- the output is full and leaves the rotation
            obtain ⟨htotal, hnonneg⟩ := ih hok
            have hperm := eraseIdx_append_perm hget alreadyFullOutputs
            refine ⟨?_, ?_⟩
            · intro token
              rw [htotal, outputsTotal_perm hperm]
            · intro houts
              exact hnonneg (fun out hout => houts out (hperm.mem_iff.mp hout))

theorem sum_entries_eq_lookup (entries : List (AssetId × ℤ)) (hkeys : (entries.map Prod.fst).Nodup)
    (id : AssetId) :
    (entries.map (fun asset => if TokenKind.asset id = .asset asset.1 then asset.2 else 0)).sum =
      (JsMap.lookup id entries).getD 0 := by
  induction entries with
  | nil => rfl
  | cons entry rest ih =>
    obtain ⟨key, quantity⟩ := entry
    simp only [List.map_cons, List.nodup_cons] at hkeys
    rw [List.map_cons, List.sum_cons, ih hkeys.2]
    simp only [TokenKind.asset.injEq, JsMap.lookup]
    split
    · rename_i heq
      subst heq
      rw [JsMap.lookup_eq_none.mpr hkeys.1]
      simp
    · simp

theorem distributeAssets_ok
    (hok : distributeAssets outputs computeMinimumCoinQuantity tokenBundleSizeExceedsLimit fee =
      .ok result) :
    (∀ token, outputsTotal token result = outputsTotal token outputs) ∧
      ((∀ out ∈ outputs, out.value.Nonneg) → ∀ out ∈ result, out.value.Nonneg) := by
  unfold distributeAssets at hok
  split at hok
  · cases hok
    exact ⟨fun _ => rfl, fun h => h⟩
  · split at hok
    · cases hok
      exact ⟨fun _ => rfl, fun h => h⟩
    · rename_i totalAssets htotalAssets
      dsimp only at hok
      obtain ⟨htotal, hnonneg⟩ := distributeRounds_ok hok
      have hclearedLovelace : outputsTotal .lovelace (outputs.map (fun out =>
          ({ out with value := { coins := out.value.coins } } : TxOut))) =
            outputsTotal .lovelace outputs := by
        simp [outputsTotal, total, outputsToValues, Value.amount, Function.comp_def]
      have hclearedAsset (id : AssetId) : outputsTotal (.asset id) (outputs.map (fun out =>
          ({ out with value := { coins := out.value.coins } } : TxOut))) = 0 := by
        simp [outputsTotal, total, outputsToValues, Value.amount, Function.comp_def, assetsQuantity]
      have hquantity (id : AssetId) : totalAssets.quantity id = outputsTotal (.asset id) outputs := by
        have hamount := amount_coalesceValueQuantities (outputsToValues outputs) (.asset id)
        simpa [Value.amount, htotalAssets, assetsQuantity, outputsTotal] using hamount
      refine ⟨?_, ?_⟩
      · intro token
        rw [htotal]
        cases token with
        | lovelace => simp [hclearedLovelace]
        | asset id =>
          rw [sum_entries_eq_lookup _ totalAssets.nodup, List.append_nil, hclearedAsset,
            ← hquantity]
          simp [JsMap.quantity, JsMap.get?]
      · intro houts
        apply hnonneg
        · intro out hout token
          rw [List.append_nil] at hout
          obtain ⟨original, horiginal, rfl⟩ := List.mem_map.mp hout
          cases token with
          | lovelace => exact houts original horiginal .lovelace
          | asset id => simp [Value.amount, assetsQuantity]
        · intro asset hasset
          have hget : totalAssets.get? asset.1 = some asset.2 := JsMap.get?_eq_some_iff.mpr hasset
          have hamount := hquantity asset.1
          rw [JsMap.quantity, hget, Option.getD_some] at hamount
          rw [hamount]
          apply total_nonneg
          intro value hvalue
          obtain ⟨out, hout, rfl⟩ := List.mem_map.mp hvalue
          exact houts out hout

theorem perm_sortByCoins (outputs : List TxOut) : (sortByCoins outputs).Perm outputs :=
  List.perm_insertionSort _ _

theorem outputsTotal_lovelace_flatMap_split (outputs : List TxOut)
    (computeMinimumCoinQuantity : TxOut → ℤ) (fee : ℤ) :
    outputsTotal .lovelace (outputs.flatMap
      (fun output => splitChangeOutput output computeMinimumCoinQuantity fee)) =
      (outputs.map (fun out => max out.value.coins 0)).sum := by
  induction outputs with
  | nil => rfl
  | cons out rest ih =>
    have hsplit := (splitChangeOutput_spec out computeMinimumCoinQuantity fee).1
    rw [List.flatMap_cons, outputsTotal_append, ih, List.map_cons, List.sum_cons, ← hsplit]
    rfl

structure SplitSurplus (totalChangeLovelace : ℤ) (outputs : List TxOut) : Prop where
  coins : outputsTotal .lovelace outputs = totalChangeLovelace
  positive : ∀ out ∈ outputs, 0 < out.value.coins
  assets : ∀ out ∈ outputs, out.value.assets = none

theorem splitSurplus_of_sum {changeOutputs : List TxOut}
    (hsum : (changeOutputs.map (fun out => max out.value.coins 0)).sum = totalChangeLovelace)
    (hnone : ∀ out ∈ changeOutputs, out.value.assets = none)
    (computeMinimumCoinQuantity : TxOut → ℤ) (fee : ℤ) :
    SplitSurplus totalChangeLovelace ((sortByCoins (changeOutputs.flatMap
      (fun output => splitChangeOutput output computeMinimumCoinQuantity fee))).filter
        (fun out => out.value.coins > 0)) := by
  set splitOutputs := changeOutputs.flatMap
    (fun output => splitChangeOutput output computeMinimumCoinQuantity fee) with hsplitOutputs
  have hperm := perm_sortByCoins splitOutputs
  have hmembers : ∀ out ∈ sortByCoins splitOutputs,
      0 < out.value.coins ∧ out.value.assets = none := by
    intro out hout
    obtain ⟨original, horiginal, hpiece⟩ := List.mem_flatMap.mp (hperm.mem_iff.mp hout)
    obtain ⟨hcoins, hsame⟩ :=
      (splitChangeOutput_spec original computeMinimumCoinQuantity fee).2 out hpiece
    exact ⟨hcoins, hsame.trans (hnone original horiginal)⟩
  rw [List.filter_eq_self.mpr (fun out hout => decide_eq_true (hmembers out hout).1)]
  refine ⟨?_, fun out hout => (hmembers out hout).1, fun out hout => (hmembers out hout).2⟩
  rw [outputsTotal_perm hperm, hsplitOutputs, outputsTotal_lovelace_flatMap_split, hsum]

theorem setFirstAssets_spec (h : SplitSurplus totalChangeLovelace outputs)
    (hpos : 0 < totalChangeLovelace) (hassets : ∀ id, 0 ≤ assetsQuantity assets id) :
    (outputsTotal .lovelace (setFirstAssets outputs assets) = totalChangeLovelace ∧
      ∀ id, outputsTotal (.asset id) (setFirstAssets outputs assets) = assetsQuantity assets id) ∧
      ∀ out ∈ setFirstAssets outputs assets, out.value.Nonneg := by
  cases outputs with
  | nil =>
    have hcoins := h.coins
    simp only [outputsTotal_nil] at hcoins
    omega
  | cons first rest =>
    have hrestAsset (id : AssetId) : outputsTotal (.asset id) rest = 0 := by
      apply List.sum_eq_zero
      intro amount hamount
      obtain ⟨value, hvalue, rfl⟩ := List.mem_map.mp hamount
      obtain ⟨out, hout, rfl⟩ := List.mem_map.mp hvalue
      simp [Value.amount, h.assets out (by simp [hout]), assetsQuantity]
    have hcoins := h.coins
    simp only [setFirstAssets, List.modify_zero_cons, outputsTotal_cons, List.mem_cons,
      forall_eq_or_imp] at hcoins ⊢
    refine ⟨⟨hcoins, ?_⟩, ?_, ?_⟩
    · intro id
      rw [hrestAsset, add_zero]
      rfl
    · intro token
      cases token with
      | lovelace => exact (h.positive first (by simp)).le
      | asset id => exact hassets id
    · intro out hout token
      cases token with
      | lovelace => exact (h.positive out (by simp [hout])).le
      | asset id => simp [Value.amount, h.assets out (by simp [hout]), assetsQuantity]

structure ShareArithmetic.Nonneg (arith : ShareArithmetic) : Prop where
  div : ∀ a b, 0 ≤ a → 0 ≤ b → 0 ≤ arith.div a b
  add : ∀ a b, 0 ≤ a → 0 ≤ b → 0 ≤ arith.add a b

theorem foldl_add_nonneg (harith : arith.Nonneg) {weights : List ℚ}
    (hweights : ∀ weight ∈ weights, 0 ≤ weight) {start : ℚ} (hstart : 0 ≤ start) :
    0 ≤ weights.foldl arith.add start := by
  induction weights generalizing start with
  | nil => exact hstart
  | cons weight rest ih =>
    simp only [List.mem_cons, forall_eq_or_imp] at hweights
    exact ih hweights.2 (harith.add start weight hstart hweights.1)

structure SurplusOutputs (changeLovelace : ℤ) (changeAssets : Option TokenMap)
    (outputs : List TxOut) : Prop where
  coins : outputsTotal .lovelace outputs = changeLovelace
  assets : ∀ id, outputsTotal (.asset id) outputs = assetsQuantity changeAssets id
  nonneg : ∀ out ∈ outputs, out.value.Nonneg

theorem splitChange_ok {changeAddresses : JsMap PaymentAddress ℚ} (harith : arith.Nonneg)
    (hweights : ∀ weight ∈ changeAddresses.values, 0 ≤ weight) (hlovelace : 0 ≤ changeLovelace)
    (hok : splitChange arith changeAddresses changeLovelace changeAssets
      computeMinimumCoinQuantity tokenBundleSizeExceedsLimit fee = .ok outputs) :
    ∃ sorted, SplitSurplus changeLovelace sorted ∧
      (outputs = setFirstAssets sorted changeAssets ∨
        distributeAssets (setFirstAssets sorted changeAssets) computeMinimumCoinQuantity
          tokenBundleSizeExceedsLimit fee = .ok outputs) := by
  unfold splitChange at hok
  dsimp only at hok
  split at hok
  · cases hok
  · split at hok
    · cases hok
    · rename_i htolerance
      set totalWeight := changeAddresses.values.foldl arith.add 0 with htotalWeight
      set shares := (changeAddresses.mapValues (fun weight => arith.div weight totalWeight)).entries
        with hshares
      have hsharesNonneg : ∀ share ∈ shares, 0 ≤ share.2 := by
        intro share hshare
        obtain ⟨entry, hentry, rfl⟩ := List.mem_map.mp hshare
        refine harith.div _ _ (hweights _ (List.mem_map.mpr ⟨entry, hentry, rfl⟩)) ?_
        exact foldl_add_nonneg harith hweights le_rfl
      -- without an address the percentages add up to nothing
      have hsharesNonempty : shares ≠ [] := by
        intro hnil
        have hvalues : (changeAddresses.mapValues
            (fun weight => arith.div weight totalWeight)).values = [] := by
          simp only [JsMap.values]
          rw [← hshares, hnil]
          rfl
        apply htolerance
        rw [hvalues]
        norm_num
      obtain ⟨hallocated, hgrow⟩ := allocateShares_spec hlovelace hsharesNonneg 0
      set allocated := allocateShares changeLovelace shares 0 with hallocatedDef
      have hnone : ∀ out ∈ allocated.1, out.value.assets = none :=
        allocateShares_assets changeLovelace shares 0
      have hsplit : SplitSurplus changeLovelace
          ((sortByCoins ((if allocated.2 < changeLovelace
              then addMissingAllocation allocated.1 (changeLovelace - allocated.2)
              else allocated.1).flatMap
            (fun output => splitChangeOutput output computeMinimumCoinQuantity fee))).filter
              (fun out => out.value.coins > 0)) := by
        split
        · rename_i hmissing
          have hne : allocated.1 ≠ [] := by
            rw [← List.length_pos_iff_ne_nil, hallocatedDef, allocateShares_length]
            exact List.length_pos_of_ne_nil hsharesNonempty
          refine splitSurplus_of_sum ?_ (addMissingAllocation_assets hnone _) _ fee
          rw [addMissingAllocation_spec hne
            (allocateShares_nonneg hlovelace hsharesNonneg hmissing.le) (by omega), hallocated]
          omega
        · refine splitSurplus_of_sum ?_ hnone _ fee
          rw [hallocated]
          omega
      refine ⟨_, hsplit, ?_⟩
      split at hok
      · cases hok
        exact Or.inl rfl
      · split at hok
        · cases hok
          exact Or.inl rfl
        · exact Or.inr hok

theorem surplusOutputs_of_split {sorted : List TxOut}
    (hsplit : SplitSurplus changeLovelace sorted) (hpos : 0 < changeLovelace)
    (hassets : ∀ id, 0 ≤ assetsQuantity changeAssets id)
    (houtputs : outputs = setFirstAssets sorted changeAssets ∨
      distributeAssets (setFirstAssets sorted changeAssets) computeMinimumCoinQuantity
        tokenBundleSizeExceedsLimit fee = .ok outputs) :
    SurplusOutputs changeLovelace changeAssets outputs := by
  obtain ⟨⟨hcoins, hassetTotals⟩, hnonneg⟩ := setFirstAssets_spec hsplit hpos hassets
  rcases houtputs with rfl | hdistributed
  · exact ⟨hcoins, hassetTotals, hnonneg⟩
  · obtain ⟨htotal, hkeeps⟩ := distributeAssets_ok hdistributed
    refine ⟨?_, ?_, hkeeps hnonneg⟩
    · rw [htotal, hcoins]
    · intro id
      rw [htotal, hassetTotals]

theorem eq_nil_of_splitSurplus_zero (h : SplitSurplus 0 outputs) : outputs = [] := by
  cases outputs with
  | nil => rfl
  | cons first rest =>
    have hfirst := h.positive first (by simp)
    have hrest : 0 ≤ outputsTotal .lovelace rest := by
      apply List.sum_nonneg
      intro amount hamount
      obtain ⟨value, hvalue, rfl⟩ := List.mem_map.mp hamount
      obtain ⟨out, hout, rfl⟩ := List.mem_map.mp hvalue
      exact (h.positive out (by simp [hout])).le
    have hcoins := h.coins
    simp only [outputsTotal_cons, Value.amount] at hcoins
    omega

theorem discountFee_spec (computeMinimumCoinQuantity : TxOut → ℤ) (fee : ℤ) (outputs : List TxOut) :
    ((discountFee computeMinimumCoinQuantity fee outputs).2 = true →
      outputsTotal .lovelace (discountFee computeMinimumCoinQuantity fee outputs).1 + fee =
        outputsTotal .lovelace outputs) ∧
      (∀ id, outputsTotal (.asset id) (discountFee computeMinimumCoinQuantity fee outputs).1 =
        outputsTotal (.asset id) outputs) ∧
      ((∀ out ∈ outputs, out.value.Nonneg) →
        ∀ out ∈ (discountFee computeMinimumCoinQuantity fee outputs).1, ∀ id,
          0 ≤ out.value.amount (.asset id)) := by
  induction outputs with
  | nil => simp [discountFee]
  | cons out rest ih =>
    obtain ⟨hcoins, hassets, hnonneg⟩ := ih
    unfold discountFee
    split
    · refine ⟨?_, ?_, ?_⟩
      · intro _
        simp only [outputsTotal_cons, Value.amount]
        omega
      · intro id
        rfl
      · intro houts other hother id
        rcases List.mem_cons.mp hother with rfl | hmem
        · exact houts out (by simp) (.asset id)
        · exact houts other (by simp [hmem]) (.asset id)
    · refine ⟨?_, ?_, ?_⟩
      · intro haccounted
        have hrest := hcoins haccounted
        simp only [outputsTotal_cons]
        omega
      · intro id
        simp only [outputsTotal_cons, hassets]
      · intro houts other hother id
        rcases List.mem_cons.mp hother with rfl | hmem
        · exact houts other (by simp) (.asset id)
        · exact hnonneg (fun o ho => houts o (by simp [ho])) other hmem id

/-- What the selector returns as change: the surplus less the fee, all assets
and nothing negative. -/
structure AdjustedChange (changeLovelace : ℤ) (changeAssets : Option TokenMap)
    (adjusted : AdjustedOutputs) : Prop where
  coins : outputsTotal .lovelace adjusted.change + adjusted.fee = changeLovelace
  assets : ∀ id, outputsTotal (.asset id) adjusted.change = assetsQuantity changeAssets id
  nonneg : ∀ out ∈ adjusted.change, out.value.Nonneg

theorem checkAdjusted_ok {adjusted result : AdjustedOutputs}
    (h : checkAdjusted computeMinimumCoinQuantity adjusted = .ok result) :
    result = adjusted ∧ adjusted.feeAccountedFor = true ∧
      ∀ out ∈ adjusted.change, computeMinimumCoinQuantity out ≤ out.value.coins := by
  unfold checkAdjusted at h
  split at h
  · cases h
  · rename_i hmin
    split at h
    · cases h
    · rename_i haccounted
      cases h
      refine ⟨rfl, by simpa using haccounted, ?_⟩
      intro out hout
      simp only [List.any_eq_true, decide_eq_true_eq, not_exists, not_and, not_lt] at hmin
      exact hmin out hout

section Fee

variable {arith : ShareArithmetic} {changeAddresses : JsMap PaymentAddress ℚ}
  {constraints : SelectionConstraints} {inputs : JsSet Utxo} {outputs : List TxOut}
  {changeLovelace : ℤ} {changeAssets : Option TokenMap}

variable {result : AdjustedOutputs}

variable {currentFee : ℤ} {adjusted : AdjustedOutputs}

theorem adjustOutputsForFee_ok (hmin : ∀ out, 0 ≤ constraints.computeMinimumCoinQuantity out)
    {changeOutputs : List TxOut}
    (hsurplus : SurplusOutputs changeLovelace changeAssets changeOutputs)
    (hadjusted : adjustOutputsForFee changeLovelace constraints inputs outputs changeOutputs
      currentFee = .ok adjusted) (hfee : adjusted.fee < changeLovelace)
    (hcheck : checkAdjusted constraints.computeMinimumCoinQuantity adjusted = .ok result) :
    AdjustedChange changeLovelace changeAssets result := by
  obtain ⟨rfl, haccounted, hmins⟩ := checkAdjusted_ok hcheck
  unfold adjustOutputsForFee at hadjusted
  obtain ⟨costs, hcosts, hadjusted⟩ := bind_ok hadjusted
  split at hadjusted
  · cases hadjusted
    simp only at hfee
    omega
  · split at hadjusted
    · cases hadjusted
    · cases hadjusted
      simp only at haccounted hmins
      obtain ⟨hcoins, hassets, hnonneg⟩ := discountFee_spec
        constraints.computeMinimumCoinQuantity costs.fee (sortByCoins changeOutputs)
      have hperm := perm_sortByCoins changeOutputs
      refine ⟨?_, ?_, ?_⟩
      · simp only
        rw [hcoins haccounted, outputsTotal_perm hperm, hsurplus.coins]
      · intro id
        simp only
        rw [hassets, outputsTotal_perm hperm, hsurplus.assets]
      · intro out hout token
        cases token with
        | lovelace => exact (hmin out).trans (hmins out hout)
        | asset id =>
          exact hnonneg (fun o ho => hsurplus.nonneg o (hperm.mem_iff.mp ho)) out hout id

theorem adjustOutputsForFee_nil
    (hadjusted : adjustOutputsForFee changeLovelace constraints inputs outputs [] currentFee =
      .ok adjusted) (hfee : adjusted.fee < changeLovelace) :
    checkAdjusted constraints.computeMinimumCoinQuantity adjusted ≠ .ok result := by
  intro hcheck
  obtain ⟨_, haccounted, _⟩ := checkAdjusted_ok hcheck
  unfold adjustOutputsForFee at hadjusted
  obtain ⟨costs, hcosts, hadjusted⟩ := bind_ok hadjusted
  split at hadjusted
  · cases hadjusted
    simp only at hfee
    omega
  · split at hadjusted
    · cases hadjusted
    · cases hadjusted
      cases haccounted

theorem splitChangeAndComputeFee_ok (harith : arith.Nonneg)
    (hweights : ∀ weight ∈ changeAddresses.values, 0 ≤ weight)
    (hmin : ∀ out, 0 ≤ constraints.computeMinimumCoinQuantity out)
    (hlovelace : 0 ≤ changeLovelace) (hassets : ∀ id, 0 ≤ assetsQuantity changeAssets id)
    {fuel : ℕ}
    (hok : splitChangeAndComputeFee arith inputs outputs changeLovelace changeAssets constraints
      changeAddresses fuel fee = .ok result) (haffordable : result.fee ≤ changeLovelace) :
    AdjustedChange changeLovelace changeAssets result := by
  induction fuel generalizing fee result with
  | zero => cases hok
  | succ fuel ih =>
    unfold splitChangeAndComputeFee at hok
    obtain ⟨changeOutputs, hsplitOk, hok⟩ := bind_ok hok
    obtain ⟨adjusted, hadjusted, hok⟩ := bind_ok hok
    obtain ⟨sorted, hsplit, houtputs⟩ := splitChange_ok harith hweights hlovelace hsplitOk
    split at hok
    · -- the fee is the whole surplus: the assets alone are the change
      dsimp only at hok
      split at hok
      · cases hok
      · cases hok
        simp only at haffordable
        refine ⟨?_, ?_, ?_⟩
        · simp only [outputsTotal_cons, outputsTotal_nil, Value.amount]
          omega
        · intro id
          simp [Value.amount]
        · intro out hout token
          rw [List.mem_singleton.mp hout]
          cases token with
          | lovelace => simp [Value.amount]
          | asset id => simpa [Value.amount] using hassets id
    · rename_i hfee
      split at hok
      · obtain ⟨recomputed, hrecomputed, hok⟩ := bind_ok hok
        split at hok
        · cases hok
        · obtain ⟨rfl, _, _⟩ := checkAdjusted_ok hok
          exact ih hrecomputed haffordable
      · rcases lt_or_eq_of_le hlovelace with hpos | hzero
        · exact adjustOutputsForFee_ok hmin (surplusOutputs_of_split hsplit hpos hassets houtputs)
            hadjusted (not_le.mp hfee) hok
        · -- nothing to take a fee from
          rw [← hzero] at hsplit
          have hnil : changeOutputs = [] := by
            rw [eq_nil_of_splitSurplus_zero hsplit] at houtputs
            rcases houtputs with rfl | hdistributed
            · rfl
            · cases hdistributed
              rfl
          rw [hnil] at hadjusted
          exact absurd hok (adjustOutputsForFee_nil hadjusted (not_le.mp hfee))

end Fee

theorem hasNegativeAssetValue_eq_false (h : hasNegativeAssetValue assets = false) (id : AssetId) :
    0 ≤ assetsQuantity assets id := by
  cases assets with
  | none => exact le_rfl
  | some m =>
    have hall : m.All (fun q => 0 ≤ q) := by
      intro entry hentry
      have hvalue : entry.2 ∈ m.values := List.mem_map.mpr ⟨entry, hentry, rfl⟩
      have hnot := List.any_eq_false.mp h entry.2 hvalue
      simpa using hnot
    exact hall.quantity le_rfl id

theorem outputsTotal_filter_nonEmpty (h : ∀ out ∈ outputs, out.value.Nonneg) (token : TokenKind) :
    outputsTotal token (outputs.filter
      (fun out => out.value.coins > 0 || assetsSize out.value.assets > 0)) =
      outputsTotal token outputs := by
  induction outputs with
  | nil => rfl
  | cons out rest ih =>
    have hrest := ih (fun o ho => h o (by simp [ho]))
    rw [List.filter_cons]
    split
    · rw [outputsTotal_cons, outputsTotal_cons, hrest]
    · rename_i hempty
      have hzero := amount_eq_zero_of_isEmptyBundle (h out (by simp))
        (by simpa [Value.isEmptyBundle] using hempty) token
      rw [hrest, outputsTotal_cons, hzero, zero_add]

theorem surplus_eq (inputs : List Utxo) (outputs : List TxOut) (implicitValue : ImplicitValue)
    (id : AssetId) :
    assetsQuantity (subtractTokenMaps
      (addTokenMaps (coalesceValueQuantities (toValues inputs)).assets
        (some implicitValue.mintMap))
      (coalesceValueQuantities (outputsToValues outputs)).assets) id =
      total (.asset id) (toValues inputs) + implicitValue.minted id - implicitValue.burned id -
        total (.asset id) (outputsToValues outputs) := by
  have hinputs := amount_coalesceValueQuantities (toValues inputs) (.asset id)
  have houtputs := amount_coalesceValueQuantities (outputsToValues outputs) (.asset id)
  simp only [Value.amount] at hinputs houtputs
  rw [assetsQuantity_subtractTokenMaps, assetsQuantity_addTokenMaps, hinputs, houtputs]
  simp only [assetsQuantity, ImplicitValue.minted, ImplicitValue.burned]
  omega

/-- The greedy selector conserves value and hands out nothing negative, for
every map of non-negative weights and every sign-preserving share arithmetic,
when no minimum coin quantity is negative. -/
theorem greedySelect_conserves {arith : ShareArithmetic}
    {changeAddresses : JsMap PaymentAddress ℚ} {params : InputSelectionParameters}
    {result : SelectionResult} (harith : arith.Nonneg)
    (hweights : ∀ weight ∈ changeAddresses.values, 0 ≤ weight)
    (hmin : ∀ out, 0 ≤ params.constraints.computeMinimumCoinQuantity out)
    (h : greedySelect arith changeAddresses params = .ok result) :
    ConservesValue params.implicitValue result.selection ∧
      ∀ out ∈ result.selection.change, out.value.Nonneg := by
  unfold greedySelect at h
  dsimp only at h
  split at h
  · cases h
  · rename_i hsufficient
    simp only [not_or, Bool.not_eq_true] at hsufficient
    obtain ⟨_, hlovelace, hnegative⟩ := hsufficient
    obtain ⟨adjusted, hadjusted, h⟩ := bind_ok h
    split at h
    · cases h
    · rename_i haffordable
      obtain ⟨limit, _, h⟩ := bind_ok h
      split at h
      · cases h
      · cases h
        have hchange := splitChangeAndComputeFee_ok harith hweights hmin (by omega)
          (hasNegativeAssetValue_eq_false hnegative) hadjusted (by omega)
        have htotal := outputsTotal_filter_nonEmpty hchange.nonneg
        refine ⟨conservesValue_iff_total.mpr (fun token => ?_), ?_⟩
        · have hsorted := perm_sortedInputSet
            (JsSet.ofList (params.utxo.toList ++ params.preSelectedUtxo.toList))
          have htoken := htotal token
          rw [outputsTotal] at htoken
          dsimp only
          rw [selectedAmount_perm hsorted, htoken]
          cases token with
          | lovelace =>
            have hcoins := hchange.coins
            simp only [selectedAmount, requestedAmount, feeAmount, total_lovelace,
              RequiredImplicitValue.inputAmount, RequiredImplicitValue.spentAmount,
              ImplicitValue.required]
            omega
          | asset id =>
            have hassets := hchange.assets id
            rw [surplus_eq] at hassets
            simp only [selectedAmount, requestedAmount, feeAmount, required_input_asset,
              required_spent_asset]
            omega
        · intro out hout
          exact hchange.nonneg out (List.mem_filter.mp hout).1

def exactArithmetic : ShareArithmetic where
  div := fun a b => a / b
  add := fun a b => a + b

theorem exactArithmetic_nonneg : exactArithmetic.Nonneg where
  div := fun _ _ ha hb => div_nonneg ha hb
  add := fun _ _ ha hb => add_nonneg ha hb

theorem greedySelect_conserves_minting : ∃ result,
    greedySelect exactArithmetic (JsMap.ofList [("a", 1), ("b", 2)]) mintingRequest = .ok result ∧
      ConservesValue mintingRequest.implicitValue result.selection ∧
      ∀ out ∈ result.selection.change, out.value.Nonneg := by
  have hcheck : okAnd (fun result => getCoinQuantity (outputsToValues result.selection.change) = 41)
      (greedySelect exactArithmetic (JsMap.ofList [("a", 1), ("b", 2)]) mintingRequest) = true := by
    decide +kernel
  obtain ⟨result, hok, _⟩ := okAnd_iff.mp hcheck
  exact ⟨result, hok, greedySelect_conserves exactArithmetic_nonneg (by decide)
    (fun _ => le_rfl) hok⟩

def negativeMinimumRequest : InputSelectionParameters where
  preSelectedUtxo := JsSet.ofList []
  utxo := JsSet.ofList [utxoOf 0 { coins := 20 }]
  outputs := []
  constraints := { flatConstraints 15 with computeMinimumCoinQuantity := fun _ => -100 }

/-- The minimum coin must not be negative: the surplus is split into 10, 5, 3
and 2, the fee turns the first of them negative, and it is dropped. -/
theorem greedySelect_drops_negative_change :
    ((negativeMinimumRequest.preSelectedUtxo.toList ++
        negativeMinimumRequest.utxo.toList).map Utxo.id).Nodup ∧
      PositiveAssets negativeMinimumRequest.outputs ∧ exactArithmetic.Nonneg ∧
      (∀ weight ∈ (JsMap.ofList [("a", (1 : ℚ))]).values, 0 ≤ weight) ∧
      ∃ result, greedySelect exactArithmetic (JsMap.ofList [("a", 1)]) negativeMinimumRequest =
          .ok result ∧
        ¬ ConservesValue negativeMinimumRequest.implicitValue result.selection := by
  have hviolates : violatesConservation negativeMinimumRequest.implicitValue .lovelace
      (greedySelect exactArithmetic (JsMap.ofList [("a", 1)]) negativeMinimumRequest) = true := by
    decide +kernel
  exact ⟨by decide, by decide, exactArithmetic_nonneg, by decide,
    not_conserves_of_violates hviolates⟩

end CardanoSdk.InputSelection
