import CardanoSdk.InputSelection.RoundRobin
import CardanoSdk.InputSelection.ChangeConservation

/-!
What it means for a selection to conserve value, and facts about the arguments of both
change-computing selectors.
-/

namespace CardanoSdk.InputSelection

open Lib

def ImplicitValue.minted (implicitValue : ImplicitValue) (id : AssetId) : ℤ :=
  max (implicitValue.mintMap.quantity id) 0

def ImplicitValue.burned (implicitValue : ImplicitValue) (id : AssetId) : ℤ :=
  max (-implicitValue.mintMap.quantity id) 0

theorem required_input_asset (implicitValue : ImplicitValue) (id : AssetId) :
    implicitValue.required.inputAmount (.asset id) = implicitValue.minted id := by
  have hfilter : implicitValue.required.inputAmount (.asset id) =
      (implicitValue.mintMap.filter (fun _ quantity => quantity > 0)).quantity id := rfl
  rw [hfilter, JsMap.quantity_filter, ImplicitValue.minted]
  simp only [decide_eq_true_eq]
  split <;> omega

theorem required_spent_asset (implicitValue : ImplicitValue) (id : AssetId) :
    implicitValue.required.spentAmount (.asset id) = implicitValue.burned id := by
  have hfilter : implicitValue.required.spentAmount (.asset id) =
      ((implicitValue.mintMap.filter (fun _ quantity => quantity < 0)).mapValues
        (fun quantity => -quantity)).quantity id := rfl
  rw [hfilter, JsMap.quantity_mapValues_neg, JsMap.quantity_filter, ImplicitValue.burned]
  simp only [decide_eq_true_eq]
  split <;> omega

/-- The inputs and the implicit input pay for exactly the outputs, the deposit,
the fee and the change; and for every asset, what comes in or is minted goes
out, is burned or is change. -/
structure ConservesValue (implicitValue : ImplicitValue) (selection : SelectionSkeleton) :
    Prop where
  coins : getCoinQuantity (toValues selection.inputs.toList) + implicitValue.requiredCoin.input =
    getCoinQuantity (outputsToValues selection.outputs) + implicitValue.requiredCoin.deposit +
      selection.fee + getCoinQuantity (outputsToValues selection.change)
  assets : ∀ id, assetQuantitySelector id (toValues selection.inputs.toList) +
      implicitValue.minted id =
    assetQuantitySelector id (outputsToValues selection.outputs) + implicitValue.burned id +
      assetQuantitySelector id (outputsToValues selection.change)

variable {implicitValue : ImplicitValue} {outputs : List TxOut} {available : List Utxo}
  {utxo : Utxo}

theorem conservesValue_iff_total {selection : SelectionSkeleton} :
    ConservesValue implicitValue selection ↔
      ∀ token, selectedAmount selection.inputs.toList implicitValue.required token =
        requestedAmount (outputsToValues selection.outputs) implicitValue.required selection.fee
          token + total token (outputsToValues selection.change) := by
  constructor
  · intro h token
    cases token with
    | lovelace =>
      have hcoins := h.coins
      simp only [selectedAmount, requestedAmount, feeAmount, RequiredImplicitValue.inputAmount,
        RequiredImplicitValue.spentAmount, total_lovelace, ImplicitValue.required]
      omega
    | asset id =>
      have hid := h.assets id
      simp only [selectedAmount, requestedAmount, feeAmount, required_input_asset,
        required_spent_asset, total_asset]
      omega
  · intro h
    refine ⟨?_, ?_⟩
    · have hlovelace := h .lovelace
      simp only [selectedAmount, requestedAmount, feeAmount, RequiredImplicitValue.inputAmount,
        RequiredImplicitValue.spentAmount, total_lovelace, ImplicitValue.required] at hlovelace
      omega
    · intro id
      have hid := h (.asset id)
      simp only [selectedAmount, requestedAmount, feeAmount, required_input_asset,
        required_spent_asset, total_asset] at hid
      omega

/-- A change-address resolver that gives out the change it was given, at
addresses of its choice. -/
def RewritesAddresses (changeAddressResolver : ChangeAddressResolver) : Prop :=
  ∀ selection change, changeAddressResolver selection = .ok change →
    (outputsToValues change).Perm (outputsToValues selection.change)

def PositiveAssets (outputs : List TxOut) : Prop :=
  ∀ output ∈ outputs, ∀ assets ∈ output.value.assets, assets.All (fun q => 0 < q)

instance (outputs : List TxOut) : Decidable (PositiveAssets outputs) :=
  inferInstanceAs (Decidable (∀ output ∈ outputs, ∀ assets ∈ output.value.assets, _))

theorem outputs_nonneg (hassets : PositiveAssets outputs)
    (hcoins : ∀ output ∈ outputs, 0 ≤ output.value.coins) :
    ∀ value ∈ outputsToValues outputs, value.Nonneg := by
  intro value hvalue
  obtain ⟨output, houtput, rfl⟩ := List.mem_map.mp hvalue
  rw [Value.nonneg_iff]
  refine ⟨hcoins output houtput, ?_⟩
  intro assets hmem entry hentry
  exact le_of_lt (hassets output houtput assets hmem entry hentry)

theorem total_asset_eq_zero_of_not_mem {id : AssetId}
    (h : id ∉ outputs.flatMap (fun o => assetKeys o.value.assets)) :
    total (.asset id) (outputsToValues outputs) = 0 := by
  apply List.sum_eq_zero
  intro amount hamount
  obtain ⟨value, hvalue, rfl⟩ := List.mem_map.mp hamount
  obtain ⟨output, houtput, rfl⟩ := List.mem_map.mp hvalue
  cases hmap : output.value.assets with
  | none => simp [Value.amount, hmap, assetsQuantity]
  | some assets =>
    have hkey : id ∉ assets.keys := by
      intro hmem
      exact h (List.mem_flatMap.mpr ⟨output, houtput, by simpa [assetKeys, hmap] using hmem⟩)
    simpa [Value.amount, hmap, assetsQuantity] using JsMap.quantity_of_not_mem hkey

theorem changeRequest_of_unique {uniqueTxAssetIDs : List AssetId}
    (houtputs : ∀ value ∈ outputsToValues outputs, value.Nonneg)
    (hdeposit : 0 ≤ implicitValue.requiredCoin.deposit) (hnodup : uniqueTxAssetIDs.Nodup)
    (houtside : ∀ id ∉ uniqueTxAssetIDs, total (.asset id) (outputsToValues outputs) = 0)
    (hmint : ∀ id ∈ implicitValue.mintMap.keys, id ∈ uniqueTxAssetIDs) :
    ChangeRequest (outputsToValues outputs) uniqueTxAssetIDs implicitValue.required where
  outputs := houtputs
  spent := by
    intro token
    cases token with
    | lovelace => exact hdeposit
    | asset id =>
      rw [required_spent_asset]
      exact le_max_right _ _
  nodup := hnodup
  outside := by
    intro id hid
    have hzero : implicitValue.mintMap.quantity id = 0 :=
      JsMap.quantity_of_not_mem (fun hmem => hid (hmint id hmem))
    refine ⟨houtside id hid, ?_, ?_⟩
    · simp [required_spent_asset, ImplicitValue.burned, hzero]
    · simp [required_input_asset, ImplicitValue.minted, hzero]

theorem changeRequest_preProcessArgs {preSelectedUtxo utxo : JsSet Utxo}
    (houtputs : ∀ value ∈ outputsToValues outputs, value.Nonneg)
    (hdeposit : 0 ≤ implicitValue.requiredCoin.deposit) :
    ChangeRequest (outputsToValues outputs)
      (preProcessArgs preSelectedUtxo utxo outputs implicitValue).uniqueTxAssetIDs
      implicitValue.required := by
  refine changeRequest_of_unique houtputs hdeposit (nodup_uniq _) ?_ ?_
  · intro id hid
    apply total_asset_eq_zero_of_not_mem
    intro hmem
    exact hid (by simp only [preProcessArgs, mem_uniq, List.mem_append]; exact Or.inl hmem)
  · intro id hid
    simp only [preProcessArgs, mem_uniq, List.mem_append]
    exact Or.inr hid

def UtxoSelection.Divides (selection : UtxoSelection) (available : List Utxo) : Prop :=
  (selection.utxoSelected ++ selection.utxoRemaining).Perm available

def UtxoSelection.move (selection : UtxoSelection) (utxo : Utxo) : UtxoSelection where
  utxoRemaining := selection.utxoRemaining.erase utxo
  utxoSelected := selection.utxoSelected ++ [utxo]

theorem UtxoSelection.Divides.move {selection : UtxoSelection} {available : List Utxo}
    (h : selection.Divides available) {utxo : Utxo} (hutxo : utxo ∈ selection.utxoRemaining) :
    (selection.move utxo).Divides available := by
  have herase : (utxo :: selection.utxoRemaining.erase utxo).Perm selection.utxoRemaining :=
    (List.perm_cons_erase hutxo).symm
  have happend := (herase.append_left selection.utxoSelected).trans h
  simpa [UtxoSelection.Divides, UtxoSelection.move] using happend

variable {selection : UtxoSelection}

theorem UtxoSelection.Divides.mem_of_selected (h : selection.Divides available)
    (hutxo : utxo ∈ selection.utxoSelected) : utxo ∈ available :=
  List.Perm.mem_iff h |>.mp (by simp [hutxo])

theorem UtxoSelection.Divides.mem_of_remaining (h : selection.Divides available)
    (hutxo : utxo ∈ selection.utxoRemaining) : utxo ∈ available :=
  List.Perm.mem_iff h |>.mp (by simp [hutxo])

theorem toValues_nonneg (h : ∀ utxo ∈ available, utxo.txOut.value.Nonneg) :
    ∀ value ∈ toValues available, value.Nonneg := by
  intro value hvalue
  obtain ⟨utxo, hutxo, rfl⟩ := List.mem_map.mp hvalue
  exact h utxo hutxo

theorem selectedAmount_le_append (utxoSelected : List Utxo) (hutxo : utxo.txOut.value.Nonneg)
    (implicitValue : RequiredImplicitValue) (token : TokenKind) :
    selectedAmount utxoSelected implicitValue token ≤
      selectedAmount (utxoSelected ++ [utxo]) implicitValue token := by
  have hamount := hutxo token
  simp only [selectedAmount, toValues, List.map_append, List.map_cons, List.map_nil, total_append,
    total_cons, total_nil]
  omega

theorem perm_sortUtxoByTxIn (utxo : List Utxo) : (sortUtxoByTxIn utxo).Perm utxo :=
  List.perm_insertionSort _ _

theorem perm_sortUtxoByCoins (utxo : List Utxo) : (sortUtxoByCoins utxo).Perm utxo :=
  List.perm_insertionSort _ _

theorem perm_sortedInputSet (utxo : JsSet Utxo) : (sortedInputSet utxo).toList.Perm utxo.toList := by
  have hsorted := perm_sortUtxoByTxIn utxo.toList
  have hnodup : (sortUtxoByTxIn utxo.toList).Nodup := hsorted.nodup_iff.mpr utxo.nodup
  rw [sortedInputSet, JsSet.ofList_toList_of_nodup hnodup]
  exact hsorted

theorem selectedAmount_perm {xs ys : List Utxo} (h : xs.Perm ys)
    (implicitValue : RequiredImplicitValue) (token : TokenKind) :
    selectedAmount xs implicitValue token = selectedAmount ys implicitValue token := by
  have hvalues : (toValues xs).Perm (toValues ys) := h.map _
  rw [selectedAmount, selectedAmount, total_perm hvalues]

theorem outputsToValues_toChangeOutputs (change : List Value) :
    outputsToValues (toChangeOutputs change) = change := by
  simp [outputsToValues, toChangeOutputs, Function.comp_def]

/-! ### Small transactions

The parts the concrete selections below are made of. -/

def utxoOf (n : ℕ) (value : Value) : Utxo where
  ref := n
  txIn := { ref := n, txId := [], index := n }
  txOut := { address := "", value := value }

def outputOf (value : Value) : TxOut where
  address := ""
  value := value

def flatConstraints (fee : ℤ) : SelectionConstraints where
  computeMinimumCost := fun _ => .ok { fee := fee }
  tokenBundleSizeExceedsLimit := fun _ => false
  computeMinimumCoinQuantity := fun _ => 0
  computeSelectionLimit := fun _ => .ok 100

def keepAddresses : ChangeAddressResolver := fun selection => .ok selection.change

theorem flatConstraints_fee_nonneg {fee : ℤ} (hfee : 0 ≤ fee) :
    ∀ selection costs, (flatConstraints fee).computeMinimumCost selection = .ok costs →
      0 ≤ costs.fee := by
  intro selection costs hcosts
  cases hcosts
  exact hfee

theorem rewritesAddresses_keepAddresses : RewritesAddresses keepAddresses := by
  intro selection change hchange
  cases hchange
  exact List.Perm.refl _

def violatesConservation (implicitValue : ImplicitValue) (token : TokenKind)
    (outcome : Except SelectionError SelectionResult) : Bool :=
  okAnd (fun result => decide (
    selectedAmount result.selection.inputs.toList implicitValue.required token ≠
      requestedAmount (outputsToValues result.selection.outputs) implicitValue.required
        result.selection.fee token + total token (outputsToValues result.selection.change)))
    outcome

theorem not_conserves_of_violates {token : TokenKind}
    {outcome : Except SelectionError SelectionResult}
    (h : violatesConservation implicitValue token outcome = true) :
    ∃ result, outcome = .ok result ∧ ¬ ConservesValue implicitValue result.selection := by
  obtain ⟨result, hok, hne⟩ := okAnd_iff.mp h
  refine ⟨result, hok, fun hconserves => ?_⟩
  exact of_decide_eq_true hne (conservesValue_iff_total.mp hconserves token)

end CardanoSdk.InputSelection
