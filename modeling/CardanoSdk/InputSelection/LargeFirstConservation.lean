import CardanoSdk.InputSelection.LargeFirst
import CardanoSdk.InputSelection.RoundRobinConservation

/-!
The large-first selector conserves value: its asset phase covers every asset, and the
later phases only add to the selection.
-/

namespace CardanoSdk.InputSelection

open Lib

theorem total_le_of_subset {xs ys : List Utxo} (hnodup : xs.Nodup) (hsubset : xs ⊆ ys)
    (hnonneg : ∀ utxo ∈ ys, utxo.txOut.value.Nonneg) (token : TokenKind) :
    total token (toValues xs) ≤ total token (toValues ys) := by
  have hsubperm : xs.Subperm ys := List.subperm_of_subset hnodup hsubset
  obtain ⟨zs, hperm, hsublist⟩ := hsubperm
  have hzs : (toValues zs).Perm (toValues xs) := hperm.map _
  rw [← total_perm hzs]
  have hmapped : ((toValues zs).map (fun value => value.amount token)).Sublist
      ((toValues ys).map (fun value => value.amount token)) := (hsublist.map _).map _
  refine hmapped.sum_le_sum ?_
  intro amount hamount
  obtain ⟨value, hvalue, rfl⟩ := List.mem_map.mp hamount
  obtain ⟨utxo, hutxo, rfl⟩ := List.mem_map.mp hvalue
  exact hnonneg utxo hutxo token

theorem selectCandidates_spec (quantity : Utxo → ℤ) (requiredQuantity : ℤ)
    (candidates : List Utxo) (selected : JsSet Utxo) (accumulated : ℤ) :
    ∃ taken : List Utxo, taken.Sublist candidates ∧
      (selectCandidates quantity requiredQuantity candidates selected accumulated).2 =
        accumulated + (taken.map quantity).sum ∧
      ((selectCandidates quantity requiredQuantity candidates selected accumulated).2 <
        requiredQuantity → taken = candidates) ∧
      ∀ utxo, utxo ∈ (selectCandidates quantity requiredQuantity candidates selected
        accumulated).1.toList ↔ utxo ∈ selected.toList ∨ utxo ∈ taken := by
  induction candidates generalizing selected accumulated with
  | nil =>
    exact ⟨[], List.Sublist.refl _, by simp [selectCandidates], fun _ => rfl,
      by simp [selectCandidates]⟩
  | cons candidate rest ih =>
    unfold selectCandidates
    split
    · rename_i henough
      refine ⟨[candidate], by simp, by simp, fun hshort => absurd hshort (by simpa using henough),
        ?_⟩
      intro utxo
      simp [JsSet.mem_add]
    · obtain ⟨taken, hsublist, hsum, hall, hmem⟩ :=
        ih (selected.add candidate) (accumulated + quantity candidate)
      refine ⟨candidate :: taken, hsublist.cons_cons candidate, ?_, ?_, ?_⟩
      · rw [hsum, List.map_cons, List.sum_cons]
        omega
      · intro hshort
        rw [hall hshort]
      · intro utxo
        rw [hmem, JsSet.mem_add, List.mem_cons]
        tauto

theorem selectAdaCandidates_spec (target : ℤ) (candidates : List Utxo) (result : JsSet Utxo)
    (adaAccumulated : ℤ) :
    ∃ taken : List Utxo, taken.Sublist candidates ∧
      (selectAdaCandidates target candidates result adaAccumulated).2 =
        adaAccumulated + getCoinQuantity (toValues taken) ∧
      ((selectAdaCandidates target candidates result adaAccumulated).2 < target →
        taken = candidates) ∧
      ∀ utxo, utxo ∈ (selectAdaCandidates target candidates result adaAccumulated).1.toList ↔
        utxo ∈ result.toList ∨ utxo ∈ taken := by
  induction candidates generalizing result adaAccumulated with
  | nil =>
    exact ⟨[], List.Sublist.refl _, by simp [selectAdaCandidates, getCoinQuantity, toValues],
      fun _ => rfl, by simp [selectAdaCandidates]⟩
  | cons candidate rest ih =>
    unfold selectAdaCandidates
    split
    · rename_i henough
      exact ⟨[], List.nil_sublist _, by simp [getCoinQuantity, toValues],
        fun hshort => absurd hshort (by simpa using henough), by simp⟩
    · obtain ⟨taken, hsublist, hsum, hall, hmem⟩ :=
        ih (result.add candidate) (adaAccumulated + candidate.txOut.value.coins)
      refine ⟨candidate :: taken, hsublist.cons_cons candidate, ?_, ?_, ?_⟩
      · rw [hsum]
        simp only [getCoinQuantity, toValues, List.map_cons, List.sum_cons]
        omega
      · intro hshort
        rw [hall hshort]
      · intro utxo
        rw [hmem, JsSet.mem_add, List.mem_cons]
        tauto

section Phases

variable {available : List Utxo}

variable {selected : JsSet Utxo}

variable {selected' result : JsSet Utxo} {required : AssetId × ℤ} {requiredAssets : TokenMap}
  {preSelected : List Utxo} {target implicitCoinInput : ℤ}

theorem selectAsset_mem (hselected : ∀ utxo ∈ selected.toList, utxo ∈ available)
    (hok : selectAsset available selected required = .ok selected') :
    (∀ utxo ∈ selected.toList, utxo ∈ selected'.toList) ∧
      (∀ utxo ∈ selected'.toList, utxo ∈ available) := by
  unfold selectAsset at hok
  dsimp only at hok
  obtain ⟨taken, hsublist, _, _, hmem⟩ := selectCandidates_spec
    (fun u => assetsQuantity u.txOut.value.assets required.1) required.2
    (sortUtxoByAssetQuantity required.1 (available.filter (fun u =>
      assetsQuantity u.txOut.value.assets required.1 > 0))) selected 0
  split at hok
  · cases hok
  · cases hok
    refine ⟨fun utxo hutxo => (hmem utxo).mpr (Or.inl hutxo), ?_⟩
    intro utxo hutxo
    rcases (hmem utxo).mp hutxo with hold | hnew
    · exact hselected utxo hold
    · have hperm := List.perm_insertionSort (fun lhs rhs : Utxo =>
        assetsQuantity rhs.txOut.value.assets required.1 ≤
          assetsQuantity lhs.txOut.value.assets required.1)
        (available.filter (fun u => assetsQuantity u.txOut.value.assets required.1 > 0))
      exact (List.mem_filter.mp (hperm.mem_iff.mp (hsublist.subset hnew))).1

theorem selectAsset_held (hnodup : available.Nodup)
    (hnonneg : ∀ utxo ∈ available, utxo.txOut.value.Nonneg)
    (hselected : ∀ utxo ∈ selected.toList, utxo ∈ available)
    (hok : selectAsset available selected required = .ok selected') :
    required.2 ≤ total (.asset required.1) (toValues selected'.toList) := by
  have hmembers := (selectAsset_mem hselected hok).2
  unfold selectAsset at hok
  dsimp only at hok
  set candidates := sortUtxoByAssetQuantity required.1 (available.filter (fun u =>
    assetsQuantity u.txOut.value.assets required.1 > 0)) with hcandidates
  have hperm : candidates.Perm (available.filter (fun u =>
      assetsQuantity u.txOut.value.assets required.1 > 0)) := List.perm_insertionSort _ _
  obtain ⟨taken, hsublist, hsum, _, hmem⟩ := selectCandidates_spec
    (fun u => assetsQuantity u.txOut.value.assets required.1) required.2 candidates selected 0
  split at hok
  · cases hok
  · rename_i henough
    cases hok
    have htakenNodup : taken.Nodup :=
      hsublist.nodup (hperm.nodup_iff.mpr (hnodup.filter _))
    have hle := total_le_of_subset htakenNodup
      (fun utxo hutxo => (hmem utxo).mpr (Or.inr hutxo))
      (fun utxo hutxo => hnonneg utxo (hmembers utxo hutxo)) (.asset required.1)
    have htotal : total (.asset required.1) (toValues taken) =
        (taken.map (fun u => assetsQuantity u.txOut.value.assets required.1)).sum := by
      simp [total, toValues, Value.amount, Function.comp_def]
    rw [hsum] at henough
    omega

theorem selectAssets_mem (hpre : ∀ utxo ∈ preSelected, utxo ∈ available)
    (hok : selectAssets requiredAssets available preSelected = .ok selected) :
    (∀ utxo ∈ preSelected, utxo ∈ selected.toList) ∧
      (∀ utxo ∈ selected.toList, utxo ∈ available) := by
  refine foldlM_ok_invariant (fun selected : JsSet Utxo =>
    (∀ utxo ∈ preSelected, utxo ∈ selected.toList) ∧ ∀ utxo ∈ selected.toList, utxo ∈ available)
    _ _ ?_ ?_ hok
  · exact ⟨fun utxo hutxo => JsSet.mem_ofList.mpr hutxo,
      fun utxo hutxo => hpre utxo (JsSet.mem_ofList.mp hutxo)⟩
  · intro current entry _ hcurrent next hnext
    obtain ⟨hgrow, havailable⟩ := selectAsset_mem hcurrent.2 hnext
    exact ⟨fun utxo hutxo => hgrow utxo (hcurrent.1 utxo hutxo), havailable⟩

theorem selectAssets_held (hnodup : available.Nodup)
    (hnonneg : ∀ utxo ∈ available, utxo.txOut.value.Nonneg)
    (hpre : ∀ utxo ∈ preSelected, utxo ∈ available)
    (hok : selectAssets requiredAssets available preSelected = .ok selected) :
    ∀ entry ∈ requiredAssets.entries,
      entry.2 ≤ total (.asset entry.1) (toValues selected.toList) := by
  have hfold (entries : List (AssetId × ℤ)) (start : JsSet Utxo)
      (hstart : ∀ utxo ∈ start.toList, utxo ∈ available)
      (hok : entries.foldlM (selectAsset available) start = .ok selected) :
      (∀ utxo ∈ start.toList, utxo ∈ selected.toList) ∧
        (∀ utxo ∈ selected.toList, utxo ∈ available) ∧
        ∀ entry ∈ entries, entry.2 ≤ total (.asset entry.1) (toValues selected.toList) := by
    induction entries generalizing start with
    | nil =>
      cases hok
      exact ⟨fun _ h => h, hstart, by simp⟩
    | cons entry rest ih =>
      rw [List.foldlM_cons] at hok
      obtain ⟨next, hnext, hrest⟩ := bind_ok hok
      obtain ⟨hgrow, hnextAvailable⟩ := selectAsset_mem hstart hnext
      have hheld := selectAsset_held hnodup hnonneg hstart hnext
      obtain ⟨hgrow', havailable, hheld'⟩ := ih next hnextAvailable hrest
      refine ⟨fun utxo hutxo => hgrow' utxo (hgrow utxo hutxo), havailable, ?_⟩
      intro entry' hentry'
      rcases List.mem_cons.mp hentry' with rfl | hmem
      · exact hheld.trans (total_le_of_subset next.nodup hgrow'
          (fun utxo hutxo => hnonneg utxo (havailable utxo hutxo)) _)
      · exact hheld' entry' hmem
  exact (hfold requiredAssets.entries (JsSet.ofList preSelected)
    (fun utxo hutxo => hpre utxo (JsSet.mem_ofList.mp hutxo)) hok).2.2

def adaCandidates (available : List Utxo) (selected : JsSet Utxo) : List Utxo :=
  sortUtxoByCoins (available.filter (fun u => u.txIn ∉ selected.toList.map (fun u => u.txIn)))

theorem mem_adaCandidates {utxo : Utxo} :
    utxo ∈ adaCandidates available selected ↔
      utxo ∈ available ∧ ∀ other ∈ selected.toList, other.txIn ≠ utxo.txIn := by
  rw [adaCandidates, (perm_sortUtxoByCoins _).mem_iff]
  simp

theorem selectLovelace_cases (target : ℤ) (available : List Utxo) (selected : JsSet Utxo)
    (implicitCoinInput : ℤ) :
    ∃ taken : List Utxo, taken.Sublist (adaCandidates available selected) ∧
      ((selectLovelace target available selected implicitCoinInput =
            failWith .utxoBalanceInsufficient ∧
          (selected.toList = [] ∧ adaCandidates available selected = [] ∨
            taken = adaCandidates available selected ∧
              getCoinQuantity (toValues selected.toList) + implicitCoinInput +
                getCoinQuantity (toValues taken) < target)) ∨
        ∃ result, selectLovelace target available selected implicitCoinInput = .ok result ∧
          target ≤ getCoinQuantity (toValues selected.toList) + implicitCoinInput +
            getCoinQuantity (toValues taken) ∧
          (∀ utxo, utxo ∈ selected.toList ∨ utxo ∈ taken → utxo ∈ result.toList) ∧
          ∀ utxo ∈ result.toList,
            utxo ∈ selected.toList ∨ utxo ∈ adaCandidates available selected) := by
  obtain ⟨taken, hsublist, hsum, hall, hmem⟩ := selectAdaCandidates_spec target
    (adaCandidates available selected) selected
    (getCoinQuantity (toValues selected.toList) + implicitCoinInput)
  refine ⟨taken, hsublist, ?_⟩
  unfold selectLovelace
  dsimp only
  rw [← adaCandidates]
  set reached := selectAdaCandidates target (adaCandidates available selected) selected
    (getCoinQuantity (toValues selected.toList) + implicitCoinInput) with hreached
  set candidates := adaCandidates available selected with hcandidates
  clear_value reached candidates
  have hfrom : ∀ utxo ∈ reached.1.toList, utxo ∈ selected.toList ∨ utxo ∈ candidates := by
    intro utxo hutxo
    exact ((hmem utxo).mp hutxo).imp_right (fun htaken => hsublist.subset htaken)
  -- the last test of the phase, whatever was added for an empty selection
  have hfinish {start : JsSet Utxo} (hgrow : ∀ utxo ∈ reached.1.toList, utxo ∈ start.toList)
      (hstart : ∀ utxo ∈ start.toList, utxo ∈ selected.toList ∨ utxo ∈ candidates) :
      ((if reached.2 < target then failWith .utxoBalanceInsufficient else .ok start) =
            (failWith .utxoBalanceInsufficient : Except SelectionError (JsSet Utxo)) ∧
          (selected.toList = [] ∧ candidates = [] ∨ taken = candidates ∧
            getCoinQuantity (toValues selected.toList) + implicitCoinInput +
              getCoinQuantity (toValues taken) < target)) ∨
        ∃ result, (if reached.2 < target then failWith .utxoBalanceInsufficient else .ok start) =
            .ok result ∧
          target ≤ getCoinQuantity (toValues selected.toList) + implicitCoinInput +
            getCoinQuantity (toValues taken) ∧
          (∀ utxo, utxo ∈ selected.toList ∨ utxo ∈ taken → utxo ∈ result.toList) ∧
          ∀ utxo ∈ result.toList, utxo ∈ selected.toList ∨ utxo ∈ candidates := by
    by_cases hshort : reached.2 < target
    · rw [if_pos hshort]
      rw [hsum] at hshort
      exact Or.inl ⟨rfl, Or.inr ⟨hall (by rw [hsum]; exact hshort), hshort⟩⟩
    · rw [if_neg hshort]
      rw [hsum] at hshort
      exact Or.inr ⟨start, rfl, not_lt.mp hshort,
        fun utxo hutxo => hgrow utxo ((hmem utxo).mpr hutxo), hstart⟩
  split
  · rename_i hsize
    have hempty : reached.1.toList = [] := List.length_eq_zero_iff.mp hsize
    have hselected : selected.toList = [] := by
      rw [List.eq_nil_iff_forall_not_mem]
      intro utxo hutxo
      have hin := (hmem utxo).mpr (Or.inl hutxo)
      rw [hempty] at hin
      cases hin
    cases candidates with
    | nil => exact Or.inl ⟨rfl, Or.inl ⟨hselected, rfl⟩⟩
    | cons first rest =>
      refine @hfinish (reached.1.add first) ?_ ?_
      · intro utxo hutxo
        exact JsSet.mem_add.mpr (Or.inl hutxo)
      · intro utxo hutxo
        rcases JsSet.mem_add.mp hutxo with hold | rfl
        · exact hfrom utxo hold
        · exact Or.inr (by simp)
  · exact @hfinish reached.1 (fun _ h => h) hfrom

theorem selectLovelace_ok (hselected : ∀ utxo ∈ selected.toList, utxo ∈ available)
    (hok : selectLovelace target available selected implicitCoinInput = .ok result) :
    (∀ utxo ∈ selected.toList, utxo ∈ result.toList) ∧
      (∀ utxo ∈ result.toList, utxo ∈ available) := by
  obtain ⟨taken, _, ⟨hfail, _⟩ | ⟨reached, hreached, _, hgrow, hfrom⟩⟩ :=
    selectLovelace_cases target available selected implicitCoinInput
  · rw [hfail] at hok
    cases hok
  · rw [hreached] at hok
    cases hok
    refine ⟨fun utxo hutxo => hgrow utxo (Or.inl hutxo), ?_⟩
    intro utxo hutxo
    rcases hfrom utxo hutxo with hold | hnew
    · exact hselected utxo hold
    · exact (mem_adaCandidates.mp hnew).1

theorem nodup_adaCandidates (hnodup : available.Nodup) (selected : JsSet Utxo) :
    (selected.toList ++ adaCandidates available selected).Nodup := by
  refine List.nodup_append.mpr ⟨selected.nodup,
    (perm_sortUtxoByCoins _).nodup_iff.mpr (hnodup.filter _), ?_⟩
  rintro utxo hutxo other hother rfl
  exact (mem_adaCandidates.mp hother).2 utxo hutxo rfl

theorem selectLovelace_held (hnodup : available.Nodup)
    (hnonneg : ∀ utxo ∈ available, utxo.txOut.value.Nonneg)
    (hselected : ∀ utxo ∈ selected.toList, utxo ∈ available)
    (hok : selectLovelace target available selected implicitCoinInput = .ok result) :
    target ≤ getCoinQuantity (toValues result.toList) + implicitCoinInput := by
  have hresult := (selectLovelace_ok hselected hok).2
  obtain ⟨taken, hsublist, ⟨hfail, _⟩ | ⟨reached, hreached, htarget, hgrow, _⟩⟩ :=
    selectLovelace_cases target available selected implicitCoinInput
  · rw [hfail] at hok
    cases hok
  · rw [hreached] at hok
    cases hok
    have hjoined : (selected.toList ++ taken).Nodup :=
      (hsublist.append_left selected.toList).nodup (nodup_adaCandidates hnodup selected)
    have hle := total_le_of_subset hjoined
      (fun utxo hutxo => hgrow utxo (List.mem_append.mp hutxo))
      (fun utxo hutxo => hnonneg utxo (hresult utxo hutxo)) .lovelace
    simp only [toValues, List.map_append, total_append, total_lovelace] at hle htarget ⊢
    omega

end Phases

theorem quantity_required (inputs outputs : List Value) (implicitValue : ImplicitValue)
    (id : AssetId) :
    (aggregateAssets inputs outputs implicitValue).required.quantity id =
      total (.asset id) outputs + implicitValue.burned id - implicitValue.minted id := by
  set outputsMap := (coalesceValueQuantities outputs).assets.getD JsMap.empty with houtputsMap
  set negMint := (implicitValue.mintMap.filter (fun _ q => !(q > 0))).mapValues (fun q => -q)
    with hnegMint
  set posMint := implicitValue.mintMap.filter (fun _ q => q > 0) with hposMint
  have hgetD (assets : Option TokenMap) :
      (assets.getD JsMap.empty).quantity id = assetsQuantity assets id := by
    cases assets <;> rfl
  have hrequired : (aggregateAssets inputs outputs implicitValue).required =
      (subtractTokenMaps (addTokenMaps (some outputsMap) (some negMint))
        (some posMint)).getD JsMap.empty := rfl
  have houtputs : assetsQuantity (some outputsMap) id = total (.asset id) outputs := by
    rw [houtputsMap]
    simp only [assetsQuantity]
    rw [hgetD]
    exact amount_coalesceValueQuantities outputs (.asset id)
  have hneg : assetsQuantity (some negMint) id = implicitValue.burned id := by
    rw [hnegMint]
    simp only [assetsQuantity, JsMap.quantity_mapValues_neg, JsMap.quantity_filter,
      ImplicitValue.burned]
    split <;> simp_all
    omega
  have hpos : assetsQuantity (some posMint) id = implicitValue.minted id := by
    rw [hposMint]
    simp only [assetsQuantity, JsMap.quantity_filter, ImplicitValue.minted, decide_eq_true_eq]
    split <;> omega
  rw [hrequired, hgetD, assetsQuantity_subtractTokenMaps, assetsQuantity_addTokenMaps, houtputs,
    hneg, hpos]

theorem quantity_available (inputs outputs : List Value) (implicitValue : ImplicitValue)
    (id : AssetId) :
    (aggregateAssets inputs outputs implicitValue).available.quantity id =
      total (.asset id) inputs + implicitValue.minted id := by
  have havailable : (aggregateAssets inputs outputs implicitValue).available =
      (addTokenMaps (coalesceValueQuantities inputs).assets
        (some (implicitValue.mintMap.filter (fun _ q => q > 0)))).getD JsMap.empty := rfl
  have hgetD (assets : Option TokenMap) :
      (assets.getD JsMap.empty).quantity id = assetsQuantity assets id := by
    cases assets <;> rfl
  have hheld : assetsQuantity (coalesceValueQuantities inputs).assets id =
      total (.asset id) inputs := amount_coalesceValueQuantities inputs (.asset id)
  have hmint : assetsQuantity (some (implicitValue.mintMap.filter (fun _ q => q > 0))) id =
      implicitValue.minted id := by
    simp only [assetsQuantity, JsMap.quantity_filter, ImplicitValue.minted, decide_eq_true_eq]
    split <;> omega
  rw [havailable, hgetD, assetsQuantity_addTokenMaps, hheld, hmint]

/-- What a large-first selection chooses from: the pre-selected entries and
those of the rest that have another id. -/
def largeFirstPool (preSelectedUtxo utxo : JsSet Utxo) : List Utxo :=
  preSelectedUtxo.toList ++ availableUtxo preSelectedUtxo.toList utxo.toList

theorem ids_availableUtxo_disjoint {preSelected utxo : List Utxo} {u : Utxo}
    (hu : u ∈ availableUtxo preSelected utxo) : ∀ pre ∈ preSelected, pre.id ≠ u.id := by
  intro pre hpre heq
  obtain ⟨_, hnone⟩ := List.mem_filter.mp hu
  simp only [Bool.not_eq_true', List.any_eq_false, Bool.and_eq_true, beq_iff_eq, not_and] at hnone
  have hids := Prod.mk.inj heq
  exact hnone pre hpre hids.1 hids.2

variable {preSelectedUtxo utxo : JsSet Utxo} {selection : UtxoSelection} {outputs : List TxOut}
  {params : InputSelectionParameters} {changeAddressResolver : ChangeAddressResolver}

/-- Large-first filters what it adds by id, so no object is there twice. -/
theorem nodup_largeFirstPool (preSelectedUtxo utxo : JsSet Utxo) :
    (largeFirstPool preSelectedUtxo utxo).Nodup := by
  refine List.Nodup.append preSelectedUtxo.nodup (utxo.nodup.filter _) ?_
  intro u hpre havailable
  exact ids_availableUtxo_disjoint havailable u hpre rfl

theorem ids_largeFirstPool (hpre : (preSelectedUtxo.toList.map Utxo.id).Nodup)
    (hutxo : ((availableUtxo preSelectedUtxo.toList utxo.toList).map Utxo.id).Nodup) :
    ((largeFirstPool preSelectedUtxo utxo).map Utxo.id).Nodup := by
  rw [largeFirstPool, List.map_append, List.nodup_append]
  refine ⟨hpre, hutxo, ?_⟩
  intro id hid id' hid' heq
  obtain ⟨pre, hmem, rfl⟩ := List.mem_map.mp hid
  obtain ⟨u, hu, rfl⟩ := List.mem_map.mp hid'
  exact ids_availableUtxo_disjoint hu pre hmem heq

theorem pickAdditionalLargestUtxo_cases (selection : UtxoSelection) (state : Unit) :
    (selection.utxoRemaining = [] ∧ (pickAdditionalLargestUtxo selection state).1 = selection) ∨
      ∃ picked newRemaining, (picked :: newRemaining).Perm selection.utxoRemaining ∧
        (pickAdditionalLargestUtxo selection state).1 =
          { utxoRemaining := newRemaining, utxoSelected := selection.utxoSelected ++ [picked] } := by
  unfold pickAdditionalLargestUtxo
  have hperm := perm_sortUtxoByCoins selection.utxoRemaining
  split
  · rename_i hsorted
    rw [hsorted] at hperm
    exact Or.inl ⟨hperm.symm.eq_nil, rfl⟩
  · rename_i picked newRemaining hsorted
    rw [hsorted] at hperm
    exact Or.inr ⟨picked, newRemaining, hperm, rfl⟩

variable {available : List Utxo}

theorem pickAdditionalLargestUtxo_divides (h : selection.Divides available) (state : Unit) :
    (pickAdditionalLargestUtxo selection state).1.Divides available := by
  rcases pickAdditionalLargestUtxo_cases selection state with ⟨_, hsame⟩ | ⟨picked, rest, hperm, hnew⟩
  · rw [hsame]
    exact h
  · rw [hnew]
    have hdivides := (hperm.append_left selection.utxoSelected).trans h
    simpa [UtxoSelection.Divides] using hdivides

theorem pickAdditionalLargestUtxo_covering {implicitValue : RequiredImplicitValue}
    {tokens : List TokenKind}
    (h : CoveringSelection outputs implicitValue available tokens selection)
    (hnonneg : ∀ utxo ∈ available, utxo.txOut.value.Nonneg) (state : Unit) :
    CoveringSelection outputs implicitValue available tokens
      (pickAdditionalLargestUtxo selection state).1 := by
  refine ⟨pickAdditionalLargestUtxo_divides h.divides state, ?_⟩
  rcases pickAdditionalLargestUtxo_cases selection state with ⟨_, hsame⟩ | ⟨picked, rest, hperm, hnew⟩
  · rw [hsame]
    exact h.covers
  · rw [hnew]
    have hpicked : picked ∈ selection.utxoRemaining := hperm.mem_iff.mp (by simp)
    intro token htoken
    exact (h.covers token htoken).append (hnonneg picked (h.divides.mem_of_remaining hpicked))

theorem expandUtxosUntilFeeCovered_ok {initialInputs : JsSet Utxo} {requiredAssets : TokenMap}
    {expanded : ExpandedSelection}
    (h : expandUtxosUntilFeeCovered initialInputs params available requiredAssets
      changeAddressResolver = .ok expanded) :
    ∃ computed,
      computeChangeAndAdjustForFee (largeFirstChangeArgs params requiredAssets)
        ((sortUtxoByCoins (available.filter (fun u => u ∉ initialInputs.toList))).length + 1)
        { utxoRemaining := sortUtxoByCoins
            (available.filter (fun u => u ∉ initialInputs.toList))
          utxoSelected := initialInputs.toList } () = .ok computed ∧
      expanded.finalSelection = JsSet.ofList computed.inputs ∧ expanded.fee = computed.fee ∧
      (computed.change = [] ∧ expanded.change = [] ∨
        changeAddressResolver {
          change := toChangeOutputs computed.change
          fee := computed.fee
          inputs := JsSet.ofList computed.inputs
          outputs := params.outputs } = .ok expanded.change) := by
  unfold expandUtxosUntilFeeCovered at h
  obtain ⟨computed, hcomputed, h⟩ := bind_ok h
  refine ⟨computed, hcomputed, ?_⟩
  split at h
  · rename_i hlength
    cases h
    exact ⟨rfl, rfl, Or.inl ⟨List.length_eq_zero_iff.mp hlength, rfl⟩⟩
  · obtain ⟨change, hchange, hpure⟩ := bind_ok h
    cases hpure
    exact ⟨rfl, rfl, Or.inr hchange⟩

theorem computeNetImplicitSelectionValues_ok {inputs : JsSet Utxo} {implicitValue : ImplicitValue}
    {net : NetSelectionValues}
    (h : computeNetImplicitSelectionValues inputs outputs implicitValue = .ok net) :
    net.outputAssets = (aggregateAssets (toValues inputs.toList) (outputsToValues outputs)
        implicitValue).required ∧
      net.totalLovelaceOutput = getCoinQuantity (outputsToValues outputs) +
        implicitValue.requiredCoin.deposit := by
  unfold computeNetImplicitSelectionValues at h
  dsimp only at h
  split at h
  · cases h
  · rw [← Except.ok.inj h]
    exact ⟨rfl, rfl⟩

theorem largeFirstSelect_ok {result : SelectionResult}
    (h : largeFirstSelect changeAddressResolver params = .ok result) :
    ∃ net afterAssets workingUtxo expanded,
      computeNetImplicitSelectionValues
        (JsSet.ofList (largeFirstPool params.preSelectedUtxo params.utxo)) params.outputs
        params.implicitValue = .ok net ∧
      selectAssets net.outputAssets (largeFirstPool params.preSelectedUtxo params.utxo)
        params.preSelectedUtxo.toList = .ok afterAssets ∧
      selectLovelace net.totalLovelaceOutput (largeFirstPool params.preSelectedUtxo params.utxo)
        afterAssets params.implicitValue.requiredCoin.input = .ok workingUtxo ∧
      expandUtxosUntilFeeCovered workingUtxo params
        (largeFirstPool params.preSelectedUtxo params.utxo) net.outputAssets
        changeAddressResolver = .ok expanded ∧
      result = {
        remainingUTxO := computeRemainingUtxo params.utxo.toList expanded.finalSelection
        selection := {
          change := expanded.change
          fee := expanded.fee
          inputs := sortedInputSet expanded.finalSelection
          outputs := params.outputs } } := by
  unfold largeFirstSelect at h
  dsimp only at h
  rw [← largeFirstPool] at h
  obtain ⟨net, hnet, h⟩ := bind_ok h
  obtain ⟨afterAssets, hassets, h⟩ := bind_ok h
  obtain ⟨workingUtxo, hlovelace, h⟩ := bind_ok h
  obtain ⟨expanded, hexpanded, h⟩ := bind_ok h
  obtain ⟨limit, _, h⟩ := bind_ok h
  split at h
  · cases h
  · exact ⟨net, afterAssets, workingUtxo, expanded, hnet, hassets, hlovelace, hexpanded,
      (Except.ok.inj h).symm⟩

theorem divides_of_workingSet {workingUtxo : JsSet Utxo} (hnodup : available.Nodup)
    (hworking : ∀ utxo ∈ workingUtxo.toList, utxo ∈ available) :
    UtxoSelection.Divides
      { utxoRemaining := sortUtxoByCoins (available.filter (fun u => u ∉ workingUtxo.toList))
        utxoSelected := workingUtxo.toList } available := by
  have hsorted := perm_sortUtxoByCoins (available.filter (fun u => u ∉ workingUtxo.toList))
  refine (hsorted.append_left workingUtxo.toList).trans ?_
  rw [List.perm_ext_iff_of_nodup ?_ hnodup]
  · intro utxo
    simp only [List.mem_append, List.mem_filter, decide_eq_true_eq]
    constructor
    · rintro (hmem | ⟨hmem, _⟩)
      · exact hworking utxo hmem
      · exact hmem
    · intro hmem
      by_cases hselected : utxo ∈ workingUtxo.toList
      · exact Or.inl hselected
      · exact Or.inr ⟨hmem, hselected⟩
  · rw [List.nodup_append]
    refine ⟨workingUtxo.nodup, hnodup.filter _, ?_⟩
    rintro utxo hutxo other hother rfl
    simp [hutxo] at hother

theorem largeFirstPool_nonneg
    (h : ∀ u ∈ preSelectedUtxo.toList ++ utxo.toList, u.txOut.value.Nonneg) :
    ∀ u ∈ largeFirstPool preSelectedUtxo utxo, u.txOut.value.Nonneg := by
  intro u hu
  apply h
  rcases List.mem_append.mp hu with hpre | hrest
  · exact List.mem_append.mpr (Or.inl hpre)
  · exact List.mem_append.mpr (Or.inr (List.mem_filter.mp hrest).1)

section WorkingSet

variable {available preSelected : List Utxo} {inputs : JsSet Utxo} {outputs : List TxOut}
  {implicitValue : ImplicitValue} {net : NetSelectionValues}

theorem quantity_outputAssets
    (hnet : computeNetImplicitSelectionValues inputs outputs implicitValue = .ok net)
    (id : AssetId) :
    net.outputAssets.quantity id = total (.asset id) (outputsToValues outputs) +
      implicitValue.burned id - implicitValue.minted id := by
  rw [(computeNetImplicitSelectionValues_ok hnet).1]
  exact quantity_required _ _ _ id

variable {afterAssets workingUtxo : JsSet Utxo}

theorem workingSet_covers_asset (hnodup : available.Nodup)
    (hnonneg : ∀ utxo ∈ available, utxo.txOut.value.Nonneg)
    (hpre : ∀ utxo ∈ preSelected, utxo ∈ available)
    (hnet : computeNetImplicitSelectionValues inputs outputs implicitValue = .ok net)
    {target implicitCoinInput : ℤ}
    (hassets : selectAssets net.outputAssets available preSelected = .ok afterAssets)
    (hlovelace : selectLovelace target available afterAssets implicitCoinInput = .ok workingUtxo)
    (id : AssetId) : Covers outputs implicitValue.required workingUtxo.toList (.asset id) := by
  have hheld := selectAssets_held hnodup hnonneg hpre hassets
  obtain ⟨hgrow, hworking⟩ := selectLovelace_ok (selectAssets_mem hpre hassets).2 hlovelace
  have hworkingNonneg : ∀ utxo ∈ workingUtxo.toList, utxo.txOut.value.Nonneg :=
    fun utxo hutxo => hnonneg utxo (hworking utxo hutxo)
  have hle : net.outputAssets.quantity id ≤ total (.asset id) (toValues workingUtxo.toList) := by
    cases hget : net.outputAssets.get? id with
    | none =>
      rw [JsMap.quantity, hget]
      exact total_nonneg (toValues_nonneg hworkingNonneg) _
    | some quantity =>
      have hentry := hheld (id, quantity) (JsMap.get?_eq_some_iff.mp hget)
      rw [JsMap.quantity, hget]
      exact hentry.trans (total_le_of_subset afterAssets.nodup hgrow hworkingNonneg _)
  rw [quantity_outputAssets hnet] at hle
  simp only [Covers, requestedAmount, selectedAmount, required_spent_asset,
    required_input_asset, feeAmount]
  omega

theorem workingSet_covers_lovelace (hnodup : available.Nodup)
    (hnonneg : ∀ utxo ∈ available, utxo.txOut.value.Nonneg)
    (hnet : computeNetImplicitSelectionValues inputs outputs implicitValue = .ok net)
    (hafter : ∀ utxo ∈ afterAssets.toList, utxo ∈ available)
    (hlovelace : selectLovelace net.totalLovelaceOutput available afterAssets
      implicitValue.requiredCoin.input = .ok workingUtxo) :
    Covers outputs implicitValue.required workingUtxo.toList .lovelace := by
  have hheld := selectLovelace_held hnodup hnonneg hafter hlovelace
  rw [(computeNetImplicitSelectionValues_ok hnet).2] at hheld
  simp only [Covers, requestedAmount, selectedAmount, feeAmount, add_zero, total_lovelace]
  exact hheld

theorem total_eq_zero_of_not_required
    (hnet : computeNetImplicitSelectionValues inputs outputs implicitValue = .ok net)
    {id : AssetId} (hid : id ∉ uniq (net.outputAssets.keys ++ implicitValue.mintMap.keys)) :
    total (.asset id) (outputsToValues outputs) = 0 := by
  simp only [mem_uniq, List.mem_append, not_or] at hid
  have hzero : implicitValue.mintMap.quantity id = 0 := JsMap.quantity_of_not_mem hid.2
  have hquantity := quantity_outputAssets hnet id
  rw [JsMap.quantity_of_not_mem hid.1] at hquantity
  simp only [ImplicitValue.burned, ImplicitValue.minted, hzero] at hquantity
  simpa using hquantity.symm

end WorkingSet

/-- What is asked of the arguments of a large-first selection: no repeated id
on either side, positive asset quantities in the outputs and fees that are not
negative. -/
structure LargeFirstAssumptions (params : InputSelectionParameters) : Prop where
  preIds : (params.preSelectedUtxo.toList.map Utxo.id).Nodup
  utxoIds : (params.utxo.toList.map Utxo.id).Nodup
  assets : PositiveAssets params.outputs
  fee : ∀ selection costs, params.constraints.computeMinimumCost selection = .ok costs →
    0 ≤ costs.fee

/-- The large-first selector conserves value when no quantity of an entry and
no coin of an output is negative, the deposit is not either, and the resolver
keeps the values of the change. -/
theorem largeFirstSelect_conserves {changeAddressResolver : ChangeAddressResolver}
    {params : InputSelectionParameters} {result : SelectionResult}
    (hassumptions : LargeFirstAssumptions params)
    (hresolver : RewritesAddresses changeAddressResolver)
    (hnonneg : ∀ utxo ∈ params.preSelectedUtxo.toList ++ params.utxo.toList,
      utxo.txOut.value.Nonneg)
    (hcoins : ∀ output ∈ params.outputs, 0 ≤ output.value.coins)
    (hdeposit : 0 ≤ params.implicitValue.requiredCoin.deposit)
    (h : largeFirstSelect changeAddressResolver params = .ok result) :
    ConservesValue params.implicitValue result.selection := by
  obtain ⟨net, afterAssets, workingUtxo, expanded, hnet, hafterAssets, hlovelace, hexpanded,
    rfl⟩ := largeFirstSelect_ok h
  obtain ⟨computed, hcomputed, hfinal, hfee, hchange⟩ := expandUtxosUntilFeeCovered_ok hexpanded
  have hnodup : (largeFirstPool params.preSelectedUtxo params.utxo).Nodup :=
    List.Nodup.of_map _ (ids_largeFirstPool hassumptions.preIds
      ((List.filter_sublist.map _).nodup hassumptions.utxoIds))
  have havailable := largeFirstPool_nonneg hnonneg
  have hpreAvailable : ∀ utxo ∈ params.preSelectedUtxo.toList,
      utxo ∈ largeFirstPool params.preSelectedUtxo params.utxo :=
    fun utxo hutxo => List.mem_append.mpr (Or.inl hutxo)
  have hassetsAvailable := (selectAssets_mem hpreAvailable hafterAssets).2
  have hworking := (selectLovelace_ok hassetsAvailable hlovelace).2
  have hcovers := workingSet_covers_asset hnodup havailable hpreAvailable hnet hafterAssets
    hlovelace
  have hrequest : ChangeRequest (outputsToValues params.outputs)
      (uniq (net.outputAssets.keys ++ params.implicitValue.mintMap.keys))
      params.implicitValue.required := by
    refine changeRequest_of_unique (outputs_nonneg hassumptions.assets hcoins) hdeposit (nodup_uniq _)
      (fun id hid => total_eq_zero_of_not_required hnet hid) ?_
    intro id hid
    simp only [mem_uniq, List.mem_append]
    exact Or.inr hid
  have hstart : ∀ tokens : List TokenKind, (∀ token ∈ tokens, ∃ id, token = .asset id) →
      CoveringSelection params.outputs params.implicitValue.required
        (largeFirstPool params.preSelectedUtxo params.utxo) tokens
        { utxoRemaining := sortUtxoByCoins
            ((largeFirstPool params.preSelectedUtxo params.utxo).filter
              (fun u => u ∉ workingUtxo.toList))
          utxoSelected := workingUtxo.toList } := by
    intro tokens htokens
    refine ⟨divides_of_workingSet hnodup hworking, ?_⟩
    intro token htoken
    obtain ⟨id, rfl⟩ := htokens token htoken
    exact hcovers id
  -- picking more entries keeps every asset covered
  let P (selection : UtxoSelection) : Prop := ∀ id, CoveringSelection params.outputs
    params.implicitValue.required (largeFirstPool params.preSelectedUtxo params.utxo) [.asset id]
    selection
  have hP := fun id => hstart [.asset id] (by simp)
  obtain ⟨final, hcovering, hadjusted⟩ := computeChangeAndAdjustForFee_ok P
    (fun selection state hselection _ id =>
      pickAdditionalLargestUtxo_covering (hselection id) havailable state) hP hcomputed
  have hdivides := (hcovering []).divides
  have hinputs : computed.inputs.Nodup := by
    rw [hadjusted.inputs]
    exact (List.nodup_append.mp (hdivides.nodup_iff.mpr hnodup)).1
  obtain ⟨_, _, hcosts⟩ := hadjusted.estimated
  have htotal := hadjusted.total_eq hrequest
    (toValues_nonneg (fun utxo hutxo => havailable utxo (hdivides.mem_of_selected hutxo)))
    (fun id => (hcovering id).covers _ (by simp)) (hassumptions.fee _ _ hcosts)
  have hvalues : (outputsToValues expanded.change).Perm computed.change := by
    rcases hchange with ⟨hcomputedNil, hexpandedNil⟩ | hresolved
    · rw [hcomputedNil, hexpandedNil]
      exact List.Perm.refl _
    · have hperm := hresolver _ _ hresolved
      rwa [outputsToValues_toChangeOutputs] at hperm
  refine conservesValue_iff_total.mpr (fun token => ?_)
  have hsorted := perm_sortedInputSet expanded.finalSelection
  rw [hfinal, JsSet.ofList_toList_of_nodup hinputs] at hsorted
  rw [hfinal, selectedAmount_perm hsorted, hfee, total_perm hvalues]
  exact htotal token

theorem largeFirstSelect_conserves_minting : ∃ result,
    largeFirstSelect keepAddresses mintingRequest = .ok result ∧
      ConservesValue mintingRequest.implicitValue result.selection := by
  have hcheck : okAnd (fun result => getCoinQuantity (outputsToValues result.selection.change) = 41)
      (largeFirstSelect keepAddresses mintingRequest) = true := by
    decide +kernel
  obtain ⟨result, hok, _⟩ := okAnd_iff.mp hcheck
  refine ⟨result, hok, largeFirstSelect_conserves ?_ rewritesAddresses_keepAddresses (by decide)
    (by decide) (by decide) hok⟩
  exact {
    preIds := by decide
    utxoIds := by decide
    assets := by decide
    fee := flatConstraints_fee_nonneg (by decide) }

/-- Two entries whose quantities of an asset cancel out. The output needs the
coin of the first one only. -/
def negativeEntryRequest : InputSelectionParameters where
  preSelectedUtxo := JsSet.ofList []
  utxo := JsSet.ofList
    [utxoOf 0 { coins := 100, assets := some (JsMap.ofList [([1], -5)]) },
      utxoOf 1 { coins := 50, assets := some (JsMap.ofList [([1], 5)]) }]
  outputs := [outputOf { coins := 40 }]
  constraints := flatConstraints 0

def plainRequest : InputSelectionParameters where
  preSelectedUtxo := JsSet.ofList []
  utxo := JsSet.ofList [utxoOf 0 { coins := 100 }]
  outputs := [outputOf { coins := 40 }]
  constraints := flatConstraints 0

def dropChange : ChangeAddressResolver := fun _ => .ok []

/-- None of the further conditions can be left out: a negative deposit, an
output with negative coin, an entry with a negative quantity or a resolver that
drops the change each break conservation. -/
theorem largeFirstSelect_violates_conservation :
    (LargeFirstAssumptions negativeDepositRequest ∧
      ∃ result, largeFirstSelect keepAddresses negativeDepositRequest = .ok result ∧
        ¬ ConservesValue negativeDepositRequest.implicitValue result.selection) ∧
    (LargeFirstAssumptions negativeOutputRequest ∧
      ∃ result, largeFirstSelect keepAddresses negativeOutputRequest = .ok result ∧
        ¬ ConservesValue negativeOutputRequest.implicitValue result.selection) ∧
    (LargeFirstAssumptions negativeEntryRequest ∧
      ∃ result, largeFirstSelect keepAddresses negativeEntryRequest = .ok result ∧
        ¬ ConservesValue negativeEntryRequest.implicitValue result.selection) ∧
    (LargeFirstAssumptions plainRequest ∧
      ∃ result, largeFirstSelect dropChange plainRequest = .ok result ∧
        ¬ ConservesValue plainRequest.implicitValue result.selection) := by
  have hfee := flatConstraints_fee_nonneg (le_refl 0)
  refine ⟨⟨⟨by decide, by decide, by decide, hfee⟩, ?_⟩, ⟨⟨by decide, by decide, by decide, hfee⟩, ?_⟩,
    ⟨⟨by decide, by decide, by decide, hfee⟩, ?_⟩, ⟨⟨by decide, by decide, by decide, hfee⟩, ?_⟩⟩
  · have hviolates : violatesConservation negativeDepositRequest.implicitValue .lovelace
        (largeFirstSelect keepAddresses negativeDepositRequest) = true := by
      decide +kernel
    exact not_conserves_of_violates hviolates
  · have hviolates : violatesConservation negativeOutputRequest.implicitValue .lovelace
        (largeFirstSelect keepAddresses negativeOutputRequest) = true := by
      decide +kernel
    exact not_conserves_of_violates hviolates
  · have hviolates : violatesConservation negativeEntryRequest.implicitValue (.asset [1])
        (largeFirstSelect keepAddresses negativeEntryRequest) = true := by
      decide +kernel
    exact not_conserves_of_violates hviolates
  · have hviolates : violatesConservation plainRequest.implicitValue .lovelace
        (largeFirstSelect dropChange plainRequest) = true := by
      decide +kernel
    exact not_conserves_of_violates hviolates

end CardanoSdk.InputSelection
