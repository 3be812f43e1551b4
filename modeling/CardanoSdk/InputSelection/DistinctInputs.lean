import CardanoSdk.InputSelection.LargeFirstConservation
import CardanoSdk.InputSelection.GreedyConservation

/-!
When no input is spent twice. The ledger identifies an entry by its id, the selectors tell
entries apart by object identity, each in its own way.
-/

namespace CardanoSdk.InputSelection

open Lib

structure SpendsOnce (result : SelectionResult) : Prop where
  inputs : (result.selection.inputs.toList.map Utxo.id).Nodup
  remaining : ∀ utxo ∈ result.remainingUTxO.toList, ∀ input ∈ result.selection.inputs.toList,
    utxo.id ≠ input.id

def IdsNameObjects (available : List Utxo) : Prop :=
  ∀ u ∈ available, ∀ v ∈ available, u.id = v.id → u = v

variable {available : List Utxo} {random : ℕ → ℚ} {arith : ShareArithmetic}
  {changeAddresses : JsMap PaymentAddress ℚ}

theorem idsNameObjects_of_nodup (h : (available.map Utxo.id).Nodup) : IdsNameObjects available :=
  fun _ hu _ hv heq => List.inj_on_of_nodup_map h hu hv heq

theorem ids_nodup_of_subset {inputs : List Utxo} (h : IdsNameObjects available)
    (hinputs : inputs.Nodup) (hsubset : ∀ utxo ∈ inputs, utxo ∈ available) :
    (inputs.map Utxo.id).Nodup :=
  hinputs.map_on (fun u hu v hv heq => h u (hsubset u hu) v (hsubset v hv) heq)

theorem roundRobinLoop_divides {token : TokenKind → RoundRobinToken}
    (htoken : ∀ kind remaining, (token kind).filterUtxo remaining ⊆ remaining) {random : ℕ → ℚ}
    {available : List Utxo} (passes : ℕ) {state : RoundRobinState}
    (h : UtxoSelection.Divides ⟨state.utxoSelected, state.utxoRemaining⟩ available) :
    UtxoSelection.Divides
      ⟨(roundRobinLoop token random passes state).utxoSelected,
        (roundRobinLoop token random passes state).utxoRemaining⟩ available := by
  induction passes generalizing state with
  | zero => exact h
  | succ passes ih =>
    unfold roundRobinLoop
    dsimp only
    split
    · exact h
    · exact ih (roundRobinStep_divides htoken h)

theorem roundRobinSelection_divides (args : PreProcessedArgs) (random : ℕ → ℚ) :
    (roundRobinSelection args random).1.Divides (args.requiredUtxo ++ args.utxo) := by
  have hstart : UtxoSelection.Divides ⟨args.requiredUtxo, args.utxo⟩
      (args.requiredUtxo ++ args.utxo) := List.Perm.refl _
  have hfinal := @roundRobinLoop_divides (roundRobinToken args.outputs args.implicitValue)
    (fun kind remaining utxo hutxo => mem_filterUtxo hutxo) random
    (args.requiredUtxo ++ args.utxo)
    ((listTokensWithin args.uniqueTxAssetIDs).length + args.utxo.length)
    ⟨listTokensWithin args.uniqueTxAssetIDs, 0, args.requiredUtxo, args.utxo, 0⟩ hstart
  unfold roundRobinSelection
  dsimp only
  split
  · rename_i first rest hselected hremaining
    rw [hselected, hremaining] at hfinal
    exact hfinal
  · exact hfinal

variable {params : InputSelectionParameters} {result : SelectionResult}
  {changeAddressResolver : ChangeAddressResolver}

theorem roundRobin_computed_divides {args : PreProcessedArgs} {fuel drawn : ℕ}
    {computed : ChangeComputationResult}
    (hcomputed : computeChangeAndAdjustForFee (roundRobinChangeArgs params random args) fuel
      (roundRobinSelection args random).1 drawn = .ok computed) :
    (computed.inputs ++ computed.remainingUTxO).Perm (args.requiredUtxo ++ args.utxo) := by
  have hpick : ∀ selection state, selection.Divides (args.requiredUtxo ++ args.utxo) →
      selection.utxoRemaining ≠ [] →
      ((roundRobinChangeArgs params random args).pickAdditionalUtxo selection state).1.Divides
        (args.requiredUtxo ++ args.utxo) := by
    intro selection state hselection _
    rcases createPickAdditionalRandomUtxo_cases random selection state with
      hsame | ⟨picked, hpicked, hmoved⟩
    · rw [roundRobinChangeArgs, hsame]
      exact hselection
    · rw [roundRobinChangeArgs, hmoved]
      exact hselection.move hpicked
  obtain ⟨final, hfinal, hadjusted⟩ := computeChangeAndAdjustForFee_ok
    (fun selection => selection.Divides (args.requiredUtxo ++ args.utxo)) hpick
    (roundRobinSelection_divides args random) hcomputed
  rw [hadjusted.inputs, hadjusted.remaining]
  exact hfinal

theorem roundRobin_spendsOnce
    (hids : ((params.preSelectedUtxo.toList ++ params.utxo.toList).map Utxo.id).Nodup)
    (h : roundRobinRandomImprove changeAddressResolver random params = .ok result) :
    SpendsOnce result := by
  obtain ⟨_, computed, change, hcomputed, _, rfl⟩ := roundRobinRandomImprove_ok h
  have hperm := roundRobin_computed_divides hcomputed
  have hdivided : ((computed.inputs ++ computed.remainingUTxO).map Utxo.id).Nodup :=
    (hperm.map Utxo.id).nodup_iff.mpr hids
  rw [List.map_append, List.nodup_append] at hdivided
  obtain ⟨hinputs, _, hdisjoint⟩ := hdivided
  have hsorted := perm_sortedInputSet (JsSet.ofList computed.inputs)
  have hinputsNodup : computed.inputs.Nodup := List.Nodup.of_map _ hinputs
  rw [JsSet.ofList_toList_of_nodup hinputsNodup] at hsorted
  refine ⟨(hsorted.map Utxo.id).nodup_iff.mpr hinputs, ?_⟩
  intro utxo hutxo input hinput heq
  have hmem : utxo ∈ computed.remainingUTxO := JsSet.mem_ofList.mp hutxo
  have hmemInput : input ∈ computed.inputs := hsorted.mem_iff.mp hinput
  exact hdisjoint _ (List.mem_map_of_mem hmemInput) _ (List.mem_map_of_mem hmem) heq.symm

theorem greedySelect_ok (h : greedySelect arith changeAddresses params = .ok result) :
    result.redeemers = none ∧ result.remainingUTxO.toList = [] ∧ result.selection.inputs =
      sortedInputSet (JsSet.ofList (params.utxo.toList ++ params.preSelectedUtxo.toList)) := by
  unfold greedySelect at h
  dsimp only at h
  split at h
  · cases h
  · obtain ⟨adjusted, _, h⟩ := bind_ok h
    split at h
    · cases h
    · obtain ⟨limit, _, h⟩ := bind_ok h
      split at h
      · cases h
      · cases h
        exact ⟨rfl, rfl, rfl⟩

theorem greedy_spendsOnce
    (hids : IdsNameObjects (params.preSelectedUtxo.toList ++ params.utxo.toList))
    (h : greedySelect arith changeAddresses params = .ok result) : SpendsOnce result := by
  obtain ⟨-, hremaining, hinputs⟩ := greedySelect_ok h
  refine ⟨?_, by simp [hremaining]⟩
  rw [hinputs]
  apply ids_nodup_of_subset hids (JsSet.nodup _)
  intro utxo hutxo
  have hmem := (perm_sortedInputSet _).mem_iff.mp hutxo
  have hjoined : utxo ∈ params.utxo.toList ++ params.preSelectedUtxo.toList :=
    JsSet.mem_ofList.mp hmem
  rcases List.mem_append.mp hjoined with hutxo | hpre
  · exact List.mem_append.mpr (Or.inr hutxo)
  · exact List.mem_append.mpr (Or.inl hpre)

/-- What the large-first selector needs: distinct ids among the pre-selected
entries and among the others, and for an entry that repeats a pre-selected id,
the same `txIn` object. -/
structure LargeFirstDistinct (preSelected utxo : List Utxo) : Prop where
  pre : (preSelected.map Utxo.id).Nodup
  available : ((availableUtxo preSelected utxo).map Utxo.id).Nodup
  shared : ∀ u ∈ utxo, ∀ pre ∈ preSelected, u.id = pre.id → u.txIn = pre.txIn

theorem largeFirst_inputs (hnodup : (largeFirstPool params.preSelectedUtxo params.utxo).Nodup)
    (h : largeFirstSelect changeAddressResolver params = .ok result) :
    (∀ utxo ∈ result.selection.inputs.toList, utxo ∈ largeFirstPool params.preSelectedUtxo params.utxo) ∧
      (∀ utxo ∈ params.preSelectedUtxo.toList, utxo ∈ result.selection.inputs.toList) ∧
      ∀ utxo, utxo ∈ result.remainingUTxO.toList ↔ utxo ∈ params.utxo.toList ∧
        ∀ input ∈ result.selection.inputs.toList, utxo.txIn ≠ input.txIn := by
  obtain ⟨_, afterAssets, workingUtxo, expanded, _, hafterAssets, hlovelace, hexpanded, rfl⟩ :=
    largeFirstSelect_ok h
  obtain ⟨computed, hcomputed, hfinal, _, _⟩ := expandUtxosUntilFeeCovered_ok hexpanded
  obtain ⟨hpre, hassetsAvailable⟩ := selectAssets_mem
    (fun utxo hutxo => List.mem_append.mpr (Or.inl hutxo)) hafterAssets
  obtain ⟨hgrow, hworking⟩ := selectLovelace_ok hassetsAvailable hlovelace
  obtain ⟨final, ⟨hdivides, hselected⟩, hadjusted⟩ := computeChangeAndAdjustForFee_ok
    (fun selection => selection.Divides (largeFirstPool params.preSelectedUtxo params.utxo) ∧
      workingUtxo.toList ⊆ selection.utxoSelected)
    (by
      intro selection state hselection _
      refine ⟨pickAdditionalLargestUtxo_divides hselection.1 state, ?_⟩
      rcases pickAdditionalLargestUtxo_cases selection state with
        ⟨_, hsame⟩ | ⟨picked, rest, _, hnew⟩
      · rw [largeFirstChangeArgs, hsame]
        exact hselection.2
      · rw [largeFirstChangeArgs, hnew]
        exact fun utxo hutxo => List.mem_append.mpr (Or.inl (hselection.2 hutxo)))
    ⟨divides_of_workingSet hnodup hworking, List.Subset.refl _⟩ hcomputed
  have hmem : ∀ utxo, utxo ∈ (sortedInputSet expanded.finalSelection).toList ↔
      utxo ∈ final.utxoSelected := by
    intro utxo
    rw [(perm_sortedInputSet _).mem_iff, hfinal, JsSet.mem_ofList, hadjusted.inputs]
  refine ⟨?_, ?_, ?_⟩
  · intro utxo hutxo
    exact hdivides.mem_of_selected ((hmem utxo).mp hutxo)
  · intro utxo hutxo
    exact (hmem utxo).mpr (hselected (hgrow utxo (hpre utxo hutxo)))
  · intro utxo
    simp only [computeRemainingUtxo, JsSet.mem_ofList, List.mem_filter, List.mem_map,
      decide_eq_true_eq, not_exists, not_and]
    constructor
    · rintro ⟨hutxo, hunused⟩
      refine ⟨hutxo, fun input hinput heq => hunused input ?_ heq.symm⟩
      rw [hfinal, JsSet.mem_ofList, hadjusted.inputs]
      exact (hmem input).mp hinput
    · rintro ⟨hutxo, hunused⟩
      refine ⟨hutxo, fun input hinput heq => hunused input ?_ heq.symm⟩
      rw [hfinal, JsSet.mem_ofList, hadjusted.inputs] at hinput
      exact (hmem input).mpr hinput

theorem largeFirst_spendsOnce
    (hdistinct : LargeFirstDistinct params.preSelectedUtxo.toList params.utxo.toList)
    (h : largeFirstSelect changeAddressResolver params = .ok result) : SpendsOnce result := by
  have hids := ids_largeFirstPool hdistinct.pre hdistinct.available
  obtain ⟨havailable, _, hremaining⟩ := largeFirst_inputs (List.Nodup.of_map _ hids) h
  refine ⟨ids_nodup_of_subset (idsNameObjects_of_nodup hids) (JsSet.nodup _) havailable, ?_⟩
  intro utxo hutxo input hinput heq
  obtain ⟨hmem, hunused⟩ := (hremaining utxo).mp hutxo
  rcases List.mem_append.mp (havailable input hinput) with hpre | hother
  · exact hunused input hinput (hdistinct.shared utxo hmem input hpre heq)
  · -- an entry with the id of an available one is itself available
    have hutxoAvailable : utxo ∈ availableUtxo params.preSelectedUtxo.toList params.utxo.toList := by
      refine List.mem_filter.mpr ⟨hmem, ?_⟩
      simp only [Bool.not_eq_true', List.any_eq_false, Bool.and_eq_true, beq_iff_eq, not_and]
      intro pre hpre htxId hindex
      refine ids_availableUtxo_disjoint hother pre hpre ?_
      rw [← heq]
      exact Prod.ext htxId hindex
    have hsame : utxo = input := idsNameObjects_of_nodup hdistinct.available utxo hutxoAvailable
      input hother heq
    exact hunused input hinput (by rw [hsame])

end CardanoSdk.InputSelection
