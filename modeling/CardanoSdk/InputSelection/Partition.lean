import CardanoSdk.InputSelection.DistinctInputs

/-!
The inputs and the remaining entries are the given ones, each once, and the pre-selected
ones are inputs.
-/

namespace CardanoSdk.InputSelection

open Lib

/-- The pre-selected entries are inputs, and every entry is an input or remains. -/
structure PartitionsEntries (preSelectedUtxo utxo : JsSet Utxo) (result : SelectionResult) :
    Prop where
  preSelected : ∀ entry ∈ preSelectedUtxo.toList, entry ∈ result.selection.inputs.toList
  entries : (result.selection.inputs.toList ++ result.remainingUTxO.toList).Perm
    (preSelectedUtxo.toList ++ utxo.toList)
  once : ((result.selection.inputs.toList ++ result.remainingUTxO.toList).map Utxo.id).Nodup

theorem selected_prefix_roundRobinStep (token : TokenKind → RoundRobinToken) (random : ℕ → ℚ)
    (state : RoundRobinState) (current : TokenKind) :
    state.utxoSelected <+: (roundRobinStep token random state current).utxoSelected := by
  unfold roundRobinStep
  dsimp only
  split
  · split
    · exact List.prefix_rfl
    · split
      · exact List.prefix_append _ _
      · exact List.prefix_rfl
  · exact List.prefix_rfl

theorem selected_prefix_roundRobinLoop (token : TokenKind → RoundRobinToken) (random : ℕ → ℚ)
    (passes : ℕ) (state : RoundRobinState) :
    state.utxoSelected <+: (roundRobinLoop token random passes state).utxoSelected := by
  induction passes generalizing state with
  | zero => exact List.prefix_rfl
  | succ passes ih =>
    unfold roundRobinLoop
    dsimp only
    split
    · exact List.prefix_rfl
    · rename_i current _
      set start : RoundRobinState := { state with tokenIdx :=
        if state.tokenIdx < state.tokensRemaining.length then state.tokenIdx else 0 }
      exact (selected_prefix_roundRobinStep token random start current).trans (ih _)

theorem required_prefix_roundRobinSelection (args : PreProcessedArgs) (random : ℕ → ℚ) :
    args.requiredUtxo <+: (roundRobinSelection args random).1.utxoSelected := by
  have hloop := selected_prefix_roundRobinLoop (roundRobinToken args.outputs args.implicitValue)
    random ((listTokensWithin args.uniqueTxAssetIDs).length + args.utxo.length)
    ⟨listTokensWithin args.uniqueTxAssetIDs, 0, args.requiredUtxo, args.utxo, 0⟩
  unfold roundRobinSelection
  dsimp only
  split
  · rename_i first rest hselected _
    rw [hselected] at hloop
    have hnil : args.requiredUtxo = [] := List.prefix_nil.mp hloop
    rw [hnil]
    exact List.nil_prefix
  · exact hloop

theorem selected_prefix_createPickAdditionalRandomUtxo (random : ℕ → ℚ)
    (selection : UtxoSelection) (drawn : ℕ) :
    selection.utxoSelected <+:
      (createPickAdditionalRandomUtxo random selection drawn).1.utxoSelected := by
  rcases createPickAdditionalRandomUtxo_cases random selection drawn with
    hsame | ⟨picked, _, hmoved⟩
  · rw [hsame]
  · rw [hmoved]
    exact List.prefix_append _ _

variable {params : InputSelectionParameters}

variable {random : ℕ → ℚ} {changeAddressResolver : ChangeAddressResolver} {result : SelectionResult}

theorem required_prefix_roundRobin_computed {args : PreProcessedArgs} {fuel drawn : ℕ}
    {computed : ChangeComputationResult}
    (hcomputed : computeChangeAndAdjustForFee (roundRobinChangeArgs params random args) fuel
      (roundRobinSelection args random).1 drawn = .ok computed) :
    args.requiredUtxo <+: computed.inputs := by
  obtain ⟨final, hfinal, hadjusted⟩ := computeChangeAndAdjustForFee_ok
    (fun selection => args.requiredUtxo <+: selection.utxoSelected)
    (fun selection state hselection _ => hselection.trans
      (selected_prefix_createPickAdditionalRandomUtxo random selection state))
    (required_prefix_roundRobinSelection args random) hcomputed
  rw [hadjusted.inputs]
  exact hfinal

theorem roundRobin_partitionsEntries
    (hids : ((params.preSelectedUtxo.toList ++ params.utxo.toList).map Utxo.id).Nodup)
    (h : roundRobinRandomImprove changeAddressResolver random params = .ok result) :
    PartitionsEntries params.preSelectedUtxo params.utxo result := by
  obtain ⟨_, computed, change, hcomputed, _, rfl⟩ := roundRobinRandomImprove_ok h
  have hdivides := roundRobin_computed_divides hcomputed
  have hfront := required_prefix_roundRobin_computed hcomputed
  have hnodup : (computed.inputs ++ computed.remainingUTxO).Nodup :=
    hdivides.nodup_iff.mpr (List.Nodup.of_map _ hids)
  obtain ⟨hinputs, hremaining, _⟩ := List.nodup_append.mp hnodup
  have hsorted : (sortedInputSet (JsSet.ofList computed.inputs)).toList.Perm computed.inputs := by
    have hset := perm_sortedInputSet (JsSet.ofList computed.inputs)
    rwa [JsSet.ofList_toList_of_nodup hinputs] at hset
  have hentries : ((sortedInputSet (JsSet.ofList computed.inputs)).toList ++
      (JsSet.ofList computed.remainingUTxO).toList).Perm
        (params.preSelectedUtxo.toList ++ params.utxo.toList) := by
    rw [JsSet.ofList_toList_of_nodup hremaining]
    exact (hsorted.append_right _).trans hdivides
  refine ⟨?_, hentries, (hentries.map Utxo.id).nodup_iff.mpr hids⟩
  intro entry hentry
  exact hsorted.mem_iff.mpr (hfront.subset hentry)

theorem largeFirstPool_of_distinct {preSelectedUtxo utxo : JsSet Utxo}
    (hids : ((preSelectedUtxo.toList ++ utxo.toList).map Utxo.id).Nodup) :
    largeFirstPool preSelectedUtxo utxo = preSelectedUtxo.toList ++ utxo.toList := by
  rw [List.map_append, List.nodup_append] at hids
  obtain ⟨_, _, hdisjoint⟩ := hids
  rw [largeFirstPool, availableUtxo, List.filter_eq_self.mpr]
  intro entry hentry
  simp only [Bool.not_eq_true', List.any_eq_false, Bool.and_eq_true, beq_iff_eq, not_and]
  intro pre hpre htxId hindex
  exact hdisjoint _ (List.mem_map_of_mem hpre) _ (List.mem_map_of_mem hentry)
    (Prod.ext htxId hindex)

theorem largeFirst_partitionsEntries
    (hids : ((params.preSelectedUtxo.toList ++ params.utxo.toList).map Utxo.id).Nodup)
    (h : largeFirstSelect changeAddressResolver params = .ok result) :
    PartitionsEntries params.preSelectedUtxo params.utxo result := by
  have hpool := largeFirstPool_of_distinct hids
  have hnodup : (params.preSelectedUtxo.toList ++ params.utxo.toList).Nodup :=
    List.Nodup.of_map _ hids
  obtain ⟨havailable, hpre, hremaining⟩ := largeFirst_inputs (by rw [hpool]; exact hnodup) h
  rw [hpool] at havailable
  -- with distinct ids, an entry whose `txIn` was not used was not selected
  have hunused : ∀ entry ∈ params.utxo.toList,
      (∀ input ∈ result.selection.inputs.toList, entry.txIn ≠ input.txIn) ↔
        entry ∉ result.selection.inputs.toList := by
    intro entry hentry
    constructor
    · intro hne hmem
      exact hne entry hmem rfl
    · intro hnot input hinput heq
      refine hnot ?_
      have hid : entry.id = input.id := by rw [Utxo.id, Utxo.id, heq]
      rw [idsNameObjects_of_nodup hids entry (List.mem_append_right _ hentry) input
        (havailable input hinput) hid]
      exact hinput
  have hentries : (result.selection.inputs.toList ++ result.remainingUTxO.toList).Perm
      (params.preSelectedUtxo.toList ++ params.utxo.toList) := by
    refine (List.perm_ext_iff_of_nodup ?_ hnodup).mpr ?_
    · refine List.nodup_append.mpr ⟨JsSet.nodup _, JsSet.nodup _, ?_⟩
      rintro input hinput entry hentry rfl
      obtain ⟨_, hne⟩ := (hremaining input).mp hentry
      exact hne input hinput rfl
    · intro entry
      rw [List.mem_append, hremaining]
      constructor
      · rintro (hinput | ⟨hutxo, _⟩)
        · exact havailable entry hinput
        · exact List.mem_append_right _ hutxo
      · intro hentry
        by_cases hinput : entry ∈ result.selection.inputs.toList
        · exact Or.inl hinput
        · rcases List.mem_append.mp hentry with hpreEntry | hutxo
          · exact Or.inl (hpre entry hpreEntry)
          · exact Or.inr ⟨hutxo, (hunused entry hutxo).mpr hinput⟩
  exact ⟨hpre, hentries, (hentries.map Utxo.id).nodup_iff.mpr hids⟩

/-- Whatever the random source, the outputs, the implicit value, the callbacks and
the resolver, a resolved round-robin or large-first selection partitions entries with distinct
ids and spends the pre-selected ones. -/
theorem selectors_partition_entries {params : InputSelectionParameters} (random : ℕ → ℚ)
    (changeAddressResolver : ChangeAddressResolver)
    (hids : ((params.preSelectedUtxo.toList ++ params.utxo.toList).map Utxo.id).Nodup) :
    (∀ result, roundRobinRandomImprove changeAddressResolver random params = .ok result →
      PartitionsEntries params.preSelectedUtxo params.utxo result) ∧
    (∀ result, largeFirstSelect changeAddressResolver params = .ok result →
      PartitionsEntries params.preSelectedUtxo params.utxo result) :=
  ⟨fun _ h => roundRobin_partitionsEntries hids h, fun _ h => largeFirst_partitionsEntries hids h⟩

theorem selectors_partition_entries_minting :
    (∃ result, roundRobinRandomImprove keepAddresses (fun _ => 0) mintingRequest = .ok result ∧
      PartitionsEntries mintingRequest.preSelectedUtxo mintingRequest.utxo result) ∧
    (∃ result, largeFirstSelect keepAddresses mintingRequest = .ok result ∧
      PartitionsEntries mintingRequest.preSelectedUtxo mintingRequest.utxo result) := by
  have hroundRobin : okAnd (fun result => result.selection.inputs.size = 2)
      (roundRobinRandomImprove keepAddresses (fun _ => 0) mintingRequest) = true := by
    decide +kernel
  have hlargeFirst : okAnd (fun result => result.selection.inputs.size = 2)
      (largeFirstSelect keepAddresses mintingRequest) = true := by
    decide
  obtain ⟨first, hfirst, _⟩ := okAnd_iff.mp hroundRobin
  obtain ⟨second, hsecond, _⟩ := okAnd_iff.mp hlargeFirst
  have hids : ((mintingRequest.preSelectedUtxo.toList ++ mintingRequest.utxo.toList).map
      Utxo.id).Nodup := by
    decide
  obtain ⟨hrr, hlf⟩ := selectors_partition_entries (fun _ => 0) keepAddresses hids
  exact ⟨⟨first, hfirst, hrr first hfirst⟩, ⟨second, hsecond, hlf second hsecond⟩⟩

end CardanoSdk.InputSelection
