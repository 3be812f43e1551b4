import CardanoSdk.TxConstruction.RedeemerIndices
import CardanoSdk.TxConstruction.InitializeTx
import CardanoSdk.InputSelection.DistinctInputs

/-!
Redeemers get their indices while the cost of a selection is estimated, and come back to
`initializeTx` in the selector's result, if the selector hands them on.
-/

namespace CardanoSdk.TxConstruction

open Lib InputSelection

/-- A witnesser adds signatures: it keeps what the body lists, and its witness
set has redeemers if it was given some. -/
structure KeepsRedeemers (witness : TxBody → Witness → Except SelectionError Tx) : Prop where
  body : ∀ body given tx, witness body given = .ok tx → SameItems body tx.body
  redeemers : ∀ body given tx, witness body given = .ok tx →
    (tx.witness.redeemers.getD [] = [] ↔ given.redeemers.getD [] = [])

/-- A returned redeemer is the requested one at the position of its item. -/
structure Survives (body : TxBody) (entry : RedeemerItem × Redeemer) (redeemer : Redeemer) :
    Prop where
  purpose : redeemer.purpose = entry.1.purpose
  index : LedgerIndex body redeemer.index entry.1
  data : redeemer.data = entry.2.data

/-- The result has the redeemers that were asked for, one for one, and the body
commits to them. -/
def RedeemersSurvive (deps : TxBuilderDependencies) (props : InitializeTxProps)
    (result : InitializeTxResult) : Prop :=
  ∃ redeemers versions, result.redeemers = some redeemers ∧
    List.Forall₂ (Survives result.body) (props.redeemersByType.getD {}).requested redeemers ∧
    props.scriptVersions = some versions ∧
    result.body.scriptIntegrityHash =
      deps.computeScriptDataHash versions (some redeemers) (props.witness.getD {}).datums

/-- The selector hands on the redeemers of its last estimate. -/
def InputSelector.ReturnsRedeemers : InputSelector → Prop
  | .roundRobin _ _ => True
  | .largeFirst _ | .greedy _ _ => False

variable {selector : InputSelector} {params : InputSelectionParameters} {result : SelectionResult}
  {redeemersByType : RedeemersByType} {body : TxBody} {executionUnits : ExUnits}
  {redeemers : List Redeemer}

/-- The redeemers handed on were computed for the inputs that are returned,
however many selections were estimated before. -/
theorem InputSelector.select_estimated (hselector : selector.ReturnsRedeemers)
    (h : selector.select params = .ok result) :
    ∃ estimated costs, params.constraints.computeMinimumCost estimated = .ok costs ∧
      result.redeemers = costs.redeemers ∧
      result.selection.inputs.toList.Perm estimated.inputs.toList := by
  cases selector with
  | roundRobin changeAddressResolver random =>
    obtain ⟨-, computed, change, hcomputed, -, rfl⟩ := roundRobinRandomImprove_ok h
    obtain ⟨picks, final, -, -, hadjusted⟩ := computeChangeAndAdjustForFee_tried hcomputed
    obtain ⟨bundles, -, hestimated⟩ := hadjusted.estimated
    refine ⟨_, _, hestimated, rfl, ?_⟩
    rw [hadjusted.inputs]
    exact perm_sortedInputSet _
  | largeFirst changeAddressResolver => cases hselector
  | greedy arith changeAddresses => cases hselector

theorem InputSelector.select_mem (hselector : selector.ReturnsRedeemers)
    (h : selector.select params = .ok result) {utxo : Utxo}
    (hutxo : utxo ∈ result.selection.inputs.toList) :
    utxo ∈ params.preSelectedUtxo.toList ++ params.utxo.toList := by
  cases selector with
  | roundRobin changeAddressResolver random =>
    obtain ⟨-, computed, change, hcomputed, -, rfl⟩ := roundRobinRandomImprove_ok h
    have hselected : utxo ∈ computed.inputs :=
      JsSet.mem_ofList.mp ((perm_sortedInputSet _).mem_iff.mp hutxo)
    exact (roundRobin_computed_divides hcomputed).subset (List.mem_append_left _ hselected)
  | largeFirst changeAddressResolver => cases hselector
  | greedy arith changeAddresses => cases hselector

theorem InputSelector.select_redeemers_none (hselector : ¬ selector.ReturnsRedeemers)
    (h : selector.select params = .ok result) : result.redeemers = none := by
  cases selector with
  | roundRobin changeAddressResolver random => exact absurd trivial hselector
  | largeFirst changeAddressResolver =>
    obtain ⟨-, -, -, -, -, -, -, -, rfl⟩ := largeFirstSelect_ok h
    rfl
  | greedy arith changeAddresses => exact (greedySelect_ok h).1

theorem computeMinimumCost_ok {localeCompare : String → String → ℤ} {minFee : Tx → List Utxo → ℤ}
    {buildTx : SelectionSkeleton → Except SelectionError Tx} {txEvaluator : TxEvaluator}
    {selection : SelectionSkeleton} {costs : TxCosts}
    (h : computeMinimumCost localeCompare minFee buildTx txEvaluator redeemersByType selection =
      .ok costs) :
    ∃ tx, buildTx selection = .ok tx ∧
      ((∃ first rest executionUnits indexed evaluation,
          tx.witness.redeemers = some (first :: rest) ∧
          assignCanonicalIndices redeemersByType tx.body
            (sortBy (sortTxIn localeCompare) (selection.inputs.toList.map Utxo.txIn))
            executionUnits = .ok indexed ∧
          costs.redeemers = some (mergeExecutionUnits indexed evaluation)) ∨
        (tx.witness.redeemers.getD [] = [] ∧ costs.redeemers = tx.witness.redeemers)) := by
  unfold computeMinimumCost at h
  obtain ⟨tx, htx, h⟩ := bind_ok h
  refine ⟨tx, htx, ?_⟩
  dsimp only at h
  split at h
  case h_1 first rest hredeemers =>
      split at h
      case h_1 => cases h
      case h_2 indexed hindexed =>
          obtain ⟨evaluation, -, h⟩ := bind_ok h
          cases h
          exact .inl ⟨first, rest, _, indexed, evaluation, hredeemers, hindexed, rfl⟩
  case h_2 hnone =>
      cases h
      refine .inr ⟨?_, rfl⟩
      cases hredeemers : tx.witness.redeemers with
      | none => rfl
      | some redeemers =>
        cases redeemers with
        | nil => rfl
        | cons first rest => exact absurd hredeemers (hnone first rest)

theorem assignCanonicalIndices_ok {sortedInputs : List TxIn}
    (h : assignCanonicalIndices redeemersByType body sortedInputs executionUnits = .ok redeemers) :
    (∀ assetId ∈ (entriesOf body.mint).map Prod.fst, 28 ≤ assetId.length) ∧
      ∀ entry ∈ entriesOf redeemersByType.withdrawal,
        entry.1.paymentCredential.type = .scriptHash := by
  unfold assignCanonicalIndices at h
  obtain ⟨spend, -, h⟩ := bind_ok h
  obtain ⟨mint, hmint, h⟩ := bind_ok h
  obtain ⟨withdrawal, hwithdrawal, -⟩ := bind_ok h
  constructor
  · intro assetId hassetId
    obtain ⟨policyIds, hpolicyIds, -⟩ := bind_ok hmint
    obtain ⟨ids, hids, -⟩ := bind_ok hpolicyIds
    obtain ⟨policyId, hpolicyId⟩ := mapM_ok_mem hids assetId hassetId
    unfold getPolicyId at hpolicyId
    split at hpolicyId
    · assumption
    · cases hpolicyId
  · intro entry hentry
    obtain ⟨redeemer, hredeemer⟩ := mapM_ok_mem hwithdrawal entry hentry
    dsimp only at hredeemer
    cases hfound : (scriptRewardAccounts body).findIdx?
        (fun candidate => candidate = entry.1) with
    | none =>
      rw [hfound] at hredeemer
      cases hredeemer
    | some index =>
      obtain ⟨hbound, hsame, -⟩ := List.findIdx?_eq_some_iff_getElem.mp hfound
      have hmem : entry.1 ∈ scriptRewardAccounts body := by
        rw [← of_decide_eq_true hsame]
        exact List.getElem_mem hbound
      have hfiltered := (perm_sortBy _ _).mem_iff.mp hmem
      exact of_decide_eq_true (List.mem_filter.mp hfiltered).2

section IncludeChangeAndInputs

variable (deps : TxBuilderDependencies) (pre : TxBodyPreInputSelection)
  (selection : SelectionSkeleton) (versions : Option (List PlutusLanguageVersion))
  (witness : Option Witness)

@[simp] theorem includeChangeAndInputs_inputs :
    (includeChangeAndInputs deps pre selection versions witness).inputs =
      selection.inputs.toList.map Utxo.txIn := by
  unfold includeChangeAndInputs
  dsimp only
  split <;> rfl

@[simp] theorem includeChangeAndInputs_mint :
    (includeChangeAndInputs deps pre selection versions witness).mint = pre.mint := by
  unfold includeChangeAndInputs
  dsimp only
  split <;> rfl

@[simp] theorem includeChangeAndInputs_withdrawals :
    (includeChangeAndInputs deps pre selection versions witness).withdrawals =
      pre.withdrawals := by
  unfold includeChangeAndInputs
  dsimp only
  split <;> rfl

@[simp] theorem includeChangeAndInputs_votingProcedures :
    (includeChangeAndInputs deps pre selection versions witness).votingProcedures =
      pre.votingProcedures := by
  unfold includeChangeAndInputs
  dsimp only
  split <;> rfl

end IncludeChangeAndInputs

theorem Survives.of_merged {requested : List (RedeemerItem × Redeemer)}
    (hall : List.Forall₂ (Canonical body executionUnits) requested redeemers)
    (evaluation : List TxEvaluation) :
    List.Forall₂ (Survives body) requested (mergeExecutionUnits redeemers evaluation) := by
  rw [mergeExecutionUnits, List.forall₂_map_right_iff]
  apply hall.imp
  intro entry redeemer hcanonical
  split <;> exact ⟨hcanonical.purpose, hcanonical.index, hcanonical.data⟩

section Estimates

variable {deps : TxBuilderDependencies} {props : InitializeTxProps}
  (hwitness : KeepsRedeemers deps.witness) {estimated : SelectionSkeleton} {costs : TxCosts}
  (hcosts : (defaultSelectionConstraints deps props).computeMinimumCost estimated = .ok costs)

include hwitness hcosts

theorem estimated_redeemers_empty (hgiven : (props.witness.getD {}).redeemers.getD [] = []) :
    costs.redeemers.getD [] = [] := by
  obtain ⟨tx, htx, hcases⟩ := computeMinimumCost_ok hcosts
  have hkept := hwitness.redeemers _ _ _ htx
  rcases hcases with ⟨first, rest, -, -, -, hredeemers, -⟩ | ⟨hempty, hcostsRedeemers⟩
  · rw [← hkept, hredeemers] at hgiven
    cases hgiven
  · rw [hcostsRedeemers, hempty]

/-- With redeemers in it, an estimate returns those requested, indexed in every
body that lists the same items as the estimated one. -/
theorem estimated_redeemers_survive (hgiven : (props.witness.getD {}).redeemers.getD [] ≠ [])
    {body : TxBody} (hcollation : CollatesAsBytes deps.localeCompare body.inputs)
    (hinputs : body.inputs.Perm (estimated.inputs.toList.map Utxo.txIn))
    (hmint : body.mint = (bodyPreInputSelection deps props).mint)
    (hwithdrawals : body.withdrawals = (bodyPreInputSelection deps props).withdrawals)
    (hvotes : body.votingProcedures = (bodyPreInputSelection deps props).votingProcedures)
    (hkeys : ∀ entry ∈ (props.redeemersByType.getD {}).requested, Occurs body entry.1)
    (hcredentials : (body.rewardAccounts.map RewardAccount.paymentCredential).Nodup) :
    ∃ redeemers, costs.redeemers = some redeemers ∧
      List.Forall₂ (Survives body) (props.redeemersByType.getD {}).requested redeemers := by
  obtain ⟨tx, htx, hcases⟩ := computeMinimumCost_ok hcosts
  have hkept := hwitness.redeemers _ _ _ htx
  have hlisted := hwitness.body _ _ _ htx
  rcases hcases with ⟨-, -, executionUnits, indexed, evaluation, -, hindexed, hredeemers⟩ |
    ⟨hempty, -⟩
  · refine ⟨_, hredeemers, ?_⟩
    -- the estimate reads the inputs off the selection, not off the witnessed body
    let indexedBody : TxBody := { tx.body with inputs := estimated.inputs.toList.map Utxo.txIn }
    have hsame : SameItems body indexedBody := by
      obtain ⟨-, hm, hw, hv⟩ := hlisted
      simp only [includeChangeAndInputs_mint, includeChangeAndInputs_withdrawals,
        includeChangeAndInputs_votingProcedures] at hm hw hv
      exact ⟨hinputs, hmint ▸ hm, hwithdrawals ▸ hw, hvotes ▸ hv⟩
    obtain ⟨hwhole, hscript⟩ := assignCanonicalIndices_ok hindexed
    have hproper : ProperBody indexedBody :=
      ⟨hwhole, (hsame.rewardAccounts.map _).nodup_iff.mp hcredentials⟩
    obtain ⟨redeemers, hassigned, hall⟩ := assignCanonicalIndices_canonical executionUnits
      (hcollation.of_subset hinputs.symm.subset) hproper
      ⟨fun entry hentry => (hkeys entry hentry).of_sameItems hsame, hscript⟩
    cases hindexed.symm.trans hassigned
    apply (Survives.of_merged hall evaluation).imp
    intro entry redeemer hsurvives
    exact { hsurvives with index := hsurvives.index.of_sameItems hsame }
  · exact absurd (hkept.mp hempty) hgiven

end Estimates

/-- What can be spent: the inputs that are asked for, and those of the wallet. -/
def spendableInputs (deps : TxBuilderDependencies) (props : InitializeTxProps) : List TxIn :=
  ((props.inputs.getD (JsSet.ofList [])).toList ++ deps.utxoAvailable).map Utxo.txIn

/-- In a locale that orders the ids as their bytes, redeemers survive the selection of
inputs exactly with a selector that hands them on, a witness that already has redeemers
to be replaced, and script versions to compute the hash for. -/
theorem initializeTx_redeemers_survive (deps : TxBuilderDependencies)
    (props : InitializeTxProps) (result : InitializeTxResult)
    (hwitness : KeepsRedeemers deps.witness)
    (hcollation : CollatesAsBytes deps.localeCompare (spendableInputs deps props))
    (hrequested : (props.redeemersByType.getD {}).requested ≠ [])
    (hok : initializeTx deps props = .ok result)
    (hkeys : ∀ entry ∈ (props.redeemersByType.getD {}).requested, Occurs result.body entry.1)
    (hcredentials : (result.body.rewardAccounts.map RewardAccount.paymentCredential).Nodup) :
    RedeemersSurvive deps props result ↔
      deps.selector.ReturnsRedeemers ∧ (props.witness.getD {}).redeemers.getD [] ≠ [] ∧
        props.scriptVersions ≠ none := by
  unfold initializeTx initializeTxWith at hok
  obtain ⟨selected, hselected, hok⟩ := bind_ok hok
  cases hok
  constructor
  · rintro ⟨redeemers, versions, hredeemers, hall, hversions, -⟩
    have hselector : deps.selector.ReturnsRedeemers := by
      by_contra hdrops
      rw [InputSelector.select_redeemers_none hdrops hselected] at hredeemers
      cases hredeemers
    obtain ⟨estimated, costs, hcosts, hcostsRedeemers, -⟩ :=
      InputSelector.select_estimated hselector hselected
    refine ⟨hselector, ?_, by simp [hversions]⟩
    intro hgiven
    have hempty := estimated_redeemers_empty hwitness hcosts hgiven
    have hreturned : selected.redeemers = some redeemers := hredeemers
    rw [← hcostsRedeemers, hreturned] at hempty
    cases hempty
    exact hrequested (List.forall₂_nil_right_iff.mp hall)
  · rintro ⟨hselector, hgiven, hversions⟩
    obtain ⟨versions, hversions⟩ := Option.ne_none_iff_exists'.mp hversions
    obtain ⟨estimated, costs, hcosts, hcostsRedeemers, hinputs⟩ :=
      InputSelector.select_estimated hselector hselected
    have hspendable :
        selected.selection.inputs.toList.map Utxo.txIn ⊆ spendableInputs deps props := by
      refine List.map_subset _ fun utxo hutxo => ?_
      have hmem := InputSelector.select_mem hselector hselected hutxo
      rwa [List.mem_append, selectionParameters, JsSet.mem_ofList, ← List.mem_append] at hmem
    obtain ⟨redeemers, hredeemers, hall⟩ := estimated_redeemers_survive hwitness hcosts hgiven
      (hcollation.of_subset (by simpa using hspendable)) (by simpa using hinputs.map Utxo.txIn)
      (by simp) (by simp) (by simp) hkeys hcredentials
    have hreturned : selected.redeemers = some redeemers := hcostsRedeemers.trans hredeemers
    refine ⟨redeemers, versions, hreturned, hall, hversions, ?_⟩
    simp only [includeChangeAndInputs, hversions, hreturned]

def oneEntryWallet (selector : InputSelector) : TxBuilderDependencies where
  localeCompare := compareHex
  inputSelector := some selector
  staticChangeAddressResolver := fun selection => .ok selection.change
  random := fun _ => 0
  utxoAvailable := [⟨1, ⟨1, List.replicate 32 1, 0⟩, { address := "a", value := { coins := 1000 } }⟩]
  rewardAccounts := []
  protocolVersionMajor := 10
  depositParams := { stakeKeyDeposit := 2 }
  tipSlot := 0
  slotLength := 1
  maxTxSize := 16384
  maxExecutionUnitsPerTransaction := ⟨100, 200⟩
  witness := fun body witness => .ok ⟨body, witness⟩
  minFee := fun _ _ => 10
  txSize := fun _ => 300
  tokenBundleSizeExceedsLimit := fun _ => false
  computeMinimumCoinQuantity := fun _ => 1
  computeAuxiliaryDataHash := fun _ => []
  computeScriptDataHash := fun _ redeemers _ => redeemers.map (fun rs => rs.flatMap Redeemer.data)

def scriptedMint : InitializeTxProps where
  outputs := some [{ address := "b", value :=
    { coins := 100, assets := some (JsMap.ofList [(List.replicate 28 7, 5)]) } }]
  mint := some (JsMap.ofList [(List.replicate 28 7, 5)])
  witness := some { redeemers := some [⟨.mint, 9, [42], 0, 0⟩] }
  redeemersByType := some
    { mint := some (JsMap.ofList [(List.replicate 28 7, ⟨.mint, 9, [42], 0, 0⟩)]) }
  scriptVersions := some [.v2]

theorem keepsRedeemers_oneEntryWallet (selector : InputSelector) :
    KeepsRedeemers (oneEntryWallet selector).witness := by
  constructor
  · rintro body given tx ⟨⟩
    exact ⟨.refl _, .refl _, .refl _, .refl _⟩
  · rintro body given tx ⟨⟩
    exact Iff.rfl

theorem initializeTx_redeemers_survive_minting :
    let deps := oneEntryWallet (.roundRobin (fun selection => .ok selection.change) (fun _ => 0))
    ∃ result, initializeTx deps scriptedMint = .ok result ∧
      RedeemersSurvive deps scriptedMint result := by
  intro deps
  have hruns : okAnd (fun result => List.replicate 28 7 ∈ result.body.policyIds ∧
      result.body.rewardAccounts = []) (initializeTx deps scriptedMint) = true := by
    decide +kernel
  obtain ⟨result, hok, hitems⟩ := okAnd_iff.mp hruns
  obtain ⟨hpolicy, haccounts⟩ := of_decide_eq_true hitems
  refine ⟨result, hok, ?_⟩
  apply (initializeTx_redeemers_survive deps scriptedMint result
    (keepsRedeemers_oneEntryWallet _) (collatesAsBytes_compareHex _) (by decide) hok ?_
    (by simp [haccounts])).mpr
  · exact ⟨trivial, by decide, by decide⟩
  · intro entry hentry
    rcases List.mem_singleton.mp hentry with rfl
    exact hpolicy

/-- The large-first selector leaves the same transaction without its redeemer. -/
theorem largeFirst_drops_redeemers :
    let deps := oneEntryWallet (.largeFirst (fun selection => .ok selection.change))
    ∃ result, initializeTx deps scriptedMint = .ok result ∧
      (∀ entry ∈ (scriptedMint.redeemersByType.getD {}).requested, Occurs result.body entry.1) ∧
      ¬ RedeemersSurvive deps scriptedMint result := by
  intro deps
  have hruns : okAnd (fun result => List.replicate 28 7 ∈ result.body.policyIds ∧
      result.redeemers = none) (initializeTx deps scriptedMint) = true := by
    decide
  obtain ⟨result, hok, hitems⟩ := okAnd_iff.mp hruns
  obtain ⟨hpolicy, hnone⟩ := of_decide_eq_true hitems
  refine ⟨result, hok, ?_, ?_⟩
  · intro entry hentry
    rcases List.mem_singleton.mp hentry with rfl
    exact hpolicy
  · rintro ⟨redeemers, -, hredeemers, -⟩
    rw [hnone] at hredeemers
    cases hredeemers

end CardanoSdk.TxConstruction
