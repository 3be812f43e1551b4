import CardanoSdk.Lib.TieredPrices
import CardanoSdk.TxConstruction.RedeemerSurvival

/-!
`minFee` of `tx-construction/src/fees`, as `computeMinimumCost` calls it. Scripts are
looked up among the inputs of the selection, so those of reference inputs outside of it
cost nothing. A script is its encoding, the size of a transaction a parameter.
-/

namespace CardanoSdk.TxConstruction

open Lib InputSelection

structure Prices where
  memory : ℚ
  steps : ℚ

/-- The parameters that `minFee` reads. -/
structure ProtocolParametersForInputSelection where
  minFeeCoefficient : ℚ
  minFeeConstant : ℚ
  prices : Prices
  minFeeRefScriptCostPerByte : Option ℚ := none

def addExUnits (totalExUnits : ExUnits) (redeemer : Redeemer) : ExUnits where
  memory := totalExUnits.memory + redeemer.memory
  steps := totalExUnits.steps + redeemer.steps

def getTotalExUnits (redeemers : List Redeemer) : ExUnits := redeemers.foldl addExUnits ⟨0, 0⟩

def refScriptRange : ℕ := 25600

def refScriptMultiplier : ℚ := 6 / 5

/-- `while (totalRefScriptsSize > 0)` -/
def addScriptRefFee (scriptRefFee : ℤ) (totalRefScriptsSize : ℕ) (base : ℚ) : ℤ :=
  if 0 < totalRefScriptsSize then
    addScriptRefFee (scriptRefFee + ⌈((min refScriptRange totalRefScriptsSize : ℕ) : ℚ) * base⌉)
      (totalRefScriptsSize - refScriptRange) (base * refScriptMultiplier)
  else scriptRefFee
termination_by totalRefScriptsSize
decreasing_by
  unfold refScriptRange
  omega

def refScriptSize (resolve : TxIn → Option TxOut) (input : TxIn) : ℕ :=
  match resolve input with
  | some output => (output.scriptReference.getD []).length
  | none => 0

def resolvedInput (resolvedInputs : List Utxo) (input : TxIn) : Option TxOut :=
  (resolvedInputs.find? fun utxo =>
    utxo.txIn.txId = input.txId ∧ utxo.txIn.index = input.index).map Utxo.txOut

def totalInputs (tx : Tx) : List TxIn := tx.body.inputs ++ tx.body.referenceInputs.getD []

def totalRefScriptsSize (resolve : TxIn → Option TxOut) (inputs : List TxIn) : ℕ :=
  (inputs.map (refScriptSize resolve)).sum

def minRefScriptFee (tx : Tx) (resolvedInputs : List Utxo) (coinsPerRefScriptByte : ℚ) : ℤ :=
  if coinsPerRefScriptByte = 0 then 0
  else addScriptRefFee 0
    (totalRefScriptsSize (resolvedInput resolvedInputs) (totalInputs tx)) coinsPerRefScriptByte

def minScriptFee (tx : Tx) (exUnitsPrice : Prices) (resolvedInputs : List Utxo)
    (coinsPerRefScriptByte : ℚ) : ℤ :=
  let scriptRefFee := minRefScriptFee tx resolvedInputs coinsPerRefScriptByte
  match tx.witness.redeemers with
  | none => scriptRefFee
  | some redeemers =>
    let totalExUnits := getTotalExUnits redeemers
    ⌈totalExUnits.steps * exUnitsPrice.steps + totalExUnits.memory * exUnitsPrice.memory⌉ +
      scriptRefFee

def minNoScriptFee (txSize : Tx → ℕ) (tx : Tx) (minFeeConstant minFeeCoefficient : ℚ) : ℤ :=
  ⌈txSize tx * minFeeCoefficient + minFeeConstant⌉

def ProtocolParametersForInputSelection.coinsPerRefScriptByte
    (pparams : ProtocolParametersForInputSelection) : ℚ :=
  pparams.minFeeRefScriptCostPerByte.getD 0

def minFee (txSize : Tx → ℕ) (pparams : ProtocolParametersForInputSelection) (tx : Tx)
    (resolvedInputs : List Utxo) : ℤ :=
  minNoScriptFee txSize tx pparams.minFeeConstant pparams.minFeeCoefficient +
    minScriptFee tx pparams.prices resolvedInputs pparams.coinsPerRefScriptByte

section Ledger

-- the outputs that can be spent or referred to
variable (ledger : TransactionId × ℕ → Option TxOut)

def ledgerOutput (input : TxIn) : Option TxOut := ledger (input.txId, input.index)

def exUnitsFee (prices : Prices) (redeemers : List Redeemer) : ℤ :=
  ⌈((redeemers.map Redeemer.steps).sum : ℕ) * prices.steps +
    ((redeemers.map Redeemer.memory).sum : ℕ) * prices.memory⌉

/-- The least fee: its size, its execution units and the scripts it refers to. -/
def ledgerMinFee (txSize : Tx → ℕ) (pparams : ProtocolParametersForInputSelection) (tx : Tx) : ℚ :=
  pparams.minFeeCoefficient * txSize tx + pparams.minFeeConstant +
    exUnitsFee pparams.prices (tx.witness.redeemers.getD []) +
    ⌊tieredPrice refScriptMultiplier refScriptRange pparams.coinsPerRefScriptByte
      (totalRefScriptsSize (ledgerOutput ledger) (totalInputs tx))⌋

end Ledger

/-- The loop adds the exact price and what is lost in each tier by rounding up. -/
theorem addScriptRefFee_eq (scriptRefFee : ℤ) (size : ℕ) (base : ℚ) :
    (addScriptRefFee scriptRefFee size base : ℚ) = scriptRefFee +
      (tieredPrice refScriptMultiplier refScriptRange base size +
        roundingUp refScriptMultiplier refScriptRange base size) := by
  have hrange : 0 < refScriptRange := by decide
  induction scriptRefFee, size, base using addScriptRefFee.induct with
  | case1 scriptRefFee size base hsize ih =>
    have hexact := @tieredPrice_step ℚ _ refScriptMultiplier base refScriptRange size hrange
    have hrounded := @roundingUp_step ℚ _ _ _ refScriptMultiplier base refScriptRange size
      hrange hsize
    rw [addScriptRefFee, if_pos hsize, ih, hexact, hrounded, Int.cast_add, excess]
    ring
  | case2 scriptRefFee size base hempty =>
    obtain rfl : size = 0 := by omega
    rw [addScriptRefFee, if_neg hempty, tieredPrice_zero, roundingUp_zero hrange]
    ring

theorem getTotalExUnits_eq (redeemers : List Redeemer) : getTotalExUnits redeemers =
    ⟨(redeemers.map Redeemer.memory).sum, (redeemers.map Redeemer.steps).sum⟩ := by
  have hfold (totalExUnits : ExUnits) : redeemers.foldl addExUnits totalExUnits =
      ⟨totalExUnits.memory + (redeemers.map Redeemer.memory).sum,
        totalExUnits.steps + (redeemers.map Redeemer.steps).sum⟩ := by
    induction redeemers generalizing totalExUnits with
    | nil => rfl
    | cons redeemer rest ih =>
      rw [List.foldl_cons, ih, List.map_cons, List.map_cons, List.sum_cons, List.sum_cons,
        ← add_assoc, ← add_assoc]
      rfl
  rw [getTotalExUnits, hfold, Nat.zero_add, Nat.zero_add]

theorem minScriptFee_eq (tx : Tx) (prices : Prices) (resolvedInputs : List Utxo) (price : ℚ) :
    minScriptFee tx prices resolvedInputs price =
      exUnitsFee prices (tx.witness.redeemers.getD []) +
        minRefScriptFee tx resolvedInputs price := by
  unfold minScriptFee
  cases tx.witness.redeemers with
  | none => simp [exUnitsFee]
  | some redeemers =>
    dsimp only
    rw [getTotalExUnits_eq]
    rfl

section Selection

variable {ledger : TransactionId × ℕ → Option TxOut} {utxos : List Utxo}

def isAmong (utxos : List Utxo) (input : TxIn) : Bool :=
  utxos.any fun utxo => utxo.txIn.txId = input.txId ∧ utxo.txIn.index = input.index

def foundScriptsSize (ledger : TransactionId × ℕ → Option TxOut) (utxos : List Utxo) (tx : Tx) : ℕ :=
  totalRefScriptsSize (ledgerOutput ledger) ((totalInputs tx).filter (isAmong utxos))

def missedScriptsSize (ledger : TransactionId × ℕ → Option TxOut) (utxos : List Utxo)
    (tx : Tx) : ℕ :=
  totalRefScriptsSize (ledgerOutput ledger) ((totalInputs tx).filter fun input =>
    !isAmong utxos input)

theorem refScriptSize_resolvedInput
    (hledger : ∀ utxo ∈ utxos, ledger utxo.id = some utxo.txOut) (input : TxIn) :
    refScriptSize (resolvedInput utxos) input =
      if isAmong utxos input then refScriptSize (ledgerOutput ledger) input else 0 := by
  unfold refScriptSize resolvedInput isAmong
  cases hfind : utxos.find? fun utxo =>
      utxo.txIn.txId = input.txId ∧ utxo.txIn.index = input.index with
  | none =>
    have hnone : ¬ (utxos.any fun utxo =>
        utxo.txIn.txId = input.txId ∧ utxo.txIn.index = input.index) = true := by
      rw [List.any_eq_true]
      rintro ⟨utxo, hutxo, hid⟩
      exact List.find?_eq_none.mp hfind utxo hutxo hid
    rw [if_neg hnone]
    rfl
  | some utxo =>
    have hutxo := List.mem_of_find?_eq_some hfind
    have hid := List.find?_some hfind
    have hsame : ledgerOutput ledger input = some utxo.txOut := by
      obtain ⟨htxId, hindex⟩ := of_decide_eq_true hid
      rw [← hledger utxo hutxo, ledgerOutput, Utxo.id, htxId, hindex]
    rw [if_pos (List.any_eq_true.mpr ⟨utxo, hutxo, hid⟩), hsame]
    rfl

theorem totalRefScriptsSize_resolvedInput
    (hledger : ∀ utxo ∈ utxos, ledger utxo.id = some utxo.txOut) (inputs : List TxIn) :
    totalRefScriptsSize (resolvedInput utxos) inputs =
      totalRefScriptsSize (ledgerOutput ledger) (inputs.filter (isAmong utxos)) := by
  unfold totalRefScriptsSize
  induction inputs with
  | nil => rfl
  | cons input rest ih =>
    rw [List.map_cons, List.sum_cons, ih, refScriptSize_resolvedInput hledger, List.filter_cons]
    split
    · rw [List.map_cons, List.sum_cons]
    · rw [Nat.zero_add]

theorem totalRefScriptsSize_split (resolve : TxIn → Option TxOut) (p : TxIn → Bool)
    (inputs : List TxIn) :
    totalRefScriptsSize resolve inputs = totalRefScriptsSize resolve (inputs.filter p) +
      totalRefScriptsSize resolve (inputs.filter fun input => !p input) := by
  unfold totalRefScriptsSize
  rw [← List.sum_append, ← List.map_append]
  exact (((List.filter_append_perm p inputs).map _).sum_eq).symm

end Selection

/-- What is found pays for what is missed: nothing is missed, scripts are free,
or rounding up every tier makes up for it. -/
def PaysForScripts (price : ℚ) (found missed : ℕ) : Prop :=
  missed = 0 ∨ price = 0 ∨
    (⌊tieredPrice refScriptMultiplier refScriptRange price (found + missed)⌋ : ℚ) ≤
      tieredPrice refScriptMultiplier refScriptRange price found +
        roundingUp refScriptMultiplier refScriptRange price found

theorem le_minRefScriptFee_iff {ledger : TransactionId × ℕ → Option TxOut} {utxos : List Utxo}
    (hledger : ∀ utxo ∈ utxos, ledger utxo.id = some utxo.txOut) (tx : Tx) (price : ℚ) :
    ⌊tieredPrice refScriptMultiplier refScriptRange price
        (totalRefScriptsSize (ledgerOutput ledger) (totalInputs tx))⌋ ≤
        minRefScriptFee tx utxos price ↔
      PaysForScripts price (foundScriptsSize ledger utxos tx)
        (missedScriptsSize ledger utxos tx) := by
  have hsize : totalRefScriptsSize (ledgerOutput ledger) (totalInputs tx) =
      foundScriptsSize ledger utxos tx + missedScriptsSize ledger utxos tx :=
    totalRefScriptsSize_split _ _ _
  rw [hsize, minRefScriptFee, totalRefScriptsSize_resolvedInput hledger]
  change _ ≤ (if price = 0 then 0 else
    addScriptRefFee 0 (foundScriptsSize ledger utxos tx) price) ↔ _
  generalize foundScriptsSize ledger utxos tx = found
  generalize missedScriptsSize ledger utxos tx = missed
  by_cases hfree : price = 0
  · rw [if_pos hfree]
    have hnothing : tieredPrice refScriptMultiplier refScriptRange price (found + missed) = 0 := by
      rw [tieredPrice, hfree]
      exact Finset.sum_eq_zero fun _ _ => zero_mul _
    rw [hnothing, Int.floor_zero]
    exact ⟨fun _ => .inr (.inl hfree), fun _ => le_rfl⟩
  · rw [if_neg hfree, ← @Int.cast_le ℚ, addScriptRefFee_eq, Int.cast_zero, zero_add]
    constructor
    · intro hpaid
      exact .inr (.inr hpaid)
    · rintro (rfl | hzero | hpaid)
      · -- the floor of the exact price is below it, and rounding up adds to it
        have hfloor := Int.floor_le (tieredPrice refScriptMultiplier refScriptRange price (found + 0))
        have hadded := @roundingUp_nonneg ℚ _ _ _ refScriptMultiplier price refScriptRange found _
        rw [Nat.add_zero] at hfloor ⊢
        linarith
      · exact absurd hzero hfree
      · exact hpaid

/-- Rounding the price of the size up does not pay for a whole coin. -/
theorem minFee_covers_iff (ledger : TransactionId × ℕ → Option TxOut) (txSize : Tx → ℕ)
    (pparams : ProtocolParametersForInputSelection) (tx : Tx) (utxos : List Utxo) :
    ledgerMinFee ledger txSize pparams tx ≤ minFee txSize pparams tx utxos ↔
      ⌊tieredPrice refScriptMultiplier refScriptRange pparams.coinsPerRefScriptByte
        (totalRefScriptsSize (ledgerOutput ledger) (totalInputs tx))⌋ ≤
        minRefScriptFee tx utxos pparams.coinsPerRefScriptByte := by
  unfold ledgerMinFee minFee minNoScriptFee
  rw [minScriptFee_eq, mul_comm pparams.minFeeCoefficient]
  generalize (txSize tx : ℚ) * pparams.minFeeCoefficient + pparams.minFeeConstant = sizeFee
  generalize exUnitsFee pparams.prices (tx.witness.redeemers.getD []) = unitsFee
  generalize minRefScriptFee tx utxos pparams.coinsPerRefScriptByte = scriptFee
  generalize ⌊tieredPrice refScriptMultiplier refScriptRange pparams.coinsPerRefScriptByte
    (totalRefScriptsSize (ledgerOutput ledger) (totalInputs tx))⌋ = ledgerFee
  have hceil := Int.le_ceil sizeFee
  have hlost := Int.ceil_lt_add_one sizeFee
  push_cast
  constructor
  · intro hcovers
    have hless : (ledgerFee : ℚ) < (scriptFee + 1 : ℤ) := by
      push_cast
      linarith
    have hcoins : ledgerFee < scriptFee + 1 := Int.cast_lt.mp hless
    omega
  · intro hpaid
    have hcoins : (ledgerFee : ℚ) ≤ scriptFee := Int.cast_le.mpr hpaid
    linarith

def Tx.withRedeemers (tx : Tx) (redeemers : Option (List Redeemer)) : Tx :=
  { tx with witness := { tx.witness with redeemers := redeemers } }

theorem computeMinimumCost_fee {localeCompare : String → String → ℤ} {fee : Tx → List Utxo → ℤ}
    {buildTx : SelectionSkeleton → Except SelectionError Tx} {txEvaluator : TxEvaluator}
    {redeemersByType : RedeemersByType} {selection : SelectionSkeleton} {costs : TxCosts} {tx : Tx}
    (hbuild : buildTx selection = .ok tx)
    (hcosts : computeMinimumCost localeCompare fee buildTx txEvaluator redeemersByType selection =
      .ok costs) :
    costs.fee = fee (tx.withRedeemers costs.redeemers) selection.inputs.toList := by
  obtain ⟨built, hbuilt, hcosts⟩ := bind_ok hcosts
  cases hbuild.symm.trans hbuilt
  split at hcosts
  · dsimp only at hcosts
    split at hcosts
    · cases hcosts
    · obtain ⟨evaluation, -, hresult⟩ := bind_ok hcosts
      cases hresult
      rfl
  · cases hcosts
    rfl

/-- Where the entries of the selection are those of the ledger, the estimated
fee reaches the least fee of the ledger exactly if the scripts on the inputs
of the selection pay for those that are missed. -/
theorem computeMinimumCost_covers_iff {ledger : TransactionId × ℕ → Option TxOut}
    {txSize : Tx → ℕ} {pparams : ProtocolParametersForInputSelection}
    {localeCompare : String → String → ℤ}
    {buildTx : SelectionSkeleton → Except SelectionError Tx} {txEvaluator : TxEvaluator}
    {redeemersByType : RedeemersByType} {selection : SelectionSkeleton} {costs : TxCosts} {tx : Tx}
    (hledger : ∀ utxo ∈ selection.inputs.toList, ledger utxo.id = some utxo.txOut)
    (hbuild : buildTx selection = .ok tx)
    (hcosts : computeMinimumCost localeCompare (minFee txSize pparams) buildTx txEvaluator
      redeemersByType selection = .ok costs) :
    ledgerMinFee ledger txSize pparams (tx.withRedeemers costs.redeemers) ≤ costs.fee ↔
      PaysForScripts pparams.coinsPerRefScriptByte
        (foundScriptsSize ledger selection.inputs.toList tx)
        (missedScriptsSize ledger selection.inputs.toList tx) := by
  rw [computeMinimumCost_fee hbuild hcosts, minFee_covers_iff,
    le_minRefScriptFee_iff hledger (tx.withRedeemers costs.redeemers)]
  rfl

def signatureScript : List UInt8 := [130, 0, 130, 0, 88, 28] ++ List.replicate 28 7

def coinEntry : Utxo :=
  ⟨1, ⟨1, List.replicate 32 1, 0⟩, { address := "a", value := { coins := 1000000 } }⟩

def scriptEntry : Utxo :=
  ⟨2, ⟨2, List.replicate 32 2, 0⟩,
    { address := "b"
      value := { coins := 2000000 }
      scriptReference := some signatureScript }⟩

def datumEntry : Utxo :=
  ⟨3, ⟨3, List.replicate 32 3, 0⟩,
    { address := "c", value := { coins := 3000000 }, datum := some [0x07] }⟩

def threeOutputs (id : TransactionId × ℕ) : Option TxOut :=
  ([coinEntry, scriptEntry, datumEntry].find? fun utxo => utxo.id = id).map Utxo.txOut

def mainnetFees : ProtocolParametersForInputSelection where
  minFeeCoefficient := 44
  minFeeConstant := 155381
  prices := ⟨577 / 10000, 721 / 10000000⟩
  minFeeRefScriptCostPerByte := some 15

/-- What was selected is spent, and another entry is referred to. -/
def referringTx (entries : List Utxo) (reference : Utxo) : Tx where
  body :=
    { inputs := entries.map Utxo.txIn
      outputs := []
      fee := 0
      referenceInputs := some [reference.txIn] }
  witness := {}

def selectionOf (entries : List Utxo) : SelectionSkeleton where
  inputs := JsSet.ofList entries
  outputs := []
  change := []
  fee := 0

def estimate (entries : List Utxo) (reference : Utxo) : Except SelectionError TxCosts :=
  computeMinimumCost compareHex (minFee (fun _ => 300) mainnetFees)
    (fun selection => .ok (referringTx selection.inputs.toList reference))
    (greedyTxEvaluator ⟨0, 0⟩) {} (selectionOf entries)

/-- The entry with the script is spent, so it is found, and the other one has a datum only. -/
theorem computeMinimumCost_covers_spent :
    ∃ costs, estimate [coinEntry, scriptEntry] datumEntry = .ok costs ∧
      ledgerMinFee threeOutputs (fun _ => 300) mainnetFees
        ((referringTx [coinEntry, scriptEntry] datumEntry).withRedeemers costs.redeemers) ≤
          costs.fee := by
  refine ⟨_, rfl, ?_⟩
  refine (@computeMinimumCost_covers_iff threeOutputs _ mainnetFees compareHex
    (fun selection => .ok (referringTx selection.inputs.toList datumEntry))
    (greedyTxEvaluator ⟨0, 0⟩) {} (selectionOf [coinEntry, scriptEntry]) _ _
    (by decide) rfl rfl).mpr ?_
  exact .inl (by decide)

/-- The script of a reference input that is not selected costs nothing. -/
theorem computeMinimumCost_misses_reference :
    ∃ costs, estimate [coinEntry] scriptEntry = .ok costs ∧
      ¬ ledgerMinFee threeOutputs (fun _ => 300) mainnetFees
        ((referringTx [coinEntry] scriptEntry).withRedeemers costs.redeemers) ≤ costs.fee := by
  refine ⟨_, rfl, ?_⟩
  have hfound : foundScriptsSize threeOutputs [coinEntry] (referringTx [coinEntry] scriptEntry) =
      0 := by
    decide
  have hmissed : missedScriptsSize threeOutputs [coinEntry] (referringTx [coinEntry] scriptEntry) =
      34 := by
    decide
  intro hcovers
  have hpaid := (le_minRefScriptFee_iff (by decide) _ _).mp ((minFee_covers_iff _ _ _ _ _).mp hcovers)
  change PaysForScripts 15
    (foundScriptsSize threeOutputs [coinEntry] (referringTx [coinEntry] scriptEntry))
    (missedScriptsSize threeOutputs [coinEntry] (referringTx [coinEntry] scriptEntry)) at hpaid
  rw [hfound, hmissed] at hpaid
  rcases hpaid with hnone | hfree | hpaid
  · exact absurd hnone (by decide)
  · exact absurd hfree (by norm_num)
  · rw [tieredPrice_zero, roundingUp_zero (by decide), tieredPrice_first (by decide)] at hpaid
    norm_num at hpaid

end CardanoSdk.TxConstruction
