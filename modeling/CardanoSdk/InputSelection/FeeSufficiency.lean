import CardanoSdk.InputSelection.DistinctInputs

/-!
The fee is estimated on change bundles that still hold it. The estimate covers every
monotone cost where the bundles computed again without it arise by removing, merging and
lowering.
-/

namespace CardanoSdk.InputSelection

open Lib

/-- One output that holds the quantities of two, at the address of the first. -/
def TxOut.merge (first second : TxOut) : TxOut :=
  { first with value := coalesceValueQuantities [first.value, second.value] }

def TxOut.withCoins (output : TxOut) (coins : ℤ) : TxOut :=
  { output with value := { output.value with coins := coins } }

/-- The changes of the change that make no transaction dearer. The merged
output takes the place of either of the two. -/
inductive DegradeStep : List TxOut → List TxOut → Prop
  | remove (before after : List TxOut) (output : TxOut) :
      DegradeStep (before ++ output :: after) (before ++ after)
  | lower (before after : List TxOut) (output : TxOut) (coins : ℤ)
      (hcoins : coins ≤ output.value.coins) :
      DegradeStep (before ++ output :: after) (before ++ output.withCoins coins :: after)
  | mergeLeft (before between after : List TxOut) (first second merged : TxOut)
      (hmerged : merged = first.merge second ∨ merged = second.merge first) :
      DegradeStep (before ++ first :: (between ++ second :: after))
        (before ++ merged :: (between ++ after))
  | mergeRight (before between after : List TxOut) (first second merged : TxOut)
      (hmerged : merged = first.merge second ∨ merged = second.merge first) :
      DegradeStep (before ++ first :: (between ++ second :: after))
        (before ++ (between ++ merged :: after))

abbrev Degrades : List TxOut → List TxOut → Prop := Relation.ReflTransGen DegradeStep

abbrev CostCallback := SelectionSkeleton → Except SelectionError TxCosts

/-- A fee callback that never asks for more when the change degrades or the
fee field falls; one that rejects counts as asking for everything. Fees are
amounts the fee field can hold. -/
structure MonotoneCost (cost : CostCallback) : Prop where
  nonneg : ∀ selection costs, cost selection = .ok costs → 0 ≤ costs.fee
  fits : ∀ selection costs, cost selection = .ok costs → costs.fee ≤ maxU64
  degrade : ∀ selection change costs, DegradeStep selection.change change →
    cost selection = .ok costs →
    ∃ costs', cost { selection with change := change } = .ok costs' ∧ costs'.fee ≤ costs.fee
  lowerFee : ∀ selection fee costs, fee ≤ selection.fee → cost selection = .ok costs →
    ∃ costs', cost { selection with fee := fee } = .ok costs' ∧ costs'.fee ≤ costs.fee

variable {cost : CostCallback} {change : List TxOut} {final : UtxoSelection} {picks : ℕ}

theorem MonotoneCost.degrades (h : MonotoneCost cost) (selection : SelectionSkeleton)
    {costs : TxCosts} (hchange : Degrades selection.change change)
    (hcost : cost selection = .ok costs) :
    ∃ costs', cost { selection with change := change } = .ok costs' ∧
      costs'.fee ≤ costs.fee := by
  induction hchange with
  | refl => exact ⟨costs, hcost, le_refl _⟩
  | tail _ hstep ih =>
    obtain ⟨middle, hmiddle, hle⟩ := ih
    obtain ⟨last, hlast, hle'⟩ := h.degrade _ _ _ hstep hmiddle
    exact ⟨last, hlast, hle'.trans hle⟩

/-- What a selector calls `computeChangeAndAdjustForFee` with. -/
structure FeeAdjustment (σ : Type) where
  args : ChangeComputationArgs σ
  outputs : List TxOut
  selection : UtxoSelection
  state : σ

variable {σ : Type}

def FeeAdjustment.argsWith (call : FeeAdjustment σ) (cost : CostCallback) :
    ChangeComputationArgs σ :=
  { call.args with
    estimateTxCosts := fun utxos changeValues => cost {
      change := toChangeOutputs changeValues
      fee := maxU64
      inputs := JsSet.ofList utxos
      outputs := call.outputs } }

def FeeAdjustment.run (call : FeeAdjustment σ) (cost : CostCallback) :
    Except SelectionError ChangeComputationResult :=
  computeChangeAndAdjustForFee (call.argsWith cost) (call.selection.utxoRemaining.length + 1)
    call.selection call.state

def CoversCost (cost : CostCallback) (outputs : List TxOut) (result : ChangeComputationResult) :
    Prop :=
  ∃ costs, cost {
      change := toChangeOutputs result.change
      fee := result.fee
      inputs := JsSet.ofList result.inputs
      outputs := outputs } = .ok costs ∧ costs.fee ≤ result.fee

def FeeAdjustment.FeeSufficient (call : FeeAdjustment σ) : Prop :=
  ∀ cost, MonotoneCost cost → ∀ result, call.run cost = .ok result →
    CoversCost cost call.outputs result

/-- The selected coin pays for the outputs, the deposit and this fee. -/
def Affordable (args : ChangeComputationArgs σ) (utxoSelected : List Utxo) (fee : ℤ) : Prop :=
  getCoinQuantity args.outputValues + fee + args.implicitValue.implicitCoin.deposit ≤
    getCoinQuantity (toValues utxoSelected) + args.implicitValue.implicitCoin.input

/-- For every selection that may be tried and every fee it affords, the change
with the fee taken out is a degraded form of the change that still holds it. -/
def FeeAdjustment.ChangeShrinks (call : FeeAdjustment σ) : Prop :=
  ∀ picks final, picks ≤ call.selection.utxoRemaining.length →
    Tried call.args call.selection call.state picks final →
    ∀ fee withoutFee withFee, 0 ≤ fee → Affordable call.args final.utxoSelected fee →
      BundlesAccepted call.args final.utxoSelected 0 withoutFee →
      BundlesAccepted call.args final.utxoSelected fee withFee →
      Degrades (toChangeOutputs withoutFee) (toChangeOutputs withFee)

variable {selection : UtxoSelection} {args : ChangeComputationArgs σ} {state : σ} {fee : ℤ}

theorem FeeAdjustment.tried_argsWith {call : FeeAdjustment σ}
    (h : Tried (call.argsWith cost) selection state picks final) :
    Tried call.args selection state picks final := by
  induction h with
  | here selection state => exact Tried.here selection state
  | pick hremaining hretry _ ih => exact Tried.pick hremaining hretry ih

theorem FeeAdjustment.feeSufficient_of_shrinks {call : FeeAdjustment σ}
    (h : call.ChangeShrinks) : call.FeeSufficient := by
  intro cost hcost result hrun
  obtain ⟨picks, final, hpicks, htried, hadjusted⟩ := computeChangeAndAdjustForFee_tried hrun
  obtain ⟨withoutFee, haccepted, hestimate⟩ := hadjusted.estimated
  have hdegrades := h picks final (by omega) (call.tried_argsWith htried) result.fee
    withoutFee result.change (hcost.nonneg _ _ hestimate) hadjusted.affordable haccepted
    hadjusted.change
  obtain ⟨degraded, hdegraded, hle⟩ := hcost.degrades _ hdegrades hestimate
  obtain ⟨lowered, hlowered, hle'⟩ := hcost.lowerFee _ result.fee _
    (hcost.fits _ _ hestimate) hdegraded
  refine ⟨lowered, ?_, hle'.trans hle⟩
  rw [hadjusted.inputs]
  exact hlowered

theorem computeChangeAndAdjustForFee_here {fuel : ℕ} {withoutFee withFee : List Value}
    (hwithout : BundlesAccepted args selection.utxoSelected 0 withoutFee)
    (hcost : args.estimateTxCosts selection.utxoSelected withoutFee = .ok { fee := fee })
    (haffordable : Affordable args selection.utxoSelected fee)
    (hwith : BundlesAccepted args selection.utxoSelected fee withFee) :
    computeChangeAndAdjustForFee args (fuel + 1) selection state = .ok {
      change := withFee
      fee := fee
      inputs := selection.utxoSelected
      redeemers := none
      remainingUTxO := selection.utxoRemaining } := by
  obtain ⟨hbundles, hvalid⟩ := hwithout
  obtain ⟨hbundles', hvalid'⟩ := hwith
  unfold computeChangeAndAdjustForFee
  simp only [hbundles, hvalid, hcost, bind, Except.bind]
  rw [if_neg (not_lt.mpr haffordable)]
  simp only [hbundles', hvalid']
  rfl

end CardanoSdk.InputSelection
