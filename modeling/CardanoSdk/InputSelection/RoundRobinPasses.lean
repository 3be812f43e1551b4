import CardanoSdk.InputSelection.RoundRobinConservation
import CardanoSdk.Lib.ForkRuns

/-!
The passes of the round-robin loops. The total that is compared with twice the target
counts the implicit input once more, so an entry without coins passes as well.
-/

namespace CardanoSdk.InputSelection

open Lib

/-- Past the end of the queue the inner loop starts again at the front. -/
def RoundRobinState.position (state : RoundRobinState) : ℕ :=
  if state.tokenIdx < state.tokensRemaining.length then state.tokenIdx else 0

/-- One pass through the bodies of the loops, for the token the position stands at. -/
def RoundRobinState.pass (token : TokenKind → RoundRobinToken) (random : ℕ → ℚ)
    (state : RoundRobinState) (current : TokenKind) : Option RoundRobinState :=
  if state.tokensRemaining[state.position]? = some current then
    some (roundRobinStep token random { state with tokenIdx := state.position } current)
  else none

variable {random : ℕ → ℚ} {state : RoundRobinState}

variable {next : RoundRobinState} {current : TokenKind}

theorem RoundRobinState.pass_eq_some {token : TokenKind → RoundRobinToken} :
    state.pass token random current = some next ↔
      state.tokensRemaining[state.position]? = some current ∧
        roundRobinStep token random { state with tokenIdx := state.position } current = next := by
  rw [RoundRobinState.pass, Option.ite_none_right_eq_some, Option.some.injEq]

def PreProcessedArgs.startRoundRobin (args : PreProcessedArgs) : RoundRobinState where
  tokensRemaining := listTokensWithin args.uniqueTxAssetIDs
  tokenIdx := 0
  utxoSelected := args.requiredUtxo
  utxoRemaining := args.utxo
  drawn := 0

def PreProcessedArgs.token (args : PreProcessedArgs) : TokenKind → RoundRobinToken :=
  roundRobinToken args.outputs args.implicitValue

abbrev PreProcessedArgs.Reached (args : PreProcessedArgs) (random : ℕ → ℚ) :
    RoundRobinState → Prop :=
  Reachable (RoundRobinState.pass args.token random) (fun _ _ => True) args.startRoundRobin

theorem roundRobinLoop_pass {token : TokenKind → RoundRobinToken} (passes : ℕ)
    (hpass : state.pass token random current = some next) :
    roundRobinLoop token random (passes + 1) state = roundRobinLoop token random passes next := by
  obtain ⟨hcurrent, rfl⟩ := RoundRobinState.pass_eq_some.mp hpass
  have hposition : state.tokensRemaining[if state.tokenIdx <
    state.tokensRemaining.length then state.tokenIdx else 0]? = some current := hcurrent
  rw [roundRobinLoop, hposition]
  rfl

theorem roundRobinLoop_stop {token : TokenKind → RoundRobinToken} (passes : ℕ)
    (hstop : state.tokensRemaining[state.position]? = none) :
    roundRobinLoop token random passes state = state := by
  cases passes with
  | zero => rfl
  | succ passes =>
    have hposition : state.tokensRemaining[if state.tokenIdx <
      state.tokensRemaining.length then state.tokenIdx else 0]? = none := hstop
    rw [roundRobinLoop, hposition]

/-- The total of a token among the selected entries, with the implicit input. -/
def RoundRobinState.total (state : RoundRobinState) (token : RoundRobinToken) : ℤ :=
  token.getTotalSelectedQuantity state.utxoSelected

/-- The token is strictly closer to twice its target afterwards. -/
def Closer (token : RoundRobinToken) (state next : RoundRobinState) : Prop :=
  |2 * token.minimumTarget - next.total token| < |2 * token.minimumTarget - state.total token|

/-- Counting the implicit input once more does no harm: there is none of the token, or it is
positive and so is what the entry holds. -/
def ComparesFairly (implicitValue : RequiredImplicitValue) (token : TokenKind) (input : Utxo) :
    Prop :=
  implicitValue.inputAmount token = 0 ∨
    0 < implicitValue.inputAmount token ∧ 0 < input.txOut.value.amount token

section Args

variable {args : PreProcessedArgs} {random : ℕ → ℚ}

/-- The entries stay divided, and the queue holds tokens of the transaction only. -/
structure RoundRobinUnderway (args : PreProcessedArgs) (state : RoundRobinState) : Prop where
  divides : UtxoSelection.Divides
    { utxoSelected := state.utxoSelected, utxoRemaining := state.utxoRemaining }
    (args.requiredUtxo ++ args.utxo)
  queue : state.tokensRemaining ⊆ listTokensWithin args.uniqueTxAssetIDs

variable {state next : RoundRobinState} {current : TokenKind} {input : Utxo}

theorem reached_underway (hrandom : ∀ n, 0 ≤ random n ∧ random n < 1)
    (hreached : args.Reached random state) : RoundRobinUnderway args state := by
  refine hreached.invariant ⟨List.Perm.refl _, List.Subset.refl _⟩ ?_
  intro state current next h _ hpass
  obtain ⟨hcurrent, rfl⟩ := RoundRobinState.pass_eq_some.mp hpass
  have hdecreases := @roundRobinStep_decreases args.outputs args.implicitValue random hrandom
    { state with tokenIdx := state.position } current hcurrent
  exact ⟨@roundRobinStep_divides args.token (fun _ _ _ => mem_filterUtxo) random _
      { state with tokenIdx := state.position } current h.divides,
    List.Subset.trans hdecreases.1 h.queue⟩

theorem roundRobinLoop_reached (passes : ℕ) (hreached : args.Reached random state) :
    args.Reached random (roundRobinLoop args.token random passes state) := by
  induction passes generalizing state with
  | zero => exact hreached
  | succ passes ih =>
    cases hcurrent : state.tokensRemaining[state.position]? with
    | none =>
      rw [roundRobinLoop_stop _ hcurrent]
      exact hreached
    | some current =>
      have hpass : state.pass args.token random current = some _ :=
        RoundRobinState.pass_eq_some.mpr ⟨hcurrent, rfl⟩
      rw [roundRobinLoop_pass passes hpass]
      exact ih (hreached.step current trivial hpass)

theorem pass_dropped (hrandom : ∀ n, 0 ≤ random n ∧ random n < 1)
    (hbalance : assertIsBalanceSufficient args.uniqueTxAssetIDs args.requiredUtxo args.utxo
      args.outputs args.implicitValue = .ok ()) (h : RoundRobinUnderway args state)
    (hpass : state.pass args.token random current = some next)
    (hdropped : next.tokensRemaining ≠ state.tokensRemaining) :
    (args.token current).minimumTarget ≤ state.total (args.token current) := by
  obtain ⟨hcurrent, rfl⟩ := RoundRobinState.pass_eq_some.mp hpass
  have htoken := h.queue (List.mem_of_getElem? hcurrent)
  rcases roundRobinStep_cases args.outputs args.implicitValue hrandom
    { state with tokenIdx := state.position } current with ⟨_, _, _, hstep⟩ | ⟨hcovered, _, _⟩
  · exact absurd (congrArg RoundRobinState.tokensRemaining hstep) hdropped
  · have hcovers := covers_of_dropped (assertIsBalanceSufficient_ok hbalance) h.divides htoken
      hcovered
    rw [PreProcessedArgs.token, RoundRobinState.total, roundRobinToken_minimumTarget,
      roundRobinToken_getTotalSelectedQuantity]
    exact hcovers

theorem improvesSelection_covered {utxoSelected : List Utxo} {token : TokenKind}
    (hcovered : (args.token token).minimumTarget ≤
      (args.token token).getTotalSelectedQuantity utxoSelected)
    (himproves : improvesSelection utxoSelected input (args.token token).minimumTarget
      (args.token token).getTotalSelectedQuantity = true) :
    |2 * (args.token token).minimumTarget -
        ((args.token token).getTotalSelectedQuantity utxoSelected +
          (input.txOut.value.amount token + args.implicitValue.inputAmount token))| <
      |2 * (args.token token).minimumTarget -
        (args.token token).getTotalSelectedQuantity utxoSelected| := by
  have hsingle : (args.token token).getTotalSelectedQuantity [input] =
      input.txOut.value.amount token + args.implicitValue.inputAmount token := by
    rw [PreProcessedArgs.token, roundRobinToken_getTotalSelectedQuantity]
    simp [selectedAmount, toValues, total]
  unfold improvesSelection at himproves
  dsimp only at himproves
  rw [if_neg (not_lt.mpr hcovered), hsingle] at himproves
  exact of_decide_eq_true himproves

theorem total_of_joined {state next : RoundRobinState} {input : Utxo} (token : TokenKind)
    (hnext : next.utxoSelected = state.utxoSelected ++ [input]) :
    next.total (args.token token) =
      state.total (args.token token) + input.txOut.value.amount token := by
  simp only [RoundRobinState.total, PreProcessedArgs.token,
    roundRobinToken_getTotalSelectedQuantity, hnext, selectedAmount, toValues, List.map_append,
    total_append, List.map_cons, List.map_nil]
  simp only [total, List.map_cons, List.map_nil, List.sum_cons, List.sum_nil]
  omega

theorem improves_of_joined (hrandom : ∀ n, 0 ≤ random n ∧ random n < 1)
    (hpass : state.pass args.token random current = some next)
    (hnext : next.utxoSelected = state.utxoSelected ++ [input]) :
    improvesSelection state.utxoSelected input (args.token current).minimumTarget
      (args.token current).getTotalSelectedQuantity = true := by
  obtain ⟨_, rfl⟩ := RoundRobinState.pass_eq_some.mp hpass
  rcases roundRobinStep_cases args.outputs args.implicitValue hrandom
    { state with tokenIdx := state.position } current with
    ⟨moved, _, himproves, hstep⟩ | ⟨_, _, hstep⟩
  · have hmoved : state.utxoSelected ++ [moved] = state.utxoSelected ++ [input] := by
      rw [← hnext]
      exact (congrArg RoundRobinState.utxoSelected hstep).symm
    obtain rfl : moved = input := by simpa using hmoved
    exact himproves
  · have hsame : state.utxoSelected = state.utxoSelected ++ [input] := by
      rw [← hnext]
      exact (congrArg RoundRobinState.utxoSelected hstep).symm
    simp at hsame

theorem closer_iff_of_compared {ideal old held implicit : ℤ}
    (h : |ideal - (old + (held + implicit))| < |ideal - old|) :
    (implicit = 0 ∨ 0 < implicit ∧ 0 < held → |ideal - (old + held)| < |ideal - old|) ∧
      (0 ≤ implicit → 0 ≤ held → |ideal - (old + held)| < |ideal - old| →
        implicit = 0 ∨ 0 < implicit ∧ 0 < held) := by
  rcases abs_cases (ideal - (old + (held + implicit))) with ⟨hcompared, _⟩ | ⟨hcompared, _⟩ <;>
  rcases abs_cases (ideal - (old + held)) with ⟨hnew, _⟩ | ⟨hnew, _⟩ <;>
  rcases abs_cases (ideal - old) with ⟨hold, _⟩ | ⟨hold, _⟩ <;>
  constructor <;> intros <;> omega

/-- An entry taken for a covered token brings it closer when the comparison is fair. With
quantities that are not negative, no other entry does. -/
theorem joined_closer (hrandom : ∀ n, 0 ≤ random n ∧ random n < 1)
    (hpass : state.pass args.token random current = some next)
    (hcovered : (args.token current).minimumTarget ≤ state.total (args.token current))
    (hnext : next.utxoSelected = state.utxoSelected ++ [input]) :
    (ComparesFairly args.implicitValue current input → Closer (args.token current) state next) ∧
      (0 ≤ args.implicitValue.inputAmount current → 0 ≤ input.txOut.value.amount current →
        Closer (args.token current) state next →
          ComparesFairly args.implicitValue current input) := by
  have hcompared := improvesSelection_covered hcovered (improves_of_joined hrandom hpass hnext)
  unfold Closer ComparesFairly
  rw [@total_of_joined args state next input current hnext]
  exact closer_iff_of_compared hcompared

/-- What is promised of the loops: they end, a token is dropped only when it is covered, and
an entry taken for a covered token, if it is `Permitted`, brings the token closer to twice
its target. -/
structure RoundRobinPromise (Permitted : TokenKind → Utxo → Prop) (args : PreProcessedArgs)
    (random : ℕ → ℚ) : Prop where
  ends : ∀ passes, args.startRoundRobin.tokensRemaining.length + args.utxo.length ≤ passes →
    args.Reached random (roundRobinLoop args.token random passes args.startRoundRobin) ∧
      (roundRobinLoop args.token random passes args.startRoundRobin).tokensRemaining = []
  dropped : ∀ state current next, args.Reached random state →
    state.pass args.token random current = some next →
    next.tokensRemaining ≠ state.tokensRemaining →
    (args.token current).minimumTarget ≤ state.total (args.token current)
  closer : ∀ state current next input, args.Reached random state →
    state.pass args.token random current = some next →
    (args.token current).minimumTarget ≤ state.total (args.token current) →
    next.utxoSelected = state.utxoSelected ++ [input] → Permitted current input →
    Closer (args.token current) state next

/-- The loops keep their promise for the entries whose comparison is fair. Where no quantity
is negative, an entry that brings a covered token closer is compared fairly. -/
theorem roundRobinSelection_passes (args : PreProcessedArgs) {random : ℕ → ℚ}
    (hrandom : ∀ n, 0 ≤ random n ∧ random n < 1)
    (hbalance : assertIsBalanceSufficient args.uniqueTxAssetIDs args.requiredUtxo args.utxo
      args.outputs args.implicitValue = .ok ()) :
    RoundRobinPromise (ComparesFairly args.implicitValue) args random ∧
      ∀ state current next input, args.Reached random state →
        state.pass args.token random current = some next →
        (args.token current).minimumTarget ≤ state.total (args.token current) →
        next.utxoSelected = state.utxoSelected ++ [input] →
        0 ≤ args.implicitValue.inputAmount current → 0 ≤ input.txOut.value.amount current →
        Closer (args.token current) state next →
          ComparesFairly args.implicitValue current input := by
  refine ⟨{ ends := ?_, dropped := ?_, closer := ?_ }, ?_⟩
  · intro passes hpasses
    exact ⟨roundRobinLoop_reached passes Reachable.start,
      roundRobinLoop_ends args.outputs args.implicitValue hrandom hpasses⟩
  · intro state current next hreached hpass hdropped
    exact pass_dropped hrandom hbalance (reached_underway hrandom hreached) hpass hdropped
  · intro state current next input _ hpass hcovered hnext
    exact (joined_closer hrandom hpass hcovered hnext).1
  · intro state current next input _ hpass hcovered hnext
    exact (joined_closer hrandom hpass hcovered hnext).2

end Args

theorem roundRobinSelection_passes_minting :
    RoundRobinPromise (ComparesFairly mintingRequest.implicitValue.required)
      (preProcessArgs mintingRequest.preSelectedUtxo mintingRequest.utxo mintingRequest.outputs
        mintingRequest.implicitValue) (fun _ => 0) :=
  (roundRobinSelection_passes (preProcessArgs mintingRequest.preSelectedUtxo mintingRequest.utxo
    mintingRequest.outputs mintingRequest.implicitValue) (fun _ => ⟨le_rfl, one_pos⟩)
    (by decide)).1

/-- An output of 10 paid by an implicit input of 12, with an entry that holds no coins. -/
def emptyEntryArgs : PreProcessedArgs :=
  preProcessArgs (JsSet.ofList []) (JsSet.ofList [utxoOf 0 { coins := 0 }])
    [outputOf { coins := 10 }] { coin := some { input := some 12 } }

/-- The entry without coins is taken for a token that is covered. -/
theorem roundRobin_takes_empty_entry :
    ¬ ∀ (args : PreProcessedArgs) (random : ℕ → ℚ),
      ((args.requiredUtxo ++ args.utxo).map Utxo.id).Nodup →
      (∀ n, 0 ≤ random n ∧ random n < 1) →
      assertIsBalanceSufficient args.uniqueTxAssetIDs args.requiredUtxo args.utxo args.outputs
        args.implicitValue = .ok () →
      RoundRobinPromise (fun _ _ => True) args random := by
  intro hclaim
  have hpromise := hclaim emptyEntryArgs (fun _ => 0) (by decide) (fun _ => ⟨le_rfl, one_pos⟩)
    (by decide)
  have hpass : emptyEntryArgs.startRoundRobin.pass emptyEntryArgs.token (fun _ => 0) .lovelace =
      some _ := RoundRobinState.pass_eq_some.mpr ⟨by decide, rfl⟩
  have hcloser := hpromise.closer _ _ _ (utxoOf 0 { coins := 0 }) Reachable.start hpass
    (by decide +kernel) (by decide +kernel) trivial
  revert hcloser
  unfold Closer
  decide +kernel

end CardanoSdk.InputSelection
