import CardanoSdk.InputSelection.Balance
import CardanoSdk.TxConstruction.MinAda

/-!
`computeCollateral` of the transaction builder: the candidates are the prefixes of the
entries sorted by their coins, largest first.
-/

namespace CardanoSdk.TxConstruction

open Lib Cbor Plutus Cardano Serialization
open InputSelection (coalesceValueQuantities maxU64 total TokenMap TokenKind)

abbrev ResolvedUtxo (CoreScript : Type) := InputSelection.TxIn × TxOut CoreScript

/-- What the checks of a return throw. The last constructor is not a behaviour of the
source: it marks a loop of `minAdaRequired` that has not ended. -/
inductive ReturnException where
  | serialization (exception : SerializationException)
  | outOfRounds

inductive CollateralException where
  | invalidReturn (exception : ReturnException)
  | error (message : String)

def collateralAmountInLovelace : ℤ := 5000000

def noSuitableCollateral : CollateralException := .error "No suitable collateral found"

/-- Of the protocol parameters. `computeCollateral` does not read the last one. -/
structure CollateralParameters where
  coinsPerUtxoByte : ℤ
  maxValueSize : ℕ
  maxCollateralInputs : ℕ

structure Collateral (CoreScript : Type) where
  collaterals : JsSet InputSelection.TxIn
  collateralReturn : TxOut CoreScript

section Collateral

variable {CoreScript Script : Type} (text : TextEncodings) (script : Codec CoreScript Script)
  (rounds : ℕ)

def computeMinimumCoinQuantity (coinsPerUtxoByte : ℤ) (output : TxOut CoreScript) :
    Except ReturnException ℤ := do
  let quantity ← (minAdaRequired text script rounds output coinsPerUtxoByte).mapError
    .serialization
  match quantity with
  | none => throw .outOfRounds
  | some quantity => return quantity

def tokenBundleSizeExceedsLimit (maxValueSize : ℕ) (tokenBundle : TokenMap) :
    Except ReturnException Bool := do
  let value : Serialization.Value := { coin := maxU64, multiasset := some tokenBundle }
  let cbor ← value.toCbor.mapError fun exception => .serialization (.encode exception)
  return decide (maxValueSize < cbor.length)

/-- Whether a value makes a valid output. The bundle is measured only where the coins
suffice. -/
def isValidValue (out : TxOut CoreScript)
    (computeCoinQuantity : TxOut CoreScript → Except ReturnException ℤ)
    (computeBundleSizeExceedsLimit : TokenMap → Except ReturnException Bool) :
    Except ReturnException Bool := do
  let quantity ← computeCoinQuantity out
  if out.value.coins < quantity then return false
  match out.value.assets with
  | none => return true
  | some assets => do
      let exceeds ← computeBundleSizeExceedsLimit assets
      return !exceeds

def totalCoins (utxo : List (ResolvedUtxo CoreScript)) : ℤ :=
  (utxo.map fun entry => entry.2.value.coins).sum

/-- What the selected entries hold beyond the collateral amount, at the address of the
first of them. -/
def returnOf (selectedCollateral : List (ResolvedUtxo CoreScript)) : TxOut CoreScript :=
  let collateralReturnValue := coalesceValueQuantities
    (selectedCollateral.map fun entry => entry.2.value)
  { address := (selectedCollateral.head?.map fun entry => entry.2.address).getD ""
    value := { collateralReturnValue with
      coins := collateralReturnValue.coins - collateralAmountInLovelace } }

def isValidReturn (parameters : CollateralParameters) (out : TxOut CoreScript) :
    Except ReturnException Bool :=
  isValidValue out (computeMinimumCoinQuantity text script rounds parameters.coinsPerUtxoByte)
    (tokenBundleSizeExceedsLimit parameters.maxValueSize)

def collateralLoop (parameters : CollateralParameters)
    (selectedCollateral : List (ResolvedUtxo CoreScript)) (coins : ℤ) :
    List (ResolvedUtxo CoreScript) → Except CollateralException (Collateral CoreScript)
  | [] => throw noSuitableCollateral
  | utxo :: rest => do
      let selectedCollateral := selectedCollateral ++ [utxo]
      let coins := coins + utxo.2.value.coins
      if coins > collateralAmountInLovelace then
        let collateralReturn := returnOf selectedCollateral
        let valid ← (isValidReturn text script rounds parameters collateralReturn).mapError
          .invalidReturn
        if valid then
          return {
            collaterals := JsSet.ofList (selectedCollateral.map Prod.fst)
            collateralReturn := collateralReturn }
        else collateralLoop parameters selectedCollateral coins rest
      else collateralLoop parameters selectedCollateral coins rest

def sortByCoins (utxo : List (ResolvedUtxo CoreScript)) : List (ResolvedUtxo CoreScript) :=
  utxo.insertionSort fun lhs rhs => rhs.2.value.coins ≤ lhs.2.value.coins

def computeCollateral (parameters : CollateralParameters)
    (utxoAvailable : List (ResolvedUtxo CoreScript)) :
    Except CollateralException (Collateral CoreScript) :=
  collateralLoop text script rounds parameters [] 0 (sortByCoins utxoAvailable)

end Collateral

section Returns

variable {CoreScript Script : Type} {text : TextEncodings} {script : Codec CoreScript Script}
  {rounds : ℕ} {parameters : CollateralParameters}

/-- A return of the entries: the collateral amount stays behind, the tokens come back, the
coins suffice and the bundle is small enough. -/
structure Returns (text : TextEncodings) (script : Codec CoreScript Script) (rounds : ℕ)
    (parameters : CollateralParameters) (entries : List (ResolvedUtxo CoreScript))
    (collateralReturn : TxOut CoreScript) : Prop where
  coins : totalCoins entries - collateralReturn.value.coins = collateralAmountInLovelace
  assets : ∀ id, collateralReturn.value.amount (.asset id) =
    total (.asset id) (entries.map fun entry => entry.2.value)
  minimum : ∃ quantity, computeMinimumCoinQuantity text script rounds parameters.coinsPerUtxoByte
    collateralReturn = .ok quantity ∧ quantity ≤ collateralReturn.value.coins
  bundle : ∀ assets, collateralReturn.value.assets = some assets →
    tokenBundleSizeExceedsLimit parameters.maxValueSize assets = .ok false

theorem isValidValue_iff {out : TxOut CoreScript}
    {computeCoinQuantity : TxOut CoreScript → Except ReturnException ℤ}
    {computeBundleSizeExceedsLimit : TokenMap → Except ReturnException Bool} :
    isValidValue out computeCoinQuantity computeBundleSizeExceedsLimit = .ok true ↔
      (∃ quantity, computeCoinQuantity out = .ok quantity ∧ quantity ≤ out.value.coins) ∧
      ∀ assets, out.value.assets = some assets →
        computeBundleSizeExceedsLimit assets = .ok false := by
  unfold isValidValue
  cases hquantity : computeCoinQuantity out with
  | error exception =>
    constructor
    · intro h
      cases h
    · rintro ⟨⟨_, hok, _⟩, _⟩
      cases hok
  | ok quantity =>
    change (if out.value.coins < quantity then _ else _) = _ ↔ _
    split
    · rename_i hless
      constructor
      · intro h
        cases h
      · rintro ⟨⟨_, hok, hle⟩, _⟩
        cases hok
        exact absurd hle (not_le.mpr hless)
    · rename_i henough
      cases hassets : out.value.assets with
      | none =>
        constructor
        · intro _
          exact ⟨⟨quantity, rfl, not_lt.mp henough⟩, nofun⟩
        · intro _
          rfl
      | some assets =>
        change (computeBundleSizeExceedsLimit assets >>= _) = _ ↔ _
        cases hexceeds : computeBundleSizeExceedsLimit assets with
        | error exception =>
          constructor
          · intro h
            cases h
          · rintro ⟨_, hbundle⟩
            have hsmall := hbundle assets rfl
            rw [hexceeds] at hsmall
            cases hsmall
        | ok exceeds =>
          constructor
          · intro h
            refine ⟨⟨quantity, rfl, not_lt.mp henough⟩, ?_⟩
            rintro _ ⟨⟩
            rw [hexceeds]
            cases exceeds with
            | false => rfl
            | true => cases h
          · rintro ⟨_, hbundle⟩
            have hsmall := hbundle assets rfl
            rw [hexceeds] at hsmall
            cases hsmall
            rfl

theorem returnOf_coins (entries : List (ResolvedUtxo CoreScript)) :
    (returnOf entries).value.coins = totalCoins entries - collateralAmountInLovelace := by
  simp [returnOf, totalCoins, coalesceValueQuantities, InputSelection.getCoinQuantity,
    Function.comp_def]

theorem returnOf_assets (entries : List (ResolvedUtxo CoreScript)) (id : List UInt8) :
    (returnOf entries).value.amount (.asset id) =
      total (.asset id) (entries.map fun entry => entry.2.value) :=
  InputSelection.amount_coalesceValueQuantities _ (.asset id)

theorem returns_returnOf_iff {entries : List (ResolvedUtxo CoreScript)} :
    Returns text script rounds parameters entries (returnOf entries) ↔
      isValidReturn text script rounds parameters (returnOf entries) = .ok true := by
  rw [isValidReturn, isValidValue_iff]
  constructor
  · intro h
    exact ⟨h.minimum, h.bundle⟩
  · rintro ⟨hminimum, hbundle⟩
    exact {
      coins := by rw [returnOf_coins]; omega
      assets := returnOf_assets entries
      minimum := hminimum
      bundle := hbundle }

end Returns

section Loop

variable {CoreScript Script : Type} {text : TextEncodings} {script : Codec CoreScript Script}
  {rounds : ℕ} {parameters : CollateralParameters}

def isSuitable (text : TextEncodings) (script : Codec CoreScript Script) (rounds : ℕ)
    (parameters : CollateralParameters) (candidate : List (ResolvedUtxo CoreScript)) :
    Except ReturnException Bool :=
  if collateralAmountInLovelace < totalCoins candidate then
    isValidReturn text script rounds parameters (returnOf candidate)
  else .ok false

theorem isSuitable_eq_true_iff {candidate : List (ResolvedUtxo CoreScript)} :
    isSuitable text script rounds parameters candidate = .ok true ↔
      collateralAmountInLovelace < totalCoins candidate ∧
        Returns text script rounds parameters candidate (returnOf candidate) := by
  unfold isSuitable
  rw [returns_returnOf_iff]
  split
  · rename_i hmore
    exact (and_iff_right hmore).symm
  · rename_i hless
    exact iff_of_false (by nofun) (fun h => hless h.1)

theorem collateralLoop_cons (selectedCollateral rest : List (ResolvedUtxo CoreScript))
    (utxo : ResolvedUtxo CoreScript) :
    collateralLoop text script rounds parameters selectedCollateral
        (totalCoins selectedCollateral) (utxo :: rest) =
      (isSuitable text script rounds parameters (selectedCollateral ++ [utxo])).mapError
          CollateralException.invalidReturn >>= fun suitable =>
        if suitable then
          return {
            collaterals := JsSet.ofList ((selectedCollateral ++ [utxo]).map Prod.fst)
            collateralReturn := returnOf (selectedCollateral ++ [utxo]) }
        else collateralLoop text script rounds parameters (selectedCollateral ++ [utxo])
          (totalCoins (selectedCollateral ++ [utxo])) rest := by
  have hcoins : totalCoins selectedCollateral + utxo.2.value.coins =
      totalCoins (selectedCollateral ++ [utxo]) := by simp [totalCoins]
  rw [collateralLoop, hcoins, isSuitable]
  dsimp only
  split
  · rfl
  · rfl

/-- The loop ends at the first candidate that is suitable or whose check throws. -/
theorem collateralLoop_cases (selectedCollateral rest : List (ResolvedUtxo CoreScript)) :
    (∃ taken, taken <+: rest ∧
      isSuitable text script rounds parameters (selectedCollateral ++ taken) = .ok true ∧
      collateralLoop text script rounds parameters selectedCollateral
          (totalCoins selectedCollateral) rest =
        .ok {
          collaterals := JsSet.ofList ((selectedCollateral ++ taken).map Prod.fst)
          collateralReturn := returnOf (selectedCollateral ++ taken) }) ∨
    (∃ taken exception, taken <+: rest ∧
      isSuitable text script rounds parameters (selectedCollateral ++ taken) =
        .error exception ∧
      collateralLoop text script rounds parameters selectedCollateral
          (totalCoins selectedCollateral) rest = .error (.invalidReturn exception)) ∨
    ((∀ taken, taken <+: rest → taken ≠ [] →
      isSuitable text script rounds parameters (selectedCollateral ++ taken) = .ok false) ∧
      collateralLoop text script rounds parameters selectedCollateral
          (totalCoins selectedCollateral) rest = .error noSuitableCollateral) := by
  induction rest generalizing selectedCollateral with
  | nil =>
    refine Or.inr (Or.inr ⟨fun taken hinitial hne => ?_, rfl⟩)
    exact absurd (List.prefix_nil.mp hinitial) hne
  | cons utxo rest ih =>
    have happend (taken : List (ResolvedUtxo CoreScript)) :
        (selectedCollateral ++ [utxo]) ++ taken = selectedCollateral ++ utxo :: taken := by
      simp
    rw [collateralLoop_cons]
    cases hsuitable : isSuitable text script rounds parameters (selectedCollateral ++ [utxo])
      with
    | error exception =>
      exact Or.inr (Or.inl ⟨[utxo], exception, by simp, hsuitable, rfl⟩)
    | ok suitable =>
      cases suitable with
      | true => exact Or.inl ⟨[utxo], by simp, hsuitable, rfl⟩
      | false =>
        have hrest := ih (selectedCollateral ++ [utxo])
        simp only [happend] at hrest
        rcases hrest with ⟨taken, hinitial, htaken⟩ | ⟨taken, exception, hinitial, htaken⟩ |
          ⟨hnone, hthrown⟩
        · exact Or.inl ⟨utxo :: taken, List.cons_prefix_cons.mpr ⟨rfl, hinitial⟩, htaken⟩
        · exact Or.inr (Or.inl ⟨utxo :: taken, exception,
            List.cons_prefix_cons.mpr ⟨rfl, hinitial⟩, htaken⟩)
        · refine Or.inr (Or.inr ⟨fun taken hinitial hne => ?_, hthrown⟩)
          cases taken with
          | nil => exact absurd rfl hne
          | cons first taken =>
            obtain ⟨rfl, htail⟩ := List.cons_prefix_cons.mp hinitial
            cases taken with
            | nil => exact hsuitable
            | cons second taken => exact hnone _ htail (by simp)

theorem perm_sortByCoins (utxo : List (ResolvedUtxo CoreScript)) :
    (sortByCoins utxo).Perm utxo := List.perm_insertionSort _ _

/-- What is returned, and what a failure tells: only the prefixes of the sorted list were
looked at. -/
theorem computeCollateral_prefix (text : TextEncodings) (script : Codec CoreScript Script)
    (rounds : ℕ) (parameters : CollateralParameters)
    (utxoAvailable : List (ResolvedUtxo CoreScript)) :
    (∀ result, computeCollateral text script rounds parameters utxoAvailable = .ok result →
      ∃ selected, selected <+: sortByCoins utxoAvailable ∧ selected.Subperm utxoAvailable ∧
        result.collaterals = JsSet.ofList (selected.map Prod.fst) ∧
        ((utxoAvailable.map Prod.fst).Nodup →
          result.collaterals.toList = selected.map Prod.fst) ∧
        Returns text script rounds parameters selected result.collateralReturn) ∧
    (computeCollateral text script rounds parameters utxoAvailable =
        .error noSuitableCollateral →
      ∀ candidate, candidate <+: sortByCoins utxoAvailable →
        collateralAmountInLovelace < totalCoins candidate →
        ¬ Returns text script rounds parameters candidate (returnOf candidate)) ∧
    (∀ exception, computeCollateral text script rounds parameters utxoAvailable =
        .error exception →
      exception = noSuitableCollateral ∨
        ∃ candidate thrown, candidate <+: sortByCoins utxoAvailable ∧
          exception = .invalidReturn thrown ∧
          isValidReturn text script rounds parameters (returnOf candidate) = .error thrown) := by
  have hloop : computeCollateral text script rounds parameters utxoAvailable =
      collateralLoop text script rounds parameters []
        (totalCoins ([] : List (ResolvedUtxo CoreScript))) (sortByCoins utxoAvailable) := rfl
  rw [hloop]
  rcases @collateralLoop_cases _ _ text script rounds parameters [] (sortByCoins utxoAvailable) with
    ⟨taken, hinitial, hsuitable, hrun⟩ | ⟨taken, thrown, hinitial, hsuitable, hrun⟩ | ⟨hnone, hrun⟩
  · rw [hrun]
    refine ⟨?_, nofun, nofun⟩
    rintro _ ⟨⟩
    have hsubperm : taken.Subperm utxoAvailable :=
      hinitial.sublist.subperm.trans (perm_sortByCoins utxoAvailable).subperm
    refine ⟨taken, hinitial, hsubperm, rfl, ?_, (isSuitable_eq_true_iff.mp hsuitable).2⟩
    intro hdistinct
    have hnodup : (taken.map Prod.fst).Nodup := by
      have hsorted : ((sortByCoins utxoAvailable).map Prod.fst).Nodup :=
        ((perm_sortByCoins utxoAvailable).map Prod.fst).nodup_iff.mpr hdistinct
      exact hsorted.sublist (hinitial.sublist.map Prod.fst)
    exact JsSet.ofList_toList_of_nodup hnodup
  · rw [hrun]
    refine ⟨nofun, ?_, ?_⟩
    · intro h
      cases h
    · rintro _ ⟨⟩
      refine Or.inr ⟨taken, thrown, hinitial, rfl, ?_⟩
      unfold isSuitable at hsuitable
      split at hsuitable
      · exact hsuitable
      · cases hsuitable
  · rw [hrun]
    refine ⟨nofun, ?_, ?_⟩
    · intro _ candidate hinitial hmore hreturns
      have hne : candidate ≠ [] := by
        rintro rfl
        exact absurd hmore (by norm_num [totalCoins, collateralAmountInLovelace])
      have hsuitable := hnone candidate hinitial hne
      rw [List.nil_append, isSuitable_eq_true_iff.mpr ⟨hmore, hreturns⟩] at hsuitable
      cases hsuitable
    · rintro _ ⟨⟩
      exact Or.inl rfl

end Loop

def adaEntry (index : ℕ) (coins : ℤ) : ResolvedUtxo Empty :=
  ({ ref := index, txId := List.replicate 32 0, index := index },
    { address := enterpriseText, value := { coins := coins } })

def tokenEntry (index : ℕ) (coins : ℤ) : ResolvedUtxo Empty :=
  ({ ref := index, txId := List.replicate 32 0, index := index },
    { address := enterpriseText
      value := {
        coins := coins
        assets := some (JsMap.ofList [(List.replicate 28 (UInt8.ofNat index) ++ [1], 1)]) } })

/-- A bundle of one policy is small enough, a bundle of two is not, and there may be one
collateral input. -/
def smallBundles : CollateralParameters where
  coinsPerUtxoByte := 4310
  maxValueSize := 60
  maxCollateralInputs := 1

def tokensFirst : List (ResolvedUtxo Empty) :=
  [tokenEntry 0 4000000, tokenEntry 1 4000000, adaEntry 2 3000000, adaEntry 3 3000000]

def thrownMessage {α : Type} : Except CollateralException α → Option String
  | .error (.error message) => some message
  | _ => none

theorem eq_error_of_thrownMessage {α : Type} {x : Except CollateralException α} {message : String}
    (h : thrownMessage x = some message) : x = .error (.error message) := by
  unfold thrownMessage at h
  split at h
  · cases h
    rfl
  · cases h

/-- Two entries are returned where the protocol permits one only, and nothing is found
in a wallet that has two suitable entries: neither part of the promise holds. -/
theorem computeCollateral_exceeds_and_misses :
    (∃ result, computeCollateral enterpriseEncodings noScripts 10 smallBundles
        [adaEntry 0 4000000, adaEntry 1 4000000] = .ok result ∧
      smallBundles.maxCollateralInputs < result.collaterals.toList.length) ∧
    computeCollateral enterpriseEncodings noScripts 10 smallBundles tokensFirst =
      .error noSuitableCollateral ∧
    ∃ collateralReturn, [adaEntry 2 3000000, adaEntry 3 3000000].Sublist tokensFirst ∧
      Returns enterpriseEncodings noScripts 10 smallBundles
        [adaEntry 2 3000000, adaEntry 3 3000000] collateralReturn := by
  refine ⟨?_, ?_, returnOf [adaEntry 2 3000000, adaEntry 3 3000000], ?_, ?_⟩
  · have htwo : okAnd (fun result =>
        decide (smallBundles.maxCollateralInputs < result.collaterals.toList.length))
        (computeCollateral enterpriseEncodings noScripts 10 smallBundles
          [adaEntry 0 4000000, adaEntry 1 4000000]) = true := by decide
    obtain ⟨result, hok, hlength⟩ := okAnd_iff.mp htwo
    exact ⟨result, hok, of_decide_eq_true hlength⟩
  · exact eq_error_of_thrownMessage (by decide +kernel)
  · exact List.sublist_append_right [tokenEntry 0 4000000, tokenEntry 1 4000000] _
  · have hvalid : okAnd (fun valid => valid) (isValidReturn enterpriseEncodings noScripts 10
        smallBundles (returnOf [adaEntry 2 3000000, adaEntry 3 3000000])) = true := by
      decide
    obtain ⟨valid, hok, rfl⟩ := okAnd_iff.mp hvalid
    exact returns_returnOf_iff.mpr hok

end CardanoSdk.TxConstruction
