import CardanoSdk.Lib.Collections

/-!
Data types of the `input-selection` package. `bigint` quantities are integers; hex-encoded
ids are their bytes. JavaScript compares objects by identity, so `Utxo` and `TxIn` carry
the identity of their object as `ref`: equality of the Lean values is `===`, equality of
ids is read off `txId` and `index`.
-/

namespace CardanoSdk.InputSelection

open Lib

/-- The bytes of an id that the source writes as hex text; lower-case hex is meant. -/
abbrev AssetId := List UInt8

/-- In lower-case hex as well. -/
abbrev TransactionId := List UInt8

/-- Ids are compared by their bytes. -/
instance : LawfulBEq AssetId := inferInstanceAs (LawfulBEq (List UInt8))

abbrev PaymentAddress := String

abbrev TokenMap := JsMap AssetId ℤ

structure Value where
  coins : ℤ
  assets : Option TokenMap := none
  deriving DecidableEq

inductive TokenKind where
  | asset (id : AssetId)
  | lovelace
  deriving DecidableEq

structure TxOut where
  address : PaymentAddress
  value : Value
  datumHash : Option (List UInt8) := none
  datum : Option (List UInt8) := none
  scriptReference : Option (List UInt8) := none
  deriving DecidableEq

structure TxIn where
  ref : ℕ
  txId : TransactionId
  index : ℕ
  deriving DecidableEq

structure Utxo where
  ref : ℕ
  txIn : TxIn
  txOut : TxOut
  deriving DecidableEq

/-- The ledger's name of an entry, which does not depend on object identity. -/
def Utxo.id (utxo : Utxo) : TransactionId × ℕ := (utxo.txIn.txId, utxo.txIn.index)

inductive RedeemerPurpose where
  | spend | mint | certificate | withdrawal | propose | vote | guarding
  deriving DecidableEq

structure Redeemer where
  purpose : RedeemerPurpose
  index : ℕ
  data : List UInt8
  memory : ℕ
  steps : ℕ
  deriving DecidableEq

inductive InputSelectionFailure where
  | utxoBalanceInsufficient
  | utxoNotFragmentedEnough
  | utxoFullyDepleted
  | maximumInputCountExceeded
  deriving DecidableEq

/-- What a selector's promise can be rejected with. The last constructor is
not a behaviour of the source: it marks a recursion stopped by its fuel. -/
inductive SelectionError where
  | inputSelectionError (failure : InputSelectionFailure)
  | divisionByZero
  | invalidBigInt
  | undefinedAccess
  | callbackRejected
  | outOfFuel
  deriving DecidableEq

/-- `outputs` is a `Set` of output objects. Distinct objects may have equal
contents, so it is a list of contents here. -/
structure SelectionSkeleton where
  inputs : JsSet Utxo
  outputs : List TxOut
  change : List TxOut
  fee : ℤ

structure SelectionResult where
  selection : SelectionSkeleton
  remainingUTxO : JsSet Utxo
  redeemers : Option (List Redeemer) := none

structure TxCosts where
  fee : ℤ
  redeemers : Option (List Redeemer) := none

/-- The callbacks given to a selector; those that return a promise may reject. -/
structure SelectionConstraints where
  computeMinimumCost : SelectionSkeleton → Except SelectionError TxCosts
  tokenBundleSizeExceedsLimit : TokenMap → Bool
  computeMinimumCoinQuantity : TxOut → ℤ
  computeSelectionLimit : SelectionSkeleton → Except SelectionError ℕ

abbrev ChangeAddressResolver := SelectionSkeleton → Except SelectionError (List TxOut)

structure ImplicitCoin where
  withdrawals : Option ℤ := none
  input : Option ℤ := none
  deposit : Option ℤ := none
  reclaimDeposit : Option ℤ := none

structure ImplicitValue where
  coin : Option ImplicitCoin := none
  mint : Option TokenMap := none

structure RequiredImplicitCoin where
  deposit : ℤ
  input : ℤ
  reclaimDeposit : ℤ
  withdrawals : ℤ

structure ImplicitTokens where
  spend : AssetId → ℤ
  input : AssetId → ℤ

structure RequiredImplicitValue where
  implicitCoin : RequiredImplicitCoin
  implicitTokens : ImplicitTokens

structure UtxoSelection where
  utxoSelected : List Utxo
  utxoRemaining : List Utxo

structure InputSelectionParameters where
  preSelectedUtxo : JsSet Utxo
  utxo : JsSet Utxo
  outputs : List TxOut
  constraints : SelectionConstraints
  implicitValue : ImplicitValue := {}

end CardanoSdk.InputSelection
