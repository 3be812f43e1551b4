import CardanoSdk.Lib.UniqueByKey
import CardanoSdk.InputSelection.Types

/-!
`wallet/src/services/UtxoTracker.ts`: what `total$` and `available$` emit. The index of an
output is looked up by the identity of its object, so an output carries it as `ref`:
equality of `OutputObject`s is `===`.
-/

namespace CardanoSdk.Wallet

open Lib
open InputSelection (TransactionId PaymentAddress TxOut)

structure TxIn where
  txId : TransactionId
  index : ℕ
  deriving DecidableEq

structure HydratedTxIn extends TxIn where
  address : PaymentAddress
  deriving DecidableEq

abbrev Utxo := HydratedTxIn × TxOut

structure OutputObject where
  ref : ℕ
  txOut : TxOut
  deriving DecidableEq

structure TxInFlight where
  id : TransactionId
  inputs : List TxIn
  outputs : List OutputObject

/-- `txInEquals` and the comparison given to `uniqWith` -/
def txInOf (utxo : Utxo) : TxIn := utxo.1.toTxIn

def TxInFlight.uses (tx : TxInFlight) (txIn : TxIn) : Bool :=
  tx.inputs.any fun input => input.txId = txIn.txId ∧ input.index = txIn.index

/-- The on-chain UTxO that no transaction in flight uses. -/
def unusedOnChain (onChainUtxo : List Utxo) (transactionsInFlight : List TxInFlight) : List Utxo :=
  onChainUtxo.filter fun utxo => !transactionsInFlight.any fun tx => tx.uses (txInOf utxo)

/-- The outputs of the transaction at `txInFlightIndex` that are the wallet's and
not already consumed by another transaction. -/
def newUtxo (transactionsInFlight : List TxInFlight) (ownAddresses : List PaymentAddress)
    (tx : TxInFlight) (txInFlightIndex : ℕ) : List Utxo :=
  let kept := tx.outputs.zipIdx.filter fun (output, outputIndex) =>
    ownAddresses.contains output.txOut.address &&
      !transactionsInFlight.zipIdx.any fun (other, i) =>
        txInFlightIndex != i && other.uses ⟨tx.id, outputIndex⟩
  kept.map fun (output, _) =>
    (⟨⟨tx.id, tx.outputs.idxOf output⟩, output.txOut.address⟩, output.txOut)

def totalUtxo (onChainUtxo : List Utxo) (transactionsInFlight : List TxInFlight)
    (ownAddresses : List PaymentAddress) : List Utxo :=
  uniqWith (sameKey txInOf)
    (unusedOnChain onChainUtxo transactionsInFlight ++
      transactionsInFlight.zipIdx.flatMap fun (tx, txInFlightIndex) =>
        newUtxo transactionsInFlight ownAddresses tx txInFlightIndex)

def availableUtxo (utxo unspendableUtxo : List Utxo) : List Utxo :=
  utxo.filter fun entry => !unspendableUtxo.any fun unspendable => txInOf entry = txInOf unspendable

def utxoEquals (a b : List Utxo) : Bool := a.map txInOf = b.map txInOf

/-- The latest emission behind `distinctUntilChanged(utxoEquals)`. -/
def distinctUntilChanged (previous : Option (List Utxo)) (current : List Utxo) : List Utxo :=
  match previous with
  | some emitted => if utxoEquals emitted current then emitted else current
  | none => current

structure UtxoSources where
  onChainUtxo : List Utxo
  transactionsInFlight : List TxInFlight
  ownAddresses : List PaymentAddress
  unspendableUtxo : List Utxo

/-- The latest emissions of `total$` and `available$`. -/
structure UtxoEmissions where
  total : List Utxo
  available : List Utxo

def UtxoEmissions.update (previous : Option UtxoEmissions) (sources : UtxoSources) :
    UtxoEmissions :=
  let total := distinctUntilChanged (previous.map UtxoEmissions.total)
    (totalUtxo sources.onChainUtxo sources.transactionsInFlight sources.ownAddresses)
  { total := total
    available := distinctUntilChanged (previous.map UtxoEmissions.available)
      (availableUtxo total sources.unspendableUtxo) }

/-- The emissions after the sources had these values one after another. -/
def UtxoEmissions.run (history : List UtxoSources) : Option UtxoEmissions :=
  history.foldl (fun previous sources => some (UtxoEmissions.update previous sources)) none

end CardanoSdk.Wallet
