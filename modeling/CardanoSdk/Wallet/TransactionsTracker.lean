import CardanoSdk.InputSelection.Types
import Mathlib.Data.List.DropRight

/-!
`findIntersectionAndUpdateTxStore` of `wallet/src/services/TransactionsTracker.ts`: one
run of `sample`. What `rollback$` emits and what is put into the store is kept in the
order it happens. A transaction has its id, its place in its block and the header of the
block. Both loops count down `fuel`.
-/

namespace CardanoSdk.Wallet

open InputSelection (TransactionId PaymentAddress)

structure PartialBlockHeader where
  blockNo : ℕ
  slot : ℕ
  hash : String
  deriving DecidableEq

structure HydratedTx where
  id : TransactionId
  index : ℕ
  blockHeader : PartialBlockHeader
  deriving DecidableEq

inductive PaginationOrder where
  | asc
  | desc
  deriving DecidableEq

structure PaginationArgsWithOrder where
  limit : ℕ
  startAt : ℕ
  order : PaginationOrder := .asc

structure TransactionsByAddressesArgs where
  addresses : List PaymentAddress
  pagination : PaginationArgsWithOrder
  blockRange : Option ℕ := none

/-- The `pageResults` of the answer. Of a block range only the lower bound is
ever given. -/
structure ChainHistoryProvider where
  transactionsByAddresses : TransactionsByAddressesArgs → List HydratedTx

def compareTxOrder (lhs rhs : HydratedTx) : ℤ :=
  let slots := (lhs.blockHeader.slot : ℤ) - rhs.blockHeader.slot
  if slots ≠ 0 then slots else (lhs.index : ℤ) - rhs.index

def sortTxs (transactions : List HydratedTx) : List HydratedTx :=
  transactions.mergeSort fun lhs rhs => decide (compareTxOrder lhs rhs ≤ 0)

def txEquals (a b : HydratedTx) : Bool := a.id = b.id

/-- The elements after `previous` that differ from the one before them. -/
def deduplicateAfter (isEqual : HydratedTx → HydratedTx → Bool) :
    HydratedTx → List HydratedTx → List HydratedTx
  | _, [] => []
  | previous, tx :: rest =>
    if isEqual tx previous then deduplicateAfter isEqual tx rest
    else tx :: deduplicateAfter isEqual tx rest

def deduplicateSortedArray (isEqual : HydratedTx → HydratedTx → Bool) :
    List HydratedTx → List HydratedTx
  | [] => []
  | tx :: rest => tx :: deduplicateAfter isEqual tx rest

inductive FilterBy where
  | blockRange (lowerBound : ℕ)
  | tip (limit : ℕ)

/-- The loop over pages of 25. -/
def fetchPages (chainHistoryProvider : ChainHistoryProvider) (addresses : List PaymentAddress)
    (lowerBound : ℕ) : ℕ → ℕ → List HydratedTx → Option (List HydratedTx)
  | 0, _, _ => none
  | fuel + 1, startAt, response =>
    let pageResults := chainHistoryProvider.transactionsByAddresses {
      addresses
      blockRange := some lowerBound
      pagination := { limit := 25, startAt } }
    if pageResults.length ≥ 25 then
      fetchPages chainHistoryProvider addresses lowerBound fuel (startAt + 25)
        (response ++ pageResults)
    else some (response ++ pageResults)

def allTransactionsByAddresses (chainHistoryProvider : ChainHistoryProvider)
    (addresses : List PaymentAddress) (fuel : ℕ) (filterBy : FilterBy) :
    Option (List HydratedTx) := do
  let response ← match filterBy with
    | .blockRange lowerBound => fetchPages chainHistoryProvider addresses lowerBound fuel 0 []
    | .tip limit => some (chainHistoryProvider.transactionsByAddresses {
        addresses
        pagination := { limit, startAt := 0, order := .desc } }).reverse
  return deduplicateSortedArray txEquals (sortTxs response)

/-- `transactions.slice(-1 * limit)`, where `-0` is `0`. -/
def sliceLast (transactions : List HydratedTx) (limit : ℕ) : List HydratedTx :=
  if limit = 0 then transactions else transactions.rtake limit

def fetchInitialTransactions (chainHistoryProvider : ChainHistoryProvider)
    (addresses : List PaymentAddress) (historicalTransactionsFetchLimit fuel : ℕ) :
    Option (List HydratedTx) := do
  let transactions ← allTransactionsByAddresses chainHistoryProvider addresses fuel
    (.tip historicalTransactionsFetchLimit)
  return if transactions.length = 0 then []
    else sliceLast transactions historicalTransactionsFetchLimit

def inBlock (blockNo : ℕ) (tx : HydratedTx) : Bool := tx.blockHeader.blockNo = blockNo

def getLastTransactionsAtBlock (transactions : List HydratedTx) (blockNo : ℕ) : List HydratedTx :=
  transactions.rtakeWhile (inBlock blockNo)

/-- The loop of `revertLastBlock`, over the reversed list: what is left of it and
what `rollback$` emits. -/
def popLastBlock (blockNo : ℕ) (newTransactions : List HydratedTx) :
    List HydratedTx → List HydratedTx × List HydratedTx
  | [] => ([], [])
  | lastKnownTx :: result =>
    if lastKnownTx.blockHeader.blockNo = blockNo then
      let (left, emitted) := popLastBlock blockNo newTransactions result
      if newTransactions.any fun tx => tx.id = lastKnownTx.id then (left, emitted)
      else (left, lastKnownTx :: emitted)
    else (lastKnownTx :: result, [])

def revertLastBlock (localTransactions : List HydratedTx) (blockNo : ℕ)
    (newTransactions : List HydratedTx) : List HydratedTx × List HydratedTx :=
  let (result, emitted) := popLastBlock blockNo newTransactions localTransactions.reverse
  (deduplicateSortedArray txEquals result.reverse, emitted)

/-- A local transaction with the header of the new one if the slot has changed. -/
def updateBlockHeader (newTransactions : List HydratedTx) (localTx : HydratedTx) : HydratedTx :=
  match newTransactions.find? fun tx => tx.id = localTx.id with
  | none => localTx
  | some newTx =>
    if newTx.blockHeader.slot ≠ localTx.blockHeader.slot then
      { localTx with blockHeader := newTx.blockHeader }
    else localTx

structure SyncState where
  localTransactions : List HydratedTx
  rollbackOcurred : Bool := false
  /-- what `rollback$` has emitted -/
  rolledBack : List HydratedTx := []
  /-- the arguments of `store.setAll` -/
  stored : List (List HydratedTx) := []
  deriving DecidableEq

def SyncState.revert (state : SyncState) (lowerBound : ℕ) (newTransactions : List HydratedTx) :
    SyncState :=
  let (localTransactions, emitted) :=
    revertLastBlock state.localTransactions lowerBound newTransactions
  { state with
    localTransactions
    rollbackOcurred := true
    rolledBack := state.rolledBack ++ emitted }

def SyncState.setAll (state : SyncState) (localTransactions : List HydratedTx) : SyncState :=
  { state with localTransactions, stored := state.stored ++ [localTransactions] }

/-- `localTxsFromSameBlock.every(...)` together with the test of the lengths -/
def sameTxAndOrder (localTxsFromSameBlock newTransactions : List HydratedTx) : Bool :=
  let firstSegmentOfNewTransactions := newTransactions.take localTxsFromSameBlock.length
  localTxsFromSameBlock.length = firstSegmentOfNewTransactions.length &&
    (localTxsFromSameBlock.zip firstSegmentOfNewTransactions).all fun (tx, new) => tx.id = new.id

def areTransactionsSame (localTxsFromSameBlock newTransactions : List HydratedTx) : Bool :=
  newTransactions.length = localTxsFromSameBlock.length &&
    (localTxsFromSameBlock.zip newTransactions).all fun (tx, new) =>
      tx.id = new.id && tx.blockHeader.slot = new.blockHeader.slot

/-- The new transactions are added to the local ones. The transactions of the
last local block are the objects of the list, so the list has their new headers. -/
def SyncState.merge (state : SyncState) (historicalTransactionsFetchLimit lowerBound : ℕ)
    (newTransactions : List HydratedTx) : SyncState :=
  let localTxsFromSameBlock := getLastTransactionsAtBlock state.localTransactions lowerBound
  if !areTransactionsSame localTxsFromSameBlock newTransactions then
    let localTransactions := state.localTransactions.rdropWhile (inBlock lowerBound) ++
      localTxsFromSameBlock.map (updateBlockHeader newTransactions)
    state.setAll (sliceLast (deduplicateSortedArray txEquals
      (localTransactions ++ newTransactions.drop localTxsFromSameBlock.length))
      historicalTransactionsFetchLimit)
  else if state.rollbackOcurred then state.setAll state.localTransactions
  else state

/-- The transactions returned are the local ones of the state. -/
def sample (chainHistoryProvider : ChainHistoryProvider) (addresses : List PaymentAddress)
    (historicalTransactionsFetchLimit : ℕ) : ℕ → SyncState → Option SyncState
  | 0, _ => none
  | fuel + 1, state =>
    match state.localTransactions.getLast? with
    | none => do
        let newTransactions ← fetchInitialTransactions chainHistoryProvider addresses
          historicalTransactionsFetchLimit fuel
        return if newTransactions.length > 0 then state.setAll newTransactions
          else { state with localTransactions := newTransactions }
    | some lastStoredTransaction => do
        let lowerBound := lastStoredTransaction.blockHeader.blockNo
        let newTransactions ← allTransactionsByAddresses chainHistoryProvider addresses fuel
          (.blockRange lowerBound)
        let localTxsFromSameBlock :=
          getLastTransactionsAtBlock state.localTransactions lowerBound
        if newTransactions.length = 0 then
          sample chainHistoryProvider addresses historicalTransactionsFetchLimit fuel
            (state.revert lowerBound newTransactions)
        else if !sameTxAndOrder localTxsFromSameBlock newTransactions then
          sample chainHistoryProvider addresses historicalTransactionsFetchLimit fuel
            (state.revert lowerBound newTransactions)
        else
          return state.merge historicalTransactionsFetchLimit lowerBound newTransactions

end CardanoSdk.Wallet
