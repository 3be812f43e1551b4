import CardanoSdk.Lib.Histories
import CardanoSdk.Wallet.TransactionsTracker

/-!
The transactions of a chain and the provider that answers from them, each transaction
after the ones before it.
-/

namespace CardanoSdk.Wallet

open Lib
open InputSelection (PaymentAddress)

/-- `tx` is before `tx'`: in the same block or in an earlier one. -/
def Precedes (tx tx' : HydratedTx) : Prop :=
  tx.blockHeader = tx'.blockHeader ∧ tx.index < tx'.index ∨
    tx.blockHeader.blockNo < tx'.blockHeader.blockNo ∧ tx.blockHeader.slot < tx'.blockHeader.slot

structure IsChain (transactions : List HydratedTx) : Prop where
  ordered : transactions.Pairwise Precedes
  distinct : (transactions.map HydratedTx.id).Nodup

def since (blockNo : ℕ) (chain : List HydratedTx) : List HydratedTx :=
  chain.filter fun tx => blockNo ≤ tx.blockHeader.blockNo

def before (blockNo : ℕ) (chain : List HydratedTx) : List HydratedTx :=
  chain.filter fun tx => tx.blockHeader.blockNo < blockNo

def atBlock (blockNo : ℕ) (chain : List HydratedTx) : List HydratedTx :=
  chain.filter (inBlock blockNo)

def answer (chain : List HydratedTx) (args : TransactionsByAddressesArgs) : List HydratedTx :=
  let inRange := match args.blockRange with
    | none => chain
    | some lowerBound => since lowerBound chain
  let ordered := match args.pagination.order with
    | .asc => inRange
    | .desc => inRange.reverse
  (ordered.drop args.pagination.startAt).take args.pagination.limit

def ChainHistoryProvider.AnswersFrom (chainHistoryProvider : ChainHistoryProvider)
    (addresses : List PaymentAddress) (chain : List HydratedTx) : Prop :=
  ∀ args, args.addresses = addresses →
    chainHistoryProvider.transactionsByAddresses args = answer chain args

variable {chain : List HydratedTx} {tx : HydratedTx}

variable {tx' : HydratedTx} {rest transactions : List HydratedTx} {blockNo : ℕ}

theorem Precedes.blockNo_le (h : Precedes tx tx') :
    tx.blockHeader.blockNo ≤ tx'.blockHeader.blockNo := by
  rcases h with ⟨hheader, _⟩ | ⟨hblock, _⟩
  · rw [hheader]
  · exact hblock.le

theorem Precedes.compareTxOrder_le (h : Precedes tx tx') : compareTxOrder tx tx' ≤ 0 := by
  unfold compareTxOrder
  rcases h with ⟨hheader, hindex⟩ | ⟨_, hslot⟩
  · rw [hheader, if_neg (by simp)]
    omega
  · rw [if_pos (by omega)]
    omega

theorem IsChain.sublist {transactions part : List HydratedTx} (h : IsChain transactions)
    (hpart : part.Sublist transactions) : IsChain part :=
  ⟨h.ordered.sublist hpart, h.distinct.sublist (hpart.map _)⟩

theorem IsChain.tail (h : IsChain (tx :: rest)) :
    IsChain rest := h.sublist (List.sublist_cons_self _ _)

theorem IsChain.before_append_since (h : IsChain chain) (blockNo : ℕ) :
    before blockNo chain ++ since blockNo chain = chain := by
  induction chain with
  | nil => rfl
  | cons tx rest ih =>
    have hrest := ih h.tail
    have hafter := (List.pairwise_cons.mp h.ordered).1
    unfold before since at hrest ⊢
    by_cases hblock : tx.blockHeader.blockNo < blockNo
    · rw [List.filter_cons_of_pos (by simpa using hblock),
        List.filter_cons_of_neg (by simpa using hblock), List.cons_append, hrest]
    · have hnone : rest.filter (fun tx => tx.blockHeader.blockNo < blockNo) = [] := by
        rw [List.filter_eq_nil_iff]
        intro tx' hmem
        have hle := (hafter tx' hmem).blockNo_le
        simp only [decide_eq_true_eq]
        omega
      have hall : rest.filter (fun tx => blockNo ≤ tx.blockHeader.blockNo) = rest := by
        rw [hnone, List.nil_append] at hrest
        exact hrest
      rw [List.filter_cons_of_neg (by simpa using hblock), hnone,
        List.filter_cons_of_pos (by simpa using hblock), hall, List.nil_append]

theorem atBlock_since (hlast : ∀ tx ∈ chain, tx.blockHeader.blockNo ≤ blockNo) :
    since blockNo chain = atBlock blockNo chain := by
  apply List.filter_congr
  intro tx hmem
  have hle := hlast tx hmem
  simp only [inBlock, decide_eq_decide]
  omega

theorem IsChain.before_append_atBlock (h : IsChain chain)
    (hlast : ∀ tx ∈ chain, tx.blockHeader.blockNo ≤ blockNo) :
    before blockNo chain ++ atBlock blockNo chain = chain := by
  rw [← atBlock_since hlast]
  exact h.before_append_since blockNo

theorem IsChain.blockNo_le_last (h : IsChain chain) {last : HydratedTx}
    (hlast : chain.getLast? = some last) :
    ∀ tx ∈ chain, tx.blockHeader.blockNo ≤ last.blockHeader.blockNo := by
  obtain ⟨earlier, rfl⟩ := List.getLast?_eq_some_iff.mp hlast
  intro tx hmem
  rcases List.mem_append.mp hmem with hearlier | hself
  · exact ((List.pairwise_append.mp h.ordered).2.2 tx hearlier last
      (List.mem_singleton_self last)).blockNo_le
  · rw [List.mem_singleton.mp hself]

theorem IsChain.sortTxs_eq (h : IsChain chain) : sortTxs chain = chain := by
  apply List.mergeSort_of_pairwise
  apply h.ordered.imp
  intro tx tx' hprecedes
  exact decide_eq_true hprecedes.compareTxOrder_le

/-- No transaction is next to one with the same id. -/
def NoRepeats (transactions : List HydratedTx) : Prop :=
  transactions.IsChain fun tx tx' => tx.id ≠ tx'.id

theorem noRepeats_of_nodup (h : (transactions.map HydratedTx.id).Nodup) : NoRepeats transactions :=
  (List.pairwise_map.mp h).isChain

theorem deduplicateAfter_eq {previous : HydratedTx} (h : NoRepeats (previous :: rest)) :
    deduplicateAfter txEquals previous rest = rest := by
  induction rest generalizing previous with
  | nil => rfl
  | cons tx rest ih =>
    obtain ⟨hne, hrest⟩ := List.isChain_cons_cons.mp h
    have hdiffers : txEquals tx previous = false := decide_eq_false (Ne.symm hne)
    rw [deduplicateAfter, hdiffers, if_neg Bool.false_ne_true, ih hrest]

theorem deduplicateSortedArray_eq (h : NoRepeats transactions) :
    deduplicateSortedArray txEquals transactions = transactions := by
  cases transactions with
  | nil => rfl
  | cons tx rest => rw [deduplicateSortedArray, deduplicateAfter_eq h]

theorem IsChain.deduplicate_sort (h : IsChain chain) :
    deduplicateSortedArray txEquals (sortTxs chain) = chain := by
  rw [h.sortTxs_eq, deduplicateSortedArray_eq (noRepeats_of_nodup h.distinct)]

section Fetching

variable {chainHistoryProvider : ChainHistoryProvider} {addresses : List PaymentAddress}
  {chain : List HydratedTx}

variable {fuel : ℕ}

/-- The pages add up to the rest of the list. The induction is on the fuel: a
full page leaves a shorter rest. -/
theorem fetchPages_eq (hanswers : chainHistoryProvider.AnswersFrom addresses chain) (blockNo : ℕ)
    {startAt : ℕ} (hfuel : (since blockNo chain).length < fuel + startAt)
    (response : List HydratedTx) (hpositive : 0 < fuel) :
    fetchPages chainHistoryProvider addresses blockNo fuel startAt response =
      some (response ++ (since blockNo chain).drop startAt) := by
  induction fuel generalizing startAt response with
  | zero => exact absurd hpositive (lt_irrefl 0)
  | succ fuel ih =>
    have hpage : chainHistoryProvider.transactionsByAddresses {
        addresses
        blockRange := some blockNo
        pagination := { limit := 25, startAt } } =
          ((since blockNo chain).drop startAt).take 25 := hanswers _ rfl
    rw [fetchPages]
    simp only [hpage, List.length_take, List.length_drop]
    split
    · next hfull =>
        rw [ih (by omega) _ (by omega), List.append_assoc]
        congr 2
        rw [← List.drop_drop, List.take_append_drop]
    · next hshort =>
        rw [List.take_of_length_le (by rw [List.length_drop]; omega)]

theorem allTransactionsSince_eq (hchain : IsChain chain)
    (hanswers : chainHistoryProvider.AnswersFrom addresses chain) (blockNo : ℕ)
    (hfuel : chain.length < fuel) :
    allTransactionsByAddresses chainHistoryProvider addresses fuel (.blockRange blockNo) =
      some (since blockNo chain) := by
  have hlength : (since blockNo chain).length ≤ chain.length := List.length_filter_le _ _
  have hsince : IsChain (since blockNo chain) := hchain.sublist List.filter_sublist
  have hpages := fetchPages_eq hanswers blockNo (by omega : _ < fuel + 0) [] (by omega)
  simp only [allTransactionsByAddresses, hpages, List.nil_append, List.drop_zero,
    Option.bind_eq_bind, Option.bind_some, hsince.deduplicate_sort, Option.pure_def]

theorem fetchInitialTransactions_eq (hchain : IsChain chain)
    (hanswers : chainHistoryProvider.AnswersFrom addresses chain) (limit fuel : ℕ) :
    fetchInitialTransactions chainHistoryProvider addresses limit fuel =
      some (chain.rtake limit) := by
  have hpage : chainHistoryProvider.transactionsByAddresses {
      addresses
      pagination := { limit, startAt := 0, order := .desc } } = chain.reverse.take limit :=
    hanswers _ rfl
  have hlast : IsChain (chain.rtake limit) := hchain.sublist (rtake_suffix chain limit).sublist
  simp only [fetchInitialTransactions, allTransactionsByAddresses, hpage, reverse_take_reverse,
    Option.bind_eq_bind, Option.bind_some, hlast.deduplicate_sort, Option.pure_def]
  congr 1
  split
  · next hnone => exact (List.length_eq_zero_iff.mp hnone).symm
  · next hsome =>
      unfold sliceLast
      split
      · rfl
      · exact rtake_of_length_le (by rw [length_rtake]; exact Nat.min_le_left _ _)

end Fetching

end CardanoSdk.Wallet
