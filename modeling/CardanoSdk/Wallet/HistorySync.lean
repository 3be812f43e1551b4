import CardanoSdk.Wallet.TransactionHistory
import Mathlib.Order.Bounds.Basic

/-!
One run of `sample` against a chain, described by what it adds to a state, so that a
revert followed by the rest of the run is a run.
-/

namespace CardanoSdk.Wallet

open Lib
open InputSelection (PaymentAddress)

/-- The local transactions of a block are the first ones of the chain from that
block on. -/
structure AgreesAt (chain localTransactions : List HydratedTx) (blockNo : ℕ) : Prop where
  nonempty : atBlock blockNo localTransactions ≠ []
  first : (atBlock blockNo localTransactions).map HydratedTx.id <+:
    (since blockNo chain).map HydratedTx.id

def MeetAt (chain localTransactions : List HydratedTx) (blockNo : ℕ) : Prop :=
  IsGreatest {b | AgreesAt chain localTransactions b} blockNo

/-- The local list up to a block, with the headers of that block brought up to
date where the slot has changed. -/
def keptUpTo (chain localTransactions : List HydratedTx) (blockNo : ℕ) : List HydratedTx :=
  before blockNo localTransactions ++
    (atBlock blockNo localTransactions).map (updateBlockHeader (since blockNo chain))

def added (chain localTransactions : List HydratedTx) (blockNo : ℕ) : List HydratedTx :=
  (since blockNo chain).drop (atBlock blockNo localTransactions).length

/-- A local transaction of a block that is cut off, and not found in the chain
from that block on. -/
structure RolledBack (chain localTransactions : List HydratedTx) (tx : HydratedTx) : Prop where
  stored : tx ∈ localTransactions
  cut : ∀ blockNo, AgreesAt chain localTransactions blockNo → blockNo < tx.blockHeader.blockNo
  unseen : tx.id ∉ (since tx.blockHeader.blockNo chain).map HydratedTx.id

structure Ran (chain : List HydratedTx) (limit : ℕ) (state result : SyncState) : Prop where
  rolledBack : ∃ emitted, result.rolledBack = state.rolledBack ++ emitted ∧
    emitted.Sublist state.localTransactions.reverse ∧
    ∀ tx, tx ∈ emitted ↔ RolledBack chain state.localTransactions tx
  fetched : (∀ blockNo, ¬ AgreesAt chain state.localTransactions blockNo) →
    result.localTransactions = chain.rtake limit ∧
    result.stored = state.stored ++ if chain.rtake limit = [] then [] else [chain.rtake limit]
  merged : ∀ blockNo, MeetAt chain state.localTransactions blockNo →
    result.localTransactions = (keptUpTo chain state.localTransactions blockNo ++
      added chain state.localTransactions blockNo).rtake limit ∧
    (result.stored = state.stored ++ [result.localTransactions] ∨
      result.stored = state.stored ∧ result.localTransactions = state.localTransactions ∧
        state.rollbackOcurred = false)

theorem before_append_atBlock_split (blockNo : ℕ) (transactions : List HydratedTx) :
    (∀ tx ∈ before blockNo transactions, inBlock blockNo tx = false) ∧
      ∀ tx ∈ atBlock blockNo transactions, inBlock blockNo tx = true := by
  constructor
  · intro tx hmem
    have hlt := of_decide_eq_true (List.mem_filter.mp hmem).2
    exact decide_eq_false (by omega)
  · intro tx hmem
    exact (List.mem_filter.mp hmem).2

section LastBlock

variable {transactions : List HydratedTx} {blockNo : ℕ}

theorem IsChain.getLastTransactionsAtBlock_eq (h : IsChain transactions)
    (hlast : ∀ tx ∈ transactions, tx.blockHeader.blockNo ≤ blockNo) :
    getLastTransactionsAtBlock transactions blockNo = atBlock blockNo transactions := by
  obtain ⟨hbefore, hblock⟩ := before_append_atBlock_split blockNo transactions
  have hsplit := rtakeWhile_append hbefore hblock
  rw [h.before_append_atBlock hlast] at hsplit
  exact hsplit

theorem IsChain.rdropWhile_eq (h : IsChain transactions)
    (hlast : ∀ tx ∈ transactions, tx.blockHeader.blockNo ≤ blockNo) :
    transactions.rdropWhile (inBlock blockNo) = before blockNo transactions := by
  obtain ⟨hbefore, hblock⟩ := before_append_atBlock_split blockNo transactions
  have hsplit := rdropWhile_append hbefore hblock
  rw [h.before_append_atBlock hlast] at hsplit
  exact hsplit

end LastBlock

def emittedFor (newTransactions block : List HydratedTx) : List HydratedTx :=
  block.reverse.filter fun lastKnownTx => !newTransactions.any fun tx => tx.id = lastKnownTx.id

theorem popLastBlock_append {blockNo : ℕ} (newTransactions : List HydratedTx)
    {block rest : List HydratedTx} (hblock : ∀ tx ∈ block, tx.blockHeader.blockNo = blockNo)
    (hrest : ∀ tx ∈ rest, tx.blockHeader.blockNo ≠ blockNo) :
    popLastBlock blockNo newTransactions (block ++ rest) =
      (rest, block.filter fun lastKnownTx =>
        !newTransactions.any fun tx => tx.id = lastKnownTx.id) := by
  induction block with
  | nil =>
    cases rest with
    | nil => rfl
    | cons tx rest =>
      rw [List.nil_append, popLastBlock, if_neg (hrest tx List.mem_cons_self)]
      rfl
  | cons tx block ih =>
    have hrec := ih fun tx' hmem => hblock tx' (List.mem_cons_of_mem _ hmem)
    rw [List.cons_append, popLastBlock, if_pos (hblock tx List.mem_cons_self), hrec]
    by_cases hfound : newTransactions.any fun new => new.id = tx.id
    · simp only [hfound, if_true]
      rw [List.filter_cons_of_neg (by simp [hfound])]
    · rw [List.filter_cons_of_pos (by simp only [Bool.not_eq_true'] ; simpa using hfound)]
      simp only [hfound]
      rfl

variable {blockNo : ℕ} {state : SyncState} {chain : List HydratedTx}

theorem SyncState.revert_eq (h : IsChain state.localTransactions)
    (hlast : ∀ tx ∈ state.localTransactions, tx.blockHeader.blockNo ≤ blockNo)
    (newTransactions : List HydratedTx) :
    state.revert blockNo newTransactions = { state with
      localTransactions := before blockNo state.localTransactions
      rollbackOcurred := true
      rolledBack := state.rolledBack ++
        emittedFor newTransactions (atBlock blockNo state.localTransactions) } := by
  have hreversed : state.localTransactions.reverse =
      (atBlock blockNo state.localTransactions).reverse ++
        (before blockNo state.localTransactions).reverse := by
    rw [← List.reverse_append, h.before_append_atBlock hlast]
  have hpop := @popLastBlock_append blockNo newTransactions
    (atBlock blockNo state.localTransactions).reverse
    (before blockNo state.localTransactions).reverse
    (fun tx hmem => of_decide_eq_true (List.mem_filter.mp (List.mem_reverse.mp hmem)).2)
    (fun tx hmem => by
      have hlt := of_decide_eq_true (List.mem_filter.mp (List.mem_reverse.mp hmem)).2
      omega)
  have hbefore : IsChain (before blockNo state.localTransactions) :=
    h.sublist List.filter_sublist
  unfold SyncState.revert revertLastBlock
  rw [hreversed, hpop]
  simp only [List.reverse_reverse,
    deduplicateSortedArray_eq (noRepeats_of_nodup hbefore.distinct)]
  rfl

theorem sameTxAndOrder_iff (block newTransactions : List HydratedTx) :
    sameTxAndOrder block newTransactions = true ↔
      block.map HydratedTx.id <+: newTransactions.map HydratedTx.id := by
  induction block generalizing newTransactions with
  | nil => exact iff_of_true rfl List.nil_prefix
  | cons tx block ih =>
    cases newTransactions with
    | nil =>
      apply iff_of_false
      · exact Bool.false_ne_true
      · intro hfirst
        cases List.eq_nil_of_prefix_nil hfirst
    | cons new rest =>
      have hrec := ih rest
      simp only [sameTxAndOrder, Bool.and_eq_true, decide_eq_true_eq] at hrec ⊢
      simp only [List.length_cons, List.take_succ_cons, Nat.add_right_cancel_iff,
        List.zip_cons_cons, List.all_cons, Bool.and_eq_true, decide_eq_true_eq, List.map_cons,
        List.cons_prefix_cons, ← hrec]
      tauto

section Cut

variable {chain transactions : List HydratedTx} {blockNo b : ℕ}

theorem atBlock_before (hlt : b < blockNo) :
    atBlock b (before blockNo transactions) = atBlock b transactions := by
  unfold atBlock before
  rw [List.filter_filter]
  apply List.filter_congr
  intro tx _
  simp only [inBlock, ← Bool.decide_and, decide_eq_decide]
  omega

theorem before_before (hle : b ≤ blockNo) :
    before b (before blockNo transactions) = before b transactions := by
  unfold before
  rw [List.filter_filter]
  apply List.filter_congr
  intro tx _
  simp only [← Bool.decide_and, decide_eq_decide]
  omega

theorem AgreesAt.le_of_last (h : AgreesAt chain transactions b)
    (hlast : ∀ tx ∈ transactions, tx.blockHeader.blockNo ≤ blockNo) : b ≤ blockNo := by
  obtain ⟨tx, hmem⟩ := List.exists_mem_of_ne_nil _ h.nonempty
  obtain ⟨hstored, hblock⟩ := List.mem_filter.mp hmem
  rw [← of_decide_eq_true hblock]
  exact hlast tx hstored

theorem agreesAt_before (hlast : ∀ tx ∈ transactions, tx.blockHeader.blockNo ≤ blockNo)
    (hdiffers : ¬ AgreesAt chain transactions blockNo) :
    AgreesAt chain (before blockNo transactions) b ↔ AgreesAt chain transactions b := by
  constructor
  · intro h
    have hle := h.le_of_last fun tx hmem => hlast tx (List.mem_filter.mp hmem).1
    obtain ⟨tx, hmem⟩ := List.exists_mem_of_ne_nil _ h.nonempty
    obtain ⟨hstored, hblock⟩ := List.mem_filter.mp hmem
    have hlt : b < blockNo := by
      rw [← of_decide_eq_true hblock]
      exact of_decide_eq_true (List.mem_filter.mp hstored).2
    have hnonempty := h.nonempty
    have hfirst := h.first
    rw [atBlock_before hlt] at hnonempty hfirst
    exact ⟨hnonempty, hfirst⟩
  · intro h
    have hlt : b < blockNo := by
      apply lt_of_le_of_ne (h.le_of_last hlast)
      rintro rfl
      exact hdiffers h
    have hnonempty := h.nonempty
    have hfirst := h.first
    rw [← atBlock_before hlt] at hnonempty hfirst
    exact ⟨hnonempty, hfirst⟩

theorem meetAt_before (hlast : ∀ tx ∈ transactions, tx.blockHeader.blockNo ≤ blockNo)
    (hdiffers : ¬ AgreesAt chain transactions blockNo) :
    MeetAt chain (before blockNo transactions) b ↔ MeetAt chain transactions b := by
  have hset : {b | AgreesAt chain (before blockNo transactions) b} =
      {b | AgreesAt chain transactions b} := by
    ext b'
    exact agreesAt_before hlast hdiffers
  unfold MeetAt
  rw [hset]

variable {tx : HydratedTx}

theorem mem_emittedFor (hlast : ∀ tx ∈ transactions, tx.blockHeader.blockNo ≤ blockNo)
    (hdiffers : ¬ AgreesAt chain transactions blockNo) :
    tx ∈ emittedFor (since blockNo chain) (atBlock blockNo transactions) ↔
      RolledBack chain transactions tx ∧ tx.blockHeader.blockNo = blockNo := by
  have hunseen : (!(since blockNo chain).any fun new => new.id = tx.id) = true ↔
      tx.id ∉ (since blockNo chain).map HydratedTx.id := by
    simp [List.mem_map]
  unfold emittedFor
  rw [List.mem_filter, List.mem_reverse, hunseen, atBlock, List.mem_filter]
  constructor
  · rintro ⟨⟨hstored, hblock⟩, hnew⟩
    have heq := of_decide_eq_true hblock
    refine ⟨⟨hstored, fun b hagrees => ?_, heq ▸ hnew⟩, heq⟩
    rw [heq]
    apply lt_of_le_of_ne (hagrees.le_of_last hlast)
    rintro rfl
    exact hdiffers hagrees
  · rintro ⟨⟨hstored, _, hnew⟩, heq⟩
    exact ⟨⟨hstored, decide_eq_true heq⟩, heq ▸ hnew⟩

theorem rolledBack_before (hlast : ∀ tx ∈ transactions, tx.blockHeader.blockNo ≤ blockNo)
    (hdiffers : ¬ AgreesAt chain transactions blockNo) :
    RolledBack chain (before blockNo transactions) tx ↔
      RolledBack chain transactions tx ∧ tx.blockHeader.blockNo < blockNo := by
  constructor
  · rintro ⟨hstored, hcut, hunseen⟩
    obtain ⟨hmem, hlt⟩ := List.mem_filter.mp hstored
    exact ⟨⟨hmem, fun b hagrees => hcut b ((agreesAt_before hlast hdiffers).mpr hagrees), hunseen⟩,
      of_decide_eq_true hlt⟩
  · rintro ⟨⟨hstored, hcut, hunseen⟩, hlt⟩
    exact ⟨List.mem_filter.mpr ⟨hstored, decide_eq_true hlt⟩,
      fun b hagrees => hcut b ((agreesAt_before hlast hdiffers).mp hagrees), hunseen⟩

end Cut

variable {limit : ℕ} {newTransactions : List HydratedTx}

theorem Ran.of_revert {result : SyncState} (h : IsChain state.localTransactions)
    (hlast : ∀ tx ∈ state.localTransactions, tx.blockHeader.blockNo ≤ blockNo)
    (hdiffers : ¬ AgreesAt chain state.localTransactions blockNo)
    (hran : Ran chain limit (state.revert blockNo (since blockNo chain)) result) :
    Ran chain limit state result := by
  rw [SyncState.revert_eq h hlast] at hran
  constructor
  · obtain ⟨emitted, hrolledBack, hsublist, hmem⟩ := hran.rolledBack
    refine ⟨emittedFor (since blockNo chain) (atBlock blockNo state.localTransactions) ++ emitted,
      ?_, ?_, ?_⟩
    · rw [hrolledBack, List.append_assoc]
    · have hreversed : state.localTransactions.reverse =
          (atBlock blockNo state.localTransactions).reverse ++
            (before blockNo state.localTransactions).reverse := by
        rw [← List.reverse_append, h.before_append_atBlock hlast]
      rw [hreversed]
      exact List.filter_sublist.append hsublist
    · intro tx
      rw [List.mem_append, mem_emittedFor hlast hdiffers, hmem,
        rolledBack_before hlast hdiffers, ← and_or_left]
      constructor
      · exact And.left
      · intro hrolled
        exact ⟨hrolled, (hlast tx hrolled.stored).eq_or_lt⟩
  · intro hnone
    exact hran.fetched fun b hagrees => hnone b ((agreesAt_before hlast hdiffers).mp hagrees)
  · intro b hmeet
    have hlt : b < blockNo := by
      apply lt_of_le_of_ne (AgreesAt.le_of_last hmeet.1 hlast)
      rintro rfl
      exact hdiffers hmeet.1
    obtain ⟨hresult, hstored⟩ := hran.merged b ((meetAt_before hlast hdiffers).mpr hmeet)
    have hkept : keptUpTo chain (before blockNo state.localTransactions) b =
        keptUpTo chain state.localTransactions b := by
      rw [keptUpTo, keptUpTo, before_before hlt.le, atBlock_before hlt]
    have hadded : added chain (before blockNo state.localTransactions) b =
        added chain state.localTransactions b := by
      rw [added, added, atBlock_before hlt]
    rw [hkept, hadded] at hresult
    refine ⟨hresult, Or.inl ?_⟩
    rcases hstored with hset | ⟨_, _, hfresh⟩
    · exact hset
    · cases hfresh

theorem exists_same_of_areTransactionsSame {block : List HydratedTx}
    (h : areTransactionsSame block newTransactions = true) :
    newTransactions.length = block.length ∧ ∀ new ∈ newTransactions, ∃ tx ∈ block,
      tx.id = new.id ∧ tx.blockHeader.slot = new.blockHeader.slot := by
  obtain ⟨hlength, hall⟩ := Bool.and_eq_true_iff.mp h
  have hlength := of_decide_eq_true hlength
  refine ⟨hlength, fun new hmem => ?_⟩
  obtain ⟨i, hi, rfl⟩ := List.mem_iff_getElem.mp hmem
  have hpair : (block[i], newTransactions[i]) ∈ block.zip newTransactions := by
    have hzip : i < (block.zip newTransactions).length := by
      rw [List.length_zip]
      omega
    have hentry : (block.zip newTransactions)[i] = (block[i], newTransactions[i]) :=
      List.getElem_zip
    rw [← hentry]
    exact List.getElem_mem hzip
  have hsame := List.all_eq_true.mp hall _ hpair
  simp only [Bool.and_eq_true, decide_eq_true_eq] at hsame
  exact ⟨block[i], List.getElem_mem _, hsame⟩

/-- Headers are replaced only where a slot has changed. -/
theorem updateBlockHeader_eq {tx : HydratedTx}
    (h : ∀ new ∈ newTransactions, new.id = tx.id → new.blockHeader.slot = tx.blockHeader.slot) :
    updateBlockHeader newTransactions tx = tx := by
  unfold updateBlockHeader
  cases hfind : newTransactions.find? fun new => new.id = tx.id with
  | none => rfl
  | some new =>
    have hid := List.find?_some hfind
    have hslot := h new (List.mem_of_find?_eq_some hfind) (of_decide_eq_true hid)
    simp only [hslot, ne_eq, not_true_eq_false, if_false]

@[simp]
theorem updateBlockHeader_id (newTransactions : List HydratedTx) (tx : HydratedTx) :
    (updateBlockHeader newTransactions tx).id = tx.id := by
  unfold updateBlockHeader
  split
  · rfl
  · split <;> rfl

section Merge

variable {chain transactions : List HydratedTx} {blockNo : ℕ}

theorem keptUpTo_of_same (h : IsChain transactions)
    (hlast : ∀ tx ∈ transactions, tx.blockHeader.blockNo ≤ blockNo)
    (hsame : areTransactionsSame (atBlock blockNo transactions) (since blockNo chain) = true) :
    keptUpTo chain transactions blockNo = transactions ∧ added chain transactions blockNo = [] := by
  obtain ⟨hlength, hnew⟩ := exists_same_of_areTransactionsSame hsame
  have hdistinct : ((atBlock blockNo transactions).map HydratedTx.id).Nodup :=
    (h.sublist List.filter_sublist).distinct
  have hupdate : (atBlock blockNo transactions).map (updateBlockHeader (since blockNo chain)) =
      atBlock blockNo transactions := by
    conv_rhs => rw [← List.map_id (atBlock blockNo transactions)]
    apply List.map_congr_left
    intro tx hmem
    apply updateBlockHeader_eq
    intro new hnewMem hid
    obtain ⟨tx', hmem', hid', hslot⟩ := hnew new hnewMem
    have htx : tx' = tx := List.inj_on_of_nodup_map hdistinct hmem' hmem (hid'.trans hid)
    rw [← hslot, htx]
  refine ⟨?_, ?_⟩
  · rw [keptUpTo, hupdate, h.before_append_atBlock hlast]
  · rw [added, List.drop_eq_nil_iff, hlength]

theorem keptUpTo_ids (h : IsChain transactions)
    (hlast : ∀ tx ∈ transactions, tx.blockHeader.blockNo ≤ blockNo) :
    (keptUpTo chain transactions blockNo).map HydratedTx.id = transactions.map HydratedTx.id := by
  conv_rhs => rw [← h.before_append_atBlock hlast]
  rw [keptUpTo, List.map_append, List.map_append, List.map_map]
  congr 2
  funext tx
  exact updateBlockHeader_id _ tx

theorem noRepeats_keptUpTo_added (h : IsChain transactions) (hchain : IsChain chain)
    (hlast : ∀ tx ∈ transactions, tx.blockHeader.blockNo ≤ blockNo)
    (hagrees : AgreesAt chain transactions blockNo) :
    NoRepeats (keptUpTo chain transactions blockNo ++ added chain transactions blockNo) := by
  have hsince : ((since blockNo chain).map HydratedTx.id).Nodup :=
    (hchain.sublist List.filter_sublist).distinct
  have hkept : NoRepeats (keptUpTo chain transactions blockNo) := by
    apply noRepeats_of_nodup
    rw [keptUpTo_ids h hlast]
    exact h.distinct
  have hnew : NoRepeats ((atBlock blockNo transactions).map
      (updateBlockHeader (since blockNo chain)) ++ added chain transactions blockNo) := by
    apply noRepeats_of_nodup
    have hids : ((atBlock blockNo transactions).map (updateBlockHeader (since blockNo chain)) ++
        added chain transactions blockNo).map HydratedTx.id =
          (since blockNo chain).map HydratedTx.id := by
      have hfirst := List.prefix_iff_eq_take.mp hagrees.first
      rw [List.length_map] at hfirst
      conv_rhs => rw [← List.take_append_drop (atBlock blockNo transactions).length
        ((since blockNo chain).map HydratedTx.id), ← hfirst, ← List.map_drop]
      rw [List.map_append, List.map_map]
      congr 2
      funext tx
      exact updateBlockHeader_id _ tx
    rw [hids]
    exact hsince
  apply List.IsChain.append_overlap hkept hnew
  intro hnil
  exact hagrees.nonempty (List.map_eq_nil_iff.mp hnil)

end Merge

theorem AgreesAt.meetAt {transactions : List HydratedTx}
    (hagrees : AgreesAt chain transactions blockNo)
    (hlast : ∀ tx ∈ transactions, tx.blockHeader.blockNo ≤ blockNo) :
    MeetAt chain transactions blockNo :=
  ⟨hagrees, fun _ hother => AgreesAt.le_of_last hother hlast⟩

theorem SyncState.merge_rolledBack (state : SyncState) (limit lowerBound : ℕ)
    (newTransactions : List HydratedTx) :
    (state.merge limit lowerBound newTransactions).rolledBack = state.rolledBack := by
  simp only [SyncState.merge]
  split
  · rfl
  · split <;> rfl

theorem Ran.of_merge (h : IsChain state.localTransactions) (hchain : IsChain chain)
    (hlimit : state.localTransactions.length ≤ limit)
    (hlast : ∀ tx ∈ state.localTransactions, tx.blockHeader.blockNo ≤ blockNo)
    (hagrees : AgreesAt chain state.localTransactions blockNo) :
    Ran chain limit state (state.merge limit blockNo (since blockNo chain)) := by
  have hmeet := hagrees.meetAt hlast
  constructor
  · refine ⟨[], ?_, List.nil_sublist _, fun tx => iff_of_false List.not_mem_nil ?_⟩
    · rw [SyncState.merge_rolledBack, List.append_nil]
    · rintro ⟨hstored, hcut, _⟩
      exact absurd (hcut blockNo hagrees) (not_lt_of_ge (hlast tx hstored))
  · intro hnone
    exact absurd hagrees (hnone blockNo)
  · intro b hother
    obtain rfl : b = blockNo := hother.unique hmeet
    have hpositive : limit ≠ 0 := by
      rintro rfl
      have hempty := List.length_eq_zero_iff.mp (Nat.le_zero.mp hlimit)
      apply hagrees.nonempty
      rw [hempty]
      rfl
    rw [SyncState.merge, h.getLastTransactionsAtBlock_eq hlast, h.rdropWhile_eq hlast]
    have hset := deduplicateSortedArray_eq (noRepeats_keptUpTo_added h hchain hlast hagrees)
    unfold keptUpTo added at hset
    by_cases hsame : areTransactionsSame (atBlock b state.localTransactions) (since b chain)
    · obtain ⟨hkept, hadded⟩ := keptUpTo_of_same h hlast hsame
      rw [hkept, hadded, List.append_nil, rtake_of_length_le hlimit]
      simp only [hsame, Bool.not_true, Bool.false_eq_true, if_false]
      split
      · exact ⟨rfl, Or.inl rfl⟩
      · next hfresh =>
          exact ⟨rfl, Or.inr ⟨rfl, rfl, Bool.eq_false_of_not_eq_true hfresh⟩⟩
    · simp only [hsame, Bool.not_false, if_true, sliceLast, hpositive, if_false, hset]
      exact ⟨rfl, Or.inl rfl⟩

end CardanoSdk.Wallet
