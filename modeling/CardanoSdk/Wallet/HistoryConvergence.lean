import CardanoSdk.Wallet.HistorySync

/-!
After one run of `sample` the local list is the end of the chain exactly if the two part
in a way that the comparison of the last blocks shows.
-/

namespace CardanoSdk.Wallet

open Lib
open InputSelection (PaymentAddress)

section Run

variable {chainHistoryProvider : ChainHistoryProvider} {addresses : List PaymentAddress}
  {chain : List HydratedTx} {limit : ℕ}

variable {state : SyncState} {last : HydratedTx}

theorem sample_succ (hchain : IsChain chain)
    (hanswers : chainHistoryProvider.AnswersFrom addresses chain)
    (h : IsChain state.localTransactions) (hlast : state.localTransactions.getLast? = some last)
    {fuel : ℕ} (hfuel : chain.length < fuel) : let lowerBound := last.blockHeader.blockNo
    sample chainHistoryProvider addresses limit (fuel + 1) state =
      if sameTxAndOrder (atBlock lowerBound state.localTransactions) (since lowerBound chain) then
        some (state.merge limit lowerBound (since lowerBound chain))
      else sample chainHistoryProvider addresses limit fuel
        (state.revert lowerBound (since lowerBound chain)) := by
  intro lowerBound
  have hblock := h.getLastTransactionsAtBlock_eq (h.blockNo_le_last hlast)
  have hmem : last ∈ atBlock lowerBound state.localTransactions :=
    List.mem_filter.mpr ⟨List.mem_of_getLast? hlast, decide_eq_true rfl⟩
  have hfetched := allTransactionsSince_eq hchain hanswers lowerBound hfuel
  rw [sample, hlast]
  simp only [hfetched, Option.bind_eq_bind, Option.bind_some, lowerBound, hblock]
  by_cases hsame : sameTxAndOrder (atBlock lowerBound state.localTransactions)
      (since lowerBound chain)
  · have hfirst := (sameTxAndOrder_iff _ _).mp hsame
    have hsome : (since lowerBound chain).length ≠ 0 := by
      have hle := hfirst.length_le
      have hpos := List.length_pos_of_mem hmem
      rw [List.length_map, List.length_map] at hle
      omega
    rw [if_neg hsome, if_pos hsame]
    simp only [lowerBound] at hsame
    simp only [hsame, Bool.not_true, Bool.false_eq_true, if_false]
    rfl
  · rw [if_neg hsame]
    simp only [lowerBound, Bool.not_eq_true] at hsame
    simp only [hsame, Bool.not_false, if_true, ite_self]

theorem agreesAt_last_iff {transactions : List HydratedTx}
    (hlast : transactions.getLast? = some last) :
    AgreesAt chain transactions last.blockHeader.blockNo ↔
      sameTxAndOrder (atBlock last.blockHeader.blockNo transactions)
        (since last.blockHeader.blockNo chain) = true := by
  rw [sameTxAndOrder_iff]
  constructor
  · exact AgreesAt.first
  · intro hfirst
    refine ⟨?_, hfirst⟩
    apply List.ne_nil_of_mem
    exact List.mem_filter.mpr ⟨List.mem_of_getLast? hlast, decide_eq_true rfl⟩

theorem ran_fetch (hempty : state.localTransactions = []) :
    Ran chain limit state (if (chain.rtake limit).length > 0 then state.setAll (chain.rtake limit)
      else { state with localTransactions := chain.rtake limit }) := by
  have hnone (blockNo : ℕ) : ¬ AgreesAt chain state.localTransactions blockNo := by
    intro hagrees
    apply hagrees.nonempty
    rw [hempty]
    rfl
  constructor
  · refine ⟨[], ?_, List.nil_sublist _, fun tx => iff_of_false List.not_mem_nil ?_⟩
    · rw [List.append_nil]
      split <;> rfl
    · rintro ⟨hstored, _, _⟩
      rw [hempty] at hstored
      cases hstored
  · intro _
    split
    · next hsome => exact ⟨rfl, by rw [if_neg (List.ne_nil_of_length_pos hsome)]; rfl⟩
    · next hlength =>
        have hnil := List.eq_nil_of_length_eq_zero (Nat.eq_zero_of_not_pos hlength)
        exact ⟨rfl, by rw [if_pos hnil, List.append_nil]⟩
  · intro blockNo hmeet
    exact absurd hmeet.1 (hnone blockNo)

/-- Every run ends. The induction is on the length of the local list: a revert
takes its last block away. -/
theorem exists_run (hchain : IsChain chain)
    (hanswers : chainHistoryProvider.AnswersFrom addresses chain) (n : ℕ) (state : SyncState)
    (hlength : state.localTransactions.length ≤ n) (h : IsChain state.localTransactions)
    (hlimit : state.localTransactions.length ≤ limit) :
    ∃ result, (∀ fuel, n + chain.length + 2 ≤ fuel →
      sample chainHistoryProvider addresses limit fuel state = some result) ∧
      Ran chain limit state result := by
  induction n generalizing state with
  | zero =>
    have hempty := List.length_eq_zero_iff.mp (Nat.le_zero.mp hlength)
    refine ⟨_, fun fuel hfuel => ?_, ran_fetch hempty⟩
    obtain ⟨fuel, rfl⟩ := Nat.exists_eq_succ_of_ne_zero (show fuel ≠ 0 by omega)
    rw [sample, hempty]
    simp only [List.getLast?_nil, fetchInitialTransactions_eq hchain hanswers,
      Option.bind_eq_bind, Option.bind_some, Option.pure_def]
  | succ n ih =>
    cases hlast : state.localTransactions.getLast? with
    | none =>
      have hempty := List.getLast?_eq_none_iff.mp hlast
      obtain ⟨result, hresult, hran⟩ := ih state (by rw [hempty]; exact Nat.zero_le n) h hlimit
      exact ⟨result, fun fuel hfuel => hresult fuel (by omega), hran⟩
    | some last =>
      have hbound := h.blockNo_le_last hlast
      by_cases hagrees : AgreesAt chain state.localTransactions last.blockHeader.blockNo
      · refine ⟨_, fun fuel hfuel => ?_, Ran.of_merge h hchain hlimit hbound hagrees⟩
        obtain ⟨fuel, rfl⟩ := Nat.exists_eq_succ_of_ne_zero (show fuel ≠ 0 by omega)
        rw [sample_succ hchain hanswers h hlast (by omega),
          if_pos ((agreesAt_last_iff hlast).mp hagrees)]
      · have hshorter : (before last.blockHeader.blockNo state.localTransactions).length <
            state.localTransactions.length := by
          apply List.length_filter_lt_length_iff_exists.mpr
          exact ⟨last, List.mem_of_getLast? hlast, by simp⟩
        have hrevert := SyncState.revert_eq h hbound (since last.blockHeader.blockNo chain)
        obtain ⟨result, hresult, hran⟩ := ih
          (state.revert last.blockHeader.blockNo (since last.blockHeader.blockNo chain))
          (by rw [hrevert]; exact Nat.le_of_lt_succ (hshorter.trans_le hlength))
          (by rw [hrevert]; exact h.sublist List.filter_sublist)
          (by rw [hrevert]; exact hshorter.le.trans hlimit)
        refine ⟨result, fun fuel hfuel => ?_, Ran.of_revert h hbound hagrees hran⟩
        obtain ⟨fuel, rfl⟩ := Nat.exists_eq_succ_of_ne_zero (show fuel ≠ 0 by omega)
        rw [sample_succ hchain hanswers h hlast (by omega),
          if_neg fun hsame => hagrees ((agreesAt_last_iff hlast).mpr hsame)]
        exact hresult fuel (by omega)

end Run

/-- The run returns this, given enough fuel. -/
def Ends (chainHistoryProvider : ChainHistoryProvider) (addresses : List PaymentAddress)
    (limit : ℕ) (localTransactions : List HydratedTx) (result : SyncState) : Prop :=
  ∃ enough, ∀ fuel, enough ≤ fuel →
    sample chainHistoryProvider addresses limit fuel { localTransactions } = some result

structure Synchronised (chain localTransactions : List HydratedTx) (limit : ℕ)
    (result : SyncState) : Prop where
  last : ∃ k ≤ limit, result.localTransactions = chain.rtake k
  ordered : result.localTransactions.Pairwise Precedes
  distinct : (result.localTransactions.map HydratedTx.id).Nodup
  onChain : ∀ tx ∈ result.localTransactions, tx ∈ chain
  stored : result.localTransactions ≠ localTransactions →
    result.stored.getLast? = some result.localTransactions
  rolledBack : ∀ tx ∈ localTransactions, tx.id ∉ chain.map HydratedTx.id →
    (result.rolledBack.map HydratedTx.id).count tx.id = 1
  onlyRolledBack : ∀ tx ∈ result.rolledBack, tx.id ∉ chain.map HydratedTx.id

/-- The local list and the chain part where the last blocks are seen to differ:
a chain is left of it if there was a local list; what is cut off and still on the
chain is in no earlier block than before; and up to the block where they meet the
local list is on the chain, and is its end as far as the limit keeps it. -/
structure ForksCleanly (chain localTransactions : List HydratedTx) (limit : ℕ) : Prop where
  nonempty : localTransactions ≠ [] → chain ≠ []
  cut : ∀ tx ∈ localTransactions,
    (∀ blockNo, AgreesAt chain localTransactions blockNo → blockNo < tx.blockHeader.blockNo) →
    tx.id ∈ chain.map HydratedTx.id →
    tx.id ∈ (since tx.blockHeader.blockNo chain).map HydratedTx.id
  kept : ∀ blockNo, AgreesAt chain localTransactions blockNo →
    ∀ tx ∈ before blockNo localTransactions, tx.id ∈ chain.map HydratedTx.id
  inPlace : ∀ blockNo, MeetAt chain localTransactions blockNo →
    ∃ earlier, earlier ++ added chain localTransactions blockNo = chain ∧
      (keptUpTo chain localTransactions blockNo).rtake
        (limit - (added chain localTransactions blockNo).length) <:+ earlier

theorem Ends.unique {chainHistoryProvider : ChainHistoryProvider}
    {addresses : List PaymentAddress} {limit : ℕ} {localTransactions : List HydratedTx}
    {result result' : SyncState}
    (h : Ends chainHistoryProvider addresses limit localTransactions result)
    (h' : Ends chainHistoryProvider addresses limit localTransactions result') :
    result = result' := by
  obtain ⟨enough, hends⟩ := h
  obtain ⟨enough', hends'⟩ := h'
  have hresult := hends (max enough enough') (le_max_left _ _)
  rw [hends' (max enough enough') (le_max_right _ _)] at hresult
  exact (Option.some.inj hresult).symm

section Convergence

variable {chain transactions : List HydratedTx} {limit : ℕ} {result : SyncState}

variable {blockNo : ℕ}

theorem AgreesAt.mem_chain (h : AgreesAt chain transactions blockNo) {tx : HydratedTx}
    (hmem : tx ∈ atBlock blockNo transactions) : tx.id ∈ chain.map HydratedTx.id := by
  have hsince := h.first.subset (List.mem_map_of_mem hmem)
  exact (List.filter_sublist.map HydratedTx.id).subset hsince

theorem exists_meetAt (h : IsChain transactions) (hagrees : AgreesAt chain transactions blockNo) :
    ∃ b, MeetAt chain transactions b := by
  cases hlast : transactions.getLast? with
  | none =>
    rw [List.getLast?_eq_none_iff.mp hlast] at hagrees
    exact absurd rfl hagrees.nonempty
  | some last =>
    have hbounded : BddAbove {b | AgreesAt chain transactions b} :=
      ⟨last.blockHeader.blockNo, fun _ hb => AgreesAt.le_of_last hb (h.blockNo_le_last hlast)⟩
    exact ⟨_, Nat.sSup_mem ⟨blockNo, hagrees⟩ hbounded, fun _ hb => le_csSup hbounded hb⟩

theorem added_suffix (hchain : IsChain chain) (blockNo : ℕ) :
    ∃ earlier, earlier ++ added chain transactions blockNo = chain := by
  have hdropped : added chain transactions blockNo <:+ since blockNo chain :=
    List.drop_suffix _ _
  have hsince : since blockNo chain <:+ chain := ⟨_, hchain.before_append_since blockNo⟩
  exact hdropped.trans hsince

theorem Ran.forksCleanly (h : IsChain transactions) (hchain : IsChain chain)
    (hran : Ran chain limit { localTransactions := transactions } result)
    (hsync : Synchronised chain transactions limit result) :
    ForksCleanly chain transactions limit := by
  obtain ⟨emitted, hrolledBack, hsublist, hmem⟩ := hran.rolledBack
  rw [List.nil_append] at hrolledBack
  constructor
  · rintro hsome rfl
    have hnone (blockNo : ℕ) : ¬ AgreesAt [] transactions blockNo := by
      intro hagrees
      apply hagrees.nonempty
      exact List.map_eq_nil_iff.mp (List.eq_nil_of_prefix_nil hagrees.first)
    obtain ⟨hresult, hstored⟩ := hran.fetched hnone
    rw [List.rtake_nil] at hresult
    rw [List.rtake_nil, if_pos rfl, List.append_nil] at hstored
    have hset := hsync.stored (by rw [hresult]; exact fun heq => hsome heq.symm)
    rw [hstored] at hset
    cases hset
  · intro tx hstored hcut honChain
    by_contra hunseen
    have hemitted : tx ∈ result.rolledBack := by
      rw [hrolledBack]
      exact (hmem tx).mpr ⟨hstored, hcut, hunseen⟩
    exact hsync.onlyRolledBack tx hemitted honChain
  · intro blockNo hagrees tx hbefore
    obtain ⟨hstored, hlt⟩ := List.mem_filter.mp hbefore
    by_contra hoff
    have hcount := hsync.rolledBack tx hstored hoff
    have hlisted : tx.id ∈ result.rolledBack.map HydratedTx.id := by
      apply List.one_le_count_iff.mp
      exact hcount.ge
    obtain ⟨tx', hemitted, hid⟩ := List.mem_map.mp hlisted
    rw [hrolledBack] at hemitted
    have hrolled := (hmem tx').mp hemitted
    have hsame : tx' = tx := List.inj_on_of_nodup_map h.distinct hrolled.stored hstored hid
    have hgt := hrolled.cut blockNo hagrees
    rw [hsame] at hgt
    exact absurd (of_decide_eq_true hlt) (not_lt_of_gt hgt)
  · intro blockNo hmeet
    obtain ⟨earlier, hearlier⟩ := @added_suffix chain transactions hchain blockNo
    refine ⟨earlier, hearlier, ?_⟩
    obtain ⟨k, _, hlast⟩ := hsync.last
    have hsuffix : result.localTransactions <:+ chain := hlast ▸ rtake_suffix chain k
    rw [(hran.merged blockNo hmeet).1] at hsuffix
    apply (rtake_append_suffix_iff _ _ (added chain transactions blockNo) limit).mp
    rw [hearlier]
    exact hsuffix

theorem Ran.suffix (h : IsChain transactions)
    (hran : Ran chain limit { localTransactions := transactions } result)
    (hclean : ForksCleanly chain transactions limit) :
    result.localTransactions <:+ chain ∧ result.localTransactions.length ≤ limit := by
  by_cases hany : ∃ blockNo, AgreesAt chain transactions blockNo
  · obtain ⟨_, hagrees⟩ := hany
    obtain ⟨blockNo, hmeet⟩ := exists_meetAt h hagrees
    obtain ⟨earlier, hearlier, hkept⟩ := hclean.inPlace blockNo hmeet
    rw [(hran.merged blockNo hmeet).1]
    constructor
    · have hsuffix := (rtake_append_suffix_iff _ _ _ _).mpr hkept
      rw [hearlier] at hsuffix
      exact hsuffix
    · rw [length_rtake]
      exact Nat.min_le_left _ _
  · rw [(hran.fetched fun blockNo hagrees => hany ⟨blockNo, hagrees⟩).1]
    exact ⟨rtake_suffix chain limit, by rw [length_rtake]; exact Nat.min_le_left _ _⟩

theorem Ran.stored_last (h : IsChain transactions) (hlimit : transactions.length ≤ limit)
    (hran : Ran chain limit { localTransactions := transactions } result)
    (hclean : ForksCleanly chain transactions limit)
    (hchanged : result.localTransactions ≠ transactions) :
    result.stored.getLast? = some result.localTransactions := by
  by_cases hany : ∃ blockNo, AgreesAt chain transactions blockNo
  · obtain ⟨_, hagrees⟩ := hany
    obtain ⟨blockNo, hmeet⟩ := exists_meetAt h hagrees
    rcases (hran.merged blockNo hmeet).2 with hstored | ⟨_, hsame, _⟩
    · rw [hstored]
      rfl
    · exact absurd hsame hchanged
  · obtain ⟨hresult, hstored⟩ := hran.fetched fun blockNo hagrees => hany ⟨blockNo, hagrees⟩
    have hsome : chain.rtake limit ≠ [] := by
      intro hnil
      have hlocal : transactions ≠ [] := by
        intro hempty
        exact hchanged (by rw [hresult, hnil, hempty])
      have hpos := List.length_pos_iff.mpr hlocal
      have hchainPos := List.length_pos_iff.mpr (hclean.nonempty hlocal)
      have hlength := length_rtake chain limit
      rw [hnil, List.length_nil] at hlength
      omega
    rw [hstored, hresult, if_neg hsome]
    rfl

theorem Ran.synchronised (h : IsChain transactions) (hchain : IsChain chain)
    (hlimit : transactions.length ≤ limit)
    (hran : Ran chain limit { localTransactions := transactions } result)
    (hclean : ForksCleanly chain transactions limit) :
    Synchronised chain transactions limit result := by
  obtain ⟨emitted, hrolledBack, hsublist, hmem⟩ := hran.rolledBack
  rw [List.nil_append] at hrolledBack
  obtain ⟨hsuffix, hlength⟩ := hran.suffix h hclean
  have hresult : IsChain result.localTransactions := hchain.sublist hsuffix.sublist
  refine ⟨⟨_, hlength, List.suffix_iff_eq_drop.mp hsuffix⟩, hresult.ordered, hresult.distinct,
    fun tx htx => hsuffix.subset htx, hran.stored_last h hlimit hclean, ?_, ?_⟩
  · intro tx hstored hoff
    have hcut (blockNo : ℕ) (hagrees : AgreesAt chain transactions blockNo) :
        blockNo < tx.blockHeader.blockNo := by
      by_contra hle
      apply hoff
      rcases (Nat.le_of_not_lt hle).lt_or_eq with hlt | heq
      · exact hclean.kept blockNo hagrees tx
          (List.mem_filter.mpr ⟨hstored, decide_eq_true hlt⟩)
      · exact hagrees.mem_chain (List.mem_filter.mpr ⟨hstored, decide_eq_true heq⟩)
    have hunseen : tx.id ∉ (since tx.blockHeader.blockNo chain).map HydratedTx.id := by
      intro hseen
      exact hoff ((List.filter_sublist.map HydratedTx.id).subset hseen)
    have hemitted : tx ∈ emitted := (hmem tx).mpr ⟨hstored, hcut, hunseen⟩
    have hdistinct : (emitted.map HydratedTx.id).Nodup := by
      have hreversed : (transactions.reverse.map HydratedTx.id).Nodup := by
        rw [List.map_reverse, List.nodup_reverse]
        exact h.distinct
      exact hreversed.sublist (hsublist.map HydratedTx.id)
    rw [hrolledBack]
    exact List.count_eq_one_of_mem hdistinct (List.mem_map_of_mem hemitted)
  · intro tx hemitted honChain
    rw [hrolledBack] at hemitted
    have hrolled := (hmem tx).mp hemitted
    exact hrolled.unseen (hclean.cut tx hrolled.stored hrolled.cut honChain)

end Convergence

/-- One run over what an earlier synchronisation left ends, and brings it up to
the chain exactly if the two fork cleanly. -/
theorem sample_synchronises {chain earlier : List HydratedTx} {limit k : ℕ}
    {chainHistoryProvider : ChainHistoryProvider} {addresses : List PaymentAddress}
    (hchain : IsChain chain) (hearlier : IsChain earlier) (hk : k ≤ limit)
    (hanswers : chainHistoryProvider.AnswersFrom addresses chain) :
    ∃ result, Ends chainHistoryProvider addresses limit (earlier.rtake k) result ∧
      (Synchronised chain (earlier.rtake k) limit result ↔
        ForksCleanly chain (earlier.rtake k) limit) := by
  have h : IsChain (earlier.rtake k) := hearlier.sublist (rtake_suffix earlier k).sublist
  have hlimit : (earlier.rtake k).length ≤ limit := by
    rw [length_rtake]
    omega
  obtain ⟨result, hresult, hran⟩ := exists_run hchain hanswers (earlier.rtake k).length
    { localTransactions := earlier.rtake k } le_rfl h hlimit
  exact ⟨result, ⟨_, hresult⟩, hran.forksCleanly h hchain, hran.synchronised h hchain hlimit⟩

def txInBlock (id : UInt8) (blockNo : ℕ) : HydratedTx where
  id := [id]
  index := 0
  blockHeader := { blockNo, slot := 20 * blockNo, hash := "block" ++ toString blockNo }

theorem isChain_txInBlock {blocks : List (UInt8 × ℕ)}
    (hblocks : blocks.Pairwise fun a b => a.2 < b.2) (hids : (blocks.map Prod.fst).Nodup) :
    IsChain (blocks.map fun (id, blockNo) => txInBlock id blockNo) := by
  constructor
  · rw [List.pairwise_map]
    apply hblocks.imp
    intro a b hlt
    exact Or.inr ⟨hlt, Nat.mul_lt_mul_of_pos_left hlt (by decide)⟩
  · have hsingleton : Function.Injective fun id : UInt8 => [id] := fun _ _ heq =>
      (List.cons.inj heq).1
    rw [List.map_map]
    have hmap := hids.map hsingleton
    rw [List.map_map] at hmap
    exact hmap

def extendedChain : List HydratedTx := [(1, 1), (2, 2), (3, 3)].map fun (id, blockNo) =>
  txInBlock id blockNo

theorem sample_synchronises_extended :
    IsChain extendedChain ∧
    ∃ result, Ends ⟨answer extendedChain⟩ ["addr"] 10
        ([txInBlock 1 1, txInBlock 2 2].rtake 2) result ∧
      (Synchronised extendedChain ([txInBlock 1 1, txInBlock 2 2].rtake 2) 10 result ↔
        ForksCleanly extendedChain ([txInBlock 1 1, txInBlock 2 2].rtake 2) 10) := by
  have hchain : IsChain extendedChain := isChain_txInBlock (by decide) (by decide)
  have hearlier : IsChain [txInBlock 1 1, txInBlock 2 2] :=
    @isChain_txInBlock [(1, 1), (2, 2)] (by decide) (by decide)
  exact ⟨hchain, sample_synchronises hchain hearlier (by decide) fun _ _ => rfl⟩

/-- The second transaction of the wallet, once in block 3, is now in block 2. -/
def movedChain : List HydratedTx := [(1, 1), (2, 2)].map fun (id, blockNo) => txInBlock id blockNo

theorem not_sample_synchronises :
    ¬ ∀ (chain earlier : List HydratedTx) (limit k : ℕ) (chainHistoryProvider : ChainHistoryProvider)
      (addresses : List PaymentAddress), IsChain chain → IsChain earlier → k ≤ limit →
      chainHistoryProvider.AnswersFrom addresses chain →
      ∃ result, Ends chainHistoryProvider addresses limit (earlier.rtake k) result ∧
        Synchronised chain (earlier.rtake k) limit result := by
  intro hall
  have hchain : IsChain movedChain := isChain_txInBlock (by decide) (by decide)
  have hearlier : IsChain [txInBlock 1 1, txInBlock 2 3] :=
    @isChain_txInBlock [(1, 1), (2, 3)] (by decide) (by decide)
  have hanswers : ChainHistoryProvider.AnswersFrom ⟨answer movedChain⟩ ["addr"] movedChain :=
    fun _ _ => rfl
  obtain ⟨result, hends, hsync⟩ := hall movedChain _ 10 2 ⟨answer movedChain⟩ ["addr"] hchain
    hearlier (by decide) hanswers
  obtain ⟨result', hresult, hran⟩ := @exists_run _ _ movedChain 10 hchain hanswers 2
    { localTransactions := [txInBlock 1 1, txInBlock 2 3] } le_rfl hearlier (by decide)
  obtain rfl := hends.unique ⟨_, hresult⟩
  obtain ⟨emitted, hrolledBack, _, hmem⟩ := hran.rolledBack
  have hrolled : RolledBack movedChain [txInBlock 1 1, txInBlock 2 3] (txInBlock 2 3) := by
    refine ⟨by simp, fun blockNo hagrees => ?_, by decide⟩
    have hle : blockNo ≤ 3 := by
      apply hagrees.le_of_last
      decide
    apply lt_of_le_of_ne hle
    rintro rfl
    exact absurd hagrees.first (by decide)
  apply hsync.onlyRolledBack (txInBlock 2 3)
  · rw [hrolledBack]
    exact List.mem_append_right _ ((hmem _).mpr hrolled)
  · decide

end CardanoSdk.Wallet
