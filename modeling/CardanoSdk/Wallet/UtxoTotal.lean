import CardanoSdk.Wallet.UtxoTracker

/-!
`total$` is the ledger after the transactions in flight: what is on chain or
created for the wallet, and spent by none of them.
-/

namespace CardanoSdk.Wallet

open Lib
open InputSelection (PaymentAddress)

/-- Transactions as they are listed in flight. The id of a transaction is the hash
of its body, so it names one list of outputs, and no body holds its own hash. -/
structure InFlight (transactionsInFlight : List TxInFlight) : Prop where
  distinct : ∀ tx ∈ transactionsInFlight, tx.outputs.Nodup
  hashed : ∀ tx ∈ transactionsInFlight, ∀ tx' ∈ transactionsInFlight, tx.id = tx'.id →
    tx.outputs.map OutputObject.txOut = tx'.outputs.map OutputObject.txOut
  grounded : ∀ tx ∈ transactionsInFlight, ∀ input ∈ tx.inputs, input.txId ≠ tx.id

def Spent (transactionsInFlight : List TxInFlight) (txIn : TxIn) : Prop :=
  ∃ tx ∈ transactionsInFlight, txIn ∈ tx.inputs

def Created (transactionsInFlight : List TxInFlight) (ownAddresses : List PaymentAddress)
    (utxo : Utxo) : Prop :=
  ∃ tx ∈ transactionsInFlight, ∃ output index, tx.outputs[index]? = some output ∧
    output.txOut.address ∈ ownAddresses ∧
    utxo = (⟨⟨tx.id, index⟩, output.txOut.address⟩, output.txOut)

theorem TxInFlight.uses_iff {tx : TxInFlight} {txIn : TxIn} :
    tx.uses txIn = true ↔ txIn ∈ tx.inputs := by
  rw [TxInFlight.uses, List.any_eq_true]
  constructor
  · rintro ⟨input, hmem, hsame⟩
    obtain ⟨htxId, hindex⟩ := of_decide_eq_true hsame
    cases input
    cases htxId
    cases hindex
    exact hmem
  · intro hmem
    exact ⟨txIn, hmem, decide_eq_true ⟨rfl, rfl⟩⟩

section Total

variable {transactionsInFlight : List TxInFlight} {ownAddresses : List PaymentAddress}

variable {utxo : Utxo}

variable {onChainUtxo : List Utxo} {tx : TxInFlight} {i : ℕ}

theorem mem_unusedOnChain :
    utxo ∈ unusedOnChain onChainUtxo transactionsInFlight ↔
      utxo ∈ onChainUtxo ∧ ¬Spent transactionsInFlight (txInOf utxo) := by
  rw [unusedOnChain, List.mem_filter, Bool.not_eq_true', ← Bool.not_eq_true, List.any_eq_true]
  simp only [TxInFlight.uses_iff]
  rfl

/-- No transaction uses its own outputs, so leaving it out of the search changes nothing. -/
theorem usedByOther_iff (hinFlight : InFlight transactionsInFlight)
    (htx : transactionsInFlight[i]? = some tx) (outputIndex : ℕ) :
    (transactionsInFlight.zipIdx.any fun (other, j) =>
      i != j && other.uses ⟨tx.id, outputIndex⟩) = true ↔
        Spent transactionsInFlight ⟨tx.id, outputIndex⟩ := by
  rw [List.any_eq_true]
  constructor
  · rintro ⟨⟨other, j⟩, hmem, hother⟩
    rw [Bool.and_eq_true] at hother
    exact ⟨other, List.fst_mem_of_mem_zipIdx hmem, TxInFlight.uses_iff.mp hother.2⟩
  · rintro ⟨other, hmem, hinput⟩
    obtain ⟨j, hj⟩ := List.mem_iff_getElem?.mp hmem
    refine ⟨(other, j), List.mem_zipIdx_iff_getElem?.mpr hj, ?_⟩
    rw [Bool.and_eq_true, bne_iff_ne]
    refine ⟨?_, TxInFlight.uses_iff.mpr hinput⟩
    rintro rfl
    rw [htx] at hj
    cases hj
    exact hinFlight.grounded tx hmem _ hinput rfl

theorem idxOf_output {outputs : List OutputObject} {output : OutputObject} {index : ℕ}
    (hdistinct : outputs.Nodup) (houtput : outputs[index]? = some output) :
    outputs.idxOf output = index := by
  obtain ⟨hlt, hget⟩ := List.getElem?_eq_some_iff.mp houtput
  rw [← hget]
  exact hdistinct.idxOf_getElem index hlt

theorem mem_newUtxo (hinFlight : InFlight transactionsInFlight)
    (htx : transactionsInFlight[i]? = some tx) :
    utxo ∈ newUtxo transactionsInFlight ownAddresses tx i ↔
      ∃ output index, tx.outputs[index]? = some output ∧ output.txOut.address ∈ ownAddresses ∧
        ¬Spent transactionsInFlight ⟨tx.id, index⟩ ∧
        utxo = (⟨⟨tx.id, index⟩, output.txOut.address⟩, output.txOut) := by
  have hdistinct := hinFlight.distinct tx (List.mem_of_getElem? htx)
  rw [newUtxo, List.mem_map]
  constructor
  · rintro ⟨⟨output, index⟩, hkept, hutxo⟩
    obtain ⟨hplace, hown⟩ := List.mem_filter.mp hkept
    have houtput : tx.outputs[index]? = some output := List.mem_zipIdx_iff_getElem?.mp hplace
    rw [Bool.and_eq_true, List.contains_iff_mem, Bool.not_eq_true', ← Bool.not_eq_true,
      usedByOther_iff hinFlight htx] at hown
    refine ⟨output, index, houtput, hown.1, hown.2, ?_⟩
    rw [← hutxo]
    simp only [idxOf_output hdistinct houtput]
  · rintro ⟨output, index, houtput, hown, hunspent, rfl⟩
    refine ⟨(output, index), List.mem_filter.mpr ⟨?_, ?_⟩, ?_⟩
    · exact List.mem_zipIdx_iff_getElem?.mpr houtput
    · rw [Bool.and_eq_true, List.contains_iff_mem, Bool.not_eq_true', ← Bool.not_eq_true,
        usedByOther_iff hinFlight htx]
      exact ⟨hown, hunspent⟩
    · simp only [idxOf_output hdistinct houtput]

theorem mem_flatMap_newUtxo (hinFlight : InFlight transactionsInFlight) :
    (utxo ∈ transactionsInFlight.zipIdx.flatMap fun (tx, i) =>
      newUtxo transactionsInFlight ownAddresses tx i) ↔
        Created transactionsInFlight ownAddresses utxo ∧
          ¬Spent transactionsInFlight (txInOf utxo) := by
  rw [List.mem_flatMap]
  constructor
  · rintro ⟨⟨tx, i⟩, hmem, hnew⟩
    have htx : transactionsInFlight[i]? = some tx := List.mem_zipIdx_iff_getElem?.mp hmem
    obtain ⟨output, index, houtput, hown, hunspent, rfl⟩ := (mem_newUtxo hinFlight htx).mp hnew
    exact ⟨⟨tx, List.mem_of_getElem? htx, output, index, houtput, hown, rfl⟩, hunspent⟩
  · rintro ⟨⟨tx, hlisted, output, index, houtput, hown, rfl⟩, hunspent⟩
    obtain ⟨i, htx⟩ := List.mem_iff_getElem?.mp hlisted
    refine ⟨(tx, i), List.mem_zipIdx_iff_getElem?.mpr htx, ?_⟩
    exact (mem_newUtxo hinFlight htx).mpr ⟨output, index, houtput, hown, hunspent, rfl⟩

theorem Created.functional (hinFlight : InFlight transactionsInFlight) {utxo' : Utxo}
    (hutxo : Created transactionsInFlight ownAddresses utxo)
    (hutxo' : Created transactionsInFlight ownAddresses utxo')
    (hsame : txInOf utxo = txInOf utxo') : utxo = utxo' := by
  obtain ⟨tx, hlisted, output, index, houtput, -, rfl⟩ := hutxo
  obtain ⟨tx', hlisted', output', index', houtput', -, rfl⟩ := hutxo'
  obtain ⟨hid, hindex⟩ := TxIn.mk.inj hsame
  cases hindex
  have hsameOutputs := congrArg (fun outputs => outputs[index]?) (hinFlight.hashed tx hlisted tx'
    hlisted' hid)
  simp only [List.getElem?_map, houtput, houtput', Option.map_some, Option.some.injEq]
    at hsameOutputs
  rw [hsameOutputs, hid]

theorem mem_totalUtxo (hinFlight : InFlight transactionsInFlight)
    (honChain : (onChainUtxo.map txInOf).Nodup) :
    utxo ∈ totalUtxo onChainUtxo transactionsInFlight ownAddresses ↔
      (utxo ∈ onChainUtxo ∨
          Created transactionsInFlight ownAddresses utxo ∧ txInOf utxo ∉ onChainUtxo.map txInOf) ∧
        ¬Spent transactionsInFlight (txInOf utxo) := by
  have hunused : ((unusedOnChain onChainUtxo transactionsInFlight).map txInOf).Nodup :=
    honChain.sublist (List.filter_sublist.map txInOf)
  rw [totalUtxo, mem_uniqWith_append hunused, mem_unusedOnChain, mem_flatMap_newUtxo hinFlight]
  · have hkeys : ¬Spent transactionsInFlight (txInOf utxo) →
        (txInOf utxo ∈ (unusedOnChain onChainUtxo transactionsInFlight).map txInOf ↔
          txInOf utxo ∈ onChainUtxo.map txInOf) := by
      intro hunspent
      simp only [List.mem_map, mem_unusedOnChain]
      constructor
      · rintro ⟨entry, ⟨hmem, -⟩, hsame⟩
        exact ⟨entry, hmem, hsame⟩
      · rintro ⟨entry, hmem, hsame⟩
        exact ⟨entry, ⟨hmem, hsame ▸ hunspent⟩, hsame⟩
    constructor
    · rintro (⟨hmem, hunspent⟩ | ⟨⟨hcreated, hunspent⟩, hnew⟩)
      · exact ⟨Or.inl hmem, hunspent⟩
      · rw [hkeys hunspent] at hnew
        exact ⟨Or.inr ⟨hcreated, hnew⟩, hunspent⟩
    · rintro ⟨hmem | ⟨hcreated, hnew⟩, hunspent⟩
      · exact Or.inl ⟨hmem, hunspent⟩
      · rw [← hkeys hunspent] at hnew
        exact Or.inr ⟨⟨hcreated, hunspent⟩, hnew⟩
  · intro entry hentry entry' hentry' hsame
    rw [mem_flatMap_newUtxo hinFlight] at hentry hentry'
    exact Created.functional hinFlight hentry.1 hentry'.1 hsame

end Total

variable {transactionsInFlight transactionsInFlight' : List TxInFlight} {utxo : List Utxo}

theorem InFlight.perm (h : InFlight transactionsInFlight)
    (hperm : transactionsInFlight.Perm transactionsInFlight') :
    InFlight transactionsInFlight' where
  distinct tx hmem := h.distinct tx (hperm.mem_iff.mpr hmem)
  hashed tx hmem tx' hmem' := h.hashed tx (hperm.mem_iff.mpr hmem) tx' (hperm.mem_iff.mpr hmem')
  grounded tx hmem := h.grounded tx (hperm.mem_iff.mpr hmem)

theorem mem_totalUtxo_perm {ownAddresses : List PaymentAddress}
    (hinFlight : InFlight transactionsInFlight) {onChainUtxo : List Utxo}
    (honChain : (onChainUtxo.map txInOf).Nodup)
    (hperm : transactionsInFlight.Perm transactionsInFlight') (utxo : Utxo) :
    utxo ∈ totalUtxo onChainUtxo transactionsInFlight' ownAddresses ↔
      utxo ∈ totalUtxo onChainUtxo transactionsInFlight ownAddresses := by
  rw [mem_totalUtxo (hinFlight.perm hperm) honChain, mem_totalUtxo hinFlight honChain]
  simp only [Created, Spent, hperm.mem_iff]

theorem distinctUntilChanged_txIns (previous : Option (List Utxo)) (current : List Utxo) :
    (distinctUntilChanged previous current).map txInOf = current.map txInOf := by
  cases previous with
  | none => rfl
  | some emitted =>
    rw [distinctUntilChanged]
    split
    · rename_i hsame
      exact of_decide_eq_true hsame
    · rfl

theorem mem_availableUtxo {unspendableUtxo : List Utxo} {entry : Utxo} :
    entry ∈ availableUtxo utxo unspendableUtxo ↔
      entry ∈ utxo ∧ txInOf entry ∉ unspendableUtxo.map txInOf := by
  rw [availableUtxo, List.mem_filter, Bool.not_eq_true', ← Bool.not_eq_true, List.any_eq_true]
  have hnamed : (∃ unspendable ∈ unspendableUtxo,
      decide (txInOf entry = txInOf unspendable) = true) ↔
        txInOf entry ∈ unspendableUtxo.map txInOf := by
    rw [List.mem_map]
    simp only [decide_eq_true_eq, eq_comm (a := txInOf entry)]
  rw [hnamed]

theorem availableUtxo_txIns {utxo' : List Utxo} (unspendableUtxo : List Utxo)
    (hsame : utxo.map txInOf = utxo'.map txInOf) :
    (availableUtxo utxo unspendableUtxo).map txInOf =
      (availableUtxo utxo' unspendableUtxo).map txInOf := by
  have hfilter : ∀ utxo : List Utxo, (availableUtxo utxo unspendableUtxo).map txInOf =
      (utxo.map txInOf).filter fun txIn =>
        !unspendableUtxo.any fun unspendable => txIn = txInOf unspendable := by
    intro utxo
    rw [availableUtxo, List.filter_map]
    rfl
  rw [hfilter, hfilter, hsame]

theorem UtxoEmissions.run_txIns (earlier : List UtxoSources) (sources : UtxoSources) :
    ∃ emissions, UtxoEmissions.run (earlier ++ [sources]) = some emissions ∧
      emissions.total.map txInOf = (totalUtxo sources.onChainUtxo sources.transactionsInFlight
        sources.ownAddresses).map txInOf ∧
      emissions.available.map txInOf = (availableUtxo (totalUtxo sources.onChainUtxo
        sources.transactionsInFlight sources.ownAddresses) sources.unspendableUtxo).map txInOf := by
  rw [UtxoEmissions.run, List.foldl_append]
  refine ⟨_, rfl, distinctUntilChanged_txIns _ _, ?_⟩
  calc (UtxoEmissions.update _ sources).available.map txInOf
      = (availableUtxo (UtxoEmissions.update _ sources).total sources.unspendableUtxo).map txInOf :=
        distinctUntilChanged_txIns _ _
    _ = _ := availableUtxo_txIns _ (distinctUntilChanged_txIns _ _)

theorem utxoTracker_total (sources : UtxoSources)
    (honChain : (sources.onChainUtxo.map txInOf).Nodup)
    (hinFlight : InFlight sources.transactionsInFlight) :
    let total := totalUtxo sources.onChainUtxo sources.transactionsInFlight sources.ownAddresses
    let available := availableUtxo total sources.unspendableUtxo
    (total.map txInOf).Nodup ∧
    (∀ utxo, utxo ∈ total ↔
      (utxo ∈ sources.onChainUtxo ∨
          Created sources.transactionsInFlight sources.ownAddresses utxo ∧
            txInOf utxo ∉ sources.onChainUtxo.map txInOf) ∧
        ¬Spent sources.transactionsInFlight (txInOf utxo)) ∧
    (∀ utxo, utxo ∈ available ↔
      utxo ∈ total ∧ txInOf utxo ∉ sources.unspendableUtxo.map txInOf) ∧
    (∀ transactionsInFlight', sources.transactionsInFlight.Perm transactionsInFlight' →
      ∀ utxo, utxo ∈ totalUtxo sources.onChainUtxo transactionsInFlight' sources.ownAddresses ↔
        utxo ∈ total) ∧
    ∀ earlier, ∃ emissions, UtxoEmissions.run (earlier ++ [sources]) = some emissions ∧
      emissions.total.map txInOf = total.map txInOf ∧
      emissions.available.map txInOf = available.map txInOf := by
  exact ⟨nodup_uniqWith, fun utxo => mem_totalUtxo hinFlight honChain,
    fun utxo => mem_availableUtxo,
    fun transactionsInFlight' hperm => mem_totalUtxo_perm hinFlight honChain hperm,
    fun earlier => UtxoEmissions.run_txIns earlier sources⟩

/-- An entry is on chain; one transaction spends it and is on chain already, the other
spends an output of the first. -/
def chainedSources : UtxoSources where
  onChainUtxo :=
    [(⟨⟨[1], 0⟩, "own"⟩, ⟨"own", ⟨9, none⟩, none, none, none⟩),
      (⟨⟨[2], 1⟩, "own"⟩, ⟨"own", ⟨5, none⟩, none, none, none⟩)]
  transactionsInFlight :=
    [⟨[3], [⟨[2], 0⟩], [⟨2, ⟨"own", ⟨4, none⟩, none, none, none⟩⟩]⟩,
      ⟨[2], [⟨[1], 0⟩], [⟨0, ⟨"own", ⟨4, none⟩, none, none, none⟩⟩,
        ⟨1, ⟨"own", ⟨5, none⟩, none, none, none⟩⟩]⟩]
  ownAddresses := ["own"]
  unspendableUtxo := []

theorem utxoTracker_total_sample :
    ((totalUtxo chainedSources.onChainUtxo chainedSources.transactionsInFlight
      chainedSources.ownAddresses).map txInOf).Nodup := by
  have honChain : (chainedSources.onChainUtxo.map txInOf).Nodup := by decide
  have hinFlight : InFlight chainedSources.transactionsInFlight := by
    exact {
      distinct := by decide
      hashed := by decide
      grounded := by decide }
  exact (utxoTracker_total chainedSources honChain hinFlight).1

example : totalUtxo chainedSources.onChainUtxo chainedSources.transactionsInFlight
    chainedSources.ownAddresses =
      [(⟨⟨[2], 1⟩, "own"⟩, ⟨"own", ⟨5, none⟩, none, none, none⟩),
        (⟨⟨[3], 0⟩, "own"⟩, ⟨"own", ⟨4, none⟩, none, none, none⟩)] := by
  decide

end CardanoSdk.Wallet
