import CardanoSdk.TxConstruction.LedgerOrder

/-!
Every redeemer asked for gets the position of its item in the ledger's order and takes its
execution units from the evaluation of that position.
-/

namespace CardanoSdk.TxConstruction

open Lib InputSelection

/-- The keys name items of the body, and a redeemer is asked for at script
accounts only. -/
structure KeyedByBody (redeemersByType : RedeemersByType) (body : TxBody) : Prop where
  occurs : ∀ entry ∈ redeemersByType.requested, Occurs body entry.1
  script : ∀ entry ∈ entriesOf redeemersByType.withdrawal,
    entry.1.paymentCredential.type = .scriptHash

/-- Asset ids hold a whole policy id, and no two withdrawals share a credential. -/
structure ProperBody (body : TxBody) : Prop where
  mint : ∀ assetId ∈ (entriesOf body.mint).map Prod.fst, 28 ≤ assetId.length
  credentials : (body.rewardAccounts.map RewardAccount.paymentCredential).Nodup

variable {body body' : TxBody} {item : RedeemerItem} {index : ℕ}

theorem LedgerIndex.unique {index' : ℕ} (h : LedgerIndex body index item)
    (h' : LedgerIndex body index' item) : index = index' := by
  cases item with
  | spend key =>
    obtain ⟨input, -, hkey, rfl⟩ := h
    obtain ⟨input', -, hkey', rfl⟩ := h'
    have hsame : ledgerInput input = ledgerInput input' :=
      txIdWithIndex_inj.mp (hkey.trans hkey'.symm)
    rw [rank, rank, hsame]
  | mint policyId => exact h.trans h'.symm
  | withdrawal rewardAccount => exact h.trans h'.symm
  | vote voter => exact h.trans h'.symm
  | certificate position => exact h.trans h'.symm
  | propose position => exact h.trans h'.symm

theorem uniq_perm {α : Type*} [DecidableEq α] {l l' : List α} (h : l.Perm l') :
    (uniq l).Perm (uniq l') := by
  rw [List.perm_ext_iff_of_nodup (nodup_uniq l) (nodup_uniq l')]
  intro a
  rw [mem_uniq, mem_uniq, h.mem_iff]

theorem SameItems.policyIds {body body' : TxBody} (h : SameItems body body') :
    body.policyIds.Perm body'.policyIds :=
  uniq_perm (h.mint.map _)

theorem SameItems.rewardAccounts {body body' : TxBody} (h : SameItems body body') :
    body.rewardAccounts.Perm body'.rewardAccounts :=
  h.withdrawals.map _

/-- A position does not depend on the order the body lists its items in. -/
theorem LedgerIndex.of_sameItems (hsame : SameItems body body') (h : LedgerIndex body' index item) :
    LedgerIndex body index item := by
  cases item with
  | spend key =>
    obtain ⟨input, hinput, hkey, hindex⟩ := h
    exact ⟨input, hsame.inputs.mem_iff.mpr hinput, hkey,
      hindex.trans (rank_perm hsame.inputs _).symm⟩
  | mint policyId => exact h.trans (rank_perm hsame.policyIds _).symm
  | withdrawal rewardAccount => exact h.trans (rank_perm hsame.rewardAccounts _).symm
  | vote voter => exact h.trans (rank_perm hsame.votingProcedures _).symm
  | certificate position => exact h
  | propose position => exact h

theorem Occurs.of_sameItems (hsame : SameItems body body') (h : Occurs body item) :
    Occurs body' item := by
  cases item with
  | spend key =>
    obtain ⟨input, hinput, hkey⟩ := h
    exact ⟨input, hsame.inputs.mem_iff.mp hinput, hkey⟩
  | mint policyId => exact hsame.policyIds.mem_iff.mp h
  | withdrawal rewardAccount => exact hsame.rewardAccounts.mem_iff.mp h
  | vote voter => exact hsame.votingProcedures.mem_iff.mp h
  | certificate position => trivial
  | propose position => trivial

theorem ProperBody.of_sameItems (hsame : SameItems body body') (h : ProperBody body) :
    ProperBody body' := by
  constructor
  · intro assetId hassetId
    exact h.mint assetId ((hsame.mint.map _).mem_iff.mpr hassetId)
  · exact (hsame.rewardAccounts.map _).nodup_iff.mp h.credentials

theorem LedgerIndex.injective (hbody : ProperBody body) {item' : RedeemerItem}
    (hitem : Occurs body item) (hitem' : Occurs body item') (hkeyed : item.Keyed)
    (hpurpose : item.purpose = item'.purpose) (h : LedgerIndex body index item)
    (h' : LedgerIndex body index item') : item = item' := by
  cases item with
  | spend key =>
    cases item' with
    | spend key' =>
      obtain ⟨input, hinput, hkey, hindex⟩ := h
      obtain ⟨input', hinput', hkey', hindex'⟩ := h'
      have hsame := key_eq_of_rank_eq hinput hinput' (hindex.symm.trans hindex')
      rw [← hkey, ← hkey', txIdWithIndex_inj.mpr hsame]
    | _ => cases hpurpose
  | mint policyId =>
    cases item' with
    | mint policyId' =>
      have hsame := key_eq_of_rank_eq hitem hitem' (h.symm.trans h')
      rw [byteOrder_injective hsame]
    | _ => cases hpurpose
  | withdrawal rewardAccount =>
    cases item' with
    | withdrawal rewardAccount' =>
      have hsame := key_eq_of_rank_eq hitem hitem' (h.symm.trans h')
      rw [List.inj_on_of_nodup_map hbody.credentials hitem hitem'
        (ledgerCredential_injective hsame)]
    | _ => cases hpurpose
  | vote voter =>
    cases item' with
    | vote voter' =>
      have hsame := key_eq_of_rank_eq hitem hitem' (h.symm.trans h')
      rw [ledgerVoter_injective hsame]
    | _ => cases hpurpose
  | certificate position => cases hkeyed
  | propose position => cases hkeyed

theorem Canonical.unique {body : TxBody} {executionUnits : ExUnits}
    {entry : RedeemerItem × Redeemer} {redeemer redeemer' : Redeemer}
    (h : Canonical body executionUnits entry redeemer)
    (h' : Canonical body executionUnits entry redeemer') : redeemer = redeemer' := by
  have hindex := h.index.unique h'.index
  obtain ⟨hpurpose, -, hdata, hmemory, hsteps⟩ := h
  obtain ⟨hpurpose', -, hdata', hmemory', hsteps'⟩ := h'
  cases redeemer
  cases redeemer'
  simp_all

theorem indexedAt_canonical {executionUnits : ExUnits} (item : RedeemerItem) {redeemer : Redeemer}
    {found : Option ℕ} {error : RedeemerError} (hfound : found = some index)
    (hindex : LedgerIndex body index item) :
    ∃ result, indexedAt redeemer item.purpose executionUnits found error = .ok result ∧
      Canonical body executionUnits (item, redeemer) result := by
  subst hfound
  exact ⟨_, rfl, rfl, hindex, rfl, rfl, rfl⟩

section Groups

variable {redeemersByType : RedeemersByType} {body : TxBody} (executionUnits : ExUnits)
  {localeCompare : String → String → ℤ}

theorem spendRedeemers_canonical (hcollation : CollatesAsBytes localeCompare body.inputs)
    (hkeys : ∀ entry ∈ entriesOf redeemersByType.spend, Occurs body (.spend entry.1)) :
    ∃ redeemers,
      spendRedeemers redeemersByType (sortBy (sortTxIn localeCompare) body.inputs) executionUnits =
        .ok redeemers ∧
      List.Forall₂ (Canonical body executionUnits)
        ((entriesOf redeemersByType.spend).map (fun entry => (.spend entry.1, entry.2)))
        redeemers := by
  simp only [List.forall₂_map_left_iff]
  apply mapM_ok_forall₂
  intro entry hentry
  obtain ⟨input, hinput, hkey⟩ := hkeys entry hentry
  apply indexedAt_canonical (.spend entry.1)
  · rw [← hkey]
    exact findIdx?_sortedInputs hcollation hinput
  · exact ⟨input, hinput, hkey, rfl⟩

theorem mintRedeemers_canonical
    (hmint : ∀ assetId ∈ (entriesOf body.mint).map Prod.fst, 28 ≤ assetId.length)
    (hkeys : ∀ entry ∈ entriesOf redeemersByType.mint, Occurs body (.mint entry.1)) :
    ∃ redeemers, mintRedeemers redeemersByType body executionUnits = .ok redeemers ∧
      List.Forall₂ (Canonical body executionUnits)
        ((entriesOf redeemersByType.mint).map (fun entry => (.mint entry.1, entry.2)))
        redeemers := by
  simp only [List.forall₂_map_left_iff, mintRedeemers, mintPolicyIds_eq hmint]
  apply mapM_ok_forall₂
  intro entry hentry
  exact indexedAt_canonical (.mint entry.1)
    (findIdx?_policyIds (hkeys entry hentry)) rfl

theorem withdrawalRedeemers_canonical
    (hdistinct : (body.rewardAccounts.map RewardAccount.paymentCredential).Nodup)
    (hkeys : ∀ entry ∈ entriesOf redeemersByType.withdrawal, Occurs body (.withdrawal entry.1))
    (hscript : ∀ entry ∈ entriesOf redeemersByType.withdrawal,
      entry.1.paymentCredential.type = .scriptHash) :
    ∃ redeemers, withdrawalRedeemers redeemersByType body executionUnits = .ok redeemers ∧
      List.Forall₂ (Canonical body executionUnits)
        ((entriesOf redeemersByType.withdrawal).map
          (fun entry => (.withdrawal entry.1, entry.2))) redeemers := by
  simp only [List.forall₂_map_left_iff]
  apply mapM_ok_forall₂
  intro entry hentry
  exact indexedAt_canonical (.withdrawal entry.1)
    (findIdx?_scriptRewardAccounts hdistinct (hkeys entry hentry) (hscript entry hentry)) rfl

theorem voteRedeemers_canonical
    (hkeys : ∀ entry ∈ redeemersByType.vote.getD [], Occurs body (.vote entry.1)) :
    ∃ redeemers, voteRedeemers redeemersByType body executionUnits = .ok redeemers ∧
      List.Forall₂ (Canonical body executionUnits)
        ((redeemersByType.vote.getD []).map (fun entry => (.vote entry.1, entry.2)))
        redeemers := by
  simp only [List.forall₂_map_left_iff]
  apply mapM_ok_forall₂
  intro entry hentry
  exact indexedAt_canonical (.vote entry.1)
    (findIdx?_sortedVoters (hkeys entry hentry)) rfl

theorem assignCanonicalIndices_canonical (hcollation : CollatesAsBytes localeCompare body.inputs)
    (hbody : ProperBody body) (hkeys : KeyedByBody redeemersByType body) :
    ∃ redeemers,
      assignCanonicalIndices redeemersByType body (sortBy (sortTxIn localeCompare) body.inputs)
        executionUnits = .ok redeemers ∧
      List.Forall₂ (Canonical body executionUnits) redeemersByType.requested redeemers := by
  have hoccurs := hkeys.occurs
  simp only [RedeemersByType.requested, List.forall_mem_append, List.forall_mem_map] at hoccurs
  obtain ⟨⟨⟨⟨⟨hspend, hmint⟩, hwithdrawal⟩, hvote⟩, -⟩, -⟩ := hoccurs
  obtain ⟨spend, hspendOk, hspendAll⟩ := spendRedeemers_canonical executionUnits hcollation hspend
  obtain ⟨mint, hmintOk, hmintAll⟩ := mintRedeemers_canonical executionUnits hbody.mint hmint
  obtain ⟨withdrawal, hwithdrawalOk, hwithdrawalAll⟩ :=
    withdrawalRedeemers_canonical executionUnits hbody.credentials hwithdrawal hkeys.script
  obtain ⟨vote, hvoteOk, hvoteAll⟩ := voteRedeemers_canonical executionUnits hvote
  refine ⟨_, by rw [assignCanonicalIndices, hspendOk, hmintOk, hwithdrawalOk, hvoteOk]; rfl, ?_⟩
  refine List.rel_append (List.rel_append (List.rel_append (List.rel_append
    (List.rel_append hspendAll hmintAll) hwithdrawalAll) hvoteAll) ?_) ?_
  · rw [List.forall₂_map_left_iff, List.forall₂_map_right_iff, List.forall₂_same]
    exact fun redeemer _ => ⟨rfl, rfl, rfl, rfl, rfl⟩
  · rw [List.forall₂_map_left_iff, List.forall₂_map_right_iff, List.forall₂_same]
    exact fun redeemer _ => ⟨rfl, rfl, rfl, rfl, rfl⟩

end Groups

def Evaluates (txEval : TxEvaluation) (redeemer : Redeemer) : Prop :=
  txEval.purpose = redeemer.purpose ∧ txEval.index = redeemer.index

/-- The redeemer with the units of the first evaluation about it; with its own
if there is none. -/
def TakesUnits (evaluation : List TxEvaluation) (redeemer merged : Redeemer) : Prop :=
  (∃ earlier txEval later, evaluation = earlier ++ txEval :: later ∧
    Evaluates txEval redeemer ∧ (∀ other ∈ earlier, ¬ Evaluates other redeemer) ∧
    merged = { redeemer with memory := txEval.budget.memory, steps := txEval.budget.steps }) ∨
  ((∀ txEval ∈ evaluation, ¬ Evaluates txEval redeemer) ∧ merged = redeemer)

theorem mergeExecutionUnits_takesUnits (redeemers : List Redeemer)
    (evaluation : List TxEvaluation) :
    List.Forall₂ (TakesUnits evaluation) redeemers (mergeExecutionUnits redeemers evaluation) := by
  rw [mergeExecutionUnits, List.forall₂_map_right_iff, List.forall₂_same]
  intro redeemer _
  split
  case h_1 txEval hfind =>
      rw [List.find?_eq_some_iff_append] at hfind
      obtain ⟨hmatch, earlier, later, heq, hearlier⟩ := hfind
      simp only [Bool.and_eq_true, decide_eq_true_eq, Bool.not_eq_true', Bool.and_eq_false_iff,
        decide_eq_false_iff_not] at hmatch hearlier
      refine .inl ⟨earlier, txEval, later, heq, hmatch, ?_, rfl⟩
      rintro other hother ⟨hpurpose, hindex⟩
      rcases hearlier other hother with hne | hne
      · exact hne hpurpose
      · exact hne hindex
  case h_2 hfind =>
      rw [List.find?_eq_none] at hfind
      refine .inr ⟨?_, rfl⟩
      rintro txEval htxEval ⟨hpurpose, hindex⟩
      exact hfind txEval htxEval (by simp [hpurpose, hindex])

/-- In a locale that orders ids as bytes, redeemers are indexed by the position
of their item in the ledger's order.
The order in which the body lists its items does not matter, different items
get different positions, and each redeemer takes the units evaluated for it. -/
theorem assignCanonicalIndices_ledger_order (localeCompare : String → String → ℤ)
    (redeemersByType : RedeemersByType) (body : TxBody) (executionUnits : ExUnits)
    (hcollation : CollatesAsBytes localeCompare body.inputs) (hbody : ProperBody body)
    (hkeys : KeyedByBody redeemersByType body) :
    ∃ redeemers,
      (∀ body', SameItems body body' →
        assignCanonicalIndices redeemersByType body' (sortBy (sortTxIn localeCompare) body'.inputs)
          executionUnits = .ok redeemers) ∧
      List.Forall₂ (Canonical body executionUnits) redeemersByType.requested redeemers ∧
      (∀ a ∈ redeemersByType.requested.zip redeemers,
        ∀ b ∈ redeemersByType.requested.zip redeemers,
          a.1.1.Keyed → a.2.purpose = b.2.purpose → a.2.index = b.2.index → a.1.1 = b.1.1) ∧
      ∀ evaluation,
        List.Forall₂ (TakesUnits evaluation) redeemers
          (mergeExecutionUnits redeemers evaluation) := by
  obtain ⟨redeemers, -, hall⟩ := assignCanonicalIndices_canonical executionUnits hcollation hbody
    hkeys
  have hzip := List.forall₂_iff_zip.mp hall
  refine ⟨redeemers, ?_, hall, ?_, mergeExecutionUnits_takesUnits redeemers⟩
  · intro body' hsame
    obtain ⟨redeemers', hok, hall'⟩ := assignCanonicalIndices_canonical executionUnits
      (hcollation.of_subset hsame.inputs.symm.subset) (hbody.of_sameItems hsame)
      ⟨fun entry hentry => (hkeys.occurs entry hentry).of_sameItems hsame, hkeys.script⟩
    -- the positions in either body are positions in the first
    have hback : List.Forall₂ (Canonical body executionUnits) redeemersByType.requested
        redeemers' :=
      hall'.imp (fun entry redeemer h => { h with index := h.index.of_sameItems hsame })
    have hunique : Relator.RightUnique (Canonical body executionUnits) :=
      fun _ _ _ h h' => h.unique h'
    rw [hok, hunique.forall₂ hback hall]
  · rintro ⟨⟨item, redeemer⟩, result⟩ ha ⟨⟨item', redeemer'⟩, result'⟩ hb hkeyed hpurpose hindex
    have hcanonical := hzip.2 ha
    have hcanonical' := hzip.2 hb
    refine LedgerIndex.injective hbody (hkeys.occurs _ (List.of_mem_zip ha).1)
      (hkeys.occurs _ (List.of_mem_zip hb).1) hkeyed ?_ hcanonical.index ?_
    · rw [← hcanonical.purpose, hpurpose, hcanonical'.purpose]
    · rw [hindex]
      exact hcanonical'.index

/-- Two inputs and three withdrawals that the body does not list in the ledger's order. -/
theorem assignCanonicalIndices_ledger_order_unsorted :
    let txId : TransactionId := List.replicate 32 1
    let hash (byte : UInt8) : Hash := List.replicate 28 byte
    let redeemersByType : RedeemersByType :=
      { spend := some (JsMap.ofList [(txIdWithIndex ⟨0, txId, 0⟩, ⟨.spend, 9, [7], 0, 0⟩)])
        withdrawal := some (JsMap.ofList
          [(⟨0, .scriptHash, hash 1⟩, ⟨.withdrawal, 9, [8], 0, 0⟩)]) }
    let body : TxBody :=
      { inputs := [⟨1, txId, 2⟩, ⟨2, txId, 0⟩], outputs := [], fee := 0
        withdrawals := some
          [⟨⟨0, .keyHash, hash 0⟩, 5⟩, ⟨⟨0, .scriptHash, hash 2⟩, 6⟩,
            ⟨⟨0, .scriptHash, hash 1⟩, 7⟩] }
    ProperBody body ∧ KeyedByBody redeemersByType body ∧
      ∃ redeemers,
        assignCanonicalIndices redeemersByType body (sortBy (sortTxIn compareHex) body.inputs)
          ⟨10, 20⟩ = .ok redeemers ∧
        List.Forall₂ (Canonical body ⟨10, 20⟩) redeemersByType.requested redeemers := by
  intro txId hash redeemersByType body
  have hbody : ProperBody body := by
    constructor
    · intro assetId hassetId
      cases hassetId
    · decide
  have hkeys : KeyedByBody redeemersByType body := by
    constructor
    · intro entry hentry
      rcases List.mem_cons.mp hentry with rfl | hentry
      · exact ⟨⟨2, txId, 0⟩, by simp [body], rfl⟩
      · rcases List.mem_singleton.mp hentry with rfl
        exact List.mem_of_elem_eq_true (by decide)
    · intro entry hentry
      rcases List.mem_singleton.mp hentry with rfl
      rfl
  obtain ⟨redeemers, hassigned, hall, -⟩ :=
    assignCanonicalIndices_ledger_order compareHex redeemersByType body ⟨10, 20⟩
      (collatesAsBytes_compareHex _) hbody hkeys
  exact ⟨hbody, hkeys, redeemers, hassigned body ⟨.refl _, .refl _, .refl _, .refl _⟩, hall⟩

/-- In Danish, two letters a are one letter behind all others. -/
def danishWeights : List Char → List ℕ
  | 'a' :: 'a' :: rest => 200 :: danishWeights rest
  | char :: rest => char.toNat :: danishWeights rest
  | [] => []

def danishCompare (a b : String) : ℤ :=
  let weights := danishWeights a.toList
  let weights' := danishWeights b.toList
  if weights < weights' then -1 else if weights' < weights then 1 else 0

def inputOf (byte : UInt8) : TxIn := ⟨0, byte :: List.replicate 31 0, 0⟩

def spending : TxBody := { inputs := [inputOf 0xaa, inputOf 0xab], outputs := [], fee := 0 }

def spent : RedeemersByType where
  spend := some (JsMap.ofList [(txIdWithIndex (inputOf 0xaa), ⟨.spend, 0, [7], 0, 0⟩)])

/-- Two accounts of one script on two networks are told apart by their place in
the body, a key account of the body is refused, and in Danish an input is not
where the ledger has it. -/
theorem withdrawalRedeemers_order_dependent :
    let hash (byte : UInt8) : Hash := List.replicate 28 byte
    let account : RewardAccount := ⟨0, .scriptHash, hash 1⟩
    let other : RewardAccount := ⟨1, .scriptHash, hash 1⟩
    let keyAccount : RewardAccount := ⟨0, .keyHash, hash 2⟩
    let redeemer : Redeemer := ⟨.withdrawal, 0, [7], 0, 0⟩
    let body (withdrawals : List Withdrawal) : TxBody :=
      { inputs := [], outputs := [], fee := 0, withdrawals := some withdrawals }
    let redeemersByType (key : RewardAccount) : RedeemersByType :=
      { withdrawal := some (JsMap.ofList [(key, redeemer)]) }
    SameItems (body [⟨account, 5⟩, ⟨other, 6⟩]) (body [⟨other, 6⟩, ⟨account, 5⟩]) ∧
      (∀ entry ∈ (redeemersByType account).requested,
        Occurs (body [⟨account, 5⟩, ⟨other, 6⟩]) entry.1) ∧
      assignCanonicalIndices (redeemersByType account) (body [⟨account, 5⟩, ⟨other, 6⟩]) []
        ⟨10, 20⟩ = .ok [⟨.withdrawal, 0, [7], 10, 20⟩] ∧
      assignCanonicalIndices (redeemersByType account) (body [⟨other, 6⟩, ⟨account, 5⟩]) []
        ⟨10, 20⟩ = .ok [⟨.withdrawal, 1, [7], 10, 20⟩] ∧
      (∀ entry ∈ (redeemersByType keyAccount).requested,
        Occurs (body [⟨account, 5⟩, ⟨keyAccount, 6⟩]) entry.1) ∧
      assignCanonicalIndices (redeemersByType keyAccount) (body [⟨account, 5⟩, ⟨keyAccount, 6⟩]) []
        ⟨10, 20⟩ = .error (.notAScriptWithdrawal keyAccount) ∧
      (∀ entry ∈ spent.requested, Occurs spending entry.1) ∧
      assignCanonicalIndices spent spending (sortBy (sortTxIn danishCompare) spending.inputs)
        ⟨10, 20⟩ = .ok [⟨.spend, 1, [7], 10, 20⟩] ∧
      ¬ LedgerIndex spending 1 (.spend (txIdWithIndex (inputOf 0xaa))) := by
  intro hash account other keyAccount redeemer body redeemersByType
  refine ⟨⟨.refl _, .refl _, List.Perm.swap _ _ _, .refl _⟩, ?_, rfl, rfl, ?_, rfl, ?_, ?_, ?_⟩
  · intro entry hentry
    rcases List.mem_singleton.mp hentry with rfl
    exact List.mem_cons_self
  · intro entry hentry
    rcases List.mem_singleton.mp hentry with rfl
    exact List.mem_cons_of_mem _ List.mem_cons_self
  · intro entry hentry
    rcases List.mem_singleton.mp hentry with rfl
    exact ⟨inputOf 0xaa, List.mem_cons_self, rfl⟩
  · rfl
  · rintro ⟨found, hfound, hkey, hindex⟩
    have hsame := txIdWithIndex_inj.mp hkey
    have hrank : rank ledgerInput spending.inputs (inputOf 0xaa) = 0 := by decide
    rw [rank, hsame] at hindex
    exact absurd (hindex.trans hrank) (by decide)

end CardanoSdk.TxConstruction
