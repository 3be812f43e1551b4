import CardanoSdk.TxConstruction.SelectionConstraints

/-!
The ledger addresses what a redeemer unlocks by its position among the items of its kind,
in the ledger's own order; the assigned indices are positions in it.
-/

namespace CardanoSdk.TxConstruction

open Lib InputSelection

/-- Inputs stand by transaction id, then by index. -/
def ledgerInput (input : TxIn) : List ℕ ×ₗ ℕ :=
  toLex (byteOrder input.txId, input.index)

/-- Script credentials stand before key credentials, then by hash. -/
def ledgerCredential (credential : Credential) : ℕ ×ₗ List ℕ :=
  toLex
    ((match credential.type with
      | .scriptHash => 0
      | .keyHash => 1), byteOrder credential.hash)

/-- The committee stands before the DReps, and these before the pools. -/
def ledgerVoter (voter : Voter) : ℕ ×ₗ (ℕ ×ₗ List ℕ) :=
  toLex
    ((match voter.typename with
      | .ccHotKeyHash | .ccHotScriptHash => 0
      | .dRepKeyHash | .dRepScriptHash => 1
      | .stakePoolKeyHash => 2), ledgerCredential voter.credential)

def TxBody.policyIds (body : TxBody) : List PolicyId :=
  uniq ((entriesOf body.mint).map (fun entry => entry.1.take 28))

def TxBody.rewardAccounts (body : TxBody) : List RewardAccount :=
  (body.withdrawals.getD []).map Withdrawal.stakeAddress

def TxBody.voters (body : TxBody) : List Voter :=
  body.votingProcedures.getD []

/-- What a redeemer unlocks, as `redeemersByType` names it. -/
inductive RedeemerItem where
  | spend (key : String)
  | mint (policyId : PolicyId)
  | withdrawal (rewardAccount : RewardAccount)
  | vote (voter : Voter)
  | certificate (index : ℕ)
  | propose (index : ℕ)
  deriving DecidableEq

def RedeemerItem.purpose : RedeemerItem → RedeemerPurpose
  | .spend _ => .spend
  | .mint _ => .mint
  | .withdrawal _ => .withdrawal
  | .vote _ => .vote
  | .certificate _ => .certificate
  | .propose _ => .propose

/-- The item is found by its key, not by a position its caller gave. -/
def RedeemerItem.Keyed : RedeemerItem → Prop
  | .certificate _ | .propose _ => False
  | _ => True

/-- Every redeemer asked for, with what it unlocks. -/
def RedeemersByType.requested (redeemersByType : RedeemersByType) :
    List (RedeemerItem × Redeemer) :=
  (entriesOf redeemersByType.spend).map (fun entry => (.spend entry.1, entry.2)) ++
  (entriesOf redeemersByType.mint).map (fun entry => (.mint entry.1, entry.2)) ++
  (entriesOf redeemersByType.withdrawal).map (fun entry => (.withdrawal entry.1, entry.2)) ++
  (redeemersByType.vote.getD []).map (fun entry => (.vote entry.1, entry.2)) ++
  (redeemersByType.certificate.getD []).map (fun redeemer =>
    (.certificate redeemer.index, redeemer)) ++
  (redeemersByType.propose.getD []).map (fun redeemer => (.propose redeemer.index, redeemer))

def Occurs (body : TxBody) : RedeemerItem → Prop
  | .spend key => ∃ input ∈ body.inputs, txIdWithIndex input = key
  | .mint policyId => policyId ∈ body.policyIds
  | .withdrawal rewardAccount => rewardAccount ∈ body.rewardAccounts
  | .vote voter => voter ∈ body.voters
  | .certificate _ | .propose _ => True

/-- The position of an item in the ledger's order. -/
def LedgerIndex (body : TxBody) (index : ℕ) : RedeemerItem → Prop
  | .spend key => ∃ input ∈ body.inputs,
      txIdWithIndex input = key ∧ index = rank ledgerInput body.inputs input
  | .mint policyId => index = rank byteOrder body.policyIds policyId
  | .withdrawal rewardAccount =>
    index = rank (fun account => ledgerCredential account.paymentCredential)
      body.rewardAccounts rewardAccount
  | .vote voter => index = rank ledgerVoter body.voters voter
  | .certificate position | .propose position => index = position

/-- Bodies that list the same inputs, mint, withdrawals and votes in some order. -/
structure SameItems (body body' : TxBody) : Prop where
  inputs : body.inputs.Perm body'.inputs
  mint : (entriesOf body.mint).Perm (entriesOf body'.mint)
  withdrawals : (body.withdrawals.getD []).Perm (body'.withdrawals.getD [])
  votingProcedures : (body.votingProcedures.getD []).Perm (body'.votingProcedures.getD [])

/-- A redeemer as it was asked for, at the position of its item. -/
structure Canonical (body : TxBody) (executionUnits : ExUnits)
    (entry : RedeemerItem × Redeemer) (redeemer : Redeemer) : Prop where
  purpose : redeemer.purpose = entry.1.purpose
  index : LedgerIndex body redeemer.index entry.1
  data : redeemer.data = entry.2.data
  memory : redeemer.memory = executionUnits.memory
  steps : redeemer.steps = executionUnits.steps

theorem follows_compareHex {α : Type} (bytes : α → List UInt8) :
    Follows (fun a b => compareHex (toHex (bytes a)) (toHex (bytes b)))
      (fun a => byteOrder (bytes a)) := by
  intro a b
  have heq : toHex (bytes a) = toHex (bytes b) ↔ byteOrder (bytes a) = byteOrder (bytes b) := by
    rw [toHex_injective.eq_iff, byteOrder_injective.eq_iff]
  have hlt := toHex_lt_iff (bytes a) (bytes b)
  dsimp only [compareHex]
  rw [← heq, ← hlt]
  by_cases hsame : toHex (bytes a) = toHex (bytes b)
  · rw [if_pos hsame, hsame]
    exact ⟨iff_of_false (lt_irrefl 0) (String.lt_irrefl _), iff_of_true rfl rfl⟩
  · by_cases hless : toHex (bytes a) < toHex (bytes b)
    · simp [hsame, hless]
    · simp [hsame, hless]

theorem follows_sortTxIn : Follows (sortTxIn compareHex) ledgerInput :=
  (follows_compareHex TxIn.txId).orElse (follows_sub TxIn.index)

/-- The locale orders the ids of these inputs as their bytes, which not every
locale does: some have a place of their own for two letters in a row. -/
def CollatesAsBytes (localeCompare : String → String → ℤ) (inputs : List TxIn) : Prop :=
  ∀ a ∈ inputs, ∀ b ∈ inputs,
    (localeCompare (toHex a.txId) (toHex b.txId) < 0 ↔ byteOrder a.txId < byteOrder b.txId) ∧
    (localeCompare (toHex a.txId) (toHex b.txId) = 0 ↔ a.txId = b.txId)

variable {localeCompare : String → String → ℤ} {inputs : List TxIn}

theorem collatesAsBytes_compareHex (inputs : List TxIn) : CollatesAsBytes compareHex inputs := by
  intro a _ b _
  obtain ⟨hlt, heq⟩ := follows_compareHex TxIn.txId a b
  exact ⟨hlt, heq.trans byteOrder_injective.eq_iff⟩

theorem CollatesAsBytes.of_subset {inputs' : List TxIn} (h : CollatesAsBytes localeCompare inputs)
    (hsubset : inputs' ⊆ inputs) : CollatesAsBytes localeCompare inputs' :=
  fun a ha b hb => h a (hsubset ha) b (hsubset hb)

theorem CollatesAsBytes.sort_eq (h : CollatesAsBytes localeCompare inputs) :
    sortBy (sortTxIn localeCompare) inputs = sortBy (sortTxIn compareHex) inputs := by
  apply sortBy_congr
  intro a ha b hb
  obtain ⟨hlt, heq⟩ := h a ha b hb
  obtain ⟨hlt', heq'⟩ := collatesAsBytes_compareHex inputs a ha b hb
  unfold sortTxIn orElse
  by_cases hsame : a.txId = b.txId
  · rw [if_pos (heq.mpr hsame), if_pos (heq'.mpr hsame)]
  · rw [if_neg (heq.not.mpr hsame), if_neg (heq'.not.mpr hsame)]
    have hne := heq.not.mpr hsame
    have hne' := heq'.not.mpr hsame
    have hless := hlt.trans hlt'.symm
    omega

theorem follows_compareCredential :
    Follows
      (fun a b : Credential => orElse
        ((credentialScriptFirstRank a.type : ℤ) - credentialScriptFirstRank b.type)
        (compareHex (toHex a.hash) (toHex b.hash)))
      ledgerCredential := by
  have htype : ∀ credential : Credential, ledgerCredential credential =
      toLex (credentialScriptFirstRank credential.type, byteOrder credential.hash) := by
    intro credential
    obtain ⟨type, hash⟩ := credential
    cases type <;> rfl
  rw [funext htype]
  exact (follows_sub _).orElse (follows_compareHex Credential.hash)

theorem follows_compareVoters : Follows compareVoters ledgerVoter := by
  have hgroup : ∀ voter : Voter, ledgerVoter voter =
      toLex (voterGroup voter, ledgerCredential voter.credential) := by
    intro voter
    obtain ⟨typename, hash⟩ := voter
    cases typename <;> rfl
  have hcredential : Follows
      (fun a b : Voter => orElse
        ((credentialScriptFirstRank a.credential.type : ℤ) -
          credentialScriptFirstRank b.credential.type)
        (compareHex (toHex a.credential.hash) (toHex b.credential.hash)))
      (fun voter => ledgerCredential voter.credential) :=
    fun a b => follows_compareCredential a.credential b.credential
  rw [funext hgroup]
  exact (follows_sub voterGroup).orElse hcredential

theorem txIdWithIndex_inj {a b : TxIn} :
    txIdWithIndex a = txIdWithIndex b ↔ ledgerInput a = ledgerInput b := by
  constructor
  · intro h
    have hchars := String.ofList_injective h
    rw [List.append_cons_inj_of_notMem (hash_not_mem_hexDigits _) (hash_not_mem_toDigits _)]
      at hchars
    obtain ⟨hid, -, hindex⟩ := hchars
    have htxId : a.txId = b.txId := by
      apply toHex_injective
      rw [toHex, toHex, hid]
    have hnumber : a.index = b.index := by
      rw [← @Nat.ofDigitChars_ten_toDigits a.index, hindex, Nat.ofDigitChars_ten_toDigits]
    rw [ledgerInput, ledgerInput, htxId, hnumber]
  · intro h
    obtain ⟨htxId, hindex⟩ := Prod.mk.inj (toLex.injective h)
    rw [txIdWithIndex, txIdWithIndex, byteOrder_injective htxId, hindex]

theorem ledgerCredential_injective : Function.Injective ledgerCredential := by
  intro a b h
  obtain ⟨htype, hhash⟩ := Prod.mk.inj (toLex.injective h)
  obtain ⟨type, hash⟩ := a
  obtain ⟨type', hash'⟩ := b
  have hbytes : hash = hash' := byteOrder_injective hhash
  cases type <;> cases type' <;> simp_all

theorem ledgerVoter_injective : Function.Injective ledgerVoter := by
  intro a b h
  obtain ⟨hgroup, hcredential⟩ := Prod.mk.inj (toLex.injective h)
  have hsame := ledgerCredential_injective hcredential
  obtain ⟨typename, hash⟩ := a
  obtain ⟨typename', hash'⟩ := b
  cases typename <;> cases typename' <;> simp_all [Voter.credential]

theorem votersEqual_iff {a b : Voter} : votersEqual a b = true ↔ a = b := by
  obtain ⟨typename, hash⟩ := a
  obtain ⟨typename', hash'⟩ := b
  simp only [votersEqual, Bool.and_eq_true, decide_eq_true_eq, Voter.mk.injEq]
  rfl

variable {body : TxBody} {a b : Credential}

theorem findIdx?_sortedInputs (hcollation : CollatesAsBytes localeCompare body.inputs) {input : TxIn}
    (hinput : input ∈ body.inputs) :
    (sortBy (sortTxIn localeCompare) body.inputs).findIdx?
        (fun candidate => txIdWithIndex input = txIdWithIndex candidate) =
      some (rank ledgerInput body.inputs input) := by
  rw [hcollation.sort_eq]
  apply findIdx?_sortBy follows_sortTxIn hinput
  intro other _
  rw [decide_eq_true_eq, txIdWithIndex_inj]
  exact eq_comm

theorem mintPolicyIds_eq
    (hmint : ∀ assetId ∈ (entriesOf body.mint).map Prod.fst, 28 ≤ assetId.length) :
    mintPolicyIds body =
      .ok (sortBy (fun a b => compareHex (toHex a) (toHex b)) body.policyIds) := by
  have hids : ((entriesOf body.mint).map Prod.fst).mapM getPolicyId =
      .ok (((entriesOf body.mint).map Prod.fst).map (List.take 28)) := by
    apply mapM_ok_map
    intro assetId hassetId
    exact if_pos (hmint assetId hassetId)
  rw [mintPolicyIds, hids, List.map_map]
  rfl

theorem findIdx?_policyIds {policyIds : List PolicyId} {policyId : PolicyId}
    (hpolicyId : policyId ∈ policyIds) :
    (sortBy (fun a b => compareHex (toHex a) (toHex b)) policyIds).findIdx?
        (fun candidate => candidate = policyId) =
      some (rank byteOrder policyIds policyId) := by
  apply findIdx?_sortBy (follows_compareHex id) hpolicyId
  intro other _
  rw [decide_eq_true_eq]
  exact byteOrder_injective.eq_iff.symm

theorem ledgerCredential_lt_iff (ha : a.type = .scriptHash) (hb : b.type = .scriptHash) :
    ledgerCredential a < ledgerCredential b ↔ byteOrder a.hash < byteOrder b.hash := by
  simp [ledgerCredential, ha, hb, Prod.Lex.lt_iff]

theorem scriptHash_of_ledgerCredential_lt (hb : b.type = .scriptHash)
    (hlt : ledgerCredential a < ledgerCredential b) : a.type = .scriptHash := by
  cases htype : a.type with
  | scriptHash => rfl
  | keyHash => simp [ledgerCredential, htype, hb, Prod.Lex.lt_iff] at hlt

theorem eq_of_scriptHash (ha : a.type = .scriptHash) (hb : b.type = .scriptHash)
    (hhash : a.hash = b.hash) : a = b := by
  obtain ⟨type, hash⟩ := a
  obtain ⟨type', hash'⟩ := b
  cases ha
  cases hb
  cases hhash
  rfl

variable {rewardAccount : RewardAccount}

/-- Key accounts stand behind every script account, so leaving them out moves none. -/
theorem rank_scriptRewardAccounts (accounts : List RewardAccount)
    (hscript : rewardAccount.paymentCredential.type = .scriptHash) :
    rank (fun account => byteOrder account.paymentCredential.hash)
        (accounts.filter (fun account => account.paymentCredential.type = .scriptHash))
        rewardAccount =
      rank (fun account => ledgerCredential account.paymentCredential) accounts rewardAccount := by
  calc
    _ = rank (fun account => ledgerCredential account.paymentCredential)
          (accounts.filter (fun account => account.paymentCredential.type = .scriptHash))
          rewardAccount := by
      apply rank_congr
      intro other hother
      have htype := (List.mem_filter.mp hother).2
      rw [decide_eq_true_eq] at htype
      exact (ledgerCredential_lt_iff htype hscript).symm
    _ = _ := by
      apply rank_filter
      intro other _ hlt
      rw [decide_eq_true_eq]
      exact scriptHash_of_ledgerCredential_lt hscript hlt

theorem findIdx?_scriptRewardAccounts
    (hdistinct : (body.rewardAccounts.map RewardAccount.paymentCredential).Nodup)
    (haccount : rewardAccount ∈ body.rewardAccounts)
    (hscript : rewardAccount.paymentCredential.type = .scriptHash) :
    (scriptRewardAccounts body).findIdx? (fun candidate => candidate = rewardAccount) =
      some (rank (fun account => ledgerCredential account.paymentCredential)
        body.rewardAccounts rewardAccount) := by
  rw [← rank_scriptRewardAccounts _ hscript]
  apply findIdx?_sortBy
    (follows_compareHex (fun account : RewardAccount => account.paymentCredential.hash))
  · rw [List.mem_filter, decide_eq_true_eq]
    exact ⟨haccount, hscript⟩
  · intro other hother
    obtain ⟨hlisted, htype⟩ := List.mem_filter.mp hother
    rw [decide_eq_true_eq] at htype ⊢
    constructor
    · intro hsame
      rw [hsame]
    · intro hhash
      -- two accounts with one script hash would share their credential
      apply List.inj_on_of_nodup_map hdistinct hlisted haccount
      exact eq_of_scriptHash htype hscript (byteOrder_injective hhash)

theorem findIdx?_sortedVoters {voters : List Voter} {voter : Voter} (hvoter : voter ∈ voters) :
    (sortBy compareVoters voters).findIdx? (fun candidate => votersEqual candidate voter) =
      some (rank ledgerVoter voters voter) := by
  apply findIdx?_sortBy follows_compareVoters hvoter
  intro other _
  rw [votersEqual_iff, ledgerVoter_injective.eq_iff]

end CardanoSdk.TxConstruction
