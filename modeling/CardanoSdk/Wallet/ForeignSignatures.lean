import CardanoSdk.KeyManagement.SignaturePaths
import CardanoSdk.Wallet.RequiredWitnesses

/-!
`requiresForeignSignatures` says `false` exactly when what it looks at is the wallet's
own. It never looks at withdrawals, required signers and the operator of a pool.
-/

namespace CardanoSdk.Wallet

open Lib TxConstruction KeyManagement
open InputSelection (TxIn Utxo)

variable {body : TxBody}

theorem hasForeignInputs_eq_false {utxoSet : List Utxo} :
    hasForeignInputs body utxoSet = false ↔ OwnInputs utxoSet body := by
  simp only [hasForeignInputs, OwnInputs, List.any_eq_false, List.all_eq_true, not_forall,
    Bool.not_eq_true', Bool.not_eq_false, exists_prop]

theorem mem_requiredWitnesses {spends : TxIn → Option Credential} {credential : Credential} :
    credential ∈ requiredWitnesses spends body ↔
      (∃ txIn ∈ body.inputs ++ body.collaterals.getD [], spends txIn = some credential) ∨
      (∃ certificate ∈ body.certificates.getD [],
        credential ∈ certificateWitnesses certificate) ∨
      (∃ voter ∈ body.votingProcedures.getD [], voter.credential = credential) ∨
      credential ∈ withdrawalWitnesses body ∨ credential ∈ signerWitnesses body := by
  rw [requiredWitnesses, List.mem_append, List.mem_append, List.mem_append, List.mem_append,
    List.mem_filterMap, List.mem_flatMap, List.mem_map]
  simp only [or_assoc]

/-- What the checks look at is own, and the rest is what they leave out. -/
theorem sound_iff_of_split {required unchecked : List Credential} {provides : Credential → Prop}
    (hsub : unchecked ⊆ required) (hsplit : ∀ c ∈ required, provides c ∨ c ∈ unchecked) :
    (∀ c ∈ required, provides c) ↔ ∀ c ∈ unchecked, provides c := by
  constructor
  · intro hall c hc
    exact hall c (hsub hc)
  · intro hunchecked c hc
    rcases hsplit c hc with hprovides | hmem
    · exact hprovides
    · exact hunchecked c hmem

namespace KeyWallet

variable {spends : TxIn → Option Credential} (wallet : KeyWallet spends)

theorem foreign_checkAccount_known (property : RewardAccount → Prop)
    {owns : StakeKeySignerData (Option AccountKeyDerivationPath) → Bool}
    (howns : ∀ a path, owns (stakeKeySignerData a path) = true ↔ property a.rewardAccount) :
    (checkAccount (keyWalletAccounts wallet.known.addresses) owns).requiresForeignSignatures =
        false ↔ ∃ a ∈ wallet.known.addresses, property a.rewardAccount := by
  rw [foreign_checkAccount]
  constructor
  · rintro ⟨account, hmem, hown⟩
    obtain ⟨a, ha, rfl⟩ := List.mem_map.mp hmem
    exact ⟨a, mem_of_mem_uniqWith ha, (howns a _).mp hown⟩
  · rintro ⟨a, ha, hproperty⟩
    have hfirst : ∃ b ∈ uniqueAccounts wallet.known.addresses, b.rewardAccount = a.rewardAccount :=
      exists_mem_uniqWith ha
    obtain ⟨b, hb, haccount⟩ := hfirst
    refine ⟨_, List.mem_map.mpr ⟨b, hb, rfl⟩, (howns b _).mpr ?_⟩
    rw [haccount]
    exact hproperty

theorem foreign_checkHash (hash : Hash)
    (owns : StakeKeySignerData (Option AccountKeyDerivationPath) → Bool)
    (howns : ∀ a path, owns (stakeKeySignerData a path) = decide (a.rewardAccount.toHash = hash)) :
    (checkAccount (keyWalletAccounts wallet.known.addresses) owns).requiresForeignSignatures =
        false ↔ wallet.OwnsStakeKey hash := by
  apply wallet.foreign_checkAccount_known (fun account => hash = account.toHash)
  intro a path
  rw [howns, decide_eq_true_iff]
  exact eq_comm

variable {body : TxBody} {certificate : Certificate} {credential : Credential}

theorem foreign_checkStakeKeyHash :
    (checkStakeKeyHashCertificate certificate
        (keyWalletAccounts wallet.known.addresses)).requiresForeignSignatures = false ↔
      ∀ stakeCredential, signingStakeCredential? certificate = some stakeCredential →
        stakeCredential.type = .keyHash ∧ wallet.OwnsStakeKey stakeCredential.hash := by
  unfold checkStakeKeyHashCertificate
  cases signingStakeCredential? certificate with
  | none => simp
  | some stakeCredential =>
    simp only [Option.some.injEq, forall_eq']
    rw [wallet.foreign_checkAccount_known fun account =>
      stakeCredential.type = .keyHash ∧ stakeCredential.hash = account.toHash]
    · constructor
      · rintro ⟨a, ha, htype, hhash⟩
        exact ⟨htype, a, ha, hhash⟩
      · rintro ⟨htype, a, ha, hhash⟩
        exact ⟨a, ha, htype, hhash⟩
    · intro a path
      rw [Bool.and_eq_true, decide_eq_true_iff, decide_eq_true_iff]
      exact and_congr_right fun _ => eq_comm

theorem foreign_checkPoolRegistration {poolParameters : PoolParameters} :
    (checkPoolRegistrationCertificate (.poolRegistration poolParameters)
        (keyWalletAccounts wallet.known.addresses)).requiresForeignSignatures = false ↔
      wallet.SignsStake (.poolRegistration poolParameters) := by
  simp only [checkPoolRegistrationCertificate, foreign_combineAll, List.forall_mem_map, SignsStake]
  apply forall_congr'
  intro owner
  apply imp_congr_right
  intro _
  apply wallet.foreign_checkAccount_known (· = owner)
  intro a path
  exact decide_eq_true_iff

theorem foreign_checkCertificate (hcredential : HasStakeCredential certificate) :
    ∃ check, checkCertificate (keyWalletAccounts wallet.known.addresses) certificate = .ok check ∧
      (check.requiresForeignSignatures = false ↔ wallet.SignsStake certificate) := by
  cases certificate with
  | mir kind stakeCredential =>
    cases kind with
    | toOtherPot => exact ⟨_, rfl, by simp [SignsStake]⟩
    | toStakeCreds =>
      cases stakeCredential with
      | none => exact absurd rfl hcredential
      | some stakeCredential =>
        have hmir := wallet.foreign_checkHash stakeCredential.hash
          (fun account => account.stakeKeyHash = stakeCredential.hash) fun _ _ => rfl
        exact ⟨_, rfl, by simpa [checkStakeKeyHashCertificate, signingStakeCredential?,
          checkPoolRegistrationCertificate, checkPoolRetirementCertificate, SignsStake]
          using hmir⟩
  | poolRegistration poolParameters =>
    have hpool := @foreign_checkPoolRegistration _ wallet poolParameters
    exact ⟨_, rfl, by simpa [checkStakeKeyHashCertificate, signingStakeCredential?,
      checkPoolRetirementCertificate] using hpool⟩
  | poolRetirement poolId =>
    have hpool := wallet.foreign_checkHash poolId (fun account => account.poolId = poolId)
      fun _ _ => rfl
    exact ⟨_, rfl, by simpa [checkStakeKeyHashCertificate, signingStakeCredential?,
      checkPoolRegistrationCertificate, checkPoolRetirementCertificate, SignsStake] using hpool⟩
  | _ =>
    exact ⟨_, rfl, by simp [foreign_checkStakeKeyHash, signingStakeCredential?,
      checkPoolRegistrationCertificate, checkPoolRetirementCertificate, SignsStake]⟩

theorem foreign_checkStakeCredentialCertificates
    (hcredentials : ∀ c ∈ body.certificates.getD [], HasStakeCredential c) :
    ∃ check, checkStakeCredentialCertificates (keyWalletAccounts wallet.known.addresses) body =
        .ok check ∧
      (check.requiresForeignSignatures = false ↔
        ∀ certificate ∈ body.certificates.getD [], wallet.SignsStake certificate) := by
  obtain ⟨checks, hchecks, hforeign⟩ := mapM_ok_forall₂ fun certificate hmem =>
    wallet.foreign_checkCertificate (hcredentials certificate hmem)
  refine ⟨_, by rw [checkStakeCredentialCertificates, hchecks]; rfl, ?_⟩
  rw [foreign_combineAll]
  clear hchecks hcredentials
  generalize body.certificates.getD [] = certificates at hforeign ⊢
  induction hforeign with
  | nil => simp
  | cons hcheck _ ih => simp only [List.forall_mem_cons, hcheck, ih]

variable {dRepKeyHash : Option Hash} {signature : SignatureCheck AccountKeyDerivationPath}
  {voter : Voter}

theorem foreign_checkDRepCertificate :
    (checkDRepCertificate dRepKeyHash signature certificate).requiresForeignSignatures = false ↔
      signature.requiresForeignSignatures = false ∧ ∀ credential,
        dRepCredential? certificate = some credential →
          credential.type = .keyHash ∧ dRepKeyHash = some credential.hash := by
  unfold checkDRepCertificate
  cases dRepCredential? certificate with
  | none => simp
  | some credential =>
    obtain ⟨type, hash⟩ := credential
    by_cases hforeign : type = .scriptHash ∨ dRepKeyHash ≠ some hash
    · simp only [if_pos hforeign]
      cases type <;> simp_all
    · simp only [if_neg hforeign]
      cases type <;> simp_all

theorem foreign_foldl_checkDRepCertificate {certificates : List Certificate} :
    (certificates.foldl (checkDRepCertificate dRepKeyHash) signature).requiresForeignSignatures =
        false ↔
      signature.requiresForeignSignatures = false ∧ ∀ certificate ∈ certificates, ∀ credential,
        dRepCredential? certificate = some credential →
          credential.type = .keyHash ∧ dRepKeyHash = some credential.hash := by
  induction certificates generalizing signature with
  | nil => simp
  | cons certificate rest ih =>
    rw [List.foldl_cons, ih, foreign_checkDRepCertificate, List.forall_mem_cons, and_assoc]

theorem foreign_dRepCheck :
    (wallet.dRepKeyHash.isSome &&
        (getDRepCredentialKeyPaths wallet.dRepKeyHash body).requiresForeignSignatures) = false ↔
      ∀ certificate ∈ body.certificates.getD [], wallet.SignsDRep certificate := by
  cases hkey : wallet.dRepKeyHash with
  | none => simp [SignsDRep, hkey]
  | some hash =>
    rw [Option.isSome_some, Bool.true_and, getDRepCredentialKeyPaths,
      foreign_foldl_checkDRepCertificate]
    simp only [true_and, SignsDRep, hkey, Option.some.injEq, forall_eq']
    apply forall_congr'
    intro certificate
    apply imp_congr_right
    intro _
    apply forall_congr'
    rintro ⟨type, own⟩
    apply imp_congr_right
    intro _
    rw [Credential.mk.injEq]
    exact and_congr_right fun _ => eq_comm

theorem foreign_checkVoter {hash : Hash} (hkey : wallet.dRepKeyHash = some hash) :
    (checkVoter (getSignersData wallet.known.addresses) wallet.dRepKeyHash
        voter).requiresForeignSignatures = false ↔ wallet.SignsVote voter := by
  have hpool : (checkAccount (getSignersData wallet.known.addresses) fun account =>
        account.stakeKeyHash = voter.credential.hash).requiresForeignSignatures = false ↔
      ∃ a ∈ wallet.known.addresses, voter.hash = a.rewardAccount.toHash ∧
        ∃ path, a.stakeKeyDerivationPath = some path := by
    rw [foreign_iff_path]
    simp only [checkAccount_hash wallet.known voter.hash
      (fun account => account.stakeKeyHash = voter.credential.hash) _ fun _ _ => rfl]
    constructor
    · rintro ⟨path, a, ha, hhash, hpath⟩
      exact ⟨a, ha, hhash, path, hpath⟩
    · rintro ⟨a, ha, hhash, path, hpath⟩
      exact ⟨path, a, ha, hhash, hpath⟩
  obtain ⟨typename, own⟩ := voter
  simp only [SignsVote, hkey, Option.some.injEq, forall_eq']
  cases typename with
  | dRepKeyHash =>
    by_cases hown : own = hash
    · simp [checkVoter, checkDRepKey, Voter.credential, hown]
    · simp [checkVoter, checkDRepKey, Voter.credential, hown, Ne.symm hown]
  | stakePoolKeyHash => simpa [checkVoter] using hpool
  | _ => simp [checkVoter]

theorem foreign_votesCheck :
    (wallet.dRepKeyHash.isSome &&
        (getVotingProcedureKeyPaths wallet.known.addresses wallet.dRepKeyHash
          body).requiresForeignSignatures) = false ↔
      ∀ voter ∈ body.votingProcedures.getD [], wallet.SignsVote voter := by
  cases hkey : wallet.dRepKeyHash with
  | none => simp [SignsVote, hkey]
  | some hash =>
    rw [Option.isSome_some, Bool.true_and, ← hkey]
    simp only [getVotingProcedureKeyPaths, foreign_combineAll, List.forall_mem_map,
      wallet.foreign_checkVoter hkey]

theorem foreign_committee :
    hasCommitteeCertificates body = false ↔ ∀ certificate ∈ body.certificates.getD [],
      isCommitteeCertificate certificate = false := by
  simp [hasCommitteeCertificates]

theorem keyWalletRequires_eq_false
    (hcredentials : ∀ c ∈ body.certificates.getD [], HasStakeCredential c) :
    ∃ result, keyWalletRequires body wallet.utxoTotal wallet.known.addresses wallet.dRepKeyHash =
        .ok result ∧ (result = false ↔ wallet.Checked body) := by
  by_cases hinputs : hasForeignInputs body wallet.utxoTotal = true
  · refine ⟨true, by rw [keyWalletRequires, if_pos hinputs]; rfl, ?_⟩
    simp only [Bool.true_eq_false, false_iff]
    intro hchecked
    rw [hasForeignInputs_eq_false.mpr hchecked.inputs] at hinputs
    cases hinputs
  · obtain ⟨check, hcheck, hstake⟩ :=
      wallet.foreign_checkStakeCredentialCertificates hcredentials
    refine ⟨_, by rw [keyWalletRequires, if_neg hinputs, hcheck]; rfl, ?_⟩
    have hown := hasForeignInputs_eq_false.mp (Bool.eq_false_iff.mpr hinputs)
    simp only [Bool.or_eq_false_iff, hstake, wallet.foreign_dRepCheck, wallet.foreign_votesCheck,
      foreign_committee]
    constructor
    · rintro ⟨⟨⟨hstake, hdRep⟩, hvotes⟩, hcommittee⟩
      exact ⟨hown, hstake, hdRep, hcommittee, hvotes⟩
    · intro hchecked
      exact ⟨⟨⟨hchecked.stake, hchecked.dRep⟩, hchecked.votes⟩, hchecked.committee⟩

theorem ownsKey_of_account {a : GroupedAddress} (hmem : a ∈ wallet.known.addresses) :
    wallet.Provides a.rewardAccount.paymentCredential :=
  fun _ => Or.inr (Or.inl ⟨a, hmem, rfl⟩)

theorem provides_stakeKey (h : wallet.OwnsStakeKey credential.hash) : wallet.Provides credential :=
  fun _ => Or.inr (Or.inl h)

theorem input_provided (hchecked : wallet.Checked body) {txIn : TxIn}
    (hmem : txIn ∈ body.inputs ++ body.collaterals.getD [])
    (hspends : spends txIn = some credential) : wallet.Provides credential := by
  obtain ⟨utxo, hutxo, hsame⟩ := hchecked.inputs txIn hmem
  obtain ⟨a, ha, hlocked⟩ := wallet.locked utxo hutxo txIn hsame
  intro _
  apply Or.inl
  refine ⟨a, ha, ?_⟩
  rw [GroupedAddress.paymentHash?, ← hlocked, hspends]
  rfl

theorem dRep_split (hdRep : wallet.SignsDRep certificate)
    (hcredential : dRepCredential? certificate = some credential) :
    wallet.Provides credential ∨
      credential ∈ if wallet.dRepKeyHash.isSome then []
        else (dRepCredential? certificate).toList := by
  cases hkey : wallet.dRepKeyHash with
  | none =>
    right
    simp [hcredential]
  | some hash =>
    left
    rw [hdRep hash hkey credential hcredential]
    exact fun _ => Or.inr (Or.inr hkey)

theorem certificate_split (hstake : wallet.SignsStake certificate)
    (hdRep : wallet.SignsDRep certificate)
    (hcommittee : isCommitteeCertificate certificate = false) :
    ∀ credential ∈ certificateWitnesses certificate,
      wallet.Provides credential ∨ credential ∈ wallet.uncheckedCertificate certificate := by
  intro credential hmem
  cases certificate with
  | stakeRegistration | mir | genesisKeyDelegation => cases hmem
  | authorizeCommitteeHot | resignCommitteeCold => cases hcommittee
  | poolRegistration poolParameters =>
    rcases List.mem_cons.mp hmem with rfl | howner
    · exact Or.inr (List.mem_singleton.mpr rfl)
    · obtain ⟨owner, hmember, rfl⟩ := List.mem_map.mp howner
      obtain ⟨a, ha, rfl⟩ := hstake owner hmember
      exact Or.inl (wallet.ownsKey_of_account ha)
  | poolRetirement poolId =>
    obtain rfl := List.mem_singleton.mp hmem
    exact Or.inl (wallet.provides_stakeKey hstake)
  | registerDelegateRepresentative | unregisterDelegateRepresentative
  | updateDelegateRepresentative =>
    obtain rfl := List.mem_singleton.mp hmem
    exact wallet.dRep_split hdRep rfl
  | _ =>
    obtain rfl := List.mem_singleton.mp hmem
    exact Or.inl (wallet.provides_stakeKey hstake.2)

theorem vote_split (hmem : voter ∈ body.votingProcedures.getD [])
    (hsigns : wallet.SignsVote voter) :
    wallet.Provides voter.credential ∨ voter.credential ∈ wallet.uncheckedVotes body := by
  cases hkey : wallet.dRepKeyHash with
  | none =>
    right
    simp only [uncheckedVotes, hkey, Option.isSome_none, Bool.false_eq_true, if_false]
    exact List.mem_map.mpr ⟨voter, hmem, rfl⟩
  | some hash =>
    left
    rcases hsigns hash hkey with ⟨-, rfl⟩ | ⟨-, a, ha, hhash, -⟩
    · exact fun _ => Or.inr (Or.inr hkey)
    · exact wallet.provides_stakeKey ⟨a, ha, hhash⟩

theorem uncheckedCertificate_subset :
    wallet.uncheckedCertificate certificate ⊆ certificateWitnesses certificate := by
  intro credential hmem
  cases certificate with
  | poolRegistration poolParameters =>
    exact List.mem_cons.mpr (Or.inl (List.mem_singleton.mp hmem))
  | registerDelegateRepresentative | unregisterDelegateRepresentative
  | updateDelegateRepresentative =>
    simp only [uncheckedCertificate, dRepCredential?] at hmem
    split at hmem
    · cases hmem
    · exact hmem
  | _ => simp [uncheckedCertificate, dRepCredential?] at hmem

theorem mem_uncheckedVotes (hmem : credential ∈ wallet.uncheckedVotes body) :
    ∃ voter ∈ body.votingProcedures.getD [], voter.credential = credential := by
  unfold uncheckedVotes at hmem
  split at hmem
  · cases hmem
  · exact List.mem_map.mp hmem

theorem mem_unchecked :
    credential ∈ wallet.unchecked body ↔
      (∃ certificate ∈ body.certificates.getD [],
        credential ∈ wallet.uncheckedCertificate certificate) ∨
      credential ∈ wallet.uncheckedVotes body ∨ credential ∈ withdrawalWitnesses body ∨
      credential ∈ signerWitnesses body := by
  rw [unchecked, List.mem_append, List.mem_append, List.mem_append, List.mem_flatMap]
  simp only [or_assoc]

theorem unchecked_subset : wallet.unchecked body ⊆ requiredWitnesses spends body := by
  intro credential hmem
  rw [mem_requiredWitnesses]
  rcases wallet.mem_unchecked.mp hmem with ⟨certificate, hcertificate, hmem⟩ | hvote | hrest
  · exact Or.inr (Or.inl ⟨certificate, hcertificate, wallet.uncheckedCertificate_subset hmem⟩)
  · exact Or.inr (Or.inr (Or.inl (wallet.mem_uncheckedVotes hvote)))
  · exact Or.inr (Or.inr (Or.inr hrest))

theorem required_split (hchecked : wallet.Checked body) :
    ∀ credential ∈ requiredWitnesses spends body,
      wallet.Provides credential ∨ credential ∈ wallet.unchecked body := by
  intro credential hmem
  rw [mem_unchecked]
  rcases mem_requiredWitnesses.mp hmem with
    ⟨txIn, htxIn, hspends⟩ | ⟨certificate, hcertificate, hmem⟩ | ⟨voter, hvoter, rfl⟩ | hrest
  · exact Or.inl (wallet.input_provided hchecked htxIn hspends)
  · rcases wallet.certificate_split (hchecked.stake certificate hcertificate)
      (hchecked.dRep certificate hcertificate) (hchecked.committee certificate hcertificate)
      credential hmem with hprovided | hunchecked
    · exact Or.inl hprovided
    · exact Or.inr (Or.inl ⟨certificate, hcertificate, hunchecked⟩)
  · rcases wallet.vote_split hvoter (hchecked.votes voter hvoter) with hprovided | hunchecked
    · exact Or.inl hprovided
    · exact Or.inr (Or.inr (Or.inl hunchecked))
  · exact Or.inr (Or.inr (Or.inr hrest))

end KeyWallet

namespace ScriptWallet

variable {spends : TxIn → Option Credential} (wallet : ScriptWallet spends)

variable {credential : Credential}

theorem isOwnScript_eq_true :
    isOwnScript wallet.rewardAccount.toHash credential = true ↔
      credential = wallet.stakeScript := by
  obtain ⟨type, hash⟩ := credential
  rw [isOwnScript, Bool.and_eq_true, decide_eq_true_iff, decide_eq_true_iff, stakeScript,
    Credential.mk.injEq]

variable {body : TxBody} {certificate : Certificate}

theorem foreign_certificate :
    scriptWalletForeignCertificate wallet.rewardAccount certificate = false ↔
      wallet.SignsCertificate certificate := by
  cases certificate with
  | mir kind stakeCredential =>
    cases stakeCredential <;>
      simp [scriptWalletForeignCertificate, SignsCertificate, isOwnScript_eq_true]
  | _ => simp [scriptWalletForeignCertificate, SignsCertificate, isOwnScript_eq_true]

theorem foreign_voter {voter : Voter} :
    scriptWalletForeignVoter wallet.rewardAccount voter = false ↔
      voter.typename = .dRepScriptHash ∧ voter.hash = wallet.rewardAccount.toHash := by
  obtain ⟨typename, hash⟩ := voter
  cases typename with
  | dRepScriptHash =>
    simp only [scriptWalletForeignVoter, Voter.credential, true_and]
    exact decide_eq_false_iff_not.trans not_not
  | _ => simp [scriptWalletForeignVoter]

theorem scriptWalletRequires_eq_false :
    scriptWalletRequires body wallet.utxoTotal wallet.rewardAccount = false ↔
      wallet.Checked body := by
  simp only [scriptWalletRequires, scriptWalletHasForeignCertificates,
    scriptWalletHasForeignVotingProcedures, Bool.or_eq_false_iff, hasForeignInputs_eq_false,
    List.any_eq_false, Bool.not_eq_true, foreign_certificate, foreign_voter]
  constructor
  · rintro ⟨⟨hinputs, hcertificates⟩, hvotes⟩
    exact ⟨hinputs, hcertificates, hvotes⟩
  · intro hchecked
    exact ⟨⟨hchecked.inputs, hchecked.certificates⟩, hchecked.votes⟩

theorem certificate_split (hsigns : wallet.SignsCertificate certificate) :
    ∀ credential ∈ certificateWitnesses certificate,
      wallet.Provides credential ∨ credential ∈ uncheckedCertificate certificate := by
  intro credential hmem
  cases certificate with
  | stakeRegistration | mir | genesisKeyDelegation => cases hmem
  | authorizeCommitteeHot | resignCommitteeCold => cases hsigns
  | registration => exact Or.inr hmem
  | poolRegistration => exact Or.inr hmem
  | poolRetirement poolId =>
    obtain rfl := List.mem_singleton.mp hmem
    exact Or.inl (Or.inr hsigns)
  | _ =>
    obtain rfl := List.mem_singleton.mp hmem
    have hown : credential = wallet.stakeScript := hsigns
    rw [hown]
    exact Or.inl (Or.inr rfl)

theorem uncheckedCertificate_subset :
    uncheckedCertificate certificate ⊆ certificateWitnesses certificate := by
  intro credential hmem
  cases certificate with
  | registration => exact hmem
  | poolRegistration => exact hmem
  | _ => cases hmem

theorem mem_unchecked :
    credential ∈ unchecked body ↔
      (∃ certificate ∈ body.certificates.getD [], credential ∈ uncheckedCertificate certificate) ∨
      credential ∈ withdrawalWitnesses body ∨ credential ∈ signerWitnesses body := by
  rw [unchecked, List.mem_append, List.mem_append, List.mem_flatMap, or_assoc]

theorem unchecked_subset : unchecked body ⊆ requiredWitnesses spends body := by
  intro credential hmem
  rw [mem_requiredWitnesses]
  rcases mem_unchecked.mp hmem with ⟨certificate, hcertificate, hmem⟩ | hrest
  · exact Or.inr (Or.inl ⟨certificate, hcertificate, uncheckedCertificate_subset hmem⟩)
  · exact Or.inr (Or.inr (Or.inr hrest))

theorem required_split (hchecked : wallet.Checked body) :
    ∀ credential ∈ requiredWitnesses spends body,
      wallet.Provides credential ∨ credential ∈ unchecked body := by
  intro credential hmem
  rw [mem_unchecked]
  rcases mem_requiredWitnesses.mp hmem with
    ⟨txIn, htxIn, hspends⟩ | ⟨certificate, hcertificate, hmem⟩ | ⟨voter, hvoter, rfl⟩ | hrest
  · obtain ⟨utxo, hutxo, hsame⟩ := hchecked.inputs txIn htxIn
    obtain ⟨a, ha, hlocked⟩ := wallet.locked utxo hutxo txIn hsame
    rw [hspends, wallet.payment a ha] at hlocked
    obtain rfl := Option.some.inj hlocked
    exact Or.inl (Or.inl rfl)
  · rcases wallet.certificate_split (hchecked.certificates certificate hcertificate)
      credential hmem with hprovided | hunchecked
    · exact Or.inl hprovided
    · exact Or.inr (Or.inl ⟨certificate, hcertificate, hunchecked⟩)
  · exact Or.inl (Or.inr (hchecked.votes voter hvoter).2)
  · exact Or.inr (Or.inr hrest)

end ScriptWallet

namespace Signer

variable {spends : TxIn → Option Credential}

variable {body : TxBody}

theorem requiresForeignSignatures_eq_false (signer : Signer spends)
    (hcredentials : ∀ c ∈ body.certificates.getD [], HasStakeCredential c) :
    ∃ result, requiresForeignSignatures body signer.observable = .ok result ∧
      (result = false ↔ signer.Checked body) := by
  cases signer with
  | keys wallet =>
    have hkeys : ∀ l : List GroupedAddress,
        (l.map WalletAddress.grouped).any isScriptAddress = false ∧
          (l.map WalletAddress.grouped).filterMap WalletAddress.grouped? = l := by
      intro l
      induction l with
      | nil => exact ⟨rfl, rfl⟩
      | cons a rest ih => exact ⟨ih.1, congrArg (a :: ·) ih.2⟩
    have hbranch : requiresForeignSignatures body (Signer.keys wallet).observable =
        keyWalletRequires body wallet.utxoTotal wallet.known.addresses wallet.dRepKeyHash := by
      simp only [requiresForeignSignatures, observable, hkeys]
    rw [hbranch]
    exact wallet.keyWalletRequires_eq_false hcredentials
  | script wallet =>
    obtain ⟨first, rest, haddresses⟩ := List.exists_cons_of_ne_nil wallet.nonempty
    have hreward := wallet.reward first (haddresses ▸ List.mem_cons_self)
    refine ⟨scriptWalletRequires body wallet.utxoTotal wallet.rewardAccount, ?_,
      wallet.scriptWalletRequires_eq_false⟩
    rw [← hreward]
    simp only [requiresForeignSignatures, observable, haddresses]
    rfl

theorem sound_iff (signer : Signer spends) (hchecked : signer.Checked body) :
    signer.Sound body ↔ ∀ credential ∈ signer.unchecked body, signer.Provides credential := by
  cases signer with
  | keys wallet =>
    exact sound_iff_of_split wallet.unchecked_subset (wallet.required_split hchecked)
  | script wallet =>
    exact sound_iff_of_split ScriptWallet.unchecked_subset (wallet.required_split hchecked)

/-- The answer `false` is right exactly when the wallet provides the witnesses that it
has not looked at, or when it does not give this answer for a part that it looks at. -/
theorem requiresForeignSignatures_sound (signer : Signer spends) (body : TxBody)
    (hcredentials : ∀ c ∈ body.certificates.getD [], HasStakeCredential c) :
    ∃ result, requiresForeignSignatures body signer.observable = .ok result ∧
      ((result = false → signer.Sound body) ↔
        (signer.Checked body →
          ∀ credential ∈ signer.unchecked body, signer.Provides credential)) := by
  obtain ⟨result, hresult, hfalse⟩ := signer.requiresForeignSignatures_eq_false hcredentials
  refine ⟨result, hresult, ?_⟩
  rw [hfalse]
  apply imp_congr_right
  intro hchecked
  exact signer.sound_iff hchecked

end Signer

def lockedTxIn : TxIn := ⟨0, List.replicate 32 4, 0⟩

def keyLocked (_ : TxIn) : Option Credential := some ⟨.keyHash, List.replicate 28 1⟩

def oneAddressWallet : KeyWallet keyLocked where
  known := oneBaseAddress
  dRepKeyHash := none
  utxoTotal := [⟨0, lockedTxIn, { address := "", value := { coins := 0 } }⟩]
  locked := fun _ _ _ _ => ⟨baseAddress, List.mem_singleton.mpr rfl, rfl⟩

def foreignRewardAccount : RewardAccount := ⟨1, ⟨.keyHash, List.replicate 28 5⟩⟩

def foreignWithdrawalBody : TxBody where
  inputs := [lockedTxIn]
  outputs := []
  fee := 0
  withdrawals := some [⟨foreignRewardAccount, 0⟩]

theorem requiresForeignSignatures_sound_sample :
    ∃ result, requiresForeignSignatures foreignWithdrawalBody
        (Signer.keys oneAddressWallet).observable = .ok result ∧
      ((result = false → (Signer.keys oneAddressWallet).Sound foreignWithdrawalBody) ↔
        ((Signer.keys oneAddressWallet).Checked foreignWithdrawalBody →
          ∀ credential ∈ (Signer.keys oneAddressWallet).unchecked foreignWithdrawalBody,
            (Signer.keys oneAddressWallet).Provides credential)) :=
  Signer.requiresForeignSignatures_sound (.keys oneAddressWallet) foreignWithdrawalBody
    fun _ hnone => by cases hnone

/-- The wallet that owns one address accepts the withdrawal of another account. -/
theorem not_requiresForeignSignatures_sound :
    requiresForeignSignatures foreignWithdrawalBody (Signer.keys oneAddressWallet).observable =
        .ok false ∧
      ¬ (Signer.keys oneAddressWallet).Sound foreignWithdrawalBody := by
  constructor
  · rfl
  · intro hsound
    have hmem : foreignRewardAccount.paymentCredential ∈
        requiredWitnesses keyLocked foreignWithdrawalBody := by
      rw [mem_requiredWitnesses]
      exact Or.inr (Or.inr (Or.inr (Or.inl (List.mem_singleton.mpr rfl))))
    rcases hsound _ hmem rfl with ⟨a, ha, hhash⟩ | ⟨a, ha, hhash⟩ | hkey
    · rw [List.mem_singleton.mp ha] at hhash
      revert hhash
      decide
    · rw [List.mem_singleton.mp ha] at hhash
      revert hhash
      decide
    · cases hkey

end CardanoSdk.Wallet
