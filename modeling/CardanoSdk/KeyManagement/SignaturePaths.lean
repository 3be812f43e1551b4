import CardanoSdk.KeyManagement.SignatureDemands

/-!
What each collector of derivation paths finds, in terms of the known addresses.
-/

namespace CardanoSdk.KeyManagement

open Lib TxConstruction
open Cardano (NativeScript Script)

section Checks

variable {Path : Type}

variable {checks : List (SignatureCheck Path)} {path : Path}
  {accounts : List (StakeKeySignerData Path)} {owns : StakeKeySignerData Path → Bool}

variable {acc : SignatureCheck Path}

theorem mem_foldl_combine :
    path ∈ (checks.foldl combineSignatureChecks acc).derivationPaths ↔
      path ∈ acc.derivationPaths ∨ ∃ check ∈ checks, path ∈ check.derivationPaths := by
  induction checks generalizing acc with
  | nil => simp
  | cons check rest ih =>
    rw [List.foldl_cons, ih]
    simp only [combineSignatureChecks, List.mem_append, List.mem_cons, exists_eq_or_imp,
      or_assoc]

@[simp] theorem mem_combineAll :
    path ∈ (combineAll checks).derivationPaths ↔ ∃ check ∈ checks, path ∈ check.derivationPaths := by
  simp [combineAll, mem_foldl_combine]

theorem foreign_foldl_combine :
    (checks.foldl combineSignatureChecks acc).requiresForeignSignatures = false ↔
      acc.requiresForeignSignatures = false ∧
        ∀ check ∈ checks, check.requiresForeignSignatures = false := by
  induction checks generalizing acc with
  | nil => simp
  | cons check rest ih =>
    rw [List.foldl_cons, ih]
    simp [combineSignatureChecks, and_assoc]

@[simp] theorem foreign_combineAll :
    (combineAll checks).requiresForeignSignatures = false ↔
      ∀ check ∈ checks, check.requiresForeignSignatures = false := by
  simp [combineAll, foreign_foldl_combine]

theorem mem_checkAccount :
    path ∈ (checkAccount accounts owns).derivationPaths ↔
      ∃ account, accounts.find? owns = some account ∧ account.derivationPath = path := by
  unfold checkAccount
  cases accounts.find? owns with
  | none => simp
  | some account => simp [eq_comm]

theorem foreign_checkAccount :
    (checkAccount accounts owns).requiresForeignSignatures = false ↔
      ∃ account ∈ accounts, owns account = true := by
  unfold checkAccount
  cases hfind : accounts.find? owns with
  | none =>
    simp only [Bool.true_eq_false, false_iff, not_exists, not_and]
    exact List.find?_eq_none.mp hfind
  | some account =>
    simp only [true_iff]
    exact ⟨account, List.mem_of_find?_eq_some hfind, List.find?_some hfind⟩

theorem foreign_iff_path :
    (checkAccount accounts owns).requiresForeignSignatures = false ↔
      ∃ path, path ∈ (checkAccount accounts owns).derivationPaths := by
  unfold checkAccount
  cases accounts.find? owns with
  | none => simp
  | some account => simp

end Checks

variable {path : AccountKeyDerivationPath} {groupedAddresses : List GroupedAddress}
  {known : KnownAddresses} {keyHash : Hash} {body : TxBody} {certificate : Certificate}
  {a : GroupedAddress}

theorem mem_getSignersData {data : StakeKeySignerData AccountKeyDerivationPath} :
    data ∈ getSignersData groupedAddresses ↔
      ∃ a ∈ uniqueAccounts groupedAddresses, ∃ path, a.stakeKeyDerivationPath = some path ∧
        stakeKeySignerData a path = data := by
  simp [getSignersData]

def OwnStakePath (known : KnownAddresses) (property : RewardAccount → Prop)
    (path : AccountKeyDerivationPath) : Prop :=
  ∃ a ∈ known.addresses, property a.rewardAccount ∧ a.stakeKeyDerivationPath = some path

theorem checkAccount_paths (known : KnownAddresses) {property : RewardAccount → Prop}
    {owns : StakeKeySignerData AccountKeyDerivationPath → Bool}
    (howns : ∀ a path, owns (stakeKeySignerData a path) = true ↔ property a.rewardAccount)
    (hkey : ∀ r s, property r → property s → r.toHash = s.toHash) :
    path ∈ (checkAccount (getSignersData known.addresses) owns).derivationPaths ↔
      OwnStakePath known property path := by
  rw [mem_checkAccount]
  constructor
  · rintro ⟨data, hfind, rfl⟩
    obtain ⟨a, ha, path, hpath, rfl⟩ := mem_getSignersData.mp (List.mem_of_find?_eq_some hfind)
    have hproperty := (howns a path).mp (List.find?_some hfind)
    exact ⟨a, mem_of_mem_uniqWith ha, hproperty, hpath⟩
  · rintro ⟨a, ha, hproperty, hpath⟩
    have hfirst : ∃ b ∈ uniqueAccounts known.addresses, b.rewardAccount = a.rewardAccount :=
      exists_mem_uniqWith ha
    obtain ⟨b, hb, haccount⟩ := hfirst
    have hbmem := mem_of_mem_uniqWith hb
    have hbpath : b.stakeKeyDerivationPath = some path := by
      rw [known.stakePaths b hbmem a ha (by rw [haccount]), hpath]
    have hdata := mem_getSignersData.mpr ⟨b, hb, path, hbpath, rfl⟩
    have hbowns : owns (stakeKeySignerData b path) = true := by
      rw [howns, haccount]
      exact hproperty
    have hsome : ((getSignersData known.addresses).find? owns).isSome = true :=
      List.find?_isSome.mpr ⟨_, hdata, hbowns⟩
    obtain ⟨data, hfind⟩ := Option.isSome_iff_exists.mp hsome
    obtain ⟨c, hc, found, hfound, rfl⟩ := mem_getSignersData.mp (List.mem_of_find?_eq_some hfind)
    have hcproperty := (howns c found).mp (List.find?_some hfind)
    have hsame := known.stakePaths c (mem_of_mem_uniqWith hc) a ha (hkey _ _ hcproperty hproperty)
    rw [hfound, hpath] at hsame
    exact ⟨_, hfind, Option.some.inj hsame⟩

theorem mem_checkWithdrawals :
    path ∈ (checkWithdrawals body (getSignersData known.addresses)).derivationPaths ↔
      ∃ withdrawal ∈ body.withdrawals.getD [],
        OwnStakePath known (· = withdrawal.stakeAddress) path := by
  have hwithdrawal : ∀ withdrawal : Withdrawal,
      path ∈ (checkAccount (getSignersData known.addresses) fun account =>
        account.rewardAccount = withdrawal.stakeAddress).derivationPaths ↔
      OwnStakePath known (· = withdrawal.stakeAddress) path := by
    intro withdrawal
    apply checkAccount_paths known
    · intro a path
      exact decide_eq_true_iff
    · intro r s hr hs
      rw [hr, hs]
  simp only [checkWithdrawals, mem_combineAll, List.mem_map, exists_exists_and_eq_and, hwithdrawal]

theorem checkAccount_hash (known : KnownAddresses) (hash : Hash)
    (owns : StakeKeySignerData AccountKeyDerivationPath → Bool) (path : AccountKeyDerivationPath)
    (howns : ∀ a path, owns (stakeKeySignerData a path) = decide (a.rewardAccount.toHash = hash)) :
    path ∈ (checkAccount (getSignersData known.addresses) owns).derivationPaths ↔
      OwnStakePath known (fun account => hash = account.toHash) path := by
  apply checkAccount_paths known
  · intro a path
    rw [howns, decide_eq_true_iff]
    exact eq_comm
  · intro r s hr hs
    rw [← hr, hs]

theorem mem_checkStakeKeyHashCertificate :
    path ∈ (checkStakeKeyHashCertificate certificate
        (getSignersData known.addresses)).derivationPaths ↔
      ∃ stakeCredential, signingStakeCredential? certificate = some stakeCredential ∧
        OwnStakePath known (fun account => stakeCredential = ⟨.keyHash, account.toHash⟩) path := by
  unfold checkStakeKeyHashCertificate
  cases signingStakeCredential? certificate with
  | none => simp
  | some stakeCredential =>
    simp only [Option.some.injEq, exists_eq_left']
    apply checkAccount_paths known
    · intro a path
      obtain ⟨type, hash⟩ := stakeCredential
      rw [Bool.and_eq_true, decide_eq_true_iff, decide_eq_true_iff, Credential.mk.injEq]
      exact and_congr_right fun _ => eq_comm
    · intro r s hr hs
      have hsame := hr.symm.trans hs
      exact (Credential.mk.inj hsame).2

theorem mem_checkPoolRegistrationCertificate {poolParameters : PoolParameters} :
    path ∈ (checkPoolRegistrationCertificate (.poolRegistration poolParameters)
        (getSignersData known.addresses)).derivationPaths ↔
      OwnStakePath known (· ∈ poolParameters.owners) path := by
  have howner : ∀ owner : RewardAccount,
      path ∈ (checkAccount (getSignersData known.addresses) fun account =>
        account.rewardAccount = owner).derivationPaths ↔
      OwnStakePath known (· = owner) path := by
    intro owner
    apply checkAccount_paths known
    · intro a path
      exact decide_eq_true_iff
    · intro r s hr hs
      rw [hr, hs]
  simp only [checkPoolRegistrationCertificate, mem_combineAll, List.mem_map,
    exists_exists_and_eq_and, howner]
  constructor
  · rintro ⟨owner, howner, a, ha, rfl, hpath⟩
    exact ⟨a, ha, howner, hpath⟩
  · rintro ⟨a, ha, howner, hpath⟩
    exact ⟨_, howner, a, ha, rfl, hpath⟩

/-- A MIR certificate to stake credentials has one. -/
def HasStakeCredential (certificate : Certificate) : Prop := certificate ≠ .mir .toStakeCreds none

theorem checkCertificate_paths (known : KnownAddresses)
    (hcredential : HasStakeCredential certificate) :
    ∃ check, checkCertificate (getSignersData known.addresses) certificate = .ok check ∧
      ∀ path, path ∈ check.derivationPaths ↔
        OwnStakePath known (NeedsStakeKey · certificate) path := by
  cases certificate with
  | mir kind stakeCredential =>
    cases kind with
    | toOtherPot =>
      refine ⟨_, rfl, fun path => ?_⟩
      simp [checkStakeKeyHashCertificate, signingStakeCredential?,
        checkPoolRegistrationCertificate, checkPoolRetirementCertificate, OwnStakePath,
        NeedsStakeKey]
    | toStakeCreds =>
      cases stakeCredential with
      | none => exact absurd rfl hcredential
      | some stakeCredential =>
        refine ⟨_, rfl, fun path => ?_⟩
        have hmir := checkAccount_hash known stakeCredential.hash
          (fun account => account.stakeKeyHash = stakeCredential.hash) path fun _ _ => rfl
        simpa [checkStakeKeyHashCertificate, signingStakeCredential?,
          checkPoolRegistrationCertificate, checkPoolRetirementCertificate,
          NeedsStakeKey] using hmir
  | poolRegistration poolParameters =>
    refine ⟨_, rfl, fun path => ?_⟩
    simp [checkStakeKeyHashCertificate, signingStakeCredential?,
      mem_checkPoolRegistrationCertificate, checkPoolRetirementCertificate, NeedsStakeKey]
  | poolRetirement poolId =>
    refine ⟨_, rfl, fun path => ?_⟩
    have hpool := checkAccount_hash known poolId (fun account => account.poolId = poolId) path
      fun _ _ => rfl
    simpa [checkStakeKeyHashCertificate, signingStakeCredential?,
      checkPoolRegistrationCertificate, checkPoolRetirementCertificate,
      NeedsStakeKey] using hpool
  | _ =>
    refine ⟨_, rfl, fun path => ?_⟩
    simp [mem_checkStakeKeyHashCertificate, signingStakeCredential?,
      checkPoolRegistrationCertificate, checkPoolRetirementCertificate, NeedsStakeKey,
      OwnStakePath]

theorem mem_checkStakeCredentialCertificates (known : KnownAddresses)
    (hcredentials : ∀ c ∈ body.certificates.getD [], HasStakeCredential c) :
    ∃ check, checkStakeCredentialCertificates (getSignersData known.addresses) body = .ok check ∧
      ∀ path, path ∈ check.derivationPaths ↔ ∃ certificate ∈ body.certificates.getD [],
        OwnStakePath known (NeedsStakeKey · certificate) path := by
  obtain ⟨checks, hchecks, hpaths⟩ := mapM_ok_forall₂ fun certificate hmem =>
    checkCertificate_paths known (hcredentials certificate hmem)
  refine ⟨_, by rw [checkStakeCredentialCertificates, hchecks]; rfl, fun path => ?_⟩
  rw [mem_uniqWith_id, mem_combineAll]
  clear hchecks hcredentials
  generalize body.certificates.getD [] = certificates at hpaths ⊢
  induction hpaths with
  | nil => simp
  | cons hfound _ ih => simp only [List.mem_cons, exists_eq_or_imp, hfound path, ih]

theorem mem_checkDRepKey {owned : Bool} :
    path ∈ (checkDRepKey owned).derivationPaths ↔ owned = true ∧ path = dRepKeyDerivationPath := by
  cases owned <;> simp [checkDRepKey]

theorem mem_getVotingProcedureKeyPaths {known : KnownAddresses} {dRepKeyHash : Option Hash}
    {body : TxBody} {path : AccountKeyDerivationPath} :
    path ∈ (getVotingProcedureKeyPaths known.addresses dRepKeyHash body).derivationPaths ↔
      ∃ voter ∈ body.votingProcedures.getD [],
        (voter.typename = .dRepKeyHash ∧ dRepKeyHash = some voter.hash ∧
          path = dRepKeyDerivationPath) ∨
        (voter.typename = .stakePoolKeyHash ∧
          OwnStakePath known (fun account => voter.hash = account.toHash) path) := by
  have hvoter : ∀ voter : Voter,
      path ∈ (checkVoter (getSignersData known.addresses) dRepKeyHash voter).derivationPaths ↔
        (voter.typename = .dRepKeyHash ∧ dRepKeyHash = some voter.hash ∧
          path = dRepKeyDerivationPath) ∨
        (voter.typename = .stakePoolKeyHash ∧
          OwnStakePath known (fun account => voter.hash = account.toHash) path) := by
    intro voter
    have hpool := checkAccount_hash known voter.hash
      (fun account => account.stakeKeyHash = voter.credential.hash) path fun _ _ => rfl
    obtain ⟨typename, hash⟩ := voter
    cases typename with
    | dRepKeyHash =>
      simp only [checkVoter, mem_checkDRepKey, Voter.credential, true_and, reduceCtorEq,
        false_and, or_false]
      exact and_congr_left fun _ => decide_eq_true_iff
    | stakePoolKeyHash => simpa [checkVoter] using hpool
    | _ => simp [checkVoter]
  simp only [getVotingProcedureKeyPaths, mem_combineAll, List.mem_map, exists_exists_and_eq_and,
    hvoter]

/-- The key of the own representative signs the certificate. -/
def SignedByDRep (dRepKeyHash : Option Hash) (certificate : Certificate) : Prop :=
  ∃ hash, dRepKeyHash = some hash ∧ NeedsDRepKey hash certificate

theorem needsDRepKey_iff {hash : Hash} :
    NeedsDRepKey hash certificate ↔ dRepCredential? certificate = some ⟨.keyHash, hash⟩ := by
  cases certificate <;> simp [NeedsDRepKey, dRepCredential?]

theorem checkDRepCertificate_paths {dRepKeyHash : Option Hash} {certificate : Certificate}
    {signature : SignatureCheck AccountKeyDerivationPath} :
    (SignedByDRep dRepKeyHash certificate ∧
      (checkDRepCertificate dRepKeyHash signature certificate).derivationPaths =
        [dRepKeyDerivationPath]) ∨
    (¬ SignedByDRep dRepKeyHash certificate ∧
      (checkDRepCertificate dRepKeyHash signature certificate).derivationPaths =
        signature.derivationPaths) := by
  simp only [SignedByDRep, needsDRepKey_iff, checkDRepCertificate]
  cases dRepCredential? certificate with
  | none => simp
  | some dRepCredential =>
    obtain ⟨type, hash⟩ := dRepCredential
    by_cases hforeign : type = .scriptHash ∨ dRepKeyHash ≠ some hash
    · right
      simp only [if_pos hforeign, and_true]
      rintro ⟨own, hown, hsame⟩
      obtain ⟨rfl, rfl⟩ := Credential.mk.inj (Option.some.inj hsame)
      rcases hforeign with hscript | hother
      · cases hscript
      · exact hother hown
    · left
      simp only [if_neg hforeign, and_true]
      rw [not_or, not_not] at hforeign
      refine ⟨hash, hforeign.2, ?_⟩
      cases type with
      | keyHash => rfl
      | scriptHash => exact absurd rfl hforeign.1

theorem mem_foldl_checkDRepCertificate {dRepKeyHash : Option Hash}
    {certificates : List Certificate} {signature : SignatureCheck AccountKeyDerivationPath}
    (hsignature : ∀ path ∈ signature.derivationPaths, path = dRepKeyDerivationPath) :
    path ∈ (certificates.foldl (checkDRepCertificate dRepKeyHash) signature).derivationPaths ↔
      path ∈ signature.derivationPaths ∨
        path = dRepKeyDerivationPath ∧ ∃ c ∈ certificates, SignedByDRep dRepKeyHash c := by
  induction certificates generalizing signature with
  | nil => simp
  | cons certificate rest ih =>
    rw [List.foldl_cons]
    rcases @checkDRepCertificate_paths dRepKeyHash certificate signature with
      ⟨hsigned, hpaths⟩ | ⟨hunsigned, hpaths⟩
    · rw [ih (by rw [hpaths]; exact fun p hp => List.mem_singleton.mp hp), hpaths,
        List.mem_singleton]
      constructor
      · rintro (hpath | ⟨hpath, -⟩)
        · exact Or.inr ⟨hpath, certificate, List.mem_cons_self, hsigned⟩
        · exact Or.inr ⟨hpath, certificate, List.mem_cons_self, hsigned⟩
      · rintro (hpath | ⟨hpath, -⟩)
        · exact Or.inl (hsignature path hpath)
        · exact Or.inl hpath
    · rw [ih (by rw [hpaths]; exact hsignature), hpaths]
      simp only [List.mem_cons, exists_eq_or_imp, hunsigned, false_or]

theorem mem_getDRepCredentialKeyPaths {dRepKeyHash : Option Hash} {body : TxBody}
    {path : AccountKeyDerivationPath} :
    path ∈ (getDRepCredentialKeyPaths dRepKeyHash body).derivationPaths ↔
      path = dRepKeyDerivationPath ∧
        ∃ c ∈ body.certificates.getD [], SignedByDRep dRepKeyHash c := by
  rw [getDRepCredentialKeyPaths, mem_foldl_checkDRepCertificate (by simp)]
  simp

/-- The path is that of the payment or of the stake key of the address, and the hash
is the key's. -/
def AddressKeyPath (a : GroupedAddress) (keyHash : Hash) (path : AccountKeyDerivationPath) : Prop :=
  (a.paymentHash? = some keyHash ∧ path = a.paymentKeyPath) ∨
    (a.rewardAccount.toHash = keyHash ∧ a.stakeKeyDerivationPath = some path)

theorem mem_pathIf {condition : Bool} {found : AccountKeyDerivationPath} :
    path ∈ pathIf condition found ↔ condition = true ∧ path = found := by
  cases condition <;> simp [pathIf]

theorem mem_getRequiredSignersKeyPaths {keyHashes : Option (List Hash)} :
    path ∈ getRequiredSignersKeyPaths groupedAddresses keyHashes ↔
      ∃ keyHash ∈ keyHashes.getD [], ∃ a ∈ groupedAddresses, AddressKeyPath a keyHash path := by
  simp only [getRequiredSignersKeyPaths, List.mem_flatMap, List.mem_append, mem_pathIf,
    Option.mem_toList, decide_eq_true_iff]
  apply exists_congr
  intro keyHash
  apply and_congr_right
  intro _
  apply exists_congr
  intro a
  apply and_congr_right
  intro _
  apply or_congr_right
  constructor
  · rintro ⟨found, hfound, hhash, rfl⟩
    exact ⟨hhash, hfound⟩
  · rintro ⟨hhash, hfound⟩
    exact ⟨path, hfound, hhash, rfl⟩

theorem mem_checkStakeCredential :
    path ∈ (checkStakeCredential a keyHash).derivationPaths ↔
      a.rewardAccount.toHash = keyHash ∧ a.stakeKeyDerivationPath = some path := by
  unfold checkStakeCredential
  cases a.stakeKeyDerivationPath with
  | none => simp
  | some found =>
    by_cases hhash : a.rewardAccount.toHash = keyHash
    · simp [hhash, eq_comm]
    · simp [hhash]

theorem mem_checkPaymentCredential :
    path ∈ (checkPaymentCredential a keyHash).derivationPaths ↔
      a.paymentHash? = some keyHash ∧ path = a.paymentKeyPath := by
  unfold checkPaymentCredential
  by_cases hhash : a.paymentHash? = some keyHash
  · simp [hhash]
  · simp [hhash]

theorem mem_addSignatureScript {signatureCheck : SignatureCheck AccountKeyDerivationPath} :
    path ∈ (addSignatureScript keyHash signatureCheck a).derivationPaths ↔
      path ∈ signatureCheck.derivationPaths ∨ AddressKeyPath a keyHash path := by
  unfold addSignatureScript
  by_cases hpath : a.stakeKeyDerivationPath.isSome
  · simp only [if_pos hpath, combineSignatureChecks, List.mem_append, mem_checkStakeCredential,
      mem_checkPaymentCredential, AddressKeyPath, or_assoc]
    apply or_congr_right
    exact or_comm
  · have hnone : a.stakeKeyDerivationPath = none := Option.not_isSome_iff_eq_none.mp hpath
    simp [combineSignatureChecks, mem_checkPaymentCredential, AddressKeyPath, hnone]

theorem mem_processSignatureScript :
    path ∈ (processSignatureScript keyHash groupedAddresses).derivationPaths ↔
      ∃ a ∈ groupedAddresses, AddressKeyPath a keyHash path := by
  have hfold : ∀ (l : List GroupedAddress) (acc : SignatureCheck AccountKeyDerivationPath),
      path ∈ (l.foldl (addSignatureScript keyHash) acc).derivationPaths ↔
        path ∈ acc.derivationPaths ∨ ∃ a ∈ l, AddressKeyPath a keyHash path := by
    intro l
    induction l with
    | nil => simp
    | cons a rest ih =>
      intro acc
      rw [List.foldl_cons, ih, mem_addSignatureScript]
      simp only [List.mem_cons, exists_eq_or_imp, or_assoc]
  rw [processSignatureScript, hfold]
  simp

mutual

theorem mem_processNativeScript {groupedAddresses : List GroupedAddress}
    {path : AccountKeyDerivationPath} (script : NativeScript) :
    path ∈ (processNativeScript groupedAddresses script).derivationPaths ↔
      ∃ keyHash ∈ signatureClauses script, ∃ a ∈ groupedAddresses,
        AddressKeyPath a keyHash path := by
  cases script with
  | requireSignature keyHash =>
    simp [processNativeScript, signatureClauses, mem_processSignatureScript]
  | requireAllOf scripts =>
    simp [processNativeScript, signatureClauses, mem_processNativeScripts scripts]
  | requireAnyOf scripts =>
    simp [processNativeScript, signatureClauses, mem_processNativeScripts scripts]
  | requireNOf required scripts =>
    simp [processNativeScript, signatureClauses, mem_processNativeScripts scripts]
  | requireTimeAfter slot => simp [processNativeScript, signatureClauses]
  | requireTimeBefore slot => simp [processNativeScript, signatureClauses]
  | requireGuard credential =>
    by_cases htype : credential.type = .keyHash
    · simp [processNativeScript, signatureClauses, htype, mem_processSignatureScript]
    · simp [processNativeScript, signatureClauses, htype]

theorem mem_processNativeScripts {groupedAddresses : List GroupedAddress}
    {path : AccountKeyDerivationPath} (scripts : List NativeScript)
    {acc : SignatureCheck AccountKeyDerivationPath} :
    path ∈ (processNativeScripts groupedAddresses acc scripts).derivationPaths ↔
      path ∈ acc.derivationPaths ∨ ∃ keyHash ∈ signatureClausesOfAll scripts,
        ∃ a ∈ groupedAddresses, AddressKeyPath a keyHash path := by
  cases scripts with
  | nil => simp [processNativeScripts, signatureClausesOfAll]
  | cons script rest =>
    rw [processNativeScripts, mem_processNativeScripts rest]
    simp only [combineSignatureChecks, List.mem_append, mem_processNativeScript script,
      signatureClausesOfAll, or_and_right, exists_or, or_assoc]

end

variable {scripts : Option (List Script)}

theorem mem_getNativeScriptKeyPaths :
    path ∈ (getNativeScriptKeyPaths groupedAddresses scripts).derivationPaths ↔
      ∃ script ∈ scripts.getD [], ∃ keyHash ∈ scriptKeyHashes script, ∃ a ∈ groupedAddresses,
        AddressKeyPath a keyHash path := by
  have hscript : ∀ script : Script,
      path ∈ (processScript groupedAddresses script).derivationPaths ↔
        ∃ keyHash ∈ scriptKeyHashes script, ∃ a ∈ groupedAddresses,
          AddressKeyPath a keyHash path := by
    intro script
    cases script with
    | native script => exact mem_processNativeScript script
    | plutus script => simp [processScript, scriptKeyHashes]
  simp only [getNativeScriptKeyPaths, mem_combineAll, List.mem_map, exists_exists_and_eq_and,
    hscript]

theorem hashPaths_iff :
    (path ∈ getRequiredSignersKeyPaths known.addresses body.requiredExtraSignatures ∨
      path ∈ (getNativeScriptKeyPaths known.addresses scripts).derivationPaths) ↔
      ∃ keyHash ∈ demandedHashes body scripts, ∃ a ∈ known.addresses,
        AddressKeyPath a keyHash path := by
  rw [mem_getRequiredSignersKeyPaths, mem_getNativeScriptKeyPaths]
  simp only [demandedHashes, List.mem_append, List.mem_flatMap, or_and_right, exists_or]
  apply or_congr_right
  constructor
  · rintro ⟨script, hscript, keyHash, hhash, hown⟩
    exact ⟨keyHash, ⟨script, hscript, hhash⟩, hown⟩
  · rintro ⟨keyHash, ⟨script, hscript, hhash⟩, hown⟩
    exact ⟨script, hscript, keyHash, hhash, hown⟩

end CardanoSdk.KeyManagement
