import CardanoSdk.KeyManagement.SignaturePaths
import CardanoSdk.KeyManagement.Witnesser

/-!
`key-management/src/util/KeyAgentTransactionSigner.ts`: a signer that has a key agent sign
with the key of one path.
-/

namespace CardanoSdk.KeyManagement

open Lib TxConstruction

/-- `SignTransactionContext` and `SignTransactionOptions` of the signer. -/
def emptyContext : SignTransactionContext where
  txInKeyPathMap := JsMap.empty
  knownAddresses := []

def onlySignature (signatures : Signatures) : Except SigningError TransactionSignature :=
  match signatures.entries with
  | [(pubKey, signature)] => .ok { pubKey := pubKey, signature := signature }
  | entries => .error (.extraSigner
      ("Invalid number of signatures. Expected 1 and got " ++ toString entries.length))

def keyAgentTransactionSigner (keyAgent : InMemoryKeyAgent) (account : AccountKeyDerivationPath) :
    TransactionSigner := fun txBody => do
  let signatures ← keyAgent.signTransaction txBody emptyContext
    { additionalKeyPaths := some [account] }
  onlySignature signatures

/-- The body has a certificate or a vote of the representative with this key. -/
def DemandsDRepKey (hash : Hash) (body : TxBody) : Prop :=
  (∃ certificate ∈ body.certificates.getD [], NeedsDRepKey hash certificate) ∨
    ∃ voter ∈ body.votingProcedures.getD [], voter.typename = .dRepKeyHash ∧ voter.hash = hash

theorem combineAll_of_empty {checks : List (SignatureCheck AccountKeyDerivationPath)}
    (h : ∀ check ∈ checks, check.derivationPaths = []) : (combineAll checks).derivationPaths = [] := by
  refine List.eq_nil_iff_forall_not_mem.mpr fun path hmem => ?_
  obtain ⟨check, hcheck, hpath⟩ := mem_combineAll.mp hmem
  rw [h check hcheck] at hpath
  exact List.not_mem_nil hpath

theorem checkCertificate_nil (certificate : Certificate) : ∃ check,
    @checkCertificate AccountKeyDerivationPath [] certificate = .ok check ∧
      check.derivationPaths = [] := by
  have haccount (owns : StakeKeySignerData AccountKeyDerivationPath → Bool) :
      (checkAccount [] owns).derivationPaths = [] := rfl
  have hstake : (@checkStakeKeyHashCertificate AccountKeyDerivationPath certificate
      []).derivationPaths = [] := by
    unfold checkStakeKeyHashCertificate
    split
    · exact haccount _
    · rfl
  have howner : (@checkPoolRegistrationCertificate AccountKeyDerivationPath certificate
      []).derivationPaths = [] := by
    unfold checkPoolRegistrationCertificate
    split
    · refine combineAll_of_empty fun check hmem => ?_
      obtain ⟨owner, -, rfl⟩ := List.mem_map.mp hmem
      exact haccount _
    · rfl
  have hpool : (@checkPoolRetirementCertificate AccountKeyDerivationPath certificate
      []).derivationPaths = [] := by
    unfold checkPoolRetirementCertificate
    split
    · exact haccount _
    · rfl
  have hmir : ∃ check, @checkMirCertificate AccountKeyDerivationPath certificate [] = .ok check ∧
      check.derivationPaths = [] := by
    unfold checkMirCertificate
    split
    · exact ⟨_, rfl, haccount _⟩
    · exact ⟨_, rfl, rfl⟩
    · exact ⟨_, rfl, rfl⟩
    · exact ⟨_, rfl, rfl⟩
  obtain ⟨check, hcheck, hnone⟩ := hmir
  refine ⟨_, by rw [checkCertificate, hcheck]; rfl, combineAll_of_empty fun found hmem => ?_⟩
  simp only [List.mem_cons, List.not_mem_nil, or_false] at hmem
  rcases hmem with rfl | rfl | rfl | rfl
  · exact hstake
  · exact howner
  · exact hpool
  · exact hnone

theorem getStakeCredentialKeyPaths_nil (body : TxBody) : ∃ check,
    getStakeCredentialKeyPaths [] body = .ok check ∧ check.derivationPaths = [] := by
  obtain ⟨checks, hchecks, hall⟩ := mapM_ok_forall₂
    (R := fun _ (check : SignatureCheck AccountKeyDerivationPath) => check.derivationPaths = [])
    fun certificate (_ : certificate ∈ body.certificates.getD []) => checkCertificate_nil certificate
  have hnone : (combineAll checks).derivationPaths = [] := by
    refine combineAll_of_empty fun check hmem => ?_
    obtain ⟨index, hindex, rfl⟩ := List.getElem_of_mem hmem
    exact hall.get (hall.length_eq ▸ hindex) hindex
  have hcertificates : checkStakeCredentialCertificates [] body = .ok { combineAll checks with
      derivationPaths := uniqWith (sameKey id) (combineAll checks).derivationPaths } := by
    rw [checkStakeCredentialCertificates, hchecks]
    rfl
  have hwithdrawals : (@checkWithdrawals AccountKeyDerivationPath body []).derivationPaths = [] := by
    refine combineAll_of_empty fun check hmem => ?_
    obtain ⟨withdrawal, -, rfl⟩ := List.mem_map.mp hmem
    rfl
  refine ⟨_, by rw [getStakeCredentialKeyPaths]; exact bind_of_ok hcertificates, ?_⟩
  dsimp only [combineSignatureChecks]
  rw [hnone]
  change uniqWith (sameKey id) ((checkWithdrawals body []).derivationPaths ++ []) = []
  rw [hwithdrawals]
  rfl

def noKnownAddresses : KnownAddresses where
  addresses := []
  paymentKeys := fun _ hmem => (List.not_mem_nil hmem).elim
  stakeKeys := fun _ hmem => (List.not_mem_nil hmem).elim
  stakePaths := fun _ hmem => (List.not_mem_nil hmem).elim
  stakeRole := fun _ hmem => (List.not_mem_nil hmem).elim

theorem mem_ownSignatureKeyPaths_nil (body : TxBody) (hash : Hash) : ∃ paths,
    ownSignatureKeyPaths body [] JsMap.empty (some hash) none = .ok paths ∧ paths.Nodup ∧
      ∀ path, path ∈ paths ↔ path = dRepKeyDerivationPath ∧ DemandsDRepKey hash body := by
  obtain ⟨check, hcheck, hnone⟩ := getStakeCredentialKeyPaths_nil body
  refine ⟨_, by rw [ownSignatureKeyPaths]; exact bind_of_ok hcheck, nodup_uniqWith_id, fun path => ?_⟩
  have hsigners : getRequiredSignersKeyPaths [] body.requiredExtraSignatures = [] :=
    List.flatMap_eq_nil_iff.mpr fun _ _ => rfl
  have hvotes := @mem_getVotingProcedureKeyPaths noKnownAddresses (some hash) body path
  have hcertificates := @mem_getDRepCredentialKeyPaths (some hash) body path
  have hscripts : (getNativeScriptKeyPaths [] none).derivationPaths = [] := rfl
  have hinputs : (JsMap.empty : TxInKeyPathMap).values.filterMap id = [] := rfl
  change _ ∈ (getVotingProcedureKeyPaths [] (some hash) body).derivationPaths ↔ _ at hvotes
  rw [mem_uniqWith_id, hnone, hsigners, hscripts, hinputs, List.append_nil, List.append_nil,
    List.append_nil, List.nil_append, List.mem_append, hvotes, hcertificates]
  constructor
  · rintro (⟨hpath, certificate, hmem, own, hown, hneeds⟩ |
      ⟨voter, hmem, ⟨htype, hhash, hpath⟩ | ⟨-, a, ha, -⟩⟩)
    · cases hown
      exact ⟨hpath, Or.inl ⟨certificate, hmem, hneeds⟩⟩
    · exact ⟨hpath, Or.inr ⟨voter, hmem, htype, (Option.some.inj hhash).symm⟩⟩
    · exact (List.not_mem_nil ha).elim
  · rintro ⟨hpath, ⟨certificate, hmem, hneeds⟩ | ⟨voter, hmem, htype, rfl⟩⟩
    · exact Or.inl ⟨hpath, certificate, hmem, hash, rfl, hneeds⟩
    · exact Or.inr ⟨voter, hmem, Or.inl ⟨htype, rfl, hpath⟩⟩

theorem ownSignatureKeyPaths_nil (body : TxBody) (hash : Hash) :
    (DemandsDRepKey hash body ∧ ownSignatureKeyPaths body [] JsMap.empty (some hash) none =
        .ok [dRepKeyDerivationPath]) ∨
      (¬ DemandsDRepKey hash body ∧
        ownSignatureKeyPaths body [] JsMap.empty (some hash) none = .ok []) := by
  obtain ⟨paths, hpaths, hnodup, hmem⟩ := mem_ownSignatureKeyPaths_nil body hash
  by_cases hdemands : DemandsDRepKey hash body
  · refine Or.inl ⟨hdemands, hpaths.trans (congrArg Except.ok (List.perm_singleton.mp ?_))⟩
    refine (List.perm_ext_iff_of_nodup hnodup (List.nodup_singleton _)).mpr fun path => ?_
    rw [hmem, List.mem_singleton, and_iff_left hdemands]
  · refine Or.inr ⟨hdemands, hpaths.trans (congrArg Except.ok ?_)⟩
    exact List.eq_nil_iff_forall_not_mem.mpr fun path hpath => hdemands ((hmem path).mp hpath).2

/-- Decryption succeeds, and every path has a key that signs. -/
structure InMemoryKeyAgent.Unlocked (keyAgent : InMemoryKeyAgent)
    (publicKey : AccountKeyDerivationPath → Ed25519PublicKey)
    (signature : AccountKeyDerivationPath → List UInt8 → Ed25519Signature) : Prop where
  derives : ∀ path, keyAgent.derivePublicKey path = .ok (publicKey path)
  signs : ∀ path blob, keyAgent.signBlob path blob = .ok (publicKey path, signature path blob)

/-- The role is one digit, and the index stands behind the dot. -/
theorem roleAndIndex_injective : Function.Injective roleAndIndex := by
  rintro ⟨role, index⟩ ⟨role', index'⟩ hsame
  have hdigit (role : KeyRole) : ∃ digit, (toString role.toNat).toList = [digit] ∧
      role = [KeyRole.external, .internal, .stake, .dRep].getD (digit.toNat - '0'.toNat) .external := by
    cases role <;> exact ⟨_, rfl, rfl⟩
  obtain ⟨digit, hdigits, hrole⟩ := hdigit role
  obtain ⟨digit', hdigits', hrole'⟩ := hdigit role'
  have hchars := congrArg String.toList hsame
  simp only [roleAndIndex, String.toList_append, hdigits, hdigits', List.cons_append,
    List.nil_append, List.cons.injEq] at hchars
  obtain ⟨rfl, hchars⟩ := hchars
  have hdecimal : (String.ofList (Nat.toDigits 10 index)).toList =
      (String.ofList (Nat.toDigits 10 index')).toList := List.append_cancel_left hchars
  rw [String.toList_ofList, String.toList_ofList] at hdecimal
  have hindex : index = index' := by
    rw [← @Nat.ofDigitChars_ten_toDigits index, hdecimal, Nat.ofDigitChars_ten_toDigits]
  rw [hrole, hrole', hindex]

section Signing

variable {keyAgent : InMemoryKeyAgent} {publicKey : AccountKeyDerivationPath → Ed25519PublicKey}
  {signature : AccountKeyDerivationPath → List UInt8 → Ed25519Signature}

theorem InMemoryKeyAgent.Unlocked.mapM_signBlob (h : keyAgent.Unlocked publicKey signature)
    (paths : List AccountKeyDerivationPath) (blob : List UInt8) :
    paths.mapM (fun path => keyAgent.signBlob path blob) =
      .ok (paths.map fun path => (publicKey path, signature path blob)) :=
  mapM_ok_map fun path _ => h.signs path blob

theorem signTransaction_emptyContext (h : keyAgent.Unlocked publicKey signature)
    {account : AccountKeyDerivationPath} {txBody : TransactionBody}
    {derivationPaths : List AccountKeyDerivationPath}
    (hpaths : ownSignatureKeyPaths txBody.core [] JsMap.empty
      (some (keyAgent.hash (publicKey dRepKeyDerivationPath))) none = .ok derivationPaths) :
    keyAgent.signTransaction txBody emptyContext { additionalKeyPaths := some [account] } =
      .ok (JsMap.ofList ((uniqWith (sameKey roleAndIndex) (derivationPaths ++ [account])).map
        fun path => (publicKey path, signature path txBody.hash))) := by
  have hrequired : requiredKeyPaths txBody.core emptyContext
      (some (keyAgent.hash (publicKey dRepKeyDerivationPath))) = .ok derivationPaths :=
    mapError_eq_ok_iff.mpr hpaths
  rw [InMemoryKeyAgent.signTransaction]
  refine (bind_of_ok (h.derives dRepKeyDerivationPath)).trans ?_
  refine (bind_of_ok hrequired).trans ?_
  exact bind_of_ok (h.mapM_signBlob _ txBody.hash)

theorem onlySignature_eq_ok_iff {signatures : Signatures} {result : TransactionSignature} :
    onlySignature signatures = .ok result ↔
      signatures.entries = [(result.pubKey, result.signature)] := by
  unfold onlySignature
  split
  · rename_i pubKey signature hentries
    rw [hentries, Except.ok.injEq, List.singleton_inj, Prod.mk.injEq]
    constructor
    · rintro rfl
      exact ⟨rfl, rfl⟩
    · rintro ⟨rfl, rfl⟩
      rfl
  · rename_i hother
    exact iff_of_false (fun herror => by cases herror) (hother _ _)

/-- The signer returns the signature of its path exactly if the body does not also
demand the key of the representative, or this is the same key. -/
theorem keyAgentTransactionSigner_signs_iff (h : keyAgent.Unlocked publicKey signature)
    (account : AccountKeyDerivationPath) (txBody : TransactionBody) :
    keyAgentTransactionSigner keyAgent account txBody =
        .ok { pubKey := publicKey account, signature := signature account txBody.hash } ↔
      (DemandsDRepKey (keyAgent.hash (publicKey dRepKeyDerivationPath)) txBody.core →
        publicKey dRepKeyDerivationPath = publicKey account) := by
  rcases ownSignatureKeyPaths_nil txBody.core
    (keyAgent.hash (publicKey dRepKeyDerivationPath)) with ⟨hdemands, hpaths⟩ | ⟨hfree, hpaths⟩
  · have hsigned : keyAgentTransactionSigner keyAgent account txBody = onlySignature _ :=
      bind_of_ok (signTransaction_emptyContext h hpaths)
    rw [imp_iff_right hdemands, hsigned, onlySignature_eq_ok_iff]
    by_cases hsame : dRepKeyDerivationPath = account
    · subst hsame
      exact iff_of_true rfl rfl
    · have hpair : uniqWith (sameKey roleAndIndex) ([dRepKeyDerivationPath] ++ [account]) =
          [dRepKeyDerivationPath, account] := by
        apply uniqWith_of_nodup
        simpa [List.nodup_cons] using fun heq => hsame (roleAndIndex_injective heq)
      rw [hpair]
      by_cases hkey : publicKey dRepKeyDerivationPath = publicKey account
      · simp [JsMap.ofList, JsMap.entries_set, JsMap.empty, JsMap.insertEntry, hkey]
      · have hne : ¬ publicKey account = publicKey dRepKeyDerivationPath := fun heq => hkey heq.symm
        simp [JsMap.ofList, JsMap.entries_set, JsMap.empty, JsMap.insertEntry, hkey, hne]
  · have hsigned : keyAgentTransactionSigner keyAgent account txBody = onlySignature _ :=
      bind_of_ok (signTransaction_emptyContext h hpaths)
    rw [hsigned, onlySignature_eq_ok_iff]
    exact iff_of_true rfl fun hdemands => absurd hdemands hfree

def roleKeyAgent : InMemoryKeyAgent where
  derivePublicKey path := .ok ⟨List.replicate 32 (UInt8.ofNat path.role.toNat), List.length_replicate⟩
  hash key := key.1.take 28
  signBlob path _ :=
    .ok (⟨List.replicate 32 (UInt8.ofNat path.role.toNat), List.length_replicate⟩, mockSignature)

theorem roleKeyAgent_unlocked : roleKeyAgent.Unlocked
    (fun path => ⟨List.replicate 32 (UInt8.ofNat path.role.toNat), List.length_replicate⟩)
    (fun _ _ => mockSignature) where
  derives _ := rfl
  signs _ _ := rfl

def updateDRepBody : TransactionBody where
  core :=
    { inputs := []
      outputs := []
      fee := 0
      certificates := some [.updateDelegateRepresentative ⟨.keyHash, List.replicate 28 3⟩] }
  hash := []

/-- A body that spends, delegates and updates another representative, who votes. -/
def delegatingBody : TransactionBody where
  core :=
    { inputs := [⟨0, List.replicate 32 1, 0⟩, ⟨1, List.replicate 32 1, 4⟩]
      outputs := []
      fee := 170000
      certificates := some [
        .stakeDelegation ⟨.keyHash, List.replicate 28 2⟩ (List.replicate 28 7),
        .updateDelegateRepresentative ⟨.keyHash, List.replicate 28 9⟩]
      votingProcedures := some [⟨.dRepKeyHash, List.replicate 28 9⟩] }
  hash := List.replicate 32 8

/-- Nothing is demanded of the own representative, and the payment key signs. -/
theorem keyAgentTransactionSigner_signs_payment :
    keyAgentTransactionSigner roleKeyAgent ⟨.external, 0⟩ delegatingBody =
      .ok { pubKey := ⟨List.replicate 32 0, List.length_replicate⟩, signature := mockSignature } := by
  refine (keyAgentTransactionSigner_signs_iff roleKeyAgent_unlocked _ _).mpr fun hdemands => ?_
  rcases hdemands with ⟨certificate, hmem, hneeds⟩ | ⟨voter, hmem, -, hhash⟩
  · rcases List.mem_pair.mp hmem with rfl | rfl
    · exact hneeds.elim
    · exact absurd (congrArg Credential.hash hneeds) (by decide)
  · obtain rfl := List.mem_singleton.mp hmem
    exact absurd hhash (by decide)

/-- The payment key signs nothing when the representative signs as well. -/
theorem keyAgentTransactionSigner_refuses_dRep :
    keyAgentTransactionSigner roleKeyAgent ⟨.external, 0⟩ updateDRepBody ≠
      .ok { pubKey := ⟨List.replicate 32 0, List.length_replicate⟩, signature := mockSignature } := by
  have hrefused : keyAgentTransactionSigner roleKeyAgent ⟨.external, 0⟩ updateDRepBody =
      .error (.extraSigner "Invalid number of signatures. Expected 1 and got 2") := rfl
  rw [hrefused]
  exact fun hok => by cases hok

end Signing

end CardanoSdk.KeyManagement
