import CardanoSdk.KeyManagement.SignaturePaths

/-!
`ownSignatureKeyPaths` returns the paths of the owned keys that a transaction demands. The
hash of a required signer or of a signature clause is looked up among payment and stake
keys only, so the DRep key is missed there.
-/

namespace CardanoSdk.KeyManagement

open Lib TxConstruction
open InputSelection (TxIn)
open Cardano (NativeScript Script)

def WalletKey.isDRep : WalletKey → Bool
  | .dRep _ => true
  | _ => false

def Answered (spends : TxIn → Option Hash) (body : TxBody) (scripts : Option (List Script))
    (key : WalletKey) : Prop :=
  DemandedInRole spends body key ∨ key.isDRep = false ∧ key.hash ∈ demandedHashes body scripts

/-- The DRep key is named by its hash only where a certificate or a vote asks for it. -/
def DRepHashesInRole (spends : TxIn → Option Hash) (body : TxBody)
    (scripts : Option (List Script)) (dRepKeyHash : Option Hash) : Prop :=
  ∀ hash, dRepKeyHash = some hash → hash ∈ demandedHashes body scripts →
    DemandedInRole spends body (.dRep hash)

variable {known : KnownAddresses} {dRepKeyHash : Option Hash} {body : TxBody}
  {path : AccountKeyDerivationPath} {spends : TxIn → Option Hash}

variable {map : TxInKeyPathMap} {key : WalletKey}

theorem mem_paymentKeyPaths (hmap : map.Correct known spends body) :
    path ∈ map.values.filterMap id ↔ ∃ txIn ∈ body.inputs ++ body.collaterals.getD [],
      ∃ hash, spends txIn = some hash ∧ known.Owns none (.payment hash path) := by
  rw [List.mem_filterMap]
  constructor
  · rintro ⟨value, hvalue, hpath⟩
    obtain ⟨⟨id, value⟩, hentry, rfl⟩ := List.mem_map.mp hvalue
    obtain ⟨txIn, hmem, hid⟩ := hmap.inputs id (List.mem_map.mpr ⟨_, hentry, rfl⟩)
    have hget := JsMap.get?_eq_some_iff.mpr hentry
    have hvalue : value = some path := hpath
    rw [hvalue, ← hid] at hget
    exact ⟨txIn, hmem, (hmap.paths txIn hmem path).mp hget⟩
  · rintro ⟨txIn, hmem, hown⟩
    have hget := (hmap.paths txIn hmem path).mpr hown
    have hentry := JsMap.get?_eq_some_iff.mp hget
    exact ⟨some path, List.mem_map.mpr ⟨_, hentry, rfl⟩, rfl⟩

theorem mem_getStakeCredentialKeyPaths (known : KnownAddresses)
    (hcredentials : ∀ c ∈ body.certificates.getD [], HasStakeCredential c) :
    ∃ check, getStakeCredentialKeyPaths known.addresses body = .ok check ∧
      ∀ path, path ∈ check.derivationPaths ↔
        (∃ withdrawal ∈ body.withdrawals.getD [],
          OwnStakePath known (· = withdrawal.stakeAddress) path) ∨
        ∃ certificate ∈ body.certificates.getD [],
          OwnStakePath known (NeedsStakeKey · certificate) path := by
  obtain ⟨check, hcheck, hpaths⟩ := mem_checkStakeCredentialCertificates known hcredentials
  refine ⟨_, by rw [getStakeCredentialKeyPaths, hcheck]; rfl, fun path => ?_⟩
  rw [mem_uniqWith_id, combineSignatureChecks, List.mem_append, mem_checkWithdrawals, hpaths]

theorem AddressKeyPath.owns {a : GroupedAddress} {keyHash : Hash} (hmem : a ∈ known.addresses)
    (hkey : AddressKeyPath a keyHash path) :
    ∃ key, known.Owns dRepKeyHash key ∧ key.isDRep = false ∧ key.hash = keyHash ∧
      key.path = path := by
  rcases hkey with ⟨hhash, rfl⟩ | ⟨hhash, hpath⟩
  · exact ⟨_, .payment hmem hhash, rfl, rfl, rfl⟩
  · exact ⟨_, .stake hmem hpath, rfl, hhash, rfl⟩

theorem OwnStakePath.owns {property : RewardAccount → Prop} (h : OwnStakePath known property path) :
    ∃ account, property account ∧ known.Owns dRepKeyHash (.stake account path) := by
  obtain ⟨a, hmem, hproperty, hpath⟩ := h
  exact ⟨a.rewardAccount, hproperty, .stake hmem hpath⟩

theorem KnownAddresses.Owns.addressKeyPath (hown : known.Owns dRepKeyHash key)
    (hother : key.isDRep = false) : ∃ a ∈ known.addresses, AddressKeyPath a key.hash key.path := by
  cases hown with
  | payment hmem hhash => exact ⟨_, hmem, Or.inl ⟨hhash, rfl⟩⟩
  | stake hmem hpath => exact ⟨_, hmem, Or.inr ⟨rfl, hpath⟩⟩
  | dRep hhash => cases hother

theorem answered_of_hash {scripts : Option (List Script)}
    (h : ∃ keyHash ∈ demandedHashes body scripts, ∃ a ∈ known.addresses,
      AddressKeyPath a keyHash path) :
    ∃ key, known.Owns dRepKeyHash key ∧ Answered spends body scripts key ∧ key.path = path := by
  obtain ⟨keyHash, hhash, a, hmem, hkey⟩ := h
  obtain ⟨key, hown, hother, rfl, hpath⟩ := hkey.owns hmem
  exact ⟨key, hown, Or.inr ⟨hother, hhash⟩, hpath⟩

theorem ownSignatureKeyPaths_answered (known : KnownAddresses) (dRepKeyHash : Option Hash)
    (scripts : Option (List Script)) (hmap : map.Correct known spends body)
    (hcredentials : ∀ c ∈ body.certificates.getD [], HasStakeCredential c) :
    ∃ paths, ownSignatureKeyPaths body known.addresses map dRepKeyHash scripts = .ok paths ∧
      paths.Nodup ∧ ExactPaths known dRepKeyHash (Answered spends body scripts) paths := by
  obtain ⟨check, hcheck, hstake⟩ := mem_getStakeCredentialKeyPaths known hcredentials
  refine ⟨_, by rw [ownSignatureKeyPaths, hcheck]; rfl, nodup_uniqWith_id, fun path => ?_⟩
  rw [mem_uniqWith_id]
  simp only [List.mem_append, or_assoc]
  rw [mem_paymentKeyPaths hmap, hstake, mem_getDRepCredentialKeyPaths,
    mem_getVotingProcedureKeyPaths]
  constructor
  · rintro (⟨txIn, hmem, hash, hspends, hown⟩ |
      (⟨withdrawal, hmem, hpath⟩ | ⟨certificate, hmem, hpath⟩) |
      ⟨rfl, certificate, hmem, hash, hown, hneeds⟩ | hnamed |
      ⟨voter, hmem, ⟨htype, hown, rfl⟩ | ⟨htype, hpath⟩⟩ | hnamed)
    · cases hown with
      | payment haddress hhash =>
        exact ⟨_, .payment haddress hhash, Or.inl (.input hmem hspends), rfl⟩
    · obtain ⟨account, haccount, hown⟩ := hpath.owns
      exact ⟨_, hown, Or.inl (.withdrawal hmem haccount), rfl⟩
    · obtain ⟨account, hneeds, hown⟩ := hpath.owns
      exact ⟨_, hown, Or.inl (.certificate hmem hneeds), rfl⟩
    · exact ⟨.dRep hash, .dRep hown, Or.inl (.dRepCertificate hmem hneeds), rfl⟩
    · exact answered_of_hash (hashPaths_iff.mp (Or.inl hnamed))
    · exact ⟨.dRep voter.hash, .dRep hown, Or.inl (.dRepVote hmem htype), rfl⟩
    · obtain ⟨account, hhash, hown⟩ := hpath.owns
      exact ⟨_, hown, Or.inl (.poolVote hmem htype hhash), rfl⟩
    · exact answered_of_hash (hashPaths_iff.mp (Or.inr hnamed))
  · rintro ⟨key, hown, hrole | ⟨hother, hhash⟩, rfl⟩
    · cases hrole with
      | input hmem hspends =>
        cases hown with
        | payment haddress hhash =>
          exact Or.inl ⟨_, hmem, _, hspends, .payment haddress hhash⟩
      | withdrawal hmem haccount =>
        cases hown with
        | stake haddress hpath =>
          exact Or.inr (Or.inl (Or.inl ⟨_, hmem, _, haddress, haccount, hpath⟩))
      | certificate hmem hneeds =>
        cases hown with
        | stake haddress hpath =>
          exact Or.inr (Or.inl (Or.inr ⟨_, hmem, _, haddress, hneeds, hpath⟩))
      | dRepCertificate hmem hneeds =>
        cases hown with
        | dRep hown => exact Or.inr (Or.inr (Or.inl ⟨rfl, _, hmem, _, hown, hneeds⟩))
      | dRepVote hmem htype =>
        cases hown with
        | dRep hown =>
          exact Or.inr (Or.inr (Or.inr (Or.inr (Or.inl
            ⟨_, hmem, Or.inl ⟨htype, hown, rfl⟩⟩))))
      | poolVote hmem htype hhash =>
        cases hown with
        | stake haddress hpath =>
          exact Or.inr (Or.inr (Or.inr (Or.inr (Or.inl
            ⟨_, hmem, Or.inr ⟨htype, _, haddress, hhash, hpath⟩⟩))))
    · have hnamed := hashPaths_iff.mpr ⟨_, hhash, hown.addressKeyPath hother⟩
      rcases hnamed with hrequired | hscript
      · exact Or.inr (Or.inr (Or.inr (Or.inl hrequired)))
      · exact Or.inr (Or.inr (Or.inr (Or.inr (Or.inr hscript))))

theorem KnownAddresses.Owns.eq_dRep (hown : known.Owns dRepKeyHash key)
    (hpath : key.path = dRepKeyDerivationPath) :
    ∃ hash, dRepKeyHash = some hash ∧ key = .dRep hash := by
  cases hown with
  | @payment a hash hmem hhash =>
    have hrole : a.type.toRole = .dRep := congrArg AccountKeyDerivationPath.role hpath
    cases htype : a.type <;> simp [htype, AddressType.toRole] at hrole
  | stake hmem hstake =>
    have hrole := known.stakeRole _ hmem _ hstake
    have hdRep := congrArg AccountKeyDerivationPath.role hpath
    rw [WalletKey.path, hrole] at hdRep
    cases hdRep
  | dRep hhash => exact ⟨_, hhash, rfl⟩

/-- The list is exact unless only a hash demands the DRep key. -/
theorem ownSignatureKeyPaths_exact (known : KnownAddresses) (spends : TxIn → Option Hash)
    (body : TxBody) (map : TxInKeyPathMap) (dRepKeyHash : Option Hash)
    (scripts : Option (List Script)) (hmap : map.Correct known spends body)
    (hcredentials : ∀ c ∈ body.certificates.getD [], HasStakeCredential c) :
    ∃ paths, ownSignatureKeyPaths body known.addresses map dRepKeyHash scripts = .ok paths ∧
      paths.Nodup ∧
      (ExactPaths known dRepKeyHash (Demanded spends body scripts) paths ↔
        DRepHashesInRole spends body scripts dRepKeyHash) := by
  obtain ⟨paths, hpaths, hnodup, hanswered⟩ :=
    ownSignatureKeyPaths_answered known dRepKeyHash scripts hmap hcredentials
  refine ⟨paths, hpaths, hnodup, ?_⟩
  constructor
  · intro hexact hash hown hhash
    have hfound := (hexact dRepKeyDerivationPath).mpr
      ⟨.dRep hash, .dRep hown, Or.inr hhash, rfl⟩
    obtain ⟨key, hkey, hanswer, hpath⟩ := (hanswered dRepKeyDerivationPath).mp hfound
    obtain ⟨own, hsame, rfl⟩ := hkey.eq_dRep hpath
    obtain rfl := Option.some.inj (hown.symm.trans hsame)
    rcases hanswer with hrole | ⟨hother, -⟩
    · exact hrole
    · cases hother
  · intro hroles path
    rw [hanswered path]
    apply exists_congr
    intro key
    apply and_congr_right
    intro hkey
    apply and_congr_left
    intro _
    constructor
    · rintro (hrole | ⟨-, hhash⟩)
      · exact Or.inl hrole
      · exact Or.inr hhash
    · rintro (hrole | hhash)
      · exact Or.inl hrole
      · cases hkey with
        | payment haddress hpath => exact Or.inr ⟨rfl, hhash⟩
        | stake haddress hpath => exact Or.inr ⟨rfl, hhash⟩
        | dRep hown => exact Or.inl (hroles _ hown hhash)

def ownDRepKeyHash : Hash := List.replicate 28 3

def ownTxIn : TxIn := ⟨0, List.replicate 32 4, 0⟩

def ownSpends (_ : TxIn) : Option Hash := some (List.replicate 28 1)

def ownTxInKeyPathMap : TxInKeyPathMap := JsMap.empty.set (txInId ownTxIn) (some ⟨.external, 0⟩)

def dRepSignerBody : TxBody where
  inputs := [ownTxIn]
  outputs := []
  fee := 0
  requiredExtraSignatures := some [ownDRepKeyHash]

theorem ownTxInKeyPathMap_correct :
    ownTxInKeyPathMap.Correct oneBaseAddress ownSpends dRepSignerBody where
  paths := by
    intro txIn hmem path
    have htxIn : txIn = ownTxIn := List.mem_singleton.mp hmem
    rw [htxIn, ownTxInKeyPathMap, JsMap.get?_set_self]
    constructor
    · intro hpath
      obtain rfl := Option.some.inj (Option.some.inj hpath)
      have hown : oneBaseAddress.Owns none
          (.payment (List.replicate 28 1) baseAddress.paymentKeyPath) :=
        .payment (List.mem_singleton.mpr rfl) rfl
      exact ⟨_, rfl, hown⟩
    · rintro ⟨hash, -, hown⟩
      cases hown with
      | payment hmem _ =>
        rw [List.mem_singleton.mp hmem]
        rfl
  inputs := by
    intro id hid
    rw [ownTxInKeyPathMap, JsMap.mem_keys_set] at hid
    rcases hid with rfl | hnone
    · exact ⟨ownTxIn, List.mem_singleton.mpr rfl, rfl⟩
    · cases hnone

theorem ownSignatureKeyPaths_exact_sample :
    ∃ paths, ownSignatureKeyPaths dRepSignerBody oneBaseAddress.addresses ownTxInKeyPathMap
        (some ownDRepKeyHash) none = .ok paths ∧
      paths.Nodup ∧
      (ExactPaths oneBaseAddress (some ownDRepKeyHash) (Demanded ownSpends dRepSignerBody none)
          paths ↔
        DRepHashesInRole ownSpends dRepSignerBody none (some ownDRepKeyHash)) :=
  ownSignatureKeyPaths_exact oneBaseAddress ownSpends dRepSignerBody ownTxInKeyPathMap
    (some ownDRepKeyHash) none ownTxInKeyPathMap_correct fun _ hnone => by cases hnone

/-- The DRep key is owned, demanded and left out. -/
theorem not_ownSignatureKeyPaths_exact :
    ownTxInKeyPathMap.Correct oneBaseAddress ownSpends dRepSignerBody ∧
      ∃ paths, ownSignatureKeyPaths dRepSignerBody oneBaseAddress.addresses ownTxInKeyPathMap
          (some ownDRepKeyHash) none = .ok paths ∧
        ¬ ExactPaths oneBaseAddress (some ownDRepKeyHash)
          (Demanded ownSpends dRepSignerBody none) paths := by
  have hpaths : ownSignatureKeyPaths dRepSignerBody oneBaseAddress.addresses ownTxInKeyPathMap
      (some ownDRepKeyHash) none = .ok [⟨.external, 0⟩] := by
    rfl
  refine ⟨ownTxInKeyPathMap_correct, _, hpaths, fun hexact => ?_⟩
  have hmissing := (hexact dRepKeyDerivationPath).mpr
    ⟨.dRep ownDRepKeyHash, .dRep rfl, Or.inr (List.mem_singleton.mpr rfl), rfl⟩
  cases List.mem_singleton.mp hmissing

end CardanoSdk.KeyManagement
