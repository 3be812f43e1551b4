import CardanoSdk.KeyManagement.OwnSignatureKeyPaths

/-!
The keys that a wallet owns and the keys whose signatures a transaction demands.
-/

namespace CardanoSdk.KeyManagement

open Lib TxConstruction
open InputSelection (TxIn)
open Cardano (NativeScript Script)

inductive WalletKey where
  | payment (hash : Hash) (path : AccountKeyDerivationPath)
  | stake (rewardAccount : RewardAccount) (path : AccountKeyDerivationPath)
  | dRep (hash : Hash)

def WalletKey.hash : WalletKey → Hash
  | .payment hash _ => hash
  | .stake rewardAccount _ => rewardAccount.toHash
  | .dRep hash => hash

def WalletKey.path : WalletKey → AccountKeyDerivationPath
  | .payment _ path => path
  | .stake _ path => path
  | .dRep _ => dRepKeyDerivationPath

/-- Base addresses of payment and stake keys of one account, as `deriveAddress`
makes them. -/
structure KnownAddresses where
  addresses : List GroupedAddress
  paymentKeys : ∀ a ∈ addresses, ∃ hash, paymentCredential? a.address = some ⟨.keyHash, hash⟩
  stakeKeys : ∀ a ∈ addresses, a.rewardAccount.paymentCredential.type = .keyHash
  /-- Addresses of one stake key have one path for it. -/
  stakePaths : ∀ a ∈ addresses, ∀ b ∈ addresses,
    a.rewardAccount.toHash = b.rewardAccount.toHash →
      a.stakeKeyDerivationPath = b.stakeKeyDerivationPath
  stakeRole : ∀ a ∈ addresses, ∀ path ∈ a.stakeKeyDerivationPath, path.role = .stake

/-- A stake key is owned where its path is known. -/
inductive KnownAddresses.Owns (known : KnownAddresses) (dRepKeyHash : Option Hash) :
    WalletKey → Prop
  | payment {a : GroupedAddress} {hash : Hash} (hmem : a ∈ known.addresses)
      (hhash : a.paymentHash? = some hash) : Owns known dRepKeyHash (.payment hash a.paymentKeyPath)
  | stake {a : GroupedAddress} {path : AccountKeyDerivationPath} (hmem : a ∈ known.addresses)
      (hpath : a.stakeKeyDerivationPath = some path) :
      Owns known dRepKeyHash (.stake a.rewardAccount path)
  | dRep {hash : Hash} (hhash : dRepKeyHash = some hash) : Owns known dRepKeyHash (.dRep hash)

/-- The certificates that the stake key of the account signs, for its stake
credential, as an owner of a pool or for the pool of its hash. The credential of a
MIR certificate has no checked type. -/
def NeedsStakeKey (account : RewardAccount) : Certificate → Prop
  | .stakeRegistration _ | .genesisKeyDelegation => False
  | .stakeDeregistration stakeCredential
  | .stakeDelegation stakeCredential _
  | .registration stakeCredential _
  | .unregistration stakeCredential _
  | .voteDelegation stakeCredential
  | .stakeVoteDelegation stakeCredential _
  | .stakeRegistrationDelegation stakeCredential _ _
  | .voteRegistrationDelegation stakeCredential _
  | .stakeVoteRegistrationDelegation stakeCredential _ _ =>
    stakeCredential = ⟨.keyHash, account.toHash⟩
  | .poolRegistration poolParameters => account ∈ poolParameters.owners
  | .poolRetirement poolId => poolId = account.toHash
  | .mir .toStakeCreds stakeCredential => stakeCredential.map Credential.hash = some account.toHash
  | .mir .toOtherPot _ => False
  | .authorizeCommitteeHot _ | .resignCommitteeCold _ => False
  | .registerDelegateRepresentative _ _
  | .unregisterDelegateRepresentative _ _
  | .updateDelegateRepresentative _ => False

def NeedsDRepKey (hash : Hash) : Certificate → Prop
  | .registerDelegateRepresentative dRepCredential _
  | .unregisterDelegateRepresentative dRepCredential _
  | .updateDelegateRepresentative dRepCredential => dRepCredential = ⟨.keyHash, hash⟩
  | _ => False

mutual

/-- The hashes in the signature clauses and key guards of a script. -/
def signatureClauses : NativeScript → List Hash
  | .requireSignature keyHash => [keyHash.1]
  | .requireAllOf scripts => signatureClausesOfAll scripts
  | .requireAnyOf scripts => signatureClausesOfAll scripts
  | .requireNOf _ scripts => signatureClausesOfAll scripts
  | .requireTimeAfter _ => []
  | .requireTimeBefore _ => []
  | .requireGuard credential => if credential.type = .keyHash then [credential.hash] else []

def signatureClausesOfAll : List NativeScript → List Hash
  | [] => []
  | script :: scripts => signatureClauses script ++ signatureClausesOfAll scripts

end

/-- Keys that a part of the body asks for; `spends` are the hashes of the payment
keys that inputs are locked with. -/
inductive DemandedInRole (spends : TxIn → Option Hash) (body : TxBody) : WalletKey → Prop
  | input {txIn : TxIn} {hash : Hash} {path : AccountKeyDerivationPath}
      (hmem : txIn ∈ body.inputs ++ body.collaterals.getD []) (hspends : spends txIn = some hash) :
      DemandedInRole spends body (.payment hash path)
  | withdrawal {withdrawal : Withdrawal} {account : RewardAccount}
      {path : AccountKeyDerivationPath} (hmem : withdrawal ∈ body.withdrawals.getD [])
      (haccount : account = withdrawal.stakeAddress) :
      DemandedInRole spends body (.stake account path)
  | certificate {certificate : Certificate} {account : RewardAccount}
      {path : AccountKeyDerivationPath} (hmem : certificate ∈ body.certificates.getD [])
      (hneeds : NeedsStakeKey account certificate) :
      DemandedInRole spends body (.stake account path)
  | dRepCertificate {certificate : Certificate} {hash : Hash}
      (hmem : certificate ∈ body.certificates.getD []) (hneeds : NeedsDRepKey hash certificate) :
      DemandedInRole spends body (.dRep hash)
  | dRepVote {voter : Voter} (hmem : voter ∈ body.votingProcedures.getD [])
      (htype : voter.typename = .dRepKeyHash) : DemandedInRole spends body (.dRep voter.hash)
  | poolVote {voter : Voter} {account : RewardAccount} {path : AccountKeyDerivationPath}
      (hmem : voter ∈ body.votingProcedures.getD []) (htype : voter.typename = .stakePoolKeyHash)
      (hhash : voter.hash = account.toHash) : DemandedInRole spends body (.stake account path)

def scriptKeyHashes : Script → List Hash
  | .native script => signatureClauses script
  | .plutus _ => []

def demandedHashes (body : TxBody) (scripts : Option (List Script)) : List Hash :=
  body.requiredExtraSignatures.getD [] ++ (scripts.getD []).flatMap scriptKeyHashes

def Demanded (spends : TxIn → Option Hash) (body : TxBody) (scripts : Option (List Script))
    (key : WalletKey) : Prop :=
  DemandedInRole spends body key ∨ key.hash ∈ demandedHashes body scripts

/-- The map has the path of the own key that locks each input and collateral. -/
structure TxInKeyPathMap.Correct (map : TxInKeyPathMap) (known : KnownAddresses)
    (spends : TxIn → Option Hash) (body : TxBody) : Prop where
  paths : ∀ txIn ∈ body.inputs ++ body.collaterals.getD [], ∀ path,
    map.get? (txInId txIn) = some (some path) ↔
      ∃ hash, spends txIn = some hash ∧ known.Owns none (.payment hash path)
  inputs : ∀ id ∈ map.keys, ∃ txIn ∈ body.inputs ++ body.collaterals.getD [], txInId txIn = id

/-- The paths are those of the owned keys that are demanded. -/
def ExactPaths (known : KnownAddresses) (dRepKeyHash : Option Hash)
    (demanded : WalletKey → Prop) (paths : List AccountKeyDerivationPath) : Prop :=
  ∀ path, path ∈ paths ↔ ∃ key, known.Owns dRepKeyHash key ∧ demanded key ∧ key.path = path

def baseAddress : GroupedAddress where
  type := .external
  index := 0
  address :=
    { type := .basePaymentKeyStakeKey
      networkId := some 1
      paymentPart := some ⟨.keyHash, List.replicate 28 1⟩
      delegationPart := some ⟨.keyHash, List.replicate 28 2⟩ }
  rewardAccount := ⟨1, ⟨.keyHash, List.replicate 28 2⟩⟩
  stakeKeyDerivationPath := some ⟨.stake, 0⟩

def oneBaseAddress : KnownAddresses where
  addresses := [baseAddress]
  paymentKeys := by
    intro a ha
    rw [List.mem_singleton.mp ha]
    exact ⟨_, rfl⟩
  stakeKeys := by
    intro a ha
    rw [List.mem_singleton.mp ha]
    rfl
  stakePaths := by
    intro a ha b hb _
    rw [List.mem_singleton.mp ha, List.mem_singleton.mp hb]
  stakeRole := by
    intro a ha path hpath
    rw [List.mem_singleton.mp ha] at hpath
    obtain rfl := Option.some.inj hpath
    rfl

end CardanoSdk.KeyManagement
