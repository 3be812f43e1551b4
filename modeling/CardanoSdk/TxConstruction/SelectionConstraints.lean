import CardanoSdk.Lib.Hex
import CardanoSdk.Lib.Ranking
import CardanoSdk.TxConstruction.Certificates

/-!
Redeemer indices, from `selectionConstraints.ts` of the `tx-construction` package. Ids are
their bytes, compared as lower-case texts where the source compares hex texts. Of the
transaction body only the fields read in the model are kept.
-/

namespace CardanoSdk.TxConstruction

open Lib InputSelection

inductive PlutusLanguageVersion where
  | v1 | v2 | v3 | v4
  deriving DecidableEq

inductive VoterType where
  | ccHotKeyHash | ccHotScriptHash | dRepKeyHash | dRepScriptHash | stakePoolKeyHash
  deriving DecidableEq

/-- The type of a voter's credential is fixed by the voter's type. -/
structure Voter where
  typename : VoterType
  hash : Hash
  deriving DecidableEq

def Voter.credential (voter : Voter) : Credential where
  type :=
    match voter.typename with
    | .ccHotKeyHash | .dRepKeyHash | .stakePoolKeyHash => .keyHash
    | .ccHotScriptHash | .dRepScriptHash => .scriptHash
  hash := voter.hash

structure ExUnits where
  memory : ℕ
  steps : ℕ
  deriving DecidableEq

structure Withdrawal where
  stakeAddress : RewardAccount
  quantity : ℤ
  deriving DecidableEq

structure ValidityInterval where
  invalidBefore : Option ℕ := none
  invalidHereafter : Option ℕ := none
  deriving DecidableEq

/-- The voters stand for the entries of `votingProcedures`. -/
structure TxBody where
  inputs : List TxIn
  outputs : List TxOut
  fee : ℤ
  mint : Option TokenMap := none
  withdrawals : Option (List Withdrawal) := none
  votingProcedures : Option (List Voter) := none
  scriptIntegrityHash : Option Hash := none
  certificates : Option (List Certificate) := none
  proposalProcedures : Option (List ProposalProcedure) := none
  referenceInputs : Option (List TxIn) := none
  collaterals : Option (List TxIn) := none
  collateralReturn : Option TxOut := none
  requiredExtraSignatures : Option (List Hash) := none
  auxiliaryDataHash : Option Hash := none
  validityInterval : Option ValidityInterval := none

structure RedeemersByType where
  spend : Option (JsMap String Redeemer) := none
  mint : Option (JsMap PolicyId Redeemer) := none
  withdrawal : Option (JsMap RewardAccount Redeemer) := none
  vote : Option (List (Voter × Redeemer)) := none
  certificate : Option (List Redeemer) := none
  propose : Option (List Redeemer) := none

structure TxEvaluation where
  purpose : RedeemerPurpose
  index : ℕ
  budget : ExUnits
  deriving DecidableEq

/-- What the assignment of indices throws. -/
inductive RedeemerError where
  | spendInputNotFound (key : String)
  | mintPolicyNotPresent (policyId : PolicyId)
  | notAScriptWithdrawal (rewardAccount : RewardAccount)
  | voterNotPresent
  | invalidPolicyId
  deriving DecidableEq

def compareHex (a b : String) : ℤ :=
  if a = b then 0 else if a < b then -1 else 1

/-- How ids compare is a matter of the host's locale. -/
def sortTxIn (localeCompare : String → String → ℤ) (lhs rhs : TxIn) : ℤ :=
  orElse (localeCompare (toHex lhs.txId) (toHex rhs.txId)) ((lhs.index : ℤ) - rhs.index)

def voterGroup (voter : Voter) : ℕ :=
  match voter.typename with
  | .ccHotKeyHash | .ccHotScriptHash => 0
  | .dRepKeyHash | .dRepScriptHash => 1
  | .stakePoolKeyHash => 2

def credentialScriptFirstRank (type : CredentialType) : ℕ :=
  if type = .scriptHash then 0 else 1

def compareVoters (a b : Voter) : ℤ :=
  orElse ((voterGroup a : ℤ) - voterGroup b)
    (orElse
      ((credentialScriptFirstRank a.credential.type : ℤ) -
        credentialScriptFirstRank b.credential.type)
      (compareHex (toHex a.credential.hash) (toHex b.credential.hash)))

def votersEqual (a b : Voter) : Bool :=
  a.typename = b.typename && a.credential.hash = b.credential.hash

/-- `${input.txId}#${input.index}`, the key of an input in `redeemersByType.spend`. -/
def txIdWithIndex (input : TxIn) : String :=
  String.ofList (hexDigits input.txId ++ '#' :: Nat.toDigits 10 input.index)

/-- `AssetId.getPolicyId`, which rejects an id without a whole policy id. -/
def getPolicyId (assetId : AssetId) : Except RedeemerError PolicyId :=
  if 28 ≤ assetId.length then .ok (assetId.take 28) else .error .invalidPolicyId

def reindexed (redeemer : Redeemer) (purpose : RedeemerPurpose) (index : ℕ)
    (executionUnits : ExUnits) : Redeemer where
  purpose := purpose
  index := index
  data := redeemer.data
  memory := executionUnits.memory
  steps := executionUnits.steps

def indexedAt (redeemer : Redeemer) (purpose : RedeemerPurpose) (executionUnits : ExUnits)
    (index : Option ℕ) (error : RedeemerError) : Except RedeemerError Redeemer :=
  match index with
  | some index => .ok (reindexed redeemer purpose index executionUnits)
  | none => .error error

def entriesOf {κ ν : Type} (map : Option (JsMap κ ν)) : List (κ × ν) :=
  (map.map JsMap.entries).getD []

def spendRedeemers (redeemersByType : RedeemersByType) (sortedInputs : List TxIn)
    (executionUnits : ExUnits) : Except RedeemerError (List Redeemer) :=
  (entriesOf redeemersByType.spend).mapM (fun (key, redeemer) =>
    indexedAt redeemer .spend executionUnits
      (sortedInputs.findIdx? (fun input => key = txIdWithIndex input)) (.spendInputNotFound key))

/-- The policies of the minted assets, each once, in the order of their texts. -/
def mintPolicyIds (body : TxBody) : Except RedeemerError (List PolicyId) := do
  let policyIds ← ((entriesOf body.mint).map Prod.fst).mapM getPolicyId
  return sortBy (fun a b => compareHex (toHex a) (toHex b)) (uniq policyIds)

def mintRedeemers (redeemersByType : RedeemersByType) (body : TxBody)
    (executionUnits : ExUnits) : Except RedeemerError (List Redeemer) := do
  let policyIds ← mintPolicyIds body
  (entriesOf redeemersByType.mint).mapM (fun (policyId, redeemer) =>
    indexedAt redeemer .mint executionUnits
      (policyIds.findIdx? (fun candidate => candidate = policyId)) (.mintPolicyNotPresent policyId))

def scriptRewardAccounts (body : TxBody) : List RewardAccount :=
  sortBy (fun a b => compareHex (toHex a.paymentCredential.hash) (toHex b.paymentCredential.hash))
    (((body.withdrawals.getD []).map Withdrawal.stakeAddress).filter
      (fun rewardAccount => rewardAccount.paymentCredential.type = .scriptHash))

def withdrawalRedeemers (redeemersByType : RedeemersByType) (body : TxBody)
    (executionUnits : ExUnits) : Except RedeemerError (List Redeemer) :=
  (entriesOf redeemersByType.withdrawal).mapM (fun (rewardAccount, redeemer) =>
    indexedAt redeemer .withdrawal executionUnits
      ((scriptRewardAccounts body).findIdx? (fun candidate => candidate = rewardAccount))
      (.notAScriptWithdrawal rewardAccount))

def voteRedeemers (redeemersByType : RedeemersByType) (body : TxBody)
    (executionUnits : ExUnits) : Except RedeemerError (List Redeemer) :=
  (redeemersByType.vote.getD []).mapM (fun (voter, redeemer) =>
    indexedAt redeemer .vote executionUnits
      ((sortBy compareVoters (body.votingProcedures.getD [])).findIdx?
        (fun candidate => votersEqual candidate voter)) .voterNotPresent)

def assignCanonicalIndices (redeemersByType : RedeemersByType) (body : TxBody)
    (sortedInputs : List TxIn) (executionUnits : ExUnits) :
    Except RedeemerError (List Redeemer) := do
  let spend ← spendRedeemers redeemersByType sortedInputs executionUnits
  let mint ← mintRedeemers redeemersByType body executionUnits
  let withdrawal ← withdrawalRedeemers redeemersByType body executionUnits
  let vote ← voteRedeemers redeemersByType body executionUnits
  return spend ++ mint ++ withdrawal ++ vote ++
    (redeemersByType.certificate.getD []).map (fun redeemer =>
      reindexed redeemer .certificate redeemer.index executionUnits) ++
    (redeemersByType.propose.getD []).map (fun redeemer =>
      reindexed redeemer .propose redeemer.index executionUnits)

def mergeExecutionUnits (redeemers : List Redeemer) (evaluation : List TxEvaluation) :
    List Redeemer :=
  redeemers.map (fun redeemer =>
    match evaluation.find? (fun txEval =>
      txEval.purpose = redeemer.purpose && txEval.index = redeemer.index) with
    | some evaluated =>
      { redeemer with memory := evaluated.budget.memory, steps := evaluated.budget.steps }
    | none => redeemer)

end CardanoSdk.TxConstruction
