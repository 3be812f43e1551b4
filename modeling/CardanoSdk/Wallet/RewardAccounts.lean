import CardanoSdk.Lib.Histories
import CardanoSdk.TxConstruction.Certificates

/-!
`nextDeposit` of `wallet/src/services/DelegationTracker/RewardAccounts.ts`. Of a
transaction the certificates are all that is read.
-/

namespace CardanoSdk.Wallet.DelegationTracker

open Lib TxConstruction

structure TxInFlight where
  certificates : Option (List Certificate) := none

/-- The body of the inner loop: what it returns at this certificate. -/
def certificateDeposit (stakeCredentialHash : Hash) (depositAmount : ℤ) : Certificate → Option ℤ
  | .stakeDeregistration stakeCredential =>
    if stakeCredential.hash = stakeCredentialHash then some 0 else none
  | .stakeRegistration stakeCredential =>
    if stakeCredential.hash = stakeCredentialHash then some depositAmount else none
  | .stakeRegistrationDelegation stakeCredential _ _ =>
    if stakeCredential.hash = stakeCredentialHash then some depositAmount else none
  | .stakeVoteRegistrationDelegation stakeCredential _ _ =>
    if stakeCredential.hash = stakeCredentialHash then some depositAmount else none
  | _ => none

def nextDeposit (rewardAccount : RewardAccount) (txsInFlight : List TxInFlight)
    (depositAmount : ℤ) : Option ℤ :=
  lastMatch (fun tx => lastMatch (certificateDeposit rewardAccount.toHash depositAmount)
    (tx.certificates.getD [])) txsInFlight

inductive CredentialChange where
  | registers
  | deregisters
  deriving DecidableEq

def CredentialChange.deposit (depositAmount : ℤ) : CredentialChange → ℤ
  | registers => depositAmount
  | deregisters => 0

/-- The certificates of all eras that register or deregister, with the credential. -/
def stakeKeyChange : Certificate → Option (Credential × CredentialChange)
  | .stakeRegistration stakeCredential => some (stakeCredential, .registers)
  | .registration stakeCredential _ => some (stakeCredential, .registers)
  | .stakeRegistrationDelegation stakeCredential _ _ => some (stakeCredential, .registers)
  | .voteRegistrationDelegation stakeCredential _ => some (stakeCredential, .registers)
  | .stakeVoteRegistrationDelegation stakeCredential _ _ => some (stakeCredential, .registers)
  | .stakeDeregistration stakeCredential => some (stakeCredential, .deregisters)
  | .unregistration stakeCredential _ => some (stakeCredential, .deregisters)
  | _ => none

def changeOf (rewardAccount : RewardAccount) (certificate : Certificate) : Option CredentialChange :=
  ((stakeKeyChange certificate).filter fun change =>
    change.1 = rewardAccount.paymentCredential).map Prod.snd

def pendingCertificates (txsInFlight : List TxInFlight) : List Certificate :=
  txsInFlight.flatMap fun tx => tx.certificates.getD []

/-- The deposit is the one that the last certificate about the account leaves. -/
structure FollowsLast (rewardAccount : RewardAccount) (txsInFlight : List TxInFlight)
    (depositAmount : ℤ) (deposit : Option ℤ) : Prop where
  null : deposit = none ↔
    ∀ certificate ∈ pendingCertificates txsInFlight, changeOf rewardAccount certificate = none
  last : ∀ before certificate after change,
    pendingCertificates txsInFlight = before ++ certificate :: after →
    changeOf rewardAccount certificate = some change →
    (∀ later ∈ after, changeOf rewardAccount later = none) →
    deposit = some (change.deposit depositAmount)

section Follows

variable {rewardAccount : RewardAccount} {txsInFlight : List TxInFlight} {depositAmount : ℤ}

theorem followsLast_iff {deposit : Option ℤ} :
    FollowsLast rewardAccount txsInFlight depositAmount deposit ↔
      deposit = (lastMatch (changeOf rewardAccount) (pendingCertificates txsInFlight)).map
        (CredentialChange.deposit depositAmount) := by
  constructor
  · rintro ⟨hnull, hlast⟩
    cases hmatch : lastMatch (changeOf rewardAccount) (pendingCertificates txsInFlight) with
    | none => exact hnull.mpr (lastMatch_eq_none_iff.mp hmatch)
    | some change =>
      obtain ⟨before, certificate, after, hsplit, hchange, hnone⟩ := lastMatch_eq_some_iff.mp hmatch
      exact hlast before certificate after change hsplit hchange hnone
  · rintro rfl
    refine ⟨?_, fun before certificate after change hsplit hchange hnone => ?_⟩
    · rw [Option.map_eq_none_iff, lastMatch_eq_none_iff]
    · rw [lastMatch_eq_some_iff.mpr ⟨before, certificate, after, hsplit, hchange, hnone⟩]
      rfl

end Follows

/-- The types that `nextDeposit` knows. -/
def isRecognised : Certificate → Bool
  | .stakeRegistration _ => true
  | .stakeRegistrationDelegation _ _ _ => true
  | .stakeVoteRegistrationDelegation _ _ _ => true
  | .stakeDeregistration _ => true
  | _ => false

/-- A known certificate about a credential with the hash of the account's. -/
def recognisedChange (rewardAccount : RewardAccount) (certificate : Certificate) :
    Option CredentialChange :=
  if isRecognised certificate then
    ((stakeKeyChange certificate).filter fun change =>
      change.1.hash = rewardAccount.toHash).map Prod.snd
  else none

theorem certificateDeposit_eq (rewardAccount : RewardAccount) (depositAmount : ℤ)
    (certificate : Certificate) :
    certificateDeposit rewardAccount.toHash depositAmount certificate =
      (recognisedChange rewardAccount certificate).map (CredentialChange.deposit depositAmount) := by
  have hknown (stakeCredential : Credential) (change : CredentialChange) :
      (if stakeCredential.hash = rewardAccount.toHash then some (change.deposit depositAmount)
        else none) =
        (((some (stakeCredential, change)).filter fun change =>
          change.1.hash = rewardAccount.toHash).map Prod.snd).map
            (CredentialChange.deposit depositAmount) := by
    rw [Option.filter_some]
    by_cases hhash : stakeCredential.hash = rewardAccount.toHash
    · rw [if_pos hhash, if_pos (decide_eq_true hhash)]
      rfl
    · rw [if_neg hhash, if_neg (by simpa using hhash)]
      rfl
  cases certificate with
  | stakeRegistration stakeCredential => exact hknown stakeCredential .registers
  | stakeDeregistration stakeCredential => exact hknown stakeCredential .deregisters
  | stakeRegistrationDelegation stakeCredential _ _ => exact hknown stakeCredential .registers
  | stakeVoteRegistrationDelegation stakeCredential _ _ => exact hknown stakeCredential .registers
  | _ => rfl

theorem nextDeposit_eq (rewardAccount : RewardAccount) (txsInFlight : List TxInFlight)
    (depositAmount : ℤ) : nextDeposit rewardAccount txsInFlight depositAmount =
      (lastMatch (recognisedChange rewardAccount) (pendingCertificates txsInFlight)).map
        (CredentialChange.deposit depositAmount) := by
  rw [nextDeposit, ← lastMatch_flatMap, ← lastMatch_map]
  exact congrArg (fun f => lastMatch f (pendingCertificates txsInFlight))
    (funext fun certificate => certificateDeposit_eq rewardAccount depositAmount certificate)

theorem map_deposit_eq_iff {depositAmount : ℤ} {change change' : Option CredentialChange} :
    change.map (CredentialChange.deposit depositAmount) =
        change'.map (CredentialChange.deposit depositAmount) ↔
      change = change' ∨ depositAmount = 0 ∧ change.isSome ∧ change'.isSome := by
  cases change with
  | none => cases change' <;> simp
  | some change =>
    cases change' with
    | none => simp
    | some change' =>
      cases change <;> cases change' <;> simp [CredentialChange.deposit, eq_comm]

/-- The deposit follows the last certificate exactly if the last certificate that
is known changes the account as the last one that there is does, or the deposit is
zero and both are there. -/
theorem nextDeposit_followsLast_iff (rewardAccount : RewardAccount) (txsInFlight : List TxInFlight)
    (depositAmount : ℤ) :
    FollowsLast rewardAccount txsInFlight depositAmount
        (nextDeposit rewardAccount txsInFlight depositAmount) ↔
      lastMatch (recognisedChange rewardAccount) (pendingCertificates txsInFlight) =
          lastMatch (changeOf rewardAccount) (pendingCertificates txsInFlight) ∨
        depositAmount = 0 ∧
          (lastMatch (recognisedChange rewardAccount) (pendingCertificates txsInFlight)).isSome ∧
          (lastMatch (changeOf rewardAccount) (pendingCertificates txsInFlight)).isSome := by
  rw [followsLast_iff, nextDeposit_eq, map_deposit_eq_iff]

def keyAccount : RewardAccount := ⟨1, ⟨.keyHash, List.replicate 28 7⟩⟩

/-- A registration of the Conway era is in flight, and no deposit is pending. -/
theorem nextDeposit_misses_registration :
    ¬ FollowsLast keyAccount [⟨some [.registration keyAccount.paymentCredential 2000000]⟩] 2000000
      (nextDeposit keyAccount [⟨some [.registration keyAccount.paymentCredential 2000000]⟩]
        2000000) := by
  rw [followsLast_iff]
  decide

end CardanoSdk.Wallet.DelegationTracker
