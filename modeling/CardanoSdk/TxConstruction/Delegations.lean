import CardanoSdk.TxConstruction.DelegatePortfolio
import Mathlib.Algebra.Order.Field.Rat
import Mathlib.Tactic.Ring

/-!
What certificates do to stake keys, and what a portfolio asks for. A certificate
names the stake key of an account by its hash.
-/

namespace CardanoSdk.TxConstruction

open Lib

structure StakeKeyState where
  registered : Bool
  delegatee : Option PoolId

/-- The hash of the stake key that a certificate of an account is about. -/
def Certificate.stakeKeyHash? : Certificate → Option Hash
  | .stakeRegistration credential | .stakeDeregistration credential
  | .stakeDelegation credential _ | .registration credential _
  | .unregistration credential _ | .voteDelegation credential
  | .stakeVoteDelegation credential _ | .stakeRegistrationDelegation credential _ _
  | .voteRegistrationDelegation credential _
  | .stakeVoteRegistrationDelegation credential _ _ => some credential.hash
  | _ => none

def Certificate.registers : Certificate → Bool
  | .stakeRegistration _ | .registration _ _ | .stakeRegistrationDelegation _ _ _
  | .voteRegistrationDelegation _ _ | .stakeVoteRegistrationDelegation _ _ _ => true
  | _ => false

def Certificate.deregisters : Certificate → Bool
  | .stakeDeregistration _ | .unregistration _ _ => true
  | _ => false

def Certificate.delegatesTo : Certificate → Option PoolId
  | .stakeDelegation _ poolId | .stakeVoteDelegation _ poolId
  | .stakeRegistrationDelegation _ poolId _ | .stakeVoteRegistrationDelegation _ poolId _ =>
    some poolId
  | _ => none

/-- A new registration starts without a delegatee, and a deregistration ends it. -/
def StakeKeyState.apply (state : StakeKeyState) (certificate : Certificate) : StakeKeyState :=
  if certificate.deregisters then { registered := false, delegatee := none }
  else if certificate.registers then { registered := true, delegatee := certificate.delegatesTo }
  else { state with delegatee := certificate.delegatesTo.or state.delegatee }

/-- The account is about to be registered too while its registration is in flight. -/
def RewardAccountWithPoolId.initial (account : RewardAccountWithPoolId) : StakeKeyState where
  registered := account.credentialStatus = .registered ∨ account.credentialStatus = .registering
  delegatee := account.delegatee

def RewardAccountWithPoolId.named (account : RewardAccountWithPoolId) (certificate : Certificate) :
    Bool :=
  certificate.stakeKeyHash? = some account.address.toHash

def RewardAccountWithPoolId.after (account : RewardAccountWithPoolId)
    (certificates : List Certificate) : StakeKeyState :=
  certificates.foldl (fun state certificate =>
    if account.named certificate then state.apply certificate else state) account.initial

/-- The account is registered and delegates to the pool after the certificates. -/
def Delegates (certificates : List Certificate) (poolId : PoolId)
    (account : RewardAccountWithPoolId) : Bool :=
  (account.after certificates).registered ∧ (account.after certificates).delegatee = some poolId

theorem after_eq_filter (account : RewardAccountWithPoolId) (certificates : List Certificate) :
    account.after certificates =
      (certificates.filter account.named).foldl StakeKeyState.apply account.initial := by
  rw [List.foldl_filter]
  rfl

structure ReachesPortfolio (portfolio : List TxBuilderStakePool)
    (accounts : List RewardAccountWithPoolId) (certificates : List Certificate)
    (weights : RewardAccountsAndWeights) : Prop where
  delegated : ∀ pool ∈ portfolio, ∃ account ∈ accounts, Delegates certificates pool.id account
  weighted : ∀ pool ∈ portfolio, (accounts.map fun account =>
    if Delegates certificates pool.id account then (weights.get? account.address).getD 0
    else 0).sum = pool.weight
  noOther : ∀ address ∈ weights.keys, ∃ account ∈ accounts, account.address = address ∧
    ∃ pool ∈ portfolio, Delegates certificates pool.id account
  keptWhileDelegating : ∀ account ∈ accounts, ∀ before certificate rest,
    certificates = before ++ certificate :: rest → account.named certificate →
    certificate.deregisters → ∀ pool ∈ portfolio, ¬Delegates before pool.id account
  registeredOnce : ∀ account ∈ accounts, ∀ before certificate rest,
    certificates = before ++ certificate :: rest → account.named certificate →
    certificate.registers → (account.after before).registered = false
  deregistered : ∀ account ∈ accounts, account.credentialStatus = .registered →
    (∃ pool ∈ portfolio, Delegates certificates pool.id account) ∨
      ∃ certificate ∈ certificates, account.named certificate ∧ certificate.deregisters

variable {blocks : List (RewardAccountWithPoolId × List Certificate)}
  {account : RewardAccountWithPoolId}

theorem filter_blocks (hnodup : (blocks.map fun block => block.1.address.toHash).Nodup)
    (hown : ∀ block ∈ blocks, ∀ certificate ∈ block.2,
      certificate.stakeKeyHash? = some block.1.address.toHash) {own : List Certificate}
    (hmem : (account, own) ∈ blocks) : (blocks.flatMap Prod.snd).filter account.named = own := by
  induction blocks with
  | nil => cases hmem
  | cons block rest ih =>
    rw [List.map_cons, List.nodup_cons] at hnodup
    rw [List.flatMap_cons, List.filter_append]
    have hrest : ∀ block ∈ rest, ∀ certificate ∈ block.2,
        certificate.stakeKeyHash? = some block.1.address.toHash :=
      fun block hblock => hown block (List.mem_cons_of_mem _ hblock)
    rcases List.mem_cons.mp hmem with rfl | hmem
    · have hall : own.filter account.named = own := by
        rw [List.filter_eq_self]
        intro certificate hcertificate
        exact decide_eq_true (hown _ List.mem_cons_self certificate hcertificate)
      have hnone : (rest.flatMap Prod.snd).filter account.named = [] := by
        rw [List.filter_eq_nil_iff]
        intro certificate hcertificate hnamed
        obtain ⟨block, hblock, hcertificate⟩ := List.mem_flatMap.mp hcertificate
        have hhash := hrest block hblock certificate hcertificate
        rw [of_decide_eq_true hnamed, Option.some.injEq] at hhash
        exact hnodup.1 (List.mem_map.mpr ⟨block, hblock, hhash.symm⟩)
      rw [hall, hnone, List.append_nil]
    · have hnone : block.2.filter account.named = [] := by
        rw [List.filter_eq_nil_iff]
        intro certificate hcertificate hnamed
        have hhash := hown block List.mem_cons_self certificate hcertificate
        rw [of_decide_eq_true hnamed, Option.some.injEq] at hhash
        exact hnodup.1 (List.mem_map.mpr ⟨_, hmem, hhash⟩)
      rw [hnone, ih hnodup.2 hrest hmem, List.nil_append]

theorem filter_blocks_nil
    (hown : ∀ block ∈ blocks, ∀ certificate ∈ block.2,
      certificate.stakeKeyHash? = some block.1.address.toHash)
    (hnone : account.address.toHash ∉ blocks.map fun block => block.1.address.toHash) :
    (blocks.flatMap Prod.snd).filter account.named = [] := by
  rw [List.filter_eq_nil_iff]
  intro certificate hcertificate hnamed
  obtain ⟨block, hblock, hcertificate⟩ := List.mem_flatMap.mp hcertificate
  have hhash := hown block hblock certificate hcertificate
  rw [of_decide_eq_true hnamed, Option.some.injEq] at hhash
  exact hnone (List.mem_map.mpr ⟨block, hblock, hhash.symm⟩)

theorem sum_map_ite_const {α : Type*} (l : List α) (p : α → Bool) (weight : ℚ) :
    (l.map fun a => if p a then weight else 0).sum = l.countP p * weight := by
  induction l with
  | nil => simp
  | cons a rest ih =>
    rw [List.map_cons, List.sum_cons, ih, List.countP_cons]
    by_cases hp : p a
    · rw [if_pos hp, if_pos hp]
      push_cast
      ring
    · rw [if_neg hp, if_neg hp]
      simp

end CardanoSdk.TxConstruction
