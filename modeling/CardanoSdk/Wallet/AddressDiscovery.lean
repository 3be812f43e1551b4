import CardanoSdk.Cardano.AddressCodec
import CardanoSdk.KeyManagement.OwnSignatureKeyPaths
import CardanoSdk.Lib.GapScan

/-!
`wallet/src/services/AddressDiscovery/HDSequentialDiscovery.ts`: the used addresses of an
account, searched until too many indices in a row are unused.
-/

namespace CardanoSdk.Wallet.AddressDiscovery

open Lib
open TxConstruction (Hash RewardAccount)
open Cardano (AddressProps baseFromCredentials)
open KeyManagement (AddressType KeyRole AccountKeyDerivationPath)
open InputSelection (PaymentAddress)

structure GroupedAddress where
  type : AddressType
  index : ℕ
  networkId : ℕ
  accountIndex : ℕ
  address : PaymentAddress
  rewardAccount : RewardAccount
  stakeKeyDerivationPath : Option AccountKeyDerivationPath := none
  deriving DecidableEq

/-- The keys of an account by their hashes, and the text encoding of its addresses. -/
structure Bip32Account where
  accountIndex : ℕ
  networkId : ℕ
  publicKeyHash : AccountKeyDerivationPath → Hash
  toBech32 : AddressProps → PaymentAddress

def Bip32Account.deriveAddress (account : Bip32Account) (type : AddressType) (index : ℕ)
    (stakeKeyDerivationIndex : ℕ) : GroupedAddress :=
  let stakeKeyDerivationPath : AccountKeyDerivationPath := ⟨.stake, stakeKeyDerivationIndex⟩
  let derivedPublicPaymentKeyHash := account.publicKeyHash ⟨type.toRole, index⟩
  let publicStakeKeyHash := account.publicKeyHash stakeKeyDerivationPath
  { accountIndex := account.accountIndex
    address := account.toBech32 (baseFromCredentials account.networkId
      ⟨.keyHash, derivedPublicPaymentKeyHash⟩ ⟨.keyHash, publicStakeKeyHash⟩)
    networkId := account.networkId
    rewardAccount := ⟨account.networkId, ⟨.keyHash, publicStakeKeyHash⟩⟩
    stakeKeyDerivationPath := some stakeKeyDerivationPath
    index := index
    type := type }

/-- What the chain history provider counts of the transactions of an address. -/
structure TransactionCounts where
  totalResultCount : PaymentAddress → ℕ

def addressHasTx (chainHistoryProvider : TransactionCounts) (address : GroupedAddress) : Bool :=
  chainHistoryProvider.totalResultCount address.address > 0

/-- The loop of `discoverAddresses`; `deriveAt` are the addresses of its callback. -/
def discoverAddresses (chainHistoryProvider : TransactionCounts) (lookAheadCount : ℕ)
    (deriveAt : ℕ → AddressType → GroupedAddress) :
    ℕ → ℕ → ℕ → List GroupedAddress → Option (List GroupedAddress)
  | 0, _, _, _ => none
  | fuel + 1, currentGap, currentIndex, addresses =>
    if currentGap ≤ lookAheadCount then
      let externalAddress := deriveAt currentIndex .external
      let internalAddress := deriveAt currentIndex .internal
      let externalHasTx := addressHasTx chainHistoryProvider externalAddress
      let internalHasTx := addressHasTx chainHistoryProvider internalAddress
      let addresses := if externalHasTx then addresses ++ [externalAddress] else addresses
      let addresses := if internalHasTx then addresses ++ [internalAddress] else addresses
      let currentGap := if externalHasTx || internalHasTx then 0 else currentGap + 1
      discoverAddresses chainHistoryProvider lookAheadCount deriveAt fuel currentGap
        (currentIndex + 1) addresses
    else some addresses

def stakeKeyIndexLookahead : ℕ := 5

def stakeKeyIndex (address : GroupedAddress) : ℕ :=
  (address.stakeKeyDerivationPath.map AccountKeyDerivationPath.index).getD 0

def compareIndices (a b : GroupedAddress) : ℤ :=
  orElse ((a.index : ℤ) - b.index) ((stakeKeyIndex a : ℤ) - stakeKeyIndex b)

/-- `HDSequentialDiscovery.discover`; the loops have the same fuel. -/
def discover (chainHistoryProvider : TransactionCounts) (lookAheadCount : ℕ)
    (manager : Bip32Account) (fuel : ℕ) : Option (List GroupedAddress) := do
  let firstInternalAddress := manager.deriveAddress .internal 0 0
  let firstAddresses := [manager.deriveAddress .external 0 0] ++
    if addressHasTx chainHistoryProvider firstInternalAddress then [firstInternalAddress] else []
  let stakeKeyAddresses ← discoverAddresses chainHistoryProvider stakeKeyIndexLookahead
    (fun currentIndex type => manager.deriveAddress type 0 (currentIndex + 1)) fuel 0 0 []
  let paymentKeyAddresses ← discoverAddresses chainHistoryProvider lookAheadCount
    (fun currentIndex type => manager.deriveAddress type (currentIndex + 1) 0) fuel 0 0 []
  let addresses := uniqWith (sameKey GroupedAddress.address)
    (firstAddresses ++ stakeKeyAddresses ++ paymentKeyAddresses)
  some (sortBy compareIndices addresses)

section Search

variable {provider : TransactionCounts} {manager : Bip32Account}

def usedAt (provider : TransactionCounts) (deriveAt : ℕ → AddressType → GroupedAddress)
    (index : ℕ) : List GroupedAddress :=
  [deriveAt index .external, deriveAt index .internal].filter (addressHasTx provider)

theorem discoverAddresses_eq (lookAheadCount : ℕ) (deriveAt : ℕ → AddressType → GroupedAddress)
    (fuel gap index : ℕ) (addresses : List GroupedAddress) :
    discoverAddresses provider lookAheadCount deriveAt fuel gap index addresses =
      gapScan (usedAt provider deriveAt) lookAheadCount fuel gap index addresses := by
  induction fuel generalizing gap index addresses with
  | zero => rfl
  | succ fuel ih =>
    rw [discoverAddresses, gapScan]
    refine if_congr Iff.rfl ?_ rfl
    dsimp only
    rw [ih]
    cases hexternal : addressHasTx provider (deriveAt index .external) <;>
      cases hinternal : addressHasTx provider (deriveAt index .internal) <;>
      simp [usedAt, hexternal, hinternal]

def Used (provider : TransactionCounts) (manager : Bip32Account) (type : AddressType)
    (index stakeIndex : ℕ) : Prop :=
  addressHasTx provider (manager.deriveAddress type index stakeIndex) = true

/-- More than `lookAheadCount` indices in a row, from 1 on and before `index`, are unused. -/
def UnusedRun (used : ℕ → AddressType → Prop) (lookAheadCount index : ℕ) : Prop :=
  ∃ start length, lookAheadCount < length ∧ 1 ≤ start ∧ start + length ≤ index ∧
    ∀ k, start ≤ k → k < start + length → ∀ type, ¬ used k type

theorem mem_usedAt {deriveAt : ℕ → AddressType → GroupedAddress} {index : ℕ}
    {address : GroupedAddress} : address ∈ usedAt provider deriveAt index ↔
      ∃ type, address = deriveAt index type ∧ addressHasTx provider address = true := by
  rw [usedAt, List.mem_filter, List.mem_pair]
  constructor
  · rintro ⟨rfl | rfl, hused⟩
    · exact ⟨.external, rfl, hused⟩
    · exact ⟨.internal, rfl, hused⟩
  · rintro ⟨type, rfl, hused⟩
    cases type with
    | external => exact ⟨Or.inl rfl, hused⟩
    | internal => exact ⟨Or.inr rfl, hused⟩

/-- A search that leaves out index 0 finds what no long run of unused indices hides. -/
theorem exists_discoverAddresses (lookAheadCount : ℕ) {derive : ℕ → AddressType → GroupedAddress}
    {bound : ℕ} (hbound : ∀ index, bound ≤ index → ∀ type,
      addressHasTx provider (derive index type) ≠ true) :
    ∃ stop addresses, (∀ fuel, stop < fuel →
        discoverAddresses provider lookAheadCount (fun index type => derive (index + 1) type)
          fuel 0 0 [] = some addresses) ∧
      ∀ address, address ∈ addresses ↔ ∃ index type, 1 ≤ index ∧ address = derive index type ∧
        addressHasTx provider address = true ∧
        ¬ UnusedRun (fun k type => addressHasTx provider (derive k type) = true)
          lookAheadCount index := by
  have hnone (index : ℕ) : usedAt provider (fun index type => derive (index + 1) type) index = [] ↔
      ∀ type, ¬ addressHasTx provider (derive (index + 1) type) = true := by
    rw [List.eq_nil_iff_forall_not_mem]
    simp only [mem_usedAt, not_exists, not_and]
    exact ⟨fun h type => h _ type rfl, fun h _ type heq => heq ▸ h type⟩
  obtain ⟨stop, hscan, hstop⟩ := @exists_gapScan GroupedAddress
    (usedAt provider fun index type => derive (index + 1) type) lookAheadCount bound
    fun index hindex => (hnone index).mpr (hbound (index + 1) (by omega))
  have hrun (index : ℕ) : LongGap (usedAt provider fun index type => derive (index + 1) type)
      lookAheadCount index ↔
        UnusedRun (fun k type => addressHasTx provider (derive k type) = true) lookAheadCount
          (index + 1) := by
    constructor
    · rintro ⟨start, length, hlong, hend, hgap⟩
      refine ⟨start + 1, length, hlong, by omega, by omega, fun k hfrom hto => ?_⟩
      obtain ⟨k, rfl⟩ := Nat.exists_eq_add_of_le' (show 1 ≤ k by omega)
      exact (hnone k).mp (hgap k (by omega) (by omega))
    · rintro ⟨start, length, hlong, hstart, hend, hgap⟩
      refine ⟨start - 1, length, hlong, by omega, fun k hfrom hto => (hnone k).mpr ?_⟩
      exact hgap (k + 1) (by omega) (by omega)
  refine ⟨stop, (List.range stop).flatMap
    (usedAt provider fun index type => derive (index + 1) type), fun fuel hfuel => ?_,
    fun address => ?_⟩
  · rw [discoverAddresses_eq, hscan fuel hfuel]
  · simp only [List.mem_flatMap, List.mem_range, mem_usedAt, hstop, hrun]
    constructor
    · rintro ⟨index, hvisited, type, heq, hused⟩
      exact ⟨index + 1, type, by omega, heq, hused, hvisited⟩
    · rintro ⟨index, type, hindex, heq, hused, hvisited⟩
      obtain ⟨index, rfl⟩ := Nat.exists_eq_add_of_le' hindex
      exact ⟨index, hvisited, type, heq, hused⟩

inductive Discovered (provider : TransactionCounts) (lookAheadCount : ℕ)
    (manager : Bip32Account) : GroupedAddress → Prop
  | first : Discovered provider lookAheadCount manager (manager.deriveAddress .external 0 0)
  | firstInternal (hused : Used provider manager .internal 0 0) :
      Discovered provider lookAheadCount manager (manager.deriveAddress .internal 0 0)
  | payment {type : AddressType} {index : ℕ} (hindex : 1 ≤ index)
      (hused : Used provider manager type index 0)
      (hrun : ¬ UnusedRun (fun k type => Used provider manager type k 0) lookAheadCount index) :
      Discovered provider lookAheadCount manager (manager.deriveAddress type index 0)
  | stake {type : AddressType} {index : ℕ} (hindex : 1 ≤ index)
      (hused : Used provider manager type 0 index)
      (hrun : ¬ UnusedRun (fun k type => Used provider manager type 0 k) 5 index) :
      Discovered provider lookAheadCount manager (manager.deriveAddress type 0 index)

def Bip32Account.InjectiveAddresses (manager : Bip32Account) : Prop :=
  ∀ type index stakeIndex type' index' stakeIndex',
    (manager.deriveAddress type index stakeIndex).address =
        (manager.deriveAddress type' index' stakeIndex').address →
      type = type' ∧ index = index' ∧ stakeIndex = stakeIndex'

/-- All that should be found, once each and in the order of the indices. -/
structure DiscoversExactly (provider : TransactionCounts) (lookAheadCount : ℕ)
    (manager : Bip32Account) (addresses : List GroupedAddress) : Prop where
  nodup : (addresses.map GroupedAddress.address).Nodup
  sorted : addresses.Pairwise fun a b =>
    a.index < b.index ∨ a.index = b.index ∧ stakeKeyIndex a ≤ stakeKeyIndex b
  found : ∀ address, address ∈ addresses ↔ Discovered provider lookAheadCount manager address

theorem follows_compareIndices :
    Follows compareIndices fun address => toLex (address.index, stakeKeyIndex address) :=
  (follows_sub GroupedAddress.index).orElse (follows_sub stakeKeyIndex)

theorem exists_unused_from {used : AddressType × ℕ × ℕ → Prop} (hfinite : {path | used path}.Finite)
    (indexOf : AddressType × ℕ × ℕ → ℕ) :
    ∃ bound, ∀ path, bound ≤ indexOf path → ¬ used path := by
  obtain ⟨bound, hbound⟩ := (hfinite.image indexOf).bddAbove
  refine ⟨bound + 1, fun path hindex hused => ?_⟩
  have hle := hbound (Set.mem_image_of_mem indexOf hused)
  omega

/-- Discovery comes to an end and finds exactly the used addresses that are not
behind too long a run of unused indices. -/
theorem discover_exact (provider : TransactionCounts) (lookAheadCount : ℕ)
    (manager : Bip32Account) (hinjective : manager.InjectiveAddresses)
    (hfinite : {path : AddressType × ℕ × ℕ |
      Used provider manager path.1 path.2.1 path.2.2}.Finite) :
    ∃ addresses, (∃ enough, ∀ fuel, enough ≤ fuel →
        discover provider lookAheadCount manager fuel = some addresses) ∧
      DiscoversExactly provider lookAheadCount manager addresses := by
  obtain ⟨paymentBound, hpaymentBound⟩ := exists_unused_from hfinite fun path => path.2.1
  obtain ⟨stakeBound, hstakeBound⟩ := exists_unused_from hfinite fun path => path.2.2
  obtain ⟨paymentStop, paymentKeyAddresses, hpayment, hpaymentMem⟩ :=
    @exists_discoverAddresses provider lookAheadCount
      (fun index type => manager.deriveAddress type index 0) paymentBound
      fun index hindex type => hpaymentBound (type, index, 0) hindex
  obtain ⟨stakeStop, stakeKeyAddresses, hstake, hstakeMem⟩ :=
    @exists_discoverAddresses provider stakeKeyIndexLookahead
      (fun index type => manager.deriveAddress type 0 index) stakeBound
      fun index hindex type => hstakeBound (type, 0, index) hindex
  let firstAddresses := [manager.deriveAddress .external 0 0] ++
    if addressHasTx provider (manager.deriveAddress .internal 0 0) then
      [manager.deriveAddress .internal 0 0] else []
  have hfirstMem (address : GroupedAddress) : address ∈ firstAddresses ↔
      address = manager.deriveAddress .external 0 0 ∨
        address = manager.deriveAddress .internal 0 0 ∧ Used provider manager .internal 0 0 := by
    rw [List.mem_append, List.mem_singleton, List.mem_ite_nil_right, List.mem_singleton,
      and_comm (a := _ = true)]
    exact Iff.rfl
  let all := firstAddresses ++ stakeKeyAddresses ++ paymentKeyAddresses
  have hderived : ∀ address ∈ all, ∃ type index stakeIndex,
      address = manager.deriveAddress type index stakeIndex := by
    intro address hmem
    rcases List.mem_append.mp hmem with hmem | hmem
    · rcases List.mem_append.mp hmem with hmem | hmem
      · rcases (hfirstMem address).mp hmem with rfl | ⟨rfl, -⟩
        · exact ⟨_, _, _, rfl⟩
        · exact ⟨_, _, _, rfl⟩
      · obtain ⟨index, type, -, heq, -⟩ := (hstakeMem address).mp hmem
        exact ⟨_, _, _, heq⟩
    · obtain ⟨index, type, -, heq, -⟩ := (hpaymentMem address).mp hmem
      exact ⟨_, _, _, heq⟩
  have hfunctional : ∀ a ∈ all, ∀ b ∈ all, a.address = b.address → a = b := by
    intro a ha b hb hsame
    obtain ⟨type, index, stakeIndex, rfl⟩ := hderived a ha
    obtain ⟨type', index', stakeIndex', rfl⟩ := hderived b hb
    obtain ⟨rfl, rfl, rfl⟩ := hinjective _ _ _ _ _ _ hsame
    rfl
  have hperm := perm_sortBy compareIndices (uniqWith (sameKey GroupedAddress.address) all)
  refine ⟨sortBy compareIndices (uniqWith (sameKey GroupedAddress.address) all),
    ⟨max paymentStop stakeStop + 1, fun fuel hfuel => ?_⟩, ?_, ?_, fun address => ?_⟩
  · rw [discover, hstake fuel (by omega), hpayment fuel (by omega)]
    rfl
  · exact (hperm.map GroupedAddress.address).nodup_iff.mpr nodup_uniqWith
  · refine (pairwise_sortBy follows_compareIndices _).imp fun hle => ?_
    exact Prod.Lex.toLex_le_toLex.mp hle
  · rw [hperm.mem_iff, mem_uniqWith_iff hfunctional, List.mem_append, List.mem_append, hfirstMem,
      hstakeMem, hpaymentMem]
    constructor
    · rintro (((rfl | ⟨rfl, hused⟩) | ⟨index, type, hindex, rfl, hused, hrun⟩) |
        ⟨index, type, hindex, rfl, hused, hrun⟩)
      · exact .first
      · exact .firstInternal hused
      · exact .stake hindex hused hrun
      · exact .payment hindex hused hrun
    · intro hdiscovered
      cases hdiscovered with
      | first => exact Or.inl (Or.inl (Or.inl rfl))
      | firstInternal hused => exact Or.inl (Or.inl (Or.inr ⟨rfl, hused⟩))
      | @payment type index hindex hused hrun =>
        exact Or.inr ⟨index, type, hindex, rfl, hused, hrun⟩
      | @stake type index hindex hused hrun =>
        exact Or.inl (Or.inr ⟨index, type, hindex, rfl, hused, hrun⟩)

def sampleChars (hash : Option TxConstruction.Credential) : List Char :=
  ((hash.map TxConstruction.Credential.hash).getD []).map fun byte => Char.ofNat byte.toNat

/-- Its texts spell out the hashes, and a hash has as many bytes as its index. -/
def sampleAccount : Bip32Account where
  accountIndex := 0
  networkId := 0
  publicKeyHash path :=
    (if path.role = .internal then 1 else 0) :: List.replicate path.index 2
  toBech32 props :=
    String.ofList (sampleChars props.paymentPart ++ '|' :: sampleChars props.delegationPart)

theorem sampleAccount_injective : sampleAccount.InjectiveAddresses := by
  intro type index stakeIndex type' index' stakeIndex' hsame
  have hbar (length : ℕ) : '|' ∉ List.replicate length (Char.ofNat (UInt8.toNat 2)) :=
    fun hmem => absurd (List.eq_of_mem_replicate hmem) (by decide)
  have hstakeBar : '|' ≠ Char.ofNat
      (if KeyRole.stake = KeyRole.internal then (1 : UInt8) else 0).toNat := by decide
  have hchars := congrArg String.toList hsame
  simp only [Bip32Account.deriveAddress, sampleAccount, baseFromCredentials, sampleChars,
    String.toList_ofList, Option.map_some, Option.getD_some, List.map_cons, List.map_replicate,
    List.cons_append, List.cons.injEq] at hchars
  obtain ⟨htype, hchars⟩ := hchars
  obtain ⟨hindex, -, hstake⟩ := (List.append_cons_inj_of_notMem (hbar index)
    (List.not_mem_cons_of_ne_of_not_mem hstakeBar (hbar stakeIndex))).mp hchars
  refine ⟨?_, by simpa using congrArg List.length hindex, by simpa using congrArg List.length hstake⟩
  have hrole (type : AddressType) : (Char.ofNat (if type.toRole = KeyRole.internal then (1 : UInt8)
      else 0).toNat = Char.ofNat 1) ↔ type = .internal := by cases type <;> decide
  have hsameRole : type = .internal ↔ type' = .internal := by rw [← hrole, ← hrole, htype]
  cases type <;> cases type' <;> simp_all

def sampleProvider : TransactionCounts where
  totalResultCount address :=
    if address = (sampleAccount.deriveAddress .external 1 0).address then 1 else 0

theorem discover_exact_sample : ∃ addresses, (∃ enough, ∀ fuel, enough ≤ fuel →
      discover sampleProvider 20 sampleAccount fuel = some addresses) ∧
    DiscoversExactly sampleProvider 20 sampleAccount addresses := by
  refine discover_exact sampleProvider 20 sampleAccount sampleAccount_injective ?_
  refine (Set.finite_singleton (AddressType.external, 1, 0)).subset ?_
  rintro ⟨type, index, stakeIndex⟩ hused
  by_cases hsame : (sampleAccount.deriveAddress type index stakeIndex).address =
      (sampleAccount.deriveAddress .external 1 0).address
  · obtain ⟨rfl, rfl, rfl⟩ := sampleAccount_injective _ _ _ _ _ _ hsame
    rfl
  · simp [Used, addressHasTx, sampleProvider, hsame] at hused

end Search

end CardanoSdk.Wallet.AddressDiscovery
