import CardanoSdk.Lib.Packing
import CardanoSdk.Wallet.AddressDiscovery

/-!
`wallet/src/services/ChangeAddress/DynamicChangeAddressResolver.ts`: change outputs go one
after another to the bucket with the largest gap. Percentages are exact, and the division
of `BigNumber`, which rounds, is a parameter.
-/

namespace CardanoSdk.Wallet

open Lib
open TxConstruction (Hash RewardAccount PoolId)
open Cardano (AddressProps)
open InputSelection (PaymentAddress TxOut Utxo SelectionSkeleton)
open AddressDiscovery (GroupedAddress)

/-- Of a pool its id, which is also its `hexId`. -/
structure DelegatedStake where
  poolId : PoolId
  rewardAccounts : List RewardAccount
  stake : ℤ

structure Cip17Pool where
  id : PoolId
  weight : ℚ

structure Bucket where
  address : PaymentAddress
  change : List TxOut
  capacity : ℤ
  filledAmount : ℤ
  deriving DecidableEq

inductive ChangeAddressError where
  /-- The wallet has no known addresses. -/
  | noKnownAddresses
  /-- No reward accounts delegating to the pool. -/
  | noRewardAccounts (poolId : PoolId)
  /-- Reward account unknown. -/
  | unknownRewardAccount (account : RewardAccount)
  /-- Pool not found in the portfolio. -/
  | poolNotInPortfolio (poolId : PoolId)
  /-- What `BigInt` throws for a number that is not an integer. -/
  | notAnInteger
  deriving DecidableEq

/-- What other packages compute: the parsed text of an address, and a quotient. -/
structure ResolverPrimitives where
  addressFromString : PaymentAddress → Option AddressProps
  dividedBy : ℤ → ℤ → ℚ

/-- The comparator of `sortAddresses`. -/
def compareAddresses (a b : GroupedAddress) : ℤ :=
  if a.index ≠ b.index then (a.index : ℤ) - b.index
  else match a.stakeKeyDerivationPath, b.stakeKeyDerivationPath with
    | some path, some path' => (path.index : ℤ) - path'.index
    | some _, none => -1
    | none, some _ => 1
    | none, none => 0

def sortAddresses (addresses : List GroupedAddress) : List GroupedAddress :=
  sortBy compareAddresses addresses

def getBalanceInTxOuts (txOuts : List TxOut) : ℤ :=
  (txOuts.map fun txOut => txOut.value.coins).sum

def isKnown (knownAddresses : List GroupedAddress) (address : PaymentAddress) : Bool :=
  knownAddresses.any fun groupedAddress => groupedAddress.address = address

def getSpentInInputs (knownAddresses : List GroupedAddress) (inputs : List Utxo) : ℤ :=
  getBalanceInTxOuts ((inputs.map Utxo.txOut).filter fun out => isKnown knownAddresses out.address)

def getBalanceFromOutputs (knownAddresses : List GroupedAddress) (outputs : List TxOut) : ℤ :=
  getBalanceInTxOuts (outputs.filter fun out => isKnown knownAddresses out.address)

/-- `asBase()?.getStakeCredential().hash` -/
def baseStakeHash? (address : AddressProps) : Option Hash :=
  match address.type with
  | .basePaymentKeyStakeKey | .basePaymentScriptStakeKey
  | .basePaymentKeyStakeScript | .basePaymentScriptStakeScript =>
    address.delegationPart.map TxConstruction.Credential.hash
  | _ => none

section Resolver

variable (primitives : ResolverPrimitives)

def belongsToRewardAccount (rewardAccount : RewardAccount) (txOut : TxOut) : Bool :=
  ((primitives.addressFromString txOut.address).bind baseStakeHash?) = some rewardAccount.toHash

def getSpentFromRewardAccount (rewardAccount : RewardAccount) (inputs : List Utxo) : ℤ :=
  getBalanceInTxOuts ((inputs.map Utxo.txOut).filter (belongsToRewardAccount primitives rewardAccount))

def getDepositToRewardAccount (rewardAccount : RewardAccount) (outputs : List TxOut) : ℤ :=
  getBalanceInTxOuts (outputs.filter (belongsToRewardAccount primitives rewardAccount))

def getAddressForRewardAccount (knownAddresses : List GroupedAddress) (account : RewardAccount) :
    Option GroupedAddress :=
  knownAddresses.find? fun groupedAddress => groupedAddress.rewardAccount = account

/-- `BigInt(amount.toFixed(0, 0))`, which rounds away from zero. -/
def toInteger (amount : ℚ) : ℤ := if 0 ≤ amount then ⌈amount⌉ else ⌊amount⌋

/-- The quotients of the weights; those of a total of zero are not finite. -/
def weightsAsPercent (pools : List Cip17Pool) : JsMap PoolId (Option ℚ) :=
  let totalWeight := (pools.map Cip17Pool.weight).sum
  JsMap.ofList (pools.map fun pool =>
    (pool.id, if totalWeight = 0 then none else some (pool.weight / totalWeight)))

def getTotalStake (selection : SelectionSkeleton) (delegateAmounts : List DelegatedStake)
    (knownAddresses : List GroupedAddress) : ℤ :=
  let totalStakeDelegatedBeforeTx := (delegateAmounts.map DelegatedStake.stake).sum
  let balanceInChange := getBalanceInTxOuts selection.change
  let negativeBalance := getSpentInInputs knownAddresses selection.inputs.toList + selection.fee
  let positiveBalance := getBalanceFromOutputs knownAddresses selection.outputs + balanceInChange
  totalStakeDelegatedBeforeTx + positiveBalance - negativeBalance

/-- The loop of `createBuckets` for one delegation. -/
def createBucket (selection : SelectionSkeleton) (totalStake : ℤ)
    (percentages : JsMap PoolId (Option ℚ)) (knownAddresses : List GroupedAddress)
    (delegated : DelegatedStake) : Except ChangeAddressError Bucket :=
  match delegated.rewardAccounts with
  | [] => .error (.noRewardAccounts delegated.poolId)
  | account :: _ =>
    match getAddressForRewardAccount knownAddresses account with
    | none => .error (.unknownRewardAccount account)
    | some groupedAddress =>
      let adjustedStake := delegated.stake -
        getSpentFromRewardAccount primitives account selection.inputs.toList +
        getDepositToRewardAccount primitives account selection.outputs
      match percentages.get? delegated.poolId with
      | none => .error (.poolNotInPortfolio delegated.poolId)
      | some none => .error .notAnInteger
      | some (some percentageForPool) => .ok
          { address := groupedAddress.address
            capacity := toInteger (totalStake * percentageForPool)
            change := []
            filledAmount := adjustedStake }

def createBuckets (selection : SelectionSkeleton) (delegateAmounts : List DelegatedStake)
    (portfolio : List Cip17Pool) (knownAddresses : List GroupedAddress) :
    Except ChangeAddressError (List Bucket) :=
  delegateAmounts.mapM (createBucket primitives selection
    (getTotalStake selection delegateAmounts knownAddresses) (weightsAsPercent portfolio)
    knownAddresses)

def getBucketGap (bucket : Bucket) : ℚ :=
  if bucket.capacity = 0 then 0
  else primitives.dividedBy (bucket.capacity - bucket.filledAmount) bucket.capacity

/-- The change outputs in the order in which they are taken: `sort` of the source. -/
def sortedOutputs (changeOutputs : List TxOut) : List TxOut :=
  changeOutputs.insertionSort fun a b => a.value.coins ≤ b.value.coins

def addToBucket (selected : TxOut) (bucket : Bucket) : Bucket :=
  { bucket with
    change := bucket.change ++ [selected]
    filledAmount := bucket.filledAmount + selected.value.coins }

/-- The last loop of `distributeChange`. -/
def writeAddress (bucket : Bucket) : Bucket :=
  { bucket with change := bucket.change.map fun txOut => { txOut with address := bucket.address } }

/-- `pickBucket` sorts the buckets by their gaps and takes the first. -/
def distributeChange (changeOutputs : List TxOut) (prefilledBuckets : List Bucket) : List Bucket :=
  ((sortedOutputs changeOutputs).foldl (assign (getBucketGap primitives) addToBucket)
    prefilledBuckets).map writeAddress

def delegationMatchesPortfolio (portfolio : List Cip17Pool) (distribution : List DelegatedStake) :
    Bool :=
  let portfolioPools := (uniq (portfolio.map Cip17Pool.id)).insertionSort (· ≤ ·)
  let delegationPools := (uniq (distribution.map DelegatedStake.poolId)).insertionSort (· ≤ ·)
  portfolioPools = delegationPools

/-- The portfolio, or one of equal weights if it does not match the delegations. -/
def portfolioToUse (portfolio : Option (List Cip17Pool)) (distribution : List DelegatedStake) :
    List Cip17Pool :=
  let default := distribution.map fun stake => ⟨stake.poolId, 1 / distribution.length⟩
  match portfolio with
  | none => default
  | some pools => if delegationMatchesPortfolio pools distribution then pools else default

def writeAddresses (change : List TxOut) (address : PaymentAddress) : List TxOut :=
  change.map fun txOut => { txOut with address := address }

def resolveChange (delegationDistribution : List DelegatedStake)
    (delegationPortfolio : Option (List Cip17Pool)) (knownAddresses : List GroupedAddress)
    (selection : SelectionSkeleton) : Except ChangeAddressError (List TxOut) :=
  let addresses := sortAddresses knownAddresses
  match addresses with
  | [] => .error .noKnownAddresses
  | first :: _ =>
    match delegationDistribution with
    | [] => .ok (writeAddresses selection.change first.address)
    | [delegated] =>
      match delegated.rewardAccounts with
      | [] => .error (.noRewardAccounts delegated.poolId)
      | account :: _ =>
        match getAddressForRewardAccount addresses account with
        | none => .error (.unknownRewardAccount account)
        | some groupedAddress =>
          .ok (writeAddresses selection.change groupedAddress.address)
    | _ => do
        let portfolio := portfolioToUse delegationPortfolio delegationDistribution
        let buckets ← createBuckets primitives selection delegationDistribution portfolio addresses
        return (distributeChange primitives selection.change buckets).flatMap Bucket.change

def unaddressed (txOut : TxOut) : TxOut := { txOut with address := "" }

/-- The change with other addresses and in another order. Each address is known, and
of a delegated reward account where there are several delegations. -/
structure ConservesChange (distribution : List DelegatedStake) (knownAddresses : List GroupedAddress)
    (change result : List TxOut) : Prop where
  outputs : (result.map unaddressed).Perm (change.map unaddressed)
  addresses : ∀ out ∈ result, ∃ groupedAddress ∈ knownAddresses,
    out.address = groupedAddress.address ∧ (2 ≤ distribution.length →
      ∃ delegated ∈ distribution, groupedAddress.rewardAccount ∈ delegated.rewardAccounts)

/-- The description of `distributeChange`: the largest outputs come first, each goes to
a bucket with the largest gap at that moment, and the result is what the buckets hold
in the end. -/
structure FollowsGreedy (buckets : List Bucket) (change result : List TxOut) : Prop where
  largestFirst : (sortedOutputs change).Pairwise fun a b => b.value.coins ≤ a.value.coins
  largestGap : ∃ final,
    GreedyRun (getBucketGap primitives) addToBucket buckets (sortedOutputs change) final ∧
      result = final.flatMap fun bucket => writeAddresses bucket.change bucket.address

structure DocumentedResolution (distribution : List DelegatedStake)
    (portfolio : Option (List Cip17Pool)) (knownAddresses : List GroupedAddress)
    (selection : SelectionSkeleton) (result : List TxOut) : Prop where
  conserves : ConservesChange distribution knownAddresses selection.change result
  greedy : 2 ≤ distribution.length → ∃ buckets,
    createBuckets primitives selection distribution (portfolioToUse portfolio distribution)
        (sortAddresses knownAddresses) = .ok buckets ∧
      FollowsGreedy primitives buckets selection.change result

section Proofs

variable {primitives} {distribution : List DelegatedStake} {portfolio : Option (List Cip17Pool)}
  {knownAddresses : List GroupedAddress} {selection : SelectionSkeleton} {result : List TxOut}

theorem mem_sortAddresses {address : GroupedAddress} :
    address ∈ sortAddresses knownAddresses ↔ address ∈ knownAddresses :=
  (perm_sortBy compareAddresses knownAddresses).mem_iff

theorem perm_sortedOutputs (change : List TxOut) : (sortedOutputs change).Perm change :=
  List.perm_insertionSort _ _

theorem pairwise_sortedOutputs (change : List TxOut) :
    (sortedOutputs change).Pairwise fun a b => a.value.coins ≤ b.value.coins := by
  have htrans : IsTrans TxOut (fun a b => a.value.coins ≤ b.value.coins) :=
    ⟨fun _ _ _ hab hbc => hab.trans hbc⟩
  have htotal : Std.Total (fun a b : TxOut => a.value.coins ≤ b.value.coins) :=
    ⟨fun _ _ => le_total _ _⟩
  exact List.pairwise_insertionSort _ _

/-- The sort puts the smallest outputs first, so the largest come first only if all
are the same. -/
theorem largestFirst_iff {change : List TxOut} :
    ((sortedOutputs change).Pairwise fun a b => b.value.coins ≤ a.value.coins) ↔
      ∀ a ∈ change, ∀ b ∈ change, a.value.coins = b.value.coins := by
  constructor
  · intro hfirst a ha b hb
    have hsame : (sortedOutputs change).Pairwise fun a b => a.value.coins = b.value.coins :=
      (pairwise_sortedOutputs change).imp₂ (fun _ _ hle hge => le_antisymm hle hge) hfirst
    have hsymm : Std.Symm (fun a b : TxOut => a.value.coins = b.value.coins) :=
      ⟨fun _ _ heq => heq.symm⟩
    refine List.Pairwise.forall_of_forall (R := fun a b : TxOut => a.value.coins = b.value.coins)
      (fun _ _ => rfl) hsame ?_ ?_
    · exact (perm_sortedOutputs change).mem_iff.mpr ha
    · exact (perm_sortedOutputs change).mem_iff.mpr hb
  · intro hsame
    refine List.pairwise_of_forall_mem_list fun a ha b hb => le_of_eq (hsame b ?_ a ?_)
    · exact (perm_sortedOutputs change).mem_iff.mp hb
    · exact (perm_sortedOutputs change).mem_iff.mp ha

theorem map_unaddressed_writeAddresses (change : List TxOut) (address : PaymentAddress) :
    (writeAddresses change address).map unaddressed = change.map unaddressed := by
  rw [writeAddresses, List.map_map]
  rfl

theorem conservesChange_writeAddresses {groupedAddress : GroupedAddress}
    (hknown : groupedAddress ∈ knownAddresses) (hfew : distribution.length < 2)
    (change : List TxOut) :
    ConservesChange distribution knownAddresses change
      (writeAddresses change groupedAddress.address) := by
  refine ⟨?_, fun out hmem => ?_⟩
  · rw [map_unaddressed_writeAddresses]
  · obtain ⟨txOut, -, rfl⟩ := List.mem_map.mp hmem
    exact ⟨groupedAddress, hknown, rfl, fun hseveral => by omega⟩

def OfDelegation (distribution : List DelegatedStake) (knownAddresses : List GroupedAddress)
    (address : PaymentAddress) : Prop :=
  ∃ groupedAddress ∈ knownAddresses, address = groupedAddress.address ∧
    ∃ delegated ∈ distribution, groupedAddress.rewardAccount ∈ delegated.rewardAccounts

theorem createBucket_ok {totalStake : ℤ} {percentages : JsMap PoolId (Option ℚ)}
    {delegated : DelegatedStake} {bucket : Bucket}
    (h : createBucket primitives selection totalStake percentages knownAddresses delegated =
      .ok bucket) :
    bucket.change = [] ∧ ∃ groupedAddress ∈ knownAddresses,
      bucket.address = groupedAddress.address ∧
        groupedAddress.rewardAccount ∈ delegated.rewardAccounts := by
  unfold createBucket at h
  split at h
  · cases h
  · rename_i account rest haccounts
    split at h
    · cases h
    · rename_i groupedAddress hfind
      dsimp only at h
      split at h
      · cases h
      · cases h
      · cases h
        have howner := List.find?_some hfind
        refine ⟨rfl, groupedAddress, List.mem_of_find?_eq_some hfind, rfl, ?_⟩
        rw [of_decide_eq_true howner, haccounts]
        exact List.mem_cons_self

variable {buckets : List Bucket}

theorem createBuckets_ok {pools : List Cip17Pool}
    (h : createBuckets primitives selection distribution pools knownAddresses = .ok buckets) :
    buckets.length = distribution.length ∧ ∀ bucket ∈ buckets,
      bucket.change = [] ∧ OfDelegation distribution knownAddresses bucket.address := by
  have hall := forall₂_of_mapM_ok h
  refine ⟨hall.length_eq.symm, fun bucket hmem => ?_⟩
  obtain ⟨index, hindex, rfl⟩ := List.getElem_of_mem hmem
  have hdelegated := hall.length_eq ▸ hindex
  obtain ⟨hchange, groupedAddress, hknown, haddress, haccount⟩ :=
    createBucket_ok (hall.get hdelegated hindex)
  exact ⟨hchange, groupedAddress, hknown, haddress, _, List.getElem_mem hdelegated, haccount⟩

theorem conservesChange_distributeChange (hbuckets : buckets ≠ [])
    (hempty : ∀ bucket ∈ buckets, bucket.change = [])
    (hdelegated : ∀ bucket ∈ buckets, OfDelegation distribution knownAddresses bucket.address)
    (change : List TxOut) :
    ConservesChange distribution knownAddresses change
      ((distributeChange primitives change buckets).flatMap Bucket.change) := by
  have hassigned := @forall_mem_foldl_assign _ _ _ _ (getBucketGap primitives) addToBucket
    (fun bucket => OfDelegation distribution knownAddresses bucket.address)
    (fun _ _ hbucket => hbucket) buckets hdelegated (sortedOutputs change)
  have hcontents := @perm_foldl_assign _ _ _ _ (getBucketGap primitives) addToBucket Bucket.change
    (fun _ _ => rfl) buckets hbuckets (sortedOutputs change)
  rw [List.flatMap_eq_nil_iff.mpr hempty, List.nil_append] at hcontents
  refine ⟨?_, fun out hmem => ?_⟩
  · have hwritten (bucket : Bucket) :
        (writeAddress bucket).change.map unaddressed = bucket.change.map unaddressed :=
      map_unaddressed_writeAddresses bucket.change bucket.address
    have hflat : ((distributeChange primitives change buckets).flatMap Bucket.change).map
        unaddressed = (((sortedOutputs change).foldl (assign (getBucketGap primitives) addToBucket)
          buckets).flatMap Bucket.change).map unaddressed := by
      rw [distributeChange, List.map_flatMap, List.map_flatMap, List.flatMap_map]
      simp only [hwritten]
    rw [hflat]
    exact (hcontents.trans (perm_sortedOutputs change)).map unaddressed
  · obtain ⟨written, hwritten, hout⟩ := List.mem_flatMap.mp hmem
    obtain ⟨bucket, hbucket, rfl⟩ := List.mem_map.mp hwritten
    obtain ⟨txOut, -, rfl⟩ := List.mem_map.mp hout
    obtain ⟨groupedAddress, hknown, haddress, haccount⟩ := hassigned bucket hbucket
    exact ⟨groupedAddress, hknown, haddress, fun _ => haccount⟩

theorem followsGreedy_iff {buckets : List Bucket} (hbuckets : buckets ≠ []) (change : List TxOut) :
    FollowsGreedy primitives buckets change
        ((distributeChange primitives change buckets).flatMap Bucket.change) ↔
      ∀ a ∈ change, ∀ b ∈ change, a.value.coins = b.value.coins := by
  rw [← largestFirst_iff]
  refine ⟨fun hgreedy => hgreedy.largestFirst, fun hfirst => ⟨hfirst, _,
    greedyRun_foldl_assign hbuckets (sortedOutputs change), ?_⟩⟩
  rw [distributeChange, List.flatMap_map]
  rfl

theorem resolveChange_ok
    (h : resolveChange primitives distribution portfolio knownAddresses selection = .ok result) :
    ConservesChange distribution knownAddresses selection.change result ∧
      (2 ≤ distribution.length → ∃ buckets,
        createBuckets primitives selection distribution (portfolioToUse portfolio distribution)
          (sortAddresses knownAddresses) = .ok buckets ∧ buckets ≠ [] ∧
        result = (distributeChange primitives selection.change buckets).flatMap Bucket.change) := by
  have hsorted (groupedAddress : GroupedAddress)
      (hmem : groupedAddress ∈ sortAddresses knownAddresses) : groupedAddress ∈ knownAddresses :=
    mem_sortAddresses.mp hmem
  unfold resolveChange at h
  dsimp only at h
  split at h
  · cases h
  · rename_i first rest haddresses
    split at h
    · cases h
      have hknown := hsorted first (haddresses ▸ List.mem_cons_self)
      have hfew : ([] : List DelegatedStake).length < 2 := Nat.zero_lt_two
      exact ⟨conservesChange_writeAddresses hknown hfew _, fun hseveral => absurd hfew hseveral.not_gt⟩
    · rename_i delegated
      split at h
      · cases h
      · split at h
        · cases h
        · rename_i groupedAddress hfind
          cases h
          have hknown := hsorted groupedAddress (List.mem_of_find?_eq_some hfind)
          have hfew : [delegated].length < 2 := Nat.one_lt_two
          exact ⟨conservesChange_writeAddresses hknown hfew _,
            fun hseveral => absurd hfew hseveral.not_gt⟩
    · rename_i hnil hone
      obtain ⟨buckets, hbuckets, h⟩ := bind_ok h
      cases h
      obtain ⟨hlength, hall⟩ := createBuckets_ok hbuckets
      have hne : buckets ≠ [] := by
        rintro rfl
        exact hnil (List.length_eq_zero_iff.mp hlength.symm)
      have hdelegated (bucket : Bucket) (hmem : bucket ∈ buckets) :
          OfDelegation distribution knownAddresses bucket.address := by
        obtain ⟨-, groupedAddress, hknown, hdelegation⟩ := hall bucket hmem
        exact ⟨groupedAddress, hsorted groupedAddress hknown, hdelegation⟩
      exact ⟨conservesChange_distributeChange hne (fun bucket hmem => (hall bucket hmem).1)
        hdelegated _, fun _ => ⟨buckets, hbuckets, hne, rfl⟩⟩

/-- A resolution is as documented exactly if there are no two delegations to choose
from, or no two outputs that differ in their coins. -/
theorem resolveChange_documented_iff
    (h : resolveChange primitives distribution portfolio knownAddresses selection = .ok result) :
    DocumentedResolution primitives distribution portfolio knownAddresses selection result ↔
      distribution.length < 2 ∨
        ∀ a ∈ selection.change, ∀ b ∈ selection.change, a.value.coins = b.value.coins := by
  obtain ⟨hconserves, hbuckets⟩ := resolveChange_ok h
  by_cases hfew : distribution.length < 2
  · exact iff_of_true ⟨hconserves, fun hseveral => absurd hfew hseveral.not_gt⟩ (Or.inl hfew)
  · obtain ⟨buckets, hcreate, hne, hresult⟩ := hbuckets (not_lt.mp hfew)
    rw [or_iff_right hfew, ← @followsGreedy_iff primitives buckets hne, ← hresult]
    constructor
    · intro hdocumented
      obtain ⟨buckets', hcreate', hgreedy⟩ := hdocumented.greedy (not_lt.mp hfew)
      rw [hcreate] at hcreate'
      cases hcreate'
      exact hgreedy
    · exact fun hgreedy => ⟨hconserves, fun _ => ⟨buckets, hcreate, hgreedy⟩⟩

end Proofs

end Resolver

/-- The quotient with 20 decimal places, and addresses that are named after their accounts. -/
def samplePrimitives : ResolverPrimitives where
  addressFromString address :=
    if address = "first" then
      some (Cardano.baseFromCredentials 0 ⟨.keyHash, [1]⟩ ⟨.keyHash, [1]⟩)
    else if address = "second" then
      some (Cardano.baseFromCredentials 0 ⟨.keyHash, [1]⟩ ⟨.keyHash, [2]⟩)
    else none
  dividedBy lhs rhs :=
    let scaled : ℚ := (lhs : ℚ) * 10 ^ 20 / rhs
    (if 0 ≤ scaled then ⌊scaled + 1 / 2⌋ else ⌈scaled - 1 / 2⌉) / 10 ^ 20

def sampleKnownAddress (address : PaymentAddress) (stakeIndex : ℕ) (hash : Hash) :
    GroupedAddress where
  type := .external
  index := 0
  networkId := 0
  accountIndex := 0
  address := address
  rewardAccount := ⟨0, ⟨.keyHash, hash⟩⟩
  stakeKeyDerivationPath := some ⟨.stake, stakeIndex⟩

def sampleKnownAddresses : List GroupedAddress :=
  [sampleKnownAddress "first" 0 [1], sampleKnownAddress "second" 1 [2]]

/-- All stake is with the first of two pools of equal weights. -/
def sampleDistribution : List DelegatedStake :=
  [⟨[10], [⟨0, ⟨.keyHash, [1]⟩⟩], 7⟩, ⟨[20], [⟨0, ⟨.keyHash, [2]⟩⟩], 0⟩]

def samplePortfolio : List Cip17Pool := [⟨[10], 1⟩, ⟨[20], 1⟩]

/-- The one output of the wallet is spent, and but for the fee it all is change. -/
def sampleSelection (change : List ℤ) : SelectionSkeleton where
  inputs := JsSet.ofList
    [{ ref := 0, txIn := ⟨1, [1], 0⟩, txOut := { address := "first", value := { coins := 7 } } }]
  outputs := []
  change := change.map fun coins => { address := "first", value := { coins := coins } }
  fee := 1

/-- Two outputs of the same coins go to one bucket each. -/
theorem resolveChange_documented_same : DocumentedResolution samplePrimitives sampleDistribution
    (some samplePortfolio) sampleKnownAddresses (sampleSelection [3, 3])
      [{ address := "second", value := { coins := 3 } },
        { address := "first", value := { coins := 3 } }] :=
  (resolveChange_documented_iff (by decide +kernel)).mpr (Or.inr (by decide))

/-- The smallest output is assigned first: the first bucket gets 4 and the second 2,
where the largest first would fill each with 3. -/
theorem resolveChange_smallest_first :
    resolveChange samplePrimitives sampleDistribution (some samplePortfolio) sampleKnownAddresses
        (sampleSelection [1, 2, 3]) =
      .ok [{ address := "first", value := { coins := 1 } },
        { address := "first", value := { coins := 3 } },
        { address := "second", value := { coins := 2 } }] ∧
    ¬ DocumentedResolution samplePrimitives sampleDistribution (some samplePortfolio)
      sampleKnownAddresses (sampleSelection [1, 2, 3])
      [{ address := "first", value := { coins := 1 } },
        { address := "first", value := { coins := 3 } },
        { address := "second", value := { coins := 2 } }] := by
  refine ⟨by decide +kernel, fun hdocumented => ?_⟩
  obtain ⟨buckets, -, hgreedy⟩ := hdocumented.greedy (by decide)
  exact absurd hgreedy.largestFirst (by decide)

end CardanoSdk.Wallet
