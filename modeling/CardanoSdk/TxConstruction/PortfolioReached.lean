import CardanoSdk.TxConstruction.Delegations

/-!
When the certificates and weights of `#delegatePortfolio` reach the portfolio. A requested
pool that some account delegates to already is left to the accounts that are registered.
-/

namespace CardanoSdk.TxConstruction

open Lib

def deRegistrationOf (inConwayEra : Bool) (account : RewardAccountWithPoolId) : List Certificate :=
  if account.credentialStatus = .registered then
    [createStakeDeregistrationCert account.address (if inConwayEra then account.deposit else none)]
  else []

theorem deRegistrationCertificates_eq (inConwayEra : Bool) (accounts : List RewardAccountWithPoolId) :
    deRegistrationCertificates inConwayEra accounts =
      accounts.flatMap (deRegistrationOf inConwayEra) := by
  induction accounts with
  | nil => rfl
  | cons account rest ih =>
    unfold deRegistrationCertificates at ih
    rw [deRegistrationCertificates, List.flatMap_cons, deRegistrationOf]
    by_cases hregistered : account.credentialStatus = .registered
    · rw [List.filter_cons, if_pos (decide_eq_true hregistered), if_pos hregistered,
        List.map_cons, ih]
      rfl
    · rw [List.filter_cons, if_neg (by simpa using hregistered), if_neg hregistered, ih]
      rfl

theorem delegateNewPools_eq {pools : List TxBuilderStakePool}
    {accounts : List RewardAccountWithPoolId} (hle : pools.length ≤ accounts.length)
    (certificates : List Certificate) (weights : RewardAccountsAndWeights) :
    delegateNewPools pools accounts certificates weights =
      (certificates ++ (pools.zip accounts).flatMap (fun (pool, account) =>
          delegationCertificates account pool.id),
        ((pools.zip accounts).map fun (pool, account) => (account.address, pool.weight)).foldl
          (fun m e => m.set e.1 e.2) weights,
        accounts.drop pools.length) := by
  induction pools generalizing accounts certificates weights with
  | nil =>
    cases accounts with
    | nil => simp [delegateNewPools]
    | cons account rest => simp [delegateNewPools]
  | cons pool pools ih =>
    cases accounts with
    | nil => cases hle
    | cons account rest =>
      rw [delegateNewPools, ih (Nat.le_of_succ_le_succ hle)]
      simp

section Result

variable (inConwayEra : Bool) (portfolio : List TxBuilderStakePool)
  (accounts : List RewardAccountWithPoolId)

def assignments : List (TxBuilderStakePool × RewardAccountWithPoolId) :=
  (newPools portfolio accounts).zip (availableRewardAccounts portfolio accounts)

def accountsLeft : List RewardAccountWithPoolId :=
  (availableRewardAccounts portfolio accounts).drop (newPools portfolio accounts).length

def certificateBlocks : List (RewardAccountWithPoolId × List Certificate) :=
  (assignments portfolio accounts).map (fun (pool, account) =>
      (account, delegationCertificates account pool.id)) ++
    (accountsLeft portfolio accounts).reverse.map (fun account =>
      (account, deRegistrationOf inConwayEra account))

variable {inConwayEra portfolio accounts}

theorem delegatePortfolio_ok {certificates : List Certificate} {weights : RewardAccountsAndWeights}
    (h : delegatePortfolio inConwayEra portfolio accounts = .ok (certificates, weights)) :
    (newPools portfolio accounts).length ≤ (availableRewardAccounts portfolio accounts).length ∧
      certificates = (certificateBlocks inConwayEra portfolio accounts).flatMap Prod.snd ∧
      weights = ((assignments portfolio accounts).map fun (pool, account) =>
        (account.address, pool.weight)).foldl (fun m e => m.set e.1 e.2)
          (delegatedWeights portfolio accounts) := by
  unfold delegatePortfolio at h
  by_cases hlength : (newPools portfolio accounts).length >
      (availableRewardAccounts portfolio accounts).length
  · rw [if_pos hlength] at h
    cases h
  · rw [if_neg hlength, delegateNewPools_eq (Nat.le_of_not_lt hlength)] at h
    obtain ⟨-, -, h⟩ := bind_ok h
    rw [deRegistrationCertificates_eq] at h
    cases h
    refine ⟨Nat.le_of_not_lt hlength, ?_, rfl⟩
    rw [certificateBlocks, List.flatMap_append, List.flatMap_map, List.flatMap_map]
    rfl

variable {account : RewardAccountWithPoolId}

theorem mem_available :
    account ∈ availableRewardAccounts portfolio accounts ↔ account ∈ accounts ∧
      (account.credentialStatus = .unregistered ∨ account.delegatee = none ∨
        delegatesToRequested portfolio account = false) := by
  rw [availableRewardAccounts, sortRewardAccountsDelegatedFirst, List.mem_mergeSort, List.mem_filter]
  simp [or_assoc]

theorem mem_newPools {pool : TxBuilderStakePool} :
    pool ∈ newPools portfolio accounts ↔
      pool ∈ portfolio ∧ ∀ account ∈ accounts, account.delegatee ≠ some pool.id := by
  rw [newPools, List.mem_filter, List.all_eq_true]
  simp

theorem delegatesToRequested_iff :
    delegatesToRequested portfolio account = true ↔
      ∃ pool ∈ portfolio, account.delegatee = some pool.id := by
  rw [delegatesToRequested, List.any_eq_true]
  simp

theorem own_delegationCertificates (account : RewardAccountWithPoolId) (poolId : PoolId) :
    ∀ certificate ∈ delegationCertificates account poolId,
      certificate.stakeKeyHash? = some account.address.toHash := by
  intro certificate hmem
  rw [delegationCertificates, List.mem_append] at hmem
  rcases hmem with hmem | hmem
  · split at hmem
    · rw [List.mem_singleton.mp hmem]
      rfl
    · cases hmem
  · rw [List.mem_singleton.mp hmem]
    rfl

theorem own_deRegistrationOf (account : RewardAccountWithPoolId) :
    ∀ certificate ∈ deRegistrationOf inConwayEra account,
      certificate.stakeKeyHash? = some account.address.toHash ∧ certificate.deregisters = true := by
  intro certificate hmem
  rw [deRegistrationOf] at hmem
  split at hmem
  · rw [List.mem_singleton.mp hmem]
    unfold createStakeDeregistrationCert
    split
    · exact ⟨rfl, rfl⟩
    · exact ⟨rfl, rfl⟩
  · cases hmem

theorem own_certificateBlocks :
    ∀ block ∈ certificateBlocks inConwayEra portfolio accounts, ∀ certificate ∈ block.2,
      certificate.stakeKeyHash? = some block.1.address.toHash := by
  intro block hblock certificate hcertificate
  rcases List.mem_append.mp hblock with hmem | hmem
  · obtain ⟨⟨pool, account⟩, -, rfl⟩ := List.mem_map.mp hmem
    exact own_delegationCertificates account pool.id certificate hcertificate
  · obtain ⟨account, -, rfl⟩ := List.mem_map.mp hmem
    exact (own_deRegistrationOf account certificate hcertificate).1

theorem foldl_delegationCertificates (account : RewardAccountWithPoolId) (poolId : PoolId) :
    (delegationCertificates account poolId).foldl StakeKeyState.apply account.initial =
      { registered := true, delegatee := some poolId } := by
  unfold delegationCertificates
  by_cases hneeded : account.credentialStatus ≠ .registered ∧ account.credentialStatus ≠ .registering
  · rw [if_pos hneeded]
    rfl
  · rw [if_neg hneeded]
    have hregistered : account.initial.registered = true := by
      apply decide_eq_true
      by_contra hnone
      exact hneeded (not_or.mp hnone)
    exact congrArg (fun registered => StakeKeyState.mk registered (some poolId)) hregistered

theorem foldl_deRegistrationOf (account : RewardAccountWithPoolId) :
    (deRegistrationOf inConwayEra account).foldl StakeKeyState.apply account.initial =
      if account.credentialStatus = .registered then { registered := false, delegatee := none }
      else account.initial := by
  unfold deRegistrationOf
  split
  · cases inConwayEra with
    | false => rfl
    | true =>
      cases account.deposit with
      | none => rfl
      | some deposit => rfl
  · rfl

section Distinct

variable (hle : (newPools portfolio accounts).length ≤
    (availableRewardAccounts portfolio accounts).length)
  (hdistinct : (accounts.map fun account => account.address.toHash).Nodup)

include hdistinct in
theorem available_nodup :
    ((availableRewardAccounts portfolio accounts).map fun account => account.address.toHash).Nodup := by
  have hperm := (List.mergeSort_perm (accounts.filter fun account =>
    account.credentialStatus = .unregistered || account.delegatee.isNone ||
      !delegatesToRequested portfolio account) fun a b =>
        decide (delegatedFirstScore a ≤ delegatedFirstScore b)).map
          fun account => account.address.toHash
  exact hperm.nodup_iff.mpr (hdistinct.sublist (List.filter_sublist.map _))

include hle in
theorem assigned_accounts : (assignments portfolio accounts).map Prod.snd =
    (availableRewardAccounts portfolio accounts).take (newPools portfolio accounts).length := by
  rw [assignments, List.zip_eq_zip_take_min, Nat.min_eq_left hle, List.take_length]
  apply List.map_snd_zip
  rw [List.length_take]
  exact Nat.min_le_left _ _

include hle in
theorem certificateBlocks_accounts :
    ((certificateBlocks inConwayEra portfolio accounts).map Prod.fst).Perm
      (availableRewardAccounts portfolio accounts) := by
  have haccounts : (certificateBlocks inConwayEra portfolio accounts).map Prod.fst =
      (assignments portfolio accounts).map Prod.snd ++ (accountsLeft portfolio accounts).reverse := by
    rw [certificateBlocks, List.map_append, List.map_map, List.map_map]
    exact congrArg _ (List.map_id _)
  rw [haccounts, assigned_accounts hle]
  apply ((List.reverse_perm _).append_left _).trans
  rw [accountsLeft, List.take_append_drop]

include hdistinct in
theorem available_nodup' : (availableRewardAccounts portfolio accounts).Nodup :=
  (available_nodup hdistinct).of_map _

variable {account : RewardAccountWithPoolId} {pool : TxBuilderStakePool}

include hdistinct in
theorem assignments_functional {pool' : TxBuilderStakePool}
    (hpair : (pool, account) ∈ assignments portfolio accounts)
    (hpair' : (pool', account) ∈ assignments portfolio accounts) : pool = pool' := by
  obtain ⟨i, hi⟩ := List.mem_iff_getElem?.mp hpair
  obtain ⟨j, hj⟩ := List.mem_iff_getElem?.mp hpair'
  rw [assignments, List.getElem?_zip_eq_some] at hi hj
  have hsame := (List.getElem?_inj (List.getElem?_eq_some_iff.mp hi.2).1
    (available_nodup' hdistinct)).mp (hi.2.trans hj.2.symm)
  rw [hsame] at hi
  exact Option.some.inj (hi.1.symm.trans hj.1)

include hdistinct in
theorem assigned_not_left (hpair : (pool, account) ∈ assignments portfolio accounts) :
    account ∉ accountsLeft portfolio accounts := by
  intro hleft
  obtain ⟨i, hi⟩ := List.mem_iff_getElem?.mp hpair
  obtain ⟨j, hj⟩ := List.mem_iff_getElem?.mp hleft
  rw [assignments, List.getElem?_zip_eq_some] at hi
  rw [accountsLeft, List.getElem?_drop] at hj
  have hsame := (List.getElem?_inj (List.getElem?_eq_some_iff.mp hi.2).1
    (available_nodup' hdistinct)).mp (hi.2.trans hj.symm)
  have hlt := (List.getElem?_eq_some_iff.mp hi.1).1
  omega

include hle hdistinct in
theorem certificates_of_account (inConwayEra : Bool) (hmem : account ∈ accounts) :
    let own := ((certificateBlocks inConwayEra portfolio accounts).flatMap Prod.snd).filter
      account.named
    (∃ pool, (pool, account) ∈ assignments portfolio accounts ∧
        own = delegationCertificates account pool.id) ∨
      (account ∈ accountsLeft portfolio accounts ∧ own = deRegistrationOf inConwayEra account) ∨
      account ∉ availableRewardAccounts portfolio accounts ∧ own = [] := by
  have hperm : ((certificateBlocks inConwayEra portfolio accounts).map Prod.fst).Perm
      (availableRewardAccounts portfolio accounts) := certificateBlocks_accounts hle
  have hnodup : ((certificateBlocks inConwayEra portfolio accounts).map fun block =>
      block.1.address.toHash).Nodup := by
    have hhashes := hperm.map fun account => account.address.toHash
    rw [List.map_map] at hhashes
    exact hhashes.nodup_iff.mpr (available_nodup hdistinct)
  by_cases havailable : account ∈ availableRewardAccounts portfolio accounts
  · obtain ⟨⟨listed, own⟩, hblock, rfl⟩ := List.mem_map.mp (hperm.mem_iff.mpr havailable)
    have hfilter := filter_blocks hnodup own_certificateBlocks hblock
    rcases List.mem_append.mp hblock with hassigned | hleft
    · obtain ⟨⟨pool, assigned⟩, hpair, heq⟩ := List.mem_map.mp hassigned
      cases heq
      exact Or.inl ⟨pool, hpair, hfilter⟩
    · obtain ⟨left, hreverse, heq⟩ := List.mem_map.mp hleft
      cases heq
      exact Or.inr (Or.inl ⟨List.mem_reverse.mp hreverse, hfilter⟩)
  · refine Or.inr (Or.inr ⟨havailable, filter_blocks_nil own_certificateBlocks ?_⟩)
    intro hnamed
    obtain ⟨block, hblock, hhash⟩ := List.mem_map.mp hnamed
    have hlisted := hperm.mem_iff.mp (List.mem_map_of_mem (f := Prod.fst) hblock)
    have hsame := List.inj_on_of_nodup_map hdistinct (mem_available.mp hlisted).1 hmem hhash
    exact havailable (hsame ▸ hlisted)

include hle hdistinct in
theorem delegates_iff (inConwayEra : Bool) (hmem : account ∈ accounts) (hpool : pool ∈ portfolio) :
    Delegates ((certificateBlocks inConwayEra portfolio accounts).flatMap Prod.snd) pool.id account =
        true ↔
      (∃ assigned, (assigned, account) ∈ assignments portfolio accounts ∧ assigned.id = pool.id) ∨
        account ∉ availableRewardAccounts portfolio accounts ∧
          account.initial.registered = true ∧ account.delegatee = some pool.id := by
  have hassigned : ∀ {assigned}, (assigned, account) ∈ assignments portfolio accounts →
      account ∈ availableRewardAccounts portfolio accounts := fun hpair => (List.of_mem_zip hpair).2
  rw [Delegates, decide_eq_true_eq, after_eq_filter]
  rcases certificates_of_account hle hdistinct inConwayEra hmem with
    ⟨assigned, hpair, hown⟩ | ⟨hleft, hown⟩ | ⟨hnot, hown⟩
  · rw [hown, foldl_delegationCertificates]
    constructor
    · rintro ⟨-, hid⟩
      exact Or.inl ⟨assigned, hpair, Option.some.inj hid⟩
    · rintro (⟨assigned', hpair', hid⟩ | ⟨hnot, -⟩)
      · rw [assignments_functional hdistinct hpair hpair', hid]
        exact ⟨rfl, rfl⟩
      · exact absurd (hassigned hpair) hnot
  · have havailable := List.mem_of_mem_drop hleft
    rw [hown, foldl_deRegistrationOf]
    constructor
    · intro hdelegates
      split at hdelegates
      · cases hdelegates.1
      · rename_i hstatus
        -- an account left over either is unregistered or does not delegate to the pool
        rcases (mem_available.mp havailable).2 with hunregistered | hnone | hother
        · have hregistered := of_decide_eq_true hdelegates.1
          rw [hunregistered] at hregistered
          rcases hregistered with h | h <;> cases h
        · have hsome : account.delegatee = some pool.id := hdelegates.2
          rw [hnone] at hsome
          cases hsome
        · rw [← Bool.not_eq_true, delegatesToRequested_iff] at hother
          exact absurd ⟨pool, hpool, hdelegates.2⟩ hother
    · rintro (⟨assigned, hpair, -⟩ | ⟨hnot, -⟩)
      · exact absurd hleft (assigned_not_left hdistinct hpair)
      · exact absurd havailable hnot
  · rw [hown]
    constructor
    · intro hdelegates
      exact Or.inr ⟨hnot, hdelegates⟩
    · rintro (⟨assigned, hpair, -⟩ | ⟨-, hdelegates⟩)
      · exact absurd (hassigned hpair) hnot
      · exact hdelegates

theorem find?_of_delegatee (hpools : (portfolio.map TxBuilderStakePool.id).Nodup)
    {delegatee : Option PoolId} :
    (portfolio.find? fun pool => some pool.id = delegatee) = some pool ↔
      pool ∈ portfolio ∧ delegatee = some pool.id := by
  constructor
  · intro hfind
    have hid := List.find?_some hfind
    exact ⟨List.mem_of_find?_eq_some hfind, (of_decide_eq_true hid).symm⟩
  · rintro ⟨hmem, rfl⟩
    have hfound : (portfolio.find? fun other => some other.id = some pool.id).isSome := by
      rw [List.find?_isSome]
      exact ⟨pool, hmem, decide_eq_true rfl⟩
    obtain ⟨other, hother⟩ := Option.isSome_iff_exists.mp hfound
    have hid := List.find?_some hother
    rw [hother, List.inj_on_of_nodup_map hpools (List.mem_of_find?_eq_some hother) hmem
      (Option.some.inj (of_decide_eq_true hid))]

def keptEntries (portfolio : List TxBuilderStakePool) (accounts : List RewardAccountWithPoolId) :
    List (RewardAccount × ℚ) :=
  (accounts.filter fun account =>
    account.credentialStatus = .registered && delegatesToRequested portfolio account).filterMap
      fun account => (portfolio.find? fun pool => some pool.id = account.delegatee).map
        fun pool => (account.address, pool.weight)

theorem mem_keptEntries (hpools : (portfolio.map TxBuilderStakePool.id).Nodup)
    {entry : RewardAccount × ℚ} :
    entry ∈ keptEntries portfolio accounts ↔ ∃ account ∈ accounts, ∃ pool ∈ portfolio,
      account.credentialStatus = .registered ∧ account.delegatee = some pool.id ∧
        entry = (account.address, pool.weight) := by
  rw [keptEntries, List.mem_filterMap]
  constructor
  · rintro ⟨account, hmem, hentry⟩
    obtain ⟨hlisted, hkept⟩ := List.mem_filter.mp hmem
    obtain ⟨pool, hfind, rfl⟩ := Option.map_eq_some_iff.mp hentry
    obtain ⟨hpool, hdelegatee⟩ := (find?_of_delegatee hpools).mp hfind
    exact ⟨account, hlisted, pool, hpool, of_decide_eq_true (Bool.and_eq_true_iff.mp hkept).1,
      hdelegatee, rfl⟩
  · rintro ⟨account, hlisted, pool, hpool, hregistered, hdelegatee, rfl⟩
    refine ⟨account, List.mem_filter.mpr ⟨hlisted, ?_⟩, ?_⟩
    · rw [Bool.and_eq_true, delegatesToRequested_iff]
      exact ⟨decide_eq_true hregistered, pool, hpool, hdelegatee⟩
    · rw [(find?_of_delegatee hpools).mpr ⟨hpool, hdelegatee⟩]
      rfl

theorem keptEntries_keys (portfolio : List TxBuilderStakePool)
    (accounts : List RewardAccountWithPoolId) :
    ((keptEntries portfolio accounts).map Prod.fst).Sublist
      ((accounts.filter fun account => account.credentialStatus = .registered &&
        delegatesToRequested portfolio account).map RewardAccountWithPoolId.address) := by
  unfold keptEntries
  generalize accounts.filter _ = kept
  induction kept with
  | nil => exact List.Sublist.refl _
  | cons account rest ih =>
    rw [List.filterMap_cons, List.map_cons]
    split
    · exact ih.cons _
    · rename_i entry hentry
      obtain ⟨pool, -, rfl⟩ := Option.map_eq_some_iff.mp hentry
      rw [List.map_cons]
      exact ih.cons_cons _

include hle hdistinct in
theorem weights_entries :
    (((assignments portfolio accounts).map fun (pool, account) =>
      (account.address, pool.weight)).foldl (fun m e => m.set e.1 e.2)
        (delegatedWeights portfolio accounts)).entries =
      keptEntries portfolio accounts ++ (assignments portfolio accounts).map
        fun (pool, account) => (account.address, pool.weight) := by
  have haddresses : (accounts.map RewardAccountWithPoolId.address).Nodup := by
    apply List.Nodup.of_map RewardAccount.toHash
    rw [List.map_map]
    exact hdistinct
  have hkept : ((keptEntries portfolio accounts).map Prod.fst).Nodup :=
    (haddresses.sublist (List.filter_sublist.map _)).sublist (keptEntries_keys portfolio accounts)
  have hdelegated : (delegatedWeights portfolio accounts).entries = keptEntries portfolio accounts :=
    JsMap.entries_ofList_of_nodup hkept
  have hassigned : ((assignments portfolio accounts).map fun (pool, account) =>
      (account.address, pool.weight)).map Prod.fst =
        ((availableRewardAccounts portfolio accounts).take (newPools portfolio accounts).length).map
          RewardAccountWithPoolId.address := by
    rw [← assigned_accounts hle, List.map_map, List.map_map]
    rfl
  rw [JsMap.entries_setEntries, hdelegated]
  rw [hassigned, JsMap.keys, hdelegated]
  apply hkept.append
  · have havailable : ((availableRewardAccounts portfolio accounts).map
        RewardAccountWithPoolId.address).Nodup := by
      apply List.Nodup.of_map RewardAccount.toHash
      rw [List.map_map]
      exact available_nodup hdistinct
    exact havailable.sublist ((List.take_sublist _ _).map _)
  · -- kept accounts are not available
    intro address hkeptMem hassignedMem
    obtain ⟨kept, hkeptAccount, rfl⟩ := List.mem_map.mp
      ((keptEntries_keys portfolio accounts).subset hkeptMem)
    obtain ⟨taken, htaken, hsame⟩ := List.mem_map.mp hassignedMem
    obtain ⟨hlisted, hstays⟩ := List.mem_filter.mp hkeptAccount
    obtain ⟨hlisted', havailable⟩ := mem_available.mp (List.mem_of_mem_take htaken)
    rw [List.inj_on_of_nodup_map haddresses hlisted' hlisted hsame] at havailable
    rw [Bool.and_eq_true, delegatesToRequested_iff] at hstays
    obtain ⟨hregistered, pool, hpool, hdelegatee⟩ := hstays
    rcases havailable with hunregistered | hnone | hother
    · rw [hunregistered] at hregistered
      cases of_decide_eq_true hregistered
    · rw [hnone] at hdelegatee
      cases hdelegatee
    · rw [← Bool.not_eq_true, delegatesToRequested_iff] at hother
      exact hother ⟨pool, hpool, hdelegatee⟩

end Distinct

end Result

end CardanoSdk.TxConstruction
