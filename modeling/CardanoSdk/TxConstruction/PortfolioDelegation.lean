import CardanoSdk.TxConstruction.PortfolioReached

/-!
The weights of a portfolio's pools over the accounts that delegate to them, and when
they are the ones asked for.
-/

namespace CardanoSdk.TxConstruction

open Lib

variable {α : Type*}

theorem append_cons_eq_singleton {before rest : List α} {a b : α} (h : before ++ a :: rest = [b]) :
    before = [] ∧ a = b := by
  cases before with
  | nil =>
    injection h with hfirst
    exact ⟨rfl, hfirst⟩
  | cons x before =>
    injection h with hfirst hrest
    exact absurd hrest (List.append_ne_nil_of_right_ne_nil _ (List.cons_ne_nil _ _))

theorem append_cons_eq_pair {before rest : List α} {a b c : α} (h : before ++ a :: rest = [b, c])
    (hne : a ≠ c) : before = [] ∧ a = b := by
  cases before with
  | nil =>
    injection h with hfirst
    exact ⟨rfl, hfirst⟩
  | cons x before =>
    injection h with hfirst hrest
    exact absurd (append_cons_eq_singleton hrest).2 hne

theorem registers_of_deregisters {certificate : Certificate}
    (h : certificate.deregisters = true) : certificate.registers = false := by
  cases certificate with
  | stakeDeregistration credential => rfl
  | unregistration credential deposit => rfl
  | _ => cases h

section Weights

variable {portfolio : List TxBuilderStakePool} {accounts : List RewardAccountWithPoolId}

def portfolioCertificates (inConwayEra : Bool) (portfolio : List TxBuilderStakePool)
    (accounts : List RewardAccountWithPoolId) : List Certificate :=
  (certificateBlocks inConwayEra portfolio accounts).flatMap Prod.snd

def portfolioWeights (portfolio : List TxBuilderStakePool)
    (accounts : List RewardAccountWithPoolId) : RewardAccountsAndWeights :=
  ((assignments portfolio accounts).map fun (pool, account) =>
    (account.address, pool.weight)).foldl (fun m e => m.set e.1 e.2)
      (delegatedWeights portfolio accounts)

/-- A registered account of a requested pool keeps it. -/
def keeps (poolId : PoolId) (account : RewardAccountWithPoolId) : Bool :=
  account.credentialStatus = .registered ∧ account.delegatee = some poolId

variable {pool : TxBuilderStakePool} {account : RewardAccountWithPoolId}

theorem keeps_not_available (hpool : pool ∈ portfolio) (hkeeps : keeps pool.id account = true) :
    account ∉ availableRewardAccounts portfolio accounts := by
  obtain ⟨hregistered, hdelegatee⟩ := of_decide_eq_true hkeeps
  intro havailable
  rcases (mem_available.mp havailable).2 with hunregistered | hnone | hother
  · rw [hregistered] at hunregistered
    cases hunregistered
  · rw [hnone] at hdelegatee
    cases hdelegatee
  · rw [← Bool.not_eq_true, delegatesToRequested_iff] at hother
    exact hother ⟨pool, hpool, hdelegatee⟩

variable (hle : (newPools portfolio accounts).length ≤
    (availableRewardAccounts portfolio accounts).length)
  (hdistinct : (accounts.map fun account => account.address.toHash).Nodup)
  (hpools : (portfolio.map TxBuilderStakePool.id).Nodup)

include hle hdistinct in
theorem weight_of_assigned (hpair : (pool, account) ∈ assignments portfolio accounts) :
    (portfolioWeights portfolio accounts).get? account.address = some pool.weight := by
  rw [JsMap.get?_eq_some_iff, portfolioWeights, weights_entries hle hdistinct]
  exact List.mem_append_right _ (List.mem_map.mpr ⟨(pool, account), hpair, rfl⟩)

include hle hdistinct hpools

theorem weight_of_kept (hpool : pool ∈ portfolio) (hmem : account ∈ accounts)
    (hkeeps : keeps pool.id account = true) :
    (portfolioWeights portfolio accounts).get? account.address = some pool.weight := by
  obtain ⟨hregistered, hdelegatee⟩ := of_decide_eq_true hkeeps
  rw [JsMap.get?_eq_some_iff, portfolioWeights, weights_entries hle hdistinct]
  apply List.mem_append_left
  exact (mem_keptEntries hpools).mpr ⟨account, hmem, pool, hpool, hregistered, hdelegatee, rfl⟩

theorem mem_weights {address : RewardAccount}
    (haddress : address ∈ (portfolioWeights portfolio accounts).keys) :
    (∃ account ∈ accounts, account.address = address ∧ ∃ pool ∈ portfolio,
        keeps pool.id account = true) ∨
      ∃ pool account, (pool, account) ∈ assignments portfolio accounts ∧
        account.address = address := by
  rw [JsMap.keys, portfolioWeights, weights_entries hle hdistinct] at haddress
  obtain ⟨entry, hentry, rfl⟩ := List.mem_map.mp haddress
  rcases List.mem_append.mp hentry with hkept | hassigned
  · obtain ⟨account, hmem, pool, hpool, hregistered, hdelegatee, rfl⟩ :=
      (mem_keptEntries hpools).mp hkept
    exact Or.inl ⟨account, hmem, rfl, pool, hpool, decide_eq_true ⟨hregistered, hdelegatee⟩⟩
  · obtain ⟨⟨pool, account⟩, hpair, rfl⟩ := List.mem_map.mp hassigned
    exact Or.inr ⟨pool, account, hpair, rfl⟩

theorem weight_of_other (hmem : account ∈ accounts)
    (hnot : account ∉ availableRewardAccounts portfolio accounts)
    (hstatus : account.credentialStatus ≠ .registered) :
    (portfolioWeights portfolio accounts).get? account.address = none := by
  have haddresses : (accounts.map RewardAccountWithPoolId.address).Nodup := by
    apply List.Nodup.of_map RewardAccount.toHash
    rw [List.map_map]
    exact hdistinct
  rw [JsMap.get?_eq_none_iff]
  intro haddress
  rcases mem_weights hle hdistinct hpools haddress with
    ⟨kept, hlisted, hsame, pool, -, hkeeps⟩ | ⟨pool, assigned, hpair, hsame⟩
  · rw [List.inj_on_of_nodup_map haddresses hlisted hmem hsame] at hkeeps
    exact hstatus (of_decide_eq_true hkeeps).1
  · have havailable := (List.of_mem_zip hpair).2
    rw [List.inj_on_of_nodup_map haddresses (mem_available.mp havailable).1 hmem hsame] at havailable
    exact hnot havailable

theorem exists_delegates_new (inConwayEra : Bool) (hnew : pool ∈ newPools portfolio accounts) :
    ∃ chosen ∈ accounts, (pool, chosen) ∈ assignments portfolio accounts ∧
      ∀ account ∈ accounts, Delegates (portfolioCertificates inConwayEra portfolio accounts) pool.id
        account = true ↔ account = chosen := by
  obtain ⟨hpool, hnone⟩ := mem_newPools.mp hnew
  obtain ⟨i, hi⟩ := List.mem_iff_getElem?.mp hnew
  have hlt := (List.getElem?_eq_some_iff.mp hi).1
  obtain ⟨chosen, hchosen⟩ : ∃ chosen, (availableRewardAccounts portfolio accounts)[i]? = some chosen :=
    ⟨_, List.getElem?_eq_getElem (hlt.trans_le hle)⟩
  have hpair : (pool, chosen) ∈ assignments portfolio accounts := by
    rw [List.mem_iff_getElem?]
    exact ⟨i, List.getElem?_zip_eq_some.mpr ⟨hi, hchosen⟩⟩
  refine ⟨chosen, (mem_available.mp (List.mem_of_getElem? hchosen)).1, hpair, ?_⟩
  intro account hmem
  rw [portfolioCertificates, delegates_iff hle hdistinct inConwayEra hmem hpool]
  constructor
  · rintro (⟨assigned, hassigned, hid⟩ | ⟨-, -, hdelegatee⟩)
    · -- the pool is listed once, so it was popped once
      obtain ⟨j, hj⟩ := List.mem_iff_getElem?.mp hassigned
      obtain ⟨hjPool, hjAccount⟩ := List.getElem?_zip_eq_some.mp hj
      have hassignedPool := (mem_newPools.mp (List.mem_of_getElem? hjPool)).1
      have hsame : assigned = pool := List.inj_on_of_nodup_map hpools hassignedPool hpool hid
      have hnodup : (newPools portfolio accounts).Nodup := hpools.of_map.filter _
      have hij := (List.getElem?_inj hlt hnodup).mp (hi.trans (hsame ▸ hjPool).symm)
      rw [← hij, hchosen] at hjAccount
      exact (Option.some.inj hjAccount).symm
    · exact absurd hdelegatee (hnone account hmem)
  · rintro rfl
    exact Or.inl ⟨pool, hpair, rfl⟩

theorem sum_new (inConwayEra : Bool) (hnew : pool ∈ newPools portfolio accounts) :
    (accounts.map fun account =>
      if Delegates (portfolioCertificates inConwayEra portfolio accounts) pool.id account then
        ((portfolioWeights portfolio accounts).get? account.address).getD 0 else 0).sum =
          pool.weight := by
  obtain ⟨chosen, hchosen, hpair, hdelegates⟩ :=
    exists_delegates_new hle hdistinct hpools inConwayEra hnew
  have hterms : ∀ account ∈ accounts,
      (if Delegates (portfolioCertificates inConwayEra portfolio accounts) pool.id account then
        ((portfolioWeights portfolio accounts).get? account.address).getD 0 else 0) =
          if account == chosen then pool.weight else 0 := by
    intro account hmem
    by_cases heq : account = chosen
    · rw [if_pos ((hdelegates account hmem).mpr heq), if_pos (beq_iff_eq.mpr heq), heq,
        weight_of_assigned hle hdistinct hpair]
      rfl
    · rw [if_neg fun h => heq ((hdelegates account hmem).mp h),
        if_neg fun h => heq (beq_iff_eq.mp h)]
  have hcount : accounts.countP (fun account => account == chosen) = 1 :=
    List.count_eq_one_of_mem hdistinct.of_map hchosen
  rw [List.map_congr_left hterms, sum_map_ite_const, hcount]
  simp

theorem delegates_kept (inConwayEra : Bool) (hpool : pool ∈ portfolio)
    (hold : pool ∉ newPools portfolio accounts) (hmem : account ∈ accounts) :
    Delegates (portfolioCertificates inConwayEra portfolio accounts) pool.id account = true ↔
      account ∉ availableRewardAccounts portfolio accounts ∧
        account.initial.registered = true ∧ account.delegatee = some pool.id := by
  rw [portfolioCertificates, delegates_iff hle hdistinct inConwayEra hmem hpool]
  constructor
  · rintro (⟨assigned, hassigned, hid⟩ | hkept)
    · have hnew := (List.of_mem_zip hassigned).1
      have hsame := List.inj_on_of_nodup_map hpools (mem_newPools.mp hnew).1 hpool hid
      exact absurd (hsame ▸ hnew) hold
    · exact hkept
  · exact Or.inr

theorem sum_kept (inConwayEra : Bool) (hpool : pool ∈ portfolio)
    (hold : pool ∉ newPools portfolio accounts) :
    (accounts.map fun account =>
      if Delegates (portfolioCertificates inConwayEra portfolio accounts) pool.id account then
        ((portfolioWeights portfolio accounts).get? account.address).getD 0 else 0).sum =
          accounts.countP (keeps pool.id) * pool.weight := by
  have hterms : ∀ account ∈ accounts,
      (if Delegates (portfolioCertificates inConwayEra portfolio accounts) pool.id account then
        ((portfolioWeights portfolio accounts).get? account.address).getD 0 else 0) =
          if keeps pool.id account then pool.weight else 0 := by
    intro account hmem
    by_cases hkeeps : keeps pool.id account = true
    · obtain ⟨hregistered, hdelegatee⟩ := of_decide_eq_true hkeeps
      have hdelegates := (delegates_kept hle hdistinct hpools inConwayEra hpool hold hmem).mpr
        ⟨keeps_not_available hpool hkeeps, decide_eq_true (Or.inl hregistered), hdelegatee⟩
      rw [if_pos hdelegates, if_pos hkeeps, weight_of_kept hle hdistinct hpools hpool hmem hkeeps]
      rfl
    · rw [if_neg hkeeps]
      split
      · rename_i hdelegates
        obtain ⟨hnot, -, hdelegatee⟩ :=
          (delegates_kept hle hdistinct hpools inConwayEra hpool hold hmem).mp hdelegates
        have hstatus : account.credentialStatus ≠ .registered := fun hregistered =>
          hkeeps (decide_eq_true ⟨hregistered, hdelegatee⟩)
        rw [weight_of_other hle hdistinct hpools hmem hnot hstatus]
        rfl
      · rfl
  rw [List.map_congr_left hterms, sum_map_ite_const]

omit hpools in
/-- The certificate that registers or deregisters an account is the first about it. -/
theorem filter_before_nil (inConwayEra : Bool) (hmem : account ∈ accounts)
    {before rest : List Certificate} {certificate : Certificate}
    (heq : portfolioCertificates inConwayEra portfolio accounts = before ++ certificate :: rest)
    (hnamed : account.named certificate = true)
    (hkind : certificate.registers = true ∨ certificate.deregisters = true) :
    before.filter account.named = [] ∧
      (certificate.registers = true → account.initial.registered = false) ∧
      (certificate.deregisters = true → account ∈ accountsLeft portfolio accounts ∧
        account.credentialStatus = .registered) := by
  have hfilter := congrArg (List.filter account.named) heq
  rw [List.filter_append, List.filter_cons_of_pos hnamed] at hfilter
  rcases certificates_of_account hle hdistinct inConwayEra hmem with
    ⟨pool, hpair, hown⟩ | ⟨hleft, hown⟩ | ⟨hnot, hown⟩
  · have hlist := (hown.symm.trans hfilter).symm
    have hdelegation : certificate ≠ createDelegationCert account.address pool.id := by
      rintro rfl
      rcases hkind with hregisters | hderegisters
      · cases hregisters
      · cases hderegisters
    unfold delegationCertificates at hlist
    split at hlist
    · rename_i hneeded
      obtain ⟨hnil, rfl⟩ := append_cons_eq_pair hlist hdelegation
      refine ⟨hnil, fun _ => ?_, fun hderegisters => by cases hderegisters⟩
      exact decide_eq_false (not_or.mpr hneeded)
    · exact absurd (append_cons_eq_singleton hlist).2 hdelegation
  · have hlist := (hown.symm.trans hfilter).symm
    have hcertificate : certificate ∈ deRegistrationOf inConwayEra account := by
      rw [← hlist]
      exact List.mem_append_right _ List.mem_cons_self
    have hderegisters := (own_deRegistrationOf account certificate hcertificate).2
    unfold deRegistrationOf at hlist
    split at hlist
    · rename_i hregistered
      refine ⟨(append_cons_eq_singleton hlist).1, fun hregisters => ?_, fun _ => ⟨hleft, hregistered⟩⟩
      rw [registers_of_deregisters hderegisters] at hregisters
      cases hregisters
    · exact absurd hlist (List.append_ne_nil_of_right_ne_nil _ (List.cons_ne_nil _ _))
  · have hlist := (hown.symm.trans hfilter).symm
    exact absurd hlist (List.append_ne_nil_of_right_ne_nil _ (List.cons_ne_nil _ _))

theorem portfolio_safe (inConwayEra : Bool) :
    let certificates := portfolioCertificates inConwayEra portfolio accounts
    (∀ address ∈ (portfolioWeights portfolio accounts).keys, ∃ account ∈ accounts,
      account.address = address ∧
        ∃ pool ∈ portfolio, Delegates certificates pool.id account = true) ∧
    (∀ account ∈ accounts, ∀ before certificate rest,
      certificates = before ++ certificate :: rest → account.named certificate = true →
        certificate.deregisters = true → ∀ pool ∈ portfolio, ¬Delegates before pool.id account = true) ∧
    (∀ account ∈ accounts, ∀ before certificate rest,
      certificates = before ++ certificate :: rest → account.named certificate = true →
        certificate.registers = true → (account.after before).registered = false) ∧
    ∀ account ∈ accounts, account.credentialStatus = .registered →
      (∃ pool ∈ portfolio, Delegates certificates pool.id account = true) ∨
        ∃ certificate ∈ certificates, account.named certificate = true ∧
          certificate.deregisters = true := by
  refine ⟨?_, ?_, ?_, ?_⟩
  · intro address haddress
    rcases mem_weights hle hdistinct hpools haddress with
      ⟨account, hmem, hsame, pool, hpool, hkeeps⟩ | ⟨pool, account, hpair, hsame⟩
    · obtain ⟨hregistered, hdelegatee⟩ := of_decide_eq_true hkeeps
      refine ⟨account, hmem, hsame, pool, hpool, ?_⟩
      exact (delegates_iff hle hdistinct inConwayEra hmem hpool).mpr
        (Or.inr ⟨keeps_not_available hpool hkeeps, decide_eq_true (Or.inl hregistered), hdelegatee⟩)
    · have hmem := (mem_available.mp (List.of_mem_zip hpair).2).1
      have hpool := (mem_newPools.mp (List.of_mem_zip hpair).1).1
      exact ⟨account, hmem, hsame, pool, hpool,
        (delegates_iff hle hdistinct inConwayEra hmem hpool).mpr (Or.inl ⟨pool, hpair, rfl⟩)⟩
  · intro account hmem before certificate rest heq hnamed hderegisters pool hpool hdelegates
    obtain ⟨hnil, -, hleft⟩ := filter_before_nil hle hdistinct inConwayEra hmem heq hnamed
      (Or.inr hderegisters)
    obtain ⟨hleft, hregistered⟩ := hleft hderegisters
    have hdelegatee := (of_decide_eq_true hdelegates).2
    rw [after_eq_filter, hnil] at hdelegatee
    exact keeps_not_available hpool (decide_eq_true ⟨hregistered, hdelegatee⟩)
      (List.mem_of_mem_drop hleft)
  · intro account hmem before certificate rest heq hnamed hregisters
    obtain ⟨hnil, hinitial, -⟩ := filter_before_nil hle hdistinct inConwayEra hmem heq hnamed
      (Or.inl hregisters)
    rw [after_eq_filter, hnil]
    exact hinitial hregisters
  · intro account hmem hregistered
    rcases certificates_of_account hle hdistinct inConwayEra hmem with
      ⟨pool, hpair, -⟩ | ⟨hleft, hown⟩ | ⟨hnot, -⟩
    · have hpool := (mem_newPools.mp (List.of_mem_zip hpair).1).1
      exact Or.inl ⟨pool, hpool,
        (delegates_iff hle hdistinct inConwayEra hmem hpool).mpr (Or.inl ⟨pool, hpair, rfl⟩)⟩
    · have hown' := hown
      rw [deRegistrationOf, if_pos hregistered] at hown'
      have hcertificate := List.mem_filter.mp (hown' ▸ List.mem_cons_self)
      have hderegisters := (own_deRegistrationOf account _ (hown ▸ hown' ▸ List.mem_cons_self)).2
      exact Or.inr ⟨_, hcertificate.1, hcertificate.2, hderegisters⟩
    · rw [mem_available, not_and, not_or, not_or, Bool.not_eq_false, delegatesToRequested_iff] at hnot
      obtain ⟨-, -, pool, hpool, hdelegatee⟩ := hnot hmem
      refine Or.inl ⟨pool, hpool, (delegates_iff hle hdistinct inConwayEra hmem hpool).mpr (Or.inr ?_)⟩
      exact ⟨keeps_not_available hpool (decide_eq_true ⟨hregistered, hdelegatee⟩),
        decide_eq_true (Or.inl hregistered), hdelegatee⟩

end Weights

/-- One registered account keeps each requested pool that is some account's delegatee. -/
def KeptOnce (portfolio : List TxBuilderStakePool) (accounts : List RewardAccountWithPoolId) :
    Prop :=
  ∀ pool ∈ portfolio, (∃ account ∈ accounts, account.delegatee = some pool.id) →
    accounts.countP (keeps pool.id) = 1

theorem delegatePortfolio_reaches {inConwayEra : Bool} {portfolio : List TxBuilderStakePool}
    {accounts : List RewardAccountWithPoolId} {certificates : List Certificate}
    {weights : RewardAccountsAndWeights}
    (hpools : (portfolio.map TxBuilderStakePool.id).Nodup)
    (hweights : ∀ pool ∈ portfolio, 0 < pool.weight)
    (hdistinct : (accounts.map fun account => account.address.toHash).Nodup)
    (h : delegatePortfolio inConwayEra portfolio accounts = .ok (certificates, weights)) :
    ReachesPortfolio portfolio accounts certificates weights ↔ KeptOnce portfolio accounts := by
  obtain ⟨hle, hcertificates, hweightsEq⟩ := delegatePortfolio_ok h
  change certificates = portfolioCertificates inConwayEra portfolio accounts at hcertificates
  change weights = portfolioWeights portfolio accounts at hweightsEq
  subst hcertificates
  subst hweightsEq
  constructor
  · intro hreaches pool hpool ⟨account, hmem, hdelegatee⟩
    have hold : pool ∉ newPools portfolio accounts := fun hnew =>
      (mem_newPools.mp hnew).2 account hmem hdelegatee
    have hsum := hreaches.weighted pool hpool
    rw [sum_kept hle hdistinct hpools inConwayEra hpool hold] at hsum
    have hone : (accounts.countP (keeps pool.id) : ℚ) = 1 :=
      mul_right_cancel₀ (hweights pool hpool).ne' (hsum.trans (one_mul _).symm)
    exact_mod_cast hone
  · intro hkept
    obtain ⟨hkeys, hderegister, hregister, hderegistered⟩ :=
      portfolio_safe hle hdistinct hpools inConwayEra
    have holdOnce : ∀ pool ∈ portfolio, pool ∉ newPools portfolio accounts →
        accounts.countP (keeps pool.id) = 1 := by
      intro pool hpool hold
      apply hkept pool hpool
      by_contra hnone
      exact hold (mem_newPools.mpr ⟨hpool, fun account hmem hdelegatee =>
        hnone ⟨account, hmem, hdelegatee⟩⟩)
    refine ⟨?_, ?_, hkeys, hderegister, hregister, hderegistered⟩
    · intro pool hpool
      by_cases hnew : pool ∈ newPools portfolio accounts
      · obtain ⟨chosen, hchosen, -, hdelegates⟩ :=
          exists_delegates_new hle hdistinct hpools inConwayEra hnew
        exact ⟨chosen, hchosen, (hdelegates chosen hchosen).mpr rfl⟩
      · have hcount := holdOnce pool hpool hnew
        obtain ⟨account, hmem, hkeeps⟩ := List.countP_pos_iff.mp (hcount ▸ Nat.one_pos)
        obtain ⟨hregistered, hdelegatee⟩ := of_decide_eq_true hkeeps
        exact ⟨account, hmem, (delegates_kept hle hdistinct hpools inConwayEra hpool hnew hmem).mpr
          ⟨keeps_not_available hpool hkeeps, decide_eq_true (Or.inl hregistered), hdelegatee⟩⟩
    · intro pool hpool
      by_cases hnew : pool ∈ newPools portfolio accounts
      · exact sum_new hle hdistinct hpools inConwayEra hnew
      · rw [sum_kept hle hdistinct hpools inConwayEra hpool hnew, holdOnce pool hpool hnew]
        simp

def stakeKey (hash : UInt8) (credentialStatus : StakeCredentialStatus) (delegatee : Option PoolId) :
    RewardAccountWithPoolId where
  address := ⟨1, ⟨.keyHash, [hash]⟩⟩
  credentialStatus := credentialStatus
  delegatee := delegatee
  dRepDelegatee := none
  rewardBalance := 0
  deposit := none

theorem delegatePortfolio_reaches_sample :
    ∃ certificates weights,
      delegatePortfolio true [⟨[7], 1⟩, ⟨[8], 2⟩]
        [stakeKey 0 .registered (some [7]), stakeKey 1 .unregistered none] =
          .ok (certificates, weights) ∧
      (ReachesPortfolio [⟨[7], 1⟩, ⟨[8], 2⟩]
          [stakeKey 0 .registered (some [7]), stakeKey 1 .unregistered none] certificates weights ↔
        KeptOnce [⟨[7], 1⟩, ⟨[8], 2⟩]
          [stakeKey 0 .registered (some [7]), stakeKey 1 .unregistered none]) := by
  have havailable : availableRewardAccounts [⟨[7], 1⟩, ⟨[8], 2⟩]
      [stakeKey 0 .registered (some [7]), stakeKey 1 .unregistered none] =
        [stakeKey 1 .unregistered none] := List.mergeSort_singleton _
  have hok : ∃ certificates weights, delegatePortfolio true [⟨[7], 1⟩, ⟨[8], 2⟩]
      [stakeKey 0 .registered (some [7]), stakeKey 1 .unregistered none] =
        .ok (certificates, weights) := by
    unfold delegatePortfolio
    rw [havailable]
    exact ⟨_, _, rfl⟩
  obtain ⟨certificates, weights, hok⟩ := hok
  refine ⟨certificates, weights, hok, delegatePortfolio_reaches (by decide) ?_ (by decide) hok⟩
  intro pool hpool
  rcases List.mem_cons.mp hpool with rfl | hpool
  · norm_num
  · rw [List.mem_singleton.mp hpool]
    norm_num

/-- Two registered accounts of the requested pool weigh twice what was requested. -/
theorem not_delegatePortfolio_reaches :
    ∃ certificates weights,
      delegatePortfolio true [⟨[7], 1⟩]
        [stakeKey 0 .registered (some [7]), stakeKey 1 .registered (some [7])] =
          .ok (certificates, weights) ∧
      ¬ReachesPortfolio [⟨[7], 1⟩]
        [stakeKey 0 .registered (some [7]), stakeKey 1 .registered (some [7])] certificates
          weights := by
  have havailable : availableRewardAccounts [⟨[7], 1⟩]
      [stakeKey 0 .registered (some [7]), stakeKey 1 .registered (some [7])] = [] := List.mergeSort_nil
  unfold delegatePortfolio
  rw [havailable]
  refine ⟨_, _, rfl, ?_⟩
  intro hreaches
  have hsum := hreaches.weighted ⟨[7], 1⟩ List.mem_cons_self
  revert hsum
  decide +kernel

end CardanoSdk.TxConstruction
