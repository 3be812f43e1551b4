import CardanoSdk.Projection.PoolRetirement
import CardanoSdk.Projection.PrepareProjection

/-!
Events that `willStore` rejects are not given to the stores. Only what the pools undergo
at the boundary of an epoch is not asked for.
-/

namespace CardanoSdk.Projection

open Lib
open InputSelection (AssetId PaymentAddress)

variable {eraSummaries : EraSummaries} {encode : List UInt8 → ℕ → List UInt8}
  {hasStakeCredential : PaymentAddress → Bool} {event : ProjectionEvent}

/-- The boundary of the epoch neither activates nor retires a pool. -/
def NothingDue (eraSummaries : EraSummaries) (epochNo : ℕ) (tables : StakePoolTables) : Prop :=
  ∀ poolId pool, tables.stakePools.get? poolId = some pool →
    activationDue eraSummaries epochNo tables poolId pool = false ∧
      (tables.retiringAt epochNo pool = true → pool.status = .retired)

variable {epochNo : ℕ} {tables : StakePoolTables}

theorem activateOnRollover_eq_self (h : NothingDue eraSummaries epochNo tables) :
    activateOnRollover eraSummaries true epochNo tables = tables := by
  rw [activateOnRollover, Bool.not_true, if_neg Bool.false_ne_true, updatePoolStatusWhere]
  split
  · rfl
  · rename_i hnegative
    have hepoch : 2 ≤ epochNo := by omega
    have hbefore : ((epochNo : ℤ) - 2).toNat = epochNo - 2 := by omega
    have hpools : tables.stakePools.updateWhere (fun poolId pool =>
        pool.status = .activating && registeredWithin
          (computeCertificateIdRange (epochNo - 2) eraSummaries) .active
          (tables.registrationIds poolId) pool)
        (fun pool => { pool with status := .active }) = tables.stakePools := by
      apply JsMap.updateWhere_eq_self
      intro poolId pool hpool hdue
      have hnone := (h poolId pool hpool).1
      rw [activationDue, decide_eq_true hepoch, Bool.true_and, hdue] at hnone
      exact absurd hnone.symm Bool.false_ne_true
    rw [hbefore, StakePoolTables.updatePools, hpools]

theorem retireOnRollover_eq_self (h : NothingDue eraSummaries epochNo tables) :
    retireOnRollover true epochNo tables = tables := by
  have hpools : tables.stakePools.updateWhere (fun _ pool => tables.retiringAt epochNo pool)
      (fun pool => { pool with status := .retired }) = tables.stakePools := by
    apply JsMap.updateWhere_eq_self
    intro poolId pool hpool hretiring
    rw [← (h poolId pool hpool).2 hretiring]
  rw [retireOnRollover, Bool.not_true, if_neg Bool.false_ne_true, StakePoolTables.updatePools, hpools]

theorem onRollover_eq_self_iff {crossEpochBoundary : Bool} :
    onRollover eraSummaries crossEpochBoundary epochNo tables = tables ↔
      (crossEpochBoundary = true → NothingDue eraSummaries epochNo tables) := by
  cases crossEpochBoundary with
  | false => exact iff_of_true rfl fun hfalse => absurd hfalse Bool.false_ne_true
  | true =>
    constructor
    · intro hsame _ poolId pool hpool
      have hrow := get?_onRollover eraSummaries true epochNo tables poolId
      rw [hsame, hpool, Option.map_some, Option.some_inj] at hrow
      have hstatus := congrArg StakePoolEntity.status hrow
      simp only [rolledStatus, Bool.not_true, Bool.false_eq_true, if_false] at hstatus
      have hactivating : activationDue eraSummaries epochNo tables poolId pool = true →
          pool.status = .activating := by
        intro hdue
        simp only [activationDue, Bool.and_eq_true, decide_eq_true_eq] at hdue
        exact hdue.1.2
      by_cases hretiring : tables.retiringAt epochNo pool = true
      · rw [if_pos hretiring] at hstatus
        refine ⟨Bool.eq_false_iff.mpr fun hdue => ?_, fun _ => hstatus⟩
        exact StakePoolStatus.noConfusion (hstatus.symm.trans (hactivating hdue))
      · rw [if_neg hretiring] at hstatus
        refine ⟨Bool.eq_false_iff.mpr fun hdue => ?_, fun hretiring' => absurd hretiring' hretiring⟩
        rw [if_pos hdue] at hstatus
        exact StakePoolStatus.noConfusion (hstatus.symm.trans (hactivating hdue))
    · intro hnothing
      rw [onRollover, activateOnRollover_eq_self (hnothing rfl),
        retireOnRollover_eq_self (hnothing rfl)]

theorem rollForwardStakePools_nil (evt : StakePoolEvent)
    (hnone : evt.stakePools = { updates := [], retirements := [] }) (tables : StakePoolTables) :
    rollForwardStakePools eraSummaries evt tables =
      .ok (onRollover eraSummaries evt.crossEpochBoundary evt.epochNo tables) := by
  rw [rollForwardStakePools, hnone]
  simp only [insertMissingStakePools, insertPoolUpdates, insertPoolRetirements, insertCertificates,
    List.map_nil, List.all_nil, List.filter_nil, List.foldl_nil, if_true, JsMap.insertRows_nil]
  rfl

/-- What becomes of the tables when a store is given an event that it rejects. -/
def skippedTables (eraSummaries : EraSummaries) (event : ProjectionEvent)
    (tables : ProjectionTables) : StoreName → ProjectionTables
  | .storeBlock => { tables with
      database := { tables.database with blocks := tables.database.blocks ++ [event.header] } }
  | .storeStakePools => { tables with
      stakePools := onRollover eraSummaries event.crossEpochBoundary event.epochNo
        tables.stakePools }
  | _ => tables

/-- The check of the store, if there is one, says that there is nothing to write. -/
def Rejects (event : ProjectionEvent) (storeName : StoreName) : Prop :=
  ∀ check, willStoreChecker storeName = some check → check event = some false

theorem someCheck_eq_false {checks : List (ProjectionEvent → Option Bool)} :
    someCheck event checks = some false ↔ ∀ check ∈ checks, check event = some false := by
  induction checks with
  | nil => simp [someCheck]
  | cons check checks ih =>
    rw [List.forall_mem_cons, someCheck]
    cases hcheck : check event with
    | none => simp
    | some result =>
      cases result with
      | true => simp
      | false => simp [ih]

theorem willStore_eq_false {stores : List StoreName} (h : willStore stores event = some false) : ∀ storeName ∈ stores, Rejects event storeName := by
  rw [willStore] at h
  split at h
  · cases h
  · intro storeName hmem check hcheck
    exact someCheck_eq_false.mp h check (List.mem_filterMap.mpr ⟨storeName, hmem, hcheck⟩)

variable {α : Type}

theorem eq_nil_of_not_pos {list : List α} (h : decide (list.length > 0) = false) : list = [] :=
  List.eq_nil_of_length_eq_zero (Nat.eq_zero_of_not_pos (of_decide_eq_false h))

theorem eq_some_nil_of_not_pos {list? : Option (List α)}
    (h : (list?.map fun list => decide (list.length > 0)) = some false) : list? = some [] := by
  obtain ⟨list, hlist, hlength⟩ := Option.map_eq_some_iff.mp h
  rw [hlist, eq_nil_of_not_pos hlength]

section Rejected

variable {tables : ProjectionTables}

theorem storeAddresses_rejected (h : Rejects event .storeAddresses) :
    storeAddresses event tables = tables := by
  have hnone := eq_nil_of_not_pos (Option.some.inj (h _ rfl))
  rw [storeAddresses, hnone]
  exact if_pos (Or.inl rfl)

theorem storeStakeKeyRegistrations_rejected (h : Rejects event .storeStakeKeyRegistrations) :
    storeStakeKeyRegistrations event tables = .ok tables := by
  have hnone := eq_nil_of_not_pos (Option.some.inj (h _ rfl))
  rw [storeStakeKeyRegistrations, hnone]
  exact if_pos (Or.inr rfl)

theorem storeGovernanceAction_rejected (h : Rejects event .storeGovernanceAction) :
    storeGovernanceAction event tables = .ok tables := by
  have hnone : willStoreGovernanceAction event = false := Option.some.inj (h _ rfl)
  rw [storeGovernanceAction, hnone]
  exact if_pos (Or.inr rfl)

theorem storeHandleMetadata_rejected (h : Rejects event .storeHandleMetadata)
    (storedProducedUtxo : List (ProducedUtxo × ℕ)) :
    event.handleMetadata = some [] ∧
      storeHandleMetadata event [] storedProducedUtxo tables = .ok tables := by
  refine ⟨eq_some_nil_of_not_pos (h _ rfl), if_neg ?_⟩
  rintro ⟨_, hlength⟩
  exact Nat.lt_irrefl 0 hlength

theorem storeNftMetadata_rejected (h : Rejects event .storeNftMetadata) :
    storeNftMetadata encode event tables = .ok tables := by
  have hnone : willStoreNftMetadata event = false := Option.some.inj (h _ rfl)
  rw [willStoreNftMetadata, Bool.or_eq_false_iff] at hnone
  have hmetadata := eq_nil_of_not_pos hnone.1
  have hlabels : event.cip67ByLabel.get? userNFT = none := by
    rw [JsMap.get?_eq_none_iff, eq_nil_of_not_pos hnone.2]
    exact List.not_mem_nil
  rw [storeNftMetadata, hmetadata, hlabels]
  simp only [List.map_nil, insertNftMetadata, List.all_nil, List.zip_nil_right, JsMap.insertRows_nil]
  rfl

theorem rollForwardUtxo_nil (slot : ℕ) (database : Database) :
    rollForwardUtxo slot { produced := [], consumed := [] } database = .ok (database, []) := by
  have htokens : database.insertTokens [] = .ok database := by
    rw [Database.insertTokens, List.all_nil, if_pos rfl, List.append_nil]
  simp only [rollForwardUtxo, insertOutputs, if_true, List.zipWith_nil_right, List.flatten_nil]
  change (database.insertTokens []).bind (fun database => .ok (database, [])) = _
  rw [htokens]
  rfl

theorem storeUtxo_rejected (h : Rejects event .storeUtxo) :
    rollForwardUtxo event.header.slot event.utxo tables.database = .ok (tables.database, []) := by
  have hnone : willStoreUtxo event = false := Option.some.inj (h _ rfl)
  rw [willStoreUtxo, Bool.or_eq_false_iff] at hnone
  have hutxo : event.utxo = { produced := [], consumed := [] } := by
    rw [← eq_nil_of_not_pos hnone.1, ← eq_nil_of_not_pos hnone.2]
  rw [hutxo]
  exact rollForwardUtxo_nil _ _

theorem storeStakePools_rejected (h : Rejects event .storeStakePools) :
    rollForwardStakePools eraSummaries (stakePoolEvent event) tables.stakePools =
      .ok (onRollover eraSummaries event.crossEpochBoundary event.epochNo tables.stakePools) := by
  have hnone : willStoreStakePools event.stakePools = false := Option.some.inj (h _ rfl)
  rw [willStoreStakePools, Bool.or_eq_false_iff] at hnone
  apply rollForwardStakePools_nil
  change event.stakePools = _
  rw [← eq_nil_of_not_pos hnone.1, ← eq_nil_of_not_pos hnone.2]

theorem storeStakePoolMetadataJob_rejected (h : Rejects event .storeStakePoolMetadataJob)
    (jobs : List Job) : storeStakePoolMetadataJob event jobs = jobs := by
  have hnone : event.stakePools.updates = [] := eq_nil_of_not_pos (Option.some.inj (h _ rfl))
  rw [storeStakePoolMetadataJob, hnone, List.filterMap_nil, List.append_nil, ite_self]

theorem storeStakePoolRewardsJob_rejected (h : Rejects event .storeStakePoolRewardsJob)
    (jobs : List Job) : storeStakePoolRewardsJob event jobs = jobs := by
  have hnone : willStoreStakePoolRewardsJob event = false := Option.some.inj (h _ rfl)
  rw [willStoreStakePoolRewardsJob, Bool.and_eq_false_iff] at hnone
  rw [storeStakePoolRewardsJob]
  split
  · rename_i hcrossed
    rcases hnone with hnot | hepoch
    · exact absurd (hnot.symm.trans hcrossed.2) Bool.false_ne_true
    · rw [if_pos (not_not.mp (of_decide_eq_false hepoch))]
  · rfl

end Rejected

/-- A store that rejects the event leaves its tables and sends nothing; the blocks and
the pools go on. -/
theorem runStore_rejected {storeName : StoreName} (h : Rejects event storeName)
    {state : ProjectionState}
    (hblock : storeName = .storeBlock → ∃ database,
      state.tables.database.insertBlock event.header = .ok database) :
    ∃ next, runStore eraSummaries encode hasStakeCredential event state storeName = .ok next ∧
      next.tables = skippedTables eraSummaries event state.tables storeName ∧
      (storeName ≠ .storePoolMetricsUpdateJob → next.jobs = state.jobs) := by
  cases storeName with
  | storeAddresses =>
    refine ⟨_, rfl, storeAddresses_rejected h, fun _ => rfl⟩
  | storeAssets =>
    have hnone : event.mint = [] := eq_nil_of_not_pos (Option.some.inj (h _ rfl))
    rw [runStore, hnone]
    exact ⟨_, rfl, rfl, fun _ => rfl⟩
  | storeBlock =>
    obtain ⟨database, hdatabase⟩ := hblock rfl
    rw [runStore, hdatabase]
    rw [Database.insertBlock] at hdatabase
    split at hdatabase
    · cases hdatabase
    · cases hdatabase
      exact ⟨_, rfl, rfl, fun _ => rfl⟩
  | storeGovernanceAction =>
    rw [runStore, storeGovernanceAction_rejected h]
    exact ⟨_, rfl, rfl, fun _ => rfl⟩
  | storeHandleMetadata =>
    obtain ⟨hnone, hstore⟩ := @storeHandleMetadata_rejected event state.tables h
      state.storedProducedUtxo
    rw [runStore, hnone]
    change ∃ next, state.write _ = _ ∧ _
    rw [hstore]
    exact ⟨_, rfl, rfl, fun _ => rfl⟩
  | storeHandles =>
    rw [runStore, eq_some_nil_of_not_pos (h _ rfl)]
    exact ⟨_, rfl, rfl, fun _ => rfl⟩
  | storeNftMetadata =>
    rw [runStore, storeNftMetadata_rejected h]
    exact ⟨_, rfl, rfl, fun _ => rfl⟩
  | storePoolMetricsUpdateJob =>
    exact ⟨_, rfl, rfl, fun hne => absurd rfl hne⟩
  | storeStakeKeyRegistrations =>
    rw [runStore, storeStakeKeyRegistrations_rejected h]
    exact ⟨_, rfl, rfl, fun _ => rfl⟩
  | storeStakePoolMetadataJob =>
    exact ⟨_, rfl, rfl, fun _ => storeStakePoolMetadataJob_rejected h state.jobs⟩
  | storeStakePoolRewardsJob =>
    exact ⟨_, rfl, rfl, fun _ => storeStakePoolRewardsJob_rejected h state.jobs⟩
  | storeStakePools =>
    rw [runStore, storeStakePools_rejected h]
    exact ⟨_, rfl, rfl, fun _ => rfl⟩
  | storeUtxo =>
    rw [runStore, storeUtxo_rejected h]
    exact ⟨_, rfl, rfl, fun _ => rfl⟩

section Run

variable (eraSummaries event) in
theorem skippedTables_frame (tables : ProjectionTables) (storeName : StoreName) :
    ∃ blocks stakePools, skippedTables eraSummaries event tables storeName =
      { tables with database := { tables.database with blocks }, stakePools } := by
  cases storeName with
  | storeBlock => exact ⟨_, _, rfl⟩
  | storeStakePools => exact ⟨_, _, rfl⟩
  | _ => exact ⟨_, _, rfl⟩

variable {storeName : StoreName}

theorem skippedTables_database (h : storeName ≠ .storeBlock) (tables : ProjectionTables) :
    (skippedTables eraSummaries event tables storeName).database = tables.database := by
  cases storeName with
  | storeBlock => exact absurd rfl h
  | _ => rfl

theorem skippedTables_stakePools (h : storeName ≠ .storeStakePools) (tables : ProjectionTables) :
    (skippedTables eraSummaries event tables storeName).stakePools = tables.stakePools := by
  cases storeName with
  | storeStakePools => exact absurd rfl h
  | _ => rfl

theorem foldl_skippedTables_frame (stores : List StoreName) (tables : ProjectionTables) :
    ∃ blocks stakePools, stores.foldl (skippedTables eraSummaries event) tables =
      { tables with database := { tables.database with blocks }, stakePools } := by
  induction stores generalizing tables with
  | nil => exact ⟨_, _, rfl⟩
  | cons storeName rest ih =>
    obtain ⟨blocks, stakePools, hstore⟩ := skippedTables_frame eraSummaries event tables storeName
    obtain ⟨blocks', stakePools', hrest⟩ :=
      ih (skippedTables eraSummaries event tables storeName)
    rw [List.foldl_cons, hrest, hstore]
    exact ⟨blocks', stakePools', rfl⟩

theorem foldl_skippedTables_stakePools {stores : List StoreName} (hnodup : stores.Nodup)
    (tables : ProjectionTables) :
    (stores.foldl (skippedTables eraSummaries event) tables).stakePools =
      if .storeStakePools ∈ stores then
        onRollover eraSummaries event.crossEpochBoundary event.epochNo tables.stakePools
      else tables.stakePools := by
  induction stores generalizing tables with
  | nil => rfl
  | cons storeName rest ih =>
    rw [List.nodup_cons] at hnodup
    rw [List.foldl_cons, ih hnodup.2]
    by_cases hpools : storeName = .storeStakePools
    · subst hpools
      rw [if_neg hnodup.1, if_pos List.mem_cons_self]
      rfl
    · rw [skippedTables_stakePools hpools]
      apply if_congr _ rfl rfl
      rw [List.mem_cons, or_iff_right (Ne.symm hpools)]

theorem runStores_rejected {stores : List StoreName} (hnodup : stores.Nodup)
    (h : ∀ storeName ∈ stores, Rejects event storeName) {state : ProjectionState}
    (hblock : .storeBlock ∈ stores → ∃ database,
      state.tables.database.insertBlock event.header = .ok database) :
    ∃ next, runStores eraSummaries encode hasStakeCredential stores event state = .ok next ∧
      next.tables = stores.foldl (skippedTables eraSummaries event) state.tables ∧
      (.storePoolMetricsUpdateJob ∉ stores → next.jobs = state.jobs) := by
  induction stores generalizing state with
  | nil => exact ⟨state, rfl, rfl, fun _ => rfl⟩
  | cons storeName rest ih =>
    rw [List.nodup_cons] at hnodup
    obtain ⟨middle, hmiddle, htables, hjobs⟩ :=
      @runStore_rejected eraSummaries encode hasStakeCredential event storeName
        (h storeName List.mem_cons_self) state fun heq => hblock (heq ▸ List.mem_cons_self)
    have hblock' : .storeBlock ∈ rest → ∃ database,
        middle.tables.database.insertBlock event.header = .ok database := by
      intro hmem
      have hne : storeName ≠ .storeBlock := fun heq => hnodup.1 (heq ▸ hmem)
      rw [htables, skippedTables_database hne]
      exact hblock (List.mem_cons_of_mem _ hmem)
    obtain ⟨next, hnext, htables', hjobs'⟩ := ih hnodup.2
      (fun other hmem => h other (List.mem_cons_of_mem _ hmem)) hblock'
    refine ⟨next, ?_, ?_, ?_⟩
    · rw [runStores, List.foldlM_cons, hmiddle]
      exact hnext
    · rw [htables', htables]
      rfl
    · intro hnot
      rw [List.mem_cons, not_or] at hnot
      exact (hjobs' hnot.2).trans (hjobs (Ne.symm hnot.1))

end Run

def EntitiesUnchanged (tables tables' : ProjectionTables) : Prop :=
  ∃ blocks, tables' = { tables with database := { tables.database with blocks } }

section Skipped

variable {projections : List ProjectionName} {stores : List StoreName} {state : ProjectionState}

/-- An event that is skipped would have left the tables as they are, exactly if the
pools are not projected or the event brings nothing about by crossing a boundary. -/
theorem skip_unchanged_iff (horder : stores.Perm (selectedStores projections))
    (hskip : willStore stores event = some false)
    (hnew : ∃ database, state.tables.database.insertBlock event.header = .ok database) :
    (∃ next, runStores eraSummaries encode hasStakeCredential stores event state = .ok next ∧
        EntitiesUnchanged state.tables next.tables) ↔
      (.stakePool ∈ projections → event.crossEpochBoundary = true →
        NothingDue eraSummaries event.epochNo state.tables.stakePools) := by
  have hnodup : stores.Nodup := horder.nodup_iff.mpr (nodup_selectedStores projections)
  obtain ⟨next, hnext, htables, _⟩ :=
    @runStores_rejected eraSummaries encode hasStakeCredential event stores hnodup
      (willStore_eq_false hskip) state fun _ => hnew
  have hpools := @foldl_skippedTables_stakePools eraSummaries event stores hnodup state.tables
  obtain ⟨blocks, stakePools, hframe⟩ :=
    @foldl_skippedTables_frame eraSummaries event stores state.tables
  rw [← htables] at hpools hframe
  have hunchanged : EntitiesUnchanged state.tables next.tables ↔
      next.tables.stakePools = state.tables.stakePools := by
    constructor
    · rintro ⟨blocks', hsame⟩
      rw [hsame]
    · intro hsame
      rw [hframe] at hsame ⊢
      exact ⟨blocks, hsame ▸ rfl⟩
  have hiff : EntitiesUnchanged state.tables next.tables ↔
      (.stakePool ∈ projections → event.crossEpochBoundary = true →
        NothingDue eraSummaries event.epochNo state.tables.stakePools) := by
    rw [hunchanged, hpools]
    by_cases hselected : .storeStakePools ∈ stores
    · have hprojected := (storeStakePools_selected_iff projections).mp (horder.mem_iff.mp hselected)
      rw [if_pos hselected, onRollover_eq_self_iff]
      exact ⟨fun hdue _ => hdue, fun hdue => hdue hprojected⟩
    · rw [if_neg hselected]
      refine iff_of_true rfl fun hprojected => absurd ?_ hselected
      exact horder.mem_iff.mpr ((storeStakePools_selected_iff projections).mpr hprojected)
  constructor
  · rintro ⟨next', hnext', hsame⟩
    cases hnext.symm.trans hnext'
    exact hiff.mp hsame
  · intro hdue
    exact ⟨next, hnext, hiff.mpr hdue⟩

end Skipped

/-! A pool retires at the first block of epoch 1, far from the tip and without
certificates: the event is skipped, and the pool goes on retiring. -/

/-- The event of a block without anything for other stores. -/
def tenSlotProjectionEvent (chain : List (Block PoolCertificate)) (block : Block PoolCertificate) :
    ProjectionEvent where
  eventType := .rollForward
  header := { block.header with hash := toString block.header.slot }
  tip := headerAt 1000000
  securityParameter := 2160
  epochNo := (tenSlotEvent chain block).epochNo
  crossEpochBoundary := (tenSlotEvent chain block).crossEpochBoundary
  stakePools := (tenSlotEvent chain block).stakePools

def poolStores : List StoreName := [.storeBlock, .storeStakePools]

/-- The stores of the pools run over a chain, without skipping any event. -/
def projectPools : List (Block PoolCertificate) → Except StoreError ProjectionState
  | [] => .ok { tables := ProjectionTables.empty }
  | block :: chain => do
      let state ← projectPools chain
      runStores tenSlotEras (fun content _ => content) (fun _ => false) poolStores
        (tenSlotProjectionEvent chain block) state

/-- Within an epoch there is nothing to lose. -/
theorem skip_unchanged_within_epoch :
    ∃ state, projectPools retiredChain = .ok state ∧ ∃ next,
      runStores tenSlotEras (fun content _ => content) (fun _ => false) poolStores
        (tenSlotProjectionEvent retiredChain (emptyBlock 9)) state = .ok next ∧
      EntitiesUnchanged state.tables next.tables := by
  have hnew : okAnd (fun state => (state.tables.database.insertBlock
        (tenSlotProjectionEvent retiredChain (emptyBlock 9)).header).isOk)
      (projectPools retiredChain) = true := by decide
  obtain ⟨state, hstate, hblock⟩ := okAnd_iff.mp hnew
  have horder : poolStores.Perm (selectedStores [.stakePool]) := by decide
  refine ⟨state, hstate, (skip_unchanged_iff horder (by decide) ?_).mpr ?_⟩
  · cases hinsert : state.tables.database.insertBlock
        (tenSlotProjectionEvent retiredChain (emptyBlock 9)).header with
    | ok database => exact ⟨database, rfl⟩
    | error error =>
      rw [hinsert] at hblock
      cases hblock
  · intro _ hcrossed
    exact absurd hcrossed (by decide)

/-- The skipped event would have retired the pool. -/
theorem skip_loses_retirement :
    poolStores.Perm (selectedStores [.stakePool]) ∧
    ValidChain tenSlotEras.1 (emptyBlock 10 :: retiredChain) ∧
    willStore poolStores (tenSlotProjectionEvent retiredChain (emptyBlock 10)) = some false ∧
    okAnd (fun state => statusOf state.tables.stakePools [1] = some .retiring)
      (projectPools retiredChain) = true ∧
    okAnd (fun state => statusOf state.tables.stakePools [1] = some .retired)
      (projectPools (emptyBlock 10 :: retiredChain)) = true ∧
    ¬∀ state, projectPools retiredChain = .ok state → ∃ next,
      runStores tenSlotEras (fun content _ => content) (fun _ => false) poolStores
        (tenSlotProjectionEvent retiredChain (emptyBlock 10)) state = .ok next ∧
      EntitiesUnchanged state.tables next.tables := by
  have hretiring : okAnd (fun state => statusOf state.tables.stakePools [1] = some .retiring)
      (projectPools retiredChain) = true := by decide
  have hretired : okAnd (fun state => statusOf state.tables.stakePools [1] = some .retired)
      (projectPools (emptyBlock 10 :: retiredChain)) = true := by decide
  refine ⟨by decide, emptyBlock_valid retiredChain_valid (by decide), by decide, hretiring,
    hretired, ?_⟩
  intro hclaim
  obtain ⟨next, hnext, hafter⟩ := okAnd_iff.mp hretired
  obtain ⟨state, hstate, hrun⟩ := bind_ok hnext
  obtain ⟨state', hstate', hbefore⟩ := okAnd_iff.mp hretiring
  cases hstate.symm.trans hstate'
  obtain ⟨next', hrun', blocks, hsame⟩ := hclaim state hstate
  cases hrun.symm.trans hrun'
  rw [hsame] at hafter
  cases (of_decide_eq_true hafter).symm.trans (of_decide_eq_true hbefore)

end CardanoSdk.Projection
