import CardanoSdk.Projection.HandleStore

/-!
`prepareTypeormProjection`: the stores that a selection of projections needs, and the
predicate by which an event that has nothing for them is skipped. Stores are ordered by
their dependencies, in any way that the sorter finds.
-/

namespace CardanoSdk.Projection

open Lib
open InputSelection (AssetId PaymentAddress)

inductive ProjectionName where
  | address | asset | handle | protocolParameters | stakePool | stakePoolMetadataJob
  | stakePoolMetricsJob | stakePoolRewardsJob | utxo
  deriving DecidableEq

inductive StoreName where
  | storeAddresses | storeAssets | storeBlock | storeGovernanceAction | storeHandleMetadata
  | storeHandles | storeNftMetadata | storePoolMetricsUpdateJob | storeStakeKeyRegistrations
  | storeStakePoolMetadataJob | storeStakePoolRewardsJob | storeStakePools | storeUtxo
  deriving DecidableEq

def storeInterDependencies : StoreName → List StoreName
  | .storeAddresses => [.storeBlock, .storeStakeKeyRegistrations]
  | .storeAssets => [.storeBlock]
  | .storeGovernanceAction => [.storeBlock]
  | .storeHandleMetadata => [.storeUtxo]
  | .storeHandles => [.storeUtxo, .storeAddresses, .storeHandleMetadata]
  | .storeNftMetadata => [.storeAssets]
  | .storePoolMetricsUpdateJob => [.storeBlock]
  | .storeStakePoolMetadataJob => [.storeBlock]
  | .storeStakePoolRewardsJob => [.storeBlock]
  | .storeStakePools => [.storeBlock]
  | .storeUtxo => [.storeBlock, .storeAssets]
  | .storeBlock | .storeStakeKeyRegistrations => []

def projectionStoreDependencies : ProjectionName → List StoreName
  | .address => [.storeAddresses]
  | .asset => [.storeAssets, .storeNftMetadata]
  | .handle => [.storeHandles, .storeHandleMetadata, .storeNftMetadata]
  | .protocolParameters => [.storeGovernanceAction]
  | .stakePool => [.storeStakePools]
  | .stakePoolMetadataJob => [.storeStakePoolMetadataJob]
  | .stakePoolMetricsJob => [.storePoolMetricsUpdateJob]
  | .stakePoolRewardsJob => [.storeStakePoolRewardsJob]
  | .utxo => [.storeUtxo]

/-- `registerStore`, with fuel for the depth of the dependencies. -/
def registerStore : ℕ → StoreName → List StoreName → List StoreName
  | 0, _, registered => registered
  | fuel + 1, storeName, registered =>
    if storeName ∈ registered then registered
    else
      (storeInterDependencies storeName).foldl
        (fun registered dependency => registerStore fuel dependency registered)
        (registered ++ [storeName])

/-- No store depends on as many stores in a row. -/
def dependencyFuel : ℕ := 6

/-- The nodes of `storeSorter`, in the order they are added. -/
def selectedStores (projections : List ProjectionName) : List StoreName :=
  (projections.flatMap projectionStoreDependencies).foldl
    (fun registered storeName => registerStore dependencyFuel storeName registered) []

section WillStore

variable (event : ProjectionEvent)

def willStoreAddresses : Bool := event.addresses.length > 0

def willStoreAssets : Bool := event.mint.length > 0

/-- Without handles there is no length to read. -/
def willStoreHandleMetadata : Option Bool :=
  event.handleMetadata.map fun handleMetadata => handleMetadata.length > 0

def willStoreHandles : Option Bool := event.handles.map fun handles => handles.length > 0

def willStoreNftMetadata : Bool :=
  event.nftMetadata.length > 0 || event.cip67ByLabel.keys.length > 0

def willStoreStakeKeyRegistrations : Bool := event.stakeKeyRegistrations.length > 0

def willStoreStakePoolMetadataJob : Bool := event.stakePools.updates.length > 0

def willStoreStakePoolRewardsJob : Bool := event.crossEpochBoundary && event.epochNo ≠ 1

def willStoreUtxo : Bool := event.utxo.produced.length > 0 || event.utxo.consumed.length > 0

def willStoreBlockData : Bool :=
  (event.header.blockNo : ℤ) ≥ event.tip.blockNo - event.securityParameter

end WillStore

/-- The table of predicates; two stores have none. -/
def willStoreChecker : StoreName → Option (ProjectionEvent → Option Bool)
  | .storeAddresses => some (some ∘ willStoreAddresses)
  | .storeAssets => some (some ∘ willStoreAssets)
  | .storeGovernanceAction => some (some ∘ willStoreGovernanceAction)
  | .storeHandleMetadata => some willStoreHandleMetadata
  | .storeHandles => some willStoreHandles
  | .storeNftMetadata => some (some ∘ willStoreNftMetadata)
  | .storeStakeKeyRegistrations => some (some ∘ willStoreStakeKeyRegistrations)
  | .storeStakePoolMetadataJob => some (some ∘ willStoreStakePoolMetadataJob)
  | .storeStakePoolRewardsJob => some (some ∘ willStoreStakePoolRewardsJob)
  | .storeStakePools => some fun event => some (willStoreStakePools event.stakePools)
  | .storeUtxo => some (some ∘ willStoreUtxo)
  | .storeBlock | .storePoolMetricsUpdateJob => none

/-- `willStoreCheckers.some`, where a check may throw. -/
def someCheck (event : ProjectionEvent) : List (ProjectionEvent → Option Bool) → Option Bool
  | [] => some false
  | check :: checks => do if ← check event then return true else someCheck event checks

def willStore (stores : List StoreName) (event : ProjectionEvent) : Option Bool :=
  if event.eventType = .rollBackward ∨ willStoreBlockData event = true then some true
  else someCheck event (stores.filterMap willStoreChecker)

section Run

variable (eraSummaries : EraSummaries) (encode : List UInt8 → ℕ → List UInt8)
  (hasStakeCredential : PaymentAddress → Bool)

def stakePoolEvent (event : ProjectionEvent) : StakePoolEvent where
  slot := event.header.slot
  epochNo := event.epochNo
  crossEpochBoundary := event.crossEpochBoundary
  stakePools := event.stakePools

def ofDatabase {α : Type} : Except DatabaseError α → Except StoreError α
  | .ok a => .ok a
  | .error error => .error (.database error)

def ProjectionState.write (state : ProjectionState)
    (tables : Except DatabaseError ProjectionTables) : Except StoreError ProjectionState := do
  let tables ← ofDatabase tables
  return { state with tables }

def defined {α : Type} : Option α → Except StoreError α
  | some a => .ok a
  | none => .error .typeError

def runStore (event : ProjectionEvent) (state : ProjectionState) :
    StoreName → Except StoreError ProjectionState
  | .storeAddresses => .ok { state with tables := storeAddresses event state.tables }
  | .storeAssets => do
      let (database, mintedAssetTotalSupplies) ← ofDatabase (event.mint.foldlM
        (rollForwardMint event.header.slot) (state.tables.database, JsMap.empty))
      return { state with mintedAssetTotalSupplies, tables := { state.tables with database } }
  | .storeBlock => do
      let database ← ofDatabase (state.tables.database.insertBlock event.header)
      return { state with tables := { state.tables with database } }
  | .storeGovernanceAction => state.write (storeGovernanceAction event state.tables)
  | .storeHandleMetadata => do
      let handleMetadata ← defined event.handleMetadata
      state.write
        (storeHandleMetadata event handleMetadata state.storedProducedUtxo state.tables)
  | .storeHandles => do
      let handles ← defined event.handles
      -- the mapper of their metadata has the same policy ids
      state.write (storeHandles hasStakeCredential handles (event.handleMetadata.getD [])
        state.mintedAssetTotalSupplies state.tables)
  | .storeNftMetadata => state.write (storeNftMetadata encode event state.tables)
  | .storePoolMetricsUpdateJob =>
    let (poolMetricsUpdateJobs, jobs) :=
      storePoolMetricsUpdateJob 1000 100 event state.poolMetricsUpdateJobs state.jobs
    .ok { state with poolMetricsUpdateJobs, jobs }
  | .storeStakeKeyRegistrations => state.write (storeStakeKeyRegistrations event state.tables)
  | .storeStakePoolMetadataJob =>
    .ok { state with jobs := storeStakePoolMetadataJob event state.jobs }
  | .storeStakePoolRewardsJob =>
    .ok { state with jobs := storeStakePoolRewardsJob event state.jobs }
  | .storeStakePools => do
      let stakePools ← ofDatabase
        (rollForwardStakePools eraSummaries (stakePoolEvent event) state.tables.stakePools)
      return { state with tables := { state.tables with stakePools } }
  | .storeUtxo => do
      let (database, storedProducedUtxo) ← ofDatabase
        (rollForwardUtxo event.header.slot event.utxo state.tables.database)
      return { state with storedProducedUtxo, tables := { state.tables with database } }

def runStores (stores : List StoreName) (event : ProjectionEvent) (state : ProjectionState) :
    Except StoreError ProjectionState :=
  stores.foldlM (runStore eraSummaries encode hasStakeCredential event) state

end Run

variable {registered : List StoreName} {fuel : ℕ}

theorem nodup_registerStore (fuel : ℕ) (storeName : StoreName) (h : registered.Nodup) :
    (registerStore fuel storeName registered).Nodup := by
  induction fuel generalizing storeName registered with
  | zero => exact h
  | succ fuel ih =>
    rw [registerStore]
    split
    · exact h
    · rename_i hnew
      have hadded : (registered ++ [storeName]).Nodup := by
        refine List.nodup_append.mpr ⟨h, List.nodup_singleton _, ?_⟩
        intro a ha b hb heq
        rw [List.mem_singleton.mp hb] at heq
        exact hnew (heq ▸ ha)
      exact List.foldlRecOn (storeInterDependencies storeName) _ hadded
        fun _ hnodup dependency _ => ih dependency hnodup

variable {storeName : StoreName}

theorem mem_registerStore {other : StoreName}
    (h : other ∈ registerStore fuel storeName registered) :
    other ∈ registered ∨ other = storeName ∨ ∃ dependent, other ∈ storeInterDependencies dependent := by
  induction fuel generalizing storeName registered with
  | zero => exact Or.inl h
  | succ fuel ih =>
    rw [registerStore] at h
    split at h
    · exact Or.inl h
    · have hadded : other ∈ registered ++ [storeName] →
          other ∈ registered ∨ other = storeName ∨
            ∃ dependent, other ∈ storeInterDependencies dependent := by
        intro hmem
        rcases List.mem_append.mp hmem with hmem | hmem
        · exact Or.inl hmem
        · exact Or.inr (Or.inl (List.mem_singleton.mp hmem))
      refine List.foldlRecOn (motive := fun result => other ∈ result → _) _ _ hadded ?_ h
      intro result hresult dependency hdependency hmem
      rcases ih hmem with hold | rfl | hdependent
      · exact hresult hold
      · exact Or.inr (Or.inr ⟨storeName, hdependency⟩)
      · exact Or.inr (Or.inr hdependent)

/-- How many stores depend on one another below the store. -/
def dependencyDepth : StoreName → ℕ
  | .storeBlock | .storeStakeKeyRegistrations => 0
  | .storeAddresses | .storeAssets | .storeGovernanceAction | .storePoolMetricsUpdateJob
  | .storeStakePoolMetadataJob | .storeStakePoolRewardsJob | .storeStakePools => 1
  | .storeUtxo | .storeNftMetadata => 2
  | .storeHandleMetadata => 3
  | .storeHandles => 4

theorem dependencyDepth_lt {dependency : StoreName}
    (h : dependency ∈ storeInterDependencies storeName) :
    dependencyDepth dependency < dependencyDepth storeName := by
  have hall : ∀ dependency ∈ storeInterDependencies storeName,
      dependencyDepth dependency < dependencyDepth storeName := by
    cases storeName <;> decide
  exact hall dependency h

theorem dependencyDepth_lt_fuel (storeName : StoreName) :
    dependencyDepth storeName < dependencyFuel := by
  cases storeName <;> decide

structure Registers (storeNames registered result : List StoreName) : Prop where
  kept : ∀ storeName ∈ registered, storeName ∈ result
  added : ∀ storeName ∈ storeNames, storeName ∈ result
  closed : ∀ storeName ∈ result, storeName ∉ registered →
    ∀ dependency ∈ storeInterDependencies storeName, dependency ∈ result

theorem Registers.cons {storeName : StoreName} {storeNames registered middle result : List StoreName}
    (h : Registers [storeName] registered middle) (hrest : Registers storeNames middle result) :
    Registers (storeName :: storeNames) registered result where
  kept other hmem := hrest.kept other (h.kept other hmem)
  added other hmem := by
    rcases List.mem_cons.mp hmem with rfl | hmem
    · exact hrest.kept other (h.added other List.mem_cons_self)
    · exact hrest.added other hmem
  closed other hmem hnew dependency hdependency := by
    by_cases hmiddle : other ∈ middle
    · exact hrest.kept dependency (h.closed other hmiddle hnew dependency hdependency)
    · exact hrest.closed other hmem hmiddle dependency hdependency

theorem foldl_registers {register : StoreName → List StoreName → List StoreName}
    {storeNames : List StoreName}
    (h : ∀ storeName ∈ storeNames, ∀ registered,
      Registers [storeName] registered (register storeName registered))
    (registered : List StoreName) :
    Registers storeNames registered
      (storeNames.foldl (fun registered storeName => register storeName registered) registered) := by
  induction storeNames generalizing registered with
  | nil =>
    refine ⟨fun _ hmem => hmem, fun _ hmem => absurd hmem List.not_mem_nil, ?_⟩
    intro storeName hmem hnew
    exact absurd hmem hnew
  | cons storeName rest ih =>
    refine (h storeName List.mem_cons_self registered).cons (ih ?_ _)
    exact fun other hmem => h other (List.mem_cons_of_mem _ hmem)

theorem registerStore_registers (hfuel : dependencyDepth storeName < fuel)
    (registered : List StoreName) :
    Registers [storeName] registered (registerStore fuel storeName registered) := by
  induction fuel generalizing storeName registered with
  | zero => exact absurd hfuel (Nat.not_lt_zero _)
  | succ fuel ih =>
    rw [registerStore]
    split
    · rename_i hold
      refine ⟨fun _ hmem => hmem, ?_, fun _ hmem hnew => absurd hmem hnew⟩
      intro other hmem
      rw [List.mem_singleton.mp hmem]
      exact hold
    · have hdependencies := @foldl_registers (registerStore fuel)
        (storeInterDependencies storeName) (fun dependency hdependency registered =>
          ih ((dependencyDepth_lt hdependency).trans_le (Nat.le_of_lt_succ hfuel)) registered)
        (registered ++ [storeName])
      refine ⟨?_, ?_, ?_⟩
      · intro other hmem
        exact hdependencies.kept other (List.mem_append_left _ hmem)
      · intro other hmem
        exact hdependencies.kept other (List.mem_append_right _ hmem)
      · intro other hmem hnew dependency hdependency
        by_cases hother : other = storeName
        · subst hother
          exact hdependencies.added dependency hdependency
        · refine hdependencies.closed other hmem ?_ dependency hdependency
          rw [List.mem_append, List.mem_singleton]
          exact not_or.mpr ⟨hnew, hother⟩

theorem selectedStores_registers (projections : List ProjectionName) :
    Registers (projections.flatMap projectionStoreDependencies) [] (selectedStores projections) :=
  foldl_registers (fun storeName _ registered =>
    registerStore_registers (dependencyDepth_lt_fuel storeName) registered) []

theorem nodup_selectedStores (projections : List ProjectionName) :
    (selectedStores projections).Nodup :=
  List.foldlRecOn _ _ List.nodup_nil
    fun _ hnodup storeName _ => nodup_registerStore dependencyFuel storeName hnodup

theorem mem_selectedStores {projections : List ProjectionName}
    (h : storeName ∈ selectedStores projections) :
    (∃ projection ∈ projections, storeName ∈ projectionStoreDependencies projection) ∨
      ∃ dependent, storeName ∈ storeInterDependencies dependent := by
  refine List.foldlRecOn (motive := fun result => storeName ∈ result → _) _ _
    (fun hmem => absurd hmem List.not_mem_nil) ?_ h
  intro result hresult other hother hmem
  rcases mem_registerStore hmem with hold | rfl | hdependent
  · exact hresult hold
  · exact Or.inl (List.mem_flatMap.mp hother)
  · exact Or.inr hdependent

theorem mem_selectedStores_iff (hnone : ∀ dependent, storeName ∉ storeInterDependencies dependent)
    (projections : List ProjectionName) :
    storeName ∈ selectedStores projections ↔
      ∃ projection ∈ projections, storeName ∈ projectionStoreDependencies projection := by
  constructor
  · intro hmem
    rcases mem_selectedStores hmem with hprojection | ⟨dependent, hdependent⟩
    · exact hprojection
    · exact absurd hdependent (hnone dependent)
  · intro hprojection
    exact (selectedStores_registers projections).added _ (List.mem_flatMap.mpr hprojection)

theorem storeStakePools_selected_iff (projections : List ProjectionName) :
    .storeStakePools ∈ selectedStores projections ↔ .stakePool ∈ projections := by
  refine (mem_selectedStores_iff (fun dependent => by cases dependent <;> decide) _).trans ?_
  constructor
  · rintro ⟨projection, hprojection, hstore⟩
    cases projection with
    | stakePool => exact hprojection
    | _ => exact absurd hstore (by decide)
  · intro hprojection
    exact ⟨_, hprojection, List.mem_singleton_self _⟩

end CardanoSdk.Projection
