import CardanoSdk.Projection.PoolLedger

/-!
What `storeStakePools` makes of a single pool when it rolls forward.
-/

namespace CardanoSdk.Projection

open Lib Util
open TxConstruction (PoolId)

section OnePool

variable (eraSummaries : EraSummaries)

def activationDue (epochNo : ℕ) (tables : StakePoolTables) (poolId : PoolId)
    (pool : StakePoolEntity) : Bool :=
  2 ≤ epochNo && pool.status = .activating &&
    registeredWithin (computeCertificateIdRange (epochNo - 2) eraSummaries) .active
      (tables.registrationIds poolId) pool

def rolledStatus (crossEpochBoundary : Bool) (epochNo : ℕ) (tables : StakePoolTables)
    (poolId : PoolId) (pool : StakePoolEntity) : StakePoolStatus :=
  if !crossEpochBoundary then pool.status
  else if tables.retiringAt epochNo pool then .retired
  else if activationDue eraSummaries epochNo tables poolId pool then .active
  else pool.status

theorem rolledStatus_cases (crossEpochBoundary : Bool) (epochNo : ℕ) (tables : StakePoolTables)
    (poolId : PoolId) (pool : StakePoolEntity) :
    crossEpochBoundary = true ∧ tables.retiringAt epochNo pool = true ∧
        rolledStatus eraSummaries crossEpochBoundary epochNo tables poolId pool = .retired ∨
      pool.status = .activating ∧
        rolledStatus eraSummaries crossEpochBoundary epochNo tables poolId pool = .active ∨
      rolledStatus eraSummaries crossEpochBoundary epochNo tables poolId pool = pool.status := by
  rw [rolledStatus]
  cases crossEpochBoundary with
  | false => exact Or.inr (Or.inr rfl)
  | true =>
    rw [Bool.not_true, if_neg Bool.false_ne_true]
    split
    · rename_i hretire
      exact Or.inl ⟨rfl, hretire, rfl⟩
    · split
      · rename_i hdue
        simp only [activationDue, Bool.and_eq_true, decide_eq_true_eq] at hdue
        exact Or.inr (Or.inl ⟨hdue.1.2, rfl⟩)
      · exact Or.inr (Or.inr rfl)

theorem onRollover_poolRegistrations (crossEpochBoundary : Bool) (epochNo : ℕ)
    (tables : StakePoolTables) :
    (onRollover eraSummaries crossEpochBoundary epochNo tables).poolRegistrations =
      tables.poolRegistrations := by
  cases crossEpochBoundary with
  | false => rfl
  | true =>
    rw [onRollover, activateOnRollover, updatePoolStatusWhere]
    split
    · rfl
    · split <;> rfl

theorem onRollover_poolRetirements (crossEpochBoundary : Bool) (epochNo : ℕ)
    (tables : StakePoolTables) :
    (onRollover eraSummaries crossEpochBoundary epochNo tables).poolRetirements =
      tables.poolRetirements := by
  cases crossEpochBoundary with
  | false => rfl
  | true =>
    rw [onRollover, activateOnRollover, updatePoolStatusWhere]
    split
    · rfl
    · split <;> rfl

theorem get?_activateOnRollover (epochNo : ℕ) (tables : StakePoolTables) (poolId : PoolId) :
    (activateOnRollover eraSummaries true epochNo tables).stakePools.get? poolId =
      (tables.stakePools.get? poolId).map fun pool =>
        if activationDue eraSummaries epochNo tables poolId pool then
          { pool with status := .active }
        else pool := by
  rw [activateOnRollover, Bool.not_true, if_neg Bool.false_ne_true, updatePoolStatusWhere]
  split
  · rename_i hnegative
    have hepoch : ¬2 ≤ epochNo := by omega
    simp [activationDue, hepoch]
  · rename_i hnegative
    have hepoch : 2 ≤ epochNo := by omega
    have hbefore : ((epochNo : ℤ) - 2).toNat = epochNo - 2 := by omega
    rw [StakePoolTables.updatePools, JsMap.get?_updateWhere, hbefore]
    simp [activationDue, hepoch]

theorem get?_onRollover (crossEpochBoundary : Bool) (epochNo : ℕ) (tables : StakePoolTables)
    (poolId : PoolId) :
    (onRollover eraSummaries crossEpochBoundary epochNo tables).stakePools.get? poolId =
      (tables.stakePools.get? poolId).map fun pool =>
        { pool with
          status := rolledStatus eraSummaries crossEpochBoundary epochNo tables poolId pool } := by
  cases crossEpochBoundary with
  | false => exact (Option.map_id' (x := tables.stakePools.get? poolId)).symm
  | true =>
    have hrows := onRollover_poolRetirements eraSummaries true epochNo tables
    rw [onRollover, retireOnRollover, Bool.not_true, if_neg Bool.false_ne_true] at hrows ⊢
    rw [StakePoolTables.updatePools, JsMap.get?_updateWhere, get?_activateOnRollover,
      Option.map_map]
    apply congrFun (congrArg Option.map (funext fun pool => ?_))
    have hretiring : ∀ pool', pool'.lastRetirement = pool.lastRetirement →
        (activateOnRollover eraSummaries true epochNo tables).retiringAt epochNo pool' =
          tables.retiringAt epochNo pool := by
      intro pool' hsame
      rw [StakePoolTables.retiringAt, hsame]
      exact congrArg (fun rows : JsMap ℕ PoolRetirementEntity =>
        (pool.lastRetirement.bind rows.get?).any fun row => decide (row.retireAtEpoch = epochNo)) hrows
    by_cases hdue : activationDue eraSummaries epochNo tables poolId pool
    · by_cases hretire : tables.retiringAt epochNo pool <;>
        simp [rolledStatus, hdue, hretiring, hretire]
    · by_cases hretire : tables.retiringAt epochNo pool <;>
        simp [rolledStatus, hdue, hretiring, hretire]

end OnePool

theorem StakePoolEntity.reregistered_iff {pool : StakePoolEntity} :
    pool.reregistered = true ↔ ∃ registration retirement,
      pool.lastRegistration = some registration ∧ pool.lastRetirement = some retirement ∧
        retirement < registration := by
  obtain ⟨status, registration, retirement⟩ := pool
  cases registration with
  | none => simp [reregistered]
  | some registration =>
    cases retirement with
    | none => simp [reregistered]
    | some retirement => simp [reregistered]

namespace StakePools

variable (stakePools : StakePools) (poolId : PoolId)

def noteRegistration (pool : StakePoolEntity) : StakePoolEntity :=
  (stakePools.update? poolId).elim pool fun update =>
    { pool with lastRegistration := some (certificatePointerToId update.source) }

def noteRetirement (pool : StakePoolEntity) : StakePoolEntity :=
  (stakePools.retirement? poolId).elim pool fun retirement =>
    if pool.status ≠ .retired then
      { pool with
        lastRetirement := some (certificatePointerToId retirement.source)
        status := .retiring }
    else pool

def reactivate (pool : StakePoolEntity) : StakePoolEntity :=
  if stakePools.updates ≠ [] ∧ pool.status = .retired ∧ pool.reregistered = true then
    { pool with status := .activating }
  else pool

def store (pool : StakePoolEntity) : StakePoolEntity :=
  stakePools.reactivate (stakePools.noteRetirement poolId (stakePools.noteRegistration poolId pool))

variable {stakePools poolId}

theorem noteRegistration_lastRegistration (pool : StakePoolEntity) :
    (stakePools.noteRegistration poolId pool).lastRegistration =
      ((stakePools.update? poolId).map fun update => certificatePointerToId update.source).or
        pool.lastRegistration := by
  rw [noteRegistration]
  cases stakePools.update? poolId <;> rfl

theorem noteRegistration_rest (pool : StakePoolEntity) :
    (stakePools.noteRegistration poolId pool).status = pool.status ∧
      (stakePools.noteRegistration poolId pool).lastRetirement = pool.lastRetirement := by
  rw [noteRegistration]
  cases stakePools.update? poolId <;> exact ⟨rfl, rfl⟩

theorem reactivate_rest (pool : StakePoolEntity) :
    (stakePools.reactivate pool).lastRegistration = pool.lastRegistration ∧
      (stakePools.reactivate pool).lastRetirement = pool.lastRetirement := by
  rw [reactivate]
  split <;> exact ⟨rfl, rfl⟩

theorem store_lastRegistration (pool : StakePoolEntity) :
    (stakePools.store poolId pool).lastRegistration =
      ((stakePools.update? poolId).map fun update => certificatePointerToId update.source).or
        pool.lastRegistration := by
  rw [store, (reactivate_rest _).1, ← noteRegistration_lastRegistration, noteRetirement]
  cases stakePools.retirement? poolId with
  | none => rfl
  | some retirement =>
    rw [Option.elim_some]
    split <;> rfl

theorem store_of_not_retired {pool : StakePoolEntity} (h : pool.status ≠ .retired) :
    (stakePools.store poolId pool).lastRetirement =
        ((stakePools.retirement? poolId).map fun retirement =>
          certificatePointerToId retirement.source).or pool.lastRetirement ∧
      (stakePools.store poolId pool).status =
        if (stakePools.retirement? poolId).isSome then .retiring else pool.status := by
  obtain ⟨hstatus, hlast⟩ := @noteRegistration_rest stakePools poolId pool
  rw [store, (reactivate_rest _).2, noteRetirement]
  cases stakePools.retirement? poolId with
  | none =>
    rw [Option.elim_none, reactivate, if_neg fun hretired => h (hstatus ▸ hretired.2.1)]
    exact ⟨hlast, hstatus⟩
  | some retirement =>
    rw [Option.elim_some, if_pos (hstatus.symm ▸ h), reactivate,
      if_neg fun hretired => StakePoolStatus.noConfusion hretired.2.1]
    exact ⟨rfl, rfl⟩

theorem store_of_retired {pool : StakePoolEntity} (h : pool.status = .retired) :
    (stakePools.store poolId pool).lastRetirement = pool.lastRetirement ∧
      (stakePools.store poolId pool).status =
        if stakePools.updates ≠ [] ∧
          (stakePools.noteRegistration poolId pool).reregistered = true then .activating
        else .retired := by
  obtain ⟨hstatus, hlast⟩ := @noteRegistration_rest stakePools poolId pool
  have hretired := hstatus.trans h
  have hnote : stakePools.noteRetirement poolId (stakePools.noteRegistration poolId pool) =
      stakePools.noteRegistration poolId pool := by
    rw [noteRetirement]
    cases stakePools.retirement? poolId with
    | none => rfl
    | some retirement => exact if_neg fun hne => hne hretired
  rw [store, (reactivate_rest _).2, hnote, reactivate]
  refine ⟨hlast, ?_⟩
  by_cases hactive : stakePools.updates ≠ [] ∧
      (stakePools.noteRegistration poolId pool).reregistered = true
  · rw [if_pos hactive, if_pos ⟨hactive.1, hretired, hactive.2⟩]
  · rw [if_neg hactive, if_neg fun hboth => hactive ⟨hboth.1, hboth.2.2⟩]
    exact hretired

end StakePools

section OneBlock

variable {eraSummaries : EraSummaries}

theorem get?_insertMissingStakePools (stakePools : StakePools) (tables : StakePoolTables)
    (poolId : PoolId) :
    (insertMissingStakePools stakePools.updates tables).stakePools.get? poolId =
      (tables.stakePools.get? poolId).or
        ((stakePools.update? poolId).map fun _ => { status := .activating }) := by
  let missing := stakePools.updates.filter fun update =>
    !tables.stakePools.has update.poolParameters.id
  have hmissing : poolId ∈ missing.map (fun update => update.poolParameters.id) ↔
      tables.stakePools.get? poolId = none ∧ (stakePools.update? poolId).isSome = true := by
    simp only [missing, List.mem_map, List.mem_filter, StakePools.update?, List.find?_isSome,
      decide_eq_true_eq, JsMap.has, Bool.not_eq_true', Option.isSome_eq_false_iff,
      Option.isNone_iff_eq_none]
    constructor
    · rintro ⟨update, ⟨hmem, hnone⟩, rfl⟩
      exact ⟨hnone, update, hmem, rfl⟩
    · rintro ⟨hnone, update, hmem, rfl⟩
      exact ⟨update, ⟨hmem, hnone⟩, rfl⟩
  obtain ⟨hin, hout⟩ := JsMap.get?_foldl_set_const
    (fun update : PoolUpdate => update.poolParameters.id) { status := .activating } missing
    tables.stakePools poolId
  rw [hmissing] at hin hout
  rw [insertMissingStakePools]
  cases hpool : tables.stakePools.get? poolId with
  | some pool =>
    rw [Option.some_or, ← hpool]
    exact hout fun hnone => Option.some_ne_none _ (hpool.symm.trans hnone.1)
  | none =>
    cases hupdate : stakePools.update? poolId with
    | none =>
      rw [Option.map_none, Option.none_or, ← hpool]
      apply hout
      rw [hupdate]
      exact fun hsome => Bool.false_ne_true hsome.2
    | some update =>
      apply hin
      rw [hupdate]
      exact ⟨hpool, rfl⟩

theorem get?_updateLatestCertificates {stakePools : StakePools}
    (hupdates : (stakePools.updates.map fun update => update.poolParameters.id).Nodup)
    (hretirements : (stakePools.retirements.map PoolRetirement.poolId).Nodup)
    (tables : StakePoolTables) (poolId : PoolId) :
    (updateLatestCertificates stakePools tables).stakePools.get? poolId =
      (tables.stakePools.get? poolId).map fun pool =>
        stakePools.noteRetirement poolId (stakePools.noteRegistration poolId pool) := by
  have hregistered := @JsMap.get?_foldl_updateWhere _ _ _ _
    (fun update : PoolUpdate => update.poolParameters.id) (fun _ _ => true)
    (fun update pool =>
      { pool with lastRegistration := some (certificatePointerToId update.source) })
    stakePools.updates hupdates tables.stakePools poolId
  have hretired := fun pools => @JsMap.get?_foldl_updateWhere _ _ _ _
    PoolRetirement.poolId (fun _ pool => decide (pool.status ≠ .retired))
    (fun retirement (pool : StakePoolEntity) =>
      { pool with
        lastRetirement := some (certificatePointerToId retirement.source)
        status := .retiring })
    stakePools.retirements hretirements pools poolId
  simp only [Bool.and_true] at hregistered
  rw [updateLatestCertificates, hretired, hregistered, Option.map_map]
  apply congrFun (congrArg Option.map (funext fun pool => ?_))
  rw [Function.comp_apply, StakePools.noteRetirement, StakePools.noteRegistration,
    StakePools.update?, StakePools.retirement?]
  cases stakePools.retirements.find? fun retirement => decide (retirement.poolId = poolId) with
  | none => simp
  | some retirement => simp

theorem get?_reactivateRetired (stakePools : StakePools) (tables : StakePoolTables)
    (poolId : PoolId) :
    (reactivateRetired stakePools.updates tables).stakePools.get? poolId =
      (tables.stakePools.get? poolId).map stakePools.reactivate := by
  rw [reactivateRetired]
  split
  · rename_i hnone
    have hsame : stakePools.reactivate = id := by
      funext pool
      exact if_neg fun hsome => hsome.1 hnone
    rw [hsame, Option.map_id]
    rfl
  · rename_i hsome
    rw [StakePoolTables.updatePools, JsMap.get?_updateWhere]
    apply congrFun (congrArg Option.map (funext fun pool => ?_))
    simp only [StakePools.reactivate, ne_eq, hsome, not_false_eq_true, true_and, Bool.and_eq_true,
      decide_eq_true_eq]

variable {tables : StakePoolTables}

theorem insertCertificates_ok {ν : Type} {poolOf : ν → PoolId} {table result : JsMap ℕ ν}
    {rows : List (ℕ × ν)} (h : insertCertificates poolOf tables table rows = .ok result) :
    (∀ row ∈ rows, tables.stakePools.has (poolOf row.2) = true) ∧
      table.insertRows rows = some result := by
  rw [insertCertificates] at h
  split at h
  · rename_i hall
    refine ⟨List.all_eq_true.mp hall, ?_⟩
    cases hrows : table.insertRows rows with
    | none =>
      rw [hrows] at h
      cases h
    | some result' =>
      rw [hrows] at h
      cases h
      rfl
  · cases h

variable {slot : ℕ} {result : StakePoolTables}

theorem insertPoolUpdates_ok {updates : List PoolUpdate}
    (h : insertPoolUpdates slot updates tables = .ok result) :
    result.stakePools = tables.stakePools ∧ result.poolRetirements = tables.poolRetirements ∧
      tables.poolRegistrations.insertRows (updates.map (poolRegistrationRow slot)) =
        some result.poolRegistrations := by
  obtain ⟨poolRegistrations, hinsert, h⟩ := bind_ok h
  cases h
  exact ⟨rfl, rfl, (insertCertificates_ok hinsert).2⟩

theorem insertPoolRetirements_ok {retirements : List PoolRetirement}
    (h : insertPoolRetirements slot retirements tables = .ok result) :
    result.stakePools = tables.stakePools ∧ result.poolRegistrations = tables.poolRegistrations ∧
      tables.poolRetirements.insertRows (retirements.map (poolRetirementRow slot)) =
        some result.poolRetirements ∧
      ∀ retirement ∈ retirements, tables.stakePools.has retirement.poolId = true := by
  obtain ⟨poolRetirements, hinsert, h⟩ := bind_ok h
  cases h
  obtain ⟨hhas, hrows⟩ := insertCertificates_ok hinsert
  refine ⟨rfl, rfl, hrows, ?_⟩
  intro retirement hmem
  exact hhas _ (List.mem_map_of_mem hmem)

theorem reactivateRetired_rows (updates : List PoolUpdate) (tables : StakePoolTables) :
    (reactivateRetired updates tables).poolRegistrations = tables.poolRegistrations ∧
      (reactivateRetired updates tables).poolRetirements = tables.poolRetirements := by
  rw [reactivateRetired]
  split <;> exact ⟨rfl, rfl⟩

def foundPool (eraSummaries : EraSummaries) (evt : StakePoolEvent) (tables : StakePoolTables)
    (poolId : PoolId) : Option StakePoolEntity :=
  ((tables.stakePools.get? poolId).map fun pool =>
    { pool with
      status := rolledStatus eraSummaries evt.crossEpochBoundary evt.epochNo tables poolId pool }).or
    ((evt.stakePools.update? poolId).map fun _ => { status := .activating })

structure RolledForward (eraSummaries : EraSummaries) (evt : StakePoolEvent)
    (tables next : StakePoolTables) : Prop where
  registrations : tables.poolRegistrations.insertRows
    (evt.stakePools.updates.map (poolRegistrationRow evt.slot)) = some next.poolRegistrations
  retirements : tables.poolRetirements.insertRows
    (evt.stakePools.retirements.map (poolRetirementRow evt.slot)) = some next.poolRetirements
  pools : ∀ poolId, next.stakePools.get? poolId =
    (foundPool eraSummaries evt tables poolId).map (evt.stakePools.store poolId)
  retirementPool : ∀ retirement ∈ evt.stakePools.retirements,
    (next.stakePools.get? retirement.poolId).isSome = true

theorem get?_found (eraSummaries : EraSummaries) (evt : StakePoolEvent) (tables : StakePoolTables)
    (poolId : PoolId) :
    (insertMissingStakePools evt.stakePools.updates
      (onRollover eraSummaries evt.crossEpochBoundary evt.epochNo tables)).stakePools.get? poolId =
      foundPool eraSummaries evt tables poolId := by
  rw [get?_insertMissingStakePools, get?_onRollover]
  rfl

theorem rolledForward {evt : StakePoolEvent} {next : StakePoolTables}
    {block : Block PoolCertificate} (hdescribe : evt.stakePools.Describe block)
    (h : rollForwardStakePools eraSummaries evt tables = .ok next) :
    RolledForward eraSummaries evt tables next := by
  obtain ⟨registered, hregistered, h⟩ := bind_ok h
  obtain ⟨retired, hretired, h⟩ := bind_ok h
  cases h
  obtain ⟨hpools, hrows, hregistrations⟩ := insertPoolUpdates_ok hregistered
  obtain ⟨hpools', hrows', hretirements, hhas⟩ := insertPoolRetirements_ok hretired
  rw [hrows, insertMissingStakePools, onRollover_poolRetirements] at hretirements
  rw [insertMissingStakePools, onRollover_poolRegistrations] at hregistrations
  obtain ⟨hnext, hnext'⟩ := reactivateRetired_rows evt.stakePools.updates
    (updateLatestCertificates evt.stakePools retired)
  have hfound : ∀ poolId, registered.stakePools.get? poolId =
      foundPool eraSummaries evt tables poolId := by
    intro poolId
    rw [hpools]
    exact get?_found eraSummaries evt tables poolId
  have hstored : ∀ poolId, (reactivateRetired evt.stakePools.updates
      (updateLatestCertificates evt.stakePools retired)).stakePools.get? poolId =
        (foundPool eraSummaries evt tables poolId).map (evt.stakePools.store poolId) := by
    intro poolId
    rw [get?_reactivateRetired, get?_updateLatestCertificates hdescribe.updates_nodup
      hdescribe.retirements_nodup, hpools', hfound, Option.map_map]
    rfl
  constructor
  · rw [hnext, hregistrations, ← hrows']
    rfl
  · rw [hnext', hretirements]
    rfl
  · exact hstored
  · intro retirement hmem
    rw [hstored, Option.isSome_map, ← hfound]
    exact hhas retirement hmem

end OneBlock

end CardanoSdk.Projection
