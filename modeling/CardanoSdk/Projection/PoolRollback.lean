import CardanoSdk.Projection.PoolRetirement

/-!
Rolling a block back after it has been stored. A rollback event crosses a boundary if it
takes back the last block of an epoch; the rest is reconstructed from the certificates
that are left, which do not say all of what the pools were.
-/

namespace CardanoSdk.Projection

open Lib Util
open TxConstruction (PoolId)

variable {eraSummaries : EraSummaries}

structure PoolView where
  pool : Option StakePoolEntity
  registrationIds : List ℕ
  retirementIds : List ℕ

def StakePoolTables.view (tables : StakePoolTables) (poolId : PoolId) : PoolView where
  pool := tables.stakePools.get? poolId
  registrationIds := tables.registrationIds poolId
  retirementIds := tables.retirementIds poolId

def PoolView.undoRegistration (view : PoolView) : PoolView :=
  match truthy view.registrationIds.max? with
  | some lastRegistrationId =>
    { view with
      pool := view.pool.map fun pool =>
        { pool with lastRegistration := some lastRegistrationId } }
  | none => { pool := none, registrationIds := [], retirementIds := [] }

def epochStartId (eraSummaries : EraSummaries) (epochNo : ℕ) : ℕ :=
  (computeCertificateIdRange epochNo eraSummaries).minId

def PoolView.undoRetirement (epochStartId : ℕ) (view : PoolView) : PoolView :=
  match truthy view.registrationIds.min? with
  | none => view
  | some firstRegistrationId =>
    { view with
      pool := view.pool.map fun pool =>
        { pool with
          lastRetirement := view.retirementIds.max?.or pool.lastRetirement
          status := statusBefore epochStartId firstRegistrationId view.registrationIds.max?
            view.retirementIds.max? } }

theorem view_updatePools (tables : StakePoolTables) (id : PoolId)
    (change : StakePoolEntity → StakePoolEntity) (poolId : PoolId) :
    (tables.updatePools (fun poolId _ => poolId = id) change).view poolId =
      if id = poolId then
        { tables.view poolId with pool := (tables.view poolId).pool.map change }
      else tables.view poolId := by
  by_cases heq : id = poolId
  · subst heq
    simp only [StakePoolTables.view, StakePoolTables.updatePools, JsMap.get?_updateWhere,
      decide_true, if_true]
    rfl
  · simp only [StakePoolTables.view, StakePoolTables.updatePools, JsMap.get?_updateWhere,
      decide_eq_true_eq, Ne.symm heq, heq, if_false, Option.map_id']
    rfl

theorem view_deletePool (tables : StakePoolTables) (id poolId : PoolId) :
    (tables.deletePool id).view poolId =
      if id = poolId then { pool := none, registrationIds := [], retirementIds := [] }
      else tables.view poolId := by
  by_cases heq : id = poolId
  · subst heq
    simp only [StakePoolTables.view, StakePoolTables.deletePool, JsMap.get?_delete, if_true,
      StakePoolTables.registrationIds, StakePoolTables.retirementIds, JsMap.keysWhere_filter_ne]
  · simp only [StakePoolTables.view, StakePoolTables.deletePool, JsMap.get?_delete,
      Ne.symm heq, heq, if_false, StakePoolTables.registrationIds, StakePoolTables.retirementIds,
      JsMap.keysWhere_filter_ne]

theorem view_undoUpdateLatestRegistration (tables : StakePoolTables) (update : PoolUpdate)
    (poolId : PoolId) :
    (undoUpdateLatestRegistration tables update).view poolId =
      if update.poolParameters.id = poolId then (tables.view poolId).undoRegistration
      else tables.view poolId := by
  have hids : (tables.view poolId).registrationIds = tables.registrationIds poolId := rfl
  rw [undoUpdateLatestRegistration, PoolView.undoRegistration, hids]
  by_cases heq : update.poolParameters.id = poolId
  · subst heq
    rw [if_pos rfl]
    cases truthy (tables.registrationIds update.poolParameters.id).max? with
    | some lastRegistrationId =>
      refine (view_updatePools _ _ _ _).trans ?_
      exact if_pos rfl
    | none =>
      refine (view_deletePool _ _ _).trans ?_
      exact if_pos rfl
  · rw [if_neg heq]
    cases truthy (tables.registrationIds update.poolParameters.id).max? with
    | some lastRegistrationId =>
      refine (view_updatePools _ _ _ _).trans ?_
      exact if_neg heq
    | none =>
      refine (view_deletePool _ _ _).trans ?_
      exact if_neg heq

theorem view_undoUpdateLatestRetirement (epochNo : ℕ) (tables : StakePoolTables)
    (retirement : PoolRetirement) (poolId : PoolId) :
    (undoUpdateLatestRetirementAndRetiringStatus eraSummaries epochNo tables retirement).view poolId =
      if retirement.poolId = poolId then
        (tables.view poolId).undoRetirement (epochStartId eraSummaries epochNo)
      else tables.view poolId := by
  have hids : (tables.view poolId).registrationIds = tables.registrationIds poolId := rfl
  rw [undoUpdateLatestRetirementAndRetiringStatus, PoolView.undoRetirement, hids]
  by_cases heq : retirement.poolId = poolId
  · subst heq
    rw [if_pos rfl]
    cases truthy (tables.registrationIds retirement.poolId).min? with
    | none => rfl
    | some firstRegistrationId =>
      refine (view_updatePools _ _ _ _).trans ?_
      exact if_pos rfl
  · rw [if_neg heq]
    cases truthy (tables.registrationIds retirement.poolId).min? with
    | none => rfl
    | some firstRegistrationId =>
      refine (view_updatePools _ _ _ _).trans ?_
      exact if_neg heq

def PoolView.undoCertificates (view : PoolView) (epochStartId : ℕ) (stakePools : StakePools)
    (poolId : PoolId) : PoolView :=
  let registered := if (stakePools.update? poolId).isSome then view.undoRegistration else view
  if (stakePools.retirement? poolId).isSome then registered.undoRetirement epochStartId
  else registered

theorem view_rollBackward {evt : StakePoolEvent} {block : Block PoolCertificate}
    (hdescribe : evt.stakePools.Describe block) (tables : StakePoolTables) (poolId : PoolId) :
    (rollBackwardStakePools eraSummaries evt tables).view poolId =
      ((undoOnRollover eraSummaries evt.crossEpochBoundary evt.epochNo tables).view
        poolId).undoCertificates (epochStartId eraSummaries evt.epochNo) evt.stakePools poolId := by
  rw [rollBackwardStakePools, foldl_view (view_undoUpdateLatestRetirement evt.epochNo)
    hdescribe.retirements_nodup, foldl_view view_undoUpdateLatestRegistration
    hdescribe.updates_nodup]
  rfl

def firstRegisteredBefore (eraSummaries : EraSummaries) (epochNo : ℕ) (registrationIds : List ℕ) :
    Bool :=
  1 ≤ epochNo && registrationIds.any fun id =>
    (computeCertificateIdRange (epochNo - 1) eraSummaries).contains id &&
      registrationIds.all fun id' => !(id' < id)

def undoneStatus (eraSummaries : EraSummaries) (crossEpochBoundary : Bool) (epochNo : ℕ)
    (tables : StakePoolTables) (poolId : PoolId) (pool : StakePoolEntity) : StakePoolStatus :=
  if !crossEpochBoundary then pool.status
  else if tables.retiringAt (epochNo + 1) pool then .retiring
  else if pool.status = .active ∧
      firstRegisteredBefore eraSummaries epochNo (tables.registrationIds poolId) = true then .activating
  else pool.status

theorem undoOnRollover_rows (crossEpochBoundary : Bool) (epochNo : ℕ) (tables : StakePoolTables) :
    (undoOnRollover eraSummaries crossEpochBoundary epochNo tables).poolRegistrations =
        tables.poolRegistrations ∧
      (undoOnRollover eraSummaries crossEpochBoundary epochNo tables).poolRetirements =
        tables.poolRetirements := by
  cases crossEpochBoundary with
  | false => exact ⟨rfl, rfl⟩
  | true =>
    rw [undoOnRollover, undoActivateOnRollover, updatePoolStatusWhere]
    split
    · exact ⟨rfl, rfl⟩
    · split <;> exact ⟨rfl, rfl⟩

theorem get?_undoActivateOnRollover (epochNo : ℕ) (tables : StakePoolTables) (poolId : PoolId) :
    (undoActivateOnRollover eraSummaries true epochNo tables).stakePools.get? poolId =
      (tables.stakePools.get? poolId).map fun pool =>
        if pool.status = .active ∧
            firstRegisteredBefore eraSummaries epochNo (tables.registrationIds poolId) = true then
          { pool with status := .activating }
        else pool := by
  rw [undoActivateOnRollover, Bool.not_true, if_neg Bool.false_ne_true, updatePoolStatusWhere]
  split
  · rename_i hnegative
    have hepoch : ¬1 ≤ epochNo := by omega
    simp [firstRegisteredBefore, hepoch]
  · rename_i hnegative
    have hepoch : 1 ≤ epochNo := by omega
    have hbefore : ((epochNo : ℤ) - 1).toNat = epochNo - 1 := by omega
    rw [StakePoolTables.updatePools, JsMap.get?_updateWhere, hbefore]
    simp [firstRegisteredBefore, registeredWithin, hepoch]

theorem get?_undoOnRollover (crossEpochBoundary : Bool) (epochNo : ℕ) (tables : StakePoolTables)
    (poolId : PoolId) :
    (undoOnRollover eraSummaries crossEpochBoundary epochNo tables).stakePools.get? poolId =
      (tables.stakePools.get? poolId).map fun pool =>
        { pool with
          status := undoneStatus eraSummaries crossEpochBoundary epochNo tables poolId pool } := by
  cases crossEpochBoundary with
  | false => exact (Option.map_id' (x := tables.stakePools.get? poolId)).symm
  | true =>
    have hrows := (@undoOnRollover_rows eraSummaries true epochNo tables).2
    rw [undoOnRollover, undoRetireOnRollover, Bool.not_true, if_neg Bool.false_ne_true] at hrows ⊢
    rw [StakePoolTables.updatePools, JsMap.get?_updateWhere, get?_undoActivateOnRollover,
      Option.map_map]
    apply congrFun (congrArg Option.map (funext fun pool => ?_))
    have hretiring : ∀ pool', pool'.lastRetirement = pool.lastRetirement →
        (undoActivateOnRollover eraSummaries true epochNo tables).retiringAt (epochNo + 1) pool' =
          tables.retiringAt (epochNo + 1) pool := by
      intro pool' hsame
      rw [StakePoolTables.retiringAt, hsame]
      exact congrArg (fun rows : JsMap ℕ PoolRetirementEntity =>
        (pool.lastRetirement.bind rows.get?).any fun row =>
          decide (row.retireAtEpoch = epochNo + 1)) hrows
    by_cases hfirst : pool.status = .active ∧
        firstRegisteredBefore eraSummaries epochNo (tables.registrationIds poolId) = true
    · by_cases hretire : tables.retiringAt (epochNo + 1) pool <;>
        simp [undoneStatus, hfirst, hretiring, hretire]
    · by_cases hretire : tables.retiringAt (epochNo + 1) pool <;>
        simp [undoneStatus, hfirst, hretiring, hretire]

section Deleted

variable {evt : StakePoolEvent} {chain : List (Block PoolCertificate)}
  {block : Block PoolCertificate} {tables next : StakePoolTables}

/-- The tables that a rollback of the block starts from: where it takes back the last
block of an epoch, the boundary to the next one has been crossed. -/
def rollbackStart (eraSummaries : EraSummaries) (undone : Bool) (evt : StakePoolEvent)
    (next : StakePoolTables) : StakePoolTables :=
  (onRollover eraSummaries undone (evt.epochNo + 1) next).deleteBlock evt.slot

theorem rollbackStart_rows (h : Follow eraSummaries chain tables)
    (hevt : TellsOf eraSummaries evt chain block)
    (hnext : RolledForward eraSummaries evt tables next) (undone : Bool) :
    (rollbackStart eraSummaries undone evt next).poolRegistrations = tables.poolRegistrations ∧
      (rollbackStart eraSummaries undone evt next).poolRetirements = tables.poolRetirements := by
  have hslot : ∀ slot, (∃ earlier ∈ chain, earlier.header.slot = slot) → slot ≠ evt.slot := by
    rintro slot ⟨earlier, hmem, rfl⟩
    rw [hevt.slot]
    exact (hevt.valid.later earlier hmem).ne
  constructor
  · change ((onRollover eraSummaries undone (evt.epochNo + 1) next).poolRegistrations.filter
      fun _ row => row.blockSlot ≠ evt.slot) = _
    rw [onRollover_poolRegistrations]
    refine JsMap.filter_insertRows hnext.registrations ?_ ?_
    · intro id row hrow
      exact decide_eq_true (hslot _ (h.registrationSlot id row hrow).2)
    · intro entry hmem
      obtain ⟨update, _, rfl⟩ := List.mem_map.mp hmem
      exact decide_eq_false fun hne => hne rfl
  · change ((onRollover eraSummaries undone (evt.epochNo + 1) next).poolRetirements.filter
      fun _ row => row.blockSlot ≠ evt.slot) = _
    rw [onRollover_poolRetirements]
    refine JsMap.filter_insertRows hnext.retirements ?_ ?_
    · intro id row hrow
      exact decide_eq_true (hslot _ (h.retirementSlot id row hrow).2)
    · intro entry hmem
      obtain ⟨retirement, _, rfl⟩ := List.mem_map.mp hmem
      exact decide_eq_false fun hne => hne rfl

theorem get?_rollbackStart (h : Follow eraSummaries chain tables)
    (hevt : TellsOf eraSummaries evt chain block)
    (hnext : RolledForward eraSummaries evt tables next) (undone : Bool) (poolId : PoolId) :
    (rollbackStart eraSummaries undone evt next).stakePools.get? poolId =
      (next.stakePools.get? poolId).map fun pool =>
        { status := rolledStatus eraSummaries undone (evt.epochNo + 1) next poolId pool
          lastRegistration := pool.lastRegistration.filter tables.poolRegistrations.has
          lastRetirement := pool.lastRetirement.filter tables.poolRetirements.has } := by
  obtain ⟨hregistrations, hretirements⟩ := rollbackStart_rows h hevt hnext undone
  rw [rollbackStart, StakePoolTables.deleteBlock] at hregistrations hretirements
  rw [rollbackStart, StakePoolTables.deleteBlock]
  simp only at hregistrations hretirements
  rw [JsMap.get?_mapValues, hregistrations, hretirements, get?_onRollover, Option.map_map]
  rfl

variable {poolId : PoolId} {before : StakePoolEntity}

theorem lastRegistration_deleted (h : Follow eraSummaries chain tables)
    (hevt : TellsOf eraSummaries evt chain block)
    (hbefore : tables.stakePools.get? poolId = some before) (status : StakePoolStatus) :
    (evt.stakePools.store poolId { before with status }).lastRegistration.filter
        tables.poolRegistrations.has =
      if (evt.stakePools.update? poolId).isSome then none else before.lastRegistration := by
  rw [StakePools.store_lastRegistration]
  cases hupdate : evt.stakePools.update? poolId with
  | some update =>
    rw [Option.map_some, Option.some_or, Option.isSome_some, if_pos rfl, Option.filter_eq_none_iff]
    intro id hid hhas
    cases hid
    obtain ⟨row, hrow⟩ := Option.isSome_iff_exists.mp hhas
    have hmem := (StakePools.mem_of_update? hupdate).1
    exact Nat.lt_irrefl _ (hevt.lt_id (h.registrationSlot _ row hrow) (hevt.slotOfId_update hmem))
  | none =>
    obtain ⟨id, hlast, hmax⟩ := h.lastRegistration poolId before hbefore
    obtain ⟨row, hrow, _⟩ := JsMap.mem_keysWhere.mp (List.max?_mem hmax)
    rw [Option.map_none, Option.none_or, Option.isSome_none, if_neg Bool.false_ne_true]
    change before.lastRegistration.filter _ = _
    rw [hlast, Option.filter_some, if_pos]
    rw [JsMap.has, hrow]
    rfl

theorem lastRetirement_deleted (h : Follow eraSummaries chain tables)
    (hevt : TellsOf eraSummaries evt chain block)
    (hbefore : tables.stakePools.get? poolId = some before) (status : StakePoolStatus) :
    (evt.stakePools.store poolId { before with status }).lastRetirement.filter
        tables.poolRetirements.has =
      if status ≠ .retired ∧ (evt.stakePools.retirement? poolId).isSome = true then none
      else before.lastRetirement := by
  have hkept : before.lastRetirement.filter tables.poolRetirements.has = before.lastRetirement := by
    cases hlast : before.lastRetirement with
    | none => rfl
    | some id =>
      obtain ⟨row, hrow, _⟩ := h.lastRetirement poolId before id hbefore hlast
      rw [Option.filter_some, if_pos]
      rw [JsMap.has, hrow]
      rfl
  by_cases hstatus : status = .retired
  · rw [(@StakePools.store_of_retired evt.stakePools poolId { before with status } hstatus).1,
      if_neg fun hboth => hboth.1 hstatus]
    exact hkept
  · rw [(@StakePools.store_of_not_retired evt.stakePools poolId { before with status } hstatus).1]
    cases hretirement : evt.stakePools.retirement? poolId with
    | some retirement =>
      rw [Option.map_some, Option.some_or, if_pos ⟨hstatus, rfl⟩, Option.filter_eq_none_iff]
      intro id hid hhas
      cases hid
      obtain ⟨row, hrow⟩ := Option.isSome_iff_exists.mp hhas
      have hmem := (StakePools.mem_of_retirement? hretirement).1
      exact Nat.lt_irrefl _
        (hevt.lt_id (h.retirementSlot _ row hrow) (hevt.slotOfId_retirement hmem))
    | none =>
      rw [Option.map_none, Option.none_or, if_neg fun hboth => Bool.false_ne_true hboth.2]
      exact hkept

end Deleted

def StaysRetired (stakePools : StakePools) (poolId : PoolId) (pool : StakePoolEntity) : Prop :=
  pool.status = .retired → stakePools.updates ≠ [] →
    stakePools.update? poolId = none ∧ pool.reregistered = false

/-- The next boundary activates the pool only if it is registered for the first time in
the epoch before, and then it is not active yet. -/
def BoundaryUndone (eraSummaries : EraSummaries) (epochNo : ℕ) (tables : StakePoolTables)
    (poolId : PoolId) (pool : StakePoolEntity) : Prop :=
  (activationDue eraSummaries (epochNo + 1) tables poolId pool = true →
    firstRegisteredBefore eraSummaries epochNo (tables.registrationIds poolId) = true) ∧
  (pool.status = .active →
    firstRegisteredBefore eraSummaries epochNo (tables.registrationIds poolId) = false)

def certifiedStatus (epochStartId : ℕ) (registrationIds : List ℕ) (pool : StakePoolEntity) :
    StakePoolStatus :=
  if pool.lastRetirement.isSome then
    if pool.reregistered then .active else .retiring
  else if registrationIds.all fun id => epochStartId < id then .activating
  else .active

/-- The last retirement of the pool is the one with the greatest id, and its status is
as its certificates say. -/
def ReadOffCertificates (eraSummaries : EraSummaries) (epochNo : ℕ) (tables : StakePoolTables)
    (poolId : PoolId) (pool : StakePoolEntity) : Prop :=
  pool.lastRetirement = (tables.retirementIds poolId).max? ∧
    pool.status =
      certifiedStatus (epochStartId eraSummaries epochNo) (tables.registrationIds poolId) pool

/-- What a pool has to be before the certificates of the block for them to be taken
back. An id of zero, of the first certificate of a chain, is overlooked. -/
structure Recoverable (eraSummaries : EraSummaries) (undone : Bool) (evt : StakePoolEvent)
    (tables : StakePoolTables) (poolId : PoolId) (pool : StakePoolEntity) : Prop where
  registered : (evt.stakePools.update? poolId).isSome = true →
    (tables.registrationIds poolId).max? ≠ some 0
  retirement : (evt.stakePools.retirement? poolId).isSome = true →
    (tables.registrationIds poolId).min? ≠ some 0 →
      ReadOffCertificates eraSummaries evt.epochNo tables poolId pool
  overlooked : (evt.stakePools.retirement? poolId).isSome = true →
    (tables.registrationIds poolId).min? = some 0 → pool.status = .retired
  kept : (evt.stakePools.retirement? poolId).isSome = false ∨
      (tables.registrationIds poolId).min? = some 0 →
    StaysRetired evt.stakePools poolId pool ∧
      (undone = true → BoundaryUndone eraSummaries evt.epochNo tables poolId pool)

section Recovered

variable {evt : StakePoolEvent} {chain : List (Block PoolCertificate)}
  {block : Block PoolCertificate} {tables next : StakePoolTables} {poolId : PoolId}

variable {epochNo : ℕ} {pool : StakePoolEntity}

theorem TellsOf.not_contains (heras : ValidEras eraSummaries.1)
    (hevt : TellsOf eraSummaries evt chain block) {id : ℕ} (hid : slotOfId id = block.header.slot)
    (hearlier : epochNo < evt.epochNo) :
    (computeCertificateIdRange epochNo eraSummaries).contains id = false := by
  have hslots : epochSlotsCalcImplementation (epochNo + 1) epochNo eraSummaries.1 =
      some (epochSlotsCalc epochNo eraSummaries) := (Option.some_get _).symm
  have hlast := lastSlot_lt heras hevt.valid.epoch hearlier (Nat.lt_succ_self epochNo) hslots
  rw [slotOfId] at hid
  have hmax : (computeCertificateIdRange epochNo eraSummaries).maxId =
      (epochSlotsCalc epochNo eraSummaries).lastSlot * 10000000000 + 99999 * 10000 + 9999 := rfl
  rw [CertificateIdRange.contains, Bool.and_eq_false_iff, decide_eq_false_iff_not,
    decide_eq_false_iff_not, hmax]
  right
  omega

theorem activationDue_next (heras : ValidEras eraSummaries.1)
    (hevt : TellsOf eraSummaries evt chain block)
    (hnext : RolledForward eraSummaries evt tables next) {pool pool' : StakePoolEntity}
    (hstatus : pool'.status = pool.status) (hsame : pool'.lastRetirement = pool.lastRetirement) :
    activationDue eraSummaries (evt.epochNo + 1) next poolId pool' =
      activationDue eraSummaries (evt.epochNo + 1) tables poolId pool := by
  rw [activationDue, activationDue, hstatus]
  by_cases hepoch : 2 ≤ evt.epochNo + 1
  · apply congrArg
    rw [Bool.eq_iff_iff]
    simp only [registeredWithin, if_true, hsame, List.any_eq_true]
    constructor
    · rintro ⟨id, hid, hcontains⟩
      rcases hnext.mem_registrationIds.mp hid with hold | ⟨update, hmem, _, hnew⟩
      · exact ⟨id, hold, hcontains⟩
      · have hnot := hevt.not_contains heras (hnew ▸ hevt.slotOfId_update hmem)
          (show evt.epochNo + 1 - 2 < evt.epochNo by omega)
        rw [hnot] at hcontains
        exact absurd hcontains Bool.false_ne_true
    · rintro ⟨id, hid, hcontains⟩
      exact ⟨id, hnext.mem_registrationIds.mpr (Or.inl hid), hcontains⟩
  · simp [hepoch]

variable {before : StakePoolEntity}

/-- A pool that is pending at the next boundary is retiring, by the block as before. -/
theorem retiring_of_pending (heras : ValidEras eraSummaries.1)
    (h : Follow eraSummaries chain tables) (hevt : TellsOf eraSummaries evt chain block)
    (hbefore : tables.stakePools.get? poolId = some before)
    (hretiring : tables.retiringAt (evt.epochNo + 1) before = true) :
    rolledStatus eraSummaries evt.crossEpochBoundary evt.epochNo tables poolId before = .retiring := by
  have hpending : before.status = .retiring := by
    refine h.pending poolId before (evt.epochNo + 1) hbefore hretiring ?_
    intro earlier hmem epoch hepoch
    exact Nat.lt_succ_of_le (hevt.epoch_le heras (List.mem_cons_of_mem _ hmem) hepoch)
  rcases rolledStatus_cases eraSummaries evt.crossEpochBoundary evt.epochNo tables poolId before
    with ⟨_, hnow, _⟩ | ⟨hactivating, _⟩ | hrolled
  · exact absurd (retiringAt_unique hnow hretiring) (Nat.succ_ne_self _).symm
  · rw [hpending] at hactivating
    cases hactivating
  · exact hrolled.trans hpending

/-- The status of a pool after the next boundary has been crossed and undone. -/
def settledStatus (eraSummaries : EraSummaries) (undone : Bool) (epochNo : ℕ)
    (tables : StakePoolTables) (poolId : PoolId) (pool : StakePoolEntity) : StakePoolStatus :=
  if !undone then pool.status
  else if tables.retiringAt (epochNo + 1) pool then .retiring
  else if activationDue eraSummaries (epochNo + 1) tables poolId pool ∨ pool.status = .active then
    if firstRegisteredBefore eraSummaries epochNo (tables.registrationIds poolId) then .activating
    else .active
  else pool.status

theorem undoneStatus_rollbackStart (heras : ValidEras eraSummaries.1)
    (h : Follow eraSummaries chain tables) (hevt : TellsOf eraSummaries evt chain block)
    (hnext : RolledForward eraSummaries evt tables next) (undone : Bool) {pool' : StakePoolEntity}
    (hbefore : tables.stakePools.get? poolId = some before)
    (hsame : pool.lastRetirement = before.lastRetirement)
    (hstatus : pool'.status = rolledStatus eraSummaries undone (evt.epochNo + 1) next poolId pool)
    (hsame' : pool'.lastRetirement = before.lastRetirement) :
    undoneStatus eraSummaries undone evt.epochNo (rollbackStart eraSummaries undone evt next) poolId
        pool' =
      settledStatus eraSummaries undone evt.epochNo tables poolId { before with status := pool.status } := by
  rw [undoneStatus, settledStatus, hstatus, rolledStatus]
  cases undone with
  | false => rfl
  | true =>
    obtain ⟨hregistrations, hretirements⟩ := rollbackStart_rows h hevt hnext true
    have hids : (rollbackStart eraSummaries true evt next).registrationIds poolId =
        tables.registrationIds poolId := by
      rw [StakePoolTables.registrationIds, hregistrations]
      rfl
    have hstart : (rollbackStart eraSummaries true evt next).retiringAt (evt.epochNo + 1) pool' =
        tables.retiringAt (evt.epochNo + 1) before := by
      rw [StakePoolTables.retiringAt, hretirements, hsame']
      rfl
    have hcrossed := h.retiringAt_next hnext hbefore hsame (evt.epochNo + 1)
    have hdue := @activationDue_next _ _ _ _ _ _ poolId heras hevt hnext
      { before with status := pool.status } pool rfl hsame
    have hkept : tables.retiringAt (evt.epochNo + 1) { before with status := pool.status } =
        tables.retiringAt (evt.epochNo + 1) before := rfl
    rw [hids, hstart, hcrossed, hdue, hkept]
    by_cases hretiring : tables.retiringAt (evt.epochNo + 1) before = true
    · simp [hretiring]
    · by_cases hactive : activationDue eraSummaries (evt.epochNo + 1) tables poolId
          { before with status := pool.status } = true
      · by_cases hfirst : firstRegisteredBefore eraSummaries evt.epochNo
            (tables.registrationIds poolId) = true <;> simp [hretiring, hactive, hfirst]
      · by_cases hstatus : pool.status = .active
        · by_cases hfirst : firstRegisteredBefore eraSummaries evt.epochNo
              (tables.registrationIds poolId) = true <;>
            simp [hretiring, hfirst, hstatus]
        · simp [hretiring, hactive, hstatus]

theorem settledStatus_iff (undone : Bool) {epochNo : ℕ} {pool : StakePoolEntity}
    (hpending : tables.retiringAt (epochNo + 1) pool = true → pool.status = .retiring) :
    settledStatus eraSummaries undone epochNo tables poolId pool = pool.status ↔
      (undone = true → BoundaryUndone eraSummaries epochNo tables poolId pool) := by
  cases undone with
  | false => exact iff_of_true rfl (fun hfalse => absurd hfalse Bool.false_ne_true)
  | true =>
    rw [settledStatus, Bool.not_true, if_neg Bool.false_ne_true, BoundaryUndone]
    have hactivating : activationDue eraSummaries (epochNo + 1) tables poolId pool = true →
        pool.status = .activating := by
      intro hdue
      simp only [activationDue, Bool.and_eq_true, decide_eq_true_eq] at hdue
      exact hdue.1.2
    by_cases hretiring : tables.retiringAt (epochNo + 1) pool = true
    · have hstatus := hpending hretiring
      rw [if_pos hretiring, hstatus]
      refine iff_of_true rfl fun _ => ⟨?_, ?_⟩
      · intro hdue
        rw [hstatus] at hactivating
        cases hactivating hdue
      · intro hactive
        cases hactive
    · rw [if_neg hretiring]
      by_cases hdue : activationDue eraSummaries (epochNo + 1) tables poolId pool = true
      · rw [if_pos (Or.inl hdue), hactivating hdue]
        cases hfirst : firstRegisteredBefore eraSummaries epochNo (tables.registrationIds poolId) <;>
          simp [hdue]
      · by_cases hactive : pool.status = .active
        · rw [if_pos (Or.inr hactive), hactive]
          cases hfirst : firstRegisteredBefore eraSummaries epochNo
            (tables.registrationIds poolId) <;> simp [hdue]
        · rw [if_neg (not_or.mpr ⟨hdue, hactive⟩)]
          simp [hdue, hactive]

theorem settledStatus_ne_retired (undone : Bool) (hstatus : pool.status ≠ .retired) :
    settledStatus eraSummaries undone epochNo tables poolId pool ≠ .retired := by
  rw [settledStatus]
  split
  · exact hstatus
  · split
    · exact fun heq => StakePoolStatus.noConfusion heq
    · split
      · split <;> exact fun heq => StakePoolStatus.noConfusion heq
      · exact hstatus

theorem rolled_retired_noted (h : Follow eraSummaries chain tables)
    (hbefore : tables.stakePools.get? poolId = some before)
    (hretired : rolledStatus eraSummaries evt.crossEpochBoundary evt.epochNo tables poolId before =
      .retired) : before.lastRetirement ≠ none := by
  rcases rolledStatus_cases eraSummaries evt.crossEpochBoundary evt.epochNo tables poolId before
    with ⟨_, hretiring, _⟩ | ⟨_, hactive⟩ | hrolled
  · exact retiringAt_lastRetirement hretiring
  · exact StakePoolStatus.noConfusion (hactive.symm.trans hretired)
  · exact h.noted poolId before hbefore (Or.inr (hrolled.symm.trans hretired))

theorem status_kept_iff (heras : ValidEras eraSummaries.1) (h : Follow eraSummaries chain tables)
    (hevt : TellsOf eraSummaries evt chain block) (undone : Bool) {before : StakePoolEntity}
    (hbefore : tables.stakePools.get? poolId = some before) {status : StakePoolStatus}
    (hrolled : rolledStatus eraSummaries evt.crossEpochBoundary evt.epochNo tables poolId before =
      status)
    (hnone : status ≠ .retired → evt.stakePools.retirement? poolId = none) :
    settledStatus eraSummaries undone evt.epochNo tables poolId { before with
        status := (evt.stakePools.store poolId { before with status }).status } = status ↔
      StaysRetired evt.stakePools poolId { before with status } ∧
        (undone = true →
          BoundaryUndone eraSummaries evt.epochNo tables poolId { before with status }) := by
  have hpending : tables.retiringAt (evt.epochNo + 1) before = true → status = .retiring := by
    intro hretiring
    exact hrolled.symm.trans (retiring_of_pending heras h hevt hbefore hretiring)
  have hsettled := @settledStatus_iff eraSummaries tables poolId undone evt.epochNo
    { before with status } hpending
  by_cases hretired : status = .retired
  · have hstore := (@StakePools.store_of_retired evt.stakePools poolId { before with status }
      hretired).2
    obtain ⟨id, hid⟩ := Option.ne_none_iff_exists'.mp
      (rolled_retired_noted h hbefore (hrolled.trans hretired))
    by_cases hrevived : evt.stakePools.updates ≠ [] ∧
        (evt.stakePools.noteRegistration poolId { before with status }).reregistered = true
    · rw [if_pos hrevived] at hstore
      rw [hstore]
      apply iff_of_false
      · intro heq
        refine settledStatus_ne_retired undone ?_ (heq.trans hretired)
        exact fun heq => StakePoolStatus.noConfusion heq
      · rintro ⟨hstays, _⟩
        obtain ⟨hnoUpdate, hfirst⟩ := hstays hretired hrevived.1
        have hagain := hrevived.2
        rw [StakePools.noteRegistration, hnoUpdate, Option.elim_none, hfirst] at hagain
        exact Bool.false_ne_true hagain
    · rw [if_neg hrevived, ← hretired] at hstore
      rw [hstore, hsettled, iff_and_self]
      intro _ _ hupdates
      have hfirst := not_and.mp hrevived hupdates
      cases hupdate : evt.stakePools.update? poolId with
      | some update => exact absurd (reregistered_of_update h hevt hbefore hid hupdate status) hfirst
      | none =>
        rw [StakePools.noteRegistration, hupdate, Option.elim_none, Bool.not_eq_true] at hfirst
        exact ⟨rfl, hfirst⟩
  · have hstore := (@StakePools.store_of_not_retired evt.stakePools poolId { before with status }
      hretired).2
    rw [hnone hretired, Option.isSome_none, if_neg Bool.false_ne_true] at hstore
    rw [hstore, hsettled, iff_and_self]
    intro _ hstatus
    exact absurd hstatus hretired

end Recovered

section Left

variable {view : PoolView} {pool : StakePoolEntity} {last first : ℕ}

theorem truthy_some {id : ℕ} (hne : id ≠ 0) : truthy (some id) = some id :=
  if_pos (decide_eq_true hne)

theorem PoolView.undoRegistration_zero (hlast : view.registrationIds.max? = some 0) :
    view.undoRegistration = { pool := none, registrationIds := [], retirementIds := [] } := by
  rw [undoRegistration, hlast]
  rfl

theorem PoolView.undoRegistration_some (hlast : view.registrationIds.max? = some last)
    (hne : last ≠ 0) (hpool : view.pool = some pool) :
    view.undoRegistration = { view with
      pool := some { pool with lastRegistration := some last } } := by
  rw [undoRegistration, hlast, truthy_some hne, hpool]
  rfl

theorem PoolView.undoRetirement_zero (startId : ℕ) (hfirst : view.registrationIds.min? = some 0) :
    view.undoRetirement startId = view := by
  rw [undoRetirement, hfirst]
  rfl

theorem PoolView.undoRetirement_none (startId : ℕ) (hnone : view.registrationIds = []) :
    view.undoRetirement startId = view := by
  rw [undoRetirement, hnone]
  rfl

theorem PoolView.undoRetirement_some (startId : ℕ) (hfirst : view.registrationIds.min? = some first)
    (hne : first ≠ 0) (hpool : view.pool = some pool) :
    view.undoRetirement startId = { view with
      pool := some { pool with
        lastRetirement := view.retirementIds.max?.or pool.lastRetirement
        status := statusBefore startId first view.registrationIds.max? view.retirementIds.max? } } := by
  rw [undoRetirement, hfirst, truthy_some hne, hpool]
  rfl

variable {stakePools : StakePools} {poolId : PoolId}

theorem PoolView.undoCertificates_deleted (startId : ℕ)
    (hupdate : (stakePools.update? poolId).isSome = true)
    (hlast : view.registrationIds.max? = some 0) :
    (view.undoCertificates startId stakePools poolId).pool = none := by
  rw [undoCertificates, if_pos hupdate, undoRegistration_zero hlast]
  split
  · rw [undoRetirement_none startId rfl]
  · rfl

theorem PoolView.undoCertificates_some (startId : ℕ) (hpool : view.pool = some pool)
    (hlast : view.registrationIds.max? = some last)
    (hupdate : (stakePools.update? poolId).isSome = true → last ≠ 0)
    (hkept : (stakePools.update? poolId).isSome = false → pool.lastRegistration = some last) :
    view.undoCertificates startId stakePools poolId =
      let registered := { view with pool := some { pool with lastRegistration := some last } }
      if (stakePools.retirement? poolId).isSome then registered.undoRetirement startId
      else registered := by
  rw [undoCertificates]
  cases hsome : (stakePools.update? poolId).isSome with
  | true => rw [if_pos rfl, undoRegistration_some hlast (hupdate hsome) hpool]
  | false =>
    have hsame : view = { view with pool := some { pool with lastRegistration := some last } } := by
      obtain ⟨status, lastRegistration, lastRetirement⟩ := pool
      cases hkept hsome
      rw [← hpool]
    rw [if_neg Bool.false_ne_true, ← hsame]

theorem PoolView.undoCertificates_new (startId : ℕ) (hids : view.registrationIds = [])
    (hpool : stakePools.update? poolId = none → view.pool = none) :
    (view.undoCertificates startId stakePools poolId).pool = none := by
  have hgone : view.undoRegistration =
      { pool := none, registrationIds := [], retirementIds := [] } := by
    rw [undoRegistration, hids]
    rfl
  rw [undoCertificates]
  cases hupdate : stakePools.update? poolId with
  | some update =>
    rw [Option.isSome_some, if_pos rfl, hgone]
    split
    · rw [undoRetirement_none startId rfl]
    · rfl
  | none =>
    rw [Option.isSome_none, if_neg Bool.false_ne_true]
    split
    · rw [undoRetirement_none startId hids, hpool hupdate]
    · exact hpool hupdate

end Left

section Restored

variable {evt : StakePoolEvent} {chain : List (Block PoolCertificate)}
  {block : Block PoolCertificate} {tables next : StakePoolTables} {poolId : PoolId}

def rolledBack (eraSummaries : EraSummaries) (undone : Bool) (evt : StakePoolEvent)
    (next : StakePoolTables) : StakePoolTables :=
  rollBackwardStakePools eraSummaries { evt with crossEpochBoundary := undone }
    (rollbackStart eraSummaries undone evt next)

/-- A pool that was there before the block, when only the certificates are still to be
undone: what is seen of it and its row, if the boundary left it with the status. -/
structure BeforeUndoing (eraSummaries : EraSummaries) (undone : Bool) (evt : StakePoolEvent)
    (tables : StakePoolTables) (poolId : PoolId) (before : StakePoolEntity)
    (status : StakePoolStatus) (view : PoolView) (pool : StakePoolEntity) : Prop where
  isPool : view.pool = some pool
  registrationIds : view.registrationIds = tables.registrationIds poolId
  retirementIds : view.retirementIds = tables.retirementIds poolId
  lastRegistration : pool.lastRegistration =
    if (evt.stakePools.update? poolId).isSome then none else before.lastRegistration
  lastRetirement : pool.lastRetirement =
    if status ≠ .retired ∧ (evt.stakePools.retirement? poolId).isSome = true then none
    else before.lastRetirement
  kept : ¬(status ≠ .retired ∧ (evt.stakePools.retirement? poolId).isSome = true) →
    pool.status = settledStatus eraSummaries undone evt.epochNo tables poolId { before with
      status := (evt.stakePools.store poolId { before with status }).status }
  noted : status ≠ .retired ∧ (evt.stakePools.retirement? poolId).isSome = true →
    pool.status = .retiring ∨ pool.status = .retired

variable {before : StakePoolEntity}

variable {status : StakePoolStatus}

theorem beforeUndoing (heras : ValidEras eraSummaries.1) (h : Follow eraSummaries chain tables)
    (hevt : TellsOf eraSummaries evt chain block)
    (hnext : RolledForward eraSummaries evt tables next) (undone : Bool)
    (hbefore : tables.stakePools.get? poolId = some before)
    (hrolled : rolledStatus eraSummaries evt.crossEpochBoundary evt.epochNo tables poolId before =
      status) :
    ∃ pool, BeforeUndoing eraSummaries undone evt tables poolId before status
      ((undoOnRollover eraSummaries undone evt.epochNo
        (rollbackStart eraSummaries undone evt next)).view poolId) pool := by
  obtain ⟨hregistrations, hretirements⟩ := rollbackStart_rows h hevt hnext undone
  obtain ⟨hregistrations', hretirements'⟩ := @undoOnRollover_rows eraSummaries undone evt.epochNo
    (rollbackStart eraSummaries undone evt next)
  let stored := evt.stakePools.store poolId { before with status }
  let start : StakePoolEntity :=
    { status := rolledStatus eraSummaries undone (evt.epochNo + 1) next poolId stored
      lastRegistration := stored.lastRegistration.filter tables.poolRegistrations.has
      lastRetirement := stored.lastRetirement.filter tables.poolRetirements.has }
  have hfound : foundPool eraSummaries evt tables poolId = some { before with status } := by
    rw [foundPool, hbefore, ← hrolled]
    rfl
  have hstart : (rollbackStart eraSummaries undone evt next).stakePools.get? poolId = some start := by
    rw [get?_rollbackStart h hevt hnext, hnext.pools, hfound]
    rfl
  have hlast : start.lastRetirement = _ := lastRetirement_deleted h hevt hbefore status
  refine ⟨{ start with
    status := undoneStatus eraSummaries undone evt.epochNo
      (rollbackStart eraSummaries undone evt next) poolId start }, ?_⟩
  constructor
  · change (undoOnRollover _ _ _ _).stakePools.get? poolId = _
    rw [get?_undoOnRollover, hstart]
    rfl
  · change (undoOnRollover _ _ _ _).registrationIds poolId = _
    rw [StakePoolTables.registrationIds, hregistrations', hregistrations]
    rfl
  · change (undoOnRollover _ _ _ _).retirementIds poolId = _
    rw [StakePoolTables.retirementIds, hretirements', hretirements]
    rfl
  · exact lastRegistration_deleted h hevt hbefore status
  · exact hlast
  · intro hnot
    rw [if_neg hnot] at hlast
    have hsame : stored.lastRetirement = before.lastRetirement := by
      by_cases hstatus : status = .retired
      · exact (@StakePools.store_of_retired evt.stakePools poolId { before with status } hstatus).1
      · have hnone : evt.stakePools.retirement? poolId = none := by
          cases hretirement : evt.stakePools.retirement? poolId with
          | none => rfl
          | some retirement => exact absurd ⟨hstatus, hretirement ▸ rfl⟩ hnot
        have hstored := (@StakePools.store_of_not_retired evt.stakePools poolId
          { before with status } hstatus).1
        rwa [hnone] at hstored
    exact undoneStatus_rollbackStart heras h hevt hnext undone hbefore hsame rfl hlast
  · intro hnoted
    rw [if_pos hnoted] at hlast
    -- the boundary can only retire it, and that is not undone without its last retirement
    have hretiring : stored.status = .retiring := by
      have hstored := (@StakePools.store_of_not_retired evt.stakePools poolId
        { before with status } hnoted.1).2
      rwa [if_pos hnoted.2] at hstored
    have hcrossed : start.status = .retiring ∨ start.status = .retired := by
      rcases rolledStatus_cases eraSummaries undone (evt.epochNo + 1) next poolId stored
        with ⟨_, _, hretired⟩ | ⟨hactivating, _⟩ | hkept
      · exact Or.inr hretired
      · exact StakePoolStatus.noConfusion (hretiring.symm.trans hactivating)
      · exact Or.inl (hkept.trans hretiring)
    have hnotPending : (rollbackStart eraSummaries undone evt next).retiringAt (evt.epochNo + 1)
        start = false := by
      rw [StakePoolTables.retiringAt, hlast]
      rfl
    have hnotActive : start.status ≠ .active := by
      intro hactive
      rcases hcrossed with hcrossed | hcrossed
      · exact StakePoolStatus.noConfusion (hactive.symm.trans hcrossed)
      · exact StakePoolStatus.noConfusion (hactive.symm.trans hcrossed)
    have hundone : undoneStatus eraSummaries undone evt.epochNo
        (rollbackStart eraSummaries undone evt next) poolId start = start.status := by
      rw [undoneStatus, hnotPending]
      split
      · rfl
      · rw [if_neg Bool.false_ne_true, if_neg fun hboth => hnotActive hboth.1]
    change undoneStatus _ _ _ _ _ _ = _ ∨ undoneStatus _ _ _ _ _ _ = _
    rw [hundone]
    exact hcrossed

theorem view_rolledBack (hevt : TellsOf eraSummaries evt chain block) (undone : Bool)
    (next : StakePoolTables) (poolId : PoolId) :
    (rolledBack eraSummaries undone evt next).view poolId =
      ((undoOnRollover eraSummaries undone evt.epochNo
        (rollbackStart eraSummaries undone evt next)).view poolId).undoCertificates
          (epochStartId eraSummaries evt.epochNo) evt.stakePools poolId :=
  @view_rollBackward eraSummaries { evt with crossEpochBoundary := undone } block hevt.describe _
    poolId

theorem statusBefore_ne_retired (startId first : ℕ) (last lastRetirement : Option ℕ) :
    statusBefore startId first last lastRetirement ≠ .retired := by
  unfold statusBefore
  split
  · split <;> exact fun heq => StakePoolStatus.noConfusion heq
  · split <;> exact fun heq => StakePoolStatus.noConfusion heq

theorem statusBefore_eq_certifiedStatus (startId : ℕ) {registrationIds : List ℕ} {first last : ℕ}
    {pool : StakePoolEntity} (hfirst : registrationIds.min? = some first)
    (hlast : pool.lastRegistration = some last) :
    statusBefore startId first (some last) pool.lastRetirement =
      certifiedStatus startId registrationIds pool := by
  rw [certifiedStatus]
  cases hretirement : pool.lastRetirement with
  | none =>
    have hiff : first > startId ↔ registrationIds.all (fun id => decide (startId < id)) = true := by
      rw [List.all_eq_true]
      constructor
      · intro hlater id hmem
        have hle : first ≤ id := (List.min?_eq_some_iff.mp hfirst).2 id hmem
        exact decide_eq_true (hlater.trans_le hle)
      · intro hall
        exact of_decide_eq_true (hall first (List.min?_mem hfirst))
    rw [statusBefore, Option.isSome_none, if_neg Bool.false_ne_true]
    exact if_congr hiff rfl rfl
  | some lastRetirement =>
    rw [statusBefore, Option.isSome_some, if_pos rfl, StakePoolEntity.reregistered, hlast,
      hretirement]
    rfl

theorem StakePoolEntity.some_eq_iff {last : ℕ} (hlast : before.lastRegistration = some last)
    (status status' : StakePoolStatus) (lastRetirement : Option ℕ) :
    some ({ status := status', lastRegistration := some last, lastRetirement } : StakePoolEntity) =
        some { before with status } ↔
      lastRetirement = before.lastRetirement ∧ status' = status := by
  rw [Option.some_inj, StakePoolEntity.mk.injEq, hlast]
  constructor
  · rintro ⟨hstatus, _, hretirement⟩
    exact ⟨hretirement, hstatus⟩
  · rintro ⟨hretirement, hstatus⟩
    exact ⟨hstatus, rfl, hretirement⟩

theorem pool_restored_iff (heras : ValidEras eraSummaries.1)
    (h : Follow eraSummaries chain tables) (hevt : TellsOf eraSummaries evt chain block)
    (hnext : RolledForward eraSummaries evt tables next) (undone : Bool)
    (hbefore : tables.stakePools.get? poolId = some before)
    (hrolled : rolledStatus eraSummaries evt.crossEpochBoundary evt.epochNo tables poolId before =
      status) :
    (rolledBack eraSummaries undone evt next).stakePools.get? poolId =
        some { before with status } ↔
      Recoverable eraSummaries undone evt tables poolId { before with status } := by
  obtain ⟨pool, hleft⟩ := beforeUndoing heras h hevt hnext undone hbefore hrolled
  obtain ⟨last, hbeforeLast, hlast⟩ := h.lastRegistration poolId before hbefore
  have hne : tables.registrationIds poolId ≠ [] := List.ne_nil_of_mem (List.max?_mem hlast)
  obtain ⟨first, hfirst⟩ := Option.isSome_iff_exists.mp (List.isSome_min?_of_ne_nil hne)
  have hkeptIff := fun hnone => @status_kept_iff _ _ _ _ _ poolId heras h hevt undone before hbefore
    status hrolled hnone
  have hview := congrArg PoolView.pool (view_rolledBack hevt undone next poolId)
  change (rolledBack eraSummaries undone evt next).stakePools.get? poolId = _ at hview
  rw [hview]
  generalize (undoOnRollover eraSummaries undone evt.epochNo
    (rollbackStart eraSummaries undone evt next)).view poolId = view at hleft
  have hviewLast : view.registrationIds.max? = some last := hleft.registrationIds ▸ hlast
  have hviewFirst : view.registrationIds.min? = some first := hleft.registrationIds ▸ hfirst
  by_cases hdeleted : (evt.stakePools.update? poolId).isSome = true ∧ last = 0
  · obtain ⟨hupdate, rfl⟩ := hdeleted
    rw [PoolView.undoCertificates_deleted _ hupdate hviewLast]
    refine iff_of_false (fun heq => by cases heq) ?_
    intro hrecoverable
    exact hrecoverable.registered hupdate hlast
  have hregistered : (evt.stakePools.update? poolId).isSome = true → last ≠ 0 := not_and.mp hdeleted
  have hsame : (evt.stakePools.update? poolId).isSome = false →
      pool.lastRegistration = some last := by
    intro hnone
    rw [hleft.lastRegistration, hnone, if_neg Bool.false_ne_true, hbeforeLast]
  rw [PoolView.undoCertificates_some _ hleft.isPool hviewLast hregistered hsame]
  have hregistered' : (evt.stakePools.update? poolId).isSome = true →
      (tables.registrationIds poolId).max? ≠ some 0 := by
    intro hupdate hzero
    exact hregistered hupdate (Option.some.inj (hlast.symm.trans hzero))
  -- where no retirement was noted, only the status is in question
  have hunnoted : ¬(status ≠ .retired ∧ (evt.stakePools.retirement? poolId).isSome = true) →
      (some ({ pool with lastRegistration := some last } : StakePoolEntity) =
          some { before with status } ↔
        StaysRetired evt.stakePools poolId { before with status } ∧ (undone = true →
          BoundaryUndone eraSummaries evt.epochNo tables poolId { before with status })) := by
    intro hnot
    have hlastRetirement := hleft.lastRetirement
    rw [if_neg hnot] at hlastRetirement
    rw [StakePoolEntity.some_eq_iff hbeforeLast, and_iff_right hlastRetirement, hleft.kept hnot]
    apply hkeptIff
    intro hstatus
    cases hretirement : evt.stakePools.retirement? poolId with
    | none => rfl
    | some retirement => exact absurd ⟨hstatus, hretirement ▸ rfl⟩ hnot
  cases hretirement : (evt.stakePools.retirement? poolId).isSome with
  | false =>
    rw [hretirement] at hunnoted
    rw [if_neg Bool.false_ne_true]
    refine (hunnoted fun hboth => Bool.false_ne_true hboth.2).trans ?_
    constructor
    · intro hkept
      exact ⟨hregistered', fun hsome => absurd (hretirement.symm.trans hsome) Bool.false_ne_true,
        fun hsome => absurd (hretirement.symm.trans hsome) Bool.false_ne_true, fun _ => hkept⟩
    · intro hrecoverable
      exact hrecoverable.kept (Or.inl hretirement)
  | true =>
    rw [if_pos rfl]
    by_cases hzero : first = 0
    · subst hzero
      have hkeptView := @PoolView.undoRetirement_zero
        { view with pool := some { pool with lastRegistration := some last } }
        (epochStartId eraSummaries evt.epochNo) hviewFirst
      rw [hkeptView]
      by_cases hstatus : status = .retired
      · refine (hunnoted fun hboth => hboth.1 hstatus).trans ?_
        constructor
        · intro hkept
          exact ⟨hregistered', fun _ hfirst' => absurd hfirst hfirst', fun _ _ => hstatus,
            fun _ => hkept⟩
        · intro hrecoverable
          exact hrecoverable.kept (Or.inr hfirst)
      · apply iff_of_false
        · intro heq
          obtain ⟨hlastRetirement, hsameStatus⟩ :=
            (StakePoolEntity.some_eq_iff hbeforeLast _ _ _).mp heq
          have hgone := hleft.lastRetirement
          rw [if_pos ⟨hstatus, hretirement⟩] at hgone
          -- the pool came retiring to the block, so it had noted a retirement
          have hnone : before.lastRetirement = none := hlastRetirement.symm.trans hgone
          rcases hleft.noted ⟨hstatus, hretirement⟩ with hretiring | hretired
          · have hretiring' := hrolled.trans (hsameStatus.symm.trans hretiring)
            rcases rolledStatus_cases eraSummaries evt.crossEpochBoundary evt.epochNo tables
              poolId before with ⟨_, _, hretired⟩ | ⟨_, hactive⟩ | hkept
            · exact StakePoolStatus.noConfusion (hretired.symm.trans hretiring')
            · exact StakePoolStatus.noConfusion (hactive.symm.trans hretiring')
            · exact h.noted poolId before hbefore (Or.inl (hkept.symm.trans hretiring')) hnone
          · exact hstatus (hsameStatus.symm.trans hretired)
        · intro hrecoverable
          exact hstatus (hrecoverable.overlooked hretirement hfirst)
    · have hfirst' : (tables.registrationIds poolId).min? ≠ some 0 := by
        intro heq
        exact hzero (Option.some.inj (hfirst.symm.trans heq))
      have hundone := @PoolView.undoRetirement_some
        { view with pool := some { pool with lastRegistration := some last } }
        { pool with lastRegistration := some last } first
        (epochStartId eraSummaries evt.epochNo) hviewFirst hzero rfl
      rw [hundone]
      simp only
      rw [StakePoolEntity.some_eq_iff hbeforeLast, hleft.retirementIds, hleft.registrationIds]
      rw [hlast]
      have hread := @statusBefore_eq_certifiedStatus (epochStartId eraSummaries evt.epochNo)
        _ _ _ { before with status } hfirst hbeforeLast
      by_cases hstatus : status = .retired
      · apply iff_of_false
        · rintro ⟨_, hsameStatus⟩
          exact statusBefore_ne_retired _ _ _ _ (hsameStatus.trans hstatus)
        · intro hrecoverable
          obtain ⟨_, hsameStatus⟩ := hrecoverable.retirement hretirement hfirst'
          rw [← hread] at hsameStatus
          exact statusBefore_ne_retired _ _ _ _ (hsameStatus.symm.trans hstatus)
      · have hgone := hleft.lastRetirement
        rw [if_pos ⟨hstatus, hretirement⟩] at hgone
        rw [hgone, Option.or_none]
        constructor
        · rintro ⟨hlastRetirement, hsameStatus⟩
          refine ⟨hregistered', fun _ _ => ⟨hlastRetirement.symm, ?_⟩,
            fun _ hzero' => absurd hzero' hfirst', ?_⟩
          · rw [hlastRetirement] at hsameStatus
            exact hsameStatus.symm.trans hread
          · intro hkept
            rcases hkept with hnone | hzero'
            · exact absurd (hnone.symm.trans hretirement) Bool.false_ne_true
            · exact absurd hzero' hfirst'
        · intro hrecoverable
          obtain ⟨hlastRetirement, hsameStatus⟩ :=
            hrecoverable.retirement hretirement hfirst'
          rw [← hread, hlastRetirement] at hsameStatus
          exact ⟨hlastRetirement.symm, hsameStatus.symm⟩

theorem pool_deleted (h : Follow eraSummaries chain tables)
    (hevt : TellsOf eraSummaries evt chain block)
    (hnext : RolledForward eraSummaries evt tables next) (undone : Bool)
    (hnone : tables.stakePools.get? poolId = none) :
    (rolledBack eraSummaries undone evt next).stakePools.get? poolId = none := by
  have hids : tables.registrationIds poolId = [] := by
    rw [List.eq_nil_iff_forall_not_mem]
    intro id hmem
    obtain ⟨row, hrow, hpool⟩ := JsMap.mem_keysWhere.mp hmem
    have hsome := h.registrationPool id row hrow
    rw [of_decide_eq_true hpool, hnone] at hsome
    exact Bool.false_ne_true hsome
  obtain ⟨hregistrations, _⟩ := rollbackStart_rows h hevt hnext undone
  obtain ⟨hregistrations', _⟩ := @undoOnRollover_rows eraSummaries undone evt.epochNo
    (rollbackStart eraSummaries undone evt next)
  have hview := congrArg PoolView.pool (view_rolledBack hevt undone next poolId)
  change (rolledBack eraSummaries undone evt next).stakePools.get? poolId = _ at hview
  rw [hview]
  apply PoolView.undoCertificates_new
  · change (undoOnRollover _ _ _ _).registrationIds poolId = _
    rw [StakePoolTables.registrationIds, hregistrations', hregistrations]
    exact hids
  · intro hupdate
    change (undoOnRollover _ _ _ _).stakePools.get? poolId = _
    rw [get?_undoOnRollover, get?_rollbackStart h hevt hnext, hnext.pools, foundPool, hnone, hupdate]
    rfl

/-- Rolling a block back restores the pools, as the boundary of the block left them,
exactly if each of them is one that can be recovered. -/
theorem rollBackward_restores_iff (heras : ValidEras eraSummaries.1)
    (hvalid : ValidChain eraSummaries.1 (block :: chain))
    (hchain : RollsForward eraSummaries chain tables)
    (hevent : mapBlock eraSummaries chain block = .ok evt)
    (hstore : rollForwardStakePools eraSummaries evt tables = .ok next) (undone : Bool) :
    (∀ poolId, (rolledBack eraSummaries undone evt next).stakePools.get? poolId =
      (onRollover eraSummaries evt.crossEpochBoundary evt.epochNo tables).stakePools.get? poolId) ↔
    ∀ poolId pool,
      (onRollover eraSummaries evt.crossEpochBoundary evt.epochNo tables).stakePools.get? poolId =
        some pool → Recoverable eraSummaries undone evt tables poolId pool := by
  obtain ⟨hvalidChain, epochNo, hblock⟩ := hvalid
  have hevt := tellsOf hblock hevent
  have hfollow := rollsForward_follow hvalidChain hchain
  have hnext := rolledForward hevt.describe hstore
  apply forall_congr'
  intro poolId
  rw [get?_onRollover]
  cases hbefore : tables.stakePools.get? poolId with
  | none =>
    refine iff_of_true (pool_deleted hfollow hevt hnext undone hbefore) ?_
    intro pool hpool
    cases hpool
  | some before =>
    refine (pool_restored_iff heras hfollow hevt hnext undone hbefore rfl).trans ?_
    constructor
    · intro hrecoverable pool hpool
      exact Option.some.inj hpool ▸ hrecoverable
    · intro hrecoverable
      exact hrecoverable _ rfl

end Restored

/-! A retirement right after the registration of the pool is taken back; the block that
registers a retired pool again is not. -/

def tenSlotRollback (chain : List (Block PoolCertificate)) (block : Block PoolCertificate) :
    Except DatabaseError StakePoolTables := do
  let next ← tenSlotTables (block :: chain)
  return rolledBack tenSlotEras false (tenSlotEvent chain block) next

def endedChain : List (Block PoolCertificate) := emptyBlock 10 :: retiredChain

theorem revivedChain_valid : ValidChain tenSlotEras.1 (registrationAt 11 :: endedChain) := by
  refine ⟨emptyBlock_valid retiredChain_valid (by decide),
    validBlock_tenSlotEras (by decide) (by decide) ?_ ⟨trivial, trivial⟩⟩
  intro poolId hne
  exact (blockActions_other hne 11 0).1

/-- The retirement of an activating pool is rolled back, since the pool is recoverable. -/
theorem rollBackward_restores_retirement :
    ∃ tables next, tenSlotTables [registrationAt 1] = .ok tables ∧
      rollForwardStakePools tenSlotEras (tenSlotEvent [registrationAt 1] (retirementAt 2 1)) tables =
        .ok next ∧
      statusOf next [1] = some .retiring ∧
      ∀ poolId pool, (onRollover tenSlotEras false 0 tables).stakePools.get? poolId = some pool →
        Recoverable tenSlotEras false (tenSlotEvent [registrationAt 1] (retirementAt 2 1)) tables
          poolId pool := by
  have hrestored : okAnd (fun tables => okAnd (fun next => statusOf next [1] = some .retiring ∧
      (rolledBack tenSlotEras false (tenSlotEvent [registrationAt 1] (retirementAt 2 1))
        next).stakePools = tables.stakePools)
      (rollForwardStakePools tenSlotEras (tenSlotEvent [registrationAt 1] (retirementAt 2 1)) tables))
      (tenSlotTables [registrationAt 1]) = true := by decide +kernel
  obtain ⟨tables, htables, hstored⟩ := okAnd_iff.mp hrestored
  obtain ⟨next, hstore, hboth⟩ := okAnd_iff.mp hstored
  obtain ⟨hstatus, hback⟩ := of_decide_eq_true hboth
  refine ⟨tables, next, htables, hstore, hstatus, ?_⟩
  apply (rollBackward_restores_iff tenSlotEras_valid retiredChain_valid
    (rollsForward_tenSlotTables htables) (mapBlock_tenSlotEras _ _) hstore false).mp
  intro poolId
  rw [hback]
  rfl

/-- The pool that the block registers again is not retired any more after the rollback. -/
theorem rollBackward_not_restored :
    ValidChain tenSlotEras.1 (registrationAt 11 :: endedChain) ∧
    okAnd (fun tables => statusOf tables [1] = some .retired) (tenSlotTables endedChain) = true ∧
    okAnd (fun tables => statusOf tables [1] = some .activating)
      (tenSlotRollback endedChain (registrationAt 11)) = true ∧
    (tenSlotEvent endedChain (registrationAt 11)).crossEpochBoundary = false ∧
    ¬∀ tables evt next, RollsForward tenSlotEras endedChain tables →
      mapBlock tenSlotEras endedChain (registrationAt 11) = .ok evt →
      rollForwardStakePools tenSlotEras evt tables = .ok next →
      ∀ poolId, (rolledBack tenSlotEras false evt next).stakePools.get? poolId =
        tables.stakePools.get? poolId := by
  have hretired : okAnd (fun tables => statusOf tables [1] = some .retired)
      (tenSlotTables endedChain) = true := by decide
  have hactivating : okAnd (fun tables => statusOf tables [1] = some .activating)
      (tenSlotRollback endedChain (registrationAt 11)) = true := by decide
  refine ⟨revivedChain_valid, hretired, hactivating, by decide, ?_⟩
  intro hclaim
  obtain ⟨back, hback, hafter⟩ := okAnd_iff.mp hactivating
  obtain ⟨next, hnext, hrolled⟩ := bind_ok hback
  obtain ⟨tables, htables, hstore⟩ := bind_ok hnext
  obtain ⟨tables', htables', hbefore⟩ := okAnd_iff.mp hretired
  cases htables.symm.trans htables'
  cases hrolled
  have hsame := hclaim tables _ next (rollsForward_tenSlotTables htables)
    (mapBlock_tenSlotEras _ _) hstore [1]
  have hstatus := congrArg (Option.map StakePoolEntity.status) hsame
  cases (of_decide_eq_true hafter).symm.trans (hstatus.trans (of_decide_eq_true hbefore))

end CardanoSdk.Projection
