import CardanoSdk.Lib.Tables
import CardanoSdk.Projection.CertificatePointers
import CardanoSdk.Projection.UtxoStore
import CardanoSdk.Util.SlotCalc

/-!
`withStakePools` and `storeStakePools`. The blocks that the certificates refer to are
stored before them; when one is deleted its certificates go with it. Relays are what they
are encoded to, and the percentage of a margin, a float, is left out.
-/

namespace CardanoSdk.Projection

open Lib Util
open TxConstruction (PoolId)

structure Fraction where
  numerator : ℕ
  denominator : ℕ
  deriving DecidableEq

structure PoolMetadataJson where
  hash : String
  url : String
  deriving DecidableEq

structure PoolParameters where
  id : PoolId
  vrf : String := ""
  pledge : ℕ := 0
  cost : ℕ := 0
  margin : Fraction := ⟨0, 1⟩
  rewardAccount : String := ""
  owners : List String := []
  relays : List String := []
  metadataJson : Option PoolMetadataJson := none
  deriving DecidableEq

/-- The certificates that `withStakePools` tells apart. -/
inductive PoolCertificate where
  | poolRegistration (poolParameters : PoolParameters)
  | poolRetirement (poolId : PoolId) (epoch : ℕ)
  | other
  deriving DecidableEq

structure PoolUpdate where
  poolParameters : PoolParameters
  source : Pointer
  deriving DecidableEq

structure PoolRetirement where
  epoch : ℕ
  poolId : PoolId
  source : Pointer
  deriving DecidableEq

structure PoolRecords where
  updates : JsMap PoolId PoolUpdate
  retirements : JsMap PoolId PoolRetirement

/-- The body of the loop. -/
def PoolRecords.add (records : PoolRecords) (certificate : OnChainCertificate PoolCertificate) :
    PoolRecords :=
  match certificate.certificate with
  | .poolRegistration poolParameters =>
    { updates := records.updates.set poolParameters.id
        { poolParameters, source := certificate.pointer }
      -- a registration cancels a retirement
      retirements := records.retirements.delete poolParameters.id }
  | .poolRetirement poolId epoch =>
    { records with
      retirements := records.retirements.set poolId
        { epoch, poolId, source := certificate.pointer } }
  | .other => records

def poolRecords (certificates : List (OnChainCertificate PoolCertificate)) : PoolRecords :=
  certificates.foldl PoolRecords.add { updates := JsMap.empty, retirements := JsMap.empty }

/-- `WithStakePools`: the values of both records. -/
structure StakePools where
  updates : List PoolUpdate
  retirements : List PoolRetirement

def withStakePools (certificates : List (OnChainCertificate PoolCertificate)) : StakePools where
  updates := (poolRecords certificates).updates.values
  retirements := (poolRecords certificates).retirements.values

inductive StakePoolStatus where
  | activating | active | retiring | retired
  deriving DecidableEq

structure StakePoolEntity where
  status : StakePoolStatus
  lastRegistration : Option ℕ := none
  lastRetirement : Option ℕ := none
  deriving DecidableEq

structure PoolRegistrationEntity where
  stakePool : PoolId
  blockSlot : ℕ
  vrf : String
  pledge : ℕ
  cost : ℕ
  margin : Fraction
  rewardAccount : String
  owners : List String
  relays : List String
  metadataHash : Option String
  metadataUrl : Option String
  deriving DecidableEq

structure PoolRetirementEntity where
  stakePool : PoolId
  blockSlot : ℕ
  retireAtEpoch : ℕ
  deriving DecidableEq

structure StakePoolTables where
  stakePools : JsMap PoolId StakePoolEntity
  poolRegistrations : JsMap ℕ PoolRegistrationEntity
  poolRetirements : JsMap ℕ PoolRetirementEntity
  deriving DecidableEq

namespace StakePoolTables

def empty : StakePoolTables :=
  { stakePools := JsMap.empty, poolRegistrations := JsMap.empty, poolRetirements := JsMap.empty }

def registrationIds (tables : StakePoolTables) (poolId : PoolId) : List ℕ :=
  tables.poolRegistrations.keysWhere fun registration => registration.stakePool = poolId

def retirementIds (tables : StakePoolTables) (poolId : PoolId) : List ℕ :=
  tables.poolRetirements.keysWhere fun retirement => retirement.stakePool = poolId

def updatePools (tables : StakePoolTables) (condition : PoolId → StakePoolEntity → Bool)
    (change : StakePoolEntity → StakePoolEntity) : StakePoolTables :=
  { tables with stakePools := tables.stakePools.updateWhere condition change }

/-- The certificates of a deleted block go with it, and pools do not refer to them
any longer. -/
def deleteBlock (slot : ℕ) (tables : StakePoolTables) : StakePoolTables :=
  let poolRegistrations := tables.poolRegistrations.filter fun _ row => row.blockSlot ≠ slot
  let poolRetirements := tables.poolRetirements.filter fun _ row => row.blockSlot ≠ slot
  { poolRegistrations
    poolRetirements
    stakePools := tables.stakePools.mapValues fun pool =>
      { pool with
        lastRegistration := pool.lastRegistration.filter poolRegistrations.has
        lastRetirement := pool.lastRetirement.filter poolRetirements.has } }

/-- A deleted pool takes its certificates along. -/
def deletePool (poolId : PoolId) (tables : StakePoolTables) : StakePoolTables where
  stakePools := tables.stakePools.delete poolId
  poolRegistrations := tables.poolRegistrations.filter fun _ row => row.stakePool ≠ poolId
  poolRetirements := tables.poolRetirements.filter fun _ row => row.stakePool ≠ poolId

end StakePoolTables

/-- Some era has begun. -/
abbrev EraSummaries := { eraSummaries : List EraSummary // eraSummaries ≠ [] }

theorem walkTo_isSome {epochNo fuel : ℕ} {walk : EpochWalk} (hfrom : walk.atEpoch ≤ epochNo)
    (hfuel : epochNo < walk.atEpoch + fuel) : (walk.walkTo epochNo fuel).isSome = true := by
  induction fuel generalizing walk with
  | zero => omega
  | succ fuel ih =>
    rw [EpochWalk.walkTo]
    split
    · rfl
    · have hadvanced : walk.advance.atEpoch = walk.atEpoch + 1 := rfl
      exact ih (by omega) (by omega)

theorem epochSlotsCalcImplementation_isSome (epochNo : ℕ) (eraSummaries : EraSummaries) :
    (epochSlotsCalcImplementation (epochNo + 1) epochNo eraSummaries.1).isSome = true := by
  obtain ⟨_ | ⟨first, others⟩, hne⟩ := eraSummaries
  · exact absurd rfl hne
  · exact walkTo_isSome (Nat.zero_le _) (by simp)

def epochSlotsCalc (epochNo : ℕ) (eraSummaries : EraSummaries) : EpochSlots :=
  (epochSlotsCalcImplementation (epochNo + 1) epochNo eraSummaries.1).get
    (epochSlotsCalcImplementation_isSome epochNo eraSummaries)

structure CertificateIdRange where
  minId : ℕ
  maxId : ℕ

def CertificateIdRange.contains (range : CertificateIdRange) (id : ℕ) : Bool :=
  range.minId ≤ id && id ≤ range.maxId

def computeCertificateIdRange (epochNo : ℕ) (eraSummaries : EraSummaries) : CertificateIdRange :=
  let { firstSlot, lastSlot, .. } := epochSlotsCalc epochNo eraSummaries
  { minId := certificatePointerToId { slot := firstSlot, txIndex := 0, certIndex := 0 }
    maxId := certificatePointerToId
      { slot := lastSlot
        txIndex := MaxCertificatePointerIdTxIndex
        certIndex := MaxCertificatePointerIdCertificateIndex } }

structure StakePoolEvent where
  slot : ℕ
  epochNo : ℕ
  crossEpochBoundary : Bool
  stakePools : StakePools

section Rollover

variable (eraSummaries : EraSummaries)

/-- The query of `updatePoolStatusWhere` over the registrations of one pool, which
is not the same for both statuses. -/
def registeredWithin (range : CertificateIdRange) (newStatus : StakePoolStatus)
    (registrationIds : List ℕ) (pool : StakePoolEntity) : Bool :=
  registrationIds.any fun id => range.contains id &&
    if newStatus = .active then pool.lastRetirement.all fun retirement => retirement < id
    else registrationIds.all fun id' => !(id' < id)

def updatePoolStatusWhere (firstRegisteredInEpoch : ℤ) (currentStatus newStatus : StakePoolStatus)
    (tables : StakePoolTables) : StakePoolTables :=
  if firstRegisteredInEpoch < 0 then tables
  else
    let range := computeCertificateIdRange firstRegisteredInEpoch.toNat eraSummaries
    tables.updatePools
      (fun poolId pool => pool.status = currentStatus &&
        registeredWithin range newStatus (tables.registrationIds poolId) pool)
      fun pool => { pool with status := newStatus }

def activateOnRollover (crossEpochBoundary : Bool) (epochNo : ℕ) (tables : StakePoolTables) :
    StakePoolTables :=
  if !crossEpochBoundary then tables
  else updatePoolStatusWhere eraSummaries (epochNo - 2) .activating .active tables

def undoActivateOnRollover (crossEpochBoundary : Bool) (epochNo : ℕ) (tables : StakePoolTables) :
    StakePoolTables :=
  if !crossEpochBoundary then tables
  else updatePoolStatusWhere eraSummaries (epochNo - 1) .active .activating tables

/-- The condition of `findPoolsRetiringAtEpoch`. -/
def StakePoolTables.retiringAt (tables : StakePoolTables) (epochNo : ℕ) (pool : StakePoolEntity) :
    Bool :=
  (pool.lastRetirement.bind tables.poolRetirements.get?).any fun row => row.retireAtEpoch = epochNo

def retireOnRollover (crossEpochBoundary : Bool) (epochNo : ℕ) (tables : StakePoolTables) :
    StakePoolTables :=
  if !crossEpochBoundary then tables
  else tables.updatePools (fun _ pool => tables.retiringAt epochNo pool)
    fun pool => { pool with status := .retired }

def undoRetireOnRollover (crossEpochBoundary : Bool) (epochNo : ℕ) (tables : StakePoolTables) :
    StakePoolTables :=
  if !crossEpochBoundary then tables
  else tables.updatePools (fun _ pool => tables.retiringAt (epochNo + 1) pool)
    fun pool => { pool with status := .retiring }

def onRollover (crossEpochBoundary : Bool) (epochNo : ℕ) (tables : StakePoolTables) :
    StakePoolTables :=
  retireOnRollover crossEpochBoundary epochNo
    (activateOnRollover eraSummaries crossEpochBoundary epochNo tables)

def undoOnRollover (crossEpochBoundary : Bool) (epochNo : ℕ) (tables : StakePoolTables) :
    StakePoolTables :=
  undoRetireOnRollover crossEpochBoundary epochNo
    (undoActivateOnRollover eraSummaries crossEpochBoundary epochNo tables)

end Rollover

def insertMissingStakePools (updates : List PoolUpdate) (tables : StakePoolTables) :
    StakePoolTables :=
  let missing := updates.filter fun update => !tables.stakePools.has update.poolParameters.id
  { tables with
    stakePools := missing.foldl (fun pools update =>
      pools.set update.poolParameters.id { status := .activating }) tables.stakePools }

def poolRegistrationRow (slot : ℕ) (update : PoolUpdate) : ℕ × PoolRegistrationEntity :=
  (certificatePointerToId update.source,
    { stakePool := update.poolParameters.id
      blockSlot := slot
      vrf := update.poolParameters.vrf
      pledge := update.poolParameters.pledge
      cost := update.poolParameters.cost
      margin := update.poolParameters.margin
      rewardAccount := update.poolParameters.rewardAccount
      owners := update.poolParameters.owners
      relays := update.poolParameters.relays
      metadataHash := update.poolParameters.metadataJson.map PoolMetadataJson.hash
      metadataUrl := update.poolParameters.metadataJson.map PoolMetadataJson.url })

def poolRetirementRow (slot : ℕ) (retirement : PoolRetirement) : ℕ × PoolRetirementEntity :=
  (certificatePointerToId retirement.source,
    { stakePool := retirement.poolId, blockSlot := slot, retireAtEpoch := retirement.epoch })

/-- The rows refer to pools, and their keys are new. -/
def insertCertificates {ν : Type} (poolOf : ν → PoolId) (tables : StakePoolTables)
    (table : JsMap ℕ ν) (rows : List (ℕ × ν)) : Except DatabaseError (JsMap ℕ ν) :=
  if rows.all fun row => tables.stakePools.has (poolOf row.2) then
    (table.insertRows rows).elim (.error .uniqueViolation) .ok
  else .error .foreignKeyViolation

def insertPoolUpdates (slot : ℕ) (updates : List PoolUpdate) (tables : StakePoolTables) :
    Except DatabaseError StakePoolTables := do
  let poolRegistrations ← insertCertificates PoolRegistrationEntity.stakePool tables
    tables.poolRegistrations (updates.map (poolRegistrationRow slot))
  return { tables with poolRegistrations }

def insertPoolRetirements (slot : ℕ) (retirements : List PoolRetirement)
    (tables : StakePoolTables) : Except DatabaseError StakePoolTables := do
  let poolRetirements ← insertCertificates PoolRetirementEntity.stakePool tables
    tables.poolRetirements (retirements.map (poolRetirementRow slot))
  return { tables with poolRetirements }

def updateLatestCertificates (stakePools : StakePools) (tables : StakePoolTables) :
    StakePoolTables :=
  let registered := stakePools.updates.foldl (fun pools update =>
    pools.updateWhere (fun poolId _ => poolId = update.poolParameters.id)
      fun pool => { pool with lastRegistration := some (certificatePointerToId update.source) })
    tables.stakePools
  { tables with
    stakePools := stakePools.retirements.foldl (fun pools retirement =>
      pools.updateWhere (fun poolId pool => poolId = retirement.poolId && pool.status ≠ .retired)
        fun pool => { pool with
          lastRetirement := some (certificatePointerToId retirement.source)
          status := .retiring })
      registered }

/-- `last_registration_id > last_retirement_id`, which is not so if one is null. -/
def StakePoolEntity.reregistered (pool : StakePoolEntity) : Bool :=
  pool.lastRegistration.any fun registration =>
    pool.lastRetirement.any fun retirement => retirement < registration

def reactivateRetired (updates : List PoolUpdate) (tables : StakePoolTables) : StakePoolTables :=
  if updates = [] then tables
  else tables.updatePools (fun _ pool => pool.status = .retired && pool.reregistered)
    fun pool => { pool with status := .activating }

def rollForwardStakePools (eraSummaries : EraSummaries) (evt : StakePoolEvent)
    (tables : StakePoolTables) : Except DatabaseError StakePoolTables := do
  let tables := onRollover eraSummaries evt.crossEpochBoundary evt.epochNo tables
  let tables := insertMissingStakePools evt.stakePools.updates tables
  let tables ← insertPoolUpdates evt.slot evt.stakePools.updates tables
  let tables ← insertPoolRetirements evt.slot evt.stakePools.retirements tables
  return reactivateRetired evt.stakePools.updates
    (updateLatestCertificates evt.stakePools tables)

/-- An id of a certificate is taken for none if it is zero. -/
def truthy (id : Option ℕ) : Option ℕ := id.filter fun id => id ≠ 0

def undoUpdateLatestRegistration (tables : StakePoolTables) (update : PoolUpdate) :
    StakePoolTables :=
  let id := update.poolParameters.id
  match truthy (tables.registrationIds id).max? with
  | some lastRegistrationId =>
    tables.updatePools (fun poolId _ => poolId = id)
      fun pool => { pool with lastRegistration := some lastRegistrationId }
  | none => tables.deletePool id

/-- What the status is taken to have been, by the certificates that are left. -/
def statusBefore (epochStartId firstRegistrationId : ℕ) (lastRegistrationId lastRetirement : Option ℕ) :
    StakePoolStatus :=
  match lastRetirement with
  | none => if firstRegistrationId > epochStartId then .activating else .active
  | some lastRetirement =>
    if lastRegistrationId.any fun id => id > lastRetirement then .active else .retiring

def undoUpdateLatestRetirementAndRetiringStatus (eraSummaries : EraSummaries) (epochNo : ℕ)
    (tables : StakePoolTables) (retirement : PoolRetirement) : StakePoolTables :=
  let { firstSlot, .. } := epochSlotsCalc epochNo eraSummaries
  let epochStartId := certificatePointerToId { slot := firstSlot, txIndex := 0, certIndex := 0 }
  let lastRetirement := (tables.retirementIds retirement.poolId).max?
  match truthy (tables.registrationIds retirement.poolId).min? with
  -- the pool is deleted
  | none => tables
  | some firstRegistrationId =>
    let status := statusBefore epochStartId firstRegistrationId
      (tables.registrationIds retirement.poolId).max? lastRetirement
    tables.updatePools (fun poolId _ => poolId = retirement.poolId)
      -- what is undefined is not updated
      fun pool => { pool with lastRetirement := lastRetirement.or pool.lastRetirement, status }

/-- The block is already deleted. -/
def rollBackwardStakePools (eraSummaries : EraSummaries) (evt : StakePoolEvent)
    (tables : StakePoolTables) : StakePoolTables :=
  let tables := undoOnRollover eraSummaries evt.crossEpochBoundary evt.epochNo tables
  let tables := evt.stakePools.updates.foldl undoUpdateLatestRegistration tables
  evt.stakePools.retirements.foldl
    (undoUpdateLatestRetirementAndRetiringStatus eraSummaries evt.epochNo) tables

def willStoreStakePools (stakePools : StakePools) : Bool :=
  stakePools.updates.length > 0 || stakePools.retirements.length > 0

end CardanoSdk.Projection
