import CardanoSdk.Projection.ProjectionTables

/-!
What the stores do with a roll forward, `storeHandles` apart. An `INSERT` of no rows is
not sent.
-/

namespace CardanoSdk.Projection

open Lib
open InputSelection (AssetId)
open TxConstruction (Hash RewardAccount)

namespace ProjectionTables

def hasBlock (tables : ProjectionTables) (slot : ℕ) : Bool := tables.database.hasBlock slot

def hasAsset (tables : ProjectionTables) (assetId : AssetId) : Bool :=
  tables.database.assets.has assetId

end ProjectionTables

def lookupStakeKeyRegistration (pointer : Pointer) (tables : ProjectionTables) : Option Hash :=
  ((tables.stakeKeyRegistrations.get? (certificatePointerToId pointer)).map
    StakeKeyRegistrationEntity.stakeKeyHash).filter fun hash => hash ≠ []

def addressEntity (tables : ProjectionTables) (address : MappedAddress) : AddressEntity where
  type := address.type
  paymentCredentialHash := address.paymentCredentialHash
  stakeCredentialHash :=
    match address.stakeCredential with
    | some (.hash hash) => some hash
    | some (.pointer pointer) => lookupStakeKeyRegistration pointer tables
    | none => none

/-- `orIgnore` -/
def insertAddress (addresses : JsMap String AddressEntity) (row : String × AddressEntity) :
    JsMap String AddressEntity :=
  if addresses.has row.1 then addresses else addresses.set row.1 row.2

def storeAddresses (event : ProjectionEvent) (tables : ProjectionTables) : ProjectionTables :=
  if event.addresses.length = 0 ∨ event.eventType ≠ .rollForward then tables
  else
    let rows := event.addresses.map fun address => (address.address, addressEntity tables address)
    { tables with addresses := rows.foldl insertAddress tables.addresses }

def storeStakeKeyRegistrations (event : ProjectionEvent) (tables : ProjectionTables) :
    Except DatabaseError ProjectionTables :=
  if event.eventType ≠ .rollForward ∨ event.stakeKeyRegistrations.length = 0 then .ok tables
  else if !tables.hasBlock event.header.slot then .error .foreignKeyViolation
  else
    let rows := event.stakeKeyRegistrations.map fun registration =>
      (certificatePointerToId registration.pointer,
        { stakeKeyHash := registration.stakeKeyHash, block := event.header.slot })
    (tables.stakeKeyRegistrations.insertRows rows).elim (.error .uniqueViolation)
      fun stakeKeyRegistrations => .ok { tables with stakeKeyRegistrations }

def willStoreGovernanceAction (event : ProjectionEvent) : Bool := event.governanceActions.length > 0

def insertGovernanceAction (tables : ProjectionTables) (action : GovernanceAction) :
    Except DatabaseError ProjectionTables :=
  if !tables.hasBlock action.slot then .error .foreignKeyViolation
  else
    let actionEntity : GovernanceActionEntity :=
      { id := tables.governanceActionSequence
        action := action.action.governanceAction
        anchorHash := action.action.anchorDataHash
        anchorUrl := action.action.anchorUrl
        block := action.slot
        deposit := action.action.deposit
        index := action.actionIndex
        stakeCredentialHash := action.action.rewardAccount.toHash
        txId := action.id }
    .ok { tables with
      governanceActions := tables.governanceActions ++ [actionEntity]
      governanceActionSequence := tables.governanceActionSequence + 1 }

def storeGovernanceAction (event : ProjectionEvent) (tables : ProjectionTables) :
    Except DatabaseError ProjectionTables :=
  if event.eventType = .rollBackward ∨ !willStoreGovernanceAction event then .ok tables
  else event.governanceActions.foldlM insertGovernanceAction tables

def handleMetadataEntity (slot : ℕ) (storedProducedUtxo : List (ProducedUtxo × ℕ)) (id : ℕ)
    (metadata : HandleMetadata) : HandleMetadataEntity where
  id
  handle := metadata.handle
  og := metadata.og
  profilePicImage := metadata.profilePicImage
  backgroundImage := metadata.backgroundImage
  output := metadata.txOut.bind fun txOut =>
    (storedProducedUtxo.find? fun stored => stored.1 = txOut).map Prod.snd
  block := slot

def storeHandleMetadata (event : ProjectionEvent) (handleMetadata : List HandleMetadata)
    (storedProducedUtxo : List (ProducedUtxo × ℕ)) (tables : ProjectionTables) :
    Except DatabaseError ProjectionTables :=
  if event.eventType = .rollForward ∧ handleMetadata.length > 0 then
    if !tables.hasBlock event.header.slot then .error .foreignKeyViolation
    else
      let ids := List.range' tables.handleMetadataSequence handleMetadata.length
      .ok { tables with
        handleMetadata := tables.handleMetadata ++
          List.zipWith (handleMetadataEntity event.header.slot storedProducedUtxo) ids handleMetadata
        handleMetadataSequence := tables.handleMetadataSequence + handleMetadata.length }
  else .ok tables

def referenceNFT : ℕ := 100

def nftMetadataEntity (slot : ℕ) (tables : ProjectionTables) (metadata : ProjectedNftMetadata) :
    NftMetadataEntity where
  nftMetadata := metadata.nftMetadata
  createdAt := slot
  parentAsset := metadata.referenceTokenAssetId.getD metadata.userTokenAssetId
  type := if metadata.referenceTokenAssetId.isSome then .cip68 else .cip25
  -- the user token might not exist yet
  userTokenAsset :=
    if metadata.referenceTokenAssetId.isSome && !tables.hasAsset metadata.userTokenAssetId then none
    else some metadata.userTokenAssetId

def NftMetadataEntity.refers (tables : ProjectionTables) (row : NftMetadataEntity) : Bool :=
  tables.hasBlock row.createdAt && tables.hasAsset row.parentAsset &&
    row.userTokenAsset.all tables.hasAsset

def insertNftMetadata (rows : List NftMetadataEntity) (tables : ProjectionTables) :
    Except DatabaseError ProjectionTables :=
  if !rows.all fun row => row.refers tables then .error .foreignKeyViolation
  else
    let ids := List.range' tables.nftMetadataSequence rows.length
    (tables.nftMetadata.insertRows (ids.zip rows)).elim (.error .uniqueViolation)
      fun nftMetadata => .ok { tables with
        nftMetadata
        nftMetadataSequence := tables.nftMetadataSequence + rows.length }

/-- `assetRepository.update`: metadata is that of one asset only. -/
def setAssetNftMetadata (assetId : AssetId) (nftMetadataId : ℕ) (tables : ProjectionTables) :
    Except DatabaseError ProjectionTables :=
  if !tables.hasAsset assetId then .ok tables
  else if tables.assetNftMetadata.entries.any fun entry =>
      entry.2 = nftMetadataId && entry.1 ≠ assetId then
    .error .uniqueViolation
  else .ok { tables with
    assetNftMetadata := tables.assetNftMetadata.set assetId nftMetadataId }

section NftMetadata

-- `AssetNameLabel.encode`
variable (encode : List UInt8 → ℕ → List UInt8)

/-- Associates metadata with the user token that is minted after it. -/
def associateNftMetadata (mint : List Mint) (tables : ProjectionTables) (asset : CIP67Asset) :
    Except DatabaseError ProjectionTables :=
  let referenceNftAssetId := asset.policyId ++ encode asset.decoded.content referenceNFT
  if (mint.any fun minted => minted.assetId = asset.assetId) &&
      !(mint.any fun minted => minted.assetId = referenceNftAssetId) then
    match (tables.nftMetadata.keysWhere fun row => row.parentAsset = referenceNftAssetId).max? with
    | none => .ok tables
    | some lastNftMetadataId =>
      if !tables.hasAsset asset.assetId then .error .foreignKeyViolation
      else
        let nftMetadata := tables.nftMetadata.updateWhere
          (fun _ row => row.parentAsset = referenceNftAssetId)
          fun row => { row with userTokenAsset := some asset.assetId }
        setAssetNftMetadata asset.assetId lastNftMetadataId { tables with nftMetadata }
  else .ok tables

def storeNftMetadata (event : ProjectionEvent) (tables : ProjectionTables) :
    Except DatabaseError ProjectionTables := do
  let rows := event.nftMetadata.map (nftMetadataEntity event.header.slot tables)
  let ids := List.range' tables.nftMetadataSequence rows.length
  let tables ← insertNftMetadata rows tables
  let tables ← (ids.zip rows).foldlM (fun tables (id, row) =>
    row.userTokenAsset.elim (.ok tables) fun assetId => setAssetNftMetadata assetId id tables) tables
  ((event.cip67ByLabel.get? userNFT).getD []).foldlM (associateNftMetadata encode event.mint) tables

end NftMetadata

def storeStakePoolMetadataJob (event : ProjectionEvent) (jobs : List Job) : List Job :=
  if event.eventType = .rollBackward then jobs
  else
    jobs ++ event.stakePools.updates.filterMap fun update =>
      update.poolParameters.metadataJson.map fun metadataJson =>
        .poolMetadata (certificatePointerToId update.source) update.poolParameters.id metadataJson
          event.header.slot

def storeStakePoolRewardsJob (event : ProjectionEvent) (jobs : List Job) : List Job :=
  if event.eventType = .rollForward ∧ event.crossEpochBoundary = true then
    if event.epochNo = 1 then jobs else jobs ++ [.poolRewards (event.epochNo - 2) event.header.slot]
  else jobs

section PoolMetricsUpdate

variable (jobFrequency jobOutdatedFrequency : ℕ)

def PoolMetricsUpdateJobs.sendForAll (header : Wallet.PartialBlockHeader)
    (memory : PoolMetricsUpdateJobs) : PoolMetricsUpdateJobs :=
  { memory with
    lastAllSentBlock := some header.blockNo
    lastOutdatedSentBlock := memory.lastOutdatedSentBlock.or (some header.blockNo)
    outdatedSlot := some header.slot }

/-- The blocks since the last job, if there was one. -/
def isDue (frequency blockNo : ℕ) (lastSentBlock : Option ℕ) : Bool :=
  lastSentBlock.any fun lastSentBlock => (blockNo : ℤ) - lastSentBlock ≥ frequency

def PoolMetricsUpdateJobs.insertFirstJob (event : ProjectionEvent) (memory : PoolMetricsUpdateJobs) :
    Bool :=
  !memory.reachedTheTip && event.tip.slot = event.header.slot

def PoolMetricsUpdateJobs.sendDue (header : Wallet.PartialBlockHeader)
    (memory : PoolMetricsUpdateJobs) (jobs : List Job) : PoolMetricsUpdateJobs × List Job :=
  if (memory.lastAllSentBlock ≠ some header.blockNo ∨
      memory.lastOutdatedSentBlock ≠ some header.blockNo) ∧ memory.reachedTheTip = true then
    if isDue jobFrequency header.blockNo memory.lastAllSentBlock then
      (memory.sendForAll header, jobs ++ [.poolMetrics header.slot none])
    else if jobOutdatedFrequency ≠ 0 ∧
        memory.outdatedSlot.any (fun outdatedSlot => outdatedSlot ≠ 0) = true ∧
        isDue jobOutdatedFrequency header.blockNo memory.lastOutdatedSentBlock = true then
      ({ memory with lastOutdatedSentBlock := some header.blockNo },
        jobs ++ [.poolMetrics header.slot memory.outdatedSlot])
    else (memory, jobs)
  else (memory, jobs)

def storePoolMetricsUpdateJob (event : ProjectionEvent) (memory : PoolMetricsUpdateJobs)
    (jobs : List Job) : PoolMetricsUpdateJobs × List Job :=
  if event.eventType = .rollBackward then (memory, jobs)
  else if memory.insertFirstJob event then
    ({ memory with reachedTheTip := true }.sendForAll event.header,
      jobs ++ [.poolMetrics event.header.slot none])
  else memory.sendDue jobFrequency jobOutdatedFrequency event.header jobs

end PoolMetricsUpdate

end CardanoSdk.Projection
