import CardanoSdk.Projection.Mappers
import CardanoSdk.Projection.StakePools

/-!
The tables of `prepareTypeormProjection`, and what its mappers make of a block. Pool
metrics, metadata, rewards and delistings are left out: no store writes them. Addresses
come decoded, metadata is what it is encoded to, and a column that is not set is null.
-/

namespace CardanoSdk.Projection

open Lib
open InputSelection (AssetId TransactionId PaymentAddress)
open TxConstruction (Hash PolicyId PoolId RewardAccount)
open Wallet (PartialBlockHeader)

inductive StakeCredential where
  | hash (hash : Hash)
  | pointer (pointer : Pointer)
  deriving DecidableEq

structure MappedAddress where
  address : PaymentAddress
  /-- `Cardano.AddressType` -/
  type : ℕ
  paymentCredentialHash : Option Hash
  stakeCredential : Option StakeCredential
  deriving DecidableEq

structure ProposalProcedure where
  anchorUrl : String
  anchorDataHash : Hash
  deposit : ℕ
  governanceAction : List UInt8
  rewardAccount : RewardAccount
  deriving DecidableEq

structure GovernanceAction where
  action : ProposalProcedure
  actionIndex : ℕ
  id : TransactionId
  slot : ℕ
  deriving DecidableEq

structure HandleMetadata where
  handle : String
  og : Option Bool
  profilePicImage : Option String
  backgroundImage : Option String
  txOut : Option ProducedUtxo
  deriving DecidableEq

structure NftMetadata where
  name : String
  image : String
  mediaType : Option String
  files : Option (List UInt8)
  description : Option String
  otherProperties : Option (List UInt8)
  deriving DecidableEq

structure ProjectedNftMetadata where
  userTokenAssetId : AssetId
  nftMetadata : NftMetadata
  referenceTokenAssetId : Option AssetId
  deriving DecidableEq

structure StakeKeyRegistration where
  pointer : Pointer
  stakeKeyHash : Hash
  deriving DecidableEq

/-- An event as the mappers hand it on. Without policy ids the mappers of handles
let it pass as it is. -/
structure ProjectionEvent where
  eventType : ChainSyncEventType
  header : PartialBlockHeader
  tip : PartialBlockHeader
  /-- `genesisParameters.securityParameter` -/
  securityParameter : ℕ
  epochNo : ℕ
  crossEpochBoundary : Bool
  utxo : WithUtxo := { produced := [], consumed := [] }
  mint : List Mint := []
  /-- `cip67.byLabel` -/
  cip67ByLabel : JsMap ℕ (List CIP67Asset) := JsMap.empty
  addresses : List MappedAddress := []
  governanceActions : List GovernanceAction := []
  handles : Option (List HandleOwnership) := none
  handleMetadata : Option (List HandleMetadata) := none
  nftMetadata : List ProjectedNftMetadata := []
  stakeKeyRegistrations : List StakeKeyRegistration := []
  stakePools : StakePools := { updates := [], retirements := [] }

structure AddressEntity where
  type : ℕ
  paymentCredentialHash : Option Hash
  stakeCredentialHash : Option Hash
  deriving DecidableEq

structure StakeKeyRegistrationEntity where
  stakeKeyHash : Hash
  block : ℕ
  deriving DecidableEq

structure GovernanceActionEntity where
  id : ℕ
  block : ℕ
  txId : TransactionId
  index : ℕ
  stakeCredentialHash : Hash
  anchorUrl : String
  anchorHash : Hash
  deposit : ℕ
  action : List UInt8
  deriving DecidableEq

structure HandleMetadataEntity where
  id : ℕ
  handle : String
  og : Option Bool
  profilePicImage : Option String
  backgroundImage : Option String
  output : Option ℕ
  block : ℕ
  deriving DecidableEq

structure HandleEntity where
  cardanoAddress : Option PaymentAddress
  asset : AssetId
  policyId : PolicyId
  hasDatum : Bool
  defaultForStakeCredential : Option String
  defaultForPaymentCredential : Option String
  parentHandle : Option String
  deriving DecidableEq

inductive NftMetadataType where
  | cip25 | cip68
  deriving DecidableEq

structure NftMetadataEntity where
  nftMetadata : NftMetadata
  type : NftMetadataType
  parentAsset : AssetId
  userTokenAsset : Option AssetId
  createdAt : ℕ
  deriving DecidableEq

/-- The tables, each with its primary key; the ids that a sequence gives out go on. -/
structure ProjectionTables where
  /-- Blocks, assets, outputs and tokens. -/
  database : Database
  /-- `asset.nft_metadata_id`, where it is not null. -/
  assetNftMetadata : JsMap AssetId ℕ
  nftMetadata : JsMap ℕ NftMetadataEntity
  nftMetadataSequence : ℕ
  stakePools : StakePoolTables
  stakeKeyRegistrations : JsMap ℕ StakeKeyRegistrationEntity
  addresses : JsMap PaymentAddress AddressEntity
  handles : JsMap String HandleEntity
  handleMetadata : List HandleMetadataEntity
  handleMetadataSequence : ℕ
  governanceActions : List GovernanceActionEntity
  governanceActionSequence : ℕ

def ProjectionTables.empty : ProjectionTables where
  database := Database.empty
  assetNftMetadata := JsMap.empty
  nftMetadata := JsMap.empty
  nftMetadataSequence := 1
  stakePools := StakePoolTables.empty
  stakeKeyRegistrations := JsMap.empty
  addresses := JsMap.empty
  handles := JsMap.empty
  handleMetadata := []
  handleMetadataSequence := 1
  governanceActions := []
  governanceActionSequence := 1

/-- What is sent to the job queue, which is not a table of the projection. -/
inductive Job where
  | poolMetadata (poolRegistrationId : ℕ) (poolId : PoolId) (metadataJson : PoolMetadataJson)
      (slot : ℕ)
  | poolMetrics (slot : ℕ) (outdatedSlot : Option ℕ)
  | poolRewards (epochNo : ℤ) (slot : ℕ)
  deriving DecidableEq

/-- What `createStorePoolMetricsUpdateJob` remembers from event to event. -/
structure PoolMetricsUpdateJobs where
  lastAllSentBlock : Option ℕ := none
  lastOutdatedSentBlock : Option ℕ := none
  outdatedSlot : Option ℕ := none
  reachedTheTip : Bool := false
  deriving DecidableEq

/-- The tables and the queue, with what one store hands on to the next. -/
structure ProjectionState where
  tables : ProjectionTables
  jobs : List Job := []
  poolMetricsUpdateJobs : PoolMetricsUpdateJobs := {}
  mintedAssetTotalSupplies : MintedAssetSupplies := JsMap.empty
  storedProducedUtxo : List (ProducedUtxo × ℕ) := []

inductive StoreError where
  | database (error : DatabaseError)
  /-- A property of an event is missing. -/
  | typeError
  deriving DecidableEq

end CardanoSdk.Projection
