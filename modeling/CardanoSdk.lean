import CardanoSdk.InputSelection.FeeOfSplitChange
import CardanoSdk.InputSelection.ValidChange
import CardanoSdk.InputSelection.GreedyFee
import CardanoSdk.TxConstruction.ScriptDataHash
import CardanoSdk.Plutus.BytePreservation
import CardanoSdk.Serialization.ForeignTag
import CardanoSdk.Wallet.UtxoTotal
import CardanoSdk.TxConstruction.PortfolioDelegation
import CardanoSdk.Crypto.Ed25519Signing
import CardanoSdk.Wallet.ForeignSignatures
import CardanoSdk.TxConstruction.BuildsRequest
import CardanoSdk.Wallet.HistoryConvergence
import CardanoSdk.KeyManagement.WitnessCount
import CardanoSdk.Projection.RegisteredKeys
import CardanoSdk.Projection.FailedTransactions
import CardanoSdk.Projection.ChainSyncBuffer
import CardanoSdk.Projection.PoolRollback
import CardanoSdk.Projection.SkippedEvents
import CardanoSdk.InputSelection.GreedyWeights
import CardanoSdk.Serialization.StructuralEquality
import CardanoSdk.TxConstruction.Fees
import CardanoSdk.Serialization.ParamUpdateRoundTrip
import CardanoSdk.Serialization.WitnessSetRoundTrip
import CardanoSdk.Serialization.SubTransactionRoundTrip
import CardanoSdk.Serialization.PoolParamsRoundTrip
import CardanoSdk.Wallet.SignedTransactions
import CardanoSdk.Wallet.RewardAccounts
import CardanoSdk.TxConstruction.TokenTransfers
import CardanoSdk.KeyManagement.KeyAgentTransactionSigner
import CardanoSdk.Wallet.ChangeAddress
import CardanoSdk.TxConstruction.MessageMetadata
import CardanoSdk.Util.Metadatum
import CardanoSdk.Cbor.AtomicReads
import CardanoSdk.Serialization.DecodersEnd
import CardanoSdk.InputSelection.RoundRobinPasses
import CardanoSdk.TxConstruction.Collateral
import CardanoSdk.Projection.HandleOwners
import CardanoSdk.Projection.NodeRuns
import CardanoSdk.KeyManagement.InputKeyPaths
import CardanoSdk.Cbor.IntegerHeads
import CardanoSdk.Cbor.ChunkReads
import CardanoSdk.Serialization.AddedSignatures
