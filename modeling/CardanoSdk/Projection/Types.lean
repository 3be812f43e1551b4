import CardanoSdk.TxConstruction.Certificates
import CardanoSdk.Wallet.TransactionsTracker
import CardanoSdk.Wallet.UtxoTracker

/-!
Blocks as the projection reads them. Metadata and data are what they are encoded to. The
type of certificates is a parameter: operators read different parts of them.
-/

namespace CardanoSdk.Projection

open InputSelection (TransactionId AssetId TokenMap TxOut)
open Wallet (TxIn PartialBlockHeader)

inductive InputSource where
  | inputs
  | collaterals
  deriving DecidableEq

structure TxBody (Certificate : Type) where
  inputs : List TxIn := []
  collaterals : Option (List TxIn) := none
  outputs : List TxOut := []
  collateralReturn : Option TxOut := none
  mint : Option TokenMap := none
  certificates : Option (List Certificate) := none

structure OnChainTx (Certificate : Type) where
  id : TransactionId
  inputSource : InputSource
  body : TxBody Certificate
  /-- `witness.datums` -/
  datums : Option (List (List UInt8)) := none
  /-- `auxiliaryData?.blob` -/
  txMetadata : Option (List UInt8) := none

structure Block (Certificate : Type) where
  header : PartialBlockHeader
  body : List (OnChainTx Certificate)

inductive ChainSyncEventType where
  | rollForward
  | rollBackward
  deriving DecidableEq

structure Point where
  slot : ℕ
  hash : String
  deriving DecidableEq

inductive PointOrOrigin where
  | origin
  | point (point : Point)
  deriving DecidableEq

structure Pointer where
  slot : ℕ
  txIndex : ℕ
  certIndex : ℕ
  deriving DecidableEq

structure OnChainCertificate (Certificate : Type) where
  pointer : Pointer
  certificate : Certificate

abbrev ProducedUtxo := TxIn × TxOut

structure WithUtxo where
  produced : List ProducedUtxo
  consumed : List TxIn

structure Mint where
  assetId : AssetId
  policyId : List UInt8
  assetName : List UInt8
  quantity : ℤ
  compactTxId : ℕ
  txMetadata : Option (List UInt8)
  deriving DecidableEq

/-- `Cardano.util.isPhase2ValidationErrTx` -/
def isPhase2ValidationErrTx {Certificate : Type} (tx : OnChainTx Certificate) : Bool :=
  tx.inputSource = .collaterals

/-- `withCertificates`: an index counts the transactions that passed validation. -/
def blockCertificates {Certificate : Type} (block : Block Certificate) :
    List (OnChainCertificate Certificate) :=
  (block.body.filter fun tx => !isPhase2ValidationErrTx tx).zipIdx.flatMap fun (tx, txIndex) =>
    (tx.body.certificates.getD []).zipIdx.map fun (certificate, certIndex) =>
      { certificate, pointer := { slot := block.header.slot, txIndex, certIndex } }

theorem flatMap_zipIdx_fst {α β : Type} (list : List α) (f : α → List β) :
    (list.zipIdx.flatMap fun entry => f entry.1) = list.flatMap f := by
  conv_rhs => rw [← List.zipIdx_map_fst 0 list, List.flatMap_map]

theorem certificates_blockCertificates {Certificate : Type} (block : Block Certificate) :
    (blockCertificates block).map OnChainCertificate.certificate =
      (block.body.filter fun tx => !isPhase2ValidationErrTx tx).flatMap fun tx =>
        tx.body.certificates.getD [] := by
  rw [blockCertificates, List.map_flatMap]
  refine Eq.trans (List.flatMap_congr ?_) (flatMap_zipIdx_fst _ _)
  intro entry _
  rw [List.map_map]
  exact List.zipIdx_map_fst 0 _

end CardanoSdk.Projection
