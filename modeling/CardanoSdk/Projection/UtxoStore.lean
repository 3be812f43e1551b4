import CardanoSdk.Lib.ForkRuns
import CardanoSdk.Projection.Types

/-!
`storeBlock`, `storeAssets` and `storeUtxo`, in the order a projection runs them. The
database checks keys and deletes by cascade what refers to a deleted row. A table whose
primary key the program gives is a map from that key; outputs get theirs from a sequence,
which goes on when rows are deleted.
-/

namespace CardanoSdk.Projection

open Lib
open InputSelection (AssetId TokenMap TxOut TransactionId PaymentAddress)
open Wallet (TxIn PartialBlockHeader)

structure AssetEntity where
  supply : ℤ
  firstMintBlock : ℕ
  deriving DecidableEq

structure OutputEntity where
  id : ℕ
  address : PaymentAddress
  txId : TransactionId
  outputIndex : ℕ
  coins : ℤ
  consumedAtSlot : Option ℕ := none
  datumHash : Option (List UInt8)
  datum : Option (List UInt8)
  scriptReference : Option (List UInt8)
  block : ℕ
  deriving DecidableEq

structure TokensEntity where
  asset : AssetId
  output : ℕ
  quantity : ℤ
  deriving DecidableEq

structure Database where
  blocks : List PartialBlockHeader
  assets : JsMap AssetId AssetEntity
  outputs : List OutputEntity
  tokens : List TokensEntity
  outputSequence : ℕ

inductive DatabaseError where
  | uniqueViolation
  | foreignKeyViolation
  deriving DecidableEq

namespace Database

def empty : Database :=
  { blocks := [], assets := JsMap.empty, outputs := [], tokens := [], outputSequence := 1 }

def hasBlock (database : Database) (slot : ℕ) : Bool :=
  database.blocks.any fun block => block.slot = slot

/-- Slots, hashes and heights are unique. -/
def insertBlock (header : PartialBlockHeader) (database : Database) :
    Except DatabaseError Database :=
  if database.blocks.any fun block =>
      block.slot = header.slot || block.hash = header.hash || block.blockNo = header.blockNo then
    .error .uniqueViolation
  else .ok { database with blocks := database.blocks ++ [header] }

/-- `ON DELETE CASCADE`: outputs and first minted assets go with their block,
tokens with their output or asset. -/
def deleteBlock (slot : ℕ) (database : Database) : Database :=
  let assets := database.assets.filter fun _ asset => asset.firstMintBlock ≠ slot
  let outputs := database.outputs.filter fun output => output.block ≠ slot
  { database with
    blocks := database.blocks.filter fun block => block.slot ≠ slot
    assets
    outputs
    tokens := database.tokens.filter fun tokens =>
      assets.has tokens.asset && outputs.any fun output => output.id = tokens.output }

def insertTokens (tokens : List TokensEntity) (database : Database) :
    Except DatabaseError Database :=
  if tokens.all fun row => database.assets.has row.asset then
    .ok { database with tokens := database.tokens ++ tokens }
  else .error .foreignKeyViolation

/-- `update({ outputIndex, txId }, { consumedAtSlot })` -/
def setConsumedAtSlot (consumedAtSlot : Option ℕ) (database : Database) (txIn : TxIn) :
    Database :=
  { database with
    outputs := database.outputs.map fun output =>
      if output.outputIndex = txIn.index ∧ output.txId = txIn.txId then
        { output with consumedAtSlot }
      else output }

end Database

structure StoreEvent where
  header : PartialBlockHeader
  utxo : WithUtxo
  mint : List Mint

abbrev MintedAssetSupplies := JsMap AssetId ℤ

section Assets

variable (slot : ℕ)

def rollForwardMint (state : Database × MintedAssetSupplies) (mint : Mint) :
    Except DatabaseError (Database × MintedAssetSupplies) :=
  let (database, mintedAssetTotalSupplies) := state
  match database.assets.get? mint.assetId with
  | some storedAsset =>
    let newSupply := storedAsset.supply + mint.quantity
    .ok ({ database with
        assets := database.assets.set mint.assetId { storedAsset with supply := newSupply } },
      mintedAssetTotalSupplies.set mint.assetId newSupply)
  | none =>
    if database.hasBlock slot then
      .ok ({ database with
          assets := database.assets.set mint.assetId
            { supply := mint.quantity, firstMintBlock := slot } },
        mintedAssetTotalSupplies.set mint.assetId mint.quantity)
    else .error .foreignKeyViolation

end Assets

def rollBackwardMint (state : Database × MintedAssetSupplies) (mint : Mint) :
    Database × MintedAssetSupplies :=
  let (database, mintedAssetTotalSupplies) := state
  let isPositiveQuantity := decide (mint.quantity > 0)
  let absQuantity := if isPositiveQuantity then mint.quantity else -1 * mint.quantity
  match database.assets.get? mint.assetId with
  | some asset =>
    let supply :=
      if isPositiveQuantity then asset.supply - absQuantity else asset.supply + absQuantity
    ({ database with assets := database.assets.set mint.assetId { asset with supply } },
      mintedAssetTotalSupplies.set mint.assetId supply)
  -- no row is affected
  | none => (database, mintedAssetTotalSupplies.set mint.assetId 0)

def inlineDatum (datum datumHash : Option (List UInt8)) : Option (List UInt8) :=
  if datumHash.isSome then none else datum

def outputEntity (slot id : ℕ) : ProducedUtxo → OutputEntity
  | (txIn, txOut) =>
    { id
      address := txOut.address
      block := slot
      coins := txOut.value.coins
      datum := inlineDatum txOut.datum txOut.datumHash
      datumHash := txOut.datumHash
      outputIndex := txIn.index
      scriptReference := txOut.scriptReference
      txId := txIn.txId }

/-- `[...(assets?.entries() || [])]` -/
def assetEntries (txOut : TxOut) : List (AssetId × ℤ) :=
  txOut.value.assets.elim [] JsMap.entries

def tokensEntities (id : ℕ) (utxo : ProducedUtxo) : List TokensEntity :=
  (assetEntries utxo.2).map fun (asset, quantity) => { asset, output := id, quantity }

def Database.identifiers (database : Database) (produced : List ProducedUtxo) : List ℕ :=
  List.range' database.outputSequence produced.length

def insertOutputs (slot : ℕ) (produced : List ProducedUtxo) (database : Database) :
    Except DatabaseError Database :=
  if produced = [] then .ok database
  else if database.hasBlock slot then
    .ok { database with
      outputs := database.outputs ++
        List.zipWith (outputEntity slot) (database.identifiers produced) produced
      outputSequence := database.outputSequence + produced.length }
  else .error .foreignKeyViolation

structure StoreState where
  database : Database
  mintedAssetTotalSupplies : MintedAssetSupplies
  storedProducedUtxo : List (ProducedUtxo × ℕ)

def StoreState.empty : StoreState :=
  { database := Database.empty, mintedAssetTotalSupplies := JsMap.empty, storedProducedUtxo := [] }

def rollForwardUtxo (slot : ℕ) (utxo : WithUtxo) (database : Database) :
    Except DatabaseError (Database × List (ProducedUtxo × ℕ)) := do
  let identifiers := database.identifiers utxo.produced
  let database ← insertOutputs slot utxo.produced database
  let database ← database.insertTokens
    (List.zipWith tokensEntities identifiers utxo.produced).flatten
  return (utxo.consumed.foldl (Database.setConsumedAtSlot (some slot)) database,
    utxo.produced.zip identifiers)

def rollForward (event : StoreEvent) (state : StoreState) : Except DatabaseError StoreState := do
  let database ← state.database.insertBlock event.header
  let (database, mintedAssetTotalSupplies) ←
    event.mint.foldlM (rollForwardMint event.header.slot) (database, JsMap.empty)
  let (database, storedProducedUtxo) ← rollForwardUtxo event.header.slot event.utxo database
  return { database, mintedAssetTotalSupplies, storedProducedUtxo }

def rollBackward (event : StoreEvent) (state : StoreState) : StoreState :=
  let (database, mintedAssetTotalSupplies) :=
    event.mint.foldl rollBackwardMint (state.database.deleteBlock event.header.slot, JsMap.empty)
  { database := event.utxo.consumed.foldl (Database.setConsumedAtSlot none) database
    mintedAssetTotalSupplies
    storedProducedUtxo := [] }

/-- A failed transaction ends the run. -/
def storeProjection : StoreOperator StoreEvent (Except DatabaseError StoreState) where
  forward event store := store.bind (rollForward event)
  backward event store := store.map (rollBackward event)

end CardanoSdk.Projection
