import CardanoSdk.Projection.Types

/-!
The mappers `withUtxo`, `withMint`, `withCIP67` and `withHandles`. What the core package
makes of a datum or an asset name is a parameter; reading a handle, or the address of a
virtual subhandle, may throw.
-/

namespace CardanoSdk.Projection

open Lib
open InputSelection (AssetId TransactionId PaymentAddress TokenMap TxOut)
open Wallet (TxIn)

variable {Certificate : Type}

section Utxo

variable (hash : List UInt8 → List UInt8)

def attemptHydrateDatum (datums : Option (List (List UInt8))) (txOut : TxOut) : TxOut :=
  match txOut.datumHash with
  | none => txOut
  | some datumHash =>
    match (datums.getD []).find? fun datum => hash datum = datumHash with
    | none => txOut
    | some witnessDatum => { txOut with datum := some witnessDatum }

def toProducedUtxo (tx : OnChainTx Certificate) (txOut : TxOut) (index : ℕ) : ProducedUtxo :=
  ({ txId := tx.id, index }, attemptHydrateDatum hash tx.datums txOut)

/-- The collateral return comes after every declared output. -/
def producedOf (tx : OnChainTx Certificate) : List ProducedUtxo :=
  if tx.inputSource = .inputs then
    tx.body.outputs.zipIdx.map fun (txOut, index) => toProducedUtxo hash tx txOut index
  else
    tx.body.collateralReturn.toList.map fun collateralReturn =>
      toProducedUtxo hash tx collateralReturn tx.body.outputs.length

def consumedOf (tx : OnChainTx Certificate) : List TxIn :=
  if tx.inputSource = .inputs then tx.body.inputs else tx.body.collaterals.getD []

def withUtxo (block : Block Certificate) : WithUtxo where
  produced := block.body.flatMap (producedOf hash)
  consumed := block.body.flatMap consumedOf

end Utxo

def getPolicyId (assetId : AssetId) : List UInt8 := assetId.take 28

def getAssetName (assetId : AssetId) : List UInt8 := assetId.drop 28

def computeCompactTxId (blockHeight txIndex : ℕ) : ℕ := blockHeight * 100000 + txIndex

/-- `[...(mint?.entries() || [])]` -/
def mintEntries (tx : OnChainTx Certificate) : List (AssetId × ℤ) :=
  tx.body.mint.elim [] JsMap.entries

def mintsOf (blockNo : ℕ) (tx : OnChainTx Certificate) (txIndex : ℕ) : List Mint :=
  (mintEntries tx).map fun (assetId, quantity) =>
    { assetId
      assetName := getAssetName assetId
      compactTxId := computeCompactTxId blockNo txIndex
      policyId := getPolicyId assetId
      quantity
      txMetadata := tx.txMetadata }

def withMint (block : Block Certificate) : List Mint :=
  block.body.zipIdx.flatMap fun (tx, txIndex) => mintsOf block.header.blockNo tx txIndex

structure DecodedAssetName where
  label : ℕ
  content : List UInt8
  deriving DecidableEq

structure CIP67Asset where
  assetId : AssetId
  policyId : List UInt8
  assetName : List UInt8
  decoded : DecodedAssetName
  utxo : Option ProducedUtxo
  deriving DecidableEq

structure AssetNameReader where
  decode : List UInt8 → Option DecodedAssetName
  toUTF8Handle : List UInt8 → Except Unit (Option String)
  virtualSubhandleOwnerAddress : Option (List UInt8) → Except Unit (Option PaymentAddress)

section Handles

variable (reader : AssetNameReader)

def cip67Asset (assetId : AssetId) (utxo : Option ProducedUtxo) : Option CIP67Asset :=
  (reader.decode (getAssetName assetId)).map fun decoded =>
    { assetId, assetName := getAssetName assetId, decoded, policyId := getPolicyId assetId, utxo }

def assetIds (txOut : TxOut) : List AssetId := txOut.value.assets.elim [] JsMap.keys

/-- `cip67.byAssetId`, which is all that the handles are read with. -/
def cip67ByAssetId (utxo : WithUtxo) (mint : List Mint) : JsMap AssetId CIP67Asset :=
  let cip67MintedAssets := mint.filterMap fun entry => cip67Asset reader entry.assetId none
  let cip67Assets := utxo.produced.flatMap fun utxo =>
    (assetIds utxo.2).filterMap fun assetId => cip67Asset reader assetId (some utxo)
  JsMap.ofList ((cip67MintedAssets ++ cip67Assets).map fun asset => (asset.assetId, asset))

structure HandleOwnership where
  handle : String
  latestOwnerAddress : Option PaymentAddress
  assetId : AssetId
  policyId : List UInt8
  datum : Option (List UInt8) := none
  parentHandle : Option String := none
  deriving DecidableEq

def userNFT : ℕ := 222

def virtualHandle : ℕ := 0

variable (policyIds : List (List UInt8)) (cip67Assets : JsMap AssetId CIP67Asset)

def assetIdToUTF8Handle (assetId : AssetId) : Except Unit (Option String) :=
  match cip67Assets.get? assetId with
  | some cip67Asset =>
    if cip67Asset.decoded.label = userNFT ∨ cip67Asset.decoded.label = virtualHandle then
      reader.toUTF8Handle cip67Asset.decoded.content
    else .ok none
  | none => reader.toUTF8Handle (getAssetName assetId)

/-- The body of the `try`. An empty handle is no handle. -/
def createHandleOwnership (assetId : AssetId) (txOut : Option TxOut) :
    Except Unit (Option HandleOwnership) := do
  match ← assetIdToUTF8Handle reader cip67Assets assetId with
  | none => return none
  | some handle =>
    if handle = "" then return none
    let ownership : HandleOwnership :=
      { assetId
        datum := txOut.bind TxOut.datum
        handle
        latestOwnerAddress := (txOut.map TxOut.address).filter fun address => address ≠ ""
        policyId := getPolicyId assetId }
    if !handle.contains '@' then return some ownership
    let ownership := { ownership with parentHandle := (handle.splitOn "@")[1]? }
    if ((cip67Assets.get? assetId).map fun asset => asset.decoded.label) = some virtualHandle then
      let latestOwnerAddress ← reader.virtualSubhandleOwnerAddress (txOut.bind TxOut.datum)
      return some { ownership with latestOwnerAddress }
    return some ownership

/-- An error is logged, and there is no ownership. -/
def tryCreateHandleOwnership (assetId : AssetId) (txOut : Option TxOut) : Option HandleOwnership :=
  if getPolicyId assetId ∈ policyIds then
    (createHandleOwnership reader cip67Assets assetId txOut).toOption.join
  else none

def setHandle (handles : JsMap String HandleOwnership) (ownership : HandleOwnership) :
    JsMap String HandleOwnership :=
  handles.set ownership.handle ownership

def getOutputHandles (outputs : List TxOut) : JsMap String HandleOwnership :=
  (outputs.flatMap fun txOut => (assetIds txOut).filterMap fun assetId =>
    tryCreateHandleOwnership reader policyIds cip67Assets assetId (some txOut)).foldl setHandle
    JsMap.empty

def getBurnedHandles (mint : List (AssetId × ℤ)) : JsMap String HandleOwnership :=
  ((mint.filter fun entry => entry.2 < 0).filterMap fun entry =>
    tryCreateHandleOwnership reader policyIds cip67Assets entry.1 none).foldl setHandle JsMap.empty

/-- Keys of an object that are array indices are listed first, in ascending order. -/
def arrayIndex? (key : String) : Option ℕ :=
  key.toNat?.filter fun index => toString index = key ∧ index < 2 ^ 32 - 1

def objectEntries {ν : Type} (object : JsMap String ν) : List (String × ν) :=
  let indices := object.entries.filter fun entry => (arrayIndex? entry.1).isSome
  let names := object.entries.filter fun entry => (arrayIndex? entry.1).isNone
  (indices.mergeSort fun entry entry' =>
    decide ((arrayIndex? entry.1).getD 0 ≤ (arrayIndex? entry'.1).getD 0)) ++ names

/-- `{ ...object, ...added }` -/
def spread {ν : Type} (object added : JsMap String ν) : JsMap String ν :=
  (objectEntries added).foldl (fun object entry => object.set entry.1 entry.2) object

def addHandles (handles : JsMap String HandleOwnership) (tx : OnChainTx Certificate) :
    JsMap String HandleOwnership :=
  spread (spread handles (getBurnedHandles reader policyIds cip67Assets (mintEntries tx)))
    (getOutputHandles reader policyIds cip67Assets tx.body.outputs)

def withHandles (block : Block Certificate) : List HandleOwnership :=
  (objectEntries (block.body.foldl (addHandles reader policyIds cip67Assets) JsMap.empty)).map
    Prod.snd

end Handles

end CardanoSdk.Projection
