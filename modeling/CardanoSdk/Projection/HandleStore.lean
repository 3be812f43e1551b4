import CardanoSdk.Projection.StoreOperators

/-!
What `storeHandles` does with a roll forward. Handles are ASCII. Whether an address has a
stake credential, `hasStakeCredential`, is for the core package to say.
-/

namespace CardanoSdk.Projection

open Lib
open InputSelection (AssetId PaymentAddress)
open TxConstruction (Hash)

def ownerRows (assetId : AssetId) (tables : ProjectionTables) :
    List (PaymentAddress × Option (List UInt8)) :=
  ((tables.database.outputs.filter fun output => output.consumedAtSlot.isNone &&
      tables.database.tokens.any fun tokens =>
        tokens.asset = assetId && tokens.output = output.id).map fun output =>
    (output.address, output.datum)).dedup

structure HandleOwner where
  cardanoAddress : Option PaymentAddress
  hasDatum : Bool

def getOwner (assetId : AssetId) (tables : ProjectionTables) : HandleOwner :=
  match ownerRows assetId tables with
  | [(address, datum)] => { cardanoAddress := some address, hasDatum := datum.isSome }
  | _ => { cardanoAddress := none, hasDatum := false }

def getSupply (assetId : AssetId) (tables : ProjectionTables) : ℤ :=
  (tables.database.assets.get? assetId).elim 0 AssetEntity.supply

structure HandleWithTotalSupply extends HandleOwnership where
  totalSupply : ℤ

/-- A supply of zero is looked up. -/
def withTotalSupplies (tables : ProjectionTables) (handles : List HandleOwnership)
    (mintedAssetTotalSupplies : MintedAssetSupplies) : List HandleWithTotalSupply :=
  handles.map fun handle =>
    { handle with
      totalSupply := ((mintedAssetTotalSupplies.get? handle.assetId).filter fun supply =>
        supply ≠ 0).getD (getSupply handle.assetId tables) }

/-- Without a slot the handle is not stored yet, and it is the newest. -/
structure DefaultHandleParams where
  handle : String
  og : Bool
  sameStakeCredential : Bool
  samePaymentCredential : Bool
  firstMintSlot : Option ℕ
  deriving DecidableEq

def compareSlots : Option ℕ → Option ℕ → Ordering
  | none, none => .eq
  | none, some _ => .gt
  | some _, none => .lt
  | some slot, some slot' => compare slot slot'

def compareHandles (h h' : DefaultHandleParams) : Ordering :=
  (((compare (!h.og) (!h'.og)).then (compare h.handle.length h'.handle.length)).then
    (compareSlots h.firstMintSlot h'.firstMintSlot)).then (compare h.handle h'.handle)

def sortHandles (handles : List DefaultHandleParams) : List DefaultHandleParams :=
  handles.mergeSort fun h h' => (compareHandles h h').isLE

def sameHash (hash hash' : Option Hash) : Bool := hash.isSome && hash = hash'

/-- `LEFT JOIN` with the metadata of the handle. -/
def metadataOf (handle : String) (tables : ProjectionTables) : List (Option HandleMetadataEntity) :=
  let rows := tables.handleMetadata.filter fun metadata => metadata.handle = handle
  if rows = [] then [none] else rows.map some

def queryHandlesByAddressCredentials (address : PaymentAddress) (tables : ProjectionTables) :
    List DefaultHandleParams :=
  (tables.addresses.get? address).toList.flatMap fun inputAddress =>
    (tables.addresses.entries.filter fun a =>
      sameHash a.2.paymentCredentialHash inputAddress.paymentCredentialHash ||
        sameHash a.2.stakeCredentialHash inputAddress.stakeCredentialHash).flatMap fun a =>
      (tables.handles.entries.filter fun h => h.2.cardanoAddress = some a.1).flatMap fun h =>
        (metadataOf h.1 tables).flatMap fun metadata =>
          (tables.database.assets.get? h.2.asset).toList.map fun asset =>
            { handle := h.1
              og := (metadata.bind HandleMetadataEntity.og).getD false
              sameStakeCredential :=
                sameHash inputAddress.stakeCredentialHash a.2.stakeCredentialHash
              samePaymentCredential :=
                sameHash inputAddress.paymentCredentialHash a.2.paymentCredentialHash
              firstMintSlot := some asset.firstMintBlock }

section DefaultHandles

variable (hasStakeCredential : PaymentAddress → Bool)

def includeIfNotPresent (dbHandles : List DefaultHandleParams) (handle : String) (isOG : Bool)
    (address : PaymentAddress) (skipIfNoStakeCredential : Bool) : List DefaultHandleParams :=
  let sameStakeCredential := hasStakeCredential address
  if skipIfNoStakeCredential && !sameStakeCredential then dbHandles
  else if dbHandles.any fun h => h.handle = handle then dbHandles
  else
    dbHandles ++ [{ handle, og := isOG, samePaymentCredential := true, sameStakeCredential
                    firstMintSlot := none }]

structure DefaultInWallet where
  defaultForPaymentCredential : Option String := none
  defaultForStakeCredential : Option String := none

/-- The handles of the list get the handle for their default, if it comes first. -/
def updateDefaults (sorted : List DefaultHandleParams) (handle : String)
    (setDefault : HandleEntity → HandleEntity) (handles : JsMap String HandleEntity) :
    JsMap String HandleEntity :=
  if (sorted.head?.map DefaultHandleParams.handle) = some handle then
    handles.updateWhere (fun key _ => sorted.any fun h => h.handle = key) setDefault
  else handles

def getDefaultInWalletAndUpdateOtherHandles (handle : String) (isOG : Bool)
    (address : PaymentAddress) (tables : ProjectionTables) : DefaultInWallet × ProjectionTables :=
  let allWalletHandles := queryHandlesByAddressCredentials address tables
  let byStakeCredential := sortHandles (includeIfNotPresent hasStakeCredential
    (allWalletHandles.filter DefaultHandleParams.sameStakeCredential) handle isOG address true)
  let byPaymentCredential := sortHandles (includeIfNotPresent hasStakeCredential
    (allWalletHandles.filter DefaultHandleParams.samePaymentCredential) handle isOG address false)
  let handles := updateDefaults byPaymentCredential handle
    (fun row => { row with defaultForPaymentCredential := some handle }) tables.handles
  let handles := updateDefaults byStakeCredential handle
    (fun row => { row with defaultForStakeCredential := some handle }) handles
  ({ defaultForPaymentCredential := byPaymentCredential.head?.map DefaultHandleParams.handle
     defaultForStakeCredential := byStakeCredential.head?.map DefaultHandleParams.handle },
    { tables with handles })

/-- A column that is not given keeps its value. An asset has one handle. -/
def upsertHandle (handle : HandleOwnership) (owner : HandleOwner) (defaultInWallet : DefaultInWallet)
    (tables : ProjectionTables) : Except DatabaseError ProjectionTables :=
  if !tables.hasAsset handle.assetId then .error .foreignKeyViolation
  else if tables.handles.entries.any fun entry =>
      entry.1 ≠ handle.handle && entry.2.asset = handle.assetId then
    .error .uniqueViolation
  else
    let old := tables.handles.get? handle.handle
    .ok { tables with
      handles := tables.handles.set handle.handle
        { asset := handle.assetId
          cardanoAddress := owner.cardanoAddress
          hasDatum := owner.hasDatum
          policyId := handle.policyId
          parentHandle := handle.parentHandle.or (old.bind HandleEntity.parentHandle)
          defaultForPaymentCredential := defaultInWallet.defaultForPaymentCredential.or
            (old.bind HandleEntity.defaultForPaymentCredential)
          defaultForStakeCredential := defaultInWallet.defaultForStakeCredential.or
            (old.bind HandleEntity.defaultForStakeCredential) } }

/-- `latestOwnerAddress`, or the owner that is left after a burn. -/
def ownerOf (handle : HandleOwnership) (tables : ProjectionTables) : HandleOwner :=
  match handle.latestOwnerAddress with
  | some address => { cardanoAddress := some address, hasDatum := handle.datum.isSome }
  | none => getOwner handle.assetId tables

def storeOwnedHandle (handleMetadata : List HandleMetadata) (handle : HandleOwnership)
    (tables : ProjectionTables) : Except DatabaseError ProjectionTables :=
  let owner := ownerOf handle tables
  let isOG := ((handleMetadata.find? fun m => m.handle = handle.handle).bind
    HandleMetadata.og).getD false
  let (defaultInWallet, tables) := owner.cardanoAddress.elim ({}, tables) fun address =>
    getDefaultInWalletAndUpdateOtherHandles hasStakeCredential handle.handle isOG address tables
  upsertHandle handle owner defaultInWallet tables

/-- The loop ends at a handle whose parent is not there. -/
def rollForwardHandles (handleMetadata : List HandleMetadata) :
    List HandleWithTotalSupply → ProjectionTables → Except DatabaseError ProjectionTables
  | [], tables => .ok tables
  | handle :: handles, tables =>
    if handle.totalSupply = 1 then
      if handle.parentHandle.any fun parent => !tables.handles.has parent then .ok tables
      else do
        let tables ← storeOwnedHandle hasStakeCredential handleMetadata handle.toHandleOwnership
          tables
        rollForwardHandles handleMetadata handles tables
    else
      rollForwardHandles handleMetadata handles { tables with
        handles := tables.handles.updateWhere (fun key _ => key = handle.handle)
          fun row => { row with cardanoAddress := none } }

def storeHandles (handles : List HandleOwnership) (handleMetadata : List HandleMetadata)
    (mintedAssetTotalSupplies : MintedAssetSupplies) (tables : ProjectionTables) :
    Except DatabaseError ProjectionTables :=
  rollForwardHandles hasStakeCredential handleMetadata
    (withTotalSupplies tables handles mintedAssetTotalSupplies) tables

end DefaultHandles

end CardanoSdk.Projection
