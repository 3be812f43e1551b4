import CardanoSdk.Projection.Mappers
import CardanoSdk.Projection.UtxoFollowsChain

/-!
The tables of outputs and assets against the ledger, which takes of a failed transaction
the collaterals and the collateral return alone.
-/

namespace CardanoSdk.Projection

open Lib
open InputSelection (AssetId TxOut)
open Wallet (TxIn PartialBlockHeader)

variable {Certificate : Type}

section Ledger

/-- The collateral return stands behind all the declared outputs. -/
def ledgerOutputs (tx : OnChainTx Certificate) : List ProducedUtxo :=
  if isPhase2ValidationErrTx tx then
    tx.body.collateralReturn.toList.map fun output =>
      ({ txId := tx.id, index := tx.body.outputs.length }, output)
  else tx.body.outputs.zipIdx.map fun (output, index) => ({ txId := tx.id, index }, output)

def ledgerInputs (tx : OnChainTx Certificate) : List TxIn :=
  if isPhase2ValidationErrTx tx then tx.body.collaterals.getD [] else tx.body.inputs

def ledgerMint (tx : OnChainTx Certificate) : List (AssetId × ℤ) :=
  if isPhase2ValidationErrTx tx then [] else mintEntries tx

def transactions (chain : List (Block Certificate)) : List (OnChainTx Certificate) :=
  chain.reverse.flatMap Block.body

def ledgerUnspent (chain : List (Block Certificate)) : List ProducedUtxo :=
  ((transactions chain).flatMap ledgerOutputs).filter fun utxo =>
    utxo.1 ∉ (transactions chain).flatMap ledgerInputs

def mintedAssets (txs : List (OnChainTx Certificate)) : List AssetId :=
  (txs.flatMap ledgerMint).map Prod.fst

def supply (txs : List (OnChainTx Certificate)) (assetId : AssetId) : ℤ :=
  (((txs.flatMap ledgerMint).filter fun entry => entry.1 = assetId).map Prod.snd).sum

/-- A block may come next: it is no other block, its transactions are new and not of
genesis, they consume each once what there is, and what they produce has been minted. -/
structure MayFollow (genesis : TxIn → Prop) (chain : List (Block Certificate))
    (block : Block Certificate) : Prop where
  header : ∀ below ∈ chain, below.header.slot ≠ block.header.slot ∧
    below.header.hash ≠ block.header.hash ∧ below.header.blockNo ≠ block.header.blockNo
  outputs : (((transactions (block :: chain)).flatMap ledgerOutputs).map Prod.fst).Nodup
  fresh : ∀ utxo ∈ block.body.flatMap ledgerOutputs, ¬ genesis utxo.1
  inputs : ((transactions (block :: chain)).flatMap ledgerInputs).Nodup
  resolved : ∀ txIn ∈ block.body.flatMap ledgerInputs,
    txIn ∈ ((transactions (block :: chain)).flatMap ledgerOutputs).map Prod.fst ∨ genesis txIn
  tokens : ∀ utxo ∈ block.body.flatMap ledgerOutputs, ∀ entry ∈ assetEntries utxo.2,
    entry.1 ∈ mintedAssets (transactions (block :: chain))

def ValidBlocks (genesis : TxIn → Prop) : List (Block Certificate) → Prop
  | [] => True
  | block :: chain => MayFollow genesis chain block ∧ ValidBlocks genesis chain

end Ledger

def NoFailedMint (block : Block Certificate) : Prop :=
  ∀ tx ∈ block.body, isPhase2ValidationErrTx tx = true → mintEntries tx = []

section Mapped

variable (hash : List UInt8 → List UInt8)

def storeEvent (block : Block Certificate) : StoreEvent where
  header := block.header
  utxo := withUtxo hash block
  mint := withMint block

def hydrated (tx : OnChainTx Certificate) (utxo : ProducedUtxo) : ProducedUtxo :=
  (utxo.1, attemptHydrateDatum hash tx.datums utxo.2)

/-- A datum that is hydrated stands beside its hash, and is not stored. -/
theorem storedOutput_hydrated (tx : OnChainTx Certificate) (utxo : ProducedUtxo) :
    storedOutput (hydrated hash tx utxo) = storedOutput utxo ∧
      assetEntries (hydrated hash tx utxo).2 = assetEntries utxo.2 := by
  obtain ⟨txIn, txOut⟩ := utxo
  unfold hydrated attemptHydrateDatum
  cases hdatum : txOut.datumHash with
  | none => exact ⟨rfl, rfl⟩
  | some datumHash =>
    dsimp only
    split
    · exact ⟨rfl, rfl⟩
    · refine ⟨?_, rfl⟩
      simp [storedOutput, assetEntries, inlineDatum, hdatum]

theorem producedOf_eq (tx : OnChainTx Certificate) :
    producedOf hash tx = (ledgerOutputs tx).map (hydrated hash tx) := by
  unfold producedOf ledgerOutputs isPhase2ValidationErrTx
  cases tx.inputSource with
  | inputs =>
    rw [if_pos rfl, if_neg (by decide), List.map_map]
    rfl
  | collaterals =>
    rw [if_neg (by decide), if_pos (by decide), List.map_map]
    rfl

theorem consumedOf_eq (tx : OnChainTx Certificate) : consumedOf tx = ledgerInputs tx := by
  unfold consumedOf ledgerInputs isPhase2ValidationErrTx
  cases tx.inputSource with
  | inputs => rfl
  | collaterals => rfl

variable (chain : List (Block Certificate))

theorem flatMap_events {α : Type} (perEvent : StoreEvent → List α)
    (perTx : OnChainTx Certificate → List α)
    (h : ∀ block : Block Certificate, perEvent (storeEvent hash block) = block.body.flatMap perTx) :
    (chain.map (storeEvent hash)).reverse.flatMap perEvent = (transactions chain).flatMap perTx := by
  rw [← List.map_reverse, List.flatMap_map, transactions, List.flatMap_assoc]
  exact List.flatMap_congr fun block _ => h block

theorem produced_events : produced (chain.map (storeEvent hash)) =
    (transactions chain).flatMap (producedOf hash) :=
  flatMap_events hash chain _ _ fun _ => rfl

theorem consumed_events : consumed (chain.map (storeEvent hash)) =
    (transactions chain).flatMap ledgerInputs :=
  flatMap_events hash chain _ _ fun _ =>
    List.flatMap_congr fun tx _ => consumedOf_eq tx

theorem map_fst_produced (txs : List (OnChainTx Certificate)) :
    (txs.flatMap (producedOf hash)).map Prod.fst = (txs.flatMap ledgerOutputs).map Prod.fst := by
  rw [List.map_flatMap, List.map_flatMap]
  refine List.flatMap_congr fun tx _ => ?_
  rw [producedOf_eq, List.map_map]
  rfl

theorem unspent_events : (unspent (chain.map (storeEvent hash))).map storedOutput =
    (ledgerUnspent chain).map storedOutput := by
  rw [unspent, ledgerUnspent, produced_events, consumed_events, List.filter_flatMap,
    List.filter_flatMap, List.map_flatMap, List.map_flatMap]
  refine List.flatMap_congr fun tx _ => ?_
  rw [producedOf_eq, List.filter_map, List.map_map]
  exact List.map_congr_left fun utxo _ => (storedOutput_hydrated hash tx utxo).1

def Mint.entry (mint : Mint) : AssetId × ℤ := (mint.assetId, mint.quantity)

theorem entries_withMint (block : Block Certificate) (h : NoFailedMint block) :
    (withMint block).map Mint.entry = block.body.flatMap ledgerMint := by
  rw [withMint, List.map_flatMap]
  have hentries (tx : OnChainTx Certificate) (txIndex : ℕ) :
      (mintsOf block.header.blockNo tx txIndex).map Mint.entry = mintEntries tx := by
    rw [mintsOf, List.map_map]
    exact List.map_id _
  simp only [hentries]
  rw [flatMap_zipIdx_fst block.body mintEntries]
  refine List.flatMap_congr fun tx htx => ?_
  rw [ledgerMint]
  split
  · rename_i hfailed
    exact h tx htx hfailed
  · rfl

theorem entries_minted (h : ∀ block ∈ chain, NoFailedMint block) :
    (minted (chain.map (storeEvent hash))).map Mint.entry =
      (transactions chain).flatMap ledgerMint := by
  rw [minted, ← List.map_reverse, List.flatMap_map, List.map_flatMap, transactions,
    List.flatMap_assoc]
  exact List.flatMap_congr fun block hblock =>
    entries_withMint block (h block (List.mem_reverse.mp hblock))

variable {mint : List Mint} {txs : List (OnChainTx Certificate)} (assetId : AssetId)

theorem mem_mintedAssets_iff (h : mint.map Mint.entry = txs.flatMap ledgerMint) :
    assetId ∈ mint.map Mint.assetId ↔ assetId ∈ mintedAssets txs := by
  rw [mintedAssets, ← h, List.map_map]
  rfl

theorem mintSum_eq_supply (h : mint.map Mint.entry = txs.flatMap ledgerMint) :
    mintSum mint assetId = supply txs assetId := by
  rw [supply, ← h, List.filter_map, List.map_map]
  rfl

end Mapped

variable {genesis : TxIn → Prop} {hash : List UInt8 → List UInt8}
  {chain : List (Block Certificate)}

theorem validUtxoChain_events (hvalid : ValidBlocks genesis chain)
    (hmints : ∀ block ∈ chain, NoFailedMint block) :
    ValidUtxoChain genesis (chain.map (storeEvent hash)) := by
  induction chain with
  | nil => exact trivial
  | cons block chain ih =>
    obtain ⟨hnext, hbelow⟩ := hvalid
    refine ⟨?_, ih hbelow fun below hmem => hmints below (List.mem_cons_of_mem _ hmem)⟩
    have hproduced : produced (storeEvent hash block :: chain.map (storeEvent hash)) =
        (transactions (block :: chain)).flatMap (producedOf hash) :=
      produced_events hash (block :: chain)
    have hconsumed : consumed (storeEvent hash block :: chain.map (storeEvent hash)) =
        (transactions (block :: chain)).flatMap ledgerInputs :=
      consumed_events hash (block :: chain)
    have hminted : (minted (storeEvent hash block :: chain.map (storeEvent hash))).map Mint.entry =
        (transactions (block :: chain)).flatMap ledgerMint :=
      entries_minted hash (block :: chain) hmints
    have hutxo : ∀ utxo ∈ (storeEvent hash block).utxo.produced,
        ∃ tx : OnChainTx Certificate, ∃ output ∈ block.body.flatMap ledgerOutputs, utxo = hydrated hash tx output := by
      intro utxo hmem
      obtain ⟨tx, htx, hmem⟩ := List.mem_flatMap.mp hmem
      rw [producedOf_eq] at hmem
      obtain ⟨output, houtput, rfl⟩ := List.mem_map.mp hmem
      exact ⟨tx, output, List.mem_flatMap.mpr ⟨tx, htx, houtput⟩, rfl⟩
    exact {
      header := List.forall_mem_map.mpr hnext.header
      produced := by
        rw [hproduced, map_fst_produced]
        exact hnext.outputs
      fresh := by
        intro utxo hmem
        obtain ⟨tx, output, houtput, rfl⟩ := hutxo utxo hmem
        exact hnext.fresh output houtput
      consumed := by
        rw [hconsumed]
        exact hnext.inputs
      exists_produced := by
        intro txIn hmem
        rw [hproduced, map_fst_produced]
        obtain ⟨tx, htx, hmem⟩ := List.mem_flatMap.mp hmem
        rw [consumedOf_eq] at hmem
        exact hnext.resolved txIn (List.mem_flatMap.mpr ⟨tx, htx, hmem⟩)
      assets := by
        intro utxo hmem entry hentry
        obtain ⟨tx, output, houtput, rfl⟩ := hutxo utxo hmem
        rw [(storedOutput_hydrated hash tx output).2] at hentry
        rw [mem_mintedAssets_iff _ hminted]
        exact hnext.tokens output houtput entry hentry }

/-- The unspent outputs and the supplies in the tables are those of the chain. -/
structure TablesFollow (chain : List (Block Certificate)) (database : Database) : Prop where
  unspent : database.unspent = (ledgerUnspent chain).map storedOutput
  supplies : ∀ assetId, (database.assets.get? assetId).map AssetEntity.supply =
    if assetId ∈ mintedAssets (transactions chain) then some (supply (transactions chain) assetId)
    else none

def ReportsSupplies (chain : List (Block Certificate)) (block : Block Certificate)
    (totals : MintedAssetSupplies) : Prop :=
  ∀ assetId, totals.get? assetId =
    if assetId ∈ mintedAssets block.body then some (supply (transactions chain) assetId) else none

theorem TablesOf.follow (hmints : ∀ block ∈ chain, NoFailedMint block) {database : Database}
    (h : TablesOf (chain.map (storeEvent hash)) database) : TablesFollow chain database where
  unspent := by
    obtain ⟨entries, houtputs⟩ := h.outputs
    rw [houtputs.unspent, unspent_events]
  supplies := by
    intro assetId
    have hentries := entries_minted hash chain hmints
    rw [h.assets, map_supply_assetOf]
    simp only [mem_mintedAssets_iff assetId hentries, mintSum_eq_supply assetId hentries]

theorem Reports.supplies {block : Block Certificate} (hmints : ∀ block ∈ chain, NoFailedMint block)
    (hblock : NoFailedMint block) {totals : MintedAssetSupplies}
    (h : Reports (withMint block) (chain.map (storeEvent hash)) totals) :
    ReportsSupplies chain block totals := by
  intro assetId
  rw [h assetId, mintSum_eq_supply assetId (entries_minted hash chain hmints)]
  simp only [mem_mintedAssets_iff assetId (entries_withMint block hblock)]

def blockProjection (hash : List UInt8 → List UInt8) :
    StoreOperator (Block Certificate) (Except DatabaseError StoreState) :=
  storeProjection.comap (storeEvent hash)

/-- A chain that the tables can follow. -/
def Storable (genesis : TxIn → Prop) (chain : List (Block Certificate)) : Prop :=
  ValidBlocks genesis chain ∧ ∀ block ∈ chain, NoFailedMint block

theorem storable_below (block : Block Certificate) (chain : List (Block Certificate))
    (h : Storable genesis (block :: chain)) : Storable genesis chain :=
  ⟨h.1.2, fun below hmem => h.2 below (List.mem_cons_of_mem _ hmem)⟩

theorem blockProjection_tracks : (@blockProjection Certificate hash).Tracks (Storable genesis)
    fun chain => RepresentsChain (chain.map (storeEvent hash)) :=
  storeProjection_tracks.comap (storeEvent hash) fun _ h => validUtxoChain_events h.1 h.2

def genesisInput (txIn : TxIn) : Prop := txIn.txId = [0]

/-- The block spends an output of genesis, mints two tokens and sends them. -/
def mintingBlock : Block Unit where
  header := { blockNo := 1, slot := 1, hash := "a" }
  body := [{
    id := [1]
    inputSource := .inputs
    body := {
      inputs := [⟨[0], 0⟩]
      outputs := [
        { address := "addr", value := { coins := 5, assets := some ⟨[([9], 2)], by simp⟩ } }]
      mint := some ⟨[([9], 2)], by simp⟩ } }]

def burningBlock : Block Unit where
  header := { blockNo := 2, slot := 2, hash := "b" }
  body := [{
    id := [2]
    inputSource := .inputs
    body := {
      inputs := [⟨[1], 0⟩]
      outputs := [
        { address := "addr", value := { coins := 4, assets := some ⟨[([9], 1)], by simp⟩ } }]
      mint := some ⟨[([9], -1)], by simp⟩ } }, {
    id := [3]
    inputSource := .collaterals
    body := {
      collaterals := some [⟨[0], 1⟩]
      outputs := [{ address := "addr", value := { coins := 7 } }]
      collateralReturn := some { address := "addr", value := { coins := 6 } } } }]

theorem validBlocks_burningBlock : ValidBlocks genesisInput [burningBlock, mintingBlock] := by
  refine ⟨⟨?_, ?_, ?_, ?_, ?_, ?_⟩, ⟨?_, ?_, ?_, ?_, ?_, ?_⟩, trivial⟩ <;>
    simp [burningBlock, mintingBlock, transactions, ledgerOutputs, ledgerInputs, ledgerMint,
      mintedAssets, mintEntries, assetEntries, isPhase2ValidationErrTx, genesisInput]

def unmintedBlock : Block Unit where
  header := { blockNo := 1, slot := 1, hash := "a" }
  body := [{
    id := [1]
    inputSource := .collaterals
    body := { collaterals := some [⟨[0], 0⟩], mint := some ⟨[([9], 1)], by simp⟩ } }]

theorem validBlocks_unmintedBlock : ValidBlocks genesisInput [unmintedBlock] := by
  refine ⟨⟨?_, ?_, ?_, ?_, ?_, ?_⟩, trivial⟩ <;>
    simp [unmintedBlock, transactions, ledgerOutputs, ledgerInputs, isPhase2ValidationErrTx,
      genesisInput]

end CardanoSdk.Projection
