import CardanoSdk.Projection.UtxoStore

/-!
The chains the stores follow, and the table of assets along them.
-/

namespace CardanoSdk.Projection

open Lib
open InputSelection (AssetId TokenMap TxOut TransactionId PaymentAddress)
open Wallet (TxIn PartialBlockHeader)

def produced (chain : List StoreEvent) : List ProducedUtxo :=
  chain.reverse.flatMap fun event => event.utxo.produced

def consumed (chain : List StoreEvent) : List TxIn :=
  chain.reverse.flatMap fun event => event.utxo.consumed

def minted (chain : List StoreEvent) : List Mint :=
  chain.reverse.flatMap StoreEvent.mint

def mintSum (mint : List Mint) (assetId : AssetId) : ℤ :=
  ((mint.filter fun entry => entry.assetId = assetId).map Mint.quantity).sum

/-- What was produced on the chain and not consumed. -/
def unspent (chain : List StoreEvent) : List ProducedUtxo :=
  (produced chain).filter fun utxo => utxo.1 ∉ consumed chain

/-- An event may come next: its block is no other block, its transactions are new and
not of genesis, they consume each once what there is, and what they produce has been
minted. -/
structure MayExtend (genesis : TxIn → Prop) (chain : List StoreEvent) (event : StoreEvent) :
    Prop where
  header : ∀ below ∈ chain, below.header.slot ≠ event.header.slot ∧
    below.header.hash ≠ event.header.hash ∧ below.header.blockNo ≠ event.header.blockNo
  produced : ((produced (event :: chain)).map Prod.fst).Nodup
  fresh : ∀ utxo ∈ event.utxo.produced, ¬ genesis utxo.1
  consumed : (consumed (event :: chain)).Nodup
  exists_produced : ∀ txIn ∈ event.utxo.consumed,
    txIn ∈ (Projection.produced (event :: chain)).map Prod.fst ∨ genesis txIn
  assets : ∀ utxo ∈ event.utxo.produced, ∀ entry ∈ assetEntries utxo.2,
    entry.1 ∈ (minted (event :: chain)).map Mint.assetId

def ValidUtxoChain (genesis : TxIn → Prop) : List StoreEvent → Prop
  | [] => True
  | event :: chain => MayExtend genesis chain event ∧ ValidUtxoChain genesis chain

section Tip

variable (event : StoreEvent) (chain : List StoreEvent)

theorem produced_cons : produced (event :: chain) = produced chain ++ event.utxo.produced := by
  rw [produced, List.reverse_cons, List.flatMap_append, List.flatMap_singleton]
  rfl

theorem consumed_cons : consumed (event :: chain) = consumed chain ++ event.utxo.consumed := by
  rw [consumed, List.reverse_cons, List.flatMap_append, List.flatMap_singleton]
  rfl

theorem minted_cons : minted (event :: chain) = minted chain ++ event.mint := by
  rw [minted, List.reverse_cons, List.flatMap_append, List.flatMap_singleton]
  rfl

end Tip

theorem mintSum_append (mint mint' : List Mint) (assetId : AssetId) :
    mintSum (mint ++ mint') assetId = mintSum mint assetId + mintSum mint' assetId := by
  rw [mintSum, List.filter_append, List.map_append, List.sum_append]
  rfl

theorem mintSum_cons (entry : Mint) (mint : List Mint) (assetId : AssetId) :
    mintSum (entry :: mint) assetId =
      (if entry.assetId = assetId then entry.quantity else 0) + mintSum mint assetId := by
  by_cases h : entry.assetId = assetId
  · simp [mintSum, h]
  · simp [mintSum, h]

variable {assetId : AssetId} {chain : List StoreEvent} {slot : ℕ}

theorem mintSum_eq_zero {mint : List Mint} (h : assetId ∉ mint.map Mint.assetId) :
    mintSum mint assetId = 0 := by
  induction mint with
  | nil => rfl
  | cons entry mint ih =>
    rw [List.map_cons, List.mem_cons, not_or] at h
    rw [mintSum_cons, if_neg (Ne.symm h.1), ih h.2, add_zero]

def firstMintBlock : List StoreEvent → AssetId → Option ℕ
  | [], _ => none
  | event :: chain, assetId =>
    (firstMintBlock chain assetId).or
      (if assetId ∈ event.mint.map Mint.assetId then some event.header.slot else none)

def assetOf (chain : List StoreEvent) (assetId : AssetId) : Option AssetEntity :=
  (firstMintBlock chain assetId).map fun slot =>
    { supply := mintSum (minted chain) assetId, firstMintBlock := slot }

def AssetsOf (chain : List StoreEvent) (assets : JsMap AssetId AssetEntity) : Prop :=
  ∀ assetId, assets.get? assetId = assetOf chain assetId

theorem firstMintBlock_isSome :
    (firstMintBlock chain assetId).isSome ↔ assetId ∈ (minted chain).map Mint.assetId := by
  induction chain with
  | nil => simp [firstMintBlock, minted]
  | cons event chain ih =>
    rw [firstMintBlock, Option.isSome_or, Bool.or_eq_true, ih, minted_cons, List.map_append,
      List.mem_append]
    by_cases h : assetId ∈ event.mint.map Mint.assetId
    · rw [if_pos h]
      exact iff_of_true (Or.inr rfl) (Or.inr h)
    · rw [if_neg h]
      exact or_congr_right (iff_of_false Bool.false_ne_true h)

theorem firstMintBlock_mem (h : firstMintBlock chain assetId = some slot) :
    ∃ event ∈ chain, event.header.slot = slot := by
  induction chain with
  | nil => cases h
  | cons event chain ih =>
    rw [firstMintBlock, Option.or_eq_some_iff] at h
    rcases h with h | ⟨_, h⟩
    · obtain ⟨below, hmem, hslot⟩ := ih h
      exact ⟨below, List.mem_cons_of_mem _ hmem, hslot⟩
    · rw [Option.ite_none_right_eq_some, Option.some.injEq] at h
      exact ⟨event, List.mem_cons_self, h.2⟩

/-- An asset after the mints of a block, from what it was before. -/
def mintedAsset (slot : ℕ) (mint : List Mint) (assetId : AssetId) (before : Option AssetEntity) :
    Option AssetEntity :=
  if assetId ∈ mint.map Mint.assetId then
    some
      { supply := before.elim 0 AssetEntity.supply + mintSum mint assetId
        firstMintBlock := before.elim slot AssetEntity.firstMintBlock }
  else before

theorem assetOf_cons (event : StoreEvent) (chain : List StoreEvent) (assetId : AssetId) :
    assetOf (event :: chain) assetId =
      mintedAsset event.header.slot event.mint assetId (assetOf chain assetId) := by
  rw [mintedAsset, assetOf, assetOf, firstMintBlock, minted_cons, mintSum_append]
  cases hfirst : firstMintBlock chain assetId with
  | some slot =>
    by_cases hmint : assetId ∈ event.mint.map Mint.assetId
    · simp [hmint]
    · simp [hmint, mintSum_eq_zero hmint]
  | none =>
    have hnone : assetId ∉ (minted chain).map Mint.assetId := by
      rw [← firstMintBlock_isSome, hfirst]
      exact Bool.false_ne_true
    by_cases hmint : assetId ∈ event.mint.map Mint.assetId
    · simp [hmint, mintSum_eq_zero hnone]
    · simp [hmint]

theorem mintedAsset_cons (slot : ℕ) (entry : Mint) (mint : List Mint) (assetId : AssetId)
    (before : Option AssetEntity) :
    mintedAsset slot (entry :: mint) assetId before =
      mintedAsset slot mint assetId (mintedAsset slot [entry] assetId before) := by
  by_cases hentry : assetId = entry.assetId
  · subst hentry
    by_cases hmint : entry.assetId ∈ mint.map Mint.assetId
    · simp [mintedAsset, hmint, mintSum_cons entry mint, mintSum_cons entry [], mintSum_eq_zero,
        add_assoc]
    · simp [mintedAsset, hmint, mintSum_cons entry mint, mintSum_cons entry [], mintSum_eq_zero]
  · have hne : ¬entry.assetId = assetId := Ne.symm hentry
    by_cases hmint : assetId ∈ mint.map Mint.assetId
    · simp [mintedAsset, hmint, hentry, mintSum_cons entry mint, hne]
    · simp [mintedAsset, hmint, hentry]

variable {database : Database}

theorem rollForwardMint_ok (hblock : database.hasBlock slot = true) (totals : MintedAssetSupplies)
    (entry : Mint) :
    ∃ asset, mintedAsset slot [entry] entry.assetId (database.assets.get? entry.assetId) =
        some asset ∧
      rollForwardMint slot (database, totals) entry =
        .ok ({ database with assets := database.assets.set entry.assetId asset },
          totals.set entry.assetId asset.supply) := by
  rw [rollForwardMint]
  cases hstored : database.assets.get? entry.assetId with
  | some storedAsset =>
    refine ⟨{ storedAsset with supply := storedAsset.supply + entry.quantity }, ?_, rfl⟩
    simp [mintedAsset, mintSum]
  | none =>
    refine ⟨{ supply := entry.quantity, firstMintBlock := slot }, ?_, if_pos hblock⟩
    simp [mintedAsset, mintSum]

theorem foldlM_rollForwardMint (mint : List Mint) (hblock : database.hasBlock slot = true)
    (totals : MintedAssetSupplies) :
    ∃ assets totals', mint.foldlM (rollForwardMint slot) (database, totals) =
        .ok ({ database with assets }, totals') ∧
      (∀ assetId, assets.get? assetId =
        mintedAsset slot mint assetId (database.assets.get? assetId)) ∧
      ∀ assetId, totals'.get? assetId =
        if assetId ∈ mint.map Mint.assetId then
          (assets.get? assetId).map AssetEntity.supply
        else totals.get? assetId := by
  induction mint generalizing database totals with
  | nil =>
    refine ⟨database.assets, totals, rfl, ?_, ?_⟩
    · intro assetId
      exact (if_neg List.not_mem_nil).symm
    · intro assetId
      exact (if_neg List.not_mem_nil).symm
  | cons entry mint ih =>
    obtain ⟨asset, hasset, hstep⟩ := rollForwardMint_ok hblock totals entry
    obtain ⟨assets, totals', hrest, hassets, htotals⟩ :=
      @ih { database with assets := database.assets.set entry.assetId asset } hblock
        (totals.set entry.assetId asset.supply)
    have hfirst (assetId : AssetId) :
        (database.assets.set entry.assetId asset).get? assetId =
          mintedAsset slot [entry] assetId (database.assets.get? assetId) := by
      rw [JsMap.get?_set]
      by_cases hsame : assetId = entry.assetId
      · rw [if_pos hsame, hsame, hasset]
      · rw [if_neg hsame, mintedAsset, if_neg (by simpa using hsame)]
    refine ⟨assets, totals', ?_, ?_, ?_⟩
    · rw [List.foldlM_cons, hstep]
      exact hrest
    · intro assetId
      rw [hassets, hfirst, ← mintedAsset_cons]
    · intro assetId
      rw [htotals, List.map_cons]
      by_cases hmint : assetId ∈ mint.map Mint.assetId
      · rw [if_pos hmint, if_pos (List.mem_cons_of_mem _ hmint)]
      · rw [if_neg hmint, JsMap.get?_set, hassets, mintedAsset, if_neg hmint, hfirst]
        by_cases hsame : assetId = entry.assetId
        · rw [if_pos hsame, if_pos (List.mem_cons.mpr (Or.inl hsame)), hsame, hasset]
          rfl
        · rw [if_neg hsame, if_neg]
          rw [List.mem_cons, not_or]
          exact ⟨hsame, hmint⟩

def unmintedAsset (mint : List Mint) (assetId : AssetId) (before : Option AssetEntity) :
    Option AssetEntity :=
  before.map fun asset => { asset with supply := asset.supply - mintSum mint assetId }

theorem rollBackwardMint_eq (database : Database) (totals : MintedAssetSupplies) (entry : Mint) :
    ∃ assets, rollBackwardMint (database, totals) entry =
        ({ database with assets },
          totals.set entry.assetId ((assets.get? entry.assetId).elim 0 AssetEntity.supply)) ∧
      ∀ assetId, assets.get? assetId =
        unmintedAsset [entry] assetId (database.assets.get? assetId) := by
  have hother {assetId : AssetId} (hne : ¬assetId = entry.assetId) (before : Option AssetEntity) :
      unmintedAsset [entry] assetId before = before := by
    have hzero : mintSum [entry] assetId = 0 := mintSum_eq_zero (by simpa using hne)
    cases before <;> simp [unmintedAsset, hzero]
  rw [rollBackwardMint]
  cases hstored : database.assets.get? entry.assetId with
  | none =>
    refine ⟨database.assets, by rw [hstored]; rfl, ?_⟩
    intro assetId
    by_cases hsame : assetId = entry.assetId
    · rw [hsame, hstored]
      rfl
    · rw [hother hsame]
  | some asset =>
    refine ⟨_, by rw [JsMap.get?_set_self]; rfl, ?_⟩
    intro assetId
    rw [JsMap.get?_set]
    by_cases hsame : assetId = entry.assetId
    · rw [if_pos hsame, hsame, hstored, unmintedAsset, Option.map_some, mintSum_cons,
        if_pos rfl]
      by_cases hpositive : entry.quantity > 0
      · simp [hpositive, mintSum]
      · simp [hpositive, mintSum, sub_eq_add_neg]
    · rw [if_neg hsame, hother hsame]

theorem unmintedAsset_cons (entry : Mint) (mint : List Mint) (assetId : AssetId)
    (before : Option AssetEntity) :
    unmintedAsset (entry :: mint) assetId before =
      unmintedAsset mint assetId (unmintedAsset [entry] assetId before) := by
  rw [unmintedAsset, mintSum_cons, unmintedAsset, unmintedAsset, mintSum_cons]
  cases before with
  | none => rfl
  | some asset => simp [mintSum, sub_sub]

theorem foldl_rollBackwardMint (mint : List Mint) (database : Database)
    (totals : MintedAssetSupplies) :
    ∃ assets totals', mint.foldl rollBackwardMint (database, totals) =
        ({ database with assets }, totals') ∧
      (∀ assetId, assets.get? assetId =
        unmintedAsset mint assetId (database.assets.get? assetId)) ∧
      ∀ assetId, totals'.get? assetId =
        if assetId ∈ mint.map Mint.assetId then
          some ((assets.get? assetId).elim 0 AssetEntity.supply)
        else totals.get? assetId := by
  induction mint generalizing database totals with
  | nil =>
    refine ⟨database.assets, totals, rfl, ?_, ?_⟩
    · intro assetId
      rw [unmintedAsset]
      cases database.assets.get? assetId <;> simp [mintSum]
    · intro assetId
      exact (if_neg List.not_mem_nil).symm
  | cons entry mint ih =>
    obtain ⟨first, hstep, hfirst⟩ := rollBackwardMint_eq database totals entry
    obtain ⟨assets, totals', hrest, hassets, htotals⟩ := ih { database with assets := first }
      (totals.set entry.assetId ((first.get? entry.assetId).elim 0 AssetEntity.supply))
    refine ⟨assets, totals', ?_, ?_, ?_⟩
    · rw [List.foldl_cons, hstep]
      exact hrest
    · intro assetId
      rw [hassets, hfirst, ← unmintedAsset_cons]
    · intro assetId
      rw [htotals, List.map_cons]
      by_cases hmint : assetId ∈ mint.map Mint.assetId
      · rw [if_pos hmint, if_pos (List.mem_cons_of_mem _ hmint)]
      · have hsame : assets.get? assetId = first.get? assetId := by
          rw [hassets, unmintedAsset, mintSum_eq_zero hmint]
          cases first.get? assetId <;> simp
        rw [if_neg hmint, JsMap.get?_set, hsame]
        by_cases hentry : assetId = entry.assetId
        · rw [if_pos hentry, if_pos (List.mem_cons.mpr (Or.inl hentry)), hentry]
        · rw [if_neg hentry, if_neg]
          rw [List.mem_cons, not_or]
          exact ⟨hentry, hmint⟩

theorem unmintedAsset_assetOf {event : StoreEvent}
    (hheader : ∀ below ∈ chain, below.header.slot ≠ event.header.slot) (assetId : AssetId) :
    unmintedAsset event.mint assetId ((assetOf (event :: chain) assetId).filter fun asset =>
      asset.firstMintBlock ≠ event.header.slot) = assetOf chain assetId := by
  rw [assetOf_cons, mintedAsset]
  cases hbefore : assetOf chain assetId with
  | none =>
    by_cases hmint : assetId ∈ event.mint.map Mint.assetId
    · rw [if_pos hmint]
      simp [unmintedAsset]
    · rw [if_neg hmint]
      rfl
  | some asset =>
    have hslot : asset.firstMintBlock ≠ event.header.slot := by
      rw [assetOf, Option.map_eq_some_iff] at hbefore
      obtain ⟨slot, hfirst, rfl⟩ := hbefore
      obtain ⟨below, hmem, rfl⟩ := firstMintBlock_mem hfirst
      exact hheader below hmem
    by_cases hmint : assetId ∈ event.mint.map Mint.assetId
    · rw [if_pos hmint]
      simp [unmintedAsset, hslot]
    · rw [if_neg hmint]
      simp [unmintedAsset, hslot, mintSum_eq_zero hmint]

end CardanoSdk.Projection
