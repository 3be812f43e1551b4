import CardanoSdk.Projection.AssetSupplies

/-!
The tables of outputs and assets follow the chain after every run of roll forwards and
rollbacks.
-/

namespace CardanoSdk.Projection

open Lib
open InputSelection (AssetId TokenMap TxOut TransactionId PaymentAddress)
open Wallet (TxIn PartialBlockHeader)

structure StoredOutput where
  txIn : TxIn
  address : PaymentAddress
  coins : ℤ
  tokens : List (AssetId × ℤ)
  datumHash : Option (List UInt8)
  datum : Option (List UInt8)
  scriptReference : Option (List UInt8)
  deriving DecidableEq

def storedOutput : ProducedUtxo → StoredOutput
  | (txIn, txOut) =>
    { txIn
      address := txOut.address
      coins := txOut.value.coins
      tokens := assetEntries txOut
      datumHash := txOut.datumHash
      datum := inlineDatum txOut.datum txOut.datumHash
      scriptReference := txOut.scriptReference }

def OutputEntity.txIn (output : OutputEntity) : TxIn :=
  { txId := output.txId, index := output.outputIndex }

def Database.storedOutput (database : Database) (output : OutputEntity) : StoredOutput :=
  { txIn := output.txIn
    address := output.address
    coins := output.coins
    tokens := (database.tokens.filter fun row => row.output = output.id).map fun row =>
      (row.asset, row.quantity)
    datumHash := output.datumHash
    datum := output.datum
    scriptReference := output.scriptReference }

def Database.unspent (database : Database) : List StoredOutput :=
  (database.outputs.filter fun output => output.consumedAtSlot = none).map database.storedOutput

structure OutputEntry where
  id : ℕ
  slot : ℕ
  utxo : ProducedUtxo

def consumedAt : List StoreEvent → TxIn → Option ℕ
  | [], _ => none
  | event :: chain, txIn =>
    if txIn ∈ event.utxo.consumed then some event.header.slot else consumedAt chain txIn

def OutputEntry.row (chain : List StoreEvent) (entry : OutputEntry) : OutputEntity :=
  { outputEntity entry.slot entry.id entry.utxo with
    consumedAtSlot := consumedAt chain entry.utxo.1 }

def OutputEntry.tokens (entry : OutputEntry) : List TokensEntity :=
  tokensEntities entry.id entry.utxo

def producedAt (chain : List StoreEvent) : List (ℕ × ProducedUtxo) :=
  chain.reverse.flatMap fun event => event.utxo.produced.map fun utxo => (event.header.slot, utxo)

structure OutputsOf (chain : List StoreEvent) (database : Database) (entries : List OutputEntry) :
    Prop where
  ids : (entries.map OutputEntry.id).Nodup
  sequence : ∀ entry ∈ entries, entry.id < database.outputSequence
  rows : entries.map (fun entry => (entry.slot, entry.utxo)) = producedAt chain
  outputs : database.outputs = entries.map (OutputEntry.row chain)
  tokens : database.tokens = entries.flatMap OutputEntry.tokens

theorem producedAt_cons (event : StoreEvent) (chain : List StoreEvent) :
    producedAt (event :: chain) =
      producedAt chain ++ event.utxo.produced.map fun utxo => (event.header.slot, utxo) := by
  rw [producedAt, List.reverse_cons, List.flatMap_append, List.flatMap_singleton]
  rfl

theorem map_snd_producedAt (chain : List StoreEvent) :
    (producedAt chain).map Prod.snd = produced chain := by
  induction chain with
  | nil => rfl
  | cons event chain ih =>
    rw [producedAt_cons, produced_cons, List.map_append, ih, List.map_map]
    exact congrArg _ (List.map_id _)

variable {genesis : TxIn → Prop} {chain : List StoreEvent} {event : StoreEvent}
  {database : Database} {slot : ℕ}
  {entries : List OutputEntry}

variable {utxo : ProducedUtxo} {state : StoreState}

theorem mem_slots_of_producedAt (h : (slot, utxo) ∈ producedAt chain) :
    ∃ event ∈ chain, event.header.slot = slot := by
  obtain ⟨event, hevent, hmem⟩ := List.mem_flatMap.mp h
  obtain ⟨_, _, heq⟩ := List.mem_map.mp hmem
  exact ⟨event, List.mem_reverse.mp hevent, congrArg Prod.fst heq⟩

theorem consumedAt_eq_none {txIn : TxIn} :
    consumedAt chain txIn = none ↔ txIn ∉ consumed chain := by
  induction chain with
  | nil => exact iff_of_true rfl List.not_mem_nil
  | cons event chain ih =>
    rw [consumedAt, consumed_cons, List.mem_append, not_or]
    by_cases hconsumed : txIn ∈ event.utxo.consumed
    · rw [if_pos hconsumed]
      exact iff_of_false (fun heq => nomatch heq) fun h => h.2 hconsumed
    · rw [if_neg hconsumed, ih]
      exact (and_iff_left hconsumed).symm

theorem filter_flatMap_tokens (hids : (entries.map OutputEntry.id).Nodup) {entry : OutputEntry}
    (hentry : entry ∈ entries) :
    (entries.flatMap OutputEntry.tokens).filter (fun row => row.output = entry.id) =
      entry.tokens := by
  have hkey (other : OutputEntry) (row : TokensEntity) (hrow : row ∈ other.tokens) :
      row.output = other.id := by
    obtain ⟨_, _, rfl⟩ := List.mem_map.mp hrow
    rfl
  have hnone (others : List OutputEntry) (hid : entry.id ∉ others.map OutputEntry.id) :
      (others.flatMap OutputEntry.tokens).filter (fun row => row.output = entry.id) = [] := by
    rw [List.filter_eq_nil_iff]
    intro row hrow
    obtain ⟨other, hother, hrow⟩ := List.mem_flatMap.mp hrow
    rw [hkey other row hrow, decide_eq_true_iff]
    intro heq
    exact hid (heq ▸ List.mem_map_of_mem hother)
  induction entries with
  | nil => cases hentry
  | cons first others ih =>
    rw [List.map_cons, List.nodup_cons] at hids
    rw [List.flatMap_cons, List.filter_append]
    rcases List.mem_cons.mp hentry with rfl | hmem
    · rw [hnone others hids.1, List.append_nil, List.filter_eq_self]
      intro row hrow
      exact decide_eq_true (hkey _ row hrow)
    · have hne : first.id ≠ entry.id := by
        intro heq
        exact hids.1 (heq ▸ List.mem_map_of_mem hmem)
      rw [ih hids.2 hmem, List.filter_eq_nil_iff.mpr, List.nil_append]
      intro row hrow
      rw [hkey first row hrow, decide_eq_true_iff]
      exact hne

theorem OutputsOf.unspent {chain : List StoreEvent} {database : Database}
    {entries : List OutputEntry} (h : OutputsOf chain database entries) :
    database.unspent = (Projection.unspent chain).map Projection.storedOutput := by
  have hunspent : Projection.unspent chain =
      (entries.filter fun entry => entry.utxo.1 ∉ consumed chain).map OutputEntry.utxo := by
    have hproduced : produced chain = entries.map OutputEntry.utxo := by
      rw [← map_snd_producedAt, ← h.rows, List.map_map]
      rfl
    rw [Projection.unspent, hproduced, List.filter_map]
    rfl
  have hfilter : database.outputs.filter (fun output => output.consumedAtSlot = none) =
      (entries.filter fun entry => entry.utxo.1 ∉ consumed chain).map (OutputEntry.row chain) := by
    rw [h.outputs, List.filter_map]
    apply congrArg
    apply List.filter_congr
    intro entry _
    exact decide_eq_decide.mpr consumedAt_eq_none
  rw [Database.unspent, hfilter, hunspent, List.map_map, List.map_map]
  apply List.map_congr_left
  intro entry hentry
  have hmem : entry ∈ entries := List.mem_of_mem_filter hentry
  have htokens := filter_flatMap_tokens h.ids hmem
  rw [← h.tokens] at htokens
  have hread : (entry.tokens.map fun row => (row.asset, row.quantity)) =
      assetEntries entry.utxo.2 := by
    rw [OutputEntry.tokens, tokensEntities, List.map_map]
    exact List.map_id _
  rw [Function.comp_apply, Function.comp_apply, Database.storedOutput]
  change StoredOutput.mk _ _ _ ((database.tokens.filter fun row => row.output = entry.id).map _)
    _ _ _ = _
  rw [htokens, hread]
  rfl

theorem foldl_setConsumedAtSlot (consumedAtSlot : Option ℕ) (txIns : List TxIn)
    (database : Database) :
    txIns.foldl (Database.setConsumedAtSlot consumedAtSlot) database =
      { database with
        outputs := database.outputs.map fun output =>
          if output.txIn ∈ txIns then { output with consumedAtSlot } else output } := by
  induction txIns generalizing database with
  | nil => simp
  | cons txIn txIns ih =>
    rw [List.foldl_cons, ih, Database.setConsumedAtSlot]
    simp only [List.map_map, Database.mk.injEq, true_and, and_true]
    apply List.map_congr_left
    intro output _
    have hsame : (output.outputIndex = txIn.index ∧ output.txId = txIn.txId) ↔
        output.txIn = txIn := by
      obtain ⟨txId, index⟩ := txIn
      simp only [OutputEntity.txIn, TxIn.mk.injEq]
      exact and_comm
    simp only [Function.comp_apply, hsame, List.mem_cons]
    by_cases hfirst : output.txIn = txIn
    · rw [if_pos hfirst, if_pos (Or.inl hfirst)]
      exact ite_self _
    · rw [if_neg hfirst]
      simp only [hfirst, false_or]

theorem produced_or_genesis (hvalid : ValidUtxoChain genesis chain) :
    ∀ txIn ∈ consumed chain, txIn ∈ (produced chain).map Prod.fst ∨ genesis txIn := by
  induction chain with
  | nil =>
    intro txIn hmem
    exact absurd hmem List.not_mem_nil
  | cons event chain ih =>
    intro txIn hmem
    rw [consumed_cons, List.mem_append] at hmem
    rcases hmem with hmem | hmem
    · rw [produced_cons, List.map_append]
      exact (ih hvalid.2 txIn hmem).imp_left (List.mem_append_left _)
    · exact hvalid.1.exists_produced txIn hmem

theorem consumedAt_new (hvalid : ValidUtxoChain genesis (event :: chain))
    (hutxo : utxo ∈ event.utxo.produced) : consumedAt chain utxo.1 = none := by
  rw [consumedAt_eq_none]
  intro hconsumed
  rcases produced_or_genesis hvalid.2 _ hconsumed with hproduced | hgenesis
  · have hnodup := hvalid.1.produced
    rw [produced_cons, List.map_append, List.nodup_append] at hnodup
    exact hnodup.2.2 _ hproduced _ (List.mem_map_of_mem hutxo) rfl
  · exact hvalid.1.fresh utxo hutxo hgenesis

theorem consumedAt_consumed (hvalid : ValidUtxoChain genesis (event :: chain)) {txIn : TxIn}
    (htxIn : txIn ∈ event.utxo.consumed) : consumedAt chain txIn = none := by
  rw [consumedAt_eq_none]
  intro hconsumed
  have hnodup := hvalid.1.consumed
  rw [consumed_cons, List.nodup_append] at hnodup
  exact hnodup.2.2 _ hconsumed _ htxIn rfl

def newEntries (slot : ℕ) (identifiers : List ℕ) (produced : List ProducedUtxo) :
    List OutputEntry :=
  (identifiers.zip produced).map fun pair => { id := pair.1, slot, utxo := pair.2 }

section NewEntries

variable {slot : ℕ} {identifiers : List ℕ} {utxos : List ProducedUtxo}

theorem mem_newEntries {entry : OutputEntry} (h : entry ∈ newEntries slot identifiers utxos) :
    entry.id ∈ identifiers ∧ entry.utxo ∈ utxos := by
  obtain ⟨⟨id, utxo⟩, hmem, rfl⟩ := List.mem_map.mp h
  exact List.of_mem_zip hmem

theorem map_id_newEntries (hlength : identifiers.length = utxos.length) :
    (newEntries slot identifiers utxos).map OutputEntry.id = identifiers := by
  rw [newEntries, List.map_map]
  exact List.map_fst_zip hlength.le

theorem map_utxo_newEntries (hlength : identifiers.length = utxos.length) :
    (newEntries slot identifiers utxos).map (fun entry => (entry.slot, entry.utxo)) =
      utxos.map fun utxo => (slot, utxo) := by
  rw [newEntries, List.map_map]
  conv_rhs => rw [← List.map_snd_zip hlength.ge, List.map_map]
  rfl

theorem map_row_newEntries (chain : List StoreEvent)
    (hnew : ∀ utxo ∈ utxos, consumedAt chain utxo.1 = none) :
    List.zipWith (outputEntity slot) identifiers utxos =
      (newEntries slot identifiers utxos).map (OutputEntry.row chain) := by
  rw [newEntries, List.map_map, ← List.map_uncurry_zip_eq_zipWith]
  apply List.map_congr_left
  rintro ⟨id, utxo⟩ hmem
  rw [Function.comp_apply, OutputEntry.row, hnew utxo (List.of_mem_zip hmem).2]
  rfl

theorem flatMap_tokens_newEntries (slot : ℕ) :
    (List.zipWith tokensEntities identifiers utxos).flatten =
      (newEntries slot identifiers utxos).flatMap OutputEntry.tokens := by
  rw [newEntries, List.flatMap_map, List.flatMap_def, ← List.map_uncurry_zip_eq_zipWith]
  rfl

end NewEntries

theorem insertOutputs_ok (hblock : database.hasBlock slot = true) (utxos : List ProducedUtxo) :
    insertOutputs slot utxos database =
      .ok { database with
        outputs := database.outputs ++
          List.zipWith (outputEntity slot) (database.identifiers utxos) utxos
        outputSequence := database.outputSequence + utxos.length } := by
  rw [insertOutputs, if_pos hblock]
  by_cases hempty : utxos = []
  · subst hempty
    simp
  · rw [if_neg hempty]

theorem rollForwardUtxo_ok (hblock : database.hasBlock slot = true) {utxo : WithUtxo}
    (htokens : ((List.zipWith tokensEntities (database.identifiers utxo.produced)
      utxo.produced).flatten.all fun row => database.assets.has row.asset) = true) :
    rollForwardUtxo slot utxo database = .ok
      ({ database with
        outputs := (database.outputs ++
          List.zipWith (outputEntity slot) (database.identifiers utxo.produced)
            utxo.produced).map fun output =>
              if output.txIn ∈ utxo.consumed then { output with consumedAtSlot := some slot }
              else output
        tokens := database.tokens ++ (List.zipWith tokensEntities
          (database.identifiers utxo.produced) utxo.produced).flatten
        outputSequence := database.outputSequence + utxo.produced.length },
      utxo.produced.zip (database.identifiers utxo.produced)) := by
  rw [rollForwardUtxo, insertOutputs_ok hblock]
  change Except.bind (Database.insertTokens _ _) _ = _
  rw [Database.insertTokens, if_pos htokens]
  change Except.ok _ = _
  rw [foldl_setConsumedAtSlot]

theorem row_cons (event : StoreEvent) (chain : List StoreEvent) (entry : OutputEntry) :
    (if (entry.row chain).txIn ∈ event.utxo.consumed then
        { entry.row chain with consumedAtSlot := some event.header.slot }
      else entry.row chain) = entry.row (event :: chain) := by
  have htxIn : (entry.row chain).txIn = entry.utxo.1 := rfl
  rw [htxIn, OutputEntry.row, OutputEntry.row, consumedAt]
  by_cases hconsumed : entry.utxo.1 ∈ event.utxo.consumed
  · rw [if_pos hconsumed, if_pos hconsumed]
  · rw [if_neg hconsumed, if_neg hconsumed]

theorem outputsOf_forward (hvalid : ValidUtxoChain genesis (event :: chain))
    (h : OutputsOf chain database entries) (hblock : database.hasBlock event.header.slot = true)
    (hassets : AssetsOf (event :: chain) database.assets) :
    ∃ outputs tokens outputSequence stored,
      rollForwardUtxo event.header.slot event.utxo database =
        .ok ({ database with outputs, tokens, outputSequence }, stored) ∧
      ∃ entries', OutputsOf (event :: chain) { database with outputs, tokens, outputSequence }
        entries' := by
  let utxos := event.utxo.produced
  let identifiers := database.identifiers utxos
  let entries' := newEntries event.header.slot identifiers utxos
  have hlength : identifiers.length = utxos.length := by simp [identifiers, Database.identifiers]
  have htokens : ((List.zipWith tokensEntities identifiers utxos).flatten.all fun row =>
      database.assets.has row.asset) = true := by
    rw [List.all_eq_true, flatMap_tokens_newEntries event.header.slot]
    intro row hrow
    obtain ⟨entry, hentry, hrow⟩ := List.mem_flatMap.mp hrow
    obtain ⟨asset, hasset, rfl⟩ := List.mem_map.mp hrow
    have hminted := hvalid.1.assets _ (mem_newEntries hentry).2 asset hasset
    rw [JsMap.has, hassets, assetOf, Option.isSome_map]
    exact firstMintBlock_isSome.mpr hminted
  refine ⟨_, _, _, _, rollForwardUtxo_ok hblock htokens, entries ++ entries', ?_, ?_, ?_, ?_, ?_⟩
  · rw [List.map_append, map_id_newEntries hlength, List.nodup_append]
    refine ⟨h.ids, List.nodup_range', ?_⟩
    rintro _ hold id hnew rfl
    obtain ⟨entry, hentry, rfl⟩ := List.mem_map.mp hold
    have hfrom := (List.mem_range'_1.mp hnew).1
    exact absurd (h.sequence entry hentry) (not_lt.mpr hfrom)
  · intro entry hentry
    rcases List.mem_append.mp hentry with hold | hnew
    · exact (h.sequence entry hold).trans_le (Nat.le_add_right _ _)
    · exact (List.mem_range'_1.mp (mem_newEntries hnew).1).2
  · rw [List.map_append, h.rows, map_utxo_newEntries hlength, producedAt_cons]
  · rw [h.outputs, map_row_newEntries chain fun utxo hutxo => consumedAt_new hvalid hutxo,
      ← List.map_append, List.map_map]
    apply List.map_congr_left
    intro entry _
    exact row_cons event chain entry
  · rw [h.tokens, flatMap_tokens_newEntries event.header.slot, List.flatMap_append]

theorem assets_minted (hvalid : ValidUtxoChain genesis chain) :
    ∀ utxo ∈ produced chain, ∀ entry ∈ assetEntries utxo.2,
      entry.1 ∈ (minted chain).map Mint.assetId := by
  induction chain with
  | nil =>
    intro utxo hmem
    exact absurd hmem List.not_mem_nil
  | cons event chain ih =>
    intro utxo hmem entry hentry
    rw [produced_cons, List.mem_append] at hmem
    rcases hmem with hmem | hmem
    · rw [minted_cons, List.map_append]
      exact List.mem_append_left _ (ih hvalid.2 utxo hmem entry hentry)
    · exact hvalid.1.assets utxo hmem entry hentry

theorem get?_deleteBlock (hassets : AssetsOf (event :: chain) database.assets) (assetId : AssetId) :
    (database.deleteBlock event.header.slot).assets.get? assetId =
      (assetOf (event :: chain) assetId).filter fun asset =>
        asset.firstMintBlock ≠ event.header.slot := by
  rw [← hassets assetId]
  exact JsMap.get?_filter _ _ _

theorem ValidUtxoChain.slot_ne (hvalid : ValidUtxoChain genesis (event :: chain)) :
    ∀ below ∈ chain, below.header.slot ≠ event.header.slot := by
  intro below hbelow
  exact (hvalid.1.header below hbelow).1

theorem has_deleteBlock (hvalid : ValidUtxoChain genesis (event :: chain))
    (hassets : AssetsOf (event :: chain) database.assets) {assetId : AssetId}
    (hminted : assetId ∈ (minted chain).map Mint.assetId) :
    (database.deleteBlock event.header.slot).assets.has assetId = true := by
  have hback := congrArg Option.isSome (unmintedAsset_assetOf hvalid.slot_ne assetId)
  rw [unmintedAsset, Option.isSome_map, assetOf.eq_1 chain, Option.isSome_map] at hback
  rw [JsMap.has, get?_deleteBlock hassets, hback]
  exact firstMintBlock_isSome.mpr hminted

theorem row_below (hvalid : ValidUtxoChain genesis (event :: chain)) (entry : OutputEntry) :
    (if (entry.row (event :: chain)).txIn ∈ event.utxo.consumed then
        { entry.row (event :: chain) with consumedAtSlot := none }
      else entry.row (event :: chain)) = entry.row chain := by
  have htxIn : (entry.row (event :: chain)).txIn = entry.utxo.1 := rfl
  rw [htxIn, OutputEntry.row, OutputEntry.row, consumedAt]
  by_cases hconsumed : entry.utxo.1 ∈ event.utxo.consumed
  · rw [if_pos hconsumed, consumedAt_consumed hvalid hconsumed]
  · rw [if_neg hconsumed, if_neg hconsumed]

theorem outputsOf_backward (hvalid : ValidUtxoChain genesis (event :: chain))
    (h : OutputsOf (event :: chain) database entries)
    (hassets : AssetsOf (event :: chain) database.assets) (assets : JsMap AssetId AssetEntity) :
    ∃ entries', OutputsOf chain
      (event.utxo.consumed.foldl (Database.setConsumedAtSlot none)
        { database.deleteBlock event.header.slot with assets }) entries' := by
  obtain ⟨old, new, rfl, hold, hnew⟩ :=
    List.map_eq_append_iff.mp (h.rows.trans (producedAt_cons event chain))
  have hslotOld : ∀ entry ∈ old, entry.slot ≠ event.header.slot := by
    intro entry hentry
    have hmem : (entry.slot, entry.utxo) ∈ producedAt chain := hold ▸ List.mem_map_of_mem hentry
    obtain ⟨below, hbelow, hslot⟩ := mem_slots_of_producedAt hmem
    exact hslot ▸ hvalid.slot_ne below hbelow
  have hslotNew : ∀ entry ∈ new, entry.slot = event.header.slot := by
    intro entry hentry
    have hmem := List.mem_map_of_mem (f := fun entry : OutputEntry => (entry.slot, entry.utxo)) hentry
    rw [hnew] at hmem
    obtain ⟨_, _, heq⟩ := List.mem_map.mp hmem
    exact (congrArg Prod.fst heq).symm
  have houtputs : (database.deleteBlock event.header.slot).outputs =
      old.map (OutputEntry.row (event :: chain)) := by
    change database.outputs.filter (fun output => output.block ≠ event.header.slot) = _
    rw [h.outputs, List.filter_map, List.filter_append, List.filter_eq_self.mpr,
      List.filter_eq_nil_iff.mpr, List.append_nil]
    · intro entry hentry
      rw [Function.comp_apply, decide_eq_true_iff, not_not]
      exact hslotNew entry hentry
    · intro entry hentry
      exact decide_eq_true (hslotOld entry hentry)
  have hids := h.ids
  rw [List.map_append, List.nodup_append] at hids
  have htokens : (database.deleteBlock event.header.slot).tokens =
      old.flatMap OutputEntry.tokens := by
    change database.tokens.filter (fun row =>
      (database.deleteBlock event.header.slot).assets.has row.asset &&
        (database.deleteBlock event.header.slot).outputs.any fun output =>
          output.id = row.output) = _
    rw [h.tokens, List.flatMap_append, List.filter_append, List.filter_eq_self.mpr,
      List.filter_eq_nil_iff.mpr, List.append_nil]
    · intro row hrow
      obtain ⟨entry, hentry, hrow⟩ := List.mem_flatMap.mp hrow
      obtain ⟨_, _, rfl⟩ := List.mem_map.mp hrow
      rw [houtputs, Bool.and_eq_true, List.any_map, List.any_eq_true, not_and]
      rintro _ ⟨other, hother, hid⟩
      exact hids.2.2 _ (List.mem_map_of_mem hother) _ (List.mem_map_of_mem hentry)
        (of_decide_eq_true hid)
    · intro row hrow
      obtain ⟨entry, hentry, hrow⟩ := List.mem_flatMap.mp hrow
      obtain ⟨asset, hasset, rfl⟩ := List.mem_map.mp hrow
      have hproduced : entry.utxo ∈ produced chain := by
        rw [← map_snd_producedAt, ← hold, List.map_map]
        exact List.mem_map_of_mem hentry
      have hminted := assets_minted hvalid.2 _ hproduced asset hasset
      rw [houtputs, Bool.and_eq_true, List.any_map, List.any_eq_true]
      exact ⟨has_deleteBlock hvalid hassets hminted, entry, hentry, decide_eq_true rfl⟩
  refine ⟨old, hids.1, ?_, hold, ?_, ?_⟩
  · intro entry hentry
    rw [foldl_setConsumedAtSlot]
    exact h.sequence entry (List.mem_append_left _ hentry)
  · rw [foldl_setConsumedAtSlot]
    change (database.deleteBlock event.header.slot).outputs.map _ = _
    rw [houtputs, List.map_map]
    apply List.map_congr_left
    intro entry _
    exact row_below hvalid entry
  · rw [foldl_setConsumedAtSlot]
    exact htokens

structure TablesOf (chain : List StoreEvent) (database : Database) : Prop where
  blocks : database.blocks = chain.reverse.map StoreEvent.header
  assets : AssetsOf chain database.assets
  outputs : ∃ entries, OutputsOf chain database entries

def Reports (mint : List Mint) (chain : List StoreEvent) (totals : MintedAssetSupplies) : Prop :=
  ∀ assetId, totals.get? assetId =
    if assetId ∈ mint.map Mint.assetId then some (mintSum (minted chain) assetId) else none

theorem supply_assetOf (chain : List StoreEvent) (assetId : AssetId) :
    (assetOf chain assetId).elim 0 AssetEntity.supply = mintSum (minted chain) assetId := by
  rw [assetOf]
  cases hfirst : firstMintBlock chain assetId with
  | some slot => rfl
  | none =>
    have hnone : assetId ∉ (minted chain).map Mint.assetId := by
      rw [← firstMintBlock_isSome, hfirst]
      exact Bool.false_ne_true
    exact (mintSum_eq_zero hnone).symm

theorem map_supply_assetOf (chain : List StoreEvent) (assetId : AssetId) :
    (assetOf chain assetId).map AssetEntity.supply =
      if assetId ∈ (minted chain).map Mint.assetId then some (mintSum (minted chain) assetId)
      else none := by
  by_cases hminted : assetId ∈ (minted chain).map Mint.assetId
  · obtain ⟨slot, hfirst⟩ := Option.isSome_iff_exists.mp (firstMintBlock_isSome.mpr hminted)
    rw [if_pos hminted, assetOf, hfirst]
    rfl
  · have hfirst : firstMintBlock chain assetId = none := by
      rw [← Option.not_isSome_iff_eq_none, firstMintBlock_isSome]
      exact hminted
    rw [if_neg hminted, assetOf, hfirst]
    rfl

theorem insertBlock_ok (hvalid : ValidUtxoChain genesis (event :: chain))
    (hblocks : database.blocks = chain.reverse.map StoreEvent.header) :
    database.insertBlock event.header =
      .ok { database with blocks := database.blocks ++ [event.header] } := by
  rw [Database.insertBlock, if_neg]
  rw [Bool.not_eq_true, List.any_eq_false, hblocks]
  intro header hmem
  obtain ⟨below, hbelow, rfl⟩ := List.mem_map.mp hmem
  obtain ⟨hslot, hhash, hheight⟩ := hvalid.1.header below (List.mem_reverse.mp hbelow)
  simp [hslot, hhash, hheight]

theorem rollForward_tables (hvalid : ValidUtxoChain genesis (event :: chain))
    (h : TablesOf chain state.database) :
    ∃ state', rollForward event state = .ok state' ∧
      TablesOf (event :: chain) state'.database ∧
      Reports event.mint (event :: chain) state'.mintedAssetTotalSupplies := by
  obtain ⟨entries, houtputs⟩ := h.outputs
  let database := { state.database with blocks := state.database.blocks ++ [event.header] }
  have hblock : database.hasBlock event.header.slot = true := by
    rw [Database.hasBlock, List.any_append, Bool.or_eq_true]
    exact Or.inr (List.any_eq_true.mpr ⟨event.header, List.mem_singleton_self _, decide_eq_true rfl⟩)
  obtain ⟨assets, totals, hmint, hassets, htotals⟩ :=
    foldlM_rollForwardMint event.mint hblock JsMap.empty
  have hafter : AssetsOf (event :: chain) assets := by
    intro assetId
    rw [hassets, assetOf_cons, ← h.assets assetId]
  have hbefore : OutputsOf chain { database with assets } entries :=
    ⟨houtputs.ids, houtputs.sequence, houtputs.rows, houtputs.outputs, houtputs.tokens⟩
  obtain ⟨outputs, tokens, outputSequence, stored, hutxo, entries', hentries⟩ :=
    outputsOf_forward hvalid hbefore hblock hafter
  refine ⟨⟨_, totals, stored⟩, ?_, ⟨?_, hafter, entries', hentries⟩, ?_⟩
  · rw [rollForward, insertBlock_ok hvalid h.blocks]
    change Except.bind (event.mint.foldlM _ (database, _)) _ = _
    rw [hmint]
    change Except.bind (rollForwardUtxo _ _ _) _ = _
    rw [hutxo]
    rfl
  · rw [List.reverse_cons, List.map_append]
    exact congrArg (· ++ [event.header]) h.blocks
  · intro assetId
    rw [htotals, hafter, map_supply_assetOf]
    by_cases hmem : assetId ∈ event.mint.map Mint.assetId
    · rw [if_pos hmem, if_pos hmem, if_pos]
      rw [minted_cons, List.map_append]
      exact List.mem_append_right _ hmem
    · rw [if_neg hmem, if_neg hmem]
      rfl

theorem rollBackward_tables (hvalid : ValidUtxoChain genesis (event :: chain))
    (h : TablesOf (event :: chain) state.database) :
    TablesOf chain (rollBackward event state).database ∧
      Reports event.mint chain (rollBackward event state).mintedAssetTotalSupplies := by
  obtain ⟨entries, houtputs⟩ := h.outputs
  obtain ⟨assets, totals, hmint, hassets, htotals⟩ := foldl_rollBackwardMint event.mint
    (state.database.deleteBlock event.header.slot) JsMap.empty
  have hafter : AssetsOf chain assets := by
    intro assetId
    rw [hassets, get?_deleteBlock h.assets, unmintedAsset_assetOf hvalid.slot_ne]
  obtain ⟨entries', hentries⟩ := outputsOf_backward hvalid houtputs h.assets assets
  rw [rollBackward, hmint]
  dsimp only
  refine ⟨⟨?_, ?_, entries', hentries⟩, ?_⟩
  · rw [foldl_setConsumedAtSlot]
    change state.database.blocks.filter (fun block => block.slot ≠ event.header.slot) = _
    rw [h.blocks, List.reverse_cons, List.map_append, List.filter_append, List.filter_eq_self.mpr]
    · simp
    · intro header hmem
      obtain ⟨below, hbelow, rfl⟩ := List.mem_map.mp hmem
      exact decide_eq_true (hvalid.slot_ne below (List.mem_reverse.mp hbelow))
  · rw [foldl_setConsumedAtSlot]
    exact hafter
  · intro assetId
    rw [htotals, hafter, supply_assetOf]
    rfl

def RepresentsChain (chain : List StoreEvent) (store : Except DatabaseError StoreState) : Prop :=
  ∃ state, store = .ok state ∧ TablesOf chain state.database

theorem storeProjection_tracks :
    storeProjection.Tracks (ValidUtxoChain genesis) RepresentsChain := by
  constructor
  · rintro event chain _ hvalid ⟨state, rfl, htables⟩
    obtain ⟨state', hforward, htables', _⟩ := rollForward_tables hvalid htables
    exact ⟨state', hforward, htables'⟩
  · rintro event chain _ hvalid ⟨state, rfl, htables⟩
    exact ⟨_, rfl, (rollBackward_tables hvalid htables).1⟩

theorem tablesOf_empty : TablesOf [] Database.empty :=
  ⟨rfl, fun _ => rfl, [], List.nodup_nil, fun _ hmem => absurd hmem List.not_mem_nil, rfl, rfl, rfl⟩

end CardanoSdk.Projection
