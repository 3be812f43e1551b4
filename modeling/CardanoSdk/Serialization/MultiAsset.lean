import CardanoSdk.Cardano.AddressRoundTrip

/-!
Token maps and the nested maps of `core/src/Serialization/TransactionBody/Utils` that
stand for them on the wire: split by policy, written in canonical order, read back and
joined again.
-/

namespace CardanoSdk.Serialization

open Lib Cbor Plutus Cardano
open InputSelection (AssetId TokenMap)
open TxConstruction (Hash)

/-- The bytes of lower-case hex text. -/
abbrev AssetName := List UInt8

abbrev MultiAsset := JsMap Hash (JsMap AssetName ℤ)

/-! ### Identifiers -/

def getPolicyId (id : AssetId) : Except String Hash := hash28ByteBase16 (id.take 28)

def getAssetName (id : AssetId) : Except String AssetName :=
  if 32 < (id.drop 28).length then .error (invalidString "too long") else .ok (id.drop 28)

def fromParts (policyId : Hash) (assetName : AssetName) : Except String AssetId :=
  if 60 < (policyId ++ assetName).length then .error (invalidString "too long")
  else if (policyId ++ assetName).length < 28 then .error (invalidString "too short")
  else .ok (policyId ++ assetName)

/-! ### Order -/

section Order

variable {ν : Type}

/-- Shorter keys first, then the order of the text. -/
def sortCanonically (lhs rhs : List UInt8 × ν) : ℤ :=
  if lhs.1.length = rhs.1.length then if lhs.1 > rhs.1 then 1 else -1
  else if lhs.1.length > rhs.1.length then 1
  else -1

/-- `new Map([...map.entries()].sort(sortCanonically))` -/
def sortMap (map : JsMap (List UInt8) ν) : JsMap (List UInt8) ν where
  entries := sortBy sortCanonically map.entries
  nodup := ((perm_sortBy sortCanonically map.entries).map Prod.fst).nodup_iff.mpr map.nodup

theorem perm_sortMap (map : JsMap (List UInt8) ν) : (sortMap map).entries.Perm map.entries :=
  perm_sortBy _ _

end Order

/-! ### Splitting and joining -/

/-- The quantities of a policy, none at first. -/
def MultiAsset.assets (multiassets : MultiAsset) (policyId : Hash) : JsMap AssetName ℤ :=
  (multiassets.get? policyId).getD JsMap.empty

def MultiAsset.setQuantity (multiassets : MultiAsset) (policyId : Hash) (assetName : AssetName)
    (quantity : ℤ) : MultiAsset :=
  multiassets.set policyId ((multiassets.assets policyId).set assetName quantity)

def splitEntry (multiassets : MultiAsset) (entry : AssetId × ℤ) : Except String MultiAsset := do
  let policyId ← getPolicyId entry.1
  let assetName ← getAssetName entry.1
  return multiassets.setQuantity policyId assetName entry.2

def tokenMapToMultiAsset (tokenMap : TokenMap) : Except String MultiAsset :=
  (sortMap tokenMap).entries.foldlM splitEntry JsMap.empty

def joinAsset (scriptHash : Hash) (tokenMap : TokenMap) (asset : AssetName × ℤ) :
    Except String TokenMap := do
  let assetId ← fromParts scriptHash asset.1
  return tokenMap.set assetId asset.2

def joinPolicy (tokenMap : TokenMap) (entry : Hash × JsMap AssetName ℤ) :
    Except String TokenMap :=
  entry.2.entries.foldlM (joinAsset entry.1) tokenMap

def multiAssetsToTokenMap (multiassets : MultiAsset) : Except String TokenMap :=
  multiassets.entries.foldlM joinPolicy JsMap.empty

/-! ### On the wire -/

def writeAssets (assets : JsMap AssetName ℤ) : WriteM Unit := do
  let sortedAssets := sortMap assets
  writeStartMap (some sortedAssets.size)
  sortedAssets.entries.forM fun (assetName, quantity) => do
    writeByteString assetName
    writeInt quantity

def writeMultiAsset (multiassets : MultiAsset) : WriteM Unit := do
  let sortedMultiAssets := sortMap multiassets
  writeStartMap (some sortedMultiAssets.size)
  sortedMultiAssets.entries.forM fun (scriptHash, assets) => do
    writeByteString scriptHash
    writeAssets assets

section Reading

-- how quantities are read
variable (readQuantity : DecodeM ℤ)

def readAsset (scriptHash : Hash) (multiassets : MultiAsset) : DecodeM MultiAsset := do
  let assetName ← reading readByteString
  let quantity ← readQuantity
  pure (multiassets.setQuantity scriptHash assetName quantity)

def readPolicy (rounds : ℕ) (multiassets : MultiAsset) : DecodeM MultiAsset := do
  let scriptHash ← reading readByteString
  readFields (readAsset readQuantity scriptHash) rounds
    (if multiassets.has scriptHash then multiassets else multiassets.set scriptHash JsMap.empty)

def readMultiAsset (rounds : ℕ) : DecodeM MultiAsset :=
  readFields (readPolicy readQuantity rounds) rounds JsMap.empty

end Reading

/-! ### The tokens of nested maps -/

def tokensOf (entries : List (Hash × JsMap AssetName ℤ)) : List (AssetId × ℤ) :=
  entries.flatMap fun (scriptHash, assets) =>
    assets.entries.map fun (assetName, quantity) => (scriptHash ++ assetName, quantity)

def MultiAsset.tokens (multiassets : MultiAsset) : List (AssetId × ℤ) := tokensOf multiassets.entries

section Tokens

variable {multiassets : MultiAsset} {policyId : Hash} {assetName : AssetName} {quantity : ℤ}

theorem tokensOf_append (entries entries' : List (Hash × JsMap AssetName ℤ)) :
    tokensOf (entries ++ entries') = tokensOf entries ++ tokensOf entries' :=
  List.flatMap_append

theorem tokensOf_cons (entry : Hash × JsMap AssetName ℤ)
    (entries : List (Hash × JsMap AssetName ℤ)) :
    tokensOf (entry :: entries) = tokensOf [entry] ++ tokensOf entries :=
  tokensOf_append [entry] entries

theorem mem_tokensOf {entries : List (Hash × JsMap AssetName ℤ)} {token : AssetId × ℤ} :
    token ∈ tokensOf entries ↔ ∃ entry ∈ entries, ∃ asset ∈ entry.2.entries,
      token = (entry.1 ++ asset.1, asset.2) := by
  unfold tokensOf
  rw [List.mem_flatMap]
  refine exists_congr fun entry => and_congr_right fun _ => ?_
  rw [List.mem_map]
  exact exists_congr fun asset => and_congr_right fun _ => eq_comm

theorem tokens_setQuantity (h : policyId ++ assetName ∉ multiassets.tokens.map Prod.fst) :
    (multiassets.setQuantity policyId assetName quantity).tokens.Perm
      (multiassets.tokens ++ [(policyId ++ assetName, quantity)]) := by
  unfold MultiAsset.setQuantity MultiAsset.assets MultiAsset.tokens
  cases hget : multiassets.get? policyId with
  | none =>
    rw [Option.getD_none, JsMap.entries_set_new _ (JsMap.get?_eq_none_iff.mp hget),
      tokensOf_append]
    exact List.Perm.refl _
  | some assets =>
    obtain ⟨before, after, hentries, hinsert⟩ :=
      @JsMap.insertEntry_present _ _ _ _ (assets.set assetName quantity) _ _ hget
    have hnew : assetName ∉ assets.entries.map Prod.fst := by
      intro hmem
      obtain ⟨asset, hasset, rfl⟩ := List.mem_map.mp hmem
      apply h
      refine List.mem_map.mpr ⟨(policyId ++ asset.1, asset.2), mem_tokensOf.mpr ?_, rfl⟩
      exact ⟨(policyId, assets), JsMap.get?_eq_some_iff.mp hget, asset, hasset, rfl⟩
    have hassets : (assets.set assetName quantity).entries =
        assets.entries ++ [(assetName, quantity)] := JsMap.entries_set_new _ hnew
    have hone : tokensOf [(policyId, assets.set assetName quantity)] =
        tokensOf [(policyId, assets)] ++ [(policyId ++ assetName, quantity)] := by
      simp [tokensOf, hassets]
    rw [Option.getD_some, JsMap.entries_set, hinsert, hentries, tokensOf_append, tokensOf_append,
      tokensOf_cons, tokensOf_cons (policyId, assets), hone, List.append_assoc,
      List.append_assoc, List.append_assoc]
    exact (List.perm_append_comm.append_left _).append_left _

theorem tokens_open (multiassets : MultiAsset) (policyId : Hash) :
    (if multiassets.has policyId then multiassets
      else multiassets.set policyId JsMap.empty).tokens = multiassets.tokens := by
  split
  · rfl
  · rename_i hnew
    rw [JsMap.has_iff] at hnew
    unfold MultiAsset.tokens
    rw [JsMap.entries_set_new _ hnew, tokensOf_append]
    exact List.append_nil _

theorem perm_tokens_sortMap (multiassets : MultiAsset) :
    (MultiAsset.tokens (sortMap multiassets)).Perm multiassets.tokens :=
  (perm_sortMap multiassets).flatMap_right _

end Tokens

/-! ### Splitting keeps the tokens -/

/-- The maps hold these tokens, and no policy without one. -/
structure Splits (tokens : List (AssetId × ℤ)) (multiassets : MultiAsset) : Prop where
  perm : multiassets.tokens.Perm tokens
  nonempty : ∀ entry ∈ multiassets.entries, entry.2.entries ≠ []

/-- Identifiers have a policy and a name of at most 32 bytes. -/
def ValidId (id : AssetId) : Prop := 28 ≤ id.length ∧ id.length ≤ 60

theorem set_ne_nil {κ ν : Type} [DecidableEq κ] (map : JsMap κ ν) (key : κ) (value : ν) :
    (map.set key value).entries ≠ [] := by
  intro hnil
  have hmem := JsMap.get?_eq_some_iff.mp (JsMap.get?_set_self map key value)
  rw [hnil] at hmem
  cases hmem

theorem Splits.setQuantity {tokens : List (AssetId × ℤ)} {multiassets : MultiAsset}
    {policyId : Hash} {assetName : AssetName} {quantity : ℤ} (h : Splits tokens multiassets)
    (hnew : policyId ++ assetName ∉ tokens.map Prod.fst) :
    Splits (tokens ++ [(policyId ++ assetName, quantity)])
      (multiassets.setQuantity policyId assetName quantity) where
  perm := by
    have hmem : policyId ++ assetName ∉ multiassets.tokens.map Prod.fst := by
      rwa [(h.perm.map Prod.fst).mem_iff]
    exact (tokens_setQuantity hmem).trans (h.perm.append_right _)
  nonempty := by
    intro entry hentry
    obtain ⟨key, assets⟩ := entry
    have hget := JsMap.get?_eq_some_iff.mpr hentry
    rw [MultiAsset.setQuantity, JsMap.get?_set] at hget
    split at hget
    · cases hget
      exact set_ne_nil _ _ _
    · exact h.nonempty _ (JsMap.get?_eq_some_iff.mp hget)

theorem splitEntry_ok {entry : AssetId × ℤ} (h : ValidId entry.1) (multiassets : MultiAsset) :
    splitEntry multiassets entry =
      .ok (multiassets.setQuantity (entry.1.take 28) (entry.1.drop 28) entry.2) := by
  have hpolicy : getPolicyId entry.1 = .ok (entry.1.take 28) :=
    hash28ByteBase16_ok (by rw [List.length_take]; exact min_eq_left h.1)
  have hname : getAssetName entry.1 = .ok (entry.1.drop 28) :=
    if_neg (by rw [List.length_drop]; have := h.2; omega)
  rw [splitEntry, hpolicy]
  change (getAssetName entry.1 >>= _) = _
  rw [hname]
  rfl

theorem splitAll {entries before : List (AssetId × ℤ)} {multiassets : MultiAsset}
    (hids : ∀ entry ∈ entries, ValidId entry.1) (hnodup : ((before ++ entries).map Prod.fst).Nodup)
    (h : Splits before multiassets) :
    ∃ result, entries.foldlM splitEntry multiassets = .ok result ∧
      Splits (before ++ entries) result := by
  induction entries generalizing before multiassets with
  | nil => exact ⟨multiassets, rfl, by rwa [List.append_nil]⟩
  | cons entry entries ih =>
    rw [List.forall_mem_cons] at hids
    have hnew : entry.1.take 28 ++ entry.1.drop 28 ∉ before.map Prod.fst := by
      rw [List.take_append_drop]
      rw [List.map_append, List.nodup_append] at hnodup
      exact fun hmem => hnodup.2.2 entry.1 hmem entry.1 List.mem_cons_self rfl
    have hstep := @Splits.setQuantity _ _ _ _ entry.2 h hnew
    rw [List.take_append_drop] at hstep
    obtain ⟨result, hresult, hsplits⟩ := ih hids.2 (by rwa [List.append_assoc]) hstep
    refine ⟨result, ?_, by rwa [List.append_assoc] at hsplits⟩
    rw [List.foldlM_cons, splitEntry_ok hids.1]
    exact hresult

theorem tokenMapToMultiAsset_ok {tokenMap : TokenMap} (hids : ∀ id ∈ tokenMap.keys, ValidId id) :
    ∃ multiassets, tokenMapToMultiAsset tokenMap = .ok multiassets ∧
      Splits tokenMap.entries multiassets := by
  have hperm := perm_sortMap tokenMap
  have hnil : Splits [] JsMap.empty := ⟨List.Perm.refl _, by rintro _ ⟨⟩⟩
  have hsorted : ∀ entry ∈ (sortMap tokenMap).entries, ValidId entry.1 :=
    fun entry hentry => hids _ (List.mem_map_of_mem (hperm.mem_iff.mp hentry))
  obtain ⟨multiassets, hresult, hsplits⟩ := @splitAll _ [] _ hsorted (sortMap tokenMap).nodup hnil
  exact ⟨multiassets, hresult, hsplits.perm.trans hperm, hsplits.nonempty⟩

/-! ### Joining keeps the tokens -/

section Joining

variable {tokenMap : TokenMap} {scriptHash : Hash}

theorem fromParts_ok {policyId : Hash} {assetName : AssetName} (h : ValidId (policyId ++ assetName)) :
    fromParts policyId assetName = .ok (policyId ++ assetName) := by
  obtain ⟨hlower, hupper⟩ := h
  rw [fromParts, if_neg (by omega), if_neg (by omega)]

theorem joinAssets {assets : List (AssetName × ℤ)}
    (hids : ∀ asset ∈ assets, ValidId (scriptHash ++ asset.1))
    (hnodup : ((tokenMap.entries ++
      assets.map fun asset => (scriptHash ++ asset.1, asset.2)).map Prod.fst).Nodup) :
    ∃ result, assets.foldlM (joinAsset scriptHash) tokenMap = .ok result ∧
      result.entries = tokenMap.entries ++
        assets.map fun asset => (scriptHash ++ asset.1, asset.2) := by
  induction assets generalizing tokenMap with
  | nil => exact ⟨tokenMap, rfl, (List.append_nil _).symm⟩
  | cons asset assets ih =>
    rw [List.forall_mem_cons] at hids
    rw [List.map_cons, List.append_cons] at hnodup
    have hnew : scriptHash ++ asset.1 ∉ tokenMap.keys := by
      rw [List.append_assoc, List.map_append, List.nodup_append] at hnodup
      exact fun hmem => hnodup.2.2 _ hmem _ List.mem_cons_self rfl
    have hset := JsMap.entries_set_new asset.2 hnew
    rw [← hset] at hnodup
    obtain ⟨result, hresult, hentries⟩ := ih hids.2 hnodup
    refine ⟨result, ?_, by rw [hentries, hset, List.map_cons, ← List.append_cons]⟩
    rw [List.foldlM_cons, joinAsset, fromParts_ok hids.1]
    exact hresult

theorem joinAll {entries : List (Hash × JsMap AssetName ℤ)}
    (hids : ∀ token ∈ tokensOf entries, ValidId token.1)
    (hnodup : ((tokenMap.entries ++ tokensOf entries).map Prod.fst).Nodup) :
    ∃ result, entries.foldlM joinPolicy tokenMap = .ok result ∧
      result.entries = tokenMap.entries ++ tokensOf entries := by
  induction entries generalizing tokenMap with
  | nil => exact ⟨tokenMap, rfl, (List.append_nil _).symm⟩
  | cons entry entries ih =>
    have hone : tokensOf [entry] =
        entry.2.entries.map fun asset => (entry.1 ++ asset.1, asset.2) :=
      List.append_nil _
    rw [tokensOf_cons, hone] at hids hnodup ⊢
    rw [← List.append_assoc] at hnodup ⊢
    have hassets : ∀ asset ∈ entry.2.entries, ValidId (entry.1 ++ asset.1) := fun asset hasset =>
      hids _ (List.mem_append_left _ (List.mem_map_of_mem hasset))
    obtain ⟨middle, hmiddle, hentries⟩ := joinAssets hassets
      (by rw [List.map_append, List.nodup_append] at hnodup; exact hnodup.1)
    rw [← hentries] at hnodup ⊢
    obtain ⟨result, hresult, hfinal⟩ :=
      ih (fun token htoken => hids _ (List.mem_append_right _ htoken)) hnodup
    refine ⟨result, ?_, hfinal⟩
    rw [List.foldlM_cons, joinPolicy, hmiddle]
    exact hresult

theorem multiAssetsToTokenMap_ok {multiassets : MultiAsset}
    (hids : ∀ token ∈ multiassets.tokens, ValidId token.1)
    (hnodup : (multiassets.tokens.map Prod.fst).Nodup) :
    ∃ result, multiAssetsToTokenMap multiassets = .ok result ∧
      result.entries = multiassets.tokens :=
  @joinAll JsMap.empty _ hids hnodup

end Joining

/-! ### What is written -/

def assetsBytes (assets : JsMap AssetName ℤ) : List UInt8 :=
  encodeHead .map assets.size ++
    assets.entries.flatMap fun asset => encodeChunk asset.1 ++ encodeInt asset.2

def multiAssetBytes (multiassets : MultiAsset) : List UInt8 :=
  encodeHead .map multiassets.size ++
    multiassets.entries.flatMap fun entry => encodeChunk entry.1 ++ assetsBytes (sortMap entry.2)

structure ValidTokens (tokens : List (AssetId × ℤ)) : Prop where
  ids : ∀ token ∈ tokens, ValidId token.1
  quantities : ∀ token ∈ tokens, -(2 ^ 64) ≤ token.2 ∧ token.2 < 2 ^ 64
  count : tokens.length < 2 ^ 53

structure FitsAsset (asset : AssetName × ℤ) : Prop where
  name : asset.1.length < 2 ^ 53
  lower : -(2 ^ 64) ≤ asset.2
  upper : asset.2 < 2 ^ 64

structure FitsPolicy (entry : Hash × JsMap AssetName ℤ) : Prop where
  hash : entry.1.length < 2 ^ 53
  count : entry.2.size < 2 ^ 53
  assets : ∀ asset ∈ entry.2.entries, FitsAsset asset

section Writing

variable {tokens : List (AssetId × ℤ)} {multiassets : MultiAsset}

theorem Splits.sortMap (h : Splits tokens multiassets) : Splits tokens (sortMap multiassets) where
  perm := (perm_tokens_sortMap multiassets).trans h.perm
  nonempty := fun entry hentry => h.nonempty entry ((perm_sortMap multiassets).mem_iff.mp hentry)

variable {entry : Hash × JsMap AssetName ℤ}

variable {asset : AssetName × ℤ}

theorem Splits.token (h : Splits tokens multiassets) (hentry : entry ∈ multiassets.entries)
    (hasset : asset ∈ entry.2.entries) : (entry.1 ++ asset.1, asset.2) ∈ tokens :=
  h.perm.mem_iff.mp (mem_tokensOf.mpr ⟨entry, hentry, asset, hasset, rfl⟩)

theorem length_le_tokensOf {entries : List (Hash × JsMap AssetName ℤ)}
    (h : ∀ entry ∈ entries, entry.2.entries ≠ []) : entries.length ≤ (tokensOf entries).length := by
  induction entries with
  | nil => exact Nat.zero_le _
  | cons entry entries ih =>
    rw [List.forall_mem_cons] at h
    have hpos := List.length_pos_iff.mpr h.1
    have hrest := ih h.2
    rw [tokensOf, List.flatMap_cons, List.length_append, List.length_map, List.length_cons]
    rw [tokensOf] at hrest
    omega

theorem Splits.fits (h : Splits tokens multiassets) (hvalid : ValidTokens tokens) :
    multiassets.size < 2 ^ 53 ∧ ∀ entry ∈ multiassets.entries, FitsPolicy entry := by
  have hcount := hvalid.count
  rw [← h.perm.length_eq] at hcount
  refine ⟨lt_of_le_of_lt (length_le_tokensOf h.nonempty) hcount, fun entry hentry => ?_⟩
  have hid : ∀ asset ∈ entry.2.entries, entry.1.length + asset.1.length ≤ 60 := by
    intro asset hasset
    have hvalid := (hvalid.ids _ (h.token hentry hasset)).2
    rwa [List.length_append] at hvalid
  refine ⟨?_, ?_, fun asset hasset => ?_⟩
  · obtain ⟨asset, hasset⟩ := List.exists_mem_of_ne_nil _ (h.nonempty entry hentry)
    have hlength := hid asset hasset
    omega
  · obtain ⟨before, after, hentries⟩ := List.append_of_mem hentry
    rw [MultiAsset.tokens, hentries, tokensOf_append, tokensOf_cons, List.length_append,
      List.length_append] at hcount
    have hone : (tokensOf [entry]).length = entry.2.size := by
      simp [tokensOf, JsMap.size]
    omega
  · have hlength := hid asset hasset
    obtain ⟨hlower, hupper⟩ := hvalid.quantities _ (h.token hentry hasset)
    exact ⟨by omega, hlower, hupper⟩

theorem FitsPolicy.sortMap {entry : Hash × JsMap AssetName ℤ} (h : FitsPolicy entry) :
    (sortMap entry.2).size < 2 ^ 53 ∧ ∀ asset ∈ (sortMap entry.2).entries, FitsAsset asset := by
  have hperm := perm_sortMap entry.2
  have hcount := h.count
  unfold JsMap.size at hcount ⊢
  exact ⟨by rwa [hperm.length_eq], fun asset hasset => h.assets asset (hperm.mem_iff.mp hasset)⟩

theorem writes_assets (h : FitsPolicy entry) :
    Writes (writeAssets entry.2) (assetsBytes (sortMap entry.2)) := by
  obtain ⟨hcount, hassets⟩ := h.sortMap
  refine (writes_typeValue .map (by omega)).bind (writes_forM fun asset hasset => ?_)
  have hasset := hassets asset hasset
  have hname := hasset.name
  exact (writes_byteString (by omega)).bind (writes_int hasset.lower hasset.upper)

theorem writes_multiAsset (h : Splits tokens multiassets) (hvalid : ValidTokens tokens) :
    Writes (writeMultiAsset multiassets) (multiAssetBytes (sortMap multiassets)) := by
  obtain ⟨hcount, hentries⟩ := h.sortMap.fits hvalid
  refine (writes_typeValue .map (by omega)).bind (writes_forM fun entry hentry => ?_)
  have hentry := hentries entry hentry
  have hhash := hentry.hash
  exact (writes_byteString (by omega)).bind (writes_assets hentry)

theorem dataItem_asset (h : FitsAsset asset) :
    DataItem (encodeChunk asset.1) ∧ DataItem (encodeInt asset.2) := by
  have hname := h.name
  exact ⟨dataItem_encodeChunk (by omega), dataItem_encodeInt h.lower h.upper⟩

theorem dataItem_policy (h : FitsPolicy entry) :
    DataItem (encodeChunk entry.1) ∧ DataItem (assetsBytes (sortMap entry.2)) := by
  obtain ⟨hcount, hassets⟩ := h.sortMap
  unfold JsMap.size at hcount
  have hhash := h.hash
  exact ⟨dataItem_encodeChunk (by omega),
    dataItem_entries (by omega) fun asset hasset => dataItem_asset (hassets asset hasset)⟩

theorem dataItem_multiAsset (h : Splits tokens multiassets) (hvalid : ValidTokens tokens) :
    DataItem (multiAssetBytes multiassets) := by
  obtain ⟨hcount, hentries⟩ := h.fits hvalid
  unfold JsMap.size at hcount
  exact dataItem_entries (by omega) fun entry hentry => dataItem_policy (hentries entry hentry)

end Writing

/-! ### What is read -/

section Reading

variable {readQuantity : DecodeM ℤ} {multiassets : MultiAsset}

theorem rounds_assets {scriptHash : Hash} {assets : List (AssetName × ℤ)}
    (hfits : ∀ asset ∈ assets, FitsAsset asset)
    (hread : ∀ asset ∈ assets, ReadsItem readQuantity (encodeInt asset.2) asset.2)
    (hnodup : ((multiassets.tokens ++
      assets.map fun asset => (scriptHash ++ asset.1, asset.2)).map Prod.fst).Nodup) :
    ∃ result, Rounds (readAsset readQuantity scriptHash) multiassets (2 * assets.length)
        (assets.flatMap fun asset => encodeChunk asset.1 ++ encodeInt asset.2) result ∧
      result.tokens.Perm (multiassets.tokens ++
        assets.map fun asset => (scriptHash ++ asset.1, asset.2)) := by
  induction assets generalizing multiassets with
  | nil => exact ⟨multiassets, Rounds.nil _, by rw [List.map_nil, List.append_nil]⟩
  | cons asset assets ih =>
    rw [List.forall_mem_cons] at hfits hread
    rw [List.map_cons, List.append_cons] at hnodup ⊢
    have hnew : scriptHash ++ asset.1 ∉ multiassets.tokens.map Prod.fst := by
      rw [List.append_assoc, List.map_append, List.nodup_append] at hnodup
      exact fun hmem => hnodup.2.2 _ hmem _ List.mem_cons_self rfl
    have hstep := @tokens_setQuantity multiassets scriptHash asset.1 asset.2 hnew
    have hname := hfits.1.name
    have hround : ReadsRound (readAsset readQuantity scriptHash multiassets) (1 + 1)
        (encodeChunk asset.1 ++ encodeInt asset.2)
        (multiassets.setQuantity scriptHash asset.1 asset.2) :=
      readsRound (dataItem_asset hfits.1).1 (readsItem_byteString (by omega))
        (hread.1.last fun _ => rfl)
    obtain ⟨result, hrounds, hperm⟩ := ih hfits.2 hread.2
      (((hstep.append_right _).map Prod.fst).nodup_iff.mpr hnodup)
    refine ⟨result, ?_, hperm.trans (hstep.append_right _)⟩
    rw [List.length_cons, Nat.mul_succ, Nat.add_comm, List.flatMap_cons]
    exact Rounds.cons hround hrounds

theorem two_mul_length_le_assets {assets : List (AssetName × ℤ)}
    (hfits : ∀ asset ∈ assets, FitsAsset asset) : 2 * assets.length ≤
      (assets.flatMap fun asset => encodeChunk asset.1 ++ encodeInt asset.2).length :=
  (items_entries fun asset hasset => dataItem_asset (hfits asset hasset)).le_length

variable {rounds : ℕ}

theorem readsRound_policy {entry : Hash × JsMap AssetName ℤ} (hfits : FitsPolicy entry)
    (hread : ∀ asset ∈ entry.2.entries, ReadsItem readQuantity (encodeInt asset.2) asset.2)
    (henough : (assetsBytes (sortMap entry.2)).length < rounds)
    (hnodup : ((multiassets.tokens ++ tokensOf [entry]).map Prod.fst).Nodup) :
    ∃ result, ReadsRound (readPolicy readQuantity rounds multiassets) (1 + 1)
        (encodeChunk entry.1 ++ assetsBytes (sortMap entry.2)) result ∧
      result.tokens.Perm (multiassets.tokens ++ tokensOf [entry]) := by
  obtain ⟨hcount, hassets⟩ := hfits.sortMap
  have hsorted := perm_sortMap entry.2
  have hone : tokensOf [entry] =
      entry.2.entries.map fun asset => (entry.1 ++ asset.1, asset.2) :=
    List.append_nil _
  have hperm := (hsorted.map fun asset => (entry.1 ++ asset.1, asset.2)).append_left
    multiassets.tokens
  have hopen := tokens_open multiassets entry.1
  rw [hone] at hnodup ⊢
  rw [← hopen] at hnodup hperm ⊢
  obtain ⟨result, hrounds, htokens⟩ := rounds_assets hassets
    (fun asset hasset => hread asset (hsorted.mem_iff.mp hasset))
    ((hperm.map Prod.fst).nodup_iff.mpr hnodup)
  refine ⟨result, ?_, htokens.trans hperm⟩
  rw [assetsBytes, List.length_append] at henough
  have hhash := hfits.hash
  exact readsRound (dataItem_policy hfits).1 (readsItem_byteString (by omega))
    (readsItem_fields hrounds (two_mul_length_le_assets hassets) (by omega)).reads

theorem rounds_policies {entries : List (Hash × JsMap AssetName ℤ)} {rounds : ℕ}
    (hfits : ∀ entry ∈ entries, FitsPolicy entry)
    (hread : ∀ token ∈ tokensOf entries, ReadsItem readQuantity (encodeInt token.2) token.2)
    (henough : (entries.flatMap fun entry =>
      encodeChunk entry.1 ++ assetsBytes (sortMap entry.2)).length < rounds)
    (hnodup : ((multiassets.tokens ++ tokensOf entries).map Prod.fst).Nodup) :
    ∃ result, Rounds (readPolicy readQuantity rounds) multiassets (2 * entries.length)
        (entries.flatMap fun entry => encodeChunk entry.1 ++ assetsBytes (sortMap entry.2))
        result ∧
      result.tokens.Perm (multiassets.tokens ++ tokensOf entries) := by
  induction entries generalizing multiassets with
  | nil => exact ⟨multiassets, Rounds.nil _, by rw [tokensOf, List.flatMap_nil, List.append_nil]⟩
  | cons entry entries ih =>
    rw [List.forall_mem_cons] at hfits
    rw [tokensOf_cons, List.forall_mem_append] at hread
    rw [tokensOf_cons, ← List.append_assoc] at hnodup ⊢
    rw [List.flatMap_cons, List.length_append, List.length_append] at henough
    have hassets : ∀ asset ∈ entry.2.entries,
        ReadsItem readQuantity (encodeInt asset.2) asset.2 := fun asset hasset =>
      hread.1 (entry.1 ++ asset.1, asset.2)
        (mem_tokensOf.mpr ⟨entry, List.mem_singleton_self _, asset, hasset, rfl⟩)
    have hfirst : ((multiassets.tokens ++ tokensOf [entry]).map Prod.fst).Nodup := by
      rw [List.map_append, List.nodup_append] at hnodup
      exact hnodup.1
    have hinner : (assetsBytes (sortMap entry.2)).length < rounds := by omega
    obtain ⟨middle, hround, hstep⟩ := readsRound_policy hfits.1 hassets hinner hfirst
    obtain ⟨result, hrounds, hperm⟩ := ih hfits.2 hread.2 (by omega)
      (((hstep.append_right _).map Prod.fst).nodup_iff.mpr hnodup)
    refine ⟨result, ?_, hperm.trans (hstep.append_right _)⟩
    rw [List.length_cons, Nat.mul_succ, Nat.add_comm, List.flatMap_cons]
    exact Rounds.cons hround hrounds

theorem readsItem_multiAsset {tokens : List (AssetId × ℤ)} (h : Splits tokens multiassets)
    (hvalid : ValidTokens tokens) (hnodup : (tokens.map Prod.fst).Nodup)
    (hread : ∀ token ∈ tokens, ReadsItem readQuantity (encodeInt token.2) token.2)
    (henough : (multiAssetBytes multiassets).length ≤ rounds) :
    ∃ result, ReadsItem (readMultiAsset readQuantity rounds) (multiAssetBytes multiassets) result ∧
      result.tokens.Perm tokens := by
  obtain ⟨hcount, hfits⟩ := h.fits hvalid
  rw [multiAssetBytes, List.length_append] at henough
  have hpos := encodeHead_length_pos .map multiassets.size
  obtain ⟨result, hrounds, hperm⟩ := @rounds_policies readQuantity JsMap.empty
    multiassets.entries rounds hfits (fun token htoken => hread token (h.perm.mem_iff.mp htoken))
    (by omega) ((h.perm.map Prod.fst).nodup_iff.mpr hnodup)
  refine ⟨result, ?_, hperm.trans h.perm⟩
  have hitems := items_entries fun entry hentry => dataItem_policy (hfits entry hentry)
  exact readsItem_fields hrounds hitems.le_length (by omega)

end Reading

end CardanoSdk.Serialization
