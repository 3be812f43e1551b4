import CardanoSdk.Serialization.SubTransactionBody

/-!
The parts of a sub transaction body one by one: each is written as one item and read back.
-/

namespace CardanoSdk.Serialization.BodyCodec

open Lib Cbor Plutus Cardano
open InputSelection (TokenMap)
open TxConstruction (Credential Hash)

section Parts

variable {Core Object : Type} {codec : Codec Core Object} {same : Core → Core → Prop}
  {cores : List Core}

def RestoresAll (codec : Codec Core Object) (same : Core → Core → Prop) (objects : List Object)
    (cores : List Core) : Prop :=
  ∃ cores', objects.mapM codec.toCore = .ok cores' ∧ List.Forall₂ same cores' cores

theorem keptItem_list (hcount : cores.length < 2 ^ 64)
    (h : ∀ core ∈ cores, codec.RoundTrips same core) :
    ∃ objects, cores.mapM codec.fromCore = .ok objects ∧
      KeptItem (writeParts codec.toCbor objects) (readList codec.fromCbor maxRounds) fun decoded =>
        RestoresAll codec same decoded cores := by
  obtain ⟨objects, elements, hparts⟩ := parts_survive h
  have hobjects : objects.length = cores.length := hparts.made.length_eq.symm
  have helements : objects.length = elements.length := hparts.written.length_eq
  have hhead := head_encodeHead .array (show elements.length < 2 ^ 64 by omega)
  obtain ⟨decoded, hdecoded⟩ := exists_of_fits [] hparts.read
  refine ⟨objects, mapM_of_forall₂ hparts.made, _, decoded, ?_,
    DataItem.array hhead (items_of_wellFormed hparts.items), fun hlength => ?_⟩
  · unfold writeParts
    rw [helements]
    exact Encodes.write (writes_startArray (by omega)) (encodes_parts hparts.written)
  · have hsmall := length_le_flatten hparts.items
    rw [List.length_append] at hlength
    obtain ⟨hdecodes, hrestores⟩ := hdecoded (by omega)
    refine ⟨readsItem_list hdecodes (Framed.definite hhead) ?_, mapM_toCore hrestores⟩
    rw [maxRounds]
    omega

theorem keptItem_set {inConwayEra : Bool} (hcount : cores.length < 2 ^ 64)
    (h : ∀ core ∈ cores, codec.RoundTrips same core) :
    ∃ set, CborSet.fromCore codec.fromCore cores = .ok set ∧
      KeptItem (writePart (CborSet.toCbor inConwayEra codec.toCbor) set)
        (readPart (CborSet.fromCbor codec.fromCbor)) fun decoded =>
          RestoresAll codec same decoded.values cores :=
  keptItem_codec (cborSet_roundTrips hcount h)

end Parts

theorem keptItem_number {value : ℤ} (h : IsNumber value) :
    KeptItem (writeInteger value) readNumber (· = value) := by
  refine keptItem_converted (keptItem_int h.fits) fun reader => ?_
  rw [h.exact]
  rfl

variable {mint : TokenMap}

theorem sortedMint_ok (hvalid : ValidTokens mint.entries) :
    ∃ sorted, sortedMint mint = .ok sorted ∧ sorted.entries.Perm mint.entries := by
  have hids : ∀ id ∈ mint.keys, ValidId id := by
    intro id hid
    obtain ⟨token, htoken, rfl⟩ := List.mem_map.mp hid
    exact hvalid.ids token htoken
  obtain ⟨multiassets, hsplit, hsplits⟩ := tokenMapToMultiAsset_ok hids
  have hperm := hsplits.sortMap.perm
  obtain ⟨sorted, hjoin, hentries⟩ := @multiAssetsToTokenMap_ok (sortMap multiassets)
    (fun token htoken => hvalid.ids token (hperm.mem_iff.mp htoken))
    ((hperm.map Prod.fst).nodup_iff.mpr mint.nodup)
  exact ⟨sorted, (bind_of_ok hsplit).trans hjoin, hentries ▸ hperm⟩

theorem validTokens_perm {tokens tokens' : List (InputSelection.AssetId × ℤ)}
    (hvalid : ValidTokens tokens) (hperm : tokens'.Perm tokens) : ValidTokens tokens' where
  ids token htoken := hvalid.ids token (hperm.mem_iff.mp htoken)
  quantities token htoken := hvalid.quantities token (hperm.mem_iff.mp htoken)
  count := by
    rw [hperm.length_eq]
    exact hvalid.count

theorem keptItem_mint (hvalid : ValidTokens mint.entries) :
    KeptItem (writeMint mint) readMint fun mint' => mint'.entries.Perm mint.entries := by
  have hids : ∀ id ∈ mint.keys, ValidId id := by
    intro id hid
    obtain ⟨token, htoken, rfl⟩ := List.mem_map.mp hid
    exact hvalid.ids token htoken
  obtain ⟨multiassets, hsplit, hsplits⟩ := tokenMapToMultiAsset_ok hids
  have hsorted := hsplits.sortMap
  obtain ⟨tokens, htokens⟩ := @exists_of_fits _
    ((multiAssetBytes (sortMap multiassets)).length < 2 ^ 53)
    (fun tokens => ReadsItem readMint (multiAssetBytes (sortMap multiassets)) tokens ∧
      tokens.entries.Perm mint.entries) JsMap.empty fun hlength => by
        obtain ⟨read, hread, hperm⟩ := readsItem_multiAsset hsorted hvalid mint.nodup
          (fun token htoken => readsItem_int (hvalid.quantities token htoken).1
            (hvalid.quantities token htoken).2) hlength.le
        obtain ⟨joined, hjoin, hentries⟩ := multiAssetsToTokenMap_ok
          (fun token htoken => hvalid.ids token (hperm.mem_iff.mp htoken))
          ((hperm.map Prod.fst).nodup_iff.mpr mint.nodup)
        rw [← hentries] at hperm
        obtain ⟨tokens, htokens, hsame⟩ := sortedMint_ok (validTokens_perm hvalid hperm)
        refine ⟨tokens, hread.map fun reader => ?_, hsame.trans hperm⟩
        rw [run_bind_ok (checking_ok hjoin)]
        exact checking_ok htokens
  refine ⟨_, tokens, ?_, dataItem_multiAsset hsorted hvalid, htokens⟩
  have hmade : (tokenMapToMultiAsset mint).mapError EncodeException.error = .ok multiassets := by
    rw [hsplit]
    rfl
  exact Encodes.encode hmade (encodes_writing (writes_multiAsset hsplits hvalid))

theorem eq_of_fields {κ ν : Type} {entries entries' : List (κ × ν)}
    (h : List.Forall₂ (fun entry entry' => entry'.1 = entry.1 ∧ entry'.2 = entry.2) entries
      entries') : entries = entries' := by
  rw [← List.forall₂_eq_eq_eq]
  exact h.imp fun _ _ hentry => Prod.ext hentry.1.symm hentry.2.symm

section Accounts

variable {text : TextEncodings} {message : String}

def IsAccount (text : TextEncodings) (account : RewardAccountText) : Prop :=
  ∃ props, fromBech32 text account = .ok props ∧
    (props.type = .rewardKey ∨ props.type = .rewardScript) ∧ props.toBech32 text = .ok account

/-- The address of an account has a network and a credential of its type, and
comes back from its bytes. -/
structure AccountAddress (text : TextEncodings) (props : AddressProps) (bytes : List UInt8) :
    Prop where
  length : bytes.length = 29
  written : props.toBytes text = .ok bytes
  read : AddressProps.fromBytes text bytes = .ok props
  parts : ∃ network hash, hash.length = 28 ∧ props = {
    type := props.type
    networkId := some network
    paymentPart := some ⟨if props.type = .rewardScript then .scriptHash else .keyHash, hash⟩ }

theorem accountAddress_of_fromBech32 {account : RewardAccountText} {props : AddressProps}
    (h : fromBech32 text account = .ok props)
    (hreward : props.type = .rewardKey ∨ props.type = .rewardScript) :
    ∃ bytes, AccountAddress text props bytes := by
  unfold fromBech32 at h
  split at h
  · cases h
  · rename_i data _
    have hdata := mapError_eq_ok_iff.mp h
    obtain ⟨type, htype⟩ : ∃ type, AddressType.ofNat? ((data.headD 0).toNat / 16) = some type := by
      cases htype : AddressType.ofNat? ((data.headD 0).toNat / 16) with
      | none =>
        rw [AddressProps.fromBytes, htype] at hdata
        cases hdata
      | some type => exact ⟨type, rfl⟩
    have hprops := type_of_fromBytes htype hdata
    obtain ⟨hunpack, hwritten⟩ : unpackPayment .rewardScript type data = .ok props ∧
        props.toBytes text = packPayment props := by
      have hread := hdata
      rw [AddressProps.fromBytes, htype] at hread
      rw [AddressProps.toBytes, hprops]
      rw [hprops] at hreward
      rcases hreward with rfl | rfl
      · exact ⟨hread, rfl⟩
      · exact ⟨hread, rfl⟩
    have hparts := hunpack
    unfold unpackPayment at hparts
    split at hparts
    · cases hparts
    · rename_i hlength
      obtain ⟨hash, hhash, hparts⟩ := bind_ok hparts
      cases hparts
      obtain ⟨rfl, hhashLength⟩ := hash28_eq_ok hhash
      have hpacked := packPayment_unpackPayment htype hunpack rfl
      exact ⟨data, not_not.mp hlength, hwritten.trans (congrArg Except.ok hpacked), hdata,
        networkOf data, _, hhashLength, rfl⟩

theorem account_bytes {account : RewardAccountText} (h : IsAccount text account) :
    ∃ bytes, accountBytes text message account = .ok bytes ∧ bytes.length = 29 ∧
      accountOfBytes text bytes = .ok account := by
  obtain ⟨props, hprops, hreward, htext⟩ := h
  obtain ⟨bytes, haddress⟩ := accountAddress_of_fromBech32 hprops hreward
  refine ⟨bytes, ?_, haddress.length, ?_⟩
  · refine (bind_of_ok hprops).trans ?_
    rw [if_pos hreward, haddress.written]
  · refine (bind_of_ok haddress.read).trans ?_
    rw [htext]
    rfl

theorem keyBytes_account : KeyBytes (accountBytes text message)
    (fun bytes => writing (writeByteString bytes)) (readAccount text) (IsAccount text) where
  kept account h := by
    obtain ⟨bytes, hbytes, hlength, haccount⟩ := @account_bytes _ message _ h
    refine ⟨bytes, hbytes, ?_⟩
    refine keptItem_converted (keptItem_byteString (by omega)) fun reader => ?_
    exact decoding_ok haccount
  unique account account' bytes h h' hbytes hbytes' := by
    obtain ⟨_, hmade, -, haccount⟩ := @account_bytes _ message _ h
    obtain ⟨_, hmade', -, haccount'⟩ := @account_bytes _ message _ h'
    cases hmade.symm.trans hbytes
    cases hmade'.symm.trans hbytes'
    exact Except.ok.inj (haccount.symm.trans haccount')

structure ValidAccounts (text : TextEncodings) (entries : List (RewardAccountText × ℤ)) : Prop where
  nonempty : entries ≠ []
  count : entries.length < 2 ^ 64
  nodup : (entries.map Prod.fst).Nodup
  accounts : ∀ entry ∈ entries, IsAccount text entry.1
  quantities : ∀ entry ∈ entries, FitsHead entry.2

theorem keptItem_accounts {entries : List (RewardAccountText × ℤ)}
    (h : ValidAccounts text entries) :
    KeptItem (writeAccounts text message (JsMap.ofList entries)) (readAccounts text) fun map =>
      map.entries.Perm entries := by
  have hentries := JsMap.entries_ofList_of_nodup h.nodup
  obtain ⟨encoded, hencoded, hkept⟩ := @KeyBytes.keptItem _ _ _ _ (readAccount text)
    (reading readInt) (fun (map : JsMap RewardAccountText ℤ) entry => map.set entry.1 entry.2) _ _
    (fun quantity => writing (writeInt quantity)) _ (@keyBytes_account text message) compareEntries
    (fun entry read => read = entry.2) entries h.accounts h.nodup h.count
    (fun entry hmem => (keptItem_int (h.quantities entry hmem)).items) JsMap.empty
  have hmade : withAddressBytes text message (JsMap.ofList entries) =
      .ok (JsMap.ofList encoded) := by
    rw [withAddressBytes, hentries]
    exact bind_of_ok hencoded
  obtain ⟨bytes, map, hencodes, hitem, hread⟩ := hkept
  refine ⟨bytes, map, Encodes.encode hmade hencodes, hitem, fun hlength => ?_⟩
  obtain ⟨hreads, sorted, read, hperm, hall, hmap⟩ := hread hlength
  obtain rfl := eq_of_fields hall
  refine ⟨hreads, ?_⟩
  rw [hmap]
  have hread := JsMap.entries_ofList_of_nodup ((hperm.map Prod.fst).nodup_iff.mpr h.nodup)
  change (JsMap.ofList sorted).entries.Perm entries
  rwa [hread]

end Accounts

section Credentials

theorem credentialToCbor_short {credential : Credential} {bytes : List UInt8}
    (h : credential.hash.length = 28) (hbytes : credentialToCbor credential = .ok bytes) :
    bytes.length < 2 ^ 53 := by
  rw [credentialToCbor_eq (by omega)] at hbytes
  cases hbytes
  have hhead := length_encodeHead_le .array credentialArraySize
  have htype := length_encodeHead_le .unsignedInteger (credentialTypeNumber credential.type)
  have hhash := length_encodeHead_le .byteString credential.hash.length
  have hnumber : encodeInt (credentialTypeNumber credential.type) =
      encodeHead .unsignedInteger (credentialTypeNumber credential.type) := by
    cases credential.type <;> rfl
  rw [List.length_append, List.length_append, hnumber, encodeChunk, List.length_append]
  omega

theorem keyBytes_credential : KeyBytes credentialCodec.toCbor
    (fun bytes => writing (writeEncodedValue bytes)) (readPart credentialCodec.fromCbor)
    (fun credential => credential.hash.length = 28) where
  kept credential h := by
    obtain ⟨item, hwritten, hitem⟩ := @credentialToCbor_ok credential (by omega)
    refine ⟨item, hwritten, item, credential, encodes_writing (writes_encodedValue item),
      hitem.dataItem, fun hlength => ?_⟩
    exact ⟨readsItem_part hitem.dataItem (hitem.fromCbor hlength), rfl⟩
  unique credential credential' bytes h h' hbytes hbytes' := by
    obtain ⟨item, hwritten, hitem⟩ := @credentialToCbor_ok credential (by omega)
    obtain ⟨item', hwritten', hitem'⟩ := @credentialToCbor_ok credential' (by omega)
    cases hwritten.symm.trans hbytes
    cases hwritten'.symm.trans hbytes'
    have hlength := credentialToCbor_short h hwritten
    exact Except.ok.inj ((hitem.fromCbor hlength).symm.trans (hitem'.fromCbor hlength))

/-- The entries in some order, with values that belong to them. -/
def Reordered {κ μ ν : Type} (same : μ → κ × ν → Prop) (entries' : List (κ × μ))
    (entries : List (κ × ν)) : Prop :=
  ∃ sorted, sorted.Perm entries ∧
    List.Forall₂ (fun entry entry' => entry'.1 = entry.1 ∧ same entry'.2 entry) sorted entries'

structure ValidCredentials {ν : Type} (entries : List (Credential × ν)) : Prop where
  nonempty : entries ≠ []
  count : entries.length < 2 ^ 64
  nodup : (entries.map Prod.fst).Nodup
  hashes : ∀ entry ∈ entries, entry.1.hash.length = 28

theorem keptItem_credentials {ν : Type} {writeValue : ν → EncodeM Unit} {readValue : DecodeM ν}
    {kind : ν → Credential × ν → Prop} {entries : List (Credential × ν)}
    (h : ValidCredentials entries)
    (hvalue : ∀ entry ∈ entries, KeptItems (writeValue entry.2) readValue 1 fun value =>
      kind value entry) :
    KeptItem (writeCredentials writeValue entries) (readCredentials readValue) fun entries' =>
      Reordered kind entries' entries := by
  obtain ⟨encoded, hencoded, hkept⟩ := @KeyBytes.keptItem _ _ _ _
    (readPart credentialCodec.fromCbor) readValue
    (fun (entries : List (Credential × ν)) entry => entries ++ [entry]) _ _ writeValue _
    keyBytes_credential compareKeys (fun entry value => kind value entry) entries h.hashes h.nodup
    h.count hvalue []
  have hmade : withCredentialBytes entries = .ok (JsMap.ofList encoded) := bind_of_ok hencoded
  obtain ⟨bytes, entries', hencodes, hitem, hread⟩ := hkept
  refine ⟨bytes, entries', Encodes.encode hmade hencodes, hitem, fun hlength => ?_⟩
  obtain ⟨hreads, sorted, read, hperm, hall, hentries⟩ := hread hlength
  have hread : read.foldl (fun entries entry => entries ++ [entry]) [] = read := by
    rw [List.foldl_append_eq_append, List.nil_append, ← List.flatMap_def, List.flatMap_singleton']
  rw [hread] at hentries
  subst hentries
  exact ⟨hreads, sorted, hperm, hall⟩

theorem keptItem_madeCredentials {γ ν : Type} {make : γ → Except DecodeException ν}
    {writeValue : ν → EncodeM Unit} {readValue : DecodeM ν} {back : ν → γ → Prop}
    {entries : List (Credential × γ)} (h : ValidCredentials entries)
    (hvalue : ∀ entry ∈ entries, ∃ object, make entry.2 = .ok object ∧
      KeptItems (writeValue object) readValue 1 fun value => back value entry.2) :
    ∃ objects, (entries.mapM fun entry => do
        let object ← make entry.2
        return (entry.1, object)) = .ok objects ∧
      objects.length = entries.length ∧
      KeptItem (writeCredentials writeValue objects) (readCredentials readValue) fun entries' =>
        Reordered (fun value entry => back value entry.2) entries' entries := by
  obtain ⟨objects, hobjects, hall⟩ := @mapM_ok_forall₂ DecodeException _ _
    (fun entry object => entry ∈ entries ∧ object.1 = entry.1 ∧
      KeptItems (writeValue object.2) readValue 1 fun value => back value entry.2)
    (fun entry => do
      let object ← make entry.2
      return (entry.1, object)) entries fun entry hmem => by
        obtain ⟨object, hobject, hkept⟩ := hvalue entry hmem
        exact ⟨(entry.1, object), bind_of_ok hobject, hmem, rfl, hkept⟩
  have hlength := hall.length_eq.symm
  have hkeys : entries.map Prod.fst = objects.map Prod.fst := by
    rw [← List.forall₂_eq_eq_eq, List.forall₂_map_left_iff, List.forall₂_map_right_iff]
    exact hall.imp fun _ _ hentry => hentry.2.1.symm
  have hvalid : ValidCredentials objects := by
    refine ⟨fun hnil => h.nonempty ?_, by rw [hlength]; exact h.count, hkeys ▸ h.nodup,
      fun object hmem => ?_⟩
    · rw [hnil] at hlength
      exact List.length_eq_zero_iff.mp hlength.symm
    · obtain ⟨entry, hentry, -, hkey, -⟩ := exists_of_forall₂_right hall hmem
      rw [hkey]
      exact h.hashes entry hentry
  -- the credential tells to which core value an object belongs
  have hkept := @keptItem_credentials _ writeValue readValue
    (fun value object => ∃ core, (object.1, core) ∈ entries ∧ back value core) objects hvalid
    fun object hmem => by
      obtain ⟨entry, hentry, -, hkey, bytes, value, hencodes, hitem, hread⟩ :=
        exists_of_forall₂_right hall hmem
      refine ⟨bytes, value, hencodes, hitem, fun hlength => ⟨(hread hlength).1, entry.2, ?_⟩⟩
      rw [hkey]
      exact ⟨hentry, (hread hlength).2⟩
  refine ⟨objects, hobjects, hlength, hkept.mono ?_⟩
  rintro entries' ⟨sorted, hperm, hread⟩
  obtain ⟨sortedCores, hsorted, hsortedPerm⟩ := List.perm_comp_forall₂ hperm
    (@List.Forall₂.flip _ _ (flip _) _ _ hall)
  refine ⟨sortedCores, hsortedPerm, forall₂_join hsorted hread ?_⟩
  rintro object entry entry' ⟨hentry, hkey, -⟩ ⟨hkey', core, hcore, hback⟩
  refine ⟨hkey'.trans hkey, ?_⟩
  have hsame := List.inj_on_of_nodup_map h.nodup hcore hentry hkey
  rw [← hsame]
  exact hback

theorem keptItem_nonEmptyMap {μ : Type} {write : EncodeM Unit} {message : String} {size : μ → ℕ}
    {read : DecodeM μ} {holds : μ → Prop} (h : KeptItem write read holds)
    (hsize : ∀ map, holds map → size map ≠ 0) :
    KeptItem write (nonEmptyMap message size read) holds := by
  obtain ⟨bytes, map, hencodes, hitem, hread⟩ := h
  refine ⟨bytes, map, hencodes, hitem, fun hlength => ?_⟩
  obtain ⟨hreads, hholds⟩ := hread hlength
  refine ⟨hreads.map fun reader => ?_, hholds⟩
  rw [if_neg (hsize map hholds)]
  rfl

theorem refuses_plutusData : Refuses (readPart PlutusData.fromCbor) := by
  have hrefused : (PlutusData.fromCbor nullBytes).toOption = none := by decide
  refine refuses_part fun value hvalue => ?_
  rw [hvalue] at hrefused
  cases hrefused

def DatumRestores (value : Option PlutusData) (datum : Option CoreData) : Prop :=
  ∃ datum', value.mapM plutusDataCodec.toCore = .ok datum' ∧ Option.Rel DatumBack datum' datum

theorem keptItems_datum {datum : Option CoreData}
    (h : ∀ value, datum = some value → value.WellFormed) :
    ∃ object, datum.mapM plutusDataCodec.fromCore = .ok object ∧
      KeptItems (writeDatum object) readDatum 1 fun value => DatumRestores value datum :=
  @keptItems_optionalPart _ _ plutusDataCodec DatumBack _ refuses_plutusData fun value hvalue =>
    datum_roundTrips (h value hvalue)

theorem keptItem_interval {interval : Cardano.AccountBalanceInterval} (h : ValidInterval interval) :
    ∃ object, AccountBalanceInterval.fromCore interval = .ok object ∧
      KeptItem (writePart AccountBalanceInterval.toCbor object)
        (readPart AccountBalanceInterval.fromCbor) fun value => value.toCore = interval := by
  obtain ⟨object, hmade, hkept⟩ := keptItem_codec (interval_roundTrips h)
  refine ⟨object, hmade, hkept.mono ?_⟩
  rintro value ⟨core', hcore, rfl⟩
  exact Except.ok.inj hcore

end Credentials

end CardanoSdk.Serialization.BodyCodec
