import CardanoSdk.Serialization.SubTransactionAdmission
import CardanoSdk.Serialization.SubTransactionFields

/-!
Sub transaction bodies as maps and back, whichever fields are there.
-/

namespace CardanoSdk.Serialization.BodyCodec

open Lib Cbor Plutus Cardano
open TxConstruction (Credential Hash)

variable {parts : BodyParts} {text : TextEncodings} {inConwayEra : Bool}
  {body : Cardano.SubTransactionBody parts}

def ValidBody (text : TextEncodings) (body : Cardano.SubTransactionBody parts) : Prop :=
  ∀ (field : Field) (core : field.Core parts), field.core body = some core → field.Valid text core

/-- The object that is made for a field, its item, and the object that is read. -/
structure FieldSurvives (text : TextEncodings) (inConwayEra : Bool)
    (body : Cardano.SubTransactionBody parts) (field : Field) (object : Option (field.Value parts))
    (encoded : Option (List UInt8)) (value : Option (field.Value parts)) : Prop where
  made : (field.core body).mapM field.make = .ok object
  rewritten : Rewritten (field.write text inConwayEra) (field.read text)
    (object.filter field.isWritten) encoded value
  read : (∀ bytes, encoded = some bytes → bytes.length < 2 ^ 53) →
    Option.Rel field.Restores value (field.core body)

theorem field_survives (hvalid : ValidBody text body) (field : Field) :
    ∃ object encoded value, FieldSurvives text inConwayEra body field object encoded value := by
  cases hcore : field.core body with
  | none =>
    refine ⟨none, none, none, ?_, Rewritten.none, fun _ => ?_⟩
    · rw [hcore]
      rfl
    · rw [hcore]
      exact Option.Rel.none
  | some core =>
    obtain ⟨object, hmade, hwritten, bytes, value, hencodes, hitem, hread⟩ :=
      @Field.kept _ _ inConwayEra _ _ (hvalid field core hcore)
    refine ⟨some object, some bytes, some value, ?_, ?_, fun hfits => ?_⟩
    · rw [hcore]
      exact bind_of_ok hmade
    · rw [Option.filter_some_pos hwritten]
      exact Rewritten.some hencodes hitem fun hlength => (hread hlength).1
    · rw [hcore]
      exact Option.Rel.some (hread (hfits bytes rfl)).2

section Made

variable {objects : (field : Field) → Option (field.Value parts)}

theorem mapM_pure {ε α β : Type} (f : α → β) (value : Option α) :
    value.mapM (fun a => (.ok (f a) : Except ε β)) = .ok (value.map f) := by
  cases value <;> rfl

theorem truthy_of_valid {hash : Option Hash} (h : ∀ value, hash = some value → ValidHash value) :
    truthy hash = hash := by
  cases hash with
  | none => rfl
  | some bytes =>
    obtain ⟨byte, bytes, rfl⟩ := List.exists_cons_of_ne_nil (h bytes rfl).1
    rfl

theorem guardsFromCore_eq (guards : Option (List Credential)) (keyHashes : Option (List Hash)) :
    SubTransactionBody.guardsFromCore guards keyHashes =
      ((guards.map Sum.inl).or (keyHashes.map Sum.inr)).mapM
        (Sum.elim Guards.fromCredentials Guards.fromKeyHashes) := by
  cases guards with
  | some credentials => rfl
  | none => cases keyHashes <;> rfl

theorem fromCore_ok (hvalid : ValidBody text body)
    (h : ∀ field : Field, (field.core body).mapM field.make = .ok (objects field)) :
    ∃ object, SubTransactionBody.fromCore body = .ok object ∧ object.originalBytes = none ∧
      ∀ field, object.readBody.get field = objects field := by
  obtain ⟨inputs, hinputs, hinputsSome⟩ := bind_ok (h .inputs)
  obtain ⟨outputs, houtputs, houtputsSome⟩ := bind_ok (h .outputs)
  have hmint : body.mint.mapM (fun mint => (sortedMint mint).mapError DecodeException.error) =
    .ok (objects .mint) := h .mint
  have hguards : SubTransactionBody.guardsFromCore body.guards body.requiredExtraSignatures =
    .ok (objects .guards) := (guardsFromCore_eq _ _).trans (h .guards)
  refine ⟨_, (bind_of_ok hinputs).trans <| (bind_of_ok houtputs).trans <|
    (bind_of_ok (h .certs)).trans <| (bind_of_ok hmint).trans <|
    (bind_of_ok (h .referenceInputs)).trans <| (bind_of_ok hguards).trans <|
    (bind_of_ok (h .requiredTopLevelGuards)).trans <|
    (bind_of_ok (h .accountBalanceIntervals)).trans <| (bind_of_ok (h .votingProcedures)).trans <|
    bind_of_ok (h .proposalProcedures), rfl, fun field => ?_⟩
  have hplain {α : Type} {value object : Option α}
      (hmade : value.mapM (fun a => (.ok a : Except DecodeException α)) = .ok object) :
      value = object := by
    have hsame := (mapM_pure id value).symm.trans hmade
    rw [Option.map_id] at hsame
    exact Except.ok.inj hsame
  cases field with
  | inputs => exact Except.ok.inj hinputsSome
  | outputs => exact Except.ok.inj houtputsSome
  | ttl => exact hplain (h .ttl)
  | withdrawals => exact Except.ok.inj ((mapM_pure JsMap.ofList _).symm.trans (h .withdrawals))
  | auxiliaryDataHash =>
    exact (truthy_of_valid (hvalid .auxiliaryDataHash)).trans (hplain (h .auxiliaryDataHash))
  | validityStartInterval => exact hplain (h .validityStartInterval)
  | scriptDataHash =>
    exact (truthy_of_valid (hvalid .scriptDataHash)).trans (hplain (h .scriptDataHash))
  | networkId => exact hplain (h .networkId)
  | currentTreasuryValue => exact hplain (h .currentTreasuryValue)
  | donation => exact hplain (h .donation)
  | directDeposits =>
    exact Except.ok.inj ((mapM_pure JsMap.ofList _).symm.trans (h .directDeposits))
  | _ => rfl

end Made

def hashesOfKeys (credentials : List Credential) : List Hash :=
  (credentials.filter fun credential => credential.type = .keyHash).map Credential.hash

/-- Given guards, their key hashes are the required signatures; else these are the guards. -/
def guardSignatures (body : Cardano.SubTransactionBody parts) : Option (List Hash) :=
  match body.guards with
  | some guards => (some (hashesOfKeys guards)).filter fun hashes => hashes.length > 0
  | none => body.requiredExtraSignatures

/-- The same body, with the maps in some order, up to the datums that guards require. -/
structure BodyBack (sameDatum : CoreData → CoreData → Prop) (interval : Option ValidityInterval)
    (core' core : Cardano.SubTransactionBody parts) : Prop where
  inputs : core'.inputs = core.inputs
  outputs : List.Forall₂ parts.output.same core'.outputs core.outputs
  validityInterval : core'.validityInterval = interval
  certificates :
    Option.Rel (List.Forall₂ parts.certificate.same) core'.certificates core.certificates
  withdrawals : Option.Rel List.Perm core'.withdrawals core.withdrawals
  auxiliaryDataHash : core'.auxiliaryDataHash = core.auxiliaryDataHash
  mint : Option.Rel (fun mint' mint => mint'.entries.Perm mint.entries) core'.mint core.mint
  scriptIntegrityHash : core'.scriptIntegrityHash = core.scriptIntegrityHash
  guards : core'.guards = core.guards
  requiredExtraSignatures : core'.requiredExtraSignatures = guardSignatures core
  networkId : core'.networkId = core.networkId
  referenceInputs : core'.referenceInputs = core.referenceInputs
  votingProcedures : Option.Rel parts.votes.same core'.votingProcedures core.votingProcedures
  proposalProcedures :
    Option.Rel (List.Forall₂ parts.proposal.same) core'.proposalProcedures core.proposalProcedures
  treasuryValue : core'.treasuryValue = core.treasuryValue
  donation : core'.donation = core.donation
  requiredTopLevelGuards :
    Option.Rel (Reordered fun datum entry => Option.Rel sameDatum datum entry.2)
      core'.requiredTopLevelGuards core.requiredTopLevelGuards
  directDeposits : Option.Rel List.Perm core'.directDeposits core.directDeposits
  accountBalanceIntervals :
    Option.Rel List.Perm core'.accountBalanceIntervals core.accountBalanceIntervals

def SameBody (core' core : Cardano.SubTransactionBody parts) : Prop :=
  BodyBack SameData core.validityInterval core' core

section Back

variable {α β γ : Type}

variable {value : Option α}

theorem rel_eq_iff {value' : Option α} : Option.Rel Eq value' value ↔ value' = value := by
  constructor
  · rintro (hsame | _)
    · rw [hsame]
    · rfl
  · rintro rfl
    cases value'
    · exact Option.Rel.none
    · exact Option.Rel.some rfl

theorem rel_map {holds : α → γ → Prop} {holds' : β → γ → Prop} {f : α → β} {core : Option γ}
    (h : Option.Rel holds value core) (hmap : ∀ a c, holds a c → holds' (f a) c) :
    Option.Rel holds' (value.map f) core := by
  cases h with
  | none => exact Option.Rel.none
  | some hholds => exact Option.Rel.some (hmap _ _ hholds)

theorem mapM_of_rel {restores : α → γ → Prop} {same : β → γ → Prop}
    {toCore : α → Except EncodeException β} {core : Option γ} (h : Option.Rel restores value core)
    (hcore : ∀ a c, restores a c → ∃ b, toCore a = .ok b ∧ same b c) :
    ∃ core', value.mapM toCore = .ok core' ∧ Option.Rel same core' core := by
  cases h with
  | none => exact ⟨none, rfl, Option.Rel.none⟩
  | some hrestores =>
    obtain ⟨b, htoCore, hsame⟩ := hcore _ _ hrestores
    exact ⟨some b, bind_of_ok htoCore, Option.Rel.some hsame⟩

theorem intervals_perm {entries' : List (Credential × AccountBalanceInterval)}
    {entries : List (Credential × Cardano.AccountBalanceInterval)}
    (h : Reordered (fun value entry => AccountBalanceInterval.toCore value = entry.2) entries'
      entries) : (entries'.map fun entry => (entry.1, entry.2.toCore)).Perm entries := by
  obtain ⟨sorted, hperm, hall⟩ := h
  rw [← eq_of_fields (List.forall₂_map_right_iff.mpr hall)]
  exact hperm

theorem requiredGuards_toCore {entries' : List (Credential × Option PlutusData)}
    {entries : List (Credential × Option CoreData)}
    (h : Reordered (fun value entry => DatumRestores value entry.2) entries' entries) :
    ∃ core, entries'.mapM SubTransactionBody.guardToCore = .ok core ∧
      Reordered (fun datum entry => Option.Rel DatumBack datum entry.2) core entries := by
  obtain ⟨sorted, hperm, hall⟩ := h
  obtain ⟨core, hcore, hback⟩ := @mapM_ok_forall₂ EncodeException _ _
    (fun entry' core => ∀ entry : Credential × Option CoreData,
      entry'.1 = entry.1 ∧ DatumRestores entry'.2 entry.2 →
        core.1 = entry.1 ∧ Option.Rel DatumBack core.2 entry.2)
    SubTransactionBody.guardToCore entries' fun entry' hmem => by
      obtain ⟨entry, -, hkey, datum, hdatum, -⟩ := exists_of_forall₂_right hall hmem
      refine ⟨(entry'.1, datum), bind_of_ok hdatum, ?_⟩
      rintro other ⟨hother, datum', hdatum', hrel⟩
      cases hdatum.symm.trans hdatum'
      exact ⟨hother, hrel⟩
  exact ⟨core, hcore, sorted, hperm,
    forall₂_join hall.flip hback fun entry' entry core hentry hcore => hcore entry hentry⟩

end Back

section Converted

theorem eq_none_of_mapM {ε α β : Type} {f : α → Except ε β} {value : Option α}
    (h : value.mapM f = .ok none) : value = none := by
  cases value with
  | none => rfl
  | some a =>
    obtain ⟨b, -, hsome⟩ := bind_ok h
    cases hsome

theorem credentialKeyHashes_ok {credentials : List Credential}
    (h : ∀ credential ∈ credentials, credential.hash.length = 28) :
    SubTransactionBody.credentialKeyHashes credentials = .ok (hashesOfKeys credentials) := by
  obtain ⟨hashes, hhashes, hall⟩ := @mapM_ok_forall₂ EncodeException _ _
    (fun (credential : Credential) hash => hash = credential.hash)
    (fun credential => (hash28ByteBase16 credential.hash).mapError EncodeException.error)
    (credentials.filter fun credential => credential.type = .keyHash) fun credential hmem => by
      refine ⟨credential.hash, ?_, rfl⟩
      rw [hash28ByteBase16, if_pos (h credential (List.mem_of_mem_filter hmem))]
      rfl
  have hsame : hashes = hashesOfKeys credentials := by
    rw [hashesOfKeys, ← List.forall₂_eq_eq_eq, List.forall₂_map_right_iff]
    exact hall.flip
  rw [← hsame]
  exact hhashes

theorem guards_toCore {guards : Option Guards} (hvalid : ValidBody text body)
    (h : Option.Rel (@Field.Restores parts .guards) guards (Field.core body .guards)) :
    ∃ keyHashes, (guards.bind Guards.credentials).mapM (CborSet.toCore credentialCodec.toCore) =
        .ok body.guards ∧
      SubTransactionBody.guardKeyHashes guards body.guards = .ok keyHashes ∧
      keyHashes.filter (fun hashes => hashes.length > 0) = guardSignatures body := by
  have hguards := hvalid .guards
  change Option.Rel _ _
    ((body.guards.map Sum.inl).or (body.requiredExtraSignatures.map Sum.inr)) at h
  change ∀ core, (body.guards.map Sum.inl).or (body.requiredExtraSignatures.map Sum.inr) =
    some core → _ at hguards
  rw [guardSignatures]
  cases hcredentials : body.guards with
  | some credentials =>
    rw [hcredentials] at h hguards
    have hvalidGuards : ValidGuards credentials := hguards _ rfl
    cases h with
    | @some value _ hrestores =>
      obtain ⟨hkeyHashes, hback⟩ : GuardsRestore value none (some credentials) := hrestores
      have hhashes := credentialKeyHashes_ok hvalidGuards.hashes
      refine ⟨_, hback, ?_, rfl⟩
      rw [SubTransactionBody.guardKeyHashes, Option.bind_some, eq_none_of_mapM hkeyHashes]
      exact bind_of_ok hhashes
  | none =>
    rw [hcredentials] at h hguards
    cases hsignatures : body.requiredExtraSignatures with
    | none =>
      rw [hsignatures] at h
      cases h with
      | none => exact ⟨none, rfl, rfl, rfl⟩
    | some keyHashes =>
      rw [hsignatures] at h hguards
      have hvalidHashes : ValidKeyHashes keyHashes := hguards _ rfl
      cases h with
      | @some value _ hrestores =>
        obtain ⟨hkeyHashes, hback⟩ : GuardsRestore value (some keyHashes) none := hrestores
        refine ⟨some keyHashes, hback, ?_, ?_⟩
        · rw [SubTransactionBody.guardKeyHashes, Option.bind_some]
          cases hset : value.keyHashes with
          | none =>
            rw [hset] at hkeyHashes
            cases hkeyHashes
          | some set =>
            rw [hset] at hkeyHashes
            exact hkeyHashes
        · have hpos := List.length_pos_iff.mpr hvalidHashes.nonempty
          exact Option.filter_some_pos (decide_eq_true hpos)

def boundedInterval (interval : Option ValidityInterval) : Option ValidityInterval :=
  interval.filter fun interval => interval ≠ {}

theorem interval_back (interval : Option ValidityInterval) :
    (if (interval.bind ValidityInterval.invalidHereafter).isSome ∨
        (interval.bind ValidityInterval.invalidBefore).isSome then
      some {
        invalidBefore := interval.bind ValidityInterval.invalidBefore
        invalidHereafter := interval.bind ValidityInterval.invalidHereafter }
    else none) = boundedInterval interval := by
  cases interval with
  | none => rfl
  | some interval =>
    obtain ⟨before, hereafter⟩ := interval
    cases before <;> cases hereafter <;> rfl

theorem referenceInputs_toCore {sets : Option (CborSet TransactionInput)}
    {inputs : Option (List TxIn)} (hne : ∀ cores, inputs = some cores → cores ≠ [])
    (h : Option.Rel (fun set cores =>
      RestoresAll transactionInputCodec Eq (CborSet.values set) cores) sets inputs) :
    (sets.filter fun set => set.size > 0).mapM (CborSet.toCore transactionInputCodec.toCore) =
      .ok inputs := by
  cases h with
  | none => rfl
  | @some set cores hrestores =>
    obtain ⟨cores', hcores, hsame⟩ := hrestores
    rw [List.forall₂_eq_eq_eq] at hsame
    subst hsame
    have hlength := (forall₂_of_mapM_ok hcores).length_eq
    have hpos := List.length_pos_iff.mpr (hne cores' rfl)
    have hsize : decide (set.size > 0) = true := by
      refine decide_eq_true ?_
      change set.values.length > 0
      omega
    have hwritten : (some set).filter (fun set => set.size > 0) = some set :=
      Option.filter_some_pos hsize
    rw [hwritten]
    exact bind_of_ok hcores

theorem toCore_ok {decoded : SubTransactionBody parts} (hvalid : ValidBody text body)
    (h : ∀ field : Field, Option.Rel field.Restores (decoded.readBody.get field)
      (field.core body)) :
    ∃ core, decoded.toCore = .ok core ∧
      BodyBack DatumBack (boundedInterval body.validityInterval) core body := by
  obtain ⟨keyHashes, hguards, hkeyHashes, hsignatures⟩ := guards_toCore hvalid (h .guards)
  obtain ⟨certificates, hcertificates, hcertificatesSame⟩ := mapM_of_rel (h .certs) fun _ _ h => h
  obtain ⟨inputs, hinputs, hinputsSame⟩ :
      RestoresAll transactionInputCodec Eq decoded.inputs.values body.inputs := by
    cases h .inputs with
    | some hrestores => exact hrestores
  obtain ⟨outputs, houtputs, houtputsSame⟩ :
      RestoresAll parts.output.codec parts.output.same decoded.outputs body.outputs := by
    cases h .outputs with
    | some hrestores => exact hrestores
  obtain ⟨proposals, hproposals, hproposalsSame⟩ :=
    mapM_of_rel (h .proposalProcedures) fun _ _ h => h
  have hreference := referenceInputs_toCore
    (fun cores hcores => (hvalid .referenceInputs cores hcores).1) (h .referenceInputs)
  obtain ⟨required, hrequired, hrequiredSame⟩ :=
    mapM_of_rel (h .requiredTopLevelGuards) fun _ _ h => requiredGuards_toCore h
  obtain ⟨votes, hvotes, hvotesSame⟩ := mapM_of_rel (h .votingProcedures) fun _ _ h => h
  rw [List.forall₂_eq_eq_eq] at hinputsSame
  have httl : decoded.ttl = body.validityInterval.bind ValidityInterval.invalidHereafter :=
    rel_eq_iff.mp (h .ttl)
  have hstart : decoded.validityStartInterval =
      body.validityInterval.bind ValidityInterval.invalidBefore :=
    rel_eq_iff.mp (h .validityStartInterval)
  have hinterval := interval_back body.validityInterval
  rw [← httl, ← hstart] at hinterval
  refine ⟨_, (bind_of_ok hguards).trans <| (bind_of_ok hkeyHashes).trans <|
    (bind_of_ok hcertificates).trans <| (bind_of_ok hinputs).trans <|
    (bind_of_ok houtputs).trans <| (bind_of_ok hproposals).trans <|
    (bind_of_ok hreference).trans <| (bind_of_ok hrequired).trans <| bind_of_ok hvotes, ?_⟩
  exact {
    inputs := hinputsSame
    outputs := houtputsSame
    validityInterval := hinterval
    certificates := hcertificatesSame
    withdrawals := rel_map (h .withdrawals) fun _ _ h => h
    auxiliaryDataHash := rel_eq_iff.mp (h .auxiliaryDataHash)
    mint := h .mint
    scriptIntegrityHash := rel_eq_iff.mp (h .scriptDataHash)
    guards := rfl
    requiredExtraSignatures := hsignatures
    networkId := rel_eq_iff.mp (h .networkId)
    referenceInputs := rfl
    votingProcedures := hvotesSame
    proposalProcedures := hproposalsSame
    treasuryValue := rel_eq_iff.mp (h .currentTreasuryValue)
    donation := rel_eq_iff.mp (h .donation)
    requiredTopLevelGuards := hrequiredSame
    directDeposits := rel_map (h .directDeposits) fun _ _ h => h
    accountBalanceIntervals := rel_map (h .accountBalanceIntervals) fun _ _ h => intervals_perm h }

end Converted

theorem getMapSize_eq (body : SubTransactionBody parts) :
    body.getMapSize = Field.written.countP fun field => (body.getSome field).isSome := by
  have hcount {α : Type} (value : Option α) : fieldCount value = if value.isSome then 1 else 0 := by
    cases value <;> rfl
  have hinputs : (body.getSome .inputs).isSome = true := rfl
  have houtputs : (body.getSome .outputs).isSome = true := rfl
  simp only [SubTransactionBody.getMapSize, hcount, Field.written, List.countP_cons,
    List.countP_nil, hinputs, houtputs, if_true]
  omega

theorem keys_ascend {entries : List KeyedEntry}
    {values : (field : Field) → Option (field.Value parts)}
    (h : entries.map KeyedEntry.key =
      (@setFields _ (@ReadBody.fields parts text) values Field.written).map Field.key) :
    (entries.map KeyedEntry.key).Pairwise (· < ·) := by
  have hall : (Field.written.map Field.key).Pairwise (· < ·) := by decide
  rw [h]
  exact hall.sublist (List.filter_sublist.map Field.key)

/-- A valid body is written as a map of the size in its head with ascending keys,
and what is decoded is the body but for what datums lose. -/
theorem body_comes_back (text : TextEncodings) (inConwayEra : Bool)
    (hvalid : ValidBody text body) :
    ∃ object cbor, ∃ entries : List KeyedEntry,
      SubTransactionBody.fromCore body = .ok object ∧
      object.toCbor text inConwayEra = .ok cbor ∧
      cbor = encodeHead .map entries.length ++ (entryItems entries).flatten ∧
      (entries.map KeyedEntry.key).Pairwise (· < ·) ∧
      (cbor.length < 2 ^ 53 → ∃ decoded core,
        SubTransactionBody.fromCbor text cbor = .ok decoded ∧ decoded.toCore = .ok core ∧
          BodyBack DatumBack (boundedInterval body.validityInterval) core body) := by
  choose objects encoded values hsurvive using @field_survives _ text inConwayEra _ hvalid
  obtain ⟨object, hmade, hfresh, hobject⟩ := fromCore_ok hvalid fun field => (hsurvive field).made
  have hrewritten (field : Field) : Rewritten (field.write text inConwayEra) (field.read text)
      (object.getSome field) (encoded field) (values field) := by
    rw [SubTransactionBody.getSome, hobject]
    exact (hsurvive field).rewritten
  have hfew : Field.written.length < 2 ^ 64 := by decide
  obtain ⟨entries, cbor, hcbor, hkeys, hencodes, -, hshort, hreads⟩ :=
    @exists_keyedMap _ (ReadBody.fields text) _ SubTransactionBody.unknownKey _ _ _
      puts_fields keyOf_fields _ hrewritten _ nodup_written hfew
  refine ⟨object, cbor, entries, hmade, ?_, hcbor, keys_ascend hkeys, fun hlength => ?_⟩
  · rw [SubTransactionBody.toCbor, hfresh, cachedOr_none, getMapSize_eq]
    exact encodeAsHex_ok hencodes
  · obtain ⟨read, hread, hget⟩ := hreads hlength {} fun field _ => by cases field <;> rfl
    have hfield (field : Field) : Option.Rel field.Restores (read.get field) (field.core body) := by
      have hvalue := (hget field).trans (if_pos (mem_written field))
      change read.get field = values field at hvalue
      rw [hvalue]
      exact (hsurvive field).read fun bytes hbytes =>
        (hshort field (mem_written field) bytes hbytes).trans_lt hlength
    obtain ⟨inputs, hinputs⟩ : ∃ inputs, read.inputs = some inputs := by
      cases hread : read.inputs with
      | none =>
        have hnone := hfield .inputs
        rw [ReadBody.get, hread] at hnone
        cases hnone
      | some inputs => exact ⟨inputs, rfl⟩
    obtain ⟨outputs, houtputs⟩ : ∃ outputs, read.outputs = some outputs := by
      cases hread : read.outputs with
      | none =>
        have hnone := hfield .outputs
        rw [ReadBody.get, hread] at hnone
        cases hnone
      | some outputs => exact ⟨outputs, rfl⟩
    let decoded : SubTransactionBody parts := {
      toOptionalFields := read.toOptionalFields
      inputs := inputs
      outputs := outputs
      originalBytes := some cbor }
    have hsame (field : Field) : decoded.readBody.get field = read.get field := by
      cases field with
      | inputs => exact hinputs.symm
      | outputs => exact houtputs.symm
      | _ => rfl
    obtain ⟨core, hcore, hback⟩ := @toCore_ok _ _ _ decoded hvalid fun field => by
      rw [hsame]
      exact hfield field
    refine ⟨decoded, core, ?_, hcore, hback⟩
    have hdecoded : decodeWith cbor (readFields ((ReadBody.fields text).stepOr
        SubTransactionBody.unknownKey) (cbor.length + 1) {}) = .ok read :=
      hread.decodeWith hlength
    refine (bind_of_ok hdecoded).trans ?_
    rw [hinputs, houtputs]

section Reordered

variable {κ μ ν : Type} {same same' : μ → κ × ν → Prop} {entries' : List (κ × μ)}
  {entries : List (κ × ν)}

theorem Reordered.mono (h : Reordered same entries' entries)
    (hmono : ∀ entry ∈ entries, ∀ value, same value entry → same' value entry) :
    Reordered same' entries' entries := by
  obtain ⟨sorted, hperm, hall⟩ := h
  refine ⟨sorted, hperm, ?_⟩
  have hmem : ∀ entry ∈ sorted, entry ∈ entries := fun entry => hperm.mem_iff.mp
  refine ((List.forall₂_and_left sorted entries').mpr ⟨hmem, hall⟩).imp ?_
  rintro entry entry' ⟨hentry, hkey, hsame⟩
  exact ⟨hkey, hmono entry hentry _ hsame⟩

theorem Reordered.both (h : Reordered same entries' entries) (h' : Reordered same' entries' entries)
    (hnodup : (entries.map Prod.fst).Nodup) :
    ∀ entry ∈ entries, ∃ value, same value entry ∧ same' value entry := by
  obtain ⟨sorted, hperm, hall⟩ := h
  obtain ⟨sorted', hperm', hall'⟩ := h'
  have hkeys : sorted.map Prod.fst = entries'.map Prod.fst := by
    rw [← List.forall₂_eq_eq_eq, List.forall₂_map_left_iff, List.forall₂_map_right_iff]
    exact hall.imp fun _ _ hentry => hentry.1.symm
  have hdistinct : (entries'.map Prod.fst).Nodup :=
    hkeys ▸ (hperm.map Prod.fst).nodup_iff.mpr hnodup
  intro entry hmem
  obtain ⟨found, hfound, hkey, hsame⟩ := exists_of_forall₂_left hall (hperm.mem_iff.mpr hmem)
  obtain ⟨found', hfound', hkey', hsame'⟩ := exists_of_forall₂_left hall' (hperm'.mem_iff.mpr hmem)
  obtain rfl := List.inj_on_of_nodup_map hdistinct hfound hfound' (hkey.trans hkey'.symm)
  exact ⟨found.2, hsame, hsame'⟩

end Reordered

/-- The body is written as a map of the size in its head with ascending keys, and comes back. -/
def ComesBack (text : TextEncodings) (inConwayEra : Bool)
    (body : Cardano.SubTransactionBody parts) : Prop :=
  ∃ object cbor, ∃ entries : List KeyedEntry, ∃ decoded core,
    SubTransactionBody.fromCore body = .ok object ∧
    object.toCbor text inConwayEra = .ok cbor ∧
    cbor = encodeHead .map entries.length ++ (entryItems entries).flatten ∧
    (entries.map KeyedEntry.key).Pairwise (· < ·) ∧
    SubTransactionBody.fromCbor text cbor = .ok decoded ∧ decoded.toCore = .ok core ∧
    SameBody core body

/-- The datums that guards require keep their integers. -/
def KeptDatums (body : Cardano.SubTransactionBody parts) : Prop :=
  ∀ entries, body.requiredTopLevelGuards = some entries → ∀ entry ∈ entries, ∀ datum,
    entry.2 = some datum → datum.Kept

theorem exists_of_rel_some {α β : Type} {holds : α → β → Prop} {value : Option α} {b : β}
    (h : Option.Rel holds value (some b)) : ∃ a, value = some a ∧ holds a b := by
  cases h with
  | some hholds => exact ⟨_, rfl, hholds⟩

theorem ComesBack.kept (hvalid : ValidBody text body)
    (hfits : (subTransactionBodyCodec parts text inConwayEra).Fits body)
    (h : ComesBack text inConwayEra body) :
    KeptDatums body ∧ body.validityInterval ≠ some {} := by
  obtain ⟨object, cbor, -, decoded, core, hmade, hwritten, -, -, hread, hcore, hsame⟩ := h
  obtain ⟨object', cbor', -, hmade', hwritten', -, -, hback⟩ :=
    body_comes_back text inConwayEra hvalid
  cases hmade.symm.trans hmade'
  cases hwritten.symm.trans hwritten'
  obtain ⟨decoded', core', hread', hcore', hback⟩ := hback (hfits _ _ hmade hwritten)
  cases hread.symm.trans hread'
  cases hcore.symm.trans hcore'
  constructor
  · intro entries hentries entry hmem datum hdatum
    have hentriesSame := hsame.requiredTopLevelGuards
    have hentriesBack := hback.requiredTopLevelGuards
    rw [hentries] at hentriesSame hentriesBack
    obtain ⟨read, hread, hreadSame⟩ := exists_of_rel_some hentriesSame
    obtain ⟨read', hread', hreadBack⟩ := exists_of_rel_some hentriesBack
    cases hread.symm.trans hread'
    have hvalidGuards : ValidRequiredGuards entries :=
      hvalid .requiredTopLevelGuards entries hentries
    obtain ⟨value, hvalueSame, hvalueBack⟩ := hreadSame.both hreadBack hvalidGuards.nodup entry hmem
    rw [hdatum] at hvalueSame hvalueBack
    obtain ⟨datum', hdatum', hdatumSame⟩ := exists_of_rel_some hvalueSame
    obtain ⟨datum'', hdatum'', hdatumBack⟩ := exists_of_rel_some hvalueBack
    cases hdatum'.symm.trans hdatum''
    exact hdatumBack.mp hdatumSame
  · intro hempty
    have hinterval := hback.validityInterval.symm.trans hsame.validityInterval
    rw [hempty] at hinterval
    cases hinterval

theorem sameBody_of_kept {core : Cardano.SubTransactionBody parts} (hdatums : KeptDatums body)
    (hinterval : body.validityInterval ≠ some {})
    (h : BodyBack DatumBack (boundedInterval body.validityInterval) core body) :
    SameBody core body := by
  have hsame : boundedInterval body.validityInterval = body.validityInterval := by
    cases hvalue : body.validityInterval with
    | none => rfl
    | some interval =>
      refine Option.filter_some_pos (decide_eq_true ?_)
      rintro rfl
      exact hinterval hvalue
  rw [hsame] at h
  refine { h with requiredTopLevelGuards := ?_ }
  have hback := h.requiredTopLevelGuards
  cases hentries : body.requiredTopLevelGuards with
  | none =>
    rw [hentries] at hback
    generalize core.requiredTopLevelGuards = read at hback ⊢
    cases hback
    exact Option.Rel.none
  | some entries =>
    rw [hentries] at hback
    obtain ⟨read, hread, hreordered⟩ := exists_of_rel_some hback
    rw [hread]
    refine Option.Rel.some (hreordered.mono fun entry hmem value hvalue => ?_)
    cases hdatum : entry.2 with
    | none =>
      rw [hdatum] at hvalue
      cases hvalue
      exact Option.Rel.none
    | some datum =>
      rw [hdatum] at hvalue
      obtain ⟨datum', rfl, hdatumBack⟩ := exists_of_rel_some hvalue
      exact Option.Rel.some (hdatumBack.mpr (hdatums entries hentries entry hmem datum hdatum))

/-- A valid body comes back exactly if the datums of its required guards keep
their integers and its interval, if there is one, has a bound; and no map with
other keys, without required ones or with an empty map of entries is decoded. -/
theorem subTransactionBody_comes_back_iff (text : TextEncodings) (inConwayEra : Bool)
    (hvalid : ValidBody text body)
    (hfits : (subTransactionBodyCodec parts text inConwayEra).Fits body) :
    (ComesBack text inConwayEra body ↔ KeptDatums body ∧ body.validityInterval ≠ some {}) ∧
      ∀ entries cbor, IsKeyedMap entries cbor → Refused entries →
        ∃ exception, @SubTransactionBody.fromCbor parts text cbor = .error exception := by
  refine ⟨⟨ComesBack.kept hvalid hfits, ?_⟩, fun entries cbor hmap hrefused => ?_⟩
  · rintro ⟨hdatums, hinterval⟩
    obtain ⟨object, cbor, entries, hmade, hwritten, hcbor, hascend, hback⟩ :=
      body_comes_back text inConwayEra hvalid
    obtain ⟨decoded, core, hread, hcore, hback⟩ := hback (hfits _ _ hmade hwritten)
    exact ⟨object, cbor, entries, decoded, core, hmade, hwritten, hcbor, hascend, hread, hcore,
      sameBody_of_kept hdatums hinterval hback⟩
  · cases hread : @SubTransactionBody.fromCbor parts text cbor with
    | error exception => exact ⟨exception, rfl⟩
    | ok decoded => exact absurd hread (refused_of_isKeyedMap hmap hrefused decoded)

def rewardBytes : List UInt8 := 0xe1 :: List.replicate 28 0

def rewardText : RewardAccountText := "stake1uyqqqqqqqqqqqqqqqqqqqqqqqqqqqqqqqqqqqqqqqqqqqqq28lj8u"

def rewardEncodings : TextEncodings where
  bech32Encode hrp bytes := if hrp = "stake" ∧ bytes = rewardBytes then some rewardText else none
  bech32Decode account := if account = rewardText then some rewardBytes else none
  base58Encode _ := ""
  base58Decode _ := none
  crc32 _ := 0

def hashParts : BodyParts where
  output := ⟨Hash, Hash, hashCodec, Eq⟩
  certificate := ⟨Hash, Hash, hashCodec, Eq⟩
  proposal := ⟨Hash, Hash, hashCodec, Eq⟩
  votes := ⟨Hash, Hash, hashCodec, Eq⟩

def scriptGuard : Credential := ⟨.scriptHash, List.replicate 28 7⟩

/-- A withdrawal, and a script that must guard the transaction with this integer. -/
def guardedBody (value : ℤ) : Cardano.SubTransactionBody hashParts where
  inputs := [⟨List.replicate 32 1, 0⟩]
  outputs := [List.replicate 28 2]
  validityInterval := some { invalidHereafter := some 5 }
  withdrawals := some [(rewardText, 4)]
  guards := some [scriptGuard]
  requiredTopLevelGuards := some [(scriptGuard, some (.integer value))]

theorem validCredentials_scriptGuard {ν : Type} (value : ν) :
    ValidCredentials [(scriptGuard, value)] where
  nonempty := List.cons_ne_nil _ _
  count := by
    rw [List.length_singleton]
    decide
  nodup := List.nodup_singleton _
  hashes := List.forall_mem_singleton.mpr rfl

theorem validAccounts_rewardText : ValidAccounts rewardEncodings [(rewardText, 4)] where
  nonempty := List.cons_ne_nil _ _
  count := by decide
  nodup := List.nodup_singleton _
  accounts := List.forall_mem_singleton.mpr ⟨_, rfl, Or.inl rfl, rfl⟩
  quantities := List.forall_mem_singleton.mpr ⟨by decide, by decide⟩

theorem validBody_guarded (value : ℤ) : ValidBody rewardEncodings (guardedBody value) := by
  intro field core hcore
  cases field <;> cases hcore
  case inputs =>
    change ValidInputs [⟨List.replicate 32 1, 0⟩]
    refine ⟨by decide, by decide, List.forall_mem_singleton.mpr ⟨⟨by decide, by decide⟩, rfl⟩⟩
  case outputs =>
    change ValidParts hashParts.output [List.replicate 28 2]
    exact ⟨by decide, List.forall_mem_singleton.mpr (hash_roundTrips (by decide))⟩
  case ttl => exact ⟨⟨by decide, by decide⟩, rfl⟩
  case withdrawals => exact validAccounts_rewardText
  case guards =>
    change ValidGuards [scriptGuard]
    exact ⟨List.cons_ne_nil _ _, by decide, List.forall_mem_singleton.mpr rfl⟩
  case requiredTopLevelGuards =>
    refine ⟨validCredentials_scriptGuard _, List.forall_mem_singleton.mpr ?_⟩
    rintro datum hdatum
    cases hdatum
    rw [CoreData.WellFormed]
    trivial

/-- A fee, which stands only in transactions of the top level. -/
def feeEntry : KeyedEntry where
  key := 2
  head := encodeInt 2
  value := encodeInt 5
  isKey := integerHead_encodeInt (by decide) (by decide)
  isItem := dataItem_encodeInt (by decide) (by decide)

theorem isKeyedMap_fee : IsKeyedMap [feeEntry] [0xa1, 0x02, 0x05] :=
  ⟨some 1, Framed.definite (head_encodeHead .map (show 1 < 2 ^ 64 by decide))⟩

/-- A guard with a small integer comes back, and a map with a fee is refused. -/
theorem subTransactionBody_comes_back_seven :
    ComesBack rewardEncodings true (guardedBody 7) ∧
      ∃ exception, @SubTransactionBody.fromCbor hashParts rewardEncodings [0xa1, 0x02, 0x05] =
        .error exception := by
  have hsettled := subTransactionBody_comes_back_iff rewardEncodings true (validBody_guarded 7)
    (@Codec.fits_of_length _ _ (subTransactionBodyCodec hashParts rewardEncodings true) _ _ 183 rfl
      (by decide +kernel) (by decide))
  refine ⟨hsettled.1.mpr ⟨?_, by decide⟩, ?_⟩
  · rintro entries hentries entry hmem datum hdatum
    cases hentries
    rw [List.mem_singleton] at hmem
    subst hmem
    cases hdatum
    rw [CoreData.Kept]
    norm_num
  · exact hsettled.2 _ _ isKeyedMap_fee (Or.inl ⟨feeEntry, List.mem_singleton_self _, by decide⟩)

/-- An integer below the negative words, in the datum of a required guard, is lost. -/
theorem subTransactionBody_loses_below_words :
    ValidBody rewardEncodings (guardedBody (-(2 ^ 64) - 1)) ∧
      ¬ ComesBack rewardEncodings true (guardedBody (-(2 ^ 64) - 1)) := by
  refine ⟨validBody_guarded _, fun hcomes => ?_⟩
  obtain ⟨hdatums, -⟩ := hcomes.kept (validBody_guarded _)
    (@Codec.fits_of_length _ _ (subTransactionBodyCodec hashParts rewardEncodings true) _ _ 193 rfl
      (by decide +kernel) (by decide))
  have hkept := hdatums _ rfl _ (List.mem_singleton_self _) _ rfl
  rw [CoreData.Kept] at hkept
  norm_num at hkept

end CardanoSdk.Serialization.BodyCodec
