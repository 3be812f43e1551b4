import CardanoSdk.Serialization.BodyParts

/-!
The nineteen fields of a sub transaction body.
-/

namespace CardanoSdk.Serialization.BodyCodec

open Lib Cbor Plutus Cardano
open InputSelection (TokenMap)
open TxConstruction (Credential Hash)

section Fields

variable (parts : BodyParts)

/-- What the core body has under a field that is there. The guards are credentials
or the hashes of keys. -/
def Field.Core : Field → Type
  | .inputs => List TxIn
  | .outputs => List parts.output.Core
  | .ttl => ℤ
  | .certs => List parts.certificate.Core
  | .withdrawals => List (RewardAccountText × ℤ)
  | .auxiliaryDataHash => Hash
  | .validityStartInterval => ℤ
  | .mint => TokenMap
  | .scriptDataHash => Hash
  | .guards => List Credential ⊕ List Hash
  | .networkId => ℤ
  | .referenceInputs => List TxIn
  | .votingProcedures => parts.votes.Core
  | .proposalProcedures => List parts.proposal.Core
  | .currentTreasuryValue => ℤ
  | .donation => ℤ
  | .requiredTopLevelGuards => List (Credential × Option CoreData)
  | .directDeposits => List (RewardAccountText × ℤ)
  | .accountBalanceIntervals => List (Credential × Cardano.AccountBalanceInterval)

variable {parts}

def Field.core (body : Cardano.SubTransactionBody parts) :
    (field : Field) → Option (field.Core parts)
  | .inputs => some body.inputs
  | .outputs => some body.outputs
  | .ttl => body.validityInterval.bind ValidityInterval.invalidHereafter
  | .certs => body.certificates
  | .withdrawals => body.withdrawals
  | .auxiliaryDataHash => body.auxiliaryDataHash
  | .validityStartInterval => body.validityInterval.bind ValidityInterval.invalidBefore
  | .mint => body.mint
  | .scriptDataHash => body.scriptIntegrityHash
  | .guards => (body.guards.map Sum.inl).or (body.requiredExtraSignatures.map Sum.inr)
  | .networkId => body.networkId
  | .referenceInputs => body.referenceInputs
  | .votingProcedures => body.votingProcedures
  | .proposalProcedures => body.proposalProcedures
  | .currentTreasuryValue => body.treasuryValue
  | .donation => body.donation
  | .requiredTopLevelGuards => body.requiredTopLevelGuards
  | .directDeposits => body.directDeposits
  | .accountBalanceIntervals => body.accountBalanceIntervals

/-- The object that `fromCore` makes of it. -/
def Field.make : (field : Field) → field.Core parts → Except DecodeException (field.Value parts)
  | .inputs, cores => CborSet.fromCore transactionInputCodec.fromCore cores
  | .outputs, cores => List.mapM parts.output.codec.fromCore cores
  | .ttl, slot => .ok slot
  | .certs, cores => CborSet.fromCore parts.certificate.codec.fromCore cores
  | .withdrawals, entries => .ok (JsMap.ofList entries)
  | .auxiliaryDataHash, hash => .ok hash
  | .validityStartInterval, slot => .ok slot
  | .mint, tokens => (sortedMint tokens).mapError .error
  | .scriptDataHash, hash => .ok hash
  | .guards, core => Sum.elim Guards.fromCredentials Guards.fromKeyHashes core
  | .networkId, value => .ok value
  | .referenceInputs, cores => CborSet.fromCore transactionInputCodec.fromCore cores
  | .votingProcedures, votes => parts.votes.codec.fromCore votes
  | .proposalProcedures, cores => CborSet.fromCore parts.proposal.codec.fromCore cores
  | .currentTreasuryValue, value => .ok value
  | .donation, value => .ok value
  | .requiredTopLevelGuards, entries => List.mapM SubTransactionBody.guardFromCore entries
  | .directDeposits, entries => .ok (JsMap.ofList entries)
  | .accountBalanceIntervals, entries => List.mapM SubTransactionBody.intervalFromCore entries

def GuardsRestore (guards : Guards) (keyHashes : Option (List Hash))
    (credentials : Option (List Credential)) : Prop :=
  guards.keyHashes.mapM (CborSet.toCore hashCodec.toCore) = .ok keyHashes ∧
    guards.credentials.mapM (CborSet.toCore credentialCodec.toCore) = .ok credentials

/-- What is read is converted back by `toCore`. -/
def Field.Restores : (field : Field) → field.Value parts → field.Core parts → Prop
  | .inputs, set, cores => RestoresAll transactionInputCodec Eq (CborSet.values set) cores
  | .outputs, objects, cores => RestoresAll parts.output.codec parts.output.same objects cores
  | .ttl, slot', slot => slot' = slot
  | .certs, set, cores =>
    RestoresAll parts.certificate.codec parts.certificate.same (CborSet.values set) cores
  | .withdrawals, map, entries => (JsMap.entries map).Perm entries
  | .auxiliaryDataHash, hash', hash => hash' = hash
  | .validityStartInterval, slot', slot => slot' = slot
  | .mint, tokens', tokens => (JsMap.entries tokens').Perm (JsMap.entries tokens)
  | .scriptDataHash, hash', hash => hash' = hash
  | .guards, value, core =>
    Sum.elim (fun credentials => GuardsRestore value none (some credentials))
      (fun keyHashes => GuardsRestore value (some keyHashes) none) core
  | .networkId, value', value => value' = value
  | .referenceInputs, set, cores => RestoresAll transactionInputCodec Eq (CborSet.values set) cores
  | .votingProcedures, votes', votes => parts.votes.codec.Restores parts.votes.same votes' votes
  | .proposalProcedures, set, cores =>
    RestoresAll parts.proposal.codec parts.proposal.same (CborSet.values set) cores
  | .currentTreasuryValue, value', value => value' = value
  | .donation, value', value => value' = value
  | .requiredTopLevelGuards, entries', entries =>
    Reordered (fun value entry => DatumRestores value entry.2) entries' entries
  | .directDeposits, map, entries => (JsMap.entries map).Perm entries
  | .accountBalanceIntervals, entries', entries =>
    Reordered (fun value entry => AccountBalanceInterval.toCore value = entry.2) entries' entries

structure ValidParts (part : EmbeddedClass) (cores : List part.Core) : Prop where
  count : cores.length < 2 ^ 64
  survive : ∀ core ∈ cores, part.codec.RoundTrips part.same core

structure ValidInputs (inputs : List TxIn) : Prop where
  count : inputs.length < 2 ^ 64
  ids : ∀ input ∈ inputs, input.txId.length < 2 ^ 64
  indices : ∀ input ∈ inputs, IsNumber input.index

/-- An empty hash is no hash. -/
def ValidHash (hash : Hash) : Prop := hash ≠ [] ∧ hash.length < 2 ^ 64

structure ValidGuards (guards : List Credential) : Prop where
  nonempty : guards ≠ []
  count : guards.length < 2 ^ 64
  hashes : ∀ credential ∈ guards, credential.hash.length = 28

structure ValidKeyHashes (keyHashes : List Hash) : Prop where
  nonempty : keyHashes ≠ []
  count : keyHashes.length < 2 ^ 64
  hashes : ∀ hash ∈ keyHashes, hash.length < 2 ^ 64

structure ValidRequiredGuards (entries : List (Credential × Option CoreData)) : Prop extends
    ValidCredentials entries where
  datums : ∀ entry ∈ entries, ∀ datum, entry.2 = some datum → datum.WellFormed

structure ValidIntervals (entries : List (Credential × Cardano.AccountBalanceInterval)) : Prop
    extends ValidCredentials entries where
  intervals : ∀ entry ∈ entries, ValidInterval entry.2

def Field.Valid (text : TextEncodings) : (field : Field) → field.Core parts → Prop
  | .inputs, cores => ValidInputs cores
  | .outputs, cores => ValidParts parts.output cores
  | .ttl, slot => IsNumber slot
  | .certs, cores => cores ≠ [] ∧ ValidParts parts.certificate cores
  | .withdrawals, entries => ValidAccounts text entries
  | .auxiliaryDataHash, hash => ValidHash hash
  | .validityStartInterval, slot => IsNumber slot
  | .mint, tokens => JsMap.entries tokens ≠ [] ∧ ValidTokens (JsMap.entries tokens)
  | .scriptDataHash, hash => ValidHash hash
  | .guards, core => Sum.elim ValidGuards ValidKeyHashes core
  | .networkId, value => IsNumber value
  | .referenceInputs, cores => cores ≠ [] ∧ ValidInputs cores
  | .votingProcedures, votes => parts.votes.codec.RoundTrips parts.votes.same votes
  | .proposalProcedures, cores => cores ≠ [] ∧ ValidParts parts.proposal cores
  | .currentTreasuryValue, value => FitsHead value
  | .donation, value => FitsHead value
  | .requiredTopLevelGuards, entries => ValidRequiredGuards entries
  | .directDeposits, entries => ValidAccounts text entries
  | .accountBalanceIntervals, entries => ValidIntervals entries

theorem ValidInputs.survive {inputs : List TxIn} (h : ValidInputs inputs) :
    ∀ input ∈ inputs, transactionInputCodec.RoundTrips Eq input :=
  fun input hmem => transactionInput_roundTrips (h.ids input hmem) (h.indices input hmem)

/-- The item that is written for the value of a field, and what is read from it. -/
def Field.Kept (text : TextEncodings) (inConwayEra : Bool) (field : Field)
    (core : field.Core parts) : Prop :=
  ∃ value, field.make core = .ok value ∧ field.isWritten value = true ∧
    KeptItem (field.write text inConwayEra value) (field.read text) fun value' =>
      field.Restores value' core

variable {text : TextEncodings} {inConwayEra : Bool}

theorem written_of_size {α : Type} {l : List α} {size : ℕ} (hne : l ≠ []) (h : size = l.length) :
    decide (size > 0) = true := by
  rw [h]
  exact decide_eq_true (List.length_pos_iff.mpr hne)

theorem keptItem_hash {hash : Hash} (h : ValidHash hash) :
    KeptItem (writeHash hash) (reading readByteString) (· = hash) := keptItem_byteString h.2

variable {entries : List (RewardAccountText × ℤ)}

theorem size_ofList (h : ValidAccounts text entries) :
    decide ((JsMap.ofList entries).size > 0) = true := by
  refine written_of_size h.nonempty ?_
  rw [JsMap.size, JsMap.entries_ofList_of_nodup h.nodup]

variable {message : String}

theorem keptItem_deposits (h : ValidAccounts text entries) :
    KeptItem (writeAccounts text "Invalid direct deposit address: " (JsMap.ofList entries))
      (nonEmptyMap message JsMap.size (readAccounts text)) fun map => map.entries.Perm entries := by
  refine keptItem_nonEmptyMap (keptItem_accounts h) fun map hperm hsize => h.nonempty ?_
  rw [JsMap.size, hperm.length_eq] at hsize
  exact List.length_eq_zero_iff.mp hsize

theorem keptItem_guards {guards : Guards} {count : ℕ} {keyHashes : Option (List Hash)}
    {credentials : Option (List Credential)}
    (h : GuardsSurvive inConwayEra guards count keyHashes credentials) :
    KeptItem (writePart (Guards.toCbor inConwayEra) guards) (readPart Guards.fromCbor)
      fun guards' => GuardsRestore guards' keyHashes credentials := by
  obtain ⟨bytes, decoded, hwritten, hitem, hread⟩ := h.written
  refine ⟨bytes, decoded, Encodes.encode hwritten (encodes_writing (writes_encodedValue bytes)),
    hitem, fun hlength => ?_⟩
  obtain ⟨hdecoded, hkeyHashes, hcredentials⟩ := hread hlength
  exact ⟨readsItem_part hitem hdecoded, hkeyHashes, hcredentials⟩

theorem Reordered.length_eq {κ μ ν : Type} {same : μ → κ × ν → Prop} {entries' : List (κ × μ)}
    {entries : List (κ × ν)} (h : Reordered same entries' entries) :
    entries'.length = entries.length := by
  obtain ⟨sorted, hperm, hall⟩ := h
  rw [← hperm.length_eq, hall.length_eq]

theorem nonEmpty_of_reordered {ν μ : Type} {same : μ → Credential × ν → Prop}
    {entries : List (Credential × ν)} (hvalid : ValidCredentials entries)
    (entries' : List (Credential × μ)) (h : Reordered same entries' entries) :
    entries'.length ≠ 0 := by
  rw [h.length_eq]
  exact fun hlength => hvalid.nonempty (List.length_eq_zero_iff.mp hlength)

theorem keptItem_requiredGuards {entries : List (Credential × Option CoreData)}
    (h : ValidRequiredGuards entries) :
    ∃ objects, entries.mapM SubTransactionBody.guardFromCore = .ok objects ∧
      decide (objects.length > 0) = true ∧
      KeptItem (writeCredentials writeDatum objects)
        (nonEmptyMap message List.length (readCredentials readDatum)) fun entries' =>
          Reordered (fun value entry => DatumRestores value entry.2) entries' entries := by
  obtain ⟨objects, hmade, hlength, hkept⟩ := keptItem_madeCredentials h.toValidCredentials
    fun entry hmem => keptItems_datum (h.datums entry hmem)
  exact ⟨objects, hmade, written_of_size h.nonempty hlength,
    keptItem_nonEmptyMap hkept (nonEmpty_of_reordered h.toValidCredentials)⟩

theorem keptItem_intervals {entries : List (Credential × Cardano.AccountBalanceInterval)}
    (h : ValidIntervals entries) :
    ∃ objects, entries.mapM SubTransactionBody.intervalFromCore = .ok objects ∧
      decide (objects.length > 0) = true ∧
      KeptItem (writeCredentials (writePart AccountBalanceInterval.toCbor) objects)
        (nonEmptyMap message List.length
          (readCredentials (readPart AccountBalanceInterval.fromCbor))) fun entries' => Reordered (fun value entry => value.toCore = entry.2) entries' entries := by
  obtain ⟨objects, hmade, hlength, hkept⟩ := keptItem_madeCredentials h.toValidCredentials
    fun entry hmem => by
      obtain ⟨object, hobject, hinterval⟩ := keptItem_interval (h.intervals entry hmem)
      exact ⟨object, hobject, hinterval.items⟩
  exact ⟨objects, hmade, written_of_size h.nonempty hlength,
    keptItem_nonEmptyMap hkept (nonEmpty_of_reordered h.toValidCredentials)⟩

theorem Field.kept {field : Field} {core : field.Core parts} (h : field.Valid text core) :
    field.Kept text inConwayEra core := by
  cases field with
  | inputs =>
    obtain ⟨set, hmade, hkept⟩ := keptItem_set (ValidInputs.count h) (ValidInputs.survive h)
    exact ⟨set, hmade, rfl, hkept⟩
  | outputs =>
    obtain ⟨objects, hmade, hkept⟩ := keptItem_list (ValidParts.count h) (ValidParts.survive h)
    exact ⟨objects, hmade, rfl, hkept⟩
  | ttl => exact ⟨core, rfl, rfl, keptItem_number h⟩
  | certs =>
    obtain ⟨hne, hparts⟩ := h
    obtain ⟨set, hmade, hkept⟩ := keptItem_set hparts.count hparts.survive
    exact ⟨set, hmade, written_of_size hne (size_fromCore hmade), hkept⟩
  | withdrawals => exact ⟨JsMap.ofList core, rfl, size_ofList h, keptItem_accounts h⟩
  | auxiliaryDataHash => exact ⟨core, rfl, rfl, keptItem_hash h⟩
  | validityStartInterval => exact ⟨core, rfl, rfl, keptItem_number h⟩
  | mint =>
    obtain ⟨hne, hvalid⟩ := h
    obtain ⟨sorted, hsorted, hperm⟩ := sortedMint_ok hvalid
    refine ⟨sorted, ?_, written_of_size hne hperm.length_eq,
      (keptItem_mint (validTokens_perm hvalid hperm)).mono fun tokens h => h.trans hperm⟩
    rw [make, hsorted]
    rfl
  | scriptDataHash => exact ⟨core, rfl, rfl, keptItem_hash h⟩
  | guards =>
    cases core with
    | inl credentials =>
      obtain ⟨guards, hmade, hsurvive⟩ := @credentials_survive inConwayEra credentials
        (ValidGuards.nonempty h) (ValidGuards.count h) fun credential hmem => by
          rw [ValidGuards.hashes h credential hmem]
          decide
      exact ⟨guards, hmade, written_of_size (ValidGuards.nonempty h) hsurvive.size,
        keptItem_guards hsurvive⟩
    | inr keyHashes =>
      obtain ⟨guards, hmade, hsurvive⟩ := @keyHashes_survive inConwayEra keyHashes
        (ValidKeyHashes.nonempty h) (ValidKeyHashes.count h) (ValidKeyHashes.hashes h)
      exact ⟨guards, hmade, written_of_size (ValidKeyHashes.nonempty h) hsurvive.size,
        keptItem_guards hsurvive⟩
  | networkId => exact ⟨core, rfl, rfl, keptItem_number h⟩
  | referenceInputs =>
    obtain ⟨hne, hinputs⟩ := h
    obtain ⟨set, hmade, hkept⟩ := keptItem_set hinputs.count hinputs.survive
    exact ⟨set, hmade, written_of_size hne (size_fromCore hmade), hkept⟩
  | votingProcedures =>
    obtain ⟨votes, hmade, hkept⟩ := keptItem_codec h
    exact ⟨votes, hmade, rfl, hkept⟩
  | proposalProcedures =>
    obtain ⟨hne, hparts⟩ := h
    obtain ⟨set, hmade, hkept⟩ := keptItem_set hparts.count hparts.survive
    exact ⟨set, hmade, written_of_size hne (size_fromCore hmade), hkept⟩
  | currentTreasuryValue => exact ⟨core, rfl, rfl, keptItem_int h⟩
  | donation => exact ⟨core, rfl, rfl, keptItem_int h⟩
  | requiredTopLevelGuards => exact keptItem_requiredGuards h
  | directDeposits => exact ⟨JsMap.ofList core, rfl, size_ofList h, keptItem_deposits h⟩
  | accountBalanceIntervals => exact keptItem_intervals h

end Fields

end CardanoSdk.Serialization.BodyCodec
