import CardanoSdk.Serialization.StrictKeys
import CardanoSdk.Serialization.SubTransactionBody

/-!
The keys that a sub transaction body admits.
-/

namespace CardanoSdk.Serialization.BodyCodec

open Lib Cbor Plutus Cardano

variable {parts : BodyParts} {text : TextEncodings}

theorem nodup_written : Field.written.Nodup := by decide

theorem mem_written (field : Field) : field ∈ Field.written := by
  cases field <;> decide

theorem ofKey?_key (field : Field) : Field.ofKey? field.key = some field := by
  cases field <;> rfl

variable {field : Field} {entries : List KeyedEntry} {cbor : List UInt8}

theorem key_of_ofKey? {key : ℤ} (h : Field.ofKey? key = some field) : key = field.key := by
  unfold Field.ofKey? at h
  split at h <;> cases h <;> rfl

theorem keyOf_fields : KeyOf (@ReadBody.fields parts text) Field.key where
  range field := by cases field <;> decide
  known := ofKey?_key

theorem puts_fields : (@ReadBody.fields parts text).Puts where
  get_set_new body field value hnone := by
    cases field with
    | outputs =>
      change body.outputs = none at hnone
      change some (List.append (body.outputs.getD []) value) = some value
      rw [hnone]
      rfl
    | _ => rfl
  get_set_other body field value other hne := by
    cases field <;> cases other <;> first | rfl | exact absurd rfl hne

def Admits (field : Field) (bytes : List UInt8) : Prop :=
  field.key ∈ [24, 25, 26] → ¬ EmptyMap bytes

theorem admits_any (h : field.key ∉ [24, 25, 26]) (bytes : List UInt8) :
    Admits field bytes := fun hkey => absurd hkey h

section Reads

variable {α : Type}

theorem takes_data {action : DecodeM α} {makes : List UInt8 → α → Prop}
    (h : Takes action (OneItem makes)) (hitem : ∀ bytes value, makes bytes value → DataItem bytes) :
    Takes action (OneItem fun bytes _ => DataItem bytes) := by
  refine h.mono ?_
  rintro items bytes value ⟨hone, hmakes⟩
  exact ⟨hone, hitem _ _ hmakes⟩

theorem takes_converted {β : Type} {action : DecodeM β} {convert : β → DecodeM α}
    (h : Takes action (OneItem fun bytes _ => DataItem bytes))
    (hconvert : ∀ b reader value reader', convert b reader = .ok value reader' → reader' = reader) :
    Takes (action >>= convert) (OneItem fun bytes _ => DataItem bytes) := by
  have hmap := @Takes.map _ _ action convert _ (fun _ _ => True) h
    fun b reader value reader' hrun => ⟨hconvert b reader value reader' hrun, trivial⟩
  refine hmap.mono ?_
  rintro items bytes value ⟨b, hone, -⟩
  exact hone

theorem takes_partData (fromCbor : List UInt8 → Except DecodeException α) :
    Takes (readPart fromCbor) (OneItem fun bytes _ => DataItem bytes) :=
  takes_data (takes_part fromCbor) fun _ _ h => h.item

theorem takes_intData : Takes (reading readInt) (OneItem fun bytes _ => DataItem bytes) :=
  takes_data takes_int fun _ _ h => h.dataItem

theorem takes_bytesData : Takes (reading readByteString) (OneItem fun bytes _ => DataItem bytes) :=
  takes_data takes_byteString fun _ _ h => h.dataItem

theorem takes_number : Takes readNumber (OneItem fun bytes _ => DataItem bytes) :=
  takes_converted takes_intData fun _ _ _ _ hrun => by cases hrun; rfl

theorem takes_account : Takes (readAccount text) (OneItem fun bytes _ => DataItem bytes) :=
  takes_converted takes_bytesData fun _ _ _ _ hrun => (decoding_eq_ok hrun).2

theorem takes_mint : Takes readMint (OneItem fun bytes _ => DataItem bytes) := by
  have hassets (scriptHash : TxConstruction.Hash) (multiassets : MultiAsset) :
      Takes (readFields (readAsset (reading readInt) scriptHash) maxRounds multiassets)
        (OneItem fun bytes _ => DataItem bytes) := by
    refine takes_data (takes_fields (fun before => ?_) _ _) fun _ _ h => h.1
    have hquantity (assetName : AssetName) := @takes_converted _ _ (reading readInt)
      (fun quantity => pure (before.setQuantity scriptHash assetName quantity)) takes_intData
      fun _ _ _ _ hrun => by cases hrun; rfl
    exact Takes.ne_nil (Takes.bind takes_bytesData hquantity)
  have hpolicies : Takes (readMultiAsset (reading readInt) maxRounds)
      (OneItem fun bytes _ => DataItem bytes) := by
    refine takes_data (takes_fields (fun before => ?_) _ _) fun _ _ h => h.1
    exact Takes.ne_nil (Takes.bind takes_bytesData fun scriptHash => hassets scriptHash _)
  refine takes_converted hpolicies fun multiassets reader mint reader' hrun => ?_
  obtain ⟨joined, middle, hjoin, hsort⟩ := run_bind_eq_ok hrun
  rw [(decoding_eq_ok hsort).2, (decoding_eq_ok hjoin).2]

theorem takes_accounts : Takes (readAccounts text)
    (OneItem fun bytes map => DataItem bytes ∧ (EmptyMap bytes → map = JsMap.empty)) :=
  takes_map takes_account takes_intData _ _

theorem takes_credentials {readValue : DecodeM α}
    (h : Takes readValue (OneItem fun bytes _ => DataItem bytes)) : Takes (readCredentials readValue)
      (OneItem fun bytes entries => DataItem bytes ∧ (EmptyMap bytes → entries = [])) :=
  takes_map (takes_partData _) h _ _

theorem takes_nonEmptyMap {message : String} {size : α → ℕ} {read : DecodeM α} {empty : α}
    (hempty : size empty = 0)
    (h : Takes read (OneItem fun bytes map => DataItem bytes ∧ (EmptyMap bytes → map = empty))) :
    Takes (nonEmptyMap message size read)
      (OneItem fun bytes _ => DataItem bytes ∧ ¬ EmptyMap bytes) := by
  intro reader value reader' hplain hrun
  obtain ⟨map, middle, hread, hrun⟩ := run_bind_eq_ok hrun
  obtain ⟨items, bytes, htaken, hone, hitem, hsame⟩ := h _ _ _ hplain hread
  split at hrun
  · cases hrun
  · rename_i hsize
    cases hrun
    refine ⟨items, bytes, htaken, hone, hitem, fun hnone => hsize ?_⟩
    rw [hsame hnone, hempty]

end Reads

theorem takes_field (field : Field) : Takes (@Field.read parts text field)
    (OneItem fun bytes _ => DataItem bytes ∧ Admits field bytes) := by
  have hfree {field : Field} {action : DecodeM (field.Value parts)} (hkey : field.key ∉ [24, 25, 26])
      (h : Takes action (OneItem fun bytes _ => DataItem bytes)) :
      Takes action (OneItem fun bytes _ => DataItem bytes ∧ Admits field bytes) := by
    refine h.mono ?_
    rintro items bytes value ⟨hone, hitem⟩
    exact ⟨hone, hitem, admits_any hkey bytes⟩
  have hrequired {field : Field} {action : DecodeM (field.Value parts)}
      (h : Takes action (OneItem fun bytes _ => DataItem bytes ∧ ¬ EmptyMap bytes)) :
      Takes action (OneItem fun bytes _ => DataItem bytes ∧ Admits field bytes) := by
    refine h.mono ?_
    rintro items bytes value ⟨hone, hitem, hsome⟩
    exact ⟨hone, hitem, fun _ => hsome⟩
  cases field with
  | inputs => exact hfree (by decide) (takes_partData _)
  | outputs => exact hfree (by decide) (takes_data (takesItem_list _ _) fun _ _ h => h.1)
  | ttl => exact hfree (by decide) takes_number
  | certs => exact hfree (by decide) (takes_partData _)
  | withdrawals => exact hfree (by decide) (takes_data takes_accounts fun _ _ h => h.1)
  | auxiliaryDataHash => exact hfree (by decide) takes_bytesData
  | validityStartInterval => exact hfree (by decide) takes_number
  | mint => exact hfree (by decide) takes_mint
  | scriptDataHash => exact hfree (by decide) takes_bytesData
  | guards => exact hfree (by decide) (takes_partData _)
  | networkId => exact hfree (by decide) takes_number
  | referenceInputs => exact hfree (by decide) (takes_partData _)
  | votingProcedures => exact hfree (by decide) (takes_partData _)
  | proposalProcedures => exact hfree (by decide) (takes_partData _)
  | currentTreasuryValue => exact hfree (by decide) takes_intData
  | donation => exact hfree (by decide) takes_intData
  | requiredTopLevelGuards =>
    exact hrequired (takes_nonEmptyMap rfl (takes_credentials (takes_nullable (takes_partData _))))
  | directDeposits => exact hrequired (takes_nonEmptyMap rfl takes_accounts)
  | accountBalanceIntervals =>
    exact hrequired (takes_nonEmptyMap rfl (takes_credentials (takes_partData _)))

theorem entryRun_of_fromCbor {body : SubTransactionBody parts} (hmap : IsKeyedMap entries cbor)
    (h : SubTransactionBody.fromCbor text cbor = .ok body) :
    ∃ read : ReadBody parts, EntryRun (PutsEntry (ReadBody.fields text) Admits) {} entries read ∧
      read.inputs.isSome ∧ read.outputs.isSome := by
  obtain ⟨read, hread, hrequired⟩ := bind_ok h
  obtain ⟨-, reader, reader', hfresh, -, hrun⟩ := decodeWith_eq_ok hread
  have hbytes : reader.getRemainingBytes = cbor ++ [] := by rw [hfresh.bytes, List.append_nil]
  have htakes : TakesEntry (PutsEntry (@ReadBody.fields parts text) Admits)
      ((ReadBody.fields text).stepOr SubTransactionBody.unknownKey) :=
    takesEntry_stepOr takes_field fun _ _ _ _ _ hthrown => by cases hthrown
  refine ⟨read, entryRun_of_readFields htakes hmap hbytes hrun, ?_⟩
  split at hrequired
  · cases hrequired
  · cases hrequired
  · rename_i hinputs houtputs
    rw [hinputs, houtputs]
    exact ⟨rfl, rfl⟩

/-- A map that a sub transaction body must not be: with a key of another kind,
without one that is required, or with an empty map where entries are required. -/
def Refused (entries : List KeyedEntry) : Prop :=
  (∃ entry ∈ entries, entry.key ∉ Field.written.map Field.key) ∨
    0 ∉ entries.map KeyedEntry.key ∨ 1 ∉ entries.map KeyedEntry.key ∨
    ∃ entry ∈ entries, entry.key ∈ [24, 25, 26] ∧ EmptyMap entry.value

theorem refused_of_isKeyedMap (hmap : IsKeyedMap entries cbor) (hrefused : Refused entries) :
    ∀ body : SubTransactionBody parts, SubTransactionBody.fromCbor text cbor ≠ .ok body := by
  intro body h
  obtain ⟨read, hrun, hinputs, houtputs⟩ := entryRun_of_fromCbor hmap h
  have hall := hrun.forall (P := fun entry => ∃ field, Field.ofKey? entry.key = some field ∧
    Admits field entry.value) fun s entry s' hmoves => by
      obtain ⟨field, value, hfield, hadmits, -⟩ := hmoves
      exact ⟨field, hfield, hadmits⟩
  have habsent (field : Field) (hkey : field.key ∉ entries.map KeyedEntry.key) :
      read.get field = ({} : ReadBody parts).get field := by
    refine hrun.get_absent puts_fields fun entry hmem hfield => hkey ?_
    rw [← key_of_ofKey? hfield]
    exact List.mem_map_of_mem hmem
  rcases hrefused with ⟨entry, hmem, hunknown⟩ | hzero | hone | ⟨entry, hmem, hkey, hempty⟩
  · obtain ⟨field, hfield, -⟩ := hall entry hmem
    rw [key_of_ofKey? hfield] at hunknown
    exact hunknown (List.mem_map_of_mem (mem_written field))
  · have hnone : read.inputs = none := habsent .inputs hzero
    rw [hnone] at hinputs
    cases hinputs
  · have hnone : read.outputs = none := habsent .outputs hone
    rw [hnone] at houtputs
    cases houtputs
  · obtain ⟨field, hfield, hadmits⟩ := hall entry hmem
    rw [key_of_ofKey? hfield] at hkey
    exact hadmits hkey hempty

end CardanoSdk.Serialization.BodyCodec
