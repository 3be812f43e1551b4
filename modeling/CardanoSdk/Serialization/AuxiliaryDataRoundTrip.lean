import CardanoSdk.Serialization.CborSet
import CardanoSdk.Serialization.MapsInStep
import CardanoSdk.Serialization.MetadatumRoundTrip
import CardanoSdk.Serialization.NativeScriptRoundTrip

/-!
Core auxiliary data come back from their encoding in whichever of its three
formats, with their scripts grouped by language.
-/

namespace CardanoSdk.Serialization

open Lib Cbor Plutus Cardano
open TxConstruction (PlutusLanguageVersion)

section Parts

variable {Core Object : Type} {codec : Codec Core Object}

theorem PartsSurvive.rewritten {cores : List Core} {objects : List Object}
    {elements : List (List UInt8)} (h : PartsSurvive codec Eq cores objects elements)
    (hcount : cores.length < 2 ^ 32) :
    ∃ decoded, (elements.flatten.length < 2 ^ 53 →
        List.Forall₂ (fun object core => codec.toCore object = .ok core) decoded cores) ∧
      ∀ rounds, elements.length < rounds →
        Rewritten (writeParts codec.toCbor) (readList codec.fromCbor rounds) (some objects)
          (some (encodeHead .array elements.length ++ elements.flatten)) (some decoded) := by
  have hlengths : elements.length = cores.length := by
    rw [← h.written.length_eq, ← h.made.length_eq]
  have hobjects : objects.length = elements.length := h.written.length_eq
  have hhead := head_encodeHead .array (show elements.length < 2 ^ 64 by omega)
  obtain ⟨decoded, hdecoded⟩ := exists_of_fits (P := fun decoded =>
    List.Forall₂ (DecodesPart codec.fromCbor) elements decoded ∧
    List.Forall₂ (codec.Restores Eq) decoded cores) objects h.read
  refine ⟨decoded, fun hlength => (hdecoded hlength).2.imp fun object core hcore => ?_,
    fun rounds hrounds => ?_⟩
  · obtain ⟨core', hcore', rfl⟩ := hcore
    exact hcore'
  refine Rewritten.some ?_ (DataItem.array hhead (items_of_wellFormed h.items)) ?_
  · unfold writeParts
    rw [hobjects]
    exact Encodes.write (writes_startArray (by omega)) (encodes_parts h.written)
  · intro hlength
    rw [List.length_append] at hlength
    exact readsItem_list (hdecoded (by omega)).1 (Framed.definite hhead) hrounds

end Parts

namespace AuxiliaryData

def Field.key : Field → ℤ
  | .metadata => 0
  | .nativeScripts => 1
  | .plutusScripts .v1 => 2
  | .plutusScripts .v2 => 3
  | .plutusScripts .v3 => 4
  | .plutusScripts .v4 => 5

theorem Field.key_bounds (field : Field) : -(2 ^ 64) ≤ field.key ∧ field.key < 2 ^ 64 := by
  match field with
  | .metadata => decide
  | .nativeScripts => decide
  | .plutusScripts version => cases version <;> decide

theorem Field.ofKey?_key (field : Field) : Field.ofKey? field.key = some field := by
  match field with
  | .metadata => rfl
  | .nativeScripts => rfl
  | .plutusScripts version => cases version <;> rfl

def allFields : List Field :=
  [.metadata, .nativeScripts, .plutusScripts .v1, .plutusScripts .v2, .plutusScripts .v3,
    .plutusScripts .v4]

theorem mem_allFields (field : Field) : field ∈ allFields := by
  match field with
  | .metadata => simp [allFields]
  | .nativeScripts => simp [allFields]
  | .plutusScripts version => cases version <;> simp [allFields]

def getSome (data : AuxiliaryData) : (field : Field) → Option field.Value
  | .metadata => data.someMetadata
  | .nativeScripts => someScripts data.nativeScripts
  | .plutusScripts version => someScripts (data.plutusScripts version)

def writeValue : (field : Field) → field.Value → EncodeM Unit
  | .metadata => writeMetadata
  | .nativeScripts => writeNativeScripts
  | .plutusScripts _ => writePlutusScripts

theorem writeFields_eq (data : AuxiliaryData) : data.writeFields =
    allFields.forM fun field => writeField field.key (data.getSome field) (writeValue field) := by
  simp [writeFields, allFields, List.forM_cons, Field.key, getSome, writeValue]
  rfl

theorem getMapSize_eq (data : AuxiliaryData) :
    data.getMapSize = (allFields.map fun field => fieldCount (data.getSome field)).sum := by
  change data.getMapSize = fieldCount data.someMetadata +
    (fieldCount (someScripts data.nativeScripts) +
      (fieldCount (someScripts (data.plutusScripts .v1)) +
        (fieldCount (someScripts (data.plutusScripts .v2)) +
          (fieldCount (someScripts (data.plutusScripts .v3)) +
            (fieldCount (someScripts (data.plutusScripts .v4)) + 0)))))
  unfold getMapSize
  omega

def FieldsSurvive (data : AuxiliaryData) (encoded : Field → Option (List UInt8))
    (values : (field : Field) → Option field.Value) : Prop :=
  ∀ field rounds, (∀ bytes, encoded field = some bytes → bytes.length < rounds) →
    Rewritten (writeValue field) (readField rounds field) (data.getSome field) (encoded field)
      (values field)

def fieldsBytes (encoded : Field → Option (List UInt8)) (fields : List Field) : List UInt8 :=
  fields.flatMap fun field => fieldBytes field.key (encoded field)

def setFields (values : (field : Field) → Option field.Value) (fields : List Field)
    (s : AuxiliaryData) : AuxiliaryData :=
  fields.foldl (fun s field => (values field).elim s (s.setField field)) s

theorem fieldCount_eq_zero {α : Type} {value : Option α} (h : fieldCount value = 0) : value = none := by
  cases value with
  | none => rfl
  | some value => cases h

section Fields

variable {data : AuxiliaryData} {encoded : Field → Option (List UInt8)}
  {values : (field : Field) → Option field.Value}

theorem FieldsSurvive.field (h : FieldsSurvive data encoded values) (field : Field) :
    ∃ rounds, Rewritten (writeValue field) (readField rounds field) (data.getSome field)
      (encoded field) (values field) := by
  refine ⟨((encoded field).getD []).length + 1, h field _ fun bytes hbytes => ?_⟩
  rw [hbytes]
  exact Nat.lt_succ_self _

theorem FieldsSurvive.encodes (h : FieldsSurvive data encoded values) (fields : List Field) :
    Encodes (fields.forM fun field => writeField field.key (data.getSome field) (writeValue field))
      (fieldsBytes encoded fields) := by
  apply Encodes.forM
  intro field _
  obtain ⟨rounds, hfield⟩ := h.field field
  exact hfield.encodes field.key field.key_bounds

theorem FieldsSurvive.items (h : FieldsSurvive data encoded values) (fields : List Field) :
    Items (2 * (fields.map fun field => fieldCount (data.getSome field)).sum)
      (fieldsBytes encoded fields) := by
  induction fields with
  | nil => exact Items.nil
  | cons field fields ih =>
    obtain ⟨rounds, hfield⟩ := h.field field
    rw [List.map_cons, List.sum_cons, Nat.mul_add]
    exact (hfield.items field.key field.key_bounds).append ih

theorem FieldsSurvive.rounds (h : FieldsSurvive data encoded values) (fields : List Field)
    {rounds : ℕ} (hrounds : (fieldsBytes encoded fields).length < rounds)
    (hlength : (fieldsBytes encoded fields).length < 2 ^ 53) (s : AuxiliaryData) :
    Rounds (AuxiliaryData.fields rounds).step s
      (2 * (fields.map fun field => fieldCount (data.getSome field)).sum)
      (fieldsBytes encoded fields) (setFields values fields s) := by
  induction fields generalizing s with
  | nil => exact Rounds.nil s
  | cons field fields ih =>
    rw [fieldsBytes, List.flatMap_cons, List.length_append] at hrounds hlength
    change _ + (fieldsBytes encoded fields).length < _ at hrounds
    change _ + (fieldsBytes encoded fields).length < _ at hlength
    have hfield := h field rounds (by
      intro bytes hbytes
      rw [hbytes, fieldBytes, List.length_append] at hrounds
      omega)
    have hkey : (AuxiliaryData.fields rounds).ofKey? field.key = some field := field.ofKey?_key
    have hround : Rounds (AuxiliaryData.fields rounds).step s
        (2 * fieldCount (data.getSome field)) (fieldBytes field.key (encoded field))
        ((values field).elim s (s.setField field)) := by
      refine hfield.rounds field.key field.key_bounds rfl ?_ rfl (by omega)
      rw [hkey]
      rfl
    rw [List.map_cons, List.sum_cons, Nat.mul_add]
    exact hround.trans (ih (by omega) (by omega) _)

theorem getField_setFields (fields : List Field) (hnodup : fields.Nodup) (s : AuxiliaryData)
    (field : Field) :
    (setFields values fields s).getField field =
      if field ∈ fields then (values field).or (s.getField field) else s.getField field := by
  have hlawful := lawful_fields 0
  induction fields generalizing s with
  | nil => rfl
  | cons first fields ih =>
    rw [List.nodup_cons] at hnodup
    change (setFields values fields ((values first).elim s (s.setField first))).getField field = _
    rw [ih hnodup.2]
    by_cases hsame : field = first
    · subst hsame
      rw [if_neg hnodup.1, if_pos List.mem_cons_self]
      cases values field with
      | none => rfl
      | some value => exact hlawful.get_set_self s field value
    · have hother : ((values first).elim s (s.setField first)).getField field = s.getField field := by
        cases values first with
        | none => rfl
        | some value => exact hlawful.get_set_other s first value field hsame
      rw [hother]
      simp only [List.mem_cons, hsame, false_or]

theorem FieldsSurvive.absent (h : FieldsSurvive data encoded values) {field : Field}
    (hnone : fieldCount (data.getSome field) = 0) : encoded field = none ∧ values field = none := by
  obtain ⟨rounds, hfield⟩ := h.field field
  rw [fieldCount_eq_zero hnone] at hfield
  generalize encoded field = bytes at hfield
  generalize values field = value at hfield
  cases hfield with
  | none => exact ⟨rfl, rfl⟩

theorem length_le_fieldsBytes {field : Field} {fields : List Field} {bytes : List UInt8}
    (hmem : field ∈ fields) (hbytes : encoded field = some bytes) :
    bytes.length ≤ (fieldsBytes encoded fields).length := by
  have hle := (List.sublist_flatten_of_mem (List.mem_map_of_mem (f := fun field =>
    fieldBytes field.key (encoded field)) hmem)).length_le
  rw [hbytes, fieldBytes, List.length_append] at hle
  unfold fieldsBytes List.flatMap
  omega

def Decodes (values : (field : Field) → Option field.Value) (cbor : List UInt8) : Prop :=
  ∃ decoded, fromCbor cbor = .ok decoded ∧ ∀ field, decoded.getField field = values field

variable {metadata : GeneralTransactionMetadata} {cbor : List UInt8}

theorem decodes_metadata (hvalue : values .metadata = some metadata)
    (habsent : ∀ field, field ≠ .metadata → values field = none) (hbegins : Begins cbor .startMap)
    (hlength : cbor.length < 2 ^ 53) (hread : ReadsItem readMetadata cbor metadata) :
    Decodes values cbor := by
  refine ⟨{ metadata := some metadata, originalBytes := some cbor }, ?_, ?_⟩
  · apply decodeWith_peek hbegins hlength
    intro reader hbytes haccepts
    have hformat : readFormat (cbor.length + 1) .startMap reader =
        .ok { metadata := some metadata } (reader.pass 1 cbor.length) :=
      run_bind_ok (hread reader [] hbytes haccepts)
    exact Succeeds.bind hformat Succeeds.pure
  · intro field
    match field with
    | .metadata => exact hvalue.symm
    | .nativeScripts => exact (habsent .nativeScripts (by simp)).symm
    | .plutusScripts version => exact (habsent (.plutusScripts version) (by simp)).symm

variable {nativeScripts : List NativeScript}

theorem decodes_shelley {metadataBytes scriptsBytes : List UInt8}
    (hcbor : cbor = encodeHead .array shelleyEraFieldsCount ++ (metadataBytes ++ scriptsBytes))
    (hmetadata : values .metadata = some metadata)
    (hscripts : values .nativeScripts = some nativeScripts)
    (habsent : ∀ version, values (.plutusScripts version) = none) (hlength : cbor.length < 2 ^ 53)
    (hreadMetadata : ReadsItem readMetadata metadataBytes metadata)
    (hreadScripts : ReadsItem (readList NativeScript.fromCbor (cbor.length + 1)) scriptsBytes
      nativeScripts) : Decodes values cbor := by
  refine ⟨⟨some metadata, some nativeScripts, fun _ => none, some cbor⟩, ?_, ?_⟩
  · have hbegins : Begins cbor .startArray := by
      rw [hcbor]
      exact @begins_encodeHead .array (by decide) _ (by decide) _
    apply decodeWith_peek hbegins hlength
    intro reader hbytes haccepts
    have hcontent : Reads (readMetadata >>= fun metadata =>
        readList NativeScript.fromCbor (cbor.length + 1) >>= fun nativeScripts =>
        (pure { metadata := some metadata, nativeScripts := some nativeScripts } :
          DecodeM AuxiliaryData)) (1 + 1) (metadataBytes ++ scriptsBytes)
        { metadata := some metadata, nativeScripts := some nativeScripts } :=
      hreadMetadata.bind (hreadScripts.last fun _ => rfl)
    have hformat : Succeeds (readShelleyArray (cbor.length + 1)) reader
        { metadata := some metadata, nativeScripts := some nativeScripts } := by
      rw [hcbor] at hbytes
      exact succeeds_array (by decide) hbytes haccepts hcontent
    obtain ⟨reader', hrun⟩ := hformat
    exact Succeeds.bind hrun Succeeds.pure
  · intro field
    match field with
    | .metadata => exact hmetadata.symm
    | .nativeScripts => exact hscripts.symm
    | .plutusScripts version => exact (habsent version).symm

theorem FieldsSurvive.decodes_tagged (h : FieldsSurvive data encoded values)
    (hcbor : cbor = encodeHead .tag alonzoAuxTag ++
      (encodeHead .map data.getMapSize ++ fieldsBytes encoded allFields))
    (hlength : cbor.length < 2 ^ 53) : Decodes values cbor := by
  have hshort : (fieldsBytes encoded allFields).length < cbor.length + 1 := by
    rw [hcbor, List.length_append, List.length_append]
    omega
  have hrounds := h.rounds allFields hshort (by omega) {}
  have hcount := (h.items allFields).le_length
  rw [← getMapSize_eq] at hrounds hcount
  have hmap : ReadsItem (readFields (fields (cbor.length + 1)).step (cbor.length + 1) {})
      (encodeHead .map data.getMapSize ++ fieldsBytes encoded allFields) _ :=
    readsItem_fields hrounds hcount hshort
  refine ⟨{ setFields values allFields {} with originalBytes := some cbor }, ?_, ?_⟩
  · have hbegins : Begins cbor .tag := by
      rw [hcbor]
      exact @begins_encodeHead .tag (by decide) _ (by decide) _
    have htagged : ReadsItem (readTagged (cbor.length + 1)) cbor (setFields values allFields {}) := by
      have htag := @readsItem_tag _ (fun tag => if tag ≠ alonzoAuxTag then
          throw (invalidCbor ("Expected tag '" ++ numberText alonzoAuxTag ++ "', but got " ++
            numberText tag ++ "."))
        else readFields (fields (cbor.length + 1)).step (cbor.length + 1) {}) alonzoAuxTag _ _
        (by decide) (by rw [if_neg (by simp)]; exact hmap)
      rw [← hcbor] at htag
      exact htag
    apply decodeWith_peek hbegins hlength
    intro reader hbytes haccepts
    exact Succeeds.bind (htagged reader [] hbytes haccepts) Succeeds.pure
  · intro field
    have hget := @getField_setFields values allFields (by decide) {} field
    rw [if_pos (mem_allFields field)] at hget
    have hempty : getField {} field = none := by
      cases field <;> rfl
    rw [hempty, Option.or_none] at hget
    rw [← hget]
    cases field <;> rfl

/-- A format of the fields: one data item, which holds them and from which they come back. -/
structure Formatted (encoded : Field → Option (List UInt8))
    (values : (field : Field) → Option field.Value) (write : EncodeM Unit) (cbor : List UInt8) :
    Prop where
  encodes : Encodes write cbor
  item : DataItem cbor
  holds : ∀ field bytes, encoded field = some bytes → bytes.length ≤ cbor.length
  decodes : cbor.length < 2 ^ 53 → Decodes values cbor

theorem FieldsSurvive.formats_metadata (h : FieldsSurvive data encoded values)
    (hbegins : ∀ bytes, encoded .metadata = some bytes → Begins bytes .startMap)
    (hmetadata : data.someMetadata = some metadata) (hone : data.getMapSize = 1) :
    ∃ cbor, Formatted encoded values (writeMetadata metadata) cbor := by
  have hsome : fieldCount data.someMetadata = 1 := by
    rw [hmetadata]
    rfl
  have hothers : ∀ field, field ≠ .metadata → encoded field = none ∧ values field = none := by
    intro field hne
    apply h.absent
    unfold getMapSize at hone
    match field with
    | .metadata => exact absurd rfl hne
    | .nativeScripts =>
      change fieldCount (someScripts data.nativeScripts) = 0
      omega
    | .plutusScripts version =>
      change fieldCount (someScripts (data.plutusScripts version)) = 0
      cases version <;> omega
  obtain ⟨rounds, hfield⟩ := h.field .metadata
  change Rewritten _ _ data.someMetadata _ _ at hfield
  rw [hmetadata] at hfield
  obtain ⟨bytes, value, hencoded, hvalue, hwrites, hitem, hreads⟩ := hfield.exists_some
  refine ⟨bytes, hwrites, hitem, ?_, ?_⟩
  · intro field bytes' hbytes'
    by_cases hfield : field = .metadata
    · subst hfield
      rw [hencoded] at hbytes'
      cases hbytes'
      exact le_rfl
    · rw [(hothers field hfield).1] at hbytes'
      cases hbytes'
  · intro hlength
    exact decodes_metadata hvalue (fun field hne => (hothers field hne).2) (hbegins bytes hencoded)
      hlength (hreads hlength)

theorem FieldsSurvive.formats_shelley (h : FieldsSurvive data encoded values)
    (hmetadata : data.someMetadata = some metadata)
    (hscripts : someScripts data.nativeScripts = some nativeScripts) (htwo : data.getMapSize = 2) :
    ∃ cbor, Formatted encoded values (do
        writing (writeStartArray (some shelleyEraFieldsCount))
        writeMetadata metadata
        writeNativeScripts nativeScripts) cbor := by
  have hsome : fieldCount data.someMetadata = 1 := by
    rw [hmetadata]
    rfl
  have hsome' : fieldCount (someScripts data.nativeScripts) = 1 := by
    rw [hscripts]
    rfl
  have habsent : ∀ version,
      encoded (.plutusScripts version) = none ∧ values (.plutusScripts version) = none := by
    intro version
    apply h.absent
    change fieldCount (someScripts (data.plutusScripts version)) = 0
    unfold getMapSize at htwo
    cases version <;> omega
  obtain ⟨rounds, hfield⟩ := h.field .metadata
  change Rewritten _ _ data.someMetadata _ _ at hfield
  rw [hmetadata] at hfield
  obtain ⟨metadataBytes, metadata', hmetadataBytes, hvalue, hwrites, hitem, hreads⟩ :=
    hfield.exists_some
  have hnative := h .nativeScripts
  change ∀ rounds, _ → Rewritten _ _ (someScripts data.nativeScripts) _ _ at hnative
  rw [hscripts] at hnative
  obtain ⟨rounds', hfield'⟩ := h.field .nativeScripts
  change Rewritten _ _ (someScripts data.nativeScripts) _ _ at hfield'
  rw [hscripts] at hfield'
  obtain ⟨scriptsBytes, scripts', hencoded, hvalue', hwrites', hitem', _⟩ := hfield'.exists_some
  have hcbor : (encodeHead .array shelleyEraFieldsCount ++ (metadataBytes ++ scriptsBytes)).length =
      (encodeHead .array shelleyEraFieldsCount).length +
        (metadataBytes.length + scriptsBytes.length) := by
    rw [List.length_append, List.length_append]
  refine ⟨encodeHead .array shelleyEraFieldsCount ++ (metadataBytes ++ scriptsBytes), ?_, ?_, ?_, ?_⟩
  · apply Encodes.write (writes_startArray (by decide))
    exact hwrites.bind hwrites'
  · have hitems := Items.cons hitem (items_one hitem')
    exact DataItem.array (head_encodeHead .array (by decide)) hitems
  · intro field bytes hbytes
    match field with
    | .metadata =>
      rw [hmetadataBytes] at hbytes
      cases hbytes
      omega
    | .nativeScripts =>
      rw [hencoded] at hbytes
      cases hbytes
      omega
    | .plutusScripts version =>
      rw [(habsent version).1] at hbytes
      cases hbytes
  · intro hlength
    have hread := hnative ((encodeHead .array shelleyEraFieldsCount ++
      (metadataBytes ++ scriptsBytes)).length + 1) (by
        intro bytes hbytes
        rw [hencoded] at hbytes
        cases hbytes
        omega)
    obtain ⟨bytes, scripts, hsame, hsame', _, _, hreads'⟩ := hread.exists_some
    rw [hencoded] at hsame
    cases hsame
    exact decodes_shelley rfl hvalue hsame' (fun version => (habsent version).2) hlength
      (hreads (by omega)) (hreads' (by omega))

theorem getMapSize_le (data : AuxiliaryData) : data.getMapSize ≤ 6 := by
  have hone {α : Type} (value : Option α) : fieldCount value ≤ 1 := by
    cases value <;> simp [fieldCount]
  have h₀ := hone data.someMetadata
  have h₁ := hone (someScripts data.nativeScripts)
  have h₂ := hone (someScripts (data.plutusScripts .v1))
  have h₃ := hone (someScripts (data.plutusScripts .v2))
  have h₄ := hone (someScripts (data.plutusScripts .v3))
  have h₅ := hone (someScripts (data.plutusScripts .v4))
  unfold getMapSize
  omega

theorem FieldsSurvive.format (h : FieldsSurvive data encoded values)
    (hbegins : ∀ bytes, encoded .metadata = some bytes → Begins bytes .startMap) :
    ∃ cbor, Formatted encoded values data.encode cbor := by
  unfold AuxiliaryData.encode
  split
  · rename_i metadata scripts size hmetadata hone
    exact h.formats_metadata hbegins hmetadata hone
  · rename_i metadata nativeScripts size hmetadata hscripts htwo
    exact h.formats_shelley hmetadata hscripts htwo
  · have hitems := h.items allFields
    rw [← data.getMapSize_eq] at hitems
    have hcount := data.getMapSize_le
    have hmap := DataItem.map (head_encodeHead .map (show data.getMapSize < 2 ^ 64 by omega)) hitems
    refine ⟨_, ?_, dataItem_encodeTag (show alonzoAuxTag < 2 ^ 64 by decide) hmap, ?_,
      h.decodes_tagged rfl⟩
    · apply Encodes.write (writes_typeValue .tag (by decide))
      apply Encodes.write (writes_startMap (by omega))
      rw [writeFields_eq]
      exact h.encodes allFields
    · intro field bytes hbytes
      have hle := length_le_fieldsBytes (mem_allFields field) hbytes
      rw [List.length_append, List.length_append]
      omega

end Fields

end AuxiliaryData

def nativeScriptCodec : Codec Cardano.NativeScript NativeScript where
  fromCore script := .ok (NativeScript.fromCore script)
  toCbor := NativeScript.toCbor
  fromCbor := NativeScript.fromCbor
  toCore script := .ok script.toCore

variable {script : Cardano.NativeScript}

theorem nativeScript_roundTrips (hvalid : script.Valid) :
    nativeScriptCodec.RoundTrips Eq script := by
  obtain ⟨cbor, hcbor⟩ := exists_scriptItem hvalid
  refine ⟨_, cbor, rfl, hcbor.encoded, hcbor.item.dataItem, fun hlength => ?_⟩
  obtain ⟨decoded, hdecoded⟩ := hcbor.item.decodes hvalid hlength le_rfl
  exact ⟨decoded, script, hdecoded.within, congrArg Except.ok hdecoded.core, rfl⟩

def nativeOf : Script → Option Cardano.NativeScript
  | .native script => some script
  | .plutus _ => none

def plutusOf (version : PlutusLanguageVersion) : Script → Option PlutusScript
  | .native _ => none
  | .plutus script => if script.version = version then some script else none

def newPlutusScript (version : PlutusLanguageVersion) (script : PlutusScript) :
    PlutusVersionScript version :=
  ⟨script.bytes, none⟩

theorem plutusScript_made {version : PlutusLanguageVersion} (script : PlutusScript)
    (object : PlutusVersionScript version)
    (h : (plutusScriptCodec version).fromCore script = .ok object) :
    object = newPlutusScript version script := by
  change (PlutusVersionScript.fromCore version script).mapError DecodeException.error = _ at h
  unfold PlutusVersionScript.fromCore at h
  split at h
  · cases h
  · cases h
    rfl

section Scripts

variable {Core Object : Type} {codec : Codec Core Object}

/-- The scripts of a language, as they are written and as they are read. No
array is written for none of them. -/
structure ScriptsSurvive (codec : Codec Core Object) (cores : List Core) (objects : List Object)
    (encoded : Option (List UInt8)) (value : Option (List Object)) : Prop where
  made : List.Forall₂ (fun core object => codec.fromCore core = .ok object) cores objects
  rewritten : ∀ rounds, (∀ bytes, encoded = some bytes → bytes.length < rounds) →
    Rewritten (writeParts codec.toCbor) (readList codec.fromCbor rounds)
      (AuxiliaryData.someScripts (some objects)) encoded value
  read : (∀ bytes, encoded = some bytes → bytes.length < 2 ^ 53) →
    List.Forall₂ (fun object core => codec.toCore object = .ok core) (value.getD []) cores

theorem scripts_survive {cores : List Core} (h : ∀ core ∈ cores, codec.RoundTrips Eq core)
    (hcount : cores.length < 2 ^ 32) :
    ∃ objects encoded value, ScriptsSurvive codec cores objects encoded value := by
  obtain ⟨objects, elements, hparts⟩ := parts_survive h
  obtain ⟨decoded, hread, hrewritten⟩ := hparts.rewritten hcount
  have hlength := hparts.made.length_eq
  cases objects with
  | nil =>
    have hnone : cores = [] := List.eq_nil_of_length_eq_zero hlength
    subst hnone
    exact ⟨[], none, none, List.Forall₂.nil, fun _ _ => Rewritten.none, fun _ => List.Forall₂.nil⟩
  | cons object objects =>
    refine ⟨object :: objects, some (encodeHead .array elements.length ++ elements.flatten),
      some decoded, hparts.made, fun rounds hrounds => ?_, ?_⟩
    · have hshort := hrounds _ rfl
      have helements := length_le_flatten hparts.items
      rw [List.length_append] at hshort
      exact hrewritten rounds (by omega)
    · intro hfits
      have hshort := hfits _ rfl
      rw [List.length_append] at hshort
      exact hread (by omega)

variable {cores : List Core} {objects : List Object} {encoded : Option (List UInt8)}
  {value : Option (List Object)}

theorem ScriptsSurvive.objects_eq (h : ScriptsSurvive codec cores objects encoded value)
    {convert : Core → Object}
    (hconvert : ∀ core object, codec.fromCore core = .ok object → object = convert core) :
    objects = cores.map convert := by
  have hmade := h.made.imp fun core object => hconvert core object
  clear h
  induction hmade with
  | nil => rfl
  | cons hobject _ ih => rw [List.map_cons, hobject, ih]

theorem ScriptsSurvive.cores_eq (h : ScriptsSurvive codec cores objects encoded value)
    {convert : Object → Core} (hconvert : ∀ object, codec.toCore object = .ok (convert object))
    (hfits : ∀ bytes, encoded = some bytes → bytes.length < 2 ^ 53) :
    (value.getD []).map convert = cores := by
  have hread := h.read hfits
  generalize value.getD [] = decoded at hread
  clear h
  induction hread with
  | nil => rfl
  | cons hcore _ ih =>
    rw [hconvert] at hcore
    rw [List.map_cons, Except.ok.inj hcore, ih]

end Scripts

namespace AuxiliaryData

theorem someScripts_getD {α : Type} (scripts : Option (List α)) :
    someScripts scripts = someScripts (some (scripts.getD [])) := by
  cases scripts with
  | none => rfl
  | some scripts => rfl

/-- What `getCddlScripts` adds to the lists of the object. -/
structure AddsScripts (scripts : List Script) (data data' : AuxiliaryData) : Prop where
  metadata : data'.metadata = data.metadata
  originalBytes : data'.originalBytes = data.originalBytes
  native : data'.nativeScripts.getD [] =
    data.nativeScripts.getD [] ++ (scripts.filterMap nativeOf).map NativeScript.fromCore
  plutus : ∀ version, (data'.plutusScripts version).getD [] = (data.plutusScripts version).getD [] ++
    (scripts.filterMap (plutusOf version)).map (newPlutusScript version)

theorem addCddlScript_ok (data : AuxiliaryData) (script : Script) :
    ∃ data', data.addCddlScript script = .ok data' ∧ AddsScripts [script] data data' := by
  cases script with
  | native script =>
    refine ⟨_, rfl, rfl, rfl, rfl, fun version => ?_⟩
    exact (List.append_nil _).symm
  | plutus script =>
    have hmade : (PlutusVersionScript.fromCore script.version script).mapError
        DecodeException.error = .ok (newPlutusScript script.version script) := by
      unfold PlutusVersionScript.fromCore
      rw [if_neg (by simp)]
      rfl
    have hadded : data.addCddlScript (.plutus script) = .ok { data with
        plutusScripts := Function.update data.plutusScripts script.version
          (addScript (data.plutusScripts script.version) (newPlutusScript script.version script)) } := by
      change (Except.mapError _ _ >>= _) = _
      rw [hmade]
      rfl
    refine ⟨_, hadded, rfl, rfl, (List.append_nil _).symm, fun version => ?_⟩
    by_cases hversion : version = script.version
    · subst hversion
      simp [addScript, plutusOf]
    · have hother : ¬ script.version = version := fun h => hversion h.symm
      simp [hversion, hother, plutusOf]

theorem addCddlScripts_ok (scripts : List Script) (data : AuxiliaryData) :
    ∃ data', scripts.foldlM addCddlScript data = .ok data' ∧ AddsScripts scripts data data' := by
  induction scripts generalizing data with
  | nil =>
    exact ⟨data, rfl, rfl, rfl, (List.append_nil _).symm, fun _ => (List.append_nil _).symm⟩
  | cons script scripts ih =>
    obtain ⟨middle, hmiddle, hadds⟩ := addCddlScript_ok data script
    obtain ⟨data', hrest, hadds'⟩ := ih middle
    refine ⟨data', ?_, hadds'.metadata.trans hadds.metadata,
      hadds'.originalBytes.trans hadds.originalBytes, ?_, fun version => ?_⟩
    · rw [List.foldlM_cons, hmiddle]
      exact hrest
    · rw [hadds'.native, hadds.native, List.append_assoc, ← List.map_append, ← List.filterMap_append]
      rfl
    · rw [hadds'.plutus, hadds.plutus, List.append_assoc, ← List.map_append,
        ← List.filterMap_append]
      rfl

end AuxiliaryData

def auxiliaryDataCodec : Codec Cardano.AuxiliaryData AuxiliaryData where
  fromCore := AuxiliaryData.fromCore
  toCbor := AuxiliaryData.toCbor
  fromCbor := AuxiliaryData.fromCbor
  toCore := AuxiliaryData.toCore

def scriptLanguage : Script → Option PlutusLanguageVersion
  | .native _ => none
  | .plutus script => some script.version

/-- Scripts grouped by their languages, in the order in which `toCore` lists these. -/
def byLanguage (scripts : List Script) : List Script :=
  [some .v1, some .v2, some .v3, some .v4, none].flatMap fun language =>
    scripts.filter fun script => scriptLanguage script = language

/-- The same metadata, and the same scripts grouped by their languages. -/
structure GroupedByLanguage (grouped data : Cardano.AuxiliaryData) : Prop where
  blob : grouped.blob = data.blob
  scripts : grouped.scripts.getD [] = byLanguage (data.scripts.getD [])

def ScriptRoundTrips : Script → Prop
  | .native script => nativeScriptCodec.RoundTrips Eq script
  | .plutus script => (plutusScriptCodec script.version).RoundTrips Eq script

theorem native_roundTrips {scripts : List Script}
    (h : ∀ script ∈ scripts, ScriptRoundTrips script) (hmem : script ∈ scripts.filterMap nativeOf) :
    nativeScriptCodec.RoundTrips Eq script := by
  obtain ⟨script', hmem', hsome⟩ := List.mem_filterMap.mp hmem
  have hscript := h script' hmem'
  cases script' with
  | native script' =>
    cases hsome
    exact hscript
  | plutus script' => cases hsome

theorem plutus_roundTrips {scripts : List Script} {version : PlutusLanguageVersion}
    {script : PlutusScript} (h : ∀ script ∈ scripts, ScriptRoundTrips script)
    (hmem : script ∈ scripts.filterMap (plutusOf version)) :
    (plutusScriptCodec version).RoundTrips Eq script := by
  obtain ⟨script', hmem', hsome⟩ := List.mem_filterMap.mp hmem
  have hscript := h script' hmem'
  cases script' with
  | native script' => cases hsome
  | plutus script' =>
    by_cases hversion : script'.version = version
    · have hplutus : plutusOf version (.plutus script') = some script' := if_pos hversion
      cases hplutus.symm.trans hsome
      subst hversion
      exact hscript
    · have hplutus : plutusOf version (.plutus script') = none := if_neg hversion
      cases hplutus.symm.trans hsome

structure ValidAuxiliaryData (data : Cardano.AuxiliaryData) : Prop where
  blob : ∀ blob, data.blob = some blob → blob ≠ [] ∧ ValidTxMetadata blob
  count : (data.scripts.getD []).length < 2 ^ 32
  scripts : ∀ script ∈ data.scripts.getD [], ScriptRoundTrips script

theorem filter_native (scripts : List Script) :
    scripts.filter (fun script => scriptLanguage script = none) =
      (scripts.filterMap nativeOf).map Script.native := by
  induction scripts with
  | nil => rfl
  | cons script scripts ih =>
    rw [List.filter_cons, List.filterMap_cons]
    cases script with
    | native script => exact congrArg (Script.native script :: ·) ih
    | plutus script => exact ih

theorem filter_plutus (version : PlutusLanguageVersion) (scripts : List Script) :
    scripts.filter (fun script => scriptLanguage script = some version) =
      (scripts.filterMap (plutusOf version)).map Script.plutus := by
  induction scripts with
  | nil => rfl
  | cons script scripts ih =>
    rw [List.filter_cons, List.filterMap_cons]
    cases script with
    | native script => exact ih
    | plutus script =>
      by_cases hversion : script.version = version
      · have hlanguage : scriptLanguage (.plutus script) = some version := congrArg some hversion
        have hplutus : plutusOf version (.plutus script) = some script := if_pos hversion
        rw [if_pos (decide_eq_true hlanguage), hplutus, ih]
        rfl
      · have hlanguage : scriptLanguage (.plutus script) ≠ some version := fun h =>
          hversion (Option.some.inj h)
        have hplutus : plutusOf version (.plutus script) = none := if_neg hversion
        rw [if_neg (by simp [hlanguage]), hplutus, ih]

theorem byLanguage_perm (scripts : List Script) : (byLanguage scripts).Perm scripts := by
  induction scripts with
  | nil => rfl
  | cons script scripts ih =>
    have hcons : (byLanguage (script :: scripts)).Perm (script :: byLanguage scripts) := by
      unfold byLanguage
      match hlanguage : scriptLanguage script with
      | some .v1 => simp [hlanguage]
      | some .v2 => simp [hlanguage]
      | some .v3 =>
        simp only [hlanguage, List.filter_cons, List.flatMap_cons]
        exact (List.perm_middle.append_left _).trans List.perm_middle
      | some .v4 =>
        simp only [hlanguage, List.filter_cons, List.flatMap_cons]
        exact ((List.perm_middle.append_left _).append_left _).trans
          ((List.perm_middle.append_left _).trans List.perm_middle)
      | none =>
        simp only [hlanguage, List.filter_cons, List.flatMap_cons]
        exact (((List.perm_middle.append_left _).append_left _).append_left _).trans
          (((List.perm_middle.append_left _).append_left _).trans
            ((List.perm_middle.append_left _).trans List.perm_middle))
    exact hcons.trans (ih.cons script)

theorem blob_survives {blob : Option TxMetadata}
    (hvalid : ∀ blob', blob = some blob' → blob' ≠ [] ∧ ValidTxMetadata blob') :
    ∃ metadata encoded value,
      (blob.mapM fun blob => (GeneralTransactionMetadata.fromCore blob).mapError
        DecodeException.error) = .ok metadata ∧
      Rewritten AuxiliaryData.writeMetadata AuxiliaryData.readMetadata
        (AuxiliaryData.someMetadata { metadata := metadata }) encoded value ∧
      (∀ bytes, encoded = some bytes → Begins bytes .startMap) ∧
      ((∀ bytes, encoded = some bytes → bytes.length < 2 ^ 53) →
        value.mapM GeneralTransactionMetadata.toCore = .ok blob) := by
  cases blob with
  | none =>
    exact ⟨none, none, none, rfl, Rewritten.none, by simp, fun _ => rfl⟩
  | some blob =>
    obtain ⟨hne, hblob⟩ := hvalid blob rfl
    obtain ⟨general, bytes, hgeneral⟩ := generalMetadata_survive hblob
    obtain ⟨decoded, hdecoded⟩ := exists_of_fits general hgeneral.read
    have hpos : 0 < general.metadata.size := by
      rw [hgeneral.size]
      exact List.length_pos_iff.mpr hne
    have hsome : AuxiliaryData.someMetadata { metadata := some general } = some general := by
      unfold AuxiliaryData.someMetadata
      rw [Option.filter_some, if_pos (decide_eq_true hpos)]
    refine ⟨some general, some bytes, some decoded, ?_, ?_, ?_, ?_⟩
    · change (Except.mapError _ _ >>= _) = _
      rw [hgeneral.made]
      rfl
    · rw [hsome]
      refine Rewritten.some ?_ hgeneral.item fun hlength => ?_
      · exact Encodes.encode hgeneral.written (encodes_writing (writes_encodedValue _))
      · exact readsItem_part hgeneral.item (hdecoded hlength).1
    · intro bytes' hbytes
      cases hbytes
      exact hgeneral.begins
    · intro hfits
      change (GeneralTransactionMetadata.toCore decoded >>= _) = _
      rw [(hdecoded (hfits bytes rfl)).2]
      rfl

structure DataSurvive (data : Cardano.AuxiliaryData) (object : AuxiliaryData)
    (encoded : AuxiliaryData.Field → Option (List UInt8))
    (values : (field : AuxiliaryData.Field) → Option field.Value) : Prop where
  made : AuxiliaryData.fromCore data = .ok object
  fresh : object.originalBytes = none
  fields : AuxiliaryData.FieldsSurvive object encoded values
  begins : ∀ bytes, encoded .metadata = some bytes → Begins bytes .startMap
  read : (∀ field bytes, encoded field = some bytes → bytes.length < 2 ^ 53) →
    ∀ decoded : AuxiliaryData, (∀ field, decoded.getField field = values field) →
      ∃ core, decoded.toCore = .ok core ∧ GroupedByLanguage core data

variable {data : Cardano.AuxiliaryData}

theorem auxiliaryData_survive (hvalid : ValidAuxiliaryData data) :
    ∃ object encoded values, DataSurvive data object encoded values := by
  have hcount := hvalid.count
  have hcounts {α : Type} (f : Script → Option α) :
      ((data.scripts.getD []).filterMap f).length < 2 ^ 32 := by
    have hle := List.length_filterMap_le f (data.scripts.getD [])
    omega
  obtain ⟨metadata, metadataBytes, metadataValue, hmetadata, hrewritten, hbegins, hblob⟩ :=
    blob_survives hvalid.blob
  obtain ⟨natives, nativeBytes, nativeValue, hnative⟩ := scripts_survive
    (fun _ hmem => native_roundTrips hvalid.scripts hmem) (hcounts _)
  choose objects bytes value hscripts using fun version =>
    scripts_survive (fun _ hmem => @plutus_roundTrips _ version _ hvalid.scripts hmem) (hcounts _)
  obtain ⟨object, hobject, hadds⟩ :=
    AuxiliaryData.addCddlScripts_ok (data.scripts.getD []) { metadata := metadata }
  refine ⟨object, fun
    | .metadata => metadataBytes
    | .nativeScripts => nativeBytes
    | .plutusScripts version => bytes version, fun
    | .metadata => metadataValue
    | .nativeScripts => nativeValue
    | .plutusScripts version => value version, ?_, hadds.originalBytes, ?_, hbegins, ?_⟩
  · unfold AuxiliaryData.fromCore
    rw [hmetadata]
    exact hobject
  · intro field rounds hrounds
    match field with
    | .metadata =>
      have hsome : object.getSome .metadata =
          AuxiliaryData.someMetadata { metadata := metadata } := by
        change AuxiliaryData.someMetadata object = _
        unfold AuxiliaryData.someMetadata
        rw [hadds.metadata]
      rw [hsome]
      exact hrewritten
    | .nativeScripts =>
      have hsome : object.getSome .nativeScripts = AuxiliaryData.someScripts (some natives) := by
        change AuxiliaryData.someScripts object.nativeScripts = _
        rw [AuxiliaryData.someScripts_getD, hadds.native, hnative.objects_eq (by
          intro core object h
          cases h
          rfl)]
        rfl
      rw [hsome]
      exact hnative.rewritten rounds hrounds
    | .plutusScripts version =>
      have hsome : object.getSome (.plutusScripts version) =
          AuxiliaryData.someScripts (some (objects version)) := by
        change AuxiliaryData.someScripts (object.plutusScripts version) = _
        rw [AuxiliaryData.someScripts_getD, hadds.plutus, (hscripts version).objects_eq
          plutusScript_made]
        rfl
      rw [hsome]
      exact (hscripts version).rewritten rounds hrounds
  · intro hfits decoded hdecoded
    have hmetadata' : decoded.metadata = metadataValue := hdecoded .metadata
    have hnatives' : decoded.nativeScripts = nativeValue := hdecoded .nativeScripts
    have hplutus' : ∀ version, decoded.plutusScripts version = value version := fun version =>
      hdecoded (.plutusScripts version)
    have hcores : decoded.getCoreScripts = byLanguage (data.scripts.getD []) := by
      have hnativeCores := hnative.cores_eq (fun _ => rfl) (hfits .nativeScripts)
      have hcores (version) := (hscripts version).cores_eq (fun _ => rfl)
        (hfits (.plutusScripts version))
      unfold AuxiliaryData.getCoreScripts byLanguage
      simp only [hnatives', hplutus', List.flatMap_cons, List.flatMap_nil, filter_native,
        filter_plutus, ← hnativeCores, ← hcores, List.map_map, List.append_nil, List.append_assoc]
      rfl
    refine ⟨⟨data.blob, if decoded.getCoreScripts.length > 0 then some decoded.getCoreScripts
      else none⟩, ?_, rfl, ?_⟩
    · unfold AuxiliaryData.toCore
      rw [hmetadata', hblob (hfits .metadata)]
      rfl
    · rw [← hcores]
      dsimp only
      split
      · rfl
      · exact (List.eq_nil_of_length_eq_zero (by omega)).symm

theorem auxiliaryData_roundTrips (hvalid : ValidAuxiliaryData data) :
    auxiliaryDataCodec.RoundTrips GroupedByLanguage data := by
  obtain ⟨object, encoded, values, hdata⟩ := auxiliaryData_survive hvalid
  obtain ⟨cbor, hcbor⟩ := hdata.fields.format hdata.begins
  refine ⟨object, cbor, hdata.made, ?_, hcbor.item, fun hlength => ?_⟩
  · change cachedOr object.originalBytes (encodeAsHex object.encode) = _
    rw [hdata.fresh]
    exact encodeAsHex_ok hcbor.encodes
  · obtain ⟨decoded, hdecoded, hvalues⟩ := hcbor.decodes hlength
    obtain ⟨core, hcore, hsame⟩ := hdata.read (fun field bytes hbytes =>
      lt_of_le_of_lt (hcbor.holds field bytes hbytes) hlength) decoded hvalues
    exact ⟨decoded, core, hdecoded, hcore, hsame⟩

def AuxiliaryData.CountsEntries (object : AuxiliaryData) : Prop :=
  ∃ content, Encodes object.writeFields content ∧ Items (2 * object.getMapSize) content

theorem countsEntries_fromCore (hvalid : ValidAuxiliaryData data) {object : AuxiliaryData}
    (hobject : AuxiliaryData.fromCore data = .ok object) : object.CountsEntries := by
  obtain ⟨object', encoded, values, hdata⟩ := auxiliaryData_survive hvalid
  have hsame : object' = object := Except.ok.inj (hdata.made.symm.trans hobject)
  subst hsame
  refine ⟨AuxiliaryData.fieldsBytes encoded AuxiliaryData.allFields, ?_, ?_⟩
  · rw [AuxiliaryData.writeFields_eq]
    exact hdata.fields.encodes _
  · rw [AuxiliaryData.getMapSize_eq]
    exact hdata.fields.items _

end CardanoSdk.Serialization
