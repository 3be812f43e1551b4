import CardanoSdk.Serialization.WitnessSet

/-!
`computeScriptDataHash` and the bytes it hashes. The hash function and the encoding of the
language views are parameters.
-/

namespace CardanoSdk.TxConstruction

open Lib Cbor Plutus Serialization

def cborEmptyMap : List UInt8 := [0xa0]

/-- `getCborEncodedArray`, given the encodings of its items. -/
def getCborEncodedArray (items : List (List UInt8)) : Except RangeError (List UInt8) :=
  encodeWith do
    writeStartArray (some items.length)
    items.forM writeEncodedValue

/-- The three segments of the hashed bytes; without datums the second is not written. -/
structure ScriptData where
  redeemers : List UInt8
  datums : Option (List UInt8)
  languageViews : List UInt8

def ScriptData.bytes (data : ScriptData) : List UInt8 :=
  data.redeemers ++ data.datums.getD [] ++ data.languageViews

/-- What `hashScriptData` writes before it hashes. -/
def scriptData (languageViewsEncoding : List UInt8) (redeemers : Option (List Redeemer))
    (datums : Option (List PlutusData)) : Except RangeError (Option ScriptData) :=
  match redeemers.getD [], datums.getD [] with
  | [], [] => .ok none
  | [], datum :: datums => do
      let elements ← (datum :: datums).mapM PlutusData.toCbor
      let segment ← getCborEncodedArray elements
      return some
        { redeemers := cborEmptyMap, datums := some segment, languageViews := cborEmptyMap }
  | redeemer :: redeemers, datums => do
      let redeemerElements ← (redeemer :: redeemers).mapM Redeemer.toCbor
      let redeemerSegment ← getCborEncodedArray redeemerElements
      let datumSegment ← writtenIfAny (fun datums => do
        let elements ← datums.mapM PlutusData.toCbor
        getCborEncodedArray elements) (some datums)
      return some
        { redeemers := redeemerSegment
          datums := datumSegment
          languageViews := languageViewsEncoding }

def hashScriptData (blake2b : List UInt8 → List UInt8) (languageViewsEncoding : List UInt8)
    (redeemers : Option (List Redeemer)) (datums : Option (List PlutusData)) :
    Except RangeError (Option (List UInt8)) := do
  let data ← scriptData languageViewsEncoding redeemers datums
  return data.map (fun data => blake2b data.bytes)

inductive ScriptDataException where
  | decode (exception : DecodeException)
  | range (exception : RangeError)

def computeScriptDataHash (blake2b : List UInt8 → List UInt8) (languageViewsEncoding : List UInt8)
    (redeemers : Option (List CoreRedeemer)) (datums : Option (List CoreData)) :
    Except ScriptDataException (Option (List UInt8)) := do
  if redeemers.getD [] = [] ∧ datums.getD [] = [] then return none
  let redeemers ← (convertOptional Redeemer.fromCore redeemers).mapError .decode
  let datums ← (convertOptional PlutusData.fromCore datums).mapError .decode
  (hashScriptData blake2b languageViewsEncoding redeemers datums).mapError .range

/-- The hashed segments are the bytes that the witness set has under its keys
for redeemers and for datums. -/
structure CommitsTo (data : ScriptData) (witness : TransactionWitnessSet) (inConwayEra : Bool) :
    Prop where
  redeemers : witness.writtenUnder inConwayEra 5 = .ok (some data.redeemers)
  datums : witness.writtenUnder inConwayEra 4 = .ok data.datums

variable {witness : TransactionWitnessSet} {languageViewsEncoding : List UInt8} {data : ScriptData}

theorem writtenUnder_eq {inConwayEra : Bool} {datums redeemers : Option (List UInt8)}
    (hdatums : writtenIfAny (fun datums => do
      let elements ← datums.mapM PlutusData.toCbor
      cborSetToCbor inConwayEra elements) witness.plutusData = .ok datums)
    (hredeemers : writtenIfAny (redeemersToCbor inConwayEra) witness.redeemers = .ok redeemers) :
    witness.writtenUnder inConwayEra 4 = .ok datums ∧
      witness.writtenUnder inConwayEra 5 = .ok redeemers := by
  have hempty (key : ℕ) : JsMap.lookup key (presentFields []) = none := rfl
  unfold TransactionWitnessSet.writtenUnder TransactionWitnessSet.fields
  rw [hdatums, hredeemers]
  constructor
  · change Except.ok (JsMap.lookup 4 _) = _
    simp [lookup_presentFields_cons, hempty]
  · change Except.ok (JsMap.lookup 5 _) = _
    simp [lookup_presentFields_cons, hempty]

theorem scriptData_ok {redeemers : Option (List Redeemer)} {datums : Option (List PlutusData)}
    (hredeemers : redeemers.getD [] ≠ [])
    (hdata : scriptData languageViewsEncoding redeemers datums = .ok (some data)) :
    ∃ first rest elements, redeemers = some (first :: rest) ∧
      (first :: rest).mapM Redeemer.toCbor = .ok elements ∧
      getCborEncodedArray elements = .ok data.redeemers ∧
      writtenIfAny (fun datums => do
        let elements ← datums.mapM PlutusData.toCbor
        getCborEncodedArray elements) datums = .ok data.datums := by
  match redeemers, hredeemers, hdata with
  | none, hredeemers, _ => exact absurd rfl hredeemers
  | some [], hredeemers, _ => exact absurd rfl hredeemers
  | some (first :: rest), _, hdata =>
    obtain ⟨elements, helements, hdata⟩ := bind_ok hdata
    obtain ⟨segment, hsegment, hdata⟩ := bind_ok hdata
    obtain ⟨datumSegment, hdatums, hdata⟩ := bind_ok hdata
    cases hdata
    refine ⟨first, rest, elements, rfl, helements, hsegment, ?_⟩
    match datums, hdatums with
    | none, hdatums => exact hdatums
    | some datums, hdatums => exact hdatums

/-- Before Conway both encoders write arrays of the same elements. -/
theorem commitsTo_of_array (hredeemers : witness.redeemers.getD [] ≠ [])
    (hdata : scriptData languageViewsEncoding witness.redeemers witness.plutusData =
      .ok (some data)) : CommitsTo data witness false := by
  obtain ⟨first, rest, elements, hpresent, helements, hsegment, hdatums⟩ :=
    scriptData_ok hredeemers hdata
  have hlength := (forall₂_of_mapM_ok helements).length_eq
  have hwritten : writtenIfAny (redeemersToCbor false) witness.redeemers =
      .ok (some data.redeemers) := by
    have harray : redeemersToCbor false (first :: rest) = .ok data.redeemers := by
      rw [redeemersToCbor, if_neg (by decide), helements, hlength]
      exact hsegment
    rw [hpresent, writtenIfAny, harray]
    rfl
  have hset : writtenIfAny (fun datums => do
      let elements ← datums.mapM PlutusData.toCbor
      cborSetToCbor false elements) witness.plutusData = .ok data.datums := hdatums
  obtain ⟨hfour, hfive⟩ := writtenUnder_eq hset hwritten
  exact ⟨hfive, hfour⟩

theorem encodeWith_announces {type : CborMajorType} {value : ℕ} {next : Unit → WriteM Unit}
    (hnext : Moves Grows (next ())) {bytes : List UInt8}
    (h : encodeWith (writeTypeValue type value >>= next) = .ok bytes) :
    Announces type ⟨bytes⟩ := by
  unfold encodeWith at h
  split at h
  case h_1 writer hrun =>
      cases h
      exact announces_of_writeTypeValue hnext hrun
  case h_2 => cases h

theorem announces_getCborEncodedArray {elements : List (List UInt8)} {segment : List UInt8}
    (h : getCborEncodedArray elements = .ok segment) : Announces .array ⟨segment⟩ :=
  encodeWith_announces (moves_forM moves_encodedValue elements) h

theorem moves_redeemerEntry (redeemer : Redeemer) (data exUnits : List UInt8) :
    Moves Grows (writeRedeemerEntry redeemer data exUnits) := by
  have harray : Moves Grows (writeStartArray (some 2)) := moves_typeValue .array 2
  unfold writeRedeemerEntry
  refine harray.bind fun _ => ?_
  refine (moves_int _).bind fun _ => ?_
  refine (moves_int _).bind fun _ => ?_
  refine harray.bind fun _ => ?_
  exact (moves_encodedValue _).bind fun _ => moves_encodedValue _

theorem announces_redeemersToCbor {values : List Redeemer} {cbor : List UInt8}
    (h : redeemersToCbor true values = .ok cbor) : Announces .map ⟨cbor⟩ := by
  obtain ⟨entries, -, hencoded⟩ := bind_ok h
  exact encodeWith_announces (moves_forM (fun entry => moves_redeemerEntry _ _ _) entries) hencoded

/-- In Conway the redeemers that are sent are a map, and the hashed ones an array. -/
theorem not_commitsTo_of_map (hredeemers : witness.redeemers.getD [] ≠ [])
    (hdata : scriptData languageViewsEncoding witness.redeemers witness.plutusData =
      .ok (some data)) : ¬ CommitsTo data witness true := by
  rintro ⟨hwritten, -⟩
  obtain ⟨first, rest, elements, hpresent, -, hsegment, -⟩ := scriptData_ok hredeemers hdata
  obtain ⟨fields, hfields, -⟩ := bind_ok hwritten
  obtain ⟨datums, hdatums, hfields⟩ := bind_ok hfields
  obtain ⟨redeemers, hmap, -⟩ := bind_ok hfields
  have hsent := (writtenUnder_eq hdatums hmap).2
  rw [hpresent] at hmap
  obtain ⟨cbor, hcbor, hmap⟩ := bind_ok hmap
  cases hmap
  cases hwritten.symm.trans hsent
  obtain ⟨byte, _, hbuffer, htype⟩ := announces_getCborEncodedArray hsegment
  obtain ⟨byte', _, hbuffer', htype'⟩ := announces_redeemersToCbor hcbor
  cases hbuffer.symm.trans hbuffer'
  cases htype.symm.trans htype'

theorem convertOptional_ne_nil {α β ε : Type} {convert : α → Except ε β}
    {items : Option (List α)} {converted : Option (List β)}
    (h : convertOptional convert items = .ok converted) (hitems : items.getD [] ≠ []) :
    converted.getD [] ≠ [] := by
  cases items with
  | none => exact absurd rfl hitems
  | some items =>
    obtain ⟨result, hresult, h⟩ := bind_ok h
    cases h
    intro hempty
    cases hempty
    exact hitems (List.eq_nil_of_length_eq_zero (forall₂_of_mapM_ok hresult).length_eq)

/-- The script data hash is computed over the witness set that is sent exactly
before Conway, for every list of redeemers and datums. -/
theorem scriptDataHash_commits_iff (blake2b : List UInt8 → List UInt8)
    (languageViewsEncoding : List UInt8) (core : CoreWitness) (inConwayEra : Bool)
    (witness : TransactionWitnessSet) (data : ScriptData)
    (hredeemers : core.redeemers.getD [] ≠ [])
    (hwitness : TransactionWitnessSet.fromCore core = .ok witness)
    (hdata : scriptData languageViewsEncoding witness.redeemers witness.plutusData =
      .ok (some data)) :
    computeScriptDataHash blake2b languageViewsEncoding core.redeemers core.datums =
        .ok (some (blake2b data.bytes)) ∧
      (CommitsTo data witness inConwayEra ↔ inConwayEra = false) := by
  obtain ⟨redeemers, hconverted, hwitness⟩ := bind_ok hwitness
  obtain ⟨datums, hdatums, hwitness⟩ := bind_ok hwitness
  cases hwitness
  constructor
  · unfold computeScriptDataHash
    rw [if_neg (fun h => hredeemers h.1), hconverted, hdatums]
    change (hashScriptData blake2b languageViewsEncoding redeemers datums).mapError _ = _
    unfold hashScriptData
    rw [hdata]
    rfl
  · have hpresent := convertOptional_ne_nil hconverted hredeemers
    cases inConwayEra with
    | false => exact iff_of_true (commitsTo_of_array hpresent hdata) rfl
    | true => exact iff_of_false (not_commitsTo_of_map hpresent hdata) (by decide)

/-- A mint redeemer and a datum, before Conway. -/
theorem scriptDataHash_commits_iff_mint :
    let core : CoreWitness :=
      { redeemers := some [⟨.mint, 0, .integer 42, 10, 20⟩], datums := some [.bytes [1, 2]] }
    ∃ witness data, TransactionWitnessSet.fromCore core = .ok witness ∧
      scriptData [0xa0] witness.redeemers witness.plutusData = .ok (some data) ∧
      CommitsTo data witness false := by
  intro core
  have hdata : scriptData [0xa0] (some [⟨1, 0, .integer none 42, 10, 20⟩])
      (some [.bytes none [1, 2]]) = .ok (some
        ⟨[0x81, 0x84, 1, 0, 0x18, 42, 0x82, 10, 20], some [0x81, 0x42, 1, 2], [0xa0]⟩) := by
    rfl
  exact ⟨_, _, rfl, hdata, (scriptDataHash_commits_iff id [0xa0] core false _ _ (by simp [core]) rfl
    hdata).2.mpr rfl⟩

/-- The same witness in Conway: an array is hashed and a map is sent. -/
theorem scriptDataHash_of_mint_in_conway :
    let core : CoreWitness :=
      { redeemers := some [⟨.mint, 0, .integer 42, 10, 20⟩], datums := some [.bytes [1, 2]] }
    ∃ witness data, TransactionWitnessSet.fromCore core = .ok witness ∧
      scriptData [0xa0] witness.redeemers witness.plutusData = .ok (some data) ∧
      data.redeemers = [0x81, 0x84, 1, 0, 0x18, 42, 0x82, 10, 20] ∧
      witness.writtenUnder true 5 =
        .ok (some [0xa1, 0x82, 1, 0, 0x82, 0x18, 42, 0x82, 10, 20]) ∧
      data.datums = some [0x81, 0x42, 1, 2] ∧
      witness.writtenUnder true 4 = .ok (some [0xd9, 1, 2, 0x81, 0x42, 1, 2]) ∧
      ¬ CommitsTo data witness true := by
  intro core
  refine ⟨_, _, rfl, rfl, rfl, rfl, rfl, rfl, ?_⟩
  rintro ⟨hredeemers, -⟩
  cases hredeemers

end CardanoSdk.TxConstruction
