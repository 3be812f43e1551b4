import CardanoSdk.Plutus.CoreRoundTrip
import CardanoSdk.Serialization.WitnessParts

/-!
`Redeemers` through their encodings: a map from tags and indices in the era of Conway, and
an array before.
-/

namespace CardanoSdk.Serialization

open Lib Cbor Plutus Cardano
open InputSelection (RedeemerPurpose)

structure Redeemers where
  values : List Redeemer
  originalBytes : Option (List UInt8) := none

def plutusDataCodec : Codec CoreData PlutusData where
  fromCore := PlutusData.fromCore
  toCbor data := data.toCbor.mapError .range
  fromCbor := PlutusData.fromCbor
  toCore data := data.toCore.mapError .range

def readRedeemerValue : DecodeM (PlutusData × ExUnits) := do
  let data ← readPart PlutusData.fromCbor
  let exUnits ← readPart ExUnits.fromCbor
  pure (data, exUnits)

def newRedeemer (tag index : ℕ) (value : PlutusData × ExUnits) : Redeemer where
  tag := roundToDouble tag
  index := index
  data := value.1
  mem := value.2.mem
  steps := value.2.steps

def Redeemer.fromCbor (cbor : List UInt8) : Except DecodeException Redeemer :=
  decodeWith cbor <| readFixedArray 4 do
    let tag ← reading readUInt
    let index ← reading readUInt
    let value ← readRedeemerValue
    pure (newRedeemer tag index value)

/-- A key or a value of the map, with its name in the message. -/
def readRedeemersGroup {α : Type} (name : String) (fields : DecodeM α) : DecodeM α := do
  let length ← reading readStartArray
  if length ≠ some 2 then
    throw (invalidCbor ("Redeemers map " ++ name ++ " should be an array of 2 elements, " ++
      "but got an array of " ++ (length.map numberText).getD "null" ++ " elements"))
  else
    let value ← fields
    reading readEndArray
    pure value

def addRedeemer (redeemers : List Redeemer) : DecodeM (List Redeemer) := do
  let (tag, index) ← readRedeemersGroup "index" do
    let tag ← reading readUInt
    let index ← reading readUInt
    pure (tag, index)
  let value ← readRedeemersGroup "value" readRedeemerValue
  pure (redeemers ++ [newRedeemer tag index value])

def readRedeemers (rounds : ℕ) (peekState : CborReaderState) : DecodeM (List Redeemer) :=
  if peekState = .startMap then do
    let (_, redeemers) ← readMap addRedeemer rounds []
    pure redeemers
  else readList Redeemer.fromCbor rounds

namespace Redeemers

def size (redeemers : Redeemers) : ℕ := redeemers.values.length

def fromCbor (cbor : List UInt8) : Except DecodeException Redeemers :=
  decodeWith cbor do
    let state ← reading peekState
    let redeemers ← readRedeemers (cbor.length + 1) state
    pure { values := redeemers, originalBytes := some cbor }

def toCbor (inConwayEra : Bool) (redeemers : Redeemers) : Except EncodeException (List UInt8) :=
  cachedOr redeemers.originalBytes ((redeemersToCbor inConwayEra redeemers.values).mapError .range)

end Redeemers

def redeemerPurpose (tag : ℕ) : Except EncodeException RedeemerPurpose :=
  match tag with
  | 0 => .ok .spend
  | 1 => .ok .mint
  | 2 => .ok .certificate
  | 3 => .ok .withdrawal
  | 4 => .ok .vote
  | 5 => .ok .propose
  | 6 => .ok .guarding
  | tag => .error (.error (invalidState ("Invalid redeemer type " ++ numberText tag)))

def Redeemer.toCore (redeemer : Redeemer) : Except EncodeException CoreRedeemer := do
  let purpose ← redeemerPurpose redeemer.tag
  let data ← plutusDataCodec.toCore redeemer.data
  return {
    purpose := purpose
    index := roundToDouble redeemer.index
    data := data
    memory := roundToDouble redeemer.mem
    steps := roundToDouble redeemer.steps }

namespace Redeemers

def toCore (redeemers : Redeemers) : Except EncodeException (List CoreRedeemer) :=
  redeemers.values.mapM Redeemer.toCore

def fromCore (redeemers : List CoreRedeemer) : Except DecodeException Redeemers := do
  let values ← redeemers.mapM Redeemer.fromCore
  return { values := values }

end Redeemers

def redeemersCodec (inConwayEra : Bool) : Codec (List CoreRedeemer) Redeemers where
  fromCore := Redeemers.fromCore
  toCbor := Redeemers.toCbor inConwayEra
  fromCbor := Redeemers.fromCbor
  toCore := Redeemers.toCore

def SameData (data data' : CoreData) : Prop := data.strip = data'.strip

def DatumBack (datum' datum : CoreData) : Prop := SameData datum' datum ↔ datum.Kept

theorem datum_roundTrips {datum : CoreData} (h : datum.WellFormed) :
    plutusDataCodec.RoundTrips DatumBack datum := by
  obtain ⟨data, cbor, hmade, hcbor, hitem, hread⟩ := datum_round_trip h
  refine ⟨data, cbor, hmade, ?_, hitem, fun hlength => ?_⟩
  · change data.toCbor.mapError EncodeException.range = _
    rw [hcbor]
    rfl
  · obtain ⟨decoded, core, hdecoded, hcore, hback⟩ := hread hlength
    refine ⟨decoded, core, hdecoded, ?_, hback⟩
    change decoded.toCore.mapError EncodeException.range = _
    rw [hcore]
    rfl

structure IsUnsigned (value : ℕ) : Prop where
  fits : value < 2 ^ 64
  exact : roundToDouble value = value

structure ValidRedeemer (core : CoreRedeemer) : Prop where
  index : IsUnsigned core.index
  memory : IsUnsigned core.memory
  steps : IsUnsigned core.steps
  data : plutusDataCodec.RoundTrips SameData core.data

structure SameRedeemer (core core' : CoreRedeemer) : Prop where
  purpose : core.purpose = core'.purpose
  index : core.index = core'.index
  memory : core.memory = core'.memory
  steps : core.steps = core'.steps
  data : SameData core.data core'.data

/-- A core redeemer with the encoding of its data and with what is read from that. -/
structure WrittenRedeemer where
  core : CoreRedeemer
  valid : ValidRedeemer core
  plutus : PlutusData
  data : List UInt8
  decoded : PlutusData
  made : PlutusData.fromCore core.data = .ok plutus
  written : plutus.toCbor = .ok data
  item : DataItem data
  read : data.length < 2 ^ 53 → PlutusData.fromCbor data = .ok decoded ∧
    plutusDataCodec.Restores SameData decoded core.data

variable {cores : List CoreRedeemer} {cbor : List UInt8}

theorem exists_written (h : ∀ core ∈ cores, ValidRedeemer core) :
    ∃ written : List WrittenRedeemer, written.map WrittenRedeemer.core = cores := by
  induction cores with
  | nil => exact ⟨[], rfl⟩
  | cons core cores ih =>
    rw [List.forall_mem_cons] at h
    obtain ⟨written, hwritten⟩ := ih h.2
    obtain ⟨plutus, data, hmade, hdata, hitem, hread⟩ := h.1.data
    obtain ⟨decoded, hdecoded⟩ := exists_of_fits plutus hread
    have hcbor : plutus.toCbor = .ok data := mapError_eq_ok_iff.mp hdata
    have hrestores : data.length < 2 ^ 53 → PlutusData.fromCbor data = .ok decoded ∧
        plutusDataCodec.Restores SameData decoded core.data := fun hlength => by
      obtain ⟨data', hdecodes, hdata'⟩ := hdecoded hlength
      exact ⟨hdecodes, data', hdata'⟩
    refine ⟨⟨core, h.1, plutus, data, decoded, hmade, hcbor, hitem, hrestores⟩ :: written, ?_⟩
    rw [List.map_cons, hwritten]

namespace WrittenRedeemer

variable (written : WrittenRedeemer)

def tag : ℕ := redeemerTag written.core.purpose

def object : Redeemer :=
  ⟨written.tag, written.core.index, written.plutus, written.core.memory, written.core.steps⟩

def reread : Redeemer :=
  ⟨written.tag, written.core.index, written.decoded, written.core.memory, written.core.steps⟩

def exUnits : List UInt8 := pairBytes written.core.memory written.core.steps

def keyContent : List UInt8 := encodeInt written.tag ++ encodeInt written.core.index

def valueContent : List UInt8 := written.data ++ written.exUnits

def element : List UInt8 :=
  encodeHead .array 4 ++ (written.keyContent ++ written.valueContent)

def keyBytes : List UInt8 := encodeHead .array 2 ++ written.keyContent

def valueBytes : List UInt8 := encodeHead .array 2 ++ written.valueContent

theorem tag_lt : written.tag < 7 := by
  unfold tag
  cases written.core.purpose <;> decide

theorem fromCore_eq : Redeemer.fromCore written.core = .ok written.object := by
  rw [Redeemer.fromCore, written.made]
  rfl

theorem redeemerPurpose_tag : redeemerPurpose written.tag = .ok written.core.purpose := by
  unfold tag
  cases written.core.purpose <;> rfl

theorem restores (hlength : written.data.length < 2 ^ 53) :
    ∃ core', written.reread.toCore = .ok core' ∧ SameRedeemer core' written.core := by
  obtain ⟨data', hdata', hsame⟩ := (written.read hlength).2
  refine ⟨⟨written.core.purpose, roundToDouble written.core.index, data',
    roundToDouble written.core.memory, roundToDouble written.core.steps⟩, ?_, ?_⟩
  · rw [Redeemer.toCore, reread, redeemerPurpose_tag]
    change (plutusDataCodec.toCore written.decoded >>= _) = _
    rw [hdata']
    rfl
  · exact ⟨rfl, written.valid.index.exact, written.valid.memory.exact, written.valid.steps.exact,
      hsame⟩

theorem exUnitsToCbor_eq :
    exUnitsToCbor written.core.memory written.core.steps = .ok written.exUnits := by
  have hmemory := fitsHead_natCast written.valid.memory.fits
  have hsteps := fitsHead_natCast written.valid.steps.fits
  refine encodeWith_ok (Writes.bind (writes_startArray (by decide)) ?_)
  exact (writes_int hmemory.1 hmemory.2).bind (writes_int hsteps.1 hsteps.2)

theorem items_key : Items 2 written.keyContent :=
  items_pair (fitsHead_natCast (by have := written.tag_lt; omega))
    (fitsHead_natCast written.valid.index.fits)

theorem items_value : Items 2 written.valueContent :=
  Items.cons written.item
    (items_one (dataItem_exUnits written.valid.memory.fits written.valid.steps.fits))

theorem writes_key {next : Unit → WriteM Unit} {bytes : List UInt8} (h : Writes (next ()) bytes) :
    Writes (writeInt written.tag >>= fun _ => writeInt written.core.index >>= next)
      (written.keyContent ++ bytes) := by
  have hlt := written.tag_lt
  have hindex := fitsHead_natCast written.valid.index.fits
  rw [keyContent, List.append_assoc]
  refine (@writes_int written.tag (by omega) (by omega)).bind ?_
  exact (writes_int hindex.1 hindex.2).bind h

theorem writes_value : Writes (do
    writeEncodedValue written.data
    writeEncodedValue written.exUnits) written.valueContent :=
  (writes_encodedValue _).bind (writes_encodedValue _)

theorem reads_value (hlength : written.valueContent.length < 2 ^ 53) :
    Reads readRedeemerValue 2 written.valueContent (written.decoded,
      ⟨written.core.memory, written.core.steps, some written.exUnits⟩) := by
  rw [valueContent, List.length_append] at hlength
  have hdata := (written.read (by omega)).1
  have hunits := ExUnits.fromCbor_ok written.valid.memory.fits written.valid.steps.fits
    (show written.exUnits.length < 2 ^ 53 by omega)
  have hitem := dataItem_exUnits written.valid.memory.fits written.valid.steps.fits
  change Reads _ (1 + 1) _ _
  refine (readsItem_part written.item hdata).bind ?_
  exact (readsItem_part hitem hunits).last fun _ => rfl

theorem newRedeemer_eq : newRedeemer written.tag written.core.index (written.decoded,
    ⟨written.core.memory, written.core.steps, some written.exUnits⟩) = written.reread := by
  have hlt := written.tag_lt
  rw [newRedeemer, reread, roundToDouble_of_lt (by omega)]

end WrittenRedeemer

namespace WrittenRedeemer

variable (written : WrittenRedeemer)

theorem toCbor_eq : written.object.toCbor = .ok written.element := by
  rw [Redeemer.toCbor]
  change (written.plutus.toCbor >>= fun data => _) = _
  rw [written.written]
  change (exUnitsToCbor written.core.memory written.core.steps >>= fun exUnits => _) = _
  rw [exUnitsToCbor_eq]
  refine encodeWith_ok (Writes.bind (writes_startArray (by decide)) ?_)
  exact written.writes_key written.writes_value

theorem data_lt_element (hlength : written.element.length < 2 ^ 53) :
    written.data.length < 2 ^ 53 := by
  rw [element, valueContent, List.length_append, List.length_append, List.length_append] at hlength
  omega

theorem items_element : Items 4 (written.keyContent ++ written.valueContent) :=
  written.items_key.append written.items_value

theorem decodesPart_element (hlength : written.element.length < 2 ^ 53) :
    DecodesPart Redeemer.fromCbor written.element written.reread := by
  refine ⟨dataItem_fixedArray (by decide) written.items_element, ?_⟩
  have hcontent := hlength
  rw [element, List.length_append, List.length_append] at hcontent
  have hlt := written.tag_lt
  refine (readsItem_fixedArray (by decide) written.items_element.le_length ?_).decodeWith hlength
  rw [keyContent, List.append_assoc]
  change Reads _ (1 + (1 + 2)) _ _
  refine (readsItem_uint (by omega)).bind ?_
  refine (readsItem_uint written.valid.index.fits).bind ?_
  refine (written.reads_value (by omega)).map fun reader => ?_
  rw [newRedeemer_eq]
  rfl

end WrittenRedeemer

theorem writes_elements (written : List WrittenRedeemer) :
    (written.map WrittenRedeemer.object).mapM Redeemer.toCbor =
      .ok (written.map WrittenRedeemer.element) := by
  induction written with
  | nil => rfl
  | cons first rest ih =>
    rw [List.map_cons, List.mapM_cons, first.toCbor_eq, ih]
    rfl

theorem writes_parts (elements : List (List UInt8)) :
    Writes (elements.forM writeEncodedValue) elements.flatten := by
  induction elements with
  | nil => exact Writes.pure
  | cons element elements ih => exact (writes_encodedValue element).bind ih

variable {written : List WrittenRedeemer}

theorem redeemersToCbor_array (hcount : written.length < 2 ^ 64) :
    redeemersToCbor false (written.map WrittenRedeemer.object) =
      .ok (arrayBytes (written.map WrittenRedeemer.element)) := by
  unfold redeemersToCbor
  rw [if_neg (by decide), writes_elements]
  have hlength : (written.map WrittenRedeemer.object).length =
      (written.map WrittenRedeemer.element).length := by
    rw [List.length_map, List.length_map]
  rw [hlength]
  refine encodeWith_ok (Writes.bind (writes_startArray ?_) (writes_parts _))
  rwa [List.length_map]

theorem decodesParts_elements (h : ∀ redeemer ∈ written, redeemer.element.length < 2 ^ 53) :
    List.Forall₂ (DecodesPart Redeemer.fromCbor) (written.map WrittenRedeemer.element)
      (written.map WrittenRedeemer.reread) := by
  rw [List.forall₂_map_left_iff, List.forall₂_map_right_iff, List.forall₂_same]
  exact fun redeemer hmem => redeemer.decodesPart_element (h redeemer hmem)

namespace WrittenRedeemer

def entryBytes (written : WrittenRedeemer) : List UInt8 := written.keyBytes ++ written.valueBytes

variable (written : WrittenRedeemer)

theorem data_lt_entry (hlength : written.entryBytes.length < 2 ^ 53) :
    written.data.length < 2 ^ 53 := by
  rw [entryBytes, valueBytes, valueContent, List.length_append, List.length_append,
    List.length_append] at hlength
  omega

theorem writes_entry :
    Writes (writeRedeemerEntry written.object written.data written.exUnits) written.entryBytes := by
  rw [entryBytes, keyBytes, List.append_assoc]
  refine (@writes_startArray 2 (by decide)).bind (written.writes_key ?_)
  exact (@writes_startArray 2 (by decide)).bind written.writes_value

theorem readsItem_group {α : Type} {name : String} {fields : DecodeM α} {content : List UInt8}
    {value : α} (hcount : 2 ≤ content.length) (h : Reads fields 2 content value) :
    ReadsItem (readRedeemersGroup name fields) (encodeHead .array 2 ++ content) value := by
  intro reader rest hbytes haccepts
  have hframed : Framed 4 2 content (some 2) (encodeHead .array 2 ++ content) :=
    Framed.definite (head_encodeHead .array (by omega))
  obtain ⟨entered, tail, hstart, hinner, hroom, hleave⟩ :=
    entersArray hframed hcount hbytes haccepts
  rw [readRedeemersGroup, run_bind_ok (reading_ok hstart), if_neg (not_not.mpr rfl),
    run_bind_ok (h entered tail 0 hinner hroom), run_bind_ok (reading_ok hleave)]
  rfl

theorem readsRound_entry (hlength : written.entryBytes.length < 2 ^ 53)
    (before : List Redeemer) :
    ReadsRound (addRedeemer before) (1 + 1) written.entryBytes (before ++ [written.reread]) := by
  have hkey : Reads (do
      let tag ← reading readUInt
      let index ← reading readUInt
      pure (tag, index)) 2 written.keyContent (written.tag, written.core.index) := by
    have hlt := written.tag_lt
    change Reads _ (1 + 1) _ _
    refine (readsItem_uint (by omega)).bind ?_
    exact (readsItem_uint written.valid.index.fits).last fun _ => rfl
  have hvalue : written.valueContent.length < 2 ^ 53 := by
    rw [entryBytes, valueBytes, List.length_append, List.length_append] at hlength
    omega
  refine readsRound (dataItem_fixedArray (by decide) written.items_key)
    (readsItem_group written.items_key.le_length hkey) ?_
  refine (readsItem_group written.items_value.le_length (written.reads_value hvalue)).last
    fun reader => ?_
  rw [newRedeemer_eq]
  rfl

end WrittenRedeemer

theorem rounds_entries (h : ∀ redeemer ∈ written, redeemer.entryBytes.length < 2 ^ 53)
    (before : List Redeemer) :
    Rounds addRedeemer before (2 * written.length) (written.flatMap WrittenRedeemer.entryBytes)
      (before ++ written.map WrittenRedeemer.reread) := by
  induction written generalizing before with
  | nil =>
    rw [List.map_nil, List.append_nil]
    exact Rounds.nil before
  | cons first rest ih =>
    rw [List.forall_mem_cons] at h
    have hrest := ih h.2 (before ++ [first.reread])
    rw [List.append_assoc] at hrest
    rw [List.length_cons, Nat.mul_succ, Nat.add_comm, List.flatMap_cons]
    exact Rounds.cons (first.readsRound_entry h.1 before) hrest

theorem dataItem_redeemersMap (hcount : written.length < 2 ^ 64) :
    DataItem (encodeHead .map written.length ++ written.flatMap WrittenRedeemer.entryBytes) :=
  dataItem_entries hcount fun redeemer _ =>
    ⟨dataItem_fixedArray (by decide) redeemer.items_key,
      dataItem_fixedArray (by decide) redeemer.items_value⟩

theorem encodes_values (written : List WrittenRedeemer) :
    (written.map WrittenRedeemer.object).mapM (fun redeemer => do
      let data ← redeemer.data.toCbor
      let exUnits ← exUnitsToCbor redeemer.mem redeemer.steps
      return (redeemer, data, exUnits)) =
      .ok (written.map fun redeemer => (redeemer.object, redeemer.data, redeemer.exUnits)) := by
  induction written with
  | nil => rfl
  | cons first rest ih =>
    rw [List.map_cons, List.mapM_cons, ih]
    change (((first.plutus.toCbor >>= fun data =>
      exUnitsToCbor first.core.memory first.core.steps >>= fun exUnits =>
        pure (first.object, data, exUnits))) >>= _) = _
    rw [first.written, first.exUnitsToCbor_eq]
    rfl

theorem writes_entries (written : List WrittenRedeemer) :
    Writes ((written.map fun redeemer => (redeemer.object, redeemer.data, redeemer.exUnits)).forM
      fun (redeemer, data, exUnits) => writeRedeemerEntry redeemer data exUnits)
      (written.flatMap WrittenRedeemer.entryBytes) := by
  induction written with
  | nil => exact Writes.pure
  | cons first rest ih => exact first.writes_entry.bind ih

theorem redeemersToCbor_map (hcount : written.length < 2 ^ 64)
    (hnodup : (written.map fun redeemer => (redeemer.tag, redeemer.core.index)).Nodup) :
    redeemersToCbor true (written.map WrittenRedeemer.object) =
      .ok (encodeHead .map written.length ++ written.flatMap WrittenRedeemer.entryBytes) := by
  have hkeys : (((written.map WrittenRedeemer.object).map
      fun redeemer => ((redeemer.tag, redeemer.index), redeemer)).map Prod.fst).Nodup := by
    rw [List.map_map, List.map_map]
    exact hnodup
  have hentries := JsMap.entries_ofList_of_nodup hkeys
  have hvalues : (JsMap.ofList ((written.map WrittenRedeemer.object).map
      fun redeemer => ((redeemer.tag, redeemer.index), redeemer))).values =
      written.map WrittenRedeemer.object := by
    rw [JsMap.values, hentries, List.map_map]
    exact List.map_id _
  have hsize : (JsMap.ofList ((written.map WrittenRedeemer.object).map
      fun redeemer => ((redeemer.tag, redeemer.index), redeemer))).size = written.length := by
    rw [JsMap.size, hentries, List.length_map, List.length_map]
  unfold redeemersToCbor
  rw [if_pos rfl]
  dsimp only
  rw [hvalues, hsize, encodes_values]
  exact encodeWith_ok ((writes_startMap hcount).bind (writes_entries written))

structure ValidRedeemers (cores : List CoreRedeemer) : Prop where
  each : ∀ core ∈ cores, ValidRedeemer core
  count : cores.length < 2 ^ 64
  distinct : (cores.map fun core => (core.purpose, core.index)).Nodup

theorem redeemerTag_injective : Function.Injective redeemerTag := by
  intro purpose purpose' h
  cases purpose <;> cases purpose' <;> first | rfl | cases h

theorem fromCore_written (written : List WrittenRedeemer) :
    (written.map WrittenRedeemer.core).mapM Redeemer.fromCore =
      .ok (written.map WrittenRedeemer.object) := by
  induction written with
  | nil => rfl
  | cons first rest ih =>
    rw [List.map_cons, List.mapM_cons, first.fromCore_eq, ih]
    rfl

theorem toCore_reread (h : ∀ redeemer ∈ written, redeemer.data.length < 2 ^ 53) :
    ∃ cores, (written.map WrittenRedeemer.reread).mapM Redeemer.toCore = .ok cores ∧
      List.Forall₂ SameRedeemer cores (written.map WrittenRedeemer.core) := by
  induction written with
  | nil => exact ⟨[], rfl, List.Forall₂.nil⟩
  | cons first rest ih =>
    rw [List.forall_mem_cons] at h
    obtain ⟨core', hcore, hsame⟩ := first.restores h.1
    obtain ⟨cores, hcores, hall⟩ := ih h.2
    refine ⟨core' :: cores, ?_, List.Forall₂.cons hsame hall⟩
    rw [List.map_cons, List.mapM_cons, hcore, hcores]
    rfl

theorem fromCbor_map (hcount : written.length < 2 ^ 64)
    (hcbor : cbor = encodeHead .map written.length ++ written.flatMap WrittenRedeemer.entryBytes)
    (hlength : cbor.length < 2 ^ 53) :
    Redeemers.fromCbor cbor = .ok ⟨written.map WrittenRedeemer.reread, some cbor⟩ := by
  have hframed := @Framed.definite 5 _ (written.flatMap WrittenRedeemer.entryBytes) _
    (head_encodeHead .map hcount)
  rw [← hcbor] at hframed
  have hitems : Items (2 * written.length) (written.flatMap WrittenRedeemer.entryBytes) :=
    items_entries fun redeemer _ => ⟨dataItem_fixedArray (by decide) redeemer.items_key,
      dataItem_fixedArray (by decide) redeemer.items_value⟩
  have hrounds := rounds_entries (fun redeemer hmem => length_part_lt (hcbor ▸ hlength) hmem) []
  have henough : (written.flatMap WrittenRedeemer.entryBytes).length < cbor.length + 1 := by
    rw [hcbor, List.length_append]
    omega
  refine decodeWith_peek (begins_framed (Or.inr rfl) hframed) hlength ?_
  intro reader hbytes haccepts
  have hread := readsItem_map hframed hrounds hitems.le_length henough reader [] hbytes haccepts
  have hformat : readRedeemers (cbor.length + 1) .startMap reader =
      .ok (written.map WrittenRedeemer.reread) (reader.pass 1 cbor.length) := by
    rw [readRedeemers, if_pos rfl, run_bind_ok hread]
    rfl
  exact Succeeds.bind hformat Succeeds.pure

theorem fromCbor_array (hcount : written.length < 2 ^ 64)
    (hcbor : cbor = arrayBytes (written.map WrittenRedeemer.element))
    (hlength : cbor.length < 2 ^ 53) :
    Redeemers.fromCbor cbor = .ok ⟨written.map WrittenRedeemer.reread, some cbor⟩ := by
  have hcontent := hlength
  rw [hcbor, arrayBytes, ← List.flatMap_def] at hcontent
  have hparts := decodesParts_elements fun redeemer hmem => length_part_lt hcontent hmem
  have hframed := @Framed.definite 4 _ (written.map WrittenRedeemer.element).flatten _
    (head_encodeHead .array (show (written.map WrittenRedeemer.element).length < 2 ^ 64 by
      rwa [List.length_map]))
  change Framed 4 _ _ _ (arrayBytes (written.map WrittenRedeemer.element)) at hframed
  rw [← hcbor] at hframed
  have hitems := length_le_flatten (DecodesPart.dataItems hparts)
  have henough : (written.map WrittenRedeemer.element).length < cbor.length + 1 := by
    rw [hcbor, arrayBytes, List.length_append]
    omega
  refine decodeWith_peek (begins_framed (Or.inl rfl) hframed) hlength ?_
  intro reader hbytes haccepts
  have hread := readsItem_list hparts hframed henough reader [] hbytes haccepts
  have hformat : readRedeemers (cbor.length + 1) .startArray reader =
      .ok (written.map WrittenRedeemer.reread) (reader.pass 1 cbor.length) := by
    rw [readRedeemers, if_neg (by decide)]
    exact hread
  exact Succeeds.bind hformat Succeeds.pure

theorem redeemers_roundTrips {inConwayEra : Bool} (hvalid : ValidRedeemers cores) :
    (redeemersCodec inConwayEra).RoundTrips (List.Forall₂ SameRedeemer) cores := by
  obtain ⟨written, rfl⟩ := exists_written hvalid.each
  have hcount := hvalid.count
  rw [List.length_map] at hcount
  have hmade : Redeemers.fromCore (written.map WrittenRedeemer.core) =
      .ok ⟨written.map WrittenRedeemer.object, none⟩ := by
    rw [Redeemers.fromCore, fromCore_written]
    rfl
  cases inConwayEra with
  | true =>
    have hnodup : (written.map fun redeemer => (redeemer.tag, redeemer.core.index)).Nodup := by
      have hinjective : Function.Injective fun key : RedeemerPurpose × ℕ =>
          (redeemerTag key.1, key.2) :=
        fun key key' h => Prod.ext (redeemerTag_injective (Prod.ext_iff.mp h).1)
          (Prod.ext_iff.mp h).2
      have hdistinct := hvalid.distinct.map hinjective
      rwa [List.map_map, List.map_map] at hdistinct
    refine ⟨_, _, hmade, ?_, dataItem_redeemersMap hcount, fun hlength => ?_⟩
    · change cachedOr none ((redeemersToCbor true _).mapError _) = _
      rw [cachedOr_none, redeemersToCbor_map hcount hnodup]
      rfl
    · obtain ⟨cores, hcores, hsame⟩ := toCore_reread fun redeemer hmem =>
        redeemer.data_lt_entry (length_part_lt hlength hmem)
      exact ⟨_, cores, fromCbor_map hcount rfl hlength, hcores, hsame⟩
  | false =>
    refine ⟨_, arrayBytes (written.map WrittenRedeemer.element), hmade, ?_, ?_, fun hlength => ?_⟩
    · change cachedOr none ((redeemersToCbor false _).mapError _) = _
      rw [cachedOr_none, redeemersToCbor_array hcount]
      rfl
    · refine dataItem_fixedArray (by rwa [List.length_map]) (items_of_wellFormed ?_)
      rw [List.forall_mem_map]
      exact fun redeemer _ => dataItem_fixedArray (by decide) redeemer.items_element
    · have hcontent := hlength
      rw [arrayBytes, ← List.flatMap_def] at hcontent
      obtain ⟨cores, hcores, hsame⟩ := toCore_reread fun redeemer hmem =>
        redeemer.data_lt_element (length_part_lt hcontent hmem)
      exact ⟨_, cores, fromCbor_array hcount rfl hlength, hcores, hsame⟩

end CardanoSdk.Serialization
