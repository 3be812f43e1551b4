import CardanoSdk.Plutus.Leaves
import CardanoSdk.Serialization.Containers

/-!
Plutus data survive encoding: decoding what `toCbor` wrote gives the same tree.
-/

namespace CardanoSdk.Plutus

open Lib Cbor Serialization

variable {cbor : List UInt8} {data : PlutusData} {fuel : ℕ}
  {entries : List (PlutusData × PlutusData)}

section Parts

variable (fromCbor : List UInt8 → Except DecodeException PlutusData)

theorem untilEnd_addPart (rounds : ℕ) (before : List PlutusData) :
    untilEnd .endArray (addPart fromCbor) rounds before =
      readElements fromCbor rounds >>= fun items => pure (before ++ items) := by
  induction rounds generalizing before with
  | zero => rfl
  | succ rounds ih =>
    rw [untilEnd, readElements, bind_assoc]
    congr 1
    funext state
    split
    · rw [pure_bind, List.append_nil]
    · simp only [addPart, readPart, bind_assoc, pure_bind, ih, List.append_assoc,
        List.singleton_append]

theorem untilEnd_insertParts (rounds : ℕ) (before : List (PlutusData × PlutusData)) :
    untilEnd .endMap (insertParts fromCbor) rounds before =
      readPlutusEntries fromCbor rounds >>= fun entries => pure (before ++ entries) := by
  induction rounds generalizing before with
  | zero => rfl
  | succ rounds ih =>
    rw [untilEnd, readPlutusEntries, bind_assoc]
    congr 1
    funext state
    split
    · rw [pure_bind, List.append_nil]
    · simp only [insertParts, readPart, bind_assoc, pure_bind, ih, List.append_assoc,
        List.singleton_append]

theorem plutusListFromCbor_eq (cbor : List UInt8) :
    plutusListFromCbor fromCbor cbor = decodeWith cbor
      (readArray (addPart fromCbor) (cbor.length + 1) [] >>= fun list => pure list.2) := by
  simp only [plutusListFromCbor, readArray, untilEnd_addPart, bind_assoc, pure_bind,
    List.nil_append]

theorem plutusMapFromCbor_eq (cbor : List UInt8) :
    plutusMapFromCbor fromCbor cbor = decodeWith cbor
      (readMap (insertParts fromCbor) (cbor.length + 1) [] >>= fun map =>
        pure (map.1.isNone, map.2)) := by
  simp only [plutusMapFromCbor, readMap, untilEnd_insertParts, bind_assoc, pure_bind,
    List.nil_append]

end Parts

/-! ### Lists -/

def listBytes (elements : List (List UInt8)) : List UInt8 :=
  if elements.length > 0 then initialByte 4 31 :: (elements.flatten ++ [breakByte])
  else encodeHead .array elements.length

theorem writes_plutusList (elements : List (List UInt8)) :
    Writes (writePlutusList elements) (listBytes elements) := by
  unfold writePlutusList listBytes
  cases elements with
  | nil =>
    have hempty := @writes_typeValue .array 0 (by decide)
    exact hempty.bind (Writes.pure.bind Writes.pure)
  | cons element elements =>
    exact (show Writes (writeStartArray none) [initialByte 4 31] from
      @writes_pushUInt 1 0x9f (by decide)).bind
        ((writes_elements (element :: elements)).bind writes_break)

theorem framed_listBytes (elements : List (List UInt8)) :
    ∃ declared, Framed 4 elements.length elements.flatten declared (listBytes elements) := by
  unfold listBytes
  split
  · exact ⟨none, Framed.indefinite⟩
  · rename_i hempty
    obtain rfl : elements = [] := List.eq_nil_of_length_eq_zero (by omega)
    exact ⟨_, @Framed.definite _ _ [] _ (head_encodeHead .array (by decide))⟩

theorem dataItem_listBytes {elements : List (List UInt8)} (h : ∀ item ∈ elements, DataItem item) :
    DataItem (listBytes elements) := by
  obtain ⟨declared, hframed⟩ := framed_listBytes elements
  exact hframed.array (items_of_wellFormed h)

theorem flatten_lt_listBytes {elements : List (List UInt8)} :
    elements.flatten.length < (listBytes elements).length := by
  unfold listBytes
  split
  · rw [List.length_cons, List.length_append]
    omega
  · rename_i hempty
    obtain rfl : elements = [] := List.eq_nil_of_length_eq_zero (by omega)
    exact encodeHead_length_pos _ _

section Containers

variable {fromCbor : List UInt8 → Except DecodeException PlutusData} {alternative : ℤ}
  {elements : List (List UInt8)} {encoded : List (List UInt8 × List UInt8)}

theorem plutusListFromCbor_ok {items : List PlutusData}
    (hitems : List.Forall₂ (DecodesPart fromCbor) elements items)
    (hlength : (listBytes elements).length < 2 ^ 53) :
    plutusListFromCbor fromCbor (listBytes elements) = .ok items := by
  obtain ⟨declared, hframed⟩ := framed_listBytes elements
  have hcount := length_le_flatten (DecodesPart.dataItems hitems)
  have hcontent := @flatten_lt_listBytes elements
  rw [plutusListFromCbor_eq]
  have hread := readsItem_parts hitems hframed
    (show elements.length < (listBytes elements).length + 1 by omega)
  exact ReadsItem.decodeWith (hread.map fun _ => rfl) hlength

/-! ### Maps -/

def mapBytes (useIndefiniteEncoding : Bool) (entries : List (List UInt8 × List UInt8)) :
    List UInt8 :=
  if useIndefiniteEncoding then initialByte 5 31 :: (entriesBytes entries ++ [breakByte])
  else encodeHead .map entries.length ++ entriesBytes entries

theorem writes_plutusEntries (entries : List (List UInt8 × List UInt8)) :
    Writes (entries.forM fun (key, value) => do
      writeEncodedValue key
      writeEncodedValue value) (entriesBytes entries) := by
  induction entries with
  | nil => exact Writes.pure
  | cons entry entries ih =>
    rw [entriesBytes, List.flatMap_cons]
    exact ((writes_encodedValue entry.1).bind (writes_encodedValue entry.2)).bind ih

theorem writes_plutusMap (useIndefiniteEncoding : Bool)
    {entries : List (List UInt8 × List UInt8)} (hcount : entries.length < 2 ^ 64) :
    Writes (writePlutusMap useIndefiniteEncoding entries)
      (mapBytes useIndefiniteEncoding entries) := by
  unfold writePlutusMap mapBytes
  cases useIndefiniteEncoding with
  | true =>
    exact (show Writes (writeStartMap none) [initialByte 5 31] from
      @writes_pushUInt 1 0xbf (by decide)).bind ((writes_plutusEntries entries).bind writes_break)
  | false =>
    have hcontent := (writes_plutusEntries entries).bind Writes.pure
    rw [List.append_nil] at hcontent
    exact (writes_typeValue .map hcount).bind hcontent

theorem framed_mapBytes (useIndefiniteEncoding : Bool)
    {entries : List (List UInt8 × List UInt8)} (hcount : entries.length < 2 ^ 64) :
    ∃ declared, Framed 5 entries.length (entriesBytes entries) declared
      (mapBytes useIndefiniteEncoding entries) ∧ declared.isNone = useIndefiniteEncoding := by
  cases useIndefiniteEncoding with
  | true => exact ⟨none, Framed.indefinite, rfl⟩
  | false => exact ⟨_, Framed.definite (head_encodeHead .map hcount), rfl⟩

theorem dataItem_mapBytes (useIndefiniteEncoding : Bool)
    {entries : List (List UInt8 × List UInt8)} (hcount : entries.length < 2 ^ 64)
    (h : ∀ entry ∈ entries, DataItem entry.1 ∧ DataItem entry.2) :
    DataItem (mapBytes useIndefiniteEncoding entries) := by
  obtain ⟨declared, hframed, -⟩ := framed_mapBytes useIndefiniteEncoding hcount
  exact hframed.map (items_entriesBytes h)

theorem entries_lt_mapBytes (useIndefiniteEncoding : Bool)
    (entries : List (List UInt8 × List UInt8)) :
    (entriesBytes entries).length < (mapBytes useIndefiniteEncoding entries).length := by
  have hpos := encodeHead_length_pos .map entries.length
  unfold mapBytes
  split
  · rw [List.length_cons, List.length_append]
    omega
  · rw [List.length_append]
    omega

theorem plutusMapFromCbor_ok (useIndefiniteEncoding : Bool)
    (hentries : List.Forall₂ (DecodesParts fromCbor) encoded entries)
    (hlength : (mapBytes useIndefiniteEncoding encoded).length < 2 ^ 53) :
    plutusMapFromCbor fromCbor (mapBytes useIndefiniteEncoding encoded) =
      .ok (useIndefiniteEncoding, entries) := by
  have hcount := (items_entriesBytes (DecodesParts.dataItems hentries)).le_length
  have hcontent := entries_lt_mapBytes useIndefiniteEncoding encoded
  obtain ⟨declared, hframed, rfl⟩ :=
    framed_mapBytes useIndefiniteEncoding (show encoded.length < 2 ^ 64 by omega)
  rw [plutusMapFromCbor_eq]
  have hread := readsItem_entries hentries hframed (Nat.lt_succ_of_lt hcontent)
  exact ReadsItem.decodeWith (hread.map fun _ => rfl) hlength

/-! ### Constructors -/

def constrBytes (alternative : ℤ) (list : List UInt8) : List UInt8 :=
  encodeHead .tag (alternativeToCompactCborTag alternative).toNat ++
    (if alternativeToCompactCborTag alternative ≠ generalFormTag then list
      else encodeHead .array 2 ++ (encodeInt alternative ++ list))

theorem alternativeToCompactCborTag_cases (hnonneg : 0 ≤ alternative) :
    ∃ tag : ℕ, alternativeToCompactCborTag alternative = tag ∧ tag < 2 ^ 53 ∧
      tag ≠ unsignedBigNumTag ∧ tag ≠ negativeBigNumTag ∧
      ((tag : ℤ) ≠ generalFormTag ∧ compactCborTagToAlternative tag = alternative ∨
        (tag : ℤ) = generalFormTag) := by
  refine ⟨(alternativeToCompactCborTag alternative).toNat, ?_⟩
  unfold alternativeToCompactCborTag compactCborTagToAlternative alternativeTagOffset generalFormTag
    unsignedBigNumTag negativeBigNumTag
  split
  · refine ⟨by omega, by omega, by omega, by omega, Or.inl ⟨by omega, ?_⟩⟩
    rw [if_pos (by omega)]
    omega
  · split
    · refine ⟨by omega, by omega, by omega, by omega, Or.inl ⟨by omega, ?_⟩⟩
      rw [if_neg (by omega), if_pos (by omega)]
      omega
    · exact ⟨by omega, by omega, by omega, by omega, Or.inr (by omega)⟩

theorem writes_constr (hlower : 0 ≤ alternative) (hupper : alternative < 2 ^ 64)
    (list : List UInt8) : Writes (writeConstr alternative list) (constrBytes alternative list) := by
  obtain ⟨tag, htag, hsmall, _⟩ := alternativeToCompactCborTag_cases hlower
  have hwriteTag : Writes (writeSignedTag (alternativeToCompactCborTag alternative))
      (encodeHead .tag (alternativeToCompactCborTag alternative).toNat) := by
    rw [htag, writeSignedTag, if_neg (by omega)]
    exact writes_typeValue .tag (by omega)
  unfold writeConstr constrBytes
  apply hwriteTag.bind
  split
  · exact writes_encodedValue list
  · exact (@writes_typeValue .array 2 (by decide)).bind
      ((writes_int (by omega) hupper).bind (writes_encodedValue list))

variable {list : List UInt8}

theorem items_constr (hlower : 0 ≤ alternative) (hupper : alternative < 2 ^ 64)
    (hlist : DataItem list) : Items 2 (encodeInt alternative ++ list) := by
  have hpair := Items.cons (dataItem_encodeInt (by omega) hupper) (Items.cons hlist Items.nil)
  rwa [List.append_nil] at hpair

theorem dataItem_constrBytes (hlower : 0 ≤ alternative) (hupper : alternative < 2 ^ 64)
    (hlist : DataItem list) : DataItem (constrBytes alternative list) := by
  obtain ⟨tag, htag, hsmall, _⟩ := alternativeToCompactCborTag_cases hlower
  unfold constrBytes
  apply DataItem.tag (head_encodeHead .tag (by rw [htag]; omega))
  split
  · exact hlist
  · exact DataItem.array (head_encodeHead .array (by decide)) (items_constr hlower hupper hlist)

theorem constrFromCbor_ok {data : List PlutusData} (hlower : 0 ≤ alternative)
    (hupper : alternative < 2 ^ 64) (hlist : DataItem list)
    (hdata : plutusListFromCbor fromCbor list = .ok data)
    (hlength : (constrBytes alternative list).length < 2 ^ 53) :
    constrFromCbor fromCbor (constrBytes alternative list) = .ok (alternative, data) := by
  obtain ⟨tag, htag, hsmall, _, _, hform⟩ := alternativeToCompactCborTag_cases hlower
  apply decodeWith_ok hlength
  intro reader hfresh
  have hbytes := hfresh.bytes
  rw [constrBytes, htag, Int.toNat_natCast, List.append_assoc] at hbytes
  obtain ⟨_, _, hreadTag, hrest⟩ := readTag_encodeHead hsmall hbytes hfresh.accepts
  rcases hform with ⟨hcompact, halternative⟩ | hgeneral
  · rw [if_pos hcompact] at hrest
    have hread := readEncodedValue_ok hlist hrest (fun first _ => hfresh.accepts first)
    apply Succeeds.read hreadTag
    rw [if_neg hcompact]
    apply Succeeds.read hread
    apply Succeeds.decode hdata
    rw [halternative]
    exact Succeeds.pure
  · rw [if_neg (not_not.mpr hgeneral), List.append_assoc, List.append_assoc] at hrest
    have hhead := @head_encodeHead .array 2 (by decide)
    rw [← List.append_assoc, ← List.append_assoc, List.append_assoc (encodeHead _ _)] at hrest
    obtain ⟨entered, hvisits⟩ := framed_visited .array (Framed.definite hhead)
      (items_constr hlower hupper hlist).le_length hrest hfresh.accepts
    obtain ⟨tail, hinner⟩ := hvisits.inner
    have hroom := hvisits.room
    rw [List.append_assoc] at hinner
    obtain ⟨_, hint⟩ := readInt_encodeInt (by omega) hupper hinner hroom.accepts
    have hlistBytes : (entered.pass 1 (encodeInt alternative).length).getRemainingBytes =
        list ++ tail := by
      rw [CborReader.getRemainingBytes_pass, hinner, List.drop_left]
    have hread := readEncodedValue_ok hlist hlistBytes (fun first _ => (hroom.next _).accepts first)
    rw [CborReader.pass_pass, ← List.length_append] at hread
    apply Succeeds.read hreadTag
    rw [if_pos hgeneral]
    apply Succeeds.read hvisits.enters
    apply Succeeds.read hint
    apply Succeeds.read hread
    apply Succeeds.decode hdata
    exact Succeeds.read (hvisits.finish .undefined) Succeeds.pure

end Containers

/-! ### Trees -/

mutual

/-- The tree without the bytes that its parts were decoded from. -/
def PlutusData.forget : PlutusData → PlutusData
  | .constr _ alternative data => .constr none alternative (forgetAll data)
  | .map _ useIndefiniteEncoding entries => .map none useIndefiniteEncoding (forgetEntries entries)
  | .list _ items => .list none (forgetAll items)
  | .integer _ value => .integer none value
  | .bytes _ value => .bytes none value

def forgetAll : List PlutusData → List PlutusData
  | [] => []
  | item :: items => item.forget :: forgetAll items

def forgetEntries : List (PlutusData × PlutusData) → List (PlutusData × PlutusData)
  | [] => []
  | (key, value) :: entries => (key.forget, value.forget) :: forgetEntries entries

end

mutual

/-- Alternatives are words, integers are not below the negative words, and the
size of a map is a number. -/
def PlutusData.Encodable : PlutusData → Prop
  | .constr _ alternative data => 0 ≤ alternative ∧ alternative < 2 ^ 64 ∧ AllEncodable data
  | .map _ _ entries => entries.length < 2 ^ 53 ∧ EntriesEncodable entries
  | .list _ items => AllEncodable items
  | .integer _ value => -(2 ^ 64) ≤ value
  | .bytes _ _ => True

def AllEncodable : List PlutusData → Prop
  | [] => True
  | item :: items => item.Encodable ∧ AllEncodable items

def EntriesEncodable : List (PlutusData × PlutusData) → Prop
  | [] => True
  | (key, value) :: entries => key.Encodable ∧ value.Encodable ∧ EntriesEncodable entries

end

/-! ### More fuel -/

section Fuel

variable {fromCbor fromCbor' : List UInt8 → Except DecodeException PlutusData}

variable {cbor : List UInt8}

theorem plutusListFromCbor_extends
    (h : ∀ cbor data, fromCbor cbor = .ok data → fromCbor' cbor = .ok data)
    {items : List PlutusData} (hitems : plutusListFromCbor fromCbor cbor = .ok items) :
    plutusListFromCbor fromCbor' cbor = .ok items := by
  rw [plutusListFromCbor_eq] at hitems ⊢
  exact Refines.decodeWith (Refines.bind (readArray_refines (addPart_refines h) _ _)
    fun _ => Refines.refl _) hitems

theorem plutusMapFromCbor_extends
    (h : ∀ cbor data, fromCbor cbor = .ok data → fromCbor' cbor = .ok data)
    {result : Bool × List (PlutusData × PlutusData)}
    (hresult : plutusMapFromCbor fromCbor cbor = .ok result) :
    plutusMapFromCbor fromCbor' cbor = .ok result := by
  rw [plutusMapFromCbor_eq] at hresult ⊢
  exact Refines.decodeWith (Refines.bind (readMap_refines (insertParts_refines h) _ _)
    fun _ => Refines.refl _) hresult

theorem constrFromCbor_extends
    (h : ∀ cbor data, fromCbor cbor = .ok data → fromCbor' cbor = .ok data)
    {result : ℤ × List PlutusData} (hresult : constrFromCbor fromCbor cbor = .ok result) :
    constrFromCbor fromCbor' cbor = .ok result := by
  refine Refines.decodeWith (Refines.read fun tag => ?_) hresult
  split
  · refine Refines.read fun _ => Refines.read fun _ => Refines.read fun encoded => ?_
    exact Refines.decode (fun _ => plutusListFromCbor_extends h) fun _ => Refines.refl _
  · refine Refines.read fun encoded => ?_
    exact Refines.decode (fun _ => plutusListFromCbor_extends h) fun _ => Refines.refl _

end Fuel

theorem fromCborWithin_succ (h : fromCborWithin fuel cbor = .ok data) :
    fromCborWithin (fuel + 1) cbor = .ok data := by
  induction fuel generalizing cbor data with
  | zero => cases h
  | succ fuel ih =>
    have hextends : ∀ cbor data, fromCborWithin fuel cbor = .ok data →
        fromCborWithin (fuel + 1) cbor = .ok data := fun _ _ => ih
    rw [fromCborWithin] at h ⊢
    refine Refines.decodeWith (Refines.read fun state => ?_) h
    cases state with
    | tag =>
      refine Refines.read fun tag => ?_
      dsimp only
      split
      · exact Refines.refl _
      · split
        · exact Refines.refl _
        · refine Refines.read fun encoded => ?_
          exact Refines.decode (fun _ => constrFromCbor_extends hextends)
            fun _ => Refines.refl _
    | startArray =>
      refine Refines.read fun encoded => ?_
      exact Refines.decode (fun _ => plutusListFromCbor_extends hextends)
        fun _ => Refines.refl _
    | startMap =>
      refine Refines.read fun encoded => ?_
      exact Refines.decode (fun _ => plutusMapFromCbor_extends hextends)
        fun _ => Refines.refl _
    | _ => exact Refines.refl _

theorem fromCborWithin_le {fuel' : ℕ} (hle : fuel ≤ fuel')
    (h : fromCborWithin fuel cbor = .ok data) : fromCborWithin fuel' cbor = .ok data := by
  induction hle with
  | refl => exact h
  | step _ ih => exact fromCborWithin_succ ih

/-! ### Encoded and decoded -/

mutual

/-- What is decoded after encoding, without the bytes: objects with cached
bytes are written as these. -/
def PlutusData.reread : PlutusData → PlutusData
  | .constr none alternative data => .constr none alternative (rereadAll data)
  | .map none useIndefiniteEncoding entries =>
    .map none useIndefiniteEncoding (rereadEntries entries)
  | .list none items => .list none (rereadAll items)
  | .integer none value => .integer none (rereadInteger value)
  | .bytes none value => .bytes none value
  | .constr (some _) alternative data => .constr none alternative (forgetAll data)
  | .map (some _) useIndefiniteEncoding entries =>
    .map none useIndefiniteEncoding (forgetEntries entries)
  | .list (some _) items => .list none (forgetAll items)
  | .integer (some _) value => .integer none value
  | .bytes (some _) value => .bytes none value

def rereadAll : List PlutusData → List PlutusData
  | [] => []
  | item :: items => item.reread :: rereadAll items

def rereadEntries : List (PlutusData × PlutusData) → List (PlutusData × PlutusData)
  | [] => []
  | (key, value) :: entries => (key.reread, value.reread) :: rereadEntries entries

end

mutual

/-- Objects with cached bytes were decoded from them. For the others,
alternatives are words and the size of a map is a number. -/
def PlutusData.Sound : PlutusData → Prop
  | .constr none alternative data => 0 ≤ alternative ∧ alternative < 2 ^ 64 ∧ AllSound data
  | .map none _ entries => entries.length < 2 ^ 53 ∧ EntriesSound entries
  | .list none items => AllSound items
  | .integer none _ => True
  | .bytes none _ => True
  | .constr (some cbor) alternative data =>
    DecodesPart PlutusData.fromCbor cbor (.constr (some cbor) alternative data)
  | .map (some cbor) useIndefiniteEncoding entries =>
    DecodesPart PlutusData.fromCbor cbor (.map (some cbor) useIndefiniteEncoding entries)
  | .list (some cbor) items => DecodesPart PlutusData.fromCbor cbor (.list (some cbor) items)
  | .integer (some cbor) value => DecodesPart PlutusData.fromCbor cbor (.integer (some cbor) value)
  | .bytes (some cbor) value => DecodesPart PlutusData.fromCbor cbor (.bytes (some cbor) value)

def AllSound : List PlutusData → Prop
  | [] => True
  | item :: items => item.Sound ∧ AllSound items

def EntriesSound : List (PlutusData × PlutusData) → Prop
  | [] => True
  | (key, value) :: entries => key.Sound ∧ value.Sound ∧ EntriesSound entries

end

/-- Encoded as one data item and decoded again, with fuel for its length. -/
def Survives (data : PlutusData) : Prop :=
  ∃ cbor, data.toCbor = .ok cbor ∧ DataItem cbor ∧
    ∀ fuel, cbor.length < fuel → cbor.length < 2 ^ 53 →
      ∃ decoded, fromCborWithin fuel cbor = .ok decoded ∧ decoded.forget = data.reread

def AllSurvive (items : List PlutusData) : Prop :=
  ∃ elements, elementsToCbor items = .ok elements ∧
    (∀ element ∈ elements, DataItem element) ∧
    ∀ fuel, elements.flatten.length < fuel → elements.flatten.length < 2 ^ 53 →
      ∃ decoded, List.Forall₂ (DecodesPart (fromCborWithin fuel)) elements decoded ∧
        forgetAll decoded = rereadAll items

def EntriesSurvive (entries : List (PlutusData × PlutusData)) : Prop :=
  ∃ encoded, entriesToCbor entries = .ok encoded ∧
    encoded.length = entries.length ∧
    (∀ entry ∈ encoded, DataItem entry.1 ∧ DataItem entry.2) ∧
    ∀ fuel, (entriesBytes encoded).length < fuel → (entriesBytes encoded).length < 2 ^ 53 →
      ∃ decoded, List.Forall₂ (DecodesParts (fromCborWithin fuel)) encoded decoded ∧
        forgetEntries decoded = rereadEntries entries

theorem survives_cached (hcbor : data.toCbor = .ok cbor)
    (hdecodes : DecodesPart PlutusData.fromCbor cbor data) (hreread : data.reread = data.forget) :
    Survives data :=
  ⟨cbor, hcbor, hdecodes.item, fun _ hfuel _ =>
    ⟨data, fromCborWithin_le (Nat.succ_le_of_lt hfuel) hdecodes.decoded, hreread.symm⟩⟩

theorem survives_bytes (value : List UInt8) : Survives (.bytes none value) := by
  refine ⟨boundedBytes value, ?_, dataItem_boundedBytes value, fun fuel hfuel hlength => ?_⟩
  · rw [PlutusData.toCbor]
    exact encodeWith_ok (writes_boundedBytes value)
  · obtain ⟨inner, rfl⟩ : ∃ inner, fuel = inner + 1 := ⟨fuel - 1, by omega⟩
    refine ⟨_, fromCborWithin_bytes inner hlength, ?_⟩
    rw [PlutusData.forget, PlutusData.reread]

theorem survives_integer (value : ℤ) : Survives (.integer none value) := by
  refine ⟨integerBytes value, ?_, dataItem_integerBytes value, fun fuel hfuel hlength => ?_⟩
  · rw [PlutusData.toCbor]
    exact encodeWith_ok (writes_plutusInteger value)
  · obtain ⟨inner, rfl⟩ : ∃ inner, fuel = inner + 1 := ⟨fuel - 1, by omega⟩
    refine ⟨_, fromCborWithin_integer value inner hlength, ?_⟩
    rw [PlutusData.forget, PlutusData.reread]

theorem survives_list {items : List PlutusData} (hitems : AllSurvive items) :
    Survives (.list none items) := by
  obtain ⟨elements, hencoded, hwellFormed, hdecoded⟩ := hitems
  have hitem := dataItem_listBytes hwellFormed
  refine ⟨listBytes elements, ?_, hitem, fun fuel hfuel hlength => ?_⟩
  · rw [PlutusData.toCbor, hencoded]
    exact encodeWith_ok (writes_plutusList elements)
  · obtain ⟨inner, rfl⟩ : ∃ inner, fuel = inner + 1 := ⟨fuel - 1, by omega⟩
    have hcontent := @flatten_lt_listBytes elements
    obtain ⟨decoded, hdecodes, hsame⟩ := hdecoded inner (by omega) (by omega)
    refine ⟨.list (some (listBytes elements)) decoded, ?_, ?_⟩
    · obtain ⟨declared, hframed⟩ := framed_listBytes elements
      have hbegins : Begins (listBytes elements) .startArray := begins_framed (Or.inl rfl) hframed
      refine decodeWith_peek hbegins hlength fun reader hbytes haccepts => ?_
      apply Succeeds.read (readEncodedValue_ok hitem hbytes fun first _ => haccepts first)
      exact Succeeds.decode (plutusListFromCbor_ok hdecodes hlength) Succeeds.pure
    · rw [PlutusData.forget, PlutusData.reread, hsame]

theorem survives_map (useIndefiniteEncoding : Bool) (hsize : entries.length < 2 ^ 53)
    (hentries : EntriesSurvive entries) : Survives (.map none useIndefiniteEncoding entries) := by
  obtain ⟨encoded, hencoded, hcount, hwellFormed, hdecoded⟩ := hentries
  have hword : encoded.length < 2 ^ 64 := by omega
  have hitem := dataItem_mapBytes useIndefiniteEncoding hword hwellFormed
  refine ⟨mapBytes useIndefiniteEncoding encoded, ?_, hitem, fun fuel hfuel hlength => ?_⟩
  · rw [PlutusData.toCbor, hencoded]
    exact encodeWith_ok (writes_plutusMap useIndefiniteEncoding hword)
  · obtain ⟨inner, rfl⟩ : ∃ inner, fuel = inner + 1 := ⟨fuel - 1, by omega⟩
    have hcontent := entries_lt_mapBytes useIndefiniteEncoding encoded
    obtain ⟨decoded, hdecodes, hsame⟩ := hdecoded inner (by omega) (by omega)
    refine ⟨.map (some (mapBytes useIndefiniteEncoding encoded)) useIndefiniteEncoding decoded,
      ?_, ?_⟩
    · obtain ⟨declared, hframed, -⟩ := framed_mapBytes useIndefiniteEncoding hword
      have hbegins : Begins (mapBytes useIndefiniteEncoding encoded) .startMap :=
        begins_framed (Or.inr rfl) hframed
      refine decodeWith_peek hbegins hlength fun reader hbytes haccepts => ?_
      apply Succeeds.read (readEncodedValue_ok hitem hbytes fun first _ => haccepts first)
      exact Succeeds.decode (plutusMapFromCbor_ok useIndefiniteEncoding hdecodes hlength)
        Succeeds.pure
    · rw [PlutusData.forget, PlutusData.reread, hsame]

theorem list_lt_constrBytes (alternative : ℤ) (list : List UInt8) :
    list.length < (constrBytes alternative list).length := by
  have hpos := encodeHead_length_pos .tag (alternativeToCompactCborTag alternative).toNat
  unfold constrBytes
  split
  · rw [List.length_append]
    omega
  · rw [List.length_append, List.length_append, List.length_append]
    omega

theorem survives_constr {alternative : ℤ} {data : List PlutusData} (hlower : 0 ≤ alternative)
    (hupper : alternative < 2 ^ 64) (hdata : AllSurvive data) :
    Survives (.constr none alternative data) := by
  obtain ⟨elements, hencoded, hwellFormed, hdecoded⟩ := hdata
  have hlist := dataItem_listBytes hwellFormed
  have hitem := dataItem_constrBytes hlower hupper hlist
  refine ⟨constrBytes alternative (listBytes elements), ?_, hitem, fun fuel hfuel hlength => ?_⟩
  · rw [PlutusData.toCbor, hencoded]
    change encodeWith (writePlutusList elements) >>= _ = _
    rw [encodeWith_ok (writes_plutusList elements)]
    exact encodeWith_ok (writes_constr hlower hupper _)
  · obtain ⟨inner, rfl⟩ : ∃ inner, fuel = inner + 1 := ⟨fuel - 1, by omega⟩
    have hcontent := @flatten_lt_listBytes elements
    have hshorter := list_lt_constrBytes alternative (listBytes elements)
    obtain ⟨decoded, hdecodes, hsame⟩ := hdecoded inner (by omega) (by omega)
    refine ⟨.constr (some (constrBytes alternative (listBytes elements))) alternative decoded, ?_, ?_⟩
    · have hconstr := constrFromCbor_ok hlower hupper hlist
        (plutusListFromCbor_ok hdecodes (by omega)) hlength
      obtain ⟨tag, htag, hsmall, hpositive, hnegative, _⟩ :=
        alternativeToCompactCborTag_cases hlower
      apply decodeWith_ok hlength
      intro reader hfresh
      have hbytes := hfresh.bytes
      rw [constrBytes, htag, Int.toNat_natCast, List.append_assoc] at hbytes
      obtain ⟨hpeek, _⟩ := readTag_encodeHead hsmall hbytes hfresh.accepts
      obtain ⟨_, hpeekTag, _⟩ :=
        @readTag_encodeHead (reader.cached .tag) _ _ hsmall hbytes hfresh.accepts
      have hread := @readEncodedValue_ok (reader.cached .tag) _ _ hitem hfresh.bytes
        (fun first _ => hfresh.accepts first)
      apply Succeeds.read (peekState_ok hpeek (Or.inl hfresh.cachedState))
      apply Succeeds.read hpeekTag
      rw [if_neg hpositive, if_neg hnegative]
      apply Succeeds.read hread
      exact Succeeds.decode hconstr Succeeds.pure
    · rw [PlutusData.forget, PlutusData.reread, hsame]

theorem allSurvive_nil : AllSurvive [] := by
  refine ⟨[], ?_, by simp, fun _ _ _ => ⟨[], List.Forall₂.nil, rfl⟩⟩
  rw [elementsToCbor]

theorem allSurvive_cons {item : PlutusData} {items : List PlutusData} (hitem : Survives item)
    (hitems : AllSurvive items) : AllSurvive (item :: items) := by
  obtain ⟨cbor, hcbor, hwellFormed, hdecoded⟩ := hitem
  obtain ⟨elements, helements, hall, hdecodedAll⟩ := hitems
  refine ⟨cbor :: elements, ?_, List.forall_mem_cons.mpr ⟨hwellFormed, hall⟩, ?_⟩
  · rw [elementsToCbor, hcbor]
    change (elementsToCbor items >>= _) = _
    rw [helements]
    rfl
  · intro fuel hfuel hlength
    rw [List.flatten_cons, List.length_append] at hfuel hlength
    obtain ⟨first, hfirst, hsame⟩ := hdecoded fuel (by omega) (by omega)
    obtain ⟨rest, hrest, hsameRest⟩ := hdecodedAll fuel (by omega) (by omega)
    refine ⟨first :: rest, List.Forall₂.cons ⟨hwellFormed, hfirst⟩ hrest, ?_⟩
    rw [forgetAll, rereadAll, hsame, hsameRest]

theorem entriesSurvive_nil : EntriesSurvive [] := by
  refine ⟨[], ?_, rfl, by simp, fun _ _ _ => ⟨[], List.Forall₂.nil, rfl⟩⟩
  rw [entriesToCbor]

theorem entriesSurvive_cons {key value : PlutusData} (hkey : Survives key)
    (hvalue : Survives value) (hentries : EntriesSurvive entries) :
    EntriesSurvive ((key, value) :: entries) := by
  obtain ⟨keyCbor, hkeyCbor, hkeyItem, hkeyDecoded⟩ := hkey
  obtain ⟨valueCbor, hvalueCbor, hvalueItem, hvalueDecoded⟩ := hvalue
  obtain ⟨encoded, hencoded, hcount, hall, hdecodedAll⟩ := hentries
  refine ⟨(keyCbor, valueCbor) :: encoded, ?_, congrArg (· + 1) hcount,
    List.forall_mem_cons.mpr ⟨⟨hkeyItem, hvalueItem⟩, hall⟩, ?_⟩
  · rw [entriesToCbor, hkeyCbor]
    change (value.toCbor >>= _) = _
    rw [hvalueCbor]
    change (entriesToCbor entries >>= _) = _
    rw [hencoded]
    rfl
  · intro fuel hfuel hlength
    rw [entriesBytes, List.flatMap_cons, List.length_append, List.length_append] at hfuel hlength
    change keyCbor.length + valueCbor.length + (entriesBytes encoded).length < fuel at hfuel
    change keyCbor.length + valueCbor.length + (entriesBytes encoded).length < 2 ^ 53 at hlength
    obtain ⟨first, hfirst, hsame⟩ := hkeyDecoded fuel (by omega) (by omega)
    obtain ⟨second, hsecond, hsameSecond⟩ := hvalueDecoded fuel (by omega) (by omega)
    obtain ⟨rest, hrest, hsameRest⟩ := hdecodedAll fuel (by omega) (by omega)
    refine ⟨(first, second) :: rest,
      List.Forall₂.cons ⟨⟨hkeyItem, hfirst⟩, ⟨hvalueItem, hsecond⟩⟩ hrest, ?_⟩
    rw [forgetEntries, rereadEntries, hsame, hsameSecond, hsameRest]

mutual

theorem survives_tree : (data : PlutusData) → data.Sound → Survives data
  | .constr none alternative data, h => by
    rw [PlutusData.Sound] at h
    exact survives_constr h.1 h.2.1 (allSurvive data h.2.2)
  | .map none useIndefiniteEncoding entries, h => by
    rw [PlutusData.Sound] at h
    exact survives_map useIndefiniteEncoding h.1 (entriesSurvive entries h.2)
  | .list none items, h => by
    rw [PlutusData.Sound] at h
    exact survives_list (allSurvive items h)
  | .integer none value, _ => survives_integer value
  | .bytes none value, _ => survives_bytes value
  | .constr (some cbor) alternative data, h => by
    rw [PlutusData.Sound] at h
    exact survives_cached (by rw [PlutusData.toCbor]) h
      (by rw [PlutusData.reread, PlutusData.forget])
  | .map (some cbor) useIndefiniteEncoding entries, h => by
    rw [PlutusData.Sound] at h
    exact survives_cached (by rw [PlutusData.toCbor]) h
      (by rw [PlutusData.reread, PlutusData.forget])
  | .list (some cbor) items, h => by
    rw [PlutusData.Sound] at h
    exact survives_cached (by rw [PlutusData.toCbor]) h
      (by rw [PlutusData.reread, PlutusData.forget])
  | .integer (some cbor) value, h => by
    rw [PlutusData.Sound] at h
    exact survives_cached (by rw [PlutusData.toCbor]) h
      (by rw [PlutusData.reread, PlutusData.forget])
  | .bytes (some cbor) value, h => by
    rw [PlutusData.Sound] at h
    exact survives_cached (by rw [PlutusData.toCbor]) h
      (by rw [PlutusData.reread, PlutusData.forget])

theorem allSurvive : (items : List PlutusData) → AllSound items → AllSurvive items
  | [], _ => allSurvive_nil
  | item :: items, h => by
    rw [AllSound] at h
    exact allSurvive_cons (survives_tree item h.1) (allSurvive items h.2)

theorem entriesSurvive : (entries : List (PlutusData × PlutusData)) → EntriesSound entries →
    EntriesSurvive entries
  | [], _ => entriesSurvive_nil
  | (key, value) :: entries, h => by
    rw [EntriesSound] at h
    exact entriesSurvive_cons (survives_tree key h.1) (survives_tree value h.2.1)
      (entriesSurvive entries h.2.2)

end

mutual

theorem sound_of_encodable : (data : PlutusData) → data.forget = data → data.Encodable →
    data.Sound ∧ data.reread = data
  | .constr original alternative items, huncached, h => by
    rw [PlutusData.forget, PlutusData.constr.injEq] at huncached
    obtain ⟨rfl, _, hitems⟩ := huncached
    rw [PlutusData.Encodable] at h
    obtain ⟨hsound, hsame⟩ := allSound_of_encodable items hitems h.2.2
    rw [PlutusData.Sound, PlutusData.reread, hsame]
    exact ⟨⟨h.1, h.2.1, hsound⟩, rfl⟩
  | .map original useIndefiniteEncoding entries, huncached, h => by
    rw [PlutusData.forget, PlutusData.map.injEq] at huncached
    obtain ⟨rfl, _, hentries⟩ := huncached
    rw [PlutusData.Encodable] at h
    obtain ⟨hsound, hsame⟩ := entriesSound_of_encodable entries hentries h.2
    rw [PlutusData.Sound, PlutusData.reread, hsame]
    exact ⟨⟨h.1, hsound⟩, rfl⟩
  | .list original items, huncached, h => by
    rw [PlutusData.forget, PlutusData.list.injEq] at huncached
    obtain ⟨rfl, hitems⟩ := huncached
    rw [PlutusData.Encodable] at h
    obtain ⟨hsound, hsame⟩ := allSound_of_encodable items hitems h
    rw [PlutusData.Sound, PlutusData.reread, hsame]
    exact ⟨hsound, rfl⟩
  | .integer original value, huncached, h => by
    rw [PlutusData.forget, PlutusData.integer.injEq] at huncached
    obtain ⟨rfl, _⟩ := huncached
    rw [PlutusData.Encodable] at h
    rw [PlutusData.Sound, PlutusData.reread, rereadInteger, if_neg (by omega)]
    exact ⟨trivial, rfl⟩
  | .bytes original value, huncached, _ => by
    rw [PlutusData.forget, PlutusData.bytes.injEq] at huncached
    obtain ⟨rfl, _⟩ := huncached
    rw [PlutusData.Sound, PlutusData.reread]
    exact ⟨trivial, rfl⟩

theorem allSound_of_encodable : (items : List PlutusData) → forgetAll items = items →
    AllEncodable items → AllSound items ∧ rereadAll items = items
  | [], _, _ => by
    rw [AllSound, rereadAll]
    exact ⟨trivial, rfl⟩
  | item :: items, huncached, h => by
    rw [forgetAll, List.cons.injEq] at huncached
    rw [AllEncodable] at h
    obtain ⟨hfirst, hsame⟩ := sound_of_encodable item huncached.1 h.1
    obtain ⟨hrest, hsameRest⟩ := allSound_of_encodable items huncached.2 h.2
    rw [AllSound, rereadAll, hsame, hsameRest]
    exact ⟨⟨hfirst, hrest⟩, rfl⟩

theorem entriesSound_of_encodable : (entries : List (PlutusData × PlutusData)) →
    forgetEntries entries = entries → EntriesEncodable entries →
      EntriesSound entries ∧ rereadEntries entries = entries
  | [], _, _ => by
    rw [EntriesSound, rereadEntries]
    exact ⟨trivial, rfl⟩
  | (key, value) :: entries, huncached, h => by
    rw [forgetEntries, List.cons.injEq, Prod.mk.injEq] at huncached
    rw [EntriesEncodable] at h
    obtain ⟨hkey, hsame⟩ := sound_of_encodable key huncached.1.1 h.1
    obtain ⟨hvalue, hsameValue⟩ := sound_of_encodable value huncached.1.2 h.2.1
    obtain ⟨hrest, hsameRest⟩ := entriesSound_of_encodable entries huncached.2 h.2.2
    rw [EntriesSound, rereadEntries, hsame, hsameValue, hsameRest]
    exact ⟨⟨hkey, hvalue, hrest⟩, rfl⟩

end

/-- A tree without cached bytes is encoded, and its encoding decodes to the
same tree: kinds, alternatives, integers, bytes, elements and entries in order.
The encoding fits in a typed array, without which there is no reader for it. -/
theorem fromCbor_toCbor (data : PlutusData) (huncached : data.forget = data)
    (hencodable : data.Encodable)
    (hfits : ∀ cbor, data.toCbor = .ok cbor → cbor.length < 2 ^ 53) :
    ∃ cbor decoded, data.toCbor = .ok cbor ∧ PlutusData.fromCbor cbor = .ok decoded ∧
      decoded.forget = data := by
  obtain ⟨hsound, hreread⟩ := sound_of_encodable data huncached hencodable
  obtain ⟨cbor, hcbor, _, hdecoded⟩ := survives_tree data hsound
  obtain ⟨decoded, hread, hsame⟩ := hdecoded (cbor.length + 1) (Nat.lt_succ_self _)
    (hfits cbor hcbor)
  exact ⟨cbor, decoded, hcbor, hread, hsame.trans hreread⟩

/-- Every kind, the three forms of constructors, a chunked string and a big integer. -/
def sampleData : PlutusData :=
  .constr none 200
    [.integer none (2 ^ 70), .integer none (-(2 ^ 64)),
      .map none true [(.bytes none (List.replicate 70 7), .list none [])],
      .map none false [(.constr none 3 [], .constr none 40 [.bytes none []])]]

theorem fromCbor_toCbor_sampleData :
    ∃ cbor decoded, sampleData.toCbor = .ok cbor ∧ PlutusData.fromCbor cbor = .ok decoded ∧
      decoded.forget = sampleData := by
  apply fromCbor_toCbor
  · simp [sampleData, PlutusData.forget, forgetAll, forgetEntries]
  · simp [sampleData, PlutusData.Encodable, AllEncodable, EntriesEncodable]
  · intro cbor hcbor
    have hlength : (sampleData.toCbor.toOption.map List.length) = some 115 := by decide
    rw [hcbor] at hlength
    have := Option.some.inj hlength
    omega

end CardanoSdk.Plutus
