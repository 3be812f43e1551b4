import CardanoSdk.Serialization.Containers

/-!
Records that are written as arrays of a fixed size: what holds of the fields one by one
holds of the record.
-/

namespace CardanoSdk.Serialization

open Lib Cbor Plutus Cardano

/-- An array that must declare its length and whose end is read. -/
def readFixedArray {α : Type} (size : ℕ) (fields : DecodeM α) : DecodeM α := do
  let length ← reading readStartArray
  if length ≠ some size then throw (unexpectedLength size length)
  else
    let value ← fields
    reading readEndArray
    pure value

/-- An array that must declare its length, which is else refused with this error. -/
def readArrayOf {α : Type} (refusal : Option ℕ → DecodeException) (size : ℕ) (fields : DecodeM α) :
    DecodeM α := do
  let length ← reading readStartArray
  if length ≠ some size then throw (refusal length)
  else
    let value ← fields
    reading readEndArray
    pure value

/-- An array that must declare its length and whose end is not read. -/
def readOpenArray {α : Type} (size : ℕ) (fields : DecodeM α) : DecodeM α := do
  let length ← reading readStartArray
  if length ≠ some size then throw (unexpectedLength size length) else fields

theorem length_le_flatMap {α β : Type} {f : α → List β} {items : List α} {item : α}
    (hmem : item ∈ items) : (f item).length ≤ (items.flatMap f).length := by
  have hinfix := List.infix_of_mem_flatten (List.mem_map_of_mem hmem : f item ∈ items.map f)
  exact hinfix.length_le

theorem length_part_lt {α β : Type} {f : α → List β} {head : List β} {items : List α}
    {bound : ℕ} (hlength : (head ++ items.flatMap f).length < bound) {item : α}
    (hmem : item ∈ items) : (f item).length < bound := by
  have hle : (f item).length ≤ _ := length_le_flatMap hmem
  rw [List.length_append] at hlength
  omega

def FitsHead (value : ℤ) : Prop := -(2 ^ 64) ≤ value ∧ value < 2 ^ 64

structure IsNumber (value : ℤ) : Prop where
  fits : FitsHead value
  exact : toNumber value = value

section Kept

variable {α : Type} {same : α → α → Prop} {value : α}

/-- The value is written as one item, and from one that fits the same is read. -/
def Kept (write : α → EncodeM Unit) (read : DecodeM α) (same : α → α → Prop) (value : α) : Prop :=
  ∃ bytes value', Encodes (write value) bytes ∧ DataItem bytes ∧
    (bytes.length < 2 ^ 53 → ReadsItem read bytes value') ∧ same value' value

theorem kept_part {toCbor : α → Except EncodeException (List UInt8)}
    {fromCbor : List UInt8 → Except DecodeException α} {bytes : List UInt8} (value' : α)
    (hcbor : toCbor value = .ok bytes) (hitem : DataItem bytes)
    (hdecoded : bytes.length < 2 ^ 53 → fromCbor bytes = .ok value') (hsame : same value' value) :
    Kept (writePart toCbor) (readPart fromCbor) same value := by
  refine ⟨bytes, value', ?_, hitem, fun hlength => readsItem_part hitem (hdecoded hlength), hsame⟩
  exact Encodes.encode hcbor (encodes_writing (writes_encodedValue bytes))

theorem cachedOr_none (encode : Except EncodeException (List UInt8)) :
    cachedOr none encode = encode := rfl

theorem readsItem_arrayOf {refusal : Option ℕ → DecodeException} {size : ℕ} {fields : DecodeM α}
    {content : List UInt8} (hsize : size < 2 ^ 53) (hcount : size ≤ content.length)
    (hfields : Reads fields size content value) :
    ReadsItem (readArrayOf refusal size fields) (encodeHead .array size ++ content) value := by
  intro reader rest hbytes haccepts
  have hframed : Framed 4 size content (some size) (encodeHead .array size ++ content) :=
    Framed.definite (head_encodeHead .array (by omega))
  obtain ⟨entered, tail, hstart, hinner, hroom, hleave⟩ :=
    entersArray hframed hcount hbytes haccepts
  rw [readArrayOf, run_bind_ok (reading_ok hstart), if_neg (not_not.mpr rfl),
    run_bind_ok (hfields entered tail 0 hinner hroom), run_bind_ok (reading_ok hleave)]
  rfl

theorem readsItem_fixedArray {size : ℕ} {fields : DecodeM α} {content : List UInt8}
    (hsize : size < 2 ^ 53) (hcount : size ≤ content.length) (hfields : Reads fields size content value) :
    ReadsItem (readFixedArray size fields) (encodeHead .array size ++ content) value :=
  @readsItem_arrayOf _ _ (unexpectedLength size) _ _ _ hsize hcount hfields

theorem dataItem_fixedArray {size : ℕ} {content : List UInt8} (hsize : size < 2 ^ 64)
    (hitems : Items size content) : DataItem (encodeHead .array size ++ content) :=
  DataItem.array (head_encodeHead .array hsize) hitems

end Kept

section Item

variable {α : Type} {write : EncodeM Unit} {read : DecodeM α} {holds holds' : α → Prop}

/-- One item is written, and from one that fits a value of this kind is read. -/
def KeptItem (write : EncodeM Unit) (read : DecodeM α) (holds : α → Prop) : Prop :=
  ∃ bytes value, Encodes write bytes ∧ DataItem bytes ∧
    (bytes.length < 2 ^ 53 → ReadsItem read bytes value ∧ holds value)

theorem KeptItem.mono (h : KeptItem write read holds) (hholds : ∀ value, holds value → holds' value) :
    KeptItem write read holds' := by
  obtain ⟨bytes, value, hencodes, hitem, hread⟩ := h
  exact ⟨bytes, value, hencodes, hitem, fun hlength =>
    ⟨(hread hlength).1, hholds value (hread hlength).2⟩⟩

theorem keptItem_int {value : ℤ} (h : FitsHead value) :
    KeptItem (writing (writeInt value)) (reading readInt) (· = value) :=
  ⟨encodeInt value, value, encodes_writing (writes_int h.1 h.2), dataItem_encodeInt h.1 h.2,
    fun _ => ⟨readsItem_int h.1 h.2, rfl⟩⟩

theorem keptItem_byteString {value : List UInt8} (h : value.length < 2 ^ 64) :
    KeptItem (writing (writeByteString value)) (reading readByteString) (· = value) :=
  ⟨encodeChunk value, value, encodes_writing (writes_byteString h), dataItem_encodeChunk h,
    fun _ => ⟨readsItem_byteString h, rfl⟩⟩

theorem keptItem_text {value : String} (h : (utf8Encode value).length < 2 ^ 64) :
    KeptItem (writing (writeTextString value)) (reading readTextString) (· = value) :=
  ⟨_, value, encodes_writing (writes_textString h),
    DataItem.string (Or.inr rfl) (StringItem.mk (head_encodeHead .utf8String h) rfl),
    fun _ => ⟨readsItem_text h, rfl⟩⟩

theorem keptItem_converted {β : Type} {value : α} {convert : α → DecodeM β} {result : β}
    (h : KeptItem write read (· = value))
    (hconvert : ∀ reader, convert value reader = .ok result reader) :
    KeptItem write (read >>= convert) (· = result) := by
  obtain ⟨bytes, value', hencodes, hitem, hread⟩ := h
  refine ⟨bytes, result, hencodes, hitem, fun hlength => ?_⟩
  obtain ⟨hreads, rfl⟩ := hread hlength
  exact ⟨hreads.map hconvert, rfl⟩

/-- The object is converted to a core value that is the same as this one. -/
def Codec.Restores {Core Object : Type} (codec : Codec Core Object) (same : Core → Core → Prop)
    (object : Object) (core : Core) : Prop :=
  ∃ core', codec.toCore object = .ok core' ∧ same core' core

theorem keptItem_codec {Core Object : Type} {codec : Codec Core Object}
    {same : Core → Core → Prop} {core : Core} (h : codec.RoundTrips same core) :
    ∃ object, codec.fromCore core = .ok object ∧
      KeptItem (writePart codec.toCbor object) (readPart codec.fromCbor) fun decoded =>
        codec.Restores same decoded core := by
  obtain ⟨object, bytes, hmade, hcbor, hitem, hread⟩ := h
  obtain ⟨decoded, hdecoded⟩ := exists_of_fits object hread
  refine ⟨object, hmade, bytes, decoded, ?_, hitem, fun hlength => ?_⟩
  · exact Encodes.encode hcbor (encodes_writing (writes_encodedValue bytes))
  · obtain ⟨core', hdecodes, hcore, hsame⟩ := hdecoded hlength
    exact ⟨readsItem_part hitem hdecodes, core', hcore, hsame⟩

end Item

section Items

variable {α β : Type} {write : EncodeM Unit} {count : ℕ} {holds : α → Prop} {kind : β → Prop}

/-- So many items are written, and from items that fit a value of this kind is read. -/
def KeptItems (write : EncodeM Unit) (read : DecodeM α) (count : ℕ) (holds : α → Prop) : Prop :=
  ∃ bytes value, Encodes write bytes ∧ Items count bytes ∧
    (bytes.length < 2 ^ 53 → Reads read count bytes value ∧ holds value)

variable {read : DecodeM α}

theorem KeptItems.mono {holds' : α → Prop} (h : KeptItems write read count holds)
    (hholds : ∀ value, holds value → holds' value) : KeptItems write read count holds' := by
  obtain ⟨bytes, value, hencodes, hitems, hread⟩ := h
  exact ⟨bytes, value, hencodes, hitems, fun hlength =>
    ⟨(hread hlength).1, hholds value (hread hlength).2⟩⟩

theorem KeptItems.written (h : KeptItems write read count holds) :
    ∃ bytes, Encodes write bytes ∧ Items count bytes := by
  obtain ⟨bytes, _, hencodes, hitems, -⟩ := h
  exact ⟨bytes, hencodes, hitems⟩

theorem KeptItems.exact {first : DecodeM β} {next : β → DecodeM α} {others : Unit → EncodeM Unit}
    {value : β} (hfirst : KeptItem write first (· = value))
    (hothers : KeptItems (others ()) (next value) count holds) :
    KeptItems (write >>= others) (first >>= next) (1 + count) holds := by
  obtain ⟨bytes, value', hencodes, hitem, hread⟩ := hfirst
  obtain ⟨bytes', result, hencodes', hitems, hread'⟩ := hothers
  refine ⟨bytes ++ bytes', result, hencodes.bind hencodes', ?_, fun hlength => ?_⟩
  · rw [Nat.add_comm]
    exact Items.cons hitem hitems
  · rw [List.length_append] at hlength
    obtain ⟨hfield, rfl⟩ := hread (by omega)
    obtain ⟨hfields, hholds⟩ := hread' (by omega)
    exact ⟨hfield.bind hfields, hholds⟩

theorem KeptItem.items (h : KeptItem write read holds) : KeptItems write read 1 holds := by
  obtain ⟨bytes, value, hencodes, hitem, hread⟩ := h
  exact ⟨bytes, value, hencodes, items_one hitem, fun hlength =>
    ⟨(hread hlength).1.reads, (hread hlength).2⟩⟩

theorem KeptItems.map {first : DecodeM β} {next : β → DecodeM α} {result : β → α}
    (hfirst : KeptItems write first count kind)
    (hnext : ∀ value reader, next value reader = .ok (result value) reader)
    (hholds : ∀ value, kind value → holds (result value)) :
    KeptItems write (first >>= next) count holds := by
  obtain ⟨bytes, value, hencodes, hitems, hread⟩ := hfirst
  refine ⟨bytes, result value, hencodes, hitems, fun hlength => ?_⟩
  exact ⟨(hread hlength).1.map (hnext value), hholds value (hread hlength).2⟩

theorem KeptItems.last {first : DecodeM β} {next : β → DecodeM α} {result : β → α}
    (hfirst : KeptItem write first kind)
    (hnext : ∀ value reader, next value reader = .ok (result value) reader)
    (hholds : ∀ value, kind value → holds (result value)) :
    KeptItems write (first >>= next) 1 holds :=
  hfirst.items.map hnext hholds

theorem KeptItems.decode {next : β → DecodeM α} {result : Except DecodeException β} {value : β}
    (hresult : result = .ok value) (h : KeptItems write (next value) count holds) :
    KeptItems write (decoding result >>= next) count holds := by
  obtain ⟨bytes, value, hencodes, hitems, hread⟩ := h
  exact ⟨bytes, value, hencodes, hitems, fun hlength =>
    ⟨Reads.decode hresult (hread hlength).1, (hread hlength).2⟩⟩

theorem KeptItems.encode {read : DecodeM α} {next : β → EncodeM Unit}
    {result : Except EncodeException β} {value : β} (hresult : result = .ok value)
    (h : KeptItems (next value) read count holds) :
    KeptItems (encoding result >>= next) read count holds := by
  obtain ⟨bytes, value, hencodes, hread⟩ := h
  exact ⟨bytes, value, Encodes.encode hresult hencodes, hread⟩

theorem KeptItems.append {first : DecodeM β} {next : β → DecodeM α} {others : Unit → EncodeM Unit}
    {count' : ℕ} (hfirst : KeptItems write first count kind)
    (hothers : ∀ value, KeptItems (others ()) (next value) count' fun result =>
      kind value → holds result) :
    KeptItems (write >>= others) (first >>= next) (count + count') holds := by
  obtain ⟨bytes, value, hencodes, hitems, hread⟩ := hfirst
  obtain ⟨bytes', result, hencodes', hitems', hread'⟩ := hothers value
  refine ⟨bytes ++ bytes', result, hencodes.bind hencodes', hitems.append hitems', fun hlength => ?_⟩
  rw [List.length_append] at hlength
  obtain ⟨hfields, hkind⟩ := hread (by omega)
  obtain ⟨hfields', hholds⟩ := hread' (by omega)
  exact ⟨hfields.bind hfields', hholds hkind⟩

theorem KeptItems.cons {first : DecodeM β} {next : β → DecodeM α} {others : Unit → EncodeM Unit}
    (hfirst : KeptItem write first kind)
    (hothers : ∀ value, KeptItems (others ()) (next value) count fun result => kind value → holds result) :
    KeptItems (write >>= others) (first >>= next) (1 + count) holds :=
  hfirst.items.append hothers

end Items

theorem Encodes.unique {write : EncodeM Unit} {bytes bytes' : List UInt8} (h : Encodes write bytes)
    (h' : Encodes write bytes') : bytes = bytes' := by
  have hsame := (encodeAsHex_ok h).symm.trans (encodeAsHex_ok h')
  exact Except.ok.inj hsame

/-- The decoder of a record reads the fields in a row. It may keep its bytes. -/
def DecodesRecord {α : Type} (fromCbor : List UInt8 → Except DecodeException α) (size : ℕ)
    (read : List UInt8 → DecodeM α) : Prop :=
  ∀ content value, size ≤ content.length → (encodeHead .array size ++ content).length < 2 ^ 53 →
    Reads (read (encodeHead .array size ++ content)) size content value →
    fromCbor (encodeHead .array size ++ content) = .ok value

section Record

variable {α : Type} {size : ℕ} {write : EncodeM Unit} {read : List UInt8 → DecodeM α}
  {fromCbor : List UInt8 → Except DecodeException α} {holds : α → Prop}

theorem decodesRecord_arrayOf {refusal : Option ℕ → DecodeException} (hsize : size < 2 ^ 53)
    (h : ∀ cbor, fromCbor cbor = decodeWith cbor (readArrayOf refusal size (read cbor))) :
    DecodesRecord fromCbor size read := by
  intro content value hcount hlength hreads
  rw [h]
  exact (readsItem_arrayOf hsize hcount hreads).decodeWith hlength

theorem decodesRecord_open (hsize : size < 2 ^ 53)
    (h : ∀ cbor, fromCbor cbor = decodeWith cbor (readOpenArray size (read cbor))) :
    DecodesRecord fromCbor size read := by
  intro content value _ hlength hreads
  rw [h]
  apply decodeWith_array hsize hlength
  rwa [if_neg (not_not.mpr rfl)]

theorem record_survives (hread : DecodesRecord fromCbor size read) (hsize : size < 2 ^ 64)
    (h : ∀ cbor, KeptItems write (read cbor) size holds) :
    ∃ content cbor value, cbor = encodeHead .array size ++ content ∧ Encodes write content ∧
      Items size content ∧
      encodeAsHex (writing (writeStartArray (some size)) >>= fun _ => write) = .ok cbor ∧
      (cbor.length < 2 ^ 53 → fromCbor cbor = .ok value ∧ holds value) := by
  obtain ⟨content, _, hencodes, hitems, -⟩ := h []
  obtain ⟨content', value, hencodes', -, hfields⟩ := h (encodeHead .array size ++ content)
  obtain rfl := hencodes.unique hencodes'
  refine ⟨content, _, value, rfl, hencodes, hitems, ?_, fun hlength => ?_⟩
  · exact encodeAsHex_ok (Encodes.write (writes_startArray hsize) hencodes)
  · have hcontent := hlength
    rw [List.length_append] at hcontent
    obtain ⟨hreads, hholds⟩ := hfields (by omega)
    exact ⟨hread content value hitems.le_length hlength hreads, hholds⟩

end Record

section Codec

variable {Core Object : Type} {codec : Codec Core Object} {same : Core → Core → Prop} {core : Core}
  {object : Object} {size : ℕ} {write : EncodeM Unit} {read : List UInt8 → DecodeM Object}

theorem Codec.roundTrips_array (hmade : codec.fromCore core = .ok object)
    (hwritten : codec.toCbor object =
      encodeAsHex (writing (writeStartArray (some size)) >>= fun _ => write))
    (hread : DecodesRecord codec.fromCbor size read) (hsize : size < 2 ^ 64)
    (h : ∀ cbor, KeptItems write (read cbor) size fun decoded => codec.Restores same decoded core) :
    codec.RoundTrips same core := by
  obtain ⟨content, cbor, decoded, rfl, -, hitems, hcbor, hdecoded⟩ := record_survives hread hsize h
  refine ⟨object, _, hmade, hwritten.trans hcbor, dataItem_fixedArray hsize hitems, fun hlength => ?_⟩
  obtain ⟨hdecodes, core', hcore, hsame⟩ := hdecoded hlength
  exact ⟨decoded, core', hdecodes, hcore, hsame⟩

theorem Codec.roundTrips_record (hmade : codec.fromCore core = .ok object)
    (hwritten : codec.toCbor object =
      encodeAsHex (writing (writeStartArray (some size)) >>= fun _ => write))
    (hread : ∀ cbor, codec.fromCbor cbor = decodeWith cbor (readFixedArray size (read cbor)))
    (hsize : size < 2 ^ 53)
    (h : ∀ cbor, KeptItems write (read cbor) size fun decoded => codec.Restores same decoded core) :
    codec.RoundTrips same core :=
  Codec.roundTrips_array hmade hwritten
    (@decodesRecord_arrayOf _ _ _ _ (unexpectedLength size) hsize hread) (by omega) h

end Codec

end CardanoSdk.Serialization
