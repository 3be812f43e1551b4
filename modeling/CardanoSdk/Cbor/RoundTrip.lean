import CardanoSdk.Cbor.SkipValue
import CardanoSdk.Cbor.Writer

/-!
What a `CborWriter` writes, a `CborReader` reads back: trees are written by the calls that
their shape asks for and read by a decoder that is driven by `peekState` alone.
-/

namespace CardanoSdk.Cbor

open Lib

inductive CborTree where
  | integer (value : ℤ)
  | bytes (value : List UInt8)
  | text (value : String)
  | array (definite : Bool) (items : List CborTree)
  | map (definite : Bool) (entries : List (CborTree × CborTree))
  | tag (number : ℕ) (value : CborTree)
  | boolean (value : Bool)
  | null

mutual

/-- Integers fit in 64 bits and a sign; tags are numbers that a double holds. -/
def CborTree.Valid : CborTree → Prop
  | .integer value => -(2 ^ 64) ≤ value ∧ value < 2 ^ 64
  | .bytes _ => True
  | .text _ => True
  | .array _ items => AllValid items
  | .map _ entries => EntriesValid entries
  | .tag number value => number < 2 ^ 64 ∧ roundToDouble number = number ∧ value.Valid
  | .boolean _ => True
  | .null => True

def AllValid : List CborTree → Prop
  | [] => True
  | item :: items => item.Valid ∧ AllValid items

def EntriesValid : List (CborTree × CborTree) → Prop
  | [] => True
  | (key, value) :: entries => key.Valid ∧ value.Valid ∧ EntriesValid entries

end

mutual

def writeTree : CborTree → WriteM Unit
  | .integer value => writeInt value
  | .bytes value => writeByteString value
  | .text value => writeTextString value
  | .array definite items => do
      writeStartArray (if definite then some items.length else none)
      writeItems items
      if definite then pure () else writeEndArray
  | .map definite entries => do
      writeStartMap (if definite then some entries.length else none)
      writeEntries entries
      if definite then pure () else writeEndMap
  | .tag number value => do
      writeTag number
      writeTree value
  | .boolean value => writeBoolean value
  | .null => writeNull

def writeItems : List CborTree → WriteM Unit
  | [] => pure ()
  | item :: items => do
      writeTree item
      writeItems items

def writeEntries : List (CborTree × CborTree) → WriteM Unit
  | [] => pure ()
  | (key, value) :: entries => do
      writeTree key
      writeTree value
      writeEntries entries

end

mutual

/-- The states that `peekState` should announce, one before each read. -/
def CborTree.tokens : CborTree → List CborReaderState
  | .integer value => [if value < 0 then .negativeInteger else .unsignedInteger]
  | .bytes _ => [.byteString]
  | .text _ => [.textString]
  | .array _ items => .startArray :: (tokensOfItems items ++ [.endArray])
  | .map _ entries => .startMap :: (tokensOfEntries entries ++ [.endMap])
  | .tag _ value => .tag :: value.tokens
  | .boolean _ => [.boolean]
  | .null => [.null]

def tokensOfItems : List CborTree → List CborReaderState
  | [] => []
  | item :: items => item.tokens ++ tokensOfItems items

def tokensOfEntries : List (CborTree × CborTree) → List CborReaderState
  | [] => []
  | (key, value) :: entries => key.tokens ++ (value.tokens ++ tokensOfEntries entries)

end

abbrev Logged (α : Type) := α × List CborReaderState

mutual

def readValue : ℕ → CborReaderState → ReadM (Logged CborTree)
  | 0, _ => throw .outOfFuel
  | fuel + 1, state =>
    match state with
    | .unsignedInteger => do
        let value ← readInt
        pure (.integer value, [state])
    | .negativeInteger => do
        let value ← readInt
        pure (.integer value, [state])
    | .byteString => do
        let value ← readByteString
        pure (.bytes value, [state])
    | .textString => do
        let value ← readTextString
        pure (.text value, [state])
    | .startArray => do
        let length ← readStartArray
        let (items, log) ← readItems fuel
        readEndArray
        pure (.array length.isSome items, state :: log)
    | .startMap => do
        let length ← readStartMap
        let (entries, log) ← readEntries fuel
        readEndMap
        pure (.map length.isSome entries, state :: log)
    | .tag => do
        let number ← readTag
        let next ← peekState
        let (value, log) ← readValue fuel next
        pure (.tag number value, state :: log)
    | .boolean => do
        let value ← readBoolean
        pure (.boolean value, [state])
    | .null => do
        readNull
        pure (.null, [state])
    | _ => throw (.invalidOperation "Unexpected token")

def readItems : ℕ → ReadM (Logged (List CborTree))
  | 0 => throw .outOfFuel
  | fuel + 1 => do
      let state ← peekState
      if state = .endArray then pure ([], [state])
      else
        let (item, log) ← readValue fuel state
        let (items, log') ← readItems fuel
        pure (item :: items, log ++ log')

def readEntries : ℕ → ReadM (Logged (List (CborTree × CborTree)))
  | 0 => throw .outOfFuel
  | fuel + 1 => do
      let state ← peekState
      if state = .endMap then pure ([], [state])
      else
        let (key, log) ← readValue fuel state
        let state' ← peekState
        let (value, log') ← readValue fuel state'
        let (entries, log'') ← readEntries fuel
        pure ((key, value) :: entries, log ++ (log' ++ log''))

end

def readTree (fuel : ℕ) : ReadM (Logged CborTree) := do
  let state ← peekState
  readValue fuel state

mutual

def CborTree.encode : CborTree → List UInt8
  | .integer value => encodeInt value
  | .bytes value => encodeHead .byteString value.length ++ value
  | .text value => encodeHead .utf8String (utf8Encode value).length ++ utf8Encode value
  | .array true items => encodeHead .array items.length ++ encodeItems items
  | .array false items => initialByte 4 31 :: (encodeItems items ++ [breakByte])
  | .map true entries => encodeHead .map entries.length ++ encodeEntries entries
  | .map false entries => initialByte 5 31 :: (encodeEntries entries ++ [breakByte])
  | .tag number value => encodeHead .tag number ++ value.encode
  | .boolean value => [initialByte 7 (if value then 21 else 20)]
  | .null => [initialByte 7 22]

def encodeItems : List CborTree → List UInt8
  | [] => []
  | item :: items => item.encode ++ encodeItems items

def encodeEntries : List (CborTree × CborTree) → List UInt8
  | [] => []
  | (key, value) :: entries => key.encode ++ (value.encode ++ encodeEntries entries)

end

theorem encodeHead_length_pos (type : CborMajorType) (value : ℕ) :
    0 < (encodeHead type value).length := by
  unfold encodeHead
  repeat' split
  all_goals simp

theorem CborTree.encode_length_pos (tree : CborTree) : 0 < tree.encode.length := by
  have hhead := encodeHead_length_pos
  cases tree with
  | integer value =>
    rw [CborTree.encode, encodeInt]
    split <;> exact hhead _ _
  | bytes value =>
    have := hhead .byteString value.length
    rw [CborTree.encode, List.length_append]
    omega
  | text value =>
    have := hhead .utf8String (utf8Encode value).length
    rw [CborTree.encode, List.length_append]
    omega
  | array definite items =>
    have := hhead .array items.length
    cases definite
    · simp [CborTree.encode]
    · rw [CborTree.encode, List.length_append]
      omega
  | map definite entries =>
    have := hhead .map entries.length
    cases definite
    · simp [CborTree.encode]
    · rw [CborTree.encode, List.length_append]
      omega
  | tag number value =>
    have := hhead .tag number
    rw [CborTree.encode, List.length_append]
    omega
  | boolean value => simp [CborTree.encode]
  | null => simp [CborTree.encode]

theorem length_le_encodeItems (items : List CborTree) :
    items.length ≤ (encodeItems items).length := by
  induction items with
  | nil => exact Nat.zero_le _
  | cons item items ih =>
    have := item.encode_length_pos
    rw [encodeItems, List.length_append, List.length_cons]
    omega

theorem length_le_encodeEntries (entries : List (CborTree × CborTree)) :
    2 * entries.length ≤ (encodeEntries entries).length := by
  induction entries with
  | nil => exact Nat.zero_le _
  | cons entry entries ih =>
    have hkey := entry.1.encode_length_pos
    have hvalue := entry.2.encode_length_pos
    rw [encodeEntries, List.length_append, List.length_append, List.length_cons]
    omega

theorem writes_break : Writes writeEndArray [breakByte] :=
  @writes_pushUInt 1 255 (by decide)

variable {items : List CborTree} {entries : List (CborTree × CborTree)}

theorem writes_array (definite : Bool) (hlength : items.length < 2 ^ 64)
    (hitems : Writes (writeItems items) (encodeItems items)) :
    Writes (writeTree (.array definite items)) (CborTree.array definite items).encode := by
  rw [writeTree]
  cases definite with
  | true =>
    have hend := hitems.bind Writes.pure
    rw [List.append_nil] at hend
    exact (writes_typeValue .array hlength).bind hend
  | false =>
    exact (show Writes (writeStartArray none) [initialByte 4 31] from
      @writes_pushUInt 1 0x9f (by decide)).bind (hitems.bind writes_break)

theorem writes_map (definite : Bool) (hlength : entries.length < 2 ^ 64)
    (hentries : Writes (writeEntries entries) (encodeEntries entries)) :
    Writes (writeTree (.map definite entries)) (CborTree.map definite entries).encode := by
  rw [writeTree]
  cases definite with
  | true =>
    have hend := hentries.bind Writes.pure
    rw [List.append_nil] at hend
    exact (writes_typeValue .map hlength).bind hend
  | false =>
    exact (show Writes (writeStartMap none) [initialByte 5 31] from
      @writes_pushUInt 1 0xbf (by decide)).bind (hentries.bind writes_break)

theorem content_le_encode_array (definite : Bool) (items : List CborTree) :
    (encodeItems items).length ≤ (CborTree.array definite items).encode.length := by
  cases definite <;> simp [CborTree.encode]
  omega

theorem content_le_encode_map (definite : Bool) (entries : List (CborTree × CborTree)) :
    (encodeEntries entries).length ≤ (CborTree.map definite entries).encode.length := by
  cases definite <;> simp [CborTree.encode]
  omega

mutual

theorem writes_tree : (tree : CborTree) → tree.Valid → tree.encode.length < 2 ^ 53 →
    Writes (writeTree tree) tree.encode
  | .integer value, hvalid, _ => by
    rw [CborTree.Valid] at hvalid
    rw [writeTree]
    exact writes_int hvalid.1 hvalid.2
  | .bytes value, _, hfits => by
    rw [CborTree.encode, List.length_append] at hfits
    rw [writeTree]
    exact writes_byteString (by omega)
  | .text value, _, hfits => by
    rw [CborTree.encode, List.length_append] at hfits
    rw [writeTree]
    exact writes_textString (by omega)
  | .array definite items, hvalid, hfits => by
    have hcontent := content_le_encode_array definite items
    have hlength := length_le_encodeItems items
    rw [CborTree.Valid] at hvalid
    exact writes_array definite (by omega) (writes_items items hvalid (by omega))
  | .map definite entries, hvalid, hfits => by
    have hcontent := content_le_encode_map definite entries
    have hlength := length_le_encodeEntries entries
    rw [CborTree.Valid] at hvalid
    exact writes_map definite (by omega) (writes_entries entries hvalid (by omega))
  | .tag number value, hvalid, hfits => by
    rw [CborTree.Valid] at hvalid
    rw [CborTree.encode, List.length_append] at hfits
    rw [writeTree]
    exact (writes_typeValue .tag hvalid.1).bind (writes_tree value hvalid.2.2 (by omega))
  | .boolean value, _, _ => by
    rw [writeTree]
    cases value
    · exact @writes_pushUInt 1 0xf4 (by decide)
    · exact @writes_pushUInt 1 0xf5 (by decide)
  | .null, _, _ => by
    rw [writeTree]
    exact @writes_pushUInt 1 0xf6 (by decide)

theorem writes_items : (items : List CborTree) → AllValid items →
    (encodeItems items).length < 2 ^ 53 → Writes (writeItems items) (encodeItems items)
  | [], _, _ => by
    rw [writeItems]
    exact Writes.pure
  | item :: items, hvalid, hfits => by
    rw [AllValid] at hvalid
    rw [encodeItems, List.length_append] at hfits
    rw [writeItems]
    exact (writes_tree item hvalid.1 (by omega)).bind (writes_items items hvalid.2 (by omega))

theorem writes_entries : (entries : List (CborTree × CborTree)) → EntriesValid entries →
    (encodeEntries entries).length < 2 ^ 53 → Writes (writeEntries entries) (encodeEntries entries)
  | [], _, _ => by
    rw [writeEntries]
    exact Writes.pure
  | (key, value) :: entries, hvalid, hfits => by
    rw [EntriesValid] at hvalid
    rw [encodeEntries, List.length_append, List.length_append] at hfits
    rw [writeEntries]
    exact (writes_tree key hvalid.1 (by omega)).bind
      ((writes_tree value hvalid.2.1 (by omega)).bind
        (writes_entries entries hvalid.2.2 (by omega)))

end

def CborTree.token : CborTree → CborReaderState
  | .integer value => if value < 0 then .negativeInteger else .unsignedInteger
  | .bytes _ => .byteString
  | .text _ => .textString
  | .array _ _ => .startArray
  | .map _ _ => .startMap
  | .tag _ _ => .tag
  | .boolean _ => .boolean
  | .null => .null

/-- Where the tree stands next, it is announced and read. -/
def ReadsBack (tree : CborTree) : Prop :=
  ∀ (fuel : ℕ) (reader : CborReader) (rest : List UInt8), 2 * tree.encode.length ≤ fuel →
    reader.getRemainingBytes = tree.encode ++ rest →
    (∀ first, reader.currentFrame.Accepts first) →
    peekStateCore reader = .ok tree.token ∧
      readValue fuel tree.token (reader.cached tree.token) =
        .ok (tree, tree.tokens) (reader.pass 1 tree.encode.length)

def ItemsReadBack (items : List CborTree) : Prop :=
  ∀ (fuel : ℕ) (reader : CborReader) (rest : List UInt8), 2 * (encodeItems items).length < fuel →
    reader.getRemainingBytes = encodeItems items ++ rest → HasRoom reader items.length →
    peekStateCore (reader.pass items.length (encodeItems items).length) = .ok .endArray →
    readItems fuel reader = .ok (items, tokensOfItems items ++ [.endArray])
      ((reader.pass items.length (encodeItems items).length).cached .endArray)

def EntriesReadBack (entries : List (CborTree × CborTree)) : Prop :=
  ∀ (fuel : ℕ) (reader : CborReader) (rest : List UInt8),
    2 * (encodeEntries entries).length < fuel →
    reader.getRemainingBytes = encodeEntries entries ++ rest →
    HasRoom reader (2 * entries.length) →
    peekStateCore (reader.pass (2 * entries.length) (encodeEntries entries).length) = .ok .endMap →
    readEntries fuel reader = .ok (entries, tokensOfEntries entries ++ [.endMap])
      ((reader.pass (2 * entries.length) (encodeEntries entries).length).cached .endMap)

section Heads

variable {reader : CborReader} {argument : ℕ} {head rest : List UInt8}

theorem peekStateCore_head (type : CborMajorType) (hhead : Head type.toNat argument head)
    (hbytes : reader.getRemainingBytes = head ++ rest)
    (haccepts : ∀ first, reader.currentFrame.Accepts first) :
    ∃ first, getMajorType first = type ∧ getAdditionalInfo first ≠ indefiniteLength ∧
      peekStateCore reader = .ok (peekItem first) := by
  obtain ⟨first, payload, rfl, hmajor, hinfo, hbreak, _⟩ := head_first hhead
  exact ⟨first, hmajor, hinfo, peekStateCore_item hbytes hbreak (haccepts first)⟩

end Heads

theorem readInt_encodeInt {reader : CborReader} {value : ℤ} {rest : List UInt8}
    (hlower : -(2 ^ 64) ≤ value) (hupper : value < 2 ^ 64)
    (hbytes : reader.getRemainingBytes = encodeInt value ++ rest)
    (haccepts : ∀ first, reader.currentFrame.Accepts first) :
    peekStateCore reader = .ok (CborTree.integer value).token ∧
      readInt reader = .ok value (reader.pass 1 (encodeInt value).length) := by
  rw [encodeInt] at hbytes ⊢
  rw [CborTree.token]
  split at hbytes
  · rename_i hnegative
    have hhead := head_encodeHead .negativeInteger (show (-(value + 1)).toNat < 2 ^ 64 by omega)
    obtain ⟨first, hmajor, _, hpeek⟩ := peekStateCore_head .negativeInteger hhead hbytes haccepts
    have hread := readInt_negative_ok hhead hbytes (fun first _ => haccepts first)
    have hvalue : -1 - ((-(value + 1)).toNat : ℤ) = value := by omega
    rw [hvalue] at hread
    rw [if_pos hnegative, if_pos hnegative]
    exact ⟨by rw [hpeek, peekItem, hmajor], hread⟩
  · rename_i hnonneg
    have hhead := head_encodeHead .unsignedInteger (show value.toNat < 2 ^ 64 by omega)
    obtain ⟨first, hmajor, _, hpeek⟩ := peekStateCore_head .unsignedInteger hhead hbytes haccepts
    have hread := readInt_unsigned_ok hhead hbytes (fun first _ => haccepts first)
    have hvalue : (value.toNat : ℤ) = value := by omega
    rw [hvalue] at hread
    rw [if_neg hnonneg, if_neg hnonneg]
    exact ⟨by rw [hpeek, peekItem, hmajor], hread⟩

theorem readsBack_integer {value : ℤ} (hlower : -(2 ^ 64) ≤ value) (hupper : value < 2 ^ 64) :
    ReadsBack (.integer value) := by
  intro fuel reader rest hfuel hbytes haccepts
  have hpos := (CborTree.integer value).encode_length_pos
  obtain ⟨fuel, rfl⟩ : ∃ n, fuel = n + 1 := ⟨fuel - 1, by omega⟩
  rw [CborTree.encode] at hbytes ⊢
  obtain ⟨hpeek, _⟩ := readInt_encodeInt hlower hupper hbytes haccepts
  obtain ⟨_, hread⟩ := @readInt_encodeInt (reader.cached (CborTree.integer value).token) value rest
    hlower hupper hbytes haccepts
  refine ⟨hpeek, ?_⟩
  rw [CborTree.tokens]
  rw [CborTree.token] at hread ⊢
  split
  · rename_i hnegative
    rw [if_pos hnegative] at hread
    exact run_bind_ok hread
  · rename_i hnonneg
    rw [if_neg hnonneg] at hread
    exact run_bind_ok hread

theorem readsBack_bytes (value : List UInt8) : ReadsBack (.bytes value) := by
  intro fuel reader rest hfuel hbytes haccepts
  have hpos := (CborTree.bytes value).encode_length_pos
  obtain ⟨fuel, rfl⟩ : ∃ n, fuel = n + 1 := ⟨fuel - 1, by omega⟩
  have hlt := reader.getRemainingBytes_lt
  rw [CborTree.encode] at hbytes ⊢
  rw [hbytes, List.length_append, List.length_append] at hlt
  have hhead := head_encodeHead .byteString (show value.length < 2 ^ 64 by omega)
  obtain ⟨first, hmajor, hinfo, hpeek⟩ := peekStateCore_head .byteString hhead
    (by rw [hbytes, List.append_assoc]) haccepts
  have hread := @readString_ok (reader.cached .byteString) _ _ .byteString value hhead hbytes
    (fun first _ => haccepts first)
  refine ⟨?_, ?_⟩
  · rw [hpeek, peekItem, hmajor]
    simp only [if_neg hinfo, CborTree.token]
  · rw [CborTree.token, readValue, CborTree.tokens]
    exact run_bind_ok hread

theorem readsBack_text (value : String) : ReadsBack (.text value) := by
  intro fuel reader rest hfuel hbytes haccepts
  have hpos := (CborTree.text value).encode_length_pos
  obtain ⟨fuel, rfl⟩ : ∃ n, fuel = n + 1 := ⟨fuel - 1, by omega⟩
  have hlt := reader.getRemainingBytes_lt
  rw [CborTree.encode] at hbytes ⊢
  rw [hbytes, List.length_append, List.length_append] at hlt
  have hhead := head_encodeHead .utf8String (show (utf8Encode value).length < 2 ^ 64 by omega)
  obtain ⟨first, hmajor, hinfo, hpeek⟩ := peekStateCore_head .utf8String hhead
    (by rw [hbytes, List.append_assoc]) haccepts
  have hread := @readString_ok (reader.cached .textString) _ _ .utf8String (utf8Encode value) hhead
    hbytes (fun first _ => haccepts first)
  refine ⟨?_, ?_⟩
  · rw [hpeek, peekItem, hmajor]
    simp only [if_neg hinfo, CborTree.token]
  · have htext : readTextString (reader.cached .textString) =
        .ok (utf8Decode (utf8Encode value)) (reader.pass 1 _) := run_bind_ok hread
    rw [utf8Decode_utf8Encode] at htext
    rw [CborTree.token, readValue, CborTree.tokens]
    exact run_bind_ok htext

theorem readsBack_boolean (value : Bool) : ReadsBack (.boolean value) := by
  intro fuel reader rest hfuel hbytes haccepts
  have hpos := (CborTree.boolean value).encode_length_pos
  obtain ⟨fuel, rfl⟩ : ∃ n, fuel = n + 1 := ⟨fuel - 1, by omega⟩
  have hread := @readBoolean_ok (reader.cached .boolean) rest value hbytes (haccepts _)
  refine ⟨?_, ?_⟩
  · rw [peekStateCore_item hbytes (by cases value <;> decide) (haccepts _)]
    cases value <;> decide
  · rw [CborTree.token, readValue, CborTree.tokens]
    exact run_bind_ok hread

theorem readsBack_null : ReadsBack .null := by
  intro fuel reader rest hfuel hbytes haccepts
  have hpos := CborTree.null.encode_length_pos
  obtain ⟨fuel, rfl⟩ : ∃ n, fuel = n + 1 := ⟨fuel - 1, by omega⟩
  have hread := @readNull_ok (reader.cached .null) rest hbytes (haccepts _)
  refine ⟨?_, ?_⟩
  · rw [peekStateCore_item hbytes (by decide) (haccepts _)]
    decide
  · rw [CborTree.token, readValue, CborTree.tokens]
    exact run_bind_ok hread

theorem CborTree.token_ne_end (tree : CborTree) :
    tree.token ≠ .endArray ∧ tree.token ≠ .endMap := by
  cases tree with
  | integer value =>
    rw [CborTree.token]
    split <;> decide
  | _ => simp [CborTree.token]

theorem readsBack_tag {number : ℕ} {value : CborTree} (hnumber : number < 2 ^ 64)
    (hdouble : roundToDouble number = number) (hvalue : ReadsBack value) :
    ReadsBack (.tag number value) := by
  intro fuel reader rest hfuel hbytes haccepts
  have hheadPos := encodeHead_length_pos .tag number
  have hvaluePos := value.encode_length_pos
  rw [CborTree.encode] at hfuel hbytes ⊢
  rw [List.length_append] at hfuel
  obtain ⟨fuel, rfl⟩ : ∃ n, fuel = n + 1 := ⟨fuel - 1, by omega⟩
  rw [List.append_assoc] at hbytes
  have hhead := head_encodeHead .tag hnumber
  obtain ⟨first, hmajor, hinfo, hpeek⟩ := peekStateCore_head .tag hhead hbytes haccepts
  have hread := @readTag_ok (reader.cached .tag) _ _ _ hhead hbytes (fun first _ => haccepts first)
  rw [hdouble] at hread
  have hinner : (reader.tagged (encodeHead .tag number).length).getRemainingBytes =
      value.encode ++ rest := by
    rw [CborReader.getRemainingBytes_tagged, hbytes, List.drop_left]
  obtain ⟨hnext, hrest⟩ := hvalue fuel _ rest (by omega) hinner haccepts
  refine ⟨?_, ?_⟩
  · rw [hpeek, peekItem, hmajor]
    rfl
  · rw [CborTree.token, readValue, CborTree.tokens, run_bind_ok hread]
    have hstate := peekState_ok hnext (Or.inl rfl)
    rw [CborReader.tagged_pass, ← List.length_append] at hrest
    exact (run_bind_ok hstate).trans (run_bind_ok hrest)

theorem itemsReadBack_nil : ItemsReadBack [] := by
  intro fuel reader rest hfuel hbytes hroom hend
  obtain ⟨fuel, rfl⟩ : ∃ n, fuel = n + 1 := ⟨fuel - 1, by omega⟩
  rw [encodeItems, List.length_nil, List.length_nil, hroom.fresh] at hend ⊢
  rw [readItems, run_bind_ok (peekState_ok hend (Or.inl hroom.cachedState)), if_pos rfl]
  rfl

theorem ReadsBack.next {tree : CborTree} {fuel items : ℕ} {reader : CborReader}
    {rest : List UInt8} (htree : ReadsBack tree) (hfuel : 2 * tree.encode.length ≤ fuel)
    (hbytes : reader.getRemainingBytes = tree.encode ++ rest)
    (hroom : HasRoom reader (items + 1)) :
    peekState reader = .ok tree.token (reader.cached tree.token) ∧
      readValue fuel tree.token (reader.cached tree.token) =
        .ok (tree, tree.tokens) (reader.pass 1 tree.encode.length) ∧
      (reader.pass 1 tree.encode.length).getRemainingBytes = rest := by
  obtain ⟨hpeek, hread⟩ := htree fuel reader rest hfuel hbytes hroom.accepts
  refine ⟨peekState_ok hpeek (Or.inl hroom.cachedState), hread, ?_⟩
  rw [CborReader.getRemainingBytes_pass, hbytes, List.drop_left]

theorem itemsReadBack_cons {item : CborTree} (hitem : ReadsBack item)
    (hitems : ItemsReadBack items) : ItemsReadBack (item :: items) := by
  intro fuel reader rest hfuel hbytes hroom hend
  have hpos := item.encode_length_pos
  rw [encodeItems] at hfuel hbytes hend ⊢
  rw [List.length_append] at hfuel
  rw [List.length_append, List.length_cons, Nat.add_comm items.length, ← CborReader.pass_pass]
    at hend ⊢
  obtain ⟨fuel, rfl⟩ : ∃ n, fuel = n + 1 := ⟨fuel - 1, by omega⟩
  rw [List.append_assoc] at hbytes
  obtain ⟨hpeek, hread, hbytes'⟩ :=
    hitem.next (show 2 * item.encode.length ≤ fuel by omega) hbytes hroom
  have hrest := hitems fuel _ rest (by omega) hbytes' (hroom.next _) hend
  rw [readItems, run_bind_ok hpeek, if_neg item.token_ne_end.1, run_bind_ok hread]
  dsimp only
  rw [run_bind_ok hrest, tokensOfItems, List.append_assoc]
  rfl

theorem entriesReadBack_nil : EntriesReadBack [] := by
  intro fuel reader rest hfuel hbytes hroom hend
  obtain ⟨fuel, rfl⟩ : ∃ n, fuel = n + 1 := ⟨fuel - 1, by omega⟩
  rw [encodeEntries, List.length_nil, List.length_nil, Nat.mul_zero, hroom.fresh] at hend ⊢
  rw [readEntries, run_bind_ok (peekState_ok hend (Or.inl hroom.cachedState)), if_pos rfl]
  rfl

theorem entriesReadBack_cons {key value : CborTree} (hkey : ReadsBack key)
    (hvalue : ReadsBack value) (hentries : EntriesReadBack entries) :
    EntriesReadBack ((key, value) :: entries) := by
  intro fuel reader rest hfuel hbytes hroom hend
  have hkeyPos := key.encode_length_pos
  have hvaluePos := value.encode_length_pos
  rw [encodeEntries] at hfuel hbytes hend ⊢
  rw [List.length_append, List.length_append] at hfuel
  have hcount : 2 * ((key, value) :: entries).length = 1 + (1 + 2 * entries.length) := by
    rw [List.length_cons]
    omega
  rw [hcount, List.length_append, List.length_append, ← CborReader.pass_pass,
    ← CborReader.pass_pass] at hend ⊢
  obtain ⟨fuel, rfl⟩ : ∃ n, fuel = n + 1 := ⟨fuel - 1, by omega⟩
  rw [List.append_assoc, List.append_assoc] at hbytes
  have hroomKey : HasRoom reader (2 * entries.length + 1 + 1) := hroom
  obtain ⟨hpeek, hread, hbytes'⟩ :=
    hkey.next (show 2 * key.encode.length ≤ fuel by omega) hbytes hroomKey
  obtain ⟨hpeek', hread', hbytes''⟩ :=
    hvalue.next (show 2 * value.encode.length ≤ fuel by omega) hbytes' (hroomKey.next _)
  have hrest := hentries fuel _ rest (by omega) hbytes'' ((hroomKey.next _).next _) hend
  rw [readEntries, run_bind_ok hpeek, if_neg key.token_ne_end.2, run_bind_ok hread]
  dsimp only
  rw [run_bind_ok hpeek', run_bind_ok hread']
  dsimp only
  rw [run_bind_ok hrest, tokensOfEntries, List.append_assoc, List.append_assoc]
  rfl

section Frames

variable {reader : CborReader}

theorem atEnd_filled (reader : CborReader) (header items bytes : ℕ) (type : CborMajorType) :
    AtEnd ((reader.enter header type (some items)).pass items bytes) type reader.currentFrame
      reader.nestedItems :=
  ⟨rfl, by simp [CborReader.enter, CborReader.pass], rfl, rfl⟩

theorem atBreak_filled {content rest : List UInt8} (type : CborMajorType) (items : ℕ)
    (hbytes : reader.getRemainingBytes =
      initialByte type.toNat 31 :: (content ++ [breakByte]) ++ rest) :
    AtBreak ((reader.enter 1 type none).pass items content.length) type reader.currentFrame
      reader.nestedItems rest := by
  refine ⟨?_, rfl, rfl, rfl, rfl⟩
  rw [CborReader.getRemainingBytes_pass, CborReader.getRemainingBytes_enter, hbytes]
  simp [breakByte, indefiniteLengthBreakByte]

theorem leave_filled (reader : CborReader) (type : CborMajorType) (items : ℕ)
    (head content : List UInt8) :
    ((reader.enter head.length type (some items)).pass items content.length).leave 0
      reader.currentFrame reader.nestedItems = reader.pass 1 (head ++ content).length := by
  rw [CborReader.enter_pass_leave, Nat.add_zero, List.length_append]

theorem leave_filled_break (reader : CborReader) (type : CborMajorType) (items : ℕ) (first : UInt8)
    (content : List UInt8) :
    ((reader.enter 1 type none).pass items content.length).leave 1 reader.currentFrame
      reader.nestedItems = reader.pass 1 (first :: (content ++ [breakByte])).length := by
  rw [CborReader.enter_pass_leave]
  congr 1
  simp
  omega

inductive ContainerCalls (count : ℕ) :
    CborMajorType → ℕ → ReadM (Option ℕ) → ReadM Unit → Prop
  | array : ContainerCalls count .array count readStartArray readEndArray
  | map : ContainerCalls count .map (2 * count) readStartMap readEndMap

/-- A container is entered and, behind its content, left, whatever token was noted. -/
structure Visits (reader : CborReader) (start : ReadM (Option ℕ)) (finish : ReadM Unit)
    (type : CborMajorType) (items : ℕ) (content : List UInt8) (declared : Option ℕ)
    (bytes : List UInt8) (entered : CborReader) : Prop where
  announced : peekStateCore reader = .ok type.opening
  start : ∀ state, start (reader.cached state) = .ok declared entered
  inner : ∃ tail, entered.getRemainingBytes = content ++ tail
  room : HasRoom entered items
  closes : peekStateCore (entered.pass items content.length) = .ok type.closing
  finish : ∀ state, finish ((entered.pass items content.length).cached state) =
    .ok () (reader.pass 1 bytes.length)

variable {start : ReadM (Option ℕ)} {finish : ReadM Unit} {type : CborMajorType}
  {count items : ℕ} {content bytes rest : List UInt8} {declared : Option ℕ} {entered : CborReader}

theorem Visits.enters (h : Visits reader start finish type items content declared bytes entered) :
    start reader = .ok declared entered := h.start reader.cachedState

theorem framed_visited
    (hcalls : ContainerCalls count type items start finish)
    (hframed : Framed type.toNat count content declared bytes) (henough : items ≤ content.length)
    (hbytes : reader.getRemainingBytes = bytes ++ rest)
    (haccepts : ∀ first, reader.currentFrame.Accepts first) :
    ∃ entered, Visits reader start finish type items content declared bytes entered := by
  have htype : type = .array ∨ type = .map := by cases hcalls <;> simp
  have hlt := reader.getRemainingBytes_lt
  rw [hbytes, List.length_append] at hlt
  have hcontent := hframed.content_lt
  cases hframed with
  | @definite head hhead =>
    rw [List.append_assoc] at hbytes
    have hbehind : items ≤ (content ++ rest).length := by
      rw [List.length_append]
      omega
    have hitems : type = .array ∧ items = count ∨ type = .map ∧ items = 2 * count := by
      cases hcalls <;> simp
    have hstart (state : CborReaderState) : start (reader.cached state) =
        .ok (some count) (reader.enter head.length type (some items)) := by
      cases hcalls with
      | array =>
        have hread := @readStartArray_ok (reader.cached state) _ _ _ hhead hbytes
          (fun first _ => haccepts first)
        rwa [roundToDouble_of_lt (by omega)] at hread
      | map =>
        exact @readStartMap_ok (reader.cached state) _ _ _ hhead hbytes hbehind
          (fun first _ => haccepts first)
    have hend := atEnd_filled reader head.length items content.length type
    have hfinish (state : CborReaderState) :
        finish (((reader.enter head.length type (some items)).pass items content.length).cached
          state) = .ok () (reader.pass 1 (head ++ content).length) := by
      rw [← leave_filled reader type items]
      cases hcalls with
      | array => exact (hend.cached state).readEndArray
      | map => exact (hend.cached state).readEndMap
    refine ⟨_, (opens_definite hitems hhead hbytes hbehind (fun first _ => haccepts first)).1, hstart,
      ⟨rest, ?_⟩, hasRoom_enter htype _ _ (Or.inr rfl), (hend.closes htype).1, hfinish⟩
    rw [CborReader.getRemainingBytes_enter, hbytes, List.drop_left]
  | indefinite =>
    have hstart (state : CborReaderState) : start (reader.cached state) =
        .ok none (reader.enter 1 type none) := by
      cases hcalls with
      | array => exact @readStartArray_indefinite_ok (reader.cached state) _ hbytes (haccepts _)
      | map => exact @readStartMap_indefinite_ok (reader.cached state) _ hbytes (haccepts _)
    have hend := atBreak_filled type items hbytes
    have heven : type = .map → ((reader.enter 1 type none).pass items
        content.length).currentFrame.itemsRead % 2 = 0 := by
      rintro rfl
      cases hcalls
      simp [CborReader.enter, CborReader.pass]
    have hfinish (state : CborReaderState) :
        finish (((reader.enter 1 type none).pass items content.length).cached state) =
          .ok () (reader.pass 1 (initialByte type.toNat 31 :: (content ++ [breakByte])).length) := by
      rw [← leave_filled_break reader type items]
      cases hcalls with
      | array => exact (hend.cached state).readEndArray
      | map => exact (hend.cached state).readEndMap (heven rfl)
    have hkind : type = .byteString ∨ type = .utf8String ∨ type = .array ∨ type = .map := by tauto
    refine ⟨_, (opens_indefinite hkind hbytes (haccepts _)).1, hstart, ⟨breakByte :: rest, ?_⟩,
      hasRoom_enter htype _ _ (Or.inl rfl), (hend.closes hkind heven).1, hfinish⟩
    rw [CborReader.getRemainingBytes_enter, hbytes]
    simp

end Frames

theorem readsBack_array (definite : Bool) (hitems : ItemsReadBack items) :
    ReadsBack (.array definite items) := by
  intro fuel reader rest hfuel hbytes haccepts
  have hcount := length_le_encodeItems items
  have hlt := reader.getRemainingBytes_lt
  obtain ⟨declared, hframed, rfl⟩ : ∃ declared, Framed 4 items.length (encodeItems items) declared
      (CborTree.array definite items).encode ∧ declared.isSome = definite := by
    cases definite with
    | true =>
      rw [CborTree.encode] at hbytes ⊢
      rw [hbytes, List.length_append, List.length_append] at hlt
      exact ⟨_, Framed.definite (head_encodeHead .array (by omega)), rfl⟩
    | false => exact ⟨none, Framed.indefinite, rfl⟩
  have hcontent := hframed.content_lt
  obtain ⟨fuel, rfl⟩ : ∃ n, fuel = n + 1 := ⟨fuel - 1, by omega⟩
  obtain ⟨entered, hvisits⟩ := framed_visited .array hframed hcount hbytes haccepts
  obtain ⟨tail, hinner⟩ := hvisits.inner
  have hread := hitems fuel entered tail (by omega) hinner hvisits.room hvisits.closes
  refine ⟨hvisits.announced, ?_⟩
  rw [CborTree.token, readValue, CborTree.tokens, run_bind_ok (hvisits.start _)]
  exact (run_bind_ok hread).trans (run_bind_ok (hvisits.finish _))

theorem readsBack_map (definite : Bool) (hentries : EntriesReadBack entries) :
    ReadsBack (.map definite entries) := by
  intro fuel reader rest hfuel hbytes haccepts
  have hcount := length_le_encodeEntries entries
  have hlt := reader.getRemainingBytes_lt
  obtain ⟨declared, hframed, rfl⟩ : ∃ declared, Framed 5 entries.length (encodeEntries entries)
      declared (CborTree.map definite entries).encode ∧ declared.isSome = definite := by
    cases definite with
    | true =>
      rw [CborTree.encode] at hbytes ⊢
      rw [hbytes, List.length_append, List.length_append] at hlt
      exact ⟨_, Framed.definite (head_encodeHead .map (by omega)), rfl⟩
    | false => exact ⟨none, Framed.indefinite, rfl⟩
  have hcontent := hframed.content_lt
  obtain ⟨fuel, rfl⟩ : ∃ n, fuel = n + 1 := ⟨fuel - 1, by omega⟩
  obtain ⟨entered, hvisits⟩ := framed_visited .map hframed hcount hbytes haccepts
  obtain ⟨tail, hinner⟩ := hvisits.inner
  have hread := hentries fuel entered tail (by omega) hinner hvisits.room hvisits.closes
  refine ⟨hvisits.announced, ?_⟩
  rw [CborTree.token, readValue, CborTree.tokens, run_bind_ok (hvisits.start _)]
  exact (run_bind_ok hread).trans (run_bind_ok (hvisits.finish _))

mutual

/-- Every valid tree is read back, by induction on the tree. -/
theorem readsBack_tree : (tree : CborTree) → tree.Valid → ReadsBack tree
  | .integer value, hvalid => by
    rw [CborTree.Valid] at hvalid
    exact readsBack_integer hvalid.1 hvalid.2
  | .bytes value, _ => readsBack_bytes value
  | .text value, _ => readsBack_text value
  | .array definite items, hvalid => by
    rw [CborTree.Valid] at hvalid
    exact readsBack_array definite (itemsReadBack items hvalid)
  | .map definite entries, hvalid => by
    rw [CborTree.Valid] at hvalid
    exact readsBack_map definite (entriesReadBack entries hvalid)
  | .tag number value, hvalid => by
    rw [CborTree.Valid] at hvalid
    exact readsBack_tag hvalid.1 hvalid.2.1 (readsBack_tree value hvalid.2.2)
  | .boolean value, _ => readsBack_boolean value
  | .null, _ => readsBack_null

theorem itemsReadBack : (items : List CborTree) → AllValid items → ItemsReadBack items
  | [], _ => itemsReadBack_nil
  | item :: items, hvalid => by
    rw [AllValid] at hvalid
    exact itemsReadBack_cons (readsBack_tree item hvalid.1) (itemsReadBack items hvalid.2)

theorem entriesReadBack : (entries : List (CborTree × CborTree)) → EntriesValid entries →
    EntriesReadBack entries
  | [], _ => entriesReadBack_nil
  | (key, value) :: entries, hvalid => by
    rw [EntriesValid] at hvalid
    exact entriesReadBack_cons (readsBack_tree key hvalid.1) (readsBack_tree value hvalid.2.1)
      (entriesReadBack entries hvalid.2.2)

end

theorem finished_of_consumed (data : Uint8Array) (items : ℕ) :
    let reader := (CborReader.new data).pass items data.length
    peekState reader = .ok .finished (reader.cached .finished) ∧
      getBytesRemaining reader = .ok 0 reader := by
  intro reader
  have hcore : peekStateCore reader = .ok .finished := by
    have hnone : data.bytes[0 + data.length]? = none := by
      rw [List.getElem?_eq_none_iff]
      simp [Uint8Array.length]
    have hopen : reader.currentFrame.isComplete = false := rfl
    unfold peekStateCore
    rw [hopen, if_neg Bool.false_ne_true]
    simp only [reader, CborReader.pass, CborReader.new, hnone]
    rfl
  refine ⟨peekState_ok hcore (Or.inl rfl), ?_⟩
  change EStateM.Result.ok (data.length - (0 + data.length)) reader = _
  rw [Nat.zero_add, Nat.sub_self]

/-- What was written is read as the tree: the announced states are its tokens,
and the reader ends finished with no bytes left. -/
def RoundTrips (tree : CborTree) : Prop :=
  ∃ writer, writeTree tree {} = .ok () writer ∧
    ∃ (hfits : writer.buffer.length < 2 ^ 53) (reader : CborReader),
      readTree (2 * writer.buffer.length) (CborReader.new ⟨writer.buffer, hfits⟩) =
        .ok (tree, tree.tokens) reader ∧
      peekState reader = .ok .finished (reader.cached .finished) ∧
      getBytesRemaining reader = .ok 0 reader

/-- Every valid tree makes the round trip, if its encoding fits in a typed
array, as every encoding that a writer can hand to a reader does. -/
theorem readTree_writeTree (tree : CborTree) (hvalid : tree.Valid)
    (hfits : tree.encode.length < 2 ^ 53) : RoundTrips tree := by
  have hwrites := writes_tree tree hvalid hfits {}
  have hbytes : (CborReader.new ⟨tree.encode, hfits⟩).getRemainingBytes = tree.encode ++ [] := by
    rw [List.append_nil]
    rfl
  have haccepts : ∀ first, (CborReader.new ⟨tree.encode, hfits⟩).currentFrame.Accepts first :=
    fun _ => ⟨rfl, rfl⟩
  obtain ⟨hpeek, hread⟩ := readsBack_tree tree hvalid _ _ [] le_rfl hbytes haccepts
  refine ⟨_, hwrites, hfits, _, ?_, finished_of_consumed ⟨tree.encode, hfits⟩ 1⟩
  unfold readTree
  exact (run_bind_ok (peekState_ok hpeek (Or.inl rfl))).trans hread

/-- A tagged array with an integer at the lower limit, a map and nested containers. -/
def sampleTree : CborTree :=
  .tag 121 (.array false
    [.integer (-(2 ^ 64)), .map true [(.bytes [1, 2], .text "ada"), (.null, .array true [])],
      .map false [(.boolean true, .integer 24)]])

theorem readTree_writeTree_sampleTree : sampleTree.Valid ∧ RoundTrips sampleTree := by
  have hvalid : sampleTree.Valid := by
    simp [sampleTree, CborTree.Valid, AllValid, EntriesValid, roundToDouble]
  exact ⟨hvalid, readTree_writeTree sampleTree hvalid (by decide)⟩

end CardanoSdk.Cbor
