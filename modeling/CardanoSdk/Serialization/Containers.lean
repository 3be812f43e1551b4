import CardanoSdk.Serialization.Codec

/-!
Decoders of arrays and maps, in frames that declare their length and in frames that a
break closes.
-/

namespace CardanoSdk.Serialization

open Lib Cbor Plutus

variable {α σ : Type}

/-- An array whose elements are read one by one into a state, and its declared length. -/
def readArray (step : σ → DecodeM σ) (rounds : ℕ) (s : σ) : DecodeM (Option ℕ × σ) := do
  let length ← reading readStartArray
  let s' ← untilEnd .endArray step rounds s
  reading readEndArray
  pure (length, s')

/-- A map whose entries are read one by one into a state, and its declared size. -/
def readMap (step : σ → DecodeM σ) (rounds : ℕ) (s : σ) : DecodeM (Option ℕ × σ) := do
  let size ← reading readStartMap
  let s' ← untilEnd .endMap step rounds s
  reading readEndMap
  pure (size, s')

/-- `list.add(fromCbor(reader.readEncodedValue()))` -/
def addPart (fromCbor : List UInt8 → Except DecodeException α) (items : List α) :
    DecodeM (List α) := do
  let item ← readPart fromCbor
  pure (items ++ [item])

/-- An array of parts that is read to its end. -/
def readList (fromCbor : List UInt8 → Except DecodeException α) (rounds : ℕ) : DecodeM (List α) := do
  let (_, items) ← readArray (addPart fromCbor) rounds []
  pure items

/-- `map.insert(fromCbor(reader.readEncodedValue()), fromCbor(reader.readEncodedValue()))` of
keys that are objects -/
def insertParts (fromCbor : List UInt8 → Except DecodeException α) (entries : List (α × α)) :
    DecodeM (List (α × α)) := do
  let key ← readPart fromCbor
  let value ← readPart fromCbor
  pure (entries ++ [(key, value)])

theorem readFields_eq (step : σ → DecodeM σ) (rounds : ℕ) (s : σ) :
    readFields step rounds s = readMap step rounds s >>= fun result => pure result.2 := by
  simp [readFields, readMap]

section Frames

variable {step : σ → DecodeM σ} {s s' : σ} {count rounds : ℕ} {content bytes : List UInt8}
  {declared : Option ℕ}

theorem readsItem_array (hframed : Framed 4 count content declared bytes)
    (hrounds : Rounds step s count content s') (hcount : count ≤ content.length)
    (henough : count < rounds) : ReadsItem (readArray step rounds s) bytes (declared, s') := by
  intro reader rest hbytes haccepts
  obtain ⟨entered, hvisits⟩ := framed_visited .array hframed hcount hbytes haccepts
  obtain ⟨tail, hinner⟩ := hvisits.inner
  have hloop := untilEnd_ok (Or.inl rfl) hrounds henough hinner hvisits.room hvisits.closes
  rw [readArray, run_bind_ok (reading_ok hvisits.enters), run_bind_ok hloop,
    run_bind_ok (reading_ok (hvisits.finish _))]
  rfl

theorem entersArray {reader : CborReader} {rest : List UInt8}
    (hframed : Framed 4 count content declared bytes) (hcount : count ≤ content.length)
    (hbytes : reader.getRemainingBytes = bytes ++ rest)
    (haccepts : ∀ first, reader.currentFrame.Accepts first) :
    ∃ entered tail, readStartArray reader = .ok declared entered ∧
      entered.getRemainingBytes = content ++ tail ∧ HasRoom entered count ∧
      readEndArray (entered.pass count content.length) = .ok () (reader.pass 1 bytes.length) := by
  obtain ⟨entered, hvisits⟩ := framed_visited .array hframed hcount hbytes haccepts
  obtain ⟨tail, hinner⟩ := hvisits.inner
  exact ⟨entered, tail, hvisits.enters, hinner, hvisits.room,
    hvisits.finish .undefined⟩

theorem readsItem_closedArray {body : Option ℕ → DecodeM α} {value : α}
    (hframed : Framed 4 count content declared bytes) (hcount : count ≤ content.length)
    (hbody : Reads (body declared) count content value) :
    ReadsItem (reading readStartArray >>= fun length => body length >>= fun value =>
      reading readEndArray >>= fun _ => pure value) bytes value := by
  intro reader rest hbytes haccepts
  obtain ⟨entered, tail, hstart, hinner, hroom, hleave⟩ := entersArray hframed hcount hbytes haccepts
  rw [run_bind_ok (reading_ok hstart), run_bind_ok (hbody entered tail 0 hinner hroom),
    run_bind_ok (reading_ok hleave)]
  rfl

theorem decodeWith_firstItems {body : Option ℕ → DecodeM α} {items more : ℕ}
    {first others : List UInt8} {value : α}
    (hframed : Framed 4 (items + more) (first ++ others) declared bytes)
    (hcount : items + more ≤ (first ++ others).length) (hlength : bytes.length < 2 ^ 53)
    (hbody : Reads (body declared) items first value) :
    Plutus.decodeWith bytes (reading readStartArray >>= body) = .ok value := by
  apply decodeWith_ok hlength
  intro reader hfresh
  obtain ⟨entered, tail, hstart, hinner, hroom, _⟩ :=
    entersArray hframed hcount hfresh.bytes hfresh.accepts
  rw [List.append_assoc] at hinner
  exact Succeeds.read hstart ⟨_, hbody entered _ more hinner hroom⟩

theorem decodeWith_framed {body : Option ℕ → DecodeM α} {value : α}
    (hframed : Framed 4 count content declared bytes) (hcount : count ≤ content.length)
    (hlength : bytes.length < 2 ^ 53) (hbody : Reads (body declared) count content value) :
    Plutus.decodeWith bytes (reading readStartArray >>= body) = .ok value := by
  rw [← List.append_nil content] at hframed hcount
  exact decodeWith_firstItems (show Framed 4 (count + 0) _ _ _ from hframed) hcount hlength hbody

theorem readsItem_map (hframed : Framed 5 count content declared bytes)
    (hrounds : Rounds step s (2 * count) content s') (hcount : 2 * count ≤ content.length)
    (henough : content.length < rounds) : ReadsItem (readMap step rounds s) bytes (declared, s') := by
  intro reader rest hbytes haccepts
  obtain ⟨entered, hvisits⟩ := framed_visited .map hframed hcount hbytes haccepts
  obtain ⟨tail, hinner⟩ := hvisits.inner
  have hloop := untilEnd_ok (Or.inr rfl) hrounds (hcount.trans_lt henough) hinner hvisits.room
    hvisits.closes
  rw [readMap, run_bind_ok (reading_ok hvisits.enters), run_bind_ok hloop,
    run_bind_ok (reading_ok (hvisits.finish _))]
  rfl

theorem begins_framed {type : CborMajorType} (htype : type = .array ∨ type = .map)
    (hframed : Framed type.toNat count content declared bytes) : Begins bytes type.opening := by
  cases hframed with
  | definite hhead =>
    have hbegins := begins_head (by rcases htype with rfl | rfl <;> simp) hhead content
    rcases htype with rfl | rfl <;> exact hbegins
  | indefinite => exact begins_indefinite (by tauto) _

end Frames

structure DecodesPart (fromCbor : List UInt8 → Except DecodeException α) (encoded : List UInt8)
    (value : α) : Prop where
  item : DataItem encoded
  decoded : fromCbor encoded = .ok value

def DecodesParts (fromCbor : List UInt8 → Except DecodeException α)
    (encoded : List UInt8 × List UInt8) (entry : α × α) : Prop :=
  DecodesPart fromCbor encoded.1 entry.1 ∧ DecodesPart fromCbor encoded.2 entry.2

section Parts

variable {fromCbor : List UInt8 → Except DecodeException α}

theorem DecodesPart.readsItem {encoded : List UInt8} {value : α}
    (h : DecodesPart fromCbor encoded value) : ReadsItem (readPart fromCbor) encoded value :=
  readsItem_part h.item h.decoded

variable {elements : List (List UInt8)} {items : List α}

theorem rounds_addPart (h : List.Forall₂ (DecodesPart fromCbor) elements items) (before : List α) :
    Rounds (addPart fromCbor) before elements.length elements.flatten (before ++ items) := by
  induction h generalizing before with
  | nil =>
    rw [List.append_nil]
    exact Rounds.nil before
  | @cons encoded item elements items hitem _ ih =>
    have hround : ReadsRound (addPart fromCbor before) (1 + 0) (encoded ++ [])
        (before ++ [item]) :=
      readsRound hitem.item hitem.readsItem (Reads.pure (before ++ [item]))
    rw [List.append_nil] at hround
    have hrest := ih (before ++ [item])
    rw [List.append_assoc] at hrest
    rw [List.length_cons, Nat.add_comm, List.flatten_cons]
    exact Rounds.cons hround hrest

variable {encoded : List (List UInt8 × List UInt8)}

theorem rounds_insertParts {entries : List (α × α)}
    (h : List.Forall₂ (DecodesParts fromCbor) encoded entries) (before : List (α × α)) :
    Rounds (insertParts fromCbor) before (2 * encoded.length) (entriesBytes encoded)
      (before ++ entries) := by
  induction h generalizing before with
  | nil =>
    rw [List.append_nil]
    exact Rounds.nil before
  | @cons encodedEntry entry encoded entries hentry _ ih =>
    have hround : ReadsRound (insertParts fromCbor before) (1 + 1)
        (encodedEntry.1 ++ encodedEntry.2) (before ++ [entry]) :=
      readsRound hentry.1.item hentry.1.readsItem (hentry.2.readsItem.last fun _ => rfl)
    have hrest := ih (before ++ [entry])
    rw [List.append_assoc] at hrest
    rw [List.length_cons, Nat.mul_succ, Nat.add_comm, entriesBytes, List.flatMap_cons]
    exact Rounds.cons hround hrest

theorem DecodesPart.dataItems (h : List.Forall₂ (DecodesPart fromCbor) elements items) :
    ∀ item ∈ elements, DataItem item := by
  induction h with
  | nil => simp
  | cons hitem _ ih => exact List.forall_mem_cons.mpr ⟨hitem.item, ih⟩

theorem DecodesParts.dataItems {entries : List (α × α)}
    (h : List.Forall₂ (DecodesParts fromCbor) encoded entries) :
    ∀ entry ∈ encoded, DataItem entry.1 ∧ DataItem entry.2 := by
  induction h with
  | nil => simp
  | cons hentry _ ih => exact List.forall_mem_cons.mpr ⟨⟨hentry.1.item, hentry.2.item⟩, ih⟩

theorem readsItem_parts {elements : List (List UInt8)} {items : List α} {declared : Option ℕ}
    {bytes : List UInt8} {rounds : ℕ} (h : List.Forall₂ (DecodesPart fromCbor) elements items)
    (hframed : Framed 4 elements.length elements.flatten declared bytes)
    (henough : elements.length < rounds) :
    ReadsItem (readArray (addPart fromCbor) rounds []) bytes (declared, items) := by
  have hcount := length_le_flatten (DecodesPart.dataItems h)
  exact readsItem_array hframed (rounds_addPart h []) hcount henough

theorem readsItem_list {declared : Option ℕ} {bytes : List UInt8} {rounds : ℕ}
    (h : List.Forall₂ (DecodesPart fromCbor) elements items)
    (hframed : Framed 4 elements.length elements.flatten declared bytes)
    (henough : elements.length < rounds) : ReadsItem (readList fromCbor rounds) bytes items :=
  (readsItem_parts h hframed henough).map fun _ => rfl

theorem readsItem_entries {encoded : List (List UInt8 × List UInt8)} {entries : List (α × α)}
    {declared : Option ℕ} {bytes : List UInt8} {rounds : ℕ}
    (h : List.Forall₂ (DecodesParts fromCbor) encoded entries)
    (hframed : Framed 5 encoded.length (entriesBytes encoded) declared bytes)
    (henough : (entriesBytes encoded).length < rounds) :
    ReadsItem (readMap (insertParts fromCbor) rounds []) bytes (declared, entries) := by
  have hcount := (items_entriesBytes (DecodesParts.dataItems h)).le_length
  exact readsItem_map hframed (rounds_insertParts h []) hcount henough

end Parts

section Fuel

variable {α σ : Type} {fromCbor fromCbor' : List UInt8 → Except DecodeException α}

variable {step step' : σ → DecodeM σ}

theorem untilEnd_refines {closing : CborReaderState} (h : ∀ s, Refines (step s) (step' s))
    (rounds : ℕ) (s : σ) :
    Refines (untilEnd closing step rounds s) (untilEnd closing step' rounds s) := by
  induction rounds generalizing s with
  | zero => exact Refines.refl _
  | succ rounds ih =>
    rw [untilEnd, untilEnd]
    apply Refines.read
    intro state
    split
    · exact Refines.refl _
    · exact Refines.bind (h s) ih

variable (h : ∀ cbor value, fromCbor cbor = .ok value → fromCbor' cbor = .ok value)

include h

theorem readPart_refines : Refines (readPart fromCbor) (readPart fromCbor') :=
  Refines.read fun encoded => Refines.decoding (h encoded)

theorem addPart_refines (items : List α) : Refines (addPart fromCbor items) (addPart fromCbor' items) :=
  Refines.bind (readPart_refines h) fun _ => Refines.refl _

theorem insertParts_refines (entries : List (α × α)) :
    Refines (insertParts fromCbor entries) (insertParts fromCbor' entries) :=
  Refines.bind (readPart_refines h) fun _ => Refines.bind (readPart_refines h) fun _ => Refines.refl _

omit h in
theorem readArray_refines (hstep : ∀ s, Refines (step s) (step' s)) (rounds : ℕ) (s : σ) :
    Refines (readArray step rounds s) (readArray step' rounds s) :=
  Refines.read fun _ => Refines.bind (untilEnd_refines hstep rounds s) fun _ => Refines.refl _

omit h in
theorem readMap_refines (hstep : ∀ s, Refines (step s) (step' s)) (rounds : ℕ) (s : σ) :
    Refines (readMap step rounds s) (readMap step' rounds s) :=
  Refines.read fun _ => Refines.bind (untilEnd_refines hstep rounds s) fun _ => Refines.refl _

end Fuel

end CardanoSdk.Serialization
