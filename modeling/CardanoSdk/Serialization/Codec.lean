import CardanoSdk.Cardano.Address

/-!
Serialized classes as codecs between core values and bytes, and maps whose optional
entries stand under keys of their own.
-/

namespace CardanoSdk.Serialization

open Lib Cbor Plutus Cardano

def invalidState (message : String) : String := "Invalid state': " ++ message

/-- The text of an integer that went through `Number`. -/
def integerText (value : ℤ) : String :=
  if value < 0 then "-" ++ numberText value.natAbs else numberText value.natAbs

def invalidCbor (message : String) : DecodeException := .error (invalidArgument "cbor" message)

/-- An array of another length than its fields, or of none. -/
def unexpectedLength (expected : ℕ) (length : Option ℕ) : DecodeException :=
  .error (invalidArgument "cbor" ("Expected an array of " ++ toString expected ++
    " elements, but got an array of " ++ (length.map numberText).getD "null" ++ " elements"))

/-- The conversions of a serialized class. -/
structure Codec (Core Object : Type) where
  fromCore : Core → Except DecodeException Object
  toCbor : Object → Except EncodeException (List UInt8)
  fromCbor : List UInt8 → Except DecodeException Object
  toCore : Object → Except EncodeException Core

section Codec

variable {Core Object : Type} (codec : Codec Core Object)

def Codec.Fits (core : Core) : Prop :=
  ∀ object cbor, codec.fromCore core = .ok object → codec.toCbor object = .ok cbor →
    cbor.length < 2 ^ 53

variable {codec} in
theorem Codec.fits_of_length {core : Core} {object : Object} {length : ℕ}
    (hmade : codec.fromCore core = .ok object)
    (hlength : (codec.toCbor object).toOption.map List.length = some length)
    (hshort : length < 2 ^ 53) : codec.Fits core := by
  intro object' cbor hmade' hwritten
  cases hmade.symm.trans hmade'
  rw [hwritten] at hlength
  cases hlength
  exact hshort

variable {codec} in
theorem Codec.fits_of_encoded {core : Core} {length : ℕ}
    (h : ((codec.fromCore core).toOption.bind fun object =>
      (codec.toCbor object).toOption.map List.length) = some length)
    (hshort : length < 2 ^ 53) : codec.Fits core := by
  intro object cbor hmade hwritten
  rw [hmade] at h
  change (codec.toCbor object).toOption.map List.length = some length at h
  rw [hwritten] at h
  cases h
  exact hshort

/-- The core value is encoded as one data item. If that fits in a typed array it
is decoded, and to the same core value. -/
def Codec.RoundTrips (same : Core → Core → Prop) (core : Core) : Prop :=
  ∃ object cbor, codec.fromCore core = .ok object ∧ codec.toCbor object = .ok cbor ∧
    DataItem cbor ∧ (cbor.length < 2 ^ 53 → ∃ decoded core', codec.fromCbor cbor = .ok decoded ∧
      codec.toCore decoded = .ok core' ∧ same core' core)

end Codec

/-- Where something is read only if it fits, what is read can be named before. -/
theorem exists_of_fits {α : Type} {fits : Prop} {P : α → Prop} (value : α)
    (h : fits → ∃ value', P value') : ∃ value', fits → P value' := by
  by_cases hfits : fits
  · obtain ⟨value', hvalue'⟩ := h hfits
    exact ⟨value', fun _ => hvalue'⟩
  · exact ⟨value, fun h => absurd h hfits⟩

def readPart {α : Type} (fromCbor : List UInt8 → Except DecodeException α) : DecodeM α := do
  let encoded ← reading readEncodedValue
  decoding (fromCbor encoded)

def writePart {α : Type} (toCbor : α → Except EncodeException (List UInt8)) (value : α) :
    EncodeM Unit := do
  let cbor ← encoding (toCbor value)
  writing (writeEncodedValue cbor)

def writeParts {α : Type} (toCbor : α → Except EncodeException (List UInt8)) (values : List α) :
    EncodeM Unit := do
  writing (writeStartArray (some values.length))
  values.forM (writePart toCbor)

theorem readsItem_part {α : Type} {fromCbor : List UInt8 → Except DecodeException α}
    {bytes : List UInt8} {value : α} (hitem : DataItem bytes) (h : fromCbor bytes = .ok value) :
    ReadsItem (readPart fromCbor) bytes value :=
  (readsItem_encodedValue hitem).map fun _ => decoding_ok h

section Fields

variable {α σ : Type} {key : ℤ}

/-- `if (value !== undefined) { writer.writeInt(key); ... }` -/
def writeField (key : ℤ) (value : Option α) (write : α → EncodeM Unit) : EncodeM Unit :=
  match value with
  | some value => do
      writing (writeInt key)
      write value
  | none => pure ()

def fieldBytes (key : ℤ) : Option (List UInt8) → List UInt8
  | some encoded => encodeInt key ++ encoded
  | none => []

def fieldCount (value : Option α) : ℕ := value.toList.length

theorem items_field {encoded : Option (List UInt8)} (hkey : -(2 ^ 64) ≤ key ∧ key < 2 ^ 64)
    (h : ∀ bytes ∈ encoded, DataItem bytes) :
    Items (2 * fieldCount encoded) (fieldBytes key encoded) := by
  cases encoded with
  | none => exact Items.nil
  | some bytes =>
    have hvalue := Items.cons (h bytes rfl) Items.nil
    rw [List.append_nil] at hvalue
    exact Items.cons (dataItem_encodeInt hkey.1 hkey.2) hvalue

/-- An optional part, as it is written, and as it is read if that fits. -/
inductive Rewritten (write : α → EncodeM Unit) (read : DecodeM α) :
    Option α → Option (List UInt8) → Option α → Prop
  | none : Rewritten write read none none none
  | some {value value' : α} {bytes : List UInt8} (hwrites : Encodes (write value) bytes)
      (hitem : DataItem bytes) (hreads : bytes.length < 2 ^ 53 → ReadsItem read bytes value') :
      Rewritten write read (some value) (some bytes) (some value')

section Rewritten

variable {write : α → EncodeM Unit} {read : DecodeM α} {value value' : Option α}
  {encoded : Option (List UInt8)}

theorem Rewritten.encodes (h : Rewritten write read value encoded value') (key : ℤ)
    (hkey : -(2 ^ 64) ≤ key ∧ key < 2 ^ 64) :
    Encodes (writeField key value write) (fieldBytes key encoded) := by
  cases h with
  | none => exact Encodes.pure
  | some hwrites => exact Encodes.write (writes_int hkey.1 hkey.2) hwrites

theorem Rewritten.exists_some {written : α}
    (h : Rewritten write read (Option.some written) encoded value') :
    ∃ bytes result, encoded = Option.some bytes ∧ value' = Option.some result ∧
      Encodes (write written) bytes ∧ DataItem bytes ∧
      (bytes.length < 2 ^ 53 → ReadsItem read bytes result) := by
  cases h with
  | some hwrites hitem hreads => exact ⟨_, _, rfl, rfl, hwrites, hitem, hreads⟩

theorem Rewritten.count (h : Rewritten write read value encoded value') :
    fieldCount value = fieldCount encoded := by
  cases h <;> rfl

theorem Rewritten.items (h : Rewritten write read value encoded value') (key : ℤ)
    (hkey : -(2 ^ 64) ≤ key ∧ key < 2 ^ 64) :
    Items (2 * fieldCount value) (fieldBytes key encoded) := by
  rw [h.count]
  apply items_field hkey
  intro bytes hbytes
  cases h with
  | none => cases hbytes
  | some _ hitem =>
    cases hbytes
    exact hitem

theorem Rewritten.rounds (h : Rewritten write read value encoded value') (key : ℤ)
    (hkey : -(2 ^ 64) ≤ key ∧ key < 2 ^ 64) {step : σ → DecodeM σ} {next : ℤ → DecodeM σ} {s s' : σ}
    {set : α → σ} (hstep : step s = reading readInt >>= next)
    (hnext : next key = read >>= fun value => pure (set value))
    (hset : value'.elim s set = s') (hlength : (fieldBytes key encoded).length < 2 ^ 53) :
    Rounds step s (2 * fieldCount value) (fieldBytes key encoded) s' := by
  subst hset
  cases h with
  | none => exact Rounds.nil s
  | @some value value' bytes _ _ hreads =>
    rw [fieldBytes, List.length_append] at hlength
    apply Rounds.single
    rw [hstep]
    change ReadsRound _ (1 + 1) (encodeInt key ++ bytes) (set value')
    refine readsRound (dataItem_encodeInt hkey.1 hkey.2) (readsItem_int hkey.1 hkey.2) ?_
    rw [hnext]
    exact (hreads (by omega)).last fun _ => rfl

end Rewritten

end Fields

end CardanoSdk.Serialization
