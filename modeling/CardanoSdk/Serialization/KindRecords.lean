import CardanoSdk.Serialization.Credentials

/-!
Records that begin with the number of their kind.
-/

namespace CardanoSdk.Serialization

open Lib Cbor Plutus Cardano

/-- An array whose head counts the number of a kind and the items behind it. -/
def IsKindArray (kind : ℤ) (cbor : List UInt8) : Prop :=
  ∃ count content, Items count content ∧ 1 + count < 2 ^ 53 ∧
    cbor = encodeHead .array (1 + count) ++ (encodeInt kind ++ content)

def writeOfKind (size : ℕ) (kind : ℤ) (fields : EncodeM Unit) : EncodeM Unit := do
  writing (writeStartArray (some size))
  writing (writeInt kind)
  fields

def readOfKind {α : Type} (kind : ℤ) (refusal : ℤ → DecodeException) (fields : DecodeM α) :
    DecodeM α := do
  let value ← reading readInt
  if toNumber value ≠ kind then throw (refusal (toNumber value)) else fields

/-- A number that is small and not negative. -/
def IsKind (kind : ℤ) : Prop := 0 ≤ kind ∧ kind < 2 ^ 53

section Kinds

variable {kind : ℤ}

theorem IsKind.isNumber (h : IsKind kind) : IsNumber kind := by
  obtain ⟨hlower, hupper⟩ := h
  exact ⟨⟨by omega, by omega⟩, toNumber_of_natAbs_lt (by omega)⟩

theorem IsKindArray.peekKind {cbor : List UInt8} (h : IsKindArray kind cbor) (hkind : IsKind kind)
    (hlength : cbor.length < 2 ^ 53) : peekKind cbor = .ok kind := by
  obtain ⟨count, content, hitems, hcount, rfl⟩ := h
  have hfits := hkind.isNumber.fits
  have hall : Items (count + 1) (encodeInt kind ++ content) :=
    Items.cons (dataItem_encodeInt hfits.1 hfits.2) hitems
  rw [Nat.add_comm] at hall
  have hframed := @Framed.definite _ _ (encodeInt kind ++ content) _
    (head_encodeHead .array (show 1 + count < 2 ^ 64 by omega))
  apply decodeWith_firstItems hframed hall.le_length hlength
  apply (readsItem_int hfits.1 hfits.2).last
  intro reader
  rw [hkind.isNumber.exact]
  rfl

theorem keptItems_ofKind {α : Type} {write : EncodeM Unit} {fields : DecodeM α} {count : ℕ}
    {holds : α → Prop} {refusal : ℤ → DecodeException} (hkind : IsKind kind)
    (h : KeptItems write fields count holds) :
    KeptItems (writing (writeInt kind) >>= fun _ => write) (readOfKind kind refusal fields)
      (1 + count) holds := by
  refine KeptItems.exact (keptItem_int hkind.isNumber.fits) ?_
  rwa [hkind.isNumber.exact, if_neg (not_not.mpr rfl)]

end Kinds

section Codec

variable {Core Object : Type} {codec : Codec Core Object} {kind : ℤ} {same : Core → Core → Prop}
  {core : Core} {object : Object} {count : ℕ} {write : EncodeM Unit}
  {read : List UInt8 → DecodeM Object} {refusal : ℤ → DecodeException}

/-- The core value is encoded as an array of its kind. If that fits in a typed
array it is decoded, and to the same core value. -/
def Codec.RoundTripsAs (codec : Codec Core Object) (kind : ℤ) (same : Core → Core → Prop)
    (core : Core) : Prop :=
  ∃ object cbor, codec.fromCore core = .ok object ∧ codec.toCbor object = .ok cbor ∧
    DataItem cbor ∧ IsKindArray kind cbor ∧ (cbor.length < 2 ^ 53 → ∃ decoded core',
      codec.fromCbor cbor = .ok decoded ∧ codec.toCore decoded = .ok core' ∧ same core' core)

theorem Codec.RoundTripsAs.roundTrips (h : codec.RoundTripsAs kind same core) :
    codec.RoundTrips same core := by
  obtain ⟨object, cbor, hmade, hwritten, hitem, -, hread⟩ := h
  exact ⟨object, cbor, hmade, hwritten, hitem, hread⟩

theorem Codec.roundTripsAs_stored {readAll : List UInt8 → DecodeM Object} (hkind : IsKind kind)
    (hcount : 1 + count < 2 ^ 53) (hmade : codec.fromCore core = .ok object)
    (hwritten : codec.toCbor object = encodeAsHex (writeOfKind (1 + count) kind write))
    (hread : DecodesRecord codec.fromCbor (1 + count) readAll)
    (hfields : ∃ content, Encodes write content ∧ Items count content)
    (h : ∀ cbor, KeptItems (writing (writeInt kind) >>= fun _ => write) (readAll cbor) (1 + count)
      fun decoded => codec.Restores same decoded core) : codec.RoundTripsAs kind same core := by
  obtain ⟨content, cbor, decoded, rfl, hencodes, hitems, hcbor, hdecoded⟩ :=
    record_survives hread (by omega) h
  obtain ⟨rest, hencodesRest, hitemsRest⟩ := hfields
  have hfits := hkind.isNumber.fits
  have hall : Encodes (writing (writeInt kind) >>= fun _ => write) (encodeInt kind ++ rest) :=
    Encodes.write (writes_int hfits.1 hfits.2) hencodesRest
  obtain rfl := hencodes.unique hall
  refine ⟨object, _, hmade, hwritten.trans hcbor, dataItem_fixedArray (by omega) hitems,
    ⟨count, rest, hitemsRest, hcount, rfl⟩, fun hlength => ?_⟩
  obtain ⟨hdecodes, core', hcore, hsame⟩ := hdecoded hlength
  exact ⟨decoded, core', hdecodes, hcore, hsame⟩

theorem Codec.roundTripsAs_array (hkind : IsKind kind) (hcount : 1 + count < 2 ^ 53)
    (hmade : codec.fromCore core = .ok object)
    (hwritten : codec.toCbor object = encodeAsHex (writeOfKind (1 + count) kind write))
    (hread : DecodesRecord codec.fromCbor (1 + count) fun cbor =>
      readOfKind kind refusal (read cbor))
    (h : ∀ cbor, KeptItems write (read cbor) count fun decoded =>
      codec.Restores same decoded core) : codec.RoundTripsAs kind same core :=
  Codec.roundTripsAs_stored hkind hcount hmade hwritten hread (h []).written fun cbor =>
    keptItems_ofKind hkind (h cbor)

end Codec

section Kinds

variable {Core Object Part PartObject : Type} {codec : Codec Core Object}
  {part : Codec Part PartObject} {kind : ℤ} {asCore : Part → Core} {make : PartObject → Object}
  {keep : List UInt8 → PartObject → Object} {same : Part → Part → Prop}
  {same' : Core → Core → Prop} {core : Part}

/-- One of the kinds of a class, with a class of its own. What was read keeps its bytes. -/
structure IsKindOf (codec : Codec Core Object) (part : Codec Part PartObject) (kind : ℤ)
    (asCore : Part → Core) (make : PartObject → Object) (keep : List UInt8 → PartObject → Object) :
    Prop where
  fromCore : ∀ core object, part.fromCore core = .ok object →
    codec.fromCore (asCore core) = .ok (make object)
  toCbor : ∀ object cbor, part.toCbor object = .ok cbor → codec.toCbor (make object) = .ok cbor
  fromCbor : ∀ cbor object, peekKind cbor = .ok kind → part.fromCbor cbor = .ok object →
    codec.fromCbor cbor = .ok (keep cbor object)
  toCore : ∀ cbor object core, part.toCore object = .ok core →
    codec.toCore (keep cbor object) = .ok (asCore core)

theorem IsKindOf.roundTripsAs (h : IsKindOf codec part kind asCore make keep) (hkind : IsKind kind)
    (hpart : part.RoundTripsAs kind same core)
    (hsame : ∀ core', same core' core → same' (asCore core') (asCore core)) :
    codec.RoundTripsAs kind same' (asCore core) := by
  obtain ⟨object, cbor, hmade, hwritten, hitem, harray, hread⟩ := hpart
  refine ⟨make object, cbor, h.fromCore _ _ hmade, h.toCbor _ _ hwritten, hitem, harray,
    fun hlength => ?_⟩
  obtain ⟨decoded, core', hdecoded, hcore, hback⟩ := hread hlength
  exact ⟨keep cbor decoded, asCore core', h.fromCbor _ _ (harray.peekKind hkind hlength) hdecoded,
    h.toCore _ _ _ hcore, hsame core' hback⟩

end Kinds

end CardanoSdk.Serialization
