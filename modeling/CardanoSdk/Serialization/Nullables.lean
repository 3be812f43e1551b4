import CardanoSdk.Serialization.Framing
import CardanoSdk.Serialization.Records

/-!
Fields that may be null: the decoder looks at the token where such a field stands.
-/

namespace CardanoSdk.Serialization

open Lib Cbor Plutus

variable {α β : Type}

def writeNullable (write : α → EncodeM Unit) : Option α → EncodeM Unit
  | none => writing writeNull
  | some value => write value

def readNullable (read : DecodeM α) : DecodeM (Option α) := do
  let state ← reading peekState
  if state = .null then do
    reading readNull
    pure none
  else do
    let value ← read
    pure (some value)

def nullBytes : List UInt8 := [0xf6]

theorem eq_null_of_peekItem {first : UInt8} (h : peekItem first = .null) : first = 0xf6 := by
  have hall : ∀ byte : Fin 256, peekItem (UInt8.ofFin byte) = .null → UInt8.ofFin byte = 0xf6 := by
    decide +kernel
  exact hall first.toFin h

theorem writes_null : Writes writeNull nullBytes := @writes_initialByte .simple 22 (by decide)

theorem dataItem_null : DataItem nullBytes := @DataItem.simple 22 (by decide)

theorem begins_null : Begins nullBytes .null := by
  intro reader rest hbytes haccepts
  exact peekStateCore_item hbytes (by decide) (haccepts _)

variable {bytes : List UInt8} {reader reader' : CborReader}

theorem begins_of_ne_null (hitem : DataItem bytes) (hne : bytes ≠ nullBytes)
    (hlength : bytes.length < 2 ^ 53) : ∃ state, state ≠ .null ∧ Begins bytes state := by
  obtain ⟨first, rest, rfl, hbreak⟩ := hitem.exists_cons
  refine ⟨peekItem first, fun hnull => hne ?_, fun reader rest' hbytes haccepts =>
    peekStateCore_item hbytes hbreak (haccepts _)⟩
  rw [eq_null_of_peekItem hnull] at hitem hlength ⊢
  rw [dataItem_append_eq_nil dataItem_null hitem hlength]
  rfl

variable {read : DecodeM α}

theorem reads_null : Reads (readNullable read) 1 nullBytes none := by
  intro reader rest more hbytes hroom
  rw [Nat.add_comm] at hroom
  have hpeek := peekState_ok (begins_null reader rest hbytes hroom.accepts)
    (Or.inl hroom.cachedState)
  have hread := @readNull_ok (reader.cached .null) rest hbytes (hroom.accepts _)
  rw [readNullable, run_bind_ok (reading_ok hpeek), if_pos rfl, run_bind_ok (reading_ok hread)]
  rfl

theorem reads_some {value : α} (hitem : DataItem bytes) (hne : bytes ≠ nullBytes)
    (hlength : bytes.length < 2 ^ 53) (hread : ReadsItem read bytes value) :
    Reads (readNullable read) 1 bytes (some value) := by
  intro reader rest more hbytes hroom
  rw [Nat.add_comm] at hroom
  obtain ⟨state, hstate, hbegins⟩ := begins_of_ne_null hitem hne hlength
  have hpeek := peekState_ok (hbegins reader rest hbytes hroom.accepts) (Or.inl hroom.cachedState)
  have hvalue := hread (reader.cached state) rest hbytes hroom.accepts
  rw [readNullable, run_bind_ok (reading_ok hpeek), if_neg hstate, run_bind_ok hvalue,
    CborReader.cached_pass]
  rfl

theorem peekState_cached {state : CborReaderState}
    (h : reading peekState reader = .ok state reader') :
    ∃ cached, reader' = reader.cached cached := by
  have h := reading_eq_ok h
  change (if reader.cachedState = .undefined then _ else _ : ReadM CborReaderState) reader = _ at h
  split at h
  · obtain ⟨state', moved, hpeek, hnote⟩ := run_bind_eq_ok h
    obtain ⟨-, rfl⟩ := peeking_eq_ok hpeek
    cases hnote
    exact ⟨_, rfl⟩
  · cases h
    exact ⟨reader.cachedState, rfl⟩

theorem Taken.of_cached {cached : CborReaderState} {count : ℕ} {taken : List UInt8}
    (h : Taken (reader.cached cached) count taken reader') : Taken reader count taken reader' :=
  ⟨h.pos, h.items, h.bytes, h.room, h.state⟩

theorem takes_null : Takes (reading readNull) (OneItem fun bytes _ => DataItem bytes) := by
  intro reader value reader' _ hrun
  obtain ⟨bytes, hpeek, _, hstate⟩ := readItem_eq_ok (reading_eq_ok hrun)
  obtain ⟨first, hfirst, hnull⟩ := bind_ok hpeek
  obtain ⟨haccepts, rest, hbytes⟩ := accepts_of_peekInitialByte hfirst
  have htype := (peekInitialByte_eq_ok hfirst).2.2.2 _ rfl
  split at hnull
  · cases hnull
  · rename_i hinfo
    cases hnull
    have hbyte : first = initialByte 7 22 := by
      rw [@eq_initialByte_of first, htype, not_not.mp hinfo]
      rfl
    subst hbyte
    refine ⟨1, nullBytes, taken_item dataItem_null ⟨⟨rest, hbytes⟩, ?_, hstate⟩, rfl, dataItem_null⟩
    rintro first hfirst
    cases hfirst
    exact haccepts

theorem takes_nullable (h : Takes read (OneItem fun bytes _ => DataItem bytes)) :
    Takes (readNullable read) (OneItem fun bytes _ => DataItem bytes) := by
  intro reader value reader' hplain hrun
  obtain ⟨state, middle, hpeek, hrun⟩ := run_bind_eq_ok hrun
  obtain ⟨cached, rfl⟩ := peekState_cached hpeek
  split at hrun
  · obtain ⟨_, last, hnull, hpure⟩ := run_bind_eq_ok hrun
    cases hpure
    obtain ⟨count, bytes, htaken, hone⟩ := takes_null (reader.cached cached) _ _ hplain hnull
    exact ⟨count, bytes, htaken.of_cached, hone⟩
  · obtain ⟨present, last, hread, hpure⟩ := run_bind_eq_ok hrun
    cases hpure
    obtain ⟨count, bytes, htaken, hone⟩ := h (reader.cached cached) _ _ hplain hread
    exact ⟨count, bytes, htaken.of_cached, hone⟩

/-- A decoder that does not take null for a value. -/
def Refuses (read : DecodeM α) : Prop := ∀ value, decodeWith nullBytes read ≠ .ok value

theorem refuses_part {fromCbor : List UInt8 → Except DecodeException α}
    (h : ∀ value, fromCbor nullBytes ≠ .ok value) : Refuses (readPart fromCbor) := by
  intro value hread
  obtain ⟨-, reader, reader', hfresh, hroot, hrun⟩ := decodeWith_eq_ok hread
  obtain ⟨_, bytes, htaken, -, hpart⟩ := takes_part fromCbor _ _ _ (plain_of_root hroot) hrun
  obtain ⟨rest, hbytes⟩ := htaken.bytes
  rw [hfresh.bytes] at hbytes
  rw [← dataItem_eq_of_append dataItem_null hpart.item hbytes (by decide)] at hpart
  exact h value hpart.decoded

theorem Refuses.bind {first : DecodeM α} {next : α → DecodeM β} (h : Refuses first) :
    Refuses (first >>= next) := by
  intro value hread
  unfold decodeWith at hread
  split at hread
  · rename_i hlength
    cases hrun : (first >>= next) (CborReader.new ⟨nullBytes, hlength⟩) with
    | error exception reader =>
      rw [hrun] at hread
      cases hread
    | ok result reader =>
      obtain ⟨a, reader', hfirst, -⟩ := run_bind_eq_ok hrun
      refine h a ?_
      rw [decodeWith, dif_pos hlength, hfirst]
  · cases hread

theorem eq_map_of_rel {f : α → β} {value : Option α} {read : Option β}
    (h : Option.Rel (fun present read => read = f present) value read) : read = value.map f := by
  cases h with
  | none => rfl
  | some hsame => rw [hsame, Option.map_some]

theorem keptItems_nullable {write : α → EncodeM Unit} {read : DecodeM β} {holds : α → β → Prop}
    {value : Option α} (hrefuses : Refuses read)
    (h : ∀ present, value = some present → KeptItem (write present) read (holds present)) :
    KeptItems (writeNullable write value) (readNullable read) 1 (Option.Rel holds value) := by
  cases value with
  | none =>
    exact ⟨nullBytes, none, encodes_writing writes_null, items_one dataItem_null,
      fun _ => ⟨reads_null, Option.Rel.none⟩⟩
  | some present =>
    obtain ⟨bytes, decoded, hencodes, hitem, hread⟩ := h present rfl
    refine ⟨bytes, some decoded, hencodes, items_one hitem, fun hlength => ?_⟩
    obtain ⟨hreads, hholds⟩ := hread hlength
    have hne : bytes ≠ nullBytes := by
      rintro rfl
      exact hrefuses decoded (hreads.decodeWith hlength)
    exact ⟨reads_some hitem hne hlength hreads, Option.Rel.some hholds⟩

section Codec

variable {Core Object : Type} {codec : Codec Core Object} {same : Core → Core → Prop}
  {core : Option Core}

/-- The object, if there is one, is converted to a core value that is the same. -/
def Codec.RestoresOption (codec : Codec Core Object) (same : Core → Core → Prop)
    (object : Option Object) (core : Option Core) : Prop :=
  ∃ core', object.mapM codec.toCore = .ok core' ∧ Option.Rel same core' core

theorem keptItems_optionalPart (hrefuses : Refuses (readPart codec.fromCbor))
    (h : ∀ present, core = some present → codec.RoundTrips same present) :
    ∃ object, core.mapM codec.fromCore = .ok object ∧
      KeptItems (writeNullable (writePart codec.toCbor) object)
        (readNullable (readPart codec.fromCbor)) 1 fun decoded =>
          codec.RestoresOption same decoded core := by
  cases core with
  | none =>
    have hnull : ∀ present, (none : Option Object) = some present →
        KeptItem (writePart codec.toCbor present) (readPart codec.fromCbor) fun _ => False :=
      fun _ hpresent => by cases hpresent
    refine ⟨none, rfl, (keptItems_nullable hrefuses hnull).mono ?_⟩
    rintro _ (hfalse | _)
    exact ⟨none, rfl, Option.Rel.none⟩
  | some present =>
    obtain ⟨object, hmade, hkept⟩ := keptItem_codec (h present rfl)
    have hsome : ∀ object', some object = some object' →
        KeptItem (writePart codec.toCbor object') (readPart codec.fromCbor) fun decoded =>
          codec.Restores same decoded present := by
      rintro _ hobject
      cases hobject
      exact hkept
    refine ⟨some object, bind_of_ok hmade, (keptItems_nullable hrefuses hsome).mono ?_⟩
    rintro _ (hrestores | _)
    obtain ⟨core', hcore, hsame⟩ := hrestores
    exact ⟨some core', bind_of_ok hcore, Option.Rel.some hsame⟩

end Codec

end CardanoSdk.Serialization
