import CardanoSdk.Cbor.ReaderInvariant

/-!
What a read leaves behind when it throws: each of them looks before it changes anything.
-/

namespace CardanoSdk.Cbor

open Lib

variable {reader : CborReader} {α β : Type}

theorem peeking_atomicAt {peek : CborReader → Except CborException α} {next : α → ReadM β}
    (hnext : ∀ value, peek reader = .ok value → AtomicAt (next value) reader) :
    AtomicAt (peeking peek >>= next) reader := by
  intro exception reader' herror
  cases hpeek : peek reader with
  | error exception' =>
    rw [run_bind_error (peeking_error hpeek)] at herror
    cases herror
    rfl
  | ok value =>
    rw [run_bind_ok (peeking_ok hpeek)] at herror
    exact hnext value hpeek exception reader' herror

theorem throw_atomicAt (exception : CborException) :
    AtomicAt (throw exception : ReadM α) reader := by
  intro exception' reader' herror
  cases herror
  rfl

theorem advanceBuffer_atomicAt (bytes : ℕ) {next : Unit → ReadM α}
    (hnext : ∀ value, NeverThrows (next value)) :
    AtomicAt (advanceBuffer bytes >>= next) reader :=
  AtomicAt.bind (fun _ _ herror => advanceBuffer_error herror) hnext

theorem readItem_atomicAt (peek : CborReader → Except CborException (α × ℕ)) :
    AtomicAt (readItem peek) reader := by
  refine peeking_atomicAt fun value _ => ?_
  exact advanceBuffer_atomicAt value.2 fun _ _ => ⟨_, _, rfl⟩

theorem readStartIndefiniteLengthString_atomicAt (type : CborMajorType) :
    AtomicAt (readStartIndefiniteLengthString type) reader := by
  refine peeking_atomicAt fun header _ => ?_
  split
  · exact throw_atomicAt _
  · exact advanceBuffer_atomicAt 1 fun _ _ => ⟨_, _, rfl⟩

theorem readStartArray_atomicAt : AtomicAt readStartArray reader := by
  refine peeking_atomicAt fun header _ => ?_
  split
  · exact advanceBuffer_atomicAt 1 fun _ _ => ⟨_, _, rfl⟩
  · refine peeking_atomicAt fun length _ => ?_
    exact advanceBuffer_atomicAt length.2 fun _ _ => ⟨_, _, rfl⟩

theorem readStartMap_atomicAt : AtomicAt readStartMap reader := by
  refine peeking_atomicAt fun header _ => ?_
  split
  · exact advanceBuffer_atomicAt 1 fun _ _ => ⟨_, _, rfl⟩
  · change AtomicAt ((peeking fun _ => peekDefiniteLength header reader.getRemainingBytes) >>= _)
      reader
    refine peeking_atomicAt fun length _ => ?_
    dsimp only
    split
    · exact throw_atomicAt _
    · exact advanceBuffer_atomicAt length.2 fun _ _ => ⟨_, _, rfl⟩

theorem popDataItem_atomicAt (type : CborMajorType) : AtomicAt (popDataItem type) reader := by
  intro exception reader' herror
  rcases popDataItem_cases type reader with ⟨exception', herror'⟩ | ⟨_, _, _, _, _, _, hpop⟩
  · rw [herror'] at herror
    cases herror
    rfl
  · rw [hpop] at herror
    cases herror

theorem leaveDefinite_atomicAt (type : CborMajorType) :
    AtomicAt (do popDataItem type
                 advanceDataItemCounters : ReadM Unit) reader :=
  (popDataItem_atomicAt type).bind fun _ _ => ⟨_, _, rfl⟩

theorem leaveIndefinite_atomicAt (type : CborMajorType)
    (hbreak : validateNextByteIsBreakByte reader = .ok ()) :
    AtomicAt (do popDataItem type
                 advanceDataItemCounters
                 advanceBuffer 1 : ReadM Unit) reader := by
  intro exception reader' herror
  rcases popDataItem_cases type reader with
    ⟨exception', herror'⟩ | ⟨frame, nestedItems, _, _, _, _, hpop⟩
  · rw [run_bind_error herror'] at herror
    cases herror
    rfl
  · obtain ⟨first, hfirst, _⟩ := bind_ok hbreak
    obtain ⟨_, rest, hbytes⟩ := accepts_of_peekInitialByte hfirst
    have hlength := reader.getRemainingBytes_length
    rw [hbytes, List.length_cons] at hlength
    rw [run_bind_ok hpop] at herror
    change advanceBuffer 1 _ = _ at herror
    rw [advanceBuffer, if_neg (by dsimp only; omega)] at herror
    cases herror

theorem readEndIndefiniteLengthString_atomicAt (type : CborMajorType) :
    AtomicAt (readEndIndefiniteLengthString type) reader :=
  peeking_atomicAt fun _ hbreak => leaveIndefinite_atomicAt type hbreak

theorem readEndArray_atomicAt : AtomicAt readEndArray reader := by
  intro exception reader' herror
  change (if reader.currentFrame.definiteLength = none then _ else _ : ReadM Unit) reader = _
    at herror
  split at herror
  · exact peeking_atomicAt (fun _ hbreak => leaveIndefinite_atomicAt .array hbreak) _ _ herror
  · exact leaveDefinite_atomicAt .array _ _ herror

theorem readEndMap_atomicAt : AtomicAt readEndMap reader := by
  intro exception reader' herror
  change (if reader.currentFrame.definiteLength = none then _ else _ : ReadM Unit) reader = _
    at herror
  split at herror
  · refine peeking_atomicAt (fun _ hbreak => ?_) _ _ herror
    split
    · exact throw_atomicAt _
    · exact leaveIndefinite_atomicAt .map hbreak
  · exact leaveDefinite_atomicAt .map _ _ herror

theorem readTag_atomicAt : AtomicAt readTag reader :=
  peeking_atomicAt fun tag _ => advanceBuffer_atomicAt tag.2 fun _ _ => ⟨_, _, rfl⟩

theorem readText_atomicAt (peek : CborReader → Except CborException (List UInt8 × ℕ)) :
    AtomicAt (do let bytes ← readItem peek
                 pure (utf8Decode bytes) : ReadM String) reader :=
  (readItem_atomicAt peek).bind fun _ _ => ⟨_, _, rfl⟩

theorem peekState_atomicAt : AtomicAt peekState reader := by
  intro exception reader' herror
  change (if reader.cachedState = .undefined then _ else _ : ReadM CborReaderState) reader = _
    at herror
  split at herror
  · refine peeking_atomicAt (fun state _ => ?_) _ _ herror
    intro exception' final herror'
    cases herror'
  · cases herror

def CborReaderCall.isSkip : CborReaderCall → Bool
  | skipValue | readEncodedValue => true
  | _ => false

def CborReaderCall.exception (reader : CborReader) : CborReaderCall → Option CborException
  | peekState => thrown (Cbor.peekState reader)
  | getBytesRemaining => thrown (Cbor.getBytesRemaining reader)
  | skipValue => thrown (Cbor.skipValue reader)
  | readEncodedValue => thrown (Cbor.readEncodedValue reader)
  | readStartArray => thrown (Cbor.readStartArray reader)
  | readEndArray => thrown (Cbor.readEndArray reader)
  | readInt => thrown (Cbor.readInt reader)
  | readUInt => thrown (Cbor.readUInt reader)
  | readDouble => thrown (Cbor.readDouble reader)
  | readSimpleValue => thrown (Cbor.readSimpleValue reader)
  | readCborNegativeIntegerRepresentation =>
    thrown (Cbor.readCborNegativeIntegerRepresentation reader)
  | readStartMap => thrown (Cbor.readStartMap reader)
  | readEndMap => thrown (Cbor.readEndMap reader)
  | readBoolean => thrown (Cbor.readBoolean reader)
  | readNull => thrown (Cbor.readNull reader)
  | readStartIndefiniteLengthByteString =>
    thrown (Cbor.readStartIndefiniteLengthByteString reader)
  | readEndIndefiniteLengthByteString => thrown (Cbor.readEndIndefiniteLengthByteString reader)
  | readByteString => thrown (Cbor.readByteString reader)
  | readDefiniteLengthByteString => thrown (Cbor.readDefiniteLengthByteString reader)
  | readStartIndefiniteLengthTextString =>
    thrown (Cbor.readStartIndefiniteLengthTextString reader)
  | readEndIndefiniteLengthTextString => thrown (Cbor.readEndIndefiniteLengthTextString reader)
  | readTextString => thrown (Cbor.readTextString reader)
  | readDefiniteLengthTextString => thrown (Cbor.readDefiniteLengthTextString reader)
  | readTag => thrown (Cbor.readTag reader)
  | peekTag => thrown (Cbor.peekTag reader)

/-- In any state, a call that moves past no more than one token and throws leaves
everything as it was. -/
theorem read_atomic_on_error (reader : CborReader) (call : CborReaderCall)
    (hcall : call.isSkip = false) {exception : CborException}
    (hthrows : call.exception reader = some exception) : call.perform reader = reader := by
  cases call with
  | skipValue | readEncodedValue => cases hcall
  | getBytesRemaining => cases hthrows
  | peekState => exact peekState_atomicAt.finalState_eq hthrows
  | peekTag =>
    have hatomic : AtomicAt peekTag reader :=
      peeking_atomicAt fun _ _ _ _ herror => by cases herror
    exact hatomic.finalState_eq hthrows
  | readStartArray => exact readStartArray_atomicAt.finalState_eq hthrows
  | readEndArray => exact readEndArray_atomicAt.finalState_eq hthrows
  | readStartMap => exact readStartMap_atomicAt.finalState_eq hthrows
  | readEndMap => exact readEndMap_atomicAt.finalState_eq hthrows
  | readTag => exact readTag_atomicAt.finalState_eq hthrows
  | readTextString | readDefiniteLengthTextString =>
    exact (readText_atomicAt _).finalState_eq hthrows
  | readStartIndefiniteLengthByteString | readStartIndefiniteLengthTextString =>
    exact (readStartIndefiniteLengthString_atomicAt _).finalState_eq hthrows
  | readEndIndefiniteLengthByteString | readEndIndefiniteLengthTextString =>
    exact (readEndIndefiniteLengthString_atomicAt _).finalState_eq hthrows
  | readInt | readUInt | readDouble | readSimpleValue | readBoolean | readNull
  | readCborNegativeIntegerRepresentation | readByteString | readDefiniteLengthByteString =>
    exact (readItem_atomicAt _).finalState_eq hthrows

/-- The end of an array that has an element left. -/
theorem read_atomic_on_error_endArray :
    CborReaderCall.perform ((CborReader.new ⟨[0x81, 0x01], by decide⟩).performAll
        [.readStartArray]) .readEndArray =
      (CborReader.new ⟨[0x81, 0x01], by decide⟩).performAll [.readStartArray] :=
  @read_atomic_on_error _ .readEndArray rfl
    (.invalidOperation "Not at end of definite length data item") (by decide)

end CardanoSdk.Cbor
