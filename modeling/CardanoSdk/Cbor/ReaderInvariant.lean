import CardanoSdk.Cbor.ReaderSpec

/-!
The invariant of a reader over whole runs: every public method, whether it returns or
throws, takes the reader through steps of five kinds, which keep it.
-/

namespace CardanoSdk.Cbor

open Lib

def StackFrame.isString (frame : StackFrame) : Bool :=
  frame.type = some .byteString || frame.type = some .utf8String

/-- All a public method can do to the state, one step at a time. -/
inductive Step (reader : CborReader) : CborReader → Prop
  | peek {state : CborReaderState} (hcore : peekStateCore reader = .ok state) :
      Step reader (reader.cached state)
  | item {bytes : ℕ} (hroom : reader.currentFrame.isComplete = false)
      (hfit : reader.offset + bytes ≤ reader.data.length) : Step reader (reader.pass 1 bytes)
  | tag {bytes : ℕ} (hroom : reader.currentFrame.isComplete = false)
      (hplain : reader.currentFrame.isString = false)
      (hfit : reader.offset + bytes ≤ reader.data.length) : Step reader (reader.tagged bytes)
  | enter {bytes : ℕ} {type : CborMajorType} {definiteLength : Option ℕ}
      (hroom : reader.currentFrame.isComplete = false)
      (hlength : type = .array ∨ type = .map ∨ definiteLength = none)
      (hfit : reader.offset + bytes ≤ reader.data.length) :
      Step reader (reader.enter bytes type definiteLength)
  | leave {bytes : ℕ} {frame : StackFrame} {nestedItems : List StackFrame}
      (hnested : reader.nestedItems = frame :: nestedItems)
      (hfit : bytes = 0 ∨ reader.offset + bytes ≤ reader.data.length) :
      Step reader (reader.leave bytes frame nestedItems)

variable {reader reader' : CborReader} {α : Type}

variable {expectedType : Option CborMajorType} {first : UInt8}

theorem room_of_peekInitialByte (h : peekInitialByte expectedType reader = .ok first) :
    reader.currentFrame.isComplete = false :=
  (peekInitialByte_eq_ok h).1

theorem peeking_moves (peek : CborReader → Except CborException α) :
    Moves Step (peeking peek) := by
  intro reader
  unfold peeking
  split <;> exact Relation.ReflTransGen.refl

theorem advanceBuffer_error {bytes : ℕ} {exception : CborException}
    (h : advanceBuffer bytes reader = .error exception reader') : reader' = reader := by
  unfold advanceBuffer at h
  split at h
  · cases h
    rfl
  · cases h

theorem readItem_moves {peek : CborReader → Except CborException (α × ℕ)}
    (hguard : ∀ reader value, peek reader = .ok value → reader.currentFrame.isComplete = false) :
    Moves Step (readItem peek) := by
  apply Moves.of_step
  intro reader
  cases hpeek : peek reader with
  | error exception =>
    rw [readItem_error hpeek]
    exact Or.inl rfl
  | ok value =>
    obtain ⟨value, bytes⟩ := value
    unfold readItem
    rw [run_bind_ok (peeking_ok hpeek)]
    dsimp only
    cases hadvance : advanceBuffer bytes reader with
    | error exception reader' =>
      rw [run_bind_error hadvance, advanceBuffer_error hadvance]
      exact Or.inl rfl
    | ok value' reader' =>
      obtain ⟨hfit, rfl⟩ := advanceBuffer_eq_ok hadvance
      rw [run_bind_ok hadvance]
      exact Or.inr (Step.item (hguard reader _ hpeek) hfit)

theorem enter_moves {bytes : ℕ} {type : CborMajorType} {definiteLength : Option ℕ} {value : α}
    (hroom : reader.currentFrame.isComplete = false)
    (hlength : type = .array ∨ type = .map ∨ definiteLength = none) {opened : ReadM α}
    (hopened : ∀ reader : CborReader, opened reader =
      (do pushDataItem type definiteLength
          if type = .map then setCurrentKeyOffset
          pure value : ReadM α) reader) :
    finalState ((advanceBuffer bytes >>= fun _ => opened) reader) = reader ∨
      Step reader (finalState ((advanceBuffer bytes >>= fun _ => opened) reader)) := by
  cases hadvance : advanceBuffer bytes reader with
  | error exception reader' =>
    rw [run_bind_error hadvance, advanceBuffer_error hadvance]
    exact Or.inl rfl
  | ok value' reader' =>
    obtain ⟨hfit, rfl⟩ := advanceBuffer_eq_ok hadvance
    rw [run_bind_ok hadvance, hopened]
    right
    have hstep := @Step.enter reader bytes type definiteLength hroom hlength hfit
    unfold CborReader.enter at hstep
    by_cases hmap : type = .map
    · simp only [hmap, if_true] at hstep ⊢
      exact hstep
    · simp only [if_neg hmap] at hstep ⊢
      exact hstep

theorem readItem_peek_moves {next : CborReader → UInt8 → Except CborException (α × ℕ)} :
    Moves Step (readItem fun reader => peekInitialByte expectedType reader >>= next reader) := by
  apply readItem_moves
  intro reader value h
  obtain ⟨header, hheader, _⟩ := bind_ok h
  exact room_of_peekInitialByte hheader

theorem readInt_moves : Moves Step readInt := readItem_peek_moves

theorem readUInt_moves : Moves Step readUInt := readItem_peek_moves

theorem readCborNegativeIntegerRepresentation_moves :
    Moves Step readCborNegativeIntegerRepresentation := readItem_peek_moves

theorem readDouble_moves : Moves Step readDouble := readItem_peek_moves

theorem readSimpleValue_moves : Moves Step readSimpleValue := readItem_peek_moves

theorem readBoolean_moves : Moves Step readBoolean := readItem_peek_moves

theorem readNull_moves : Moves Step readNull := readItem_peek_moves

theorem readByteString_moves : Moves Step readByteString := readItem_peek_moves

theorem readDefiniteLengthByteString_moves : Moves Step readDefiniteLengthByteString :=
  readItem_peek_moves

theorem readTextString_moves : Moves Step readTextString :=
  Moves.bind readItem_peek_moves fun _ => Moves.pure _

theorem readDefiniteLengthTextString_moves : Moves Step readDefiniteLengthTextString :=
  Moves.bind readItem_peek_moves fun _ => Moves.pure _

theorem peeking_then {β : Type} {peek : CborReader → Except CborException α} {next : α → ReadM β}
    (h : ∀ value, peek reader = .ok value →
      finalState (next value reader) = reader ∨ Step reader (finalState (next value reader))) :
    finalState ((peeking peek >>= next) reader) = reader ∨
      Step reader (finalState ((peeking peek >>= next) reader)) := by
  cases hpeek : peek reader with
  | error exception =>
    rw [run_bind_error (peeking_error hpeek)]
    exact Or.inl rfl
  | ok value =>
    rw [run_bind_ok (peeking_ok hpeek)]
    exact h value hpeek

theorem readStartIndefiniteLengthString_moves {type : CborMajorType} (htype : type ≠ .map) :
    Moves Step (readStartIndefiniteLengthString type) := by
  apply Moves.of_step
  intro reader
  apply peeking_then
  intro header hheader
  split
  · exact Or.inl rfl
  · apply @enter_moves _ _ _ type none () (room_of_peekInitialByte hheader) (by simp)
    intro reader
    simp [htype]

theorem readStartArray_moves : Moves Step readStartArray := by
  apply Moves.of_step
  intro reader
  apply peeking_then
  intro header hheader
  have hroom := room_of_peekInitialByte hheader
  split
  · exact @enter_moves _ _ _ .array none none hroom (by simp) _ (fun _ => rfl)
  · apply peeking_then
    rintro ⟨length, bytesRead⟩ _
    exact @enter_moves _ _ _ .array (some length) (some length) hroom (by simp) _ (fun _ => rfl)

theorem readStartMap_moves : Moves Step readStartMap := by
  apply Moves.of_step
  intro reader
  apply peeking_then
  intro header hheader
  have hroom := room_of_peekInitialByte hheader
  split
  · exact @enter_moves _ _ _ .map none none hroom (by simp) _ (fun _ => rfl)
  · change finalState (((peeking fun _ => peekDefiniteLength header reader.getRemainingBytes)
        >>= _) reader) = reader ∨
      Step reader (finalState (((peeking fun _ =>
        peekDefiniteLength header reader.getRemainingBytes) >>= _) reader))
    apply peeking_then
    rintro ⟨length, bytesRead⟩ _
    dsimp only
    split
    · exact Or.inl rfl
    · exact @enter_moves _ _ _ .map (some (2 * length)) (some length) hroom (by simp) _
        (fun _ => rfl)

theorem popDataItem_cases (type : CborMajorType) (reader : CborReader) :
    (∃ exception, popDataItem type reader = .error exception reader) ∨
      ∃ frame nestedItems, reader.nestedItems = frame :: nestedItems ∧
        reader.currentFrame.type = some type ∧
        (∀ n, reader.currentFrame.definiteLength = some n → n ≤ reader.currentFrame.itemsRead) ∧
        reader.isTagContext = false ∧
        popDataItem type reader = .ok () { reader with
          nestedItems := nestedItems
          currentFrame := frame
          cachedState := .undefined } := by
  unfold popDataItem
  split
  · rename_i type' frame nestedItems htype hnested
    split
    · exact Or.inl ⟨_, rfl⟩
    · rename_i hsame
      split
      · exact Or.inl ⟨_, rfl⟩
      · rename_i hend
        split
        · exact Or.inl ⟨_, rfl⟩
        · rename_i huntagged
          refine Or.inr ⟨frame, nestedItems, hnested, ?_, ?_, by simpa using huntagged, rfl⟩
          · rw [htype, not_not.mp hsame]
          · intro n hn
            simpa [hn] using hend
  · exact Or.inl ⟨_, rfl⟩

theorem leave_definite (type : CborMajorType) (reader : CborReader) :
    finalState ((do popDataItem type
                    advanceDataItemCounters : ReadM Unit) reader) = reader ∨
      Step reader (finalState ((do popDataItem type
                                   advanceDataItemCounters : ReadM Unit) reader)) := by
  rcases popDataItem_cases type reader with
    ⟨exception, herror⟩ | ⟨frame, nestedItems, hnested, _, _, _, hpop⟩
  · rw [run_bind_error herror]
    exact Or.inl rfl
  · rw [run_bind_ok hpop]
    exact Or.inr (@Step.leave reader 0 _ _ hnested (Or.inl rfl))

theorem leave_indefinite (type : CborMajorType)
    (hbreak : validateNextByteIsBreakByte reader = .ok ()) :
    finalState ((do popDataItem type
                    advanceDataItemCounters
                    advanceBuffer 1 : ReadM Unit) reader) = reader ∨
      Step reader (finalState ((do popDataItem type
                                   advanceDataItemCounters
                                   advanceBuffer 1 : ReadM Unit) reader)) := by
  rcases popDataItem_cases type reader with
    ⟨exception, herror⟩ | ⟨frame, nestedItems, hnested, _, _, _, hpop⟩
  · rw [run_bind_error herror]
    exact Or.inl rfl
  · -- the break byte that was seen is still there to move past
    obtain ⟨first, hfirst, _⟩ := bind_ok hbreak
    obtain ⟨_, rest, hbytes⟩ := accepts_of_peekInitialByte hfirst
    have hlength := reader.getRemainingBytes_length
    rw [hbytes, List.length_cons] at hlength
    have hfit : reader.offset + 1 ≤ reader.data.length := by omega
    rw [run_bind_ok hpop]
    right
    change Step reader (finalState (advanceBuffer 1 _))
    rw [advanceBuffer, if_neg (by dsimp only; omega)]
    exact @Step.leave reader 1 _ _ hnested (Or.inr hfit)

theorem readEndIndefiniteLengthString_moves (type : CborMajorType) :
    Moves Step (readEndIndefiniteLengthString type) := by
  apply Moves.of_step
  intro reader
  apply peeking_then
  intro _ hbreak
  exact leave_indefinite type hbreak

theorem readEndArray_moves : Moves Step readEndArray := by
  apply Moves.of_step
  intro reader
  change finalState ((if reader.currentFrame.definiteLength = none then _ else _ : ReadM Unit)
      reader) = reader ∨ Step reader (finalState
        ((if reader.currentFrame.definiteLength = none then _ else _ : ReadM Unit) reader))
  split
  · apply peeking_then
    intro _ hbreak
    exact leave_indefinite .array hbreak
  · exact leave_definite .array reader

theorem readEndMap_moves : Moves Step readEndMap := by
  apply Moves.of_step
  intro reader
  change finalState ((if reader.currentFrame.definiteLength = none then _ else _ : ReadM Unit)
      reader) = reader ∨ Step reader (finalState
        ((if reader.currentFrame.definiteLength = none then _ else _ : ReadM Unit) reader))
  split
  · apply peeking_then
    intro _ hbreak
    split
    · exact Or.inl rfl
    · exact leave_indefinite .map hbreak
  · exact leave_definite .map reader

theorem plain_of_tag (h : peekInitialByte (some .tag) reader = .ok first) :
    reader.currentFrame.isString = false := by
  obtain ⟨_, _, hallowed, htype⟩ := peekInitialByte_eq_ok h
  have htag : getMajorType first = .tag := htype .tag rfl
  have hbreak : first ≠ indefiniteLengthBreakByte := by
    rintro rfl
    exact absurd htag (by decide)
  unfold StackFrame.refuses StackFrame.refuses.isForeign at hallowed
  unfold StackFrame.isString
  split at hallowed
  · simp [hbreak, htag] at hallowed
  · simp [hbreak, htag] at hallowed
  · rename_i hbyte htext
    simp only [Bool.or_eq_false_iff, decide_eq_false_iff_not]
    exact ⟨hbyte, htext⟩

theorem readTag_moves : Moves Step readTag := by
  apply Moves.of_step
  intro reader
  apply peeking_then
  rintro ⟨tag, bytesRead⟩ hpeek
  obtain ⟨header, hheader, _⟩ := bind_ok hpeek
  dsimp only
  cases hadvance : advanceBuffer bytesRead reader with
  | error exception reader' =>
    rw [run_bind_error hadvance, advanceBuffer_error hadvance]
    exact Or.inl rfl
  | ok value reader' =>
    obtain ⟨hfit, rfl⟩ := advanceBuffer_eq_ok hadvance
    rw [run_bind_ok hadvance]
    exact Or.inr (Step.tag (room_of_peekInitialByte hheader) (plain_of_tag hheader) hfit)

theorem peekTag_moves : Moves Step peekTag := (peeking_moves _).bind fun _ => Moves.pure _

theorem peekState_moves : Moves Step peekState := by
  apply Moves.of_step
  intro reader
  change finalState ((if reader.cachedState = .undefined then _ else _ : ReadM CborReaderState)
      reader) = reader ∨ Step reader (finalState
        ((if reader.cachedState = .undefined then _ else _ : ReadM CborReaderState) reader))
  split
  · apply peeking_then
    intro state hcore
    exact Or.inr (Step.peek hcore)
  · exact Or.inl rfl

theorem skipTags_moves (rounds : ℕ) : Moves Step (skipTags rounds) := by
  induction rounds with
  | zero => exact Moves.throw _
  | succ rounds ih =>
    refine (peeking_moves _).bind fun state => ?_
    split
    · exact readTag_moves.bind fun _ => ih
    · exact Moves.pure state

theorem skipToken_moves (depth : ℤ) (state : CborReaderState) :
    Moves Step (skipToken depth state) := by
  cases state with
  | unsignedInteger => exact readUInt_moves.bind fun _ => Moves.pure _
  | negativeInteger =>
    exact readCborNegativeIntegerRepresentation_moves.bind fun _ => Moves.pure _
  | byteString => exact readByteString_moves.bind fun _ => Moves.pure _
  | textString => exact readTextString_moves.bind fun _ => Moves.pure _
  | startIndefiniteLengthByteString =>
    exact (readStartIndefiniteLengthString_moves (by decide)).bind fun _ => Moves.pure _
  | endIndefiniteLengthByteString =>
    exact (readEndIndefiniteLengthString_moves _).bind fun _ => Moves.pure _
  | startIndefiniteLengthTextString =>
    exact (readStartIndefiniteLengthString_moves (by decide)).bind fun _ => Moves.pure _
  | endIndefiniteLengthTextString =>
    unfold skipToken
    dsimp only
    split
    · exact Moves.throw _
    · exact (readEndIndefiniteLengthString_moves _).bind fun _ => Moves.pure _
  | startArray => exact readStartArray_moves.bind fun _ => Moves.pure _
  | endArray =>
    unfold skipToken
    dsimp only
    split
    · exact Moves.throw _
    · exact readEndArray_moves.bind fun _ => Moves.pure _
  | startMap => exact readStartMap_moves.bind fun _ => Moves.pure _
  | endMap =>
    unfold skipToken
    dsimp only
    split
    · exact Moves.throw _
    · exact readEndMap_moves.bind fun _ => Moves.pure _
  | halfPrecisionFloat => exact readDouble_moves.bind fun _ => Moves.pure _
  | singlePrecisionFloat => exact readDouble_moves.bind fun _ => Moves.pure _
  | doublePrecisionFloat => exact readDouble_moves.bind fun _ => Moves.pure _
  | null => exact readSimpleValue_moves.bind fun _ => Moves.pure _
  | boolean => exact readSimpleValue_moves.bind fun _ => Moves.pure _
  | simpleValue => exact readSimpleValue_moves.bind fun _ => Moves.pure _
  | undefined => exact Moves.throw _
  | tag => exact Moves.throw _
  | finished => exact Moves.throw _

theorem skipNodes_moves (rounds : ℕ) (depth : ℤ) : Moves Step (skipNodes rounds depth) := by
  induction rounds generalizing depth with
  | zero => exact Moves.throw _
  | succ rounds ih =>
    refine Moves.bind ?_ fun depth' => ?_
    · exact Moves.get.bind fun _ => (skipTags_moves _).bind fun _ => skipToken_moves _ _
    · split
      · exact ih depth'
      · exact Moves.pure ()

theorem readEncodedValue_moves : Moves Step readEncodedValue :=
  Moves.get.bind fun _ => (skipNodes_moves _ _).bind fun _ => Moves.get.bind fun _ => Moves.pure _

theorem skipValue_moves : Moves Step skipValue :=
  readEncodedValue_moves.bind fun _ => Moves.pure _

theorem getBytesRemaining_moves : Moves Step getBytesRemaining :=
  Moves.get.bind fun _ => Moves.pure _

inductive CborReaderCall where
  | peekState
  | getBytesRemaining
  | skipValue
  | readEncodedValue
  | readStartArray
  | readEndArray
  | readInt
  | readUInt
  | readDouble
  | readSimpleValue
  | readCborNegativeIntegerRepresentation
  | readStartMap
  | readEndMap
  | readBoolean
  | readNull
  | readStartIndefiniteLengthByteString
  | readEndIndefiniteLengthByteString
  | readByteString
  | readDefiniteLengthByteString
  | readStartIndefiniteLengthTextString
  | readEndIndefiniteLengthTextString
  | readTextString
  | readDefiniteLengthTextString
  | readTag
  | peekTag

/-- The reader after a call, also after one that threw. -/
def CborReaderCall.perform (reader : CborReader) : CborReaderCall → CborReader
  | peekState => finalState (Cbor.peekState reader)
  | getBytesRemaining => finalState (Cbor.getBytesRemaining reader)
  | skipValue => finalState (Cbor.skipValue reader)
  | readEncodedValue => finalState (Cbor.readEncodedValue reader)
  | readStartArray => finalState (Cbor.readStartArray reader)
  | readEndArray => finalState (Cbor.readEndArray reader)
  | readInt => finalState (Cbor.readInt reader)
  | readUInt => finalState (Cbor.readUInt reader)
  | readDouble => finalState (Cbor.readDouble reader)
  | readSimpleValue => finalState (Cbor.readSimpleValue reader)
  | readCborNegativeIntegerRepresentation =>
    finalState (Cbor.readCborNegativeIntegerRepresentation reader)
  | readStartMap => finalState (Cbor.readStartMap reader)
  | readEndMap => finalState (Cbor.readEndMap reader)
  | readBoolean => finalState (Cbor.readBoolean reader)
  | readNull => finalState (Cbor.readNull reader)
  | readStartIndefiniteLengthByteString =>
    finalState (Cbor.readStartIndefiniteLengthByteString reader)
  | readEndIndefiniteLengthByteString =>
    finalState (Cbor.readEndIndefiniteLengthByteString reader)
  | readByteString => finalState (Cbor.readByteString reader)
  | readDefiniteLengthByteString => finalState (Cbor.readDefiniteLengthByteString reader)
  | readStartIndefiniteLengthTextString =>
    finalState (Cbor.readStartIndefiniteLengthTextString reader)
  | readEndIndefiniteLengthTextString =>
    finalState (Cbor.readEndIndefiniteLengthTextString reader)
  | readTextString => finalState (Cbor.readTextString reader)
  | readDefiniteLengthTextString => finalState (Cbor.readDefiniteLengthTextString reader)
  | readTag => finalState (Cbor.readTag reader)
  | peekTag => finalState (Cbor.peekTag reader)

theorem CborReaderCall.steps (reader : CborReader) (call : CborReaderCall) :
    Relation.ReflTransGen Step reader (call.perform reader) := by
  cases call with
  | peekState => exact peekState_moves reader
  | getBytesRemaining => exact getBytesRemaining_moves reader
  | skipValue => exact skipValue_moves reader
  | readEncodedValue => exact readEncodedValue_moves reader
  | readStartArray => exact readStartArray_moves reader
  | readEndArray => exact readEndArray_moves reader
  | readInt => exact readInt_moves reader
  | readUInt => exact readUInt_moves reader
  | readDouble => exact readDouble_moves reader
  | readSimpleValue => exact readSimpleValue_moves reader
  | readCborNegativeIntegerRepresentation =>
    exact readCborNegativeIntegerRepresentation_moves reader
  | readStartMap => exact readStartMap_moves reader
  | readEndMap => exact readEndMap_moves reader
  | readBoolean => exact readBoolean_moves reader
  | readNull => exact readNull_moves reader
  | readStartIndefiniteLengthByteString =>
    exact readStartIndefiniteLengthString_moves (by decide) reader
  | readEndIndefiniteLengthByteString => exact readEndIndefiniteLengthString_moves _ reader
  | readByteString => exact readByteString_moves reader
  | readDefiniteLengthByteString => exact readDefiniteLengthByteString_moves reader
  | readStartIndefiniteLengthTextString =>
    exact readStartIndefiniteLengthString_moves (by decide) reader
  | readEndIndefiniteLengthTextString => exact readEndIndefiniteLengthString_moves _ reader
  | readTextString => exact readTextString_moves reader
  | readDefiniteLengthTextString => exact readDefiniteLengthTextString_moves reader
  | readTag => exact readTag_moves reader
  | peekTag => exact peekTag_moves reader

def CborReader.performAll (reader : CborReader) (calls : List CborReaderCall) : CborReader :=
  calls.foldl CborReaderCall.perform reader

/-- Frames from the innermost one out: the root frame has no type and no
length, and nothing else is untyped. -/
def RootedFrames : StackFrame → List StackFrame → Prop
  | frame, [] => frame.type = none ∧ frame.definiteLength = none
  | frame, outer :: rest => frame.type ≠ none ∧ RootedFrames outer rest

structure ReaderInvariant (reader : CborReader) : Prop where
  cached : reader.cachedState = .undefined ∨ peekStateCore reader = .ok reader.cachedState
  offset : reader.offset ≤ reader.data.length
  current : ∀ n, reader.currentFrame.definiteLength = some n → reader.currentFrame.itemsRead ≤ n
  /-- A frame with another inside it has room for it. -/
  nested : ∀ frame ∈ reader.nestedItems, ∀ n, frame.definiteLength = some n → frame.itemsRead < n
  rooted : RootedFrames reader.currentFrame reader.nestedItems
  /-- Inside an indefinite-length string there is no length and no tag. -/
  strings : reader.currentFrame.isString = true →
    reader.currentFrame.definiteLength = none ∧ reader.isTagContext = false
  outerStrings : ∀ frame ∈ reader.nestedItems, frame.isString = true → frame.definiteLength = none

theorem ReaderInvariant.new (data : Uint8Array) : ReaderInvariant (CborReader.new data) where
  cached := Or.inl rfl
  offset := Nat.zero_le _
  current := by
    intro n hn
    cases hn
  nested := by
    intro frame hframe
    cases hframe
  rooted := ⟨rfl, rfl⟩
  strings := by
    intro hstring
    cases hstring
  outerStrings := by
    intro frame hframe
    cases hframe

theorem rootedFrames_count (frame : StackFrame) (items : ℕ) (nestedItems : List StackFrame) :
    RootedFrames { frame with itemsRead := items } nestedItems ↔ RootedFrames frame nestedItems := by
  cases nestedItems <;> rfl

theorem ReaderInvariant.lt_of_room (h : ReaderInvariant reader)
    (hroom : reader.currentFrame.isComplete = false) {n : ℕ}
    (hn : reader.currentFrame.definiteLength = some n) : reader.currentFrame.itemsRead < n := by
  have hle := h.current n hn
  have hne : n ≠ reader.currentFrame.itemsRead := by
    rintro rfl
    simp [StackFrame.isComplete, hn] at hroom
  omega

theorem ReaderInvariant.step (h : ReaderInvariant reader) (hstep : Step reader reader') :
    ReaderInvariant reader' := by
  cases hstep with
  | peek hcore =>
    exact {
      cached := Or.inr hcore
      offset := h.offset
      current := h.current
      nested := h.nested
      rooted := h.rooted
      strings := h.strings
      outerStrings := h.outerStrings }
  | item hroom hfit =>
    exact {
      cached := Or.inl rfl
      offset := hfit
      current := fun n hn => h.lt_of_room hroom hn
      nested := h.nested
      rooted := (rootedFrames_count _ _ _).mpr h.rooted
      strings := fun hstring => ⟨(h.strings hstring).1, rfl⟩
      outerStrings := h.outerStrings }
  | tag hroom hplain hfit =>
    refine {
      cached := Or.inl rfl
      offset := hfit
      current := h.current
      nested := h.nested
      rooted := h.rooted
      strings := fun hstring => ?_
      outerStrings := h.outerStrings }
    rw [show reader.currentFrame.isString = true from hstring] at hplain
    cases hplain
  | @enter bytes type definiteLength hroom hlength hfit =>
    refine {
      cached := Or.inl rfl
      offset := hfit
      current := fun n _ => Nat.zero_le n
      nested := ?_
      rooted := ⟨by simp [CborReader.enter], h.rooted⟩
      strings := fun hstring => ⟨?_, rfl⟩
      outerStrings := ?_ }
    · intro frame hframe n hn
      rcases List.mem_cons.mp hframe with rfl | hframe
      · exact h.lt_of_room hroom hn
      · exact h.nested frame hframe n hn
    · rcases hlength with rfl | rfl | hnone
      · cases hstring
      · cases hstring
      · exact hnone
    · intro frame hframe hstring
      rcases List.mem_cons.mp hframe with rfl | hframe
      · exact (h.strings hstring).1
      · exact h.outerStrings frame hframe hstring
  | @leave bytes frame nestedItems hnested hfit =>
    have hrooted := h.rooted
    rw [hnested] at hrooted
    have hinner : ∀ frame' ∈ nestedItems, frame' ∈ reader.nestedItems := by
      intro frame' hframe'
      rw [hnested]
      exact List.mem_cons_of_mem _ hframe'
    have houter : frame ∈ reader.nestedItems := by
      rw [hnested]
      exact List.mem_cons_self
    refine {
      cached := Or.inl rfl
      offset := ?_
      current := fun n hn => h.nested frame houter n hn
      nested := fun frame' hframe' => h.nested frame' (hinner frame' hframe')
      rooted := (rootedFrames_count _ _ _).mpr hrooted.2
      strings := fun hstring => ⟨h.outerStrings frame houter hstring, rfl⟩
      outerStrings := fun frame' hframe' => h.outerStrings frame' (hinner frame' hframe') }
    rcases hfit with rfl | hfit
    · exact h.offset
    · exact hfit

theorem ReaderInvariant.perform (h : ReaderInvariant reader) (call : CborReaderCall) :
    ReaderInvariant (call.perform reader) := by
  have hsteps := call.steps reader
  generalize call.perform reader = final at hsteps
  induction hsteps with
  | refl => exact h
  | tail _ hstep ih => exact ih.step hstep

theorem ReaderInvariant.performAll (h : ReaderInvariant reader) (calls : List CborReaderCall) :
    ReaderInvariant (reader.performAll calls) := by
  induction calls generalizing reader with
  | nil => exact h
  | cons call rest ih => exact ih (h.perform call)

def Reachable (reader : CborReader) : Prop :=
  ∃ data calls, reader = (CborReader.new data).performAll calls

theorem Reachable.invariant (h : Reachable reader) : ReaderInvariant reader := by
  obtain ⟨data, calls, rfl⟩ := h
  exact (ReaderInvariant.new data).performAll calls

theorem ReaderInvariant.root_iff (h : ReaderInvariant reader) :
    reader.nestedItems = [] ↔ reader.currentFrame.type = none := by
  have hrooted := h.rooted
  cases hnested : reader.nestedItems with
  | nil =>
    rw [hnested] at hrooted
    exact ⟨fun _ => hrooted.1, fun _ => rfl⟩
  | cons frame rest =>
    rw [hnested] at hrooted
    constructor
    · intro hnil
      cases hnil
    · intro hnone
      exact absurd hnone hrooted.1

/-- After any sequence of calls, thrown ones included: the cached state is the
one that would be computed, the offset is within the data, no frame has more
items than it declares, and only the root frame has no frame around it. -/
theorem reader_invariant_of_calls (data : Uint8Array) (calls : List CborReaderCall) :
    let reader := (CborReader.new data).performAll calls
    (reader.cachedState = .undefined ∨ peekStateCore reader = .ok reader.cachedState) ∧
      reader.offset ≤ reader.data.length ∧
      (∀ frame ∈ reader.currentFrame :: reader.nestedItems, ∀ n,
        frame.definiteLength = some n → frame.itemsRead ≤ n) ∧
      (reader.nestedItems = [] ↔ reader.currentFrame.type = none) := by
  have h := (ReaderInvariant.new data).performAll calls
  refine ⟨h.cached, h.offset, ?_, h.root_iff⟩
  intro frame hframe n hn
  rcases List.mem_cons.mp hframe with rfl | hframe
  · exact h.current n hn
  · exact le_of_lt (h.nested frame hframe n hn)

theorem Step.forward (h : Step reader reader') :
    reader'.data = reader.data ∧ reader.offset ≤ reader'.offset := by
  cases h with
  | peek => exact ⟨rfl, le_rfl⟩
  | item | tag | enter | leave => exact ⟨rfl, Nat.le_add_right _ _⟩

theorem CborReaderCall.forward (reader : CborReader) (call : CborReaderCall) :
    (call.perform reader).data = reader.data ∧ reader.offset ≤ (call.perform reader).offset := by
  have hsteps := call.steps reader
  generalize call.perform reader = final at hsteps ⊢
  induction hsteps with
  | refl => exact ⟨rfl, le_rfl⟩
  | tail _ hstep ih => exact ⟨hstep.forward.1.trans ih.1, ih.2.trans hstep.forward.2⟩

/-- Whatever is called, and whether it returns or throws, the data stay as they are and the
bytes left are the end of those that were left before. -/
theorem performAll_forward (reader : CborReader) (calls : List CborReaderCall) :
    (reader.performAll calls).data = reader.data ∧
      (reader.performAll calls).getRemainingBytes <:+ reader.getRemainingBytes := by
  induction calls generalizing reader with
  | nil => exact ⟨rfl, List.suffix_rfl⟩
  | cons call calls ih =>
    obtain ⟨hdata, hoffset⟩ := call.forward reader
    obtain ⟨hrest, hsuffix⟩ := ih (call.perform reader)
    refine ⟨hrest.trans hdata, hsuffix.trans ?_⟩
    rw [CborReader.getRemainingBytes, CborReader.getRemainingBytes, hdata]
    obtain ⟨bytes, hbytes⟩ := Nat.exists_eq_add_of_le hoffset
    rw [hbytes, ← List.drop_drop]
    exact List.drop_suffix _ _

end CardanoSdk.Cbor
