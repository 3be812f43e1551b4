import CardanoSdk.Cbor.SkipValue

/-!
What `readEncodedValue` and `skipValue` have moved past when they succeed: one data item
that the current frame accepts, or the break byte of an open byte string.
-/

namespace CardanoSdk.Cbor

open Lib

variable {reader reader' final : CborReader}

structure OpensDefinite (reader : CborReader) (type : CborMajorType) (length : ℕ)
    (head : List UInt8) : Prop where
  kind : type = .array ∨ type = .map
  header : Head type.toNat length head
  bytes : ∃ rest, reader.getRemainingBytes = head ++ rest
  accepts : ∀ first ∈ head.head?, reader.currentFrame.Accepts first

structure OpensIndefinite (reader : CborReader) (type : CborMajorType) : Prop where
  kind : type = .byteString ∨ type = .utf8String ∨ type = .array ∨ type = .map
  bytes : ∃ rest, reader.getRemainingBytes = initialByte type.toNat 31 :: rest
  accepts : reader.currentFrame.Accepts (initialByte type.toNat 31)

variable {depth depth' : ℤ} {type : CborMajorType} {rounds : ℕ} {state : CborReaderState}
  {rest item : List UInt8} {frame : StackFrame}

variable {first : UInt8} {value : Option ℕ} {items : List (List UInt8)}

theorem opensIndefinite_of_peek
    (htype : type = .byteString ∨ type = .utf8String ∨ type = .array ∨ type = .map)
    (hpeek : peekInitialByte (some type) reader = .ok first)
    (hinfo : getAdditionalInfo first = indefiniteLength) : OpensIndefinite reader type := by
  obtain ⟨haccepts, rest, hbytes⟩ := accepts_of_peekInitialByte hpeek
  have hmajor := (peekInitialByte_eq_ok hpeek).2.2.2 _ rfl
  have hfirst : first = initialByte type.toNat 31 := by
    rw [@eq_initialByte_of first, hmajor, hinfo]
    rfl
  subst hfirst
  exact ⟨htype, ⟨rest, hbytes⟩, haccepts⟩

theorem readStartIndefiniteLengthString_eq_ok (htype : type = .byteString ∨ type = .utf8String)
    (h : readStartIndefiniteLengthString type reader = .ok () reader') :
    OpensIndefinite reader type ∧ reader' = reader.enter 1 type none := by
  unfold readStartIndefiniteLengthString at h
  obtain ⟨first, middle, hpeeking, hmove⟩ := run_bind_eq_ok h
  obtain ⟨hpeek, rfl⟩ := peeking_eq_ok hpeeking
  split at hmove
  · cases hmove
  · rename_i hinfo
    obtain ⟨_, moved, hmoved, hpush⟩ := run_bind_eq_ok hmove
    obtain ⟨_, rfl⟩ := advanceBuffer_eq_ok hmoved
    cases hpush
    refine ⟨opensIndefinite_of_peek (by tauto) hpeek (not_not.mp hinfo), ?_⟩
    rcases htype with rfl | rfl <;> rfl

theorem readStartArray_eq_ok (h : readStartArray reader = .ok value reader') :
    (OpensIndefinite reader .array ∧ reader' = reader.enter 1 .array none) ∨
      ∃ length head, OpensDefinite reader .array length head ∧
        reader' = reader.enter head.length .array (some (roundToDouble length)) := by
  unfold readStartArray at h
  obtain ⟨first, middle, hpeeking, hmove⟩ := run_bind_eq_ok h
  obtain ⟨hpeek, rfl⟩ := peeking_eq_ok hpeeking
  split at hmove
  · rename_i hinfo
    obtain ⟨_, moved, hmoved, hpush⟩ := run_bind_eq_ok hmove
    obtain ⟨_, rfl⟩ := advanceBuffer_eq_ok hmoved
    cases hpush
    exact Or.inl ⟨opensIndefinite_of_peek (by simp) hpeek hinfo, rfl⟩
  · obtain ⟨⟨value', bytes⟩, middle', hlength, hmove⟩ := run_bind_eq_ok hmove
    obtain ⟨hdefinite, rfl⟩ := peeking_eq_ok hlength
    obtain ⟨⟨length, bytesRead⟩, hdecode, hpure⟩ := bind_ok hdefinite
    cases hpure
    obtain ⟨_, moved, hmoved, hpush⟩ := run_bind_eq_ok hmove
    obtain ⟨_, rfl⟩ := advanceBuffer_eq_ok hmoved
    cases hpush
    obtain ⟨haccepts, rest, hbytes⟩ := accepts_of_peekInitialByte hpeek
    have hmajor := (peekInitialByte_eq_ok hpeek).2.2.2 _ rfl
    obtain ⟨payload, rest', hsplit, rfl, hhead⟩ := head_of_decode hbytes hdecode
    rw [hmajor] at hhead
    right
    exact ⟨length, first :: payload,
      ⟨Or.inl rfl, hhead, ⟨rest', hsplit⟩, by simpa using haccepts⟩, rfl⟩

theorem readStartMap_eq_ok (h : readStartMap reader = .ok value reader') :
    (OpensIndefinite reader .map ∧ reader' = reader.enter 1 .map none) ∨
      ∃ length head, OpensDefinite reader .map length head ∧
        reader' = reader.enter head.length .map (some (2 * roundToDouble length)) := by
  unfold readStartMap at h
  obtain ⟨first, middle, hpeeking, hmove⟩ := run_bind_eq_ok h
  obtain ⟨hpeek, rfl⟩ := peeking_eq_ok hpeeking
  split at hmove
  · rename_i hinfo
    obtain ⟨_, moved, hmoved, hpush⟩ := run_bind_eq_ok hmove
    obtain ⟨_, rfl⟩ := advanceBuffer_eq_ok hmoved
    cases hpush
    exact Or.inl ⟨opensIndefinite_of_peek (by simp) hpeek hinfo, rfl⟩
  · obtain ⟨_, _, hget, hmove⟩ := run_bind_eq_ok hmove
    cases hget
    obtain ⟨⟨value', bytes⟩, middle', hlength, hmove⟩ := run_bind_eq_ok hmove
    obtain ⟨hdefinite, rfl⟩ := peeking_eq_ok hlength
    obtain ⟨⟨length, bytesRead⟩, hdecode, hpure⟩ := bind_ok hdefinite
    cases hpure
    dsimp only at hmove
    split at hmove
    · cases hmove
    · obtain ⟨_, moved, hmoved, hpush⟩ := run_bind_eq_ok hmove
      obtain ⟨_, rfl⟩ := advanceBuffer_eq_ok hmoved
      cases hpush
      obtain ⟨haccepts, rest, hbytes⟩ := accepts_of_peekInitialByte hpeek
      have hmajor := (peekInitialByte_eq_ok hpeek).2.2.2 _ rfl
      obtain ⟨payload, rest', hsplit, rfl, hhead⟩ := head_of_decode hbytes hdecode
      rw [hmajor] at hhead
      right
      exact ⟨length, first :: payload,
        ⟨Or.inr rfl, hhead, ⟨rest', hsplit⟩, by simpa using haccepts⟩, rfl⟩

/-- The current frame ends here, with so many bytes of its own to move past. -/
inductive Closes (reader : CborReader) (type : CborMajorType) (frame : StackFrame)
    (nestedItems : List StackFrame) : ℕ → Prop
  | atEnd (htype : type = .array ∨ type = .map) (h : AtEnd reader type frame nestedItems) :
      Closes reader type frame nestedItems 0
  | atBreak {rest : List UInt8}
      (htype : type = .byteString ∨ type = .utf8String ∨ type = .array ∨ type = .map)
      (heven : type = .map → reader.currentFrame.itemsRead % 2 = 0)
      (h : AtBreak reader type frame nestedItems rest) : Closes reader type frame nestedItems 1

theorem popDataItem_eq_ok (h : popDataItem type reader = .ok () reader') :
    (∃ frame nestedItems, reader.nestedItems = frame :: nestedItems) ∧
      reader.isTagContext = false := by
  rcases popDataItem_cases type reader with
    ⟨exception, herror⟩ | ⟨frame, nestedItems, hnested, _, _, huntagged, _⟩
  · rw [herror] at h
    cases h
  · exact ⟨⟨frame, nestedItems, hnested⟩, huntagged⟩

inductive Stops (reader : CborReader) : CborReaderState → Prop
  | finished : Stops reader .finished
  | complete {type : CborMajorType} (htype : type = .array ∨ type = .map)
      (hframe : reader.currentFrame.type = some type)
      (hcomplete : reader.currentFrame.definiteLength = some reader.currentFrame.itemsRead) :
      Stops reader type.closing
  | atBreak {type : CborMajorType} {rest : List UInt8}
      (htype : type = .byteString ∨ type = .utf8String ∨ type = .array ∨ type = .map)
      (hframe : reader.currentFrame.type = some type)
      (hindefinite : reader.currentFrame.definiteLength = none)
      (hbytes : reader.getRemainingBytes = indefiniteLengthBreakByte :: rest)
      (heven : type = .map → reader.currentFrame.itemsRead % 2 = 0)
      (huntagged : reader.isTagContext = false) : Stops reader type.closing

theorem peekBreak_eq_ok (hbytes : reader.getRemainingBytes = indefiniteLengthBreakByte :: rest)
    (h : peekBreak reader = .ok state) : Stops reader state := by
  unfold peekBreak at h
  split at h
  · cases h
  · rename_i huntagged
    have huntagged' : reader.isTagContext = false := by simpa using huntagged
    split at h
    · cases h
    · rename_i hindefinite
      split at h
      · cases h
      · rename_i hframe
        cases h
        exact @Stops.atBreak reader .byteString rest (by simp) hframe hindefinite hbytes (by simp)
          huntagged'
      · rename_i hframe
        cases h
        exact @Stops.atBreak reader .utf8String rest (by simp) hframe hindefinite hbytes (by simp)
          huntagged'
      · rename_i hframe
        cases h
        exact @Stops.atBreak reader .array rest (by simp) hframe hindefinite hbytes (by simp)
          huntagged'
      · rename_i hframe
        split at h
        · rename_i heven
          cases h
          exact @Stops.atBreak reader .map rest (by simp) hframe hindefinite hbytes
            (fun _ => heven) huntagged'
        · cases h
      · cases h

theorem peekStateCore_eq_ok (h : peekStateCore reader = .ok state) :
    Stops reader state ∨ ∃ first rest, reader.getRemainingBytes = first :: rest ∧
      first ≠ indefiniteLengthBreakByte ∧ state = peekItem first := by
  unfold peekStateCore at h
  rw [CborReader.getElem?_offset] at h
  split at h
  · rename_i hcomplete
    have hlength : reader.currentFrame.definiteLength = some reader.currentFrame.itemsRead := by
      simpa [StackFrame.isComplete] using hcomplete
    split at h
    · cases h
      exact Or.inl Stops.finished
    · rename_i hframe
      cases h
      exact Or.inl (@Stops.complete reader .array (Or.inl rfl) hframe hlength)
    · rename_i hframe
      cases h
      exact Or.inl (@Stops.complete reader .map (Or.inr rfl) hframe hlength)
    · cases h
  · split at h
    · split at h
      · cases h
        exact Or.inl Stops.finished
      · cases h
    · rename_i first hfirst
      have hbytes : reader.getRemainingBytes = first :: reader.getRemainingBytes.tail :=
        (List.cons_head?_tail hfirst).symm
      split at h
      · rename_i hbreak
        subst hbreak
        exact Or.inl (peekBreak_eq_ok hbytes h)
      · rename_i hbreak
        split at h
        · cases h
        · cases h
          exact Or.inr ⟨first, _, hbytes, hbreak, rfl⟩

theorem leaving_eq_ok {next : Unit → ReadM Unit}
    (h : (popDataItem type >>= next) reader = .ok () reader') :
    (∃ frame nestedItems, reader.nestedItems = frame :: nestedItems) ∧
      reader.isTagContext = false := by
  obtain ⟨_, _, hpop, _⟩ := run_bind_eq_ok h
  exact popDataItem_eq_ok hpop

theorem readEndIndefiniteLengthString_eq_ok
    (h : readEndIndefiniteLengthString type reader = .ok () reader') :
    (∃ frame nestedItems, reader.nestedItems = frame :: nestedItems) ∧
      reader.isTagContext = false := by
  unfold readEndIndefiniteLengthString at h
  obtain ⟨_, _, hpeeking, hleave⟩ := run_bind_eq_ok h
  obtain ⟨_, rfl⟩ := peeking_eq_ok hpeeking
  exact leaving_eq_ok hleave

theorem readEndArray_eq_ok (h : readEndArray reader = .ok () reader') :
    (∃ frame nestedItems, reader.nestedItems = frame :: nestedItems) ∧
      reader.isTagContext = false := by
  change (if reader.currentFrame.definiteLength = none then _ else _ : ReadM Unit) reader = _ at h
  split at h
  · obtain ⟨_, _, hpeeking, hleave⟩ := run_bind_eq_ok h
    obtain ⟨_, rfl⟩ := peeking_eq_ok hpeeking
    exact leaving_eq_ok hleave
  · exact leaving_eq_ok h

theorem readEndMap_eq_ok (h : readEndMap reader = .ok () reader') :
    (∃ frame nestedItems, reader.nestedItems = frame :: nestedItems) ∧
      reader.isTagContext = false := by
  change (if reader.currentFrame.definiteLength = none then _ else _ : ReadM Unit) reader = _ at h
  split at h
  · obtain ⟨_, _, hpeeking, hleave⟩ := run_bind_eq_ok h
    obtain ⟨_, rfl⟩ := peeking_eq_ok hpeeking
    split at hleave
    · cases hleave
    · exact leaving_eq_ok hleave
  · exact leaving_eq_ok h

/-- A closing token is only read where a frame can be left, and at depth zero
only the break of a byte string is. -/
theorem skipToken_closing_eq_ok
    (htype : type = .byteString ∨ type = .utf8String ∨ type = .array ∨ type = .map)
    (h : skipToken depth type.closing reader = .ok depth' reader') :
    ((∃ frame nestedItems, reader.nestedItems = frame :: nestedItems) ∧
      reader.isTagContext = false) ∧ (depth = 0 → type = .byteString) := by
  rcases htype with rfl | rfl | rfl | rfl
  · obtain ⟨_, _, hread, _⟩ := run_bind_eq_ok h
    exact ⟨readEndIndefiniteLengthString_eq_ok hread, fun _ => rfl⟩
  · simp only [CborMajorType.closing, skipToken] at h
    split at h
    · cases h
    · obtain ⟨_, _, hread, _⟩ := run_bind_eq_ok h
      exact ⟨readEndIndefiniteLengthString_eq_ok hread, by simp_all⟩
  · simp only [CborMajorType.closing, skipToken] at h
    split at h
    · cases h
    · obtain ⟨_, _, hread, _⟩ := run_bind_eq_ok h
      exact ⟨readEndArray_eq_ok hread, by simp_all⟩
  · simp only [CborMajorType.closing, skipToken] at h
    split at h
    · cases h
    · obtain ⟨_, _, hread, _⟩ := run_bind_eq_ok h
      exact ⟨readEndMap_eq_ok hread, by simp_all⟩

/-- The number of items of a frame with a declared length, as the reader keeps it. -/
def declaredItems (type : CborMajorType) (length : ℕ) : ℕ :=
  if type = .map then 2 * roundToDouble length else roundToDouble length

/-- What the token of a round can do to the depth and to the reader. -/
inductive Round (reader : CborReader) (depth : ℤ) : ℤ → CborReader → Prop
  | item {item : List UInt8} {reader' : CborReader} (hitem : DataItem item)
      (hpassed : PassedItem reader item reader') : Round reader depth depth reader'
  | definite {type : CborMajorType} {length : ℕ} {head : List UInt8}
      (hopens : OpensDefinite reader type length head) :
      Round reader depth (depth + 1)
        (reader.enter head.length type (some (declaredItems type length)))
  | indefinite {type : CborMajorType} (hopens : OpensIndefinite reader type) :
      Round reader depth (depth + 1) (reader.enter 1 type none)
  | close {type : CborMajorType} {frame : StackFrame} {nestedItems : List StackFrame} {footer : ℕ}
      (hcloses : Closes reader type frame nestedItems footer)
      (hdepth : depth = 0 → type = .byteString) :
      Round reader depth (depth - 1) (reader.leave footer frame nestedItems)

theorem round_of_stops (hdepth : 0 ≤ depth) (hstops : Stops reader state)
    (h : skipToken depth state reader = .ok depth' reader') :
    Round reader depth depth' reader' := by
  cases hstops with
  | finished => cases h
  | @complete type htype hframe hcomplete =>
    obtain ⟨⟨⟨frame, nestedItems, hnested⟩, huntagged⟩, hzero⟩ :=
      skipToken_closing_eq_ok (by tauto) h
    have hend : AtEnd reader type frame nestedItems := ⟨hframe, hcomplete, hnested, huntagged⟩
    have hpos : 0 < depth := by
      rcases hdepth.lt_or_eq with hlt | rfl
      · exact hlt
      · rw [hzero rfl] at htype
        simp at htype
    rw [(hend.closes htype).2 depth hpos] at h
    cases h
    exact Round.close (Closes.atEnd htype hend) hzero
  | @atBreak type rest htype hframe hindefinite hbytes heven huntagged =>
    obtain ⟨⟨⟨frame, nestedItems, hnested⟩, _⟩, hzero⟩ := skipToken_closing_eq_ok htype h
    have hbreak : AtBreak reader type frame nestedItems rest :=
      ⟨hbytes, hframe, hindefinite, hnested, huntagged⟩
    have htoken : skipToken depth type.closing reader =
        .ok (depth - 1) (reader.leave 1 frame nestedItems) := by
      rcases hdepth.lt_or_eq with hlt | rfl
      · exact (hbreak.closes htype heven).2 depth hlt
      · have hstring := hzero rfl
        subst hstring
        exact run_bind_ok hbreak.readEndIndefiniteLengthString
    rw [htoken] at h
    cases h
    exact Round.close (Closes.atBreak htype heven hbreak) hzero

theorem round_of_read {α : Type} {read : ReadM α} {depth depth' : ℤ}
    (hread : ∀ {value : α} {reader' : CborReader}, read reader = .ok value reader' →
      ∃ item, DataItem item ∧ PassedItem reader item reader')
    (h : (do let _ ← read; pure depth : ReadM ℤ) reader = .ok depth' reader') :
    Round reader depth depth' reader' := by
  obtain ⟨value, moved, hvalue, hpure⟩ := run_bind_eq_ok h
  cases hpure
  obtain ⟨item, hitem, hpassed⟩ := hread hvalue
  exact Round.item hitem hpassed

theorem readTextString_eq_ok {value : String} (h : readTextString reader = .ok value reader') :
    ∃ bytes, readItem (peekString .utf8String) reader = .ok bytes reader' := by
  obtain ⟨bytes, moved, hread, hpure⟩ := run_bind_eq_ok h
  cases hpure
  exact ⟨bytes, hread⟩

theorem round_of_simple {info : ℕ}
    (h : skipToken depth (mapSimpleValueDataToReaderState info) reader = .ok depth' reader') :
    Round reader depth depth' reader' := by
  unfold mapSimpleValueDataToReaderState at h
  split at h
  · exact round_of_read readSimpleValue_eq_ok h
  · split at h
    · exact round_of_read readSimpleValue_eq_ok h
    · split at h
      · exact round_of_read readDouble_eq_ok h
      · split at h
        · exact round_of_read readDouble_eq_ok h
        · split at h
          · exact round_of_read readDouble_eq_ok h
          · exact round_of_read readSimpleValue_eq_ok h

theorem round_of_string {type : CborMajorType} {first : UInt8} {rest : List UInt8}
    {depth depth' : ℤ} (htype : type = .byteString ∨ type = .utf8String)
    (hbytes : reader.getRemainingBytes = first :: rest)
    (h : skipToken depth (if getAdditionalInfo first = indefiniteLength then type.opening
      else if type = .byteString then .byteString else .textString) reader = .ok depth' reader') :
    Round reader depth depth' reader' := by
  split at h
  · rcases htype with rfl | rfl
    · obtain ⟨_, _, hread, hpure⟩ := run_bind_eq_ok h
      cases hpure
      obtain ⟨hopens, rfl⟩ := readStartIndefiniteLengthString_eq_ok (Or.inl rfl) hread
      exact Round.indefinite hopens
    · obtain ⟨_, _, hread, hpure⟩ := run_bind_eq_ok h
      cases hpure
      obtain ⟨hopens, rfl⟩ := readStartIndefiniteLengthString_eq_ok (Or.inr rfl) hread
      exact Round.indefinite hopens
  · rename_i hdefinite
    have hinfo : ∀ first ∈ reader.getRemainingBytes.head?,
        getAdditionalInfo first ≠ indefiniteLength := by
      rw [hbytes]
      rintro first hfirst
      cases hfirst
      exact hdefinite
    rcases htype with rfl | rfl
    · refine @round_of_read _ _ _ readByteString _ _ ?_ h
      intro value moved hread
      obtain ⟨item, hitem, hpassed⟩ := readString_eq_ok hinfo hread
      exact ⟨item, DataItem.string (Or.inl rfl) hitem, hpassed⟩
    · refine @round_of_read _ _ _ readTextString _ _ ?_ h
      intro value moved hread
      obtain ⟨bytes, hbytesRead⟩ := readTextString_eq_ok hread
      obtain ⟨item, hitem, hpassed⟩ := readString_eq_ok hinfo hbytesRead
      exact ⟨item, DataItem.string (Or.inr rfl) hitem, hpassed⟩

theorem round_of_item (hbytes : reader.getRemainingBytes = first :: rest)
    (htag : peekItem first ≠ .tag)
    (h : skipToken depth (peekItem first) reader = .ok depth' reader') :
    Round reader depth depth' reader' := by
  unfold peekItem at h htag
  cases hmajor : getMajorType first <;> simp only [hmajor] at h htag
  case unsignedInteger =>
    refine @round_of_read _ _ _ readUInt _ _ ?_ h
    intro value moved hread
    obtain ⟨head, hhead, hpassed⟩ := readUInt_eq_ok hread
    exact ⟨head, DataItem.integer (Or.inl rfl) hhead, hpassed⟩
  case negativeInteger =>
    refine @round_of_read _ _ _ readCborNegativeIntegerRepresentation _ _ ?_ h
    intro value moved hread
    obtain ⟨head, hhead, hpassed⟩ := readCborNegativeIntegerRepresentation_eq_ok hread
    exact ⟨head, DataItem.integer (Or.inr rfl) hhead, hpassed⟩
  case byteString => exact @round_of_string _ _ .byteString _ _ _ _ (Or.inl rfl) hbytes h
  case utf8String => exact @round_of_string _ _ .utf8String _ _ _ _ (Or.inr rfl) hbytes h
  case array =>
    obtain ⟨_, _, hread, hpure⟩ := run_bind_eq_ok h
    cases hpure
    rcases readStartArray_eq_ok hread with ⟨hopens, rfl⟩ | ⟨length, head, hopens, rfl⟩
    · exact Round.indefinite hopens
    · exact Round.definite hopens
  case map =>
    obtain ⟨_, _, hread, hpure⟩ := run_bind_eq_ok h
    cases hpure
    rcases readStartMap_eq_ok hread with ⟨hopens, rfl⟩ | ⟨length, head, hopens, rfl⟩
    · exact Round.indefinite hopens
    · exact Round.definite hopens
  case tag => exact absurd rfl htag
  case simple => exact round_of_simple h

theorem round_of_token (hdepth : 0 ≤ depth) (hcore : peekStateCore reader = .ok state)
    (htag : state ≠ .tag) (h : skipToken depth state reader = .ok depth' reader') :
    Round reader depth depth' reader' := by
  rcases peekStateCore_eq_ok hcore with hstops | ⟨first, rest, hbytes, _, rfl⟩
  · exact round_of_stops hdepth hstops h
  · exact round_of_item hbytes htag h

/-- Bytes that are tags, to which an item is still missing. -/
structure LeadingTags (reader : CborReader) (tags : List UInt8) : Prop where
  bytes : ∃ rest, reader.getRemainingBytes = tags ++ rest
  accepts : ∀ first, reader.currentFrame.Accepts first
  completes : ∀ item, DataItem item → DataItem (tags ++ item)

theorem skipTags_eq_ok (h : skipTags rounds reader = .ok state reader') :
    state ≠ .tag ∧ peekStateCore reader' = .ok state ∧
      (reader' = reader ∨ ∃ tags, LeadingTags reader tags ∧ reader' = reader.tagged tags.length) := by
  induction rounds generalizing reader with
  | zero => cases h
  | succ rounds ih =>
    obtain ⟨state', middle, hpeeking, hnext⟩ := run_bind_eq_ok h
    obtain ⟨hcore, rfl⟩ := peeking_eq_ok hpeeking
    split at hnext
    · obtain ⟨tag, moved, hread, hrest⟩ := run_bind_eq_ok hnext
      obtain ⟨number, head, rest, hhead, hbytes, haccepts, rfl⟩ := readTag_eq_ok hread
      have hall := accepts_after_tag hhead haccepts
      obtain ⟨htag, hcore', hmoved⟩ := ih hrest
      refine ⟨htag, hcore', Or.inr ?_⟩
      rcases hmoved with rfl | ⟨tags, htags, rfl⟩
      · exact ⟨head, ⟨⟨rest, hbytes⟩, hall, fun item hitem => DataItem.tag hhead hitem⟩, rfl⟩
      · obtain ⟨rest', hrest'⟩ := htags.bytes
        rw [(length_getRemainingBytes_tagged hhead hbytes).1] at hrest'
        refine ⟨head ++ tags, ⟨⟨rest', ?_⟩, hall, fun item hitem => ?_⟩, ?_⟩
        · rw [hbytes, hrest', List.append_assoc]
        · rw [List.append_assoc]
          exact DataItem.tag hhead (htags.completes item hitem)
        · simp [CborReader.tagged, Nat.add_assoc]
    · rename_i htag
      cases hnext
      exact ⟨htag, hcore, Or.inl rfl⟩

/-- What the loop does next, as seen from the current frame: it moves past one
item, or it leaves the frame. It still goes on after that, with fewer rounds. -/
inductive Event (rounds : ℕ) (depth : ℤ) (reader final : CborReader) : Prop
  | passed {item : List UInt8} {rounds' : ℕ} (hlt : rounds' < rounds) (hitem : DataItem item)
      (hbytes : ∃ rest, reader.getRemainingBytes = item ++ rest)
      (haccepts : ∀ first ∈ item.head?, reader.currentFrame.Accepts first)
      (hrest : continueAt rounds' depth (reader.pass 1 item.length) = .ok () final)
  | closed {type : CborMajorType} {frame : StackFrame} {nestedItems : List StackFrame}
      {footer rounds' : ℕ} (hlt : rounds' < rounds)
      (hcloses : Closes reader type frame nestedItems footer)
      (hdepth : depth = 0 → type = .byteString)
      (hrest : continueAt rounds' (depth - 1) (reader.leave footer frame nestedItems) =
        .ok () final)

theorem Closes.untagged {type : CborMajorType} {frame : StackFrame}
    {nestedItems : List StackFrame} {footer : ℕ}
    (h : Closes reader type frame nestedItems footer) : reader.isTagContext = false := by
  cases h with
  | atEnd _ h => exact h.untagged
  | atBreak _ _ h => exact h.untagged

theorem Event.of_tagged {tags : List UInt8} (htags : LeadingTags reader tags)
    (h : Event rounds depth (reader.tagged tags.length) final) :
    Event rounds depth reader final := by
  cases h with
  | @passed item rounds' hlt hitem hbytes haccepts hrest =>
    obtain ⟨rest, htail⟩ := htags.bytes
    obtain ⟨rest', hitemBytes⟩ := hbytes
    rw [CborReader.getRemainingBytes_tagged, htail, List.drop_left] at hitemBytes
    refine Event.passed hlt (htags.completes item hitem) ⟨rest', ?_⟩
      (fun first _ => htags.accepts first) ?_
    · rw [htail, hitemBytes, List.append_assoc]
    · rwa [CborReader.tagged_pass, ← List.length_append] at hrest
  | closed hlt hcloses hdepth hrest =>
    have := hcloses.untagged
    cases this

structure Collected (reader : CborReader) (items : List (List UInt8)) : Prop where
  bytes : ∃ rest, reader.getRemainingBytes = items.flatten ++ rest
  wellFormed : ∀ item ∈ items, DataItem item
  allowed : ∀ item ∈ items, ∀ first ∈ item.head?, reader.currentFrame.refuses first = false

theorem exists_collected (hpos : 0 < depth)
    (hevent : ∀ rounds' ≤ rounds, ∀ reader, skipNodes rounds' depth reader = .ok () final →
      Event rounds' depth reader final) (hfresh : reader.pass 0 0 = reader)
    (h : skipNodes rounds depth reader = .ok () final) :
    ∃ items type frame nestedItems footer rounds', rounds' < rounds ∧ Collected reader items ∧
      Closes (reader.pass items.length items.flatten.length) type frame nestedItems footer ∧
      continueAt rounds' (depth - 1) ((reader.pass items.length items.flatten.length).leave footer
        frame nestedItems) = .ok () final := by
  induction rounds using Nat.strongRecOn generalizing reader with
  | _ rounds ih =>
    cases hevent rounds le_rfl reader h with
    | @closed type frame nestedItems footer rounds' hlt hcloses _ hrest =>
      refine ⟨[], type, frame, nestedItems, footer, rounds', hlt,
        ⟨⟨_, rfl⟩, by simp, by simp⟩, ?_, ?_⟩
      · simpa [hfresh] using hcloses
      · simpa [hfresh] using hrest
    | @passed item rounds' hlt hitem hbytes haccepts hrest =>
      rw [continueAt, if_pos hpos] at hrest
      obtain ⟨items, type, frame, nestedItems, footer, rounds'', hlt', hcollected, hcloses,
        hfinal⟩ := ih rounds' hlt (fun k hk => hevent k (by omega))
          (CborReader.pass_pass _ _ _ _ _) hrest
      rw [CborReader.pass_pass, Nat.add_comm 1] at hcloses hfinal
      obtain ⟨rest, hsplit⟩ := hbytes
      obtain ⟨rest', hsplit'⟩ := hcollected.bytes
      rw [CborReader.getRemainingBytes_pass, hsplit, List.drop_left] at hsplit'
      refine ⟨item :: items, type, frame, nestedItems, footer, rounds'', by omega,
        ⟨⟨rest', ?_⟩, ?_, ?_⟩, ?_, ?_⟩
      · rw [hsplit, hsplit', List.flatten_cons, List.append_assoc]
      · exact List.forall_mem_cons.mpr ⟨hitem, hcollected.wellFormed⟩
      · refine List.forall_mem_cons.mpr ⟨fun first hfirst => ?_, hcollected.allowed⟩
        exact (haccepts first hfirst).allowed
      · rwa [List.length_cons, List.flatten_cons, List.length_append]
      · rwa [List.length_cons, List.flatten_cons, List.length_append]

/-- What follows a header is of the length that was declared, so that length
was not rounded. -/
theorem declaredItems_eq {length items : ℕ} {content : List UInt8} (hitems : Items items content)
    (hbound : content.length < 2 ^ 53) (hdeclared : declaredItems type length = items) :
    items = if type = .map then 2 * length else length := by
  have hle := hitems.le_length
  unfold declaredItems at hdeclared
  have hround : roundToDouble length = length := by
    rcases @roundToDouble_eq_or length with heq | ⟨_, hlarge⟩
    · exact heq
    · split at hdeclared <;> omega
  rw [← hdeclared, hround]

theorem items_of_wellFormed (h : ∀ item ∈ items, DataItem item) :
    Items items.length items.flatten := by
  induction items with
  | nil => exact Items.nil
  | cons item items ih =>
    rw [List.forall_mem_cons] at h
    rw [List.flatten_cons, List.length_cons]
    exact Items.cons h.1 (ih h.2)

theorem chunks_of_stringItems {major : ℕ} (h : ∀ item ∈ items, StringItem major item) :
    Chunks major items.flatten := by
  induction items with
  | nil => exact Chunks.nil
  | cons item items ih =>
    rw [List.forall_mem_cons] at h
    rw [List.flatten_cons]
    exact Chunks.cons h.1 (ih h.2)

theorem stringItem_of_first (htype : type = .byteString ∨ type = .utf8String)
    (hitem : DataItem item) (hmajor : ∀ first ∈ item.head?, getMajorType first = type)
    (hinfo : ∀ first ∈ item.head?, getAdditionalInfo first ≠ indefiniteLength) :
    StringItem type.toNat item := by
  have hother {type' : CborMajorType} {argument : ℕ} {head tail : List UInt8}
      (hhead : Head type'.toNat argument head) (hitem : item = head ++ tail)
      (hne : type' ≠ .byteString ∧ type' ≠ .utf8String) : False := by
    obtain ⟨first, payload, hcons, hfirst, _⟩ := head_first hhead
    rw [hmajor first (by rw [hitem, hcons]; rfl)] at hfirst
    subst hfirst
    tauto
  have hsimple {info : ℕ} {tail : List UInt8} (hlt : info < 32)
      (hitem : item = initialByte 7 info :: tail) : False := by
    have hfirst := hmajor (initialByte 7 info) (by rw [hitem]; rfl)
    have hseven : getMajorType (initialByte 7 info) = .simple := getMajorType_initialByte .simple hlt
    rw [hseven] at hfirst
    subst hfirst
    simp at htype
  cases hitem with
  | integer hm hhead =>
    rcases hm with rfl | rfl
    · exact (@hother .unsignedInteger _ _ [] hhead (by simp) (by simp)).elim
    · exact (@hother .negativeInteger _ _ [] hhead (by simp) (by simp)).elim
  | @string major bytes hm hstring =>
    obtain ⟨info, payload, hlt, hcons⟩ := hstring.exists_cons
    have hfirst := hmajor (initialByte major info) (by rw [hcons]; rfl)
    rcases hm with rfl | rfl
    · rw [show getMajorType (initialByte 2 info) = .byteString from
        getMajorType_initialByte .byteString (by omega)] at hfirst
      subst hfirst
      exact hstring
    · rw [show getMajorType (initialByte 3 info) = .utf8String from
        getMajorType_initialByte .utf8String (by omega)] at hfirst
      subst hfirst
      exact hstring
  | indefiniteString hm hchunks =>
    have hfirst := hinfo _ rfl
    rcases hm with rfl | rfl <;> exact absurd (by decide) hfirst
  | array hhead hitems => exact (@hother .array _ _ _ hhead rfl (by simp)).elim
  | indefiniteArray hitems => exact absurd (by decide) (hinfo _ rfl)
  | map hhead hitems => exact (@hother .map _ _ _ hhead rfl (by simp)).elim
  | indefiniteMap hitems => exact absurd (by decide) (hinfo _ rfl)
  | tag hhead hitem => exact (@hother .tag _ _ _ hhead rfl (by simp)).elim
  | simple hvalue => exact (hsimple (by omega) rfl).elim
  | simpleByte value => exact (hsimple (by omega) rfl).elim
  | float hwidth _ _ =>
    have hbounds := hwidth.bounds
    exact (hsimple (by omega) rfl).elim

theorem stringItem_of_allowed (htype : type = .byteString ∨ type = .utf8String)
    (hframe : frame.type = some type) (hitem : DataItem item)
    (hallowed : ∀ first ∈ item.head?, frame.refuses first = false) :
    StringItem type.toNat item := by
  have hfirst : ∀ first ∈ item.head?, getMajorType first = type ∧
      getAdditionalInfo first ≠ indefiniteLength := by
    obtain ⟨first, rest, rfl, hbreak⟩ := hitem.exists_cons
    rintro first' hfirst'
    have hrefuses := hallowed first' hfirst'
    cases hfirst'
    have hbreak' : first ≠ indefiniteLengthBreakByte := hbreak
    unfold StackFrame.refuses StackFrame.refuses.isForeign at hrefuses
    rw [hframe] at hrefuses
    rcases htype with rfl | rfl <;> simpa [hbreak'] using hrefuses
  exact stringItem_of_first htype hitem (fun first h => (hfirst first h).1)
    (fun first h => (hfirst first h).2)

section Filled

variable {type type' : CborMajorType} {frame : StackFrame} {nestedItems : List StackFrame}
  {items : List (List UInt8)} {footer : ℕ}

theorem passed_of_definite {length : ℕ} {head : List UInt8}
    (hopens : OpensDefinite reader type length head)
    (hcollected : Collected (reader.enter head.length type (some (declaredItems type length))) items)
    (hcloses : Closes ((reader.enter head.length type (some (declaredItems type length))).pass
      items.length items.flatten.length) type' frame nestedItems footer) :
    DataItem (head ++ items.flatten) ∧
      (∃ rest, reader.getRemainingBytes = head ++ items.flatten ++ rest) ∧
      ((reader.enter head.length type (some (declaredItems type length))).pass
        items.length items.flatten.length).leave footer frame nestedItems =
          reader.pass 1 (head ++ items.flatten).length := by
  obtain ⟨rest, hbytes⟩ := hopens.bytes
  obtain ⟨rest', hcontent⟩ := hcollected.bytes
  rw [CborReader.getRemainingBytes_enter, hbytes, List.drop_left] at hcontent
  have hitems := items_of_wellFormed hcollected.wellFormed
  have hlt := reader.getRemainingBytes_lt
  rw [hbytes, hcontent, List.length_append, List.length_append] at hlt
  cases hcloses with
  | atBreak _ _ hbreak =>
    have := hbreak.indefinite
    cases this
  | atEnd _ hend =>
    have hdeclared : declaredItems type length = items.length := by
      have hcomplete : _ = 0 + items.length := Option.some.inj hend.complete
      rwa [Nat.zero_add] at hcomplete
    have hcount := declaredItems_eq hitems (by omega) hdeclared
    have hnested := hend.nested
    cases hnested
    refine ⟨?_, ⟨rest', ?_⟩, ?_⟩
    · have hhead := hopens.header
      rcases hopens.kind with rfl | rfl
      · rw [if_neg (by decide)] at hcount
        rw [hcount] at hitems
        exact DataItem.array hhead hitems
      · rw [if_pos rfl] at hcount
        rw [hcount] at hitems
        exact DataItem.map hhead hitems
    · rw [hbytes, hcontent, List.append_assoc]
    · rw [CborReader.enter_pass_leave, Nat.add_zero, List.length_append]

theorem passed_of_indefinite (hopens : OpensIndefinite reader type)
    (hcollected : Collected (reader.enter 1 type none) items)
    (hcloses : Closes ((reader.enter 1 type none).pass items.length items.flatten.length) type' frame
      nestedItems footer) :
    DataItem (initialByte type.toNat 31 :: (items.flatten ++ [breakByte])) ∧
      (∃ rest, reader.getRemainingBytes =
        initialByte type.toNat 31 :: (items.flatten ++ [breakByte]) ++ rest) ∧
      ((reader.enter 1 type none).pass items.length items.flatten.length).leave footer frame
        nestedItems =
          reader.pass 1 (initialByte type.toNat 31 :: (items.flatten ++ [breakByte])).length := by
  obtain ⟨rest, hbytes⟩ := hopens.bytes
  obtain ⟨rest', hcontent⟩ := hcollected.bytes
  rw [CborReader.getRemainingBytes_enter, hbytes, List.drop_one, List.tail_cons] at hcontent
  have hitems := items_of_wellFormed hcollected.wellFormed
  cases hcloses with
  | atEnd _ hend =>
    have := hend.complete
    cases this
  | @atBreak rest'' _ heven hbreak =>
    have htype := Option.some.inj hbreak.type
    have hbreakBytes := hbreak.bytes
    rw [CborReader.getRemainingBytes_pass, CborReader.getRemainingBytes_enter, hbytes,
      List.drop_one, List.tail_cons, hcontent, List.drop_left] at hbreakBytes
    have hnested := hbreak.nested
    cases hnested
    refine ⟨?_, ⟨rest'', ?_⟩, ?_⟩
    · have hstring (hkind : type = .byteString ∨ type = .utf8String) :
          Chunks type.toNat items.flatten := by
        apply chunks_of_stringItems
        intro item hitem
        exact stringItem_of_allowed hkind rfl (hcollected.wellFormed item hitem)
          (hcollected.allowed item hitem)
      rcases hopens.kind with rfl | rfl | rfl | rfl
      · exact DataItem.indefiniteString (Or.inl rfl) (hstring (Or.inl rfl))
      · exact DataItem.indefiniteString (Or.inr rfl) (hstring (Or.inr rfl))
      · exact DataItem.indefiniteArray hitems
      · have hparity : (0 + items.length) % 2 = 0 := heven htype.symm
        have hdouble : items.length = 2 * (items.length / 2) := by omega
        rw [hdouble] at hitems
        exact DataItem.indefiniteMap hitems
    · rw [hbytes, hcontent, hbreakBytes]
      simp [breakByte, indefiniteLengthBreakByte]
    · rw [CborReader.enter_pass_leave]
      congr 1
      simp
      omega

end Filled

theorem skipNodes_eq_ok (h : skipNodes (rounds + 1) depth reader = .ok () final) :
    ∃ fuel state middle depth' reader', skipTags fuel reader = .ok state middle ∧
      skipToken depth state middle = .ok depth' reader' ∧
      continueAt rounds depth' reader' = .ok () final := by
  obtain ⟨depth', reader', hnode, hrest⟩ := run_bind_eq_ok h
  obtain ⟨_, _, hget, hnode'⟩ := run_bind_eq_ok hnode
  cases hget
  obtain ⟨state, middle, htags, htoken⟩ := run_bind_eq_ok hnode'
  refine ⟨_, state, middle, depth', reader', htags, htoken, ?_⟩
  unfold continueAt
  split at hrest
  · rename_i hpos
    rw [if_pos hpos]
    exact hrest
  · rename_i hpos
    rw [if_neg hpos]
    exact hrest

/-- A round that passes or opens something belongs to an item; the others
leave the current frame. -/
theorem event_of_round (hdepth : 0 ≤ depth)
    (hevent : ∀ rounds' ≤ rounds, ∀ reader, skipNodes rounds' (depth + 1) reader = .ok () final →
      Event rounds' (depth + 1) reader final) (hround : Round reader depth depth' reader')
    (hrest : continueAt rounds depth' reader' = .ok () final) :
    Event (rounds + 1) depth reader final := by
  have hpos : depth + 1 > 0 := by omega
  cases hround with
  | item hitem hpassed =>
    rw [hpassed.state] at hrest
    exact Event.passed (Nat.lt_succ_self rounds) hitem hpassed.bytes hpassed.accepts hrest
  | @definite type length head hopens =>
    rw [continueAt, if_pos hpos] at hrest
    obtain ⟨items, type', frame, nestedItems, footer, rounds', hlt, hcollected, hcloses, hfinal⟩ :=
      exists_collected hpos hevent rfl hrest
    obtain ⟨hitem, hbytes, hpassed⟩ := passed_of_definite hopens hcollected hcloses
    rw [hpassed, add_sub_cancel_right] at hfinal
    refine Event.passed (Nat.lt_succ_of_lt hlt) hitem hbytes ?_ hfinal
    rw [head?_append_of_head hopens.header]
    exact hopens.accepts
  | @indefinite type hopens =>
    rw [continueAt, if_pos hpos] at hrest
    obtain ⟨items, type', frame, nestedItems, footer, rounds', hlt, hcollected, hcloses, hfinal⟩ :=
      exists_collected hpos hevent rfl hrest
    obtain ⟨hitem, hbytes, hpassed⟩ := passed_of_indefinite hopens hcollected hcloses
    rw [hpassed, add_sub_cancel_right] at hfinal
    refine Event.passed (Nat.lt_succ_of_lt hlt) hitem hbytes ?_ hfinal
    rintro first hfirst
    cases hfirst
    exact hopens.accepts
  | close hcloses hzero => exact Event.closed (Nat.lt_succ_self rounds) hcloses hzero hrest

theorem event_of_skipNodes (hdepth : 0 ≤ depth) (h : skipNodes rounds depth reader = .ok () final) :
    Event rounds depth reader final := by
  -- strong induction: the rounds inside a frame are fewer than those of the frame
  induction rounds using Nat.strongRecOn generalizing depth reader with
  | _ rounds ih =>
    cases rounds with
    | zero => cases h
    | succ rounds =>
      obtain ⟨fuel, state, middle, depth', reader', htags, htoken, hrest⟩ := skipNodes_eq_ok h
      obtain ⟨htag, hcore, hmiddle⟩ := skipTags_eq_ok htags
      have hround := round_of_token hdepth hcore htag htoken
      have hevent := event_of_round hdepth
        (fun rounds' hle reader => ih rounds' (by omega) (by omega)) hround hrest
      rcases hmiddle with rfl | ⟨tags, hleading, rfl⟩
      · exact hevent
      · exact hevent.of_tagged hleading

/-- An item may come next in the frame: there is room for it, and in an
indefinite-length string it is a chunk of that string. -/
structure StackFrame.Allows (frame : StackFrame) (item : List UInt8) : Prop where
  room : frame.definiteLength ≠ some frame.itemsRead
  bytes : frame.type = some .byteString → StringItem 2 item
  text : frame.type = some .utf8String → StringItem 3 item

theorem refuses_stringItem {type : CborMajorType} {frame : StackFrame} {item : List UInt8}
    {first : UInt8} (hframe : frame.type = some type) (hitem : StringItem type.toNat item)
    (hfirst : first ∈ item.head?) : frame.refuses first = false := by
  obtain ⟨info, payload, hinfo, rfl⟩ := hitem.exists_cons
  cases hfirst
  have hmajor := getMajorType_initialByte type (show info < 32 by omega)
  have hvalue := getAdditionalInfo_initialByte type (show info < 32 by omega)
  have hne : info ≠ indefiniteLength := by
    unfold indefiniteLength
    omega
  unfold StackFrame.refuses StackFrame.refuses.isForeign
  rw [hframe]
  cases type <;> simp [hmajor, hvalue, hne]

theorem allows_iff_accepts (hitem : DataItem item) :
    frame.Allows item ↔ ∀ first ∈ item.head?, frame.Accepts first := by
  constructor
  · intro hallows first hfirst
    refine ⟨by simpa [StackFrame.isComplete] using hallows.room, ?_⟩
    cases htype : frame.type with
    | none => simp [StackFrame.refuses, htype]
    | some type =>
      cases type
      case byteString => exact @refuses_stringItem .byteString _ _ _ htype (hallows.bytes htype) hfirst
      case utf8String => exact @refuses_stringItem .utf8String _ _ _ htype (hallows.text htype) hfirst
      all_goals simp [StackFrame.refuses, htype]
  · intro haccepts
    obtain ⟨first, rest, hcons, _⟩ := hitem.exists_cons
    have hroom := (haccepts first (by rw [hcons]; rfl)).room
    have hallowed : ∀ first ∈ item.head?, frame.refuses first = false :=
      fun first hfirst => (haccepts first hfirst).allowed
    refine ⟨by simpa [StackFrame.isComplete] using hroom, fun htype => ?_, fun htype => ?_⟩
    · exact stringItem_of_allowed (Or.inl rfl) htype hitem hallowed
    · exact stringItem_of_allowed (Or.inr rfl) htype hitem hallowed

/-- `readEncodedValue` and `skipValue` consume exactly one data item. -/
structure ReadsOneItem (reader : CborReader) : Prop where
  succeeds : (∃ value reader', readEncodedValue reader = .ok value reader') ↔
    ∃ item rest, DataItem item ∧ reader.getRemainingBytes = item ++ rest ∧
      reader.currentFrame.Allows item
  value : ∀ item rest, DataItem item → reader.getRemainingBytes = item ++ rest →
    reader.currentFrame.Allows item → ∃ reader', readEncodedValue reader = .ok item reader'
  consumed : ∀ value reader', readEncodedValue reader = .ok value reader' →
    reader'.data = reader.data ∧ reader.getRemainingBytes = value ++ reader'.getRemainingBytes
  nested : ∀ value reader', readEncodedValue reader = .ok value reader' →
    reader'.nestedItems = reader.nestedItems
  counted : ∀ value reader', readEncodedValue reader = .ok value reader' →
    reader'.currentFrame =
      { reader.currentFrame with itemsRead := reader.currentFrame.itemsRead + 1 }
  skipped : ∀ reader', skipValue reader = .ok () reader' ↔
    ∃ value, readEncodedValue reader = .ok value reader'

/-- The break byte of the indefinite-length byte string that the reader is in. -/
def AtByteStringBreak (reader : CborReader) : Prop :=
  reader.currentFrame.type = some .byteString ∧
    reader.getRemainingBytes.head? = some indefiniteLengthBreakByte

theorem readEncodedValue_eq_ok {value : List UInt8}
    (hbreak : ¬AtByteStringBreak reader) (h : readEncodedValue reader = .ok value reader') :
    DataItem value ∧ (∃ rest, reader.getRemainingBytes = value ++ rest) ∧
      reader.currentFrame.Allows value ∧ reader' = reader.pass 1 value.length := by
  obtain ⟨_, _, hget, hskip⟩ := run_bind_eq_ok h
  cases hget
  obtain ⟨_, final, hnodes, _⟩ := run_bind_eq_ok hskip
  cases event_of_skipNodes le_rfl hnodes with
  | @passed item rounds' _ hitem hbytes haccepts _ =>
    obtain ⟨rest, hbytes⟩ := hbytes
    have hok := readEncodedValue_ok hitem hbytes haccepts
    obtain ⟨rfl, rfl⟩ := EStateM.Result.ok.inj (h.symm.trans hok)
    exact ⟨hitem, ⟨rest, hbytes⟩, (allows_iff_accepts hitem).mpr haccepts, rfl⟩
  | @closed type frame nestedItems footer rounds' _ hcloses hzero _ =>
    exfalso
    have htype := hzero rfl
    cases hcloses with
    | atEnd hcontainer _ =>
      rw [htype] at hcontainer
      simp at hcontainer
    | atBreak _ _ hat =>
      apply hbreak
      refine ⟨by rw [hat.type, htype], by rw [hat.bytes]; rfl⟩

theorem skipValue_eq_ok_iff :
    skipValue reader = .ok () reader' ↔ ∃ value, readEncodedValue reader = .ok value reader' := by
  constructor
  · intro h
    obtain ⟨value, moved, hread, hpure⟩ := run_bind_eq_ok h
    cases hpure
    exact ⟨value, hread⟩
  · rintro ⟨value, hread⟩
    exact run_bind_ok hread

theorem readsOneItem_of_not_break (hbreak : ¬AtByteStringBreak reader) : ReadsOneItem reader where
  succeeds := by
    constructor
    · rintro ⟨value, reader', hread⟩
      obtain ⟨hitem, ⟨rest, hbytes⟩, hallows, _⟩ := readEncodedValue_eq_ok hbreak hread
      exact ⟨value, rest, hitem, hbytes, hallows⟩
    · rintro ⟨item, rest, hitem, hbytes, hallows⟩
      exact ⟨item, _, readEncodedValue_ok hitem hbytes ((allows_iff_accepts hitem).mp hallows)⟩
  value := by
    intro item rest hitem hbytes hallows
    exact ⟨_, readEncodedValue_ok hitem hbytes ((allows_iff_accepts hitem).mp hallows)⟩
  consumed := by
    intro value reader' hread
    obtain ⟨_, ⟨rest, hbytes⟩, _, rfl⟩ := readEncodedValue_eq_ok hbreak hread
    refine ⟨rfl, ?_⟩
    rw [CborReader.getRemainingBytes_pass, hbytes, List.drop_left]
  nested := by
    intro value reader' hread
    obtain ⟨_, _, _, rfl⟩ := readEncodedValue_eq_ok hbreak hread
    rfl
  counted := by
    intro value reader' hread
    obtain ⟨_, _, _, rfl⟩ := readEncodedValue_eq_ok hbreak hread
    rfl
  skipped := fun _ => skipValue_eq_ok_iff

theorem atBreak_of_invariant (hinvariant : ReaderInvariant reader)
    (hbreak : AtByteStringBreak reader) :
    ∃ frame nestedItems rest, AtBreak reader .byteString frame nestedItems rest := by
  obtain ⟨htype, hhead⟩ := hbreak
  have hstring : reader.currentFrame.isString = true := by simp [StackFrame.isString, htype]
  obtain ⟨hindefinite, huntagged⟩ := hinvariant.strings hstring
  obtain ⟨frame, nestedItems, hnested⟩ :
      ∃ frame nestedItems, reader.nestedItems = frame :: nestedItems := by
    apply List.exists_cons_of_ne_nil
    rw [Ne, hinvariant.root_iff, htype]
    simp
  exact ⟨frame, nestedItems, _, (List.cons_head?_tail hhead).symm, htype, hindefinite, hnested,
    huntagged⟩

/-- The break byte of an open byte string is read as if it were a value: the
sibling case for text strings refuses it at depth zero. -/
theorem readEncodedValue_break {nestedItems : List StackFrame}
    (hat : AtBreak reader .byteString frame nestedItems rest) :
    readEncodedValue reader =
      .ok [indefiniteLengthBreakByte] (reader.leave 1 frame nestedItems) := by
  have htoken : skipToken 0 .endIndefiniteLengthByteString reader =
      .ok (0 - 1) (reader.leave 1 frame nestedItems) :=
    run_bind_ok hat.readEndIndefiniteLengthString
  have hnodes := skipNodes_round (hat.closes (by simp) (by simp)).1 (by decide) htoken
    (2 * reader.getRemainingBytes.length)
  rw [continueAt, if_neg (by omega)] at hnodes
  have hslice : (reader.data.bytes.take (reader.offset + 1)).drop reader.offset =
      [indefiniteLengthBreakByte] := by
    rw [List.drop_take, Nat.add_sub_cancel_left]
    change reader.getRemainingBytes.take 1 = _
    rw [hat.bytes]
    rfl
  change (skipNodes (2 * reader.getRemainingBytes.length + 1) 0 >>= fun _ => _) reader = _
  rw [run_bind_ok hnodes]
  exact congrArg (fun bytes => EStateM.Result.ok bytes _) hslice

theorem not_readsOneItem_of_break (hinvariant : ReaderInvariant reader)
    (hbreak : AtByteStringBreak reader) : ¬ReadsOneItem reader := by
  intro h
  obtain ⟨frame, nestedItems, rest', hat⟩ := atBreak_of_invariant hinvariant hbreak
  obtain ⟨item, rest, hitem, hbytes, _⟩ := h.succeeds.mp ⟨_, _, readEncodedValue_break hat⟩
  obtain ⟨first, tail, rfl, hfirst⟩ := hitem.exists_cons
  have hhead := hbreak.2
  rw [hbytes] at hhead
  exact hfirst (Option.some.inj hhead)

/-- In every state that public calls lead to, one item is consumed unless the
reader is at the break byte of an open indefinite-length byte string. -/
theorem readEncodedValue_consumes_one_item_iff (data : Uint8Array) (calls : List CborReaderCall) :
    ReadsOneItem ((CborReader.new data).performAll calls) ↔
      ¬AtByteStringBreak ((CborReader.new data).performAll calls) := by
  constructor
  · intro h hbreak
    exact not_readsOneItem_of_break ((ReaderInvariant.new data).performAll calls) hbreak h
  · exact readsOneItem_of_not_break

/-- The empty indefinite-length byte string, entered: its break is consumed. -/
theorem break_of_entered_byteString_consumed :
    ¬ReadsOneItem ((CborReader.new ⟨[0x5f, 0xff], by decide⟩).performAll
      [.readStartIndefiniteLengthByteString]) := by
  apply not_readsOneItem_of_break ((ReaderInvariant.new _).performAll _)
  constructor <;> decide

end CardanoSdk.Cbor
