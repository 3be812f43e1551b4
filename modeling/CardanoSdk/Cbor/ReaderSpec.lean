import CardanoSdk.Cbor.Reader
import CardanoSdk.Lib.Actions
import CardanoSdk.Lib.CborGrammar
import CardanoSdk.Lib.Collections

/-!
What each read method does, in terms of the bytes that remain: one lemma for every way it
can go.
-/

namespace CardanoSdk.Cbor

open Lib

/-! ### Initial bytes -/

theorem CborMajorType.toNat_lt (type : CborMajorType) : type.toNat < 8 := by
  cases type <;> decide

variable {type : CborMajorType} {byte : UInt8} {width : ℕ} {payload data : List UInt8}

theorem CborMajorType.toNat_injective {type' : CborMajorType} (h : type.toNat = type'.toNat) :
    type = type' := by
  cases type <;> cases type' <;> first | rfl | exact absurd h (by decide)

theorem getAdditionalInfo_eq (byte : UInt8) : getAdditionalInfo byte = byte.toNat % 32 :=
  Nat.and_two_pow_sub_one_eq_mod byte.toNat 5

theorem getMajorType_toNat (byte : UInt8) : (getMajorType byte).toNat = byte.toNat / 32 := by
  have hlt : byte.toNat / 32 < 8 := by
    have := byte.toNat_lt
    omega
  unfold getMajorType
  rw [Nat.shiftRight_eq_div_pow]
  norm_num only
  interval_cases byte.toNat / 32 <;> rfl

variable {bytes argument info : ℕ} {expectedType : Option CborMajorType} {header first : UInt8}
  {rest : List UInt8}

@[simp] theorem getMajorType_initialByte (type : CborMajorType) (hinfo : info < 32) :
    getMajorType (initialByte type.toNat info) = type := by
  apply CborMajorType.toNat_injective
  rw [getMajorType_toNat, initialByte_toNat type.toNat_lt hinfo]
  omega

@[simp] theorem getAdditionalInfo_initialByte (type : CborMajorType) (hinfo : info < 32) :
    getAdditionalInfo (initialByte type.toNat info) = info := by
  rw [getAdditionalInfo_eq, initialByte_toNat type.toNat_lt hinfo]
  omega

theorem eq_initialByte_of {byte : UInt8} :
    byte = initialByte (getMajorType byte).toNat (getAdditionalInfo byte) := by
  rw [getMajorType_toNat, getAdditionalInfo_eq]
  exact eq_initialByte byte

theorem initialByte_ne_break (type : CborMajorType) (hinfo : info < 31) :
    initialByte type.toNat info ≠ indefiniteLengthBreakByte := by
  intro heq
  have hinfo' := congrArg getAdditionalInfo heq
  rw [getAdditionalInfo_initialByte type (by omega)] at hinfo'
  have hbreak : getAdditionalInfo indefiniteLengthBreakByte = 31 := rfl
  omega

/-! ### Changes of state -/

namespace CborReader

variable (reader : CborReader)

def pass (items bytes : ℕ) : CborReader :=
  { reader with
    offset := reader.offset + bytes
    cachedState := .undefined
    currentFrame := { reader.currentFrame with itemsRead := reader.currentFrame.itemsRead + items }
    isTagContext := false }

def tagged (bytes : ℕ) : CborReader :=
  { reader with
    offset := reader.offset + bytes
    cachedState := .undefined
    isTagContext := true }

def enter (bytes : ℕ) (type : CborMajorType) (definiteLength : Option ℕ) : CborReader :=
  { reader with
    offset := reader.offset + bytes
    cachedState := .undefined
    nestedItems := reader.currentFrame :: reader.nestedItems
    currentFrame := {
      type := some type
      definiteLength := definiteLength
      itemsRead := 0
      frameOffset := reader.offset + bytes
      currentKeyOffset := if type = .map then some (reader.offset + bytes) else none }
    isTagContext := false }

/-- Back to an outer frame, in which the frame left counts as one item. -/
def leave (bytes : ℕ) (frame : StackFrame) (nestedItems : List StackFrame) : CborReader :=
  { reader with
    offset := reader.offset + bytes
    cachedState := .undefined
    nestedItems := nestedItems
    currentFrame := { frame with itemsRead := frame.itemsRead + 1 }
    isTagContext := false }

def cached (state : CborReaderState) : CborReader := { reader with cachedState := state }

theorem getRemainingBytes_pass (items bytes : ℕ) :
    (reader.pass items bytes).getRemainingBytes = reader.getRemainingBytes.drop bytes := by
  simp [getRemainingBytes, pass, List.drop_drop]

theorem getRemainingBytes_tagged (bytes : ℕ) :
    (reader.tagged bytes).getRemainingBytes = reader.getRemainingBytes.drop bytes := by
  simp [getRemainingBytes, tagged, List.drop_drop]

theorem getRemainingBytes_enter (bytes : ℕ) (type : CborMajorType) (definiteLength : Option ℕ) :
    (reader.enter bytes type definiteLength).getRemainingBytes =
      reader.getRemainingBytes.drop bytes := by
  simp [getRemainingBytes, enter, List.drop_drop]

theorem getRemainingBytes_leave (bytes : ℕ) (frame : StackFrame) (nestedItems : List StackFrame) :
    (reader.leave bytes frame nestedItems).getRemainingBytes =
      reader.getRemainingBytes.drop bytes := by
  simp [getRemainingBytes, leave, List.drop_drop]

theorem pass_pass (items bytes items' bytes' : ℕ) :
    (reader.pass items bytes).pass items' bytes' = reader.pass (items + items') (bytes + bytes') := by
  simp [pass, Nat.add_assoc]

theorem tagged_pass (bytes items bytes' : ℕ) :
    (reader.tagged bytes).pass items bytes' = reader.pass items (bytes + bytes') := by
  simp [tagged, pass, Nat.add_assoc]

@[simp] theorem cached_pass (state : CborReaderState) (items bytes : ℕ) :
    (reader.cached state).pass items bytes = reader.pass items bytes := rfl

@[simp] theorem cached_leave (state : CborReaderState) (bytes : ℕ) (frame : StackFrame)
    (nestedItems : List StackFrame) :
    (reader.cached state).leave bytes frame nestedItems = reader.leave bytes frame nestedItems := rfl

theorem enter_pass_leave (bytes items bytes' bytes'' : ℕ) (type : CborMajorType)
    (definiteLength : Option ℕ) :
    ((reader.enter bytes type definiteLength).pass items bytes').leave bytes''
      reader.currentFrame reader.nestedItems = reader.pass 1 (bytes + bytes' + bytes'') := by
  simp [enter, pass, leave, Nat.add_assoc]

theorem getRemainingBytes_length :
    reader.getRemainingBytes.length = reader.data.length - reader.offset := by
  simp [getRemainingBytes, Uint8Array.length]

theorem getElem?_offset : reader.data.bytes[reader.offset]? = reader.getRemainingBytes.head? := by
  rw [getRemainingBytes, List.head?_drop]

theorem getRemainingBytes_lt : reader.getRemainingBytes.length < 2 ^ 53 := by
  have hbound := reader.data.bound
  rw [getRemainingBytes_length, Uint8Array.length]
  omega

end CborReader

/-! ### The primitive actions -/

variable {reader reader' : CborReader} {α : Type}

theorem peeking_ok {peek : CborReader → Except CborException α} {value : α}
    (h : peek reader = .ok value) : peeking peek reader = .ok value reader := by
  rw [peeking, h]

theorem peeking_error {peek : CborReader → Except CborException α} {exception : CborException}
    (h : peek reader = .error exception) : peeking peek reader = .error exception reader := by
  rw [peeking, h]

theorem peeking_eq_ok {peek : CborReader → Except CborException α} {value : α}
    (h : peeking peek reader = .ok value reader') :
    peek reader = .ok value ∧ reader' = reader := by
  unfold peeking at h
  split at h
  · cases h
    exact ⟨by assumption, rfl⟩
  · cases h

theorem advanceBuffer_ok (hpos : 0 < bytes) (hfit : bytes ≤ reader.getRemainingBytes.length) :
    advanceBuffer bytes reader =
      .ok () { reader with offset := reader.offset + bytes, cachedState := .undefined } := by
  rw [CborReader.getRemainingBytes_length] at hfit
  rw [advanceBuffer, if_neg (by omega)]

theorem advanceBuffer_eq_ok (h : advanceBuffer bytes reader = .ok () reader') :
    reader.offset + bytes ≤ reader.data.length ∧
      reader' = { reader with offset := reader.offset + bytes, cachedState := .undefined } := by
  unfold advanceBuffer at h
  split at h
  · cases h
  · cases h
    exact ⟨by omega, rfl⟩

section ReadItem

variable {peek : CborReader → Except CborException (α × ℕ)} {value : α} {bytes : ℕ}

theorem readItem_ok (hpeek : peek reader = .ok (value, bytes)) (hpos : 0 < bytes)
    (hfit : bytes ≤ reader.getRemainingBytes.length) :
    readItem peek reader = .ok value (reader.pass 1 bytes) := by
  unfold readItem
  rw [run_bind_ok (peeking_ok hpeek)]
  dsimp only
  rw [run_bind_ok (advanceBuffer_ok hpos hfit)]
  rfl

theorem readItem_error {exception : CborException} (hpeek : peek reader = .error exception) :
    readItem peek reader = .error exception reader := by
  unfold readItem
  rw [run_bind_error (peeking_error hpeek)]

theorem readItem_eq_ok (h : readItem peek reader = .ok value reader') :
    ∃ bytes, peek reader = .ok (value, bytes) ∧ reader.offset + bytes ≤ reader.data.length ∧
      reader' = reader.pass 1 bytes := by
  unfold readItem at h
  obtain ⟨⟨value', bytes⟩, middle, hpeeking, hmove⟩ := run_bind_eq_ok h
  obtain ⟨hpeek, hsame⟩ := peeking_eq_ok hpeeking
  rw [hsame] at hmove
  obtain ⟨_, moved, hmoved, hcount⟩ := run_bind_eq_ok hmove
  obtain ⟨hfit, rfl⟩ := advanceBuffer_eq_ok hmoved
  cases hcount
  exact ⟨bytes, hpeek, hfit, rfl⟩

end ReadItem

/-! ### The next byte -/

theorem peekInitialByte_ok (hroom : reader.currentFrame.isComplete = false)
    (hhead : reader.getRemainingBytes.head? = some byte)
    (hallowed : reader.currentFrame.refuses byte = false)
    (htype : ∀ type, expectedType = some type → getMajorType byte = type) :
    peekInitialByte expectedType reader = .ok byte := by
  unfold peekInitialByte
  rw [CborReader.getElem?_offset, hhead]
  simp only [hroom, hallowed, Bool.false_eq_true, if_false]
  cases expectedType with
  | none => rfl
  | some type => simp [htype type rfl]

theorem peekInitialByte_eq_ok (h : peekInitialByte expectedType reader = .ok byte) :
    reader.currentFrame.isComplete = false ∧ reader.getRemainingBytes.head? = some byte ∧
      reader.currentFrame.refuses byte = false ∧
      ∀ type, expectedType = some type → getMajorType byte = type := by
  unfold peekInitialByte at h
  rw [CborReader.getElem?_offset] at h
  split at h
  · cases h
  · rename_i hroom
    split at h
    · split at h <;> cases h
    · rename_i first hhead
      split at h
      · cases h
      · rename_i hallowed
        have hframe : reader.currentFrame.isComplete = false ∧
            reader.currentFrame.refuses first = false :=
          ⟨Bool.eq_false_of_not_eq_true hroom, Bool.eq_false_of_not_eq_true hallowed⟩
        cases expectedType with
        | none =>
          cases h
          exact ⟨hframe.1, hhead, hframe.2, by simp⟩
        | some type =>
          dsimp only at h
          split at h
          · cases h
          · rename_i htype
            cases h
            refine ⟨hframe.1, hhead, hframe.2, ?_⟩
            intro type' htype'
            cases htype'
            exact (not_not.mp htype).symm

/-! ### Arguments -/

theorem decodeArgument_ok (hlength : payload.length = width) :
    decodeArgument width (header :: (payload ++ rest)) = .ok (ofBytesBE payload, width + 1) := by
  unfold decodeArgument ensureReadCapacityInArray
  rw [if_neg (by simp; omega)]
  simp only [List.drop_succ_cons, List.drop_zero, List.take_left' hlength]
  rfl

theorem decodeArgument_eq_ok (h : decodeArgument width (header :: data) = .ok (argument, bytes)) :
    ∃ payload rest, data = payload ++ rest ∧ payload.length = width ∧
      argument = ofBytesBE payload ∧ bytes = width + 1 := by
  unfold decodeArgument ensureReadCapacityInArray at h
  split at h
  · cases h
  · rename_i hlength
    cases h
    simp only [List.length_cons] at hlength
    exact ⟨data.take width, data.drop width, by simp, by simp; omega, rfl, rfl⟩

theorem decodeUnsignedInteger_ok (h : Head type.toNat argument (header :: payload)) :
    decodeUnsignedInteger header (header :: (payload ++ rest)) =
      .ok (argument, payload.length + 1) := by
  unfold decodeUnsignedInteger
  cases h with
  | short hargument =>
    rw [getAdditionalInfo_initialByte type (by omega)]
    exact if_pos hargument
  | long hwidth hlength =>
    have hinfo := hwidth.bounds
    rw [getAdditionalInfo_initialByte type (by omega)]
    cases hwidth <;>
      simp [additional8BitData, additional16BitData, additional32BitData, additional64BitData,
        decodeArgument_ok hlength, hlength]

theorem decodeUnsignedInteger_eq_ok
    (h : decodeUnsignedInteger header (header :: data) = .ok (argument, bytes)) :
    ∃ payload rest, data = payload ++ rest ∧ bytes = payload.length + 1 ∧
      Head (getMajorType header).toNat argument (header :: payload) := by
  have hheader : header = initialByte (getMajorType header).toNat (getAdditionalInfo header) :=
    eq_initialByte_of
  have hlong {info width : ℕ} (hinfo : getAdditionalInfo header = info)
      (hwidth : ArgumentWidth info width)
      (h : decodeArgument width (header :: data) = .ok (argument, bytes)) :
      ∃ payload rest, data = payload ++ rest ∧ bytes = payload.length + 1 ∧
        Head (getMajorType header).toNat argument (header :: payload) := by
    obtain ⟨payload, rest, hdata, hlength, rfl, rfl⟩ := decodeArgument_eq_ok h
    refine ⟨payload, rest, hdata, by omega, ?_⟩
    have hhead := @Head.long (getMajorType header).toNat _ _ _ hwidth hlength
    rwa [← hinfo, ← hheader] at hhead
  unfold decodeUnsignedInteger at h
  split at h
  · rename_i hshort
    cases h
    refine ⟨[], data, rfl, rfl, ?_⟩
    have hhead := @Head.short (getMajorType header).toNat _ hshort
    rwa [← hheader] at hhead
  · split at h
    · exact hlong (by assumption) ArgumentWidth.one h
    · split at h
      · exact hlong (by assumption) ArgumentWidth.two h
      · split at h
        · exact hlong (by assumption) ArgumentWidth.four h
        · split at h
          · exact hlong (by assumption) ArgumentWidth.eight h
          · cases h

/-! ### Heads in the remaining bytes -/

/-- The frame has room for an item and does not refuse its first byte. -/
structure StackFrame.Accepts (frame : StackFrame) (first : UInt8) : Prop where
  room : frame.isComplete = false
  allowed : frame.refuses first = false

theorem peekInitialByte_accepts (hbytes : reader.getRemainingBytes = first :: rest)
    (haccepts : reader.currentFrame.Accepts first)
    (htype : ∀ type, expectedType = some type → getMajorType first = type) :
    peekInitialByte expectedType reader = .ok first :=
  peekInitialByte_ok haccepts.room (by rw [hbytes, List.head?_cons]) haccepts.allowed htype

theorem accepts_of_peekInitialByte (h : peekInitialByte expectedType reader = .ok first) :
    reader.currentFrame.Accepts first ∧ ∃ rest, reader.getRemainingBytes = first :: rest := by
  obtain ⟨hroom, hhead, hallowed, _⟩ := peekInitialByte_eq_ok h
  refine ⟨⟨hroom, hallowed⟩, reader.getRemainingBytes.tail, ?_⟩
  exact (List.cons_head?_tail hhead).symm

theorem head_first {type : CborMajorType} {argument : ℕ} {head : List UInt8}
    (h : Head type.toNat argument head) :
    ∃ first payload, head = first :: payload ∧ getMajorType first = type ∧
      getAdditionalInfo first ≠ indefiniteLength ∧ first ≠ indefiniteLengthBreakByte ∧
      ∀ rest, decodeUnsignedInteger first (head ++ rest) = .ok (argument, head.length) := by
  obtain ⟨info, payload, hinfo, rfl⟩ := h.exists_cons
  refine ⟨_, payload, rfl, getMajorType_initialByte type (by omega), ?_,
    initialByte_ne_break type (by omega), fun rest => decodeUnsignedInteger_ok h⟩
  rw [getAdditionalInfo_initialByte type (by omega)]
  unfold indefiniteLength
  omega

theorem head_of_decode (hbytes : reader.getRemainingBytes = first :: rest)
    (h : decodeUnsignedInteger first reader.getRemainingBytes = .ok (argument, bytes)) :
    ∃ payload rest', reader.getRemainingBytes = (first :: payload) ++ rest' ∧
      bytes = (first :: payload).length ∧
      Head (getMajorType first).toNat argument (first :: payload) := by
  rw [hbytes] at h
  obtain ⟨payload, rest', rfl, rfl, hhead⟩ := decodeUnsignedInteger_eq_ok h
  exact ⟨payload, rest', hbytes, rfl, hhead⟩

section Reading

variable {argument : ℕ} {head rest : List UInt8}

theorem peek_head (type : CborMajorType) {expectedType : Option CborMajorType}
    (hexpected : ∀ type', expectedType = some type' → type = type')
    (hhead : Head type.toNat argument head) (hbytes : reader.getRemainingBytes = head ++ rest)
    (haccepts : ∀ first ∈ head.head?, reader.currentFrame.Accepts first) :
    ∃ first, peekInitialByte expectedType reader = .ok first ∧ getMajorType first = type ∧
      getAdditionalInfo first ≠ indefiniteLength ∧
      decodeUnsignedInteger first reader.getRemainingBytes = .ok (argument, head.length) := by
  obtain ⟨first, payload, hcons, htype, hinfo, _, hdecode⟩ := head_first hhead
  refine ⟨first, ?_, htype, hinfo, ?_⟩
  · apply peekInitialByte_accepts
    · rw [hbytes, hcons]
      rfl
    · exact haccepts first (by simp [hcons])
    · intro type' htype'
      rw [htype, hexpected type' htype']
  · rw [hbytes]
    exact hdecode rest

theorem head_fits {major : ℕ} (hhead : Head major argument head)
    (hbytes : reader.getRemainingBytes = head ++ rest) :
    0 < head.length ∧ head.length ≤ reader.getRemainingBytes.length := by
  refine ⟨hhead.length_pos, ?_⟩
  rw [hbytes, List.length_append]
  omega

/-! ### Integers -/

theorem readUInt_ok (hhead : Head 0 argument head) (hbytes : reader.getRemainingBytes = head ++ rest)
    (haccepts : ∀ first ∈ head.head?, reader.currentFrame.Accepts first) :
    readUInt reader = .ok argument (reader.pass 1 head.length) := by
  obtain ⟨hpos, hfit⟩ := head_fits hhead hbytes
  obtain ⟨first, hpeek, htype, _, hdecode⟩ :=
    @peek_head _ _ _ _ .unsignedInteger none (by simp) hhead hbytes haccepts
  apply readItem_ok _ hpos hfit
  unfold peekUnsignedInteger
  simp only [hpeek, bind, Except.bind, htype, hdecode]

theorem readCborNegativeIntegerRepresentation_ok (hhead : Head 1 argument head)
    (hbytes : reader.getRemainingBytes = head ++ rest)
    (haccepts : ∀ first ∈ head.head?, reader.currentFrame.Accepts first) :
    readCborNegativeIntegerRepresentation reader = .ok argument (reader.pass 1 head.length) := by
  obtain ⟨hpos, hfit⟩ := head_fits hhead hbytes
  obtain ⟨first, hpeek, htype, _, hdecode⟩ :=
    @peek_head _ _ _ _ .negativeInteger (some .negativeInteger) (by simp) hhead hbytes haccepts
  apply readItem_ok _ hpos hfit
  simp only [hpeek, bind, Except.bind, hdecode]

theorem readInt_unsigned_ok (hhead : Head 0 argument head)
    (hbytes : reader.getRemainingBytes = head ++ rest)
    (haccepts : ∀ first ∈ head.head?, reader.currentFrame.Accepts first) :
    readInt reader = .ok (argument : ℤ) (reader.pass 1 head.length) := by
  obtain ⟨hpos, hfit⟩ := head_fits hhead hbytes
  obtain ⟨first, hpeek, htype, _, hdecode⟩ :=
    @peek_head _ _ _ _ .unsignedInteger none (by simp) hhead hbytes haccepts
  apply readItem_ok _ hpos hfit
  unfold peekSignedInteger
  simp only [hpeek, bind, Except.bind, htype, hdecode]
  rfl

theorem readInt_negative_ok (hhead : Head 1 argument head)
    (hbytes : reader.getRemainingBytes = head ++ rest)
    (haccepts : ∀ first ∈ head.head?, reader.currentFrame.Accepts first) :
    readInt reader = .ok (-1 - (argument : ℤ)) (reader.pass 1 head.length) := by
  obtain ⟨hpos, hfit⟩ := head_fits hhead hbytes
  obtain ⟨first, hpeek, htype, _, hdecode⟩ :=
    @peek_head _ _ _ _ .negativeInteger none (by simp) hhead hbytes haccepts
  apply readItem_ok _ hpos hfit
  unfold peekSignedInteger
  simp only [hpeek, bind, Except.bind, htype, hdecode]
  rfl

/-! ### Strings -/

variable {first : UInt8}

variable {payload : List UInt8}

theorem peekDefiniteLengthString_ok
    (hdecode : decodeUnsignedInteger first reader.getRemainingBytes =
      .ok (payload.length, head.length))
    (hbytes : reader.getRemainingBytes = head ++ payload ++ rest) :
    peekDefiniteLengthString first reader = .ok (payload, head.length + payload.length) := by
  have hlt := reader.getRemainingBytes_lt
  have hlength := reader.getRemainingBytes_length
  rw [hbytes] at hlt hlength
  simp only [List.length_append] at hlt hlength
  unfold peekDefiniteLengthString peekDefiniteLength CborReader.ensureReadCapacity
  simp only [hdecode, bind, Except.bind, pure, Except.pure]
  rw [roundToDouble_of_lt (by omega), if_neg (by omega), hbytes, List.append_assoc,
    List.drop_left, List.take_left]

theorem peekDefiniteLengthString_eq_ok {tail value : List UInt8}
    (hbytes : reader.getRemainingBytes = first :: tail)
    (h : peekDefiniteLengthString first reader = .ok (value, bytes)) :
    ∃ head rest, Head (getMajorType first).toNat value.length head ∧
      reader.getRemainingBytes = head ++ value ++ rest ∧ bytes = (head ++ value).length := by
  unfold peekDefiniteLengthString at h
  obtain ⟨⟨length, headBytes⟩, hlength, hrest⟩ := bind_ok h
  obtain ⟨_, hcapacity, hpure⟩ := bind_ok hrest
  cases hpure
  unfold peekDefiniteLength at hlength
  obtain ⟨⟨argument, bytesRead⟩, hdecode, hpure⟩ := bind_ok hlength
  cases hpure
  obtain ⟨payload, tail', hsplit, rfl, hhead⟩ := head_of_decode hbytes hdecode
  have hremaining := reader.getRemainingBytes_length
  have hlt := reader.getRemainingBytes_lt
  unfold CborReader.ensureReadCapacity at hcapacity
  split at hcapacity
  · cases hcapacity
  · rename_i hfit
    rw [hsplit, List.length_append] at hremaining hlt
    have hround : roundToDouble argument = argument := by
      rcases @roundToDouble_eq_or argument with heq | ⟨_, hlarge⟩
      · exact heq
      · omega
    rw [hround] at hfit ⊢
    have hvalue : ((reader.getRemainingBytes.drop (first :: payload).length).take
        argument) = tail'.take argument := by rw [hsplit, List.drop_left]
    have hargument : (tail'.take argument).length = argument := by
      rw [List.length_take]
      omega
    refine ⟨first :: payload, tail'.drop argument, ?_, ?_, ?_⟩
    · rw [hvalue, hargument]
      exact hhead
    · rw [hvalue, List.append_assoc, List.take_append_drop]
      exact hsplit
    · rw [hvalue, List.length_append, hargument]

theorem peekString_ok (type : CborMajorType) (hhead : Head type.toNat payload.length head)
    (hbytes : reader.getRemainingBytes = head ++ payload ++ rest)
    (haccepts : ∀ first ∈ head.head?, reader.currentFrame.Accepts first) :
    peekString type reader = .ok (payload, head.length + payload.length) := by
  obtain ⟨first, hpeek, _, hinfo, hdecode⟩ :=
    @peek_head _ _ _ _ type (some type) (by simp) hhead
      (by rw [hbytes, List.append_assoc]) haccepts
  unfold peekString
  simp only [hpeek, bind, Except.bind]
  rw [if_neg hinfo, peekDefiniteLengthString_ok hdecode hbytes]

theorem readString_ok (type : CborMajorType) {payload : List UInt8}
    (hhead : Head type.toNat payload.length head)
    (hbytes : reader.getRemainingBytes = head ++ payload ++ rest)
    (haccepts : ∀ first ∈ head.head?, reader.currentFrame.Accepts first) :
    readItem (peekString type) reader = .ok payload (reader.pass 1 (head ++ payload).length) := by
  rw [List.length_append]
  apply readItem_ok (peekString_ok type hhead hbytes haccepts)
  · have hpos := hhead.length_pos
    omega
  · rw [hbytes]
    simp only [List.length_append]
    omega

/-! ### Simple values and floats -/

theorem peek_simple (hinfo : info < 32)
    (hbytes : reader.getRemainingBytes = initialByte 7 info :: rest)
    (haccepts : reader.currentFrame.Accepts (initialByte 7 info)) :
    peekInitialByte (some .simple) reader = .ok (initialByte 7 info) ∧
      getAdditionalInfo (initialByte 7 info) = info := by
  constructor
  · apply peekInitialByte_accepts hbytes haccepts
    intro type htype
    cases htype
    exact getMajorType_initialByte .simple hinfo
  · exact getAdditionalInfo_initialByte .simple hinfo

theorem readSimpleValue_ok {value : ℕ} (hvalue : value < 24)
    (hbytes : reader.getRemainingBytes = initialByte 7 value :: rest)
    (haccepts : reader.currentFrame.Accepts (initialByte 7 value)) :
    readSimpleValue reader = .ok value (reader.pass 1 1) := by
  obtain ⟨hpeek, hinfo⟩ := peek_simple (by omega) hbytes haccepts
  apply readItem_ok _ (by omega) (by rw [hbytes]; simp)
  simp only [hpeek, bind, Except.bind, hinfo]
  exact if_pos hvalue

theorem readSimpleValue_byte_ok {value : UInt8}
    (hbytes : reader.getRemainingBytes = initialByte 7 24 :: value :: rest)
    (haccepts : reader.currentFrame.Accepts (initialByte 7 24)) :
    ∃ number, readSimpleValue reader = .ok number (reader.pass 1 2) := by
  obtain ⟨hpeek, hinfo⟩ := peek_simple (by omega) hbytes haccepts
  have hlength := reader.getRemainingBytes_length
  rw [hbytes] at hlength
  simp only [List.length_cons] at hlength
  refine ⟨((reader.data.bytes[reader.offset + 1]?).getD 0).toNat, ?_⟩
  apply readItem_ok _ (by omega) (by rw [hbytes]; simp)
  simp only [hpeek, bind, Except.bind, hinfo]
  have hcapacity : reader.ensureReadCapacity 2 = .ok () := by
    rw [CborReader.ensureReadCapacity, if_neg (by omega)]
  simp [additional8BitData, hcapacity, pure, Except.pure]

theorem readDouble_ok {width : ℕ} {bits : List UInt8} (hwidth : ArgumentWidth info width)
    (hne : info ≠ 24) (hlength : bits.length = width)
    (hbytes : reader.getRemainingBytes = initialByte 7 info :: (bits ++ rest))
    (haccepts : reader.currentFrame.Accepts (initialByte 7 info)) :
    readDouble reader = .ok bits (reader.pass 1 (width + 1)) := by
  have hbounds := hwidth.bounds
  obtain ⟨hpeek, hinfo⟩ := peek_simple (by omega) hbytes haccepts
  have hremaining := reader.getRemainingBytes_length
  rw [hbytes] at hremaining
  simp only [List.length_cons, List.length_append] at hremaining
  apply readItem_ok _ (by omega) (by rw [hbytes]; simp; omega)
  have hcapacity : reader.ensureReadCapacity (width + 1) = .ok () := by
    rw [CborReader.ensureReadCapacity, if_neg (by omega)]
  have hbits : (reader.getRemainingBytes.drop 1).take width = bits := by
    rw [hbytes, List.drop_succ_cons, List.drop_zero, List.take_left' hlength]
  rw [List.drop_one] at hbits
  simp only [hpeek, bind, Except.bind, hinfo]
  cases hwidth with
  | one => exact absurd rfl hne
  | two => simp [additional16BitData, hcapacity, hbits, pure, Except.pure]
  | four =>
    simp [additional16BitData, additional32BitData, hcapacity, hbits, pure, Except.pure]
  | eight =>
    simp [additional16BitData, additional32BitData, additional64BitData, hcapacity, hbits, pure,
      Except.pure]

theorem readBoolean_ok (value : Bool)
    (hbytes : reader.getRemainingBytes = initialByte 7 (if value then 21 else 20) :: rest)
    (haccepts : reader.currentFrame.Accepts (initialByte 7 (if value then 21 else 20))) :
    readBoolean reader = .ok value (reader.pass 1 1) := by
  obtain ⟨hpeek, hinfo⟩ := peek_simple (by split <;> omega) hbytes haccepts
  apply readItem_ok _ (by omega) (by rw [hbytes]; simp)
  simp only [hpeek, bind, Except.bind, hinfo]
  cases value <;> simp [additionalTrue, additionalFalse, pure, Except.pure]

theorem readNull_ok (hbytes : reader.getRemainingBytes = initialByte 7 22 :: rest)
    (haccepts : reader.currentFrame.Accepts (initialByte 7 22)) :
    readNull reader = .ok () (reader.pass 1 1) := by
  obtain ⟨hpeek, hinfo⟩ := peek_simple (by omega) hbytes haccepts
  apply readItem_ok _ (by omega) (by rw [hbytes]; simp)
  simp only [hpeek, bind, Except.bind, hinfo]
  simp [additionalNull, pure, Except.pure]

/-! ### Tags -/

theorem peekTagCore_ok (hhead : Head 6 argument head)
    (hbytes : reader.getRemainingBytes = head ++ rest)
    (haccepts : ∀ first ∈ head.head?, reader.currentFrame.Accepts first) :
    peekTagCore reader = .ok (roundToDouble argument, head.length) := by
  obtain ⟨first, hpeek, _, _, hdecode⟩ :=
    @peek_head _ _ _ _ .tag (some .tag) (by simp) hhead hbytes haccepts
  unfold peekTagCore
  simp only [hpeek, hdecode, bind, Except.bind]
  rfl

theorem readTag_ok (hhead : Head 6 argument head) (hbytes : reader.getRemainingBytes = head ++ rest)
    (haccepts : ∀ first ∈ head.head?, reader.currentFrame.Accepts first) :
    readTag reader = .ok (roundToDouble argument) (reader.tagged head.length) := by
  obtain ⟨hpos, hfit⟩ := head_fits hhead hbytes
  unfold readTag
  rw [run_bind_ok (peeking_ok (peekTagCore_ok hhead hbytes haccepts))]
  dsimp only
  rw [run_bind_ok (advanceBuffer_ok hpos hfit)]
  rfl

/-! ### Entering a frame -/

theorem readStartArray_ok (hhead : Head 4 argument head)
    (hbytes : reader.getRemainingBytes = head ++ rest)
    (haccepts : ∀ first ∈ head.head?, reader.currentFrame.Accepts first) :
    readStartArray reader = .ok (some (roundToDouble argument))
      (reader.enter head.length .array (some (roundToDouble argument))) := by
  obtain ⟨hpos, hfit⟩ := head_fits hhead hbytes
  obtain ⟨first, hpeek, _, hinfo, hdecode⟩ :=
    @peek_head _ _ _ _ .array (some .array) (by simp) hhead hbytes haccepts
  have hlength : peekDefiniteLength first reader.getRemainingBytes =
      .ok (roundToDouble argument, head.length) := by
    unfold peekDefiniteLength
    simp only [hdecode, bind, Except.bind]
    rfl
  unfold readStartArray
  rw [run_bind_ok (peeking_ok hpeek), if_neg hinfo, run_bind_ok (peeking_ok hlength)]
  dsimp only
  rw [run_bind_ok (advanceBuffer_ok hpos hfit)]
  rfl

theorem readStartMap_ok (hhead : Head 5 argument head)
    (hbytes : reader.getRemainingBytes = head ++ rest) (henough : 2 * argument ≤ rest.length)
    (haccepts : ∀ first ∈ head.head?, reader.currentFrame.Accepts first) :
    readStartMap reader = .ok (some argument)
      (reader.enter head.length .map (some (2 * argument))) := by
  obtain ⟨hpos, hfit⟩ := head_fits hhead hbytes
  obtain ⟨first, hpeek, _, hinfo, hdecode⟩ :=
    @peek_head _ _ _ _ .map (some .map) (by simp) hhead hbytes haccepts
  have hlt := reader.getRemainingBytes_lt
  have hsize : reader.getRemainingBytes.length - head.length = rest.length := by
    rw [hbytes, List.length_append]
    omega
  rw [hbytes, List.length_append] at hlt
  have hlength : peekDefiniteLength first reader.getRemainingBytes =
      .ok (argument, head.length) := by
    unfold peekDefiniteLength
    simp only [hdecode, bind, Except.bind]
    rw [roundToDouble_of_lt (by omega)]
    rfl
  unfold readStartMap
  rw [run_bind_ok (peeking_ok hpeek), if_neg hinfo]
  change ((peeking fun _ => peekDefiniteLength first reader.getRemainingBytes) >>= _) reader = _
  rw [run_bind_ok (peeking_ok hlength)]
  dsimp only
  rw [hsize, if_neg (by omega), run_bind_ok (advanceBuffer_ok hpos hfit)]
  rfl

theorem peek_indefinite (type : CborMajorType)
    (hbytes : reader.getRemainingBytes = initialByte type.toNat 31 :: rest)
    (haccepts : reader.currentFrame.Accepts (initialByte type.toNat 31)) :
    peekInitialByte (some type) reader = .ok (initialByte type.toNat 31) ∧
      getAdditionalInfo (initialByte type.toNat 31) = indefiniteLength ∧
      1 ≤ reader.getRemainingBytes.length := by
  refine ⟨?_, getAdditionalInfo_initialByte type (by omega), by rw [hbytes]; simp⟩
  apply peekInitialByte_accepts hbytes haccepts
  intro type' htype
  cases htype
  exact getMajorType_initialByte type (by omega)

theorem readStartArray_indefinite_ok (hbytes : reader.getRemainingBytes = initialByte 4 31 :: rest)
    (haccepts : reader.currentFrame.Accepts (initialByte 4 31)) :
    readStartArray reader = .ok none (reader.enter 1 .array none) := by
  obtain ⟨hpeek, hinfo, hfit⟩ := peek_indefinite .array hbytes haccepts
  unfold readStartArray
  rw [run_bind_ok (peeking_ok hpeek), if_pos hinfo, run_bind_ok (advanceBuffer_ok (by omega) hfit)]
  rfl

theorem readStartMap_indefinite_ok (hbytes : reader.getRemainingBytes = initialByte 5 31 :: rest)
    (haccepts : reader.currentFrame.Accepts (initialByte 5 31)) :
    readStartMap reader = .ok none (reader.enter 1 .map none) := by
  obtain ⟨hpeek, hinfo, hfit⟩ := peek_indefinite .map hbytes haccepts
  unfold readStartMap
  rw [run_bind_ok (peeking_ok hpeek), if_pos hinfo, run_bind_ok (advanceBuffer_ok (by omega) hfit)]
  rfl

theorem readStartIndefiniteLengthString_ok {type : CborMajorType} (htype : type ≠ .map)
    (hbytes : reader.getRemainingBytes = initialByte type.toNat 31 :: rest)
    (haccepts : reader.currentFrame.Accepts (initialByte type.toNat 31)) :
    readStartIndefiniteLengthString type reader = .ok () (reader.enter 1 type none) := by
  obtain ⟨hpeek, hinfo, hfit⟩ := peek_indefinite type hbytes haccepts
  unfold readStartIndefiniteLengthString
  rw [run_bind_ok (peeking_ok hpeek), if_neg (not_not.mpr hinfo),
    run_bind_ok (advanceBuffer_ok (by omega) hfit)]
  simp only [CborReader.enter, if_neg htype]
  rfl

/-! ### Leaving a frame -/

structure AtBreak (reader : CborReader) (type : CborMajorType) (frame : StackFrame)
    (nestedItems : List StackFrame) (rest : List UInt8) : Prop where
  bytes : reader.getRemainingBytes = indefiniteLengthBreakByte :: rest
  type : reader.currentFrame.type = some type
  indefinite : reader.currentFrame.definiteLength = none
  nested : reader.nestedItems = frame :: nestedItems
  untagged : reader.isTagContext = false

variable {type : CborMajorType} {frame : StackFrame} {nestedItems : List StackFrame}

theorem refuses_break (frame : StackFrame) :
    frame.refuses indefiniteLengthBreakByte = false := by
  unfold StackFrame.refuses StackFrame.refuses.isForeign
  split <;> simp

theorem AtBreak.cached (h : AtBreak reader type frame nestedItems rest) (state : CborReaderState) :
    AtBreak (reader.cached state) type frame nestedItems rest :=
  ⟨h.bytes, h.type, h.indefinite, h.nested, h.untagged⟩

theorem AtBreak.validate (h : AtBreak reader type frame nestedItems rest) :
    validateNextByteIsBreakByte reader = .ok () := by
  have hpeek : peekInitialByte none reader = .ok indefiniteLengthBreakByte := by
    apply peekInitialByte_accepts h.bytes _ (by simp)
    refine ⟨?_, refuses_break _⟩
    simp [StackFrame.isComplete, h.indefinite]
  unfold validateNextByteIsBreakByte
  simp [hpeek, bind, Except.bind]

theorem popDataItem_ok (htype : reader.currentFrame.type = some type)
    (hnested : reader.nestedItems = frame :: nestedItems)
    (hend : ∀ n, reader.currentFrame.definiteLength = some n → n ≤ reader.currentFrame.itemsRead)
    (huntagged : reader.isTagContext = false) :
    popDataItem type reader = .ok () { reader with
      nestedItems := nestedItems
      currentFrame := frame
      cachedState := .undefined } := by
  have hany : reader.currentFrame.definiteLength.any
      (fun n => reader.currentFrame.itemsRead < n) = false := by
    cases hlength : reader.currentFrame.definiteLength with
    | none => rfl
    | some n => simpa using hend n hlength
  unfold popDataItem
  simp [htype, hnested, hany, huntagged]

theorem AtBreak.leave (h : AtBreak reader type frame nestedItems rest) :
    (do popDataItem type
        advanceDataItemCounters
        advanceBuffer 1 : ReadM Unit) reader = .ok () (reader.leave 1 frame nestedItems) := by
  have hpop := popDataItem_ok h.type h.nested (by simp [h.indefinite]) h.untagged
  have hfit : reader.offset + 1 ≤ reader.data.length := by
    have hlength := reader.getRemainingBytes_length
    rw [h.bytes, List.length_cons] at hlength
    omega
  rw [run_bind_ok hpop]
  change advanceBuffer 1 _ = _
  rw [advanceBuffer, if_neg (by dsimp only; omega)]
  rfl

theorem AtBreak.readEndIndefiniteLengthString (h : AtBreak reader type frame nestedItems rest) :
    readEndIndefiniteLengthString type reader = .ok () (reader.leave 1 frame nestedItems) := by
  unfold Cbor.readEndIndefiniteLengthString
  rw [run_bind_ok (peeking_ok h.validate)]
  exact h.leave

theorem AtBreak.readEndArray (h : AtBreak reader .array frame nestedItems rest) :
    readEndArray reader = .ok () (reader.leave 1 frame nestedItems) := by
  change (if reader.currentFrame.definiteLength = none then _ else _ : ReadM Unit) reader = _
  rw [if_pos h.indefinite, run_bind_ok (peeking_ok h.validate)]
  exact h.leave

theorem AtBreak.readEndMap (h : AtBreak reader .map frame nestedItems rest)
    (heven : reader.currentFrame.itemsRead % 2 = 0) :
    readEndMap reader = .ok () (reader.leave 1 frame nestedItems) := by
  change (if reader.currentFrame.definiteLength = none then _ else _ : ReadM Unit) reader = _
  rw [if_pos h.indefinite, run_bind_ok (peeking_ok h.validate), if_neg (not_not.mpr heven)]
  exact h.leave

structure AtEnd (reader : CborReader) (type : CborMajorType) (frame : StackFrame)
    (nestedItems : List StackFrame) : Prop where
  type : reader.currentFrame.type = some type
  complete : reader.currentFrame.definiteLength = some reader.currentFrame.itemsRead
  nested : reader.nestedItems = frame :: nestedItems
  untagged : reader.isTagContext = false

theorem AtEnd.cached (h : AtEnd reader type frame nestedItems) (state : CborReaderState) :
    AtEnd (reader.cached state) type frame nestedItems :=
  ⟨h.type, h.complete, h.nested, h.untagged⟩

theorem AtEnd.leave (h : AtEnd reader type frame nestedItems) :
    (do popDataItem type
        advanceDataItemCounters : ReadM Unit) reader = .ok () (reader.leave 0 frame nestedItems) := by
  have hpop := popDataItem_ok h.type h.nested (by simp [h.complete]) h.untagged
  rw [run_bind_ok hpop]
  rfl

theorem AtEnd.readEndArray (h : AtEnd reader .array frame nestedItems) :
    readEndArray reader = .ok () (reader.leave 0 frame nestedItems) := by
  change (if reader.currentFrame.definiteLength = none then _ else _ : ReadM Unit) reader = _
  rw [if_neg (by rw [h.complete]; simp)]
  exact h.leave

theorem AtEnd.readEndMap (h : AtEnd reader .map frame nestedItems) :
    readEndMap reader = .ok () (reader.leave 0 frame nestedItems) := by
  change (if reader.currentFrame.definiteLength = none then _ else _ : ReadM Unit) reader = _
  rw [if_neg (by rw [h.complete]; simp)]
  exact h.leave

/-! ### The announced token -/

theorem peekStateCore_item (hbytes : reader.getRemainingBytes = first :: rest)
    (hbreak : first ≠ indefiniteLengthBreakByte) (haccepts : reader.currentFrame.Accepts first) :
    peekStateCore reader = .ok (peekItem first) := by
  have hallowed := haccepts.allowed
  unfold peekStateCore
  rw [CborReader.getElem?_offset, hbytes, List.head?_cons]
  simp only [haccepts.room, Bool.false_eq_true, if_false, hbreak]
  rw [if_neg]
  rintro ⟨hstring, hforeign⟩
  unfold StackFrame.refuses StackFrame.refuses.isForeign at hallowed
  rcases hstring with htype | htype
  all_goals
    rw [htype] at hforeign
    simp only [htype] at hallowed
    simp_all

theorem peekStateCore_end (h : AtEnd reader type frame nestedItems)
    (htype : type = .array ∨ type = .map) :
    peekStateCore reader = .ok (if type = .array then .endArray else .endMap) := by
  have hcomplete : reader.currentFrame.isComplete = true := by
    simp [StackFrame.isComplete, h.complete]
  unfold peekStateCore
  rw [if_pos hcomplete, h.type]
  rcases htype with rfl | rfl <;> rfl

theorem peekStateCore_break (h : AtBreak reader type frame nestedItems rest) :
    peekStateCore reader = peekBreak reader := by
  have hroom : reader.currentFrame.isComplete = false := by
    simp [StackFrame.isComplete, h.indefinite]
  unfold peekStateCore
  rw [CborReader.getElem?_offset, h.bytes, List.head?_cons]
  simp [hroom]

theorem peekState_ok {state : CborReaderState} (hcore : peekStateCore reader = .ok state)
    (hcached : reader.cachedState = .undefined ∨ reader.cachedState = state) :
    peekState reader = .ok state (reader.cached state) := by
  change (if reader.cachedState = .undefined then _ else _ : ReadM CborReaderState) reader = _
  split
  · rw [run_bind_ok (peeking_ok hcore)]
    rfl
  · rename_i hdefined
    rcases hcached with hundefined | rfl
    · exact absurd hundefined hdefined
    · rfl

end Reading

/-! ### Taking successful reads apart -/

section Inversion

structure PassedItem (reader : CborReader) (item : List UInt8) (reader' : CborReader) : Prop where
  bytes : ∃ rest, reader.getRemainingBytes = item ++ rest
  accepts : ∀ first ∈ item.head?, reader.currentFrame.Accepts first
  state : reader' = reader.pass 1 item.length

theorem peekState_eq_ok {state : CborReaderState} (hcached : reader.cachedState = .undefined)
    (h : peekState reader = .ok state reader') :
    peekStateCore reader = .ok state ∧ reader' = reader.cached state := by
  change (if reader.cachedState = .undefined then _ else _ : ReadM CborReaderState) reader = _ at h
  rw [if_pos hcached] at h
  obtain ⟨state', moved, hpeek, hnote⟩ := run_bind_eq_ok h
  obtain ⟨hcore, rfl⟩ := peeking_eq_ok hpeek
  cases hnote
  exact ⟨hcore, rfl⟩

variable {value : ℕ}

theorem readUInt_eq_ok (h : readUInt reader = .ok value reader') :
    ∃ head, Head 0 value head ∧ PassedItem reader head reader' := by
  obtain ⟨bytes, hpeek, _, hstate⟩ := readItem_eq_ok h
  obtain ⟨first, hfirst, hdecode⟩ := bind_ok hpeek
  obtain ⟨haccepts, rest, hbytes⟩ := accepts_of_peekInitialByte hfirst
  cases htype : getMajorType first <;> rw [htype] at hdecode <;> try cases hdecode
  obtain ⟨payload, rest', hsplit, rfl, hhead⟩ := head_of_decode hbytes hdecode
  rw [htype] at hhead
  exact ⟨first :: payload, hhead, ⟨rest', hsplit⟩, by simpa using haccepts, hstate⟩

theorem readCborNegativeIntegerRepresentation_eq_ok
    (h : readCborNegativeIntegerRepresentation reader = .ok value reader') :
    ∃ head, Head 1 value head ∧ PassedItem reader head reader' := by
  obtain ⟨bytes, hpeek, _, hstate⟩ := readItem_eq_ok h
  obtain ⟨first, hfirst, hdecode⟩ := bind_ok hpeek
  obtain ⟨haccepts, rest, hbytes⟩ := accepts_of_peekInitialByte hfirst
  have htype := (peekInitialByte_eq_ok hfirst).2.2.2 _ rfl
  obtain ⟨payload, rest', hsplit, rfl, hhead⟩ := head_of_decode hbytes hdecode
  rw [htype] at hhead
  exact ⟨first :: payload, hhead, ⟨rest', hsplit⟩, by simpa using haccepts, hstate⟩

theorem readString_eq_ok {type : CborMajorType} {value : List UInt8}
    (hdefinite : ∀ first ∈ reader.getRemainingBytes.head?,
      getAdditionalInfo first ≠ indefiniteLength)
    (h : readItem (peekString type) reader = .ok value reader') :
    ∃ item, StringItem type.toNat item ∧ PassedItem reader item reader' := by
  obtain ⟨bytes, hpeek, _, hstate⟩ := readItem_eq_ok h
  obtain ⟨first, hfirst, hstring⟩ := bind_ok hpeek
  obtain ⟨haccepts, tail, hbytes⟩ := accepts_of_peekInitialByte hfirst
  have htype := (peekInitialByte_eq_ok hfirst).2.2.2 _ rfl
  rw [if_neg (hdefinite first (by simp [hbytes]))] at hstring
  obtain ⟨head, rest, hhead, hsplit, hlength⟩ := peekDefiniteLengthString_eq_ok hbytes hstring
  rw [htype] at hhead
  refine ⟨head ++ value, StringItem.mk hhead rfl, ⟨rest, hsplit⟩, ?_, ?_⟩
  · intro first' hfirst'
    have hheads : (head ++ value).head? = some first := by
      have := congrArg List.head? hsplit
      rw [hbytes, List.head?_cons, List.head?_append] at this
      cases hhd : (head ++ value).head? with
      | none =>
        have hnil := List.head?_eq_none_iff.mp hhd
        have hpos := hhead.length_pos
        rw [List.append_eq_nil_iff] at hnil
        rw [hnil.1] at hpos
        exact absurd hpos (lt_irrefl _)
      | some other =>
        rw [hhd] at this
        exact this.symm
    rw [hheads] at hfirst'
    cases hfirst'
    exact haccepts
  · rw [hstate, hlength]

theorem readSimpleValue_eq_ok (h : readSimpleValue reader = .ok value reader') :
    ∃ item, DataItem item ∧ PassedItem reader item reader' := by
  obtain ⟨bytes, hpeek, hfit, hstate⟩ := readItem_eq_ok h
  obtain ⟨first, hfirst, hvalue⟩ := bind_ok hpeek
  obtain ⟨haccepts, rest, hbytes⟩ := accepts_of_peekInitialByte hfirst
  have htype : getMajorType first = .simple := (peekInitialByte_eq_ok hfirst).2.2.2 _ rfl
  have hbyte : first = initialByte 7 (getAdditionalInfo first) := by
    have := @eq_initialByte_of first
    rwa [htype] at this
  split at hvalue
  · rename_i hshort
    cases hvalue
    refine ⟨[first], ?_, ⟨rest, hbytes⟩, by simpa using haccepts, hstate⟩
    rw [hbyte]
    exact DataItem.simple hshort
  · split at hvalue
    · rename_i hlong
      obtain ⟨_, hcapacity, hpure⟩ := bind_ok hvalue
      cases hpure
      have hlength := reader.getRemainingBytes_length
      rw [hbytes, List.length_cons] at hlength
      obtain ⟨second, rest', rfl⟩ : ∃ second rest', rest = second :: rest' := by
        cases rest with
        | cons second rest' => exact ⟨second, rest', rfl⟩
        | nil =>
          rw [List.length_nil] at hlength
          omega
      refine ⟨[first, second], ?_, ⟨rest', hbytes⟩, by simpa using haccepts, hstate⟩
      rw [hbyte, hlong]
      exact DataItem.simpleByte second
    · cases hvalue

theorem readDouble_eq_ok {value : List UInt8} (h : readDouble reader = .ok value reader') :
    ∃ item, DataItem item ∧ PassedItem reader item reader' := by
  obtain ⟨bytes, hpeek, hfit, hstate⟩ := readItem_eq_ok h
  obtain ⟨first, hfirst, hvalue⟩ := bind_ok hpeek
  obtain ⟨haccepts, rest, hbytes⟩ := accepts_of_peekInitialByte hfirst
  have htype : getMajorType first = .simple := (peekInitialByte_eq_ok hfirst).2.2.2 _ rfl
  have hbyte : first = initialByte 7 (getAdditionalInfo first) := by
    have := @eq_initialByte_of first
    rwa [htype] at this
  have hbits {info width : ℕ} (hinfo : getAdditionalInfo first = info)
      (hwidth : ArgumentWidth info width) (hne : info ≠ 24)
      (hvalue : (do
        reader.ensureReadCapacity (width + 1)
        pure ((reader.getRemainingBytes.drop 1).take width, width + 1)) =
          Except.ok (value, bytes)) :
      ∃ item, DataItem item ∧ PassedItem reader item reader' := by
    obtain ⟨_, _, hpure⟩ := bind_ok hvalue
    cases hpure
    have hlength := reader.getRemainingBytes_length
    rw [hbytes, List.length_cons] at hlength
    have hwidthLength : (rest.take width).length = width := by
      rw [List.length_take]
      omega
    refine ⟨first :: rest.take width, ?_, ⟨rest.drop width, ?_⟩, by simpa using haccepts, ?_⟩
    · rw [hbyte, hinfo]
      exact DataItem.float hwidth hne hwidthLength
    · rw [hbytes, List.cons_append, List.take_append_drop]
    · rw [hstate, List.length_cons, hwidthLength]
  dsimp only at hvalue
  split at hvalue
  · exact hbits (by assumption) ArgumentWidth.two (by decide) hvalue
  · split at hvalue
    · exact hbits (by assumption) ArgumentWidth.four (by decide) hvalue
    · split at hvalue
      · exact hbits (by assumption) ArgumentWidth.eight (by decide) hvalue
      · cases hvalue

variable {tag : ℕ}

theorem peekTagCore_eq_ok {bytesRead : ℕ} (h : peekTagCore reader = .ok (tag, bytesRead)) :
    ∃ number head rest, Head 6 number head ∧ reader.getRemainingBytes = head ++ rest ∧
      (∀ first ∈ head.head?, reader.currentFrame.Accepts first) ∧ bytesRead = head.length := by
  obtain ⟨first, hfirst, hrest⟩ := bind_ok h
  obtain ⟨⟨number, bytesRead⟩, hdecode, hpure⟩ := bind_ok hrest
  cases hpure
  obtain ⟨haccepts, rest, hbytes⟩ := accepts_of_peekInitialByte hfirst
  have htype := (peekInitialByte_eq_ok hfirst).2.2.2 _ rfl
  obtain ⟨payload, rest', hsplit, rfl, hhead⟩ := head_of_decode hbytes hdecode
  rw [htype] at hhead
  exact ⟨number, first :: payload, rest', hhead, hsplit, by simpa using haccepts, rfl⟩

theorem readTag_eq_ok (h : readTag reader = .ok tag reader') :
    ∃ number head rest, Head 6 number head ∧ reader.getRemainingBytes = head ++ rest ∧
      (∀ first ∈ head.head?, reader.currentFrame.Accepts first) ∧
      reader' = reader.tagged head.length := by
  unfold readTag at h
  obtain ⟨⟨tag', bytes⟩, middle, hpeeking, hmove⟩ := run_bind_eq_ok h
  obtain ⟨hpeek, hsame⟩ := peeking_eq_ok hpeeking
  rw [hsame] at hmove
  obtain ⟨_, moved, hmoved, hnote⟩ := run_bind_eq_ok hmove
  obtain ⟨_, rfl⟩ := advanceBuffer_eq_ok hmoved
  cases hnote
  obtain ⟨number, head, rest, hhead, hbytes, haccepts, rfl⟩ := peekTagCore_eq_ok hpeek
  exact ⟨number, head, rest, hhead, hbytes, haccepts, rfl⟩

end Inversion

end CardanoSdk.Cbor
