import CardanoSdk.Lib.Bytes
import CardanoSdk.Lib.Utf8

/-!
`CborReader` of `core/src/Serialization/CBOR`. A read method is an action on the reader's
state that may throw; what it did to the state before it threw stays done. Lengths go
through `Number`, so they are rounded to double precision. Floats are read as their bits.
-/

namespace CardanoSdk.Cbor

open Lib

/-! ### Data types -/

inductive CborMajorType where
  | unsignedInteger | negativeInteger | byteString | utf8String | array | map | tag | simple
  deriving DecidableEq

def CborMajorType.toNat : CborMajorType → ℕ
  | .unsignedInteger => 0
  | .negativeInteger => 1
  | .byteString => 2
  | .utf8String => 3
  | .array => 4
  | .map => 5
  | .tag => 6
  | .simple => 7

def additionalFalse : ℕ := 20
def additionalTrue : ℕ := 21
def additionalNull : ℕ := 22
def additional8BitData : ℕ := 24
def additional16BitData : ℕ := 25
def additional32BitData : ℕ := 26
def additional64BitData : ℕ := 27
def indefiniteLength : ℕ := 31

inductive CborReaderState where
  | undefined
  | unsignedInteger
  | negativeInteger
  | byteString
  | startIndefiniteLengthByteString
  | endIndefiniteLengthByteString
  | textString
  | startIndefiniteLengthTextString
  | endIndefiniteLengthTextString
  | startArray
  | endArray
  | startMap
  | endMap
  | tag
  | simpleValue
  | halfPrecisionFloat
  | singlePrecisionFloat
  | doublePrecisionFloat
  | null
  | boolean
  | finished
  deriving DecidableEq

/-- The number of the state in its enumeration, as error messages print it. -/
def CborReaderState.toNat (state : CborReaderState) : ℕ := state.ctorIdx

/-- The exceptions of a reader, with their messages. The last one is not a
behaviour of the source: it marks a loop stopped by its fuel. -/
inductive CborException where
  | content (reason : String)
  | invalidOperation (reason : String)
  | outOfFuel
  deriving DecidableEq

/-- A typed array; its length is an integer that a double holds exactly. -/
structure Uint8Array where
  bytes : List UInt8
  bound : bytes.length < 2 ^ 53

def Uint8Array.length (array : Uint8Array) : ℕ := array.bytes.length

structure StackFrame where
  type : Option CborMajorType := none
  frameOffset : ℕ := 0
  definiteLength : Option ℕ := none
  itemsRead : ℕ := 0
  currentKeyOffset : Option ℕ := none
  deriving DecidableEq

/-- `nestedItems` has the frame pushed last at its head. -/
structure CborReader where
  data : Uint8Array
  offset : ℕ := 0
  nestedItems : List StackFrame := []
  isTagContext : Bool := false
  currentFrame : StackFrame := {}
  cachedState : CborReaderState := .undefined

abbrev ReadM := EStateM CborException CborReader

/-! ### The initial byte -/

def indefiniteLengthBreakByte : UInt8 := 0xff

def getMajorType (initialByte : UInt8) : CborMajorType :=
  match initialByte.toNat >>> 5 with
  | 0 => .unsignedInteger
  | 1 => .negativeInteger
  | 2 => .byteString
  | 3 => .utf8String
  | 4 => .array
  | 5 => .map
  | 6 => .tag
  | _ => .simple

def getAdditionalInfo (initialByte : UInt8) : ℕ := initialByte.toNat &&& 0b00011111

/-! ### Peeking -/

def unexpectedEndOfBuffer : String := "Unexpected end of buffer"

/-- All declared items of a definite-length frame have been read. -/
def StackFrame.isComplete (frame : StackFrame) : Bool := frame.definiteLength = some frame.itemsRead

def CborReader.getRemainingBytes (reader : CborReader) : List UInt8 :=
  reader.data.bytes.drop reader.offset

/-- Inside an indefinite-length string only definite-length chunks of its
major type and the break byte are read. -/
def StackFrame.refuses (frame : StackFrame) (nextByte : UInt8) : Bool :=
  match frame.type with
  | some .byteString => isForeign .byteString
  | some .utf8String => isForeign .utf8String
  | _ => false
where
  isForeign (type : CborMajorType) : Bool :=
    !(nextByte = indefiniteLengthBreakByte ∨
      (getMajorType nextByte = type ∧ getAdditionalInfo nextByte ≠ indefiniteLength))

def peekInitialByte (expectedType : Option CborMajorType) (reader : CborReader) :
    Except CborException UInt8 :=
  if reader.currentFrame.isComplete then .error (.invalidOperation "No more data items to read")
  else match reader.data.bytes[reader.offset]? with
    | none =>
      if reader.currentFrame.type = none ∧ reader.currentFrame.definiteLength = none ∧
          reader.offset > 0 then
        .error (.invalidOperation "End of root-level. No more data items to read")
      else .error (.content unexpectedEndOfBuffer)
    | some nextByte =>
      if reader.currentFrame.refuses nextByte then
        .error (.content ("Indefinite length string contains invalid data item, " ++
          toString (getMajorType nextByte).toNat))
      else match expectedType with
        | none => .ok nextByte
        | some type =>
          if type ≠ getMajorType nextByte then
            .error (.invalidOperation ("Major type mismatch, expected type " ++
              toString type.toNat ++ " but got " ++ toString (getMajorType nextByte).toNat))
          else .ok nextByte

def ensureReadCapacityInArray (data : List UInt8) (bytesToRead : ℕ) : Except CborException Unit :=
  if data.length < bytesToRead then .error (.content unexpectedEndOfBuffer) else .ok ()

def CborReader.ensureReadCapacity (reader : CborReader) (bytesToRead : ℕ) :
    Except CborException Unit :=
  if reader.data.length - reader.offset < bytesToRead then .error (.content unexpectedEndOfBuffer)
  else .ok ()

/-- The big-endian argument of `width` bytes after the initial byte. -/
def decodeArgument (width : ℕ) (data : List UInt8) : Except CborException (ℕ × ℕ) := do
  ensureReadCapacityInArray data (width + 1)
  pure (ofBytesBE ((data.drop 1).take width), width + 1)

def decodeUnsignedInteger (header : UInt8) (data : List UInt8) : Except CborException (ℕ × ℕ) :=
  if getAdditionalInfo header < additional8BitData then .ok (getAdditionalInfo header, 1)
  else if getAdditionalInfo header = additional8BitData then decodeArgument 1 data
  else if getAdditionalInfo header = additional16BitData then decodeArgument 2 data
  else if getAdditionalInfo header = additional32BitData then decodeArgument 4 data
  else if getAdditionalInfo header = additional64BitData then decodeArgument 8 data
  else .error (.content "Invalid integer encoding")

def peekDefiniteLength (header : UInt8) (data : List UInt8) : Except CborException (ℕ × ℕ) := do
  let (length, bytesRead) ← decodeUnsignedInteger header data
  pure (roundToDouble length, bytesRead)

/-! ### The next token -/

def mapSimpleValueDataToReaderState (value : ℕ) : CborReaderState :=
  if value = additionalNull then .null
  else if value = additionalFalse ∨ value = additionalTrue then .boolean
  else if value = additional16BitData then .halfPrecisionFloat
  else if value = additional32BitData then .singlePrecisionFloat
  else if value = additional64BitData then .doublePrecisionFloat
  else .simpleValue

def peekBreak (reader : CborReader) : Except CborException CborReaderState :=
  if reader.isTagContext then .error (.content "Tag not followed by value")
  else match reader.currentFrame.definiteLength with
    | some _ => .error (.content "Unexpected break byte")
    | none =>
      match reader.currentFrame.type with
      | none => .error (.content "Unexpected break byte")
      | some .byteString => .ok .endIndefiniteLengthByteString
      | some .utf8String => .ok .endIndefiniteLengthTextString
      | some .array => .ok .endArray
      | some .map =>
        if reader.currentFrame.itemsRead % 2 = 0 then .ok .endMap
        else .error (.content "Key missing value")
      | some _ => .error (.invalidOperation "Invalid CBOR major type pushed to stack.")

/-- The token that an initial byte other than the break byte starts. -/
def peekItem (initialByte : UInt8) : CborReaderState :=
  match getMajorType initialByte with
  | .unsignedInteger => .unsignedInteger
  | .negativeInteger => .negativeInteger
  | .byteString =>
    if getAdditionalInfo initialByte = indefiniteLength then .startIndefiniteLengthByteString
    else .byteString
  | .utf8String =>
    if getAdditionalInfo initialByte = indefiniteLength then .startIndefiniteLengthTextString
    else .textString
  | .array => .startArray
  | .map => .startMap
  | .tag => .tag
  | .simple => mapSimpleValueDataToReaderState (getAdditionalInfo initialByte)

def peekStateCore (reader : CborReader) : Except CborException CborReaderState :=
  if reader.currentFrame.isComplete then
    match reader.currentFrame.type with
    | none => .ok .finished
    | some .array => .ok .endArray
    | some .map => .ok .endMap
    | some _ => .error (.invalidOperation "Invalid CBOR major type pushed to stack.")
  else match reader.data.bytes[reader.offset]? with
    | none =>
      if reader.currentFrame.type = none ∧ reader.currentFrame.definiteLength = none then
        .ok .finished
      else .error (.invalidOperation unexpectedEndOfBuffer)
    | some initialByte =>
      if initialByte = indefiniteLengthBreakByte then peekBreak reader
      else if (reader.currentFrame.type = some .byteString ∨
            reader.currentFrame.type = some .utf8String) ∧
          some (getMajorType initialByte) ≠ reader.currentFrame.type then
        .error (.content "Indefinite length string contains invalid data item")
      else .ok (peekItem initialByte)

/-! ### State changes -/

def peeking {α : Type} (peek : CborReader → Except CborException α) : ReadM α := fun reader =>
  match peek reader with
  | .ok value => .ok value reader
  | .error exception => .error exception reader

def advanceBuffer (length : ℕ) : ReadM Unit := fun reader =>
  if reader.offset + length > reader.data.length then
    .error (.content "Buffer offset out of bounds") reader
  else .ok () { reader with offset := reader.offset + length, cachedState := .undefined }

def advanceDataItemCounters : ReadM Unit :=
  modify fun reader => { reader with
    currentFrame := { reader.currentFrame with itemsRead := reader.currentFrame.itemsRead + 1 }
    isTagContext := false }

def pushDataItem (majorType : CborMajorType) (definiteLength : Option ℕ) : ReadM Unit :=
  modify fun reader => { reader with
    nestedItems := reader.currentFrame :: reader.nestedItems
    currentFrame := {
      type := some majorType
      definiteLength := definiteLength
      itemsRead := 0
      frameOffset := reader.offset
      currentKeyOffset := none }
    isTagContext := false }

def popDataItem (expectedType : CborMajorType) : ReadM Unit := fun reader =>
  match reader.currentFrame.type, reader.nestedItems with
  | some type, frame :: nestedItems =>
    if expectedType ≠ type then
      .error (.invalidOperation ("Pop major type mismatch, expected " ++
        toString expectedType.toNat ++ " but got " ++ toString type.toNat)) reader
    else if reader.currentFrame.definiteLength.any (fun n => reader.currentFrame.itemsRead < n) then
      .error (.invalidOperation "Not at end of definite length data item") reader
    else if reader.isTagContext then .error (.content "Tag not followed by value") reader
    else .ok () { reader with
      nestedItems := nestedItems
      currentFrame := frame
      cachedState := .undefined }
  | _, _ => .error (.invalidOperation "Is at root context") reader

def validateNextByteIsBreakByte (reader : CborReader) : Except CborException Unit := do
  let result ← peekInitialByte none reader
  if result ≠ indefiniteLengthBreakByte then
    .error (.invalidOperation "Not at end of indefinite length data item")
  else .ok ()

/-! ### Reading -/

def CborReader.new (data : Uint8Array) : CborReader where
  data := data

def peekState : ReadM CborReaderState := do
  let reader ← get
  if reader.cachedState = .undefined then
    let state ← peeking peekStateCore
    modify fun reader => { reader with cachedState := state }
    pure state
  else pure reader.cachedState

def getBytesRemaining : ReadM ℕ := do
  let reader ← get
  pure (reader.data.length - reader.offset)

/-- The methods that read one item without entering it: find its value and
its length, then move past it and count it. -/
def readItem {α : Type} (peek : CborReader → Except CborException (α × ℕ)) : ReadM α := do
  let (value, bytesRead) ← peeking peek
  advanceBuffer bytesRead
  advanceDataItemCounters
  pure value

def typeMismatch (expected : String) (header : UInt8) : CborException :=
  .invalidOperation ("Reader type mismatch, expected " ++ expected ++ " but got " ++
    toString (getMajorType header).toNat)

def peekUnsignedInteger (reader : CborReader) : Except CborException (ℕ × ℕ) := do
  let header ← peekInitialByte none reader
  match getMajorType header with
  | .unsignedInteger => decodeUnsignedInteger header reader.getRemainingBytes
  | .negativeInteger => .error (.content "Integer overflow")
  | _ => .error (typeMismatch "0" header)

def peekSignedInteger (reader : CborReader) : Except CborException (ℤ × ℕ) := do
  let header ← peekInitialByte none reader
  match getMajorType header with
  | .unsignedInteger =>
    let (value, bytesRead) ← decodeUnsignedInteger header reader.getRemainingBytes
    pure ((value : ℤ), bytesRead)
  | .negativeInteger =>
    let (value, bytesRead) ← decodeUnsignedInteger header reader.getRemainingBytes
    pure (-1 - (value : ℤ), bytesRead)
  | _ => .error (typeMismatch "0 or 1" header)

def readInt : ReadM ℤ := readItem peekSignedInteger

def readUInt : ReadM ℕ := readItem peekUnsignedInteger

def readCborNegativeIntegerRepresentation : ReadM ℕ := readItem fun reader => do
  let header ← peekInitialByte (some .negativeInteger) reader
  decodeUnsignedInteger header reader.getRemainingBytes

def readDouble : ReadM (List UInt8) := readItem fun reader => do
  let header ← peekInitialByte (some .simple) reader
  let bits (width : ℕ) : Except CborException (List UInt8 × ℕ) := do
    reader.ensureReadCapacity (width + 1)
    pure ((reader.getRemainingBytes.drop 1).take width, width + 1)
  if getAdditionalInfo header = additional16BitData then bits 2
  else if getAdditionalInfo header = additional32BitData then bits 4
  else if getAdditionalInfo header = additional64BitData then bits 8
  else .error (.invalidOperation "Not a float encoding")

def readSimpleValue : ReadM ℕ := readItem fun reader => do
  let header ← peekInitialByte (some .simple) reader
  if getAdditionalInfo header < additional8BitData then pure (getAdditionalInfo header, 1)
  else if getAdditionalInfo header = additional8BitData then do
    reader.ensureReadCapacity 2
    pure (((reader.data.bytes[reader.offset + 1]?).getD 0).toNat, 2)
  else .error (.invalidOperation "Not a simple value encoding")

def readBoolean : ReadM Bool := readItem fun reader => do
  let header ← peekInitialByte (some .simple) reader
  if getAdditionalInfo header ≠ additionalTrue ∧ getAdditionalInfo header ≠ additionalFalse then
    .error (.content "Not a boolean encoding")
  else pure (decide (getAdditionalInfo header = additionalTrue), 1)

def readNull : ReadM Unit := readItem fun reader => do
  let header ← peekInitialByte (some .simple) reader
  if getAdditionalInfo header ≠ additionalNull then .error (.content "Not a null encoding")
  else pure ((), 1)

/-! ### Strings -/

def peekNextInitialByte (buffer : List UInt8) (expectedType : CborMajorType) :
    Except CborException UInt8 :=
  match buffer with
  | [] => .error (.content unexpectedEndOfBuffer)
  | header :: _ =>
    if header ≠ indefiniteLengthBreakByte ∧ getMajorType header ≠ expectedType then
      .error (.content "Indefinite length string contains invalid data item")
    else .ok header

/-- The loop over the chunks of an indefinite-length string, from position `i`
on. Every chunk takes a byte, so the length of the data bounds the rounds. -/
def concatenateChunks (type : CborMajorType) (data : List UInt8) :
    ℕ → ℕ → List UInt8 → Except CborException (List UInt8 × ℕ)
  | 0, _, _ => .error .outOfFuel
  | rounds + 1, i, concat => do
      let nextInitialByte ← peekNextInitialByte (data.drop i) type
      if nextInitialByte = indefiniteLengthBreakByte then pure (concat, i + 1)
      else
        let (chunkLength, bytesRead) ← peekDefiniteLength nextInitialByte (data.drop i)
        concatenateChunks type data rounds (i + (bytesRead + chunkLength))
          (concat ++ (data.drop (i + bytesRead)).take chunkLength)

def readIndefiniteLengthByteStringConcatenated (type : CborMajorType) (reader : CborReader) :
    Except CborException (List UInt8 × ℕ) :=
  let data := reader.getRemainingBytes
  concatenateChunks type data (data.length + 1) 1 []

def peekDefiniteLengthString (header : UInt8) (reader : CborReader) :
    Except CborException (List UInt8 × ℕ) := do
  let (length, bytesRead) ← peekDefiniteLength header reader.getRemainingBytes
  reader.ensureReadCapacity (bytesRead + length)
  pure ((reader.getRemainingBytes.drop bytesRead).take length, bytesRead + length)

def peekString (type : CborMajorType) (reader : CborReader) :
    Except CborException (List UInt8 × ℕ) := do
  let header ← peekInitialByte (some type) reader
  if getAdditionalInfo header = indefiniteLength then
    readIndefiniteLengthByteStringConcatenated type reader
  else peekDefiniteLengthString header reader

def peekDefiniteString (type : CborMajorType) (refusal : String) (reader : CborReader) :
    Except CborException (List UInt8 × ℕ) := do
  let header ← peekInitialByte (some type) reader
  if getAdditionalInfo header = indefiniteLength then .error (.invalidOperation refusal)
  else peekDefiniteLengthString header reader

def readByteString : ReadM (List UInt8) := readItem (peekString .byteString)

def readDefiniteLengthByteString : ReadM (List UInt8) :=
  readItem (peekDefiniteString .byteString
    "Expected definite length array and got indefinite length")

def readTextString : ReadM String := do
  let bytes ← readItem (peekString .utf8String)
  pure (utf8Decode bytes)

def readDefiniteLengthTextString : ReadM String := do
  let bytes ← readItem (peekDefiniteString .utf8String
    "Expected definite length string and got indefinite length")
  pure (utf8Decode bytes)

def readStartIndefiniteLengthString (type : CborMajorType) : ReadM Unit := do
  let header ← peeking (peekInitialByte (some type))
  if getAdditionalInfo header ≠ indefiniteLength then
    throw (.invalidOperation "Not indefinite length string")
  else
    advanceBuffer 1
    pushDataItem type none

def readEndIndefiniteLengthString (type : CborMajorType) : ReadM Unit := do
  peeking validateNextByteIsBreakByte
  popDataItem type
  advanceDataItemCounters
  advanceBuffer 1

def readStartIndefiniteLengthByteString : ReadM Unit :=
  readStartIndefiniteLengthString .byteString

def readEndIndefiniteLengthByteString : ReadM Unit := readEndIndefiniteLengthString .byteString

def readStartIndefiniteLengthTextString : ReadM Unit :=
  readStartIndefiniteLengthString .utf8String

def readEndIndefiniteLengthTextString : ReadM Unit := readEndIndefiniteLengthString .utf8String

/-! ### Containers and tags -/

def readStartArray : ReadM (Option ℕ) := do
  let header ← peeking (peekInitialByte (some .array))
  if getAdditionalInfo header = indefiniteLength then
    advanceBuffer 1
    pushDataItem .array none
    pure none
  else
    let (length, bytesRead) ← peeking fun reader =>
      peekDefiniteLength header reader.getRemainingBytes
    advanceBuffer bytesRead
    pushDataItem .array (some length)
    pure (some length)

def readEndArray : ReadM Unit := do
  let reader ← get
  if reader.currentFrame.definiteLength = none then
    peeking validateNextByteIsBreakByte
    popDataItem .array
    advanceDataItemCounters
    advanceBuffer 1
  else
    popDataItem .array
    advanceDataItemCounters

def setCurrentKeyOffset : ReadM Unit :=
  modify fun reader => { reader with
    currentFrame := { reader.currentFrame with currentKeyOffset := some reader.offset } }

def readStartMap : ReadM (Option ℕ) := do
  let header ← peeking (peekInitialByte (some .map))
  if getAdditionalInfo header = indefiniteLength then
    advanceBuffer 1
    pushDataItem .map none
    setCurrentKeyOffset
    pure none
  else
    let reader ← get
    let buffer := reader.getRemainingBytes
    let (length, bytesRead) ← peeking fun _ => peekDefiniteLength header buffer
    if 2 * length > buffer.length - bytesRead then
      throw (.content "Definite length exceeds buffer size")
    else
      advanceBuffer bytesRead
      pushDataItem .map (some (2 * length))
      setCurrentKeyOffset
      pure (some length)

def readEndMap : ReadM Unit := do
  let reader ← get
  if reader.currentFrame.definiteLength = none then
    peeking validateNextByteIsBreakByte
    if reader.currentFrame.itemsRead % 2 ≠ 0 then throw (.content "Key missing value")
    else
      popDataItem .map
      advanceDataItemCounters
      advanceBuffer 1
  else
    popDataItem .map
    advanceDataItemCounters

def peekTagCore (reader : CborReader) : Except CborException (ℕ × ℕ) := do
  let header ← peekInitialByte (some .tag) reader
  let (result, bytesRead) ← decodeUnsignedInteger header reader.getRemainingBytes
  pure (roundToDouble result, bytesRead)

def readTag : ReadM ℕ := do
  let (tag, bytesRead) ← peeking peekTagCore
  advanceBuffer bytesRead
  modify fun reader => { reader with isTagContext := true }
  pure tag

def peekTag : ReadM ℕ := do
  let (tag, _) ← peeking peekTagCore
  pure tag

/-! ### Skipping -/

/-- Read past the tags in front of an item and give the state after them.
Every tag takes a byte, which bounds the rounds. -/
def skipTags : ℕ → ReadM CborReaderState
  | 0 => throw .outOfFuel
  | rounds + 1 => do
      let state ← peeking peekStateCore
      if state = .tag then
        let _ ← readTag
        skipTags rounds
      else pure state

def skipInvalidState {α : Type} (state : CborReaderState) : ReadM α :=
  throw (.invalidOperation ("Skip invalid state: " ++ toString state.toNat))

/-- The `switch` of `skipNextNode`: read the token and give the new depth. The
break of an indefinite-length byte string is the only closing token that is
read at any depth. -/
def skipToken (depth : ℤ) (state : CborReaderState) : ReadM ℤ :=
  match state with
  | .unsignedInteger => do let _ ← readUInt; pure depth
  | .negativeInteger => do let _ ← readCborNegativeIntegerRepresentation; pure depth
  | .byteString => do let _ ← readByteString; pure depth
  | .textString => do let _ ← readTextString; pure depth
  | .startIndefiniteLengthByteString => do readStartIndefiniteLengthByteString; pure (depth + 1)
  | .endIndefiniteLengthByteString => do readEndIndefiniteLengthByteString; pure (depth - 1)
  | .startIndefiniteLengthTextString => do readStartIndefiniteLengthTextString; pure (depth + 1)
  | .endIndefiniteLengthTextString =>
    if depth = 0 then skipInvalidState state
    else do readEndIndefiniteLengthTextString; pure (depth - 1)
  | .startArray => do let _ ← readStartArray; pure (depth + 1)
  | .endArray =>
    if depth = 0 then skipInvalidState state else do readEndArray; pure (depth - 1)
  | .startMap => do let _ ← readStartMap; pure (depth + 1)
  | .endMap =>
    if depth = 0 then skipInvalidState state else do readEndMap; pure (depth - 1)
  | .halfPrecisionFloat => do let _ ← readDouble; pure depth
  | .singlePrecisionFloat => do let _ ← readDouble; pure depth
  | .doublePrecisionFloat => do let _ ← readDouble; pure depth
  | .null => do let _ ← readSimpleValue; pure depth
  | .boolean => do let _ ← readSimpleValue; pure depth
  | .simpleValue => do let _ ← readSimpleValue; pure depth
  | .undefined => skipInvalidState state
  | .tag => skipInvalidState state
  | .finished => skipInvalidState state

def skipNextNode (initialDepth : ℤ) : ReadM ℤ := do
  let reader ← get
  let state ← skipTags (reader.getRemainingBytes.length + 1)
  skipToken initialDepth state

/-- The `do … while` loop. A round takes a byte or closes a frame that an
earlier round opened, so twice the remaining bytes bound the rounds. -/
def skipNodes : ℕ → ℤ → ReadM Unit
  | 0, _ => throw .outOfFuel
  | rounds + 1, depth => do
      let depth' ← skipNextNode depth
      if depth' > 0 then skipNodes rounds depth' else pure ()

def readEncodedValue : ReadM (List UInt8) := do
  let initial ← get
  skipNodes (2 * initial.getRemainingBytes.length + 1) 0
  let final ← get
  pure ((initial.data.bytes.take final.offset).drop initial.offset)

def skipValue : ReadM Unit := do
  let _ ← readEncodedValue
  pure ()

end CardanoSdk.Cbor
