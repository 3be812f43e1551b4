import CardanoSdk.Cbor.ReaderSpec

/-!
`CborWriter` of `core/src/Serialization/CBOR`. A write that does not fit its field throws
and leaves the bytes written so far. Floats are not modelled.
-/

namespace CardanoSdk.Cbor

open Lib

/-- The exception of a `Buffer` write whose value is out of range. -/
inductive RangeError where
  | outOfRange
  deriving DecidableEq

structure CborWriter where
  buffer : List UInt8 := []

abbrev WriteM := EStateM RangeError CborWriter

def CborWriter.append (writer : CborWriter) (bytes : List UInt8) : CborWriter :=
  ⟨writer.buffer ++ bytes⟩

/-- The family of `pushUInt8`, `pushUInt16` and `pushUInt32`. -/
def pushUInt (width value : ℕ) : WriteM Unit := fun writer =>
  if value < 256 ^ width then .ok () (writer.append (toBytesBE width value))
  else .error .outOfRange writer

def pushUInt8 : ℕ → WriteM Unit := pushUInt 1

def pushUInt16 : ℕ → WriteM Unit := pushUInt 2

def pushUInt32 : ℕ → WriteM Unit := pushUInt 4

def shift32 : ℕ := 0x100000000

def writeTypeValue (majorType : CborMajorType) (value : ℕ) : WriteM Unit :=
  let m := majorType.toNat <<< 5
  if value < 24 then pushUInt8 (m ||| value)
  else if value < 256 then do
    pushUInt8 (m ||| additional8BitData)
    pushUInt8 value
  else if value < 65536 then do
    pushUInt8 (m ||| additional16BitData)
    pushUInt16 value
  else if value < 4294967296 then do
    pushUInt8 (m ||| additional32BitData)
    pushUInt32 value
  else do
    pushUInt8 (m ||| additional64BitData)
    pushUInt32 (value / shift32)
    pushUInt32 (value % shift32)

def writeEncodedValue (value : List UInt8) : WriteM Unit :=
  modify fun writer => writer.append value

def writeByteString (value : List UInt8) : WriteM Unit := do
  writeTypeValue .byteString value.length
  writeEncodedValue value

def writeTextString (value : String) : WriteM Unit := do
  writeTypeValue .utf8String (utf8Encode value).length
  writeEncodedValue (utf8Encode value)

def writeInt (value : ℤ) : WriteM Unit :=
  if value < 0 then writeTypeValue .negativeInteger (-(value + 1)).toNat
  else writeTypeValue .unsignedInteger value.toNat

def writeBoolean (value : Bool) : WriteM Unit := pushUInt8 (if value then 0xf5 else 0xf4)

def writeNull : WriteM Unit := pushUInt8 0xf6

def writeUndefined : WriteM Unit := pushUInt8 0xf7

def writeTag (tag : ℕ) : WriteM Unit := writeTypeValue .tag tag

def writeStartArray : Option ℕ → WriteM Unit
  | some length => writeTypeValue .array length
  | none => pushUInt8 0x9f

def writeEndArray : WriteM Unit := pushUInt8 indefiniteLengthBreakByte.toNat

def writeStartMap : Option ℕ → WriteM Unit
  | some length => writeTypeValue .map length
  | none => pushUInt8 0xbf

def writeEndMap : WriteM Unit := pushUInt8 indefiniteLengthBreakByte.toNat

/-- The bytes of `value.toString(16)`, padded to whole bytes. -/
def bigintBytes (value : ℕ) : List UInt8 := toBytesBE ((Nat.log 16 value + 2) / 2) value

def writeBigInteger (value : ℤ) : WriteM Unit := do
  let magnitude := if value < 0 then (-value - 1).toNat else value.toNat
  writeTag (if value < 0 then 3 else 2)
  writeTypeValue .byteString (bigintBytes magnitude).length
  writeEncodedValue (bigintBytes magnitude)

def Writes (action : WriteM Unit) (bytes : List UInt8) : Prop :=
  ∀ writer, action writer = .ok () (writer.append bytes)

variable {next : Unit → WriteM Unit} {value : ℕ} {type : CborMajorType}

theorem Writes.bind {first : WriteM Unit} {bytes bytes' : List UInt8}
    (hfirst : Writes first bytes) (hnext : Writes (next ()) bytes') :
    Writes (first >>= next) (bytes ++ bytes') := by
  intro writer
  rw [run_bind_ok (hfirst writer), hnext]
  simp [CborWriter.append]

theorem Writes.pure : Writes (pure ()) [] := by
  intro writer
  simp [CborWriter.append]
  rfl

theorem writes_encodedValue (value : List UInt8) : Writes (writeEncodedValue value) value :=
  fun _ => rfl

theorem writes_pushUInt {width value : ℕ} (h : value < 256 ^ width) :
    Writes (pushUInt width value) (toBytesBE width value) := by
  intro writer
  exact if_pos h

def encodeHead (type : CborMajorType) (value : ℕ) : List UInt8 :=
  if value < 24 then [initialByte type.toNat value]
  else if value < 256 then initialByte type.toNat 24 :: toBytesBE 1 value
  else if value < 65536 then initialByte type.toNat 25 :: toBytesBE 2 value
  else if value < 4294967296 then initialByte type.toNat 26 :: toBytesBE 4 value
  else initialByte type.toNat 27 :: toBytesBE 8 value

theorem length_encodeHead (type : CborMajorType) (value : ℕ) : (encodeHead type value).length =
    if value < 24 then 1 else if value < 256 then 2 else if value < 65536 then 3
      else if value < 4294967296 then 5 else 9 := by
  unfold encodeHead
  repeat' split
  all_goals simp

theorem length_encodeHead_le (type : CborMajorType) (value : ℕ) :
    (encodeHead type value).length ≤ 9 := by
  rw [length_encodeHead]
  repeat' split
  all_goals omega

theorem length_encodeHead_mono (type : CborMajorType) {value' : ℕ} (h : value ≤ value') :
    (encodeHead type value).length ≤ (encodeHead type value').length := by
  rw [length_encodeHead, length_encodeHead]
  repeat' split
  all_goals omega

theorem head_encodeHead (type : CborMajorType) {value : ℕ} (h : value < 2 ^ 64) :
    Head type.toNat value (encodeHead type value) := by
  have hlong {info width : ℕ} (hwidth : ArgumentWidth info width) (hvalue : value < 256 ^ width) :
      Head type.toNat value (initialByte type.toNat info :: toBytesBE width value) := by
    have hhead := @Head.long type.toNat info width _ hwidth (length_toBytesBE width value)
    rwa [ofBytesBE_toBytesBE hvalue] at hhead
  unfold encodeHead
  split
  · exact Head.short (by assumption)
  · split
    · exact hlong ArgumentWidth.one (by omega)
    · split
      · exact hlong ArgumentWidth.two (by omega)
      · split
        · exact hlong ArgumentWidth.four (by omega)
        · exact hlong ArgumentWidth.eight (by omega)

theorem writes_initialByte (type : CborMajorType) {info : ℕ} (hinfo : info < 32) :
    Writes (pushUInt8 (type.toNat <<< 5 ||| info)) [initialByte type.toNat info] := by
  have hor : type.toNat <<< 5 ||| info = 32 * type.toNat + info := by
    rw [← Nat.shiftLeft_add_eq_or_of_lt hinfo, Nat.shiftLeft_eq]
    omega
  have htype := type.toNat_lt
  rw [hor]
  exact @writes_pushUInt 1 (32 * type.toNat + info) (by omega)

theorem writes_typeValue (type : CborMajorType) {value : ℕ} (h : value < 2 ^ 64) :
    Writes (writeTypeValue type value) (encodeHead type value) := by
  have hlong {info width : ℕ} (hinfo : info < 32) (hvalue : value < 256 ^ width) :
      Writes (do pushUInt8 (type.toNat <<< 5 ||| info); pushUInt width value)
        (initialByte type.toNat info :: toBytesBE width value) :=
    (writes_initialByte type hinfo).bind (writes_pushUInt hvalue)
  unfold writeTypeValue encodeHead
  split
  · exact writes_initialByte type (by omega)
  · split
    · exact hlong (by decide) (by omega)
    · split
      · exact hlong (by decide) (by omega)
      · split
        · exact hlong (by decide) (by omega)
        · -- the eight bytes are pushed as two words
          have hsplit : toBytesBE 8 value =
              toBytesBE 4 (value / shift32) ++ toBytesBE 4 (value % shift32) := by
            have hparts := toBytesBE_add 4 4 value
            rw [← toBytesBE_mod 4 value] at hparts
            exact hparts
          have hhigh : value / shift32 < 256 ^ 4 := by
            unfold shift32
            omega
          have hlow : value % shift32 < 256 ^ 4 := Nat.mod_lt _ (by decide)
          rw [hsplit]
          exact (writes_initialByte type (by decide)).bind
            ((writes_pushUInt hhigh).bind (writes_pushUInt hlow))

theorem writes_byteString {value : List UInt8} (h : value.length < 2 ^ 64) :
    Writes (writeByteString value) (encodeHead .byteString value.length ++ value) :=
  (writes_typeValue .byteString h).bind (writes_encodedValue value)

theorem writes_textString {value : String} (h : (utf8Encode value).length < 2 ^ 64) :
    Writes (writeTextString value)
      (encodeHead .utf8String (utf8Encode value).length ++ utf8Encode value) :=
  (writes_typeValue .utf8String h).bind (writes_encodedValue _)

def encodeInt (value : ℤ) : List UInt8 :=
  if value < 0 then encodeHead .negativeInteger (-(value + 1)).toNat
  else encodeHead .unsignedInteger value.toNat

theorem writes_int {value : ℤ} (hlower : -(2 ^ 64) ≤ value) (hupper : value < 2 ^ 64) :
    Writes (writeInt value) (encodeInt value) := by
  unfold writeInt encodeInt
  split
  · exact writes_typeValue _ (by omega)
  · exact writes_typeValue _ (by omega)

theorem integerHead_encodeInt {value : ℤ} (hlower : -(2 ^ 64) ≤ value) (hupper : value < 2 ^ 64) :
    IntegerHead (encodeInt value) value := by
  unfold encodeInt
  split
  · have h := IntegerHead.negative
      (head_encodeHead .negativeInteger (show (-(value + 1)).toNat < 2 ^ 64 by omega))
    rwa [show -1 - ((-(value + 1)).toNat : ℤ) = value by omega] at h
  · have h := IntegerHead.unsigned
      (head_encodeHead .unsignedInteger (show value.toNat < 2 ^ 64 by omega))
    rwa [show (value.toNat : ℤ) = value by omega] at h

/-- The action appends these bytes if the condition holds, and throws otherwise. -/
structure WritesWhen (condition : Prop) (action : WriteM Unit) (bytes : List UInt8) : Prop where
  writes : condition → Writes action bytes
  throws : ¬condition → ∀ writer, ∃ writer', action writer = .error .outOfRange writer'

section WritesWhen

variable {condition condition' : Prop} {bytes bytes' : List UInt8}

theorem Writes.always {action : WriteM Unit} (h : Writes action bytes) :
    WritesWhen True action bytes :=
  ⟨fun _ => h, fun hfalse => absurd trivial hfalse⟩

theorem WritesWhen.bind {first second : WriteM Unit} (hfirst : WritesWhen condition first bytes)
    (hnext : WritesWhen condition' second bytes') :
    WritesWhen (condition ∧ condition') (first >>= fun _ => second) (bytes ++ bytes') where
  writes h := (hfirst.writes h.1).bind (hnext.writes h.2)
  throws h := by
    intro writer
    by_cases hcondition : condition
    · rw [run_bind_ok (hfirst.writes hcondition writer)]
      exact hnext.throws (fun h' => h ⟨hcondition, h'⟩) _
    · obtain ⟨writer', hthrow⟩ := hfirst.throws hcondition writer
      exact ⟨writer', run_bind_error hthrow⟩

theorem writesWhen_typeValue (type : CborMajorType) (value : ℕ) :
    WritesWhen (value < 2 ^ 64) (writeTypeValue type value) (encodeHead type value) where
  writes := writes_typeValue type
  throws h := by
    intro writer
    have hlarge : ¬value / shift32 < 256 ^ 4 := by
      unfold shift32
      omega
    unfold writeTypeValue
    rw [if_neg (by omega), if_neg (by omega), if_neg (by omega), if_neg (by omega),
      run_bind_ok (writes_initialByte type (by decide) writer)]
    exact ⟨_, run_bind_error (if_neg hlarge)⟩

theorem writesWhen_byteString (value : List UInt8) :
    WritesWhen (value.length < 2 ^ 64 ∧ True) (writeByteString value)
      (encodeHead .byteString value.length ++ value) :=
  (writesWhen_typeValue .byteString value.length).bind (writes_encodedValue value).always

theorem writesWhen_int (value : ℤ) :
    WritesWhen (-(2 ^ 64) ≤ value ∧ value < 2 ^ 64) (writeInt value) (encodeInt value) := by
  unfold writeInt encodeInt
  split
  · have h := writesWhen_typeValue .negativeInteger (-(value + 1)).toNat
    exact ⟨fun _ => h.writes (by omega), fun hrange => h.throws (by omega)⟩
  · have h := writesWhen_typeValue .unsignedInteger value.toNat
    exact ⟨fun _ => h.writes (by omega), fun hrange => h.throws (by omega)⟩

end WritesWhen

def Grows (writer writer' : CborWriter) : Prop :=
  ∃ bytes, writer' = writer.append bytes

theorem moves_pushUInt (width value : ℕ) : Moves Grows (pushUInt width value) := by
  intro writer
  unfold pushUInt
  split
  · exact Relation.ReflTransGen.single ⟨_, rfl⟩
  · exact Relation.ReflTransGen.refl

theorem moves_encodedValue (value : List UInt8) : Moves Grows (writeEncodedValue value) :=
  fun _ => Relation.ReflTransGen.single ⟨value, rfl⟩

theorem moves_typeValue (type : CborMajorType) (value : ℕ) :
    Moves Grows (writeTypeValue type value) := by
  have hpush (width value : ℕ) := moves_pushUInt width value
  unfold writeTypeValue
  dsimp only
  split
  · exact hpush 1 _
  · split
    · exact (hpush 1 _).bind (fun _ => hpush 1 _)
    · split
      · exact (hpush 1 _).bind (fun _ => hpush 2 _)
      · split
        · exact (hpush 1 _).bind (fun _ => hpush 4 _)
        · exact (hpush 1 _).bind (fun _ => (hpush 4 _).bind (fun _ => hpush 4 _))

theorem moves_int (value : ℤ) : Moves Grows (writeInt value) := by
  unfold writeInt
  split
  · exact moves_typeValue _ _
  · exact moves_typeValue _ _

theorem moves_forM {α : Type} {write : α → WriteM Unit} (hwrite : ∀ a, Moves Grows (write a))
    (items : List α) : Moves Grows (items.forM write) := by
  induction items with
  | nil => exact Moves.pure ()
  | cons a rest ih => exact (hwrite a).bind (fun _ => ih)

def Announces (type : CborMajorType) (writer : CborWriter) : Prop :=
  ∃ first rest, writer.buffer = first :: rest ∧ getMajorType first = type

theorem Announces.grows (writer writer' : CborWriter) (h : Announces type writer)
    (hgrows : Grows writer writer') : Announces type writer' := by
  obtain ⟨bytes, rfl⟩ := hgrows
  obtain ⟨first, rest, hbuffer, htype⟩ := h
  exact ⟨first, rest ++ bytes, by rw [CborWriter.append, hbuffer, List.cons_append], htype⟩

theorem announces_of_writeTypeValue (hnext : Moves Grows (next ())) {writer : CborWriter}
    (h : (writeTypeValue type value >>= next) {} = .ok () writer) : Announces type writer := by
  have hpush (width value : ℕ) := moves_pushUInt width value
  -- each form of the head is the initial byte and an argument
  have hlong {info : ℕ} (hinfo : info < 32) {rest : Unit → WriteM Unit}
      (hrest : Moves Grows (rest ()))
      (hrun : ((pushUInt8 (type.toNat <<< 5 ||| info) >>= rest) >>= next) {} = .ok () writer) :
      Announces type writer := by
    rw [bind_assoc, run_bind_ok (writes_initialByte type hinfo _)] at hrun
    have hfirst : Announces type (CborWriter.append {} [initialByte type.toNat info]) :=
      ⟨_, [], rfl, getMajorType_initialByte type hinfo⟩
    have hfinal := (hrest.bind (fun _ => hnext)).keeps Announces.grows hfirst
    rwa [hrun] at hfinal
  unfold writeTypeValue at h
  dsimp only at h
  split at h
  · rw [run_bind_ok (writes_initialByte type (by omega) _)] at h
    have hfirst : Announces type (CborWriter.append {} [initialByte type.toNat value]) :=
      ⟨_, [], rfl, getMajorType_initialByte type (by omega)⟩
    have hfinal := hnext.keeps Announces.grows hfirst
    rwa [h] at hfinal
  · split at h
    · exact hlong (by decide) (hpush 1 _) h
    · split at h
      · exact hlong (by decide) (hpush 2 _) h
      · split at h
        · exact hlong (by decide) (hpush 4 _) h
        · exact hlong (by decide) ((hpush 4 _).bind (fun _ => hpush 4 _)) h

end CardanoSdk.Cbor
