import CardanoSdk.Plutus.RoundTrip
import CardanoSdk.Serialization.Inversion
import CardanoSdk.Serialization.NativeScript

/-!
The recursive decoders end on every input, well-formed or not: every round takes a byte or
closes a frame, and the next level is given fewer bytes.
-/

namespace CardanoSdk.Cbor

open Lib

variable {reader reader' : CborReader} {α β : Type}

def IsOutOfFuel (exception : CborException) : Prop := exception = .outOfFuel

/-- A result that no loop was stopped for. -/
def EndedPeek (result : Except CborException α) : Prop := result ≠ .error .outOfFuel

theorem endedPeek_bind {result : Except CborException α} {next : α → Except CborException β}
    (hresult : EndedPeek result) (hnext : ∀ value, result = .ok value → EndedPeek (next value)) :
    EndedPeek (result >>= next) := by
  cases result with
  | ok value => exact hnext value rfl
  | error exception =>
    intro herror
    cases herror
    exact hresult rfl

theorem endedPeek_ok (value : α) : EndedPeek (.ok value : Except CborException α) := nofun

theorem endedPeek_content (reason : String) :
    EndedPeek (.error (.content reason) : Except CborException α) := nofun

theorem endedPeek_invalidOperation (reason : String) :
    EndedPeek (.error (.invalidOperation reason) : Except CborException α) := nofun

theorem peekInitialByte_ends (expectedType : Option CborMajorType) (reader : CborReader) :
    EndedPeek (peekInitialByte expectedType reader) := by
  unfold peekInitialByte
  split
  · exact endedPeek_invalidOperation _
  · split
    · split
      · exact endedPeek_invalidOperation _
      · exact endedPeek_content _
    · split
      · exact endedPeek_content _
      · split
        · exact endedPeek_ok _
        · split
          · exact endedPeek_invalidOperation _
          · exact endedPeek_ok _

theorem decodeArgument_ends (width : ℕ) (data : List UInt8) :
    EndedPeek (decodeArgument width data) := by
  refine endedPeek_bind ?_ fun _ _ => endedPeek_ok _
  unfold ensureReadCapacityInArray
  split
  · exact endedPeek_content _
  · exact endedPeek_ok _

theorem decodeUnsignedInteger_ends (header : UInt8) (data : List UInt8) :
    EndedPeek (decodeUnsignedInteger header data) := by
  unfold decodeUnsignedInteger
  split
  · exact endedPeek_ok _
  · repeat' split
    all_goals first | exact decodeArgument_ends _ _ | exact endedPeek_content _

theorem peekDefiniteLength_ends (header : UInt8) (data : List UInt8) :
    EndedPeek (peekDefiniteLength header data) :=
  endedPeek_bind (decodeUnsignedInteger_ends header data) fun _ _ => endedPeek_ok _

theorem ensureReadCapacity_ends (reader : CborReader) (bytesToRead : ℕ) :
    EndedPeek (reader.ensureReadCapacity bytesToRead) := by
  unfold CborReader.ensureReadCapacity
  split
  · exact endedPeek_content _
  · exact endedPeek_ok _

theorem decodeUnsignedInteger_pos {header : UInt8} {data : List UInt8} {value : ℕ × ℕ}
    (h : decodeUnsignedInteger header data = .ok value) : 0 < value.2 := by
  have hargument {width : ℕ} (h : decodeArgument width data = .ok value) : 0 < value.2 := by
    obtain ⟨_, _, hpure⟩ := bind_ok h
    cases hpure
    exact Nat.succ_pos width
  unfold decodeUnsignedInteger at h
  split at h
  · cases h
    exact Nat.one_pos
  · split at h
    · exact hargument h
    · split at h
      · exact hargument h
      · split at h
        · exact hargument h
        · split at h
          · exact hargument h
          · cases h

theorem peekNextInitialByte_ends (buffer : List UInt8) (type : CborMajorType) :
    EndedPeek (peekNextInitialByte buffer type) := by
  unfold peekNextInitialByte
  split
  · exact endedPeek_content _
  · split
    · exact endedPeek_content _
    · exact endedPeek_ok _

variable {rounds : ℕ}

theorem concatenateChunks_ends (type : CborMajorType) (data : List UInt8) {i : ℕ}
    (hrounds : 0 < rounds) (hbound : data.length < rounds + i) (concat : List UInt8) :
    EndedPeek (concatenateChunks type data rounds i concat) := by
  induction rounds generalizing i concat with
  | zero => exact absurd hrounds (Nat.lt_irrefl 0)
  | succ rounds ih =>
    refine endedPeek_bind (peekNextInitialByte_ends _ _) fun header hheader => ?_
    have hlt : i < data.length := by
      by_contra hge
      rw [List.drop_eq_nil_of_le (Nat.not_lt.mp hge)] at hheader
      cases hheader
    dsimp only
    split
    · exact endedPeek_ok _
    · refine endedPeek_bind (peekDefiniteLength_ends _ _) fun length hlength => ?_
      obtain ⟨decoded, hdecoded, hpure⟩ := bind_ok hlength
      cases hpure
      have hpos := decodeUnsignedInteger_pos hdecoded
      exact ih (by omega) (by omega) _

theorem peekDefiniteLengthString_ends (header : UInt8) (reader : CborReader) :
    EndedPeek (peekDefiniteLengthString header reader) :=
  endedPeek_bind (peekDefiniteLength_ends _ _) fun _ _ =>
    endedPeek_bind (ensureReadCapacity_ends _ _) fun _ _ => endedPeek_ok _

theorem peekString_ends (type : CborMajorType) (reader : CborReader) :
    EndedPeek (peekString type reader) := by
  refine endedPeek_bind (peekInitialByte_ends _ _) fun header _ => ?_
  split
  · exact concatenateChunks_ends type _ (Nat.succ_pos _) (by omega) []
  · exact peekDefiniteLengthString_ends _ _

theorem peekUnsignedInteger_ends (reader : CborReader) :
    EndedPeek (peekUnsignedInteger reader) := by
  refine endedPeek_bind (peekInitialByte_ends _ _) fun header _ => ?_
  split
  · exact decodeUnsignedInteger_ends _ _
  · exact endedPeek_content _
  · exact endedPeek_invalidOperation _

theorem peekSignedInteger_ends (reader : CborReader) : EndedPeek (peekSignedInteger reader) := by
  refine endedPeek_bind (peekInitialByte_ends _ _) fun header _ => ?_
  split
  · exact endedPeek_bind (decodeUnsignedInteger_ends _ _) fun _ _ => endedPeek_ok _
  · exact endedPeek_bind (decodeUnsignedInteger_ends _ _) fun _ _ => endedPeek_ok _
  · exact endedPeek_invalidOperation _

theorem peekTagCore_ends (reader : CborReader) : EndedPeek (peekTagCore reader) :=
  endedPeek_bind (peekInitialByte_ends _ _) fun _ _ =>
    endedPeek_bind (decodeUnsignedInteger_ends _ _) fun _ _ => endedPeek_ok _

theorem peekBreak_ends (reader : CborReader) : EndedPeek (peekBreak reader) := by
  unfold peekBreak
  repeat' split
  all_goals first
    | exact endedPeek_content _
    | exact endedPeek_ok _
    | exact endedPeek_invalidOperation _

theorem peekStateCore_ends (reader : CborReader) : EndedPeek (peekStateCore reader) := by
  unfold peekStateCore
  repeat' split
  all_goals first
    | exact endedPeek_content _
    | exact endedPeek_ok _
    | exact endedPeek_invalidOperation _
    | exact peekBreak_ends _

theorem validateNextByteIsBreakByte_ends (reader : CborReader) :
    EndedPeek (validateNextByteIsBreakByte reader) := by
  refine endedPeek_bind (peekInitialByte_ends _ _) fun header _ => ?_
  split
  · exact endedPeek_invalidOperation _
  · exact endedPeek_ok _

/-- An action that no loop is stopped in. -/
abbrev EndsAt (action : ReadM α) (reader : CborReader) : Prop := Avoids IsOutOfFuel action reader

theorem peeking_ends {peek : CborReader → Except CborException α}
    (hpeek : EndedPeek (peek reader)) : EndsAt (peeking peek) reader := by
  intro exception reader' herror hfuel
  unfold peeking at herror
  split at herror
  · cases herror
  · next hpeek' =>
      cases herror
      rw [hfuel] at hpeek'
      exact hpeek hpeek'

theorem advanceBuffer_ends (bytes : ℕ) : EndsAt (advanceBuffer bytes) reader := by
  intro exception reader' herror hfuel
  unfold advanceBuffer at herror
  split at herror
  · cases herror
    cases hfuel
  · cases herror

theorem popDataItem_ends (type : CborMajorType) : EndsAt (popDataItem type) reader := by
  intro exception reader' herror hfuel
  subst hfuel
  unfold popDataItem at herror
  repeat' split at herror
  all_goals cases herror

theorem neverThrows_ends {action : ReadM α} (h : NeverThrows action) : EndsAt action reader := by
  intro exception reader' herror
  obtain ⟨value, final, hok⟩ := h reader
  rw [hok] at herror
  cases herror

theorem readItem_ends {peek : CborReader → Except CborException (α × ℕ)}
    (hpeek : EndedPeek (peek reader)) : EndsAt (readItem peek) reader :=
  (peeking_ends hpeek).bind fun value _ _ =>
    (advanceBuffer_ends value.2).bind fun _ _ _ => neverThrows_ends fun _ => ⟨_, _, rfl⟩

theorem get_ends : EndsAt (get : ReadM CborReader) reader := neverThrows_ends fun _ => ⟨_, _, rfl⟩

theorem readInt_ends : EndsAt readInt reader := readItem_ends (peekSignedInteger_ends _)

theorem readUInt_ends : EndsAt readUInt reader := readItem_ends (peekUnsignedInteger_ends _)

theorem readCborNegativeIntegerRepresentation_ends :
    EndsAt readCborNegativeIntegerRepresentation reader :=
  readItem_ends (endedPeek_bind (peekInitialByte_ends _ _) fun _ _ =>
    decodeUnsignedInteger_ends _ _)

theorem readDouble_ends : EndsAt readDouble reader := by
  refine readItem_ends (endedPeek_bind (peekInitialByte_ends _ _) fun header _ => ?_)
  dsimp only
  repeat' split
  all_goals first
    | exact endedPeek_bind (ensureReadCapacity_ends _ _) fun _ _ => endedPeek_ok _
    | exact endedPeek_invalidOperation _

theorem readSimpleValue_ends : EndsAt readSimpleValue reader := by
  refine readItem_ends (endedPeek_bind (peekInitialByte_ends _ _) fun header _ => ?_)
  repeat' split
  all_goals first
    | exact endedPeek_bind (ensureReadCapacity_ends _ _) fun _ _ => endedPeek_ok _
    | exact endedPeek_ok _
    | exact endedPeek_invalidOperation _

theorem readByteString_ends : EndsAt readByteString reader := readItem_ends (peekString_ends _ _)

theorem readTextString_ends : EndsAt readTextString reader :=
  (readItem_ends (peekString_ends _ _)).bind fun _ _ _ => neverThrows_ends fun _ => ⟨_, _, rfl⟩

theorem readTag_ends : EndsAt readTag reader :=
  (peeking_ends (peekTagCore_ends _)).bind fun tag _ _ =>
    (advanceBuffer_ends tag.2).bind fun _ _ _ => neverThrows_ends fun _ => ⟨_, _, rfl⟩

theorem readStartIndefiniteLengthString_ends (type : CborMajorType) :
    EndsAt (readStartIndefiniteLengthString type) reader := by
  refine (peeking_ends (peekInitialByte_ends _ _)).bind fun header _ _ => ?_
  split
  · exact Avoids.throw nofun _
  · exact (advanceBuffer_ends 1).bind fun _ _ _ => neverThrows_ends fun _ => ⟨_, _, rfl⟩

theorem readStartArray_ends : EndsAt readStartArray reader := by
  refine (peeking_ends (peekInitialByte_ends _ _)).bind fun header _ _ => ?_
  split
  · exact (advanceBuffer_ends 1).bind fun _ _ _ => neverThrows_ends fun _ => ⟨_, _, rfl⟩
  · refine (peeking_ends (peekDefiniteLength_ends _ _)).bind fun length _ _ => ?_
    exact (advanceBuffer_ends length.2).bind fun _ _ _ => neverThrows_ends fun _ => ⟨_, _, rfl⟩

theorem readStartMap_ends : EndsAt readStartMap reader := by
  refine (peeking_ends (peekInitialByte_ends _ _)).bind fun header _ _ => ?_
  split
  · exact (advanceBuffer_ends 1).bind fun _ _ _ => neverThrows_ends fun _ => ⟨_, _, rfl⟩
  · refine get_ends.bind fun _ _ _ => ?_
    refine (peeking_ends (peekDefiniteLength_ends _ _)).bind fun length _ _ => ?_
    dsimp only
    split
    · exact Avoids.throw nofun _
    · exact (advanceBuffer_ends length.2).bind fun _ _ _ => neverThrows_ends fun _ => ⟨_, _, rfl⟩

theorem leaveDefinite_ends (type : CborMajorType) :
    EndsAt (do popDataItem type
               advanceDataItemCounters : ReadM Unit) reader :=
  (popDataItem_ends type).bind fun _ _ _ => neverThrows_ends fun _ => ⟨_, _, rfl⟩

theorem leaveIndefinite_ends (type : CborMajorType) :
    EndsAt (do popDataItem type
               advanceDataItemCounters
               advanceBuffer 1 : ReadM Unit) reader :=
  (popDataItem_ends type).bind fun _ _ _ =>
    Avoids.bind (neverThrows_ends fun _ => ⟨_, _, rfl⟩) fun _ _ _ => advanceBuffer_ends 1

theorem readEndIndefiniteLengthString_ends (type : CborMajorType) :
    EndsAt (readEndIndefiniteLengthString type) reader :=
  (peeking_ends (validateNextByteIsBreakByte_ends _)).bind fun _ _ _ => leaveIndefinite_ends type

theorem readEndArray_ends : EndsAt readEndArray reader := by
  refine get_ends.bind fun _ _ _ => ?_
  split
  · exact (peeking_ends (validateNextByteIsBreakByte_ends _)).bind fun _ _ _ =>
      leaveIndefinite_ends _
  · exact leaveDefinite_ends _

theorem readEndMap_ends : EndsAt readEndMap reader := by
  refine get_ends.bind fun _ _ _ => ?_
  split
  · refine (peeking_ends (validateNextByteIsBreakByte_ends _)).bind fun _ _ _ => ?_
    split
    · exact Avoids.throw nofun _
    · exact leaveIndefinite_ends _
  · exact leaveDefinite_ends _

theorem peekState_ends : EndsAt peekState reader := by
  refine get_ends.bind fun _ _ _ => ?_
  split
  · exact (peeking_ends (peekStateCore_ends _)).bind fun _ _ _ =>
      neverThrows_ends fun _ => ⟨_, _, rfl⟩
  · exact Avoids.pure _ _

theorem read_then_ends {read : ReadM α} (hread : EndsAt read reader) (depth : ℤ) :
    EndsAt (do let _ ← read; pure depth : ReadM ℤ) reader :=
  hread.bind fun _ _ _ => Avoids.pure _ _

theorem skipToken_ends (depth : ℤ) (state : CborReaderState) :
    EndsAt (skipToken depth state) reader := by
  have hinvalid : EndsAt (skipInvalidState state : ReadM ℤ) reader := Avoids.throw nofun _
  cases state with
  | unsignedInteger => exact read_then_ends readUInt_ends _
  | negativeInteger => exact read_then_ends readCborNegativeIntegerRepresentation_ends _
  | byteString => exact read_then_ends readByteString_ends _
  | textString => exact read_then_ends readTextString_ends _
  | startIndefiniteLengthByteString | startIndefiniteLengthTextString =>
    exact read_then_ends (readStartIndefiniteLengthString_ends _) _
  | endIndefiniteLengthByteString => exact read_then_ends (readEndIndefiniteLengthString_ends _) _
  | endIndefiniteLengthTextString =>
    unfold skipToken
    dsimp only
    split
    · exact hinvalid
    · exact read_then_ends (readEndIndefiniteLengthString_ends _) _
  | startArray => exact read_then_ends readStartArray_ends _
  | startMap => exact read_then_ends readStartMap_ends _
  | endArray =>
    unfold skipToken
    dsimp only
    split
    · exact hinvalid
    · exact read_then_ends readEndArray_ends _
  | endMap =>
    unfold skipToken
    dsimp only
    split
    · exact hinvalid
    · exact read_then_ends readEndMap_ends _
  | halfPrecisionFloat | singlePrecisionFloat | doublePrecisionFloat =>
    exact read_then_ends readDouble_ends _
  | null | boolean | simpleValue => exact read_then_ends readSimpleValue_ends _
  | undefined | tag | finished => exact hinvalid

theorem skipTags_ends (hrounds : reader.getRemainingBytes.length < rounds) :
    EndsAt (skipTags rounds) reader := by
  induction rounds generalizing reader with
  | zero => exact absurd hrounds (Nat.not_lt_zero _)
  | succ rounds ih =>
    refine (peeking_ends (peekStateCore_ends _)).bind fun state middle hpeeking => ?_
    obtain ⟨_, rfl⟩ := peeking_eq_ok hpeeking
    split
    · refine readTag_ends.bind fun tag moved hread => ?_
      obtain ⟨number, head, rest, hhead, hbytes, _, rfl⟩ := readTag_eq_ok hread
      have hlt := (length_getRemainingBytes_tagged hhead hbytes).2
      exact ih (by omega)
    · exact Avoids.pure _ _

/-- What a round leaves to do: a frame that is closed without a byte was opened by one. -/
def roundsLeft (reader : CborReader) (depth : ℤ) : ℤ :=
  2 * reader.getRemainingBytes.length + depth

variable {depth : ℤ} {value : Option ℕ}

theorem Round.roundsLeft_lt {depth' : ℤ} (h : Round reader depth depth' reader') :
    roundsLeft reader' depth' < roundsLeft reader depth := by
  unfold roundsLeft
  cases h with
  | @item item reader' hitem hpassed =>
    obtain ⟨rest, hbytes⟩ := hpassed.bytes
    obtain ⟨first, tail, rfl, _⟩ := hitem.exists_cons
    rw [hpassed.state, CborReader.getRemainingBytes_pass, hbytes, List.drop_left]
    simp only [List.length_append, List.length_cons]
    omega
  | @definite type length head hopens =>
    obtain ⟨rest, hbytes⟩ := hopens.bytes
    have hpos := hopens.header.length_pos
    rw [CborReader.getRemainingBytes_enter, hbytes, List.drop_left, List.length_append]
    omega
  | @indefinite type hopens =>
    obtain ⟨rest, hbytes⟩ := hopens.bytes
    rw [CborReader.getRemainingBytes_enter, hbytes, List.drop_one, List.tail_cons,
      List.length_cons]
    omega
  | @close type frame nestedItems footer hcloses hdepth =>
    rw [CborReader.getRemainingBytes_leave, List.length_drop]
    omega

theorem skipNodes_ends (hdepth : 0 ≤ depth) (hrounds : roundsLeft reader depth < rounds) :
    EndsAt (skipNodes rounds depth) reader := by
  induction rounds generalizing reader depth with
  | zero =>
    unfold roundsLeft at hrounds
    omega
  | succ rounds ih =>
    have hnode : EndsAt (skipNextNode depth) reader :=
      get_ends.bind fun _ _ hget => by
        cases hget
        exact (skipTags_ends (Nat.lt_succ_self _)).bind fun state _ _ =>
          skipToken_ends depth state
    refine hnode.bind fun depth' reader' hok => ?_
    obtain ⟨_, _, hget, hok⟩ := run_bind_eq_ok hok
    cases hget
    obtain ⟨state, middle, htags, htoken⟩ := run_bind_eq_ok hok
    obtain ⟨htag, hcore, hmiddle⟩ := skipTags_eq_ok htags
    have hround := (round_of_token hdepth hcore htag htoken).roundsLeft_lt
    have htagged : roundsLeft middle depth ≤ roundsLeft reader depth := by
      rcases hmiddle with rfl | ⟨tags, _, rfl⟩
      · exact le_rfl
      · unfold roundsLeft
        rw [CborReader.getRemainingBytes_tagged, List.length_drop]
        omega
    split
    next hpos => exact ih hpos.le (by omega)
    next => exact Avoids.pure _ _

theorem readEncodedValue_ends : EndsAt readEncodedValue reader := by
  refine get_ends.bind fun initial _ hget => ?_
  cases hget
  refine (skipNodes_ends le_rfl ?_).bind fun _ _ _ =>
    get_ends.bind fun _ _ _ => Avoids.pure _ _
  unfold roundsLeft
  omega

theorem skipValue_ends : EndsAt skipValue reader :=
  readEncodedValue_ends.bind fun _ _ _ => Avoids.pure _ _

def CborReader.left (reader : CborReader) : ℕ := reader.getRemainingBytes.length

theorem Step.left_le (h : Step reader reader') : reader'.left ≤ reader.left := by
  unfold CborReader.left
  cases h with
  | peek hcore => exact le_rfl
  | item hroom hfit =>
    rw [CborReader.getRemainingBytes_pass, List.length_drop]
    omega
  | tag hroom hplain hfit =>
    rw [CborReader.getRemainingBytes_tagged, List.length_drop]
    omega
  | enter hroom hlength hfit =>
    rw [CborReader.getRemainingBytes_enter, List.length_drop]
    omega
  | leave hnested hfit =>
    rw [CborReader.getRemainingBytes_leave, List.length_drop]
    omega

theorem left_le_of_moves {action : ReadM α} {value : α} (hmoves : Moves Step action)
    (hok : action reader = .ok value reader') : reader'.left ≤ reader.left := by
  have hkeeps := hmoves.keeps (fun s s' hs hstep => (Step.left_le hstep).trans hs)
    (le_refl reader.left)
  rw [hok] at hkeeps
  exact hkeeps

theorem readEncodedValue_takes {value : List UInt8}
    (h : readEncodedValue reader = .ok value reader') :
    0 < value.length ∧ value.length + reader'.left = reader.left := by
  unfold CborReader.left
  obtain ⟨_, _, hget, hskip⟩ := run_bind_eq_ok h
  cases hget
  obtain ⟨_, final, hnodes, _⟩ := run_bind_eq_ok hskip
  cases event_of_skipNodes le_rfl hnodes with
  | @passed item rounds' _ hitem hbytes haccepts _ =>
    obtain ⟨rest, hbytes⟩ := hbytes
    have hok := readEncodedValue_ok hitem hbytes haccepts
    obtain ⟨rfl, rfl⟩ := EStateM.Result.ok.inj (h.symm.trans hok)
    obtain ⟨first, tail, rfl, _⟩ := hitem.exists_cons
    rw [CborReader.getRemainingBytes_pass, hbytes, List.drop_left, List.length_append]
    exact ⟨Nat.succ_pos _, rfl⟩
  | @closed type frame nestedItems footer rounds' _ hcloses hzero _ =>
    -- at depth zero the loop leaves nothing but a byte string
    have htype := hzero rfl
    subst htype
    cases hcloses with
    | atEnd hcontainer _ => simp at hcontainer
    | atBreak _ _ hat =>
      have hok := readEncodedValue_break hat
      obtain ⟨rfl, rfl⟩ := EStateM.Result.ok.inj (h.symm.trans hok)
      rw [CborReader.getRemainingBytes_leave, hat.bytes, List.drop_one, List.tail_cons]
      exact ⟨Nat.one_pos, Nat.add_comm _ _⟩

theorem opened_takes {opened : CborReader} {type : CborMajorType} {total : ℕ → Option ℕ}
    (h : (OpensIndefinite reader type ∧ opened = reader.enter 1 type none) ∨
      ∃ length head, OpensDefinite reader type length head ∧
        opened = reader.enter head.length type (total length)) : opened.left < reader.left := by
  unfold CborReader.left
  rcases h with ⟨hopens, rfl⟩ | ⟨length, head, hopens, rfl⟩
  · obtain ⟨rest, hbytes⟩ := hopens.bytes
    rw [CborReader.getRemainingBytes_enter, hbytes, List.drop_one]
    exact Nat.lt_succ_self _
  · obtain ⟨rest, hbytes⟩ := hopens.bytes
    have hpos := hopens.header.length_pos
    rw [CborReader.getRemainingBytes_enter, hbytes, List.drop_left, List.length_append]
    omega

theorem readStartArray_takes (h : readStartArray reader = .ok value reader') :
    reader'.left < reader.left := opened_takes (readStartArray_eq_ok h)

theorem readStartMap_takes (h : readStartMap reader = .ok value reader') :
    reader'.left < reader.left := opened_takes (readStartMap_eq_ok h)

end CardanoSdk.Cbor

namespace CardanoSdk.Serialization

open Lib Cbor Plutus Cardano

variable {reader : CborReader} {α : Type}

def IsStopped (exception : DecodeException) : Prop :=
  exception = .outOfFuel ∨ exception = .reader .outOfFuel

/-- A result that nothing was stopped for: a value, or an exception of the source. -/
def Ended (result : Except DecodeException α) : Prop :=
  ∀ exception, result = .error exception → ¬ IsStopped exception

abbrev DecodesAt (action : DecodeM α) (reader : CborReader) : Prop := Avoids IsStopped action reader

theorem reading_ends {action : ReadM α} (haction : EndsAt action reader) :
    DecodesAt (reading action) reader := by
  intro exception reader' herror hstopped
  unfold reading at herror
  split at herror
  · cases herror
  next exception' _ hread =>
    cases herror
    rcases hstopped with hfuel | hfuel
    · cases hfuel
    · exact haction exception' _ hread (DecodeException.reader.inj hfuel)

theorem decoding_ends {result : Except DecodeException α} (hresult : Ended result) :
    DecodesAt (decoding result) reader := by
  intro exception reader' herror
  unfold decoding at herror
  split at herror
  · cases herror
  next exception' =>
    cases herror
    exact hresult _ rfl

variable {cbor : List UInt8}

theorem decodeWith_ends {calls : DecodeM α}
    (hcalls : ∀ reader : CborReader, reader.left = cbor.length → DecodesAt calls reader) :
    Ended (decodeWith cbor calls) := by
  intro exception herror
  unfold decodeWith at herror
  split at herror
  next hlength =>
    split at herror
    · cases herror
    next exception' reader' hrun =>
      cases herror
      refine hcalls _ ?_ _ _ hrun
      simp [CborReader.left, CborReader.getRemainingBytes, CborReader.new]
  · cases herror
    rintro (hfuel | hfuel) <;> cases hfuel

theorem decodedPart_ends {fromCbor : List UInt8 → Except DecodeException α} {limit : ℕ}
    (hfrom : ∀ cbor, cbor.length < limit → Ended (fromCbor cbor)) (hleft : reader.left < limit)
    {β : Type} {next : α → DecodeM β}
    (hnext : ∀ value reader', reader'.left < reader.left → DecodesAt (next value) reader') :
    DecodesAt (do let encoded ← reading readEncodedValue
                  let value ← decoding (fromCbor encoded)
                  next value) reader := by
  refine (reading_ends readEncodedValue_ends).bind fun encoded moved hread => ?_
  obtain ⟨hpos, htaken⟩ := readEncodedValue_takes (reading_eq_ok hread)
  refine (decoding_ends (hfrom encoded (by omega))).bind fun value reader' hdecode => ?_
  obtain ⟨-, rfl⟩ := decoding_eq_ok hdecode
  exact hnext value reader' (by omega)

theorem left_le_of_reading {action : ReadM α} {value : α} {reader' : CborReader}
    (hmoves : Moves Step action) (hok : reading action reader = .ok value reader') :
    reader'.left ≤ reader.left :=
  left_le_of_moves hmoves (reading_eq_ok hok)

section Parts

variable {limit rounds : ℕ}

theorem untilEnd_ends {σ : Type} {closing : CborReaderState} {step : σ → DecodeM σ}
    (hstep : ∀ s reader, reader.left < limit → DecodesAt (step s) reader)
    (htakes : ∀ s s' reader reader', step s reader = .ok s' reader' → reader'.left < reader.left)
    {rounds : ℕ} {s : σ} (hleft : reader.left < limit) (hrounds : reader.left < rounds) :
    DecodesAt (untilEnd closing step rounds s) reader := by
  induction rounds generalizing reader s with
  | zero => exact absurd hrounds (Nat.not_lt_zero _)
  | succ rounds ih =>
    refine (reading_ends peekState_ends).bind fun state peeked hpeek => ?_
    have hpeeked := left_le_of_reading peekState_moves hpeek
    split
    · exact Avoids.pure _ _
    · refine (hstep s peeked (by omega)).bind fun s' reader' hok => ?_
      have hlt := htakes s s' peeked reader' hok
      exact ih (by omega) (by omega)

theorem readPart_takes {part : List UInt8 → Except DecodeException α} {value : α}
    {reader' : CborReader} (h : readPart part reader = .ok value reader') :
    reader'.left < reader.left := by
  obtain ⟨encoded, moved, hread, hdecode⟩ := run_bind_eq_ok h
  obtain ⟨hpos, htaken⟩ := readEncodedValue_takes (reading_eq_ok hread)
  obtain ⟨-, rfl⟩ := decoding_eq_ok hdecode
  omega

theorem readPart_ends {part : List UInt8 → Except DecodeException α}
    (hpart : ∀ cbor, cbor.length < limit → Ended (part cbor)) (hleft : reader.left < limit) :
    DecodesAt (readPart part) reader := by
  refine (reading_ends readEncodedValue_ends).bind fun encoded moved hread => ?_
  obtain ⟨hpos, htaken⟩ := readEncodedValue_takes (reading_eq_ok hread)
  exact decoding_ends (hpart encoded (by omega))

variable {part : List UInt8 → Except DecodeException α}

theorem readParts_ends (hpart : ∀ cbor, cbor.length < limit → Ended (part cbor))
    (hleft : reader.left ≤ limit) (hrounds : reader.left ≤ rounds) :
    DecodesAt (readArray (addPart part) rounds []) reader := by
  have hstep (items : List α) (reader : CborReader) (hlt : reader.left < limit) :
      DecodesAt (addPart part items) reader :=
    (readPart_ends hpart hlt).bind fun _ _ _ => Avoids.pure _ _
  have htakes (items items' : List α) (reader reader' : CborReader)
      (hok : addPart part items reader = .ok items' reader') : reader'.left < reader.left := by
    obtain ⟨item, moved, hread, hpure⟩ := run_bind_eq_ok hok
    cases hpure
    exact readPart_takes hread
  refine (reading_ends readStartArray_ends).bind fun length opened hopen => ?_
  have hopened := readStartArray_takes (reading_eq_ok hopen)
  refine (untilEnd_ends hstep htakes (by omega) (by omega)).bind fun items _ _ => ?_
  exact (reading_ends readEndArray_ends).bind fun _ _ _ => Avoids.pure _ _

theorem readEntries_ends (hpart : ∀ cbor, cbor.length < limit → Ended (part cbor))
    (hleft : reader.left ≤ limit) (hrounds : reader.left ≤ rounds) :
    DecodesAt (readMap (insertParts part) rounds []) reader := by
  have hstep (entries : List (α × α)) (reader : CborReader) (hlt : reader.left < limit) :
      DecodesAt (insertParts part entries) reader := by
    refine (readPart_ends hpart hlt).bind fun key afterKey hkey => ?_
    have hshorter := readPart_takes hkey
    exact (readPart_ends hpart (by omega)).bind fun _ _ _ => Avoids.pure _ _
  have htakes (entries entries' : List (α × α)) (reader reader' : CborReader)
      (hok : insertParts part entries reader = .ok entries' reader') :
      reader'.left < reader.left := by
    obtain ⟨key, afterKey, hkey, hrest⟩ := run_bind_eq_ok hok
    obtain ⟨value, moved, hvalue, hpure⟩ := run_bind_eq_ok hrest
    cases hpure
    exact (readPart_takes hvalue).trans (readPart_takes hkey)
  refine (reading_ends readStartMap_ends).bind fun length opened hopen => ?_
  have hopened := readStartMap_takes (reading_eq_ok hopen)
  refine (untilEnd_ends hstep htakes (by omega) (by omega)).bind fun entries _ _ => ?_
  exact (reading_ends readEndMap_ends).bind fun _ _ _ => Avoids.pure _ _

end Parts

section Plutus

variable {fromCbor : List UInt8 → Except DecodeException PlutusData} {limit : ℕ}
  {cbor : List UInt8}

theorem plutusListFromCbor_ends (hlimit : cbor.length ≤ limit)
    (hfrom : ∀ cbor, cbor.length < limit → Ended (fromCbor cbor)) :
    Ended (plutusListFromCbor fromCbor cbor) := by
  rw [plutusListFromCbor_eq]
  exact decodeWith_ends fun reader hleft =>
    (readParts_ends hfrom (by omega) (by omega)).bind fun _ _ _ => Avoids.pure _ _

theorem plutusMapFromCbor_ends (hlimit : cbor.length ≤ limit)
    (hfrom : ∀ cbor, cbor.length < limit → Ended (fromCbor cbor)) :
    Ended (plutusMapFromCbor fromCbor cbor) := by
  rw [plutusMapFromCbor_eq]
  exact decodeWith_ends fun reader hleft =>
    (readEntries_ends hfrom (by omega) (by omega)).bind fun _ _ _ => Avoids.pure _ _

theorem constrFromCbor_ends (hlimit : cbor.length ≤ limit)
    (hfrom : ∀ cbor, cbor.length < limit → Ended (fromCbor cbor)) :
    Ended (constrFromCbor fromCbor cbor) := by
  have hlist (cbor : List UInt8) (hlt : cbor.length < limit + 1) :
      Ended (plutusListFromCbor fromCbor cbor) := plutusListFromCbor_ends (by omega) hfrom
  refine decodeWith_ends fun reader hleft => ?_
  refine (reading_ends readTag_ends).bind fun tag tagged htag => ?_
  have htagged := left_le_of_reading readTag_moves htag
  split
  · refine (reading_ends readStartArray_ends).bind fun length opened hopen => ?_
    have hopened := left_le_of_reading readStartArray_moves hopen
    refine (reading_ends readInt_ends).bind fun alternative counted hint => ?_
    have hcounted := left_le_of_reading readInt_moves hint
    refine decodedPart_ends hlist (by omega) fun data reader' _ => ?_
    exact (reading_ends readEndArray_ends).bind fun _ _ _ => Avoids.pure _ _
  · exact decodedPart_ends hlist (by omega) fun data reader' _ => Avoids.pure _ _

end Plutus

variable {fuel : ℕ}

theorem fromCborWithin_ends (hfuel : cbor.length < fuel) : Ended (fromCborWithin fuel cbor) := by
  induction fuel generalizing cbor with
  | zero => exact absurd hfuel (Nat.not_lt_zero _)
  | succ fuel ih =>
    have hinner (cbor : List UInt8) (hlt : cbor.length < fuel) :
        Ended (fromCborWithin fuel cbor) := ih hlt
    refine decodeWith_ends fun reader hleft => ?_
    refine (reading_ends peekState_ends).bind fun state peeked hpeek => ?_
    have hpeeked := left_le_of_reading peekState_moves hpeek
    have hinteger : DecodesAt (do let value ← reading readInt
                                  pure (PlutusData.integer (some cbor) value)) peeked :=
      (reading_ends readInt_ends).bind fun _ _ _ => Avoids.pure _ _
    have hbytes : DecodesAt (do let value ← reading readByteString
                                pure (PlutusData.bytes (some cbor) value)) peeked :=
      (reading_ends readByteString_ends).bind fun _ _ _ => Avoids.pure _ _
    split
    · refine (reading_ends ((peeking_ends (peekTagCore_ends _)).bind fun _ _ _ =>
        Avoids.pure _ _)).bind fun tag looked hlook => ?_
      have hlooked := left_le_of_reading peekTag_moves hlook
      split
      · exact (reading_ends readTag_ends).bind fun _ _ _ =>
          (reading_ends readByteString_ends).bind fun _ _ _ => Avoids.pure _ _
      · split
        · exact (reading_ends readTag_ends).bind fun _ _ _ =>
            (reading_ends readByteString_ends).bind fun _ _ _ => Avoids.pure _ _
        · have hconstr (cbor : List UInt8) (hlt : cbor.length < fuel + 1) :=
            constrFromCbor_ends (Nat.le_of_lt_succ hlt) hinner
          exact decodedPart_ends hconstr (by omega) fun _ _ _ => Avoids.pure _ _
    · exact hinteger
    · exact hinteger
    · exact hbytes
    · exact hbytes
    · have hlist (cbor : List UInt8) (hlt : cbor.length < fuel + 1) :=
        plutusListFromCbor_ends (Nat.le_of_lt_succ hlt) hinner
      exact decodedPart_ends hlist (by omega) fun _ _ _ => Avoids.pure _ _
    · have hmap (cbor : List UInt8) (hlt : cbor.length < fuel + 1) :=
        plutusMapFromCbor_ends (Nat.le_of_lt_succ hlt) hinner
      exact decodedPart_ends hmap (by omega) fun _ _ _ => Avoids.pure _ _
    · exact Avoids.throw (by rintro (h | h) <;> cases h) _

section NativeScripts

variable {fromCbor : List UInt8 → Except DecodeException NativeScript} {limit : ℕ}

variable {cbor : List UInt8}

theorem readScripts_ends (hfrom : ∀ cbor, cbor.length < limit → Ended (fromCbor cbor))
    (hleft : reader.left ≤ limit) (hcbor : reader.left ≤ cbor.length) :
    DecodesAt (readScripts fromCbor cbor) reader :=
  (readParts_ends hfrom hleft (Nat.le_succ_of_le hcbor)).bind fun _ _ _ => Avoids.pure _ _

theorem checking_ends (result : Except String α) : DecodesAt (checking result) reader := by
  refine decoding_ends ?_
  intro exception herror hstopped
  cases result with
  | ok value => cases herror
  | error message =>
    cases herror
    rcases hstopped with h | h <;> cases h

theorem throwError_ends (message : String) :
    DecodesAt (throw (.error message) : DecodeM α) reader :=
  Avoids.throw (by rintro (h | h) <;> cases h) _

theorem readGroup_ends {kind : NativeScriptKind} {rest : DecodeM α}
    (hrest : ∀ reader : CborReader, reader.left < cbor.length → DecodesAt rest reader) :
    Ended (readGroup kind cbor rest) := by
  refine decodeWith_ends fun reader hleft => ?_
  refine (reading_ends readStartArray_ends).bind fun length opened hopen => ?_
  have hopened := readStartArray_takes (reading_eq_ok hopen)
  split
  · exact throwError_ends _
  · refine (reading_ends readInt_ends).bind fun value counted hint => ?_
    have hcounted := left_le_of_reading readInt_moves hint
    split
    · exact throwError_ends _
    · exact hrest counted (by omega)

theorem credentialFromCbor_ends (cbor : List UInt8) : Ended (credentialFromCbor cbor) := by
  refine decodeWith_ends fun reader _ => ?_
  refine (reading_ends readStartArray_ends).bind fun length _ _ => ?_
  split
  · exact throwError_ends _
  · refine Avoids.bind ?_ fun type _ _ =>
      (reading_ends readByteString_ends).bind fun hash _ _ =>
        (reading_ends readEndArray_ends).bind fun _ _ _ => Avoids.pure _ _
    refine (reading_ends readInt_ends).bind fun type _ _ => ?_
    split
    · exact Avoids.pure _ _
    · split
      · exact Avoids.pure _ _
      · exact throwError_ends _

theorem peekKind_ends (cbor : List UInt8) : Ended (peekKind cbor) := by
  refine decodeWith_ends fun reader _ => ?_
  exact (reading_ends readStartArray_ends).bind fun _ _ _ =>
    (reading_ends readInt_ends).bind fun _ _ _ => Avoids.pure _ _

theorem readKind_ends (kind : NativeScriptKind)
    (hfrom : ∀ shorter, shorter.length < cbor.length → Ended (fromCbor shorter)) :
    Ended (readKind fromCbor cbor kind) := by
  have hscripts (make : List NativeScript → NativeScript) (reader : CborReader)
      (hleft : reader.left < cbor.length) :
      DecodesAt (do let scripts ← readScripts fromCbor cbor
                    pure (make scripts)) reader :=
    (readScripts_ends hfrom hleft.le hleft.le).bind fun _ _ _ => Avoids.pure _ _
  have hslot (make : ℤ → NativeScript) (reader : CborReader) :
      DecodesAt (do let slot ← reading readInt
                    pure (make slot)) reader :=
    (reading_ends readInt_ends).bind fun _ _ _ => Avoids.pure _ _
  cases kind with
  | requireSignature =>
    exact readGroup_ends fun reader _ => (reading_ends readByteString_ends).bind fun _ _ _ =>
      (checking_ends _).bind fun _ _ _ => Avoids.pure _ _
  | requireAllOf => exact readGroup_ends (hscripts _)
  | requireAnyOf => exact readGroup_ends (hscripts _)
  | requireNOf =>
    refine readGroup_ends fun reader hleft => ?_
    refine (reading_ends readInt_ends).bind fun required counted hint => ?_
    have hcounted := left_le_of_reading readInt_moves hint
    exact hscripts _ counted (by omega)
  | requireTimeAfter => exact readGroup_ends fun reader _ => hslot _ reader
  | requireTimeBefore => exact readGroup_ends fun reader _ => hslot _ reader
  | requireGuard =>
    refine readGroup_ends fun reader hleft => ?_
    exact (readPart_ends (fun cbor _ => credentialFromCbor_ends cbor) hleft).bind fun _ _ _ =>
      Avoids.pure _ _

end NativeScripts

theorem nativeScriptWithin_ends (hfuel : cbor.length < fuel) :
    Ended (nativeScriptWithin fuel cbor) := by
  induction fuel generalizing cbor with
  | zero => exact absurd hfuel (Nat.not_lt_zero _)
  | succ fuel ih =>
    intro exception herror
    unfold nativeScriptWithin at herror
    cases hkind : peekKind cbor with
    | error exception' =>
      rw [hkind] at herror
      cases herror
      exact peekKind_ends cbor exception hkind
    | ok number =>
      rw [bind_of_ok hkind] at herror
      split at herror
      next kind _ => exact readKind_ends kind (fun shorter hlt => ih (by omega)) _ herror
      next =>
        cases herror
        rintro (h | h) <;> cases h

/-- No loop and no recursion is stopped, for a value that is read or skipped in any state
of a reader and for a decoder on any bytes: each returns or throws an exception of the
source. -/
theorem recursive_decoders_end (reader : CborReader) (cbor : List UInt8) :
    EndsAt readEncodedValue reader ∧ EndsAt skipValue reader ∧
      Ended (PlutusData.fromCbor cbor) ∧ Ended (NativeScript.fromCbor cbor) :=
  ⟨readEncodedValue_ends, skipValue_ends, fromCborWithin_ends (Nat.lt_succ_self _),
    nativeScriptWithin_ends (Nat.lt_succ_self _)⟩

end CardanoSdk.Serialization
