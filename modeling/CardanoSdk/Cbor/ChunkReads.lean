import CardanoSdk.Cbor.SkippedValue

/-!
An indefinite-length string read at once and chunk by chunk.
-/

namespace CardanoSdk.Cbor

open Lib

section Loop

variable {α : Type} (definite : CborReaderState) (readDefinite : ReadM α)

/-- Read while `peekState` announces a definite-length string. A round takes a byte. -/
def readWhileDefinite : ℕ → ReadM (List α)
  | 0 => throw .outOfFuel
  | rounds + 1 => do
    let state ← peekState
    if state = definite then
      let chunk ← readDefinite
      let chunks ← readWhileDefinite rounds
      pure (chunk :: chunks)
    else pure []

def readInChunks (type : CborMajorType) (rounds : ℕ) : ReadM (List α) := do
  readStartIndefiniteLengthString type
  let chunks ← readWhileDefinite definite readDefinite rounds
  readEndIndefiniteLengthString type
  pure chunks

end Loop

def readByteStringChunks : ℕ → ReadM (List (List UInt8)) :=
  readInChunks .byteString readDefiniteLengthByteString .byteString

def readTextStringChunks : ℕ → ReadM (List String) :=
  readInChunks .textString readDefiniteLengthTextString .utf8String

/-- The bytes that `readDefiniteLengthTextString` decodes. -/
def readTextChunkBytes : ℕ → ReadM (List (List UInt8)) :=
  readInChunks .textString (readItem (peekDefiniteString .utf8String
    "Expected definite length string and got indefinite length")) .utf8String

def StartsIndefinite (type : CborMajorType) (reader : CborReader) : Prop :=
  reader.getRemainingBytes.head? = some (initialByte type.toNat 31)

inductive StringToken : CborMajorType → CborReaderState → Prop
  | byteString : StringToken .byteString .byteString
  | textString : StringToken .utf8String .textString

variable {type : CborMajorType} {definite : CborReaderState} {reader reader' : CborReader}
  {data tail concat value : List UInt8} {i stop rounds rounds' : ℕ} {first : UInt8}
  {frame : StackFrame} {nestedItems : List StackFrame} {refusal : String}

theorem StringToken.isString (h : StringToken type definite) :
    type = .byteString ∨ type = .utf8String := by
  cases h
  · exact Or.inl rfl
  · exact Or.inr rfl

theorem StringToken.peekItem_eq (h : StringToken type definite) :
    peekItem first = definite ↔
      getMajorType first = type ∧ getAdditionalInfo first ≠ indefiniteLength := by
  unfold peekItem mapSimpleValueDataToReaderState
  cases h <;> cases getMajorType first <;> simp <;> split_ifs <;> simp_all

theorem StringToken.not_stops (h : StringToken type definite) : ¬ Stops reader definite := by
  have hclosing : ∀ {state}, Stops reader state → state ≠ .byteString ∧ state ≠ .textString := by
    rintro _ (_ | ⟨htype, -, -⟩ | ⟨htype, -, -, -, -, -⟩)
    · decide
    · rcases htype with rfl | rfl <;> decide
    · rcases htype with rfl | rfl | rfl | rfl <;> decide
  intro hstops
  cases h
  · exact (hclosing hstops).1 rfl
  · exact (hclosing hstops).2 rfl

/-- The reader between two chunks, at a position of the string. -/
structure Inside (reader : CborReader) (type : CborMajorType) (frame : StackFrame)
    (nestedItems : List StackFrame) (data : List UInt8) (i : ℕ) : Prop where
  type : reader.currentFrame.type = some type
  indefinite : reader.currentFrame.definiteLength = none
  nested : reader.nestedItems = frame :: nestedItems
  untagged : reader.isTagContext = false
  fresh : reader.cachedState = .undefined
  bytes : reader.getRemainingBytes = data.drop i

theorem Inside.room (h : Inside reader type frame nestedItems data i) :
    reader.currentFrame.isComplete = false := by
  simp [StackFrame.isComplete, h.indefinite]

theorem Inside.pass (h : Inside reader type frame nestedItems data i) (bytes : ℕ) :
    Inside (reader.pass 1 bytes) type frame nestedItems data (i + bytes) where
  type := h.type
  indefinite := h.indefinite
  nested := h.nested
  untagged := rfl
  fresh := rfl
  bytes := by rw [CborReader.getRemainingBytes_pass, h.bytes, List.drop_drop]

theorem Inside.accepts (h : Inside reader type frame nestedItems data i)
    (htype : type = .byteString ∨ type = .utf8String) (hmajor : getMajorType first = type)
    (hinfo : getAdditionalInfo first ≠ indefiniteLength) :
    reader.currentFrame.Accepts first := by
  refine ⟨h.room, ?_⟩
  unfold StackFrame.refuses StackFrame.refuses.isForeign
  rw [h.type]
  rcases htype with rfl | rfl <;> simp [hmajor, hinfo]

theorem Inside.peekDefiniteString_iff {chunk : List UInt8} {bytes : ℕ}
    (h : Inside reader type frame nestedItems data i)
    (htype : type = .byteString ∨ type = .utf8String) (hdata : data.drop i = first :: tail)
    (hmajor : getMajorType first = type) (hinfo : getAdditionalInfo first ≠ indefiniteLength) :
    peekDefiniteString type refusal reader = .ok (chunk, bytes) ↔
      ∃ length bytesRead, peekDefiniteLength first (data.drop i) = .ok (length, bytesRead) ∧
        bytesRead + length ≤ (data.drop i).length ∧
        chunk = (data.drop (i + bytesRead)).take length ∧ bytes = bytesRead + length := by
  have hpeek : peekInitialByte (some type) reader = .ok first :=
    peekInitialByte_accepts (h.bytes.trans hdata) (h.accepts htype hmajor hinfo)
      fun type' htype' => hmajor.trans (Option.some.inj htype')
  have hremaining := reader.getRemainingBytes_length
  rw [h.bytes] at hremaining
  rw [peekDefiniteString, bind_of_ok hpeek, if_neg hinfo, peekDefiniteLengthString, h.bytes]
  constructor
  · intro hok
    obtain ⟨⟨length, bytesRead⟩, hlength, hok⟩ := bind_ok hok
    obtain ⟨_, hcapacity, hpure⟩ := bind_ok hok
    unfold CborReader.ensureReadCapacity at hcapacity
    rw [← hremaining] at hcapacity
    split at hcapacity
    · cases hcapacity
    · rename_i hfit
      cases hpure
      exact ⟨length, bytesRead, hlength, Nat.not_lt.mp hfit, by rw [List.drop_drop], rfl⟩
  · rintro ⟨length, bytesRead, hlength, hfit, rfl, rfl⟩
    rw [bind_of_ok hlength]
    unfold CborReader.ensureReadCapacity
    dsimp only
    rw [← hremaining, if_neg (Nat.not_lt.mpr hfit), List.drop_drop]
    rfl

theorem peekDefiniteLength_eq_ok {length bytesRead : ℕ}
    (h : peekDefiniteLength first (first :: tail) = .ok (length, bytesRead)) :
    0 < bytesRead ∧ getAdditionalInfo first ≠ indefiniteLength := by
  obtain ⟨⟨argument, bytes⟩, hdecode, hpure⟩ := bind_ok h
  cases hpure
  obtain ⟨payload, rest, -, rfl, hhead⟩ := decodeUnsignedInteger_eq_ok hdecode
  obtain ⟨first', payload', hcons, -, hinfo, -⟩ := head_first hhead
  cases hcons
  exact ⟨Nat.succ_pos _, hinfo⟩

theorem lt_of_concatenateChunks {result : List UInt8 × ℕ}
    (h : concatenateChunks type data rounds i concat = .ok result) : i < data.length := by
  cases rounds with
  | zero => cases h
  | succ rounds =>
    by_contra hge
    rw [concatenateChunks, List.drop_of_length_le (by omega)] at h
    cases h

theorem readWhileDefinite_of_concatenateChunks (htoken : StringToken type definite)
    (hinside : Inside reader type frame nestedItems data i)
    (hrounds : data.length < rounds' + i)
    (h : concatenateChunks type data rounds i concat = .ok (value, stop)) :
    ∃ chunks last rest,
      readWhileDefinite definite (readItem (peekDefiniteString type refusal)) rounds' reader =
        .ok chunks last ∧
      AtBreak last type frame nestedItems rest ∧
      last.leave 1 frame nestedItems = reader.leave (stop - i) frame nestedItems ∧
      value = concat ++ chunks.flatten ∧ i < stop ∧ stop ≤ data.length := by
  induction rounds generalizing rounds' i concat reader with
  | zero => cases h
  | succ rounds ih =>
    have hlt := lt_of_concatenateChunks h
    obtain ⟨rounds', rfl⟩ : ∃ n, rounds' = n + 1 := ⟨rounds' - 1, by omega⟩
    rw [concatenateChunks] at h
    obtain ⟨first, hpeek, h⟩ := bind_ok h
    cases hdata : data.drop i with
    | nil =>
      rw [hdata] at hpeek
      cases hpeek
    | cons header tail =>
      rw [hdata, peekNextInitialByte] at hpeek
      split at hpeek
      · cases hpeek
      · rename_i hknown
        cases hpeek
        split at h
        · rename_i hbreak
          cases h
          have hatBreak : AtBreak reader type frame nestedItems tail :=
            ⟨by rw [hinside.bytes, hdata, hbreak], hinside.type, hinside.indefinite,
              hinside.nested, hinside.untagged⟩
          have hstate : ∃ state, peekStateCore reader = .ok state ∧ state ≠ definite := by
            rw [peekStateCore_break hatBreak, peekBreak, hinside.untagged, hinside.indefinite,
              hinside.type]
            cases htoken <;> exact ⟨_, rfl, by decide⟩
          obtain ⟨state, hcore, hne⟩ := hstate
          refine ⟨[], reader.cached state, tail, ?_, ⟨hatBreak.bytes, hatBreak.type,
            hatBreak.indefinite, hatBreak.nested, hatBreak.untagged⟩, ?_, by simp, by omega, hlt⟩
          · rw [readWhileDefinite, run_bind_ok (peekState_ok hcore (Or.inl hinside.fresh)),
              if_neg hne]
            rfl
          · rw [Nat.add_sub_cancel_left]
            rfl
        · rename_i hbreak
          have hmajor : getMajorType first = type := by
            by_contra hother
            exact hknown ⟨hbreak, hother⟩
          obtain ⟨⟨length, bytesRead⟩, hdefinite, h⟩ := bind_ok h
          have hlength := hdefinite
          rw [hdata] at hlength
          obtain ⟨hpos, hinfo⟩ := peekDefiniteLength_eq_ok hlength
          have hfit := lt_of_concatenateChunks h
          have hshort : data.length < rounds' + (i + (bytesRead + length)) := by omega
          obtain ⟨chunks, last, rest, hread, hatBreak, hleave, hvalue, hstop, hend⟩ :=
            ih (hinside.pass (bytesRead + length)) hshort h
          have hroom : bytesRead + length ≤ (data.drop i).length := by
            rw [List.length_drop]
            omega
          have hchunk : peekDefiniteString type refusal (reader.cached definite) =
              .ok ((data.drop (i + bytesRead)).take length, bytesRead + length) :=
            (hinside.peekDefiniteString_iff htoken.isString hdata hmajor hinfo).mpr
              ⟨length, bytesRead, hdefinite, hroom, rfl, rfl⟩
          have hcore := peekStateCore_item (hinside.bytes.trans hdata) hbreak
            (hinside.accepts htoken.isString hmajor hinfo)
          rw [htoken.peekItem_eq.mpr ⟨hmajor, hinfo⟩] at hcore
          refine ⟨(data.drop (i + bytesRead)).take length :: chunks, last, rest, ?_, hatBreak, ?_,
            ?_, by omega, hend⟩
          · rw [readWhileDefinite, run_bind_ok (peekState_ok hcore (Or.inl hinside.fresh)),
              if_pos rfl, run_bind_ok (readItem_ok hchunk (by omega) ?_)]
            · exact run_bind_ok hread
            · change _ ≤ reader.getRemainingBytes.length
              rw [hinside.bytes]
              exact hroom
          · rw [hleave]
            simp only [CborReader.leave, CborReader.pass]
            congr 1
            omega
          · rw [hvalue, List.flatten_cons, List.append_assoc]

theorem concatenateChunks_of_readWhileDefinite (htoken : StringToken type definite)
    {chunks : List (List UInt8)} {last : CborReader}
    (hinside : Inside reader type frame nestedItems data i)
    (hrounds : (data.drop i).length < rounds)
    (h : readWhileDefinite definite (readItem (peekDefiniteString type refusal)) rounds' reader =
      .ok chunks last)
    (hend : readEndIndefiniteLengthString type last = .ok () reader') :
    ∃ stop, concatenateChunks type data rounds i concat = .ok (concat ++ chunks.flatten, stop) := by
  induction rounds' generalizing rounds i concat reader chunks with
  | zero => cases h
  | succ rounds' ih =>
    obtain ⟨rounds, rfl⟩ : ∃ n, rounds = n + 1 := ⟨rounds - 1, by omega⟩
    rw [readWhileDefinite] at h
    obtain ⟨state, peeked, hpeek, h⟩ := run_bind_eq_ok h
    obtain ⟨hcore, rfl⟩ := peekState_eq_ok hinside.fresh hpeek
    split at h
    · rename_i hstate
      subst hstate
      obtain ⟨first, tail, hbytes, hbreak, hitem⟩ := (peekStateCore_eq_ok hcore).resolve_left
        htoken.not_stops
      rw [hinside.bytes] at hbytes
      obtain ⟨hmajor, hinfo⟩ := htoken.peekItem_eq.mp hitem.symm
      obtain ⟨chunk, next, hchunk, h⟩ := run_bind_eq_ok h
      obtain ⟨rest, last', hrest, hpure⟩ := run_bind_eq_ok h
      cases hpure
      obtain ⟨bytes, hpeek, -, rfl⟩ := readItem_eq_ok hchunk
      obtain ⟨length, bytesRead, hdefinite, hroom, rfl, rfl⟩ :=
        (hinside.peekDefiniteString_iff htoken.isString hbytes hmajor hinfo).mp hpeek
      have hlength := hdefinite
      rw [hbytes] at hlength
      have hpos := (peekDefiniteLength_eq_ok hlength).1
      have hshort : (data.drop (i + (bytesRead + length))).length < rounds := by
        rw [List.length_drop] at hrounds hroom ⊢
        omega
      obtain ⟨stop, hconcat⟩ := ih (hinside.pass (bytesRead + length)) hshort hrest
      have hnext : peekNextInitialByte (data.drop i) type = .ok first := by
        rw [hbytes, peekNextInitialByte, if_neg fun h => h.2 hmajor]
      refine ⟨stop, ?_⟩
      rw [concatenateChunks, bind_of_ok hnext, if_neg hbreak, bind_of_ok hdefinite,
        List.flatten_cons, ← List.append_assoc]
      exact hconcat
    · cases h
      obtain ⟨_, _, hvalidate, -⟩ := run_bind_eq_ok hend
      obtain ⟨hbreak, -⟩ := peeking_eq_ok hvalidate
      obtain ⟨tail, hbytes⟩ : ∃ tail, data.drop i = indefiniteLengthBreakByte :: tail := by
        obtain ⟨header, hheader, hbreak⟩ := bind_ok hbreak
        obtain ⟨-, tail, htail⟩ := accepts_of_peekInitialByte hheader
        split at hbreak
        · cases hbreak
        · rename_i hequal
          rw [not_not] at hequal
          exact ⟨tail, hinside.bytes.symm.trans (hequal ▸ htail)⟩
      have hnext : peekNextInitialByte (data.drop i) type = .ok indefiniteLengthBreakByte := by
        rw [hbytes, peekNextInitialByte, if_neg fun h => h.1 rfl]
      refine ⟨i + 1, ?_⟩
      rw [concatenateChunks, bind_of_ok hnext, if_pos rfl, List.flatten_nil, List.append_nil]
      rfl

theorem inside_enter (type : CborMajorType) (reader : CborReader) :
    Inside (reader.enter 1 type none) type reader.currentFrame reader.nestedItems
      reader.getRemainingBytes 1 :=
  ⟨rfl, rfl, rfl, rfl, rfl, reader.getRemainingBytes_enter 1 type none⟩

theorem readString_iff_chunks (htoken : StringToken type definite)
    (hstarts : StartsIndefinite type reader)
    (hrounds : reader.getRemainingBytes.length < rounds) :
    readItem (peekString type) reader = .ok value reader' ↔
      ∃ chunks, readInChunks definite (readItem (peekDefiniteString type refusal)) type rounds
        reader = .ok chunks reader' ∧ value = chunks.flatten := by
  have htype := htoken.isString
  have hinside := inside_enter type reader
  have hleaves {bytes : ℕ} (hpos : 1 < bytes) : (reader.enter 1 type none).leave (bytes - 1)
      reader.currentFrame reader.nestedItems = reader.pass 1 bytes := by
    simp only [CborReader.leave, CborReader.enter, CborReader.pass]
    congr 1
    omega
  have hinfo : getAdditionalInfo (initialByte type.toNat 31) = indefiniteLength :=
    getAdditionalInfo_initialByte type (by decide)
  have hfuel : (reader.getRemainingBytes.drop 1).length < reader.getRemainingBytes.length + 1 := by
    rw [List.length_drop]
    omega
  constructor
  · intro h
    obtain ⟨bytes, hpeek, -, rfl⟩ := readItem_eq_ok h
    obtain ⟨header, hheader, hconcat⟩ := bind_ok hpeek
    obtain ⟨haccepts, tail, hbytes⟩ := accepts_of_peekInitialByte hheader
    obtain rfl : header = initialByte type.toNat 31 := by
      rw [StartsIndefinite, hbytes] at hstarts
      exact Option.some.inj hstarts
    rw [if_pos hinfo] at hconcat
    obtain ⟨chunks, last, rest, hread, hatBreak, hleave, hvalue, hstop, -⟩ :=
      readWhileDefinite_of_concatenateChunks htoken hinside (Nat.lt_succ_of_lt hrounds) hconcat
    refine ⟨chunks, ?_, hvalue⟩
    rw [readInChunks, run_bind_ok (readStartIndefiniteLengthString_ok (by
      rcases htype with rfl | rfl <;> decide) hbytes haccepts), run_bind_ok hread,
      run_bind_ok hatBreak.readEndIndefiniteLengthString, hleave]
    change EStateM.Result.ok chunks ((reader.enter 1 type none).leave (bytes - 1)
      reader.currentFrame reader.nestedItems) = .ok chunks (reader.pass 1 bytes)
    rw [hleaves (by omega)]
  · rintro ⟨chunks, h, rfl⟩
    obtain ⟨_, entered, hstart, h⟩ := run_bind_eq_ok h
    obtain ⟨hopens, rfl⟩ := readStartIndefiniteLengthString_eq_ok htype hstart
    obtain ⟨chunks', last, hread, h⟩ := run_bind_eq_ok h
    obtain ⟨_, left, hend, hpure⟩ := run_bind_eq_ok h
    cases hpure
    obtain ⟨stop, hconcat⟩ : ∃ stop, concatenateChunks type reader.getRemainingBytes
        (reader.getRemainingBytes.length + 1) 1 [] = .ok (chunks.flatten, stop) :=
      concatenateChunks_of_readWhileDefinite htoken hinside hfuel hread hend
    obtain ⟨-, ⟨tail, hbytes⟩, haccepts⟩ := hopens
    have hpeek : peekString type reader = .ok (chunks.flatten, stop) := by
      rw [peekString, bind_of_ok (peek_indefinite type hbytes haccepts).1, if_pos hinfo]
      exact hconcat
    obtain ⟨chunks', last', rest, hread', hatBreak, hleave, -, hstop, hfits⟩ :=
      readWhileDefinite_of_concatenateChunks htoken hinside (Nat.lt_succ_of_lt hrounds) hconcat
    rw [hread] at hread'
    cases hread'
    rw [hatBreak.readEndIndefiniteLengthString] at hend
    cases hend
    rw [hleave, hleaves (by omega)]
    exact readItem_ok hpeek (by omega) hfits

variable {α β : Type}

theorem readWhileDefinite_map (f : α → β) (read : ReadM α) (rounds : ℕ) :
    readWhileDefinite definite (f <$> read) rounds =
      List.map f <$> readWhileDefinite definite read rounds := by
  induction rounds with
  | zero => rfl
  | succ rounds ih =>
    rw [readWhileDefinite, readWhileDefinite, ih, map_bind]
    refine congrArg _ (funext fun state => ?_)
    split
    · simp only [bind_map_left, map_bind, map_pure, List.map_cons]
    · rfl

theorem readTextStringChunks_eq (rounds : ℕ) :
    readTextStringChunks rounds = List.map utf8Decode <$> readTextChunkBytes rounds := by
  have hread : readDefiniteLengthTextString = utf8Decode <$> readItem (peekDefiniteString
      .utf8String "Expected definite length string and got indefinite length") := rfl
  unfold readTextStringChunks readTextChunkBytes readInChunks
  simp only [hread, readWhileDefinite_map, bind_map_left, map_bind, map_pure]

theorem map_eq_ok {action : ReadM α} {f : α → β} {result : β} :
    (f <$> action) reader = .ok result reader' ↔
      ∃ a, action reader = .ok a reader' ∧ result = f a := by
  rw [map_eq_pure_bind]
  constructor
  · intro h
    obtain ⟨a, middle, haction, hpure⟩ := run_bind_eq_ok h
    cases hpure
    exact ⟨a, haction, rfl⟩
  · rintro ⟨a, haction, rfl⟩
    exact run_bind_ok haction

/-- A concatenating read of an indefinite-length string succeeds exactly if its chunks are
read one by one, ends in the same state and finds what they are together. -/
theorem concatenating_reads_agree (reader reader' : CborReader) {rounds : ℕ}
    (hrounds : reader.getRemainingBytes.length < rounds) :
    (StartsIndefinite .byteString reader → ∀ value,
      readByteString reader = .ok value reader' ↔
        ∃ chunks, readByteStringChunks rounds reader = .ok chunks reader' ∧
          value = chunks.flatten) ∧
    (StartsIndefinite .utf8String reader → ∀ text,
      readTextString reader = .ok text reader' ↔
        ∃ chunks, readTextChunkBytes rounds reader = .ok chunks reader' ∧
          text = utf8Decode chunks.flatten) ∧
    readTextStringChunks rounds = List.map utf8Decode <$> readTextChunkBytes rounds := by
  refine ⟨fun hstarts value => readString_iff_chunks .byteString hstarts hrounds,
    fun hstarts text => ?_, readTextStringChunks_eq rounds⟩
  change (utf8Decode <$> readItem (peekString .utf8String)) reader = _ ↔ _
  rw [map_eq_ok]
  constructor
  · rintro ⟨value, hread, rfl⟩
    obtain ⟨chunks, hchunks, rfl⟩ := (readString_iff_chunks .textString hstarts hrounds).mp hread
    exact ⟨chunks, hchunks, rfl⟩
  · rintro ⟨chunks, hchunks, rfl⟩
    exact ⟨_, (readString_iff_chunks .textString hstarts hrounds).mpr ⟨chunks, hchunks, rfl⟩, rfl⟩

def chunkedReader : CborReader :=
  CborReader.new ⟨[0x5f, 0x41, 1, 0x42, 2, 3, 0xff], by decide⟩

theorem concatenating_reads_agree_chunked : StartsIndefinite .byteString chunkedReader ∧
    ∃ chunks reader', readByteStringChunks 8 chunkedReader = .ok chunks reader' ∧
      [1, 2, 3] = chunks.flatten := by
  have hstarts : StartsIndefinite .byteString chunkedReader := rfl
  have hread : readByteString chunkedReader = .ok [1, 2, 3] (chunkedReader.pass 1 7) := rfl
  obtain ⟨chunks, hchunks, hvalue⟩ :=
    ((@concatenating_reads_agree chunkedReader (chunkedReader.pass 1 7) 8 (by decide)).1 hstarts
      [1, 2, 3]).mp hread
  exact ⟨hstarts, chunks, _, hchunks, hvalue⟩

end CardanoSdk.Cbor
