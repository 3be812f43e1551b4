import CardanoSdk.Cbor.ByteStrings
import CardanoSdk.Cbor.RoundTrip
import CardanoSdk.Plutus.DecoderRules

/-!
The leaves of Plutus data survive encoding: byte strings in chunks and big integers.
-/

namespace CardanoSdk.Plutus

open Lib Cbor

variable {reader : CborReader}

/-! ### Byte strings in chunks -/

theorem range_chunks (bytes : List UInt8) (size count : ℕ) :
    ((List.range count).map fun i => (bytes.drop (i * size)).take size).flatten =
      bytes.take (count * size) := by
  induction count with
  | zero => simp
  | succ count ih =>
    rw [List.range_succ, List.map_append, List.flatten_append, ih, Nat.succ_mul, List.take_add]
    simp

theorem byteChunks_flatten (bytes : List UInt8) : (byteChunks bytes).flatten = bytes := by
  unfold byteChunks
  rw [range_chunks]
  apply List.take_of_length_le
  unfold maxByteStringChunkSize
  omega

variable {bytes rest chunk : List UInt8} {chunks : List (List UInt8)}

theorem length_le_of_mem_byteChunks (h : chunk ∈ byteChunks bytes) :
    chunk.length ≤ maxByteStringChunkSize := by
  obtain ⟨i, _, rfl⟩ := List.mem_map.mp h
  rw [List.length_take]
  exact Nat.min_le_left _ _

def encodeChunk (chunk : List UInt8) : List UInt8 :=
  encodeHead .byteString chunk.length ++ chunk

theorem stringItem_encodeChunk (h : chunk.length < 2 ^ 64) : StringItem 2 (encodeChunk chunk) :=
  StringItem.mk (head_encodeHead .byteString h) rfl

theorem writes_chunks (h : ∀ chunk ∈ chunks, chunk.length < 2 ^ 64) :
    Writes (writeChunks chunks) (chunks.flatMap encodeChunk) := by
  induction chunks with
  | nil => exact Writes.pure
  | cons chunk chunks ih =>
    rw [List.forall_mem_cons] at h
    rw [writeChunks, List.flatMap_cons]
    exact (writes_byteString h.1).bind (ih h.2)

theorem byteChunks_encodeChunk (h : ∀ chunk ∈ chunks, chunk.length < 2 ^ 64) :
    ByteChunks AnyLength (chunks.flatMap encodeChunk) chunks.flatten := by
  induction chunks with
  | nil => exact ByteChunks.nil
  | cons chunk chunks ih =>
    rw [List.forall_mem_cons] at h
    rw [List.flatMap_cons, List.flatten_cons]
    exact ByteChunks.cons (head_encodeHead .byteString h.1) trivial (ih h.2)

def boundedBytes (bytes : List UInt8) : List UInt8 :=
  if bytes.length ≤ maxByteStringChunkSize then encodeChunk bytes
  else initialByte 2 31 :: ((byteChunks bytes).flatMap encodeChunk ++ [breakByte])

theorem byteChunks_short : ∀ chunk ∈ byteChunks bytes, chunk.length < 2 ^ 64 := by
  intro chunk hchunk
  have hle := length_le_of_mem_byteChunks hchunk
  unfold maxByteStringChunkSize at hle
  omega

theorem writes_boundedBytes (bytes : List UInt8) :
    Writes (writeBoundedBytes bytes) (boundedBytes bytes) := by
  unfold writeBoundedBytes boundedBytes
  split
  · rename_i hshort
    unfold maxByteStringChunkSize at hshort
    exact writes_byteString (by omega)
  · exact (writes_encodedValue indefiniteByteString).bind
      ((writes_chunks byteChunks_short).bind writes_break)

theorem byteString_boundedBytes (bytes : List UInt8) :
    ByteString AnyLength (boundedBytes bytes) bytes := by
  unfold boundedBytes
  split
  · rename_i hshort
    unfold maxByteStringChunkSize at hshort
    exact ByteString.whole (head_encodeHead .byteString (by omega)) trivial
  · have hchunks := byteChunks_encodeChunk (@byteChunks_short bytes)
    rw [byteChunks_flatten] at hchunks
    exact ByteString.chunked hchunks

theorem dataItem_boundedBytes (bytes : List UInt8) : DataItem (boundedBytes bytes) :=
  (byteString_boundedBytes bytes).dataItem

theorem readByteString_boundedBytes
    (hbytes : reader.getRemainingBytes = boundedBytes bytes ++ rest)
    (haccepts : ∀ first, reader.currentFrame.Accepts first) :
    readByteString reader = .ok bytes (reader.pass 1 (boundedBytes bytes).length) :=
  readByteString_ok (byteString_boundedBytes bytes) hbytes fun first _ => haccepts first

theorem peekStateCore_boundedBytes
    (hbytes : reader.getRemainingBytes = boundedBytes bytes ++ rest)
    (haccepts : ∀ first, reader.currentFrame.Accepts first) :
    peekStateCore reader = .ok .byteString ∨
      peekStateCore reader = .ok .startIndefiniteLengthByteString := by
  unfold boundedBytes at hbytes
  split at hbytes
  · rename_i hshort
    unfold maxByteStringChunkSize at hshort
    left
    rw [encodeChunk, List.append_assoc] at hbytes
    obtain ⟨first, hmajor, hinfo, hpeek⟩ := peekStateCore_head .byteString
      (head_encodeHead .byteString (by omega)) hbytes haccepts
    rw [hpeek, peekItem, hmajor]
    simp only [if_neg hinfo]
  · right
    exact (@opens_indefinite reader .byteString _ (by simp) hbytes (haccepts _)).1

/-! ### Big integers -/

theorem ofBytesBE_bigintBytes (value : ℕ) : ofBytesBE (bigintBytes value) = value := by
  apply ofBytesBE_toBytesBE
  calc value < 16 ^ (Nat.log 16 value + 1) := Nat.lt_pow_succ_log_self (by decide) value
    _ ≤ 16 ^ (2 * ((Nat.log 16 value + 2) / 2)) := Nat.pow_le_pow_right (by decide) (by omega)
    _ = 256 ^ ((Nat.log 16 value + 2) / 2) := by
        rw [pow_mul]
        norm_num

def integerBytes (value : ℤ) : List UInt8 :=
  if (value ≥ 0 ∧ value ≤ maxWord64) ∨ (value < 0 ∧ value ≥ -1 - maxWord64) then encodeInt value
  else encodeHead .tag (if value < 0 then negativeBigNumTag else unsignedBigNumTag) ++
    boundedBytes (bigintToBuffer value)

theorem writes_plutusInteger (value : ℤ) :
    Writes (writePlutusInteger value) (integerBytes value) := by
  unfold writePlutusInteger integerBytes
  split
  · rename_i hword
    unfold maxWord64 at hword
    exact writes_int (by omega) (by omega)
  · apply Writes.bind _ (writes_boundedBytes _)
    apply writes_typeValue
    split <;> decide

theorem dataItem_encodeInt {value : ℤ} (hlower : -(2 ^ 64) ≤ value) (hupper : value < 2 ^ 64) :
    DataItem (encodeInt value) :=
  (integerHead_encodeInt hlower hupper).dataItem

theorem dataItem_integerBytes (value : ℤ) : DataItem (integerBytes value) := by
  unfold integerBytes
  split
  · rename_i hword
    unfold maxWord64 at hword
    exact dataItem_encodeInt (by omega) (by omega)
  · apply DataItem.tag (head_encodeHead .tag _) (dataItem_boundedBytes _)
    split <;> decide

/-! ### Decoding the leaves -/

theorem fromCborWithin_bytes (fuel : ℕ) (hlength : (boundedBytes bytes).length < 2 ^ 53) :
    fromCborWithin (fuel + 1) (boundedBytes bytes) =
      .ok (.bytes (some (boundedBytes bytes)) bytes) := by
  apply decodeWith_ok hlength
  intro reader hfresh
  rcases peekStateCore_boundedBytes hfresh.bytes hfresh.accepts with hpeek | hpeek
  · have hread := @readByteString_boundedBytes (reader.cached .byteString) _ _ hfresh.bytes
      hfresh.accepts
    apply Succeeds.read (peekState_ok hpeek (Or.inl hfresh.cachedState))
    exact Succeeds.read hread Succeeds.pure
  · have hread := @readByteString_boundedBytes (reader.cached .startIndefiniteLengthByteString) _ _
      hfresh.bytes hfresh.accepts
    apply Succeeds.read (peekState_ok hpeek (Or.inl hfresh.cachedState))
    exact Succeeds.read hread Succeeds.pure

theorem readTag_encodeHead {tag : ℕ} {rest : List UInt8} (htag : tag < 2 ^ 53)
    (hbytes : reader.getRemainingBytes = encodeHead .tag tag ++ rest)
    (haccepts : ∀ first, reader.currentFrame.Accepts first) :
    peekStateCore reader = .ok .tag ∧ peekTag reader = .ok tag reader ∧
      readTag reader = .ok tag (reader.tagged (encodeHead .tag tag).length) ∧
      (reader.tagged (encodeHead .tag tag).length).getRemainingBytes = rest := by
  have hhead := head_encodeHead .tag (show tag < 2 ^ 64 by omega)
  obtain ⟨first, hmajor, _, hpeek⟩ := peekStateCore_head .tag hhead hbytes haccepts
  rw [peekItem, hmajor] at hpeek
  have hcore := peekTagCore_ok hhead hbytes (fun first _ => haccepts first)
  have hread := readTag_ok hhead hbytes (fun first _ => haccepts first)
  rw [roundToDouble_of_lt htag] at hcore hread
  refine ⟨hpeek, run_bind_ok (peeking_ok hcore), hread, ?_⟩
  rw [CborReader.getRemainingBytes_tagged, hbytes, List.drop_left]

/-- The integer that is decoded: the one that was encoded, except below the
negative words, where the decoder of a big integer does not count from minus
one. -/
def rereadInteger (value : ℤ) : ℤ :=
  if value < -(2 ^ 64) then value + 1 else value

theorem bufferToBigint_bigintToBuffer {value : ℤ}
    (hbig : ¬((value ≥ 0 ∧ value ≤ maxWord64) ∨ (value < 0 ∧ value ≥ -1 - maxWord64))) :
    bufferToBigint (bigintToBuffer value) * (if value < 0 then -1 else 1) =
      rereadInteger value := by
  unfold maxWord64 at hbig
  rw [bufferToBigint, bigintToBuffer, ofBytesBE_bigintBytes, rereadInteger]
  by_cases hnegative : value < 0
  · rw [if_pos hnegative, if_pos hnegative, if_pos (by omega)]
    omega
  · rw [if_neg hnegative, if_neg hnegative, if_neg (by omega)]
    omega

theorem fromCborWithin_bigInteger {value : ℤ} (fuel : ℕ)
    (hbig : ¬((value ≥ 0 ∧ value ≤ maxWord64) ∨ (value < 0 ∧ value ≥ -1 - maxWord64)))
    (hlength : (integerBytes value).length < 2 ^ 53) :
    fromCborWithin (fuel + 1) (integerBytes value) =
      .ok (.integer (some (integerBytes value)) (rereadInteger value)) := by
  have heq : integerBytes value =
      encodeHead .tag (if value < 0 then negativeBigNumTag else unsignedBigNumTag) ++
        boundedBytes (bigintToBuffer value) := if_neg hbig
  have hvalue := bufferToBigint_bigintToBuffer hbig
  unfold maxWord64 at hbig
  rw [heq] at hlength ⊢
  apply decodeWith_ok hlength
  intro reader hfresh
  have hbytes := hfresh.bytes
  rw [List.append_assoc] at hbytes
  have htag : (if value < 0 then negativeBigNumTag else unsignedBigNumTag) < 2 ^ 53 := by
    split <;> decide
  obtain ⟨hpeek, _⟩ := readTag_encodeHead htag hbytes hfresh.accepts
  obtain ⟨_, hpeekTag, hreadTag, hrest⟩ :=
    @readTag_encodeHead (reader.cached .tag) _ _ htag hbytes hfresh.accepts
  have hread := readByteString_boundedBytes hrest hfresh.accepts
  apply Succeeds.read (peekState_ok hpeek (Or.inl hfresh.cachedState))
  apply Succeeds.read hpeekTag
  by_cases hnegative : value < 0
  · rw [if_pos hnegative, if_neg (by decide), if_pos rfl]
    rw [if_pos hnegative] at hreadTag hread hvalue
    apply Succeeds.read hreadTag
    apply Succeeds.read hread
    rw [hvalue]
    exact Succeeds.pure
  · rw [if_neg hnegative, if_pos rfl]
    rw [if_neg hnegative] at hreadTag hread hvalue
    apply Succeeds.read hreadTag
    apply Succeeds.read hread
    rw [← hvalue, mul_one]
    exact Succeeds.pure

theorem fromCborWithin_integer (value : ℤ) (fuel : ℕ)
    (hlength : (integerBytes value).length < 2 ^ 53) :
    fromCborWithin (fuel + 1) (integerBytes value) =
      .ok (.integer (some (integerBytes value)) (rereadInteger value)) := by
  by_cases hword : (value ≥ 0 ∧ value ≤ maxWord64) ∨ (value < 0 ∧ value ≥ -1 - maxWord64)
  · have heq : integerBytes value = encodeInt value := if_pos hword
    unfold maxWord64 at hword
    have hlower : -(2 ^ 64) ≤ value := by omega
    rw [heq] at hlength ⊢
    rw [rereadInteger, if_neg (by omega)]
    apply decodeWith_ok hlength
    intro reader hfresh
    obtain ⟨hpeek, _⟩ := readInt_encodeInt hlower (by omega) hfresh.bytes hfresh.accepts
    obtain ⟨_, hread⟩ := @readInt_encodeInt (reader.cached (CborTree.integer value).token) value []
      hlower (by omega) hfresh.bytes hfresh.accepts
    have htoken : (CborTree.integer value).token = .negativeInteger ∨
        (CborTree.integer value).token = .unsignedInteger := by
      rw [CborTree.token]
      split
      · exact Or.inl rfl
      · exact Or.inr rfl
    rcases htoken with htoken | htoken
    · rw [htoken] at hpeek hread
      apply Succeeds.read (peekState_ok hpeek (Or.inl hfresh.cachedState))
      exact Succeeds.read hread Succeeds.pure
    · rw [htoken] at hpeek hread
      apply Succeeds.read (peekState_ok hpeek (Or.inl hfresh.cachedState))
      exact Succeeds.read hread Succeeds.pure
  · exact fromCborWithin_bigInteger fuel hword hlength

/-! ### Parts of containers -/

theorem peekItem_ne_end (first : UInt8) :
    peekItem first ≠ .endArray ∧ peekItem first ≠ .endMap := by
  unfold peekItem mapSimpleValueDataToReaderState
  split
  all_goals repeat' split
  all_goals decide

theorem length_le_flatten {elements : List (List UInt8)} (h : ∀ item ∈ elements, DataItem item) :
    elements.length ≤ elements.flatten.length :=
  (items_of_wellFormed h).le_length

theorem writes_elements (elements : List (List UInt8)) :
    Writes (elements.forM writeEncodedValue) elements.flatten := by
  induction elements with
  | nil => exact Writes.pure
  | cons element elements ih =>
    rw [List.flatten_cons]
    exact (writes_encodedValue element).bind ih

def entriesBytes (entries : List (List UInt8 × List UInt8)) : List UInt8 :=
  entries.flatMap fun entry => entry.1 ++ entry.2

theorem items_entriesBytes {entries : List (List UInt8 × List UInt8)}
    (h : ∀ entry ∈ entries, DataItem entry.1 ∧ DataItem entry.2) :
    Items (2 * entries.length) (entriesBytes entries) := by
  induction entries with
  | nil => exact Items.nil
  | cons entry entries ih =>
    rw [List.forall_mem_cons] at h
    rw [entriesBytes, List.flatMap_cons, List.append_assoc]
    exact Items.cons h.1.1 (Items.cons h.1.2 (ih h.2))

end CardanoSdk.Plutus
