import Mathlib.Data.Nat.Digits.Defs
import CardanoSdk.Serialization.TransactionMetadatum

/-!
Integers in Plutus data and in transaction metadata. Both decoders negate the number under
the tag of negative big integers without counting from minus one.
-/

namespace CardanoSdk.Serialization

open Lib Cbor Plutus Cardano

def magnitudeBytes (value : ℕ) : List UInt8 := (Nat.digits 256 value).reverse.map UInt8.ofNat

/-- The canonical bytes of an integer: a head if it is a word or the negation of
one, and else the bytes of its magnitude, counted from minus one if it is
negative, as a string of the given form under a tag. -/
inductive CanonicalInteger (form : List UInt8 → List UInt8 → Prop) : ℤ → List UInt8 → Prop
  | unsigned {value : ℕ} (h : value < 2 ^ 64) :
      CanonicalInteger form value (encodeHead .unsignedInteger value)
  | negative {value : ℕ} (h : value < 2 ^ 64) :
      CanonicalInteger form (-1 - value) (encodeHead .negativeInteger value)
  | unsignedBig {value : ℕ} {string : List UInt8} (h : 2 ^ 64 ≤ value)
      (hstring : form (magnitudeBytes value) string) :
      CanonicalInteger form value (encodeHead .tag 2 ++ string)
  | negativeBig {value : ℕ} {string : List UInt8} (h : 2 ^ 64 ≤ value)
      (hstring : form (magnitudeBytes value) string) :
      CanonicalInteger form (-1 - value) (encodeHead .tag 3 ++ string)

inductive DefiniteString (value : List UInt8) : List UInt8 → Prop
  | mk : DefiniteString value (encodeChunk value)

/-- A byte string that is split if it is longer than 64 bytes, in chunks that are not. -/
inductive ChunkedString (value : List UInt8) : List UInt8 → Prop
  | whole (h : value.length ≤ 64) : ChunkedString value (encodeChunk value)
  | split {chunks : List (List UInt8)} (h : 64 < value.length) (hflatten : chunks.flatten = value)
      (hchunks : ∀ chunk ∈ chunks, chunk.length ≤ 64) :
      ChunkedString value (initialByte 2 31 :: (chunks.flatMap encodeChunk ++ [breakByte]))

theorem toBytesBE_eq_digits {width value : ℕ} (hlower : 256 ^ width ≤ value)
    (hupper : value < 256 ^ (width + 1)) :
    toBytesBE (width + 1) value = magnitudeBytes value := by
  induction width generalizing value with
  | zero =>
    have hdigits : Nat.digits 256 value = [value] := Nat.digits_of_lt 256 value (by omega) (by omega)
    rw [magnitudeBytes, hdigits]
    rfl
  | succ width ih =>
    have hpos : 0 < value := lt_of_lt_of_le (by positivity) hlower
    have hlower' : 256 ^ width ≤ value / 256 := by
      rw [Nat.le_div_iff_mul_le (by norm_num), ← pow_succ]
      exact hlower
    have hupper' : value / 256 < 256 ^ (width + 1) := by
      rw [Nat.div_lt_iff_lt_mul (by norm_num), ← pow_succ]
      exact hupper
    have hbyte : UInt8.ofNat value = UInt8.ofNat (value % 256) := by
      apply UInt8.toNat_inj.mp
      rw [UInt8.toNat_ofNat', UInt8.toNat_ofNat']
      omega
    rw [toBytesBE, ih hlower' hupper', magnitudeBytes, magnitudeBytes,
      Nat.digits_def' (by norm_num) hpos, List.reverse_cons, List.map_append, List.map_singleton,
      hbyte]

theorem bigintBytes_eq {value : ℕ} (h : 0 < value) : bigintBytes value = magnitudeBytes value := by
  have hwidth : (Nat.log 16 value + 2) / 2 = Nat.log 16 value / 2 + 1 := by omega
  have hsquare (n : ℕ) : 256 ^ n = 16 ^ (2 * n) := by
    rw [pow_mul]
    norm_num
  rw [bigintBytes, hwidth]
  apply toBytesBE_eq_digits
  · calc 256 ^ (Nat.log 16 value / 2) = 16 ^ (2 * (Nat.log 16 value / 2)) := hsquare _
      _ ≤ 16 ^ Nat.log 16 value := Nat.pow_le_pow_right (by norm_num) (by omega)
      _ ≤ value := Nat.pow_log_le_self 16 (by omega)
  · calc value < 16 ^ (Nat.log 16 value + 1) := Nat.lt_pow_succ_log_self (by norm_num) value
      _ ≤ 16 ^ (2 * (Nat.log 16 value / 2 + 1)) := Nat.pow_le_pow_right (by norm_num) (by omega)
      _ = 256 ^ (Nat.log 16 value / 2 + 1) := (hsquare _).symm

theorem chunkedString_boundedBytes (bytes : List UInt8) :
    ChunkedString bytes (boundedBytes bytes) := by
  unfold boundedBytes maxByteStringChunkSize
  split
  · exact ChunkedString.whole ‹_›
  · exact ChunkedString.split (by omega) (byteChunks_flatten bytes)
      (fun _ => length_le_of_mem_byteChunks)

def metadatumIntegerBytes (value : ℤ) : List UInt8 :=
  if (value ≥ 0 ∧ value ≤ maxWord64) ∨ (value < 0 ∧ value ≥ -1 - maxWord64) then encodeInt value
  else encodeHead .tag (if value < 0 then negativeBigNumTag else unsignedBigNumTag) ++
    encodeChunk (bigintToBuffer value)

/-- Both encoders write an integer in its canonical bytes, with strings of the one form or of
the other. -/
theorem canonicalInteger_of {form : List UInt8 → List UInt8 → Prop} (value : ℤ)
    {string : List UInt8} (hstring : form (bigintToBuffer value) string) :
    CanonicalInteger form value
      (if (value ≥ 0 ∧ value ≤ maxWord64) ∨ (value < 0 ∧ value ≥ -1 - maxWord64) then encodeInt value
        else encodeHead .tag (if value < 0 then negativeBigNumTag else unsignedBigNumTag) ++
          string) := by
  unfold bigintToBuffer at hstring
  unfold maxWord64 encodeInt
  by_cases hnegative : value < 0
  · obtain ⟨magnitude, rfl⟩ : ∃ magnitude : ℕ, value = -1 - magnitude :=
      ⟨(-1 - value).toNat, by omega⟩
    have hargument : (-((-1 : ℤ) - magnitude + 1)).toNat = magnitude := by omega
    have hbuffer : (-((-1 : ℤ) - magnitude) - 1).toNat = magnitude := by omega
    rw [if_pos hnegative, hbuffer] at hstring
    rw [if_pos hnegative, if_pos hnegative, hargument]
    split
    · exact CanonicalInteger.negative (by omega)
    · rw [bigintBytes_eq (by omega)] at hstring
      exact CanonicalInteger.negativeBig (by omega) hstring
  · obtain ⟨magnitude, rfl⟩ : ∃ magnitude : ℕ, value = magnitude := ⟨value.toNat, by omega⟩
    rw [if_neg hnegative, Int.toNat_natCast] at hstring
    rw [if_neg hnegative, if_neg hnegative, Int.toNat_natCast]
    split
    · exact CanonicalInteger.unsigned (by omega)
    · rw [bigintBytes_eq (by omega)] at hstring
      exact CanonicalInteger.unsignedBig (by omega) hstring

variable {value : ℤ}

theorem writes_metadatumInteger (hlength : (bigintToBuffer value).length < 2 ^ 64) :
    Writes (writeMetadatumInteger value) (metadatumIntegerBytes value) := by
  unfold writeMetadatumInteger metadatumIntegerBytes
  split
  · rename_i hword
    unfold maxWord64 at hword
    exact writes_int (by omega) (by omega)
  · have hmagnitude : bigintBytes (if value < 0 then (-value - 1).toNat else value.toNat) =
        bigintToBuffer value := by
      unfold bigintToBuffer
      split <;> rfl
    unfold writeBigInteger
    dsimp only
    rw [hmagnitude]
    refine Writes.bind (writes_typeValue .tag ?_) ?_
    · split <;> decide
    · exact (writes_typeValue .byteString hlength).bind (writes_encodedValue _)

theorem metadatumWithin_bigInteger (fuel : ℕ)
    (hbig : ¬((value ≥ 0 ∧ value ≤ maxWord64) ∨ (value < 0 ∧ value ≥ -1 - maxWord64)))
    (hlength : (metadatumIntegerBytes value).length < 2 ^ 53) :
    metadatumWithin (fuel + 1) (metadatumIntegerBytes value) =
      .ok (.integer (some (metadatumIntegerBytes value)) (rereadInteger value)) := by
  have heq : metadatumIntegerBytes value =
      encodeHead .tag (if value < 0 then negativeBigNumTag else unsignedBigNumTag) ++
        encodeChunk (bigintToBuffer value) := if_neg hbig
  have hvalue := bufferToBigint_bigintToBuffer hbig
  unfold maxWord64 at hbig
  rw [heq] at hlength ⊢
  have hshort : (bigintToBuffer value).length < 2 ^ 64 := by
    rw [List.length_append, encodeChunk, List.length_append] at hlength
    omega
  have htag : (if value < 0 then negativeBigNumTag else unsignedBigNumTag) < 2 ^ 53 := by
    split <;> decide
  refine decodeWith_peek (begins_encodeHead (by decide) (by omega) _) hlength ?_
  intro reader hbytes haccepts
  rw [List.append_assoc] at hbytes
  obtain ⟨_, hpeekTag, hreadTag, hrest⟩ := readTag_encodeHead htag hbytes haccepts
  have hread := readsItem_byteString hshort _ _ hrest haccepts
  apply Succeeds.read hpeekTag
  by_cases hnegative : value < 0
  · rw [if_pos hnegative, if_neg (by decide), if_pos rfl]
    rw [if_pos hnegative] at hreadTag hread hvalue
    apply Succeeds.read hreadTag
    apply Succeeds.bind hread
    rw [hvalue]
    exact Succeeds.pure
  · rw [if_neg hnegative, if_pos rfl]
    rw [if_neg hnegative] at hreadTag hread hvalue
    apply Succeeds.read hreadTag
    apply Succeeds.bind hread
    rw [← hvalue, mul_one]
    exact Succeeds.pure

theorem metadatumWithin_integer (value : ℤ) (fuel : ℕ)
    (hlength : (metadatumIntegerBytes value).length < 2 ^ 53) :
    metadatumWithin (fuel + 1) (metadatumIntegerBytes value) =
      .ok (.integer (some (metadatumIntegerBytes value)) (rereadInteger value)) := by
  by_cases hword : (value ≥ 0 ∧ value ≤ maxWord64) ∨ (value < 0 ∧ value ≥ -1 - maxWord64)
  · have heq : metadatumIntegerBytes value = encodeInt value := if_pos hword
    unfold maxWord64 at hword
    have hlower : -(2 ^ 64) ≤ value := by omega
    have hread := readsItem_int hlower (show value < 2 ^ 64 by omega)
    rw [heq] at hlength ⊢
    rw [rereadInteger, if_neg (by omega)]
    have hbegins : Begins (encodeInt value) (CborTree.integer value).token :=
      fun reader rest hbytes haccepts =>
        (readInt_encodeInt hlower (by omega) hbytes haccepts).1
    refine decodeWith_peek hbegins hlength ?_
    intro reader hbytes haccepts
    rw [CborTree.token]
    split
    · exact Succeeds.bind (hread reader [] hbytes haccepts) Succeeds.pure
    · exact Succeeds.bind (hread reader [] hbytes haccepts) Succeeds.pure
  · exact metadatumWithin_bigInteger fuel hword hlength

/-- The integer is encoded in its canonical bytes and comes back from them, as
Plutus data and as a metadatum. -/
structure IntegerSurvives (value : ℤ) : Prop where
  plutus : ∃ cbor data, (PlutusData.newInteger value).toCbor = .ok cbor ∧
    CanonicalInteger ChunkedString value cbor ∧ PlutusData.fromCbor cbor = .ok data ∧
    data.asInteger = some value
  metadatum : ∃ cbor data, (TransactionMetadatum.newInteger value).toCbor = .ok cbor ∧
    CanonicalInteger DefiniteString value cbor ∧ TransactionMetadatum.fromCbor cbor = .ok data ∧
    data.asInteger = some value

structure FitsInteger (value : ℤ) : Prop where
  plutus : ∀ cbor, (PlutusData.newInteger value).toCbor = .ok cbor → cbor.length < 2 ^ 53
  metadatum : ∀ cbor, (TransactionMetadatum.newInteger value).toCbor = .ok cbor →
    cbor.length < 2 ^ 53

theorem length_le_boundedBytes (bytes : List UInt8) : bytes.length ≤ (boundedBytes bytes).length := by
  have hchunks (chunks : List (List UInt8)) :
      chunks.flatten.length ≤ (chunks.flatMap encodeChunk).length := by
    induction chunks with
    | nil => exact Nat.le_refl _
    | cons chunk chunks ih =>
      rw [List.flatten_cons, List.flatMap_cons, List.length_append, List.length_append, encodeChunk,
        List.length_append]
      omega
  unfold boundedBytes
  split
  · rw [encodeChunk, List.length_append]
    omega
  · have hle := hchunks (byteChunks bytes)
    rw [byteChunks_flatten] at hle
    rw [List.length_cons, List.length_append]
    omega

theorem toCbor_newInteger (value : ℤ) :
    (PlutusData.newInteger value).toCbor = .ok (integerBytes value) := by
  rw [PlutusData.newInteger, PlutusData.toCbor]
  exact encodeWith_ok (writes_plutusInteger value)

theorem toCbor_newInteger_metadatum (hlength : (bigintToBuffer value).length < 2 ^ 64) :
    (TransactionMetadatum.newInteger value).toCbor = .ok (metadatumIntegerBytes value) := by
  rw [TransactionMetadatum.newInteger, TransactionMetadatum.toCbor]
  exact encodeAsHex_ok (encodes_writing (writes_metadatumInteger hlength))

theorem bigintToBuffer_lt (hfits : FitsInteger value) : (bigintToBuffer value).length < 2 ^ 64 := by
  have hlength := hfits.plutus _ (toCbor_newInteger value)
  unfold integerBytes at hlength
  split at hlength
  · rename_i hword
    unfold maxWord64 at hword
    unfold bigintToBuffer bigintBytes
    rw [length_toBytesBE]
    have hlog : Nat.log 16 (if value < 0 then -value - 1 else value).toNat ≤ Nat.log 16 (2 ^ 64) := by
      apply Nat.log_mono_right
      split <;> omega
    have hbound : Nat.log 16 (2 ^ 64) = 16 := by norm_num
    omega
  · have hle := length_le_boundedBytes (bigintToBuffer value)
    rw [List.length_append] at hlength
    omega

/-- An integer survives exactly if it is not below the negative words. -/
theorem integerSurvives_iff {value : ℤ} (hfits : FitsInteger value) :
    IntegerSurvives value ↔ -(2 ^ 64) ≤ value := by
  have hshort := bigintToBuffer_lt hfits
  have hplutus := toCbor_newInteger value
  have hmetadatum := toCbor_newInteger_metadatum hshort
  have hread : PlutusData.fromCbor (integerBytes value) =
      .ok (.integer (some (integerBytes value)) (rereadInteger value)) :=
    fromCborWithin_integer value _ (hfits.plutus _ hplutus)
  have hread' : TransactionMetadatum.fromCbor (metadatumIntegerBytes value) =
      .ok (.integer (some (metadatumIntegerBytes value)) (rereadInteger value)) :=
    metadatumWithin_integer value _ (hfits.metadatum _ hmetadatum)
  constructor
  · intro h
    obtain ⟨cbor, data, hcbor, _, hdata, hvalue⟩ := h.plutus
    have hsame := hplutus.symm.trans hcbor
    cases hsame
    have hsameData := hread.symm.trans hdata
    cases hsameData
    have hreread : rereadInteger value = value := Option.some.inj hvalue
    unfold rereadInteger at hreread
    split at hreread <;> omega
  · intro hlower
    have hreread : rereadInteger value = value := if_neg (by omega)
    rw [hreread] at hread hread'
    exact {
      plutus := ⟨_, _, hplutus, canonicalInteger_of value (chunkedString_boundedBytes _), hread, rfl⟩
      metadatum := ⟨_, _, hmetadatum, canonicalInteger_of value DefiniteString.mk, hread', rfl⟩ }

theorem fitsInteger_word : FitsInteger (2 ^ 64 - 1) where
  plutus := by
    rintro cbor hcbor
    rw [toCbor_newInteger] at hcbor
    cases hcbor
    decide
  metadatum := by
    rintro cbor hcbor
    rw [toCbor_newInteger_metadatum (by decide)] at hcbor
    cases hcbor
    decide

theorem integerSurvives_word : IntegerSurvives (2 ^ 64 - 1) :=
  (integerSurvives_iff fitsInteger_word).mpr (by norm_num)

/-- The first integer below the negative words comes back as the last one of them. -/
theorem not_integerSurvives_below_words : ¬ IntegerSurvives (-(2 ^ 64) - 1) := by
  intro h
  obtain ⟨cbor, data, hcbor, _, hdata, hvalue⟩ := h.plutus
  rw [toCbor_newInteger] at hcbor
  cases hcbor
  have hread := fromCborWithin_integer (-(2 ^ 64) - 1) (integerBytes (-(2 ^ 64) - 1)).length
    (by decide)
  have hsame := hread.symm.trans hdata
  cases hsame
  exact absurd hvalue (by decide)

end CardanoSdk.Serialization
