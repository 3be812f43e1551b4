import CardanoSdk.Cbor.RoundTrip
import Mathlib.Data.List.Shortlex

/-!
The heads that `writeInt` writes: exact, the shortest there are, and in the order of their
numbers.
-/

namespace CardanoSdk.Cbor

open Lib

variable {argument argument' : ℕ} {head head' : List UInt8} {value value' : ℤ}

theorem encodeHead_cases (type : CborMajorType) (h : argument < 2 ^ 64) :
    (argument < 24 ∧ encodeHead type argument = [initialByte type.toNat argument]) ∨
      ∃ info width, ArgumentWidth info width ∧ 24 ≤ argument ∧ 256 ^ (width / 2) ≤ argument ∧
        argument < 256 ^ width ∧
        encodeHead type argument = initialByte type.toNat info :: toBytesBE width argument := by
  unfold encodeHead
  split
  · exact Or.inl ⟨by assumption, rfl⟩
  · split
    · exact Or.inr ⟨24, 1, .one, by omega, by norm_num; omega, by omega, rfl⟩
    · split
      · exact Or.inr ⟨25, 2, .two, by omega, by norm_num; omega, by omega, rfl⟩
      · split
        · exact Or.inr ⟨26, 4, .four, by omega, by norm_num; omega, by omega, rfl⟩
        · exact Or.inr ⟨27, 8, .eight, by omega, by norm_num; omega, by omega, rfl⟩

/-- Any other head of the argument is longer than the one that is written. -/
theorem head_shortest {type : CborMajorType} (h : Head type.toNat argument head) :
    head = encodeHead type argument ∨ (encodeHead type argument).length < head.length := by
  have hcases := encodeHead_cases type h.argument_lt
  cases h with
  | short h =>
    rw [encodeHead, if_pos h]
    exact Or.inl rfl
  | @long info' width' payload hwidth' hlength =>
    have hlt := ofBytesBE_lt payload
    have hpayload := toBytesBE_ofBytesBE payload
    rw [hlength] at hlt hpayload
    rw [List.length_cons, hlength]
    rcases hcases with ⟨-, hhead⟩ | ⟨info, width, hwidth, -, hlower, -, hhead⟩
    · rw [hhead]
      exact Or.inr (Nat.succ_lt_succ hwidth'.bounds.2.2.1)
    · rw [hhead, List.length_cons, length_toBytesBE]
      have hle : width / 2 < width' :=
        (Nat.pow_lt_pow_iff_right (by norm_num)).mp (hlower.trans_lt hlt)
      by_cases heq : width = width'
      · subst heq
        rw [hwidth.info_unique hwidth', hpayload]
        exact Or.inl rfl
      · have hless : width < width' := by
          cases hwidth <;> cases hwidth' <;> omega
        exact Or.inr (Nat.succ_lt_succ hless)

/-- The head denotes the integer, and each other head that does is longer. -/
def IsShortestHead (head : List UInt8) (value : ℤ) : Prop :=
  IntegerHead head value ∧
    ∀ head', IntegerHead head' value → head' ≠ head → head.length < head'.length

theorem isShortestHead_encodeInt (hlower : -(2 ^ 64) ≤ value) (hupper : value < 2 ^ 64) :
    IsShortestHead (encodeInt value) value := by
  refine ⟨integerHead_encodeInt hlower hupper, fun head hhead hne => ?_⟩
  rw [encodeInt] at hne ⊢
  cases hhead with
  | @unsigned argument _ hhead =>
    rw [if_neg (by omega), Int.toNat_natCast] at hne ⊢
    exact (@head_shortest argument head .unsignedInteger hhead).resolve_left hne
  | @negative argument _ hhead =>
    have hargument : (-(-1 - (argument : ℤ) + 1)).toNat = argument := by omega
    rw [if_pos (by omega), hargument] at hne ⊢
    exact (@head_shortest argument head .negativeInteger hhead).resolve_left hne

theorem shortlex_encodeHead (type : CborMajorType) (h : argument < argument')
    (hfits : argument' < 2 ^ 64) :
    List.Shortlex (· < ·) (encodeHead type argument) (encodeHead type argument') := by
  have htype := type.toNat_lt
  rcases (length_encodeHead_mono type h.le).lt_or_eq with hlength | hlength
  · exact List.Shortlex.of_length_lt hlength
  · refine List.Shortlex.of_lex hlength ?_
    rcases encodeHead_cases type (h.trans hfits) with
      ⟨hshort, hhead⟩ | ⟨info, width, hwidth, -, -, -, hhead⟩
    · rcases encodeHead_cases type hfits with
        ⟨hshort', hhead'⟩ | ⟨info', width', hwidth', -, -, -, hhead'⟩
      · rw [hhead, hhead']
        refine List.Lex.rel ?_
        rw [UInt8.lt_iff_toNat_lt, initialByte_toNat htype (by omega),
          initialByte_toNat htype (by omega)]
        omega
      · rw [hhead, hhead', List.length_cons, List.length_cons, length_toBytesBE] at hlength
        exact absurd (Nat.succ.inj hlength).symm hwidth'.bounds.2.2.1.ne'
    · rcases encodeHead_cases type hfits with
        ⟨hshort', hhead'⟩ | ⟨info', width', hwidth', -, -, hwidest, hhead'⟩
      · rw [hhead, hhead', List.length_cons, List.length_cons, length_toBytesBE] at hlength
        exact absurd (Nat.succ.inj hlength) hwidth.bounds.2.2.1.ne'
      · rw [hhead, hhead', List.length_cons, List.length_cons, length_toBytesBE,
          length_toBytesBE] at hlength
        obtain rfl := Nat.succ.inj hlength
        rw [hhead, hhead', hwidth.info_unique hwidth']
        exact List.Lex.cons (lex_toBytesBE h hwidest)

/-- The initial byte is written before the upper word turns out too large. -/
theorem writeTypeValue_throws (type : CborMajorType) (h : 2 ^ 64 ≤ argument) (writer : CborWriter) :
    writeTypeValue type argument writer =
      .error .outOfRange (writer.append [initialByte type.toNat 27]) := by
  have hlarge : ¬ argument / shift32 < 256 ^ 4 := by
    unfold shift32
    omega
  unfold writeTypeValue
  rw [if_neg (by omega), if_neg (by omega), if_neg (by omega), if_neg (by omega),
    run_bind_ok (writes_initialByte type (by decide) writer)]
  exact run_bind_error (if_neg hlarge)

def leftBehind (value : ℤ) : List UInt8 := [initialByte (if value < 0 then 1 else 0) 27]

theorem writeInt_throws (hrange : ¬ (-(2 ^ 64) ≤ value ∧ value < 2 ^ 64)) (writer : CborWriter) :
    writeInt value writer = .error .outOfRange (writer.append (leftBehind value)) := by
  unfold writeInt leftBehind
  split
  · exact writeTypeValue_throws .negativeInteger (by omega) writer
  · exact writeTypeValue_throws .unsignedInteger (by omega) writer

theorem leftBehind_incomplete (h : IntegerHead head value') : ¬ head <+: leftBehind value := by
  rintro ⟨rest, hrest⟩
  obtain ⟨major, argument, hmajor, hhead⟩ := h.exists_head
  have hsign : (if value < 0 then 1 else 0) < 2 := by
    split <;> decide
  cases hhead with
  | short hshort =>
    have hbyte := congrArg UInt8.toNat (List.cons.inj hrest).1
    rw [initialByte_toNat (by omega) (by omega), initialByte_toNat (by omega) (by omega)] at hbyte
    omega
  | long hwidth hlength =>
    have hempty := (List.append_eq_nil_iff.mp (List.cons.inj hrest).2).1
    rw [hempty, List.length_nil] at hlength
    exact absurd hlength hwidth.bounds.2.2.1.ne

def readsInt (bytes : Uint8Array) : Option ℤ :=
  match readInt (CborReader.new bytes) with
  | .ok value _ => some value
  | .error _ _ => none

theorem readsInt_encodeInt (hlower : -(2 ^ 64) ≤ value) (hupper : value < 2 ^ 64)
    {bytes : Uint8Array} {rest : List UInt8} (hbytes : bytes.bytes = encodeInt value ++ rest) :
    readsInt bytes = some value := by
  have hread := (@readInt_encodeInt (CborReader.new bytes) _ _ hlower hupper hbytes
    fun first => ⟨rfl, rfl⟩).2
  rw [readsInt, hread]

/-- The integers of the range have the heads that are written, in their order, and the
others are refused. -/
theorem integer_heads_exact :
    (∀ value : ℤ, -(2 ^ 64) ≤ value → value < 2 ^ 64 →
      Writes (writeInt value) (encodeInt value) ∧ IsShortestHead (encodeInt value) value ∧
        ∀ (bytes : Uint8Array) (rest : List UInt8), bytes.bytes = encodeInt value ++ rest →
          readsInt bytes = some value) ∧
    (∀ value value' : ℤ, 0 ≤ value → value < value' → value' < 2 ^ 64 →
      List.Shortlex (· < ·) (encodeInt value) (encodeInt value')) ∧
    (∀ (head head' : List UInt8) (value value' : ℤ), IntegerHead head value →
      IntegerHead head' value' → head <+: head' → head = head') ∧
    ∀ value : ℤ, ¬ (-(2 ^ 64) ≤ value ∧ value < 2 ^ 64) → ∀ writer,
      writeInt value writer = .error .outOfRange (writer.append (leftBehind value)) ∧
        ∀ (head : List UInt8) (value' : ℤ), IntegerHead head value' →
          ¬ head <+: leftBehind value := by
  refine ⟨fun value hlower hupper => ⟨writes_int hlower hupper,
    isShortestHead_encodeInt hlower hupper, fun bytes rest => readsInt_encodeInt hlower hupper⟩,
    fun value value' hnonneg hlt hupper => ?_,
    fun head head' value value' h h' => h.eq_of_isPrefix h',
    fun value hrange writer => ⟨writeInt_throws hrange writer,
      fun head value' h => leftBehind_incomplete h⟩⟩
  rw [encodeInt, encodeInt, if_neg (by omega), if_neg (by omega)]
  exact shortlex_encodeHead .unsignedInteger (by omega) (by omega)

end CardanoSdk.Cbor
