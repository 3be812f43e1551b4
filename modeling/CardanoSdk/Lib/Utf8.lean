import Mathlib.Tactic

/-!
UTF-8 as text decoders implement it: a malformed sequence is replaced by one replacement
character.
-/

namespace CardanoSdk.Lib

def utf8Encode (text : String) : List UInt8 := text.toList.flatMap String.utf8EncodeChar

def replacementCharacter : Char := Char.ofNat 0xfffd

def inRange (lower upper : ℕ) (byte : UInt8) : Bool :=
  decide (lower ≤ byte.toNat) && decide (byte.toNat ≤ upper)

/-- The bounds of the byte after a lead byte: they exclude overlong forms,
surrogates and values beyond the last code point. -/
def secondByteBounds (lead : ℕ) : ℕ × ℕ :=
  if lead = 0xe0 then (0xa0, 0xbf)
  else if lead = 0xed then (0x80, 0x9f)
  else if lead = 0xf0 then (0x90, 0xbf)
  else if lead = 0xf4 then (0x80, 0x8f)
  else (0x80, 0xbf)

def isSecond (lead byte : UInt8) : Bool :=
  inRange (secondByteBounds lead.toNat).1 (secondByteBounds lead.toNat).2 byte

def isContinuation (byte : UInt8) : Bool := inRange 0x80 0xbf byte

def payload (byte : UInt8) : ℕ := byte.toNat % 64

/-- The character that starts with a lead byte, and how many of the bytes
after it belong to the sequence. -/
def decodeSequence (lead : UInt8) (rest : List UInt8) : Char × ℕ :=
  if inRange 0 0x7f lead then (Char.ofNat lead.toNat, 0)
  else if inRange 0xc2 0xdf lead then
    match rest with
    | b :: _ =>
      if isSecond lead b then (Char.ofNat (lead.toNat % 32 * 64 + payload b), 1)
      else (replacementCharacter, 0)
    | [] => (replacementCharacter, 0)
  else if inRange 0xe0 0xef lead then
    match rest with
    | b :: c :: _ =>
      if isSecond lead b then
        if isContinuation c then
          (Char.ofNat (lead.toNat % 16 * 4096 + payload b * 64 + payload c), 2)
        else (replacementCharacter, 1)
      else (replacementCharacter, 0)
    | [b] => (replacementCharacter, if isSecond lead b then 1 else 0)
    | [] => (replacementCharacter, 0)
  else if inRange 0xf0 0xf4 lead then
    match rest with
    | b :: c :: d :: _ =>
      if isSecond lead b then
        if isContinuation c then
          if isContinuation d then
            (Char.ofNat (lead.toNat % 8 * 262144 + payload b * 4096 + payload c * 64 +
              payload d), 3)
          else (replacementCharacter, 2)
        else (replacementCharacter, 1)
      else (replacementCharacter, 0)
    | [b, c] =>
      (replacementCharacter, if isSecond lead b then if isContinuation c then 2 else 1 else 0)
    | [b] => (replacementCharacter, if isSecond lead b then 1 else 0)
    | [] => (replacementCharacter, 0)
  else (replacementCharacter, 0)

/-- Decode, after skipping the bytes that the last sequence already used. -/
def decodeChars : ℕ → List UInt8 → List Char
  | _, [] => []
  | skip + 1, _ :: rest => decodeChars skip rest
  | 0, lead :: rest =>
    (decodeSequence lead rest).1 :: decodeChars (decodeSequence lead rest).2 rest

def utf8Decode (bytes : List UInt8) : String := String.ofList (decodeChars 0 bytes)

variable {lower upper n : ℕ}

theorem inRange_iff {byte : UInt8} :
    inRange lower upper byte = true ↔ lower ≤ byte.toNat ∧ byte.toNat ≤ upper := by
  simp [inRange]

theorem isContinuation_ofNat (n : ℕ) : isContinuation (UInt8.ofNat (n % 64 + 128)) = true := by
  rw [isContinuation, inRange_iff, UInt8.toNat_ofNat']
  omega

theorem payload_ofNat (n : ℕ) : payload (UInt8.ofNat (n % 64 + 128)) = n % 64 := by
  rw [payload, UInt8.toNat_ofNat']
  omega

/-- A byte that carries the bits of `n` is a second byte after `lead` unless
the whole would be overlong, a surrogate or out of range. -/
theorem isSecond_ofNat {lead : ℕ} (hlead : lead < 256) (hshort : lead = 0xe0 → 32 ≤ n % 64)
    (hsurrogate : lead = 0xed → n % 64 < 32) (hlong : lead = 0xf0 → 16 ≤ n % 64)
    (hlast : lead = 0xf4 → n % 64 < 16) :
    isSecond (UInt8.ofNat lead) (UInt8.ofNat (n % 64 + 128)) = true := by
  have hmod : lead % 2 ^ 8 = lead := Nat.mod_eq_of_lt hlead
  rw [isSecond, inRange_iff, UInt8.toNat_ofNat', UInt8.toNat_ofNat', hmod]
  unfold secondByteBounds
  split
  · have := hshort ‹_›
    constructor <;> dsimp only <;> omega
  · split
    · have := hsurrogate ‹_›
      constructor <;> dsimp only <;> omega
    · split
      · have := hlong ‹_›
        constructor <;> dsimp only <;> omega
      · split
        · have := hlast ‹_›
          constructor <;> dsimp only <;> omega
        · constructor <;> dsimp only <;> omega

theorem inRange_ofNat (hn : n < 256) :
    inRange lower upper (UInt8.ofNat n) = decide (lower ≤ n ∧ n ≤ upper) := by
  have hmod : n % 2 ^ 8 = n := Nat.mod_eq_of_lt hn
  simp only [inRange, UInt8.toNat_ofNat', hmod, Bool.decide_and]

theorem decodeChars_encodeChar (c : Char) (rest : List UInt8) :
    decodeChars 0 (String.utf8EncodeChar c ++ rest) = c :: decodeChars 0 rest := by
  have hvalid : c.val.toNat < 0xd800 ∨ 0xdfff < c.val.toNat ∧ c.val.toNat < 0x110000 := c.valid
  have hchar (n : ℕ) (h : n = c.val.toNat) : Char.ofNat n = c := by
    rw [h]
    exact Char.ofNat_toNat c
  unfold String.utf8EncodeChar
  dsimp only
  generalize c.val.toNat = v at hvalid hchar
  split
  · have hsequence : decodeSequence (UInt8.ofNat v) rest = (c, 0) := by
      unfold decodeSequence
      rw [inRange_ofNat (by omega), if_pos (by simp; omega),
        hchar _ (by rw [UInt8.toNat_ofNat']; omega)]
    simp only [List.cons_append, List.nil_append, decodeChars, hsequence]
  · split
    · have hlead : v / 64 % 32 + 192 < 256 := by omega
      have hsequence : decodeSequence (UInt8.ofNat (v / 64 % 32 + 192))
          (UInt8.ofNat (v % 64 + 128) :: rest) = (c, 1) := by
        unfold decodeSequence
        rw [inRange_ofNat hlead, inRange_ofNat hlead, if_neg (by simp), if_pos (by simp; omega)]
        dsimp only
        rw [if_pos (isSecond_ofNat hlead (by omega) (by omega) (by omega) (by omega)),
          payload_ofNat, hchar _ (by rw [UInt8.toNat_ofNat']; omega)]
      simp only [List.cons_append, List.nil_append, decodeChars, hsequence]
    · split
      · have hlead : v / 4096 % 16 + 224 < 256 := by omega
        have hsequence : decodeSequence (UInt8.ofNat (v / 4096 % 16 + 224))
            (UInt8.ofNat (v / 64 % 64 + 128) :: UInt8.ofNat (v % 64 + 128) :: rest) = (c, 2) := by
          unfold decodeSequence
          rw [inRange_ofNat hlead, inRange_ofNat hlead, inRange_ofNat hlead, if_neg (by simp),
            if_neg (by simp), if_pos (by simp; omega)]
          dsimp only
          rw [if_pos (isSecond_ofNat hlead (by omega) (by omega) (by omega) (by omega)),
            if_pos (isContinuation_ofNat _), payload_ofNat, payload_ofNat,
            hchar _ (by rw [UInt8.toNat_ofNat']; omega)]
        simp only [List.cons_append, List.nil_append, decodeChars, hsequence]
      · have hlead : v / 262144 % 8 + 240 < 256 := by omega
        have hsequence : decodeSequence (UInt8.ofNat (v / 262144 % 8 + 240))
            (UInt8.ofNat (v / 4096 % 64 + 128) :: UInt8.ofNat (v / 64 % 64 + 128) ::
              UInt8.ofNat (v % 64 + 128) :: rest) = (c, 3) := by
          unfold decodeSequence
          rw [inRange_ofNat hlead, inRange_ofNat hlead, inRange_ofNat hlead, inRange_ofNat hlead,
            if_neg (by simp), if_neg (by simp), if_neg (by simp),
            if_pos (by simp; omega)]
          dsimp only
          rw [if_pos (isSecond_ofNat hlead (by omega) (by omega) (by omega) (by omega)),
            if_pos (isContinuation_ofNat _), if_pos (isContinuation_ofNat _), payload_ofNat,
            payload_ofNat, payload_ofNat, hchar _ (by rw [UInt8.toNat_ofNat']; omega)]
        simp only [List.cons_append, List.nil_append, decodeChars, hsequence]

theorem utf8Decode_utf8Encode (text : String) : utf8Decode (utf8Encode text) = text := by
  have hchars (chars : List Char) :
      decodeChars 0 (chars.flatMap String.utf8EncodeChar) = chars := by
    induction chars with
    | nil => rfl
    | cons c rest ih => rw [List.flatMap_cons, decodeChars_encodeChar, ih]
  rw [utf8Decode, utf8Encode, hchars, String.ofList_toList]

end CardanoSdk.Lib
