import Mathlib.Data.List.Lex
import Mathlib.Data.UInt

/-!
Hexadecimal texts of byte strings, written in lower case.
-/

namespace CardanoSdk.Lib

def hexDigit (value : ℕ) : Char :=
  Char.ofNat (if value < 10 then 48 + value else 87 + value)

def hexDigits : List UInt8 → List Char
  | [] => []
  | byte :: rest => hexDigit (byte.toNat / 16) :: hexDigit (byte.toNat % 16) :: hexDigits rest

def toHex (bytes : List UInt8) : String :=
  String.ofList (hexDigits bytes)

def hexValue? (digit : Char) : Option ℕ :=
  if '0' ≤ digit ∧ digit ≤ '9' then some (digit.toNat - 48)
  else if 'a' ≤ digit ∧ digit ≤ 'f' then some (digit.toNat - 87)
  else if 'A' ≤ digit ∧ digit ≤ 'F' then some (digit.toNat - 55)
  else none

/-- The bytes of a text of digits; a last digit without a partner is dropped. -/
def ofHexDigits? : List Char → Option (List UInt8)
  | [] => some []
  | [digit] => (hexValue? digit).map fun _ => []
  | high :: low :: rest => do
      let high ← hexValue? high
      let low ← hexValue? low
      let bytes ← ofHexDigits? rest
      return UInt8.ofNat (16 * high + low) :: bytes

def ofHex? (text : String) : Option (List UInt8) := ofHexDigits? text.toList

/-- The value of a byte string in the lexicographic order of bytes. -/
def byteOrder (bytes : List UInt8) : List ℕ :=
  bytes.map UInt8.toNat

theorem byteOrder_injective : Function.Injective byteOrder :=
  List.map_injective_iff.mpr (fun _ _ h => UInt8.toNat_inj.mp h)

variable {a b : ℕ}

theorem hexDigit_lt_iff (ha : a < 16) (hb : b < 16) : hexDigit a < hexDigit b ↔ a < b := by
  have hall : ∀ a b : Fin 16, hexDigit a < hexDigit b ↔ a < b := by decide
  exact hall ⟨a, ha⟩ ⟨b, hb⟩

theorem hexDigit_inj (ha : a < 16) (hb : b < 16) : hexDigit a = hexDigit b ↔ a = b := by
  have hall : ∀ a b : Fin 16, hexDigit a = hexDigit b ↔ (a : ℕ) = b := by decide
  exact hall ⟨a, ha⟩ ⟨b, hb⟩

theorem hexPair_lt_iff (a b : UInt8) :
    (hexDigit (a.toNat / 16) < hexDigit (b.toNat / 16) ∨
      hexDigit (a.toNat / 16) = hexDigit (b.toNat / 16) ∧
        hexDigit (a.toNat % 16) < hexDigit (b.toNat % 16)) ↔ a.toNat < b.toNat := by
  have ha := a.toNat_lt
  have hb := b.toNat_lt
  rw [hexDigit_lt_iff (by omega) (by omega), hexDigit_inj (by omega) (by omega),
    hexDigit_lt_iff (by omega) (by omega)]
  omega

theorem hexPair_eq_iff (a b : UInt8) :
    (hexDigit (a.toNat / 16) = hexDigit (b.toNat / 16) ∧
      hexDigit (a.toNat % 16) = hexDigit (b.toNat % 16)) ↔ a.toNat = b.toNat := by
  have ha := a.toNat_lt
  have hb := b.toNat_lt
  rw [hexDigit_inj (by omega) (by omega), hexDigit_inj (by omega) (by omega)]
  omega

theorem hexDigits_lt_iff (a b : List UInt8) :
    hexDigits a < hexDigits b ↔ byteOrder a < byteOrder b := by
  induction a generalizing b with
  | nil => cases b <;> simp [hexDigits, byteOrder]
  | cons x rest ih =>
    cases b with
    | nil => simp [hexDigits, byteOrder]
    | cons y rest' =>
      have hlt := hexPair_lt_iff x y
      have heq := hexPair_eq_iff x y
      have htail := ih rest'
      simp only [byteOrder] at htail
      simp only [hexDigits, byteOrder, List.map_cons, List.cons_lt_cons_iff, htail,
        ← hlt, ← heq]
      tauto

theorem toHex_lt_iff (a b : List UInt8) : toHex a < toHex b ↔ byteOrder a < byteOrder b := by
  rw [String.lt_iff, toHex, toHex, String.toList_ofList, String.toList_ofList, hexDigits_lt_iff]

theorem toHex_injective : Function.Injective toHex := by
  intro a b h
  apply byteOrder_injective
  rcases lt_trichotomy (byteOrder a) (byteOrder b) with hlt | heq | hgt
  · rw [← toHex_lt_iff, h] at hlt
    exact absurd hlt (String.lt_irrefl _)
  · exact heq
  · rw [← toHex_lt_iff, h] at hgt
    exact absurd hgt (String.lt_irrefl _)

theorem not_mem_hexDigits {char : Char} (hchar : ∀ value : Fin 16, hexDigit value ≠ char)
    (bytes : List UInt8) : char ∉ hexDigits bytes := by
  induction bytes with
  | nil => simp [hexDigits]
  | cons byte rest ih =>
    have hbyte := byte.toNat_lt
    simp only [hexDigits, List.mem_cons, not_or]
    exact ⟨(hchar ⟨byte.toNat / 16, by omega⟩).symm, (hchar ⟨byte.toNat % 16, by omega⟩).symm, ih⟩

theorem not_mem_toDigits {char : Char} (hchar : ¬char.isDigit) (number : ℕ) :
    char ∉ Nat.toDigits 10 number :=
  fun hmem => hchar (Nat.isDigit_of_mem_toDigits (by decide) (by decide) hmem)

theorem hash_not_mem_hexDigits (bytes : List UInt8) : '#' ∉ hexDigits bytes :=
  not_mem_hexDigits (by decide) bytes

theorem hash_not_mem_toDigits (number : ℕ) : '#' ∉ Nat.toDigits 10 number :=
  not_mem_toDigits (by decide) number

end CardanoSdk.Lib
