import Mathlib.Algebra.Order.Ring.Nat
import Mathlib.Data.Nat.Bitwise
import Mathlib.Data.Nat.Digits.Defs
import Mathlib.Tactic.Ring

/-!
Little-endian numbers, and sums of them byte by byte with a carry.
-/

namespace CardanoSdk.Lib

def ofBytesLE (bytes : List UInt8) : ℕ := Nat.ofDigits 256 (bytes.map UInt8.toNat)

def toBytesLE : ℕ → ℕ → List UInt8
  | 0, _ => []
  | width + 1, value => UInt8.ofNat (value % 256) :: toBytesLE width (value / 256)

@[simp] theorem ofBytesLE_nil : ofBytesLE [] = 0 := rfl

@[simp] theorem ofBytesLE_cons (byte : UInt8) (rest : List UInt8) :
    ofBytesLE (byte :: rest) = byte.toNat + 256 * ofBytesLE rest :=
  Nat.ofDigits_cons

@[simp] theorem length_toBytesLE (width value : ℕ) : (toBytesLE width value).length = width := by
  induction width generalizing value with
  | zero => rfl
  | succ width ih => rw [toBytesLE, List.length_cons, ih]

theorem ofBytesLE_toBytesLE (width value : ℕ) :
    ofBytesLE (toBytesLE width value) = value % 256 ^ width := by
  induction width generalizing value with
  | zero => rw [toBytesLE, ofBytesLE_nil, pow_zero, Nat.mod_one]
  | succ width ih =>
    have hbyte : (UInt8.ofNat (value % 256)).toNat = value % 256 :=
      UInt8.toNat_ofNat_of_lt (Nat.mod_lt _ (by norm_num))
    rw [toBytesLE, ofBytesLE_cons, ih, hbyte, pow_succ', Nat.mod_mul]

theorem ofBytesLE_append (low high : List UInt8) :
    ofBytesLE (low ++ high) = ofBytesLE low + 256 ^ low.length * ofBytesLE high := by
  unfold ofBytesLE
  rw [List.map_append, Nat.ofDigits_append, List.length_map]

theorem ofBytesLE_lt (bytes : List UInt8) : ofBytesLE bytes < 256 ^ bytes.length := by
  induction bytes with
  | nil => simp
  | cons byte rest ih =>
    have hbyte := byte.toNat_lt
    rw [ofBytesLE_cons, List.length_cons, pow_succ]
    omega

/-- Each place adds its two terms and the carry, keeps the byte and passes the rest on. -/
def addWithCarry : List (ℕ × ℕ) → ℕ → List UInt8 × ℕ
  | [], carry => ([], carry)
  | (x, y) :: rest, carry =>
    let r := x + y + carry
    let (out, carry) := addWithCarry rest (r >>> 8)
    (UInt8.ofNat (r &&& 0xff) :: out, carry)

theorem length_addWithCarry (terms : List (ℕ × ℕ)) (carry : ℕ) :
    (addWithCarry terms carry).1.length = terms.length := by
  induction terms generalizing carry with
  | nil => rfl
  | cons term rest ih => exact congrArg (· + 1) (ih _)

theorem toNat_lowByte (r : ℕ) : (UInt8.ofNat (r &&& 0xff)).toNat = r % 256 := by
  have hmask : r &&& 0xff = r % 256 := Nat.and_two_pow_sub_one_eq_mod r 8
  rw [hmask, UInt8.toNat_ofNat']
  exact Nat.mod_mod r 256

theorem ofBytesLE_addWithCarry (terms : List (ℕ × ℕ)) (carry : ℕ) :
    ofBytesLE (addWithCarry terms carry).1 + 256 ^ terms.length * (addWithCarry terms carry).2 =
      Nat.ofDigits 256 (terms.map Prod.fst) + Nat.ofDigits 256 (terms.map Prod.snd) + carry := by
  induction terms generalizing carry with
  | nil => simp [addWithCarry]
  | cons term rest ih =>
    obtain ⟨x, y⟩ := term
    have hrest := ih ((x + y + carry) >>> 8)
    have hsplit : (x + y + carry) % 256 + 256 * ((x + y + carry) >>> 8) = x + y + carry := by
      rw [Nat.shiftRight_eq_div_pow]
      exact Nat.mod_add_div _ 256
    rw [addWithCarry, ofBytesLE_cons, toNat_lowByte, List.length_cons, List.map_cons,
      List.map_cons, Nat.ofDigits_cons, Nat.ofDigits_cons, pow_succ]
    calc (x + y + carry) % 256 + 256 * ofBytesLE (addWithCarry rest ((x + y + carry) >>> 8)).1 +
          256 ^ rest.length * 256 * (addWithCarry rest ((x + y + carry) >>> 8)).2
        = (x + y + carry) % 256 + 256 * (ofBytesLE (addWithCarry rest ((x + y + carry) >>> 8)).1 +
            256 ^ rest.length * (addWithCarry rest ((x + y + carry) >>> 8)).2) := by ring
      _ = (x + y + carry) % 256 + 256 * (Nat.ofDigits 256 (rest.map Prod.fst) +
            Nat.ofDigits 256 (rest.map Prod.snd) + (x + y + carry) >>> 8) := by rw [hrest]
      _ = x + 256 * Nat.ofDigits 256 (rest.map Prod.fst) +
            (y + 256 * Nat.ofDigits 256 (rest.map Prod.snd)) + carry := by omega

theorem ofBytesLE_addWithCarry_zip {x y : List ℕ} (hlength : x.length = y.length) :
    (addWithCarry (x.zip y) 0).1.length = x.length ∧
      ∃ carry, ofBytesLE (addWithCarry (x.zip y) 0).1 + 256 ^ x.length * carry =
        Nat.ofDigits 256 x + Nat.ofDigits 256 y := by
  have hzip : (x.zip y).length = x.length := by
    rw [List.length_zip, hlength, Nat.min_self]
  have hsum := ofBytesLE_addWithCarry (x.zip y) 0
  rw [hzip, List.map_fst_zip hlength.le, List.map_snd_zip hlength.ge] at hsum
  exact ⟨(length_addWithCarry _ 0).trans hzip, _, hsum⟩

theorem ofBytesLE_take {width : ℕ} {bytes : List UInt8} (h : width ≤ bytes.length) :
    ofBytesLE (bytes.take width) = ofBytesLE bytes % 256 ^ width := by
  have hlow := ofBytesLE_lt (bytes.take width)
  rw [List.length_take_of_le h] at hlow
  have hsplit := ofBytesLE_append (bytes.take width) (bytes.drop width)
  rw [List.take_append_drop, List.length_take_of_le h] at hsplit
  rw [hsplit, Nat.add_mul_mod_self_left, Nat.mod_eq_of_lt hlow]

def carryAfter (terms : List (ℕ × ℕ)) (places : ℕ) : ℕ := (addWithCarry (terms.take places) 0).2

theorem addWithCarry_append_snd (terms rest : List (ℕ × ℕ)) (carry : ℕ) :
    (addWithCarry (terms ++ rest) carry).2 =
      (addWithCarry rest (addWithCarry terms carry).2).2 := by
  induction terms generalizing carry with
  | nil => rfl
  | cons term terms ih => exact ih _

variable {terms : List (ℕ × ℕ)}

theorem carryAfter_succ {place : ℕ} (h : place < terms.length) :
    carryAfter terms (place + 1) =
      (terms[place].1 + terms[place].2 + carryAfter terms place) >>> 8 := by
  unfold carryAfter
  rw [List.take_succ_eq_append_getElem h, addWithCarry_append_snd]
  rfl

theorem carryAfter_le {bound : ℕ}
    (h : ∀ term ∈ terms, term.1 + term.2 + bound < 256 * (bound + 1)) (places : ℕ) :
    carryAfter terms places ≤ bound := by
  induction places with
  | zero => exact Nat.zero_le bound
  | succ place ih =>
    by_cases hplace : place < terms.length
    · have hterm := h _ (List.getElem_mem hplace)
      rw [carryAfter_succ hplace, Nat.shiftRight_eq_div_pow]
      omega
    · have hend : carryAfter terms (place + 1) = carryAfter terms place := by
        unfold carryAfter
        rw [List.take_of_length_le (by omega), List.take_of_length_le (by omega)]
      rw [hend]
      exact ih

theorem ofDigits_map_shiftLeft (digits : List ℕ) (k : ℕ) :
    Nat.ofDigits 256 (digits.map (· <<< k)) = 2 ^ k * Nat.ofDigits 256 digits := by
  induction digits with
  | nil => rfl
  | cons digit rest ih =>
    rw [List.map_cons, Nat.ofDigits_cons, Nat.ofDigits_cons, ih, Nat.shiftLeft_eq]
    ring

end CardanoSdk.Lib
