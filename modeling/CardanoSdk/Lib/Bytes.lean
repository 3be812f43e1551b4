import Mathlib.Data.List.Induction
import Mathlib.Data.List.Lex
import Mathlib.Data.Nat.Log
import Mathlib.Tactic

/-!
Big-endian byte strings, and the rounding of integers to double precision.
-/

namespace CardanoSdk.Lib

/-- The number that a byte string denotes, most significant byte first. -/
def ofBytesBE (bytes : List UInt8) : ℕ :=
  bytes.foldl (fun value byte => value * 256 + byte.toNat) 0

/-- The low `width` bytes of a number, most significant byte first. -/
def toBytesBE : ℕ → ℕ → List UInt8
  | 0, _ => []
  | width + 1, value => toBytesBE width (value / 256) ++ [UInt8.ofNat value]

@[simp] theorem length_toBytesBE (width value : ℕ) : (toBytesBE width value).length = width := by
  induction width generalizing value with
  | zero => rfl
  | succ width ih => simp [toBytesBE, ih]

@[simp] theorem ofBytesBE_nil : ofBytesBE [] = 0 := rfl

theorem ofBytesBE_append_singleton (bytes : List UInt8) (byte : UInt8) :
    ofBytesBE (bytes ++ [byte]) = ofBytesBE bytes * 256 + byte.toNat := by
  simp [ofBytesBE]

variable {value : ℕ}

theorem ofBytesBE_toBytesBE {width : ℕ} (h : value < 256 ^ width) :
    ofBytesBE (toBytesBE width value) = value := by
  induction width generalizing value with
  | zero =>
    rw [pow_zero] at h
    rw [toBytesBE, ofBytesBE_nil]
    omega
  | succ width ih =>
    have hdiv : value / 256 < 256 ^ width := by
      rw [Nat.div_lt_iff_lt_mul (by norm_num)]
      rwa [pow_succ] at h
    rw [toBytesBE, ofBytesBE_append_singleton, ih hdiv, UInt8.toNat_ofNat']
    omega

theorem toBytesBE_add (high low value : ℕ) :
    toBytesBE (high + low) value = toBytesBE high (value / 256 ^ low) ++ toBytesBE low value := by
  induction low generalizing value with
  | zero => simp [toBytesBE]
  | succ low ih =>
    rw [← Nat.add_assoc, toBytesBE, toBytesBE, ih, Nat.div_div_eq_div_mul, ← Nat.pow_succ',
      List.append_assoc]

theorem ofBytesBE_lt (bytes : List UInt8) : ofBytesBE bytes < 256 ^ bytes.length := by
  induction bytes using List.reverseRecOn with
  | nil => simp
  | append_singleton bytes byte ih =>
    have hbyte := byte.toNat_lt
    rw [ofBytesBE_append_singleton, List.length_append, List.length_singleton, pow_succ]
    omega

theorem toBytesBE_ofBytesBE (bytes : List UInt8) :
    toBytesBE bytes.length (ofBytesBE bytes) = bytes := by
  induction bytes using List.reverseRecOn with
  | nil => rfl
  | append_singleton bytes byte ih =>
    have hbyte := byte.toNat_lt
    have hlow : UInt8.ofNat (ofBytesBE bytes * 256 + byte.toNat) = byte := by
      apply UInt8.toNat_inj.mp
      rw [UInt8.toNat_ofNat']
      omega
    rw [ofBytesBE_append_singleton, List.length_append, List.length_singleton, toBytesBE, hlow,
      show (ofBytesBE bytes * 256 + byte.toNat) / 256 = ofBytesBE bytes by omega, ih]

theorem lex_append {α : Type} {r : α → α → Prop} {start start' : List α} (rest rest' : List α)
    (hlength : start.length = start'.length) (h : List.Lex r start start') :
    List.Lex r (start ++ rest) (start' ++ rest') := by
  induction h with
  | nil => cases hlength
  | cons _ ih => exact List.Lex.cons (ih (Nat.succ.inj hlength))
  | rel h => exact List.Lex.rel h

theorem lex_toBytesBE {value' width : ℕ} (h : value < value') (hfits : value' < 256 ^ width) :
    List.Lex (· < ·) (toBytesBE width value) (toBytesBE width value') := by
  induction width generalizing value value' with
  | zero =>
    rw [pow_zero] at hfits
    omega
  | succ width ih =>
    rw [pow_succ] at hfits
    rw [toBytesBE, toBytesBE]
    rcases (Nat.div_le_div_right h.le : value / 256 ≤ value' / 256).lt_or_eq with hhigh | hhigh
    · exact lex_append _ _ (by simp) (ih hhigh (by omega))
    · rw [hhigh]
      refine List.Lex.append_left _ (List.Lex.rel ?_) _
      rw [UInt8.lt_iff_toNat_lt, UInt8.toNat_ofNat', UInt8.toNat_ofNat']
      omega
theorem toBytesBE_mod (width value : ℕ) :
    toBytesBE width (value % 256 ^ width) = toBytesBE width value := by
  induction width generalizing value with
  | zero => rfl
  | succ width ih =>
    have hdiv : value % 256 ^ (width + 1) / 256 = value / 256 % 256 ^ width := by
      rw [pow_succ', Nat.mod_mul_right_div_self]
    have hbyte : UInt8.ofNat (value % 256 ^ (width + 1)) = UInt8.ofNat value := by
      apply UInt8.toNat_inj.mp
      rw [UInt8.toNat_ofNat', UInt8.toNat_ofNat', pow_succ']
      exact Nat.mod_mul_right_mod _ _ _
    rw [toBytesBE, toBytesBE, hdiv, ih, hbyte]

/-- An integer rounded to the nearest double, ties to even. Below `2 ^ 53`
every integer is a double. -/
def roundToDouble (value : ℕ) : ℕ :=
  if value < 2 ^ 53 then value
  else
    let unit := 2 ^ (Nat.log2 value - 52)
    let quotient := value / unit
    let remainder := value % unit
    let roundsUp := unit < 2 * remainder ∨ (2 * remainder = unit ∧ quotient % 2 = 1)
    (if roundsUp then quotient + 1 else quotient) * unit

/-- The decimal with the fewest digits before its zeros that is rounded to the
double, the closer one of two. -/
def shortestDecimal (value : ℕ) : ℕ → ℕ
  | 0 => value
  | power + 1 =>
    let unit := 10 ^ (power + 1)
    let below := value / unit * unit
    let above := below + unit
    if roundToDouble below = value ∧ value - below ≤ above - value then below
    else if roundToDouble above = value then above
    else if roundToDouble below = value then below
    else shortestDecimal value power

/-- The text of a double that is a natural number below `10 ^ 21`. -/
def numberText (value : ℕ) : String := toString (shortestDecimal value 20)

theorem roundToDouble_of_lt (h : value < 2 ^ 53) : roundToDouble value = value :=
  if_pos h

theorem le_roundToDouble (h : 2 ^ 53 ≤ value) : 2 ^ 53 ≤ roundToDouble value := by
  have hlog : 53 ≤ Nat.log2 value := (Nat.le_log2 (by omega)).mpr h
  have hself : 2 ^ Nat.log2 value ≤ value := Nat.log2_self_le (by omega)
  have hunit : 2 ^ Nat.log2 value = 2 ^ 52 * 2 ^ (Nat.log2 value - 52) := by
    rw [← pow_add]
    congr 1
    omega
  have hquotient : 2 ^ 52 ≤ value / 2 ^ (Nat.log2 value - 52) := by
    rw [Nat.le_div_iff_mul_le (by positivity)]
    omega
  have htwo : 2 ≤ 2 ^ (Nat.log2 value - 52) := by
    calc 2 = 2 ^ 1 := rfl
      _ ≤ 2 ^ (Nat.log2 value - 52) := Nat.pow_le_pow_right (by norm_num) (by omega)
  unfold roundToDouble
  rw [if_neg (by omega)]
  dsimp only
  calc 2 ^ 53 = 2 ^ 52 * 2 := rfl
    _ ≤ value / 2 ^ (Nat.log2 value - 52) * 2 ^ (Nat.log2 value - 52) :=
        Nat.mul_le_mul hquotient htwo
    _ ≤ _ := by
        apply Nat.mul_le_mul_right
        split <;> omega

theorem roundToDouble_mul_pow {quotient : ℕ} (exponent : ℕ) (hlower : 2 ^ 52 ≤ quotient)
    (hupper : quotient < 2 ^ 53) :
    roundToDouble (quotient * 2 ^ exponent) = quotient * 2 ^ exponent := by
  by_cases hsmall : quotient * 2 ^ exponent < 2 ^ 53
  · exact roundToDouble_of_lt hsmall
  · have hunit : 0 < 2 ^ exponent := by positivity
    have hlog : Nat.log2 (quotient * 2 ^ exponent) = 52 + exponent := by
      rw [Nat.log2_eq_iff (by positivity), pow_add, Nat.add_right_comm, pow_add]
      exact ⟨Nat.mul_le_mul_right _ hlower, Nat.mul_lt_mul_of_pos_right hupper hunit⟩
    unfold roundToDouble
    rw [if_neg hsmall, hlog, Nat.add_sub_cancel_left]
    dsimp only
    rw [Nat.mul_mod_left, Nat.mul_div_cancel _ hunit, if_neg (by omega)]

theorem roundToDouble_roundToDouble (value : ℕ) :
    roundToDouble (roundToDouble value) = roundToDouble value := by
  by_cases hsmall : value < 2 ^ 53
  · rw [roundToDouble_of_lt hsmall, roundToDouble_of_lt hsmall]
  · have hlog : 53 ≤ Nat.log2 value := (Nat.le_log2 (by omega)).mpr (by omega)
    have hself : 2 ^ Nat.log2 value ≤ value := Nat.log2_self_le (by omega)
    have hnext : value < 2 ^ (Nat.log2 value + 1) := Nat.lt_log2_self
    obtain ⟨exponent, hexponent⟩ : ∃ exponent, Nat.log2 value = 52 + exponent :=
      ⟨Nat.log2 value - 52, by omega⟩
    have hunit : 0 < 2 ^ exponent := by positivity
    rw [hexponent, pow_add] at hself
    rw [hexponent, Nat.add_right_comm, pow_add] at hnext
    have hlower : 2 ^ 52 ≤ value / 2 ^ exponent := (Nat.le_div_iff_mul_le hunit).mpr hself
    have hupper : value / 2 ^ exponent < 2 ^ 53 := (Nat.div_lt_iff_lt_mul hunit).mpr hnext
    have hround : roundToDouble value = value / 2 ^ exponent * 2 ^ exponent ∨
        roundToDouble value = (value / 2 ^ exponent + 1) * 2 ^ exponent := by
      unfold roundToDouble
      rw [if_neg hsmall, hexponent, Nat.add_sub_cancel_left]
      dsimp only
      split
      · exact Or.inr rfl
      · exact Or.inl rfl
    rcases hround with hround | hround
    · rw [hround, roundToDouble_mul_pow exponent hlower hupper]
    · rw [hround]
      by_cases hcarry : value / 2 ^ exponent + 1 < 2 ^ 53
      · exact roundToDouble_mul_pow exponent (by omega) hcarry
      · have hpower : value / 2 ^ exponent + 1 = 2 ^ 52 * 2 ^ 1 := by omega
        rw [hpower, mul_assoc, ← pow_add]
        exact roundToDouble_mul_pow (1 + exponent) (by omega) (by omega)

theorem roundToDouble_eq_or {value : ℕ} :
    roundToDouble value = value ∨ 2 ^ 53 ≤ value ∧ 2 ^ 53 ≤ roundToDouble value := by
  rcases Nat.lt_or_ge value (2 ^ 53) with hlt | hge
  · exact Or.inl (roundToDouble_of_lt hlt)
  · exact Or.inr ⟨hge, le_roundToDouble hge⟩

end CardanoSdk.Lib
