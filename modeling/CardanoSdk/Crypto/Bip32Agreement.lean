import CardanoSdk.Crypto.Bip32
import Mathlib.Algebra.Module.NatInt
import Mathlib.Algebra.Group.Nat.Even

/-!
Public and private derivation agree. The scalar starts below 2^254 + 2^253 and grows by
less than 2^227 with each derivation, so 2^26 of them do not reach the bit that the
multiplication ignores.
-/

namespace CardanoSdk.Crypto

open Lib

/-- The library computes in a group of points: it multiplies the base point by the low
255 bits of the scalar, and adds the points it is given. -/
structure Ed25519 (sodium : Sodium) (P : Type*) [AddCommGroup P] where
  base : P
  encode : P → List UInt8
  length_encode : ∀ p, (encode p).length = 32
  scalarmult : ∀ scalar : List UInt8, scalar.length = 32 →
    sodium.scalarmultBaseNoclamp scalar = encode ((ofBytesLE scalar % 2 ^ 255) • base)
  add : ∀ p q, sodium.ed25519Add (encode p) (encode q) = encode (p + q)

variable {bytes x y : List UInt8}

theorem length_slice (start : ℕ) (h : start + 32 ≤ bytes.length) :
    ((bytes.drop start).take 32).length = 32 := by
  rw [List.length_take, List.length_drop]
  omega

theorem ofBytesLE_add28Mul8 (hx : x.length = 32) (hy : y.length = 32) :
    (add28Mul8 x y).length = 32 ∧ ∃ carry, ofBytesLE (add28Mul8 x y) + 256 ^ 32 * carry =
      ofBytesLE x + 8 * ofBytesLE (y.take 28) := by
  have haddend : Nat.ofDigits 256 ((y.take 28).map (fun b => b.toNat <<< 3) ++
      List.replicate 4 0) = 8 * ofBytesLE (y.take 28) := by
    rw [Nat.ofDigits_append_replicate_zero]
    have hshift := ofDigits_map_shiftLeft ((y.take 28).map UInt8.toNat) 3
    rw [List.map_map] at hshift
    exact hshift
  obtain ⟨hlength, carry, hsum⟩ := ofBytesLE_addWithCarry_zip (x := x.map UInt8.toNat)
    (y := (y.take 28).map (fun b => b.toNat <<< 3) ++ List.replicate 4 0) (by simp [hx, hy])
  rw [List.length_map, hx] at hlength hsum
  rw [haddend] at hsum
  exact ⟨hlength, carry, hsum⟩

theorem length_add256bits (hx : x.length = 32) (hy : y.length = 32) :
    (add256bits x y).length = 32 := by
  rw [add256bits, length_addWithCarry, add256bitsTerms, List.length_zip, List.length_map, List.length_map, hx, hy,
    Nat.min_self]

theorem ofBytesLE_add28Mul8_of_lt (hx : x.length = 32) (hy : y.length = 32)
    (hfits : ofBytesLE x + 8 * ofBytesLE (y.take 28) < 2 ^ 256) :
    ofBytesLE (add28Mul8 x y) = ofBytesLE x + 8 * ofBytesLE (y.take 28) := by
  obtain ⟨-, carry, hsum⟩ := ofBytesLE_add28Mul8 hx hy
  have hcarry : carry = 0 := by
    by_contra hne
    have hle : 256 ^ 32 * 1 ≤ 256 ^ 32 * carry :=
      Nat.mul_le_mul_left _ (Nat.one_le_iff_ne_zero.mpr hne)
    omega
  rw [hcarry] at hsum
  exact hsum

theorem mod_of_carry {sum value carry width : ℕ} (hfits : sum < 256 ^ width)
    (h : sum + 256 ^ width * carry = value) : sum = value % 256 ^ width := by
  rw [← h, Nat.add_mul_mod_self_left, Nat.mod_eq_of_lt hfits]

theorem fst_lt_of_mem_zip {term : ℕ × ℕ} {addends : List ℕ}
    (h : term ∈ (x.map UInt8.toNat).zip addends) : term.1 < 256 := by
  obtain ⟨byte, -, hbyte⟩ := List.mem_map.mp (List.of_mem_zip h).1
  rw [← hbyte]
  exact byte.toNat_lt

theorem carry_add28Mul8_le (x y : List UInt8) (rounds : ℕ) :
    carryAfter (add28Mul8Terms x y) rounds ≤ 8 := by
  refine carryAfter_le (fun term hterm => ?_) rounds
  have hfirst := fst_lt_of_mem_zip hterm
  have hsecond : term.2 ≤ 255 * 8 := by
    rcases List.mem_append.mp (List.of_mem_zip hterm).2 with hshifted | hzero
    · obtain ⟨byte, -, hbyte⟩ := List.mem_map.mp hshifted
      have hlt := byte.toNat_lt
      rw [← hbyte, Nat.shiftLeft_eq]
      omega
    · rw [List.eq_of_mem_replicate hzero]
      exact Nat.zero_le _
  omega

theorem carry_add256bits_le (x y : List UInt8) (rounds : ℕ) :
    carryAfter (add256bitsTerms x y) rounds ≤ 1 := by
  refine carryAfter_le (fun term hterm => ?_) rounds
  have hfirst := fst_lt_of_mem_zip hterm
  obtain ⟨byte, -, hbyte⟩ := List.mem_map.mp (List.of_mem_zip hterm).2
  have hlt := byte.toNat_lt
  omega

theorem ofBytesLE_add256bits (hx : x.length = 32) (hy : y.length = 32) :
    ∃ carry, ofBytesLE (add256bits x y) + 256 ^ 32 * carry = ofBytesLE x + ofBytesLE y := by
  obtain ⟨-, carry, hsum⟩ := ofBytesLE_addWithCarry_zip (x := x.map UInt8.toNat)
    (y := y.map UInt8.toNat) (by simp [hx, hy])
  rw [List.length_map, hx] at hsum
  exact ⟨carry, hsum⟩

/-- Both sums are exact modulo `2 ^ 256`, and their carries are small in every round. -/
theorem key_sums_exact (hx : x.length = 32) (hy : y.length = 32) :
    ((add28Mul8 x y).length = 32 ∧
      ofBytesLE (add28Mul8 x y) = (ofBytesLE x + 8 * (ofBytesLE y % 2 ^ 224)) % 2 ^ 256 ∧
      ∀ rounds, carryAfter (add28Mul8Terms x y) rounds ≤ 8) ∧
    (add256bits x y).length = 32 ∧
      ofBytesLE (add256bits x y) = (ofBytesLE x + ofBytesLE y) % 2 ^ 256 ∧
      ∀ rounds, carryAfter (add256bitsTerms x y) rounds ≤ 1 := by
  obtain ⟨hlength, carry, hsum⟩ := ofBytesLE_add28Mul8 hx hy
  obtain ⟨carry', hsum'⟩ := ofBytesLE_add256bits hx hy
  have hlength' := length_add256bits hx hy
  have hfits := ofBytesLE_lt (add28Mul8 x y)
  have hfits' := ofBytesLE_lt (add256bits x y)
  rw [hlength] at hfits
  rw [hlength'] at hfits'
  rw [ofBytesLE_take (by omega)] at hsum
  rw [show (2 : ℕ) ^ 224 = 256 ^ 28 by norm_num, show (2 : ℕ) ^ 256 = 256 ^ 32 by norm_num]
  exact ⟨⟨hlength, mod_of_carry hfits hsum, carry_add28Mul8_le x y⟩,
    hlength', mod_of_carry hfits' hsum', carry_add256bits_le x y⟩

/-- The largest numbers: the carry is eight and the sum is cut off. -/
theorem key_sums_exact_largest :
    ofBytesLE (add28Mul8 (List.replicate 32 255) (List.replicate 32 255)) =
      (ofBytesLE (List.replicate 32 255) + 8 * (ofBytesLE (List.replicate 32 255) % 2 ^ 224)) %
        2 ^ 256 :=
  (key_sums_exact rfl rfl).1.2.1

def Bip32PrivateKey.scalar (privateKey : Bip32PrivateKey) : ℕ :=
  ofBytesLE (extendedScalar privateKey.key)

/-- What the scalar keeps to after so many derivations from a clamped one. -/
structure Bip32PrivateKey.Within (privateKey : Bip32PrivateKey) (derivations : ℕ) : Prop where
  length : privateKey.key.length = 96
  eight : 8 ∣ privateKey.scalar
  low : 2 ^ 254 ≤ privateKey.scalar
  high : privateKey.scalar < 2 ^ 254 + 2 ^ 253 + derivations * 2 ^ 227

theorem Bip32PrivateKey.Within.lt {privateKey : Bip32PrivateKey} {derivations : ℕ}
    (h : privateKey.Within derivations) (hcount : derivations ≤ 2 ^ 26) :
    privateKey.scalar < 2 ^ 255 := by
  have hgrown : derivations * 2 ^ 227 ≤ 2 ^ 26 * 2 ^ 227 := Nat.mul_le_mul_right _ hcount
  have hhigh := h.high
  omega

theorem eight_dvd_clamped (byte : UInt8) : 8 ∣ (byte &&& 0b11111000).toNat := by
  rw [UInt8.toNat_and]
  apply Nat.dvd_of_mod_eq_zero
  calc (byte.toNat &&& 0b11111000) % 2 ^ 3
      = byte.toNat % 2 ^ 3 &&& 0b11111000 % 2 ^ 3 := Nat.and_mod_two_pow
    _ = 0 := Nat.and_zero _

theorem clamped_high (byte : UInt8) :
    64 ≤ ((byte &&& 0b00011111) ||| 0b01000000).toNat ∧
      ((byte &&& 0b00011111) ||| 0b01000000).toNat < 96 := by
  have hlow : byte.toNat &&& 0b00011111 < 2 ^ 5 := Nat.and_lt_two_pow _ (by norm_num)
  have hor : (byte.toNat &&& 0b00011111) ||| 0b01000000 = 64 + (byte.toNat &&& 0b00011111) := by
    rw [Nat.or_comm]
    exact (Nat.two_pow_add_eq_or_of_lt (i := 6) (by omega) 1).symm
  rw [UInt8.toNat_or, UInt8.toNat_and]
  change 64 ≤ (byte.toNat &&& 0b00011111) ||| 0b01000000 ∧
    (byte.toNat &&& 0b00011111) ||| 0b01000000 < 96
  rw [hor]
  omega

theorem clampScalar_eq (hlength : bytes.length = 96) :
    ∃ first last between rest, between.length = 30 ∧ rest.length = 64 ∧
      clampScalar bytes = ((first &&& 0b11111000) :: between ++
        [(last &&& 0b00011111) ||| 0b01000000]) ++ rest := by
  obtain ⟨first, tail, rfl⟩ := List.exists_cons_of_length_eq_add_one hlength
  have htail : tail.length = 95 := by simpa using hlength
  obtain ⟨last, rest, hdrop⟩ : ∃ last rest, tail.drop 30 = last :: rest :=
    List.exists_cons_of_length_pos (by rw [List.length_drop]; omega)
  have hrest : (last :: rest).length = 65 := by
    rw [← hdrop, List.length_drop, htail]
  refine ⟨first, last, tail.take 30, rest, ?_, Nat.succ.inj hrest, ?_⟩
  · rw [List.length_take]
    omega
  · rw [clampScalar, List.modify_zero_cons, List.modify_succ_cons, List.modify_eq_take_drop, hdrop]
    simp [List.modifyHead]

theorem within_clamped (hlength : bytes.length = 96) :
    (Bip32PrivateKey.mk (clampScalar bytes)).Within 0 := by
  obtain ⟨first, last, between, rest, hbetween, hrest, heq⟩ := clampScalar_eq hlength
  obtain ⟨k, hk⟩ := eight_dvd_clamped first
  obtain ⟨hlow, hhigh⟩ := clamped_high last
  have hfirst := (first &&& 0b11111000).toNat_lt
  have hmiddle := ofBytesLE_lt between
  rw [hbetween] at hmiddle
  have hscalar : (Bip32PrivateKey.mk (clampScalar bytes)).scalar =
      8 * k + 256 * (ofBytesLE between + 256 ^ 30 *
        ((last &&& 0b00011111) ||| 0b01000000).toNat) := by
    rw [Bip32PrivateKey.scalar, extendedScalar, heq, List.take_left' (by simp [hbetween]),
      List.cons_append, ofBytesLE_cons, ofBytesLE_append, ofBytesLE_cons, ofBytesLE_nil, hbetween, hk,
      Nat.mul_zero, Nat.add_zero]
  generalize ((last &&& 0b00011111) ||| 0b01000000).toNat = high at hlow hhigh hscalar
  generalize ofBytesLE between = middle at hmiddle hscalar
  constructor
  · rw [heq]
    simp [hbetween, hrest]
  · rw [hscalar]
    exact Nat.dvd_add (Nat.dvd_mul_right 8 k) (Dvd.dvd.mul_right (by decide) _)
  · omega
  · omega

section Step

variable {sodium : Sodium}

variable {child : List UInt8} {index derivations : ℕ} {key : Bip32PrivateKey}

theorem derivePrivate_eq_ok {key : List UInt8} (h : derivePrivate sodium key index = .ok child) :
    ∃ macs : Macs, macs.zMac.length = 64 ∧ macs.ccMac.length = 64 ∧ index < 2 ^ 32 ∧
      (isHardenedDerivation index = false → macs = softMacs sodium
        (sodium.scalarmultBaseNoclamp (key.take 32)) (toBytesLE 4 index) ((key.drop 64).take 32)) ∧
      child = add28Mul8 (key.take 32) (macs.zMac.take 32) ++
        add256bits ((key.drop 32).take 32) ((macs.zMac.drop 32).take 32) ++
          (macs.ccMac.drop 32).take 32 := by
  obtain ⟨macs, hmacs, hchild⟩ := bind_ok h
  cases hchild
  by_cases hhard : isHardenedDerivation index = true
  · rw [if_pos hhard] at hmacs
    obtain ⟨le, hle, hmacs⟩ := bind_ok hmacs
    unfold writeUInt32LE at hle
    split at hle
    · rename_i hindex
      cases hmacs
      exact ⟨_, sodium.length_hmacsha512 _ _, sodium.length_hmacsha512 _ _, hindex,
        fun hsoft => absurd hsoft (by rw [hhard]; exact Bool.noConfusion), rfl⟩
    · cases hle
  · rw [if_neg hhard] at hmacs
    obtain ⟨le, hle, hmacs⟩ := bind_ok hmacs
    unfold writeUInt32LE at hle
    split at hle
    · rename_i hindex
      cases hle
      cases hmacs
      exact ⟨_, sodium.length_hmacsha512 _ _, sodium.length_hmacsha512 _ _, hindex,
        fun _ => rfl, rfl⟩
    · cases hle

theorem derivePrivate_exists (key : List UInt8) (hindex : index < 2 ^ 32) :
    ∃ child, derivePrivate sodium key index = .ok child := by
  have hle : writeUInt32LE index = .ok (toBytesLE 4 index) := if_pos hindex
  unfold derivePrivate
  by_cases hhard : isHardenedDerivation index = true
  · simp only [if_pos hhard, deriveHardened, hle]
    exact ⟨_, rfl⟩
  · simp only [if_neg hhard, deriveSoft, hle]
    exact ⟨_, rfl⟩

theorem derivePrivate_parts {key : List UInt8} (hlength : key.length = 96)
    (h : derivePrivate sodium key index = .ok child) :
    ∃ macs : Macs, macs.zMac.length = 64 ∧ index < 2 ^ 32 ∧
      (isHardenedDerivation index = false → macs = softMacs sodium
        (sodium.scalarmultBaseNoclamp (key.take 32)) (toBytesLE 4 index) ((key.drop 64).take 32)) ∧
      child.length = 96 ∧ child.take 32 = add28Mul8 (key.take 32) (macs.zMac.take 32) ∧
      (child.drop 64).take 32 = (macs.ccMac.drop 32).take 32 := by
  obtain ⟨macs, hz, hcc, hindex, hsoft, rfl⟩ := derivePrivate_eq_ok h
  have hkl : (key.take 32).length = 32 := length_slice 0 (by omega)
  have hkr : ((key.drop 32).take 32).length = 32 := length_slice 32 (by omega)
  have hzl : (macs.zMac.take 32).length = 32 := length_slice 0 (by omega)
  have hzr : ((macs.zMac.drop 32).take 32).length = 32 := length_slice 32 (by omega)
  have hcode : ((macs.ccMac.drop 32).take 32).length = 32 := length_slice 32 (by omega)
  have hleft := (ofBytesLE_add28Mul8 hkl hzl).1
  have hright := length_add256bits hkr hzr
  refine ⟨macs, hz, hindex, hsoft, ?_, ?_, ?_⟩
  · simp only [List.length_append, hleft, hright, hcode]
  · rw [List.append_assoc, List.take_left' hleft]
  · rw [List.drop_left' (by rw [List.length_append, hleft, hright])]
    exact List.take_of_length_le hcode.le

def trunc28 (z : List UInt8) : ℕ := ofBytesLE ((z.take 32).take 28)

theorem trunc28_lt (z : List UInt8) : trunc28 z < 2 ^ 224 := by
  have hbytes := ofBytesLE_lt ((z.take 32).take 28)
  have hpow : (256 : ℕ) ^ ((z.take 32).take 28).length ≤ 256 ^ 28 :=
    Nat.pow_le_pow_right (by norm_num) (List.length_take_le _ _)
  exact (hbytes.trans_le hpow).trans_eq (by norm_num)

variable {z : List UInt8}

theorem scalar_of_parts (hwithin : key.Within derivations) (hcount : derivations ≤ 2 ^ 26)
    (hz : z.length = 64) (hchild : child.take 32 = add28Mul8 (key.key.take 32) (z.take 32)) :
    (Bip32PrivateKey.mk child).scalar = key.scalar + 8 * trunc28 z := by
  have hlength := hwithin.length
  rw [Bip32PrivateKey.scalar, extendedScalar, hchild]
  apply ofBytesLE_add28Mul8_of_lt (length_slice 0 (by omega)) (length_slice 0 (by omega))
  have hsmall := hwithin.lt hcount
  have hterm := trunc28_lt z
  change key.scalar + 8 * trunc28 z < 2 ^ 256
  omega

theorem derivePrivate_scalar (hwithin : key.Within derivations) (hcount : derivations < 2 ^ 26)
    (h : derivePrivate sodium key.key index = .ok child) :
    (Bip32PrivateKey.mk child).Within (derivations + 1) ∧
      ∃ z < 2 ^ 224, (Bip32PrivateKey.mk child).scalar = key.scalar + 8 * z := by
  obtain ⟨macs, hz, -, -, hlength, hscalarBytes, -⟩ := derivePrivate_parts hwithin.length h
  have hscalar := scalar_of_parts hwithin hcount.le hz hscalarBytes
  have hterm := trunc28_lt macs.zMac
  refine ⟨?_, _, hterm, hscalar⟩
  exact {
    length := hlength
    eight := by
      rw [hscalar]
      exact Nat.dvd_add hwithin.eight (Nat.dvd_mul_right 8 _)
    low := by
      rw [hscalar]
      exact hwithin.low.trans (Nat.le_add_right _ _)
    high := by
      have hhigh := hwithin.high
      rw [hscalar]
      omega }

def publicBytes (sodium : Sodium) (key : List UInt8) : List UInt8 :=
  sodium.scalarmultBaseNoclamp (key.take 32) ++ (key.drop 64).take 32

variable {P : Type*} [AddCommGroup P] (ed25519 : Ed25519 sodium P)

theorem encodedPoint (hwithin : key.Within derivations) (hcount : derivations ≤ 2 ^ 26) :
    sodium.scalarmultBaseNoclamp (key.key.take 32) =
      ed25519.encode (key.scalar • ed25519.base) := by
  have hlength := hwithin.length
  have hkl : (key.key.take 32).length = 32 := length_slice 0 (by omega)
  rw [ed25519.scalarmult _ hkl]
  change ed25519.encode ((key.scalar % 2 ^ 255) • ed25519.base) = _
  rw [Nat.mod_eq_of_lt (hwithin.lt hcount)]

theorem pointOfTrunc28Mul8_eq (hz : z.length = 64) :
    pointOfTrunc28Mul8 sodium (z.take 32) =
      ed25519.encode ((8 * trunc28 z) • ed25519.base) := by
  have hzl : (z.take 32).length = 32 := length_slice 0 (by omega)
  have hzero : ofBytesLE (List.replicate 32 0) = 0 := rfl
  have hterm := trunc28_lt z
  have hsum : ofBytesLE (add28Mul8 (List.replicate 32 0) (z.take 32)) = 8 * trunc28 z := by
    have hadd := ofBytesLE_add28Mul8_of_lt (x := List.replicate 32 0) rfl hzl (by
      rw [hzero, Nat.zero_add]
      change 8 * trunc28 z < 2 ^ 256
      omega)
    rw [hzero, Nat.zero_add] at hadd
    exact hadd
  rw [pointOfTrunc28Mul8, ed25519.scalarmult _ (ofBytesLE_add28Mul8 rfl hzl).1, hsum,
    Nat.mod_eq_of_lt (by omega)]

include ed25519 in
theorem derivePublic_publicBytes (hwithin : key.Within derivations)
    (hcount : derivations < 2 ^ 26) (hsoft : index < 2 ^ 31)
    (h : derivePrivate sodium key.key index = .ok child) :
    derivePublic sodium (publicBytes sodium key.key) index = .ok (publicBytes sodium child) := by
  have hnotHard : isHardenedDerivation index = false := by
    apply decide_eq_false
    omega
  have hlength := hwithin.length
  obtain ⟨macs, hz, hindex, hmacs, -, hscalarBytes, hcode⟩ := derivePrivate_parts hlength h
  have hscalar := scalar_of_parts hwithin hcount.le hz hscalarBytes
  have hpoint := encodedPoint ed25519 hwithin hcount.le
  have hpk : (publicBytes sodium key.key).take 32 = sodium.scalarmultBaseNoclamp (key.key.take 32) :=
    List.take_left' (by rw [hpoint, ed25519.length_encode])
  have hcc : ((publicBytes sodium key.key).drop 32).take 32 = (key.key.drop 64).take 32 := by
    rw [publicBytes, List.drop_left' (by rw [hpoint, ed25519.length_encode])]
    exact List.take_of_length_le (length_slice 64 (by omega)).le
  have hle : writeUInt32LE index = .ok (toBytesLE 4 index) := if_pos hindex
  have hderived : derivePublic sodium (publicBytes sodium key.key) index =
      .ok (sodium.ed25519Add (pointOfTrunc28Mul8 sodium (macs.zMac.take 32))
        (sodium.scalarmultBaseNoclamp (key.key.take 32)) ++ (macs.ccMac.drop 32).take 32) := by
    unfold derivePublic
    simp only [hle, hnotHard, hpk, hcc, hmacs hnotHard]
    rfl
  -- the point of the child's scalar is the sum of the two points
  have hchildPoint := encodedPoint ed25519 (derivePrivate_scalar hwithin hcount h).1 hcount
  rw [hscalar] at hchildPoint
  have hsum : sodium.ed25519Add (pointOfTrunc28Mul8 sodium (macs.zMac.take 32))
      (sodium.scalarmultBaseNoclamp (key.key.take 32)) =
        sodium.scalarmultBaseNoclamp (child.take 32) := by
    calc sodium.ed25519Add (pointOfTrunc28Mul8 sodium (macs.zMac.take 32))
          (sodium.scalarmultBaseNoclamp (key.key.take 32))
        = ed25519.encode ((8 * trunc28 macs.zMac) • ed25519.base + key.scalar • ed25519.base) := by
          rw [pointOfTrunc28Mul8_eq ed25519 hz, hpoint, ed25519.add]
      _ = ed25519.encode ((key.scalar + 8 * trunc28 macs.zMac) • ed25519.base) := by
          rw [← add_nsmul, Nat.add_comm]
      _ = sodium.scalarmultBaseNoclamp (child.take 32) := hchildPoint.symm
  rw [hderived, hsum, publicBytes, hcode]

end Step

end CardanoSdk.Crypto
