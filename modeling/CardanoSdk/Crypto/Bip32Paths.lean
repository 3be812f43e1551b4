import CardanoSdk.Crypto.Bip32Agreement
import Mathlib.Data.ZMod.Basic

/-!
Derivation along paths: a path of soft indices leads to one public key from either side.
-/

namespace CardanoSdk.Crypto

open Lib

section Paths

variable {sodium : Sodium}

def derivePath (sodium : Sodium) (key : List UInt8) (path : List ℕ) :
    Except Bip32Error (List UInt8) :=
  path.foldlM (derivePrivate sodium) key

variable {path : List ℕ} {key : Bip32PrivateKey} {child : List UInt8} {derivations : ℕ}

variable {rest : List ℕ} {P : Type*}

theorem derivePath_append {key : List UInt8}
    (h : derivePath sodium key (path ++ rest) = .ok child) :
    ∃ between, derivePath sodium key path = .ok between ∧
      derivePath sodium between rest = .ok child := by
  rw [derivePath, List.foldlM_append] at h
  exact bind_ok h

theorem derivePath_join {key between : List UInt8} (h : derivePath sodium key path = .ok between)
    (hrest : derivePath sodium between rest = .ok child) :
    derivePath sodium key (path ++ rest) = .ok child := by
  rw [derivePath, List.foldlM_append]
  unfold derivePath at h
  rw [h]
  exact hrest

theorem derivePath_within (hwithin : key.Within derivations)
    (hcount : derivations + path.length ≤ 2 ^ 26) (h : derivePath sodium key.key path = .ok child) :
    (Bip32PrivateKey.mk child).Within (derivations + path.length) := by
  induction path generalizing key derivations with
  | nil =>
    cases h
    exact hwithin
  | cons index rest ih =>
    rw [List.length_cons] at hcount
    obtain ⟨next, hnext, hrest⟩ := bind_ok h
    obtain ⟨hnextWithin, -⟩ := derivePrivate_scalar hwithin (by omega) hnext
    have hchild := ih hnextWithin (by omega) hrest
    rw [List.length_cons, show derivations + (rest.length + 1) = derivations + 1 + rest.length by omega]
    exact hchild

/-- Soft indices lead to one public key from the private and from the public side. -/
theorem derivePath_soft [AddCommGroup P] (ed25519 : Ed25519 sodium P)
    (hwithin : key.Within derivations) (hcount : derivations + path.length ≤ 2 ^ 26)
    (hsoft : ∀ index ∈ path, index < 2 ^ 31) :
    ∃ child, derivePath sodium key.key path = .ok child ∧
      path.foldlM (derivePublic sodium) (publicBytes sodium key.key) =
        .ok (publicBytes sodium child) := by
  induction path generalizing key derivations with
  | nil => exact ⟨key.key, rfl, rfl⟩
  | cons index rest ih =>
    rw [List.length_cons] at hcount
    have hindex := hsoft index List.mem_cons_self
    obtain ⟨next, hnext⟩ : ∃ next, derivePrivate sodium key.key index = .ok next :=
      derivePrivate_exists key.key (by omega)
    obtain ⟨hnextWithin, -⟩ := derivePrivate_scalar hwithin (by omega) hnext
    have hpublic := derivePublic_publicBytes ed25519 hwithin (by omega) hindex hnext
    obtain ⟨child, hchild, hderived⟩ := ih hnextWithin (by omega)
      fun index hmem => hsoft index (List.mem_cons_of_mem _ hmem)
    refine ⟨child, ?_, ?_⟩
    · rw [derivePath, List.foldlM_cons, hnext]
      exact hchild
    · rw [List.foldlM_cons, hpublic]
      exact hderived

theorem fromBip39Entropy_eq (sodium : Sodium) (entropy : List UInt8) (password : String) :
    Bip32PrivateKey.fromBip39Entropy sodium entropy password =
        .ok ⟨clampScalar (sodium.pbkdf2 password entropy)⟩ ∧
      (Bip32PrivateKey.mk (clampScalar (sodium.pbkdf2 password entropy))).Within 0 := by
  have hwithin := within_clamped (sodium.length_pbkdf2 password entropy)
  refine ⟨?_, hwithin⟩
  apply if_neg
  exact not_not.mpr hwithin.length

theorem derive_eq_ok {child : Bip32PrivateKey} (h : key.derive sodium path = .ok child) :
    derivePath sodium key.key path = .ok child.key := by
  obtain ⟨bytes, hbytes, hchild⟩ := bind_ok h
  unfold Bip32PrivateKey.fromBytes at hchild
  split at hchild
  · cases hchild
  · cases hchild
    exact hbytes

theorem derive_of_path (h : derivePath sodium key.key path = .ok child)
    (hlength : child.length = 96) : key.derive sodium path = .ok ⟨child⟩ := by
  unfold derivePath at h
  rw [Bip32PrivateKey.derive, h]
  apply if_neg
  exact not_not.mpr hlength

theorem length_publicBytes [AddCommGroup P] (ed25519 : Ed25519 sodium P)
    (hwithin : key.Within derivations) (hcount : derivations ≤ 2 ^ 26) :
    (publicBytes sodium key.key).length = 64 := by
  have hlength := hwithin.length
  rw [publicBytes, List.length_append, encodedPoint ed25519 hwithin hcount, ed25519.length_encode,
    length_slice 64 (by omega)]

theorem toPublic_eq (h : (publicBytes sodium key.key).length = 64) :
    key.toPublic sodium = .ok ⟨publicBytes sodium key.key⟩ := by
  rw [Bip32PrivateKey.toPublic, extendedScalar, List.take_take]
  apply if_neg
  exact not_not.mpr h

theorem derivePublic_hardened (key : List UInt8) {index : ℕ} (hindex : 2 ^ 31 ≤ index) :
    ∃ error, derivePublic sodium key index = .error error := by
  have hhard : isHardenedDerivation index = true := decide_eq_true hindex
  unfold derivePublic
  cases hle : writeUInt32LE index with
  | error error =>
    exact ⟨error, rfl⟩
  | ok le =>
    simp only [hhard]
    exact ⟨_, rfl⟩

end Paths

/-- Keys from entropy: the derivations of the private and of the public key agree, and
the scalar grows within its range. -/
theorem bip32_derivations_agree {sodium : Sodium} {P : Type*} [AddCommGroup P]
    (ed25519 : Ed25519 sodium P) (entropy : List UInt8) (password : String) :
    (∃ root, Bip32PrivateKey.fromBip39Entropy sodium entropy password = .ok root ∧
      ∀ path softPath key, (∀ index ∈ softPath, index < 2 ^ 31) →
        path.length + softPath.length ≤ 2 ^ 26 → root.derive sodium path = .ok key →
        (∃ child parentPublic childPublic, key.derive sodium softPath = .ok child ∧
          child.toPublic sodium = .ok childPublic ∧ key.toPublic sodium = .ok parentPublic ∧
          parentPublic.derive sodium softPath = .ok childPublic ∧ childPublic.key.length = 64) ∧
        (∀ before, before <+: path ++ softPath → ∃ along, root.derive sodium before = .ok along ∧
          8 ∣ along.scalar ∧ 2 ^ 254 ≤ along.scalar ∧ along.scalar < 2 ^ 255) ∧
        ∀ before index, before ++ [index] <+: path ++ softPath → ∃ parent child z,
          root.derive sodium before = .ok parent ∧
          root.derive sodium (before ++ [index]) = .ok child ∧
          z < 2 ^ 224 ∧ child.scalar = parent.scalar + 8 * z) ∧
    ∀ key index, 2 ^ 31 ≤ index → ∃ error, derivePublic sodium key index = .error error := by
  obtain ⟨hroot, hwithin⟩ := fromBip39Entropy_eq sodium entropy password
  refine ⟨⟨_, hroot, ?_⟩, fun key index => derivePublic_hardened key⟩
  intro path softPath key hsoft hcount hkey
  have hpath := derive_eq_ok hkey
  have hkeyWithin := derivePath_within hwithin (by omega) hpath
  obtain ⟨child, hchild, hpublic⟩ := derivePath_soft ed25519 hkeyWithin (by omega) hsoft
  have hchildWithin := derivePath_within hkeyWithin (by omega) hchild
  have hwhole := derivePath_join hpath hchild
  -- every prefix of the whole path leads to a key
  have hinitial : ∀ before, before <+: path ++ softPath → ∃ along,
      derivePath sodium (clampScalar (sodium.pbkdf2 password entropy)) before = .ok along ∧
        (Bip32PrivateKey.mk along).Within before.length ∧ before.length ≤ 2 ^ 26 := by
    intro before hbefore
    obtain ⟨rest, hrest⟩ := hbefore
    rw [← hrest] at hwhole
    obtain ⟨along, halong, -⟩ := derivePath_append hwhole
    have hlength := congrArg List.length hrest
    rw [List.length_append, List.length_append] at hlength
    have halongWithin := derivePath_within hwithin (by omega) halong
    rw [Nat.zero_add] at halongWithin
    exact ⟨along, halong, halongWithin, by omega⟩
  refine ⟨?_, ?_, ?_⟩
  · have hkeyLength := length_publicBytes ed25519 hkeyWithin (by omega)
    have hchildLength := length_publicBytes ed25519 hchildWithin (by omega)
    refine ⟨⟨child⟩, ⟨publicBytes sodium key.key⟩, ⟨publicBytes sodium child⟩,
      derive_of_path hchild hchildWithin.length, toPublic_eq hchildLength, toPublic_eq hkeyLength,
      ?_, hchildLength⟩
    rw [Bip32PublicKey.derive, hpublic]
    apply if_neg
    exact not_not.mpr hchildLength
  · intro before hbefore
    obtain ⟨along, halong, halongWithin, hlength⟩ := hinitial before hbefore
    exact ⟨⟨along⟩, derive_of_path halong halongWithin.length, halongWithin.eight,
      halongWithin.low, halongWithin.lt hlength⟩
  · intro before index hbefore
    obtain ⟨next, hnext, hnextWithin, hlength⟩ := hinitial _ hbefore
    obtain ⟨along, halong, hlast⟩ := derivePath_append hnext
    rw [List.length_append, List.length_singleton] at hlength
    have halongWithin := derivePath_within hwithin (by omega) halong
    obtain ⟨last, hstep, hnone⟩ := bind_ok hlast
    cases hnone
    obtain ⟨-, z, hz, hscalar⟩ := derivePrivate_scalar halongWithin (by omega) hstep
    exact ⟨⟨along⟩, ⟨next⟩, z, derive_of_path halong halongWithin.length,
      derive_of_path hnext hnextWithin.length, hz, hscalar⟩

def residuePoint (p : ZMod 251) : List UInt8 := UInt8.ofNat p.val :: List.replicate 31 0

def residueSodium : Sodium where
  hmacsha512 message _ := List.replicate 64 (message.headD 0)
  length_hmacsha512 _ _ := List.length_replicate
  scalarmultBaseNoclamp scalar := residuePoint ((ofBytesLE scalar % 2 ^ 255 : ℕ) : ZMod 251)
  ed25519Add p q := residuePoint (((p.headD 0).toNat + (q.headD 0).toNat : ℕ) : ZMod 251)
  pbkdf2 _ _ := List.replicate 96 1
  length_pbkdf2 _ _ := List.length_replicate

theorem residuePoint_head (p : ZMod 251) : ((residuePoint p).headD 0).toNat = p.val := by
  have hlt := ZMod.val_lt p
  exact UInt8.toNat_ofNat_of_lt (hlt.trans (by decide))

def residueEd25519 : Ed25519 residueSodium (ZMod 251) where
  base := 1
  encode := residuePoint
  length_encode p := by rw [residuePoint, List.length_cons, List.length_replicate]
  scalarmult scalar _ := by
    rw [nsmul_one]
    rfl
  add p q := by
    change residuePoint _ = _
    rw [residuePoint_head, residuePoint_head, Nat.cast_add, ZMod.natCast_zmod_val,
      ZMod.natCast_zmod_val]

/-- The second external address of the first account, and a hardened index of a public key. -/
theorem bip32_derivations_agree_sample :
    (∃ root account child childPublic accountPublic,
      Bip32PrivateKey.fromBip39Entropy residueSodium [] "" = .ok root ∧
      root.derive residueSodium [2 ^ 31 + 1852, 2 ^ 31 + 1815, 2 ^ 31] = .ok account ∧
      account.derive residueSodium [0, 1] = .ok child ∧
      child.toPublic residueSodium = .ok childPublic ∧
      account.toPublic residueSodium = .ok accountPublic ∧
      accountPublic.derive residueSodium [0, 1] = .ok childPublic) ∧
    ∃ error, derivePublic residueSodium (List.replicate 64 0) (2 ^ 31) = .error error := by
  obtain ⟨⟨root, hroot, hagree⟩, hhardened⟩ := bip32_derivations_agree residueEd25519 [] ""
  refine ⟨?_, hhardened _ _ (le_refl _)⟩
  have hderives : ((Bip32PrivateKey.fromBip39Entropy residueSodium [] "").toOption.bind fun root =>
      (root.derive residueSodium [2 ^ 31 + 1852, 2 ^ 31 + 1815, 2 ^ 31]).toOption).isSome := by
    decide +kernel
  obtain ⟨account, hbind⟩ := Option.isSome_iff_exists.mp hderives
  obtain ⟨root', hroot', haccount⟩ := Option.bind_eq_some_iff.mp hbind
  cases hroot.symm.trans (eq_ok_of_toOption hroot')
  obtain ⟨⟨child, accountPublic, childPublic, hchild, hpublic, haccountPublic, hderived, -⟩, -, -⟩ :=
    hagree _ [0, 1] account (by decide) (by decide) (eq_ok_of_toOption haccount)
  exact ⟨root, account, child, childPublic, accountPublic, hroot, eq_ok_of_toOption haccount, hchild,
    hpublic, haccountPublic, hderived⟩

end CardanoSdk.Crypto
