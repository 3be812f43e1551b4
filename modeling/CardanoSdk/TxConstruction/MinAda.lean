import CardanoSdk.Lib.FixedPoints
import CardanoSdk.Serialization.OutputRoundTrip
import CardanoSdk.Serialization.Resizing

/-!
`minAdaRequired` of `tx-construction/src/fees`. The loop looks for a width of the coin
that its own amount has.
-/

namespace CardanoSdk.TxConstruction

open Lib Cbor Plutus Cardano Serialization

inductive SerializationException where
  | decode (exception : DecodeException)
  | encode (exception : EncodeException)

def minAdaConstantOverhead : ℕ := 160

def serializeBigInt (bigInt : ℤ) : Except SerializationException (List UInt8) :=
  (encodeWith (writeInt bigInt)).mapError fun exception => .encode (.range exception)

def tentativeMinAda (size oldCoinSize latestSize : ℕ) (coinsPerUtxoByte : ℤ) : ℤ :=
  (size + minAdaConstantOverhead + ((latestSize : ℤ) - oldCoinSize)) * coinsPerUtxoByte

section Output

variable {CoreScript Script : Type} (text : TextEncodings) (script : Codec CoreScript Script)

def serializeTxOutputSize (output : TxOut CoreScript) : Except SerializationException ℕ := do
  let object ← (TransactionOutput.fromCore text script output).mapError .decode
  let cbor ← (object.toCbor text script).mapError .encode
  return cbor.length

/-- The size that the coin would have, if it were the least for the latest size. -/
def newCoinSize (output : TxOut CoreScript) (coinsPerUtxoByte : ℤ) (oldCoinSize latestSize : ℕ) :
    Except SerializationException ℕ := do
  let size ← serializeTxOutputSize text script output
  let coin ← serializeBigInt (tentativeMinAda size oldCoinSize latestSize coinsPerUtxoByte)
  return coin.length

def minAdaRequired (rounds : ℕ) (output : TxOut CoreScript) (coinsPerUtxoByte : ℤ) :
    Except SerializationException (Option ℤ) := do
  let oldCoin ← serializeBigInt output.value.coins
  let latestSize ← untilStable (newCoinSize text script output coinsPerUtxoByte oldCoin.length)
    rounds oldCoin.length
  match latestSize with
  | none => return none
  | some latestSize =>
    let size ← serializeTxOutputSize text script output
    return some (tentativeMinAda size oldCoin.length latestSize coinsPerUtxoByte)

end Output

def coinSizeAfter (size oldCoinSize : ℕ) (coinsPerUtxoByte : ℤ) (latestSize : ℕ) : ℕ :=
  (encodeInt (tentativeMinAda size oldCoinSize latestSize coinsPerUtxoByte)).length

def coinSizes (size oldCoinSize : ℕ) (coinsPerUtxoByte : ℤ) (k : ℕ) : ℕ :=
  (coinSizeAfter size oldCoinSize coinsPerUtxoByte)^[k] oldCoinSize

theorem length_encodeInt_le (value : ℤ) : (encodeInt value).length ≤ 9 := by
  unfold encodeInt
  split
  · exact length_encodeHead_le _ _
  · exact length_encodeHead_le _ _

theorem length_encodeInt_mono {value value' : ℤ} (hvalue : 0 ≤ value) (h : value ≤ value') :
    (encodeInt value).length ≤ (encodeInt value').length := by
  unfold encodeInt
  rw [if_neg (by omega), if_neg (by omega)]
  exact length_encodeHead_mono _ (by omega)

theorem serializeBigInt_ok {bigInt : ℤ} (h : -(2 ^ 64) ≤ bigInt ∧ bigInt < 2 ^ 64) :
    serializeBigInt bigInt = .ok (encodeInt bigInt) := by
  unfold serializeBigInt
  rw [encodeWith_ok (writes_int h.1 h.2)]
  rfl

theorem coinSizes_le {size oldCoinSize : ℕ} (hold : oldCoinSize ≤ 9) (coinsPerUtxoByte : ℤ)
    (k : ℕ) : coinSizes size oldCoinSize coinsPerUtxoByte k ≤ 9 := by
  cases k with
  | zero => exact hold
  | succ k =>
    unfold coinSizes
    rw [Function.iterate_succ_apply']
    exact length_encodeInt_le _

section Width

variable {size oldCoinSize : ℕ} {coinsPerUtxoByte : ℤ}

theorem tentativeMinAda_mono (hprice : 0 < coinsPerUtxoByte) {latestSize latestSize' : ℕ}
    (h : latestSize ≤ latestSize') :
    tentativeMinAda size oldCoinSize latestSize coinsPerUtxoByte ≤
      tentativeMinAda size oldCoinSize latestSize' coinsPerUtxoByte := by
  unfold tentativeMinAda
  exact mul_le_mul_of_nonneg_right (by omega) hprice.le

theorem tentativeMinAda_pos (hprice : 0 < coinsPerUtxoByte) (hold : oldCoinSize ≤ size + 1)
    (latestSize : ℕ) : 0 < tentativeMinAda size oldCoinSize latestSize coinsPerUtxoByte := by
  unfold tentativeMinAda minAdaConstantOverhead
  exact mul_pos (by omega) hprice

theorem monotone_coinSizeAfter (hprice : 0 < coinsPerUtxoByte) (hold : oldCoinSize ≤ size + 1) :
    Monotone (coinSizeAfter size oldCoinSize coinsPerUtxoByte) := by
  intro latestSize latestSize' h
  exact length_encodeInt_mono (tentativeMinAda_pos hprice hold latestSize).le
    (tentativeMinAda_mono hprice h)

/-- An amount that holds itself suffices exactly if the amount for the width
of the coin does: from there the widths only move away from the coin. -/
theorem tentativeMinAda_le_iff (hprice : 0 < coinsPerUtxoByte) (hold : oldCoinSize ≤ size + 1)
    {coins : ℤ} (hcoins : (encodeInt coins).length = oldCoinSize) (k : ℕ) :
    tentativeMinAda size oldCoinSize (coinSizes size oldCoinSize coinsPerUtxoByte k)
        coinsPerUtxoByte ≤ coins ↔
      tentativeMinAda size oldCoinSize oldCoinSize coinsPerUtxoByte ≤ coins := by
  have hmono := monotone_coinSizeAfter hprice hold
  have hpos := tentativeMinAda_pos hprice hold oldCoinSize
  constructor
  · intro hsuffices
    by_contra hless
    have hlatest := tentativeMinAda_pos hprice hold (coinSizes size oldCoinSize coinsPerUtxoByte k)
    -- the coin is no wider than the amount, so the widths move up
    have hup : oldCoinSize ≤ coinSizeAfter size oldCoinSize coinsPerUtxoByte oldCoinSize := by
      have hwidth := length_encodeInt_mono (show 0 ≤ coins by omega) (le_of_not_ge hless)
      rwa [hcoins] at hwidth
    have hrisen : oldCoinSize ≤ coinSizes size oldCoinSize coinsPerUtxoByte k :=
      le_iterate_of_le_map hmono hup k
    exact hless ((tentativeMinAda_mono hprice hrisen).trans hsuffices)
  · intro hsuffices
    -- the amount is no wider than the coin, so the widths move down
    have hdown : coinSizeAfter size oldCoinSize coinsPerUtxoByte oldCoinSize ≤ oldCoinSize := by
      have hwidth := length_encodeInt_mono hpos.le hsuffices
      rwa [hcoins] at hwidth
    have hfallen : coinSizes size oldCoinSize coinsPerUtxoByte k ≤ oldCoinSize :=
      iterate_le_of_map_le hmono hdown k
    exact (tentativeMinAda_mono hprice hfallen).trans hsuffices

end Width

section Coin

variable {CoreScript Script : Type} {text : TextEncodings} {script : Codec CoreScript Script}
  {output : TxOut CoreScript}

def withCoins (output : TxOut CoreScript) (coins : ℤ) : TxOut CoreScript :=
  { output with value := { output.value with coins := coins } }

theorem newValue_coin {coin : ℤ} {multiasset : Option InputSelection.TokenMap} {value : Value}
    (h : newValue coin multiasset = .ok value) (coin' : ℤ) :
    newValue coin' multiasset = .ok { value with coin := coin' } ∧ value.coin = coin ∧
      value.originalBytes = none := by
  unfold newValue at h ⊢
  cases hpresent : nonEmpty multiasset with
  | none =>
    rw [hpresent] at h
    cases h
    exact ⟨rfl, rfl, rfl⟩
  | some tokens =>
    rw [hpresent] at h
    obtain ⟨multiassets, hsplit, hrest⟩ := bind_ok h
    obtain ⟨sorted, hjoin, hvalue⟩ := bind_ok hrest
    cases hvalue
    refine ⟨?_, rfl, rfl⟩
    dsimp only
    rw [hsplit]
    change (multiAssetsToTokenMap (sortMap multiassets) >>= _) = _
    rw [hjoin]
    rfl

theorem fromCore_withCoins {object : TransactionOutput Script}
    (h : TransactionOutput.fromCore text script output = .ok object) (coins : ℤ) :
    TransactionOutput.fromCore text script (withCoins output coins) =
        .ok (object.withCoin coins) ∧
      object.amount.coin = output.value.coins ∧ object.originalBytes = none ∧
      object.amount.originalBytes = none := by
  unfold TransactionOutput.fromCore at h ⊢
  rw [show (withCoins output coins).address = output.address from rfl]
  cases haddress : AddressProps.fromString text output.address with
  | none =>
    rw [haddress] at h
    cases h
  | some address =>
    rw [haddress] at h
    obtain ⟨amount, hamount, hrest⟩ := bind_ok h
    obtain ⟨datum, hdatum, hscript⟩ := bind_ok hrest
    obtain ⟨scriptRef, hscriptRef, hobject⟩ := bind_ok hscript
    cases hobject
    have hvalue : newValue output.value.coins output.value.assets = .ok amount :=
      mapError_eq_ok_iff.mp hamount
    obtain ⟨hcoins, hcoin, horiginal⟩ := newValue_coin hvalue coins
    refine ⟨?_, hcoin, rfl, horiginal⟩
    dsimp only
    rw [show Value.fromCore (withCoins output coins).value = _ from hcoins]
    change (datumFromCore output.datum output.datumHash >>= _) = _
    rw [hdatum]
    change (output.scriptReference.mapM script.fromCore >>= _) = _
    rw [hscriptRef]
    rfl

/-- An output that has a size has one with any other coin: the width of the
coin is what changes. -/
theorem serializeTxOutputSize_withCoins {size : ℕ}
    (hsize : serializeTxOutputSize text script output = .ok size) {coins : ℤ}
    (hcoins : -(2 ^ 64) ≤ coins ∧ coins < 2 ^ 64) :
    ∃ size' : ℕ, serializeTxOutputSize text script (withCoins output coins) = .ok size' ∧
      (size' : ℤ) = size + coinResize output.value.coins coins := by
  obtain ⟨object, hobject, hrest⟩ := bind_ok hsize
  obtain ⟨cbor, hcbor, hlength⟩ := bind_ok hrest
  cases hlength
  obtain ⟨hobject', hcoin, horiginal, hamount⟩ := fromCore_withCoins (mapError_eq_ok_iff.mp hobject) coins
  obtain ⟨cbor', hcbor', hresized⟩ :=
    resizesTo_output horiginal hamount hcoins cbor (mapError_eq_ok_iff.mp hcbor)
  refine ⟨cbor'.length, ?_, hcoin ▸ hresized⟩
  unfold serializeTxOutputSize
  rw [hobject']
  change ((object.withCoin coins).toCbor text script).mapError SerializationException.encode >>= _ = _
  rw [hcbor']
  rfl

theorem coins_of_serializeTxOutputSize {size : ℕ}
    (hsize : serializeTxOutputSize text script output = .ok size) :
    -(2 ^ 64) ≤ output.value.coins ∧ output.value.coins < 2 ^ 64 := by
  obtain ⟨object, hobject, hrest⟩ := bind_ok hsize
  obtain ⟨cbor, hcbor, _⟩ := bind_ok hrest
  obtain ⟨_, hcoin, horiginal, hamount⟩ :=
    fromCore_withCoins (mapError_eq_ok_iff.mp hobject) output.value.coins
  rw [← hcoin]
  exact coin_of_output horiginal hamount (mapError_eq_ok_iff.mp hcbor)

/-- Where an output has a size and no product leaves 64 bits, the loop ends
after ten rounds at most. The result is the price of the output that has it as
its coin, and the coin reaches it exactly if it pays for the output as it is. -/
theorem minAdaRequired_exact {size : ℕ} {coinsPerUtxoByte : ℤ} (hprice : 0 < coinsPerUtxoByte)
    (hsize : serializeTxOutputSize text script output = .ok size)
    (hproducts : ∀ k, tentativeMinAda size (encodeInt output.value.coins).length
      (coinSizes size (encodeInt output.value.coins).length coinsPerUtxoByte k)
      coinsPerUtxoByte < 2 ^ 64) :
    ∃ (minAda : ℤ) (size' : ℕ),
      (∀ rounds > 9, minAdaRequired text script rounds output coinsPerUtxoByte =
        .ok (some minAda)) ∧
      serializeTxOutputSize text script (withCoins output minAda) = .ok size' ∧
      minAda = (160 + size') * coinsPerUtxoByte ∧
      (minAda ≤ output.value.coins ↔ (160 + size) * coinsPerUtxoByte ≤ output.value.coins) := by
  have hcoins := coins_of_serializeTxOutputSize hsize
  generalize hold : (encodeInt output.value.coins).length = oldCoinSize at hproducts
  -- with the coin zero the output would still have a size
  have hpart : oldCoinSize ≤ size + 1 := by
    obtain ⟨sizeOfZero, _, hzero⟩ :=
      @serializeTxOutputSize_withCoins _ _ _ _ _ _ hsize 0 ⟨by norm_num, by norm_num⟩
    have hwidth : (encodeInt 0).length = 1 := by decide
    unfold coinResize at hzero
    omega
  have hrange (latestSize : ℕ)
      (hproduct : tentativeMinAda size oldCoinSize latestSize coinsPerUtxoByte < 2 ^ 64) :
      -(2 ^ 64) ≤ tentativeMinAda size oldCoinSize latestSize coinsPerUtxoByte ∧
        tentativeMinAda size oldCoinSize latestSize coinsPerUtxoByte < 2 ^ 64 := by
    have hpos := tentativeMinAda_pos hprice hpart latestSize
    exact ⟨by omega, hproduct⟩
  have hround (k : ℕ) : newCoinSize text script output coinsPerUtxoByte oldCoinSize
      (coinSizes size oldCoinSize coinsPerUtxoByte k) = .ok (coinSizeAfter size oldCoinSize
        coinsPerUtxoByte (coinSizes size oldCoinSize coinsPerUtxoByte k)) := by
    unfold newCoinSize
    rw [hsize]
    change (serializeBigInt _ >>= _) = _
    rw [serializeBigInt_ok (hrange _ (hproducts k))]
    rfl
  obtain ⟨k, hkept, hends⟩ := untilStable_monotone (monotone_coinSizeAfter hprice hpart)
    (fun _ => length_encodeInt_le _) (hold ▸ length_encodeInt_le _) hround
  have hiff := tentativeMinAda_le_iff hprice hpart hold k
  have hproduct := hproducts k
  change coinSizeAfter size oldCoinSize coinsPerUtxoByte
    (coinSizes size oldCoinSize coinsPerUtxoByte k) = coinSizes size oldCoinSize coinsPerUtxoByte k
    at hkept
  change ∀ rounds > 9, untilStable _ rounds oldCoinSize =
    .ok (some (coinSizes size oldCoinSize coinsPerUtxoByte k)) at hends
  generalize coinSizes size oldCoinSize coinsPerUtxoByte k = latestSize
    at hkept hends hiff hproduct
  obtain ⟨size', hsize', hresized⟩ :=
    serializeTxOutputSize_withCoins hsize (hrange latestSize hproduct)
  refine ⟨tentativeMinAda size oldCoinSize latestSize coinsPerUtxoByte, size', ?_, hsize', ?_, ?_⟩
  · intro rounds hrounds
    unfold minAdaRequired
    rw [serializeBigInt_ok hcoins]
    change (untilStable (newCoinSize text script output coinsPerUtxoByte
      (encodeInt output.value.coins).length) rounds (encodeInt output.value.coins).length >>= _) = _
    rw [hold, hends rounds hrounds]
    change (serializeTxOutputSize text script output >>= _) = _
    rw [hsize, ← hold]
    rfl
  · -- the width of the result is the width that it was computed for
    have hwidth : ((encodeInt (tentativeMinAda size oldCoinSize latestSize
        coinsPerUtxoByte)).length : ℤ) = latestSize := congrArg Nat.cast hkept
    unfold coinResize at hresized
    rw [hwidth, hold] at hresized
    rw [hresized]
    unfold tentativeMinAda minAdaConstantOverhead
    push_cast
    ring
  · rw [hiff]
    unfold tentativeMinAda minAdaConstantOverhead
    rw [sub_self, add_zero, add_comm (size : ℤ)]
    rfl

/-- An output with a datum of one byte, at the price of the main network. -/
theorem minAdaRequired_exact_one : ∃ (minAda : ℤ) (size' : ℕ),
    (∀ rounds > 9, minAdaRequired enterpriseEncodings noScripts rounds
      (outputWithDatum (.integer 1)) 4310 = .ok (some minAda)) ∧
    serializeTxOutputSize enterpriseEncodings noScripts
      (withCoins (outputWithDatum (.integer 1)) minAda) = .ok size' ∧
    minAda = (160 + size') * 4310 ∧
    (minAda ≤ (outputWithDatum (.integer 1)).value.coins ↔
      (160 + (46 : ℕ)) * 4310 ≤ (outputWithDatum (.integer 1)).value.coins) := by
  refine minAdaRequired_exact (by norm_num) rfl fun k => ?_
  have hwidth := @coinSizes_le 46 5 (by norm_num) 4310 k
  exact (tentativeMinAda_mono (by norm_num) hwidth).trans_lt (by decide)

end Coin

end CardanoSdk.TxConstruction
