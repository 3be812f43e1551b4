import CardanoSdk.Serialization.Codec
import CardanoSdk.Serialization.MultiAsset

/-!
`Value` of `core/src/Serialization/TransactionBody`: a coin, alone or with the quantities
of tokens.
-/

namespace CardanoSdk.Serialization

open Lib Cbor Plutus Cardano
open InputSelection (AssetId TokenMap)

structure Value where
  coin : ℤ
  multiasset : Option TokenMap := none
  originalBytes : Option (List UInt8) := none

/-- An empty token map counts as none. -/
def nonEmpty : Option TokenMap → Option TokenMap
  | some multiasset => if multiasset.size > 0 then some multiasset else none
  | none => none

def newValue (coin : ℤ) (multiasset : Option TokenMap) : Except String Value :=
  match nonEmpty multiasset with
  | some multiasset => do
      let multiassets ← tokenMapToMultiAsset multiasset
      let sorted ← multiAssetsToTokenMap (sortMap multiassets)
      return { coin := coin, multiasset := some sorted }
  | none => .ok { coin := coin }

def valueArraySize : ℕ := 2

def Value.toCbor (value : Value) : Except EncodeException (List UInt8) :=
  match truthy value.originalBytes with
  | some cbor => .ok cbor
  | none =>
    match nonEmpty value.multiasset with
    | none => encodeAsHex (writing (writeInt value.coin))
    | some multiasset => encodeAsHex do
        writing (writeStartArray (some valueArraySize))
        writing (writeInt value.coin)
        let multiassets ← encoding ((tokenMapToMultiAsset multiasset).mapError .error)
        writing (writeMultiAsset multiassets)

def readQuantity : DecodeM ℤ := do
  let quantity ← reading readUInt
  pure (quantity : ℤ)

def Value.fromCbor (cbor : List UInt8) : Except DecodeException Value :=
  decodeWith cbor do
    let state ← reading peekState
    if state = .unsignedInteger then
      let coins ← reading readUInt
      checking (newValue coins none)
    else
      let length ← reading readStartArray
      if length ≠ some valueArraySize then throw (unexpectedLength valueArraySize length)
      else
        let coins ← reading readUInt
        let multiassets ← readMultiAsset readQuantity cbor.length
        let tokenMap ← checking (multiAssetsToTokenMap multiassets)
        let value ← checking (newValue coins (some (sortMap tokenMap)))
        pure { value with originalBytes := some cbor }

def Value.toCore (value : Value) : InputSelection.Value where
  coins := value.coin
  assets := value.multiasset

def Value.fromCore (coreValue : InputSelection.Value) : Except String Value :=
  newValue coreValue.coins coreValue.assets

def tokenEntries : Option TokenMap → List (AssetId × ℤ)
  | some multiasset => multiasset.entries
  | none => []

theorem tokenEntries_nonEmpty (multiasset : Option TokenMap) :
    tokenEntries (nonEmpty multiasset) = tokenEntries multiasset := by
  cases multiasset with
  | none => rfl
  | some multiasset =>
    rw [nonEmpty]
    split
    · rfl
    · rename_i hempty
      exact (List.length_eq_zero_iff.mp (Nat.eq_zero_of_not_pos hempty)).symm

structure Holds (value : Value) (coin : ℤ) (tokens : List (AssetId × ℤ)) : Prop where
  coin : value.coin = coin
  tokens : (tokenEntries value.multiasset).Perm tokens

theorem newValue_ok (coin : ℤ) {multiasset : Option TokenMap}
    (hids : ∀ token ∈ tokenEntries multiasset, ValidId token.1) :
    ∃ value, newValue coin multiasset = .ok value ∧ value.originalBytes = none ∧
      Holds value coin (tokenEntries multiasset) := by
  have htokens := tokenEntries_nonEmpty multiasset
  unfold newValue
  cases hpresent : nonEmpty multiasset with
  | none =>
    rw [hpresent] at htokens
    exact ⟨_, rfl, rfl, rfl, htokens ▸ List.Perm.refl _⟩
  | some tokenMap =>
    rw [hpresent] at htokens
    rw [← htokens] at hids ⊢
    have hkeys : ∀ id ∈ tokenMap.keys, ValidId id := by
      intro id hid
      obtain ⟨token, htoken, rfl⟩ := List.mem_map.mp hid
      exact hids token htoken
    obtain ⟨multiassets, hsplit, hsplits⟩ := tokenMapToMultiAsset_ok hkeys
    have hperm := hsplits.sortMap.perm
    obtain ⟨sorted, hjoin, hentries⟩ := multiAssetsToTokenMap_ok
      (fun token htoken => hids token (hperm.mem_iff.mp htoken))
      ((hperm.map Prod.fst).nodup_iff.mpr tokenMap.nodup)
    refine ⟨{ coin := coin, multiasset := some sorted }, ?_, rfl, rfl, ?_⟩
    · dsimp only
      rw [hsplit]
      change (multiAssetsToTokenMap (sortMap multiassets) >>= _) = _
      rw [hjoin]
      rfl
    · rw [tokenEntries, hentries]
      exact hperm

structure ValidValue (coin : ℤ) (tokens : List (AssetId × ℤ)) : Prop where
  coin : 0 ≤ coin ∧ coin < 2 ^ 64
  quantities : ∀ token ∈ tokens, 0 ≤ token.2
  tokens : ValidTokens tokens

section RoundTrip

variable {coin : ℤ} {tokens : List (AssetId × ℤ)}

theorem readsItem_quantity {quantity : ℤ} (hlower : 0 ≤ quantity) (hupper : quantity < 2 ^ 64) :
    ReadsItem readQuantity (encodeInt quantity) quantity := by
  obtain ⟨number, rfl⟩ := Int.eq_ofNat_of_zero_le hlower
  exact (readsItem_uint (by omega)).map fun _ => rfl

theorem fromCbor_coin (hlower : 0 ≤ coin) (hupper : coin < 2 ^ 64)
    (hlength : (encodeInt coin).length < 2 ^ 53) :
    Value.fromCbor (encodeInt coin) = .ok { coin := coin } := by
  obtain ⟨number, rfl⟩ := Int.eq_ofNat_of_zero_le hlower
  have hencode : encodeInt (number : ℤ) = encodeHead .unsignedInteger number := by
    rw [encodeInt, if_neg (by omega), Int.toNat_natCast]
  have hbegins := @begins_encodeHead .unsignedInteger (by decide) number (by omega) []
  rw [List.append_nil, ← hencode] at hbegins
  exact decodeWith_peek hbegins hlength fun reader hbytes haccepts =>
    ⟨_, run_bind_ok (readsItem_uint (by omega) reader [] hbytes haccepts)⟩

def valueBytes (coin : ℤ) (multiassets : MultiAsset) : List UInt8 :=
  encodeHead .array valueArraySize ++ (encodeInt coin ++ multiAssetBytes multiassets)

variable {multiassets : MultiAsset}

theorem dataItem_valueBytes (hvalid : ValidValue coin tokens)
    (hsplits : Splits tokens multiassets) : DataItem (valueBytes coin multiassets) := by
  have hlower := hvalid.coin.1
  have hcoin := dataItem_encodeInt (show -(2 ^ 64) ≤ coin by omega) hvalid.coin.2
  have hitems := Items.cons hcoin
    (Items.cons (dataItem_multiAsset hsplits hvalid.tokens) Items.nil)
  rw [List.append_nil] at hitems
  exact DataItem.array (head_encodeHead .array (by decide)) hitems

theorem fromCbor_tokens (hvalid : ValidValue coin tokens) (hnodup : (tokens.map Prod.fst).Nodup)
    (hsplits : Splits tokens multiassets)
    (hlength : (valueBytes coin multiassets).length < 2 ^ 53) :
    ∃ value, Value.fromCbor (valueBytes coin multiassets) = .ok value ∧ Holds value coin tokens := by
  obtain ⟨number, rfl⟩ := Int.eq_ofNat_of_zero_le hvalid.coin.1
  have hcoin := hvalid.coin.2
  have henough : (multiAssetBytes multiassets).length ≤ (valueBytes number multiassets).length := by
    rw [valueBytes, List.length_append, List.length_append]
    omega
  obtain ⟨result, hread, hresult⟩ := readsItem_multiAsset hsplits hvalid.tokens hnodup
    (fun token htoken => readsItem_quantity (hvalid.quantities token htoken)
      (hvalid.tokens.quantities token htoken).2) henough
  obtain ⟨tokenMap, hjoin, hentries⟩ := multiAssetsToTokenMap_ok
    (fun token htoken => hvalid.tokens.ids token (hresult.mem_iff.mp htoken))
    ((hresult.map Prod.fst).nodup_iff.mpr hnodup)
  have hsorted : (sortMap tokenMap).entries.Perm tokens := by
    have hperm := perm_sortMap tokenMap
    rw [hentries] at hperm
    exact hperm.trans hresult
  obtain ⟨value, hvalue, _, hholds⟩ := @newValue_ok number (some (sortMap tokenMap))
    fun token htoken => hvalid.tokens.ids token (hsorted.mem_iff.mp htoken)
  refine ⟨{ value with originalBytes := some (valueBytes number multiassets) }, ?_,
    hholds.coin, hholds.tokens.trans hsorted⟩
  have hbegins := @begins_encodeHead .array (by decide) valueArraySize (by decide)
    (encodeInt number ++ multiAssetBytes multiassets)
  refine decodeWith_peek hbegins hlength fun reader hbytes haccepts => ?_
  rw [if_neg (by decide)]
  refine succeeds_array (by decide) hbytes haccepts ?_
  rw [if_neg (by simp)]
  change Reads (reading readUInt >>= _) (1 + 1) _ _
  have hnumber : ReadsItem (reading readUInt) (encodeInt number) number :=
    readsItem_uint (by omega)
  apply hnumber.bind
  apply hread.last
  intro reader
  rw [run_bind_ok (checking_ok hjoin), run_bind_ok (checking_ok hvalue)]
  rfl

theorem value_round_trip {value : Value} (horiginal : value.originalBytes = none)
    (hvalid : ValidValue value.coin (tokenEntries value.multiasset)) :
    ∃ cbor, value.toCbor = .ok cbor ∧ DataItem cbor ∧
      (cbor.length < 2 ^ 53 → ∃ decoded, Value.fromCbor cbor = .ok decoded ∧
        Holds decoded value.coin (tokenEntries value.multiasset)) := by
  have hlower := hvalid.coin.1
  have hupper := hvalid.coin.2
  have htokens := tokenEntries_nonEmpty value.multiasset
  have hwritten := writes_int (show -(2 ^ 64) ≤ value.coin by omega) hupper
  have huncached : truthy value.originalBytes = none := by rw [horiginal]; rfl
  unfold Value.toCbor
  rw [huncached]
  cases hpresent : nonEmpty value.multiasset with
  | none =>
    rw [hpresent] at htokens
    rw [← htokens]
    refine ⟨encodeInt value.coin, encodeAsHex_ok (encodes_writing hwritten),
      dataItem_encodeInt (by omega) hupper, fun hlength => ?_⟩
    exact ⟨_, fromCbor_coin hlower hupper hlength, rfl, List.Perm.refl _⟩
  | some tokenMap =>
    rw [hpresent] at htokens
    rw [← htokens] at hvalid ⊢
    have hkeys : ∀ id ∈ tokenMap.keys, ValidId id := by
      intro id hid
      obtain ⟨token, htoken, rfl⟩ := List.mem_map.mp hid
      exact hvalid.tokens.ids token htoken
    obtain ⟨multiassets, hsplit, hsplits⟩ := tokenMapToMultiAsset_ok hkeys
    have hsorted := hsplits.sortMap
    refine ⟨valueBytes value.coin (sortMap multiassets), encodeAsHex_ok ?_,
      dataItem_valueBytes hvalid hsorted,
      fromCbor_tokens hvalid tokenMap.nodup hsorted⟩
    have harray := @writes_startArray valueArraySize (by decide)
    refine Encodes.write harray (Encodes.write hwritten ?_)
    rw [hsplit]
    exact Encodes.encode rfl (encodes_writing (writes_multiAsset hsplits hvalid.tokens))

end RoundTrip

end CardanoSdk.Serialization
