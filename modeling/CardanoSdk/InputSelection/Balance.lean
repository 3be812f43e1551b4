import CardanoSdk.InputSelection.Change

/-!
The total amount of every token, lovelace or asset, in a list of values. The operations of
the selectors are stated by what they do to these totals.
-/

namespace CardanoSdk.InputSelection

open Lib

def Value.amount (value : Value) : TokenKind → ℤ
  | .lovelace => value.coins
  | .asset id => assetsQuantity value.assets id

def total (token : TokenKind) (values : List Value) : ℤ :=
  (values.map (fun value => value.amount token)).sum

theorem total_lovelace (values : List Value) : total .lovelace values = getCoinQuantity values :=
  rfl

theorem total_asset (id : AssetId) (values : List Value) :
    total (.asset id) values = assetQuantitySelector id values := rfl

@[simp] theorem total_nil (token : TokenKind) : total token [] = 0 := rfl

@[simp] theorem total_cons (token : TokenKind) (value : Value) (values : List Value) :
    total token (value :: values) = value.amount token + total token values := rfl

@[simp] theorem total_append (token : TokenKind) (xs ys : List Value) :
    total token (xs ++ ys) = total token xs + total token ys := by
  simp [total]

theorem total_perm {xs ys : List Value} (h : xs.Perm ys) (token : TokenKind) :
    total token xs = total token ys :=
  (h.map _).sum_eq

def Value.Nonneg (value : Value) : Prop := ∀ token, 0 ≤ value.amount token

theorem Value.nonneg_iff {value : Value} :
    value.Nonneg ↔ 0 ≤ value.coins ∧ ∀ m ∈ value.assets, m.All (fun q => 0 ≤ q) := by
  constructor
  · intro h
    refine ⟨h .lovelace, ?_⟩
    intro m hm entry hentry
    have hid := h (.asset entry.1)
    have hget : m.get? entry.1 = some entry.2 := JsMap.get?_eq_some_iff.mpr hentry
    simpa [Value.amount, Option.mem_def.mp hm, assetsQuantity, JsMap.quantity, hget] using hid
  · rintro ⟨hcoins, hassets⟩ token
    cases token with
    | lovelace => exact hcoins
    | asset id =>
      cases hmap : value.assets with
      | none => simp [Value.amount, hmap, assetsQuantity]
      | some m =>
        simpa [Value.amount, hmap, assetsQuantity] using
          (hassets m hmap).quantity le_rfl id

instance (value : Value) : Decidable value.Nonneg := decidable_of_iff _ Value.nonneg_iff.symm

variable {values : List Value}

theorem total_nonneg (h : ∀ value ∈ values, value.Nonneg) (token : TokenKind) :
    0 ≤ total token values := by
  apply List.sum_nonneg
  intro amount hamount
  obtain ⟨value, hvalue, rfl⟩ := List.mem_map.mp hamount
  exact h value hvalue token

theorem assetsQuantity_coalesceTokenMaps (totals : List (Option TokenMap)) (id : AssetId) :
    assetsQuantity (coalesceTokenMaps totals) id =
      (totals.map (fun assets => assetsQuantity assets id)).sum := by
  have hfold (acc : TokenMap) :
      ((totals.filterMap (fun t => t)).foldl
        (fun acc assetTotals => acc.addEntries assetTotals.entries) acc).quantity id =
        acc.quantity id + (totals.map (fun assets => assetsQuantity assets id)).sum := by
    induction totals generalizing acc with
    | nil => simp
    | cons assets rest ih =>
      cases assets with
      | none => simpa [assetsQuantity] using ih acc
      | some m =>
        simp only [List.filterMap_cons, List.foldl_cons, List.map_cons, List.sum_cons]
        rw [ih, JsMap.quantity_addEntries_map]
        simp only [assetsQuantity]
        omega
  have hresult := hfold JsMap.empty
  simp only [JsMap.quantity_empty, zero_add] at hresult
  unfold coalesceTokenMaps
  dsimp only
  split
  · rename_i hsize
    rw [JsMap.size_eq_zero_iff.mp hsize, JsMap.quantity_empty] at hresult
    simpa [assetsQuantity] using hresult
  · simpa [assetsQuantity] using hresult

theorem amount_coalesceValueQuantities (values : List Value) (token : TokenKind) :
    (coalesceValueQuantities values).amount token = total token values := by
  cases token with
  | lovelace => rfl
  | asset id =>
    simp only [Value.amount, coalesceValueQuantities, assetsQuantity_coalesceTokenMaps,
      List.map_map, Function.comp_def]
    rfl

theorem coalesceValueQuantities_nonneg (h : ∀ value ∈ values, value.Nonneg) :
    (coalesceValueQuantities values).Nonneg := by
  intro token
  rw [amount_coalesceValueQuantities]
  exact total_nonneg h token

/-- The three loops of `addTokenMaps` and `subtractTokenMaps`: keys of the left
map alone, of the right map alone, and of both. -/
private theorem quantity_threeLoops (l r : TokenMap) (signed : ℤ → ℤ)
    (combine : AssetId → ℤ) (hzero : signed 0 = 0)
    (hcombine : ∀ id, combine id = l.quantity id + signed (r.quantity id)) (id : AssetId) :
    (((JsMap.empty.setAll l.keys (fun key =>
        if r.has key ∨ l.quantity key = 0 then none else some (l.quantity key))).setAll r.keys
      (fun key => if l.has key ∨ r.quantity key = 0 then none
        else some (signed (r.quantity key)))).setAll
      (uniq (l.keys.filter r.has ++ r.keys.filter l.has))
      (fun key => if combine key ≠ 0 then some (combine key) else none)).quantity id =
      combine id := by
  have hl := @JsMap.has_iff _ _ _ l id
  have hr := @JsMap.has_iff _ _ _ r id
  simp only [JsMap.quantity_setAll, JsMap.quantity_empty, mem_uniq, List.mem_append,
    List.mem_filter]
  by_cases hleft : id ∈ l.keys <;> by_cases hright : id ∈ r.keys
  · by_cases hsum : combine id = 0 <;> simp [hleft, hright, hl, hr, hsum]
  · have hq : r.quantity id = 0 := JsMap.quantity_of_not_mem hright
    have hsum := hcombine id
    rw [hq, hzero] at hsum
    by_cases hlq : l.quantity id = 0 <;> simp_all
  · have hq : l.quantity id = 0 := JsMap.quantity_of_not_mem hleft
    have hsum := hcombine id
    rw [hq] at hsum
    by_cases hrq : r.quantity id = 0 <;> simp_all
  · have hlq : l.quantity id = 0 := JsMap.quantity_of_not_mem hleft
    have hrq : r.quantity id = 0 := JsMap.quantity_of_not_mem hright
    have hsum := hcombine id
    rw [hlq, hrq, hzero] at hsum
    simp [hleft, hright, hsum]

@[simp] theorem assetsQuantity_addTokenMaps (lhs rhs : Option TokenMap) (id : AssetId) :
    assetsQuantity (addTokenMaps lhs rhs) id = assetsQuantity lhs id + assetsQuantity rhs id := by
  cases lhs with
  | none => simp [addTokenMaps, assetsQuantity]
  | some l =>
    cases rhs with
    | none => simp [addTokenMaps, assetsQuantity]
    | some r =>
      exact quantity_threeLoops l r (fun q => q) (fun id => l.quantity id + r.quantity id)
        rfl (fun _ => rfl) id

@[simp] theorem assetsQuantity_subtractTokenMaps (lhs rhs : Option TokenMap) (id : AssetId) :
    assetsQuantity (subtractTokenMaps lhs rhs) id =
      assetsQuantity lhs id - assetsQuantity rhs id := by
  cases lhs with
  | none =>
    cases rhs with
    | none => simp [subtractTokenMaps, assetsQuantity]
    | some r =>
      simp only [subtractTokenMaps, assetsQuantity, JsMap.quantity_mapValues_neg,
        JsMap.quantity_filter]
      by_cases hq : r.quantity id = 0 <;> simp [hq]
  | some l =>
    cases rhs with
    | none =>
      simp only [subtractTokenMaps, assetsQuantity, JsMap.quantity_filter]
      by_cases hq : l.quantity id = 0 <;> simp [hq]
    | some r =>
      exact quantity_threeLoops l r (fun q => -q) (fun id => l.quantity id - r.quantity id)
        (by simp) (fun _ => by ring) id

theorem hasNegativeAssetValue_eq_false_of_nonneg {assets : Option TokenMap}
    (h : ∀ id, 0 ≤ assetsQuantity assets id) : hasNegativeAssetValue assets = false := by
  cases assets with
  | none => rfl
  | some m =>
    refine List.any_eq_false.mpr ?_
    intro quantity hquantity
    obtain ⟨entry, hentry, rfl⟩ := List.mem_map.mp hquantity
    have hid := h entry.1
    have hget : m.get? entry.1 = some entry.2 := JsMap.get?_eq_some_iff.mpr hentry
    simp only [assetsQuantity, JsMap.quantity, hget, Option.getD_some] at hid
    simpa using hid

end CardanoSdk.InputSelection
