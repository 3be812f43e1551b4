import CardanoSdk.Lib.Collections

/-!
Integer quantities stored under keys, where a missing key counts as zero, sums over a list
with one element changed, and the proportional division of an amount over integer weights.
-/

namespace CardanoSdk.Lib

namespace JsMap

variable {κ : Type*} [DecidableEq κ]

/-- `m.get(k) || 0n`. -/
def quantity (m : JsMap κ ℤ) (k : κ) : ℤ := (m.get? k).getD 0

@[simp] theorem quantity_empty (k : κ) : (empty : JsMap κ ℤ).quantity k = 0 := rfl

theorem quantity_set (m : JsMap κ ℤ) (k x : κ) (v : ℤ) :
    (m.set k v).quantity x = if x = k then v else m.quantity x := by
  unfold quantity
  rw [get?_set]
  split <;> rfl

theorem quantity_of_not_mem {m : JsMap κ ℤ} {k : κ} (h : k ∉ m.keys) :
    m.quantity k = 0 := by
  unfold quantity
  rw [get?_eq_none_iff.mpr h]
  rfl

theorem quantity_filter (m : JsMap κ ℤ) (p : κ → ℤ → Bool) (k : κ) :
    (m.filter p).quantity k = if p k (m.quantity k) then m.quantity k else 0 := by
  unfold quantity
  rw [get?_filter]
  cases h : m.get? k with
  | none => simp
  | some v => by_cases hp : p k v <;> simp [Option.filter_some, hp]

theorem quantity_delete (m : JsMap κ ℤ) (k x : κ) :
    (m.delete k).quantity x = if x = k then 0 else m.quantity x := by
  unfold quantity
  rw [get?_delete]
  split <;> rfl

theorem quantity_mapValues (m : JsMap κ ℤ) {f : ℤ → ℤ} (hf : f 0 = 0) (k : κ) :
    (m.mapValues f).quantity k = f (m.quantity k) := by
  unfold quantity
  rw [get?_mapValues]
  cases m.get? k <;> simp [hf]

theorem quantity_mapValues_neg (m : JsMap κ ℤ) (k : κ) :
    (m.mapValues (fun q => -q)).quantity k = -m.quantity k :=
  quantity_mapValues m (by simp) k

theorem quantity_setAll (m : JsMap κ ℤ) (ks : List κ) (f : κ → Option ℤ) (x : κ) :
    (m.setAll ks f).quantity x =
      if x ∈ ks then (f x).getD (m.quantity x) else m.quantity x := by
  unfold quantity
  rw [get?_setAll]
  by_cases hx : x ∈ ks
  · cases hf : f x <;> simp [hx]
  · simp [hx]

/-- Every stored quantity satisfies `p`. -/
def All (p : ℤ → Prop) (m : JsMap κ ℤ) : Prop := ∀ e ∈ m.entries, p e.2

instance (p : ℤ → Prop) [DecidablePred p] (m : JsMap κ ℤ) : Decidable (m.All p) :=
  inferInstanceAs (Decidable (∀ e ∈ m.entries, p e.2))

theorem All.quantity {p : ℤ → Prop} {m : JsMap κ ℤ} (h : m.All p) (hzero : p 0) (k : κ) :
    p (m.quantity k) := by
  unfold JsMap.quantity
  cases hget : m.get? k with
  | none => exact hzero
  | some v => exact h (k, v) (get?_eq_some_iff.mp hget)

omit [DecidableEq κ] in
theorem All.empty (p : ℤ → Prop) : (empty : JsMap κ ℤ).All p := by
  intro e he
  cases he

omit [DecidableEq κ] in
theorem All.filter {p : ℤ → Prop} {m : JsMap κ ℤ} (h : m.All p) (q : κ → ℤ → Bool) :
    (m.filter q).All p :=
  fun e he => h e (List.mem_filter.mp he).1

theorem All.set {p : ℤ → Prop} {m : JsMap κ ℤ} (h : m.All p) (k : κ) {v : ℤ} (hv : p v) :
    (m.set k v).All p := by
  intro e he
  have hget : (m.set k v).get? e.1 = some e.2 := get?_eq_some_iff.mpr he
  rw [get?_set] at hget
  split at hget
  · cases hget
    exact hv
  · exact h e (get?_eq_some_iff.mp hget)

/-- Add every entry of `l` to the quantity already stored under its key. -/
def addEntries (m : JsMap κ ℤ) (l : List (κ × ℤ)) : JsMap κ ℤ :=
  l.foldl (fun acc e => acc.set e.1 (acc.quantity e.1 + e.2)) m

theorem quantity_addEntries (m : JsMap κ ℤ) (l : List (κ × ℤ)) (x : κ)
    (hl : (l.map Prod.fst).Nodup) :
    (m.addEntries l).quantity x = m.quantity x + (lookup x l).getD 0 := by
  induction l generalizing m with
  | nil => simp [addEntries, lookup]
  | cons entry rest ih =>
    obtain ⟨k, v⟩ := entry
    simp only [List.map_cons, List.nodup_cons] at hl
    have hstep := ih (m.set k (m.quantity k + v)) hl.2
    simp only [addEntries, List.foldl_cons] at hstep ⊢
    rw [hstep, quantity_set]
    by_cases hx : x = k
    · subst hx
      have hrest : lookup x rest = none := lookup_eq_none.mpr hl.1
      simp [lookup, hrest]
    · simp [lookup, hx]

theorem quantity_addEntries_map (m₁ m₂ : JsMap κ ℤ) (x : κ) :
    (m₁.addEntries m₂.entries).quantity x = m₁.quantity x + m₂.quantity x :=
  quantity_addEntries m₁ m₂.entries x m₂.nodup

theorem All.addEntries {p : ℤ → Prop} (hadd : ∀ a b, p a → p b → p (a + b)) {m : JsMap κ ℤ}
    (h : m.All p) {l : List (κ × ℤ)} (hl : ∀ e ∈ l, p e.2) : (m.addEntries l).All p := by
  induction l generalizing m with
  | nil => exact h
  | cons entry rest ih =>
    simp only [List.mem_cons, forall_eq_or_imp] at hl
    refine ih (h.set entry.1 ?_) hl.2
    unfold JsMap.quantity
    cases hget : m.get? entry.1 with
    | none => simpa using hl.1
    | some v => exact hadd v entry.2 (h _ (get?_eq_some_iff.mp hget)) hl.1

end JsMap

variable {α : Type*} {amount denominator : ℤ}

theorem sum_map_modify (g : α → ℤ) (f : α → α) (delta : ℤ) {l : List α}
    (hf : ∀ a ∈ l, g (f a) = g a + delta) {index : ℕ} (hindex : index < l.length) :
    ((l.modify index f).map g).sum = (l.map g).sum + delta := by
  induction l generalizing index with
  | nil => simp at hindex
  | cons a rest ih =>
    cases index with
    | zero =>
      simp only [List.modify_zero_cons, List.map_cons, List.sum_cons, hf a (by simp)]
      omega
    | succ index =>
      have hrest := ih (fun b hb => hf b (by simp [hb])) (by simpa using hindex)
      simp only [List.modify_succ_cons, List.map_cons, List.sum_cons, hrest]
      omega

theorem forall_mem_modify {P : α → Prop} {f : α → α} (hf : ∀ a, P a → P (f a)) {l : List α}
    (h : ∀ a ∈ l, P a) (index : ℕ) : ∀ a ∈ l.modify index f, P a := by
  induction l generalizing index with
  | nil => simp
  | cons a rest ih =>
    simp only [List.mem_cons, forall_eq_or_imp] at h
    cases index with
    | zero =>
      simp only [List.modify_zero_cons, List.mem_cons, forall_eq_or_imp]
      exact ⟨hf a h.1, h.2⟩
    | succ index =>
      simp only [List.modify_succ_cons, List.mem_cons, forall_eq_or_imp]
      exact ⟨h.1, ih h.2 index⟩

/-- The rounded-down shares of a non-negative amount over non-negative weights
add up to at most the amount, when the weights add up to at most the
denominator. -/
theorem sum_tdiv_shares_le (weights : List ℤ) (hamount : 0 ≤ amount)
    (hdenominator : 0 < denominator) (hweights : ∀ w ∈ weights, 0 ≤ w)
    (hsum : weights.sum ≤ denominator) :
    (weights.map (fun w => (amount * w).tdiv denominator)).sum ≤ amount := by
  have hscaled (ws : List ℤ) (hws : ∀ w ∈ ws, 0 ≤ w) :
      denominator * (ws.map (fun w => (amount * w).tdiv denominator)).sum ≤
        amount * ws.sum := by
    induction ws with
    | nil => simp
    | cons w rest ih =>
      have hw : 0 ≤ amount * w := mul_nonneg hamount (hws w (by simp))
      have hrest := ih (fun x hx => hws x (by simp [hx]))
      have hshare : denominator * (amount * w).tdiv denominator ≤ amount * w := by
        rw [Int.tdiv_eq_ediv_of_nonneg hw]
        exact Int.mul_ediv_self_le (by omega)
      simp only [List.map_cons, List.sum_cons, mul_add]
      omega
  have hall := hscaled weights hweights
  have hbound : amount * weights.sum ≤ amount * denominator :=
    mul_le_mul_of_nonneg_left hsum hamount
  have hle : denominator * (weights.map (fun w => (amount * w).tdiv denominator)).sum ≤
      denominator * amount := by
    calc
      _ ≤ amount * weights.sum := hall
      _ ≤ amount * denominator := hbound
      _ = denominator * amount := mul_comm _ _
  exact le_of_mul_le_mul_left hle hdenominator

theorem tdiv_share_nonneg {weight : ℤ} (hamount : 0 ≤ amount) (hweight : 0 ≤ weight)
    (hdenominator : 0 ≤ denominator) : 0 ≤ (amount * weight).tdiv denominator :=
  Int.tdiv_nonneg (mul_nonneg hamount hweight) hdenominator

end CardanoSdk.Lib
