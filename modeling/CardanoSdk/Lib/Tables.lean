import CardanoSdk.Lib.Collections

/-!
Tables of rows with a primary key: maps that are updated where a condition holds,
and that refuse to insert a row whose key is taken.
-/

namespace CardanoSdk.Lib.JsMap

variable {κ ν : Type} [DecidableEq κ]

/-- `UPDATE … WHERE …` -/
def updateWhere (table : JsMap κ ν) (condition : κ → ν → Bool) (change : ν → ν) : JsMap κ ν :=
  ⟨table.entries.map fun entry =>
      (entry.1, if condition entry.1 entry.2 then change entry.2 else entry.2), by
    rw [List.map_map]
    exact table.nodup⟩

def keysWhere (table : JsMap κ ν) (condition : ν → Bool) : List κ :=
  (table.entries.filter fun entry => condition entry.2).map Prod.fst

/-- `INSERT` of several rows, all or none. -/
def insertRows (table : JsMap κ ν) (rows : List (κ × ν)) : Option (JsMap κ ν) :=
  if h : (table.keys ++ rows.map Prod.fst).Nodup then
    some ⟨table.entries ++ rows, by
      rw [List.map_append]
      exact h⟩
  else none

theorem get?_updateWhere (table : JsMap κ ν) (condition : κ → ν → Bool) (change : ν → ν) (key : κ) :
    (table.updateWhere condition change).get? key =
      (table.get? key).map fun row => if condition key row then change row else row := by
  obtain ⟨entries, hnodup⟩ := table
  change lookup key (entries.map _) = (lookup key entries).map _
  clear hnodup
  induction entries with
  | nil => rfl
  | cons entry rest ih =>
    obtain ⟨key', row⟩ := entry
    by_cases hkey : key = key'
    · subst hkey
      simp [lookup]
    · simpa [lookup, hkey] using ih

variable {table result : JsMap κ ν} {rows : List (κ × ν)}

theorem updateWhere_eq_self {condition : κ → ν → Bool} {change : ν → ν}
    (h : ∀ key row, table.get? key = some row → condition key row = true → change row = row) :
    table.updateWhere condition change = table := by
  apply JsMap.ext
  change table.entries.map _ = _
  refine (List.map_congr_left ?_).trans (List.map_id _)
  intro entry hmem
  by_cases hcondition : condition entry.1 entry.2 = true
  · rw [if_pos hcondition, h entry.1 entry.2 (get?_eq_some_iff.mpr hmem) hcondition]
    rfl
  · rw [if_neg hcondition]
    rfl

theorem get?_foldl_updateWhere {α : Type} (keyOf : α → κ) (condition : α → ν → Bool)
    (change : α → ν → ν) {list : List α} (hnodup : (list.map keyOf).Nodup) (table : JsMap κ ν)
    (key : κ) :
    (list.foldl (fun table a =>
        table.updateWhere (fun key row => key = keyOf a && condition a row) (change a)) table).get? key =
      (table.get? key).map fun row =>
        (list.find? fun a => keyOf a = key).elim row fun a =>
          if condition a row then change a row else row := by
  induction list generalizing table with
  | nil => simp
  | cons a rest ih =>
    rw [List.map_cons, List.nodup_cons] at hnodup
    rw [List.foldl_cons, ih hnodup.2, get?_updateWhere, Option.map_map]
    apply congrFun (congrArg Option.map (funext fun row => ?_))
    by_cases hkey : keyOf a = key
    · have hnone : (rest.find? fun a => keyOf a = key) = none := by
        rw [List.find?_eq_none]
        intro b hb heq
        rw [decide_eq_true_iff] at heq
        exact hnodup.1 (List.mem_map.mpr ⟨b, hb, heq.trans hkey.symm⟩)
      simp [hnone, hkey]
    · simp [Ne.symm hkey, hkey]

theorem mem_keysWhere {condition : ν → Bool} {key : κ} :
    key ∈ table.keysWhere condition ↔ ∃ row, table.get? key = some row ∧ condition row = true := by
  simp only [keysWhere, List.mem_map, List.mem_filter, get?_eq_some_iff]
  constructor
  · rintro ⟨⟨key, row⟩, ⟨hmem, hrow⟩, rfl⟩
    exact ⟨row, hmem, hrow⟩
  · rintro ⟨row, hmem, hrow⟩
    exact ⟨(key, row), ⟨hmem, hrow⟩, rfl⟩

theorem get?_foldl_set_const {α : Type} (keyOf : α → κ) (row : ν) (list : List α)
    (table : JsMap κ ν) (key : κ) :
    (key ∈ list.map keyOf →
        (list.foldl (fun table a => table.set (keyOf a) row) table).get? key = some row) ∧
      (key ∉ list.map keyOf →
        (list.foldl (fun table a => table.set (keyOf a) row) table).get? key = table.get? key) := by
  induction list generalizing table with
  | nil => simp
  | cons a rest ih =>
    obtain ⟨hin, hout⟩ := ih (table.set (keyOf a) row)
    rw [List.map_cons, List.mem_cons, List.foldl_cons]
    constructor
    · rintro (rfl | hrest)
      · by_cases hrest : keyOf a ∈ rest.map keyOf
        · exact hin hrest
        · rw [hout hrest, get?_set_self]
      · exact hin hrest
    · intro hnot
      rw [not_or] at hnot
      rw [hout hnot.2, get?_set, if_neg hnot.1]

theorem insertRows_eq (h : (table.keys ++ rows.map Prod.fst).Nodup) :
    ∃ result, table.insertRows rows = some result ∧ result.entries = table.entries ++ rows :=
  ⟨_, dif_pos h, rfl⟩

theorem insertRows_nil (table : JsMap κ ν) : table.insertRows [] = some table := by
  have hnodup : (table.keys ++ [].map (Prod.fst : κ × ν → κ)).Nodup := by
    rw [List.map_nil, List.append_nil]
    exact table.nodup
  obtain ⟨result, hresult, hentries⟩ := insertRows_eq hnodup
  rw [hresult]
  exact congrArg some (JsMap.ext (hentries.trans (List.append_nil _)))

theorem entries_insertRows (h : table.insertRows rows = some result) :
    result.entries = table.entries ++ rows := by
  rw [insertRows] at h
  split at h
  · cases h
    rfl
  · cases h

theorem get?_insertRows (h : table.insertRows rows = some result) {key : κ} {row : ν} :
    result.get? key = some row ↔ table.get? key = some row ∨ (key, row) ∈ rows := by
  rw [get?_eq_some_iff, get?_eq_some_iff, entries_insertRows h, List.mem_append]

theorem filter_insertRows (h : table.insertRows rows = some result) {stays : κ → ν → Bool}
    (hold : ∀ key row, table.get? key = some row → stays key row = true)
    (hnew : ∀ entry ∈ rows, stays entry.1 entry.2 = false) : result.filter stays = table := by
  apply JsMap.ext
  change result.entries.filter _ = _
  rw [entries_insertRows h, List.filter_append, List.filter_eq_self.mpr, List.filter_eq_nil_iff.mpr,
    List.append_nil]
  · intro entry hmem
    rw [hnew entry hmem]
    exact Bool.false_ne_true
  · intro entry hmem
    exact hold _ _ (get?_eq_some_iff.mpr hmem)

section Referring

variable {ρ : Type} [DecidableEq ρ] (referred : ν → ρ)

omit [DecidableEq κ] in
theorem keysWhere_filter_ne (table : JsMap κ ν) (gone key : ρ) :
    (table.filter fun _ row => referred row ≠ gone).keysWhere (fun row => referred row = key) =
      if gone = key then [] else table.keysWhere fun row => referred row = key := by
  simp only [keysWhere, filter, List.filter_filter]
  split
  · rename_i heq
    rw [List.map_eq_nil_iff, List.filter_eq_nil_iff]
    intro entry _
    simp only [Bool.and_eq_true, decide_eq_true_eq, not_and, heq]
    exact fun hkey hne => hne hkey
  · rename_i hne
    congr 1
    apply List.filter_congr
    intro entry _
    by_cases hkey : referred entry.2 = key
    · simp [hkey, Ne.symm hne]
    · simp [hkey]

end Referring

section Keyed

variable {keyOf : ν → κ} {table : JsMap κ ν}
  (hkeyed : ∀ key row, table.get? key = some row → keyOf row = key)

include hkeyed

theorem map_keyOf_values : table.values.map keyOf = table.keys := by
  rw [values, List.map_map]
  apply List.map_congr_left
  intro entry hmem
  exact hkeyed entry.1 entry.2 (get?_eq_some_iff.mpr hmem)

theorem find?_values (key : κ) :
    (table.values.find? fun row => keyOf row = key) = table.get? key := by
  apply Option.ext
  intro row
  constructor
  · intro hfind
    have hkey := List.find?_some hfind
    obtain ⟨entry, hmem, rfl⟩ := List.mem_map.mp (List.mem_of_find?_eq_some hfind)
    have hget := get?_eq_some_iff.mpr hmem
    rw [decide_eq_true_iff, hkeyed _ _ hget] at hkey
    rw [← hkey]
    exact hget
  · intro hget
    have hmem : row ∈ table.values := List.mem_map.mpr ⟨_, get?_eq_some_iff.mp hget, rfl⟩
    have hfound : (table.values.find? fun row => keyOf row = key).isSome = true :=
      List.find?_isSome.mpr ⟨row, hmem, decide_eq_true (hkeyed _ _ hget)⟩
    obtain ⟨row', hfind⟩ := Option.isSome_iff_exists.mp hfound
    have hkey := List.find?_some hfind
    obtain ⟨entry, hmem', rfl⟩ := List.mem_map.mp (List.mem_of_find?_eq_some hfind)
    have hget' := get?_eq_some_iff.mpr hmem'
    rw [decide_eq_true_iff, hkeyed _ _ hget'] at hkey
    rw [hkey, hget] at hget'
    rw [hfind, hget']

end Keyed

end CardanoSdk.Lib.JsMap

namespace CardanoSdk.Lib

/-- Steps for different keys, each of which changes what is seen at its own key. -/
theorem foldl_view_elim {State View κ α : Type} [DecidableEq κ] {view : State → κ → View}
    {step : State → α → State} {keyOf : α → κ} {change : α → View → View}
    (hstep : ∀ state a key, view (step state a) key =
      if keyOf a = key then change a (view state key) else view state key)
    {list : List α} (hnodup : (list.map keyOf).Nodup) (state : State) (key : κ) :
    view (list.foldl step state) key =
      (list.find? fun a => keyOf a = key).elim (view state key)
        (fun a => change a (view state key)) := by
  induction list generalizing state with
  | nil => rfl
  | cons a rest ih =>
    rw [List.map_cons, List.nodup_cons] at hnodup
    rw [List.foldl_cons, ih hnodup.2, hstep, List.find?_cons]
    by_cases hkey : keyOf a = key
    · have hnone : (rest.find? fun a => keyOf a = key) = none := by
        rw [List.find?_eq_none]
        intro b hb heq
        rw [decide_eq_true_iff] at heq
        exact hnodup.1 (List.mem_map.mpr ⟨b, hb, heq.trans hkey.symm⟩)
      simp [hkey, hnone]
    · simp [hkey]

theorem foldl_view {State View κ α : Type} [DecidableEq κ] {view : State → κ → View}
    {step : State → α → State} {keyOf : α → κ} {change : View → View}
    (hstep : ∀ state a key,
      view (step state a) key = if keyOf a = key then change (view state key) else view state key)
    {list : List α} (hnodup : (list.map keyOf).Nodup) (state : State) (key : κ) :
    view (list.foldl step state) key =
      if (list.find? fun a => keyOf a = key).isSome then change (view state key)
      else view state key := by
  rw [foldl_view_elim hstep hnodup]
  cases list.find? fun a => keyOf a = key <;> rfl

theorem JsMap.find?_entries {κ ν : Type} [DecidableEq κ] (m : JsMap κ ν) (key : κ) :
    (m.entries.find? fun entry => entry.1 = key) = (m.get? key).map fun value => (key, value) := by
  cases hget : m.get? key with
  | none =>
    rw [Option.map_none, List.find?_eq_none]
    intro entry hmem hkey
    rw [JsMap.get?_eq_none_iff] at hget
    exact hget (List.mem_map.mpr ⟨entry, hmem, of_decide_eq_true hkey⟩)
  | some value =>
    cases hfind : m.entries.find? fun entry => entry.1 = key with
    | none =>
      rw [List.find?_eq_none] at hfind
      exact absurd (decide_eq_true rfl) (hfind _ (JsMap.get?_eq_some_iff.mp hget))
    | some entry =>
      obtain ⟨key', value'⟩ := entry
      have hkey := List.find?_some hfind
      obtain rfl : key' = key := of_decide_eq_true hkey
      have hget' := JsMap.get?_eq_some_iff.mpr (List.mem_of_find?_eq_some hfind)
      rw [hget] at hget'
      cases hget'
      rfl

end CardanoSdk.Lib
