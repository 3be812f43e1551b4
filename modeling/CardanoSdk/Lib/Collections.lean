import Mathlib.Data.List.Nodup
import Mathlib.Data.List.Sort
import Mathlib.Algebra.BigOperators.Group.List.Basic
import Mathlib.Tactic

/-!
Fallible computations and insertion-ordered collections. `set` on a present key of a
`JsMap` keeps that key's place. Maps and sets carry the absence of repeated keys as a
field.
-/

namespace CardanoSdk.Lib

variable {ε α β : Type} {l : List α} {step : Except ε α} {next f : α → Except ε β}

theorem bind_ok {b : β} (h : step >>= next = .ok b) : ∃ a, step = .ok a ∧ next a = .ok b := by
  cases step with
  | error e => cases h
  | ok a => exact ⟨a, rfl, h⟩

theorem bind_of_ok {a : α} (h : step = .ok a) : step >>= next = next a := by
  rw [h]
  rfl

theorem eq_ok_of_toOption {a : α} (h : step.toOption = some a) : step = .ok a := by
  cases step with
  | error e => cases h
  | ok a' =>
    cases h
    rfl

theorem mapError_eq_ok_iff {ε' : Type} {f : ε → ε'} {result : Except ε α} {value : α} :
    result.mapError f = .ok value ↔ result = .ok value := by
  cases result with
  | ok value' => simp [Except.mapError]
  | error exception => simp [Except.mapError]

theorem bind_error {e : ε} (h : step >>= next = .error e) :
    step = .error e ∨ ∃ a, step = .ok a ∧ next a = .error e := by
  cases step with
  | error e' =>
    cases h
    exact Or.inl rfl
  | ok a => exact Or.inr ⟨a, rfl, h⟩

def okAnd {ε α : Type} (p : α → Bool) : Except ε α → Bool
  | .ok a => p a
  | .error _ => false

theorem okAnd_iff {p : α → Bool} {x : Except ε α} :
    okAnd p x = true ↔ ∃ a, x = .ok a ∧ p a = true := by
  cases x with
  | error e => simp [okAnd]
  | ok a => simp [okAnd]

theorem foldlM_ok_invariant (P : β → Prop) (f : β → α → Except ε β) (l : List α) {init result : β}
    (hinit : P init) (hstep : ∀ b, ∀ a ∈ l, P b → ∀ b', f b a = .ok b' → P b')
    (h : l.foldlM f init = .ok result) : P result := by
  induction l generalizing init with
  | nil =>
    cases h
    exact hinit
  | cons a rest ih =>
    rw [List.foldlM_cons] at h
    obtain ⟨b, hb, hrest⟩ := bind_ok h
    exact ih (hstep init a (by simp) hinit b hb)
      (fun b a ha => hstep b a (by simp [ha])) hrest

theorem foldlM_exists_ok {f : β → α → Except ε β} (hstep : ∀ b, ∀ a ∈ l, ∃ b', f b a = .ok b')
    (init : β) : ∃ b, l.foldlM f init = .ok b := by
  induction l generalizing init with
  | nil => exact ⟨init, rfl⟩
  | cons a rest ih =>
    obtain ⟨next, hnext⟩ := hstep init a (by simp)
    obtain ⟨final, hfinal⟩ := ih (fun b a ha => hstep b a (by simp [ha])) next
    refine ⟨final, ?_⟩
    rw [List.foldlM_cons, hnext]
    exact hfinal

theorem foldlM_error {f : β → α → Except ε β} {init : β} {e : ε} (h : l.foldlM f init = .error e) :
    ∃ b, ∃ a ∈ l, f b a = .error e := by
  induction l generalizing init with
  | nil => cases h
  | cons a rest ih =>
    rw [List.foldlM_cons] at h
    rcases bind_error h with hfirst | ⟨next, _, hrest⟩
    · exact ⟨init, a, by simp, hfirst⟩
    · obtain ⟨b, a', ha', hstep⟩ := ih hrest
      exact ⟨b, a', by simp [ha'], hstep⟩

theorem mapM_ok_forall₂ {ε α β : Type} {R : α → β → Prop} {f : α → Except ε β} {l : List α}
    (h : ∀ a ∈ l, ∃ b, f a = .ok b ∧ R a b) :
    ∃ result, l.mapM f = .ok result ∧ List.Forall₂ R l result := by
  induction l with
  | nil => exact ⟨[], rfl, .nil⟩
  | cons a rest ih =>
    obtain ⟨b, hb, hrel⟩ := h a (by simp)
    obtain ⟨result, hresult, hall⟩ := ih (fun x hx => h x (List.mem_cons_of_mem _ hx))
    refine ⟨b :: result, ?_, .cons hrel hall⟩
    rw [List.mapM_cons, hb, hresult]
    rfl

theorem forall₂_of_mapM_ok {result : List β} (h : l.mapM f = .ok result) :
    List.Forall₂ (fun a b => f a = .ok b) l result := by
  induction l generalizing result with
  | nil =>
    cases h
    exact .nil
  | cons a rest ih =>
    rw [List.mapM_cons] at h
    obtain ⟨b, hb, h⟩ := bind_ok h
    obtain ⟨bs, hbs, h⟩ := bind_ok h
    cases h
    exact .cons hb (ih hbs)

theorem exists_of_forall₂_right {α β : Type*} {R : α → β → Prop} {xs : List α} {ys : List β}
    (h : List.Forall₂ R xs ys) {b : β} (hb : b ∈ ys) : ∃ a ∈ xs, R a b := by
  induction h with
  | nil => simp at hb
  | cons hab _ ih =>
    rcases List.mem_cons.mp hb with rfl | hmem
    · exact ⟨_, by simp, hab⟩
    · obtain ⟨a, ha, hR⟩ := ih hmem
      exact ⟨a, List.mem_cons_of_mem _ ha, hR⟩

theorem exists_of_forall₂_left {α β : Type*} {R : α → β → Prop} {xs : List α} {ys : List β}
    (h : List.Forall₂ R xs ys) {a : α} (ha : a ∈ xs) : ∃ b ∈ ys, R a b :=
  @exists_of_forall₂_right _ _ (flip R) _ _ (@List.Forall₂.flip _ _ (flip R) _ _ h) _ ha

theorem mapM_ok_mem {result : List β} (h : l.mapM f = .ok result) : ∀ a ∈ l, ∃ b, f a = .ok b := by
  intro a ha
  obtain ⟨index, hindex, rfl⟩ := List.getElem_of_mem ha
  have hall := forall₂_of_mapM_ok h
  exact ⟨_, hall.get hindex (hall.length_eq ▸ hindex)⟩

theorem mapM_ok_map {g : α → β} (h : ∀ a ∈ l, f a = .ok (g a)) : l.mapM f = .ok (l.map g) := by
  induction l with
  | nil => rfl
  | cons a rest ih =>
    rw [List.mapM_cons, h a (by simp), ih (fun x hx => h x (List.mem_cons_of_mem _ hx))]
    rfl

def uniq {α : Type*} [DecidableEq α] : List α → List α
  | [] => []
  | a :: rest => a :: (uniq rest).filter (fun b => b ≠ a)

section Uniq

variable {α : Type*} [DecidableEq α]

@[simp] theorem mem_uniq {a : α} {l : List α} : a ∈ uniq l ↔ a ∈ l := by
  induction l with
  | nil => simp [uniq]
  | cons b rest ih =>
    by_cases hab : a = b
    · simp [uniq, hab]
    · simp [uniq, ih, hab]

theorem nodup_uniq (l : List α) : (uniq l).Nodup := by
  induction l with
  | nil => simp [uniq]
  | cons b rest ih =>
    simp only [uniq, List.nodup_cons, List.mem_filter]
    exact ⟨by simp, ih.filter _⟩

theorem uniq_eq_self {l : List α} (h : l.Nodup) : uniq l = l := by
  induction l with
  | nil => rfl
  | cons b rest ih =>
    obtain ⟨hb, hrest⟩ := List.nodup_cons.mp h
    rw [uniq, ih hrest, List.filter_eq_self.mpr]
    intro a ha
    simp only [ne_eq, decide_not, Bool.not_eq_eq_eq_not, Bool.not_true,
      decide_eq_false_iff_not]
    rintro rfl
    exact hb ha

end Uniq

structure JsSet (α : Type*) where
  toList : List α
  nodup : toList.Nodup

namespace JsSet

variable {α : Type*} [DecidableEq α]

/-- `new Set([...])`: the first occurrence of every element. -/
def ofList (l : List α) : JsSet α := ⟨uniq l, nodup_uniq l⟩

def size (s : JsSet α) : Nat := s.toList.length

/-- `add`: a present member keeps its place. -/
def add (s : JsSet α) (a : α) : JsSet α :=
  if h : a ∈ s.toList then s
  else ⟨s.toList ++ [a], by
    simp only [List.nodup_append, List.nodup_singleton, List.mem_singleton]
    exact ⟨s.nodup, trivial, fun b hb c hc heq => h (by rw [← hc, ← heq]; exact hb)⟩⟩

variable {a : α} {l : List α} {s : JsSet α}

@[simp] theorem mem_ofList : a ∈ (ofList l).toList ↔ a ∈ l := by
  simp [ofList]

theorem ofList_toList_of_nodup (h : l.Nodup) : (ofList l).toList = l :=
  uniq_eq_self h

@[simp] theorem mem_add {b : α} : b ∈ (s.add a).toList ↔ b ∈ s.toList ∨ b = a := by
  unfold add
  split
  · rename_i h
    constructor
    · exact Or.inl
    · rintro (hb | rfl)
      · exact hb
      · exact h
  · simp

def delete (s : JsSet α) (a : α) : JsSet α :=
  ⟨s.toList.filter (fun b => b ≠ a), s.nodup.filter _⟩

@[simp] theorem mem_delete {b : α} : b ∈ (s.delete a).toList ↔ b ∈ s.toList ∧ b ≠ a := by
  simp [delete]

theorem mem_foldl_add : a ∈ (l.foldl add s).toList ↔ a ∈ s.toList ∨ a ∈ l := by
  induction l generalizing s with
  | nil => simp
  | cons b rest ih => rw [List.foldl_cons, ih, mem_add, List.mem_cons, or_assoc]

theorem mem_foldl_delete : a ∈ (l.foldl delete s).toList ↔ a ∈ s.toList ∧ a ∉ l := by
  induction l generalizing s with
  | nil => simp
  | cons b rest ih => rw [List.foldl_cons, ih, mem_delete, List.mem_cons, not_or, and_assoc]

end JsSet

structure JsMap (κ ν : Type*) where
  entries : List (κ × ν)
  nodup : (entries.map Prod.fst).Nodup

namespace JsMap

variable {κ ν μ : Type*} [DecidableEq κ]

/-- The value stored at `k` in an association list, first entry first. -/
def lookup (k : κ) : List (κ × ν) → Option ν
  | [] => none
  | (k', v) :: rest => if k = k' then some v else lookup k rest

/-- Overwrite the entry of `k` in its place, or append a new one. -/
def insertEntry (k : κ) (v : ν) : List (κ × ν) → List (κ × ν)
  | [] => [(k, v)]
  | (k', v') :: rest =>
    if k = k' then (k, v) :: rest else (k', v') :: insertEntry k v rest

variable {k : κ} {l : List (κ × ν)} {v : ν} {m : JsMap κ ν}

theorem mem_insertEntry_keys {x : κ} :
    x ∈ (insertEntry k v l).map Prod.fst ↔ x = k ∨ x ∈ l.map Prod.fst := by
  induction l with
  | nil => simp [insertEntry]
  | cons entry rest ih =>
    obtain ⟨k', v'⟩ := entry
    by_cases hk : k = k'
    · subst hk
      simp [insertEntry]
    · simp only [insertEntry, hk, if_false, List.map_cons, List.mem_cons, ih]
      tauto

theorem insertEntry_nodup (h : (l.map Prod.fst).Nodup) :
    ((insertEntry k v l).map Prod.fst).Nodup := by
  induction l with
  | nil => simp [insertEntry]
  | cons entry rest ih =>
    obtain ⟨k', v'⟩ := entry
    simp only [List.map_cons, List.nodup_cons] at h
    by_cases hk : k = k'
    · subst hk
      simpa [insertEntry] using h
    · simp only [insertEntry, hk, if_false, List.map_cons, List.nodup_cons]
      refine ⟨?_, ih h.2⟩
      rw [mem_insertEntry_keys]
      rintro (heq | hmem)
      · exact hk heq.symm
      · exact h.1 hmem

theorem lookup_insertEntry (k x : κ) (v : ν) (l : List (κ × ν)) :
    lookup x (insertEntry k v l) = if x = k then some v else lookup x l := by
  induction l with
  | nil => simp [insertEntry, lookup]
  | cons entry rest ih =>
    obtain ⟨k', v'⟩ := entry
    by_cases hk : k = k'
    · subst hk
      by_cases hx : x = k <;> simp [insertEntry, lookup, hx]
    · by_cases hx : x = k'
      · subst hx
        have hne : x ≠ k := fun heq => hk heq.symm
        simp [insertEntry, lookup, hk, hne]
      · simp [insertEntry, lookup, hk, hx, ih]

theorem insertEntry_new (h : k ∉ l.map Prod.fst) : insertEntry k v l = l ++ [(k, v)] := by
  induction l with
  | nil => rfl
  | cons entry rest ih =>
    rw [List.map_cons, List.mem_cons, not_or] at h
    rw [insertEntry, if_neg h.1, ih h.2, List.cons_append]

theorem insertEntry_last {v' : ν} (h : k ∉ l.map Prod.fst) :
    insertEntry k v (l ++ [(k, v')]) = l ++ [(k, v)] := by
  induction l with
  | nil => exact if_pos rfl
  | cons entry rest ih =>
    rw [List.map_cons, List.mem_cons, not_or] at h
    rw [List.cons_append, insertEntry, if_neg h.1, ih h.2, List.cons_append]

theorem insertEntry_present {k : κ} {v v' : ν} {l : List (κ × ν)} (h : lookup k l = some v') :
    ∃ before after, l = before ++ (k, v') :: after ∧
      insertEntry k v l = before ++ (k, v) :: after := by
  induction l with
  | nil => cases h
  | cons entry rest ih =>
    obtain ⟨k', v''⟩ := entry
    by_cases hk : k = k'
    · subst hk
      rw [lookup, if_pos rfl] at h
      cases h
      exact ⟨[], rest, rfl, if_pos rfl⟩
    · rw [lookup, if_neg hk] at h
      obtain ⟨before, after, rfl, hinsert⟩ := ih h
      exact ⟨(k', v'') :: before, after, rfl, by rw [insertEntry, if_neg hk, hinsert]; rfl⟩

theorem lookup_eq_none : lookup k l = none ↔ k ∉ l.map Prod.fst := by
  induction l with
  | nil => simp [lookup]
  | cons entry rest ih =>
    obtain ⟨k', v'⟩ := entry
    by_cases hk : k = k'
    · simp [lookup, hk]
    · simp only [lookup, if_neg hk, ih, List.map_cons, List.mem_cons, not_or]
      exact ⟨fun h => ⟨hk, h⟩, fun h => h.2⟩

theorem mem_of_lookup (h : lookup k l = some v) : (k, v) ∈ l := by
  induction l with
  | nil => simp [lookup] at h
  | cons entry rest ih =>
    obtain ⟨k', v'⟩ := entry
    by_cases hk : k = k'
    · subst hk
      simp only [lookup, if_true, Option.some.injEq] at h
      simp [h]
    · simp only [lookup, hk, if_false] at h
      exact List.mem_cons_of_mem _ (ih h)

theorem lookup_of_mem (hnodup : (l.map Prod.fst).Nodup) (h : (k, v) ∈ l) : lookup k l = some v := by
  induction l with
  | nil => cases h
  | cons entry rest ih =>
    obtain ⟨k', v'⟩ := entry
    simp only [List.map_cons, List.nodup_cons] at hnodup
    rcases List.mem_cons.mp h with heq | hrest
    · cases heq
      simp [lookup]
    · have hne : k ≠ k' := by
        rintro rfl
        exact hnodup.1 (List.mem_map.mpr ⟨_, hrest, rfl⟩)
      simp [lookup, hne, ih hnodup.2 hrest]

def empty : JsMap κ ν := ⟨[], by simp⟩

def get? (m : JsMap κ ν) (k : κ) : Option ν := lookup k m.entries

def has (m : JsMap κ ν) (k : κ) : Bool := (m.get? k).isSome

def keys (m : JsMap κ ν) : List κ := m.entries.map Prod.fst

def values (m : JsMap κ ν) : List ν := m.entries.map Prod.snd

def size (m : JsMap κ ν) : Nat := m.entries.length

def set (m : JsMap κ ν) (k : κ) (v : ν) : JsMap κ ν :=
  ⟨insertEntry k v m.entries, insertEntry_nodup m.nodup⟩

omit [DecidableEq κ] in
theorem filter_keys_nodup (h : (l.map Prod.fst).Nodup) (p : κ × ν → Bool) :
    ((l.filter p).map Prod.fst).Nodup :=
  (List.Sublist.map Prod.fst List.filter_sublist).nodup h

/-- `new Map([...m.entries()].filter(p))`. -/
def filter (m : JsMap κ ν) (p : κ → ν → Bool) : JsMap κ ν :=
  ⟨m.entries.filter (fun e => p e.1 e.2), filter_keys_nodup m.nodup _⟩

omit [DecidableEq κ] in
theorem mapValues_keys (l : List (κ × ν)) (f : ν → μ) :
    (l.map (fun e => (e.1, f e.2))).map Prod.fst = l.map Prod.fst := by
  simp [Function.comp_def]

/-- The same keys in the same order with every value rewritten. -/
def mapValues (m : JsMap κ ν) (f : ν → μ) : JsMap κ μ :=
  ⟨m.entries.map (fun e => (e.1, f e.2)), by rw [mapValues_keys]; exact m.nodup⟩

/-- Visit `ks` in order and set each key to the value `f` gives it, if any. -/
def setAll (m : JsMap κ ν) (ks : List κ) (f : κ → Option ν) : JsMap κ ν :=
  ks.foldl (fun acc k => match f k with
    | some v => acc.set k v
    | none => acc) m

def delete (m : JsMap κ ν) (k : κ) : JsMap κ ν := m.filter (fun k' _ => k' ≠ k)

/-- `new Map(entries)`: a later entry overwrites an earlier one in its place. -/
def ofList (l : List (κ × ν)) : JsMap κ ν :=
  l.foldl (fun m e => m.set e.1 e.2) empty

omit [DecidableEq κ] in
@[ext] theorem ext {m₁ m₂ : JsMap κ ν} (h : m₁.entries = m₂.entries) : m₁ = m₂ := by
  cases m₁
  cases m₂
  congr

instance [DecidableEq ν] : DecidableEq (JsMap κ ν) := fun m₁ m₂ =>
  decidable_of_iff (m₁.entries = m₂.entries)
    ⟨JsMap.ext, fun h => by rw [h]⟩

theorem entries_set (m : JsMap κ ν) (k : κ) (v : ν) :
    (m.set k v).entries = insertEntry k v m.entries := rfl

theorem entries_set_new (v : ν) (h : k ∉ m.keys) : (m.set k v).entries = m.entries ++ [(k, v)] :=
  insertEntry_new h

theorem entries_setEntries {m : JsMap κ ν} {l : List (κ × ν)}
    (h : (m.keys ++ l.map Prod.fst).Nodup) :
    (l.foldl (fun m e => m.set e.1 e.2) m).entries = m.entries ++ l := by
  induction l generalizing m with
  | nil => exact (List.append_nil _).symm
  | cons entry rest ih =>
    rw [List.map_cons] at h
    have hnew : entry.1 ∉ m.keys := fun hmem =>
      (List.nodup_append.mp h).2.2 _ hmem _ List.mem_cons_self rfl
    have hset := entries_set_new entry.2 hnew
    have hkeys : (m.set entry.1 entry.2).keys = m.keys ++ [entry.1] := by
      unfold keys
      rw [hset, List.map_append]
      rfl
    rw [List.foldl_cons, ih, hset, List.append_assoc, List.singleton_append]
    rwa [hkeys, List.append_assoc, List.singleton_append]

theorem entries_ofList_of_nodup (h : (l.map Prod.fst).Nodup) : (ofList l).entries = l :=
  @entries_setEntries _ _ _ empty l h

@[simp] theorem get?_empty (k : κ) : (empty : JsMap κ ν).get? k = none := rfl

theorem get?_set (m : JsMap κ ν) (k x : κ) (v : ν) :
    (m.set k v).get? x = if x = k then some v else m.get? x :=
  lookup_insertEntry k x v m.entries

@[simp] theorem get?_set_self (m : JsMap κ ν) (k : κ) (v : ν) :
    (m.set k v).get? k = some v := by
  simp [get?_set]

theorem get?_eq_none_iff : m.get? k = none ↔ k ∉ m.keys :=
  lookup_eq_none

theorem has_iff {m : JsMap κ ν} {k : κ} : m.has k = true ↔ k ∈ m.keys := by
  unfold has
  rw [Option.isSome_iff_ne_none, ne_eq, get?_eq_none_iff, not_not]

theorem get?_eq_some_iff : m.get? k = some v ↔ (k, v) ∈ m.entries :=
  ⟨mem_of_lookup, lookup_of_mem m.nodup⟩

theorem mem_keys_set {x : κ} : x ∈ (m.set k v).keys ↔ x = k ∨ x ∈ m.keys :=
  mem_insertEntry_keys

theorem get?_filter (m : JsMap κ ν) (p : κ → ν → Bool) (k : κ) :
    (m.filter p).get? k = (m.get? k).filter (p k) := by
  apply Option.ext
  intro v
  rw [get?_eq_some_iff, Option.filter_eq_some_iff, get?_eq_some_iff]
  simp [filter]

theorem get?_delete (m : JsMap κ ν) (k x : κ) :
    (m.delete k).get? x = if x = k then none else m.get? x := by
  rw [delete, get?_filter]
  by_cases hx : x = k
  · cases h : m.get? x <;> simp [hx]
  · cases h : m.get? x <;> simp [hx]

theorem lookup_mapValues (l : List (κ × ν)) (f : ν → μ) (k : κ) :
    lookup k (l.map (fun e => (e.1, f e.2))) = (lookup k l).map f := by
  induction l with
  | nil => rfl
  | cons entry rest ih =>
    obtain ⟨k', v⟩ := entry
    by_cases hk : k = k'
    · simp [lookup, hk]
    · simpa [lookup, hk] using ih

theorem get?_mapValues (m : JsMap κ ν) (f : ν → μ) (k : κ) :
    (m.mapValues f).get? k = (m.get? k).map f :=
  lookup_mapValues m.entries f k

theorem get?_setAll (m : JsMap κ ν) (ks : List κ) (f : κ → Option ν) (x : κ) :
    (m.setAll ks f).get? x = if x ∈ ks then (f x).or (m.get? x) else m.get? x := by
  induction ks generalizing m with
  | nil => simp [setAll]
  | cons k rest ih =>
    simp only [setAll, List.foldl_cons] at ih ⊢
    rw [ih]
    cases hf : f k with
    | none =>
      by_cases hx : x = k
      · subst hx
        by_cases hrest : x ∈ rest <;> simp [hrest, hf]
      · simp [hx]
    | some v =>
      by_cases hx : x = k
      · subst hx
        by_cases hrest : x ∈ rest <;> simp [hrest, hf]
      · simp [hx, get?_set]

omit [DecidableEq κ] in
theorem size_eq_zero_iff : m.size = 0 ↔ m = empty := by
  constructor
  · intro h
    exact JsMap.ext (List.length_eq_zero_iff.mp h)
  · rintro rfl
    rfl

theorem size_set_le (m : JsMap κ ν) (k : κ) (v : ν) : (m.set k v).size ≤ m.size + 1 := by
  by_cases hk : k ∈ m.keys
  · obtain ⟨v', hv'⟩ := Option.ne_none_iff_exists'.mp (mt get?_eq_none_iff.mp (not_not.mpr hk))
    obtain ⟨before, after, hentries, hset⟩ := @insertEntry_present _ _ _ k v _ _ hv'
    have hlength : (m.set k v).size = m.size := by
      rw [size, size, entries_set, hset, hentries, List.length_append, List.length_append]
      rfl
    omega
  · rw [size, entries_set_new v hk, List.length_append]
    exact le_rfl

theorem size_setEntries_le (l : List (κ × ν)) (m : JsMap κ ν) :
    (l.foldl (fun m e => m.set e.1 e.2) m).size ≤ m.size + l.length := by
  induction l generalizing m with
  | nil => exact le_rfl
  | cons entry rest ih =>
    have hrest := ih (m.set entry.1 entry.2)
    have hset := size_set_le m entry.1 entry.2
    rw [List.foldl_cons, List.length_cons]
    omega

theorem size_ofList_le (l : List (κ × ν)) : (ofList l).size ≤ l.length := by
  have hle := size_setEntries_le l empty
  have hempty : (empty : JsMap κ ν).size = 0 := rfl
  rw [hempty, Nat.zero_add] at hle
  exact hle

end JsMap

end CardanoSdk.Lib
