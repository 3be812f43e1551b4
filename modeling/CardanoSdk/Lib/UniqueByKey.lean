import Mathlib.Data.List.Nodup

/-!
Lists without two elements of one key, and the loop that keeps the first element
of every key.
-/

namespace CardanoSdk.Lib

def keepNew {α : Type*} (same : α → α → Bool) (result : List α) (a : α) : List α :=
  if result.any (fun b => same a b) then result else result ++ [a]

/-- An element stays unless a kept one is the same as it. -/
def uniqWith {α : Type*} (same : α → α → Bool) (l : List α) : List α :=
  l.foldl (keepNew same) []

section Keys

variable {α κ : Type*} [DecidableEq κ] (key : α → κ)

/-- Elements are the same when their keys are. -/
def sameKey (a b : α) : Bool := decide (key a = key b)

variable {key}

variable {l kept : List α} {a : α}

theorem keepNew_of_mem (h : key a ∈ kept.map key) : keepNew (sameKey key) kept a = kept := by
  obtain ⟨b, hb, hkey⟩ := List.mem_map.mp h
  apply if_pos
  exact List.any_eq_true.mpr ⟨b, hb, decide_eq_true hkey.symm⟩

theorem keepNew_of_not_mem (h : key a ∉ kept.map key) :
    keepNew (sameKey key) kept a = kept ++ [a] := by
  apply if_neg
  intro hany
  obtain ⟨b, hb, hsame⟩ := List.any_eq_true.mp hany
  exact h (List.mem_map.mpr ⟨b, hb, (of_decide_eq_true hsame).symm⟩)

theorem mem_foldl_keepNew (hfunctional : ∀ a ∈ l, ∀ b ∈ l, key a = key b → a = b) :
    a ∈ l.foldl (keepNew (sameKey key)) kept ↔ a ∈ kept ∨ a ∈ l ∧ key a ∉ kept.map key := by
  induction l generalizing kept with
  | nil => simp
  | cons b rest ih =>
    have hrest : ∀ a ∈ rest, ∀ b ∈ rest, key a = key b → a = b := fun a ha c hc =>
      hfunctional a (List.mem_cons_of_mem _ ha) c (List.mem_cons_of_mem _ hc)
    rw [List.foldl_cons]
    by_cases hpresent : key b ∈ kept.map key
    · rw [keepNew_of_mem hpresent, ih hrest, List.mem_cons]
      constructor
      · rintro (hkept | ⟨hmem, hnew⟩)
        · exact Or.inl hkept
        · exact Or.inr ⟨Or.inr hmem, hnew⟩
      · rintro (hkept | ⟨rfl | hmem, hnew⟩)
        · exact Or.inl hkept
        · exact absurd hpresent hnew
        · exact Or.inr ⟨hmem, hnew⟩
    · rw [keepNew_of_not_mem hpresent, ih hrest]
      simp only [List.mem_append, List.map_append, List.map_singleton,
        List.mem_cons, List.not_mem_nil, or_false, not_or]
      constructor
      · rintro ((hkept | rfl) | ⟨hmem, hnew⟩)
        · exact Or.inl hkept
        · exact Or.inr ⟨Or.inl rfl, hpresent⟩
        · exact Or.inr ⟨Or.inr hmem, hnew.1⟩
      · rintro (hkept | ⟨rfl | hmem, hnew⟩)
        · exact Or.inl (Or.inl hkept)
        · exact Or.inl (Or.inr rfl)
        · by_cases hkey : key a = key b
          · exact Or.inl (Or.inr (hfunctional a (List.mem_cons_of_mem _ hmem) b
              List.mem_cons_self hkey))
          · exact Or.inr ⟨hmem, hnew, hkey⟩

theorem mem_of_mem_foldl_keepNew (h : a ∈ l.foldl (keepNew (sameKey key)) kept) :
    a ∈ kept ∨ a ∈ l := by
  induction l generalizing kept with
  | nil => exact Or.inl h
  | cons b rest ih =>
    rw [List.foldl_cons] at h
    rcases ih h with hkept | hrest
    · by_cases hpresent : key b ∈ kept.map key
      · rw [keepNew_of_mem hpresent] at hkept
        exact Or.inl hkept
      · rw [keepNew_of_not_mem hpresent] at hkept
        rcases List.mem_append.mp hkept with hold | hnew
        · exact Or.inl hold
        · exact Or.inr (List.mem_cons.mpr (Or.inl (List.mem_singleton.mp hnew)))
    · exact Or.inr (List.mem_cons_of_mem _ hrest)

theorem key_mem_foldl_keepNew {k : κ} :
    k ∈ (l.foldl (keepNew (sameKey key)) kept).map key ↔ k ∈ kept.map key ∨ k ∈ l.map key := by
  induction l generalizing kept with
  | nil => simp
  | cons b rest ih =>
    rw [List.foldl_cons, ih, List.map_cons, List.mem_cons]
    by_cases hpresent : key b ∈ kept.map key
    · rw [keepNew_of_mem hpresent]
      constructor
      · rintro (hkept | hrest)
        · exact Or.inl hkept
        · exact Or.inr (Or.inr hrest)
      · rintro (hkept | rfl | hrest)
        · exact Or.inl hkept
        · exact Or.inl hpresent
        · exact Or.inr hrest
    · rw [keepNew_of_not_mem hpresent]
      simp only [List.map_append, List.map_cons, List.map_nil, List.mem_append,
        List.mem_singleton, or_assoc]

theorem mem_of_mem_uniqWith (h : a ∈ uniqWith (sameKey key) l) : a ∈ l := by
  rcases mem_of_mem_foldl_keepNew h with hnone | hmem
  · cases hnone
  · exact hmem

theorem exists_mem_uniqWith (h : a ∈ l) : ∃ b ∈ uniqWith (sameKey key) l, key b = key a := by
  have hkey : key a ∈ (uniqWith (sameKey key) l).map key :=
    key_mem_foldl_keepNew.mpr (Or.inr (List.mem_map_of_mem h))
  exact List.mem_map.mp hkey

theorem mem_uniqWith_iff (hfunctional : ∀ a ∈ l, ∀ b ∈ l, key a = key b → a = b) :
    a ∈ uniqWith (sameKey key) l ↔ a ∈ l := by
  rw [uniqWith, mem_foldl_keepNew hfunctional]
  simp

theorem mem_uniqWith_id [DecidableEq α] : a ∈ uniqWith (sameKey id) l ↔ a ∈ l := by
  constructor
  · exact mem_of_mem_uniqWith
  · intro h
    have hkept : ∃ b ∈ uniqWith (sameKey id) l, b = a := exists_mem_uniqWith h
    obtain ⟨b, hb, rfl⟩ := hkept
    exact hb

theorem nodup_foldl_keepNew (hkept : (kept.map key).Nodup) :
    ((l.foldl (keepNew (sameKey key)) kept).map key).Nodup := by
  induction l generalizing kept with
  | nil => exact hkept
  | cons b rest ih =>
    rw [List.foldl_cons]
    by_cases hpresent : key b ∈ kept.map key
    · rw [keepNew_of_mem hpresent]
      exact ih hkept
    · rw [keepNew_of_not_mem hpresent]
      apply ih
      rw [List.map_append]
      apply hkept.append (List.nodup_singleton _)
      intro x hx hlast
      exact hpresent (List.mem_singleton.mp hlast ▸ hx)

theorem nodup_uniqWith : ((uniqWith (sameKey key) l).map key).Nodup :=
  nodup_foldl_keepNew List.nodup_nil

theorem nodup_uniqWith_id [DecidableEq α] : (uniqWith (sameKey id) l).Nodup := by
  have hnodup : ((uniqWith (sameKey id) l).map id).Nodup := nodup_uniqWith
  rwa [List.map_id] at hnodup

theorem length_uniqWith_le [DecidableEq α] (l : List α) :
    (uniqWith (sameKey key) l).length ≤ (uniqWith (sameKey id) l).length := by
  have hnodup : (uniqWith (sameKey key) l).Nodup := List.Nodup.of_map key nodup_uniqWith
  apply hnodup.length_le_of_subset
  intro a hmem
  exact mem_uniqWith_id.mpr (mem_of_mem_uniqWith hmem)

theorem foldl_keepNew_of_nodup {kept l : List α} (h : ((kept ++ l).map key).Nodup) :
    l.foldl (keepNew (sameKey key)) kept = kept ++ l := by
  induction l generalizing kept with
  | nil => rw [List.foldl_nil, List.append_nil]
  | cons a rest ih =>
    have hsplit : kept ++ a :: rest = (kept ++ [a]) ++ rest := by
      rw [List.append_assoc, List.singleton_append]
    have hnew : key a ∉ kept.map key := by
      rw [List.map_append, List.nodup_append] at h
      exact fun hmem => h.2.2 _ hmem _ (List.mem_map_of_mem List.mem_cons_self) rfl
    rw [hsplit] at h ⊢
    rw [List.foldl_cons, keepNew_of_not_mem hnew, ih h]

theorem uniqWith_of_nodup (h : (l.map key).Nodup) : uniqWith (sameKey key) l = l :=
  @foldl_keepNew_of_nodup α κ _ key [] l h

theorem forall₂_uniqWith {β : Type*} {R : α → β → Prop} {key' : β → κ}
    (hkey : ∀ a b, R a b → key a = key' b) {l' : List β} (h : List.Forall₂ R l l') :
    List.Forall₂ R (uniqWith (sameKey key) l) (uniqWith (sameKey key') l') := by
  have hkeys : ∀ {kept : List α} {kept' : List β}, List.Forall₂ R kept kept' →
      kept.map key = kept'.map key' := by
    intro kept kept' hkept
    induction hkept with
    | nil => rfl
    | cons hab _ ih => rw [List.map_cons, List.map_cons, hkey _ _ hab, ih]
  have hloop : ∀ {kept : List α} {kept' : List β}, List.Forall₂ R kept kept' →
      List.Forall₂ R (l.foldl (keepNew (sameKey key)) kept)
        (l'.foldl (keepNew (sameKey key')) kept') := by
    induction h with
    | nil => exact fun hkept => hkept
    | @cons a b rest rest' hab _ ih =>
      intro kept kept' hkept
      rw [List.foldl_cons, List.foldl_cons]
      apply ih
      by_cases hmem : key a ∈ kept.map key
      · rw [keepNew_of_mem hmem]
        rw [hkey a b hab, hkeys hkept] at hmem
        rwa [keepNew_of_mem hmem]
      · rw [keepNew_of_not_mem hmem]
        rw [hkey a b hab, hkeys hkept] at hmem
        rw [keepNew_of_not_mem hmem]
        exact List.rel_append hkept (List.Forall₂.cons hab List.Forall₂.nil)
  exact hloop List.Forall₂.nil

theorem mem_uniqWith_append {first second : List α} (hfirst : (first.map key).Nodup)
    (hsecond : ∀ a ∈ second, ∀ b ∈ second, key a = key b → a = b) :
    a ∈ uniqWith (sameKey key) (first ++ second) ↔
      a ∈ first ∨ a ∈ second ∧ key a ∉ first.map key := by
  have hkept : ∀ {b : α}, b ∈ first.foldl (keepNew (sameKey key)) [] ↔ b ∈ first := by
    intro b
    rw [mem_foldl_keepNew fun a ha b hb => List.inj_on_of_nodup_map hfirst ha hb]
    simp
  rw [uniqWith, List.foldl_append, mem_foldl_keepNew hsecond, hkept]
  simp only [List.mem_map, hkept]

end Keys

end CardanoSdk.Lib
