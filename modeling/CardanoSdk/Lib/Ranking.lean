import Mathlib.Data.List.Lex
import Mathlib.Data.Prod.Lex
import CardanoSdk.Lib.Collections

/-!
Positions in sorted lists: when the comparator follows a key with values in a linear
order, the position of an item is the number of items with a smaller key.
-/

namespace CardanoSdk.Lib

section Ranking

variable {α κ κ' : Type*} [LinearOrder κ] [LinearOrder κ']

/-- `[...l].sort(compare)`. The sort is stable. -/
def sortBy (compare : α → α → ℤ) (l : List α) : List α :=
  l.insertionSort (fun a b => compare a b ≤ 0)

def rank (key : α → κ) (items : List α) (item : α) : ℕ :=
  items.countP (fun other => key other < key item)

/-- `first || second` for numbers: the second decides where the first is zero. -/
def orElse (first second : ℤ) : ℤ :=
  if first = 0 then second else first

def Follows (compare : α → α → ℤ) (key : α → κ) : Prop :=
  ∀ a b, (compare a b < 0 ↔ key a < key b) ∧ (compare a b = 0 ↔ key a = key b)

variable {key : α → κ} {items : List α} {item : α} {compare : α → α → ℤ} {p : α → Bool}

theorem Follows.le_iff (h : Follows compare key) (a b : α) : compare a b ≤ 0 ↔ key a ≤ key b := by
  rw [le_iff_lt_or_eq, le_iff_lt_or_eq, (h a b).1, (h a b).2]

theorem Follows.orElse {first second : α → α → ℤ} {key : α → κ} {key' : α → κ'}
    (hfirst : Follows first key) (hsecond : Follows second key') :
    Follows (fun a b => orElse (first a b) (second a b)) (fun a => toLex (key a, key' a)) := by
  intro a b
  obtain ⟨hlt, heq⟩ := hfirst a b
  obtain ⟨hlt', heq'⟩ := hsecond a b
  simp only [Lib.orElse, Prod.Lex.lt_iff, ofLex_toLex, toLex_inj, Prod.mk.injEq]
  by_cases hzero : first a b = 0
  · have hkey := heq.mp hzero
    simp only [hzero, if_true, hkey, lt_irrefl, true_and, false_or]
    exact ⟨hlt', heq'⟩
  · have hkey : key a ≠ key b := fun h => hzero (heq.mpr h)
    simp only [hzero, if_false, hkey, false_and, or_false, iff_self, and_true]
    exact hlt

theorem follows_sub (number : α → ℕ) :
    Follows (fun a b => (number a : ℤ) - number b) number := by
  intro a b
  dsimp only
  constructor <;> omega

theorem perm_sortBy (compare : α → α → ℤ) (l : List α) : (sortBy compare l).Perm l :=
  List.perm_insertionSort _ l

theorem sortBy_congr {compare' : α → α → ℤ} {l : List α}
    (h : ∀ a ∈ l, ∀ b ∈ l, (compare a b ≤ 0 ↔ compare' a b ≤ 0)) :
    sortBy compare l = sortBy compare' l := by
  have hsame := List.map_insertionSort (fun a b => compare a b ≤ 0) (fun a b => compare' a b ≤ 0)
    id l h
  rwa [List.map_id, List.map_id] at hsame

theorem pairwise_sortBy (hcompare : Follows compare key) (l : List α) :
    (sortBy compare l).Pairwise (fun a b => key a ≤ key b) := by
  have htrans : IsTrans α (fun a b => compare a b ≤ 0) := by
    constructor
    intro a b c hab hbc
    rw [hcompare.le_iff] at hab hbc ⊢
    exact hab.trans hbc
  have htotal : Std.Total (fun a b : α => compare a b ≤ 0) := by
    constructor
    intro a b
    rw [hcompare.le_iff, hcompare.le_iff]
    exact le_total _ _
  have hsorted : (sortBy compare l).Pairwise (fun a b => compare a b ≤ 0) :=
    List.pairwise_insertionSort _ l
  exact hsorted.imp (fun h => (hcompare.le_iff _ _).mp h)

theorem rank_perm {items' : List α} (h : items.Perm items') (item : α) :
    rank key items item = rank key items' item :=
  h.countP_eq _

theorem rank_congr {key' : α → κ'}
    (h : ∀ other ∈ items, key other < key item ↔ key' other < key' item) :
    rank key items item = rank key' items item := by
  apply List.countP_congr
  intro other hother
  simp only [decide_eq_true_eq]
  exact h other hother

theorem rank_lt_rank {a b : α} (ha : a ∈ items) (hlt : key a < key b) :
    rank key items a < rank key items b := by
  induction items with
  | nil => cases ha
  | cons first rest ih =>
    have hmono : rank key rest a ≤ rank key rest b := by
      apply List.countP_mono_left
      intro other _ hother
      simp only [decide_eq_true_eq] at hother ⊢
      exact hother.trans hlt
    unfold rank at hmono ih ⊢
    rw [List.countP_cons, List.countP_cons]
    rcases List.mem_cons.mp ha with rfl | hrest
    · simp only [lt_irrefl, decide_false, Bool.false_eq_true, if_false, hlt, decide_true,
        if_true]
      omega
    · have hrank := ih hrest
      by_cases hfirst : key first < key a
      · simp only [hfirst, hfirst.trans hlt, decide_true, if_true]
        omega
      · simp only [hfirst, decide_false, Bool.false_eq_true, if_false]
        split <;> omega

theorem key_eq_of_rank_eq {a b : α} (ha : a ∈ items) (hb : b ∈ items)
    (h : rank key items a = rank key items b) : key a = key b := by
  rcases lt_trichotomy (key a) (key b) with hlt | heq | hgt
  · have hrank := rank_lt_rank ha hlt
    omega
  · exact heq
  · have hrank := rank_lt_rank hb hgt
    omega

theorem rank_filter (h : ∀ other ∈ items, key other < key item → p other = true) :
    rank key (items.filter p) item = rank key items item := by
  unfold rank
  rw [List.countP_filter]
  apply List.countP_congr
  intro other hother
  simp only [Bool.and_eq_true, decide_eq_true_eq, and_iff_left_iff_imp]
  exact h other hother

/-- In a list in key order the first item that passes a test that `item` passes
stands at the rank of `item`, if no item with another key passes it and every
item with its key does. -/
theorem findIdx?_eq_rank {l : List α} (hsorted : l.Pairwise (fun a b => key a ≤ key b))
    (hitem : item ∈ l) (hp : ∀ other ∈ l, p other = true ↔ key other = key item) :
    l.findIdx? p = some (rank key l item) := by
  induction l with
  | nil => cases hitem
  | cons first rest ih =>
    obtain ⟨hfirst, hrest⟩ := List.pairwise_cons.mp hsorted
    rw [List.findIdx?_cons]
    by_cases hkey : key first = key item
    · -- nothing behind the first item can be smaller than it
      have hnone : rank key (first :: rest) item = 0 := by
        unfold rank
        rw [List.countP_eq_zero]
        intro other hother
        rw [decide_eq_true_eq, not_lt, ← hkey]
        rcases List.mem_cons.mp hother with rfl | hmem
        · exact le_refl _
        · exact hfirst other hmem
      rw [if_pos ((hp first (by simp)).mpr hkey), hnone]
    · have hmem : item ∈ rest := by
        rcases List.mem_cons.mp hitem with rfl | hmem
        · exact absurd rfl hkey
        · exact hmem
      have hlt : key first < key item := lt_of_le_of_ne (hfirst item hmem) hkey
      have hfalse : p first = false := by
        rw [Bool.eq_false_iff]
        exact fun htrue => hkey ((hp first (by simp)).mp htrue)
      have htail := ih hrest hmem (fun other hother => hp other (List.mem_cons_of_mem _ hother))
      rw [hfalse, htail]
      simp [rank, hlt]

theorem findIdx?_sortBy (hcompare : Follows compare key) (hitem : item ∈ items)
    (hp : ∀ other ∈ items, p other = true ↔ key other = key item) :
    (sortBy compare items).findIdx? p = some (rank key items item) := by
  have hperm := perm_sortBy compare items
  rw [findIdx?_eq_rank (pairwise_sortBy hcompare items) (hperm.mem_iff.mpr hitem)
    (fun other hother => hp other (hperm.mem_iff.mp hother)), rank_perm hperm]

end Ranking

end CardanoSdk.Lib
