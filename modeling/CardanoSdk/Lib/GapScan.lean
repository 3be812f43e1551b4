import Mathlib.Data.Nat.Find
import CardanoSdk.Lib.Collections

/-!
A search along the natural numbers that gives up after a run of indices at which nothing
is found.
-/

namespace CardanoSdk.Lib

section GapScan

variable {α : Type} (found : ℕ → List α) (limit : ℕ)

/-- `gap` counts the indices since the last find. The fuel may run out. -/
def gapScan : ℕ → ℕ → ℕ → List α → Option (List α)
  | 0, _, _, _ => none
  | fuel + 1, gap, index, acc =>
    if gap ≤ limit then
      gapScan fuel (if (found index).isEmpty then gap + 1 else 0) (index + 1) (acc ++ found index)
    else some acc

/-- Nothing is found at more than `limit` indices that end before `index`. -/
def GapBefore (index : ℕ) : Prop :=
  limit < index ∧ ∀ k, index ≤ k + limit + 1 → k < index → found k = []

/-- A run of indices before `index`, longer than the limit, with nothing found. -/
def LongGap (index : ℕ) : Prop :=
  ∃ start length, limit < length ∧ start + length ≤ index ∧
    ∀ k, start ≤ k → k < start + length → found k = []

variable {found limit}

variable {index gap : ℕ}

theorem longGap_iff : LongGap found limit index ↔ ∃ stop ≤ index, GapBefore found limit stop := by
  constructor
  · rintro ⟨start, length, hlong, hend, hnone⟩
    refine ⟨start + length, hend, by omega, fun k hfrom hto => hnone k ?_ hto⟩
    omega
  · rintro ⟨stop, hstop, hlong, hnone⟩
    refine ⟨stop - (limit + 1), limit + 1, by omega, by omega, fun k hfrom hto => hnone k ?_ ?_⟩
    · omega
    · omega

structure CountsGap (found : ℕ → List α) (gap index : ℕ) : Prop where
  le : gap ≤ index
  none_since : ∀ k, index ≤ k + gap → k < index → found k = []
  last : gap < index → found (index - gap - 1) ≠ []

theorem CountsGap.start (found : ℕ → List α) : CountsGap found 0 0 :=
  ⟨le_rfl, fun _ _ hlt => (Nat.not_lt_zero _ hlt).elim, fun hlt => (Nat.not_lt_zero _ hlt).elim⟩

theorem CountsGap.next (h : CountsGap found gap index) :
    CountsGap found (if (found index).isEmpty then gap + 1 else 0) (index + 1) := by
  have hle := h.le
  by_cases hempty : found index = []
  · rw [hempty, List.isEmpty_nil, if_pos rfl]
    refine ⟨by omega, fun k hfrom hto => ?_, fun hlt => ?_⟩
    · by_cases hk : k = index
      · rw [hk, hempty]
      · exact h.none_since k (by omega) (by omega)
    · have hlast := h.last (by omega)
      rwa [show index + 1 - (gap + 1) - 1 = index - gap - 1 by omega]
  · rw [if_neg (mt List.isEmpty_iff.mp hempty)]
    refine ⟨Nat.zero_le _, fun k hfrom hto => by omega, fun _ => ?_⟩
    rwa [show index + 1 - 0 - 1 = index by omega]

theorem CountsGap.gapBefore_iff (h : CountsGap found gap index) :
    GapBefore found limit index ↔ limit < gap := by
  have hle := h.le
  constructor
  · rintro ⟨hlong, hnone⟩
    by_contra hgap
    exact h.last (by omega) (hnone _ (by omega) (by omega))
  · intro hgap
    exact ⟨by omega, fun k hfrom hto => h.none_since k (by omega) hto⟩

/-- From any index before the first long gap the rest of the indices up to it is visited. -/
theorem gapScan_eq {stop : ℕ} (hstop : GapBefore found limit stop)
    (hfirst : ∀ index < stop, ¬ GapBefore found limit index) {fuel : ℕ}
    (hcounts : CountsGap found gap index) (hindex : index ≤ stop) (hfuel : stop - index < fuel)
    (acc : List α) :
    gapScan found limit fuel gap index acc =
      some (acc ++ (List.range' index (stop - index)).flatMap found) := by
  induction fuel generalizing gap index acc with
  | zero => omega
  | succ fuel ih =>
    rw [gapScan]
    by_cases hgap : gap ≤ limit
    · have hbefore : index < stop := by
        refine lt_of_le_of_ne hindex fun heq => ?_
        rw [← heq, hcounts.gapBefore_iff] at hstop
        omega
      rw [if_pos hgap, ih hcounts.next (by omega) (by omega), List.append_assoc]
      have hrange : stop - index = stop - (index + 1) + 1 := by omega
      rw [hrange, List.range'_succ, List.flatMap_cons]
    · have hend : index = stop := by
        refine le_antisymm hindex (Nat.le_of_not_lt fun hlt => hfirst index hlt ?_)
        rw [hcounts.gapBefore_iff]
        omega
      rw [if_neg hgap, hend, Nat.sub_self, List.range'_zero, List.flatMap_nil, List.append_nil]

theorem exists_gapScan {bound : ℕ} (hbound : ∀ index, bound ≤ index → found index = []) :
    ∃ stop, (∀ fuel, stop < fuel →
        gapScan found limit fuel 0 0 [] = some ((List.range stop).flatMap found)) ∧
      ∀ index, index < stop ↔ ¬ LongGap found limit index := by
  classical
  have hexists : ∃ stop, GapBefore found limit stop :=
    ⟨bound + limit + 1, by omega, fun k hfrom _ => hbound k (by omega)⟩
  refine ⟨Nat.find hexists, fun fuel hfuel => ?_, fun index => ?_⟩
  · rw [gapScan_eq (Nat.find_spec hexists) (fun index => Nat.find_min hexists)
      (CountsGap.start found) (Nat.zero_le _) (by omega), List.range_eq_range']
    rfl
  · rw [longGap_iff, Nat.lt_find_iff]
    simp only [not_exists, not_and]

end GapScan

end CardanoSdk.Lib
