import CardanoSdk.Lib.Collections
import Mathlib.Data.List.Chain

/-!
Items assigned one after another: greedily, each to a bin whose gap is the largest at that
moment; or next-fit, each into the open bin while it fits and into a new one otherwise.
-/

namespace CardanoSdk.Lib

section GreedyAssignment

variable {Item Bin κ : Type} [LinearOrder κ] (gap : Bin → κ) (put : Item → Bin → Bin)

/-- The bins by their gaps, the largest first. The sort is stable. -/
def byGap (bins : List Bin) : List Bin := bins.insertionSort (fun a b => gap b ≤ gap a)

def assign (bins : List Bin) (item : Item) : List Bin :=
  match byGap gap bins with
  | [] => []
  | bin :: others => put item bin :: others

/-- Each item in turn goes to a bin with the largest gap, and the other bins stay. -/
inductive GreedyRun : List Bin → List Item → List Bin → Prop
  | nil (bins : List Bin) : GreedyRun bins [] bins
  | cons {bins others final : List Bin} {bin : Bin} {item : Item} {items : List Item}
      (hperm : bins.Perm (bin :: others)) (hlargest : ∀ other ∈ others, gap other ≤ gap bin)
      (hrest : GreedyRun (put item bin :: others) items final) :
      GreedyRun bins (item :: items) final

variable {gap put}

theorem perm_byGap (bins : List Bin) : (byGap gap bins).Perm bins := List.perm_insertionSort _ _

theorem pairwise_byGap (bins : List Bin) :
    (byGap gap bins).Pairwise (fun a b => gap b ≤ gap a) := by
  have htrans : IsTrans Bin (fun a b => gap b ≤ gap a) := ⟨fun _ _ _ hab hbc => hbc.trans hab⟩
  have htotal : Std.Total (fun a b : Bin => gap b ≤ gap a) := ⟨fun _ _ => le_total _ _⟩
  exact List.pairwise_insertionSort _ _

theorem assign_largest {bins : List Bin} (hbins : bins ≠ []) (item : Item) :
    ∃ bin others, bins.Perm (bin :: others) ∧ (∀ other ∈ others, gap other ≤ gap bin) ∧
      assign gap put bins item = put item bin :: others := by
  have hsorted := @pairwise_byGap Bin κ _ gap bins
  have hperm := @perm_byGap Bin κ _ gap bins
  unfold assign
  cases hbyGap : byGap gap bins with
  | nil =>
    rw [hbyGap] at hperm
    exact absurd hperm.symm.eq_nil hbins
  | cons bin others =>
    rw [hbyGap] at hsorted hperm
    exact ⟨bin, others, hperm.symm, (List.pairwise_cons.mp hsorted).1, rfl⟩

variable {bins : List Bin}

theorem greedyRun_foldl_assign (hbins : bins ≠ []) (items : List Item) :
    GreedyRun gap put bins items (items.foldl (assign gap put) bins) := by
  induction items generalizing bins with
  | nil => exact .nil bins
  | cons item rest ih =>
    obtain ⟨bin, others, hperm, hlargest, hassign⟩ :=
      @assign_largest Item Bin κ _ gap put bins hbins item
    rw [List.foldl_cons, hassign]
    exact .cons hperm hlargest (ih (List.cons_ne_nil _ _))

theorem forall_mem_foldl_assign {P : Bin → Prop} (hput : ∀ item bin, P bin → P (put item bin))
    {bins : List Bin} (hbins : ∀ bin ∈ bins, P bin) (items : List Item) :
    ∀ bin ∈ items.foldl (assign gap put) bins, P bin := by
  induction items generalizing bins with
  | nil => exact hbins
  | cons item rest ih =>
    refine ih fun bin hmem => ?_
    have hsorted (other : Bin) (hother : other ∈ byGap gap bins) : P other :=
      hbins other ((perm_byGap bins).mem_iff.mp hother)
    unfold assign at hmem
    cases hbyGap : byGap gap bins with
    | nil =>
      rw [hbyGap] at hmem
      exact absurd hmem List.not_mem_nil
    | cons first others =>
      rw [hbyGap] at hmem hsorted
      rcases List.mem_cons.mp hmem with rfl | hother
      · exact hput item first (hsorted first List.mem_cons_self)
      · exact hsorted bin (List.mem_cons_of_mem _ hother)

theorem perm_foldl_assign {contents : Bin → List Item}
    (hput : ∀ item bin, contents (put item bin) = contents bin ++ [item]) {bins : List Bin}
    (hbins : bins ≠ []) (items : List Item) :
    ((items.foldl (assign gap put) bins).flatMap contents).Perm (bins.flatMap contents ++ items) := by
  induction items generalizing bins with
  | nil => rw [List.foldl_nil, List.append_nil]
  | cons item rest ih =>
    obtain ⟨bin, others, hperm, -, hassign⟩ :=
      @assign_largest Item Bin κ _ gap put bins hbins item
    rw [List.foldl_cons, hassign]
    refine (ih (List.cons_ne_nil _ _)).trans ?_
    rw [List.flatMap_cons, hput]
    have hflat := hperm.flatMap_right contents
    rw [List.flatMap_cons] at hflat
    have hmoved : (contents bin ++ [item] ++ others.flatMap contents ++ rest).Perm
        (item :: (contents bin ++ others.flatMap contents ++ rest)) := by
      rw [List.append_assoc, List.append_assoc, List.singleton_append, List.append_assoc]
      exact List.perm_middle
    refine hmoved.trans ?_
    exact ((hflat.symm.append_right rest).cons item).trans List.perm_middle.symm

end GreedyAssignment

section NextFit

variable {Item : Type} (weight : Item → ℕ) (capacity : ℕ)

def loadWith (load : ℕ) (item : Item) : ℕ :=
  if load + weight item ≤ capacity then load + weight item else weight item

def loadAfter (load : ℕ) (items : List Item) : ℕ := items.foldl (loadWith weight capacity) load

def fillBins (bin : List Item) (load : ℕ) : List Item → List (List Item)
  | [] => [bin]
  | item :: rest =>
    if load + weight item ≤ capacity then fillBins (bin ++ [item]) (load + weight item) rest
    else bin :: fillBins [item] (weight item) rest

def nextFit : List Item → List (List Item)
  | [] => []
  | item :: rest => fillBins weight capacity [item] (weight item) rest

def Meets (R : Item → Item → Prop) (bin next : List Item) : Prop :=
  ∀ a ∈ bin.getLast?, ∀ b ∈ next.head?, R a b

/-- Where the load makes a bin end, the items on both sides are related. -/
def RelatedAtLimit (R : Item → Item → Prop) (load : ℕ) (first : Item) (items : List Item) : Prop :=
  ∀ before a b after, first :: items = before ++ a :: b :: after →
    capacity < loadAfter weight capacity load (before ++ [a]).tail + weight b → R a b

variable {weight capacity}

theorem flatten_fillBins (bin : List Item) (load : ℕ) (items : List Item) :
    (fillBins weight capacity bin load items).flatten = bin ++ items := by
  induction items generalizing bin load with
  | nil => simp [fillBins]
  | cons item rest ih =>
    unfold fillBins
    split
    · rw [ih, List.append_assoc, List.singleton_append]
    · rw [List.flatten_cons, ih, List.singleton_append]

variable {bin items : List Item} {load : ℕ} {R : Item → Item → Prop}

variable {other : List Item}

theorem ne_nil_of_mem_fillBins (hbin : bin ≠ [])
    (hmem : other ∈ fillBins weight capacity bin load items) : other ≠ [] := by
  induction items generalizing bin load with
  | nil =>
    rw [List.mem_singleton.mp hmem]
    exact hbin
  | cons item rest ih =>
    unfold fillBins at hmem
    split at hmem
    · exact ih (List.append_ne_nil_of_left_ne_nil hbin _) hmem
    · rcases List.mem_cons.mp hmem with rfl | hrest
      · exact hbin
      · exact ih (List.cons_ne_nil _ _) hrest

theorem head?_fillBins (bin : List Item) (load : ℕ) (items : List Item) :
    ∃ more others, fillBins weight capacity bin load items = (bin ++ more) :: others := by
  induction items generalizing bin load with
  | nil => exact ⟨[], [], by rw [List.append_nil]; rfl⟩
  | cons item rest ih =>
    unfold fillBins
    split
    · obtain ⟨more, others, hfill⟩ := ih (bin ++ [item]) (load + weight item)
      exact ⟨item :: more, others, by rw [hfill, List.append_assoc, List.singleton_append]⟩
    · exact ⟨[], _, by rw [List.append_nil]⟩

theorem sum_le_of_mem_fillBins (hitem : ∀ item, weight item ≤ capacity)
    (hload : (bin.map weight).sum = load) (hcapacity : load ≤ capacity)
    (hmem : other ∈ fillBins weight capacity bin load items) :
    (other.map weight).sum ≤ capacity := by
  induction items generalizing bin load with
  | nil =>
    rw [List.mem_singleton.mp hmem, hload]
    exact hcapacity
  | cons item rest ih =>
    unfold fillBins at hmem
    split at hmem
    next hfits => exact ih (by simp [hload]) hfits hmem
    next =>
      rcases List.mem_cons.mp hmem with rfl | hrest
      · exact hload ▸ hcapacity
      · exact ih (by simp) (hitem item) hrest

theorem relatedAtLimit_cons {first item : Item} {rest : List Item} :
    RelatedAtLimit weight capacity R load first (item :: rest) ↔
      (capacity < load + weight item → R first item) ∧
        RelatedAtLimit weight capacity R (loadWith weight capacity load item) item rest := by
  constructor
  · intro h
    refine ⟨h [] first item rest rfl, ?_⟩
    intro before a b after hitems hlimit
    refine h (first :: before) a b after (by rw [hitems, List.cons_append]) ?_
    cases before with
    | nil =>
      cases hitems
      exact hlimit
    | cons _ before =>
      cases hitems
      exact hlimit
  · rintro ⟨hfirst, hrest⟩ before a b after hitems hlimit
    cases before with
    | nil =>
      cases hitems
      exact hfirst hlimit
    | cons _ before =>
      obtain ⟨rfl, hrest'⟩ := List.cons_eq_cons.mp (hitems.trans (List.cons_append ..))
      refine hrest before a b after hrest' ?_
      cases before with
      | nil =>
        cases hrest'
        exact hlimit
      | cons _ before =>
        cases hrest'
        exact hlimit

theorem isChain_fillBins_iff (bin : List Item) (last : Item) (load : ℕ) (items : List Item) :
    (fillBins weight capacity (bin ++ [last]) load items).IsChain (Meets R) ↔
      RelatedAtLimit weight capacity R load last items := by
  induction items generalizing bin last load with
  | nil =>
    refine iff_of_true (List.isChain_singleton _) ?_
    intro before a b after hitems
    have hlength := congrArg List.length hitems
    rw [List.length_append, List.length_cons, List.length_cons] at hlength
    simp at hlength
    omega
  | cons item rest ih =>
    rw [relatedAtLimit_cons]
    unfold fillBins loadWith
    split
    next hfits =>
      rw [ih]
      exact (and_iff_right fun hlimit => absurd hfits (Nat.not_le.mpr hlimit)).symm
    next hfull =>
      obtain ⟨more, others, hfill⟩ :=
        @head?_fillBins Item weight capacity [item] (weight item) rest
      have hrest := ih [] item (weight item)
      rw [List.nil_append] at hrest
      have hmeets : Meets R (bin ++ [last]) ([item] ++ more) ↔ R last item := by
        unfold Meets
        rw [List.getLast?_concat, List.singleton_append, List.head?_cons]
        simp only [Option.mem_some_iff, forall_eq']
      rw [← hrest, hfill, List.isChain_cons_cons, hmeets]
      exact and_congr_left' ⟨fun h _ => h, fun h => h (Nat.not_le.mp hfull)⟩

theorem flatten_nextFit (items : List Item) : (nextFit weight capacity items).flatten = items := by
  cases items with
  | nil => rfl
  | cons item rest => rw [nextFit, flatten_fillBins, List.singleton_append]

theorem ne_nil_of_mem_nextFit (hmem : bin ∈ nextFit weight capacity items) : bin ≠ [] := by
  cases items with
  | nil => cases hmem
  | cons item rest => exact ne_nil_of_mem_fillBins (List.cons_ne_nil _ _) hmem

theorem sum_le_of_mem_nextFit (hitem : ∀ item, weight item ≤ capacity)
    (hmem : bin ∈ nextFit weight capacity items) : (bin.map weight).sum ≤ capacity := by
  cases items with
  | nil => cases hmem
  | cons item rest => exact sum_le_of_mem_fillBins hitem (by simp) (hitem item) hmem

theorem isChain_nextFit_iff (hitem : ∀ item, weight item ≤ capacity) (items : List Item) :
    (nextFit weight capacity items).IsChain (Meets R) ↔
      ∀ before a b after, items = before ++ a :: b :: after →
        capacity < loadAfter weight capacity 0 (before ++ [a]) + weight b → R a b := by
  cases items with
  | nil => exact iff_of_true List.isChain_nil fun before a b after h => by simp at h
  | cons first rest =>
    have hfirst : loadWith weight capacity 0 first = weight first := by
      rw [loadWith, Nat.zero_add, if_pos (hitem first)]
    have hload {before after : List Item} {a b : Item}
        (hitems : first :: rest = before ++ a :: b :: after) :
        loadAfter weight capacity 0 (before ++ [a]) =
          loadAfter weight capacity (weight first) (before ++ [a]).tail := by
      cases before with
      | nil =>
        cases hitems
        exact congrArg (loadAfter weight capacity · []) hfirst
      | cons _ before =>
        cases hitems
        exact congrArg (loadAfter weight capacity · (before ++ [a])) hfirst
    rw [nextFit, ← List.nil_append [first], isChain_fillBins_iff]
    constructor
    · intro h before a b after hitems hlimit
      exact h before a b after hitems (hload hitems ▸ hlimit)
    · intro h before a b after hitems hlimit
      exact h before a b after hitems ((hload hitems).symm ▸ hlimit)

end NextFit

end CardanoSdk.Lib
