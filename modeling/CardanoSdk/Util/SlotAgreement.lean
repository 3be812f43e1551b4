import CardanoSdk.Util.SlotCalc

/-!
The three calculators of slots and epochs agree, era by era.
-/

namespace CardanoSdk.Util

open Lib

def effectiveEras : List EraSummary → List EraSummary
  | [] => []
  | [era] => [era]
  | era :: next :: rest =>
    if next.startSlot = era.startSlot then effectiveEras (next :: rest)
    else era :: effectiveEras (next :: rest)

/-- Eras in ascending order, the effective ones of which are made of whole epochs. -/
structure ValidEras (eras : List EraSummary) : Prop where
  nonempty : eras ≠ []
  ascending : eras.Pairwise fun era era' => era.startSlot ≤ era'.startSlot
  positive : ∀ era ∈ effectiveEras eras, 0 < era.epochLength
  aligned : (effectiveEras eras).IsChain fun era era' =>
    era.epochLength ∣ era'.startSlot - era.startSlot

/-- The same of an era and the effective ones behind it, which start later. -/
def Aligned : EraSummary → List EraSummary → Prop
  | era, [] => 0 < era.epochLength
  | era, next :: rest => 0 < era.epochLength ∧ era.startSlot < next.startSlot ∧
      era.epochLength ∣ next.startSlot - era.startSlot ∧ Aligned next rest

theorem effectiveEras_cons (era : EraSummary) (rest : List EraSummary) :
    ∃ first others, effectiveEras (era :: rest) = first :: others ∧
      first.startSlot = era.startSlot := by
  induction rest generalizing era with
  | nil => exact ⟨era, [], rfl, rfl⟩
  | cons next rest ih =>
    rw [effectiveEras]
    split
    · rename_i hsame
      obtain ⟨first, others, heq, hstart⟩ := ih next
      exact ⟨first, others, heq, hstart.trans hsame⟩
    · exact ⟨era, _, rfl, rfl⟩

variable {era : EraSummary} {rest : List EraSummary} {slot slot' : ℕ}

variable {first : EraSummary} {others : List EraSummary}

theorem aligned_of_effective
    (hascending : (era :: rest).Pairwise fun era era' => era.startSlot ≤ era'.startSlot)
    (heffective : effectiveEras (era :: rest) = first :: others)
    (hpositive : ∀ era ∈ first :: others, 0 < era.epochLength)
    (haligned : (first :: others).IsChain fun era era' =>
      era.epochLength ∣ era'.startSlot - era.startSlot) : Aligned first others := by
  induction rest generalizing era first others with
  | nil =>
    cases heffective
    exact hpositive _ List.mem_cons_self
  | cons next rest ih =>
    rw [List.pairwise_cons] at hascending
    rw [effectiveEras] at heffective
    split at heffective
    · exact ih hascending.2 heffective hpositive haligned
    · rename_i hdifferent
      cases heffective
      obtain ⟨second, others, heq, hstart⟩ := effectiveEras_cons next rest
      rw [heq] at hpositive haligned ⊢
      have hle := hascending.1 next List.mem_cons_self
      rw [List.isChain_cons_cons] at haligned
      refine ⟨hpositive _ List.mem_cons_self, by omega, haligned.1, ?_⟩
      exact ih hascending.2 heq (fun era hmem => hpositive era (List.mem_cons_of_mem _ hmem))
        haligned.2

theorem ValidEras.aligned_effective {eras : List EraSummary} (h : ValidEras eras)
    (heffective : effectiveEras eras = first :: others) : Aligned first others := by
  have hpositive := h.positive
  have haligned := h.aligned
  rw [heffective] at hpositive haligned
  cases eras with
  | nil => exact absurd rfl h.nonempty
  | cons era rest => exact aligned_of_effective h.ascending heffective hpositive haligned

/-- The era that a slot is in, and the epochs before it. -/
def locate (slot : ℕ) : EraSummary → List EraSummary → EraSummary × ℕ
  | era, [] => (era, (slot - era.startSlot) / era.epochLength)
  | era, next :: rest =>
    if next.startSlot ≤ slot then
      ((locate slot next rest).1,
        (next.startSlot - era.startSlot) / era.epochLength + (locate slot next rest).2)
    else (era, (slot - era.startSlot) / era.epochLength)

def epochStart (slot : ℕ) (era : EraSummary) : ℕ :=
  era.startSlot + (slot - era.startSlot) / era.epochLength * era.epochLength

theorem epochStart_le (hstart : era.startSlot ≤ slot) : epochStart slot era ≤ slot := by
  have hle := Nat.div_mul_le_self (slot - era.startSlot) era.epochLength
  unfold epochStart
  omega

theorem lt_epochStart (hpositive : 0 < era.epochLength) :
    slot < epochStart slot era + era.epochLength := by
  have hlt := @Nat.lt_div_mul_add (slot - era.startSlot) era.epochLength hpositive
  unfold epochStart
  omega

theorem locate_era (haligned : Aligned era rest) (hstart : era.startSlot ≤ slot) :
    era.startSlot ≤ (locate slot era rest).1.startSlot ∧
      (locate slot era rest).1.startSlot ≤ slot ∧ 0 < (locate slot era rest).1.epochLength := by
  induction rest generalizing era with
  | nil => exact ⟨le_refl _, hstart, haligned⟩
  | cons next rest ih =>
    rw [locate]
    split
    · rename_i hnext
      obtain ⟨hfrom, hle, hpositive⟩ := ih haligned.2.2.2 hnext
      exact ⟨haligned.2.1.le.trans hfrom, hle, hpositive⟩
    · exact ⟨le_refl _, hstart, haligned.1⟩

theorem locate_mono (haligned : Aligned era rest) (hle : slot ≤ slot') :
    (locate slot era rest).2 ≤ (locate slot' era rest).2 := by
  induction rest generalizing era with
  | nil => exact Nat.div_le_div_right (by omega)
  | cons next rest ih =>
    rw [locate, locate]
    split
    · rename_i hnext
      rw [if_pos (hnext.trans hle)]
      exact Nat.add_le_add_left (ih haligned.2.2.2) _
    · split
      · have hdiv := Nat.div_le_div_right (c := era.epochLength)
          (show slot - era.startSlot ≤ next.startSlot - era.startSlot by omega)
        exact hdiv.trans (Nat.le_add_right _ _)
      · exact Nat.div_le_div_right (by omega)

def IsFirst (slot : ℕ) (era : EraSummary) (rest : List EraSummary) : Prop :=
  (locate slot era rest).1.epochLength ∣ slot - (locate slot era rest).1.startSlot

theorem locate_before {next : EraSummary} (hbefore : slot < next.startSlot) :
    locate slot era (next :: rest) = (era, (slot - era.startSlot) / era.epochLength) := by
  rw [locate, if_neg (by omega)]

theorem locate_after {next : EraSummary} (hafter : next.startSlot ≤ slot) :
    locate slot era (next :: rest) =
      ((locate slot next rest).1,
        (next.startSlot - era.startSlot) / era.epochLength + (locate slot next rest).2) := by
  rw [locate, if_pos hafter]

theorem locate_startSlot (haligned : Aligned era rest) :
    locate era.startSlot era rest = (era, 0) := by
  have hzero : (era.startSlot - era.startSlot) / era.epochLength = 0 := by simp
  cases rest with
  | nil => rw [locate, hzero]
  | cons next rest => rw [locate_before haligned.2.1, hzero]

theorem IsFirst.of_startSlot (haligned : Aligned era rest) : IsFirst era.startSlot era rest := by
  rw [IsFirst, locate_startSlot haligned]
  simp

theorem epoch_within (hpositive : 0 < era.epochLength) (hstart : era.startSlot ≤ slot)
    (hwhole : era.epochLength ∣ slot - era.startSlot) :
    (slot + era.epochLength - era.startSlot) / era.epochLength =
        (slot - era.startSlot) / era.epochLength + 1 ∧
      era.epochLength ∣ slot + era.epochLength - era.startSlot := by
  rw [Nat.sub_add_comm hstart, Nat.add_div_right _ hpositive]
  exact ⟨rfl, Nat.dvd_add hwhole dvd_rfl⟩

theorem IsFirst.next {slot : ℕ} {era : EraSummary} {rest : List EraSummary}
    (haligned : Aligned era rest) (hstart : era.startSlot ≤ slot)
    (hfirst : IsFirst slot era rest) :
    (locate (slot + (locate slot era rest).1.epochLength) era rest).2 =
        (locate slot era rest).2 + 1 ∧
      IsFirst (slot + (locate slot era rest).1.epochLength) era rest := by
  induction rest generalizing era with
  | nil => exact epoch_within haligned hstart hfirst
  | cons next rest ih =>
    obtain ⟨hpositive, hlater, hdvd, hrest⟩ := haligned
    unfold IsFirst at hfirst ⊢
    by_cases hnext : next.startSlot ≤ slot
    · rw [locate_after hnext] at hfirst ⊢
      obtain ⟨hepoch, hdvd⟩ := ih hrest hnext hfirst
      rw [locate_after (hnext.trans (Nat.le_add_right _ _))]
      exact ⟨by rw [hepoch, Nat.add_assoc], hdvd⟩
    · have hhere : locate slot era (next :: rest) =
          (era, (slot - era.startSlot) / era.epochLength) :=
        locate_before (Nat.lt_of_not_le hnext)
      rw [hhere] at hfirst ⊢
      obtain ⟨hepoch, hwhole⟩ := epoch_within hpositive hstart hfirst
      by_cases hreach : slot + era.epochLength < next.startSlot
      · rw [locate_before hreach]
        exact ⟨hepoch, hwhole⟩
      · -- whole epochs lie before the next era, so the step ends where it starts
        have hgap : era.epochLength ≤ next.startSlot - slot := by
          have hdiff := Nat.dvd_sub hdvd hfirst
          rw [show next.startSlot - era.startSlot - (slot - era.startSlot) =
            next.startSlot - slot by omega] at hdiff
          exact Nat.le_of_dvd (by omega) hdiff
        have hmeet : slot + era.epochLength = next.startSlot := by omega
        rw [hmeet] at hepoch ⊢
        rw [locate_after (le_refl _), locate_startSlot hrest]
        exact ⟨hepoch, by simp⟩

theorem IsFirst.lt (haligned : Aligned era rest) (hstart : era.startSlot ≤ slot)
    (hlt : slot < slot') (hfirst : IsFirst slot' era rest) :
    (locate slot era rest).2 < (locate slot' era rest).2 := by
  induction rest generalizing era with
  | nil => exact Nat.div_lt_div_of_lt_of_dvd hfirst (by omega)
  | cons next rest ih =>
    obtain ⟨hpositive, hlater, hdvd, hrest⟩ := haligned
    unfold IsFirst at hfirst
    by_cases hnext : next.startSlot ≤ slot
    · rw [locate_after (hnext.trans hlt.le)] at hfirst ⊢
      rw [locate_after hnext]
      exact Nat.add_lt_add_left (ih hrest hnext hfirst) _
    · rw [locate_before (Nat.lt_of_not_le hnext)]
      by_cases hnext' : next.startSlot ≤ slot'
      · rw [locate_after hnext']
        have hbefore : (slot - era.startSlot) / era.epochLength <
            (next.startSlot - era.startSlot) / era.epochLength :=
          Nat.div_lt_div_of_lt_of_dvd hdvd (by omega)
        exact hbefore.trans_le (Nat.le_add_right _ _)
      · rw [locate_before (Nat.lt_of_not_le hnext')] at hfirst ⊢
        exact Nat.div_lt_div_of_lt_of_dvd hfirst (by omega)

theorem IsFirst.unique (haligned : Aligned era rest) (hstart : era.startSlot ≤ slot)
    (hstart' : era.startSlot ≤ slot') (hfirst : IsFirst slot era rest)
    (hfirst' : IsFirst slot' era rest)
    (hepoch : (locate slot era rest).2 = (locate slot' era rest).2) : slot = slot' := by
  rcases Nat.lt_trichotomy slot slot' with hlt | heq | hgt
  · exact absurd hepoch (IsFirst.lt haligned hstart hlt hfirst').ne
  · exact heq
  · exact absurd hepoch (IsFirst.lt haligned hstart' hgt hfirst).ne'

theorem locate_epochStart (haligned : Aligned era rest) (hstart : era.startSlot ≤ slot) :
    locate (epochStart slot (locate slot era rest).1) era rest = locate slot era rest ∧
      IsFirst (epochStart slot (locate slot era rest).1) era rest := by
  have hsame : ∀ era : EraSummary, 0 < era.epochLength →
      (epochStart slot era - era.startSlot) / era.epochLength =
          (slot - era.startSlot) / era.epochLength ∧
        era.epochLength ∣ epochStart slot era - era.startSlot := by
    intro era hpositive
    rw [epochStart, Nat.add_sub_cancel_left, Nat.mul_div_cancel _ hpositive]
    exact ⟨rfl, Nat.dvd_mul_left _ _⟩
  induction rest generalizing era with
  | nil =>
    obtain ⟨hepoch, hwhole⟩ := hsame era haligned
    exact ⟨Prod.ext rfl hepoch, hwhole⟩
  | cons next rest ih =>
    obtain ⟨hpositive, hlater, hdvd, hrest⟩ := haligned
    unfold IsFirst
    by_cases hnext : next.startSlot ≤ slot
    · rw [locate_after hnext]
      obtain ⟨hlocate, hfirst⟩ := ih hrest hnext
      have hafter : next.startSlot ≤ epochStart slot (locate slot next rest).1 :=
        (locate_era hrest hnext).1.trans (Nat.le_add_right _ _)
      rw [IsFirst, hlocate] at hfirst
      rw [locate_after hafter, hlocate]
      exact ⟨rfl, hfirst⟩
    · have hbefore := Nat.lt_of_not_le hnext
      rw [locate_before hbefore, locate_before ((epochStart_le hstart).trans_lt hbefore)]
      obtain ⟨hepoch, hwhole⟩ := hsame era hpositive
      exact ⟨Prod.ext rfl hepoch, hwhole⟩

end CardanoSdk.Util
