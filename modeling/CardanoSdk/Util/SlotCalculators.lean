import CardanoSdk.Util.SlotAgreement

/-!
What each of the three calculators computes on valid eras, and that they agree.
-/

namespace CardanoSdk.Util

open Lib

variable {slot : ℕ} {era first : EraSummary} {eras rest : List EraSummary}

theorem foldl_set_ascending (rest : List EraSummary) {before : List (ℕ × EraSummary)}
    {groups : JsMap ℕ EraSummary}
    (hascending : (era :: rest).Pairwise fun era era' => era.startSlot ≤ era'.startSlot)
    (hgroups : groups.entries = before ++ [(era.startSlot, era)])
    (hbefore : ∀ entry ∈ before, entry.1 < era.startSlot) :
    ((rest.map fun era => (era.startSlot, era)).foldl (fun m e => m.set e.1 e.2)
        groups).entries.map Prod.snd =
      before.map Prod.snd ++ effectiveEras (era :: rest) := by
  induction rest generalizing era before groups with
  | nil => simp [hgroups, effectiveEras]
  | cons next rest ih =>
    rw [List.pairwise_cons] at hascending
    have hle := hascending.1 next List.mem_cons_self
    have habsent : next.startSlot ∉ before.map Prod.fst := by
      intro hmem
      obtain ⟨entry, hentry, hkey⟩ := List.mem_map.mp hmem
      have hlt := hbefore entry hentry
      omega
    rw [List.map_cons, List.foldl_cons, effectiveEras]
    split
    · rename_i hsame
      have hset : (groups.set next.startSlot next).entries =
          before ++ [(next.startSlot, next)] := by
        rw [JsMap.entries_set, hgroups, ← hsame]
        exact JsMap.insertEntry_last habsent
      exact ih hascending.2 hset fun entry hentry => hsame ▸ hbefore entry hentry
    · rename_i hdifferent
      have hset : (groups.set next.startSlot next).entries =
          (before ++ [(era.startSlot, era)]) ++ [(next.startSlot, next)] := by
        rw [JsMap.entries_set, hgroups]
        apply JsMap.insertEntry_new
        rw [List.map_append, List.mem_append, not_or]
        exact ⟨habsent, by simpa using hdifferent⟩
      rw [ih hascending.2 hset]
      · simp
      · intro entry hentry
        rcases List.mem_append.mp hentry with hmem | hmem
        · exact (hbefore entry hmem).trans_le hle
        · rw [List.mem_singleton.mp hmem]
          exact Nat.lt_of_le_of_ne hle (Ne.symm hdifferent)

theorem withoutSkippedEras_of_ascending
    (hascending : eras.Pairwise fun era era' => era.startSlot ≤ era'.startSlot) :
    withoutSkippedEras eras = effectiveEras eras := by
  cases eras with
  | nil => rfl
  | cons era rest =>
    have hnone : ∀ entry ∈ ([] : List (ℕ × EraSummary)), entry.1 < era.startSlot := by simp
    exact foldl_set_ascending rest hascending rfl hnone

theorem Aligned.strict (h : Aligned era rest) :
    (era :: rest).Pairwise fun era era' => era.startSlot < era'.startSlot := by
  induction rest generalizing era with
  | nil => exact List.pairwise_singleton _ _
  | cons next rest ih =>
    obtain ⟨-, hlater, -, hrest⟩ := h
    have hrestStrict := ih hrest
    rw [List.pairwise_cons]
    refine ⟨?_, hrestStrict⟩
    intro era' hmem
    rcases List.mem_cons.mp hmem with rfl | hmem
    · exact hlater
    · exact hlater.trans ((List.pairwise_cons.mp hrestStrict).1 era' hmem)

theorem orderAsc_of_strict
    (hstrict : eras.Pairwise fun era era' => era.startSlot < era'.startSlot) :
    orderAsc eras = eras := by
  apply List.mergeSort_of_pairwise
  exact hstrict.imp fun hlt => decide_eq_true hlt.le

theorem sumEpochs_eq_locate {epochNo : ℕ} (haligned : Aligned era rest) :
    sumEpochs slot epochNo era (rest.filter fun era => era.startSlot ≤ slot) =
      ((locate slot era rest).1, epochNo + (locate slot era rest).2) := by
  induction rest generalizing epochNo era with
  | nil => rfl
  | cons next rest ih =>
    obtain ⟨-, hlater, -, hrest⟩ := haligned
    by_cases hnext : next.startSlot ≤ slot
    · rw [List.filter_cons_of_pos (by simpa using hnext), sumEpochs, if_neg (by omega), ih hrest,
        locate_after hnext, Nat.add_assoc]
    · have hnone : (next :: rest).filter (fun era => decide (era.startSlot ≤ slot)) = [] := by
        rw [List.filter_eq_nil_iff]
        intro era' hmem
        have hle : next.startSlot ≤ era'.startSlot := by
          rcases List.mem_cons.mp hmem with rfl | hmem
          · exact le_refl _
          · exact ((List.pairwise_cons.mp hrest.strict).1 era' hmem).le
        simp only [decide_eq_true_eq]
        omega
      rw [hnone, locate_before (Nat.lt_of_not_le hnext)]
      rfl

variable {others : List EraSummary}

theorem createSlotEpochCalcImpl_eq
    (hascending : eras.Pairwise fun era era' => era.startSlot ≤ era'.startSlot)
    (heffective : effectiveEras eras = first :: others) (haligned : Aligned first others)
    (hslot : first.startSlot ≤ slot) :
    createSlotEpochCalcImpl eras slot = .ok (locate slot first others) := by
  have hrelevant : ((first :: others).filter fun era => decide (era.startSlot ≤ slot)) =
      first :: others.filter fun era => decide (era.startSlot ≤ slot) :=
    List.filter_cons_of_pos (by simpa using hslot)
  have hsorted : orderAsc (first :: others.filter fun era => decide (era.startSlot ≤ slot)) =
      first :: others.filter fun era => decide (era.startSlot ≤ slot) := by
    rw [← hrelevant]
    exact orderAsc_of_strict (haligned.strict.filter _)
  unfold createSlotEpochCalcImpl
  simp only [withoutSkippedEras_of_ascending hascending, heffective,
    orderAsc_of_strict haligned.strict, hrelevant, hsorted, sumEpochs_eq_locate haligned,
    Nat.zero_add]

theorem createSlotTimeCalc_succeeds (hmem : first ∈ withoutSkippedEras eras)
    (hslot : first.startSlot ≤ slot) : ∃ date, createSlotTimeCalc eras slot = .ok date := by
  have hfound : ((orderDesc (withoutSkippedEras eras)).find? fun era =>
      decide (era.startSlot ≤ slot)).isSome := by
    rw [List.find?_isSome]
    exact ⟨first, List.mem_mergeSort.mpr hmem, by simpa using hslot⟩
  obtain ⟨active, hactive⟩ := Option.isSome_iff_exists.mp hfound
  unfold createSlotTimeCalc
  simp only [hactive]
  exact ⟨_, rfl⟩

theorem findNextEraSummary_era
    (hascending : (era :: rest).Pairwise fun era era' => era.startSlot ≤ era'.startSlot)
    (heffective : effectiveEras (era :: rest) = first :: others) (hslot : era.startSlot ≤ slot) :
    (findNextEraSummary slot era rest).1 = (locate slot first others).1 := by
  induction rest generalizing era first others with
  | nil =>
    cases heffective
    rfl
  | cons next rest ih =>
    rw [List.pairwise_cons] at hascending
    obtain ⟨second, behind, heq, hstart⟩ := effectiveEras_cons next rest
    rw [effectiveEras] at heffective
    rw [findNextEraSummary]
    by_cases hnext : next.startSlot ≤ slot
    · rw [if_pos hnext]
      split at heffective
      · exact ih hascending.2 heffective hnext
      · cases heffective
        rw [heq, locate_after (hstart.le.trans hnext)]
        exact ih hascending.2 heq hnext
    · rw [if_neg hnext]
      rw [if_neg (by omega), heq] at heffective
      cases heffective
      rw [locate_before (by omega)]

theorem findNextEraSummary_of_le {slot' : ℕ} (era : EraSummary) (rest : List EraSummary)
    (hle : slot ≤ slot') :
    findNextEraSummary slot' (findNextEraSummary slot era rest).1
        (findNextEraSummary slot era rest).2 = findNextEraSummary slot' era rest := by
  induction rest generalizing era with
  | nil => rfl
  | cons next rest ih =>
    by_cases hnext : next.startSlot ≤ slot
    · rw [show findNextEraSummary slot era (next :: rest) = findNextEraSummary slot next rest from
        if_pos hnext, ih, findNextEraSummary, if_pos (hnext.trans hle)]
    · rw [show findNextEraSummary slot era (next :: rest) = (era, next :: rest) from if_neg hnext]

structure EpochWalk.Stands (era first : EraSummary) (rest others : List EraSummary)
    (walk : EpochWalk) : Prop where
  started : era.startSlot ≤ walk.atSlot
  atFirst : IsFirst walk.atSlot first others
  epoch : (locate walk.atSlot first others).2 = walk.atEpoch
  found : (walk.era, walk.rest) = findNextEraSummary walk.atSlot era rest

section Walk

variable {era first : EraSummary} {rest others : List EraSummary}
  (hascending : (era :: rest).Pairwise fun era era' => era.startSlot ≤ era'.startSlot)
  (heffective : effectiveEras (era :: rest) = first :: others)
  (hstart : first.startSlot = era.startSlot) (haligned : Aligned first others)

include hascending heffective in
theorem EpochWalk.Stands.era_eq {walk : EpochWalk} (h : walk.Stands era first rest others) :
    walk.era = (locate walk.atSlot first others).1 := by
  have hfound := congrArg Prod.fst h.found
  rw [findNextEraSummary_era hascending heffective h.started] at hfound
  exact hfound

include hascending heffective hstart haligned in
theorem EpochWalk.Stands.advance {walk : EpochWalk} (h : walk.Stands era first rest others) :
    walk.advance.Stands era first rest others := by
  obtain ⟨hepoch, hfirst⟩ := h.atFirst.next haligned (hstart.le.trans h.started)
  rw [← h.era_eq hascending heffective] at hepoch hfirst
  have hfound := findNextEraSummary_of_le era rest (Nat.le_add_right walk.atSlot walk.era.epochLength)
  rw [← h.found] at hfound
  exact {
    started := h.started.trans (Nat.le_add_right _ _)
    atFirst := hfirst
    epoch := hepoch.trans (congrArg (· + 1) h.epoch)
    found := hfound }

include hstart haligned in
theorem EpochWalk.start_stands :
    ∃ walk, EpochWalk.start (era :: rest) = some walk ∧ walk.atEpoch = 0 ∧
      walk.Stands era first rest others := by
  refine ⟨_, rfl, rfl, ?_⟩
  exact {
    started := le_refl _
    atFirst := hstart ▸ IsFirst.of_startSlot haligned
    epoch := by
      change (locate era.startSlot first others).2 = 0
      rw [← hstart, locate_startSlot haligned]
    found := rfl }

include hascending heffective hstart haligned in
theorem EpochWalk.Stands.walkTo {epochNo : ℕ} {walk : EpochWalk}
    (h : walk.Stands era first rest others) (hepoch : walk.atEpoch ≤ epochNo) :
    ∃ last : EpochWalk, last.Stands era first rest others ∧ last.atEpoch = epochNo ∧
      ∀ fuel, epochNo < walk.atEpoch + fuel → walk.walkTo epochNo fuel = some last.slots := by
  obtain ⟨steps, rfl⟩ := Nat.exists_eq_add_of_le hepoch
  induction steps generalizing walk with
  | zero =>
    refine ⟨walk, h, rfl, ?_⟩
    intro fuel hfuel
    obtain ⟨left, rfl⟩ : ∃ left, fuel = left + 1 := ⟨fuel - 1, by omega⟩
    rw [EpochWalk.walkTo, if_pos (Nat.add_zero _).symm]
  | succ steps ih =>
    have hadvanced : walk.advance.atEpoch = walk.atEpoch + 1 := rfl
    obtain ⟨last, hlast, hat, hwalk⟩ := ih (h.advance hascending heffective hstart haligned)
      (Nat.le_add_right _ _)
    rw [hadvanced] at hat hwalk
    refine ⟨last, hlast, by omega, ?_⟩
    intro fuel hfuel
    obtain ⟨left, rfl⟩ : ∃ left, fuel = left + 1 := ⟨fuel - 1, by omega⟩
    rw [EpochWalk.walkTo, if_neg (by omega),
      show walk.atEpoch + (steps + 1) = walk.atEpoch + 1 + steps by omega]
    exact hwalk left (by omega)

include hascending heffective hstart haligned in
theorem epochSlotsCalcImplementation_eq (epochNo : ℕ) :
    ∃ slot slots, first.startSlot ≤ slot ∧ IsFirst slot first others ∧
      (locate slot first others).2 = epochNo ∧
      (∀ fuel, epochNo < fuel → epochSlotsCalcImplementation fuel epochNo (era :: rest) = some slots) ∧
      slots.firstSlot = slot ∧
      slots.lastSlot = slot + (locate slot first others).1.epochLength - 1 := by
  obtain ⟨walk, hwalk, hzero, hstands⟩ : ∃ walk, EpochWalk.start (era :: rest) = some walk ∧
      walk.atEpoch = 0 ∧ walk.Stands era first rest others := EpochWalk.start_stands hstart haligned
  obtain ⟨last, hlast, hat, hloop⟩ := hstands.walkTo hascending heffective hstart haligned
    (hzero ▸ Nat.zero_le epochNo)
  refine ⟨last.atSlot, last.slots, hstart.le.trans hlast.started, hlast.atFirst,
    hlast.epoch.trans hat, ?_, rfl, ?_⟩
  · intro fuel hfuel
    rw [epochSlotsCalcImplementation, hwalk]
    exact hloop fuel (by omega)
  · rw [← hlast.era_eq hascending heffective]
    rfl

end Walk

section Agreement

variable {era first : EraSummary} {rest others : List EraSummary} {slot : ℕ}
  (hascending : (era :: rest).Pairwise fun era era' => era.startSlot ≤ era'.startSlot)
  (heffective : effectiveEras (era :: rest) = first :: others) (haligned : Aligned first others)

include hascending heffective haligned

theorem createSlotEpochCalc_eq (hslot : first.startSlot ≤ slot) :
    createSlotEpochCalc (era :: rest) slot = .ok (locate slot first others).2 := by
  rw [createSlotEpochCalc, createSlotEpochCalcImpl_eq hascending heffective haligned hslot]
  rfl

theorem createSlotEpochInfoCalc_eq (hslot : first.startSlot ≤ slot) :
    ∃ info, createSlotEpochInfoCalc (era :: rest) slot = .ok info ∧
      info.epochNo = (locate slot first others).2 ∧
      info.firstSlot.slot = epochStart slot (locate slot first others).1 ∧
      info.lastSlot.slot = epochStart slot (locate slot first others).1 +
        (locate slot first others).1.epochLength - 1 := by
  obtain ⟨hfrom, -, hpositive⟩ := locate_era haligned hslot
  have hmem : first ∈ withoutSkippedEras (era :: rest) := by
    rw [withoutSkippedEras_of_ascending hascending, heffective]
    exact List.mem_cons_self
  have hfirst : first.startSlot ≤ epochStart slot (locate slot first others).1 :=
    hfrom.trans (Nat.le_add_right _ _)
  obtain ⟨firstDate, hfirstDate⟩ := createSlotTimeCalc_succeeds hmem hfirst
  have hlast : first.startSlot ≤ epochStart slot (locate slot first others).1 +
      (locate slot first others).1.epochLength - 1 := by omega
  obtain ⟨lastDate, hlastDate⟩ := createSlotTimeCalc_succeeds hmem hlast
  rw [createSlotEpochInfoCalc, createSlotEpochCalcImpl_eq hascending heffective haligned hslot]
  refine ⟨{
    epochNo := (locate slot first others).2
    firstSlot := ⟨epochStart slot (locate slot first others).1, firstDate⟩
    lastSlot := ⟨epochStart slot (locate slot first others).1 +
      (locate slot first others).1.epochLength - 1, lastDate⟩ }, ?_, rfl, rfl, rfl⟩
  unfold epochStart at hfirstDate hlastDate ⊢
  simp only [bind, Except.bind, hfirstDate, hlastDate]
  rfl

end Agreement

/-- The epoch of a slot, the range of its epoch and the slots of that epoch agree. -/
theorem slotCalculators_agree {first : EraSummary} {others : List EraSummary}
    (hvalid : ValidEras (first :: others)) :
    (∀ slot, first.startSlot ≤ slot → ∃ epochNo info slots,
      createSlotEpochCalc (first :: others) slot = .ok epochNo ∧
      createSlotEpochInfoCalc (first :: others) slot = .ok info ∧
      info.epochNo = epochNo ∧ info.firstSlot.slot ≤ slot ∧ slot ≤ info.lastSlot.slot ∧
      (∀ fuel, epochNo < fuel →
        epochSlotsCalcImplementation fuel epochNo (first :: others) = some slots) ∧
      slots.firstSlot = info.firstSlot.slot ∧ slots.lastSlot = info.lastSlot.slot) ∧
    (∀ epochNo, ∃ slots slots',
      (∀ fuel, epochNo < fuel →
        epochSlotsCalcImplementation fuel epochNo (first :: others) = some slots) ∧
      (∀ fuel, epochNo + 1 < fuel →
        epochSlotsCalcImplementation fuel (epochNo + 1) (first :: others) = some slots') ∧
      slots.firstSlot ≤ slots.lastSlot ∧ slots'.firstSlot = slots.lastSlot + 1) ∧
    ∀ slot slot' epochNo epochNo', first.startSlot ≤ slot → slot ≤ slot' →
      createSlotEpochCalc (first :: others) slot = .ok epochNo →
      createSlotEpochCalc (first :: others) slot' = .ok epochNo' → epochNo ≤ epochNo' := by
  obtain ⟨effective, behind, heffective, hstart⟩ := effectiveEras_cons first others
  have haligned := hvalid.aligned_effective heffective
  have hascending := hvalid.ascending
  refine ⟨?_, ?_, ?_⟩
  · intro slot hslot
    have hslot : effective.startSlot ≤ slot := hstart.le.trans hslot
    obtain ⟨info, hinfo, hepochNo, hfirstSlot, hlastSlot⟩ :=
      createSlotEpochInfoCalc_eq hascending heffective haligned hslot
    obtain ⟨begin, slots, hbegin, hfirst, hepoch, hslots, hslotsFirst, hslotsLast⟩ :=
      epochSlotsCalcImplementation_eq hascending heffective hstart haligned
        (locate slot effective behind).2
    obtain ⟨hfrom, hera, hpositive⟩ := locate_era haligned hslot
    obtain ⟨hsame, hisFirst⟩ := locate_epochStart haligned hslot
    -- both first slots are in the epoch of the slot
    have hmeet : begin = epochStart slot (locate slot effective behind).1 :=
      IsFirst.unique haligned hbegin (hfrom.trans (Nat.le_add_right _ _)) hfirst hisFirst
        (by rw [hepoch, hsame])
    have hlt : slot < epochStart slot (locate slot effective behind).1 +
        (locate slot effective behind).1.epochLength := lt_epochStart hpositive
    refine ⟨_, info, slots, createSlotEpochCalc_eq hascending heffective haligned hslot, hinfo,
      hepochNo, ?_, ?_, hslots, ?_, ?_⟩
    · rw [hfirstSlot]
      exact epochStart_le hera
    · omega
    · rw [hslotsFirst, hfirstSlot, hmeet]
    · rw [hslotsLast, hlastSlot, hmeet, hsame]
  · intro epochNo
    obtain ⟨begin, slots, hbegin, hfirst, hepoch, hslots, hslotsFirst, hslotsLast⟩ :=
      epochSlotsCalcImplementation_eq hascending heffective hstart haligned epochNo
    obtain ⟨begin', slots', hbegin', hfirst', hepoch', hslots', hslotsFirst', -⟩ :=
      epochSlotsCalcImplementation_eq hascending heffective hstart haligned (epochNo + 1)
    obtain ⟨hnextEpoch, hnext⟩ := hfirst.next haligned hbegin
    have hpositive := (locate_era haligned hbegin).2.2
    have hmeet : begin' = begin + (locate begin effective behind).1.epochLength :=
      IsFirst.unique haligned hbegin' (hbegin.trans (Nat.le_add_right _ _)) hfirst' hnext
        (by rw [hepoch', hnextEpoch, hepoch])
    exact ⟨slots, slots', hslots, hslots', by omega, by omega⟩
  · intro slot slot' epochNo epochNo' hslot hle hcalc hcalc'
    have hslot : effective.startSlot ≤ slot := hstart.le.trans hslot
    rw [createSlotEpochCalc_eq hascending heffective haligned hslot] at hcalc
    rw [createSlotEpochCalc_eq hascending heffective haligned (hslot.trans hle)] at hcalc'
    cases hcalc
    cases hcalc'
    exact locate_mono haligned hle

/-- Two epochs of ten slots, then epochs of five: an era of epochs of three slots is
skipped. -/
def eraSummaries : EraSummary × List EraSummary :=
  (⟨10, 20, 0, 0⟩, [⟨3, 1, 20, 400⟩, ⟨5, 1, 20, 400⟩, ⟨5, 1, 30, 410⟩])

theorem eraSummaries_valid : ValidEras (eraSummaries.1 :: eraSummaries.2) := by
  exact {
    nonempty := List.cons_ne_nil _ _
    ascending := by decide
    positive := by decide
    aligned := by decide }

theorem slotCalculators_agree_sample :
    ∃ epochNo info slots, createSlotEpochCalc (eraSummaries.1 :: eraSummaries.2) 27 = .ok epochNo ∧
      createSlotEpochInfoCalc (eraSummaries.1 :: eraSummaries.2) 27 = .ok info ∧
      info.epochNo = epochNo ∧ info.firstSlot.slot ≤ 27 ∧ 27 ≤ info.lastSlot.slot ∧
      (∀ fuel, epochNo < fuel →
        epochSlotsCalcImplementation fuel epochNo (eraSummaries.1 :: eraSummaries.2) = some slots) ∧
      slots.firstSlot = info.firstSlot.slot ∧ slots.lastSlot = info.lastSlot.slot :=
  (slotCalculators_agree eraSummaries_valid).1 27 (Nat.zero_le _)

section Order

variable {epochNo : ℕ}

theorem startSlot_le_of_epoch {others : List EraSummary} {first : EraSummary}
    (hascending : eras.Pairwise fun era era' => era.startSlot ≤ era'.startSlot)
    (heffective : effectiveEras eras = first :: others) (haligned : Aligned first others)
    (h : createSlotEpochCalc eras slot = .ok epochNo) : first.startSlot ≤ slot := by
  obtain ⟨_, himpl, _⟩ := bind_ok h
  by_contra hbefore
  have hnone : (first :: others).filter (fun era => decide (era.startSlot ≤ slot)) = [] := by
    rw [List.filter_eq_nil_iff]
    intro era hmem
    have hle : first.startSlot ≤ era.startSlot := by
      rcases List.mem_cons.mp hmem with rfl | hmem
      · exact le_refl _
      · exact ((List.pairwise_cons.mp haligned.strict).1 era hmem).le
    simp only [decide_eq_true_eq]
    omega
  have hempty : orderAsc ([] : List EraSummary) = [] := List.mergeSort_nil
  unfold createSlotEpochCalcImpl at himpl
  simp only [withoutSkippedEras_of_ascending hascending, heffective,
    orderAsc_of_strict haligned.strict, hnone, hempty] at himpl
  cases himpl

variable {epochNo' : ℕ}

theorem createSlotEpochCalc_mono (h : ValidEras eras) {slot' : ℕ} (hle : slot ≤ slot')
    (hepoch : createSlotEpochCalc eras slot = .ok epochNo)
    (hepoch' : createSlotEpochCalc eras slot' = .ok epochNo') : epochNo ≤ epochNo' := by
  cases eras with
  | nil => exact absurd rfl h.nonempty
  | cons era rest =>
    obtain ⟨first, others, heffective, _⟩ := effectiveEras_cons era rest
    have haligned := h.aligned_effective heffective
    have hslot := startSlot_le_of_epoch h.ascending heffective haligned hepoch
    have heq := createSlotEpochCalc_eq h.ascending heffective haligned hslot
    have heq' := createSlotEpochCalc_eq h.ascending heffective haligned (hslot.trans hle)
    have hepochNo := Except.ok.inj (hepoch.symm.trans heq)
    have hepochNo' := Except.ok.inj (hepoch'.symm.trans heq')
    rw [hepochNo, hepochNo']
    exact locate_mono haligned hle

theorem lastSlot_lt (h : ValidEras eras) {fuel : ℕ} {slots : EpochSlots}
    (hepoch : createSlotEpochCalc eras slot = .ok epochNo') (hlater : epochNo < epochNo')
    (hfuel : epochNo < fuel)
    (hslots : epochSlotsCalcImplementation fuel epochNo eras = some slots) :
    slots.lastSlot < slot := by
  cases eras with
  | nil => exact absurd rfl h.nonempty
  | cons era rest =>
    obtain ⟨first, others, heffective, hstart⟩ := effectiveEras_cons era rest
    have haligned := h.aligned_effective heffective
    have hslot := startSlot_le_of_epoch h.ascending heffective haligned hepoch
    have heq := createSlotEpochCalc_eq h.ascending heffective haligned hslot
    have hlocated := Except.ok.inj (hepoch.symm.trans heq)
    obtain ⟨firstSlot, slots', hfrom, hfirst, hat, hcomputed, _, hlast⟩ :=
      epochSlotsCalcImplementation_eq h.ascending heffective hstart haligned epochNo
    cases (hcomputed fuel hfuel).symm.trans hslots
    obtain ⟨hnextEpoch, hnextFirst⟩ := hfirst.next haligned hfrom
    have hpositive := (locate_era haligned hfrom).2.2
    have hnext : firstSlot + (locate firstSlot first others).1.epochLength ≤ slot := by
      by_contra hbefore
      have hlt := IsFirst.lt haligned hslot (Nat.lt_of_not_le hbefore) hnextFirst
      omega
    omega

/-- The two calculators are inverse to each other: a slot lies within the slots of an epoch
exactly if it is of that epoch. -/
theorem within_epochSlots_iff {first : EraSummary} {others : List EraSummary}
    (hvalid : ValidEras (first :: others)) (slot epochNo : ℕ) (hslot : first.startSlot ≤ slot) :
    ∃ slots, (∀ fuel, epochNo < fuel →
        epochSlotsCalcImplementation fuel epochNo (first :: others) = some slots) ∧
      (slots.firstSlot ≤ slot ∧ slot ≤ slots.lastSlot ↔
        createSlotEpochCalc (first :: others) slot = .ok epochNo) := by
  obtain ⟨effective, behind, heffective, hstart⟩ := effectiveEras_cons first others
  have haligned := hvalid.aligned_effective heffective
  obtain ⟨begin, slots, hbegin, hfirst, hepoch, hslots, hfirstSlot, hlastSlot⟩ :=
    epochSlotsCalcImplementation_eq hvalid.ascending heffective hstart haligned epochNo
  have hslot : effective.startSlot ≤ slot := hstart.le.trans hslot
  have hpositive := (locate_era haligned hbegin).2.2
  obtain ⟨hnextEpoch, hnext⟩ := hfirst.next haligned hbegin
  refine ⟨slots, hslots, ?_⟩
  rw [createSlotEpochCalc_eq hvalid.ascending heffective haligned hslot, Except.ok.injEq,
    hfirstSlot, hlastSlot]
  constructor
  · rintro ⟨hafter, hbefore⟩
    have hlower := locate_mono haligned hafter
    have hupper := hnext.lt haligned hslot (by omega)
    omega
  · intro hsame
    constructor
    · by_contra hbefore
      have hlt := hfirst.lt haligned hslot (Nat.lt_of_not_le hbefore)
      omega
    · by_contra hafter
      have hbehind : begin + (locate begin effective behind).1.epochLength ≤ slot := by omega
      have hle := locate_mono haligned hbehind
      omega

theorem within_epochSlots_iff_sample :
    ∃ slots, (∀ fuel, 3 < fuel →
        epochSlotsCalcImplementation fuel 3 (eraSummaries.1 :: eraSummaries.2) = some slots) ∧
      (slots.firstSlot ≤ 27 ∧ 27 ≤ slots.lastSlot ↔
        createSlotEpochCalc (eraSummaries.1 :: eraSummaries.2) 27 = .ok 3) :=
  within_epochSlots_iff eraSummaries_valid 27 3 (by decide)

end Order

end CardanoSdk.Util
