import CardanoSdk.Lib.ForkRuns
import CardanoSdk.Projection.Types
import CardanoSdk.Util.SlotCalc

/-!
`withEpochNo` and `withEpochBoundary`: an event crosses an epoch boundary if its epoch is
not that of the event before it. The era summaries are the same for all events of a run,
as `withNetworkInfo` takes them only once. Of a block the header is all that is read.
-/

namespace CardanoSdk.Projection

open Lib Util
open Wallet (PartialBlockHeader)

structure WithEpochNo where
  event : ChainEvent PartialBlockHeader
  epochNo : ℕ

structure WithEpochBoundary extends WithEpochNo where
  crossEpochBoundary : Bool

section Run

variable (eraSummaries : List EraSummary) (intersection : PointOrOrigin)

def withEpochNo (event : ChainEvent PartialBlockHeader) : Except SlotCalcException WithEpochNo := do
  let epochNo ← createSlotEpochCalc eraSummaries event.block.slot
  return { event, epochNo }

/-- What stands for the epoch before when there is no event that says it. -/
def intersectionEpoch : PointOrOrigin → Except SlotCalcException ℕ
  | .origin => .ok 0
  | .point point => createSlotEpochCalc eraSummaries point.slot

/-- `prevEvt?.epochNo || …`: epoch 0 is no better than none. -/
def prevEpoch (prevEvt : Option WithEpochNo) : Except SlotCalcException ℕ :=
  match prevEvt with
  | some prevEvt =>
    if prevEvt.epochNo = 0 then intersectionEpoch eraSummaries intersection
    else .ok prevEvt.epochNo
  | none => intersectionEpoch eraSummaries intersection

/-- `startWith(null)`, `pairwise()` and `map`, from the event before. -/
def withEpochBoundary (prevEvt : Option WithEpochNo) :
    List WithEpochNo → Except SlotCalcException (List WithEpochBoundary)
  | [] => .ok []
  | evt :: rest => do
      let prevEpoch ← prevEpoch eraSummaries intersection prevEvt
      let events ← withEpochBoundary (some evt) rest
      return { evt with crossEpochBoundary := prevEpoch ≠ evt.epochNo } :: events

def bootstrapEvents (events : List (ChainEvent PartialBlockHeader)) :
    Except SlotCalcException (List WithEpochBoundary) := do
  let events ← events.mapM (withEpochNo eraSummaries)
  withEpochBoundary eraSummaries intersection none events

end Run

def tipEpoch (eraSummaries : List EraSummary) :
    List PartialBlockHeader → Except SlotCalcException ℕ
  | [] => .ok 0
  | tip :: _ => createSlotEpochCalc eraSummaries tip.slot

/-- The run starts at the intersection point. -/
def IsTip : PointOrOrigin → List PartialBlockHeader → Prop
  | .origin, chain => chain = []
  | .point point, chain => ∃ tip below, chain = tip :: below ∧ tip.slot = point.slot ∧
      tip.hash = point.hash

/-- Every roll forward is flagged as what it is to the chain it extends. -/
def RightlyFlagged (eraSummaries : List EraSummary) :
    List PartialBlockHeader → List WithEpochBoundary → Prop
  | _, [] => True
  | chain, evt :: rest =>
    (∀ block, evt.event = .forward block → (evt.crossEpochBoundary = true ↔
      createSlotEpochCalc eraSummaries block.slot ≠ tipEpoch eraSummaries chain)) ∧
    RightlyFlagged eraSummaries (evt.event.advance chain) rest

def Alike {α : Type} (a b c : α) : Prop := a = b ∨ a ≠ c ∧ b ≠ c

/-- The epoch of the block of the event before, where epoch 0 counts as that of
the intersection. -/
def eventEpoch (eraSummaries : List EraSummary) (intersection : PointOrOrigin)
    (event : ChainEvent PartialBlockHeader) : Except SlotCalcException ℕ :=
  let epoch := createSlotEpochCalc eraSummaries event.block.slot
  if epoch = .ok 0 then intersectionEpoch eraSummaries intersection else epoch

/-- At no roll forward does it matter whether the epoch before is read off the
event before or off the tip. -/
def Undisturbed (eraSummaries : List EraSummary) (intersection : PointOrOrigin) :
    Option (ChainEvent PartialBlockHeader) → List PartialBlockHeader →
      List (ChainEvent PartialBlockHeader) → Prop
  | _, _, [] => True
  | before, chain, event :: rest =>
    (∀ block, event = .forward block → ∀ previous, before = some previous →
      Alike (eventEpoch eraSummaries intersection previous) (tipEpoch eraSummaries chain)
        (createSlotEpochCalc eraSummaries block.slot)) ∧
    Undisturbed eraSummaries intersection (some event) (event.advance chain) rest

variable {eraSummaries : List EraSummary} {intersection : PointOrOrigin}

variable {event : ChainEvent PartialBlockHeader} {evt : WithEpochNo} {α : Type}
  {before : Option (ChainEvent PartialBlockHeader)}

theorem withEpochNo_ok (h : withEpochNo eraSummaries event = .ok evt) :
    evt.event = event ∧ createSlotEpochCalc eraSummaries event.block.slot = .ok evt.epochNo := by
  obtain ⟨epochNo, hepoch, h⟩ := bind_ok h
  cases h
  exact ⟨rfl, hepoch⟩

variable {chain : List PartialBlockHeader}

theorem tipEpoch_of_isTip (h : IsTip intersection chain) :
    tipEpoch eraSummaries chain = intersectionEpoch eraSummaries intersection := by
  cases intersection with
  | origin =>
    rw [IsTip] at h
    rw [h]
    rfl
  | point point =>
    obtain ⟨tip, below, rfl, hslot, _⟩ := h
    rw [tipEpoch, hslot]
    rfl

/-- What the operator takes for the epoch before, after the events `before`. -/
def epochBefore (eraSummaries : List EraSummary) (intersection : PointOrOrigin)
    (before : Option (ChainEvent PartialBlockHeader)) : Except SlotCalcException ℕ :=
  before.elim (intersectionEpoch eraSummaries intersection)
    (eventEpoch eraSummaries intersection)

theorem prevEpoch_some (h : withEpochNo eraSummaries event = .ok evt) :
    prevEpoch eraSummaries intersection (some evt) =
      epochBefore eraSummaries intersection (some event) := by
  obtain ⟨_, hepoch⟩ := withEpochNo_ok h
  rw [prevEpoch, epochBefore, Option.elim_some, eventEpoch, hepoch]
  simp only [Except.ok.injEq]

theorem alike_iff {a b c : α} : Alike a b c ↔ (a ≠ c ↔ c ≠ b) := by
  rw [Alike]
  by_cases hac : a = c
  · subst hac
    simp
  · by_cases hbc : b = c
    · subst hbc
      simp [hac]
    · simp [hac, hbc, Ne.symm hbc]

theorem alike_rfl {a c : α} : Alike a a c := Or.inl rfl

theorem crossEpochBoundary_iff_alike
    (hstart : before = none →
      tipEpoch eraSummaries chain = intersectionEpoch eraSummaries intersection)
    {epoch epochNo : ℕ} (hbefore : epochBefore eraSummaries intersection before = .ok epoch)
    {block : PartialBlockHeader}
    (hepochNo : createSlotEpochCalc eraSummaries block.slot = .ok epochNo) :
    (decide (epoch ≠ epochNo) = true ↔
        createSlotEpochCalc eraSummaries block.slot ≠ tipEpoch eraSummaries chain) ↔
      ∀ previous, before = some previous →
        Alike (eventEpoch eraSummaries intersection previous) (tipEpoch eraSummaries chain)
          (createSlotEpochCalc eraSummaries block.slot) := by
  have hflag : decide (epoch ≠ epochNo) = true ↔
      epochBefore eraSummaries intersection before ≠
        createSlotEpochCalc eraSummaries block.slot := by
    rw [decide_eq_true_iff, hbefore, hepochNo, Ne, Ne, Except.ok.injEq]
  rw [hflag, ← alike_iff]
  cases before with
  | none =>
    rw [hstart rfl]
    exact iff_of_true alike_rfl fun _ hprevious => nomatch hprevious
  | some previous =>
    constructor
    · intro halike _ hprevious
      cases hprevious
      exact halike
    · intro halike
      exact halike previous rfl

theorem rightlyFlagged_iff_alike {events : List (ChainEvent PartialBlockHeader)}
    {evts : List WithEpochNo} {flagged : List WithEpochBoundary}
    (hevents : List.Forall₂ (fun event evt => withEpochNo eraSummaries event = .ok evt) events evts)
    {prevEvt : Option WithEpochNo}
    (hbefore : prevEpoch eraSummaries intersection prevEvt =
      epochBefore eraSummaries intersection before)
    (hstart : before = none →
      tipEpoch eraSummaries chain = intersectionEpoch eraSummaries intersection)
    (h : withEpochBoundary eraSummaries intersection prevEvt evts = .ok flagged) :
    RightlyFlagged eraSummaries chain flagged ↔
      Undisturbed eraSummaries intersection before chain events := by
  induction hevents generalizing before prevEvt chain flagged with
  | nil =>
    cases h
    exact iff_of_true trivial trivial
  | @cons event evt events evts hevent _ ih =>
    obtain ⟨epoch, hepoch, h⟩ := bind_ok h
    obtain ⟨rest, hrest, h⟩ := bind_ok h
    cases h
    obtain ⟨rfl, hslot⟩ := withEpochNo_ok hevent
    refine and_congr ?_ (ih (prevEpoch_some hevent) (fun hnone => nomatch hnone) hrest)
    apply forall_congr'
    intro block
    apply imp_congr_right
    intro hforward
    rw [hforward] at hslot
    exact crossEpochBoundary_iff_alike hstart (hbefore.symm.trans hepoch) hslot

/-- In a run from the intersection point the flags of the roll forwards are right
exactly if the run is undisturbed. -/
theorem withEpochBoundary_right_iff {start : List PartialBlockHeader}
    {events : List (ChainEvent PartialBlockHeader)} {flagged : List WithEpochBoundary}
    (hstart : IsTip intersection start)
    (h : bootstrapEvents eraSummaries intersection events = .ok flagged) :
    RightlyFlagged eraSummaries start flagged ↔
      Undisturbed eraSummaries intersection none start events := by
  obtain ⟨evts, hevents, h⟩ := bind_ok h
  exact rightlyFlagged_iff_alike (forall₂_of_mapM_ok hevents) rfl
    (fun _ => tipEpoch_of_isTip hstart) h

/-! A block is rolled back, and another one takes its place. -/

def tenSlotEra : EraSummary :=
  { epochLength := 10, slotLength := 1, startSlot := 0, startTime := 0 }

theorem createSlotEpochCalc_tenSlotEra (slot : ℕ) :
    createSlotEpochCalc [tenSlotEra] slot = .ok (slot / 10) := by
  have hskipped : withoutSkippedEras [tenSlotEra] = [tenSlotEra] := rfl
  have hfilter : [tenSlotEra].filter (fun era => era.startSlot ≤ slot) = [tenSlotEra] :=
    List.filter_eq_self.mpr (by simp [tenSlotEra])
  have hsorted : orderAsc [tenSlotEra] = [tenSlotEra] := List.mergeSort_singleton _
  simp only [createSlotEpochCalc, createSlotEpochCalcImpl, hskipped, hsorted, hfilter]
  simp [tenSlotEra, sumEpochs]

theorem mapM_withEpochNo_tenSlotEra (events : List (ChainEvent PartialBlockHeader)) :
    events.mapM (withEpochNo [tenSlotEra]) =
      .ok (events.map fun event => { event, epochNo := event.block.slot / 10 }) := by
  apply mapM_ok_map
  intro event _
  rw [withEpochNo, createSlotEpochCalc_tenSlotEra]
  rfl

def headerAt (slot : ℕ) : PartialBlockHeader := { blockNo := slot, slot, hash := "" }

/-- The first block of epoch 1 extends the origin, is rolled back, and the block
that extends the origin in its place is not flagged. -/
def forkAtBoundary : List (ChainEvent PartialBlockHeader) :=
  [.forward (headerAt 10), .backward (headerAt 10), .forward (headerAt 11)]

theorem bootstrapEvents_forkAtBoundary :
    bootstrapEvents [tenSlotEra] .origin forkAtBoundary = .ok
      [{ event := .forward (headerAt 10), epochNo := 1, crossEpochBoundary := true },
        { event := .backward (headerAt 10), epochNo := 1, crossEpochBoundary := false },
        { event := .forward (headerAt 11), epochNo := 1, crossEpochBoundary := false }] := by
  rw [bootstrapEvents, mapM_withEpochNo_tenSlotEra]
  rfl

theorem withEpochBoundary_not_right :
    IsTip .origin [] ∧
    RunsAlong (fun _ => True) [] forkAtBoundary [headerAt 11] ∧
    okAnd (fun flagged => flagged.map WithEpochBoundary.crossEpochBoundary = [true, false, false])
      (bootstrapEvents [tenSlotEra] .origin forkAtBoundary) = true ∧
    ¬∀ flagged, bootstrapEvents [tenSlotEra] .origin forkAtBoundary = .ok flagged →
      RightlyFlagged [tenSlotEra] [] flagged := by
  refine ⟨rfl, .forward trivial (.backward (.forward trivial .nil)), ?_, ?_⟩
  · rw [bootstrapEvents_forkAtBoundary]
    rfl
  · intro hright
    obtain ⟨_, _, hsecond, _⟩ := hright _ bootstrapEvents_forkAtBoundary
    have hflag := (hsecond (headerAt 11) rfl).mpr
    rw [createSlotEpochCalc_tenSlotEra] at hflag
    exact Bool.noConfusion (hflag (by simp [tipEpoch, headerAt, ChainEvent.advance]))

/-- A chain that only grows. -/
theorem withEpochBoundary_right_forward :
    RightlyFlagged [tenSlotEra] []
      [{ event := .forward (headerAt 10), epochNo := 1, crossEpochBoundary := true },
        { event := .forward (headerAt 20), epochNo := 2, crossEpochBoundary := true }] := by
  refine (@withEpochBoundary_right_iff [tenSlotEra] .origin []
    [.forward (headerAt 10), .forward (headerAt 20)] _ rfl ?_).mpr ⟨?_, ?_, trivial⟩
  · rw [bootstrapEvents, mapM_withEpochNo_tenSlotEra]
    rfl
  · intro _ _ _ hnone
    cases hnone
  · intro _ _ _ hprevious
    cases hprevious
    apply Or.inl
    simp [eventEpoch, createSlotEpochCalc_tenSlotEra, ChainEvent.block, ChainEvent.advance,
      tipEpoch, headerAt]

end CardanoSdk.Projection
