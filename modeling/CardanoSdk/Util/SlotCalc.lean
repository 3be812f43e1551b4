import CardanoSdk.Lib.Memoize

/-!
`core/src/util/slotCalc.ts`. Slots and lengths are naturals: the calculators subtract only
slots that are not later, and their quotients of integers below 2^53 are exact.
`epochSlotsCalc` is wrapped by lodash's `memoize`: the key of a call is its first
argument.
-/

namespace CardanoSdk.Util

open Lib

structure EraSummary where
  epochLength : ℕ
  slotLength : ℤ
  startSlot : ℕ
  startTime : ℤ
  deriving DecidableEq

inductive SlotCalcException where
  | eraSummaryError (message : String)
  deriving DecidableEq

def noEraSummary (slotNo : ℕ) : SlotCalcException :=
  .eraSummaryError ("No EraSummary for slot " ++ toString slotNo ++ " found")

/-- `Object.values(groupBy(eraSummaries, 'start.slot')).map(last)`. The values of
an object are listed in an order of its own; they are sorted wherever they are
used, and no two of them start at the same slot. -/
def withoutSkippedEras (eraSummaries : List EraSummary) : List EraSummary :=
  (JsMap.ofList (eraSummaries.map fun era => (era.startSlot, era))).entries.map Prod.snd

/-- `orderBy(eras, ({ start }) => start.slot)` -/
def orderAsc (eras : List EraSummary) : List EraSummary :=
  eras.mergeSort fun era era' => decide (era.startSlot ≤ era'.startSlot)

/-- `orderBy(eras, ({ start }) => start.slot, 'desc')` -/
def orderDesc (eras : List EraSummary) : List EraSummary :=
  eras.mergeSort fun era era' => decide (era'.startSlot ≤ era.startSlot)

/-- The loop over the relevant eras: the last of them and the epoch number. -/
def sumEpochs (slotNo : ℕ) : ℕ → EraSummary → List EraSummary → EraSummary × ℕ
  | epochNo, current, [] => (current, epochNo + (slotNo - current.startSlot) / current.epochLength)
  | epochNo, current, next :: rest =>
    -- `nextEraSummary?.start.slot || slotNo`
    let endSlot := if next.startSlot = 0 then slotNo else next.startSlot
    sumEpochs slotNo (epochNo + (endSlot - current.startSlot) / current.epochLength) next rest

def createSlotEpochCalcImpl (eraSummaries : List EraSummary) (slotNo : ℕ) :
    Except SlotCalcException (EraSummary × ℕ) :=
  let eraSummariesAsc := orderAsc (withoutSkippedEras eraSummaries)
  match orderAsc (eraSummariesAsc.filter fun era => era.startSlot ≤ slotNo) with
  | [] => .error (noEraSummary slotNo)
  | first :: rest => .ok (sumEpochs slotNo 0 first rest)

def createSlotEpochCalc (eraSummaries : List EraSummary) (slotNo : ℕ) :
    Except SlotCalcException ℕ := do
  let (_, epochNo) ← createSlotEpochCalcImpl eraSummaries slotNo
  return epochNo

def createSlotTimeCalc (eraSummaries : List EraSummary) (slotNo : ℕ) :
    Except SlotCalcException ℤ :=
  let eraSummariesDesc := orderDesc (withoutSkippedEras eraSummaries)
  match eraSummariesDesc.find? fun era => era.startSlot ≤ slotNo with
  | some active => .ok (active.startTime + ↑(slotNo - active.startSlot) * active.slotLength)
  | none => .error (noEraSummary slotNo)

structure SlotDate where
  slot : ℕ
  date : ℤ
  deriving DecidableEq

structure EpochInfo where
  epochNo : ℕ
  firstSlot : SlotDate
  lastSlot : SlotDate
  deriving DecidableEq

def createSlotEpochInfoCalc (eraSummaries : List EraSummary) (slot : ℕ) :
    Except SlotCalcException EpochInfo := do
  let (era, epochNo) ← createSlotEpochCalcImpl eraSummaries slot
  let firstSlot := era.startSlot + (slot - era.startSlot) / era.epochLength * era.epochLength
  let lastSlot := firstSlot + era.epochLength - 1
  let firstDate ← createSlotTimeCalc eraSummaries firstSlot
  let lastDate ← createSlotTimeCalc eraSummaries lastSlot
  return { epochNo := epochNo, firstSlot := ⟨firstSlot, firstDate⟩, lastSlot := ⟨lastSlot, lastDate⟩ }

/-- `eraSummaryIdx` is the place of `era` in the list, which goes on with `rest`. -/
structure EpochWalk where
  atEpoch : ℕ
  atSlot : ℕ
  era : EraSummary
  rest : List EraSummary
  deriving DecidableEq

def findNextEraSummary (atSlot : ℕ) : EraSummary → List EraSummary → EraSummary × List EraSummary
  | era, [] => (era, [])
  | era, next :: rest =>
    if next.startSlot ≤ atSlot then findNextEraSummary atSlot next rest else (era, next :: rest)

def EpochWalk.advance (walk : EpochWalk) : EpochWalk :=
  let atSlot := walk.atSlot + walk.era.epochLength
  let (era, rest) := findNextEraSummary atSlot walk.era walk.rest
  { atEpoch := walk.atEpoch + 1, atSlot := atSlot, era := era, rest := rest }

structure EpochSlots where
  eraSummary : EraSummary
  firstSlot : ℕ
  lastSlot : ℕ
  deriving DecidableEq

def EpochWalk.slots (walk : EpochWalk) : EpochSlots where
  eraSummary := walk.era
  firstSlot := walk.atSlot
  lastSlot := walk.atSlot + walk.era.epochLength - 1

/-- The loop, which the fuel bounds: without fuel there is no result. -/
def EpochWalk.walkTo (epochNo : ℕ) : ℕ → EpochWalk → Option EpochSlots
  | 0, _ => none
  | fuel + 1, walk => if walk.atEpoch = epochNo then some walk.slots else walkTo epochNo fuel walk.advance

/-- The state before the loop; there is none without eras. -/
def EpochWalk.start : List EraSummary → Option EpochWalk
  | [] => none
  | first :: others =>
    let (era, rest) := findNextEraSummary first.startSlot first others
    some { atEpoch := 0, atSlot := first.startSlot, era := era, rest := rest }

def epochSlotsCalcImplementation (fuel epochNo : ℕ) (eraSummaries : List EraSummary) :
    Option EpochSlots :=
  (EpochWalk.start eraSummaries).bind fun walk => walk.walkTo epochNo fuel

structure EpochSlotsArgs where
  epochNo : ℕ
  eraSummaries : List EraSummary
  deriving DecidableEq

/-- The loop has a round for every epoch and one to leave it. Without eras the
calculator throws. -/
def EpochSlotsArgs.implementation (args : EpochSlotsArgs) : Option EpochSlots :=
  epochSlotsCalcImplementation (args.epochNo + 1) args.epochNo args.eraSummaries

/-- What a run of calls to `epochSlotsCalc` answers. -/
def epochSlotsCalc (calls : List EpochSlotsArgs) : List (Option EpochSlots) :=
  answers EpochSlotsArgs.epochNo EpochSlotsArgs.implementation calls

theorem EpochWalk.walkTo_isSome {epochNo : ℕ} {fuel : ℕ} {walk : EpochWalk}
    (hlower : walk.atEpoch ≤ epochNo) (hupper : epochNo < walk.atEpoch + fuel) :
    (walk.walkTo epochNo fuel).isSome := by
  induction fuel generalizing walk with
  | zero => omega
  | succ fuel ih =>
    rw [EpochWalk.walkTo]
    split
    · rfl
    · have hnext : walk.advance.atEpoch = walk.atEpoch + 1 := rfl
      exact ih (by omega) (by omega)

theorem implementation_isSome_iff {args : EpochSlotsArgs} :
    args.implementation.isSome ↔ args.eraSummaries ≠ [] := by
  obtain ⟨epochNo, eraSummaries⟩ := args
  cases eraSummaries with
  | nil => exact iff_of_false (fun h => by cases h) (fun h => h rfl)
  | cons first others =>
    refine iff_of_true ?_ (List.cons_ne_nil _ _)
    exact EpochWalk.walkTo_isSome (Nat.zero_le _) (by rw [Nat.zero_add]; exact Nat.lt_succ_self _)

/-- The eras of two calls put the epoch at the same slots, in the same era. -/
def SameSlots (epochNo : ℕ) (eraSummaries eraSummaries' : List EraSummary) : Prop :=
  EpochSlotsArgs.implementation ⟨epochNo, eraSummaries⟩ =
    EpochSlotsArgs.implementation ⟨epochNo, eraSummaries'⟩

/-- Every call of a run is answered by its own arguments exactly if calls with one
epoch number, but for those that threw, have eras that agree on this epoch. -/
theorem epochSlotsCalc_eq_iff (calls : List EpochSlotsArgs) :
    epochSlotsCalc calls = calls.map EpochSlotsArgs.implementation ↔
      calls.Pairwise fun earlier args => earlier.epochNo = args.epochNo →
        earlier.eraSummaries ≠ [] → SameSlots args.epochNo args.eraSummaries earlier.eraSummaries := by
  rw [epochSlotsCalc, answers_eq_iff]
  refine List.Pairwise.iff ?_
  rintro ⟨epochNo, eraSummaries⟩ ⟨epochNo', eraSummaries'⟩
  rw [Agree, implementation_isSome_iff]
  constructor
  · rintro hagree rfl hsome
    exact hagree rfl hsome
  · rintro hsame rfl hsome
    exact hsame rfl hsome

/-- The first era of the main network and that of a test network with shorter
epochs. -/
def mainnetByron : EraSummary := ⟨21600, 20000, 0, 1506203091000⟩

def previewShelley : EraSummary := ⟨86400, 1000, 0, 1666656000000⟩

/-- After a call for one network the other gets its answer. -/
theorem epochSlotsCalc_mixes_networks :
    epochSlotsCalc [⟨1, [mainnetByron]⟩, ⟨1, [previewShelley]⟩] ≠
      [⟨1, [mainnetByron]⟩, ⟨1, [previewShelley]⟩].map EpochSlotsArgs.implementation := by
  decide

end CardanoSdk.Util
