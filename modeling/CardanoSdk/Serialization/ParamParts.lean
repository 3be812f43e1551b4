import CardanoSdk.Serialization.KeyedEncoding
import CardanoSdk.Serialization.MapsInStep

/-!
The structures that a protocol parameter update holds come back from their encodings.
-/

namespace CardanoSdk.Serialization

open Lib Cbor Plutus Cardano

structure UnitInterval.Valid (interval : UnitInterval) : Prop where
  numerator : FitsHead interval.numerator
  denominator : FitsHead interval.denominator
  originalBytes : interval.originalBytes = none

/-- The same but for cached bytes. -/
def UnitInterval.Same (interval interval' : UnitInterval) : Prop :=
  interval.numerator = interval'.numerator ∧ interval.denominator = interval'.denominator

def pairBytes (first second : ℤ) : List UInt8 :=
  encodeHead .array 2 ++ (encodeInt first ++ encodeInt second)

def intervalBytes (interval : UnitInterval) : List UInt8 :=
  encodeHead .tag rationalNumberTag ++ pairBytes interval.numerator interval.denominator

/-- The interval with its encoding in the cache. -/
def UnitInterval.decoded (interval : UnitInterval) : UnitInterval :=
  { interval with originalBytes := some (intervalBytes interval) }

theorem UnitInterval.same_decoded (interval : UnitInterval) : interval.decoded.Same interval :=
  ⟨rfl, rfl⟩

variable {costs : List ℤ} {first second : ℤ}

theorem items_pair (hfirst : FitsHead first) (hsecond : FitsHead second) :
    Items 2 (encodeInt first ++ encodeInt second) :=
  Items.cons (dataItem_encodeInt hfirst.1 hfirst.2)
    (items_one (dataItem_encodeInt hsecond.1 hsecond.2))

theorem dataItem_pair (hfirst : FitsHead first) (hsecond : FitsHead second) :
    DataItem (pairBytes first second) :=
  dataItem_fixedArray (by decide) (items_pair hfirst hsecond)

theorem encodes_pair (hfirst : FitsHead first) (hsecond : FitsHead second) :
    Encodes (do
      writing (writeStartArray (some 2))
      writing (writeInt first)
      writing (writeInt second)) (pairBytes first second) :=
  Encodes.write (writes_startArray (by decide))
    (Encodes.write (writes_int hfirst.1 hfirst.2)
      (encodes_writing (writes_int hsecond.1 hsecond.2)))

section Interval

variable {interval : UnitInterval} (hvalid : interval.Valid)
include hvalid

theorem UnitInterval.toCbor_ok : interval.toCbor = .ok (intervalBytes interval) := by
  rw [UnitInterval.toCbor, hvalid.originalBytes, cachedOr_none]
  exact encodeAsHex_ok (Encodes.write (writes_typeValue .tag (by decide))
    (encodes_pair hvalid.numerator hvalid.denominator))

theorem dataItem_interval : DataItem (intervalBytes interval) :=
  dataItem_encodeTag (by decide) (dataItem_pair hvalid.numerator hvalid.denominator)

theorem UnitInterval.fromCbor_ok (hlength : (intervalBytes interval).length < 2 ^ 53) :
    UnitInterval.fromCbor (intervalBytes interval) = .ok interval.decoded := by
  apply ReadsItem.decodeWith _ hlength
  apply readsItem_tag (by decide)
  rw [if_neg (not_not.mpr rfl)]
  refine readsItem_fixedArray (by decide)
    (items_pair hvalid.numerator hvalid.denominator).le_length ?_
  have hnumerator := readsItem_int hvalid.numerator.1 hvalid.numerator.2
  have hdenominator := readsItem_int hvalid.denominator.1 hvalid.denominator.2
  change Reads _ (1 + 1) _ _
  refine hnumerator.bind ?_
  exact hdenominator.last fun _ => rfl

theorem encodes_interval : Encodes (writeInterval interval) (intervalBytes interval) :=
  Encodes.encode (UnitInterval.toCbor_ok hvalid) (encodes_writing (writes_encodedValue _))

theorem readsItem_interval (hlength : (intervalBytes interval).length < 2 ^ 53) :
    ReadsItem readInterval (intervalBytes interval) interval.decoded :=
  readsItem_part (dataItem_interval hvalid) (UnitInterval.fromCbor_ok hvalid hlength)

theorem kept_interval : Kept writeInterval readInterval UnitInterval.Same interval :=
  ⟨_, _, encodes_interval hvalid, dataItem_interval hvalid, readsItem_interval hvalid,
    interval.same_decoded⟩

end Interval

structure ProtocolVersion.Valid (version : ProtocolVersion) : Prop where
  major : IsNumber version.major
  minor : 0 ≤ version.minor ∧ version.minor ≤ maxWord32
  originalBytes : version.originalBytes = none

def ProtocolVersion.Same (version version' : ProtocolVersion) : Prop :=
  version.major = version'.major ∧ version.minor = version'.minor

theorem kept_protocolVersion {version : ProtocolVersion} (hvalid : version.Valid) :
    Kept (writePart ProtocolVersion.toCbor) (readPart ProtocolVersion.fromCbor)
      ProtocolVersion.Same version := by
  obtain ⟨hnonneg, hsmall⟩ := hvalid.minor
  unfold maxWord32 at hsmall
  have hminor : FitsHead version.minor := ⟨by omega, by omega⟩
  have hexact : toNumber version.minor = version.minor := toNumber_of_natAbs_lt (by omega)
  have hmajor := hvalid.major.fits
  refine kept_part ⟨version.major, version.minor, some (pairBytes version.major version.minor)⟩ ?_
    (dataItem_pair hmajor hminor) (fun hlength => ?_) ⟨rfl, rfl⟩
  · rw [ProtocolVersion.toCbor, hvalid.originalBytes, cachedOr_none,
      if_neg (by unfold maxWord32; omega)]
    exact encodeAsHex_ok (encodes_pair hmajor hminor)
  · apply ReadsItem.decodeWith _ hlength
    refine readsItem_fixedArray (by decide) (items_pair hmajor hminor).le_length ?_
    change Reads _ (1 + 1) _ _
    refine (readsItem_int hmajor.1 hmajor.2).bind ?_
    refine (readsItem_int hminor.1 hminor.2).last fun reader => ?_
    rw [hvalid.major.exact, hexact]
    rfl

structure ExUnits.Valid (exUnits : ExUnits) : Prop where
  mem : exUnits.mem < 2 ^ 64
  steps : exUnits.steps < 2 ^ 64
  originalBytes : exUnits.originalBytes = none

def ExUnits.Same (exUnits exUnits' : ExUnits) : Prop :=
  exUnits.mem = exUnits'.mem ∧ exUnits.steps = exUnits'.steps

theorem fitsHead_natCast {value : ℕ} (h : value < 2 ^ 64) : FitsHead value :=
  ⟨by omega, by omega⟩

variable {mem steps rounds : ℕ} {interval : UnitInterval}

theorem dataItem_exUnits (hmem : mem < 2 ^ 64) (hsteps : steps < 2 ^ 64) :
    DataItem (pairBytes mem steps) :=
  dataItem_pair (fitsHead_natCast hmem) (fitsHead_natCast hsteps)

theorem ExUnits.fromCbor_ok (hmem : mem < 2 ^ 64) (hsteps : steps < 2 ^ 64)
    (hlength : (pairBytes mem steps).length < 2 ^ 53) :
    ExUnits.fromCbor (pairBytes mem steps) = .ok ⟨mem, steps, some (pairBytes mem steps)⟩ := by
  apply ReadsItem.decodeWith _ hlength
  refine readsItem_fixedArray (by decide)
    (items_pair (fitsHead_natCast hmem) (fitsHead_natCast hsteps)).le_length ?_
  change Reads _ (1 + 1) _ _
  refine (readsItem_uint hmem).bind ?_
  exact (readsItem_uint hsteps).last fun _ => rfl

theorem kept_exUnits {exUnits : ExUnits} (hvalid : exUnits.Valid) :
    Kept (writePart ExUnits.toCbor) (readPart ExUnits.fromCbor) ExUnits.Same exUnits := by
  have hmem := fitsHead_natCast hvalid.mem
  have hsteps := fitsHead_natCast hvalid.steps
  refine kept_part ⟨exUnits.mem, exUnits.steps, some (pairBytes exUnits.mem exUnits.steps)⟩ ?_
    (dataItem_exUnits hvalid.mem hvalid.steps)
    (ExUnits.fromCbor_ok hvalid.mem hvalid.steps) ⟨rfl, rfl⟩
  rw [ExUnits.toCbor, hvalid.originalBytes, cachedOr_none]
  exact encodeAsHex_ok (encodes_pair hmem hsteps)

theorem encodes_interval_then (hvalid : interval.Valid) {next : Unit → EncodeM Unit}
    {bytes : List UInt8} (hnext : Encodes (next ()) bytes) :
    Encodes (writeInterval interval >>= next) (intervalBytes interval ++ bytes) :=
  (encodes_interval hvalid).bind hnext

theorem reads_interval_then {α : Type} {interval : UnitInterval} (hvalid : interval.Valid)
    (hlength : (intervalBytes interval).length < 2 ^ 53) {next : UnitInterval → DecodeM α}
    {items : ℕ} {bytes : List UInt8} {value : α}
    (hnext : Reads (next interval.decoded) items bytes value) :
    Reads (readInterval >>= next) (1 + items) (intervalBytes interval ++ bytes) value :=
  (readsItem_interval hvalid hlength).bind hnext

theorem items_intervals {intervals : List UnitInterval}
    (hvalid : ∀ interval ∈ intervals, interval.Valid) :
    Items intervals.length (intervals.flatMap intervalBytes) := by
  induction intervals with
  | nil => exact Items.nil
  | cons interval rest ih =>
    rw [List.forall_mem_cons] at hvalid
    exact Items.cons (dataItem_interval hvalid.1) (ih hvalid.2)

def ExUnitPrices.intervals (prices : ExUnitPrices) : List UnitInterval :=
  [prices.memPrice, prices.stepsPrice]

structure ExUnitPrices.Valid (prices : ExUnitPrices) : Prop where
  intervals : ∀ interval ∈ prices.intervals, interval.Valid
  originalBytes : prices.originalBytes = none

def ExUnitPrices.Same (prices prices' : ExUnitPrices) : Prop :=
  List.Forall₂ UnitInterval.Same prices.intervals prices'.intervals

def PoolVotingThresholds.intervals (thresholds : PoolVotingThresholds) : List UnitInterval :=
  [thresholds.motionNoConfidence, thresholds.committeeNormal, thresholds.committeeNoConfidence,
    thresholds.hardForkInitiation, thresholds.securityRelevantParam]

structure PoolVotingThresholds.Valid (thresholds : PoolVotingThresholds) : Prop where
  intervals : ∀ interval ∈ thresholds.intervals, interval.Valid
  originalBytes : thresholds.originalBytes = none

def PoolVotingThresholds.Same (thresholds thresholds' : PoolVotingThresholds) : Prop :=
  List.Forall₂ UnitInterval.Same thresholds.intervals thresholds'.intervals

def DrepVotingThresholds.intervals (thresholds : DrepVotingThresholds) : List UnitInterval :=
  [thresholds.motionNoConfidence, thresholds.committeeNormal, thresholds.committeeNoConfidence,
    thresholds.updateConstitution, thresholds.hardForkInitiation, thresholds.ppNetworkGroup,
    thresholds.ppEconomicGroup, thresholds.ppTechnicalGroup, thresholds.ppGovernanceGroup,
    thresholds.treasuryWithdrawal]

structure DrepVotingThresholds.Valid (thresholds : DrepVotingThresholds) : Prop where
  intervals : ∀ interval ∈ thresholds.intervals, interval.Valid
  originalBytes : thresholds.originalBytes = none

def DrepVotingThresholds.Same (thresholds thresholds' : DrepVotingThresholds) : Prop :=
  List.Forall₂ UnitInterval.Same thresholds.intervals thresholds'.intervals

theorem forall₂_same_decoded (intervals : List UnitInterval) :
    List.Forall₂ UnitInterval.Same (intervals.map UnitInterval.decoded) intervals := by
  induction intervals with
  | nil => exact List.Forall₂.nil
  | cons interval rest ih => exact List.Forall₂.cons interval.same_decoded ih

theorem encodes_last_interval (hvalid : interval.Valid) :
    Encodes (writeInterval interval) (intervalBytes interval ++ []) := by
  rw [List.append_nil]
  exact encodes_interval hvalid

theorem kept_prices {prices : ExUnitPrices} (hvalid : prices.Valid) :
    Kept (writePart ExUnitPrices.toCbor) (readPart ExUnitPrices.fromCbor) ExUnitPrices.Same
      prices := by
  have hitems := items_intervals hvalid.intervals
  have hin : prices.memPrice ∈ prices.intervals ∧ prices.stepsPrice ∈ prices.intervals := by
    simp [ExUnitPrices.intervals]
  refine kept_part
    ⟨prices.memPrice.decoded, prices.stepsPrice.decoded,
      some (encodeHead .array 2 ++ prices.intervals.flatMap intervalBytes)⟩ ?_
    (@dataItem_fixedArray 2 _ (by decide) hitems) (fun hlength => ?_)
    (forall₂_same_decoded prices.intervals)
  · rw [ExUnitPrices.toCbor, hvalid.originalBytes, cachedOr_none]
    refine encodeAsHex_ok (Encodes.write (writes_startArray (by decide)) ?_)
    refine encodes_interval_then (hvalid.intervals _ hin.1) ?_
    exact encodes_last_interval (hvalid.intervals _ hin.2)
  · apply ReadsItem.decodeWith _ hlength
    refine readsItem_fixedArray (by decide) hitems.le_length ?_
    change Reads _ (1 + (1 + 0)) _ _
    have hreads {α : Type} (interval : UnitInterval) (hmem : interval ∈ prices.intervals) :=
      @reads_interval_then α interval (hvalid.intervals interval hmem)
        (length_part_lt hlength hmem)
    refine hreads _ hin.1 ?_
    refine hreads _ hin.2 ?_
    exact Reads.pure _

theorem kept_poolThresholds {thresholds : PoolVotingThresholds} (hvalid : thresholds.Valid) :
    Kept (writePart PoolVotingThresholds.toCbor) (readPart PoolVotingThresholds.fromCbor)
      PoolVotingThresholds.Same thresholds := by
  have hitems := items_intervals hvalid.intervals
  have hin (i : Fin 5) : thresholds.intervals.get i ∈ thresholds.intervals := List.get_mem _ _
  refine kept_part
    ⟨thresholds.motionNoConfidence.decoded, thresholds.committeeNormal.decoded,
      thresholds.committeeNoConfidence.decoded, thresholds.hardForkInitiation.decoded,
      thresholds.securityRelevantParam.decoded,
      some (encodeHead .array 5 ++ thresholds.intervals.flatMap intervalBytes)⟩ ?_
    (@dataItem_fixedArray 5 _ (by decide) hitems) (fun hlength => ?_)
    (forall₂_same_decoded thresholds.intervals)
  · rw [PoolVotingThresholds.toCbor, hvalid.originalBytes, cachedOr_none]
    refine encodeAsHex_ok (Encodes.write (writes_startArray (by decide)) ?_)
    refine encodes_interval_then (hvalid.intervals _ (hin 0)) ?_
    refine encodes_interval_then (hvalid.intervals _ (hin 1)) ?_
    refine encodes_interval_then (hvalid.intervals _ (hin 2)) ?_
    refine encodes_interval_then (hvalid.intervals _ (hin 3)) ?_
    exact encodes_last_interval (hvalid.intervals _ (hin 4))
  · apply ReadsItem.decodeWith _ hlength
    refine readsItem_fixedArray (by decide) hitems.le_length ?_
    change Reads _ (1 + (1 + (1 + (1 + (1 + 0))))) _ _
    have hreads {α : Type} (i : Fin 5) :=
      @reads_interval_then α _ (hvalid.intervals _ (hin i))
        (length_part_lt hlength (hin i))
    refine hreads 0 ?_
    refine hreads 1 ?_
    refine hreads 2 ?_
    refine hreads 3 ?_
    refine hreads 4 ?_
    exact Reads.pure _

theorem kept_drepThresholds {thresholds : DrepVotingThresholds} (hvalid : thresholds.Valid) :
    Kept (writePart DrepVotingThresholds.toCbor) (readPart DrepVotingThresholds.fromCbor)
      DrepVotingThresholds.Same thresholds := by
  have hitems := items_intervals hvalid.intervals
  have hin (i : Fin 10) : thresholds.intervals.get i ∈ thresholds.intervals := List.get_mem _ _
  refine kept_part
    ⟨thresholds.motionNoConfidence.decoded, thresholds.committeeNormal.decoded,
      thresholds.committeeNoConfidence.decoded, thresholds.updateConstitution.decoded,
      thresholds.hardForkInitiation.decoded, thresholds.ppNetworkGroup.decoded,
      thresholds.ppEconomicGroup.decoded, thresholds.ppTechnicalGroup.decoded,
      thresholds.ppGovernanceGroup.decoded, thresholds.treasuryWithdrawal.decoded,
      some (encodeHead .array 10 ++ thresholds.intervals.flatMap intervalBytes)⟩ ?_
    (@dataItem_fixedArray 10 _ (by decide) hitems) (fun hlength => ?_)
    (forall₂_same_decoded thresholds.intervals)
  · rw [DrepVotingThresholds.toCbor, hvalid.originalBytes, cachedOr_none]
    refine encodeAsHex_ok (Encodes.write (writes_startArray (by decide)) ?_)
    refine encodes_interval_then (hvalid.intervals _ (hin 0)) ?_
    refine encodes_interval_then (hvalid.intervals _ (hin 1)) ?_
    refine encodes_interval_then (hvalid.intervals _ (hin 2)) ?_
    refine encodes_interval_then (hvalid.intervals _ (hin 3)) ?_
    refine encodes_interval_then (hvalid.intervals _ (hin 4)) ?_
    refine encodes_interval_then (hvalid.intervals _ (hin 5)) ?_
    refine encodes_interval_then (hvalid.intervals _ (hin 6)) ?_
    refine encodes_interval_then (hvalid.intervals _ (hin 7)) ?_
    refine encodes_interval_then (hvalid.intervals _ (hin 8)) ?_
    exact encodes_last_interval (hvalid.intervals _ (hin 9))
  · apply ReadsItem.decodeWith _ hlength
    refine readsItem_fixedArray (by decide) hitems.le_length ?_
    change Reads _ (1 + (1 + (1 + (1 + (1 + (1 + (1 + (1 + (1 + (1 + 0)))))))))) _ _
    have hreads {α : Type} (i : Fin 10) :=
      @reads_interval_then α _ (hvalid.intervals _ (hin i))
        (length_part_lt hlength (hin i))
    refine hreads 0 ?_
    refine hreads 1 ?_
    refine hreads 2 ?_
    refine hreads 3 ?_
    refine hreads 4 ?_
    refine hreads 5 ?_
    refine hreads 6 ?_
    refine hreads 7 ?_
    refine hreads 8 ?_
    refine hreads 9 ?_
    exact Reads.pure _

structure CostModel.Valid (language : ℤ) (model : CostModel) : Prop where
  language : IsNumber language ∧ model.language = language
  costs : ∀ cost ∈ model.costs, IsNumber cost
  length : model.costs.length < 2 ^ 53

structure Costmdls.Valid (costmdls : Costmdls) : Prop where
  models : ∀ entry ∈ costmdls.models.entries, CostModel.Valid entry.1 entry.2
  length : costmdls.models.entries.length < 2 ^ 53
  originalBytes : costmdls.originalBytes = none

def Costmdls.Same (costmdls costmdls' : Costmdls) : Prop :=
  costmdls.models.entries.Perm costmdls'.models.entries

def costsBytes (costs : List ℤ) : List UInt8 :=
  encodeHead .array costs.length ++ costs.flatMap encodeInt

def costModelBytes (entry : ℤ × CostModel) : List UInt8 :=
  encodeInt entry.1 ++ costsBytes entry.2.costs

theorem items_costs (hcosts : ∀ cost ∈ costs, IsNumber cost) :
    Items costs.length (costs.flatMap encodeInt) := by
  induction costs with
  | nil => exact Items.nil
  | cons cost rest ih =>
    rw [List.forall_mem_cons] at hcosts
    exact Items.cons (dataItem_encodeInt hcosts.1.fits.1 hcosts.1.fits.2) (ih hcosts.2)

theorem rounds_costs (hcosts : ∀ cost ∈ costs, IsNumber cost) (before : List ℤ) :
    Rounds readCost before costs.length (costs.flatMap encodeInt) (before ++ costs) := by
  induction costs generalizing before with
  | nil =>
    rw [List.append_nil]
    exact Rounds.nil before
  | cons cost rest ih =>
    rw [List.forall_mem_cons] at hcosts
    obtain ⟨hlower, hupper⟩ := hcosts.1.fits
    have hround : ReadsRound (readCost before) (1 + 0) (encodeInt cost ++ []) (before ++ [cost]) := by
      refine readsRound (dataItem_encodeInt hlower hupper) (readsItem_int hlower hupper) ?_
      rw [hcosts.1.exact]
      exact Reads.pure _
    rw [List.append_nil] at hround
    have hrest := ih hcosts.2 (before ++ [cost])
    rw [List.append_assoc] at hrest
    rw [List.length_cons, Nat.add_comm]
    exact Rounds.cons hround hrest

theorem readsItem_costs (hcosts : ∀ cost ∈ costs, IsNumber cost) (hlength : costs.length < 2 ^ 53)
    (henough : costs.length < rounds) :
    ReadsItem (readArray readCost rounds []) (costsBytes costs) (some costs.length, costs) :=
  readsItem_array (Framed.definite (head_encodeHead .array (by omega))) (rounds_costs hcosts [])
    (items_costs hcosts).le_length henough

theorem rounds_costModels {entries : List (ℤ × CostModel)}
    (hentries : ∀ entry ∈ entries, CostModel.Valid entry.1 entry.2)
    (henough : ∀ entry ∈ entries, entry.2.costs.length < rounds) (before : JsMap ℤ CostModel)
    (hnew : ((before.entries ++ entries).map Prod.fst).Nodup) :
    ∃ models, Rounds (readCostModel rounds) before (2 * entries.length)
        (entries.flatMap costModelBytes) models ∧
      models.entries = before.entries ++ entries := by
  induction entries generalizing before with
  | nil => exact ⟨before, Rounds.nil before, (List.append_nil _).symm⟩
  | cons entry rest ih =>
    obtain ⟨key, model⟩ := entry
    rw [List.forall_mem_cons] at hentries henough
    obtain ⟨hlanguage, hsame⟩ := hentries.1.language
    obtain ⟨hlower, hupper⟩ := hlanguage.fits
    have hfresh : key ∉ before.entries.map Prod.fst := by
      rw [List.map_append, List.nodup_append] at hnew
      intro hmem
      exact hnew.2.2 key hmem key (by simp) rfl
    have hset : (before.set key model).entries = before.entries ++ [(key, model)] :=
      JsMap.entries_set_new _ hfresh
    have hkey : model.language = key := hsame
    have hmodel : (⟨key, model.costs⟩ : CostModel) = model := by rw [← hkey]
    have hround : ReadsRound (readCostModel rounds before) (1 + 1) (costModelBytes (key, model))
        (before.set key model) := by
      refine readsRound (dataItem_encodeInt hlower hupper) (readsItem_int hlower hupper) ?_
      refine (readsItem_costs hentries.1.costs hentries.1.length henough.1).last fun reader => ?_
      rw [hlanguage.exact]
      change EStateM.Result.ok (before.set key ⟨key, model.costs⟩) reader = _
      rw [hmodel]
    obtain ⟨models, hrounds, hmodels⟩ := ih hentries.2 henough.2 (before.set key model) (by
      rw [hset, List.append_assoc]
      exact hnew)
    refine ⟨models, ?_, ?_⟩
    · rw [List.length_cons, Nat.mul_succ, Nat.add_comm]
      exact Rounds.cons hround hrounds
    · rw [hmodels, hset, List.append_assoc]
      rfl

theorem dataItem_costs (hcosts : ∀ cost ∈ costs, IsNumber cost) (hlength : costs.length < 2 ^ 53) :
    DataItem (costsBytes costs) :=
  dataItem_fixedArray (by omega) (items_costs hcosts)

theorem writes_costModel {entry : ℤ × CostModel} (hvalid : CostModel.Valid entry.1 entry.2) :
    Writes (writeCostModel entry) (costModelBytes entry) := by
  obtain ⟨hlower, hupper⟩ := hvalid.language.1.fits
  have hlength := hvalid.length
  refine (writes_int hlower hupper).bind ?_
  refine Writes.bind (writes_startArray (by omega)) ?_
  exact writes_forM fun cost hcost =>
    writes_int (hvalid.costs cost hcost).fits.1 (hvalid.costs cost hcost).fits.2

theorem kept_costModels {costmdls : Costmdls} (hvalid : costmdls.Valid) :
    Kept (writePart Costmdls.toCbor) (readPart Costmdls.fromCbor) Costmdls.Same costmdls := by
  have hperm := perm_sortBy compareCostModels costmdls.models.entries
  have hlengths := hvalid.length
  rw [← hperm.length_eq] at hlengths
  have hentries : ∀ entry ∈ sortBy compareCostModels costmdls.models.entries,
      CostModel.Valid entry.1 entry.2 := fun entry hmem =>
    hvalid.models entry (hperm.mem_iff.mp hmem)
  have hnodup := (hperm.map Prod.fst).nodup_iff.mpr costmdls.models.nodup
  generalize hsorted : sortBy compareCostModels costmdls.models.entries = sorted at *
  have hitem : DataItem (encodeHead .map sorted.length ++ sorted.flatMap costModelBytes) :=
    dataItem_entries (by omega) fun entry hmem =>
      ⟨dataItem_encodeInt (hentries entry hmem).language.1.fits.1
        (hentries entry hmem).language.1.fits.2,
        dataItem_costs (hentries entry hmem).costs (hentries entry hmem).length⟩
  have hcount : 2 * sorted.length ≤ (sorted.flatMap costModelBytes).length :=
    (items_entries fun entry hmem =>
      ⟨dataItem_encodeInt (hentries entry hmem).language.1.fits.1
        (hentries entry hmem).language.1.fits.2,
        dataItem_costs (hentries entry hmem).costs (hentries entry hmem).length⟩).le_length
  generalize hcbor : encodeHead .map sorted.length ++ sorted.flatMap costModelBytes = cbor at *
  have hshort : (sorted.flatMap costModelBytes).length < cbor.length + 1 := by
    rw [← hcbor, List.length_append]
    omega
  have henough : ∀ entry ∈ sorted, entry.2.costs.length < cbor.length + 1 := by
    intro entry hmem
    have hcosts := (items_costs (hentries entry hmem).costs).le_length
    have hpart : (costModelBytes entry).length ≤ _ := length_le_flatMap hmem
    rw [costModelBytes, costsBytes, List.length_append, List.length_append] at hpart
    omega
  obtain ⟨models, hrounds, hmodels⟩ := rounds_costModels hentries henough JsMap.empty hnodup
  refine kept_part ⟨models, some cbor⟩ ?_ hitem (fun hlength => ?_) ?_
  · rw [Costmdls.toCbor, hvalid.originalBytes, cachedOr_none, hsorted, ← hcbor]
    refine encodeAsHex_ok (Encodes.write (writes_startMap (by omega)) ?_)
    exact encodes_writing (writes_forM fun entry hmem => writes_costModel (hentries entry hmem))
  · have hread := readsItem_fields hrounds hcount hshort
    rw [hcbor] at hread
    refine decodeWith_ok hlength fun reader hfresh => ?_
    exact Succeeds.bind (hread reader [] hfresh.bytes hfresh.accepts) Succeeds.pure
  · change models.entries.Perm costmdls.models.entries
    rw [hmodels]
    exact hperm

theorem kept_entropy {entropy : List UInt8} (hlength : entropy.length < 2 ^ 64) :
    Kept (fun entropy => writing (writeExtraEntropy entropy)) readExtraEntropy Eq entropy := by
  by_cases hempty : entropy.length = 0
  · have hzero : DataItem (encodeInt 0) := dataItem_encodeInt (by norm_num) (by norm_num)
    have hitems := items_one hzero
    refine ⟨encodeHead .array 1 ++ encodeInt 0, entropy, ?_,
      dataItem_fixedArray (by decide) hitems, fun _ => ?_, rfl⟩
    · apply encodes_writing
      rw [writeExtraEntropy, if_pos hempty]
      exact (@writes_startArray 1 (by decide)).bind (@writes_int 0 (by norm_num) (by norm_num))
    · have hframed := @Framed.definite 4 1 (encodeInt 0) _ (head_encodeHead .array (by decide))
      refine readsItem_closedArray hframed hitems.le_length ?_
      rw [List.length_eq_zero_iff.mp hempty, readEntropy, if_pos rfl]
      exact (readsItem_encodedValue hzero).last fun _ => rfl
  · have hone : DataItem (encodeInt 1) := dataItem_encodeInt (by norm_num) (by norm_num)
    have hitems := Items.cons hone (items_one (dataItem_encodeChunk hlength))
    refine ⟨encodeHead .array 2 ++ (encodeInt 1 ++ encodeChunk entropy), entropy, ?_,
      dataItem_fixedArray (by decide) hitems, fun _ => ?_, rfl⟩
    · apply encodes_writing
      rw [writeExtraEntropy, if_neg hempty]
      refine (@writes_startArray 2 (by decide)).bind ?_
      exact (@writes_int 1 (by norm_num) (by norm_num)).bind (writes_byteString hlength)
    · have hframed := @Framed.definite 4 2 (encodeInt 1 ++ encodeChunk entropy) _
        (head_encodeHead .array (by decide))
      refine readsItem_closedArray hframed hitems.le_length ?_
      rw [readEntropy, if_neg (by decide)]
      change Reads _ (1 + 1) _ _
      refine (readsItem_encodedValue hone).bind ?_
      exact (readsItem_byteString hlength).reads

end CardanoSdk.Serialization
