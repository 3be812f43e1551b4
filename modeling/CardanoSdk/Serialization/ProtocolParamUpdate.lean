import CardanoSdk.Serialization.KeyedMap
import CardanoSdk.Serialization.Records
import CardanoSdk.Serialization.Value

/-!
The codecs of `ProtocolParamUpdate` of `core/src/Serialization/Update` and of the
structures that it holds. The private fields are the values of one function from the
parameters.
-/

namespace CardanoSdk.Serialization

open Lib Cbor Plutus Cardano

def rationalNumberTag : ℕ := 30

structure UnitInterval where
  numerator : ℤ
  denominator : ℤ
  originalBytes : Option (List UInt8) := none
  deriving DecidableEq

/-- The message about another tag peeks at the tag behind it. -/
def UnitInterval.fromCbor (cbor : List UInt8) : Except DecodeException UnitInterval :=
  decodeWith cbor do
    let tag ← reading readTag
    if tag ≠ rationalNumberTag then
      let next ← reading peekTag
      throw (invalidCbor ("Expected tag " ++ numberText rationalNumberTag ++ ", but got " ++
        numberText next))
    else readFixedArray 2 do
      let numerator ← reading readInt
      let denominator ← reading readInt
      pure { numerator := numerator, denominator := denominator, originalBytes := some cbor }

structure ProtocolVersion where
  major : ℤ
  minor : ℤ
  originalBytes : Option (List UInt8) := none
  deriving DecidableEq

def ProtocolVersion.fromCbor (cbor : List UInt8) : Except DecodeException ProtocolVersion :=
  decodeWith cbor <| readFixedArray 2 do
    let major ← reading readInt
    let minor ← reading readInt
    pure { major := toNumber major, minor := toNumber minor, originalBytes := some cbor }

structure ExUnits where
  mem : ℕ
  steps : ℕ
  originalBytes : Option (List UInt8) := none
  deriving DecidableEq

def ExUnits.fromCbor (cbor : List UInt8) : Except DecodeException ExUnits :=
  decodeWith cbor <| readFixedArray 2 do
    let mem ← reading readUInt
    let steps ← reading readUInt
    pure { mem := mem, steps := steps, originalBytes := some cbor }

def readInterval : DecodeM UnitInterval := readPart UnitInterval.fromCbor

structure ExUnitPrices where
  memPrice : UnitInterval
  stepsPrice : UnitInterval
  originalBytes : Option (List UInt8) := none
  deriving DecidableEq

def ExUnitPrices.fromCbor (cbor : List UInt8) : Except DecodeException ExUnitPrices :=
  decodeWith cbor <| readFixedArray 2 do
    let memPrices ← readInterval
    let stepPrices ← readInterval
    pure { memPrice := memPrices, stepsPrice := stepPrices, originalBytes := some cbor }

structure PoolVotingThresholds where
  motionNoConfidence : UnitInterval
  committeeNormal : UnitInterval
  committeeNoConfidence : UnitInterval
  hardForkInitiation : UnitInterval
  securityRelevantParam : UnitInterval
  originalBytes : Option (List UInt8) := none
  deriving DecidableEq

def PoolVotingThresholds.fromCbor (cbor : List UInt8) :
    Except DecodeException PoolVotingThresholds :=
  decodeWith cbor <| readFixedArray 5 do
    let motionNoConfidence ← readInterval
    let committeeNormal ← readInterval
    let committeeNoConfidence ← readInterval
    let hardForkInitiation ← readInterval
    let securityRelevantParam ← readInterval
    pure ⟨motionNoConfidence, committeeNormal, committeeNoConfidence, hardForkInitiation,
      securityRelevantParam, some cbor⟩

structure DrepVotingThresholds where
  motionNoConfidence : UnitInterval
  committeeNormal : UnitInterval
  committeeNoConfidence : UnitInterval
  updateConstitution : UnitInterval
  hardForkInitiation : UnitInterval
  ppNetworkGroup : UnitInterval
  ppEconomicGroup : UnitInterval
  ppTechnicalGroup : UnitInterval
  ppGovernanceGroup : UnitInterval
  treasuryWithdrawal : UnitInterval
  originalBytes : Option (List UInt8) := none
  deriving DecidableEq

def DrepVotingThresholds.fromCbor (cbor : List UInt8) :
    Except DecodeException DrepVotingThresholds :=
  decodeWith cbor <| readFixedArray 10 do
    let motionNoConfidence ← readInterval
    let committeeNormal ← readInterval
    let committeeNoConfidence ← readInterval
    let updateConstitution ← readInterval
    let hardForkInitiation ← readInterval
    let ppNetworkGroup ← readInterval
    let ppEconomicGroup ← readInterval
    let ppTechnicalGroup ← readInterval
    let ppGovernanceGroup ← readInterval
    let treasuryWithdrawal ← readInterval
    pure ⟨motionNoConfidence, committeeNormal, committeeNoConfidence, updateConstitution,
      hardForkInitiation, ppNetworkGroup, ppEconomicGroup, ppTechnicalGroup, ppGovernanceGroup,
      treasuryWithdrawal, some cbor⟩

structure CostModel where
  language : ℤ
  costs : List ℤ
  deriving DecidableEq

structure Costmdls where
  models : JsMap ℤ CostModel
  originalBytes : Option (List UInt8) := none

/-- `costs.push(Number(reader.readInt()))` -/
def readCost (costs : List ℤ) : DecodeM (List ℤ) := do
  let cost ← reading readInt
  pure (costs ++ [toNumber cost])

def readCostModel (rounds : ℕ) (models : JsMap ℤ CostModel) : DecodeM (JsMap ℤ CostModel) := do
  let key ← reading readInt
  let language := toNumber key
  let (_, costs) ← readArray readCost rounds []
  pure (models.set language { language := language, costs := costs })

def Costmdls.fromCbor (cbor : List UInt8) : Except DecodeException Costmdls :=
  decodeWith cbor do
    let models ← readFields (readCostModel (cbor.length + 1)) (cbor.length + 1) JsMap.empty
    pure { models := models, originalBytes := some cbor }

inductive ProtocolParam where
  | minFeeA | minFeeB | maxBlockBodySize | maxTxSize | maxBlockHeaderSize | keyDeposit
  | poolDeposit | maxEpoch | nOpt | poolPledgeInfluence | expansionRate | treasuryGrowthRate | d
  | extraEntropy | protocolVersion | minPoolCost | adaPerUtxoByte | costModels | executionCosts
  | maxTxExUnits | maxBlockExUnits | maxValueSize | collateralPercentage | maxCollateralInputs
  | poolVotingThresholds | drepVotingThresholds | minCommitteeSize | committeeTermLimit
  | governanceActionValidityPeriod | governanceActionDeposit | drepDeposit | drepInactivityPeriod
  | minFeeRefScriptCostPerByte | maxRefScriptSizePerBlock | maxRefScriptSizePerTx
  | refScriptCostStride | refScriptCostMultiplier
  deriving DecidableEq

/-- The kinds of values: a `bigint`, what `Number` makes of one, and structures. -/
inductive ParamKind where
  | coin | number | interval | entropy | protocolVersion | costModels | prices | exUnits
  | poolThresholds | drepThresholds

def ParamKind.Value : ParamKind → Type
  | .coin => ℤ
  | .number => ℤ
  | .interval => UnitInterval
  | .entropy => List UInt8
  | .protocolVersion => ProtocolVersion
  | .costModels => Costmdls
  | .prices => ExUnitPrices
  | .exUnits => ExUnits
  | .poolThresholds => PoolVotingThresholds
  | .drepThresholds => DrepVotingThresholds

/-- The entropy in an array of one element is empty. -/
def readEntropy (length : Option ℕ) : DecodeM (List UInt8) :=
  if length = some 1 then do
    let _ ← reading readEncodedValue
    pure []
  else do
    let _ ← reading readEncodedValue
    reading readByteString

def readExtraEntropy : DecodeM (List UInt8) := do
  let length ← reading readStartArray
  let entropy ← readEntropy length
  reading readEndArray
  pure entropy

def ParamKind.read : (kind : ParamKind) → DecodeM kind.Value
  | .coin => reading readInt
  | .number => do
      let value ← reading readInt
      pure (toNumber value)
  | .interval => readInterval
  | .entropy => readExtraEntropy
  | .protocolVersion => readPart ProtocolVersion.fromCbor
  | .costModels => readPart Costmdls.fromCbor
  | .prices => readPart ExUnitPrices.fromCbor
  | .exUnits => readPart ExUnits.fromCbor
  | .poolThresholds => readPart PoolVotingThresholds.fromCbor
  | .drepThresholds => readPart DrepVotingThresholds.fromCbor

namespace ProtocolParam

def kind : ProtocolParam → ParamKind
  | minFeeA | minFeeB | keyDeposit | poolDeposit | minPoolCost | adaPerUtxoByte => .coin
  | maxBlockBodySize | maxTxSize | maxBlockHeaderSize | maxEpoch | nOpt | maxValueSize
  | collateralPercentage | maxCollateralInputs | minCommitteeSize | committeeTermLimit
  | governanceActionValidityPeriod | governanceActionDeposit | drepDeposit
  | drepInactivityPeriod | maxRefScriptSizePerBlock | maxRefScriptSizePerTx
  | refScriptCostStride => .number
  | poolPledgeInfluence | expansionRate | treasuryGrowthRate | d | minFeeRefScriptCostPerByte
  | refScriptCostMultiplier => .interval
  | extraEntropy => .entropy
  | protocolVersion => .protocolVersion
  | costModels => .costModels
  | executionCosts => .prices
  | maxTxExUnits | maxBlockExUnits => .exUnits
  | poolVotingThresholds => .poolThresholds
  | drepVotingThresholds => .drepThresholds

/-- The cases of the `switch`. Number 15 is missing. -/
def ofKey? : ℤ → Option ProtocolParam
  | 0 => some minFeeA
  | 1 => some minFeeB
  | 2 => some maxBlockBodySize
  | 3 => some maxTxSize
  | 4 => some maxBlockHeaderSize
  | 5 => some keyDeposit
  | 6 => some poolDeposit
  | 7 => some maxEpoch
  | 8 => some nOpt
  | 9 => some poolPledgeInfluence
  | 10 => some expansionRate
  | 11 => some treasuryGrowthRate
  | 12 => some d
  | 13 => some extraEntropy
  | 14 => some protocolVersion
  | 16 => some minPoolCost
  | 17 => some adaPerUtxoByte
  | 18 => some costModels
  | 19 => some executionCosts
  | 20 => some maxTxExUnits
  | 21 => some maxBlockExUnits
  | 22 => some maxValueSize
  | 23 => some collateralPercentage
  | 24 => some maxCollateralInputs
  | 25 => some poolVotingThresholds
  | 26 => some drepVotingThresholds
  | 27 => some minCommitteeSize
  | 28 => some committeeTermLimit
  | 29 => some governanceActionValidityPeriod
  | 30 => some governanceActionDeposit
  | 31 => some drepDeposit
  | 32 => some drepInactivityPeriod
  | 33 => some minFeeRefScriptCostPerByte
  | 34 => some maxRefScriptSizePerBlock
  | 35 => some maxRefScriptSizePerTx
  | 36 => some refScriptCostStride
  | 37 => some refScriptCostMultiplier
  | _ => none

abbrev Value (param : ProtocolParam) : Type := param.kind.Value

end ProtocolParam

structure ProtocolParamUpdate where
  params : (param : ProtocolParam) → Option param.Value := fun _ => none
  originalBytes : Option (List UInt8) := none

namespace ProtocolParamUpdate

def fields : KeyedFields ProtocolParamUpdate where
  Field := ProtocolParam
  Value := ProtocolParam.Value
  ofKey? := ProtocolParam.ofKey?
  read param := param.kind.read
  set update param value :=
    { update with params := Function.update update.params param (some value) }
  get update := update.params

def fromCbor (cbor : List UInt8) : Except DecodeException ProtocolParamUpdate :=
  decodeWith cbor do
    let params ← readFields fields.step (cbor.length + 1) {}
    pure { params with originalBytes := some cbor }

end ProtocolParamUpdate

def UnitInterval.toCbor (interval : UnitInterval) : Except EncodeException (List UInt8) :=
  cachedOr interval.originalBytes <| encodeAsHex do
    writing (writeTag rationalNumberTag)
    writing (writeStartArray (some 2))
    writing (writeInt interval.numerator)
    writing (writeInt interval.denominator)

/-- `MAX_MINOR_PROTOCOL_VERSION` and `MAX_WORD32` -/
def maxWord32 : ℤ := 4294967295

def ProtocolVersion.toCbor (version : ProtocolVersion) : Except EncodeException (List UInt8) :=
  cachedOr version.originalBytes <|
    if version.minor < 0 ∨ maxWord32 < version.minor then
      .error (.error (invalidState ("Minor protocol version must be a uint of size 4 (0 to " ++
        integerText maxWord32 ++ "), but got " ++ integerText version.minor)))
    else encodeAsHex do
      writing (writeStartArray (some 2))
      writing (writeInt version.major)
      writing (writeInt version.minor)

def ExUnits.toCbor (exUnits : ExUnits) : Except EncodeException (List UInt8) :=
  cachedOr exUnits.originalBytes <| encodeAsHex do
    writing (writeStartArray (some 2))
    writing (writeInt exUnits.mem)
    writing (writeInt exUnits.steps)

def writeInterval : UnitInterval → EncodeM Unit := writePart UnitInterval.toCbor

def ExUnitPrices.toCbor (prices : ExUnitPrices) : Except EncodeException (List UInt8) :=
  cachedOr prices.originalBytes <| encodeAsHex do
    writing (writeStartArray (some 2))
    writeInterval prices.memPrice
    writeInterval prices.stepsPrice

def PoolVotingThresholds.toCbor (thresholds : PoolVotingThresholds) :
    Except EncodeException (List UInt8) :=
  cachedOr thresholds.originalBytes <| encodeAsHex do
    writing (writeStartArray (some 5))
    writeInterval thresholds.motionNoConfidence
    writeInterval thresholds.committeeNormal
    writeInterval thresholds.committeeNoConfidence
    writeInterval thresholds.hardForkInitiation
    writeInterval thresholds.securityRelevantParam

def DrepVotingThresholds.toCbor (thresholds : DrepVotingThresholds) :
    Except EncodeException (List UInt8) :=
  cachedOr thresholds.originalBytes <| encodeAsHex do
    writing (writeStartArray (some 10))
    writeInterval thresholds.motionNoConfidence
    writeInterval thresholds.committeeNormal
    writeInterval thresholds.committeeNoConfidence
    writeInterval thresholds.updateConstitution
    writeInterval thresholds.hardForkInitiation
    writeInterval thresholds.ppNetworkGroup
    writeInterval thresholds.ppEconomicGroup
    writeInterval thresholds.ppTechnicalGroup
    writeInterval thresholds.ppGovernanceGroup
    writeInterval thresholds.treasuryWithdrawal

/-- Entries are compared as arrays, that is as their texts. -/
def costModelText (entry : ℤ × CostModel) : String :=
  integerText entry.1 ++ ",[object Object]"

/-- `(a, b) => (a > b ? 1 : -1)` -/
def compareCostModels (a b : ℤ × CostModel) : ℤ :=
  if costModelText b < costModelText a then 1 else -1

def writeCostModel (entry : ℤ × CostModel) : WriteM Unit := do
  writeInt entry.1
  writeStartArray (some entry.2.costs.length)
  entry.2.costs.forM writeInt

def Costmdls.toCbor (costmdls : Costmdls) : Except EncodeException (List UInt8) :=
  cachedOr costmdls.originalBytes <| encodeAsHex do
    let sortedCanonically := sortBy compareCostModels costmdls.models.entries
    writing (writeStartMap (some sortedCanonically.length))
    writing (sortedCanonically.forM writeCostModel)

/-- Without entropy the array has one element. -/
def writeExtraEntropy (entropy : List UInt8) : WriteM Unit :=
  if entropy.length = 0 then do
    writeStartArray (some 1)
    writeInt 0
  else do
    writeStartArray (some 2)
    writeInt 1
    writeByteString entropy

def ParamKind.write : (kind : ParamKind) → kind.Value → EncodeM Unit
  | .coin, value => writing (writeInt value)
  | .number, value => writing (writeInt value)
  | .interval, value => writeInterval value
  | .entropy, value => writing (writeExtraEntropy value)
  | .protocolVersion, value => writePart ProtocolVersion.toCbor value
  | .costModels, value => writePart Costmdls.toCbor value
  | .prices, value => writePart ExUnitPrices.toCbor value
  | .exUnits, value => writePart ExUnits.toCbor value
  | .poolThresholds, value => writePart PoolVotingThresholds.toCbor value
  | .drepThresholds, value => writePart DrepVotingThresholds.toCbor value

/-- The family of `assertUint32` and `assertPositiveWord32`. -/
def assertWord32 (least : ℤ) (argName : String) (value : ℤ) : Except String Unit :=
  if value < least ∨ maxWord32 < value then
    .error (invalidArgument argName ("Expected an integer between " ++ integerText least ++
      " and " ++ integerText maxWord32 ++ ", but got " ++ integerText value))
  else .ok ()

def assertUint32 : String → ℤ → Except String Unit := assertWord32 0

def assertPositiveWord32 : String → ℤ → Except String Unit := assertWord32 1

def assertPositiveInterval (argName : String) (value : UnitInterval) : Except String Unit :=
  if value.numerator < 1 ∨ value.denominator < 1 then
    .error (invalidArgument argName ("Expected a positive interval, but got " ++
      toString value.numerator ++ "/" ++ toString value.denominator))
  else .ok ()

namespace ProtocolParam

def assertValue : (param : ProtocolParam) → param.Value → Except String Unit
  | maxRefScriptSizePerBlock, value => assertUint32 "maxRefScriptSizePerBlock" value
  | maxRefScriptSizePerTx, value => assertUint32 "maxRefScriptSizePerTx" value
  | refScriptCostStride, value => assertPositiveWord32 "refScriptCostStride" value
  | refScriptCostMultiplier, value => assertPositiveInterval "refScriptCostMultiplier" value
  | _, _ => .ok ()

def key : ProtocolParam → ℤ
  | minFeeA => 0
  | minFeeB => 1
  | maxBlockBodySize => 2
  | maxTxSize => 3
  | maxBlockHeaderSize => 4
  | keyDeposit => 5
  | poolDeposit => 6
  | maxEpoch => 7
  | nOpt => 8
  | poolPledgeInfluence => 9
  | expansionRate => 10
  | treasuryGrowthRate => 11
  | d => 12
  | extraEntropy => 13
  | protocolVersion => 14
  | minPoolCost => 16
  | adaPerUtxoByte => 17
  | costModels => 18
  | executionCosts => 19
  | maxTxExUnits => 20
  | maxBlockExUnits => 21
  | maxValueSize => 22
  | collateralPercentage => 23
  | maxCollateralInputs => 24
  | poolVotingThresholds => 25
  | drepVotingThresholds => 26
  | minCommitteeSize => 27
  | committeeTermLimit => 28
  | governanceActionValidityPeriod => 29
  | governanceActionDeposit => 30
  | drepDeposit => 31
  | drepInactivityPeriod => 32
  | minFeeRefScriptCostPerByte => 33
  | maxRefScriptSizePerBlock => 34
  | maxRefScriptSizePerTx => 35
  | refScriptCostStride => 36
  | refScriptCostMultiplier => 37

/-- The parameters in the order in which `#getMapSize` counts them. -/
def counted : List ProtocolParam :=
  [minFeeA, minFeeB, maxBlockBodySize, maxTxSize, maxBlockHeaderSize, keyDeposit, poolDeposit,
    maxEpoch, nOpt, poolPledgeInfluence, expansionRate, treasuryGrowthRate, d, extraEntropy,
    protocolVersion, minPoolCost, adaPerUtxoByte, costModels, executionCosts, maxTxExUnits,
    maxBlockExUnits, maxValueSize, collateralPercentage, maxCollateralInputs, poolVotingThresholds,
    drepVotingThresholds, minCommitteeSize, committeeTermLimit, governanceActionValidityPeriod,
    governanceActionDeposit, drepDeposit, drepInactivityPeriod, minFeeRefScriptCostPerByte,
    maxRefScriptSizePerBlock, maxRefScriptSizePerTx, refScriptCostStride, refScriptCostMultiplier]

/-- The parameters in the order in which they are written. -/
def written : List ProtocolParam :=
  [minFeeA, minFeeB, maxBlockBodySize, maxTxSize, maxBlockHeaderSize, keyDeposit, poolDeposit,
    maxEpoch, nOpt, poolPledgeInfluence, expansionRate, treasuryGrowthRate, d, extraEntropy,
    protocolVersion, minPoolCost, adaPerUtxoByte, costModels, executionCosts, maxTxExUnits,
    maxBlockExUnits, maxValueSize, collateralPercentage, maxCollateralInputs, poolVotingThresholds,
    drepVotingThresholds, minCommitteeSize, committeeTermLimit, governanceActionValidityPeriod,
    governanceActionDeposit, drepDeposit, drepInactivityPeriod, minFeeRefScriptCostPerByte,
    maxRefScriptSizePerBlock, maxRefScriptSizePerTx, refScriptCostStride, refScriptCostMultiplier]

end ProtocolParam

namespace ProtocolParamUpdate

def getMapSize (update : ProtocolParamUpdate) : ℕ :=
  ProtocolParam.counted.countP fun param => (update.params param).isSome

/-- `if (this.#param !== undefined) { ... }` -/
def writeParam (update : ProtocolParamUpdate) (param : ProtocolParam) : EncodeM Unit :=
  match update.params param with
  | none => pure ()
  | some value => do
      encoding ((param.assertValue value).mapError .error)
      writing (writeInt param.key)
      param.kind.write value

def toCbor (update : ProtocolParamUpdate) : Except EncodeException (List UInt8) :=
  cachedOr update.originalBytes <| encodeAsHex do
    writing (writeStartMap (some update.getMapSize))
    ProtocolParam.written.forM update.writeParam

end ProtocolParamUpdate

end CardanoSdk.Serialization
